/-!
# Locations

Byte offsets in a text, and their lines and columns. Lines end with a line feed, columns count
characters, and both start at one.
-/

namespace LosslessJava

/-- The number of bytes of a text. -/
def byteLength : List Char → Nat
  | [] => 0
  | c :: cs => c.utf8Size + byteLength cs

/-- The characters of the text that lie within its first `count` bytes. -/
def takeBytes (count : Nat) : List Char → List Char
  | [] => []
  | c :: cs => if c.utf8Size ≤ count then c :: takeBytes (count - c.utf8Size) cs else []

/-- The characters of the text behind its first `count` bytes. -/
def dropBytes (count : Nat) : List Char → List Char
  | [] => []
  | c :: cs => if c.utf8Size ≤ count then dropBytes (count - c.utf8Size) cs else c :: cs

/-- The characters of the text between two byte offsets. -/
def sliceBytes (start stop : Nat) (source : List Char) : List Char :=
  takeBytes (stop - start) (dropBytes start source)

structure Location where
  offset : Nat
  line : Nat
  column : Nat
deriving DecidableEq

namespace Location

/-- The location of a byte offset; an offset past the end is that of the end. -/
def ofOffset (source : List Char) (offset : Nat) : Location :=
  let offset := min offset (byteLength source)
  let before := takeBytes offset source
  ⟨offset, before.count '\n' + 1, (before.reverse.takeWhile (· != '\n')).length + 1⟩

/-- The location as line and column. -/
def text (l : Location) : String := toString l.line ++ ":" ++ toString l.column

end Location

end LosslessJava
