/-!
# Trivia

The white space and comments in front of a token, kept as written.

* `Trivia.indentation`: the blanks after the last line break, when there is one.
* `Trivia.comments`: the comments of the text, in order.
-/

namespace LosslessJava

/-- White space and comments in front of a token. -/
structure Trivia where
  text : String
deriving DecidableEq

namespace Trivia

/-- No trivia at all. -/
def empty : Trivia := ⟨""⟩

/-- The separator of synthesized tokens. -/
def space : Trivia := ⟨" "⟩

/-- The character that indentation is filled with. -/
def fill (withSpaces : Bool) : Char := if withSpaces then ' ' else '\t'

/-- A line break followed by `width` columns of indentation. -/
def newlineIndent (width : Nat) (withSpaces : Bool) : Trivia :=
  ⟨String.ofList ('\n' :: List.replicate width (fill withSpaces))⟩

def ofList (cs : List Char) : Trivia := ⟨String.ofList cs⟩

def toList (t : Trivia) : List Char := t.text.toList

@[simp] theorem toList_ofList (cs : List Char) : (ofList cs).toList = cs :=
  String.toList_ofList

@[simp] theorem ofList_toList (t : Trivia) : ofList t.toList = t := by
  cases t
  simp [ofList, toList]

@[simp] theorem toList_empty : empty.toList = [] := rfl

def isEmpty (t : Trivia) : Bool := t.text.isEmpty

/-! ## Indentation -/

/-- The token after this trivia is not on the line of the token before it. -/
def startsNewLine (t : Trivia) : Bool := t.toList.contains '\n'

/-- A blank of an indentation. -/
def isIndent (c : Char) : Bool := c == ' ' || c == '\t'

/-- The text after the last line break, `none` without one. -/
def lastLine : List Char → Option (List Char)
  | [] => none
  | c :: cs => (lastLine cs).or (if c == '\n' then some cs else none)

/-- The blanks after the last line break, `none` for a token that does not start its line. -/
def indentation (t : Trivia) : Option (List Char) :=
  (lastLine t.toList).map (·.takeWhile isIndent)

/-- The width of the indentation, zero for a token that does not start its line. -/
def indentWidth (t : Trivia) : Nat :=
  (t.indentation.map List.length).getD 0

/-! ## Comments -/

/-- Splits after the first `*/`. -/
def splitBlockEnd : List Char → Option (List Char × List Char)
  | '*' :: '/' :: cs => some (['*', '/'], cs)
  | c :: cs => (splitBlockEnd cs).map fun (body, rest) => (c :: body, rest)
  | [] => none

theorem append_of_splitBlockEnd {cs body rest : List Char}
    (h : splitBlockEnd cs = some (body, rest)) : body ++ rest = cs := by
  fun_induction splitBlockEnd cs generalizing body rest with
  | case1 cs =>
    cases h
    rfl
  | case2 c cs _ ih =>
    obtain ⟨⟨b, r⟩, hb, heq⟩ := Option.map_eq_some_iff.mp h
    cases heq
    simp [ih hb]
  | case3 => cases h

theorem length_of_splitBlockEnd {cs body rest : List Char}
    (h : splitBlockEnd cs = some (body, rest)) : rest.length ≤ cs.length := by
  rw [← append_of_splitBlockEnd h]
  simp

/-- The comments of a text: a line comment ends before its line feed, a block comment with the
first `*/`, and a comment that does not end takes the rest of the text. -/
def commentsIn : List Char → List (List Char)
  | [] => []
  | '/' :: '/' :: cs =>
    ('/' :: '/' :: cs.takeWhile (· != '\n')) :: commentsIn (cs.dropWhile (· != '\n'))
  | '/' :: '*' :: cs =>
    match _h : splitBlockEnd cs with
    | some (body, rest) => ('/' :: '*' :: body) :: commentsIn rest
    | none => ['/' :: '*' :: cs]
  | _ :: cs => commentsIn cs
termination_by cs => cs.length
decreasing_by
  · have := (List.dropWhile_suffix (l := cs) (· != '\n')).length_le
    simp only [List.length_cons]
    omega
  · have := length_of_splitBlockEnd _h
    simp only [List.length_cons]
    omega
  · simp

def comments (t : Trivia) : List String :=
  (commentsIn t.toList).map String.ofList

def hasComments (t : Trivia) : Bool := !t.comments.isEmpty

end Trivia

end LosslessJava
