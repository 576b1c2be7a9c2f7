/-!
# Paths

Paths are compared component by component. Empty components and `.` do not count, except a `.` at
the start of a relative path.

* `Path.relativeTo`: the path below a base, as written less separators and `.` around it.
-/

namespace LosslessJava.Diff.Path

/-- A path as an absolute or relative sequence of pieces between separators. -/
structure Pieces where
  isAbsolute : Bool
  pieces : List (List Char)

/-- The pieces of a path. -/
def piecesOf (path : String) : Pieces :=
  match path.toList with
  | '/' :: cs => ⟨true, cs.splitOn '/'⟩
  | cs => ⟨false, cs.splitOn '/'⟩

/-- The piece is no component inside a path. -/
def isIdle (piece : List Char) : Bool := piece == [] || piece == ['.']

namespace Pieces

/-- The path starts with `.`, which is a component there. -/
def startsHere (p : Pieces) : Bool := !p.isAbsolute && p.pieces.head? == some ['.']

/-- The components behind the root and behind a `.` at the start. -/
def components (p : Pieces) : List (List Char) := p.pieces.filter (!isIdle ·)

/-- The path has no components. -/
def isEmpty (p : Pieces) : Bool := !p.isAbsolute && !p.startsHere && p.components.isEmpty

end Pieces

/-- The pieces of a path behind the components of a base, `none` where they differ. -/
def behind : List (List Char) → List (List Char) → Option (List (List Char))
  | [], pieces => some pieces
  | _ :: _, [] => none
  | b :: bs, piece :: pieces =>
    if isIdle piece then behind (b :: bs) pieces
    else if piece = b then behind bs pieces
    else none

/-- The pieces without idle ones at the end. -/
def trimEnd (pieces : List (List Char)) : List (List Char) :=
  (pieces.reverse.dropWhile isIdle).reverse

/-- A path as written, without separators and `.` at its end. The root and a `.` at the start
stay. -/
def withoutEnd (p : Pieces) : List Char :=
  if p.isAbsolute then '/' :: ['/'].intercalate (trimEnd p.pieces)
  else if p.startsHere then ['/'].intercalate (['.'] :: trimEnd p.pieces.tail)
  else ['/'].intercalate (trimEnd p.pieces)

/-- The path below the base, `none` when it does not lie below it. -/
def below? (path base : String) : Option String :=
  let p := piecesOf path
  let b := piecesOf base
  if b.isEmpty then some (String.ofList (withoutEnd p))
  else if p.isAbsolute != b.isAbsolute || p.startsHere != b.startsHere then none
  else
    (behind b.components p.pieces).map fun rest =>
      String.ofList (['/'].intercalate (trimEnd (rest.dropWhile isIdle)))

/-- The path below the base, or the path as written when it does not lie below it. -/
def relativeTo (base : Option String) (path : String) : String :=
  (base.bind (below? path)).getD path

end LosslessJava.Diff.Path
