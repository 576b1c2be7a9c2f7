/-!
# Lines of a text

A line ends behind a line feed, a carriage return, or both in this order, and keeps them.
-/

namespace LosslessJava.Diff

/-- The lines of a text. -/
def splitLines : List Char → List (List Char)
  | [] => []
  | '\r' :: '\n' :: cs => ['\r', '\n'] :: splitLines cs
  | c :: cs =>
    if c == '\n' || c == '\r' then [c] :: splitLines cs
    else
      match splitLines cs with
      | [] => [[c]]
      | l :: ls => (c :: l) :: ls

theorem flatten_splitLines (cs : List Char) : (splitLines cs).flatten = cs := by
  fun_induction splitLines cs with
  | case1 => rfl
  | case2 cs ih => simp [ih]
  | case3 c cs _ h ih => simp [ih]
  | case4 c cs _ h hs ih => simp_all
  | case5 c cs _ h l ls hs ih => simp_all

end LosslessJava.Diff
