import LosslessJava.Trivia

/-!
# White space and comments between tokens

* `Lex.skip`: the longest run of white space and complete comments at the start of a text, and the
  text after it.
-/

namespace LosslessJava.Lex

/-- White space between tokens. -/
def isSpace (c : Char) : Bool :=
  c == ' ' || c == '\t' || c == '\r' || c == '\n' || c == '\x0c'

/-- The end of a line comment. -/
def isLineEnd (c : Char) : Bool := c == '\n' || c == '\r'

/-- The comment at the start of the text, and the text after it. A block comment that does not
end is no comment. -/
def comment? : List Char → Option (List Char × List Char)
  | '/' :: '/' :: cs =>
    some ('/' :: '/' :: cs.takeWhile (!isLineEnd ·), cs.dropWhile (!isLineEnd ·))
  | '/' :: '*' :: cs =>
    (Trivia.splitBlockEnd cs).map fun (body, rest) => ('/' :: '*' :: body, rest)
  | _ => none

theorem append_of_comment? {cs text rest : List Char} (h : comment? cs = some (text, rest)) :
    text ++ rest = cs := by
  unfold comment? at h
  split at h
  · cases h
    simp [List.takeWhile_append_dropWhile]
  · obtain ⟨⟨b, r⟩, hb, heq⟩ := Option.map_eq_some_iff.mp h
    cases heq
    simp [Trivia.append_of_splitBlockEnd hb]
  · cases h

theorem ne_nil_of_comment? {cs text rest : List Char} (h : comment? cs = some (text, rest)) :
    text ≠ [] := by
  unfold comment? at h
  split at h
  · cases h
    simp
  · obtain ⟨⟨b, r⟩, hb, heq⟩ := Option.map_eq_some_iff.mp h
    cases heq
    simp
  · cases h

theorem length_of_comment? {cs text rest : List Char} (h : comment? cs = some (text, rest)) :
    rest.length < cs.length := by
  have := ne_nil_of_comment? h
  have := List.length_pos_iff.mpr this
  rw [← append_of_comment? h]
  simp only [List.length_append]
  omega

/-- The longest run of white space and comments, and the text after it. -/
def skip (cs : List Char) : List Char × List Char :=
  match cs with
  | [] => ([], [])
  | c :: cs =>
    if isSpace c then
      let (blank, rest) := skip cs
      (c :: blank, rest)
    else
      match _h : comment? (c :: cs) with
      | some (text, rest) =>
        let (blank, rest) := skip rest
        (text ++ blank, rest)
      | none => ([], c :: cs)
termination_by cs.length
decreasing_by
  · simp
  · exact length_of_comment? _h

theorem append_skip (cs : List Char) : (skip cs).1 ++ (skip cs).2 = cs := by
  fun_induction skip cs with
  | case1 => rfl
  | case2 c cs _ _ _ h ih => simp_all
  | case3 c cs _ text rest h _ _ hs ih => simp_all [← append_of_comment? h]
  | case4 => rfl

theorem length_skip_le (cs : List Char) : (skip cs).2.length ≤ cs.length := by
  have := congrArg List.length (append_skip cs)
  simp only [List.length_append] at this
  omega

end LosslessJava.Lex
