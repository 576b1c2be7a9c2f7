import LosslessJava.Name.Qualified
import LosslessJava.Proofs.Lex.Legal

/-!
# Qualified names and their text

A qualified name is its segments. Its text is the segments with dots between them, and since no
identifier has a dot in it, the text can be taken apart again.

* `QualifiedName.take?_eq_some_iff`: the first segments of a name.
* `splitOn_dotted`: what a dotted text is split into at its dots.
* `QualifiedName.eq_of_text`: names of identifiers that have the same text are the same.
-/

namespace LosslessJava

/-! ## Segments of a name -/

namespace QualifiedName

variable {n m : QualifiedName}

theorem eq_of_segments (h : n.segments = m.segments) : n = m := by
  cases n
  cases m
  cases h
  rfl

@[simp] theorem simpleName_push (n : QualifiedName) (w : String) : (n.push w).simpleName = w := by
  simp [simpleName, push]

theorem dropLast_append_simpleName (n : QualifiedName) :
    n.segments.dropLast ++ [n.simpleName] = n.segments :=
  List.dropLast_concat_getLast n.segments_ne_nil

theorem take?_eq_some_iff {length : Nat} :
    n.take? length = some m ↔ length ≤ n.segments.length ∧ m.segments = n.segments.take length := by
  have hm := m.length_pos
  obtain ⟨segments, hne⟩ := m
  rw [take?]
  constructor
  · intro h
    split at h
    · rename_i hlength
      cases h
      exact ⟨hlength.2, rfl⟩
    · cases h
  · rintro ⟨hlength, rfl⟩
    have hpos : 0 < length := by
      rw [List.length_take] at hm
      omega
    rw [dif_pos ⟨hpos, hlength⟩]

end QualifiedName

/-! ## Dotted texts -/

theorem toList_dotted (ws : List String) :
    (dotted ws).toList = ['.'].intercalate (ws.map String.toList) := by
  fun_induction dotted ws with
  | case1 => rfl
  | case2 w => simp
  | case3 w v ws ih =>
    simp only [String.toList_append, ih, List.map_cons, List.intercalate_cons_cons]
    rfl

/-- Segments without dots are what their dotted text is split into. -/
theorem splitOn_dotted {ws : List String} (hne : ws ≠ []) (h : ∀ w ∈ ws, '.' ∉ w.toList) :
    ((dotted ws).toList.splitOn '.').map String.ofList = ws := by
  have hlists : ∀ cs ∈ ws.map String.toList, '.' ∉ cs := by
    rintro _ hcs
    obtain ⟨w, hw, rfl⟩ := List.mem_map.mp hcs
    exact h w hw
  rw [toList_dotted, List.splitOn_intercalate '.' hlists (by simpa using hne), List.map_map]
  simp [Function.comp_def]

/-- A character of a dotted text is a dot or lies in a segment. -/
theorem exists_mem_of_mem_dotted {c : Char} {ws : List String} (h : c ∈ (dotted ws).toList) :
    c = '.' ∨ ∃ w ∈ ws, c ∈ w.toList := by
  fun_induction dotted ws with
  | case1 => simp at h
  | case2 w => exact .inr ⟨w, List.mem_singleton_self w, h⟩
  | case3 w v ws ih =>
    simp only [String.toList_append, List.mem_append] at h
    rcases h with (h | h) | h
    · exact .inr ⟨w, List.mem_cons_self, h⟩
    · exact .inl (List.mem_singleton.mp h)
    · refine (ih h).imp_right ?_
      rintro ⟨x, hx, hc⟩
      exact ⟨x, List.mem_cons_of_mem w hx, hc⟩

/-! ## Names of identifiers -/

theorem isSegmentPart_of_isIdentifier {w : String} (h : isIdentifier w = true) :
    ∀ c ∈ w.toList, isSegmentPart c = true := by
  unfold isIdentifier at h
  split at h
  · cases h
  · rename_i c cs heq
    simp only [Bool.and_eq_true] at h
    obtain ⟨⟨hstart, hall⟩, -⟩ := h
    rw [heq]
    refine List.forall_mem_cons.mpr ⟨?_, List.all_eq_true.mp hall⟩
    simp only [isSegmentStart, Bool.or_eq_true] at hstart
    rcases hstart with (hc | hc) | hc <;> simp [isSegmentPart, hc]

namespace QualifiedName

/-- Every segment is an identifier, by the rule for names or by that of the grammar. -/
def OfIdentifiers (n : QualifiedName) : Prop :=
  ∀ w ∈ n.segments, isIdentifier w = true ∨ IsWord w.toList

variable {n m : QualifiedName} {c : Char}

theorem OfIdentifiers.not_mem (h : n.OfIdentifiers) (hsegment : isSegmentPart c = false)
    (hword : Lex.isWordPart c = false) : ∀ w ∈ n.segments, c ∉ w.toList := by
  intro w hw hc
  rcases h w hw with hidentifier | hisWord
  · rw [isSegmentPart_of_isIdentifier hidentifier c hc] at hsegment
    cases hsegment
  · rw [hisWord.forall_isWordPart c hc] at hword
    cases hword

theorem OfIdentifiers.not_mem_text (h : n.OfIdentifiers) (hdot : c ≠ '.')
    (hsegment : isSegmentPart c = false) (hword : Lex.isWordPart c = false) :
    c ∉ n.text.toList := by
  intro hc
  rcases exists_mem_of_mem_dotted hc with hc | ⟨w, hw, hc⟩
  · exact hdot hc
  · exact h.not_mem hsegment hword w hw hc

theorem OfIdentifiers.splitOn_text (h : n.OfIdentifiers) :
    (n.text.toList.splitOn '.').map String.ofList = n.segments :=
  splitOn_dotted n.segments_ne_nil (h.not_mem (by decide) (by decide))

theorem eq_of_text (hn : n.OfIdentifiers) (hm : m.OfIdentifiers) (h : n.text = m.text) :
    n = m :=
  eq_of_segments (by rw [← hn.splitOn_text, h, hm.splitOn_text])

end QualifiedName

end LosslessJava
