import LosslessJava.Proofs.Diff.Line
import LosslessJava.Proofs.Lex.Placed

/-!
# Lines and columns of places

The line and the column of a place in a text lead back to the place.

* `Location.IsAt`: what stands in front of a place with a given line and column.
* `Location.isAt_ofOffset`: the location of an offset is that of its place.
* `Location.lt_of_lt`: a later place is on a later line or in a later column.
* `Location.coordinates`: both, and what becomes of offsets behind the end.
-/

namespace LosslessJava

open Diff (feedLines feedLines_flatMap flatten_feedLines)

/-! ## Lines in front of a place -/

/-- A text is lines with their line feeds and a line that has not ended. -/
theorem exists_lines (cs : List Char) : ∃ (lines : List (List Char)) (current : List Char),
    cs = lines.flatMap (· ++ ['\n']) ++ current ∧ (∀ l ∈ lines, '\n' ∉ l) ∧ '\n' ∉ current := by
  induction cs with
  | nil => exact ⟨[], [], rfl, by simp, List.not_mem_nil⟩
  | cons c cs ih =>
    obtain ⟨lines, current, rfl, hlines, hcurrent⟩ := ih
    by_cases hc : c = '\n'
    · exact ⟨[] :: lines, current, by simp [hc], by simpa using hlines, hcurrent⟩
    · cases lines with
      | nil => exact ⟨[], c :: current, rfl, by simp, by simp [Ne.symm hc, hcurrent]⟩
      | cons l ls =>
        obtain ⟨hl, hls⟩ := List.forall_mem_cons.mp hlines
        refine ⟨(c :: l) :: ls, current, rfl, List.forall_mem_cons.mpr ⟨?_, hls⟩, hcurrent⟩
        simp [Ne.symm hc, hl]

theorem count_lines {lines : List (List Char)} (h : ∀ l ∈ lines, '\n' ∉ l) :
    (lines.flatMap (· ++ ['\n'])).count '\n' = lines.length := by
  induction lines with
  | nil => rfl
  | cons l ls ih =>
    obtain ⟨hl, hls⟩ := List.forall_mem_cons.mp h
    rw [List.flatMap_cons, List.count_append, List.count_append, List.count_eq_zero.mpr hl, ih hls]
    simp [Nat.add_comm]

/-- The characters behind the last line feed. -/
def lastColumns (cs : List Char) : Nat := (cs.reverse.takeWhile (· != '\n')).length

theorem lastColumns_append (before : List Char) {cs : List Char} (h : '\n' ∉ cs) :
    lastColumns (before ++ cs) = lastColumns before + cs.length := by
  have hline : ∀ c ∈ cs.reverse, (c != '\n') = true := by
    intro c hc
    rw [bne_iff_ne]
    rintro rfl
    exact h (List.mem_reverse.mp hc)
  rw [lastColumns, List.reverse_append, List.takeWhile_append_of_pos hline, List.length_append,
    List.length_reverse, lastColumns, Nat.add_comm]

theorem lastColumns_lines (lines : List (List Char)) :
    lastColumns (lines.flatMap (· ++ ['\n'])) = 0 := by
  rcases List.eq_nil_or_concat lines with rfl | ⟨ls, l, rfl⟩
  · rfl
  · simp [lastColumns]

/-! ## Bytes in front of a place -/

/-- The offset lies between two characters of the text, or at one of its ends. -/
def IsBoundary (source : List Char) (offset : Nat) : Prop :=
  ∃ before, before <+: source ∧ byteLength before = offset

/-- Between two places of a text there are characters. -/
theorem IsBoundary.exists_between {source : List Char} {offset later : Nat}
    (h : IsBoundary source offset) (hlater : IsBoundary source later) (hlt : offset < later) :
    ∃ before between after, source = before ++ (between ++ after) ∧ between ≠ [] ∧
      byteLength before = offset ∧ byteLength (before ++ between) = later := by
  obtain ⟨before, hbefore, rfl⟩ := h
  obtain ⟨longer, hlonger, rfl⟩ := hlater
  rcases List.prefix_or_prefix_of_prefix hlonger hbefore with ⟨between, rfl⟩ | ⟨between, rfl⟩
  · rw [byteLength_append] at hlt
    omega
  · obtain ⟨after, rfl⟩ := hlonger
    refine ⟨before, between, after, List.append_assoc _ _ _, ?_, rfl, rfl⟩
    rintro rfl
    rw [List.append_nil] at hlt
    exact Nat.lt_irrefl _ hlt

namespace Location

variable {source before after : List Char}

theorem ofOffset_append (before after : List Char) :
    ofOffset (before ++ after) (byteLength before) =
      ⟨byteLength before, before.count '\n' + 1, lastColumns before + 1⟩ := by
  have hoffset : min (byteLength before) (byteLength (before ++ after)) = byteLength before :=
    offset_ofOffset rfl
  rw [ofOffset, hoffset, takeBytes_append, lastColumns]

/-! ## Lines and columns -/

/-- In front of `after` stand the lines before that of the location, each with its line feed, and of
that line the columns before that of the location. -/
def IsAt (l : Location) (source after : List Char) : Prop :=
  ∃ (lines : List (List Char)) (current : List Char),
    source = lines.flatMap (· ++ ['\n']) ++ (current ++ after) ∧
      (∀ k ∈ lines, '\n' ∉ k) ∧ '\n' ∉ current ∧
      l.line = lines.length + 1 ∧ l.column = current.length + 1

theorem isAt_ofOffset (before after : List Char) :
    (ofOffset (before ++ after) (byteLength before)).IsAt (before ++ after) after := by
  obtain ⟨lines, current, rfl, hlines, hcurrent⟩ := exists_lines before
  rw [ofOffset_append]
  refine ⟨lines, current, List.append_assoc _ _ _, hlines, hcurrent, ?_, ?_⟩
  · show _ + 1 = _
    rw [List.count_append, count_lines hlines, List.count_eq_zero.mpr hcurrent, Nat.add_zero]
  · show _ + 1 = _
    rw [lastColumns_append _ hcurrent, lastColumns_lines, Nat.zero_add]

/-- The lines before that of a location and the columns before its own are taken off a text. -/
theorem IsAt.drop {l : Location} (h : l.IsAt source after) :
    ((feedLines source).drop (l.line - 1)).flatten.drop (l.column - 1) = after := by
  obtain ⟨lines, current, rfl, hlines, -, hline, hcolumn⟩ := h
  rw [feedLines_flatMap hlines, hline, hcolumn, Nat.add_sub_cancel, Nat.add_sub_cancel,
    List.drop_left' (by simp), flatten_feedLines, List.drop_left' rfl]

/-- A later place is on a later line, or in a later column of the same line. -/
theorem lt_of_lt {offset later : Nat} (h : IsBoundary source offset)
    (hlater : IsBoundary source later) (hlt : offset < later) :
    (ofOffset source offset).line < (ofOffset source later).line ∨
      (ofOffset source offset).line = (ofOffset source later).line ∧
        (ofOffset source offset).column < (ofOffset source later).column := by
  obtain ⟨before, between, after, rfl, hne, rfl, rfl⟩ := h.exists_between hlater hlt
  rw [ofOffset_append, ← List.append_assoc, ofOffset_append]
  show before.count '\n' + 1 < (before ++ between).count '\n' + 1 ∨
    before.count '\n' + 1 = (before ++ between).count '\n' + 1 ∧
      lastColumns before + 1 < lastColumns (before ++ between) + 1
  rw [List.count_append]
  by_cases hfeed : '\n' ∈ between
  · have hcount := List.count_pos_iff.mpr hfeed
    exact .inl (by omega)
  · have hlength := List.length_pos_iff.mpr hne
    rw [List.count_eq_zero.mpr hfeed, lastColumns_append before hfeed]
    exact .inr ⟨rfl, by omega⟩

/-- A location past the end of a text is that of the end. -/
theorem ofOffset_of_le {offset : Nat} (h : byteLength source ≤ offset) :
    ofOffset source offset = ofOffset source (byteLength source) := by
  rw [ofOffset, ofOffset, Nat.min_eq_right h, Nat.min_self]

/-- The line and the column of a place are coordinates of it. Without the lines before and the
columns before, the text is what follows at the place. Different places have different ones, which
are ordered as the places are, by lines first. Behind the end there are no other places. -/
theorem coordinates (source : List Char) :
    (∀ before after, source = before ++ after →
      let l := ofOffset source (byteLength before)
      l.IsAt source after ∧
        ((feedLines source).drop (l.line - 1)).flatten.drop (l.column - 1) = after) ∧
    (∀ offset later, IsBoundary source offset → IsBoundary source later → offset < later →
      (ofOffset source offset).line < (ofOffset source later).line ∨
        (ofOffset source offset).line = (ofOffset source later).line ∧
          (ofOffset source offset).column < (ofOffset source later).column) ∧
    (∀ offset other, IsBoundary source offset → IsBoundary source other →
      (ofOffset source offset).line = (ofOffset source other).line →
      (ofOffset source offset).column = (ofOffset source other).column → offset = other) ∧
    ∀ offset, byteLength source ≤ offset →
      ofOffset source offset = ofOffset source (byteLength source) := by
  refine ⟨?_, fun _ _ => lt_of_lt, ?_, fun _ => ofOffset_of_le⟩
  · rintro before after rfl
    have hat := isAt_ofOffset before after
    exact ⟨hat, hat.drop⟩
  · intro offset other hoffset hother hline hcolumn
    rcases Nat.lt_trichotomy offset other with hlt | heq | hlt
    · have := lt_of_lt hoffset hother hlt
      omega
    · exact heq
    · have := lt_of_lt hother hoffset hlt
      omega

/-- The places around a character of two bytes and an empty line. -/
theorem coordinates_umlaut : ∃ l m : Location,
    l = ofOffset "ü\n\nab".toList 4 ∧ l.IsAt "ü\n\nab".toList "ab".toList ∧
      m = ofOffset "ü\n\nab".toList 9 ∧ m = ofOffset "ü\n\nab".toList 6 ∧
      (l.line < m.line ∨ l.line = m.line ∧ l.column < m.column) := by
  obtain ⟨hat, hlt, -, hend⟩ := coordinates "ü\n\nab".toList
  have hplace : IsBoundary "ü\n\nab".toList 4 := ⟨"ü\n\n".toList, by decide, by decide⟩
  have hlast : IsBoundary "ü\n\nab".toList 6 := ⟨"ü\n\nab".toList, by decide, by decide⟩
  refine ⟨_, _, rfl, (hat "ü\n\n".toList "ab".toList (by decide)).1, rfl, ?_, ?_⟩
  · exact hend 9 (by decide)
  · rw [hend 9 (by decide)]
    exact hlt 4 6 hplace hlast (by decide)

end Location

end LosslessJava
