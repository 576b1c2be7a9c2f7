import LosslessJava.Diff.Line

/-!
# Lines and line feeds

A patch counts the lines between line feeds. For texts in which every carriage return stands in
front of a line feed these are the lines that are compared.

* `feedLines`: the lines that end with a line feed.
* `splitLines_eq`: both notions of lines are the same for `PairedReturns`.
* `feedLines_append`: a line with its line feed is taken off the front of a text.
* `exists_splitLines`, `isOpenEnd_of_mem`: of the lines that are compared only the last one may have
  no line break.
-/

namespace LosslessJava.Diff

/-- The lines of a text, each with the line feed at its end. -/
def feedLines : List Char → List (List Char)
  | [] => []
  | c :: cs =>
    if c = '\n' then [c] :: feedLines cs
    else
      match feedLines cs with
      | [] => [[c]]
      | l :: ls => (c :: l) :: ls

/-- Every carriage return stands in front of a line feed. -/
def PairedReturns (cs : List Char) : Prop :=
  ∀ before after, cs = before ++ '\r' :: after → after.head? = some '\n'

/-- Some carriage return stands in front of something else. -/
def hasLoneReturn : List Char → Bool
  | [] => false
  | c :: cs => c == '\r' && cs.head? != some '\n' || hasLoneReturn cs

theorem pairedReturns_iff {cs : List Char} : PairedReturns cs ↔ hasLoneReturn cs = false := by
  induction cs with
  | nil => simp [PairedReturns, hasLoneReturn]
  | cons c cs ih =>
    rw [hasLoneReturn, Bool.or_eq_false_iff, ← ih]
    constructor
    · intro h
      refine ⟨?_, fun before after heq => h (c :: before) after (by rw [heq]; rfl)⟩
      by_cases hc : c = '\r'
      · simp [h [] cs (by rw [hc]; rfl)]
      · simp [hc]
    · rintro ⟨hfirst, hrest⟩ before after heq
      cases before with
      | nil =>
        obtain ⟨rfl, rfl⟩ := List.cons.inj heq
        simpa using hfirst
      | cons b before => exact hrest before after (List.cons.inj heq).2

instance (cs : List Char) : Decidable (PairedReturns cs) :=
  decidable_of_iff (hasLoneReturn cs = false) pairedReturns_iff.symm

theorem PairedReturns.tail {c : Char} {cs : List Char} (h : PairedReturns (c :: cs)) :
    PairedReturns cs := by
  rintro before after rfl
  exact h (c :: before) after rfl

/-- A text without line feeds, and perhaps one at its end. -/
def IsLine (l : List Char) : Prop := ∃ cs, '\n' ∉ cs ∧ (l = cs ++ ['\n'] ∨ l = cs)

theorem IsLine.cons {c : Char} (hc : c ≠ '\n') {l : List Char} (h : IsLine l) :
    IsLine (c :: l) := by
  obtain ⟨cs, hcs, hl⟩ := h
  refine ⟨c :: cs, by simp [hc.symm, hcs], ?_⟩
  rcases hl with rfl | rfl
  · exact .inl rfl
  · exact .inr rfl

theorem isLine_nil : IsLine [] := ⟨[], List.not_mem_nil, .inr rfl⟩

theorem isLine_feed : IsLine ['\n'] := ⟨[], List.not_mem_nil, .inl rfl⟩

section

variable {cs : List Char}

theorem flatten_feedLines (cs : List Char) : (feedLines cs).flatten = cs := by
  induction cs with
  | nil => rfl
  | cons c cs ih =>
    rw [feedLines]
    split
    · rw [List.flatten_cons, ih]
      rfl
    · cases hcs : feedLines cs with
      | nil => simpa [hcs] using ih
      | cons l ls => simpa [hcs] using ih

theorem splitLines_eq (h : PairedReturns cs) : splitLines cs = feedLines cs := by
  fun_induction splitLines cs with
  | case1 => rfl
  | case2 cs ih =>
    rw [ih h.tail.tail]
    simp [feedLines]
  | case3 c cs hne hend ih =>
    have hfeed : c = '\n' := by
      simp only [Bool.or_eq_true, beq_iff_eq] at hend
      rcases hend with rfl | rfl
      · rfl
      · -- A line feed follows, and the line ends behind it.
        have hhead := h [] cs rfl
        obtain ⟨rest, rfl⟩ := List.head?_eq_some_iff.mp hhead
        exact absurd rfl (hne rest rfl)
    rw [ih h.tail, feedLines, if_pos hfeed]
  | case4 c cs _ hend hnil ih =>
    have hfeed : c ≠ '\n' := by
      rintro rfl
      exact hend rfl
    rw [feedLines, if_neg hfeed, ← ih h.tail, hnil]
  | case5 c cs _ hend l ls hcons ih =>
    have hfeed : c ≠ '\n' := by
      rintro rfl
      exact hend rfl
    rw [feedLines, if_neg hfeed, ← ih h.tail, hcons]

/-- Every line is one. -/
theorem isLine_of_mem {l : List Char} (h : l ∈ feedLines cs) : IsLine l := by
  induction cs generalizing l with
  | nil => cases h
  | cons c cs ih =>
    rw [feedLines] at h
    split at h
    · rename_i hc
      rcases List.mem_cons.mp h with rfl | h
      · exact hc ▸ isLine_feed
      · exact ih h
    · rename_i hc
      cases hcs : feedLines cs with
      | nil =>
        simp only [hcs] at h
        rw [List.mem_singleton.mp h]
        exact isLine_nil.cons hc
      | cons k ks =>
        simp only [hcs] at h
        rcases List.mem_cons.mp h with rfl | h
        · exact (ih (hcs ▸ List.mem_cons_self)).cons hc
        · exact ih (hcs ▸ List.mem_cons_of_mem k h)

/-- A line with its line feed is taken off the front of a text. -/
theorem feedLines_append (h : '\n' ∉ cs) (more : List Char) :
    feedLines (cs ++ '\n' :: more) = (cs ++ ['\n']) :: feedLines more := by
  induction cs with
  | nil => simp [feedLines]
  | cons c cs ih =>
    obtain ⟨hc, hcs⟩ := List.ne_and_not_mem_of_not_mem_cons h
    rw [List.cons_append, feedLines, if_neg (Ne.symm hc), ih hcs]
    rfl

/-- Lines with their line feeds are taken off the front of a text. -/
theorem feedLines_flatMap {ls : List (List Char)} (h : ∀ l ∈ ls, '\n' ∉ l) (more : List Char) :
    feedLines (ls.flatMap (· ++ ['\n']) ++ more) = ls.map (· ++ ['\n']) ++ feedLines more := by
  induction ls with
  | nil => rfl
  | cons l ls ih =>
    obtain ⟨hl, hls⟩ := List.forall_mem_cons.mp h
    rw [List.flatMap_cons, List.append_assoc, List.append_assoc, List.singleton_append,
      feedLines_append hl, ih hls]
    rfl

end

/-! ## Ends of lines -/

/-- The text ends with a line feed or a carriage return. -/
def HasBreak (cs : List Char) : Prop := cs.getLast? = some '\n' ∨ cs.getLast? = some '\r'

theorem HasBreak.cons {cs : List Char} (h : HasBreak cs) (c : Char) : HasBreak (c :: cs) := by
  have hlast : ∀ d, cs.getLast? = some d → (c :: cs).getLast? = some d := by
    intro d hd
    rw [List.getLast?_cons, hd, Option.getD_some]
  exact h.imp (hlast _) (hlast _)

theorem HasBreak.ne_nil {cs : List Char} (h : HasBreak cs) : cs ≠ [] := by
  rintro rfl
  rcases h with h | h <;> cases h

/-- A text has a line break at its end if its last part has one. -/
theorem hasBreak_append {l : List Char} (cs : List Char) (h : l ≠ []) :
    HasBreak (cs ++ l) ↔ HasBreak l := by
  have hlast : (cs ++ l).getLast? = l.getLast? := by
    rw [List.getLast?_append, List.getLast?_eq_some_getLast h, Option.some_or]
  rw [HasBreak, HasBreak, hlast]

/-- A line without a line break. -/
structure IsOpen (l : List Char) : Prop where
  ne_nil : l ≠ []
  plain : ∀ c ∈ l, c ≠ '\n' ∧ c ≠ '\r'

theorem IsOpen.isLine {l : List Char} (h : IsOpen l) : IsLine l :=
  ⟨l, fun hmem => (h.plain _ hmem).1 rfl, .inr rfl⟩

/-- All lines of a text end with a line break, except perhaps for the last one. -/
theorem exists_splitLines (cs : List Char) :
    ∃ closed : List (List Char), (∀ l ∈ closed, IsLine l ∧ HasBreak l) ∧
      (splitLines cs = closed ∨ ∃ l, IsOpen l ∧ splitLines cs = closed ++ [l]) := by
  fun_induction splitLines cs with
  | case1 => exact ⟨[], List.forall_mem_nil _, .inl rfl⟩
  | case2 cs ih =>
    obtain ⟨closed, hclosed, hlines⟩ := ih
    refine ⟨['\r', '\n'] :: closed, List.forall_mem_cons.mpr ⟨⟨?_, .inl rfl⟩, hclosed⟩, ?_⟩
    · exact isLine_feed.cons (by decide)
    · rcases hlines with hlines | ⟨l, hl, hlines⟩
      · exact .inl (congrArg _ hlines)
      · exact .inr ⟨l, hl, congrArg _ hlines⟩
  | case3 c cs hne hend ih =>
    obtain ⟨closed, hclosed, hlines⟩ := ih
    have hbreak : IsLine [c] ∧ HasBreak [c] := by
      simp only [Bool.or_eq_true, beq_iff_eq] at hend
      rcases hend with rfl | rfl
      · exact ⟨isLine_feed, .inl rfl⟩
      · exact ⟨isLine_nil.cons (by decide), .inr rfl⟩
    refine ⟨[c] :: closed, List.forall_mem_cons.mpr ⟨hbreak, hclosed⟩, ?_⟩
    rcases hlines with hlines | ⟨l, hl, hlines⟩
    · exact .inl (congrArg _ hlines)
    · exact .inr ⟨l, hl, congrArg _ hlines⟩
  | case4 c cs hne hend hnil ih =>
    refine ⟨[], List.forall_mem_nil _, .inr ⟨[c], ⟨List.cons_ne_nil _ _, ?_⟩, rfl⟩⟩
    simpa using hend
  | case5 c cs hne hend k ks hcons ih =>
    obtain ⟨closed, hclosed, hlines⟩ := ih
    have hplain : c ≠ '\n' ∧ c ≠ '\r' := by simpa using hend
    cases closed with
    | nil =>
      obtain ⟨l, hl, hlines⟩ := hlines.resolve_left (by simp [hcons])
      obtain ⟨rfl, rfl⟩ : k = l ∧ ks = [] := by simpa [hcons] using hlines
      exact ⟨[], List.forall_mem_nil _, .inr ⟨c :: k, ⟨List.cons_ne_nil _ _,
        List.forall_mem_cons.mpr ⟨hplain, hl.plain⟩⟩, rfl⟩⟩
    | cons l closed =>
      obtain ⟨⟨hline, hbreak⟩, hclosed⟩ := List.forall_mem_cons.mp hclosed
      refine ⟨(c :: l) :: closed, List.forall_mem_cons.mpr
        ⟨⟨hline.cons hplain.1, hbreak.cons c⟩, hclosed⟩, ?_⟩
      rw [hcons] at hlines
      rcases hlines with hlines | ⟨m, hm, hlines⟩
      · obtain ⟨rfl, rfl⟩ := List.cons.inj hlines
        exact .inl rfl
      · obtain ⟨rfl, rfl⟩ := List.cons.inj hlines
        exact .inr ⟨m, hm, rfl⟩

theorem isLine_of_mem_splitLines {cs l : List Char} (h : l ∈ splitLines cs) : IsLine l := by
  obtain ⟨closed, hclosed, hlines | ⟨m, hm, hlines⟩⟩ := exists_splitLines cs
  · exact (hclosed l (hlines ▸ h)).1
  · rw [hlines, List.mem_append, List.mem_singleton] at h
    rcases h with h | rfl
    · exact (hclosed l h).1
    · exact hm.isLine

/-- The line is the last one of the text, which does not end with a line break. -/
structure IsOpenEnd (cs l : List Char) : Prop where
  last : (splitLines cs).getLast? = some l
  not_hasBreak : ¬ HasBreak cs

/-- A line without a line break is the last one. -/
theorem isOpenEnd_of_mem {cs l : List Char} (h : l ∈ splitLines cs) (hl : ¬ HasBreak l) :
    IsOpenEnd cs l := by
  obtain ⟨closed, hclosed, hlines | ⟨m, hm, hlines⟩⟩ := exists_splitLines cs
  · exact absurd (hclosed l (hlines ▸ h)).2 hl
  · rw [hlines, List.mem_append, List.mem_singleton] at h
    obtain rfl := h.resolve_left fun h => hl (hclosed l h).2
    have htext := flatten_splitLines cs
    rw [hlines, List.flatten_append, List.flatten_singleton] at htext
    refine ⟨by rw [hlines, List.getLast?_concat], fun hbreak => hl ?_⟩
    rwa [← htext, hasBreak_append _ hm.ne_nil] at hbreak

/-- The last line of a text without a line break at its end has none either. -/
theorem IsOpenEnd.not_hasBreak_line {cs l : List Char} (h : IsOpenEnd cs l) : ¬ HasBreak l := by
  intro hbreak
  obtain ⟨lines, hlines⟩ := List.getLast?_eq_some_iff.mp h.last
  have htext := flatten_splitLines cs
  rw [hlines, List.flatten_append, List.flatten_singleton] at htext
  refine h.not_hasBreak ?_
  rwa [← htext, hasBreak_append _ hbreak.ne_nil]

end LosslessJava.Diff
