import LosslessJava.Proofs.Name.Qualified
import LosslessJava.Proofs.Tree.Naming

/-!
# Names and their texts

A name can be passed around as its dotted text. The text is read back as the name, and what is said
about the first segments of a name can be said about the start of its text.

* `QualifiedName.parse_eq_ok_iff`: the texts that are read as names, and as which ones.
* `QualifiedName.startsWithPackage_iff_join`, `QualifiedName.startsWithPackage_iff_text`: a name
  starts with a package when it is the package joined with something, and when its text goes on with
  a dot behind that of the package.
* `QualifiedName.interchanges_with_text`: these facts together.
-/

namespace LosslessJava

/-! ## Dotted texts -/

theorem dotted_append {ws vs : List String} (hws : ws ≠ []) (hvs : vs ≠ []) :
    dotted (ws ++ vs) = dotted ws ++ "." ++ dotted vs := by
  fun_induction dotted ws with
  | case1 => exact absurd rfl hws
  | case2 w =>
    obtain ⟨v, vs, rfl⟩ := List.exists_cons_of_ne_nil hvs
    rfl
  | case3 w v ws ih =>
    have hrest := ih (List.cons_ne_nil v ws)
    rw [List.cons_append] at hrest
    rw [List.cons_append, List.cons_append, dotted, hrest]
    simp only [String.append_assoc]

/-- A text is the dotted text of what it is split into at its dots. -/
theorem dotted_splitOn (cs : List Char) :
    dotted ((cs.splitOn '.').map String.ofList) = String.ofList cs := by
  apply String.toList_injective
  have hlists : ((cs.splitOn '.').map String.ofList).map String.toList = cs.splitOn '.' := by
    simp [Function.comp_def]
  rw [toList_dotted, hlists, List.intercalate_splitOn, String.toList_ofList]

theorem isBlank_eq_false_of_isSegmentStart {c : Char} (h : isSegmentStart c = true) :
    isBlank c = false := by
  simp only [isSegmentStart, Bool.or_eq_true, beq_iff_eq] at h
  rcases h with (h | rfl) | rfl
  · exact isBlank_eq_false_of_isLetter (isLetter_of_isAlphabetic h)
  · rfl
  · rfl

theorem exists_isSegmentStart {w : String} (h : isIdentifier w = true) :
    ∃ c ∈ w.toList, isSegmentStart c = true := by
  unfold isIdentifier at h
  split at h
  · cases h
  · rename_i c cs heq
    simp only [Bool.and_eq_true] at h
    exact ⟨c, by rw [heq]; exact List.mem_cons_self, h.1.1⟩

theorem isPrefix_dotted (w : String) (ws : List String) :
    w.toList <+: (dotted (w :: ws)).toList := by
  cases ws with
  | nil => exact List.prefix_refl _
  | cons v ws =>
    rw [dotted, String.toList_append, String.toList_append, List.append_assoc]
    exact List.prefix_append _ _

namespace QualifiedName

variable {n p : QualifiedName}

/-! ## Reading a text -/

theorem Legal.ofIdentifiers (h : n.Legal) : n.OfIdentifiers := fun w hw => .inl (h w hw)

theorem ofSegments_eq_ok_iff {ws : List String} :
    ofSegments ws = .ok n ↔ n.segments = ws ∧ n.Legal := by
  have hfind : ws.find? (fun w => !isIdentifier w) = none ↔ ∀ w ∈ ws, isIdentifier w = true := by
    simp [List.find?_eq_none]
  unfold ofSegments
  constructor
  · intro h
    split at h
    · cases h
    · split at h
      · cases h
      · rename_i hnone
        cases h
        exact ⟨rfl, hfind.mp hnone⟩
  · rintro ⟨rfl, hlegal⟩
    rw [dif_neg n.segments_ne_nil, hfind.mpr hlegal]

/-- The text of a legal name is no white space. -/
theorem Legal.not_all_isBlank (h : n.Legal) : n.text.toList.all isBlank = false := by
  obtain ⟨w, ws, hsegments⟩ := List.exists_cons_of_ne_nil n.segments_ne_nil
  obtain ⟨c, hc, hstart⟩ := exists_isSegmentStart (h w (hsegments ▸ List.mem_cons_self))
  have hmem : c ∈ n.text.toList := by
    rw [text, hsegments]
    exact (isPrefix_dotted w ws).subset hc
  exact List.all_eq_false.mpr ⟨c, hmem, by simp [isBlank_eq_false_of_isSegmentStart hstart]⟩

/-- A text is read as the legal name that has this text. -/
theorem parse_eq_ok_iff {text : String} : parse text = .ok n ↔ n.Legal ∧ n.text = text := by
  unfold parse
  constructor
  · intro h
    split at h
    · cases h
    · obtain ⟨hsegments, hlegal⟩ := ofSegments_eq_ok_iff.mp h
      refine ⟨hlegal, ?_⟩
      rw [QualifiedName.text, hsegments, dotted_splitOn, String.ofList_toList]
  · rintro ⟨hlegal, rfl⟩
    rw [if_neg (by simp [hlegal.not_all_isBlank]), hlegal.ofIdentifiers.splitOn_text]
    exact ofSegments_eq_ok_iff.mpr ⟨rfl, hlegal⟩

/-! ## First segments -/

theorem text_join (n m : QualifiedName) : (n.join m).text = n.text ++ "." ++ m.text :=
  dotted_append n.segments_ne_nil m.segments_ne_nil

theorem startsWithPackage_iff : n.startsWithPackage p = true ↔ p.segments <+: n.segments :=
  List.isPrefixOf_iff_prefix

/-- A name starts with a package when it is the package or something in it. -/
theorem startsWithPackage_iff_join :
    n.startsWithPackage p = true ↔ n = p ∨ ∃ q, n = p.join q := by
  rw [startsWithPackage_iff]
  constructor
  · rintro ⟨rest, hrest⟩
    by_cases hnil : rest = []
    · rw [hnil, List.append_nil] at hrest
      exact .inl (eq_of_segments hrest.symm)
    · exact .inr ⟨⟨rest, hnil⟩, eq_of_segments hrest.symm⟩
  · rintro (rfl | ⟨q, rfl⟩)
    · exact List.prefix_refl _
    · exact List.prefix_append _ _

/-- The segments in front of a dot of the text are the first ones. -/
theorem segments_isPrefix_of_text (hn : n.OfIdentifiers) (hp : p.OfIdentifiers)
    (h : (p.text ++ ".").toList <+: n.text.toList) : p.segments <+: n.segments := by
  obtain ⟨rest, hrest⟩ := h
  have htext : n.text.toList = p.text.toList ++ '.' :: rest := by
    rw [← hrest, String.toList_append, List.append_assoc]
    rfl
  rw [← hn.splitOn_text, htext, List.splitOn_append_cons_self, List.map_append, hp.splitOn_text]
  exact List.prefix_append _ _

/-- A name starts with a package when its text does, and no segment of it is cut. -/
theorem startsWithPackage_iff_text (hn : n.OfIdentifiers) (hp : p.OfIdentifiers) :
    n.startsWithPackage p = true ↔
      n.text = p.text ∨ (p.text ++ ".").toList <+: n.text.toList := by
  constructor
  · intro h
    rcases startsWithPackage_iff_join.mp h with rfl | ⟨q, rfl⟩
    · exact .inl rfl
    · rw [text_join, @String.toList_append (p.text ++ ".")]
      exact .inr (List.prefix_append _ _)
  · rintro (h | h)
    · exact startsWithPackage_iff_join.mpr (.inl (eq_of_text hn hp h))
    · exact startsWithPackage_iff.mpr (segments_isPrefix_of_text hn hp h)

/-- A name and its text tell the same. A text is read as the legal name that has this text, and for
legal names the first segments, the start of the text and joined names come to the same. -/
theorem interchanges_with_text :
    (∀ (text : String) (n : QualifiedName), parse text = .ok n ↔ n.Legal ∧ n.text = text) ∧
    ∀ n p : QualifiedName, n.Legal → p.Legal →
      (n.startsWithPackage p = true ↔
        n.text = p.text ∨ (p.text ++ ".").toList <+: n.text.toList) ∧
      (n.startsWithPackage p = true ↔ n = p ∨ ∃ q, n = p.join q) ∧
      ∀ q : QualifiedName, n = p.join q → q.Legal := by
  refine ⟨fun text n => parse_eq_ok_iff, fun n p hn hp => ⟨?_, startsWithPackage_iff_join, ?_⟩⟩
  · exact startsWithPackage_iff_text hn.ofIdentifiers hp.ofIdentifiers
  · rintro q rfl w hw
    exact hn w (List.mem_append_right p.segments hw)

/-- A name in a package whose text goes on behind that of another package. -/
theorem interchanges_with_text_cut : ∃ n p q : QualifiedName,
    parse "java.utilities.List" = .ok n ∧ parse "java.util" = .ok p ∧
      parse "java.utilities" = .ok q ∧ ¬ n.startsWithPackage p = true ∧
      ∃ tail : QualifiedName, tail.Legal ∧ n = q.join tail := by
  have hn : parse "java.utilities.List" = .ok ⟨["java", "utilities", "List"], by simp⟩ := by
    decide +kernel
  have hp : parse "java.util" = .ok ⟨["java", "util"], by simp⟩ := by decide +kernel
  have hq : parse "java.utilities" = .ok ⟨["java", "utilities"], by simp⟩ := by decide +kernel
  obtain ⟨hparse, hstarts⟩ := interchanges_with_text
  obtain ⟨hnlegal, hntext⟩ := (hparse _ _).mp hn
  obtain ⟨hplegal, hptext⟩ := (hparse _ _).mp hp
  obtain ⟨hqlegal, -⟩ := (hparse _ _).mp hq
  refine ⟨_, _, _, hn, hp, hq, ?_, ?_⟩
  · rw [(hstarts _ _ hnlegal hplegal).1, hntext, hptext]
    decide
  · obtain ⟨-, hjoin, hlegal⟩ := hstarts _ _ hnlegal hqlegal
    obtain ⟨tail, htail⟩ := (hjoin.mp (by decide)).resolve_left (by decide)
    exact ⟨tail, hlegal tail htail, htail⟩

end QualifiedName

end LosslessJava
