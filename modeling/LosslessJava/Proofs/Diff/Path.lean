import LosslessJava.Diff.Path
import LosslessJava.Proofs.Text.Pieces
import Mathlib.Data.List.DropRight

/-!
# Components of paths

A path is the list of its components, and lies below another one when that is the beginning of the
list.

* `components`: the components of a path, read off its text.
* `Pieces.Of.components`: they are the root or the `.` at the start of the path, and its pieces that
  are not idle.
* `below?_eq_none_iff`, `components_of_below?`: the path below a base.
-/

namespace LosslessJava.Diff.Path

inductive Component where
  | root
  /-- The `.` at the start of a relative path. -/
  | here
  | name (text : List Char)
deriving DecidableEq

/-- The names among the pieces of a path. -/
def names (pieces : List (List Char)) : List Component :=
  (pieces.filter (!isIdle ·)).map .name

/-- The components of a path. Separators and `.` in it count for nothing, except for a separator or
a `.` at the start. -/
def components (path : List Char) : List Component :=
  (if ['/'] <+: path then [.root]
    else if path = ['.'] ∨ ['.', '/'] <+: path then [.here] else []) ++
    names (path.splitOn '/')

/-! ## Names -/

theorem names_cons_of_isIdle {piece : List Char} (h : isIdle piece = true)
    (pieces : List (List Char)) : names (piece :: pieces) = names pieces := by
  simp [names, h]

theorem names_cons {piece : List Char} (h : isIdle piece = false) (pieces : List (List Char)) :
    names (piece :: pieces) = .name piece :: names pieces := by
  simp [names, h]

theorem names_dropWhile (pieces : List (List Char)) :
    names (pieces.dropWhile isIdle) = names pieces := by
  induction pieces with
  | nil => rfl
  | cons piece pieces ih =>
    by_cases h : isIdle piece = true
    · rw [List.dropWhile_cons_of_pos h, ih, names_cons_of_isIdle h]
    · rw [List.dropWhile_cons_of_neg h]

theorem names_reverse (pieces : List (List Char)) :
    names pieces.reverse = (names pieces).reverse := by
  rw [names, names, List.filter_reverse, List.map_reverse]

theorem names_trimEnd (pieces : List (List Char)) : names (trimEnd pieces) = names pieces := by
  rw [trimEnd, names_reverse, names_dropWhile, names_reverse, List.reverse_reverse]

theorem isPrefix_trimEnd (pieces : List (List Char)) : trimEnd pieces <+: pieces :=
  List.rdropWhile_prefix isIdle pieces

theorem head?_of_isPrefix {ps qs : List (List Char)} (h : ps <+: qs) {piece : List Char}
    (hpiece : ps.head? = some piece) : qs.head? = some piece := by
  obtain ⟨more, rfl⟩ := h
  rw [List.head?_append, hpiece, Option.some_or]

/-- Pieces that are joined keep their names. -/
theorem names_splitOn {pieces : List (List Char)} (h : ∀ piece ∈ pieces, '/' ∉ piece) :
    names ((['/'].intercalate pieces).splitOn '/') = names pieces := by
  by_cases hnil : pieces = []
  · rw [hnil]
    rfl
  · rw [List.splitOn_intercalate '/' h hnil]

theorem splitOn_slash (cs : List Char) : ('/' :: cs).splitOn '/' = [] :: cs.splitOn '/' :=
  List.splitOn_append_cons_self [] cs

theorem components_slash (cs : List Char) :
    components ('/' :: cs) = .root :: names (cs.splitOn '/') := by
  rw [components, if_pos ⟨cs, rfl⟩, splitOn_slash, names_cons_of_isIdle rfl]
  rfl

/-! ## Paths as pieces -/

section

variable {pieces : List (List Char)} (hpieces : ∀ piece ∈ pieces, '/' ∉ piece)

include hpieces

theorem here_intercalate_iff :
    ['/'].intercalate pieces = ['.'] ∨ ['.', '/'] <+: ['/'].intercalate pieces ↔
      pieces.head? = some ['.'] := by
  cases pieces with
  | nil => simp
  | cons piece pieces =>
    have hpiece := hpieces piece List.mem_cons_self
    rw [List.head?_cons, Option.some.injEq]
    cases pieces with
    | nil =>
      rw [List.intercalate_singleton, or_iff_left]
      rintro ⟨more, rfl⟩
      exact hpiece (by simp)
    | cons next pieces =>
      rw [List.intercalate_cons_cons]
      match piece, hpiece with
      | [], _ => simp
      | [c], _ => simpa using eq_comm
      | c :: d :: piece, hpiece =>
        have hd : d ≠ '/' := by
          rintro rfl
          exact hpiece (by simp)
        simp [hd.symm]

/-- The components of a relative path that pieces make up. -/
theorem components_intercalate (h : ¬ ['/'] <+: ['/'].intercalate pieces) :
    components (['/'].intercalate pieces) =
      (if pieces.head? = some ['.'] then [.here] else []) ++ names pieces := by
  rw [components, if_neg h, names_splitOn hpieces]
  simp only [here_intercalate_iff hpieces]

/-- Nothing but names makes up a path that starts with one. -/
theorem components_of_head (h : ∀ piece ∈ pieces.head?, isIdle piece = false) :
    components (['/'].intercalate pieces) = names pieces := by
  have hslash : ¬ ['/'] <+: ['/'].intercalate pieces := by
    cases pieces with
    | nil => simp
    | cons piece more =>
      have hidle := h piece rfl
      have hplain := hpieces piece List.mem_cons_self
      have hstarts := isPrefix_intercalate '/' [piece] more
      rw [List.intercalate_singleton, List.singleton_append] at hstarts
      cases piece with
      | nil => cases hidle
      | cons c piece =>
        intro hslash
        obtain ⟨cs, hcs⟩ := hstarts
        rw [← hcs, List.cons_append, List.cons_prefix_cons] at hslash
        exact hplain (hslash.1 ▸ List.mem_cons_self)
  have hhere : pieces.head? ≠ some ['.'] := fun hhere => absurd (h _ hhere) (by decide)
  rw [components_intercalate hpieces hslash, if_neg hhere, List.nil_append]

end

/-- The path has these pieces. -/
structure Pieces.Of (p : Pieces) (path : List Char) : Prop where
  plain : ∀ piece ∈ p.pieces, '/' ∉ piece
  text : path = (if p.isAbsolute then ['/'] else []) ++ ['/'].intercalate p.pieces
  relative : p.isAbsolute = false → ¬ ['/'] <+: path

theorem piecesOf_of (path : String) : (piecesOf path).Of path.toList := by
  unfold piecesOf
  split
  · rename_i cs hcs
    refine ⟨fun piece hpiece => not_mem_of_mem_splitOn hpiece, ?_, nofun⟩
    rw [hcs, List.intercalate_splitOn]
    rfl
  · rename_i hrelative
    refine ⟨fun piece hpiece => not_mem_of_mem_splitOn hpiece, ?_, fun _ => ?_⟩
    · rw [List.intercalate_splitOn]
      rfl
    · rintro ⟨cs, hcs⟩
      exact hrelative cs hcs.symm

namespace Pieces

/-- The component at the start of a path that is not one of its names. -/
def start (p : Pieces) : List Component :=
  if p.isAbsolute then [.root] else if p.startsHere then [.here] else []

variable {p b : Pieces} {path : List Char}

theorem start_cases (p : Pieces) : p.start = [.root] ∨ p.start = [.here] ∨ p.start = [] := by
  unfold start
  split
  · exact .inl rfl
  · split
    · exact .inr (.inl rfl)
    · exact .inr (.inr rfl)

theorem start_eq_iff :
    p.start = b.start ↔ p.isAbsolute = b.isAbsolute ∧ p.startsHere = b.startsHere := by
  obtain ⟨isAbsolute, pieces⟩ := p
  obtain ⟨isAbsolute', pieces'⟩ := b
  cases isAbsolute <;> cases isAbsolute' <;>
    simp only [start, startsHere, Bool.not_false, Bool.not_true, Bool.true_and, Bool.false_and] <;>
    grind

/-- Paths that start in different ways have no component in common there. -/
theorem start_eq_of_isPrefix {ps bs : List (List Char)}
    (hne : b.start ++ bs.map Component.name ≠ [])
    (h : b.start ++ bs.map .name <+: p.start ++ ps.map .name) : p.start = b.start := by
  rcases b.start_cases with hb | hb | hb <;> rcases p.start_cases with hp | hp | hp <;>
    rw [hb] at h hne <;> rw [hp] at h <;> cases bs <;> cases ps <;> simp_all

/-- The components of a path are its start and the pieces that are not idle. -/
theorem Of.components (h : p.Of path) :
    Path.components path = p.start ++ p.components.map .name := by
  obtain ⟨isAbsolute, pieces⟩ := p
  have htext := h.text
  cases isAbsolute with
  | true =>
    subst htext
    rw [if_pos rfl, List.singleton_append, components_slash, names_splitOn h.plain]
    rfl
  | false =>
    have hrelative := h.relative rfl
    rw [if_neg Bool.false_ne_true, List.nil_append] at htext
    subst htext
    rw [components_intercalate h.plain hrelative]
    simp [start, startsHere, Pieces.components, names]

theorem Of.isEmpty_iff (h : p.Of path) : p.isEmpty = true ↔ Path.components path = [] := by
  rw [h.components, isEmpty, start]
  cases p.isAbsolute <;> cases p.startsHere <;> simp

/-- Some pieces at the start of a path make up a path that it starts with. -/
theorem Of.of_isPrefix (h : p.Of path) {pieces : List (List Char)} (hpieces : pieces <+: p.pieces) :
    let front := (if p.isAbsolute then ['/'] else []) ++ ['/'].intercalate pieces
    front <+: path ∧ Of ⟨p.isAbsolute, pieces⟩ front := by
  intro front
  obtain ⟨more, hmore⟩ := hpieces
  have hstarts : front <+: path := by
    rw [h.text, List.prefix_append_right_inj, ← hmore]
    exact isPrefix_intercalate '/' pieces more
  refine ⟨hstarts, fun piece hpiece => h.plain piece ?_, rfl, fun hrelative hslash => ?_⟩
  · rw [← hmore]
    exact List.mem_append_left _ hpiece
  · exact h.relative hrelative (hslash.trans hstarts)

/-- The pieces without idle ones at the end. A `.` at the start of a relative path stays. -/
def kept (p : Pieces) : List (List Char) :=
  if p.startsHere then ['.'] :: trimEnd p.pieces.tail else trimEnd p.pieces

theorem withoutEnd_eq (p : Pieces) :
    withoutEnd p = (if p.isAbsolute then ['/'] else []) ++ ['/'].intercalate p.kept := by
  obtain ⟨isAbsolute, pieces⟩ := p
  cases isAbsolute with
  | true => rfl
  | false =>
    unfold withoutEnd kept
    split
    · contradiction
    · split <;> rfl

theorem isPrefix_kept (p : Pieces) : p.kept <+: p.pieces := by
  unfold kept
  split
  · rename_i hhere
    simp only [startsHere, Bool.and_eq_true, beq_iff_eq] at hhere
    obtain ⟨tail, htail⟩ := List.head?_eq_some_iff.mp hhere.2
    rw [htail]
    exact (List.prefix_cons_inj _).mpr (isPrefix_trimEnd tail)
  · exact isPrefix_trimEnd p.pieces

theorem names_kept (p : Pieces) : names p.kept = names p.pieces := by
  unfold kept
  split
  · rename_i hhere
    simp only [startsHere, Bool.and_eq_true, beq_iff_eq] at hhere
    obtain ⟨tail, htail⟩ := List.head?_eq_some_iff.mp hhere.2
    rw [htail, List.tail_cons, names_cons_of_isIdle rfl, names_cons_of_isIdle rfl, names_trimEnd]
  · exact names_trimEnd p.pieces

theorem start_kept (p : Pieces) : start ⟨p.isAbsolute, p.kept⟩ = p.start := by
  refine start_eq_iff.mpr ⟨rfl, Bool.eq_iff_iff.mpr ⟨fun hkept => ?_, fun hhere => ?_⟩⟩
  · simp only [startsHere, Bool.and_eq_true, beq_iff_eq] at hkept ⊢
    exact ⟨hkept.1, head?_of_isPrefix p.isPrefix_kept hkept.2⟩
  · rw [kept, if_pos hhere]
    simp only [startsHere, Bool.and_eq_true] at hhere ⊢
    exact ⟨hhere.1, rfl⟩

/-- A path without what counts for nothing at its end. -/
theorem Of.withoutEnd (h : p.Of path) :
    Path.components (withoutEnd p) = Path.components path ∧ Path.withoutEnd p <+: path := by
  obtain ⟨hstarts, hof⟩ := h.of_isPrefix p.isPrefix_kept
  rw [← p.withoutEnd_eq] at hstarts hof
  refine ⟨?_, hstarts⟩
  rw [hof.components, h.components, start_kept]
  exact congrArg (p.start ++ ·) p.names_kept

end Pieces

/-! ## Paths below others -/

theorem names_of_behind {bs pieces rest : List (List Char)} (h : behind bs pieces = some rest) :
    names pieces = bs.map .name ++ names rest ∧ rest <:+ pieces := by
  fun_induction behind bs pieces with
  | case1 pieces =>
    cases h
    exact ⟨rfl, List.suffix_refl _⟩
  | case2 => cases h
  | case3 b bs piece pieces hidle ih =>
    obtain ⟨hnames, hsuffix⟩ := ih h
    exact ⟨(names_cons_of_isIdle hidle _).trans hnames, hsuffix.trans (List.suffix_cons _ _)⟩
  | case4 b bs pieces hidle ih =>
    obtain ⟨hnames, hsuffix⟩ := ih h
    rw [names_cons (Bool.eq_false_iff.mpr hidle), hnames]
    exact ⟨rfl, hsuffix.trans (List.suffix_cons _ _)⟩
  | case5 => cases h

theorem not_prefix_of_behind {bs pieces : List (List Char)} (h : behind bs pieces = none) :
    ¬ bs.map .name <+: names pieces := by
  fun_induction behind bs pieces with
  | case1 => cases h
  | case2 b bs => simp [names]
  | case3 b bs piece pieces hidle ih =>
    rw [names_cons_of_isIdle hidle]
    exact ih h
  | case4 b bs pieces hidle ih =>
    rw [names_cons (Bool.eq_false_iff.mpr hidle), List.map_cons, List.cons_prefix_cons]
    exact fun hstarts => ih h hstarts.2
  | case5 b bs piece pieces hidle hne =>
    rw [names_cons (Bool.eq_false_iff.mpr hidle), List.map_cons, List.cons_prefix_cons]
    exact fun hstarts => hne (Component.name.inj hstarts.1).symm

/-- The path below a base has the components of the path behind those of the base, and it is a part
of the path as written. -/
theorem components_of_below? {path base rest : String} (h : below? path base = some rest) :
    components path.toList = components base.toList ++ components rest.toList ∧
      rest.toList <:+: path.toList := by
  have hpath := piecesOf_of path
  have hbase := piecesOf_of base
  unfold below? at h
  generalize piecesOf path = p at h hpath
  generalize piecesOf base = b at h hbase
  simp only at h
  split at h
  · rename_i hempty
    obtain rfl := Option.some.inj h
    obtain ⟨hcomponents, hstarts⟩ := hpath.withoutEnd
    rw [String.toList_ofList, hbase.isEmpty_iff.mp hempty, hcomponents]
    exact ⟨rfl, hstarts.isInfix⟩
  · split at h
    · cases h
    · rename_i hstart
      obtain ⟨behind, hbehind, rfl⟩ := Option.map_eq_some_iff.mp h
      obtain ⟨hnames, hsuffix⟩ := names_of_behind hbehind
      have hstart : p.start = b.start := Pieces.start_eq_iff.mpr (by simpa using hstart)
      have hpart : trimEnd (behind.dropWhile isIdle) <:+: p.pieces :=
        ((isPrefix_trimEnd _).isInfix.trans (List.dropWhile_suffix isIdle).isInfix).trans
          hsuffix.isInfix
      have hhead : ∀ piece ∈ (trimEnd (behind.dropWhile isIdle)).head?, isIdle piece = false := by
        intro piece hpiece
        have hfirst := List.head?_dropWhile_not isIdle behind
        rwa [head?_of_isPrefix (isPrefix_trimEnd _) hpiece] at hfirst
      have hrest := components_of_head
        (fun piece hpiece => hpath.plain piece (hpart.subset hpiece)) hhead
      rw [names_trimEnd, names_dropWhile] at hrest
      rw [String.toList_ofList, hrest, hpath.components, hbase.components, List.append_assoc,
        hstart]
      refine ⟨congrArg (b.start ++ ·) hnames, (isInfix_intercalate '/' hpart).trans ?_⟩
      rw [hpath.text]
      exact (List.suffix_append _ _).isInfix

/-- There is a path below a base exactly when the components of the base are the first ones of the
path. -/
theorem below?_eq_none_iff {path base : String} : below? path base = none ↔
    ¬ components base.toList <+: components path.toList := by
  constructor
  · intro h
    have hpath := piecesOf_of path
    have hbase := piecesOf_of base
    unfold below? at h
    generalize piecesOf path = p at h hpath
    generalize piecesOf base = b at h hbase
    simp only at h
    split at h
    · cases h
    · rename_i hempty
      rw [hbase.isEmpty_iff] at hempty
      rw [hbase.components] at hempty ⊢
      rw [hpath.components]
      split at h
      · rename_i hstart
        intro hstarts
        have hstart' := Pieces.start_eq_iff.mp (Pieces.start_eq_of_isPrefix hempty hstarts)
        simp [hstart'] at hstart
      · rename_i hstart
        have hstart : p.start = b.start := Pieces.start_eq_iff.mpr (by simpa using hstart)
        rw [hstart, List.prefix_append_right_inj]
        exact not_prefix_of_behind (Option.map_eq_none_iff.mp h)
  · intro h
    cases hbelow : below? path base with
    | none => rfl
    | some rest =>
      rw [(components_of_below? hbelow).1] at h
      exact absurd (List.prefix_append _ _) h

end LosslessJava.Diff.Path
