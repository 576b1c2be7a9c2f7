import LosslessJava.Diff.Compaction

/-!
# Groups of edits

A script is shown in groups, which leave out long runs of kept elements.

* `Script.groups`: the changes of a script with some lines around them.
* `Script.HoldsChanges`: what any groups of a script have to be. They lie in it one behind the
  other, and outside of them it changes nothing.
* `Script.holdsChanges_groups`: the groups are such.
-/

namespace LosslessJava.Diff

namespace Script

/-! ## Cutting -/

/-- Leaves no more than `context` kept elements in front. -/
def trimStart (context : Nat) : List Edit → List Edit
  | e :: es => if e.kind = .keep then e.dropFirst (e.oldLength - context) :: es else e :: es
  | [] => []

/-- Leaves no more than `context` kept elements at the end. -/
def trimEnd (context : Nat) : List Edit → List Edit
  | [] => []
  | [e] => if e.kind = .keep then [e.dropLast (e.oldLength - context)] else [e]
  | e :: es => e :: trimEnd context es

/-- A group that has a change, or none. -/
def closeGroup : List Edit → List (List Edit)
  | [] => []
  | [e] => if e.kind = .keep then [] else [[e]]
  | es => [es]

/-- Splits at every long run of kept elements. `group` is the group so far. -/
def split (context : Nat) (group : List Edit) : List Edit → List (List Edit)
  | [] => closeGroup group
  | e :: es =>
    if e.kind = .keep ∧ 2 * context < e.oldLength then
      (group ++ [e.dropLast (e.oldLength - context)]) ::
        split context [e.dropFirst (e.oldLength - context)] es
    else split context (group ++ [e]) es

/-- The changes with up to `context` kept elements around them. -/
def groups (context : Nat) (es : List Edit) : List (List Edit) :=
  split context [] (trimEnd context (trimStart context es))

/-! ## What groups hold -/

/-- Edits that keep are split in two, one after the other. -/
inductive Splits : List Edit → List Edit → Prop
  | refl (es : List Edit) : Splits es es
  | head {front back fs : List Edit} {e : Edit} {n : Nat} (hkind : e.kind = .keep)
    (hn : n ≤ e.oldLength)
    (h : Splits (front ++ e.dropLast (e.oldLength - n) :: e.dropFirst n :: back) fs) :
    Splits (front ++ e :: back) fs

/-- The number of old elements that edits are about. -/
def oldLength : List Edit → Nat
  | [] => 0
  | e :: es => e.oldLength + oldLength es

/-- The groups lie in the edits one behind the other. The edits outside of them keep. At least
`least` elements lie in front of the first group, and at least one in front of each other. -/
inductive Spaced : Nat → List Edit → List (List Edit) → Prop
  | nil {least : Nat} {es : List Edit} (h : ∀ e ∈ es, e.kind = .keep) : Spaced least es []
  | cons {least : Nat} {front group es : List Edit} {groups : List (List Edit)}
    (hfront : ∀ e ∈ front, e.kind = .keep) (hleast : least ≤ oldLength front)
    (hne : group ≠ []) (h : Spaced 1 es groups) :
    Spaced least (front ++ (group ++ es)) (group :: groups)

/-- The groups hold all changes of a script, in order. What they leave out is kept. -/
def HoldsChanges (es : List Edit) (groups : List (List Edit)) : Prop :=
  ∃ fs, Splits es fs ∧ Spaced 0 fs groups

section

variable {es fs gs group front back : List Edit} {e : Edit} {context least n : Nat}

theorem Splits.trans (h : Splits es fs) (h' : Splits fs gs) : Splits es gs := by
  induction h with
  | refl => exact h'
  | head hkind hn _ ih => exact .head hkind hn (ih h')

theorem Splits.append_left (front : List Edit) (h : Splits es fs) :
    Splits (front ++ es) (front ++ fs) := by
  induction h with
  | refl => exact .refl _
  | head hkind hn _ ih =>
    rw [← List.append_assoc] at ih ⊢
    exact .head hkind hn ih

theorem Splits.append_right (back : List Edit) (h : Splits es fs) :
    Splits (es ++ back) (fs ++ back) := by
  induction h with
  | refl => exact .refl _
  | head hkind hn _ ih =>
    rw [List.append_assoc] at ih ⊢
    exact .head hkind hn ih

theorem Splits.cons (hkind : e.kind = .keep) (hn : n ≤ e.oldLength) (es : List Edit) :
    Splits (e :: es) (e.dropLast (e.oldLength - n) :: e.dropFirst n :: es) :=
  @Splits.head [] es _ e n hkind hn (.refl _)

/-- What is cut off in front is kept. -/
theorem splits_trimStart (context : Nat) (es : List Edit) :
    ∃ front, (∀ e ∈ front, e.kind = .keep) ∧ Splits es (front ++ trimStart context es) := by
  cases es with
  | nil => exact ⟨[], List.forall_mem_nil _, .refl _⟩
  | cons e es =>
    rw [trimStart]
    split
    · rename_i hkind
      exact ⟨[e.dropLast _], List.forall_mem_singleton.mpr hkind,
        .cons hkind (Nat.sub_le e.oldLength context) es⟩
    · exact ⟨[], List.forall_mem_nil _, .refl _⟩

/-- What is cut off at the end is kept. -/
theorem splits_trimEnd (context : Nat) (es : List Edit) :
    ∃ back, (∀ e ∈ back, e.kind = .keep) ∧ Splits es (trimEnd context es ++ back) := by
  induction es with
  | nil => exact ⟨[], List.forall_mem_nil _, .refl _⟩
  | cons e es ih =>
    cases es with
    | nil =>
      rw [trimEnd]
      split
      · rename_i hkind
        have hsplit := Splits.cons hkind (Nat.min_le_left e.oldLength context) []
        rw [show e.oldLength - min e.oldLength context = e.oldLength - context by omega] at hsplit
        exact ⟨[e.dropFirst _], List.forall_mem_singleton.mpr hkind, hsplit⟩
      · exact ⟨[], List.forall_mem_nil _, .refl _⟩
    | cons f fs =>
      obtain ⟨back, hback, hsplit⟩ := ih
      exact ⟨back, hback, hsplit.append_left [e]⟩

/-- A long run of kept elements is split in three. The part in the middle is not empty. -/
theorem splits_long (hkind : e.kind = .keep) (hlong : 2 * context < e.oldLength) :
    ∃ f : Edit, f.kind = .keep ∧ 1 ≤ f.oldLength ∧ ∀ es, Splits (e :: es)
      (e.dropLast (e.oldLength - context) :: f :: e.dropFirst (e.oldLength - context) :: es) := by
  have hkind' : (e.dropFirst context).kind = .keep := hkind
  have hlength : (e.dropFirst context).oldLength = e.oldLength - context := rfl
  have hrest := Splits.cons (n := e.oldLength - 2 * context) hkind' (by omega)
  have hlast : (e.dropFirst context).dropFirst (e.oldLength - 2 * context) =
      e.dropFirst (e.oldLength - context) := by
    simp only [Edit.dropFirst, Edit.mk.injEq, true_and]
    omega
  rw [hlast] at hrest
  refine ⟨(e.dropFirst context).dropLast _, hkind', ?_, fun es =>
    (Splits.cons hkind (by omega) es).trans ((hrest es).append_left [_])⟩
  simp only [Edit.dropLast, hlength]
  omega

theorem spaced_closeGroup (hfront : ∀ e ∈ front, e.kind = .keep)
    (hleast : least ≤ oldLength front) (hback : ∀ e ∈ back, e.kind = .keep) :
    Spaced least (front ++ (group ++ back)) (closeGroup group) := by
  have hkept : (∀ e ∈ group, e.kind = .keep) → ∀ e ∈ front ++ (group ++ back), e.kind = .keep :=
    fun hgroup => List.forall_mem_append.mpr ⟨hfront, List.forall_mem_append.mpr ⟨hgroup, hback⟩⟩
  unfold closeGroup
  split
  · exact .nil (hkept (List.forall_mem_nil _))
  · split
    · rename_i hkind
      exact .nil (hkept (List.forall_mem_singleton.mpr hkind))
    · exact .cons hfront hleast (by simp) (.nil hback)
  · rename_i hne _
    exact .cons hfront hleast hne (.nil hback)

/-- At a long run of kept elements one group ends and another one starts. -/
theorem spaced_split (context : Nat) (hfront : ∀ e ∈ front, e.kind = .keep)
    (hleast : least ≤ oldLength front) (hback : ∀ e ∈ back, e.kind = .keep)
    (group es : List Edit) :
    ∃ fs, Splits es fs ∧
      Spaced least (front ++ (group ++ (fs ++ back))) (split context group es) := by
  induction es generalizing least front group with
  | nil => exact ⟨[], .refl _, spaced_closeGroup hfront hleast hback⟩
  | cons e es ih =>
    rw [split]
    split
    · rename_i hlong
      obtain ⟨f, hkind, hlength, hsplit⟩ := splits_long hlong.1 hlong.2
      have hbetween : 1 ≤ oldLength [f] := hlength
      obtain ⟨fs, hes, hspaced⟩ := ih (List.forall_mem_singleton.mpr hkind) hbetween
        [e.dropFirst (e.oldLength - context)]
      have hcons := Spaced.cons hfront hleast
        (show group ++ [e.dropLast (e.oldLength - context)] ≠ [] by simp) hspaced
      exact ⟨_, (hsplit es).trans (hes.append_left [_, f, _]), by simpa using hcons⟩
    · obtain ⟨fs, hes, hspaced⟩ := ih hfront hleast (group ++ [e])
      exact ⟨e :: fs, hes.append_left [e], by simpa using hspaced⟩

theorem holdsChanges_groups (context : Nat) (es : List Edit) :
    HoldsChanges es (groups context es) := by
  obtain ⟨front, hfront, hstart⟩ := splits_trimStart context es
  obtain ⟨back, hback, hend⟩ := splits_trimEnd context (trimStart context es)
  obtain ⟨fs, hsplit, hspaced⟩ := spaced_split context hfront (Nat.zero_le _) hback []
    (trimEnd context (trimStart context es))
  exact ⟨_, hstart.trans ((hend.trans (hsplit.append_right back)).append_left front), hspaced⟩

end

end Script

end LosslessJava.Diff
