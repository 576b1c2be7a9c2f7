import LosslessJava.Imports
import LosslessJava.Proofs.Name.Qualified

/-!
# The order of imports

Imports are ordered by their text, which leaves out all trivia. The text says whether an import is
static, whether it is on demand, and its name: no identifier has a blank, an asterisk or a dot in
it. Imports with equal text are not told apart by the order, and stay as they are when the imports
are sorted.

* `Import.eq_of_fullText`: what the text of an import tells.
* `Import.isSorted_iff_pairwise`: neighbours in order are enough.
* `Import.filter_sort`: imports with equal text, before and after sorting.
* `sort_sorts`: the order and the sorted list.
-/

namespace LosslessJava

namespace Import

/-! ## The text of an import -/

variable {i j : Import}

theorem toList_fullText (i : Import) :
    i.fullText.toList = (if i.isStatic then "static ".toList else []) ++ i.name.text.toList ++
      (if i.wildcard then ".*".toList else []) := by
  unfold fullText pathText
  cases i.isStatic <;> cases i.wildcard <;> simp

/-- Characters of no identifier stand in the marks of the kinds only. -/
theorem mem_fullText_iff {c : Char} (h : i.name.OfIdentifiers) (hdot : c ≠ '.')
    (hsegment : isSegmentPart c = false) (hword : Lex.isWordPart c = false) :
    c ∈ i.fullText.toList ↔
      i.isStatic = true ∧ c ∈ "static ".toList ∨ i.wildcard = true ∧ c ∈ ".*".toList := by
  have hname : c ∉ i.name.text.toList := h.not_mem_text hdot hsegment hword
  rw [toList_fullText]
  cases i.isStatic <;> cases i.wildcard <;> simp [hname, or_assoc]

theorem blank_mem_fullText (h : i.name.OfIdentifiers) :
    ' ' ∈ i.fullText.toList ↔ i.isStatic = true := by
  rw [mem_fullText_iff h (by decide) (by decide) (by decide)]
  simp

theorem asterisk_mem_fullText (h : i.name.OfIdentifiers) :
    '*' ∈ i.fullText.toList ↔ i.wildcard = true := by
  rw [mem_fullText_iff h (by decide) (by decide) (by decide)]
  simp

/-- The text tells the name and the kind of an import. -/
theorem eq_of_fullText (hi : i.name.OfIdentifiers) (hj : j.name.OfIdentifiers)
    (h : i.fullText = j.fullText) :
    i.isStatic = j.isStatic ∧ i.wildcard = j.wildcard ∧ i.name = j.name := by
  have hstatic : i.isStatic = j.isStatic := by
    rw [Bool.eq_iff_iff, ← blank_mem_fullText hi, ← blank_mem_fullText hj, h]
  have hwildcard : i.wildcard = j.wildcard := by
    rw [Bool.eq_iff_iff, ← asterisk_mem_fullText hi, ← asterisk_mem_fullText hj, h]
  refine ⟨hstatic, hwildcard, QualifiedName.eq_of_text hi hj ?_⟩
  have hlist := congrArg String.toList h
  rw [toList_fullText, toList_fullText, hstatic, hwildcard, List.append_cancel_right_eq,
    List.append_cancel_left_eq] at hlist
  exact String.toList_injective hlist

theorem fullText_congr (hstatic : i.isStatic = j.isStatic) (hwildcard : i.wildcard = j.wildcard)
    (hname : i.name = j.name) : i.fullText = j.fullText := by
  rw [fullText, fullText, pathText, pathText, hstatic, hwildcard, hname]

/-! ## The order -/

/-- Imports are ordered as their texts are. -/
theorem transCmp_order : Std.TransCmp order := by
  have htext : Std.TransCmp fun s t : String => compare s t := inferInstance
  exact { eq_swap := htext.eq_swap, isLE_trans := htext.isLE_trans }

theorem order_eq_eq_iff : i.order j = .eq ↔ i.fullText = j.fullText := by
  have htext : Std.LawfulEqCmp fun s t : String => compare s t := inferInstance
  exact htext.compare_eq_iff_eq

theorem order_isLE_trans (i j k : Import) (hij : (i.order j).isLE = true)
    (hjk : (j.order k).isLE = true) : (i.order k).isLE = true :=
  transCmp_order.isLE_trans hij hjk

theorem order_isLE_total (i j : Import) : ((i.order j).isLE || (j.order i).isLE) = true := by
  rw [transCmp_order.eq_swap (a := j)]
  cases i.order j <;> rfl

/-! ## Sorted lists -/

/-- In a list whose neighbours are in order, all imports are. -/
theorem isSorted_iff_pairwise (is : List Import) :
    isSorted is = true ↔ is.Pairwise fun i j => (i.order j).isLE = true := by
  fun_induction isSorted is with
  | case1 i j rest ih =>
    rw [Bool.and_eq_true, ih]
    constructor
    · rintro ⟨hij, hrest⟩
      refine List.pairwise_cons.mpr ⟨List.forall_mem_cons.mpr ⟨hij, fun k hk => ?_⟩, hrest⟩
      exact order_isLE_trans i j k hij ((List.pairwise_cons.mp hrest).1 k hk)
    · intro h
      obtain ⟨hi, hrest⟩ := List.pairwise_cons.mp h
      exact ⟨hi j List.mem_cons_self, hrest⟩
  | case2 is h =>
    match is, h with
    | [], _ => simp
    | [i], _ => simp
    | i :: j :: rest, h => exact absurd rfl (h i j rest)

theorem sort_perm (is : List Import) : (sort is).Perm is := List.mergeSort_perm is _

theorem pairwise_sort (is : List Import) :
    (sort is).Pairwise fun i j => (i.order j).isLE = true :=
  List.pairwise_mergeSort order_isLE_trans order_isLE_total is

/-- Imports with equal text keep their order. -/
theorem filter_sort (is : List Import) (k : Import) :
    (sort is).filter (fun i => i.order k == .eq) = is.filter fun i => i.order k == .eq := by
  have hequal : (is.filter fun i => i.order k == .eq).Pairwise fun i j =>
      (i.order j).isLE = true := by
    refine List.pairwise_of_forall_mem_list fun i hi j hj => ?_
    have htext : ∀ l ∈ is.filter (fun i => i.order k == .eq), l.fullText = k.fullText :=
      fun l hl => order_eq_eq_iff.mp (beq_iff_eq.mp (List.mem_filter.mp hl).2)
    rw [order_eq_eq_iff.mpr ((htext i hi).trans (htext j hj).symm)]
    rfl
  -- They are part of the sorted list in their old order, and it has no others.
  have hsublist : (is.filter fun i => i.order k == .eq).Sublist (sort is) :=
    List.sublist_mergeSort order_isLE_trans order_isLE_total hequal List.filter_sublist
  have hfilter := hsublist.filter fun i => i.order k == .eq
  simp only [List.filter_filter, Bool.and_self] at hfilter
  exact (hfilter.eq_of_length ((sort_perm is).filter _).length_eq.symm).symm

theorem sort_eq_self_iff (is : List Import) : sort is = is ↔ isSorted is = true := by
  rw [isSorted_iff_pairwise]
  constructor
  · intro h
    exact h ▸ pairwise_sort is
  · exact List.mergeSort_of_pairwise

end Import

/-- The order of imports is a total preorder, and for names of identifiers it tells everything apart
but trivia. Sorting rearranges the imports so that all of them are in order, those that the order
does not tell apart as they were before. It changes nothing just when the imports are in order. -/
theorem sort_sorts :
    Std.TransCmp Import.order ∧
    (∀ i j : Import, i.name.OfIdentifiers → j.name.OfIdentifiers →
      (i.order j = .eq ↔ i.isStatic = j.isStatic ∧ i.wildcard = j.wildcard ∧ i.name = j.name)) ∧
    ∀ is, (Import.sort is).Perm is ∧ Import.isSorted (Import.sort is) = true ∧
      (∀ k : Import, (Import.sort is).filter (fun i => i.order k == .eq) =
        is.filter fun i => i.order k == .eq) ∧
      (Import.sort is).Pairwise (fun i j => i.order j ≠ .gt) ∧
      (Import.sort is = is ↔ Import.isSorted is = true) := by
  refine ⟨Import.transCmp_order, fun i j hi hj => ?_, fun is => ⟨Import.sort_perm is, ?_,
    Import.filter_sort is, ?_, Import.sort_eq_self_iff is⟩⟩
  · rw [Import.order_eq_eq_iff]
    exact ⟨Import.eq_of_fullText hi hj, fun ⟨hs, hw, hn⟩ => Import.fullText_congr hs hw hn⟩
  · exact (Import.isSorted_iff_pairwise _).mpr (Import.pairwise_sort is)
  · exact (Import.pairwise_sort is).imp Ordering.isLE_iff_ne_gt.mp

/-- A static import in front of two imports of one class, the second of them behind a blank. -/
theorem sort_sorts_static :
    ∃ i j k : Import, i.name.OfIdentifiers ∧ i ≠ j ∧ i.order j = .eq ∧ i.order k ≠ .eq ∧
      Import.isSorted [k, i, j] = false ∧ Import.sort [k, i, j] ≠ [k, i, j] ∧
      (Import.sort [k, i, j]).filter (fun l => l.order i == .eq) = [i, j] := by
  let n : QualifiedName := ⟨["p", "Set"], by simp⟩
  let i : Import := .build n false false
  let j : Import := { i with lead := .space }
  let k : Import := .build n true false
  have hn : n.OfIdentifiers := fun w hw => .inl (by
    have hall : ∀ w ∈ n.segments, isIdentifier w = true := by decide +kernel
    exact hall w hw)
  obtain ⟨-, hequal, hsort⟩ := sort_sorts
  have hij : i.order j = .eq := (hequal i j hn hn).mpr ⟨rfl, rfl, rfl⟩
  have hik : i.order k ≠ .eq := fun h => Bool.noConfusion ((hequal i k hn hn).mp h).1
  have hsorted : Import.isSorted [k, i, j] = false := by decide +kernel
  obtain ⟨-, -, hfilter, -, hself⟩ := hsort [k, i, j]
  refine ⟨i, j, k, hn, by decide, hij, hik, hsorted, fun h => ?_, ?_⟩
  · rw [hself.mp h] at hsorted
    cases hsorted
  · rw [hfilter i]
    decide +kernel

end LosslessJava
