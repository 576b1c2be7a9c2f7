import LosslessJava.Proofs.Resolve.TypeIndex
import LosslessJava.Proofs.Type.ClassType
import LosslessJava.Resolve.Attribution

/-!
# Indexed classes by their full name

A dotted name that starts with no visible class is fully qualified. The longest part in front of it
that names a class of the index is that class, and what follows are classes nested in it. The letter
case of the segments is asked for only where no part of the name is in the index.

* `Scope.resolveIndexed_of_unknown`: longer parts that are not in the index change nothing.
* `resolve_fullName`: a class of the index is found by its full name from every unit, and with it
  the classes nested in it.
-/

namespace LosslessJava

namespace Scope

variable {s : Scope} {n : QualifiedName} {c : ClassType} {path : List String}

/-- The part of the name that is known is what it denotes, with the rest nested in it. -/
theorem resolveIndexed_of_known {length : Nat}
    (h : (n.take? (length + 1)).bind s.index.find? = some c) :
    s.resolveIndexed n (length + 1) = some (c.nestedAlong (n.segments.drop (length + 1))) := by
  rw [resolveIndexed, h]

theorem resolveIndexed_succ_of_unknown {length : Nat}
    (h : (n.take? (length + 1)).bind s.index.find? = none) :
    s.resolveIndexed n (length + 1) = s.resolveIndexed n length := by
  rw [resolveIndexed, h]

/-- Parts of the name that are not known are passed over, from the longest one down. -/
theorem resolveIndexed_of_unknown {length more : Nat}
    (h : ∀ k, length < k → k ≤ length + more → (n.take? k).bind s.index.find? = none) :
    s.resolveIndexed n (length + more) = s.resolveIndexed n length := by
  induction more with
  | zero => rfl
  | succ more ih =>
    have hlast := h (length + more + 1) (by omega) (Nat.le_refl _)
    rw [← Nat.add_assoc, resolveIndexed_succ_of_unknown hlast]
    exact ih fun k hk hle => h k hk (by omega)

/-- No part of a name that is longer than all indexed ones is known. -/
theorem find?_take?_eq_none {length : Nat} (h : ∀ m : QualifiedName, s.index.contains m = true →
      m.segments <+: n.segments → m.segments.length ≤ length) {k : Nat} (hk : length < k) :
    (n.take? k).bind s.index.find? = none := by
  rw [Option.bind_eq_none_iff]
  intro m hm
  obtain ⟨hle, hsegments⟩ := QualifiedName.take?_eq_some_iff.mp hm
  cases hknown : s.index.find? m with
  | none => rfl
  | some d =>
    have hshort := h m (by rw [TypeIndex.contains, hknown, Option.isSome_some])
      (hsegments ▸ List.take_prefix k n.segments)
    rw [hsegments, List.length_take, Nat.min_eq_left hle] at hshort
    omega

/-- The longest part of a name that is in the index is what it denotes. -/
theorem resolveIndexed_of_longest (hn : n.segments = c.name.segments ++ path)
    (hc : s.index.find? c.name = some c)
    (hlongest : ∀ m : QualifiedName, s.index.contains m = true →
      m.segments <+: n.segments → m.segments.length ≤ c.name.segments.length) :
    s.resolveIndexed n n.segments.length = some (c.nestedAlong path) := by
  obtain ⟨length, hlength⟩ := Nat.exists_eq_add_one_of_ne_zero (Nat.ne_of_gt c.name.length_pos)
  have htake : n.take? (length + 1) = some c.name := by
    rw [← hlength, QualifiedName.take?_eq_some_iff, hn, List.take_left, List.length_append]
    exact ⟨by omega, rfl⟩
  have hdrop : n.segments.drop (length + 1) = path := by rw [hn, ← hlength, List.drop_left]
  calc s.resolveIndexed n n.segments.length
      = s.resolveIndexed n (length + 1 + path.length) := by rw [hn, List.length_append, hlength]
    _ = s.resolveIndexed n (length + 1) :=
        resolveIndexed_of_unknown fun k hk _ => find?_take?_eq_none hlongest (hlength ▸ hk)
    _ = some (c.nestedAlong path) := by
        rw [resolveIndexed_of_known (c := c) (by rw [htake]; exact hc), hdrop]

end Scope

variable {u : CompilationUnit} {index : TypeIndex} {implicitLanguage : Bool} {c : ClassType}
  {n : QualifiedName} {path : List String}

/-- A class of the index is found by its full name, and the classes nested in it by the names behind
that, in every unit where the first segment of the name is no visible class: unless a longer part of
the name is in the index. Their package is that of the indexed class. -/
theorem resolve_fullName (hc : index.find? c.name = some c)
    (hn : n.segments = c.name.segments ++ path)
    (hfirst : (Scope.ofUnit index implicitLanguage u).resolveSimple
      (c.name.segments.head c.name.segments_ne_nil) = none)
    (hlongest : ∀ m : QualifiedName, index.contains m = true → m.segments <+: n.segments →
      m.segments.length ≤ c.name.segments.length) :
    u.resolve index implicitLanguage n = some (c.nestedAlong path) ∧
      (c.nestedAlong path).name = n ∧ (c.nestedAlong path).packageLength = c.packageLength := by
  have hhead : n.segments.head n.segments_ne_nil = c.name.segments.head c.name.segments_ne_nil := by
    simp only [hn, List.head_append_of_ne_nil c.name.segments_ne_nil]
  have hindexed := Scope.resolveIndexed_of_longest (s := .ofUnit index implicitLanguage u) hn hc
    hlongest
  refine ⟨?_, ?_, c.packageLength_nestedAlong path⟩
  · rw [CompilationUnit.resolve, Scope.resolve, hhead, hfirst]
    simp only [hindexed, Option.some_or]
  · exact QualifiedName.eq_of_segments ((c.segments_nestedAlong path).trans hn.symm)

/-- A lower-case class of an upper-case package, next to a class that is named like the package. By
convention its name would be in no package at all. -/
theorem resolve_fullName_mixed :
    ∃ (u : CompilationUnit) (index : TypeIndex) (c : ClassType) (n : QualifiedName),
      index.contains (.single "Lib") = true ∧ index.find? c.name = some c ∧
      (Scope.ofUnit index true u).resolveSimple "Lib" = none ∧
      n.segments = c.name.segments ++ ["Part"] ∧ (ClassType.fromConvention n).packageLength = 0 ∧
      c.packageLength = 2 ∧ u.resolve index true n = some (c.nested "Part") := by
  let c : ClassType := ⟨⟨["Lib", "model", "item"], by simp⟩, 2, by simp⟩
  let n : QualifiedName := ⟨["Lib", "model", "item", "Part"], by simp⟩
  let index : TypeIndex := ⟨[.topLevel none "Lib", c]⟩
  let u : CompilationUnit := ⟨none, some (.build (.single "app")),
    [.build ⟨["q", "Other"], by simp⟩ false false, .build (.single "q") false true], [], .empty⟩
  have hc : index.find? c.name = some c := by decide
  have hfirst : (Scope.ofUnit index true u).resolveSimple "Lib" = none := by decide +kernel
  have hlongest : ∀ m : QualifiedName, index.contains m = true → m.segments <+: n.segments →
      m.segments.length ≤ c.name.segments.length := by
    intro m hm _
    obtain ⟨d, hd⟩ := Option.isSome_iff_exists.mp hm
    rw [← TypeIndex.name_of_find? hd]
    rcases List.mem_cons.mp (List.mem_of_find?_eq_some hd) with rfl | hd
    · decide
    · obtain rfl := List.mem_singleton.mp hd
      exact Nat.le_refl _
  have hn : n.segments = c.name.segments ++ ["Part"] := rfl
  exact ⟨u, index, c, n, by decide, hc, hfirst, hn, by decide +kernel, rfl,
    (resolve_fullName hc hn hfirst hlongest).1⟩

end LosslessJava
