import LosslessJava.Literal.Value
import LosslessJava.Proofs.Lex.Integer
import Mathlib.Data.Nat.Digits.Defs

/-!
# Values of integer literals

An integer literal denotes the number that its digits make up in its radix, if that is in the range
of the literal's type. In decimal the range ends one past the largest value of the type. In other
radixes it is that of an unsigned word, whose bits are read as two's complement.

* `Integer.radix`, `Integer.magnitude`, `Integer.fitted`, `Integer.denoted`: the number and the
  value that it stands for.
* `Integer.decode_eq_denoted`: literals are decoded to that value.
-/

namespace LosslessJava.Integer

open LosslessJava.Lex

/-! ## The denoted value -/

/-- The text without suffix and underscores. -/
def plain (cs : List Char) : List Char :=
  (if isLong cs then cs.dropLast else cs).filter (· != '_')

/-- Sixteen or two by the mark, eight for more than one digit with a zero in front, else ten. -/
def radix (cs : List Char) : Nat :=
  if ['0', 'x'] <+: cs ∨ ['0', 'X'] <+: cs then 16
  else if ['0', 'b'] <+: cs ∨ ['0', 'B'] <+: cs then 2
  else if 1 < (plain cs).length ∧ ['0'] <+: plain cs then 8
  else 10

/-- The digits without the mark. -/
def digits (cs : List Char) : List Char :=
  if radix cs = 16 ∨ radix cs = 2 then (plain cs).drop 2 else plain cs

/-- The value of a digit, in either case. -/
def digitIndex (c : Char) : Nat := "0123456789abcdef".toList.idxOf c.toLower

/-- The number that is written. -/
def magnitude (cs : List Char) : Nat :=
  Nat.ofDigits (radix cs) ((digits cs).reverse.map digitIndex)

/-- A number that is written in the radix as a value of the type, if it is in range. -/
def fitted (long : Bool) (radix magnitude : Nat) : Option LiteralValue :=
  if long then
    if radix = 10 ∧ magnitude ≤ 2 ^ 63 ∨ radix ≠ 10 ∧ magnitude < 2 ^ 64 then
      some (.long (BitVec.ofNat 64 magnitude).toInt)
    else none
  else if radix = 10 then
    if magnitude ≤ 2 ^ 31 then some (.int magnitude) else none
  else if magnitude < 2 ^ 32 then some (.int (BitVec.ofNat 32 magnitude).toInt)
  else none

/-- The value of a literal, none when it is out of range or has a digit eight or nine in octal. -/
def denoted (cs : List Char) : Option LiteralValue :=
  if radix cs = 8 ∧ ('8' ∈ digits cs ∨ '9' ∈ digits cs) then none
  else fitted (isLong cs) (radix cs) (magnitude cs)

/-! ## Numbers -/

theorem digitIn_eq {c : Char} (hc : c ∈ hexDigits) (r : Nat) :
    digitIn r c = if digitIndex c < r then some (digitIndex c) else none := by
  have hvalue : ∀ c ∈ hexDigits, digitValue c = some (digitIndex c) :=
    List.all_iff_forall_prop.mp (by decide)
  rw [digitIn, hvalue c hc, Option.filter_some]
  simp

theorem digitsIn_cons (r : Nat) (d : Char) (ds : List Char) : digitsIn r (d :: ds) =
    (d :: ds).foldlM (fun value c => (digitIn r c).map (value * r + ·)) 0 :=
  rfl

/-- Digits of the radix, on from the number before them. -/
theorem foldlM_digitIn {r : Nat} {ds : List Char}
    (h : ∀ c ∈ ds, digitIn r c = some (digitIndex c)) (n : Nat) :
    ds.foldlM (fun value c => (digitIn r c).map (value * r + ·)) n =
      some (ds.foldl (fun value c => value * r + digitIndex c) n) := by
  induction ds generalizing n with
  | nil => rfl
  | cons c ds ih =>
    obtain ⟨hc, hds⟩ := List.forall_mem_cons.mp h
    rw [List.foldlM_cons, hc]
    exact ih hds _

theorem foldlM_digitIn_eq_none {r : Nat} {ds : List Char} {c : Char} (hc : c ∈ ds)
    (h : digitIn r c = none) (n : Nat) :
    ds.foldlM (fun value c => (digitIn r c).map (value * r + ·)) n = none := by
  induction ds generalizing n with
  | nil => cases hc
  | cons d ds ih =>
    rw [List.foldlM_cons]
    rcases List.mem_cons.mp hc with rfl | hc
    · rw [h]
      rfl
    · cases hd : digitIn r d with
      | none => rfl
      | some v => exact ih hc _

theorem ofDigits_reverse_map (r : Nat) (ds : List Char) :
    Nat.ofDigits r (ds.reverse.map digitIndex) =
      ds.foldl (fun value c => value * r + digitIndex c) 0 := by
  rw [Nat.ofDigits_eq_foldr, List.foldr_map, List.foldr_reverse]
  simp only [Nat.mul_comm r, Nat.add_comm (digitIndex _), Nat.cast_id]

theorem digitsIn_eq {r : Nat} {ds : List Char} (hne : ds ≠ [])
    (h : ∀ c ∈ ds, digitIn r c = some (digitIndex c)) :
    digitsIn r ds = some (Nat.ofDigits r (ds.reverse.map digitIndex)) := by
  obtain ⟨d, es, rfl⟩ := List.exists_cons_of_ne_nil hne
  rw [ofDigits_reverse_map, digitsIn_cons]
  exact foldlM_digitIn h 0

theorem digitsIn_eq_none {r : Nat} {ds : List Char} {c : Char} (hc : c ∈ ds)
    (h : digitIn r c = none) : digitsIn r ds = none := by
  cases ds with
  | nil => rfl
  | cons d ds => exact foldlM_digitIn_eq_none hc h 0

/-- Words are read as two's complement. -/
theorem map_inWord (long : Bool) (r m : Nat) :
    ((inWord long r m).map fun v => if long then LiteralValue.long v else .int v) =
      fitted long r m := by
  by_cases hr : r = 10
  · by_cases hm : m ≤ 2 ^ (wordSize long) / 2 <;> cases long <;>
      simp_all [inWord, wordSize, fitted, BitVec.toInt_ofNat']
  · by_cases hm : m < 2 ^ (wordSize long) <;> cases long <;>
      simp_all [inWord, wordSize, fitted, BitVec.toInt_ofNat']

/-! ## Texts of literals -/

section Parts

variable {mark ds suffix : List Char} {p : Char → Bool} {d : Char}

theorem isLongSuffix_eq_false (h : IntegerParts mark p d ds suffix) :
    ∀ c ∈ mark ++ d :: ds, isLongSuffix c = false := by
  have hdigits : ∀ c ∈ hexDigits, isLongSuffix c = false := List.all_iff_forall_prop.mp (by decide)
  have hmarks : ∀ c ∈ mark, isLongSuffix c = false := by
    cases h.mark with
    | hexadecimal hc => rcases hc with rfl | rfl <;> simp [isLongSuffix]
    | binary hc => rcases hc with rfl | rfl <;> simp [isLongSuffix]
    | bare => simp
  intro c hc
  rcases List.mem_append.mp hc with hc | hc
  · exact hmarks c hc
  · rcases List.mem_cons.mp hc with rfl | hc
    · exact hdigits c (h.mark.mem_hexDigits h.first)
    · rcases h.more c hc with hc | rfl
      · exact hdigits c (h.mark.mem_hexDigits hc)
      · rfl

/-- Only characters behind the first digit are underscores. -/
theorem filter_underscore (h : IntegerParts mark p d ds suffix) :
    (mark ++ d :: ds).filter (· != '_') = mark ++ d :: ds.filter (· != '_') := by
  have hdigits : ∀ c ∈ hexDigits, (c != '_') = true := List.all_iff_forall_prop.mp (by decide)
  have hmarks : mark.filter (· != '_') = mark := by
    cases h.mark with
    | hexadecimal hc => rcases hc with rfl | rfl <;> rfl
    | binary hc => rcases hc with rfl | rfl <;> rfl
    | bare => rfl
  rw [List.filter_append, hmarks]
  exact congrArg _ (List.filter_cons_of_pos (hdigits d (h.mark.mem_hexDigits h.first)))

theorem plain_eq (h : IntegerParts mark p d ds suffix) :
    plain (mark ++ d :: ds ++ suffix) = mark ++ d :: ds.filter (· != '_') := by
  have hlast : isLong (mark ++ d :: ds) = false := by
    obtain ⟨es, e, hes, he⟩ := exists_append_singleton d ds
    have hsuffix := isLongSuffix_eq_false h e (List.mem_append_right mark he)
    rw [isLong, hes, ← List.append_assoc, List.getLast?_concat]
    exact hsuffix
  rw [← filter_underscore h, plain]
  rcases h.suffix with rfl | rfl | rfl
  · rw [List.append_nil, hlast]
    rfl
  · rw [isLong, List.getLast?_concat, List.dropLast_concat]
    rfl
  · rw [isLong, List.getLast?_concat, List.dropLast_concat]
    rfl

theorem filter_eq_plain (h : IntegerParts mark p d ds suffix) :
    (mark ++ d :: ds ++ suffix).filter (fun c => !isLongSuffix c && c != '_') =
      plain (mark ++ d :: ds ++ suffix) := by
  have hnone : suffix.filter (fun c => !isLongSuffix c && c != '_') = [] := by
    rcases h.suffix with rfl | rfl | rfl <;> rfl
  rw [plain_eq h, ← filter_underscore h, List.filter_append, hnone, List.append_nil]
  refine List.filter_congr fun c hc => ?_
  rw [isLongSuffix_eq_false h c hc]
  rfl

theorem forall_digits (h : IntegerParts mark p d ds suffix) :
    ∀ e ∈ d :: ds.filter (· != '_'), p e = true := by
  refine List.forall_mem_cons.mpr ⟨h.first, fun e he => ?_⟩
  obtain ⟨he, hne⟩ := List.mem_filter.mp he
  exact (h.more e he).resolve_right (bne_iff_ne.mp hne)

end Parts

/-! ## The radix -/

variable {cs : List Char}

/-- The digits of an integer literal: there are some, they are digits of its radix but for eight and
nine in octal, and what is decoded are they. -/
structure Numeral (cs : List Char) : Prop where
  ne_nil : digits cs ≠ []
  mem_hexDigits : ∀ c ∈ digits cs, c ∈ hexDigits
  index_lt : ∀ c ∈ digits cs, digitIndex c < radix cs ∨ radix cs = 8 ∧ (c = '8' ∨ c = '9')
  digitsIn_eq : ∃ ds, radixed (cs.filter fun c => !isLongSuffix c && c != '_') = (radix cs, ds) ∧
    digitsIn (radix cs) ds = digitsIn (radix cs) (digits cs)

/-- A mark makes the radix, and the digits are those behind it. -/
theorem Numeral.of_mark {c : Char} {es : List Char} {r : Nat} (hne : es ≠ []) (hr : r = 16 ∨ r = 2)
    (hes : ∀ e ∈ es, e ∈ hexDigits ∧ digitIndex e < r) (hradix : radix cs = r)
    (hplain : plain cs = '0' :: c :: es) (hradixed : radixed ('0' :: c :: es) = (r, es))
    (hfilter : cs.filter (fun c => !isLongSuffix c && c != '_') = plain cs) : Numeral cs := by
  have hdigits : digits cs = es := by
    rw [digits, hradix, if_pos hr, hplain]
    rfl
  refine ⟨hdigits ▸ hne, fun e he => ?_, fun e he => .inl ?_, es, ?_, by rw [hdigits]⟩
  · exact (hes e (hdigits ▸ he)).1
  · exact hradix ▸ (hes e (hdigits ▸ he)).2
  · rw [hfilter, hplain, hradixed, hradix]

theorem digitsIn_zero_cons {r : Nat} (hr : 0 < r) {es : List Char} (hne : es ≠ []) :
    digitsIn r ('0' :: es) = digitsIn r es := by
  obtain ⟨e, es, rfl⟩ := List.exists_cons_of_ne_nil hne
  have hzero : digitIn r '0' = some 0 := by
    rw [digitIn_eq (by decide)]
    exact if_pos hr
  rw [digitsIn_cons, digitsIn_cons, List.foldlM_cons, hzero, Option.map_some, Nat.zero_mul]
  rfl

/-- Without a mark, the radix is eight for a zero in front of digits. -/
theorem Numeral.of_digits {d : Char} {es : List Char} (hes : ∀ e ∈ d :: es, e.isDigit = true)
    (hradix : radix cs = if es ≠ [] ∧ d = '0' then 8 else 10) (hplain : plain cs = d :: es)
    (hfilter : cs.filter (fun c => !isLongSuffix c && c != '_') = plain cs) : Numeral cs := by
  have hdigits : digits cs = d :: es := by
    rw [digits, hradix, hplain]
    split <;> rfl
  have hten : ∀ e ∈ hexDigits, e.isDigit = true →
      digitIndex e < 10 ∧ (digitIndex e < 8 ∨ e = '8' ∨ e = '9') :=
    List.all_iff_forall_prop.mp (by decide)
  have hindex : ∀ e ∈ digits cs, digitIndex e < 10 ∧ (digitIndex e < 8 ∨ e = '8' ∨ e = '9') := by
    intro e he
    have hdigit := hes e (hdigits ▸ he)
    exact hten e (mem_hexDigits_of_isDigit hdigit) hdigit
  refine ⟨by simp [hdigits], fun e he => mem_hexDigits_of_isDigit (hes e (hdigits ▸ he)), ?_, ?_⟩
  · intro e he
    rw [hradix]
    split
    · exact (hindex e he).2.imp_right fun h => ⟨rfl, h⟩
    · exact .inl (hindex e he).1
  · rw [hfilter, hplain, hdigits, hradix]
    split
    · rename_i h
      obtain ⟨hne, rfl⟩ := h
      refine ⟨es, ?_, (digitsIn_zero_cons (by decide) hne).symm⟩
      obtain ⟨e, es, rfl⟩ := List.exists_cons_of_ne_nil hne
      have hmarks : ∀ e ∈ hexDigits, e.isDigit = true →
          e ≠ 'x' ∧ e ≠ 'X' ∧ e ≠ 'b' ∧ e ≠ 'B' := List.all_iff_forall_prop.mp (by decide)
      have he := hes e (by simp)
      simp [radixed, hmarks e (mem_hexDigits_of_isDigit he) he]
    · rename_i h
      refine ⟨d :: es, ?_, rfl⟩
      unfold radixed
      split
      · rename_i heq
        obtain ⟨rfl, rfl⟩ := List.cons.inj heq
        exact absurd ⟨by simp, rfl⟩ h
      · rfl

theorem radix_of_digits {d : Char} {ds suffix : List Char}
    (h : IntegerParts [] Char.isDigit d ds suffix) :
    radix (d :: (ds ++ suffix)) = if ds.filter (· != '_') ≠ [] ∧ d = '0' then 8 else 10 := by
  have hdigit : ∀ c ∈ hexDigits, c.isDigit = true → c ∉ "xXbB".toList :=
    List.all_iff_forall_prop.mp (by decide)
  have hother : ∀ c ∈ "_lL".toList, c ∉ "xXbB".toList := List.all_iff_forall_prop.mp (by decide)
  have hmark : ∀ c ∈ "xXbB".toList, ¬ ['0', c] <+: d :: (ds ++ suffix) := by
    intro c hc hstart
    have hmem := hstart.mem (List.mem_cons_of_mem _ List.mem_cons_self)
    rcases h.digit_or_suffix c hmem with hmem | hmem
    · exact hdigit c (mem_hexDigits_of_isDigit hmem) hmem hc
    · exact hother c hmem hc
  have hplain : plain (d :: (ds ++ suffix)) = d :: ds.filter (· != '_') := plain_eq h
  have hzero : 1 < (d :: ds.filter (· != '_')).length ∧ ['0'] <+: d :: ds.filter (· != '_') ↔
      ds.filter (· != '_') ≠ [] ∧ d = '0' := by
    rw [List.length_cons, Nat.lt_add_left_iff_pos, List.length_pos_iff, List.cons_prefix_cons,
      eq_comm (a := '0')]
    simp only [List.nil_prefix, and_true]
  rw [radix, if_neg (not_or.mpr ⟨hmark _ (by decide), hmark _ (by decide)⟩),
    if_neg (not_or.mpr ⟨hmark _ (by decide), hmark _ (by decide)⟩), hplain]
  exact if_congr hzero rfl rfl

theorem numeral_of_isInteger (h : IsInteger cs) : Numeral cs := by
  cases h with
  | @intro mark ds suffix p d h =>
    have hmark := h.mark
    cases hmark with
    | @hexadecimal c hc =>
      have hlt : ∀ e ∈ hexDigits, digitIndex e < 16 := List.all_iff_forall_prop.mp (by decide)
      refine .of_mark (by simp) (.inl rfl) (fun e he => ?_) ?_ (plain_eq h) ?_ (filter_eq_plain h)
      · have hmem := h.mark.mem_hexDigits (forall_digits h e he)
        exact ⟨hmem, hlt e hmem⟩
      · rcases hc with rfl | rfl <;> simp [radix]
      · rcases hc with rfl | rfl <;> rfl
    | @binary c hc =>
      have hlt : ∀ e ∈ hexDigits, isBinaryDigit e = true → digitIndex e < 2 :=
        List.all_iff_forall_prop.mp (by decide)
      refine .of_mark (by simp) (.inr rfl) (fun e he => ?_) ?_ (plain_eq h) ?_ (filter_eq_plain h)
      · have hdigit := forall_digits h e he
        have hmem := h.mark.mem_hexDigits hdigit
        exact ⟨hmem, hlt e hmem hdigit⟩
      · rcases hc with rfl | rfl <;> simp [radix]
      · rcases hc with rfl | rfl <;> rfl
    | bare =>
      exact .of_digits (forall_digits h) (radix_of_digits h) (plain_eq h) (filter_eq_plain h)

/-! ## Decoding -/

/-- A literal is decoded to the value that it denotes. -/
theorem decode_eq_denoted (h : IsInteger cs) : LiteralKind.integer.decode cs = denoted cs := by
  have hnumeral := numeral_of_isInteger h
  obtain ⟨ds, hradixed, hds⟩ := hnumeral.digitsIn_eq
  have hdecode : LiteralKind.integer.decode cs =
      (digitsIn (radix cs) (digits cs)).bind (fitted (isLong cs) (radix cs)) := by
    show ((value? cs).map fun v => if isLong cs then LiteralValue.long v else .int v) = _
    rw [value?, hradixed]
    show (((digitsIn (radix cs) ds).bind (inWord (isLong cs) (radix cs))).map _) = _
    rw [hds, Option.map_bind]
    exact congrArg _ (funext fun m => map_inWord (isLong cs) (radix cs) m)
  rw [hdecode, denoted]
  split
  · rename_i hoctal
    obtain ⟨hradix, hmem⟩ := hoctal
    have hnone : digitsIn (radix cs) (digits cs) = none := by
      rcases hmem with hmem | hmem
      · exact digitsIn_eq_none hmem (by rw [hradix]; rfl)
      · exact digitsIn_eq_none hmem (by rw [hradix]; rfl)
    rw [hnone]
    rfl
  · rename_i hoctal
    have hsome : ∀ c ∈ digits cs, digitIn (radix cs) c = some (digitIndex c) := by
      intro c hc
      rw [digitIn_eq (hnumeral.mem_hexDigits c hc)]
      refine if_pos ((hnumeral.index_lt c hc).resolve_right ?_)
      rintro ⟨hradix, rfl | rfl⟩
      · exact hoctal ⟨hradix, .inl hc⟩
      · exact hoctal ⟨hradix, .inr hc⟩
    rw [digitsIn_eq hnumeral.ne_nil hsome]
    rfl

end LosslessJava.Integer
