import LosslessJava.Proofs.Literal.Integer

/-!
# What the bodies of literals denote

The body of a character or string literal is a row of plain characters and escapes. What follows the
backslash of an escape is a letter, octal digits or the code of a character in four hexadecimal
digits, with one `u` or more in front of them.

* `Denotes`: the characters that a body denotes. The flag says whether a plus sign may stand in the
  place of the first hexadecimal digit.
* `HasSign`: an escape of the body has such a sign.
* `decode_eq_some_iff`: decoding finds the characters that the body denotes, and takes the signs.
-/

namespace LosslessJava

/-! ## Digits -/

namespace Integer

open LosslessJava.Lex

theorem mem_hexDigits_of_digitValue {c : Char} {n : Nat} (h : digitValue c = some n) :
    c ∈ hexDigits := by
  refine mem_hexDigits ?_
  unfold digitValue at h
  simp only [isHexDigit, Bool.or_eq_true, Bool.and_eq_true, decide_eq_true_eq]
  split at h
  · exact .inl (.inl ‹_›)
  · split at h
    · exact .inl (.inr ‹_›)
    · split at h
      · exact .inr ‹_›
      · cases h

theorem digitIn_eq_some_iff {r n : Nat} {c : Char} :
    digitIn r c = some n ↔ (c ∈ hexDigits ∧ digitIndex c < r) ∧ n = digitIndex c := by
  by_cases hc : c ∈ hexDigits
  · rw [digitIn_eq hc]
    by_cases hlt : digitIndex c < r
    · simp [hc, hlt, eq_comm]
    · simp [hlt]
  · have hnone : digitValue c = none :=
      Option.eq_none_iff_forall_ne_some.mpr fun n hn => hc (mem_hexDigits_of_digitValue hn)
    simp [digitIn, hnone, hc]

/-- Digits are read when there are some and all are digits of the radix. -/
theorem digitsIn_eq_some_iff {r n : Nat} {ds : List Char} :
    digitsIn r ds = some n ↔ ds ≠ [] ∧ (∀ c ∈ ds, c ∈ hexDigits ∧ digitIndex c < r) ∧
      n = Nat.ofDigits r (ds.reverse.map digitIndex) := by
  constructor
  · intro h
    have hne : ds ≠ [] := by
      rintro rfl
      cases h
    have hall : ∀ c ∈ ds, c ∈ hexDigits ∧ digitIndex c < r := by
      intro c hc
      cases hd : digitIn r c with
      | none =>
        rw [digitsIn_eq_none hc hd] at h
        cases h
      | some m => exact (digitIn_eq_some_iff.mp hd).1
    rw [digitsIn_eq hne fun c hc => digitIn_eq_some_iff.mpr ⟨hall c hc, rfl⟩] at h
    exact ⟨hne, hall, (Option.some.inj h).symm⟩
  · rintro ⟨hne, hall, rfl⟩
    exact digitsIn_eq hne fun c hc => digitIn_eq_some_iff.mpr ⟨hall c hc, rfl⟩

end Integer

namespace Escape

open LosslessJava.Integer (digitIndex digitsIn digitsIn_eq_some_iff)
open LosslessJava.Lex (hexDigits)

/-! ## Escapes and bodies -/

/-- The letters that make an escape, with the characters that they stand for. -/
def letters : List (Char × Char) :=
  [('b', '\x08'), ('t', '\t'), ('n', '\n'), ('f', '\x0c'), ('r', '\r'), ('s', ' '), ('"', '"'),
   ('\'', '\''), ('\\', '\\')]

/-- The number that digits make up. -/
def number (radix : Nat) (ds : List Char) : Nat := Nat.ofDigits radix (ds.reverse.map digitIndex)

/-- Octal digits, at most three when the first is at most three, at most two otherwise. -/
structure OctalCode (cs : List Char) : Prop where
  digits : ∀ c ∈ cs, c ∈ "01234567".toList
  first : ∃ d ds, cs = d :: ds ∧ cs.length ≤ if d ∈ "0123".toList then 3 else 2

/-- Four hexadecimal digits and their number. With `sign`, a plus sign may stand for the first. -/
inductive HexCode (sign : Bool) : List Char → Nat → Prop
  | digits {ds : List Char} (hds : ∀ d ∈ ds, d ∈ hexDigits) (hlength : ds.length = 4) :
    HexCode sign ds (number 16 ds)
  | signed {ds : List Char} (hsign : sign = true) (hds : ∀ d ∈ ds, d ∈ hexDigits)
    (hlength : ds.length = 3) : HexCode sign ('+' :: ds) (number 16 ds)

/-- Behind a backslash, the text starts with an escape for the character. The rest follows it. -/
inductive Escapes (sign : Bool) : List Char → Char → List Char → Prop
  | letter {c d : Char} {rest : List Char} (h : (c, d) ∈ letters) : Escapes sign (c :: rest) d rest
  /-- As many digits as there can be. -/
  | octal {ds rest : List Char} {c : Char} (hds : OctalCode ds)
    (hlongest : ∀ d ∈ rest.head?, ¬ OctalCode (ds ++ [d])) (hc : c.toNat = number 8 ds) :
    Escapes sign (ds ++ rest) c rest
  | unicode {n : Nat} {ds rest : List Char} {c : Char} (hds : HexCode sign ds c.toNat) :
    Escapes sign (List.replicate (n + 1) 'u' ++ ds ++ rest) c rest

/-- The characters that a body denotes. -/
inductive Denotes (sign : Bool) : List Char → List Char → Prop
  | nil : Denotes sign [] []
  | plain {c : Char} {body cs : List Char} (hc : c ≠ '\\') (h : Denotes sign body cs) :
    Denotes sign (c :: body) (c :: cs)
  | escape {c : Char} {body rest cs : List Char} (hc : Escapes sign body c rest)
    (h : Denotes sign rest cs) : Denotes sign ('\\' :: body) (c :: cs)

/-- An escape of the body is a plus sign behind `u`. -/
def HasSign : List Char → Prop
  | '\\' :: c :: body => (c = 'u' ∧ (body.dropWhile (· == 'u')).head? = some '+') ∨ HasSign body
  | _ :: body => HasSign body
  | [] => False

/-! ## Codes -/

theorem scalar?_eq_some_iff {n : Nat} {c : Char} : scalar? n = some c ↔ c.toNat = n := by
  unfold scalar?
  by_cases h : n.isValidChar
  · have hnumber : (Char.ofNatAux n h).toNat = n := rfl
    rw [dif_pos h, Option.some.injEq, ← Char.toNat_inj, hnumber, eq_comm]
  · rw [dif_neg h]
    constructor
    · intro hnone
      cases hnone
    · rintro rfl
      exact absurd c.valid h

theorem hexCode?_eq_some_iff {cs : List Char} {n : Nat} :
    hexCode? cs = some n ↔ HexCode true cs n := by
  constructor
  · intro h
    unfold hexCode? at h
    split at h
    · obtain ⟨-, hall, rfl⟩ := digitsIn_eq_some_iff.mp h
      exact .signed rfl (fun d hd => (hall d hd).1) rfl
    · obtain ⟨-, hall, rfl⟩ := digitsIn_eq_some_iff.mp h
      exact .digits (fun d hd => (hall d hd).1) rfl
    · cases h
  · have hlt : ∀ d ∈ hexDigits, digitIndex d < 16 := List.all_iff_forall_prop.mp (by decide)
    have hread : ∀ {ds : List Char}, ds ≠ [] → (∀ d ∈ ds, d ∈ hexDigits) →
        digitsIn 16 ds = some (number 16 ds) := fun hne hds =>
      digitsIn_eq_some_iff.mpr ⟨hne, fun d hd => ⟨hds d hd, hlt d (hds d hd)⟩, rfl⟩
    intro h
    cases h with
    | digits hds hlength =>
      match cs, hlength with
      | [a, b, c, d], _ =>
        have hplus : a ≠ '+' := by
          rintro rfl
          exact absurd (hds '+' List.mem_cons_self) (by decide)
        unfold hexCode?
        split
        · rename_i heq
          exact absurd (List.cons.inj heq).1 hplus
        · rename_i heq
          cases heq
          exact hread (by simp) hds
        · rename_i hfour
          exact absurd rfl (hfour a b c d)
    | @signed ds _ hds hlength =>
      match ds, hlength with
      | [a, b, c], _ => exact hread (by simp) hds

theorem isOctal_iff {c : Char} : isOctal c = true ↔ c ∈ "01234567".toList := by
  constructor
  · intro h
    have hall : ∀ n < 128, isOctal (Char.ofNat n) = true → Char.ofNat n ∈ "01234567".toList := by
      decide
    have hlt : c.toNat < 128 := by
      simp only [isOctal, Bool.and_eq_true, decide_eq_true_eq] at h
      exact Nat.lt_of_le_of_lt h.2 (by decide)
    have hmem := hall c.toNat hlt
    rw [Char.ofNat_toNat] at hmem
    exact hmem h
  · have hall : ∀ c ∈ "01234567".toList, isOctal c = true := List.all_iff_forall_prop.mp (by decide)
    exact hall c

/-- The number of octal digits that may follow one another, by the first of them. -/
theorem most_digits {c : Char} (h : isOctal c = true) :
    (if c ≤ '3' then 3 else 2) = if c ∈ "0123".toList then 3 else 2 := by
  have hall : ∀ c ∈ "01234567".toList, (c ≤ '3' ↔ c ∈ "0123".toList) :=
    List.all_iff_forall_prop.mp (by decide)
  exact if_congr (hall c (isOctal_iff.mp h)) rfl rfl

/-- What stands behind a code is taken along as long as it makes a longer code. -/
theorem octalDigits_append {ds : List Char} (hds : OctalCode ds) (rest : List Char) :
    ∃ k, octalDigits (ds ++ rest) = ds ++ (rest.take k).takeWhile isOctal ∧
      (0 < k → ∀ d, isOctal d = true → OctalCode (ds ++ [d])) := by
  obtain ⟨c, es, rfl, hlength⟩ := hds.first
  have hoctal : ∀ e ∈ c :: es, isOctal e = true := fun e he => isOctal_iff.mpr (hds.digits e he)
  have hmost := most_digits (hoctal c List.mem_cons_self)
  refine ⟨(if c ≤ '3' then 3 else 2) - (c :: es).length, ?_, fun hk d hd => ⟨?_, c, _, rfl, ?_⟩⟩
  · show ((c :: es ++ rest).take (if c ≤ '3' then 3 else 2)).takeWhile isOctal = _
    rw [List.take_append, List.take_of_length_le (hmost ▸ hlength),
      List.takeWhile_append_of_pos hoctal]
  · exact List.forall_mem_append.mpr
      ⟨hds.digits, List.forall_mem_singleton.mpr (isOctal_iff.mp hd)⟩
  · rw [hmost] at hk
    rw [List.length_append, List.length_singleton]
    omega

/-- The longest code that the text starts with. -/
theorem octalDigits_of_longest {ds rest : List Char} (hds : OctalCode ds)
    (hlongest : ∀ d ∈ rest.head?, ¬ OctalCode (ds ++ [d])) : octalDigits (ds ++ rest) = ds := by
  obtain ⟨k, heq, hmore⟩ := octalDigits_append hds rest
  rw [heq]
  cases rest with
  | nil => simp
  | cons d rest =>
    cases k with
    | zero => simp
    | succ k =>
      have hd : isOctal d = false :=
        Bool.eq_false_iff.mpr fun hd => hlongest d rfl (hmore k.succ_pos d hd)
      simp [hd]

theorem octalCode_octalDigits {c : Char} {cs : List Char} (hc : isOctal c = true) :
    OctalCode (octalDigits (c :: cs)) := by
  have hall := List.all_takeWhile (p := isOctal) (l := (c :: cs).take (if c ≤ '3' then 3 else 2))
  have hlength : (octalDigits (c :: cs)).length ≤ if c ≤ '3' then 3 else 2 :=
    Nat.le_trans (List.takeWhile_prefix _).length_le (List.length_take_le _ _)
  rw [most_digits hc] at hlength
  obtain ⟨k, hk⟩ : ∃ k, (if c ≤ '3' then 3 else 2) = k + 1 := by split <;> exact ⟨_, rfl⟩
  refine ⟨fun e he => isOctal_iff.mp (List.all_eq_true.mp hall e he), c,
    (cs.take k).takeWhile isOctal, ?_, hlength⟩
  rw [octalDigits, hk, List.take_succ_cons, List.takeWhile_cons, hc]
  rfl

theorem not_octalCode_of_octalDigits {c d : Char} {cs rest : List Char}
    (h : octalDigits (c :: cs) ++ d :: rest = c :: cs) :
    ¬ OctalCode (octalDigits (c :: cs) ++ [d]) := by
  intro hcode
  obtain ⟨k, heq, -⟩ := octalDigits_append hcode rest
  rw [List.append_assoc, List.singleton_append, h] at heq
  simpa using congrArg List.length heq

/-! ## Single escapes -/

theorem letter?_eq_some_iff {c d : Char} : letter? c = some d ↔ (c, d) ∈ letters := by
  constructor
  · intro h
    unfold letter? at h
    split at h <;> cases h <;> decide
  · have hall : ∀ l ∈ letters, letter? l.1 = some l.2 := by decide
    exact fun h => hall _ h

/-- All marks at the start of a text. -/
theorem exists_replicate (cs : List Char) :
    ∃ n rest, cs = List.replicate n 'u' ++ rest ∧ rest.head? ≠ some 'u' := by
  have hall : ∀ c ∈ cs.takeWhile (· == 'u'), c = 'u' := fun c hc =>
    beq_iff_eq.mp (List.all_eq_true.mp List.all_takeWhile c hc)
  refine ⟨(cs.takeWhile (· == 'u')).length, cs.dropWhile (· == 'u'), ?_, fun hhead => ?_⟩
  · rw [← List.eq_replicate_of_mem hall, List.takeWhile_append_dropWhile]
  · have hnot := List.head?_dropWhile_not (· == 'u') cs
    rw [hhead] at hnot
    cases hnot

theorem dropWhile_replicate_append {n : Nat} {cs : List Char} (h : cs.head? ≠ some 'u') :
    (List.replicate n 'u' ++ cs).dropWhile (· == 'u') = cs := by
  rw [List.dropWhile_append_of_pos (by simp)]
  cases cs with
  | nil => rfl
  | cons c cs =>
    refine List.dropWhile_cons_of_neg fun hc => h ?_
    rw [beq_iff_eq.mp hc]
    rfl

theorem HexCode.head {sign : Bool} {ds : List Char} {n : Nat} (h : HexCode sign ds n)
    (rest : List Char) : (ds ++ rest).head? ≠ some 'u' := by
  cases h with
  | digits hds hlength =>
    match ds, hlength with
    | d :: es, _ =>
      intro heq
      cases heq
      exact absurd (hds 'u' List.mem_cons_self) (by decide)
  | signed => simp

theorem HexCode.length_eq {sign : Bool} {ds : List Char} {n : Nat} (h : HexCode sign ds n) :
    ds.length = 4 := by
  cases h with
  | digits _ hlength => exact hlength
  | signed _ _ hlength => rw [List.length_cons, hlength]

/-- A code is read as the number of a character. -/
theorem map_scalar?_eq_some_iff {code : Option Nat} {rest more : List Char} {c : Char} :
    ((code.bind scalar?).map (·, more)) = some (c, rest) ↔ code = some c.toNat ∧ more = rest := by
  simp only [Option.map_eq_some_iff, Option.bind_eq_some_iff, scalar?_eq_some_iff, Prod.mk.injEq]
  constructor
  · rintro ⟨d, ⟨n, hn, rfl⟩, rfl, rfl⟩
    exact ⟨hn, rfl⟩
  · rintro ⟨hcode, rfl⟩
    exact ⟨c, ⟨_, hcode, rfl⟩, rfl, rfl⟩

theorem next?_unicode {n : Nat} {cs rest : List Char} {c : Char} (hcs : cs.head? ≠ some 'u') :
    next? (List.replicate (n + 1) 'u' ++ cs) = some (c, rest) ↔
      HexCode true (cs.take 4) c.toNat ∧ cs.drop 4 = rest := by
  rw [← hexCode?_eq_some_iff, ← map_scalar?_eq_some_iff]
  show ((hexCode? (((List.replicate n 'u' ++ cs).dropWhile (· == 'u')).take 4)).bind scalar?).map
      (·, ((List.replicate n 'u' ++ cs).dropWhile (· == 'u')).drop 4) = _ ↔ _
  rw [dropWhile_replicate_append hcs]

theorem next?_octal {c d : Char} {cs rest : List Char} (hd : isOctal d = true) :
    next? (d :: cs) = some (c, rest) ↔ c.toNat = number 8 (octalDigits (d :: cs)) ∧
      (d :: cs).drop (octalDigits (d :: cs)).length = rest := by
  have hu : ¬ (d == 'u') = true := by
    intro heq
    rw [beq_iff_eq.mp heq] at hd
    cases hd
  have hcode : digitsIn 8 (octalDigits (d :: cs)) = some (number 8 (octalDigits (d :: cs))) := by
    have hdigits : OctalCode (octalDigits (d :: cs)) := octalCode_octalDigits hd
    obtain ⟨e, es, heq, -⟩ := hdigits.first
    refine digitsIn_eq_some_iff.mpr ⟨by simp [heq], fun c hc => ?_, rfl⟩
    have hall : ∀ c ∈ "01234567".toList, c ∈ hexDigits ∧ digitIndex c < 8 :=
      List.all_iff_forall_prop.mp (by decide)
    exact hall c (hdigits.digits c hc)
  rw [next?, if_neg hu, if_pos hd, map_scalar?_eq_some_iff, hcode, Option.some.injEq, eq_comm]

theorem next?_letter {c d : Char} {cs rest : List Char} (hu : d ≠ 'u') (hd : isOctal d = false) :
    next? (d :: cs) = some (c, rest) ↔ (d, c) ∈ letters ∧ cs = rest := by
  rw [next?, if_neg (by simpa using hu), if_neg (by simp [hd]), ← letter?_eq_some_iff]
  simp only [Option.map_eq_some_iff, Prod.mk.injEq]
  constructor
  · rintro ⟨e, he, rfl, rfl⟩
    exact ⟨he, rfl⟩
  · rintro ⟨he, rfl⟩
    exact ⟨c, he, rfl, rfl⟩

theorem next?_eq_some_iff {cs rest : List Char} {c : Char} :
    next? cs = some (c, rest) ↔ Escapes true cs c rest := by
  constructor
  · intro h
    cases cs with
    | nil => cases h
    | cons d cs =>
      by_cases hu : d = 'u'
      · obtain ⟨n, code, rfl, hcode⟩ := exists_replicate cs
        rw [hu, ← List.cons_append, ← List.replicate_succ] at h ⊢
        obtain ⟨hc, rfl⟩ := (next?_unicode hcode).mp h
        have hunicode : Escapes true (List.replicate (n + 1) 'u' ++ code.take 4 ++ code.drop 4) c
            (code.drop 4) := .unicode hc
        rwa [List.append_assoc, List.take_append_drop] at hunicode
      · by_cases hd : isOctal d = true
        · obtain ⟨hc, rfl⟩ := (next?_octal hd).mp h
          obtain ⟨rest, hrest⟩ : octalDigits (d :: cs) <+: d :: cs :=
            (List.takeWhile_prefix _).trans (List.take_prefix _ _)
          have hdrop := congrArg (List.drop (octalDigits (d :: cs)).length) hrest
          rw [List.drop_left] at hdrop
          rw [← hdrop]
          have hlongest : ∀ e ∈ rest.head?, ¬ OctalCode (octalDigits (d :: cs) ++ [e]) := by
            intro e he
            obtain ⟨more, rfl⟩ : ∃ more, rest = e :: more := List.head?_eq_some_iff.mp he
            exact not_octalCode_of_octalDigits hrest
          have hoctal : Escapes true (octalDigits (d :: cs) ++ rest) c rest :=
            .octal (octalCode_octalDigits hd) hlongest hc
          rwa [hrest] at hoctal
        · obtain ⟨hc, rfl⟩ := (next?_letter hu (by simpa using hd)).mp h
          exact .letter hc
  · intro h
    cases h with
    | @letter d _ _ h =>
      have hall : ∀ l ∈ letters, l.1 ≠ 'u' ∧ isOctal l.1 = false := by decide
      exact (next?_letter (hall _ h).1 (hall _ h).2).mpr ⟨h, rfl⟩
    | @octal ds _ _ hds hlongest hc =>
      obtain ⟨d, es, rfl, -⟩ := hds.first
      have hd : isOctal d = true := isOctal_iff.mpr (hds.digits d List.mem_cons_self)
      rw [List.cons_append, next?_octal hd, ← List.cons_append, octalDigits_of_longest hds hlongest,
        List.drop_left]
      exact ⟨hc, rfl⟩
    | @unicode n ds _ _ hds =>
      have hlength := hds.length_eq
      rw [List.append_assoc, next?_unicode (hds.head _), ← hlength, List.take_left, List.drop_left]
      exact ⟨hds, rfl⟩

/-! ## Bodies -/

theorem decode_cons_of_ne {c : Char} (hc : c ≠ '\\') (cs : List Char) :
    decode (c :: cs) = (decode cs).map (c :: ·) := by
  rw [decode.eq_def]
  simp [hc]

theorem decode_backslash (cs : List Char) :
    decode ('\\' :: cs) = (next? cs).bind fun e => (decode e.2).map (e.1 :: ·) := by
  rw [decode.eq_def]
  simp only [BEq.rfl, ↓reduceIte]
  split
  · rename_i h
    rw [h, Option.bind_some]
  · rename_i h
    rw [h, Option.bind_none]

theorem decode_eq_some_iff_denotes {body cs : List Char} :
    decode body = some cs ↔ Denotes true body cs := by
  constructor
  · intro h
    fun_induction decode body generalizing cs with
    | case1 =>
      cases h
      exact .nil
    | case2 c body hc d rest hnext ih =>
      obtain ⟨ds, hds, rfl⟩ := Option.map_eq_some_iff.mp h
      rw [beq_iff_eq.mp hc]
      exact .escape (next?_eq_some_iff.mp hnext) (ih hds)
    | case3 => cases h
    | case4 c body hc ih =>
      obtain ⟨ds, hds, rfl⟩ := Option.map_eq_some_iff.mp h
      exact .plain (by simpa using hc) (ih hds)
  · intro h
    induction h with
    | nil => rw [decode.eq_def]
    | plain hc _ ih => rw [decode_cons_of_ne hc, ih, Option.map_some]
    | escape hc _ ih =>
      rw [decode_backslash, next?_eq_some_iff.mpr hc, Option.bind_some, ih, Option.map_some]

/-! ## Signs -/

theorem hasSign_cons_of_ne {c : Char} (hc : c ≠ '\\') (cs : List Char) :
    HasSign (c :: cs) ↔ HasSign cs := by
  rw [HasSign]
  exact fun _ _ heq _ => hc heq

theorem hasSign_append {cs : List Char} (h : ∀ c ∈ cs, c ≠ '\\') (rest : List Char) :
    HasSign (cs ++ rest) ↔ HasSign rest := by
  induction cs with
  | nil => rfl
  | cons c cs ih =>
    obtain ⟨hc, hcs⟩ := List.forall_mem_cons.mp h
    rw [List.cons_append, hasSign_cons_of_ne hc, ih hcs]

theorem hasSign_of_ne {c : Char} (hc : c ≠ 'u') (cs : List Char) :
    HasSign ('\\' :: c :: cs) ↔ HasSign cs := by
  simp [HasSign, hc]

theorem hasSign_unicode {n : Nat} {cs : List Char} (hcs : cs.head? ≠ some 'u') :
    HasSign ('\\' :: (List.replicate (n + 1) 'u' ++ cs)) ↔ cs.head? = some '+' ∨ HasSign cs := by
  have hmarks : ∀ c ∈ List.replicate n 'u', c ≠ '\\' := fun c hc => by
    rw [List.eq_of_mem_replicate hc]
    decide
  rw [List.replicate_succ, List.cons_append, HasSign, dropWhile_replicate_append hcs,
    hasSign_append hmarks]
  simp

/-- An escape without a sign is one where signs are allowed, and the signs of the body stand behind
it. -/
theorem Escapes.unsigned {body rest : List Char} {c : Char} (h : Escapes false body c rest) :
    Escapes true body c rest ∧ (HasSign ('\\' :: body) ↔ HasSign rest) := by
  cases h with
  | letter h =>
    have hall : ∀ l ∈ letters, l.1 ≠ 'u' := by decide
    exact ⟨.letter h, hasSign_of_ne (hall _ h) rest⟩
  | @octal ds _ _ hds hlongest hc =>
    refine ⟨.octal hds hlongest hc, ?_⟩
    have hall : ∀ d ∈ "01234567".toList, d ≠ 'u' ∧ d ≠ '\\' :=
      List.all_iff_forall_prop.mp (by decide)
    obtain ⟨d, es, rfl, -⟩ := hds.first
    rw [List.cons_append, hasSign_of_ne (hall d (hds.digits d List.mem_cons_self)).1]
    exact hasSign_append (fun e he => (hall e (hds.digits e (List.mem_cons_of_mem d he))).2) rest
  | @unicode n ds _ _ hcode =>
    have hhead := hcode.head rest
    generalize hnumber : c.toNat = number at hcode
    cases hcode with
    | digits hds hlength =>
      refine ⟨.unicode (hnumber ▸ .digits hds hlength), ?_⟩
      have hall : ∀ d ∈ hexDigits, d ≠ '+' ∧ d ≠ '\\' := List.all_iff_forall_prop.mp (by decide)
      rw [List.append_assoc, hasSign_unicode hhead,
        hasSign_append fun d hd => (hall d (hds d hd)).2]
      refine or_iff_right fun hplus => ?_
      obtain ⟨d, es, rfl⟩ := List.exists_cons_of_length_pos (by omega : 0 < ds.length)
      exact (hall d (hds d List.mem_cons_self)).1 (Option.some.inj hplus)
    | signed hsign => cases hsign

theorem Escapes.of_not_hasSign {body rest : List Char} {c : Char} (h : Escapes true body c rest)
    (hsign : ¬ HasSign ('\\' :: body)) : Escapes false body c rest := by
  cases h with
  | letter h => exact .letter h
  | octal hds hlongest hc => exact .octal hds hlongest hc
  | @unicode n ds _ _ hcode =>
    have hhead := hcode.head rest
    generalize hnumber : c.toNat = number at hcode
    cases hcode with
    | digits hds hlength => exact .unicode (hnumber ▸ .digits hds hlength)
    | signed _ hds hlength =>
      rw [List.append_assoc, hasSign_unicode hhead] at hsign
      exact absurd (.inl rfl) hsign

/-- A body denotes something without signs when it does with them and has none. -/
theorem denotes_unsigned_iff {body cs : List Char} :
    Denotes false body cs ↔ Denotes true body cs ∧ ¬ HasSign body := by
  constructor
  · intro h
    induction h with
    | nil => exact ⟨.nil, fun h => h⟩
    | plain hc _ ih => exact ⟨.plain hc ih.1, by rw [hasSign_cons_of_ne hc]; exact ih.2⟩
    | escape hc _ ih =>
      obtain ⟨hescape, hsign⟩ := hc.unsigned
      exact ⟨.escape hescape ih.1, by rw [hsign]; exact ih.2⟩
  · rintro ⟨h, hsign⟩
    induction h with
    | nil => exact .nil
    | plain hc _ ih => exact .plain hc (ih (by rwa [hasSign_cons_of_ne hc] at hsign))
    | escape hc _ ih =>
      have hescape := hc.of_not_hasSign hsign
      exact .escape hescape (ih (by rwa [hescape.unsigned.2] at hsign))

/-- Decoding finds the characters that a body denotes, and nothing in any other body. It takes a
plus sign in the place of the first hexadecimal digit. -/
theorem decode_eq_some_iff (body cs : List Char) :
    (decode body = some cs ↔ Denotes true body cs) ∧
    (Denotes false body cs ↔ decode body = some cs ∧ ¬ HasSign body) := by
  rw [denotes_unsigned_iff, decode_eq_some_iff_denotes]
  exact ⟨.rfl, .rfl⟩

/-- A code with a sign is decoded, though it has only three digits. -/
theorem not_denotes_signed : ¬ ∀ body cs, decode body = some cs ↔ Denotes false body cs := by
  intro h
  have hdecode : decode "\\u+041".toList = some ['A'] := by decide +kernel
  have hsign : HasSign "\\u+041".toList := .inl ⟨rfl, rfl⟩
  exact (denotes_unsigned_iff.mp ((h _ _).mp hdecode)).2 hsign

end Escape

end LosslessJava
