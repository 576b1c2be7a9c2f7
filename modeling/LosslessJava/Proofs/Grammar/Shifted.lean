import LosslessJava.Proofs.Grammar.Moved
import LosslessJava.Proofs.Grammar.PassesLead
import LosslessJava.Proofs.Indentation.Shift
import LosslessJava.Proofs.Lex.Piecewise

/-!
# Shifted statements in another place

A shift changes the trivia in front of some tokens of a statement. These are the leads of
statements, of `else` and of closing braces, and a rule has each of them as the lead of its own
first token or of a token that it asks for by name. So the shifted lexemes are read as the shifted
statement.

* `Reindented`: the same token, maybe with shifted trivia.
* `Shifts`: what the one parser reads, the other one reads after a shift in front of something else.
  An `else` may follow only where one followed before.
* `shifts_blockStatement`: statements of a block shift, whatever the depths of the rules are.
* `moves_blockStatement`: without a shift, they only move.
-/

namespace LosslessJava

/-- The same token behind the same trivia or behind shifted ones. -/
structure Lexeme.Reindented (s : Shift) (x y : Lexeme) : Prop where
  token : y.token = x.token
  lead : y.lead = x.lead ∨ y.lead = s.apply x.lead

namespace Lexeme

theorem Reindented.shift {s : Shift} {t u : Trivia} {token : Token} (h : u = s.apply t) :
    Reindented s ⟨t, token⟩ ⟨u, token⟩ := ⟨rfl, .inr h⟩

theorem Reindented.eq {s : Shift} {x y : Lexeme} (h : Reindented s x y) (hs : s.amount = 0) :
    x = y := by
  obtain ⟨htoken, hlead⟩ := h
  rw [Shift.apply_of_amount hs, or_self] at hlead
  cases x
  cases y
  cases htoken
  cases hlead
  rfl

theorem eq_of_reindented {s : Shift} {xs ys : List Lexeme}
    (h : List.Forall₂ (Reindented s) xs ys) (hs : s.amount = 0) : xs = ys := by
  rw [← List.forall₂_eq_eq_eq]
  exact h.imp fun x y hxy => hxy.eq hs

theorem reindented_refl (s : Shift) (xs : List Lexeme) : List.Forall₂ (Reindented s) xs xs :=
  List.forall₂_same.mpr fun _ _ => ⟨rfl, .inl rfl⟩

/-- A shift leaves a gap a gap with the same first character. -/
theorem regapped_of_reindented {s : Shift} {xs ys : List Lexeme}
    (h : List.Forall₂ (Reindented s) xs ys) (hgaps : ∀ x ∈ xs, Lex.IsGap false x.lead.toList) :
    List.Forall₂ Regapped xs ys := by
  induction h with
  | nil => exact .nil
  | @cons x y xs ys hxy _ ih =>
    obtain ⟨hgap, hgaps⟩ := List.forall_mem_cons.mp hgaps
    refine .cons ⟨hxy.token, ?_, ?_⟩ (ih hgaps)
    · rcases hxy.lead with heq | heq
      · rwa [heq]
      · rw [heq]
        exact s.isGap_apply hgap
    · rcases hxy.lead with heq | heq
      · rw [heq]
      · rw [heq, s.head_apply]

end Lexeme

namespace Grammar

open Grammar.Parser
open Lexeme (AllLegal Reindented)

variable {r r' : Rules} {k n : Nat} {s : Shift}

/-! ## Shifting -/

/-- What `p` reads off the front of at most `n` lexemes, `q` reads as the shifted statement off
shifted lexemes in front of anything else, if they are at most `k`. An `else` may follow them only
where an `else` clause did. -/
def Shifts (s : Shift) (n k : Nat) (p q : Parser Statement) : Prop :=
  ∀ ls a m, AllLegal ls → ls.length ≤ n → p.parse ls = some (a, m) →
    ∃ xs, ls = xs ++ m ∧ xs ≠ [] ∧ (xs.length ≤ k → ∃ ys, List.Forall₂ (Reindented s) xs ys ∧
      ∀ m', (StartsElse m' → ReadsElse m) → q.parse (ys ++ m') = some (s.applyTo a, m'))

/-- A shift changes nothing but the lead of the statement. -/
def Plain (a : Statement) : Prop := ∀ s : Shift, s.applyTo a = a.withLead (s.apply a.lead)

theorem PassesLead.lead_eq {p : Parser Statement} (h : PassesLead SameStatement p) {l : Lexeme}
    {ls m : List Lexeme} {a : Statement} (hp : p.parse (l :: ls) = some (a, m)) :
    a.lead = l.lead := by
  rcases h l.lead l ls with ⟨hnone, -⟩ | ⟨b, b', rest, hb, hb', heq⟩
  · rw [hnone] at hp
    cases hp
  · have hsame : b' = b := by
      have hb' : p.parse (l :: ls) = some (b', rest) := hb'
      rw [hb] at hb'
      exact (Prod.mk.inj (Option.some.inj hb')).1.symm
    rw [hb] at hp
    cases hp
    rw [hsame] at heq
    rw [heq, Statement.lead_withLead]

/-- A statement that stores no other statement shifts when it moves. -/
theorem Moves.shifts {p q : Parser Statement} (h : Moves n k p q) (hp : PassesLead SameStatement p)
    (hq : PassesLead SameStatement q) (hplain : Yields p Plain) : Shifts s n k p q := by
  intro ls a m hls hn hparse
  obtain ⟨xs, rfl, hne, hxs⟩ := h ls a m hls hn hparse
  refine ⟨xs, rfl, hne, fun hlen => ?_⟩
  obtain ⟨x, xs, rfl⟩ := List.exists_cons_of_ne_nil hne
  have hlead : a.lead = x.lead := hp.lead_eq hparse
  refine ⟨⟨s.apply a.lead, x.token⟩ :: xs,
    .cons (.shift (by rw [hlead])) (Lexeme.reindented_refl s xs), fun m' helse => ?_⟩
  have hmoved := hxs hlen m' helse
  rcases hq (s.apply a.lead) x (xs ++ m') with ⟨hnone, -⟩ | ⟨b, b', rest, hb, hb', heq⟩
  · rw [List.cons_append, hnone] at hmoved
    cases hmoved
  · rw [List.cons_append, hb] at hmoved
    cases hmoved
    rw [List.cons_append, hb', heq, hplain _ _ _ hparse s]

/-! ## Statements in blocks -/

/-- No statement starts with an `else`. -/
theorem not_startsElse_of_reindented {xs ys : List Lexeme} {a : Statement} (h : IsStatement xs a)
    (hys : List.Forall₂ (Reindented s) xs ys) (m : List Lexeme) : ¬ StartsElse (ys ++ m) := by
  obtain ⟨x, xs, rfl, -, hx⟩ := h.1.opens
  cases hys with
  | cons hxy _ =>
    refine not_startsElse (fun helse => ?_) _
    rw [← hxy.token, helse] at hx
    cases hx

/-- Statements one behind the other shift, if no `else` follows. They do not start with one. -/
theorem shifts_many {p q : Parser Statement} (h : Shifts s n k p q) (hp : Reads p IsStatement)
    {bound : Nat} {ls m : List Lexeme} {as : List Statement} (hls : AllLegal ls)
    (hn : ls.length ≤ n) (hparse : parseMany p bound ls = (as, m)) :
    ∃ xs, ls = xs ++ m ∧ (xs.length ≤ k → ∃ ys, List.Forall₂ (Reindented s) xs ys ∧
      ∀ bound' m', xs.length ≤ bound' → ¬ StartsElse m' → q.parse m' = none →
        ¬ StartsElse (ys ++ m') ∧
          parseMany q bound' (ys ++ m') = (s.applyToList as, m')) := by
  have hnone : ∀ bound m', q.parse m' = none → parseMany q bound m' = ([], m') := by
    intro bound m' hm'
    cases bound with
    | zero => rfl
    | succ bound => rw [parseMany, hm']
  induction bound generalizing ls as with
  | zero =>
    obtain ⟨rfl, rfl⟩ := Prod.mk.inj hparse
    exact ⟨[], rfl, fun _ => ⟨[], .nil, fun bound' m' _ helse hm' => ⟨helse, hnone bound' m' hm'⟩⟩⟩
  | succ bound ih =>
    rw [parseMany] at hparse
    cases ha : p.parse ls with
    | none =>
      rw [ha] at hparse
      obtain ⟨rfl, rfl⟩ := Prod.mk.inj hparse
      exact ⟨[], rfl, fun _ =>
        ⟨[], .nil, fun bound' m' _ helse hm' => ⟨helse, hnone bound' m' hm'⟩⟩⟩
    | some result =>
      obtain ⟨a, rest⟩ := result
      rw [ha] at hparse
      cases has : parseMany p bound rest with
      | mk as' m' =>
        simp only [has] at hparse
        obtain ⟨rfl, rfl⟩ := Prod.mk.inj hparse
        obtain ⟨xs, rfl, hne, hxs⟩ := h ls a rest hls hn ha
        have hstatement : IsStatement xs a := by
          obtain ⟨us, heq, hus⟩ := hp _ a rest hls ha
          rwa [List.append_cancel_right heq]
        rw [List.length_append] at hn
        have hpos := List.length_pos_iff.mpr hne
        obtain ⟨zs, rfl, hzs⟩ := ih hls.right (by omega) has
        refine ⟨xs ++ zs, (List.append_assoc ..).symm, fun hlen => ?_⟩
        rw [List.length_append] at hlen
        obtain ⟨ys, hys, hparse⟩ := hxs (by omega)
        obtain ⟨ws, hws, hmany⟩ := hzs (by omega)
        refine ⟨ys ++ ws, List.rel_append hys hws, fun bound' m'' hb helse hm'' => ?_⟩
        rw [List.length_append] at hb
        obtain ⟨bound', rfl⟩ : ∃ b, bound' = b + 1 := ⟨bound' - 1, by omega⟩
        obtain ⟨helse', hmany⟩ := hmany bound' m'' (by omega) helse hm''
        rw [List.append_assoc]
        refine ⟨not_startsElse_of_reindented hstatement hys _, ?_⟩
        rw [parseMany, hparse (ws ++ m'') fun hstarts => absurd hstarts helse']
        simp only [hmany]
        rfl

theorem shifts_block (h : r.Agree (k + 1) r') (hr : r.Sound)
    (hs : Shifts s n k r.blockStatement r'.blockStatement) :
    Shifts s (n + 1) (k + 1) (Statement.block <$> block r) (Statement.block <$> block r') := by
  intro ls a m hls hn hparse
  obtain ⟨⟨lead, as, close⟩, hblock, rfl⟩ := parse_map_eq_some.mp hparse
  obtain ⟨rest, rfl, hmany⟩ := parse_block_iff.mp hblock
  rw [List.length_cons] at hn
  obtain ⟨us, rfl, hus⟩ := shifts_many hs hr.blockStatement hls.tail (by omega) hmany
  refine ⟨⟨lead, .mark '{'⟩ :: us ++ [⟨close, .mark '}'⟩], by simp, by simp, fun hlen => ?_⟩
  simp only [List.cons_append, List.length_cons, List.length_append, List.length_nil] at hlen
  obtain ⟨vs, hvs, hmany⟩ := hus (by omega)
  refine ⟨⟨s.apply lead, .mark '{'⟩ :: vs ++ [⟨s.apply close, .mark '}'⟩],
    List.rel_append (.cons (.shift rfl) hvs) (.cons (.shift rfl) .nil), fun m' _ => ?_⟩
  -- The closing brace is no statement.
  have hclose : r'.blockStatement.parse (⟨s.apply close, .mark '}'⟩ :: m') = none :=
    (h.blockStatement.parse_barred (Nat.succ_pos k) ⟨_, m', rfl, rfl⟩).2
  have helse : ¬ StartsElse (⟨s.apply close, .mark '}'⟩ :: m') := not_startsElse (by simp) m'
  have hbound : us.length ≤ r'.bound := by
    have := h.bound'
    omega
  have hmany := (hmany r'.bound _ hbound helse hclose).2
  rw [List.append_assoc, List.singleton_append, List.cons_append]
  exact parse_map_eq_some.mpr
    ⟨⟨s.apply lead, s.applyToList as, s.apply close⟩, parse_block_iff.mpr ⟨_, rfl, hmany⟩, rfl⟩

/-! ## Statements in statements -/

/-- A keyword, a condition and a statement are read where the statement is. -/
theorem shifts_guarded {β : Type} (h : r.Agree (k + 1) r') (hr : r.Sound)
    (hs : Shifts s n k r.statement r'.statement) {rule : Rule} {w : String}
    (g : Trivia → Condition → Statement → β) {ls m : List Lexeme} {b : β} (hls : AllLegal ls)
    (hn : ls.length ≤ n + 1)
    (hp : (g <$> keyword rule w <*> condition r <*> r.statement).parse ls = some (b, m)) :
    ∃ t c a xs, b = g t c a ∧ ls = xs ++ m ∧ xs ≠ [] ∧ (xs.length ≤ k + 1 →
      ∃ ys, List.Forall₂ (Reindented s) xs ys ∧ ∀ m', (StartsElse m' → ReadsElse m) →
        (g <$> keyword rule w <*> condition r' <*> r'.statement).parse (ys ++ m') =
          some (g (s.apply t) c (s.applyTo a), m')) := by
  obtain ⟨f, a, middle, hf, hbody, rfl⟩ := parse_seq_eq_some.mp hp
  obtain ⟨t, c, us, rfl, rfl, hus⟩ := exists_head h hr hls hf
  rw [List.length_append, List.length_cons] at hn
  obtain ⟨xs, rfl, -, hxs⟩ := hs middle a m hls.right (by omega) hbody
  refine ⟨t, c, a, ⟨t, .word w⟩ :: us ++ xs, rfl, by rw [List.append_assoc], by simp, fun hk => ?_⟩
  rw [List.length_append, List.length_cons] at hk
  obtain ⟨ys, hys, hparse⟩ := hxs (by omega)
  refine ⟨⟨s.apply t, .word w⟩ :: us ++ ys,
    List.rel_append (.cons (.shift rfl) (Lexeme.reindented_refl s us)) hys, fun m' helse => ?_⟩
  rw [List.append_assoc]
  exact parse_seq_eq_some.mpr ⟨_, _, _, hus (by omega) (s.apply t) _, hparse m' helse, rfl⟩

theorem shifts_whileStatement (h : r.Agree (k + 1) r') (hr : r.Sound)
    (hs : Shifts s n k r.statement r'.statement) :
    Shifts s (n + 1) (k + 1) (whileStatement r) (whileStatement r') := by
  intro ls a m hls hn hp
  obtain ⟨t, c, a, xs, rfl, rfl, hne, hxs⟩ := shifts_guarded h hr hs Statement.loop hls hn hp
  exact ⟨xs, rfl, hne, hxs⟩

theorem shifts_ifStatement {d d' : Nat} (hd : n ≤ d) (h : (rules d).Agree (k + 1) (rules d'))
    (hs : Shifts s n k (rules d).statement (rules d').statement) :
    Shifts s (n + 1) (k + 1) (ifStatement (rules d)) (ifStatement (rules d')) := by
  intro ls b m hls hn hp
  obtain ⟨f, o, middle, hf, ho, rfl⟩ := parse_seq_eq_some.mp hp
  obtain ⟨t, c, a, us, rfl, rfl, hne, hus⟩ := shifts_guarded h (rules_sound d) hs _ hls hn hf
  have hpos := List.length_pos_iff.mpr hne
  rw [List.length_append] at hn
  rcases parse_optional_eq_some.mp ho with ⟨rfl, rfl, hnone⟩ | ⟨e, rfl, hsome⟩
  · refine ⟨us, rfl, hne, fun hk => ?_⟩
    obtain ⟨ys, hys, hparse⟩ := hus hk
    refine ⟨ys, hys, fun m' helse => ?_⟩
    -- Where there was no `else` clause, there is none now.
    have hnone' : (elseClause (rules d')).parse m' = none := by
      refine parse_elseClause_eq_none fun hstarts => ?_
      obtain ⟨e, he, hsome⟩ := helse hstarts
      rw [parse_elseClause_depth he (show middle.length ≤ d by omega)] at hsome
      exact hsome hnone
    refine parse_seq_eq_some.mpr ⟨_, none, m', hparse m' helse, ?_, rfl⟩
    exact parse_optional_eq_some.mpr (Or.inl ⟨rfl, rfl, hnone'⟩)
  · obtain ⟨elseLead, elsePart⟩ := e
    obtain ⟨rest, rfl, hpart⟩ := parse_elseClause.mp hsome
    rw [List.length_cons] at hn
    obtain ⟨xs, rfl, -, hxs⟩ := hs rest elsePart m hls.right.tail (by omega) hpart
    refine ⟨us ++ ⟨elseLead, .word "else"⟩ :: xs, by simp, by simp, fun hk => ?_⟩
    simp only [List.length_append, List.length_cons] at hk hn
    obtain ⟨ys, hys, hthen⟩ := hus (by omega)
    obtain ⟨zs, hzs, helsePart⟩ := hxs (by omega)
    refine ⟨ys ++ ⟨s.apply elseLead, .word "else"⟩ :: zs,
      List.rel_append hys (.cons (.shift rfl) hzs), fun m' helse => ?_⟩
    -- The inner statement has the `else` behind it in both places.
    have hinner : ReadsElse (⟨elseLead, .word "else"⟩ :: (xs ++ m)) := by
      refine ⟨d, ?_, by simp [hsome]⟩
      simp only [List.length_append, List.length_cons]
      omega
    rw [List.append_assoc, List.cons_append]
    refine parse_seq_eq_some.mpr ⟨_, some (s.apply elseLead, s.applyTo elsePart), _,
      hthen _ fun _ => hinner, ?_, rfl⟩
    refine parse_optional_eq_some.mpr (Or.inr ⟨_, rfl, ?_⟩)
    exact parse_elseClause.mpr ⟨zs ++ m', rfl, helsePart m' helse⟩

/-! ## Plain statements -/

theorem yields_expressionStatement (r : Rules) : Yields (expressionStatement r) Plain :=
  .seq <| .map fun _ _ _ => rfl

theorem shifts_unheaded (h : r.Agree k r') (hr : r.Sound) :
    Shifts s n k (unheaded r) (unheaded r') :=
  (moves_unheaded h hr).shifts
    (.orElse (passesLead_declaration r) (passesLead_expressionStatement r))
    (.orElse (passesLead_declaration r') (passesLead_expressionStatement r'))
    (.orElse (.map fun _ _ => rfl) (yields_expressionStatement r))

theorem shifts_expressionStatement (h : r.Agree k r') (hr : r.Sound) :
    Shifts s n k (expressionStatement r) (expressionStatement r') :=
  (moves_expressionStatement h hr).shifts (passesLead_expressionStatement r)
    (passesLead_expressionStatement r') (yields_expressionStatement r)

/-! ## All statements -/

/-- Choices by the token are related when the parsers for each token are. -/
theorem rel_choose {α : Type} {R : Parser α → Parser α → Prop} {ps qs : List (Token × Parser α)}
    {other other' : Parser α} (h : List.Forall₂ (fun e e' => e.1 = e'.1 ∧ R e.2 e'.2) ps qs)
    (hother : R other other') (t : Token) : R (choose ps other t) (choose qs other' t) := by
  induction h with
  | nil => exact hother
  | @cons e e' ps qs he _ ih =>
    rw [choose, choose, ← he.1]
    by_cases ht : t = e.1
    · rw [if_pos ht, if_pos ht]
      exact he.2
    · rw [if_neg ht, if_neg ht]
      exact ih

theorem shifts_headed {d d' : Nat} (hd : n ≤ d) (h : (rules d).Agree (k + 1) (rules d'))
    (hs : Shifts s n k (rules d).statement (rules d').statement)
    (hb : Shifts s n k (rules d).blockStatement (rules d').blockStatement) :
    List.Forall₂ (fun e e' => e.1 = e'.1 ∧ Shifts s (n + 1) (k + 1) e.2 e'.2) (headed (rules d))
      (headed (rules d')) := by
  have hr := rules_sound d
  have hreturn : Shifts s (n + 1) (k + 1) (Statement.ret <$> returnStatement (rules d))
      (Statement.ret <$> returnStatement (rules d')) :=
    ((moves_returnStatement h hr).map _).shifts (passesLead_ret _) (passesLead_ret _)
      (.map fun _ _ => rfl)
  have hthrow : Shifts s (n + 1) (k + 1) (throwStatement (rules d)) (throwStatement (rules d')) :=
    (moves_throwStatement h hr).shifts (passesLead_throwStatement _) (passesLead_throwStatement _)
      (.seq <| .seq <| .map fun _ _ _ _ => rfl)
  have hempty : Shifts s (n + 1) (k + 1) emptyStatement emptyStatement :=
    moves_emptyStatement.shifts passesLead_emptyStatement passesLead_emptyStatement
      (.map fun _ _ => rfl)
  exact .cons ⟨rfl, shifts_block h hr hb⟩ <| .cons ⟨rfl, hreturn⟩ <| .cons ⟨rfl, hthrow⟩ <|
    .cons ⟨rfl, shifts_ifStatement hd h hs⟩ <| .cons ⟨rfl, shifts_whileStatement h hr hs⟩ <|
    .cons ⟨rfl, hempty⟩ .nil

/-- A rule that is chosen by its first token shifts when all choices do. -/
theorem shifts_of_choose {p q : Parser Statement} {c c' : Token → Parser Statement}
    (hp : ∀ l ls, p.parse (l :: ls) = (c l.token).parse (l :: ls))
    (hq : ∀ l ls, q.parse (l :: ls) = (c' l.token).parse (l :: ls)) (hnil : p.parse [] = none)
    (h : ∀ t, Shifts s n k (c t) (c' t)) : Shifts s n k p q := by
  intro ls a m hls hn hparse
  cases ls with
  | nil =>
    rw [hnil] at hparse
    cases hparse
  | cons l ls =>
    rw [hp] at hparse
    obtain ⟨xs, heq, hne, hxs⟩ := h l.token (l :: ls) a m hls hn hparse
    refine ⟨xs, heq, hne, fun hk => ?_⟩
    obtain ⟨ys, hys, hread⟩ := hxs hk
    refine ⟨ys, hys, fun m' helse => ?_⟩
    have hread := hread m' helse
    obtain ⟨x, xs, rfl⟩ := List.exists_cons_of_ne_nil hne
    obtain ⟨rfl, -⟩ := List.cons.inj heq
    cases hys with
    | cons hxy _ =>
      rw [List.cons_append, hq, hxy.token, ← List.cons_append]
      exact hread

/-- Statements shift, inside of blocks and outside of them. -/
theorem shifts_rules (k : Nat) : ∀ d d', k ≤ d → k ≤ d' →
    Shifts s d k (statement (rules d)) (statement (rules d')) ∧
      Shifts s d k (blockStatement (rules d)) (blockStatement (rules d')) := by
  induction k with
  | zero =>
    -- A statement has lexemes.
    have hzero : ∀ {d} {p q : Parser Statement}, Reads p IsStatement → Shifts s d 0 p q := by
      intro d p q hp ls a m hls _ hparse
      obtain ⟨xs, rfl, hxs⟩ := hp ls a m hls hparse
      have hne := hxs.1.opens.ne_nil
      exact ⟨xs, rfl, hne, fun hk => absurd (List.length_eq_zero_iff.mp (Nat.le_zero.mp hk)) hne⟩
    exact fun d d' _ _ =>
      ⟨hzero (reads_statement (rules_sound d)), hzero (reads_blockStatement (rules_sound d))⟩
  | succ k ih =>
    intro d d' hd hd'
    have hagree := rules_agree hd hd'
    obtain ⟨e, rfl⟩ : ∃ e, d = e + 1 := ⟨d - 1, by omega⟩
    obtain ⟨e', rfl⟩ : ∃ e', d' = e' + 1 := ⟨d' - 1, by omega⟩
    obtain ⟨hs, hb⟩ := ih e e' (Nat.le_of_succ_le_succ hd) (Nat.le_of_succ_le_succ hd')
    have hheaded := shifts_headed (Nat.le_succ e) hagree hs hb
    refine ⟨?_, ?_⟩
    · refine shifts_of_choose parse_statement_cons parse_statement_cons rfl fun t => ?_
      exact rel_choose hheaded (shifts_expressionStatement hagree (rules_sound _)) t
    · refine shifts_of_choose parse_blockStatement_cons parse_blockStatement_cons rfl fun t => ?_
      exact rel_choose hheaded (shifts_unheaded hagree (rules_sound _)) t

/-- A statement of a block is read again after a shift, in front of anything but an `else`. -/
theorem shifts_blockStatement {d d' : Nat} (hd : k ≤ d) (hd' : k ≤ d') :
    Shifts s d k (blockStatement (rules d)) (blockStatement (rules d')) :=
  (shifts_rules k d d' hd hd').2

/-- A statement of a block is read again in front of anything but an `else`. -/
theorem moves_blockStatement {d d' : Nat} (hd : k ≤ d) (hd' : k ≤ d') :
    Moves d k (blockStatement (rules d)) (blockStatement (rules d')) := by
  intro ls a m hls hn hp
  have hstay : (Shift.mk 0 true).applyTo a = a := Shift.applyTo_of_amount rfl a
  obtain ⟨xs, rfl, hne, hxs⟩ := shifts_blockStatement (s := ⟨0, true⟩) hd hd' ls a m hls hn hp
  refine ⟨xs, rfl, hne, fun hk m' helse => ?_⟩
  obtain ⟨ys, hys, hread⟩ := hxs hk
  rw [hstay, ← Lexeme.eq_of_reindented hys rfl] at hread
  exact hread m' helse

end Grammar

end LosslessJava
