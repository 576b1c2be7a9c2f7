import LosslessJava.Proofs.Grammar.Lexed
import LosslessJava.Proofs.Grammar.Moved

/-!
# Packages and imports in another place

The declarations in front of the classes end with a semicolon and are built of tokens only, so their
lexemes are the same declaration in front of everything. Imports can be put in any order.

* `Portable p xs a`: the lexemes are the value in front of everything.
* `exists_portable_package`, `exists_portable_import`: a declaration that is read somewhere is
  portable.
* `several_imports`, `parseMany_imports`: imports one behind the other, there and back.
-/

namespace LosslessJava.Grammar

open LosslessJava.Grammar.Parser
open Lexeme (AllLegal Relexed textOf ofText)

/-! ## The parts in front of the semicolon -/

/-- A package declaration without its semicolon. -/
def packageFront (bound : Nat) : Parser (Trivia → PackageDeclaration) :=
  (fun lead (nameLead, name) terminator => ⟨lead, nameLead, name, terminator⟩) <$>
    keyword .packageWord "package" <*> qualifiedName bound

/-- An import without its semicolon. -/
def importFront (bound : Nat) : Parser (Trivia → Import) :=
  (fun lead staticLead ((nameLead, name), wildcard) terminator =>
    ⟨lead, staticLead, nameLead, name, wildcard, terminator⟩) <$>
    keyword .importWord "import" <*> optional (keyword .staticWord "static") <*> importPath bound

section Agree

variable {s : Bool} {k b c : Nat}

theorem agree_packageFront (hb : k ≤ b) (hc : k ≤ c) :
    Agree s (k + 1) 1 (packageFront b) (packageFront c) :=
  (agree_keyword.map _).seq_behind ((agree_qualifiedName hb hc).of_le (Nat.le_succ k)).weaken

theorem agree_wildcard : Agree s k 1 wildcard wildcard := by
  have hsymbol : Agree s k 1 (symbol .wildcard ".*" []) (symbol .wildcard ".*" []) :=
    agree_symbol (by decide)
  refine agree_tightToken ((hsymbol.map fun _ => ()).congr ?_ ?_)
  all_goals
    intro ls
    show Option.map _ (Option.map _ _) = Option.map _ (Option.map _ _)
    cases acceptSymbol ".*" [] ls <;> rfl

theorem agree_importPath (hb : k ≤ b) (hc : k ≤ c) :
    Agree s (k + 1) 1 (importPath b) (importPath c) :=
  (((agree_dottedName hb hc).map _).seq_behind agree_wildcard.weaken.optional).compound _ _

theorem agree_importFront (hb : k ≤ b) (hc : k ≤ c) :
    Agree s (k + 1) 1 (importFront b) (importFront c) :=
  ((agree_keyword.map _).seq_behind agree_keyword.weaken.optional).seq_behind
    ((agree_importPath hb hc).of_le (Nat.le_succ k)).weaken

end Agree

theorem nests_dottedName {bound : Nat} : Nests (dottedName bound) :=
  reads_dottedName.mono fun _ _ h => (h.piece false).phrase.nested

theorem nests_wildcard : Nests wildcard := by
  apply reads_wildcard.mono
  rintro _ - rfl
  rfl

theorem nests_packageFront {bound : Nat} : Nests (packageFront bound) :=
  (nests_keyword.map _).seq nests_dottedName

theorem nests_importFront {bound : Nat} : Nests (importFront bound) :=
  ((nests_keyword.map _).seq nests_keyword.optional).seq
    ((nests_dottedName.map _).seq nests_wildcard.optional)

/-! ## One declaration -/

/-- The lexemes are the value in front of everything. -/
structure Portable {α : Type} [Printable α] (p : Nat → Parser α) (xs : List Lexeme) (a : α) :
    Prop where
  text : textOf xs = Step.text (Printable.steps a)
  ne_nil : xs ≠ []
  relexed : Relexed xs
  valid : ∀ l ∈ xs, l.Valid
  parse : ∀ d m, xs.length ≤ d → (p d).parse (xs ++ m) = some (a, m)

/-- A rule that ends with a semicolon, and reads nothing but the next tokens in front of it, is
portable. -/
theorem exists_portable {α : Type} [Printable α] {p : Nat → Parser α}
    {front : Nat → Parser (Trivia → α)} (hp : ∀ b, (p b).parse = (front b <*> semicolon).parse)
    (hagree : ∀ {k b c}, k ≤ b → k ≤ c → Agree false (k + 1) 1 (front b) (front c))
    (hnests : ∀ {b}, Nests (front b)) {node : α → Node}
    (hreads : ∀ {b}, Reads (p b) fun xs a => Reading true (node a) xs)
    (hnode : ∀ a, (node a).steps = Printable.steps a) {d : Nat} {ls m : List Lexeme} {a : α}
    (hls : Lexed ls) (hd : ls.length ≤ d) (h : (p d).parse ls = some (a, m)) :
    ∃ xs, ls = xs ++ m ∧ Portable p xs a := by
  obtain ⟨xs, rfl, hxs⟩ := hreads ls a m hls.legal h
  rw [List.length_append] at hd
  have hmoved : ∀ b, xs.length ≤ b → Ended xs ∧ ∀ m', (p b).parse (xs ++ m') = some (a, m') := by
    intro b hb
    have hfront : Agree false xs.length 0 (front d) (front b) :=
      ((hagree (show xs.length ≤ d by omega) hb).of_le (Nat.le_succ _)).weaken
    rw [hp] at h ⊢
    obtain ⟨ys, heq, hended, hys⟩ :=
      exists_moved_semicolon takesToken_semicolon hfront hnests hls.legal h
    obtain rfl : xs = ys := List.append_cancel_right heq
    exact ⟨hended, hys (Nat.le_refl _)⟩
  refine ⟨xs, rfl, hxs.text.trans (by rw [hnode]), hxs.opens.ne_nil, ?_, ?_, ?_⟩
  · have hofText := hls.ofText
    rw [Lexeme.textOf_append] at hofText
    exact Lexeme.relexed_of_touch hxs.phrase.solid (hmoved _ (Nat.le_refl _)).1 hofText
  · exact fun l hl => hls.valid l (List.mem_append_left m hl)
  · exact fun b m' hb => (hmoved b hb).2 m'

section

variable {d : Nat} {ls m : List Lexeme}

theorem exists_portable_package {a : PackageDeclaration} (hls : Lexed ls) (hd : ls.length ≤ d)
    (h : (packageDeclaration d).parse ls = some (a, m)) :
    ∃ xs, ls = xs ++ m ∧ Portable packageDeclaration xs a :=
  exists_portable (p := packageDeclaration) (fun _ => rfl) agree_packageFront nests_packageFront
    reads_packageDeclaration (fun _ => rfl) hls hd h

theorem exists_portable_import {a : Import} (hls : Lexed ls) (hd : ls.length ≤ d)
    (h : (importDeclaration d).parse ls = some (a, m)) :
    ∃ xs, ls = xs ++ m ∧ Portable importDeclaration xs a :=
  exists_portable (p := importDeclaration) (fun _ => rfl) agree_importFront nests_importFront
    reads_importDeclaration (fun _ => rfl) hls hd h

/-! ## Several imports -/

variable {bound : Nat} {xs : List Lexeme} {as : List Import}

theorem several_imports (hls : Lexed ls) (hd : ls.length ≤ d)
    (h : parseMany (importDeclaration d) bound ls = (as, m)) :
    ∃ xs, ls = xs ++ m ∧ Several (Portable importDeclaration) xs as :=
  several_of_parseMany (fun _ _ _ => exists_portable_import) (fun _ _ h => h.relexed) hls hd h

/-- Imports end in front of something that is none. -/
theorem parse_import_of_parseMany (hls : Lexed ls) (hd : ls.length ≤ d) (hbound : ls.length < bound)
    (h : parseMany (importDeclaration d) bound ls = (as, m)) :
    (importDeclaration d).parse m = none :=
  parse_of_parseMany (fun _ _ _ => exists_portable_import) (fun _ _ h => h.relexed)
    (fun _ _ h => h.ne_nil) hls hd hbound h

theorem parseMany_imports (hnone : (importDeclaration d).parse m = none)
    (h : Several (Portable importDeclaration) xs as) (hd : xs.length ≤ d)
    (hbound : xs.length ≤ bound) :
    parseMany (importDeclaration d) bound (xs ++ m) = (as, m) :=
  parseMany_of_several (P := fun _ => True) (fun _ _ h => h.ne_nil) (fun _ _ _ _ => trivial)
    (fun _ _ m h hd _ => h.parse d m hd) trivial hnone h hd hbound

/-- An import is no package declaration. -/
theorem parse_package_import {a : Import} (h : Portable importDeclaration xs a) :
    (packageDeclaration bound).parse (xs ++ m) = none := by
  have himport : StartsWith (.word "import") (importDeclaration xs.length) :=
    ((((takesToken_keyword.map _).startsWith.seq _).seq _).seq _)
  have hpackage : StartsWith (.word "package") (packageDeclaration bound) :=
    (((takesToken_keyword.map _).startsWith.seq _).seq _)
  have hparse := h.parse xs.length m (Nat.le_refl _)
  obtain ⟨x, ys, rfl⟩ := List.exists_cons_of_ne_nil h.ne_nil
  refine hpackage x (ys ++ m) fun hx => ?_
  have hnone := himport x (ys ++ m) (by rw [hx]; decide)
  rw [List.cons_append, hnone] at hparse
  cases hparse

end

end LosslessJava.Grammar
