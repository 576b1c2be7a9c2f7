import LosslessJava.Grammar.Pair
import LosslessJava.Lex.Token

/-!
# Parsers

A parser of this grammar takes tokens from the front of a list; choices are ordered and repetitions
are greedy. What it takes is seen in three ways. The match takes the text apart into pairs, of which
trees are built. The account notes which rules failed furthest into the text, and is asked only
about texts that have no match. The reading makes a tree of the tokens at once, with the trivia that
they carry. It is what the trees that are built of pairs are compared with.

* `Parser.pairs`, `Parser.account`, `Parser.parse`: the three parts.
* `pure`, `map`, `seq`, `orElse`, `optional`, `many`: the ways to combine parsers.
* `token`, `named`, `summary`, `compound`, `around`: parsers that stand for a rule of the grammar,
  with the pair of its match and a note of its failures.
-/

namespace LosslessJava.Grammar

/-! ## Accounts of failures -/

/-- A place between two tokens of a text. -/
structure Place where
  /-- The bytes up to the end of the token before. -/
  offset : Nat
  rest : List Lexeme

namespace Place

/-- The bytes up to the start of the next token. -/
def start (p : Place) : Nat :=
  match p.rest with
  | [] => p.offset
  | l :: _ => p.offset + l.lead.text.utf8ByteSize

/-- The place behind the next `count` tokens. -/
def advance (p : Place) (count : Nat) : Place :=
  ⟨p.offset + byteLength (Lexeme.textOf (p.rest.take count)), p.rest.drop count⟩

/-- The place behind the trivia in front of the next token. -/
def skip (p : Place) : Place :=
  ⟨p.start, match p.rest with
    | [] => []
    | l :: ls => { l with lead := .empty } :: ls⟩

end Place

/-- The rules that failed at the furthest offset where one failed. -/
structure Failures where
  offset : Nat
  rules : Array Rule

namespace Failures

def initial : Failures := ⟨0, #[]⟩

/-- The number of notes at an offset. -/
def countAt (f : Failures) (offset : Nat) : Nat :=
  if f.offset = offset then f.rules.size else 0

/-- Notes that a rule failed at an offset, in place of the notes that its parts left there since
`before`. -/
def replace (f : Failures) (rule : Rule) (offset before : Nat) : Failures :=
  if offset = f.offset then ⟨offset, (f.rules.shrink before).push rule⟩
  else if f.offset < offset then ⟨offset, #[rule]⟩
  else f

/-- Notes that a rule failed at an offset. When the rule's own parts left exactly one note there
since `before`, that note says more than the rule and stays; otherwise the rule takes the place of
the notes of its parts. -/
def note (f : Failures) (rule : Rule) (offset before : Nat) : Failures :=
  if f.countAt offset = before + 1 then f else f.replace rule offset before

end Failures

/-! ## Parsers and their combination -/

/-- What a parser takes off the text at a place. -/
structure Match where
  /-- The pairs of the rule that is being matched, up to here. -/
  pairs : List Pair
  /-- The end of what is matched. A part that is missing ends behind the trivia that was skipped in
  front of it. -/
  stop : Nat
  /-- The place behind the last token. -/
  place : Place

structure Parser (α : Type) where
  /-- The value and the tokens behind it, `none` where the parser reads nothing. -/
  parse : List Lexeme → Option (α × List Lexeme)
  /-- The place behind what the parser takes, and the notes with those of its failures. -/
  account : Place → Failures → Option Place × Failures
  /-- What the parser takes, behind the pairs that the rule has already. -/
  pairs : List Pair → Place → Option Match

namespace Parser

variable {α β : Type}

/-- Takes no tokens. -/
protected def pure (a : α) : Parser α :=
  ⟨fun ls => some (a, ls), fun place f => (some place, f),
    fun before place => some ⟨before, place.offset, place⟩⟩

/-- Reads nothing. -/
def fail : Parser α := ⟨fun _ => none, fun _ f => (none, f), fun _ _ => none⟩

protected def map (g : α → β) (p : Parser α) : Parser β :=
  ⟨fun ls => (p.parse ls).map fun (a, rest) => (g a, rest), p.account, p.pairs⟩

/-- One parser after the other. -/
protected def seq (p : Parser (α → β)) (q : Parser α) : Parser β where
  parse ls :=
    match p.parse ls with
    | none => none
    | some (g, rest) => (q.parse rest).map fun (a, rest) => (g a, rest)
  account place f :=
    match p.account place f with
    | (none, f) => (none, f)
    | (some place, f) => q.account place f
  pairs before place :=
    match p.pairs before place with
    | none => none
    | some m => q.pairs m.pairs m.place

instance : Functor Parser := ⟨Parser.map, fun a => Parser.map fun _ => a⟩

instance : Seq Parser := ⟨fun p q => Parser.seq p (q ())⟩

instance : SeqLeft Parser := ⟨fun p q => Parser.seq (Parser.map (fun a _ => a) p) (q ())⟩

instance : SeqRight Parser := ⟨fun p q => Parser.seq (Parser.map (fun _ b => b) p) (q ())⟩

/-- The second parser, where the first one reads nothing. -/
protected def orElse (p q : Parser α) : Parser α where
  parse ls :=
    match p.parse ls with
    | none => q.parse ls
    | some r => some r
  account place f :=
    match p.account place f with
    | (none, f) => q.account place f
    | r => r
  pairs before place :=
    match p.pairs before place with
    | none => q.pairs before place
    | some m => some m

instance : OrElse (Parser α) := ⟨fun p q => Parser.orElse p (q ())⟩

/-- The parser, or nothing where it reads nothing. -/
def optional (p : Parser α) : Parser (Option α) where
  parse ls :=
    match p.parse ls with
    | none => some (none, ls)
    | some (a, rest) => some (some a, rest)
  account place f :=
    match p.account place f with
    | (none, f) => (some place, f)
    | r => r
  pairs before place :=
    match p.pairs before place with
    | none => some ⟨before, place.start, place⟩
    | some m => some m

/-- Readings of `p` one after the other, as long as there are some and at most `bound`. -/
def parseMany (p : Parser α) : Nat → List Lexeme → List α × List Lexeme
  | 0, ls => ([], ls)
  | bound + 1, ls =>
    match p.parse ls with
    | none => ([], ls)
    | some (a, rest) =>
      let (as, rest) := parseMany p bound rest
      (a :: as, rest)

/-- The account of a repetition. -/
def accountMany (p : Parser α) : Nat → Place → Failures → Place × Failures
  | 0, place, f => (place, f)
  | bound + 1, place, f =>
    match p.account place f with
    | (none, f) => (place, f)
    | (some place, f) => accountMany p bound place f

/-- The matches of a repetition, behind one that stops where `m` does. -/
def matchMany (p : Parser α) : Nat → Match → Match
  | 0, m => m
  | bound + 1, m =>
    match p.pairs m.pairs m.place with
    | none => m
    | some m => matchMany p bound m

/-- The parser as often as it reads something, but at most `bound` times. -/
def many (bound : Nat) (p : Parser α) : Parser (List α) where
  parse ls := some (parseMany p bound ls)
  account place f :=
    let (place, f) := accountMany p bound place f
    (some place, f)
  pairs before place := some (matchMany p bound ⟨before, place.start, place⟩)

/-- The parser that `p` makes, which is made when it is used. -/
def later (p : Unit → Parser α) : Parser α :=
  ⟨fun ls => (p ()).parse ls, fun place f => (p ()).account place f,
    fun before place => (p ()).pairs before place⟩

/-- Takes the trivia off the next token. -/
def lead : Parser Trivia where
  parse
    | [] => none
    | l :: ls => some (l.lead, { l with lead := .empty } :: ls)
  account place f := (some place, f)
  pairs before place :=
    match place.rest with
    | [] => none
    | _ :: _ => some ⟨before, place.start, place.skip⟩

/-! ## Rules -/

/-- The pair of a rule behind its siblings. The trivia in front of it are skipped before the rule is
matched. -/
def pairOf (rule : Rule) (p : Parser α) (before : List Pair) (place : Place) : Option Match :=
  (p.pairs [] place.skip).map fun m =>
    { m with pairs := before ++ [⟨rule, place.start, m.stop, m.pairs⟩] }

/-- A parser for a rule that has parts. -/
def named (rule : Rule) (p : Parser α) : Parser α where
  parse := p.parse
  pairs := pairOf rule p
  account place f :=
    let offset := place.start
    let before := f.countAt offset
    match p.account place f with
    | (none, f) => (none, f.note rule offset before)
    | r => r

/-- A parser for a rule that says more than any of its parts. -/
def summary (rule : Rule) (p : Parser α) : Parser α where
  parse := p.parse
  pairs := pairOf rule p
  account place f :=
    let offset := place.start
    let before := f.countAt offset
    match p.account place f with
    | (none, f) => (none, f.replace rule offset before)
    | r => r

/-- A parser for a rule that has parts but no trivia between them, not even at its end. -/
def compound (rule : Rule) (p : Parser α) : Parser α :=
  { named rule p with
    pairs before place := (p.pairs [] place.skip).map fun m =>
      ⟨before ++ [⟨rule, place.start, m.place.offset, m.pairs⟩], m.place.offset, m.place⟩ }

/-- A parser for a rule that starts in front of it: what the rule around it has matched so far
belongs to the inner rule. -/
def around (rule : Rule) (p : Parser α) : Parser α :=
  { p with
    pairs before place := (p.pairs before place).map fun m =>
      let start := (m.pairs.head?.map Pair.start).getD place.start
      { m with pairs := [⟨rule, start, m.stop, m.pairs⟩] } }

/-- The pair of a rule without parts, for the next `count` tokens. -/
def leafAt (rule : Rule) (start count : Nat) (before : List Pair) (place : Place) : Match :=
  let behind := place.advance count
  ⟨before ++ [⟨rule, start, behind.offset, []⟩], behind.offset, behind⟩

/-- A parser for a rule without parts. The value and the number of tokens that it takes are found by
`accept`. -/
def token (rule : Rule) (accept : List Lexeme → Option (α × Nat)) : Parser α where
  parse ls := (accept ls).map fun (a, count) => (a, ls.drop count)
  account place f :=
    match accept place.rest with
    | some (_, count) => (some (place.advance count), f)
    | none => (none, f.note rule place.start (f.countAt place.start))
  pairs before place :=
    (accept place.rest).map fun (_, count) => leafAt rule place.start count before place

/-- A parser for a rule without parts that stands directly behind the token before. -/
def tightToken (rule : Rule) (accept : List Lexeme → Option (α × Nat)) : Parser α :=
  let accept : List Lexeme → Option (α × Nat)
    | [] => none
    | l :: ls => if l.lead.isEmpty then accept (l :: ls) else none
  { token rule accept with
    account place f :=
      match accept place.rest with
      | some (_, count) => (some (place.advance count), f)
      | none => (none, f.note rule place.offset (f.countAt place.offset))
    pairs before place :=
      (accept place.rest).map fun (_, count) => leafAt rule place.offset count before place }

/-- A parser without a rule of its own, for a text directly behind the token before. -/
def tightMark (c : Char) : Parser Unit where
  parse
    | ⟨lead, .mark d⟩ :: ls => if lead.isEmpty && c == d then some ((), ls) else none
    | _ => none
  account place f :=
    match place.rest with
    | ⟨lead, .mark d⟩ :: _ =>
      if lead.isEmpty && c == d then (some (place.advance 1), f) else (none, f)
    | _ => (none, f)
  pairs before place :=
    match place.rest with
    | ⟨lead, .mark d⟩ :: _ =>
      if lead.isEmpty && c == d then
        let behind := place.advance 1
        some ⟨before, behind.offset, behind⟩
      else none
    | _ => none

end Parser

end LosslessJava.Grammar
