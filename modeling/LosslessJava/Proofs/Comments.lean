import LosslessJava.Proofs.Lex.Gap
import LosslessJava.Proofs.Parsed

/-!
# Comments in trivia

The grammar splits trivia into white space and comments, and `Trivia.comments` looks for the
comments in a scan of its own. The two differ in what ends a line comment: for the grammar that is a
carriage return as well as a line feed.

* `Lex.Splits`: the comments that the grammar finds in a text, each with the text behind it.
* `Lex.Splits.commentsIn_eq_iff`: the scan finds the same comments exactly when no carriage return
  ends one of them.
* `comments_of_parsed`: this holds for all trivia of parsed trees.
* `not_comments_return`: a comment in front of a carriage return and a line feed.
-/

namespace LosslessJava

namespace Lex

structure Comment where
  text : List Char
  /-- The text behind the comment. -/
  rest : List Char

/-- A line comment that ends in front of a carriage return. -/
def Comment.EndsAtReturn (c : Comment) : Prop := ['/', '/'] <+: c.text ∧ c.rest.head? = some '\r'

instance (c : Comment) : Decidable c.EndsAtReturn := inferInstanceAs (Decidable (_ ∧ _))

/-- The text is white space and comments, and these are the comments in order. -/
inductive Splits : List Char → List Comment → Prop
  | nil : Splits [] []
  | space {c : Char} {cs : List Char} {found : List Comment} (hc : isSpace c = true)
    (h : Splits cs found) : Splits (c :: cs) found
  | comment {cs text rest : List Char} {found : List Comment}
    (hc : comment? cs = some (text, rest)) (h : Splits rest found) :
    Splits cs (⟨text, rest⟩ :: found)

namespace Splits

variable {cs : List Char} {found other : List Comment}

/-- A text is split in one way only. -/
theorem unique (h : Splits cs found) (h' : Splits cs other) : other = found := by
  induction h generalizing other with
  | nil =>
    cases h' with
    | nil => rfl
    | comment hc _ => cases hc
  | space hc _ ih =>
    cases h' with
    | space _ h' => exact ih h'
    | comment hc' _ => exact absurd hc (by simp [isSpace_of_comment? hc'])
  | comment hc _ ih =>
    cases h' with
    | nil => cases hc
    | space hc' _ => exact absurd hc' (by simp [isSpace_of_comment? hc])
    | comment hc' h' =>
      obtain ⟨rfl, rfl⟩ := Prod.mk.inj (Option.some.inj (hc.symm.trans hc'))
      rw [ih h']

end Splits

/-- A gap is white space and comments. -/
theorem IsGap.splits {final : Bool} {gap : List Char} (h : IsGap final gap) :
    ∃ found, Splits gap found := by
  induction h with
  | nil => exact ⟨[], .nil⟩
  | space hc _ ih => exact ih.imp fun _ h => .space hc h
  | blockComment hbody _ ih =>
    obtain ⟨found, h⟩ := ih
    exact ⟨_, .comment (comment?_block hbody _) h⟩
  | lineComment hbody hc _ ih =>
    obtain ⟨found, h⟩ := ih
    exact ⟨_, .comment (comment?_line hbody hc _) (.space (isSpace_of_isLineEnd hc) h)⟩
  | @lastComment body _ hbody =>
    exact ⟨_, .comment (comment?_last hbody) .nil⟩

/-! ## The scan for comments -/

/-- A line comment of the scan ends where that of the grammar does, unless that is in front of a
carriage return. -/
theorem takeWhile_feed_iff {cs : List Char} :
    cs.takeWhile (· != '\n') = cs.takeWhile (!isLineEnd ·) ↔
      (cs.dropWhile (!isLineEnd ·)).head? ≠ some '\r' := by
  induction cs with
  | nil => simp
  | cons c cs ih =>
    by_cases hfeed : c = '\n'
    · simp [hfeed, isLineEnd]
    · by_cases hreturn : c = '\r'
      · simp [hreturn, isLineEnd]
      · have hend : isLineEnd c = false := by simp [isLineEnd, hfeed, hreturn]
        simpa [hfeed, hend] using ih

theorem commentsIn_space {c : Char} (hc : isSpace c = true) (cs : List Char) :
    Trivia.commentsIn (c :: cs) = Trivia.commentsIn cs := by
  have hslash : c ≠ '/' := by
    rintro rfl
    cases hc
  rw [Trivia.commentsIn]
  · rintro ds rfl
    exact absurd rfl hslash
  · rintro ds rfl
    exact absurd rfl hslash

/-- At a comment of the grammar the scan finds the same one and goes on behind it, unless the
comment ends in front of a carriage return. There the scan finds another one. -/
theorem commentsIn_comment {cs text rest : List Char} (h : comment? cs = some (text, rest)) :
    (¬ Comment.EndsAtReturn ⟨text, rest⟩ ∧
        Trivia.commentsIn cs = text :: Trivia.commentsIn rest) ∨
      (Comment.EndsAtReturn ⟨text, rest⟩ ∧
        ∃ line more, line ≠ text ∧ Trivia.commentsIn cs = line :: more) := by
  unfold comment? at h
  split at h
  · rename_i ds
    cases h
    rw [Trivia.commentsIn]
    by_cases hreturn : (ds.dropWhile (!isLineEnd ·)).head? = some '\r'
    · refine .inr ⟨⟨⟨_, rfl⟩, hreturn⟩, _, _, ?_, rfl⟩
      intro heq
      simp only [List.cons.injEq, true_and] at heq
      exact takeWhile_feed_iff.mp heq hreturn
    · have htake := takeWhile_feed_iff.mpr hreturn
      have hdrop : ds.dropWhile (· != '\n') = ds.dropWhile (!isLineEnd ·) := by
        have hsplit := List.takeWhile_append_dropWhile (p := (· != '\n')) (l := ds)
        rw [htake] at hsplit
        exact List.append_cancel_left (hsplit.trans List.takeWhile_append_dropWhile.symm)
      refine .inl ⟨fun hends => hreturn hends.2, ?_⟩
      rw [htake, hdrop]
  · obtain ⟨⟨body, rest'⟩, hbody, heq⟩ := Option.map_eq_some_iff.mp h
    cases heq
    refine .inl ⟨fun hends => ?_, ?_⟩
    · simpa using hends.1
    · rw [Trivia.commentsIn]
      split
      · rename_i hbody'
        rw [hbody] at hbody'
        cases hbody'
        rfl
      · rename_i hbody'
        rw [hbody] at hbody'
        cases hbody'
  · cases h

/-- The scan finds the comments of the grammar exactly when no carriage return ends a line
comment. -/
theorem Splits.commentsIn_eq_iff {cs : List Char} {found : List Comment} (h : Splits cs found) :
    Trivia.commentsIn cs = found.map (·.text) ↔ ∀ c ∈ found, ¬ c.EndsAtReturn := by
  induction h with
  | nil => simp [Trivia.commentsIn]
  | space hc _ ih => rwa [commentsIn_space hc]
  | comment hc _ ih =>
    rw [List.map_cons, List.forall_mem_cons]
    rcases commentsIn_comment hc with ⟨hends, heq⟩ | ⟨hends, line, more, hne, heq⟩
    · rw [heq, List.cons.injEq, ih]
      simp [hends]
    · rw [heq, List.cons.injEq]
      simp [hends, hne]

end Lex

/-- The grammar splits all trivia of parsed trees into white space and comments, in one way. The
comments of the trivia are exactly these, in the order in which they stand there, if and only if no
line comment among them ends in front of a carriage return. -/
theorem comments_of_parsed {root n : Node} {t : Trivia} (hroot : Parsed root)
    (hn : Node.Within n root) (ht : t ∈ n.trivia) :
    ∃ found, Lex.Splits t.toList found ∧ (∀ other, Lex.Splits t.toList other → other = found) ∧
      (t.comments = found.map (fun c => String.ofList c.text) ↔
        ∀ c ∈ found, ¬ c.EndsAtReturn) := by
  obtain ⟨found, h⟩ := ((hroot.all_tidy n hn).gaps t ht).splits
  have htexts : found.map (fun c => String.ofList c.text) =
      (found.map (·.text)).map String.ofList := by
    rw [List.map_map]
    rfl
  refine ⟨found, h, fun other => h.unique, ?_⟩
  rw [← h.commentsIn_eq_iff, Trivia.comments, htexts]
  exact List.map_inj_right fun _ _ => String.ofList_inj.mp

/-- Comments with the start of another one in them. -/
theorem comments_of_parsed_nested :
    ∃ a t, parseStatement "throw e /*//*/ //b\n;" = .ok a ∧ t ∈ (Node.statement a).trivia ∧
      t.comments = ["/*//*/", "//b"] := by
  obtain ⟨a, h, ha⟩ := exists_ok (x := parseStatement "throw e /*//*/ //b\n;")
    (p := fun a => (Node.statement a).trivia.any fun t =>
      t.toList == [' ', '/', '*', '/', '/', '*', '/', ' ', '/', '/', 'b', '\n']) (by decide +kernel)
  obtain ⟨t, ht, htext⟩ := List.any_eq_true.mp ha
  have htext : t.toList = _ := beq_iff_eq.mp htext
  obtain ⟨found, -, hunique, hiff⟩ := comments_of_parsed (.statement h) (.refl _) ht
  rw [htext] at hunique
  obtain rfl := hunique [⟨['/', '*', '/', '/', '*', '/'], [' ', '/', '/', 'b', '\n']⟩,
    ⟨['/', '/', 'b'], ['\n']⟩]
    (.space rfl (.comment rfl (.space rfl (.comment rfl (.space rfl .nil)))))
  exact ⟨a, t, h, ht, hiff.mpr (by decide)⟩

/-- The carriage return of a line that ends with one and a line feed is no part of the comment. -/
theorem not_comments_return :
    ∃ a t found, parseStatement "throw e //b\r\n;" = .ok a ∧ t ∈ (Node.statement a).trivia ∧
      Lex.Splits t.toList found ∧ found.map (fun c => String.ofList c.text) = ["//b"] ∧
        t.comments = ["//b\r"] := by
  obtain ⟨a, h, ha⟩ := exists_ok (x := parseStatement "throw e //b\r\n;")
    (p := fun a => (Node.statement a).trivia.any fun t =>
      t.toList == [' ', '/', '/', 'b', '\r', '\n'] && t.comments == ["//b\r"]) (by decide +kernel)
  obtain ⟨t, ht, htext⟩ := List.any_eq_true.mp ha
  obtain ⟨htext, hcomments⟩ : t.toList = _ ∧ t.comments = _ := by simpa using htext
  refine ⟨a, t, [⟨['/', '/', 'b'], ['\r', '\n']⟩], h, ht, ?_, rfl, hcomments⟩
  rw [htext]
  exact .space rfl (.comment rfl (.space rfl (.space rfl .nil)))

end LosslessJava
