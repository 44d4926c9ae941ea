import ControlFlow.Proofs.Form.Lexical
/-!
# What the grammar accepts

`Reads` says which forms stand at a place in a text, without choices that are tried in vain. The grammar
takes a form where one stands and fails everywhere else. So it accepts a text if and only if the text
is a sequence of forms, up to its end.
-/

namespace ControlFlow.Grammar

open Peg Expr Grammar.Rule

/-- One form, or a sequence of forms. -/
inductive Taken where
  | one (p : Pair Rule)
  | many (ps : List (Pair Rule))

/-- Forms that stand at a cursor, and the cursor behind them. Behind each form of a sequence all gaps
are skipped. -/
inductive Reads : Cursor → Taken → Cursor → Prop where
  | word {i : Nat} {w r : List Char} {rule : Rule} (some_char : w ≠ []) (word : IsWord w)
      (stop : Stops Word.isWordChar r) (hr : WordRule w rule) :
      Reads ⟨i, w ++ r⟩ (.one (.mk rule i (i + w.length) [])) ⟨i + w.length, r⟩
  | string {i : Nat} {raw value r : List Char} (h : Quoted raw value) :
      Reads ⟨i, '"' :: (raw ++ '"' :: r)⟩ (.one (stringPair i raw)) ⟨i + raw.length + 2, r⟩
  | list {i j : Nat} {s r : List Char} {ps : List (Pair Rule)}
      (inner : Reads (Cursor.skip ⟨i + 1, s⟩) (.many ps) ⟨j, ')' :: r⟩) :
      Reads ⟨i, '(' :: s⟩ (.one (.mk list i (j + 1) ps)) ⟨j + 1, r⟩
  | nil {c : Cursor} : Reads c (.many []) c
  | cons {c c₁ c₂ : Cursor} {p : Pair Rule} {ps : List (Pair Rule)} (first : Reads c (.one p) c₁)
      (more : Reads c₁.skip (.many ps) c₂) : Reads c (.many (p :: ps)) c₂

variable {ps : List (Pair Rule)} {c' c : Cursor}

/-- A form takes at least one character. -/
lemma Reads.length {t : Taken} (h : Reads c t c') :
    match t with
    | .one _ => c'.rest.length < c.rest.length
    | .many _ => c'.rest.length ≤ c.rest.length := by
  induction h with
  | @word i w r rule some_char =>
    have := List.length_pos_iff.2 some_char
    simp only [List.length_append]
    omega
  | string h =>
    simp only [List.length_cons, List.length_append]
    omega
  | @list i j s r ps _ ih =>
    have := Cursor.length_skip ⟨i + 1, s⟩
    simp only [List.length_cons] at ih this ⊢
    omega
  | nil => exact le_rfl
  | @cons c c₁ c₂ p ps _ _ ih₁ ih₂ =>
    have := c₁.length_skip
    simp only at ih₁ ih₂ ⊢
    omega

/-! ## Forms are taken -/

/-- No form starts at a closing bracket. -/
lemma closing_fails (j : Nat) (r : List Char) : Parses rules (.rule form) ⟨j, ')' :: r⟩ none :=
  .silent rfl (.choice_second (list_fails (by simp)) (.choice_second (string_fails (by simp))
    (word_fails (by simp [Word.isWordChar]))))

/-- Further forms, with gaps before them. -/
def more : Expr Rule := star (seq skip (.rule form))

/-- The forms of a document or a list. -/
def items : Expr Rule := opt (seq (.rule form) more)

/-- The grammar takes the forms that stand at a cursor, if no further one stands behind them. -/
lemma Reads.parses {t : Taken} (h : Reads c t c') :
    match t with
    | .one p => Parses rules (.rule form) c (some ([p], c'))
    | .many ps => Parses rules (.rule form) c' none →
        (∀ c₀ : Cursor, c₀.skip = c → ∃ c₁, c₁.skip = c' ∧ Parses rules more c₀ (some (ps, c₁))) ∧
        (c.skip = c → ∃ c₁, c₁.skip = c' ∧ Parses rules items c (some (ps, c₁))) := by
  induction h with
  | word some_char word stop hr => exact parses_word some_char word stop hr
  | string h => exact parses_string h
  | @list i j s r ps inner ih =>
    obtain ⟨c₁, end_eq, inside⟩ := (ih (closing_fails j r)).2 (Cursor.skip_skip _)
    have gap := parses_skip c₁
    rw [end_eq] at gap
    have whole := Parses.pair (g := rules) (r := Rule.list) rfl
      (.seq (parses_char '(' i s) (.seq (parses_skip _) (.seq inside (.seq gap (parses_char ')' j r)))))
    refine .silent rfl (.choice_first ?_)
    simpa using whole
  | @nil c =>
    intro fails
    constructor
    · rintro c₀ rfl
      exact ⟨c₀, rfl, .star_done (.seq_second (parses_skip c₀) fails)⟩
    · exact fun same => ⟨c, same, .opt_none (.seq_first fails)⟩
  | @cons c c₁ c₂ p ps _ _ ih₁ ih₂ =>
    intro fails
    obtain ⟨c₃, end_eq, behind⟩ := (ih₂ fails).1 c₁ rfl
    constructor
    · rintro c₀ rfl
      exact ⟨c₃, end_eq, .star_more (.seq (parses_skip c₀) ih₁) behind⟩
    · exact fun _ => ⟨c₃, end_eq, .opt_some (.seq ih₁ behind)⟩

/-! ## The grammar fails where no form stands -/

lemma nothing_fails {c : Cursor} (h : Stops (fun x => Word.isWordChar x || x = '(' || x = '"') c.rest) :
    Parses rules (.rule form) c none :=
  .silent rfl (.choice_second (list_fails (h.imp (by simp +contextual)))
    (.choice_second (string_fails (h.imp (by simp +contextual)))
      (word_fails (h.imp (by simp +contextual)))))

/-- A sequence of forms that cannot be made longer, if it is known where forms stand in shorter texts. -/
lemma exists_many {n : Nat} (ih : ∀ c : Cursor, c.rest.length < n →
      (∃ p c', Reads c (.one p) c') ∨ Parses rules (.rule form) c none)
    (c : Cursor) (hc : c.rest.length < n) :
    ∃ ps c', Reads c (.many ps) c' ∧ Parses rules (.rule form) c' none := by
  induction hm : c.rest.length using Nat.strongRecOn generalizing c with
  | _ m ihm =>
    rcases ih c hc with ⟨p, c₁, first⟩ | fails
    · have shorter := first.length
      have := c₁.length_skip
      simp only at shorter
      obtain ⟨ps, c', more, fails⟩ := ihm c₁.skip.rest.length (by omega) c₁.skip (by omega) rfl
      exact ⟨p :: ps, c', .cons first more, fails⟩
    · exact ⟨[], c, .nil, fails⟩

/-- A word stands where one of its characters does. -/
lemma reads_word (i : Nat) {x : Char} (hx : Word.isWordChar x = true) (s : List Char) :
    ∃ p c', Reads ⟨i, x :: s⟩ (.one p) c' := by
  obtain ⟨w, r, split, some_char, word, stop, -⟩ := exists_word hx s
  obtain ⟨rule, hr⟩ := exists_wordRule w
  rw [split]
  exact ⟨_, _, .word some_char word stop hr⟩

/-- A quoted text stands at a quote if it has an end. -/
lemma reads_string (i : Nat) (s : List Char) :
    (∃ p c', Reads ⟨i, '"' :: s⟩ (.one p) c') ∨ Parses rules (.rule form) ⟨i, '"' :: s⟩ none := by
  obtain ⟨raw, value, quoted, ⟨r, rfl⟩ | ⟨r, rfl, stuck, no_quote⟩⟩ := closed_or_broken s
  · exact Or.inl ⟨_, _, .string quoted⟩
  · exact Or.inr (broken_fails quoted stuck no_quote)

/-- A form stands at a cursor, or the grammar fails there. -/
lemma reads_or_fails (c : Cursor) :
    (∃ p c', Reads c (.one p) c') ∨ Parses rules (.rule form) c none := by
  induction hn : c.rest.length using Nat.strongRecOn generalizing c with
  | _ n ih =>
    rcases c with ⟨i, _ | ⟨x, s⟩⟩
    · exact Or.inr (nothing_fails (by simp))
    · by_cases hw : Word.isWordChar x = true
      · exact Or.inl (reads_word i hw s)
      · by_cases hq : x = '"'
        · exact hq ▸ reads_string i s
        · by_cases ho : x = '('
          · subst ho
            have inside := Cursor.length_skip ⟨i + 1, s⟩
            simp only [List.length_cons] at hn inside
            obtain ⟨ps, ⟨j, r⟩, inner, fails⟩ := exists_many (fun c hc => ih _ hc c rfl)
              (Cursor.skip ⟨i + 1, s⟩) (by omega)
            by_cases closed : ∃ r', r = ')' :: r'
            · obtain ⟨r', rfl⟩ := closed
              exact Or.inl ⟨_, _, .list inner⟩
            · -- the forms inside of the list are taken, and then its end is missing
              obtain ⟨c₁, end_eq, taken⟩ := (inner.parses fails).2 (Cursor.skip_skip _)
              have gap := parses_skip c₁
              rw [end_eq] at gap
              have no_end : Parses rules (char ')') ⟨j, r⟩ none := by
                refine (single_char ')').fails fun x hx => ?_
                obtain ⟨r', rfl⟩ := List.head?_eq_some_iff.1 hx
                exact decide_eq_false fun h => closed ⟨r', h ▸ rfl⟩
              have no_list : Parses rules (.rule list) ⟨i, '(' :: s⟩ none :=
                .rule_fail (.seq_second (parses_char '(' i s) (.seq_second (parses_skip _)
                  (.seq_second taken (.seq_second gap no_end))))
              exact Or.inr (.silent rfl (.choice_second no_list (.choice_second
                (string_fails (by simp)) (word_fails (by simp [Word.isWordChar])))))
          · exact Or.inr (nothing_fails (by simp [hw, hq, ho]))

/-- What the grammar takes as a form is a form that stands there. -/
lemma reads_of_parses (h : Parses rules (.rule form) c (some (ps, c'))) :
    ∃ p, ps = [p] ∧ Reads c (.one p) c' := by
  rcases reads_or_fails c with ⟨p, c₁, reads⟩ | fails
  · cases h.unique reads.parses
    exact ⟨p, rfl, reads⟩
  · cases h.unique fails

/-- The forms at a cursor, as many as there are. -/
lemma reads_many (c : Cursor) :
    ∃ ps c', Reads c (.many ps) c' ∧ Parses rules (.rule form) c' none :=
  exists_many (fun c _ => reads_or_fails c) c (Nat.lt_succ_self _)

/-! ## Documents -/

/-- The grammar accepts a text as a document with the given forms. -/
def Accepts (text : List Char) (ps : List (Pair Rule)) : Prop :=
  ∃ n, Parses rules (.rule document) ⟨0, text⟩
    (some ([.mk document 0 n (ps ++ [.mk endOfInput n n []])], ⟨n, []⟩))

/-- The grammar fails on a text. -/
def Rejects (text : List Char) : Prop := Parses rules (.rule document) ⟨0, text⟩ none

/-- A text is accepted if forms stand in it up to its end. -/
lemma Reads.accepts {text : List Char} {n : Nat}
    (h : Reads (Cursor.skip ⟨0, text⟩) (.many ps) ⟨n, []⟩) : Accepts text ps := by
  obtain ⟨c₁, end_eq, inside⟩ := (h.parses (nothing_fails (by simp))).2 (Cursor.skip_skip _)
  have gap := parses_skip c₁
  rw [end_eq] at gap
  have last := Parses.pair (g := rules) (r := endOfInput) rfl (.finish (i := n))
  have whole := Parses.pair (g := rules) (r := document) rfl
    (.seq .start (.seq (parses_skip ⟨0, text⟩) (.seq inside (.seq gap last))))
  exact ⟨n, by simpa using whole⟩

/-- Every text is accepted or rejected, and an accepted one is a sequence of forms. -/
lemma accepts_or_rejects (text : List Char) :
    (∃ ps n, Reads (Cursor.skip ⟨0, text⟩) (.many ps) ⟨n, []⟩) ∨ Rejects text := by
  obtain ⟨ps, ⟨n, r⟩, reads, fails⟩ := reads_many (Cursor.skip ⟨0, text⟩)
  by_cases hr : r = []
  · subst hr
    exact Or.inl ⟨ps, n, reads⟩
  · obtain ⟨c₁, end_eq, inside⟩ := (reads.parses fails).2 (Cursor.skip_skip _)
    have gap := parses_skip c₁
    rw [end_eq] at gap
    exact Or.inr (.rule_fail (.seq_second .start (.seq_second (parses_skip ⟨0, text⟩)
      (.seq_second inside (.seq_second gap (.rule_fail (.finish_fail hr)))))))

lemma accepts_iff {text : List Char} :
    Accepts text ps ↔ ∃ n, Reads (Cursor.skip ⟨0, text⟩) (.many ps) ⟨n, []⟩ := by
  constructor
  · rintro ⟨n, h⟩
    rcases accepts_or_rejects text with ⟨qs, m, reads⟩ | rejects
    · obtain ⟨m', h'⟩ := reads.accepts
      obtain ⟨⟨-, rfl, -⟩, -⟩ : (n = m' ∧ ps = qs ∧ n = m') ∧ n = m' := by
        simpa using h.unique h'
      exact ⟨m, reads⟩
    · cases h.unique rejects
  · rintro ⟨n, h⟩
    exact h.accepts

end ControlFlow.Grammar
