import ControlFlow.Form.Basic
import ControlFlow.Proofs.Form.Peg
/-!
# The grammar of forms

A document is a sequence of forms; a form is a list in brackets or an atom. Blanks and comments may
stand between the parts of documents and lists. Quoted texts and words are taken without such gaps.

Numbers are tried before symbols, and a number must not be followed by another character of words. So
a word is taken as a whole, and it is a number only if all of it is one.
-/

namespace ControlFlow

namespace Grammar

open Peg

/-- The rules of the grammar. -/
inductive Rule where
  | document
  | form
  | list
  | string
  | text
  | escape
  | float
  | integer
  | symbol
  | symbolChar
  | whitespace
  | comment
  | endOfInput
deriving DecidableEq

open Expr Grammar.Rule

/-- A choice between characters. -/
def oneOf (x : Char) : List Char → Expr Rule
  | [] => char x
  | y :: ys => choice (char x) (oneOf y ys)

/-- What may stand between the parts of documents and lists. -/
def skip : Expr Rule :=
  seq (star (.rule whitespace)) (star (seq (.rule comment) (star (.rule whitespace))))

/-- A decimal digit. -/
def digit : Expr Rule := one Char.isDigit

/-- The definitions of the rules. -/
def rules : Peg.Grammar Rule
  | document => { body := spaced skip (seq .start (seq (star (.rule form)) (.rule endOfInput))) }
  | form => {
      body := choice (.rule list) (choice (.rule string) (choice (.rule float)
        (choice (.rule integer) (.rule symbol))))
      silent := true }
  | list => { body := spaced skip (seq (char '(') (seq (star (.rule form)) (char ')'))) }
  | string => { body := seq (char '"') (seq (.rule text) (char '"')) }
  | text => {
      body := star (choice (.rule escape) (seq (.not (oneOf '"' ['\\'])) any)) }
  | escape => { body := seq (char '\\') (oneOf '"' ['\\', 'n', 't']), silent := true }
  | float => {
      body := seq (opt (char '-')) (seq (plus digit) (seq (char '.') (seq (plus digit)
        (.not (.rule symbolChar))))) }
  | integer => {
      body := seq (opt (char '-')) (seq (plus digit) (.not (.rule symbolChar))) }
  | symbol => { body := plus (.rule symbolChar) }
  | symbolChar => {
      body := seq (.not (oneOf ' ' ['\t', '\r', '\n', '(', ')', '"', ';'])) any
      silent := true }
  | whitespace => { body := oneOf ' ' ['\t', '\r', '\n'], silent := true }
  | comment => { body := seq (char ';') (star (seq (.not (char '\n')) any)), silent := true }
  | endOfInput => { body := .finish }

/-! ## Single characters -/

lemma single_oneOf (x : Char) (xs : List Char) :
    Single rules (oneOf x xs) fun y => decide (y ∈ x :: xs) := by
  induction xs generalizing x with
  | nil => exact (Single.one _).congr fun y => by simp
  | cons z zs ih => exact ((Single.one _).choice (ih z)).congr fun y => by simp

lemma single_whitespace : Single rules (.rule whitespace) Word.isGap :=
  ((single_oneOf _ _).congr fun x => by simp [Word.isGap, Bool.or_assoc]).rule rfl

lemma single_symbolChar : Single rules (.rule symbolChar) Word.isWordChar :=
  ((single_oneOf _ _).notAt.congr fun x => by
    simp [Word.isWordChar, Word.isGap, Bool.and_assoc]).rule rfl

lemma single_digit : Single rules digit Char.isDigit := .one _

lemma single_char (x : Char) : Single rules (char x) (· = x) := .one _

lemma parses_char (x : Char) (i : Nat) (s : List Char) :
    Parses rules (char x) ⟨i, x :: s⟩ (some ([], ⟨i + 1, s⟩)) :=
  (single_char x).takes (by simp)

/-- The characters of a comment. -/
lemma single_inLine : Single rules (seq (.not (char '\n')) any) fun x => x ≠ '\n' :=
  (single_char '\n').notAt.congr fun x => by simp

/-! ## Gaps -/

/-- The cursor behind blanks and comments, where a comment may have begun before. -/
def skipFrom (inComment : Bool) (i : Nat) : List Char → Cursor
  | [] => ⟨i, []⟩
  | x :: s =>
    if inComment then skipFrom (x ≠ '\n') (i + 1) s
    else if Word.isGap x then skipFrom false (i + 1) s
    else if x = ';' then skipFrom true (i + 1) s
    else ⟨i, x :: s⟩

end Grammar

/-- The cursor behind blanks and comments. -/
def Peg.Cursor.skip (c : Cursor) : Cursor := Grammar.skipFrom false c.offset c.rest

namespace Grammar

open Peg Expr Grammar.Rule

lemma skipFrom_blanks (i : Nat) (s : List Char) :
    skipFrom false (i + (s.takeWhile Word.isGap).length) (s.dropWhile Word.isGap) =
      skipFrom false i s := by
  induction s generalizing i with
  | nil => rfl
  | cons x s ih =>
    by_cases hx : Word.isGap x = true
    · have step : skipFrom false i (x :: s) = skipFrom false (i + 1) s := by simp [skipFrom, hx]
      rw [step, ← ih (i + 1)]
      simp [hx, Nat.add_assoc, Nat.add_comm 1]
    · simp [hx]

lemma skipFrom_comment (i : Nat) (s : List Char) :
    skipFrom false (i + (s.takeWhile fun x => x ≠ '\n').length) (s.dropWhile fun x => x ≠ '\n') =
      skipFrom true i s := by
  induction s generalizing i with
  | nil => rfl
  | cons x s ih =>
    by_cases hx : x = '\n'
    · simp [hx, skipFrom, Word.isGap]
    · have step : skipFrom true i (x :: s) = skipFrom true (i + 1) s := by simp [skipFrom, hx]
      rw [step, ← ih (i + 1)]
      simp [hx, Nat.add_assoc, Nat.add_comm 1]

lemma parses_comment (i : Nat) (s : List Char) :
    Parses rules (.rule comment) ⟨i, ';' :: s⟩
      (some ([], ⟨i + 1 + (s.takeWhile fun x => x ≠ '\n').length,
        s.dropWhile fun x => x ≠ '\n'⟩)) :=
  .rule (.seq (.one rfl) (single_inLine.star _ _))

/-- Comments with blanks behind them, in front of which no blank is left. -/
lemma parses_comments (i : Nat) {s : List Char} (blank : Stops Word.isGap s) :
    Parses rules (star (seq (.rule comment) (star (.rule whitespace)))) ⟨i, s⟩
      (some ([], skipFrom false i s)) := by
  induction hn : s.length using Nat.strongRecOn generalizing i s with
  | _ n ih =>
    cases s with
    | nil => exact .star_done (.seq_first (.rule_fail (.seq_first (.one_fail (by simp)))))
    | cons x s =>
      have hx : Word.isGap x = false := by simpa using blank
      by_cases hc : x = ';'
      · subst hc
        have line := parses_comment i s
        have blanks := single_whitespace.star
          (i + 1 + (s.takeWhile fun x => x ≠ '\n').length) (s.dropWhile fun x => x ≠ '\n')
        have shorter : ((s.dropWhile fun x => x ≠ '\n').dropWhile Word.isGap).length < n := by
          have h₁ := ((s.dropWhile fun x => x ≠ '\n').dropWhile_suffix Word.isGap).length_le
          have h₂ := (s.dropWhile_suffix fun x => x ≠ '\n').length_le
          simp only [List.length_cons] at hn
          omega
        have more := ih _ shorter (i + 1 + (s.takeWhile fun x => x ≠ '\n').length +
          ((s.dropWhile fun x => x ≠ '\n').takeWhile Word.isGap).length)
          (stops_dropWhile Word.isGap _) rfl
        rw [skipFrom_blanks, skipFrom_comment] at more
        simpa [skipFrom, Word.isGap] using Parses.star_more (.seq line blanks) more
      · have here : skipFrom false i (x :: s) = ⟨i, x :: s⟩ := by simp [skipFrom, hx, hc]
        rw [here]
        exact .star_done (.seq_first (.rule_fail (.seq_first (.one_fail (by simpa using hc)))))

/-- Gaps are skipped, if there are any. -/
lemma parses_skip (c : Cursor) : Parses rules skip c (some ([], c.skip)) := by
  obtain ⟨i, s⟩ := c
  have comments := parses_comments (i + (s.takeWhile Word.isGap).length)
    (stops_dropWhile Word.isGap s)
  rw [skipFrom_blanks] at comments
  exact .seq (single_whitespace.star i s) comments

/-- What stands behind gaps starts with neither a blank nor a comment. -/
lemma stops_skipFrom (inComment : Bool) (i : Nat) (s : List Char) :
    Stops (fun x => Word.isGap x || x = ';') (skipFrom inComment i s).rest := by
  induction s generalizing inComment i with
  | nil => exact stops_nil _
  | cons x s ih =>
    rw [skipFrom]
    split
    · exact ih _ _
    split
    · exact ih _ _
    split
    · exact ih _ _
    · rename_i hg hc
      simp [hg, hc]

/-- Skipping takes characters from the front. -/
lemma skipFrom_split (inComment : Bool) (i : Nat) (s : List Char) :
    ∃ gap, s = gap ++ (skipFrom inComment i s).rest ∧
      (skipFrom inComment i s).offset = i + gap.length := by
  induction s generalizing inComment i with
  | nil => exact ⟨[], rfl, rfl⟩
  | cons x s ih =>
    have more (b : Bool) : ∃ gap, x :: s = gap ++ (skipFrom b (i + 1) s).rest ∧
        (skipFrom b (i + 1) s).offset = i + gap.length := by
      obtain ⟨gap, hs, ho⟩ := ih b (i + 1)
      refine ⟨x :: gap, ?_, ?_⟩
      · rw [List.cons_append, ← hs]
      · rw [ho, List.length_cons]
        omega
    rw [skipFrom]
    split
    · exact more _
    split
    · exact more _
    split
    · exact more _
    · exact ⟨[], rfl, rfl⟩

end Grammar

namespace Peg.Cursor

lemma stops_skip (c : Cursor) : Stops (fun x => Word.isGap x || x = ';') c.skip.rest :=
  Grammar.stops_skipFrom _ _ _

lemma skip_eq {c : Cursor} (h : Stops (fun x => Word.isGap x || x = ';') c.rest) : c.skip = c := by
  rcases c with ⟨i, _ | ⟨x, s⟩⟩
  · rfl
  · have hx : Word.isGap x = false ∧ x ≠ ';' := by simpa using h
    simp [skip, Grammar.skipFrom, hx.1, hx.2]

lemma skip_skip (c : Cursor) : c.skip.skip = c.skip := skip_eq c.stops_skip

lemma length_skip (c : Cursor) : c.skip.rest.length ≤ c.rest.length := by
  obtain ⟨gap, hs, -⟩ := Grammar.skipFrom_split false c.offset c.rest
  have := congrArg List.length hs
  rw [List.length_append] at this
  change (Grammar.skipFrom false c.offset c.rest).rest.length ≤ _
  omega

lemma In.skip {c : Cursor} {text : List Char} (h : c.In text) : c.skip.In text := by
  obtain ⟨gap, hs, ho⟩ := Grammar.skipFrom_split false c.offset c.rest
  obtain ⟨i, s⟩ := c
  simp only at hs ho
  rw [hs] at h
  have moved := h.move
  rwa [← ho] at moved

end Peg.Cursor

end ControlFlow
