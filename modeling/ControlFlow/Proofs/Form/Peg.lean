import Mathlib.Tactic.Common
/-!
# Parsing expression grammars

A parsing expression takes characters from the front of a text or fails there. A choice tries its
second way only where its first one fails, and a repetition goes on for as long as it can. A rule makes
a pair of what it has taken, unless it is silent.

`Parses` says what comes out where an expression is parsed. `Visits` says which expressions are tried
on the way, and which rules are in progress then, no matter whether the whole comes out well.
-/

namespace ControlFlow.Peg

/-- A place in a text: the number of characters before it and the characters behind it. -/
structure Cursor where
  offset : Nat
  rest : List Char
deriving DecidableEq

/-- A cursor stands in a text. -/
def Cursor.In (c : Cursor) (text : List Char) : Prop :=
  ∃ before, text = before ++ c.rest ∧ before.length = c.offset

/-- A cursor moves over characters that stand in front of it. -/
lemma Cursor.In.move {text : List Char} {i : Nat} {w r : List Char}
    (h : Cursor.In ⟨i, w ++ r⟩ text) : Cursor.In ⟨i + w.length, r⟩ text := by
  obtain ⟨before, rfl, length⟩ := h
  refine ⟨before ++ w, by rw [List.append_assoc], ?_⟩
  rw [List.length_append, length]

/-- The characters of a text from one offset up to another. -/
def slice (text : List Char) (i j : Nat) : List Char := (text.drop i).take (j - i)

lemma Cursor.In.slice_eq {text : List Char} {i : Nat} {w r : List Char}
    (h : Cursor.In ⟨i, w ++ r⟩ text) : slice text i (i + w.length) = w := by
  obtain ⟨before, rfl, rfl⟩ := h
  simp [slice]

/-- No character of a class stands in front of a text. -/
def Stops (p : Char → Bool) (s : List Char) : Prop := ∀ x ∈ s.head?, p x = false

@[simp] lemma stops_nil (p : Char → Bool) : Stops p [] := by simp [Stops]

variable {s : List Char}

@[simp] lemma stops_cons {p : Char → Bool} {x : Char} : Stops p (x :: s) ↔ p x = false := by
  simp [Stops]

lemma Stops.imp {p q : Char → Bool} (h : Stops p s) (sub : ∀ x, q x = true → p x = true) :
    Stops q s := by
  intro x hx
  by_contra hq
  have := h x hx
  rw [sub x (by simpa using hq)] at this
  cases this

lemma stops_dropWhile (p : Char → Bool) (s : List Char) : Stops p (s.dropWhile p) := by
  intro x hx
  have h := List.head?_dropWhile_not p s
  rw [Option.mem_def.1 hx] at h
  exact h

/-- Parsing expressions over a type of rules. -/
inductive Expr (R : Type) where
  /-- One character of a class. -/
  | one (p : Char → Bool)
  /-- The start of the text. -/
  | start
  /-- The end of the text. -/
  | finish
  | rule (r : R)
  | seq (first second : Expr R)
  | choice (first second : Expr R)
  | star (e : Expr R)
  | opt (e : Expr R)
  /-- Takes nothing, where an expression fails. -/
  | not (e : Expr R)

namespace Expr

variable {R : Type}

/-- Any character. -/
def any : Expr R := one fun _ => true

/-- A given character. -/
def char (c : Char) : Expr R := one (· = c)

/-- One or more. -/
def plus (e : Expr R) : Expr R := seq e (star e)

/-- An expression with `skip` between the parts of sequences and repetitions. -/
def spaced (skip : Expr R) : Expr R → Expr R
  | seq a b => seq (spaced skip a) (seq skip (spaced skip b))
  | choice a b => choice (spaced skip a) (spaced skip b)
  | star e => opt (seq (spaced skip e) (star (seq skip (spaced skip e))))
  | opt e => opt (spaced skip e)
  | not e => not (spaced skip e)
  | e => e

end Expr

/-- What a rule has taken: the offsets of its first character and of the one behind its last, and what
the rules inside of it have taken. -/
inductive Pair (R : Type) where
  | mk (rule : R) (start stop : Nat) (inner : List (Pair R))

/-- What a rule stands for. -/
structure Definition (R : Type) where
  body : Expr R
  /-- Whether the rule makes no pair. -/
  silent : Bool := false

/-- The pairs that a rule makes. -/
def Definition.pairs {R : Type} (d : Definition R) (r : R) (c c' : Cursor) (inner : List (Pair R)) :
    List (Pair R) :=
  if d.silent then inner else [.mk r c.offset c'.offset inner]

/-- The definitions of all rules. -/
abbrev Grammar (R : Type) : Type := R → Definition R

/-- What comes out: the pairs and the cursor behind what was taken, or a failure. -/
abbrev Outcome (R : Type) : Type := Option (List (Pair R) × Cursor)

variable {R : Type} (g : Grammar R)

/-- What comes out where an expression is parsed at a cursor. -/
inductive Parses : Expr R → Cursor → Outcome R → Prop where
  | one {p : Char → Bool} {i : Nat} {x : Char} {s : List Char} (h : p x = true) :
      Parses (.one p) ⟨i, x :: s⟩ (some ([], ⟨i + 1, s⟩))
  | one_fail {p : Char → Bool} {c : Cursor} (h : Stops p c.rest) : Parses (.one p) c none
  | start {s : List Char} : Parses .start ⟨0, s⟩ (some ([], ⟨0, s⟩))
  | start_fail {c : Cursor} (h : c.offset ≠ 0) : Parses .start c none
  | finish {i : Nat} : Parses .finish ⟨i, []⟩ (some ([], ⟨i, []⟩))
  | finish_fail {c : Cursor} (h : c.rest ≠ []) : Parses .finish c none
  | rule {r : R} {c c' : Cursor} {ps : List (Pair R)} (body : Parses (g r).body c (some (ps, c'))) :
      Parses (.rule r) c (some ((g r).pairs r c c' ps, c'))
  | rule_fail {r : R} {c : Cursor} (body : Parses (g r).body c none) : Parses (.rule r) c none
  | seq {a b : Expr R} {c c₁ c₂ : Cursor} {ps qs : List (Pair R)}
      (first : Parses a c (some (ps, c₁))) (second : Parses b c₁ (some (qs, c₂))) :
      Parses (.seq a b) c (some (ps ++ qs, c₂))
  | seq_first {a b : Expr R} {c : Cursor} (first : Parses a c none) : Parses (.seq a b) c none
  | seq_second {a b : Expr R} {c c₁ : Cursor} {ps : List (Pair R)}
      (first : Parses a c (some (ps, c₁))) (second : Parses b c₁ none) : Parses (.seq a b) c none
  | choice_first {a b : Expr R} {c c' : Cursor} {ps : List (Pair R)}
      (first : Parses a c (some (ps, c'))) : Parses (.choice a b) c (some (ps, c'))
  | choice_second {a b : Expr R} {c : Cursor} {o : Outcome R} (first : Parses a c none)
      (second : Parses b c o) : Parses (.choice a b) c o
  | star_done {e : Expr R} {c : Cursor} (fails : Parses e c none) :
      Parses (.star e) c (some ([], c))
  | star_more {e : Expr R} {c c₁ c₂ : Cursor} {ps qs : List (Pair R)}
      (first : Parses e c (some (ps, c₁))) (more : Parses (.star e) c₁ (some (qs, c₂))) :
      Parses (.star e) c (some (ps ++ qs, c₂))
  | opt_some {e : Expr R} {c c' : Cursor} {ps : List (Pair R)} (h : Parses e c (some (ps, c'))) :
      Parses (.opt e) c (some (ps, c'))
  | opt_none {e : Expr R} {c : Cursor} (fails : Parses e c none) : Parses (.opt e) c (some ([], c))
  | not_ok {e : Expr R} {c : Cursor} (fails : Parses e c none) : Parses (.not e) c (some ([], c))
  | not_fail {e : Expr R} {c c' : Cursor} {ps : List (Pair R)} (h : Parses e c (some (ps, c'))) :
      Parses (.not e) c none

variable {g} {e : Expr R} {c : Cursor}

/-- At most one thing comes out. -/
lemma Parses.unique {o o' : Outcome R} (h : Parses g e c o) (h' : Parses g e c o') : o = o' := by
  -- where the last rules differ, a part that both of them try comes out in two ways
  induction h generalizing o' with
  | one hp =>
    cases h' with
    | one => rfl
    | one_fail hf => simp [hp] at hf
  | one_fail hf =>
    cases h' with
    | one hp => simp [hp] at hf
    | one_fail => rfl
  | start =>
    cases h' with
    | start => rfl
    | start_fail h => exact absurd rfl h
  | start_fail hf =>
    cases h' with
    | start => exact absurd rfl hf
    | start_fail => rfl
  | finish =>
    cases h' with
    | finish => rfl
    | finish_fail h => exact absurd rfl h
  | finish_fail hf =>
    cases h' with
    | finish => exact absurd rfl hf
    | finish_fail => rfl
  | rule _ ih =>
    cases h' with
    | rule h =>
      cases ih h
      rfl
    | rule_fail h => cases ih h
  | rule_fail _ ih =>
    cases h' with
    | rule h => cases ih h
    | rule_fail => rfl
  | seq _ _ ih₁ ih₂ =>
    cases h' with
    | seq h₁ h₂ =>
      cases ih₁ h₁
      cases ih₂ h₂
      rfl
    | seq_first h => cases ih₁ h
    | seq_second h₁ h₂ =>
      cases ih₁ h₁
      cases ih₂ h₂
  | seq_first _ ih =>
    cases h' with
    | seq h _ => cases ih h
    | seq_first => rfl
    | seq_second h _ => cases ih h
  | seq_second _ _ ih₁ ih₂ =>
    cases h' with
    | seq h₁ h₂ =>
      cases ih₁ h₁
      cases ih₂ h₂
    | seq_first => rfl
    | seq_second => rfl
  | choice_first _ ih =>
    cases h' with
    | choice_first h => exact ih h
    | choice_second h _ => cases ih h
  | choice_second _ _ ih₁ ih₂ =>
    cases h' with
    | choice_first h => cases ih₁ h
    | choice_second _ h => exact ih₂ h
  | star_done _ ih =>
    cases h' with
    | star_done => rfl
    | star_more h _ => cases ih h
  | star_more _ _ ih₁ ih₂ =>
    cases h' with
    | star_done h => cases ih₁ h
    | star_more h₁ h₂ =>
      cases ih₁ h₁
      cases ih₂ h₂
      rfl
  | opt_some _ ih =>
    cases h' with
    | opt_some h => exact ih h
    | opt_none h => cases ih h
  | opt_none _ ih =>
    cases h' with
    | opt_some h => cases ih h
    | opt_none => rfl
  | not_ok _ ih =>
    cases h' with
    | not_ok => rfl
    | not_fail h => cases ih h
  | not_fail _ ih =>
    cases h' with
    | not_ok h => cases ih h
    | not_fail => rfl

/-- A rule that is not silent makes a pair. -/
lemma Parses.pair {r : R} {c' : Cursor} {ps : List (Pair R)} (loud : (g r).silent = false)
    (body : Parses g (g r).body c (some (ps, c'))) :
    Parses g (.rule r) c (some ([.mk r c.offset c'.offset ps], c')) := by
  have whole := Parses.rule body
  rwa [Definition.pairs, loud, if_neg Bool.false_ne_true] at whole

/-- A silent rule hands on the pairs of its body. -/
lemma Parses.silent {r : R} {o : Outcome R} (silent : (g r).silent = true)
    (body : Parses g (g r).body c o) : Parses g (.rule r) c o := by
  rcases o with _ | ⟨ps, c'⟩
  · exact .rule_fail body
  · have whole := Parses.rule body
    rwa [Definition.pairs, if_pos silent] at whole

/-! ## Single characters -/

variable (g) in
/-- An expression that takes one character of a class, and makes no pair. -/
structure Single (e : Expr R) (p : Char → Bool) : Prop where
  takes : ∀ {i : Nat} {x : Char} {s : List Char}, p x = true →
    Parses g e ⟨i, x :: s⟩ (some ([], ⟨i + 1, s⟩))
  fails : ∀ {c : Cursor}, Stops p c.rest → Parses g e c none

namespace Single

variable {a b : Expr R} {p q : Char → Bool}

lemma one (p : Char → Bool) : Single g (.one p) p := ⟨.one, .one_fail⟩

lemma congr (h : Single g a p) (same : ∀ x, p x = q x) : Single g a q where
  takes hx := h.takes ((same _).trans hx)
  fails hf := h.fails fun x hx => (same x).trans (hf x hx)

/-- A silent rule takes what its body takes. -/
lemma rule {r : R} (silent : (g r).silent = true) (h : Single g (g r).body p) :
    Single g (.rule r) p where
  takes hx := .silent silent (h.takes hx)
  fails hf := .rule_fail (h.fails hf)

lemma choice (ha : Single g a p) (hb : Single g b q) :
    Single g (.choice a b) fun x => p x || q x where
  takes {i x s} hx := by
    by_cases hp : p x = true
    · exact .choice_first (ha.takes hp)
    · refine .choice_second (ha.fails ?_) (hb.takes (by simpa [hp] using hx))
      simpa using hp
  fails hf := by
    refine .choice_second (ha.fails fun x hx => ?_) (hb.fails fun x hx => ?_)
    · exact (Bool.or_eq_false_iff.1 (hf x hx)).1
    · exact (Bool.or_eq_false_iff.1 (hf x hx)).2

/-- Any character at which a class fails. -/
lemma notAt (ha : Single g a p) : Single g (.seq (.not a) .any) fun x => !p x where
  takes {i x s} hx := by
    refine .seq (.not_ok (ha.fails ?_)) (.one rfl)
    simpa using hx
  fails {c} hf := by
    rcases c with ⟨i, _ | ⟨x, s⟩⟩
    · exact .seq_second (.not_ok (ha.fails (by simp))) (.one_fail (by simp))
    · exact .seq_first (.not_fail (ha.takes (by simpa using hf)))

/-- A repetition takes characters for as long as it can. -/
lemma star (h : Single g a p) (i : Nat) (s : List Char) :
    Parses g (.star a) ⟨i, s⟩ (some ([], ⟨i + (s.takeWhile p).length, s.dropWhile p⟩)) := by
  induction s generalizing i with
  | nil => exact .star_done (h.fails (by simp))
  | cons x s ih =>
    by_cases hx : p x = true
    · have more := ih (i + 1)
      rw [Nat.add_assoc, Nat.add_comm 1] at more
      simpa [hx] using Parses.star_more (h.takes hx) more
    · simpa [hx] using Parses.star_done (h.fails (c := ⟨i, x :: s⟩) (by simpa using hx))

lemma plus (h : Single g a p) (i : Nat) (some_char : s.takeWhile p ≠ []) :
    Parses g a.plus ⟨i, s⟩ (some ([], ⟨i + (s.takeWhile p).length, s.dropWhile p⟩)) := by
  cases s with
  | nil => simp at some_char
  | cons x s =>
    by_cases hx : p x = true
    · have more := h.star (i + 1) s
      rw [Nat.add_assoc, Nat.add_comm 1] at more
      simpa [hx, Expr.plus] using Parses.seq (h.takes hx) more
    · simp [hx] at some_char

lemma plus_fail (h : Single g a p) (hc : Stops p c.rest) : Parses g a.plus c none :=
  .seq_first (h.fails hc)

end Single

/-! ## What is tried on the way -/

variable (g) in
/-- While an expression is parsed at a cursor, another one is tried at another cursor, whatever comes
out. The rules that are in progress then are listed with the offsets at which they started, the
outermost one first. -/
inductive Visits : Expr R → Cursor → List (R × Nat) → Expr R → Cursor → Prop where
  | here {e : Expr R} {c : Cursor} : Visits e c [] e c
  | rule {r : R} {e' : Expr R} {c c' : Cursor} {fs : List (R × Nat)}
      (body : Visits (g r).body c fs e' c') : Visits (.rule r) c ((r, c.offset) :: fs) e' c'
  | seq_first {a b e' : Expr R} {c c' : Cursor} {fs : List (R × Nat)} (h : Visits a c fs e' c') :
      Visits (.seq a b) c fs e' c'
  | seq_second {a b e' : Expr R} {c c₁ c' : Cursor} {ps : List (Pair R)} {fs : List (R × Nat)}
      (first : Parses g a c (some (ps, c₁))) (h : Visits b c₁ fs e' c') :
      Visits (.seq a b) c fs e' c'
  | choice_first {a b e' : Expr R} {c c' : Cursor} {fs : List (R × Nat)} (h : Visits a c fs e' c') :
      Visits (.choice a b) c fs e' c'
  | choice_second {a b e' : Expr R} {c c' : Cursor} {fs : List (R × Nat)}
      (first : Parses g a c none) (h : Visits b c fs e' c') : Visits (.choice a b) c fs e' c'
  | star_first {e e' : Expr R} {c c' : Cursor} {fs : List (R × Nat)} (h : Visits e c fs e' c') :
      Visits (.star e) c fs e' c'
  | star_more {e e' : Expr R} {c c₁ c' : Cursor} {ps : List (Pair R)} {fs : List (R × Nat)}
      (first : Parses g e c (some (ps, c₁))) (h : Visits (.star e) c₁ fs e' c') :
      Visits (.star e) c fs e' c'
  | opt {e e' : Expr R} {c c' : Cursor} {fs : List (R × Nat)} (h : Visits e c fs e' c') :
      Visits (.opt e) c fs e' c'
  | not {e e' : Expr R} {c c' : Cursor} {fs : List (R × Nat)} (h : Visits e c fs e' c') :
      Visits (.not e) c fs e' c'

/-- All rules that stand in an expression are of a class. -/
def Expr.Within (P : R → Prop) : Expr R → Prop
  | .one _ | .start | .finish => True
  | .rule r => P r
  | .seq a b | .choice a b => a.Within P ∧ b.Within P
  | .star e | .opt e | .not e => e.Within P

/-- Only rules of a class are in progress if no definition of such a rule leaves the class. -/
lemma Visits.within {P : R → Prop} (closed : ∀ r, P r → (g r).body.Within P) {e' : Expr R}
    {c' : Cursor} {fs : List (R × Nat)} (h : Visits g e c fs e' c') (he : e.Within P) :
    ∀ f ∈ fs, P f.1 := by
  induction h with
  | here => simp
  | rule _ ih =>
    intro f hf
    rcases List.mem_cons.1 hf with rfl | hf
    · exact he
    · exact ih (closed _ he) f hf
  | seq_first _ ih => exact ih he.1
  | seq_second _ _ ih => exact ih he.2
  | choice_first _ ih => exact ih he.1
  | choice_second _ _ ih => exact ih he.2
  | star_first _ ih => exact ih he
  | star_more _ _ ih => exact ih he
  | opt _ ih => exact ih he
  | not _ ih => exact ih he

end ControlFlow.Peg
