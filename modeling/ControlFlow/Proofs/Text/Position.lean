import Mathlib.Data.Prod.Lex
import ControlFlow.Text.Position
/-!
# Positions behind characters

Positions are ordered by line and then by column. The position behind some characters comes after the
one before them.
-/

namespace ControlFlow.Position

/-- The position behind some characters. A line feed ends a line, and so does a carriage return with a
line feed behind it; any other character takes one column. -/
def behind (p : Position) : List Char → Position
  | [] => p
  | '\r' :: '\n' :: s => behind ⟨p.line + 1, 1⟩ s
  | '\n' :: s => behind ⟨p.line + 1, 1⟩ s
  | _ :: s => behind ⟨p.line, p.column + 1⟩ s

@[simp] lemma behind_nil (p : Position) : p.behind [] = p := rfl

/-- Positions go on one character at a time, since a carriage return takes a column that the line feed
behind it takes back. -/
lemma behind_cons (p : Position) (x : Char) (s : List Char) :
    p.behind (x :: s) = (p.advance x).behind s := by
  by_cases feed : x = '\n'
  · subst feed
    simp [behind, advance]
  · by_cases crlf : x = '\r' ∧ s.head? = some '\n'
    · obtain ⟨rfl, hs⟩ := crlf
      obtain ⟨s, rfl⟩ := List.head?_eq_some_iff.1 hs
      simp [behind, advance]
    · rw [behind, advance, if_neg feed]
      · intro s' hx hs
        exact crlf ⟨hx, by rw [hs]; rfl⟩
      · exact feed

lemma behind_append (p : Position) (w s : List Char) :
    p.behind (w ++ s) = (p.behind w).behind s := by
  induction w generalizing p with
  | nil => rfl
  | cons x w ih => rw [List.cons_append, behind_cons, ih, behind_cons]

/-! ## The order of positions -/

/-- The line and the column as a pair. -/
def key (p : Position) : ℕ ×ₗ ℕ := toLex (p.line, p.column)

lemma key_injective : Function.Injective key := by
  rintro ⟨l, c⟩ ⟨l', c'⟩ h
  obtain ⟨rfl, rfl⟩ := Prod.mk.inj (toLex.injective h)
  rfl

instance : LinearOrder Position := LinearOrder.lift' key key_injective

lemma lt_iff_before {p q : Position} : p < q ↔ p.Before q := Prod.Lex.toLex_lt_toLex

lemma lt_advance (p : Position) (x : Char) : p < p.advance x := by
  rw [lt_iff_before, advance, Before]
  split
  · exact Or.inl (Nat.lt_succ_self _)
  · exact Or.inr ⟨rfl, Nat.lt_succ_self _⟩

lemma le_behind (p : Position) (s : List Char) : p ≤ p.behind s := by
  induction s generalizing p with
  | nil => exact le_rfl
  | cons x s ih =>
    rw [behind_cons]
    exact (p.lt_advance x).le.trans (ih _)

lemma lt_behind (p : Position) {s : List Char} (some_char : s ≠ []) : p < p.behind s := by
  obtain ⟨x, t, rfl⟩ := List.exists_cons_of_ne_nil some_char
  rw [behind_cons]
  exact (p.lt_advance x).trans_le (le_behind _ t)

end ControlFlow.Position
