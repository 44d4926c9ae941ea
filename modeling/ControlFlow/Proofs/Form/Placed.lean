import ControlFlow.Form.Bracket
import ControlFlow.Proofs.Text.Position
/-!
# Places of forms

The tokens of a text stand one behind the other. So do the forms of a text, and the forms of a list
stand between its brackets. Two forms of a text that start at the same position are the same.
-/

namespace ControlFlow

/-- Tokens one behind the other, from a position on. -/
def Token.Ordered : Position → List Token → Prop
  | _, [] => True
  | p, t :: ts => p ≤ t.extent.start ∧ t.extent.start < t.extent.stop ∧ Ordered t.extent.stop ts

lemma Token.Ordered.mono {p q : Position} {ts : List Token} (le : p ≤ q) (h : Token.Ordered q ts) :
    Token.Ordered p ts := by
  cases ts with
  | nil => trivial
  | cons t ts => exact ⟨le.trans h.1, h.2⟩

namespace Form

/-! ## Forms inside of forms -/

/-- The forms in a list. -/
def items : Form → List Form
  | .atom _ _ => []
  | .list _ items => items

/-- Induction over forms: a property holds of a form if it holds of all forms in it. -/
lemma induction_items {P : Form → Prop} (step : ∀ f, (∀ g ∈ f.items, P g) → P f) (f : Form) :
    P f := by
  induction h : sizeOf f using Nat.strongRecOn generalizing f with
  | _ k ih =>
    subst h
    refine step f fun g hg => ih (sizeOf g) ?_ g rfl
    cases f with
    | atom e a => cases hg
    | list e items =>
      have smaller : sizeOf g < sizeOf items := List.sizeOf_lt_of_mem hg
      rw [list.sizeOf_spec]
      omega

/-- A form that lies inside of another. -/
inductive Holds : Form → Form → Prop where
  | item {f g : Form} (mem : g ∈ f.items) : Holds f g
  | inner {f g h : Form} (mem : g ∈ f.items) (below : Holds g h) : Holds f h

variable {g f : Form}

lemma Holds.trans {h : Form} (outer : f.Holds g) (inner : g.Holds h) : f.Holds h := by
  induction outer with
  | item mem => exact .inner mem inner
  | inner mem _ ih => exact .inner mem (ih inner)

/-- A form that is one of some forms or lies inside of one of them. -/
def Among (fs : List Form) (g : Form) : Prop := g ∈ fs ∨ ∃ f ∈ fs, f.Holds g

lemma holds_iff : f.Holds g ↔ Among f.items g := by
  constructor
  · rintro (mem | ⟨mem, below⟩)
    · exact Or.inl mem
    · exact Or.inr ⟨_, mem, below⟩
  · rintro (mem | ⟨h, mem, below⟩)
    · exact .item mem
    · exact .inner mem below

lemma among_cons {fs : List Form} : Among (f :: fs) g ↔ g = f ∨ Among f.items g ∨ Among fs g := by
  rw [← holds_iff]
  simp only [Among, List.mem_cons, exists_eq_or_imp]
  tauto

lemma not_among_nil (g : Form) : ¬ Among [] g := by
  rintro (mem | ⟨_, mem, -⟩) <;> cases mem

/-! ## Places -/

/-- Forms one behind the other between two positions, and the forms of each list between its
brackets. -/
inductive Placed : Position → List Form → Position → Prop where
  | nil {p : Position} : Placed p [] p
  | atom {p q : Position} {e : Extent} {a : Atom} {fs : List Form} (before : p ≤ e.start)
      (own : e.start < e.stop) (behind : Placed e.stop fs q) : Placed p (.atom e a :: fs) q
  | list {p q r r' : Position} {e : Extent} {items fs : List Form} (before : p ≤ e.start)
      (opens : e.start < r) (inside : Placed r items r') (closes : r' < e.stop)
      (behind : Placed e.stop fs q) : Placed p (.list e items :: fs) q

lemma placed_atom {t : Token} {ts : List Token} {a : Atom} {fs : List Form}
    (h : ∀ p rest, Token.Ordered p (ts ++ rest) → ∃ q, Placed p fs q ∧ Token.Ordered q rest)
    (p : Position) (rest : List Token) (ordered : Token.Ordered p (t :: ts ++ rest)) :
    ∃ q, Placed p (.atom t.extent a :: fs) q ∧ Token.Ordered q rest := by
  obtain ⟨before, own, ordered⟩ := ordered
  obtain ⟨q, behind, ordered⟩ := h _ _ ordered
  exact ⟨q, .atom before own behind, ordered⟩

variable {p q : Position} {fs : List Form}

variable (h : Placed p fs q)

include h

lemma Placed.le : p ≤ q := by
  induction h with
  | nil => exact le_rfl
  | atom before own _ ih => exact before.trans (own.le.trans ih)
  | list before opens _ closes _ ih₁ ih₂ =>
    exact before.trans (opens.le.trans (ih₁.trans (closes.le.trans ih₂)))

/-- The place of a form lies between the positions that all of them lie between. -/
lemma Placed.within (hg : Among fs g) :
    p ≤ g.extent.start ∧ g.extent.start < g.extent.stop ∧ g.extent.stop ≤ q := by
  induction h with
  | nil => exact absurd hg (not_among_nil g)
  | @atom p q e a fs before own behind ih =>
    rcases among_cons.1 hg with rfl | hg | hg
    · exact ⟨before, own, behind.le⟩
    · exact absurd hg (not_among_nil g)
    · obtain ⟨start, lt, stop⟩ := ih hg
      exact ⟨before.trans (own.le.trans start), lt, stop⟩
  | @list p q r r' e items fs before opens inside closes behind ih₁ ih₂ =>
    have whole : e.start < e.stop := opens.trans_le (inside.le.trans closes.le)
    rcases among_cons.1 hg with rfl | hg | hg
    · exact ⟨before, whole, behind.le⟩
    · obtain ⟨start, lt, stop⟩ := ih₁ hg
      exact ⟨before.trans (opens.le.trans start), lt, stop.trans (closes.le.trans behind.le)⟩
    · obtain ⟨start, lt, stop⟩ := ih₂ hg
      exact ⟨before.trans (whole.le.trans start), lt, stop⟩

/-- A form that ends before another starts. -/
def Precedes (f g : Form) : Prop := f.extent.stop ≤ g.extent.start

/-- Forms one behind the other end before the next ones start. -/
lemma Placed.pairwise : fs.Pairwise Precedes := by
  induction h with
  | nil => exact .nil
  | atom _ _ behind ih =>
    exact .cons (fun g hg => (behind.within (Or.inl hg)).1) ih
  | list _ _ _ _ behind _ ih =>
    exact .cons (fun g hg => (behind.within (Or.inl hg)).1) ih

/-- The forms in a list stand one behind the other inside of the list. -/
lemma Placed.inside (hf : Among fs f) :
    ∃ r r', f.extent.start ≤ r ∧ Placed r f.items r' ∧ r' ≤ f.extent.stop := by
  induction h with
  | nil => exact absurd hf (not_among_nil f)
  | atom before own behind ih =>
    rcases among_cons.1 hf with rfl | hf | hf
    · exact ⟨_, _, le_rfl, .nil, own.le⟩
    · exact absurd hf (not_among_nil f)
    · exact ih hf
  | list before opens inside closes behind ih₁ ih₂ =>
    rcases among_cons.1 hf with rfl | hf | hf
    · exact ⟨_, _, opens.le, inside, closes.le⟩
    · exact ih₁ hf
    · exact ih₂ hf

/-- The place of a form lies inside of the places of the lists around it. -/
lemma Placed.nested (hf : Among fs f) (hg : f.Holds g) :
    f.extent.start ≤ g.extent.start ∧ g.extent.stop ≤ f.extent.stop := by
  obtain ⟨r, r', opens, inside, closes⟩ := h.inside hf
  obtain ⟨start, -, stop⟩ := inside.within (holds_iff.1 hg)
  exact ⟨opens.trans start, stop.trans closes⟩

/-- A form is known by the position at which it starts. -/
lemma Placed.unique {g' : Form} (hg : Among fs g) (hg' : Among fs g')
    (same : g.extent.start = g'.extent.start) : g = g' := by
  induction h with
  | nil => exact absurd hg (not_among_nil g)
  | @atom p q e a fs before own behind ih =>
    -- what stands behind the atom starts behind it
    have later : ∀ {h}, Among fs h → e.start < h.extent.start :=
      fun hh => own.trans_le (behind.within hh).1
    rcases among_cons.1 hg with rfl | hg | hg <;> rcases among_cons.1 hg' with rfl | hg' | hg'
    · rfl
    · exact absurd hg' (not_among_nil g')
    · exact absurd same (later hg').ne
    · exact absurd hg (not_among_nil g)
    · exact absurd hg (not_among_nil g)
    · exact absurd hg (not_among_nil g)
    · exact absurd same.symm (later hg).ne
    · exact absurd hg' (not_among_nil g')
    · exact ih hg hg'
  | @list p q r r' e items fs before opens inside closes behind ih₁ ih₂ =>
    -- what is in the list starts behind its bracket, and what is not starts behind the list
    have inner : ∀ {h}, Among items h → e.start < h.extent.start ∧ h.extent.start < e.stop := by
      intro h hh
      obtain ⟨start, lt, stop⟩ := inside.within hh
      exact ⟨opens.trans_le start, lt.trans (stop.trans_lt closes)⟩
    have later : ∀ {h}, Among fs h → e.stop ≤ h.extent.start := fun hh => (behind.within hh).1
    have whole : e.start < e.stop := opens.trans_le (inside.le.trans closes.le)
    rcases among_cons.1 hg with rfl | hg | hg <;> rcases among_cons.1 hg' with rfl | hg' | hg'
    · rfl
    · exact absurd same (inner hg').1.ne
    · exact absurd same (whole.trans_le (later hg')).ne
    · exact absurd same.symm (inner hg).1.ne
    · exact ih₁ hg hg'
    · exact absurd same ((inner hg).2.trans_le (later hg')).ne
    · exact absurd same.symm (whole.trans_le (later hg)).ne
    · exact absurd same.symm ((inner hg').2.trans_le (later hg)).ne
    · exact ih₂ hg hg'

end Form

end ControlFlow
