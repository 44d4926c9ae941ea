import Mathlib.Data.List.Forall2
import ControlFlow.Reading.Expression
/-!
# Readers that succeed

What a reader does when it succeeds, and when it does, said without its monad: one rule for each way to
put readers together, and one for each way to end.
-/

namespace ControlFlow

variable {α β : Type}

/-- A reader that gives `a`, with `k` nodes made before it and `k'` after. -/
def Reader.Gets (x : Reader α) (k : Nat) (a : α) (k' : Nat) : Prop := x.run k = .ok (a, k')

/-- A reader that succeeds, whatever was read before, with something of which `P` holds. -/
def Reader.Gives (x : Reader α) (P : α → Prop) : Prop := ∀ k, ∃ a k', x.Gets k a k' ∧ P a

/-- What is known about a node that was read. -/
def Setting.info (s : Setting) (e : Extent) (binding : Option Binding) (id : Nat) : Info :=
  ⟨id, some (Location.ofPosition s.file e.start), some (e.span s.file), binding, some s.scope⟩

namespace Reading

open Reader

variable {s : Setting} {e : Extent} {k k' : Nat} {f : α → Reader β} {a : α} {x : Reader α}
  {binding : Option Binding}

lemma gets_pure {b : α} : Gets (pure a) k b k' ↔ b = a ∧ k' = k := by
  simp only [Gets, StateT.run_pure]
  constructor
  · rintro ⟨⟩
    exact ⟨rfl, rfl⟩
  · rintro ⟨rfl, rfl⟩
    rfl

lemma gets_bind {b : β} : Gets (x >>= f) k b k' ↔ ∃ a j, x.Gets k a j ∧ (f a).Gets j b k' := by
  simp only [Gets, StateT.run_bind]
  cases x.run k with
  | error err =>
    constructor
    · intro h
      cases h
    · rintro ⟨a, j, h, -⟩
      cases h
  | ok r =>
    constructor
    · exact fun h => ⟨r.1, r.2, rfl, h⟩
    · rintro ⟨a, j, h, h'⟩
      cases h
      exact h'

lemma gets_bind_bind {γ : Type} {c : γ} {g : α → β → Reader γ}
    (h : Gets (x >>= fun a => f a >>= g a) k c k') :
    ∃ a j, x.Gets k a j ∧ ∃ b j', (f a).Gets j b j' ∧ (g a b).Gets j' c k' := by
  simpa only [gets_bind] using h

lemma run'_eq_ok : x.run' k = .ok a ↔ ∃ k', x.Gets k a k' := by
  rw [StateT.run'_eq]
  cases hr : x.run k with
  | error err =>
    constructor
    · intro h
      cases h
    · rintro ⟨k', h⟩
      rw [Gets, hr] at h
      cases h
  | ok r =>
    constructor
    · intro h
      cases h
      exact ⟨r.2, hr⟩
    · rintro ⟨k', h⟩
      rw [Gets, hr] at h
      cases h
      rfl

@[simp] lemma gets_failAt {fault : ReadFault} : ¬ Gets (failAt s e fault) k a k' := by
  intro h
  cases h

@[simp] lemma gets_failArity {tag : String} {arity : Arity} {args : List Form} :
    ¬ Gets (failArity s e tag arity args) k a k' := gets_failAt

lemma gets_make {kind : Kind Node} {n : Node} :
    Gets (make s e kind binding) k n k' ↔ n = .mk (s.info e binding (k + 1)) kind ∧ k' = k + 1 := by
  constructor
  · intro h
    cases h
    exact ⟨rfl, rfl⟩
  · rintro ⟨rfl, rfl⟩
    rfl

/-- A list that is read item by item. -/
lemma gets_mapM {as : List α} {bs : List β} (h : (as.mapM f).Gets k bs k') :
    List.Forall₂ (fun a b => ∃ j j', (f a).Gets j b j') as bs := by
  induction as generalizing k k' bs with
  | nil =>
    rw [List.mapM_nil, gets_pure] at h
    rw [h.1]
    exact .nil
  | cons a as ih =>
    simp only [List.mapM_cons, gets_bind, gets_pure] at h
    obtain ⟨b, j, head, bs', j', tail, rfl, -⟩ := h
    exact .cons ⟨_, _, head⟩ (ih tail)

/-! ## Readers of lists -/

lemma expressions_eq_mapM (fs : List Form) : expressions s fs = fs.mapM (expression s) := by
  induction fs with
  | nil => rfl
  | cons f fs ih => rw [expressions, ih, List.mapM_cons]

lemma targets_eq_mapM (fs : List Form) : targets s fs = fs.mapM (target s) := by
  induction fs with
  | nil => rfl
  | cons f fs ih => rw [targets, ih, List.mapM_cons]

lemma parts_eq_mapM (fs : List Form) : parts s fs = fs.mapM fun f =>
    match f.text? with
    | some t => make s f.extent (.content t)
    | none => expression s f := by
  induction fs with
  | nil => rfl
  | cons f fs ih =>
    rw [parts, ih, List.mapM_cons]
    cases f.text? <;> rfl

/-! ## Readers that always succeed -/

variable {P : α → Prop} {Q : β → Prop}

lemma gives_pure (h : P a) : Gives (pure a) P := fun k => ⟨a, k, rfl, h⟩

lemma gives_bind (hx : x.Gives P) (hf : ∀ a, P a → (f a).Gives Q) : (x >>= f).Gives Q := by
  intro k
  obtain ⟨a, j, hx, ha⟩ := hx k
  obtain ⟨b, k', hf, hb⟩ := hf a ha j
  exact ⟨b, k', gets_bind.2 ⟨a, j, hx, hf⟩, hb⟩

lemma gives_then (hx : x.Gives (· = a)) (hf : (f a).Gives Q) : (x >>= f).Gives Q :=
  gives_bind hx fun _ h => h ▸ hf

lemma gives_mapM {δ : Type} {R : δ → β → Prop} {as : List α} {ds : List δ}
    (h : List.Forall₂ (fun a d => (f a).Gives (R d)) as ds) :
    (as.mapM f).Gives (List.Forall₂ R ds) := by
  induction h with
  | nil => exact gives_pure .nil
  | cons head _ ih =>
    rw [List.mapM_cons]
    exact gives_bind head fun b hb => gives_bind ih fun bs hbs => gives_pure (.cons hb hbs)

lemma gives_make {kind : Kind Node} {P : Node → Prop} (h : ∀ id, P (.mk (s.info e binding id) kind)) :
    Gives (make s e kind binding) P :=
  fun k => ⟨_, _, gets_make.2 ⟨rfl, rfl⟩, h (k + 1)⟩

end Reading

end ControlFlow
