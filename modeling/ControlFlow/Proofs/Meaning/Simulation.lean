import Mathlib.Data.Set.Insert
import ControlFlow.Proofs.Code.Plan
import ControlFlow.Proofs.Code.Runs
import ControlFlow.Proofs.Meaning.World
/-!
# Code that does what an evaluation does

A graph is run by a machine that keeps the world and the values of temporaries. `Sim` says that all
code which a plan allows does what an evaluation does: it gets to the same world in the same way, and
the temporaries hold what the evaluation has come out with.

What is known about temporaries is a set of `Facts`. Code may write temporaries that it takes itself
and those that it is given as destinations; all other facts stay true.
-/

namespace ControlFlow.Meaning

/-! ## The machine -/

/-- The state of the machine. -/
structure State where
  world : World
  temps : Binding → Value

namespace State

/-- The value of a binding. -/
def lookup (s : State) (b : Binding) : Value :=
  if h : b.kind ≠ .temporary then s.world.vars ⟨b, h⟩ else s.temps b

/-- Assigns to a binding. -/
def store (s : State) (b : Binding) (v : Value) : State :=
  if h : b.kind ≠ .temporary then
    { s with world := { s.world with vars := Function.update s.world.vars ⟨b, h⟩ v } }
  else { s with temps := Function.update s.temps b v }

/-- The call that an instruction makes. -/
def callOf (s : State) (callee : ControlFlow.Callee) (args : ControlFlow.Arguments)
    (block : BlockOperand) : Call where
  callee :=
    match callee with
    | .method receiver name => .method (s.lookup receiver) name
    | .super => .super
  args :=
    match args with
    | .positional bs => .positional (bs.map s.lookup)
    | .vararg array => .vararg (s.lookup array)
  block :=
    match block with
    | .value b => some (s.lookup b)
    | _ => none

/-- Assigns to a binding, if there is one. -/
def deliver (s : State) (dest : Option Binding) (v : Value) : State :=
  match dest with
  | some d => s.store d v
  | none => s

end State

/-- The machine whose calls an oracle answers. A branch takes its first way if its condition is
neither `nil` nor `false`. Block literals are not covered, so there is no way where a branch has no
condition. -/
def calling (oracle : Oracle) : Machine State where
  act i s :=
    match i with
    | .assign d (.binding b) => s.store d (s.lookup b)
    | .assign d (.constant c) => s.store d (.constant c)
    | .send dest callee args block =>
      let answer := s.world.call oracle (s.callOf callee args block)
      { s with world := answer.2 }.deliver dest answer.1
    | .ret b => { s with world := { s.world with returned := some (s.lookup b) } }
    | _ => s
  takes c s way :=
    match c with
    | some b => way = (s.lookup b).truthy
    | none => False

lemma deterministic_calling (oracle : Oracle) : (calling oracle).Deterministic := by
  intro c s way way' h h'
  cases c with
  | none => exact h.elim
  | some b => exact h.trans h'.symm

/-! ## Facts about temporaries -/

lemma digitChar_inj : ∀ i < 10, ∀ j < 10, Nat.digitChar i = Nat.digitChar j → i = j := by decide

/-- Numbers with the same digits are the same. -/
lemma toDigits_inj {i j : Nat} (h : Nat.toDigits 10 i = Nat.toDigits 10 j) : i = j := by
  have some (n : Nat) : 0 < (Nat.toDigits 10 n).length := List.length_pos_iff.2 Nat.toDigits_ne_nil
  induction i using Nat.strongRecOn generalizing j with
  | _ i ih =>
    rcases Nat.lt_or_ge i 10 with hi | hi <;> rcases Nat.lt_or_ge j 10 with hj | hj
    · rw [Nat.toDigits_of_lt_base hi, Nat.toDigits_of_lt_base hj] at h
      exact digitChar_inj i hi j hj (List.singleton_inj.1 h)
    · rw [Nat.toDigits_of_lt_base hi, Nat.toDigits_of_base_le (by decide) hj] at h
      have length := congrArg List.length h
      have := some (j / 10)
      simp only [List.length_append, List.length_singleton] at length
      omega
    · rw [Nat.toDigits_of_base_le (by decide) hi, Nat.toDigits_of_lt_base hj] at h
      have length := congrArg List.length h
      have := some (i / 10)
      simp only [List.length_append, List.length_singleton] at length
      omega
    · rw [Nat.toDigits_of_base_le (by decide) hi, Nat.toDigits_of_base_le (by decide) hj] at h
      obtain ⟨front, last⟩ := List.append_inj' h rfl
      have front := ih (i / 10) (by omega) front
      have last := digitChar_inj _ (Nat.mod_lt _ (by decide)) _ (Nat.mod_lt _ (by decide))
        (List.singleton_inj.1 last)
      omega

/-- Temporaries are named by their number. -/
lemma temporary_injective : Function.Injective Binding.temporary := by
  intro i j h
  have name : s!"%t{i}" = s!"%t{j}" := congrArg Binding.name h
  have digits : i.repr = j.repr := by simpa [toString] using name
  rw [Nat.repr_eq_ofList_toDigits, Nat.repr_eq_ofList_toDigits] at digits
  exact toDigits_inj (String.ofList_injective digits)

/-- Values that temporaries hold. -/
abbrev Facts : Type := Set (Binding × Value)

variable {s : State} {Γ' : Facts}

namespace Facts

/-- The temporaries hold the values. -/
def On (Γ : Facts) (s : State) : Prop := ∀ f ∈ Γ, s.temps f.1 = f.2

/-- The facts are about temporaries that have been taken. -/
def Below (Γ : Facts) (t : Nat) : Prop := ∀ f ∈ Γ, ∃ i < t, f.1 = .temporary i

/-- A temporary that has been taken and that nothing is known about. -/
def Free (Γ : Facts) (t : Nat) (d : Binding) : Prop :=
  (∃ i < t, d = .temporary i) ∧ ∀ v, (d, v) ∉ Γ

/-- The result of a construct holds a value. -/
def of (result : Option Binding) (v : Value) : Facts := {f | result = some f.1 ∧ f.2 = v}

variable {Γ : Facts} {t : Nat}

lemma Below.mono {t' : Nat} (h : Γ.Below t) (ht : t ≤ t') : Γ.Below t' := fun f hf =>
  let ⟨i, hi, hb⟩ := h f hf
  ⟨i, hi.trans_le ht, hb⟩

lemma On.mono (h : Γ'.On s) (hs : Γ ⊆ Γ') : Γ.On s :=
  fun f hf => h f (hs hf)

lemma On.lookup (h : Γ.On s) (ht : Γ.Below t) {b : Binding} {v : Value} (hb : (b, v) ∈ Γ) :
    s.lookup b = v := by
  obtain ⟨i, -, rfl⟩ := ht _ hb
  exact h _ hb

/-- A temporary that is written is one that nothing was known about. -/
lemma On.store (h : Γ.On s) {d : Binding} (hd : Γ.Free t d) (v : Value) :
    (insert (d, v) Γ).On (s.store d v) := by
  obtain ⟨⟨i, -, rfl⟩, free⟩ := hd
  rintro ⟨b, v'⟩ (hf | hf)
  · cases hf
    exact Function.update_self ..
  · refine (Function.update_of_ne ?_ ..).trans (h _ hf)
    rintro rfl
    exact free v' hf

@[simp] lemma of_none (v : Value) : of none v = ∅ := by
  ext
  simp [of]

@[simp] lemma of_some (d : Binding) (v : Value) : of (some d) v = {(d, v)} := by
  ext ⟨b, v'⟩
  simp [of, eq_comm]

end Facts

/-- A temporary that has been written leaves the world as it is. -/
@[simp] lemma State.world_store_temporary (s : State) (i : Nat) (v : Value) :
    (s.store (.temporary i) v).world = s.world := rfl

/-- A variable that has been written leaves the temporaries as they are. -/
lemma State.store_variable (s : State) {b : Binding} (hb : b.kind ≠ .temporary) (v : Value) :
    s.store b v = { s with
      world := { s.world with vars := Function.update s.world.vars ⟨b, hb⟩ v } } :=
  dif_pos hb

lemma State.lookup_variable (s : State) {b : Binding} (hb : b.kind ≠ .temporary) :
    s.lookup b = s.world.vars ⟨b, hb⟩ :=
  dif_pos hb

/-! ## Runs that follow an evaluation -/

/-- Runs end as an evaluation does: where it is done they end as `last` says, with `post` true. Jumps
are of the kinds in `K`, and the facts in `Γ` are still true behind them. -/
def Ends {β : Type} (runs : Outcome → State → Prop) (K : Set JumpKind) (Γ : Facts)
    (last : β → Outcome) (post : β → State → Prop) : Result β × World → Prop
  | (.done b, w) => ∃ s, runs (last b) s ∧ s.world = w ∧ post b s
  | (.jump kind, w) => ∃ s, runs (.jump kind) s ∧ s.world = w ∧ kind ∈ K ∧ Γ.On s
  | (.cut, w) => ∃ s, runs .cut s ∧ s.world = w
  | (.wrong, _) => False

namespace Ends

variable {β γ : Type} {runs runs' : Outcome → State → Prop} {K : Set JumpKind} {Γ : Facts}
  {last : β → Outcome} {last' : γ → Outcome} {post : β → State → Prop} {post' : γ → State → Prop}
  {r : Result β × World} {e : Eval β} {g : β → Eval γ} {w : World}

/-- Runs that are followed by others where they are done. -/
lemma bind (h : Ends runs K Γ last post (e w))
    (done : ∀ b s, runs (last b) s → post b s → Ends runs' K Γ last' post' (g b s.world))
    (escapes : ∀ o s, o.Escapes → runs o s → runs' o s) :
    Ends runs' K Γ last' post' ((e >>= g) w) := by
  rw [Eval.bind_apply]
  generalize e w = r at h ⊢
  rcases r with ⟨_ | kind | _ | _, w'⟩
  · obtain ⟨s, hs, rfl, hp⟩ := h
    exact done _ s hs hp
  · obtain ⟨s, hs, hw, hk⟩ := h
    exact ⟨s, escapes _ s trivial hs, hw, hk⟩
  · obtain ⟨s, hs, hw⟩ := h
    exact ⟨s, escapes _ s trivial hs, hw⟩
  · exact h

/-- Runs of another relation that end in the same way. -/
lemma imp {last' : β → Outcome} {post' : β → State → Prop} {K' : Set JumpKind}
    (h : Ends runs K Γ last post r)
    (done : ∀ b s, runs (last b) s → post b s → runs' (last' b) s ∧ post' b s)
    (jump : ∀ kind s, runs (.jump kind) s → kind ∈ K → Γ.On s →
      runs' (.jump kind) s ∧ kind ∈ K' ∧ Γ'.On s)
    (cut : ∀ s, runs .cut s → runs' .cut s) : Ends runs' K' Γ' last' post' r := by
  rcases r with ⟨_ | kind | _ | _, w'⟩
  · obtain ⟨s, hs, hw, hp⟩ := h
    obtain ⟨hs, hp⟩ := done _ s hs hp
    exact ⟨s, hs, hw, hp⟩
  · obtain ⟨s, hs, hw, hk, hΓ⟩ := h
    obtain ⟨hs, hk, hΓ⟩ := jump kind s hs hk hΓ
    exact ⟨s, hs, hw, hk, hΓ⟩
  · obtain ⟨s, hs, hw⟩ := h
    exact ⟨s, cut s hs, hw⟩
  · exact h

/-- Longer runs, which do no more. -/
lemma widen {last' : β → Outcome} (h : Ends runs K Γ last post r)
    (done : ∀ b s, runs (last b) s → runs' (last' b) s)
    (escapes : ∀ o s, o.Escapes → runs o s → runs' o s) : Ends runs' K Γ last' post r :=
  h.imp (fun b s run post => ⟨done b s run, post⟩)
    (fun _ s run hk on => ⟨escapes _ s trivial run, hk, on⟩) fun s run => escapes _ s trivial run

lemma within (h : Ends runs K Γ last post r) (longer : ∀ o s, runs o s → runs' o s) :
    Ends runs' K Γ last post r :=
  h.widen (fun b => longer (last b)) fun o s _ => longer o s

end Ends

/-- New facts: they are about temporaries that are taken from `t` on, or about destinations. -/
def Facts.New (out Δ : Facts) (D : Set Binding) (t t' : Nat) : Prop :=
  ∀ f ∈ out, f ∈ Δ ∨ f.1 ∈ D ∨ ∃ i, t ≤ i ∧ i < t' ∧ f.1 = .temporary i

/-- All code that the plan allows does what the evaluation does, and ends as `last` says where the
evaluation is done. Whatever else is known, facts stay true, and those in `out` become true. Besides
temporaries that it takes, the code writes only those in `D`. -/
structure SimTo (oracle : Oracle) (fuel : Nat) {α β : Type} (last : β → Outcome) (Γ : Facts)
    (D : Set Binding) (p : Plan α) (e : Eval β) (out : α → β → Facts) : Prop where
  counts : ∀ ⦃K t a c t'⦄, p K t a c t' → t ≤ t'
  runs : ∀ ⦃Δ : Facts⦄ ⦃K t a c t'⦄, Γ ⊆ Δ → p K t a c t' → Δ.Below t → (∀ d ∈ D, Δ.Free t d) →
    ∀ s, Δ.On s → Ends (c.Runs (calling oracle) fuel s) K Δ last
      (fun b s' => (out a b).New Δ D t t' ∧ (Δ ∪ out a b).On s') (e s.world)

/-- All code that the plan allows does what the evaluation does. -/
abbrev Sim (oracle : Oracle) (fuel : Nat) {α β : Type} (Γ : Facts) (D : Set Binding) (p : Plan α)
    (e : Eval β) (out : α → β → Facts) : Prop :=
  SimTo oracle fuel (fun _ => .done) Γ D p e out

namespace Facts

variable {Γ Δ out : Facts} {D D' : Set Binding} {t t₁ t₂ t' : Nat}

lemma New.mono (h : out.New Γ D t₁ t₂)
    (hΓ : ∀ f ∈ Γ, f ∈ Δ ∨ f.1 ∈ D' ∨ ∃ i, t ≤ i ∧ i < t' ∧ f.1 = .temporary i) (hD : D ⊆ D')
    (h₁ : t ≤ t₁) (h₂ : t₂ ≤ t') : out.New Δ D' t t' := by
  intro f hf
  rcases h f hf with hf | hf | ⟨i, hi, hi', hf⟩
  · exact hΓ f hf
  · exact Or.inr (Or.inl (hD hf))
  · exact Or.inr (Or.inr ⟨i, h₁.trans hi, hi'.trans_le h₂, hf⟩)

lemma New.old (h : out ⊆ Δ) : out.New Δ D t t' := fun _ hf => Or.inl (h hf)

/-- Old and new facts together are about temporaries that have been taken. -/
lemma New.below (h : out.New Δ D t t') (below : Δ.Below t) (free : ∀ d ∈ D, Δ.Free t d)
    (next : t ≤ t') : (Δ ∪ out).Below t' := by
  rintro f (hf | hf)
  · exact below.mono next f hf
  · rcases h f hf with hf | hf | ⟨i, -, hi, hf⟩
    · exact below.mono next f hf
    · obtain ⟨i, hi, hd⟩ := (free _ hf).1
      exact ⟨i, hi.trans_le next, hd⟩
    · exact ⟨i, hi, hf⟩

/-- Other destinations stay free. -/
lemma New.free (h : out.New Δ D t t') (next : t ≤ t') {d : Binding} (hd : d ∉ D)
    (free : Δ.Free t d) : (Δ ∪ out).Free t' d := by
  obtain ⟨⟨i, hi, rfl⟩, free⟩ := free
  refine ⟨⟨i, hi.trans_le next, rfl⟩, ?_⟩
  rintro v (hf | hf)
  · exact free v hf
  · rcases h _ hf with hf | hf | ⟨j, hj, -, hf⟩
    · exact free v hf
    · exact hd hf
    · exact absurd (temporary_injective hf) (by omega)

end Facts

variable {oracle : Oracle} {fuel : Nat} {α β γ δ : Type} {Γ : Facts} {D : Set Binding}
  {last : β → Outcome} {p x : Plan α} {e : Eval β} {out : α → β → Facts} {b : Binding}

/-- More may be known, less may be claimed, and more may be written. -/
lemma SimTo.mono {D' : Set Binding} {out' : α → β → Facts} (h : SimTo oracle fuel last Γ D p e out)
    (hΓ : Γ ⊆ Γ') (hD : D ⊆ D') (ho : ∀ a b, out' a b ⊆ Γ' ∪ out a b) :
    SimTo oracle fuel last Γ' D' p e out' := by
  refine ⟨h.counts, fun Δ K t a c t' hΔ hc below free s hs => ?_⟩
  have ho : ∀ b, out' a b ⊆ Δ ∪ out a b := fun b =>
    (ho a b).trans (Set.union_subset_union_left _ hΔ)
  refine (h.runs (hΓ.trans hΔ) hc below (fun d hd => free d (hD hd)) s hs).imp
    (fun b s' run ⟨new, on⟩ => ⟨run, fun f hf => ?_, ?_⟩)
    (fun _ _ run hk on => ⟨run, hk, on⟩) fun _ run => run
  · rcases ho b hf with hf | hf
    · exact Or.inl hf
    · exact (new f hf).imp_right fun hf => hf.imp_left fun hf => hD hf
  · exact on.mono (Set.union_subset Set.subset_union_left (ho b))

/-- An evaluation that goes on with what does nothing more. -/
lemma SimTo.map {f : β → γ} {out' : α → γ → Facts} (h : Sim oracle fuel Γ D p e out)
    (ho : ∀ a b, out' a (f b) ⊆ Γ ∪ out a b) :
    Sim oracle fuel Γ D p (e >>= fun b => pure (f b)) out' := by
  refine ⟨h.counts, fun Δ K t a c t' hΔ hc below free s hs => ?_⟩
  refine (h.runs hΔ hc below free s hs).bind (fun b s' run ⟨new, on⟩ => ?_) fun _ _ _ run => run
  have ho : out' a (f b) ⊆ Δ ∪ out a b := (ho a b).trans (Set.union_subset_union_left _ hΔ)
  refine ⟨s', run, rfl, fun fact hf => ?_, on.mono (Set.union_subset Set.subset_union_left ho)⟩
  rcases ho hf with hf | hf
  · exact Or.inl hf
  · exact new fact hf

namespace Sim

lemma pure {a : α} {b : β} (h : out a b ⊆ Γ) :
    Sim oracle fuel Γ D (Pure.pure a) (Pure.pure b) out where
  counts := by
    rintro K t _ c t' ⟨-, -, rfl⟩
    exact le_rfl
  runs := by
    rintro Δ K t _ c t' hΔ ⟨rfl, rfl, rfl⟩ below free s hs
    refine ⟨s, ⟨rfl, rfl⟩, rfl, .old (h.trans hΔ), ?_⟩
    exact hs.mono (Set.union_subset subset_rfl (h.trans hΔ))

variable {Δ : Facts} {test : Plan Binding} {t : Nat} {D₁ D₂ : Set Binding} {K : Set JumpKind}

/-- What follows a part that has come out with new facts. -/
lemma runs_behind {last : γ → Outcome} {p : Plan δ} {e : Eval γ} {out : Facts}
    {out' : δ → γ → Facts} (h : SimTo oracle fuel last (Γ ∪ out) D₂ p e out') (h₁ : D₁ ⊆ D)
    (h₂ : D₂ ⊆ D) (hd : Disjoint D₁ D₂) {t₁ t₂ t₃ t' : Nat} {r : δ} {c : Code} (hΔ : Γ ⊆ Δ)
    (hc : p K t₂ r c t₃) (below : Δ.Below t) (free : ∀ d ∈ D, Δ.Free t d) (new : out.New Δ D₁ t t₁)
    (next : t ≤ t₁) (next' : t₁ ≤ t₂) (last' : t₃ ≤ t') (hs : (Δ ∪ out).On s) :
    Ends (c.Runs (calling oracle) fuel s) K Δ last
      (fun b s' => (out' r b).New Δ D t t' ∧ (Δ ∪ out' r b).On s') (e s.world) := by
  have new : out.New Δ D₁ t t₂ := new.mono (fun f hf => Or.inl hf) subset_rfl le_rfl next'
  have next := next.trans next'
  have last := h.counts hc
  have between := new.below below (fun d hd => free d (h₁ hd)) next
  refine (h.runs (Set.union_subset_union_left _ hΔ) hc between (fun d hd' => ?_) s hs).imp
    (fun b s' run ⟨new', on⟩ => ⟨run, ?_, ?_⟩)
    (fun _ _ run hk on => ⟨run, hk, on.mono Set.subset_union_left⟩) fun _ run => run
  · exact new.free next (fun h => Set.disjoint_left.1 hd h hd') (free d (h₂ hd'))
  · refine new'.mono ?_ h₂ next last'
    rintro f (hf | hf)
    · exact Or.inl hf
    · exact (new.mono (fun f hf => Or.inl hf) h₁ le_rfl (last.trans last')) f hf
  · exact on.mono (Set.union_subset_union_left _ Set.subset_union_left)

/-- One after the other. Nothing is written twice. -/
lemma bindTo [Nonempty β] {last : γ → Outcome} {f : α → Plan δ} {g : β → Eval γ}
    {out' : δ → γ → Facts} (hx : Sim oracle fuel Γ D₁ x e out)
    (hf : ∀ a b, SimTo oracle fuel last (Γ ∪ out a b) D₂ (f a) (g b) out') (h₁ : D₁ ⊆ D)
    (h₂ : D₂ ⊆ D) (hd : Disjoint D₁ D₂) : SimTo oracle fuel last Γ D (x >>= f) (e >>= g) out' where
  counts := by
    rintro K t r c t' ⟨a, p, t₁, q, hp, hq, rfl⟩
    obtain ⟨b⟩ := ‹Nonempty β›
    exact (hx.counts hp).trans ((hf a b).counts hq)
  runs := by
    rintro Δ K t r c t' hΔ ⟨a, p, t₁, q, hp, hq, rfl⟩ below free s hs
    refine (hx.runs hΔ hp below (fun d hd => free d (h₁ hd)) s hs).bind
      (fun b s₁ run ⟨new, on⟩ => ?_) fun o s' ho run => Or.inr ⟨ho.ne_done, run⟩
    exact (runs_behind (hf a b) h₁ h₂ hd hΔ hq below free new (hx.counts hp) le_rfl le_rfl
      on).within fun _ _ run' => Or.inl ⟨s₁, run, run'⟩

/-- One after the other, with the destinations left to what comes second. -/
lemma bind [Nonempty β] {f : α → Plan δ} {g : β → Eval γ} {out' : δ → γ → Facts}
    (hx : Sim oracle fuel Γ ∅ x e out)
    (hf : ∀ a b, Sim oracle fuel (Γ ∪ out a b) D (f a) (g b) out') :
    Sim oracle fuel Γ D (x >>= f) (e >>= g) out' :=
  bindTo hx hf (Set.empty_subset _) subset_rfl (Set.empty_disjoint D)

/-- Code behind the code of an evaluation that does nothing more. -/
lemma andThen [Nonempty β] {f : α → Plan δ} {out' : δ → β → Facts}
    (hx : Sim oracle fuel Γ ∅ x e out)
    (hf : ∀ a b, Sim oracle fuel (Γ ∪ out a b) D (f a) (Pure.pure b) out') :
    Sim oracle fuel Γ D (x >>= f) e out' := by
  have h := bind hx hf
  rwa [bind_pure] at h

/-- A new temporary is a destination of what follows. -/
lemma alloc {f : Binding → Plan α} (hf : ∀ d, Sim oracle fuel Γ (insert d D) (f d) e out) :
    Sim oracle fuel Γ D (Construction.allocTemp >>= f) e out where
  counts := by
    rintro K t r c t' ⟨_, _, _, q, ⟨rfl, rfl, rfl⟩, hq, rfl⟩
    exact (Nat.le_succ t).trans ((hf _).counts hq)
  runs := by
    rintro Δ K t r c t' hΔ ⟨_, _, _, q, ⟨rfl, rfl, rfl⟩, hq, rfl⟩ below free s hs
    have next := (hf _).counts hq
    refine ((hf _).runs hΔ hq (below.mono (Nat.le_succ t)) ?_ s hs).imp
      (fun b s' run ⟨new, on⟩ => ⟨Or.inl ⟨s, ⟨rfl, rfl⟩, run⟩, fun f hf => ?_, on⟩)
      (fun _ s' run hk on => ⟨Or.inl ⟨s, ⟨rfl, rfl⟩, run⟩, hk, on⟩)
      fun s' run => Or.inl ⟨s, ⟨rfl, rfl⟩, run⟩
    · rintro d (rfl | hd)
      · refine ⟨⟨t, Nat.lt_succ_self t, rfl⟩, fun v hv => ?_⟩
        obtain ⟨i, hi, heq⟩ := below _ hv
        exact absurd (temporary_injective heq) (by omega)
      · obtain ⟨⟨i, hi, heq⟩, free⟩ := free d hd
        exact ⟨⟨i, hi.trans (Nat.lt_succ_self t), heq⟩, free⟩
    · rcases new f hf with hf | (hf | hf) | ⟨i, hi, hi', hf⟩
      · exact Or.inl hf
      · exact Or.inr (Or.inr ⟨t, le_rfl, next, hf⟩)
      · exact Or.inr (Or.inl hf)
      · exact Or.inr (Or.inr ⟨i, (Nat.le_succ t).trans hi, hi', hf⟩)

/-- A plan that allows no code. -/
lemma impossible (h : ∀ K t a c t', ¬ p K t a c t') : SimTo oracle fuel last Γ D p e out :=
  ⟨fun _ _ _ _ _ hc => (h _ _ _ _ _ hc).elim, fun _ _ _ _ _ _ _ hc => (h _ _ _ _ _ hc).elim⟩

lemma failAt {info : Info} {fault : LowerFault} :
    SimTo oracle fuel last Γ D (Construction.failAt info fault : Plan α) e out :=
  impossible fun _ _ _ _ _ h => h

/-! ### Instructions -/

/-- An instruction, given what it does where facts can be looked up. -/
lemma emit {i : Instruction} {plain : i.isTerminator = false} {out : Unit → β → Facts}
    (h : ∀ Δ t s, (∀ b v, (b, v) ∈ Γ → s.lookup b = v) → (∀ d ∈ D, Facts.Free Δ t d) → Δ.On s →
      ∃ b, e s.world = (.done b, ((calling oracle).act i s).world) ∧
        (∀ f ∈ out () b, f.1 ∈ D) ∧ (Δ ∪ out () b).On ((calling oracle).act i s)) :
    Sim oracle fuel Γ D (Construction.emit i plain) e out where
  counts := by
    rintro K t _ c t' ⟨-, rfl⟩
    exact le_rfl
  runs := by
    rintro Δ K t _ c t' hΔ ⟨rfl, rfl⟩ below free s hs
    obtain ⟨b, he, dest, on⟩ := h Δ t' s (fun b v hb => hs.lookup below (hΔ hb)) free hs
    rw [he]
    exact ⟨_, ⟨rfl, rfl⟩, rfl, fun f hf => Or.inr (Or.inl (dest f hf)), on⟩

variable {d : Binding} {v : Value}

lemma on_store (hs : Δ.On s) (hd : Δ.Free t d) :
    (Δ ∪ {(d, v)}).On (s.store d v) ∧ (s.store d v).world = s.world := by
  rw [Set.union_singleton]
  refine ⟨hs.store hd v, ?_⟩
  obtain ⟨⟨i, -, rfl⟩, -⟩ := hd
  rfl

variable {src : Binding}

/-- A temporary is copied. -/
lemma copyKnown (hd : d ∈ D) (hs : (src, v) ∈ Γ) :
    Sim oracle fuel Γ D (Construction.copy d src) (Pure.pure () : Eval Unit)
      (fun _ _ => {(d, v)}) :=
  emit fun Δ t s look free on => by
    obtain ⟨on', world⟩ := on_store (v := v) on (free d hd)
    have act : (calling oracle).act (.assign d (.binding src)) s = s.store d v :=
      congrArg (s.store d) (look src v hs)
    exact ⟨(), by rw [act, world]; rfl, by simpa using hd, act ▸ on'⟩

lemma copy (hd : d ∈ D) (hs : (src, v) ∈ Γ) :
    Sim oracle fuel Γ D (Construction.copy d src) (Pure.pure v) (fun _ v => {(d, v)}) :=
  (copyKnown hd hs).map (f := fun _ => v) fun _ _ => Set.subset_union_right

/-- A variable is copied. -/
lemma copyVariable (hd : d ∈ D) (hb : b.kind ≠ .temporary) :
    Sim oracle fuel Γ D (Construction.copy d b) (Eval.read b) (fun _ v => {(d, v)}) :=
  emit fun Δ t s look free on => by
    obtain ⟨on', world⟩ := on_store (v := s.lookup b) on (free d hd)
    refine ⟨s.lookup b, ?_, by simpa using hd, on'⟩
    have act : ((calling oracle).act (.assign d (.binding b)) s).world = s.world := world
    rw [act, Eval.read, dif_pos hb, s.lookup_variable hb]

/-- A temporary is copied into a variable. -/
lemma copyTo (hb : b.kind ≠ .temporary) (hs : (src, v) ∈ Γ) :
    Sim oracle fuel Γ D (Construction.copy b src) (Eval.write b v) (fun _ _ => ∅) :=
  emit fun Δ t s look free on => by
    have act : (calling oracle).act (.assign b (.binding src)) s = s.store b v :=
      congrArg (s.store b) (look src v hs)
    refine ⟨(), ?_, nofun, ?_⟩
    · rw [act, s.store_variable hb, Eval.write, dif_pos hb]
    · rw [act, s.store_variable hb, Set.union_empty]
      exact on

/-- A constant is loaded. -/
lemma loadConst (c : Constant) (hd : d ∈ D) :
    Sim oracle fuel Γ D (Construction.loadConst d c) (Pure.pure (.constant c))
      (fun _ v => {(d, v)}) :=
  emit fun Δ t s look free on => by
    obtain ⟨on', world⟩ := on_store (v := .constant c) on (free d hd)
    have act : ((calling oracle).act (.assign d (.constant c)) s).world = s.world := world
    exact ⟨.constant c, by rw [act]; rfl, by simpa using hd, on'⟩

/-- A call is made. -/
lemma send {dest : Option Binding} {callee : ControlFlow.Callee} {args : ControlFlow.Arguments}
    {block : BlockOperand} {e : Eval Value} (hd : ∀ d ∈ dest, d ∈ D)
    (h : ∀ s : State, (∀ b v, (b, v) ∈ Γ → s.lookup b = v) →
      e s.world = Eval.call oracle (s.callOf callee args block) s.world) :
    Sim oracle fuel Γ D (Construction.emit (.send dest callee args block) rfl) e
      (fun _ v => Facts.of dest v) :=
  emit fun Δ t s look free on => by
    refine ⟨(s.world.call oracle (s.callOf callee args block)).1, ?_, fun f hf => hd _ hf.1, ?_⟩
    · rw [h s look, Eval.call]
      refine congrArg (Prod.mk _) ?_
      cases dest with
      | none => rfl
      | some d =>
        obtain ⟨⟨i, -, rfl⟩, -⟩ := free d (hd d rfl)
        rfl
    · have called : Δ.On { s with world := (s.world.call oracle (s.callOf callee args block)).2 } := on
      cases dest with
      | none =>
        rw [Facts.of_none, Set.union_empty]
        exact called
      | some d =>
        rw [Facts.of_some]
        exact (on_store called (free d (hd d rfl))).1

/-- A value is returned. -/
lemma ret (hb : (b, v) ∈ Γ) :
    Sim oracle fuel Γ D (Construction.emit (.ret b) rfl) (Eval.record v) (fun _ _ => ∅) :=
  emit fun Δ t s look free on => by
    refine ⟨(), ?_, nofun, by rw [Set.union_empty]; exact on⟩
    rw [← look b v hb]
    rfl

/-- A jump is made. -/
lemma jumpOut [Nonempty β] {info : Info} {kind : JumpKind} {x : Plan Unit}
    {out : Unit → β → Facts} {out' : Unit → γ → Facts} (hx : Sim oracle fuel Γ ∅ x e out) :
    Sim oracle fuel Γ D (Construction.jumpOut info kind x) (e >>= fun _ => Eval.leave kind) out' where
  counts := by
    rintro K t u c t' ⟨-, p, hp, rfl⟩
    exact hx.counts hp
  runs := by
    rintro Δ K t u c t' hΔ ⟨hk, p, hp, rfl⟩ below free s hs
    refine (hx.runs hΔ hp below (fun _ h => h.elim) s hs).bind (fun b s₁ run ⟨new, on⟩ => ?_)
      fun o s' ho run => Or.inr ⟨ho.ne_done, run⟩
    exact ⟨s₁, Or.inl ⟨s₁, run, rfl, rfl⟩, rfl, hk, on.mono Set.subset_union_left⟩

/-! ### Ways that meet again -/

/-- The value of a binding, as it is known behind its evaluation. -/
abbrev holds : Binding → Value → Facts := fun b v => {(b, v)}

/-- A test, behind which a way is taken. -/
lemma branch {post : β → State → Prop} {e : Eval Value} {g : Value → Eval β}
    (ht : Sim oracle fuel Γ ∅ test e holds) {runs : Outcome → State → Prop} {t₁ : Nat}
    {p : Code} (hΔ : Γ ⊆ Δ) (hp : test K t b p t₁) (below : Δ.Below t) (hs : Δ.On s)
    (way : ∀ v s₁, p.Runs (calling oracle) fuel s .done s₁ →
      (calling oracle).takes (some b) s₁ v.truthy → (holds b v).New Δ ∅ t t₁ →
      (Δ ∪ holds b v).On s₁ → Ends runs K Δ last post (g v s₁.world))
    (escapes : ∀ o s', o.Escapes → p.Runs (calling oracle) fuel s o s' → runs o s') :
    Ends runs K Δ last post ((e >>= g) s.world) := by
  have free : ∀ d ∈ (∅ : Set Binding), Δ.Free t d := fun _ h => h.elim
  refine (ht.runs hΔ hp below free s hs).bind (fun v s₁ run ⟨new, known⟩ => ?_) escapes
  refine way v s₁ run (congrArg Value.truthy ?_).symm new known
  exact known.lookup (new.below below free (ht.counts hp)) (Or.inr rfl)

/-- Two ways behind a test. -/
lemma twoWays {on : Bool} {e : Eval Value} {x y : Plan Unit} {e₁ e₂ : Value → Eval β}
    {out : Unit → β → Facts} (ht : Sim oracle fuel Γ ∅ test e holds)
    (hx : ∀ b v, Sim oracle fuel (Γ ∪ holds b v) D x (e₁ v) out)
    (hy : ∀ b v, Sim oracle fuel (Γ ∪ holds b v) D y (e₂ v) out) :
    Sim oracle fuel Γ D (Construction.twoWays test on x y)
      (e >>= fun v => if v.truthy = on then e₁ v else e₂ v) out where
  counts := by
    rintro K t u c t' ⟨b, p, t₁, q, t₂, r, hp, hq, hr, rfl⟩
    exact (ht.counts hp).trans (((hx b .nil).counts hq).trans ((hy b .nil).counts hr))
  runs := by
    rintro Δ K t u c t' hΔ ⟨b, p, t₁, q, t₂, r, hp, hq, hr, rfl⟩ below free s hs
    refine branch ht hΔ hp below hs (fun v s₁ run taken new known => ?_)
      fun o s' ho run => Or.inr ⟨ho, run⟩
    have widen {o : Outcome} {s' : State} (ho : o ≠ .left) (way : if v.truthy = on then
        q.Runs (calling oracle) fuel s₁ o s' else r.Runs (calling oracle) fuel s₁ o s') :
        (Code.twoWays p b on q r).Runs (calling oracle) fuel s o s' :=
      Or.inl ⟨s₁, v.truthy, run, taken, ho, way⟩
    have next := ht.counts hp
    by_cases way : v.truthy = on
    · simp only [if_pos way] at widen ⊢
      exact (runs_behind (hx b v) (Set.empty_subset _) subset_rfl (Set.empty_disjoint D) hΔ hq below
        free new next le_rfl ((hy b v).counts hr) known).widen (fun _ _ run' => widen nofun run')
        fun _ _ ho run' => widen ho.ne_left run'
    · simp only [if_neg way] at widen ⊢
      exact (runs_behind (hy b v) (Set.empty_subset _) subset_rfl (Set.empty_disjoint D) hΔ hr below
        free new next ((hx b v).counts hq) le_rfl known).widen (fun _ _ run' => widen nofun run')
        fun _ _ ho run' => widen ho.ne_left run'

/-- A way that may be passed by. -/
lemma detour {on : Bool} {x : Plan Unit} {b₀ : β}
    {out : Unit → β → Facts} (hb : (b, v) ∈ Γ) (hx : Sim oracle fuel Γ D x e out)
    (ho : out () b₀ ⊆ Γ) :
    Sim oracle fuel Γ D (Construction.detour b on x)
      (if v.truthy = on then e else Pure.pure b₀) out where
  counts := by
    rintro K t u c t' ⟨p, hp, rfl⟩
    exact hx.counts hp
  runs := by
    rintro Δ K t u c t' hΔ ⟨p, hp, rfl⟩ below free s hs
    have taken : (calling oracle).takes (some b) s v.truthy :=
      (congrArg Value.truthy (hs.lookup below (hΔ hb))).symm
    by_cases way : v.truthy = on
    · rw [if_pos way]
      exact (hx.runs hΔ hp below free s hs).widen
        (fun _ s' run => ⟨v.truthy, taken, nofun, by rwa [if_pos way]⟩)
        fun o s' ho run => ⟨v.truthy, taken, ho.ne_left, by rwa [if_pos way]⟩
    · rw [if_neg way]
      refine ⟨s, ⟨v.truthy, taken, nofun, by rw [if_neg way]; exact ⟨rfl, rfl⟩⟩, rfl,
        .old (ho.trans hΔ), ?_⟩
      exact hs.mono (Set.union_subset subset_rfl (ho.trans hΔ))

end Sim

end ControlFlow.Meaning
