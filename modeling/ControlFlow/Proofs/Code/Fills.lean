import ControlFlow.Proofs.Code.Flow
import ControlFlow.Proofs.Code.Rules
/-!
# Code that fills what it reads

Where variables hold a value from the start, the code that a plan allows reads no binding that holds
none: every temporary is written before it is read, on every way through the code. What holds a value
before code still does at its end and wherever jumps lead, so the claim for the parts of a construct
gives the claim for the construct.

The main result is `Plan.filled_related`.
-/

namespace ControlFlow

namespace Code

variable {s out : Set Binding} {p q : Code}

/-- If the bindings in `s` hold a value before the code and jumps lead where no more than that is
needed, nothing is read that holds none, and those in `out` hold a value behind the code as well. -/
def Fills (s out : Set Binding) (c : Code) : Prop :=
  ∀ ⦃J : JumpKind → Set Binding⦄ ⦃A : Set Binding⦄ (B : Set Binding), s ⊆ A →
    (∀ kind, J kind ⊆ A) → ∃ A', A ∪ out ⊆ A' ∧ c.Flows J B A A'

/-- The same for code that leads to a label, where those in `out` have to hold a value. -/
def FillsLabel (s out : Set Binding) (c : Code) : Prop :=
  ∀ ⦃J : JumpKind → Set Binding⦄ ⦃A B : Set Binding⦄ (A' : Set Binding), s ⊆ A →
    (∀ kind, J kind ⊆ A) → B ⊆ A ∪ out → c.Flows J B A A'

/-- The same for tests one after the other: nothing that they write is needed at their label. -/
def FillsTests (s : Set Binding) (c : Code) : Prop :=
  ∀ ⦃J : JumpKind → Set Binding⦄ ⦃A B : Set Binding⦄, s ⊆ A → (∀ kind, J kind ⊆ A) → B ⊆ A →
    ∃ A', A ⊆ A' ∧ c.Flows J B A A'

lemma loopFacts_subset {J : JumpKind → Set Binding} {A B : Set Binding} (hJ : ∀ kind, J kind ⊆ B)
    (hA : A ⊆ B) (kind : JumpKind) : loopFacts J A kind ⊆ B := by
  cases kind with
  | «return» => exact hJ .return
  | _ => exact hA

namespace Fills

lemma keeps {A A' : Set Binding} (h : A ∪ out ⊆ A') : A ⊆ A' := Set.subset_union_left.trans h

lemma emit {i : Instruction} {plain : i.isTerminator = false} (h : ∀ b ∈ i.reads, b ∈ s) :
    (Code.emit i plain).Fills s {b | i.dest? = some b} :=
  fun _ A _ hs _ => ⟨A ∪ i.defs, subset_rfl, fun b hb => hs (h b hb), subset_rfl⟩

variable {mid : Set Binding}

lemma seq (hp : p.Fills s mid) (hq : q.Fills (s ∪ mid) out) : (Code.seq p q).Fills s out := by
  intro J A B hs hJ
  obtain ⟨A₁, h₁, hp⟩ := hp B hs hJ
  have first : s ∪ mid ⊆ A₁ := (Set.union_subset_union_left _ hs).trans h₁
  obtain ⟨A₂, h₂, hq⟩ := hq B first fun kind => (hJ kind).trans (keeps h₁)
  exact ⟨A₂, (Set.union_subset_union_left _ (keeps h₁)).trans h₂, A₁, hp, hq⟩

/-- What holds a value before code still does where it jumps. -/
lemma jump {kind : JumpKind} (hp : p.Fills s mid) : (Code.seq p (.jump kind)).Fills s ∅ := by
  intro J A B hs hJ
  obtain ⟨A₁, h₁, hp⟩ := hp B hs hJ
  exact ⟨A₁, by simpa using keeps h₁, A₁, hp, (hJ kind).trans (keeps h₁)⟩

end Fills

/-- Filling what is read as a property of code. -/
def filled (vars : Set Binding) : Property vars := fun _ Γ out c => c.Fills Γ.holds out

/-- A construct fills what it reads if its parts do. -/
lemma Fills.rules (vars : Set Binding) : Rules (fun _ => True) (filled vars)
    (fun _ Γ out c => c.FillsLabel Γ.holds out) (fun _ Γ _ c => c.FillsTests Γ.holds) where
  mono h less := by
    intro J A B hs hJ
    obtain ⟨A', h', flow⟩ := h B hs hJ
    refine ⟨A', Set.union_subset (keeps h') (less.trans ?_), flow⟩
    exact (Set.union_subset_union_left _ hs).trans h'
  skip := fun _ _ _ => ⟨_, by simp, subset_rfl⟩
  seq := .seq
  alloc := fun _ _ _ => ⟨_, by simp, subset_rfl⟩
  emit _ reads := .emit reads
  jump _ _ hp := hp.jump
  returns _ hp := (hp.seq (.emit (by simp [Instruction.reads]))).jump
  twoWays {_ _ out _ _ _ _ _} hp hq hr := by
    intro J A B hs hJ
    obtain ⟨A₁, h₁, hp⟩ := hp (A ∪ out) hs hJ
    have hs₁ := hs.trans (keeps h₁)
    have hJ₁ := fun kind => (hJ kind).trans (keeps h₁)
    have hout : A ∪ out ⊆ A₁ ∪ out := Set.union_subset_union_left _ (keeps h₁)
    obtain ⟨A₂, h₂, hq⟩ := hq (A ∪ out) hs₁ hJ₁
    obtain ⟨A₃, h₃, hr⟩ := hr (A ∪ out) hs₁ hJ₁
    exact ⟨A ∪ out, subset_rfl, A₁, A₂, A₃, hp, h₁ (Or.inr rfl), hq, hout.trans h₂, hr,
      hout.trans h₃⟩
  detour h hp := by
    intro J A B hs hJ
    obtain ⟨A₁, h₁, hp⟩ := hp A hs hJ
    exact ⟨A, by simp, hs h, subset_rfl, A₁, hp, keeps h₁⟩
  join {_ _ out _} hp := fun _ A _ hs hJ =>
    ⟨A ∪ out, subset_rfl, A ∪ out, hp _ hs hJ subset_rfl, subset_rfl⟩
  leave hp := by
    intro J A B A' hs hJ hB
    obtain ⟨A₁, h₁, hp⟩ := hp B hs hJ
    exact ⟨A₁, hp, hB.trans h₁⟩
  before {_ Γ mid _ _ _} hp hq := by
    intro J A B A' hs hJ hB
    obtain ⟨A₁, h₁, hp⟩ := hp B hs hJ
    have first : Γ.holds ∪ mid ⊆ A₁ := (Set.union_subset_union_left _ hs).trans h₁
    exact ⟨A₁, hp, hq A' first (fun kind => (hJ kind).trans (keeps h₁))
      (hB.trans (Set.union_subset_union_left _ (keeps h₁)))⟩
  clause h hp hq := by
    intro J A B A' hs hJ hB
    -- a clause that nothing follows may be passed by, so it writes nothing that is needed
    obtain ⟨A₁, h₁, hp⟩ := hp B hs hJ
    obtain ⟨A₂, h₂, hq⟩ := hq B (hs.trans (keeps h₁)) fun kind => (hJ kind).trans (keeps h₁)
    have hB₁ : B ⊆ A₁ := hB.trans (Set.union_subset (keeps h₁) ((h.trans hs).trans (keeps h₁)))
    exact ⟨A₁, A₂, hp, h₁ (Or.inr rfl), hB₁, hq, hB₁.trans (keeps h₂)⟩
  clauseElse {_ _ out _ _ _ _ _} hp hq hr := by
    intro J A B A' hs hJ hB
    obtain ⟨A₁, h₁, hp⟩ := hp B hs hJ
    have hs₁ := hs.trans (keeps h₁)
    have hJ₁ := fun kind => (hJ kind).trans (keeps h₁)
    have hB₁ : B ⊆ A₁ ∪ out := hB.trans (Set.union_subset_union_left _ (keeps h₁))
    obtain ⟨A₂, h₂, hq⟩ := hq B hs₁ hJ₁
    exact ⟨A₁, A₂, hp, h₁ (Or.inr rfl), hq, hB₁.trans h₂, hr A' hs₁ hJ₁ hB₁⟩
  noTest := fun _ _ _ => ⟨_, subset_rfl, subset_rfl⟩
  test hp hq := by
    intro J A B hs hJ hB
    -- a test leads to its label or on to the next one
    obtain ⟨A₁, h₁, hp⟩ := hp B hs hJ
    have kept := keeps h₁
    obtain ⟨A₂, h₂, hq⟩ := hq (hs.trans kept) (fun kind => (hJ kind).trans kept) (hB.trans kept)
    exact ⟨A₂, kept.trans h₂, A₁, ⟨A₁, hp, h₁ (Or.inr rfl), hB.trans kept, subset_rfl⟩, hq⟩
  select hp hq hr := by
    intro J A B A' hs hJ hB
    -- the statements of a clause start with what held a value before its first test
    obtain ⟨A₁, h₁, tests⟩ := hp hs hJ subset_rfl
    obtain ⟨A₂, h₂, body⟩ := hq B hs hJ
    refine ⟨A₁, ⟨A, A₁, A₂, tests, body, hB.trans h₂, subset_rfl⟩, ?_⟩
    exact hr A' (hs.trans h₁) (fun kind => (hJ kind).trans h₁)
      (hB.trans (Set.union_subset_union_left _ h₁))
  loop _ _ hp hq hr := by
    intro J A B hs hJ
    -- the values at the start of the statements of a loop are those before the loop
    have inner : ∀ {A' : Set Binding}, A ⊆ A' → ∀ kind, loopFacts J A kind ⊆ A' :=
      fun h => loopFacts_subset (fun kind => (hJ kind).trans h) h
    obtain ⟨A₁, h₁, hp⟩ := hp A hs (inner subset_rfl)
    obtain ⟨A₂, h₂, hq⟩ := hq A hs (inner subset_rfl)
    obtain ⟨A₃, h₃, hr⟩ := hr A (hs.trans (keeps h₂)) (inner (keeps h₂))
    exact ⟨A, by simp, subset_rfl, A₁, A₂, A₃, hp, h₁ (Or.inr rfl), keeps h₁, hq, hr,
      h₃ (Or.inr rfl), (keeps h₂).trans (keeps h₃)⟩
  block hp := by
    intro J A B hs hJ
    obtain ⟨A₁, h₁, hp⟩ := hp A hs hJ
    exact ⟨A₁, h₁, hp⟩
  guarded {_ Γ out _ _ _} hf hp hq := by
    intro J A B hs hJ
    -- copies of a clause start with the values before the protected statements, whatever these
    -- have written
    obtain ⟨A₁, h₁, hp⟩ := hp A hs (J := fun _ => A) fun _ => subset_rfl
    have hs₁ : Γ.holds ∪ out ⊆ A₁ := (Set.union_subset_union_left _ hs).trans h₁
    obtain ⟨A₂, h₂, hq⟩ := hq A₁ hs₁ fun kind => (hJ kind).trans (keeps h₁)
    refine ⟨A₂, h₁.trans (keeps h₂), fun kind => ?_, A₁, A₂, hp, hq, subset_rfl⟩
    obtain ⟨A₃, h₃, hc⟩ := hf kind A hs hJ
    exact ⟨A₃, hc, (hJ kind).trans (keeps h₃)⟩
  blockCall {_ _ _ _ _ dest _ _ _ _ _} hc hp hq := by
    intro J A B hs hJ
    -- the body of a block literal may start where the call has come back, so it starts with the
    -- values that hold behind the call
    have hA : A ⊆ A ∪ {b | dest = some b} := Set.subset_union_left
    obtain ⟨A₁, h₁, hp⟩ := hp (A ∪ {b | dest = some b}) hs hJ
    obtain ⟨A₂, h₂, hq⟩ := hq (A ∪ {b | dest = some b}) (hs.trans hA)
      (loopFacts_subset (fun kind => (hJ kind).trans hA) subset_rfl)
    refine ⟨_, subset_rfl, A₁, A₂, hp, fun b hb => ?_, ?_, hq, h₂ (Or.inr rfl), keeps h₂⟩
    · rcases List.mem_append.1 hb with hb | hb
      · exact keeps h₁ (hs (hc b hb))
      · exact h₁ (Or.inr hb)
    · exact Set.union_subset_union_left _ (keeps h₁)

end Code

/-- **All code that the plan of a tree allows fills what it reads.** -/
theorem Plan.filled_related {vars : Set Binding} {env : Environment}
    (registered : ∀ name b, env.types name = some b → b ∈ vars) :
    Construction.Related env env (fun _ => True) (allowed (Code.filled vars)) :=
  (Code.Fills.rules vars).related registered

end ControlFlow
