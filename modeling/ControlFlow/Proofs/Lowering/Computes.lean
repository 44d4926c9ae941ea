import ControlFlow.Proofs.Code.Executes
import ControlFlow.Proofs.Lowering.Temporaries
/-!
# What the code of a walk does

A walk lays out code, and the code is executed in a graph that grows from it. `WalkT.Does` says both
at once. What walks do one after the other is what they do in a row (`WalkT.does_bind`).

Some walks lay out code that leads to just one state, whatever is in the graph around it; for these
`WalkT.Computes` gives that state by what holds of it, with a rule for each operation.
-/

namespace ControlFlow

open Builder

variable {σ α β : Type} {g : Graph} {M : Machine σ} {T : JumpTargets} {d : Nat}

/-! ## Temporaries -/

@[simp] lemma Builder.nextTemp_created (b : Builder) : b.created.nextTemp = b.nextTemp := rfl

variable {b' : Builder}

lemma Copies.nextTemp_le {inner inner' : JumpTargets} {kinds : List JumpKind} {b : Builder}
    {cs : List Copy} (h : Copies T kinds inner b cs inner' b')
    (hc : ∀ c ∈ cs, c.start.nextTemp ≤ c.done.nextTemp) : b.nextTemp ≤ b'.nextTemp := by
  induction h with
  | nil => exact le_rfl
  | inactive _ _ ih => exact ih hc
  | active _ _ ih =>
    rw [List.forall_mem_cons] at hc
    have first := hc.1
    simp only [Copy.start, nextTemp_startBlock, nextTemp_note, nextTemp_created] at first
    exact first.trans (by simpa using ih hc.2)

/-- Code takes no temporary back. -/
lemma Code.Lays.nextTemp_le {c : Code} {l : BlockName} {b : Builder} (h : c.Lays l T b b') :
    b.nextTemp ≤ b'.nextTemp := by
  induction h with
  | skip => exact le_rfl
  | seq _ _ ihp ihq => exact ihp.trans ihq
  | alloc => exact Nat.le_succ _
  | emit | jump | leave => simp
  | twoWays _ _ _ _ _ _ iht ihf ihs =>
    simp only [nextTemp_created, nextTemp_branch, nextTemp_startBlock, nextTemp_jump] at *
    exact (iht.trans ihf).trans ihs
  | detour _ _ _ ihw => simpa using ihw
  | join _ _ ih => simpa using ih
  | clause _ _ _ iht ihb =>
    simp only [nextTemp_created, nextTemp_branchOn, nextTemp_startBlock, nextTemp_jump] at *
    exact iht.trans ihb
  | clauseElse _ _ _ _ _ iht ihb ihr =>
    simp only [nextTemp_created, nextTemp_branchOn, nextTemp_startBlock, nextTemp_jump] at *
    exact (iht.trans ihb).trans ihr
  | test _ _ ih => simpa using ih
  | select _ _ _ iht ihb =>
    simp only [nextTemp_created, nextTemp_suspend, nextTemp_startBlock, nextTemp_jump,
      nextTemp_resume] at *
    exact iht.trans ihb
  | loop _ _ _ _ _ _ _ iht ihb iha =>
    simp only [nextTemp_created, nextTemp_branchOn, nextTemp_startBlock, nextTemp_note] at *
    exact (iht.trans ihb).trans iha
  | block _ _ ih => simpa using ih
  | @guarded copies body ensure l r _ _ _ ihc ihb ihe =>
    have landed := r.chain.nextTemp_le ihc
    simp only [Region.bodyStart, Region.clauseStart, Region.restored, Region.finish,
      nextTemp_created, nextTemp_startBlock, nextTemp_note, nextTemp_jump] at *
    exact (landed.trans ihb).trans ihe
  | @blockCall _ _ _ _ _ _ _ v _ after bodyBlock landing T _ _ _ _ _ b₄ _ _ h₃ _ _ h₅ _ _ _ ihr
      ihb =>
    have land := Linked.nextTemp_land ((b₄.endRun v bodyBlock after).note (.targetsRestored T))
      landing bodyBlock after
    simp [h₃, h₅, endRun] at *
    omega

lemma Builder.Laid.nextTemp_le {b : Builder} (h : Laid T b b') : b.nextTemp ≤ b'.nextTemp := by
  obtain ⟨c, lays⟩ := h
  exact (lays .exit).nextTemp_le

/-! ## Builders that can be led to -/

/-- Code can be laid out behind the builder, with the targets `T` for jumps, and can be led to. -/
def Builder.Live (T : JumpTargets) (b : Builder) : Prop :=
  Sited T b ∧ b.point.isSome

lemma Builder.Live.behind {b : Builder} {s s' : σ} (h : Live T b) (laid : Laid T b b')
    (execution : g.Executes M b b' s s') : Live T b' := by
  obtain ⟨x, y, -, hy, -⟩ := execution
  exact ⟨h.1.laid subset_rfl laid, by simp [hy]⟩

namespace WalkT

/-! ## Walks that lay out code -/

/-- Whenever the walk ends with a result, it has laid out code, and the rest of the state is as it
was. -/
def Lays (x : Walk α) : Prop :=
  ∀ ⦃b : Builder⦄ ⦃T : JumpTargets⦄ ⦃d : Nat⦄ ⦃a : α⦄ ⦃s' : WalkState⦄, x.Yields ⟨b, T, d⟩ a s' →
    ∃ b', s' = ⟨b', T, d⟩ ∧ Laid T b b'

variable {t : Walk Binding} {i : Instruction} {y : Walk Unit}

namespace Lays

variable {x : Walk α} {f : α → Walk β}

lemma pure (a : α) : Lays (Pure.pure a) := by
  intro b T d a' s' h
  obtain ⟨-, rfl⟩ := yields_pure.1 h
  exact ⟨b, rfl, .skip⟩

lemma bind (hx : x.Lays) (hf : ∀ a, (f a).Lays) : (x >>= f).Lays := by
  intro b T d r s' h
  obtain ⟨a, s₁, h₁, h₂⟩ := yields_bind.1 h
  obtain ⟨b₁, rfl, laid₁⟩ := hx h₁
  obtain ⟨b₂, rfl, laid₂⟩ := hf a h₂
  exact ⟨b₂, rfl, laid₁.trans laid₂⟩

lemma failAt (info : Info) (fault : LowerFault) : (WalkT.failAt info fault : Walk α).Lays :=
  fun _ _ _ _ _ h => absurd h not_yields_failAt

lemma allocTemp : WalkT.allocTemp.Lays := by
  intro b T d a s' h
  obtain ⟨-, rfl⟩ := yields_take.1 h
  exact ⟨_, rfl, .alloc⟩

lemma emit (plain : i.isTerminator = false) : (WalkT.emit i).Lays := by
  intro b T d a s' h
  obtain rfl := yields_build.1 h
  exact ⟨_, rfl, .emit plain⟩

end Lays

/-- What two ways behind a test consist of. -/
lemma yields_twoWays {x : Walk Unit} {on : Bool} {b : Builder} {u : Unit} {s' : WalkState}
    (ht : t.Lays) (hx : x.Lays) (hy : y.Lays) (h : (WalkT.twoWays t on x y).Yields ⟨b, T, d⟩ u s') :
    ∃ c b₁ b₂ b₂' b₃ b₃' b', TwoWays T c on b b₁ b₂ b₂' b₃ b₃' b' ∧
      t.Yields ⟨b.created.created.created, T, d⟩ c ⟨b₁, T, d⟩ ∧
      x.Yields ⟨b₂, T, d⟩ () ⟨b₂', T, d⟩ ∧ y.Yields ⟨b₃, T, d⟩ () ⟨b₃', T, d⟩ ∧
      s' = ⟨b', T, d⟩ := by
  simp only [WalkT.twoWays, WalkT.createBlock, yields_take_bind] at h
  obtain ⟨c, s₁, h₁, h⟩ := yields_bind.1 h
  obtain ⟨b₁, rfl, laid₁⟩ := ht h₁
  simp only [WalkT.branch, WalkT.startBlock, yields_build_bind] at h
  obtain ⟨_, s₂, h₂, h⟩ := yields_bind.1 h
  obtain ⟨b₂, rfl, laid₂⟩ := hx h₂
  simp only [WalkT.jump, yields_build_bind] at h
  obtain ⟨_, s₃, h₃, h⟩ := yields_bind.1 h
  obtain ⟨b₃, rfl, laid₃⟩ := hy h₃
  simp only [yields_build_bind, yields_build] at h
  exact ⟨c, b₁, _, b₂, _, b₃, _, ⟨laid₁, rfl, laid₂, rfl, laid₃, rfl⟩, h₁, h₂, h₃, h⟩

lemma Lays.twoWays {x : Walk Unit} (on : Bool) (ht : t.Lays) (hx : x.Lays) (hy : y.Lays) :
    (WalkT.twoWays t on x y).Lays := by
  intro b T d u s' h
  obtain ⟨c, b₁, b₂, b₂', b₃, b₃', b', ways, -, -, -, rfl⟩ := yields_twoWays ht hx hy h
  exact ⟨b', rfl, ways.laid⟩

/-! ## Walks and executions -/

/-- The walk ends with a result, and the code that it has laid out is executed. -/
def Does (g : Graph) (M : Machine σ) (T : JumpTargets) (d : Nat) (x : Walk α) (b : Builder) (s : σ)
    (a : α) (b' : Builder) (s' : σ) : Prop :=
  x.Yields ⟨b, T, d⟩ a ⟨b', T, d⟩ ∧ g.Executes M b b' s s'

/-- The code of the walk leads to just one state, whatever its result, and `Q` holds of it. -/
def Computes (g : Graph) (M : Machine σ) (T : JumpTargets) (d : Nat) (x : Walk α) (b : Builder)
    (s : σ) (Q : α → Builder → σ → Prop) : Prop :=
  Live T b → ∀ a b', x.Yields ⟨b, T, d⟩ a ⟨b', T, d⟩ → b'.Within g →
    ∃ s', (∀ s'', g.Executes M b b' s s'' ↔ s'' = s') ∧ Q a b' s'

/-- From wherever the code of the walk is executed, it can come to its end. -/
def Finishes (g : Graph) (M : Machine σ) (T : JumpTargets) (d : Nat) (x : Walk α) : Prop :=
  ∀ ⦃b b' : Builder⦄ ⦃a : α⦄, Live T b → x.Yields ⟨b, T, d⟩ a ⟨b', T, d⟩ → b'.Within g →
    ∀ s, ∃ s', g.Executes M b b' s s'

namespace Computes

variable {x : Walk α} {f : α → Walk β} {b : Builder} {s : σ} {Q Q' : α → Builder → σ → Prop}
  {R : β → Builder → σ → Prop}

lemma mono (h : x.Computes g M T d b s Q) (hQ : ∀ a b' s', Q a b' s' → Q' a b' s') :
    x.Computes g M T d b s Q' := by
  intro live a b' yields hg
  obtain ⟨s', only, holds⟩ := h live a b' yields hg
  exact ⟨s', only, hQ a b' s' holds⟩

lemma pure {a : α} (h : Q a b s) : (Pure.pure a : Walk α).Computes g M T d b s Q := by
  intro live a' b' yields hg
  obtain ⟨rfl, ⟨⟩⟩ := yields_pure.1 yields
  exact ⟨s, fun s'' => (Graph.executes_quiet rfl rfl).trans (by simp [live.2]), h⟩

lemma allocTemp {Q : Binding → Builder → σ → Prop} (h : Q (.temporary b.nextTemp) b.allocTemp.2 s) :
    WalkT.allocTemp.Computes g M T d b s Q := by
  intro live a b' yields hg
  obtain ⟨rfl, ⟨⟩⟩ := yields_take.1 yields
  exact ⟨s, fun s'' => (Graph.executes_quiet rfl rfl).trans (by simp [live.2]), h⟩

lemma emit {Q : Unit → Builder → σ → Prop} (plain : i.isTerminator = false)
    (h : Q () (b.emit i) (M.act i s)) : (WalkT.emit i).Computes g M T d b s Q := by
  intro live a b' yields hg
  obtain ⟨⟩ := yields_build.1 yields
  exact ⟨M.act i s, fun s'' => by simp [Graph.executes_emit live.1.tidy plain hg, live.2], h⟩

lemma bind (first : x.Computes g M T d b s Q) (hx : x.Lays) (hf : ∀ a, (f a).Lays)
    (second : ∀ a b₁ s₁, b.nextTemp ≤ b₁.nextTemp → Q a b₁ s₁ →
      (f a).Computes g M T d b₁ s₁ R) : (x >>= f).Computes g M T d b s R := by
  intro live r b' yields hg
  obtain ⟨a, s₁, h₁, h₂⟩ := yields_bind.1 yields
  obtain ⟨b₁, rfl, laid₁⟩ := hx h₁
  obtain ⟨_, ⟨⟩, laid₂⟩ := hf a h₂
  obtain ⟨s₁, only₁, holds₁⟩ := first live a b₁ h₁ (hg.back laid₂.grows)
  obtain ⟨s₂, only₂, holds₂⟩ :=
    second a b₁ s₁ laid₁.nextTemp_le holds₁ (live.behind laid₁ ((only₁ s₁).2 rfl)) r b' h₂ hg
  refine ⟨s₂, fun s'' => ?_, holds₂⟩
  rw [Graph.executes_trans live.1 laid₁ laid₂ hg]
  simp [only₁, only₂]

lemma allocTemp_bind {f : Binding → Walk β} (hf : ∀ a, (f a).Lays)
    (h : (f (.temporary b.nextTemp)).Computes g M T d b.allocTemp.2 s R) :
    (WalkT.allocTemp >>= f).Computes g M T d b s R := by
  have first : WalkT.allocTemp.Computes g M T d b s fun t b₁ s₁ =>
      t = .temporary b.nextTemp ∧ b₁ = b.allocTemp.2 ∧ s₁ = s := allocTemp ⟨rfl, rfl, rfl⟩
  refine first.bind .allocTemp hf ?_
  rintro _ _ _ - ⟨rfl, rfl, rfl⟩
  exact h

lemma emit_bind {f : Unit → Walk β} (plain : i.isTerminator = false) (hf : ∀ a, (f a).Lays)
    (h : (f ()).Computes g M T d (b.emit i) (M.act i s) R) :
    (WalkT.emit i >>= f).Computes g M T d b s R := by
  have first : (WalkT.emit i).Computes g M T d b s fun _ b₁ s₁ =>
      b₁ = b.emit i ∧ s₁ = M.act i s := emit plain ⟨rfl, rfl⟩
  refine first.bind (.emit plain) hf ?_
  rintro _ _ _ - ⟨rfl, rfl⟩
  exact h

/-- The test decides on one of the ways. -/
lemma twoWays {z : Walk Unit} {on : Bool} {Q : Binding → Builder → σ → Prop} {R : Unit → σ → Prop}
    (ht : t.Lays) (hy : y.Lays) (hz : z.Lays)
    (test : t.Computes g M T d b.created.created.created s Q)
    (ways : ∀ c b₁ s₁, b.nextTemp ≤ b₁.nextTemp → Q c b₁ s₁ → ∃ way,
      (∀ way', M.takes (some c) s₁ way' ↔ way' = way) ∧ ∀ b₂, b₁.nextTemp ≤ b₂.nextTemp →
        (if way = on then y else z).Computes g M T d b₂ s₁ fun u _ => R u) :
    (WalkT.twoWays t on y z).Computes g M T d b s fun u _ => R u := by
  intro live u b' yields hg
  obtain ⟨c, b₁, b₂, b₂', b₃, b₃', b', forks, h₁, h₂, h₃, ⟨⟩⟩ := yields_twoWays ht hy hz yields
  obtain ⟨sited, ⟨sited₂, point₂⟩, ⟨sited₃, point₃⟩, -⟩ := live.1.twoWays forks
  have executes : ∀ s'', g.Executes M b b' s s'' ↔ _ :=
    fun _ => Graph.executes_twoWays live.1 forks hg
  obtain ⟨laid₁, rfl, laid₂, rfl, laid₃, rfl⟩ := forks
  have grown : b₃'.Within g := hg.startBlock.emit
  have grown₂ : b₂'.Within g := (grown.back laid₃.grows).startBlock.emit
  obtain ⟨s₁, only, holds⟩ := test ⟨sited, by simpa using live.2⟩ c b₁ h₁
    (grown₂.back laid₂.grows).startBlock.emit
  obtain ⟨way, takes, computes⟩ := ways c b₁ s₁ laid₁.nextTemp_le holds
  by_cases eq : way = on
  · rw [if_pos eq] at computes
    obtain ⟨s₂, only₂, holds₂⟩ := computes _ (by simp) ⟨sited₂, by simp [point₂]⟩ () b₂' h₂ grown₂
    refine ⟨s₂, fun s'' => ?_, holds₂⟩
    simp only [executes, only, takes, exists_eq_left, if_pos eq, only₂]
  · rw [if_neg eq] at computes
    obtain ⟨s₂, only₂, holds₂⟩ :=
      computes _ (by simpa using laid₂.nextTemp_le) ⟨sited₃, by simp [point₃]⟩ () b₃' h₃ grown
    refine ⟨s₂, fun s'' => ?_, holds₂⟩
    simp only [executes, only, takes, exists_eq_left, if_neg eq, only₂]

end Computes

namespace Finishes

variable {x : Walk α}

lemma nested {env : Environment} {info : Info} (hx : x.Lays) (h : x.Finishes g M T (d + 1)) :
    (WalkT.nested env info x).Finishes g M T d := by
  intro b b' a live walked hg s
  obtain ⟨_, yields, eq⟩ := yields_nested walked
  obtain ⟨_, rfl, -⟩ := hx yields
  cases eq
  exact h live yields hg s

end Finishes

end WalkT

end ControlFlow
