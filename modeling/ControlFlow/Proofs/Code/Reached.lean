import ControlFlow.Proofs.Code.Valid
/-!
# Moves from a base

What the operations of a builder do, as sequences of moves. All facts about blocks are given at a
base layout, from which the moves start: a block that is known there keeps its label.
-/

namespace ControlFlow

/-! ## Reached builders -/

/-- Moves lead from a base to a builder, with what is then known. -/
def Layout.Reached (G : Layout) (b : Builder) (now : Set Binding) (pending scope : Set BlockName) :
    Prop :=
  ∃ label, Moves G ⟨b, label, now, pending, scope⟩

/-- A block may be led to where some bindings hold a value. -/
def Layout.Accepts (G : Layout) (scope : Set BlockName) (now : Set Binding) (n : BlockName) : Prop :=
  n ∈ scope ∧ G.builder.Knows n ∧ G.label n ⊆ now

lemma Layout.Accepts.mono {G : Layout} {scope : Set BlockName} {now now' : Set Binding}
    {n : BlockName} (h : G.Accepts scope now n) (hn : now ⊆ now') : G.Accepts scope now' n :=
  ⟨h.1, h.2.1, h.2.2.trans hn⟩

namespace Layout.Reached

variable {G : Layout} {b b' : Builder} {A A' : Set Binding} {P P' E E' : Set BlockName}

lemma refl (G : Layout) : G.Reached G.builder G.now G.pending G.scope :=
  ⟨_, .refl⟩

variable (r : G.Reached b A P E)

include r

/-- Moves behind other moves. -/
lemma of_moves {G₀ : Layout} (h : Moves G₀ G) : G₀.Reached b A P E := by
  obtain ⟨L, hr⟩ := r
  exact ⟨L, h.trans hr⟩

lemma next : G.builder.nextBlock ≤ b.nextBlock := by
  obtain ⟨L, hr⟩ := r
  exact hr.frame.next

lemma quiet (graph : b'.graph = b.graph) (current : b'.current = b.current)
    (next : b'.nextBlock = b.nextBlock) : G.Reached b' A P E := by
  obtain ⟨L, hr⟩ := r
  exact ⟨L, hr.tail (.quiet graph current next)⟩

lemma note (e : Event) : G.Reached (b.note e) A P E := r.quiet rfl rfl rfl

lemma allocTemp : G.Reached b.allocTemp.2 A P E := r.quiet rfl rfl rfl

lemma forget (hE : E' ⊆ E) (hA : A' ⊆ A) : G.Reached b A' P E' := by
  obtain ⟨L, hr⟩ := r
  exact ⟨L, hr.tail (.forget hE hA)⟩

/-- There is a current block, a dead one if need be. -/
lemma opened : G.Reached b.opened A P E := by
  cases hb : b.current with
  | some n => rwa [Builder.opened_of_at hb]
  | none =>
    obtain ⟨L, hr⟩ := r
    exact ⟨_, (hr.tail (.openDead hb)).tail (.forget subset_rfl (Set.subset_univ A))⟩

lemma emit {i : Instruction} (plain : i.isTerminator = false) (ready : i.Ready A) :
    G.Reached (b.emit i) (A ∪ i.defs) P E := by
  obtain ⟨L, hr⟩ := r.opened
  obtain ⟨n, hat⟩ := b.exists_at_opened
  rw [← Builder.emit_opened]
  exact ⟨L, hr.tail (.emit plain hat ready)⟩

/-- The current block is ended, and leads to blocks that are known at the base. -/
lemma terminate {i : Instruction} (ends : i.isTerminator = true) (ready : i.Ready A)
    (targets : ∀ t ∈ i.targets, G.Accepts E A t) : G.Reached (b.emit i) Set.univ P E := by
  obtain ⟨L, hr⟩ := r.opened
  obtain ⟨n, hat⟩ := b.exists_at_opened
  rw [← Builder.emit_opened]
  refine ⟨L, hr.tail (.terminate ends hat ready fun t ht => ?_)⟩
  obtain ⟨h₁, h₂, h₃⟩ := targets t ht
  exact ⟨h₁, (hr.frame.label t h₂).symm ▸ h₃⟩

variable {n : BlockName}

lemma jump (hn : G.Accepts E A n) : G.Reached (b.jump n) Set.univ P E :=
  r.terminate rfl (by simp [Instruction.Ready, Instruction.reads])
    (by simpa [Instruction.targets] using hn)

lemma branch {c : Option Binding} {x y : BlockName} (hc : ∀ v ∈ c, v ∈ A) (hx : G.Accepts E A x)
    (hy : G.Accepts E A y) : G.Reached (b.branch c x y) Set.univ P E :=
  r.terminate rfl (by simpa [Instruction.Ready, Instruction.reads] using hc)
    (by simpa [Instruction.targets] using ⟨hx, hy⟩)

lemma branchOn {c : Binding} (on : Bool) {x y : BlockName} (hc : c ∈ A) (hx : G.Accepts E A x)
    (hy : G.Accepts E A y) : G.Reached (b.branchOn c on x y) Set.univ P E := by
  have hc : ∀ v ∈ some c, v ∈ A := by simpa using hc
  unfold Builder.branchOn
  split
  · exact r.branch hc hx hy
  · exact r.branch hc hy hx

/-- A block is begun where there is no current one. -/
lemma start (none : b.current = none) (mem : n ∈ P) (known : G.builder.Knows n) :
    G.Reached (b.startBlock n) (G.label n) (P \ {n}) E := by
  obtain ⟨L, hr⟩ := r
  rw [← hr.frame.label n known]
  exact ⟨L, hr.tail (.start none mem)⟩

/-- A block is begun, and an open block before it leads to it. -/
lemma startBlock (mem : n ∈ P) (hn : G.Accepts E A n) :
    G.Reached (b.startBlock n) (G.label n) (P \ {n}) E := by
  cases hb : b.current with
  | none => exact r.start hb mem hn.2.1
  | some m =>
    rw [Builder.startBlock_of_at hb]
    exact (r.jump hn).start (b.current_jump n) mem hn.2.1

end Layout.Reached

/-! ## Making blocks -/

/-- The layout with one more block, at whose start some bindings hold a value. -/
def Layout.create (G : Layout) (s : Set Binding) : Layout :=
  { G with
    builder := G.builder.created
    label := Function.update G.label G.builder.fresh s
    pending := insert G.builder.fresh G.pending
    scope := insert G.builder.fresh G.scope }

namespace Layout

variable {G : Layout} {s : Set Binding} {n : BlockName}

lemma moves_create (G : Layout) (s : Set Binding) : Moves G (G.create s) := .single (.create s)

@[simp] lemma now_create : (G.create s).now = G.now := rfl

lemma Valid.fresh_not_mem_pending (hG : G.Valid) : G.builder.fresh ∉ G.pending :=
  fun h => G.builder.not_knows_fresh (hG.pending _ h).1

lemma label_create (hn : G.builder.Knows n) (s : Set Binding) :
    (G.create s).label n = G.label n := by
  simp [Layout.create, Function.update_of_ne hn.ne_fresh]

variable {A : Set Binding}

lemma Accepts.create (h : G.Accepts G.scope A n) : (G.create s).Accepts (G.create s).scope A n :=
  ⟨Or.inr h.1, Builder.knows_created.2 (Or.inl h.2.1), (label_create h.2.1 s).symm ▸ h.2.2⟩

/-- A block that is made and not yet begun. -/
structure Made (G : Layout) (n : BlockName) (s : Set Binding) : Prop where
  pending : n ∈ G.pending
  scope : n ∈ G.scope
  known : G.builder.Knows n
  label : G.label n = s

lemma Made.accepts (h : G.Made n s) (hs : s ⊆ A) : G.Accepts G.scope A n :=
  ⟨h.scope, h.known, h.label.symm ▸ hs⟩

lemma Made.create (h : G.Made n s) {t : Set Binding} : (G.create t).Made n s where
  pending := Or.inr h.pending
  scope := Or.inr h.scope
  known := Builder.knows_created.2 (Or.inl h.known)
  label := (label_create h.known t).trans h.label

lemma made_create (G : Layout) (s : Set Binding) : (G.create s).Made G.builder.fresh s where
  pending := Or.inl rfl
  scope := Or.inl rfl
  known := Builder.knows_created.2 (Or.inr rfl)
  label := Function.update_self ..

/-- The second layout is the first one with some blocks made, the last one first. -/
structure Makes (G G₁ : Layout) (ns : List (BlockName × Set Binding)) : Prop where
  moves : Moves G G₁
  valid : G₁.Valid
  now : G₁.now = G.now
  made : ∀ {n : BlockName} {s : Set Binding}, (n, s) ∈ ns → G₁.Made n s
  accepts : ∀ {n : BlockName} {A : Set Binding}, G.Accepts G.scope A n → G₁.Accepts G₁.scope A n
  scope : G.scope ⊆ G₁.scope
  pending : ∀ n, n ∈ G₁.pending ↔ n ∈ G.pending ∨ n ∈ ns.map (·.1)
  new : ∀ n ∈ ns.map (·.1), n ∉ G.pending
  nodup : (ns.map (·.1)).Nodup

namespace Makes

variable {G₁ : Layout} {ns : List (BlockName × Set Binding)}

lemma nil (hG : G.Valid) : Makes G G [] :=
  ⟨.refl, hG, rfl, by simp, id, subset_rfl, by simp, by simp, by simp⟩

lemma create (h : Makes G G₁ ns) (s : Set Binding) :
    Makes G (G₁.create s) ((G₁.builder.fresh, s) :: ns) where
  moves := h.moves.trans (G₁.moves_create s)
  valid := (G₁.moves_create s).valid h.valid
  now := h.now
  made := by
    rintro n t (_ | ⟨_, hp⟩)
    · exact G₁.made_create s
    · exact (h.made hp).create
  accepts hn := (h.accepts hn).create
  scope := h.scope.trans (Set.subset_insert _ _)
  pending n := by
    have : n ∈ (G₁.create s).pending ↔ n = G₁.builder.fresh ∨ n ∈ G₁.pending := Iff.rfl
    rw [this, h.pending, List.map_cons, List.mem_cons]
    tauto
  new := by
    rintro n (_ | ⟨_, hn⟩)
    · exact fun hp => h.valid.fresh_not_mem_pending ((h.pending _).2 (Or.inl hp))
    · exact h.new n hn
  nodup := by
    rw [List.map_cons, List.nodup_cons]
    refine ⟨fun hm => ?_, h.nodup⟩
    obtain ⟨p, hp, hn⟩ := List.mem_map.1 hm
    exact (h.made hp).known.ne_fresh hn

/-- What was pending before blocks were made is what is left when all of them are begun. -/
lemma pending_eq (h : Makes G G₁ ns) {P : Set BlockName}
    (hP : ∀ n, n ∈ P ↔ n ∈ G₁.pending ∧ n ∉ ns.map (·.1)) : P = G.pending := by
  ext n
  rw [hP, h.pending]
  have := h.new n
  tauto

/-- All that was known before blocks were made is as it was. -/
lemma close (h : Makes G G₁ ns) {b : Builder} {A' : Set Binding} {P : Set BlockName}
    (r : G₁.Reached b A P G₁.scope) (hP : ∀ n, n ∈ P ↔ n ∈ G₁.pending ∧ n ∉ ns.map (·.1))
    (hA : A' ⊆ A) : G.Reached b A' G.pending G.scope := by
  rw [h.pending_eq hP] at r
  exact (r.of_moves h.moves).forget h.scope hA

end Makes

end Layout

end ControlFlow
