import Mathlib.Data.Set.Insert
import ControlFlow.Proofs.Graph.View
/-!
# How a builder grows

What the operations of a builder do to the views of its graph, and what any number of them leaves
alone. A builder knows the names that it has given out; `Extends` says that only the block that was
current and blocks with new names are filled, and that edges lead to given blocks or to new ones.
-/

namespace ControlFlow

lemma Instruction.targets_eq_nil {i : Instruction} (h : i.isTerminator = false) :
    i.targets = [] := by
  cases i <;> first
    | rfl
    | cases h

namespace Builder

variable {b : Builder} {n name : BlockName} {i : Instruction}

/-! ## Names -/

/-- The name of the next block. -/
def fresh (b : Builder) : BlockName := .numbered b.nextBlock

/-- The builder with its next block made. -/
def created (b : Builder) : Builder := b.createBlock.2

/-- A name that has been given out, or stands for the entry or the exit. -/
def Knows (b : Builder) (name : BlockName) : Prop := name.rank < b.nextBlock + 2

/-- The builder with a current block, a new one if there was none. -/
def opened (b : Builder) : Builder := b.openBlock.2

/-- The block is the current one. -/
def At (b : Builder) (name : BlockName) : Prop := b.current = some name

/-- The current block is one of the graph. -/
def Rooted (b : Builder) : Prop := ∀ n, b.At n → n ∈ b.graph.names

lemma not_knows_fresh (b : Builder) : ¬ b.Knows b.fresh := by
  simp [Knows, fresh, BlockName.rank]

lemma Knows.ne_fresh (h : b.Knows n) : n ≠ b.fresh := by
  rintro rfl
  exact b.not_knows_fresh h

lemma Knows.mono {b' : Builder} (h : b.Knows n) (le : b.nextBlock ≤ b'.nextBlock) : b'.Knows n :=
  h.trans_le (Nat.add_le_add_right le 2)

lemma knows_succ (hn : n.rank < b.nextBlock + 1 + 2) : b.Knows n ∨ n = b.fresh := by
  cases n with
  | enter => exact Or.inl (by simp [Knows, BlockName.rank])
  | exit => exact Or.inl (by simp [Knows, BlockName.rank])
  | numbered k =>
    simp only [Knows, BlockName.rank, fresh, BlockName.numbered.injEq] at hn ⊢
    omega

lemma knows_created : b.created.Knows n ↔ b.Knows n ∨ n = b.fresh := by
  refine ⟨fun h => knows_succ h, ?_⟩
  rintro (h | rfl)
  · exact h.mono (Nat.le_succ _)
  · simp [Knows, fresh, created, createBlock, reserveBlock, note, BlockName.rank]

/-! ## Views of the operations -/

@[simp] lemma graph_created (b : Builder) : b.created.graph = b.graph.addBlock b.fresh := rfl

@[simp] lemma current_created (b : Builder) : b.created.current = b.current := rfl

@[simp] lemma nextBlock_created (b : Builder) : b.created.nextBlock = b.nextBlock + 1 := rfl

lemma emit_eq (h : b.At n) :
    b.emit i = { b with
      graph := connect n i.targets (b.graph.push n i)
      current := if i.isTerminator then none else some n } := by
  unfold emit openBlock
  rw [h]

lemma startBlock_eq (h : b.current = none) :
    b.startBlock n = { b with graph := b.graph.addBlock n, current := some n } := by
  simp [startBlock, h]

lemma opened_eq (h : b.current = none) : b.opened = { b.created with current := some b.fresh } := by
  unfold opened openBlock
  rw [h]
  rfl

lemma opened_of_at (h : b.At n) : b.opened = b := by
  rw [opened, openBlock, h]

lemma exists_at_opened (b : Builder) : ∃ n, b.opened.At n := by
  cases hb : b.current with
  | some n => exact ⟨n, by rw [opened_of_at hb]; exact hb⟩
  | none => exact ⟨b.fresh, by rw [opened_eq hb]; rfl⟩

lemma emit_opened (b : Builder) (i : Instruction) : b.opened.emit i = b.emit i := by
  cases hb : b.current with
  | some n => rw [opened_of_at hb]
  | none => simp [emit, opened, openBlock, hb]

lemma current_emit (b : Builder) (ends : i.isTerminator = true) : (b.emit i).current = none := by
  obtain ⟨n, hn⟩ := b.exists_at_opened
  rw [← emit_opened, emit_eq hn]
  simp [ends]

@[simp] lemma current_jump (b : Builder) (n : BlockName) : (b.jump n).current = none :=
  b.current_emit rfl

@[simp] lemma current_branch (b : Builder) (c : Option Binding) (x y : BlockName) :
    (b.branch c x y).current = none :=
  b.current_emit rfl

@[simp] lemma current_branchOn (b : Builder) (c : Binding) (on : Bool) (x y : BlockName) :
    (b.branchOn c on x y).current = none := by
  unfold branchOn
  split <;> simp

@[simp] lemma current_endRun (b : Builder) (v : Binding) (bodyBlock after : BlockName) :
    (b.endRun v bodyBlock after).current = none :=
  current_branch _ _ _ _

lemma current_land (h : b.current = none) (landing bodyBlock after : BlockName) :
    (b.land landing bodyBlock after).current = none := by
  unfold land
  split
  · exact current_endRun ..
  · exact h

lemma startBlock_of_at {m : BlockName} (h : b.At m) (n : BlockName) :
    b.startBlock n = (b.jump n).startBlock n := by
  rw [startBlock_eq (b.current_jump n)]
  simp [startBlock, show b.current = some m from h]

/-! ## Growth -/

/-- The names that have been given out since. -/
def since (b b' : Builder) : Set BlockName := {n | b'.Knows n ∧ ¬ b.Knows n}

/-- The second builder has grown from the first one: blocks in `W` and new ones have been filled, and
edges have been added that lead to blocks in `S` and to new ones. -/
structure Extends (W S : Set BlockName) (b b' : Builder) : Prop where
  next : b.nextBlock ≤ b'.nextBlock
  current : ∀ n, b'.At n → n ∈ W ∪ b.since b'
  rooted : b.Rooted → b'.Rooted
  code : ∀ n ∉ W ∪ b.since b', b'.graph.code n = b.graph.code n
  grows : ∀ n, b.graph.code n <+: b'.graph.code n
  names : ∀ n ∈ b.graph.names, n ∈ b'.graph.names
  named : ∀ n ∈ b'.graph.names, n ∈ b.graph.names ∨ n ∈ W ∪ b.since b' ∨ n ∈ S
  edges : ∃ added, b'.graph.edges = b.graph.edges ++ added ∧
    ∀ e ∈ added, e.source ∈ W ∪ b.since b' ∧ e.target ∈ S ∪ b.since b'

lemma fresh_mem_since {b₀ b' : Builder} :
    b.fresh ∈ b₀.since b' ↔ b₀.nextBlock ≤ b.nextBlock ∧ b.nextBlock < b'.nextBlock := by
  simp only [since, Knows, fresh, BlockName.rank, Set.mem_ofPred_eq]
  omega

namespace Extends

variable {W W' S S' N : Set BlockName} {b₀ b' : Builder}

lemma refl (hW : ∀ n, b.At n → n ∈ W) : Extends W S b b where
  next := le_rfl
  current n hn := Or.inl (hW n hn)
  rooted h := h
  code _ _ := rfl
  grows _ := List.prefix_rfl
  names _ h := h
  named _ h := Or.inl h
  edges := ⟨[], by simp⟩

lemma self : Extends {n | b.At n} S b b := refl fun _ h => h

lemma own : Extends ({n | b.At n} ∪ W) S b b := refl fun _ h => Or.inl h

lemma any : Extends Set.univ S b b := refl fun _ _ => trivial

variable (h : Extends W S b₀ b)

include h

lemma since_subset (h' : Extends W' S' b b') :
    b₀.since b ⊆ b₀.since b' ∧ b.since b' ⊆ b₀.since b' :=
  ⟨fun _ hn => ⟨hn.1.mono h'.next, hn.2⟩, fun _ hn => ⟨hn.1, fun hk => hn.2 (hk.mono h.next)⟩⟩

lemma trans (h' : Extends W' S' b b') (hW : W' ⊆ W ∪ b₀.since b) (hS : S' ⊆ S ∪ b₀.since b) :
    Extends W S b₀ b' := by
  obtain ⟨h₁, h₂⟩ := h.since_subset h'
  have fills : W' ∪ b.since b' ⊆ W ∪ b₀.since b' :=
    Set.union_subset (hW.trans (Set.union_subset_union_right _ h₁))
      (h₂.trans Set.subset_union_right)
  have leads : S' ∪ b.since b' ⊆ S ∪ b₀.since b' :=
    Set.union_subset (hS.trans (Set.union_subset_union_right _ h₁))
      (h₂.trans Set.subset_union_right)
  have earlier : W ∪ b₀.since b ⊆ W ∪ b₀.since b' := Set.union_subset_union_right _ h₁
  refine ⟨h.next.trans h'.next, fun n hn => fills (h'.current n hn),
    fun rooted => h'.rooted (h.rooted rooted), fun n hn => ?_,
    fun n => (h.grows n).trans (h'.grows n), fun n hn => h'.names n (h.names n hn),
    fun n hn => ?_, ?_⟩
  · exact (h'.code n fun hn' => hn (fills hn')).trans (h.code n fun hn' => hn (earlier hn'))
  · rcases h'.named n hn with hn | hn | hn
    · exact (h.named n hn).imp_right (Or.imp_left fun hn => earlier hn)
    · exact Or.inr (Or.inl (fills hn))
    · rcases hS hn with hn | hn
      · exact Or.inr (Or.inr hn)
      · exact Or.inr (Or.inl (Or.inr (h₁ hn)))
  · obtain ⟨added, he, ha⟩ := h.edges
    obtain ⟨added', he', ha'⟩ := h'.edges
    refine ⟨added ++ added', by rw [he', he, List.append_assoc], fun e hm => ?_⟩
    rcases List.mem_append.1 hm with hm | hm
    · exact ⟨earlier (ha e hm).1, Set.union_subset_union_right _ h₁ (ha e hm).2⟩
    · exact ⟨fills (ha' e hm).1, leads (ha' e hm).2⟩

lemma mono (hW : W ⊆ W') (hS : S ⊆ S') : Extends W' S' b₀ b where
  next := h.next
  current n hn := (h.current n hn).imp_left fun h => hW h
  rooted := h.rooted
  code n hn := h.code n fun hn' => hn (hn'.imp_left fun h => hW h)
  grows := h.grows
  names := h.names
  named n hn := (h.named n hn).imp_right (Or.imp (Or.imp_left fun h => hW h) fun h => hS h)
  edges := by
    obtain ⟨added, he, ha⟩ := h.edges
    exact ⟨added, he, fun e hm => ⟨(ha e hm).1.imp_left fun h => hW h,
      (ha e hm).2.imp_left fun h => hS h⟩⟩

/-- Blocks that are made at the start are filled and led to afterwards. -/
lemma enclose (hN : N ⊆ b₀.since b) (h' : Extends (W ∪ N) (S ∪ N) b b') : Extends W S b₀ b' :=
  h.trans h' (Set.union_subset_union_right _ hN) (Set.union_subset_union_right _ hN)

/-- What changes neither code nor edges. -/
lemma still (next : b.nextBlock ≤ b'.nextBlock) (current : ∀ n, b'.At n → n ∈ W ∪ b₀.since b')
    (rooted : b₀.Rooted → b'.Rooted) (code : ∀ n, b'.graph.code n = b.graph.code n)
    (names : ∀ n, n ∈ b.graph.names → n ∈ b'.graph.names)
    (named : ∀ n, n ∈ b'.graph.names → n ∈ b.graph.names ∨ n ∈ W ∪ b₀.since b')
    (edges : b'.graph.edges = b.graph.edges) : Extends W S b₀ b' := by
  have later : ∀ X : Set BlockName, X ∪ b₀.since b ⊆ X ∪ b₀.since b' := fun X =>
    Set.union_subset_union_right X fun _ hn => ⟨hn.1.mono next, hn.2⟩
  refine ⟨h.next.trans next, current, rooted, fun n hn => ?_, fun n => ?_, fun n hn => ?_,
    fun n hn => ?_, ?_⟩
  · exact (code n).trans (h.code n fun hn' => hn (later _ hn'))
  · rw [code]
    exact h.grows n
  · exact names n (h.names n hn)
  · rcases named n hn with hn | hn
    · exact (h.named n hn).imp_right (Or.imp_left fun hn => later _ hn)
    · exact Or.inr (Or.inl hn)
  · obtain ⟨added, he, ha⟩ := h.edges
    exact ⟨added, edges.trans he, fun e hm => ⟨later _ (ha e hm).1, later _ (ha e hm).2⟩⟩

lemma quiet (graph : b'.graph = b.graph) (current : b'.current = b.current)
    (next : b'.nextBlock = b.nextBlock) : Extends W S b₀ b' := by
  have hs : b₀.since b' = b₀.since b := by simp [since, Knows, next]
  exact h.still next.ge (fun n hn => hs ▸ h.current n (current.symm.trans hn))
    (fun rooted n hn => graph ▸ h.rooted rooted n (current.symm.trans hn)) (by simp [graph])
    (by simp [graph]) (fun n hn => Or.inl (graph ▸ hn)) (by rw [graph])

lemma note (e : Event) : Extends W S b₀ (b.note e) := h.quiet rfl rfl rfl

lemma allocTemp : Extends W S b₀ b.allocTemp.2 := h.quiet rfl rfl rfl

/-- A name is given out, for a block of the graph or not. -/
lemma named_fresh (next : b'.nextBlock = b.nextBlock + 1)
    (current : b'.current = b.current ∨
      b'.current = some b.fresh ∧ b'.graph = b.graph.addBlock b.fresh)
    (graph : b'.graph = b.graph ∨ b'.graph = b.graph.addBlock b.fresh) : Extends W S b₀ b' := by
  have knows : ∀ n, b'.Knows n ↔ b.Knows n ∨ n = b.fresh := fun n => by
    rw [← knows_created]
    simp [Knows, next]
  have new : b.fresh ∈ b₀.since b' :=
    ⟨(knows _).2 (Or.inr rfl), fun hk => b.not_knows_fresh (hk.mono h.next)⟩
  have names : ∀ n ∈ b.graph.names, n ∈ b'.graph.names := by
    rcases graph with hg | hg <;> simp +contextual [hg]
  refine h.still (by omega) (fun n hn => ?_) (fun rooted n hn => ?_) (fun n => ?_) names
    (fun n hn => ?_) ?_
  · rcases current with hc | ⟨hc, -⟩
    · exact (h.current n (hc.symm.trans hn)).imp_right fun hn => ⟨(knows n).2 (Or.inl hn.1), hn.2⟩
    · obtain rfl := Option.mem_unique hc hn
      exact Or.inr new
  · rcases current with hc | ⟨hc, hg⟩
    · exact names n (h.rooted rooted n (hc.symm.trans hn))
    · obtain rfl := Option.mem_unique hc hn
      simp [hg]
  · rcases graph with hg | hg <;> simp [hg]
  · rcases graph with hg | hg
    · exact Or.inl (hg ▸ hn)
    · rw [hg, Graph.mem_names_addBlock] at hn
      rcases hn with hn | rfl
      · exact Or.inl hn
      · exact Or.inr (Or.inr new)
  · rcases graph with hg | hg <;> simp [hg]

lemma created : Extends W S b₀ b.created :=
  h.named_fresh rfl (Or.inl rfl) (Or.inr rfl)

lemma reserveBlock : Extends W S b₀ b.reserveBlock.2 :=
  h.named_fresh rfl (Or.inl rfl) (Or.inl rfl)

lemma opened : Extends W S b₀ b.opened := by
  cases hb : b.current with
  | some n => rwa [opened_of_at hb]
  | none =>
    rw [opened_eq hb]
    exact h.named_fresh rfl (Or.inr ⟨rfl, rfl⟩) (Or.inr rfl)

lemma suspend : Extends W S b₀ b.suspend.2 :=
  h.still le_rfl (by rintro n ⟨⟩) (by rintro - n ⟨⟩) (fun _ => rfl) (fun _ hn => hn)
    (fun _ hn => Or.inl hn) rfl

lemma resume {name : Option BlockName} (hn : ∀ n, name = some n → n ∈ W ∪ b₀.since b)
    (rooted : b₀.Rooted → ∀ n, name = some n → n ∈ b.graph.names) : Extends W S b₀ (b.resume name) :=
  h.still le_rfl hn rooted (fun _ => rfl) (fun _ hn => hn) (fun _ hn => Or.inl hn) rfl

lemma emit (targets : ∀ t ∈ i.targets, t ∈ S) : Extends W S b₀ (b.emit i) := by
  obtain ⟨n, hn⟩ := b.exists_at_opened
  have ho := h.opened
  rw [← emit_opened]
  have step : Extends {n} S b.opened (b.opened.emit i) := by
    have current : ∀ m, (b.opened.emit i).At m → m = n := fun m hm => by
      simp only [emit_eq hn, At] at hm
      split at hm
      · cases hm
      · exact (Option.some.inj hm).symm
    refine ⟨by rw [emit_eq hn], fun m hm => Or.inl (current m hm), fun rooted m hm => ?_,
      fun m hm => ?_, fun m => ?_, fun m hm => ?_, fun m hm => ?_, ?_⟩
    · rw [current m hm]
      simp [emit_eq hn, rooted n hn]
    · have hne : m ≠ n := fun e => hm (Or.inl e)
      simp [emit_eq hn, Graph.code_push_of_ne _ hne]
    · simp only [emit_eq hn, Graph.code_connect, Graph.code_push]
      split
      · exact List.prefix_append _ _
      · exact List.prefix_rfl
    · simp [emit_eq hn, hm]
    · simp only [emit_eq hn, Graph.mem_names_connect, Graph.names_push] at hm
      exact hm.imp_right fun hm => Or.inr (targets m hm)
    · refine ⟨i.targets.map (⟨n, ·⟩), by simp [emit_eq hn], fun e he => ?_⟩
      obtain ⟨t, ht, rfl⟩ := List.mem_map.1 he
      exact ⟨Or.inl rfl, Or.inl (targets t ht)⟩
  exact ho.trans step (by simpa using ho.current n hn) Set.subset_union_left

lemma plain (plain : i.targets = []) : Extends W S b₀ (b.emit i) :=
  h.emit (by simp [plain])

lemma jump (hn : n ∈ S) : Extends W S b₀ (b.jump n) :=
  h.emit (by simpa [Instruction.targets] using hn)

variable {x y : BlockName}

lemma branch {c : Option Binding} (hx : x ∈ S) (hy : y ∈ S) : Extends W S b₀ (b.branch c x y) :=
  h.emit (by simpa [Instruction.targets] using ⟨hx, hy⟩)

lemma branchOn (c : Binding) (on : Bool) (hx : x ∈ S) (hy : y ∈ S) :
    Extends W S b₀ (b.branchOn c on x y) := by
  unfold Builder.branchOn
  split
  · exact h.branch hx hy
  · exact h.branch hy hx

/-- A block is begun. -/
lemma startBlock (hn : n ∈ W) (hs : n ∈ S) : Extends W S b₀ (b.startBlock n) := by
  have begun : ∀ {b : Builder}, Extends W S b₀ b →
      Extends W S b₀ { b with graph := b.graph.addBlock n, current := some n } := by
    intro b h
    refine h.still le_rfl (fun m hm => ?_) (fun _ m hm => ?_) (by simp) (by simp +contextual)
      (fun m hm => ?_) (by simp)
    · obtain rfl : n = m := Option.some.inj hm
      exact Or.inl hn
    · obtain rfl : n = m := Option.some.inj hm
      simp
    · rcases (Graph.mem_names_addBlock _).1 hm with hm | rfl
      · exact Or.inl hm
      · exact Or.inr (Or.inl hn)
  unfold Builder.startBlock
  split
  · exact begun (h.jump hs)
  · exact begun h

lemma endRun {v : Binding} (hx : x ∈ S) (hy : y ∈ S) : Extends W S b₀ (b.endRun v x y) :=
  (h.plain rfl).branch hx hy

lemma land {landing : BlockName} (hl : landing ∈ W) (hs : landing ∈ S) (hx : x ∈ S) (hy : y ∈ S) :
    Extends W S b₀ (b.land landing x y) := by
  unfold Builder.land
  split
  · exact ((h.startBlock hl hs).allocTemp.plain rfl).endRun hx hy
  · exact h

end Extends

end Builder

end ControlFlow
