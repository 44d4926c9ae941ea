import Mathlib.Logic.Relation
import ControlFlow.Proofs.Code.Cover
/-!
# Moves of a builder

Laying out code is a sequence of small moves: a block is made, opened, filled, ended, left open or
gone on with. A `Layout` is a builder together with what is known about it at some point: which
blocks are still to be filled, which ones may still be led to, and which bindings hold a value at the
start of each block.

What moves keep is proved in `Valid`.
-/

namespace ControlFlow

/-! ## Layouts -/

/-- A builder with what is known about it. -/
structure Layout where
  builder : Builder
  /-- The bindings that hold a value at the start of each block. -/
  label : BlockName → Set Binding
  /-- The bindings that hold a value now. -/
  now : Set Binding
  /-- The blocks that are still to be filled. -/
  pending : Set BlockName
  /-- The blocks that may still be led to. -/
  scope : Set BlockName

/-- The binding that an instruction writes, as a set. -/
def Instruction.defs (i : Instruction) : Set Binding := {b | i.dest? = some b}

/-- All bindings that an instruction reads hold a value. -/
def Instruction.Ready (i : Instruction) (now : Set Binding) : Prop := ∀ b ∈ i.reads, b ∈ now

/-- The bindings that instructions write. -/
def Instruction.allDefs (is : List Instruction) : Set Binding := {b | ∃ i ∈ is, b ∈ i.defs}

/-- One move. -/
inductive Move : Layout → Layout → Prop where
  /-- A temporary is taken or an event is noted. -/
  | quiet {G : Layout} {b : Builder} (graph : b.graph = G.builder.graph)
      (current : b.current = G.builder.current) (next : b.nextBlock = G.builder.nextBlock) :
      Move G { G with builder := b }
  /-- A block is made. -/
  | create {G : Layout} (s : Set Binding) :
      Move G { G with
        builder := G.builder.created
        label := Function.update G.label G.builder.fresh s
        pending := insert G.builder.fresh G.pending
        scope := insert G.builder.fresh G.scope }
  /-- The name of a block is given out. -/
  | reserve {G : Layout} (s : Set Binding) :
      Move G { G with
        builder := G.builder.reserveBlock.2
        label := Function.update G.label G.builder.fresh s
        pending := insert G.builder.fresh G.pending
        scope := insert G.builder.fresh G.scope }
  /-- A block is made that nothing leads to. -/
  | openDead {G : Layout} (none : G.builder.current = none) :
      Move G { G with
        builder := G.builder.opened
        label := Function.update G.label G.builder.fresh Set.univ
        now := Set.univ }
  /-- An instruction is added that does not end the block. -/
  | emit {G : Layout} {n : BlockName} {i : Instruction} (plain : i.isTerminator = false)
      (at_ : G.builder.At n) (ready : i.Ready G.now) :
      Move G { G with builder := G.builder.emit i, now := G.now ∪ i.defs }
  /-- The block is ended. -/
  | terminate {G : Layout} {n : BlockName} {i : Instruction} (ends : i.isTerminator = true)
      (at_ : G.builder.At n) (ready : i.Ready G.now)
      (targets : ∀ t ∈ i.targets, t ∈ G.scope ∧ G.label t ⊆ G.now) :
      Move G { G with builder := G.builder.emit i, now := Set.univ }
  /-- A block is begun. -/
  | start {G : Layout} {n : BlockName} (none : G.builder.current = none) (mem : n ∈ G.pending) :
      Move G { G with
        builder := G.builder.startBlock n
        now := G.label n
        pending := G.pending \ {n} }
  /-- A block is left open. -/
  | suspend {G : Layout} {n : BlockName} (at_ : G.builder.At n) :
      Move G { G with
        builder := G.builder.suspend.2
        now := Set.univ
        pending := insert n G.pending }
  /-- A block that was left open is gone on with. -/
  | resume {G : Layout} {n : BlockName} {s : Set Binding} (none : G.builder.current = none)
      (mem : n ∈ G.pending) (names : n ∈ G.builder.graph.names)
      (holds : s ⊆ G.label n ∪ Instruction.allDefs (G.builder.graph.code n)) :
      Move G { G with
        builder := G.builder.resume (some n)
        now := s
        pending := G.pending \ {n} }
  /-- A name is not used after all. -/
  | drop {G : Layout} {n : BlockName} (mem : n ∈ G.pending)
      (unused : n ∉ G.builder.graph.names) :
      Move G { G with pending := G.pending \ {n}, scope := G.scope \ {n} }
  /-- Some blocks are not led to any more, and less is known. -/
  | forget {G : Layout} {scope : Set BlockName} {now : Set Binding} (hs : scope ⊆ G.scope)
      (hn : now ⊆ G.now) : Move G { G with scope := scope, now := now }

namespace Instruction

lemma allDefs_append (p q : List Instruction) : allDefs (p ++ q) = allDefs p ∪ allDefs q := by
  ext b
  simp only [allDefs, List.mem_append, Set.mem_ofPred_eq, Set.mem_union, or_and_right, exists_or]

lemma allDefs_singleton (i : Instruction) : allDefs [i] = i.defs := by
  ext b
  simp [allDefs]

lemma Ready.mono {i : Instruction} {s t : Set Binding} (h : i.Ready s) (hs : s ⊆ t) : i.Ready t :=
  fun b hb => hs (h b hb)

end Instruction

/-! ## What a move leaves alone -/

/-- What moves leave alone. -/
structure Layout.Frame (G G' : Layout) : Prop where
  next : G.builder.nextBlock ≤ G'.builder.nextBlock
  label : ∀ n, G.builder.Knows n → G'.label n = G.label n

namespace Layout.Frame

variable {G G₁ G₂ : Layout}

lemma refl (G : Layout) : Frame G G := ⟨le_rfl, fun _ _ => rfl⟩

lemma trans (h : Frame G G₁) (h' : Frame G₁ G₂) : Frame G G₂ where
  next := h.next.trans h'.next
  label n hn := (h'.label n (hn.mono h.next)).trans (h.label n hn)

end Layout.Frame

lemma Move.frame {G G' : Layout} (h : Move G G') : G.Frame G' := by
  have fresh : ∀ (s : Set Binding) (n : BlockName), G.builder.Knows n →
      Function.update G.label G.builder.fresh s n = G.label n :=
    fun s n hn => Function.update_of_ne hn.ne_fresh s G.label
  cases h with
  | quiet graph current next => exact ⟨next.ge, fun _ _ => rfl⟩
  | create s => exact ⟨Nat.le_succ _, fresh s⟩
  | reserve s => exact ⟨Nat.le_succ _, fresh s⟩
  | openDead none =>
    refine ⟨?_, fresh _⟩
    rw [Builder.opened_eq none]
    exact Nat.le_succ _
  | emit plain at_ ready => exact ⟨by rw [Builder.emit_eq at_], fun _ _ => rfl⟩
  | terminate ends at_ ready targets =>
    exact ⟨by rw [Builder.emit_eq at_], fun _ _ => rfl⟩
  | start none mem => exact ⟨by rw [Builder.startBlock_eq none], fun _ _ => rfl⟩
  | suspend at_ => exact ⟨le_rfl, fun _ _ => rfl⟩
  | resume none mem names holds => exact ⟨le_rfl, fun _ _ => rfl⟩
  | drop mem unused => exact ⟨le_rfl, fun _ _ => rfl⟩
  | forget hs hn => exact ⟨le_rfl, fun _ _ => rfl⟩

/-! ## Sequences of moves -/

/-- Moves one after the other. -/
abbrev Moves : Layout → Layout → Prop := Relation.ReflTransGen Move

lemma Moves.frame {G G' : Layout} (h : Moves G G') : G.Frame G' := by
  induction h with
  | refl => exact .refl G
  | tail _ h ih => exact ih.trans h.frame

end ControlFlow
