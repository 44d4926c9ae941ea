import Mathlib.Data.List.Pairwise
import Mathlib.Data.Set.Lattice
import Mathlib.Order.CompletePartialOrder
import ControlFlow.Proofs.Code.Extends
/-!
# What surrounds a region

A region consists of its body and of parts that run the `ensure` clause: the copies, and the clause on
the way through. In the graph that it is laid out in, its body is entered by one edge only and is left
only for the starts of these parts, and each part is entered only from the body and is left only for
blocks outside.

The main result is `Region.Grows.covers`.
-/

namespace ControlFlow

open Builder

/-! ## Sets of blocks with a boundary -/

/-- Edges that lead into `X` from elsewhere are in `I`, and those that lead out of `X` lead to
`S`. -/
structure Bounded (E : List Edge) (X : Set BlockName) (I : Set Edge) (S : Set BlockName) : Prop where
  enter : ∀ e ∈ E, e.target ∈ X → e.source ∈ X ∨ e ∈ I
  leave : ∀ e ∈ E, e.source ∈ X → e.target ∈ X ∨ e.target ∈ S

namespace Bounded

variable {E E' : List Edge} {X S : Set BlockName} {I : Set Edge}

lemma append (h : Bounded E X I S) (h' : Bounded E' X I S) : Bounded (E ++ E') X I S where
  enter e he := (List.mem_append.1 he).elim (h.enter e) (h'.enter e)
  leave e he := (List.mem_append.1 he).elim (h.leave e) (h'.leave e)

/-- Edges that stay outside. -/
lemma outside (h : ∀ e ∈ E, e.source ∉ X ∧ e.target ∉ X) : Bounded E X I S where
  enter e he ht := absurd ht (h e he).2
  leave e he hs := absurd hs (h e he).1

/-- Edges that start outside. -/
lemma into (h : ∀ e ∈ E, e.source ∉ X ∧ (e.target ∈ X → e ∈ I)) : Bounded E X I S where
  enter e he ht := Or.inr ((h e he).2 ht)
  leave e he hs := absurd hs (h e he).1

end Bounded

/-! ## Parts of a region -/

/-- A run of the clause of a region. -/
structure Part where
  /-- Where the clause starts. -/
  entry : BlockName
  blocks : Set BlockName
  /-- Where it leads. -/
  exits : Set BlockName

namespace Region

variable (r : Region)

/-- The blocks of the statements. -/
def body : Set BlockName := insert r.bodyBlock (r.landed.since r.left)

/-- The blocks of the clause on the way through. -/
def clauseBlocks : Set BlockName := {n | n ∈ r.left.since r.finish ∧ n ≠ r.after}

/-- The runs of the clause. -/
def parts : List Part :=
  ⟨r.ensureBlock, r.clauseBlocks, insert r.after r.targets.names⟩ ::
    r.copies.map fun c => ⟨c.landing, c.blocks, r.targets.names⟩

/-- The edge from the end of the statements to the clause, if that end can be reached. -/
def through : List Edge := r.left.current.toList.map (⟨·, r.ensureBlock⟩)

/-- All blocks of the region. -/
def blocks : Set BlockName := r.body ∪ {n | ∃ p ∈ r.parts, n ∈ p.blocks}

/-- The statements are entered from one block outside and are left only for runs of the clause, which
are entered only from the statements and are left only for blocks outside. -/
structure Covers (E : List Edge) : Prop where
  body : ∃ m ∉ r.blocks, Bounded E r.body {⟨m, r.bodyBlock⟩} {n | ∃ p ∈ r.parts, n = p.entry}
  part : ∀ p ∈ r.parts, Bounded E p.blocks {e | e.source ∈ r.body ∧ e.target = p.entry} p.exits

/-- The parts of the region have no blocks in common, and lead out of it. -/
structure Separate : Prop where
  entry : ∀ p ∈ r.parts, p.entry ∈ p.blocks
  body : ∀ p ∈ r.parts, Disjoint p.blocks r.body
  parts : r.parts.Pairwise fun p q => Disjoint p.blocks q.blocks
  exits : ∀ p ∈ r.parts, Disjoint p.exits r.blocks

end Region

/-! ## The order of the stages -/

variable {n m : BlockName}

namespace Builder

/-- All edges run between known blocks, and the current block is known. -/
structure Numbered (b : Builder) : Prop where
  current : ∀ n, b.At n → b.Knows n
  edges : ∀ e ∈ b.graph.edges, b.Knows e.source ∧ b.Knows e.target

lemma rank_fresh (b : Builder) : b.fresh.rank = b.nextBlock + 2 := rfl

lemma mem_since_iff {b b' : Builder} :
    n ∈ b.since b' ↔ b.nextBlock + 2 ≤ n.rank ∧ n.rank < b'.nextBlock + 2 := by
  simp only [since, Knows, Set.mem_ofPred_eq]
  omega

lemma edges_jump (b : Builder) (n : BlockName) :
    ∃ m, b.opened.At m ∧ (b.jump n).graph.edges = b.graph.edges ++ [⟨m, n⟩] := by
  obtain ⟨m, hm⟩ := b.exists_at_opened
  refine ⟨m, hm, ?_⟩
  rw [jump, ← emit_opened, emit_eq hm]
  cases hb : b.current with
  | some k => simp [opened_of_at hb, Instruction.targets]
  | none => simp [opened_eq hb, Instruction.targets]

@[simp] lemma nextBlock_startBlock (b : Builder) (n : BlockName) :
    (b.startBlock n).nextBlock = b.nextBlock := by
  cases hb : b.current with
  | none => rw [startBlock_eq hb]
  | some m => rw [startBlock_of_at hb, startBlock_eq (current_jump ..), jump, emit_eq hb]

lemma at_startBlock (b : Builder) : (b.startBlock n).At m ↔ m = n :=
  ⟨fun h => (Option.some.inj h).symm, fun h => congrArg some h.symm⟩

/-- A block that is begun is led to from an open block before it, and from nowhere else. -/
lemma edges_startBlock (b : Builder) (n : BlockName) :
    (b.startBlock n).graph.edges = b.graph.edges ++ b.current.toList.map (⟨·, n⟩) := by
  cases hb : b.current with
  | none => simp [startBlock_eq hb]
  | some k =>
    obtain ⟨m, hm, he⟩ := b.edges_jump n
    rw [opened_of_at hb] at hm
    obtain rfl : k = m := Option.mem_unique hb hm
    rw [startBlock_of_at hb, startBlock_eq (current_jump ..), Graph.edges_addBlock, he]
    rfl

lemma mem_current {b : Builder} {e : Edge} (h : e ∈ b.current.toList.map (⟨·, n⟩)) :
    b.At e.source ∧ e.target = n := by
  obtain ⟨m, hm, rfl⟩ := List.mem_map.1 h
  exact ⟨Option.mem_toList.1 hm, rfl⟩

end Builder

lemma BlockName.rank_inj (h : n.rank = m.rank) : n = m := by
  cases n <;> cases m <;> simp_all [rank]

namespace Copies

variable {T inner inner' : JumpTargets} {kinds : List JumpKind} {b b' : Builder} {cs : List Copy}

/-- Copies lie one behind the other. -/
lemma order (h : Copies T kinds inner b cs inner' b')
    (hc : ∀ c ∈ cs, Extends {n | c.start.At n} (Code.around c.landing T) c.start c.done) :
    (∀ c ∈ cs, b.nextBlock ≤ c.before.nextBlock ∧ c.before.nextBlock < c.after.nextBlock ∧
      c.after.nextBlock ≤ b'.nextBlock) ∧
    cs.Pairwise fun c c' => c.after.nextBlock ≤ c'.before.nextBlock := by
  induction h with
  | nil => simp
  | inactive _ _ ih => exact ih hc
  | @active kind kinds inner inner' b done b' cs target ht rest ih =>
    obtain ⟨first, landing⟩ := grows_copy (c := ⟨kind, target, b, done⟩) ht (hc _ (.head _))
    obtain ⟨bounds, pairs⟩ := ih fun c hc' => hc c (.tail _ hc')
    have others := (rest.growth fun c hc' => hc c (.tail _ hc')).1.next
    have first := (fresh_mem_since.1 landing).2
    refine ⟨?_, List.pairwise_cons.2 ⟨fun c hc' => (bounds c hc').1, pairs⟩⟩
    rintro c (_ | ⟨_, hc'⟩)
    · exact ⟨le_rfl, first, others⟩
    · obtain ⟨h₁, h₂, h₃⟩ := bounds c hc'
      exact ⟨first.le.trans h₁, h₂, h₃⟩

/-- Each edge of copies starts in one of them, and stays there or leads where jumps lead outside. -/
lemma edges (h : Copies T kinds inner b cs inner' b')
    (hc : ∀ c ∈ cs, Extends {n | c.start.At n} (Code.around c.landing T) c.start c.done)
    (ended : b.current = none) :
    b'.current = none ∧ ∃ E, b'.graph.edges = b.graph.edges ++ E ∧
      ∀ e ∈ E, ∃ c ∈ cs, e.source ∈ c.blocks ∧ e.target ∈ T.names ∪ c.blocks := by
  induction h with
  | nil => exact ⟨ended, [], by simp⟩
  | inactive _ _ ih => exact ih hc ended
  | @active kind kinds inner inner' b done b' cs target ht rest ih =>
    obtain ⟨first, -⟩ := grows_copy (c := ⟨kind, target, b, done⟩) ht (hc _ (.head _))
    obtain ⟨E, he, hE⟩ := first.edges
    obtain ⟨ended', E', he', hE'⟩ := ih (fun c hc' => hc c (.tail _ hc')) (current_jump ..)
    refine ⟨ended', E ++ E', by rw [he', ← List.append_assoc, ← he]; rfl, fun e hm => ?_⟩
    rcases List.mem_append.1 hm with hm | hm
    · refine ⟨_, .head _, (hE e hm).1.resolve_left ?_, (hE e hm).2⟩
      simp [At, ended]
    · obtain ⟨c, hc', hs⟩ := hE' e hm
      exact ⟨c, .tail _ hc', hs⟩

/-- The landings are those of the copies, and every kind of jump that leads somewhere has one. -/
lemma inner_get? (h : Copies T kinds inner b cs inner' b') :
    (∀ kind n, inner'.get? kind = some n →
      inner.get? kind = some n ∨ ∃ c ∈ cs, c.kind = kind ∧ c.landing = n) ∧
    ∀ kind, kind ∈ inner.kinds ∨ kind ∈ kinds ∧ kind ∈ T.kinds → kind ∈ inner'.kinds := by
  induction h with
  | nil => simp +contextual
  | @inactive kind kinds inner inner' b b' cs ht rest ih =>
    refine ⟨ih.1, fun k hk => ih.2 k (hk.imp_right ?_)⟩
    rintro ⟨_ | ⟨_, hk⟩, hT⟩
    · simp [JumpTargets.kinds, ht] at hT
    · exact ⟨hk, hT⟩
  | @active kind kinds inner inner' b done b' cs target ht rest ih =>
    constructor
    · intro k n hn
      rcases ih.1 k n hn with hn | ⟨c, hc, hn⟩
      · rw [JumpTargets.get?_set] at hn
        split at hn
        · rename_i hk
          exact Or.inr ⟨_, .head _, hk.symm, Option.some.inj hn⟩
        · exact Or.inl hn
      · exact Or.inr ⟨c, .tail _ hc, hn⟩
    · intro k hk
      refine ih.2 k ?_
      rw [JumpTargets.kinds_set]
      rcases hk with hk | ⟨_ | ⟨_, hk⟩, hT⟩
      · exact Or.inl (Or.inr hk)
      · exact Or.inl (Or.inl rfl)
      · exact Or.inr ⟨hk, hT⟩

end Copies

namespace Region.Grows

variable {r : Region} (h : r.Grows)

include h

/-- The stages of a region lie one behind the other. -/
lemma order :
    (∀ c ∈ r.copies, r.start.nextBlock + 1 ≤ c.before.nextBlock ∧
      c.before.nextBlock < c.after.nextBlock ∧ c.after.nextBlock ≤ r.landed.nextBlock) ∧
    r.start.nextBlock + 1 ≤ r.landed.nextBlock ∧ r.landed.nextBlock ≤ r.left.nextBlock ∧
    r.left.nextBlock + 2 ≤ r.finish.nextBlock := by
  have entered : Extends Set.univ Set.univ r.start.created (r.start.created.jump r.start.fresh) :=
    Extends.any.jump trivial
  have hclause := h.clause.next
  have hfinish : r.finish.nextBlock = r.done.nextBlock := nextBlock_startBlock ..
  have hstart : r.clauseStart.nextBlock = r.left.nextBlock + 2 := nextBlock_startBlock ..
  refine ⟨fun c hc => ?_, entered.next.trans (r.chain.growth h.copy).1.next, h.left.next, by omega⟩
  obtain ⟨h₁, h₂, h₃⟩ := (r.chain.order h.copy).1 c hc
  exact ⟨entered.next.trans h₁, h₂, h₃⟩

end Region.Grows

namespace Region

variable (r : Region)

lemma mem_body : n ∈ r.body ↔ n.rank = r.start.nextBlock + 2 ∨
    r.landed.nextBlock + 2 ≤ n.rank ∧ n.rank < r.left.nextBlock + 2 := by
  rw [body, Set.mem_insert_iff, mem_since_iff]
  refine or_congr_left ⟨fun h => h ▸ rank_fresh _, fun h => BlockName.rank_inj ?_⟩
  exact h.trans (rank_fresh _).symm

lemma mem_clauseBlocks : n ∈ r.clauseBlocks ↔
    (r.left.nextBlock + 2 ≤ n.rank ∧ n.rank < r.finish.nextBlock + 2) ∧
      n.rank ≠ r.left.nextBlock + 3 := by
  rw [clauseBlocks, Set.mem_ofPred_eq, mem_since_iff]
  refine and_congr_right fun _ => not_congr ⟨fun h => h ▸ rfl, fun h => BlockName.rank_inj h⟩

lemma mem_copy {c : Copy} : n ∈ c.blocks ↔
    c.before.nextBlock + 2 ≤ n.rank ∧ n.rank < c.after.nextBlock + 2 :=
  mem_since_iff

variable {p : Part} {copied walked behind : List Edge} {P : Part → Prop}

lemma forall_parts : (∀ p ∈ r.parts, P p) ↔
    P ⟨r.ensureBlock, r.clauseBlocks, insert r.after r.targets.names⟩ ∧
      ∀ c ∈ r.copies, P ⟨c.landing, c.blocks, r.targets.names⟩ := by
  simp [parts]

lemma exists_parts : (∃ p ∈ r.parts, P p) ↔
    P ⟨r.ensureBlock, r.clauseBlocks, insert r.after r.targets.names⟩ ∨
      ∃ c ∈ r.copies, P ⟨c.landing, c.blocks, r.targets.names⟩ := by
  simp [parts]

lemma mem_blocks :
    n ∈ r.blocks ↔ n ∈ r.body ∨ n ∈ r.clauseBlocks ∨ ∃ c ∈ r.copies, n ∈ c.blocks := by
  rw [blocks, Set.mem_union, Set.mem_ofPred_eq, r.exists_parts]

variable {r}

lemma Grows.separate (h : r.Grows) (hT : ∀ n ∈ r.targets.names, r.start.Knows n) : r.Separate := by
  obtain ⟨copies, hl, hb, hf⟩ := h.order
  have ensure : r.ensureBlock.rank = r.left.nextBlock + 2 := rfl
  have after : r.after.rank = r.left.nextBlock + 3 := rfl
  -- a name that was known before the region or is given out last is the name of no block of it
  have outside : ∀ {n : BlockName}, n = r.after ∨ n ∈ r.targets.names → n ∉ r.blocks := by
    intro n hn hm
    have ranks := hn.imp (congrArg BlockName.rank) (hT n)
    rw [Knows] at ranks
    rcases r.mem_blocks.1 hm with hm | hm | ⟨c, hc, hm⟩
    · rw [mem_body] at hm
      omega
    · rw [mem_clauseBlocks] at hm
      omega
    · have := copies c hc
      rw [mem_copy] at hm
      omega
  refine ⟨r.forall_parts.2 ⟨?_, fun c hc => ?_⟩, r.forall_parts.2 ⟨?_, fun c hc => ?_⟩, ?_,
    r.forall_parts.2 ⟨Set.disjoint_left.2 fun _ => outside,
      fun _ _ => Set.disjoint_left.2 fun _ hn => outside (Or.inr hn)⟩⟩
  · change r.ensureBlock ∈ r.clauseBlocks
    rw [mem_clauseBlocks]
    omega
  · change c.landing ∈ c.blocks
    have landing : c.landing.rank = c.before.nextBlock + 2 := rfl
    have := copies c hc
    rw [mem_copy]
    omega
  · refine Set.disjoint_left.2 fun n hn hm => ?_
    rw [mem_clauseBlocks] at hn
    rw [mem_body] at hm
    omega
  · refine Set.disjoint_left.2 fun n hn hm => ?_
    have := copies c hc
    rw [mem_copy] at hn
    rw [mem_body] at hm
    omega
  · refine List.pairwise_cons.2 ⟨fun p hp => ?_, List.pairwise_map.2 ?_⟩
    · obtain ⟨c, hc, rfl⟩ := List.mem_map.1 hp
      refine Set.disjoint_left.2 fun n hn hm => ?_
      have := copies c hc
      rw [mem_clauseBlocks] at hn
      rw [mem_copy] at hm
      omega
    · refine (r.chain.order h.copy).2.imp fun {c c'} hcc => Set.disjoint_left.2 fun n hn hm => ?_
      rw [mem_copy] at hn hm
      omega

/-! ## The edges of the stages -/

/-- Every jump out of the statements leads to a landing. -/
lemma get?_bodyTargets (r : Region) (kind : JumpKind) :
    r.bodyTargets.get? kind = r.inner.get? kind := by
  rw [bodyTargets, JumpTargets.get?_overlay]
  cases hi : r.inner.get? kind with
  | some m => rfl
  | none =>
    have active := r.chain.inner_get?.2 kind
    cases ht : r.targets.get? kind with
    | none => rfl
    | some n =>
      have : kind ∈ r.inner.kinds :=
        active (Or.inr ⟨by cases kind <;> decide, by simp [JumpTargets.kinds, ht]⟩)
      simp [JumpTargets.kinds, hi] at this

/-- Where a jump out of the statements leads, a copy of the clause starts. -/
lemma exists_copy (r : Region) {kind : JumpKind} (h : r.bodyTargets.get? kind = some n) :
    ∃ c ∈ r.copies, c.kind = kind ∧ c.landing = n := by
  rw [get?_bodyTargets] at h
  refine (r.chain.inner_get?.1 kind n h).resolve_left fun h => ?_
  cases kind <;> cases h

/-- The entry is one edge, from a block outside. -/
lemma edges_entered (hb : r.start.Numbered) :
    ∃ m, m.rank ≠ r.start.nextBlock + 2 ∧
      m.rank < (r.start.created.jump r.bodyBlock).nextBlock + 2 ∧
      (r.start.created.jump r.bodyBlock).graph.edges =
        r.start.graph.edges ++ [⟨m, r.bodyBlock⟩] := by
  obtain ⟨m, hm, he⟩ := r.start.created.edges_jump r.bodyBlock
  rw [graph_created, Graph.edges_addBlock] at he
  have next : (r.start.created.jump r.bodyBlock).nextBlock = r.start.created.opened.nextBlock := by
    rw [jump, ← emit_opened, emit_eq hm]
  have rank : m.rank ≠ r.start.nextBlock + 2 ∧ m.rank < r.start.created.opened.nextBlock + 2 := by
    cases hc : r.start.created.current with
    | some k =>
      rw [opened_of_at hc] at hm ⊢
      have := hb.current m hm
      rw [Knows] at this
      rw [nextBlock_created]
      omega
    | none =>
      rw [opened_eq hc] at hm ⊢
      obtain rfl : r.start.created.fresh = m := Option.some.inj hm
      rw [rank_fresh]
      simp only [nextBlock_created]
      omega
  exact ⟨m, rank.1, next ▸ rank.2, he⟩

namespace Grows

variable (h : r.Grows)

include h

/-- Only blocks of the statements are open at their end. -/
lemma at_left (hn : r.left.At n) : n ∈ r.body := by
  obtain ⟨ended, -⟩ := r.chain.edges h.copy (current_jump ..)
  rcases h.left.current n hn with (hn | hn) | hn
  · exact Or.inl hn
  · simp [At, ended] at hn
  · exact Or.inr hn

/-- The statements stay in their blocks or lead to copies of the clause. -/
lemma edges_left : ∃ E, r.left.graph.edges = r.landed.graph.edges ++ E ∧
    ∀ e ∈ E, e.source ∈ r.body ∧ (e.target = r.bodyBlock ∨ e.target ∈ r.bodyStart.since r.left ∨
      ∃ c ∈ r.copies, e.target = c.landing) := by
  obtain ⟨ended, -⟩ := r.chain.edges h.copy (current_jump ..)
  obtain ⟨E, he, hE⟩ := h.body.edges
  have same : r.bodyStart.graph.edges = r.landed.graph.edges := by
    rw [bodyStart, edges_startBlock, Builder.note, ended]
    exact List.append_nil _
  have next : r.bodyStart.nextBlock = r.landed.nextBlock := nextBlock_startBlock ..
  refine ⟨E, same ▸ he, fun e hm => ?_⟩
  obtain ⟨hs, ht⟩ := hE e hm
  constructor
  · rcases hs with hs | hs
    · exact Or.inl ((at_startBlock _).1 hs)
    · refine Or.inr ?_
      rwa [mem_since_iff, next, ← mem_since_iff] at hs
  · rcases ht with (ht | ⟨kind, hk⟩) | ht
    · exact Or.inl ht
    · obtain ⟨c, hc, -, hl⟩ := r.exists_copy hk
      exact Or.inr (Or.inr ⟨c, hc, hl.symm⟩)
    · exact Or.inr (Or.inl ht)

/-- The clause is begun at the end of the statements, if it can be reached, and then leads on. -/
lemma edges_finish : ∃ E, r.finish.graph.edges = r.left.graph.edges ++ (r.through ++ E) ∧
    ∀ e ∈ E, e.source ∈ r.clauseBlocks ∧
      (e.target ∈ r.clauseBlocks ∨ e.target ∈ insert r.after r.targets.names) := by
  obtain ⟨-, -, -, hf⟩ := h.order
  obtain ⟨E, he, hE⟩ := h.clause.edges
  have hensure : r.ensureBlock ∈ r.clauseBlocks := by
    have : r.ensureBlock.rank = r.left.nextBlock + 2 := rfl
    rw [mem_clauseBlocks]
    omega
  have hnew : ∀ n ∈ r.clauseStart.since r.done, n ∈ r.clauseBlocks := by
    intro n hn
    have hfinish : r.finish.nextBlock = r.done.nextBlock := nextBlock_startBlock ..
    have hstart : r.clauseStart.nextBlock = r.left.nextBlock + 2 := nextBlock_startBlock ..
    rw [mem_since_iff] at hn
    rw [mem_clauseBlocks]
    omega
  have hinside : ∀ n ∈ {n | r.clauseStart.At n} ∪ r.clauseStart.since r.done,
      n ∈ r.clauseBlocks := by
    rintro n (hn | hn)
    · exact (at_startBlock _).1 hn ▸ hensure
    · exact hnew n hn
  refine ⟨E ++ r.done.current.toList.map (⟨·, r.after⟩), ?_, fun e hm => ?_⟩
  · have hleft : r.restored.created.created.graph.edges = r.left.graph.edges := by
      simp [restored, Builder.note]
    have hthrough : r.restored.created.created.current.toList.map (⟨·, r.ensureBlock⟩) =
        r.through := rfl
    rw [Region.finish, edges_startBlock, he, Region.clauseStart, edges_startBlock, hleft, hthrough]
    simp only [List.append_assoc]
  · rcases List.mem_append.1 hm with hm | hm
    · obtain ⟨hs, ht⟩ := hE e hm
      refine ⟨hinside _ hs, ?_⟩
      rcases ht with (ht | ht) | ht
      · exact Or.inl (ht ▸ hensure)
      · exact Or.inr (Or.inr ht)
      · exact Or.inl (hnew _ ht)
    · obtain ⟨hs, ht⟩ := mem_current hm
      exact ⟨hinside _ (h.clause.current _ hs), Or.inr (Or.inl ht)⟩

end Grows

/-- An edge that starts in the region and stays in its statements or leads to a run of the clause, or
stays in a run of the clause or leads out of it. -/
def Allows (r : Region) (e : Edge) : Prop :=
  (e.source ∈ r.body ∧ (e.target ∈ r.body ∨ ∃ p ∈ r.parts, e.target = p.entry)) ∨
    ∃ p ∈ r.parts, e.source ∈ p.blocks ∧ (e.target ∈ p.blocks ∨ e.target ∈ p.exits)

lemma body_subset : r.body ⊆ r.blocks := Set.subset_union_left

lemma part_subset (hp : p ∈ r.parts) : p.blocks ⊆ r.blocks :=
  fun _ hn => Or.inr ⟨p, hp, hn⟩

namespace Separate

variable (h : r.Separate) {E : List Edge}

include h

/-- Runs of the clause that have a block in common are the same. -/
lemma part_unique {q : Part} (hp : p ∈ r.parts) (hq : q ∈ r.parts) (hn : n ∈ p.blocks)
    (hn' : n ∈ q.blocks) : p = q := by
  have symm : Std.Symm fun p q : Part => Disjoint p.blocks q.blocks := ⟨fun _ _ h => h.symm⟩
  by_contra hpq
  exact Set.disjoint_left.1 (h.parts.forall hp hq hpq) hn hn'

lemma bounded_body (hE : ∀ e ∈ E, r.Allows e) {I : Set Edge} :
    Bounded E r.body I {n | ∃ p ∈ r.parts, n = p.entry} where
  enter e he ht := by
    rcases hE e he with ⟨hs, -⟩ | ⟨p, hp, -, ht' | ht'⟩
    · exact Or.inl hs
    · exact absurd ht (Set.disjoint_left.1 (h.body p hp) ht')
    · exact absurd (body_subset ht) (Set.disjoint_left.1 (h.exits p hp) ht')
  leave e he hs := by
    rcases hE e he with ⟨-, ht⟩ | ⟨p, hp, hs', -⟩
    · exact ht
    · exact absurd hs (Set.disjoint_left.1 (h.body p hp) hs')

lemma bounded_part (hE : ∀ e ∈ E, r.Allows e) (hp : p ∈ r.parts) :
    Bounded E p.blocks {e | e.source ∈ r.body ∧ e.target = p.entry} p.exits where
  enter e he ht := by
    rcases hE e he with ⟨hs, ht' | ⟨q, hq, ht'⟩⟩ | ⟨q, hq, hs, ht' | ht'⟩
    · exact absurd ht' (Set.disjoint_left.1 (h.body p hp) ht)
    · obtain rfl := h.part_unique hp hq ht (ht' ▸ h.entry q hq)
      exact Or.inr ⟨hs, ht'⟩
    · obtain rfl := h.part_unique hp hq ht ht'
      exact Or.inl hs
    · exact absurd (part_subset hp ht) (Set.disjoint_left.1 (h.exits q hq) ht')
  leave e he hs := by
    rcases hE e he with ⟨hs', -⟩ | ⟨q, hq, hs', ht⟩
    · exact absurd hs' (Set.disjoint_left.1 (h.body p hp) hs)
    · obtain rfl := h.part_unique hp hq hs hs'
      exact ht

end Separate

/-- The edges of a region, in the order of its stages: one that enters the statements, those of the
copies, those of the statements, the one at their end, and those of the clause on the way through. -/
structure Edges (r : Region) (m : BlockName) (copied walked behind : List Edge) : Prop where
  outside : m ∉ r.blocks
  enter : (r.start.created.jump r.bodyBlock).graph.edges =
    r.start.graph.edges ++ [⟨m, r.bodyBlock⟩]
  landed : r.landed.graph.edges = (r.start.created.jump r.bodyBlock).graph.edges ++ copied
  left : r.left.graph.edges = r.landed.graph.edges ++ walked
  finish : r.finish.graph.edges = r.left.graph.edges ++ (r.through ++ behind)
  copy : ∀ e ∈ copied, ∃ c ∈ r.copies, e.source ∈ c.blocks ∧ e.target ∈ r.targets.names ∪ c.blocks
  walk : ∀ e ∈ walked, e.source ∈ r.body ∧ (e.target = r.bodyBlock ∨
    e.target ∈ r.bodyStart.since r.left ∨ ∃ c ∈ r.copies, e.target = c.landing)
  clause : ∀ e ∈ behind, e.source ∈ r.clauseBlocks ∧
    (e.target ∈ r.clauseBlocks ∨ e.target ∈ insert r.after r.targets.names)

lemma Grows.edges (h : r.Grows) (hb : r.start.Numbered) :
    ∃ m copied walked behind, r.Edges m copied walked behind := by
  obtain ⟨copies, hl, hleft, hf⟩ := h.order
  obtain ⟨m, hm, hm', enter⟩ := edges_entered hb
  obtain ⟨-, copied, landed, copy⟩ := r.chain.edges h.copy (current_jump ..)
  obtain ⟨walked, left, walk⟩ := h.edges_left
  obtain ⟨behind, finish, clause⟩ := h.edges_finish
  have hentered := (r.chain.order h.copy).1
  have hentered' := (r.chain.growth h.copy).1.next
  rw [bodyBlock] at hm'
  refine ⟨m, copied, walked, behind, fun hm => ?_, enter, landed, left, finish, copy, walk, clause⟩
  rcases r.mem_blocks.1 hm with hm | hm | ⟨c, hc, hm⟩
  · rw [mem_body] at hm
    omega
  · rw [mem_clauseBlocks] at hm
    omega
  · have := hentered c hc
    rw [mem_copy] at hm
    omega

/-- Everything behind the entry is allowed. -/
lemma Edges.allows (h : r.Grows) (he : r.Edges m copied walked behind) :
    ∀ e ∈ copied ++ (walked ++ (r.through ++ behind)), r.Allows e := by
  have next : r.bodyStart.nextBlock = r.landed.nextBlock := nextBlock_startBlock ..
  intro e hm
  rcases List.mem_append.1 hm with hm | hm
  · obtain ⟨c, hc, hs, ht⟩ := he.copy e hm
    exact Or.inr (r.exists_parts.2 (Or.inr ⟨c, hc, hs, ht.symm⟩))
  rcases List.mem_append.1 hm with hm | hm
  · obtain ⟨hs, ht⟩ := he.walk e hm
    refine Or.inl ⟨hs, ?_⟩
    rcases ht with ht | ht | hc
    · exact Or.inl (Or.inl ht)
    · rw [mem_since_iff, next, ← mem_since_iff] at ht
      exact Or.inl (Or.inr ht)
    · exact Or.inr (r.exists_parts.2 (Or.inr hc))
  rcases List.mem_append.1 hm with hm | hm
  · obtain ⟨hs, ht⟩ := mem_current hm
    exact Or.inl ⟨h.at_left hs, Or.inr (r.exists_parts.2 (Or.inl ht))⟩
  · exact Or.inr (r.exists_parts.2 (Or.inl (he.clause e hm)))

lemma Edges.all (he : r.Edges m copied walked behind) :
    r.finish.graph.edges = r.start.graph.edges ++
      ([⟨m, r.bodyBlock⟩] ++ (copied ++ (walked ++ (r.through ++ behind)))) := by
  rw [he.finish, he.left, he.landed, he.enter]
  simp only [List.append_assoc]

lemma Grows.not_known (h : r.Grows) (hn : n ∈ r.blocks) : ¬ r.start.Knows n := by
  obtain ⟨copies, hl, hleft, -⟩ := h.order
  rw [Knows]
  rcases r.mem_blocks.1 hn with hn | hn | ⟨c, hc, hn⟩
  · rw [mem_body] at hn
    omega
  · rw [mem_clauseBlocks] at hn
    omega
  · have := copies c hc
    rw [mem_copy] at hn
    omega

lemma Grows.blocks_subset (h : r.Grows) : r.blocks ⊆ r.start.since r.finish := by
  refine fun n hn => ⟨?_, h.not_known hn⟩
  obtain ⟨copies, hl, hleft, hf⟩ := h.order
  rw [Knows]
  rcases r.mem_blocks.1 hn with hn | hn | ⟨c, hc, hn⟩
  · rw [mem_body] at hn
    omega
  · rw [mem_clauseBlocks] at hn
    omega
  · have := copies c hc
    rw [mem_copy] at hn
    omega

/-- **A region is covered in the graph that it is laid out in.** -/
theorem Grows.covers (h : r.Grows) (hT : ∀ n ∈ r.targets.names, r.start.Knows n)
    (hb : r.start.Numbered) : r.Covers r.finish.graph.edges := by
  have separate := h.separate hT
  obtain ⟨m, copied, walked, behind, edges⟩ := h.edges hb
  have hm := edges.outside
  have hE := edges.allows h
  rw [edges.all]
  have before : ∀ X ⊆ r.blocks, ∀ e ∈ r.start.graph.edges, e.source ∉ X ∧ e.target ∉ X :=
    fun X hX e he => ⟨fun hs => h.not_known (hX hs) (hb.edges e he).1,
      fun ht => h.not_known (hX ht) (hb.edges e he).2⟩
  refine ⟨⟨m, hm, ?_⟩, fun p hp => ?_⟩
  · refine (Bounded.outside (before _ body_subset)).append
      (Bounded.append (.into ?_) (separate.bounded_body hE))
    simpa using fun hb => absurd (body_subset hb) hm
  · refine (Bounded.outside (before _ (part_subset hp))).append
      (Bounded.append (.outside ?_) (separate.bounded_part hE hp))
    simp only [List.mem_singleton, forall_eq]
    exact ⟨fun hs => hm (part_subset hp hs),
      fun ht => Set.disjoint_left.1 (separate.body p hp) ht (Or.inl rfl)⟩

end Region

end ControlFlow
