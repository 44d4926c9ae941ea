import ControlFlow.Proofs.Code.Whole
import ControlFlow.Proofs.Lowering.Traced
/-!
# What visits find and leave

On its way a walk finds builders that are `Poised`: nothing stands behind the end of a block, and the
current block has no end. It fills the current block, pending blocks and new ones, leads to blocks at
hand, to the targets of jumps and to new ones, and leaves a builder that is poised again.

So every node is walked in a state that is `Ready`, and what is made by the walk over it is complete
behind it, but for the block that is current then: whatever is added later neither leads to these
blocks nor from them. `Spans` says this of a visit in the midst of a longer walk.
-/

namespace ControlFlow

namespace Builder

variable {K K' : Set BlockName} {P Q P' : Multiset BlockName} {b b₁ b' : Builder} {n : BlockName}

/-! ## Builders on the way -/

lemma Numbered.extends {W S : Set BlockName} (h : b.Numbered) (fills : ∀ n ∈ W, b.Knows n)
    (leads : ∀ n ∈ S, b.Knows n) (grown : Extends W S b b') : b'.Numbered := by
  have known : ∀ {X : Set BlockName}, (∀ n ∈ X, b.Knows n) → ∀ n ∈ X ∪ b.since b', b'.Knows n :=
    fun hX n hn => hn.elim (fun hn => (hX n hn).mono grown.next) fun hn => hn.1
  obtain ⟨added, edges, new⟩ := grown.edges
  refine ⟨fun n hn => known fills n (grown.current n hn), fun e he => ?_⟩
  rw [edges] at he
  rcases List.mem_append.1 he with he | he
  · exact (h.edges e he).imp (·.mono grown.next) (·.mono grown.next)
  · exact (new e he).imp (known fills _) (known leads _)

/-- A builder on the way: the names in `K` are given out, and each of the blocks in `P` is to be begun
once. An instruction that ends a block is the last one there, and the current block has none. -/
structure Poised (K : Set BlockName) (P : Multiset BlockName) (b : Builder) : Prop where
  tidy : Tidy K {n | n ∈ P} b
  nodup : P.Nodup
  numbered : b.Numbered
  unended : ∀ n, b.At n → ∀ i ∈ b.graph.code n, i.isTerminator = false
  neat : ∀ n, ∀ i ∈ (b.graph.code n).dropLast, i.isTerminator = false

namespace Poised

variable (h : Poised K P b)

include h

/-- No instruction is added, and pending blocks are left alone. -/
lemma still {W : Set BlockName} (grown : Extends W K b b') (le : P' ≤ P)
    (fills : ∀ n ∈ W, b.Knows n ∧ n ∉ P') (code : ∀ n, b'.graph.code n = b.graph.code n)
    (unended : ∀ n, b'.At n → ∀ i ∈ b.graph.code n, i.isTerminator = false) : Poised K P' b' where
  tidy := grown.tidy (h.tidy.mono subset_rfl fun _ hn => Multiset.mem_of_le le hn) fills
  nodup := Multiset.nodup_of_le le h.nodup
  numbered := h.numbered.extends (fun n hn => (fills n hn).1) h.tidy.knows grown
  unended n hn := by
    rw [code]
    exact unended n hn
  neat n := by
    rw [code]
    exact h.neat n

lemma mono (known : ∀ n ∈ K', b.Knows n) (le : P' ≤ P) : Poised K' P' b :=
  { h with
    tidy := ⟨h.tidy.rooted, h.tidy.known, known,
      fun n hn => h.tidy.blank n (Multiset.mem_of_le le hn)⟩
    nodup := Multiset.nodup_of_le le h.nodup }

lemma quiet (graph : b'.graph = b.graph) (current : b'.current = b.current)
    (next : b'.nextBlock = b.nextBlock) : Poised K P b' :=
  h.still (Extends.self.quiet graph current next) le_rfl h.tidy.current
    (by simp [graph]) fun n hn => h.unended n (current.symm.trans hn)

/-- A name is given out, and its block is pending from there on. -/
lemma named (graph : b'.graph = b.graph ∨ b'.graph = b.graph.addBlock b.fresh)
    (current : b'.current = b.current) (next : b'.nextBlock = b.nextBlock + 1) :
    Poised (insert b.fresh K) (b.fresh ::ₘ P) b' := by
  have pending : {n | n ∈ b.fresh ::ₘ P} = insert b.fresh {n | n ∈ P} := by
    ext n
    simp
  have grown : Poised K P b' :=
    h.still (Extends.self.named_fresh next (Or.inl current) graph) le_rfl h.tidy.current
      (fun n => by rcases graph with graph | graph <;> simp [graph])
      fun n hn => h.unended n (current.symm.trans hn)
  exact { grown with
    tidy := pending ▸ h.tidy.named graph current next
    nodup := Multiset.nodup_cons.2 ⟨fun hn => h.tidy.ne_fresh hn rfl, h.nodup⟩ }

lemma opened : Poised K P b.opened := by
  cases hb : b.current with
  | some n => rwa [opened_of_at hb]
  | none =>
    refine h.still Extends.self.opened le_rfl h.tidy.current ?_ fun n hn => ?_
    · simp [opened_eq hb]
    · rw [opened_eq hb] at hn
      obtain rfl : b.fresh = n := Option.some.inj hn
      simp [h.tidy.code_fresh]

lemma emit {i : Instruction} (targets : ∀ t ∈ i.targets, t ∈ K) : Poised K P (b.emit i) := by
  obtain ⟨m, hm⟩ := b.exists_at_opened
  have h := h.opened
  have grown : Extends {n | b.opened.At n} K b.opened (b.opened.emit i) :=
    Extends.self.emit targets
  rw [emit_opened] at grown
  have code : ∀ n, (b.emit i).graph.code n =
      if n = m then b.opened.graph.code m ++ [i] else b.opened.graph.code n := by
    intro n
    rw [← emit_opened, emit_eq hm, Graph.code_connect]
    split
    · rename_i same
      rw [same, Graph.code_push_self _ (h.tidy.rooted m hm)]
    · rename_i other
      rw [Graph.code_push_of_ne _ other]
  refine ⟨h.tidy.grown grown, h.nodup, h.numbered.extends h.numbered.current h.tidy.knows grown,
    fun n hn => ?_, fun n => ?_⟩
  · rw [← emit_opened, emit_eq hm] at hn
    simp only [At] at hn
    split at hn
    · cases hn
    · rename_i plain
      obtain rfl := Option.some.inj hn
      rw [code, if_pos rfl]
      simpa [or_imp, forall_and, plain] using h.unended m hm
  · rw [code]
    split
    · rw [List.dropLast_concat]
      exact h.unended m hm
    · exact h.neat n

lemma plain {i : Instruction} (plain : i.targets = []) : Poised K P (b.emit i) :=
  h.emit (by simp [plain])

lemma endRun (v : Binding) {x y : BlockName} (hx : x ∈ K) (hy : y ∈ K) :
    Poised K P (b.endRun v x y) :=
  (h.plain (i := .resume v) rfl).emit (i := .branch none x y)
    (by simpa [Instruction.targets] using ⟨hx, hy⟩)

lemma suspend : Poised K P b.suspend.2 :=
  h.still Extends.self.suspend le_rfl h.tidy.current (fun _ => rfl) (by rintro n ⟨⟩)

omit h

/-- A pending block is begun. -/
lemma startBlock (h : Poised K (n ::ₘ P) b) (hn : n ∈ K) : Poised K P (b.startBlock n) := by
  have begun : ∀ {b : Builder}, b.current = none → Poised K (n ::ₘ P) b →
      Poised K P (b.startBlock n) := by
    intro b left h
    refine h.still ((Extends.refl fun _ h => Or.inr h).startBlock (Set.mem_insert n _) hn)
      (Multiset.le_cons_self P n) ?_ (by simp [startBlock_eq left]) fun m hm => ?_
    · rintro m (rfl | hm)
      · exact ⟨h.tidy.knows m hn, (Multiset.nodup_cons.1 h.nodup).1⟩
      · exact (h.tidy.current m hm).imp_right fun out mem => out (Multiset.mem_cons_of_mem mem)
    · rw [startBlock_eq left] at hm
      obtain rfl := Option.some.inj hm
      rw [(h.tidy.blank n (Multiset.mem_cons_self n P)).2.1]
      simp
  cases hb : b.current with
  | none => exact begun hb h
  | some m =>
    rw [startBlock_of_at hb]
    exact begun (b.current_jump n) (h.emit (by simpa [Instruction.targets] using hn))

lemma land {x y : BlockName} (h : Poised K (n ::ₘ P) b) (hn : n ∈ K) (hx : x ∈ K) (hy : y ∈ K) :
    Poised K P (b.land n x y) := by
  unfold Builder.land
  split
  · have begun : Poised K P (b.startBlock n).allocTemp.2 := (h.startBlock hn).quiet rfl rfl rfl
    have loaded : Poised K P ((b.startBlock n).constTemp .nil).2 := begun.plain rfl
    exact loaded.endRun _ hx hy
  · exact h.mono h.tidy.knows (Multiset.le_cons_self P n)

end Poised

/-- A builder has been led to another one, with other blocks pending: it has filled what was current or
pending, and led to what is at hand. -/
structure Advances (X : Set BlockName) (P P' : Multiset BlockName) (b b' : Builder) : Prop where
  grown : Extends ({n | b.At n} ∪ {n | n ∈ P}) X b b'
  left : ∀ n ∈ P', n ∈ P ∨ n ∈ b.since b'
  poised : b'.Poised X P'

namespace Advances

variable {X X' : Set BlockName}

lemma of_le (grown : Extends ({n | b.At n} ∪ {n | n ∈ P}) X b b') (le : P' ≤ P)
    (poised : b'.Poised X P') : Advances X P P' b b' :=
  ⟨grown, fun _ hn => Or.inl (Multiset.mem_of_le le hn), poised⟩

lemma refl (h : b.Poised X P) : Advances X P P b b := .of_le .own le_rfl h

lemma trans (h : Advances X P Q b b₁) (h' : Advances X Q P' b₁ b') : Advances X P P' b b' := by
  obtain ⟨since, since'⟩ := h.grown.since_subset h'.grown
  refine ⟨h.grown.trans h'.grown (Set.union_subset h.grown.current fun n hn => ?_)
    Set.subset_union_left, fun n hn => ?_, h'.poised⟩
  · exact (h.left n hn).imp_left Or.inr
  · rcases h'.left n hn with hn | hn
    · exact (h.left n hn).imp_right (@since n)
    · exact Or.inr (since' hn)

/-- A name is given out, is pending and at hand, and is not any more in the end. -/
lemma named (fresh : n = b.fresh) (next : b₁.nextBlock = b.nextBlock + 1)
    (grown : Extends ({n | b.At n} ∪ {n | n ∈ P}) X b b₁)
    (h : Advances (insert n X) (n ::ₘ P) P' b₁ b') : Advances X P P' b b' := by
  have new : n ∈ b.since b₁ := by
    rw [fresh]
    exact fresh_mem_since.2 ⟨le_rfl, by omega⟩
  obtain ⟨since, since'⟩ := grown.since_subset h.grown
  refine ⟨grown.trans h.grown ?_ ?_, fun m hm => ?_,
    h.poised.mono (fun m hm => h.poised.tidy.knows m (Or.inr hm)) le_rfl⟩
  · rintro m (hm | hm)
    · exact grown.current m hm
    · rcases Multiset.mem_cons.1 hm with rfl | hm
      · exact Or.inr new
      · exact Or.inl (Or.inr hm)
  · rintro m (rfl | hm)
    · exact Or.inr new
    · exact Or.inl hm
  · rcases h.left m hm with hm | hm
    · rcases Multiset.mem_cons.1 hm with rfl | hm
      · exact Or.inr (since new)
      · exact Or.inl hm
    · exact Or.inr (since' hm)

/-- The current block is left alone, and goes on to be filled afterwards. -/
lemma resume (poised : b.Poised X P) (h : Advances X P Q b.suspend.2 b₁) :
    Advances X P Q b (b₁.resume b.current) := by
  have suspended : Extends ({n | b.At n} ∪ {n | n ∈ P}) X b b.suspend.2 :=
    Extends.own.suspend
  have filled : Extends ({n | b.At n} ∪ {n | n ∈ P}) X b b₁ :=
    suspended.trans h.grown (Set.union_subset suspended.current fun _ hn => Or.inl (Or.inr hn))
      Set.subset_union_left
  have names : ∀ n, b.At n → n ∈ b₁.graph.names := fun n hn =>
    filled.names n (poised.tidy.rooted n hn)
  have grown : Extends ({n | b.At n} ∪ {n | n ∈ P}) X b (b₁.resume b.current) :=
    filled.resume (fun n hn => Or.inl (Or.inl hn)) fun _ => names
  have resumed : Extends ({n | b.At n} ∪ {n | b₁.At n}) X b₁ (b₁.resume b.current) :=
    (Extends.refl fun _ hn => Or.inr hn).resume (fun n hn => Or.inl (Or.inl hn)) fun _ => names
  -- the block that was current is neither pending nor new
  refine ⟨grown, h.left, h.poised.still resumed le_rfl ?_ (fun _ => rfl) fun n hn => ?_⟩
  · rintro n (hn | hn)
    · obtain ⟨known, apart⟩ := poised.tidy.current n hn
      refine ⟨known.mono filled.next, fun mem => ?_⟩
      exact (h.left n mem).elim apart fun new => new.2 known
    · exact h.poised.tidy.current n hn
  · have same : b₁.graph.code n = b.graph.code n := by
      refine h.grown.code n ?_
      rintro ((left | pending) | new)
      · cases left
      · exact (poised.tidy.current n hn).2 pending
      · exact new.2 (poised.tidy.current n hn).1
    rw [same]
    exact poised.unended n hn

end Advances

/-! ## Visits in the midst of a walk -/

/-- The blocks that have been made, but for the one that is current in the end. -/
def completed (b b' : Builder) : Set BlockName := {n | n ∈ b.since b' ∧ ¬ b'.At n}

end Builder

/-- A node can be walked in the state: nothing but the targets of jumps has to be at hand. -/
def WalkState.Ready (s : WalkState) : Prop := s.builder.Poised s.targets.names 0

open Builder

/-- Between two builders, the second of which has some blocks pending, a node has been walked from `s`
to `s'`. What has been added since neither leads to the blocks of the walk nor from those that it has
completed. -/
structure Spans (P : Multiset BlockName) (b b' : Builder) (s s' : WalkState) : Prop where
  next : b.nextBlock ≤ s.builder.nextBlock
  kept : s'.targets = s.targets ∧ s'.depth = s.depth
  walked : Advances s.targets.names 0 0 s.builder s'.builder
  later : Extends (s.builder.completed s'.builder)ᶜ (s.builder.since s'.builder)ᶜ s'.builder b'
  pending : ∀ n ∈ P, n ∉ s.builder.completed s'.builder

namespace Spans

variable {P Q : Multiset BlockName} {b b₁ b' : Builder} {s s' : WalkState} {X : Set BlockName}

lemma before (h : Spans P b₁ b' s s') (next : b.nextBlock ≤ b₁.nextBlock) : Spans P b b' s s' :=
  { h with next := next.trans h.next }

/-- What was known before the walk is none of its blocks. -/
lemma not_since (h : Spans P b b' s s') {n : BlockName} (known : b.Knows n) :
    n ∉ s.builder.since s'.builder :=
  fun new => new.2 (known.mono h.next)

lemma behind (h : Spans Q b b₁ s s') (known : ∀ n ∈ X, b.Knows n) (rest : Advances X Q P b₁ b') :
    Spans P b b' s s' where
  next := h.next
  kept := h.kept
  walked := h.walked
  later := by
    refine h.later.trans rest.grown (Set.union_subset h.later.current fun n hn => ?_) fun n hn => ?_
    · exact Or.inl (h.pending n hn)
    · exact Or.inl (h.not_since (known n hn))
  pending n hn done := by
    rcases rest.left n hn with pending | new
    · exact h.pending n pending done
    · exact new.2 (done.1.1.mono h.later.next)

/-- A block that was current before is current again. -/
lemma resume (h : Spans P b b₁ s s') (known : ∀ n, b.At n → b.Knows n)
    (names : ∀ n, b.At n → n ∈ b₁.graph.names) : Spans P b (b₁.resume b.current) s s' :=
  { h with
    later := h.later.resume (fun n hn => Or.inl fun done => h.not_since (known n hn) done.1)
      fun _ => names }

/-- The walk itself. -/
lemma self {T : JumpTargets} {d : Nat} (known : ∀ n ∈ P, b.Knows n)
    (walked : Advances T.names 0 0 b b') : Spans P b b' ⟨b, T, d⟩ ⟨b', T, d⟩ where
  next := le_rfl
  kept := ⟨rfl, rfl⟩
  walked := walked
  later := .refl fun _ current done => done.2 current
  pending n hn done := done.1.2 (known n hn)

end Spans

/-! ## Walks -/

/-- Every node has been walked in a state that is ready. -/
def AllReady (V : List Visit) : Prop := ∀ ⦃info s after⦄, .node info s after ∈ V → s.Ready

/-- Every node has been walked between two builders. -/
def AllSpanned (P : Multiset BlockName) (b b' : Builder) (V : List Visit) : Prop :=
  ∀ ⦃info s s'⦄, .node info s (some s') ∈ V → Spans P b b' s s'

namespace WalkT

variable {α β : Type} {P Q P' : Multiset BlockName} {L : Set BlockName}

/-- However the walk ends, targets and depth are as they were, and nodes have been walked in states
that are ready. If it ends with a result, pending blocks have been filled, and nodes have been walked
in between. -/
def Follows (P P' : Multiset BlockName) (L : Set BlockName) (t : Noting α) : Prop :=
  ∀ b, ∀ ⦃T d r s' V⦄, Poised (L ∪ JumpTargets.names T) P b → t.Ends ⟨b, T, d⟩ r s' V →
    AllReady V ∧ ∃ b', s' = ⟨b', T, d⟩ ∧ ∀ a, r = .ok a →
      Advances (L ∪ T.names) P P' b b' ∧ AllSpanned P' b b' V

namespace Follows

lemma pure (a : α) : Follows P P L (Pure.pure a : Noting α) := by
  intro b T d r s' V poised h
  obtain ⟨rfl, rfl, rfl⟩ := ends_pure.1 h
  exact ⟨by simp [AllReady], b, rfl, fun _ _ => ⟨.refl poised, by simp [AllSpanned]⟩⟩

lemma failAt (info : Info) (fault : LowerFault) :
    Follows P P L (WalkT.failAt info fault : Noting α) := by
  intro b T d r s' V poised h
  obtain ⟨rfl, rfl, rfl⟩ := ends_failAt.1 h
  exact ⟨by simp [AllReady], b, rfl, by rintro _ ⟨⟩⟩

lemma take {f : Builder → α × Builder} (hf : ∀ {b : Builder} {X : Set BlockName}, L ⊆ X →
    b.Poised X P → Advances X P P' b (f b).2) : Follows P P' L (WalkT.take f : Noting α) := by
  intro b T d r s' V poised h
  obtain ⟨rfl, rfl, rfl⟩ := ends_take.1 h
  exact ⟨by simp [AllReady], _, rfl, fun _ _ =>
    ⟨hf Set.subset_union_left poised, by simp [AllSpanned]⟩⟩

lemma build {f : Builder → Builder} (hf : ∀ {b : Builder} {X : Set BlockName}, L ⊆ X →
    b.Poised X P → Advances X P P' b (f b)) : Follows P P' L (WalkT.build f : Noting Unit) :=
  take (f := fun b => ((), f b)) hf

lemma bind {x : Noting α} {f : α → Noting β} (hx : Follows P Q L x)
    (hf : ∀ a, Follows Q P' L (f a)) : Follows P P' L (x >>= f) := by
  intro b T d r s' V poised h
  rcases h.of_bind with ⟨e, rfl, h₁⟩ | ⟨a, s₁, V₁, V₂, h₁, h₂, rfl⟩
  · obtain ⟨ready, b', rfl, -⟩ := hx _ poised h₁
    exact ⟨ready, b', rfl, by rintro _ ⟨⟩⟩
  · obtain ⟨ready₁, b₁, rfl, walked₁⟩ := hx _ poised h₁
    obtain ⟨first, spanned₁⟩ := walked₁ a rfl
    obtain ⟨ready₂, b', rfl, walked₂⟩ := hf a _ first.poised h₂
    refine ⟨fun _ _ _ mem => (List.mem_append.1 mem).elim (@ready₁ _ _ _) (@ready₂ _ _ _), b', rfl,
      fun c hc => ?_⟩
    obtain ⟨second, spanned₂⟩ := walked₂ c hc
    refine ⟨first.trans second, fun _ _ _ mem => ?_⟩
    rcases List.mem_append.1 mem with mem | mem
    · exact (spanned₁ mem).behind poised.tidy.knows second
    · exact (spanned₂ mem).before first.grown.next

/-- A name is given out, and is pending and at hand from there on. -/
lemma name {g : Builder → BlockName × Builder} {f : BlockName → Noting β}
    (fresh : ∀ b, (g b).1 = b.fresh) (next : ∀ b, (g b).2.nextBlock = b.nextBlock + 1)
    (current : ∀ b, (g b).2.current = b.current)
    (graph : ∀ b, (g b).2.graph = b.graph ∨ (g b).2.graph = b.graph.addBlock b.fresh)
    (hf : ∀ n, Follows (n ::ₘ P) P' (insert n L) (f n)) : Follows P P' L (WalkT.take g >>= f) := by
  intro b T d r s' V poised h
  have named : (g b).2.Poised (insert (g b).1 L ∪ T.names) ((g b).1 ::ₘ P) := by
    rw [fresh, Set.insert_union]
    exact poised.named (graph b) (current b) (next b)
  have grown : Extends ({n | b.At n} ∪ {n | n ∈ P}) (L ∪ T.names) b (g b).2 :=
    Extends.own.named_fresh (next b) (Or.inl (current b)) (graph b)
  obtain ⟨ready, b', rfl, walked⟩ := hf _ _ named (ends_take_bind.1 h)
  refine ⟨ready, b', rfl, fun a ha => ?_⟩
  obtain ⟨rest, spanned⟩ := walked a ha
  rw [Set.insert_union] at rest
  exact ⟨rest.named (fresh b) (next b) grown, fun _ _ _ mem => (spanned mem).before grown.next⟩

/-- The current block is left alone for a while. -/
lemma aside {x : Noting Unit} (hx : Follows P Q L x) :
    Follows P Q L (do let n ← suspend; x; resume n) := by
  intro b T d r s' V poised h
  rcases (ends_take_bind.1 h).of_bind with ⟨e, rfl, h₁⟩ | ⟨u, s₁, V₁, V₂, h₁, h₂, rfl⟩
  · obtain ⟨ready, b', rfl, -⟩ := hx _ poised.suspend h₁
    exact ⟨ready, b', rfl, by rintro _ ⟨⟩⟩
  · obtain ⟨ready, b₁, rfl, walked⟩ := hx _ poised.suspend h₁
    obtain ⟨rest, spanned⟩ := walked u rfl
    obtain ⟨rfl, rfl, rfl⟩ := ends_build.1 h₂
    rw [List.append_nil]
    refine ⟨ready, _, rfl, fun _ _ => ⟨rest.resume poised, fun _ _ _ mem => ?_⟩⟩
    have span : Spans Q b b₁ _ _ := (spanned mem).before le_rfl
    exact span.resume poised.numbered.current fun n hn =>
      rest.grown.names n (poised.tidy.rooted n hn)

lemma withTargets {overrides : JumpTargets} {x : Noting α} (inside : overrides.names ⊆ L)
    (hx : Follows P P' L x) : Follows P P' L (WalkT.withTargets overrides x) := by
  intro b T d r s' V poised h
  have names : L ∪ (T.overlay overrides).names ⊆ L ∪ T.names :=
    Set.union_subset Set.subset_union_left ((T.names_overlay overrides).trans
      (Set.union_subset_union_left _ inside))
  obtain ⟨s₁, h₁, rfl⟩ := h.of_withTargets
  have set : (b.note (.targetsNow (T.overlay overrides))).Poised (L ∪ (T.overlay overrides).names) P :=
    (poised.mono (fun n hn => poised.tidy.knows n (names hn)) le_rfl).quiet rfl rfl rfl
  obtain ⟨ready, b₁, rfl, walked⟩ := hx _ set h₁
  refine ⟨ready, _, rfl, fun a ha => ?_⟩
  obtain ⟨rest, spanned⟩ := walked a ha
  have grown : Extends ({n | b.At n} ∪ {n | n ∈ P}) (L ∪ T.names) b b₁ :=
    (Extends.own.note _).trans rest.grown Set.subset_union_left
      (names.trans Set.subset_union_left)
  have back : b₁.Poised (L ∪ T.names) P' :=
    rest.poised.mono (fun n hn => (poised.tidy.knows n hn).mono grown.next) le_rfl
  refine ⟨⟨grown.note _, rest.left, back.quiet rfl rfl rfl⟩, fun _ _ _ mem => ?_⟩
  have span : Spans P' b b₁ _ _ := (spanned mem).before le_rfl
  exact { span with later := span.later.note _ }

/-- Note is taken of a node that has been walked. -/
lemma visiting (env : Environment) (info : Info) {w : Noting α} (hw : ∀ P L, Follows P P L w) :
    Follows P P L (WalkT.visiting info (WalkT.nested env info w)) := by
  intro b T d r s' V poised h
  have here : WalkState.Ready ⟨b, T, d⟩ :=
    poised.mono (fun n hn => poised.tidy.knows n (Or.inr hn)) (Multiset.zero_le P)
  obtain ⟨V₁, nested, rfl⟩ := h.of_visiting
  have noted : ∀ {after}, AllReady V₁ → AllReady (V₁ ++ [.node info ⟨b, T, d⟩ after]) := by
    intro after ready _ _ _ mem
    rcases List.mem_append.1 mem with mem | mem
    · exact ready mem
    · cases List.mem_singleton.1 mem
      exact here
  rcases nested.of_nested with ⟨e, rfl, rfl, rfl⟩ | ⟨s₁, inner, rfl⟩
  · exact ⟨noted (by simp [AllReady]), b, rfl, by rintro _ ⟨⟩⟩
  · obtain ⟨ready, b', rfl, walked⟩ := hw P L _ poised inner
    refine ⟨noted ready, b', rfl, fun a ha => ?_⟩
    obtain ⟨rest, spanned⟩ := walked a ha
    refine ⟨rest, fun _ _ _ mem => ?_⟩
    rcases List.mem_append.1 mem with mem | mem
    · exact spanned mem
    · subst ha
      cases List.mem_singleton.1 mem
      -- seen for itself, the walk found nothing pending and had nothing at hand
      obtain ⟨-, _, ⟨⟩, alone⟩ := hw 0 ∅ _ (by rwa [Set.empty_union]) inner
      obtain ⟨walked, -⟩ := alone a rfl
      rw [Set.empty_union] at walked
      exact .self (fun n hn => (poised.tidy.blank n hn).1) walked

lemma noticed (bare : Bool) (v : Binding) : Follows P P L (WalkT.noticed bare v) := by
  cases bare with
  | false => exact pure v
  | true =>
    intro b T d r s' V poised h
    obtain ⟨rfl, rfl, rfl⟩ : r = .ok v ∧ s' = ⟨b, T, d⟩ ∧ V = [.subject v] := (ends_iff rfl).1 h
    exact ⟨by simp [AllReady], b, rfl, fun _ _ => ⟨.refl poised, by simp [AllSpanned]⟩⟩

/-- All steps of walks fill what is pending, and lead to what is at hand. -/
lemma steps : AllSteps fun P P' L _ (t _ : Noting _) => Follows P P' L t where
  pure a := pure a
  bind hx hf := hx.bind hf
  create hf := name (fun _ => rfl) (fun _ => rfl) (fun _ => rfl) (fun _ => Or.inr rfl) hf
  reserve hf := name (fun _ => rfl) (fun _ => rfl) (fun _ => rfl) (fun _ => Or.inl rfl) hf
  allocTemp := take fun _ poised =>
    .of_le Extends.own.allocTemp le_rfl (poised.quiet rfl rfl rfl)
  emit i h := build fun inside poised =>
    .of_le (Extends.own.emit fun n hn => inside (h n hn)) le_rfl
      (poised.emit fun n hn => inside (h n hn))
  start hn := build fun inside poised =>
    .of_le (Extends.own.startBlock (Or.inr (Multiset.mem_cons_self _ _))
      (inside hn)) (Multiset.le_cons_self _ _) (poised.startBlock (inside hn))
  land hn hb ha := build fun inside poised =>
    .of_le (Extends.own.land (Or.inr (Multiset.mem_cons_self _ _)) (inside hn)
      (inside hb) (inside ha)) (Multiset.le_cons_self _ _)
      (poised.land (inside hn) (inside hb) (inside ha))
  aside hx hy := by simpa only [bind_assoc] using hx.aside.bind fun _ => hy
  inLoop ha hn hb hx := by
    refine withTargets ?_ hx
    rintro n ⟨kind, target⟩
    cases kind <;> cases target <;> assumption
  note e := build fun _ poised =>
    .of_le (Extends.own.note e) le_rfl (poised.quiet rfl rfl rfl)
  targets {_ _ L _ f _} hf := by
    intro b T d r s' V poised h
    have same : L ∪ T.names ∪ T.names = L ∪ T.names := by simp [Set.union_assoc]
    have part := hf T _ (by rwa [same]) (ends_get_bind.1 h)
    rwa [same] at part
  withTargets hT hx := withTargets hT hx

lemma related (env : Environment) : Construction.Related env env (fun _ => True)
    (Pairing.relation (fun P P' L _ (t _ : Noting _) => Follows P P' L t) .traced .traced) :=
  steps.related ⟨rfl, fun _ _ _ info fault => failAt info fault,
    fun info _ _ hw => visiting env info hw,
    fun hs hc => steps.select (fun P L => (hs P L).bind fun v => noticed _ v) hc⟩

end Follows

end WalkT

namespace Lowering

/-- A builder is poised at the start of a tree. -/
lemma poised_start (options : Options) (root : Node) :
    (start options root).Poised ({.exit} ∪ rootTargets.names) 0 where
  tidy := tidy_start.mono (Set.union_subset subset_rfl names_rootTargets) (by simp)
  nodup := Multiset.nodup_zero
  numbered := by
    refine ⟨?_, fun e he => absurd he List.not_mem_nil⟩
    rintro n ⟨⟩
    simp [Knows, BlockName.rank]
  unended n _ := by simp [code_start]
  neat n := by simp [code_start]

variable {host : Host} {types : String → Option Binding} {options : Options} {root : Node}
  {info : Info} {s s' : WalkState} {env : Environment}

lemma follows_visits (env : Environment) (root : Node) :
    WalkT.Follows 0 0 {.exit} (WalkT.Variant.traced.wholeTree env root) :=
  WalkT.Follows.steps.wholeTree (WalkT.Follows.related env) root

/-- Every node is walked in a state that is ready. -/
lemma ready_of_visit {after : Option WalkState}
    (visit : .node info s after ∈ visits types options root) : s.Ready :=
  (follows_visits ⟨types, options.maxDepth⟩ root _ (poised_start options root) (ends_visits rfl)).1
    visit

/-- A node is walked between the start and the finished graph. -/
lemma spans_of_visit {g : Graph} (built : build host types options root = .ok g)
    (visit : .node info s (some s') ∈ visits types options root) :
    ∃ b, b.graph = g ∧ Spans 0 (start options root) b s s' := by
  obtain ⟨-, s₁, yields, graph, -⟩ := run_eq_ok_iff.1 (run_of_build built)
  obtain ⟨-, b, rfl, walked⟩ := follows_visits ⟨types, options.maxDepth⟩ root _
    (poised_start options root) (ends_visits yields)
  exact ⟨b, graph, (walked () rfl).2 visit⟩

end Lowering

end ControlFlow
