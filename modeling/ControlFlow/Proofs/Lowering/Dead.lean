import ControlFlow.Proofs.Graph.Search
import ControlFlow.Proofs.Lowering.Poised
/-!
# Code that nothing leads to

Behind a jump there is no current block, so what follows is put into new blocks. Edges lead to them
from each other only: a walk over a node fills the block that was current and new ones, and once it
has ended, nothing that is added leads to the blocks that it made. So if the block that was current
cannot be reached in the finished graph, or there was none, none of the new blocks can be reached.

The main result is `Lowering.unreachable_behind_jump`.
-/

namespace ControlFlow

open Builder

/-! ## Statements one behind the other -/

namespace Lowering

/-- Statements are walked one behind the other, and note is taken of each. -/
inductive Passes (V : List Visit) : List Node → Builder → Builder → Prop where
  | nil {b : Builder} : Passes V [] b b
  | cons {n : Node} {ns : List Node} {s s₁ : WalkState} {b' : Builder}
      (first : .node n.info s (some s₁) ∈ V) (rest : Passes V ns s₁.builder b') :
      Passes V (n :: ns) s.builder b'

/-- Statements are walked, for their effects or for the value of the last one. -/
def WalksThrough (env : Environment) (ns : List Node) (s s' : WalkState) (V : List Visit) : Prop :=
  (effects env ns : Traced Unit).Ends s (.ok ()) s' V ∨
    ∃ v, (body env ns : Traced Binding).Ends s (.ok v) s' V

variable {env : Environment} {n j : Node} {ns pre post : List Node} {s s' : WalkState}
  {V W : List Visit}

lemma Passes.mono {b b' : Builder} (h : Passes V ns b b') (sub : V ⊆ W) : Passes W ns b b' := by
  induction h with
  | nil => exact .nil
  | cons first _ ih => exact .cons (sub first) ih

lemma passes_of_effects (h : (effects env ns : Traced Unit).Ends s (.ok ()) s' V) :
    Passes V ns s.builder s'.builder := by
  induction ns generalizing s V with
  | nil =>
    obtain ⟨-, rfl, -⟩ := WalkT.ends_pure.1 h
    exact .nil
  | cons n ns ih =>
    obtain ⟨_, s₁, V₁, V₂, first, rest, rfl⟩ := h.of_bind_ok
    exact .cons (List.mem_append_left _ (mem_of_effect first))
      ((ih rest).mono (List.subset_append_right _ _))

lemma passes_of_body {v : Binding} (nonempty : ns ≠ [])
    (h : (body env ns : Traced Binding).Ends s (.ok v) s' V) :
    Passes V ns s.builder s'.builder := by
  induction ns generalizing s V with
  | nil => contradiction
  | cons n ns ih =>
    cases ns with
    | nil => exact .cons (mem_of_value h) .nil
    | cons n' ns =>
      obtain ⟨_, s₁, V₁, V₂, first, rest, rfl⟩ := h.of_bind_ok
      exact .cons (List.mem_append_left _ (mem_of_effect first))
        ((ih (List.cons_ne_nil _ _) rest).mono (List.subset_append_right _ _))

lemma WalksThrough.passes (h : WalksThrough env ns s s' V) (nonempty : ns ≠ []) :
    Passes V ns s.builder s'.builder := by
  rcases h with h | ⟨v, h⟩
  · exact passes_of_effects h
  · exact passes_of_body nonempty h

/-- The first of several statements is walked for its effects, then the others. -/
lemma WalksThrough.cons (h : WalksThrough env (n :: ns) s s' V) (nonempty : ns ≠ []) :
    ∃ s₁ W, (effect env n : Walk Unit).Yields s () s₁ ∧ WalksThrough env ns s₁ s' W ∧ W ⊆ V := by
  have head : ∀ {s₁ V₁} {u : Unit}, (effect env n : Traced Unit).Ends s (.ok u) s₁ V₁ →
      (effect env n : Walk Unit).Yields s () s₁ := by
    intro s₁ V₁ u first
    rw [erase_effect]
    exact first.erase
  rcases h with h | ⟨v, h⟩
  · obtain ⟨_, s₁, V₁, V₂, first, rest, rfl⟩ := h.of_bind_ok
    exact ⟨s₁, V₂, head first, Or.inl rest, List.subset_append_right _ _⟩
  · rw [body, if_neg (by simpa using nonempty)] at h
    obtain ⟨_, s₁, V₁, V₂, first, rest, rfl⟩ := h.of_bind_ok
    exact ⟨s₁, V₂, head first, Or.inr ⟨v, rest⟩, List.subset_append_right _ _⟩

/-- A walk through statements walks one of them, and then passes those behind it. -/
lemma WalksThrough.exists_passes (h : WalksThrough env (pre ++ j :: post) s s' V)
    (nonempty : post ≠ []) : ∃ s₀ s₁, (effect env j : Walk Unit).Yields s₀ () s₁ ∧
      Passes V post s₁.builder s'.builder := by
  induction pre generalizing s V with
  | nil =>
    obtain ⟨s₁, W, walked, rest, sub⟩ := h.cons nonempty
    exact ⟨s, s₁, walked, (rest.passes nonempty).mono sub⟩
  | cons n pre ih =>
    obtain ⟨s₁, W, -, rest, sub⟩ := h.cons (by simp)
    obtain ⟨s₀, s₂, walked, passes⟩ := ih rest
    exact ⟨s₀, s₂, walked, passes.mono sub⟩

end Lowering

/-! ## Growth around a visit -/

/-- The blocks of a visit are reached through the block that was current before it, if at all. -/
lemma Spans.unreachable {P : Multiset BlockName} {b b' : Builder} {s s' : WalkState}
    (h : Spans P b b' s s') (ready : s.Ready)
    (dead : ∀ n, s.builder.At n → ¬ b'.graph.Reaches .enter n) {n : BlockName}
    (new : n ∈ s.builder.since s'.builder) : ¬ b'.graph.Reaches .enter n := by
  intro reached
  induction reached with
  | refl => exact new.2 (by simp [Knows, BlockName.rank])
  | @tail m n reached joins ih =>
    obtain ⟨own, ownEdges, fills⟩ := h.walked.grown.edges
    obtain ⟨later, edges, leads⟩ := h.later.edges
    have edge : (⟨m, n⟩ : Edge) ∈ s.builder.graph.edges ++ own ++ later := by
      rw [← ownEdges, ← edges]
      exact joins
    -- the edge was there before the visit, was added by it, or was added later
    rcases List.mem_append.1 edge with edge | edge
    · rcases List.mem_append.1 edge with edge | edge
      · exact new.2 (ready.numbered.edges _ edge).2
      · rcases (fills _ edge).1 with (current | pending) | inside
        · exact dead m current reached
        · cases pending
        · exact ih inside
    · rcases (leads _ edge).2 with outside | unknown
      · exact outside new
      · exact unknown.2 new.1

/-! ## Code behind jumps -/

namespace Lowering

variable {host : Host} {types : String → Option Binding} {options : Options} {root : Node}
  {g : Graph} {info : Info} {s s' : WalkState}

/-- What a visit makes cannot be reached if the block before it cannot, nor can the block behind. -/
lemma unreachable_of_visit (built : build host types options root = .ok g)
    (visit : .node info s (some s') ∈ visits types options root)
    (dead : ∀ n, s.builder.At n → ¬ g.Reaches .enter n) :
    (∀ n ∈ s.builder.since s'.builder, ¬ g.Reaches .enter n) ∧
      ∀ n, s'.builder.At n → ¬ g.Reaches .enter n := by
  obtain ⟨b, rfl, spans⟩ := spans_of_visit built visit
  have made : ∀ n ∈ s.builder.since s'.builder, ¬ b.graph.Reaches .enter n :=
    fun n new => spans.unreachable (ready_of_visit visit) dead new
  refine ⟨made, fun n current => ?_⟩
  rcases spans.walked.grown.current n current with (before | pending) | new
  · exact dead n before
  · cases pending
  · exact made n new

/-- What is made while statements are walked cannot be reached if the block before them cannot. -/
lemma Passes.unreachable {ns : List Node} {b b' : Builder}
    (h : Passes (visits types options root) ns b b') (built : build host types options root = .ok g)
    (dead : ∀ n, b.At n → ¬ g.Reaches .enter n) : ∀ n ∈ b.since b', ¬ g.Reaches .enter n := by
  induction h with
  | nil => exact fun n new => absurd new.1 new.2
  | @cons _ _ s s₁ b' first _ ih =>
    obtain ⟨made, behind⟩ := unreachable_of_visit built first dead
    intro n new
    by_cases early : s₁.builder.Knows n
    · exact made n ⟨early, new.2⟩
    · exact ih behind n ⟨new.1, early⟩

/-- Behind a jump there is no current block. -/
lemma current_of_jump {env : Environment} {n : Node} {kind : JumpKind} {s s' : WalkState}
    (jump : n.kind.jump? = some kind) (walked : (effect env n : Walk Unit).Yields s () s') :
    s'.builder.current = none := by
  have left : ∀ {info : Info} {kind : JumpKind} {x : Walk Unit} {s s' : WalkState},
      (WalkT.nested env info (WalkT.jumpOut info kind x)).Yields s () s' →
        s'.builder.current = none := by
    intro info kind x s s' h
    obtain ⟨-, s₁, h₁, rfl⟩ := WalkT.yields_nested_iff.1 h
    obtain ⟨target, s₂, -, h₂⟩ := WalkT.yields_bind.1 h₁
    obtain ⟨-, s₃, -, h₃⟩ := WalkT.yields_bind.1 h₂
    obtain rfl := WalkT.yields_build.1 h₃
    exact current_jump _ target
  -- all four kinds of jumps are lowered in one way, whatever they carry
  obtain ⟨info, kind⟩ := n
  cases kind <;> first | contradiction | exact left walked

/-- Nothing can be reached that is made while statements behind a jump are walked. -/
lemma Passes.unreachable_of_jump {env : Environment} {j : Node} {kind : JumpKind}
    {post : List Node} {s s₁ : WalkState} {b₂ : Builder} (jump : j.kind.jump? = some kind)
    (walked : (effect env j : Walk Unit).Yields s () s₁)
    (passes : Passes (visits types options root) post s₁.builder b₂)
    (built : build host types options root = .ok g) :
    ∀ n ∈ s₁.builder.since b₂, ¬ g.Reaches .enter n := by
  refine passes.unreachable built fun n current => ?_
  rw [At, current_of_jump jump walked] at current
  cases current

/-- **Code behind a jump is dead.** Let a tree be lowered to a finished graph. What a walk over a
node makes cannot be reached in it if there is no current block before the walk, or one that cannot
be reached. So nothing can be reached that is made while statements behind a jump are walked,
whatever jumps, loops and blocks they hold, and whatever is added to the graph later. Wherever
statements are walked through in the course of the run, those behind a jump among them are walked so.
A walk makes the blocks that it names first. A landing that was named before may get its place in
the graph from dead code, and still be reached by other jumps. -/
theorem unreachable_behind_jump (host : Host) (types : String → Option Binding) (options : Options)
    (root : Node) (g : Graph) (built : build host types options root = .ok g) :
    (∀ info s s', .node info s (some s') ∈ visits types options root →
      (∀ n, s.builder.At n → n ∉ g.reachable) →
      ∀ n ∈ s.builder.since s'.builder, n ∉ g.reachable) ∧
    (∀ (j : Node) kind post s s₁ b₂, j.kind.jump? = some kind →
      (effect ⟨types, options.maxDepth⟩ j : Walk Unit).Yields s () s₁ →
      Passes (visits types options root) post s₁.builder b₂ →
      ∀ n ∈ s₁.builder.since b₂, n ∉ g.reachable) ∧
    ∀ (j : Node) kind pre post s s' V, j.kind.jump? = some kind → post ≠ [] →
      WalksThrough ⟨types, options.maxDepth⟩ (pre ++ j :: post) s s' V →
      V ⊆ visits types options root →
      ∃ s₀ s₁, (effect ⟨types, options.maxDepth⟩ j : Walk Unit).Yields s₀ () s₁ ∧
        Passes (visits types options root) post s₁.builder s'.builder ∧
        ∀ n ∈ s₁.builder.since s'.builder, n ∉ g.reachable := by
  simp only [Graph.mem_reachable]
  refine ⟨fun info s s' visit dead n => (unreachable_of_visit built visit dead).1 n, ?_, ?_⟩
  · intro j kind post s s₁ b₂ jump walked passes
    exact passes.unreachable_of_jump jump walked built
  · intro j kind pre post s s' V jump nonempty through sub
    obtain ⟨s₀, s₁, walked, passes⟩ := through.exists_passes nonempty
    exact ⟨s₀, s₁, walked, passes.mono sub, (passes.mono sub).unreachable_of_jump jump walked built⟩

/-- `for x in xs do next end` and `y`. -/
def afterReturn : List Node :=
  [.mk { id := 1 } (.forIn (.mk { binding := some ⟨"x", .localVar⟩ } (.varTarget "x"))
      (.mk { binding := some ⟨"xs", .localVar⟩ } (.varRef "xs")) [.mk {} (.nextWith [])]),
    .mk { id := 2, binding := some ⟨"y", .localVar⟩ } (.varRef "y")]

/-- The statements of `afterReturn` behind a `return`. -/
def returnFirst : Node := .mk {} (.program (.mk {} (.returnWith []) :: afterReturn))

theorem unreachable_behind_jump_returnFirst :
    ∃ g s₁ b₂, build .generous builtinTypes {} returnFirst = .ok g ∧ .numbered 5 ∈ g.names ∧
      (effect ⟨builtinTypes, 512⟩ (.mk {} (.returnWith [])) : Walk Unit).Yields
        ⟨start {} returnFirst, rootTargets, 1⟩ () s₁ ∧
      Passes (visits builtinTypes {} returnFirst) afterReturn s₁.builder b₂ ∧
      ∀ k, 1 ≤ k → k ≤ 5 → .numbered k ∉ g.reachable := by
  obtain ⟨g, built, named⟩ : ∃ g, build .generous builtinTypes {} returnFirst = .ok g ∧
      .numbered 5 ∈ g.names := exists_of_build (by decide +kernel)
  obtain ⟨-, _, yields, -⟩ := run_eq_ok_iff.1 (run_of_build built)
  obtain ⟨v, s', V, ends, noted⟩ := exists_ends_of_program yields
  obtain ⟨s₁, W, walked, rest, sub⟩ := WalksThrough.cons (Or.inr ⟨v, ends⟩) (List.cons_ne_nil _ _)
  have passes : Passes (visits builtinTypes {} returnFirst) afterReturn s₁.builder s'.builder :=
    (rest.passes (List.cons_ne_nil _ _)).mono (List.Subset.trans sub noted)
  have first : s₁.builder.nextBlock = 1 :=
    (congrArg (fun p => p.2.builder.nextBlock) walked).symm.trans (by decide +kernel)
  have next : s'.builder.nextBlock = 6 :=
    (congrArg (fun p => p.2.builder.nextBlock) ends.erase).symm.trans (by decide +kernel)
  refine ⟨g, s₁, _, built, named, walked, passes, fun k low high => ?_⟩
  refine (unreachable_behind_jump _ _ _ _ g built).2.1 _ .return afterReturn _ s₁ _ rfl walked
    passes _ ?_
  change k + 2 < _ + 2 ∧ ¬ k + 2 < _ + 2
  rw [first, next]
  omega

end Lowering

end ControlFlow
