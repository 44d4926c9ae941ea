import Mathlib.Data.List.Chain
import ControlFlow.Proofs.Graph.Search
import ControlFlow.Proofs.Lowering.Poised
/-!
# Ways out of protected statements

Statements with an `ensure` clause are laid out as a region: the statements are entered by one jump
and are left only for runs of the clause, one for each kind of jump that leads out and one for the way
through. So a path that gets out of the statements passes exactly one run of the clause before it gets
anywhere else, and where regions lie in each other it passes the clause of the inner one first.

Once a region is laid out, nothing that is added to the graph leads to its blocks or from them. So this
holds in the finished graph, for the region of every such walk in the course of a run.

The main result is `Lowering.ensure_covered`.
-/

namespace ControlFlow

open Builder

/-! ## Paths out of sets of blocks -/

/-- A path that starts in a set of blocks stays there, or leaves it for one of its ways out. -/
lemma Bounded.split {g : Graph} {X S : Set BlockName} {I : Set Edge} (h : Bounded g.edges X I S)
    {n : BlockName} {ns : List BlockName} (chain : (n :: ns).IsChain g.Joins) (hn : n ∈ X) :
    (∀ m ∈ n :: ns, m ∈ X) ∨ ∃ xs z zs, n :: ns = xs ++ z :: zs ∧ xs.head? = some n ∧
      (∀ m ∈ xs, m ∈ X) ∧ z ∈ S := by
  induction ns generalizing n with
  | nil => exact Or.inl (by simpa using hn)
  | cons m ns ih =>
    obtain ⟨joins, rest⟩ := List.isChain_cons_cons.1 chain
    by_cases hm : m ∈ X
    · rcases ih rest hm with all | ⟨xs, z, zs, path, -, hxs, hz⟩
      · exact Or.inl (List.forall_mem_cons.2 ⟨hn, all⟩)
      · refine Or.inr ⟨n :: xs, z, zs, by rw [path]; rfl, rfl, ?_, hz⟩
        exact List.forall_mem_cons.2 ⟨hn, hxs⟩
    · have hz := (h.leave ⟨n, m⟩ joins hn).resolve_left hm
      exact Or.inr ⟨[n], m, ns, rfl, rfl, by simpa using hn, hz⟩

namespace Region

variable {r r' : Region} {g : Graph} {n m : BlockName} {ns : List BlockName}

/-- The blocks of a path out of a region: those in the statements, those in one run of the clause, and
those behind it, the first of which is outside. -/
structure Leaves (r : Region) (p : Part) (inside clause outside : List BlockName) : Prop where
  body : ∀ n ∈ inside, n ∈ r.body
  entry : clause.head? = some p.entry
  clause : ∀ n ∈ clause, n ∈ p.blocks
  exit : ∃ n ∈ outside.head?, n ∈ p.exits

/-- A path from the statements to a block outside of the region passes one run of the clause. -/
lemma Covers.exists_leaves (covers : r.Covers g.edges) (separate : r.Separate)
    (chain : (n :: ns).IsChain g.Joins) (hn : n ∈ r.body) (hm : m ∈ ns) (out : m ∉ r.blocks) :
    ∃ p ∈ r.parts, ∃ xs ys zs, n :: ns = xs ++ ys ++ zs ∧ m ∈ zs ∧ r.Leaves p xs ys zs := by
  obtain ⟨_, -, bounded⟩ := covers.body
  rcases bounded.split chain hn with all | ⟨xs, _, rest, path, head, hxs, p, hp, rfl⟩
  · exact absurd (body_subset (all m (.tail _ hm))) out
  have hm : m ∈ xs ++ p.entry :: rest := path ▸ List.mem_cons_of_mem n hm
  have hm : m ∈ p.entry :: rest :=
    (List.mem_append.1 hm).resolve_left fun h => out (body_subset (hxs m h))
  -- the run of the clause is left only for blocks outside
  have chain : (p.entry :: rest).IsChain g.Joins := (path ▸ chain).right_of_append
  rcases (covers.part p hp).split chain (separate.entry p hp) with
    all | ⟨ys, z, zs, path', head', hys, hz⟩
  · exact absurd (part_subset hp (all m hm)) out
  rw [path'] at path hm
  refine ⟨p, hp, xs, ys, z :: zs, by rw [path, List.append_assoc], ?_, hxs, head', hys, z, rfl, hz⟩
  exact (List.mem_append.1 hm).resolve_left fun h => out (part_subset hp (hys m h))

/-- Where one region lies in the statements of another, a path out of both passes a run of the clause
of the inner one first. -/
lemma Covers.exists_leaves_nested (covers : r.Covers g.edges) (separate : r.Separate)
    (covers' : r'.Covers g.edges) (separate' : r'.Separate) (nested : r.blocks ⊆ r'.body)
    (chain : (n :: ns).IsChain g.Joins) (hn : n ∈ r.body) (hm : m ∈ ns) (out : m ∉ r'.blocks) :
    ∃ p ∈ r.parts, ∃ p' ∈ r'.parts, ∃ xs ys ws ys' zs,
      n :: ns = xs ++ ys ++ ws ++ ys' ++ zs ∧ m ∈ zs ∧ r.Leaves p xs ys (ws ++ ys' ++ zs) ∧
        r'.Leaves p' (xs ++ ys ++ ws) ys' zs := by
  obtain ⟨p, hp, xs, ys, rest, path, -, leaves⟩ := covers.exists_leaves separate chain hn hm
    fun h => out (body_subset (nested h))
  obtain ⟨p', hp', xs', ys', zs, path', hm', leaves'⟩ :=
    covers'.exists_leaves separate' chain (nested (body_subset hn)) hm out
  have inner : ∀ x ∈ xs ++ ys, x ∈ r'.body := fun x hx => nested <|
    (List.mem_append.1 hx).elim (fun h => body_subset (leaves.body x h))
      fun h => part_subset hp (leaves.clause x h)
  -- the inner part of the path ends before the outer clause is entered
  obtain ⟨ws, hxs', hrest⟩ : ∃ ws, xs' = xs ++ ys ++ ws ∧ rest = ws ++ (ys' ++ zs) := by
    rw [path, List.append_assoc xs'] at path'
    rcases List.append_eq_append_iff.1 path' with ⟨ws, h₁, h₂⟩ | ⟨ws, h₁, h₂⟩
    · exact ⟨ws, h₁, h₂⟩
    · cases ws with
      | nil => exact ⟨[], by simpa using h₁.symm, by simpa using h₂.symm⟩
      | cons w ws =>
        cases ys' with
        | nil => cases leaves'.entry
        | cons y ys' =>
          obtain ⟨rfl, -⟩ := List.cons.inj h₂
          have hw : y ∈ r'.body := inner y (by simp [h₁])
          exact absurd hw (Set.disjoint_left.1 (separate'.body p' hp') (leaves'.clause y (.head _)))
  refine ⟨p, hp, p', hp', xs, ys, ws, ys', zs, ?_, hm', ?_, hxs' ▸ leaves'⟩
  · rw [path, hrest]
    simp only [List.append_assoc]
  · rwa [List.append_assoc ws, ← hrest]

/-- A region stays covered while nothing is added that leads to its blocks or from them. -/
lemma Covers.extends {b b' : Builder} (covers : r.Covers b.graph.edges)
    (known : ∀ n ∈ r.blocks, b.Knows n) (grown : Extends r.blocksᶜ r.blocksᶜ b b') :
    r.Covers b'.graph.edges := by
  obtain ⟨added, edges, new⟩ := grown.edges
  have outside : ∀ X ⊆ r.blocks, ∀ e ∈ added, e.source ∉ X ∧ e.target ∉ X := by
    intro X hX e he
    obtain ⟨source, target⟩ := new e he
    exact ⟨fun hs => source.elim (· (hX hs)) fun fresh => fresh.2 (known _ (hX hs)),
      fun ht => target.elim (· (hX ht)) fun fresh => fresh.2 (known _ (hX ht))⟩
  rw [edges]
  refine ⟨?_, fun p hp => (covers.part p hp).append (.outside (outside _ (part_subset hp)))⟩
  obtain ⟨m, hm, bounded⟩ := covers.body
  exact ⟨m, hm, bounded.append (.outside (outside _ body_subset))⟩

end Region

/-! ## Regions of nodes -/

namespace WalkT

lemma erase_landings (T : JumpTargets) (y : Noting Unit) (kinds : List JumpKind)
    (inner : JumpTargets) : erase (landings T y kinds inner) = landings T (erase y) kinds inner := by
  induction kinds generalizing inner with
  | nil => rfl
  | cons kind kinds ih =>
    rw [landings, landings]
    cases T.get? kind with
    | none => exact ih inner
    | some target =>
      simp only [erase_bind, ih]
      rfl

/-- Statements with an `ensure` clause are walked in the stages of a region, and note is taken of what
is visited in them. -/
lemma exists_region_of_ends {x y : Noting Unit} {b : Builder} {T : JumpTargets} {d : Nat} {u : Unit}
    {s' : WalkState} {W : List Visit} (hx : (erase x).Steady) (hy : (erase y).Steady)
    (h : (guarded x (some y)).Ends ⟨b, T, d⟩ (.ok u) s' W) :
    ∃ (r : Region) (V : List Visit), r.targets = T ∧ r.start = b ∧ r.Runs d (erase x) (erase y) ∧
      s' = ⟨r.finish, T, d⟩ ∧
      x.Ends ⟨r.bodyStart, r.bodyTargets, d⟩ (.ok ()) ⟨r.left, r.bodyTargets, d⟩ V ∧ V ⊆ W := by
  simp only [guarded, createBlock, jump, ends_take_bind, ends_build_bind, ends_get_bind] at h
  obtain ⟨inner, s₁, V₁, W₁, h₁, h, rfl⟩ := h.of_bind_ok
  have copies := h₁.erase
  rw [erase_landings] at copies
  obtain ⟨cs, landed, rfl, chain, copy⟩ := yields_landings hy copies
  obtain ⟨_, _, V, W₂, h₂, h, rfl⟩ := h.of_bind_ok
  obtain ⟨s₂, body, rfl⟩ := h₂.of_withTargets
  simp only [startBlock, ends_build_bind] at body
  obtain ⟨left, rfl⟩ := hx _ _ _ _ _ body.erase
  simp only [startBlock, ends_take_bind, ends_build_bind] at h
  obtain ⟨_, _, V₃, W₃, clause, h, rfl⟩ := h.of_bind_ok
  obtain ⟨done, rfl⟩ := hy _ _ _ _ _ clause.erase
  obtain ⟨-, rfl, rfl⟩ := ends_build.1 h
  exact ⟨⟨T, b, cs, inner, landed, left, done, chain⟩, V, rfl, rfl, ⟨copy, body.erase, clause.erase⟩,
    rfl, body, fun v mem => by simp [mem]⟩

end WalkT

namespace Lowering

lemma linked_effects (env : Environment) (ns : List Node) :
    Linked (effects env ns) (effects env ns) :=
  (Linked.related env env rfl).effects_everywhere ns

lemma erase_effects (env : Environment) (ns : List Node) :
    (effects env ns : Walk Unit) = WalkT.erase (effects env ns : Traced Unit) :=
  (WalkT.erase_related env).effects_everywhere ns 0 ∅

lemma erase_into (env : Environment) (result : Option Binding) (ns : List Node) :
    (Construction.into result (body env ns) (effects env ns) : Walk Unit) =
      WalkT.erase (Construction.into result (body env ns) (effects env ns) : Traced Unit) :=
  (WalkT.erase_related env).into_everywhere result ns 0 ∅

lemma linked_into (env : Environment) (result : Option Binding) (ns : List Node) :
    Linked (Construction.into result (body env ns) (effects env ns))
      (Construction.into result (body env ns) (effects env ns)) :=
  (Linked.related env env rfl).into_everywhere result ns

end Lowering

/-- All blocks that the state of a walk refers to have been given out. -/
structure WalkState.Numbered (s : WalkState) : Prop where
  builder : s.builder.Numbered
  targets : ∀ n ∈ s.targets.names, s.builder.Knows n

namespace Region

variable {r : Region}

/-- What is walked in the stages of a region grows the graph as code does. -/
lemma Runs.grows {d : Nat} {x y : Walk Unit} {x' y' : Plan Unit} (runs : r.Runs d x y)
    (hx : Linked x x') (hy : Linked y y') : r.Grows where
  copy c hc := by
    obtain ⟨_, code, heq, -, lays⟩ := hy _ _ _ _ _ (runs.copy c hc)
    cases heq
    exact (lays c.landing).growth
  body := by
    obtain ⟨_, code, heq, -, lays⟩ := hx _ _ _ _ _ runs.body
    cases heq
    exact (lays r.bodyBlock).growth
  clause := by
    obtain ⟨_, code, heq, -, lays⟩ := hy _ _ _ _ _ runs.clause
    cases heq
    exact (lays r.ensureBlock).growth

/-- Every kind of jump that leads somewhere outside has its copy of the clause, and no other. -/
lemma exists_copy_iff (r : Region) (kind : JumpKind) :
    (∃ c ∈ r.copies, c.kind = kind) ↔ kind ∈ r.targets.kinds := by
  constructor
  · rintro ⟨c, hc, rfl⟩
    simp [JumpTargets.kinds, r.chain.target c hc]
  · intro hk
    have active := r.chain.inner_get?.2 kind (Or.inr ⟨by cases kind <;> decide, hk⟩)
    obtain ⟨n, hn⟩ := Option.isSome_iff_exists.1 active
    obtain ⟨c, hc, hk, -⟩ := r.exists_copy ((r.get?_bodyTargets kind).trans hn)
    exact ⟨c, hc, hk⟩

/-- Edges out of the statements are those that were added while they were walked and the one at their
end; there is one edge into them. -/
lemma Edges.isolated (h : r.Grows) (separate : r.Separate) (hb : r.start.Numbered)
    {m : BlockName} {copied walked behind : List Edge} (edges : r.Edges m copied walked behind) :
    (∀ e ∈ r.finish.graph.edges, e.source ∈ r.body → e ∈ walked ∨ e ∈ r.through) ∧
      ∀ e ∈ r.finish.graph.edges, e.target ∈ r.body →
        e.source ∈ r.body ∨ e = ⟨m, r.bodyBlock⟩ := by
  obtain ⟨disjoint, disjoint'⟩ := r.forall_parts.1 separate.body
  rw [edges.all]
  refine ⟨fun e he hs => ?_, fun e he ht => ?_⟩
  · simp only [List.mem_append, List.mem_singleton] at he
    rcases he with he | rfl | he | he | he | he
    · exact absurd (hb.edges e he).1 (h.not_known (body_subset hs))
    · exact absurd (body_subset hs) edges.outside
    · obtain ⟨c, hc, hs', -⟩ := edges.copy e he
      exact absurd hs (Set.disjoint_left.1 (disjoint' c hc) hs')
    · exact Or.inl he
    · exact Or.inr he
    · exact absurd hs (Set.disjoint_left.1 disjoint (edges.clause e he).1)
  · rcases List.mem_append.1 he with he | he
    · exact absurd (hb.edges e he).2 (h.not_known (body_subset ht))
    rcases List.mem_append.1 he with he | he
    · exact Or.inr (List.mem_singleton.1 he)
    · have bounded := separate.bounded_body (edges.allows h) (I := ∅)
      exact Or.inl ((bounded.enter e he ht).resolve_right (Set.notMem_empty e))

/-- Note is taken of some visits while the statements of the region are walked. -/
def Notes (r : Region) (env : Environment) (stmts : List Node) (depth : Nat) (V : List Visit) :
    Prop :=
  ∃ result, (Construction.into result (Lowering.body env stmts) (Lowering.effects env stmts) :
    Traced Unit).Ends ⟨r.bodyStart, r.bodyTargets, depth⟩ (.ok ()) ⟨r.left, r.bodyTargets, depth⟩ V

/-- The region is what a walk from `s` to `s'` builds, and runs what it has to in each stage. -/
structure Builds (r : Region) (env : Environment) (stmts clause : List Node) (s s' : WalkState) :
    Prop where
  start : r.start = s.builder ∨ r.start = s.builder.allocTemp.2
  finish : s'.builder = r.finish
  targets : r.targets = s.targets ∧ s'.targets = s.targets
  runs : ∃ result, r.Runs (s.depth + 1)
    (Construction.into result (Lowering.body env stmts) (Lowering.effects env stmts))
    (Lowering.effects env clause)

namespace Builds

variable {env : Environment} {stmts clause : List Node} {s s' : WalkState}
  (h : r.Builds env stmts clause s s')

include h

lemma grows : r.Grows := by
  obtain ⟨result, runs⟩ := h.runs
  exact runs.grows (Lowering.linked_into env result stmts) (Lowering.linked_effects env clause)

lemma nextBlock_start : r.start.nextBlock = s.builder.nextBlock := by
  rcases h.start with start | start <;> rw [start]
  rfl

/-- A temporary that is taken in front of a region changes nothing that is numbered. -/
lemma numbered (hs : s.Numbered) :
    r.start.Numbered ∧ ∀ n ∈ r.targets.names, r.start.Knows n := by
  rw [h.targets.1]
  rcases h.start with start | start
  · exact start ▸ ⟨hs.builder, hs.targets⟩
  · exact start ▸ ⟨⟨hs.builder.current, hs.builder.edges⟩, hs.targets⟩

lemma separate (hs : s.Numbered) : r.Separate := h.grows.separate (h.numbered hs).2

/-- The edges of a region that a walk builds. -/
lemma edges (hs : s.Numbered) : ∃ m copied walked behind, r.Edges m copied walked behind ∧
    (∀ e ∈ r.finish.graph.edges, e.source ∈ r.body → e ∈ walked ∨ e ∈ r.through) ∧
    ∀ e ∈ r.finish.graph.edges, e.target ∈ r.body → e.source ∈ r.body ∨ e = ⟨m, r.bodyBlock⟩ := by
  obtain ⟨m, copied, walked, behind, edges⟩ := h.grows.edges (h.numbered hs).1
  exact ⟨m, copied, walked, behind, edges,
    edges.isolated h.grows (h.separate hs) (h.numbered hs).1⟩

lemma blocks_subset : r.blocks ⊆ s.builder.since s'.builder := by
  refine h.grows.blocks_subset.trans fun n hn => ?_
  rwa [mem_since_iff, h.nextBlock_start, ← h.finish, ← mem_since_iff] at hn

/-- Behind the walk the blocks of the region are complete: another block is current. -/
lemma blocks_completed (hs : s.Numbered) : r.blocks ⊆ s.builder.completed s'.builder := by
  refine fun n hn => ⟨h.blocks_subset hn, fun current => ?_⟩
  rw [h.finish, Region.finish, at_startBlock] at current
  subst current
  obtain ⟨exits, -⟩ := r.forall_parts.1 (h.separate hs).exits
  exact Set.disjoint_left.1 exits (Or.inl rfl) hn

/-- A region is covered in every graph that holds its walk. -/
lemma covers {P : Multiset BlockName} {b b' : Builder} (hs : s.Numbered)
    (spans : Spans P b b' s s') : r.Covers b'.graph.edges := by
  have covers := h.grows.covers (h.numbered hs).2 (h.numbered hs).1
  rw [← h.finish] at covers
  refine covers.extends (fun n hn => (h.blocks_subset hn).1) (spans.later.mono ?_ ?_)
  · exact Set.compl_subset_compl.2 (h.blocks_completed hs)
  · exact Set.compl_subset_compl.2 h.blocks_subset

end Builds

end Region

namespace Lowering

variable {env : Environment} {info : Info} {stmts clause : List Node} {s s' : WalkState}

/-- A node is walked, for its value or for its effects alone. -/
def Walked (env : Environment) (n : Node) (s s' : WalkState) : Prop :=
  (effect env n : Walk Unit).Yields s () s' ∨ ∃ v, (value env n : Walk Binding).Yields s v s'

/-- A node is walked, for its value or for its effects alone, and note is taken of some visits. -/
def WalksOver (env : Environment) (n : Node) (s s' : WalkState) (W : List Visit) : Prop :=
  (effect env n : Traced Unit).Ends s (.ok ()) s' W ∨
    ∃ v, (value env n : Traced Binding).Ends s (.ok v) s' W

lemma WalksOver.mem {n : Node} {W : List Visit} (h : WalksOver env n s s' W) :
    .node n.info s (some s') ∈ W := by
  rcases h with h | ⟨v, h⟩
  · exact mem_of_effect h
  · exact mem_of_value h

lemma Walked.exists_walksOver {n : Node} (h : Walked env n s s') : ∃ W, WalksOver env n s s' W := by
  rcases h with h | ⟨v, h⟩
  · rw [erase_effect] at h
    obtain ⟨W, ends⟩ := WalkT.exists_ends_of_erase h
    exact ⟨W, Or.inl ends⟩
  · rw [erase_value] at h
    obtain ⟨W, ends⟩ := WalkT.exists_ends_of_erase h
    exact ⟨W, Or.inr ⟨v, ends⟩⟩

lemma numbered_initial (options : Options) (root : Node) : (initial options root).Numbered := by
  refine ⟨⟨?_, fun e he => absurd he List.not_mem_nil⟩, ?_⟩
  · rintro n ⟨⟩
    simp [Knows, BlockName.rank]
  · rintro n ⟨kind, hn⟩
    cases kind <;> cases hn
    simp [Knows, BlockName.rank]

/-- Walks refer only to blocks that have been given out. -/
lemma Walked.numbered {n : Node} (h : Walked env n s s') (hs : s.Numbered) : s'.Numbered := by
  obtain ⟨b, T, d⟩ := s
  have linked := (Linked.related env env rfl).everywhere n
  obtain ⟨b', c, rfl, lays⟩ : ∃ b', ∃ c : Code, s' = ⟨b', T, d⟩ ∧ ∀ l, c.Lays l T b b' := by
    rcases h with h | ⟨v, h⟩
    · obtain ⟨b', c, hs', -, lays⟩ := linked.effect ⟨Set.univ, subset_rfl⟩ _ _ _ _ _ h
      exact ⟨b', c, hs', lays⟩
    · obtain ⟨b', c, hs', -, lays⟩ := linked.value ⟨Set.univ, subset_rfl⟩ _ _ _ _ _ h
      exact ⟨b', c, hs', lays⟩
  have grown := (lays .exit).growth
  refine ⟨hs.builder.extends hs.builder.current ?_ grown, fun n hn => (hs.targets n hn).mono grown.next⟩
  rintro n (rfl | target)
  · simp [Knows, BlockName.rank]
  · exact hs.targets n target

/-- A walk over statements with an `ensure` clause builds a region. -/
lemma WalksOver.exists_region {W : List Visit}
    (h : WalksOver env (.mk info (.guarded stmts (some clause))) s s' W) :
    ∃ (r : Region) (V : List Visit), r.Builds env stmts clause s s' ∧
      r.Notes env stmts (s.depth + 1) V ∧ V ⊆ W := by
  obtain ⟨b, T, d⟩ := s
  have steady : ∀ result, (WalkT.erase (Construction.into result (body env stmts)
      (effects env stmts) : Traced Unit)).Steady := fun result => by
    rw [← erase_into]
    exact (linked_into env result stmts).steady
  have steady' : (WalkT.erase (effects env clause : Traced Unit)).Steady := by
    rw [← erase_effects]
    exact (linked_effects env clause).steady
  rcases h with h | ⟨v, h⟩
  · rw [effect] at h
    obtain ⟨W₁, inner, rfl⟩ := h.of_visiting
    rcases inner.of_nested with ⟨_, ⟨⟩, -⟩ | ⟨s₁, walk, rfl⟩
    simp only [Kind.delivery, construct] at walk
    obtain ⟨r, V, rfl, rfl, runs, rfl, notes, sub⟩ :=
      WalkT.exists_region_of_ends (steady none) steady' walk
    rw [← erase_into, ← erase_effects] at runs
    exact ⟨r, V, ⟨Or.inl rfl, rfl, ⟨rfl, rfl⟩, none, runs⟩, ⟨none, notes⟩,
      List.subset_append_of_subset_left _ sub⟩
  · rw [value] at h
    obtain ⟨W₁, inner, rfl⟩ := h.of_visiting
    rcases inner.of_nested with ⟨_, ⟨⟩, -⟩ | ⟨s₁, walk, rfl⟩
    simp only [Kind.delivery, construct] at walk
    obtain ⟨t, s₂, W₂, W₃, taken, rest, rfl⟩ := walk.of_bind_ok
    obtain ⟨-, rfl, rfl⟩ := (WalkT.ends_take (f := Builder.allocTemp)).1 taken
    obtain ⟨u, s₃, W₂, W₃, guarded, last, rfl⟩ := rest.of_bind_ok
    obtain ⟨-, rfl, rfl⟩ := WalkT.ends_pure.1 last
    obtain ⟨r, V, rfl, start, runs, rfl, notes, sub⟩ :=
      WalkT.exists_region_of_ends (steady _) steady' guarded
    rw [← erase_into, ← erase_effects] at runs
    refine ⟨r, V, ⟨Or.inr start, rfl, ⟨rfl, rfl⟩, _, runs⟩, ⟨_, notes⟩, ?_⟩
    rw [List.nil_append]
    exact List.subset_append_of_subset_left _ (List.subset_append_of_subset_left _ sub)

end Lowering

/-! ## Regions in regions -/

namespace Region

variable {r r₁ : Region} {env : Environment} {stmts clause : List Node} {s s' : WalkState} {n : Node}
  {d : Nat} {V : List Visit}

/-- The first statement is walked over where the statements start. -/
lemma Notes.exists_walksOver (h : r.Notes env (n :: stmts) d V) :
    ∃ s' V₁, Lowering.WalksOver env n ⟨r.bodyStart, r.bodyTargets, d⟩ s' V₁ ∧ V₁ ⊆ V := by
  obtain ⟨result, ends⟩ := h
  cases result with
  | none =>
    obtain ⟨_, s', V₁, V₂, first, -, rfl⟩ := ends.of_bind_ok
    exact ⟨s', V₁, Or.inl first, List.subset_append_left _ _⟩
  | some dest =>
    obtain ⟨v, s', V₁, V₂, value, -, rfl⟩ := ends.of_bind_ok
    rw [Lowering.body] at value
    split at value
    · exact ⟨s', V₁, Or.inr ⟨v, value⟩, List.subset_append_left _ _⟩
    · obtain ⟨_, s', V₁, V₂, first, -, rfl⟩ := value.of_bind_ok
      exact ⟨s', V₁, Or.inl first, fun v hv => by simp [hv]⟩

/-- Nothing is visited where there are no statements. -/
lemma Notes.eq_nil (h : r.Notes env [] d V) : V = [] := by
  obtain ⟨result, ends⟩ := h
  cases result <;> exact ((WalkT.ends_iff rfl).1 ends).2.2

/-- Where statements are visited in states that are ready, they start in such a state. -/
lemma Notes.ready (h : r.Notes env stmts d V) (ready : AllReady V) {v : Visit} (visit : v ∈ V) :
    WalkState.Ready ⟨r.bodyStart, r.bodyTargets, d⟩ := by
  cases stmts with
  | nil =>
    rw [h.eq_nil] at visit
    cases visit
  | cons n stmts =>
    obtain ⟨s', V₁, walks, sub⟩ := h.exists_walksOver
    exact ready (sub walks.mem)

/-- A region that is built while the statements of another one are walked lies in these. -/
lemma Builds.subset_of_notes {info : Info} (h : r₁.Builds env stmts clause s s') {stmts' : List Node}
    (notes : r.Notes env stmts' d V) (ready : AllReady V) (visit : .node info s (some s') ∈ V) :
    r₁.blocks ⊆ r.body := by
  have start := notes.ready ready visit
  obtain ⟨result, ends⟩ := notes
  have follows : WalkT.Follows 0 0 ∅ (Construction.into result (Lowering.body env stmts')
      (Lowering.effects env stmts') : Traced Unit) :=
    (WalkT.Follows.related env).into_everywhere result stmts' 0 ∅
  obtain ⟨-, _, ⟨⟩, walked⟩ := follows _ (by rwa [Set.empty_union]) ends
  have spans := (walked () rfl).2 visit
  have low := spans.next
  have high := spans.later.next
  have next : r.bodyStart.nextBlock = r.landed.nextBlock := nextBlock_startBlock ..
  intro n hn
  have new := h.blocks_subset hn
  rw [mem_since_iff] at new
  rw [mem_body]
  omega

end Region

namespace Lowering

variable {host : Host} {types : String → Option Binding} {options : Options} {root : Node}
  {g : Graph} {info : Info} {stmts clause : List Node} {s s' : WalkState} {r : Region}

lemma numbered_of_visit {after : Option WalkState}
    (visit : .node info s after ∈ visits types options root) : s.Numbered :=
  have ready := ready_of_visit visit
  ⟨ready.numbered, ready.tidy.knows⟩

/-- The region of every walk in the course of a run is covered in the finished graph. -/
lemma covers_of_visit (built : build host types options root = .ok g)
    (visit : .node info s (some s') ∈ visits types options root)
    (builds : r.Builds ⟨types, options.maxDepth⟩ stmts clause s s') : r.Covers g.edges := by
  obtain ⟨b, rfl, spans⟩ := spans_of_visit built visit
  exact builds.covers (numbered_of_visit visit) spans

/-- **Protected statements are left only through their `ensure` clause.**

Every walk starts in a state in which all blocks are numbered, and leads to such states. From there a
walk over statements with a clause builds a region. For each kind of jump that leads somewhere
outside there is one copy of the clause, which is lowered on its own and then leads where jumps of this
kind lead outside. The edges that are added while the statements are walked stay in the statements or
lead to the landings of the copies; the only other edge out of the statements is the one at their end,
to the clause on the way through, and the only edge into them is the one on entry.

All nodes of a tree are walked in such states while it is lowered, so every walk over statements with a
clause in the course of a run builds its region. In the finished graph, a path from the statements of
the region to a block outside passes exactly one run of the clause in between. Walks over other
statements with a clause that take place while these are walked build regions that lie in them. A path
that starts in the statements of the inner region and gets out of both passes the clause of the inner
one first. -/
theorem ensure_covered : (∀ options root, (initial options root).Numbered) ∧
    (∀ env n s s', s.Numbered → Walked env n s s' → s'.Numbered) ∧
    (∀ env info stmts clause s s', s.Numbered →
      Walked env (.mk info (.guarded stmts (some clause))) s s' →
      ∃ r : Region, r.Builds env stmts clause s s' ∧ r.Separate ∧
        (∀ kind, (∃ c ∈ r.copies, c.kind = kind) ↔ kind ∈ s.targets.kinds) ∧
        (∀ c ∈ r.copies, s.targets.get? c.kind = some c.target) ∧
        ∃ m copied walked behind, r.Edges m copied walked behind ∧
          (∀ e ∈ s'.builder.graph.edges, e.source ∈ r.body → e ∈ walked ∨ e ∈ r.through) ∧
          ∀ e ∈ s'.builder.graph.edges, e.target ∈ r.body →
            e.source ∈ r.body ∨ e = ⟨m, r.bodyBlock⟩) ∧
    ∀ host types options root g, build host types options root = .ok g →
      ∀ info stmts clause s s' W,
        WalksOver ⟨types, options.maxDepth⟩ (.mk info (.guarded stmts (some clause))) s s' W →
        W ⊆ visits types options root → s.Numbered ∧
        (∃ (r : Region) (V : List Visit), r.Builds ⟨types, options.maxDepth⟩ stmts clause s s' ∧
          r.Notes ⟨types, options.maxDepth⟩ stmts (s.depth + 1) V ∧ V ⊆ W) ∧
        ∀ r : Region, r.Builds ⟨types, options.maxDepth⟩ stmts clause s s' →
          (∀ n ns m, (n :: ns).IsChain g.Joins → n ∈ r.body → m ∈ ns → m ∉ r.blocks →
            ∃ p ∈ r.parts, ∃ xs ys zs, n :: ns = xs ++ ys ++ zs ∧ m ∈ zs ∧ r.Leaves p xs ys zs) ∧
          ∀ V info₁ stmts₁ clause₁ s₁ s₁' W₁,
            r.Notes ⟨types, options.maxDepth⟩ stmts (s.depth + 1) V → V ⊆ W →
            WalksOver ⟨types, options.maxDepth⟩ (.mk info₁ (.guarded stmts₁ (some clause₁)))
              s₁ s₁' W₁ → W₁ ⊆ V →
            (∃ r₁ : Region, r₁.Builds ⟨types, options.maxDepth⟩ stmts₁ clause₁ s₁ s₁') ∧
            ∀ r₁ : Region, r₁.Builds ⟨types, options.maxDepth⟩ stmts₁ clause₁ s₁ s₁' →
              r₁.blocks ⊆ r.body ∧
              ∀ n ns m, (n :: ns).IsChain g.Joins → n ∈ r₁.body → m ∈ ns → m ∉ r.blocks →
                ∃ p₁ ∈ r₁.parts, ∃ p ∈ r.parts, ∃ xs ys ws ys' zs,
                  n :: ns = xs ++ ys ++ ws ++ ys' ++ zs ∧ m ∈ zs ∧
                    r₁.Leaves p₁ xs ys (ws ++ ys' ++ zs) ∧ r.Leaves p (xs ++ ys ++ ws) ys' zs := by
  refine ⟨numbered_initial, fun env n s s' numbered walked => walked.numbered numbered, ?_, ?_⟩
  · intro env info stmts clause s s' numbered walked
    obtain ⟨W, walks⟩ := walked.exists_walksOver
    obtain ⟨r, -, builds, -⟩ := walks.exists_region
    obtain ⟨m, copied, walked, behind, edges, leave, enter⟩ := builds.edges numbered
    refine ⟨r, builds, builds.separate numbered, fun kind => ?_, fun c hc => ?_, m, copied, walked,
      behind, edges, builds.finish ▸ leave, builds.finish ▸ enter⟩
    · rw [r.exists_copy_iff, builds.targets.1]
    · rw [← builds.targets.1]
      exact r.chain.target c hc
  · intro host types options root g built info stmts clause s s' W walks run
    have visit := run walks.mem
    have numbered := numbered_of_visit visit
    refine ⟨numbered, walks.exists_region, fun r builds => ?_⟩
    have covers := covers_of_visit built visit builds
    have separate := builds.separate numbered
    refine ⟨fun n ns m => covers.exists_leaves separate, ?_⟩
    intro V info₁ stmts₁ clause₁ s₁ s₁' W₁ notes sub walks₁ inner
    have visit₁ := run (sub (inner walks₁.mem))
    obtain ⟨r₁, -, builds₁, -⟩ := walks₁.exists_region
    refine ⟨⟨r₁, builds₁⟩, fun r₁ builds₁ => ?_⟩
    have nested := builds₁.subset_of_notes notes (fun _ _ _ mem => ready_of_visit (run (sub mem)))
      (inner walks₁.mem)
    refine ⟨nested, fun n ns m => ?_⟩
    exact (covers_of_visit built visit₁ builds₁).exists_leaves_nested
      (builds₁.separate (numbered_of_visit visit₁)) covers separate nested

/-- Protected statements that return. -/
def guardedReturn : Node :=
  .mk { id := 1 } (.guarded [.mk {} (.returnWith [])] (some [.mk {} .void]))

/-- Protected statements that return out of other protected statements. -/
def nestedReturn : Node := .mk {} (.guarded [guardedReturn] (some [.mk {} .void]))

/-- The number of the next block where a visit starts. -/
def nextBlockAt (id : Nat) : Visit → Option Nat
  | .node info s _ => if info.id = id then some s.builder.nextBlock else none
  | .subject _ => none

/-- Both nodes build a region, and the path from the inner `return` to the exit leads through the clause
of the inner one and then through the clause of the outer one. -/
theorem ensure_covered_nestedReturn : ∃ g s s' s₁ s₁' W W₁, ∃ r r₁ : Region,
    build .generous builtinTypes {} nestedReturn = .ok g ∧
    WalksOver ⟨builtinTypes, 512⟩ nestedReturn s s' W ∧
    W ⊆ visits builtinTypes {} nestedReturn ∧
    r.Builds ⟨builtinTypes, 512⟩ [guardedReturn] [.mk {} .void] s s' ∧
    WalksOver ⟨builtinTypes, 512⟩ guardedReturn s₁ s₁' W₁ ∧ W₁ ⊆ W ∧
    r₁.Builds ⟨builtinTypes, 512⟩ [.mk {} (.returnWith [])] [.mk {} .void] s₁ s₁' ∧
    r₁.blocks ⊆ r.body ∧ [.numbered 3, .numbered 4, .numbered 2, .exit].IsChain g.Joins ∧
    ∃ p₁ ∈ r₁.parts, ∃ p ∈ r.parts, ∃ xs ys ws ys' zs,
      [.numbered 3, .numbered 4, .numbered 2, .exit] = xs ++ ys ++ ws ++ ys' ++ zs ∧ .exit ∈ zs ∧
        r₁.Leaves p₁ xs ys (ws ++ ys' ++ zs) ∧ r.Leaves p (xs ++ ys ++ ws) ys' zs := by
  obtain ⟨g, built, edges⟩ : ∃ g, build .generous builtinTypes {} nestedReturn = .ok g ∧
      (⟨.numbered 3, .numbered 4⟩ ∈ g.edges ∧ ⟨.numbered 4, .numbered 2⟩ ∈ g.edges ∧
        ⟨.numbered 2, .exit⟩ ∈ g.edges) := exists_of_build (by decide +kernel)
  have chain : [.numbered 3, .numbered 4, .numbered 2, .exit].IsChain g.Joins := by
    simpa [Graph.Joins] using edges
  -- the node and the statement in it are walked in the course of the run
  obtain ⟨-, _, yields, -⟩ := run_eq_ok_iff.1 (run_of_build built)
  obtain ⟨v, s', W, _, outer, -, noted⟩ := (ends_visits yields).of_bind_ok
  have run : W ⊆ visits builtinTypes {} nestedReturn := noted ▸ List.subset_append_left _ _
  obtain ⟨-, ⟨r, V, builds, notes, sub⟩, covered⟩ :=
    ensure_covered.2.2.2 _ _ _ _ g built _ _ _ _ _ W (Or.inr ⟨v, outer⟩) run
  obtain ⟨s₁', W₁, inner, sub₁⟩ := notes.exists_walksOver
  obtain ⟨⟨r₁, builds₁⟩, nested⟩ := (covered r builds).2 V _ _ _ _ _ W₁ notes sub inner sub₁
  obtain ⟨lies, passes⟩ := nested r₁ builds₁
  -- the inner statements start in the third block
  have next : (visits builtinTypes {} nestedReturn).filterMap (nextBlockAt 1) = [3] := by
    decide +kernel
  have third : r₁.bodyBlock = .numbered 3 := by
    have mem := List.mem_filterMap.2
      ⟨_, run (sub (sub₁ inner.mem)), (rfl : nextBlockAt 1 _ = some r.bodyStart.nextBlock)⟩
    rw [next, List.mem_singleton] at mem
    rw [Region.bodyBlock, fresh, builds₁.nextBlock_start, mem]
  refine ⟨g, _, s', _, s₁', W, W₁, r, r₁, built, Or.inr ⟨v, outer⟩, run, builds, inner,
    List.Subset.trans sub₁ sub, builds₁, lies, chain, passes _ _ _ chain ?_ (by simp) ?_⟩
  · exact Or.inl third.symm
  · intro block
    exact (builds.blocks_subset block).2 (by simp [Knows, BlockName.rank])

end Lowering

end ControlFlow
