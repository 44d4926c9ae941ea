import ControlFlow.Lowering.Build
import ControlFlow.Proofs.Code.WayOut
import ControlFlow.Proofs.Code.Whole
import ControlFlow.Proofs.Graph.Proper
/-!
# The shape of finished graphs

Whenever a tree can be lowered, its graph is proper: all blocks but the exit end in their only
terminator, and the edges are those of the terminators. So the only rule that the graph can break is
that its exit has to be reachable, and it keeps that one too unless the condition of some loop goes
on with that loop.
-/

namespace ControlFlow

/-- The condition of no loop contains a `next` or a `redo` that goes on with the same loop. -/
def Node.LoopsClear (root : Node) : Prop :=
  root.Each fun n => ∀ condition, n.kind.loopCondition? = some condition →
    .next ∉ condition.exits ∧ .redo ∉ condition.exits

namespace Lowering

lemma exists_of_isOk {e : Except LowerError Graph} (h : e.isOk = true) : ∃ g, e = .ok g := by
  cases e with
  | error => cases h
  | ok g => exact ⟨g, rfl⟩

variable {host : Host} {types : String → Option Binding} {options : Options} {root : Node}
  {g : Graph}

/-- A layout of a whole graph has a proper graph. -/
lemma Complete.proper {G : Layout} {b : Builder} (h : Complete G b) : b.graph.Proper := by
  obtain ⟨valid, rfl, pending, current⟩ := h
  have nowhere : ∀ n, ¬ G.builder.At n := fun n at_ => by simp [Builder.At, current] at at_
  refine ⟨valid.nodup, valid.enter, valid.exit, fun b hb hne => ?_, fun b hb he => ?_,
    valid.empty_exit.2, ?_⟩
  · obtain ⟨body, last, hc, plain, ends, hs⟩ := valid.ended b.name (List.mem_map.2 ⟨b, hb, rfl⟩) hne
      (by simp [pending]) (nowhere _)
    rw [Graph.code_of_mem valid.nodup hb] at hc
    refine ⟨last, ⟨ends, body, hc, plain⟩, hs, fun t ht => ?_⟩
    rw [← hs, Graph.mem_successors] at ht
    exact (valid.edges _ ht).2.1
  · rw [← Graph.code_of_mem valid.nodup hb, he]
    exact valid.empty_exit.1
  · refine List.eq_nil_iff_forall_not_mem.2 fun n hn => ?_
    obtain ⟨e, ⟨he, target⟩, -⟩ := by simpa [Graph.predecessors] using hn
    exact (valid.edges e he).2.2.1 target

/-- The graph of a tree is proper. -/
lemma proper_of_build (h : build host types options root = .ok g) : g.Proper := by
  obtain ⟨v, c, t, b, -, hl, rfl, -⟩ := run_lays (run_of_build h)
  obtain ⟨G, complete, -⟩ :=
    complete_of_lays (s := Set.univ) (A := Set.univ) hl (c.flows_univ _ _) trivial
  exact complete.proper

/-- All jumps out of a tree lead to the exit, and so does its end. -/
lemma exit_reached {σ : Type} {M : Machine σ} {fuel : Nat} {c : Code} {v : Binding} {b : Builder}
    {s s' : σ} {kind : JumpKind}
    (hl : ∀ l, (returning c v).Lays l rootTargets (start options root) b)
    (hr : (returning c v).Runs M fuel s (.jump kind) s') :
    ∃ k, b.graph.Run M k (.start .enter, s) (.start .exit, s') := by
  obtain ⟨k, q, run, -, target, ht, rfl⟩ := leads_of_lays (hl .exit) hr
  cases kind <;> cases ht
  exact ⟨k, run⟩

/-- The exit can be reached if the conditions of all loops are clear. -/
lemma reaches_exit (h : build host types options root = .ok g) (clear : root.LoopsClear) :
    g.Reaches .enter .exit := by
  have proper := proper_of_build h
  obtain ⟨v, c, t, b, hc, hl, rfl, -⟩ := run_lays (run_of_build h)
  have sound : root.Each (Node.Sound Set.univ fun K => .next ∉ K ∧ .redo ∉ K) :=
    ⟨⟨fun _ _ => trivial, clear.1⟩, fun d hd => ⟨fun _ _ => trivial, clear.2 d hd⟩⟩
  have gets : c.Gets .done Set.univ :=
    ((Plan.wayOut_related _).lowering root sound (Set.subset_univ _)).value
      ⟨Set.univ, subset_rfl⟩ hc
  obtain ⟨kind, hr⟩ : ∃ kind, (returning c v).Runs Machine.any 1 () (.jump kind) () := by
    rcases gets with hr | ⟨kind, -, hr⟩
    · exact ⟨.return, Or.inl ⟨(), hr, Or.inl ⟨(), ⟨rfl, rfl⟩, rfl, rfl⟩⟩⟩
    · exact ⟨kind, Or.inr ⟨nofun, hr⟩⟩
  obtain ⟨k, run⟩ := exit_reached hl hr
  exact proper.reaches run

/-- **The graph of a tree is proper and breaks no rule but the one that its exit has to be
reachable; if no condition of a loop goes on with the same loop, it breaks none.** -/
theorem build_proper (h : build host types options root = .ok g) :
    g.Proper ∧ (∀ v ∈ g.verify, v = .exitUnreachable) ∧
      (root.LoopsClear → g.Reaches .enter .exit ∧ g.verify = []) := by
  have proper := proper_of_build h
  refine ⟨proper, fun v hv => ?_, fun clear => ?_⟩
  · rw [proper.verify_eq] at hv
    split at hv
    · cases hv
    · exact List.mem_singleton.1 hv
  · have reaches := reaches_exit h clear
    rw [proper.verify_eq, if_pos (Graph.mem_reachable.2 reaches)]
    exact ⟨reaches, rfl⟩

/-- A loop that is gone on with in protected statements and left in the clause that protects them. -/
def crossedJumps : Node :=
  .mk {} (.program [.mk {} (.loop .whileTrue (.mk {} (.literal (.bool true)))
    [.mk {} (.guarded [.mk {} (.nextWith [])] (some [.mk {} (.breakWith [])]))])])

lemma loopsClear_crossedJumps : crossedJumps.LoopsClear := by
  simp [Node.LoopsClear, crossedJumps, Node.each_mk, Kind.children, Kind.fields, Kind.inRole,
    Node.kind, Kind.loopCondition?, Node.exits, Node.leaves_mk, Kind.jump?]

/-- The loop can be lowered, and its graph breaks no rule. -/
theorem build_proper_crossedJumps : ∃ g, build .generous builtinTypes {} crossedJumps = .ok g ∧
    crossedJumps.LoopsClear ∧ g.Proper ∧ g.Reaches .enter .exit ∧ g.verify = [] := by
  obtain ⟨g, h⟩ := exists_of_isOk (e := build .generous builtinTypes {} crossedJumps)
    (by decide +kernel)
  have clear := loopsClear_crossedJumps
  have ⟨proper, _, reached⟩ := build_proper h
  exact ⟨g, h, clear, proper, reached clear⟩

end Lowering

end ControlFlow
