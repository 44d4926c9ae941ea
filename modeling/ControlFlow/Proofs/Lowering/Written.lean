import ControlFlow.Lowering.Build
import ControlFlow.Proofs.Code.Fills
import ControlFlow.Proofs.Code.Whole
/-!
# Temporaries are written before they are read

In the graph of a tree that names no temporary itself, every temporary that an instruction reads has
been written earlier on the path that leads to the instruction, whatever path that is.
-/

namespace ControlFlow

/-- A path from the entry: it has passed the blocks in the list, in their order, and has come to a
block that follows the last one. -/
inductive Graph.Path (g : Graph) : List BlockName → BlockName → Prop where
  | start : Path g [] .enter
  | step {ns : List BlockName} {n m : BlockName} (h : Path g ns n) (e : ⟨n, m⟩ ∈ g.edges) :
      Path g (ns ++ [n]) m

/-- No node of the tree is annotated with a temporary, and no scope names one. -/
def Node.NamesNoTemporary (root : Node) : Prop :=
  root.Each fun n => ∀ b ∈ n.info.bindings, b.kind ≠ .temporary

namespace Lowering

variable {host : Host} {types : String → Option Binding} {options : Options} {root : Node}
  {g : Graph}

/-- The bindings that trees may name; they hold a value from the start. -/
def namedBindings : Set Binding := {b | b.kind ≠ .temporary}

/-- What holds a value at the start of a block either does from the start or has been written on
every path to the block. -/
lemma Complete.written {G : Layout} {b : Builder} (h : Complete G b) {ns : List BlockName}
    {n : BlockName} (path : b.graph.Path ns n) :
    G.label n ⊆ G.label .enter ∪ Instruction.allDefs (ns.flatMap b.graph.code) := by
  induction path with
  | start => exact Set.subset_union_left
  | @step ns n m _ e ih =>
    obtain ⟨valid, rfl, -, -⟩ := h
    intro v hv
    -- the edge says that `v` held a value at the start of the block before, or is written in it
    rcases (valid.edges _ e).2.2.2 hv with hv | ⟨i, hi, hv⟩
    · refine (ih hv).imp_right fun ⟨i, hi, hv⟩ => ⟨i, ?_, hv⟩
      rw [List.flatMap_append]
      exact List.mem_append_left _ hi
    · refine Or.inr ⟨i, ?_, hv⟩
      simpa using Or.inr hi

/-- Everything that is read on a path has been written on it, if only named bindings hold a value from
the start. -/
lemma Complete.read_written {G : Layout} {b : Builder} (h : Complete G b)
    (enter : G.label .enter = namedBindings) {ns : List BlockName} {n : BlockName}
    (path : b.graph.Path ns n) {before behind : List Instruction} {i : Instruction}
    (code : b.graph.code n = before ++ i :: behind) {v : Binding} (read : v ∈ i.reads)
    (temporary : v.kind = .temporary) : ∃ j ∈ ns.flatMap b.graph.code ++ before, j.dest? = some v := by
  have earlier := h.written path
  obtain ⟨valid, rfl, -, -⟩ := h
  rcases valid.ready n before i behind code v read with hv | ⟨j, hj, hv⟩
  · rcases earlier hv with hv | ⟨j, hj, hv⟩
    · rw [enter] at hv
      exact absurd temporary hv
    · exact ⟨j, List.mem_append_left _ hj, hv⟩
  · exact ⟨j, List.mem_append_right _ hj, hv⟩

/-- **No temporary is read before it is written.** Take a path from the entry of the graph of a tree
and an instruction in the block that it comes to: every temporary that the instruction reads is the
destination of an instruction that stands before it on the path. -/
theorem temporaries_written (h : build host types options root = .ok g) (names : root.NamesNoTemporary)
    (registered : ∀ name b, types name = some b → b.kind ≠ .temporary) {ns : List BlockName}
    {n : BlockName} (path : g.Path ns n) {before behind : List Instruction} {i : Instruction}
    (code : g.code n = before ++ i :: behind) {v : Binding} (read : v ∈ i.reads)
    (temporary : v.kind = .temporary) : ∃ j ∈ ns.flatMap g.code ++ before, j.dest? = some v := by
  obtain ⟨v', c, t, b, hc, hl, rfl, -⟩ := run_lays (run_of_build h)
  have sound : root.Each (Node.Sound namedBindings fun _ => True) :=
    ⟨⟨names.1, fun _ _ => trivial⟩, fun d hd => ⟨names.2 d hd, fun _ _ => trivial⟩⟩
  have fills : c.Fills namedBindings {v'} :=
    ((Plan.filled_related registered).lowering root sound (Set.subset_univ _)).value
      ⟨namedBindings, subset_rfl⟩ hc
  obtain ⟨A, hA, flows⟩ := fills ∅ subset_rfl (J := fun _ => ∅) fun _ => Set.empty_subset _
  obtain ⟨G, complete, enter⟩ := complete_of_lays hl flows (hA (Or.inr rfl))
  exact complete.read_written enter path code read temporary

/-- A loop over the elements of a list that stops at the first one. -/
def brokenEach : Node :=
  .mk {} (.program [.mk {} (.forIn (.mk { binding := some ⟨"x", .localVar⟩ } (.varTarget "x"))
    (.mk { binding := some ⟨"xs", .localVar⟩ } (.varRef "xs")) [.mk {} (.breakWith [])])])

lemma namesNoTemporary_brokenEach : brokenEach.NamesNoTemporary := by
  simp [Node.NamesNoTemporary, brokenEach, Node.each_mk, Kind.children, Kind.fields, Kind.inRole,
    Info.bindings, Node.info]

lemma kind_of_builtinTypes {name : String} {b : Binding} (h : builtinTypes name = some b) :
    b.kind ≠ .temporary := by
  unfold builtinTypes at h
  split at h
  · cases h
    exact nofun
  · cases h

/-- The value of the loop is read where the `break` in its body leads, and has been written before the
body. -/
theorem temporaries_written_brokenEach : ∃ g, build .generous builtinTypes {} brokenEach = .ok g ∧
    brokenEach.NamesNoTemporary ∧ g.Path [.enter, .numbered 2] (.numbered 1) ∧
      g.code (.numbered 1) = [] ++ .ret (.temporary 1) :: [.jump .exit] ∧
      ∃ j ∈ g.code .enter ++ g.code (.numbered 2), j.dest? = some (.temporary 1) := by
  obtain ⟨g, h, enters, leaves, code⟩ : ∃ g, build .generous builtinTypes {} brokenEach = .ok g ∧
      ⟨.enter, .numbered 2⟩ ∈ g.edges ∧ ⟨.numbered 2, .numbered 1⟩ ∈ g.edges ∧
      g.code (.numbered 1) = [] ++ .ret (.temporary 1) :: [.jump .exit] :=
    exists_of_build (by decide +kernel)
  have names := namesNoTemporary_brokenEach
  have path : g.Path [.enter, .numbered 2] (.numbered 1) := (Graph.Path.start.step enters).step leaves
  refine ⟨g, h, names, path, code, ?_⟩
  simpa using temporaries_written h names (fun _ _ => kind_of_builtinTypes) path code
    (v := .temporary 1) (.head _) rfl

end Lowering

end ControlFlow
