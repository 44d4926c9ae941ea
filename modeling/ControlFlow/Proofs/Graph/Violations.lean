import ControlFlow.Proofs.Graph.Edits
import ControlFlow.Proofs.Graph.Proper
/-!
# What verification finds

The rules of graphs, said of the blocks and edges themselves, and what each violation says about a
graph. Verification lists exactly the violations that are true of a graph, and so it lists none if
and only if the graph keeps the rules.
-/

namespace ControlFlow

/-- Where the last instruction of a block leads. -/
def Block.ends (b : Block) : List BlockName := (b.instructions.getLast?.map (·.targets)).getD []

/-- What a violation says about a graph. -/
def Violation.Holds (g : Graph) : Violation → Prop
  | .missingTerminator n =>
    ∃ b, g.block? n = some b ∧ n ≠ .exit ∧
      ∀ last, b.instructions.getLast? = some last → last.isTerminator = false
  | .misplacedTerminator n index =>
    ∃ b, g.block? n = some b ∧ n ≠ .exit ∧
      ∃ i, b.instructions[index]? = some i ∧ i.isTerminator = true ∧
        index + 1 < b.instructions.length
  | .edgeMismatch n expected actual =>
    ∃ b, g.block? n = some b ∧ n ≠ .exit ∧ expected = b.ends ∧
      actual = (g.edges.filter (·.source = n)).map (·.target) ∧
        ∃ t, expected.count t ≠ actual.count t
  | .unknownTarget n t =>
    ∃ b, g.block? n = some b ∧ n ≠ .exit ∧ t ∈ b.ends ∧ g.block? t = none
  | .enterHasPredecessors => ∃ e ∈ g.edges, e.target = .enter
  | .exitHasSuccessors => ∃ e ∈ g.edges, e.source = .exit
  | .exitUnreachable => ¬ g.Reaches .enter .exit

namespace Graph

/-- The rules of graphs: every block but the exit ends in its only terminator, its edges are the
targets of that terminator, each as often as it is one, and these are blocks of the graph; no edge
leaves the exit or enters the entry, and a path of edges leads from the entry to the exit. -/
structure KeepsRules (g : Graph) : Prop where
  blocks : ∀ b ∈ g.blocks, b.name ≠ .exit → ∃ last, b.EndsIn last ∧
    (∀ t, g.edges.count ⟨b.name, t⟩ = last.targets.count t) ∧
    ∀ t ∈ last.targets, ∃ b' ∈ g.blocks, b'.name = t
  exit : ∀ e ∈ g.edges, e.source ≠ .exit
  enter : ∀ e ∈ g.edges, e.target ≠ .enter
  path : g.Reaches .enter .exit

variable {g : Graph} {b : Block} {v : Violation}

/-! ## Blocks by their names -/

variable {n : BlockName} {last : Instruction}

lemma name_of_block? (h : g.block? n = some b) : b ∈ g.blocks ∧ b.name = n :=
  ⟨List.mem_of_find?_eq_some h, by simpa using List.find?_some h⟩

lemma block?_eq_none : g.block? n = none ↔ g.contains n = false := by
  rw [← Option.not_isSome_iff_eq_none, ← mem_names_iff_block?, ← contains_iff, Bool.not_eq_true]

lemma count_successors (n t : BlockName) : (g.successors n).count t = g.edges.count ⟨n, t⟩ := by
  rw [successors, List.count_eq_countP, List.countP_map, List.countP_filter, List.count_eq_countP]
  refine List.countP_congr fun e _ => ?_
  obtain ⟨source, target⟩ := e
  simp [and_comm]

/-! ## The violations of one block -/

/-- The targets of the terminator of a block are where its last instruction leads, since only
terminators lead anywhere. -/
lemma targets_terminator? : (b.terminator?.map (·.targets)).getD [] = b.ends := by
  rw [Block.terminator?, Block.ends]
  cases b.instructions.getLast? with
  | none => rfl
  | some last =>
    cases ends : last.isTerminator with
    | true => rw [Option.filter_some_pos (p := fun i : Instruction => i.isTerminator) ends]
    | false =>
      rw [Option.filter_some_neg (by simp [ends])]
      simp [Instruction.targets_eq_nil ends]

lemma terminator?_eq_none : b.terminator?.isNone = true ↔
    ∀ last, b.instructions.getLast? = some last → last.isTerminator = false := by
  rw [Block.terminator?, Option.isNone_iff_eq_none, Option.filter_eq_none_iff]
  simp

lemma mem_misplaced : v ∈ misplaced b ↔ ∃ index i, .misplacedTerminator b.name index = v ∧
    b.instructions[index]? = some i ∧ i.isTerminator = true ∧
      index + 1 < b.instructions.length := by
  simp only [misplaced, List.mem_filterMap, Prod.exists, List.mk_mem_zipIdx_iff_getElem?,
    Option.ite_none_right_eq_some, Option.some.injEq]
  constructor
  · rintro ⟨i, index, found, ⟨ends, before⟩, same⟩
    have inside := (List.getElem?_eq_some_iff.1 found).1
    exact ⟨index, i, same, found, ends, by omega⟩
  · rintro ⟨index, i, same, found, ends, before⟩
    exact ⟨i, index, found, ⟨ends, by omega⟩, same⟩

lemma mem_if_not {p : Prop} [Decidable p] {w : Violation} :
    (v ∈ if p then [] else [w]) ↔ w = v ∧ ¬ p := by
  split <;> simp_all [eq_comm]

/-- The violations of a block, sort by sort. -/
lemma mem_blockViolations : v ∈ g.blockViolations b ↔
    (∃ index i, .misplacedTerminator b.name index = v ∧ b.instructions[index]? = some i ∧
        i.isTerminator = true ∧ index + 1 < b.instructions.length) ∨
      (.missingTerminator b.name = v ∧
        ∀ last, b.instructions.getLast? = some last → last.isTerminator = false) ∨
      (∃ t, .unknownTarget b.name t = v ∧ t ∈ b.ends ∧ g.block? t = none) ∨
      (.edgeMismatch b.name b.ends (g.successors b.name) = v ∧
        ∃ t, b.ends.count t ≠ (g.successors b.name).count t) := by
  have differ : ¬ (Tally.ofNames b.ends).agrees (Tally.ofNames (g.successors b.name)) = true ↔
      ∃ t, b.ends.count t ≠ (g.successors b.name).count t := by
    rw [Tally.agrees_ofNames, List.perm_iff_count, not_forall]
  simp only [blockViolations, List.mem_append, or_assoc, mem_misplaced, targets_terminator?,
    mem_if_not, differ]
  refine or_congr_right (or_congr ?_ (or_congr_left ?_))
  · rw [← terminator?_eq_none]
    split
    · simp [*, eq_comm]
    · simp [*]
  · simp only [List.mem_map, List.mem_filter, block?_eq_none, Bool.not_eq_true']
    exact exists_congr fun t => and_comm

/-! ## All violations -/

/-- The violations of a graph, block by block and then as a whole. -/
lemma mem_verify_iff (exit : .exit ∈ g.names) : v ∈ g.verify ↔
    (∃ b ∈ g.blocks, b.name ≠ .exit ∧ v ∈ g.blockViolations b) ∨
      (.exitHasSuccessors = v ∧ ∃ e ∈ g.edges, e.source = .exit) ∨
      (.enterHasPredecessors = v ∧ ∃ e ∈ g.edges, e.target = .enter) ∨
      (.exitUnreachable = v ∧ ¬ g.Reaches .enter .exit) := by
  obtain ⟨x, hx, named⟩ := List.mem_map.1 exit
  -- the exit is a block, and no other block is looked at in its way
  have blockwise : (∃ b ∈ g.blocks, v ∈ if b.name = .exit then g.exitViolations
      else g.blockViolations b) ↔ (∃ b ∈ g.blocks, b.name ≠ .exit ∧ v ∈ g.blockViolations b) ∨
        v ∈ g.exitViolations := by
    constructor
    · rintro ⟨b, hb, hv⟩
      split at hv
      · exact Or.inr hv
      · exact Or.inl ⟨b, hb, ‹_›, hv⟩
    · rintro (⟨b, hb, other, hv⟩ | hv)
      · exact ⟨b, hb, by rwa [if_neg other]⟩
      · exact ⟨x, hx, by rwa [if_pos named]⟩
  have leaves : v ∈ g.exitViolations ↔
      .exitHasSuccessors = v ∧ ∃ e ∈ g.edges, e.source = .exit := by
    rw [exitViolations, mem_if_not]
    simp [successors]
  have enters : ¬ (g.predecessors .enter).isEmpty = true ↔ ∃ e ∈ g.edges, e.target = .enter := by
    simp [predecessors]
  simp only [verify, List.mem_append, List.mem_flatMap, blockwise, leaves, mem_if_not, enters,
    mem_reachable, or_assoc]

/-- Verification lists a violation if and only if it is true of the graph. -/
lemma mem_verify (nodup : g.names.Nodup) (exit : .exit ∈ g.names) : v ∈ g.verify ↔ v.Holds g := by
  have named (n : BlockName) (P : Block → Prop) :
      (∃ b, g.block? n = some b ∧ n ≠ .exit ∧ P b) ↔
        ∃ b ∈ g.blocks, b.name ≠ .exit ∧ b.name = n ∧ P b := by
    constructor
    · rintro ⟨b, found, other, hb⟩
      obtain ⟨mem, rfl⟩ := name_of_block? found
      exact ⟨b, mem, other, rfl, hb⟩
    · rintro ⟨b, mem, other, rfl, hb⟩
      exact ⟨b, block?_of_mem nodup mem, other, hb⟩
  rw [mem_verify_iff exit]
  cases v with
  | missingTerminator n => simp [Violation.Holds, named, mem_blockViolations]
  | misplacedTerminator n index => simp [Violation.Holds, named, mem_blockViolations, and_assoc]
  | edgeMismatch n expected actual =>
    have own (b : Block) : (Violation.edgeMismatch b.name b.ends (g.successors b.name) =
          .edgeMismatch n expected actual ∧
            ∃ t, b.ends.count t ≠ (g.successors b.name).count t) ↔
        b.name = n ∧ expected = b.ends ∧
          actual = (g.edges.filter (·.source = n)).map (·.target) ∧
            ∃ t, expected.count t ≠ actual.count t := by
      constructor
      · rintro ⟨⟨⟩, differ⟩
        exact ⟨rfl, rfl, rfl, differ⟩
      · rintro ⟨rfl, rfl, rfl, differ⟩
        exact ⟨rfl, differ⟩
    simp only [Violation.Holds, named, mem_blockViolations, own, reduceCtorEq, false_and,
      exists_false, or_false, false_or]
  | unknownTarget n t => simp [Violation.Holds, named, mem_blockViolations, and_assoc]
  | enterHasPredecessors => simp [Violation.Holds, mem_blockViolations]
  | exitHasSuccessors => simp [Violation.Holds, mem_blockViolations]
  | exitUnreachable => simp [Violation.Holds, mem_blockViolations]

/-! ## Rules and violations -/

/-- The last instruction of a block is its only terminator if it is one and none is misplaced. -/
lemma endsIn_iff : b.EndsIn last ↔
    b.instructions.getLast? = some last ∧ last.isTerminator = true ∧
      ∀ index i, b.instructions[index]? = some i → i.isTerminator = true →
        ¬ index + 1 < b.instructions.length := by
  constructor
  · rintro ⟨ends, body, code, plain⟩
    refine ⟨by simp [code], ends, fun index i found terminates before => ?_⟩
    rw [code, List.length_append, List.length_singleton] at before
    rw [code, List.getElem?_append_left (by omega)] at found
    rw [plain i (List.mem_of_getElem? found)] at terminates
    cases terminates
  · rintro ⟨found, ends, placed⟩
    obtain ⟨body, code⟩ := List.getLast?_eq_some_iff.1 found
    refine ⟨ends, body, code, fun i hi => ?_⟩
    obtain ⟨index, inside, rfl⟩ := List.getElem_of_mem hi
    rw [← Bool.not_eq_true]
    refine fun terminates => placed index body[index] ?_ terminates (by simp [code, inside])
    rw [code, List.getElem?_append_left inside, List.getElem?_eq_getElem inside]

lemma ends_of_endsIn (h : b.EndsIn last) : b.ends = last.targets := by
  rw [Block.ends, (endsIn_iff.1 h).1]
  rfl

lemma block?_ne_none : g.block? n ≠ none ↔ ∃ b ∈ g.blocks, b.name = n := by
  rw [← Option.isSome_iff_ne_none, ← mem_names_iff_block?]
  exact List.mem_map

/-- A graph keeps the rules if and only if no violation is true of it. -/
lemma keepsRules_iff (nodup : g.names.Nodup) : g.KeepsRules ↔ ∀ v : Violation, ¬ v.Holds g := by
  constructor
  · intro keeps v holds
    cases v with
    | missingTerminator n =>
      obtain ⟨b, found, other, plain⟩ := holds
      obtain ⟨hb, rfl⟩ := name_of_block? found
      obtain ⟨last, ends, -⟩ := keeps.blocks b hb other
      obtain ⟨found, terminates, -⟩ := endsIn_iff.1 ends
      rw [plain last found] at terminates
      cases terminates
    | misplacedTerminator n index =>
      obtain ⟨b, found, other, i, at_index, terminates, before⟩ := holds
      obtain ⟨hb, rfl⟩ := name_of_block? found
      obtain ⟨last, ends, -⟩ := keeps.blocks b hb other
      exact (endsIn_iff.1 ends).2.2 index i at_index terminates before
    | edgeMismatch n expected actual =>
      obtain ⟨b, found, other, rfl, rfl, t, differ⟩ := holds
      obtain ⟨hb, rfl⟩ := name_of_block? found
      obtain ⟨last, ends, same, -⟩ := keeps.blocks b hb other
      refine differ ?_
      rw [ends_of_endsIn ends, ← same t]
      exact (count_successors b.name t).symm
    | unknownTarget n t =>
      obtain ⟨b, found, other, target, unknown⟩ := holds
      obtain ⟨hb, rfl⟩ := name_of_block? found
      obtain ⟨last, ends, -, known⟩ := keeps.blocks b hb other
      rw [ends_of_endsIn ends] at target
      exact block?_ne_none.2 (known t target) unknown
    | enterHasPredecessors =>
      obtain ⟨e, he, target⟩ := holds
      exact keeps.enter e he target
    | exitHasSuccessors =>
      obtain ⟨e, he, source⟩ := holds
      exact keeps.exit e he source
    | exitUnreachable => exact holds keeps.path
  · intro clean
    refine ⟨fun b hb other => ?_, fun e he source => ?_, fun e he target => ?_, ?_⟩
    · have found := block?_of_mem nodup hb
      -- there is a terminator at the end, since none is missing
      obtain ⟨last, at_end, terminates⟩ : ∃ last, b.instructions.getLast? = some last ∧
          last.isTerminator = true := by
        by_contra no_last
        refine clean (.missingTerminator b.name) ⟨b, found, other, fun last at_end => ?_⟩
        rw [← Bool.not_eq_true]
        exact fun terminates => no_last ⟨last, at_end, terminates⟩
      have ends : b.EndsIn last := by
        refine endsIn_iff.2 ⟨at_end, terminates, fun index i at_index ends before => ?_⟩
        exact clean (.misplacedTerminator b.name index) ⟨b, found, other, i, at_index, ends, before⟩
      refine ⟨last, ends, fun t => ?_, fun t target => ?_⟩
      · by_contra differ
        refine clean (.edgeMismatch b.name b.ends (g.successors b.name))
          ⟨b, found, other, rfl, rfl, t, fun same => differ ?_⟩
        rw [← count_successors, ← same, ends_of_endsIn ends]
      · refine block?_ne_none.1 fun unknown => clean (.unknownTarget b.name t)
          ⟨b, found, other, ?_, unknown⟩
        rwa [ends_of_endsIn ends]
    · exact clean .exitHasSuccessors ⟨e, he, source⟩
    · exact clean .enterHasPredecessors ⟨e, he, target⟩
    · exact not_not.1 (clean .exitUnreachable)

/-- **Verification is sound and complete.** Of any graph that edits make it lists exactly the
violations that are true of the graph, and so it lists none if and only if the graph keeps the
rules. -/
theorem verify_exact (edits : List Edit) :
    ((ofEdits edits).verify = [] ↔ (ofEdits edits).KeepsRules) ∧
      ∀ v : Violation, v ∈ (ofEdits edits).verify ↔ v.Holds (ofEdits edits) := by
  have nodup := nodup_names_ofEdits edits
  have listed (v : Violation) : v ∈ (ofEdits edits).verify ↔ v.Holds (ofEdits edits) :=
    mem_verify nodup (mem_names_ofEdits edits (by decide))
  refine ⟨?_, listed⟩
  rw [keepsRules_iff nodup, List.eq_nil_iff_forall_not_mem]
  exact forall_congr' fun v => not_congr (listed v)

end Graph

end ControlFlow
