import Mathlib.Logic.Function.Basic
import ControlFlow.Proofs.Graph.Violations
/-!
# Tables of a graph

What is asked of a graph can be kept in tables: where each block is listed, and which blocks the edges
at a block lead to and come from. The tables are written while blocks and edges are added, and are
never read off the graph. Whatever is added, in whatever order and however often, the graph holds what
was added, and the tables tell what the graph holds.
-/

namespace ControlFlow.Graph

/-- Tables of the blocks of a graph and of the edges at each block. -/
structure Tables where
  /-- The number of blocks. -/
  size : Nat
  place : BlockName → Option Nat
  next : BlockName → List BlockName
  previous : BlockName → List BlockName

namespace Tables

/-- The tables with one more block, listed last, unless its name is listed. -/
def addBlock (t : Tables) (name : BlockName) : Tables :=
  if (t.place name).isSome then t
  else { t with size := t.size + 1, place := Function.update t.place name (some t.size) }

/-- The tables with one more edge, at both of its blocks. -/
def addEdge (t : Tables) (source target : BlockName) : Tables :=
  { t with
    next := Function.update t.next source (t.next source ++ [target])
    previous := Function.update t.previous target (t.previous target ++ [source]) }

/-- The tables behind one change. -/
def edit (t : Tables) : Edit → Tables
  | .block name => t.addBlock name
  | .edge source target => t.addEdge source target
  | .instruction _ _ => t

/-- The tables of the entry and the exit alone. -/
def empty : Tables :=
  ((⟨0, fun _ => none, fun _ => [], fun _ => []⟩ : Tables).addBlock .enter).addBlock .exit

/-- The tables that changes write, one after the other. -/
def ofEdits (edits : List Edit) : Tables := edits.foldl edit empty

/-- The tables tell what the graph holds. -/
structure Tells (t : Tables) (g : Graph) : Prop where
  size : t.size = g.names.length
  place : ∀ n k, t.place n = some k ↔ g.names[k]? = some n
  next : ∀ n, t.next n = g.successors n
  previous : ∀ n, t.previous n = g.predecessors n

namespace Tells

variable {t : Tables} {g : Graph} {n : BlockName}

variable (h : t.Tells g)

include h

lemma isSome_place : (t.place n).isSome ↔ n ∈ g.names := by
  simp [Option.isSome_iff_exists, h.place, List.mem_iff_getElem?]

lemma addBlock (name : BlockName) : (t.addBlock name).Tells (g.addBlock name) := by
  unfold Tables.addBlock
  split
  · rename_i known
    rwa [addBlock_of_mem g (h.isSome_place.1 known)]
  · rename_i new
    rw [h.isSome_place] at new
    refine ⟨by simp [names_addBlock, new, h.size], fun n k => ?_, fun n => ?_, fun n => ?_⟩
    · have known := h.place n k
      have size := h.size
      simp only [names_addBlock, if_neg new, List.getElem?_append, Function.update_apply]
      grind
    · simpa using h.next n
    · simpa [predecessors] using h.previous n

lemma addEdge (source target : BlockName) :
    (t.addEdge source target).Tells (g.addEdge source target) where
  size := h.size
  place := h.place
  next n := by
    by_cases hn : source = n
    · simp [Tables.addEdge, successors, Graph.addEdge, h.next, hn]
    · simp [Tables.addEdge, successors, Graph.addEdge, h.next, hn, Ne.symm hn]
  previous n := by
    by_cases hn : target = n
    · simp [Tables.addEdge, predecessors, Graph.addEdge, h.previous, hn]
    · simp [Tables.addEdge, predecessors, Graph.addEdge, h.previous, hn, Ne.symm hn]

lemma edit (e : Edit) : (t.edit e).Tells (g.edit e) := by
  cases e with
  | block name => exact h.addBlock name
  | edge source target => exact h.addEdge source target
  | instruction name i =>
    have same : (g.edit (.instruction name i)).names = g.names := g.names_push name i
    exact ⟨same ▸ h.size, same ▸ h.place, h.next, h.previous⟩

/-- The block at the place of a name is the one that a search for the name finds. -/
lemma block?_eq (nodup : g.names.Nodup) : g.block? n = (t.place n).bind (g.blocks[·]?) := by
  cases hp : t.place n with
  | none =>
    have none : n ∉ g.names := fun known => by simpa [hp] using h.isSome_place.2 known
    rw [mem_names_iff_block?, Option.not_isSome_iff_eq_none] at none
    exact none
  | some k =>
    have listed := (h.place n k).1 hp
    obtain ⟨b, hb, rfl⟩ := Option.map_eq_some_iff.1 (List.getElem?_map.symm.trans listed)
    rw [block?_of_mem nodup (List.mem_of_getElem? hb), Option.bind_some, hb]

end Tells

lemma tells_ofEdits (edits : List Edit) : (ofEdits edits).Tells (Graph.ofEdits edits) := by
  induction edits using List.reverseRecOn with
  | nil =>
    have nothing : Tells ⟨0, fun _ => none, fun _ => [], fun _ => []⟩ ⟨[], []⟩ :=
      ⟨rfl, fun n k => by simp [names], fun n => rfl, fun n => rfl⟩
    exact (nothing.addBlock .enter).addBlock .exit
  | append_singleton edits e ih =>
    rw [ofEdits_concat, ofEdits, List.foldl_concat]
    exact ih.edit e

end Tables

lemma count_predecessors {g : Graph} (n t : BlockName) :
    (g.predecessors t).count n = g.edges.count ⟨n, t⟩ := by
  rw [predecessors, List.count_eq_countP, List.countP_map, List.countP_filter, List.count_eq_countP]
  refine List.countP_congr fun e _ => ?_
  obtain ⟨source, target⟩ := e
  simp

/-- The graph holds what was added, and the tables tell where. -/
structure Records (edits : List Edit) (g : Graph) (t : Tables) : Prop where
  names : g.names = (.enter :: .exit :: edits.filterMap Edit.block?).eraseDups
  nodup : g.names.Nodup
  contains : ∀ n, g.contains n = true ↔ n = .enter ∨ n = .exit ∨ .block n ∈ edits
  found : ∀ n, (g.block? n).isSome = g.contains n
  block : ∀ n b, g.block? n = some b ↔ b ∈ g.blocks ∧ b.name = n
  edges : g.edges = edits.filterMap Edit.edge?
  successors : ∀ n, g.successors n =
    ((edits.filterMap Edit.edge?).filter (·.source = n)).map (·.target)
  predecessors : ∀ n, g.predecessors n =
    ((edits.filterMap Edit.edge?).filter (·.target = n)).map (·.source)
  count : ∀ n s, (g.successors n).count s = (g.predecessors s).count n
  tables : t.Tells g
  place : ∀ n, g.block? n = (t.place n).bind (g.blocks[·]?)

/-- **Blocks and edges are kept as they were added.** Whatever is added to the entry and the exit, the
blocks have different names and stand in the order in which they were first added; a block is found
exactly under its own name, and exactly if it was added. The blocks behind and in front of a block
are those of the edges that were added at it, in that order and as often, so that each edge counts
the same from both of its ends. The tables that are written along the way tell the same. -/
theorem records_ofEdits (edits : List Edit) :
    Records edits (ofEdits edits) (Tables.ofEdits edits) := by
  have nodup := nodup_names_ofEdits edits
  have tells := Tables.tells_ofEdits edits
  refine ⟨names_ofEdits edits, nodup, fun n => ?_, fun n => ?_, fun n b => ⟨name_of_block?, ?_⟩,
    edges_ofEdits edits, fun n => ?_, fun n => ?_, fun n s => ?_, tells,
    fun n => tells.block?_eq nodup⟩
  · have added : n ∈ edits.filterMap Edit.block? ↔ .block n ∈ edits := by
      rw [List.mem_filterMap]
      constructor
      · rintro ⟨_ | _ | _, mem, ⟨⟩⟩
        exact mem
      · exact fun h => ⟨_, h, rfl⟩
    rw [contains_iff, names_ofEdits, List.mem_eraseDups, List.mem_append, added]
    simp [empty, names, or_assoc]
  · rw [Bool.eq_iff_iff, ← mem_names_iff_block?, contains_iff]
  · rintro ⟨mem, rfl⟩
    exact block?_of_mem nodup mem
  · rw [successors, edges_ofEdits]
  · rw [predecessors, edges_ofEdits]
  · rw [count_successors, count_predecessors]

end ControlFlow.Graph
