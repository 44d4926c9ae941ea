import Mathlib.Data.List.Induction
import Mathlib.Data.List.Nodup
import ControlFlow.Proofs.Graph.View
/-!
# Graphs made by edits

A graph is made from the entry and the exit alone by adding blocks, edges and instructions in any
order, with edges between blocks that do not exist and edges that are there already. Whatever is
added, the graph has the blocks and the edges that were added, in that order, and no two blocks of the
same name.
-/

namespace ControlFlow.Graph

/-- One change to a graph. -/
inductive Edit where
  | block (name : BlockName)
  | edge (source target : BlockName)
  /-- One more instruction at the end of a block. -/
  | instruction (name : BlockName) (i : Instruction)
deriving DecidableEq, Repr, Inhabited

/-- The block that an edit adds. -/
def Edit.block? : Edit → Option BlockName
  | .block name => some name
  | _ => none

/-- The edge that an edit adds. -/
def Edit.edge? : Edit → Option Edge
  | .edge source target => some ⟨source, target⟩
  | _ => none

/-- The graph behind one change. -/
def edit (g : Graph) : Edit → Graph
  | .block name => g.addBlock name
  | .edge source target => g.addEdge source target
  | .instruction name i => g.push name i

/-- The graph that changes make, one after the other, from the entry and the exit alone. -/
def ofEdits (edits : List Edit) : Graph := edits.foldl edit .empty

lemma ofEdits_concat (edits : List Edit) (e : Edit) :
    ofEdits (edits ++ [e]) = (ofEdits edits).edit e :=
  List.foldl_concat ..

/-! ## Names -/

lemma nodup_names_ofEdits (edits : List Edit) : (ofEdits edits).names.Nodup := by
  induction edits using List.reverseRecOn with
  | nil => decide
  | append_singleton edits e ih =>
    rw [ofEdits_concat]
    cases e with
    | block name => exact nodup_names_addBlock _ ih
    | edge source target => exact ih
    | instruction name i => rwa [edit, names_push]

/-- The names are those of the entry, of the exit and of the blocks that were added, each where it
comes first. -/
lemma names_ofEdits (edits : List Edit) :
    (ofEdits edits).names = (empty.names ++ edits.filterMap Edit.block?).eraseDups := by
  induction edits using List.reverseRecOn with
  | nil => decide
  | append_singleton edits e ih =>
    rw [ofEdits_concat, List.filterMap_append, ← List.append_assoc]
    generalize empty.names ++ edits.filterMap Edit.block? = added at ih
    have same : added.eraseDups = (added ++ []).eraseDups := by rw [List.append_nil]
    cases e with
    | block name =>
      change _ = (added ++ [name]).eraseDups
      rw [edit, names_addBlock, ih, List.eraseDups_append]
      by_cases known : name ∈ added <;> simp [List.removeAll, known, List.eraseDups_cons]
    | edge source target => exact ih.trans same
    | instruction name i => exact (names_push ..).trans (ih.trans same)

/-- The entry and the exit stay. -/
lemma mem_names_ofEdits (edits : List Edit) {name : BlockName} (h : name ∈ empty.names) :
    name ∈ (ofEdits edits).names := by
  rw [names_ofEdits, List.mem_eraseDups]
  exact List.mem_append_left _ h

lemma edges_ofEdits (edits : List Edit) : (ofEdits edits).edges = edits.filterMap Edit.edge? := by
  induction edits using List.reverseRecOn with
  | nil => rfl
  | append_singleton edits e ih =>
    rw [ofEdits_concat, List.filterMap_append, ← ih]
    cases e <;> simp [edit, addEdge, Edit.edge?]

end ControlFlow.Graph
