import Mathlib.Data.List.Basic
import Mathlib.Tactic.Common
import ControlFlow.Lowering.Builder
/-!
# Views of a graph

A graph is looked at through the names of its blocks, the instructions of each block, and its list of
edges. For each operation that a graph is built with it is said here what it does to these views.
-/

namespace ControlFlow.Graph

variable (g : Graph)

/-- The instructions of a block; none if there is no such block. -/
def code (name : BlockName) : List Instruction :=
  ((g.block? name).map (·.instructions)).getD []

variable {name n : BlockName} {targets : List BlockName}

lemma contains_iff : g.contains name = true ↔ name ∈ g.names := by
  simp [contains, names]

lemma mem_names_iff_block? : name ∈ g.names ↔ (g.block? name).isSome := by
  simp [names, block?, List.find?_isSome]

/-! ## Adding a block -/

/-- A block is added if and only if its name is not taken. -/
lemma addVertex_fst (name : BlockName) : (g.addVertex name).1 = true ↔ name ∉ g.names := by
  rw [← contains_iff]
  unfold addVertex
  split <;> simp [*]

lemma names_addBlock (name : BlockName) :
    (g.addBlock name).names = if name ∈ g.names then g.names else g.names ++ [name] := by
  unfold addBlock addVertex
  split
  · rename_i h
    rw [if_pos ((g.contains_iff).1 h)]
  · rename_i h
    rw [if_neg fun h' => h ((g.contains_iff).2 h')]
    simp [names]

@[simp] lemma mem_names_addBlock : n ∈ (g.addBlock name).names ↔ n ∈ g.names ∨ n = name := by
  rw [names_addBlock]
  split
  · rename_i h
    exact ⟨Or.inl, fun h' => h'.elim id fun e => e ▸ h⟩
  · simp

lemma addBlock_of_mem (h : name ∈ g.names) : g.addBlock name = g := by
  unfold addBlock addVertex
  rw [if_pos ((g.contains_iff).2 h)]

@[simp] lemma edges_addBlock (name : BlockName) : (g.addBlock name).edges = g.edges := by
  unfold addBlock addVertex
  split <;> rfl

@[simp] lemma code_addBlock (name n : BlockName) : (g.addBlock name).code n = g.code n := by
  unfold addBlock addVertex
  split
  · rfl
  · simp only [code, block?, List.find?_append]
    cases h : g.blocks.find? (·.name = n) with
    | some b => rfl
    | none =>
      simp only [Option.none_or, List.find?_cons, List.find?_nil]
      split <;> rfl

/-! ## Adding an instruction -/

@[simp] lemma names_push (name : BlockName) (i : Instruction) : (g.push name i).names = g.names := by
  simp only [names, push, List.map_map]
  refine List.map_congr_left fun b _ => ?_
  simp only [Function.comp_apply]
  split <;> rfl

@[simp] lemma edges_push (name : BlockName) (i : Instruction) :
    (g.push name i).edges = g.edges := rfl

lemma block?_push (name n : BlockName) (i : Instruction) : (g.push name i).block? n =
      (g.block? n).map fun b => if b.name = name then b.push i else b := by
  have same : (fun b : Block => decide (b.name = n)) ∘
      (fun b => if b.name = name then b.push i else b) = fun b => decide (b.name = n) := by
    funext b
    simp only [Function.comp_apply]
    split <;> rfl
  simp only [block?, push, List.find?_map, same]

lemma code_push (name n : BlockName) (i : Instruction) : (g.push name i).code n =
      if n = name ∧ name ∈ g.names then g.code n ++ [i] else g.code n := by
  simp only [code, block?_push, mem_names_iff_block?]
  cases h : g.block? n with
  | none =>
    rw [if_neg]
    · rfl
    · rintro ⟨rfl, h'⟩
      simp [h] at h'
  | some b =>
    have hn : b.name = n := by simpa using List.find?_some h
    by_cases hname : n = name
    · subst hname
      simp [h, hn, Block.push]
    · simp [hname, hn]

lemma code_push_self (h : name ∈ g.names) (i : Instruction) :
    (g.push name i).code name = g.code name ++ [i] := by
  rw [code_push, if_pos ⟨rfl, h⟩]

lemma code_push_of_ne (h : n ≠ name) (i : Instruction) : (g.push name i).code n = g.code n := by
  rw [code_push, if_neg fun h' => h h'.1]

/-! ## Connecting a block -/

@[simp] lemma mem_names_connect :
    n ∈ (Builder.connect name targets g).names ↔ n ∈ g.names ∨ n ∈ targets := by
  induction targets generalizing g with
  | nil => simp [Builder.connect]
  | cons t ts ih =>
    have : n ∈ (Builder.connect name ts ((g.addBlock t).addEdge name t)).names ↔ _ := ih _
    simpa [Builder.connect, addEdge, names, or_assoc] using
      this.trans (or_congr_left (g.mem_names_addBlock))

@[simp] lemma edges_connect (name : BlockName) (targets : List BlockName) :
    (Builder.connect name targets g).edges = g.edges ++ targets.map (⟨name, ·⟩) := by
  induction targets generalizing g with
  | nil => simp [Builder.connect]
  | cons t ts ih =>
    have := ih ((g.addBlock t).addEdge name t)
    simpa [Builder.connect, addEdge] using this

@[simp] lemma code_connect (name : BlockName) (targets : List BlockName) (n : BlockName) :
    (Builder.connect name targets g).code n = g.code n := by
  induction targets generalizing g with
  | nil => rfl
  | cons t ts ih => exact (ih ((g.addBlock t).addEdge name t)).trans (g.code_addBlock t n)

@[simp] lemma successors_addBlock (name n : BlockName) :
    (g.addBlock name).successors n = g.successors n := by
  simp [successors]

@[simp] lemma successors_push (name n : BlockName) (i : Instruction) :
    (g.push name i).successors n = g.successors n := rfl

lemma successors_connect (name : BlockName) (targets : List BlockName) (n : BlockName) :
    (Builder.connect name targets g).successors n =
      g.successors n ++ if n = name then targets else [] := by
  simp only [successors, edges_connect, List.filter_append, List.map_append]
  split
  · rename_i h
    simp [h, List.filter_map, Function.comp_def]
  · rename_i h
    simp [Ne.symm h]

lemma mem_successors {t : BlockName} : t ∈ g.successors n ↔ ⟨n, t⟩ ∈ g.edges := by
  simp only [successors, List.mem_map, List.mem_filter, decide_eq_true_eq]
  constructor
  · rintro ⟨⟨_, _⟩, ⟨h, rfl⟩, rfl⟩
    exact h
  · exact fun h => ⟨⟨n, t⟩, ⟨h, rfl⟩, rfl⟩

lemma code_eq_nil (h : n ∉ g.names) : g.code n = [] := by
  rw [mem_names_iff_block?] at h
  simp [code, Option.not_isSome_iff_eq_none.1 h]

/-! ## Blocks that are open or ended -/

/-- The block has no terminator and leads nowhere. -/
def Open (n : BlockName) : Prop :=
  (∀ i ∈ g.code n, i.isTerminator = false) ∧ g.successors n = []

/-- The block has a terminator at its end and nowhere else, and leads to its targets. -/
def Ended (n : BlockName) : Prop :=
  ∃ body last, g.code n = body ++ [last] ∧ (∀ i ∈ body, i.isTerminator = false) ∧
    last.isTerminator = true ∧ g.successors n = last.targets

lemma nodup_names_addBlock (h : g.names.Nodup) : (g.addBlock name).names.Nodup := by
  rw [names_addBlock]
  split
  · exact h
  · rename_i hn
    refine List.nodup_append.2 ⟨h, by simp, ?_⟩
    rintro a ha b hb rfl
    exact hn (List.mem_singleton.1 hb ▸ ha)

lemma nodup_names_connect (h : g.names.Nodup) : (Builder.connect name targets g).names.Nodup := by
  induction targets generalizing g with
  | nil => exact h
  | cons t ts ih => exact ih ((g.addBlock t).addEdge name t) (g.nodup_names_addBlock h)

end ControlFlow.Graph
