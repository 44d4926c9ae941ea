import Mathlib.Data.List.Induction
import ControlFlow.Graph.Violation
import ControlFlow.Proofs.Graph.Growth
import ControlFlow.Proofs.Graph.Machine
import ControlFlow.Proofs.Graph.Search
/-!
# Proper graphs

A graph is proper if every block but the exit ends in its only terminator and leads exactly to the
targets of that terminator, no edge enters the entry, and the exit is empty and leads nowhere. Such a
graph breaks no rule, except that its exit may be out of reach.
-/

namespace ControlFlow

/-! ## Tallies -/

namespace Tally

variable {t : Tally} {n m : BlockName} {xs ys : List BlockName}

lemma lookup_cons (e : BlockName × Nat) (t : Tally) (n : BlockName) :
    List.lookup n (e :: t) = if n = e.1 then some e.2 else List.lookup n t := by
  rw [List.lookup_cons]
  by_cases h : n = e.1
  · simp [h]
  · simp [h, beq_eq_false_iff_ne.2 h]

lemma lookup_add (t : Tally) (n m : BlockName) : (t.add m).lookup n =
    if n = m then some ((t.lookup n).getD 0 + 1) else t.lookup n := by
  induction t with
  | nil => simp [add, lookup_cons]
  | cons e t ih =>
    obtain ⟨k, c⟩ := e
    by_cases hk : k = m
    · subst hk
      by_cases hn : n = k <;> simp [add, lookup_cons, hn]
    · rw [add, if_neg hk, lookup_cons, lookup_cons, ih]
      by_cases hn : n = k
      · simp [hn, hk]
      · simp [hn]

/-- An entry is added only for a name that has none. -/
lemma keys_add (t : Tally) (m : BlockName) : (t.add m).map (·.1) =
    if m ∈ t.map (·.1) then t.map (·.1) else t.map (·.1) ++ [m] := by
  induction t with
  | nil => rfl
  | cons e t ih =>
    obtain ⟨k, c⟩ := e
    by_cases hk : k = m
    · simp [add, hk]
    · simp only [add, if_neg hk, List.map_cons, ih, List.mem_cons, Ne.symm hk, false_or]
      split <;> rfl

lemma ofNames_append (xs : List BlockName) (m : BlockName) :
    ofNames (xs ++ [m]) = (ofNames xs).add m := by
  simp [ofNames]

lemma nodup_keys (xs : List BlockName) : ((ofNames xs).map (·.1)).Nodup := by
  induction xs using List.reverseRecOn with
  | nil => exact List.nodup_nil
  | append_singleton xs m ih =>
    rw [ofNames_append, keys_add]
    split
    · exact ih
    · rw [← List.concat_eq_append]
      exact ih.concat ‹_›

lemma mem_iff_lookup {k : Nat} (h : (t.map (·.1)).Nodup) : (n, k) ∈ t ↔ t.lookup n = some k := by
  induction t with
  | nil => simp
  | cons e t ih =>
    obtain ⟨fresh, rest⟩ := List.nodup_cons.1 h
    rw [List.mem_cons, lookup_cons, ih rest]
    split
    · rename_i same
      have absent : t.lookup n ≠ some k := fun found =>
        fresh (List.mem_map.2 ⟨(n, k), (ih rest).2 found, same⟩)
      rw [or_iff_left absent, Prod.ext_iff, and_iff_right same, Option.some_inj, eq_comm]
    · simp [Prod.ext_iff, *]

/-- A tally tells how often each name occurs, and has no entries for others. -/
lemma mem_ofNames {k : Nat} : (n, k) ∈ ofNames xs ↔ n ∈ xs ∧ xs.count n = k := by
  have found : (ofNames xs).lookup n = if n ∈ xs then some (xs.count n) else none := by
    induction xs using List.reverseRecOn with
    | nil => rfl
    | append_singleton xs m ih =>
      rw [ofNames_append, lookup_add, ih]
      by_cases hm : n = m <;> by_cases hn : n ∈ xs <;> simp_all [List.count_eq_zero_of_not_mem]
  rw [mem_iff_lookup (nodup_keys xs), found]
  simp

/-- Equal counts are equal multisets. -/
lemma agrees_ofNames : (ofNames xs).agrees (ofNames ys) = true ↔ xs.Perm ys := by
  have nodup : ∀ zs, (ofNames zs).Nodup := fun zs => .of_map _ (nodup_keys zs)
  have entries : (ofNames xs).agrees (ofNames ys) = true ↔
      (ofNames xs).length = (ofNames ys).length ∧ ofNames xs ⊆ ofNames ys := by
    simp [agrees, List.subset_def, mem_iff_lookup (nodup_keys ys)]
  rw [entries, List.perm_iff_count]
  constructor
  · rintro ⟨length, sub⟩ n
    have same : ∀ k, (n ∈ xs ∧ xs.count n = k) ↔ n ∈ ys ∧ ys.count n = k := fun k => by
      rw [← mem_ofNames, ← mem_ofNames]
      exact ((List.subperm_of_subset (nodup xs) sub).perm_of_length_le length.ge).mem_iff
    by_cases hn : n ∈ xs
    · exact ((same _).1 ⟨hn, rfl⟩).2.symm
    · have absent : n ∉ ys := fun h => hn ((same _).2 ⟨h, rfl⟩).1
      rw [List.count_eq_zero_of_not_mem hn, List.count_eq_zero_of_not_mem absent]
  · intro count
    have perm : (ofNames xs).Perm (ofNames ys) := by
      refine (List.perm_ext_iff_of_nodup (nodup xs) (nodup ys)).2 fun ⟨n, k⟩ => ?_
      rw [mem_ofNames, mem_ofNames, (List.perm_iff_count.2 count).mem_iff, count n]
    exact ⟨perm.length_eq, perm.subset⟩

end Tally

/-- A block ends in its only terminator. -/
def Block.EndsIn (b : Block) (last : Instruction) : Prop :=
  last.isTerminator = true ∧
    ∃ body, b.instructions = body ++ [last] ∧ ∀ i ∈ body, i.isTerminator = false

namespace Graph

/-- What holds of the blocks and edges of a finished graph. -/
structure Proper (g : Graph) : Prop where
  nodup : g.names.Nodup
  enter : .enter ∈ g.names
  exit : .exit ∈ g.names
  blocks : ∀ b ∈ g.blocks, b.name ≠ .exit →
    ∃ last, b.EndsIn last ∧ g.successors b.name = last.targets ∧ ∀ t ∈ last.targets, t ∈ g.names
  exit_empty : ∀ b ∈ g.blocks, b.name = .exit → b.instructions = []
  exit_leads : g.successors .exit = []
  enter_leads : g.predecessors .enter = []

variable {g : Graph} {b : Block}

lemma block?_of_mem (nodup : g.names.Nodup) (hb : b ∈ g.blocks) : g.block? b.name = some b := by
  obtain ⟨b', found⟩ := Option.isSome_iff_exists.1
    ((g.mem_names_iff_block?).1 (List.mem_map.2 ⟨b, hb, rfl⟩))
  have name : b'.name = b.name := by simpa using List.find?_some found
  rw [found, List.inj_on_of_nodup_map nodup (List.mem_of_find?_eq_some found) hb name]

lemma code_of_mem (nodup : g.names.Nodup) (hb : b ∈ g.blocks) : g.code b.name = b.instructions := by
  simp [code, block?_of_mem nodup hb]

lemma Block.terminator?_eq {last : Instruction} (h : b.EndsIn last) :
    b.terminator? = some last := by
  obtain ⟨ends, body, hi, -⟩ := h
  simp [Block.terminator?, hi, ends]

/-- The only terminator of a block is not misplaced. -/
lemma misplaced_eq_nil {last : Instruction} (h : b.EndsIn last) : misplaced b = [] := by
  obtain ⟨-, body, hi, plain⟩ := h
  refine List.filterMap_eq_nil_iff.2 ?_
  rintro ⟨i, index⟩ hm
  refine if_neg fun ⟨ends, hne⟩ => ?_
  have found := List.mk_mem_zipIdx_iff_getElem?.1 hm
  rw [hi] at found hne
  have inside : index < body.length := by
    have := (List.getElem?_eq_some_iff.1 found).1
    simp only [List.length_append, List.length_singleton] at this hne
    omega
  rw [List.getElem?_append_left inside] at found
  rw [plain i (List.mem_of_getElem? found)] at ends
  cases ends

namespace Proper

variable (h : g.Proper)

include h

lemma blockViolations_eq_nil (hb : b ∈ g.blocks) (hn : b.name ≠ .exit) :
    g.blockViolations b = [] := by
  obtain ⟨last, ends, hs, hk⟩ := h.blocks b hb hn
  have known : last.targets.filter (!g.contains ·) = [] := by
    simpa [g.contains_iff] using hk
  have same := Tally.agrees_ofNames.2 (.refl last.targets)
  simp [blockViolations, misplaced_eq_nil ends, Block.terminator?_eq ends, known, hs, same]

/-- A proper graph breaks no rule, except that its exit may be out of reach. -/
lemma verify_eq : g.verify = if BlockName.exit ∈ g.reachable then [] else [.exitUnreachable] := by
  have blocks : (g.blocks.flatMap fun b =>
      if b.name = .exit then g.exitViolations else g.blockViolations b) = [] := by
    refine List.flatMap_eq_nil_iff.2 fun b hb => ?_
    split
    · simp [exitViolations, h.exit_leads]
    · exact h.blockViolations_eq_nil hb ‹_›
  simp [verify, blocks, h.enter_leads]

/-- A terminator leads along edges. -/
lemma joins {p : Point} {i : Instruction} {t : BlockName} (hi : g.instruction? p = some i)
    (ht : t ∈ i.targets) : g.Joins p.block t := by
  have hm : i ∈ g.code p.block := List.mem_of_getElem? hi
  have named : p.block ∈ g.names := by
    by_contra hn
    simp [g.code_eq_nil hn] at hm
  obtain ⟨b, hb, name⟩ := List.mem_map.1 named
  rw [← name, code_of_mem h.nodup hb] at hm
  have hne : b.name ≠ .exit := fun he => by simp [h.exit_empty b hb he] at hm
  obtain ⟨last, ⟨-, body, hi, plain⟩, hs, -⟩ := h.blocks b hb hne
  rw [hi, List.mem_append, List.mem_singleton] at hm
  rcases hm with hm | rfl
  · simp [Instruction.targets_eq_nil (plain i hm)] at ht
  · exact name ▸ g.mem_successors.1 (hs ▸ ht)

/-- Runs follow edges. -/
lemma reaches {σ : Type} {M : Machine σ} {k : Nat} {C C' : Point × σ} (r : g.Run M k C C') :
    g.Reaches C.1.block C'.1.block := by
  induction r with
  | refl => exact .refl
  | head first _ ih =>
    cases first with
    | act hi _ => exact ih
    | jump hi => exact .head (h.joins hi (.head _)) ih
    | @branch p s c ifTrue ifFalse way hi _ =>
      refine .head (h.joins hi ?_) ih
      cases way
      · exact .tail _ (.head _)
      · exact .head _

end Proper

end Graph

end ControlFlow
