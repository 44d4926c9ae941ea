import Mathlib.Data.List.Nodup
import Mathlib.Data.List.Perm.Subperm
import Mathlib.Logic.Relation
import ControlFlow.Graph.Reachable
import ControlFlow.Proofs.Graph.View
/-!
# The search for reachable blocks

The breadth-first search from the entry finds exactly the blocks that a path of edges leads to. What
it has seen so far is listed once, is reachable, and holds all successors of what it has visited; it
takes no more rounds than there are edges, since every block but the entry is the target of one.
-/

namespace ControlFlow.Graph

variable {g : Graph} {n t : BlockName} {ns seen visited queue found : List BlockName}
  {fuel : Nat}

/-- An edge leads from one block to another. -/
def Joins (g : Graph) (n t : BlockName) : Prop := ⟨n, t⟩ ∈ g.edges

/-- A path of edges leads from one block to another. -/
def Reaches (g : Graph) : BlockName → BlockName → Prop := Relation.ReflTransGen g.Joins

/-! ## New names -/

lemma mem_fresh : n ∈ fresh seen ns ↔ n ∈ ns ∧ n ∉ seen := by
  fun_induction fresh seen ns with
  | case1 => simp
  | case2 seen m ns h ih =>
    rw [ih]
    grind
  | case3 seen m ns h ih =>
    rw [List.mem_cons, ih]
    grind

lemma nodup_fresh : (fresh seen ns).Nodup := by
  fun_induction fresh seen ns with
  | case1 => simp
  | case2 seen m ns h ih => exact ih
  | case3 seen m ns h ih => exact List.nodup_cons.2 ⟨fun hm => (mem_fresh.1 hm).2 (.head _), ih⟩

/-! ## The search without a bound -/

/-- The search ends with the blocks found, however many rounds it takes. -/
inductive Finds (g : Graph) : List BlockName → List BlockName → List BlockName → Prop
  | done {visited : List BlockName} : Finds g visited [] visited
  | take {visited queue found : List BlockName} {n : BlockName} :
    Finds g (visited ++ [n]) (queue ++ fresh (visited ++ n :: queue) (g.successors n)) found →
      Finds g visited (n :: queue) found

/-! ## The invariant of the search -/

/-- What holds of the blocks that are visited and those that are queued. -/
structure Search (g : Graph) (visited queue : List BlockName) : Prop where
  nodup : (visited ++ queue).Nodup
  start : .enter ∈ visited ++ queue
  reached : ∀ n ∈ visited ++ queue, g.Reaches .enter n
  closed : ∀ n ∈ visited, ∀ t, g.Joins n t → t ∈ visited ++ queue

namespace Search

lemma enter : Search g [] [.enter] := by
  refine ⟨by simp, by simp, fun n hn => ?_, by simp⟩
  obtain rfl : n = .enter := by simpa using hn
  exact .refl

lemma step (h : Search g visited (n :: queue)) :
    Search g (visited ++ [n]) (queue ++ fresh (visited ++ n :: queue) (g.successors n)) := by
  have seen : visited ++ [n] ++ (queue ++ fresh (visited ++ n :: queue) (g.successors n)) =
      (visited ++ n :: queue) ++ fresh (visited ++ n :: queue) (g.successors n) := by simp
  constructor
  · rw [seen]
    exact List.Nodup.append h.nodup nodup_fresh fun m hm hf => (mem_fresh.1 hf).2 hm
  · rw [seen]
    exact List.mem_append_left _ h.start
  · rw [seen]
    intro m hm
    rcases List.mem_append.1 hm with hm | hm
    · exact h.reached m hm
    · exact (h.reached n (by simp)).tail (g.mem_successors.1 (mem_fresh.1 hm).1)
  · intro m hm t ht
    rw [seen, List.mem_append]
    rcases List.mem_append.1 hm with hm | hm
    · exact Or.inl (h.closed m hm t ht)
    · obtain rfl := List.mem_singleton.1 hm
      by_cases known : t ∈ visited ++ m :: queue
      · exact Or.inl known
      · exact Or.inr (mem_fresh.2 ⟨g.mem_successors.2 ht, known⟩)

/-- At most one block more is seen than there are edges. -/
lemma length_le (h : Search g visited queue) :
    visited.length + queue.length ≤ g.edges.length + 1 := by
  have targets : visited ++ queue ⊆ .enter :: g.edges.map (·.target) := by
    intro n hn
    rcases (h.reached n hn).cases_tail with hn | ⟨m, -, hm⟩
    · exact hn ▸ .head _
    · exact .tail _ (List.mem_map.2 ⟨_, hm, rfl⟩)
  have := (List.subperm_of_subset h.nodup targets).length_le
  simpa using this

/-- With enough fuel the search is not cut short. -/
lemma finds (h : Search g visited queue) (hf : g.edges.length + 1 ≤ fuel + visited.length) :
    g.Finds visited queue (g.visit fuel visited queue) := by
  induction fuel generalizing visited queue with
  | zero =>
    have := h.length_le
    obtain rfl : queue = [] := List.eq_nil_of_length_eq_zero (by omega)
    exact .done
  | succ fuel ih =>
    cases queue with
    | nil => exact .done
    | cons n queue => exact .take (ih h.step (by simp; omega))

/-- The invariant holds until the search ends. -/
lemma ended (h : Search g visited queue) (hf : g.Finds visited queue found) : Search g found [] := by
  induction hf with
  | done => exact h
  | take _ ih => exact ih h.step

end Search

lemma finds_reachable (g : Graph) : g.Finds [] [.enter] g.reachable :=
  Search.enter.finds (by simp)

/-- **The search finds exactly the blocks that a path of edges leads to from the entry.** -/
theorem mem_reachable : n ∈ g.reachable ↔ g.Reaches .enter n := by
  have h : Search g g.reachable [] := Search.enter.ended g.finds_reachable
  refine ⟨fun hn => h.reached n (by simpa using hn), fun hn => ?_⟩
  induction hn with
  | refl => simpa using h.start
  | tail _ ht ih => simpa using h.closed _ ih _ ht

end ControlFlow.Graph
