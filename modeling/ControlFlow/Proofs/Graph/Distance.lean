import Mathlib.Order.Lattice.Nat
import ControlFlow.Proofs.Graph.Edits
import ControlFlow.Proofs.Graph.Search
/-!
# Distances from the entry

The distance of a block is the number of edges on a shortest path from the entry to it. The search
lists blocks in the order of their distances: the blocks in the queue are at most one edge further
away than its first block, and all blocks that are not further away than that one are seen already.
-/

namespace ControlFlow.Graph

variable {g : Graph} {n t : BlockName} {k : Nat} {visited queue found : List BlockName}

/-- A path of `k` edges leads from the entry to a block. -/
inductive Trail (g : Graph) : Nat → BlockName → Prop
  | enter : Trail g 0 .enter
  | step {k : Nat} {n t : BlockName} : Trail g k n → g.Joins n t → Trail g (k + 1) t

/-- The number of edges on a shortest path from the entry to a block that can be reached. -/
noncomputable def distance (g : Graph) (n : BlockName) : Nat := sInf {k | g.Trail k n}

lemma reaches_iff_trail : g.Reaches .enter n ↔ ∃ k, g.Trail k n := by
  constructor
  · intro h
    induction h with
    | refl => exact ⟨0, .enter⟩
    | tail _ ht ih =>
      obtain ⟨k, hk⟩ := ih
      exact ⟨k + 1, hk.step ht⟩
  · rintro ⟨k, h⟩
    induction h with
    | enter => exact .refl
    | step _ ht ih => exact ih.tail ht

lemma trail_distance (h : g.Reaches .enter n) : g.Trail (g.distance n) n :=
  Nat.sInf_mem (reaches_iff_trail.1 h)

lemma Trail.distance_le (h : g.Trail k n) : g.distance n ≤ k := Nat.sInf_le h

lemma distance_le_succ (h : g.Reaches .enter n) (ht : g.Joins n t) :
    g.distance t ≤ g.distance n + 1 :=
  ((trail_distance h).step ht).distance_le

/-- A shortest path to a block other than the entry is a shortest path to the block before it. -/
lemma exists_nearer (h : g.Reaches .enter t) (ht : t ≠ .enter) :
    ∃ n, g.Reaches .enter n ∧ g.Joins n t ∧ g.distance n < g.distance t := by
  have trail := trail_distance h
  generalize hk : g.distance t = k at trail
  cases trail with
  | enter => exact absurd rfl ht
  | @step k n _ trail joins =>
    exact ⟨n, reaches_iff_trail.2 ⟨k, trail⟩, joins, Nat.lt_succ_of_le trail.distance_le⟩

/-! ## The order of the search -/

/-- What is visited stays in front. -/
lemma Finds.prefix_found (h : g.Finds visited queue found) : visited <+: found := by
  induction h with
  | done => exact List.prefix_rfl
  | take _ ih => exact (List.prefix_append _ _).trans ih

/-- What is seen is listed in the order of distances, and nothing is more than one edge further away
than what is queued. -/
structure Ordered (g : Graph) (visited queue : List BlockName) : Prop
    extends Search g visited queue where
  sorted : (visited ++ queue).Pairwise fun n t => g.distance n ≤ g.distance t
  near : ∀ n ∈ queue, ∀ t ∈ visited ++ queue, g.distance t ≤ g.distance n + 1

namespace Ordered

variable (h : Ordered g visited (n :: queue))

include h

lemma le_queue (ht : t ∈ n :: queue) : g.distance n ≤ g.distance t := by
  rcases List.mem_cons.1 ht with rfl | ht
  · exact le_rfl
  · exact (List.pairwise_cons.1 (List.pairwise_append.1 h.sorted).2.1).1 t ht

/-- All blocks that are no further away than the first of the queue are seen: the block before, on a
shortest path, is nearer, so it is visited. -/
lemma seen_of_le (ht : g.Reaches .enter t) (le : g.distance t ≤ g.distance n) :
    t ∈ visited ++ n :: queue := by
  induction hk : g.distance t using Nat.strong_induction_on generalizing t with
  | _ k ih =>
    by_cases start : t = .enter
    · exact start ▸ h.start
    · obtain ⟨p, hp, joins, nearer⟩ := exists_nearer ht start
      have seen : p ∈ visited ++ n :: queue := ih _ (hk ▸ nearer) hp (by omega) rfl
      rcases List.mem_append.1 seen with visited | queued
      · exact h.closed p visited t joins
      · have := h.le_queue queued
        omega

/-- What the search adds to the queue is one edge further away. -/
lemma distance_fresh (ht : t ∈ fresh (visited ++ n :: queue) (g.successors n)) :
    g.distance t = g.distance n + 1 := by
  obtain ⟨succ, unseen⟩ := mem_fresh.1 ht
  have hn : g.Reaches .enter n := h.reached n (by simp)
  have joins : g.Joins n t := g.mem_successors.1 succ
  have le : g.distance t ≤ g.distance n + 1 := distance_le_succ hn joins
  have gt : ¬ g.distance t ≤ g.distance n := fun le => unseen (h.seen_of_le (hn.tail joins) le)
  omega

lemma step :
    Ordered g (visited ++ [n]) (queue ++ fresh (visited ++ n :: queue) (g.successors n)) := by
  have seen : visited ++ [n] ++ (queue ++ fresh (visited ++ n :: queue) (g.successors n)) =
      (visited ++ n :: queue) ++ fresh (visited ++ n :: queue) (g.successors n) := by simp
  -- everything seen is at most one edge further away than `n`, and the new names are just that far
  have bound : ∀ t ∈ (visited ++ n :: queue) ++ fresh (visited ++ n :: queue) (g.successors n),
      g.distance t ≤ g.distance n + 1 := by
    intro t ht
    rcases List.mem_append.1 ht with ht | ht
    · exact h.near n (.head _) t ht
    · exact (h.distance_fresh ht).le
  refine ⟨h.toSearch.step, ?_, fun m hm t ht => ?_⟩
  · rw [seen, List.pairwise_append]
    refine ⟨h.sorted, ?_, fun m hm t ht => ?_⟩
    · exact List.pairwise_of_forall_mem_list fun m hm t ht => by
        rw [h.distance_fresh hm, h.distance_fresh ht]
    · rw [h.distance_fresh ht]
      exact h.near n (.head _) m hm
  · have le : g.distance n ≤ g.distance m := by
      rcases List.mem_append.1 hm with hm | hm
      · exact h.le_queue (.tail _ hm)
      · rw [h.distance_fresh hm]
        exact Nat.le_succ _
    have := bound t (seen ▸ ht)
    omega

omit h

/-- The order is kept until the search ends. -/
lemma finds (h : Ordered g visited queue) (hf : g.Finds visited queue found) :
    Ordered g found [] := by
  induction hf with
  | done => exact h
  | take _ ih => exact ih h.step

end Ordered

lemma ordered_reachable (g : Graph) : Ordered g g.reachable [] := by
  refine Ordered.finds ⟨Search.enter, by simp, fun n hn t ht => ?_⟩ g.finds_reachable
  obtain rfl : n = .enter := List.mem_singleton.1 hn
  obtain rfl : t = .enter := List.mem_singleton.1 ht
  exact Nat.le_succ _

lemma head?_reachable (g : Graph) : g.reachable.head? = some .enter := by
  cases g.finds_reachable with
  | take h =>
    obtain ⟨rest, hr⟩ := h.prefix_found
    rw [← hr]
    rfl

/-- The edges of a graph made by edits are those that were added. -/
lemma joins_ofEdits {edits : List Edit} : (ofEdits edits).Joins n t ↔ .edge n t ∈ edits := by
  rw [Joins, edges_ofEdits, List.mem_filterMap]
  constructor
  · rintro ⟨_ | ⟨source, target⟩ | _, mem, ⟨⟩⟩
    exact mem
  · exact fun h => ⟨_, h, rfl⟩

/-- **The search is breadth first.** Whatever edits made the graph, the search ends by itself; it
lists the entry first, exactly the blocks that a path of added edges leads to, none of them twice,
and the nearer ones before those further away. -/
theorem reachable_breadth_first (edits : List Edit) :
    (∀ n t, (ofEdits edits).Joins n t ↔ .edge n t ∈ edits) ∧
    (ofEdits edits).Finds [] [.enter] (ofEdits edits).reachable ∧
    (ofEdits edits).reachable.head? = some .enter ∧
    (∀ n, n ∈ (ofEdits edits).reachable ↔ (ofEdits edits).Reaches .enter n) ∧
    (ofEdits edits).reachable.Nodup ∧
    (ofEdits edits).reachable.Pairwise fun n t =>
      (ofEdits edits).distance n ≤ (ofEdits edits).distance t := by
  have ordered := ordered_reachable (ofEdits edits)
  refine ⟨fun n t => joins_ofEdits, finds_reachable _, head?_reachable _, fun n => mem_reachable,
    ?_, ?_⟩
  · simpa using ordered.nodup
  · simpa using ordered.sorted

end ControlFlow.Graph
