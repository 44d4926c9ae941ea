import ControlFlow.Proofs.Code.Linked
import ControlFlow.Proofs.Code.PlaceRegion
import ControlFlow.Proofs.Code.Runs
/-!
# Layouts of whole trees

The graph of a whole tree is laid out by moves from the graph of the entry and the exit alone, so it
is valid in the sense of `Layout.Valid`, with all of its blocks ended. It holds the code of the tree,
so runs of that code are runs of the graph.
-/

namespace ControlFlow

/-- Where all bindings hold a value, they flow through any code. -/
lemma Code.flows_univ (c : Code) (J : JumpKind → Set Binding) (B : Set Binding) :
    c.Flows J B Set.univ Set.univ := by
  have all : ∀ s : Set Binding, s ⊆ Set.univ := Set.subset_univ
  induction c generalizing J B with
  | skip => exact all _
  | seq p q ihp ihq => exact ⟨_, ihp J B, ihq J B⟩
  | alloc => exact all _
  | emit i plain => exact ⟨fun _ _ => trivial, by simp⟩
  | jump kind => exact all _
  | leave => exact all _
  | twoWays t c on first second iht ihf ihs =>
    exact ⟨_, _, _, iht J _, trivial, ihf J _, all _, ihs J _, all _⟩
  | detour c on way ihw => exact ⟨trivial, all _, _, ihw J _, all _⟩
  | join ways ihw => exact ⟨_, ihw J _, all _⟩
  | clause on t c body iht ihb => exact ⟨_, _, iht J B, trivial, all _, ihb J B, all _⟩
  | clauseElse on t c body rest iht ihb ihr =>
    exact ⟨_, _, iht J B, trivial, ihb J B, all _, ihr J B⟩
  | test inner c ihi => exact ⟨_, ihi J B, trivial, all _, all _⟩
  | select tests body iht ihb => exact ⟨_, _, _, iht J _, ihb J B, all _, all _⟩
  | loop on t c body again c' iht ihb iha =>
    exact ⟨all _, _, _, _, iht _ _, trivial, all _, ihb _ _, iha _ _, trivial, all _⟩
  | block body ihb => exact ihb J _
  | guarded copies body ensure ihc ihb ihe =>
    exact ⟨fun kind => ⟨_, ihc kind J _, all _⟩, _, _, ihb _ _, ihe J _, all _⟩
  | blockCall params closure dest callee request args body v ihr ihb =>
    exact ⟨_, _, ihr J _, fun _ _ => trivial, by simp, ihb _ _, trivial, all _⟩

namespace Lowering

variable {host : Host} {options : Options} {root : Node}

/-- A tree whose graph is known to have a property can be lowered. -/
lemma exists_of_build {types : String → Option Binding} {P : Graph → Prop}
    [DecidablePred P] (h : (match build host types options root with
      | .ok g => decide (P g)
      | .error _ => false) = true) : ∃ g, build host types options root = .ok g ∧ P g := by
  split at h
  · rename_i g hg
    exact ⟨g, hg, of_decide_eq_true h⟩
  · cases h

/-- The layout of the entry and the exit alone, where the bindings in `s` hold a value. -/
def rootLayout (options : Options) (root : Node) (s : Set Binding) : Layout where
  builder := start options root
  label n := if n = .enter then s else ∅
  now := s
  pending := ∅
  scope := {.exit}

lemma code_start (n : BlockName) : (start options root).graph.code n = [] := by
  cases n <;> rfl

lemma valid_rootLayout (s : Set Binding) : (rootLayout options root s).Valid := by
  have names : (rootLayout options root s).builder.graph.names = [.enter, .exit] := rfl
  have code : ∀ n, (rootLayout options root s).builder.graph.code n = [] := code_start
  have successors : ∀ n, (rootLayout options root s).builder.graph.successors n = [] := fun n => rfl
  have knows : ∀ n ∈ [BlockName.enter, .exit], (rootLayout options root s).builder.Knows n := by
    simp [Builder.Knows, BlockName.rank]
  have current : ∀ n, (rootLayout options root s).builder.At n ↔ n = .enter :=
    fun n => ⟨fun h => (Option.some.inj h).symm, fun h => h ▸ rfl⟩
  refine ⟨by simp [names], by simp [names], by simp [names], by simpa [names] using knows, ?_, ?_,
    ?_, ?_, ⟨code _, successors _⟩, ?_, ?_⟩
  · exact fun n h => absurd h (Set.notMem_empty n)
  · rintro n rfl
    exact ⟨knows _ (by simp), by simp, Or.inl (by simp [names])⟩
  · intro n h
    obtain rfl := (current n).1 h
    refine ⟨by simp [names], by simp, ⟨by simp [code], successors _⟩, ?_⟩
    simp [rootLayout]
  · intro n hn he _ ha
    rw [current] at ha
    simp_all
  · exact fun e h => absurd h List.not_mem_nil
  · intro n p i q h
    simp [code] at h

/-- A layout of a whole graph: it is valid, and all of its blocks are ended. -/
structure Complete (G : Layout) (b : Builder) : Prop where
  valid : G.Valid
  builder : G.builder = b
  pending : G.pending = ∅
  current : b.current = none

/-- A tree is laid out completely where bindings flow through its code. -/
lemma complete_of_lays {c : Code} {v : Binding} {b : Builder} {s A : Set Binding}
    (hl : ∀ l, (returning c v).Lays l rootTargets (start options root) b)
    (hf : c.Flows (fun _ => ∅) ∅ s A) (hv : v ∈ A) :
    ∃ G : Layout, Complete G b ∧ G.label .enter = s := by
  have accepts : (rootLayout options root s).Accepts {.exit} ∅ .exit :=
    ⟨rfl, by simp [Builder.Knows, BlockName.rank], by simp [rootLayout]⟩
  have flows : (returning c v).Flows (fun _ => ∅) ∅ s ∅ := by
    refine ⟨A, hf, A, ⟨?_, Set.subset_union_left⟩, Set.empty_subset _⟩
    simpa [Instruction.Ready, Instruction.reads] using hv
  obtain ⟨label, moves⟩ := (hl .exit).placed (valid_rootLayout s) rfl accepts
    (fun kind n h => by cases kind <;> cases h; exact accepts) flows
  refine ⟨_, ⟨moves.valid (valid_rootLayout s), rfl, rfl, ?_⟩, ?_⟩
  · cases hl .exit with
    | seq _ h =>
      cases h with
      | seq _ h =>
        cases h with
        | jump h => exact Builder.current_jump ..
  · refine (moves.frame.label .enter ?_).trans rfl
    simp [Builder.Knows, BlockName.rank]

lemma tidy_start : Builder.Tidy {.exit} ∅ (start options root) := by
  have knows : ∀ n ∈ [BlockName.enter, .exit], (start options root).Knows n := by
    simp [Builder.Knows, BlockName.rank]
  refine ⟨?_, knows, ?_, fun n hn => absurd hn (Set.notMem_empty n)⟩
  · rintro n ⟨⟩
    exact .head _
  · rintro n rfl
    exact knows _ (.tail _ (.head _))

lemma names_rootTargets : rootTargets.names ⊆ {BlockName.exit} := by
  rintro n ⟨kind, h⟩
  cases kind <;> cases h
  rfl

/-- Runs of the code of a tree are runs of its graph from the entry. -/
lemma leads_of_lays {σ : Type} {M : Machine σ} {fuel : Nat} {c : Code} {b : Builder} {s s' : σ}
    {o : Outcome} (hl : c.Lays .exit rootTargets (start options root) b)
    (hr : c.Runs M fuel s o s') :
    b.graph.Leads M fuel .exit rootTargets b.point (.start .enter) s o s' :=
  (hl.held tidy_start rfl names_rootTargets b.graph fun _ => List.prefix_rfl).run hr

end Lowering

end ControlFlow
