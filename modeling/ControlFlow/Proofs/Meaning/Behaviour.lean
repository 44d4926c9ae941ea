import Mathlib.Data.List.Infix
import ControlFlow.Proofs.Meaning.Simulation
/-!
# What graphs and evaluations do as a whole

A graph is run from its entry, and it either gets to its exit or goes on and on. An evaluation that is
cut off later and later says the same about a program. Where the two keep together, for every time at
which the evaluation may be cut off, they end alike, and they make the same calls even if they do not
end.
-/

namespace ControlFlow.Meaning

variable {g : Graph} {oracle : Oracle} {s : State}

/-! ## Runs of graphs -/

/-- The graph gets from its entry to its exit, where the world is `w`. -/
def Halts (g : Graph) (oracle : Oracle) (s : State) (w : World) : Prop :=
  ∃ k temps, g.Run (calling oracle) k (.start .enter, s) (.start .exit, ⟨w, temps⟩)

/-- The graph can be run on and on. -/
def Diverges (g : Graph) (oracle : Oracle) (s : State) : Prop :=
  ∀ k, ∃ C, g.Run (calling oracle) k (.start .enter, s) C

/-- The graph begins with the given calls. -/
def Makes (g : Graph) (oracle : Oracle) (s : State) (cs : List Call) : Prop :=
  ∃ k C, g.Run (calling oracle) k (.start .enter, s) C ∧ cs <+: C.2.world.calls

/-- An instruction adds to the calls that were made. -/
lemma calls_act (i : Instruction) (s : State) :
    s.world.calls <+: ((calling oracle).act i s).world.calls := by
  have store (s : State) (b : Binding) (v : Value) : (s.store b v).world.calls = s.world.calls := by
    unfold State.store
    split <;> rfl
  cases i with
  | assign d value => cases value <;> exact (store ..) ▸ List.prefix_rfl
  | send dest callee args block =>
    cases dest with
    | none => exact List.prefix_append ..
    | some d =>
      change _ <+: (State.store _ d _).world.calls
      rw [store]
      exact List.prefix_append ..
  | _ => exact List.prefix_rfl

lemma calls_run {k : Nat} {C C' : Point × State} (h : g.Run (calling oracle) k C C') :
    C.2.world.calls <+: C'.2.world.calls := by
  induction h with
  | refl => exact List.prefix_rfl
  | head first _ ih =>
    cases first with
    | act hi plain => exact (calls_act _ _).trans ih
    | jump hi => exact ih
    | branch hi takes => exact ih

/-- No run is longer than one that gets to the exit. -/
lemma le_of_exit (hexit : g.instruction? (.start .exit) = none) {j k : Nat} {s' : State}
    {C C' : Point × State} (h : g.Run (calling oracle) k C (.start .exit, s'))
    (h' : g.Run (calling oracle) j C C') : j ≤ k := by
  by_contra longer
  have rest := h.continues (deterministic_calling oracle) h' (by omega)
  have := (rest.eq_of_end hexit).1
  omega

lemma Halts.unique (hexit : g.instruction? (.start .exit) = none) {w w' : World}
    (h : Halts g oracle s w) (h' : Halts g oracle s w') : w = w' := by
  obtain ⟨k, temps, run⟩ := h
  obtain ⟨j, temps', run'⟩ := h'
  obtain rfl : j = k := le_antisymm (le_of_exit hexit run run') (le_of_exit hexit run' run)
  have same := run.unique (deterministic_calling oracle) run'
  exact congrArg (fun C : Point × State => C.2.world) same

/-! ## Evaluations that are cut off -/

/-- A program has come to its end: it is done, or it has returned. -/
def Result.Ended {α : Type} : Result α → Prop
  | .done _ | .jump .return => True
  | _ => False

/-- A graph keeps together with evaluations that are cut off later and later: where an evaluation ends
the graph halts, and where it is cut off the graph gets as far, in a run that is long enough. -/
def Tracks (g : Graph) (oracle : Oracle) (s : State) (r : Nat → Result Unit × World) : Prop :=
  ∀ fuel, (r fuel).1.Ended ∧ Halts g oracle s (r fuel).2 ∨
    (r fuel).1 = .cut ∧ ∃ k C, fuel ≤ k ∧ g.Run (calling oracle) k (.start .enter, s) C ∧
      C.2.world = (r fuel).2

namespace Tracks

variable {r : Nat → Result Unit × World} (h : Tracks g oracle s r)
  (hexit : g.instruction? (.start .exit) = none)

include h hexit

/-- The graph makes the calls that the evaluation makes. -/
lemma makes_iff (cs : List Call) : Makes g oracle s cs ↔ ∃ fuel, cs <+: (r fuel).2.calls := by
  constructor
  · rintro ⟨k, C, run, made⟩
    refine ⟨k, made.trans ?_⟩
    -- a run that gets as far as the evaluation is at least as long
    rcases h k with ⟨-, j, temps, run'⟩ | ⟨-, j, C', le, run', hw⟩
    · exact calls_run (run.continues (deterministic_calling oracle) run' (le_of_exit hexit run' run))
    · exact hw ▸ calls_run (run.continues (deterministic_calling oracle) run' le)
  · rintro ⟨fuel, made⟩
    rcases h fuel with ⟨-, j, temps, run⟩ | ⟨-, j, C, -, run, hw⟩
    · exact ⟨j, _, run, made⟩
    · exact ⟨j, C, run, hw ▸ made⟩

/-- The graph halts where the evaluation ends. -/
lemma halts_iff (w : World) : Halts g oracle s w ↔ ∃ fuel, (r fuel).1.Ended ∧ (r fuel).2 = w := by
  constructor
  · intro halts
    obtain ⟨k, temps, run⟩ := halts
    -- an evaluation that is cut off later than after `k` steps comes to its end
    rcases h (k + 1) with ⟨ended, halts'⟩ | ⟨-, j, C, le, run', -⟩
    · exact ⟨k + 1, ended, halts'.unique hexit ⟨k, temps, run⟩⟩
    · have := le_of_exit hexit run run'
      omega
  · rintro ⟨fuel, ended, rfl⟩
    rcases h fuel with ⟨-, halts⟩ | ⟨cut, -⟩
    · exact halts
    · rw [cut] at ended
      exact ended.elim

/-- The graph can be run on and on if the evaluation is always cut off. -/
lemma diverges_iff : Diverges g oracle s ↔ ∀ fuel, (r fuel).1 = .cut := by
  constructor
  · intro diverges fuel
    rcases h fuel with ⟨-, k, temps, run⟩ | ⟨cut, -⟩
    · obtain ⟨C, run'⟩ := diverges (k + 1)
      have := le_of_exit hexit run run'
      omega
    · exact cut
  · intro cut k
    rcases h k with ⟨ended, -⟩ | ⟨-, j, C, le, run, -⟩
    · rw [cut k] at ended
      exact ended.elim
    · rw [← Nat.add_sub_of_le le] at run
      obtain ⟨C', run', -⟩ := run.split
      exact ⟨C', run'⟩

/-- The graph gets to its exit or can be run on and on; it does not get stuck. -/
lemma halts_or_diverges : (∃ w, Halts g oracle s w) ∨ Diverges g oracle s := by
  by_cases cut : ∀ fuel, (r fuel).1 = .cut
  · exact Or.inr ((h.diverges_iff hexit).2 cut)
  · obtain ⟨fuel, hf⟩ := not_forall.1 cut
    rcases h fuel with ⟨-, halts⟩ | ⟨cut, -⟩
    · exact Or.inl ⟨_, halts⟩
    · exact absurd cut hf

end Tracks

end ControlFlow.Meaning
