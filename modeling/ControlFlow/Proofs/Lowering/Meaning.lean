import ControlFlow.Lowering.Build
import ControlFlow.Proofs.Lowering.Shape
import ControlFlow.Proofs.Lowering.Written
import ControlFlow.Proofs.Meaning.Behaviour
import ControlFlow.Proofs.Meaning.Faithful
/-!
# Lowering preserves meaning

The graph of a tree without blocks does what the evaluation of the tree does: it makes the same calls
in the same order, it gets to its exit if and only if the evaluation comes to its end, and then with
the same variables and the same returned value.
-/

namespace ControlFlow

open Meaning

/-- Nothing stands at the exit of a proper graph. -/
lemma Graph.Proper.instruction_exit {g : Graph} (h : g.Proper) :
    g.instruction? (.start .exit) = none := by
  obtain ⟨b, hb, name⟩ := List.mem_map.1 h.exit
  have code : g.code .exit = [] := by
    rw [← name, Graph.code_of_mem h.nodup hb, h.exit_empty b hb name]
  simp [Graph.instruction?, Point.start, code]

namespace Lowering

variable {host : Host} {types : String → Option Binding} {options : Options} {root : Node}
  {g : Graph}

lemma eq_return_of_mem {kind : JumpKind} (h : kind ∈ rootTargets.kinds) : kind = .return := by
  cases kind with
  | «return» => rfl
  | _ => exact absurd h (by simp [JumpTargets.kinds, rootTargets, JumpTargets.get?])

/-- The graph of a tree keeps together with the evaluation of the tree. -/
lemma tracks_of_build (h : build host types options root = .ok g) (names : root.NamesNoTemporary)
    (registered : ∀ name b, types name = some b → b.kind ≠ .temporary) (free : root.BlockFree)
    (oracle : Oracle) (s : State) :
    Tracks g oracle s fun fuel => program types oracle fuel root s.world := by
  intro fuel
  obtain ⟨v, c, t, b, hc, hl, rfl, -⟩ := run_lays (run_of_build h)
  have nothing : Facts.Below ∅ 1 ∧ (∀ d ∈ (∅ : Set Binding), Facts.Free ∅ 1 d) ∧ Facts.On ∅ s :=
    ⟨fun _ h => h.elim, fun _ h => h.elim, fun _ h => h.elim⟩
  obtain ⟨below, nowhere, on⟩ := nothing
  have root_value : Simulated ⟨types, options.maxDepth⟩ oracle fuel root :=
    simulated registered root names free
  have ends : Ends ((returning c v).Runs (calling oracle) fuel s) rootTargets.kinds ∅
      (fun _ => .jump .return) (fun _ _ => True) (program types oracle fuel root s.world) := by
    refine ((root_value.value ∅).runs subset_rfl hc below nowhere s on).bind
      (fun w s₁ run ⟨new, known⟩ => ?_) fun o s' ho run => Or.inr ⟨ho.ne_done, run⟩
    have held : s₁.lookup v = w :=
      known.lookup (new.below below nowhere ((root_value.value ∅).counts hc)) (Or.inr rfl)
    refine ⟨(calling oracle).act (.ret v) s₁, Or.inl ⟨s₁, run, Or.inl ⟨_, ⟨rfl, rfl⟩, rfl, rfl⟩⟩,
      ?_, trivial⟩
    rw [← held]
    rfl
  beta_reduce
  generalize program types oracle fuel root s.world = r at ends ⊢
  rcases r with ⟨_ | kind | _ | _, w⟩
  · obtain ⟨s', run, rfl, -⟩ := ends
    obtain ⟨k, run⟩ := exit_reached hl run
    exact Or.inl ⟨trivial, k, s'.temps, run⟩
  · obtain ⟨s', run, rfl, hk, -⟩ := ends
    -- the only jump out of a whole tree is a `return`
    obtain rfl : kind = .return := eq_return_of_mem hk
    obtain ⟨k, run⟩ := exit_reached hl run
    exact Or.inl ⟨trivial, k, s'.temps, run⟩
  · obtain ⟨s', run, rfl⟩ := ends
    obtain ⟨k, q, run, le⟩ := leads_of_lays (hl .exit) run
    exact Or.inr ⟨rfl, k, _, le, run, rfl⟩
  · exact ends.elim

/-- **The graph of a tree without blocks does what the evaluation of the tree does**, whatever calls do
and whatever the variables and temporaries hold at the start. The two begin with the same calls; the
graph gets to its exit where the evaluation ends, with the same world; otherwise both go on and on. -/
theorem meaning_preserved (h : build host types options root = .ok g) (names : root.NamesNoTemporary)
    (registered : ∀ name b, types name = some b → b.kind ≠ .temporary) (free : root.BlockFree)
    (oracle : Oracle) (vars : Variable → Value) (temps : Binding → Value) :
    (∀ w, Halts g oracle ⟨.initial vars, temps⟩ w ↔
      ∃ fuel, (program types oracle fuel root (.initial vars)).1.Ended ∧
        (program types oracle fuel root (.initial vars)).2 = w) ∧
    (Diverges g oracle ⟨.initial vars, temps⟩ ↔
      ∀ fuel, (program types oracle fuel root (.initial vars)).1 = .cut) ∧
    (∀ cs, Makes g oracle ⟨.initial vars, temps⟩ cs ↔
      ∃ fuel, cs <+: (program types oracle fuel root (.initial vars)).2.calls) ∧
    ((∃ w, Halts g oracle ⟨.initial vars, temps⟩ w) ∨ Diverges g oracle ⟨.initial vars, temps⟩) :=
  have tracks := tracks_of_build h names registered free oracle ⟨.initial vars, temps⟩
  have exit := (proper_of_build h).instruction_exit
  ⟨tracks.halts_iff exit, tracks.diverges_iff exit, tracks.makes_iff exit,
    tracks.halts_or_diverges exit⟩

/-- A call of a method of `self`. -/
def callSelf (name : String) : Node :=
  .mk { scope := some .main } (.call none name [] none none)

/-- A value is got, assigned and returned, and then a clause makes another call. -/
def returnThenCall : Node :=
  .mk {} (.program [.mk {} (.guarded
    [.mk {} (.assign (.mk { binding := some ⟨"x", .localVar⟩ } (.varTarget "x")) (callSelf "get")),
      .mk {} (.returnWith [.mk { binding := some ⟨"x", .localVar⟩ } (.varRef "x")])]
    (some [callSelf "close"]))])

/-- Every call makes a new object and leaves the variables as they are. -/
def fresh : Oracle := fun calls vars => (.object calls.length, vars)

/-- The graph makes both calls and returns the result of the first one. -/
theorem meaning_preserved_returnThenCall : ∃ g, build .generous builtinTypes {} returnThenCall = .ok g ∧
    returnThenCall.NamesNoTemporary ∧ returnThenCall.BlockFree ∧
      ∃ w, Halts g fresh ⟨.initial fun _ => .nil, fun _ => .nil⟩ w ∧ w.returned = some (.object 1) ∧
        w.calls = [⟨.method .nil "get", .positional [], none⟩,
          ⟨.method .nil "close", .positional [], none⟩] := by
  obtain ⟨g, h⟩ := exists_of_isOk (e := build .generous builtinTypes {} returnThenCall)
    (by decide +kernel)
  have names : returnThenCall.NamesNoTemporary := by
    simp [Node.NamesNoTemporary, returnThenCall, callSelf, Node.each_mk, Kind.children, Kind.fields,
      Kind.inRole, Info.bindings, Node.info, Scope.main, Binding.selfRef]
  have free : returnThenCall.BlockFree := by
    simp [Node.BlockFree, returnThenCall, callSelf, Node.each_mk, Kind.children, Kind.fields,
      Kind.inRole, Node.kind, Kind.opensBlock]
  obtain ⟨halts, -⟩ := meaning_preserved h names (fun _ _ => kind_of_builtinTypes) free fresh
    (fun _ => .nil) (fun _ => .nil)
  exact ⟨g, h, names, free, _, (halts _).2 ⟨0, trivial, rfl⟩, rfl, rfl⟩

end Lowering

end ControlFlow
