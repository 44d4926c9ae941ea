import ControlFlow.Proofs.Lowering.Meaning
import ControlFlow.Proofs.Meaning.Effects
/-!
# Graphs of values and of effects

A node can be lowered for its effects alone, as a statement, or for its value, on the right of an
assignment. For even nodes the two graphs make the same calls in the same order and end alike; only
the variable of the assignment tells them apart.

This needs the temporaries of a graph to be out of reach for the tree. The two graphs number their
temporaries differently, so a tree that names one of them reads another value in each.
-/

namespace ControlFlow

namespace Meaning

/-- Two worlds are the same but for the value of one variable. -/
structure World.SameBut (x : Variable) (w w' : World) : Prop where
  calls : w.calls = w'.calls
  returned : w.returned = w'.returned
  vars : ∀ y, y ≠ x → w.vars y = w'.vars y

lemma World.SameBut.refl {x : Variable} (w : World) : w.SameBut x w := ⟨rfl, rfl, fun _ _ => rfl⟩

/-- What is tracked has a meaning. -/
lemma Tracks.ne_wrong {g : Graph} {oracle : Oracle} {s : State} {r : Nat → Result Unit × World}
    (h : Tracks g oracle s r) (fuel : Nat) : (r fuel).1 ≠ .wrong := by
  intro wrong
  rcases h fuel with ⟨ended, -⟩ | ⟨cut, -⟩
  · rw [wrong] at ended
    exact ended
  · rw [wrong] at cut
    cases cut

end Meaning

open Meaning

namespace Lowering

/-- A program that evaluates a node for its effects. -/
def discarding (n : Node) : Node := .mk {} (.program [n, .mk {} (.literal .nil)])

/-- A program that assigns the value of a node to a variable. -/
def storing (x : Variable) (n : Node) : Node :=
  .mk {} (.program
    [.mk {} (.assign (.mk { binding := some x } (.varTarget x.1.name)) n), .mk {} (.literal .nil)])

attribute [local simp] Kind.fields Kind.children

variable {types : String → Option Binding} {oracle : Oracle} {x : Variable} {n : Node}

lemma namesNoTemporary_discarding (h : n.NamesNoTemporary) : (discarding n).NamesNoTemporary := by
  simpa [Node.NamesNoTemporary, discarding, Node.each_mk, Info.bindings, Node.info] using h

lemma namesNoTemporary_storing (h : n.NamesNoTemporary) : (storing x n).NamesNoTemporary := by
  simpa [Node.NamesNoTemporary, storing, Node.each_mk, Info.bindings, Node.info, x.2] using h

lemma blockFree_discarding (h : n.BlockFree) : (discarding n).BlockFree := by
  simpa [Node.BlockFree, discarding, Node.each_mk, Node.kind, Kind.opensBlock] using h

lemma blockFree_storing (h : n.BlockFree) : (storing x n).BlockFree := by
  simpa [Node.BlockFree, storing, Node.each_mk, Node.kind, Kind.opensBlock] using h

lemma program_discarding (fuel : Nat) (w : World) :
    program types oracle fuel (discarding n) w =
      (eval types oracle fuel false n >>= fun _ => Eval.record .nil) w := by
  simp [program, discarding, eval, statements]

lemma program_storing (fuel : Nat) (w : World) :
    program types oracle fuel (storing x n) w =
      (eval types oracle fuel true n >>= fun v => Eval.write x v >>= fun _ => Eval.record .nil) w := by
  simp [program, storing, eval, statements, fill]

/-- The evaluations of the two programs end alike. -/
lemma sameBut_program (even : n.Even) {fuel : Nat} {w : World}
    (meaning : (program types oracle fuel (storing x n) w).1 ≠ .wrong) :
    (program types oracle fuel (discarding n) w).1 = (program types oracle fuel (storing x n) w).1 ∧
      (program types oracle fuel (discarding n) w).2.SameBut x
        (program types oracle fuel (storing x n) w).2 := by
  have alike := (sameEffects_of_even types oracle fuel even).value w
  rw [program_storing, Eval.bind_apply] at meaning ⊢
  rw [program_discarding, Eval.bind_apply]
  generalize eval types oracle fuel true n w = r, eval types oracle fuel false n w = r'
    at alike meaning ⊢
  cases alike with
  | done v v' w' =>
    simp only [Eval.bind_apply, Eval.write, x.2, ne_eq, not_false_eq_true, dite_true]
    refine ⟨rfl, rfl, rfl, fun y hy => ?_⟩
    change w'.vars y = Function.update w'.vars x v y
    rw [Function.update_of_ne hy]
  | jump kind w' => exact ⟨rfl, .refl w'⟩
  | cut w' => exact ⟨rfl, .refl w'⟩
  | wrong w' => exact absurd rfl meaning

variable {host : Host} {options options' : Options} {g g' : Graph}

/-- **A node has the same effects, no matter whether its value is wanted.** The graph that evaluates it
for its effects and the one that assigns its value begin with the same calls. Either both can be run
on and on, or both get to their exit, with the same calls, the same returned value and the same values
of all variables but the assigned one. -/
theorem same_effects_stored (h : build host types options (discarding n) = .ok g)
    (h' : build host types options' (storing x n) = .ok g') (free : n.BlockFree) (even : n.Even)
    (names : n.NamesNoTemporary)
    (registered : ∀ name b, types name = some b → b.kind ≠ .temporary)
    (oracle : Oracle) (vars : Variable → Value) (temps temps' : Binding → Value) :
    (∀ cs, Makes g oracle ⟨.initial vars, temps⟩ cs ↔ Makes g' oracle ⟨.initial vars, temps'⟩ cs) ∧
    ((Diverges g oracle ⟨.initial vars, temps⟩ ∧ Diverges g' oracle ⟨.initial vars, temps'⟩) ∨
      ∃ w w', Halts g oracle ⟨.initial vars, temps⟩ w ∧ Halts g' oracle ⟨.initial vars, temps'⟩ w' ∧
        w.SameBut x w') := by
  have tracks := tracks_of_build h (namesNoTemporary_discarding names) registered
    (blockFree_discarding free) oracle ⟨.initial vars, temps⟩
  have tracks' := tracks_of_build h' (namesNoTemporary_storing names) registered
    (blockFree_storing free) oracle ⟨.initial vars, temps'⟩
  have same := fun fuel => sameBut_program even (tracks'.ne_wrong fuel)
  have exit := (proper_of_build h).instruction_exit
  have exit' := (proper_of_build h').instruction_exit
  constructor
  · intro cs
    rw [tracks.makes_iff exit, tracks'.makes_iff exit']
    exact exists_congr fun fuel => by rw [(same fuel).2.calls]
  · rcases tracks.halts_or_diverges exit with ⟨w, halts⟩ | diverges
    · obtain ⟨fuel, ended, rfl⟩ := (tracks.halts_iff exit w).1 halts
      rw [(same fuel).1] at ended
      exact Or.inr ⟨_, _, halts, (tracks'.halts_iff exit' _).2 ⟨fuel, ended, rfl⟩, (same fuel).2⟩
    · refine Or.inl ⟨diverges, (tracks'.diverges_iff exit').2 fun fuel => ?_⟩
      exact (same fuel).1.symm.trans ((tracks.diverges_iff exit).1 diverges fuel)

/-- One of two calls whose value would be that of the node, and a clause behind it. -/
def eitherCall : Node :=
  .mk {} (.guarded
    [.mk {} (.ifThen (callSelf "ready") [callSelf "get"]
      (some (.mk {} (.elseThen [callSelf "wait"]))))]
    (some [callSelf "close"]))

/-- The graphs make the same three calls, one of which gives the value. -/
theorem same_effects_stored_eitherCall : ∃ g g',
    build .generous builtinTypes {} (discarding eitherCall) = .ok g ∧
    build .generous builtinTypes {} (storing ⟨⟨"tmp", .localVar⟩, nofun⟩ eitherCall) = .ok g' ∧
    eitherCall.BlockFree ∧ eitherCall.Even ∧ eitherCall.NamesNoTemporary ∧
      ∀ cs, Makes g fresh ⟨.initial fun _ => .nil, fun _ => .nil⟩ cs ↔
        Makes g' fresh ⟨.initial fun _ => .nil, fun _ => .nil⟩ cs := by
  obtain ⟨g, h⟩ := exists_of_isOk (e := build .generous builtinTypes {} (discarding eitherCall))
    (by decide +kernel)
  obtain ⟨g', h'⟩ := exists_of_isOk
    (e := build .generous builtinTypes {} (storing ⟨⟨"tmp", .localVar⟩, nofun⟩ eitherCall))
    (by decide +kernel)
  have names : eitherCall.NamesNoTemporary := by
    simp [Node.NamesNoTemporary, eitherCall, callSelf, Node.each_mk, Info.bindings, Node.info,
      Scope.main, Binding.selfRef]
  have free : eitherCall.BlockFree := by
    simp [Node.BlockFree, eitherCall, callSelf, Node.each_mk, Node.kind, Kind.opensBlock]
  have even : eitherCall.Even := by
    simp [eitherCall, callSelf, Node.even_mk, Kind.inRole, Kind.takesMaking, Kind.HandsOn]
  exact ⟨g, g', h, h', free, even, names, (same_effects_stored h h' free even names
    (fun _ _ => kind_of_builtinTypes) fresh (fun _ => .nil) (fun _ => .nil) fun _ => .nil).1⟩

/-- A call on `self` whose argument is the first temporary of the graph. -/
def passTemporary : Node :=
  .mk { scope := some .main } (.call none "foo"
    [.mk { binding := some (.temporary 1) } (.varRef "%t1")] none none)

/-- **A tree that names a temporary can tell the two graphs apart**: the first temporary holds `self` in
one of them and nothing yet in the other. -/
theorem stored_temporary_differs : ∃ g g' w w',
    build .generous builtinTypes {} (discarding passTemporary) = .ok g ∧
    build .generous builtinTypes {} (storing ⟨⟨"tmp", .localVar⟩, nofun⟩ passTemporary) = .ok g' ∧
    passTemporary.BlockFree ∧ passTemporary.Even ∧
    Halts g fresh ⟨.initial fun _ => .object 0, fun _ => .nil⟩ w ∧
    Halts g' fresh ⟨.initial fun _ => .object 0, fun _ => .nil⟩ w' ∧
    w.calls = [⟨.method (.object 0) "foo", .positional [.object 0], none⟩] ∧
    w'.calls = [⟨.method (.object 0) "foo", .positional [.nil], none⟩] := by
  have discarded : ∃ g, build .generous builtinTypes {} (discarding passTemporary) = .ok g ∧
      g.code .enter = [.assign (.temporary 1) (.binding (.selfRef "main")),
        .assign (.temporary 2) (.binding (.temporary 1)),
        .send none (.method (.temporary 1) "foo") (.positional [.temporary 2]) .absent,
        .assign (.temporary 3) (.constant .nil), .ret (.temporary 3)] ++ [.jump .exit] :=
    exists_of_build (by decide +kernel)
  have stored : ∃ g, build .generous builtinTypes {}
      (storing ⟨⟨"tmp", .localVar⟩, nofun⟩ passTemporary) = .ok g ∧
      g.code .enter = [.assign (.temporary 2) (.binding (.selfRef "main")),
        .assign (.temporary 3) (.binding (.temporary 1)),
        .send (some (.temporary 1)) (.method (.temporary 2) "foo") (.positional [.temporary 3]) .absent,
        .assign ⟨"tmp", .localVar⟩ (.binding (.temporary 1)),
        .assign (.temporary 4) (.constant .nil), .ret (.temporary 4)] ++ [.jump .exit] :=
    exists_of_build (by decide +kernel)
  have free : passTemporary.BlockFree := by
    simp [Node.BlockFree, passTemporary, Node.each_mk, Node.kind, Kind.opensBlock]
  have even : passTemporary.Even := by
    simp [passTemporary, Node.even_mk, Kind.inRole, Kind.takesMaking, Kind.HandsOn]
  obtain ⟨g, h, code⟩ := discarded
  obtain ⟨g', h', code'⟩ := stored
  exact ⟨g, g', _, _, h, h', free, even, ⟨_, _, Graph.run_block code (by decide)⟩,
    ⟨_, _, Graph.run_block code' (by decide)⟩, rfl, rfl⟩

end Lowering

end ControlFlow
