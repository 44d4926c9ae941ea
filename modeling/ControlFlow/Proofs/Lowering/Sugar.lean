import ControlFlow.Proofs.Lowering.Places
/-!
# Other spellings

Some kinds of nodes are other spellings of more general ones: modifiers, `begin` around a single
node, and loops over the items of a value. In errors they go by their own names, and otherwise the two
spellings are the same, wherever they stand in a tree.
-/

namespace ControlFlow

/-- A kind and the more general one that it is another spelling of. -/
inductive Kind.Sugar : Kind Node → Kind Node → Prop where
  | ifMod {c n : Node} : Sugar (.ifMod c n) (.ifThen c [n] none)
  | unlessMod {c n : Node} : Sugar (.unlessMod c n) (.unlessThen c [n] none)
  | loopMod {sense : LoopSense} {c n : Node} : Sugar (.loopMod sense c n) (.loop sense c [n])
  | begin {n : Node} : Sugar (.begin n) (.paren [n])
  | forIn {target : Info} {name : String} {b : Binding} {e : Node} {ns : List Node} (block : Info)
      (bound : target.binding = some b) :
      Sugar (.forIn (.mk target (.varTarget name)) e ns)
        (.call (some e) "each" [] none (some (.mk block (.doBlock [⟨b, .required⟩] ns))))

/-- A tree, and one in which some nodes are spelled in the more general way. All nodes keep what is
known about them, but for their numbers. -/
inductive Node.Desugars : Node → Node → Prop where
  | keep {info : Info} {k l : Kind Node} (id : Nat)
      (kind : Kind.Rel (fun _ => Node.Desugars) k l) :
      Node.Desugars (.mk info k) (.mk { info with id } l)
  | respell {info : Info} {k k' l : Kind Node} (id : Nat) (sugar : k.Sugar k')
      (kind : Kind.Rel (fun _ => Node.Desugars) k' l) :
      Node.Desugars (.mk info k) (.mk { info with id } l)

/-- The name of the more general spelling, where there is one. -/
def generalTag : String → String
  | "if-mod" => "if"
  | "unless-mod" => "unless"
  | "while-mod" => "while"
  | "until-mod" => "until"
  | "begin" => "paren"
  | "for" => "call"
  | tag => tag

lemma Kind.Sugar.tag {k l : Kind Node} (h : k.Sugar l) : generalTag k.tag = generalTag l.tag := by
  cases h with
  | @loopMod sense => cases sense <;> rfl
  | _ => rfl

/-- An error that names nodes by their general spelling. -/
def LowerError.general (e : LowerError) : LowerError :=
  match e.fault with
  | .misplaced tag place => { e with fault := .misplaced (generalTag tag) place }
  | _ => e

namespace Lowering

open Construction WalkT

variable {env : Environment} {n n' : Node}

/-- Both spellings are the same, up to the names in errors. -/
lemma same_of_sugar (info : Info) {k l : Kind Node} (h : k.Sugar l) :
    Node.Same (Varied (.viewed LowerError.general)) env (.mk info k) (.mk info l) := by
  have wrong {α : Type} (place : Place) :
      (Construction.failAt info (.misplaced k.tag place) : Varied (.viewed LowerError.general) α) =
        Construction.failAt info (.misplaced l.tag place) := by
    have errors : (LowerError.atNode info (.misplaced k.tag place)).general =
        (LowerError.atNode info (.misplaced l.tag place)).general := by
      simp only [LowerError.general, LowerError.atNode, h.tag]
    exact congrArg (throw : LowerError → Walk α) errors
  have value : (value env (.mk info k) : Varied (.viewed LowerError.general) Binding) =
      value env (.mk info l) := by
    cases h
    case forIn bound =>
      simp only [value, Kind.delivery, construct, resolved, bound, pure_bind, receiver, arguments,
        values, passed, literal, send, List.any_nil]
      rfl
    all_goals simp [value, Kind.delivery, ownValue, construct, alternative, otherwise, body, effects]
  have effect : (effect env (.mk info k) : Varied (.viewed LowerError.general) Unit) =
      effect env (.mk info l) := by
    cases h
    case forIn bound =>
      simp only [effect, Kind.delivery, construct, resolved, bound, pure_bind, receiver, arguments,
        values, passed, literal, send, List.any_nil]
      rfl
    all_goals
      simp [effect, Kind.delivery, ownEffect, construct, alternative, otherwise, body, effects]
  refine ⟨value, effect, ?_, ?_, ?_, ?_, ?_, ?_, ?_, ?_, ?_, ?_⟩
  · cases h <;> rfl
  · intro klass array ns
    cases h <;> simp only [elements, value]
  · intro ns
    cases h <;> simp only [discards, effect]
  · intro result
    cases h
    case ifMod => simp [alternative, body, effects]
    all_goals exact congrArg Alternative.last (wrong _)
  · intro result subject unmatched ns
    cases h <;> exact congrArg Clauses.last (wrong _)
  · intro info' dest callee args pass
    cases h <;> simp only [literal, send, wrong]
  · intro info' v
    cases h <;> exact wrong _
  · intro info' v
    cases h <;> exact wrong _
  · intro info' result op v
    cases h <;> exact wrong _
  · intro info' result iterable ns
    cases h <;> exact wrong _

lemma same_of_desugars (h : n.Desugars n') :
    n.Same (Varied (.viewed LowerError.general)) env n' := by
  -- the numbers of nodes are not told in errors
  have like : ∀ (info : Info) (id : Nat),
      info.Like (Varied (.viewed LowerError.general)) { info with id } :=
    fun info id => ⟨rfl, fun _ => rfl, fun _ _ => rfl, fun _ _ => rfl⟩
  induction n' using Node.induction_below generalizing n with
  | step n' ih =>
    have kept : ∀ {info : Info} {k l : Kind Node} (id : Nat), n' = .mk { info with id } l →
        Kind.Rel (fun _ => Node.Desugars) k l →
        Node.Same (Varied (.viewed LowerError.general)) env (.mk info k) n' := by
      rintro info k l id rfl kind
      refine same_of_rel (like info id) (by cases kind <;> rfl) ?_
      exact kind.imp_mem fun role c d _ mem h => ih d (.child (Kind.mem_children.2 ⟨role, mem⟩)) h
    cases h with
    | keep id kind => exact kept id rfl kind
    | respell id sugar kind => exact same_trans (same_of_sugar _ sugar) (kept id rfl kind)

/-- **Other spellings make no difference.** Whatever nodes of a tree are spelled in the more general
way, the same graph is built, with the same blocks and temporaries, or building fails with the same
error, up to the name of the node in it. -/
theorem build_of_desugars (host : Host) (types : String → Option Binding) (options : Options)
    (root root' : Node) (respelled : root.Desugars root') :
    (build host types options root).mapError LowerError.general =
      (build host types options root').mapError LowerError.general :=
  build_of_same host (same_of_desugars respelled) fun _ => by cases respelled <;> rfl

/-- A loop over the items of a variable, with a modifier in it. -/
def shortLoop : Node :=
  .mk {} (.forIn (.mk { binding := some ⟨"x", .localVar⟩ } (.varTarget "x"))
    (.mk { binding := some ⟨"xs", .localVar⟩ } (.varRef "xs"))
    [.mk {} (.ifMod (.mk { binding := some ⟨"x", .localVar⟩ } (.varRef "x"))
      (.mk {} (.begin (.mk {} (.nextWith [])))))])

/-- The same with its nodes spelled in the more general way. -/
def longLoop : Node :=
  .mk {} (.call (some (.mk { binding := some ⟨"xs", .localVar⟩ } (.varRef "xs"))) "each" [] none
    (some (.mk {} (.doBlock [⟨⟨"x", .localVar⟩, .required⟩]
      [.mk {} (.ifThen (.mk { binding := some ⟨"x", .localVar⟩ } (.varRef "x"))
        [.mk {} (.paren [.mk {} (.nextWith [])])] none)]))))

theorem build_of_desugars_shortLoop :
    shortLoop.Desugars longLoop ∧
      (build .generous builtinTypes {} shortLoop).mapError LowerError.general =
        (build .generous builtinTypes {} longLoop).mapError LowerError.general := by
  have loops : shortLoop.Desugars longLoop := by
    refine .respell 0 (.forIn {} rfl) (.call (.some (.keep 0 .varRef)) .nil .none
      (.some (.keep 0 (.doBlock (.cons ?_ .nil)))))
    exact .respell 0 .ifMod (.ifThen (.keep 0 .varRef)
      (.cons (.respell 0 .begin (.paren (.cons (.keep 0 (.nextWith .nil)) .nil))) .nil) .none)
  exact ⟨loops, build_of_desugars .generous builtinTypes {} shortLoop longLoop loops⟩

end Lowering

end ControlFlow
