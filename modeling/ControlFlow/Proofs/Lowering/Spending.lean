import ControlFlow.Proofs.Lowering.Spends
import ControlFlow.Proofs.Syntax.Tree
/-!
# What the operations of lowering spend

Here is what the operations of lowering spend of a binding, read as traced walks.
-/

namespace ControlFlow

namespace Traced

open WalkT.Spends (feed allocTemp_bind)

/-! ## Instructions -/

section

variable {v : Binding} {α : Type}

/-- What a traced walk spends. -/
abbrev Spends (v : Binding) (read write : Prop) (x : Traced α) (left : α → Prop) : Prop :=
  WalkT.Spends v read write x left

/-- The walk spends the binding and leaves nothing of it. -/
abbrev Clears (v : Binding) (read write : Prop) (x : Traced α) : Prop :=
  WalkT.Clears v read write x

/-- The walk has nothing to do with the binding but may give it. -/
abbrev Gives (v : Binding) (x : Traced Binding) : Prop := Spends v False False x (· = v)

/-- The walk has nothing to do with the binding. -/
abbrev Ignores (v : Binding) (x : Traced α) : Prop := WalkT.Ignores v x

lemma emit (i : Instruction) (plain : i.isTerminator = false)
    (params : v ∈ i.bindings → v ∈ i.reads ∨ i.dest? = some v) :
    Clears v (v ∈ i.reads) (i.dest? = some v) (Construction.emit i plain) :=
  WalkT.Spends.emit i params

lemma copy (dest src : Binding) : Clears v (src = v) (dest = v) (Construction.copy dest src) := by
  refine (emit (.assign dest (.binding src)) rfl ?_).congr ?_ ?_ <;>
    simp [Instruction.bindings, Instruction.reads, Instruction.dest?, eq_comm, or_comm]

lemma loadConst (dest : Binding) (c : Constant) :
    Clears v False (dest = v) (Construction.loadConst dest c) := by
  refine (emit (.assign dest (.constant c)) rfl ?_).congr ?_ ?_ <;>
    simp [Instruction.bindings, Instruction.reads, Instruction.dest?, eq_comm]

lemma call (dest : Option Binding) (receiver : Binding) (method : String) (args : List Binding) :
    Clears v (receiver = v ∨ v ∈ args) (dest = some v)
      (Construction.call dest receiver method args) := by
  refine (emit (.send dest (.method receiver method) (.positional args) .absent) rfl
    (Instruction.named nofun)).congr ?_ ?_
  · simp [Instruction.reads, Callee.bindings, Arguments.bindings, BlockOperand.bindings, eq_comm]
  · rfl

lemma constTemp (c : Constant) : Gives v (Construction.constTemp c) := by
  refine allocTemp_bind fun t => ?_
  exact ((loadConst t c).andThen (.pure (L := (· = v)) t)).congr Iff.rfl (by simp)

lemma callValue (receiver : Binding) (method : String) (args : List Binding) :
    Spends v (receiver = v ∨ v ∈ args) False
      (Construction.callValue receiver method args) (· = v) := by
  refine allocTemp_bind fun t => ?_
  exact ((call (some t) receiver method args).andThen
    (.pure (L := (· = v)) t)).congr Iff.rfl (by simp)

lemma readVariable (b : Binding) :
    Spends v (b = v) False (Construction.readVariable b) (· = v) := by
  refine allocTemp_bind fun t => ?_
  exact ((copy t b).andThen (.pure (L := (· = v)) t)).congr Iff.rfl (by simp)

lemma readVariable_other {b : Binding} (other : b ≠ v) : Gives v (Construction.readVariable b) :=
  (readVariable b).congr (by simp [other]) Iff.rfl

/-! ## What surrounds a node -/

variable {env : Environment} {info : Info}

section

variable {R W : Prop} {left : α → Prop} {f : Binding → Traced α}

/-- A binding that is given and is not the one in question. -/
lemma pure_bind_other {b : Binding} (other : b ≠ v) (hf : ∀ b, b ≠ v → Spends v R W (f b) left) :
    Spends v R W ((pure b : Traced Binding) >>= f) left := by
  change Spends v R W (f b) left
  exact hf b other

lemma failAt_bind (info : Info) (fault : LowerFault) :
    Spends v R W ((Construction.failAt info fault : Traced Binding) >>= f) left := by
  intro c T d a s' V rooted h
  obtain ⟨_, _, _, _, failed, -⟩ := WalkT.Ends.of_bind_ok h
  exact nomatch (WalkT.ends_failAt.1 failed).1

lemma selfBinding_bind (tag : String) (clean : ∀ b ∈ info.bindings, b ≠ v)
    (hf : ∀ b, b ≠ v → Spends v R W (f b) left) :
    Spends v R W (Construction.selfBinding info tag >>= f) left := by
  unfold Construction.selfBinding
  cases hs : info.scope with
  | some scope => exact pure_bind_other (clean _ (Info.self_mem_bindings hs)) hf
  | none => exact failAt_bind info _

lemma resolved_bind (tag : String) (clean : ∀ b ∈ info.bindings, b ≠ v)
    (hf : ∀ b, b ≠ v → Spends v R W (f b) left) :
    Spends v R W (Construction.resolved info tag >>= f) left := by
  unfold Construction.resolved
  cases hb : info.binding with
  | some b => exact pure_bind_other (clean _ (Info.variable_mem_bindings hb)) hf
  | none => exact failAt_bind info _

lemma wellKnown_bind (clean : ∀ name b, env.types name = some b → b ≠ v) (info : Info)
    (name : String) (hf : ∀ b, b ≠ v → Spends v R W (f b) left) :
    Spends v R W (Construction.wellKnown env info name >>= f) left := by
  unfold Construction.wellKnown
  cases hb : env.types name with
  | some b => exact pure_bind_other (clean name b hb) hf
  | none => exact failAt_bind info _

end

lemma selfTemp (tag : String) (clean : ∀ b ∈ info.bindings, b ≠ v) :
    Gives v (Construction.selfTemp info tag) :=
  selfBinding_bind tag clean fun _ other => readVariable_other other

/-! ## Results -/

variable {x y : Traced Binding} {z : Traced Unit} {R W : Prop} (result : Option Binding)

lemma into (hx : Gives v x) (hz : Ignores v z) :
    Clears v False (result = some v) (Construction.into result x z) := by
  cases result with
  | some dest =>
    refine feed hx fun w => ?_
    exact (copy dest w).congr (by simp) (by simp)
  | none => exact WalkT.Spends.congr hz Iff.rfl (by simp)

lemma deliver (w : Binding) :
    Clears v (result ≠ none ∧ w = v) (result = some v) (Construction.deliver result w) := by
  cases result with
  | some dest => exact (copy dest w).congr (by simp) (by simp)
  | none => exact (WalkT.Spends.pure ()).congr (by simp) (by simp)

lemma deliverNil : Clears v False (result = some v) (Construction.deliverNil result) := by
  cases result with
  | some dest => exact (loadConst dest .nil).congr Iff.rfl (by simp)
  | none => exact (WalkT.Spends.pure ()).congr Iff.rfl (by simp)

lemma nothingElse : Alternative.Spends v (result = some v)
    (Construction.nothingElse result : Alternative Traced) := by
  cases result with
  | some dest => exact (loadConst dest .nil).congr Iff.rfl (by simp)
  | none => trivial

/-! ## Assignments and operators -/

/-- The value of an assignment has been read, so it may be left or not. -/
lemma assignVariable {target : Info} (clean : ∀ b ∈ target.bindings, b ≠ v) (hx : Gives v x)
    (left : Binding → Prop) (hl : ∀ w, left w → w = v) :
    Spends v False False (Construction.assignVariable target x) left := by
  refine resolved_bind "var-field" clean fun slot hs => ?_
  refine feed hx fun w => ?_
  refine ((copy slot w).andThen (WalkT.Spends.pure (L := left) w)).congr ?_ (by simp [hs])
  have := hl w
  tauto

lemma assignField (name : String) (hx : Gives v x) (hy : Gives v y) (left : Binding → Prop)
    (hl : ∀ w, left w → w = v) : Spends v False False (Construction.assignField x name y) left := by
  refine feed hx fun r => ?_
  refine feed hy fun w => ?_
  refine ((call none r (name ++ "=") [w]).andThen (WalkT.Spends.pure (L := left) w)).congr ?_ (by simp)
  have := hl w
  simp only [List.mem_singleton, @eq_comm _ v w]
  tauto

lemma decideOrEvaluate (op : BinaryOp) (lhs result : Binding) (hz : Clears v R (result = v) z) :
    Clears v (lhs = v ∨ R) (result = v) (Construction.decideOrEvaluate op lhs result z) :=
  (WalkT.Spends.twoWays (.pure (L := (· = v)) lhs) _ (copy result lhs) hz).congr (by tauto) (by tauto)

lemma skipOrEvaluate (op : BinaryOp) (lhs : Binding) (hz : Clears v R W z) :
    Clears v (lhs = v ∨ R) W (Construction.skipOrEvaluate op lhs z) :=
  WalkT.Spends.detour lhs _ hz

/-- The value of a walk is copied. -/
lemma copyValue (dest : Binding) (hx : Spends v R False x (· = v)) :
    Clears v R (dest = v) (do Construction.copy dest (← x) : Traced Unit) :=
  (WalkT.Spends.bind hx (P := False) (Q := dest = v) fun w =>
    (copy dest w).congr (by simp) Iff.rfl).congr (by simp) (by simp)

lemma shortCircuit (op : BinaryOp) (lhs : Binding) (hx : Gives v x) (hz : Ignores v z) :
    Clears v (lhs = v) (result = some v) (Construction.shortCircuit op lhs result x z) := by
  cases result with
  | some dest =>
    exact (decideOrEvaluate op lhs dest (copyValue dest hx)).congr (by simp) (by simp)
  | none => exact (skipOrEvaluate op lhs hz).congr (by simp) (by simp)

lemma updateField (op : BinaryOp) (name : String) (hx : Gives v x) (hy : Gives v y) :
    Clears v False (result = some v) (Construction.updateField op x name y result) := by
  refine feed hx fun r => ?_
  refine ((callValue r name []).bind (P := r = v) (Q := result = some v) fun current => ?_).congr
    (by simp) (by simp)
  cases op.shortCircuits with
  | true =>
    have evaluate : Clears v (r = v) (result = some v) (y >>= fun w =>
        Construction.callSetter r name w >>= fun _ => Construction.deliver result w) := by
      refine feed hy fun w => ?_
      refine ((call none r (name ++ "=") [w]).andThen (deliver result w)).congr ?_ (by simp)
      simp only [List.mem_singleton, @eq_comm _ v w]
      tauto
    cases result with
    | some dest =>
      exact (decideOrEvaluate op current dest (evaluate.congr Iff.rfl (by simp))).congr
        Iff.rfl (by simp)
    | none => exact skipOrEvaluate op current evaluate
  | false =>
    refine feed hy fun w => ?_
    refine ((callValue current op.method [w]).bind (P := r = v) (Q := result = some v)
      fun combined => ?_).congr ?_ (by simp)
    · refine ((call none r (name ++ "=") [combined]).andThen (deliver result combined)).congr ?_
        (by simp)
      simp only [List.mem_singleton, @eq_comm _ v combined]
      tauto
    · simp only [List.mem_singleton, @eq_comm _ v w]
      tauto

lemma combineInto (combined : Binding) (op : BinaryOp) {slot : Binding} (clean : slot ≠ v)
    (current : Binding) (hx : Gives v x) :
    Clears v (current = v ∨ combined = v) (combined = v)
      (Construction.combineInto combined op slot current x) := by
  refine ((decideOrEvaluate op current combined (copyValue combined hx)).andThen
    (copy slot combined)).congr (by tauto) (by simp [clean])

/-- A result that combines the operands is read again to be assigned. -/
lemma updateVariable (op : BinaryOp) {target : Info} (clean : ∀ b ∈ target.bindings, b ≠ v)
    (hx : Gives v x) :
    Clears v (op.shortCircuits = true ∧ result = some v) (result = some v)
      (Construction.updateVariable op target x result) := by
  refine resolved_bind "var-field" clean fun slot hs => ?_
  refine feed (readVariable_other hs) fun current => ?_
  cases op.shortCircuits with
  | true =>
    cases result with
    | some dest => exact (combineInto dest op hs current hx).congr (by simp) (by simp)
    | none =>
      refine allocTemp_bind fun combined => ?_
      exact (combineInto combined op hs current hx).congr (by simp) (by simp)
  | false =>
    refine feed hx fun w => ?_
    refine ((callValue current op.method [w]).bind (P := False) (Q := result = some v)
      fun combined => ?_).congr ?_ (by simp)
    · exact ((deliver result combined).andThen (copy slot combined)).congr (by tauto) (by simp [hs])
    · simp only [List.mem_singleton, @eq_comm _ v w]
      tauto

lemma returnValue (info : Info) (hx : Gives v x) : Ignores v (Construction.returnValue info x) := by
  refine WalkT.Spends.jumpOut info .return ?_
  refine feed hx fun w => ?_
  refine (WalkT.Spends.emit (.ret w) ?_).congr ?_ ?_ <;>
    simp [Instruction.bindings, Instruction.reads, Instruction.dest?, eq_comm]

/-! ## Calls and arrays -/

lemma pushValue (array w : Binding) :
    Clears v (array = v ∨ w = v) False (Construction.pushValue array w) :=
  (call none array "<<" [w]).congr (by simp [eq_comm]) (by simp)

/-- An array is read by what fills it, if anything does. -/
lemma aggregate (clean : ∀ name b, env.types name = some b → b ≠ v) (info : Info)
    {fill : Binding → Binding → Traced Unit} {P : Prop}
    (hfill : ∀ klass array, klass ≠ v → Clears v (P ∧ array = v) False (fill klass array)) :
    Gives v (Construction.aggregate env info fill) := by
  refine wellKnown_bind clean info "Array" fun klass hk => ?_
  refine ((callValue klass "new" []).bind (P := False) (Q := False) fun array => ?_).congr
    (by simp [hk]) (by simp)
  exact (WalkT.Spends.andThen (hfill klass array hk) (.pure (L := (· = v)) array)).congr (by tauto)
    (by simp)

lemma convert (klass w : Binding) (method : String) :
    Spends v (klass = v ∨ w = v) False (Construction.convert klass w method) (· = v) := by
  refine allocTemp_bind fun result => ?_
  have isArray : Spends v (klass = v ∨ v ∈ [w]) False
      (Construction.callValue klass "===" [w]) (· = v) :=
    callValue klass "===" [w]
  have ways := WalkT.Spends.twoWays isArray false (copyValue result (callValue w method []))
    (copy result w)
  refine (ways.andThen (.pure (L := (· = v)) result)).congr ?_ (by simp)
  simp only [List.mem_singleton, List.not_mem_nil, @eq_comm _ v w]
  tauto

lemma spliceValue (klass array w : Binding) :
    Clears v (klass = v ∨ array = v ∨ w = v) False (Construction.spliceValue klass array w) := by
  refine ((convert klass w "to_a").bind (P := array = v) (Q := False) fun items => ?_).congr (by tauto)
    (by simp)
  exact (call none array "concat" [items]).congr (by simp [or_comm, eq_comm]) (by simp)

lemma readParameters {ps : List Parameter} (clean : ∀ p ∈ ps, p.binding ≠ v) :
    Spends v False False (Construction.readParameters ps) fun vs => v ∈ vs := by
  induction ps with
  | nil => exact (WalkT.Spends.pure []).congr (by simp) Iff.rfl
  | cons p ps ih =>
    obtain ⟨first, others⟩ := List.forall_mem_cons.1 clean
    refine feed (readVariable_other first) fun w => ?_
    refine feed (ih others) fun ws => ?_
    exact (WalkT.Spends.pure (w :: ws)).congr (by simp [eq_comm, or_comm]) Iff.rfl

lemma pushParameters (array : Binding) {ps : List Parameter} (clean : ∀ p ∈ ps, p.binding ≠ v) :
    Clears v (ps ≠ [] ∧ array = v) False (Construction.pushParameters array ps) := by
  induction ps with
  | nil => exact (WalkT.Spends.pure ()).congr (by simp) Iff.rfl
  | cons p ps ih =>
    obtain ⟨first, others⟩ := List.forall_mem_cons.1 clean
    refine feed (readVariable_other first) fun w => ?_
    exact ((pushValue array w).andThen (ih others)).congr (by tauto) (by simp)

lemma passParameters (clean : ∀ name b, env.types name = some b → b ≠ v) (info : Info)
    {method : Signature} (params : ∀ p ∈ method.params, p.binding ≠ v) :
    Spends v False False (Construction.passParameters env info method) fun a => v ∈ a.bindings := by
  have positional : ∀ p ∈ method.positional, p.binding ≠ v :=
    fun p hp => params p (List.mem_filter.1 hp).1
  unfold Construction.passParameters
  cases method.restIndex? with
  | none =>
    refine feed (readParameters positional) fun ws => ?_
    exact (WalkT.Spends.pure (Arguments.positional ws)).congr (by simp [Arguments.bindings]) Iff.rfl
  | some rest =>
    have taken : ∀ p ∈ method.positional.take rest, p.binding ≠ v :=
      fun p hp => positional p (List.mem_of_mem_take hp)
    have dropped : ∀ p ∈ method.positional.drop rest, p.binding ≠ v :=
      fun p hp => positional p (List.mem_of_mem_drop hp)
    refine feed (aggregate (P := method.positional.take rest ≠ [] ∨
      method.positional.drop rest ≠ []) clean info fun klass array hk => ?_) fun array => ?_
    · generalize method.positional.drop rest = qs at dropped ⊢
      cases qs with
      | nil =>
        exact ((pushParameters array taken).andThen (.idle ())).congr (by simp)
          (by simp)
      | cons p ps =>
        obtain ⟨first, others⟩ := List.forall_mem_cons.1 dropped
        have spliced : Clears v (array = v) False (do
            let starred ← Construction.readVariable p.binding
            Construction.spliceValue klass array starred
            Construction.pushParameters array ps : Traced Unit) := by
          refine feed (readVariable_other first) fun w => ?_
          refine ((spliceValue klass array w).andThen (pushParameters array others)).congr ?_ (by simp)
          simp only [hk, false_or]
          tauto
        refine ((pushParameters array taken).andThen spliced).congr ?_ (by simp)
        simp only [List.cons_ne_nil, ne_eq, not_false_iff]
        tauto
    · exact (WalkT.Spends.pure (Arguments.vararg array)).congr
        (by simp [Arguments.bindings, eq_comm]) Iff.rfl

/-- The body of a block literal is spent, and its parameters are other bindings. -/
def LiteralSpends (v : Binding) : Construction.BlockLiteral Traced → Prop
  | .present params body =>
    (∀ p ∈ params, p.binding ≠ v) ∧ Spends v False False body (· = v)
  | _ => True

lemma send (info : Info) (dest : Option Binding) (callee : Callee) {args : Traced Arguments}
    {pass : Option (Traced Binding)} {block : Construction.BlockLiteral Traced}
    (hargs : Spends v False False args fun a => v ∈ a.bindings)
    (hpass : ∀ x ∈ pass, Gives v x) (hblock : LiteralSpends v block) :
    Clears v (v ∈ callee.bindings) (dest = some v)
      (Construction.send info dest callee args pass block) := by
  cases block with
  | absent =>
    refine feed hargs fun values => ?_
    cases pass with
    | none =>
      refine (emit (.send dest callee values .absent) rfl (Instruction.named (by simp))).congr ?_
        Iff.rfl
      simp [Instruction.reads, BlockOperand.bindings, or_comm]
    | some x =>
      refine feed (hpass x rfl) fun w => ?_
      refine (emit (.send dest callee values (.value w)) rfl (Instruction.named (by simp))).congr ?_
        Iff.rfl
      simp only [Instruction.reads, BlockOperand.bindings, List.mem_append, List.mem_singleton,
        @eq_comm _ v w]
      tauto
  | present params body =>
    cases pass with
    | none =>
      exact (WalkT.Spends.blockCall hblock.1 dest callee hargs hblock.2).congr (by simp) (by simp)
    | some x => exact WalkT.Spends.failAt info _
  | misplaced blockInfo tag =>
    cases pass with
    | none => exact WalkT.Spends.failAt blockInfo _
    | some x => exact WalkT.Spends.failAt info _

/-! ## Cases -/

/-- The subject of a `case` is read by its tests, unless there are none. -/
lemma select {subject : Traced Binding} {clauses : Binding → Clauses Traced} (hs : Gives v subject)
    (hc : ∀ w, Clauses.Spends v (w = v) W (clauses w)) :
    Clears v False W (Construction.select subject clauses) := by
  have tested : WalkT.Spends v False False (WalkT.observed subject clauses)
      fun w => w = v ∧ Clauses.isBare (m := Noting) (clauses w) = false :=
    feed hs fun w => (WalkT.Spends.noticed Iff.rfl).congr (by simp) Iff.rfl
  change WalkT.Spends v False W (WalkT.select (WalkT.observed subject clauses) clauses) _
  refine WalkT.Spends.skip .createBlock fun after => ?_
  refine tested.feed fun w => ?_
  exact ((WalkT.Spends.clauses after (hc w)).followed (.startBlock after)).congr (by simp) Iff.rfl

end

end Traced

end ControlFlow
