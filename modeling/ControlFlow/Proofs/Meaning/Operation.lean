import ControlFlow.Lowering.Node
import ControlFlow.Proofs.Meaning.Construct
import ControlFlow.Proofs.Meaning.Evaluator
/-!
# Operations do what their evaluation does

One lemma for each operation that lowering is made of: constants, variables, calls, arrays,
assignments and operators.
-/

namespace ControlFlow.Meaning

variable {bs : List Binding} {vs : List Value} {callee : ControlFlow.Callee} {recipient : Callee}

namespace Facts

/-- Bindings hold values, one by one. No state has more or fewer values than bindings. -/
def all : List Binding → List Value → Facts
  | [], [] => ∅
  | b :: bs, v :: vs => insert (b, v) (all bs vs)
  | _, _ => Set.univ

@[simp] lemma all_nil : all [] [] = ∅ := rfl

@[simp] lemma all_cons (b : Binding) (bs : List Binding) (v : Value) (vs : List Value) :
    all (b :: bs) (v :: vs) = insert (b, v) (all bs vs) := rfl

/-- The arguments of an instruction hold those of a call. -/
def args : ControlFlow.Arguments → Arguments → Facts
  | .positional bs, .positional vs => all bs vs
  | .vararg b, .vararg v => {(b, v)}
  | _, _ => Set.univ

/-- An instruction calls whom a call is sent to. -/
inductive Calls (Γ : Facts) : ControlFlow.Callee → Callee → Prop where
  | method {r : Binding} {v : Value} {name : String} (h : (r, v) ∈ Γ) :
      Calls Γ (.method r name) (.method v name)
  | super : Calls Γ .super .super

lemma Calls.mono {Γ Δ : Facts} (h : Calls Γ callee recipient) (hΔ : Γ ⊆ Δ) :
    Calls Δ callee recipient := by
  cases h with
  | method h => exact .method (hΔ h)
  | super => exact .super

section

variable {Γ : Facts} {s : State} {a : ControlFlow.Arguments}
  (look : ∀ b v, (b, v) ∈ Γ → s.lookup b = v)

include look

/-- Not everything can be a fact. -/
lemma not_univ_subset : ¬ Set.univ ⊆ Γ := fun h => by
  have held : ∀ v, s.lookup (.temporary 0) = v := fun v => look _ v (h trivial)
  exact absurd ((held .nil).symm.trans (held (.object 0))) (by decide)

lemma map_lookup (h : all bs vs ⊆ Γ) : bs.map s.lookup = vs := by
  induction bs generalizing vs with
  | nil =>
    cases vs with
    | nil => rfl
    | cons v vs => exact absurd h (not_univ_subset look)
  | cons b bs ih =>
    cases vs with
    | nil => exact absurd h (not_univ_subset look)
    | cons v vs =>
      obtain ⟨first, rest⟩ := Set.insert_subset_iff.1 h
      rw [List.map_cons, look b v first, ih rest]

lemma args_callOf {vs : Arguments} (h : args a vs ⊆ Γ) (callee : ControlFlow.Callee)
    (block : BlockOperand) : (s.callOf callee a block).args = vs := by
  cases a <;> cases vs
  · exact congrArg Arguments.positional (map_lookup look h)
  · exact absurd h (not_univ_subset look)
  · exact absurd h (not_univ_subset look)
  · exact congrArg Arguments.vararg (look _ _ (h rfl))

lemma Calls.callOf (h : Calls Γ callee recipient) {vs : Arguments} (ha : args a vs ⊆ Γ)
    (block : BlockOperand) :
    s.callOf callee a block = ⟨recipient, vs, (s.callOf callee a block).block⟩ := by
  rw [← args_callOf look ha callee block]
  cases h with
  | method h => simp only [State.callOf, look _ _ h]
  | super => rfl

end

end Facts

/-- A call passes no block, or a value as its block. -/
inductive Passes (oracle : Oracle) (fuel : Nat) :
    Option (Plan Binding) → Eval (Option Value) → Prop where
  | none : Passes oracle fuel none (pure none)
  | some {x : Plan Binding} {e : Eval Value} (h : ∀ Γ, Sim oracle fuel Γ ∅ x e Sim.holds) :
      Passes oracle fuel (some x) (e >>= fun v => pure (some v))

/-- The bindings that a construct with an optional result writes. -/
def dests (result : Option Binding) : Set Binding := {d | d ∈ result}

@[simp] lemma dests_some (d : Binding) : dests (some d) = {d} := by
  ext b
  simp [dests, eq_comm]

@[simp] lemma dests_none : dests none = ∅ := by
  ext b
  simp [dests]

namespace Sim

variable {types : String → Option Binding} {oracle : Oracle} {fuel : Nat} {α β γ δ : Type}
  {Γ : Facts} {D : Set Binding} {e : Eval Value} {f : Binding → Plan δ} {out : δ → β → Facts}

/-! ## Temporaries, constants and variables -/

/-- Something that fills a new temporary. -/
lemma inTemp {x : Binding → Plan Unit}
    (hx : ∀ d, Sim oracle fuel Γ {d} (x d) e (fun _ v => {(d, v)})) :
    Sim oracle fuel Γ D (Construction.allocTemp >>= fun d => x d >>= fun _ => Pure.pure d) e
      holds := by
  refine alloc fun d => ?_
  have filled : ∀ (_ : Unit) (v : Value),
      Sim oracle fuel (Γ ∪ {(d, v)}) ∅ (Pure.pure d) (Pure.pure v) holds :=
    fun _ v => pure Set.subset_union_right
  have h := bindTo (D := insert d D) (hx d) filled (by simp) (Set.empty_subset _)
    (Set.disjoint_empty _)
  rwa [bind_pure] at h

lemma constTemp (c : Constant) :
    Sim oracle fuel Γ D (Construction.constTemp c) (Pure.pure (.constant c)) holds :=
  inTemp fun _ => loadConst c rfl

lemma readVariable {b : Binding} (hb : b.kind ≠ .temporary) :
    Sim oracle fuel Γ D (Construction.readVariable b) (Eval.read b) holds :=
  inTemp fun _ => copyVariable rfl hb

/-- Something that is there from the start. -/
lemma afterPure {a : α} {f : α → Plan δ} {e : Eval β} (h : Sim oracle fuel Γ D (f a) e out) :
    Sim oracle fuel Γ D (Pure.pure a >>= f) e out where
  counts := by
    rintro K t r c t' ⟨_, _, _, q, ⟨rfl, rfl, rfl⟩, hq, rfl⟩
    exact h.counts hq
  runs := by
    rintro Δ K t r c t' hΔ ⟨_, _, _, q, ⟨rfl, rfl, rfl⟩, hq, rfl⟩ below free s hs
    exact (h.runs hΔ hq below free s hs).within fun _ _ run => Or.inl ⟨s, ⟨rfl, rfl⟩, run⟩

variable {info : Info} {r : Binding} {env : Environment} {receiver : Plan Binding}

/-- Nothing follows a failure. -/
lemma afterFailure {fault : LowerFault} {f : α → Plan δ} {e : Eval β} :
    Sim oracle fuel Γ D (Construction.failAt info fault >>= f) e out :=
  impossible fun _ _ _ _ _ ⟨_, _, _, _, h, _⟩ => h

/-- Something that is done with the variable of `self`. -/
lemma withSelf {tag : String} {g : Value → Eval β}
    (h : ∀ scope ∈ info.scope,
      Sim oracle fuel Γ D (f scope.self) (Eval.read scope.self >>= g) out) :
    Sim oracle fuel Γ D (Construction.selfBinding info tag >>= f) (self info >>= g) out := by
  unfold Construction.selfBinding self
  cases hs : info.scope with
  | none => exact afterFailure
  | some scope => exact afterPure (h scope hs)

lemma selfTemp (tag : String) (hi : ∀ b ∈ info.bindings, b.kind ≠ .temporary) :
    Sim oracle fuel Γ D (Construction.selfTemp info tag) (self info) holds := by
  rw [← bind_pure (self info)]
  refine withSelf fun scope hs => ?_
  rw [bind_pure]
  exact readVariable (hi _ (Info.self_mem_bindings hs))

/-- Something that is done with the variable of a node. -/
lemma withSlot {tag : String} {e : Eval β}
    (h : ∀ b ∈ info.binding, Sim oracle fuel Γ D (f b) e out) :
    Sim oracle fuel Γ D (Construction.resolved info tag >>= f) e out := by
  unfold Construction.resolved
  cases hb : info.binding with
  | none => exact afterFailure
  | some b => exact afterPure (h b hb)

/-- Something that is done with a registered type. -/
lemma withType {name : String} {e : Eval β}
    (h : ∀ b ∈ env.types name, Sim oracle fuel Γ D (f b) e out) :
    Sim oracle fuel Γ D (Construction.wellKnown env info name >>= f) e out := by
  unfold Construction.wellKnown
  cases hb : env.types name with
  | none => exact afterFailure
  | some b => exact afterPure (h b hb)

/-! ## Calls -/

variable {dest : Option Binding} {evaluate effect : Plan Unit} {ps : List Parameter}
  {e' : Eval Value}

/-- A method is called on a temporary. -/
lemma call {v : Value} (name : String) (hd : ∀ d ∈ dest, d ∈ D) (hr : (r, v) ∈ Γ)
    (hv : Facts.all bs vs ⊆ Γ) :
    Sim oracle fuel Γ D (Construction.call dest r name bs) (method oracle v name vs)
      (fun _ v => Facts.of dest v) :=
  send hd fun s look => by
    simp only [method, State.callOf, look r v hr, Facts.map_lookup look hv]

/-- A method is called on a variable. -/
lemma callOn (name : String) (hd : ∀ d ∈ dest, d ∈ D) (hr : r.kind ≠ .temporary)
    (hv : Facts.all bs vs ⊆ Γ) :
    Sim oracle fuel Γ D (Construction.call dest r name bs)
      (Eval.read r >>= fun v => method oracle v name vs) (fun _ v => Facts.of dest v) := by
  refine send hd fun s look => ?_
  have read : Eval.read r s.world = (.done (s.lookup r), s.world) := by
    rw [Eval.read, dif_pos hr, s.lookup_variable hr]
  rw [Eval.bind_done read]
  simp only [method, State.callOf, Facts.map_lookup look hv]

lemma callValue {v : Value} (name : String) (hr : (r, v) ∈ Γ) (hv : Facts.all bs vs ⊆ Γ) :
    Sim oracle fuel Γ D (Construction.callValue r name bs) (method oracle v name vs) holds :=
  inTemp fun d => (call name (by simp) hr hv).mono subset_rfl subset_rfl (by simp)

lemma callValueOn (name : String) (hr : r.kind ≠ .temporary)
    (hv : Facts.all bs vs ⊆ Γ) :
    Sim oracle fuel Γ D (Construction.callValue r name bs)
      (Eval.read r >>= fun v => method oracle v name vs) holds :=
  inTemp fun d => (callOn name (by simp) hr hv).mono subset_rfl subset_rfl (by simp)

/-! ## Arrays -/

variable {array b klass : Binding} {a v : Value}

lemma pushValue (ha : (array, a) ∈ Γ) (hb : (b, v) ∈ Γ) :
    Sim oracle fuel Γ D (Construction.pushValue array b) (push oracle a v) (fun _ _ => ∅) :=
  (call "<<" (by simp) ha (by simpa using hb)).map fun _ _ => Set.empty_subset _

/-- The value of a variable that is a class, and the answer to whether another value is of it. -/
lemma convert (name : String) (hk : klass.kind ≠ .temporary) (hb : (b, v) ∈ Γ) :
    Sim oracle fuel Γ D (Construction.convert klass b name)
      ((Eval.read klass >>= fun k => method oracle k "===" [v]) >>= fun is =>
        if is.truthy = false then method oracle v name [] else Pure.pure v) holds :=
  inTemp fun d => twoWays (callValueOn "===" hk (by simpa using hb))
    (fun _ _ => andThen (callValue name (Or.inl hb) (by simp)) fun _ _ => copy rfl (Or.inr rfl))
    fun _ _ => copy rfl (Or.inl hb)

lemma spliceValue (hk : klass.kind ≠ .temporary) (ht : types "Array" = some klass)
    (ha : (array, a) ∈ Γ) (hb : (b, v) ∈ Γ) :
    Sim oracle fuel Γ D (Construction.spliceValue klass array b) (splice types oracle a v)
      (fun _ _ => ∅) := by
  have converted : splice types oracle a v =
      ((Eval.read klass >>= fun k => method oracle k "===" [v]) >>= fun is =>
        if is.truthy = false then method oracle v "to_a" [] else Pure.pure v) >>= fun items =>
          method oracle a "concat" [items] >>= fun _ => Pure.pure () := by
    simp only [splice, registered, ht, bind_assoc]
    refine bind_congr fun k => bind_congr fun is => ?_
    cases is.truthy <;> rfl
  rw [converted]
  exact bind (convert "to_a" hk hb) fun items _ =>
    (call "concat" (by simp) (Or.inl ha) (by simp)).map fun _ _ => Set.empty_subset _

lemma aggregate (info : Info) (htypes : ∀ name, ∀ b ∈ env.types name, b.kind ≠ .temporary)
    {fill : Binding → Binding → Plan Unit} {elements : Value → Eval Unit}
    (hf : ∀ klass array a, env.types "Array" = some klass → klass.kind ≠ .temporary →
      Sim oracle fuel (Γ ∪ holds array a) ∅ (fill klass array) (elements a) (fun _ _ => ∅)) :
    Sim oracle fuel Γ D (Construction.aggregate env info fill)
      (Meaning.array env.types oracle elements) holds := by
  refine withType fun klass hk => ?_
  have kind := htypes _ _ hk
  have made : newArray env.types oracle = Eval.read klass >>= fun k => method oracle k "new" [] := by
    simp only [newArray, registered, Option.mem_def.1 hk]
  rw [Meaning.array, made]
  exact bind (callValueOn "new" kind (by simp)) fun array a =>
    bind (hf klass array a hk kind) fun _ _ => pure (by simp)

/-! ## Results -/

variable {result : Option Binding}

/-- A construct that fills its result, if there is one. -/
abbrev Fills (oracle : Oracle) (fuel : Nat) (Γ : Facts) (result : Option Binding) (p : Plan Unit)
    (e : Eval Value) : Prop :=
  Sim oracle fuel Γ (dests result) p e (fun _ v => Facts.of result v)

lemma into {value : Plan Binding} {e : Bool → Eval Value}
    (hv : Sim oracle fuel Γ ∅ value (e true) holds)
    (he : Sim oracle fuel Γ ∅ effect (e false) (fun _ _ => ∅)) :
    Fills oracle fuel Γ result (Construction.into result value effect) (e result.isSome) := by
  cases result with
  | none => exact he.mono subset_rfl (by simp) (by simp)
  | some d =>
    refine andThen hv fun b v => (copy ?_ (Or.inr rfl)).mono subset_rfl subset_rfl (by simp)
    simp

lemma deliverKnown (hb : (b, v) ∈ Γ) :
    Sim oracle fuel Γ (dests result) (Construction.deliver result b) (Pure.pure () : Eval Unit)
      (fun _ _ => Facts.of result v) := by
  cases result with
  | none => exact pure (by simp)
  | some d => exact (copyKnown (by simp) hb).mono subset_rfl subset_rfl (by simp)

lemma deliver (hb : (b, v) ∈ Γ) :
    Fills oracle fuel Γ result (Construction.deliver result b) (Pure.pure v) :=
  (deliverKnown hb).map (f := fun _ => v) fun _ _ => Set.subset_union_right

lemma deliverNil :
    Fills oracle fuel Γ result (Construction.deliverNil result) (Pure.pure .nil) := by
  cases result with
  | none => exact pure (by simp)
  | some d => exact (loadConst .nil (by simp)).mono subset_rfl subset_rfl (by simp)

lemma nothingElse :
    SimAlternative oracle fuel Γ (dests result) (fun _ v => Facts.of result v)
      (Construction.nothingElse result) (Pure.pure .nil) := by
  cases result with
  | none => exact .nothing (by simp)
  | some d => exact .last ((loadConst .nil (by simp)).mono subset_rfl subset_rfl (by simp))

/-! ## Assignments and operators -/

lemma callSetter (name : String) (hr : (r, a) ∈ Γ) (hb : (b, v) ∈ Γ) :
    Sim oracle fuel Γ D (Construction.callSetter r name b) (setter oracle a name v)
      (fun _ _ => ∅) :=
  (call _ (by simp) hr (by simpa using hb)).map fun _ _ => Set.empty_subset _

lemma fill_eq (hb : info.binding = some b) (v : Value) : fill info v = Eval.write b v := by
  simp only [fill, hb]

variable {target : Info} {value : Plan Binding}

lemma assignVariable (ht : ∀ b ∈ target.bindings, b.kind ≠ .temporary)
    (hv : Sim oracle fuel Γ ∅ value e holds) :
    Sim oracle fuel Γ D (Construction.assignVariable target value)
      (e >>= fun v => fill target v >>= fun _ => Pure.pure v) holds := by
  refine withSlot fun slot hs => bind hv fun b v => ?_
  rw [fill_eq hs]
  exact bind (copyTo (ht _ (Info.variable_mem_bindings hs)) (Or.inr rfl)) fun _ _ => pure (by simp)

lemma assignField (name : String) (hr : Sim oracle fuel Γ ∅ receiver e' holds)
    (hv : ∀ Γ, Sim oracle fuel Γ ∅ value e holds) :
    Sim oracle fuel Γ D (Construction.assignField receiver name value)
      (e' >>= fun r => e >>= fun v => setter oracle r name v >>= fun _ => Pure.pure v) holds :=
  bind hr fun _ _ => bind (hv _) fun _ _ =>
    bind (callSetter name (by simp) (by simp)) fun _ _ => pure (by simp)

variable {op : BinaryOp}

lemma decideOrEvaluate {d : Binding} (hb : (b, v) ∈ Γ)
    (he : Sim oracle fuel Γ {d} evaluate e (fun _ v => {(d, v)})) :
    Sim oracle fuel Γ {d} (Construction.decideOrEvaluate op b d evaluate)
      (if decides op v then Pure.pure v else e) (fun _ v => {(d, v)}) := by
  have h : Sim oracle fuel Γ {d} (Construction.decideOrEvaluate op b d evaluate)
      ((Pure.pure v : Eval Value) >>= fun v' =>
        if v'.truthy = decide (op = .or) then Pure.pure v else e) (fun _ v => {(d, v)}) :=
    twoWays (pure (by simpa using hb)) (fun _ _ => copy rfl (Or.inl hb)) fun _ _ => behind he
  rw [pure_bind] at h
  simpa only [decides, decide_eq_true_eq] using h

lemma skipOrEvaluate (hb : (b, v) ∈ Γ) (he : Sim oracle fuel Γ D evaluate e (fun _ _ => ∅)) :
    Sim oracle fuel Γ D (Construction.skipOrEvaluate op b evaluate)
      (if decides op v then Pure.pure v else e) (fun _ _ => ∅) := by
  have h : Sim oracle fuel Γ D (Construction.skipOrEvaluate op b evaluate)
      (if v.truthy = decide (op ≠ .or) then e else Pure.pure v) (fun _ _ => ∅) :=
    detour hb he (Set.empty_subset _)
  have same : (v.truthy = decide (op ≠ .or)) ↔ ¬ decides op v = true := by
    simp only [decides, decide_eq_true_eq]
    cases v.truthy <;> simp
  rw [if_congr same rfl rfl, ite_not] at h
  exact h

lemma shortCircuit {e : Bool → Eval Value} (hb : (b, v) ∈ Γ)
    (hv : Sim oracle fuel Γ ∅ value (e true) holds)
    (he : Sim oracle fuel Γ ∅ effect (e false) (fun _ _ => ∅)) :
    Fills oracle fuel Γ result (Construction.shortCircuit op b result value effect)
      (if decides op v then Pure.pure v else e result.isSome) := by
  cases result with
  | none => exact (skipOrEvaluate hb he).mono subset_rfl (by simp) (by simp)
  | some d =>
    exact (decideOrEvaluate hb (andThen hv fun _ _ => copy rfl (Or.inr rfl))).mono subset_rfl
      (by simp) (by simp)

/-- The value of an attribute after an operator on it has been applied. -/
lemma updateField (name : String) (hr : Sim oracle fuel Γ ∅ receiver e' holds)
    (hv : ∀ Γ, Sim oracle fuel Γ ∅ value e holds) :
    Fills oracle fuel Γ result (Construction.updateField op receiver name value result)
      (e' >>= fun r => method oracle r name [] >>= fun current =>
        if op.shortCircuits then
          if decides op current then Pure.pure current
          else e >>= fun v => setter oracle r name v >>= fun _ => Pure.pure v
        else
          e >>= fun v => method oracle current op.method [v] >>= fun combined =>
            setter oracle r name combined >>= fun _ => Pure.pure combined) := by
  refine bind hr fun r rv => bind (callValue name (by simp) (by simp)) fun current cv => ?_
  have known : (r, rv) ∈ Γ ∪ holds r rv ∪ holds current cv := by simp
  have evaluated : Fills oracle fuel (Γ ∪ holds r rv ∪ holds current cv) result
      (value >>= fun v => Construction.callSetter r name v >>= fun _ =>
        Construction.deliver result v)
      (e >>= fun v => setter oracle rv name v >>= fun _ => Pure.pure v) :=
    bind (hv _) fun _ _ => bind (callSetter name (Or.inl known) (by simp)) fun _ _ =>
      deliver (by simp)
  cases op.shortCircuits with
  | true =>
    cases result with
    | none =>
      exact (skipOrEvaluate (by simp) (evaluated.mono subset_rfl subset_rfl (by simp))).mono
        subset_rfl subset_rfl (by simp)
    | some d =>
      simp only [Fills, dests_some, Facts.of_some] at evaluated ⊢
      exact decideOrEvaluate (by simp) evaluated
  | false =>
    exact bind (hv _) fun _ _ => bind (callValue op.method (by simp) (by simp)) fun _ _ =>
      bind (callSetter name (by simp) (by simp)) fun _ _ => deliver (by simp)

lemma combineInto {d slot : Binding} (hs : slot.kind ≠ .temporary) (hb : (b, v) ∈ Γ)
    (hv : Sim oracle fuel Γ ∅ value e holds) :
    Sim oracle fuel Γ {d} (Construction.combineInto d op slot b value)
      ((if decides op v then Pure.pure v else e) >>= fun combined =>
        Eval.write slot combined >>= fun _ => Pure.pure combined) (fun _ v => {(d, v)}) := by
  have combined : Sim oracle fuel Γ {d}
      (Construction.decideOrEvaluate op b d (value >>= fun v => Construction.copy d v))
      (if decides op v then Pure.pure v else e) (fun _ v => {(d, v)}) :=
    decideOrEvaluate hb (andThen hv fun _ _ => copy rfl (Or.inr rfl))
  refine bindTo combined (fun _ w => ?_) subset_rfl (Set.empty_subset _) (Set.disjoint_empty _)
  exact (copyTo hs (Or.inr rfl)).map fun _ _ => by simp

/-- A variable after an operator on it has been applied. -/
lemma updateVariable (ht : ∀ b ∈ target.bindings, b.kind ≠ .temporary)
    (hv : ∀ Γ, Sim oracle fuel Γ ∅ value e holds) :
    Fills oracle fuel Γ result (Construction.updateVariable op target value result)
      (slot target >>= fun current => combine oracle op current e >>= fun combined =>
        fill target combined >>= fun _ => Pure.pure combined) := by
  refine withSlot fun b hb => ?_
  have kind := ht _ (Info.variable_mem_bindings hb)
  have current : slot target = Eval.read b := by simp only [slot, Option.mem_def.1 hb]
  simp only [current, fill_eq hb]
  refine bind (readVariable kind) fun current cv => ?_
  unfold combine
  cases op.shortCircuits with
  | true =>
    cases result with
    | none =>
      refine alloc fun d => ?_
      exact (combineInto kind (by simp) (hv _)).mono subset_rfl (by simp) (by simp)
    | some d => exact (combineInto kind (by simp) (hv _)).mono subset_rfl (by simp) (by simp)
  | false =>
    simp only [Bool.false_eq_true, if_false, bind_assoc]
    refine bind (hv _) fun v vv => bind (callValue op.method (by simp) (by simp)) fun c cv' => ?_
    -- the result is filled before the variable
    have delivered : Sim oracle fuel (Γ ∪ holds current cv ∪ holds v vv ∪ holds c cv')
        (dests result) (Construction.deliver result c) (Pure.pure () : Eval Unit)
        (fun _ _ => Facts.of result cv') := deliverKnown (by simp)
    exact bindTo (g := fun _ => Eval.write b cv' >>= fun _ => Pure.pure cv') delivered
      (fun _ _ => (copyTo kind (by simp)).map fun _ _ => by simp) subset_rfl (Set.empty_subset _)
      (Set.disjoint_empty _)

lemma returnValue {out : Unit → Value → Facts} (hv : Sim oracle fuel Γ ∅ value e holds) :
    Sim oracle fuel Γ D (Construction.returnValue info value)
      (e >>= fun v => Eval.record v >>= fun _ => Eval.leave .return) out := by
  have recorded : Sim oracle fuel Γ ∅ (value >>= fun v => Construction.emit (.ret v) rfl)
      (e >>= fun v => Eval.record v) (fun _ _ => ∅) := bind hv fun _ _ => ret (by simp)
  rw [← bind_assoc]
  exact jumpOut recorded

/-! ## Sending -/

/-- A call with its arguments and the value that it passes as a block. -/
lemma sendTo (info : Info) {args : Plan ControlFlow.Arguments} {values : Eval Arguments}
    {pass : Option (Plan Binding)} {block : Eval (Option Value)} (hc : Γ.Calls callee recipient)
    (ha : Sim oracle fuel Γ ∅ args values Facts.args) (hb : Passes oracle fuel pass block) :
    Fills oracle fuel Γ result (Construction.send info result callee args pass .absent)
      (values >>= fun vs => block >>= fun b => Eval.call oracle ⟨recipient, vs, b⟩) := by
  refine bind ha fun bs vs => ?_
  cases hb with
  | none =>
    rw [pure_bind]
    refine send (fun d hd => hd) fun s look => ?_
    rw [(hc.mono Set.subset_union_left).callOf look Set.subset_union_right]
    rfl
  | some hx =>
    rw [bind_assoc]
    refine bind (hx _) fun b v => send (fun d hd => hd) fun s look => ?_
    have known : Facts.args bs vs ⊆ Γ ∪ Facts.args bs vs ∪ holds b v :=
      Set.subset_union_right.trans Set.subset_union_left
    rw [(hc.mono (Set.subset_union_left.trans Set.subset_union_left)).callOf look known]
    simp only [State.callOf, look b v (Or.inr rfl), pure_bind]

lemma arguments {ns : List Node} {spliced : Plan Binding} {plain : Plan (List Binding)}
    {vs : Eval (List Value)} (hs : Sim oracle fuel Γ ∅ spliced e holds)
    (hp : Sim oracle fuel Γ ∅ plain vs Facts.all) :
    Sim oracle fuel Γ D (Lowering.arguments ns spliced plain) (Meaning.arguments ns e vs)
      Facts.args := by
  unfold Lowering.arguments Meaning.arguments
  cases ns.any (·.isSplat) with
  | true => exact bind hs fun _ _ => pure Set.subset_union_right
  | false => exact bind hp fun _ _ => pure Set.subset_union_right

lemma readParameters (hp : ∀ p ∈ ps, p.binding.kind ≠ .temporary) :
    Sim oracle fuel Γ ∅ (Construction.readParameters ps) (parameters ps) Facts.all := by
  induction ps generalizing Γ with
  | nil => exact pure (by simp)
  | cons p ps ih =>
    rw [List.forall_mem_cons] at hp
    refine bind (readVariable hp.1) fun b v => bind (ih hp.2) fun bs vs => pure ?_
    rw [Facts.all_cons, Set.insert_subset_iff]
    exact ⟨by simp, Set.subset_union_right⟩

lemma pushParameters (hp : ∀ p ∈ ps, p.binding.kind ≠ .temporary) (ha : (array, a) ∈ Γ) :
    Sim oracle fuel Γ ∅ (Construction.pushParameters array ps)
      (Meaning.pushParameters oracle a ps) (fun _ _ => ∅) := by
  induction ps generalizing Γ with
  | nil => exact pure (Set.empty_subset _)
  | cons p ps ih =>
    rw [List.forall_mem_cons] at hp
    exact bind (readVariable hp.1) fun _ _ =>
      bind (pushValue (by simp [ha]) (by simp)) fun _ _ => ih hp.2 (by simp [ha])

lemma passParameters (info : Info) {m : Signature}
    (htypes : ∀ name, ∀ b ∈ env.types name, b.kind ≠ .temporary)
    (hp : ∀ p ∈ m.params, p.binding.kind ≠ .temporary) :
    Sim oracle fuel Γ ∅ (Construction.passParameters env info m) (passedOn env.types oracle m)
      Facts.args := by
  have hp : ∀ p ∈ m.positional, p.binding.kind ≠ .temporary :=
    fun p hm => hp p (List.mem_filter.1 hm).1
  unfold Construction.passParameters passedOn
  cases m.restIndex? with
  | none => exact bind (readParameters hp) fun _ _ => pure Set.subset_union_right
  | some rest =>
    refine bind (aggregate info htypes fun klass array a hk kind => ?_) fun _ _ =>
      pure Set.subset_union_right
    refine bind (pushParameters (fun p hm => hp p (List.mem_of_mem_take hm)) (by simp)) fun _ _ => ?_
    have hd : ∀ p ∈ m.positional.drop rest, p.binding.kind ≠ .temporary :=
      fun p hm => hp p (List.mem_of_mem_drop hm)
    generalize m.positional.drop rest = qs at hd
    cases qs with
    | nil => exact pure (Set.empty_subset _)
    | cons p ps =>
      rw [List.forall_mem_cons] at hd
      exact bind (readVariable hd.1) fun _ _ =>
        bind (spliceValue kind hk (by simp) (by simp)) fun _ _ => pushParameters hd.2 (by simp)

end Sim

end ControlFlow.Meaning

