import ControlFlow.Proofs.Meaning.Operation
import ControlFlow.Proofs.Syntax.Tree
/-!
# Lowering keeps the meaning of trees

The code of every tree without blocks does what the evaluation of the tree does, whether its value is
wanted or not. Trees are taken apart as lowering does it, with one lemma for each list of nodes and
for each kind of node.
-/

namespace ControlFlow

/-- A node that opens a block. -/
def Kind.opensBlock {α : Type} : Kind α → Bool
  | .doBlock .. | .forIn .. => true
  | _ => false

/-- No block is opened in a tree. -/
def Node.BlockFree (n : Node) : Prop := n.Each fun d => d.kind.opensBlock = false

namespace Meaning

variable {env : Environment} {oracle : Oracle} {fuel : Nat}

/-- The code of a node does what its evaluation does. -/
structure Simulated (env : Environment) (oracle : Oracle) (fuel : Nat) (n : Node) : Prop where
  value (Γ : Facts) : Sim oracle fuel Γ ∅ (Lowering.value env n)
    (eval env.types oracle fuel true n) Sim.holds
  effect (Γ : Facts) : Sim oracle fuel Γ ∅ (Lowering.effect env n)
    (eval env.types oracle fuel false n) (fun _ _ => ∅)

/-- A tree below whose root all nodes are simulated. -/
abbrev Parts (env : Environment) (oracle : Oracle) (fuel : Nat) : Node → Prop :=
  Node.Parts (fun d => (∀ b ∈ d.info.bindings, b.kind ≠ .temporary) ∧ d.kind.opensBlock = false)
    (Simulated env oracle fuel)

variable {n : Node}

namespace Sim

attribute [local simp] Kind.fields Kind.children

variable {Γ : Facts} {D : Set Binding} {ns : List Node} {result : Option Binding}

/-! ## Lists of nodes -/

section Lists

variable {v : Value} {subject : Binding} (hn : ∀ n ∈ ns, Simulated env oracle fuel n)

include hn

lemma body :
    Sim oracle fuel Γ ∅ (Lowering.body env ns) (statements env.types oracle fuel true ns) holds := by
  induction ns generalizing Γ with
  | nil => exact constTemp .nil
  | cons n ns ih =>
    rw [List.forall_mem_cons] at hn
    unfold Lowering.body statements
    cases ns.isEmpty with
    | true => exact hn.1.value Γ
    | false => exact bind (hn.1.effect Γ) fun _ _ => ih hn.2

lemma effects :
    Sim oracle fuel Γ ∅ (Lowering.effects env ns) (statements env.types oracle fuel false ns)
      (fun _ _ => ∅) := by
  induction ns generalizing Γ with
  | nil => exact pure (Set.empty_subset _)
  | cons n ns ih =>
    rw [List.forall_mem_cons] at hn
    cases ns with
    | nil => exact andThen (hn.1.effect Γ) fun _ _ => pure (Set.empty_subset _)
    | cons n' ns => exact bind (hn.1.effect Γ) fun _ _ => ih hn.2

lemma values :
    Sim oracle fuel Γ ∅ (Lowering.values env ns) (Meaning.values env.types oracle fuel ns)
      Facts.all := by
  induction ns generalizing Γ with
  | nil => exact pure (by simp)
  | cons n ns ih =>
    rw [List.forall_mem_cons] at hn
    refine bind (hn.1.value Γ) fun b v => bind (ih hn.2) fun bs vs => pure ?_
    rw [Facts.all_cons, Set.insert_subset_iff]
    exact ⟨by simp, Set.subset_union_right⟩

lemma concat {text : Binding} (ht : (text, v) ∈ Γ) :
    Sim oracle fuel Γ ∅ (Lowering.concat env text ns) (Meaning.concat env.types oracle fuel v ns)
      holds := by
  induction ns generalizing Γ text v with
  | nil => exact pure (by simpa using ht)
  | cons n ns ih =>
    rw [List.forall_mem_cons] at hn
    exact bind (hn.1.value Γ) fun _ _ =>
      bind (callValue "concat" (by simp [ht]) (by simp)) fun _ _ => ih hn.2 (by simp)

lemma into_body :
    Fills oracle fuel Γ result
      (Construction.into result (Lowering.body env ns) (Lowering.effects env ns))
      (statements env.types oracle fuel result.isSome ns) :=
  into (e := fun wanted => statements env.types oracle fuel wanted ns) (body hn) (effects hn)

lemma candidates (hs : (subject, v) ∈ Γ) :
    SimTests oracle fuel Γ (Lowering.candidates env subject ns)
      (matching env.types oracle fuel v ns) := by
  induction ns with
  | nil => exact .nil
  | cons n ns ih =>
    rw [List.forall_mem_cons] at hn
    rw [matching, ← bind_assoc]
    exact .cons (bind (hn.1.value Γ) fun _ _ => callValue "===" (by simp) (by simp [hs]))
      (ih hn.2)

end Lists

section Items

variable (hn : ∀ n ∈ ns, Simulated env oracle fuel n ∧ Parts env oracle fuel n)

include hn

lemma elements {klass array : Binding} {a : Value} (hk : env.types "Array" = some klass)
    (kind : klass.kind ≠ .temporary) (ha : (array, a) ∈ Γ) :
    Sim oracle fuel Γ ∅ (Lowering.elements env klass array ns)
      (Meaning.elements env.types oracle fuel a ns) (fun _ _ => ∅) := by
  induction ns generalizing Γ with
  | nil => exact pure (Set.empty_subset _)
  | cons n ns ih =>
    rw [List.forall_mem_cons] at hn
    obtain ⟨⟨hs, hp⟩, hn⟩ := hn
    rcases n with ⟨info, kind'⟩
    cases kind'
    case splat d =>
      have hd := hp.child d (by simp)
      exact bind (hd.value Γ) fun _ _ =>
        bind (spliceValue kind hk (by simp [ha]) (by simp)) fun _ _ => ih hn (by simp [ha])
    all_goals
      exact bind (hs.value Γ) fun _ _ =>
        bind (pushValue (by simp [ha]) (by simp)) fun _ _ => ih hn (by simp [ha])

/-- An array of elements. -/
lemma arrayOf (info : Info) (htypes : ∀ name, ∀ b ∈ env.types name, b.kind ≠ .temporary) :
    Sim oracle fuel Γ ∅
      (Construction.aggregate env info fun klass array => Lowering.elements env klass array ns)
      (array env.types oracle fun a => Meaning.elements env.types oracle fuel a ns) holds :=
  aggregate info htypes fun _ _ _ hk kind => elements hn hk kind (by simp)

lemma discards :
    Sim oracle fuel Γ ∅ (Lowering.discards env ns) (Meaning.discards env.types oracle fuel ns)
      (fun _ _ => ∅) := by
  induction ns generalizing Γ with
  | nil => exact pure (Set.empty_subset _)
  | cons n ns ih =>
    rw [List.forall_mem_cons] at hn
    obtain ⟨⟨hs, hp⟩, hn⟩ := hn
    rcases n with ⟨info, kind⟩
    cases kind
    case splat d =>
      have hd := hp.child d (by simp)
      exact bind (hd.effect Γ) fun _ _ => ih hn
    all_goals exact bind (hs.effect Γ) fun _ _ => ih hn

end Items

lemma into_node (hn : Simulated env oracle fuel n) :
    Fills oracle fuel Γ result
      (Construction.into result (Lowering.value env n) (Lowering.effect env n))
      (eval env.types oracle fuel result.isSome n) :=
  into (e := fun wanted => eval env.types oracle fuel wanted n) (hn.value Γ) (hn.effect Γ)

/-! ## Clauses -/

/-- What follows the body of a conditional with an optional result. -/
abbrev FillsElse (oracle : Oracle) (fuel : Nat) (Γ : Facts) (result : Option Binding)
    (a : Alternative Plan) (e : Eval Value) : Prop :=
  SimAlternative oracle fuel Γ (dests result) (fun _ v => Facts.of result v) a e

lemma alternative_some (n : Node) (hp : Parts env oracle fuel n) :
    FillsElse oracle fuel Γ result (Lowering.alternative env result (some n))
      (Meaning.alternative env.types oracle fuel result.isSome (some n)) := by
  induction n using Node.induction_below with
  | step n ih =>
    rcases n with ⟨info, kind⟩
    cases kind
    case ifThen c stmts other | elsif c stmts other =>
      have hc := hp.child c (by simp)
      have hs := hp.all .body stmts (by simp)
      refine .clause (hc.value Γ) (into_body hs) ?_
      cases other with
      | none => exact nothingElse
      | some n =>
        exact ih n (.child (by simp)) (hp.part n (by simp))
    case ifMod c n =>
      have hc := hp.child c (by simp)
      have hn := hp.child n (by simp)
      exact .clause (hc.value Γ) (into_node hn) nothingElse
    case elseThen stmts => exact .last (into_body (hp.all .body stmts (by simp)))
    all_goals exact .last failAt

lemma alternative {other : Option Node} (hp : ∀ n ∈ other.toList, Parts env oracle fuel n) :
    FillsElse oracle fuel Γ result (Lowering.alternative env result other)
      (Meaning.alternative env.types oracle fuel result.isSome other) := by
  cases other with
  | none => exact nothingElse
  | some n => exact alternative_some n (hp n (.head _))

lemma otherwise {other : Option (List Node)}
    (hn : ∀ n ∈ other.getD [], Simulated env oracle fuel n) :
    FillsElse oracle fuel Γ result (Lowering.otherwise env result other)
      (Meaning.otherwise env.types oracle fuel result.isSome other) := by
  cases other with
  | none => exact nothingElse
  | some stmts => exact .last (into_body hn)

lemma remaining {other : Option (List Node)}
    (hn : ∀ n ∈ other.getD [], Simulated env oracle fuel n) :
    Fills oracle fuel Γ result (Lowering.remaining env result other)
      (Meaning.otherwise env.types oracle fuel result.isSome other) := by
  cases other with
  | none => exact deliverNil
  | some stmts => exact into_body hn

lemma cases {v : Value} {subject : Binding} (hs : (subject, v) ∈ Γ) {x : Plan Unit} {e : Eval Value}
    (hx : Fills oracle fuel Γ result x e) (hp : ∀ n ∈ ns, Parts env oracle fuel n) :
    SimClauses oracle fuel Γ (dests result) (fun _ v => Facts.of result v)
      (Lowering.cases env result subject x ns)
      (Meaning.cases env.types oracle fuel result.isSome v e ns) := by
  induction ns with
  | nil => exact .last hx
  | cons n ns ih =>
    rw [List.forall_mem_cons] at hp
    obtain ⟨hp, hrest⟩ := hp
    rcases n with ⟨info, kind⟩
    cases kind
    case whenThen cs stmts =>
      have hc := hp.all .candidate cs (by simp)
      have hb := hp.all .body stmts (by simp)
      exact .clause (candidates hc hs) (into_body hb) (ih hrest)
    all_goals exact .last failAt

lemma receiver {info : Info} (hi : ∀ b ∈ info.bindings, b.kind ≠ .temporary) {r : Option Node}
    (hn : ∀ n ∈ r.toList, Simulated env oracle fuel n) :
    Sim oracle fuel Γ ∅ (Lowering.receiver env info r)
      (Meaning.receiver env.types oracle fuel info r) holds := by
  cases r with
  | none => exact selfTemp "call" hi
  | some n => exact (hn n (.head _)).value Γ

lemma passed {pass : Option Node} (hn : ∀ n ∈ pass.toList, Simulated env oracle fuel n) :
    Passes oracle fuel (Lowering.passed env pass)
      (Meaning.passed env.types oracle fuel pass) := by
  cases pass with
  | none => exact .none
  | some n => exact .some (hn n (.head _)).value

/-- Where no block is opened, there is no code for a call with a block literal: what stands in its
place is none. -/
lemma send_literal (hp : Parts env oracle fuel n) (info : Info) (callee : ControlFlow.Callee)
    (args : Plan ControlFlow.Arguments) (pass : Option (Plan Binding)) :
    Construction.send info result callee args pass (Lowering.literal env (some n)) =
      fun _ _ _ _ _ => False := by
  have free := hp.own.2
  rcases n with ⟨info', kind⟩
  cases kind
  case doBlock => exact absurd free (by simp [Node.kind, Kind.opensBlock])
  all_goals
    change (if pass.isSome then _ else _) = _
    split <;> rfl

section Nodes

variable {info : Info} {kind : Kind Node}
  (htypes : ∀ name, ∀ b ∈ env.types name, b.kind ≠ .temporary)
  (hp : Parts env oracle fuel (.mk info kind))

include htypes hp

/-- A construct, which fills its result if it is one that delivers its value so. -/
lemma construct (hd : kind.delivery info = .filled ∨ kind.delivery info = .nothing ∧ result = none) :
    Fills oracle fuel Γ result (Lowering.construct env info result kind)
      (eval env.types oracle fuel result.isSome (.mk info kind)) := by
  cases kind
  case command parts =>
    have hn := hp.all .part parts (by simp)
    refine bind (g := fun start => Meaning.concat env.types oracle fuel start parts >>= fun text =>
      self info >>= fun r => method oracle r "`" [text]) (constTemp (.str "")) fun _ _ =>
        bind (concat hn (by simp)) fun _ _ => withSelf fun scope hs => ?_
    exact callOn "`" (fun d hd => hd) (hp.own.1 _ (Info.self_mem_bindings hs)) (by simp)
  case varRef name =>
    have hb : info.binding = none := by
      cases h : info.binding <;> simp_all [Kind.delivery]
    simp only [eval, hb]
    exact bind (selfTemp "var-ref" hp.own.1) fun _ _ =>
      call name (fun d hd => hd) (by simp) (by simp)
  case opAssign target op v =>
    have hv := hp.child v (by simp)
    have ht := hp.part target (by simp)
    rcases target with ⟨target, kind⟩
    cases kind
    case varTarget name => exact updateVariable ht.own.1 hv.value
    case fieldTarget r name =>
      exact updateField name ((ht.child _ (by simp)).value Γ) hv.value
    all_goals exact failAt
  case binary l op r =>
    have hl := hp.child l (by simp)
    have hr := hp.child r (by simp)
    have hop : op.shortCircuits = true := by
      cases h : op.shortCircuits <;> simp_all [Kind.delivery]
    simp only [eval, hop]
    exact bind (hl.value Γ) fun _ _ =>
      shortCircuit (e := fun wanted => eval env.types oracle fuel wanted r) (by simp) (hr.value _)
        (hr.effect _)
  case ifThen c stmts other =>
    have hc := hp.child c (by simp)
    have hs := hp.all .body stmts (by simp)
    have ho := hp.parts .alternative other.toList (by simp)
    exact conditional (hc.value Γ) (into_body hs) (alternative ho)
  case ifMod c n =>
    have hc := hp.child c (by simp)
    have hn := hp.child n (by simp)
    exact conditional (hc.value Γ) (into_node hn) nothingElse
  case unlessThen c stmts other =>
    have hc := hp.child c (by simp)
    have hs := hp.all .body stmts (by simp)
    have ho := hp.all .otherwise (other.getD []) (by simp)
    exact conditionalNot (hc.value Γ) (into_body hs) (otherwise ho)
  case unlessMod c n =>
    have hc := hp.child c (by simp)
    have hn := hp.child n (by simp)
    exact conditionalNot (hc.value Γ) (into_node hn) nothingElse
  case case n clauses other =>
    have hn := hp.child n (by simp)
    have hc := hp.parts .clause clauses (by simp)
    have ho := hp.all .otherwise (other.getD []) (by simp)
    exact select (hn.value Γ) fun subject v => cases (by simp) (remaining ho) hc
  case loop sense c stmts =>
    have hc := hp.child c (by simp)
    have hs := hp.all .body stmts (by simp)
    obtain ⟨-, rfl⟩ := hd.resolve_left (by simp [Kind.delivery])
    exact (loop (hc.value Γ) (effects hs)).mono subset_rfl subset_rfl (by simp)
  case loopMod sense c n =>
    have hc := hp.child c (by simp)
    have hn := hp.child n (by simp)
    obtain ⟨-, rfl⟩ := hd.resolve_left (by simp [Kind.delivery])
    exact (loop (hc.value Γ) (hn.effect Γ)).mono subset_rfl subset_rfl (by simp)
  case forIn => exact absurd hp.own.2 (by simp [Node.kind, Kind.opensBlock])
  case guarded stmts ensure =>
    have hs := hp.all .body stmts (by simp)
    cases ensure with
    | none => exact unguarded (into_body hs)
    | some clause =>
      have hc := hp.all .ensure clause (by simp)
      exact guarded (into_body hs) (effects hc)
  case returnWith args =>
    have hn := hp.items .arg args (by simp)
    refine returnValue ?_
    unfold oneOrMany
    split
    · exact arrayOf hn info htypes
    · exact body fun n hm => (hn n hm).1
  case breakWith args | nextWith args =>
    have hn := hp.items .arg args (by simp)
    exact jumpOut (discards hn)
  case redo =>
    have nothing : Sim oracle fuel Γ ∅ (Pure.pure ()) (Pure.pure () : Eval Unit) (fun _ _ => ∅) :=
      pure (Set.empty_subset _)
    exact jumpOut nothing
  case call r method args pass block =>
    have hr := hp.all .receiver r.toList (by simp)
    have hn := hp.items .arg args (by simp)
    have hpass := hp.all .blockPass pass.toList (by simp)
    have hb := hp.parts .block block.toList (by simp)
    cases block with
    | none =>
      exact bind (receiver hp.own.1 hr) fun _ _ => sendTo info (.method (by simp))
        (arguments (arrayOf hn info htypes) (values fun n hm => (hn n hm).1)) (passed hpass)
    | some n =>
      simp only [Lowering.construct, send_literal (hb n (.head _))]
      refine impossible fun K t u c t' h => ?_
      obtain ⟨-, -, -, -, -, h, -⟩ := h
      exact h
  case super args pass block =>
    have hn := hp.items .arg args (by simp)
    have hpass := hp.all .blockPass pass.toList (by simp)
    have hb := hp.parts .block block.toList (by simp)
    cases block with
    | none =>
      exact sendTo info .super
        (arguments (arrayOf hn info htypes) (values fun n hm => (hn n hm).1)) (passed hpass)
    | some n =>
      simp only [Lowering.construct, send_literal (hb n (.head _))]
      exact impossible fun _ _ _ _ _ h => h
  case zsuper block =>
    have hb := hp.parts .block block.toList (by simp)
    unfold Lowering.construct
    cases hm : info.scope.bind (·.method) with
    | none => exact failAt
    | some m =>
      have hparams : ∀ p ∈ m.params, p.binding.kind ≠ .temporary :=
        fun p hm' => hp.own.1 _ (Info.parameter_mem_bindings hm hm')
      cases block with
      | none =>
        simp only [eval, hm]
        exact sendTo info .super (passParameters info htypes hparams) .none
      | some n =>
        simp only [send_literal (hb n (.head _))]
        exact impossible fun _ _ _ _ _ h => h
  all_goals exact absurd hd (by simp [Kind.delivery])

lemma ownValue (hd : kind.delivery info = .own) :
    Sim oracle fuel Γ ∅ (Lowering.ownValue env info kind)
      (eval env.types oracle fuel true (.mk info kind)) holds := by
  cases kind
  case program stmts | paren stmts => exact body (hp.all .body stmts (by simp))
  case begin n => exact (hp.child _ (by simp)).value Γ
  case void => exact constTemp .nil
  case literal c => exact constTemp c
  case content text => exact constTemp (.str text)
  case str parts =>
    have hn := hp.all .part parts (by simp)
    exact bind (g := fun start => Meaning.concat env.types oracle fuel start parts)
      (constTemp (.str "")) fun _ _ => concat hn (by simp)
  case embed stmts =>
    have hn := hp.all .body stmts (by simp)
    exact bind (body hn) fun _ _ => callValue "to_s" (by simp) (by simp)
  case regexp parts options =>
    have hn := hp.all .part parts (by simp)
    refine bind (g := fun start => Meaning.concat env.types oracle fuel start parts >>= fun text =>
      registered env.types "Regexp" >>= fun klass =>
        method oracle klass "new" [text, .constant (.str options)]) (constTemp (.str "")) fun _ _ =>
        bind (concat hn (by simp)) fun _ text => ?_
    refine bind (g := fun v => registered env.types "Regexp" >>= fun klass =>
      method oracle klass "new" [text, v]) (constTemp (.str options)) fun _ _ =>
        withType fun klass hk => ?_
    simp only [registered, Option.mem_def.1 hk]
    refine callValueOn "new" (htypes _ _ hk) ?_
    simp [Set.insert_subset_iff]
  case array items =>
    have hn := hp.items .element items (by simp)
    exact arrayOf hn info htypes
  case selfRef => exact selfTemp "self" hp.own.1
  case varRef name =>
    refine withSlot fun b hb => ?_
    simp only [eval, Option.mem_def.1 hb]
    exact readVariable (hp.own.1 _ (Info.variable_mem_bindings hb))
  case varTarget name =>
    refine withSlot fun b hb => ?_
    simp only [eval, slot, Option.mem_def.1 hb]
    exact readVariable (hp.own.1 _ (Info.variable_mem_bindings hb))
  case assign target v =>
    have hv := hp.child v (by simp)
    have ht := hp.part target (by simp)
    rcases target with ⟨target, kind⟩
    cases kind
    case varTarget name => exact assignVariable ht.own.1 (hv.value Γ)
    case fieldTarget r name =>
      exact assignField name ((ht.child _ (by simp)).value Γ) hv.value
    all_goals exact failAt
  case binary l op r =>
    have hl := hp.child l (by simp)
    have hr := hp.child r (by simp)
    have hop : op.shortCircuits = false := by
      cases h : op.shortCircuits <;> simp_all [Kind.delivery]
    simp only [eval, hop]
    exact bind (hl.value Γ) fun _ _ => bind (hr.value _) fun _ _ =>
      callValue op.method (by simp) (by simp)
  case unary op n =>
    have hn := hp.child n (by simp)
    exact bind (hn.value Γ) fun _ _ => callValue op.method (by simp) (by simp)
  all_goals exact failAt

omit htypes in
lemma ownEffect (hd : kind.delivery info = .own) :
    Sim oracle fuel Γ ∅ (Lowering.ownEffect env info kind)
      (eval env.types oracle fuel false (.mk info kind)) (fun _ _ => ∅) := by
  have nothing (v : Value) : Sim oracle fuel Γ ∅ (Pure.pure ()) (Pure.pure v) (fun _ _ => ∅) :=
    pure (Set.empty_subset _)
  cases kind
  case program stmts | paren stmts | embed stmts => exact effects (hp.all .body stmts (by simp))
  case begin n => exact (hp.child n (by simp)).effect Γ
  case void | selfRef | varTarget name | literal c | content text => exact nothing _
  case varRef name =>
    obtain ⟨b, hb⟩ : ∃ b, info.binding = some b := by
      cases h : info.binding <;> simp_all [Kind.delivery]
    simp only [eval, hb]
    exact nothing _
  case str parts | regexp parts options => exact effects (hp.all .part parts (by simp))
  case array items => exact discards (hp.items .element items (by simp))
  case assign target v =>
    have hv := hp.child v (by simp)
    have ht := hp.part target (by simp)
    rcases target with ⟨target, kind⟩
    cases kind
    case varTarget name =>
      exact andThen (assignVariable ht.own.1 (hv.value Γ)) fun _ _ => pure (Set.empty_subset _)
    case fieldTarget r name =>
      exact andThen (assignField name ((ht.child _ (by simp)).value Γ)
        hv.value) fun _ _ => pure (Set.empty_subset _)
    all_goals exact failAt
  case binary l op r =>
    have hl := hp.child l (by simp)
    have hr := hp.child r (by simp)
    have hop : op.shortCircuits = false := by
      cases h : op.shortCircuits <;> simp_all [Kind.delivery]
    simp only [eval, hop]
    exact bind (hl.value Γ) fun _ _ => bind (hr.value _) fun _ _ =>
      (call op.method (by simp) (by simp) (by simp)).mono subset_rfl subset_rfl (by simp)
  case unary op n =>
    have hn := hp.child n (by simp)
    exact bind (hn.value Γ) fun _ _ =>
      (call op.method (by simp) (by simp) (by simp)).mono subset_rfl subset_rfl (by simp)
  all_goals exact failAt

end Nodes

end Sim

lemma caught_nil {part next redo : Eval Value} {andThen : Value → Eval Value}
    (hn : (next >>= fun _ => pure .nil) = next) (hr : (redo >>= fun _ => pure .nil) = redo)
    (ha : ∀ v, (andThen v >>= fun _ => pure .nil) = andThen v) :
    (Eval.caught part next redo andThen >>= fun _ => pure .nil) =
      Eval.caught part next redo andThen := by
  funext w
  rw [Eval.bind_apply, Eval.caught]
  rcases part w with ⟨v | (_ | _ | _ | _) | _ | _, w'⟩
  · exact congrFun (ha v) w'
  · rfl
  · exact congrFun hn w'
  · exact congrFun hr w'
  · rfl
  · rfl
  · rfl

/-- The value of a loop is `nil`. -/
lemma rounds_nil (on : Bool) (test body : Eval Value) (n : Nat) (fromBody : Bool) :
    (Eval.rounds on test body n fromBody >>= fun _ => pure .nil) =
      Eval.rounds on test body n fromBody := by
  induction n generalizing fromBody with
  | zero => rfl
  | succ n ih =>
    have tested : (Eval.tested on test (Eval.rounds on test body n false)
        (Eval.rounds on test body n true) >>= fun _ => pure .nil) =
        Eval.tested on test (Eval.rounds on test body n false) (Eval.rounds on test body n true) := by
      refine caught_nil (ih false) (ih true) fun v => ?_
      split
      · exact ih true
      · rfl
    cases fromBody with
    | false => exact tested
    | true => exact caught_nil (ih false) (ih true) fun _ => tested

/-- The value of a node that has no other value is `nil`. -/
lemma eval_nothing {info : Info} {kind : Kind Node} (hd : kind.delivery info = .nothing) :
    eval env.types oracle fuel true (.mk info kind) =
      eval env.types oracle fuel false (.mk info kind) >>= fun _ => pure .nil := by
  cases kind
  case loop | loopMod => exact (rounds_nil ..).symm
  case returnWith | breakWith | nextWith => simp only [eval, bind_assoc]; rfl
  case redo => rfl
  case varRef | binary => exact absurd hd (by simp only [Kind.delivery]; split <;> simp)
  all_goals simp [Kind.delivery] at hd

/-- The code of a node does what its evaluation does, if this is so of all nodes below. -/
lemma Parts.simulated (htypes : ∀ name, ∀ b ∈ env.types name, b.kind ≠ .temporary)
    (hp : Parts env oracle fuel n) : Simulated env oracle fuel n := by
  rcases n with ⟨info, kind⟩
  -- going one level deeper leaves plans as they are
  refine ⟨fun Γ => ?_, fun Γ => ?_⟩
  · unfold Lowering.value
    cases hd : kind.delivery info with
    | own => exact Sim.ownValue htypes hp hd
    | filled =>
      exact Sim.inTemp fun d =>
        (Sim.construct htypes hp (Or.inl hd)).mono subset_rfl (by simp) (by simp)
    | nothing =>
      have effect : Sim oracle fuel Γ ∅ (Lowering.construct env info none kind)
          (eval env.types oracle fuel false (.mk info kind)) (fun _ _ => ∅) :=
        (Sim.construct htypes hp (Or.inr ⟨hd, rfl⟩)).mono subset_rfl (by simp) (by simp)
      rw [eval_nothing hd]
      exact Sim.bind effect fun _ _ => Sim.constTemp .nil
  · unfold Lowering.effect
    cases hd : kind.delivery info with
    | own => exact Sim.ownEffect hp hd
    | filled => exact (Sim.construct htypes hp (Or.inl hd)).mono subset_rfl (by simp) (by simp)
    | nothing =>
      exact (Sim.construct htypes hp (Or.inr ⟨hd, rfl⟩)).mono subset_rfl (by simp) (by simp)

/-- **The code of a tree without blocks does what its evaluation does.** -/
theorem simulated (htypes : ∀ name, ∀ b ∈ env.types name, b.kind ≠ .temporary) (n : Node)
    (names : n.Each fun d => ∀ b ∈ d.info.bindings, b.kind ≠ .temporary) (free : n.BlockFree) :
    Simulated env oracle fuel n := by
  induction n using Node.induction_below with
  | step n ih =>
    exact Parts.simulated htypes ⟨⟨⟨names.1, free.1⟩, fun d hd => ⟨names.2 d hd, free.2 d hd⟩⟩,
      fun d hd => ih d hd (names.below hd) (free.below hd)⟩

end Meaning

end ControlFlow
