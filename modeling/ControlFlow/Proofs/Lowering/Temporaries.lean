import ControlFlow.Proofs.Code.Whole
import ControlFlow.Proofs.Lowering.Spending
import ControlFlow.Proofs.Lowering.Written
/-!
# Temporaries are written and read

The temporaries that a graph names are those that were handed out while its tree was lowered. Each of
them is written, and each of them is read, apart from block literals and from the subject of a `case`
without candidates.

The lowering of a tree spends every temporary that it makes, in the sense of `WalkT.Spends`, and leaves
at most the value of the tree to be read. This is shown for every node from the nodes below it.
-/

namespace ControlFlow

/-- Nothing that is known about the node is the binding, and no parameter of the node is. -/
def Node.Lacks (v : Binding) (n : Node) : Prop :=
  (∀ b ∈ n.info.bindings, b ≠ v) ∧ ∀ p ∈ n.kind.params, p.binding ≠ v

namespace Traced

attribute [local simp] Kind.fields Kind.children

open WalkT.Spends (conditional failAt feed idle skip)

/-! ## Lists of nodes -/

/-- What the lowering of a node spends of a binding. -/
structure Lowered (v : Binding) (env : Environment) (n : Node) : Prop where
  value : Gives v (Lowering.value env n)
  effect : Ignores v (Lowering.effect env n)

/-- The walk writes the result, and what it has to read is at most the result. -/
def Fills (v : Binding) (result : Option Binding) (x : Traced Unit) : Prop :=
  ∃ R : Prop, (R → result = some v) ∧ Clears v R (result = some v) x

section

variable {v : Binding} {env : Environment} {ns : List Node}

variable (result : Option Binding) (hn : ∀ n ∈ ns, Lowered v env n)

include hn

lemma body : Gives v (Lowering.body env ns) := by
  induction ns with
  | nil => exact constTemp .nil
  | cons n ns ih =>
    rw [List.forall_mem_cons] at hn
    unfold Lowering.body
    cases ns.isEmpty with
    | true => exact hn.1.value
    | false => exact skip hn.1.effect fun _ => ih hn.2

lemma effects : Ignores v (Lowering.effects env ns) := by
  induction ns with
  | nil => exact idle ()
  | cons n ns ih =>
    rw [List.forall_mem_cons] at hn
    exact skip hn.1.effect fun _ => ih hn.2

lemma values : Spends v False False (Lowering.values env ns) fun ws => v ∈ ws := by
  induction ns with
  | nil => exact (WalkT.Spends.pure []).congr (by simp) Iff.rfl
  | cons n ns ih =>
    rw [List.forall_mem_cons] at hn
    refine feed hn.1.value fun w => feed (ih hn.2) fun ws => ?_
    exact (WalkT.Spends.pure (w :: ws)).congr (by simp [eq_comm, or_comm]) Iff.rfl

lemma concat (text : Binding) :
    Spends v (text = v) False (Lowering.concat env text ns) (· = v) := by
  induction ns generalizing text with
  | nil => exact WalkT.Spends.pure (L := (· = v)) text
  | cons n ns ih =>
    rw [List.forall_mem_cons] at hn
    refine feed hn.1.value fun w => ?_
    refine ((callValue text "concat" [w]).bind (P := False) fun longer =>
      (ih hn.2 longer).congr (by simp) Iff.rfl).congr ?_ (by simp)
    simp [eq_comm, or_comm]

lemma into_body :
    Clears v False (result = some v) (Construction.into result (Lowering.body env ns)
      (Lowering.effects env ns)) :=
  into result (body hn) (effects hn)

omit hn

lemma into_node {n : Node} (hn : Lowered v env n) :
    Clears v False (result = some v) (Construction.into result (Lowering.value env n)
      (Lowering.effect env n)) :=
  into result hn.value hn.effect

end

/-! ## Nodes -/

/-- A tree that lacks a binding, with all lowerings below its root. -/
abbrev Parts (v : Binding) (env : Environment) : Node → Prop :=
  Node.Parts (Node.Lacks v) (Lowered v env)

section

variable {v : Binding} {env : Environment} {info : Info} {kind : Kind Node}
  {ns : List Node}

/-- An array is read by the elements that are put into it. -/
lemma elements {klass : Binding} (other : klass ≠ v) (array : Binding)
    (hn : ∀ n ∈ ns, Lowered v env n ∧ Parts v env n) :
    Clears v (ns ≠ [] ∧ array = v) False (Lowering.elements env klass array ns) := by
  induction ns with
  | nil => exact (WalkT.Spends.pure ()).congr (by simp) Iff.rfl
  | cons n ns ih =>
    rw [List.forall_mem_cons] at hn
    obtain ⟨⟨hl, hp⟩, hn⟩ := hn
    have rest := ih hn
    have pushed : ∀ w, Clears v (w = v ∨ n :: ns ≠ [] ∧ array = v) False (do
        Construction.pushValue array w
        Lowering.elements env klass array ns : Traced Unit) := by
      intro w
      refine ((pushValue array w).andThen rest).congr ?_ (by simp)
      simp only [ne_eq, List.cons_ne_nil, not_false_eq_true, true_and]
      tauto
    have spliced : ∀ w, Clears v (w = v ∨ n :: ns ≠ [] ∧ array = v) False (do
        Construction.spliceValue klass array w
        Lowering.elements env klass array ns : Traced Unit) := by
      intro w
      refine ((spliceValue klass array w).andThen rest).congr ?_ (by simp)
      simp only [other, ne_eq, List.cons_ne_nil, not_false_eq_true, true_and]
      tauto
    rcases n with ⟨info, kind⟩
    cases kind
    case splat d => exact feed (hp.child d (by simp)).value spliced
    all_goals exact feed hl.value pushed

lemma discards (hn : ∀ n ∈ ns, Lowered v env n ∧ Parts v env n) :
    Ignores v (Lowering.discards env ns) := by
  induction ns with
  | nil => exact idle ()
  | cons n ns ih =>
    rw [List.forall_mem_cons] at hn
    obtain ⟨⟨hl, hp⟩, hn⟩ := hn
    rcases n with ⟨info, kind⟩
    cases kind
    case splat d => exact skip (hp.child d (by simp)).effect fun _ => ih hn
    all_goals exact skip hl.effect fun _ => ih hn

/-- Each test of a candidate reads the subject. -/
lemma candidates (subject : Binding) (hn : ∀ n ∈ ns, Lowered v env n) :
    ∀ t ∈ (Lowering.candidates env subject ns : List (Traced Binding)),
      Spends v (subject = v) False t (· = v) := by
  induction ns with
  | nil => simp [Lowering.candidates]
  | cons n ns ih =>
    rw [List.forall_mem_cons] at hn
    intro t ht
    rcases List.mem_cons.1 ht with rfl | ht
    · refine feed hn.1.value fun w => ?_
      exact (callValue w "===" [subject]).congr (by simp [eq_comm]) Iff.rfl
    · exact ih hn.2 t ht

variable (result : Option Binding)

lemma alternative_some (n : Node) (hp : Parts v env n) :
    Alternative.Spends v (result = some v)
      (Lowering.alternative env result (some n) : Alternative Traced) := by
  induction n using Node.induction_below with
  | step n ih =>
    rcases n with ⟨info, kind⟩
    cases kind
    case ifThen c stmts other | elsif c stmts other =>
      refine ⟨(hp.child c (by simp)).value,
        into_body result (hp.all .body stmts (by simp)), ?_⟩
      cases other with
      | none => exact nothingElse result
      | some n =>
        exact ih n (.child (by simp)) (hp.part n (by simp))
    case ifMod c n =>
      exact ⟨(hp.child c (by simp)).value, into_node result (hp.child n (by simp)),
        nothingElse result⟩
    case elseThen stmts => exact into_body result (hp.all .body stmts (by simp))
    all_goals exact failAt info _

lemma alternative {other : Option Node} (hp : ∀ n ∈ other.toList, Parts v env n) :
    Alternative.Spends v (result = some v)
      (Lowering.alternative env result other : Alternative Traced) := by
  cases other with
  | none => exact nothingElse result
  | some n => exact alternative_some result n (hp n (.head _))

lemma otherwise {other : Option (List Node)} (hn : ∀ n ∈ other.getD [], Lowered v env n) :
    Alternative.Spends v (result = some v)
      (Lowering.otherwise env result other : Alternative Traced) := by
  cases other with
  | none => exact nothingElse result
  | some stmts => exact into_body result hn

lemma remaining {other : Option (List Node)} (hn : ∀ n ∈ other.getD [], Lowered v env n) :
    Clears v False (result = some v) (Lowering.remaining env result other) := by
  cases other with
  | none => exact deliverNil result
  | some stmts => exact into_body result hn

lemma cases (subject : Binding) {x : Traced Unit}
    (hx : Clears v False (result = some v) x) (hp : ∀ n ∈ ns, Parts v env n) :
    Clauses.Spends v (subject = v) (result = some v)
      (Lowering.cases env result subject x ns : Clauses Traced) := by
  induction ns with
  | nil => exact hx
  | cons n ns ih =>
    rw [List.forall_mem_cons] at hp
    obtain ⟨hp, hrest⟩ := hp
    rcases n with ⟨info, kind⟩
    cases kind
    case whenThen cs stmts =>
      exact ⟨candidates subject (hp.all .candidate cs (by simp)),
        into_body result (hp.all .body stmts (by simp)), ih hrest⟩
    all_goals exact failAt info _

lemma receiver (clean : ∀ b ∈ info.bindings, b ≠ v) {r : Option Node}
    (hn : ∀ n ∈ r.toList, Lowered v env n) : Gives v (Lowering.receiver env info r) := by
  cases r with
  | none => exact selfTemp "call" clean
  | some n => exact (hn n (.head _)).value

lemma passed {pass : Option Node} (hn : ∀ n ∈ pass.toList, Lowered v env n) :
    ∀ x ∈ (Lowering.passed env pass : Option (Traced Binding)), Gives v x := by
  cases pass with
  | none => simp [Lowering.passed]
  | some n =>
    rintro _ ⟨⟩
    exact (hn n (.head _)).value

lemma literal {block : Option Node} (hp : ∀ n ∈ block.toList, Parts v env n) :
    LiteralSpends v (Lowering.literal env block : Construction.BlockLiteral Traced) := by
  cases block with
  | none => trivial
  | some n =>
    replace hp := hp n (.head _)
    rcases n with ⟨info, kind⟩
    cases kind
    case doBlock params stmts =>
      exact ⟨hp.own.2, body (hp.all .body stmts (by simp))⟩
    all_goals trivial

lemma arguments (args : List Node) {x : Traced Binding} {y : Traced (List Binding)} (hx : Gives v x)
    (hy : Spends v False False y fun ws => v ∈ ws) :
    Spends v False False (Lowering.arguments args x y) fun a => v ∈ a.bindings := by
  unfold Lowering.arguments
  cases args.any (·.isSplat) with
  | true =>
    refine feed hx fun array => ?_
    exact (WalkT.Spends.pure (Arguments.vararg array)).congr (by simp [Arguments.bindings, eq_comm])
      Iff.rfl
  | false =>
    refine feed hy fun ws => ?_
    exact (WalkT.Spends.pure (Arguments.positional ws)).congr (by simp [Arguments.bindings]) Iff.rfl

variable (clean : ∀ name b, env.types name = some b → b ≠ v)
  (hp : Parts v env (.mk info kind))

include clean hp

/-- A construct that fills its result writes it, and may read it again. -/
lemma construct (hr : result = none ∨ kind.delivery info = .filled) :
    Fills v result (Lowering.construct env info result kind) := by
  -- all but one kind of construct do not read their result
  have unread : ∀ {x : Traced Unit}, Clears v False (result = some v) x → Fills v result x :=
    fun h => ⟨False, False.elim, h⟩
  have nothing : kind.delivery info ≠ .filled → ∀ {x : Traced Unit}, Ignores v x →
      Fills v result x := by
    intro other x h
    obtain rfl := hr.resolve_right other
    exact ⟨False, False.elim, WalkT.Spends.congr h Iff.rfl (by simp)⟩
  cases kind
  case command parts =>
    refine unread (feed (constTemp _) fun start => ?_)
    have hn := hp.all .part parts (by simp)
    refine (WalkT.Spends.bind (concat hn start) (P := False) (Q := result = some v)
      fun text => ?_).congr Iff.rfl (by simp)
    refine selfBinding_bind "xstr" hp.own.1 fun receiver other => ?_
    exact (call result receiver "`" [text]).congr (by simp [other, eq_comm]) Iff.rfl
  case varRef name =>
    refine unread (feed (selfTemp "var-ref" hp.own.1) fun receiver => ?_)
    exact (call result receiver name []).congr (by simp) Iff.rfl
  case opAssign target op n =>
    have hv := hp.child n (by simp)
    have ht := hp.part target (by simp)
    rcases target with ⟨target, kind⟩
    cases kind
    case varTarget name =>
      exact ⟨_, And.right, updateVariable result op ht.own.1 hv.value⟩
    case fieldTarget r name =>
      have hr := ht.child r (by simp)
      exact unread (updateField result op name hr.value hv.value)
    all_goals exact unread (failAt _ _)
  case binary l op r =>
    have hl := hp.child l (by simp)
    have hr := hp.child r (by simp)
    refine unread (feed hl.value fun lhs => ?_)
    exact (shortCircuit result op lhs hr.value hr.effect).congr (by simp) Iff.rfl
  case ifThen c stmts other =>
    have hc := hp.child c (by simp)
    have hs := hp.all .body stmts (by simp)
    have ho := hp.parts .alternative other.toList (by simp)
    exact unread (conditional true hc.value (into_body result hs) (alternative result ho))
  case ifMod c n =>
    have hc := hp.child c (by simp)
    have hn := hp.child n (by simp)
    exact unread (conditional true hc.value (into_node result hn) (nothingElse result))
  case unlessThen c stmts other =>
    have hc := hp.child c (by simp)
    have hs := hp.all .body stmts (by simp)
    have ho := hp.all .otherwise (other.getD []) (by simp)
    exact unread (conditional false hc.value (into_body result hs) (otherwise result ho))
  case unlessMod c n =>
    have hc := hp.child c (by simp)
    have hn := hp.child n (by simp)
    exact unread (conditional false hc.value (into_node result hn) (nothingElse result))
  case case n clauses other =>
    have hn := hp.child n (by simp)
    have hc := hp.parts .clause clauses (by simp)
    have ho := hp.all .otherwise (other.getD []) (by simp)
    exact unread (select hn.value fun subject => cases result subject (remaining result ho) hc)
  case loop sense c stmts =>
    have hc := hp.child c (by simp)
    have hs := hp.all .body stmts (by simp)
    exact nothing (by simp [Kind.delivery]) (WalkT.Spends.loop sense hc.value (effects hs))
  case loopMod sense c n =>
    have hc := hp.child c (by simp)
    have hn := hp.child n (by simp)
    exact nothing (by simp [Kind.delivery]) (WalkT.Spends.loop sense hc.value hn.effect)
  case forIn target n stmts =>
    have hn := hp.child n (by simp)
    have ht := hp.part target (by simp)
    have hs := hp.all .body stmts (by simp)
    rcases target with ⟨target, kind⟩
    cases kind
    case varTarget name =>
      refine unread (resolved_bind "var-field" ht.own.1 fun slot other => ?_)
      refine feed hn.value fun receiver => ?_
      have params : ∀ p ∈ [(⟨slot, .required⟩ : Parameter)], p.binding ≠ v := by simpa using other
      have args : WalkT.Spends v False False (pure (Arguments.positional []))
          fun a => v ∈ a.bindings :=
        (WalkT.Spends.pure _).congr (by simp [Arguments.bindings]) Iff.rfl
      exact (WalkT.Spends.blockCall params result (.method receiver "each") args (body hs)).congr
        (by simp [Callee.bindings, eq_comm]) (by simp)
    all_goals exact unread (failAt _ _)
  case guarded stmts ensure =>
    have hs := hp.all .body stmts (by simp)
    cases ensure with
    | none => exact unread (WalkT.Spends.unguarded (into_body result hs))
    | some clause =>
      have hc := hp.all .ensure clause (by simp)
      exact unread (WalkT.Spends.guarded (into_body result hs) (effects hc))
  case returnWith args =>
    have hn := hp.items .arg args (by simp)
    refine nothing (by simp [Kind.delivery]) (returnValue info ?_)
    split
    · exact aggregate clean info fun klass array other => elements other array hn
    · exact body fun n hm => (hn n hm).1
  case breakWith args =>
    have hn := hp.items .arg args (by simp)
    exact nothing (by simp [Kind.delivery]) (WalkT.Spends.jumpOut info .break (discards hn))
  case nextWith args =>
    have hn := hp.items .arg args (by simp)
    exact nothing (by simp [Kind.delivery]) (WalkT.Spends.jumpOut info .next (discards hn))
  case redo =>
    exact nothing (by simp [Kind.delivery])
      (WalkT.Spends.jumpOut info .redo (idle ()))
  case call r method args pass block =>
    have hr := hp.all .receiver r.toList (by simp)
    have hn := hp.items .arg args (by simp)
    have hpass := hp.all .blockPass pass.toList (by simp)
    have hb := hp.parts .block block.toList (by simp)
    have array := aggregate clean info fun klass array other => elements other array hn
    refine unread (feed (receiver hp.own.1 hr) fun receiver => ?_)
    exact (send info result (.method receiver method)
      (arguments args array (values fun n hm => (hn n hm).1)) (passed hpass) (literal hb)).congr
        (by simp [Callee.bindings, eq_comm]) Iff.rfl
  case super args pass block =>
    have hn := hp.items .arg args (by simp)
    have hpass := hp.all .blockPass pass.toList (by simp)
    have hb := hp.parts .block block.toList (by simp)
    have array := aggregate clean info fun klass array other => elements other array hn
    exact unread ((send info result .super
      (arguments args array (values fun n hm => (hn n hm).1)) (passed hpass) (literal hb)).congr
        (by simp [Callee.bindings]) Iff.rfl)
  case zsuper block =>
    have hb := hp.parts .block block.toList (by simp)
    refine unread ?_
    unfold Lowering.construct
    cases hm : info.scope.bind (·.method) with
    | none => exact failAt _ _
    | some method =>
      have params : ∀ p ∈ method.params, p.binding ≠ v :=
        fun p hm' => hp.own.1 _ (Info.parameter_mem_bindings hm hm')
      exact (send info result .super (passParameters clean info params) (by simp)
        (literal hb)).congr (by simp [Callee.bindings]) Iff.rfl
  all_goals
    exact nothing (by simp [Kind.delivery]) (idle ())

lemma ownValue : Gives v (Lowering.ownValue env info kind) := by
  cases kind
  case program stmts | paren stmts => exact body (hp.all .body stmts (by simp))
  case begin n => exact (hp.child _ (by simp)).value
  case void => exact constTemp .nil
  case literal c => exact constTemp c
  case content text => exact constTemp (.str text)
  case str parts =>
    have hn := hp.all .part parts (by simp)
    exact feed (constTemp _) fun start => (concat hn start).congr (by simp) Iff.rfl
  case embed stmts =>
    have hn := hp.all .body stmts (by simp)
    exact feed (body hn) fun w => (callValue w "to_s" []).congr (by simp) Iff.rfl
  case regexp parts options =>
    have hn := hp.all .part parts (by simp)
    refine feed (constTemp _) fun start => ?_
    refine (WalkT.Spends.bind (concat hn start) (P := False) (Q := False) fun text => ?_).congr
      Iff.rfl (by simp)
    refine feed (constTemp _) fun options => ?_
    refine wellKnown_bind clean info "Regexp" fun klass other => ?_
    exact (callValue klass "new" [text, options]).congr (by simp [other, eq_comm, or_comm]) Iff.rfl
  case array items =>
    have hn := hp.items .element items (by simp)
    exact aggregate clean info fun klass array other => elements other array hn
  case selfRef => exact selfTemp "self" hp.own.1
  case varRef name =>
    exact resolved_bind "var-ref" hp.own.1 fun b other => readVariable_other other
  case varTarget name =>
    exact resolved_bind "var-field" hp.own.1 fun b other => readVariable_other other
  case assign target n =>
    have hv := hp.child n (by simp)
    have ht := hp.part target (by simp)
    rcases target with ⟨target, kind⟩
    cases kind
    case varTarget name => exact assignVariable ht.own.1 hv.value _ fun _ => id
    case fieldTarget r name =>
      have hr := ht.child r (by simp)
      exact assignField name hr.value hv.value _ fun _ => id
    all_goals exact failAt _ _
  case binary l op r =>
    have hl := hp.child l (by simp)
    have hr := hp.child r (by simp)
    refine feed hl.value fun lhs => feed hr.value fun rhs => ?_
    exact (callValue lhs op.method [rhs]).congr (by simp [eq_comm, or_comm]) Iff.rfl
  case unary op n =>
    have hn := hp.child n (by simp)
    exact feed hn.value fun w => (callValue w op.method []).congr (by simp) Iff.rfl
  all_goals exact failAt _ _

omit clean in
lemma ownEffect : Ignores v (Lowering.ownEffect env info kind) := by
  have nothing : Ignores v (pure () : Traced Unit) := idle ()
  cases kind
  case program stmts | paren stmts => exact effects (hp.all .body stmts (by simp))
  case begin n => exact (hp.child _ (by simp)).effect
  case void | selfRef | varRef name | varTarget name | literal c | content text => exact nothing
  case str parts | regexp parts options => exact effects (hp.all .part parts (by simp))
  case embed stmts => exact effects (hp.all .body stmts (by simp))
  case array items => exact discards (hp.items .element items (by simp))
  case assign target n =>
    have hv := hp.child n (by simp)
    have ht := hp.part target (by simp)
    rcases target with ⟨target, kind⟩
    cases kind
    case varTarget name =>
      exact skip (assignVariable ht.own.1 hv.value _ fun _ => False.elim) fun _ => nothing
    case fieldTarget r name =>
      have hr := ht.child r (by simp)
      exact skip (assignField name hr.value hv.value _ fun _ => False.elim) fun _ => nothing
    all_goals exact failAt _ _
  case binary l op r =>
    have hl := hp.child l (by simp)
    have hr := hp.child r (by simp)
    refine feed hl.value fun lhs => feed hr.value fun rhs => ?_
    exact (call none lhs op.method [rhs]).congr (by simp [eq_comm, or_comm]) (by simp)
  case unary op n =>
    have hn := hp.child n (by simp)
    exact feed hn.value fun w => (call none w op.method []).congr (by simp) (by simp)
  all_goals exact failAt _ _

lemma node : Lowered v env (.mk info kind) where
  value := by
    unfold Lowering.value
    refine WalkT.Spends.nested ?_
    cases hd : kind.delivery info with
    | own => exact ownValue clean hp
    | filled =>
      refine WalkT.Spends.allocTemp_bind fun t => ?_
      obtain ⟨R, only, spends⟩ := construct (some t) clean hp (Or.inr hd)
      refine (WalkT.Spends.andThen spends (.pure (L := (· = v)) t)).congr ?_ (by simp)
      have : R → t = v := fun h => Option.some.inj (only h)
      tauto
    | nothing =>
      obtain ⟨R, only, spends⟩ := construct none clean hp (Or.inl rfl)
      have : ¬ R := fun h => by cases only h
      exact (WalkT.Spends.andThen spends (constTemp .nil)).congr (by simp [this]) (by simp)
  effect := by
    unfold Lowering.effect
    refine WalkT.Spends.nested ?_
    have effects : Ignores v (Lowering.construct env info none kind) := by
      obtain ⟨R, only, spends⟩ := construct none clean hp (Or.inl rfl)
      have : ¬ R := fun h => by cases only h
      exact WalkT.Spends.congr spends (by simp [this]) (by simp)
    cases kind.delivery info with
    | own => exact ownEffect hp
    | filled => exact effects
    | nothing => exact effects

omit hp in
/-- **The lowering of a tree spends every temporary**, and leaves at most the value of the tree. -/
lemma lowering (n : Node) (lacks : n.Each (Node.Lacks v)) : Lowered v env n := by
  induction n using Node.induction_below with
  | step n ih =>
    rcases n with ⟨info, kind⟩
    exact node clean ⟨lacks, fun d hd => ih d hd (lacks.below hd)⟩

end

end Traced

/-! ## Whole trees -/

/-- No temporary is known about a node of the tree, and none is a parameter of a block of it. -/
def Node.TemporaryFree (root : Node) : Prop :=
  root.Each fun n => (∀ b ∈ n.info.bindings, b.kind ≠ .temporary) ∧
    ∀ p ∈ n.kind.params, p.binding.kind ≠ .temporary

lemma Node.TemporaryFree.lacks {root : Node} (h : root.TemporaryFree) {v : Binding}
    (temporary : v.kind = .temporary) : root.Each (Node.Lacks v) := by
  have other : ∀ b : Binding, b.kind ≠ .temporary → b ≠ v := by
    rintro b hb rfl
    exact hb temporary
  exact ⟨⟨fun b hb => other b (h.1.1 b hb), fun p hp => other _ (h.1.2 p hp)⟩, fun d hd =>
    ⟨fun b hb => other b ((h.2 d hd).1 b hb), fun p hp => other _ ((h.2 d hd).2 p hp)⟩⟩

namespace Lowering

variable {host : Host} {types : String → Option Binding} {options : Options} {root : Node}
  {g : Graph} {v : Binding}

/-- The number of temporaries that the lowering of a tree hands out. -/
def temporaryCount (types : String → Option Binding) (options : Options) (root : Node) : Nat :=
  (outcome types options root).2.builder.tempCount

/-- The binding is the subject of a `case` without candidates. -/
def BareSubject (types : String → Option Binding) (options : Options) (root : Node) (v : Binding) :
    Prop :=
  .subject v ∈ visits types options root

instance : DecidablePred (BareSubject types options root) :=
  fun _ => inferInstanceAs (Decidable (_ ∈ _))

lemma rooted_start : (start options root).Rooted := tidy_start.rooted

lemma gives_start (options : Options) (root : Node) {b : Builder} :
    Builder.Gives v (start options root) b ↔ ∃ k, 1 ≤ k ∧ k ≤ b.tempCount ∧ v = .temporary k := by
  constructor
  · rintro ⟨k, rfl, first, last⟩
    exact ⟨k, first, Nat.le_sub_one_of_lt last, rfl⟩
  · rintro ⟨k, first, last, rfl⟩
    refine ⟨k, rfl, first, ?_⟩
    simp only [Builder.tempCount] at last
    omega

/-- The whole walk returns the value that the lowering of the tree leaves. -/
lemma wholeTree_spends {env : Environment} (lowered : Traced.Lowered v env root) :
    WalkT.Ignores v (WalkT.Variant.traced.wholeTree env root) := by
  refine WalkT.Spends.feed lowered.value fun w => ?_
  refine ((WalkT.Spends.emit (.ret w) ?_).followed (.jump .exit)).congr ?_ ?_ <;>
    simp [Instruction.bindings, Instruction.reads, Instruction.dest?, eq_comm]

lemma lowered_of_free {env : Environment} (free : root.TemporaryFree)
    (registered : ∀ name b, env.types name = some b → b.kind ≠ .temporary)
    (temporary : v.kind = .temporary) : Traced.Lowered v env root := by
  refine Traced.lowering ?_ root (free.lacks temporary)
  rintro name b hb rfl
  exact registered name b hb temporary

section

variable (free : root.TemporaryFree)
  (registered : ∀ name b, types name = some b → b.kind ≠ .temporary)
  (temporary : v.kind = .temporary) (h : build host types options root = .ok g)

include free registered temporary h

/-- What has happened to a temporary when the graph is finished. -/
lemma spent_of_build :
    ∃ b, Builder.Spent (BareSubject types options root v) v False False False (start options root) b ∧
      b.graph = g ∧ temporaryCount types options root = b.tempCount := by
  obtain ⟨-, s, yields, graph, -⟩ := run_eq_ok_iff.1 (run_of_build h)
  have ended : outcome types options root = (.ok (), s) := yields
  have lowered : Traced.Lowered v ⟨types, options.maxDepth⟩ root :=
    lowered_of_free free registered temporary
  have spends := wholeTree_spends lowered
  exact ⟨s.builder, spends rooted_start (ends_visits ended), graph, by rw [temporaryCount, ended]⟩

/-- Every temporary that was handed out is written, and no other one is named. -/
lemma written_of_build :
    ((∃ k, 1 ≤ k ∧ k ≤ temporaryCount types options root ∧ v = .temporary k) → g.Writes v) ∧
    (g.Names v → ∃ k, 1 ≤ k ∧ k ≤ temporaryCount types options root ∧ v = .temporary k) := by
  obtain ⟨b, spent, rfl, count⟩ := spent_of_build free registered temporary h
  rw [count, ← gives_start options root]
  refine ⟨fun given => spent.written (Or.inr given), ?_⟩
  rintro ⟨n, i, mem, named⟩
  simpa using spent.named i ⟨n, by rwa [code_start]⟩ named

/-- The temporaries of a graph are those that were handed out. -/
lemma names_temporary_iff :
    g.Names v ↔ ∃ k, 1 ≤ k ∧ k ≤ temporaryCount types options root ∧ v = .temporary k := by
  obtain ⟨writes, given⟩ := written_of_build free registered temporary h
  refine ⟨given, fun handed => ?_⟩
  obtain ⟨n, i, mem, dest⟩ := writes handed
  exact ⟨n, i, mem, by simp [Instruction.bindings, dest]⟩

/-- A temporary that was handed out is read, unless it holds a block literal or is the subject of a
`case` without candidates. -/
lemma read_of_build
    (handed : ∃ k, 1 ≤ k ∧ k ≤ temporaryCount types options root ∧ v = .temporary k) :
    g.Reads v ∨ g.Encloses v ∨ BareSubject types options root v := by
  obtain ⟨b, spent, rfl, count⟩ := spent_of_build free registered temporary h
  rw [count, ← gives_start options root] at handed
  rcases spent.settled (Or.inr handed) with (bare | read | encloses) | left
  · exact Or.inr (Or.inr bare)
  · exact Or.inl read
  · exact Or.inr (Or.inl encloses)
  · exact left.elim

end

/-- **No temporary is leaked.** If neither the tree nor the registered types name a temporary, the
temporaries of the graph are those that were handed out. Each of them is written, and each of them is
read, unless it holds a block literal or is the subject of a `case` without candidates. -/
theorem no_temporary_leaked (h : build host types options root = .ok g) (free : root.TemporaryFree)
    (registered : ∀ name b, types name = some b → b.kind ≠ .temporary) :
    (∀ v : Binding, v.kind = .temporary →
      (g.Names v ↔ ∃ k, 1 ≤ k ∧ k ≤ temporaryCount types options root ∧ v = .temporary k)) ∧
    ∀ k, 1 ≤ k → k ≤ temporaryCount types options root → g.Writes (.temporary k) ∧
      (g.Reads (.temporary k) ∨ g.Encloses (.temporary k) ∨
        BareSubject types options root (.temporary k)) := by
  refine ⟨fun v temporary => names_temporary_iff free registered temporary h,
    fun k first last => ⟨?_, ?_⟩⟩
  · exact (written_of_build free registered rfl h).1 ⟨k, first, last, rfl⟩
  · exact read_of_build free registered rfl h ⟨k, first, last, rfl⟩

/-- A loop over a list that does nothing but compare a variable with nothing. -/
def unmatchedEach : Node :=
  .mk {} (.forIn (.mk { binding := some ⟨"x", .localVar⟩ } (.varTarget "x"))
    (.mk { binding := some ⟨"xs", .localVar⟩ } (.varRef "xs"))
    [.mk {} (.case (.mk { binding := some ⟨"x", .localVar⟩ } (.varRef "x")) [] none)])

theorem no_temporary_leaked_unmatchedEach : ∃ g, build .generous builtinTypes {} unmatchedEach = .ok g ∧
    unmatchedEach.TemporaryFree ∧ temporaryCount builtinTypes {} unmatchedEach = 5 ∧
    (∀ v : Binding, v.kind = .temporary → (g.Names v ↔ ∃ k, 1 ≤ k ∧ k ≤ 5 ∧ v = .temporary k)) ∧
    (∀ k, 1 ≤ k → k ≤ 5 → g.Writes (.temporary k) ∧
      (g.Reads (.temporary k) ∨ g.Encloses (.temporary k) ∨
        BareSubject builtinTypes {} unmatchedEach (.temporary k))) ∧
    ∀ k < 6, BareSubject builtinTypes {} unmatchedEach (.temporary k) ↔ k = 5 := by
  obtain ⟨g, h, -⟩ : ∃ g, build .generous builtinTypes {} unmatchedEach = .ok g ∧ True :=
    exists_of_build (by decide +kernel)
  have free : unmatchedEach.TemporaryFree := by
    simp [Node.TemporaryFree, unmatchedEach, Node.each_mk, Kind.children, Kind.fields, Kind.inRole,
      Info.bindings, Node.info, Node.kind, Kind.params]
  have count : temporaryCount builtinTypes {} unmatchedEach = 5 := by decide +kernel
  have leaked := no_temporary_leaked h free fun _ _ => kind_of_builtinTypes
  rw [count] at leaked
  exact ⟨g, h, free, count, leaked.1, leaked.2, by decide +kernel⟩

end Lowering

end ControlFlow
