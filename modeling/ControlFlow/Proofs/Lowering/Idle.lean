import Mathlib.Logic.Relation
import ControlFlow.Proofs.Lowering.Elements
import ControlFlow.Proofs.Lowering.Places
/-!
# Statements without effect

A node is pure if it does nothing where nobody needs its value. Lowering such a node for its effects
adds nothing to a graph, and lowering any other node adds something, as can be read off its code: all
code but what is put together from nothing takes a temporary, adds an instruction or makes a block.

So pure statements can be put in front of other statements, and left out there. Where there is no limit
on the depth of trees this makes no difference to lowering.
-/

namespace ControlFlow

open Construction Lowering

/-- A node that does nothing where nobody needs its value. The target of an assignment does nothing by
itself, bound or not; a variable without a binding is a call. -/
inductive Node.Pure : Node → Prop where
  | literal {info : Info} {c : Constant} : Pure (.mk info (.literal c))
  | content {info : Info} {text : String} : Pure (.mk info (.content text))
  | void {info : Info} : Pure (.mk info .void)
  | selfRef {info : Info} : Pure (.mk info .selfRef)
  | varTarget {info : Info} {name : String} : Pure (.mk info (.varTarget name))
  | varRef {info : Info} {name : String} (bound : info.binding.isSome) :
      Pure (.mk info (.varRef name))
  | program {info : Info} {ns : List Node} (parts : ∀ n ∈ ns, Pure n) : Pure (.mk info (.program ns))
  | paren {info : Info} {ns : List Node} (parts : ∀ n ∈ ns, Pure n) : Pure (.mk info (.paren ns))
  | begin {info : Info} {n : Node} (part : Pure n) : Pure (.mk info (.begin n))
  | str {info : Info} {ns : List Node} (parts : ∀ n ∈ ns, Pure n) : Pure (.mk info (.str ns))
  | regexp {info : Info} {ns : List Node} {options : String} (parts : ∀ n ∈ ns, Pure n) :
      Pure (.mk info (.regexp ns options))
  | embed {info : Info} {ns : List Node} (parts : ∀ n ∈ ns, Pure n) : Pure (.mk info (.embed ns))
  | array {info : Info} {ns : List Node} (parts : ∀ n ∈ ns, Pure n.operand) :
      Pure (.mk info (.array ns))

/-! ## Code that does nothing -/

/-- Code that is put together from nothing. -/
def Code.Idle : Code → Prop
  | .skip => True
  | .seq p q => p.Idle ∧ q.Idle
  | _ => False

/-- The graph, the current block and the counters are what they were. -/
structure Builder.Still (b b' : Builder) : Prop where
  graph : b'.graph = b.graph
  current : b'.current = b.current
  nextBlock : b'.nextBlock = b.nextBlock
  nextTemp : b'.nextTemp = b.nextTemp

/-- An instruction is added to a block of the graph, or a block is made for it. -/
lemma Builder.code_emit {b : Builder} (rooted : b.Rooted) (i : Instruction)
    (next : (b.emit i).nextBlock = b.nextBlock) :
    ∃ n, (b.emit i).graph.code n ≠ b.graph.code n := by
  cases hb : b.current with
  | some n =>
    refine ⟨n, ?_⟩
    rw [emit_eq hb, Graph.code_connect, b.graph.code_push_self (rooted n hb)]
    simp
  | none =>
    simp [emit, openBlock, hb, createBlock, reserveBlock, note] at next

namespace Code.Lays

variable {c : Code} {l : BlockName} {T : JumpTargets} {b b' : Builder}

lemma eq_of_idle (h : c.Lays l T b b') (idle : c.Idle) : b' = b := by
  induction h with
  | skip => rfl
  | seq _ _ ihp ihq => rw [ihq idle.2, ihp idle.1]
  | _ => exact idle.elim

/-- Code that changes neither code nor counters is put together from nothing. -/
lemma idle (h : c.Lays l T b b') (rooted : b.Rooted) (next : b'.nextBlock = b.nextBlock)
    (temp : b'.nextTemp = b.nextTemp) (code : ∀ n, b'.graph.code n = b.graph.code n) : c.Idle := by
  induction c generalizing l T b b' with
  | skip => trivial
  | seq p q ihp ihq =>
    cases h with
    | @seq _ _ _ _ _ b₁ _ hp hq =>
      -- what lies between two builders that agree agrees with them
      have grows := hp.growth
      have grows' := hq.growth
      have le := grows.next
      have le' := grows'.next
      have temps := hp.nextTemp_le
      have temps' := hq.nextTemp_le
      have same : ∀ n, b₁.graph.code n = b.graph.code n := by
        intro n
        have after := grows'.grows n
        rw [code n] at after
        exact after.eq_of_length_le (grows.grows n).length_le
      have first : p.Idle := ihp hp rooted (by omega) (by omega) same
      obtain rfl := hp.eq_of_idle first
      exact ⟨first, ihq hq rooted next temp code⟩
  | alloc =>
    cases h
    simp at temp
  | emit i plain =>
    cases h
    obtain ⟨n, changed⟩ := Builder.code_emit rooted i next
    exact changed (code n)
  | jump kind =>
    cases h
    obtain ⟨n, changed⟩ := Builder.code_emit rooted _ next
    exact changed (code n)
  | leave =>
    cases h
    obtain ⟨n, changed⟩ := Builder.code_emit rooted _ next
    exact changed (code n)
  | _ => exact absurd (h.growth_strict.2 trivial) (by omega)

end Code.Lays

/-! ## Lowerings that do nothing -/

/-- Whether a lowering may have code that does nothing. -/
structure Idles (α : Type) where
  holds : Prop

namespace Idles

instance : Monad Idles where
  pure _ := ⟨True⟩
  bind x f := ⟨x.holds ∧ ∃ a, (f a).holds⟩

instance : Construction Idles where
  failAt _ _ := ⟨False⟩
  nested _ _ x := x
  allocTemp := ⟨False⟩
  emit _ _ := ⟨False⟩
  jumpOut _ _ _ := ⟨False⟩
  twoWays _ _ _ _ := ⟨False⟩
  detour _ _ _ := ⟨False⟩
  conditional _ _ _ _ := ⟨False⟩
  select _ _ := ⟨False⟩
  loop _ _ _ := ⟨False⟩
  guarded _ _ := ⟨False⟩
  blockCall _ _ _ _ _ := ⟨False⟩

@[simp] lemma holds_bind {α β : Type} (x : Idles α) (f : α → Idles β) :
    (x >>= f).holds ↔ x.holds ∧ ∃ a, (f a).holds := Iff.rfl

section

variable {α : Type} {info : Info}

@[simp] lemma not_holds_failAt (fault : LowerFault) : ¬ (failAt info fault : Idles α).holds := id

@[simp] lemma nested_eq (env : Environment) (x : Idles α) : nested env info x = x := rfl

@[simp] lemma not_holds_allocTemp : ¬ (allocTemp : Idles Binding).holds := id

@[simp] lemma not_holds_copy (dest src : Binding) : ¬ (copy dest src : Idles Unit).holds := id

@[simp] lemma not_holds_call (dest : Option Binding) (receiver : Binding) (method : String)
    (args : List Binding) : ¬ (call dest receiver method args : Idles Unit).holds := id

lemma not_holds_send (dest : Option Binding) (callee : Callee) (args : Idles Arguments)
    (pass : Option (Idles Binding)) (block : BlockLiteral Idles) :
    ¬ (send info dest callee args pass block).holds := by
  intro h
  cases block with
  | absent =>
    cases pass with
    | none => exact h.2.elim fun _ sent => sent
    | some value => exact h.2.elim fun _ h => h.2.elim fun _ sent => sent
  | present params body =>
    simp only [send] at h
    split at h <;> exact h
  | misplaced blockInfo tag =>
    simp only [send] at h
    split at h <;> exact h

end

/-- The code that a plan allows does nothing only where this may be so. -/
lemma related (env : Environment) : Construction.Related env env (fun _ => True)
    (fun _ _ _ _ p q => ∀ J t a c t', p J t a c t' → c.Idle → q.holds :
      Relation Set.univ Plan Idles) where
  types := rfl
  registered _ := trivial
  pure _ _ := fun _ _ _ _ _ _ _ => trivial
  bind hx hf := by
    rintro J t b _ t' ⟨a, p, t₁, q, hp, hq, rfl⟩ ⟨idle, idle'⟩
    exact ⟨hx J t a p t₁ hp idle, a, hf a J t₁ b q t' hq idle'⟩
  mono hx _ := hx
  failAt _ _ := fun _ _ _ _ _ h _ => h
  nested _ _ _ hx := hx
  allocTemp {_ _} := by
    rintro J t a _ t' ⟨-, rfl, -⟩ idle
    exact idle
  emit i plain _ _ := by
    rintro J t a _ t' ⟨rfl, -⟩ idle
    exact idle
  jumpOut _ _ _ _ _ _ _ := by
    rintro J t a _ t' ⟨-, p, -, rfl⟩ ⟨-, idle⟩
    exact idle
  returnValue _ _ _ _ _ := by
    rintro J t a _ t' ⟨-, p, -, rfl⟩ ⟨-, idle⟩
    exact idle
  twoWays _ _ _ _ _ _ _ _ := by
    rintro J t a _ t' ⟨_, _, _, _, _, _, -, -, -, rfl⟩ idle
    exact idle
  detour _ _ _ _ _ := by
    rintro J t a _ t' ⟨_, -, rfl⟩ idle
    exact idle
  conditional _ _ _ _ _ _ _ _ _ _ := by
    rintro J t a _ t' ⟨_, -, rfl⟩ idle
    exact idle
  select _ _ := by
    rintro J t a _ t' ⟨_, _, _, _, -, -, rfl⟩ idle
    exact idle
  loop _ _ _ _ _ _ _ _ _ _ _ := by
    rintro J t a _ t' ⟨_, _, _, _, _, _, _, -, -, -, rfl⟩ idle
    exact idle
  unguarded _ := by
    rintro J t a _ t' ⟨_, -, rfl⟩ idle
    exact idle
  guarded _ _ := by
    rintro J t a _ t' ⟨_, _, _, _, _, -, -, -, rfl⟩ idle
    exact idle
  blockCall _ _ _ _ _ _ _ _ _ _ _ := by
    rintro J t a _ t' ⟨_, _, _, _, _, _, -, -, -, rfl⟩ idle
    exact idle

end Idles

namespace Lowering

attribute [local simp] Kind.fields Kind.children

variable {env : Environment} {n : Node} {ns : List Node}

lemma holds_effects (h : (effects env ns : Idles Unit).holds) :
    ∀ n ∈ ns, (effect env n : Idles Unit).holds := by
  induction ns with
  | nil => simp
  | cons n ns ih =>
    obtain ⟨first, _, rest⟩ := h
    simpa using ⟨first, ih rest⟩

lemma discards_cons {m : Type → Type} [Monad m] [Construction m] (env : Environment) (n : Node)
    (ns : List Node) : (discards env (n :: ns) : m Unit) = (do
      effect env n.operand
      discards env ns) := by
  rcases n with ⟨info, kind⟩
  cases kind <;> rfl

lemma holds_discards (h : (discards env ns : Idles Unit).holds) :
    ∀ n ∈ ns, (effect env n.operand : Idles Unit).holds := by
  induction ns with
  | nil => simp
  | cons n ns ih =>
    rw [discards_cons] at h
    obtain ⟨first, _, rest⟩ := h
    simpa using ⟨first, ih rest⟩

/-- Only pure nodes may do nothing. -/
lemma pure_of_holds (h : (effect env n : Idles Unit).holds) : n.Pure := by
  induction n using Node.induction_below with
  | step n ih =>
    obtain ⟨info, kind⟩ := n
    have parts : ∀ ns, (∀ c ∈ ns, c ∈ kind.children) → (effects env ns : Idles Unit).holds →
        ∀ c ∈ ns, c.Pure :=
      fun ns below h c hc => ih c (.child (below c hc)) (holds_effects h c hc)
    -- every node that is not pure has an operation that is not idle
    cases kind with
    | literal | content | void | selfRef | varTarget => constructor
    | varRef name =>
      by_cases bound : info.binding.isSome = true
      · exact .varRef bound
      · simp [effect, Kind.delivery, bound, construct, selfTemp, readVariable] at h
    | program ns => exact .program (parts ns (by simp) h)
    | paren ns => exact .paren (parts ns (by simp) h)
    | begin n => exact .begin (ih n (.child (by simp)) h)
    | str ns => exact .str (parts ns (by simp) h)
    | regexp ns => exact .regexp (parts ns (by simp) h)
    | embed ns => exact .embed (parts ns (by simp) h)
    | array ns =>
      refine .array fun c hc => ih c.operand ?_ (holds_discards h c hc)
      have below : c ∈ (Kind.array ns).children := by simpa using hc
      obtain ⟨i, k⟩ := c
      cases k
      case splat c => exact .inner below (.child (.head _))
      all_goals exact .child below
    | assign target v =>
      obtain ⟨i, k⟩ := target
      cases k <;> simp [effect, Kind.delivery, ownEffect, assignVariable, assignField,
        callSetter] at h
    | opAssign target op v =>
      obtain ⟨i, k⟩ := target
      cases k <;> simp [effect, Kind.delivery, construct, updateVariable, updateField, callValue,
        readVariable] at h
    | forIn target iterable ns =>
      obtain ⟨i, k⟩ := target
      cases k
      case varTarget => exact h.2.elim fun _ h => h.2.elim fun _ h => h.elim
      all_goals exact h.elim
    | call r method args pass block =>
      obtain ⟨-, _, sent⟩ := h
      exact (Idles.not_holds_send _ _ _ _ _ sent).elim
    | super args pass block => exact (Idles.not_holds_send _ _ _ _ _ h).elim
    | zsuper block =>
      simp only [effect, Kind.delivery, construct, Idles.nested_eq] at h
      split at h
      · exact h.elim
      · exact (Idles.not_holds_send _ _ _ _ _ h).elim
    | binary l op r =>
      by_cases two : op.shortCircuits = true
      · simp only [effect, Kind.delivery, two, construct, Idles.nested_eq] at h
        exact h.2.elim fun _ h => h.elim
      · simp [effect, Kind.delivery, two, ownEffect] at h
    | unary op n => simp [effect, Kind.delivery, ownEffect] at h
    | command ns => simp [effect, Kind.delivery, construct, constTemp] at h
    | guarded ns clause => cases clause <;> exact h.elim
    | _ => exact h.elim

/-- A node that is lowered for its effects and adds nothing is pure. -/
lemma pure_of_still {s s' : WalkState} (rooted : s.builder.Rooted)
    (h : (effect env n : Walk Unit).Yields s () s') (still : s.builder.Still s'.builder) :
    n.Pure := by
  have linked := ((Linked.related env env rfl).everywhere n).effect ⟨Set.univ, subset_rfl⟩
  obtain ⟨b', c, rfl, planned, lays⟩ := linked _ _ _ _ _ h
  have idle : c.Idle := (lays .exit).idle rooted still.nextBlock still.nextTemp
    fun n => by rw [still.graph]
  exact pure_of_holds (((Idles.related env).everywhere n).effect ⟨Set.univ, subset_rfl⟩
    _ _ _ _ _ planned idle)

end Lowering

/-! ## Walks without a limit -/

namespace WalkT

/-- Walks of any depth. -/
def Variant.free : Variant Id := { plain with nested := fun _ _ w => deeper w }

/-- Without a limit walks do the same, up to the limit. -/
lemma Agrees.related_free (env : Environment) : Construction.Related env env (fun _ => True)
    (Pairing.relation (fun _ _ _ _ w w' => Agrees (fun e => e.fault = .depth env.maxDepth) w w')
      .plain .free) := by
  refine (Agrees.steps _).related ⟨rfl, fun _ _ _ info fault => .failAt info fault, ?_,
    (Agrees.steps _).select⟩
  intro _ _ α info w w' hw s s' alike
  by_cases full : env.maxDepth ≤ s.depth
  · exact Or.inl ⟨_, s, rfl, nested_of_le info w full⟩
  · have below := (hw 0 ∅).deeper s s' alike
    simp only [Fails] at below ⊢
    rwa [show Variant.nested .plain env info w = WalkT.nested env info w from rfl,
      nested_of_lt info w full]

end WalkT

namespace Lowering

open WalkT

variable {env : Environment} {n n' : Node} {ns ns' : List Node}

lemma effects_of_pure (h : ∀ n ∈ ns, (effect env n : Varied .free Unit) = pure ()) :
    (effects env ns : Varied .free Unit) = pure () := by
  induction ns with
  | nil => rfl
  | cons n ns ih =>
    rw [effects, h n (.head _), pure_bind]
    exact ih fun n hn => h n (.tail _ hn)

lemma discards_of_pure (h : ∀ n ∈ ns, (effect env n.operand : Varied .free Unit) = pure ()) :
    (discards env ns : Varied .free Unit) = pure () := by
  induction ns with
  | nil => rfl
  | cons n ns ih =>
    rw [discards_cons, h n (.head _), pure_bind]
    exact ih fun n hn => h n (.tail _ hn)

lemma effect_of_pure (h : n.Pure) : (effect env n : Varied .free Unit) = pure () := by
  -- what is inside of a node is a level deeper, which makes no difference to nothing
  have inside : ∀ {info : Info} {x : Varied .free Unit}, x = pure () →
      Construction.nested env info x = (pure () : Varied .free Unit) := by
    rintro info _ rfl
    rfl
  induction h with
  | literal | content | void | selfRef | varTarget => exact inside rfl
  | varRef bound =>
    simp only [effect, Kind.delivery, if_pos bound, ownEffect]
    exact inside rfl
  | program _ ih => exact inside (effects_of_pure ih)
  | paren _ ih => exact inside (effects_of_pure ih)
  | begin _ ih => exact inside ih
  | str _ ih => exact inside (effects_of_pure ih)
  | regexp _ ih => exact inside (effects_of_pure ih)
  | embed _ ih => exact inside (effects_of_pure ih)
  | array _ ih => exact inside (discards_of_pure ih)

/-- A pure node that is lowered for its effects adds nothing. -/
lemma still_of_pure (h : n.Pure) {s s' : WalkState}
    (yields : (effect env n : Walk Unit).Yields s () s') : s.builder.Still s'.builder := by
  have agrees := ((Agrees.related_free env).everywhere n).effect ⟨Set.univ, subset_rfl⟩ ∅ ∅
  rw [effect_of_pure h] at agrees
  rcases agrees s s ⟨⟨_, rfl⟩, rfl, rfl⟩ with ⟨e, s₁, -, failed⟩ | ⟨r, s₁, s₂, ended, ended', alike⟩
  · cases (show _ = _ from yields).symm.trans failed
  · cases ended'
    obtain ⟨-, rfl⟩ := Prod.mk.inj ((show _ = _ from yields).symm.trans ended)
    obtain ⟨⟨journal, same⟩, -⟩ := alike
    exact ⟨by rw [same], by rw [same], by rw [same], by rw [same]⟩

/-! ## Pure statements in front of others -/

/-- Statements, and the same with one more pure one that is not the last. -/
inductive Pads : List Node → List Node → Prop where
  | same (ns : List Node) : Pads ns ns
  | insert (front : List Node) {n : Node} {back : List Node} (pure : n.Pure) (more : back ≠ []) :
      Pads (front ++ back) (front ++ n :: back)

end Lowering

/-- Changes the lists of statements of a kind, each of which has a role of its own. -/
def Kind.mapStatements {α : Type} (f : Role → List α → List α) : Kind α → Kind α
  | .program ns => .program (f .body ns)
  | .embed ns => .embed (f .body ns)
  | .paren ns => .paren (f .body ns)
  | .guarded ns clause => .guarded (f .body ns) (clause.map (f .ensure))
  | .ifThen c ns other => .ifThen c (f .body ns) other
  | .elsif c ns other => .elsif c (f .body ns) other
  | .elseThen ns => .elseThen (f .body ns)
  | .unlessThen c ns other => .unlessThen c (f .body ns) (other.map (f .otherwise))
  | .loop sense c ns => .loop sense c (f .body ns)
  | .forIn target n ns => .forIn target n (f .body ns)
  | .case n clauses other => .case n clauses (other.map (f .otherwise))
  | .whenThen cs ns => .whenThen cs (f .body ns)
  | .doBlock params ns => .doBlock params (f .body ns)
  | kind => kind

/-- A tree, and one with more pure statements in front of others. -/
inductive Node.Padded : Node → Node → Prop where
  | refl (n : Node) : Node.Padded n n
  | mk {info : Info} {k l : Kind Node} {f : Role → List Node → List Node}
      (pads : ∀ role ns, Lowering.Pads ns (f role ns))
      (kind : Kind.Rel (fun _ => Node.Padded) (k.mapStatements f) l) :
      Node.Padded (.mk info k) (.mk info l)

namespace Lowering

open WalkT

variable {env : Environment} {n n' : Node} {ns ns' : List Node}

lemma body_of_pads (h : Pads ns ns') : (body env ns' : Varied .free Binding) = body env ns := by
  cases h with
  | same => rfl
  | @insert front n back pure more =>
    induction front with
    | nil =>
      obtain ⟨m, ms, rfl⟩ := List.exists_cons_of_ne_nil more
      simp only [List.nil_append]
      rw [body, effect_of_pure pure]
      simp
    | cons m front ih =>
      have padded : (front ++ n :: back).isEmpty = false := by simp
      have bare : (front ++ back).isEmpty = false := by simp [more]
      rw [List.cons_append, List.cons_append, body, body, ih, padded, bare]

lemma effects_of_pads (h : Pads ns ns') :
    (effects env ns' : Varied .free Unit) = effects env ns := by
  cases h with
  | same => rfl
  | @insert front n back pure more =>
    induction front with
    | nil => rw [List.nil_append, List.nil_append, effects, effect_of_pure pure, pure_bind]
    | cons m front ih => rw [List.cons_append, List.cons_append, effects, effects, ih]

section

variable {m : Type → Type} [Monad m] [Construction m] {f : Role → List Node → List Node}

/-- Lists of statements can be changed where this makes no difference to lowering. -/
lemma same_mapStatements (bodies : ∀ role ns, (body env (f role ns) : m Binding) = body env ns)
    (effects : ∀ role ns, (effects env (f role ns) : m Unit) = effects env ns) (info : Info)
    (k : Kind Node) : Node.Same m env (.mk info k) (.mk info (k.mapStatements f)) := by
  have value : (value env (.mk info k) : m Binding) = value env (.mk info (k.mapStatements f)) := by
    cases k with
    | program | paren | embed | ifThen | loop =>
      simp only [Kind.mapStatements, Lowering.value, Kind.delivery, ownValue, construct, bodies,
        effects]
    | guarded ns other | unlessThen c ns other | case n clauses other =>
      cases other <;> simp only [Kind.mapStatements, Lowering.value, Kind.delivery, construct,
        otherwise, remaining, bodies, effects, Option.map]
    | forIn target n ns =>
      obtain ⟨i, k⟩ := target
      cases k <;> simp only [Kind.mapStatements, Lowering.value, Kind.delivery, construct, bodies]
    | _ => rfl
  have effect : (effect env (.mk info k) : m Unit) = effect env (.mk info (k.mapStatements f)) := by
    cases k with
    | program | paren | embed | ifThen | loop =>
      simp only [Kind.mapStatements, Lowering.effect, Kind.delivery, ownEffect, construct, bodies,
        effects]
    | guarded ns other | unlessThen c ns other | case n clauses other =>
      cases other <;> simp only [Kind.mapStatements, Lowering.effect, Kind.delivery, construct,
        otherwise, remaining, bodies, effects, Option.map]
    | forIn target n ns =>
      obtain ⟨i, k⟩ := target
      cases k <;> simp only [Kind.mapStatements, Lowering.effect, Kind.delivery, construct, bodies]
    | _ => rfl
  refine ⟨value, effect, ?_, ?_, ?_, ?_, ?_, ?_, ?_, ?_, ?_, ?_⟩
  · cases k <;> rfl
  · intro klass array ns
    cases k
    case splat => rfl
    all_goals exact congrArg (· >>= fun v => do
      pushValue array v
      elements env klass array ns) value
  · intro ns
    cases k
    case splat => rfl
    all_goals exact congrArg (· >>= fun _ => discards env ns) effect
  · intro result
    cases k with
    | ifThen | elsif | elseThen => simp only [Kind.mapStatements, alternative, bodies, effects]
    | loop sense => cases sense <;> rfl
    | _ => rfl
  · intro result subject unmatched ns
    cases k with
    | whenThen => simp only [Kind.mapStatements, cases, bodies, effects]
    | loop sense => cases sense <;> rfl
    | _ => rfl
  · intro info' dest callee args pass
    cases k with
    | doBlock => simp only [Kind.mapStatements, literal, bodies]
    | loop sense => cases sense <;> rfl
    | _ => rfl
  all_goals
    intros
    cases k with
    | loop sense => cases sense <;> rfl
    | _ => rfl

end

lemma same_of_padded (h : n.Padded n') : n.Same (Varied .free) env n' := by
  induction n' using Node.induction_below generalizing n with
  | step n' ih =>
    cases h with
    | refl => exact same_refl _
    | @mk info k l f pads kind =>
      refine same_trans (same_mapStatements (fun role ns => body_of_pads (pads role ns))
        (fun role ns => effects_of_pads (pads role ns)) info k) ?_
      generalize k.mapStatements f = k' at kind ⊢
      refine same_of_rel (.refl info) (by cases kind <;> rfl) (kind.imp_mem fun role c d _ mem h => ?_)
      exact ih d (.child (Kind.mem_children.2 ⟨role, mem⟩)) h

/-- Pure statements are put into a tree and left out in any order. -/
lemma same_of_eqvGen (h : Relation.EqvGen Node.Padded n n') :
    n.Same (Varied .free) env n' ∧ n.info = n'.info := by
  induction h with
  | rel n n' h => exact ⟨same_of_padded h, by cases h <;> rfl⟩
  | refl n => exact ⟨same_refl n, rfl⟩
  | symm n n' _ ih => exact ⟨same_symm ih.1, ih.2.symm⟩
  | trans n n' n'' _ _ ih ih' => exact ⟨same_trans ih.1 ih'.1, ih.2.trans ih'.2⟩

/-- Trees that are the same without a limit are lowered to the same, unless the limit is exceeded. -/
lemma build_of_same_free (host : Host) {types : String → Option Binding} {options : Options}
    (same : n.Same (Varied .free) ⟨types, options.maxDepth⟩ n') (info : n.info = n'.info) :
    (options.hasStack host = true ∧ ∃ root ∈ [n, n'], ∃ e,
        build host types options root = .error e ∧ e.fault = .depth options.maxDepth) ∨
      build host types options n = build host types options n' := by
  let env : Environment := ⟨types, options.maxDepth⟩
  have agrees (root : Node) : Agrees _ (wholeTree env root) (Variant.free.wholeTree env root) :=
    (Agrees.steps _).wholeTree (Agrees.related_free env) root
  have whole : Variant.free.wholeTree env n = Variant.free.wholeTree env n' := by
    simp only [Variant.wholeTree, env, same.value]
  by_cases stack : options.hasStack host = true
  · have fails {root : Node} {e : LowerError} {s : WalkState} (mem : root ∈ [n, n'])
        (stops : e.fault = .depth options.maxDepth)
        (failed : (wholeTree env root).Fails (initial options root) e s) :
        ∃ root ∈ [n, n'], ∃ e, build host types options root = .error e ∧
          e.fault = .depth options.maxDepth := by
      refine ⟨root, mem, e, ?_, stops⟩
      rw [build, run_of_stack stack, show outcome types options root = _ from failed]
      rfl
    -- both trees are walked without a limit from the start of the second one
    rcases agrees n (initial options n) (initial options n') ⟨⟨_, rfl⟩, rfl, rfl⟩ with
      ⟨e, s, stops, failed⟩ | ⟨r, s₁, s₁', ended, free, ⟨_, graph⟩, -⟩
    · exact Or.inl ⟨stack, fails (.head _) stops failed⟩
    · rcases agrees n' (initial options n') (initial options n') ⟨⟨_, rfl⟩, rfl, rfl⟩ with
        ⟨e, s, stops, failed⟩ | ⟨r', s₂, s₂', ended', free', ⟨_, graph'⟩, -⟩
      · exact Or.inl ⟨stack, fails (.tail _ (.head _)) stops failed⟩
      · right
        rw [whole] at free
        obtain ⟨rfl, rfl⟩ := Prod.mk.inj (free.symm.trans free')
        have graphs : s₁.builder.graph = s₂.builder.graph :=
          (Builder.mk.inj (graph.symm.trans graph')).1
        rw [build, build, run_of_stack stack, run_of_stack stack,
          show outcome types options n = _ from ended, show outcome types options n' = _ from ended']
        cases r with
        | ok _ => simp only [conclude, graphs]
        | error _ => rfl
  · obtain ⟨reason, refused⟩ := options.exists_refusal stack
    rw [build, build, run, run, refused, info]
    exact Or.inr rfl

/-- **Just the pure nodes add nothing.** A node that is lowered for its effects leaves the graph, the
current block and the counters as they were if and only if it is pure. So pure statements that are put
in front of other statements, or left out there, anywhere in a tree, make no difference to its graph,
as long as the trees are not too deep. -/
theorem pure_statements_add_nothing (host : Host) (types : String → Option Binding)
    (options : Options) :
    (∀ env n s s', s.builder.Rooted → (effect env n : Walk Unit).Yields s () s' →
      (s.builder.Still s'.builder ↔ n.Pure)) ∧
    ∀ n n', Relation.EqvGen Node.Padded n n' →
      (∀ root ∈ [n, n'], root.depth ≤ options.maxDepth ∨
        ∀ e, build host types options root = .error e → e.fault ≠ .depth options.maxDepth) →
      build host types options n = build host types options n' := by
  refine ⟨fun env n s s' rooted yields => ?_, fun n n' padded fits => ?_⟩
  · exact ⟨pure_of_still rooted yields, fun pure => still_of_pure pure yields⟩
  · obtain ⟨same, info⟩ : n.Same (Varied .free) ⟨types, options.maxDepth⟩ n' ∧ n.info = n'.info :=
      same_of_eqvGen padded
    rcases build_of_same_free host same info with ⟨stack, root, mem, e, failed, deep⟩ | built
    · rcases fits root mem with shallow | unstopped
      · exact absurd (congrArg LowerFault.kind deep) (kind_of_build stack shallow failed)
      · exact absurd deep (unstopped e failed)
    · exact built

/-- Two literals in parentheses. -/
def quietGroup : Node :=
  .mk {} (.paren [.mk {} (.literal .nil), .mk {} (.array [.mk {} (.splat (.mk {} .selfRef))])])

/-- A tree whose one statement is a jump. -/
def onlyReturn : Node := .mk {} (.program [.mk {} (.returnWith [])])

/-- The same with a group of literals in front of the jump. -/
def quietReturn : Node := .mk {} (.program [quietGroup, .mk {} (.returnWith [])])

theorem pure_statements_add_nothing_quietGroup :
    (∃ s', (effect ⟨builtinTypes, 8⟩ quietGroup : Walk Unit).Yields (initial {} quietGroup) () s' ∧
      (initial {} quietGroup).builder.Still s'.builder) ∧
    build .generous builtinTypes {} onlyReturn = build .generous builtinTypes {} quietReturn := by
  obtain ⟨adds, pads⟩ := pure_statements_add_nothing .generous builtinTypes {}
  have pure : quietGroup.Pure := by
    refine .paren fun n hn => ?_
    rcases hn with _ | ⟨_, _ | ⟨_, ⟨⟩⟩⟩
    · exact .literal
    · refine .array fun n hn => ?_
      rcases hn with _ | ⟨_, ⟨⟩⟩
      exact .selfRef
  constructor
  · obtain ⟨_, s', yields⟩ : ∃ u s', (effect ⟨builtinTypes, 8⟩ quietGroup : Walk Unit).Yields
        (initial {} quietGroup) u s' := exists_yields_of_isOk (by decide +kernel)
    exact ⟨s', yields, (adds _ _ _ _ rooted_start yields).2 pure⟩
  · have padded : onlyReturn.Padded quietReturn := by
      refine .mk (f := fun _ ns => if ns.isEmpty then ns else quietGroup :: ns) (fun role ns => ?_)
        (.program (.cons (.refl _) (.cons (.refl _) .nil)))
      cases ns with
      | nil => exact .same _
      | cons n ns => exact .insert [] pure (List.cons_ne_nil n ns)
    exact pads _ _ (.rel _ _ padded) fun root hr => Or.inl (by
      rcases hr with _ | ⟨_, _ | ⟨_, ⟨⟩⟩⟩ <;> decide +kernel)

end Lowering

end ControlFlow
