import Mathlib.Data.Set.Insert
import Mathlib.Tactic.Common
import ControlFlow.Lowering.Node
import ControlFlow.Proofs.Syntax.Tree
/-!
# Two readings of the same lowering

Lowering is written over any monad with the operations of a `Construction`. A relation between two
such monads that every operation keeps is kept by the lowering of every tree: what is proved about
the operations one by one holds of `value` and `effect` as a whole.

The relation may depend on the jumps that are possible and on the bindings that hold a value. The
operations then have to keep it only where an instruction reads bindings that hold a value, and where
jumps are possible. That lowering uses the operations in no other way is proved here once.

The main result is `Construction.Related.lowering`.
-/

namespace ControlFlow

variable {m m' : Type → Type} {vars : Set Binding}

/-! ## Relations between constructions -/

/-- Neither the end of a block, nor a return, nor anything about a block literal. -/
def Instruction.isQuiet : Instruction → Bool
  | .assign _ _ => true
  | .send _ _ _ .absent => true
  | .send _ _ _ (.value _) => true
  | _ => false

/-- The bindings that hold a value at some point, all variables among them. -/
structure Known (vars : Set Binding) where
  holds : Set Binding
  includes : vars ⊆ holds

/-- Some more bindings hold a value. -/
def Known.and (Γ : Known vars) (s : Set Binding) : Known vars :=
  ⟨Γ.holds ∪ s, Γ.includes.trans Set.subset_union_left⟩

@[simp] lemma Known.mem_and {Γ : Known vars} {s : Set Binding} {b : Binding} :
    b ∈ (Γ.and s).holds ↔ b ∈ Γ.holds ∨ b ∈ s := Iff.rfl

/-- A relation between the computations of two constructions. It depends on the jumps that are
possible, on the bindings that hold a value before, and on those that hold one behind, which may
depend on the result. -/
abbrev Relation (vars : Set Binding) (m m' : Type → Type) : Type 1 :=
  Set JumpKind → Known vars → ∀ α : Type, (α → Set Binding) → m α → m' α → Prop

namespace Construction

variable (R : Relation vars m m') (J : Set JumpKind) (Γ : Known vars)

/-- Two computations of a value are related. -/
abbrev Giving (x : m Binding) (x' : m' Binding) : Prop := R J Γ _ (fun v => {v}) x x'

/-- Two computations that fill a result, if there is one to fill, are related. -/
abbrev Filling (result : Option Binding) (x : m Unit) (x' : m' Unit) : Prop :=
  R J Γ _ (fun _ => {b | result = some b}) x x'

/-- Two computations that fill nothing are related. -/
abbrev Acting (x : m Unit) (x' : m' Unit) : Prop := R J Γ _ (fun _ => ∅) x x'

end Construction

/-- Two alternatives of the same shape with related parts. -/
inductive Alternative.Related (R : Relation vars m m') (J : Set JumpKind) (Γ : Known vars)
    (out : Set Binding) : Alternative m → Alternative m' → Prop where
  | nothing (h : out ⊆ Γ.holds) : Related R J Γ out .nothing .nothing
  | last {x : m Unit} {x' : m' Unit} (h : R J Γ _ (fun _ => out) x x') :
      Related R J Γ out (.last x) (.last x')
  | clause {c : m Binding} {c' : m' Binding} {x : m Unit} {x' : m' Unit} {a : Alternative m}
      {a' : Alternative m'} (hc : R J Γ _ (fun v => {v}) c c') (hx : R J Γ _ (fun _ => out) x x')
      (ha : Related R J Γ out a a') : Related R J Γ out (.clause c x a) (.clause c' x' a')

/-- Two lists of clauses of the same shape with related parts. -/
inductive Clauses.Related (R : Relation vars m m') (J : Set JumpKind) (Γ : Known vars)
    (out : Set Binding) : Clauses m → Clauses m' → Prop where
  | last {x : m Unit} {x' : m' Unit} (h : R J Γ _ (fun _ => out) x x') :
      Related R J Γ out (.last x) (.last x')
  | clause {ts : List (m Binding)} {ts' : List (m' Binding)} {x : m Unit} {x' : m' Unit}
      {a : Clauses m} {a' : Clauses m'} (hts : List.Forall₂ (R J Γ Binding fun v => {v}) ts ts')
      (hx : R J Γ _ (fun _ => out) x x') (ha : Related R J Γ out a a') :
      Related R J Γ out (.clause ts x a) (.clause ts' x' a')

/-- Two optional computations that are both there or both not, and related. -/
inductive Construction.OptionRelated (R : Relation vars m m') (J : Set JumpKind) :
    Option (m Binding) → Option (m' Binding) → Prop where
  | none : OptionRelated R J none none
  | some {x : m Binding} {x' : m' Binding} (h : ∀ Γ, R J Γ _ (fun v => {v}) x x') :
      OptionRelated R J (some x) (some x')

/-- Two block literals of the same shape with related bodies. -/
inductive Construction.BlockLiteral.Related (R : Relation vars m m') (J : Set JumpKind) :
    BlockLiteral m → BlockLiteral m' → Prop where
  | absent : Related R J .absent .absent
  | present {params : List Parameter} {x : m Binding} {x' : m' Binding} {K : Set JumpKind}
      (hK : K ⊆ J ∪ JumpKind.ofLoop) (h : ∀ Γ, R K Γ _ (fun v => {v}) x x') :
      Related R J (.present params x) (.present params x')
  | misplaced {info : Info} {tag : String} : Related R J (.misplaced info tag) (.misplaced info tag)

/-- A relation between two constructions that all operations keep, the first of them with the
environment `env` and the second with `env'`. What is required of the jumps that leave the condition
of a loop is `clear`. -/
structure Construction.Related [Monad m] [Construction m] [Monad m'] [Construction m']
    (env env' : Environment) (clear : Set JumpKind → Prop) (R : Relation vars m m') : Prop where
  types : env.types = env'.types
  registered {name : String} {b : Binding} (h : env'.types name = some b) : b ∈ vars
  pure {J : Set JumpKind} {Γ : Known vars} {α : Type} {out : α → Set Binding} (a : α)
    (h : out a ⊆ Γ.holds) : R J Γ α out (pure a) (pure a)
  bind {J : Set JumpKind} {Γ : Known vars} {α β : Type} {out : α → Set Binding}
    {out' : β → Set Binding} {x : m α} {x' : m' α} {f : α → m β} {f' : α → m' β}
    (hx : R J Γ α out x x') (hf : ∀ a, R J (Γ.and (out a)) β out' (f a) (f' a)) :
    R J Γ β out' (x >>= f) (x' >>= f')
  mono {J : Set JumpKind} {Γ : Known vars} {α : Type} {out out' : α → Set Binding} {x : m α}
    {x' : m' α} (hx : R J Γ α out x x') (h : ∀ a, out' a ⊆ Γ.holds ∪ out a) : R J Γ α out' x x'
  failAt {J : Set JumpKind} {Γ : Known vars} {α : Type} {out : α → Set Binding} (info : Info)
    (fault : LowerFault) : R J Γ α out (Construction.failAt info fault)
      (Construction.failAt info fault)
  nested {J : Set JumpKind} {Γ : Known vars} {α : Type} {out : α → Set Binding} (info : Info)
    {x : m α} {x' : m' α} (hx : R J Γ α out x x') :
    R J Γ α out (Construction.nested env info x) (Construction.nested env' info x')
  allocTemp {J : Set JumpKind} {Γ : Known vars} :
    R J Γ _ (fun _ => ∅) Construction.allocTemp Construction.allocTemp
  emit {J : Set JumpKind} {Γ : Known vars} (i : Instruction) (plain : i.isTerminator = false)
    (quiet : i.isQuiet = true) (h : ∀ b ∈ i.reads, b ∈ Γ.holds) :
    R J Γ _ (fun _ => {b | i.dest? = some b}) (Construction.emit i plain)
      (Construction.emit i plain)
  jumpOut {J : Set JumpKind} {Γ : Known vars} {out : Set Binding} (info : Info) {kind : JumpKind}
    (other : kind ≠ .return) (h : kind ∈ J) {x : m Unit} {x' : m' Unit}
    (hx : R J Γ _ (fun _ => out) x x') :
    Acting R J Γ (Construction.jumpOut info kind x) (Construction.jumpOut info kind x')
  returnValue {J : Set JumpKind} {Γ : Known vars} (info : Info) (h : .return ∈ J) {x : m Binding}
    {x' : m' Binding} (hx : Giving R J Γ x x') :
    Acting R J Γ (Construction.returnValue info x) (Construction.returnValue info x')
  twoWays {J : Set JumpKind} {Γ : Known vars} {out : Set Binding} {t : m Binding} {t' : m' Binding}
    (on : Bool) {x y : m Unit} {x' y' : m' Unit} (ht : Giving R J Γ t t')
    (hx : R J Γ _ (fun _ => out) x x') (hy : R J Γ _ (fun _ => out) y y') :
    R J Γ _ (fun _ => out) (Construction.twoWays t on x y) (Construction.twoWays t' on x' y')
  detour {J : Set JumpKind} {Γ : Known vars} {out : Set Binding} {c : Binding} (h : c ∈ Γ.holds)
    (on : Bool) {x : m Unit} {x' : m' Unit} (hx : R J Γ _ (fun _ => out) x x') :
    Acting R J Γ (Construction.detour c on x) (Construction.detour c on x')
  conditional {J : Set JumpKind} {Γ : Known vars} {out : Set Binding} (on : Bool) {c : m Binding}
    {c' : m' Binding} {x : m Unit} {x' : m' Unit} {a : Alternative m} {a' : Alternative m'}
    (hc : Giving R J Γ c c') (hx : R J Γ _ (fun _ => out) x x')
    (ha : a.Related R J Γ out a') :
    R J Γ _ (fun _ => out) (Construction.conditional on c x a)
      (Construction.conditional on c' x' a')
  select {J : Set JumpKind} {Γ : Known vars} {out : Set Binding} {s : m Binding} {s' : m' Binding}
    {cs : Binding → Clauses m} {cs' : Binding → Clauses m'} (hs : Giving R J Γ s s')
    (hcs : ∀ v, (cs v).Related R J (Γ.and {v}) out (cs' v)) :
    R J Γ _ (fun _ => out) (Construction.select s cs) (Construction.select s' cs')
  loop {J K L : Set JumpKind} {Γ : Known vars} (sense : LoopSense) {c : m Binding} {c' : m' Binding}
    {x : m Unit} {x' : m' Unit} {out : Set Binding} (hK : K ⊆ J ∪ JumpKind.ofLoop)
    (hclear : clear K) (hc : Giving R K Γ c c') (hL : L ⊆ J ∪ JumpKind.ofLoop)
    (hx : R L Γ _ (fun _ => out) x x') :
    Acting R J Γ (Construction.loop sense c x) (Construction.loop sense c' x')
  unguarded {J : Set JumpKind} {Γ : Known vars} {out : Set Binding} {x : m Unit} {x' : m' Unit}
    (hx : R J Γ _ (fun _ => out) x x') :
    R J Γ _ (fun _ => out) (Construction.guarded x none) (Construction.guarded x' none)
  guarded {J : Set JumpKind} {Γ : Known vars} {out : Set Binding} {x y : m Unit} {x' y' : m' Unit}
    (hx : R J Γ _ (fun _ => out) x x') (hy : ∀ Γ : Known vars, Acting R J Γ y y') :
    R J Γ _ (fun _ => out) (Construction.guarded x (some y)) (Construction.guarded x' (some y'))
  blockCall {J K : Set JumpKind} {Γ : Known vars} (params : List Parameter) (dest : Option Binding)
    {callee : Callee} {r : m Arguments} {r' : m' Arguments} {x : m Binding} {x' : m' Binding}
    (h : ∀ b ∈ callee.bindings, b ∈ Γ.holds)
    (hr : R J Γ _ (fun args => {b | b ∈ args.bindings}) r r') (hK : K ⊆ J ∪ JumpKind.ofLoop)
    (hx : ∀ Γ : Known vars, Giving R K Γ x x') :
    R J Γ _ (fun _ => {b | dest = some b}) (Construction.blockCall params dest callee r x)
      (Construction.blockCall params dest callee r' x')

variable [Monad m] [Construction m] [Monad m'] [Construction m'] {env env' : Environment}
  {clear : Set JumpKind → Prop} {R : Relation vars m m'} {J : Set JumpKind}

/-- The lowerings of a node under two constructions are related, whatever holds a value. -/
structure Construction.Lowered (env env' : Environment) (R : Relation vars m m') (J : Set JumpKind)
    (n : Node) : Prop where
  value (Γ : Known vars) : Giving R J Γ (Lowering.value env n) (Lowering.value env' n)
  effect (Γ : Known vars) : Acting R J Γ (Lowering.effect env n) (Lowering.effect env' n)

/-- A tree below whose root all lowerings are related. -/
structure Construction.Parts (env env' : Environment) (clear : Set JumpKind → Prop)
    (R : Relation vars m m') (J : Set JumpKind) (n : Node) : Prop where
  sound : n.Each (Node.Sound vars clear)
  exits : n.exits ⊆ J
  lowered (d : Node) (h : n.Holds d) (K : Set JumpKind) (hs : d.Each (Node.Sound vars clear))
    (hK : d.exits ⊆ K) : Lowered env env' R K d

namespace Construction.Parts

variable {info : Info} {kind : Kind Node} {c : Node} (p : Parts env env' clear R J (.mk info kind))

include p

lemma bindings : ∀ b ∈ info.bindings, b ∈ vars := p.sound.1.bindings

lemma part (c : Node) (hc : kind.Exposes c) : Parts env env' clear R J c :=
  have ⟨role, mem, _⟩ := hc
  have mem : c ∈ kind.children := Kind.mem_children.2 ⟨role, mem⟩
  ⟨p.sound.child mem, (Node.exits_child hc).trans p.exits, fun d hd => p.lowered d (.inner mem hd)⟩

lemma looped (mem : c ∈ kind.children) {K : Set JumpKind} (hK : c.exits ⊆ K) :
    Lowered env env' R K c :=
  p.lowered c (.child mem) K (p.sound.child mem) hK

lemma child (c : Node) (hc : kind.Exposes c) : Lowered env env' R J c :=
  have ⟨role, mem, _⟩ := hc
  p.looped (Kind.mem_children.2 ⟨role, mem⟩) ((Node.exits_child hc).trans p.exits)

lemma exits_loop (mem : c ∈ kind.children) : c.exits ⊆ J ∪ JumpKind.ofLoop :=
  (Node.exits_loop mem).trans (Set.union_subset_union_left _ p.exits)

variable (role : Role) (cs : List Node)

/-- The statements of a loop or a block literal. -/
lemma loopedAll (mem : ∀ c ∈ cs, (role, c) ∈ kind.fields) :
    ∀ c ∈ cs, Lowered env env' R (J ∪ JumpKind.ofLoop) c :=
  fun c hc =>
    have mem : c ∈ kind.children := Kind.mem_children.2 ⟨role, mem c hc⟩
    p.looped mem (p.exits_loop mem)

variable (exposed : ∀ c ∈ cs, (role, c) ∈ kind.fields ∧ ¬ kind.LoopsOver role)

include exposed

/-- The nodes of a list, each with all that is below it. -/
lemma items : ∀ c ∈ cs, Lowered env env' R J c ∧ Parts env env' clear R J c :=
  fun c hc => ⟨p.child c ⟨role, exposed c hc⟩, p.part c ⟨role, exposed c hc⟩⟩

lemma all : ∀ c ∈ cs, Lowered env env' R J c :=
  fun c hc => p.child c ⟨role, exposed c hc⟩

lemma parts : ∀ c ∈ cs, Parts env env' clear R J c :=
  fun c hc => p.part c ⟨role, exposed c hc⟩

end Construction.Parts

variable {array klass : Binding}

namespace Construction.Related

attribute [local simp] Kind.fields Kind.children Kind.Exposes Kind.LoopsOver exists_or or_and_right

variable (h : Related env env' clear R) {Γ : Known vars} {ns : List Node}

include h

/-! ## Instructions -/

lemma copy (dest : Binding) {src : Binding} (hs : src ∈ Γ.holds) :
    Filling R J Γ (some dest) (Construction.copy dest src) (Construction.copy dest src) :=
  h.emit (.assign dest (.binding src)) rfl rfl (by simpa [Instruction.reads] using hs)

lemma loadConst (dest : Binding) (c : Constant) :
    Filling R J Γ (some dest) (Construction.loadConst dest c) (Construction.loadConst dest c) :=
  h.emit (.assign dest (.constant c)) rfl rfl (by simp [Instruction.reads])

lemma call (dest : Option Binding) {receiver : Binding} (method : String) {args : List Binding}
    (hr : receiver ∈ Γ.holds) (ha : ∀ b ∈ args, b ∈ Γ.holds) :
    Filling R J Γ dest (Construction.call dest receiver method args)
      (Construction.call dest receiver method args) := by
  refine h.emit (.send dest (.method receiver method) (.positional args) .absent) rfl rfl ?_
  simpa [Instruction.reads, Callee.bindings, Arguments.bindings, BlockOperand.bindings, hr] using ha

lemma constTemp (c : Constant) :
    Giving R J Γ (Construction.constTemp c) (Construction.constTemp c) :=
  h.bind h.allocTemp fun t => h.bind (h.loadConst t c) fun _ => h.pure t (by simp)

lemma callValue {receiver : Binding} (method : String) {args : List Binding}
    (hr : receiver ∈ Γ.holds) (ha : ∀ b ∈ args, b ∈ Γ.holds) :
    Giving R J Γ (Construction.callValue receiver method args)
      (Construction.callValue receiver method args) :=
  h.bind h.allocTemp fun t =>
    h.bind (h.call (some t) method (Or.inl hr) fun b hb => Or.inl (ha b hb)) fun _ =>
      h.pure t (by simp)

lemma readVariable {b : Binding} (hb : b ∈ Γ.holds) :
    Giving R J Γ (Construction.readVariable b) (Construction.readVariable b) :=
  h.bind h.allocTemp fun t => h.bind (h.copy t (Or.inl hb)) fun _ => h.pure t (by simp)

/-! ## What surrounds a node -/

variable {v lhs : Binding} {info : Info}

lemma selfBinding (tag : String) (hi : ∀ b ∈ info.bindings, b ∈ vars) :
    Giving R J Γ (Construction.selfBinding info tag) (Construction.selfBinding info tag) := by
  unfold Construction.selfBinding
  cases hs : info.scope with
  | some scope =>
    have hv : scope.self ∈ vars := hi _ (Info.self_mem_bindings hs)
    exact h.pure _ (by simpa using Γ.includes hv)
  | none => exact h.failAt _ _

lemma selfTemp (tag : String) (hi : ∀ b ∈ info.bindings, b ∈ vars) :
    Giving R J Γ (Construction.selfTemp info tag) (Construction.selfTemp info tag) :=
  h.bind (h.selfBinding tag hi) fun b => h.readVariable (by simp)

lemma resolved (tag : String) (hi : ∀ b ∈ info.bindings, b ∈ vars) :
    Giving R J Γ (Construction.resolved info tag) (Construction.resolved info tag) := by
  unfold Construction.resolved
  cases hb : info.binding with
  | some b =>
    have hv : b ∈ vars := hi _ (Info.variable_mem_bindings hb)
    exact h.pure _ (by simpa using Γ.includes hv)
  | none => exact h.failAt _ _

lemma wellKnown (info : Info) (name : String) :
    Giving R J Γ (Construction.wellKnown env info name)
      (Construction.wellKnown env' info name) := by
  unfold Construction.wellKnown
  rw [h.types]
  cases hb : env'.types name with
  | some b => exact h.pure _ (by simpa using Γ.includes (h.registered hb))
  | none => exact h.failAt _ _

/-! ## Results -/

variable {x : m Binding} {x' : m' Binding} {y : m Unit} {y' : m' Unit} (result : Option Binding)

lemma into (hx : Giving R J Γ x x') (hy : Acting R J Γ y y') :
    Filling R J Γ result (Construction.into result x y) (Construction.into result x' y') := by
  cases result with
  | some dest => exact h.bind hx fun v => h.copy dest (by simp)
  | none => exact h.mono hy (by simp)

lemma deliver (hv : v ∈ Γ.holds) :
    Filling R J Γ result (Construction.deliver result v) (Construction.deliver result v) := by
  cases result with
  | some dest => exact h.copy dest hv
  | none => exact h.pure () (by simp)

lemma deliverNil :
    Filling R J Γ result (Construction.deliverNil result) (Construction.deliverNil result) := by
  cases result with
  | some dest => exact h.loadConst dest .nil
  | none => exact h.pure () (by simp)

lemma nothingElse :
    Alternative.Related R J Γ {b | result = some b} (Construction.nothingElse result)
      (Construction.nothingElse result) := by
  cases result with
  | some dest => exact .last (h.loadConst dest .nil)
  | none => exact .nothing (by simp)

/-! ## Assignments and operators -/

lemma assignVariable {target : Info} (hi : ∀ b ∈ target.bindings, b ∈ vars)
    (hx : ∀ Γ, Giving R J Γ x x') :
    Giving R J Γ (Construction.assignVariable target x) (Construction.assignVariable target x') :=
  h.bind (h.resolved "var-field" hi) fun slot => h.bind (hx _) fun v =>
    h.bind (h.copy slot (by simp)) fun _ => h.pure v (by simp)

lemma assignField {r : m Binding} {r' : m' Binding} (name : String)
    (hr : ∀ Γ, Giving R J Γ r r') (hx : ∀ Γ, Giving R J Γ x x') :
    Giving R J Γ (Construction.assignField r name x) (Construction.assignField r' name x') :=
  h.bind (hr _) fun r => h.bind (hx _) fun v =>
    h.bind (h.call none (name ++ "=") (by simp) (by simp)) fun _ => h.pure v (by simp)

lemma decideOrEvaluate (op : BinaryOp) (dest : Binding) (hl : lhs ∈ Γ.holds)
    (hy : Filling R J Γ (some dest) y y') :
    Filling R J Γ (some dest) (Construction.decideOrEvaluate op lhs dest y)
      (Construction.decideOrEvaluate op lhs dest y') :=
  h.twoWays _ (h.pure lhs (by simpa using hl)) (h.copy dest hl) hy

lemma skipOrEvaluate (op : BinaryOp) (hl : lhs ∈ Γ.holds) {out : Set Binding}
    (hy : R J Γ _ (fun _ => out) y y') :
    Filling R J Γ none (Construction.skipOrEvaluate op lhs y)
      (Construction.skipOrEvaluate op lhs y') :=
  h.mono (h.detour hl _ hy) (by simp)

lemma shortCircuit (op : BinaryOp) (hl : lhs ∈ Γ.holds) (hx : Giving R J Γ x x')
    (hy : Acting R J Γ y y') :
    Filling R J Γ result (Construction.shortCircuit op lhs result x y)
      (Construction.shortCircuit op lhs result x' y') := by
  cases result with
  | some dest =>
    exact h.decideOrEvaluate op dest hl (h.bind hx fun v => h.copy dest (by simp))
  | none => exact h.skipOrEvaluate op hl hy

lemma updateField (op : BinaryOp) {r : m Binding} {r' : m' Binding} (name : String)
    (hr : ∀ Γ, Giving R J Γ r r') (hx : ∀ Γ, Giving R J Γ x x') :
    Filling R J Γ result (Construction.updateField op r name x result)
      (Construction.updateField op r' name x' result) := by
  refine h.bind (hr _) fun r => h.bind (h.callValue name (by simp) (by simp)) fun current => ?_
  generalize hΓ : (Γ.and {r}).and {current} = Γ'
  have hr : r ∈ Γ'.holds := by simp [← hΓ]
  have hc : current ∈ Γ'.holds := by simp [← hΓ]
  cases op.shortCircuits with
  | true =>
    have hy : Filling R J Γ' result (x >>= fun v => Construction.callSetter r name v >>= fun _ =>
          Construction.deliver result v)
        (x' >>= fun v => Construction.callSetter r name v >>= fun _ =>
          Construction.deliver result v) :=
      h.bind (hx _) fun v => h.bind (h.call none (name ++ "=") (by simp [hr]) (by simp)) fun _ =>
        h.deliver result (by simp)
    cases result with
    | some dest => exact h.decideOrEvaluate op dest hc hy
    | none => exact h.skipOrEvaluate op hc hy
  | false =>
    exact h.bind (hx _) fun v =>
      h.bind (h.callValue op.method (by simp [hc]) (by simp)) fun combined =>
        h.bind (h.call none (name ++ "=") (by simp [hr]) (by simp)) fun _ =>
          h.deliver result (by simp)

lemma combineInto (combined : Binding) (op : BinaryOp) (slot : Binding) {current : Binding}
    (hc : current ∈ Γ.holds) (hx : ∀ Γ, Giving R J Γ x x') :
    Filling R J Γ (some combined) (Construction.combineInto combined op slot current x)
      (Construction.combineInto combined op slot current x') :=
  h.bind (h.decideOrEvaluate op combined hc (h.bind (hx _) fun v => h.copy combined (by simp)))
    fun _ => h.mono (h.copy slot (by simp)) (by simp)

lemma updateVariable (op : BinaryOp) {target : Info} (hi : ∀ b ∈ target.bindings, b ∈ vars)
    (hx : ∀ Γ, Giving R J Γ x x') :
    Filling R J Γ result (Construction.updateVariable op target x result)
      (Construction.updateVariable op target x' result) := by
  refine h.bind (h.resolved "var-field" hi) fun slot =>
    h.bind (h.readVariable (by simp)) fun current => ?_
  generalize hΓ : (Γ.and {slot}).and {current} = Γ'
  have hc : current ∈ Γ'.holds := by simp [← hΓ]
  cases op.shortCircuits with
  | true =>
    cases result with
    | some dest => exact h.combineInto dest op slot hc hx
    | none =>
      exact h.bind h.allocTemp fun combined =>
        h.mono (h.combineInto combined op slot (Or.inl hc) hx) (by simp)
  | false =>
    exact h.bind (hx _) fun v =>
      h.bind (h.callValue op.method (by simp [hc]) (by simp)) fun combined =>
        h.bind (h.deliver result (by simp)) fun _ =>
          h.mono (h.copy slot (by simp)) fun _ _ hb => Or.inl (Or.inr hb)

/-! ## Calls and arrays -/

lemma pushValue (ha : array ∈ Γ.holds) (hv : v ∈ Γ.holds) :
    Acting R J Γ (Construction.pushValue array v) (Construction.pushValue array v) :=
  h.mono (h.call none "<<" ha (by simpa using hv)) (by simp)

lemma aggregate (info : Info) {fill : Binding → Binding → m Unit}
    {fill' : Binding → Binding → m' Unit}
    (hfill : ∀ klass array, ∀ Γ : Known vars, klass ∈ Γ.holds → array ∈ Γ.holds →
      Acting R J Γ (fill klass array) (fill' klass array)) :
    Giving R J Γ (Construction.aggregate env info fill) (Construction.aggregate env' info fill') :=
  h.bind (h.wellKnown info "Array") fun klass =>
    h.bind (h.callValue "new" (by simp) (by simp)) fun array =>
      h.bind (hfill klass array _ (by simp) (by simp)) fun _ => h.pure array (by simp)

lemma convert (method : String) (hk : klass ∈ Γ.holds) (hv : v ∈ Γ.holds) :
    Giving R J Γ (Construction.convert klass v method) (Construction.convert klass v method) := by
  refine h.bind h.allocTemp fun result => ?_
  have test : Giving R J (Γ.and ∅) (Construction.callValue klass "===" [v])
      (Construction.callValue klass "===" [v]) :=
    h.callValue "===" (by simp [hk]) (by simp [hv])
  have converted : Filling R J (Γ.and ∅) (some result)
      (Construction.callValue v method [] >>= Construction.copy result)
      (Construction.callValue v method [] >>= Construction.copy result) :=
    h.bind (h.callValue method (by simp [hv]) (by simp)) fun c => h.copy result (by simp)
  exact h.bind (h.twoWays false test converted (h.copy result (by simp [hv]))) fun _ =>
    h.pure result (by simp)

lemma spliceValue (hk : klass ∈ Γ.holds) (ha : array ∈ Γ.holds) (hv : v ∈ Γ.holds) :
    Acting R J Γ (Construction.spliceValue klass array v)
      (Construction.spliceValue klass array v) :=
  h.bind (h.convert "to_a" hk hv) fun items =>
    h.mono (h.call none "concat" (by simp [ha]) (by simp)) (by simp)

lemma readParameters {ps : List Parameter} (hp : ∀ p ∈ ps, p.binding ∈ vars) :
    R J Γ _ (fun vs => {b | b ∈ vs}) (Construction.readParameters ps)
      (Construction.readParameters ps) := by
  induction ps generalizing Γ with
  | nil => exact h.pure [] (by simp)
  | cons p ps ih =>
    rw [List.forall_mem_cons] at hp
    exact h.bind (h.readVariable (Γ.includes hp.1)) fun v => h.bind (ih hp.2) fun vs =>
      h.pure (v :: vs) (by intro b hb; simp_all [or_assoc])

lemma pushParameters {ps : List Parameter} (ha : array ∈ Γ.holds) (hp : ∀ p ∈ ps, p.binding ∈ vars) :
    Acting R J Γ (Construction.pushParameters array ps) (Construction.pushParameters array ps) := by
  induction ps generalizing Γ with
  | nil => exact h.pure () (by simp)
  | cons p ps ih =>
    rw [List.forall_mem_cons] at hp
    exact h.bind (h.readVariable (Γ.includes hp.1)) fun v =>
      h.bind (h.pushValue (by simp [ha]) (by simp)) fun _ => ih (by simp [ha]) hp.2

lemma passParameters (info : Info) {method : Signature}
    (hp : ∀ p ∈ method.params, p.binding ∈ vars) :
    R J Γ _ (fun args => {b | b ∈ args.bindings}) (Construction.passParameters env info method)
      (Construction.passParameters env' info method) := by
  have hp : ∀ p ∈ method.positional, p.binding ∈ vars :=
    fun p hm => hp p (List.mem_filter.1 hm).1
  unfold Construction.passParameters
  cases method.restIndex? with
  | none =>
    exact h.bind (h.readParameters hp) fun values =>
      h.pure _ (by intro b hb; exact Or.inr hb)
  | some rest =>
    refine h.bind (h.aggregate info fun klass array Γ hk ha => ?_) fun array =>
      h.pure _ (by simp [Arguments.bindings])
    refine h.bind (h.pushParameters ha fun p hm => hp p (List.mem_of_mem_take hm)) fun _ => ?_
    have hd : ∀ p ∈ method.positional.drop rest, p.binding ∈ vars :=
      fun p hm => hp p (List.mem_of_mem_drop hm)
    generalize method.positional.drop rest = qs at hd
    cases qs with
    | nil => exact h.pure () (by simp)
    | cons p ps =>
      rw [List.forall_mem_cons] at hd
      exact h.bind (h.readVariable ((Γ.and ∅).includes hd.1)) fun starred =>
        h.bind (h.spliceValue (by simp [hk]) (by simp [ha]) (by simp)) fun _ =>
          h.pushParameters (by simp [ha]) hd.2

lemma send (info : Info) (dest : Option Binding) {callee : Callee} {args : m Arguments}
    {args' : m' Arguments} {pass : Option (m Binding)} {pass' : Option (m' Binding)}
    {block : BlockLiteral m} {block' : BlockLiteral m'} (hc : ∀ b ∈ callee.bindings, b ∈ Γ.holds)
    (hargs : R J Γ _ (fun a => {b | b ∈ a.bindings}) args args')
    (hpass : OptionRelated R J pass pass') (hblock : block.Related R J block') :
    Filling R J Γ dest (Construction.send info dest callee args pass block)
      (Construction.send info dest callee args' pass' block') := by
  cases hblock with
  | absent =>
    refine h.bind hargs fun values => ?_
    cases hpass with
    | none =>
      refine h.emit (.send dest callee values .absent) rfl rfl ?_
      simp only [Instruction.reads, BlockOperand.bindings, List.append_nil, List.mem_append]
      rintro b (hb | hb)
      · exact Or.inl (hc b hb)
      · exact Or.inr hb
    | some hx =>
      refine h.bind (hx _) fun v => h.emit (.send dest callee values (.value v)) rfl rfl ?_
      simp only [Instruction.reads, BlockOperand.bindings, List.mem_append, List.mem_singleton]
      rintro b ((hb | hb) | rfl)
      · exact Or.inl (Or.inl (hc b hb))
      · exact Or.inl (Or.inr hb)
      · exact Or.inr rfl
  | present hK hx =>
    cases hpass with
    | none => exact h.blockCall _ dest hc hargs hK hx
    | some _ => exact h.failAt _ _
  | misplaced =>
    cases hpass with
    | none => exact h.failAt _ _
    | some _ => exact h.failAt _ _

/-! ## Lists of nodes -/

section Nodes

variable (hn : ∀ n ∈ ns, Lowered env env' R J n)

include hn

lemma body :
    Giving R J Γ (Lowering.body env ns) (Lowering.body env' ns) := by
  induction ns generalizing Γ with
  | nil => exact h.constTemp .nil
  | cons n ns ih =>
    rw [List.forall_mem_cons] at hn
    unfold Lowering.body
    cases ns.isEmpty with
    | true => exact hn.1.value Γ
    | false => exact h.bind (hn.1.effect Γ) fun _ => ih hn.2

lemma effects :
    Acting R J Γ (Lowering.effects env ns) (Lowering.effects env' ns) := by
  induction ns generalizing Γ with
  | nil => exact h.pure () (by simp)
  | cons n ns ih =>
    rw [List.forall_mem_cons] at hn
    exact h.bind (hn.1.effect Γ) fun _ => ih hn.2

lemma values :
    R J Γ _ (fun vs => {b | b ∈ vs}) (Lowering.values env ns) (Lowering.values env' ns) := by
  induction ns generalizing Γ with
  | nil => exact h.pure [] (by simp)
  | cons n ns ih =>
    rw [List.forall_mem_cons] at hn
    exact h.bind (hn.1.value Γ) fun v => h.bind (ih hn.2) fun vs =>
      h.pure (v :: vs) (by intro b hb; simp_all [or_assoc])

lemma concat {text : Binding} (ht : text ∈ Γ.holds) :
    Giving R J Γ (Lowering.concat env text ns) (Lowering.concat env' text ns) := by
  induction ns generalizing Γ text with
  | nil => exact h.pure text (by simpa using ht)
  | cons n ns ih =>
    rw [List.forall_mem_cons] at hn
    exact h.bind (hn.1.value Γ) fun v =>
      h.bind (h.callValue "concat" (by simp [ht]) (by simp)) fun longer => ih hn.2 (by simp)

lemma into_body :
    Filling R J Γ result (Construction.into result (Lowering.body env ns) (Lowering.effects env ns))
      (Construction.into result (Lowering.body env' ns) (Lowering.effects env' ns)) :=
  h.into result (h.body hn) (h.effects hn)

lemma candidates {subject : Binding} (hs : subject ∈ Γ.holds) :
    List.Forall₂ (R J Γ Binding fun v => {v}) (Lowering.candidates env subject ns)
      (Lowering.candidates env' subject ns) := by
  induction ns with
  | nil => exact .nil
  | cons n ns ih =>
    rw [List.forall_mem_cons] at hn
    exact .cons (h.bind (hn.1.value Γ) fun v => h.callValue "===" (by simp) (by simp [hs]))
      (ih hn.2)

end Nodes

lemma into_node {n : Node} (hn : Lowered env env' R J n) :
    Filling R J Γ result (Construction.into result (Lowering.value env n) (Lowering.effect env n))
      (Construction.into result (Lowering.value env' n) (Lowering.effect env' n)) :=
  h.into result (hn.value Γ) (hn.effect Γ)

/-! ## Nodes -/

section Items

variable (hn : ∀ n ∈ ns, Lowered env env' R J n ∧ Parts env env' clear R J n)

include hn

lemma elements (hk : klass ∈ Γ.holds) (ha : array ∈ Γ.holds) :
    Acting R J Γ (Lowering.elements env klass array ns)
      (Lowering.elements env' klass array ns) := by
  induction ns generalizing Γ with
  | nil => exact h.pure () (by simp)
  | cons n ns ih =>
    rw [List.forall_mem_cons] at hn
    have rest : ∀ v : Binding, Acting R J ((Γ.and {v}).and ∅)
        (Lowering.elements env klass array ns) (Lowering.elements env' klass array ns) :=
      fun v => ih hn.2 (by simp [hk]) (by simp [ha])
    obtain ⟨⟨hl, hp⟩, -⟩ := hn
    rcases n with ⟨info, kind⟩
    cases kind
    case splat d =>
      have hd := hp.child d (by simp)
      exact h.bind (hd.value Γ) fun v =>
        h.bind (h.spliceValue (by simp [hk]) (by simp [ha]) (by simp)) fun _ => rest v
    all_goals
      exact h.bind (hl.value Γ) fun v => h.bind (h.pushValue (by simp [ha]) (by simp)) fun _ =>
        rest v

lemma aggregate_elements (info : Info) :
    Giving R J Γ (Construction.aggregate env info fun k a => Lowering.elements env k a ns)
      (Construction.aggregate env' info fun k a => Lowering.elements env' k a ns) :=
  h.aggregate info fun _ _ _ hk ha => h.elements hn hk ha

lemma arguments (info : Info) :
    R J Γ _ (fun a => {b | b ∈ a.bindings})
      (Lowering.arguments ns (Construction.aggregate env info fun k a =>
        Lowering.elements env k a ns) (Lowering.values env ns))
      (Lowering.arguments ns (Construction.aggregate env' info fun k a =>
        Lowering.elements env' k a ns) (Lowering.values env' ns)) := by
  unfold Lowering.arguments
  cases ns.any (·.isSplat) with
  | true =>
    exact h.bind (h.aggregate_elements hn info) fun array => h.pure _ (by simp [Arguments.bindings])
  | false =>
    exact h.bind (h.values fun n hm => (hn n hm).1) fun vs => h.pure _ fun b hb => Or.inr hb

lemma discards :
    Acting R J Γ (Lowering.discards env ns) (Lowering.discards env' ns) := by
  induction ns generalizing Γ with
  | nil => exact h.pure () (by simp)
  | cons n ns ih =>
    rw [List.forall_mem_cons] at hn
    obtain ⟨⟨hl, hp⟩, hn⟩ := hn
    rcases n with ⟨info, kind⟩
    cases kind
    case splat d =>
      have hd := hp.child d (by simp)
      exact h.bind (hd.effect Γ) fun _ => ih hn
    all_goals exact h.bind (hl.effect Γ) fun _ => ih hn

end Items

lemma alternative_some (n : Node) (hp : Parts env env' clear R J n) :
    Alternative.Related R J Γ {b | result = some b} (Lowering.alternative env result (some n))
      (Lowering.alternative env' result (some n)) := by
  induction n using Node.induction_below with
  | step n ih =>
    rcases n with ⟨info, kind⟩
    cases kind
    case ifThen c stmts other | elsif c stmts other =>
      have hc := hp.child c (by simp)
      have hs := hp.all .body stmts (by simp)
      refine .clause (hc.value Γ) (h.into_body result hs) ?_
      cases other with
      | none => exact h.nothingElse result
      | some n =>
        exact ih n (.child (by simp)) (hp.part n (by simp))
    case ifMod c n =>
      have hc := hp.child c (by simp)
      have hn := hp.child n (by simp)
      exact .clause (hc.value Γ) (h.into_node result hn) (h.nothingElse result)
    case elseThen stmts =>
      exact .last (h.into_body result (hp.all .body stmts (by simp)))
    all_goals exact .last (h.failAt _ _)

lemma alternative {other : Option Node}
    (hp : ∀ n ∈ other.toList, Parts env env' clear R J n) :
    Alternative.Related R J Γ {b | result = some b} (Lowering.alternative env result other)
      (Lowering.alternative env' result other) := by
  cases other with
  | none => exact h.nothingElse result
  | some n => exact h.alternative_some result n (hp n (.head _))

lemma otherwise {other : Option (List Node)}
    (hn : ∀ n ∈ other.getD [], Lowered env env' R J n) :
    Alternative.Related R J Γ {b | result = some b} (Lowering.otherwise env result other)
      (Lowering.otherwise env' result other) := by
  cases other with
  | none => exact h.nothingElse result
  | some stmts => exact .last (h.into_body result hn)

lemma remaining {other : Option (List Node)}
    (hn : ∀ n ∈ other.getD [], Lowered env env' R J n) :
    Filling R J Γ result (Lowering.remaining env result other)
      (Lowering.remaining env' result other) := by
  cases other with
  | none => exact h.deliverNil result
  | some stmts => exact h.into_body result hn

lemma cases {subject : Binding} (hs : subject ∈ Γ.holds) (hy : Filling R J Γ result y y')
    (hp : ∀ n ∈ ns, Parts env env' clear R J n) :
    Clauses.Related R J Γ {b | result = some b} (Lowering.cases env result subject y ns)
      (Lowering.cases env' result subject y' ns) := by
  induction ns with
  | nil => exact .last hy
  | cons n ns ih =>
    rw [List.forall_mem_cons] at hp
    obtain ⟨hp, hrest⟩ := hp
    rcases n with ⟨info, kind⟩
    cases kind
    case whenThen cs stmts =>
      have hc := hp.all .candidate cs (by simp)
      have hb := hp.all .body stmts (by simp)
      exact .clause (h.candidates hc hs) (h.into_body result hb) (ih hrest)
    all_goals exact .last (h.failAt _ _)

variable {kind : Kind Node}

lemma receiver (hi : ∀ b ∈ info.bindings, b ∈ vars) {r : Option Node}
    (hn : ∀ n ∈ r.toList, Lowered env env' R J n) :
    Giving R J Γ (Lowering.receiver env info r) (Lowering.receiver env' info r) := by
  cases r with
  | none => exact h.selfTemp "call" hi
  | some n => exact (hn n (.head _)).value Γ

omit h in
lemma passed {pass : Option Node} (hn : ∀ n ∈ pass.toList, Lowered env env' R J n) :
    OptionRelated R J (Lowering.passed env pass) (Lowering.passed env' pass) := by
  cases pass with
  | none => exact .none
  | some n => exact .some (hn n (.head _)).value

lemma literal {block : Option Node} (hp : ∀ n ∈ block.toList, Parts env env' clear R J n) :
    BlockLiteral.Related R J (Lowering.literal env block) (Lowering.literal env' block) := by
  cases block with
  | none => exact .absent
  | some n =>
    replace hp := hp n (.head _)
    rcases n with ⟨info, kind⟩
    cases kind
    case doBlock params stmts =>
      exact .present subset_rfl fun _ => h.body (hp.loopedAll .body stmts (by simp))
    all_goals exact .misplaced

variable (hp : Parts env env' clear R J (.mk info kind))

include hp

/-- The lowering of a construct. It fills its result if it is one that delivers its value so. -/
lemma construct (hr : result = none ∨ kind.delivery info = .filled) :
    Filling R J Γ result (Lowering.construct env info result kind)
      (Lowering.construct env' info result kind) := by
  cases kind
  case command parts =>
    have hn := hp.all .part parts (by simp)
    exact h.bind (h.constTemp _) fun start => h.bind (h.concat hn (by simp)) fun text =>
      h.bind (h.selfBinding "xstr" hp.bindings) fun receiver =>
        h.call result "`" (by simp) (by simp)
  case varRef name =>
    exact h.bind (h.selfTemp "var-ref" hp.bindings) fun receiver =>
      h.call result name (by simp) (by simp)
  case opAssign target op v =>
    have hv := hp.child v (by simp)
    have ht := hp.part target (by simp)
    rcases target with ⟨target, kind⟩
    cases kind
    case varTarget name => exact h.updateVariable result op ht.bindings hv.value
    case fieldTarget r name =>
      exact h.updateField result op name (ht.child _ (by simp)).value
        hv.value
    all_goals exact h.failAt _ _
  case binary l op r =>
    have hl := hp.child l (by simp)
    have hr := hp.child r (by simp)
    exact h.bind (hl.value Γ) fun lhs =>
      h.shortCircuit result op (by simp) (hr.value _) (hr.effect _)
  case ifThen c stmts other =>
    have hc := hp.child c (by simp)
    have hs := hp.all .body stmts (by simp)
    have ho := hp.parts .alternative other.toList (by simp)
    exact h.conditional true (hc.value Γ) (h.into_body result hs) (h.alternative result ho)
  case ifMod c n | unlessMod c n =>
    have hc := hp.child c (by simp)
    have hn := hp.child n (by simp)
    exact h.conditional _ (hc.value Γ) (h.into_node result hn) (h.nothingElse result)
  case unlessThen c stmts other =>
    have hc := hp.child c (by simp)
    have hs := hp.all .body stmts (by simp)
    have ho := hp.all .otherwise (other.getD []) (by simp)
    exact h.conditional false (hc.value Γ) (h.into_body result hs) (h.otherwise result ho)
  case case n clauses other =>
    have hn := hp.child n (by simp)
    have hc := hp.parts .clause clauses (by simp)
    have ho := hp.all .otherwise (other.getD []) (by simp)
    exact h.select (hn.value Γ) fun subject =>
      h.cases result (by simp) (h.remaining result ho) hc
  case loop sense c stmts =>
    have mem : c ∈ (Kind.loop sense c stmts).children := by simp
    have hc : Lowered env env' R c.exits c := hp.looped mem subset_rfl
    have hs := hp.loopedAll .body stmts (by simp)
    exact h.mono (h.loop sense (hp.exits_loop mem) (hp.sound.1.condition c rfl) (hc.value Γ)
      subset_rfl (h.effects hs)) (by simp_all [Kind.delivery])
  case loopMod sense c n =>
    have mem : c ∈ (Kind.loopMod sense c n).children := by simp
    have hc : Lowered env env' R c.exits c := hp.looped mem subset_rfl
    have mem' : n ∈ (Kind.loopMod sense c n).children := by simp
    have hn : Lowered env env' R n.exits n := hp.looped mem' subset_rfl
    exact h.mono (h.loop sense (hp.exits_loop mem) (hp.sound.1.condition c rfl) (hc.value Γ)
      (hp.exits_loop mem') (hn.effect Γ)) (by simp_all [Kind.delivery])
  case forIn target n stmts =>
    have hn := hp.child n (by simp)
    have ht := hp.part target (by simp)
    have hs := hp.loopedAll .body stmts (by simp)
    rcases target with ⟨target, kind⟩
    cases kind
    case varTarget name =>
      exact h.bind (h.resolved "var-field" ht.bindings) fun slot =>
        h.bind (hn.value _) fun receiver =>
          h.blockCall _ result (by simp [Callee.bindings])
            (h.pure _ (by simp [Arguments.bindings])) subset_rfl fun _ => h.body hs
    all_goals exact h.failAt _ _
  case guarded stmts ensure =>
    have hs := hp.all .body stmts (by simp)
    cases ensure with
    | none => exact h.unguarded (h.into_body result hs)
    | some clause =>
      have hc := hp.all .ensure clause (by simp)
      exact h.guarded (h.into_body result hs) fun _ => h.effects hc
  case returnWith args =>
    have hn := hp.items .arg args (by simp)
    have hJ : .return ∈ J := hp.exits (.here rfl)
    refine h.mono (h.returnValue info hJ ?_) (by simp_all [Kind.delivery])
    split
    · exact h.aggregate_elements hn info
    · exact h.body fun n hm => (hn n hm).1
  case breakWith args | nextWith args =>
    have hn := hp.items .arg args (by simp)
    exact h.mono (h.jumpOut info (by decide) (hp.exits (.here rfl)) (h.discards hn))
      (by simp_all [Kind.delivery])
  case redo =>
    exact h.mono (h.jumpOut info (by decide) (hp.exits (.here rfl)) (h.pure () (Set.empty_subset _)))
      (by simp_all [Kind.delivery])
  case call r method args pass block =>
    have hr := hp.all .receiver r.toList (by simp)
    have hn := hp.items .arg args (by simp)
    have hpass := hp.all .blockPass pass.toList (by simp)
    have hb := hp.parts .block block.toList (by simp)
    exact h.bind (h.receiver hp.bindings hr) fun receiver =>
      h.send info result (by simp [Callee.bindings])
        (h.arguments hn info) (passed hpass) (h.literal hb)
  case super args pass block =>
    have hn := hp.items .arg args (by simp)
    have hpass := hp.all .blockPass pass.toList (by simp)
    have hb := hp.parts .block block.toList (by simp)
    exact h.send info result (by simp [Callee.bindings]) (h.arguments hn info) (passed hpass)
      (h.literal hb)
  case zsuper block =>
    have hb := hp.parts .block block.toList (by simp)
    unfold Lowering.construct
    cases hm : info.scope.bind (·.method) with
    | none => exact h.failAt _ _
    | some method =>
      have hparams : ∀ p ∈ method.params, p.binding ∈ vars :=
        fun p hm' => hp.bindings _ (Info.parameter_mem_bindings hm hm')
      exact h.send info result (by simp [Callee.bindings]) (h.passParameters info hparams) .none
        (h.literal hb)
  all_goals exact h.pure () (by simp_all [Kind.delivery])

lemma ownValue :
    Giving R J Γ (Lowering.ownValue env info kind) (Lowering.ownValue env' info kind) := by
  cases kind
  case program stmts | paren stmts => exact h.body (hp.all .body stmts (by simp))
  case begin n => exact (hp.child _ (by simp)).value Γ
  case void => exact h.constTemp .nil
  case literal c => exact h.constTemp c
  case content text => exact h.constTemp (.str text)
  case str parts =>
    have hn := hp.all .part parts (by simp)
    exact h.bind (h.constTemp _) fun start => h.concat hn (by simp)
  case embed stmts =>
    have hn := hp.all .body stmts (by simp)
    exact h.bind (h.body hn) fun v => h.callValue "to_s" (by simp) (by simp)
  case regexp parts options =>
    have hn := hp.all .part parts (by simp)
    exact h.bind (h.constTemp _) fun start => h.bind (h.concat hn (by simp)) fun text =>
      h.bind (h.constTemp _) fun options => h.bind (h.wellKnown info "Regexp") fun klass =>
        h.callValue "new" (by simp) (by simp)
  case array items =>
    exact h.aggregate_elements (hp.items .element items (by simp)) info
  case selfRef => exact h.selfTemp "self" hp.bindings
  case varRef name =>
    exact h.bind (h.resolved "var-ref" hp.bindings) fun b => h.readVariable (by simp)
  case varTarget name =>
    exact h.bind (h.resolved "var-field" hp.bindings) fun b => h.readVariable (by simp)
  case assign target v =>
    have hv := hp.child v (by simp)
    have ht := hp.part target (by simp)
    rcases target with ⟨target, kind⟩
    cases kind
    case varTarget name => exact h.assignVariable ht.bindings hv.value
    case fieldTarget r name =>
      exact h.assignField name (ht.child _ (by simp)).value hv.value
    all_goals exact h.failAt _ _
  case binary l op r =>
    have hl := hp.child l (by simp)
    have hr := hp.child r (by simp)
    exact h.bind (hl.value Γ) fun lhs => h.bind (hr.value _) fun rhs =>
      h.callValue op.method (by simp) (by simp)
  case unary op n =>
    have hn := hp.child n (by simp)
    exact h.bind (hn.value Γ) fun v => h.callValue op.method (by simp) (by simp)
  all_goals exact h.failAt _ _

lemma ownEffect :
    Acting R J Γ (Lowering.ownEffect env info kind) (Lowering.ownEffect env' info kind) := by
  have nothing : Acting R J Γ (Pure.pure () : m Unit) (Pure.pure ()) :=
    h.pure () (Set.empty_subset _)
  cases kind
  case program stmts | paren stmts | embed stmts =>
    exact h.effects (hp.all .body stmts (by simp))
  case begin n => exact (hp.child _ (by simp)).effect Γ
  case void | selfRef | varRef name | varTarget name | literal c | content text => exact nothing
  case str parts | regexp parts options => exact h.effects (hp.all .part parts (by simp))
  case array items =>
    exact h.discards (hp.items .element items (by simp))
  case assign target v =>
    have hv := hp.child v (by simp)
    have ht := hp.part target (by simp)
    rcases target with ⟨target, kind⟩
    cases kind
    case varTarget name =>
      exact h.bind (h.assignVariable ht.bindings hv.value) fun _ => h.pure _ (by simp)
    case fieldTarget r name =>
      have hr := ht.child r (by simp)
      exact h.bind (h.assignField name hr.value hv.value) fun _ => h.pure _ (by simp)
    all_goals exact h.failAt _ _
  case binary l op r =>
    have hl := hp.child l (by simp)
    have hr := hp.child r (by simp)
    exact h.bind (hl.value Γ) fun lhs => h.bind (hr.value _) fun rhs =>
      h.mono (h.call none op.method (by simp) (by simp)) (by simp)
  case unary op n =>
    have hn := hp.child n (by simp)
    exact h.bind (hn.value Γ) fun v =>
      h.mono (h.call none op.method (by simp) (by simp)) (by simp)
  all_goals exact h.failAt _ _

lemma node : Lowered env env' R J (.mk info kind) where
  value Γ := by
    unfold Lowering.value
    refine h.nested info ?_
    cases hd : kind.delivery info with
    | own => exact h.ownValue hp
    | filled =>
      exact h.bind h.allocTemp fun t =>
        h.bind (h.construct (some t) hp (Or.inr hd)) fun _ => h.pure t (by simp)
    | nothing =>
      exact h.bind (h.construct none hp (Or.inl rfl)) fun _ => h.constTemp .nil
  effect Γ := by
    unfold Lowering.effect
    refine h.nested info ?_
    have effects : Acting R J Γ (Lowering.construct env info none kind)
        (Lowering.construct env' info none kind) :=
      h.mono (h.construct none hp (Or.inl rfl)) (by simp)
    cases kind.delivery info with
    | own => exact h.ownEffect hp
    | filled => exact effects
    | nothing => exact effects

omit hp in
/-- **The lowerings of a tree under two constructions are related**, by any relation that all
operations keep. -/
theorem lowering (n : Node) (hs : n.Each (Node.Sound vars clear)) (hJ : n.exits ⊆ J) :
    Lowered env env' R J n := by
  induction n using Node.induction_below generalizing J with
  | step n ih =>
    rcases n with ⟨info, kind⟩
    exact h.node ⟨hs, hJ, fun d hd K hsd hK => ih d hd hsd hK⟩

end Construction.Related

/-! ## Relations that take no account of jumps and variables -/

lemma Lowering.sound_univ (n : Node) : n.Each (Node.Sound Set.univ fun _ => True) :=
  ⟨⟨fun _ _ => trivial, fun _ _ => trivial⟩, fun _ _ => ⟨fun _ _ => trivial, fun _ _ => trivial⟩⟩

namespace Construction.Related

variable {R : Relation Set.univ m m'} (h : Related env env' (fun _ => True) R)

include h

lemma everywhere (n : Node) : Lowered env env' R Set.univ n :=
  h.lowering n (Lowering.sound_univ n) (Set.subset_univ _)

lemma effects_everywhere (ns : List Node) :
    Acting R Set.univ ⟨Set.univ, Set.Subset.rfl⟩ (Lowering.effects env ns)
      (Lowering.effects env' ns) :=
  h.effects fun n _ => h.everywhere n

lemma into_everywhere (result : Option Binding) (ns : List Node) :
    Filling R Set.univ ⟨Set.univ, Set.Subset.rfl⟩ result
      (Construction.into result (Lowering.body env ns) (Lowering.effects env ns))
      (Construction.into result (Lowering.body env' ns) (Lowering.effects env' ns)) :=
  h.into_body result fun n _ => h.everywhere n

end Construction.Related

end ControlFlow
