import ControlFlow.Proofs.Lowering.Elements
import ControlFlow.Proofs.Lowering.Poised
/-!
# What a walk leaves alone

A walk over a node leaves targets and depth as they were, however it ends. If it ends with a result,
it has added instructions to the block that was current and to new ones, each of them in front of the
end of its block, and edges that lead to new blocks and to targets of jumps. A node that is walked for
its value gives a new temporary, and leaves a block to go on with.

The states in question are those that a node is walked in while a tree is lowered, whether this ends
with a graph or not.

The main result is `Lowering.walk_leaves_rest_alone`.
-/

namespace ControlFlow

open Builder

/-! ## Values -/

namespace WalkT

variable {α β : Type}

/-- Behind the walk a block is current. -/
def Opens (w : Walk α) : Prop := ∀ ⦃s a s'⦄, w.Yields s a s' → ∃ n, s'.builder.At n

/-- Behind the walk a block is current if one was so before. -/
def StaysOpen (w : Walk α) : Prop :=
  ∀ ⦃s a s'⦄, w.Yields s a s' → (∃ n, s.builder.At n) → ∃ n, s'.builder.At n

/-- The walk gives a temporary that it has handed out. -/
def HandsOut (w : Walk Binding) : Prop :=
  ∀ ⦃s v s'⦄, w.Yields s v s' → Gives v s.builder s'.builder

/-- The walk gives a temporary that it has handed out, and leaves a block to go on with. -/
structure Delivers (w : Walk Binding) : Prop where
  lays : w.Lays
  gives : w.HandsOut
  opens : w.Opens

lemma Lays.of_linked {w : Walk α} {p : Plan α} (h : Linked w p) : w.Lays := by
  intro b T d a s' walked
  obtain ⟨b', c, rfl, -, lays⟩ := h b T d a s' walked
  exact ⟨b', rfl, c, lays⟩

lemma Lays.nextTemp_le {w : Walk α} (h : w.Lays) {s s' : WalkState} {a : α}
    (walked : w.Yields s a s') : s.builder.nextTemp ≤ s'.builder.nextTemp := by
  obtain ⟨b', rfl, laid⟩ := h walked
  exact laid.nextTemp_le

namespace Opens

variable {x : Walk α} {f : α → Walk β}

lemma behind (hf : ∀ a, (f a).Opens) : (x >>= f).Opens := by
  intro s r s' h
  obtain ⟨a, s₁, -, h₂⟩ := yields_bind.1 h
  exact hf a h₂

lemma before (hx : x.Opens) (hf : ∀ a, (f a).StaysOpen) : (x >>= f).Opens := by
  intro s r s' h
  obtain ⟨a, s₁, h₁, h₂⟩ := yields_bind.1 h
  exact hf a h₂ (hx h₁)

lemma failAt (info : Info) (fault : LowerFault) : (WalkT.failAt info fault : Walk α).Opens :=
  fun _ _ _ h => absurd h not_yields_failAt

lemma emit {i : Instruction} (plain : i.isTerminator = false) : (WalkT.emit i).Opens := by
  rintro ⟨b, T, d⟩ u s' h
  obtain rfl := yields_build.1 h
  obtain ⟨n, hn⟩ := b.exists_at_opened
  refine ⟨n, ?_⟩
  rw [← emit_opened, emit_eq hn]
  simp [At, plain]

lemma startBlock (n : BlockName) : (WalkT.startBlock n).Opens := by
  rintro ⟨b, T, d⟩ u s' h
  obtain rfl := yields_build.1 h
  exact ⟨n, rfl⟩

lemma twoWays (c : Walk Binding) (on : Bool) (x y : Walk Unit) :
    (Construction.twoWays c on x y : Walk Unit).Opens := by
  change (WalkT.twoWays c on x y).Opens
  unfold WalkT.twoWays
  repeat' refine behind fun _ => ?_
  exact startBlock _

lemma conditional (on : Bool) (c : Walk Binding) (x : Walk Unit) (a : Alternative Walk) :
    (Construction.conditional on c x a : Walk Unit).Opens := by
  change (WalkT.conditional on c x a).Opens
  unfold WalkT.conditional
  exact behind fun after => behind fun _ => startBlock after

lemma select (v : Walk Binding) (cs : Binding → Clauses Walk) :
    (Construction.select v cs : Walk Unit).Opens := by
  change (WalkT.select v cs).Opens
  unfold WalkT.select
  exact behind fun after => behind fun _ => behind fun _ => startBlock after

lemma guarded {x : Walk Unit} (hx : x.Opens) (clause : Option (Walk Unit)) :
    (Construction.guarded x clause : Walk Unit).Opens := by
  change (WalkT.guarded x clause).Opens
  unfold WalkT.guarded
  cases clause with
  | none => exact behind fun bodyBlock => behind fun _ => behind fun _ => hx
  | some clause =>
    repeat' refine behind fun _ => ?_
    exact startBlock _

lemma blockCall (params : List Parameter) (dest : Option Binding) (callee : Callee)
    (args : Walk Arguments) (body : Walk Binding) :
    (WalkT.blockCall params dest callee args body).Opens := by
  unfold WalkT.blockCall
  repeat' refine behind fun _ => ?_
  exact startBlock _

lemma send (info : Info) (dest : Option Binding) (callee : Callee) (args : Walk Arguments)
    (pass : Option (Walk Binding)) (block : Construction.BlockLiteral Walk) :
    (Construction.send info dest callee args pass block : Walk Unit).Opens := by
  cases block with
  | absent =>
    cases pass with
    | some v => exact behind fun _ => behind fun _ => emit rfl
    | none => exact behind fun _ => emit rfl
  | present params body =>
    cases pass with
    | some v => exact failAt info _
    | none => exact blockCall ..
  | misplaced blockInfo tag =>
    cases pass with
    | some v => exact failAt info _
    | none => exact failAt blockInfo _

end Opens

namespace Delivers

variable {x : Walk Binding}

lemma failAt (info : Info) (fault : LowerFault) : (WalkT.failAt info fault : Walk Binding).Delivers :=
  ⟨.failAt info fault, fun _ _ _ h => absurd h not_yields_failAt, .failAt info fault⟩

lemma behind {x : Walk α} {f : α → Walk Binding} (hx : x.Lays) (hf : ∀ a, (f a).Delivers) :
    (x >>= f).Delivers := by
  refine ⟨hx.bind fun a => (hf a).lays, fun s v s' h => ?_, .behind fun a => (hf a).opens⟩
  obtain ⟨a, s₁, h₁, h₂⟩ := yields_bind.1 h
  obtain ⟨k, rfl, low, high⟩ := (hf a).gives h₂
  exact ⟨k, rfl, (hx.nextTemp_le h₁).trans low, high⟩

/-- Something is done with a temporary before it is given. -/
lemma kept {f : Binding → Walk α} (hx : x.Lays) (gives : x.HandsOut) (hf : ∀ v, (f v).Lays)
    (opens : (x >>= f).Opens) : (do let v ← x; let _ ← f v; return v).Delivers := by
  have split : ∀ {s v s'}, (do let v ← x; let _ ← f v; return v).Yields s v s' →
      ∃ s₁ a, x.Yields s v s₁ ∧ (f v).Yields s₁ a s' := by
    intro s v s' h
    obtain ⟨v', s₁, h₁, h⟩ := yields_bind.1 h
    obtain ⟨a, s₂, h₂, h⟩ := yields_bind.1 h
    obtain ⟨rfl, rfl⟩ := yields_pure.1 h
    exact ⟨s₁, a, h₁, h₂⟩
  refine ⟨hx.bind fun v => (hf v).bind fun _ => .pure v, fun s v s' h => ?_, fun s v s' h => ?_⟩
  · obtain ⟨s₁, a, h₁, h₂⟩ := split h
    obtain ⟨k, rfl, low, high⟩ := gives h₁
    exact ⟨k, rfl, low, high.trans_le ((hf _).nextTemp_le h₂)⟩
  · obtain ⟨s₁, a, h₁, h₂⟩ := split h
    exact opens (yields_bind.2 ⟨v, s₁, h₁, h₂⟩)

lemma before {f : Binding → Walk α} (hx : x.Delivers) (hf : ∀ v, (f v).Lays)
    (stays : ∀ v, (f v).StaysOpen) : (do let v ← x; let _ ← f v; return v).Delivers :=
  kept hx.lays hx.gives hf (.before hx.opens stays)

/-- A new temporary is filled. -/
lemma alloc {f : Binding → Walk α} (hf : ∀ t, (f t).Lays) (opens : ∀ t, (f t).Opens) :
    (do let t ← allocTemp; let _ ← f t; return t).Delivers := by
  refine kept .allocTemp (fun s v s' h => ?_) hf (.behind opens)
  obtain ⟨rfl, rfl⟩ := yields_take.1 h
  exact ⟨s.builder.nextTemp, rfl, le_rfl, Nat.lt_succ_self _⟩

lemma constTemp (c : Constant) : (Construction.constTemp c : Walk Binding).Delivers :=
  alloc (fun _ => .emit rfl) fun _ => .emit rfl

lemma callValue (r : Binding) (method : String) (args : List Binding) :
    (Construction.callValue r method args : Walk Binding).Delivers :=
  alloc (fun _ => .emit rfl) fun _ => .emit rfl

lemma readVariable (b : Binding) : (Construction.readVariable b : Walk Binding).Delivers :=
  alloc (fun _ => .emit rfl) fun _ => .emit rfl

lemma nested {env : Environment} {info : Info} (hx : x.Delivers) :
    (WalkT.nested env info x).Delivers := by
  refine ⟨fun b T d v s' h => ?_, fun s v s' h => ?_, fun s v s' h => ?_⟩
  · obtain ⟨s₁, h₁, rfl⟩ := yields_nested h
    obtain ⟨b', rfl, laid⟩ := hx.lays h₁
    exact ⟨b', rfl, laid⟩
  · obtain ⟨s₁, h₁, rfl⟩ := yields_nested h
    have given := hx.gives h₁
    exact given
  · obtain ⟨s₁, h₁, rfl⟩ := yields_nested h
    have current := hx.opens h₁
    exact current

end Delivers

end WalkT

namespace Lowering

open WalkT

variable {env : Environment} {ns : List Node} {info : Info} {kind : Kind Node}

lemma staysOpen_elements (klass array : Binding) (ns : List Node) :
    (elements env klass array ns : Walk Unit).StaysOpen := by
  induction ns with
  | nil =>
    intro s u s' h current
    obtain ⟨-, rfl⟩ := yields_pure.1 h
    exact current
  | cons n ns ih =>
    have added : ∀ splat v, (Construction.addValue klass array splat v : Walk Unit).Opens := by
      rintro (_ | _) v
      · exact .emit rfl
      · exact .behind fun _ => .emit rfl
    rw [elements_cons]
    exact fun s u s' h _ => Opens.behind (fun v => .before (added _ v) fun _ => ih) h

lemma delivers_body (hn : ∀ n ∈ ns, (value env n : Walk Binding).Delivers) :
    (body env ns : Walk Binding).Delivers := by
  induction ns with
  | nil => exact .constTemp .nil
  | cons n ns ih =>
    rw [List.forall_mem_cons] at hn
    unfold body
    cases ns.isEmpty with
    | true => exact hn.1
    | false =>
      have linked := (Linked.related env env rfl).everywhere n
      exact .behind (.of_linked (linked.effect ⟨Set.univ, subset_rfl⟩)) fun _ => ih hn.2

lemma delivers_concat {x : Walk Binding} (hx : x.Delivers)
    (hn : ∀ n ∈ ns, (value env n : Walk Binding).Delivers) :
    (do let text ← x; concat env text ns).Delivers := by
  induction ns generalizing x with
  | nil =>
    have same : (do let text ← x; concat env text []) = x := bind_pure x
    rwa [same]
  | cons n ns ih =>
    rw [List.forall_mem_cons] at hn
    have longer : (do
        let text ← x
        let v ← value env n
        Construction.callValue text "concat" [v]).Delivers :=
      .behind hx.lays fun text => .behind hn.1.lays fun v => .callValue text "concat" [v]
    have rest := ih longer hn.2
    simp only [bind_assoc] at rest
    exact rest

/-- A construct that fills a result leaves a block to go on with. -/
lemma opens_construct (filled : kind.delivery info = .filled) (t : Binding) :
    (construct env info (some t) kind : Walk Unit).Opens := by
  cases kind
  case command parts => exact .behind fun _ => .behind fun _ => .behind fun _ => .emit rfl
  case varRef name => exact .behind fun _ => .emit rfl
  case opAssign target op v =>
    rcases target with ⟨target, kind⟩
    cases kind
    case varTarget name =>
      refine .behind fun slot => .behind fun current => ?_
      cases op.shortCircuits with
      | true => exact .behind fun _ => .emit rfl
      | false => exact .behind fun _ => .behind fun _ => .behind fun _ => .emit rfl
    case fieldTarget r name =>
      refine .behind fun r => .behind fun current => ?_
      cases op.shortCircuits with
      | true => exact .twoWays ..
      | false => exact .behind fun _ => .behind fun _ => .behind fun _ => .emit rfl
    all_goals exact .failAt _ _
  case binary l op r => exact .behind fun _ => .twoWays ..
  case ifThen c stmts other | unlessThen c stmts other => exact .conditional ..
  case ifMod c n | unlessMod c n =>
    unfold construct
    exact .conditional ..
  case case n clauses other =>
    unfold construct
    exact .select ..
  case forIn target n stmts =>
    rcases target with ⟨target, kind⟩
    cases kind
    case varTarget name => exact .behind fun _ => .behind fun _ => .blockCall ..
    all_goals exact .failAt _ _
  case guarded stmts clause =>
    cases clause <;> unfold construct <;> exact .guarded (.behind fun _ => .emit rfl) _
  case call r method args pass block => exact .behind fun _ => .send ..
  case super args pass block => exact .send ..
  case zsuper block =>
    unfold construct
    cases info.scope.bind (·.method) with
    | none => exact .failAt info _
    | some method => exact .send ..
  all_goals cases filled

attribute [local simp] Kind.fields Kind.children

lemma delivers_ownValue (hp : Node.Parts (fun _ => True)
      (fun n => (value env n : Walk Binding).Delivers) (.mk info kind)) :
    (ownValue env info kind : Walk Binding).Delivers := by
  have linked := Linked.related env env rfl
  have known : ∀ name, (Construction.wellKnown env info name : Walk Binding).Lays := fun name =>
    .of_linked (linked.wellKnown (J := ∅) (Γ := ⟨Set.univ, subset_rfl⟩) info name)
  have named : ∀ (info : Info) tag (f : Binding → Walk Binding), (∀ b, (f b).Delivers) →
      (Construction.resolved info tag >>= f).Delivers := fun info tag f hf =>
    .behind (.of_linked (linked.resolved (J := ∅) (Γ := ⟨Set.univ, subset_rfl⟩) tag (by simp))) hf
  have stays : ∀ {i : Instruction}, i.isTerminator = false → (WalkT.emit i).StaysOpen :=
    fun plain _ _ _ h _ => Opens.emit plain h
  cases kind
  case program stmts | paren stmts => exact delivers_body (hp.all .body stmts (by simp))
  case begin n => exact hp.child n (by simp)
  case void => exact .constTemp .nil
  case literal c => exact .constTemp c
  case content text => exact .constTemp (.str text)
  case str parts => exact delivers_concat (.constTemp _) (hp.all .part parts (by simp))
  case embed stmts =>
    exact .behind (delivers_body (hp.all .body stmts (by simp))).lays fun v => .callValue v "to_s" []
  case regexp parts options =>
    have text := delivers_concat (.constTemp (.str "")) (hp.all .part parts (by simp))
    have all := Delivers.behind text.lays fun text =>
      .behind (Delivers.constTemp (.str options)).lays fun options =>
        .behind (known "Regexp") fun klass => .callValue klass "new" [text, options]
    simp only [bind_assoc] at all
    exact all
  case array items =>
    exact .behind (known "Array") fun klass => .before (.callValue klass "new" [])
      (fun array => lays_elements env klass array items)
      fun array => staysOpen_elements klass array items
  case selfRef =>
    have own := linked.selfBinding (J := ∅) (Γ := ⟨Set.univ, subset_rfl⟩) "self"
      fun b (_ : b ∈ info.bindings) => Set.mem_univ b
    exact .behind (.of_linked own) fun b => .readVariable b
  case varRef name => exact named info _ _ .readVariable
  case varTarget name => exact named info _ _ .readVariable
  case assign target v =>
    have value := hp.child v (by simp)
    have parts := hp.part target (by simp)
    rcases target with ⟨target, kind⟩
    cases kind
    case varTarget name =>
      exact named target _ _ fun slot => .before value (fun _ => .emit rfl) fun _ => stays rfl
    case fieldTarget r name =>
      exact .behind (parts.child r (by simp)).lays fun r =>
        .before value (fun _ => .emit rfl) fun _ => stays rfl
    all_goals exact .failAt _ _
  case binary l op r =>
    exact .behind (hp.child l (by simp)).lays fun lhs =>
      .behind (hp.child r (by simp)).lays fun rhs => .callValue lhs op.method [rhs]
  case unary op n =>
    exact .behind (hp.child n (by simp)).lays fun v => .callValue v op.method []
  all_goals exact .failAt _ _

/-- A node that is walked for its value gives a temporary that was handed out on the way. -/
lemma delivers_value (env : Environment) (n : Node) : (value env n : Walk Binding).Delivers := by
  induction n using Node.induction_below with
  | step n ih =>
    rcases n with ⟨info, kind⟩
    have linked := Linked.related env env rfl
    have constructed : ∀ result, (result = none ∨ kind.delivery info = .filled) →
        (construct env info result kind : Walk Unit).Lays := fun result filled =>
      .of_linked (linked.construct (Γ := ⟨Set.univ, subset_rfl⟩) result
        ⟨sound_univ _, Set.subset_univ _, fun d _ _ => linked.lowering d⟩ filled)
    refine .nested ?_
    cases filled : kind.delivery info with
    | own => exact delivers_ownValue ⟨⟨trivial, fun _ _ => trivial⟩, ih⟩
    | filled => exact .alloc (fun t => constructed _ (Or.inr filled)) (opens_construct filled)
    | nothing => exact .behind (constructed _ (Or.inl rfl)) fun _ => .constTemp .nil

end Lowering

/-! ## What is added -/

/-- What was added to a graph while jumps had the targets `T`. -/
structure Builder.Augments (T : JumpTargets) (b b' : Builder) : Prop where
  blocks : ∀ n ∈ b.graph.names, n ∈ b'.graph.names
  /-- Instructions were added to the block that was current and to new ones, if these had no end. -/
  code : ∀ n, ∃ added, b'.graph.code n = b.graph.code n ++ added ∧ (added ≠ [] →
    (b.At n ∨ n ∈ b.since b') ∧ ∀ i ∈ b.graph.code n, i.isTerminator = false)
  /-- None of them was added behind the end of a block. -/
  ends : ∀ n, ∀ i ∈ (b'.graph.code n).dropLast, i.isTerminator = false
  current : ∀ n, b'.At n → ∀ i ∈ b'.graph.code n, i.isTerminator = false
  /-- Edges lead from such blocks to new ones, or to targets of jumps. -/
  edges : ∃ added, b'.graph.edges = b.graph.edges ++ added ∧ ∀ e ∈ added,
    (b.At e.source ∨ e.source ∈ b.since b') ∧
      (e.target ∈ b.since b' ∨ ∃ kind, T.get? kind = some e.target)

lemma Builder.Advances.augments {T : JumpTargets} {b b' : Builder} (poised : b.Poised T.names 0)
    (h : Advances T.names 0 0 b b') : Augments T b b' := by
  have grown : Extends {n | b.At n} T.names b b' := by simpa using h.grown
  refine ⟨grown.names, fun n => ?_, h.poised.neat, h.poised.unended, ?_⟩
  · obtain ⟨added, code⟩ := grown.grows n
    refine ⟨added, code.symm, fun some => ?_⟩
    by_cases current : b.At n
    · exact ⟨Or.inl current, poised.unended n current⟩
    · by_cases new : n ∈ b.since b'
      · have empty : b.graph.code n = [] :=
          b.graph.code_eq_nil fun mem => new.2 (poised.tidy.known n mem)
        exact ⟨Or.inr new, by simp [empty]⟩
      · have same := grown.code n fun inside => inside.elim current new
        exact absurd (List.append_right_eq_self.1 (code.trans same)) some
  · obtain ⟨added, edges, leads⟩ := grown.edges
    exact ⟨added, edges, fun e mem => ⟨(leads e mem).1, (leads e mem).2.symm⟩⟩

namespace Lowering

variable {types : String → Option Binding} {options : Options} {root : Node} {s s' : WalkState}

/-- However a walk ends that follows in every state, targets and depth are as they were. -/
lemma kept_of_follows {α : Type} {t : Noting α} (follows : WalkT.Follows 0 0 ∅ t) (ready : s.Ready)
    {r : Except LowerError α} (ended : (WalkT.erase t).run.run s = (r, s')) :
    s'.targets = s.targets ∧ s'.depth = s.depth ∧
      ∀ a, r = .ok a → s.builder.Augments s.targets s'.builder := by
  have poised : s.builder.Poised (∅ ∪ s.targets.names) 0 := by rwa [Set.empty_union]
  obtain ⟨V, ends⟩ := WalkT.exists_ends_of_erase ended
  obtain ⟨-, b', rfl, walked⟩ := follows _ poised ends
  refine ⟨rfl, rfl, fun a ha => ?_⟩
  obtain ⟨rest, -⟩ := walked a ha
  rw [Set.empty_union] at rest
  exact rest.augments ready

/-- **A walk leaves the rest alone.** Let a state be met while a tree is lowered, and let any node be
walked in it. However the walk ends, targets and depth are what they were. If it ends with a result,
instructions have been added to the block that was current and to new blocks alone, never behind the
end of a block, and every edge that has been added leads from such a block to a new one or to a target
of jumps. A node that is walked for its value gives a temporary that was handed out on the way, and
leaves a block to go on with. -/
theorem walk_leaves_rest_alone (types : String → Option Binding) (options : Options) (root : Node)
    (s : WalkState) (met : ∃ info after, .node info s after ∈ visits types options root) (n : Node) :
    (∀ r s', (value ⟨types, options.maxDepth⟩ n : Walk Binding).run.run s = (r, s') →
      s'.targets = s.targets ∧ s'.depth = s.depth ∧
        ∀ v, r = .ok v → s.builder.Augments s.targets s'.builder ∧
          Gives v s.builder s'.builder ∧ ∃ m, s'.builder.At m) ∧
    ∀ r s', (effect ⟨types, options.maxDepth⟩ n : Walk Unit).run.run s = (r, s') →
      s'.targets = s.targets ∧ s'.depth = s.depth ∧
        ∀ u, r = .ok u → s.builder.Augments s.targets s'.builder := by
  obtain ⟨info, after, visit⟩ := met
  have ready : s.Ready := ready_of_visit visit
  have follows := (WalkT.Follows.related ⟨types, options.maxDepth⟩).everywhere n
  constructor
  · intro r s' ended
    rw [erase_value] at ended
    obtain ⟨targets, depth, added⟩ :=
      kept_of_follows (follows.value ⟨Set.univ, subset_rfl⟩ 0 ∅) ready ended
    refine ⟨targets, depth, fun v result => ⟨added v result, ?_⟩⟩
    rw [← erase_value] at ended
    subst result
    have delivers := delivers_value ⟨types, options.maxDepth⟩ n
    exact ⟨delivers.gives ended, delivers.opens ended⟩
  · intro r s' ended
    rw [erase_effect] at ended
    exact kept_of_follows (follows.effect ⟨Set.univ, subset_rfl⟩ 0 ∅) ready ended

/-- `while true do break end`. -/
def breakingLoop : Node :=
  .mk {} (.loop .whileTrue (.mk {} (.literal (.bool true))) [.mk {} (.breakWith [])])

/-- The state that the statement of a program is walked in. -/
def beforeLoop : WalkState := ⟨start {} (.mk {} (.program [breakingLoop])), rootTargets, 1⟩

theorem walk_leaves_rest_alone_breakingLoop :
    (∃ info after, .node info beforeLoop after ∈
      visits builtinTypes {} (.mk {} (.program [breakingLoop]))) ∧
    ∃ v s', (value ⟨builtinTypes, 512⟩ breakingLoop : Walk Binding).Yields beforeLoop v s' ∧
      s'.targets = rootTargets ∧ s'.depth = 1 ∧
      Augments rootTargets beforeLoop.builder s'.builder ∧
      Gives v beforeLoop.builder s'.builder ∧ ∃ m, s'.builder.At m := by
  obtain ⟨u, s, ended⟩ := WalkT.exists_yields_of_isOk
    (w := wholeTree ⟨builtinTypes, 512⟩ (.mk {} (.program [breakingLoop])))
    (s := initial {} (.mk {} (.program [breakingLoop]))) (by decide +kernel)
  obtain ⟨v, s', V, ends, noted⟩ := exists_ends_of_program ended
  have met : ∃ info after, .node info beforeLoop after ∈
      visits builtinTypes {} (.mk {} (.program [breakingLoop])) :=
    ⟨_, _, noted (mem_of_value ends)⟩
  have walked : (value ⟨builtinTypes, 512⟩ breakingLoop : Walk Binding).Yields beforeLoop v s' := by
    rw [erase_value]
    exact ends.erase
  obtain ⟨targets, depth, added⟩ := (walk_leaves_rest_alone _ _ _ _ met breakingLoop).1 _ _ walked
  exact ⟨met, v, s', walked, targets, depth, added v rfl⟩

end Lowering

end ControlFlow
