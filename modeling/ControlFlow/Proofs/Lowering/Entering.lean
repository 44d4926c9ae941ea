import ControlFlow.Proofs.Lowering.Faults
/-!
# What nodes demand

A node can be walked if what surrounds it is known and its children can be walked. This is said here
kind by kind, for each child by its role, and shown to be `Node.Fine`.
-/

namespace ControlFlow

/-! ## Entering a child -/

section

variable {env : Environment}

/-- A node can be walked as an expression or statement. -/
def Node.Runs (env : Environment) (mode : WalkMode) (n : Node) : WalkT.Need :=
  fun d J => n.kind.Walkable ∧ d < env.maxDepth ∧ n.Fine env.types env.maxDepth mode (d + 1) J

/-- A node can be walked as an element of a list, where it may be spliced. -/
def Node.RunsItem (env : Environment) (mode : WalkMode) : Node → WalkT.Need
  | .mk _ (.splat c) => c.Runs env mode
  | n => n.Runs env mode

lemma Node.runsItem_eq {ns : List Node} {n : Node} {mode : WalkMode}
    (single : ns.any (·.isSplat) = false) (mem : n ∈ ns) :
    n.RunsItem env mode = n.Runs env mode := by
  have plain := List.any_eq_false.1 single n mem
  obtain ⟨info, kind⟩ := n
  cases kind <;> first | rfl | exact absurd rfl plain

/-- A node can be walked as what a construct assigns to. -/
def Node.RunsTarget (env : Environment) (parent : Kind Node) (n : Node) : WalkT.Need := fun d J =>
  n.kind.IsTargetOf parent ∧ n.Fine env.types env.maxDepth .value d J

/-- A node can be walked as what follows the body of a conditional. -/
def Node.RunsAlternative (env : Environment) (mode : WalkMode) (n : Node) : WalkT.Need := fun d J =>
  n.kind.IsAlternative ∧ n.Fine env.types env.maxDepth mode d J

/-- A node can be walked as a clause of a `case`. -/
def Node.RunsClause (env : Environment) (mode : WalkMode) (n : Node) : WalkT.Need := fun d J =>
  n.kind.IsClause ∧ n.Fine env.types env.maxDepth mode d J

/-- A node can be walked as the block literal of a call. -/
def Node.RunsBlock (env : Environment) (n : Node) : WalkT.Need := fun d J =>
  n.kind.IsBlock ∧ n.Fine env.types env.maxDepth .value d J

/-- The arguments and the block of a call can be walked. -/
def Kind.RunsCall (env : Environment) (args : List Node) (pass block : Option Node) : WalkT.Need :=
  fun d J => ((args.any (·.isSplat) → (env.types "Array").isSome) ∧
    ∀ n ∈ args, n.RunsItem env .value d J) ∧ (pass = none ∨ block = none) ∧
      (∀ n ∈ pass.toList, n.Runs env .value d J) ∧ ∀ n ∈ block.toList, n.RunsBlock env d J

/-- A child can be walked from its parent. -/
def Kind.Enters (env : Environment) (parent : Kind Node) (d : Nat)
    (J : Set JumpKind) : Role × WalkMode × Node → Prop
  | (role, mode, c) => parent.Takes role c.kind ∧ (c.isWrapper role = false → d < env.maxDepth) ∧
      c.Fine env.types env.maxDepth mode (if c.isWrapper role then d else d + 1)
        (parent.around role J)

variable {info : Info}

lemma Node.fine_mk {mode : WalkMode} {d : Nat} {J : Set JumpKind} {kind : Kind Node} :
    (Node.mk info kind).Fine env.types env.maxDepth mode d J ↔ (∀ j, kind.jump? = some j → j ∈ J) ∧
      kind.Annotated env.types info mode ∧ kind.OneBlock ∧
        ∀ v ∈ kind.visits mode, kind.Enters env d J v := by
  constructor
  · rintro ⟨jump, annotated, oneBlock, takes, fits, below⟩
    exact ⟨jump, annotated, oneBlock,
      fun ⟨role, μ, c⟩ mem => ⟨takes role μ c mem, fits role μ c mem, below role μ c mem⟩⟩
  · rintro ⟨jump, annotated, oneBlock, enters⟩
    exact ⟨jump, annotated, oneBlock, fun role μ c mem => (enters _ mem).1,
      fun role μ c mem => (enters _ mem).2.1, fun role μ c mem => (enters _ mem).2.2⟩

variable {parent : Kind Node} {role : Role} {mode : WalkMode} {d : Nat} {J : Set JumpKind} {c : Node}
  {cs : List Node}

lemma Kind.enters_plain (plain : role.isPlain = true) :
    parent.Enters env d J (role, mode, c) ↔
      c.Runs env mode d (parent.around role J) := by
  rw [Enters, Node.Runs, takes_plain plain]
  refine and_congr_right fun walkable => ?_
  have single : c.isSplat = false := by
    obtain ⟨info, kind⟩ := c
    cases kind <;> first | rfl | cases walkable
  have level : c.isWrapper role = false := by
    cases role <;> first | exact single | cases plain
  simp [level]

lemma Kind.enters_item (item : role.isItem = true) :
    parent.Enters env d J (role, mode, c) ↔
      c.RunsItem env mode d (parent.around role J) := by
  obtain ⟨info, kind⟩ := c
  by_cases splat : ∃ n, kind = .splat n
  · obtain ⟨n, rfl⟩ := splat
    have takes : parent.Takes role (.splat n) := by
      cases role <;> trivial
    have wrapper : (Node.mk info (.splat n)).isWrapper role = true := Bool.or_true _
    have inner : (Node.mk info (.splat n)).Fine env.types env.maxDepth mode d
        (parent.around role J) ↔ n.Runs env mode d (parent.around role J) := by
      have value : Role.value.isPlain = true := rfl
      simp [Node.fine_mk, jump?, Annotated, OneBlock, visits, enters_plain value, Kind.around]
    rw [Enters, wrapper, if_pos rfl, inner]
    exact ⟨fun h => h.2.2, fun h => ⟨takes, by simp, h⟩⟩
  · have takes : parent.Takes role kind ↔ kind.Walkable := by
      cases role <;> cases item
      all_goals cases kind <;> first | rfl | exact absurd ⟨_, rfl⟩ splat
    have level : (Node.mk info kind).isWrapper role = false := by
      cases role <;> cases item
      all_goals cases kind <;> first | rfl | exact absurd ⟨_, rfl⟩ splat
    have item_runs : (Node.mk info kind).RunsItem env mode =
        (Node.mk info kind).Runs env mode := by
      cases kind <;> first | rfl | exact absurd ⟨_, rfl⟩ splat
    rw [Enters, level, item_runs, Node.Runs, Node.kind, takes]
    simp

/-- Statements that can be walked, of which only the last is walked for its value. -/
def Kind.RunsAll (env : Environment) (mode : WalkMode) :
    List Node → WalkT.Need
  | [] => fun _ _ => True
  | [c] => c.Runs env mode
  | c :: cs => fun d J => c.Runs env .effect d J ∧ RunsAll env mode cs d J

lemma Kind.enters_statements (plain : role.isPlain = true) :
    (∀ v ∈ statements role mode cs, parent.Enters env d J v) ↔
      RunsAll env mode cs d (parent.around role J) := by
  induction cs with
  | nil => simp [statements, RunsAll]
  | cons c cs ih =>
    cases cs with
    | nil => simp [statements, RunsAll, enters_plain plain]
    | cons c' cs =>
      show (∀ v ∈ (role, .effect, c) :: statements role mode (c' :: cs), _) ↔
        c.Runs env .effect d _ ∧ RunsAll env mode (c' :: cs) d _
      rw [List.forall_mem_cons, ih, enters_plain plain]

lemma Kind.runsAll_effect : RunsAll env .effect cs d J ↔ ∀ c ∈ cs, c.Runs env .effect d J := by
  induction cs with
  | nil => simp [RunsAll]
  | cons c cs ih =>
    cases cs with
    | nil => simp [RunsAll]
    | cons c' cs =>
      show c.Runs env .effect d J ∧ RunsAll env .effect (c' :: cs) d J ↔ _
      rw [ih, List.forall_mem_cons (a := c)]

/-- A child that is no level of its own. -/
lemma Kind.enters_wrapper (wrapper : role ∈ [.alternative, .clause, .block, .target]) :
    parent.Enters env d J (role, mode, c) ↔
      parent.Takes role c.kind ∧ c.Fine env.types env.maxDepth mode d (parent.around role J) := by
  have level : c.isWrapper role = true := by simp [Node.isWrapper, wrapper]
  rw [Enters, level, if_pos rfl]
  simp

/-- What a node needs, kind by kind: of what surrounds it, and of its children. -/
def Kind.Demands (env : Environment) (info : Info) (mode : WalkMode) : Kind Node → WalkT.Need
  | .program stmts | .paren stmts | .embed stmts | .elseThen stmts => RunsAll env mode stmts
  | .begin n | .splat n => n.Runs env mode
  | .void | .literal _ | .content _ => fun _ _ => True
  | .selfRef => fun _ _ => mode = .value → info.scope.isSome
  | .varTarget _ => fun _ _ => mode = .value → info.binding.isSome
  | .varRef _ => fun _ _ => info.binding.isSome ∨ info.scope.isSome
  | .str parts => fun d J => ∀ n ∈ parts, n.Runs env mode d J
  | .regexp parts _ => fun d J =>
    (∀ n ∈ parts, n.Runs env mode d J) ∧ (mode = .value → (env.types "Regexp").isSome)
  | .command parts => fun d J => (∀ n ∈ parts, n.Runs env .value d J) ∧ info.scope.isSome
  | .array items => fun d J =>
    (mode = .value → (env.types "Array").isSome) ∧ ∀ n ∈ items, n.RunsItem env mode d J
  | .fieldTarget r _ => r.Runs env .value
  | .multiTarget ts => fun d J => ∀ t ∈ ts, t.RunsTarget env (.multiTarget ts) d J
  | .assign t v => fun d J => t.RunsTarget env (.assign t v) d J ∧ v.Runs env .value d J
  | .opAssign t op v => fun d J => t.RunsTarget env (.opAssign t op v) d J ∧ v.Runs env .value d J
  | .binary l op r => fun d J =>
    l.Runs env .value d J ∧ r.Runs env (if op.shortCircuits then mode else .value) d J
  | .unary _ n => n.Runs env .value
  | .ifThen c stmts other | .elsif c stmts other => fun d J =>
    c.Runs env .value d J ∧ RunsAll env mode stmts d J ∧
      ∀ n ∈ other.toList, n.RunsAlternative env mode d J
  | .ifMod c n | .unlessMod c n => fun d J => c.Runs env .value d J ∧ n.Runs env mode d J
  | .unlessThen c stmts other => fun d J =>
    c.Runs env .value d J ∧ RunsAll env mode stmts d J ∧ RunsAll env mode (other.getD []) d J
  | .loop _ c stmts => fun d J => c.Runs env .value d (J ∪ JumpKind.ofLoop) ∧
      ∀ n ∈ stmts, n.Runs env .effect d (J ∪ JumpKind.ofLoop)
  | .loopMod _ c n => fun d J => c.Runs env .value d (J ∪ JumpKind.ofLoop) ∧
      n.Runs env .effect d (J ∪ JumpKind.ofLoop)
  | .forIn t n stmts => fun d J => t.RunsTarget env (.forIn t n stmts) d J ∧
      n.Runs env .value d J ∧ RunsAll env .value stmts d (J ∪ JumpKind.ofLoop)
  | .case n clauses other => fun d J => n.Runs env .value d J ∧
      (∀ n ∈ clauses, n.RunsClause env mode d J) ∧ RunsAll env mode (other.getD []) d J
  | .whenThen cs stmts => fun d J =>
    (∀ n ∈ cs, n.Runs env .value d J) ∧ RunsAll env mode stmts d J
  | .guarded stmts ensure => fun d J =>
    RunsAll env mode stmts d J ∧ ∀ n ∈ ensure.getD [], n.Runs env .effect d J
  | .returnWith args => fun d J => .return ∈ J ∧
      ((args.any (·.isSplat) ∨ 1 < args.length) → (env.types "Array").isSome) ∧
        ∀ n ∈ args, n.RunsItem env .value d J
  | .breakWith args => fun d J => .break ∈ J ∧ ∀ n ∈ args, n.RunsItem env .effect d J
  | .nextWith args => fun d J => .next ∈ J ∧ ∀ n ∈ args, n.RunsItem env .effect d J
  | .redo => fun _ J => .redo ∈ J
  | .call r _ args pass block => fun d J =>
    ((r = none → info.scope.isSome) ∧ ∀ n ∈ r.toList, n.Runs env .value d J) ∧
      RunsCall env args pass block d J
  | .super args pass block => RunsCall env args pass block
  | .zsuper block => fun d J =>
    (∃ method, info.scope.bind (·.method) = some method ∧
      ((∃ p ∈ method.params, p.kind = .rest) → (env.types "Array").isSome)) ∧
        ∀ n ∈ block.toList, n.RunsBlock env d J
  | .doBlock _ stmts => fun d J => RunsAll env .value stmts d (J ∪ JumpKind.ofLoop)

lemma Node.fine_iff_demands {kind : Kind Node} :
    (Node.mk info kind).Fine env.types env.maxDepth mode d J ↔ kind.Demands env info mode d J := by
  have inMode : ∀ {role mode} {cs : List Node} {P : Role × WalkMode × Node → Prop},
      (∀ v ∈ Kind.inMode role mode cs, P v) ↔ ∀ c ∈ cs, P (role, mode, c) :=
    List.forall_mem_map
  rw [Node.fine_mk]
  cases kind <;>
    simp (disch := decide) only [Kind.jump?, Kind.Annotated, Kind.OneBlock, Kind.visits,
      Kind.Demands, List.forall_mem_cons, List.forall_mem_append, inMode, Kind.enters_plain,
      Kind.enters_item, Kind.enters_statements, Kind.enters_wrapper, Kind.around, Kind.Takes,
      Kind.RunsCall, Node.RunsTarget, Node.RunsAlternative, Node.RunsClause, Node.RunsBlock,
      reduceCtorEq, Option.some.injEq, forall_eq', IsEmpty.forall_iff, implies_true, true_and,
      and_true, List.not_mem_nil, if_true, if_false]
  -- the same conditions in the order of the walk
  all_goals tauto

lemma Node.runsTarget_varTarget {name : String} :
    (Node.mk info (.varTarget name)).RunsTarget env parent d J ↔ info.binding.isSome := by
  rw [RunsTarget, fine_iff_demands]
  exact ⟨fun h => h.2 rfl, fun bound => ⟨trivial, fun _ => bound⟩⟩

lemma Node.runsTarget_fieldTarget {r : Node} {name : String}
    (target : (Kind.fieldTarget r name).IsTargetOf parent) :
    (Node.mk info (.fieldTarget r name)).RunsTarget env parent d J ↔ r.Runs env .value d J := by
  rw [RunsTarget, fine_iff_demands]
  exact and_iff_right target

end

end ControlFlow
