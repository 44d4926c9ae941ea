import ControlFlow.Proofs.Syntax.Tree
/-!
# What a walk over a tree needs

A walk over a syntax tree wants the value of a node or its effects alone, its *mode*. The kind of a node
and the mode decide in which modes the children are walked. What a walk needs can be said without it:
nodes stand where they may, jumps lie in what they leave, what is used by name is known, and the tree
is not too deep. A tree has all of this if each of its nodes does, seen from its parent.
-/

namespace ControlFlow

/-- What a walk over a node is for. -/
inductive WalkMode where
  | value
  | effect
deriving DecidableEq, Repr

/-! ## Places -/

/-- The kinds of nodes that are expressions or statements. -/
def Kind.Walkable {α : Type} : Kind α → Prop
  | .splat _ | .fieldTarget .. | .multiTarget _ | .elsif .. | .elseThen _ | .whenThen ..
  | .doBlock .. => False
  | _ => True

/-- The kinds of nodes that may follow the body of a conditional. -/
def Kind.IsAlternative {α : Type} : Kind α → Prop
  | .ifThen .. | .ifMod .. | .elsif .. | .elseThen _ => True
  | _ => False

/-- The kind of the clauses of a `case`. -/
def Kind.IsClause {α : Type} : Kind α → Prop
  | .whenThen .. => True
  | _ => False

/-- The kind of block literals. -/
def Kind.IsBlock {α : Type} : Kind α → Prop
  | .doBlock .. => True
  | _ => False

/-- The kinds of nodes that may stand in a list of elements or arguments. -/
def Kind.IsItem {α : Type} : Kind α → Prop
  | .splat _ => True
  | kind => kind.Walkable

/-- The kinds of nodes that a construct assigns to. A loop assigns to variables only. -/
def Kind.IsTargetOf {α : Type} : Kind α → Kind α → Prop
  | .varTarget _, _ => True
  | .fieldTarget .., .forIn .. => False
  | .fieldTarget .., _ => True
  | _, _ => False

/-- The kinds of nodes that may play a role. -/
def Kind.Takes {α : Type} (parent : Kind α) (role : Role) (child : Kind α) : Prop :=
  match role with
  | .target => child.IsTargetOf parent
  | .alternative => child.IsAlternative
  | .clause => child.IsClause
  | .block => child.IsBlock
  | .element | .arg => child.IsItem
  | _ => child.Walkable

/-- A call does not have both a block value and a block literal. -/
def Kind.OneBlock {α : Type} : Kind α → Prop
  | .call _ _ _ blockPass block | .super _ blockPass block => blockPass = none ∨ block = none
  | _ => True

/-- The children of a node may play their roles. -/
structure Node.Placed (n : Node) : Prop where
  takes : ∀ role c, (role, c) ∈ n.kind.fields → n.kind.Takes role c.kind
  oneBlock : n.kind.OneBlock

/-- All nodes of a tree may stand where they do. -/
def Node.WellPlaced (n : Node) : Prop := n.kind.Walkable ∧ n.Each Node.Placed

/-! ## Levels -/

/-- Whether a node in a role belongs to its parent and is no level of its own: the clauses, targets and
blocks of a construct, and what only says that a value is spliced. -/
def Node.isWrapper (role : Role) (n : Node) : Bool :=
  role ∈ [.alternative, .clause, .block, .target] || n.isSplat

/-- The number of levels below a node. -/
def Node.levels : Node → Nat
  | .mk _ kind =>
    (kind.fields.attach.map fun ⟨⟨role, c⟩, _⟩ =>
      if c.isWrapper role then c.levels else c.levels + 1).foldr max 0
termination_by n => sizeOf n
decreasing_by
  all_goals exact Node.sizeOf_child (Kind.mem_children.2 ⟨_, ‹_ ∈ _›⟩)

/-- The number of levels of a tree. -/
def Node.depth (n : Node) : Nat := n.levels + 1

lemma foldr_max_le {ns : List Nat} {k : Nat} : ns.foldr max 0 ≤ k ↔ ∀ n ∈ ns, n ≤ k := by
  induction ns with
  | nil => simp
  | cons n ns ih => simp [ih]

variable {J : Set JumpKind} {types : String → Option Binding} {α : Type} {info : Info}

lemma Node.levels_le {kind : Kind Node} {k : Nat} :
    (Node.mk info kind).levels ≤ k ↔ ∀ role c, (role, c) ∈ kind.fields →
      (if c.isWrapper role then c.levels else c.levels + 1) ≤ k := by
  rw [Node.levels, foldr_max_le, List.forall_mem_map]
  simp

/-! ## Modes of children -/

/-- Children that play one role and are walked in one mode. -/
def Kind.inMode {α : Type} (role : Role) (mode : WalkMode) (cs : List α) :
    List (Role × WalkMode × α) :=
  cs.map fun c => (role, mode, c)

/-- Statements, of which only the last is walked for its value. -/
def Kind.statements {α : Type} (role : Role) (mode : WalkMode) :
    List α → List (Role × WalkMode × α)
  | [] => []
  | [c] => [(role, mode, c)]
  | c :: cs => (role, .effect, c) :: Kind.statements role mode cs

/-- The children of a node that is walked in some mode, each with its role and the mode in which it is
walked. -/
def Kind.visits {α : Type} (mode : WalkMode) : Kind α → List (Role × WalkMode × α)
  | .program body | .embed body | .paren body | .elseThen body => statements .body mode body
  | .literal _ | .content _ | .void | .selfRef | .varRef _ | .varTarget _ | .redo => []
  | .str parts | .regexp parts _ => inMode .part mode parts
  | .command parts => inMode .part .value parts
  | .array elements => inMode .element mode elements
  | .splat value => [(.value, mode, value)]
  | .begin body => [(.body, mode, body)]
  | .guarded body ensure =>
    statements .body mode body ++ inMode .ensure .effect (ensure.getD [])
  | .fieldTarget receiver _ => [(.receiver, .value, receiver)]
  | .multiTarget targets => inMode .target .value targets
  | .assign target value | .opAssign target _ value =>
    [(.target, .value, target), (.value, .value, value)]
  | .binary left op right =>
    [(.left, .value, left), (.right, if op.shortCircuits then mode else .value, right)]
  | .unary _ operand => [(.operand, .value, operand)]
  | .ifThen condition body alternative | .elsif condition body alternative =>
    (.condition, .value, condition) ::
      (statements .body mode body ++ inMode .alternative mode alternative.toList)
  | .ifMod condition body | .unlessMod condition body =>
    [(.condition, .value, condition), (.body, mode, body)]
  | .loopMod _ condition body => [(.condition, .value, condition), (.body, .effect, body)]
  | .unlessThen condition body otherwise =>
    (.condition, .value, condition) ::
      (statements .body mode body ++ statements .otherwise mode (otherwise.getD []))
  | .loop _ condition body => (.condition, .value, condition) :: inMode .body .effect body
  | .forIn target iterable body =>
    (.target, .value, target) :: (.iterable, .value, iterable) :: statements .body .value body
  | .case subject clauses otherwise =>
    (.subject, .value, subject) ::
      (inMode .clause mode clauses ++ statements .otherwise mode (otherwise.getD []))
  | .whenThen candidates body =>
    inMode .candidate .value candidates ++ statements .body mode body
  | .returnWith args => inMode .arg .value args
  | .breakWith args | .nextWith args => inMode .arg .effect args
  | .call receiver _ args blockPass block =>
    inMode .receiver .value receiver.toList ++ inMode .arg .value args ++
      inMode .blockPass .value blockPass.toList ++ inMode .block .value block.toList
  | .doBlock _ body => statements .body .value body
  | .super args blockPass block =>
    inMode .arg .value args ++ inMode .blockPass .value blockPass.toList ++
      inMode .block .value block.toList
  | .zsuper block => inMode .block .value block.toList

lemma Kind.map_statements (role : Role) (mode : WalkMode) (cs : List α) :
    (statements role mode cs).map (fun v => (v.1, v.2.2)) = inRole role cs := by
  induction cs with
  | nil => rfl
  | cons c cs ih =>
    cases cs with
    | nil => rfl
    | cons c' cs => simpa [statements, inRole] using ih

/-- Each child is walked, in its role and in one mode. -/
lemma Kind.map_visits (mode : WalkMode) (kind : Kind α) :
    (kind.visits mode).map (fun v => (v.1, v.2.2)) = kind.fields := by
  have map_inMode : ∀ (role : Role) (mode : WalkMode) (cs : List α),
      (inMode role mode cs).map (fun v => (v.1, v.2.2)) = inRole role cs := by
    intro role mode cs
    simp [inMode, inRole]
  cases kind <;>
    simp only [visits, fields, List.map_append, List.map_cons, List.map_nil, map_statements,
      map_inMode, List.cons_append, List.append_assoc]

lemma Kind.mem_fields_iff (mode : WalkMode) {kind : Kind α} {role : Role} {c : α} :
    (role, c) ∈ kind.fields ↔ ∃ μ, (role, μ, c) ∈ kind.visits mode := by
  rw [← kind.map_visits mode]
  simp

/-! ## Annotations -/

/-- What has to be known about a node that is walked in some mode. -/
def Kind.Annotated (types : String → Option Binding) (info : Info) (mode : WalkMode) :
    Kind Node → Prop
  | .selfRef => mode = .value → info.scope.isSome
  | .varTarget _ => mode = .value → info.binding.isSome
  | .varRef _ => info.binding.isSome ∨ info.scope.isSome
  | .command _ => info.scope.isSome
  | .array _ => mode = .value → (types "Array").isSome
  | .regexp _ _ => mode = .value → (types "Regexp").isSome
  | .returnWith args => (args.any (·.isSplat) ∨ 1 < args.length) → (types "Array").isSome
  | .call receiver _ args _ _ =>
    (receiver = none → info.scope.isSome) ∧ (args.any (·.isSplat) → (types "Array").isSome)
  | .super args _ _ => args.any (·.isSplat) → (types "Array").isSome
  | .zsuper _ => ∃ method, info.scope.bind (·.method) = some method ∧
      ((∃ p ∈ method.params, p.kind = .rest) → (types "Array").isSome)
  | _ => True

/-- A walk over a node in one mode walks another node, in some mode. -/
inductive Node.Walks : WalkMode → Node → WalkMode → Node → Prop where
  | self {mode : WalkMode} {n : Node} : Walks mode n mode n
  | child {mode μ μ' : WalkMode} {info : Info} {kind : Kind Node} {role : Role} {c d : Node}
      (mem : (role, μ, c) ∈ kind.visits mode) (inner : Walks μ c μ' d) :
      Walks mode (.mk info kind) μ' d

/-- What has to be known about all nodes that a walk walks is known. -/
def Node.Annotated (types : String → Option Binding) (mode : WalkMode) (n : Node) : Prop :=
  ∀ μ d, n.Walks mode μ d → d.kind.Annotated types d.info μ

lemma Node.annotated_mk {mode : WalkMode} {kind : Kind Node} :
    (Node.mk info kind).Annotated types mode ↔
      kind.Annotated types info mode ∧
        ∀ role μ c, (role, μ, c) ∈ kind.visits mode → c.Annotated types μ := by
  constructor
  · intro h
    exact ⟨h mode _ .self, fun role μ c mem μ' d walks => h μ' d (.child mem walks)⟩
  · rintro ⟨here, below⟩ μ d walks
    cases walks with
    | self => exact here
    | child mem inner => exact below _ _ _ mem μ d inner

/-! ## Trees that can be walked -/

/-- The jumps that are possible in a child, if some are around its parent. -/
def Kind.around {α : Type} (role : Role) (J : Set JumpKind) : Kind α → Set JumpKind
  | .loop .. | .loopMod .. | .doBlock .. => J ∪ JumpKind.ofLoop
  | .forIn .. => if role = .body then J ∪ JumpKind.ofLoop else J
  | _ => J

lemma Kind.mem_around {kind : Kind α} {role : Role} {jump : JumpKind} :
    jump ∈ kind.around role J ↔ jump ∈ J ∨ kind.LoopsOver role ∧ jump ≠ .return := by
  cases kind with
  | forIn target iterable body =>
    simp only [around, LoopsOver]
    split <;> simp [JumpKind.ofLoop, *]
  | _ => simp [around, LoopsOver, JumpKind.ofLoop]

/-- What is below a node can be walked with `d` levels around it and the jumps in `J`, of which the
node itself may be one. -/
inductive Node.Fine (types : String → Option Binding) (limit : Nat) :
    WalkMode → Nat → Set JumpKind → Node → Prop where
  | mk {mode : WalkMode} {d : Nat} {J : Set JumpKind} {info : Info} {kind : Kind Node}
      (jump : ∀ j, kind.jump? = some j → j ∈ J) (annotated : kind.Annotated types info mode)
      (oneBlock : kind.OneBlock)
      (takes : ∀ role μ c, (role, μ, c) ∈ kind.visits mode → kind.Takes role c.kind)
      (fits : ∀ role μ c, (role, μ, c) ∈ kind.visits mode → c.isWrapper role = false → d < limit)
      (below : ∀ role μ c, (role, μ, c) ∈ kind.visits mode →
        Fine types limit μ (if c.isWrapper role then d else d + 1) (kind.around role J) c) :
      Fine types limit mode d J (.mk info kind)

lemma Node.exits_subset {kind : Kind Node} :
    (Node.mk info kind).exits ⊆ J ↔ (∀ j, kind.jump? = some j → j ∈ J) ∧
      ∀ role c, (role, c) ∈ kind.fields → c.exits ⊆ kind.around role J := by
  constructor
  · intro h
    refine ⟨fun j hj => h (.here hj), fun role c mem j leaves => ?_⟩
    rw [Kind.mem_around]
    by_cases loops : kind.LoopsOver role ∧ j ≠ .return
    · exact Or.inr loops
    · exact Or.inl (h (.child mem (fun around => not_not.1 fun other => loops ⟨around, other⟩) leaves))
  · rintro ⟨here, below⟩ j (own | ⟨mem, free, leaves⟩)
    · exact here j own
    · rcases Kind.mem_around.1 (below _ _ mem leaves) with inside | ⟨around, other⟩
      · exact inside
      · exact absurd (free around) other

/-- The conditions under which a tree can be walked are independent of each other. -/
theorem Node.fine_iff {limit : Nat} (n : Node) {mode : WalkMode} {d : Nat} (hd : d ≤ limit) :
    n.Fine types limit mode d J ↔ n.Each Node.Placed ∧ n.exits ⊆ J ∧ n.Annotated types mode ∧
      d + n.levels ≤ limit := by
  induction n using Node.induction_below generalizing mode d J with
  | step n ih =>
    obtain ⟨info, kind⟩ := n
    have child : ∀ {role μ c}, (role, μ, c) ∈ kind.visits mode → (role, c) ∈ kind.fields :=
      fun mem => (Kind.mem_fields_iff mode).2 ⟨_, mem⟩
    have below : ∀ {role μ c}, (role, μ, c) ∈ kind.visits mode → (Node.mk info kind).Holds c :=
      fun mem => .child (Kind.mem_children.2 ⟨_, child mem⟩)
    rw [Node.each_mk, Node.exits_subset, Node.annotated_mk]
    constructor
    · rintro ⟨jump, annotated, oneBlock, takes, fits, fine⟩
      -- each child has all of it
      have each : ∀ role c, (role, c) ∈ kind.fields → kind.Takes role c.kind ∧ c.Each Node.Placed ∧
          c.exits ⊆ kind.around role J ∧
          d + (if c.isWrapper role then c.levels else c.levels + 1) ≤ limit := by
        intro role c field
        obtain ⟨μ, mem⟩ := (Kind.mem_fields_iff mode).1 field
        have fine_child := fine role μ c mem
        cases wrapper : c.isWrapper role with
        | true =>
          rw [wrapper, if_pos rfl] at fine_child
          obtain ⟨placed, exits, -, levels⟩ := (ih c (below mem) hd).1 fine_child
          exact ⟨takes role μ c mem, placed, exits, levels⟩
        | false =>
          rw [wrapper, if_neg (by decide)] at fine_child
          obtain ⟨placed, exits, -, levels⟩ :=
            (ih c (below mem) (fits role μ c mem wrapper)).1 fine_child
          refine ⟨takes role μ c mem, placed, exits, ?_⟩
          simp only [Bool.false_eq_true, if_false]
          omega
      refine ⟨⟨⟨fun role c field => (each role c field).1, oneBlock⟩, fun c hc => ?_⟩,
        ⟨jump, fun role c field => (each role c field).2.2.1⟩, ⟨annotated, fun role μ c mem => ?_⟩, ?_⟩
      · obtain ⟨role, field⟩ := Kind.mem_children.1 hc
        exact (each role c field).2.1
      · have fine_child := fine role μ c mem
        split at fine_child
        · exact ((ih c (below mem) hd).1 fine_child).2.2.1
        · rename_i wrapper
          have inside : d < limit := fits role μ c mem (Bool.not_eq_true _ ▸ wrapper)
          exact ((ih c (below mem) inside).1 fine_child).2.2.1
      · have levels : (Node.mk info kind).levels ≤ limit - d := by
          rw [Node.levels_le]
          intro role c field
          have := (each role c field).2.2.2
          omega
        omega
    · rintro ⟨⟨⟨takes, oneBlock⟩, placed⟩, ⟨jump, exits⟩, ⟨annotated, known⟩, levels⟩
      have shallow : ∀ role c, (role, c) ∈ kind.fields →
          d + (if c.isWrapper role then c.levels else c.levels + 1) ≤ limit := by
        intro role c field
        have := Node.levels_le.1 (le_refl (Node.mk info kind).levels) role c field
        omega
      refine ⟨jump, annotated, oneBlock, fun role μ c mem => takes role c (child mem),
        fun role μ c mem wrapper => ?_, fun role μ c mem => ?_⟩
      · have := shallow role c (child mem)
        rw [wrapper, if_neg (by decide)] at this
        omega
      · have inside := shallow role c (child mem)
        have placed_child := placed c (Kind.mem_children.2 ⟨role, child mem⟩)
        split
        · rename_i wrapper
          rw [if_pos wrapper] at inside
          exact (ih c (below mem) hd).2
            ⟨placed_child, exits role c (child mem), known role μ c mem, inside⟩
        · rename_i wrapper
          rw [if_neg wrapper] at inside
          exact (ih c (below mem) (by omega)).2
            ⟨placed_child, exits role c (child mem), known role μ c mem, by omega⟩

end ControlFlow
