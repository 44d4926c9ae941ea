import ControlFlow.Proofs.Lowering.Accepts
/-!
# Why trees are not lowered

A tree that cannot be lowered has a fault, and the error names it: a node that lacks an annotation,
a jump that leads nowhere, a call with two blocks, a node where none of its kind may stand, or a
node with too many levels around it. This is said here of the tree alone, node by node as in
`Node.Fine`.
-/

namespace ControlFlow

/-! ## Faults of nodes -/

/-- The roles of expressions and statements. -/
def Role.isPlain : Role → Bool
  | .alternative | .clause | .block | .target | .element | .arg => false
  | _ => true

/-- The roles of the elements of a list. -/
def Role.isItem : Role → Bool
  | .element | .arg => true
  | _ => false

lemma Kind.takes_plain {α : Type} {parent child : Kind α} {role : Role}
    (plain : role.isPlain = true) : parent.Takes role child ↔ child.Walkable := by
  cases role <;> first | rfl | cases plain

/-- The place of a node that is walked as an expression or statement. -/
def WalkMode.place : WalkMode → Place
  | .value => .expression
  | .effect => .statement

/-- The error for a child that cannot play its role, where its parent is walked in one mode and the
child in another. -/
def Kind.refusal (info : Info) (mode : WalkMode) (parent : Kind Node) (role : Role) (μ : WalkMode)
    (c : Node) : LowerError :=
  match role with
  | .target =>
    match parent, c.kind with
    | .assign .., .multiTarget _ => .atNode info (.multipleAssign mode.place)
    | .opAssign .., .multiTarget _ => .atNode info .multipleOpAssign
    | .forIn .., .fieldTarget .. => .atNode c.info .forField
    | .forIn .., .multiTarget _ => .atNode c.info .forMultiple
    | .forIn .., kind => .atNode c.info (.misplaced kind.tag .loopTarget)
    | _, kind => .atNode c.info (.misplaced kind.tag .assignmentTarget)
  | .alternative => .atNode c.info (.misplaced c.kind.tag .conditionalClause)
  | .clause => .atNode c.info (.misplaced c.kind.tag .caseClause)
  | .block => .atNode c.info (.misplaced c.kind.tag .block)
  | _ => .atNode c.info (.misplaced c.kind.tag μ.place)

/-- What is wrong with a child that cannot play its role is where it stands, or that its parent is
not supported yet. -/
lemma Kind.kind_refusal (info : Info) (mode : WalkMode) (parent : Kind Node) (role : Role)
    (μ : WalkMode) (c : Node) :
    (parent.refusal info mode role μ c).fault.kind = .unsupportedConstruct ∨
      (parent.refusal info mode role μ c).fault.kind = .notYetImplemented := by
  unfold Kind.refusal
  split
  · split <;> simp [LowerError.atNode, LowerFault.kind]
  all_goals exact Or.inl rfl

/-- A child is walked as an expression or statement, and not as a part of its parent. -/
def Node.isEntered (role : Role) (c : Node) : Bool :=
  role.isPlain || role.isItem && !c.isSplat

/-- The errors that a walk over a node with `d` levels around what is below it can end with. -/
inductive Node.Faulty (types : String → Option Binding) (limit : Nat) :
    WalkMode → Node → WalkT.Blame where
  | unannotated {mode : WalkMode} {d : Nat} {info : Info} {kind : Kind Node} {fault : LowerFault}
      (missing : ¬ kind.Annotated types info mode) (named : fault.kind = .unannotated) :
      Faulty types limit mode (.mk info kind) d (.atNode info fault)
  | adrift {mode : WalkMode} {d : Nat} {info : Info} {kind : Kind Node} {j : JumpKind}
      (jump : kind.jump? = some j) :
      Faulty types limit mode (.mk info kind) d (.atNode info (.noTarget j))
  | twoBlocks {mode : WalkMode} {d : Nat} {info : Info} {kind : Kind Node}
      (two : ¬ kind.OneBlock) : Faulty types limit mode (.mk info kind) d (.atNode info .twoBlocks)
  | misplaced {mode μ : WalkMode} {d : Nat} {info : Info} {kind : Kind Node} {role : Role}
      {c : Node} (mem : (role, μ, c) ∈ kind.visits mode) (wrong : ¬ kind.Takes role c.kind) :
      Faulty types limit mode (.mk info kind) d (kind.refusal info mode role μ c)
  | tooDeep {mode μ : WalkMode} {d : Nat} {info : Info} {kind : Kind Node} {role : Role} {c : Node}
      (mem : (role, μ, c) ∈ kind.visits mode) (entered : c.isEntered role = true)
      (full : limit ≤ d) :
      Faulty types limit mode (.mk info kind) d (.atNode c.info (.depth limit))
  | inside {mode μ : WalkMode} {d : Nat} {info : Info} {kind : Kind Node} {role : Role} {c : Node}
      {e : LowerError} (mem : (role, μ, c) ∈ kind.visits mode) (takes : kind.Takes role c.kind)
      (inner : Faulty types limit μ c (if c.isWrapper role then d else d + 1) e) :
      Faulty types limit mode (.mk info kind) d e

/-- The errors that a walk over a node as an expression or statement can end with. -/
def Node.Blamed (env : Environment) (mode : WalkMode) (n : Node) : WalkT.Blame := fun d e =>
  env.maxDepth ≤ d ∧ e = .atNode n.info (.depth env.maxDepth) ∨
    ¬ n.kind.Walkable ∧ e = .atNode n.info (.misplaced n.kind.tag mode.place) ∨
      n.kind.Walkable ∧ n.Faulty env.types env.maxDepth mode (d + 1) e

/-- All errors of a walk over a node are in `F`. -/
def WalkT.Blame.Covers (F : WalkT.Blame) (env : Environment) (mode : WalkMode) (n : Node) : Prop :=
  ∀ d e, n.Faulty env.types env.maxDepth mode d e → F d e

namespace WalkT.Blame.Covers

variable {env : Environment} {F : WalkT.Blame} {mode μ : WalkMode} {info : Info} {kind : Kind Node}
  {role : Role} {c : Node}

variable (h : F.Covers env mode (.mk info kind))

include h

lemma lacks (missing : ¬ kind.Annotated env.types info mode) : F.Lacks info :=
  fun d _ named => h d _ (.unannotated missing named)

/-- What a node needs in some case is not there. -/
lemma absent {α : Type} {o : Option α} {p : Prop}
    (needs : kind.Annotated env.types info mode → p → o.isSome) (hp : p) (none : o = none) :
    F.Lacks info :=
  h.lacks fun known => by simpa [none] using needs known hp

lemma refused (mem : (role, μ, c) ∈ kind.visits mode) (wrong : ¬ kind.Takes role c.kind) (d : Nat) :
    F d (kind.refusal info mode role μ c) :=
  h d _ (.misplaced mem wrong)

/-- What an expression or statement can be blamed for from its parent, where it is not spliced. -/
lemma walked (mem : (role, μ, c) ∈ kind.visits mode)
    (plain : role.isPlain = true ∨ role.isItem = true ∧ c.isSplat = false) {d : Nat}
    {e : LowerError} (blamed : c.Blamed env μ d e) : F d e := by
  have takes : kind.Takes role c.kind ↔ c.kind.Walkable := by
    rcases plain with plain | ⟨item, single⟩
    · exact Kind.takes_plain plain
    · obtain ⟨ci, ck⟩ := c
      cases role <;> cases item <;> (cases ck <;> first | rfl | cases single)
  rcases blamed with ⟨full, rfl⟩ | ⟨wrong, rfl⟩ | ⟨walkable, inner⟩
  · refine h d _ (.tooDeep mem ?_ full)
    rcases plain with plain | ⟨item, single⟩ <;> simp [Node.isEntered, *]
  · have refusal : kind.refusal info mode role μ c =
        .atNode c.info (.misplaced c.kind.tag μ.place) := by
      cases role <;> first | rfl | simp [Role.isPlain, Role.isItem] at plain
    rw [← refusal]
    exact h.refused mem (fun taken => wrong (takes.1 taken)) d
  · have single : c.isSplat = false := by
      obtain ⟨ci, ck⟩ := c
      cases ck <;> first | rfl | cases walkable
    have level : c.isWrapper role = false := by
      cases role <;> first | exact single | simp [Role.isPlain, Role.isItem] at plain
    refine h d e (.inside mem (takes.2 walkable) ?_)
    rwa [level, if_neg (by decide)]

/-- What is spliced can be blamed for the same from the parent of the splice. -/
lemma spliced {ci : Info} (mem : (role, μ, .mk ci (.splat c)) ∈ kind.visits mode)
    (item : role.isItem = true) : F.Covers env μ (.mk ci (.splat c)) := by
  intro d e inner
  have takes : kind.Takes role (.splat c) := by
    cases role <;> trivial
  refine h d e (.inside mem takes ?_)
  have wrapper : (Node.mk ci (.splat c)).isWrapper role = true := Bool.or_true _
  rwa [wrapper, if_pos rfl]

/-- A part of its parent that may stand where it does. -/
lemma part (mem : (role, μ, c) ∈ kind.visits mode)
    (part : role ∈ [.alternative, .clause, .block, .target]) (takes : kind.Takes role c.kind) :
    F.Covers env μ c := by
  intro d e inner
  refine h d e (.inside mem takes ?_)
  have wrapper : c.isWrapper role = true := by simp [Node.isWrapper, part]
  rwa [wrapper, if_pos rfl]

end WalkT.Blame.Covers

end ControlFlow
