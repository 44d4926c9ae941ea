import Mathlib.Data.Set.Basic
import Mathlib.Tactic.Common
import ControlFlow.Lowering.Jump
import ControlFlow.Syntax.Node
/-!
# Parts of syntax trees

What a tree holds below its root, induction over that relation, and the jumps by which a node can be
left: those that it holds and that nothing inside of it ends.
-/

namespace ControlFlow

/-! ## What a tree holds -/

/-- A node that lies below another. -/
inductive Node.Holds : Node → Node → Prop where
  | child {info : Info} {kind : Kind Node} {c : Node} (mem : c ∈ kind.children) :
      Holds (.mk info kind) c
  | inner {info : Info} {kind : Kind Node} {c d : Node} (mem : c ∈ kind.children)
      (below : Holds c d) : Holds (.mk info kind) d

/-- A property of a node and of all nodes below it. -/
def Node.Each (P : Node → Prop) (n : Node) : Prop := P n ∧ ∀ d, n.Holds d → P d

lemma Kind.mem_children {α : Type} {kind : Kind α} {c : α} :
    c ∈ kind.children ↔ ∃ role, (role, c) ∈ kind.fields := by
  simp [Kind.children]

@[simp] lemma Kind.map_inRole {α : Type} (role : Role) (cs : List α) :
    (Kind.inRole role cs).map (·.2) = cs := by
  simp [Kind.inRole, Function.comp_def]

variable {n d c : Node} {role : Role} {info : Info} {kind : Kind Node} {Q P : Node → Prop}

@[simp] lemma Kind.mem_inRole {α : Type} {role' : Role} {c : α} {cs : List α} :
    (role, c) ∈ Kind.inRole role' cs ↔ role = role' ∧ c ∈ cs := by
  simp only [Kind.inRole, List.mem_map, Prod.mk.injEq]
  constructor
  · rintro ⟨_, h, rfl, rfl⟩
    exact ⟨rfl, h⟩
  · rintro ⟨rfl, h⟩
    exact ⟨c, h, rfl, rfl⟩

lemma Node.Each.child (h : Node.Each P (.mk info kind)) (mem : c ∈ kind.children) : Node.Each P c :=
  ⟨h.2 c (.child mem), fun d hd => h.2 d (.inner mem hd)⟩

lemma Node.Holds.trans {d' : Node} (h : n.Holds d) (h' : d.Holds d') : n.Holds d' := by
  induction h with
  | child mem => exact .inner mem h'
  | inner mem _ ih => exact .inner mem (ih h')

lemma Node.Each.below (h : n.Each P) (hd : n.Holds d) : d.Each P :=
  ⟨h.2 d hd, fun d' hd' => h.2 d' (hd.trans hd')⟩

lemma Node.each_mk :
    Node.Each P (.mk info kind) ↔ P (.mk info kind) ∧ ∀ c ∈ kind.children, c.Each P := by
  constructor
  · exact fun h => ⟨h.1, fun c hc => h.child hc⟩
  · rintro ⟨here, below⟩
    refine ⟨here, fun d hd => ?_⟩
    cases hd with
    | child mem => exact (below d mem).1
    | inner mem hd => exact (below _ mem).2 d hd

/-- All nodes of a tree have one property, and all nodes below its root another one. -/
structure Node.Parts (Q P : Node → Prop) (n : Node) : Prop where
  each : n.Each Q
  below (d : Node) (h : n.Holds d) : P d

namespace Node.Parts

lemma own (p : Parts Q P n) : Q n := p.each.1

variable (p : Parts Q P (.mk info kind))

include p

lemma child (c : Node) (mem : c ∈ kind.children) : P c := p.below c (.child mem)

lemma part (c : Node) (mem : c ∈ kind.children) : Parts Q P c :=
  ⟨p.each.child mem, fun d hd => p.below d (.inner mem hd)⟩

variable (role : Role) (cs : List Node) (mem : ∀ c ∈ cs, (role, c) ∈ kind.fields)

include mem

/-- The nodes of a list, each with all that is below it. -/
lemma items : ∀ c ∈ cs, P c ∧ Parts Q P c :=
  fun c hc =>
    have mem : c ∈ kind.children := Kind.mem_children.2 ⟨role, mem c hc⟩
    ⟨p.child c mem, p.part c mem⟩

lemma all : ∀ c ∈ cs, P c :=
  fun c hc => (p.items role cs mem c hc).1

lemma parts : ∀ c ∈ cs, Parts Q P c :=
  fun c hc => (p.items role cs mem c hc).2

end Node.Parts

lemma Node.sizeOf_child (mem : c ∈ kind.children) : sizeOf c < sizeOf (Node.mk info kind) := by
  have inList : ∀ {ns : List Node}, c ∈ ns → sizeOf c < sizeOf ns := List.sizeOf_lt_of_mem
  have inOption : ∀ {o : Option Node}, o = some c → sizeOf c < sizeOf o := by
    rintro _ rfl
    simp
  have inOptionalList : ∀ {o : Option (List Node)}, c ∈ o.getD [] → sizeOf c < sizeOf o := by
    rintro (_ | ns) h
    · simp at h
    · have : sizeOf c < sizeOf ns := inList h
      simp only [Option.some.sizeOf_spec]
      omega
  rw [Node.mk.sizeOf_spec]
  cases kind <;>
    simp only [Kind.children, Kind.fields, Kind.inRole, List.map_append, List.map_cons,
      List.map_map, List.mem_append, List.mem_cons, List.mem_map, List.map_nil, List.not_mem_nil,
      Function.comp_apply, exists_eq_right, or_false, Option.mem_toList] at mem <;>
    grind

lemma Node.Holds.sizeOf_lt (h : n.Holds d) : sizeOf d < sizeOf n := by
  induction h with
  | child mem => exact Node.sizeOf_child mem
  | inner mem _ ih => exact ih.trans (Node.sizeOf_child mem)

/-- Induction over syntax trees: a property holds of a node if it holds of all nodes below. -/
lemma Node.induction_below (step : ∀ n : Node, (∀ d : Node, n.Holds d → P d) → P n) (n : Node) :
    P n := by
  induction h : sizeOf n using Nat.strongRecOn generalizing n with
  | _ k ih =>
    subst h
    exact step n fun d hd => ih (sizeOf d) hd.sizeOf_lt d rfl

/-! ## Jumps that leave a node -/

/-- The kind of jump that a node makes. -/
def Kind.jump? {α : Type} : Kind α → Option JumpKind
  | .breakWith _ => some .break
  | .nextWith _ => some .next
  | .redo => some .redo
  | .returnWith _ => some .return
  | _ => none

/-- Whether a construct is a loop around its children of some role: a jump there other than a
`return` does not leave the construct. -/
def Kind.LoopsOver {α : Type} (role : Role) : Kind α → Prop
  | .loop .. | .loopMod .. | .doBlock .. => True
  | .forIn .. => role = .body
  | _ => False

/-- A child around which the node makes no loop. -/
def Kind.Exposes {α : Type} (kind : Kind α) (c : α) : Prop :=
  ∃ role, (role, c) ∈ kind.fields ∧ ¬ kind.LoopsOver role

/-- A jump by which a node can be left. -/
inductive Node.Leaves (jump : JumpKind) : Node → Prop where
  | here {info : Info} {kind : Kind Node} (h : kind.jump? = some jump) : Leaves jump (.mk info kind)
  | child {info : Info} {kind : Kind Node} {role : Role} {c : Node} (mem : (role, c) ∈ kind.fields)
      (free : kind.LoopsOver role → jump = .return) (inner : Leaves jump c) :
      Leaves jump (.mk info kind)

lemma Node.leaves_mk {jump : JumpKind} :
    (Node.mk info kind).Leaves jump ↔ kind.jump? = some jump ∨
      ∃ role c, (role, c) ∈ kind.fields ∧ (kind.LoopsOver role → jump = .return) ∧
        c.Leaves jump := by
  constructor
  · rintro (h | ⟨mem, free, inner⟩)
    · exact Or.inl h
    · exact Or.inr ⟨_, _, mem, free, inner⟩
  · rintro (h | ⟨role, c, mem, free, inner⟩)
    · exact .here h
    · exact .child mem free inner

/-- The jumps by which a node can be left. -/
def Node.exits (n : Node) : Set JumpKind := {jump | n.Leaves jump}

/-- The jumps that a loop ends. -/
def JumpKind.ofLoop : Set JumpKind := {jump | jump ≠ .return}

lemma Node.exits_child (h : kind.Exposes c) : c.exits ⊆ (Node.mk info kind).exits :=
  have ⟨_, mem, free⟩ := h
  fun _ leaves => .child mem (fun loops => absurd loops free) leaves

lemma Node.exits_loop (mem : c ∈ kind.children) :
    c.exits ⊆ (Node.mk info kind).exits ∪ JumpKind.ofLoop := by
  obtain ⟨role, mem⟩ := Kind.mem_children.1 mem
  intro jump h
  by_cases hr : jump = .return
  · exact Or.inl (.child mem (fun _ => hr) h)
  · exact Or.inr hr

/-! ## Conditions and bindings -/

/-- The condition of a loop. -/
def Kind.loopCondition? {α : Type} : Kind α → Option α
  | .loop _ condition _ | .loopMod _ condition _ => some condition
  | _ => none

/-- The bindings that are known about a node: its variable, and the receiver and the parameters of
its scope. -/
def Info.bindings (info : Info) : List Binding :=
  info.binding.toList ++ (info.scope.toList.flatMap fun scope =>
    scope.self :: scope.method.toList.flatMap fun method => method.params.map (·.binding))

lemma Info.variable_mem_bindings {b : Binding} (hb : info.binding = some b) :
    b ∈ info.bindings := by
  simp [Info.bindings, hb]

lemma Info.self_mem_bindings {scope : Scope} (hs : info.scope = some scope) :
    scope.self ∈ info.bindings := by
  simp [Info.bindings, hs]

lemma Info.parameter_mem_bindings {method : Signature} {p : Parameter}
    (hm : info.scope.bind (·.method) = some method) (hp : p ∈ method.params) :
    p.binding ∈ info.bindings := by
  obtain ⟨scope, hscope, hmethod⟩ := Option.bind_eq_some_iff.1 hm
  simp only [Info.bindings, hscope, hmethod, List.mem_append, Option.toList_some,
    List.flatMap_singleton, List.mem_cons, List.mem_map]
  exact Or.inr (Or.inr ⟨p, hp, rfl⟩)

/-- The parameters of a block. -/
def Kind.params {α : Type} : Kind α → List Parameter
  | .doBlock params _ => params
  | _ => []

/-- All bindings that are known about a node are variables, and what leaves the condition of a loop
is as `clear` requires. -/
structure Node.Sound (vars : Set Binding) (clear : Set JumpKind → Prop) (n : Node) : Prop where
  bindings : ∀ b ∈ n.info.bindings, b ∈ vars
  condition : ∀ c, n.kind.loopCondition? = some c → clear c.exits

end ControlFlow

