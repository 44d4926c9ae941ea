import Mathlib.Data.List.Forall2
import ControlFlow.Syntax.Node
/-!
# Related kinds

Two kinds are related if they say the same and their children, in the same places, are related. The
relation between the children may depend on their role, and they may be of different types.
-/

namespace ControlFlow

variable {α β : Type}

/-- Two kinds that say the same about related children. -/
inductive Kind.Rel (R : Role → α → β → Prop) : Kind α → Kind β → Prop where
  | program {ns ns'} (body : List.Forall₂ (R .body) ns ns') : Rel R (.program ns) (.program ns')
  | literal {value : Constant} : Rel R (.literal value) (.literal value)
  | content {text : String} : Rel R (.content text) (.content text)
  | str {ns ns'} (parts : List.Forall₂ (R .part) ns ns') : Rel R (.str ns) (.str ns')
  | embed {ns ns'} (body : List.Forall₂ (R .body) ns ns') : Rel R (.embed ns) (.embed ns')
  | command {ns ns'} (parts : List.Forall₂ (R .part) ns ns') : Rel R (.command ns) (.command ns')
  | regexp {ns ns'} {options : String} (parts : List.Forall₂ (R .part) ns ns') :
      Rel R (.regexp ns options) (.regexp ns' options)
  | array {ns ns'} (elements : List.Forall₂ (R .element) ns ns') : Rel R (.array ns) (.array ns')
  | splat {n n'} (value : R .value n n') : Rel R (.splat n) (.splat n')
  | void : Rel R .void .void
  | selfRef : Rel R .selfRef .selfRef
  | begin {n n'} (body : R .body n n') : Rel R (.begin n) (.begin n')
  | paren {ns ns'} (body : List.Forall₂ (R .body) ns ns') : Rel R (.paren ns) (.paren ns')
  | guarded {ns ns' o o'} (body : List.Forall₂ (R .body) ns ns')
      (ensure : Option.Rel (List.Forall₂ (R .ensure)) o o') :
      Rel R (.guarded ns o) (.guarded ns' o')
  | varRef {name : String} : Rel R (.varRef name) (.varRef name)
  | varTarget {name : String} : Rel R (.varTarget name) (.varTarget name)
  | fieldTarget {n n'} {name : String} (receiver : R .receiver n n') :
      Rel R (.fieldTarget n name) (.fieldTarget n' name)
  | multiTarget {ns ns'} (targets : List.Forall₂ (R .target) ns ns') :
      Rel R (.multiTarget ns) (.multiTarget ns')
  | assign {t t' n n'} (target : R .target t t') (value : R .value n n') :
      Rel R (.assign t n) (.assign t' n')
  | opAssign {t t' n n'} {op : BinaryOp} (target : R .target t t') (value : R .value n n') :
      Rel R (.opAssign t op n) (.opAssign t' op n')
  | binary {l l' r r'} {op : BinaryOp} (left : R .left l l') (right : R .right r r') :
      Rel R (.binary l op r) (.binary l' op r')
  | unary {n n'} {op : UnaryOp} (operand : R .operand n n') : Rel R (.unary op n) (.unary op n')
  | ifThen {c c' ns ns' o o'} (condition : R .condition c c')
      (body : List.Forall₂ (R .body) ns ns') (alternative : Option.Rel (R .alternative) o o') :
      Rel R (.ifThen c ns o) (.ifThen c' ns' o')
  | elsif {c c' ns ns' o o'} (condition : R .condition c c')
      (body : List.Forall₂ (R .body) ns ns') (alternative : Option.Rel (R .alternative) o o') :
      Rel R (.elsif c ns o) (.elsif c' ns' o')
  | elseThen {ns ns'} (body : List.Forall₂ (R .body) ns ns') : Rel R (.elseThen ns) (.elseThen ns')
  | ifMod {c c' n n'} (condition : R .condition c c') (body : R .body n n') :
      Rel R (.ifMod c n) (.ifMod c' n')
  | unlessThen {c c' ns ns' o o'} (condition : R .condition c c')
      (body : List.Forall₂ (R .body) ns ns')
      (otherwise : Option.Rel (List.Forall₂ (R .otherwise)) o o') :
      Rel R (.unlessThen c ns o) (.unlessThen c' ns' o')
  | unlessMod {c c' n n'} (condition : R .condition c c') (body : R .body n n') :
      Rel R (.unlessMod c n) (.unlessMod c' n')
  | loop {c c' ns ns'} {sense : LoopSense} (condition : R .condition c c')
      (body : List.Forall₂ (R .body) ns ns') : Rel R (.loop sense c ns) (.loop sense c' ns')
  | loopMod {c c' n n'} {sense : LoopSense} (condition : R .condition c c') (body : R .body n n') :
      Rel R (.loopMod sense c n) (.loopMod sense c' n')
  | forIn {t t' i i' ns ns'} (target : R .target t t') (iterable : R .iterable i i')
      (body : List.Forall₂ (R .body) ns ns') : Rel R (.forIn t i ns) (.forIn t' i' ns')
  | case {n n' ns ns' o o'} (subject : R .subject n n')
      (clauses : List.Forall₂ (R .clause) ns ns')
      (otherwise : Option.Rel (List.Forall₂ (R .otherwise)) o o') :
      Rel R (.case n ns o) (.case n' ns' o')
  | whenThen {cs cs' ns ns'} (candidates : List.Forall₂ (R .candidate) cs cs')
      (body : List.Forall₂ (R .body) ns ns') : Rel R (.whenThen cs ns) (.whenThen cs' ns')
  | returnWith {ns ns'} (args : List.Forall₂ (R .arg) ns ns') :
      Rel R (.returnWith ns) (.returnWith ns')
  | breakWith {ns ns'} (args : List.Forall₂ (R .arg) ns ns') : Rel R (.breakWith ns) (.breakWith ns')
  | nextWith {ns ns'} (args : List.Forall₂ (R .arg) ns ns') : Rel R (.nextWith ns) (.nextWith ns')
  | redo : Rel R .redo .redo
  | call {r r' ns ns' p p' b b'} {method : String} (receiver : Option.Rel (R .receiver) r r')
      (args : List.Forall₂ (R .arg) ns ns') (blockPass : Option.Rel (R .blockPass) p p')
      (block : Option.Rel (R .block) b b') :
      Rel R (.call r method ns p b) (.call r' method ns' p' b')
  | doBlock {ns ns'} {params : List Parameter} (body : List.Forall₂ (R .body) ns ns') :
      Rel R (.doBlock params ns) (.doBlock params ns')
  | super {ns ns' p p' b b'} (args : List.Forall₂ (R .arg) ns ns')
      (blockPass : Option.Rel (R .blockPass) p p') (block : Option.Rel (R .block) b b') :
      Rel R (.super ns p b) (.super ns' p' b')
  | zsuper {b b'} (block : Option.Rel (R .block) b b') : Rel R (.zsuper b) (.zsuper b')

section

variable {R : Role → α → β → Prop} {role : Role} {k : Kind α} {l : Kind β} {S T : α → β → Prop}
  {o : Option α} {o' : Option β}

/-- Related kinds have the same name. -/
lemma Kind.Rel.tag (h : Kind.Rel R k l) : k.tag = l.tag := by
  cases h with
  | @loop _ _ _ _ sense => cases sense <;> rfl
  | @loopMod _ _ _ _ sense => cases sense <;> rfl
  | _ => rfl

lemma forall₂_inRole {cs : List α} {ds : List β} (h : List.Forall₂ (R role) cs ds) :
    List.Forall₂ (fun p q => p.1 = q.1 ∧ R p.1 p.2 q.2) (Kind.inRole role cs)
      (Kind.inRole role ds) := by
  rw [Kind.inRole, Kind.inRole, List.forall₂_map_left_iff, List.forall₂_map_right_iff]
  exact h.imp fun _ _ hr => ⟨rfl, hr⟩

lemma forall₂_toList (h : Option.Rel S o o') : List.Forall₂ S o.toList o'.toList := by
  cases h with
  | some h => exact .cons h .nil
  | none => exact .nil

lemma rel_orElse {a : α} {b : β} (h : Option.Rel S o o') (last : S a b) :
    Option.Rel S (o <|> some a) (o' <|> some b) := by
  cases h with
  | some h => exact .some h
  | none => exact .some last

lemma forall₂_getD {o : Option (List α)} {o' : Option (List β)}
    (h : Option.Rel (List.Forall₂ S) o o') : List.Forall₂ S (o.getD []) (o'.getD []) := by
  cases h with
  | some h => exact h
  | none => exact .nil

/-- Related kinds have related children in the same roles and the same order. -/
lemma Kind.Rel.fields (h : Kind.Rel R k l) :
    List.Forall₂ (fun p q => p.1 = q.1 ∧ R p.1 p.2 q.2) k.fields l.fields := by
  -- the fields of each kind are single children and groups of children in one role
  cases h <;> repeat' first
    | exact .nil
    | exact forall₂_inRole ‹_›
    | exact forall₂_inRole (forall₂_toList ‹_›)
    | exact forall₂_inRole (forall₂_getD ‹_›)
    | refine .cons ⟨rfl, ‹_›⟩ ?_
    | refine List.rel_append ?_ ?_

/-- Each child of the one is related to a child of the other in the same role. -/
lemma Kind.Rel.field_right (h : Kind.Rel R k l) {d : β} (mem : (role, d) ∈ l.fields) :
    ∃ c, (role, c) ∈ k.fields ∧ R role c d := by
  have fields := h.fields
  generalize k.fields = ps at fields
  generalize l.fields = qs at fields mem
  induction fields with
  | nil => cases mem
  | @cons p q ps qs head _ ih =>
    rcases List.mem_cons.1 mem with rfl | mem
    · obtain ⟨role', c⟩ := p
      obtain ⟨rfl, hr⟩ := head
      exact ⟨c, .head _, hr⟩
    · obtain ⟨c, hc, hr⟩ := ih mem
      exact ⟨c, .tail _ hc, hr⟩

lemma Kind.Rel.field_left (h : Kind.Rel R k l) {c : α} (mem : (role, c) ∈ k.fields) :
    ∃ d, (role, d) ∈ l.fields ∧ R role c d := by
  have fields := h.fields
  generalize k.fields = ps at fields mem
  generalize l.fields = qs at fields
  induction fields with
  | nil => cases mem
  | @cons p q ps qs head _ ih =>
    rcases List.mem_cons.1 mem with rfl | mem
    · obtain ⟨role', d⟩ := q
      obtain ⟨rfl, hr⟩ := head
      exact ⟨d, .head _, hr⟩
    · obtain ⟨d, hd, hr⟩ := ih mem
      exact ⟨d, .tail _ hd, hr⟩

lemma forall₂_imp_mem {cs : List α} {ds : List β} (h : List.Forall₂ S cs ds)
    (imp : ∀ c ∈ cs, ∀ d ∈ ds, S c d → T c d) : List.Forall₂ T cs ds := by
  induction h with
  | nil => exact .nil
  | cons head _ ih =>
    exact .cons (imp _ (.head _) _ (.head _) head)
      (ih fun c hc d hd => imp c (.tail _ hc) d (.tail _ hd))

lemma rel_imp_mem (h : Option.Rel S o o') (imp : ∀ c ∈ o.toList, ∀ d ∈ o'.toList, S c d → T c d) :
    Option.Rel T o o' := by
  cases h with
  | some h => exact .some (imp _ (.head _) _ (.head _) h)
  | none => exact .none

lemma rel_forall₂_imp_mem {o : Option (List α)} {o' : Option (List β)}
    (h : Option.Rel (List.Forall₂ S) o o')
    (imp : ∀ c ∈ o.getD [], ∀ d ∈ o'.getD [], S c d → T c d) :
    Option.Rel (List.Forall₂ T) o o' := by
  cases h with
  | some h => exact .some (forall₂_imp_mem h imp)
  | none => exact .none

/-- A relation between children can be replaced by one that follows from it. -/
lemma Kind.Rel.imp_mem {S : Role → α → β → Prop} (h : Kind.Rel R k l)
    (imp : ∀ role c d, (role, c) ∈ k.fields → (role, d) ∈ l.fields → R role c d → S role c d) :
    Kind.Rel S k l := by
  have inRole : ∀ {γ : Type} {role} {ds : List γ} {d : γ},
      d ∈ ds → (role, d) ∈ Kind.inRole role ds :=
    fun hd => List.mem_map.2 ⟨_, hd, rfl⟩
  cases h <;> constructor <;> first
    | exact imp _ _ _ (by simp [Kind.fields]) (by simp [Kind.fields]) ‹_›
    | exact forall₂_imp_mem ‹_› fun _ hc _ hd =>
        imp _ _ _ (by simp [Kind.fields, inRole hc]) (by simp [Kind.fields, inRole hd])
    | exact rel_imp_mem ‹_› fun _ hc _ hd =>
        imp _ _ _ (by simp [Kind.fields, inRole hc]) (by simp [Kind.fields, inRole hd])
    | exact rel_forall₂_imp_mem ‹_› fun _ hc _ hd =>
        imp _ _ _ (by simp [Kind.fields, inRole hc]) (by simp [Kind.fields, inRole hd])

end

/-! ## Trees that say the same -/

/-- The binding that counts for a node of a kind: only variables are bound. -/
def Kind.bound {α : Type} (b : Option Binding) : Kind α → Option Binding
  | .varRef _ | .varTarget _ => b
  | _ => none

/-- A node, and one that says the same in the same scopes, whatever their numbers and places are. What
is bound and is no variable is not bound in the second. -/
inductive Node.Alike : Node → Node → Prop where
  | mk {i j : Info} {k l : Kind Node} (binding : j.binding = k.bound i.binding)
      (scope : j.scope = i.scope) (kind : Kind.Rel (fun _ => Node.Alike) k l) :
      Node.Alike (.mk i k) (.mk j l)

end ControlFlow
