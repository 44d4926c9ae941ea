import ControlFlow.Proofs.Form.Writing
import ControlFlow.Proofs.Reading.Tags
import ControlFlow.Proofs.Syntax.Tree
/-!
# Dumps of syntax trees

A syntax tree can be dumped as a form without a place, with its scope and all names. Here are the dumps,
the trees that can be read from them again, and what a form is made of if it is a dump without its
place.
-/

namespace ControlFlow

/-! ## Dumps -/

mutual

/-- A form without a place, put at the start of a text. -/
def Tree.atOrigin : Tree → Form
  | .atom a => .atom ⟨.origin, .origin⟩ a
  | .list items => .list ⟨.origin, .origin⟩ (Tree.allAtOrigin items)

/-- Forms without a place, put at the start of a text. -/
def Tree.allAtOrigin : List Tree → List Form
  | [] => []
  | t :: ts => t.atOrigin :: Tree.allAtOrigin ts

end

mutual

lemma Tree.tree_atOrigin : ∀ t : Tree, t.atOrigin.tree = t
  | .atom _ => rfl
  | .list items => congrArg Tree.list (Tree.trees_allAtOrigin items)

lemma Tree.trees_allAtOrigin : ∀ ts : List Tree, Form.trees (Tree.allAtOrigin ts) = ts
  | [] => rfl
  | t :: ts => congrArg₂ List.cons t.tree_atOrigin (Tree.trees_allAtOrigin ts)

end

/-- A list that starts with a symbol. -/
def Tree.form (tag : String) (args : List Tree) : Tree := .list (.atom (.symbol tag) :: args)

/-- A name, as a quoted text. -/
def Tree.name (n : String) : Tree := .atom (.text n)

/-- The tag of a variable; a variable without a binding is a call. -/
def Binding.formTag : Option Binding → String
  | some ⟨_, .localVar⟩ => "lvar"
  | some ⟨_, .instanceVar⟩ => "ivar"
  | some ⟨_, .globalVar⟩ => "gvar"
  | some ⟨_, .constant⟩ => "const"
  | _ => "vcall"

/-- The tag of a parameter. -/
def ParameterKind.formTag : ParameterKind → String
  | .required => "req"
  | .optional => "opt"
  | .rest => "rest"
  | .post => "post"
  | .block => "block"

/-- The form of a parameter. -/
def Parameter.dump (p : Parameter) : Tree := .form p.kind.formTag [.name p.binding.name]

/-- The form of a method. -/
def Signature.dump (m : Signature) : Tree := .form "def" (.name m.name :: m.params.map (·.dump))

/-- The form of a scope. -/
def Scope.dump (s : Scope) : Tree :=
  .form "scope" (.name s.self.name :: s.method.toList.map (·.dump))

/-- The form of a constant. -/
def Constant.dump : Constant → Tree
  | .nil => .form "nil" []
  | .bool true => .form "true" []
  | .bool false => .form "false" []
  | .integer n => .form "int" [.atom (.integer n)]
  | .float x => .form "float" [.atom (.float x)]
  | .str s => .form "char" [.name s]
  | .symbol s => .form "sym" [.name s]

/-- The tag of a loop. -/
def LoopSense.formTag : LoopSense → String
  | .whileTrue => "while"
  | .untilTrue => "until"

/-- The tag of a loop behind a statement. -/
def LoopSense.modTag : LoopSense → String
  | .whileTrue => "while-mod"
  | .untilTrue => "until-mod"

mutual

/-- The form of a node, without a place. -/
def Node.dump : Node → Tree
  | .mk info (.program body) => .form "program" (info.scope.toList.map (·.dump) ++ Node.dumps body)
  | .mk _ (.literal value) => value.dump
  | .mk _ (.content text) => .name text
  | .mk _ (.str parts) => .form "str" (Node.dumps parts)
  | .mk _ (.embed body) => .form "embed" (Node.dumps body)
  | .mk _ (.command parts) => .form "xstr" (Node.dumps parts)
  | .mk _ (.regexp parts options) => .form "regexp" (.name options :: Node.dumps parts)
  | .mk _ (.array elements) => .form "array" (Node.dumps elements)
  | .mk _ (.splat value) => .form "splat" [value.dump]
  | .mk _ .void => .form "void" []
  | .mk _ .selfRef => .form "self" []
  | .mk _ (.begin body) => .form "begin" [body.dump]
  | .mk _ (.paren body) => .form "paren" (Node.dumps body)
  | .mk _ (.guarded body ensure) =>
    .form "bodystmt" (.form "seq" (Node.dumps body) :: Node.dumpClause "ensure" ensure)
  | .mk info (.varRef n) => .form (Binding.formTag info.binding) [.name n]
  | .mk info (.varTarget n) => .form (Binding.formTag info.binding) [.name n]
  | .mk _ (.fieldTarget receiver n) => .form "field" [receiver.dump, .name n]
  | .mk _ (.multiTarget targets) => .form "mlhs" (Node.dumps targets)
  | .mk _ (.assign target value) => .form "assign" [target.dump, value.dump]
  | .mk _ (.opAssign target op value) =>
    .form "opassign" [target.dump, .name op.method, value.dump]
  | .mk _ (.binary left op right) => .form "binary" [left.dump, .name op.method, right.dump]
  | .mk _ (.unary op operand) => .form "unary" [.name op.method, operand.dump]
  | .mk _ (.ifThen condition body alternative) =>
    .form "if" (condition.dump :: .form "seq" (Node.dumps body) :: Node.dumpOption alternative)
  | .mk _ (.elsif condition body alternative) =>
    .form "elsif" (condition.dump :: .form "seq" (Node.dumps body) :: Node.dumpOption alternative)
  | .mk _ (.elseThen body) => .form "else" (Node.dumps body)
  | .mk _ (.ifMod condition body) => .form "if-mod" [condition.dump, body.dump]
  | .mk _ (.unlessThen condition body otherwise) =>
    .form "unless" (condition.dump :: .form "seq" (Node.dumps body) ::
      Node.dumpClause "else" otherwise)
  | .mk _ (.unlessMod condition body) => .form "unless-mod" [condition.dump, body.dump]
  | .mk _ (.loop sense condition body) =>
    .form sense.formTag (condition.dump :: Node.dumps body)
  | .mk _ (.loopMod sense condition body) =>
    .form sense.modTag [condition.dump, body.dump]
  | .mk _ (.forIn target iterable body) =>
    .form "for" (target.dump :: iterable.dump :: Node.dumps body)
  | .mk _ (.case subject clauses otherwise) =>
    .form "case" (subject.dump :: (Node.dumps clauses ++ Node.dumpClause "else" otherwise))
  | .mk _ (.whenThen candidates body) =>
    .form "when" (.form "seq" (Node.dumps candidates) :: Node.dumps body)
  | .mk _ (.returnWith args) => .form "return" (Node.dumps args)
  | .mk _ (.breakWith args) => .form "break" (Node.dumps args)
  | .mk _ (.nextWith args) => .form "next" (Node.dumps args)
  | .mk _ .redo => .form "redo" []
  | .mk _ (.call receiver method args blockPass block) =>
    .form "call" (Node.dumpReceiver receiver :: .name method :: (Node.dumps args ++
      (Node.dumpPass blockPass ++ Node.dumpOption block)))
  | .mk _ (.doBlock params body) =>
    .form "do-block" (.form "params" (params.map (·.dump)) :: Node.dumps body)
  | .mk _ (.super args blockPass block) =>
    .form "super" (Node.dumps args ++ (Node.dumpPass blockPass ++ Node.dumpOption block))
  | .mk _ (.zsuper block) => .form "zsuper" (Node.dumpOption block)

/-- The forms of nodes. -/
def Node.dumps : List Node → List Tree
  | [] => []
  | n :: ns => n.dump :: Node.dumps ns

/-- The form of a node that may be absent. -/
def Node.dumpOption : Option Node → List Tree
  | none => []
  | some n => [n.dump]

/-- The form of a receiver. -/
def Node.dumpReceiver : Option Node → Tree
  | none => .atom (.symbol "_")
  | some n => n.dump

/-- The form of a block that is passed. -/
def Node.dumpPass : Option Node → List Tree
  | none => []
  | some n => [.form "block-pass" [n.dump]]

/-- The form of statements behind a tag. -/
def Node.dumpClause (tag : String) : Option (List Node) → List Tree
  | none => []
  | some ns => [.form tag (Node.dumps ns)]

end

/-! ## Trees that can be dumped -/

/-- The bindings that forms can give to a node: variables are bound by their own name, as one of the
four kinds of variables, and a variable that is read may have no binding. -/
def Kind.Binds {α : Type} (b : Option Binding) : Kind α → Prop
  | .varRef name => b = none ∨ ∃ kind, kind.formTags ≠ [] ∧ b = some ⟨name, kind⟩
  | .varTarget name => ∃ kind, kind.formTags ≠ [] ∧ b = some ⟨name, kind⟩
  | _ => True

/-- The positional arguments of a call. -/
def Kind.positional {α : Type} : Kind α → List α
  | .call _ _ args _ _ | .super args _ _ => args
  | _ => []

/-- A node that can be dumped, as far as itself and the places of its children are concerned. -/
@[mk_iff] structure Node.Dumpable (scope : Scope) (n : Node) : Prop where
  scope : n.info.scope = some scope
  binds : n.kind.Binds n.info.binding
  places : ∀ role c, (role, c) ∈ n.kind.fields → role.slot.Admits c.kind
  args : ∀ c ∈ n.kind.positional, c.tag ≠ "do-block"
  params : ∀ p ∈ n.kind.params, p.binding.kind = .localVar

/-- A scope that can be dumped. -/
structure Scope.Dumpable (s : Scope) : Prop where
  self : s.self.kind = .selfRef
  params : ∀ m, s.method = some m → ∀ p ∈ m.params, p.binding.kind = .localVar

/-! ## Forms of dumps -/

/-- The symbol at the head of a list. -/
def Tree.tag? : Tree → Option String
  | .list (.atom (.symbol w) :: _) => some w
  | _ => none

namespace Form

lemma tag?_tree (f : Form) : f.tree.tag? = f.tag? := by
  rcases f with ⟨e, a⟩ | ⟨e, _ | ⟨g, items⟩⟩
  · rfl
  · rfl
  · rcases g with ⟨e', a | a | a | a⟩ | ⟨e', items'⟩ <;> rfl

variable {f : Form} {fs : List Form} {tag : String} {ts us : List Tree}

lemma tagged_of_tree (h : f.tree = .form tag ts) : ∃ fs, f.Tagged tag fs ∧ trees fs = ts := by
  rcases f with ⟨e, a⟩ | ⟨e, _ | ⟨g, items⟩⟩
  · cases h
  · cases h
  · rcases g with ⟨e', a⟩ | ⟨e', items'⟩
    · cases h
      exact ⟨items, .mk, rfl⟩
    · cases h

lemma names_of_tree {n : String} (h : f.tree = .name n) : f.Names n := by
  rcases f with ⟨e, a⟩ | ⟨e, items⟩
  · cases h
    exact .text
  · cases h

lemma text?_of_tree {t : String} (h : f.tree = .name t) : f.text? = some t := by
  rcases f with ⟨e, a⟩ | ⟨e, items⟩
  · cases h
    rfl
  · cases h

lemma trees_nil (h : trees fs = []) : fs = [] := by
  cases fs with
  | nil => rfl
  | cons f fs => cases h

variable {t u v : Tree}

lemma trees_cons (h : trees fs = t :: ts) : ∃ g gs, fs = g :: gs ∧ g.tree = t ∧ trees gs = ts := by
  cases fs with
  | nil => cases h
  | cons g gs =>
    cases h
    exact ⟨g, gs, rfl, rfl, rfl⟩

lemma trees_one (h : trees fs = [t]) : ∃ g, fs = [g] ∧ g.tree = t := by
  obtain ⟨g, gs, rfl, hg, rest⟩ := trees_cons h
  obtain rfl := trees_nil rest
  exact ⟨g, rfl, hg⟩

lemma trees_append (h : trees fs = ts ++ us) :
    ∃ gs hs, fs = gs ++ hs ∧ trees gs = ts ∧ trees hs = us := by
  simp only [trees_eq_map] at h ⊢
  exact List.map_eq_append_iff.1 h

lemma tagged_nil (h : f.tree = .form tag []) : f.Tagged tag [] := by
  obtain ⟨fs, hf, args⟩ := tagged_of_tree h
  obtain rfl := trees_nil args
  exact hf

lemma tagged_cons (h : f.tree = .form tag (t :: ts)) :
    ∃ g gs, f.Tagged tag (g :: gs) ∧ g.tree = t ∧ trees gs = ts := by
  obtain ⟨fs, hf, args⟩ := tagged_of_tree h
  obtain ⟨g, gs, rfl, hg, rest⟩ := trees_cons args
  exact ⟨g, gs, hf, hg, rest⟩

lemma tagged_one (h : f.tree = .form tag [t]) : ∃ g, f.Tagged tag [g] ∧ g.tree = t := by
  obtain ⟨g, gs, hf, hg, rest⟩ := tagged_cons h
  obtain rfl := trees_nil rest
  exact ⟨g, hf, hg⟩

lemma tagged_two (h : f.tree = .form tag [t, u]) :
    ∃ g g', f.Tagged tag [g, g'] ∧ g.tree = t ∧ g'.tree = u := by
  obtain ⟨g, gs, hf, hg, rest⟩ := tagged_cons h
  obtain ⟨g', rfl, hg'⟩ := trees_one rest
  exact ⟨g, g', hf, hg, hg'⟩

lemma tagged_three (h : f.tree = .form tag [t, u, v]) :
    ∃ g g' g'', f.Tagged tag [g, g', g''] ∧ g.tree = t ∧ g'.tree = u ∧ g''.tree = v := by
  obtain ⟨g, gs, hf, hg, rest⟩ := tagged_cons h
  obtain ⟨g', _, rfl, hg', rest⟩ := trees_cons rest
  obtain ⟨g'', rfl, hg''⟩ := trees_one rest
  exact ⟨g, g', g'', hf, hg, hg', hg''⟩

end Form

open Form

/-- A form without its place is the dump of a node. -/
def Dumps (f : Form) (n : Node) : Prop := f.tree = n.dump

lemma dumps_list {fs : List Form} {ns : List Node} (h : trees fs = Node.dumps ns) :
    List.Forall₂ Dumps fs ns := by
  induction ns generalizing fs with
  | nil =>
    obtain rfl := trees_nil h
    exact .nil
  | cons n ns ih =>
    obtain ⟨g, gs, rfl, hg, rest⟩ := trees_cons h
    exact .cons hg (ih rest)

lemma dumps_group {f : Form} {tag : String} {ns : List Node}
    (h : f.tree = .form tag (Node.dumps ns)) : ∃ fs, f.Tagged tag fs ∧ List.Forall₂ Dumps fs ns := by
  obtain ⟨fs, hf, inner⟩ := tagged_of_tree h
  exact ⟨fs, hf, dumps_list inner⟩

lemma dumps_option {fs : List Form} {o : Option Node} (h : trees fs = Node.dumpOption o) :
    ∃ a, fs = a.toList ∧ Option.Rel Dumps a o := by
  cases o with
  | none =>
    obtain rfl := trees_nil h
    exact ⟨none, rfl, .none⟩
  | some n =>
    obtain ⟨g, rfl, hg⟩ := trees_one h
    exact ⟨some g, rfl, .some hg⟩

lemma dumps_parameters {fs : List Form} {params : List Parameter}
    (locals : ∀ p ∈ params, p.binding.kind = .localVar) (h : trees fs = params.map (·.dump)) :
    List.Forall₂ Declares fs params := by
  induction params generalizing fs with
  | nil =>
    obtain rfl := trees_nil h
    exact .nil
  | cons p params ih =>
    obtain ⟨here, below⟩ := List.forall_mem_cons.1 locals
    obtain ⟨g, gs, rfl, hg, rest⟩ := trees_cons h
    obtain ⟨inner, hf, names⟩ := tagged_of_tree hg
    obtain ⟨n, rfl, hn⟩ := trees_one names
    obtain ⟨⟨name, kind⟩, sort⟩ := p
    obtain rfl : kind = .localVar := here
    refine .cons ⟨_, n, name, sort, hf, ?_, names_of_tree hn, rfl⟩ (ih below rest)
    cases sort <;> rfl

end ControlFlow
