import ControlFlow.Proofs.Form.Writing
import ControlFlow.Proofs.Reading.Gets
import ControlFlow.Proofs.Syntax.Shape
import ControlFlow.Reading.Source
/-!
# Readers that agree

The readers of forms look at the places of forms only to put them into nodes and errors. Forms that
differ in their places alone are read to nodes that are alike, or refused for the same fault.
-/

namespace ControlFlow

variable {α β γ δ : Type} {R : α → β → Prop} {S : γ → δ → Prop}

/-- Both readers give something, and what they give is related, or both fail with the same fault of a
form, whatever was read before. -/
def Reader.Agrees (R : α → β → Prop) (x : Reader α) (y : Reader β) : Prop := ∀ k l,
  (∃ a b k' l', x.Gets k a k' ∧ y.Gets l b l' ∧ R a b) ∨
    ∃ e e', x.run k = .error e ∧ y.run l = .error e' ∧ e.fault = e'.fault ∧
      e.fault.kind = .unknownForm

namespace Reader.Agrees

variable {f : α → Reader γ} {x : Reader α}

/-- A reader that agrees with some reader fails only with a fault of a form. -/
lemma kind_of_error {y : Reader β} (h : Agrees R x y) {k : Nat} {err : ReadError}
    (failed : x.run k = .error err) : err.fault.kind = .unknownForm := by
  rcases h k k with ⟨a, b, k', l', gets, -⟩ | ⟨e, e', failed', -, -, kind⟩
  · cases failed.symm.trans gets
  · cases failed.symm.trans failed'
    exact kind

lemma pure {a : α} {b : β} (h : R a b) : Agrees R (Pure.pure a) (Pure.pure b) :=
  fun k l => Or.inl ⟨a, b, k, l, rfl, rfl, h⟩

lemma bind {y : Reader β} {g : β → Reader δ} (hx : Agrees R x y)
    (hf : ∀ {a b}, R a b → Agrees S (f a) (g b)) : Agrees S (x >>= f) (y >>= g) := by
  intro k l
  rcases hx k l with ⟨a, b, k', l', first, first', related⟩ | ⟨e, e', failed, failed', fault⟩
  · have run : (x >>= f).run k = (f a).run k' := by
      rw [StateT.run_bind, show x.run k = _ from first]
      rfl
    have run' : (y >>= g).run l = (g b).run l' := by
      rw [StateT.run_bind, show y.run l = _ from first']
      rfl
    simp only [Gets, run, run']
    exact hf related k' l'
  · refine Or.inr ⟨e, e', ?_, ?_, fault⟩
    · rw [StateT.run_bind, failed]
      rfl
    · rw [StateT.run_bind, failed']
      rfl

/-- What is read first is the same. -/
lemma bind_eq {y : Reader α} {g : α → Reader δ} (hx : Agrees Eq x y)
    (hf : ∀ a, Agrees S (f a) (g a)) : Agrees S (x >>= f) (y >>= g) :=
  hx.bind fun h => h ▸ hf _

variable {s s' : Setting} {e e' : Extent}

lemma failAt {fault fault' : ReadFault} (h : fault = fault') (kind : fault.kind = .unknownForm) :
    Agrees R (Reading.failAt s e fault) (Reading.failAt s' e' fault') :=
  fun _ _ => Or.inr ⟨_, _, rfl, rfl, h, kind⟩

lemma failArity {tag : String} {arity : Arity} {args args' : List Form}
    (h : args.length = args'.length) :
    Agrees R (Reading.failArity s e tag arity args) (Reading.failArity s' e' tag arity args') :=
  failAt (congrArg (ReadFault.arity tag arity) h) rfl

lemma mapM {g : β → Reader δ} {as : List α} {bs : List β}
    (h : List.Forall₂ (fun a b => Agrees S (f a) (g b)) as bs) :
    Agrees (List.Forall₂ S) (as.mapM f) (bs.mapM g) := by
  induction h with
  | nil => exact pure .nil
  | cons head _ ih =>
    rw [List.mapM_cons, List.mapM_cons]
    exact head.bind fun first => ih.bind fun rest => pure (.cons first rest)

end Reader.Agrees

namespace Reading

open Reader

variable {file file' : String} {sc : Scope} {s s' : Setting} {e e' : Extent} {f g : Form}
  {fs gs : List Form}

/-! ## Nodes and atoms -/

lemma agrees_make {k l : Kind Node} (h : Kind.Rel (fun _ => Node.Alike) k l) :
    (make ⟨file, sc⟩ e k).Agrees Node.Alike (make ⟨file', sc⟩ e' l) := by
  have unbound : none = k.bound none := by cases k <;> rfl
  exact fun i j => Or.inl ⟨_, _, i + 1, j + 1, rfl, rfl, .mk unbound rfl h⟩

/-- The nodes of variables have bindings. -/
lemma agrees_make_bound {k : Kind Node} {b : Option Binding}
    (h : Kind.Rel (fun _ => Node.Alike) k k) (bound : b = k.bound b) :
    (make ⟨file, sc⟩ e k b).Agrees Node.Alike (make ⟨file', sc⟩ e' k b) :=
  fun i j => Or.inl ⟨_, _, i + 1, j + 1, rfl, rfl, .mk bound rfl h⟩

lemma forall₂_of_trees (h : Form.trees fs = Form.trees gs) :
    List.Forall₂ (fun f g => f.tree = g.tree) fs gs := by
  rwa [Form.trees_eq_map, Form.trees_eq_map, ← List.forall₂_eq_eq_eq, List.forall₂_map_left_iff,
    List.forall₂_map_right_iff] at h

section

variable (h : f.tree = g.tree)

include h

/-- Forms of the same tree are the same atom, or lists of forms of the same trees. -/
lemma tree_cases : (∃ e e' a, f = .atom e a ∧ g = .atom e' a) ∨
      ∃ e e' fs gs, f = .list e fs ∧ g = .list e' gs ∧
        List.Forall₂ (fun f g => f.tree = g.tree) fs gs := by
  rcases f with ⟨e, a⟩ | ⟨e, fs⟩
  · rcases g with ⟨e', a'⟩ | ⟨e', gs⟩
    · cases h
      exact Or.inl ⟨e, e', a, rfl, rfl⟩
    · cases h
  · rcases g with ⟨e', a'⟩ | ⟨e', gs⟩
    · cases h
    · exact Or.inr ⟨e, e', fs, gs, rfl, rfl, forall₂_of_trees (Tree.list.inj h)⟩

lemma symbol?_of_tree : f.symbol? = g.symbol? := by
  rcases tree_cases h with ⟨e, e', a, rfl, rfl⟩ | ⟨e, e', fs, gs, rfl, rfl, -⟩
  · cases a <;> rfl
  · rfl

lemma text?_of_tree : f.text? = g.text? := by
  rcases tree_cases h with ⟨e, e', a, rfl, rfl⟩ | ⟨e, e', fs, gs, rfl, rfl, -⟩
  · cases a <;> rfl
  · rfl

lemma tag?_of_tree : f.tag? = g.tag? := by
  rcases tree_cases h with ⟨e, e', a, rfl, rfl⟩ | ⟨e, e', fs, gs, rfl, rfl, trees⟩
  · rfl
  · rcases trees with _ | ⟨head, -⟩
    · rfl
    · exact symbol?_of_tree head

lemma number?_of_tree (tag : Tag) : number? tag f = number? tag g := by
  rcases tree_cases h with ⟨e, e', a, rfl, rfl⟩ | ⟨e, e', fs, gs, rfl, rfl, -⟩
  · cases a <;> rfl
  · rfl

lemma agrees_name : (name s f).Agrees Eq (name s' g) := by
  rcases tree_cases h with ⟨e, e', a, rfl, rfl⟩ | ⟨e, e', fs, gs, rfl, rfl, -⟩
  · cases a
    case symbol => exact .pure rfl
    case text => exact .pure rfl
    all_goals exact .failAt rfl rfl
  · exact .failAt rfl rfl

lemma agrees_text : (text s f).Agrees Eq (text s' g) := by
  rcases tree_cases h with ⟨e, e', a, rfl, rfl⟩ | ⟨e, e', fs, gs, rfl, rfl, -⟩
  · cases a
    case text => exact .pure rfl
    all_goals exact .failAt rfl rfl
  · exact .failAt rfl rfl

lemma agrees_split :
    (split s f).Agrees (fun p q => p.1 = q.1 ∧ List.Forall₂ (fun f g => f.tree = g.tree) p.2 q.2)
      (split s' g) := by
  rcases tree_cases h with ⟨e, e', a, rfl, rfl⟩ | ⟨e, e', fs, gs, rfl, rfl, trees⟩
  · exact .failAt rfl rfl
  · rcases trees with _ | ⟨head, rest⟩
    · exact .failAt rfl rfl
    · rcases tree_cases head with ⟨d, d', a, rfl, rfl⟩ | ⟨d, d', fs, gs, rfl, rfl, -⟩
      · cases a
        case symbol => exact .pure ⟨rfl, rest⟩
        all_goals exact .failAt rfl rfl
      · exact .failAt rfl rfl

/-- What is read next is told the same tag, and arguments of the same trees. -/
lemma agrees_split_bind {x : String × List Form → Reader γ} {y : String × List Form → Reader δ}
    (next : ∀ tag {args args'},
      List.Forall₂ (fun f g => f.tree = g.tree) args args' →
        (x (tag, args)).Agrees S (y (tag, args'))) :
    (split s f >>= x).Agrees S (split s' g >>= y) := by
  refine (agrees_split h).bind fun {p q} same => ?_
  obtain ⟨tag, args⟩ := p
  obtain ⟨_, args'⟩ := q
  obtain ⟨rfl, trees⟩ := same
  exact next tag trees

lemma agrees_parameter : (parameter s f).Agrees Eq (parameter s' g) := by
  refine agrees_split_bind h fun tag args args' trees => ?_
  have length := trees.length_eq
  dsimp only
  rcases trees with _ | ⟨n, _ | _⟩
  case cons.nil =>
    dsimp only
    cases ParameterKind.ofTag? tag with
    | none => exact .failAt rfl rfl
    | some kind => exact (agrees_name n).bind_eq fun _ => .pure rfl
  all_goals exact .failArity length

omit h in
lemma agrees_parameters (h : List.Forall₂ (fun f g => f.tree = g.tree) fs gs) :
    (fs.mapM (parameter s)).Agrees Eq (gs.mapM (parameter s')) := by
  rw [← List.forall₂_eq_eq_eq]
  exact .mapM (h.imp fun _ _ same => agrees_parameter same)

lemma agrees_signature : (signature s f).Agrees Eq (signature s' g) := by
  refine agrees_split_bind h fun tag args args' trees => ?_
  have length := trees.length_eq
  dsimp only
  by_cases other : tag ≠ "def"
  · rw [if_pos other, if_pos other]
    exact .failAt rfl rfl
  · rw [if_neg other, if_neg other]
    rcases trees with _ | ⟨n, params⟩
    · exact .failArity length
    · exact (agrees_name n).bind_eq fun _ => (agrees_parameters params).bind_eq fun _ => .pure rfl

lemma agrees_scope : (scope s f).Agrees Eq (scope s' g) := by
  refine agrees_split_bind h fun tag args args' trees => ?_
  have length := trees.length_eq
  dsimp only
  rcases trees with _ | ⟨n, _ | ⟨m, _ | _⟩⟩
  case cons.nil => exact (agrees_name n).bind_eq fun _ => .pure rfl
  case cons.cons.nil =>
    exact (agrees_name n).bind_eq fun _ => (agrees_signature m).bind_eq fun _ => .pure rfl
  all_goals exact .failArity length

end

lemma agrees_atom (a : Atom) : (atom ⟨file, sc⟩ e a).Agrees Node.Alike (atom ⟨file', sc⟩ e' a) := by
  unfold atom
  split
  · exact agrees_make .literal
  · exact agrees_make .literal
  · exact (agrees_make .content).bind fun part => agrees_make (.str (.cons part .nil))
  · split
    · exact agrees_make .literal
    · exact agrees_make .literal
    · exact agrees_make .literal
    · exact agrees_make .selfRef
    · exact .failAt rfl rfl

/-! ## Forms -/

/-- All readers agree about two forms of the same tree. -/
structure Agreed (file file' : String) (sc : Scope) (f g : Form) : Prop where
  tree : f.tree = g.tree
  expression : (expression ⟨file, sc⟩ f).Agrees Node.Alike (expression ⟨file', sc⟩ g)
  sequence : (sequence ⟨file, sc⟩ f).Agrees (List.Forall₂ Node.Alike) (sequence ⟨file', sc⟩ g)
  ensureClause :
    (ensureClause ⟨file, sc⟩ f).Agrees (List.Forall₂ Node.Alike) (ensureClause ⟨file', sc⟩ g)
  elseClause : (elseClause ⟨file, sc⟩ f).Agrees (List.Forall₂ Node.Alike) (elseClause ⟨file', sc⟩ g)
  target : (target ⟨file, sc⟩ f).Agrees Node.Alike (target ⟨file', sc⟩ g)
  alternative : (alternative ⟨file, sc⟩ f).Agrees Node.Alike (alternative ⟨file', sc⟩ g)
  whenClause : (whenClause ⟨file, sc⟩ f).Agrees Node.Alike (whenClause ⟨file', sc⟩ g)
  block : (block ⟨file, sc⟩ f).Agrees Node.Alike (block ⟨file', sc⟩ g)
  blockPass : (blockPass ⟨file, sc⟩ f).Agrees Node.Alike (blockPass ⟨file', sc⟩ g)

section

variable {args args' : List Form} {tag : String}
  (h : List.Forall₂ (Agreed file file' sc) args args')

include h

lemma agrees_expressions :
    (expressions ⟨file, sc⟩ args).Agrees (List.Forall₂ Node.Alike)
      (expressions ⟨file', sc⟩ args') := by
  rw [expressions_eq_mapM, expressions_eq_mapM]
  exact .mapM (h.imp fun _ _ => Agreed.expression)

lemma agrees_targets :
    (targets ⟨file, sc⟩ args).Agrees (List.Forall₂ Node.Alike) (targets ⟨file', sc⟩ args') := by
  rw [targets_eq_mapM, targets_eq_mapM]
  exact .mapM (h.imp fun _ _ => Agreed.target)

lemma agrees_parts :
    (parts ⟨file, sc⟩ args).Agrees (List.Forall₂ Node.Alike) (parts ⟨file', sc⟩ args') := by
  rw [parts_eq_mapM, parts_eq_mapM]
  refine .mapM (h.imp fun f g same => ?_)
  rw [text?_of_tree same.tree]
  cases g.text? with
  | some t => exact agrees_make .content
  | none => exact same.expression

lemma agrees_clauses : (clauses ⟨file, sc⟩ args).Agrees
      (fun p q => List.Forall₂ Node.Alike p.1 q.1 ∧ Option.Rel (List.Forall₂ Node.Alike) p.2 q.2)
      (clauses ⟨file', sc⟩ args') := by
  induction h with
  | nil => exact .pure ⟨.nil, .none⟩
  | @cons f g fs gs head tail ih =>
    have last : fs.isEmpty = gs.isEmpty := by cases tail <;> rfl
    unfold clauses
    rw [tag?_of_tree head.tree, last]
    split
    · exact head.whenClause.bind fun n => ih.bind fun rest => .pure ⟨.cons n rest.1, rest.2⟩
    · split
      · exact head.elseClause.bind fun other => .pure ⟨.nil, .some other⟩
      · exact .failAt rfl rfl

/-- The same arguments and blocks. -/
structure CallParts.Alike (c d : CallParts) : Prop where
  args : List.Forall₂ Node.Alike c.args d.args
  blockPass : Option.Rel Node.Alike c.blockPass d.blockPass
  block : Option.Rel Node.Alike c.block d.block

lemma agrees_callParts :
    (callParts ⟨file, sc⟩ args).Agrees CallParts.Alike (callParts ⟨file', sc⟩ args') := by
  induction h with
  | nil => exact .pure ⟨.nil, .none, .none⟩
  | @cons f g fs gs head _ ih =>
    unfold callParts
    rw [tag?_of_tree head.tree]
    split
    · exact head.blockPass.bind fun n => ih.bind fun rest =>
        .pure ⟨rest.args, rel_orElse rest.blockPass n, rest.block⟩
    · split
      · exact head.block.bind fun n => ih.bind fun rest =>
          .pure ⟨rest.args, rest.blockPass, rel_orElse rest.block n⟩
      · exact head.expression.bind fun n => ih.bind fun rest =>
          .pure ⟨.cons n rest.args, rest.blockPass, rest.block⟩

lemma agrees_fieldForm :
    (fieldForm ⟨file, sc⟩ e tag args).Agrees Node.Alike (fieldForm ⟨file', sc⟩ e' tag args') := by
  have length := h.length_eq
  unfold fieldForm
  rcases h with _ | ⟨r, _ | ⟨n, _ | _⟩⟩
  case cons.cons.nil =>
    exact r.expression.bind fun r => (agrees_name n.tree).bind_eq fun _ =>
      agrees_make (.fieldTarget r)
  all_goals exact .failArity length

lemma agrees_elsifForm :
    (elsifForm ⟨file, sc⟩ e tag args).Agrees Node.Alike (elsifForm ⟨file', sc⟩ e' tag args') := by
  have length := h.length_eq
  unfold elsifForm
  rcases h with _ | ⟨c, _ | ⟨b, _ | ⟨a, _ | _⟩⟩⟩
  case cons.cons.nil =>
    exact c.expression.bind fun c => b.sequence.bind fun b => agrees_make (.elsif c b .none)
  case cons.cons.cons.nil =>
    exact c.expression.bind fun c => b.sequence.bind fun b => a.alternative.bind fun a =>
      agrees_make (.elsif c b (.some a))
  all_goals exact .failArity length

lemma agrees_whenForm :
    (whenForm ⟨file, sc⟩ e tag args).Agrees Node.Alike (whenForm ⟨file', sc⟩ e' tag args') := by
  unfold whenForm
  rcases h with _ | ⟨c, rest⟩
  · exact .failArity rfl
  · exact c.sequence.bind fun c => (agrees_expressions rest).bind fun b =>
      agrees_make (.whenThen c b)

lemma agrees_blockForm :
    (blockForm ⟨file, sc⟩ e tag args).Agrees Node.Alike (blockForm ⟨file', sc⟩ e' tag args') := by
  unfold blockForm
  rcases h with _ | ⟨p, rest⟩
  · exact .failArity rfl
  · refine agrees_split_bind p.tree fun paramsTag params params' trees => ?_
    dsimp only
    by_cases other : paramsTag ≠ "params"
    · rw [if_pos other, if_pos other]
      exact .failAt rfl rfl
    · rw [if_neg other, if_neg other]
      exact (agrees_parameters trees).bind_eq fun _ => (agrees_expressions rest).bind fun b =>
        agrees_make (.doBlock b)

lemma agrees_tagged {d d' : Extent} :
    (tagged ⟨file, sc⟩ e (.atom d (.symbol tag) :: args)).Agrees Node.Alike
      (tagged ⟨file', sc⟩ e' (.atom d' (.symbol tag) :: args')) := by
  have length := h.length_eq
  unfold tagged
  dsimp only
  cases Tag.ofSymbol? tag with
  | none => exact .failAt rfl rfl
  | some t =>
    -- the arguments on both sides are equally many, so that they are split alike
    cases t with dsimp only
    | varRef kind =>
      rcases h with _ | ⟨n, _ | _⟩
      case cons.nil =>
        exact (agrees_name n.tree).bind_eq fun _ => agrees_make_bound .varRef rfl
      all_goals exact .failArity length
    | constant value =>
      rcases h with _ | _
      case nil => exact agrees_make .literal
      all_goals exact .failArity length
    | int =>
      rcases h with _ | ⟨n, _ | _⟩
      case cons.nil =>
        dsimp only
        rw [number?_of_tree n.tree .int]
        split
        · exact agrees_make .literal
        · exact .failAt rfl rfl
      all_goals exact .failArity length
    | float =>
      rcases h with _ | ⟨n, _ | _⟩
      case cons.nil =>
        dsimp only
        rw [number?_of_tree n.tree .float]
        split
        · exact agrees_make .literal
        · exact .failAt rfl rfl
      all_goals exact .failArity length
    | symbol =>
      rcases h with _ | ⟨n, _ | _⟩
      case cons.nil => exact (agrees_name n.tree).bind_eq fun _ => agrees_make .literal
      all_goals exact .failArity length
    | char =>
      rcases h with _ | ⟨t, _ | _⟩
      case cons.nil => exact (agrees_text t.tree).bind_eq fun _ => agrees_make .literal
      all_goals exact .failArity length
    | str => exact (agrees_parts h).bind fun parts => agrees_make (.str parts)
    | command => exact (agrees_parts h).bind fun parts => agrees_make (.command parts)
    | regexp =>
      rcases h with _ | ⟨options, rest⟩
      · exact .failArity rfl
      · exact (agrees_text options.tree).bind_eq fun _ => (agrees_parts rest).bind fun parts =>
          agrees_make (.regexp parts)
    | embed => exact (agrees_expressions h).bind fun body => agrees_make (.embed body)
    | array => exact (agrees_expressions h).bind fun elements => agrees_make (.array elements)
    | splat =>
      rcases h with _ | ⟨f, _ | _⟩
      case cons.nil => exact f.expression.bind fun value => agrees_make (.splat value)
      all_goals exact .failArity length
    | void => exact agrees_make .void
    | selfRef => exact agrees_make .selfRef
    | begin =>
      rcases h with _ | ⟨f, _ | _⟩
      case cons.nil => exact f.expression.bind fun body => agrees_make (.begin body)
      all_goals exact .failArity length
    | paren => exact (agrees_expressions h).bind fun body => agrees_make (.paren body)
    | guarded =>
      rcases h with _ | ⟨b, _ | ⟨c, _ | _⟩⟩
      case cons.nil => exact b.sequence.bind fun body => agrees_make (.guarded body .none)
      case cons.cons.nil =>
        exact b.sequence.bind fun body => c.ensureClause.bind fun clause =>
          agrees_make (.guarded body (.some clause))
      all_goals exact .failArity length
    | vcall =>
      rcases h with _ | ⟨n, _ | _⟩
      case cons.nil => exact (agrees_name n.tree).bind_eq fun _ => agrees_make .varRef
      all_goals exact .failArity length
    | field => exact agrees_fieldForm h
    | multi => exact (agrees_targets h).bind fun targets => agrees_make (.multiTarget targets)
    | assign =>
      rcases h with _ | ⟨t, _ | ⟨v, _ | _⟩⟩
      case cons.cons.nil =>
        exact t.target.bind fun target => v.expression.bind fun value =>
          agrees_make (.assign target value)
      all_goals exact .failArity length
    | opAssign =>
      rcases h with _ | ⟨t, _ | ⟨o, _ | ⟨v, _ | _⟩⟩⟩
      case cons.cons.cons.nil =>
        refine (agrees_name o.tree).bind_eq fun word => ?_
        cases BinaryOp.ofWord? word with
        | none => exact .failAt rfl rfl
        | some op =>
          exact t.target.bind fun target => v.expression.bind fun value =>
            agrees_make (.opAssign target value)
      all_goals exact .failArity length
    | binary =>
      rcases h with _ | ⟨l, _ | ⟨o, _ | ⟨r, _ | _⟩⟩⟩
      case cons.cons.cons.nil =>
        refine (agrees_name o.tree).bind_eq fun word => ?_
        cases BinaryOp.ofWord? word with
        | none => exact .failAt rfl rfl
        | some op =>
          exact l.expression.bind fun left => r.expression.bind fun right =>
            agrees_make (.binary left right)
      all_goals exact .failArity length
    | unary =>
      rcases h with _ | ⟨o, _ | ⟨f, _ | _⟩⟩
      case cons.cons.nil =>
        refine (agrees_name o.tree).bind_eq fun word => ?_
        cases UnaryOp.ofWord? word with
        | none => exact .failAt rfl rfl
        | some op => exact f.expression.bind fun operand => agrees_make (.unary operand)
      all_goals exact .failArity length
    | ifThen =>
      rcases h with _ | ⟨c, _ | ⟨b, _ | ⟨a, _ | _⟩⟩⟩
      case cons.cons.nil =>
        exact c.expression.bind fun condition => b.sequence.bind fun body =>
          agrees_make (.ifThen condition body .none)
      case cons.cons.cons.nil =>
        exact c.expression.bind fun condition => b.sequence.bind fun body =>
          a.alternative.bind fun other => agrees_make (.ifThen condition body (.some other))
      all_goals exact .failArity length
    | elsif => exact agrees_elsifForm h
    | elseThen => exact (agrees_expressions h).bind fun body => agrees_make (.elseThen body)
    | unlessThen =>
      rcases h with _ | ⟨c, _ | ⟨b, _ | ⟨a, _ | _⟩⟩⟩
      case cons.cons.nil =>
        exact c.expression.bind fun condition => b.sequence.bind fun body =>
          agrees_make (.unlessThen condition body .none)
      case cons.cons.cons.nil =>
        exact c.expression.bind fun condition => b.sequence.bind fun body =>
          a.elseClause.bind fun other => agrees_make (.unlessThen condition body (.some other))
      all_goals exact .failArity length
    | ifMod =>
      rcases h with _ | ⟨c, _ | ⟨b, _ | _⟩⟩
      case cons.cons.nil =>
        exact c.expression.bind fun condition => b.expression.bind fun body =>
          agrees_make (.ifMod condition body)
      all_goals exact .failArity length
    | unlessMod =>
      rcases h with _ | ⟨c, _ | ⟨b, _ | _⟩⟩
      case cons.cons.nil =>
        exact c.expression.bind fun condition => b.expression.bind fun body =>
          agrees_make (.unlessMod condition body)
      all_goals exact .failArity length
    | loop sense =>
      rcases h with _ | ⟨c, rest⟩
      · exact .failArity rfl
      · exact c.expression.bind fun condition => (agrees_expressions rest).bind fun body =>
          agrees_make (.loop condition body)
    | loopMod sense =>
      rcases h with _ | ⟨c, _ | ⟨b, _ | _⟩⟩
      case cons.cons.nil =>
        exact c.expression.bind fun condition => b.expression.bind fun body =>
          agrees_make (.loopMod condition body)
      all_goals exact .failArity length
    | forIn =>
      rcases h with _ | ⟨t, _ | ⟨i, rest⟩⟩
      case cons.cons =>
        exact t.target.bind fun target => i.expression.bind fun iterable =>
          (agrees_expressions rest).bind fun body => agrees_make (.forIn target iterable body)
      all_goals exact .failArity length
    | case =>
      rcases h with _ | ⟨f, rest⟩
      · exact .failArity rfl
      · exact f.expression.bind fun subject => (agrees_clauses rest).bind fun clauses =>
          agrees_make (.case subject clauses.1 clauses.2)
    | whenThen => exact agrees_whenForm h
    | returnWith => exact (agrees_expressions h).bind fun args => agrees_make (.returnWith args)
    | returnNothing =>
      rcases h with _ | _
      case nil => exact agrees_make (.returnWith .nil)
      all_goals exact .failArity length
    | breakWith => exact (agrees_expressions h).bind fun args => agrees_make (.breakWith args)
    | nextWith => exact (agrees_expressions h).bind fun args => agrees_make (.nextWith args)
    | redo =>
      rcases h with _ | _
      case nil => exact agrees_make .redo
      all_goals exact .failArity length
    | call =>
      rcases h with _ | ⟨r, _ | ⟨m, rest⟩⟩
      case cons.cons =>
        dsimp only
        rw [symbol?_of_tree r.tree]
        split
        · exact (Agrees.pure .none).bind fun receiver => (agrees_name m.tree).bind_eq fun _ =>
            (agrees_callParts rest).bind fun parts =>
              agrees_make (.call receiver parts.args parts.blockPass parts.block)
        · exact r.expression.bind fun n => (Agrees.pure (.some n)).bind fun receiver =>
            (agrees_name m.tree).bind_eq fun _ => (agrees_callParts rest).bind fun parts =>
              agrees_make (.call receiver parts.args parts.blockPass parts.block)
      all_goals exact .failArity length
    | doBlock => exact agrees_blockForm h
    | super =>
      exact (agrees_callParts h).bind fun parts =>
        agrees_make (.super parts.args parts.blockPass parts.block)
    | zsuper =>
      rcases h with _ | ⟨b, _ | _⟩
      case nil => exact agrees_make (.zsuper .none)
      case cons.nil => exact b.block.bind fun block => agrees_make (.zsuper (.some block))
      all_goals exact .failArity length

omit h

/-- Readers of forms with a tag agree where there is one, and where there is none. -/
lemma agreed_list (tree : (Form.list e fs).tree = (Form.list e' gs).tree)
    (h : List.Forall₂ (Agreed file file' sc) fs gs) :
    Agreed file file' sc (.list e fs) (.list e' gs) := by
  rcases h with _ | ⟨head, rest⟩
  · constructor <;> first | exact tree | exact .failAt rfl rfl
  -- only a symbol at the head of the list is a tag
  rcases tree_cases head.tree with ⟨d, d', a, rfl, rfl⟩ | ⟨d, d', _, _, rfl, rfl, -⟩
  swap
  · constructor <;> first | exact tree | exact .failAt rfl rfl
  cases a with
  | symbol tag =>
    have body := agrees_expressions rest
    have length := rest.length_eq
    constructor
    case tree => exact tree
    case expression =>
      rw [expression, expression]
      exact agrees_tagged rest
    case sequence =>
      rw [sequence, sequence]
      split
      · exact body
      · exact .failAt rfl rfl
    case ensureClause =>
      rw [ensureClause, ensureClause]
      split
      · exact body
      · exact .failAt rfl rfl
    case elseClause =>
      rw [elseClause, elseClause]
      split
      · exact body
      · exact .failAt rfl rfl
    case target =>
      unfold target
      cases Tag.ofSymbol? tag with
      | none => exact .failAt rfl rfl
      | some t =>
        cases t with dsimp only
        | varRef kind =>
          rcases rest with _ | ⟨n, _ | _⟩
          case cons.nil =>
            exact (agrees_name n.tree).bind_eq fun _ => agrees_make_bound .varTarget rfl
          all_goals exact .failArity length
        | field => exact agrees_fieldForm rest
        | multi => exact (agrees_targets rest).bind fun targets => agrees_make (.multiTarget targets)
        | _ => exact .failAt rfl rfl
    case alternative =>
      rw [alternative, alternative]
      split
      · exact agrees_elsifForm rest
      · split
        · exact body.bind fun body => agrees_make (.elseThen body)
        · exact .failAt rfl rfl
    case whenClause => exact agrees_whenForm rest
    case block => exact agrees_blockForm rest
    case blockPass =>
      unfold blockPass
      rcases rest with _ | ⟨v, _ | _⟩
      case cons.nil => exact v.expression
      all_goals exact .failArity length
  | _ => constructor <;> first | exact tree | exact .failAt rfl rfl

end

/-- All readers agree about forms of the same tree. -/
lemma agreed (file file' : String) (sc : Scope) (h : f.tree = g.tree) :
    Agreed file file' sc f g := by
  induction g using Form.induction_items generalizing f with
  | step g ih =>
    rcases tree_cases h with ⟨e, e', a, rfl, rfl⟩ | ⟨e, e', fs, gs, rfl, rfl, trees⟩
    · constructor
      case tree => exact h
      case expression => exact agrees_atom a
      all_goals exact .failAt rfl rfl
    · exact agreed_list h (forall₂_imp_mem trees fun _ _ g mem same => ih g mem same)

lemma agreed_all (file file' : String) (sc : Scope)
    (h : List.Forall₂ (fun f g => f.tree = g.tree) fs gs) :
    List.Forall₂ (Agreed file file' sc) fs gs := h.imp fun _ _ same => agreed file file' sc same

/-! ## Texts -/

/-- A form that is no `program` is its only statement. -/
lemma program_of_other (h : f.tag? ≠ some "program") : program s f = (do
    let n ← expression s f
    make s f.extent (.program [n])) := by
  unfold program
  split
  · exact absurd rfl h
  · rfl

lemma agrees_programForm {d d' : Extent} {args args' : List Form}
    (h : List.Forall₂ (fun f g => f.tree = g.tree) args args') :
    (program ⟨file, sc⟩ (.list e (.atom d (.symbol "program") :: args))).Agrees Node.Alike
      (program ⟨file', sc⟩ (.list e' (.atom d' (.symbol "program") :: args'))) := by
  have body := agrees_expressions (agreed_all file file' sc h)
  rcases h with _ | ⟨first, rest⟩
  · exact agrees_make (.program .nil)
  · simp only [program, tag?_of_tree first]
    split
    · exact (agrees_scope first).bind_eq fun sc =>
        (agrees_expressions (agreed_all file file' sc rest)).bind fun body =>
          agrees_make (.program body)
    · exact body.bind fun body => agrees_make (.program body)

lemma agrees_program (h : f.tree = g.tree) :
    (program ⟨file, sc⟩ f).Agrees Node.Alike (program ⟨file', sc⟩ g) := by
  by_cases tag : f.tag? = some "program"
  · rcases tree_cases h with ⟨e, e', a, rfl, rfl⟩ | ⟨e, e', fs, gs, rfl, rfl, trees⟩
    · cases tag
    · rcases trees with _ | ⟨head, rest⟩
      · cases tag
      · rcases tree_cases head with ⟨d, d', a, rfl, rfl⟩ | ⟨d, d', fs, gs, rfl, rfl, -⟩
        · cases a with
          | symbol w =>
            obtain rfl : w = "program" := Option.some.inj tag
            exact agrees_programForm rest
          | _ => cases tag
        · cases tag
  · rw [program_of_other tag, program_of_other (tag?_of_tree h ▸ tag)]
    exact (agreed file file' sc h).expression.bind fun n => agrees_make (.program (.cons n .nil))

/-- Forms of the same trees give roots that are alike, or are refused for the same fault. -/
lemma root_agrees (file file' : String) (h : Form.trees fs = Form.trees gs) :
    (∃ n n', root file fs = .ok n ∧ root file' gs = .ok n' ∧ n.Alike n') ∨
      ∃ e e', root file fs = .error e ∧ root file' gs = .error e' ∧ e.fault = e'.fault := by
  have trees := forall₂_of_trees h
  have length := trees.length_eq
  rcases trees with _ | ⟨head, _ | ⟨extra, rest⟩⟩
  · exact Or.inr ⟨_, _, rfl, rfl, rfl⟩
  · simp only [root, StateT.run'_eq]
    rcases agrees_program head 0 0 with
      ⟨n, n', k, k', read, read', alike⟩ | ⟨e, e', failed, failed', fault⟩
    · left
      refine ⟨n, n', ?_, ?_, alike⟩
      · rw [show StateT.run _ _ = _ from read]
        rfl
      · rw [show StateT.run _ _ = _ from read']
        rfl
    · right
      refine ⟨e, e', ?_, ?_, fault.1⟩
      · rw [failed]
        rfl
      · rw [failed']
        rfl
  · exact Or.inr ⟨_, _, rfl, rfl, congrArg ReadFault.topLevel length⟩

/-- What is wrong with the forms of a text is of one class. -/
lemma root_error {err : ReadError} (h : root file fs = .error err) :
    err.fault.kind = .unknownForm := by
  unfold root at h
  split at h
  · rename_i f
    rw [StateT.run'_eq] at h
    cases hr : (program ⟨file, .main⟩ f).run 0 with
    | error err' =>
      rw [hr] at h
      cases h
      have agrees : (program ⟨file, .main⟩ f).Agrees Node.Alike (program ⟨file, .main⟩ f) :=
        agrees_program rfl
      exact agrees.kind_of_error hr
    | ok r =>
      rw [hr] at h
      cases h
  · cases h
    rfl
  · cases h
    rfl

end Reading

end ControlFlow
