import ControlFlow.Proofs.Form.Placed
import ControlFlow.Proofs.Reading.Gets
import ControlFlow.Proofs.Syntax.Shape
/-!
# What forms say

A form says the kind of one node, whose children are forms again. Where a form may stand, its *slot*,
decides what it can say. A reader that succeeds made the node that the form says, and made its children
from the forms in the slots of their roles.
-/

namespace ControlFlow

/-- Where a form of a node may stand. -/
inductive Slot where
  | expression
  | part
  | target
  | alternative
  | clause
  | block
deriving DecidableEq, Repr

/-- The slot for the children of a role. -/
def Role.slot : Role → Slot
  | .part => .part
  | .target => .target
  | .alternative => .alternative
  | .clause => .clause
  | .block => .block
  | _ => .expression

/-! ## Parts of forms -/

namespace Form

/-- A list that starts with a symbol. -/
inductive Tagged (tag : String) (args : List Form) : Form → Prop where
  | mk {e e' : Extent} : Tagged tag args (.list e (.atom e' (.symbol tag) :: args))

/-- A name is a symbol or a quoted text. -/
inductive Names : Form → String → Prop where
  | symbol {e : Extent} {n : String} : Names (.atom e (.symbol n)) n
  | text {e : Extent} {n : String} : Names (.atom e (.text n)) n

/-- The form of a parameter. -/
def Declares (f : Form) (p : Parameter) : Prop :=
  ∃ tag n name kind, f.Tagged tag [n] ∧ ParameterKind.ofTag? tag = some kind ∧ n.Names name ∧
    p = ⟨⟨name, .localVar⟩, kind⟩

/-- What a call is sent to: `_` stands for the receiver of the scope. -/
def receiver? (f : Form) : Option Form := if f.symbol? = some "_" then none else some f

/-- Which of the forms of a call are its arguments, its passed block and its block literal. The last
of several blocks of a sort counts. -/
inductive CallSays : List Form → List Form → Option Form → Option Form → Prop where
  | nil : CallSays [] [] none none
  | blockPass {f v : Form} {fs args : List Form} {p b : Option Form} (h : f.Tagged "block-pass" [v])
      (rest : CallSays fs args p b) : CallSays (f :: fs) args (p <|> some v) b
  | block {f : Form} {fs args : List Form} {p b : Option Form} (h : f.tag? = some "do-block")
      (rest : CallSays fs args p b) : CallSays (f :: fs) args p (b <|> some f)
  | arg {f : Form} {fs args : List Form} {p b : Option Form} (pass : f.tag? ≠ some "block-pass")
      (block : f.tag? ≠ some "do-block") (rest : CallSays fs args p b) :
      CallSays (f :: fs) (f :: args) p b

/-- Which of the forms of a `case` are its clauses, and what its `else` holds. -/
inductive CaseSays : List Form → List Form → Option (List Form) → Prop where
  | nil : CaseSays [] [] none
  | clause {f : Form} {fs cs : List Form} {o : Option (List Form)} (h : f.tag? = some "when")
      (rest : CaseSays fs cs o) : CaseSays (f :: fs) (f :: cs) o
  | otherwise {f : Form} {body : List Form} (h : f.Tagged "else" body) :
      CaseSays [f] [] (some body)

end Form

open Form

/-- What a tag says about the forms behind it. -/
inductive Phrase : Tag → List Form → Kind Form → Option Binding → Prop where
  | varRef {kind : BindingKind} {n : Form} {name : String} (h : n.Names name) :
      Phrase (.varRef kind) [n] (.varRef name) (some ⟨name, kind⟩)
  | constant {value : Constant} : Phrase (.constant value) [] (.literal value) none
  | int {f : Form} {value : Constant} (h : Reading.number? .int f = some value) :
      Phrase .int [f] (.literal value) none
  | float {f : Form} {value : Constant} (h : Reading.number? .float f = some value) :
      Phrase .float [f] (.literal value) none
  | symbol {n : Form} {name : String} (h : n.Names name) :
      Phrase .symbol [n] (.literal (.symbol name)) none
  | char {f : Form} {t : String} (h : f.text? = some t) :
      Phrase .char [f] (.literal (.str t)) none
  | str {fs : List Form} : Phrase .str fs (.str fs) none
  | command {fs : List Form} : Phrase .command fs (.command fs) none
  | regexp {f : Form} {fs : List Form} {options : String} (h : f.text? = some options) :
      Phrase .regexp (f :: fs) (.regexp fs options) none
  | embed {fs : List Form} : Phrase .embed fs (.embed fs) none
  | array {fs : List Form} : Phrase .array fs (.array fs) none
  | splat {f : Form} : Phrase .splat [f] (.splat f) none
  | void {fs : List Form} : Phrase .void fs .void none
  | selfRef {fs : List Form} : Phrase .selfRef fs .selfRef none
  | begin {f : Form} : Phrase .begin [f] (.begin f) none
  | paren {fs : List Form} : Phrase .paren fs (.paren fs) none
  | guarded {b : Form} {body : List Form} (hb : b.Tagged "seq" body) :
      Phrase .guarded [b] (.guarded body none) none
  | ensured {b c : Form} {body clause : List Form} (hb : b.Tagged "seq" body)
      (hc : c.Tagged "ensure" clause) : Phrase .guarded [b, c] (.guarded body (some clause)) none
  | vcall {n : Form} {name : String} (h : n.Names name) : Phrase .vcall [n] (.varRef name) none
  | field {r n : Form} {name : String} (h : n.Names name) :
      Phrase .field [r, n] (.fieldTarget r name) none
  | multi {ts : List Form} : Phrase .multi ts (.multiTarget ts) none
  | assign {t v : Form} : Phrase .assign [t, v] (.assign t v) none
  | opAssign {t o v : Form} {word : String} {op : BinaryOp} (h : o.Names word)
      (known : BinaryOp.ofWord? word = some op) :
      Phrase .opAssign [t, o, v] (.opAssign t op v) none
  | binary {l o r : Form} {word : String} {op : BinaryOp} (h : o.Names word)
      (known : BinaryOp.ofWord? word = some op) :
      Phrase .binary [l, o, r] (.binary l op r) none
  | unary {o f : Form} {word : String} {op : UnaryOp} (h : o.Names word)
      (known : UnaryOp.ofWord? word = some op) : Phrase .unary [o, f] (.unary op f) none
  | ifThen {c b : Form} {body : List Form} (a : Option Form) (hb : b.Tagged "seq" body) :
      Phrase .ifThen (c :: b :: a.toList) (.ifThen c body a) none
  | elsif {c b : Form} {body : List Form} (a : Option Form) (hb : b.Tagged "seq" body) :
      Phrase .elsif (c :: b :: a.toList) (.elsif c body a) none
  | elseThen {fs : List Form} : Phrase .elseThen fs (.elseThen fs) none
  | unlessThen {c b : Form} {body : List Form} (hb : b.Tagged "seq" body) :
      Phrase .unlessThen [c, b] (.unlessThen c body none) none
  | unlessElse {c b a : Form} {body other : List Form} (hb : b.Tagged "seq" body)
      (ha : a.Tagged "else" other) :
      Phrase .unlessThen [c, b, a] (.unlessThen c body (some other)) none
  | ifMod {c b : Form} : Phrase .ifMod [c, b] (.ifMod c b) none
  | unlessMod {c b : Form} : Phrase .unlessMod [c, b] (.unlessMod c b) none
  | loop {sense : LoopSense} {c : Form} {fs : List Form} :
      Phrase (.loop sense) (c :: fs) (.loop sense c fs) none
  | loopMod {sense : LoopSense} {c b : Form} :
      Phrase (.loopMod sense) [c, b] (.loopMod sense c b) none
  | forIn {t i : Form} {fs : List Form} : Phrase .forIn (t :: i :: fs) (.forIn t i fs) none
  | case {f : Form} {fs cs : List Form} {o : Option (List Form)} (h : CaseSays fs cs o) :
      Phrase .case (f :: fs) (.case f cs o) none
  | whenThen {c : Form} {cs fs : List Form} (hc : c.Tagged "seq" cs) :
      Phrase .whenThen (c :: fs) (.whenThen cs fs) none
  | returnWith {fs : List Form} : Phrase .returnWith fs (.returnWith fs) none
  | returnNothing : Phrase .returnNothing [] (.returnWith []) none
  | breakWith {fs : List Form} : Phrase .breakWith fs (.breakWith fs) none
  | nextWith {fs : List Form} : Phrase .nextWith fs (.nextWith fs) none
  | redo : Phrase .redo [] .redo none
  | call {r m : Form} {method : String} {fs args : List Form} {p b : Option Form}
      (hm : m.Names method) (h : CallSays fs args p b) :
      Phrase .call (r :: m :: fs) (.call r.receiver? method args p b) none
  | doBlock {p : Form} {ps fs : List Form} {params : List Parameter} (hp : p.Tagged "params" ps)
      (h : List.Forall₂ Declares ps params) : Phrase .doBlock (p :: fs) (.doBlock params fs) none
  | super {fs args : List Form} {p b : Option Form} (h : CallSays fs args p b) :
      Phrase .super fs (.super args p b) none
  | zsuper (b : Option Form) : Phrase .zsuper b.toList (.zsuper b) none

/-- The symbols that are expressions of their own. -/
def wordKind? {α : Type} : String → Option (Kind α)
  | "nil" => some (.literal .nil)
  | "true" => some (.literal (.bool true))
  | "false" => some (.literal (.bool false))
  | "self" => some .selfRef
  | _ => none

/-- What a form says in a slot. -/
inductive Says : Slot → Form → Kind Form → Option Binding → Prop where
  | integer {e : Extent} {n : Int} : Says .expression (.atom e (.integer n)) (.literal (.integer n)) none
  | float {e : Extent} {x : Binary64} :
      Says .expression (.atom e (.float x)) (.literal (.float x)) none
  | text {e : Extent} {t : String} :
      Says .expression (.atom e (.text t)) (.str [.atom e (.text t)]) none
  | word {e : Extent} {w : String} {kind : Kind Form} (h : wordKind? w = some kind) :
      Says .expression (.atom e (.symbol w)) kind none
  | tagged {f : Form} {tag : String} {args : List Form} {t : Tag} {kind : Kind Form}
      {b : Option Binding} (hf : f.Tagged tag args) (ht : Tag.ofSymbol? tag = some t)
      (h : Phrase t args kind b) : Says .expression f kind b
  | content {e : Extent} {t : String} : Says .part (.atom e (.text t)) (.content t) none
  | part {f : Form} {kind : Kind Form} {b : Option Binding} (no_text : f.text? = none)
      (h : Says .expression f kind b) : Says .part f kind b
  | varTarget {f n : Form} {tag name : String} {kind : BindingKind} (hf : f.Tagged tag [n])
      (ht : Tag.ofSymbol? tag = some (.varRef kind)) (h : n.Names name) :
      Says .target f (.varTarget name) (some ⟨name, kind⟩)
  | field {f : Form} {tag : String} {args : List Form} {kind : Kind Form} {b : Option Binding}
      (hf : f.Tagged tag args) (ht : Tag.ofSymbol? tag = some .field)
      (h : Phrase .field args kind b) : Says .target f kind b
  | multi {f : Form} {tag : String} {args : List Form} {kind : Kind Form} {b : Option Binding}
      (hf : f.Tagged tag args) (ht : Tag.ofSymbol? tag = some .multi)
      (h : Phrase .multi args kind b) : Says .target f kind b
  | elsif {f : Form} {args : List Form} {kind : Kind Form} {b : Option Binding}
      (hf : f.Tagged "elsif" args) (h : Phrase .elsif args kind b) : Says .alternative f kind b
  | elseThen {f : Form} {args : List Form} {kind : Kind Form} {b : Option Binding}
      (hf : f.Tagged "else" args) (h : Phrase .elseThen args kind b) : Says .alternative f kind b
  | clause {f : Form} {args : List Form} {kind : Kind Form} {b : Option Binding}
      (hf : f.Tagged "when" args) (h : Phrase .whenThen args kind b) : Says .clause f kind b
  /-- The tag of a block is not looked at. -/
  | block {f : Form} {tag : String} {args : List Form} {kind : Kind Form} {b : Option Binding}
      (hf : f.Tagged tag args) (h : Phrase .doBlock args kind b) : Says .block f kind b

/-! ## The forms that a form is about -/

variable {args fs : List Form}

lemma Form.Tagged.tag? {tag : String} {f : Form} (h : f.Tagged tag args) : f.tag? = some tag := by
  cases h
  rfl

lemma Form.CallSays.mem {p b : Option Form} (h : CallSays fs args p b) :
    (∀ c ∈ args, c ∈ fs) ∧ (∀ c, p = some c → ∃ a ∈ fs, c ∈ a.items) ∧
      ∀ c, b = some c → c ∈ fs ∧ c.tag? = some "do-block" := by
  induction h with
  | nil => simp
  | @blockPass f v fs args p b hf _ ih =>
    obtain ⟨hargs, hp, hb⟩ := ih
    refine ⟨fun c hc => .tail _ (hargs c hc), ?_, fun c hc => ⟨.tail _ (hb c hc).1, (hb c hc).2⟩⟩
    intro c hc
    cases p with
    | none =>
      cases hc
      cases hf
      exact ⟨_, .head _, by simp [items]⟩
    | some v' =>
      obtain ⟨a, ha, hc⟩ := hp c hc
      exact ⟨a, .tail _ ha, hc⟩
  | @block f fs args p b hf _ ih =>
    obtain ⟨hargs, hp, hb⟩ := ih
    refine ⟨fun c hc => .tail _ (hargs c hc), ?_, ?_⟩
    · intro c hc
      obtain ⟨a, ha, hc⟩ := hp c hc
      exact ⟨a, .tail _ ha, hc⟩
    · intro c hc
      cases b with
      | none =>
        cases hc
        exact ⟨.head _, hf⟩
      | some b' => exact ⟨.tail _ (hb c hc).1, (hb c hc).2⟩
  | @arg f fs args p b _ _ _ ih =>
    obtain ⟨hargs, hp, hb⟩ := ih
    refine ⟨?_, ?_, fun c hc => ⟨.tail _ (hb c hc).1, (hb c hc).2⟩⟩
    · intro c hc
      rcases List.mem_cons.1 hc with rfl | hc
      · exact .head _
      · exact .tail _ (hargs c hc)
    · intro c hc
      obtain ⟨a, ha, hc⟩ := hp c hc
      exact ⟨a, .tail _ ha, hc⟩

/-- A block that counts stands among the forms of a call. -/
lemma Form.CallSays.sorts {p b : Option Form} (h : CallSays fs args p b) :
    (p.isSome → ∃ g ∈ fs, g.tag? = some "block-pass") ∧
      (b.isSome → ∃ g ∈ fs, g.tag? = some "do-block") := by
  induction h with
  | nil => simp
  | @blockPass f v fs args p b hf _ ih =>
    refine ⟨fun _ => ⟨f, .head _, hf.tag?⟩, fun some_block => ?_⟩
    obtain ⟨g, mem, tag⟩ := ih.2 some_block
    exact ⟨g, .tail _ mem, tag⟩
  | @block f fs args p b hf _ ih =>
    refine ⟨fun some_pass => ?_, fun _ => ⟨f, .head _, hf⟩⟩
    obtain ⟨g, mem, tag⟩ := ih.1 some_pass
    exact ⟨g, .tail _ mem, tag⟩
  | @arg f fs args p b _ _ _ ih =>
    constructor
    · intro some_pass
      obtain ⟨g, mem, tag⟩ := ih.1 some_pass
      exact ⟨g, .tail _ mem, tag⟩
    · intro some_block
      obtain ⟨g, mem, tag⟩ := ih.2 some_block
      exact ⟨g, .tail _ mem, tag⟩

lemma Form.CaseSays.mem {cs : List Form} {o : Option (List Form)} (h : CaseSays fs cs o) :
    (∀ c ∈ cs, c ∈ fs) ∧ ∀ c ∈ o.getD [], ∃ a ∈ fs, c ∈ a.items := by
  induction h with
  | nil => simp
  | @clause f fs cs o _ _ ih =>
    obtain ⟨hcs, ho⟩ := ih
    constructor
    · intro c hc
      rcases List.mem_cons.1 hc with rfl | hc
      · exact .head _
      · exact .tail _ (hcs c hc)
    · intro c hc
      obtain ⟨a, ha, hc⟩ := ho c hc
      exact ⟨a, .tail _ ha, hc⟩
  | @otherwise f body hf =>
    cases hf
    refine ⟨by simp, fun c hc => ⟨_, .head _, .tail _ hc⟩⟩

section

variable {slot : Slot} {f : Form} {said : Kind Form} {b : Option Binding}

/-- The forms that a form with a tag is about stand behind the tag, or in a list there. -/
lemma Phrase.mem {t : Tag} (h : Phrase t args said b) {c : Form} (hc : c ∈ said.children) :
    c ∈ args ∨ ∃ a ∈ args, c ∈ a.items := by
  have group : ∀ {a : Form} {tag : String} {fs : List Form}, a.Tagged tag fs → ∀ c ∈ fs,
      c ∈ a.items := by
    rintro _ tag fs ⟨⟩ c hc
    exact .tail _ hc
  cases h <;>
    simp only [Kind.children, Kind.fields, Kind.inRole, List.map_append, List.map_cons,
      List.map_map, List.mem_append, List.mem_cons, List.mem_map, List.map_nil, List.not_mem_nil,
      Function.comp_apply, exists_eq_right, or_false, Option.mem_toList] at hc ⊢
  case guarded hb => exact Or.inr ⟨_, rfl, group hb c (by simpa using hc)⟩
  all_goals grind [Form.CallSays.mem, Form.CaseSays.mem, Form.receiver?]

/-- A quoted text is about itself, if it is not the content of another. -/
lemma Says.of_text {t : String} (h : Says slot f said b) (text : f.text? = some t) :
    said = .str [f] ∨ said = .content t := by
  cases h with
  | integer | float | word => cases text
  | text => exact Or.inl rfl
  | content =>
    cases text
    exact Or.inr rfl
  | part no_text =>
    rw [text] at no_text
    cases no_text
  | tagged hf | varTarget hf | field hf | multi hf | elsif hf | elseThen hf | clause hf | block hf =>
    cases hf
    cases text

/-- All other forms are about forms inside of them. -/
lemma Says.holds (h : Says slot f said b) (no_text : f.text? = none) {c : Form}
    (hc : c ∈ said.children) : f.Holds c := by
  have behind : ∀ {tag args t}, f.Tagged tag args → Phrase t args said b → f.Holds c := by
    rintro tag args t ⟨⟩ phrase
    rcases phrase.mem hc with mem | ⟨a, ha, mem⟩
    · exact .item (.tail _ mem)
    · exact .inner (g := a) (.tail _ ha) (.item mem)
  induction h with
  | integer | float | content | varTarget => cases hc
  | text => cases no_text
  | word h =>
    unfold wordKind? at h
    split at h <;> cases h <;> cases hc
  | part _ _ ih => exact ih no_text hc behind
  | tagged hf _ phrase | field hf _ phrase | multi hf _ phrase | elsif hf phrase
    | elseThen hf phrase | clause hf phrase | block hf phrase => exact behind hf phrase

lemma Says.mem (h : Says slot f said b) {c : Form} (hc : c ∈ said.children) :
    c = f ∨ f.Holds c := by
  cases text : f.text? with
  | none => exact Or.inr (h.holds text hc)
  | some t =>
    left
    rcases h.of_text text with rfl | rfl
    · simpa [Kind.children, Kind.fields, Kind.inRole] using hc
    · cases hc

end

/-! ## Programs -/

/-- The form of a scope. -/
inductive ScopeSays : Form → Scope → Prop where
  | plain {f n : Form} {self : String} (hf : f.Tagged "scope" [n]) (hn : n.Names self) :
      ScopeSays f ⟨.selfRef self, none⟩
  | method {f n d m : Form} {self name : String} {ps : List Form} {params : List Parameter}
      (hf : f.Tagged "scope" [n, d]) (hn : n.Names self) (hd : d.Tagged "def" (m :: ps))
      (hm : m.Names name) (h : List.Forall₂ Declares ps params) :
      ScopeSays f ⟨.selfRef self, some ⟨name, params⟩⟩

/-- The statements of a program and its scope: a `program` form with or without a scope, or a bare
expression. -/
inductive ProgramSays (main : Scope) : Form → List Form → Scope → Prop where
  | withScope {f h : Form} {fs : List Form} {scope : Scope} (hf : f.Tagged "program" (h :: fs))
      (hs : ScopeSays h scope) : ProgramSays main f fs scope
  | plain {f : Form} {fs : List Form} (hf : f.Tagged "program" fs)
      (no_scope : ∀ h ∈ fs.head?, h.tag? ≠ some "scope") : ProgramSays main f fs main
  | bare {f : Form} (other : f.tag? ≠ some "program") : ProgramSays main f [f] main

lemma ProgramSays.mem {main scope : Scope} {f g : Form} (h : ProgramSays main f fs scope)
    (hg : g ∈ fs) : g = f ∨ f.Holds g := by
  cases h with
  | withScope hf _ =>
    cases hf
    exact Or.inr (.item (.tail _ (.tail _ hg)))
  | plain hf _ =>
    cases hf
    exact Or.inr (.item (.tail _ hg))
  | bare => exact Or.inl (List.mem_singleton.1 hg)

/-! ## Readers of slots -/

/-- The reader of a slot. -/
def Reading.inSlot (s : Setting) (slot : Slot) (f : Form) : Reader Node :=
  match slot with
  | .expression => expression s f
  | .part =>
    match f.text? with
    | some t => make s f.extent (.content t)
    | none => expression s f
  | .target => target s f
  | .alternative => alternative s f
  | .clause =>
    if f.tag? = some "when" then whenClause s f else failAt s f.extent .caseClause
  | .block => block s f

/-- A node that reading a form in a slot gives. -/
def Reads (s : Setting) (slot : Slot) (f : Form) (n : Node) : Prop :=
  ∃ k k', (Reading.inSlot s slot f).Gets k n k'

/-- A node at the place of a form that says what the form says, with children that were read from the
forms that the form holds. -/
structure Built (s : Setting) (e : Extent) (said : Kind Form) (b : Option Binding) (n : Node) :
    Prop where
  info : ∃ id, n.info = s.info e b id
  kind : Kind.Rel (fun role => Reads s role.slot) said n.kind

end ControlFlow
