import ControlFlow.Proofs.Form.Forms
import ControlFlow.Proofs.Reading.Agrees
import ControlFlow.Proofs.Reading.Reads
import ControlFlow.Proofs.Syntax.Tree
/-!
# Tags decide kinds

The tag of a form decides the kind of the node that is read from it. There is one exception: the block
of a `zsuper` is read whatever its tag is.
-/

namespace ControlFlow

/-! ## Tags of kinds -/

/-- The tags of variables of a kind. -/
def BindingKind.formTags : BindingKind → List String
  | .localVar => ["lvar"]
  | .instanceVar => ["ivar"]
  | .globalVar => ["gvar"]
  | .constant => ["const"]
  | .selfRef | .temporary => []

/-- The tags of constants. -/
def Constant.formTags : Constant → List String
  | .nil => ["nil"]
  | .bool true => ["true"]
  | .bool false => ["false"]
  | .integer _ => ["int"]
  | .float _ => ["float"]
  | .str _ => ["char"]
  | .symbol _ => ["sym", "label"]

/-- The tags of the forms that stand for a node: most kinds have a tag of their own. -/
def Kind.formTags {α : Type} (b : Option Binding) : Kind α → List String
  | .literal value => value.formTags
  | .content _ => []
  | .varRef _ => b.elim ["vcall"] (·.kind.formTags)
  | .varTarget _ => b.elim [] (·.kind.formTags)
  | .returnWith [] => ["return", "return0"]
  | k => [k.tag]

/-- The tags of the forms that stand for a node. -/
def Node.formTags (n : Node) : List String := n.kind.formTags n.info.binding

/-- The kinds of nodes that a slot is for. -/
def Slot.Admits {α : Type} : Slot → Kind α → Prop
  | .expression, .program _ | .expression, .content _ | .expression, .varTarget _ => False
  | .expression, _ => True
  | .part, .program _ | .part, .varTarget _ => False
  | .part, _ => True
  | .target, .varTarget _ | .target, .fieldTarget _ _ | .target, .multiTarget _ => True
  | .target, _ => False
  | .alternative, .elsif _ _ _ | .alternative, .elseThen _ => True
  | .alternative, _ => False
  | .clause, .whenThen _ _ => True
  | .clause, _ => False
  | .block, .doBlock _ _ => True
  | .block, _ => False

/-- The symbols that spell a tag. -/
def Tag.symbols : Tag → List String
  | .constant value => value.formTags
  | .int => ["int"]
  | .float => ["float"]
  | .symbol => ["sym", "label"]
  | .char => ["char"]
  | .str => ["str"]
  | .command => ["xstr"]
  | .regexp => ["regexp"]
  | .embed => ["embed"]
  | .array => ["array"]
  | .splat => ["splat"]
  | .void => ["void"]
  | .selfRef => ["self"]
  | .begin => ["begin"]
  | .paren => ["paren"]
  | .guarded => ["bodystmt"]
  | .varRef kind => kind.formTags
  | .vcall => ["vcall"]
  | .field => ["field"]
  | .multi => ["mlhs"]
  | .assign => ["assign"]
  | .opAssign => ["opassign"]
  | .binary => ["binary"]
  | .unary => ["unary"]
  | .ifThen => ["if"]
  | .elsif => ["elsif"]
  | .elseThen => ["else"]
  | .unlessThen => ["unless"]
  | .ifMod => ["if-mod"]
  | .unlessMod => ["unless-mod"]
  | .loop .whileTrue => ["while"]
  | .loop .untilTrue => ["until"]
  | .loopMod .whileTrue => ["while-mod"]
  | .loopMod .untilTrue => ["until-mod"]
  | .forIn => ["for"]
  | .case => ["case"]
  | .whenThen => ["when"]
  | .returnWith => ["return"]
  | .returnNothing => ["return0"]
  | .breakWith => ["break"]
  | .nextWith => ["next"]
  | .redo => ["redo"]
  | .call => ["call"]
  | .doBlock => ["do-block"]
  | .super => ["super"]
  | .zsuper => ["zsuper"]

variable {args : List Form} {t : Tag}

lemma Tag.mem_symbols {w : String} (h : Tag.ofSymbol? w = some t) : w ∈ t.symbols := by
  unfold Tag.ofSymbol? at h
  split at h
  · rename_i kind hk
    cases h
    unfold Tag.variableKind? at hk
    split at hk <;> cases hk <;> decide
  · split at h <;> cases h <;> decide

/-- A tag that says something spells the kind of it. -/
lemma Phrase.symbols_subset {said : Kind Form} {b : Option Binding} (h : Phrase t args said b) :
    t.symbols ⊆ said.formTags b := by
  cases h with
  | @int f value number =>
    unfold Reading.number? at number
    split at number <;> cases number
    exact List.Subset.refl _
  | @float f value number =>
    unfold Reading.number? at number
    split at number <;> cases number <;> exact List.Subset.refl _
  | returnWith =>
    cases args with
    | nil => decide
    | cons f fs => exact List.Subset.refl _
  | returnNothing => decide
  | @loop sense c fs => cases sense <;> exact List.Subset.refl _
  | @loopMod sense c fs => cases sense <;> exact List.Subset.refl _
  | _ => exact List.Subset.refl _

/-- Related kinds have the same tags. -/
lemma Kind.Rel.formTags {α β : Type} {R : Role → α → β → Prop} {k : Kind α} {l : Kind β}
    (h : Kind.Rel R k l) (b : Option Binding) : k.formTags b = l.formTags b := by
  cases h with
  | returnWith args => cases args <;> rfl
  | @loop _ _ _ _ sense => cases sense <;> rfl
  | @loopMod _ _ _ _ sense => cases sense <;> rfl
  | _ => rfl

/-! ## Forms in slots -/

section

variable {slot : Slot} {f : Form} {said : Kind Form} {b : Option Binding}

/-- Behind a tag stands no root, no text of a string and no target. -/
lemma Phrase.admits (h : Phrase t args said b) : Slot.expression.Admits said := by
  cases h <;> trivial

/-- A form says something that its slot is for. -/
lemma Says.admits (h : Says slot f said b) : slot.Admits said := by
  induction h with
  | word h =>
    unfold wordKind? at h
    split at h <;> cases h <;> trivial
  | tagged _ _ h => exact h.admits
  | @part f kind b _ _ ih => cases kind <;> trivial
  | field _ _ h => cases h; trivial
  | multi _ _ h => cases h; trivial
  | elsif _ h => cases h; trivial
  | elseThen _ h => cases h; trivial
  | clause _ h => cases h; trivial
  | block _ h => cases h; trivial
  | _ => trivial

/-- The tag of a form is a tag of what the form says, except in the slot of a block. -/
lemma Says.tag_mem {tag : String} (h : Says slot f said b) (hf : f.Tagged tag args)
    (no_block : slot ≠ .block) : tag ∈ said.formTags b := by
  have symbols : ∀ {t : Tag}, Tag.ofSymbol? tag = some t → Phrase t args said b →
      tag ∈ said.formTags b := fun ht phrase => phrase.symbols_subset (Tag.mem_symbols ht)
  induction h with
  | integer | float | text | word | content => cases hf
  | tagged hf' ht phrase =>
    cases hf
    cases hf'
    exact symbols ht phrase
  | part _ _ ih => exact ih hf (by decide) symbols
  | varTarget hf' ht _ =>
    cases hf
    cases hf'
    exact Tag.mem_symbols ht
  | field hf' ht phrase =>
    cases hf
    cases hf'
    exact symbols ht phrase
  | multi hf' ht phrase =>
    cases hf
    cases hf'
    exact symbols ht phrase
  | elsif hf' phrase =>
    cases hf
    cases hf'
    exact symbols rfl phrase
  | elseThen hf' phrase =>
    cases hf
    cases hf'
    exact symbols rfl phrase
  | clause hf' phrase =>
    cases hf
    cases hf'
    exact symbols rfl phrase
  | block => exact absurd rfl no_block

lemma Says.atom_or_tagged (h : Says slot f said b) :
    (∃ e a, f = .atom e a) ∨ ∃ tag args, f.Tagged tag args := by
  induction h with
  | integer | float | text | word | content => exact Or.inl ⟨_, _, rfl⟩
  | part _ _ ih => exact ih
  | tagged hf | varTarget hf | field hf | multi hf | elsif hf | elseThen hf | clause hf
    | block hf => exact Or.inr ⟨_, _, hf⟩

/-- Only these kinds come from an atom. -/
lemma Says.of_atom {e : Extent} {a : Atom} (h : Says slot (.atom e a) said b) :
    said.tag ∈ ["literal", "str", "string-content", "self"] := by
  generalize hf : Form.atom e a = f at h
  induction h with
  | integer | float | text | content => simp [Kind.tag]
  | word h =>
    unfold wordKind? at h
    split at h <;> cases h <;> simp [Kind.tag]
  | tagged hf' | varTarget hf' | field hf' | multi hf' | elsif hf' | elseThen hf' | clause hf'
    | block hf' =>
    subst hf
    cases hf'
  | part _ _ ih => exact ih hf

/-- The block of a call is a `do-block`. -/
lemma Phrase.block_tag (h : Phrase t args said b) {c : Form} (mem : (.block, c) ∈ said.fields) :
    c.tag? = some "do-block" ∨ ∃ o, said = .zsuper o := by
  cases h with
  | call _ parts | super parts =>
    left
    refine (parts.mem.2.2 c ?_).2
    simpa [Kind.fields] using mem
  | zsuper o => exact Or.inr ⟨o, rfl⟩
  | _ => simp [Kind.fields] at mem

lemma Says.block_tag (h : Says slot f said b) {c : Form} (mem : (.block, c) ∈ said.fields) :
    c.tag? = some "do-block" ∨ ∃ o, said = .zsuper o := by
  induction h with
  | integer | float | content | varTarget | text => simp [Kind.fields] at mem
  | word h =>
    unfold wordKind? at h
    split at h <;> cases h <;> cases mem
  | part _ _ ih => exact ih mem
  | tagged _ _ phrase | field _ _ phrase | multi _ _ phrase | elsif _ phrase
    | elseThen _ phrase | clause _ phrase | block _ phrase => exact phrase.block_tag mem

end

/-! ## Nodes and their forms -/

/-- A node stands at the place of a form. -/
def Node.At (file : String) (n : Node) (g : Form) : Prop :=
  n.info.span = some (g.extent.span file)

instance (file : String) (n : Node) (g : Form) : Decidable (n.At file g) :=
  inferInstanceAs (Decidable (_ = _))

/-- The kind of a node is the one that its form stands for. -/
inductive Node.Follows (n : Node) : Form → Prop where
  | atom {e : Extent} {a : Atom} (h : n.tag ∈ ["literal", "str", "string-content", "self"]) :
      Follows n (.atom e a)
  | list {g : Form} {tag : String} {args : List Form} (hg : g.Tagged tag args)
      (h : tag ∈ n.formTags) : Follows n g

lemma Extent.span_start_inj {file : String} {e e' : Extent} (h : e.span file = e'.span file) :
    e.start = e'.start := by
  obtain ⟨⟨l, c⟩, stop⟩ := e
  obtain ⟨⟨l', c'⟩, stop'⟩ := e'
  simp only [span, Span.ofPositions, Location.ofPosition, Span.mk.injEq, Location.mk.injEq] at h
  simp [h.1.2.1, h.1.2.2]

section

variable {s : Setting} {slot : Slot} {f : Form} {n : Node}

variable (h : Reads s slot f n)

include h

lemma Reads.at : n.At s.file f := by
  obtain ⟨said, b, -, built⟩ := h.view
  obtain ⟨id, info⟩ := built.info
  rw [Node.At, info]
  rfl

/-- A node that was read follows its form, unless it is a block with another tag. -/
lemma Reads.follows (block : slot = .block → f.tag? = some "do-block") : n.Follows f := by
  obtain ⟨said, b, means, built⟩ := h.view
  obtain ⟨id, info⟩ := built.info
  have tags : n.formTags = said.formTags b := by
    rw [Node.formTags, info, built.kind.formTags]
    rfl
  by_cases no_block : slot = .block
  · subst no_block
    obtain ⟨args, tagged⟩ := Reading.tagged_of_tag? (block rfl)
    refine .list tagged ?_
    rw [tags]
    cases means with
    | block _ phrase =>
      cases phrase
      exact .head _
  · rcases means.atom_or_tagged with ⟨e, a, rfl⟩ | ⟨tag, args, tagged⟩
    · refine .atom ?_
      rw [Node.tag, ← built.kind.tag]
      exact means.of_atom
    · refine .list tagged ?_
      rw [tags]
      exact means.tag_mem tagged no_block

/-- The child of a node was read from a form that the form of the node is about. -/
lemma Reads.child {role : Role} {c : Node} (mem : (role, c) ∈ n.kind.fields) :
    ∃ said b g, Says slot f said b ∧ Kind.Rel (fun role => Reads s role.slot) said n.kind ∧
      (role, g) ∈ said.fields ∧ Reads s role.slot g c := by
  obtain ⟨said, b, means, built⟩ := h.view
  obtain ⟨g, hg, read⟩ := built.kind.field_right mem
  exact ⟨said, b, g, means, built.kind, hg, read⟩

/-- Each node of a tree was read from a form of the text. -/
lemma Reads.below {d : Node} (hd : n.Holds d) :
    ∃ slot' g, (g = f ∨ f.Holds g) ∧ Reads s slot' g d := by
  induction hd generalizing f slot with
  | @child info kind c mem =>
    obtain ⟨role, mem⟩ := Kind.mem_children.1 mem
    obtain ⟨said, b, g, means, -, hg, read⟩ := h.child mem
    exact ⟨role.slot, g, means.mem (Kind.mem_children.2 ⟨role, hg⟩), read⟩
  | @inner info kind c d mem _ ih =>
    obtain ⟨role, mem⟩ := Kind.mem_children.1 mem
    obtain ⟨said, b, g, means, -, hg, read⟩ := h.child mem
    obtain ⟨slot', g', inside, read'⟩ := ih read
    refine ⟨slot', g', ?_, read'⟩
    rcases means.mem (Kind.mem_children.2 ⟨role, hg⟩) with rfl | holds
    · exact inside
    · rcases inside with rfl | inside
      · exact Or.inr holds
      · exact Or.inr (holds.trans inside)

/-- The form of a block is a `do-block`, except in a `zsuper`. -/
lemma Reads.block_tag {role : Role} {c : Node} (mem : (role, c) ∈ n.kind.fields) :
    ∃ g, (g = f ∨ f.Holds g) ∧ Reads s role.slot g c ∧
      (role = .block → g.tag? = some "do-block" ∨ ∃ o, n.kind = .zsuper o) := by
  obtain ⟨said, b, g, means, rel, hg, read⟩ := h.child mem
  refine ⟨g, means.mem (Kind.mem_children.2 ⟨role, hg⟩), read, ?_⟩
  rintro rfl
  rcases means.block_tag hg with tag | ⟨o, rfl⟩
  · exact Or.inl tag
  · generalize n.kind = kind at rel
    cases rel
    exact Or.inr ⟨_, rfl⟩

end

/-! ## Texts -/

namespace Reading

variable {host : Host} {options : Options} {source : Source} {root : Node}

/-- The nodes of a tree that was read, each with its form. -/
lemma read_nodes (h : read host options source = .ok root) : ∃ f s ns,
    forms source.name source.content = .ok [f] ∧ s.file = source.name ∧
      root.kind = .program ns ∧ root.At source.name f ∧
      (f.tag? = some "program" ∨ ∃ n, ns = [n] ∧ n.At source.name f) ∧
      (∀ n ∈ ns, ∃ g, (g = f ∨ f.Holds g) ∧ Reads s .expression g n) ∧
      ∀ n, root.Holds n → ∃ slot g, (g = f ∨ f.Holds g) ∧ Reads s slot g n := by
  obtain ⟨f, k, read_forms, h⟩ := read_ok h
  obtain ⟨fs, scope, ns, id, program, rfl, reads⟩ := gets_program h
  have statement : ∀ n ∈ ns, ∃ g, (g = f ∨ f.Holds g) ∧
      Reads { file := source.name, scope } .expression g n := by
    intro n hn
    have related : Kind.Rel (fun role => Reads { file := source.name, scope } role.slot)
        (.program fs) (.program ns) := .program reads
    have mem : (Role.body, n) ∈ (Kind.program ns).fields := by simpa [Kind.fields] using hn
    obtain ⟨g, hg, read⟩ := related.field_right mem
    refine ⟨g, program.mem ?_, read⟩
    simpa [Kind.fields] using hg
  refine ⟨f, { file := source.name, scope }, ns, read_forms, rfl, rfl, rfl, ?_, statement, ?_⟩
  · cases program with
    | withScope hf | plain hf =>
      cases hf
      exact Or.inl rfl
    | bare =>
      cases reads with
      | cons head tail =>
        cases tail
        exact Or.inr ⟨_, rfl, head.at⟩
  · intro n hn
    have child : ∀ c ∈ (Kind.program ns).children, c ∈ ns := by
      intro c hc
      simpa [Kind.children, Kind.fields, Kind.inRole] using hc
    cases hn with
    | child mem =>
      obtain ⟨g, hg, read⟩ := statement n (child n mem)
      exact ⟨_, g, hg, read⟩
    | inner mem below =>
      obtain ⟨g, hg, read⟩ := statement _ (child _ mem)
      obtain ⟨slot, g', hg', read'⟩ := read.below below
      refine ⟨slot, g', ?_, read'⟩
      rcases hg' with rfl | hg'
      · exact hg
      · rcases hg with rfl | hg
        · exact Or.inr hg'
        · exact Or.inr (hg.trans hg')

lemma agrees_inSlot (s : Setting) (slot : Slot) (f : Form) :
    (inSlot s slot f).Agrees Node.Alike (inSlot s slot f) := by
  have all : Agreed s.file s.file s.scope f f := agreed _ _ _ rfl
  cases slot with
  | expression => exact all.expression
  | part =>
    rw [inSlot]
    split
    · exact agrees_make .content
    · exact all.expression
  | target => exact all.target
  | alternative => exact all.alternative
  | clause =>
    rw [inSlot]
    split
    · exact all.whenClause
    · exact .failAt rfl rfl
  | block => exact all.block

/-- A form is refused if its tag stands for no kind that its slot is for. -/
lemma inSlot_misplaced (s : Setting) {slot : Slot} {f : Form} {tag : String}
    (no_block : slot ≠ .block) (hf : f.Tagged tag args)
    (misplaced : ∀ (kind : Kind Form) b, slot.Admits kind → tag ∉ kind.formTags b) (k : Nat) :
    ∃ err, (inSlot s slot f).run k = .error err ∧ err.fault.kind = .unknownForm := by
  cases hr : (inSlot s slot f).run k with
  | error err => exact ⟨err, rfl, (agrees_inSlot s slot f).kind_of_error hr⟩
  | ok r =>
    have read : Reads s slot f r.1 := ⟨k, r.2, hr⟩
    obtain ⟨said, b, means, -⟩ := read.view
    exact absurd (means.tag_mem hf no_block) (misplaced said b means.admits)

/-- **The tag of a form decides the kind of its node, except for the block of a `zsuper`.** The root of
the tree of an accepted text is its `program` form, or stands around the node of another form. Each
other node was read from a form of the text, in the slot of its role. If any form of the text has the
place of a node, then the node is of the kind that the form stands for, or it is the block of a
`zsuper`. A text whose forms do not make a tree is refused for a fault of a form, and so is each form in
a slot that is for no kind that its tag stands for. -/
theorem tag_decides_kind (host : Host) (options : Options) (source : Source) :
    (∀ root, read host options source = .ok root →
      ∃ f ns, forms source.name source.content = .ok [f] ∧
        root.kind = .program ns ∧ root.At source.name f ∧
        (f.tag? = some "program" ∨ ∃ n, ns = [n] ∧ n.At source.name f) ∧
        ∀ parent role n, (parent = root ∨ root.Holds parent) → (role, n) ∈ parent.kind.fields →
          (∃ s g, s.file = source.name ∧ Form.Among [f] g ∧ n.At source.name g ∧
            Reads s role.slot g n) ∧
          ∀ g, Form.Among [f] g → n.At source.name g →
            n.Follows g ∨ role = .block ∧ ∃ o, parent.kind = .zsuper o) ∧
    (∀ fs err, forms source.name source.content = .ok fs → Reading.root source.name fs = .error err →
      err.fault.kind = .unknownForm) ∧
    ∀ s slot f tag args k, slot ≠ .block → f.Tagged tag args →
      (∀ (kind : Kind Form) b, slot.Admits kind → tag ∉ kind.formTags b) →
      ∃ err, (inSlot s slot f).run k = .error err ∧ err.fault.kind = .unknownForm := by
  refine ⟨?_, fun fs err _ h => root_error h, ?_⟩
  · intro root h
    obtain ⟨f, s, ns, read_forms, file, kind, place, bare, statement, below⟩ := read_nodes h
    obtain ⟨q, placed⟩ := Grammar.placed_of_forms read_forms
    have among : ∀ {g}, g = f ∨ f.Holds g → Form.Among [f] g := by
      rintro g (rfl | holds)
      · exact Or.inl (.head _)
      · exact Or.inr ⟨f, .head _, holds⟩
    refine ⟨f, ns, read_forms, kind, place, bare, fun parent role n inside mem => ?_⟩
    -- the form that the node was read from
    obtain ⟨g, hg, read, block⟩ : ∃ g, (g = f ∨ f.Holds g) ∧ Reads s role.slot g n ∧
        (role = .block → g.tag? = some "do-block" ∨ ∃ o, parent.kind = .zsuper o) := by
      rcases inside with rfl | inside
      · simp only [kind, Kind.fields, Kind.mem_inRole] at mem
        obtain ⟨rfl, mem⟩ := mem
        obtain ⟨g, hg, read⟩ := statement n mem
        refine ⟨g, hg, read, ?_⟩
        rintro ⟨⟩
      · obtain ⟨slot, g', hg', read'⟩ := below parent inside
        obtain ⟨g, hg, read, block⟩ := read'.block_tag mem
        refine ⟨g, ?_, read, block⟩
        rcases hg with rfl | hg
        · exact hg'
        · rcases hg' with rfl | hg'
          · exact Or.inr hg
          · exact Or.inr (hg'.trans hg)
    have own : n.At source.name g := file ▸ read.at
    refine ⟨⟨s, g, file, among hg, own, read⟩, fun g' hg' own' => ?_⟩
    -- no other form stands at the same place
    obtain rfl : g' = g := by
      have spans : g'.extent.span source.name = g.extent.span source.name :=
        Option.mem_unique own' own
      exact placed.unique hg' (among hg) (Extent.span_start_inj spans)
    by_cases role_block : role = .block
    · rcases block role_block with tag | zsuper
      · exact Or.inl (read.follows fun _ => tag)
      · exact Or.inr ⟨role_block, zsuper⟩
    · refine Or.inl (read.follows fun slot => ?_)
      cases role <;> first | exact absurd rfl role_block | cases slot
  · intro s slot f tag args k no_block hf misplaced
    exact inSlot_misplaced s no_block hf misplaced k

/-- The block of this text has a tag that stands for nothing. -/
def oddBlock : Source := ⟨"odd", none, "(zsuper (foo (params)))"⟩

/-- The form of that block. -/
def oddBlockForm : Form :=
  .list ⟨⟨1, 9⟩, ⟨1, 23⟩⟩ [.atom ⟨⟨1, 10⟩, ⟨1, 13⟩⟩ (.symbol "foo"),
    .list ⟨⟨1, 14⟩, ⟨1, 22⟩⟩ [.atom ⟨⟨1, 15⟩, ⟨1, 21⟩⟩ (.symbol "params")]]

theorem zsuper_block_any_tag : ∃ root n f,
    read .generous {} oddBlock = .ok root ∧ forms oddBlock.name oddBlock.content = .ok [f] ∧
      f.Holds oddBlockForm ∧ root.Holds n ∧ n.At oddBlock.name oddBlockForm ∧
      n.tag = "do-block" ∧ oddBlockForm.tag? = some "foo" ∧ "foo" ∉ n.formTags := by
  let f : Form := .list ⟨⟨1, 1⟩, ⟨1, 24⟩⟩ [.atom ⟨⟨1, 2⟩, ⟨1, 8⟩⟩ (.symbol "zsuper"), oddBlockForm]
  have read_forms : forms oddBlock.name oddBlock.content = .ok [f] := by rfl
  have read_root : read .generous {} oddBlock = Reading.root oddBlock.name [f] :=
    read_of_forms (by decide +kernel) (by decide +kernel) (by decide +kernel) read_forms
  obtain ⟨root, hroot, n, holds, place, tag, other⟩ :
      ∃ root, Reading.root oddBlock.name [f] = .ok root ∧ ∃ n, root.Holds n ∧
        n.At oddBlock.name oddBlockForm ∧ n.tag = "do-block" ∧ "foo" ∉ n.formTags :=
    ⟨_, by rfl, _, .inner (.head _) (.child (.head _)), by rfl, by rfl, by decide⟩
  exact ⟨root, n, f, read_root.trans hroot, read_forms, .item (.tail _ (.head _)), holds, place, tag,
    rfl, other⟩

end Reading

end ControlFlow
