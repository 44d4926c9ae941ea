import ControlFlow.Proofs.Reading.Tags
/-!
# Forms that are kept

Each list of an accepted text has a node at its place, or only groups other forms. Three sorts of lists
are lost without an error: what stands behind `void` and `self`, and each block argument of a call that
is followed by another of the same sort.
-/

namespace ControlFlow

variable {i : Nat}

namespace Form

/-- A form that is a list. -/
def IsList (f : Form) : Prop := ∃ e items, f = .list e items

/-- The tags of forms that only group other forms. -/
def groupTags : List String :=
  ["scope", "def", "params", "req", "opt", "rest", "post", "block", "seq", "ensure", "block-pass"]

/-- A form, at an index of the form around it, that only groups other forms: one with such a tag, or
the `else` of an `unless` or a `case`. -/
def Groups (f : Form) (i : Nat) (g : Form) : Prop :=
  (∃ tag ∈ groupTags, g.tag? = some tag) ∨
    g.tag? = some "else" ∧
      (f.tag? = some "unless" ∧ i = 3 ∨ f.tag? = some "case" ∧ 2 ≤ i)

/-- An argument of a call that is a block and is followed by another block of the same sort. -/
def Overwrites (f : Form) (i : Nat) : Prop :=
  (f.tag? = some "call" ∧ 3 ≤ i ∨ f.tag? = some "super" ∧ 1 ≤ i) ∧
    ∃ tag ∈ ["block-pass", "do-block"], f.items[i]?.bind Form.tag? = some tag ∧
      ∃ g ∈ f.items.drop (i + 1), g.tag? = some tag

/-- A form does not use what stands in it at an index. -/
def Drops (f : Form) (i : Nat) : Prop :=
  f.tag? = some "void" ∨ f.tag? = some "self" ∨ f.Overwrites i

instance (f : Form) (i : Nat) (g : Form) : Decidable (f.Groups i g) :=
  inferInstanceAs (Decidable (_ ∨ _))

instance (f : Form) (i : Nat) : Decidable (f.Overwrites i) := inferInstanceAs (Decidable (_ ∧ _))

instance (f : Form) (i : Nat) : Decidable (f.Drops i) := inferInstanceAs (Decidable (_ ∨ _))

/-- A form that is reached without passing through one that is dropped. -/
inductive Kept (root : Form) : Form → Prop where
  | root : Kept root root
  | item {f g : Form} {i : Nat} (above : Kept root f) (mem : f.items[i]? = some g)
      (used : ¬ f.Drops i) : Kept root g

/-! ## Accounts of forms -/

/-- Each list in a form, at any depth, is one of some given forms or lies in one of them, only groups
others, or is dropped. -/
inductive Accounted (kids : List Form) : Form → Prop where
  | mk {f : Form}
      (groups : ∀ i g, f.items[i]? = some g → ¬ f.Drops i → g.IsList → g ∉ kids → f.Groups i g)
      (below : ∀ i g, f.items[i]? = some g → ¬ f.Drops i → g.IsList → g ∉ kids →
        Accounted kids g) : Accounted kids f

/-- What may stand behind any tag: no list, a given form, or a form that groups others. -/
inductive Fine (kids : List Form) : Form → Prop where
  | atom {f : Form} (h : ¬ f.IsList) : Fine kids f
  | kid {f : Form} (h : f ∈ kids) : Fine kids f
  | group {f : Form} {tag : String} (known : tag ∈ groupTags) (h : f.tag? = some tag)
      (inner : Accounted kids f) : Fine kids f

variable {kids args fs : List Form} {f g : Form} {tag : String}

lemma accounted_of (h : ∀ i g, f.items[i]? = some g → ¬ f.Drops i → Fine kids g ∨
    f.Groups i g ∧ Accounted kids g) : Accounted kids f := by
  constructor
  all_goals
    intro i g mem used list outside
    rcases h i g mem used with (no_list | kid | ⟨known, tag, inner⟩) | ⟨groups, inner⟩
  · exact absurd list no_list
  · exact absurd kid outside
  · exact Or.inl ⟨_, known, tag⟩
  · exact groups
  · exact absurd list no_list
  · exact absurd kid outside
  · exact inner
  · exact inner

lemma not_isList_atom {e : Extent} {a : Atom} : ¬ (Form.atom e a).IsList := by
  rintro ⟨_, _, ⟨⟩⟩

lemma Names.fine {name : String} (h : f.Names name) : Fine kids f := by
  cases h <;> exact .atom not_isList_atom

lemma fine_text {t : String} (h : f.text? = some t) : Fine kids f := by
  cases f with
  | atom e a => exact .atom not_isList_atom
  | list e items => cases h

lemma fine_number {t : Tag} {value : Constant} (h : Reading.number? t f = some value) :
    Fine kids f := by
  cases f with
  | atom e a => exact .atom not_isList_atom
  | list e items => cases h

lemma fine_receiver (h : ∀ g, f.receiver? = some g → g ∈ kids) : Fine kids f := by
  by_cases own : f.symbol? = some "_"
  · cases f with
    | atom e a => exact .atom not_isList_atom
    | list e items => cases own
  · exact .kid (h f (if_neg own))

/-- Behind a tag stands what may stand there. -/
lemma Tagged.items (h : f.Tagged tag args) (mem : f.items[i]? = some g) :
    ¬ g.IsList ∨ ∃ j, i = j + 1 ∧ args[j]? = some g := by
  cases h
  cases i with
  | zero =>
    cases mem
    exact Or.inl not_isList_atom
  | succ j => exact Or.inr ⟨j, rfl, mem⟩

lemma Tagged.accounted (h : f.Tagged tag args) (each : ∀ g ∈ args, Fine kids g) :
    Accounted kids f := by
  refine accounted_of fun i g mem _ => Or.inl ?_
  rcases h.items mem with atom | ⟨j, -, mem⟩
  · exact .atom atom
  · exact each g (List.mem_of_getElem? mem)

/-- A group of given forms. -/
lemma Tagged.group (h : f.Tagged tag args) (known : tag ∈ groupTags) (each : ∀ g ∈ args, g ∈ kids) :
    Fine kids f :=
  .group known h.tag? (h.accounted fun g hg => .kid (each g hg))

lemma Declares.fine {p : Parameter} (h : f.Declares p) : Fine kids f := by
  obtain ⟨tag, n, name, kind, hf, known, hn, -⟩ := h
  have group : tag ∈ groupTags := by
    unfold ParameterKind.ofTag? at known
    split at known <;> first | decide | cases known
  exact .group group hf.tag? (hf.accounted (by simpa using hn.fine))

lemma fine_parameters {ps : List Form} {params : List Parameter}
    (h : List.Forall₂ Declares ps params) : ∀ p ∈ ps, Fine kids p := by
  induction h with
  | nil => simp
  | cons head _ ih => exact List.forall_mem_cons.2 ⟨head.fine, ih⟩

/-! ## Calls and cases -/

variable {b : Option Form}

/-- Each form of a call counts, or another of the same sort follows. -/
lemma CallSays.counts {p : Option Form} (h : CallSays fs args p b) (mem : fs[i]? = some g) :
    g ∈ args ∨ b = some g ∨ (∃ v, g.Tagged "block-pass" [v] ∧ p = some v) ∨
      ∃ tag ∈ ["block-pass", "do-block"], g.tag? = some tag ∧
        ∃ j h, i < j ∧ fs[j]? = some h ∧ h.tag? = some tag := by
  induction h generalizing i with
  | nil => cases mem
  | @blockPass f v fs args p b hf rest ih =>
    cases i with
    | zero =>
      cases mem
      cases p with
      | none => exact Or.inr (Or.inr (Or.inl ⟨v, hf, rfl⟩))
      | some v' =>
        obtain ⟨h, mem, tag⟩ := rest.sorts.1 rfl
        obtain ⟨j, mem⟩ := List.mem_iff_getElem?.1 mem
        exact Or.inr (Or.inr (Or.inr ⟨_, .head _, hf.tag?, j + 1, h, by omega, mem, tag⟩))
    | succ i =>
      rcases ih mem with arg | block | ⟨v', hg, rfl⟩ | ⟨tag, known, hg, j, h, lt, mem, hh⟩
      · exact Or.inl arg
      · exact Or.inr (Or.inl block)
      · exact Or.inr (Or.inr (Or.inl ⟨v', hg, rfl⟩))
      · exact Or.inr (Or.inr (Or.inr ⟨tag, known, hg, j + 1, h, by omega, mem, hh⟩))
  | @block f fs args p b hf rest ih =>
    cases i with
    | zero =>
      cases mem
      cases b with
      | none => exact Or.inr (Or.inl rfl)
      | some b' =>
        obtain ⟨h, mem, tag⟩ := rest.sorts.2 rfl
        obtain ⟨j, mem⟩ := List.mem_iff_getElem?.1 mem
        exact Or.inr (Or.inr (Or.inr ⟨_, .tail _ (.head _), hf, j + 1, h, by omega, mem, tag⟩))
    | succ i =>
      rcases ih mem with arg | rfl | pass | ⟨tag, known, hg, j, h, lt, mem, hh⟩
      · exact Or.inl arg
      · exact Or.inr (Or.inl rfl)
      · exact Or.inr (Or.inr (Or.inl pass))
      · exact Or.inr (Or.inr (Or.inr ⟨tag, known, hg, j + 1, h, by omega, mem, hh⟩))
  | @arg f fs args p b _ _ _ ih =>
    cases i with
    | zero =>
      cases mem
      exact Or.inl (.head _)
    | succ i =>
      rcases ih mem with arg | block | pass | ⟨tag, known, hg, j, h, lt, mem, hh⟩
      · exact Or.inl (.tail _ arg)
      · exact Or.inr (Or.inl block)
      · exact Or.inr (Or.inr (Or.inl pass))
      · exact Or.inr (Or.inr (Or.inr ⟨tag, known, hg, j + 1, h, by omega, mem, hh⟩))

/-- The arguments of a call, which start at an index. -/
lemma CallSays.fine {p : Option Form} (h : CallSays fs args p b) (hargs : ∀ g ∈ args, g ∈ kids)
    (hp : ∀ g, p = some g → g ∈ kids) (hb : ∀ g, b = some g → g ∈ kids) {k : Nat}
    (from_here : ∀ j, f.items[j + k]? = fs[j]?)
    (call : f.tag? = some "call" ∧ 3 ≤ k ∨ f.tag? = some "super" ∧ 1 ≤ k) (mem : fs[i]? = some g)
    (used : ¬ f.Drops (i + k)) : Fine kids g := by
  rcases h.counts mem with arg | block | ⟨v, hg, pass⟩ | ⟨tag, known, hg, j, h, lt, mem', hh⟩
  · exact .kid (hargs g arg)
  · exact .kid (hb g block)
  · exact hg.group (by decide) (by simpa using hp v pass)
  · refine absurd (Or.inr (Or.inr ⟨?_, tag, known, ?_, h, ?_, hh⟩)) used
    · exact call.imp (fun h => ⟨h.1, by omega⟩) fun h => ⟨h.1, by omega⟩
    · rw [from_here, mem]
      exact hg
    · refine List.mem_iff_getElem?.2 ⟨j - i - 1, ?_⟩
      rw [List.getElem?_drop, ← mem', ← from_here]
      congr 1
      omega

lemma CaseSays.fine {cs : List Form} {o : Option (List Form)} (h : CaseSays fs cs o)
    (hcs : ∀ g ∈ cs, g ∈ kids) (ho : ∀ g ∈ o.getD [], g ∈ kids) (mem : g ∈ fs) :
    Fine kids g ∨ g.tag? = some "else" ∧ Accounted kids g := by
  induction h with
  | nil => cases mem
  | @clause f fs cs o _ _ ih =>
    rcases List.mem_cons.1 mem with rfl | mem
    · exact Or.inl (.kid (hcs _ (.head _)))
    · exact ih (fun g hg => hcs g (.tail _ hg)) ho mem
  | @otherwise f body hf =>
    obtain rfl := List.mem_singleton.1 mem
    exact Or.inr ⟨hf.tag?, hf.accounted fun g hg => .kid (ho g hg)⟩

end Form

/-! ## What forms say accounts for them -/

open Form

section

attribute [local simp] Kind.fields Kind.children

variable {said : Kind Form} {b : Option Binding} {f : Form} {args kids : List Form}

lemma Phrase.accounted_block {tag : String} (hf : f.Tagged tag args)
    (h : Phrase .doBlock args said b) : Accounted said.children f := by
  cases h with
  | doBlock hp declared =>
    refine hf.accounted (List.forall_mem_cons.2 ⟨?_, fun g hg => .kid ?_⟩)
    · exact .group (by decide) hp.tag? (hp.accounted (fine_parameters declared))
    · simpa using hg

/-- What a tag says is about all lists behind it. -/
lemma Phrase.accounted {tag : String} {t : Tag} (hf : f.Tagged tag args)
    (ht : Tag.ofSymbol? tag = some t) (h : Phrase t args said b) : Accounted said.children f := by
  have spelled : ∀ {w}, t.symbols = [w] → f.tag? = some w := by
    intro w hw
    have mem := Tag.mem_symbols ht
    rw [hw, List.mem_singleton] at mem
    rw [← mem]
    exact hf.tag?
  have behind : ∀ j, f.items[j + 1]? = args[j]? := by
    cases hf
    exact fun _ => rfl
  have kids : (∀ g ∈ args, g ∈ said.children) → Accounted said.children f :=
    fun each => hf.accounted fun g hg => .kid (each g hg)
  -- what stands behind a tag is a child, a word or number, or a group of children
  cases h with
  | void => exact accounted_of fun i g _ used => absurd (Or.inl (spelled rfl)) used
  | selfRef => exact accounted_of fun i g _ used => absurd (Or.inr (Or.inl (spelled rfl))) used
  | varRef hn | symbol hn | vcall hn => exact hf.accounted (by simpa using hn.fine)
  | char text => exact hf.accounted (by simpa using fine_text text)
  | int number | float number => exact hf.accounted (by simpa using fine_number number)
  | regexp options =>
    refine hf.accounted (List.forall_mem_cons.2 ⟨fine_text options, fun g hg => .kid ?_⟩)
    simpa using hg
  | guarded hb =>
    refine hf.accounted (List.forall_mem_singleton.2 (hb.group (by decide) fun g hg => ?_))
    simpa using hg
  | ensured hb hc =>
    refine hf.accounted (List.forall_mem_cons.2 ⟨hb.group (by decide) fun g hg => ?_,
      List.forall_mem_singleton.2 (hc.group (by decide) fun g hg => ?_)⟩)
    · simp [hg]
    · simp [hg]
  | field hn =>
    exact hf.accounted (List.forall_mem_cons.2 ⟨.kid (.head _),
      List.forall_mem_singleton.2 hn.fine⟩)
  | opAssign hw | binary hw =>
    exact hf.accounted (List.forall_mem_cons.2 ⟨.kid (.head _), List.forall_mem_cons.2 ⟨hw.fine,
      List.forall_mem_singleton.2 (.kid (.tail _ (.head _)))⟩⟩)
  | unary hw =>
    exact hf.accounted (List.forall_mem_cons.2 ⟨hw.fine,
      List.forall_mem_singleton.2 (.kid (.head _))⟩)
  | ifThen a hb | elsif a hb =>
    refine hf.accounted (List.forall_mem_cons.2 ⟨.kid (.head _), List.forall_mem_cons.2
      ⟨hb.group (by decide) fun g hg => ?_, fun g hg => .kid ?_⟩⟩)
    · simp [hg]
    · simp [Option.mem_toList.1 hg]
  | unlessThen hb =>
    refine hf.accounted (List.forall_mem_cons.2 ⟨.kid (.head _),
      List.forall_mem_singleton.2 (hb.group (by decide) fun g hg => ?_)⟩)
    simp [hg]
  | @unlessElse c b a body other hb ha =>
    refine accounted_of fun i g mem _ => ?_
    have inBody : ∀ g ∈ body, g ∈ (Kind.unlessThen c body (some other)).children := by
      intro g hg
      simp [hg]
    have inOther : ∀ g ∈ other, g ∈ (Kind.unlessThen c body (some other)).children := by
      intro g hg
      simp [hg]
    rcases hf.items mem with atom | ⟨j, rfl, arg⟩
    · exact Or.inl (.atom atom)
    · rcases j with _ | _ | _ | j
      · cases arg
        exact Or.inl (.kid (.head _))
      · cases arg
        exact Or.inl (hb.group (by decide) inBody)
      · cases arg
        exact Or.inr ⟨Or.inr ⟨ha.tag?, Or.inl ⟨spelled rfl, rfl⟩⟩,
          ha.accounted fun g hg => .kid (inOther g hg)⟩
      · cases arg
  | @case subject fs cs o hc =>
    refine accounted_of fun i g mem _ => ?_
    rcases hf.items mem with atom | ⟨j, rfl, arg⟩
    · exact Or.inl (.atom atom)
    · rcases j with _ | j
      · cases arg
        exact Or.inl (.kid (.head _))
      · have inCase : Fine (Kind.case subject cs o).children g ∨ g.tag? = some "else" ∧
            Accounted (Kind.case subject cs o).children g := by
          refine hc.fine ?_ ?_ (List.mem_of_getElem? arg)
          all_goals
            intro g hg
            simp [hg]
        refine inCase.imp_right ?_
        rintro ⟨tag, inner⟩
        exact ⟨Or.inr ⟨tag, Or.inr ⟨spelled rfl, by omega⟩⟩, inner⟩
  | whenThen hc =>
    refine hf.accounted (List.forall_mem_cons.2 ⟨hc.group (by decide) fun g hg => ?_,
      fun g hg => .kid ?_⟩)
    · simp [hg]
    · simp [hg]
  | @call r m method fs args p b hm hp =>
    refine accounted_of fun i g mem used => Or.inl ?_
    rcases hf.items mem with atom | ⟨j, rfl, arg⟩
    · exact .atom atom
    · rcases j with _ | _ | j
      · cases arg
        exact fine_receiver fun g hg => by simp [hg]
      · cases arg
        exact hm.fine
      · refine hp.fine ?_ ?_ ?_ (fun j => behind (j + 2)) (Or.inl ⟨spelled rfl, le_rfl⟩) arg used
        all_goals
          intro g hg
          simp [hg]
  | super hp =>
    refine accounted_of fun i g mem used => Or.inl ?_
    rcases hf.items mem with atom | ⟨j, rfl, arg⟩
    · exact .atom atom
    · refine hp.fine ?_ ?_ ?_ behind (Or.inr ⟨spelled rfl, le_rfl⟩) arg used
      all_goals
        intro g hg
        simp [hg]
  | doBlock hp declared => exact (Phrase.doBlock hp declared).accounted_block hf
  | _ => exact kids (by simp)

lemma accounted_atom {e : Extent} {a : Atom} : Accounted kids (.atom e a) :=
  accounted_of fun i g mem _ => by cases mem

/-- What a form says is about all lists in it. -/
lemma Says.accounted {slot : Slot} (h : Says slot f said b) : Accounted said.children f := by
  induction h with
  | integer | float | text | word | content => exact accounted_atom
  | part _ _ ih => exact ih
  | varTarget hf _ hn => exact hf.accounted (by simpa using hn.fine)
  | tagged hf ht phrase | field hf ht phrase | multi hf ht phrase => exact phrase.accounted hf ht
  | elsif hf phrase | elseThen hf phrase | clause hf phrase => exact phrase.accounted hf rfl
  | block hf phrase => exact phrase.accounted_block hf

lemma ScopeSays.fine {scope : Scope} (h : ScopeSays f scope) : Fine kids f := by
  cases h with
  | plain hf hn => exact .group (by decide) hf.tag? (hf.accounted (by simpa using hn.fine))
  | method hf hn hd hm declared =>
    have inner : Fine kids _ := .group (by decide) hd.tag? (hd.accounted
      (List.forall_mem_cons.2 ⟨hm.fine, fine_parameters declared⟩))
    exact .group (by decide) hf.tag? (hf.accounted
      (List.forall_mem_cons.2 ⟨hn.fine, List.forall_mem_singleton.2 inner⟩))

/-- A `program` form is about all lists in it. -/
lemma ProgramSays.accounted {main scope : Scope} {fs : List Form} (h : ProgramSays main f fs scope) :
    fs = [f] ∨ Accounted fs f := by
  cases h with
  | withScope hf hs =>
    exact Or.inr (hf.accounted (List.forall_mem_cons.2 ⟨hs.fine, fun g hg => .kid hg⟩))
  | plain hf _ => exact Or.inr (hf.accounted fun g hg => .kid hg)
  | bare => exact Or.inl rfl

end

/-! ## Trees that account for their text -/

section

variable {s : Setting} {root : Node}

/-- All lists in a form only group others or have nodes, unless they are dropped. -/
def Sourced (s : Setting) (root : Node) (f : Form) : Prop :=
  ∃ kids, Accounted kids f ∧ ∀ c ∈ kids, ∃ slot n, root.Holds n ∧ Reads s slot c n

variable {f : Form}

lemma Reads.sourced {slot : Slot} {n : Node} (h : Reads s slot f n) (inside : root.Holds n) :
    Sourced s root f := by
  obtain ⟨said, b, means, built⟩ := h.view
  refine ⟨said.children, means.accounted, fun c hc => ?_⟩
  obtain ⟨role, mem⟩ := Kind.mem_children.1 hc
  obtain ⟨d, hd, read⟩ := built.kind.field_left mem
  obtain ⟨info, kind⟩ := n
  exact ⟨role.slot, d, inside.trans (.child (Kind.mem_children.2 ⟨role, hd⟩)), read⟩

/-- One step further into a form that is accounted for. -/
lemma Sourced.item {g : Form} (h : Sourced s root f) (mem : f.items[i]? = some g)
    (used : ¬ f.Drops i) : Sourced s root g ∧
      (g.IsList → f.Groups i g ∨ ∃ n, root.Holds n ∧ n.At s.file g) := by
  obtain ⟨kids, ⟨groups, below⟩, read⟩ := h
  by_cases kid : g ∈ kids
  · obtain ⟨slot, n, inside, read⟩ := read g kid
    exact ⟨read.sourced inside, fun _ => Or.inr ⟨n, inside, read.at⟩⟩
  · by_cases list : g.IsList
    · exact ⟨⟨kids, below i g mem used list kid, read⟩, fun _ => Or.inl (groups i g mem used list kid)⟩
    · refine ⟨⟨[], ?_, by simp⟩, fun is_list => absurd is_list list⟩
      cases g with
      | atom e a => exact accounted_atom
      | list e items => exact absurd ⟨e, items, rfl⟩ list

/-- All that is kept of a form is accounted for if the form is. -/
lemma Sourced.kept {g : Form} (h : Sourced s root f) (kept : Kept f g) : Sourced s root g := by
  induction kept with
  | root => exact h
  | item _ mem used ih => exact (ih.item mem used).1

lemma Reading.sourced_program {k k' : Nat} (h : (program s f).Gets k root k') :
    ∃ s', s'.file = s.file ∧ root.At s.file f ∧ Sourced s' root f := by
  obtain ⟨fs, scope, ns, id, program, rfl, reads⟩ := gets_program h
  have related : Kind.Rel (fun role => Reads { s with scope } role.slot) (.program fs)
      (.program ns) := .program reads
  have statement : ∀ info, ∀ c ∈ fs, ∃ slot n, (Node.mk info (.program ns)).Holds n ∧
      Reads { s with scope } slot c n := by
    intro info c hc
    have mem : (Role.body, c) ∈ (Kind.program fs).fields := by simpa [Kind.fields] using hc
    obtain ⟨d, hd, read⟩ := related.field_left mem
    exact ⟨_, d, .child (Kind.mem_children.2 ⟨_, hd⟩), read⟩
  refine ⟨{ s with scope }, rfl, rfl, ?_⟩
  rcases program.accounted with rfl | accounted
  · obtain ⟨slot, n, inside, read⟩ := statement _ f (.head _)
    exact read.sourced inside
  · exact ⟨fs, accounted, statement _⟩

/-- **No list of an accepted text is lost, unless it is dropped.** The root of the tree has the place of
the form of the text. Each list in a form that is kept only groups other forms, or some node of the tree
has its place, unless the form drops it: it stands behind `void` or `self`, or is a block argument of a
call that is followed by another of the same sort. -/
theorem kept_lists_have_nodes (host : Host) (options : Options) (source : Source) (root : Node)
    (h : Reading.read host options source = .ok root) :
    ∃ f, Reading.forms source.name source.content = .ok [f] ∧ root.At source.name f ∧
      ∀ p i g, Kept f p → p.items[i]? = some g → ¬ p.Drops i → g.IsList →
        p.Groups i g ∨ ∃ n, root.Holds n ∧ n.At source.name g := by
  obtain ⟨f, k, read_forms, gets⟩ := Reading.read_ok h
  obtain ⟨s, file, place, sourced⟩ := Reading.sourced_program gets
  refine ⟨f, read_forms, place, fun p i g kept mem used list => ?_⟩
  have node := ((sourced.kept kept).item mem used).2 list
  rwa [file] at node

/-- A call that passes a block, in the body of a condition. -/
def passedBlock : Source := ⟨"passed", none, "(if (self) (seq (super (block-pass (lvar y)))))"⟩

/-- The form of the block that is passed. -/
def passedBlockForm : Form :=
  .list ⟨⟨1, 36⟩, ⟨1, 44⟩⟩ [.atom ⟨⟨1, 37⟩, ⟨1, 41⟩⟩ (.symbol "lvar"),
    .atom ⟨⟨1, 42⟩, ⟨1, 43⟩⟩ (.symbol "y")]

theorem kept_lists_have_nodes_passedBlock : ∃ root, Reading.read .generous {} passedBlock = .ok root ∧
    ∃ n, root.Holds n ∧ n.At passedBlock.name passedBlockForm := by
  let pass : Form := .list ⟨⟨1, 24⟩, ⟨1, 45⟩⟩
    [.atom ⟨⟨1, 25⟩, ⟨1, 35⟩⟩ (.symbol "block-pass"), passedBlockForm]
  let super : Form := .list ⟨⟨1, 17⟩, ⟨1, 46⟩⟩ [.atom ⟨⟨1, 18⟩, ⟨1, 23⟩⟩ (.symbol "super"), pass]
  let seq : Form := .list ⟨⟨1, 12⟩, ⟨1, 47⟩⟩ [.atom ⟨⟨1, 13⟩, ⟨1, 16⟩⟩ (.symbol "seq"), super]
  let f : Form := .list ⟨⟨1, 1⟩, ⟨1, 48⟩⟩ [.atom ⟨⟨1, 2⟩, ⟨1, 4⟩⟩ (.symbol "if"),
    .list ⟨⟨1, 5⟩, ⟨1, 11⟩⟩ [.atom ⟨⟨1, 6⟩, ⟨1, 10⟩⟩ (.symbol "self")], seq]
  have read_forms : Reading.forms passedBlock.name passedBlock.content = .ok [f] := by rfl
  have read_root : Reading.read .generous {} passedBlock = Reading.root passedBlock.name [f] :=
    Reading.read_of_forms (by decide +kernel) (by decide +kernel) (by decide +kernel) read_forms
  obtain ⟨root, hroot⟩ : ∃ root, Reading.root passedBlock.name [f] = .ok root := ⟨_, by rfl⟩
  refine ⟨root, read_root.trans hroot, ?_⟩
  obtain ⟨f', read_forms', -, nodes⟩ :=
    kept_lists_have_nodes .generous {} passedBlock root (read_root.trans hroot)
  obtain rfl : f' = f := by
    rw [read_forms] at read_forms'
    cases read_forms'
    rfl
  have kept_seq : Kept f seq := .item (i := 2) .root rfl (by decide)
  have kept_super : Kept f super := .item (i := 1) kept_seq rfl (by decide)
  have kept_pass : Kept f pass := .item (i := 1) kept_super rfl (by decide)
  exact (nodes pass 1 passedBlockForm kept_pass rfl (by decide) ⟨_, _, rfl⟩).resolve_left (by decide)

/-- A list stands behind a `void`. -/
def behindVoid : Source := ⟨"behind", none, "(void (lvar x))"⟩

/-- The form of that list. -/
def behindVoidForm : Form :=
  .list ⟨⟨1, 7⟩, ⟨1, 15⟩⟩ [.atom ⟨⟨1, 8⟩, ⟨1, 12⟩⟩ (.symbol "lvar"),
    .atom ⟨⟨1, 13⟩, ⟨1, 14⟩⟩ (.symbol "x")]

theorem list_behind_void_lost : ∃ root f, Reading.read .generous {} behindVoid = .ok root ∧
    Reading.forms behindVoid.name behindVoid.content = .ok [f] ∧ f.items[1]? = some behindVoidForm ∧
      behindVoidForm.IsList ∧ ¬ f.Groups 1 behindVoidForm ∧ ¬ root.At behindVoid.name behindVoidForm ∧
      ∀ n, root.Holds n → ¬ n.At behindVoid.name behindVoidForm := by
  let f : Form := .list ⟨⟨1, 1⟩, ⟨1, 16⟩⟩ [.atom ⟨⟨1, 2⟩, ⟨1, 6⟩⟩ (.symbol "void"), behindVoidForm]
  have read_forms : Reading.forms behindVoid.name behindVoid.content = .ok [f] := by rfl
  have read_root : Reading.read .generous {} behindVoid = Reading.root behindVoid.name [f] :=
    Reading.read_of_forms (by decide +kernel) (by decide +kernel) (by decide +kernel) read_forms
  let s : Setting := ⟨behindVoid.name, .main⟩
  have hroot : Reading.root behindVoid.name [f] =
      .ok (.mk (s.info f.extent none 2) (.program [.mk (s.info f.extent none 1) .void])) := by rfl
  refine ⟨_, f, read_root.trans hroot, read_forms, rfl, ⟨_, _, rfl⟩, by decide, by decide, ?_⟩
  intro n holds
  cases holds with
  | child mem =>
    obtain rfl := List.mem_singleton.1 mem
    decide
  | inner mem below =>
    obtain rfl := List.mem_singleton.1 mem
    cases below with
    | child mem => cases mem
    | inner mem => cases mem

end

end ControlFlow
