import ControlFlow.Proofs.Lowering.Acceptance
import ControlFlow.Proofs.Reading.Tags
/-!
# What a tree that was read lacks

Readers give each node of a text the scope of the text, give each assigned variable its binding, and
put targets, alternatives, clauses and blocks nowhere but where a construct asks for one. What
lowering can still miss is the method around an implicit `super`, and what it can still find out of
place are the expressions and statements themselves.
-/

namespace ControlFlow

/-- A node as readers make it, in a text with some scope. -/
structure Node.Prepared (scope : Scope) (n : Node) : Prop where
  inScope : n.info.scope = some scope
  bound : ∀ name, n.kind = .varTarget name → n.info.binding.isSome
  places : ∀ role c, (role, c) ∈ n.kind.fields → role.slot.Admits c.kind

/-! ## Readers prepare nodes -/

lemma Kind.Rel.admits {α β : Type} {R : Role → α → β → Prop} {k : Kind α} {l : Kind β}
    (h : Kind.Rel R k l) {slot : Slot} (admits : slot.Admits k) : slot.Admits l := by
  cases h <;> cases slot <;> trivial

lemma Says.bound {slot : Slot} {f : Form} {name : String} {b : Option Binding}
    (h : Says slot f (.varTarget name) b) : b.isSome := by
  generalize hk : Kind.varTarget name = kind at h
  induction h with
  | varTarget => rfl
  | part _ _ ih => exact ih hk
  | word h =>
    unfold wordKind? at h
    split at h <;> cases h <;> cases hk
  | tagged _ _ phrase | field _ _ phrase | multi _ _ phrase | elsif _ phrase | elseThen _ phrase
    | clause _ phrase | block _ phrase =>
    subst hk
    exact phrase.admits.elim
  | integer | float | text | content => cases hk

namespace Reads

variable {s : Setting} {slot : Slot} {f : Form} {n : Node}

lemma admits (h : Reads s slot f n) : slot.Admits n.kind := by
  obtain ⟨said, b, means, built⟩ := h.view
  exact built.kind.admits means.admits

lemma prepared (h : Reads s slot f n) : n.Prepared s.scope := by
  obtain ⟨said, b, means, ⟨id, info⟩, rel⟩ := h.view
  refine ⟨?_, fun name target => ?_, fun role c mem => ?_⟩
  · rw [info]
    rfl
  · rw [target] at rel
    cases rel
    rw [info]
    exact means.bound
  · obtain ⟨-, -, g, -, -, -, read⟩ := h.child mem
    exact read.admits

end Reads

/-- The scope of a text is that of its header, and readers prepare all nodes for it. -/
lemma Reading.read_prepared {host : Host} {options : Options} {source : Source} {root : Node}
    (h : read host options source = .ok root) : ∃ f fs scope,
      forms source.name source.content = .ok [f] ∧ ProgramSays .main f fs scope ∧
        (∃ ns, root.kind = .program ns) ∧ root.Each (Node.Prepared scope) := by
  obtain ⟨f, k, read_forms, gets⟩ := read_ok h
  obtain ⟨fs, scope, ns, id, program, rfl, reads⟩ := gets_program gets
  refine ⟨f, fs, scope, read_forms, program, ⟨ns, rfl⟩, Node.each_mk.2 ⟨?_, fun n hn => ?_⟩⟩
  all_goals
    have rel : Kind.Rel (fun role => Reads ⟨source.name, scope⟩ role.slot) (.program fs)
        (.program ns) := .program reads
  · refine ⟨rfl, fun name target => ?_, fun role c mem => ?_⟩
    · cases target
    · obtain ⟨g, -, read⟩ := rel.field_right mem
      exact read.admits
  · obtain ⟨role, mem⟩ := Kind.mem_children.1 hn
    obtain ⟨g, -, read⟩ := rel.field_right mem
    refine ⟨read.prepared, fun d hd => ?_⟩
    obtain ⟨slot, g', -, read'⟩ := read.below hd
    exact read'.prepared

/-! ## Faults of prepared trees -/

/-- All that can be missing from a prepared node is the method around an implicit `super`. -/
lemma Node.Prepared.annotated {scope : Scope} {info : Info} {kind : Kind Node} {mode : WalkMode}
    (h : (Node.mk info kind).Prepared scope)
    (missing : ¬ kind.Annotated builtinTypes info mode) :
    scope.method = none ∧ ∃ block, kind = .zsuper block := by
  have array : (builtinTypes "Array").isSome := by decide
  have regexp : (builtinTypes "Regexp").isSome := by decide
  have inScope : info.scope = some scope := h.inScope
  have known : info.scope.isSome := by simp [inScope]
  cases kind with
  | zsuper block =>
    refine ⟨?_, block, rfl⟩
    by_contra some_method
    obtain ⟨method, hm⟩ := Option.ne_none_iff_exists'.1 some_method
    exact missing ⟨method, by simp [inScope, hm], fun _ => array⟩
  | selfRef => exact absurd (fun _ => known) missing
  | varTarget name => exact absurd (fun _ => h.bound name rfl) missing
  | varRef name => exact absurd (Or.inr known) missing
  | command parts => exact absurd known missing
  | array elements | returnWith args | super args => exact absurd (fun _ => array) missing
  | regexp parts flags => exact absurd (fun _ => regexp) missing
  | call => exact absurd ⟨fun _ => known, fun _ => array⟩ missing
  | _ => exact absurd trivial missing

/-- No construct takes several targets at once. -/
lemma Kind.Takes.not_multi {parent : Kind Node} {role : Role} {ts : List Node}
    (h : parent.Takes role (.multiTarget ts)) : False := by
  cases role <;> exact h

/-- A child of a prepared node that cannot play its role, where the node itself may stand, is an
expression or statement, or its parent is not supported yet. -/
lemma Node.Prepared.refusal {scope : Scope} {info : Info} {kind : Kind Node} {mode μ : WalkMode}
    {role : Role} {c : Node} (h : (Node.mk info kind).Prepared scope)
    (single : ∀ ts, kind ≠ .multiTarget ts) (mem : (role, c) ∈ kind.fields)
    (wrong : ¬ kind.Takes role c.kind)
    (unsupported : (kind.refusal info mode role μ c).fault.kind = .unsupportedConstruct) :
    c.isEntered role = true ∧ ¬ c.kind.Walkable ∧
      kind.refusal info mode role μ c = .atNode c.info (.misplaced c.kind.tag μ.place) := by
  have admits := h.places role c mem
  obtain ⟨ci, ck⟩ := c
  cases role with
  | target =>
    exfalso
    cases ck with
    | varTarget => exact wrong trivial
    | fieldTarget =>
      cases kind with
      | forIn => cases unsupported
      | _ => exact wrong trivial
    | multiTarget ts =>
      cases kind with
      | assign | opAssign | forIn => cases unsupported
      | multiTarget ts' => exact single ts' rfl
      | _ => simp [Kind.fields] at mem
    | _ => exact admits
  | alternative | clause | block =>
    exfalso
    cases ck with
    | elsif | elseThen | whenThen | doBlock => first | exact admits | exact wrong trivial
    | _ => exact admits
  | element | arg =>
    cases ck with
    | splat => exact absurd trivial wrong
    | _ => exact ⟨rfl, wrong, rfl⟩
  | _ => exact ⟨rfl, wrong, rfl⟩

namespace Node.Faulty

variable {types : String → Option Binding} {limit d : Nat} {mode : WalkMode} {n : Node}
  {e : LowerError} {scope : Scope}

/-- What is missing from a prepared tree is missing at an implicit `super`. -/
lemma unannotated_at (h : n.Faulty builtinTypes limit mode d e) (each : n.Each (Prepared scope))
    (lacks : e.fault.kind = .unannotated) :
    scope.method = none ∧ ∃ μ m block, n.Walks mode μ m ∧ m.kind = .zsuper block ∧
      e = .atNode m.info e.fault := by
  induction h with
  | @unannotated mode d info kind fault missing _ =>
    obtain ⟨no_method, block, zsuper⟩ := each.1.annotated missing
    exact ⟨no_method, mode, .mk info kind, block, .self, zsuper, rfl⟩
  | adrift => cases lacks
  | twoBlocks => cases lacks
  | @misplaced mode μ d info kind role c mem wrong =>
    rcases kind.kind_refusal info mode role μ c with same | same
    all_goals
      rw [same] at lacks
      cases lacks
  | tooDeep => cases lacks
  | @inside mode μ d info kind role c e mem takes _ ih =>
    have child : (role, c) ∈ kind.fields := (Kind.mem_fields_iff mode).2 ⟨μ, mem⟩
    obtain ⟨no_method, μ', m, block, walks, zsuper, told⟩ :=
      ih (each.child (Kind.mem_children.2 ⟨role, child⟩)) lacks
    exact ⟨no_method, μ', m, block, .child mem walks, zsuper, told⟩

/-- What is out of place in a prepared tree is an expression or statement, or one of two blocks. -/
lemma unsupported_at (h : n.Faulty types limit mode d e) (each : n.Each (Prepared scope))
    (single : ∀ ts, n.kind ≠ .multiTarget ts)
    (unsupported : e.fault.kind = .unsupportedConstruct) :
    (∃ mode' p role μ c, n.Walks mode mode' p ∧ (role, μ, c) ∈ p.kind.visits mode' ∧
      c.isEntered role = true ∧ ¬ c.kind.Walkable ∧
        e = .atNode c.info (.misplaced c.kind.tag μ.place)) ∨
    ∃ μ m, n.Walks mode μ m ∧ ¬ m.kind.OneBlock ∧ e = .atNode m.info .twoBlocks := by
  induction h with
  | unannotated _ named =>
    rw [LowerError.atNode] at unsupported
    simp [named] at unsupported
  | adrift => cases unsupported
  | @twoBlocks mode d info kind two => exact Or.inr ⟨mode, .mk info kind, .self, two, rfl⟩
  | @misplaced mode μ d info kind role c mem wrong =>
    have child : (role, c) ∈ kind.fields := (Kind.mem_fields_iff mode).2 ⟨μ, mem⟩
    obtain ⟨entered, misplaced, told⟩ := each.1.refusal single child wrong unsupported
    exact Or.inl ⟨mode, .mk info kind, role, μ, c, .self, mem, entered, misplaced, told⟩
  | tooDeep => cases unsupported
  | @inside mode μ d info kind role c e mem takes _ ih =>
    have child : (role, c) ∈ kind.fields := (Kind.mem_fields_iff mode).2 ⟨μ, mem⟩
    have single' : ∀ ts, c.kind ≠ .multiTarget ts := by
      intro ts multi
      rw [multi] at takes
      exact takes.not_multi
    rcases ih (each.child (Kind.mem_children.2 ⟨role, child⟩)) single' unsupported with
      ⟨mode', p, role', μ', c', walks, rest⟩ | ⟨μ', m, walks, rest⟩
    · exact Or.inl ⟨mode', p, role', μ', c', .child mem walks, rest⟩
    · exact Or.inr ⟨μ', m, .child mem walks, rest⟩

end Node.Faulty

namespace Reading

/-- **The reader annotates all that lowering needs.** All nodes of an accepted text have the scope
that its header declares, or else the scope of `main`, and all assigned variables have a binding. If
lowering misses an annotation, then at an implicit `super` in a text without a method. If it finds a
construct that it does not support, then this is a node that is walked as an expression or
statement, or a call with two blocks; alternatives, clauses, blocks and targets are always
well-formed. -/
theorem reader_annotates (host : Host) (options : Options) (source : Source) (root : Node)
    (accepted : read host options source = .ok root) :
    ∃ f fs scope, forms source.name source.content = .ok [f] ∧ ProgramSays .main f fs scope ∧
      root.Each (fun n => n.info.scope = some scope) ∧
      root.Each (fun n => ∀ name, n.kind = .varTarget name → n.info.binding.isSome) ∧
      ∀ host' options' e, Lowering.build host' builtinTypes options' root = .error e →
        (e.fault.kind = .unannotated → scope.method = none ∧
          ∃ μ m block, root.Walks .value μ m ∧ m.kind = .zsuper block ∧
            e = .atNode m.info e.fault) ∧
        (e.fault.kind = .unsupportedConstruct →
          (∃ mode p role μ c, root.Walks .value mode p ∧ (role, μ, c) ∈ p.kind.visits mode ∧
            c.isEntered role = true ∧ ¬ c.kind.Walkable ∧
              e = .atNode c.info (.misplaced c.kind.tag μ.place)) ∨
          ∃ μ m, root.Walks .value μ m ∧ ¬ m.kind.OneBlock ∧ e = .atNode m.info .twoBlocks) := by
  obtain ⟨f, fs, scope, read_forms, program, ⟨ns, rootKind⟩, each⟩ := read_prepared accepted
  have single : ∀ ts, root.kind ≠ .multiTarget ts := fun ts multi => by
    rw [rootKind] at multi
    cases multi
  have walkable : root.kind.Walkable := by
    rw [rootKind]
    trivial
  refine ⟨f, fs, scope, read_forms, program, ⟨each.1.inScope, fun d hd => (each.2 d hd).inScope⟩,
    ⟨each.1.bound, fun d hd => (each.2 d hd).bound⟩, fun host' options' e failed => ?_⟩
  by_cases stack : options'.hasStack host' = true
  · rcases Lowering.blamed_of_build stack failed with ⟨-, rfl⟩ | ⟨misplaced, -⟩ | ⟨-, faulty⟩
    · constructor <;> (intro other; cases other)
    · exact absurd walkable misplaced
    · exact ⟨faulty.unannotated_at each, faulty.unsupported_at each single⟩
  · obtain ⟨reason, refused⟩ := options'.exists_refusal stack
    rw [Lowering.build, Lowering.run, refused] at failed
    cases failed
    constructor <;> (intro other; cases other)

/-- An implicit `super` in a scope without a method. -/
def strayZsuper : Source := ⟨"stray", none, "(program (scope a) (zsuper))"⟩

theorem reader_annotates_strayZsuper : ∃ root e, read .generous {} strayZsuper = .ok root ∧
    Lowering.build .generous builtinTypes {} root = .error e ∧ e.fault = .noMethod ∧
    ∃ μ m block, root.Walks .value μ m ∧ m.kind = .zsuper block ∧ e = .atNode m.info e.fault := by
  let f : Form := .list ⟨⟨1, 1⟩, ⟨1, 29⟩⟩ [.atom ⟨⟨1, 2⟩, ⟨1, 9⟩⟩ (.symbol "program"),
    .list ⟨⟨1, 10⟩, ⟨1, 19⟩⟩ [.atom ⟨⟨1, 11⟩, ⟨1, 16⟩⟩ (.symbol "scope"),
      .atom ⟨⟨1, 17⟩, ⟨1, 18⟩⟩ (.symbol "a")],
    .list ⟨⟨1, 20⟩, ⟨1, 28⟩⟩ [.atom ⟨⟨1, 21⟩, ⟨1, 27⟩⟩ (.symbol "zsuper")]]
  have read_forms : forms strayZsuper.name strayZsuper.content = .ok [f] := by rfl
  have read_root : read .generous {} strayZsuper = Reading.root strayZsuper.name [f] :=
    read_of_forms (by decide +kernel) (by decide +kernel) (by decide +kernel) read_forms
  obtain ⟨root, hroot, e, failed, fault⟩ : ∃ root, Reading.root strayZsuper.name [f] = .ok root ∧
      ∃ e, Lowering.build .generous builtinTypes {} root = .error e ∧ e.fault = .noMethod :=
    ⟨_, by rfl, _, by rfl, by rfl⟩
  obtain ⟨f', fs, scope, -, -, -, -, told⟩ :=
    reader_annotates .generous {} strayZsuper root (read_root.trans hroot)
  have lacks : e.fault.kind = .unannotated := by rw [fault]; rfl
  exact ⟨root, e, read_root.trans hroot, failed, fault, ((told .generous {} e failed).1 lacks).2⟩

end Reading

end ControlFlow
