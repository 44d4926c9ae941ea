import ControlFlow.Proofs.Form.Forms
import ControlFlow.Proofs.Reading.Tags
/-!
# Spans of nodes

Nodes take their spans from the forms of a text. So a child lies inside of its parent, and children in
the same role, which a form holds side by side, stand one behind the other.
-/

namespace ControlFlow

/-! ## Children in the same role -/

/-- Children in the same role, of which each stands in a relation to all behind it. -/
def Kind.RolesPairwise {α : Type} (R : α → α → Prop) (kind : Kind α) : Prop :=
  kind.fields.Pairwise fun p q => p.1 = q.1 → R p.2 q.2

variable {α : Type} {f : Form} {args : List Form}

@[simp] lemma pairwise_inRole {R : α → α → Prop} {role : Role} {cs : List α} :
    (Kind.inRole role cs).Pairwise (fun p q => p.1 = q.1 → R p.2 q.2) ↔ cs.Pairwise R := by
  simp [Kind.inRole, List.pairwise_map]

@[simp] lemma pairwise_toList {R : α → α → Prop} (o : Option α) : o.toList.Pairwise R := by
  cases o <;> simp

/-- What holds of pairs on the one side of a relation holds of the related pairs on the other. -/
lemma pairwise_of_forall₂ {β : Type} {R : α → β → Prop} {S : α → α → Prop} {T : β → β → Prop}
    {as : List α} {bs : List β} (h : List.Forall₂ R as bs)
    (step : ∀ a a' b b', R a b → R a' b' → S a a' → T b b') (pairwise : as.Pairwise S) :
    bs.Pairwise T := by
  rw [List.pairwise_iff_getElem] at pairwise ⊢
  intro i j hi hj lt
  have related := (List.forall₂_iff_get.1 h).2
  have length := h.length_eq
  exact step _ _ _ _ (related i (by omega) hi) (related j (by omega) hj)
    (pairwise i j (by omega) (by omega) lt)

variable {fs : List Form} {said : Kind Form}

namespace Form

lemma CallSays.sublist {p b : Option Form} (h : CallSays fs args p b) : args.Sublist fs := by
  induction h with
  | nil => exact .slnil
  | blockPass _ _ ih | block _ _ ih => exact ih.cons _
  | arg _ _ _ ih => exact ih.cons_cons _

lemma CaseSays.sublist {cs : List Form} {o : Option (List Form)} (h : CaseSays fs cs o) :
    cs.Sublist fs ∧ ∀ body ∈ o, ∃ f ∈ fs, f.Tagged "else" body := by
  induction h with
  | nil => exact ⟨.slnil, nofun⟩
  | clause _ _ ih =>
    refine ⟨ih.1.cons_cons _, fun body hb => ?_⟩
    obtain ⟨f, mem, tagged⟩ := ih.2 body hb
    exact ⟨f, .tail _ mem, tagged⟩
  | otherwise h =>
    refine ⟨List.nil_sublist _, ?_⟩
    rintro _ ⟨⟩
    exact ⟨_, .head _, h⟩

end Form

open Form

/-- The forms that a form is about in one role stand side by side. -/
lemma Phrase.ordered {t : Tag} {b : Option Binding} (h : Phrase t args said b)
    (behind : args.Pairwise Precedes) (inside : ∀ a ∈ args, a.items.Pairwise Precedes) :
    said.RolesPairwise Precedes := by
  have group : ∀ {a : Form} {tag : String} {fs : List Form}, a ∈ args → a.Tagged tag fs →
      fs.Pairwise Precedes := by
    rintro _ tag fs mem ⟨⟩
    exact (List.pairwise_cons.1 (inside _ mem)).2
  have rest : ∀ {f : Form} {fs : List Form}, args = f :: fs → fs.Pairwise Precedes := by
    rintro f fs rfl
    exact (List.pairwise_cons.1 behind).2
  unfold Kind.RolesPairwise
  -- children in different roles are not compared, so that each group is left to itself
  cases h <;> simp only [Kind.fields, List.cons_append, List.pairwise_append,
    List.pairwise_cons, pairwise_inRole, List.Pairwise.nil, Prod.forall, Prod.mk.injEq,
    Kind.mem_inRole, List.mem_append, List.mem_cons]
  case case o h =>
    obtain ⟨clauses, otherwise⟩ := h.sublist
    have ordered := (rest rfl).sublist clauses
    have other : (o.getD []).Pairwise Precedes := by
      cases o with
      | none => exact .nil
      | some body =>
        obtain ⟨f, mem, tagged⟩ := otherwise body rfl
        exact group (.tail _ mem) tagged
    grind
  case call h =>
    have ordered := ((List.pairwise_cons.1 (rest rfl)).2).sublist h.sublist
    grind [pairwise_toList]
  case super h =>
    have ordered := behind.sublist h.sublist
    grind [pairwise_toList]
  all_goals grind [pairwise_toList]

lemma Says.ordered {slot : Slot} {b : Option Binding} (h : Says slot f said b)
    (items : f.items.Pairwise Precedes) (inside : ∀ a ∈ f.items, a.items.Pairwise Precedes) :
    said.RolesPairwise Precedes := by
  have behind : ∀ {tag args t}, f.Tagged tag args → Phrase t args said b →
      said.RolesPairwise Precedes := by
    rintro tag args t ⟨⟩ phrase
    exact phrase.ordered (List.pairwise_cons.1 items).2 fun a ha => inside a (.tail _ ha)
  induction h with
  | integer | float | text | content | varTarget => simp [Kind.RolesPairwise, Kind.fields]
  | word h =>
    unfold wordKind? at h
    split at h <;> cases h <;> simp [Kind.RolesPairwise, Kind.fields]
  | part _ _ ih => exact ih items inside behind
  | tagged hf _ phrase | field hf _ phrase | multi hf _ phrase | elsif hf phrase
    | elseThen hf phrase | clause hf phrase | block hf phrase => exact behind hf phrase

lemma ProgramSays.ordered {main scope : Scope} (h : ProgramSays main f fs scope)
    (items : f.items.Pairwise Precedes) : fs.Pairwise Precedes := by
  cases h with
  | withScope hf =>
    cases hf
    exact (List.pairwise_cons.1 (List.pairwise_cons.1 items).2).2
  | plain hf =>
    cases hf
    exact (List.pairwise_cons.1 items).2
  | bare => exact List.pairwise_singleton _ _

/-! ## Nodes -/

/-- A span that lies inside of another. -/
def Span.Within (s t : Span) : Prop :=
  t.start.position ≤ s.start.position ∧ s.stop.position ≤ t.stop.position

/-- A span that ends before another starts. -/
def Span.Precedes (s t : Span) : Prop := s.stop.position ≤ t.start.position

/-- A node with a span of a file, at whose start it is located; its children lie inside of it, and
those in the same role one behind the other. -/
structure Node.Spanned (file : String) (n : Node) : Prop where
  own : ∃ s, n.info.span = some s ∧ n.info.location = some s.start ∧ s.start.file = file ∧
    s.stop.file = file ∧ s.start.position.Before s.stop.position
  within : ∀ c ∈ n.kind.children, ∀ s ∈ n.info.span, ∀ t ∈ c.info.span, t.Within s
  ordered : n.kind.RolesPairwise fun c d =>
    ∀ s ∈ c.info.span, ∀ t ∈ d.info.span, s.Precedes t

/-- A node takes over the order of the forms that it was built from. -/
lemma Built.spanned {s : Setting} {e : Extent} {b : Option Binding} {n : Node}
    (h : Built s e said b n) (own : e.start < e.stop)
    (within : ∀ g ∈ said.children, e.start ≤ g.extent.start ∧ g.extent.stop ≤ e.stop)
    (ordered : said.RolesPairwise Precedes) : n.Spanned s.file := by
  obtain ⟨⟨id, info⟩, rel⟩ := h
  refine ⟨⟨e.span s.file, ?_, ?_, rfl, rfl, Position.lt_iff_before.1 own⟩, ?_, ?_⟩
  · rw [info]
    rfl
  · rw [info]
    rfl
  · intro c hc span hs t ht
    obtain ⟨role, mem⟩ := Kind.mem_children.1 hc
    obtain ⟨g, hg, read⟩ := rel.field_right mem
    rw [info] at hs
    rw [read.at] at ht
    cases hs
    cases ht
    exact within g (Kind.mem_children.2 ⟨role, hg⟩)
  · refine pairwise_of_forall₂ rel.fields ?_ ordered
    rintro ⟨role, f⟩ ⟨role', f'⟩ ⟨_, c⟩ ⟨_, c'⟩ ⟨rfl, read⟩ ⟨rfl, read'⟩ order same span hs t ht
    rw [read.at] at hs
    rw [read'.at] at ht
    cases hs
    cases ht
    exact order same

/-- A node that was read from a form of a text is spanned. -/
lemma Reads.spanned {s : Setting} {slot : Slot} {p q : Position} {n : Node} (h : Reads s slot f n)
    (placed : Form.Placed p fs q) (among : Form.Among fs f) : n.Spanned s.file := by
  obtain ⟨said, b, means, built⟩ := h.view
  obtain ⟨r, r', -, inside, -⟩ := placed.inside among
  refine built.spanned (placed.within among).2.1 (fun g hg => ?_)
    (means.ordered inside.pairwise fun a ha => ?_)
  · rcases means.mem hg with rfl | holds
    · exact ⟨le_rfl, le_rfl⟩
    · exact placed.nested among holds
  · obtain ⟨_, _, -, inner, -⟩ := inside.inside (Or.inl ha)
    exact inner.pairwise

namespace Reading

/-- **Spans are nested and ordered.** Each node of an accepted text has a span of the text, starts
where it is located and ends later. Each child lies inside of its parent, and children in the same
role, such as the statements of a body or the arguments of a call, follow one another without
overlap. -/
theorem spans_nested (host : Host) (options : Options) (source : Source) (root : Node)
    (accepted : read host options source = .ok root) : root.Each (Node.Spanned source.name) := by
  obtain ⟨f, s, ns, read_forms, file, -, -, -, -, below⟩ := read_nodes accepted
  obtain ⟨q, placed⟩ := Grammar.placed_of_forms read_forms
  refine ⟨?_, fun n hn => ?_⟩
  · obtain ⟨f', k, read_forms', gets⟩ := read_ok accepted
    obtain rfl : f' = f := by simpa [read_forms] using read_forms'.symm
    obtain ⟨fs, scope, ns, id, program, rfl, reads⟩ := gets_program gets
    have built : Built ⟨source.name, scope⟩ f'.extent (.program fs) none
        (.mk (Setting.info ⟨source.name, scope⟩ f'.extent none id) (.program ns)) :=
      ⟨⟨id, rfl⟩, .program reads⟩
    have among : Form.Among [f'] f' := Or.inl (.head _)
    obtain ⟨r, r', -, inside, -⟩ := placed.inside among
    refine built.spanned (placed.within among).2.1 (fun g hg => ?_)
      (pairwise_inRole.2 (program.ordered inside.pairwise))
    rcases program.mem (by simpa [Kind.children, Kind.fields, Kind.inRole] using hg) with rfl | holds
    · exact ⟨le_rfl, le_rfl⟩
    · exact placed.nested among holds
  · obtain ⟨slot, g, holds, reads⟩ := below n hn
    rw [← file]
    refine reads.spanned placed ?_
    rcases holds with rfl | holds
    · exact Or.inl (.head _)
    · exact Or.inr ⟨f, .head _, holds⟩

/-- A call whose arguments stand on a second line, behind a carriage return and a line feed. -/
def acrossLines : Source := ⟨"lines", none, "(call _ f\r\n  \"é\" (array 1 2))"⟩

theorem spans_nested_acrossLines : ∃ root, read .generous {} acrossLines = .ok root ∧
    root.Each (Node.Spanned "lines") ∧
    root.info.span = some ⟨⟨"lines", 1, 1⟩, ⟨"lines", 2, 19⟩⟩ := by
  let f : Form := .list ⟨⟨1, 1⟩, ⟨2, 19⟩⟩ [.atom ⟨⟨1, 2⟩, ⟨1, 6⟩⟩ (.symbol "call"),
    .atom ⟨⟨1, 7⟩, ⟨1, 8⟩⟩ (.symbol "_"), .atom ⟨⟨1, 9⟩, ⟨1, 10⟩⟩ (.symbol "f"),
    .atom ⟨⟨2, 3⟩, ⟨2, 6⟩⟩ (.text "é"),
    .list ⟨⟨2, 7⟩, ⟨2, 18⟩⟩ [.atom ⟨⟨2, 8⟩, ⟨2, 13⟩⟩ (.symbol "array"),
      .atom ⟨⟨2, 14⟩, ⟨2, 15⟩⟩ (.integer 1), .atom ⟨⟨2, 16⟩, ⟨2, 17⟩⟩ (.integer 2)]]
  have read_forms : forms acrossLines.name acrossLines.content = .ok [f] := by rfl
  have read_root : read .generous {} acrossLines = Reading.root acrossLines.name [f] :=
    read_of_forms (by decide +kernel) (by decide +kernel) (by decide +kernel) read_forms
  obtain ⟨root, hroot, span⟩ : ∃ root, Reading.root acrossLines.name [f] = .ok root ∧
      root.info.span = some ⟨⟨"lines", 1, 1⟩, ⟨"lines", 2, 19⟩⟩ := ⟨_, by rfl, by rfl⟩
  have accepted := read_root.trans hroot
  exact ⟨root, accepted, spans_nested .generous {} acrossLines root accepted, span⟩

end Reading

end ControlFlow
