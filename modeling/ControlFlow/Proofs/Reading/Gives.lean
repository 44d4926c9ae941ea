import ControlFlow.Proofs.Reading.Reads
/-!
# Forms that say something are read

The converse of what readers do when they succeed: a form that says something is read if the forms that
it is about are, and the node says the same about what they are read as. A call must not hold two blocks
of one sort, of which the first would have to be read too.
-/

namespace ControlFlow

/-- No two blocks of one sort. -/
def Form.Single (fs : List Form) : Prop :=
  ∀ tag ∈ ["block-pass", "do-block"],
    fs.Pairwise fun f g => ¬ (f.tag? = some tag ∧ g.tag? = some tag)

/-- A call with no two blocks of one sort, or another form. -/
def Form.SingleBlocks (f : Form) : Prop :=
  ∀ tag args, f.Tagged tag args → (Tag.ofSymbol? tag = some .call → Single (args.drop 2)) ∧
    (Tag.ofSymbol? tag = some .super → Single args)

namespace Reading

open Reader Form

variable {δ : Type} {Q : δ → Node → Prop} {s : Setting} {e : Extent} {f : Form} {fs args : List Form}
  {d : δ} {ds : List δ}

/-! ## Atoms and tags -/

lemma gives_name {n : String} (h : f.Names n) : (name s f).Gives (· = n) := by
  cases h <;> exact gives_pure rfl

lemma gives_text {t : String} (h : f.text? = some t) : (text s f).Gives (· = t) := by
  rcases f with ⟨e, a | a | a | a⟩ | ⟨e, items⟩
  case atom.text =>
    cases h
    exact gives_pure rfl
  all_goals cases h

lemma gives_split {tag : String} (h : f.Tagged tag args) : (split s f).Gives (· = (tag, args)) := by
  cases h
  exact gives_pure rfl

lemma gives_parameter {p : Parameter} (h : f.Declares p) : (parameter s f).Gives (· = p) := by
  obtain ⟨tag, n, name, kind, hf, known, hn, rfl⟩ := h
  refine gives_then (gives_split hf) ?_
  dsimp only
  rw [known]
  refine gives_then (gives_name hn) ?_
  exact gives_pure rfl

lemma gives_parameters {params : List Parameter} (h : List.Forall₂ Declares fs params) :
    (fs.mapM (parameter s)).Gives (· = params) := by
  induction h with
  | nil => exact gives_pure rfl
  | cons head _ ih =>
    rw [List.mapM_cons]
    refine gives_then (gives_parameter head) ?_
    refine gives_then ih ?_
    exact gives_pure rfl

/-! ## Lists of forms -/

lemma gives_targets (h : List.Forall₂ (fun f d => (target s f).Gives (Q d)) fs ds) :
    (targets s fs).Gives (List.Forall₂ Q ds) :=
  targets_eq_mapM fs ▸ gives_mapM h

lemma gives_parts (h : List.Forall₂ (fun f d => (inSlot s .part f).Gives (Q d)) fs ds) :
    (parts s fs).Gives (List.Forall₂ Q ds) :=
  parts_eq_mapM fs ▸ gives_mapM h

section

variable (h : List.Forall₂ (fun f d => (expression s f).Gives (Q d)) fs ds)

include h

lemma gives_expressions : (expressions s fs).Gives (List.Forall₂ Q ds) :=
  expressions_eq_mapM fs ▸ gives_mapM h

lemma gives_sequence (hf : f.Tagged "seq" fs) : (sequence s f).Gives (List.Forall₂ Q ds) := by
  cases hf
  rw [sequence, if_pos rfl]
  exact gives_expressions h

lemma gives_ensureClause (hf : f.Tagged "ensure" fs) :
    (ensureClause s f).Gives (List.Forall₂ Q ds) := by
  cases hf
  rw [ensureClause, if_pos rfl]
  exact gives_expressions h

lemma gives_elseClause (hf : f.Tagged "else" fs) : (elseClause s f).Gives (List.Forall₂ Q ds) := by
  cases hf
  rw [elseClause, if_pos rfl]
  exact gives_expressions h

end

lemma gives_clauses {cs : List Form} {o : Option (List Form)} {o' : Option (List δ)}
    (h : CaseSays fs cs o) (hcs : List.Forall₂ (fun f d => (inSlot s .clause f).Gives (Q d)) cs ds)
    (ho : Option.Rel (List.Forall₂ fun f d => (expression s f).Gives (Q d)) o o') :
    (clauses s fs).Gives fun r => List.Forall₂ Q ds r.1 ∧ Option.Rel (List.Forall₂ Q) o' r.2 := by
  induction h generalizing ds with
  | nil =>
    cases hcs
    cases ho
    exact gives_pure ⟨.nil, .none⟩
  | @clause f fs cs o tag _ ih =>
    cases hcs with
    | cons head tail =>
      rw [inSlot, if_pos tag] at head
      unfold clauses
      rw [if_pos tag]
      exact gives_bind head fun n hn => gives_bind (ih tail ho) fun r hr =>
        gives_pure ⟨.cons hn hr.1, hr.2⟩
  | @otherwise f body hf =>
    cases hcs
    cases ho with
    | some ho =>
      have tag : f.tag? = some "else" := by
        cases hf
        rfl
      unfold clauses
      rw [if_neg (by rw [tag]; decide), if_pos ⟨tag, rfl⟩]
      exact gives_bind (gives_elseClause ho hf) fun ns hns => gives_pure ⟨.nil, .some hns⟩

lemma gives_callParts {p b : Option Form} {p' b' : Option δ} (h : CallSays fs args p b)
    (single : Single fs)
    (hargs : List.Forall₂ (fun f d => (expression s f).Gives (Q d)) args ds)
    (hp : Option.Rel (fun f d => (expression s f).Gives (Q d)) p p')
    (hb : Option.Rel (fun f d => (block s f).Gives (Q d)) b b') :
    (callParts s fs).Gives fun c => List.Forall₂ Q ds c.args ∧ Option.Rel Q p' c.blockPass ∧
      Option.Rel Q b' c.block := by
  induction h generalizing ds p' b' with
  | nil =>
    cases hargs
    cases hp
    cases hb
    exact gives_pure ⟨.nil, .none, .none⟩
  | @blockPass f v fs args p b hf rest ih =>
    have single_rest : Single fs := fun tag known => (List.pairwise_cons.1 (single tag known)).2
    -- a second block of this sort would follow
    obtain rfl : p = none := by
      rcases p with _ | v'
      · rfl
      · obtain ⟨g, mem, tag⟩ := rest.sorts.1 rfl
        exact absurd ⟨hf.tag?, tag⟩ ((List.pairwise_cons.1 (single _ (.head _))).1 g mem)
    cases hp with
    | @some _ d hv =>
      unfold callParts
      rw [if_pos hf.tag?]
      have pass : (blockPass s f).Gives (Q d) := by
        cases hf
        exact hv
      refine gives_bind pass fun n hn => gives_bind (ih single_rest hargs .none hb) fun c hc => ?_
      obtain ⟨hc_args, hc_pass, hc_block⟩ := hc
      exact gives_pure ⟨hc_args, rel_orElse hc_pass hn, hc_block⟩
  | @block f fs args p b hf rest ih =>
    have single_rest : Single fs := fun tag known => (List.pairwise_cons.1 (single tag known)).2
    obtain rfl : b = none := by
      rcases b with _ | b'
      · rfl
      · obtain ⟨g, mem, tag⟩ := rest.sorts.2 rfl
        exact absurd ⟨hf, tag⟩ ((List.pairwise_cons.1 (single _ (.tail _ (.head _)))).1 g mem)
    cases hb with
    | some hblock =>
      unfold callParts
      rw [if_neg (by rw [hf]; decide), if_pos hf]
      refine gives_bind hblock fun n hn => gives_bind (ih single_rest hargs hp .none) fun c hc => ?_
      obtain ⟨hc_args, hc_pass, hc_block⟩ := hc
      exact gives_pure ⟨hc_args, hc_pass, rel_orElse hc_block hn⟩
  | @arg f fs args p b pass block rest ih =>
    have single_rest : Single fs := fun tag known => (List.pairwise_cons.1 (single tag known)).2
    cases hargs with
    | cons head tail =>
      unfold callParts
      rw [if_neg pass, if_neg block]
      refine gives_bind head fun n hn => gives_bind (ih single_rest tail hp hb) fun c hc => ?_
      obtain ⟨hc_args, hc_pass, hc_block⟩ := hc
      exact gives_pure ⟨.cons hn hc_args, hc_pass, hc_block⟩

/-! ## Forms with a tag -/

/-- A node with a given place and binding that says the same as something else about related
children. -/
structure Made (s : Setting) (e : Extent) (b : Option Binding) (Q : δ → Node → Prop) (l : Kind δ)
    (n : Node) : Prop where
  info : ∃ id, n.info = s.info e b id
  kind : Kind.Rel (fun _ => Q) l n.kind

lemma gives_made {b : Option Binding} {l : Kind δ} {kind : Kind Node}
    (h : Kind.Rel (fun _ => Q) l kind) : (make s e kind b).Gives (Made s e b Q l) :=
  gives_make fun id => ⟨⟨id, rfl⟩, h⟩

variable {tag : String} {said : Kind Form} {b : Option Binding} {l : Kind δ}

variable (kids : Kind.Rel (fun role f d => (inSlot s role.slot f).Gives (Q d)) said l)

include kids

lemma gives_fieldForm (h : Phrase .field args said b) :
    (fieldForm s e tag args).Gives (Made s e b Q l) := by
  cases h with
  | field hn =>
    cases kids with
    | fieldTarget receiver =>
      refine gives_bind receiver fun r hr => gives_then (gives_name hn) ?_
      exact gives_made (.fieldTarget hr)

lemma gives_elsifForm (h : Phrase .elsif args said b) :
    (elsifForm s e tag args).Gives (Made s e b Q l) := by
  cases h with
  | elsif a hb =>
    cases kids with
    | elsif condition body alternative =>
      cases alternative with
      | none =>
        exact gives_bind condition fun c hc => gives_bind (gives_sequence body hb) fun bs hbs =>
          gives_made (.elsif hc hbs .none)
      | some alternative =>
        exact gives_bind condition fun c hc => gives_bind (gives_sequence body hb) fun bs hbs =>
          gives_bind alternative fun o ho => gives_made (.elsif hc hbs (.some ho))

lemma gives_whenForm (h : Phrase .whenThen args said b) :
    (whenForm s e tag args).Gives (Made s e b Q l) := by
  cases h with
  | whenThen hc =>
    cases kids with
    | whenThen candidates body =>
      exact gives_bind (gives_sequence candidates hc) fun cs hcs =>
        gives_bind (gives_expressions body) fun bs hbs => gives_made (.whenThen hcs hbs)

lemma gives_blockForm (h : Phrase .doBlock args said b) :
    (blockForm s e tag args).Gives (Made s e b Q l) := by
  cases h with
  | doBlock hp declared =>
    cases kids with
    | doBlock body =>
      refine gives_then (gives_split hp) ?_
      refine gives_then (gives_parameters declared) ?_
      exact gives_bind (gives_expressions body) fun bs hbs => gives_made (.doBlock hbs)

/-- A form with a tag that says something is read, if the forms that it is about are. -/
lemma gives_tagged {e' : Extent} {t : Tag} (ht : Tag.ofSymbol? tag = some t)
    (h : Phrase t args said b) (call_single : t = .call → Single (args.drop 2))
    (super_single : t = .super → Single args) :
    (tagged s e (.atom e' (.symbol tag) :: args)).Gives (Made s e b Q l) := by
  unfold tagged
  dsimp only
  rw [ht]
  -- what is said fixes the shape of the arguments, and with it what is known about the children
  cases h with dsimp only
  | varRef hn =>
    cases kids with
    | varRef =>
      refine gives_then (gives_name hn) ?_
      exact gives_made .varRef
  | constant =>
    cases kids with
    | literal =>
      exact gives_made .literal
  | int number =>
    cases kids with
    | literal =>
      rw [number]
      exact gives_made .literal
  | float number =>
    cases kids with
    | literal =>
      rw [number]
      exact gives_made .literal
  | symbol hn =>
    cases kids with
    | literal =>
      refine gives_then (gives_name hn) ?_
      exact gives_made .literal
  | char text =>
    cases kids with
    | literal =>
      refine gives_then (gives_text text) ?_
      exact gives_made .literal
  | str =>
    cases kids with
    | str parts =>
      exact gives_bind (gives_parts parts) fun ns hns => gives_made (.str hns)
  | command =>
    cases kids with
    | command parts =>
      exact gives_bind (gives_parts parts) fun ns hns => gives_made (.command hns)
  | regexp ho =>
    cases kids with
    | regexp parts =>
      refine gives_then (gives_text ho) ?_
      exact gives_bind (gives_parts parts) fun ns hns => gives_made (.regexp hns)
  | embed =>
    cases kids with
    | embed body =>
      exact gives_bind (gives_expressions body) fun ns hns => gives_made (.embed hns)
  | array =>
    cases kids with
    | array elements =>
      exact gives_bind (gives_expressions elements) fun ns hns => gives_made (.array hns)
  | splat =>
    cases kids with
    | splat value =>
      exact gives_bind value fun n hn => gives_made (.splat hn)
  | void =>
    cases kids with
    | void =>
      exact gives_made .void
  | selfRef =>
    cases kids with
    | selfRef =>
      exact gives_made .selfRef
  | begin =>
    cases kids with
    | begin body =>
      exact gives_bind body fun n hn => gives_made (.begin hn)
  | paren =>
    cases kids with
    | paren body =>
      exact gives_bind (gives_expressions body) fun ns hns => gives_made (.paren hns)
  | guarded hb =>
    cases kids with
    | guarded body ensure =>
      cases ensure
      exact gives_bind (gives_sequence body hb) fun bs hbs => gives_made (.guarded hbs .none)
  | ensured hb hc =>
    cases kids with
    | guarded body ensure =>
      cases ensure with
      | some ensure =>
        exact gives_bind (gives_sequence body hb) fun bs hbs =>
          gives_bind (gives_ensureClause ensure hc) fun cs hcs =>
            gives_made (.guarded hbs (.some hcs))
  | vcall hn =>
    cases kids with
    | varRef =>
      refine gives_then (gives_name hn) ?_
      exact gives_made .varRef
  | field hn => exact gives_fieldForm kids (.field hn)
  | multi =>
    cases kids with
    | multiTarget targets =>
      exact gives_bind (gives_targets targets) fun ns hns => gives_made (.multiTarget hns)
  | assign =>
    cases kids with
    | assign target value =>
      exact gives_bind target fun t ht => gives_bind value fun v hv => gives_made (.assign ht hv)
  | opAssign hw known =>
    cases kids with
    | opAssign target value =>
      refine gives_then (gives_name hw) ?_
      rw [known]
      exact gives_bind target fun t ht => gives_bind value fun v hv => gives_made (.opAssign ht hv)
  | binary hw known =>
    cases kids with
    | binary left right =>
      refine gives_then (gives_name hw) ?_
      rw [known]
      exact gives_bind left fun l hl => gives_bind right fun r hr => gives_made (.binary hl hr)
  | unary hw known =>
    cases kids with
    | unary operand =>
      refine gives_then (gives_name hw) ?_
      rw [known]
      exact gives_bind operand fun n hn => gives_made (.unary hn)
  | ifThen a hb =>
    cases kids with
    | ifThen condition body alternative =>
      cases alternative with
      | none =>
        exact gives_bind condition fun c hc => gives_bind (gives_sequence body hb) fun bs hbs =>
          gives_made (.ifThen hc hbs .none)
      | some alternative =>
        exact gives_bind condition fun c hc => gives_bind (gives_sequence body hb) fun bs hbs =>
          gives_bind alternative fun o ho => gives_made (.ifThen hc hbs (.some ho))
  | elsif a hb => exact gives_elsifForm kids (.elsif a hb)
  | elseThen =>
    cases kids with
    | elseThen body =>
      exact gives_bind (gives_expressions body) fun ns hns => gives_made (.elseThen hns)
  | unlessThen hb =>
    cases kids with
    | unlessThen condition body otherwise =>
      cases otherwise
      exact gives_bind condition fun c hc => gives_bind (gives_sequence body hb) fun bs hbs =>
        gives_made (.unlessThen hc hbs .none)
  | unlessElse hb ha =>
    cases kids with
    | unlessThen condition body otherwise =>
      cases otherwise with
      | some otherwise =>
        exact gives_bind condition fun c hc => gives_bind (gives_sequence body hb) fun bs hbs =>
          gives_bind (gives_elseClause otherwise ha) fun os hos =>
            gives_made (.unlessThen hc hbs (.some hos))
  | ifMod =>
    cases kids with
    | ifMod condition body =>
      exact gives_bind condition fun c hc => gives_bind body fun n hn => gives_made (.ifMod hc hn)
  | unlessMod =>
    cases kids with
    | unlessMod condition body =>
      exact gives_bind condition fun c hc => gives_bind body fun n hn =>
        gives_made (.unlessMod hc hn)
  | loop =>
    cases kids with
    | loop condition body =>
      exact gives_bind condition fun c hc => gives_bind (gives_expressions body) fun ns hns =>
        gives_made (.loop hc hns)
  | loopMod =>
    cases kids with
    | loopMod condition body =>
      exact gives_bind condition fun c hc => gives_bind body fun n hn =>
        gives_made (.loopMod hc hn)
  | forIn =>
    cases kids with
    | forIn target iterable body =>
      exact gives_bind target fun t ht => gives_bind iterable fun i hi =>
        gives_bind (gives_expressions body) fun ns hns => gives_made (.forIn ht hi hns)
  | case said =>
    cases kids with
    | case subject clauses otherwise =>
      exact gives_bind subject fun n hn => gives_bind (gives_clauses said clauses otherwise)
        fun r hr => gives_made (.case hn hr.1 hr.2)
  | whenThen hc => exact gives_whenForm kids (.whenThen hc)
  | returnWith =>
    cases kids with
    | returnWith args =>
      exact gives_bind (gives_expressions args) fun ns hns => gives_made (.returnWith hns)
  | returnNothing =>
    cases kids with
    | returnWith args =>
      cases args
      exact gives_made (.returnWith .nil)
  | breakWith =>
    cases kids with
    | breakWith args =>
      exact gives_bind (gives_expressions args) fun ns hns => gives_made (.breakWith hns)
  | nextWith =>
    cases kids with
    | nextWith args =>
      exact gives_bind (gives_expressions args) fun ns hns => gives_made (.nextWith hns)
  | redo =>
    cases kids with
    | redo =>
      exact gives_made .redo
  | @call r m method fs args p b hm said =>
    cases kids with
    | call receiver args blockPass block =>
      have parts := gives_callParts said (call_single rfl) args blockPass block
      by_cases own : r.symbol? = some "_"
      · rw [receiver?, if_pos own] at receiver
        cases receiver
        rw [if_pos own]
        refine gives_bind (gives_pure (P := (· = none)) rfl) ?_
        rintro _ rfl
        refine gives_then (gives_name hm) ?_
        exact gives_bind parts fun c hc => gives_made (.call .none hc.1 hc.2.1 hc.2.2)
      · rw [receiver?, if_neg own] at receiver
        cases receiver with
        | some receiver =>
          rw [if_neg own]
          refine gives_bind receiver fun n hn => gives_bind (gives_pure (P := (· = some n)) rfl) ?_
          rintro _ rfl
          refine gives_then (gives_name hm) ?_
          exact gives_bind parts fun c hc => gives_made (.call (.some hn) hc.1 hc.2.1 hc.2.2)
  | doBlock hp declared => exact gives_blockForm kids (.doBlock hp declared)
  | super said =>
    cases kids with
    | super args blockPass block =>
      exact gives_bind (gives_callParts said (super_single rfl) args blockPass block) fun c hc =>
        gives_made (.super hc.1 hc.2.1 hc.2.2)
  | zsuper b =>
    cases kids with
    | zsuper block =>
      cases block with
      | none => exact gives_made (.zsuper .none)
      | some block => exact gives_bind block fun n hn => gives_made (.zsuper (.some hn))

/-! ## Forms in slots -/

/-- **A form that says something is read, if the forms that it is about are.** -/
theorem gives_inSlot {slot : Slot} (h : Says slot f said b) (single : f.SingleBlocks) :
    (inSlot s slot f).Gives (Made s f.extent b Q l) := by
  induction h with
  | integer | float | content =>
    cases kids
    exact gives_made (by constructor)
  | text =>
    cases kids with
    | str parts =>
      cases parts with
      | cons head tail =>
        cases tail
        exact gives_bind head fun n hn => gives_made (.str (.cons hn .nil))
  | @word e w kind h =>
    unfold wordKind? at h
    rw [inSlot, expression]
    split at h <;> cases h <;> cases kids
    · exact gives_made .literal
    · exact gives_made .literal
    · exact gives_made .literal
    · exact gives_made .selfRef
  | tagged hf ht phrase =>
    cases hf
    rw [inSlot, expression]
    exact gives_tagged kids ht phrase (fun h => (single _ _ .mk).1 (h ▸ ht))
      fun h => (single _ _ .mk).2 (h ▸ ht)
  | @part f kind b no_text _ ih =>
    rw [inSlot, no_text]
    exact ih kids single
  | varTarget hf ht hn =>
    cases hf
    cases kids
    rw [inSlot]
    unfold target
    dsimp only
    rw [ht]
    refine gives_then (gives_name hn) ?_
    exact gives_made .varTarget
  | field hf ht phrase =>
    cases hf
    rw [inSlot]
    unfold target
    rw [ht]
    exact gives_fieldForm kids phrase
  | multi hf ht phrase =>
    cases hf
    cases phrase
    cases kids with
    | multiTarget targets =>
      rw [inSlot]
      unfold target
      rw [ht]
      exact gives_bind (gives_targets targets) fun ns hns => gives_made (.multiTarget hns)
  | elsif hf phrase =>
    cases hf
    exact gives_elsifForm kids phrase
  | elseThen hf phrase =>
    cases hf
    cases phrase
    cases kids with
    | elseThen body =>
      exact gives_bind (gives_expressions body) fun ns hns => gives_made (.elseThen hns)
  | clause hf phrase =>
    cases hf
    exact gives_whenForm kids phrase
  | block hf phrase =>
    cases hf
    exact gives_blockForm kids phrase

/-! ## Programs -/

omit kids

lemma gives_signature {m : Form} {name : String} {params : List Parameter}
    (hf : f.Tagged "def" (m :: fs)) (hm : m.Names name) (h : List.Forall₂ Declares fs params) :
    (signature s f).Gives (· = ⟨name, params⟩) := by
  refine gives_then (gives_split hf) ?_
  refine gives_then (gives_name hm) ?_
  refine gives_then (gives_parameters h) ?_
  exact gives_pure rfl

lemma gives_scope {scope : Scope} (h : ScopeSays f scope) :
    (Reading.scope s f).Gives (· = scope) := by
  cases h with
  | plain hf hn =>
    refine gives_then (gives_split hf) ?_
    refine gives_then (gives_name hn) ?_
    exact gives_pure rfl
  | method hf hn hd hm declared =>
    refine gives_then (gives_split hf) ?_
    refine gives_then (gives_name hn) ?_
    refine gives_then (gives_signature hd hm declared) ?_
    exact gives_pure rfl

/-- A program with a scope is read, if its statements are. -/
theorem gives_program {scope : Scope} {h : Form} (hf : f.Tagged "program" (h :: fs))
    (hs : ScopeSays h scope)
    (body : List.Forall₂ (fun f d => (expression { s with scope } f).Gives (Q d)) fs ds) :
    (program s f).Gives (Made { s with scope } f.extent none Q (.program ds)) := by
  have tag : h.tag? = some "scope" := by
    cases hs with
    | plain hf => exact hf.tag?
    | method hf => exact hf.tag?
  cases hf
  unfold program
  split
  · rename_i same
    cases same
    dsimp only
    rw [if_pos tag]
    refine gives_then (gives_scope hs) ?_
    exact gives_bind (gives_expressions body) fun ns hns => gives_made (.program hns)
  · rename_i other
    exact absurd rfl (other _ _ _)

end Reading

end ControlFlow
