import ControlFlow.Proofs.Reading.Dump
import ControlFlow.Proofs.Reading.Gives
/-!
# Reading what was dumped

Reading the dump of a tree gives the tree back, with new numbers and places. The dump of a node says what
the node says about the dumps of its children, so the readers of the slots where the children stand read
them again, and then the node.
-/

namespace ControlFlow

open Form

/-! ## Dumps say what their nodes say -/

lemma BinaryOp.ofWord?_method (op : BinaryOp) : ofWord? op.method = some op := by
  cases op <;> rfl

lemma UnaryOp.ofWord?_method (op : UnaryOp) : ofWord? op.method = some op := by
  cases op <;> rfl

lemma formTag_variable {kind : BindingKind} {name : String} (h : kind.formTags ≠ []) :
    Tag.ofSymbol? (Binding.formTag (some ⟨name, kind⟩)) = some (.varRef kind) := by
  cases kind <;> first | rfl | exact absurd rfl h

variable {f : Form} {scope : Scope}

lemma dump_variable {name : String} {b : Option Binding}
    (binds : (Kind.varRef name : Kind Node).Binds b)
    (h : f.tree = .form (Binding.formTag b) [.name name]) :
    ∃ tag t args, f.Tagged tag args ∧ Tag.ofSymbol? tag = some t ∧
      Phrase t args (.varRef name) b := by
  obtain ⟨g, hf, hg⟩ := tagged_one h
  rcases binds with rfl | ⟨kind, variable_kind, rfl⟩
  · exact ⟨_, _, _, hf, rfl, .vcall (names_of_tree hg)⟩
  · exact ⟨_, _, _, hf, formTag_variable variable_kind, .varRef (names_of_tree hg)⟩

lemma dump_constant {value : Constant} (h : f.tree = value.dump) :
    ∃ tag t args, f.Tagged tag args ∧ Tag.ofSymbol? tag = some t ∧
      Phrase t args (.literal value) none := by
  cases value with
  | nil =>
    have hf := tagged_nil h
    exact ⟨_, _, _, hf, rfl, .constant⟩
  | bool b =>
    cases b with
    | true =>
      have hf := tagged_nil h
      exact ⟨_, _, _, hf, rfl, .constant⟩
    | false =>
      have hf := tagged_nil h
      exact ⟨_, _, _, hf, rfl, .constant⟩
  | integer n =>
    obtain ⟨g, hf, hg⟩ := tagged_one h
    refine ⟨_, _, _, hf, rfl, .int ?_⟩
    cases g with
    | atom e a => cases hg; rfl
    | list e items => cases hg
  | float x =>
    obtain ⟨g, hf, hg⟩ := tagged_one h
    refine ⟨_, _, _, hf, rfl, .float ?_⟩
    cases g with
    | atom e a => cases hg; rfl
    | list e items => cases hg
  | str t =>
    obtain ⟨g, hf, hg⟩ := tagged_one h
    exact ⟨_, _, _, hf, rfl, .char (text?_of_tree hg)⟩
  | symbol n =>
    obtain ⟨g, hf, hg⟩ := tagged_one h
    exact ⟨_, _, _, hf, rfl, .symbol (names_of_tree hg)⟩

lemma dump_ne_symbol (n : Node) (w : String) : n.dump ≠ .atom (.symbol w) := by
  obtain ⟨info, kind⟩ := n
  intro h
  cases kind with
  | literal value => rcases value with _ | (_ | _) | _ | _ | _ | _ <;> cases h
  | _ => cases h

/-- Only calls and block literals are dumped as such, and nothing as a block that is passed. -/
lemma dump_tag? {n : Node} {w : String} (h : n.dump.tag? = some w) :
    w ≠ "block-pass" ∧ (w ∈ ["do-block", "call", "super"] → n.tag = w) := by
  obtain ⟨info, kind⟩ := n
  cases kind with
  | content text => cases h
  | doBlock _ _ | call _ _ _ _ _ | super _ _ _ =>
    cases h
    exact ⟨by decide, fun _ => rfl⟩
  | varRef name | varTarget name =>
    obtain rfl : Binding.formTag info.binding = w := Option.some.inj h
    rcases info.binding with _ | ⟨_, _ | _ | _ | _ | _ | _⟩ <;> simp [Binding.formTag]
  | literal value =>
    rcases value with _ | (_ | _) | _ | _ | _ | _ <;> cases h <;>
      exact ⟨by decide, fun block => absurd block (by decide)⟩
  | loop sense condition body =>
    cases sense <;> cases h <;> exact ⟨by decide, fun block => absurd block (by decide)⟩
  | loopMod sense condition body =>
    cases sense <;> cases h <;> exact ⟨by decide, fun block => absurd block (by decide)⟩
  | _ =>
    cases h
    exact ⟨by decide, fun block => absurd block (by decide)⟩

lemma dumps_receiver {r : Form} {o : Option Node} (h : r.tree = Node.dumpReceiver o) :
    Option.Rel Dumps r.receiver? o := by
  cases o with
  | none =>
    rcases r with ⟨e, a⟩ | ⟨e, items⟩
    · cases h
      exact .none
    · cases h
  | some n =>
    have no_word : r.symbol? ≠ some "_" := by
      intro word
      rcases r with ⟨e, a | a | a | a⟩ | ⟨e, items⟩ <;> cases word
      exact dump_ne_symbol n "_" h.symm
    rw [receiver?, if_neg no_word]
    exact .some h

lemma dump_case {fs : List Form} {clauses : List Node} {otherwise : Option (List Node)}
    (whens : ∀ c ∈ clauses, Slot.clause.Admits c.kind)
    (h : trees fs = Node.dumps clauses ++ Node.dumpClause "else" otherwise) :
    ∃ cs o, CaseSays fs cs o ∧ List.Forall₂ Dumps cs clauses ∧
      Option.Rel (List.Forall₂ Dumps) o otherwise := by
  induction clauses generalizing fs with
  | nil =>
    cases otherwise with
    | none =>
      obtain rfl := trees_nil h
      exact ⟨[], none, .nil, .nil, .none⟩
    | some ns =>
      obtain ⟨g, rfl, hg⟩ := trees_one h
      obtain ⟨body, hf, inner⟩ := dumps_group hg
      exact ⟨[], some body, .otherwise hf, .nil, .some inner⟩
  | cons c clauses ih =>
    obtain ⟨here, below⟩ := List.forall_mem_cons.1 whens
    obtain ⟨g, gs, rfl, hg, rest⟩ := trees_cons h
    obtain ⟨cs, o, said, hcs, ho⟩ := ih below rest
    have tag : g.tag? = some "when" := by
      rw [← tag?_tree, hg]
      obtain ⟨info, kind⟩ := c
      cases kind <;> first | rfl | cases here
    exact ⟨g :: cs, o, .clause tag said, .cons hg hcs, ho⟩

lemma dump_call {fs : List Form} {args : List Node} {blockPass block : Option Node}
    (positional : ∀ c ∈ args, c.tag ≠ "do-block")
    (blocks : ∀ c, block = some c → Slot.block.Admits c.kind)
    (h : trees fs = Node.dumps args ++ (Node.dumpPass blockPass ++ Node.dumpOption block)) :
    ∃ as p b, CallSays fs as p b ∧ Single fs ∧ List.Forall₂ Dumps as args ∧
      Option.Rel Dumps p blockPass ∧ Option.Rel Dumps b block := by
  induction args generalizing fs with
  | nil =>
    change trees fs = Node.dumpPass blockPass ++ Node.dumpOption block at h
    obtain ⟨ps, bs, rfl, hps, hbs⟩ := trees_append h
    obtain ⟨b, rfl, hb⟩ := dumps_option hbs
    have literal : ∀ g ∈ b, g.tag? = some "do-block" := by
      intro g hg
      cases hb with
      | none => cases hg
      | @some g' c hc =>
        cases hg
        have place := blocks c rfl
        rw [← tag?_tree, hc]
        obtain ⟨info, kind⟩ := c
        cases kind <;> first | rfl | cases place
    have said_block : CallSays b.toList [] none b := by
      cases b with
      | none => exact .nil
      | some g => exact .block (literal g rfl) .nil
    cases blockPass with
    | none =>
      obtain rfl := trees_nil hps
      refine ⟨[], none, b, said_block, fun tag _ => ?_, .nil, .none, hb⟩
      cases b <;> simp
    | some v =>
      obtain ⟨g, rfl, hg⟩ := trees_one hps
      obtain ⟨v', hf, hv⟩ := tagged_one hg
      refine ⟨[], some v', b, .blockPass hf said_block, fun tag _ => ?_, .nil, .some hv, hb⟩
      cases b with
      | none => simp
      | some g' =>
        have apart : ¬ (g.tag? = some tag ∧ g'.tag? = some tag) := by
          rw [hf.tag?, literal g' rfl]
          rintro ⟨⟨⟩, other⟩
          exact absurd other (by decide)
        simpa using apart
  | cons c args ih =>
    obtain ⟨here, below⟩ := List.forall_mem_cons.1 positional
    obtain ⟨g, gs, rfl, hg, rest⟩ := trees_cons h
    obtain ⟨as, p, b, said, single, hargs, hp, hb⟩ := ih below rest
    have plain : ∀ tag ∈ ["block-pass", "do-block"], g.tag? ≠ some tag := by
      intro tag known spelled
      rw [← tag?_tree, hg] at spelled
      obtain ⟨no_pass, literal⟩ := dump_tag? spelled
      rcases List.mem_pair.1 known with rfl | rfl
      · exact no_pass rfl
      · exact here (literal (by decide))
    refine ⟨g :: as, p, b, .arg (plain _ (by decide)) (plain _ (by decide)) said,
      fun tag known => List.pairwise_cons.2 ⟨fun _ _ both => plain tag known both.1,
        single tag known⟩, .cons hg hargs, hp, hb⟩

/-- The dump of a node that may stand as an expression says what the node says. -/
lemma dump_phrase {info : Info} {kind : Kind Node} (h : (Node.mk info kind).Dumpable scope)
    (admits : Slot.expression.Admits kind) (dumped : f.tree = (Node.mk info kind).dump) :
    ∃ tag t args said, f.Tagged tag args ∧ Tag.ofSymbol? tag = some t ∧
      Phrase t args said (kind.bound info.binding) ∧ Kind.Rel (fun _ => Dumps) said kind := by
  obtain ⟨-, binds, places, positional, locals⟩ := h
  change ∀ role c, (role, c) ∈ kind.fields → role.slot.Admits c.kind at places
  cases kind with
  | program body => cases admits
  | literal value =>
    obtain ⟨tag, t, args, hf, ht, phrase⟩ := dump_constant dumped
    exact ⟨tag, t, args, _, hf, ht, phrase, .literal⟩
  | content text => cases admits
  | str ns =>
    obtain ⟨fs, hf, inner⟩ := dumps_group dumped
    exact ⟨_, .str, fs, _, hf, rfl, .str, .str inner⟩
  | embed ns =>
    obtain ⟨fs, hf, inner⟩ := dumps_group dumped
    exact ⟨_, .embed, fs, _, hf, rfl, .embed, .embed inner⟩
  | command ns =>
    obtain ⟨fs, hf, inner⟩ := dumps_group dumped
    exact ⟨_, .command, fs, _, hf, rfl, .command, .command inner⟩
  | regexp ns options =>
    obtain ⟨g, fs, hf, hg, inner⟩ := tagged_cons dumped
    exact ⟨_, .regexp, _, _, hf, rfl, .regexp (text?_of_tree hg), .regexp (dumps_list inner)⟩
  | array ns =>
    obtain ⟨fs, hf, inner⟩ := dumps_group dumped
    exact ⟨_, .array, fs, _, hf, rfl, .array, .array inner⟩
  | splat n =>
    obtain ⟨g, hf, hg⟩ := tagged_one dumped
    exact ⟨_, .splat, _, _, hf, rfl, .splat, .splat hg⟩
  | void =>
    have hf := tagged_nil dumped
    exact ⟨_, .void, _, _, hf, rfl, .void, .void⟩
  | selfRef =>
    have hf := tagged_nil dumped
    exact ⟨_, .selfRef, _, _, hf, rfl, .selfRef, .selfRef⟩
  | begin n =>
    obtain ⟨g, hf, hg⟩ := tagged_one dumped
    exact ⟨_, .begin, _, _, hf, rfl, .begin, .begin hg⟩
  | paren ns =>
    obtain ⟨fs, hf, inner⟩ := dumps_group dumped
    exact ⟨_, .paren, fs, _, hf, rfl, .paren, .paren inner⟩
  | guarded body ensure =>
    obtain ⟨g, fs, hf, hg, rest⟩ := tagged_cons dumped
    obtain ⟨bs, hb, body⟩ := dumps_group hg
    cases ensure with
    | none =>
      obtain rfl := trees_nil rest
      exact ⟨_, .guarded, _, _, hf, rfl, .guarded hb, .guarded body .none⟩
    | some ensure =>
      obtain ⟨g', rfl, hg'⟩ := trees_one rest
      obtain ⟨cs, hc, ensure⟩ := dumps_group hg'
      exact ⟨_, .guarded, _, _, hf, rfl, .ensured hb hc, .guarded body (.some ensure)⟩
  | varRef name =>
    obtain ⟨tag, t, args, hf, ht, phrase⟩ := dump_variable binds dumped
    exact ⟨tag, t, args, _, hf, ht, phrase, .varRef⟩
  | varTarget name => cases admits
  | fieldTarget receiver name =>
    obtain ⟨g, g', hf, hg, hg'⟩ := tagged_two dumped
    exact ⟨_, .field, _, _, hf, rfl, .field (names_of_tree hg'), .fieldTarget hg⟩
  | multiTarget ns =>
    obtain ⟨fs, hf, inner⟩ := dumps_group dumped
    exact ⟨_, .multi, fs, _, hf, rfl, .multi, .multiTarget inner⟩
  | assign a b =>
    obtain ⟨g, g', hf, hg, hg'⟩ := tagged_two dumped
    exact ⟨_, .assign, _, _, hf, rfl, .assign, .assign hg hg'⟩
  | opAssign target op value =>
    obtain ⟨g, g', g'', hf, hg, hg', hg''⟩ := tagged_three dumped
    exact ⟨_, .opAssign, _, _, hf, rfl, .opAssign (names_of_tree hg') (BinaryOp.ofWord?_method op),
      .opAssign hg hg''⟩
  | binary left op right =>
    obtain ⟨g, g', g'', hf, hg, hg', hg''⟩ := tagged_three dumped
    exact ⟨_, .binary, _, _, hf, rfl, .binary (names_of_tree hg') (BinaryOp.ofWord?_method op),
      .binary hg hg''⟩
  | unary op operand =>
    obtain ⟨g, g', hf, hg, hg'⟩ := tagged_two dumped
    exact ⟨_, .unary, _, _, hf, rfl, .unary (names_of_tree hg) (UnaryOp.ofWord?_method op),
      .unary hg'⟩
  | ifThen condition body alternative =>
    obtain ⟨g, _, hf, hg, rest⟩ := tagged_cons dumped
    obtain ⟨g', fs, rfl, hg', rest⟩ := trees_cons rest
    obtain ⟨bs, hb, body⟩ := dumps_group hg'
    obtain ⟨a, rfl, alternative⟩ := dumps_option rest
    exact ⟨_, .ifThen, _, _, hf, rfl, .ifThen a hb, .ifThen hg body alternative⟩
  | elsif condition body alternative =>
    obtain ⟨g, _, hf, hg, rest⟩ := tagged_cons dumped
    obtain ⟨g', fs, rfl, hg', rest⟩ := trees_cons rest
    obtain ⟨bs, hb, body⟩ := dumps_group hg'
    obtain ⟨a, rfl, alternative⟩ := dumps_option rest
    exact ⟨_, .elsif, _, _, hf, rfl, .elsif a hb, .elsif hg body alternative⟩
  | elseThen ns =>
    obtain ⟨fs, hf, inner⟩ := dumps_group dumped
    exact ⟨_, .elseThen, fs, _, hf, rfl, .elseThen, .elseThen inner⟩
  | ifMod a b =>
    obtain ⟨g, g', hf, hg, hg'⟩ := tagged_two dumped
    exact ⟨_, .ifMod, _, _, hf, rfl, .ifMod, .ifMod hg hg'⟩
  | unlessThen condition body otherwise =>
    obtain ⟨g, _, hf, hg, rest⟩ := tagged_cons dumped
    obtain ⟨g', fs, rfl, hg', rest⟩ := trees_cons rest
    obtain ⟨bs, hb, body⟩ := dumps_group hg'
    cases otherwise with
    | none =>
      obtain rfl := trees_nil rest
      exact ⟨_, .unlessThen, _, _, hf, rfl, .unlessThen hb, .unlessThen hg body .none⟩
    | some otherwise =>
      obtain ⟨g'', rfl, hg''⟩ := trees_one rest
      obtain ⟨os, ho, otherwise⟩ := dumps_group hg''
      exact ⟨_, .unlessThen, _, _, hf, rfl, .unlessElse hb ho, .unlessThen hg body (.some otherwise)⟩
  | unlessMod a b =>
    obtain ⟨g, g', hf, hg, hg'⟩ := tagged_two dumped
    exact ⟨_, .unlessMod, _, _, hf, rfl, .unlessMod, .unlessMod hg hg'⟩
  | loop sense condition body =>
    obtain ⟨g, fs, hf, hg, rest⟩ := tagged_cons dumped
    refine ⟨_, .loop sense, _, _, hf, ?_, .loop, .loop hg (dumps_list rest)⟩
    cases sense <;> rfl
  | loopMod sense condition body =>
    obtain ⟨g, g', hf, hg, hg'⟩ := tagged_two dumped
    refine ⟨_, .loopMod sense, _, _, hf, ?_, .loopMod, .loopMod hg hg'⟩
    cases sense <;> rfl
  | forIn target iterable body =>
    obtain ⟨g, _, hf, hg, rest⟩ := tagged_cons dumped
    obtain ⟨g', fs, rfl, hg', rest⟩ := trees_cons rest
    exact ⟨_, .forIn, _, _, hf, rfl, .forIn, .forIn hg hg' (dumps_list rest)⟩
  | case subject clauses otherwise =>
    obtain ⟨g, _, hf, hg, rest⟩ := tagged_cons dumped
    have whens : ∀ c ∈ clauses, Slot.clause.Admits c.kind := fun c hc =>
      places .clause c (by simp [Kind.fields, Kind.inRole, hc])
    obtain ⟨cs, o, said, clauses, otherwise⟩ := dump_case whens rest
    exact ⟨_, .case, _, _, hf, rfl, .case said, .case hg clauses otherwise⟩
  | whenThen candidates body =>
    obtain ⟨g, fs, hf, hg, rest⟩ := tagged_cons dumped
    obtain ⟨cs, hc, candidates⟩ := dumps_group hg
    exact ⟨_, .whenThen, _, _, hf, rfl, .whenThen hc, .whenThen candidates (dumps_list rest)⟩
  | returnWith ns =>
    obtain ⟨fs, hf, inner⟩ := dumps_group dumped
    exact ⟨_, .returnWith, fs, _, hf, rfl, .returnWith, .returnWith inner⟩
  | breakWith ns =>
    obtain ⟨fs, hf, inner⟩ := dumps_group dumped
    exact ⟨_, .breakWith, fs, _, hf, rfl, .breakWith, .breakWith inner⟩
  | nextWith ns =>
    obtain ⟨fs, hf, inner⟩ := dumps_group dumped
    exact ⟨_, .nextWith, fs, _, hf, rfl, .nextWith, .nextWith inner⟩
  | redo =>
    have hf := tagged_nil dumped
    exact ⟨_, .redo, _, _, hf, rfl, .redo, .redo⟩
  | call receiver method args blockPass block =>
    obtain ⟨r, _, hf, hr, rest⟩ := tagged_cons dumped
    obtain ⟨m, fs, rfl, hm, rest⟩ := trees_cons rest
    have blocks : ∀ c, block = some c → Slot.block.Admits c.kind := fun c hc =>
      places .block c (by simp [Kind.fields, Kind.inRole, hc])
    obtain ⟨as, p, b, said, -, hargs, hp, hb⟩ := dump_call positional blocks rest
    exact ⟨_, .call, _, _, hf, rfl, .call (names_of_tree hm) said,
      .call (dumps_receiver hr) hargs hp hb⟩
  | doBlock params body =>
    obtain ⟨g, fs, hf, hg, rest⟩ := tagged_cons dumped
    obtain ⟨ps, hp, declared⟩ := tagged_of_tree hg
    exact ⟨_, .doBlock, _, _, hf, rfl, .doBlock hp (dumps_parameters locals declared),
      .doBlock (dumps_list rest)⟩
  | super args blockPass block =>
    obtain ⟨fs, hf, args_trees⟩ := tagged_of_tree dumped
    have blocks : ∀ c, block = some c → Slot.block.Admits c.kind := fun c hc =>
      places .block c (by simp [Kind.fields, Kind.inRole, hc])
    obtain ⟨as, p, b, said, -, hargs, hp, hb⟩ := dump_call positional blocks args_trees
    exact ⟨_, .super, _, _, hf, rfl, .super said, .super hargs hp hb⟩
  | zsuper block =>
    obtain ⟨fs, hf, args⟩ := tagged_of_tree dumped
    obtain ⟨b, rfl, block⟩ := dumps_option args
    exact ⟨_, .zsuper, _, _, hf, rfl, .zsuper b, .zsuper block⟩

/-- A call that is dumped has at most one block of each sort. -/
lemma dump_single {n : Node} (h : n.Dumpable scope) (dumped : Dumps f n) : f.SingleBlocks := by
  obtain ⟨info, kind⟩ := n
  obtain ⟨-, -, places, positional, -⟩ := h
  change ∀ role c, (role, c) ∈ kind.fields → role.slot.Admits c.kind at places
  intro tag args hf
  have spelled : tag ∈ ["do-block", "call", "super"] → kind.tag = tag :=
    (dump_tag? (by rw [← dumped, tag?_tree, hf.tag?])).2
  constructor
  · intro ht
    obtain rfl : tag = "call" := List.mem_singleton.1 (Tag.mem_symbols ht)
    have is_call := spelled (by decide)
    cases kind with
    | call receiver method as blockPass block =>
      obtain ⟨_, hf', trees_args⟩ := tagged_of_tree dumped
      cases hf
      cases hf'
      obtain ⟨_, _, rfl, -, rest⟩ := trees_cons trees_args
      obtain ⟨_, fs, rfl, -, rest⟩ := trees_cons rest
      have blocks : ∀ c, block = some c → Slot.block.Admits c.kind := fun c hc =>
        places .block c (by simp [Kind.fields, hc])
      obtain ⟨_, _, _, -, single, -⟩ := dump_call positional blocks rest
      exact single
    | loop sense _ _ | loopMod sense _ _ => cases sense <;> exact absurd is_call (by simp [Kind.tag])
    | _ => exact absurd is_call (by simp [Kind.tag])
  · intro ht
    obtain rfl : tag = "super" := List.mem_singleton.1 (Tag.mem_symbols ht)
    have is_super := spelled (by decide)
    cases kind with
    | super as blockPass block =>
      obtain ⟨_, hf', trees_args⟩ := tagged_of_tree dumped
      cases hf
      cases hf'
      have blocks : ∀ c, block = some c → Slot.block.Admits c.kind := fun c hc =>
        places .block c (by simp [Kind.fields, hc])
      obtain ⟨_, _, _, -, single, -⟩ := dump_call positional blocks trees_args
      exact single
    | loop sense _ _ | loopMod sense _ _ => cases sense <;> exact absurd is_super (by simp [Kind.tag])
    | _ => exact absurd is_super (by simp [Kind.tag])

/-- The dump of a node says what the node says, wherever the node may stand. -/
lemma dump_says_kind {slot : Slot} {n : Node} (h : n.Dumpable scope) (admits : slot.Admits n.kind)
    (dumped : Dumps f n) :
    ∃ said, Says slot f said (n.kind.bound n.info.binding) ∧ Kind.Rel (fun _ => Dumps) said n.kind := by
  obtain ⟨info, kind⟩ := n
  have binds : kind.Binds info.binding := h.binds
  -- what is not a target or a text is a form with a tag
  have phrased : Slot.expression.Admits kind → ∃ tag t args said, f.Tagged tag args ∧
      Tag.ofSymbol? tag = some t ∧ Phrase t args said (kind.bound info.binding) ∧
        Kind.Rel (fun _ => Dumps) said kind := fun place => dump_phrase h place dumped
  cases slot with
  | expression =>
    obtain ⟨tag, t, args, said, hf, ht, phrase, rel⟩ := phrased admits
    exact ⟨said, .tagged hf ht phrase, rel⟩
  | part =>
    cases kind with
    | content text =>
      rcases f with ⟨e, a⟩ | ⟨e, items⟩
      · cases dumped
        exact ⟨_, .content, .content⟩
      · cases dumped
    | _ =>
      obtain ⟨tag, t, args, said, hf, ht, phrase, rel⟩ := phrased admits
      have no_text : f.text? = none := by
        cases hf
        rfl
      exact ⟨said, .part no_text (.tagged hf ht phrase), rel⟩
  | target =>
    cases kind with
    | varTarget name =>
      obtain ⟨kind, variable_kind, bound⟩ := binds
      obtain ⟨g, hf, hg⟩ := tagged_one dumped
      refine ⟨_, ?_, .varTarget⟩
      rw [bound] at hf
      simp only [Node.kind, Node.info, Kind.bound, bound]
      exact .varTarget hf (formTag_variable variable_kind) (names_of_tree hg)
    | fieldTarget receiver name =>
      obtain ⟨tag, t, args, said, hf, ht, phrase, rel⟩ := phrased trivial
      obtain rfl : t = .field := by
        cases rel
        cases phrase
        rfl
      exact ⟨said, .field hf ht phrase, rel⟩
    | multiTarget targets =>
      obtain ⟨tag, t, args, said, hf, ht, phrase, rel⟩ := phrased trivial
      obtain rfl : t = .multi := by
        cases rel
        cases phrase
        rfl
      exact ⟨said, .multi hf ht phrase, rel⟩
    | _ => cases admits
  | alternative =>
    cases kind with
    | elsif condition body alternative =>
      obtain ⟨tag, t, args, said, hf, ht, phrase, rel⟩ := phrased trivial
      obtain rfl : t = .elsif := by
        cases rel
        cases phrase
        rfl
      obtain rfl := List.mem_singleton.1 (Tag.mem_symbols ht)
      exact ⟨said, .elsif hf phrase, rel⟩
    | elseThen body =>
      obtain ⟨tag, t, args, said, hf, ht, phrase, rel⟩ := phrased trivial
      obtain rfl : t = .elseThen := by
        cases rel
        cases phrase
        rfl
      obtain rfl := List.mem_singleton.1 (Tag.mem_symbols ht)
      exact ⟨said, .elseThen hf phrase, rel⟩
    | _ => cases admits
  | clause =>
    cases kind with
    | whenThen candidates body =>
      obtain ⟨tag, t, args, said, hf, ht, phrase, rel⟩ := phrased trivial
      obtain rfl : t = .whenThen := by
        cases rel
        cases phrase
        rfl
      obtain rfl := List.mem_singleton.1 (Tag.mem_symbols ht)
      exact ⟨said, .clause hf phrase, rel⟩
    | _ => cases admits
  | block =>
    cases kind with
    | doBlock params body =>
      obtain ⟨tag, t, args, said, hf, ht, phrase, rel⟩ := phrased trivial
      obtain rfl : t = .doBlock := by
        cases rel
        cases phrase
        rfl
      exact ⟨said, .block hf phrase, rel⟩
    | _ => cases admits

/-! ## Reading dumps -/

lemma dump_scope (h : scope.Dumpable) (dumped : f.tree = scope.dump) : ScopeSays f scope := by
  obtain ⟨⟨self, kind⟩, method⟩ := scope
  obtain rfl : kind = .selfRef := h.self
  obtain ⟨g, gs, hf, hg, rest⟩ := tagged_cons dumped
  cases method with
  | none =>
    obtain rfl := trees_nil rest
    exact .plain hf (names_of_tree hg)
  | some m =>
    obtain ⟨d, rfl, hd⟩ := trees_one rest
    obtain ⟨n, ps, hd, hn, declared⟩ := tagged_cons hd
    exact .method hf (names_of_tree hg) hd (names_of_tree hn)
      (dumps_parameters (h.params m rfl) declared)

namespace Reading

open Reader

/-- A node is read from its dump, wherever it may stand. -/
lemma gives_dump {file : String} (n : Node) (h : n.Each (Node.Dumpable scope)) {slot : Slot}
    (admits : slot.Admits n.kind) (dumped : Dumps f n) :
    (inSlot ⟨file, scope⟩ slot f).Gives n.Alike := by
  induction n using Node.induction_below generalizing slot f with
  | step n ih =>
    obtain ⟨said, hf, rel⟩ := dump_says_kind h.1 admits dumped
    -- the children are read from the forms that the dump of the node holds
    have kids : Kind.Rel (fun role f d => (inSlot ⟨file, scope⟩ role.slot f).Gives d.Alike) said
        n.kind := by
      refine rel.imp_mem fun role f d _ mem dumped_child => ?_
      have below : n.Holds d := by
        obtain ⟨info, kind⟩ := n
        exact .child (Kind.mem_children.2 ⟨role, mem⟩)
      exact ih d below (h.below below) (h.1.places role d mem) dumped_child
    intro k
    obtain ⟨m, k', hm, ⟨id, info⟩, kind⟩ := gives_inSlot kids hf (dump_single h.1 dumped) k
    refine ⟨m, k', hm, ?_⟩
    obtain ⟨i, kind'⟩ := n
    obtain ⟨j, kind''⟩ := m
    obtain rfl : j = Setting.info _ _ _ _ := info
    exact .mk rfl h.1.scope.symm kind

end Reading

/-! ## The same tree again -/

/-- A tree, and the same tree with other numbers and places. -/
inductive Node.Moved : Node → Node → Prop where
  | mk {i j : Info} {k l : Kind Node}
      (info : j = { i with id := j.id, location := j.location, span := j.span })
      (kind : Kind.Rel (fun _ => Node.Moved) k l) : Node.Moved (.mk i k) (.mk j l)

/-- A node that is a variable or carries no binding. -/
def Node.BindsVariable (n : Node) : Prop :=
  n.info.binding = none ∨ ∃ name, n.kind = .varRef name ∨ n.kind = .varTarget name

/-- Trees in which only variables are bound are alike only if they are the same tree but for the
numbers and places of their nodes. -/
lemma Node.Alike.moved {n m : Node} (h : n.Alike m) (bound : n.Each Node.BindsVariable) :
    n.Moved m := by
  induction n using Node.induction_below generalizing m with
  | step n ih =>
    obtain @⟨i, j, k, l, binding, scope, kind⟩ := h
    refine .mk ?_ (kind.imp_mem fun role c d mem _ alike =>
      ih c (.child (Kind.mem_children.2 ⟨role, mem⟩)) alike
        (bound.child (Kind.mem_children.2 ⟨role, mem⟩)))
    have kept : k.bound i.binding = i.binding := by
      rcases bound.1 with unbound | ⟨name, rfl | rfl⟩
      · have h : i.binding = none := unbound
        rw [h]
        cases k <;> rfl
      · rfl
      · rfl
    obtain ⟨id, location, span, binding', scope'⟩ := j
    obtain rfl : binding' = _ := binding
    obtain rfl : scope' = _ := scope
    rw [kept]

/-- Reading the dump of a program gives the program back, with new numbers and places, wherever the
forms of the dump stand: all that can be lost is the binding of a node that is no variable. -/
theorem root_of_dump (file : String) (scope : Scope) (info : Info) (body : List Node) (f : Form)
    (declared : scope.Dumpable)
    (dumpable : (Node.mk info (.program body)).Each (Node.Dumpable scope))
    (dumped : f.tree = (Node.mk info (.program body)).dump) :
    ∃ m, Reading.root file [f] = .ok m ∧ (Node.mk info (.program body)).Alike m ∧
      ((Node.mk info (.program body)).Each Node.BindsVariable →
        (Node.mk info (.program body)).Moved m) := by
  have in_scope : info.scope = some scope := dumpable.1.scope
  rw [Node.dump, in_scope] at dumped
  obtain ⟨g, gs, hf, hg, rest⟩ := tagged_cons dumped
  have statements : List.Forall₂ (fun f d => (Reading.expression ⟨file, scope⟩ f).Gives d.Alike)
      gs body := by
    refine forall₂_imp_mem (dumps_list rest) fun f _ d mem dumped_child => ?_
    have child : (Role.body, d) ∈ (Kind.program body).fields := by simp [Kind.fields, mem]
    have place : Slot.expression.Admits d.kind := dumpable.1.places .body d child
    exact Reading.gives_dump d (dumpable.child (Kind.mem_children.2 ⟨_, child⟩)) place dumped_child
  obtain ⟨⟨j, kind⟩, k, hm, ⟨id, hj⟩, rel⟩ :=
    Reading.gives_program (s := ⟨file, .main⟩) hf (dump_scope declared hg) statements 0
  obtain rfl : j = Setting.info _ _ _ _ := hj
  have alike : (Node.mk info (.program body)).Alike
      (.mk (Setting.info ⟨file, scope⟩ f.extent none id) kind) := .mk rfl in_scope.symm rel
  exact ⟨_, Reading.run'_eq_ok.2 ⟨k, hm⟩, alike, alike.moved⟩

/-- A method that passes its parameter on, with a block that is left by a `break`. -/
theorem root_of_dump_block :
    let scope : Scope := ⟨.selfRef "it", some ⟨"each", [⟨⟨"x", .localVar⟩, .optional⟩]⟩⟩
    let node (kind : Kind Node) (binding : Option Binding) : Node :=
      .mk { binding, scope := some scope } kind
    let body := [node (.call none "map" [node (.varRef "x") (some ⟨"x", .localVar⟩)] none
      (some (node (.doBlock [⟨⟨"y", .localVar⟩, .required⟩]
        [node (.breakWith [node (.varRef "count") none]) none]) none))) none]
    let root := node (.program body) none
    scope.Dumpable ∧ root.Each (Node.Dumpable scope) ∧ root.Each Node.BindsVariable ∧
      ∃ m, Reading.root "block" [root.dump.atOrigin] = .ok m ∧ root.Alike m ∧ root.Moved m := by
  intro scope node body root
  have declared : scope.Dumpable := by
    refine ⟨rfl, ?_⟩
    rintro _ ⟨⟩ p hp
    obtain rfl := List.mem_singleton.1 hp
    rfl
  have dumpable : root.Each (Node.Dumpable scope) := by
    simp [root, body, node, Node.each_mk, Node.dumpable_iff, Kind.children, Kind.fields,
      Kind.inRole, Kind.Binds, Kind.positional, Kind.params, Role.slot, Slot.Admits,
      BindingKind.formTags, Node.kind, Node.info, Node.tag, Kind.tag]
    rintro role c (⟨rfl, rfl⟩ | ⟨rfl, rfl⟩) <;> trivial
  have bound : root.Each Node.BindsVariable := by
    simp [root, body, node, Node.each_mk, Node.BindsVariable, Kind.children, Kind.fields,
      Kind.inRole, Node.kind, Node.info]
  obtain ⟨m, read, alike, moved⟩ :=
    root_of_dump "block" scope _ body _ declared dumpable (Tree.tree_atOrigin _)
  exact ⟨declared, dumpable, bound, m, read, alike, moved bound⟩

end ControlFlow
