import ControlFlow.Proofs.Reading.Phrase
import ControlFlow.Reading.Source
/-!
# Readers make what forms say

One lemma for each reader: if it succeeds, then the form said something, and the node that was made
said it too.
-/

namespace ControlFlow

namespace Reading

open Reader Form

variable {s : Setting} {e : Extent} {k k' : Nat} {f : Form} {fs args : List Form} {n : Node}
  {ns : List Node}

/-! ## Atoms and tags -/

lemma gets_name {a : String} (h : (name s f).Gets k a k') : f.Names a := by
  unfold name at h
  split at h
  · rw [gets_pure] at h
    rw [h.1]
    exact .symbol
  · rw [gets_pure] at h
    rw [h.1]
    exact .text
  · simp at h

lemma gets_text {t : String} (h : (text s f).Gets k t k') : f.text? = some t := by
  unfold text at h
  split at h
  · rw [gets_pure] at h
    rw [h.1]
    rfl
  · simp at h

variable {tag : String}

lemma gets_split (h : (split s f).Gets k (tag, args) k') : f.Tagged tag args := by
  unfold split at h
  split at h
  · rw [gets_pure, Prod.mk.injEq] at h
    rw [h.1.1, h.1.2]
    exact .mk
  · simp at h

lemma tagged_of_tag? (h : f.tag? = some tag) : ∃ args, f.Tagged tag args := by
  rcases f with ⟨e, a⟩ | ⟨e, _ | ⟨g, args⟩⟩
  · cases h
  · cases h
  · rcases g with ⟨e', a | a | a | a⟩ | ⟨e', items⟩
    · cases h
      exact ⟨args, .mk⟩
    all_goals cases h

lemma gets_parameter {p : Parameter} (h : (parameter s f).Gets k p k') : f.Declares p := by
  simp only [parameter, gets_bind] at h
  obtain ⟨⟨tag, args⟩, j, hf, h⟩ := h
  rcases args with _ | ⟨m, _ | ⟨m', args⟩⟩
  · simp at h
  · cases hk : ParameterKind.ofTag? tag with
    | none =>
      simp only [hk] at h
      simp at h
    | some kind =>
      simp only [hk, gets_bind, gets_pure] at h
      obtain ⟨name, j', hname, rfl, -⟩ := h
      exact ⟨tag, m, name, kind, gets_split hf, hk, gets_name hname, rfl⟩
  · simp at h

lemma gets_parameters {params : List Parameter}
    (h : (fs.mapM (parameter s)).Gets k params k') : List.Forall₂ Declares fs params := by
  refine (gets_mapM h).imp fun p param read => ?_
  obtain ⟨j, j', read⟩ := read
  exact gets_parameter read

/-! ## Lists of forms -/

lemma gets_expressions (h : (expressions s fs).Gets k ns k') :
    List.Forall₂ (Reads s .expression) fs ns :=
  gets_mapM (expressions_eq_mapM fs ▸ h)

lemma gets_targets (h : (targets s fs).Gets k ns k') : List.Forall₂ (Reads s .target) fs ns :=
  gets_mapM (targets_eq_mapM fs ▸ h)

lemma gets_parts (h : (parts s fs).Gets k ns k') : List.Forall₂ (Reads s .part) fs ns :=
  gets_mapM (parts_eq_mapM fs ▸ h)

lemma gets_sequence (h : (sequence s f).Gets k ns k') :
    ∃ fs, f.Tagged "seq" fs ∧ List.Forall₂ (Reads s .expression) fs ns := by
  unfold sequence at h
  split at h
  · split at h
    · rename_i tag
      subst tag
      exact ⟨_, .mk, gets_expressions h⟩
    · simp at h
  · simp at h

lemma gets_ensureClause (h : (ensureClause s f).Gets k ns k') :
    ∃ fs, f.Tagged "ensure" fs ∧ List.Forall₂ (Reads s .expression) fs ns := by
  unfold ensureClause at h
  split at h
  · split at h
    · rename_i tag
      subst tag
      exact ⟨_, .mk, gets_expressions h⟩
    · simp at h
  · simp at h

lemma gets_elseClause (h : (elseClause s f).Gets k ns k') :
    ∃ fs, f.Tagged "else" fs ∧ List.Forall₂ (Reads s .expression) fs ns := by
  unfold elseClause at h
  split at h
  · split at h
    · rename_i tag
      subst tag
      exact ⟨_, .mk, gets_expressions h⟩
    · simp at h
  · simp at h

lemma gets_clauses {other : Option (List Node)} (h : (clauses s fs).Gets k (ns, other) k') :
    ∃ cs o, CaseSays fs cs o ∧ List.Forall₂ (Reads s .clause) cs ns ∧
      Option.Rel (List.Forall₂ (Reads s .expression)) o other := by
  induction fs generalizing k k' ns with
  | nil =>
    rw [clauses, gets_pure, Prod.mk.injEq] at h
    rw [h.1.1, h.1.2]
    exact ⟨[], none, .nil, .nil, .none⟩
  | cons f fs ih =>
    unfold clauses at h
    split at h
    · rename_i tag
      simp only [gets_bind, gets_pure] at h
      obtain ⟨n, j, head, ⟨ns', other'⟩, j', tail, eq, -⟩ := h
      obtain ⟨rfl, rfl⟩ := Prod.mk.inj eq
      obtain ⟨cs, o, said, clauses, otherwise⟩ := ih tail
      refine ⟨f :: cs, o, .clause tag said, .cons ⟨k, j, ?_⟩ clauses, otherwise⟩
      rwa [inSlot, if_pos tag]
    · split at h
      · rename_i last
        obtain rfl := List.isEmpty_iff.1 last.2
        simp only [gets_bind, gets_pure] at h
        obtain ⟨body, j, head, eq, -⟩ := h
        obtain ⟨rfl, rfl⟩ := Prod.mk.inj eq
        obtain ⟨bs, tagged, otherwise⟩ := gets_elseClause head
        exact ⟨[], some bs, .otherwise tagged, .nil, .some otherwise⟩
      · simp at h

lemma gets_blockPass (tag : f.tag? = some "block-pass") (h : (blockPass s f).Gets k n k') :
    ∃ v, f.Tagged "block-pass" [v] ∧ Reads s .expression v n := by
  obtain ⟨args, ⟨⟩⟩ := tagged_of_tag? tag
  rcases args with _ | ⟨v, _ | ⟨w, args⟩⟩
  · exact absurd h gets_failArity
  · exact ⟨v, .mk, k, k', h⟩
  · exact absurd h gets_failArity

lemma gets_callParts {c : CallParts} (h : (callParts s fs).Gets k c k') :
    ∃ args p b, CallSays fs args p b ∧ List.Forall₂ (Reads s .expression) args c.args ∧
      Option.Rel (Reads s .expression) p c.blockPass ∧ Option.Rel (Reads s .block) b c.block := by
  induction fs generalizing k k' c with
  | nil =>
    rw [callParts, gets_pure] at h
    rw [h.1]
    exact ⟨[], none, none, .nil, .nil, .none, .none⟩
  | cons f fs ih =>
    unfold callParts at h
    split at h
    · rename_i tag
      simp only [gets_bind, gets_pure] at h
      obtain ⟨n, j, head, c', j', tail, rfl, -⟩ := h
      obtain ⟨args, p, b, said, rargs, rp, rb⟩ := ih tail
      obtain ⟨v, tagged, rv⟩ := gets_blockPass tag head
      exact ⟨args, _, b, .blockPass tagged said, rargs, rel_orElse rp rv, rb⟩
    · split at h
      · rename_i tag
        simp only [gets_bind, gets_pure] at h
        obtain ⟨n, j, head, c', j', tail, rfl, -⟩ := h
        obtain ⟨args, p, b, said, rargs, rp, rb⟩ := ih tail
        exact ⟨args, p, _, .block tag said, rargs, rp, rel_orElse rb ⟨_, _, head⟩⟩
      · rename_i pass block
        simp only [gets_bind, gets_pure] at h
        obtain ⟨n, j, head, c', j', tail, rfl, -⟩ := h
        obtain ⟨args, p, b, said, rargs, rp, rb⟩ := ih tail
        exact ⟨f :: args, p, b, .arg pass block said, .cons ⟨_, _, head⟩ rargs, rp, rb⟩

/-! ## Forms with a tag -/

/-- A node that was built from the forms behind a tag. -/
def Phrased (s : Setting) (e : Extent) (t : Tag) (args : List Form) (n : Node) : Prop :=
  ∃ said b, Phrase t args said b ∧ Built s e said b n

lemma phrased {t : Tag} {said : Kind Form} {b : Option Binding} {kind : Kind Node}
    (made : (make s e kind b).Gets k n k') (phrase : Phrase t args said b)
    (rel : Kind.Rel (fun role => Reads s role.slot) said kind) : Phrased s e t args n := by
  obtain ⟨rfl, -⟩ := gets_make.1 made
  exact ⟨said, b, phrase, ⟨k + 1, rfl⟩, rel⟩

lemma gets_fieldForm (h : (fieldForm s e tag args).Gets k n k') : Phrased s e .field args n := by
  unfold fieldForm at h
  split at h
  · obtain ⟨r, j, hr, name, j', hn, made⟩ := gets_bind_bind h
    exact phrased made (.field (gets_name hn)) (.fieldTarget ⟨_, _, hr⟩)
  · simp at h

lemma gets_elsifForm (h : (elsifForm s e tag args).Gets k n k') : Phrased s e .elsif args n := by
  unfold elsifForm at h
  split at h
  · obtain ⟨c, j, hc, body, j', hb, made⟩ := gets_bind_bind h
    obtain ⟨bs, tagged, rb⟩ := gets_sequence hb
    exact phrased made (.elsif none tagged) (.elsif ⟨_, _, hc⟩ rb .none)
  · simp only [gets_bind] at h
    obtain ⟨c, j, hc, body, j', hb, other, j'', ho, made⟩ := h
    obtain ⟨bs, tagged, rb⟩ := gets_sequence hb
    exact phrased made (.elsif (some _) tagged) (.elsif ⟨_, _, hc⟩ rb (.some ⟨_, _, ho⟩))
  · simp at h

lemma gets_whenForm (h : (whenForm s e tag args).Gets k n k') : Phrased s e .whenThen args n := by
  unfold whenForm at h
  split at h
  · obtain ⟨cs, j, hc, body, j', hb, made⟩ := gets_bind_bind h
    obtain ⟨fs, tagged, rc⟩ := gets_sequence hc
    exact phrased made (.whenThen tagged) (.whenThen rc (gets_expressions hb))
  · simp at h

lemma gets_blockForm (h : (blockForm s e tag args).Gets k n k') : Phrased s e .doBlock args n := by
  unfold blockForm at h
  split at h
  · simp only [gets_bind] at h
    obtain ⟨⟨tag', ps⟩, j, hp, h⟩ := h
    split at h
    · simp at h
    · rename_i params
      obtain rfl := not_not.1 params
      obtain ⟨params, j', hps, body, j'', hb, made⟩ := gets_bind_bind h
      exact phrased made (.doBlock (gets_split hp) (gets_parameters hps))
        (.doBlock (gets_expressions hb))
  · simp at h

/-- The node of a form with a tag says what the tag says. -/
lemma gets_tagged {e' : Extent} {t : Tag} (ht : Tag.ofSymbol? tag = some t)
    (h : (tagged s e (.atom e' (.symbol tag) :: args)).Gets k n k') : Phrased s e t args n := by
  unfold tagged at h
  simp only at h
  rw [ht] at h
  -- every tag allows certain shapes of its arguments, and any other shape is a fault
  cases t with dsimp only at h
  | varRef kind =>
    split at h
    · obtain ⟨name, _, hn, made⟩ := gets_bind.1 h
      exact phrased made (.varRef (gets_name hn)) .varRef
    · simp at h
  | constant value =>
    split at h
    · exact phrased h .constant .literal
    · simp at h
  | int =>
    split at h
    · split at h
      · exact phrased h (.int ‹_›) .literal
      · simp at h
    · simp at h
  | float =>
    split at h
    · split at h
      · exact phrased h (.float ‹_›) .literal
      · simp at h
    · simp at h
  | symbol =>
    split at h
    · obtain ⟨name, _, hn, made⟩ := gets_bind.1 h
      exact phrased made (.symbol (gets_name hn)) .literal
    · simp at h
  | char =>
    split at h
    · obtain ⟨t, _, ht, made⟩ := gets_bind.1 h
      exact phrased made (.char (gets_text ht)) .literal
    · simp at h
  | str =>
    obtain ⟨parts, _, hp, made⟩ := gets_bind.1 h
    exact phrased made .str (.str (gets_parts hp))
  | command =>
    obtain ⟨parts, _, hp, made⟩ := gets_bind.1 h
    exact phrased made .command (.command (gets_parts hp))
  | regexp =>
    split at h
    · obtain ⟨options, _, ho, parts, _, hp, made⟩ := gets_bind_bind h
      exact phrased made (.regexp (gets_text ho)) (.regexp (gets_parts hp))
    · simp at h
  | embed =>
    obtain ⟨body, _, hb, made⟩ := gets_bind.1 h
    exact phrased made .embed (.embed (gets_expressions hb))
  | array =>
    obtain ⟨elements, _, hs, made⟩ := gets_bind.1 h
    exact phrased made .array (.array (gets_expressions hs))
  | splat =>
    split at h
    · obtain ⟨value, _, hv, made⟩ := gets_bind.1 h
      exact phrased made .splat (.splat ⟨_, _, hv⟩)
    · simp at h
  | void => exact phrased h .void .void
  | selfRef => exact phrased h .selfRef .selfRef
  | begin =>
    split at h
    · obtain ⟨body, _, hb, made⟩ := gets_bind.1 h
      exact phrased made .begin (.begin ⟨_, _, hb⟩)
    · simp at h
  | paren =>
    obtain ⟨body, _, hb, made⟩ := gets_bind.1 h
    exact phrased made .paren (.paren (gets_expressions hb))
  | guarded =>
    split at h
    · obtain ⟨body, _, hb, made⟩ := gets_bind.1 h
      obtain ⟨bs, seq, rb⟩ := gets_sequence hb
      exact phrased made (.guarded seq) (.guarded rb .none)
    · obtain ⟨body, _, hb, clause, _, hc, made⟩ := gets_bind_bind h
      obtain ⟨bs, seq, rb⟩ := gets_sequence hb
      obtain ⟨cs, ensure, rc⟩ := gets_ensureClause hc
      exact phrased made (.ensured seq ensure) (.guarded rb (.some rc))
    · simp at h
  | vcall =>
    split at h
    · obtain ⟨name, _, hn, made⟩ := gets_bind.1 h
      exact phrased made (.vcall (gets_name hn)) .varRef
    · simp at h
  | field => exact gets_fieldForm h
  | multi =>
    obtain ⟨targets, _, ht, made⟩ := gets_bind.1 h
    exact phrased made .multi (.multiTarget (gets_targets ht))
  | assign =>
    split at h
    · obtain ⟨target, _, ht, value, _, hv, made⟩ := gets_bind_bind h
      exact phrased made .assign (.assign ⟨_, _, ht⟩ ⟨_, _, hv⟩)
    · simp at h
  | opAssign =>
    split at h
    · obtain ⟨word, _, hw, h⟩ := gets_bind.1 h
      split at h
      · simp at h
      rename_i op known
      obtain ⟨target, _, ht, value, _, hv, made⟩ := gets_bind_bind h
      exact phrased made (.opAssign (gets_name hw) known)
        (.opAssign ⟨_, _, ht⟩ ⟨_, _, hv⟩)
    · simp at h
  | binary =>
    split at h
    · obtain ⟨word, _, hw, h⟩ := gets_bind.1 h
      split at h
      · simp at h
      rename_i op known
      obtain ⟨left, _, hl, right, _, hr, made⟩ := gets_bind_bind h
      exact phrased made (.binary (gets_name hw) known)
        (.binary ⟨_, _, hl⟩ ⟨_, _, hr⟩)
    · simp at h
  | unary =>
    split at h
    · obtain ⟨word, _, hw, h⟩ := gets_bind.1 h
      split at h
      · simp at h
      rename_i op known
      obtain ⟨operand, _, ho, made⟩ := gets_bind.1 h
      exact phrased made (.unary (gets_name hw) known) (.unary ⟨_, _, ho⟩)
    · simp at h
  | ifThen =>
    split at h
    · obtain ⟨c, _, hc, body, _, hb, made⟩ := gets_bind_bind h
      obtain ⟨bs, seq, rb⟩ := gets_sequence hb
      exact phrased made (.ifThen none seq) (.ifThen ⟨_, _, hc⟩ rb .none)
    · simp only [gets_bind] at h
      obtain ⟨c, _, hc, body, _, hb, other, _, ho, made⟩ := h
      obtain ⟨bs, seq, rb⟩ := gets_sequence hb
      exact phrased made (.ifThen (some _) seq) (.ifThen ⟨_, _, hc⟩ rb (.some ⟨_, _, ho⟩))
    · simp at h
  | elsif => exact gets_elsifForm h
  | elseThen =>
    obtain ⟨body, _, hb, made⟩ := gets_bind.1 h
    exact phrased made .elseThen (.elseThen (gets_expressions hb))
  | unlessThen =>
    split at h
    · obtain ⟨c, _, hc, body, _, hb, made⟩ := gets_bind_bind h
      obtain ⟨bs, seq, rb⟩ := gets_sequence hb
      exact phrased made (.unlessThen seq) (.unlessThen ⟨_, _, hc⟩ rb .none)
    · simp only [gets_bind] at h
      obtain ⟨c, _, hc, body, _, hb, other, _, ho, made⟩ := h
      obtain ⟨bs, seq, rb⟩ := gets_sequence hb
      obtain ⟨os, otherwise, ro⟩ := gets_elseClause ho
      exact phrased made (.unlessElse seq otherwise) (.unlessThen ⟨_, _, hc⟩ rb (.some ro))
    · simp at h
  | ifMod =>
    split at h
    · obtain ⟨c, _, hc, body, _, hb, made⟩ := gets_bind_bind h
      exact phrased made .ifMod (.ifMod ⟨_, _, hc⟩ ⟨_, _, hb⟩)
    · simp at h
  | unlessMod =>
    split at h
    · obtain ⟨c, _, hc, body, _, hb, made⟩ := gets_bind_bind h
      exact phrased made .unlessMod (.unlessMod ⟨_, _, hc⟩ ⟨_, _, hb⟩)
    · simp at h
  | loop sense =>
    split at h
    · obtain ⟨c, _, hc, body, _, hb, made⟩ := gets_bind_bind h
      exact phrased made .loop (.loop ⟨_, _, hc⟩ (gets_expressions hb))
    · simp at h
  | loopMod sense =>
    split at h
    · obtain ⟨c, _, hc, body, _, hb, made⟩ := gets_bind_bind h
      exact phrased made .loopMod (.loopMod ⟨_, _, hc⟩ ⟨_, _, hb⟩)
    · simp at h
  | forIn =>
    split at h
    · simp only [gets_bind] at h
      obtain ⟨target, _, ht, iterable, _, hi, body, _, hb, made⟩ := h
      exact phrased made .forIn
        (.forIn ⟨_, _, ht⟩ ⟨_, _, hi⟩ (gets_expressions hb))
    · simp at h
  | case =>
    split at h
    · obtain ⟨subject, _, hs, ⟨clauses, other⟩, _, hc, made⟩ := gets_bind_bind h
      obtain ⟨cs, o, said, rc, ro⟩ := gets_clauses hc
      exact phrased made (.case said) (.case ⟨_, _, hs⟩ rc ro)
    · simp at h
  | whenThen => exact gets_whenForm h
  | returnWith =>
    obtain ⟨args, _, ha, made⟩ := gets_bind.1 h
    exact phrased made .returnWith (.returnWith (gets_expressions ha))
  | returnNothing =>
    split at h
    · exact phrased h .returnNothing (.returnWith .nil)
    · simp at h
  | breakWith =>
    obtain ⟨args, _, ha, made⟩ := gets_bind.1 h
    exact phrased made .breakWith (.breakWith (gets_expressions ha))
  | nextWith =>
    obtain ⟨args, _, ha, made⟩ := gets_bind.1 h
    exact phrased made .nextWith (.nextWith (gets_expressions ha))
  | redo =>
    split at h
    · exact phrased h .redo .redo
    · simp at h
  | call =>
    split at h
    · split at h
      · rename_i own
        simp only [gets_bind, gets_pure] at h
        obtain ⟨_, _, ⟨rfl, rfl⟩, method, _, hm, parts, _, hp, made⟩ := h
        obtain ⟨args, p, b, said, ra, rp, rb⟩ := gets_callParts hp
        refine phrased made (.call (gets_name hm) said) (.call ?_ ra rp rb)
        rw [receiver?, if_pos own]
        exact .none
      · rename_i other
        simp only [gets_bind, gets_pure] at h
        obtain ⟨r, _, hr, _, _, ⟨rfl, rfl⟩, method, _, hm, parts, _, hp, made⟩ := h
        obtain ⟨args, p, b, said, ra, rp, rb⟩ := gets_callParts hp
        refine phrased made (.call (gets_name hm) said) (.call ?_ ra rp rb)
        rw [receiver?, if_neg other]
        exact .some ⟨_, _, hr⟩
    · simp at h
  | doBlock => exact gets_blockForm h
  | super =>
    obtain ⟨parts, _, hp, made⟩ := gets_bind.1 h
    obtain ⟨args, p, b, said, ra, rp, rb⟩ := gets_callParts hp
    exact phrased made (.super said) (.super ra rp rb)
  | zsuper =>
    split at h
    · exact phrased h (.zsuper none) (.zsuper .none)
    · obtain ⟨block, _, hb, made⟩ := gets_bind.1 h
      exact phrased made (.zsuper (some _)) (.zsuper (.some ⟨_, _, hb⟩))
    · simp at h

/-! ## Forms in slots -/

lemma gets_atom {a : Atom} (h : (atom s e a).Gets k n k') :
    ∃ said b, Says .expression (.atom e a) said b ∧ Built s e said b n := by
  unfold atom at h
  split at h
  · obtain ⟨rfl, -⟩ := gets_make.1 h
    exact ⟨_, _, .integer, ⟨_, rfl⟩, .literal⟩
  · obtain ⟨rfl, -⟩ := gets_make.1 h
    exact ⟨_, _, .float, ⟨_, rfl⟩, .literal⟩
  · obtain ⟨part, j, hp, made⟩ := gets_bind.1 h
    obtain ⟨rfl, -⟩ := gets_make.1 made
    exact ⟨_, _, .text, ⟨_, rfl⟩, .str (.cons ⟨k, j, hp⟩ .nil)⟩
  · split at h
    · obtain ⟨rfl, -⟩ := gets_make.1 h
      exact ⟨_, _, .word rfl, ⟨_, rfl⟩, .literal⟩
    · obtain ⟨rfl, -⟩ := gets_make.1 h
      exact ⟨_, _, .word rfl, ⟨_, rfl⟩, .literal⟩
    · obtain ⟨rfl, -⟩ := gets_make.1 h
      exact ⟨_, _, .word rfl, ⟨_, rfl⟩, .literal⟩
    · obtain ⟨rfl, -⟩ := gets_make.1 h
      exact ⟨_, _, .word rfl, ⟨_, rfl⟩, .selfRef⟩
    · simp at h

lemma gets_expression (h : (expression s f).Gets k n k') :
    ∃ said b, Says .expression f said b ∧ Built s f.extent said b n := by
  rcases f with ⟨e, a⟩ | ⟨e, items⟩
  · exact gets_atom h
  · rw [expression] at h
    rcases items with _ | ⟨head, args⟩
    · exact absurd h gets_failAt
    rcases head with ⟨e', a | a | a | a⟩ | ⟨e', items⟩
    · cases ht : Tag.ofSymbol? a with
      | none =>
        unfold tagged at h
        simp only at h
        rw [ht] at h
        simp at h
      | some t =>
        obtain ⟨said, b, phrase, built⟩ := gets_tagged ht h
        exact ⟨said, b, .tagged .mk ht phrase, built⟩
    all_goals exact absurd h gets_failAt

lemma gets_target (h : (target s f).Gets k n k') :
    ∃ said b, Says .target f said b ∧ Built s f.extent said b n := by
  unfold target at h
  split at h
  · split at h
    · split at h
      · obtain ⟨name, _, hn, made⟩ := gets_bind.1 h
        obtain ⟨rfl, -⟩ := gets_make.1 made
        exact ⟨_, _, .varTarget .mk ‹_› (gets_name hn), ⟨_, rfl⟩, .varTarget⟩
      · simp at h
    · obtain ⟨said, b, phrase, built⟩ := gets_fieldForm h
      exact ⟨said, b, .field .mk ‹_› phrase, built⟩
    · obtain ⟨targets, _, ht, made⟩ := gets_bind.1 h
      obtain ⟨said, b, phrase, built⟩ := phrased made .multi (.multiTarget (gets_targets ht))
      exact ⟨said, b, .multi .mk ‹_› phrase, built⟩
    · simp at h
  · simp at h

lemma gets_alternative (h : (alternative s f).Gets k n k') :
    ∃ said b, Says .alternative f said b ∧ Built s f.extent said b n := by
  unfold alternative at h
  split at h
  · split at h
    · rename_i tag
      subst tag
      obtain ⟨said, b, phrase, built⟩ := gets_elsifForm h
      exact ⟨said, b, .elsif .mk phrase, built⟩
    · split at h
      · rename_i tag
        subst tag
        obtain ⟨body, _, hb, made⟩ := gets_bind.1 h
        obtain ⟨said, b, phrase, built⟩ := phrased made .elseThen (.elseThen (gets_expressions hb))
        exact ⟨said, b, .elseThen .mk phrase, built⟩
      · simp at h
  · simp at h

end Reading

open Reading

/-- A node that was read from a form says what the form says in its slot, and its children were read
from the forms that the form holds, in the slots of their roles. -/
theorem Reads.view {s : Setting} {slot : Slot} {f : Form} {n : Node} (h : Reads s slot f n) :
    ∃ said b, Says slot f said b ∧ Built s f.extent said b n := by
  obtain ⟨k, k', h⟩ := h
  cases slot with
  | expression => exact gets_expression h
  | part =>
    rcases f with ⟨e, a | a | a | a⟩ | ⟨e, items⟩
    case atom.text =>
      obtain ⟨rfl, -⟩ := gets_make.1 h
      exact ⟨_, _, .content, ⟨_, rfl⟩, .content⟩
    all_goals
      obtain ⟨said, b, means, built⟩ := gets_expression h
      exact ⟨said, b, .part rfl means, built⟩
  | target => exact gets_target h
  | alternative => exact gets_alternative h
  | clause =>
    rw [inSlot] at h
    split at h
    · obtain ⟨args, ⟨⟩⟩ := tagged_of_tag? ‹_›
      obtain ⟨said, b, phrase, built⟩ := gets_whenForm h
      exact ⟨said, b, .clause .mk phrase, built⟩
    · simp at h
  | block =>
    rw [inSlot, block.eq_def] at h
    split at h
    · obtain ⟨said, b, phrase, built⟩ := gets_blockForm h
      exact ⟨said, b, .block .mk phrase, built⟩
    · simp at h

/-! ## Programs -/

namespace Reading

variable {s : Setting} {k k' : Nat} {f : Form}

lemma gets_scope {scope : Scope} (tag : f.tag? = some "scope")
    (h : (Reading.scope s f).Gets k scope k') : ScopeSays f scope := by
  obtain ⟨args, ⟨⟩⟩ := tagged_of_tag? tag
  simp only [Reading.scope, gets_bind] at h
  obtain ⟨⟨tag, args'⟩, j, hf, h⟩ := h
  cases gets_split hf
  rcases args with _ | ⟨n, _ | ⟨d, _ | ⟨d', args⟩⟩⟩
  · simp at h
  · simp only [gets_bind, gets_pure] at h
    obtain ⟨name, _, hn, rfl, -⟩ := h
    exact .plain .mk (gets_name hn)
  · simp only [gets_bind, gets_pure] at h
    obtain ⟨name, _, hn, method, _, hm, rfl, -⟩ := h
    simp only [signature, gets_bind] at hm
    obtain ⟨⟨tag', args'⟩, _, hd, hm⟩ := hm
    split at hm
    · simp at hm
    obtain rfl := not_not.1 ‹_›
    rcases args' with _ | ⟨m, ps⟩
    · simp at hm
    · simp only [gets_bind, gets_pure] at hm
      obtain ⟨name', _, hm, params, _, hp, rfl, -⟩ := hm
      exact .method .mk (gets_name hn) (gets_split hd) (gets_name hm) (gets_parameters hp)
  · simp at h

/-- The root of a program that was read holds the statements of the form. -/
theorem gets_program {n : Node} (h : (program s f).Gets k n k') :
    ∃ fs scope ns id, ProgramSays s.scope f fs scope ∧
      n = .mk ({ s with scope }.info f.extent none id) (.program ns) ∧
      List.Forall₂ (Reads { s with scope } .expression) fs ns := by
  unfold program at h
  split at h
  · split at h
    · split at h
      · obtain ⟨scope, _, hs, ns, _, hb, made⟩ := gets_bind_bind h
        obtain ⟨rfl, -⟩ := gets_make.1 made
        exact ⟨_, scope, ns, _, .withScope .mk (gets_scope ‹_› hs), rfl, gets_expressions hb⟩
      · rename_i no_scope
        obtain ⟨ns, _, hb, made⟩ := gets_bind.1 h
        obtain ⟨rfl, -⟩ := gets_make.1 made
        refine ⟨_, s.scope, ns, _, .plain .mk ?_, rfl, gets_expressions hb⟩
        rintro _ ⟨⟩
        exact no_scope
    · obtain ⟨rfl, -⟩ := gets_make.1 h
      refine ⟨[], s.scope, [], _, .plain .mk ?_, rfl, .nil⟩
      rintro _ ⟨⟩
  · rename_i other
    obtain ⟨c, j, hc, made⟩ := gets_bind.1 h
    obtain ⟨rfl, -⟩ := gets_make.1 made
    refine ⟨[f], s.scope, [c], _, .bare fun tag => ?_, rfl, .cons ⟨k, j, hc⟩ .nil⟩
    obtain ⟨args, ⟨⟩⟩ := tagged_of_tag? tag
    exact other _ _ _ rfl

/-- A text that is accepted holds one form, and its tree was read from that form. -/
theorem read_ok {host : Host} {options : Options} {source : Source} {n : Node}
    (h : read host options source = .ok n) : ∃ f k, forms source.name source.content = .ok [f] ∧
      (program ⟨source.name, .main⟩ f).Gets 0 n k := by
  unfold read run at h
  split at h
  · cases h
  split at h
  · cases h
  dsimp only at h
  split at h
  · cases h
  split at h
  · cases h
  · rename_i fs read_forms
    rcases fs with _ | ⟨f, _ | ⟨g, fs⟩⟩
    · cases h
    · obtain ⟨k, h⟩ := run'_eq_ok.1 h
      exact ⟨f, k, read_forms, h⟩
    · cases h

/-- The tree of a text is the tree of its forms, if nothing else is wrong with the text. -/
lemma read_of_forms {host : Host} {options : Options} {source : Source} {fs : List Form}
    (some_char : source.isEmpty = false)
    (fits : Nesting.excess? options.maxDepth source.content = none)
    (stack : options.hasStack host = true) (h : forms source.name source.content = .ok fs) :
    read host options source = root source.name fs := by
  simp [read, run, some_char, fits, Option.isNone_iff_eq_none.1 stack, h]

end Reading

end ControlFlow
