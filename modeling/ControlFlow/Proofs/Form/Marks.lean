import ControlFlow.Proofs.Form.Writing
/-!
# What tokens stand for

The forms of a text depend on its tokens only through what they stand for: brackets, atoms, and words
that are no atoms because their number is out of range. Where the tokens lie in the text is seen in the
places of the forms alone.
-/

namespace ControlFlow

/-- What a token stands for. -/
inductive Mark where
  | opening
  | closing
  | atom (value : Atom)
  /-- A word that spells an integer out of range. -/
  | oversized (word : String)
deriving DecidableEq, Repr

/-- What a token stands for. -/
def Token.mark (t : Token) : Mark :=
  match t.lexeme with
  | .opening => .opening
  | .closing => .closing
  | .quoted value => .atom (.text value)
  | .word text =>
    match t.oversized? with
    | some word => .oversized word
    | none => .atom (.ofWord text)

/-- What the tokens of a text stand for, in order. -/
def Tokens.marks (text : String) : List Mark := (ofText text).items.map Token.mark

/-- The atom that the forms of a text have for a token that is no bracket. -/
inductive Lexeme.Spells : Lexeme → Atom → Prop where
  | word (text : String) : Spells (.word text) (.ofWord text)
  | quoted (value : String) : Spells (.quoted value) (.text value)

namespace Token

variable {t u : Token}

lemma mark_eq_oversized {word : String} : t.mark = .oversized word ↔ t.oversized? = some word := by
  rcases t with ⟨l, e⟩
  cases l with
  | word text =>
    unfold mark
    cases (⟨.word text, e⟩ : Token).oversized? <;> simp
  | _ => simp [mark, oversized?]

/-- A token that is no bracket spells an atom, and stands for it unless it is out of range. -/
lemma opening_closing_or_spells (t : Token) :
    t.lexeme = .opening ∧ t.mark = .opening ∨ t.lexeme = .closing ∧ t.mark = .closing ∨
      ∃ a, t.lexeme.Spells a ∧
        (t.mark = .atom a ∨ ∃ word, t.mark = .oversized word ∧ a = .ofWord word) := by
  rcases t with ⟨l, e⟩
  cases l with
  | opening => exact Or.inl ⟨rfl, rfl⟩
  | closing => exact Or.inr (Or.inl ⟨rfl, rfl⟩)
  | quoted value => exact Or.inr (Or.inr ⟨_, .quoted value, Or.inl rfl⟩)
  | word text =>
    refine Or.inr (Or.inr ⟨_, .word text, ?_⟩)
    cases h : (⟨.word text, e⟩ : Token).oversized? with
    | none => exact Or.inl (by simp [mark, h])
    | some word =>
      have same : text = word := by
        simp only [oversized?] at h
        grind
      exact Or.inr ⟨word, mark_eq_oversized.2 h, by rw [same]⟩

/-- Tokens that stand for the same are the same brackets, or spell the same atom. -/
lemma cases_of_mark (h : t.mark = u.mark) :
    t.lexeme = .opening ∧ u.lexeme = .opening ∨ t.lexeme = .closing ∧ u.lexeme = .closing ∨
      ∃ a, t.lexeme.Spells a ∧ u.lexeme.Spells a := by
  have ht := t.opening_closing_or_spells
  have hu := u.opening_closing_or_spells
  grind

/-- Tokens that stand for the same spell the same number out of range, or none. -/
lemma oversized?_of_mark (h : t.mark = u.mark) : t.oversized? = u.oversized? := by
  ext word
  rw [← mark_eq_oversized, ← mark_eq_oversized, h]

end Token

namespace Form

open Grammar

variable {ts us : List Token}

lemma assemble_spells {t : Token} {a : Atom} (h : t.lexeme.Spells a) (ending : Ending)
    (rest : List Token) (stack : List OpenList) (items : List Form) :
    assemble ending (t :: rest) stack items =
      assemble ending rest stack (.atom t.extent a :: items) := by
  generalize hl : t.lexeme = l at h
  cases h with
  | word text => exact assemble_word _ _ _ _ hl
  | quoted value => exact assemble_quoted _ _ _ _ hl

lemma trees_reverse (fs : List Form) : trees fs.reverse = (trees fs).reverse := by
  rw [trees_eq_map, trees_eq_map, List.map_reverse]

variable {stack : List OpenList} {items fs : List Form} {ending : Ending}

/-- At the end of the tokens no list is open. -/
lemma assemble_nil (h : assemble ending [] stack items = .ok fs) :
    stack = [] ∧ fs = items.reverse := by
  unfold assemble at h
  cases ending with
  | broken start => cases h
  | clean finish =>
    cases stack with
    | nil =>
      cases h
      exact ⟨rfl, rfl⟩
    | cons frame stack => cases h

/-- A closing bracket closes a list. -/
lemma assemble_closes {t : Token} (closing : t.lexeme = .closing)
    (h : assemble ending (t :: ts) stack items = .ok fs) :
    ∃ frame outer, stack = frame :: outer ∧ assemble ending ts outer
      (.list ⟨frame.start, t.extent.stop⟩ items.reverse :: frame.before) = .ok fs := by
  cases stack with
  | nil =>
    unfold assemble at h
    rw [closing] at h
    cases h
  | cons frame outer =>
    rw [assemble_closing _ _ _ _ _ closing] at h
    exact ⟨frame, outer, rfl, h⟩

/-- Tokens that stand for the same are put together to forms that differ in their places alone, if they
can be put together. -/
lemma trees_of_marks {ending' : Ending} {stack' : List OpenList} {items' gs : List Form}
    (marks : ts.map Token.mark = us.map Token.mark)
    (around : List.Forall₂ (fun f g : OpenList => trees f.before = trees g.before) stack stack')
    (before : trees items = trees items') (h : assemble ending ts stack items = .ok fs)
    (h' : assemble ending' us stack' items' = .ok gs) : trees fs = trees gs := by
  induction ts generalizing us stack stack' items items' with
  | nil =>
    obtain rfl := List.map_eq_nil_iff.1 marks.symm
    obtain ⟨-, rfl⟩ := assemble_nil h
    obtain ⟨-, rfl⟩ := assemble_nil h'
    rw [trees_reverse, trees_reverse, before]
  | cons t ts ih =>
    obtain ⟨u, us, rfl, mark, marks⟩ := List.map_eq_cons_iff.1 marks.symm
    rcases Token.cases_of_mark mark.symm with ⟨ht, hu⟩ | ⟨ht, hu⟩ | ⟨a, ht, hu⟩
    · rw [assemble_opening _ _ _ _ ht] at h
      rw [assemble_opening _ _ _ _ hu] at h'
      exact ih marks.symm (.cons before around) rfl h h'
    · -- the lists that are closed hold the same forms, and stand behind the same
      obtain ⟨frame, outer, rfl, closed⟩ := assemble_closes ht h
      obtain ⟨frame', outer', rfl, closed'⟩ := assemble_closes hu h'
      obtain ⟨first, around⟩ := List.forall₂_cons.1 around
      refine ih marks.symm around ?_ closed closed'
      simp only [trees, tree, trees_reverse, before, first]
    · rw [assemble_spells ht] at h
      rw [assemble_spells hu] at h'
      exact ih marks.symm around (by simp only [trees, tree, before]) h h'

/-- The first number out of range is the same, if tokens stand for the same. -/
lemma oversized_of_marks (marks : ts.map Token.mark = us.map Token.mark) :
    (ts.findSome? fun t => t.oversized?.map fun word => (t.extent, word)).map Prod.snd =
      (us.findSome? fun t => t.oversized?.map fun word => (t.extent, word)).map Prod.snd := by
  have words : ∀ ts : List Token,
      (ts.findSome? fun t => t.oversized?.map fun word => (t.extent, word)).map Prod.snd =
        ts.findSome? Token.oversized? := by
    intro ts
    rw [List.map_findSome?]
    congr 1
    funext t
    cases h : t.oversized? <;> simp [h]
  rw [words, words]
  induction ts generalizing us with
  | nil =>
    obtain rfl := List.map_eq_nil_iff.1 marks.symm
    rfl
  | cons t ts ih =>
    obtain ⟨u, us, rfl, mark, marks⟩ := List.map_eq_cons_iff.1 marks.symm
    rw [List.findSome?_cons, List.findSome?_cons, Token.oversized?_of_mark mark, ih marks.symm]

end Form

/-! ## Forms of texts -/

namespace Reading

open Grammar

variable {text text' : String}

/-- Accepted texts whose tokens stand for the same have the same forms but for their places, or hold the
same number out of range. -/
lemma forms_of_marks (file file' : String) (accepted : ∃ ps, Accepts text.toList ps)
    (accepted' : ∃ ps, Accepts text'.toList ps) (marks : Tokens.marks text = Tokens.marks text') :
    (∃ fs gs, forms file text = .ok fs ∧ forms file' text' = .ok gs ∧
      Form.trees fs = Form.trees gs) ∨
    ∃ e e', forms file text = .error e ∧ forms file' text' = .error e' ∧ e.fault = e'.fault := by
  obtain ⟨ps, accepted⟩ := accepted
  obtain ⟨ps', accepted'⟩ := accepted'
  obtain ⟨_, _, fs, _, _, _, _, assembled, _⟩ := accepted.forms
  obtain ⟨_, _, gs, _, _, _, _, assembled', _⟩ := accepted'.forms
  have trees : Form.trees fs = Form.trees gs :=
    Form.trees_of_marks marks .nil rfl assembled assembled'
  have words := Form.oversized_of_marks marks
  simp only [forms, assembled, assembled']
  generalize (Tokens.ofText text).items.findSome? _ = found at words ⊢
  generalize (Tokens.ofText text').items.findSome? _ = found' at words ⊢
  rcases found with _ | ⟨e, word⟩ <;> rcases found' with _ | ⟨e', word'⟩ <;> cases words
  · exact Or.inl ⟨fs, gs, rfl, rfl, trees⟩
  · exact Or.inr ⟨_, _, rfl, rfl, rfl⟩

end Reading

end ControlFlow
