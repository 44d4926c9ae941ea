import ControlFlow.Proofs.Form.Forms
/-!
# Reading what was written

A *tree* is a form without its place. A *writing* says how trees are put down as a text: how each atom
is spelled, and which blanks and comments stand between the tokens. There are many writings of the same
trees, and reading any of them gives the trees back, each form at the place of its characters.
-/

namespace ControlFlow

open Grammar Peg

/-! ## Trees -/

/-- A form without its place in a text. -/
inductive Tree where
  | atom (value : Atom)
  | list (items : List Tree)
deriving Inhabited, Repr

mutual

/-- A form without its place. -/
def Form.tree : Form → Tree
  | .atom _ a => .atom a
  | .list _ items => .list (Form.trees items)

/-- Forms without their places. -/
def Form.trees : List Form → List Tree
  | [] => []
  | f :: fs => f.tree :: Form.trees fs

end

lemma Form.trees_eq_map (fs : List Form) : trees fs = fs.map tree := by
  induction fs with
  | nil => rfl
  | cons f fs ih => rw [trees, ih, List.map_cons]

/-- The atoms that can be written so that they are read again: a symbol is a word that spells no number,
and an integer is in range. Floating-point numbers are left out. -/
def Atom.Plain : Atom → Prop
  | .symbol name => name ≠ "" ∧ IsWord name.toList ∧ ¬ Word.IsInteger name.toList ∧
      ¬ Word.IsFloat name.toList
  | .text _ => True
  | .integer n => Fits n
  | .float _ => False

/-- All atoms of a tree can be written. -/
inductive Tree.Plain : Tree → Prop where
  | atom {a : Atom} (h : a.Plain) : Plain (.atom a)
  | list {ts : List Tree} (h : ∀ t ∈ ts, Plain t) : Plain (.list ts)

/-! ## Writings -/

/-- What may stand between two tokens: blanks, and comments with the line feeds that end them. -/
inductive Gap : List Char → Prop where
  | nil : Gap []
  | blank {x : Char} {g : List Char} (h : Word.isGap x = true) (rest : Gap g) : Gap (x :: g)
  | comment {line g : List Char} (inLine : '\n' ∉ line) (rest : Gap g) :
      Gap (';' :: (line ++ '\n' :: g))

/-- Whether an atom is written as a word. -/
def Atom.isWord : Atom → Bool
  | .text _ => false
  | _ => true

/-- How an atom is written: symbols as they are, integers in decimal, and texts between quotes, with
quotes and backslashes escaped, and line feeds and tabs escaped or as they are. -/
inductive Atom.Spelled : Atom → List Char → Prop where
  | symbol (name : String) : Spelled (.symbol name) name.toList
  | integer (n : Int) : Spelled (.integer n) (toString n).toList
  | text {raw value : List Char} (h : Quoted raw value) :
      Spelled (.text (String.ofList value)) ('"' :: (raw ++ ['"']))

/-- How trees are put down as a text, one behind the other. -/
inductive Writing where
  /-- What stands behind the last tree. -/
  | done (gap : List Char)
  /-- An atom, what stands before it, and how it is spelled. -/
  | atom (gap : List Char) (value : Atom) (own : List Char) (rest : Writing)
  /-- A list, and what stands before it. -/
  | list (gap : List Char) (items rest : Writing)

namespace Writing

/-- The characters that are written. -/
def text : Writing → List Char
  | done gap => gap
  | atom gap _ own rest => gap ++ (own ++ rest.text)
  | list gap items rest => gap ++ '(' :: (items.text ++ ')' :: rest.text)

/-- The trees that are written. -/
def trees : Writing → List Tree
  | done _ => []
  | atom _ a _ rest => .atom a :: rest.trees
  | list _ items rest => .list items.trees :: rest.trees

/-- The trees with their places, where the writing starts at `p`: each form starts at the position of
its first character, and stops at the position behind its last one. -/
def forms (p : Position) : Writing → List Form
  | done _ => []
  | atom gap a own rest =>
    .atom ⟨p.behind gap, p.behind (gap ++ own)⟩ a :: rest.forms (p.behind (gap ++ own))
  | list gap items rest =>
    .list ⟨p.behind gap, p.behind (gap ++ '(' :: (items.text ++ [')']))⟩
        (items.forms (p.behind (gap ++ ['(']))) ::
      rest.forms (p.behind (gap ++ '(' :: (items.text ++ [')'])))

/-- Only gaps stand between the tokens, some between two words, and each atom is spelled as it should
be. `afterWord` says whether the token before the writing is a word. -/
def Proper (afterWord : Bool) : Writing → Prop
  | done gap => Gap gap
  | atom gap a own rest => Gap gap ∧ (afterWord = true → a.isWord = true → gap ≠ []) ∧
      a.Spelled own ∧ rest.Proper a.isWord
  | list gap items rest => Gap gap ∧ items.Proper false ∧ rest.Proper false

lemma trees_forms (w : Writing) (p : Position) : Form.trees (w.forms p) = w.trees := by
  induction w generalizing p with
  | done gap => rfl
  | atom gap a own rest ih => simp [forms, trees, Form.trees, Form.tree, ih]
  | list gap items rest ih₁ ih₂ => simp [forms, trees, Form.trees, Form.tree, ih₁, ih₂]

end Writing

/-! ## Words and gaps -/

lemma not_isWordChar_of_isGap {x : Char} (h : Word.isGap x = true) : Word.isWordChar x = false := by
  simp [Word.isWordChar, h]

lemma Gap.stops {g : List Char} (h : Gap g) (some_char : g ≠ []) (s : List Char) :
    Stops Word.isWordChar (g ++ s) := by
  cases h with
  | nil => exact absurd rfl some_char
  | blank h => simpa using not_isWordChar_of_isGap h
  | comment => simp [Word.isWordChar, Word.isGap]

/-- No word goes on into a writing that starts behind one. -/
lemma Writing.stops {w : Writing} (h : w.Proper true) {s : List Char}
    (stop : Stops Word.isWordChar s) : Stops Word.isWordChar (w.text ++ s) := by
  cases w with
  | done gap =>
    rcases eq_or_ne gap [] with rfl | some_char
    · exact stop
    · exact Gap.stops h some_char s
  | atom gap a own rest =>
    obtain ⟨hg, apart, spelled, -⟩ := h
    rw [text, List.append_assoc]
    rcases eq_or_ne gap [] with rfl | some_char
    · -- only a quoted text follows a word at once
      cases spelled with
      | text => simp [Word.isWordChar, Word.isGap]
      | symbol => exact absurd rfl (apart rfl rfl)
      | integer => exact absurd rfl (apart rfl rfl)
    · exact hg.stops some_char _
  | list gap items rest =>
    obtain ⟨hg, -, -⟩ := h
    rw [text, List.append_assoc]
    rcases eq_or_ne gap [] with rfl | some_char
    · simp [Word.isWordChar, Word.isGap]
    · exact hg.stops some_char _

namespace Word

lemma digits_toDigits (n : Nat) : Digits (Nat.toDigits 10 n) :=
  ⟨Nat.toDigits_ne_nil, fun _ hx => Nat.isDigit_of_mem_toDigits (by decide) (by decide) hx⟩

lemma value_toDigits (n : Nat) : value (Nat.toDigits 10 n) = n := by
  have h := @Nat.ofDigitChars_ten_toDigits n
  rw [Nat.ofDigitChars_eq_foldl] at h
  rw [← natural_eq]
  exact h

/-- An integer in decimal spells that integer. -/
lemma spells_toString (n : Int) : Spells (toString n).toList n := by
  rw [Int.toString_eq_repr, Int.repr_eq_if]
  split
  · rename_i sign
    rw [Nat.repr_eq_ofList_toDigits, String.toList_ofList]
    refine Or.inl ⟨digits_toDigits _, ?_⟩
    rw [value_toDigits]
    omega
  · rename_i sign
    have signed : ("-" ++ (-n).toNat.repr).toList = '-' :: Nat.toDigits 10 (-n).toNat := by
      simp [Nat.repr_eq_ofList_toDigits]
    refine Or.inr ⟨_, signed, digits_toDigits _, ?_⟩
    rw [value_toDigits]
    omega

/-- The characters of a number are those of words. -/
lemma Spells.isWord {w : List Char} {n : Int} (h : Spells w n) : w ≠ [] ∧ IsWord w := by
  have digits : ∀ {v : List Char}, Digits v → IsWord v :=
    fun h x hx => isWordChar_of_isDigit x (h.2 x hx)
  rcases h with ⟨hw, -⟩ | ⟨v, rfl, hv, -⟩
  · exact ⟨hw.1, digits hw⟩
  · refine ⟨List.cons_ne_nil _ _, fun x hx => ?_⟩
    rcases List.mem_cons.1 hx with rfl | hx
    · rfl
    · exact digits hv x hx

end Word

/-- A word is a symbol if it spells no number. -/
lemma Atom.ofWord_symbol {name : String} (h : (Atom.symbol name).Plain) :
    Atom.ofWord name = .symbol name := by
  obtain ⟨-, -, integer, float⟩ := h
  have denotes := denotes_ofWord name.toList
  rw [String.ofList_toList] at denotes
  generalize Atom.ofWord name = a at denotes
  cases denotes with
  | integer h => exact absurd (Word.isInteger_iff.2 ⟨_, h⟩) integer
  | float h => exact absurd h float
  | symbol => rw [String.ofList_toList]

/-! ## From characters to tokens -/

open Tokens

/-- A gap makes no token. -/
lemma Gap.scan {g : List Char} (h : Gap g) (p : Position) (done : List Token) (s : List Char) :
    Tokens.scan .gap p done (g ++ s) = Tokens.scan .gap (p.behind g) done s := by
  induction h generalizing p with
  | nil => rfl
  | @blank x g hx _ ih =>
    rw [Position.behind_cons, ← ih]
    simp [scan_cons, stepGap, hx]
  | @comment line g inLine _ ih =>
    have behind : p.behind (';' :: (line ++ '\n' :: g)) =
        ((p.behind (';' :: line)).advance '\n').behind g := by
      rw [← List.cons_append, Position.behind_append, Position.behind_cons _ '\n']
    rw [List.cons_append, List.append_assoc, List.cons_append,
      scan_comment p done inLine (by simp), behind, ← ih]
    simp [scan_cons, stepGap, Word.isGap]

/-- The token becomes an atom, and its number is not out of range. -/
structure Token.Gives (t : Token) (a : Atom) : Prop where
  assembled : ∀ ending rest stack items, Form.assemble ending (t :: rest) stack items =
    Form.assemble ending rest stack (.atom t.extent a :: items)
  inRange : t.oversized? = none

lemma Token.gives_word {w : List Char} {a : Atom} (h : Atom.ofWord (String.ofList w) = a)
    (fits : ∀ n, Word.Spells w n → Fits n) (e : Extent) :
    Token.Gives ⟨.word (String.ofList w), e⟩ a := by
  constructor
  · intro ending rest stack items
    rw [assemble_word _ _ _ _ rfl, h]
  · refine (oversized?_eq_none .run).2 ?_
    rintro _ n ⟨⟩ spells
    exact fits n spells

lemma Token.gives_quoted (value : String) (e : Extent) : Token.Gives ⟨.quoted value, e⟩ (.text value) :=
  ⟨fun _ _ _ _ => assemble_quoted _ _ _ _ rfl, rfl⟩

/-- An atom is read as one token, which gives the atom again. -/
lemma Atom.Spelled.scan {a : Atom} {own s : List Char} (h : a.Spelled own) (plain : a.Plain)
    (stop : a.isWord = true → Stops Word.isWordChar s) (p : Position) :
    ∃ t : Token, t.Gives a ∧ t.extent = ⟨p, p.behind own⟩ ∧ ∀ done,
      Tokens.scan .gap p done (own ++ s) = Tokens.scan .gap (p.behind own) (t :: done) s := by
  cases h with
  | symbol name =>
    have ⟨some_char, word, no_integer, _⟩ := plain
    have some_char : name.toList ≠ [] := by simpa using some_char
    have given : Atom.ofWord (String.ofList name.toList) = .symbol name := by
      rw [String.ofList_toList, Atom.ofWord_symbol plain]
    refine ⟨_, Token.gives_word given ?_ ⟨p, p.behind name.toList⟩, rfl,
      fun done => scan_run p done some_char word (stop rfl)⟩
    intro n spells
    exact absurd (Word.isInteger_iff.2 ⟨n, spells⟩) no_integer
  | integer n =>
    have spells := Word.spells_toString n
    have given : Atom.ofWord (String.ofList (toString n).toList) = .integer n := by
      rw [Atom.ofWord, String.toList_ofList, Word.integer?_eq_some.2 spells]
    refine ⟨_, Token.gives_word given ?_ ⟨p, p.behind (toString n).toList⟩, rfl,
      fun done => scan_run p done spells.isWord.1 spells.isWord.2 (stop rfl)⟩
    intro m hm
    -- a word spells only one number
    have same := (Word.integer?_eq_some.2 spells).symm.trans (Word.integer?_eq_some.2 hm)
    exact Option.some.inj same ▸ plain
  | @text raw value quoted =>
    refine ⟨_, Token.gives_quoted _ ⟨p, p.behind ('"' :: (raw ++ ['"']))⟩, rfl, fun done => ?_⟩
    rw [List.cons_append, List.append_assoc, List.singleton_append]
    exact scan_string p done quoted s

/-! ## From tokens to forms -/

lemma scan_opening (p : Position) (done : List Token) (s : List Char) :
    Tokens.scan .gap p done ('(' :: s) =
      Tokens.scan .gap (p.behind ['(']) (⟨.opening, ⟨p, p.behind ['(']⟩⟩ :: done) s := by
  rw [Position.behind_cons, Position.behind_nil]
  simp [scan_cons, stepGap, Word.isGap]

lemma scan_closing (p : Position) (done : List Token) (s : List Char) :
    Tokens.scan .gap p done (')' :: s) =
      Tokens.scan .gap (p.behind [')']) (⟨.closing, ⟨p, p.behind [')']⟩⟩ :: done) s := by
  rw [Position.behind_cons, Position.behind_nil]
  simp [scan_cons, stepGap, Word.isGap]

/-- Reading a writing, and going on behind it: its characters give tokens, and these its forms. -/
lemma Writing.scan {w : Writing} {afterWord : Bool} (h : w.Proper afterWord)
    (plain : ∀ t ∈ w.trees, t.Plain) (p : Position) {s : List Char}
    (stop : Stops Word.isWordChar s) :
    ∃ ts : List Token, (∀ t ∈ ts, t.oversized? = none) ∧
      (∀ done, Tokens.scan .gap p done (w.text ++ s) =
        Tokens.scan .gap (p.behind w.text) (ts.reverse ++ done) s) ∧
      ∀ ending rest stack items, Form.assemble ending (ts ++ rest) stack items =
        Form.assemble ending rest stack ((w.forms p).reverse ++ items) := by
  induction w generalizing afterWord p s with
  | done gap => exact ⟨[], by simp, fun done => Gap.scan h p done s, fun _ _ _ _ => rfl⟩
  | atom gap a own rest ih =>
    obtain ⟨hg, -, spelled, proper⟩ := h
    simp only [trees, List.forall_mem_cons] at plain
    have behind : a.isWord = true → Stops Word.isWordChar (rest.text ++ s) :=
      fun word => Writing.stops (word ▸ proper) stop
    have own_plain : a.Plain := by
      cases plain.1
      assumption
    obtain ⟨t, gives, extent, first⟩ := spelled.scan own_plain behind (p.behind gap)
    obtain ⟨ts, fit, scanned, assembled⟩ := ih proper plain.2 (p.behind (gap ++ own)) stop
    refine ⟨t :: ts, List.forall_mem_cons.2 ⟨gives.inRange, fit⟩, fun done => ?_, ?_⟩
    · rw [text, List.append_assoc, List.append_assoc, hg.scan, first, ← Position.behind_append,
        scanned, ← Position.behind_append, List.append_assoc gap]
      simp
    · intro ending more stack items
      rw [List.cons_append, gives.assembled, assembled, extent, forms, Position.behind_append]
      simp
  | list gap inner rest ih₁ ih₂ =>
    obtain ⟨hg, proper, proper'⟩ := h
    simp only [trees, List.forall_mem_cons] at plain
    have inner_plain : ∀ t ∈ inner.trees, t.Plain := by
      cases plain.1
      assumption
    -- the closing bracket ends a word, and the lists inside are read up to it
    have closes : Stops Word.isWordChar (')' :: (rest.text ++ s)) := by
      simp [Word.isWordChar, Word.isGap]
    obtain ⟨ts, fit, scanned, assembled⟩ :=
      ih₁ proper inner_plain (p.behind (gap ++ ['('])) closes
    obtain ⟨us, fit', scanned', assembled'⟩ :=
      ih₂ proper' plain.2 (p.behind (gap ++ '(' :: (inner.text ++ [')']))) stop
    have outer : p.behind (gap ++ '(' :: (inner.text ++ [')'])) =
        ((p.behind (gap ++ ['('])).behind inner.text).behind [')'] := by
      rw [← Position.behind_append, ← Position.behind_append]
      simp
    refine ⟨⟨.opening, ⟨p.behind gap, p.behind (gap ++ ['('])⟩⟩ ::
      (ts ++ ⟨.closing, ⟨(p.behind (gap ++ ['('])).behind inner.text,
        p.behind (gap ++ '(' :: (inner.text ++ [')']))⟩⟩ :: us), ?_, fun done => ?_, ?_⟩
    · intro t ht
      simp only [List.mem_cons, List.mem_append] at ht
      rcases ht with rfl | ht | rfl | ht
      · rfl
      · exact fit t ht
      · rfl
      · exact fit' t ht
    · rw [text, List.append_assoc, List.cons_append, List.append_assoc, List.cons_append, hg.scan,
        scan_opening, ← Position.behind_append, scanned, scan_closing, ← outer, scanned',
        ← Position.behind_append]
      simp
    · intro ending more stack items
      rw [List.cons_append, assemble_opening _ _ _ _ rfl, List.append_assoc, List.cons_append,
        assembled, assemble_closing _ _ _ _ _ rfl, assembled', forms]
      simp

/-! ## The forms of a writing -/

/-- **Reading undoes writing.** Whatever the gaps, and however the line feeds and tabs of texts are
written, a text in which plain trees are written is read as these trees, and each form is found at the
position of its first character. -/
theorem forms_of_writing (file : String) (trees : List Tree) (plain : ∀ t ∈ trees, t.Plain)
    (w : Writing) (of_trees : w.trees = trees) (proper : w.Proper false) :
    Reading.forms file (String.ofList w.text) = .ok (w.forms .origin) ∧
      Form.trees (w.forms .origin) = trees := by
  subst of_trees
  refine ⟨?_, w.trees_forms .origin⟩
  obtain ⟨ts, fit, scanned, assembled⟩ := Writing.scan proper plain .origin (s := []) (by simp)
  have tokens : Tokens.ofText (String.ofList w.text) =
      ⟨ts, .clean (Position.origin.behind w.text)⟩ := by
    have all := scanned []
    rw [List.append_nil, List.append_nil] at all
    rw [Tokens.ofText, String.toList_ofList, all]
    simp [Tokens.scan, finish]
  have matched : Form.ofTokens (Tokens.ofText (String.ofList w.text)) = .ok (w.forms .origin) := by
    have all := assembled (.clean (Position.origin.behind w.text)) [] [] []
    rw [List.append_nil, List.append_nil] at all
    rw [tokens, Form.ofTokens, all]
    simp [Form.assemble]
  rcases forms_or_oversized file matched with ⟨ok, -⟩ | ⟨-, oversized⟩
  · exact ok
  · rw [tokens] at oversized
    exact absurd fit oversized

/-- A list and a text right behind each other, a comment that ends a symbol, a line feed that is escaped
and one that is not, and carriage returns. -/
def mixedWriting : Writing :=
  .list "\r\n".toList
    (.atom [] (.symbol "a") "a".toList
      (.atom ";(\n".toList (.integer (-7)) "-7".toList
        (.atom [] (.text "\n\n\"") "\"\n\\n\\\"\"".toList
          (.list [] (.done []) (.done " ".toList)))))
    (.done [])

theorem forms_of_writing_mixed :
    Reading.forms "mixed" (String.ofList mixedWriting.text) =
        .ok (mixedWriting.forms .origin) ∧
      Form.trees (mixedWriting.forms .origin) =
        [.list [.atom (.symbol "a"), .atom (.integer (-7)), .atom (.text "\n\n\""), .list []]] ∧
      (mixedWriting.forms .origin).map (·.extent) = [⟨⟨2, 1⟩, ⟨4, 10⟩⟩] := by
  have symbol : (Atom.symbol "a").Plain := by
    refine ⟨by decide, by simp [IsWord, Word.isWordChar, Word.isGap], ?_, ?_⟩
    · have no_integer : Word.integer? "a".toList = none := by decide +kernel
      rw [Word.isInteger_iff]
      rintro ⟨n, h⟩
      rw [Word.integer?_eq_some.2 h] at no_integer
      cases no_integer
    · rw [← Word.float?_isSome]
      decide +kernel
  have plain : ∀ t ∈ mixedWriting.trees, t.Plain := by
    rintro t (_ | ⟨_, ⟨⟩⟩)
    refine .list ?_
    simp only [Writing.trees, List.forall_mem_cons]
    exact ⟨.atom symbol, .atom ⟨by decide, by decide⟩, .atom trivial, .list (by simp), by simp⟩
  have quoted : Quoted ['\n', '\\', 'n', '\\', '"'] ['\n', '\n', '"'] :=
    .plain (by decide) (by decide) (.escape (by decide) (.escape (by decide) .nil))
  have proper : mixedWriting.Proper false :=
    ⟨.blank rfl (.blank rfl .nil), ⟨.nil, by simp, .symbol "a", @Gap.comment ['('] [] (by decide) .nil,
      fun _ _ => List.cons_ne_nil _ _, .integer (-7), .nil, by simp [Atom.isWord], .text quoted,
      .nil, .nil, .blank rfl .nil⟩, .nil⟩
  obtain ⟨read, trees⟩ := forms_of_writing "mixed" _ plain mixedWriting rfl proper
  exact ⟨read, trees, by decide +kernel⟩

end ControlFlow
