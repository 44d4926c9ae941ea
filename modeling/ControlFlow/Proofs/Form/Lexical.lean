import Mathlib.Data.List.TakeWhile
import ControlFlow.Form.Token
import ControlFlow.Proofs.Form.Grammar
/-!
# Words and quoted texts

What the grammar takes as an atom. A word is the longest stretch of its characters, and its rule is
that of the numbers if all of it spells one. A quoted text runs up to the next quote that no backslash
stands before.
-/

namespace ControlFlow

/-! ## Numbers -/

namespace Word

/-- One or more decimal digits. -/
def Digits (w : List Char) : Prop := w ≠ [] ∧ ∀ x ∈ w, x.isDigit = true

/-- Something with an optional minus sign before it. -/
def Signed (P : List Char → Prop) (w : List Char) : Prop := P w ∨ ∃ v, w = '-' :: v ∧ P v

/-- Digits, a point and something behind it. -/
def Pointed (P : List Char → Prop) (w : List Char) : Prop :=
  ∃ whole fraction, w = whole ++ '.' :: fraction ∧ Digits whole ∧ P fraction

/-- An optional minus sign and digits. -/
def IsInteger : List Char → Prop := Signed Digits

/-- An optional minus sign, digits, a point and digits. -/
def IsFloat : List Char → Prop := Signed (Pointed Digits)

lemma not_digits_minus (v : List Char) : ¬ Digits ('-' :: v) := fun h => by
  simpa using h.2 '-' (.head _)

lemma not_pointed_minus (v : List Char) : ¬ Pointed Digits ('-' :: v) := by
  rintro ⟨whole, fraction, hv, digits, -⟩
  cases whole with
  | nil => exact digits.1 rfl
  | cons x whole =>
    obtain rfl : '-' = x := (List.cons.inj hv).1
    exact not_digits_minus whole digits

lemma isWordChar_of_isDigit (x : Char) (h : x.isDigit = true) : isWordChar x = true := by
  have other : ∀ y : Char, y.isDigit = false → x ≠ y := by
    rintro y hy rfl
    rw [h] at hy
    cases hy
  simp [isWordChar, isGap, other ' ' rfl, other '\t' rfl, other '\r' rfl, other '\n' rfl,
    other '(' rfl, other ')' rfl, other '"' rfl, other ';' rfl]

end Word

namespace Grammar

open Peg Expr Grammar.Rule

/-- All characters may stand in words. -/
def IsWord (w : List Char) : Prop := ∀ x ∈ w, Word.isWordChar x = true

/-- An expression that takes parts of words, up to the end of the word, if they have a property. -/
structure Recognizes (e : Expr Rule) (P : List Char → Prop) : Prop where
  takes : ∀ {i : Nat} {v r : List Char}, IsWord v → Stops Word.isWordChar r → P v →
    Parses rules e ⟨i, v ++ r⟩ (some ([], ⟨i + v.length, r⟩))
  fails : ∀ {i : Nat} {v r : List Char}, IsWord v → Stops Word.isWordChar r → ¬ P v →
    Parses rules e ⟨i, v ++ r⟩ none

lemma takeWhile_append_stops {p : Char → Bool} {r : List Char} (h : Stops p r) (v : List Char) :
    (v ++ r).takeWhile p = v.takeWhile p := by
  induction v with
  | nil => cases r <;> simp_all
  | cons x v ih => by_cases hx : p x = true <;> simp [hx, ih]

lemma dropWhile_append_stops {p : Char → Bool} {r : List Char} (h : Stops p r) (v : List Char) :
    (v ++ r).dropWhile p = v.dropWhile p ++ r := by
  induction v with
  | nil => cases r <;> simp_all
  | cons x v ih => by_cases hx : p x = true <;> simp [hx, ih]

variable {v r raw value : List Char} {i : Nat}

/-- Digits at the front of what is left of a word. -/
lemma parses_digits (stop : Stops Word.isWordChar r) (some_digit : v.takeWhile Char.isDigit ≠ []) :
    Parses rules (plus digit) ⟨i, v ++ r⟩
      (some ([], ⟨i + (v.takeWhile Char.isDigit).length, v.dropWhile Char.isDigit ++ r⟩)) := by
  have ends : Stops Char.isDigit r := stop.imp Word.isWordChar_of_isDigit
  have taken := single_digit.plus i (s := v ++ r)
  rw [takeWhile_append_stops ends, dropWhile_append_stops ends] at taken
  exact taken some_digit

lemma digits_fail (stop : Stops Word.isWordChar r) (no_digit : v.takeWhile Char.isDigit = []) :
    Parses rules (plus digit) ⟨i, v ++ r⟩ none := by
  refine single_digit.plus_fail ?_
  cases v with
  | nil => exact stop.imp Word.isWordChar_of_isDigit
  | cons x v => simpa [List.takeWhile_cons] using no_digit

/-- Digits are taken up to the first character that is none. -/
lemma split_digits {u : List Char} (h : Word.Digits v) (stop : Stops Char.isDigit u) :
    (v ++ u).takeWhile Char.isDigit = v ∧ (v ++ u).dropWhile Char.isDigit = u := by
  constructor
  · rw [takeWhile_append_stops stop]
    exact List.takeWhile_eq_self_iff.2 h.2
  · rw [dropWhile_append_stops stop, List.dropWhile_eq_nil_iff.2 h.2]
    rfl

/-- Digits up to the end of a word. -/
lemma recognizes_digits : Recognizes (seq (plus digit) (.not (.rule symbolChar))) Word.Digits where
  takes {i v r} word stop h := by
    have all := split_digits h (stops_nil _)
    rw [List.append_nil] at all
    have taken := parses_digits (i := i) (v := v) stop (by rw [all.1]; exact h.1)
    rw [all.1, all.2] at taken
    exact .seq taken (.not_ok (single_symbolChar.fails stop))
  fails {i v r} word stop h := by
    by_cases no_digit : v.takeWhile Char.isDigit = []
    · exact .seq_first (digits_fail stop no_digit)
    · refine .seq_second (parses_digits stop no_digit) ?_
      -- what is left of the word goes on with a character that is no digit
      cases left : v.dropWhile Char.isDigit with
      | nil =>
        refine absurd ⟨?_, List.dropWhile_eq_nil_iff.1 left⟩ h
        rintro rfl
        simp at no_digit
      | cons x u =>
        have hx : x ∈ v := (v.dropWhile_suffix Char.isDigit).subset (by simp [left])
        exact .not_fail (single_symbolChar.takes (word x hx))

/-- Digits and a point before the rest of a word. -/
lemma recognizes_pointed {e : Expr Rule} {P : List Char → Prop} (h : Recognizes e P) :
    Recognizes (seq (plus digit) (seq (char '.') e)) (Word.Pointed P) where
  takes {i v r} word stop hv := by
    obtain ⟨whole, fraction, rfl, digits, hf⟩ := hv
    have split := split_digits (u := '.' :: fraction) digits (by simp)
    have taken := parses_digits (i := i) (v := whole ++ '.' :: fraction) stop
      (by rw [split.1]; exact digits.1)
    rw [split.1, split.2] at taken
    have behind := h.takes (i := i + whole.length + 1) (v := fraction)
      (fun x hx => word x (by simp [hx])) stop hf
    have whole_word := Parses.seq taken (.seq (parses_char '.' _ _) behind)
    simpa [Nat.add_assoc, Nat.add_comm 1] using whole_word
  fails {i v r} word stop hv := by
    by_cases no_digit : v.takeWhile Char.isDigit = []
    · exact .seq_first (digits_fail stop no_digit)
    · refine .seq_second (parses_digits stop no_digit) ?_
      have split : v = v.takeWhile Char.isDigit ++ v.dropWhile Char.isDigit :=
        (List.takeWhile_append_dropWhile ..).symm
      have digits : Word.Digits (v.takeWhile Char.isDigit) :=
        ⟨no_digit, fun x hx => (List.mem_takeWhile_imp hx)⟩
      cases left : v.dropWhile Char.isDigit with
      | nil =>
        refine .seq_first ((single_char '.').fails (stop.imp fun x hx => ?_))
        obtain rfl : x = '.' := by simpa using hx
        rfl
      | cons x u =>
        rw [left] at split
        by_cases hx : x = '.'
        · subst hx
          refine .seq_second (parses_char '.' _ _) (h.fails ?_ stop fun hu => ?_)
          · exact fun y hy => word y (by rw [split]; simp [hy])
          · exact hv ⟨_, u, split, digits, hu⟩
        · exact .seq_first ((single_char '.').fails (by simpa using hx))

/-- An optional minus sign before the rest of a word. -/
lemma recognizes_signed {e : Expr Rule} {P : List Char → Prop} (h : Recognizes e P)
    (unsigned : ∀ v, ¬ P ('-' :: v)) : Recognizes (seq (opt (char '-')) e) (Word.Signed P) where
  takes {i v r} word stop hv := by
    rcases hv with hv | ⟨u, rfl, hu⟩
    · have no_sign : Stops (· = '-') (v ++ r) := by
        cases v with
        | nil =>
          refine stop.imp fun x hx => ?_
          obtain rfl : x = '-' := by simpa using hx
          rfl
        | cons x v =>
          have : x ≠ '-' := by
            rintro rfl
            exact unsigned v hv
          simpa using this
      exact .seq (.opt_none ((single_char '-').fails no_sign)) (h.takes word stop hv)
    · have behind := h.takes (i := i + 1) (fun x hx => word x (.tail _ hx)) stop hu
      have whole_word := Parses.seq (.opt_some (parses_char '-' i (u ++ r))) behind
      simpa [Nat.add_assoc, Nat.add_comm 1] using whole_word
  fails {i v r} word stop hv := by
    have bare : ¬ P v := fun h => hv (Or.inl h)
    cases v with
    | nil =>
      refine .seq_second (.opt_none ((single_char '-').fails (stop.imp fun x hx => ?_)))
        (h.fails word stop bare)
      obtain rfl : x = '-' := by simpa using hx
      rfl
    | cons x u =>
      by_cases hx : x = '-'
      · subst hx
        exact .seq_second (.opt_some (parses_char '-' i (u ++ r)))
          (h.fails (fun y hy => word y (.tail _ hy)) stop fun hu => hv (Or.inr ⟨u, rfl, hu⟩))
      · exact .seq_second (.opt_none ((single_char '-').fails (by simpa using hx)))
          (h.fails word stop bare)

lemma recognizes_integer : Recognizes (rules integer).body Word.IsInteger :=
  recognizes_signed recognizes_digits Word.not_digits_minus

lemma recognizes_float : Recognizes (rules float).body Word.IsFloat :=
  recognizes_signed (recognizes_pointed recognizes_digits) Word.not_pointed_minus

/-! ## Words -/

/-- The rule of a word: that of the integers or that of the floating-point numbers if all of the word is
one, and otherwise that of the symbols. -/
def WordRule (w : List Char) : Rule → Prop
  | integer => Word.IsInteger w
  | float => Word.IsFloat w
  | symbol => ¬ Word.IsInteger w ∧ ¬ Word.IsFloat w
  | _ => False

/-- An integer has no point. -/
lemma not_isFloat_of_isInteger {w : List Char} (h : Word.IsInteger w) : ¬ Word.IsFloat w := by
  intro hf
  have point : '.' ∈ w := by
    rcases hf with ⟨whole, fraction, rfl, -⟩ | ⟨_, rfl, whole, fraction, rfl, -⟩ <;> simp
  rcases h with h | ⟨v, rfl, h⟩
  · simpa using h.2 '.' point
  · rcases List.mem_cons.1 point with hp | hp
    · simp at hp
    · simpa using h.2 '.' hp

lemma exists_wordRule (w : List Char) : ∃ rule, WordRule w rule := by
  by_cases hi : Word.IsInteger w
  · exact ⟨integer, hi⟩
  · by_cases hf : Word.IsFloat w
    · exact ⟨float, hf⟩
    · exact ⟨symbol, hi, hf⟩

lemma list_fails {c : Cursor} (h : Stops (· = '(') c.rest) : Parses rules (.rule list) c none :=
  .rule_fail (.seq_first ((single_char '(').fails h))

lemma string_fails {c : Cursor} (h : Stops (· = '"') c.rest) : Parses rules (.rule string) c none :=
  .rule_fail (.seq_first ((single_char '"').fails h))

/-- A word starts at each of its characters and goes on for as long as it can. -/
lemma exists_word {x : Char} (hx : Word.isWordChar x = true) (s : List Char) :
    ∃ w r, x :: s = w ++ r ∧ w ≠ [] ∧ IsWord w ∧ Stops Word.isWordChar r ∧ r.length ≤ s.length := by
  refine ⟨x :: s.takeWhile Word.isWordChar, s.dropWhile Word.isWordChar, ?_, by simp, ?_,
    stops_dropWhile _ _, (List.dropWhile_suffix _).length_le⟩
  · rw [List.cons_append, List.takeWhile_append_dropWhile]
  · intro y hy
    rcases List.mem_cons.1 hy with rfl | hy
    · exact hx
    · exact List.mem_takeWhile_imp hy

/-- A word is taken as a whole, by its rule. -/
lemma parses_word {w : List Char} {rule : Rule} (some_char : w ≠ []) (word : IsWord w)
    (stop : Stops Word.isWordChar r) (hr : WordRule w rule) :
    Parses rules (.rule form) ⟨i, w ++ r⟩
      (some ([.mk rule i (i + w.length) []], ⟨i + w.length, r⟩)) := by
  obtain ⟨x, u, rfl⟩ := List.exists_cons_of_ne_nil some_char
  have hx := word x (.head _)
  have no_list : Parses rules (.rule list) ⟨i, x :: u ++ r⟩ none := by
    refine list_fails ?_
    rw [List.cons_append, stops_cons, decide_eq_false_iff_not]
    rintro rfl
    cases hx
  have no_string : Parses rules (.rule string) ⟨i, x :: u ++ r⟩ none := by
    refine string_fails ?_
    rw [List.cons_append, stops_cons, decide_eq_false_iff_not]
    rintro rfl
    cases hx
  refine .silent rfl (.choice_second no_list (.choice_second no_string ?_))
  cases rule with
  | float => exact .choice_first (.pair rfl (recognizes_float.takes word stop hr))
  | integer =>
    exact .choice_second (.rule_fail (recognizes_float.fails word stop (not_isFloat_of_isInteger hr)))
      (.choice_first (.pair rfl (recognizes_integer.takes word stop hr)))
  | symbol =>
    have taken := single_symbolChar.plus i (s := x :: u ++ r)
    rw [takeWhile_append_stops stop, dropWhile_append_stops stop,
      List.takeWhile_eq_self_iff.2 word, List.dropWhile_eq_nil_iff.2 word] at taken
    have whole := Parses.pair (g := rules) (r := symbol) rfl (taken some_char)
    exact .choice_second (.rule_fail (recognizes_float.fails word stop hr.2))
      (.choice_second (.rule_fail (recognizes_integer.fails word stop hr.1)) whole)
  | _ => exact hr.elim

/-- Where no word starts there is no number and no symbol. -/
lemma word_fails {c : Cursor} (h : Stops Word.isWordChar c.rest) :
    Parses rules (choice (.rule float) (choice (.rule integer) (.rule symbol))) c none := by
  have empty : IsWord [] := by simp [IsWord]
  have no_integer : ¬ Word.IsInteger [] := by simp [Word.IsInteger, Word.Signed, Word.Digits]
  have no_float : ¬ Word.IsFloat [] := by simp [Word.IsFloat, Word.Signed, Word.Pointed]
  exact .choice_second (.rule_fail (recognizes_float.fails empty h no_float))
    (.choice_second (.rule_fail (recognizes_integer.fails empty h no_integer))
      (.rule_fail (single_symbolChar.plus_fail h)))

/-! ## Quoted texts -/

/-- The characters that a backslash may stand before, and what they stand for then. -/
def escapes : List (Char × Char) := [('"', '"'), ('\\', '\\'), ('n', '\n'), ('t', '\t')]

/-- What may stand between two quotes, and the text that it spells. -/
inductive Quoted : List Char → List Char → Prop where
  | nil : Quoted [] []
  | plain {x : Char} {raw value : List Char} (quote : x ≠ '"') (backslash : x ≠ '\\')
      (h : Quoted raw value) : Quoted (x :: raw) (x :: value)
  | escape {x y : Char} {raw value : List Char} (known : (x, y) ∈ escapes) (h : Quoted raw value) :
      Quoted ('\\' :: x :: raw) (y :: value)

/-- Nothing that may stand between quotes is in front: the text has ended, or there is a quote or a
backslash that stands before nothing known. -/
def Unquoted : List Char → Prop
  | [] => True
  | x :: s => x = '"' ∨ x = '\\' ∧ ∀ y ∈ s.head?, y ∉ escapes.map Prod.fst

/-- Every text starts with a part that may stand between quotes and that cannot be made longer. -/
lemma exists_quoted (s : List Char) :
    ∃ raw value r, s = raw ++ r ∧ Quoted raw value ∧ Unquoted r := by
  induction hn : s.length using Nat.strongRecOn generalizing s with
  | _ n ih =>
    rcases s with _ | ⟨x, s⟩
    · exact ⟨[], [], [], rfl, .nil, trivial⟩
    · by_cases hq : x = '"'
      · exact ⟨[], [], x :: s, rfl, .nil, Or.inl hq⟩
      · by_cases hb : x = '\\'
        · subst hb
          by_cases known : ∃ y z t, s = y :: t ∧ (y, z) ∈ escapes
          · obtain ⟨y, z, t, rfl, hy⟩ := known
            have shorter : t.length < n := by
              simp only [List.length_cons] at hn
              omega
            obtain ⟨raw, value, r, rfl, h, stuck⟩ := ih t.length shorter t rfl
            exact ⟨'\\' :: y :: raw, z :: value, r, rfl, .escape hy h, stuck⟩
          · refine ⟨[], [], '\\' :: s, rfl, .nil, Or.inr ⟨rfl, fun y hy he => known ?_⟩⟩
            obtain ⟨⟨y, z⟩, hz, rfl⟩ := List.mem_map.1 he
            obtain ⟨t, rfl⟩ := List.head?_eq_some_iff.1 hy
            exact ⟨y, z, t, rfl, hz⟩
        · obtain ⟨raw, value, r, rfl, h, stuck⟩ := ih s.length (by simp [← hn]) s rfl
          exact ⟨x :: raw, x :: value, r, rfl, .plain hq hb h, stuck⟩

/-- Behind a quote there is a closing one, or what stands there has no end. -/
lemma closed_or_broken (s : List Char) : ∃ raw value, Quoted raw value ∧
    ((∃ r, s = raw ++ '"' :: r) ∨ ∃ r, s = raw ++ r ∧ Unquoted r ∧ Stops (· = '"') r) := by
  obtain ⟨raw, value, r, rfl, quoted, stuck⟩ := exists_quoted s
  refine ⟨raw, value, quoted, ?_⟩
  by_cases closed : ∃ r', r = '"' :: r'
  · obtain ⟨r', rfl⟩ := closed
    exact Or.inl ⟨r', rfl⟩
  · refine Or.inr ⟨r, rfl, stuck, fun x hx => ?_⟩
    obtain ⟨r', rfl⟩ := List.head?_eq_some_iff.1 hx
    exact decide_eq_false fun h => closed ⟨r', h ▸ rfl⟩

/-- What the rule of quoted texts repeats. -/
def quotedChar : Expr Rule := choice (.rule escape) (seq (.not (oneOf '"' ['\\'])) any)

lemma single_escaped :
    Single rules (oneOf '"' ['\\', 'n', 't']) fun x => decide (x ∈ escapes.map Prod.fst) :=
  single_oneOf _ _

lemma parses_escape {x y : Char} {s : List Char} (known : (x, y) ∈ escapes) :
    Parses rules quotedChar ⟨i, '\\' :: x :: s⟩ (some ([], ⟨i + 2, s⟩)) := by
  have mem : x ∈ escapes.map Prod.fst := List.mem_map.2 ⟨_, known, rfl⟩
  exact .choice_first (.rule (.seq (parses_char _ _ _) (single_escaped.takes (by simpa using mem))))

lemma parses_plain {x : Char} {s : List Char} (quote : x ≠ '"') (backslash : x ≠ '\\') :
    Parses rules quotedChar ⟨i, x :: s⟩ (some ([], ⟨i + 1, s⟩)) :=
  .choice_second
    (.rule_fail (.seq_first ((single_char '\\').fails (by simpa using backslash))))
    ((single_oneOf _ _).notAt.takes (by simp [quote, backslash]))

lemma quotedChar_fails {s : List Char} (h : Unquoted s) : Parses rules quotedChar ⟨i, s⟩ none := by
  have no_escape : Parses rules (.rule escape) ⟨i, s⟩ none := by
    refine .rule_fail ?_
    rcases s with _ | ⟨x, s⟩
    · exact .seq_first ((single_char '\\').fails (by simp))
    · rcases h with rfl | ⟨rfl, unknown⟩
      · exact .seq_first ((single_char '\\').fails (by simp))
      · refine .seq_second (parses_char _ _ _) (single_escaped.fails fun y hy => ?_)
        exact decide_eq_false (unknown y hy)
  refine .choice_second no_escape ((single_oneOf _ _).notAt.fails ?_)
  rcases s with _ | ⟨x, s⟩
  · simp
  · rcases h with rfl | ⟨rfl, -⟩ <;> simp

lemma parses_quotedChars (h : Quoted raw value) (stuck : Unquoted r) :
    Parses rules (star quotedChar) ⟨i, raw ++ r⟩ (some ([], ⟨i + raw.length, r⟩)) := by
  induction h generalizing i with
  | nil => exact .star_done (quotedChar_fails stuck)
  | plain quote backslash _ ih =>
    have more := Parses.star_more (parses_plain quote backslash) (ih (i := i + 1))
    simpa [Nat.add_assoc, Nat.add_comm 1] using more
  | escape known _ ih =>
    have more := Parses.star_more (parses_escape known) (ih (i := i + 2))
    simpa [Nat.add_assoc, Nat.add_comm 2] using more

/-- The pair of a quoted text. -/
def stringPair (i : Nat) (raw : List Char) : Pair Rule :=
  .mk string i (i + raw.length + 2) [.mk text (i + 1) (i + raw.length + 1) []]

/-- The inside of a quoted text. -/
lemma parses_text (i : Nat) (h : Quoted raw value) (stuck : Unquoted r) :
    Parses rules (.rule text) ⟨i, raw ++ r⟩
      (some ([.mk text i (i + raw.length) []], ⟨i + raw.length, r⟩)) := by
  have inside := Parses.pair (g := rules) (r := text) rfl (parses_quotedChars (i := i) h stuck)
  exact inside

/-- A quoted text is taken up to its closing quote. -/
lemma parses_string (h : Quoted raw value) :
    Parses rules (.rule form) ⟨i, '"' :: (raw ++ '"' :: r)⟩
      (some ([stringPair i raw], ⟨i + raw.length + 2, r⟩)) := by
  have inside := parses_text (r := '"' :: r) (i + 1) h (Or.inl rfl)
  have whole := Parses.pair (g := rules) (r := string) rfl
    (.seq (parses_char '"' i _) (.seq inside (parses_char '"' _ r)))
  refine .silent rfl (.choice_second (list_fails (by simp)) (.choice_first ?_))
  simpa [stringPair, Nat.add_assoc, Nat.add_comm 1] using whole

/-- A quoted text without an end is no form. -/
lemma broken_fails (h : Quoted raw value) (stuck : Unquoted r) (no_quote : Stops (· = '"') r) :
    Parses rules (.rule form) ⟨i, '"' :: (raw ++ r)⟩ none := by
  have no_string : Parses rules (.rule string) ⟨i, '"' :: (raw ++ r)⟩ none :=
    .rule_fail (.seq_second (parses_char '"' i _)
      (.seq_second (parses_text (i + 1) h stuck) ((single_char '"').fails no_quote)))
  exact .silent rfl (.choice_second (list_fails (by simp)) (.choice_second no_string
    (word_fails (by simp [Word.isWordChar]))))

end Grammar

end ControlFlow

