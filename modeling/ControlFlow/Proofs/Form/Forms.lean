import Mathlib.Data.List.Forall2
import Mathlib.Data.List.Induction
import Mathlib.Data.Nat.Digits.Defs
import ControlFlow.Proofs.Form.Placed
import ControlFlow.Proofs.Form.Scan
import ControlFlow.Reading.Source
/-!
# The forms of a text

The tokens of a text are its pieces, and the forms of a text are the structure of its brackets, with the
atom that each word or quoted text spells. A text is refused if its pieces are not balanced, and
otherwise only if it holds an integer that is out of range.
-/

namespace ControlFlow

/-! ## Numbers -/

variable {n : Int}

namespace Word

/-- The number that digits spell, of which the last one counts the units. -/
def value (w : List Char) : Nat := Nat.ofDigits 10 (w.reverse.map fun x => x.toNat - 48)

/-- The integer that a word spells. -/
def Spells (w : List Char) (n : Int) : Prop :=
  Digits w ∧ n = value w ∨ ∃ v, w = '-' :: v ∧ Digits v ∧ n = -(value v : Int)

lemma natural_eq (w : List Char) : natural w = value w := by
  induction w using List.reverseRecOn with
  | nil => rfl
  | append_singleton w x ih =>
    have step : natural (w ++ [x]) = 10 * natural w + (x.toNat - 48) := by simp [natural]
    have step' : value (w ++ [x]) = (x.toNat - 48) + 10 * value w := by
      simp [value, Nat.ofDigits_cons]
    rw [step, step', ih, Nat.add_comm]

variable {w : List Char}

lemma isDigits_iff : isDigits w = true ↔ Digits w := by
  simp [isDigits, Digits]

lemma splitSign_other (h : ∀ v, w ≠ '-' :: v) : splitSign w = (false, w) := by
  unfold splitSign
  split
  · exact absurd rfl (h _)
  · rfl

/-- A word has a sign or spells something without one. -/
lemma signed_iff {P : List Char → Prop} (unsigned : ∀ v, ¬ P ('-' :: v)) (w : List Char) :
    Signed P w ↔ P (splitSign w).2 := by
  by_cases sign : ∃ v, w = '-' :: v
  · obtain ⟨v, rfl⟩ := sign
    constructor
    · rintro (h | ⟨u, hu, h⟩)
      · exact absurd h (unsigned v)
      · exact (List.cons.inj hu).2 ▸ h
    · exact fun h => Or.inr ⟨v, rfl, h⟩
  · rw [splitSign_other fun v hv => sign ⟨v, hv⟩]
    constructor
    · rintro (h | ⟨u, rfl, -⟩)
      · exact h
      · exact absurd ⟨u, rfl⟩ sign
    · exact Or.inl

lemma integer?_of_split {v : List Char} {negative : Bool} (h : splitSign w = (negative, v)) :
    integer? w = some n ↔
      Digits v ∧ n = if negative then -(value v : Int) else value v := by
  unfold integer?
  rw [h]
  simp only [Option.ite_none_right_eq_some, isDigits_iff, Option.some.injEq, natural_eq]
  exact and_congr_right fun _ => eq_comm

/-- A word is read as the integer that it spells. -/
lemma integer?_eq_some : integer? w = some n ↔ Spells w n := by
  by_cases sign : ∃ v, w = '-' :: v
  · obtain ⟨v, rfl⟩ := sign
    have split : splitSign ('-' :: v) = (true, v) := rfl
    rw [integer?_of_split split]
    constructor
    · rintro ⟨digits, rfl⟩
      exact Or.inr ⟨v, rfl, digits, rfl⟩
    · rintro (⟨digits, -⟩ | ⟨u, hu, digits, rfl⟩)
      · exact absurd digits (not_digits_minus v)
      · obtain rfl := (List.cons.inj hu).2
        exact ⟨digits, rfl⟩
  · rw [integer?_of_split (splitSign_other fun v hv => sign ⟨v, hv⟩)]
    constructor
    · rintro ⟨digits, rfl⟩
      exact Or.inl ⟨digits, rfl⟩
    · rintro (⟨digits, rfl⟩ | ⟨u, rfl, -⟩)
      · exact ⟨digits, rfl⟩
      · exact absurd ⟨u, rfl⟩ sign

lemma isInteger_iff : IsInteger w ↔ ∃ n, Spells w n := by
  constructor
  · rintro (h | ⟨v, rfl, h⟩)
    · exact ⟨_, Or.inl ⟨h, rfl⟩⟩
    · exact ⟨_, Or.inr ⟨v, rfl, h, rfl⟩⟩
  · rintro ⟨n, ⟨h, -⟩ | ⟨v, rfl, h, -⟩⟩
    · exact Or.inl h
    · exact Or.inr ⟨v, rfl, h⟩

/-- A word is read as a floating-point number if it is one. -/
lemma float?_isSome : (float? w).isSome = true ↔ IsFloat w := by
  rw [IsFloat, signed_iff not_pointed_minus]
  unfold float?
  generalize splitSign w = signed
  obtain ⟨negative, digits⟩ := signed
  constructor
  · intro h
    simp only at h
    split at h
    · rename_i fraction left
      split at h
      · rename_i both
        obtain ⟨whole, fraction_digits⟩ := Bool.and_eq_true_iff.1 both
        refine ⟨_, fraction, ?_, isDigits_iff.1 whole, isDigits_iff.1 fraction_digits⟩
        rw [← left, List.takeWhile_append_dropWhile]
      · cases h
    · cases h
  · rintro ⟨whole, fraction, rfl, digits, digits'⟩
    have ends : Peg.Stops (fun x => decide (x ≠ '.')) ('.' :: fraction) := by simp
    have all : ∀ x ∈ whole, decide (x ≠ '.') = true := by
      intro x hx
      rw [decide_eq_true_eq]
      rintro rfl
      simpa using digits.2 '.' hx
    simp only [Grammar.takeWhile_append_stops ends, Grammar.dropWhile_append_stops ends,
      List.takeWhile_eq_self_iff.2 all, List.dropWhile_eq_nil_iff.2 all, List.nil_append,
      isDigits_iff.2 digits, isDigits_iff.2 digits', Bool.and_self, if_true, Option.isSome_some]

end Word

namespace Grammar

open Peg Grammar.Rule

/-! ## Tokens -/

/-- What a piece is as a token. -/
inductive Shows : Piece → Lexeme → Prop where
  | opening : Shows .opening .opening
  | closing : Shows .closing .closing
  | quoted {raw value : List Char} (h : Quoted raw value) :
      Shows (.quoted raw) (.quoted (String.ofList value))
  | run {w : List Char} : Shows (.run w) (.word (String.ofList w))

open Tokens

variable {fs : List Form} {s : List Char}

section

variable (p : Position) (done : List Token)

/-- What one character makes of the tokens read so far. -/
lemma scan_cons (mode : Tokens.Mode) (x : Char) (s : List Char) :
    scan mode p done (x :: s) = match step mode p x with
      | .go completed next => scan next (p.advance x) (completed.reverse ++ done) s
      | .broken start => ⟨done.reverse, .broken start⟩ := rfl

@[simp] lemma step_gap (x : Char) : step .gap p x = .go (stepGap p x).1 (stepGap p x).2 := rfl

@[simp] lemma step_comment (x : Char) :
    step .comment p x = .go [] (if x = '\n' then .gap else .comment) := rfl

@[simp] lemma step_word (start : Position) (reversed : List Char) (x : Char) :
    step (.word start reversed) p x =
      if Word.isWordChar x then .go [] (.word start (x :: reversed))
      else .go (wordToken start p reversed :: (stepGap p x).1) (stepGap p x).2 := rfl

@[simp] lemma step_quoted (start : Position) (reversed : List Char) (x : Char) :
    step (.quoted start reversed) p x =
      if x = '"' then .go [⟨.quoted (String.ofList reversed.reverse), ⟨start, p.advance x⟩⟩] .gap
      else if x = '\\' then .go [] (.escape start reversed)
      else .go [] (.quoted start (x :: reversed)) := rfl

@[simp] lemma step_escape (start : Position) (reversed : List Char) (x : Char) :
    step (.escape start reversed) p x =
      match escaped? x with
      | some y => .go [] (.quoted start (y :: reversed))
      | none => .broken start := rfl

variable {line : List Char}

lemma scan_line (inLine : '\n' ∉ line) (s : List Char) :
    scan .comment p done (line ++ s) = scan .comment (p.behind line) done s := by
  induction line generalizing p with
  | nil => rfl
  | cons x line ih =>
    simp only [List.mem_cons, not_or] at inLine
    rw [Position.behind_cons, ← ih (p.advance x) inLine.2]
    simp [scan_cons, Ne.symm inLine.1]

lemma scan_lineEnd (stop : Stops (· ≠ '\n') s) : scan .comment p done s = scan .gap p done s := by
  rcases s with _ | ⟨x, s⟩
  · rfl
  · obtain rfl : x = '\n' := by simpa using stop
    rfl

lemma scan_comment (inLine : '\n' ∉ line) (stop : Stops (· ≠ '\n') s) :
    scan .gap p done (';' :: (line ++ s)) = scan .gap (p.behind (';' :: line)) done s := by
  rw [Position.behind_cons, ← scan_lineEnd _ done stop, ← scan_line _ done inLine]
  simp [scan_cons, stepGap, Word.isGap]

lemma scan_inWord (start : Position) {w : List Char} (word : IsWord w) (reversed s : List Char) :
    scan (.word start reversed) p done (w ++ s) =
      scan (.word start (w.reverse ++ reversed)) (p.behind w) done s := by
  induction w generalizing p reversed with
  | nil => rfl
  | cons x w ih =>
    rw [List.reverse_cons, List.append_assoc, List.singleton_append, Position.behind_cons,
      ← ih (p.advance x) (fun y hy => word y (.tail _ hy)) (x :: reversed)]
    simp [scan_cons, word x (.head _)]

lemma scan_wordEnd (start : Position) (reversed : List Char) (stop : Stops Word.isWordChar s) :
    scan (.word start reversed) p done s = scan .gap p (wordToken start p reversed :: done) s := by
  rcases s with _ | ⟨x, s⟩
  · rfl
  · have hx : Word.isWordChar x = false := by simpa using stop
    simp [scan_cons, hx]

/-- The word at a cursor becomes one token. -/
lemma scan_run {w : List Char} (some_char : w ≠ []) (word : IsWord w)
    (stop : Stops Word.isWordChar s) :
    scan .gap p done (w ++ s) =
      scan .gap (p.behind w) (⟨.word (String.ofList w), ⟨p, p.behind w⟩⟩ :: done) s := by
  obtain ⟨x, u, rfl⟩ := List.exists_cons_of_ne_nil some_char
  have hx := word x (.head _)
  simp only [Word.isWordChar, Bool.not_eq_true', Bool.or_eq_false_iff, decide_eq_false_iff_not] at hx
  have first : scan .gap p done (x :: u ++ s) = scan (.word p [x]) (p.advance x) done (u ++ s) := by
    simp [scan_cons, stepGap, hx]
  rw [first, scan_inWord (p.advance x) done p (fun y hy => word y (.tail _ hy)) [x] s,
    ← Position.behind_cons, scan_wordEnd _ done p _ stop]
  simp [wordToken]

lemma escaped?_eq_some {x y : Char} : escaped? x = some y ↔ (x, y) ∈ escapes := by
  unfold escaped?
  split <;> simp_all [escapes, eq_comm]

variable {value raw : List Char}

lemma scan_inQuotes (start : Position) (h : Quoted raw value) (reversed s : List Char) :
    scan (.quoted start reversed) p done (raw ++ s) =
      scan (.quoted start (value.reverse ++ reversed)) (p.behind raw) done s := by
  induction h generalizing p reversed with
  | nil => rfl
  | @plain x raw value quote backslash _ ih =>
    rw [List.reverse_cons, List.append_assoc, List.singleton_append, Position.behind_cons,
      ← ih (p.advance x) (x :: reversed)]
    simp [scan_cons, quote, backslash]
  | @escape x y raw value known _ ih =>
    rw [List.reverse_cons, List.append_assoc, List.singleton_append, Position.behind_cons,
      Position.behind_cons, ← ih ((p.advance '\\').advance x) (y :: reversed)]
    simp [scan_cons, escaped?_eq_some.2 known]

lemma scan_quote (s : List Char) :
    scan .gap p done ('"' :: s) = scan (.quoted p []) (p.advance '"') done s := by
  simp [scan_cons, stepGap, Word.isGap]

/-- A quoted text becomes one token. -/
lemma scan_string (h : Quoted raw value) (s : List Char) :
    scan .gap p done ('"' :: (raw ++ '"' :: s)) =
      scan .gap (p.behind ('"' :: (raw ++ ['"'])))
        (⟨.quoted (String.ofList value), ⟨p, p.behind ('"' :: (raw ++ ['"']))⟩⟩ :: done) s := by
  have stop : p.behind ('"' :: (raw ++ ['"'])) = ((p.advance '"').behind raw).advance '"' := by
    rw [Position.behind_cons, Position.behind_append, Position.behind_cons, Position.behind_nil]
  rw [scan_quote, scan_inQuotes (p.advance '"') done p h [] ('"' :: s), stop]
  simp [scan_cons]

/-- A quoted text without an end breaks the text off. -/
lemma scan_broken {r : List Char} (h : Quoted raw value) (stuck : Unquoted r)
    (no_quote : Stops (· = '"') r) : (scan .gap p done ('"' :: (raw ++ r))).ending = .broken p := by
  rw [scan_quote, scan_inQuotes (p.advance '"') done p h [] r]
  rcases r with _ | ⟨x, r⟩
  · rfl
  · rcases stuck with rfl | ⟨rfl, unknown⟩
    · simp at no_quote
    · rcases r with _ | ⟨y, r⟩
      · rfl
      · have none_known : escaped? y = none := by
          refine Option.eq_none_iff_forall_ne_some.2 fun z hz => unknown y rfl ?_
          exact List.mem_map.2 ⟨(y, z), escaped?_eq_some.1 hz, rfl⟩
        simp [scan_cons, none_known]

end

/-- The tokens of a text are its pieces, one behind the other. -/
lemma Scans.tokens {qs : List Piece} (h : Scans s qs) (p : Position) (done : List Token) :
    ∃ ts finish, scan .gap p done s = ⟨done.reverse ++ ts, .clean finish⟩ ∧
      List.Forall₂ (fun t q => Shows q t.lexeme) ts qs ∧ Token.Ordered p ts := by
  induction h generalizing p done with
  | done => exact ⟨[], p, by simp [scan, finish], .nil, trivial⟩
  | @blank x s qs hx _ ih =>
    obtain ⟨ts, f, hs, shows, ordered⟩ := ih (p.advance x) done
    exact ⟨ts, f, by simpa [scan, step, stepGap, hx] using hs, shows,
      ordered.mono (p.lt_advance x).le⟩
  | @comment line s qs inLine stop _ ih =>
    obtain ⟨ts, f, hs, shows, ordered⟩ := ih (p.behind (';' :: line)) done
    exact ⟨ts, f, (scan_comment p done inLine stop).trans hs, shows,
      ordered.mono (p.le_behind _)⟩
  | @opening s qs _ ih =>
    obtain ⟨ts, f, hs, shows, ordered⟩ := ih (p.advance '(') (⟨.opening, ⟨p, p.advance '('⟩⟩ :: done)
    refine ⟨⟨.opening, ⟨p, p.advance '('⟩⟩ :: ts, f, ?_, .cons .opening shows,
      le_rfl, p.lt_advance '(', ordered⟩
    simpa [scan, step, stepGap, Word.isGap] using hs
  | @closing s qs _ ih =>
    obtain ⟨ts, f, hs, shows, ordered⟩ := ih (p.advance ')') (⟨.closing, ⟨p, p.advance ')'⟩⟩ :: done)
    refine ⟨⟨.closing, ⟨p, p.advance ')'⟩⟩ :: ts, f, ?_, .cons .closing shows,
      le_rfl, p.lt_advance ')', ordered⟩
    simpa [scan, step, stepGap, Word.isGap] using hs
  | @quoted raw value s qs h _ ih =>
    have string := scan_string p done h s
    obtain ⟨ts, f, hs, shows, ordered⟩ := ih (p.behind ('"' :: (raw ++ ['"'])))
      (⟨.quoted (String.ofList value), ⟨p, p.behind ('"' :: (raw ++ ['"']))⟩⟩ :: done)
    exact ⟨_ :: ts, f, by simpa [string] using hs, .cons (.quoted h) shows,
      le_rfl, p.lt_behind (List.cons_ne_nil _ _), ordered⟩
  | @run w s qs some_char word stop _ ih =>
    have run := scan_run p done some_char word stop
    obtain ⟨ts, f, hs, shows, ordered⟩ := ih (p.behind w)
      (⟨.word (String.ofList w), ⟨p, p.behind w⟩⟩ :: done)
    exact ⟨_ :: ts, f, by simpa [run] using hs, .cons .run shows,
      le_rfl, p.lt_behind some_char, ordered⟩

/-- A text that does not break off can be cut into pieces. -/
lemma exists_scans {p f : Position} {done : List Token} (h : (scan .gap p done s).ending = .clean f) :
    ∃ qs, Scans s qs := by
  induction hn : s.length using Nat.strongRecOn generalizing s p done with
  | _ n ih =>
    rcases s with _ | ⟨x, s⟩
    · exact ⟨[], .done⟩
    · have shorter : ∀ {t : List Char}, t.length ≤ s.length → ∀ {q : Position} {ts : List Token},
          (scan .gap q ts t).ending = .clean f → ∃ qs, Scans t qs := fun {t} le _ _ h =>
        ih t.length (by simp only [List.length_cons] at hn; omega) h rfl
      by_cases gap : Word.isGap x = true
      · obtain ⟨qs, rest⟩ := shorter le_rfl (by simpa [scan, step, stepGap, gap] using h)
        exact ⟨qs, .blank gap rest⟩
      by_cases word : Word.isWordChar x = true
      · obtain ⟨w, r, split, some_char, all, stop, le⟩ := exists_word word s
        rw [split] at h ⊢
        obtain ⟨qs, rest⟩ := shorter le (scan_run p done some_char all stop ▸ h)
        exact ⟨_, .run some_char all stop rest⟩
      by_cases comment : x = ';'
      · subst comment
        obtain ⟨line, r, rfl, inLine, stop⟩ := exists_line s
        obtain ⟨qs, rest⟩ := shorter (by simp) (scan_comment p done inLine stop ▸ h)
        exact ⟨qs, .comment inLine stop rest⟩
      by_cases quote : x = '"'
      · subst quote
        obtain ⟨raw, value, quoted, ⟨r, rfl⟩ | ⟨r, rfl, stuck, no_quote⟩⟩ := closed_or_broken s
        · obtain ⟨qs, rest⟩ := shorter (by simp; omega) (scan_string p done quoted r ▸ h)
          exact ⟨_, .quoted quoted rest⟩
        · rw [scan_broken p done quoted stuck no_quote] at h
          cases h
      by_cases opening : x = '('
      · subst opening
        obtain ⟨qs, rest⟩ := shorter le_rfl (by simpa [scan, step, stepGap, Word.isGap] using h)
        exact ⟨_, .opening rest⟩
      · obtain rfl : x = ')' := by
          simpa [Word.isWordChar, gap, comment, quote, opening] using word
        obtain ⟨qs, rest⟩ := shorter le_rfl (by simpa [scan, step, stepGap, Word.isGap] using h)
        exact ⟨_, .closing rest⟩

/-! ## Forms -/

/-- The atom that a piece spells. -/
inductive Denotes : Piece → Atom → Prop where
  | text {raw value : List Char} (h : Quoted raw value) :
      Denotes (.quoted raw) (.text (String.ofList value))
  | integer {w : List Char} {n : Int} (h : Word.Spells w n) : Denotes (.run w) (.integer n)
  | float {w : List Char} {x : Binary64} (h : Word.IsFloat w) (hx : Word.float? w = some x) :
      Denotes (.run w) (.float x)
  | symbol {w : List Char} (integer : ¬ Word.IsInteger w) (float : ¬ Word.IsFloat w) :
      Denotes (.run w) (.symbol (String.ofList w))

/-- Forms are the structure of the brackets: a list is what stands between two brackets, and each quoted
text and each word is an atom. -/
inductive Outlines : List Form → List Piece → Prop where
  | nil : Outlines [] []
  | list {e : Extent} {inner fs : List Form} {rs qs : List Piece} (inside : Outlines inner rs)
      (behind : Outlines fs qs) : Outlines (.list e inner :: fs) (.opening :: (rs ++ .closing :: qs))
  | atom {e : Extent} {a : Atom} {q : Piece} {fs : List Form} {qs : List Piece} (h : Denotes q a)
      (behind : Outlines fs qs) : Outlines (.atom e a :: fs) (q :: qs)

lemma denotes_ofWord (w : List Char) : Denotes (.run w) (Atom.ofWord (String.ofList w)) := by
  unfold Atom.ofWord
  rw [String.toList_ofList]
  split
  · exact .integer (Word.integer?_eq_some.1 ‹_›)
  · rename_i no_integer
    have integer : ¬ Word.IsInteger w := fun h => by
      obtain ⟨n, hn⟩ := Word.isInteger_iff.1 h
      rw [Word.integer?_eq_some.2 hn] at no_integer
      cases no_integer
    split
    · rename_i x hx
      exact .float (Word.float?_isSome.1 (by rw [hx]; rfl)) hx
    · rename_i no_float
      refine .symbol integer fun h => ?_
      have := Word.float?_isSome.2 h
      rw [no_float] at this
      cases this

section

variable {t : Token} (ending : Ending) (rest : List Token) (stack : List OpenList) (items : List Form)

lemma assemble_opening (h : t.lexeme = .opening) : Form.assemble ending (t :: rest) stack items =
    Form.assemble ending rest (⟨t.extent.start, items⟩ :: stack) [] := by
  conv_lhs => unfold Form.assemble
  rw [h]

lemma assemble_closing (frame : OpenList) (h : t.lexeme = .closing) :
    Form.assemble ending (t :: rest) (frame :: stack) items =
      Form.assemble ending rest stack
        (.list ⟨frame.start, t.extent.stop⟩ items.reverse :: frame.before) := by
  conv_lhs => unfold Form.assemble
  rw [h]

lemma assemble_word {w : String} (h : t.lexeme = .word w) :
    Form.assemble ending (t :: rest) stack items =
      Form.assemble ending rest stack (.atom t.extent (.ofWord w) :: items) := by
  conv_lhs => unfold Form.assemble
  rw [h]

lemma assemble_quoted {v : String} (h : t.lexeme = .quoted v) :
    Form.assemble ending (t :: rest) stack items =
      Form.assemble ending rest stack (.atom t.extent (.text v) :: items) := by
  conv_lhs => unfold Form.assemble
  rw [h]

end

variable {ts : List Token} {qs : List Piece} {ps : List (Pair Rule)}

/-- Tokens with the structure of some pairs are put together to forms with the same structure. If the
tokens stand one behind the other, so do the forms. -/
lemma Brackets.assemble {text : List Char} (h : Brackets text ps qs)
    (shows : List.Forall₂ (fun t q => Shows q t.lexeme) ts qs) :
    ∃ fs, Outlines fs qs ∧
      (∀ p rest, Token.Ordered p (ts ++ rest) → ∃ q, Form.Placed p fs q ∧ Token.Ordered q rest) ∧
      ∀ ending rest stack items, Form.assemble ending (ts ++ rest) stack items =
        Form.assemble ending rest stack (fs.reverse ++ items) := by
  induction h generalizing ts with
  | nil =>
    cases shows
    exact ⟨[], .nil, fun p _ ordered => ⟨p, .nil, ordered⟩, fun _ _ _ _ => rfl⟩
  | @list i j inner ps rs qs _ _ ih₁ ih₂ =>
    -- the tokens are a bracket, those inside, a bracket, and those behind
    obtain ⟨t, us, opens, others, rfl⟩ := List.forall₂_cons_right_iff.1 shows
    obtain ⟨t', vs, closes, last, split⟩ :=
      List.forall₂_cons_right_iff.1 (List.forall₂_drop_append us rs (.closing :: qs) others)
    obtain ⟨gs, inside, placed_inside, hgs⟩ :=
      ih₁ (List.forall₂_take_append us rs (.closing :: qs) others)
    obtain ⟨fs, behind, placed_behind, hfs⟩ := ih₂ last
    rw [← List.take_append_drop rs.length us, split]
    refine ⟨.list ⟨t.extent.start, t'.extent.stop⟩ gs :: fs, .list inside behind, ?_, ?_⟩
    · intro p rest ordered
      simp only [List.cons_append, List.append_assoc] at ordered
      obtain ⟨before, own, ordered⟩ := ordered
      obtain ⟨r, placed, stop, own', ordered⟩ := placed_inside _ _ ordered
      obtain ⟨q, placed', ordered⟩ := placed_behind _ _ ordered
      exact ⟨q, .list before own placed (stop.trans_lt own') placed', ordered⟩
    · intro ending rest stack items
      have opening : t.lexeme = .opening := by
        generalize t.lexeme = l at opens
        cases opens
        rfl
      have closing : t'.lexeme = .closing := by
        generalize t'.lexeme = l at closes
        cases closes
        rfl
      simp only [List.cons_append, List.append_assoc]
      rw [assemble_opening _ _ _ _ opening, hgs, assemble_closing _ _ _ _ _ closing, hfs]
      simp
  | @string i j inner ps qs _ ih =>
    obtain ⟨t, us, first, others, rfl⟩ := List.forall₂_cons_right_iff.1 shows
    obtain ⟨fs, behind, placed, hfs⟩ := ih others
    generalize hl : t.lexeme = l at first
    cases first with
    | @quoted _ value h =>
      refine ⟨.atom t.extent (.text (String.ofList value)) :: fs, .atom (.text h) behind,
        Form.placed_atom placed, ?_⟩
      intro ending rest stack items
      rw [List.cons_append, assemble_quoted _ _ _ _ hl, hfs]
      simp
  | @word i j rule ps qs _ _ ih =>
    obtain ⟨t, us, first, others, rfl⟩ := List.forall₂_cons_right_iff.1 shows
    obtain ⟨fs, behind, placed, hfs⟩ := ih others
    generalize hl : t.lexeme = l at first
    cases first
    refine ⟨.atom t.extent (.ofWord _) :: fs, .atom (denotes_ofWord _) behind,
      Form.placed_atom placed, ?_⟩
    intro ending rest stack items
    rw [List.cons_append, assemble_word _ _ _ _ hl, hfs]
    simp

/-- Tokens that can be put together to forms do not break off. -/
lemma clean_of_assemble {ending : Ending} {stack : List OpenList} {items : List Form}
    (h : Form.assemble ending ts stack items = .ok fs) : ∃ f, ending = .clean f := by
  induction ts generalizing stack items with
  | nil =>
    unfold Form.assemble at h
    cases ending with
    | broken start => cases h
    | clean f => exact ⟨f, rfl⟩
  | cons t ts ih =>
    unfold Form.assemble at h
    cases hl : t.lexeme with
    | closing =>
      rw [hl] at h
      cases stack with
      | nil => cases h
      | cons frame outer => exact ih h
    | _ =>
      rw [hl] at h
      exact ih h

/-- Tokens that can be put together to forms are balanced. -/
lemma balanced_of_assemble {f : Position} {stack : List OpenList} {items : List Form}
    (h : Form.assemble (.clean f) ts stack items = .ok fs)
    (shows : List.Forall₂ (fun t q => Shows q t.lexeme) ts qs) : Balanced stack.length qs := by
  induction shows generalizing stack items with
  | nil =>
    cases stack with
    | nil => rfl
    | cons frame outer => cases h
  | @cons t q ts qs first _ ih =>
    unfold Form.assemble at h
    generalize t.lexeme = l at first h
    cases first with
    | opening => exact ih h
    | closing =>
      cases stack with
      | nil => cases h
      | cons frame outer => exact ih h
    | quoted => exact ih h
    | run => exact ih h

/-! ## Numbers out of range -/

/-- An integer fits in 64 bits with a sign. -/
def Fits (n : Int) : Prop := -9223372036854775808 ≤ n ∧ n ≤ 9223372036854775807

lemma inRange_iff : Word.inRange n = true ↔ Fits n := by
  have bound : ((Nat.pow 2 63 : Nat) : Int) = 9223372036854775808 := rfl
  simp only [Word.inRange, bound, Bool.and_eq_true, decide_eq_true_eq, Fits]
  omega

lemma oversized?_eq_none {t : Token} {q : Piece} (h : Shows q t.lexeme) :
    t.oversized? = none ↔ ∀ w n, q = .run w → Word.Spells w n → Fits n := by
  unfold Token.oversized?
  generalize t.lexeme = l at h
  cases h with
  | @run w =>
    simp only [String.toList_ofList, Piece.run.injEq]
    constructor
    · rintro h w n rfl spells
      rw [Word.integer?_eq_some.2 spells] at h
      simpa [inRange_iff] using h
    · intro h
      split
      · rename_i n hn
        rw [if_pos (inRange_iff.2 (h w n rfl (Word.integer?_eq_some.1 hn)))]
      · rfl
  | _ => simp

/-- No token is out of range if no word is. -/
lemma oversized?_all (shows : List.Forall₂ (fun t q => Shows q t.lexeme) ts qs) :
    (∀ t ∈ ts, t.oversized? = none) ↔ ∀ w n, .run w ∈ qs → Word.Spells w n → Fits n := by
  induction shows with
  | nil => simp
  | cons first _ ih =>
    rw [List.forall_mem_cons, ih, oversized?_eq_none first]
    simp only [List.mem_cons]
    constructor
    · rintro ⟨h, h'⟩ w n (rfl | mem) spells
      · exact h w n rfl spells
      · exact h' w n mem spells
    · exact fun h => ⟨fun w n hq => h w n (Or.inl hq.symm), fun w n mem => h w n (Or.inr mem)⟩

/-! ## Reading forms -/

/-- The forms of an accepted text have the structure of its pairs. -/
lemma Accepts.forms {text : String} (h : Accepts text.toList ps) :
    ∃ ts qs fs finish, Tokens.ofText text = ⟨ts, .clean finish⟩ ∧ Scans text.toList qs ∧
      List.Forall₂ (fun t q => Shows q t.lexeme) ts qs ∧
      Form.ofTokens (Tokens.ofText text) = .ok fs ∧ Outlines fs qs ∧
      Brackets text.toList ps qs ∧ ∃ q, Form.Placed .origin fs q := by
  obtain ⟨qs, scans, -, brackets⟩ := h.brackets
  obtain ⟨ts, finish, tokens, shows, ordered⟩ := scans.tokens .origin []
  obtain ⟨fs, outlines, placed, assembled⟩ := brackets.assemble shows
  obtain ⟨q, place, -⟩ := placed .origin [] (by simpa using ordered)
  refine ⟨ts, qs, fs, finish, tokens, scans, shows, ?_, outlines, brackets, q, place⟩
  have all := assembled (.clean finish) [] [] []
  rw [List.append_nil, List.append_nil] at all
  have same : Tokens.ofText text = ⟨ts, .clean finish⟩ := tokens
  rw [Form.ofTokens, same]
  simpa [Form.assemble] using all

/-- A text whose tokens can be put together is accepted. -/
lemma accepts_of_ofTokens {text : String} (h : Form.ofTokens (Tokens.ofText text) = .ok fs) :
    ∃ ps, Accepts text.toList ps := by
  obtain ⟨f, clean⟩ := clean_of_assemble h
  obtain ⟨qs, scans⟩ := exists_scans clean
  obtain ⟨ts, finish, tokens, shows, -⟩ := scans.tokens .origin []
  have same : Tokens.ofText text = ⟨ts, .clean finish⟩ := tokens
  rw [Form.ofTokens, same] at h
  exact accepts_iff_balanced.2 ⟨qs, scans, balanced_of_assemble h shows⟩

/-- Forms that were put together are the result, unless a number is out of range. -/
lemma forms_or_oversized (file : String) {text : String}
    (h : Form.ofTokens (Tokens.ofText text) = .ok fs) :
    (Reading.forms file text = .ok fs ∧ ∀ t ∈ (Tokens.ofText text).items, t.oversized? = none) ∨
      (∃ e, Reading.forms file text = .error e) ∧
        ¬ ∀ t ∈ (Tokens.ofText text).items, t.oversized? = none := by
  unfold Reading.forms
  simp only [h]
  cases found : (Tokens.ofText text).items.findSome? fun t =>
      t.oversized?.map fun word => (t.extent, word) with
  | none =>
    refine Or.inl ⟨rfl, fun t ht => ?_⟩
    simpa using List.findSome?_eq_none_iff.1 found t ht
  | some found_at =>
    obtain ⟨e, word⟩ := found_at
    refine Or.inr ⟨⟨_, rfl⟩, fun none_found => ?_⟩
    obtain ⟨t, ht, some_word⟩ := List.exists_of_findSome?_eq_some found
    simp [none_found t ht] at some_word

/-- Tokens that cannot be put together are an error. -/
lemma forms_of_unmatched (file : String) {text : String} {u : Unmatched}
    (h : Form.ofTokens (Tokens.ofText text) = .error u) :
    ∃ e, Reading.forms file text = .error e ∧ e.fault = .unmatched (Reading.wanted u) := by
  unfold Reading.forms
  simp only [h]
  exact ⟨_, rfl, rfl⟩

/-- The forms of a text are what its tokens are put together to. -/
lemma ofTokens_of_forms {file text : String} (h : Reading.forms file text = .ok fs) :
    Form.ofTokens (Tokens.ofText text) = .ok fs := by
  cases assembled : Form.ofTokens (Tokens.ofText text) with
  | error u =>
    obtain ⟨e, he, -⟩ := forms_of_unmatched file assembled
    rw [h] at he
    cases he
  | ok gs =>
    rcases forms_or_oversized file assembled with ⟨ok, -⟩ | ⟨⟨e, he⟩, -⟩
    · rw [h] at ok
      cases ok
      rfl
    · rw [h] at he
      cases he

/-- The forms of a text stand one behind the other. -/
lemma placed_of_forms {file text : String} (h : Reading.forms file text = .ok fs) :
    ∃ q, Form.Placed .origin fs q := by
  have assembled := ofTokens_of_forms h
  obtain ⟨ps, accepts⟩ := accepts_of_ofTokens assembled
  obtain ⟨ts, qs, gs, f, -, -, -, assembled', -, -, placed⟩ := accepts.forms
  rw [assembled] at assembled'
  cases assembled'
  exact placed

/-- **A text is a sequence of forms if and only if its pieces are balanced.** The grammar accepts exactly
these texts; all others are refused as malformed. The pairs and the forms of an accepted text are the
structure of its brackets, each word is one atom, and the text is refused only if one of its words
spells an integer that does not fit. -/
theorem accepts_balanced_texts (file text : String) :
    ((∃ ps, Accepts text.toList ps) ↔ ∃ qs, Scans text.toList qs ∧ Balanced 0 qs) ∧
    ((¬ ∃ ps, Accepts text.toList ps) → Rejects text.toList ∧
      ∃ e w, Reading.forms file text = .error e ∧ e.fault = .unmatched w) ∧
    ∀ ps qs, Accepts text.toList ps → Scans text.toList qs →
      Brackets text.toList ps qs ∧
      ∃ fs, Form.ofTokens (Tokens.ofText text) = .ok fs ∧ Outlines fs qs ∧
        ((∃ e, Reading.forms file text = .error e) ↔
          ∃ w n, .run w ∈ qs ∧ Word.Spells w n ∧ ¬ Fits n) ∧
        ∀ gs, Reading.forms file text = .ok gs → gs = fs := by
  refine ⟨accepts_iff_balanced, fun refused => ⟨?_, ?_⟩, ?_⟩
  · rcases accepts_or_rejects text.toList with ⟨ps, n, reads⟩ | rejects
    · exact absurd ⟨ps, reads.accepts⟩ refused
    · exact rejects
  · cases h : Form.ofTokens (Tokens.ofText text) with
    | error u =>
      obtain ⟨e, he, fault⟩ := forms_of_unmatched file h
      exact ⟨e, _, he, fault⟩
    | ok fs => exact absurd (accepts_of_ofTokens h) refused
  · intro ps qs accepts scans
    obtain ⟨ts, qs', fs, f, tokens, scans', shows, assembled, outlines, brackets, -⟩ :=
      accepts.forms
    obtain rfl := scans.unique scans'
    have outcome := forms_or_oversized file assembled
    rw [tokens, oversized?_all shows] at outcome
    refine ⟨brackets, fs, assembled, outlines, ?_, ?_⟩
    · constructor
      · rintro ⟨e, he⟩
        rcases outcome with ⟨ok, -⟩ | ⟨-, oversized⟩
        · rw [he] at ok
          cases ok
        · simpa [and_assoc] using oversized
      · rintro ⟨w, n, mem, spells, out⟩
        rcases outcome with ⟨-, all⟩ | ⟨error, -⟩
        · exact absurd (all w n mem spells) out
        · exact error
    · intro gs hgs
      rcases outcome with ⟨ok, -⟩ | ⟨⟨e, he⟩, -⟩
      · rw [hgs] at ok
        cases ok
        rfl
      · rw [hgs] at he
        cases he

lemma exists_ok {ε α : Type} {e : Except ε α} (h : e.isOk = true) : ∃ a, e = .ok a := by
  cases e with
  | ok a => exact ⟨a, rfl⟩
  | error _ => cases h

/-- A text with a gap, a comment, an escape, a nested list, and words that are a float, nearly a float
and an integer. -/
def mixedText : String := "; (\n(a (-1.5 1.5.2) \"x\\n)\" -7)\n"

theorem accepts_balanced_texts_mixed : ∃ ps qs fs,
    Accepts mixedText.toList ps ∧ Scans mixedText.toList qs ∧ Balanced 0 qs ∧
      Brackets mixedText.toList ps qs ∧ Reading.forms "mixed" mixedText = .ok fs ∧
      Outlines fs qs := by
  obtain ⟨fs, read⟩ := exists_ok (e := Reading.forms "mixed" mixedText) (by decide +kernel)
  have claim := accepts_balanced_texts "mixed" mixedText
  obtain ⟨ps, accepts⟩ : ∃ ps, Accepts mixedText.toList ps := by
    by_contra refused
    obtain ⟨-, e, w, he, -⟩ := claim.2.1 refused
    rw [read] at he
    cases he
  obtain ⟨qs, scans, balanced⟩ := claim.1.1 ⟨ps, accepts⟩
  obtain ⟨brackets, gs, -, outlines, -, same⟩ := claim.2.2 ps qs accepts scans
  obtain rfl := same fs read
  exact ⟨ps, qs, fs, accepts, scans, balanced, brackets, read, outlines⟩

end Grammar

end ControlFlow
