import ControlFlow.Proofs.Form.Reads
/-!
# A flat view of texts

A text is cut from left to right into brackets, quoted texts and words, with blanks and comments left
out. The brackets are balanced if every closing one closes an open one and none is left open.

The grammar accepts exactly the texts that can be cut and whose brackets are balanced, and its pairs are
the structure of the brackets.
-/

namespace ControlFlow.Grammar

open Peg Grammar.Rule

/-- What a text is cut into. -/
inductive Piece where
  | opening
  | closing
  /-- What stands between two quotes. -/
  | quoted (raw : List Char)
  /-- A stretch of characters of words, as long as possible. -/
  | run (word : List Char)

/-- The pieces of a text. -/
inductive Scans : List Char → List Piece → Prop where
  | done : Scans [] []
  | blank {x : Char} {s : List Char} {qs : List Piece} (h : Word.isGap x = true) (rest : Scans s qs) :
      Scans (x :: s) qs
  | comment {line s : List Char} {qs : List Piece} (inLine : '\n' ∉ line)
      (stop : Stops (· ≠ '\n') s) (rest : Scans s qs) : Scans (';' :: (line ++ s)) qs
  | opening {s : List Char} {qs : List Piece} (rest : Scans s qs) : Scans ('(' :: s) (.opening :: qs)
  | closing {s : List Char} {qs : List Piece} (rest : Scans s qs) : Scans (')' :: s) (.closing :: qs)
  | quoted {raw value s : List Char} {qs : List Piece} (h : Quoted raw value) (rest : Scans s qs) :
      Scans ('"' :: (raw ++ '"' :: s)) (.quoted raw :: qs)
  | run {w s : List Char} {qs : List Piece} (some_char : w ≠ []) (word : IsWord w)
      (stop : Stops Word.isWordChar s) (rest : Scans s qs) : Scans (w ++ s) (.run w :: qs)

/-- Every closing bracket closes an open one, of which there are `d` at the start, and none is left open
at the end. -/
def Balanced : Nat → List Piece → Prop
  | d, [] => d = 0
  | d, .opening :: qs => Balanced (d + 1) qs
  | 0, .closing :: _ => False
  | d + 1, .closing :: qs => Balanced d qs
  | d, _ :: qs => Balanced d qs

/-- Pairs are the structure of the brackets: a list is what stands between two brackets, and each quoted
text and each word is an atom, of the rule that the word has. -/
inductive Brackets (text : List Char) : List (Pair Rule) → List Piece → Prop where
  | nil : Brackets text [] []
  | list {i j : Nat} {inner ps : List (Pair Rule)} {rs qs : List Piece}
      (inside : Brackets text inner rs) (behind : Brackets text ps qs) :
      Brackets text (.mk list i j inner :: ps) (.opening :: (rs ++ .closing :: qs))
  | string {i j : Nat} {inner ps : List (Pair Rule)} {qs : List Piece} (behind : Brackets text ps qs) :
      Brackets text (.mk string i j inner :: ps) (.quoted (slice text (i + 1) (j - 1)) :: qs)
  | word {i j : Nat} {rule : Rule} {ps : List (Pair Rule)} {qs : List Piece}
      (hr : WordRule (slice text i j) rule) (behind : Brackets text ps qs) :
      Brackets text (.mk rule i j [] :: ps) (.run (slice text i j) :: qs)

/-- A comment goes on up to the end of its line. -/
lemma exists_line (s : List Char) : ∃ line r, s = line ++ r ∧ '\n' ∉ line ∧ Stops (· ≠ '\n') r := by
  refine ⟨s.takeWhile (· ≠ '\n'), s.dropWhile (· ≠ '\n'), ?_, fun h => ?_, stops_dropWhile _ _⟩
  · rw [List.takeWhile_append_dropWhile]
  · simpa using List.mem_takeWhile_imp h

/-! ## From forms to pieces -/

variable {qs : List Piece} {s text : List Char}

/-- Gaps are no pieces. -/
lemma scans_skipFrom (s : List Char) (i : Nat) : (Scans (skipFrom false i s).rest qs → Scans s qs) ∧
    (Scans (skipFrom true i s).rest qs →
      ∃ line s', s = line ++ s' ∧ '\n' ∉ line ∧ Stops (· ≠ '\n') s' ∧ Scans s' qs) := by
  induction s generalizing i with
  | nil => exact ⟨id, fun h => ⟨[], [], rfl, by simp, by simp, h⟩⟩
  | cons x s ih =>
    constructor
    · intro h
      simp only [skipFrom, Bool.false_eq_true, if_false] at h
      split at h
      · exact .blank ‹_› ((ih (i + 1)).1 h)
      split at h
      · obtain ⟨line, s', rfl, inLine, stop, rest⟩ := (ih (i + 1)).2 h
        rename_i hx
        subst hx
        exact .comment inLine stop rest
      · exact h
    · intro h
      by_cases hx : x = '\n'
      · subst hx
        have rest := (ih (i + 1)).1 (by simpa [skipFrom] using h)
        exact ⟨[], '\n' :: s, rfl, by simp, by simp, .blank rfl rest⟩
      · obtain ⟨line, s', rfl, inLine, stop, rest⟩ := (ih (i + 1)).2 (by simpa [skipFrom, hx] using h)
        exact ⟨x :: line, s', rfl, by simp [inLine, Ne.symm hx], stop, rest⟩

lemma Scans.of_skip {c : Cursor} (h : Scans c.skip.rest qs) : Scans c.rest qs :=
  (scans_skipFrom c.rest c.offset).1 h

/-- What is taken is the structure of some pieces, the first ones of the rest of the text. -/
structure Cut (text : List Char) (c : Cursor) (t : Taken) (c' : Cursor) (rs : List Piece) : Prop where
  inside : c'.In text
  scans : ∀ qs, Scans c'.rest qs → Scans c.rest (rs ++ qs)
  balanced : ∀ d qs, Balanced d (rs ++ qs) ↔ Balanced d qs
  brackets : match t with
    | .one p => ∀ ps qs, Brackets text ps qs → Brackets text (p :: ps) (rs ++ qs)
    | .many ps => Brackets text ps rs

/-- Forms that stand in a text are the structure of its next pieces. -/
lemma Reads.cut {c c' : Cursor} {t : Taken} (h : Reads c t c') (hc : c.In text) :
    ∃ rs, Cut text c t c' rs := by
  induction h with
  | @word i w r rule some_char word stop hr =>
    refine ⟨[.run w], hc.move, fun qs h => .run some_char word stop h, fun d qs => Iff.rfl, ?_⟩
    intro ps qs h
    rw [← hc.slice_eq] at hr
    have := Brackets.word hr h
    rwa [hc.slice_eq] at this
  | @string i raw value r quoted =>
    have hc₁ : Cursor.In ⟨i + 1, raw ++ '"' :: r⟩ text := Cursor.In.move (w := ['"']) hc
    have hc₂ : Cursor.In ⟨i + raw.length + 2, r⟩ text := by
      have := Cursor.In.move (w := ['"']) hc₁.move
      rwa [List.length_singleton, Nat.add_right_comm i 1] at this
    refine ⟨[.quoted raw], hc₂, fun qs h => .quoted quoted h, fun d qs => Iff.rfl, fun ps qs h => ?_⟩
    have raw_eq : slice text (i + 1) (i + raw.length + 2 - 1) = raw := by
      rw [Nat.add_sub_assoc (by decide), Nat.add_right_comm]
      exact hc₁.slice_eq
    have whole : Brackets text (stringPair i raw :: ps)
        (.quoted (slice text (i + 1) (i + raw.length + 2 - 1)) :: qs) := .string h
    rwa [raw_eq] at whole
  | @list i j s r ps inner ih =>
    have hc₁ : Cursor.In ⟨i + 1, s⟩ text := Cursor.In.move (w := ['(']) hc
    obtain ⟨rs, cut⟩ := ih hc₁.skip
    refine ⟨.opening :: (rs ++ [.closing]), Cursor.In.move (w := [')']) cut.inside, ?_, ?_, ?_⟩
    · intro qs h
      have := cut.scans (.closing :: qs) (.closing h)
      simpa using Scans.opening (.of_skip this)
    · intro d qs
      have := cut.balanced (d + 1) (.closing :: qs)
      simpa [Balanced] using this
    · intro ps' qs h
      simpa using Brackets.list cut.brackets h
  | nil => exact ⟨[], hc, fun _ h => h, fun _ _ => Iff.rfl, .nil⟩
  | cons _ _ ih₁ ih₂ =>
    obtain ⟨rs, first⟩ := ih₁ hc
    obtain ⟨rs', behind⟩ := ih₂ first.inside.skip
    refine ⟨rs ++ rs', behind.inside, fun qs h => ?_, fun d qs => ?_, first.brackets _ _ behind.brackets⟩
    · rw [List.append_assoc]
      exact first.scans _ (.of_skip (behind.scans qs h))
    · rw [List.append_assoc, first.balanced, behind.balanced]

/-! ## From pieces to forms -/

lemma skip_blank {x : Char} (h : Word.isGap x = true) (i : Nat) (s : List Char) :
    Cursor.skip ⟨i, x :: s⟩ = Cursor.skip ⟨i + 1, s⟩ := by
  simp [Cursor.skip, skipFrom, h]

lemma skip_comment {line : List Char} (inLine : '\n' ∉ line) (stop : Stops (· ≠ '\n') s) (i : Nat) :
    Cursor.skip ⟨i, ';' :: (line ++ s)⟩ = Cursor.skip ⟨i + 1 + line.length, s⟩ := by
  have all : ∀ x ∈ line, decide (x ≠ '\n') = true := fun x hx => by
    simpa using fun h : x = '\n' => inLine (h ▸ hx)
  have behind := skipFrom_comment (i + 1) (line ++ s)
  rw [takeWhile_append_stops stop, dropWhile_append_stops stop, List.takeWhile_eq_self_iff.2 all,
    List.dropWhile_eq_nil_iff.2 all] at behind
  simpa [Cursor.skip, skipFrom, Word.isGap] using behind.symm

/-- What follows a sequence of forms inside of `d` lists: the end of the text, or the end of the list
around them, with balanced pieces behind it. -/
def Follows : Nat → List Char → Prop
  | 0, r => r = []
  | d + 1, r => ∃ r' qs, r = ')' :: r' ∧ Scans r' qs ∧ Balanced d qs

/-- Balanced pieces are those of forms. -/
lemma Scans.reads (h : Scans s qs) {d : Nat} (hd : Balanced d qs) (i : Nat) :
    ∃ ps j r, Reads (Cursor.skip ⟨i, s⟩) (.many ps) ⟨j, r⟩ ∧ Follows d r := by
  induction hn : s.length using Nat.strongRecOn generalizing s qs d i with
  | _ n ih =>
    cases h with
    | done => exact ⟨[], i, [], .nil, by subst hd; rfl⟩
    | @blank x s qs hx rest =>
      rw [skip_blank hx]
      exact ih s.length (by simp [← hn]) rest hd (i + 1) rfl
    | @comment line s qs inLine stop rest =>
      rw [skip_comment inLine stop]
      have shorter : s.length < n := by
        rw [← hn, List.length_cons, List.length_append]
        omega
      exact ih s.length shorter rest hd (i + 1 + line.length) rfl
    | @opening s qs rest =>
      -- the forms of the list, and then what stands behind it
      obtain ⟨inner, j, r, inside, r', rs, rfl, rest', hd'⟩ :=
        ih s.length (by simp [← hn]) rest (d := d + 1) hd (i + 1) rfl
      have shorter := (Reads.list inside).length
      simp only [List.length_cons] at hn shorter
      obtain ⟨ps, k, t, behind, follows⟩ := ih r'.length (by omega) rest' hd' (j + 1) rfl
      rw [Cursor.skip_eq (by simp [Word.isGap])]
      exact ⟨_, k, t, .cons (.list inside) behind, follows⟩
    | @closing s qs rest =>
      rw [Cursor.skip_eq (by simp [Word.isGap])]
      cases d with
      | zero => exact hd.elim
      | succ d => exact ⟨[], i, ')' :: s, .nil, s, qs, rfl, rest, hd⟩
    | @quoted raw value s qs h rest =>
      obtain ⟨ps, k, t, behind, follows⟩ :=
        ih s.length (by simp [← hn]; omega) rest hd (i + raw.length + 2) rfl
      rw [Cursor.skip_eq (by simp [Word.isGap])]
      exact ⟨_, k, t, .cons (.string h) behind, follows⟩
    | @run w s qs some_char word stop rest =>
      have shorter := List.length_pos_iff.2 some_char
      obtain ⟨ps, k, t, behind, follows⟩ :=
        ih s.length (by simp [← hn]; omega) rest hd (i + w.length) rfl
      obtain ⟨rule, hr⟩ := exists_wordRule w
      rw [Cursor.skip_eq ?_]
      · exact ⟨_, k, t, .cons (.word some_char word stop hr) behind, follows⟩
      · obtain ⟨x, u, rfl⟩ := List.exists_cons_of_ne_nil some_char
        have hx := word x (.head _)
        simp only [Word.isWordChar, Bool.not_eq_true', Bool.or_eq_false_iff] at hx
        simp [hx]

/-! ## There is one way to cut a text -/

lemma Quoted.unique {raw raw' value value' s' : List Char} (h : Quoted raw value)
    (h' : Quoted raw' value') (same : raw ++ '"' :: s = raw' ++ '"' :: s') :
    raw = raw' ∧ s = s' := by
  induction h generalizing raw' value' with
  | nil =>
    cases h' with
    | nil => exact ⟨rfl, (List.cons.inj same).2⟩
    | plain quote => exact absurd (List.cons.inj same).1.symm quote
    | escape => exact absurd (List.cons.inj same).1 (by decide)
  | plain quote backslash _ ih =>
    cases h' with
    | nil => exact absurd (List.cons.inj same).1 quote
    | plain _ _ h' =>
      simp only [List.cons_append, List.cons.injEq] at same
      obtain ⟨rfl, same⟩ := same
      obtain ⟨rfl, rfl⟩ := ih h' same
      exact ⟨rfl, rfl⟩
    | escape => exact absurd (List.cons.inj same).1 backslash
  | escape _ _ ih =>
    cases h' with
    | nil => exact absurd (List.cons.inj same).1 (by decide)
    | plain _ backslash => exact absurd (List.cons.inj same).1.symm backslash
    | escape _ h' =>
      simp only [List.cons_append, List.cons.injEq, true_and] at same
      obtain ⟨rfl, same⟩ := same
      obtain ⟨rfl, rfl⟩ := ih h' same
      exact ⟨rfl, rfl⟩

/-- The first character says what the first piece is. -/
lemma Scans.of_cons {x : Char} (h : Scans (x :: s) qs) :
    if Word.isGap x then Scans s qs
    else if x = ';' then Scans (s.dropWhile fun y => y ≠ '\n') qs
    else if x = '(' then ∃ qs', qs = .opening :: qs' ∧ Scans s qs'
    else if x = ')' then ∃ qs', qs = .closing :: qs' ∧ Scans s qs'
    else if x = '"' then ∃ raw value s' qs', s = raw ++ '"' :: s' ∧ Quoted raw value ∧
      qs = .quoted raw :: qs' ∧ Scans s' qs'
    else ∃ qs', qs = .run (x :: s.takeWhile Word.isWordChar) :: qs' ∧
      Scans (s.dropWhile Word.isWordChar) qs' := by
  generalize hs : x :: s = s₀ at h
  cases h with
  | done => cases hs
  | blank hx rest =>
    obtain ⟨rfl, rfl⟩ := List.cons.inj hs
    rwa [if_pos hx]
  | @comment line t qs inLine stop rest =>
    obtain ⟨rfl, rfl⟩ := List.cons.inj hs
    have all : ∀ x ∈ line, decide (x ≠ '\n') = true := fun x hx => by
      simpa using fun h : x = '\n' => inLine (h ▸ hx)
    rw [dropWhile_append_stops stop, List.dropWhile_eq_nil_iff.2 all]
    simpa [Word.isGap] using rest
  | opening rest =>
    obtain ⟨rfl, rfl⟩ := List.cons.inj hs
    simpa [Word.isGap] using rest
  | closing rest =>
    obtain ⟨rfl, rfl⟩ := List.cons.inj hs
    simpa [Word.isGap] using rest
  | quoted h rest =>
    obtain ⟨rfl, rfl⟩ := List.cons.inj hs
    rw [if_neg (by decide), if_neg (by decide), if_neg (by decide), if_neg (by decide), if_pos rfl]
    exact ⟨_, _, _, _, rfl, h, rfl, rest⟩
  | @run w t qs some_char word stop rest =>
    obtain ⟨y, u, rfl⟩ := List.exists_cons_of_ne_nil some_char
    simp only [List.cons_append, List.cons.injEq] at hs
    obtain ⟨rfl, rfl⟩ := hs
    have hx := word x (.head _)
    simp only [Word.isWordChar, Bool.not_eq_true', Bool.or_eq_false_iff, decide_eq_false_iff_not] at hx
    have all : ∀ y ∈ u, Word.isWordChar y = true := fun y hy => word y (.tail _ hy)
    rw [takeWhile_append_stops stop, dropWhile_append_stops stop, List.takeWhile_eq_self_iff.2 all,
      List.dropWhile_eq_nil_iff.2 all]
    simpa [hx] using rest

lemma Scans.of_nil (h : Scans [] qs) : qs = [] := by
  generalize hs : [] = s at h
  cases h with
  | done => rfl
  | run some_char => exact absurd (List.append_eq_nil_iff.1 hs.symm).1 some_char
  | _ => cases hs

lemma Scans.unique {qs' : List Piece} (h : Scans s qs) (h' : Scans s qs') : qs = qs' := by
  induction hn : s.length using Nat.strongRecOn generalizing s qs qs' with
  | _ n ih =>
    rcases s with _ | ⟨x, s⟩
    · rw [h.of_nil, h'.of_nil]
    · have shorter : ∀ {t : List Char}, t.length ≤ s.length → ∀ {rs rs' : List Piece},
          Scans t rs → Scans t rs' → rs = rs' := fun {t} le _ _ h h' =>
        ih t.length (by simp only [List.length_cons] at hn; omega) h h' rfl
      have h := h.of_cons
      have h' := h'.of_cons
      split_ifs at h h'
      · exact shorter le_rfl h h'
      · exact shorter (List.dropWhile_suffix _).length_le h h'
      · obtain ⟨rs, rfl, rest⟩ := h
        obtain ⟨rs', rfl, rest'⟩ := h'
        rw [shorter le_rfl rest rest']
      · obtain ⟨rs, rfl, rest⟩ := h
        obtain ⟨rs', rfl, rest'⟩ := h'
        rw [shorter le_rfl rest rest']
      · obtain ⟨raw, value, t, rs, rfl, quoted, rfl, rest⟩ := h
        obtain ⟨raw', value', t', rs', same, quoted', rfl, rest'⟩ := h'
        obtain ⟨rfl, rfl⟩ := quoted.unique quoted' same
        rw [shorter (by simp; omega) rest rest']
      · obtain ⟨rs, rfl, rest⟩ := h
        obtain ⟨rs', rfl, rest'⟩ := h'
        rw [shorter (List.dropWhile_suffix _).length_le rest rest']

/-! ## Balanced texts are accepted -/

/-- The pairs of an accepted text are the structure of its pieces. -/
lemma Accepts.brackets {ps : List (Pair Rule)} (h : Accepts text ps) :
    ∃ qs, Scans text qs ∧ Balanced 0 qs ∧ Brackets text ps qs := by
  obtain ⟨n, reads⟩ := accepts_iff.1 h
  have start : Cursor.In ⟨0, text⟩ text := ⟨[], rfl, rfl⟩
  obtain ⟨qs, cut⟩ := reads.cut start.skip
  have scans := cut.scans [] .done
  have balanced := (cut.balanced 0 []).2 rfl
  rw [List.append_nil] at scans balanced
  exact ⟨qs, Scans.of_skip (c := ⟨0, text⟩) scans, balanced, cut.brackets⟩

/-- The grammar accepts the texts whose pieces are balanced. -/
lemma accepts_iff_balanced : (∃ ps, Accepts text ps) ↔ ∃ qs, Scans text qs ∧ Balanced 0 qs := by
  constructor
  · rintro ⟨ps, h⟩
    obtain ⟨qs, scans, balanced, -⟩ := h.brackets
    exact ⟨qs, scans, balanced⟩
  · rintro ⟨qs, scans, balanced⟩
    obtain ⟨ps, n, r, reads, rfl⟩ := scans.reads balanced 0
    exact ⟨ps, reads.accepts⟩

end ControlFlow.Grammar
