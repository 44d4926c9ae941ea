import ControlFlow.Form.Nesting
import ControlFlow.Proofs.Form.Forms
/-!
# How deep the lists of a text nest

A flat scan counts the brackets of a text and stops at the first one beyond a limit. Where a text is a
sequence of forms, this is the bracket of its first list that lies too deep. On any text, a parser that
tries the rules of the grammar one inside of the other has at most as many lists open as the scan has
counted.
-/

namespace ControlFlow

namespace Grammar

open Peg Grammar.Rule

/-- The position of an offset in a text. -/
def place (text : List Char) (i : Nat) : Position := Position.origin.behind (text.take i)

variable {text w : List Char} {c c' : Cursor} {t : Taken}

lemma place_move {i : Nat} {r : List Char} (h : Cursor.In ⟨i, w ++ r⟩ text) :
    place text (i + w.length) = (place text i).behind w := by
  obtain ⟨before, rfl, rfl⟩ := h
  rw [place, place, List.take_length_add_append, List.take_left, List.take_left,
    Position.behind_append]

/-! ## The scan over what stands between brackets -/

open Nesting in
lemma scan_plain {mode : Mode} {d : Nat} {x : Char} (same : nextDepth mode d x = d) (limit : Nat)
    (p : Position) (s : List Char) :
    scan limit mode d p (x :: s) = scan limit (mode.next x) d (p.advance x) s := by
  simp [scan, same]

lemma scan_word (word : IsWord w) (limit d : Nat) (p : Position) (s : List Char) :
    Nesting.scan limit .code d p (w ++ s) = Nesting.scan limit .code d (p.behind w) s := by
  induction w generalizing p with
  | nil => rfl
  | cons x w ih =>
    have hx : Word.isWordChar x = true := word x (.head _)
    simp only [Word.isWordChar, Bool.not_eq_true', Bool.or_eq_false_iff, decide_eq_false_iff_not] at hx
    obtain ⟨⟨⟨⟨-, opening⟩, closing⟩, quote⟩, semicolon⟩ := hx
    have mode : Nesting.Mode.code.next x = .code := by simp [Nesting.Mode.next, semicolon, quote]
    rw [List.cons_append, scan_plain (by simp [Nesting.nextDepth, opening, closing]), mode,
      ih fun y hy => word y (.tail _ hy), Position.behind_cons]

lemma scan_quoted {raw value : List Char} (h : Quoted raw value) (limit d : Nat) (p : Position)
    (s : List Char) :
    Nesting.scan limit .quoted d p (raw ++ s) = Nesting.scan limit .quoted d (p.behind raw) s := by
  induction h generalizing p with
  | nil => rfl
  | @plain x raw value quote backslash _ ih =>
    have mode : Nesting.Mode.quoted.next x = .quoted := by simp [Nesting.Mode.next, quote, backslash]
    rw [List.cons_append, scan_plain rfl, mode, ih, Position.behind_cons]
  | @escape x y raw value known _ ih =>
    have first : Nesting.Mode.quoted.next '\\' = .escape := by simp [Nesting.Mode.next]
    have second : Nesting.Mode.escape.next x = .quoted := rfl
    rw [List.cons_append, List.cons_append, scan_plain rfl, first, scan_plain rfl, second, ih,
      Position.behind_cons, Position.behind_cons]

/-- A gap is passed without a change of depth. -/
lemma scan_gap (inComment : Bool) (i : Nat) (s : List Char) :
    ∃ gap, s = gap ++ (skipFrom inComment i s).rest ∧
      (skipFrom inComment i s).offset = i + gap.length ∧
      ∀ limit d p, Nesting.scan limit (if inComment then .comment else .code) d p s =
        Nesting.scan limit .code d (p.behind gap) (skipFrom inComment i s).rest := by
  induction s generalizing inComment i with
  | nil => exact ⟨[], rfl, rfl, fun limit d p => rfl⟩
  | cons x s ih =>
    -- one more character of the gap, which leaves the scan in a comment or outside of one
    have more (inside : Bool) (same : ∀ d, Nesting.nextDepth
        (if inComment then .comment else .code) d x = d)
        (mode : (if inComment then Nesting.Mode.comment else .code).next x =
          if inside then .comment else .code) :
        ∃ gap, x :: s = gap ++ (skipFrom inside (i + 1) s).rest ∧
          (skipFrom inside (i + 1) s).offset = i + gap.length ∧
          ∀ limit d p, Nesting.scan limit (if inComment then .comment else .code) d p (x :: s) =
            Nesting.scan limit .code d (p.behind gap) (skipFrom inside (i + 1) s).rest := by
      obtain ⟨gap, hs, ho, pass⟩ := ih inside (i + 1)
      refine ⟨x :: gap, by rw [List.cons_append, ← hs], ?_, fun limit d p => ?_⟩
      · rw [ho, List.length_cons]
        omega
      · rw [scan_plain (same d), mode, pass, Position.behind_cons]
    rw [skipFrom]
    split
    · rename_i hc
      subst hc
      refine more _ (fun d => rfl) ?_
      by_cases feed : x = '\n' <;> simp [Nesting.Mode.next, feed]
    rename_i hc
    have outside : inComment = false := by simpa using hc
    subst outside
    split
    · rename_i blank
      refine more false (fun d => ?_) ?_
      all_goals
        simp only [Word.isGap, Bool.or_eq_true, decide_eq_true_eq] at blank
        rcases blank with ((rfl | rfl) | rfl) | rfl <;>
          simp [Nesting.nextDepth, Nesting.Mode.next]
    split
    · rename_i semicolon
      subst semicolon
      exact more true (fun d => by simp [Nesting.nextDepth]) (by simp [Nesting.Mode.next])
    · exact ⟨[], rfl, rfl, fun limit d p => rfl⟩

/-- The scan from a cursor on, at which some lists are open. -/
def scanAt (text : List Char) (limit d : Nat) (c : Cursor) : Option Position :=
  Nesting.scan limit .code d (place text c.offset) c.rest

lemma scanAt_skip (hc : c.In text) (limit d : Nat) :
    scanAt text limit d c = scanAt text limit d c.skip := by
  obtain ⟨i, s⟩ := c
  obtain ⟨gap, hs, ho, pass⟩ := scan_gap false i s
  have moved : place text (skipFrom false i s).offset = (place text i).behind gap := by
    rw [ho]
    rw [hs] at hc
    exact place_move hc
  rw [scanAt, scanAt]
  change _ = Nesting.scan limit .code d (place text (skipFrom false i s).offset) _
  rw [moved]
  exact pass limit d _

/-! ## The lists of a text -/

/-- A list of a text: the number of lists that it lies in, itself included, and the offset at which it
starts. -/
structure Opening where
  depth : Nat
  start : Nat

mutual

/-- The lists of a pair inside of some lists, in the order in which they start. -/
def lists (d : Nat) : Pair Rule → List Opening
  | .mk rule i _ inner =>
    if rule = list then ⟨d + 1, i⟩ :: listsAll (d + 1) inner else listsAll d inner

/-- The lists of a sequence of pairs inside of some lists. -/
def listsAll (d : Nat) : List (Pair Rule) → List Opening
  | [] => []
  | p :: ps => lists d p ++ listsAll d ps

end

/-- The lists of what was taken. -/
def Taken.lists (d : Nat) : Taken → List Opening
  | .one p => Grammar.lists d p
  | .many ps => listsAll d ps

lemma lists_word {rule : Rule} (hr : WordRule w rule) (d i j : Nat) :
    lists d (.mk rule i j []) = [] := by
  have other : rule ≠ list := by
    rintro rfl
    exact hr
  simp [lists, listsAll, other]

lemma lists_string (d i : Nat) (raw : List Char) : lists d (stringPair i raw) = [] := by
  simp [stringPair, lists, listsAll]

lemma lists_list (d i j : Nat) (ps : List (Pair Rule)) :
    lists d (.mk list i j ps) = ⟨d + 1, i⟩ :: listsAll (d + 1) ps := by
  simp [lists]

/-- The scan stops at the first list that lies too deep, and passes all forms if there is none. -/
lemma Reads.scanAt_eq (h : Reads c t c')
    (hc : c.In text) (limit d : Nat) :
    scanAt text limit d c =
      (((t.lists d).find? fun l => limit < l.depth).map fun l => place text l.start).or
        (scanAt text limit d c') := by
  induction h generalizing d with
  | @word i w r rule some_char word stop hr =>
    rw [Taken.lists, lists_word hr, scanAt, scanAt, scan_word word, place_move hc]
    rfl
  | @string i raw value r quoted =>
    have mode : Nesting.Mode.code.next '"' = .quoted := by simp [Nesting.Mode.next]
    have mode' : Nesting.Mode.quoted.next '"' = .code := by simp [Nesting.Mode.next]
    have same : Nesting.nextDepth .code d '"' = d := by simp [Nesting.nextDepth]
    have hc₀ : Cursor.In ⟨i, ('"' :: (raw ++ ['"'])) ++ r⟩ text := by simpa using hc
    have moved := place_move hc₀
    rw [Position.behind_cons, Position.behind_append, Position.behind_cons] at moved
    rw [Taken.lists, lists_string, scanAt, scanAt, scan_plain same, mode, scan_quoted quoted,
      scan_plain rfl, mode']
    simp only [List.length_cons, List.length_append, List.length_nil] at moved
    change _ = Nesting.scan limit .code d (place text (i + (raw.length + (0 + 1) + 1))) r
    rw [moved]
    rfl
  | @list i j s r ps inner ih =>
    have hc₁ : Cursor.In ⟨i + 1, s⟩ text := Cursor.In.move (w := ['(']) hc
    have moved : place text (i + 1) = (place text i).advance '(' := by
      have := place_move (w := ['(']) hc
      rwa [Position.behind_cons] at this
    have mode : Nesting.Mode.code.next '(' = .code := by simp [Nesting.Mode.next]
    have deeper : Nesting.nextDepth .code d '(' = d + 1 := by simp [Nesting.nextDepth]
    rw [Taken.lists, lists_list]
    by_cases deep : limit < d + 1
    · simp [scanAt, Nesting.scan, deeper, deep]
    · -- the scan passes the opening bracket, the forms inside and the closing bracket
      have opened : scanAt text limit d ⟨i, '(' :: s⟩ = scanAt text limit (d + 1) ⟨i + 1, s⟩ := by
        simp [scanAt, Nesting.scan, deeper, deep, mode, moved]
      obtain ⟨qs, cut⟩ := inner.cut hc₁.skip
      have moved' : place text (j + 1) = (place text j).advance ')' := by
        have := place_move (w := [')']) cut.inside
        rwa [Position.behind_cons] at this
      have shallower : Nesting.nextDepth .code (d + 1) ')' = d := by simp [Nesting.nextDepth]
      have closed : scanAt text limit (d + 1) ⟨j, ')' :: r⟩ = scanAt text limit d ⟨j + 1, r⟩ := by
        have fewer : ¬ d + 1 < d := by omega
        simp [scanAt, Nesting.scan, shallower, fewer, Nesting.Mode.next, moved']
      rw [opened, scanAt_skip hc₁, ih hc₁.skip, closed, List.find?_cons_of_neg (by simpa using deep)]
      rfl
  | nil => rfl
  | @cons c c₁ c₂ p ps first more ih₁ ih₂ =>
    obtain ⟨qs, cut⟩ := first.cut hc
    rw [ih₁ hc, scanAt_skip cut.inside, ih₂ cut.inside.skip]
    simp only [Taken.lists, listsAll, List.find?_append, Option.map_or, Option.or_assoc]

lemma offset_le_skip (c : Cursor) : c.offset ≤ c.skip.offset := by
  obtain ⟨gap, -, ho⟩ := skipFrom_split false c.offset c.rest
  change c.offset ≤ (skipFrom false c.offset c.rest).offset
  omega

/-- Lists start one behind the other, and between the cursors. -/
lemma Reads.lists_ordered (h : Reads c t c') (d : Nat) :
    c.offset ≤ c'.offset ∧ (t.lists d).Pairwise (fun l l' => l.start < l'.start) ∧
      ∀ l ∈ t.lists d, c.offset ≤ l.start ∧ l.start < c'.offset := by
  induction h generalizing d with
  | @word i w r rule some_char word stop hr => simp [Taken.lists, lists_word hr]
  | @string i raw value r quoted =>
    simp only [Taken.lists, lists_string, List.Pairwise.nil, List.not_mem_nil]
    exact ⟨by omega, trivial, by simp⟩
  | @list i j s r ps inner ih =>
    obtain ⟨le, ordered, between⟩ := ih (d + 1)
    have skipped := offset_le_skip ⟨i + 1, s⟩
    simp only at le between skipped
    rw [Taken.lists, lists_list]
    refine ⟨by simp only; omega, List.pairwise_cons.2 ⟨fun l hl => ?_, ordered⟩, fun l hl => ?_⟩
    · have := between l hl
      simp only
      omega
    · rcases List.mem_cons.1 hl with rfl | hl
      · simp only
        omega
      · have := between l hl
        simp only
        omega
  | nil => exact ⟨le_rfl, .nil, by simp [Taken.lists, listsAll]⟩
  | @cons c c₁ c₂ p ps first more ih₁ ih₂ =>
    obtain ⟨le₁, ordered₁, between₁⟩ := ih₁ d
    obtain ⟨le₂, ordered₂, between₂⟩ := ih₂ d
    have skipped := offset_le_skip c₁
    refine ⟨by omega, List.pairwise_append.2 ⟨ordered₁, ordered₂, fun l hl l' hl' => ?_⟩,
      fun l hl => ?_⟩
    · have := between₁ l hl
      have := between₂ l' hl'
      omega
    · rcases List.mem_append.1 hl with hl | hl
      · have := between₁ l hl
        omega
      · have := between₂ l hl
        omega

/-- The scan of an accepted text stops at its first list that lies too deep. -/
lemma Accepts.excess?_eq {text : String} {ps : List (Pair Rule)} (h : Accepts text.toList ps)
    (limit : Nat) :
    Nesting.excess? limit text =
      ((listsAll 0 ps).find? fun l => limit < l.depth).map fun l => place text.toList l.start := by
  obtain ⟨n, reads⟩ := accepts_iff.1 h
  have hc : Cursor.In ⟨0, text.toList⟩ text.toList := ⟨[], rfl, rfl⟩
  have scanned := (scanAt_skip hc limit 0).trans (reads.scanAt_eq hc.skip limit 0)
  have finish : scanAt text.toList limit 0 ⟨n, []⟩ = none := rfl
  rw [finish, Option.or_none] at scanned
  exact scanned

/-- The first list of an accepted text that has a property starts before all others. -/
lemma Accepts.first_le {ps : List (Pair Rule)} (h : Accepts text ps) {P : Opening → Bool}
    {l l' : Opening} (hl : (listsAll 0 ps).find? P = some l) (hl' : l' ∈ listsAll 0 ps)
    (hp : P l' = true) : l.start ≤ l'.start := by
  obtain ⟨n, reads⟩ := accepts_iff.1 h
  obtain ⟨-, ordered, -⟩ := reads.lists_ordered 0
  obtain ⟨-, before, behind, split, others⟩ := List.find?_eq_some_iff_append.1 hl
  rw [Taken.lists, split] at ordered
  rw [split] at hl'
  rcases List.mem_append.1 hl' with early | late
  · have := others l' early
    simp [hp] at this
  · rcases List.mem_cons.1 late with rfl | late
    · exact le_rfl
    · have := (List.pairwise_append.1 ordered).2.1
      exact ((List.pairwise_cons.1 this).1 l' late).le

/-! ## The lists that are open while a text is parsed -/

/-- Whether no rule for several forms is meant. -/
def Lexical (r : Rule) : Prop := r ∉ [document, form, list]

lemma within_lexical (r : Rule) (h : Lexical r) : (rules r).body.Within Lexical := by
  cases r <;> simp_all [Lexical, rules, Expr.Within, Expr.plus, Expr.char, Expr.any, oneOf, digit]

/-- The number of lists among the rules in progress whose bracket is before an offset. -/
def opened (fs : List (Rule × Nat)) (i : Nat) : Nat := fs.countP fun f => f.1 = list ∧ f.2 < i

/-- The number of lists among the rules in progress. -/
def tried (fs : List (Rule × Nat)) : Nat := fs.countP fun f => f.1 = list

/-- The rules in progress open no more lists than there may be, and try at most one more. -/
def Bounded (limit k : Nat) (fs : List (Rule × Nat)) (c : Cursor) : Prop :=
  k + opened fs c.offset ≤ limit ∧ k + tried fs ≤ limit + 1

/-- No bracket from a cursor on opens more lists than there may be. -/
structure Clear (limit k : Nat) (c : Cursor) : Prop where
  le : k ≤ limit
  rest : ∀ p, Nesting.scan limit .code k p c.rest = none

lemma scan_eq_none {limit : Nat} {mode : Nesting.Mode} {k : Nat} {p : Position} {s : List Char}
    (h : Nesting.scan limit mode k p s = none) (q : Position) :
    Nesting.scan limit mode k q s = none := by
  induction s generalizing mode k p q with
  | nil => rfl
  | cons x s ih =>
    rw [Nesting.scan] at h ⊢
    split at h
    · cases h
    · rename_i shallow
      rw [if_neg shallow]
      exact ih h _

lemma exists_in (c : Cursor) : ∃ text, c.In text :=
  ⟨List.replicate c.offset ' ' ++ c.rest, List.replicate c.offset ' ', rfl, List.length_replicate⟩

namespace Clear

variable {limit k : Nat}

lemma of_scanAt (le : k ≤ limit) (h : scanAt text limit k c = none) : Clear limit k c :=
  ⟨le, fun p => scan_eq_none h p⟩

lemma skip (h : Clear limit k c) : Clear limit k c.skip := by
  obtain ⟨text, hc⟩ := exists_in c
  exact of_scanAt h.le ((scanAt_skip hc limit k).symm.trans (h.rest _))

lemma reads (h : Clear limit k c) (taken : Reads c t c') : Clear limit k c' := by
  obtain ⟨text, hc⟩ := exists_in c
  have scanned : scanAt text limit k c = none := h.rest _
  rw [taken.scanAt_eq hc, Option.or_eq_none_iff] at scanned
  exact of_scanAt h.le scanned.2

/-- An opening bracket is within the limit. -/
lemma enter {i : Nat} {s : List Char} (h : Clear limit k ⟨i, '(' :: s⟩) :
    Clear limit (k + 1) ⟨i + 1, s⟩ := by
  have deeper : Nesting.nextDepth .code k '(' = k + 1 := by simp [Nesting.nextDepth]
  have mode : Nesting.Mode.code.next '(' = .code := by simp [Nesting.Mode.next]
  have scanned := h.rest .origin
  rw [Nesting.scan, deeper, mode] at scanned
  split at scanned
  · cases scanned
  · exact ⟨by omega, fun p => scan_eq_none scanned p⟩

end Clear

section

variable {limit k : Nat} {e e' : Expr Rule} {fs : List (Rule × Nat)}

lemma bounded_nil (hk : k ≤ limit) : Bounded limit k [] c := by
  simp only [Bounded, opened, tried, List.countP_nil]
  omega

/-- Where no list is tried, none is open. -/
lemma Bounded.of_within (hk : k ≤ limit) (h : Visits rules e c fs e' c') (he : e.Within Lexical) :
    Bounded limit k fs c' := by
  have lexical := h.within within_lexical he
  have none_tried : ∀ f ∈ fs, f.1 ≠ list := fun f hf hl => lexical f hf (by simp [hl])
  have tried_eq : tried fs = 0 := by
    simpa [tried, List.countP_eq_zero] using none_tried
  have opened_eq : opened fs c'.offset = 0 := by
    simp only [opened, List.countP_eq_zero, decide_eq_true_eq]
    exact fun f hf hl => none_tried f hf hl.1
  simp only [Bounded, tried_eq, opened_eq]
  omega

/-- A rule that is no list counts for nothing. -/
lemma Bounded.cons (h : Bounded limit k fs c) {r : Rule} (hr : r ≠ list) (i : Nat) :
    Bounded limit k ((r, i) :: fs) c := by
  simpa [Bounded, opened, tried, hr] using h

/-- A list that is open counts for one. -/
lemma Bounded.cons_list (h : Bounded limit (k + 1) fs c) (i : Nat) :
    Bounded limit k ((list, i) :: fs) c := by
  obtain ⟨few, tries⟩ := h
  have step : opened ((list, i) :: fs) c.offset ≤ opened fs c.offset + 1 := by
    simp only [opened, List.countP_cons]
    split <;> omega
  have step' : tried ((list, i) :: fs) = tried fs + 1 := by simp [tried]
  simp only [Bounded]
  omega

lemma within_skip : skip.Within Lexical := by
  simp [skip, Expr.Within, Lexical]

section

-- all that is tried in shorter forms is known
variable {n : Nat} (ih : ∀ {k c fs e' c'}, c.rest.length < n → Clear limit k c →
    Visits rules (.rule form) c fs e' c' → Bounded limit k fs c')
  (hc : c.rest.length < n) (clear : Clear limit k c)

include ih hc clear

/-- What is tried behind a form. -/
lemma Bounded.more (h : Visits rules Grammar.more c fs e' c') : Bounded limit k fs c' := by
  induction hm : c.rest.length using Nat.strongRecOn generalizing c with
  | _ m ihm =>
    have skipped := c.length_skip
    unfold Grammar.more at h
    cases h with
    | here => exact bounded_nil clear.le
    | star_first h =>
      cases h with
      | here => exact bounded_nil clear.le
      | seq_first h => exact .of_within clear.le h within_skip
      | seq_second first h =>
        cases first.unique (parses_skip c)
        exact ih (by omega) clear.skip h
    | star_more first h =>
      cases first with
      | seq gap first =>
        cases gap.unique (parses_skip c)
        obtain ⟨p, rfl, reads⟩ := reads_of_parses first
        have shorter := reads.length
        simp only at shorter
        exact ihm _ (by omega) (by omega) (clear.skip.reads reads) h rfl

/-- What is tried in a sequence of forms. -/
lemma Bounded.items (h : Visits rules Grammar.items c fs e' c') : Bounded limit k fs c' := by
  unfold Grammar.items at h
  cases h with
  | here => exact bounded_nil clear.le
  | opt h =>
    cases h with
    | here => exact bounded_nil clear.le
    | seq_first h => exact ih hc clear h
    | seq_second first h =>
      obtain ⟨p, rfl, reads⟩ := reads_of_parses first
      have shorter := reads.length
      simp only at shorter
      exact .more ih (by omega) (clear.reads reads) h

/-- What is tried in a sequence of forms with gaps around it and something behind it that is no form. -/
lemma Bounded.spaced {last : Expr Rule} (hl : last.Within Lexical)
    (h : Visits rules (.seq skip (.seq Grammar.items (.seq skip last))) c fs e' c') :
    Bounded limit k fs c' := by
  have skipped := c.length_skip
  cases h with
  | here => exact bounded_nil clear.le
  | seq_first h => exact .of_within clear.le h within_skip
  | seq_second gap h =>
    cases gap.unique (parses_skip c)
    cases h with
    | here => exact bounded_nil clear.le
    | seq_first h => exact .items ih (by omega) clear.skip h
    | seq_second _ h => exact .of_within clear.le h ⟨within_skip, hl⟩

end

/-- What is tried in a form. A list has taken a bracket before it tries the forms inside. -/
lemma Bounded.form (clear : Clear limit k c) (h : Visits rules (.rule Rule.form) c fs e' c') :
    Bounded limit k fs c' := by
  induction hn : c.rest.length using Nat.strongRecOn generalizing k c fs e' c' with
  | _ n ih =>
    have shorter : ∀ {k c fs e' c'}, c.rest.length < n → Clear limit k c →
        Visits rules (.rule Rule.form) c fs e' c' → Bounded limit k fs c' :=
      fun hc clear h => ih _ hc clear h rfl
    cases h with
    | here => exact bounded_nil clear.le
    | rule h =>
      refine Bounded.cons ?_ (by simp) _
      cases h with
      | here => exact bounded_nil clear.le
      | choice_second _ h =>
        refine .of_within clear.le h ?_
        simp [Expr.Within, Lexical]
      | choice_first h =>
        cases h with
        | here => exact bounded_nil clear.le
        | @rule _ _ _ _ fs h =>
          -- the body of a list: a bracket, and then forms up to the other bracket
          change Visits rules (.seq (.char '(') (.seq skip (.seq Grammar.items (.seq skip (.char ')')))))
            c fs e' c' at h
          have attempt : Bounded limit k [(list, c.offset)] c := by
            have := clear.le
            simp only [Bounded, opened, tried, List.countP_cons, List.countP_nil]
            simp
            omega
          cases h with
          | here => exact attempt
          | seq_first h =>
            cases h with
            | here => exact attempt
          | seq_second bracket h =>
            rcases c with ⟨i, _ | ⟨x, s⟩⟩
            · cases bracket
            · cases bracket with
              | one hx =>
                obtain rfl : x = '(' := by simpa using hx
                have closing : (Expr.char ')' : Expr Rule).Within Lexical := trivial
                simp only [List.length_cons] at hn
                exact (Bounded.spaced shorter (by simp only; omega) clear.enter closing h).cons_list i

/-- What is tried in a document. -/
lemma Bounded.document (clear : Clear limit 0 ⟨0, text⟩)
    (h : Visits rules (.rule Rule.document) ⟨0, text⟩ fs e' c') : Bounded limit 0 fs c' := by
  cases h with
  | here => exact bounded_nil clear.le
  | @rule _ _ _ _ fs h =>
    change Visits rules (.seq .start (.seq skip (.seq Grammar.items
      (.seq skip (.rule endOfInput))))) _ fs e' c' at h
    refine Bounded.cons ?_ (by simp) _
    cases h with
    | here => exact bounded_nil clear.le
    | seq_first h => exact .of_within clear.le h trivial
    | seq_second first h =>
      cases first with
      | start =>
        have last : (Expr.rule endOfInput).Within Lexical := by simp [Expr.Within, Lexical]
        exact .spaced (fun _ => Bounded.form) (Nat.lt_succ_self _) clear last h

end

/-- **The scan for nesting agrees with the parser.** Where it finds nothing, a parser that follows the
grammar never has more lists open than there may be, and tries at most one more, whether it accepts the
text or not. In an accepted text the scan finds something if and only if a list lies too deep, and then
it finds the position of the first such list. -/
theorem nesting_agrees (limit : Nat) (text : String) :
    (Nesting.excess? limit text = none →
      ∀ fs e c, Visits rules (.rule document) ⟨0, text.toList⟩ fs e c →
        opened fs c.offset ≤ limit ∧ tried fs ≤ limit + 1) ∧
    ∀ ps, Accepts text.toList ps →
      ((∃ p, Nesting.excess? limit text = some p) ↔ ∃ l ∈ listsAll 0 ps, limit < l.depth) ∧
      ∀ p, Nesting.excess? limit text = some p →
        ∃ l ∈ listsAll 0 ps, limit < l.depth ∧ p = place text.toList l.start ∧
          ∀ l' ∈ listsAll 0 ps, limit < l'.depth → l.start ≤ l'.start := by
  refine ⟨fun quiet fs e c visits => ?_, fun ps accepts => ⟨?_, fun p found => ?_⟩⟩
  · have clear : Clear limit 0 ⟨0, text.toList⟩ := ⟨Nat.zero_le _, fun p => scan_eq_none quiet p⟩
    have bounded := Bounded.document clear visits
    simpa only [Bounded, Nat.zero_add] using bounded
  · rw [accepts.excess?_eq]
    constructor
    · rintro ⟨p, found⟩
      obtain ⟨l, hl, -⟩ := Option.map_eq_some_iff.1 found
      exact ⟨l, List.mem_of_find?_eq_some hl, by simpa using List.find?_some hl⟩
    · rintro ⟨l, hl, deep⟩
      have some_list : ((listsAll 0 ps).find? fun l => limit < l.depth).isSome = true :=
        List.find?_isSome.2 ⟨l, hl, by simpa using deep⟩
      obtain ⟨l', hl'⟩ := Option.isSome_iff_exists.1 some_list
      exact ⟨_, Option.map_eq_some_iff.2 ⟨l', hl', rfl⟩⟩
  · rw [accepts.excess?_eq] at found
    obtain ⟨l, hl, rfl⟩ := Option.map_eq_some_iff.1 found
    refine ⟨l, List.mem_of_find?_eq_some hl, by simpa using List.find?_some hl, rfl, ?_⟩
    exact fun l' hl' deep => accepts.first_le hl hl' (by simpa using deep)

/-- While a text is parsed that does not close its two lists, both of them are open. -/
lemma visits_unclosed : Visits rules (.rule document) ⟨0, ['(', '(', 'a']⟩
    [(document, 0), (form, 0), (list, 0), (form, 1), (list, 1)]
    (.seq skip (.seq items (.seq skip (.char ')')))) ⟨2, ['a']⟩ := by
  have inner : Visits rules (.rule form) ⟨1, ['(', 'a']⟩ [(form, 1), (list, 1)]
      (.seq skip (.seq items (.seq skip (.char ')')))) ⟨2, ['a']⟩ :=
    .rule (.choice_first (.rule (.seq_second (parses_char '(' 1 _) .here)))
  have outer : Visits rules (.rule form) ⟨0, ['(', '(', 'a']⟩
      [(form, 0), (list, 0), (form, 1), (list, 1)]
      (.seq skip (.seq items (.seq skip (.char ')')))) ⟨2, ['a']⟩ :=
    .rule (.choice_first (.rule (.seq_second (parses_char '(' 0 _)
      (.seq_second (parses_skip _) (.seq_first (.opt (.seq_first inner)))))))
  exact .rule (.seq_second .start (.seq_second (parses_skip _) (.seq_first (.opt (.seq_first outer)))))

/-- A text with a list in a list in a list, of which the last one starts on the fourth line. -/
def threeLists : String := "(a\r\n\t(b \";(\"\n ;((\n(c)))"

theorem nesting_agrees_threeLists :
    (Nesting.excess? 2 "((a" = none ∧ ∃ fs e c,
      Visits rules (.rule document) ⟨0, ['(', '(', 'a']⟩ fs e c ∧ opened fs c.offset = 2 ∧
        tried fs ≤ 3) ∧
    ∃ ps, Accepts threeLists.toList ps ∧ Nesting.excess? 2 threeLists = some ⟨4, 1⟩ ∧
      ∃ l ∈ listsAll 0 ps, 2 < l.depth ∧ place threeLists.toList l.start = ⟨4, 1⟩ := by
  have quiet : Nesting.excess? 2 "((a" = none := by decide +kernel
  have deep : Nesting.excess? 2 threeLists = some ⟨4, 1⟩ := by decide +kernel
  refine ⟨⟨quiet, _, _, _, visits_unclosed, by decide, ?_⟩, ?_⟩
  · exact ((nesting_agrees 2 "((a").1 quiet _ _ _ visits_unclosed).2
  · obtain ⟨ps, accepts⟩ : ∃ ps, Accepts threeLists.toList ps := by
      obtain ⟨fs, h⟩ := exists_ok (e := Form.ofTokens (Tokens.ofText threeLists)) (by decide +kernel)
      exact accepts_of_ofTokens h
    obtain ⟨l, hl, deeper, position, -⟩ := ((nesting_agrees 2 threeLists).2 ps accepts).2 _ deep
    exact ⟨ps, accepts, deep, l, hl, deeper, position.symm⟩

end Grammar

end ControlFlow

