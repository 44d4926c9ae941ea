import ControlFlow.Proofs.Reading.Spacing
/-!
# Classes of read errors

Which class of error a text is refused with depends on the text alone: a text of blanks is empty, a text
with a bracket that opens one list too many nests too deep, a text that is no sequence of forms or holds
a number out of range is malformed, and whatever else is refused is no known form.

A text of blanks is not the same as a text without a token: comments are no blanks, and some blanks are
no blanks of the grammar.
-/

namespace ControlFlow

/-! ## Brackets outside of comments and quoted texts -/

namespace Grammar

open Peg

/-- What may stand between two quotes if no backslash there is looked at closely. -/
inductive Enclosed : List Char → Prop where
  | nil : Enclosed []
  | plain {x : Char} {raw : List Char} (quote : x ≠ '"') (backslash : x ≠ '\\') (h : Enclosed raw) :
      Enclosed (x :: raw)
  | escape (x : Char) {raw : List Char} (h : Enclosed raw) : Enclosed ('\\' :: x :: raw)

/-- In front of the text `d` lists are open and behind it `k`, and it ends outside of comments and quoted
texts. A closing bracket that closes nothing is passed. -/
inductive Passes : Nat → List Char → Nat → Prop where
  | done {d : Nat} : Passes d [] d
  | opening {d k : Nat} {s : List Char} (rest : Passes (d + 1) s k) : Passes d ('(' :: s) k
  | closing {d k : Nat} {s : List Char} (rest : Passes (d - 1) s k) : Passes d (')' :: s) k
  | comment {d k : Nat} {line s : List Char} (inLine : '\n' ∉ line) (rest : Passes d s k) :
      Passes d (';' :: (line ++ '\n' :: s)) k
  | quoted {d k : Nat} {raw s : List Char} (h : Enclosed raw) (rest : Passes d s k) :
      Passes d ('"' :: (raw ++ '"' :: s)) k
  | other {d k : Nat} {x : Char} {s : List Char} (plain : x ∉ ['(', ')', ';', '"'])
      (rest : Passes d s k) : Passes d (x :: s) k

/-- At some bracket outside of comments and quoted texts more than `limit` lists are open. -/
def Overfull (limit : Nat) (text : List Char) : Prop :=
  ∃ before behind k, text = before ++ '(' :: behind ∧ Passes 0 before k ∧ limit < k + 1

section

variable {limit d : Nat} {p : Position} {x : Char} {s : List Char}

lemma scan_opening : Nesting.scan limit .code d p ('(' :: s) =
    if limit < d + 1 then some p else Nesting.scan limit .code (d + 1) (p.advance '(') s := by
  simp [Nesting.scan, Nesting.nextDepth, Nesting.Mode.next]

lemma scan_closing : Nesting.scan limit .code d p (')' :: s) =
    Nesting.scan limit .code (d - 1) (p.advance ')') s := by
  have higher : Nesting.nextDepth .code d ')' = d - 1 := by simp [Nesting.nextDepth]
  rw [Nesting.scan, higher, if_neg (by omega)]
  simp [Nesting.Mode.next]

lemma scan_other (plain : x ∉ ['(', ')', ';', '"']) : Nesting.scan limit .code d p (x :: s) =
    Nesting.scan limit .code d (p.advance x) s := by
  simp only [List.mem_cons, List.not_mem_nil, or_false, not_or] at plain
  rw [scan_plain (by simp [Nesting.nextDepth, plain])]
  simp [Nesting.Mode.next, plain]

lemma scan_semicolon : Nesting.scan limit .code d p (';' :: s) =
    Nesting.scan limit .comment d (p.advance ';') s := by
  rw [scan_plain (by simp [Nesting.nextDepth])]
  simp [Nesting.Mode.next]

lemma scan_openQuote : Nesting.scan limit .code d p ('"' :: s) =
    Nesting.scan limit .quoted d (p.advance '"') s := by
  rw [scan_plain (by simp [Nesting.nextDepth])]
  simp [Nesting.Mode.next]

lemma scan_closeQuote : Nesting.scan limit .quoted d p ('"' :: s) =
    Nesting.scan limit .code d (p.advance '"') s := by
  rw [scan_plain rfl]
  simp [Nesting.Mode.next]

lemma scan_inside (quote : x ≠ '"') (backslash : x ≠ '\\') :
    Nesting.scan limit .quoted d p (x :: s) = Nesting.scan limit .quoted d (p.advance x) s := by
  rw [scan_plain rfl]
  simp [Nesting.Mode.next, quote, backslash]

lemma scan_escape (y : Char) : Nesting.scan limit .quoted d p ('\\' :: y :: s) =
    Nesting.scan limit .quoted d ((p.advance '\\').advance y) s := by
  rw [scan_plain rfl]
  have first : Nesting.Mode.quoted.next '\\' = .escape := by simp [Nesting.Mode.next]
  rw [first, scan_plain rfl]
  rfl

lemma scan_enclosed {raw : List Char} (h : Enclosed raw) :
    Nesting.scan limit .quoted d p (raw ++ s) =
      Nesting.scan limit .quoted d (p.behind raw) s := by
  induction h generalizing p with
  | nil => rfl
  | plain quote backslash _ ih =>
    rw [List.cons_append, scan_inside quote backslash, ih, Position.behind_cons]
  | escape y _ ih =>
    rw [List.cons_append, List.cons_append, scan_escape, ih, Position.behind_cons,
      Position.behind_cons]

/-- A bracket that opens a list too many is found, unless another one is found before it. -/
lemma Passes.scan_isSome {before behind : List Char} {k : Nat} (h : Passes d before k)
    (full : limit < k + 1) (p : Position) :
    (Nesting.scan limit .code d p (before ++ '(' :: behind)).isSome = true := by
  induction h generalizing p with
  | done => simp [scan_opening, full]
  | opening _ ih =>
    rw [List.cons_append, scan_opening]
    split
    · rfl
    · exact ih full _
  | closing _ ih =>
    rw [List.cons_append, scan_closing]
    exact ih full _
  | @comment d k line s inLine _ ih =>
    have stop : Stops (· ≠ '\n') ('\n' :: (s ++ '(' :: behind)) := by simp
    rw [List.cons_append, List.append_assoc, List.cons_append, scan_semicolon,
      scan_comment_line inLine stop, scan_other (by simp)]
    exact ih full _
  | @quoted d k raw s closed _ ih =>
    rw [List.cons_append, List.append_assoc, List.cons_append, scan_openQuote,
      scan_enclosed closed, scan_closeQuote]
    exact ih full _
  | other plain _ ih =>
    rw [List.cons_append, scan_other plain]
    exact ih full _

/-- What is found behind a quote is found behind the quote that closes it. -/
lemma exists_enclosed (found : (Nesting.scan limit .quoted d p s).isSome = true) :
    ∃ raw r q, s = raw ++ '"' :: r ∧ Enclosed raw ∧
      (Nesting.scan limit .code d q r).isSome = true := by
  induction hn : s.length using Nat.strongRecOn generalizing s p with
  | _ n ih =>
    rcases s with _ | ⟨x, s⟩
    · cases found
    by_cases quote : x = '"'
    · subst quote
      rw [scan_closeQuote] at found
      exact ⟨[], s, _, rfl, .nil, found⟩
    by_cases backslash : x = '\\'
    · subst backslash
      rcases s with _ | ⟨y, s⟩
      · simp [Nesting.scan, Nesting.nextDepth] at found
      · rw [scan_escape] at found
        obtain ⟨raw, r, q, rfl, closed, found⟩ :=
          ih s.length (by simp only [List.length_cons] at hn; omega) found rfl
        exact ⟨'\\' :: y :: raw, r, q, rfl, .escape y closed, found⟩
    · rw [scan_inside quote backslash] at found
      obtain ⟨raw, r, q, rfl, closed, found⟩ := ih s.length (by simp [← hn]) found rfl
      exact ⟨x :: raw, r, q, rfl, .plain quote backslash closed, found⟩

/-- What is found is a bracket outside of comments and quoted texts that opens a list too many. -/
lemma exists_passes (found : (Nesting.scan limit .code d p s).isSome = true) :
    ∃ before behind k, s = before ++ '(' :: behind ∧ Passes d before k ∧ limit < k + 1 := by
  induction hn : s.length using Nat.strongRecOn generalizing s d p with
  | _ n ih =>
    rcases s with _ | ⟨x, s⟩
    · cases found
    have shorter : ∀ {t : List Char}, t.length ≤ s.length → ∀ {e : Nat} {q : Position},
        (Nesting.scan limit .code e q t).isSome = true →
        ∃ before behind k, t = before ++ '(' :: behind ∧ Passes e before k ∧ limit < k + 1 :=
      fun {t} le _ _ found => ih t.length (by simp only [List.length_cons] at hn; omega) found rfl
    by_cases opening : x = '('
    · subst opening
      rw [scan_opening] at found
      split at found
      · exact ⟨[], s, d, rfl, .done, ‹_›⟩
      · obtain ⟨before, behind, k, rfl, passes, full⟩ := shorter le_rfl found
        exact ⟨_, behind, k, rfl, .opening passes, full⟩
    by_cases closing : x = ')'
    · subst closing
      rw [scan_closing] at found
      obtain ⟨before, behind, k, rfl, passes, full⟩ := shorter le_rfl found
      exact ⟨_, behind, k, rfl, .closing passes, full⟩
    by_cases comment : x = ';'
    · subst comment
      obtain ⟨line, r, rfl, inLine, stop⟩ := exists_line s
      rw [scan_semicolon, scan_comment_line inLine stop] at found
      rcases r with _ | ⟨y, r⟩
      · cases found
      · obtain rfl : y = '\n' := by simpa using stop
        rw [scan_other (by simp)] at found
        obtain ⟨before, behind, k, rfl, passes, full⟩ := shorter (by simp; omega) found
        exact ⟨_, behind, k, by simp, .comment inLine passes, full⟩
    by_cases quote : x = '"'
    · subst quote
      rw [scan_openQuote] at found
      obtain ⟨raw, r, q, rfl, closed, found⟩ := exists_enclosed found
      obtain ⟨before, behind, k, rfl, passes, full⟩ := shorter (by simp; omega) found
      exact ⟨_, behind, k, by simp, .quoted closed passes, full⟩
    · have plain : x ∉ ['(', ')', ';', '"'] := by simp [opening, closing, comment, quote]
      rw [scan_other plain] at found
      obtain ⟨before, behind, k, rfl, passes, full⟩ := shorter le_rfl found
      exact ⟨_, behind, k, rfl, .other plain passes, full⟩

end

/-- The scan stops at a text if and only if too many lists are open somewhere in it. -/
lemma excess?_isSome_iff {limit : Nat} {text : String} :
    (Nesting.excess? limit text).isSome = true ↔ Overfull limit text.toList := by
  constructor
  · exact exists_passes
  · rintro ⟨before, behind, k, split, passes, full⟩
    rw [Nesting.excess?, split]
    exact passes.scan_isSome full _

/-! ## Texts that are no forms -/

/-- The grammar rejects a text, or one of its words spells an integer that does not fit. -/
def Illegible (text : List Char) : Prop :=
  Rejects text ∨ ∃ qs w n, Scans text qs ∧ .run w ∈ qs ∧ Word.Spells w n ∧ ¬ Fits n

lemma Accepts.not_rejects {text : List Char} {ps : List (Pair Rule)} (h : Accepts text ps) :
    ¬ Rejects text := by
  intro rejects
  obtain ⟨n, parses⟩ := h
  cases parses.unique rejects

/-- A text has forms unless it is illegible. -/
lemma forms_error_iff (file text : String) :
    (∃ e, Reading.forms file text = .error e) ↔ Illegible text.toList := by
  rcases accepts_or_rejects text.toList with ⟨ps, n, reads⟩ | rejects
  · have accepts : Accepts text.toList ps := reads.accepts
    obtain ⟨ts, qs, fs, f, tokens, scans, shows, assembled, -⟩ := accepts.forms
    have outcome := forms_or_oversized file assembled
    rw [tokens, oversized?_all shows] at outcome
    rcases outcome with ⟨ok, all⟩ | ⟨error, oversized⟩
    · refine iff_of_false (by simp [ok]) ?_
      rintro (rejects | ⟨qs', w, n, scans', mem, spells, out⟩)
      · exact accepts.not_rejects rejects
      · obtain rfl := scans.unique scans'
        exact out (all w n mem spells)
    · refine iff_of_true error (Or.inr ?_)
      simp only [not_forall] at oversized
      obtain ⟨w, n, mem, spells, out⟩ := oversized
      exact ⟨qs, w, n, scans, mem, spells, out⟩
  · refine iff_of_true ?_ (Or.inl rejects)
    cases assembled : Form.ofTokens (Tokens.ofText text) with
    | error u =>
      obtain ⟨e, he, -⟩ := forms_of_unmatched file assembled
      exact ⟨e, he⟩
    | ok fs =>
      obtain ⟨ps, accepts⟩ := accepts_of_ofTokens assembled
      exact absurd rejects accepts.not_rejects

/-! ## Texts without a token -/

/-- A text holds nothing but blanks of the grammar and comments. -/
def Tokenless (text : List Char) : Prop := Scans text []

lemma isBlank_of_isGap {x : Char} (h : Word.isGap x = true) : Text.isBlank x = true := by
  simp only [Word.isGap, Bool.or_eq_true, decide_eq_true_eq] at h
  rcases h with ((rfl | rfl) | rfl) | rfl <;> decide

/-- A text without tokens and comments is made of blanks of the grammar. -/
lemma Tokenless.isGap {text : List Char} (h : Tokenless text) (no_comment : ';' ∉ text) :
    ∀ x ∈ text, Word.isGap x = true := by
  unfold Tokenless at h
  generalize hq : ([] : List Piece) = qs at h
  induction h with
  | done => simp
  | blank gap _ ih =>
    simp only [List.mem_cons, not_or] at no_comment
    exact List.forall_mem_cons.2 ⟨gap, ih no_comment.2 hq⟩
  | comment => simp at no_comment
  | opening => cases hq
  | closing => cases hq
  | quoted => cases hq
  | run => cases hq

lemma tokenless_of_isGap {text : List Char} (h : ∀ x ∈ text, Word.isGap x = true) :
    Tokenless text := by
  induction text with
  | nil => exact .done
  | cons x s ih =>
    obtain ⟨gap, rest⟩ := List.forall_mem_cons.1 h
    exact .blank gap (ih rest)

end Grammar

/-! ## Classes -/

namespace Reading

open Grammar

variable {host : Host} {options : Options} {source : Source}

/-- Reading a text fails with an error of the class. -/
def FailsAs (host : Host) (options : Options) (source : Source) (c : ReadClass) : Prop :=
  ∃ e, read host options source = .error e ∧ e.fault.kind = c

lemma FailsAs.unique {c c' : ReadClass} (h : FailsAs host options source c)
    (h' : FailsAs host options source c') : c = c' := by
  obtain ⟨e, failed, rfl⟩ := h
  obtain ⟨e', failed', rfl⟩ := h'
  rw [failed] at failed'
  cases failed'
  rfl

lemma FailsAs.not_ok {c : ReadClass} {root : Node} (h : FailsAs host options source c) :
    read host options source ≠ .ok root := by
  obtain ⟨e, failed, -⟩ := h
  simp [failed]

lemma forms_error_kind {file text : String} {e : ReadError} (h : forms file text = .error e) :
    e.fault.kind = .malformed := by
  unfold forms at h
  dsimp only at h
  split at h
  · cases h
    rfl
  · split at h
    · cases h
      rfl
    · cases h

/-- Of four things one happens to a text, in this order. -/
lemma read_cases (source : Source) (stack : options.hasStack host = true) :
    source.isEmpty = true ∧ FailsAs host options source .emptySource ∨
    source.isEmpty = false ∧
      (Overfull options.maxDepth source.content.toList ∧ FailsAs host options source .tooDeep ∨
      ¬ Overfull options.maxDepth source.content.toList ∧
        (Illegible source.content.toList ∧ FailsAs host options source .malformed ∨
        ¬ Illegible source.content.toList ∧
          (FailsAs host options source .unknownForm ∨
            ∃ root, read host options source = .ok root))) := by
  cases empty : source.isEmpty with
  | true => exact Or.inl ⟨rfl, _, by rw [read, run, if_pos empty], rfl⟩
  | false =>
    refine Or.inr ⟨rfl, ?_⟩
    rw [← excess?_isSome_iff, ← forms_error_iff source.name]
    unfold FailsAs read run
    simp only [empty, Bool.false_eq_true, if_false]
    cases Nesting.excess? options.maxDepth source.content with
    | some p => exact Or.inl ⟨rfl, _, rfl, rfl⟩
    | none =>
      refine Or.inr ⟨by simp, ?_⟩
      simp only [Option.isNone_iff_eq_none.1 stack]
      cases read_forms : forms source.name source.content with
      | error e => exact Or.inl ⟨⟨e, rfl⟩, e, rfl, forms_error_kind read_forms⟩
      | ok fs =>
        refine Or.inr ⟨by simp, ?_⟩
        cases tree : root source.name fs with
        | error e => exact Or.inl ⟨e, tree, root_error tree⟩
        | ok n => exact Or.inr ⟨n, tree⟩

/-- Reading fails with the class of empty texts at texts of blanks and at no others. -/
lemma failsAs_emptySource_iff (stack : options.hasStack host = true) :
    FailsAs host options source .emptySource ↔ source.isEmpty = true := by
  rcases read_cases source stack with ⟨empty, failed⟩ | ⟨empty, rest⟩
  · exact iff_of_true failed empty
  · refine iff_of_false (fun failed => ?_) (by simp [empty])
    rcases rest with ⟨-, failed'⟩ | ⟨-, ⟨-, failed'⟩ | ⟨-, failed' | ⟨n, ok⟩⟩⟩
    · cases failed.unique failed'
    · cases failed.unique failed'
    · cases failed.unique failed'
    · exact failed.not_ok ok

/-- **The class of a read error depends on the text alone.** A text is refused as empty if it is made of
blanks. Otherwise it is refused as too deep if more lists than allowed are open at some bracket outside
of comments and quoted texts, otherwise as malformed if the grammar rejects it or an integer in it does
not fit, and otherwise it is read or refused as no known form. To be refused as empty is the same as to
hold no token, except for comments without a token and for blanks that are none of the grammar. -/
theorem read_fault_classes (host : Host) (options : Options) (source : Source)
    (stack : options.hasStack host = true) :
    (FailsAs host options source .emptySource ↔ ∀ x ∈ source.content.toList, Text.isBlank x = true) ∧
    ((FailsAs host options source .emptySource ↔ Tokenless source.content.toList) ↔
      (Tokenless source.content.toList → ';' ∉ source.content.toList) ∧
      ((∀ x ∈ source.content.toList, Text.isBlank x = true) →
        ∀ x ∈ source.content.toList, Word.isGap x = true)) ∧
    (¬ FailsAs host options source .emptySource →
      (FailsAs host options source .tooDeep ↔ Overfull options.maxDepth source.content.toList) ∧
      (¬ Overfull options.maxDepth source.content.toList →
        (FailsAs host options source .malformed ↔ Illegible source.content.toList) ∧
        (¬ Illegible source.content.toList →
          FailsAs host options source .unknownForm ∨ ∃ root, read host options source = .ok root))) := by
  have blank : source.isEmpty = true ↔ ∀ x ∈ source.content.toList, Text.isBlank x = true := by
    simp [Source.isEmpty, Text.allBlank]
  have no_blank : Text.isBlank ';' = false := rfl
  rw [failsAs_emptySource_iff stack, blank]
  refine ⟨Iff.rfl, ⟨fun same => ⟨fun h mem => ?_, fun h => ?_⟩, fun ⟨bare, plain⟩ => ?_⟩,
    fun some_char => ?_⟩
  · exact absurd (same.2 h ';' mem) (by simp [no_blank])
  · exact (same.1 h).isGap fun mem => absurd (h ';' mem) (by simp [no_blank])
  · exact ⟨fun h => tokenless_of_isGap (plain h),
      fun h x hx => isBlank_of_isGap (h.isGap (bare h) x hx)⟩
  · rcases read_cases source stack with ⟨empty, -⟩ | ⟨-, rest⟩
    · exact absurd (blank.1 empty) some_char
    rcases rest with ⟨deep, failed⟩ | ⟨shallow, ⟨illegible, failed⟩ | ⟨legible, outcome⟩⟩
    · exact ⟨iff_of_true failed deep, fun h => absurd deep h⟩
    · refine ⟨iff_of_false (fun h => ?_) shallow,
        fun _ => ⟨iff_of_true failed illegible, fun h => absurd illegible h⟩⟩
      cases h.unique failed
    · refine ⟨iff_of_false (fun h => ?_) shallow,
        fun _ => ⟨iff_of_false (fun h => ?_) legible, fun _ => outcome⟩⟩
      · rcases outcome with failed | ⟨n, ok⟩
        · cases h.unique failed
        · exact h.not_ok ok
      · rcases outcome with failed | ⟨n, ok⟩
        · cases h.unique failed
        · exact h.not_ok ok

/-- Brackets in a comment and in a quoted text, behind a closing one too many. -/
def crowded : Source := ⟨"crowded", none, ")(; (\n\"\\q(\"("⟩

theorem read_fault_classes_crowded :
    (⟨1⟩ : Options).hasStack .generous = true ∧ FailsAs .generous ⟨1⟩ crowded .tooDeep ∧
    (⟨2⟩ : Options).hasStack .generous = true ∧ FailsAs .generous ⟨2⟩ crowded .malformed := by
  have stack : (⟨1⟩ : Options).hasStack .generous = true := by decide
  have stack' : (⟨2⟩ : Options).hasStack .generous = true := by decide
  have some_char : ¬ ∀ x ∈ crowded.content.toList, Text.isBlank x = true :=
    fun h => absurd (h '(' (by decide)) (by decide)
  obtain ⟨empty, -, rest⟩ := read_fault_classes .generous ⟨1⟩ crowded stack
  obtain ⟨empty', -, rest'⟩ := read_fault_classes .generous ⟨2⟩ crowded stack'
  obtain ⟨deep, -⟩ := rest fun h => some_char (empty.1 h)
  obtain ⟨-, malformed⟩ := rest' fun h => some_char (empty'.1 h)
  refine ⟨stack, deep.2 ?_, stack', (malformed fun h => ?_).1.2 ?_⟩
  · have quoted : Enclosed ['\\', 'q', '('] := .escape 'q' (.plain (by decide) (by decide) .nil)
    have line : '\n' ∉ [' ', '('] := by decide
    have passes : Passes 0 ")(; (\n\"\\q(\"".toList 1 :=
      .closing (.opening (.comment line (.quoted quoted .done)))
    exact ⟨_, [], 1, rfl, passes, by decide⟩
  · exact absurd (excess?_isSome_iff.2 h) (by decide)
  · exact (forms_error_iff "crowded" _).1 ⟨_, rfl⟩

/-- A comment without a token is not refused as empty, and a blank that is a token is. -/
theorem empty_source_not_tokenless :
    (Tokenless "; c".toList ∧ FailsAs .generous {} ⟨"t.sx", none, "; c"⟩ .unknownForm ∧
      ¬ FailsAs .generous {} ⟨"t.sx", none, "; c"⟩ .emptySource) ∧
    ¬ Tokenless "\u00a0".toList ∧ FailsAs .generous {} ⟨"t.sx", none, "\u00a0"⟩ .emptySource := by
  have comment : FailsAs .generous {} ⟨"t.sx", none, "; c"⟩ .unknownForm :=
    ⟨⟨.topLevel 0, none, none⟩, rfl, rfl⟩
  refine ⟨⟨?_, comment, fun h => ?_⟩, fun h => ?_, ⟨.emptySource "t.sx", none, none⟩, by rfl, rfl⟩
  · have line : '\n' ∉ [' ', 'c'] := by decide
    exact .comment (s := []) line (by simp) .done
  · cases h.unique comment
  · exact absurd (h.isGap (by decide) _ (.head _)) (by decide)

end Reading

end ControlFlow
