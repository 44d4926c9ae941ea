import ControlFlow.Proofs.Form.Marks
import ControlFlow.Proofs.Lowering.Places
import ControlFlow.Proofs.Reading.Agrees
import ControlFlow.Proofs.Reading.Limit
/-!
# What stands between tokens

Blanks, comments and line breaks, and the name of a source, are seen in the places that nodes and
errors are given, and in nothing else: texts whose tokens stand for the same have the same graph, or
fail in the same way. Only a text of nothing but blanks is refused under its name.
-/

namespace ControlFlow

/-! ## Brackets that are counted -/

namespace Grammar

open Peg

variable {limit : Nat}

/-- A comment is passed up to the end of its line. -/
lemma scan_comment_line {line s : List Char} (inLine : '\n' ∉ line) (stop : Stops (· ≠ '\n') s)
    (d : Nat) (p : Position) : Nesting.scan limit .comment d p (line ++ s) =
      Nesting.scan limit .code d (p.behind line) s := by
  induction line generalizing p with
  | nil =>
    rcases s with _ | ⟨x, s⟩
    · rfl
    · obtain rfl : x = '\n' := by simpa using stop
      rw [List.nil_append, scan_plain rfl, scan_plain (by simp [Nesting.nextDepth])]
      simp [Nesting.Mode.next]
  | cons x line ih =>
    simp only [List.mem_cons, not_or] at inLine
    have mode : Nesting.Mode.comment.next x = .comment := by
      simp [Nesting.Mode.next, Ne.symm inLine.1]
    rw [List.cons_append, scan_plain rfl, mode, ih inLine.2, Position.behind_cons]

/-- The scan passes a text if and only if no bracket among its pieces opens too many lists. -/
lemma Scans.scan_eq_none {s : List Char} {qs : List Piece} (h : Scans s qs) (d : Nat) (p : Position) :
    Nesting.scan limit .code d p s = none ↔ Shallow limit d qs := by
  induction h generalizing d p with
  | done => exact iff_of_true rfl trivial
  | @blank x s qs blank _ ih =>
    have plain : Nesting.nextDepth .code d x = d ∧ Nesting.Mode.code.next x = .code := by
      simp only [Word.isGap, Bool.or_eq_true, decide_eq_true_eq] at blank
      rcases blank with ((rfl | rfl) | rfl) | rfl <;> simp [Nesting.nextDepth, Nesting.Mode.next]
    rw [scan_plain plain.1, plain.2]
    exact ih d _
  | comment inLine stop _ ih =>
    have mode : Nesting.Mode.code.next ';' = .comment := by simp [Nesting.Mode.next]
    rw [scan_plain (by simp [Nesting.nextDepth]), mode, scan_comment_line inLine stop]
    exact ih d _
  | opening _ ih =>
    have deeper : Nesting.nextDepth .code d '(' = d + 1 := by simp [Nesting.nextDepth]
    have mode : Nesting.Mode.code.next '(' = .code := by simp [Nesting.Mode.next]
    rw [Nesting.scan, deeper, mode, Shallow, ← ih (d + 1) (p.advance '(')]
    by_cases fits : d < limit
    · rw [if_neg (by omega)]
      exact (and_iff_right fits).symm
    · rw [if_pos (by omega)]
      simp [fits]
  | closing _ ih =>
    have higher : Nesting.nextDepth .code d ')' = d - 1 := by simp [Nesting.nextDepth]
    have mode : Nesting.Mode.code.next ')' = .code := by simp [Nesting.Mode.next]
    rw [Nesting.scan, higher, mode, Shallow, if_neg (by omega)]
    exact ih (d - 1) _
  | quoted h _ ih =>
    have opens : Nesting.Mode.code.next '"' = .quoted := by simp [Nesting.Mode.next]
    have closes : Nesting.Mode.quoted.next '"' = .code := by simp [Nesting.Mode.next]
    rw [scan_plain (by simp [Nesting.nextDepth]), opens, scan_quoted h, scan_plain rfl, closes]
    exact ih d _
  | run _ word _ _ ih =>
    rw [scan_word word]
    exact ih d _

/-- A token that spells an atom opens no list. -/
lemma shallow_of_spells {q : Piece} {l : Lexeme} {a : Atom} (shows : Shows q l) (spells : l.Spells a)
    (d : Nat) (qs : List Piece) : Shallow limit d (q :: qs) ↔ Shallow limit d qs := by
  cases spells <;> cases shows <;> rfl

/-- Pieces of tokens that stand for the same open the same lists. -/
lemma shallow_of_marks {ts us : List Token} {qs rs : List Piece}
    (marks : ts.map Token.mark = us.map Token.mark)
    (shows : List.Forall₂ (fun t q => Shows q t.lexeme) ts qs)
    (shows' : List.Forall₂ (fun t q => Shows q t.lexeme) us rs) (d : Nat) :
    Shallow limit d qs ↔ Shallow limit d rs := by
  induction shows generalizing us rs d with
  | nil =>
    obtain rfl := List.map_eq_nil_iff.1 marks.symm
    cases shows'
    rfl
  | @cons t q ts qs first _ ih =>
    obtain ⟨u, us, rfl, mark, marks⟩ := List.map_eq_cons_iff.1 marks.symm
    obtain ⟨r, rs, first', rest, rfl⟩ := List.forall₂_cons_left_iff.1 shows'
    rcases Token.cases_of_mark mark.symm with ⟨ht, hu⟩ | ⟨ht, hu⟩ | ⟨a, ht, hu⟩
    · rw [ht] at first
      rw [hu] at first'
      cases first
      cases first'
      exact and_congr_right fun _ => ih marks.symm rest (d + 1)
    · rw [ht] at first
      rw [hu] at first'
      cases first
      cases first'
      exact ih marks.symm rest (d - 1)
    · rw [shallow_of_spells first ht, shallow_of_spells first' hu]
      exact ih marks.symm rest d

/-- The lists of two accepted texts nest too deep in both or in none, if their tokens stand for the
same. -/
lemma excess?_of_marks (limit : Nat) {text text' : String} (accepted : ∃ ps, Accepts text.toList ps)
    (accepted' : ∃ ps, Accepts text'.toList ps) (marks : Tokens.marks text = Tokens.marks text') :
    Nesting.excess? limit text = none ↔ Nesting.excess? limit text' = none := by
  obtain ⟨ps, accepted⟩ := accepted
  obtain ⟨ps', accepted'⟩ := accepted'
  obtain ⟨ts, qs, _, _, tokens, scans, shows, _⟩ := accepted.forms
  obtain ⟨us, rs, _, _, tokens', scans', shows', _⟩ := accepted'.forms
  rw [Tokens.marks, Tokens.marks, tokens, tokens'] at marks
  rw [Nesting.excess?, Nesting.excess?, scans.scan_eq_none, scans'.scan_eq_none]
  exact shallow_of_marks marks shows shows' 0

end Grammar

/-! ## Texts -/

/-- What is told about a failure, without its place. -/
def Diagnostic.unplaced (d : Diagnostic) : Diagnostic := { d with location := none, span := none }

namespace Reading

open Grammar

variable {host : Host} {options : Options} {a b : Source}

/-- Accepted texts that are not blank are read to trees that are alike, or refused for the same fault,
if their tokens stand for the same. -/
lemma read_of_marks (accepted : ∃ ps, Accepts a.content.toList ps)
    (accepted' : ∃ ps, Accepts b.content.toList ps)
    (marks : Tokens.marks a.content = Tokens.marks b.content) (some_char : a.isEmpty = false)
    (some_char' : b.isEmpty = false) :
    (∃ n n', read host options a = .ok n ∧ read host options b = .ok n' ∧ n.Alike n') ∨
      ∃ e e', read host options a = .error e ∧ read host options b = .error e' ∧ e.fault = e'.fault := by
  have deep := excess?_of_marks options.maxDepth accepted accepted' marks
  simp only [read, run, some_char, some_char', Bool.false_eq_true, if_false]
  -- both texts go through the same checks, in the same order
  cases fits : Nesting.excess? options.maxDepth a.content with
  | some p =>
    obtain ⟨p', fits'⟩ : ∃ p', Nesting.excess? options.maxDepth b.content = some p' := by
      rw [← Option.ne_none_iff_exists']
      exact fun none_found => by simp [deep.2 none_found] at fits
    rw [fits']
    exact Or.inr ⟨_, _, rfl, rfl, rfl⟩
  | none =>
    rw [deep.1 fits]
    cases options.refusal? host with
    | some reason => exact Or.inr ⟨_, _, rfl, rfl, rfl⟩
    | none =>
      rcases forms_of_marks a.name b.name accepted accepted' marks with
        ⟨fs, gs, hfs, hgs, trees⟩ | ⟨e, e', failed, failed', fault⟩
      · rw [hfs, hgs]
        exact root_agrees a.name b.name trees
      · rw [failed, failed']
        exact Or.inr ⟨e, e', rfl, rfl, fault⟩

/-- A blank text is refused under its name. -/
lemma buildGraph_of_blank (host : Host) (options : Options) {source : Source}
    (blank : source.isEmpty = true) :
    buildGraph host options source = .error ⟨.read .emptySource,
      source.name ++ " contains no forms", "flowgraph.ast.sexp.read_source", none, none⟩ := by
  have refused : read host options source = .error ⟨.emptySource source.name, none, none⟩ := by
    rw [read, run, if_pos blank]
  rw [buildGraph_of_error refused]
  rfl

/-- **What stands between the tokens of a text does not matter.** Two accepted texts whose tokens are
the same brackets, texts, numbers and symbols have the same graph, or fail in the same stage, for the
same reason and with the same message, whatever they are called and whatever the limit is, if neither
is blank. Texts that are both blank fail in the same way, each with a message of its own name. -/
theorem tokens_decide_build (host : Host) (options : Options) (a b : Source)
    (accepted : ∃ ps, Accepts a.content.toList ps) (accepted' : ∃ ps, Accepts b.content.toList ps)
    (marks : Tokens.marks a.content = Tokens.marks b.content) :
    (a.isEmpty = false → b.isEmpty = false →
      (buildGraph host options a).mapError Diagnostic.unplaced =
        (buildGraph host options b).mapError Diagnostic.unplaced) ∧
    (a.isEmpty = true → b.isEmpty = true → ∀ s ∈ [a, b],
      buildGraph host options s = .error ⟨.read .emptySource, s.name ++ " contains no forms",
        "flowgraph.ast.sexp.read_source", none, none⟩) := by
  constructor
  · intro some_char some_char'
    rcases read_of_marks accepted accepted' marks some_char some_char' with
      ⟨n, n', hn, hn', alike⟩ | ⟨e, e', failed, failed', fault⟩
    · rw [buildGraph_of_ok hn, buildGraph_of_ok hn']
      rcases Lowering.build_alike host builtinTypes options alike with
        ⟨g, built, built'⟩ | ⟨e, e', failed, failed', fault⟩
      · rw [built, built']
      · rw [failed, failed']
        simp only [Except.mapError, LowerError.diagnostic, Diagnostic.unplaced, fault]
    · rw [buildGraph_of_error failed, buildGraph_of_error failed']
      simp only [Except.mapError, ReadError.diagnostic, Diagnostic.unplaced, fault]
  · intro blank blank' s mem
    rcases List.mem_pair.1 mem with rfl | rfl
    · exact buildGraph_of_blank host options blank
    · exact buildGraph_of_blank host options blank'

/-- A call on one line. -/
def oneLine : Source := ⟨"line", none, "(call (lvar x) f 1 \"a\\n\")"⟩

/-- The same call on several lines, with comments, another spelling of the number and an open line break
in the text. -/
def spread : Source :=
  ⟨"spread", none, "; a call (\r\n(call\n  (lvar x) f ; (\n\t01 \"a\n\"\n)\n"⟩

theorem tokens_decide_build_spread : ∃ g,
    buildGraph .generous {} oneLine = .ok g ∧ buildGraph .generous {} spread = .ok g := by
  obtain ⟨fs, forms⟩ := exists_ok (e := Form.ofTokens (Tokens.ofText oneLine.content))
    (by decide +kernel)
  obtain ⟨gs, forms'⟩ := exists_ok (e := Form.ofTokens (Tokens.ofText spread.content))
    (by decide +kernel)
  obtain ⟨g, built⟩ := exists_ok (e := buildGraph .generous {} oneLine) (by decide +kernel)
  have same := (tokens_decide_build .generous {} oneLine spread (accepts_of_ofTokens forms)
    (accepts_of_ofTokens forms') (by decide +kernel)).1 (by decide +kernel) (by decide +kernel)
  rw [built] at same
  refine ⟨g, built, ?_⟩
  cases built' : buildGraph .generous {} spread with
  | ok g' =>
    rw [built'] at same
    cases same
    rfl
  | error d =>
    rw [built'] at same
    cases same

/-- Blank texts fail with a message that depends on their name, and a text of comments alone fails for
another reason than a blank one, although none of them has a token. -/
theorem blank_build_names_source : ∃ a b c : Source, a.content = b.content ∧ a.name = c.name ∧
    (∀ s ∈ [a, b, c], (∃ ps, Accepts s.content.toList ps) ∧ Tokens.marks s.content = []) ∧
    (buildGraph .generous {} a).mapError Diagnostic.unplaced ≠
      (buildGraph .generous {} b).mapError Diagnostic.unplaced ∧
    (buildGraph .generous {} a).mapError Diagnostic.unplaced ≠
      (buildGraph .generous {} c).mapError Diagnostic.unplaced := by
  have empty : Form.ofTokens (Tokens.ofText "") = .ok [] := rfl
  have comment : Form.ofTokens (Tokens.ofText "; c") = .ok [] := rfl
  have refused : read .generous {} ⟨"t.sx", none, "; c"⟩ = .error ⟨.topLevel 0, none, none⟩ := by rfl
  refine ⟨⟨"t.sx", none, ""⟩, ⟨"b.sx", none, ""⟩, ⟨"t.sx", none, "; c"⟩, rfl, rfl, ?_, ?_, ?_⟩
  · simp only [List.forall_mem_cons]
    exact ⟨⟨accepts_of_ofTokens empty, rfl⟩, ⟨accepts_of_ofTokens empty, rfl⟩,
      ⟨accepts_of_ofTokens comment, rfl⟩, by simp⟩
  · rw [buildGraph_of_blank .generous {} rfl, buildGraph_of_blank .generous {} rfl]
    simp [Except.mapError, Diagnostic.unplaced]
  · rw [buildGraph_of_blank .generous {} rfl, buildGraph_of_error refused]
    simp [Except.mapError, Diagnostic.unplaced, ReadError.diagnostic, ReadFault.kind]

end Reading

end ControlFlow
