import ControlFlow.Pipeline
import ControlFlow.Proofs.Form.Depth
import ControlFlow.Proofs.Lowering.Limit
import ControlFlow.Proofs.Reading.Tags
/-!
# One limit for lists and for trees

The same number limits how deep the lists of a text and the nodes of its tree may nest. A higher
limit accepts what a lower one accepts and builds the same from it. The two measures are close: a
tree that was read has at most three levels more than the lists of its text.
-/

namespace ControlFlow

/-! ## A higher limit -/

variable {root : Node} {source : Source} {types : String → Option Binding} {d : Nat}

/-- No bracket opens too many lists, if none does under a lower limit. -/
lemma Nesting.scan_of_le {limit limit' : Nat} (le : limit ≤ limit') {mode : Mode} {p : Position}
    {s : List Char} (h : scan limit mode d p s = none) : scan limit' mode d p s = none := by
  induction s generalizing mode d p with
  | nil => rfl
  | cons x s ih =>
    rw [scan] at h ⊢
    split at h
    · cases h
    · rename_i shallow
      rw [if_neg fun deep => shallow ⟨deep.1, by omega⟩]
      exact ih h

variable {host : Host} {options options' : Options}

/-- Under a higher limit the same is read, unless the lower one is exceeded or has no stack. -/
lemma Reading.read_agrees (stack : options'.hasStack host = true)
    (le : options.maxDepth ≤ options'.maxDepth) (source : Source) :
    (∃ e, read host options source = .error e ∧ e.fault.kind = .tooDeep) ∨
      read host options source = read host options' source := by
  rw [read, read, run, run]
  by_cases empty : source.isEmpty = true
  · rw [if_pos empty, if_pos empty]
    exact Or.inr rfl
  rw [if_neg empty, if_neg empty]
  cases deep : Nesting.excess? options.maxDepth source.content with
  | some p => exact Or.inl ⟨_, rfl, rfl⟩
  | none =>
    have deep' : Nesting.excess? options'.maxDepth source.content = none :=
      Nesting.scan_of_le le deep
    simp only [deep', Option.isNone_iff_eq_none.1 stack]
    cases options.refusal? host with
    | some reason => exact Or.inl ⟨_, rfl, rfl⟩
    | none => cases forms source.name source.content <;> exact Or.inr rfl

lemma buildGraph_of_error {e : ReadError} (h : Reading.read host options source = .error e) :
    buildGraph host options source = .error e.diagnostic := by
  rw [Reading.read] at h
  rw [buildGraph, buildWithJournal]
  split
  · rename_i e' _ same
    rw [same] at h
    cases h
    rfl
  · rename_i same
    rw [same] at h
    cases h

lemma buildGraph_of_ok (h : Reading.read host options source = .ok root) :
    buildGraph host options source =
      (Lowering.build host builtinTypes options root).mapError LowerError.diagnostic := by
  rw [Reading.read] at h
  rw [buildGraph, buildWithJournal, Lowering.build]
  split
  · rename_i same
    rw [same] at h
    cases h
  · rename_i same
    rw [same] at h
    cases h
    split
    all_goals
      rename_i built
      rw [built]
      rfl

lemma Lowering.build_without_stack (stack : options.hasStack host = false) :
    ∃ e, build host types options root = .error e ∧ e.fault.kind = .depthLimitExceeded := by
  obtain ⟨reason, refused⟩ := options.exists_refusal (Bool.eq_false_iff.1 stack)
  refine ⟨.atNode root.info (.noStack options reason), ?_, rfl⟩
  rw [build, run, refused]

/-- Under a higher limit a text has the same graph, unless the lower one is exceeded or has no
stack. -/
lemma buildGraph_agrees (stack : options'.hasStack host = true)
    (le : options.maxDepth ≤ options'.maxDepth) (source : Source) :
    (∃ d, buildGraph host options source = .error d ∧
        d.category.lowerClass? = some .depthLimitExceeded) ∨
      buildGraph host options source = buildGraph host options' source := by
  rcases Reading.read_agrees stack le source with ⟨e, failed, deep⟩ | same
  · refine Or.inl ⟨_, buildGraph_of_error failed, ?_⟩
    rw [ReadError.diagnostic, deep]
    rfl
  · cases result : Reading.read host options source with
    | error e =>
      rw [buildGraph_of_error result, buildGraph_of_error (same.symm.trans result)]
      exact Or.inr rfl
    | ok root =>
      rw [buildGraph_of_ok result, buildGraph_of_ok (same.symm.trans result)]
      have agree : (∃ e, Lowering.build host builtinTypes options root = .error e ∧
          e.fault.kind = .depthLimitExceeded) ∨ Lowering.build host builtinTypes options root =
            Lowering.build host builtinTypes options' root := by
        cases lower : options.hasStack host with
        | false => exact Or.inl (Lowering.build_without_stack lower)
        | true =>
          refine (Lowering.build_agrees lower stack le root).imp_left ?_
          rintro ⟨e, failed, deep⟩
          exact ⟨e, failed, congrArg LowerFault.kind deep⟩
      rcases agree with ⟨e, failed, deep⟩ | same
      · left
        refine ⟨e.diagnostic, by rw [failed]; rfl, ?_⟩
        rw [LowerError.diagnostic, deep]
        rfl
      · rw [same]
        exact Or.inr rfl

/-- A tree that is built is not too deep. -/
lemma Lowering.depth_of_build {g : Graph} (built : build host types options root = .ok g) :
    root.depth ≤ options.maxDepth := by
  obtain ⟨-, walked⟩ := exists_build_iff.1 ⟨g, built⟩
  have runs : root.Runs ⟨types, options.maxDepth⟩ .value 0 rootTargets.kinds :=
    ((wholeTree_accepts ⟨types, options.maxDepth⟩ root).iff (b := start options root)).1 walked
  obtain ⟨-, level, fine⟩ := runs
  have levels := ((Node.fine_iff root level).1 fine).2.2.2
  rw [Node.depth]
  simp only at levels
  omega

/-- **The limit is an exact threshold and decides nothing else.** Below the number of levels of a
tree nothing is built. From there on the outcome is always the same, and it is not that the tree is
too deep. What a text is built to stays the same under a higher limit, and so does all that is wrong
with it, except for being too deep. -/
theorem limit_is_threshold (host : Host) (types : String → Option Binding) (root : Node)
    (source : Source) (options options' : Options) :
    (options.maxDepth < root.depth → ∃ e, Lowering.build host types options root = .error e) ∧
    (options.hasStack host = true → options'.hasStack host = true →
      root.depth ≤ options.maxDepth → root.depth ≤ options'.maxDepth →
      Lowering.build host types options root = Lowering.build host types options' root ∧
      ∀ e, Lowering.build host types options root = .error e →
        e.fault.kind ≠ .depthLimitExceeded) ∧
    (options'.hasStack host = true → options.maxDepth ≤ options'.maxDepth →
      (∀ g, buildGraph host options source = .ok g → buildGraph host options' source = .ok g) ∧
      ∀ d, buildGraph host options source = .error d →
        d.category.lowerClass? ≠ some .depthLimitExceeded →
          buildGraph host options' source = .error d) := by
  refine ⟨fun deep => ?_, fun stack stack' fits fits' => ⟨?_, fun e h => ?_⟩, fun stack' le => ?_⟩
  · cases built : Lowering.build host types options root with
    | error e => exact ⟨e, rfl⟩
    | ok g =>
      have := Lowering.depth_of_build built
      omega
  · -- of two limits one is the lower, and it is not exceeded
    have agree {o o' : Options} (stack : o.hasStack host = true) (stack' : o'.hasStack host = true)
        (fits : root.depth ≤ o.maxDepth) (le : o.maxDepth ≤ o'.maxDepth) :
        Lowering.build host types o root = Lowering.build host types o' root := by
      rcases Lowering.build_agrees stack stack' le root with ⟨e, failed, deep⟩ | same
      · have deep_kind : e.fault.kind = .depthLimitExceeded := by rw [deep]; rfl
        exact absurd deep_kind (Lowering.kind_of_build stack fits failed)
      · exact same
    rcases Nat.le_total options.maxDepth options'.maxDepth with le | le
    · exact agree stack stack' fits le
    · exact (agree stack' stack fits' le).symm
  · exact Lowering.kind_of_build stack fits h
  · rcases buildGraph_agrees stack' le source with ⟨d, failed, deep⟩ | same
    · rw [failed]
      refine ⟨fun g built => ?_, fun d' h other => ?_⟩
      · cases built
      · cases h
        exact absurd deep other
    · rw [same]
      exact ⟨fun g built => built, fun d h _ => h⟩

lemma Node.levels_mk (info : Info) (kind : Kind Node) : (Node.mk info kind).levels =
    (kind.fields.map fun (role, c) =>
      if c.isWrapper role then c.levels else c.levels + 1).foldr max 0 := by
  rw [Node.levels]
  exact congrArg (List.foldr max 0) (List.attach_map_val (l := kind.fields)
    (f := fun (role, c) => if c.isWrapper role then c.levels else c.levels + 1))

/-- Brackets inside of brackets, around nothing else. -/
def nestedParens : Node := .mk {} (.paren [.mk {} (.paren [.mk {} (.literal .nil)])])

theorem limit_is_threshold_nestedParens : nestedParens.depth = 3 ∧
    (∃ e, Lowering.build .generous builtinTypes ⟨2⟩ nestedParens = .error e) ∧
    Lowering.build .generous builtinTypes ⟨3⟩ nestedParens =
      Lowering.build .generous builtinTypes ⟨4⟩ nestedParens ∧
    ∃ g, buildGraph .generous ⟨4⟩ ⟨"parens", none, "(paren (paren nil))"⟩ = .ok g ∧
      buildGraph .generous ⟨5⟩ ⟨"parens", none, "(paren (paren nil))"⟩ = .ok g := by
  have depth : nestedParens.depth = 3 := by
    simp [nestedParens, Node.depth, Node.levels_mk, Kind.fields, Kind.inRole, Node.isWrapper,
      Node.isSplat]
  obtain ⟨g, built⟩ := Grammar.exists_ok
    (e := buildGraph .generous ⟨4⟩ ⟨"parens", none, "(paren (paren nil))"⟩) (by decide +kernel)
  obtain ⟨deep, -, -⟩ := limit_is_threshold .generous builtinTypes nestedParens default ⟨2⟩ ⟨3⟩
  obtain ⟨-, same, -⟩ := limit_is_threshold .generous builtinTypes nestedParens default ⟨3⟩ ⟨4⟩
  obtain ⟨-, -, higher⟩ := limit_is_threshold .generous builtinTypes nestedParens
    ⟨"parens", none, "(paren (paren nil))"⟩ ⟨4⟩ ⟨5⟩
  rw [depth] at deep same
  refine ⟨depth, deep (by decide), ?_, g, built, ?_⟩
  · exact (same (by decide) (by decide) (by decide) (by decide)).1
  · exact (higher (by decide) (by decide)).1 g built

/-! ## Lists and levels -/

/-- The lists of a form nest at most `n` deep. -/
inductive Form.Within : Nat → Form → Prop where
  | atom {n : Nat} {e : Extent} {a : Atom} : Within n (.atom e a)
  | list {n : Nat} {e : Extent} {items : List Form} (each : ∀ f ∈ items, Within n f) :
      Within (n + 1) (.list e items)

/-- No bracket of these pieces opens more than `n` lists, if `d` lists are open before them. -/
def Grammar.Shallow (n : Nat) : Nat → List Piece → Prop
  | _, [] => True
  | d, .opening :: qs => d < n ∧ Shallow n (d + 1) qs
  | d, .closing :: qs => Shallow n (d - 1) qs
  | d, .quoted _ :: qs | d, .run _ :: qs => Shallow n d qs

namespace Grammar

variable {n : Nat} {rest qs : List Piece} {fs : List Form}

lemma Brackets.shallow {text : List Char} {ps : List (Peg.Pair Rule)} (h : Brackets text ps qs)
    (fits : ∀ l ∈ listsAll d ps, l.depth ≤ n) (behind : Shallow n d rest) :
    Shallow n d (qs ++ rest) := by
  induction h generalizing d rest with
  | nil => exact behind
  | @list i j inner ps rs qs _ _ ih_inner ih =>
    rw [listsAll, lists_list, List.cons_append, List.forall_mem_cons,
      List.forall_mem_append] at fits
    obtain ⟨here, inside, after⟩ := fits
    rw [List.cons_append, List.append_assoc]
    exact ⟨here, ih_inner inside (ih after behind)⟩
  | @string i j inner ps qs _ ih =>
    rw [listsAll, List.forall_mem_append] at fits
    exact ih fits.2 behind
  | @word i j rule ps qs hr _ ih =>
    rw [listsAll, lists_word hr, List.nil_append] at fits
    exact ih fits behind

/-- Forms nest as deep as the brackets that they are the structure of. -/
lemma Outlines.within (h : Outlines fs qs) (shallow : Shallow n d (qs ++ rest)) :
    (∀ f ∈ fs, f.Within (n - d)) ∧ Shallow n d rest := by
  induction h generalizing d rest with
  | nil => exact ⟨by simp, shallow⟩
  | @list e inner fs rs qs _ _ ih_inner ih =>
    rw [List.cons_append, List.append_assoc] at shallow
    obtain ⟨opened, shallow⟩ := shallow
    obtain ⟨inside, closed⟩ := ih_inner shallow
    obtain ⟨after, shallow⟩ := ih (d := d) closed
    refine ⟨List.forall_mem_cons.2 ⟨?_, after⟩, shallow⟩
    have deeper : n - d = n - (d + 1) + 1 := by omega
    rw [deeper]
    exact .list inside
  | @atom e a q fs qs denotes _ ih =>
    have same : Shallow n d (qs ++ rest) := by
      cases denotes <;> exact shallow
    obtain ⟨after, shallow⟩ := ih same
    exact ⟨List.forall_mem_cons.2 ⟨.atom, after⟩, shallow⟩

/-- The forms of a text nest no deeper than the brackets that the scan counts. -/
lemma within_of_forms {file text : String} (h : Reading.forms file text = .ok fs)
    (shallow : Nesting.excess? n text = none) : ∀ f ∈ fs, f.Within n := by
  have assembled := ofTokens_of_forms h
  obtain ⟨ps, accepts⟩ := accepts_of_ofTokens assembled
  obtain ⟨ts, qs, gs, f, -, -, -, assembled', outlines, brackets, -⟩ := accepts.forms
  rw [assembled] at assembled'
  cases assembled'
  rw [accepts.excess?_eq, Option.map_eq_none_iff, List.find?_eq_none] at shallow
  have fits : ∀ l ∈ listsAll 0 ps, l.depth ≤ n := fun l hl => by simpa using shallow l hl
  have all : Shallow n 0 (qs ++ []) := brackets.shallow fits trivial
  exact (outlines.within all).1

end Grammar

namespace Form

variable {n : Nat} {f g : Form}

lemma Within.succ (h : f.Within n) : f.Within (n + 1) := by
  induction h with
  | atom => exact .atom
  | list _ ih => exact .list ih

/-- What lies in a form nests less deep. -/
lemma Within.inside (h : f.Within n) (holds : f.Holds g) : ∃ k, n = k + 1 ∧ g.Within k := by
  induction holds generalizing n with
  | item mem =>
    cases h with
    | atom => cases mem
    | list each => exact ⟨_, rfl, each _ mem⟩
  | inner mem _ ih =>
    cases h with
    | atom => cases mem
    | @list k _ _ each =>
      obtain ⟨j, rfl, within⟩ := ih (each _ mem)
      exact ⟨j + 1, rfl, within.succ⟩

end Form

/-- The content of a quoted text has nothing below it. -/
lemma Reads.levels_content {s : Setting} {f : Form} {n : Node} {t : String}
    (h : Reads s .part f n) (text : f.text? = some t) : n.levels = 0 := by
  obtain ⟨info, kind⟩ := n
  obtain ⟨said, b, means, -, rel⟩ := h.view
  cases means with
  | content =>
    cases rel
    rw [Node.levels_mk]
    rfl
  | part no_text =>
    rw [text] at no_text
    cases no_text

/-- A node has at most one level more than the lists of its form. -/
lemma Reads.levels_le {s : Setting} {slot : Slot} {f : Form} {n : Node} {k : Nat}
    (h : Reads s slot f n) (within : f.Within k) : n.levels ≤ k + 1 := by
  induction n using Node.induction_below generalizing slot f k with
  | step n ih =>
    obtain ⟨info, kind⟩ := n
    rw [Node.levels_le]
    intro role c mem
    have below : (Node.mk info kind).Holds c := .child (Kind.mem_children.2 ⟨role, mem⟩)
    obtain ⟨said, b, g, means, -, hg, read⟩ := h.child mem
    have child : g ∈ said.children := Kind.mem_children.2 ⟨role, hg⟩
    have levels : c.levels ≤ k := by
      cases text : f.text? with
      | none =>
        obtain ⟨j, rfl, inside⟩ := within.inside (means.holds text child)
        exact ih c below read inside
      | some t =>
        rcases means.of_text text with rfl | rfl
        · simp only [Kind.fields, Kind.mem_inRole, List.mem_singleton] at hg
          obtain ⟨rfl, rfl⟩ := hg
          rw [read.levels_content text]
          exact Nat.zero_le k
        · cases child
    split <;> omega

namespace Reading

/-- A tree has at most three levels more than the lists of its text. -/
lemma depth_of_read {n : Nat} (accepted : read host options source = .ok root)
    (shallow : Nesting.excess? n source.content = none) : root.depth ≤ n + 3 := by
  obtain ⟨f, s, ns, read_forms, -, rootKind, -, -, statements, -⟩ := read_nodes accepted
  have within : f.Within n := Grammar.within_of_forms read_forms shallow f (.head _)
  obtain ⟨info, kind⟩ := root
  subst rootKind
  have levels : (Node.mk info (.program ns)).levels ≤ n + 2 := by
    rw [Node.levels_le]
    intro role c mem
    obtain ⟨-, hc⟩ := Kind.mem_inRole.1 mem
    obtain ⟨g, inside, read⟩ := statements c hc
    have below : c.levels ≤ n + 1 := by
      rcases inside with rfl | holds
      · exact read.levels_le within
      · obtain ⟨k, rfl, inner⟩ := within.inside holds
        have := read.levels_le inner
        omega
    split <;> omega
  rw [Node.depth]
  omega

/-- **The lists of a text and the levels of its tree differ by at most three.** If no list of an
accepted text lies in more than `n - 1` others and the limit is at least `n + 3`, then the tree is
refused for its depth only where the host has no stack for that limit, and there always. -/
theorem levels_follow_lists (host host' : Host) (types : String → Option Binding)
    (options options' : Options) (source : Source) (root : Node) (n : Nat)
    (accepted : read host options source = .ok root)
    (shallow : Nesting.excess? n source.content = none) (enough : n + 3 ≤ options'.maxDepth) :
    root.depth ≤ n + 3 ∧
      ((∃ e, Lowering.build host' types options' root = .error e ∧
        e.fault.kind = .depthLimitExceeded) ↔ options'.hasStack host' = false) := by
  have depth := depth_of_read accepted shallow
  refine ⟨depth, ?_⟩
  constructor
  · rintro ⟨e, failed, deep⟩
    by_contra stack
    rw [Bool.not_eq_false] at stack
    exact Lowering.kind_of_build stack (depth.trans enough) failed deep
  · exact fun stack => Lowering.build_without_stack stack

/-- A text without lists: a quoted text, whose tree has three levels. -/
def quotedText : Source := ⟨"quoted", none, "\"a\""⟩

theorem levels_follow_lists_quotedText : ∃ root,
    read .generous {} quotedText = .ok root ∧ root.depth = 3 ∧
    Nesting.excess? 0 quotedText.content = none ∧
    ∀ types e, Lowering.build .generous types ⟨3⟩ root = .error e →
      e.fault.kind ≠ .depthLimitExceeded := by
  have shallow : Nesting.excess? 0 quotedText.content = none := by decide +kernel
  have read_forms : forms quotedText.name quotedText.content =
      .ok [.atom ⟨⟨1, 1⟩, ⟨1, 4⟩⟩ (.text "a")] := by rfl
  have read_root : read .generous {} quotedText = _ :=
    read_of_forms (by decide +kernel) (by decide +kernel) (by decide +kernel) read_forms
  obtain ⟨info, info', info'', hroot⟩ : ∃ info info' info'', read .generous {} quotedText =
      .ok (.mk info (.program [.mk info' (.str [.mk info'' (.content "a")])])) :=
    ⟨_, _, _, read_root⟩
  refine ⟨_, hroot, ?_, shallow, fun types e failed deep => ?_⟩
  · simp [Node.depth, Node.levels_mk, Kind.fields, Kind.inRole, Node.isWrapper, Node.isSplat]
  · have stack := (levels_follow_lists .generous .generous types {} ⟨3⟩ _ _ 0 hroot shallow
      (by decide)).2.1 ⟨e, failed, deep⟩
    cases stack

/-- A host with an address space of 47 bits. -/
def smallHost : Host := .below (Nat.pow 2 47) "Resource temporarily unavailable (os error 11)"

/-- There a stack for so many levels cannot be reserved, whatever there is to be lowered. -/
theorem depth_without_stack : ∃ root, read smallHost {} quotedText = .ok root ∧
    Nesting.excess? 0 quotedText.content = none ∧ 0 + 3 ≤ (⟨68719476736⟩ : Options).maxDepth ∧
    ∃ e, Lowering.build smallHost builtinTypes ⟨68719476736⟩ root = .error e ∧
      e.fault.kind = .depthLimitExceeded := by
  obtain ⟨root, accepted⟩ := Grammar.exists_ok (e := read smallHost {} quotedText)
    (by decide +kernel)
  have stack : (⟨68719476736⟩ : Options).hasStack smallHost = false := by decide +kernel
  exact ⟨root, accepted, by decide +kernel, by decide, Lowering.build_without_stack stack⟩

end Reading

end ControlFlow
