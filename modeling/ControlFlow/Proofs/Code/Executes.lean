import Mathlib.Logic.Relation
import ControlFlow.Proofs.Code.Whole
import ControlFlow.Proofs.Lowering.Spends
/-!
# Executing code that is laid out

Laying out code fills some points of a graph. The code is executed by a run from the first of these
points to the one behind them that does not leave them in between. Nothing is said here about the
form of the code: it may hold loops, block literals and jumps.

Code that was laid out in two parts is executed part by part (`executes_trans`), and so is code that
takes one of two ways (`executes_twoWays`). Both rest on `Laid.leads`: from the points of the code a
step leads to one of them, behind them, or to the target of a jump.
-/

namespace ControlFlow

variable {σ : Type} {b b' b₁ b₂ b₃ : Builder} {g : Graph} {M : Machine σ} {p q x y : Point}
  {s s' s₁ : σ} {T : JumpTargets} {n : BlockName}

lemma Point.next_ne (p : Point) : p.next ≠ p := fun h => Nat.succ_ne_self _ (congrArg Point.index h)

/-! ## Executions -/

/-- The points that are filled from one builder to another that grew from it. -/
def Builder.filled (b b' : Builder) : Set Point :=
  {p | (b.graph.code p.block).length ≤ p.index ∧ p.index < (b'.graph.code p.block).length}

namespace Graph

/-- A step that starts at one of some points and does not lead to the point `x`. -/
def Onward (g : Graph) (M : Machine σ) (R : Set Point) (x : Point) (C C' : Point × σ) : Prop :=
  C.1 ∈ R ∧ g.Step M C C' ∧ C'.1 ≠ x

/-- The code that was laid out from one builder to another is executed once: a run leads from its
first point to the one behind it, through no other points than those of the code. The run does not
come back to the first point; a jump that leads there, such as `redo` at the start of a loop, begins
another execution. -/
def Executes (g : Graph) (M : Machine σ) (b b' : Builder) (s s' : σ) : Prop :=
  ∃ x y, b.point = some x ∧ b'.point = some y ∧
    Relation.ReflTransGen (g.Onward M (b.filled b') x) (x, s) (y, s')

end Graph

namespace Builder

variable {W S : Set BlockName}

lemma point_eq_some :
    b.point = some p ↔ b.At p.block ∧ p.index = (b.graph.code p.block).length := by
  rcases p with ⟨n, k⟩
  simp only [point, Option.map_eq_some_iff, Point.mk.injEq]
  constructor
  · rintro ⟨m, current, rfl, rfl⟩
    exact ⟨current, rfl⟩
  · rintro ⟨current, rfl⟩
    exact ⟨n, current, rfl, rfl⟩

lemma not_mem_filled_of_point (h : b'.point = some y) : y ∉ b.filled b' := by
  rintro ⟨-, lt⟩
  have := (point_eq_some.1 h).2
  omega

lemma filled_subset {b₀ : Builder} (before : b₀.Within b.graph) (behind : b₁.Within b'.graph) :
    b.filled b₁ ⊆ b₀.filled b' :=
  fun p hp => ⟨(before p.block).length_le.trans hp.1, hp.2.trans_le (behind p.block).length_le⟩

lemma Within.trans (h : b.Within b'.graph) (h' : b'.Within g) : b.Within g :=
  fun n => (h n).trans (h' n)

lemma grown_refl : b.Within b.graph := fun _ => List.prefix_rfl

lemma grown_emit (b : Builder) (i : Instruction) : b.Within (b.emit i).graph := grown_refl.emit

lemma grown_startBlock (b : Builder) (n : BlockName) : b.Within (b.startBlock n).graph :=
  grown_refl.startBlock

/-- What a graph that grew from a builder holds at a point that the builder has filled. -/
lemma Within.instruction? (h : b.Within g) (lt : p.index < (b.graph.code p.block).length) :
    g.instruction? p = (b.graph.code p.block)[p.index]? := by
  obtain ⟨rest, code⟩ := h p.block
  rw [Graph.instruction?, ← code, List.getElem?_append_left lt]

lemma adds_of_mem_filled (h : b'.Within g) (hp : p ∈ b.filled b') {i : Instruction}
    (hi : g.instruction? p = some i) : Adds b b' i := by
  rw [h.instruction? hp.2] at hi
  refine ⟨p.block, List.mem_of_getElem? (i := p.index - (b.graph.code p.block).length) ?_⟩
  rw [List.getElem?_drop, Nat.add_sub_of_le hp.1]
  exact hi

/-- A block that was known before is entered at its start only if it was current and empty. -/
lemma Extends.point_of_start (h : Extends {n | b.At n} S b b') (known : b.Knows n)
    (start : .start n ∈ b.filled b' ∨ b'.point = some (.start n)) :
    b.point = some (.start n) := by
  have old : n ∈ {n | b.At n} ∪ b.since b' → b.At n := fun h =>
    h.resolve_right fun new => new.2 known
  rw [point_eq_some]
  rcases start with ⟨le, lt⟩ | here
  · refine ⟨by_contra fun other => ?_, (Nat.le_zero.1 le).symm⟩
    rw [Point.start, h.code n fun mem => other (old mem)] at lt
    exact absurd lt (Nat.not_lt.2 le)
  · obtain ⟨current, index⟩ := point_eq_some.1 here
    refine ⟨old (h.current n current), ?_⟩
    have := (h.grows n).length_le
    simp only [Point.start] at index ⊢
    omega

end Builder

/-! ## Runs through points -/

namespace Graph

open Builder Relation

variable {C E : Point × σ} {R R' : Set Point} (h : ReflTransGen (g.Onward M R x) C E)

include h

/-- Every point that a run goes through is one of those that it may start from, or its last one. -/
lemma Onward.avoids {x' : Point} (hR : R ⊆ R') (inside : x' ∉ R) (last : E.1 ≠ x') :
    ReflTransGen (g.Onward M R' x') C E := by
  induction h using ReflTransGen.head_induction_on with
  | refl => exact .refl
  | head first rest ih =>
    refine .head ⟨hR first.1, first.2.1, ?_⟩ ih
    rintro rfl
    rcases ReflTransGen.cases_head rest with rfl | ⟨D, next, -⟩
    · exact last rfl
    · exact inside next.1

lemma Onward.mono (hR : R ⊆ R') : ReflTransGen (g.Onward M R' x) C E := by
  have le : g.Onward M R x ≤ g.Onward M R' x := fun _ _ step => ⟨hR step.1, step.2⟩
  exact ReflTransGen.mono le _ _ h

/-- A run that starts at another point than it ends at has a first step. -/
lemma Onward.head (ne : C.1 ≠ E.1) :
    ∃ D, C.1 ∈ R ∧ g.Step M C D ∧ D.1 ≠ x ∧ ReflTransGen (g.Onward M R x) D E := by
  rcases ReflTransGen.cases_head h with rfl | ⟨D, ⟨mem, step, away⟩, rest⟩
  · exact absurd rfl ne
  · exact ⟨D, mem, step, away, rest⟩

/-- A run ends where no step starts. -/
lemma Onward.eq_of_not_mem (out : C.1 ∉ R) : E = C := by
  rcases ReflTransGen.cases_head h with rfl | ⟨D, step, -⟩
  · rfl
  · exact absurd step.1 out

omit h

/-- What all instructions of some code keep is kept by executing it. -/
lemma Executes.keeps (h : g.Executes M b b' s s') (hg : b'.Within g) (P : σ → Prop)
    (acts : ∀ i, Adds b b' i → i.isTerminator = false → ∀ s, P s → P (M.act i s)) (hs : P s) :
    P s' := by
  obtain ⟨x, y, -, -, run⟩ := h
  have inside : ∀ C, ReflTransGen (g.Onward M (b.filled b') x) (x, s) C → P C.2 := by
    intro C run
    induction run with
    | refl => exact hs
    | tail _ step ih =>
      obtain ⟨mem, step, -⟩ := step
      cases step with
      | act h plain => exact acts _ (adds_of_mem_filled hg mem h) plain _ ih
      | jump h => exact ih
      | branch h takes => exact ih
  exact inside _ run

/-- Code that fills nothing is executed by doing nothing. -/
lemma executes_quiet (graph : b'.graph = b.graph) (current : b'.current = b.current) :
    g.Executes M b b' s s' ↔ b.point.isSome ∧ s' = s := by
  have point : b'.point = b.point := by simp [point, graph, current]
  have empty : ∀ p, p ∉ b.filled b' := by
    rintro p ⟨le, lt⟩
    rw [graph] at lt
    omega
  constructor
  · rintro ⟨x, y, hx, hy, run⟩
    have same := Onward.eq_of_not_mem run (empty _)
    exact ⟨by simp [hx], congrArg Prod.snd same⟩
  · rintro ⟨some, rfl⟩
    obtain ⟨x, hx⟩ := Option.isSome_iff_exists.1 some
    exact ⟨x, x, hx, point.trans hx, .refl⟩

end Graph

/-! ## Builders that code is laid out behind -/

/-- Some code has been laid out from one builder to another, with the targets `T` for jumps. -/
def Builder.Laid (T : JumpTargets) (b b' : Builder) : Prop := ∃ c : Code, ∀ l, c.Lays l T b b'

/-- The builder is one of a valid layout: the blocks in `K` may be led to, and those in `P` are
still to be filled. -/
def Builder.Stands (K P : Set BlockName) (b : Builder) : Prop :=
  ∃ G : Layout, G.Valid ∧ G.builder = b ∧ G.now = Set.univ ∧ K ⊆ G.scope ∧
    ∀ n ∈ P, n ∈ G.pending ∧ G.label n = Set.univ ∧ b.graph.code n = []

/-- Code with the targets `T` for jumps can be laid out behind the builder. -/
abbrev Builder.Sited (T : JumpTargets) (b : Builder) : Prop := Stands (Code.around .exit T) ∅ b

/-- The blocks of the builder are in order: the current one is open, the others are open or ended,
and edges join blocks. The targets `T` for jumps are names that were given out. -/
structure Builder.Sound (T : JumpTargets) (b : Builder) : Prop where
  nodup : b.graph.names.Nodup
  enter : .enter ∈ b.graph.names
  exit : .exit ∈ b.graph.names
  known : ∀ n ∈ b.graph.names, b.Knows n
  current : ∀ n, b.At n → n ∈ b.graph.names ∧ n ≠ .exit ∧ b.graph.Open n
  others : ∀ n ∈ b.graph.names, n ≠ .exit → b.graph.Open n ∨ b.graph.Ended n
  empty_exit : b.graph.code .exit = [] ∧ b.graph.successors .exit = []
  edges : ∀ e ∈ b.graph.edges, e.source ∈ b.graph.names ∧ e.target ∈ b.graph.names ∧
    e.target ≠ .enter
  targets : ∀ n ∈ T.names, b.Knows n ∧ n ≠ .enter

/-- The blocks that are still to be filled: those that are open but not current. A name that was
given out counts as an empty block. -/
def Builder.unfilled (b : Builder) : Set BlockName :=
  {n | b.Knows n ∧ n ≠ .exit ∧ ¬ b.At n ∧ b.graph.Open n}

variable {after second first : BlockName} {on : Bool}

namespace Builder

lemma Sited.sound (h : Sited T b) : Sound T b := by
  obtain ⟨G, valid, rfl, -, scope, -⟩ := h
  have around (n : BlockName) (hn : n ∈ T.names) := valid.scope n (scope (Code.names_subset hn))
  refine ⟨valid.nodup, valid.enter, valid.exit, valid.known, fun n hn => ?_, fun n hn other => ?_,
    valid.empty_exit, fun e he => ?_, fun n hn => ⟨(around n hn).1, (around n hn).2.1⟩⟩
  · obtain ⟨names, other, opened, -⟩ := valid.current n hn
    exact ⟨names, other, opened⟩
  · by_cases pending : n ∈ G.pending
    · exact Or.inl (valid.pending n pending).2.2.2
    · by_cases here : G.builder.At n
      · exact Or.inl (valid.current n here).2.2.1
      · exact Or.inr (valid.ended n hn other pending here)
  · obtain ⟨source, target, inner, -⟩ := valid.edges e he
    exact ⟨source, target, inner⟩

namespace Sound

variable (h : b.Sound T)

include h

/-- A name without a block stands for an empty block. -/
lemma unfilled_of_new (known : b.Knows n) (new : n ∉ b.graph.names) : n ∈ b.unfilled := by
  refine ⟨known, ?_, fun here => new (h.current n here).1, ?_, ?_⟩
  · rintro rfl
    exact new h.exit
  · simp [Graph.code_eq_nil _ new]
  · refine List.eq_nil_iff_forall_not_mem.2 fun t ht => new ?_
    exact (h.edges _ ((Graph.mem_successors _).1 ht)).1

lemma scope (hn : n ∈ Code.around .exit T) :
    b.Knows n ∧ n ≠ .enter ∧ (n ∈ b.graph.names ∨ n ∈ b.unfilled) := by
  rcases hn with rfl | hn
  · exact ⟨h.known _ h.exit, by simp, Or.inl h.exit⟩
  · obtain ⟨known, inner⟩ := h.targets n hn
    exact ⟨known, inner, or_iff_not_imp_left.2 (h.unfilled_of_new known)⟩

/-- Where the blocks are in order, code can be laid out. -/
lemma sited : Sited T b := by
  -- no binding is watched
  refine ⟨⟨b, fun _ => Set.univ, Set.univ, b.unfilled, Code.around .exit T⟩, ?_, rfl, rfl,
    subset_rfl, fun n hn => absurd hn (Set.notMem_empty n)⟩
  refine ⟨h.nodup, h.enter, h.exit, h.known, fun n hn => hn, fun n => h.scope, fun n hn => ?_,
    fun n hn other filled here => ?_, h.empty_exit, fun e he => ?_, fun n p i q _ v _ => by simp⟩
  · obtain ⟨names, other, opened⟩ := h.current n hn
    exact ⟨names, other, opened, by simp⟩
  · refine (h.others n hn other).resolve_left fun opened => filled ?_
    exact ⟨h.known n hn, other, here, opened⟩
  · obtain ⟨source, target, inner⟩ := h.edges e he
    exact ⟨source, target, inner, by simp⟩

end Sound

variable {K K' P P' : Set BlockName} {i : Instruction}

/-- Laying out code keeps a layout valid, and leaves the same blocks pending. -/
lemma Laid.valid {G : Layout} (h : Laid T G.builder b') (valid : G.Valid) (now : G.now = Set.univ)
    (scope : Code.around .exit T ⊆ G.scope) : ∃ label,
      Layout.Valid ⟨b', label, Set.univ, G.pending, G.scope⟩ ∧
      ∀ n, G.builder.Knows n → label n = G.label n := by
  obtain ⟨c, lays⟩ := h
  have accepts : ∀ n ∈ Code.around .exit T, G.Accepts G.scope Set.univ n := fun n hn =>
    ⟨scope hn, (valid.scope n (scope hn)).1, Set.subset_univ _⟩
  have flows : c.Flows (fun _ => Set.univ) Set.univ G.now Set.univ := by
    rw [now]
    exact c.flows_univ _ _
  obtain ⟨label, moves⟩ := (lays .exit).placed valid rfl
    (accepts .exit Code.label_mem) (fun kind n hn => accepts n (Code.names_subset ⟨kind, hn⟩)) flows
  exact ⟨label, moves.valid valid, moves.frame.label⟩

lemma Laid.grows (h : Laid T b b') : Extends {n | b.At n} (Code.around .exit T) b b' := by
  obtain ⟨c, lays⟩ := h
  exact (lays .exit).growth

lemma Laid.skip : Laid T b b := ⟨.skip, fun _ => .skip⟩

lemma Laid.trans (h : Laid T b b₁) (h' : Laid T b₁ b') : Laid T b b' := by
  obtain ⟨c, lays⟩ := h
  obtain ⟨c', lays'⟩ := h'
  exact ⟨.seq c c', fun l => .seq (lays l) (lays' l)⟩

lemma Laid.alloc : Laid T b b.allocTemp.2 := ⟨.alloc, fun _ => .alloc⟩

lemma Laid.emit (plain : i.isTerminator = false) : Laid T b (b.emit i) :=
  ⟨.emit i plain, fun _ => .emit⟩

/-- Two ways behind a test on `c` are laid out from `b` to `b'`: the test up to `b₁`, the way that
is taken where it comes out `on` from `b₂` to `b₂'`, and the other one from `b₃` to `b₃'`. -/
structure TwoWays (T : JumpTargets) (c : Binding) (on : Bool) (b b₁ b₂ b₂' b₃ b₃' b' : Builder) :
    Prop where
  test : Laid T b.created.created.created b₁
  first : b₂ = (b₁.branch (some c) b.fresh b.created.fresh).startBlock
    (if on then b.fresh else b.created.fresh)
  onFirst : Laid T b₂ b₂'
  second : b₃ = (b₂'.jump b.created.created.fresh).startBlock
    (if on then b.created.fresh else b.fresh)
  onSecond : Laid T b₃ b₃'
  last : b' = (b₃'.jump b.created.created.fresh).startBlock b.created.created.fresh

variable {c : Binding} {b₂' b₃' : Builder}

lemma TwoWays.laid (h : TwoWays T c on b b₁ b₂ b₂' b₃ b₃' b') : Laid T b b' := by
  obtain ⟨⟨test, ht⟩, rfl, ⟨first, hf⟩, rfl, ⟨second, hs⟩, rfl⟩ := h
  exact ⟨.twoWays test c on first second, fun _ => .twoWays rfl rfl rfl (ht _) (hf _) (hs _)⟩

namespace Stands

variable (h : Stands K P b)

include h

lemma mono (hK : K' ⊆ K) (hP : P' ⊆ P) : Stands K' P' b := by
  obtain ⟨G, valid, builder, now, scope, pending⟩ := h
  exact ⟨G, valid, builder, now, hK.trans scope, fun n hn => pending n (hP hn)⟩

lemma tidy : Tidy K P b := by
  obtain ⟨G, valid, rfl, -, scope, pending⟩ := h
  refine ⟨fun n hn => (valid.current n hn).1, valid.known, fun n hn => ?_, fun n hn => ?_⟩
  · exact (valid.scope n (scope hn)).1
  · obtain ⟨mem, -, code⟩ := pending n hn
    obtain ⟨known, -, other, -⟩ := valid.pending n mem
    exact ⟨known, code, other⟩

omit h in
/-- Moves lead from one standing builder to another. -/
lemma of_reached {G : Layout} {E Q : Set BlockName} (valid : G.Valid)
    (r : G.Reached b' Set.univ Q E) (tidy : Tidy K P b') (hK : K ⊆ E)
    (hP : ∀ n ∈ P, n ∈ Q ∧ G.builder.Knows n ∧ G.label n = Set.univ) : Stands K P b' := by
  obtain ⟨label, moves⟩ := r
  refine ⟨_, moves.valid valid, rfl, rfl, hK, fun n hn => ?_⟩
  obtain ⟨mem, known, all⟩ := hP n hn
  exact ⟨mem, (moves.frame.label n known).trans all, (tidy.blank n hn).2.1⟩

lemma created : Stands (insert b.fresh K) (insert b.fresh P) b.created := by
  have tidy := h.tidy.created
  obtain ⟨G, valid, rfl, now, scope, pending⟩ := h
  refine ⟨G.create Set.univ, (G.moves_create _).valid valid, rfl, now, ?_, fun n hn => ?_⟩
  · exact Set.insert_subset_insert scope
  · have code := (tidy.blank n hn).2.1
    rcases hn with rfl | hn
    · exact ⟨Or.inl rfl, Function.update_self .., code⟩
    · obtain ⟨mem, all, -⟩ := pending n hn
      exact ⟨Or.inr mem, (Layout.label_create (valid.pending n mem).1 _).trans all, code⟩

lemma terminate (ends : i.isTerminator = true) (targets : ∀ t ∈ i.targets, t ∈ K) :
    Stands K P (b.emit i) := by
  have tidy := h.tidy.emit targets
  obtain ⟨G, valid, rfl, now, scope, pending⟩ := h
  have r : G.Reached (G.builder.emit i) Set.univ G.pending G.scope := by
    refine (Layout.Reached.refl G).terminate ends (fun v _ => now ▸ trivial) fun t ht => ?_
    have mem := scope (targets t ht)
    exact ⟨mem, (valid.scope t mem).1, now ▸ Set.subset_univ _⟩
  refine of_reached valid r tidy scope fun n hn => ?_
  obtain ⟨mem, all, -⟩ := pending n hn
  exact ⟨mem, (valid.pending n mem).1, all⟩

lemma startBlock (none : b.current = none) (hn : n ∈ P) (hK : n ∈ K) :
    Stands K (P \ {n}) (b.startBlock n) := by
  have tidy := h.tidy.startBlock hK
  obtain ⟨G, valid, rfl, now, scope, pending⟩ := h
  obtain ⟨mem, all, -⟩ := pending n hn
  have r := (Layout.Reached.refl G).start none mem (valid.pending n mem).1
  rw [all] at r
  refine of_reached valid r tidy scope fun m hm => ?_
  obtain ⟨mem, all, -⟩ := pending m hm.1
  exact ⟨⟨mem, hm.2⟩, (valid.pending m mem).1, all⟩

lemma laid (hT : Code.around .exit T ⊆ K) (hb : Laid T b b') : Stands K P b' := by
  have tidy := h.tidy.grown (hb.grows.mono subset_rfl hT)
  obtain ⟨G, valid, rfl, now, scope, pending⟩ := h
  obtain ⟨label, valid', same⟩ := hb.valid valid now (hT.trans scope)
  refine ⟨_, valid', rfl, rfl, scope, fun n hn => ?_⟩
  obtain ⟨mem, all, -⟩ := pending n hn
  exact ⟨mem, (same n (valid.pending n mem).1).trans all, (tidy.blank n hn).2.1⟩

/-- Two blocks are filled one after the other behind a branch, and the block behind both is
begun. -/
lemma fork {c : Option Binding} {x y : BlockName} (hT : Code.around .exit T ⊆ K) (hx : x ∈ K)
    (hy : y ∈ K) (hfirst : first ∈ K ∩ P) (hsecond : second ∈ K ∩ (P \ {first}))
    (hafter : after ∈ K ∩ ((P \ {first}) \ {second}))
    (hf : Laid T ((b.branch c x y).startBlock first) b₂)
    (hs : Laid T ((b₂.jump after).startBlock second) b₃) :
    (Sited T ((b.branch c x y).startBlock first) ∧
      ((b.branch c x y).startBlock first).point = some (.start first)) ∧
    (Sited T ((b₂.jump after).startBlock second) ∧
      ((b₂.jump after).startBlock second).point = some (.start second)) ∧
    ((b₃.jump after).startBlock after).point = some (.start after) := by
  have jump : ∀ {b : Builder} {P : Set BlockName}, Stands K P b → Stands K P (b.jump after) :=
    fun h => h.terminate rfl (by simpa [Instruction.targets] using hafter.1)
  have h : Stands K P (b.branch c x y) :=
    h.terminate rfl (by simpa [Instruction.targets] using ⟨hx, hy⟩)
  have begun := h.startBlock (b.current_branch ..) hfirst.2 hfirst.1
  have h' := jump (begun.laid hT hf)
  have begun' := h'.startBlock (b₂.current_jump _) hsecond.2 hsecond.1
  have h'' := jump (begun'.laid hT hs)
  exact ⟨⟨begun.mono hT (Set.empty_subset _), h.tidy.point_start hfirst.2⟩,
    ⟨begun'.mono hT (Set.empty_subset _), h'.tidy.point_start hsecond.2⟩,
    h''.tidy.point_start hafter.2⟩

omit h in
/-- Where the parts of two ways behind a test are laid out. -/
lemma twoWays (h : Sited T b) (ways : TwoWays T c on b b₁ b₂ b₂' b₃ b₃' b') :
    Sited T b.created.created.created ∧
    (Sited T b₂ ∧ b₂.point = some (.start (if on then b.fresh else b.created.fresh))) ∧
    (Sited T b₃ ∧ b₃.point = some (.start (if on then b.created.fresh else b.fresh))) ∧
    b'.point = some (.start b.created.created.fresh) := by
  obtain ⟨test, rfl, first, rfl, second, rfl⟩ := ways
  have made := h.created.created.created
  have around : Code.around .exit T ⊆ insert b.created.created.fresh
      (insert b.created.fresh (insert b.fresh (Code.around .exit T))) :=
    fun n hn => Or.inr (Or.inr (Or.inr hn))
  have distinct : b.fresh ≠ b.created.fresh ∧ b.fresh ≠ b.created.created.fresh ∧
      b.created.fresh ≠ b.created.created.fresh := by
    simp only [fresh, nextBlock_created, ne_eq, BlockName.numbered.injEq]
    omega
  refine ⟨made.mono around (Set.empty_subset _), (made.laid around test).fork around (by simp)
    (by simp) ?_ ?_ ?_ first second⟩
  · cases on <;> simp
  · cases on <;> simp [distinct, Ne.symm distinct.1]
  · cases on <;> simp [Ne.symm distinct.2.1, Ne.symm distinct.2.2]

end Stands

/-! ## Where steps lead -/

section

variable {t : BlockName}

namespace Laid

variable (h : Laid T b b') (hb : Sited T b)

include h hb

/-- A block that is new or was current before is ended or is current now. -/
lemma ended (hn : n ∈ b'.graph.names) (other : n ≠ .exit) (mine : n ∈ {n | b.At n} ∪ b.since b')
    (gone : ¬ b'.At n) : b'.graph.Ended n := by
  obtain ⟨G, valid, rfl, now, scope, -⟩ := hb
  obtain ⟨label, valid', -⟩ := h.valid valid now scope
  refine valid'.ended n hn other (fun mem => ?_) gone
  obtain ⟨known, -, elsewhere, -⟩ := valid.pending n mem
  exact mine.elim elsewhere fun new => new.2 known

/-- Code begins at the point where its builder stands, unless it is empty. -/
lemma enters (hx : b.point = some x) : x ∈ b.filled b' ∨ b'.point = some x := by
  obtain ⟨current, index⟩ := point_eq_some.1 hx
  have opened : x.block ≠ .exit ∧ b.graph.Open x.block := by
    obtain ⟨G, valid, rfl, -⟩ := hb
    exact (valid.current _ current).2.imp_right And.left
  obtain ⟨added, code⟩ := h.grows.grows x.block
  cases added with
  | cons i is =>
    refine Or.inl ⟨index.ge, ?_⟩
    rw [← code, index]
    simp
  | nil =>
    rw [List.append_nil] at code
    refine Or.inr (point_eq_some.2 ⟨by_contra fun gone => ?_, code ▸ index⟩)
    obtain ⟨body, last, eq, -, ends, -⟩ :=
      h.ended hb (h.grows.names _ (hb.tidy.rooted _ current)) opened.1 (Or.inl current) gone
    have plain := opened.2.1 last (by rw [code, eq]; simp)
    simp [ends] at plain

/-- A block that is new and can be led to has been filled, or is about to be. -/
lemma begun (new : t ∈ b.since b') (names : t ∈ b'.graph.names) :
    .start t ∈ b.filled b' ∨ b'.point = some (.start t) := by
  have blank : b.graph.code t = [] := b.graph.code_eq_nil fun mem => new.2 (hb.tidy.known t mem)
  have other : t ≠ .exit := by
    rintro rfl
    exact new.2 (hb.tidy.knows _ Code.label_mem)
  by_cases empty : b'.graph.code t = []
  · refine Or.inr (point_eq_some.2 ⟨by_contra fun gone => ?_, by simp [Point.start, empty]⟩)
    obtain ⟨body, last, eq, -⟩ := h.ended hb names other (Or.inr new) gone
    simp [eq] at empty
  · exact Or.inl ⟨by simp [Point.start, blank], List.length_pos_iff.2 empty⟩

/-- The block of a point that has been filled. -/
lemma block_of_filled (hp : p ∈ b.filled b') :
    p.block ∈ b'.graph.names ∧ p.block ≠ .exit ∧ p.block ∈ {n | b.At n} ∪ b.since b' := by
  have lt := hp.1.trans_lt hp.2
  refine ⟨by_contra fun absent => ?_, ?_, by_contra fun other => ?_⟩
  · rw [b'.graph.code_eq_nil absent] at lt
    simp at lt
  · intro eq
    obtain ⟨G, valid, rfl, now, scope, -⟩ := hb
    obtain ⟨label, valid', -⟩ := h.valid valid now scope
    rw [eq, valid'.empty_exit.1] at lt
    simp at lt
  · rw [h.grows.code _ other] at lt
    omega

/-- A terminator that has been added leads to a target of a jump or to a new block. -/
lemma targets (hp : p ∈ b.filled b') (hi : (b'.graph.code p.block)[p.index]? = some i)
    (ht : t ∈ i.targets) : t ∈ Code.around .exit T ∨ t ∈ b.since b' ∧ t ∈ b'.graph.names := by
  obtain ⟨names, other, mine⟩ := h.block_of_filled hb hp
  have mem := List.mem_of_getElem? hi
  have ends : i.isTerminator = true := by
    by_contra plain
    simp [Instruction.targets_eq_nil (Bool.eq_false_of_not_eq_true plain)] at ht
  have grows := h.grows
  have ended := h.ended hb names other mine
  obtain ⟨G, valid, rfl, now, scope, -⟩ := hb
  obtain ⟨label, valid', -⟩ := h.valid valid now scope
  have edge : ⟨p.block, t⟩ ∈ b'.graph.edges := by
    obtain ⟨body, last, code, plain, -, successors⟩ := ended fun current => by
      simp [(valid'.current _ current).2.2.1.1 i mem] at ends
    rw [code, List.mem_append, List.mem_singleton] at mem
    rw [← Graph.mem_successors, successors]
    rcases mem with mem | rfl
    · simp [plain i mem] at ends
    · exact ht
  obtain ⟨added, edges, leads⟩ := grows.edges
  have new : ⟨p.block, t⟩ ∉ G.builder.graph.edges := by
    intro old
    rcases mine with current | new
    · have none := (valid.current _ current).2.2.1.2
      rw [← Graph.mem_successors, none] at old
      cases old
    · exact new.2 (valid.known _ (valid.edges _ old).1)
  rw [edges] at edge
  have reached := leads _ ((List.mem_append.1 edge).resolve_left new)
  exact reached.2.imp_right fun new => ⟨new, (valid'.edges _ (edges ▸ edge)).2.1⟩

/-- **From the points of some code a step leads to one of them, behind them, or to the target of a
jump.** It leads to the first of them only if that is the target of a jump. -/
lemma leads (hg : b'.Within g) (hp : p ∈ b.filled b') (step : g.Step M (p, s) (q, s')) :
    (∃ t ∈ Code.around .exit T, q = .start t) ∨
      b.point ≠ some q ∧ (q ∈ b.filled b' ∨ b'.point = some q) := by
  have start : ∀ {i : Instruction} {t : BlockName}, g.instruction? p = some i → t ∈ i.targets →
      (∃ t' ∈ Code.around .exit T, Point.start t = .start t') ∨
        b.point ≠ some (.start t) ∧ (.start t ∈ b.filled b' ∨ b'.point = some (.start t)) := by
    intro i t hi ht
    rcases h.targets hb hp (hg.instruction? hp.2 ▸ hi) ht with around | ⟨new, names⟩
    · exact Or.inl ⟨t, around, rfl⟩
    · refine Or.inr ⟨fun here => ?_, h.begun hb new names⟩
      exact new.2 (hb.tidy.known t (hb.tidy.rooted t (point_eq_some.1 here).1))
  cases step with
  | jump hi => exact start hi (by simp [Instruction.targets])
  | @branch _ _ _ _ _ way hi takes => exact start hi (by cases way <;> simp [Instruction.targets])
  | @act _ _ i hi plain =>
    rw [hg.instruction? hp.2] at hi
    obtain ⟨names, other, mine⟩ := h.block_of_filled hb hp
    refine Or.inr ⟨fun here => ?_, ?_⟩
    · have := (point_eq_some.1 here).2
      have := hp.1
      simp only [Point.next] at *
      omega
    · by_cases lt : p.index + 1 < (b'.graph.code p.block).length
      · exact Or.inl ⟨hp.1.trans (Nat.le_succ _), lt⟩
      · -- the last instruction of a block that is not ended
        have last : p.index + 1 = (b'.graph.code p.block).length := by
          have := hp.2
          omega
        refine Or.inr (point_eq_some.2 ⟨by_contra fun gone => ?_, last⟩)
        obtain ⟨body, i', code, -, ends, -⟩ := h.ended hb names other mine gone
        rw [code, List.length_append, List.length_singleton, Nat.succ.injEq] at last
        rw [code, last, List.getElem?_concat_length, Option.some.injEq] at hi
        simp [← hi, ends] at plain

end Laid

end

end Builder

/-! ## Code in parts -/

namespace Graph

open Builder Relation

variable {b₀ b₂' b₃' : Builder} {z : Point} {S : Set BlockName}

/-- A run through the points of some code that comes to the first point of a part of it executes
this part. -/
lemma Executes.through (whole : Extends {n | b₀.At n} S b₀ b')
    (known : ∀ t ∈ Code.around .exit T, b₀.Knows t) (hx : b₀.point = some x)
    (hz : b'.point = some z) (part : Laid T b b₁) (hb : Sited T b) (hg : b₁.Within g)
    (inside : b.filled b₁ ⊆ b₀.filled b') (hy : b.point = some y)
    (run : ReflTransGen (g.Onward M (b₀.filled b') x) (y, s) (z, s')) :
    ∃ s₁ y₁, g.Executes M b b₁ s s₁ ∧ b₁.point = some y₁ ∧
      ReflTransGen (g.Onward M (b₀.filled b') x) (y₁, s₁) (z, s') := by
  -- by induction on the run from any point of the part, or the point behind it
  have split : ∀ C, ReflTransGen (g.Onward M (b₀.filled b') x) C (z, s') →
      C.1 ∈ b.filled b₁ ∨ b₁.point = some C.1 → ∃ s₁ y₁, b₁.point = some y₁ ∧
        ReflTransGen (g.Onward M (b.filled b₁) y) C (y₁, s₁) ∧
        ReflTransGen (g.Onward M (b₀.filled b') x) (y₁, s₁) (z, s') := by
    intro C run
    induction run using ReflTransGen.head_induction_on with
    | refl =>
      rintro (mem | last)
      · exact absurd (inside mem) (not_mem_filled_of_point hz)
      · exact ⟨s', z, last, .refl, .refl⟩
    | @head C D first rest ih =>
      rintro (mem | last)
      · rcases part.leads hb hg mem first.2.1 with ⟨t, around, eq⟩ | ⟨away, next⟩
        · have start : .start t ∈ b₀.filled b' ∨ b'.point = some (.start t) := by
            rw [← eq]
            rcases ReflTransGen.cases_head rest with rfl | ⟨E, step, -⟩
            · exact Or.inr hz
            · exact Or.inl step.1
          have back := whole.point_of_start (known t around) start
          exact absurd (eq.trans (Option.mem_unique back hx)) first.2.2
        · obtain ⟨s₁, y₁, hy₁, before, behind⟩ := ih next
          refine ⟨s₁, y₁, hy₁, .head ⟨mem, first.2.1, ?_⟩ before, behind⟩
          rintro rfl
          exact away hy
      · exact ⟨C.2, C.1, last, .refl, .head first rest⟩
  obtain ⟨s₁, y₁, hy₁, before, behind⟩ := split _ run (part.enters hb hy)
  exact ⟨s₁, y₁, ⟨y, y₁, hy, hy₁, before⟩, hy₁, behind⟩

/-- An execution of a part that starts behind the point `x` is a run through the whole code. -/
lemma Executes.lift (h : g.Executes M b b₁ s s') (grows : b.Within b₁.graph)
    (inside : b.filled b₁ ⊆ b₀.filled b') (hx : x.index < (b.graph.code x.block).length) :
    ∃ y z, b.point = some y ∧ b₁.point = some z ∧
      ReflTransGen (g.Onward M (b₀.filled b') x) (y, s) (z, s') := by
  obtain ⟨y, z, hy, hz, run⟩ := h
  refine ⟨y, z, hy, hz, Onward.avoids run inside (fun mem => Nat.not_lt.2 mem.1 hx) ?_⟩
  intro eq
  obtain rfl : z = x := eq
  have := (point_eq_some.1 hz).2
  have := (grows z.block).length_le
  omega

/-- **Code that was laid out in two parts is executed part by part.** -/
lemma executes_trans (hb : Sited T b) (first : Laid T b b₁)
    (second : Laid T b₁ b') (hg : b'.Within g) :
    g.Executes M b b' s s' ↔ ∃ s₁, g.Executes M b b₁ s s₁ ∧ g.Executes M b₁ b' s₁ s' := by
  have known : ∀ t ∈ Code.around .exit T, b.Knows t := fun t ht => hb.tidy.knows t ht
  have whole := (first.trans second).grows
  have inside : b.filled b₁ ⊆ b.filled b' :=
    filled_subset grown_refl second.grows.grows
  have inside' : b₁.filled b' ⊆ b.filled b' :=
    filled_subset first.grows.grows grown_refl
  constructor
  · rintro ⟨x, z, hx, hz, run⟩
    obtain ⟨s₁, y, before, hy, run⟩ := Executes.through whole known hx hz first hb
      (hg.back second.grows) inside hx run
    obtain ⟨s₂, z', behind, hz', run⟩ := Executes.through whole known hx hz second
      (hb.laid subset_rfl first) hg inside' hy run
    obtain rfl : z = z' := Option.mem_unique hz hz'
    obtain ⟨⟩ := Onward.eq_of_not_mem run (not_mem_filled_of_point hz)
    exact ⟨s₁, before, behind⟩
  · rintro ⟨s₁, ⟨x, y, hx, hy, before⟩, behind⟩
    have before := Onward.mono before inside
    rcases first.enters hb hx with mem | same
    · obtain ⟨y', z, hy', hz, run⟩ := behind.lift second.grows.grows inside' mem.2
      obtain rfl : y = y' := Option.mem_unique hy hy'
      exact ⟨x, z, hx, hz, before.trans run⟩
    · -- nothing has been laid out in front
      obtain rfl : y = x := Option.mem_unique hy same
      obtain ⟨y', z, hy', hz, run⟩ := behind
      obtain rfl : y = y' := Option.mem_unique hy hy'
      exact ⟨y, z, hx, hz, before.trans (Onward.mono run inside')⟩

/-! ## Single instructions -/

variable {K P : Set BlockName}

lemma mem_filled_emit (tidy : Tidy K P b) (i : Instruction) (hx : b.point = some x) :
    x ∈ b.filled (b.emit i) := by
  obtain ⟨current, index⟩ := point_eq_some.1 hx
  refine ⟨index.ge, ?_⟩
  rw [emit_eq current]
  simp [Graph.code_push_self _ (tidy.rooted _ current), index]

/-- An instruction that stays in its block is executed by doing what it says. -/
lemma executes_emit (tidy : Tidy K P b) {i : Instruction} (plain : i.isTerminator = false)
    (hg : (b.emit i).Within g) :
    g.Executes M b (b.emit i) s s' ↔ b.point.isSome ∧ s' = M.act i s := by
  constructor
  · rintro ⟨x, y, hx, hy, run⟩
    have here := tidy.has_emit hg x hx
    obtain rfl : y = x.next := Option.mem_unique hy (tidy.point_emit plain x hx)
    obtain ⟨D, -, step, -, run⟩ := Onward.head run x.next_ne.symm
    obtain rfl := step.of_plain here plain
    obtain ⟨⟩ := Onward.eq_of_not_mem run (not_mem_filled_of_point hy)
    exact ⟨by simp [hx], rfl⟩
  · rintro ⟨some, rfl⟩
    obtain ⟨x, hx⟩ := Option.isSome_iff_exists.1 some
    have step : g.Step M (x, s) (x.next, M.act i s) := .act (tidy.has_emit hg x hx) plain
    exact ⟨x, x.next, hx, tidy.point_emit plain x hx,
      .single ⟨mem_filled_emit tidy i hx, step, x.next_ne⟩⟩

/-! ## Two ways -/

/-- A way that leads to the point behind the whole code is gone by executing it. -/
lemma executes_way (whole : Extends {n | b₀.At n} S b₀ b')
    (known : ∀ t ∈ Code.around .exit T, b₀.Knows t) (hx : b₀.point = some x)
    (hz : b'.point = some (.start n)) (part : Laid T b b₁) (hb : Sited T b)
    (hg : (b₁.jump n).Within g) (inside : b.filled (b₁.jump n) ⊆ b₀.filled b')
    (hy : b.point = some y) (mem : x ∈ b₀.filled b')
    (behind : x.index < (b.graph.code x.block).length) :
    ReflTransGen (g.Onward M (b₀.filled b') x) (y, s) (.start n, s') ↔ g.Executes M b b₁ s s' := by
  have tidy := (hb.laid subset_rfl part).tidy
  have inside' : b.filled b₁ ⊆ b₀.filled b' :=
    (filled_subset grown_refl (b₁.grown_emit _)).trans inside
  have last : ∀ z ∈ b₁.point, z ∈ b₀.filled b' ∧ g.instruction? z = some (.jump n) := fun z hz =>
    ⟨inside (filled_subset part.grows.grows grown_refl (mem_filled_emit tidy (.jump n) hz)),
      tidy.has_emit hg z hz⟩
  constructor
  · intro run
    obtain ⟨s₁, z, execution, hz₁, run⟩ :=
      Executes.through whole known hx hz part hb hg.emit inside' hy run
    obtain ⟨mem, jump⟩ := last z hz₁
    obtain ⟨D, -, step, -, run⟩ := Onward.head run
      (ne_of_mem_of_not_mem mem (not_mem_filled_of_point hz))
    obtain rfl := step.of_jump jump
    obtain ⟨⟩ := Onward.eq_of_not_mem run (not_mem_filled_of_point hz)
    exact execution
  · intro execution
    obtain ⟨y', z, hy', hz₁, run⟩ := execution.lift part.grows.grows inside' behind
    obtain rfl : y = y' := Option.mem_unique hy hy'
    obtain ⟨mem', jump⟩ := last z hz₁
    refine run.tail ⟨mem', .jump jump, ?_⟩
    rintro rfl
    exact not_mem_filled_of_point hz mem

/-- **Code that takes one of two ways behind a test is executed by executing the test and the way
that it decides on.** -/
lemma executes_twoWays {c : Binding} (hb : Sited T b)
    (forks : TwoWays T c on b b₁ b₂ b₂' b₃ b₃' b') (hg : b'.Within g) :
    g.Executes M b b' s s' ↔
      ∃ s₁, g.Executes M b.created.created.created b₁ s s₁ ∧ ∃ way, M.takes (some c) s₁ way ∧
        if way = on then g.Executes M b₂ b₂' s₁ s' else g.Executes M b₃ b₃' s₁ s' := by
  have whole := forks.laid.grows
  obtain ⟨hb₀, ⟨hb₂, hy₂⟩, ⟨hb₃, hy₃⟩, hz⟩ := hb.twoWays forks
  obtain ⟨test, first, way₂, second, way₃, last⟩ := forks
  have point : b.created.created.created.point = b.point := by simp
  have grown₁ : b.Within b.created.created.created.graph := grown_refl.created.created.created
  have grown₂ := first ▸ grown_startBlock (b₁.branch (some c) b.fresh b.created.fresh) _
  have grown₃ := second ▸ grown_startBlock (b₂'.jump b.created.created.fresh) _
  have grown₄ := last ▸ grown_startBlock (b₃'.jump b.created.created.fresh) _
  have leads : ∀ way, (if way then b.fresh else b.created.fresh) = if way = on then
      (if on then b.fresh else b.created.fresh) else if on then b.created.fresh else b.fresh := by
    cases on <;> rintro (_ | _) <;> rfl
  have known : ∀ t ∈ Code.around .exit T, b.Knows t := fun t ht => hb.tidy.knows t ht
  have tidy := (hb₀.laid subset_rfl test).tidy
  have back₃ : b₃.Within b'.graph := (Within.trans way₃.grows.grows (b₃'.grown_emit _)).trans grown₄
  have back₂ : b₂.Within b₃.graph := (Within.trans way₂.grows.grows (b₂'.grown_emit _)).trans grown₃
  have front : b.Within b₁.graph := grown₁.trans test.grows.grows
  have front₂ : b.Within b₂.graph := (front.trans (b₁.grown_emit _)).trans grown₂
  have inside : b.created.created.created.filled b₁ ⊆ b.filled b' :=
    filled_subset grown₁ (((b₁.grown_emit _).trans grown₂).trans (back₂.trans back₃))
  have branching : ∀ y ∈ b₁.point, y ∈ b.filled (b₁.branch (some c) b.fresh b.created.fresh) ∧
      g.instruction? y = some (.branch (some c) b.fresh b.created.fresh) := fun y hy =>
    ⟨filled_subset front grown_refl (mem_filled_emit tidy _ hy),
      tidy.has_emit (((grown₂.trans back₂).trans back₃).trans hg) y hy⟩
  have inside₁ : b.filled (b₁.branch (some c) b.fresh b.created.fresh) ⊆ b.filled b' :=
    filled_subset grown_refl ((grown₂.trans back₂).trans back₃)
  have entry : ∀ x ∈ b.point, x ∈ b.filled (b₁.branch (some c) b.fresh b.created.fresh) := by
    intro x hx
    rcases test.enters hb₀ (point.trans hx) with mem | same
    · exact filled_subset grown₁ (b₁.grown_emit _) mem
    · exact (branching x same).1
  have ways : ∀ {x : Point} {s₁ : σ} (way : Bool), b.point = some x →
      (ReflTransGen (g.Onward M (b.filled b') x)
        (.start (if way then b.fresh else b.created.fresh), s₁)
        (.start b.created.created.fresh, s') ↔
      if way = on then g.Executes M b₂ b₂' s₁ s' else g.Executes M b₃ b₃' s₁ s') := by
    intro x s₁ way hx
    have behind := (entry x hx).2
    rw [leads]
    split
    · exact executes_way whole known hx hz way₂ hb₂ ((grown₃.trans back₃).trans hg)
        (filled_subset front₂ (grown₃.trans back₃)) hy₂ (inside₁ (entry x hx))
        (behind.trans_le (grown₂ _).length_le)
    · exact executes_way whole known hx hz way₃ hb₃ (grown₄.trans hg)
        (filled_subset (front₂.trans back₂) grown₄) hy₃ (inside₁ (entry x hx))
        (behind.trans_le ((grown₂.trans back₂) _).length_le)
  constructor
  · rintro ⟨x, z, hx, hz', run⟩
    obtain rfl : z = .start b.created.created.fresh := Option.mem_unique hz' hz
    obtain ⟨s₁, y, tested, hy, run⟩ := Executes.through whole known hx hz test hb₀
      (((b₁.grown_emit _).trans (grown₂.trans back₂)).trans (back₃.trans hg)) inside
      (point.trans hx) run
    obtain ⟨mem, branch⟩ := branching y hy
    obtain ⟨D, -, step, -, run⟩ := Onward.head run
      (ne_of_mem_of_not_mem (inside₁ mem) (not_mem_filled_of_point hz))
    obtain ⟨way, takes, rfl⟩ := step.of_branch branch
    exact ⟨s₁, tested, way, takes, (ways way hx).1 run⟩
  · rintro ⟨s₁, ⟨x, y, hx, hy, run⟩, way, takes, execution⟩
    have hx := point.symm.trans hx
    obtain ⟨mem, branch⟩ := branching y hy
    have step : g.Onward M (b.filled b') x (y, s₁)
        (.start (if way then b.fresh else b.created.fresh), s₁) := by
      refine ⟨inside₁ mem, .branch branch takes, ?_⟩
      rintro rfl
      -- the way was empty when it was begun, and the first point had been filled before
      have := (entry _ hx).2
      rw [leads] at this
      split at this
      · exact absurd ((grown₂ _).length_le.trans (point_eq_some.1 hy₂).2.ge) (Nat.not_le.2 this)
      · exact absurd (((grown₂.trans back₂) _).length_le.trans (point_eq_some.1 hy₃).2.ge)
          (Nat.not_le.2 this)
    exact ⟨x, .start b.created.created.fresh, hx, hz,
      (Onward.mono run inside).trans (.head step ((ways way hx).2 execution))⟩

end Graph

end ControlFlow
