import ControlFlow.Proofs.Code.Cover
import ControlFlow.Proofs.Graph.Machine
/-!
# Code in a graph

`Code.In` says that a graph holds the instructions of structured code from one point to another: the
blocks that laying the code out has made are there, and lead where they should. In contrast to
`Code.Lays` it speaks of the finished graph alone.

The main result is `Code.Lays.held`: a graph that has grown from the layout of code holds it.
-/

namespace ControlFlow

/-! ## Points of a graph -/

namespace Graph

/-- The instruction stands at the point, if there is one. -/
def Has (g : Graph) (x : Option Point) (i : Instruction) : Prop :=
  ∀ p ∈ x, g.instruction? p = some i

/-- A branch at the point, if there is one, leads to `taken` where `c` is `on`, and to `other` where
it is not. -/
def HasBranch (g : Graph) (x : Option Point) (c : Binding) (on : Bool) (taken other : BlockName) :
    Prop :=
  g.Has x (if on then .branch (some c) taken other else .branch (some c) other taken)

end Graph

/-- The graph holds code from a point to another, in front of the label `l` and with the targets `T`
for jumps. Without a point to start from nothing leads to the code. -/
def Code.In (g : Graph) : Code → BlockName → JumpTargets → Option Point → Option Point → Prop
  | .skip, _, _, x, y => y = x
  | .seq p q, l, T, x, z => ∃ y, p.In g l T x y ∧ q.In g l T y z
  | .alloc, _, _, x, y => y = x
  | .emit i _, _, _, x, y => g.Has x i ∧ ∀ p ∈ x, y = some p.next
  | .jump kind, _, T, x, _ => ∃ target, T.get? kind = some target ∧ g.Has x (.jump target)
  | .leave, l, _, x, _ => g.Has x (.jump l)
  | .twoWays t c on first second, _, T, x, y => ∃ taken other after x₁ x₂ x₃,
    t.In g after T x x₁ ∧ g.HasBranch x₁ c on taken other ∧
    first.In g after T (some (.start taken)) x₂ ∧ g.Has x₂ (.jump after) ∧
    second.In g after T (some (.start other)) x₃ ∧ g.Has x₃ (.jump after) ∧ y = some (.start after)
  | .detour c on way, _, T, x, y => ∃ taken after x₁, g.HasBranch x c on taken after ∧
    way.In g after T (some (.start taken)) x₁ ∧ g.Has x₁ (.jump after) ∧ y = some (.start after)
  | .join ways, _, T, x, y => ∃ after x₁, ways.In g after T x x₁ ∧ g.Has x₁ (.jump after) ∧
    y = some (.start after)
  | .clause on t c body, l, T, x, _ => ∃ taken x₁ x₂, t.In g l T x x₁ ∧
    g.HasBranch x₁ c on taken l ∧ body.In g l T (some (.start taken)) x₂ ∧ g.Has x₂ (.jump l)
  | .clauseElse on t c body rest, l, T, x, y => ∃ taken other x₁ x₂, t.In g l T x x₁ ∧
    g.HasBranch x₁ c on taken other ∧ body.In g l T (some (.start taken)) x₂ ∧
    g.Has x₂ (.jump l) ∧ rest.In g l T (some (.start other)) y
  | .test inner c, l, T, x, y => ∃ failed x₁, inner.In g l T x x₁ ∧
    g.HasBranch x₁ c true l failed ∧ y = some (.start failed)
  | .select tests body, l, T, x, y => ∃ bodyBlock x₁, tests.In g bodyBlock T x y ∧
    body.In g l T (some (.start bodyBlock)) x₁ ∧ g.Has x₁ (.jump l)
  | .loop on t c body again c', _, T, x, y => ∃ bodyBlock after pretest x₁ x₂ x₃,
    g.Has x (.jump pretest) ∧
    t.In g after (T.inLoop after pretest bodyBlock) (some (.start pretest)) x₁ ∧
    g.HasBranch x₁ c on bodyBlock after ∧
    body.In g after (T.inLoop after pretest bodyBlock) (some (.start bodyBlock)) x₂ ∧
    again.In g after (T.inLoop after pretest bodyBlock) x₂ x₃ ∧
    g.HasBranch x₃ c' on bodyBlock after ∧ y = some (.start after)
  | .block body, _, T, x, y => ∃ bodyBlock, g.Has x (.jump bodyBlock) ∧
    body.In g bodyBlock T (some (.start bodyBlock)) y
  | .guarded copies body ensure, _, T, x, y => ∃ bodyBlock ensureBlock after T' x₁ x₂,
    g.Has x (.jump bodyBlock) ∧
    (∀ kind n, T'.get? kind = some n → ∃ target x', T.get? kind = some target ∧
      (copies kind).In g n T (some (.start n)) x' ∧ g.Has x' (.jump target)) ∧
    body.In g bodyBlock T' (some (.start bodyBlock)) x₁ ∧ g.Has x₁ (.jump ensureBlock) ∧
    ensure.In g ensureBlock T (some (.start ensureBlock)) x₂ ∧ g.Has x₂ (.jump after) ∧
    y = some (.start after)
  | .blockCall params closure dest callee request args _ _, _, T, x, y => ∃ bodyBlock after x₀ x₁,
    g.Has x (.closure closure params bodyBlock) ∧ (∀ p ∈ x, x₀ = some p.next) ∧
    request.In g after T x₀ x₁ ∧ g.Has x₁ (.send dest callee args (.body bodyBlock)) ∧
    g.Has (x₁.map Point.next) (.branch none bodyBlock after) ∧ y = some (.start after)

/-! ## Points of a builder -/

variable {b' : Builder} {landing : BlockName} {v : Binding}

namespace Builder

variable {b : Builder} {n : BlockName} {i : Instruction} {g : Graph} {K B : Set BlockName}

/-- The point where the next instruction goes. -/
def point (b : Builder) : Option Point := b.current.map fun n => ⟨n, (b.graph.code n).length⟩

/-- The names in `K` are given out, and the blocks in `B` are neither filled nor begun. -/
structure Tidy (K B : Set BlockName) (b : Builder) : Prop where
  rooted : b.Rooted
  known : ∀ n ∈ b.graph.names, b.Knows n
  knows : ∀ n ∈ K, b.Knows n
  blank : ∀ n ∈ B, b.Knows n ∧ b.graph.code n = [] ∧ ¬ b.At n

variable {x y : BlockName}

/-- What fills known blocks that are not in `B`, and leads to known ones, keeps all this. -/
lemma Extends.tidy {W : Set BlockName} (grown : Extends W K b b') (S : Tidy K B b)
    (fills : ∀ n ∈ W, b.Knows n ∧ n ∉ B) : Tidy K B b' where
  rooted := grown.rooted S.rooted
  known n hn := by
    rcases grown.named n hn with hn | hn | hn
    · exact (S.known n hn).mono grown.next
    · exact hn.elim (fun hn => (fills n hn).1.mono grown.next) And.left
    · exact (S.knows n hn).mono grown.next
  knows n hn := (S.knows n hn).mono grown.next
  blank n hn := by
    obtain ⟨known, empty, -⟩ := S.blank n hn
    have other : n ∉ W ∪ b.since b' := by
      rintro (mem | new)
      · exact (fills n mem).2 hn
      · exact new.2 known
    exact ⟨known.mono grown.next, (grown.code n other).trans empty,
      fun here => other (grown.current n here)⟩

namespace Tidy

variable (S : Tidy K B b)

include S

lemma mono {K' B' : Set BlockName} (hK : K' ⊆ K) (hB : B' ⊆ B) : Tidy K' B' b :=
  ⟨S.rooted, S.known, fun n hn => S.knows n (hK hn), fun n hn => S.blank n (hB hn)⟩

lemma current (n : BlockName) (hn : b.At n) : b.Knows n ∧ n ∉ B :=
  ⟨S.known n (S.rooted n hn), fun mem => (S.blank n mem).2.2 hn⟩

lemma grown (h : Extends {n | b.At n} K b b') : Tidy K B b' := h.tidy S S.current

lemma quiet (graph : b'.graph = b.graph) (current : b'.current = b.current)
    (next : b'.nextBlock = b.nextBlock) : Tidy K B b' :=
  S.grown (Extends.self.quiet graph current next)

lemma code_fresh : b.graph.code b.fresh = [] :=
  b.graph.code_eq_nil fun h => b.not_knows_fresh (S.known _ h)

/-- A name is given out. -/
lemma named (graph : b'.graph = b.graph ∨ b'.graph = b.graph.addBlock b.fresh)
    (current : b'.current = b.current) (next : b'.nextBlock = b.nextBlock + 1) :
    Tidy (insert b.fresh K) (insert b.fresh B) b' := by
  have S' := S.grown (Extends.self.named_fresh next (Or.inl current) graph)
  have fresh : b'.Knows b.fresh := by simp [Knows, next, fresh, BlockName.rank]
  refine ⟨S'.rooted, S'.known, ?_, ?_⟩
  · rintro n (rfl | h)
    · exact fresh
    · exact S'.knows n h
  · rintro n (rfl | h)
    · refine ⟨fresh, ?_, fun h => b.not_knows_fresh (S.current _ (current.symm.trans h)).1⟩
      rcases graph with h | h <;> simp [h, S.code_fresh]
    · exact S'.blank n h

lemma created : Tidy (insert b.fresh K) (insert b.fresh B) b.created :=
  S.named (Or.inr rfl) rfl rfl

lemma emit (targets : ∀ t ∈ i.targets, t ∈ K) : Tidy K B (b.emit i) :=
  S.grown (Extends.self.emit targets)

lemma plain (h : i.isTerminator = false) : Tidy K B (b.emit i) :=
  S.emit (by simp [Instruction.targets_eq_nil h])

lemma jump (hn : n ∈ K) : Tidy K B (b.jump n) :=
  S.emit (by simpa [Instruction.targets] using hn)

lemma branch {c : Option Binding} (hx : x ∈ K) (hy : y ∈ K) : Tidy K B (b.branch c x y) :=
  S.emit (by simpa [Instruction.targets] using ⟨hx, hy⟩)

lemma branchOn (c : Binding) (on : Bool) (hx : x ∈ K) (hy : y ∈ K) :
    Tidy K B (b.branchOn c on x y) :=
  S.grown (Extends.self.branchOn c on hx hy)

/-- A block is begun. -/
lemma begun (hn : n ∈ K) (h : Extends (insert n {n | b.At n}) K b b') : Tidy K (B \ {n}) b' := by
  refine h.tidy (S.mono subset_rfl Set.sdiff_subset) ?_
  rintro m (rfl | hm)
  · exact ⟨S.knows m hn, fun h => h.2 rfl⟩
  · exact (S.current m hm).imp_right fun out h => out h.1

lemma startBlock (hn : n ∈ K) : Tidy K (B \ {n}) (b.startBlock n) :=
  S.begun hn ((Extends.refl fun _ h => Or.inr h).startBlock (Or.inl rfl) hn)

/-- The end of a run, in a block of its own if something leads there. -/
lemma land (hn : n ∈ K) (hx : x ∈ K) (hy : y ∈ K) : Tidy K (B \ {n}) (b.land n x y) :=
  S.begun hn ((Extends.refl fun _ h => Or.inr h).land (Or.inl rfl) hn hx hy)

lemma suspend : Tidy K B b.suspend.2 := S.grown Extends.self.suspend

lemma ne_fresh ⦃m : BlockName⦄ (hm : m ∈ B) : m ≠ b.fresh :=
  fun h => b.not_knows_fresh (h ▸ (S.blank m hm).1)

/-- A block is made that was not there before. -/
lemma made (fresh : n = b.fresh) : Tidy (insert n K) (insert n B) b.created ∧
    ∀ ⦃m⦄, m ∈ B → m ≠ n := by
  rw [fresh]
  exact ⟨S.created, S.ne_fresh⟩

end Tidy

/-! ## Instructions of a builder in a graph that has grown from it -/

/-- The graph has grown from that of the builder. -/
def Within (b : Builder) (g : Graph) : Prop := ∀ n, b.graph.code n <+: g.code n

lemma Within.back {W S : Set BlockName} (h : b'.Within g) (e : Extends W S b b') : b.Within g :=
  fun n => (e.grows n).trans (h n)

lemma Within.emit (h : (b.emit i).Within g) : b.Within g :=
  h.back (W := Set.univ) (S := Set.univ) (Extends.any.emit (by simp))

lemma Within.created (h : b.created.Within g) : b.Within g := by simpa [Within] using h

lemma Within.branchOn {c : Binding} {on : Bool} (h : (b.branchOn c on x y).Within g) : b.Within g :=
  h.back (W := Set.univ) (S := Set.univ) (Extends.any.branchOn c on trivial trivial)

lemma Within.startBlock (h : (b.startBlock n).Within g) : b.Within g :=
  h.back (W := Set.univ) (S := Set.univ) (Extends.any.startBlock trivial trivial)

lemma Within.endRun (h : (b.endRun v x y).Within g) : b.Within g :=
  Within.emit (Within.emit h)

lemma Within.land (h : (b.land landing x y).Within g) : b.Within g :=
  h.back (W := Set.univ) (S := Set.univ)
    (Extends.any.land trivial trivial trivial trivial)

@[simp] lemma point_created (b : Builder) : b.created.point = b.point := by
  simp [point]

namespace Tidy

variable (S : Tidy K B b)

include S

lemma has_emit (h : (b.emit i).Within g) : g.Has b.point i := by
  intro p hp
  obtain ⟨n, hn, rfl⟩ := Option.map_eq_some_iff.1 hp
  have code : (b.emit i).graph.code n = b.graph.code n ++ [i] := by
    rw [emit_eq hn]
    simp [Graph.code_push_self _ (S.rooted n hn)]
  obtain ⟨rest, hr⟩ := h n
  rw [Graph.instruction?, ← hr, code]
  simp

lemma point_emit (plain : i.isTerminator = false) : ∀ p ∈ b.point, (b.emit i).point = some p.next := by
  intro p hp
  obtain ⟨n, hn, rfl⟩ := Option.map_eq_some_iff.1 hp
  rw [emit_eq hn]
  simp [point, plain, Graph.code_push_self _ (S.rooted n hn), Point.next]

lemma has_branchOn {c : Binding} {on : Bool} (h : (b.branchOn c on x y).Within g) :
    g.HasBranch b.point c on x y := by
  unfold Graph.HasBranch
  unfold Builder.branchOn at h
  cases on with
  | true => exact S.has_emit h
  | false => exact S.has_emit h

/-- An open block leads to the block that is begun. -/
lemma has_start (h : (b.startBlock n).Within g) : g.Has b.point (.jump n) := by
  intro p hp
  obtain ⟨m, hm, -⟩ := Option.map_eq_some_iff.1 hp
  rw [startBlock_of_at hm] at h
  exact S.has_emit h.startBlock p hp

lemma point_start (hn : n ∈ B) : (b.startBlock n).point = some (.start n) := by
  obtain ⟨-, hc, ha⟩ := S.blank n hn
  have code : (b.startBlock n).graph.code n = [] := by
    cases hb : b.current with
    | none => simpa [startBlock_eq hb] using hc
    | some m =>
      have hne : n ≠ m := fun e => ha (e ▸ hb)
      rw [startBlock_of_at hb, startBlock_eq (current_jump ..), Builder.jump, emit_eq hb]
      simpa [Graph.code_push_of_ne _ hne] using hc
  have current : (b.startBlock n).current = some n := rfl
  simp [point, current, code, Point.start]

end Tidy

end Builder

/-! ## Code that is laid out -/

open Builder

namespace Code

/-- Every graph that grows from the layout of code holds the code. -/
def Held (c : Code) (l : BlockName) (T : JumpTargets) (b b' : Builder) : Prop :=
  ∀ ⦃K B : Set BlockName⦄, Tidy K B b → l ∈ K → T.names ⊆ K →
    ∀ g : Graph, b'.Within g → c.In g l T b.point b'.point

/-- Code fills and leads to no more than it may, and is held by every graph that grows from its
layout. -/
structure Embedded (c : Code) (l : BlockName) (T : JumpTargets) (b b' : Builder) : Prop where
  grows : Extends {n | b.At n} (around l T) b b'
  held : c.Held l T b b'

variable {l : BlockName} {T : JumpTargets} {b b₁ b₂ b₃ : Builder} {c : Binding} {on : Bool}
  {after bodyBlock taken : BlockName} {body x : Code} {T' : JumpTargets} {K B : Set BlockName}

lemma Embedded.behind (h : x.Embedded l T b b') (S : Tidy K B b) (hl : l ∈ K) (hT : T.names ⊆ K) :
    Tidy K B b' ∧ ∀ g : Graph, b'.Within g → b.Within g ∧ x.In g l T b.point b'.point :=
  ⟨S.grown (h.grows.mono subset_rfl (Set.insert_subset hl hT)),
    fun g hg => ⟨hg.back h.grows, h.held S hl hT g hg⟩⟩

namespace Held

lemma twoWays {first second : Code} {ifTrue ifFalse : BlockName} (h₁ : ifTrue = b.fresh)
    (h₂ : ifFalse = b.created.fresh) (h₃ : after = b.created.created.fresh)
    (ht : x.Embedded after T b.created.created.created b₁)
    (hf : first.Embedded after T ((b₁.branch (some c) ifTrue ifFalse).startBlock
      (if on then ifTrue else ifFalse)) b₂)
    (hs : second.Embedded after T ((b₂.jump after).startBlock (if on then ifFalse else ifTrue)) b₃) :
    (Code.twoWays x c on first second).Held l T b ((b₃.jump after).startBlock after) := by
  intro K B S hl hT g hg
  obtain ⟨S₀, -⟩ := S.made h₁
  obtain ⟨S₀, new'⟩ := S₀.made h₂
  obtain ⟨S₀, new''⟩ := S₀.made h₃
  have hT : T.names ⊆ insert after (insert ifFalse (insert ifTrue K)) :=
    fun n h => Or.inr (Or.inr (Or.inr (hT h)))
  obtain ⟨S₁, g₁⟩ := ht.behind S₀ (by simp) hT
  have S₁' := S₁.branch (c := some c) (x := ifTrue) (y := ifFalse) (by simp) (by simp)
  obtain ⟨S₂, g₂⟩ := hf.behind (S₁'.startBlock (by cases on <;> simp)) (by simp) hT
  have S₂' := S₂.jump (n := after) (by simp)
  obtain ⟨S₃, g₃⟩ := hs.behind (S₂'.startBlock (by cases on <;> simp)) (by simp) hT
  have S₃' := S₃.jump (n := after) (by simp)
  obtain ⟨i₃, c₃⟩ := g₃ g hg.startBlock.emit
  obtain ⟨i₂, c₂⟩ := g₂ g i₃.startBlock.emit
  obtain ⟨-, c₁⟩ := g₁ g i₂.startBlock.emit
  rw [S₁'.point_start (by cases on <;> simp)] at c₂
  rw [S₂'.point_start (by cases on <;> simp [new' (.inl rfl), (new' (.inl rfl)).symm])] at c₃
  simp only [point_created] at c₁
  refine ⟨_, _, after, _, _, _, c₁, ?_, c₂, S₂.has_emit i₃.startBlock, c₃,
    S₃.has_emit hg.startBlock, S₃'.point_start ?_⟩
  · have branch := S₁.has_emit i₂.startBlock
    cases on <;> exact branch
  · cases on <;> simp [(new'' (.inl rfl)).symm, (new'' (.inr (.inl rfl))).symm]

lemma detour {way : Code} (h₁ : taken = b.fresh) (h₂ : after = b.created.fresh)
    (hw : way.Embedded after T ((b.created.created.branchOn c on taken after).startBlock taken) b₁) :
    (Code.detour c on way).Held l T b (b₁.startBlock after) := by
  intro K B S hl hT g hg
  obtain ⟨S₀, -⟩ := S.made h₁
  obtain ⟨S₀, new'⟩ := S₀.made h₂
  have S₀' := S₀.branchOn c on (x := taken) (y := after) (by simp) (by simp)
  obtain ⟨S₁, g₁⟩ := hw.behind (S₀'.startBlock (by simp)) (by simp)
    (fun n h => Or.inr (Or.inr (hT h)))
  obtain ⟨i₁, c₁⟩ := g₁ g hg.startBlock
  rw [S₀'.point_start (by simp)] at c₁
  have branch := S₀.has_branchOn i₁.startBlock
  simp only [point_created] at branch
  exact ⟨taken, after, _, branch, c₁, S₁.has_start hg,
    S₁.point_start (by simp [(new' (.inl rfl)).symm])⟩

lemma clause (h₁ : taken = b.fresh) (ht : x.Embedded l T b.created b₁)
    (hb : body.Embedded l T ((b₁.branchOn c on taken l).startBlock taken) b₂) :
    (Code.clause on x c body).Held l T b (b₂.jump l) := by
  intro K B S hl hT g hg
  obtain ⟨S₀, -⟩ := S.made h₁
  have hT : T.names ⊆ insert taken K := fun n h => Or.inr (hT h)
  obtain ⟨S₁, g₁⟩ := ht.behind S₀ (Or.inr hl) hT
  have S₁' := S₁.branchOn c on (x := taken) (y := l) (by simp) (Or.inr hl)
  obtain ⟨S₂, g₂⟩ := hb.behind (S₁'.startBlock (by simp)) (Or.inr hl) hT
  obtain ⟨i₂, c₂⟩ := g₂ g hg.emit
  obtain ⟨-, c₁⟩ := g₁ g i₂.startBlock.branchOn
  rw [S₁'.point_start (by simp)] at c₂
  simp only [point_created] at c₁
  exact ⟨taken, _, _, c₁, S₁.has_branchOn i₂.startBlock, c₂, S₂.has_emit hg⟩

lemma clauseElse {rest : Code} {other : BlockName} (h₁ : taken = b.fresh)
    (h₂ : other = b.created.fresh) (ht : x.Embedded l T b.created.created b₁)
    (hb : body.Embedded l T ((b₁.branchOn c on taken other).startBlock taken) b₂)
    (hr : rest.Embedded l T ((b₂.jump l).startBlock other) b₃) :
    (Code.clauseElse on x c body rest).Held l T b b₃ := by
  intro K B S hl hT g hg
  obtain ⟨S₀, -⟩ := S.made h₁
  obtain ⟨S₀, new'⟩ := S₀.made h₂
  have hl : l ∈ insert other (insert taken K) := Or.inr (Or.inr hl)
  have hT : T.names ⊆ insert other (insert taken K) := fun n h => Or.inr (Or.inr (hT h))
  obtain ⟨S₁, g₁⟩ := ht.behind S₀ hl hT
  have S₁' := S₁.branchOn c on (x := taken) (y := other) (by simp) (by simp)
  obtain ⟨S₂, g₂⟩ := hb.behind (S₁'.startBlock (by simp)) hl hT
  have S₂' := S₂.jump hl
  obtain ⟨-, g₃⟩ := hr.behind (S₂'.startBlock (by simp)) hl hT
  obtain ⟨i₃, c₃⟩ := g₃ g hg
  obtain ⟨i₂, c₂⟩ := g₂ g i₃.startBlock.emit
  obtain ⟨-, c₁⟩ := g₁ g i₂.startBlock.branchOn
  rw [S₁'.point_start (by simp)] at c₂
  rw [S₂'.point_start (by simp [(new' (.inl rfl)).symm])] at c₃
  simp only [point_created] at c₁
  exact ⟨taken, other, _, _, c₁, S₁.has_branchOn i₂.startBlock, c₂, S₂.has_emit i₃.startBlock, c₃⟩

/-- Tests are left open while the body is laid out. -/
lemma select {tests : Code} (h₁ : bodyBlock = b.fresh)
    (ht : tests.Embedded bodyBlock T b.created b₁)
    (hb : body.Embedded l T (b₁.suspend.2.startBlock bodyBlock) b₂) :
    (Code.select tests body).Held l T b ((b₂.jump l).resume b₁.suspend.1) := by
  intro K B S hl hT g hg
  have hg : (b₂.jump l).Within g := hg
  obtain ⟨S₀, -⟩ := S.made h₁
  have hT : T.names ⊆ insert bodyBlock K := fun n h => Or.inr (hT h)
  obtain ⟨S₁, g₁⟩ := ht.behind S₀ (by simp) hT
  have S₁' := S₁.suspend
  obtain ⟨S₂, g₂⟩ := hb.behind (S₁'.startBlock (by simp)) (Or.inr hl) hT
  have begun : Extends {bodyBlock} Set.univ b₁.suspend.2 (b₁.suspend.2.startBlock bodyBlock) :=
    (Extends.refl fun n hn => by cases hn).startBlock rfl trivial
  have aside : Extends {bodyBlock} Set.univ b₁.suspend.2 (b₂.jump l) :=
    (begun.code_laid hb.grows trivial (Set.subset_univ _)).jump trivial
  have point : ((b₂.jump l).resume b₁.suspend.1).point = b₁.point := by
    refine Option.map_congr fun n hn => ?_
    obtain ⟨known, other⟩ := S₁.current n hn
    refine congrArg (fun code => (⟨n, code.length⟩ : Point)) (aside.code n ?_)
    rintro (rfl | new)
    · exact other (Or.inl rfl)
    · exact new.2 known
  obtain ⟨i₂, c₂⟩ := g₂ g hg.emit
  obtain ⟨-, c₁⟩ := g₁ g i₂.startBlock
  rw [S₁'.point_start (by simp)] at c₂
  simp only [point_created] at c₁
  exact ⟨bodyBlock, _, point ▸ c₁, c₂, S₂.has_emit hg⟩

lemma loop {again : Code} {c' : Binding} {pretest : BlockName} (h₁ : bodyBlock = b.fresh)
    (h₂ : after = b.created.fresh) (h₃ : pretest = b.created.created.fresh)
    (h₄ : T' = T.inLoop after pretest bodyBlock)
    (ht : x.Embedded after T'
      ((b.created.created.created.note (.targetsNow T')).startBlock pretest) b₁)
    (hb : body.Embedded after T' ((b₁.branchOn c on bodyBlock after).startBlock bodyBlock) b₂)
    (ha : again.Embedded after T' b₂ b₃) :
    (Code.loop on x c body again c').Held l T b
      (((b₃.branchOn c' on bodyBlock after).note (.targetsRestored T)).startBlock after) := by
  intro K B S hl hT g hg
  obtain ⟨S₀, -⟩ := S.made h₁
  obtain ⟨S₀, new'⟩ := S₀.made h₂
  obtain ⟨S₀, new''⟩ := S₀.made h₃
  have hT : T'.names ⊆ insert pretest (insert after (insert bodyBlock K)) := by
    rw [h₄]
    exact T.names_inLoop_subset (by simp) (by simp) (by simp)
      fun n h => Or.inr (Or.inr (Or.inr (hT h)))
  have S₀' : Tidy _ _ (b.created.created.created.note (.targetsNow T')) := S₀.quiet rfl rfl rfl
  obtain ⟨S₁, g₁⟩ := ht.behind (S₀'.startBlock (by simp)) (by simp) hT
  have S₁' := S₁.branchOn c on (x := bodyBlock) (y := after) (by simp) (by simp)
  obtain ⟨S₂, g₂⟩ := hb.behind (S₁'.startBlock (by simp)) (by simp) hT
  obtain ⟨S₃, g₃⟩ := ha.behind S₂ (by simp) hT
  have S₃' : Tidy _ _ ((b₃.branchOn c' on bodyBlock after).note (.targetsRestored T)) :=
    (S₃.branchOn c' on (x := bodyBlock) (y := after) (by simp) (by simp)).quiet rfl rfl rfl
  have i₃ : (b₃.branchOn c' on bodyBlock after).Within g := hg.startBlock
  obtain ⟨i₂, c₃⟩ := g₃ g i₃.branchOn
  obtain ⟨i₂, c₂⟩ := g₂ g i₂
  obtain ⟨i₁, c₁⟩ := g₁ g i₂.startBlock.branchOn
  rw [S₀'.point_start (by simp)] at c₁
  rw [S₁'.point_start (by simp [new'' (.inr (.inl rfl))])] at c₂
  subst h₄
  have entry := S₀'.has_start i₁
  have point : (b.created.created.created.note
      (.targetsNow (T.inLoop after pretest bodyBlock))).point = b.point := by
    simp [point, note]
  rw [point] at entry
  exact ⟨bodyBlock, after, pretest, _, _, _, entry, c₁, S₁.has_branchOn i₂.startBlock, c₂, c₃,
    S₃.has_branchOn i₃, S₃'.point_start (by simp [(new' (.inl rfl)).symm, new'' (.inl rfl)])⟩

variable {f : JumpKind → Code}

/-- Copies of a clause are laid out one behind the other. -/
lemma copies {kinds : List JumpKind} {inner inner' : JumpTargets} {cs : List Copy}
    (h : Copies T kinds inner b cs inner' b')
    (hc : ∀ c ∈ cs, (f c.kind).Embedded c.landing T c.start c.done) (S : Tidy K B b)
    (hT : T.names ⊆ K) :
    Tidy (K ∪ {n | ∃ c ∈ cs, n = c.landing}) B b' ∧ ∀ g : Graph, b'.Within g → b.Within g ∧
      ∀ c ∈ cs, ∃ x, (f c.kind).In g c.landing T (some (.start c.landing)) x ∧
        g.Has x (.jump c.target) := by
  induction h generalizing K with
  | nil => exact ⟨by simpa using S, fun g hg => ⟨hg, by simp⟩⟩
  | inactive _ _ ih => exact ih hc S hT
  | @active kind kinds inner inner' b done b' cs target ht rest ih =>
    have new := S.ne_fresh
    have S₀ : Tidy (insert b.fresh K) (insert b.fresh B)
        (b.created.note (.redirected kind b.fresh)) := S.created.quiet rfl rfl rfl
    have hT : T.names ⊆ insert b.fresh K := fun n h => Or.inr (hT h)
    obtain ⟨S₁, g₁⟩ := (hc _ (.head _)).behind (S₀.startBlock (Or.inl rfl)) (Or.inl rfl) hT
    have S₁' : Tidy (insert b.fresh K) B (done.jump target) :=
      (S₁.jump (hT ⟨kind, ht⟩)).mono subset_rfl
        fun n h => ⟨Or.inr h, new h⟩
    obtain ⟨S₂, g₂⟩ := ih (fun c h => hc c (.tail _ h)) S₁' hT
    refine ⟨S₂.mono ?_ subset_rfl, fun g hg => ?_⟩
    · rintro n (hn | ⟨c, _ | ⟨_, hc⟩, hn⟩)
      · exact Or.inl (Or.inr hn)
      · exact Or.inl (Or.inl hn)
      · exact Or.inr ⟨c, hc, hn⟩
    · obtain ⟨i₂, c₂⟩ := g₂ g hg
      obtain ⟨i₁, c₁⟩ := g₁ g i₂.emit
      have i₀ : b.created.Within g := i₁.startBlock
      refine ⟨i₀.created, ?_⟩
      rintro c (_ | ⟨_, hc⟩)
      · refine ⟨_, ?_, S₁.has_emit i₂⟩
        have point := S₀.point_start (n := b.fresh) (by simp)
        exact point ▸ c₁
      · exact c₂ c hc

lemma guarded {ensure : Code} {r : Region}
    (hc : ∀ c ∈ r.copies, (f c.kind).Embedded c.landing r.targets c.start c.done)
    (hb : body.Embedded r.bodyBlock r.bodyTargets r.bodyStart r.left)
    (he : ensure.Embedded r.ensureBlock r.targets r.clauseStart r.done) :
    (Code.guarded f body ensure).Held l r.targets r.start r.finish := by
  intro K B S hl hT g hg
  have new := S.ne_fresh
  have S₀ := S.created.jump (n := r.bodyBlock) (Or.inl rfl)
  have hT : r.targets.names ⊆ insert r.bodyBlock K := fun n h => Or.inr (hT h)
  obtain ⟨S₁, g₁⟩ := copies r.chain hc S₀ hT
  have hT₁ : r.bodyTargets.names ⊆
      insert r.bodyBlock K ∪ {n | ∃ c ∈ r.copies, n = c.landing} := by
    rintro n ⟨kind, h⟩
    obtain ⟨c, hc, -, hn⟩ := r.exists_copy h
    exact Or.inr ⟨c, hc, hn.symm⟩
  have S₁' : Tidy _ _ (r.landed.note (.targetsNow r.bodyTargets)) := S₁.quiet rfl rfl rfl
  obtain ⟨S₂, g₂⟩ := hb.behind (S₁'.startBlock (Or.inl (Or.inl rfl))) (Or.inl (Or.inl rfl)) hT₁
  have S₂' : Tidy (insert r.bodyBlock K) B r.restored :=
    (S₂.mono Set.subset_union_left fun n h => ⟨Or.inr h, new h⟩).quiet rfl rfl rfl
  have new' := S₂'.created.ne_fresh
  have S₃ := S₂'.created.created
  have hT₃ : r.targets.names ⊆ insert r.after (insert r.ensureBlock (insert r.bodyBlock K)) :=
    fun n h => Or.inr (Or.inr (hT h))
  obtain ⟨S₄, g₄⟩ := he.behind (S₃.startBlock (Or.inr (Or.inl rfl))) (Or.inr (Or.inl rfl)) hT₃
  -- the graph has grown from the last stage, and so from each stage before it
  obtain ⟨i₄, c₄⟩ := g₄ g hg.startBlock
  have i₃ : r.restored.created.created.Within g := i₄.startBlock
  have i₂ : r.left.Within g := i₃.created.created
  obtain ⟨i₁, c₂⟩ := g₂ g i₂
  have i₁' : r.landed.Within g := i₁.startBlock
  obtain ⟨i₀, c₁⟩ := g₁ g i₁'
  have entry := S.created.has_emit i₀
  rw [point_created] at entry
  have ended := S₃.has_start i₄
  rw [point_created, point_created] at ended
  have h₂ := S₁'.point_start (n := r.bodyBlock) (Or.inl rfl)
  have h₄ := S₃.point_start (n := r.ensureBlock) (Or.inr (Or.inl rfl))
  have h₅ := S₄.point_start (n := r.after) ⟨Or.inl rfl, (new' (.inl rfl)).symm⟩
  refine ⟨r.bodyBlock, r.ensureBlock, r.after, r.bodyTargets, _, _, entry, fun kind n h => ?_,
    h₂ ▸ c₂, ended, h₄ ▸ c₄, S₄.has_start hg, h₅⟩
  obtain ⟨c, hc, rfl, rfl⟩ := r.exists_copy h
  obtain ⟨x, hx, hx'⟩ := c₁ c hc
  exact ⟨c.target, x, r.chain.target c hc, hx, hx'⟩

/-- The body of a block literal is laid out, with a block for `next` if need be. -/
lemma runs (h₁ : landing = b.fresh) (h₂ : T' = T.inLoop after landing bodyBlock)
    (hb : body.Embedded bodyBlock T'
      ((b.reserveBlock.2.note (.targetsNow T')).startBlock bodyBlock) b₁)
    (S : Tidy K B b) (hT : T.names ⊆ K) (hbody : bodyBlock ∈ K) (hafter : after ∈ K)
    (blank : after ∈ B) (hne : after ≠ bodyBlock) {g : Graph}
    (hg : ((((b₁.endRun v bodyBlock after).note (.targetsRestored T)).land landing bodyBlock
      after).startBlock after).Within g) : b.Within g ∧ ((((b₁.endRun v bodyBlock after).note
        (.targetsRestored T)).land landing bodyBlock after).startBlock after).point =
          some (.start after) := by
  have new := S.ne_fresh
  have reserved : Tidy _ _ b.reserveBlock.2 := S.named (Or.inl rfl) rfl rfl
  have S₀ : Tidy _ _ (b.reserveBlock.2.note (.targetsNow T')) := reserved.quiet rfl rfl rfl
  rw [← h₁] at new S₀
  have hT' : T'.names ⊆ insert landing K := by
    rw [h₂]
    exact T.names_inLoop_subset (Or.inr hafter) (Or.inl rfl) (Or.inr hbody) fun n h => Or.inr (hT h)
  obtain ⟨S₁, g₁⟩ := hb.behind (S₀.startBlock (Or.inr hbody)) (Or.inr hbody) hT'
  have S₂ : Tidy _ _ ((b₁.endRun v bodyBlock after).note (.targetsRestored T)) :=
    ((S₁.plain (i := .resume v) rfl).branch (c := none) (x := bodyBlock) (y := after) (Or.inr hbody)
      (Or.inr hafter)).quiet rfl rfl rfl
  have S₃ := S₂.land (n := landing) (x := bodyBlock) (y := after) (Or.inl rfl) (Or.inr hbody)
    (Or.inr hafter)
  have i₂ : (b₁.endRun v bodyBlock after).Within g := hg.startBlock.land
  have i₀ : b.reserveBlock.2.Within g := (g₁ g i₂.endRun).1.startBlock
  exact ⟨i₀, S₃.point_start ⟨⟨Or.inr blank, hne⟩, new blank⟩⟩

lemma blockCall {params : List Parameter} {closure : Binding} {dest : Option Binding}
    {callee : Callee} {request : Code} {args : Arguments} {b₄ : Builder} (h₁ : after = b.fresh)
    (h₃ : b₁ = b.created.allocTemp.2) (h₄ : bodyBlock = b₁.fresh)
    (hr : request.Embedded after T (b₁.created.emit (.closure closure params bodyBlock)) b₂)
    (h₅ : b₃ = (b₂.emit (.send dest callee args (.body bodyBlock))).branch none bodyBlock after)
    (h₆ : landing = b₃.fresh) (h₇ : T' = T.inLoop after landing bodyBlock)
    (hb : body.Embedded bodyBlock T'
      ((b₃.reserveBlock.2.note (.targetsNow T')).startBlock bodyBlock) b₄) :
    (Code.blockCall params closure dest callee request args body v).Held l T b
      ((((b₄.endRun v bodyBlock after).note (.targetsRestored T)).land landing bodyBlock
        after).startBlock after) := by
  intro K B S hl hT g hg
  obtain ⟨S₀, -⟩ := S.made h₁
  have S₁ : Tidy (insert after K) (insert after B) b₁ := by
    rw [h₃]
    exact S₀.quiet rfl rfl rfl
  obtain ⟨S₁', new⟩ := S₁.made h₄
  have hT : T.names ⊆ insert bodyBlock (insert after K) := fun n h => Or.inr (Or.inr (hT h))
  obtain ⟨S₂, g₂⟩ := hr.behind (S₁'.plain (i := .closure closure params bodyBlock) rfl)
    (Or.inr (Or.inl rfl)) hT
  have S₂' := S₂.plain (i := .send dest callee args (.body bodyBlock)) rfl
  have S₃ := S₂'.branch (c := none) (x := bodyBlock) (y := after) (Or.inl rfl) (Or.inr (Or.inl rfl))
  rw [← h₅] at S₃
  obtain ⟨i₃, point⟩ := runs h₆ h₇ hb S₃ hT (Or.inl rfl) (Or.inr (Or.inl rfl)) (Or.inr (Or.inl rfl))
    (new (.inl rfl)) hg
  rw [h₅] at i₃
  obtain ⟨i₂, c₂⟩ := g₂ g i₃.emit.emit
  have entry := S₁'.has_emit i₂
  have start : b₁.created.point = b.point := by
    rw [h₃, point_created]
    exact point_created b
  have next := S₁'.point_emit (i := .closure closure params bodyBlock) rfl
  rw [start] at entry next
  refine ⟨bodyBlock, after, _, _, entry, next, c₂, S₂.has_emit i₃.emit, ?_, point⟩
  intro p hp
  obtain ⟨q, hq, rfl⟩ := Option.map_eq_some_iff.1 hp
  exact S₂'.has_emit i₃ _ (S₂.point_emit rfl q hq)

end Held

/-- **A graph that grows from the layout of code holds the code.** -/
theorem Lays.held {c : Code} (h : c.Lays l T b b') : c.Held l T b b' := by
  induction h with
  | skip => exact fun K B S _ _ g hg => rfl
  | seq hp hq ihp ihq =>
    intro K B S hl hT g hg
    obtain ⟨S₁, g₁⟩ := Embedded.behind ⟨hp.growth, ihp⟩ S hl hT
    exact ⟨_, (g₁ g (hg.back hq.growth)).2, ihq S₁ hl hT g hg⟩
  | alloc => exact fun K B S _ _ g hg => rfl
  | @emit i plain => exact fun K B S _ _ g hg => ⟨S.has_emit hg, S.point_emit plain⟩
  | jump h => exact fun K B S _ hT g hg => ⟨_, h, S.has_emit hg⟩
  | leave => exact fun K B S hl _ g hg => S.has_emit hg
  | twoWays h₁ h₂ h₃ ht hf hs iht ihf ihs =>
    exact .twoWays h₁ h₂ h₃ ⟨ht.growth, iht⟩ ⟨hf.growth, ihf⟩ ⟨hs.growth, ihs⟩
  | detour h₁ h₂ hw ihw => exact .detour h₁ h₂ ⟨hw.growth, ihw⟩
  | join h₁ hw ihw =>
    intro K B S hl hT g hg
    obtain ⟨S₀, -⟩ := S.made h₁
    obtain ⟨S₁, g₁⟩ := Embedded.behind ⟨hw.growth, ihw⟩ S₀ (by simp) (fun n h => Or.inr (hT h))
    obtain ⟨-, c₁⟩ := g₁ g hg.startBlock
    simp only [point_created] at c₁
    exact ⟨_, _, c₁, S₁.has_start hg, S₁.point_start (by simp)⟩
  | clause h₁ ht hb iht ihb => exact .clause h₁ ⟨ht.growth, iht⟩ ⟨hb.growth, ihb⟩
  | clauseElse h₁ h₂ ht hb hr iht ihb ihr =>
    exact .clauseElse h₁ h₂ ⟨ht.growth, iht⟩ ⟨hb.growth, ihb⟩ ⟨hr.growth, ihr⟩
  | test h₁ hi ihi =>
    intro K B S hl hT g hg
    obtain ⟨S₀, -⟩ := S.made h₁
    obtain ⟨S₁, g₁⟩ := Embedded.behind ⟨hi.growth, ihi⟩ S₀ (Or.inr hl) (fun n h => Or.inr (hT h))
    obtain ⟨-, c₁⟩ := g₁ g hg.startBlock.emit
    simp only [point_created] at c₁
    exact ⟨_, _, c₁, S₁.has_emit hg.startBlock,
      (S₁.branch (Or.inr hl) (by simp)).point_start (by simp)⟩
  | select h₁ ht hb iht ihb => exact .select h₁ ⟨ht.growth, iht⟩ ⟨hb.growth, ihb⟩
  | loop h₁ h₂ h₃ hT' ht hb ha iht ihb iha =>
    exact .loop h₁ h₂ h₃ hT' ⟨ht.growth, iht⟩ ⟨hb.growth, ihb⟩ ⟨ha.growth, iha⟩
  | block h₁ hb ihb =>
    intro K B S hl hT g hg
    obtain ⟨S₀, -⟩ := S.made h₁
    have S₀' := S₀.jump (Or.inl rfl)
    obtain ⟨-, g₁⟩ := Embedded.behind ⟨hb.growth, ihb⟩ (S₀'.startBlock (by simp)) (by simp)
      (fun n h => Or.inr (hT h))
    obtain ⟨i₁, c₁⟩ := g₁ g hg
    rw [S₀'.point_start (by simp)] at c₁
    have entry := S₀.has_emit i₁.startBlock
    simp only [point_created] at entry
    exact ⟨_, entry, c₁⟩
  | guarded hc hb he ihc ihb ihe =>
    exact .guarded (fun c hm => ⟨(hc c hm).growth, ihc c hm⟩) ⟨hb.growth, ihb⟩ ⟨he.growth, ihe⟩
  | blockCall h₁ h₂ h₃ h₄ hr h₅ h₆ hT' hb ihr ihb =>
    exact .blockCall h₁ h₃ h₄ ⟨hr.growth, ihr⟩ h₅ h₆ hT' ⟨hb.growth, ihb⟩

end Code

end ControlFlow
