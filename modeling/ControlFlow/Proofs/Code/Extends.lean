import ControlFlow.Proofs.Code.Basic
/-!
# How code grows a graph

Laying out code fills only the current block and new ones, and leads only to the label, to targets of
jumps, and to new blocks. This is what makes code local: whatever has been laid out before stays as
it was.
-/

namespace ControlFlow

open Builder

/-- The blocks around code that it may lead to. -/
def Code.around (l : BlockName) (T : JumpTargets) : Set BlockName := insert l T.names

variable {l : BlockName} {T : JumpTargets} {b b' : Builder}

lemma Code.label_mem : l ∈ around l T := Set.mem_insert _ _

lemma Code.names_subset : T.names ⊆ around l T :=
  Set.subset_insert _ _

/-- Code is laid out behind what came before. -/
lemma Builder.Extends.code_laid {W S : Set BlockName} {b₀ : Builder} (h : Extends W S b₀ b)
    (h' : Extends {n | b.At n} (Code.around l T) b b') (hl : l ∈ S) (hT : T.names ⊆ S) :
    Extends W S b₀ b' :=
  h.trans h' (fun n hn => h.current n hn)
    ((Set.insert_subset hl hT).trans Set.subset_union_left)

/-- The targets inside of a loop are those around it and new ones. -/
lemma JumpTargets.names_inLoop_subset {after next bodyBlock : BlockName} {S : Set BlockName}
    (ha : after ∈ S) (hn : next ∈ S) (hb : bodyBlock ∈ S) (hT : T.names ⊆ S) :
    (T.inLoop after next bodyBlock).names ⊆ S := by
  refine (T.names_inLoop _ _ _).trans (Set.union_subset ?_ hT)
  rintro n (rfl | rfl | rfl) <;> assumption

/-! ## Growth around new blocks -/

/-- What code fills that starts in the current block of `b` and goes on in blocks that are made
first. -/
abbrev Builder.fills (b : Builder) (N : Set BlockName) : Set BlockName := {n | b.At n} ∪ N

/-- Blocks have been made first, and from there on code grows to `b'`. -/
abbrev Builder.GrowsFrom (b : Builder) (S N : Set BlockName) (made b' : Builder) : Prop :=
  Extends (b.fills N) (S ∪ N) made made → Extends (b.fills N) (S ∪ N) made b'

section Made

variable {S : Set BlockName} {P : Prop}

/-- One block is made first. -/
lemma Builder.grows_one (h : b.GrowsFrom S {b.fresh} b.created b') :
    Extends {n | b.At n} S b b' ∧ (P → b.nextBlock < b'.nextBlock) := by
  have later := h (.refl fun _ h => Or.inl h)
  refine ⟨Extends.self.created.enclose ?_ later, fun _ => later.next⟩
  rintro n rfl
  exact fresh_mem_since.2 ⟨le_rfl, Nat.lt_succ_self _⟩

/-- Two blocks are made first. -/
lemma Builder.grows_two
    (h : b.GrowsFrom S {b.fresh, b.created.fresh} b.created.created b') :
    Extends {n | b.At n} S b b' ∧ (P → b.nextBlock < b'.nextBlock) := by
  have later := h (.refl fun _ h => Or.inl h)
  refine ⟨Extends.self.created.created.enclose ?_ later, fun _ =>
    (Nat.lt_add_of_pos_right Nat.two_pos).trans_le later.next⟩
  rintro n (rfl | rfl) <;> refine fresh_mem_since.2 ?_ <;> simp only [nextBlock_created] <;> omega

/-- Three blocks are made first. -/
lemma Builder.grows_three
    (h : b.GrowsFrom S {b.fresh, b.created.fresh, b.created.created.fresh}
      b.created.created.created b') :
    Extends {n | b.At n} S b b' ∧ (P → b.nextBlock < b'.nextBlock) := by
  have later := h (.refl fun _ h => Or.inl h)
  refine ⟨Extends.self.created.created.created.enclose ?_ later, fun _ =>
    (Nat.lt_add_of_pos_right (Nat.succ_pos 2)).trans_le later.next⟩
  rintro n (rfl | rfl | rfl) <;> refine fresh_mem_since.2 ?_ <;>
    simp only [nextBlock_created] <;> omega

end Made

/-! ## Regions -/

lemma JumpTargets.names_empty : (({} : JumpTargets).names : Set BlockName) = ∅ := by
  ext n
  simp only [names, Set.mem_ofPred_eq, Set.mem_empty_iff_false, iff_false]
  rintro ⟨kind, h⟩
  cases kind <;> cases h

namespace Copies

variable {inner inner' : JumpTargets} {kinds : List JumpKind} {cs : List Copy}

/-- A copy leads where jumps lead outside. -/
lemma grows_copy {c : Copy} (ht : T.get? c.kind = some c.target)
    (hc : Extends {n | c.start.At n} (Code.around c.landing T) c.start c.done) :
    Extends {n | c.before.At n} T.names c.before c.after ∧ c.landing ∈ c.blocks := by
  have made : Extends (c.before.fills {c.landing}) (T.names ∪ {c.landing}) c.before.created
      c.after := by
    have r : Extends (c.before.fills {c.landing}) (T.names ∪ {c.landing}) c.before.created
      c.before.created := .refl fun _ h => Or.inl h
    have r := (r.note (.redirected c.kind c.landing)).startBlock (n := c.landing) (Or.inr rfl)
      (Or.inr rfl)
    exact (r.code_laid hc (Or.inr rfl) Set.subset_union_left).jump (Or.inl ⟨c.kind, ht⟩)
  exact ⟨(grows_one (P := True) fun _ => made).1, fresh_mem_since.2 ⟨le_rfl, made.next⟩⟩

/-- Copies lead where jumps lead outside, and their landings are new. -/
lemma growth (h : Copies T kinds inner b cs inner' b')
    (hc : ∀ c ∈ cs, Extends {n | c.start.At n} (Code.around c.landing T) c.start c.done) :
    Extends {n | b.At n} T.names b b' ∧ inner'.names ⊆ inner.names ∪ b.since b' := by
  induction h with
  | nil => exact ⟨.refl fun _ h => h, Set.subset_union_left⟩
  | inactive _ _ ih => exact ih hc
  | @active kind kinds inner inner' b done b' cs target ht rest ih =>
    obtain ⟨first, landing⟩ := grows_copy (c := ⟨kind, target, b, done⟩) ht (hc _ (.head _))
    obtain ⟨others, hi⟩ := ih fun c hc' => hc c (.tail _ hc')
    refine ⟨first.trans others first.current Set.subset_union_left, hi.trans ?_⟩
    obtain ⟨h₁, h₂⟩ := first.since_subset others
    exact Set.union_subset ((JumpTargets.names_set _ _ _).trans
      (Set.insert_subset (Or.inr (h₁ landing)) Set.subset_union_left))
      (h₂.trans Set.subset_union_right)

end Copies

/-- All stages of the region grow the graph as code does. -/
structure Region.Grows (r : Region) : Prop where
  copy : ∀ c ∈ r.copies,
    Extends {n | c.start.At n} (Code.around c.landing r.targets) c.start c.done
  body : Extends {n | r.bodyStart.At n} (Code.around r.bodyBlock r.bodyTargets) r.bodyStart r.left
  clause : Extends {n | r.clauseStart.At n} (Code.around r.ensureBlock r.targets) r.clauseStart
    r.done

namespace Region.Grows

variable {r : Region} (h : r.Grows)

include h

/-- The entry and the copies. -/
lemma landed :
    Extends {n | r.start.At n} r.targets.names r.start r.landed ∧ r.bodyBlock ∈ r.start.since r.landed ∧
      r.inner.names ⊆ r.start.since r.landed := by
  obtain ⟨copies, inner⟩ := r.chain.growth h.copy
  have made : Extends (r.start.fills {r.bodyBlock}) (r.targets.names ∪ {r.bodyBlock})
      r.start.created r.landed := by
    have s : Extends (r.start.fills {r.bodyBlock}) (r.targets.names ∪ {r.bodyBlock})
        r.start.created r.start.created := .refl fun _ h => Or.inl h
    have entered := s.jump (n := r.bodyBlock) (Or.inr rfl)
    refine entered.trans copies entered.current ?_
    exact Set.subset_union_left.trans Set.subset_union_left
  refine ⟨(grows_one (P := True) fun _ => made).1, fresh_mem_since.2 ⟨le_rfl, made.next⟩, ?_⟩
  rw [JumpTargets.names_empty, Set.empty_union] at inner
  have entered : Extends Set.univ Set.univ r.start (r.start.created.jump r.start.fresh) :=
    (Extends.any.created).jump trivial
  exact inner.trans (entered.since_subset copies).2

/-- The statements. -/
lemma left : Extends ({r.bodyBlock} ∪ {n | r.landed.At n}) (Code.around r.bodyBlock r.bodyTargets)
    r.landed r.left := by
  have begun : Extends ({r.bodyBlock} ∪ {n | r.landed.At n})
      (Code.around r.bodyBlock r.bodyTargets) r.landed r.bodyStart :=
    ((Extends.refl fun _ h => Or.inr h).note _).startBlock (Or.inl rfl) Code.label_mem
  exact begun.code_laid h.body Code.label_mem Code.names_subset

/-- The clause on the way through. -/
lemma finish : Extends {n | r.left.At n} r.targets.names r.left r.finish := by
  have grown : Extends {n | r.restored.At n} r.targets.names r.restored r.finish := by
    refine (grows_two (P := True) fun s => ?_).1
    have s := (s.startBlock (n := r.ensureBlock) (by simp [ensureBlock]) (by simp [ensureBlock]))
    have s := s.code_laid h.clause (by simp [ensureBlock]) Set.subset_union_left
    exact s.startBlock (by simp [after]) (by simp [after])
  have noted : Extends {n | r.left.At n} r.targets.names r.left r.restored :=
    Extends.self.note _
  exact noted.trans grown noted.current Set.subset_union_left

lemma growth : Extends {n | r.start.At n} r.targets.names r.start r.finish := by
  obtain ⟨landed, body, inner⟩ := h.landed
  have left : Extends {n | r.start.At n} r.targets.names r.start r.left := by
    refine landed.trans h.left (Set.union_subset ?_ landed.current) ?_
    · exact Set.singleton_subset_iff.2 (Or.inr body)
    · refine Set.insert_subset (Or.inr body) ?_
      refine (JumpTargets.names_overlay _ _).trans (Set.union_subset ?_ Set.subset_union_left)
      exact inner.trans Set.subset_union_right
  exact left.trans h.finish left.current Set.subset_union_left

end Region.Grows

/-- Code that makes blocks, whatever its parts are. -/
def Code.Makes : Code → Prop
  | .skip | .seq .. | .alloc | .emit .. | .jump _ | .leave => False
  | _ => True

lemma Code.Lays.growth_strict {c : Code} (h : c.Lays l T b b') :
    Extends {n | b.At n} (Code.around l T) b b' ∧ (c.Makes → b.nextBlock < b'.nextBlock) := by
  have inside : ∀ (l : BlockName) (T : JumpTargets) (N : Set BlockName),
      l ∈ around l T ∪ N ∧ T.names ⊆ around l T ∪ N :=
    fun l T N => ⟨Or.inl label_mem, names_subset.trans Set.subset_union_left⟩
  induction h with
  | skip => exact ⟨.refl fun _ h => h, False.elim⟩
  | seq _ _ ihp ihq => exact ⟨ihp.1.code_laid ihq.1 label_mem names_subset, False.elim⟩
  | alloc => exact ⟨Extends.self.allocTemp, False.elim⟩
  | @emit i plain =>
    exact ⟨Extends.self.plain (Instruction.targets_eq_nil plain), False.elim⟩
  | jump h => exact ⟨Extends.self.jump (names_subset ⟨_, h⟩), False.elim⟩
  | leave => exact ⟨Extends.self.jump label_mem, False.elim⟩
  | @twoWays x f s c on l ifTrue ifFalse after T b b₁ b₂ b₃ h₁ h₂ h₃ _ _ _ iht ihf ihs =>
    subst h₁ h₂ h₃
    obtain ⟨-, hT⟩ := inside l T {b.fresh, b.created.fresh, b.created.created.fresh}
    refine grows_three fun r => ?_
    have r := (r.code_laid iht.1 (by simp) hT).branch (c := some c) (x := b.fresh)
      (y := b.created.fresh) (by simp) (by simp)
    have r := (r.startBlock (n := if on then b.fresh else b.created.fresh)
      (by cases on <;> simp) (by cases on <;> simp)).code_laid ihf.1 (by simp) hT
    have r := (r.jump (n := b.created.created.fresh) (by simp)).startBlock
      (n := if on then b.created.fresh else b.fresh) (by cases on <;> simp) (by cases on <;> simp)
    exact ((r.code_laid ihs.1 (by simp) hT).jump (by simp)).startBlock (by simp) (by simp)
  | @detour c on way l taken after T b b₁ h₁ h₂ _ ihw =>
    subst h₁ h₂
    obtain ⟨-, hT⟩ := inside l T {b.fresh, b.created.fresh}
    refine grows_two fun r => ?_
    have r := (r.branchOn c on (x := b.fresh) (y := b.created.fresh) (by simp)
      (by simp)).startBlock (n := b.fresh) (by simp) (by simp)
    exact (r.code_laid ihw.1 (by simp) hT).startBlock (by simp) (by simp)
  | @join ways l after T b b₁ h₁ _ ihw =>
    subst h₁
    obtain ⟨-, hT⟩ := inside l T {b.fresh}
    exact grows_one fun r => (r.code_laid ihw.1 (by simp) hT).startBlock (by simp) (by simp)
  | @clause on x body c l taken T b b₁ b₂ h₁ _ _ iht ihb =>
    subst h₁
    obtain ⟨hl, hT⟩ := inside l T {b.fresh}
    refine grows_one fun r => ?_
    have r := (r.code_laid iht.1 hl hT).branchOn c on (x := b.fresh) (by simp) hl
    exact ((r.startBlock (by simp) (by simp)).code_laid ihb.1 hl hT).jump hl
  | @clauseElse on x body rest c l taken other T b b₁ b₂ b₃ h₁ h₂ _ _ _ iht ihb ihr =>
    subst h₁ h₂
    obtain ⟨hl, hT⟩ := inside l T {b.fresh, b.created.fresh}
    refine grows_two fun r => ?_
    have r := (r.code_laid iht.1 hl hT).branchOn c on (x := b.fresh)
      (y := b.created.fresh) (by simp) (by simp)
    have r := ((r.startBlock (by simp) (by simp)).code_laid ihb.1 hl hT).jump hl
    exact (r.startBlock (by simp) (by simp)).code_laid ihr.1 hl hT
  | @test inner c l failed T b b₁ h₁ _ ihi =>
    subst h₁
    obtain ⟨hl, hT⟩ := inside l T {b.fresh}
    exact grows_one fun r =>
      ((r.code_laid ihi.1 hl hT).branch hl (by simp)).startBlock (by simp) (by simp)
  | @select tests body l bodyBlock T b b₁ b₂ h₁ _ _ iht ihb =>
    subst h₁
    obtain ⟨hl, hT⟩ := inside l T {b.fresh}
    refine grows_one fun r => ?_
    have r := r.code_laid iht.1 (by simp) hT
    have r' := (r.suspend.startBlock (by simp) (by simp)).code_laid ihb.1 hl hT
    have later := (((Extends.refl (b := b₁.suspend.2) (W := Set.univ) (S := Set.univ)
      (by simp)).startBlock (n := b.fresh) trivial trivial).code_laid ihb.1 trivial
      (Set.subset_univ _)).jump (n := l) trivial
    exact (r'.jump hl).resume
      (fun n hn => (r.current n hn).imp_right fun h => ⟨h.1.mono later.next, h.2⟩)
      fun rooted n hn => later.names n (r.rooted rooted n hn)
  | @loop on x body again c c' l bodyBlock after pretest T T' b b₁ b₂ b₃ h₁ h₂ h₃ hT' _ _ _
      iht ihb iha =>
    subst h₁ h₂ h₃ hT'
    obtain ⟨-, hT⟩ := inside l T {b.fresh, b.created.fresh, b.created.created.fresh}
    have hT : (T.inLoop b.created.fresh b.created.created.fresh b.fresh).names ⊆ _ :=
      T.names_inLoop_subset (by simp) (by simp) (by simp) hT
    refine grows_three fun r => ?_
    have r := ((r.note _).startBlock (by simp) (by simp)).code_laid iht.1 (by simp) hT
    have r := (r.branchOn c on (x := b.fresh) (y := b.created.fresh) (by simp)
      (by simp)).startBlock (n := b.fresh) (by simp) (by simp)
    have r := (r.code_laid ihb.1 (by simp) hT).code_laid iha.1 (by simp) hT
    exact ((r.branchOn c' on (by simp) (by simp)).note _).startBlock (by simp) (by simp)
  | @block body l bodyBlock T b b₁ h₁ _ ihb =>
    subst h₁
    obtain ⟨-, hT⟩ := inside l T {b.fresh}
    exact grows_one fun r =>
      ((r.jump (by simp)).startBlock (by simp) (by simp)).code_laid ihb.1 (by simp) hT
  | @guarded _ _ _ _ r _ _ _ ihc ihb ihe =>
    have grows : r.Grows := ⟨fun c hc => (ihc c hc).1, ihb.1, ihe.1⟩
    refine ⟨grows.growth.mono (fun _ h => h) names_subset, fun _ => ?_⟩
    obtain ⟨-, ⟨knows, new⟩, -⟩ := grows.landed
    have := (fresh_mem_since.1 (⟨knows, new⟩ : r.start.fresh ∈ r.start.since r.landed)).2
    exact (this.trans_le grows.left.next).trans_le grows.finish.next
  | @blockCall params closure dest callee request body args v l after bodyBlock landing T T' b b₁ b₂
      b₃ b₄ h₁ h₂ h₃ h₄ _ h₅ h₆ hT' _ ihr ihb =>
    subst h₁ h₂ h₃ h₆ hT'
    obtain rfl : bodyBlock = b.created.fresh := h₄
    obtain ⟨-, hT⟩ := inside l T {b.fresh, b.created.fresh}
    refine grows_two fun r => ?_
    have r : Extends _ _ _ b.created.allocTemp.2.created := r.quiet rfl rfl rfl
    have r := (r.plain (i := .closure b.created.allocTemp.1 params b.created.fresh) rfl).code_laid ihr.1
      (by simp) hT
    have r := (r.plain (i := .send dest callee args (.body b.created.fresh)) rfl).branch (c := none)
      (x := b.created.fresh) (y := b.fresh) (by simp) (by simp)
    rw [← h₅] at r
    have ended : b₃.current = none := h₅ ▸ current_branch ..
    -- the block for `next` is named only here
    refine r.trans ?_ Set.subset_union_left Set.subset_union_left
    refine (Extends.refl fun n hn => by simp [At, ended] at hn).reserveBlock.enclose
      (N := {b₃.fresh}) (by rintro n rfl; exact fresh_mem_since.2 ⟨le_rfl, Nat.lt_succ_self _⟩) ?_
    have s : Extends (b.fills {b.fresh, b.created.fresh} ∪ {b₃.fresh})
        (around l T ∪ {b.fresh, b.created.fresh} ∪ {b₃.fresh}) b₃.reserveBlock.2 b₃.reserveBlock.2 :=
      .refl fun n hn => by simp [At, Builder.reserveBlock, ended] at hn
    have hT : (T.inLoop b.fresh b₃.fresh b.created.fresh).names ⊆ _ :=
      T.names_inLoop_subset (by simp) (by simp) (by simp)
        (hT.trans (Set.subset_union_left (t := {b₃.fresh})))
    have s := ((s.note _).startBlock (n := b.created.fresh) (by simp) (by simp)).code_laid ihb.1
      (by simp) hT
    have s := (s.endRun (v := v) (x := b.created.fresh) (y := b.fresh) (by simp) (by simp)).note
      (.targetsRestored T)
    exact (s.land (by simp) (by simp) (by simp) (by simp)).startBlock (by simp) (by simp)

/-- **Code fills only the current block and new ones, and leads only to what is around it and to new
blocks.** -/
theorem Code.Lays.growth {c : Code} (h : c.Lays l T b b') :
    Extends {n | b.At n} (Code.around l T) b b' :=
  h.growth_strict.1

end ControlFlow

