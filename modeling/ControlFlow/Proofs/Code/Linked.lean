import ControlFlow.Lowering.Build
import ControlFlow.Proofs.Code.Plan
import ControlFlow.Proofs.Lowering.Related
/-!
# Walks lay out planned code

Every walk that lowers a tree lays out code that the plan of the tree allows. This splits what is to
be proved about lowering in two: what code a tree has, which is read off its plan, and what becomes
of code in a graph, which does not depend on trees.

The main result is `Lowering.outcome_lays`.
-/

namespace ControlFlow

/-! ## Temporaries

Only `allocTemp` takes a temporary. -/

namespace Builder

variable (b : Builder)

@[simp] lemma nextTemp_note (e : Event) : (b.note e).nextTemp = b.nextTemp := rfl

@[simp] lemma nextTemp_createBlock : b.createBlock.2.nextTemp = b.nextTemp := rfl

@[simp] lemma nextTemp_reserveBlock : b.reserveBlock.2.nextTemp = b.nextTemp := rfl

@[simp] lemma nextTemp_allocTemp : b.allocTemp.2.nextTemp = b.nextTemp + 1 := rfl

@[simp] lemma nextTemp_suspend : b.suspend.2.nextTemp = b.nextTemp := rfl

@[simp] lemma nextTemp_resume (name : Option BlockName) :
    (b.resume name).nextTemp = b.nextTemp := rfl

@[simp] lemma nextTemp_emit (i : Instruction) : (b.emit i).nextTemp = b.nextTemp := by
  unfold emit openBlock
  cases b.current <;> rfl

@[simp] lemma nextTemp_jump (target : BlockName) : (b.jump target).nextTemp = b.nextTemp :=
  b.nextTemp_emit _

@[simp] lemma nextTemp_branch (c : Option Binding) (ifTrue ifFalse : BlockName) :
    (b.branch c ifTrue ifFalse).nextTemp = b.nextTemp :=
  b.nextTemp_emit _

@[simp] lemma nextTemp_branchOn (c : Binding) (on : Bool) (taken other : BlockName) :
    (b.branchOn c on taken other).nextTemp = b.nextTemp := by
  unfold branchOn
  split <;> simp

@[simp] lemma nextTemp_startBlock (name : BlockName) :
    (b.startBlock name).nextTemp = b.nextTemp := by
  unfold startBlock
  cases b.current <;> simp

end Builder

/-! ## Walks and plans -/

/-- Every result of the walk comes with code that the plan allows. The walk lays it out and leaves
the rest of the state as it was. -/
def Linked {α : Type} (w : Walk α) (p : Plan α) : Prop :=
  ∀ b T d a s', w.Yields ⟨b, T, d⟩ a s' → ∃ b' c, s' = ⟨b', T, d⟩ ∧
    p T.kinds b.nextTemp a c b'.nextTemp ∧ ∀ l, c.Lays l T b b'

namespace Linked

open WalkT

variable {α β : Type}

lemma pure (a : α) : Linked (Pure.pure a) (Pure.pure a) := by
  intro b T d a' s' h
  obtain ⟨rfl, rfl⟩ := yields_pure.1 h
  exact ⟨b, .skip, rfl, ⟨rfl, rfl, rfl⟩, fun _ => .skip⟩

variable {a' : Alternative Plan} {kinds : List JumpKind} {a : Alternative Walk}
  {inner' inner : JumpTargets} {f : α → Walk β}

lemma bind {x : Walk α} {x' : Plan α} {f' : α → Plan β} (hx : Linked x x')
    (hf : ∀ a, Linked (f a) (f' a)) : Linked (x >>= f) (x' >>= f') := by
  intro b T d r s' h
  obtain ⟨a, s₁, h₁, h₂⟩ := yields_bind.1 h
  obtain ⟨b₁, p, rfl, hp, hlp⟩ := hx _ _ _ _ _ h₁
  obtain ⟨b₂, q, rfl, hq, hlq⟩ := hf a _ _ _ _ _ h₂
  exact ⟨b₂, .seq p q, rfl, ⟨a, p, _, q, hp, hq, rfl⟩, fun l => .seq (hlp l) (hlq l)⟩

variable {c' : Plan Binding} {c : Walk Binding} {x' y' : Plan Unit} {x y : Walk Unit}
  {T : JumpTargets} {b : Builder}

/-- The first part of a walk, if it is linked to a plan. -/
lemma split {x : Walk α} {x' : Plan α} (hx : Linked x x') {d : Nat} {r : β} {s' : WalkState}
    (h : (x >>= f).Yields ⟨b, T, d⟩ r s') :
    ∃ a p b₁, x' T.kinds b.nextTemp a p b₁.nextTemp ∧ (∀ l, p.Lays l T b b₁) ∧
      (f a).Yields ⟨b₁, T, d⟩ r s' := by
  obtain ⟨a, s₁, h₁, h₂⟩ := yields_bind.1 h
  obtain ⟨b₁, p, rfl, hp, hl⟩ := hx _ _ _ _ _ h₁
  exact ⟨a, p, b₁, hp, hl, h₂⟩

lemma emit (i : Instruction) (plain : i.isTerminator = false) :
    Linked (WalkT.emit i) (Construction.emit i plain) := by
  intro b T d a s' h
  obtain rfl := yields_build.1 h
  exact ⟨_, .emit i plain, rfl, ⟨rfl, by simp⟩, fun _ => .emit⟩

lemma jumpOut (info : Info) (kind : JumpKind) (hx : Linked x x') :
    Linked (WalkT.jumpOut info kind x) (Construction.jumpOut info kind x') := by
  intro b T d a s' h
  obtain ⟨target, _, h₁, h⟩ := yields_bind.1 h
  obtain ⟨ht, rfl⟩ := yields_jumpTarget.1 h₁
  obtain ⟨_, p, b₁, hp, hl, h⟩ := hx.split h
  obtain rfl := yields_build.1 h
  refine ⟨b₁.jump target, .seq p (.jump kind), rfl, ⟨?_, p, ?_, rfl⟩,
    fun l => .seq (hl l) (.jump ht)⟩
  · simp [JumpTargets.kinds, ht]
  · simpa using hp

lemma twoWays {t : Walk Binding} {t' : Plan Binding} (on : Bool) (ht : Linked t t')
    (hx : Linked x x') (hy : Linked y y') :
    Linked (WalkT.twoWays t on x y) (Construction.twoWays t' on x' y') := by
  intro b T d a s' h
  simp only [WalkT.twoWays, WalkT.createBlock, yields_take_bind] at h
  obtain ⟨c, p, b₁, hp, hlp, h⟩ := ht.split h
  simp only [WalkT.branch, WalkT.startBlock, yields_build_bind] at h
  obtain ⟨_, q, b₂, hq, hlq, h⟩ := hx.split h
  simp only [WalkT.jump, yields_build_bind] at h
  obtain ⟨_, r, b₃, hr, hlr, h⟩ := hy.split h
  simp only [yields_build_bind, yields_build] at h
  refine ⟨_, .twoWays p c on q r, h, ⟨c, p, _, q, b₂.nextTemp, r, hp, ?_, ?_, rfl⟩,
    fun l => .twoWays rfl rfl rfl (hlp _) (hlq _) (hlr _)⟩
  · simpa using hq
  · simpa using hr

lemma detour (c : Binding) (on : Bool) (hx : Linked x x') :
    Linked (WalkT.detour c on x) (Construction.detour c on x') := by
  intro b T d a s' h
  simp only [WalkT.detour, WalkT.createBlock, WalkT.branchOn, WalkT.startBlock, yields_take_bind,
    yields_build_bind] at h
  obtain ⟨_, p, b₁, hp, hl, h⟩ := hx.split h
  refine ⟨_, .detour c on p, yields_build.1 h, ⟨p, ?_, rfl⟩, fun l => .detour rfl rfl (hl _)⟩
  simpa using hp

/-! ## Conditionals -/

/-- A walk in front of a label lays out code that the plan allows. -/
def At {α : Type} (after : BlockName) (w : Walk α) (p : Plan α) : Prop :=
  ∀ b T d a s', w.Yields ⟨b, T, d⟩ a s' → ∃ b' c, s' = ⟨b', T, d⟩ ∧
    p T.kinds b.nextTemp a c b'.nextTemp ∧ c.Lays after T b b'

lemma thenLeave (hx : Linked x x') (after : BlockName) :
    At after (do x; WalkT.jump after) (Plan.thenLeave x') := by
  intro b T d a s' h
  obtain ⟨_, p, b₁, hp, hl, h⟩ := hx.split h
  refine ⟨_, .seq p .leave, yields_build.1 h, ⟨p, ?_, rfl⟩, .seq (hl _) .leave⟩
  simpa using hp

lemma clause (after : BlockName) (on : Bool) (hc : Linked c c') (hx : Linked x x') :
    At after (WalkT.clause after on c x none) (Plan.clause on c' x' none) := by
  intro b T d a s' h
  simp only [WalkT.clause, WalkT.createBlock, yields_take_bind] at h
  obtain ⟨v, p, b₁, hp, hlp, h⟩ := hc.split h
  simp only [WalkT.branchOn, WalkT.startBlock, yields_build_bind] at h
  obtain ⟨_, q, b₂, hq, hlq, h⟩ := hx.split h
  refine ⟨_, .clause on p v q, yields_build.1 h, ⟨v, p, _, q, hp, ?_, rfl⟩,
    .clause rfl (hlp _) (hlq _)⟩
  simpa using hq

lemma clauseElse {after : BlockName} (on : Bool) (hc : Linked c c') (hx : Linked x x')
    (hy : At after y y') :
    At after (WalkT.clause after on c x (some y)) (Plan.clause on c' x' (some y')) := by
  intro b T d a s' h
  simp only [WalkT.clause, WalkT.createBlock, yields_take_bind] at h
  obtain ⟨v, p, b₁, hp, hlp, h⟩ := hc.split h
  simp only [WalkT.branchOn, WalkT.startBlock, yields_build_bind] at h
  obtain ⟨_, q, b₂, hq, hlq, h⟩ := hx.split h
  simp only [WalkT.jump, yields_build_bind] at h
  obtain ⟨b₃, r, rfl, hr, hlr⟩ := hy _ _ _ _ _ h
  refine ⟨b₃, .clauseElse on p v q r, rfl, ⟨v, p, _, q, b₂.nextTemp, r, hp, ?_, ?_, rfl⟩,
    .clauseElse rfl rfl (hlp _) (hlq _) hlr⟩
  · simpa using hq
  · simpa using hr

/-- The relation between linked walks and plans. -/
def relation : Relation Set.univ Walk Plan := fun _ _ _ _ w p => Linked w p

variable {J : Set JumpKind} {Γ : Known Set.univ} {out : Set Binding}

lemma clause_alternative (after : BlockName) (ha : a.Related relation J Γ out a') (on : Bool)
    (hc : Linked c c') (hx : Linked x x') :
    At after (WalkT.clause after on c x (WalkT.alternative after a))
      (Plan.clause on c' x' (Plan.alternative a')) := by
  induction ha generalizing on c c' x x' with
  | nothing => exact clause after on hc hx
  | last h => exact clauseElse on hc hx (thenLeave h after)
  | clause hc' hx' _ ih => exact clauseElse on hc hx (ih true hc' hx')

lemma conditional (on : Bool) (hc : Linked c c') (hx : Linked x x')
    (ha : a.Related relation J Γ out a') :
    Linked (WalkT.conditional on c x a) (Construction.conditional on c' x' a') := by
  intro b T d u s' h
  simp only [WalkT.conditional, WalkT.createBlock, yields_take_bind] at h
  obtain ⟨_, _, h₁, h⟩ := yields_bind.1 h
  obtain ⟨b₁, w, rfl, hw, hl⟩ := clause_alternative _ ha on hc hx _ _ _ _ _ h₁
  refine ⟨_, .join w, yields_build.1 h, ⟨w, ?_, rfl⟩, fun l => .join rfl hl⟩
  simpa using hw

lemma tryTests (bodyBlock : BlockName) {ts : List (Walk Binding)} {ts' : List (Plan Binding)}
    (hts : List.Forall₂ Linked ts ts') :
    At bodyBlock (WalkT.tryTests bodyBlock ts) (Plan.tests ts') := by
  induction hts with
  | nil =>
    intro b T d u s' h
    obtain ⟨b', c, rfl, hc, hl⟩ := pure () _ _ _ _ _ h
    exact ⟨b', c, rfl, hc, hl _⟩
  | cons ht _ ih =>
    intro b T d u s' h
    simp only [WalkT.tryTests, WalkT.tryTest, bind_assoc, WalkT.createBlock, yields_take_bind] at h
    obtain ⟨v, p, b₁, hp, hlp, h⟩ := ht.split h
    simp only [WalkT.branch, WalkT.startBlock, yields_build_bind] at h
    obtain ⟨b₂, q, rfl, hq, hlq⟩ := ih _ _ _ _ _ h
    refine ⟨b₂, .seq (.test p v) q, rfl, ⟨v, p, b₁.nextTemp, q, hp, ?_, rfl⟩,
      .seq (.test rfl (hlp _)) hlq⟩
    simpa using hq

lemma clauses (after : BlockName) {cs : Clauses Walk} {cs' : Clauses Plan}
    (hcs : cs.Related relation J Γ out cs') :
    At after (WalkT.clauses after cs) (Plan.clauses cs') := by
  induction hcs with
  | last h => exact thenLeave h after
  | clause hts hx _ ih =>
    intro b T d u s' h
    simp only [WalkT.clauses, WalkT.createBlock, yields_take_bind] at h
    obtain ⟨_, _, h₁, h⟩ := yields_bind.1 h
    obtain ⟨b₁, p, rfl, hp, hlp⟩ := tryTests _ hts _ _ _ _ _ h₁
    simp only [WalkT.suspend, WalkT.startBlock, yields_take_bind, yields_build_bind] at h
    obtain ⟨_, q, b₂, hq, hlq, h⟩ := Linked.split hx h
    simp only [WalkT.jump, WalkT.resume, yields_build_bind] at h
    obtain ⟨b₃, r, rfl, hr, hlr⟩ := ih _ _ _ _ _ h
    refine ⟨b₃, .seq (.select p q) r, rfl, ⟨p, b₁.nextTemp, q, b₂.nextTemp, r, hp, ?_, ?_, rfl⟩,
      .seq (.select rfl hlp (hlq _)) hlr⟩
    · simpa using hq
    · simpa using hr

lemma select {x : Walk Binding} {x' : Plan Binding} {cs : Binding → Clauses Walk}
    {cs' : Binding → Clauses Plan} (hx : Linked x x')
    (hcs : ∀ v, (cs v).Related relation J (Γ.and {v}) out (cs' v)) :
    Linked (WalkT.select x cs) (Construction.select x' cs') := by
  intro b T d u s' h
  simp only [WalkT.select, WalkT.createBlock, yields_take_bind] at h
  obtain ⟨v, p, b₁, hp, hlp, h⟩ := hx.split h
  obtain ⟨_, _, h₁, h⟩ := yields_bind.1 h
  obtain ⟨b₂, w, rfl, hw, hlw⟩ := clauses _ (hcs v) _ _ _ _ _ h₁
  refine ⟨_, .join (.seq p w), yields_build.1 h, ⟨v, p, b₁.nextTemp, w, hp, ?_, rfl⟩,
    fun l => .join rfl (.seq (hlp _) hlw)⟩
  simpa using hw

/-! ## Loops -/

lemma kinds_inLoop (T : JumpTargets) (after next bodyBlock : BlockName) :
    (T.inLoop after next bodyBlock).kinds = T.kinds ∪ JumpKind.ofLoop := by
  ext kind
  cases kind <;>
    simp [JumpTargets.kinds, JumpTargets.inLoop, JumpTargets.overlay, JumpTargets.get?,
      JumpKind.ofLoop]

lemma loop (sense : LoopSense) (hc : Linked c c') (hx : Linked x x') :
    Linked (WalkT.loop sense c x) (Construction.loop sense c' x') := by
  intro b T d u s' h
  simp only [WalkT.loop, WalkT.createBlock, yields_take_bind] at h
  obtain ⟨_, _, h₁, h⟩ := yields_bind.1 h
  obtain ⟨s₁, h₂, rfl⟩ := yields_withTargets.1 h₁
  simp only [WalkT.startBlock, WalkT.loopTest, bind_assoc, yields_build_bind] at h₂
  obtain ⟨v, p, b₁, hp, hlp, h₂⟩ := hc.split h₂
  simp only [WalkT.branchOn, yields_build_bind] at h₂
  obtain ⟨_, q, b₂, hq, hlq, h₂⟩ := hx.split h₂
  obtain ⟨v', r, b₃, hr, hlr, h₂⟩ := hc.split h₂
  obtain rfl := yields_build.1 h₂
  rw [← JumpTargets.inLoop, kinds_inLoop] at hp hq hr
  refine ⟨_, .loop (sense = .whileTrue) p v q r v', yields_build.1 h,
    ⟨v, p, b₁.nextTemp, q, b₂.nextTemp, v', r, ?_, ?_, ?_, rfl⟩,
    fun l => .loop rfl rfl rfl rfl (hlp _) (hlq _) (hlr _)⟩
  · simpa using hp
  · simpa using hq
  · simpa using hr

/-! ## Clauses that always run -/

lemma copies (hy : Linked y y') (nodup : kinds.Nodup) {b' : Builder} {d : Nat} {cs : List Copy}
    (chain : Copies T kinds inner b cs inner' b')
    (hcs : ∀ c ∈ cs, y.Yields ⟨c.start, T, d⟩ () ⟨c.done, T, d⟩) :
    ∃ f, Plan.copies y' T.kinds f kinds b.nextTemp b'.nextTemp ∧
      ∀ c ∈ cs, (f c.kind).Lays c.landing T c.start c.done := by
  -- The code for the first kind is added to what the induction gives for the others.
  have others : ∀ {kind : JumpKind} {kinds : List JumpKind}, kind ∉ kinds →
      ∀ (f : JumpKind → Code) (p : Code), ∀ k ∈ kinds, f k = Function.update f kind p k :=
    fun hk f p k hk' => (Function.update_of_ne (ne_of_mem_of_not_mem hk' hk) p f).symm
  induction chain with
  | nil => exact ⟨fun _ => .skip, rfl, by simp⟩
  | @inactive kind kinds inner inner' b b' cs ht rest ih =>
    rw [List.nodup_cons] at nodup
    obtain ⟨f, hf, hl⟩ := ih nodup.2 hcs
    refine ⟨Function.update f kind .skip, Or.inr ⟨?_, ?_, ?_⟩, fun c hc => ?_⟩
    · simp [JumpTargets.kinds, ht]
    · exact Function.update_self kind _ f
    · exact Plan.copies_congr (others nodup.1 f _) hf
    · exact others nodup.1 f _ _ (rest.kind_mem c hc) ▸ hl c hc
  | @active kind kinds inner inner' b done b' cs target ht rest ih =>
    rw [List.nodup_cons] at nodup
    obtain ⟨f, hf, hl⟩ := ih nodup.2 fun c hc => hcs c (.tail _ hc)
    obtain ⟨_, p, heq, hp, hlp⟩ := hy _ _ _ _ _ (hcs _ (.head _))
    cases heq
    refine ⟨Function.update f kind p, Or.inl ⟨?_, done.nextTemp, ?_, ?_⟩, ?_⟩
    · simp [JumpTargets.kinds, ht]
    · rw [Function.update_self]
      simpa [Copy.start, Builder.created] using hp
    · exact Plan.copies_congr (others nodup.1 f _) (by simpa using hf)
    · rintro c (_ | ⟨_, hc⟩)
      · rw [Function.update_self]
        exact hlp _
      · exact others nodup.1 f _ _ (rest.kind_mem c hc) ▸ hl c hc

lemma kinds_inner {b' : Builder} {cs : List Copy} (chain : Copies T kinds inner b cs inner' b')
    (hi : inner.kinds ⊆ T.kinds) : inner'.kinds ⊆ T.kinds := by
  induction chain with
  | nil => exact hi
  | inactive _ _ ih => exact ih hi
  | active ht _ ih =>
    refine ih ?_
    rw [JumpTargets.kinds_set]
    exact Set.insert_subset (by simp [JumpTargets.kinds, ht]) hi

lemma steady {w : Walk α} {p : Plan α} (h : Linked w p) : w.Steady := by
  intro b T d a s' hw
  obtain ⟨b', -, hs, -⟩ := h b T d a s' hw
  exact ⟨b', hs⟩

lemma unguarded (hx : Linked x x') :
    Linked (WalkT.guarded x none) (Construction.guarded x' none) := by
  intro b T d u s' h
  simp only [WalkT.guarded, WalkT.createBlock, WalkT.jump, WalkT.startBlock, yields_take_bind,
    yields_build_bind] at h
  obtain ⟨b₁, p, rfl, hp, hlp⟩ := hx _ _ _ _ _ h
  refine ⟨b₁, .block p, rfl, ⟨p, ?_, rfl⟩, fun l => .block rfl (hlp _)⟩
  simpa using hp

lemma guarded (hx : Linked x x') (hy : Linked y y') :
    Linked (WalkT.guarded x (some y)) (Construction.guarded x' (some y')) := by
  intro b T d u s' h
  obtain ⟨r, rfl, rfl, runs, rfl⟩ := yields_guarded hx.steady hy.steady h
  obtain ⟨f, hf, hlc⟩ := copies hy (by decide) r.chain runs.copy
  obtain ⟨_, p, heq, hp, hlp⟩ := hx _ _ _ _ _ runs.body
  cases heq
  obtain ⟨_, q, heq, hq, hlq⟩ := hy _ _ _ _ _ runs.clause
  cases heq
  have hkinds : r.bodyTargets.kinds = r.targets.kinds := by
    rw [Region.bodyTargets, JumpTargets.kinds_overlay]
    exact Set.union_eq_self_of_subset_right (kinds_inner r.chain (by rintro (_ | _) ⟨⟩))
  refine ⟨r.finish, .guarded f p q, rfl,
    ⟨f, r.landed.nextTemp, p, r.left.nextTemp, q, ?_, ?_, ?_, rfl⟩,
    fun l => .guarded hlc (hlp _) (hlq _)⟩
  · simpa [Builder.created] using hf
  · simpa [hkinds, Region.bodyStart] using hp
  · simpa [Region.clauseStart, Region.restored, Region.finish, Builder.created] using hq

/-! ## Block literals -/

lemma nextTemp_land (b : Builder) (landing bodyBlock after : BlockName) :
    (b.land landing bodyBlock after).nextTemp = b.nextTemp ∨
      (b.land landing bodyBlock after).nextTemp = b.nextTemp + 1 := by
  unfold Builder.land
  split
  · right
    simp [Builder.constTemp, Builder.endRun, Builder.loadConst]
  · exact Or.inl rfl

lemma blockCall (params : List Parameter) (dest : Option Binding) (callee : Callee)
    {r : Walk Arguments} {r' : Plan Arguments} {x : Walk Binding} {x' : Plan Binding}
    (hr : Linked r r') (hx : Linked x x') :
    Linked (WalkT.blockCall params dest callee r x)
      (Construction.blockCall params dest callee r' x') := by
  intro b T d u s' h
  simp only [WalkT.blockCall, WalkT.createBlock, WalkT.allocTemp, WalkT.emit, yields_take_bind,
    yields_build_bind] at h
  obtain ⟨args, p, b₁, hp, hlp, h⟩ := hr.split h
  simp only [WalkT.branch, WalkT.reserveBlock, yields_take_bind, yields_build_bind] at h
  obtain ⟨_, _, h₂, h⟩ := yields_bind.1 h
  obtain ⟨s₂, h₂', rfl⟩ := yields_withTargets.1 h₂
  simp only [WalkT.startBlock, yields_build_bind] at h₂'
  obtain ⟨v, q, b₂, hq, hlq, h₂'⟩ := hx.split h₂'
  obtain rfl := yields_build.1 h₂'
  simp only [WalkT.startBlock, yields_build_bind, yields_build] at h
  rw [← JumpTargets.inLoop, kinds_inLoop] at hq
  refine ⟨_, .blockCall params (.temporary b.nextTemp) dest callee p args q v, h,
    ⟨args, p, b₁.nextTemp, v, q, b₂.nextTemp, ?_, ?_, ?_, rfl⟩,
    fun l => .blockCall rfl rfl rfl rfl (hlp _) rfl rfl rfl (hlq _)⟩
  · simpa using hp
  · simpa using hq
  · simpa [Builder.endRun] using
      nextTemp_land ((b₂.endRun v _ _).note (.targetsRestored T)) _ _ _

/-- Every operation keeps the link between walks and plans. -/
lemma related (env env' : Environment) (types : env.types = env'.types) :
    Construction.Related env env' (fun _ => True) relation where
  types := types
  registered _ := trivial
  pure a _ := pure a
  bind hx hf := bind hx hf
  mono hx _ := hx
  failAt info fault _ _ _ _ _ h := absurd h not_yields_failAt
  nested info _ _ hx := by
    intro b T d a s' h
    obtain ⟨s₁, h₁, rfl⟩ := yields_nested h
    obtain ⟨b', c, rfl, hc, hl⟩ := hx _ _ _ _ _ h₁
    exact ⟨b', c, rfl, hc, hl⟩
  allocTemp := by
    intro _ _ b T d a s' h
    obtain ⟨rfl, rfl⟩ := WalkT.yields_take.1 (show WalkT.allocTemp.Yields _ _ _ from h)
    exact ⟨_, .alloc, rfl, ⟨rfl, rfl, rfl⟩, fun _ => .alloc⟩
  emit i plain _ _ := emit i plain
  jumpOut info _ _ _ _ _ hx := jumpOut info _ hx
  returnValue info _ _ _ hx := jumpOut info .return (bind hx fun v => emit (.ret v) rfl)
  twoWays on _ _ _ _ ht hx hy := twoWays on ht hx hy
  detour _ on _ _ hx := detour _ on hx
  conditional on _ _ _ _ _ _ hc hx ha := conditional on hc hx ha
  select hs hcs := select hs hcs
  loop sense _ _ _ _ _ _ _ hc _ hx := loop sense hc hx
  unguarded hx := unguarded hx
  guarded hx hy := guarded hx (hy ⟨Set.univ, subset_rfl⟩)
  blockCall params dest _ _ _ _ _ _ hr _ hx :=
    blockCall params dest _ hr (hx ⟨Set.univ, subset_rfl⟩)

end Linked

/-! ## Whole trees -/

lemma Options.exists_refusal {o : Options} {host : Host} (stack : ¬ o.hasStack host = true) :
    ∃ reason, o.refusal? host = some reason :=
  Option.ne_none_iff_exists'.1 (mt Option.isNone_iff_eq_none.2 stack)

namespace Lowering

lemma plain_ret (v : Binding) : (Instruction.ret v).isTerminator = false := rfl

/-- Code that returns the value of other code. -/
def returning (c : Code) (v : Binding) : Code :=
  .seq c (.seq (.emit (.ret v) (plain_ret v)) (.jump .return))

/-- The targets around a whole tree. -/
def rootTargets : JumpTargets := { returnTo := some .exit }

/-- The builder at the start of a tree. -/
def start (options : Options) (root : Node) : Builder := (initial options root).builder

variable {host : Host} {types : String → Option Binding} {options : Options} {root : Node}
  {journal : Array Event} {g : Graph}

lemma run_of_stack (stack : options.hasStack host = true) :
    run host types options root = conclude (outcome types options root) := by
  rw [run, Option.isNone_iff_eq_none.1 stack]

/-- A tree is lowered if there is stack for it and the walk over it succeeds. -/
lemma run_eq_ok_iff :
    run host types options root = (.ok g, journal) ↔
      options.hasStack host = true ∧ ∃ s, (wholeTree ⟨types, options.maxDepth⟩ root).Yields
        (initial options root) () s ∧ s.builder.graph = g ∧ journal = s.builder.journal.push
          (.built g.blocks.length g.edges.length s.builder.tempCount) := by
  by_cases stack : options.hasStack host = true
  · rw [run_of_stack stack, and_iff_right stack]
    constructor
    · intro h
      rcases walked : outcome types options root with ⟨r, s⟩
      rw [walked] at h
      cases r with
      | ok u =>
        cases h
        exact ⟨s, WalkT.yields_iff_run.2 walked, rfl, rfl⟩
      | error e => cases h
    · rintro ⟨s, yields, rfl, rfl⟩
      have walked : outcome types options root = (.ok (), s) := WalkT.yields_iff_run.1 yields
      rw [walked]
      rfl
  · obtain ⟨reason, refused⟩ := options.exists_refusal stack
    simp [run, stack, refused]

/-- **The graph of a tree is laid out code**, which the plan of the tree allows. -/
theorem run_lays (h : run host types options root = (.ok g, journal)) :
    ∃ v c t b, (value ⟨types, options.maxDepth⟩ root : Plan Binding) rootTargets.kinds 1 v c t ∧
      (∀ l, (returning c v).Lays l rootTargets (start options root) b) ∧ b.graph = g ∧
      journal = b.journal.push (.built g.blocks.length g.edges.length b.tempCount) := by
  obtain ⟨-, s, hs, rfl, rfl⟩ := run_eq_ok_iff.1 h
  have linked : Linked (value ⟨types, options.maxDepth⟩ root) _ :=
    ((Linked.related _ _ rfl).everywhere root).value ⟨Set.univ, subset_rfl⟩
  obtain ⟨v, c, b₁, hc, hl, hs⟩ := linked.split (b := start options root) (T := rootTargets) hs
  simp only [WalkT.emit, WalkT.jump, WalkT.yields_build_bind, WalkT.yields_build] at hs
  rw [hs]
  exact ⟨v, c, b₁.nextTemp, _, hc, fun l => .seq (hl l) (.seq .emit (.jump rfl)), rfl, rfl⟩

lemma run_of_build (h : build host types options root = .ok g) :
    run host types options root = (.ok g, (run host types options root).2) := by
  rw [build] at h
  calc run host types options root
      = ((run host types options root).1, (run host types options root).2) := (Prod.eta _).symm
    _ = (.ok g, (run host types options root).2) := by rw [h]

end Lowering

end ControlFlow
