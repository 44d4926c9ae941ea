import ControlFlow.Proofs.Code.Flow
/-!
# Laying out code by moves

Every construct but statements with an `ensure` clause is laid out by moves wherever bindings flow
through it. Those statements are the subject of `PlaceRegion`.
-/

namespace ControlFlow

variable {landing : BlockName}

namespace Layout.Reached

variable {G : Layout} {b b₂ b₃ : Builder} {A A' A₂ A₃ s : Set Binding}
  {P : Set BlockName} {J : JumpKind → Set Binding} {T : JumpTargets} {x y after : BlockName}

/-- Two blocks are filled one after the other, and what is behind them is begun. -/
lemma meet (hG : G.Valid) (r : G.Reached b A P G.scope) (none : b.current = none)
    (hx : G.Made x s) (hy : G.Made y s) (ha : G.Made after A')
    (hP : x ∈ P ∧ y ∈ P \ {x} ∧ after ∈ (P \ {x}) \ {y}) {first second : Code}
    (hf : first.Placed after T (b.startBlock x) b₂)
    (hs : second.Placed after T ((b₂.jump after).startBlock y) b₃)
    (hT : ∀ kind n, T.get? kind = some n → G.Accepts G.scope (J kind) n)
    (ff : first.Flows J A' s A₂) (hA₂ : A' ⊆ A₂) (fs : second.Flows J A' s A₃) (hA₃ : A' ⊆ A₃) :
    G.Reached ((b₃.jump after).startBlock after) A' (((P \ {x}) \ {y}) \ {after}) G.scope := by
  have hl := ha.accepts subset_rfl
  have r := r.way hG none hx hP.1 hf hl hT ff (hl.mono hA₂)
  have r := r.way hG (b₂.current_jump _) hy hP.2.1 hs hl hT fs (hl.mono hA₃)
  have r := r.start (b₃.current_jump _) hP.2.2 ha.known
  rwa [ha.label] at r

variable {E : Set BlockName}

/-- A block is left open while code is laid out elsewhere, and gone on with. -/
lemma aside {P' W X : Set BlockName} {b' : Builder} {m : BlockName} {B : Set Binding} (hG : G.Valid)
    (r : G.Reached b A P E) (hm : b.At m)
    (work : ∀ G₂ : Layout, G₂.Valid → G₂.builder = b.suspend.2 → G₂.pending = insert m P →
      G₂.scope = E → (∀ n, G.builder.Knows n → G₂.builder.Knows n ∧ G₂.label n = G.label n) →
      G₂.Reached b' B (insert m P') E)
    (grows : Builder.Extends W X b.suspend.2 b') (hW : m ∉ W) (ended : b'.current = none)
    (hP' : m ∉ P') : G.Reached (b'.resume (some m)) A P' E := by
  obtain ⟨L, hr⟩ := r
  have hv := hr.valid hG
  obtain ⟨names, -, -, holds⟩ := hv.current m hm
  have known : b.Knows m := hv.known m names
  have moves : Moves G ⟨b.suspend.2, L, Set.univ, insert m P, E⟩ := hr.tail (.suspend hm)
  obtain ⟨L', hr'⟩ := work _ (moves.valid hG) rfl rfl rfl fun n h =>
    ⟨h.mono hr.frame.next, hr.frame.label n h⟩
  have label : L' m = L m := hr'.frame.label m known
  have code : b'.graph.code m = b.graph.code m := by
    refine grows.code m ?_
    rintro (hm | hm)
    · exact hW hm
    · exact hm.2 known
  have resumed : Move ⟨b', L', B, insert m P', E⟩
      ⟨b'.resume (some m), L', A, insert m P' \ {m}, E⟩ := by
    refine .resume ended (Set.mem_insert _ _) (grows.names m names) ?_
    change A ⊆ L' m ∪ Instruction.allDefs (b'.graph.code m)
    rw [label, code]
    exact holds
  rw [Set.insert_sdiff_self_of_notMem hP'] at resumed
  exact ⟨L', (moves.trans hr').tail resumed⟩

/-- The end of a run of a block literal. -/
lemma endRun {v : Binding} (r : G.Reached b A P E) (hv : v ∈ A) (hx : G.Accepts E A x)
    (hy : G.Accepts E A y) : G.Reached (b.endRun v x y) Set.univ P E := by
  have r := r.emit (i := .resume v) rfl (by simpa [Instruction.Ready, Instruction.reads] using hv)
  exact r.branch (c := none) (by simp) (hx.mono Set.subset_union_left)
    (hy.mono Set.subset_union_left)

/-- The block for `next` is filled if something leads there, and is not used otherwise. -/
lemma land (r : G.Reached b Set.univ P E) (ended : b.current = none) (hl : G.Made landing s)
    (hp : landing ∈ P) (hx : G.Accepts E s x) (hy : G.Accepts E s y) :
    G.Reached (b.land landing x y) Set.univ (P \ {landing}) (E \ {landing}) := by
  unfold Builder.land
  split
  · have r := r.start ended hp hl.known
    rw [hl.label] at r
    have r := r.allocTemp.emit
      (i := .assign (b.startBlock landing).allocTemp.1 (.constant .nil)) rfl
      (by simp [Instruction.Ready, Instruction.reads])
    have r := r.endRun (Or.inr rfl) (hx.mono Set.subset_union_left) (hy.mono Set.subset_union_left)
    exact r.forget Set.sdiff_subset subset_rfl
  · rename_i unused
    obtain ⟨L, hr⟩ := r
    exact ⟨L, hr.tail (.drop hp fun h => unused ((b.graph.contains_iff).2 h))⟩

/-- A name is given out for a block that may or may not come to be used. -/
lemma reserve (hG : G.Valid) (r : G.Reached b A P E) (s : Set Binding) :
    ∃ G₃ : Layout, G₃.Valid ∧ Moves G G₃ ∧
      G₃.builder = b.reserveBlock.2 ∧ G₃.now = A ∧ G₃.pending = insert b.fresh P ∧
      G₃.scope = insert b.fresh E ∧ G₃.Made b.fresh s ∧
      ∀ n, G.builder.Knows n → G₃.builder.Knows n ∧ G₃.label n = G.label n := by
  obtain ⟨L, hr⟩ := r
  have moves : Moves G ⟨b.reserveBlock.2, Function.update L b.fresh s, A, insert b.fresh P,
    insert b.fresh E⟩ := hr.tail (.reserve s)
  exact ⟨_, moves.valid hG, moves, rfl, rfl, rfl, rfl,
    ⟨Or.inl rfl, Or.inl rfl, Builder.knows_created.2 (Or.inr rfl), Function.update_self ..⟩,
    fun n hn => ⟨hn.mono moves.frame.next, moves.frame.label n hn⟩⟩

end Layout.Reached

namespace Code.Placed

open Layout

variable {l bodyBlock after taken : BlockName} {T T' : JumpTargets} {b b' b₁ b₂ b₃ b₄ : Builder}
  {c v : Binding} {on : Bool} {body x : Code} {J : JumpKind → Set Binding}

lemma twoWays {first second : Code} {ifTrue ifFalse : BlockName} (h₁ : ifTrue = b.fresh)
    (h₂ : ifFalse = b.created.fresh) (h₃ : after = b.created.created.fresh)
    (ht : x.Placed after T b.created.created.created b₁)
    (hf : first.Placed after T ((b₁.branch (some c) ifTrue ifFalse).startBlock
      (if on then ifTrue else ifFalse)) b₂)
    (hs : second.Placed after T ((b₂.jump after).startBlock (if on then ifFalse else ifTrue)) b₃) :
    (Code.twoWays x c on first second).Placed l T b ((b₃.jump after).startBlock after) := by
  rintro G J B A' hG rfl hl hT ⟨A₁, A₂, A₃, ft, hc, ff, hA₂, fs, hA₃⟩
  subst h₁ h₂ h₃
  have makes := (((Makes.nil hG).create A₁).create A₁).create A'
  have base := makes.valid
  have hafter := makes.made (.head _)
  have hno := makes.made (.tail _ (.head _))
  have hyes := makes.made (.tail _ (.tail _ (.head _)))
  have hT := fun kind n h => makes.accepts (hT kind n h)
  have r := Reached.refl (((G.create A₁).create A₁).create A')
  have r := r.code base ht (hafter.accepts subset_rfl) hT ft
  have r := r.branch (c := some c) (by simpa using hc) (hyes.accepts subset_rfl)
    (hno.accepts subset_rfl)
  have distinct := makes.nodup
  simp at distinct
  obtain ⟨⟨hno', hyes'⟩, hboth⟩ := distinct
  cases on with
  | true =>
    exact makes.close (r.meet base (b₁.current_branch ..) hyes hno hafter
      ⟨hyes.pending, ⟨hno.pending, hboth⟩, ⟨hafter.pending, hyes'⟩, hno'⟩ hf hs hT ff hA₂ fs hA₃)
      (fun n => by simp; tauto) subset_rfl
  | false =>
    exact makes.close (r.meet base (b₁.current_branch ..) hno hyes hafter
      ⟨hno.pending, ⟨hyes.pending, Ne.symm hboth⟩, ⟨hafter.pending, hno'⟩, hyes'⟩
      hf hs hT ff hA₂ fs hA₃) (fun n => by simp; tauto) subset_rfl

lemma detour {way : Code} (h₁ : taken = b.fresh) (h₂ : after = b.created.fresh)
    (hw : way.Placed after T ((b.created.created.branchOn c on taken after).startBlock taken) b₁) :
    (Code.detour c on way).Placed l T b (b₁.startBlock after) := by
  rintro G J B A' hG rfl hl hT ⟨hc, hA, A₁, fw, hA₁⟩
  subst h₁ h₂
  have makes := ((Makes.nil hG).create G.now).create A'
  have hafter := makes.made (.head _)
  have htaken := makes.made (.tail _ (.head _))
  have hT := fun kind n h => makes.accepts (hT kind n h)
  have distinct := makes.nodup
  simp at distinct
  have r := (Reached.refl ((G.create G.now).create A')).branchOn on hc
    (htaken.accepts subset_rfl) (hafter.accepts hA)
  have r := r.start (Builder.current_branchOn ..) htaken.pending htaken.known
  rw [htaken.label] at r
  have r := (r.code makes.valid hw (hafter.accepts subset_rfl) hT fw).startBlock
    ⟨hafter.pending, distinct⟩ (hafter.accepts hA₁)
  rw [hafter.label] at r
  exact makes.close r (fun n => by simp; tauto) subset_rfl

lemma join {ways : Code} (h₁ : after = b.fresh) (hw : ways.Placed after T b.created b₁) :
    (Code.join ways).Placed l T b (b₁.startBlock after) := by
  rintro G J B A' hG rfl hl hT ⟨A₁, fw, hA₁⟩
  subst h₁
  have makes := (Makes.nil hG).create A'
  have hafter := makes.made (.head _)
  have hT := fun kind n h => makes.accepts (hT kind n h)
  have r := (Reached.refl (G.create A')).code makes.valid hw (hafter.accepts subset_rfl) hT fw
  have r := r.startBlock hafter.pending (hafter.accepts hA₁)
  rw [hafter.label] at r
  exact makes.close r (by simp) subset_rfl

lemma clause (h₁ : taken = b.fresh) (ht : x.Placed l T b.created b₁)
    (hb : body.Placed l T ((b₁.branchOn c on taken l).startBlock taken) b₂) :
    (Code.clause on x c body).Placed l T b (b₂.jump l) := by
  rintro G J B A' hG rfl hl hT ⟨A₁, A₂, ft, hc, hB, fb, hB'⟩
  subst h₁
  have makes := (Makes.nil hG).create A₁
  have htaken := makes.made (.head _)
  have hT := fun kind n h => makes.accepts (hT kind n h)
  have hl := makes.accepts hl
  have r := (Reached.refl (G.create A₁)).code makes.valid ht hl hT ft
  have r := r.branchOn on hc (htaken.accepts subset_rfl) (hl.mono hB)
  have r := r.way makes.valid (Builder.current_branchOn ..) htaken htaken.pending hb hl hT fb
    (hl.mono hB')
  exact makes.close r (by simp) (Set.subset_univ _)

lemma clauseElse {rest : Code} {other : BlockName} (h₁ : taken = b.fresh)
    (h₂ : other = b.created.fresh) (ht : x.Placed l T b.created.created b₁)
    (hb : body.Placed l T ((b₁.branchOn c on taken other).startBlock taken) b₂)
    (hr : rest.Placed l T ((b₂.jump l).startBlock other) b₃) :
    (Code.clauseElse on x c body rest).Placed l T b b₃ := by
  rintro G J B A' hG rfl hl hT ⟨A₁, A₂, ft, hc, fb, hB, fr⟩
  subst h₁ h₂
  have makes := ((Makes.nil hG).create A₁).create A₁
  have hother := makes.made (.head _)
  have htaken := makes.made (.tail _ (.head _))
  have hT := fun kind n h => makes.accepts (hT kind n h)
  have hl := makes.accepts hl
  have distinct := makes.nodup
  simp at distinct
  have r := (Reached.refl ((G.create A₁).create A₁)).code makes.valid ht hl hT ft
  have r := r.branchOn on hc (htaken.accepts subset_rfl) (hother.accepts subset_rfl)
  have r := r.way makes.valid (Builder.current_branchOn ..) htaken htaken.pending hb hl hT fb
    (hl.mono hB)
  have r := r.start (Builder.current_jump ..) ⟨hother.pending, distinct⟩ hother.known
  rw [hother.label] at r
  exact makes.close (r.code makes.valid hr hl hT fr) (fun n => by simp; tauto) subset_rfl

lemma test {inner : Code} {failed : BlockName} (h₁ : failed = b.fresh)
    (hi : inner.Placed l T b.created b₁) :
    (Code.test inner c).Placed l T b ((b₁.branch (some c) l failed).startBlock failed) := by
  rintro G J B A' hG rfl hl hT ⟨A₁, fi, hc, hB, hA⟩
  subst h₁
  have makes := (Makes.nil hG).create A₁
  have hfailed := makes.made (.head _)
  have hT := fun kind n h => makes.accepts (hT kind n h)
  have hl := makes.accepts hl
  have r := (Reached.refl (G.create A₁)).code makes.valid hi hl hT fi
  have r := r.branch (c := some c) (by simpa using hc) (hl.mono hB) (hfailed.accepts subset_rfl)
  have r := r.start (Builder.current_branch ..) hfailed.pending hfailed.known
  rw [hfailed.label] at r
  exact makes.close r (by simp) hA

lemma block (h₁ : bodyBlock = b.fresh)
    (hb : body.Placed bodyBlock T ((b.created.jump bodyBlock).startBlock bodyBlock) b₁) :
    (Code.block body).Placed l T b b₁ := by
  rintro G J B A' hG rfl hl hT fb
  subst h₁
  have makes := (Makes.nil hG).create G.now
  have hbody := makes.made (.head _)
  have hT := fun kind n h => makes.accepts (hT kind n h)
  have r := (Reached.refl (G.create G.now)).jump (hbody.accepts subset_rfl)
  have r := r.start (Builder.current_jump ..) hbody.pending hbody.known
  rw [hbody.label] at r
  exact makes.close (r.code makes.valid hb (hbody.accepts subset_rfl) hT fb) (by simp) subset_rfl

lemma select {tests : Code} (h₁ : bodyBlock = b.fresh) (ht : tests.Placed bodyBlock T b.created b₁)
    (hb : body.Placed l T (b₁.suspend.2.startBlock bodyBlock) b₂)
    (grows : Builder.Extends {n | (b₁.suspend.2.startBlock bodyBlock).At n} (Code.around l T)
      (b₁.suspend.2.startBlock bodyBlock) b₂) :
    (Code.select tests body).Placed l T b ((b₂.jump l).resume b₁.suspend.1) := by
  rintro G J B A' hG rfl hl hT ⟨A₁, A₂, A₃, ft, fb, hB, hA⟩
  subst h₁
  have makes := (Makes.nil hG).create A₁
  have hbody := makes.made (.head _)
  have hT := fun kind n h => makes.accepts (hT kind n h)
  have hl := makes.accepts hl
  have r := (Reached.refl (G.create A₁)).code makes.valid ht (hbody.accepts subset_rfl) hT ft
  cases hc : b₁.current with
  | none =>
    have r : (G.create A₁).Reached b₁.suspend.2 A₂ _ _ := r.quiet rfl hc.symm rfl
    have r := r.way makes.valid rfl hbody hbody.pending hb hl hT fb (hl.mono hB)
    refine makes.close (r.quiet rfl ?_ rfl) (by simp) (Set.subset_univ _)
    exact hc.trans (Builder.current_jump ..).symm
  | some m =>
    have apart : ∀ n ∈ (G.create A₁).pending, m ≠ n := by
      obtain ⟨L, hr⟩ := r
      rintro n hn rfl
      exact ((hr.valid makes.valid).pending _ hn).2.2.1 hc
    have grows' : Builder.Extends {G.builder.fresh} Set.univ b₁.suspend.2 (b₂.jump l) := by
      have s : Builder.Extends {G.builder.fresh} Set.univ b₁.suspend.2 b₁.suspend.2 :=
        .refl fun n hn => by cases hn
      exact ((s.startBlock rfl trivial).code_laid grows trivial (Set.subset_univ _)).jump trivial
    have resumed : (G.create A₁).Reached ((b₂.jump l).resume (some m)) A₂
        ((G.create A₁).pending \ {G.builder.fresh}) (G.create A₁).scope := by
      refine r.aside (B := Set.univ) makes.valid hc (fun G₂ hv hb₂ hp hs hk => ?_) grows'
        (apart _ hbody.pending) (Builder.current_jump ..) fun hm => apart m hm.1 rfl
      have accepts {n : BlockName} {s : Set Binding} :
          (G.create A₁).Accepts (G.create A₁).scope s n → G₂.Accepts G₂.scope s n :=
        fun h => ⟨hs ▸ h.1, (hk _ h.2.1).1, (hk _ h.2.1).2.symm ▸ h.2.2⟩
      have hbody₂ : G₂.Made G.builder.fresh A₁ :=
        ⟨hp ▸ Or.inr hbody.pending, hs ▸ hbody.scope, (hk _ hbody.known).1,
          (hk _ hbody.known).2.trans hbody.label⟩
      rw [← hb₂] at hb
      have r := (Reached.refl G₂).way hv (by rw [hb₂]; rfl) hbody₂ hbody₂.pending hb (accepts hl)
        (fun kind n h => accepts (hT kind n h)) fb (accepts (hl.mono hB))
      rwa [hp, hs, ← Set.insert_sdiff_singleton_comm (apart _ hbody.pending)] at r
    rw [show b₁.suspend.1 = some m from hc]
    exact makes.close resumed (by simp) hA

/-- The targets inside of a loop may be led to from there. -/
lemma accepts_inLoop {G : Layout} {A : Set Binding} {next : BlockName}
    (hT' : T' = T.inLoop after next bodyBlock)
    (hT : ∀ kind n, T.get? kind = some n → G.Accepts G.scope (J kind) n)
    (ha : G.Accepts G.scope A after) (hn : G.Accepts G.scope A next)
    (hb : G.Accepts G.scope A bodyBlock) (kind : JumpKind) (n : BlockName)
    (h : T'.get? kind = some n) : G.Accepts G.scope (loopFacts J A kind) n := by
  rw [hT', JumpTargets.inLoop, JumpTargets.get?_overlay] at h
  cases kind with
  | «break» => exact Option.some.inj h ▸ ha
  | next => exact Option.some.inj h ▸ hn
  | redo => exact Option.some.inj h ▸ hb
  | «return» => exact hT .return n h

lemma loop {again : Code} {c' : Binding} {pretest : BlockName} (h₁ : bodyBlock = b.fresh)
    (h₂ : after = b.created.fresh) (h₃ : pretest = b.created.created.fresh)
    (h₄ : T' = T.inLoop after pretest bodyBlock)
    (ht : x.Placed after T'
      ((b.created.created.created.note (.targetsNow T')).startBlock pretest) b₁)
    (hb : body.Placed after T' ((b₁.branchOn c on bodyBlock after).startBlock bodyBlock) b₂)
    (ha : again.Placed after T' b₂ b₃) :
    (Code.loop on x c body again c').Placed l T b
      (((b₃.branchOn c' on bodyBlock after).note (.targetsRestored T)).startBlock after) := by
  rintro G J B A' hG rfl hl hT ⟨hA, A₁, A₂, A₃, ft, hc, hA₁, fb, fa, hc', hA₃⟩
  subst h₁ h₂ h₃
  have makes := (((Makes.nil hG).create G.now).create G.now).create G.now
  have hpretest := makes.made (.head _)
  have hafter := makes.made (.tail _ (.head _))
  have hbody := makes.made (.tail _ (.tail _ (.head _)))
  have hT := fun kind n h => makes.accepts (hT kind n h)
  have hT' := accepts_inLoop h₄ hT (hafter.accepts subset_rfl) (hpretest.accepts subset_rfl)
    (hbody.accepts subset_rfl)
  have hl := hafter.accepts (A := G.now) subset_rfl
  have distinct := makes.nodup
  simp at distinct
  have r := (Reached.refl (((G.create G.now).create G.now).create G.now)).note
    (.targetsNow T')
  have r := r.startBlock hpretest.pending (hpretest.accepts subset_rfl)
  rw [hpretest.label] at r
  have r := (r.code makes.valid ht hl hT' ft).branchOn on hc (hbody.accepts hA₁)
    (hafter.accepts hA₁)
  have r := r.start (Builder.current_branchOn ..)
    ⟨hbody.pending, fun e => distinct.1.2 e.symm⟩ hbody.known
  rw [hbody.label] at r
  have r := (r.code makes.valid hb hl hT' fb).code makes.valid ha hl hT' fa
  have r := (r.branchOn on hc' (hbody.accepts hA₃) (hafter.accepts hA₃)).note
    (.targetsRestored T)
  have r := r.start (Builder.current_branchOn ..)
    ⟨⟨hafter.pending, fun e => distinct.1.1 e.symm⟩, distinct.2⟩ hafter.known
  rw [hafter.label] at r
  exact makes.close r (fun n => by simp; tauto) hA

/-- The body of a block literal is laid out, with a block for `next` if need be. -/
lemma runs {G : Layout} {A A₂ s : Set Binding} (hG : G.Valid) (r : G.Reached b A G.pending G.scope)
    (ended : b.current = none) (hbody : G.Made bodyBlock s) (hafter : G.Made after s)
    (hne : after ≠ bodyBlock) (h₁ : landing = b.fresh) (h₂ : T' = T.inLoop after landing bodyBlock)
    (hT : ∀ kind n, T.get? kind = some n → G.Accepts G.scope (J kind) n)
    (hb : body.Placed bodyBlock T'
      ((b.reserveBlock.2.note (.targetsNow T')).startBlock bodyBlock) b₁)
    (fb : body.Flows (loopFacts J s) s s A₂) (hv : v ∈ A₂) (hs : s ⊆ A₂) :
    G.Reached ((((b₁.endRun v bodyBlock after).note (.targetsRestored T)).land landing bodyBlock
      after).startBlock after) s ((G.pending \ {bodyBlock}) \ {after}) G.scope := by
  have new : ∀ n, G.builder.Knows n → n ≠ landing := by
    rw [h₁]
    exact fun n hn => (hn.mono r.next).ne_fresh
  -- from here on the name for `next` is known, so this is the base of what follows
  obtain ⟨G₃, hv₃, moves, hb₃, hn₃, hp₃, hs₃, hlanding, hk⟩ := r.reserve hG s
  rw [← h₁] at hp₃ hs₃ hlanding
  have accepts : ∀ {n : BlockName} {s : Set Binding}, G.Accepts G.scope s n →
      G₃.Accepts G₃.scope s n := by
    rintro n s ⟨h, known, label⟩
    refine ⟨?_, (hk n known).1, ?_⟩
    · rw [hs₃]
      exact Or.inr h
    · rwa [(hk n known).2]
  have hT' := accepts_inLoop h₂ (fun kind n h => accepts (hT kind n h))
    (accepts (hafter.accepts subset_rfl)) (hlanding.accepts subset_rfl)
    (accepts (hbody.accepts subset_rfl))
  have r : G₃.Reached b.reserveBlock.2 G₃.now G₃.pending G₃.scope := hb₃ ▸ Reached.refl G₃
  have pending : ∀ n ∈ G.pending, n ∈ G₃.pending := by
    rw [hp₃]
    exact fun n hn => Or.inr hn
  have r := (r.note (.targetsNow T')).start ended (pending _ hbody.pending)
    (hk _ hbody.known).1
  rw [(hk _ hbody.known).2, hbody.label] at r
  have r := r.code hv₃ hb (accepts (hbody.accepts subset_rfl)) hT' fb
  have r := r.endRun hv (accepts (hbody.accepts hs)) (accepts (hafter.accepts hs))
  have hended : ((b₁.endRun v bodyBlock after).note (.targetsRestored T)).current = none :=
    Builder.current_endRun b₁ v bodyBlock after
  have r := (r.note (.targetsRestored T)).land hended hlanding
    ⟨hlanding.pending, fun e => new _ hbody.known e.symm⟩ (accepts (hbody.accepts subset_rfl))
    (accepts (hafter.accepts subset_rfl))
  have r := r.start (Builder.current_land hended ..)
    ⟨⟨pending _ hafter.pending, hne⟩, new _ hafter.known⟩ (hk _ hafter.known).1
  rw [(hk _ hafter.known).2, hafter.label] at r
  have left : ((G₃.pending \ {bodyBlock}) \ {landing}) \ {after} =
      (G.pending \ {bodyBlock}) \ {after} := by
    ext n
    have hnew := fun h => new n (hG.pending n h).1
    simp only [hp₃, Set.mem_sdiff, Set.mem_insert_iff, Set.mem_singleton_iff]
    tauto
  rw [left] at r
  refine (r.of_moves moves).forget (fun n hn => ⟨?_, new n (hG.scope n hn).1⟩) subset_rfl
  rw [hs₃]
  exact Or.inr hn

lemma blockCall {params : List Parameter} {closure : Binding} {dest : Option Binding}
    {callee : Callee} {request : Code} {args : Arguments} (h₁ : after = b.fresh)
    (h₃ : b₁ = b.created.allocTemp.2) (h₄ : bodyBlock = b₁.fresh)
    (hr : request.Placed after T (b₁.created.emit (.closure closure params bodyBlock)) b₂)
    (h₅ : b₃ = (b₂.emit (.send dest callee args (.body bodyBlock))).branch none bodyBlock after)
    (h₆ : landing = b₃.fresh) (h₇ : T' = T.inLoop after landing bodyBlock)
    (hb : body.Placed bodyBlock T'
      ((b₃.reserveBlock.2.note (.targetsNow T')).startBlock bodyBlock) b₄) :
    (Code.blockCall params closure dest callee request args body v).Placed l T b
      ((((b₄.endRun v bodyBlock after).note (.targetsRestored T)).land landing bodyBlock
        after).startBlock after) := by
  rintro G J B A' hG rfl hl hT ⟨A₁, A₂, fr, hcall, hA, fb, hv, hA₂⟩
  subst h₁ h₃
  obtain rfl : bodyBlock = G.builder.created.fresh := h₄
  have makes := ((Makes.nil hG).create A').create A'
  have hbody : ((G.create A').create A').Made G.builder.created.fresh A' := makes.made (.head _)
  have hafter := makes.made (.tail _ (.head _))
  have hT := fun kind n h => makes.accepts (hT kind n h)
  have distinct := makes.nodup
  simp at distinct
  have r : ((G.create A').create A').Reached G.builder.created.allocTemp.2.created _ _ _ :=
    (Reached.refl _).quiet rfl rfl rfl
  have r := r.emit (i := .closure closure params G.builder.created.fresh) rfl
    (by simp [Instruction.Ready, Instruction.reads])
  have r := (r.forget subset_rfl Set.subset_union_left).code makes.valid hr
    (hafter.accepts subset_rfl) hT fr
  have r := r.emit (i := .send dest callee args (.body G.builder.created.fresh)) rfl (by
    simpa [Instruction.Ready, Instruction.reads, BlockOperand.bindings] using hcall)
  have r := r.branch (c := none) (by simp) (hbody.accepts hA) (hafter.accepts hA)
  rw [← h₅] at r
  exact makes.close (runs makes.valid r (h₅ ▸ Builder.current_branch ..) hbody hafter
    (fun e => distinct e.symm) h₆ h₇ hT hb fb hv hA₂) (fun n => by simp; tauto) subset_rfl

end Code.Placed

end ControlFlow
