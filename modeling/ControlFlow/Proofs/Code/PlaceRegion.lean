import ControlFlow.Proofs.Code.Place
/-!
# Laying out regions by moves

Statements with an `ensure` clause are laid out stage by stage: the entry and the copies of the
clause, the statements, and the clause on the way through.

The main result is `Code.Lays.placed`.
-/

namespace ControlFlow

open Layout

namespace Code.Placed

variable {T : JumpTargets} {b b' : Builder}

/-! ## Copies of a clause -/

/-- The block where jumps of one kind land is made and begun. -/
lemma landed {G : Layout} {c : Copy} (hG : G.Valid) (hb : G.builder = c.before)
    (ended : c.before.current = none) (A : Set Binding) :
    ∃ G₃, Moves G G₃ ∧ G₃.builder = c.start ∧ G₃.now = A ∧ G₃.pending = G.pending ∧
      G₃.scope = insert c.landing G.scope ∧ G₃.Accepts G₃.scope A c.landing := by
  obtain ⟨kind, target, _, done⟩ := c
  obtain rfl : G.builder = _ := hb
  have label : (G.create A).label G.builder.fresh = A := (G.made_create A).label
  have noted : Move (G.create A) { G.create A with
    builder := G.builder.created.note (.redirected kind G.builder.fresh) } := .quiet rfl rfl rfl
  have begun := Move.start (G := { G.create A with
    builder := G.builder.created.note (.redirected kind G.builder.fresh) }) (n := G.builder.fresh)
    ended (Or.inl rfl)
  refine ⟨_, ((G.moves_create A).tail noted).tail begun, rfl, label, ?_, rfl,
    ⟨Or.inl rfl, ?_, label.subset⟩⟩
  · exact Set.insert_sdiff_self_of_notMem hG.fresh_not_mem_pending
  · exact (G.made_create A).known.mono (Builder.nextBlock_startBlock
      (G.builder.created.note (.redirected kind G.builder.fresh)) G.builder.fresh).ge

variable {f : JumpKind → Code}

/-- Copies of a clause are laid out one behind the other. -/
lemma copies {J : JumpKind → Set Binding} {A : Set Binding} {kinds : List JumpKind}
    {inner inner' : JumpTargets} {cs : List Copy} (h : Copies T kinds inner b cs inner' b')
    (hf : ∀ kind, ∃ A₁, (f kind).Flows J A A A₁ ∧ J kind ⊆ A₁)
    (hc : ∀ c ∈ cs, (f c.kind).Placed c.landing T c.start c.done) {G : Layout} (hG : G.Valid)
    (hb : G.builder = b) (ended : b.current = none)
    (hT : ∀ kind n, T.get? kind = some n → G.Accepts G.scope (J kind) n)
    (hi : ∀ kind n, inner.get? kind = some n → G.Accepts G.scope A n) :
    ∃ G', Moves G G' ∧ G'.builder = b' ∧ G'.pending = G.pending ∧ G.scope ⊆ G'.scope ∧
      ∀ kind n, inner'.get? kind = some n → G'.Accepts G'.scope A n := by
  induction h generalizing G with
  | nil => exact ⟨G, .refl, hb, rfl, subset_rfl, hi⟩
  | inactive _ _ ih => exact ih hc hG hb ended hT hi
  | @active kind kinds inner inner' b done b' cs target ht rest ih =>
    -- one copy is laid out and jumps on to its target, and the others follow behind it
    subst hb
    obtain ⟨A₁, flows, hA₁⟩ := hf kind
    obtain ⟨G₃, moves, hb₃, hn₃, hp₃, hs₃, hlanding⟩ :=
      landed (c := ⟨kind, target, G.builder, done⟩) hG rfl ended A
    have hv₃ := moves.valid hG
    have accepts : ∀ {n : BlockName} {s : Set Binding}, G.Accepts G.scope s n →
        G₃.Accepts G₃.scope s n := by
      rintro n s ⟨h, known, label⟩
      refine ⟨?_, known.mono moves.frame.next, ?_⟩
      · rw [hs₃]
        exact Or.inr h
      · rwa [moves.frame.label n known]
    have r : G₃.Reached G₃.builder A G₃.pending G₃.scope := hn₃ ▸ Reached.refl G₃
    have placed := hc _ (.head _)
    rw [← hb₃] at placed
    have r := (r.code hv₃ placed hlanding (fun k n h => accepts (hT k n h)) flows).jump
      (accepts ((hT kind target ht).mono hA₁))
    obtain ⟨L, hr⟩ := r
    have accepts' : ∀ {n : BlockName} {s : Set Binding}, G₃.Accepts G₃.scope s n →
        (⟨done.jump target, L, Set.univ, G₃.pending, G₃.scope⟩ : Layout).Accepts G₃.scope s n :=
      fun h => ⟨h.1, h.2.1.mono hr.frame.next, (hr.frame.label _ h.2.1).symm ▸ h.2.2⟩
    have hi₄ : ∀ k n, (inner.set kind G.builder.fresh).get? k = some n →
        (⟨done.jump target, L, Set.univ, G₃.pending, G₃.scope⟩ : Layout).Accepts G₃.scope A n := by
      intro k n h
      rw [JumpTargets.get?_set] at h
      split at h
      · exact accepts' (Option.some.inj h ▸ hlanding)
      · exact accepts' (accepts (hi k n h))
    obtain ⟨G', moves', hb', hp', hs', hi'⟩ :=
      ih (fun c hc' => hc c (.tail _ hc')) (hr.valid hv₃) rfl (Builder.current_jump ..)
        (fun k n h => accepts' (accepts (hT k n h))) hi₄
    refine ⟨G', moves.trans (hr.trans moves'), hb', hp'.trans hp₃, Set.Subset.trans ?_ hs', hi'⟩
    rw [hs₃]
    exact Set.subset_insert _ _

/-! ## The stages of a region -/

variable {r : Region} {G : Layout} {J : JumpKind → Set Binding} {A A' : Set Binding}

/-- The entry and the copies of the clause. -/
lemma enters (hG : G.Valid) (hb : G.builder = r.start)
    (hf : ∀ kind, ∃ A₁, (f kind).Flows J G.now G.now A₁ ∧ J kind ⊆ A₁)
    (hc : ∀ c ∈ r.copies, (f c.kind).Placed c.landing r.targets c.start c.done)
    (hT : ∀ kind n, r.targets.get? kind = some n → G.Accepts G.scope (J kind) n) :
    ∃ G', Moves G G' ∧ G'.builder = r.landed ∧ G'.pending = insert r.bodyBlock G.pending ∧
      G.scope ⊆ G'.scope ∧ G'.Made r.bodyBlock G.now ∧
      ∀ kind n, r.inner.get? kind = some n → G'.Accepts G'.scope G.now n := by
  have made : (G.create G.now).Made r.bodyBlock G.now := by
    rw [Region.bodyBlock, ← hb]
    exact G.made_create G.now
  have hv := (G.moves_create G.now).valid hG
  have hb₁ : (G.create G.now).builder = r.start.created := congrArg Builder.created hb
  have entered := (Reached.refl (G.create G.now)).jump (made.accepts (A := G.now) subset_rfl)
  rw [hb₁] at entered
  obtain ⟨L, entry⟩ := entered
  have hT' : ∀ kind n, r.targets.get? kind = some n →
      Accepts ⟨r.start.created.jump r.bodyBlock, L, Set.univ, (G.create G.now).pending,
        (G.create G.now).scope⟩ (G.create G.now).scope (J kind) n := by
    intro kind n h
    have h := (hT kind n h).create (s := G.now)
    exact ⟨h.1, h.2.1.mono entry.frame.next, (entry.frame.label _ h.2.1).symm ▸ h.2.2⟩
  obtain ⟨G', moves, hb', hp', hs', hi'⟩ := copies (A := G.now) r.chain hf hc
    (entry.valid hv) rfl (Builder.current_jump ..) hT'
    (fun kind n h => by cases kind <;> simp [JumpTargets.get?] at h)
  have later : Moves (G.create G.now) G' := entry.trans moves
  refine ⟨G', (G.moves_create G.now).trans later, hb', hp'.trans ?_, ?_, ⟨?_, ?_, ?_, ?_⟩, hi'⟩
  · rw [Region.bodyBlock, ← hb]
    rfl
  · exact (Set.subset_insert _ _).trans hs'
  · exact hp' ▸ made.pending
  · exact hs' made.scope
  · exact made.known.mono later.frame.next
  · exact (later.frame.label _ made.known).trans made.label

/-- The statements. -/
lemma inside {body : Code} {s : Set Binding} (hG : G.Valid) (hb : G.builder = r.landed)
    (ended : r.landed.current = none) (made : G.Made r.bodyBlock s)
    (hi : ∀ kind n, r.inner.get? kind = some n → G.Accepts G.scope s n)
    (hbody : body.Placed r.bodyBlock r.bodyTargets r.bodyStart r.left)
    (hf : body.Flows (fun _ => s) s s A) :
    G.Reached r.left A (G.pending \ {r.bodyBlock}) G.scope := by
  have begun := ((hb ▸ Reached.refl G : G.Reached r.landed _ _ _).note
    (.targetsNow r.bodyTargets)).start ended made.pending made.known
  rw [made.label] at begun
  refine begun.code hG hbody (made.accepts subset_rfl) (fun kind n h => hi kind n ?_) hf
  rwa [← r.get?_bodyTargets]

/-- The clause on the way through. -/
lemma through {ensure : Code} (hG : G.Valid) (hb : G.builder = r.left)
    (hT : ∀ kind n, r.targets.get? kind = some n → G.Accepts G.scope (J kind) n)
    (he : ensure.Placed r.ensureBlock r.targets r.clauseStart r.done)
    (hf : ensure.Flows J G.now G.now A) :
    ∃ G', Moves G G' ∧ G'.builder = r.finish ∧ G'.now = A ∧ G'.pending = G.pending ∧
      G.scope ⊆ G'.scope := by
  have noted : Moves G { G with builder := r.restored } :=
    .single (.quiet (hb ▸ rfl) (hb ▸ rfl) (hb ▸ rfl))
  have makes := ((Makes.nil (noted.valid hG)).create G.now).create A
  have hafter := makes.made (.head _)
  have hensure := makes.made (.tail _ (.head _))
  have distinct := makes.nodup
  simp only [List.map_cons, List.map_nil, List.nodup_cons, List.mem_cons, List.not_mem_nil,
    or_false] at distinct
  have hT : ∀ kind n, r.targets.get? kind = some n →
      Accepts { G with builder := r.restored } G.scope (J kind) n := by
    intro kind n h
    exact ⟨(hT kind n h).1, (hT kind n h).2.1.mono (hb ▸ le_rfl), (hT kind n h).2.2⟩
  have reached := (Reached.refl (({ G with builder := r.restored } : Layout).create G.now |>.create
    A)).startBlock hensure.pending (hensure.accepts subset_rfl)
  rw [hensure.label] at reached
  have reached := (reached.code makes.valid he (hensure.accepts subset_rfl)
    (fun kind n h => makes.accepts (hT kind n h)) hf).startBlock
    ⟨hafter.pending, distinct.1⟩ (hafter.accepts subset_rfl)
  rw [hafter.label] at reached
  obtain ⟨L, clause⟩ := reached
  refine ⟨_, noted.trans (makes.moves.trans clause), rfl, rfl, ?_, makes.scope⟩
  refine makes.pending_eq fun n => ?_
  simp only [Set.mem_sdiff, Set.mem_singleton_iff, List.map_cons, List.map_nil, List.mem_cons,
    List.not_mem_nil, or_false, not_or]
  tauto

lemma guarded {body ensure : Code} {l : BlockName} (grows : r.Grows)
    (hc : ∀ c ∈ r.copies, (f c.kind).Placed c.landing r.targets c.start c.done)
    (hb : body.Placed r.bodyBlock r.bodyTargets r.bodyStart r.left)
    (he : ensure.Placed r.ensureBlock r.targets r.clauseStart r.done) :
    (Code.guarded f body ensure).Placed l r.targets r.start r.finish := by
  rintro G J B A' hG hstart hl hT ⟨fc, A₁, A₂, fb, fe, hA⟩
  obtain ⟨G₁, moves₁, hb₁, hp₁, hs₁, made, hi⟩ := enters hG hstart fc hc hT
  have ended := (r.chain.edges grows.copy (Builder.current_jump ..)).1
  obtain ⟨L, moves₂⟩ := inside (moves₁.valid hG) hb₁ ended made hi hb fb
  have moves : Moves G _ := moves₁.trans moves₂
  have hT₂ : ∀ kind n, r.targets.get? kind = some n →
      Accepts ⟨r.left, L, A₁, G₁.pending \ {r.bodyBlock}, G₁.scope⟩ G₁.scope (J kind) n := by
    intro kind n h
    obtain ⟨h₁, h₂, h₃⟩ := hT kind n h
    exact ⟨hs₁ h₁, h₂.mono moves.frame.next, (moves.frame.label n h₂).symm ▸ h₃⟩
  obtain ⟨G₃, moves₃, hb₃, hn₃, hp₃, hs₃⟩ := through (moves.valid hG) rfl hT₂ he fe
  have pending : G₃.pending = G.pending := by
    have fresh : r.bodyBlock ∉ G.pending := by
      rw [Region.bodyBlock, ← hstart]
      exact hG.fresh_not_mem_pending
    rw [hp₃, hp₁, Set.insert_sdiff_self_of_notMem fresh]
  have forgotten : Moves G { G₃ with scope := G.scope, now := A' } :=
    (moves.trans moves₃).tail (.forget (hs₁.trans hs₃) (hn₃ ▸ hA))
  rw [hb₃, pending] at forgotten
  exact ⟨_, forgotten⟩

end Code.Placed

/-- **Laying out code is a sequence of moves wherever bindings flow through it.** -/
theorem Code.Lays.placed {c : Code} {l : BlockName} {T : JumpTargets} {b b' : Builder}
    (h : c.Lays l T b b') : c.Placed l T b b' := by
  induction h with
  | skip =>
    rintro G J B A' hG rfl hl hT hf
    exact (Layout.Reached.refl G).forget subset_rfl hf
  | seq _ _ ihp ihq =>
    rintro G J B A' hG rfl hl hT ⟨A₁, h₁, h₂⟩
    exact (ihp hG rfl hl hT h₁).code hG ihq hl hT h₂
  | alloc =>
    rintro G J B A' hG rfl hl hT hf
    exact (Layout.Reached.refl G).allocTemp.forget subset_rfl hf
  | @emit i plain =>
    rintro G J B A' hG rfl hl hT ⟨ready, hA⟩
    exact ((Layout.Reached.refl G).emit plain ready).forget subset_rfl hA
  | jump h =>
    rintro G J B A' hG rfl hl hT hf
    obtain ⟨h₁, h₂, h₃⟩ := hT _ _ h
    exact ((Layout.Reached.refl G).jump ⟨h₁, h₂, h₃.trans hf⟩).forget subset_rfl (Set.subset_univ _)
  | leave =>
    rintro G J B A' hG rfl hl hT hf
    exact ((Layout.Reached.refl G).jump (hl.mono hf)).forget subset_rfl (Set.subset_univ _)
  | twoWays h₁ h₂ h₃ _ _ _ iht ihf ihs => exact .twoWays h₁ h₂ h₃ iht ihf ihs
  | detour h₁ h₂ _ ihw => exact .detour h₁ h₂ ihw
  | join h₁ _ ihw => exact .join h₁ ihw
  | clause h₁ _ _ iht ihb => exact .clause h₁ iht ihb
  | clauseElse h₁ h₂ _ _ _ iht ihb ihr => exact .clauseElse h₁ h₂ iht ihb ihr
  | test h₁ _ ihi => exact .test h₁ ihi
  | select h₁ _ hb iht ihb => exact .select h₁ iht ihb hb.growth
  | loop h₁ h₂ h₃ hT' _ _ _ iht ihb iha => exact .loop h₁ h₂ h₃ hT' iht ihb iha
  | block h₁ _ ihb => exact .block h₁ ihb
  | guarded hc hb he ihc ihb ihe =>
    exact .guarded ⟨fun c h => (hc c h).growth, hb.growth, he.growth⟩ ihc ihb ihe
  | blockCall h₁ h₂ h₃ h₄ _ h₅ h₆ hT' _ ihr ihb => exact .blockCall h₁ h₃ h₄ ihr h₅ h₆ hT' ihb

end ControlFlow
