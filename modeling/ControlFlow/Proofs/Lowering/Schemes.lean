import Mathlib.Data.Multiset.AddSub
import ControlFlow.Proofs.Code.Linked
/-!
# Relations that the schemes keep

All schemes of control flow are put together from a few steps: blocks are made, started, filled and
left, and targets are changed for a while. A relation between walks that these steps keep is kept by
every scheme, and so by the lowering of every tree.

The relation may depend on the blocks that are pending, which have been made and are begun later, each
of them once, and on the blocks at hand, which jumps may lead to. Parts of a scheme are walks in their
own right: they are related whatever is pending and at hand, and leave pending what they found so.

Walks may differ in how they fail, and in what they do around a node and with the subject of a
`case`. Such a `Variant` of walks is a construction of its own, with the same schemes.
-/

namespace ControlFlow

namespace WalkT

/-- A relation between walks, where some blocks are pending before and behind them, and some are at
hand to be led to. -/
abbrev Pairing (m m' : Type → Type) : Type 1 :=
  Multiset BlockName → Multiset BlockName → Set BlockName → ∀ α : Type, WalkT m α → WalkT m' α → Prop

variable {m m' : Type → Type} [Monad m] [Monad m']

/-- The steps of walks keep a relation, but for changes of all targets. -/
structure Steps (R : Pairing m m') : Prop where
  pure {P L} {α : Type} (a : α) : R P P L α (pure a) (pure a)
  bind {P Q P' L} {α β : Type} {x : WalkT m α} {x' : WalkT m' α} {f : α → WalkT m β}
    {f' : α → WalkT m' β} (hx : R P Q L α x x')
    (hf : ∀ a, R Q P' L β (f a) (f' a)) : R P P' L β (x >>= f) (x' >>= f')
  create {P P' L} {β : Type} {f : BlockName → WalkT m β} {f' : BlockName → WalkT m' β}
    (hf : ∀ n, R (n ::ₘ P) P' (insert n L) β (f n) (f' n)) :
    R P P' L β (createBlock >>= f) (createBlock >>= f')
  reserve {P P' L} {β : Type} {f : BlockName → WalkT m β} {f' : BlockName → WalkT m' β}
    (hf : ∀ n, R (n ::ₘ P) P' (insert n L) β (f n) (f' n)) :
    R P P' L β (reserveBlock >>= f) (reserveBlock >>= f')
  allocTemp {P L} : R P P L _ allocTemp allocTemp
  emit {P L} (i : Instruction) (h : ∀ n ∈ i.targets, n ∈ L) : R P P L _ (emit i) (emit i)
  start {P L} {n : BlockName} (h : n ∈ L) : R (n ::ₘ P) P L _ (startBlock n) (startBlock n)
  land {P L} {n bodyBlock after : BlockName} (hn : n ∈ L) (hb : bodyBlock ∈ L) (ha : after ∈ L) :
    R (n ::ₘ P) P L _ (build (·.land n bodyBlock after)) (build (·.land n bodyBlock after))
  /-- The current block is left alone for a while. -/
  aside {P Q P' L} {β : Type} {x : WalkT m Unit} {x' : WalkT m' Unit} {y : WalkT m β}
    {y' : WalkT m' β} (hx : R P Q L _ x x')
    (hy : R Q P' L _ y y') :
    R P P' L β (do let n ← suspend; x; resume n; y) (do let n ← suspend; x'; resume n; y')
  inLoop {P P' L} {after next bodyBlock : BlockName} {x : WalkT m Unit} {x' : WalkT m' Unit}
    (ha : after ∈ L) (hn : next ∈ L) (hb : bodyBlock ∈ L) (hx : R P P' L _ x x') :
    R P P' L _ (withTargets ⟨some after, some next, some bodyBlock, none⟩ x)
      (withTargets ⟨some after, some next, some bodyBlock, none⟩ x')

/-- All steps of walks keep a relation. -/
structure AllSteps (R : Pairing m m') : Prop extends Steps R where
  note {P L} (e : Event) : R P P L _ (note e) (note e)
  /-- The targets of jumps are at hand where they are known. -/
  targets {P P' L} {β : Type} {f : JumpTargets → WalkT m β} {f' : JumpTargets → WalkT m' β}
    (hf : ∀ T, R P P' (L ∪ T.names) β (f T) (f' T)) :
    R P P' L β (do f (← get).targets) (do f' (← get).targets)
  withTargets {P P' L} {T : JumpTargets} {x : WalkT m Unit} {x' : WalkT m' Unit} (hT : T.names ⊆ L)
    (hx : R P P' L _ x x') : R P P' L _ (withTargets T x) (withTargets T x')

/-! ## Variants of walks -/

/-- Other ways to fail, to walk a node, and to walk a `case`. -/
structure Variant (m : Type → Type) [Monad m] where
  failAt {α : Type} (info : Info) (fault : LowerFault) : WalkT m α
  nested {α : Type} (env : Environment) (info : Info) (inner : WalkT m α) : WalkT m α
  select (subject : WalkT m Binding) (clauses : Binding → Clauses (WalkT m)) : WalkT m Unit
  failAt_bind {α β : Type} (info : Info) (fault : LowerFault) (f : α → WalkT m β) :
    failAt info fault >>= f = failAt info fault

namespace Variant

lemma failed_bind [LawfulMonad m] {α β : Type} (info : Info) (fault : LowerFault)
    (f : α → WalkT m β) : WalkT.failAt info fault >>= f = WalkT.failAt info fault := by
  ext s
  simp [WalkT.failAt]

/-- Walks as they are. -/
def plain [LawfulMonad m] : Variant m := ⟨WalkT.failAt, WalkT.nested, WalkT.select, failed_bind⟩

/-- Where the jumps of a kind lead among some targets. -/
def target (v : Variant m) (info : Info) (kind : JumpKind) (T : JumpTargets) : WalkT m BlockName :=
  match T.get? kind with
  | some name => return name
  | none => v.failAt info (.noTarget kind)

/-- Jumps once `before` has been done. -/
def jumpOut (v : Variant m) (info : Info) (kind : JumpKind) (before : WalkT m Unit) :
    WalkT m Unit := do
  let target ← v.target info kind (← get).targets
  before
  jump target

end Variant

/-- Walks that fail, walk nodes and walk a `case` as a variant says. -/
def Varied (_v : Variant m) (α : Type) : Type := WalkT m α

instance (v : Variant m) : Monad (Varied v) := inferInstanceAs (Monad (WalkT m))

instance [LawfulMonad m] (v : Variant m) : LawfulMonad (Varied v) :=
  inferInstanceAs (LawfulMonad (WalkT m))

instance (v : Variant m) : Construction (Varied v) :=
  { (inferInstance : Construction (WalkT m)) with
    failAt := v.failAt
    nested := v.nested
    select := v.select
    jumpOut := v.jumpOut }

/-- Walks a whole tree and returns its value. -/
def Variant.wholeTree (v : Variant m) (env : Environment) (root : Node) : WalkT m Unit := do
  let b ← (Lowering.value env root : Varied v Binding)
  emit (.ret b)
  jump .exit

/-! ## Schemes -/

lemma run_build [LawfulMonad m] (f : Builder → Builder) (s : WalkState) :
    (build f : WalkT m Unit).run.run s = pure (.ok (), { s with builder := f s.builder }) :=
  pure_bind (m := m) _ _

lemma endRun_eq [LawfulMonad m] (v : Binding) (bodyBlock after : BlockName) :
    (endRun v bodyBlock after : WalkT m Unit) =
      emit (.resume v) >>= fun _ => branch none bodyBlock after := by
  ext s
  simp only [endRun, emit, branch, ExceptT.run_bind, StateT.run_bind, run_build, pure_bind]
  rfl

/-- Two walks are related whatever is pending, and whatever is at hand. -/
def Pairing.Always (R : Pairing m m') {α : Type} (w : WalkT m α) (w' : WalkT m' α) : Prop :=
  ∀ P L, R P P L α w w'

/-- Parts are always related, whatever jumps are possible, and whatever holds a value. -/
def Pairing.relation (R : Pairing m m') (v : Variant m) (v' : Variant m') :
    Relation Set.univ (Varied v) (Varied v') :=
  fun _ _ _ _ w w' => R.Always w w'

/-- Two variants are related where they fail, where they walk a node, and where they walk a `case`. -/
structure Pairing.Varies (R : Pairing m m') (env env' : Environment) (v : Variant m)
    (v' : Variant m') : Prop where
  types : env.types = env'.types
  failAt P L α info fault : R P P L α (v.failAt info fault) (v'.failAt info fault)
  nested {P L α} info {w : WalkT m α} {w' : WalkT m' α} (hw : R.Always w w') :
    R P P L α (v.nested env info w) (v'.nested env' info w')
  select {J Γ out s s' cs cs'} (hs : R.Always s s')
    (hc : ∀ b, (cs b).Related (R.relation v v') J (Known.and Γ {b}) out (cs' b)) :
    R.Always (v.select s cs) (v'.select s' cs')

variable {n : BlockName} {env' env : Environment}

omit [Monad m] [Monad m'] in
/-- The order of pending blocks does not matter. -/
lemma Pairing.swap {R : Pairing m m'} {P P' : Multiset BlockName} {L : Set BlockName}
    {n' : BlockName} {α : Type} {w : WalkT m α} {w' : WalkT m' α}
    (h : R (n ::ₘ n' ::ₘ P) P' L α w w') : R (n' ::ₘ n ::ₘ P) P' L α w w' :=
  Multiset.cons_swap n n' P ▸ h

namespace Steps

variable {R : Pairing m m'} (h : Steps R) {P : Multiset BlockName} {L : Set BlockName}
  {c : WalkT m Binding} {c' : WalkT m' Binding} {x y : WalkT m Unit} {x' y' : WalkT m' Unit}

include h

lemma jump (hn : n ∈ L) : R P P L _ (jump n) (jump n) :=
  h.emit (.jump n) (by simpa [Instruction.targets] using hn)

lemma branch (c : Option Binding) {n' : BlockName} (hn : n ∈ L) (hn' : n' ∈ L) :
    R P P L _ (branch c n n') (branch c n n') :=
  h.emit (.branch c n n') (by simpa [Instruction.targets] using ⟨hn, hn'⟩)

lemma branchOn (c : Binding) (on : Bool) {n' : BlockName} (hn : n ∈ L) (hn' : n' ∈ L) :
    R P P L _ (branchOn c on n n') (branchOn c on n n') := by
  cases on with
  | true => exact h.branch (some c) hn hn'
  | false => exact h.branch (some c) hn' hn

lemma twoWays (on : Bool) (hc : R.Always c c') (hx : R.Always x x') (hy : R.Always y y') :
    R P P L _ (twoWays c on x y) (twoWays c' on x' y') := by
  refine h.create fun ifTrue => h.create fun ifFalse => h.create fun after => ?_
  have order : after ::ₘ ifFalse ::ₘ ifTrue ::ₘ P = (if on then ifTrue else ifFalse) ::ₘ
      (if on then ifFalse else ifTrue) ::ₘ after ::ₘ P := by
    cases on <;> simp [Multiset.cons_swap]
  rw [order]
  exact h.bind (hc _ _) fun v => h.bind (h.branch (some v) (by simp) (by simp)) fun _ =>
    h.bind (h.start (by cases on <;> simp)) fun _ => h.bind (hx _ _) fun _ =>
      h.bind (h.jump (by simp)) fun _ => h.bind (h.start (by cases on <;> simp)) fun _ =>
        h.bind (hy _ _) fun _ => h.bind (h.jump (by simp)) fun _ => h.start (by simp)

variable {v : Variant m} {v' : Variant m'} {J : Set JumpKind} {Γ : Known Set.univ} {out : Set Binding}
  {after : BlockName} {a' : Alternative (Varied v')} {a : Alternative (Varied v)}

lemma clause_alternative (ha : after ∈ L) (on : Bool) (hc : R.Always c c') (hx : R.Always x x')
    (hr : a.Related (R.relation v v') J Γ out a') :
    R P P L _ (clause after on c x (alternative after a))
      (clause after on c' x' (alternative after a')) := by
  -- a condition with its body, and what follows in a block of its own
  have followed : ∀ {L on} {c : WalkT m Binding} {c' : WalkT m' Binding} {x y : WalkT m Unit}
      {x' y' : WalkT m' Unit}, after ∈ L → R.Always c c' → R.Always x x' →
        (∀ L, after ∈ L → R P P L _ y y') →
        R P P L _ (clause after on c x (some y)) (clause after on c' x' (some y')) :=
    fun ha hc hx hy => h.create fun taken => h.create fun other => Pairing.swap (
      h.bind (hc _ _) fun v => h.bind (h.branchOn v _ (by simp) (by simp)) fun _ =>
        h.bind (h.start (by simp)) fun _ => h.bind (hx _ _) fun _ =>
          h.bind (h.jump (by simp [ha])) fun _ => h.bind (h.start (by simp)) fun _ =>
            hy _ (by simp [ha]))
  induction hr generalizing L on c c' x x' with
  | nothing =>
    exact h.create fun taken => h.bind (hc _ _) fun v =>
      h.bind (h.branchOn v _ (by simp) (by simp [ha])) fun _ => h.bind (h.start (by simp)) fun _ =>
        h.bind (hx _ _) fun _ => h.jump (by simp [ha])
  | last hl => exact followed ha hc hx fun L hL => h.bind (hl P L) fun _ => h.jump hL
  | clause hc' hx' _ ih => exact followed ha hc hx fun L hL => ih hL true hc' hx'

lemma tryTests {bodyBlock : BlockName} (hb : bodyBlock ∈ L) {ts : List (WalkT m Binding)}
    {ts' : List (WalkT m' Binding)} (ht : List.Forall₂ R.Always ts ts') :
    R P P L _ (tryTests bodyBlock ts) (tryTests bodyBlock ts') := by
  induction ht with
  | nil => exact h.pure ()
  | cons ht _ ih =>
    exact h.bind (h.create fun failed => h.bind (ht _ _) fun v =>
      h.bind (h.branch (some v) (by simp [hb]) (by simp)) fun _ => h.start (by simp)) fun _ => ih

lemma loop (sense : LoopSense) (hc : R.Always c c') (hx : R.Always x x') :
    R P P L _ (loop sense c x) (loop sense c' x') := by
  have test : ∀ {P L} {bodyBlock after : BlockName}, bodyBlock ∈ L → after ∈ L →
      R P P L _ (loopTest sense c bodyBlock after) (loopTest sense c' bodyBlock after) :=
    fun hb ha => h.bind (hc _ _) fun v => h.branchOn v _ hb ha
  refine h.create fun bodyBlock => h.create fun after => Pairing.swap (h.create fun pretest => ?_)
  exact h.bind (h.inLoop (by simp) (by simp) (by simp) (h.bind (h.start (by simp)) fun _ =>
    h.bind (test (by simp) (by simp)) fun _ => h.bind (h.start (by simp)) fun _ =>
      h.bind (hx _ _) fun _ => test (by simp) (by simp))) fun _ => h.start (by simp)

/-- What the lowering of every tree keeps is kept by the walk over a whole tree. -/
lemma wholeTree
    (related : Construction.Related env env' (fun _ => True) (R.relation v v')) (root : Node) :
    R 0 0 {.exit} _ (v.wholeTree env root) (v'.wholeTree env' root) :=
  h.bind ((related.everywhere root).value ⟨Set.univ, subset_rfl⟩ _ _) fun b =>
    h.bind (h.emit (.ret b) (by simp [Instruction.targets])) fun _ => h.jump rfl

variable [LawfulMonad m] [LawfulMonad m']

lemma endRun (b : Binding) {bodyBlock after : BlockName} (hb : bodyBlock ∈ L) (ha : after ∈ L) :
    R P P L _ (endRun b bodyBlock after) (endRun b bodyBlock after) := by
  rw [endRun_eq, endRun_eq]
  exact h.bind (h.emit (.resume b) (by simp [Instruction.targets])) fun _ => h.branch none hb ha

/-- A way that leads to a block, while the current block is left alone. -/
lemma way_aside (hn : n ∈ L) (ha : after ∈ L) (hx : R.Always x x') (hy : R P P L _ y y') :
    R (n ::ₘ P) P L _ (do let failed ← suspend; startBlock n; x; WalkT.jump after; resume failed; y)
      (do let failed ← suspend; startBlock n; x'; WalkT.jump after; resume failed; y') := by
  have way := h.bind (P := n ::ₘ P) (h.start hn) fun _ => h.bind (hx _ _) fun _ => h.jump ha
  simpa only [bind_assoc] using h.aside way hy

lemma clauses (ha : after ∈ L) {cs : Clauses (Varied v)} {cs' : Clauses (Varied v')}
    (hc : cs.Related (R.relation v v') J Γ out cs') :
    R P P L _ (clauses after cs) (clauses after cs') := by
  induction hc generalizing L with
  | last hl => exact h.bind (hl P L) fun _ => h.jump ha
  | clause ht hx _ ih =>
    exact h.create fun bodyBlock => h.bind (h.tryTests (by simp) ht) fun _ =>
      h.way_aside (by simp) (by simp [ha]) hx (ih (by simp [ha]))

lemma select {s : WalkT m Binding} {s' : WalkT m' Binding} {cs : Binding → Clauses (Varied v)}
    {cs' : Binding → Clauses (Varied v')} (hs : R.Always s s')
    (hc : ∀ b, (cs b).Related (R.relation v v') J (Γ.and {b}) out (cs' b)) :
    R.Always (select s cs) (select s' cs') := fun _ _ =>
  h.create fun after => h.bind (hs _ _) fun b => h.bind (h.clauses (by simp) (hc b)) fun _ =>
    h.start (by simp)

lemma blockCall (params : List Parameter) (dest : Option Binding) (callee : Callee)
    {args : WalkT m Arguments} {args' : WalkT m' Arguments} (ha : R.Always args args')
    (hc : R.Always c c') :
    R P P L _ (blockCall params dest callee args c) (blockCall params dest callee args' c') :=
  h.create fun after => h.bind h.allocTemp fun closure => h.create fun bodyBlock =>
    h.bind (h.emit _ (by simp [Instruction.targets])) fun _ => h.bind (ha _ _) fun values =>
      h.bind (h.emit _ (by simp [Instruction.targets])) fun _ =>
        h.bind (h.branch none (by simp) (by simp)) fun _ => h.reserve fun landing => Pairing.swap (
          h.bind (h.inLoop (by simp) (by simp) (by simp) (h.bind (h.start (by simp)) fun _ =>
            h.bind (hc _ _) fun b => h.endRun b (by simp) (by simp))) fun _ =>
              h.bind (h.land (by simp) (by simp) (by simp)) fun _ => h.start (by simp))

/-- Walks in two variants are related if the variants are, and if this is so where they leave what
surrounds them. -/
lemma related (hv : R.Varies env env' v v')
    (jumpOut : ∀ {P L} info kind {x : WalkT m Unit} {x' : WalkT m' Unit}, R.Always x x' →
      R P P L _ (v.jumpOut info kind x) (v'.jumpOut info kind x'))
    (guarded : ∀ {P L} {x y : WalkT m Unit} {x' y' : WalkT m' Unit}, R.Always x x' →
      R.Always y y' → R P P L _ (guarded x (some y)) (guarded x' (some y'))) :
    Construction.Related env env' (fun _ => True) (R.relation v v') where
  types := hv.types
  registered _ := trivial
  pure a _ P L := h.pure a
  bind hx hf P L := h.bind (hx P L) fun a => hf a P L
  mono hx _ := hx
  failAt info fault P L := hv.failAt P L _ info fault
  nested info _ _ hx P L := hv.nested info hx
  allocTemp P L := h.allocTemp
  emit i plain _ _ P L := h.emit i (by simp [Instruction.targets_eq_nil plain])
  jumpOut info kind _ _ _ _ hx P L := jumpOut info kind hx
  returnValue info _ _ _ hx P L := jumpOut info .return fun P L => h.bind (hx P L) fun b =>
    h.emit (.ret b) (by simp [Instruction.targets])
  twoWays on _ _ _ _ ht hx hy P L := h.twoWays on ht hx hy
  detour _ on _ _ hx P L := h.create fun taken => h.create fun after => Pairing.swap (
    h.bind (h.branchOn _ on (by simp) (by simp)) fun _ => h.bind (h.start (by simp)) fun _ =>
      h.bind (hx _ _) fun _ => h.start (by simp))
  conditional on _ _ _ _ _ _ hc hx ha P L := h.create fun after =>
    h.bind (h.clause_alternative (by simp) on hc hx ha) fun _ => h.start (by simp)
  select hs hcs := hv.select hs hcs
  loop sense _ _ _ _ _ _ _ hc _ hx P L := h.loop sense hc hx
  unguarded hx P L := h.create fun bodyBlock => h.bind (h.jump (by simp)) fun _ =>
    h.bind (h.start (by simp)) fun _ => hx _ _
  guarded hx hy P L := guarded hx (hy ⟨Set.univ, subset_rfl⟩)
  blockCall params dest callee _ _ _ _ _ hr _ hx P L :=
    h.blockCall params dest callee hr (hx ⟨Set.univ, subset_rfl⟩)

end Steps

namespace AllSteps

variable [LawfulMonad m] [LawfulMonad m'] {R : Pairing m m'} (h : AllSteps R)
  {P P' : Multiset BlockName} {L : Set BlockName}
  {x y : WalkT m Unit} {x' y' : WalkT m' Unit}

include h

lemma jumpOut {v : Variant m} {v' : Variant m'} (info : Info) (kind : JumpKind)
    (failed : ∀ P L, R P P L Unit (v.failAt info (.noTarget kind)) (v'.failAt info (.noTarget kind)))
    (hx : R.Always x x') : R P P L _ (v.jumpOut info kind x) (v'.jumpOut info kind x') := by
  have aimed : ∀ T : JumpTargets, R P P (L ∪ T.names) Unit
      (v.target info kind T >>= fun n => do x; WalkT.jump n)
      (v'.target info kind T >>= fun n => do x'; WalkT.jump n) := by
    intro T
    unfold Variant.target
    cases target : T.get? kind with
    | some n =>
      simp only [pure_bind]
      exact h.bind (hx _ _) fun _ => h.jump (Or.inr ⟨kind, target⟩)
    | none =>
      simp only [Variant.failAt_bind]
      exact failed _ _
  exact h.targets aimed

/-- Copies of a clause are made, and what follows has them at hand. -/
lemma landings_bind {T : JumpTargets} (hT : T.names ⊆ L) (hy : R.Always y y')
    (kinds : List JumpKind) {inner : JumpTargets} (hi : inner.names ⊆ L)
    {f : JumpTargets → WalkT m Unit} {f' : JumpTargets → WalkT m' Unit}
    (hf : ∀ inner L', L ⊆ L' → inner.names ⊆ L' → R P P' L' _ (f inner) (f' inner)) :
    R P P' L _ (landings T y kinds inner >>= f) (landings T y' kinds inner >>= f') := by
  induction kinds generalizing L inner with
  | nil =>
    simp only [landings, pure_bind]
    exact hf inner L subset_rfl hi
  | cons kind kinds ih =>
    rw [landings, landings]
    cases target : T.get? kind with
    | none => exact ih hT hi hf
    | some n =>
      simp only [bind_assoc]
      refine h.create fun landing => ?_
      have later : L ⊆ insert landing L := Set.subset_insert landing L
      refine h.bind (h.note _) fun _ => h.bind (h.start (by simp)) fun _ => h.bind (hy _ _) fun _ =>
        h.bind (h.jump (later (hT ⟨kind, target⟩))) fun _ => ?_
      refine ih (hT.trans later) ?_ fun inner L' hL => hf inner L' (later.trans hL)
      rintro m ⟨kind', hm⟩
      rw [JumpTargets.get?_set] at hm
      split at hm
      · cases hm
        exact Set.mem_insert _ _
      · exact later (hi ⟨kind', hm⟩)

lemma guarded (hx : R.Always x x') (hy : R.Always y y') :
    R P P L _ (guarded x (some y)) (guarded x' (some y')) := by
  refine h.create fun bodyBlock => h.bind (h.jump (by simp)) fun _ => ?_
  refine h.targets fun T => h.landings_bind Set.subset_union_right hy JumpKind.all ?_ ?_
  · rintro n ⟨kind, hn⟩
    cases kind <;> cases hn
  · intro inner L' hL hi
    have inside : bodyBlock ∈ L' := hL (Or.inl (Set.mem_insert _ _))
    exact h.bind (h.withTargets hi (h.bind (h.start inside) fun _ => hx _ _)) fun _ =>
      h.create fun ensureBlock => h.create fun after => Pairing.swap (
        h.bind (h.start (by simp)) fun _ => h.bind (hy _ _) fun _ => h.start (by simp))

/-- Walks in two variants are related if the variants are. -/
lemma related {v : Variant m} {v' : Variant m'} (hv : R.Varies env env' v v') :
    Construction.Related env env' (fun _ => True) (R.relation v v') :=
  h.toSteps.related hv
    (fun info kind _ _ hx => h.jumpOut info kind (fun P L => hv.failAt P L _ info _) hx) h.guarded

end AllSteps

end WalkT

end ControlFlow
