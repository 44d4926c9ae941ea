import ControlFlow.Proofs.Lowering.Acceptance
import ControlFlow.Proofs.Lowering.Schemes
/-!
# The limit of levels

A walk under a higher limit does what it does under a lower one, up to the point where the lower
limit stops it. Only journals tell the two apart. Where a tree has no more levels than the lower
limit, it is not stopped there, whatever else may be wrong with it.
-/

namespace ControlFlow

/-! ## States that differ in their journals -/

/-- Two builders that differ in their journals alone. -/
def Builder.Alike (b b' : Builder) : Prop := ∃ journal, b' = { b with journal }

/-- What a builder becomes does not depend on its journal. -/
def Builder.Blind (f : Builder → Builder) : Prop := ∀ b b', b.Alike b' → (f b).Alike (f b')

namespace Builder

lemma Blind.comp {f g : Builder → Builder} (hg : Blind g) (hf : Blind f) : Blind (g ∘ f) :=
  fun _ _ h => hg _ _ (hf _ _ h)

lemma blind_note (e : Event) : Blind (·.note e) := by
  rintro b _ ⟨journal, rfl⟩
  exact ⟨_, rfl⟩

lemma blind_emit (i : Instruction) : Blind (·.emit i) := by
  rintro ⟨graph, current, nextBlock, nextTemp, j⟩ _ ⟨journal, rfl⟩
  cases current <;> exact ⟨_, rfl⟩

lemma blind_startBlock (name : BlockName) : Blind (·.startBlock name) := by
  rintro ⟨graph, current, nextBlock, nextTemp, j⟩ _ ⟨journal, rfl⟩
  cases current <;> exact ⟨_, rfl⟩

lemma blind_resume (name : Option BlockName) : Blind (·.resume name) := by
  rintro b _ ⟨journal, rfl⟩
  exact ⟨_, rfl⟩

lemma blind_endRun (v : Binding) (bodyBlock after : BlockName) :
    Blind (·.endRun v bodyBlock after) :=
  (blind_emit (.branch none bodyBlock after)).comp (blind_emit (.resume v))

lemma blind_land (landing bodyBlock after : BlockName) :
    Blind (·.land landing bodyBlock after) := by
  intro b b' h
  -- the landing block is started, and ends the run with a new temporary
  have landed : Blind fun b => ((b.startBlock landing).constTemp .nil).2.endRun
      ((b.startBlock landing).constTemp .nil).1 bodyBlock after := by
    intro b b' h
    obtain ⟨journal, started⟩ := blind_startBlock landing b b' h
    simp only [started]
    generalize b.startBlock landing = c
    have loaded : (c.constTemp .nil).2.Alike (({ c with journal } : Builder).constTemp .nil).2 :=
      blind_emit _ _ _ ⟨journal, rfl⟩
    exact blind_endRun (.temporary c.nextTemp) bodyBlock after _ _ loaded
  have graph : b'.graph = b.graph := by
    obtain ⟨journal, rfl⟩ := h
    rfl
  by_cases inside : b.graph.contains landing = true
  · simpa only [land, graph, if_pos inside] using landed b b' h
  · simpa only [land, graph, if_neg inside] using h

end Builder

/-- Two states that differ in their journals alone. -/
def WalkState.Alike (s s' : WalkState) : Prop :=
  s.builder.Alike s'.builder ∧ s'.targets = s.targets ∧ s'.depth = s.depth

namespace WalkT

variable {α β : Type}

/-- In states that differ in their journals alone, both walks end in the same way and in such
states, or the first one is stopped by an error of the given ones. -/
def Agrees (stop : LowerError → Prop) (w w' : Walk α) : Prop := ∀ s s' : WalkState, s.Alike s' →
  (∃ e s₁, stop e ∧ w.Fails s e s₁) ∨
    ∃ r s₁ s₁', w.run.run s = (r, s₁) ∧ w'.run.run s' = (r, s₁') ∧ s₁.Alike s₁'

/-- What is taken from a builder, and what it becomes, does not depend on its journal. -/
def BlindTake (f : Builder → α × Builder) : Prop :=
  ∀ b b', b.Alike b' → (f b').1 = (f b).1 ∧ (f b).2.Alike (f b').2

/-- Walks one level deeper, whatever the limit is. -/
def deeper (w : Walk α) : Walk α := ExceptT.mk fun s =>
  let (result, s') := w.run { s with depth := s.depth + 1 }
  (result, { s' with depth := s'.depth - 1 })

lemma nested_of_le {env : Environment} {s : WalkState} (info : Info) (w : Walk α)
    (full : env.maxDepth ≤ s.depth) :
    (nested env info w).Fails s (.atNode info (.depth env.maxDepth)) s :=
  fails_nested.2 (Or.inl ⟨full, rfl, rfl⟩)

lemma nested_of_lt {env : Environment} {s : WalkState} (info : Info) (w : Walk α)
    (free : ¬ env.maxDepth ≤ s.depth) : (nested env info w).run.run s = (deeper w).run.run s := by
  unfold nested deeper
  simp only [ExceptT.run_mk, StateT.run]
  exact if_neg free

namespace Agrees

variable {stop : LowerError → Prop} {w w' : Walk α}

lemma pure (a : α) : Agrees stop (Pure.pure a) (Pure.pure a) :=
  fun _ _ h => Or.inr ⟨.ok a, _, _, rfl, rfl, h⟩

lemma failAt (info : Info) (fault : LowerFault) :
    Agrees (α := α) stop (WalkT.failAt info fault) (WalkT.failAt info fault) :=
  fun _ _ h => Or.inr ⟨.error _, _, _, rfl, rfl, h⟩

lemma build {f : Builder → Builder} (hf : Builder.Blind f) :
    Agrees stop (WalkT.build f) (WalkT.build f) :=
  fun _ _ h => Or.inr ⟨.ok (), _, _, rfl, rfl, hf _ _ h.1, h.2⟩

lemma take {f : Builder → α × Builder} (hf : BlindTake f) :
    Agrees stop (WalkT.take f) (WalkT.take f) := by
  intro s s' h
  obtain ⟨same, alike⟩ := hf _ _ h.1
  refine Or.inr ⟨.ok (f s.builder).1, { s with builder := (f s.builder).2 },
    { s' with builder := (f s'.builder).2 }, rfl, ?_, alike, h.2⟩
  rw [← same]
  rfl

lemma bind {f f' : α → Walk β} (hw : Agrees stop w w') (hf : ∀ a, Agrees stop (f a) (f' a)) :
    Agrees stop (w >>= f) (w' >>= f') := by
  intro s s' h
  rcases hw s s' h with ⟨e, s₁, stops, stopped⟩ | ⟨r, s₁, s₁', first, first', h₁⟩
  · exact Or.inl ⟨e, s₁, stops, fails_bind.2 (Or.inl stopped)⟩
  · cases r with
    | error e =>
      have failed : (w >>= f).Fails s e s₁ := fails_bind.2 (Or.inl first)
      have failed' : (w' >>= f').Fails s' e s₁' := fails_bind.2 (Or.inl first')
      exact Or.inr ⟨.error e, s₁, s₁', failed, failed', h₁⟩
    | ok a =>
      have run : ∀ {v : Walk α} {g : α → Walk β} {s s₁ : WalkState}, v.run.run s = (.ok a, s₁) →
          (v >>= g).run.run s = (g a).run.run s₁ := by
        intro v g s s₁ hv
        rw [ExceptT.run_bind, StateT.run_bind, hv]
        rfl
      rcases hf a s₁ s₁' h₁ with ⟨e, s₂, stops, stopped⟩ | ⟨r, s₂, s₂', second, second', h₂⟩
      · exact Or.inl ⟨e, s₂, stops, fails_bind.2 (Or.inr ⟨a, s₁, first, stopped⟩)⟩
      · exact Or.inr ⟨r, s₂, s₂', (run first).trans second, (run first').trans second', h₂⟩

lemma deeper (h : Agrees stop w w') : Agrees stop (WalkT.deeper w) (WalkT.deeper w') := by
  rintro s s' ⟨alike, targets, depth⟩
  have inside : ({ s with depth := s.depth + 1 } : WalkState).Alike
      { s' with depth := s'.depth + 1 } := ⟨alike, targets, by simp [depth]⟩
  have run : ∀ {v : Walk α} {s s₁ : WalkState} {r : Except LowerError α},
      v.run.run { s with depth := s.depth + 1 } = (r, s₁) →
        (WalkT.deeper v).run.run s = (r, { s₁ with depth := s₁.depth - 1 }) := by
    intro v s s₁ r hv
    unfold WalkT.deeper
    simp only [ExceptT.run_mk, StateT.run]
    rw [show ExceptT.run v { s with depth := s.depth + 1 } = (r, s₁) from hv]
  rcases h _ _ inside with ⟨e, s₁, stops, stopped⟩ | ⟨r, s₁, s₁', inner, inner', h₁⟩
  · exact Or.inl ⟨e, _, stops, run stopped⟩
  · exact Or.inr ⟨r, _, _, run inner, run inner', h₁.1, h₁.2.1, by simp [h₁.2.2]⟩

/-- Under a lower limit the first walk is stopped where it is reached. -/
lemma nested {env env' : Environment} (le : env.maxDepth ≤ env'.maxDepth)
    (stops : env.maxDepth ≠ env'.maxDepth → ∀ info, stop (.atNode info (.depth env.maxDepth)))
    (info : Info) (h : Agrees stop w w') :
    Agrees stop (WalkT.nested env info w) (WalkT.nested env' info w') := by
  intro s s' alike
  have depth : s'.depth = s.depth := alike.2.2
  by_cases full : env.maxDepth ≤ s.depth
  · by_cases same : env.maxDepth = env'.maxDepth
    · have failed' := nested_of_le (s := s') info w' (same ▸ depth ▸ full)
      exact Or.inr ⟨_, s, s', nested_of_le info w full, same ▸ failed', alike⟩
    · exact Or.inl ⟨_, s, stops same info, nested_of_le info w full⟩
  · have below := h.deeper s s' alike
    simp only [Fails] at below ⊢
    rwa [nested_of_lt info w full, nested_of_lt info w' (by omega)]

lemma withTargets (overrides : JumpTargets) (h : Agrees stop w w') :
    Agrees stop (WalkT.withTargets overrides w) (WalkT.withTargets overrides w') := by
  rintro s s' ⟨alike, targets, depth⟩
  have run : ∀ {v : Walk α} {s s₁ : WalkState} {r : Except LowerError α},
      v.run.run { s with
        targets := s.targets.overlay overrides
        builder := s.builder.note (.targetsNow (s.targets.overlay overrides)) } = (r, s₁) →
          (WalkT.withTargets overrides v).run.run s = (r, { s₁ with
            targets := s.targets
            builder := s₁.builder.note (.targetsRestored s.targets) }) := by
    intro v s s₁ r hv
    unfold WalkT.withTargets
    simp only [ExceptT.run_mk, StateT.run]
    rw [show ExceptT.run v _ = _ from hv]
    rfl
  have inside := h
    { s with
      targets := s.targets.overlay overrides
      builder := s.builder.note (.targetsNow (s.targets.overlay overrides)) }
    { s' with
      targets := s'.targets.overlay overrides
      builder := s'.builder.note (.targetsNow (s'.targets.overlay overrides)) }
    ⟨by rw [targets]; exact Builder.blind_note _ _ _ alike, by simp [targets], depth⟩
  rcases inside with ⟨e, s₁, stops, stopped⟩ | ⟨r, s₁, s₁', inner, inner', h₁⟩
  · exact Or.inl ⟨e, _, stops, run stopped⟩
  · refine Or.inr ⟨r, _, _, run inner, run inner', ?_, targets, h₁.2.2⟩
    rw [targets]
    exact Builder.blind_note _ _ _ h₁.1

/-- What is taken from builders does not depend on their journals. -/
lemma blind_take {f : Builder → α × Builder}
    (h : ∀ (b : Builder) journal, (f { b with journal }).1 = (f b).1 ∧
      (f b).2.Alike (f { b with journal }).2) : BlindTake f := by
  rintro b _ ⟨journal, rfl⟩
  exact h b journal

/-- Every step keeps the agreement between walks. -/
lemma steps (stop : LowerError → Prop) : AllSteps fun _ _ _ _ w w' => Agrees stop w w' where
  pure a := pure a
  bind hx hf := hx.bind hf
  create hf := (take (blind_take fun _ _ => ⟨rfl, _, rfl⟩)).bind hf
  reserve hf := (take (blind_take fun _ _ => ⟨rfl, _, rfl⟩)).bind hf
  allocTemp := take (blind_take fun _ _ => ⟨rfl, _, rfl⟩)
  emit i _ := build (Builder.blind_emit i)
  start _ := build (Builder.blind_startBlock _)
  land _ _ _ := build (Builder.blind_land _ _ _)
  aside hx hy := (take (blind_take fun _ _ => ⟨rfl, _, rfl⟩)).bind fun n => hx.bind fun _ =>
    (build (Builder.blind_resume n)).bind fun _ => hy
  inLoop _ _ _ hx := withTargets _ hx
  note e := build (Builder.blind_note e)
  targets {_ _ _ _ f f'} hf := by
    -- both walks find the same targets
    rintro s ⟨b', T, d'⟩ ⟨alike, targets, depth⟩
    obtain rfl : T = s.targets := targets
    exact hf s.targets s ⟨b', s.targets, d'⟩ ⟨alike, rfl, depth⟩
  withTargets _ hx := withTargets _ hx

/-- Under a higher limit walks do the same, up to the lower one. -/
lemma related (env env' : Environment) (types : env.types = env'.types)
    (le : env.maxDepth ≤ env'.maxDepth)
    (stops : env.maxDepth ≠ env'.maxDepth → ∀ info, stop (.atNode info (.depth env.maxDepth))) :
    Construction.Related env env' (fun _ => True)
      (Pairing.relation (fun _ _ _ _ w w' => Agrees stop w w') .plain .plain) :=
  (steps stop).related ⟨types, fun _ _ _ info fault => failAt info fault,
    fun info _ _ h => nested le stops info (h 0 ∅), (steps stop).select⟩

end Agrees

end WalkT

/-! ## Levels and faults -/

lemma Node.levels_child (info : Info) {kind : Kind Node} {role : Role} {c : Node}
    (mem : (role, c) ∈ kind.fields) :
    (if c.isWrapper role then c.levels else c.levels + 1) ≤ (Node.mk info kind).levels :=
  Node.levels_le.1 le_rfl role c mem

/-- What is spliced is a level. -/
lemma Node.levels_splat {n : Node} (splat : n.isSplat = true) : 0 < n.levels := by
  induction n using Node.induction_below with
  | step n ih =>
    obtain ⟨info, kind⟩ := n
    cases kind
    case splat c =>
      have field : (.value, c) ∈ (Kind.splat c).fields := .head _
      have le := Node.levels_child info field
      by_cases wrapper : c.isWrapper .value = true
      · have inner : c.isSplat = true := by simpa [isWrapper] using wrapper
        have pos := ih c (.child (Kind.mem_children.2 ⟨_, field⟩)) inner
        rw [if_pos wrapper] at le
        omega
      · rw [if_neg wrapper] at le
        omega
    all_goals cases splat

/-- A tree is too deep for a limit only if it has more levels. -/
lemma Node.Faulty.levels {types : String → Option Binding} {limit d : Nat} {mode : WalkMode}
    {n : Node} {e : LowerError} (h : n.Faulty types limit mode d e)
    (deep : e.fault.kind = .depthLimitExceeded) : limit < d + n.levels := by
  induction h with
  | unannotated _ named =>
    rw [LowerError.atNode] at deep
    simp [named] at deep
  | adrift => cases deep
  | twoBlocks => cases deep
  | @misplaced mode μ d info kind role c mem wrong =>
    rcases kind.kind_refusal info mode role μ c with same | same
    all_goals
      rw [same] at deep
      cases deep
  | @tooDeep mode μ d info kind role c mem entered full =>
    have le := Node.levels_child info ((Kind.mem_fields_iff mode).2 ⟨μ, mem⟩)
    by_cases wrapper : c.isWrapper role = true
    · -- only what is spliced in no list is both entered and no level of its own
      have splat : c.isSplat = true := by
        cases role <;> simp_all [Node.isEntered, Role.isPlain, Role.isItem, Node.isWrapper]
      have pos := Node.levels_splat splat
      rw [if_pos wrapper] at le
      omega
    · rw [if_neg wrapper] at le
      omega
  | @inside mode μ d info kind role c e mem takes inner ih =>
    have le := Node.levels_child info ((Kind.mem_fields_iff mode).2 ⟨μ, mem⟩)
    have below := ih deep
    split at below <;> simp_all <;> omega

namespace Lowering

variable {host : Host} {types : String → Option Binding} {options options' : Options} {root : Node}

/-- A tree that is not too deep is not refused for its depth. -/
lemma kind_of_build {e : LowerError} (stack : options.hasStack host = true)
    (fits : root.depth ≤ options.maxDepth) (h : build host types options root = .error e) :
    e.fault.kind ≠ .depthLimitExceeded := by
  intro deep
  rw [Node.depth] at fits
  rcases blamed_of_build stack h with ⟨full, rfl⟩ | ⟨-, rfl⟩ | ⟨-, faulty⟩
  · simp only at full
    omega
  · cases deep
  · have := faulty.levels deep
    simp only at this
    omega

/-- Under a higher limit the same is built, unless the lower one is exceeded. -/
lemma build_agrees (stack : options.hasStack host = true) (stack' : options'.hasStack host = true)
    (le : options.maxDepth ≤ options'.maxDepth) (root : Node) :
    (∃ e, build host types options root = .error e ∧ e.fault = .depth options.maxDepth) ∨
      build host types options root = build host types options' root := by
  let stop : LowerError → Prop := fun e => e.fault = .depth options.maxDepth
  have whole : WalkT.Agrees stop (wholeTree ⟨types, options.maxDepth⟩ root)
      (wholeTree ⟨types, options'.maxDepth⟩ root) :=
    (WalkT.Agrees.steps stop).wholeTree (WalkT.Agrees.related ⟨types, options.maxDepth⟩
      ⟨types, options'.maxDepth⟩ rfl le fun _ _ => rfl) root
  have starts : (initial options root).Alike (initial options' root) := ⟨⟨_, rfl⟩, rfl, rfl⟩
  rw [build, build, run_of_stack stack, run_of_stack stack']
  rcases whole _ _ starts with ⟨e, s, stops, stopped⟩ | ⟨r, s, s', ended, ended', ⟨journal, same⟩, -⟩
  · left
    rw [show outcome types options root = _ from stopped]
    exact ⟨e, rfl, stops⟩
  · right
    rw [show outcome types options root = _ from ended,
      show outcome types options' root = _ from ended']
    cases r with
    | ok u => simp only [conclude, same]
    | error e => rfl

end Lowering

end ControlFlow
