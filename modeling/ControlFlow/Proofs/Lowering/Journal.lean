import ControlFlow.Proofs.Graph.Growth
import ControlFlow.Proofs.Lowering.Accepts
import ControlFlow.Proofs.Lowering.Schemes
/-!
# Journals of lowering

The journal of a lowering says when the targets of jumps change and when they are put back. `Bracketed`
is the grammar of such journals: what is written between a change and its end is written under the
changed targets, so that changes are nested, and the end names the targets from before the change.

A change is one of two. A loop or a block literal gives `break`, `next` and `redo` a target of its own
and keeps that of `return`. An `ensure` clause leads every jump that has a target to a landing, each of
which was written down before with a copy of the clause behind it.

A lowering that fails writes a journal in which all changes are ended as well. It may have got no
further than to one of the copies of an `ensure` clause.
-/

namespace ControlFlow

/-- A copy of an `ensure` clause in a journal. -/
structure Landing where
  kind : JumpKind
  /-- The block that jumps of the kind are led to. -/
  block : BlockName
  /-- What is written while the clause is walked. -/
  events : List Event

namespace Landing

/-- What a journal says about a copy. -/
def log (l : Landing) : List Event :=
  .blockCreated l.block :: .redirected l.kind l.block :: l.events

/-- The targets that lead to the landings, on top of some others. -/
def targets (ls : List Landing) (inner : JumpTargets) : JumpTargets :=
  ls.foldl (fun T l => T.set l.kind l.block) inner

end Landing

/-- What can be written under some targets, by a walk that succeeds or by one that is cut short. -/
inductive Bracketed : Bool → JumpTargets → List Event → Prop where
  | nil {cut : Bool} {T : JumpTargets} : Bracketed cut T []
  | created {cut : Bool} {T : JumpTargets} (n : BlockName) : Bracketed cut T [.blockCreated n]
  | append {cut : Bool} {T : JumpTargets} {es es' : List Event} (first : Bracketed false T es)
      (second : Bracketed cut T es') : Bracketed cut T (es ++ es')
  | loop {cut : Bool} {T : JumpTargets} (after next body : BlockName) {es : List Event}
      (inside : Bracketed cut (T.inLoop after next body) es) :
      Bracketed cut T (.targetsNow (T.inLoop after next body) :: es ++ [.targetsRestored T])
  | ensure {cut : Bool} {T : JumpTargets} {ls : List Landing} {es : List Event}
      (kinds : ls.map (·.kind) = T.active) (copies : ∀ l ∈ ls, Bracketed false T l.events)
      (inside : Bracketed cut (T.overlay (Landing.targets ls {})) es) :
      Bracketed cut T (ls.flatMap Landing.log ++
        .targetsNow (T.overlay (Landing.targets ls {})) :: es ++ [.targetsRestored T])
  | copying {T : JumpTargets} {ls : List Landing} {last : Landing}
      (kinds : (ls ++ [last]).map (·.kind) <+: T.active)
      (copies : ∀ l ∈ ls, Bracketed false T l.events) (unfinished : Bracketed true T last.events) :
      Bracketed true T (ls.flatMap Landing.log ++ last.log)

/-! ## Builders -/

namespace Builder

variable {b b' b₁ : Builder}

/-- Nothing has been written from one builder to another but that blocks were created. -/
def Creates (b b' : Builder) : Prop :=
  ∃ ns : List BlockName, b'.journal.toList = b.journal.toList ++ ns.map .blockCreated

namespace Creates

lemma of_eq (h : b'.journal = b.journal) : Creates b b' := ⟨[], by simp [h]⟩

lemma trans (h : Creates b b₁) (h' : Creates b₁ b') : Creates b b' := by
  obtain ⟨ns, h⟩ := h
  obtain ⟨ns', h'⟩ := h'
  exact ⟨ns ++ ns', by simp [h, h']⟩

lemma created : Creates b b.created := ⟨[b.fresh], Array.toList_push⟩

lemma emit (i : Instruction) : Creates b (b.emit i) := by
  have first : Creates b b.opened := by
    cases hb : b.current with
    | some n =>
      rw [opened_of_at hb]
      exact of_eq rfl
    | none =>
      rw [opened_eq hb]
      exact created
  obtain ⟨n, hn⟩ := b.exists_at_opened
  rw [← emit_opened]
  exact first.trans (of_eq (by rw [emit_eq hn]))

lemma startBlock (n : BlockName) : Creates b (b.startBlock n) := by
  unfold Builder.startBlock
  split
  · exact emit (.jump n)
  · exact of_eq rfl

lemma endRun (v : Binding) (x y : BlockName) : Creates b (b.endRun v x y) :=
  (emit (.resume v)).trans (emit (.branch none x y))

lemma land (landing x y : BlockName) : Creates b (b.land landing x y) := by
  unfold Builder.land
  split
  · have first : Creates b (b.startBlock landing) := startBlock landing
    have loaded : Creates (b.startBlock landing) ((b.startBlock landing).constTemp .nil).2 :=
      (of_eq rfl : Creates _ (b.startBlock landing).allocTemp.2).trans (emit _)
    exact (first.trans loaded).trans (endRun _ x y)
  · exact of_eq rfl

end Creates

end Builder

variable {T : JumpTargets}

lemma bracketed_map_created {cut : Bool} (ns : List BlockName) :
    Bracketed cut T (ns.map .blockCreated) := by
  induction ns with
  | nil => exact .nil
  | cons n ns ih => exact .append (.created n) ih

/-! ## Walks -/

/-- What was written from one state to another is bracketed, and the targets are as they were. -/
structure WalkState.Logged (cut : Bool) (s s' : WalkState) : Prop where
  targets : s'.targets = s.targets
  events : ∃ es, s'.builder.journal.toList = s.builder.journal.toList ++ es ∧
    Bracketed cut s.targets es

namespace WalkState.Logged

variable {cut : Bool} {s s' s₁ : WalkState}

lemma refl (s : WalkState) : s.Logged cut s := ⟨rfl, [], by simp, .nil⟩

lemma trans (h : s.Logged false s₁) (h' : s₁.Logged cut s') : s.Logged cut s' := by
  obtain ⟨targets, es, journal, bracketed⟩ := h
  obtain ⟨targets', es', journal', bracketed'⟩ := h'
  refine ⟨targets'.trans targets, es ++ es', by simp [journal, journal'], .append bracketed ?_⟩
  rwa [targets] at bracketed'

lemma of_creates {b b' : Builder} {d d' : Nat} (h : b.Creates b') :
    Logged cut ⟨b, T, d⟩ ⟨b', T, d'⟩ := by
  obtain ⟨ns, journal⟩ := h
  exact ⟨rfl, _, journal, bracketed_map_created ns⟩

end WalkState.Logged

namespace WalkT

variable {α β : Type}

/-- However the walk ends, what it has written is bracketed, and the targets are as they were. -/
structure Logs (x : Walk α) : Prop where
  yields {s : WalkState} {a : α} {s' : WalkState} (h : x.Yields s a s') : s.Logged false s'
  fails {s : WalkState} {e : LowerError} {s' : WalkState} (h : x.Fails s e s') : s.Logged true s'

namespace Logs

variable {x : Walk α} {f : α → Walk β}

lemma pure (a : α) : Logs (Pure.pure a : Walk α) := by
  constructor
  · rintro s a s' ⟨⟩
    exact .refl s
  · rintro s e s' ⟨⟩

lemma failAt (info : Info) (fault : LowerFault) : Logs (WalkT.failAt info fault : Walk α) := by
  constructor
  · rintro s a s' ⟨⟩
  · rintro s e s' ⟨⟩
    exact .refl s

lemma bind (hx : x.Logs) (hf : ∀ a, (f a).Logs) : (x >>= f).Logs := by
  constructor
  · intro s r s' h
    obtain ⟨a, s₁, h₁, h₂⟩ := yields_bind.1 h
    exact (hx.yields h₁).trans ((hf a).yields h₂)
  · intro s e s' h
    rcases fails_bind.1 h with h | ⟨a, s₁, h₁, h₂⟩
    · exact hx.fails h
    · exact (hx.yields h₁).trans ((hf a).fails h₂)

lemma build {g : Builder → Builder} (h : ∀ b : Builder, b.Creates (g b)) : (WalkT.build g).Logs := by
  constructor
  · rintro ⟨b, T, d⟩ a s' ⟨⟩
    exact .of_creates (h b)
  · rintro s e s' ⟨⟩

lemma take {g : Builder → α × Builder} (h : ∀ b : Builder, b.Creates (g b).2) :
    (WalkT.take g).Logs := by
  constructor
  · rintro ⟨b, T, d⟩ a s' ⟨⟩
    exact .of_creates (h b)
  · rintro s e s' ⟨⟩

lemma createBlock : WalkT.createBlock.Logs := take fun _ => .created

lemma startBlock (n : BlockName) : (WalkT.startBlock n).Logs := build fun _ => .startBlock n

lemma jump (n : BlockName) : (WalkT.jump n).Logs := build fun _ => .emit _

lemma get_bind {f : WalkState → Walk β} (hf : ∀ s, (f s).Logs) : (get >>= f).Logs :=
  ⟨fun {s _ _} h => (hf s).yields h, fun {s _ _} h => (hf s).fails h⟩

lemma jumpTarget (info : Info) (kind : JumpKind) : (WalkT.jumpTarget info kind).Logs := by
  refine get_bind fun s => ?_
  cases s.targets.get? kind with
  | some n => exact pure n
  | none => exact failAt info _

lemma nested {env : Environment} {info : Info} (hx : x.Logs) : (WalkT.nested env info x).Logs := by
  constructor
  · rintro ⟨b, T, d⟩ a s' h
    obtain ⟨s₁, inner, rfl⟩ := yields_nested h
    obtain ⟨targets, events⟩ := hx.yields inner
    exact ⟨targets, events⟩
  · rintro ⟨b, T, d⟩ e s' h
    rcases fails_nested.1 h with ⟨-, -, rfl⟩ | ⟨-, s₁, inner, rfl⟩
    · exact .refl _
    · obtain ⟨targets, events⟩ := hx.fails inner
      exact ⟨targets, events⟩

/-- What is written under other targets stands between the messages about them. -/
lemma withTargets_run {T' : JumpTargets} (hx : x.Logs) {b : Builder} {d : Nat} :
    (∀ a s', (WalkT.withTargets T' x).Yields ⟨b, T, d⟩ a s' → s'.targets = T ∧ ∃ es,
      s'.builder.journal.toList = b.journal.toList ++
        (.targetsNow (T.overlay T') :: es ++ [.targetsRestored T]) ∧
      Bracketed false (T.overlay T') es) ∧
    ∀ e s', (WalkT.withTargets T' x).Fails ⟨b, T, d⟩ e s' → s'.targets = T ∧ ∃ es,
      s'.builder.journal.toList = b.journal.toList ++
        (.targetsNow (T.overlay T') :: es ++ [.targetsRestored T]) ∧
      Bracketed true (T.overlay T') es := by
  constructor
  · intro a s' h
    obtain ⟨s₁, inner, rfl⟩ := yields_withTargets.1 h
    obtain ⟨-, es, journal, bracketed⟩ := hx.yields inner
    exact ⟨rfl, es, by simp [journal, Builder.note], bracketed⟩
  · intro e s' h
    obtain ⟨s₁, inner, rfl⟩ := fails_withTargets.1 h
    obtain ⟨-, es, journal, bracketed⟩ := hx.fails inner
    exact ⟨rfl, es, by simp [journal, Builder.note], bracketed⟩

lemma inLoop (after next body : BlockName) (hx : x.Logs) :
    (WalkT.withTargets ⟨some after, some next, some body, none⟩ x).Logs := by
  constructor
  · rintro ⟨b, T, d⟩ a s' h
    obtain ⟨targets, es, journal, bracketed⟩ := (withTargets_run hx).1 a s' h
    exact ⟨targets, _, journal, .loop after next body bracketed⟩
  · rintro ⟨b, T, d⟩ e s' h
    obtain ⟨targets, es, journal, bracketed⟩ := (withTargets_run hx).2 e s' h
    exact ⟨targets, _, journal, .loop after next body bracketed⟩

/-! ### Schemes -/

section

variable {y z : Walk Unit}

/-- All steps of walks write journals that are bracketed, but for changes of all targets. -/
lemma steps : Steps fun _ _ _ _ (x _ : Walk _) => x.Logs where
  pure a := pure a
  bind hx hf := hx.bind hf
  create hf := createBlock.bind hf
  reserve hf := (take fun _ => .of_eq rfl).bind hf
  allocTemp := take fun _ => .of_eq rfl
  emit i _ := build fun _ => .emit i
  start _ := startBlock _
  land _ _ _ := build fun _ => .land _ _ _
  aside hx hy := (take fun _ => .of_eq rfl).bind fun _ => hx.bind fun _ =>
    .bind (x := WalkT.resume _) (build fun _ => .of_eq rfl) fun _ => hy
  inLoop _ _ _ hx := inLoop _ _ _ hx

lemma jumpOut (info : Info) (kind : JumpKind) (hy : y.Logs) : (WalkT.jumpOut info kind y).Logs :=
  .bind (jumpTarget info kind) fun n => .bind hy fun _ => jump n

/-- The copies of an `ensure` clause, one for each kind of jump that leads somewhere, or as far as the
walk has come. -/
lemma landings_run (hz : z.Logs) (kinds : List JumpKind) (inner : JumpTargets) {b : Builder}
    {d : Nat} :
    (∀ inner' s', (WalkT.landings T z kinds inner).Yields ⟨b, T, d⟩ inner' s' → s'.targets = T ∧
      ∃ ls : List Landing, ls.map (·.kind) = kinds.filter (fun k => (T.get? k).isSome) ∧
        (∀ l ∈ ls, Bracketed false T l.events) ∧ inner' = Landing.targets ls inner ∧
        s'.builder.journal.toList = b.journal.toList ++ ls.flatMap Landing.log) ∧
    ∀ e s', (WalkT.landings T z kinds inner).Fails ⟨b, T, d⟩ e s' → s'.targets = T ∧
      ∃ (ls : List Landing) (last : Landing),
        (ls ++ [last]).map (·.kind) <+: kinds.filter (fun k => (T.get? k).isSome) ∧
        (∀ l ∈ ls, Bracketed false T l.events) ∧ Bracketed true T last.events ∧
        s'.builder.journal.toList = b.journal.toList ++ (ls.flatMap Landing.log ++ last.log) := by
  induction kinds generalizing inner b d with
  | nil =>
    constructor
    · rintro inner' s' ⟨⟩
      exact ⟨rfl, [], rfl, by simp, rfl, by simp⟩
    · rintro e s' ⟨⟩
  | cons kind kinds ih =>
    rw [WalkT.landings]
    cases target : T.get? kind with
    | none => simpa [target] using ih inner
    | some n =>
      -- the copy for the first kind is written down, and then those for the others
      let copy : Walk Unit := do WalkT.startBlock b.fresh; z; WalkT.jump n
      let begun : WalkState := ⟨b.created.note (.redirected kind b.fresh), T, d⟩
      have copied : copy.Logs := .bind (startBlock _) fun _ => .bind hz fun _ => jump n
      have written : begun.builder.journal.toList =
          b.journal.toList ++ [.blockCreated b.fresh, .redirected kind b.fresh] := by
        simp [begun, Builder.note, Builder.created, Builder.createBlock, Builder.fresh,
          Builder.reserveBlock]
      have further : (kind :: kinds).filter (fun k => (T.get? k).isSome) =
          kind :: kinds.filter fun k => (T.get? k).isSome := by simp [target]
      have walked : ExceptT.run (do
            let landing ← WalkT.createBlock
            WalkT.note (.redirected kind landing)
            WalkT.startBlock landing
            z
            WalkT.jump n
            WalkT.landings T z kinds (inner.set kind landing)) ⟨b, T, d⟩ =
          ExceptT.run (copy >>= fun _ => WalkT.landings T z kinds (inner.set kind b.fresh)) begun := by
        simp only [copy, bind_assoc]
        rfl
      rw [further]
      constructor
      · intro inner' s' h
        obtain ⟨_, ⟨b₁, T₁, d₁⟩, h₁, h₂⟩ := yields_bind.1 (walked.symm.trans h)
        obtain ⟨same, es, journal, bracketed⟩ := copied.yields h₁
        obtain rfl : T₁ = T := same
        obtain ⟨targets, ls, kinds, copies, rfl, journal'⟩ := (ih _).1 inner' s' h₂
        simp only [written] at journal
        refine ⟨targets, ⟨kind, b.fresh, es⟩ :: ls, by simp [kinds], ?_, rfl, ?_⟩
        · simpa using ⟨bracketed, copies⟩
        · simp [journal', journal, Landing.log]
      · intro e s' h
        rcases fails_bind.1 (walked.symm.trans h) with failed | ⟨_, ⟨b₁, T₁, d₁⟩, h₁, h₂⟩
        · obtain ⟨targets, es, journal, bracketed⟩ := copied.fails failed
          exact ⟨targets, [], ⟨kind, b.fresh, es⟩, by simp, by simp, bracketed, by
            simp [journal, written, Landing.log]⟩
        · obtain ⟨same, es, journal, bracketed⟩ := copied.yields h₁
          obtain rfl : T₁ = T := same
          obtain ⟨targets, ls, last, kinds, copies, unfinished, journal'⟩ := (ih _).2 e s' h₂
          simp only [written] at journal
          refine ⟨targets, ⟨kind, b.fresh, es⟩ :: ls, last, by simpa using kinds, ?_, unfinished, ?_⟩
          · simpa using ⟨bracketed, copies⟩
          · simp [journal', journal, Landing.log]

lemma guarded (hy : y.Logs) (hz : z.Logs) : (WalkT.guarded y (some z)).Logs := by
  refine .bind createBlock fun bodyBlock => .bind (jump bodyBlock) fun _ => ?_
  have body : (do WalkT.startBlock bodyBlock; y : Walk Unit).Logs :=
    .bind (startBlock bodyBlock) fun _ => hy
  have behind : (do
      let ensureBlock ← WalkT.createBlock
      let after ← WalkT.createBlock
      WalkT.startBlock ensureBlock
      z
      WalkT.startBlock after : Walk Unit).Logs :=
    .bind createBlock fun ensureBlock => .bind createBlock fun after =>
      .bind (startBlock ensureBlock) fun _ => .bind hz fun _ => startBlock after
  have ensured : (do
      let inner ← WalkT.landings (← get).targets z JumpKind.all {}
      WalkT.withTargets inner do WalkT.startBlock bodyBlock; y : Walk Unit).Logs := by
    constructor
    · rintro ⟨b, T, d⟩ a s' h
      obtain ⟨inner, ⟨b₁, T₁, d₁⟩, h₁, h₂⟩ := yields_bind.1 (yields_get_bind.1 h)
      obtain ⟨same, ls, kinds, copies, rfl, journal⟩ := (landings_run hz _ _).1 _ _ h₁
      obtain rfl : T₁ = T := same
      obtain ⟨targets, es, journal', bracketed⟩ := (withTargets_run body).1 _ _ h₂
      simp only at journal
      exact ⟨targets, _, by simp only [journal', journal, List.append_assoc],
        .ensure kinds copies bracketed⟩
    · rintro ⟨b, T, d⟩ e s' h
      have h : Fails (WalkT.landings T z JumpKind.all {} >>= fun inner =>
        WalkT.withTargets inner do WalkT.startBlock bodyBlock; y) ⟨b, T, d⟩ e s' := h
      rcases fails_bind.1 h with h | ⟨inner, ⟨b₁, T₁, d₁⟩, h₁, h₂⟩
      · obtain ⟨targets, ls, last, kinds, copies, unfinished, journal⟩ := (landings_run hz _ _).2 _ _ h
        exact ⟨targets, _, journal, .copying kinds copies unfinished⟩
      · obtain ⟨same, ls, kinds, copies, rfl, journal⟩ := (landings_run hz _ _).1 _ _ h₁
        obtain rfl : T₁ = T := same
        obtain ⟨targets, es, journal', bracketed⟩ := (withTargets_run body).2 _ _ h₂
        simp only at journal
        exact ⟨targets, _, by simp only [journal', journal, List.append_assoc],
          .ensure kinds copies bracketed⟩
  have all := ensured.bind fun _ => behind
  simpa only [bind_assoc] using all

/-- All operations of lowering write journals that are bracketed. -/
lemma related (env : Environment) : Construction.Related env env (fun _ => True)
    (Pairing.relation (fun _ _ _ _ (x _ : Walk _) => x.Logs) .plain .plain) :=
  steps.related ⟨rfl, fun _ _ _ info fault => failAt info fault,
      fun _ _ _ hx => nested (hx 0 ∅), steps.select⟩
    (fun info kind _ _ hx => jumpOut info kind (hx 0 ∅))
    fun hx hy => guarded (hx 0 ∅) (hy 0 ∅)

end

end Logs

end WalkT

/-- The messages before the first one of a lowering itself. -/
def Event.isPreliminary : Event → Bool
  | running .. | formsRead .. | building .. => true
  | _ => false

namespace Lowering

lemma wholeTree_logs (env : Environment) (root : Node) : (wholeTree env root).Logs :=
  WalkT.Logs.steps.wholeTree (WalkT.Logs.related env) root

/-- The journal of a lowering is bracketed, whether there is a graph in the end or not. -/
lemma run_bracketed (host : Host) (types : String → Option Binding) (options : Options)
    (root : Node) :
    ∃ before es, (∀ e ∈ before, e.isPreliminary = true) ∧
      match run host types options root with
      | (.ok g, journal) =>
        journal.toList = before ++ es ++ [.built g.blocks.length g.edges.length
          (outcome types options root).2.builder.tempCount] ∧ Bracketed false rootTargets es
      | (.error _, journal) => journal.toList = before ++ es ∧ Bracketed true rootTargets es := by
  have logs := wholeTree_logs ⟨types, options.maxDepth⟩ root
  rw [run]
  cases options.refusal? host with
  | some reason =>
    exact ⟨[.running task options.stackSize], [], by simp [Event.isPreliminary], rfl, .nil⟩
  | none =>
    refine ⟨(start options root).journal.toList, ?_⟩
    have opening : ∀ e ∈ (start options root).journal.toList, e.isPreliminary = true := by
      simp [start, initial, Event.isPreliminary]
    rcases ended : outcome types options root with ⟨e | u, s⟩
    · obtain ⟨-, es, journal, bracketed⟩ := logs.fails ended
      exact ⟨es, opening, journal, bracketed⟩
    · obtain ⟨-, es, journal, bracketed⟩ := logs.yields ended
      refine ⟨es, opening, ?_, bracketed⟩
      rw [Array.toList_push, journal]
      rfl

end Lowering

end ControlFlow
