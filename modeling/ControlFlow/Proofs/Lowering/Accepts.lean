import ControlFlow.Proofs.Code.Linked
import ControlFlow.Proofs.Syntax.Visits
/-!
# When walks succeed, and how they fail

A walk fails at a fault of the tree, at the limit of levels, or at a jump that leads nowhere. So
whether it succeeds depends on the number of levels around it and on the kinds of jumps that lead
somewhere, and on nothing else that it finds. Here is when each scheme of control flow succeeds,
given when its parts do. If it fails, it does so with an error of one of its parts, and a part is
walked at the same depth as the scheme.
-/

namespace ControlFlow

variable {info : Info} {T : JumpTargets} {b : Builder} {d : Nat} {fault : LowerFault}

namespace WalkT

variable {α β : Type} {s s' : WalkState} {e : LowerError}

/-- The walk ends in a state with an error. -/
def Fails (w : Walk α) (s : WalkState) (e : LowerError) (s' : WalkState) : Prop :=
  w.run.run s = (.error e, s')

lemma fails_bind {x : Walk α} {f : α → Walk β} : (x >>= f).Fails s e s' ↔
    x.Fails s e s' ∨ ∃ a s₁, x.Yields s a s₁ ∧ (f a).Fails s₁ e s' := by
  simp only [Fails, Yields, ExceptT.run_bind, StateT.run_bind]
  rcases hx : x.run.run s with ⟨r, s₁⟩
  cases r with
  | ok a =>
    constructor
    · exact fun h => Or.inr ⟨a, s₁, rfl, h⟩
    · rintro (h | ⟨_, _, h, h'⟩)
      · cases h
      · cases h
        exact h'
  | error e' =>
    constructor
    · intro h
      cases h
      exact Or.inl rfl
    · rintro (h | ⟨_, _, h, -⟩)
      · cases h
        rfl
      · cases h

lemma fails_failAt :
    (failAt info fault : Walk α).Fails s e s' ↔ e = .atNode info fault ∧ s' = s := by
  constructor
  · intro h
    cases h
    exact ⟨rfl, rfl⟩
  · rintro ⟨rfl, rfl⟩
    rfl

lemma fails_nested {env : Environment} {w : Walk α} : (nested env info w).Fails ⟨b, T, d⟩ e s' ↔
      env.maxDepth ≤ d ∧ e = .atNode info (.depth env.maxDepth) ∧ s' = ⟨b, T, d⟩ ∨
      d < env.maxDepth ∧
        ∃ s₁, w.Fails ⟨b, T, d + 1⟩ e s₁ ∧ s' = { s₁ with depth := s₁.depth - 1 } := by
  unfold Fails nested
  simp only [ExceptT.run_mk, StateT.run]
  by_cases full : env.maxDepth ≤ d
  · rw [if_pos full]
    constructor
    · rintro ⟨⟩
      exact Or.inl ⟨full, rfl, rfl⟩
    · rintro (⟨-, rfl, rfl⟩ | ⟨free, -⟩)
      · rfl
      · exact absurd full (Nat.not_le.2 free)
  · rw [if_neg full]
    rcases ended : ExceptT.run w ⟨b, T, d + 1⟩ with ⟨r, s₁⟩
    constructor
    · rintro ⟨⟩
      exact Or.inr ⟨Nat.not_le.1 full, s₁, rfl, rfl⟩
    · rintro (⟨limit, -⟩ | ⟨-, _, ⟨⟩, rfl⟩)
      · exact absurd limit full
      · rfl

lemma fails_withTargets {overrides : JumpTargets} {w : Walk α} :
    (withTargets overrides w).Fails ⟨b, T, d⟩ e s' ↔
      ∃ s₁, w.Fails ⟨b.note (.targetsNow (T.overlay overrides)), T.overlay overrides, d⟩ e s₁ ∧
        s' = ⟨s₁.builder.note (.targetsRestored T), T, s₁.depth⟩ := by
  unfold Fails withTargets
  simp only [ExceptT.run_mk, StateT.run]
  rcases ended : ExceptT.run w
    ⟨b.note (.targetsNow (T.overlay overrides)), T.overlay overrides, d⟩ with ⟨r, s₁⟩
  constructor
  · rintro ⟨⟩
    exact ⟨s₁, rfl, rfl⟩
  · rintro ⟨_, ⟨⟩, rfl⟩
    rfl

/-- What a walk needs: a condition on the levels around it and on the jumps that are possible. -/
abbrev Need : Type := Nat → Set JumpKind → Prop

/-- The errors that are possible, each with the number of levels around the walk that ends with
it. -/
abbrev Blame : Type := Nat → LowerError → Prop

/-- A fault of a node that lacks an annotation. -/
def Blame.Lacks (F : Blame) (info : Info) : Prop :=
  ∀ d fault, fault.kind = .unannotated → F d (.atNode info fault)

/-- A walk that succeeds where its need is met, and only there. It leaves targets and depth as they
were. All of its errors are in `F`. -/
structure Accepts (w : Walk α) (F : Blame) (P : Need) : Prop where
  succeeds {b : Builder} {T : JumpTargets} {d : Nat} (h : P d T.kinds) :
    ∃ a s', w.Yields ⟨b, T, d⟩ a s'
  needs {b : Builder} {T : JumpTargets} {d : Nat} {a : α} {s' : WalkState}
    (h : w.Yields ⟨b, T, d⟩ a s') : P d T.kinds ∧ ∃ b', s' = ⟨b', T, d⟩
  fails {b : Builder} {T : JumpTargets} {d : Nat} {e : LowerError} {s' : WalkState}
    (h : w.Fails ⟨b, T, d⟩ e s') : F d e

end WalkT

open WalkT (Need Blame)

/-- The mode of a construct that fills a result, if it is given one. -/
def WalkMode.ofResult : Option Binding → WalkMode
  | some _ => .value
  | none => .effect

/-- What an alternative needs is what all its parts need. -/
inductive Alternative.Accepts (F : Blame) : Alternative Walk → Need → Prop where
  | nothing : Accepts F .nothing fun _ _ => True
  | last {x : Walk Unit} {P : Need} (h : x.Accepts F P) : Accepts F (.last x) P
  | clause {c : Walk Binding} {x : Walk Unit} {rest : Alternative Walk} {P Q R : Need}
      (hc : c.Accepts F P) (hx : x.Accepts F Q) (ha : Accepts F rest R) :
      Accepts F (.clause c x rest) fun d J => P d J ∧ Q d J ∧ R d J
  | congr {a : Alternative Walk} {P Q : Need} (h : Accepts F a P) (same : ∀ d J, P d J ↔ Q d J) :
      Accepts F a Q

/-- What the clauses of a `case` need is what all their parts need. -/
inductive Clauses.Accepts (F : Blame) : Clauses Walk → Need → Prop where
  | last {x : Walk Unit} {P : Need} (h : x.Accepts F P) : Accepts F (.last x) P
  | clause {tests : List (Walk Binding)} {x : Walk Unit} {rest : Clauses Walk} {Ps : List Need}
      {P Q : Need} (ht : List.Forall₂ (WalkT.Accepts · F) tests Ps) (hx : x.Accepts F P)
      (hc : Accepts F rest Q) :
      Accepts F (.clause tests x rest) fun d J => (∀ R ∈ Ps, R d J) ∧ P d J ∧ Q d J
  | congr {cs : Clauses Walk} {P Q : Need} (h : Accepts F cs P) (same : ∀ d J, P d J ↔ Q d J) :
      Accepts F cs Q

/-- Block parameters are no rest parameters, so leaving them out loses none. -/
lemma Signature.isSome_restIndex? (method : Signature) :
    method.restIndex?.isSome ↔ ∃ p ∈ method.params, p.kind = .rest := by
  simp only [restIndex?, positional, List.findIdx?_isSome, List.any_eq_true, List.mem_filter,
    decide_eq_true_eq]
  constructor
  · rintro ⟨p, ⟨mem, -⟩, kind⟩
    exact ⟨p, mem, kind⟩
  · rintro ⟨p, mem, kind⟩
    exact ⟨p, ⟨mem, by simp [kind]⟩, kind⟩

namespace WalkT.Accepts

variable {α β : Type} {w : Walk α} {F G : Blame} {P Q R : Need}

lemma steady (h : w.Accepts F P) : w.Steady := fun _ _ _ _ _ hw => (h.needs hw).2

lemma congr (h : w.Accepts F P) (same : ∀ d J, P d J ↔ Q d J) : w.Accepts F Q :=
  ⟨fun hq => h.succeeds ((same _ _).2 hq), fun hw => ⟨(same _ _).1 (h.needs hw).1, (h.needs hw).2⟩,
    h.fails⟩

lemma mono (h : w.Accepts F P) (le : ∀ d e, F d e → G d e) : w.Accepts G P :=
  ⟨h.succeeds, h.needs, fun failed => le _ _ (h.fails failed)⟩

/-- A walk that succeeds for a result succeeds where its need is met. -/
lemma yields (h : w.Accepts F P) (hp : P d T.kinds) : ∃ a b', w.Yields ⟨b, T, d⟩ a ⟨b', T, d⟩ := by
  obtain ⟨a, s', hw⟩ := h.succeeds hp
  obtain ⟨-, b', rfl⟩ := h.needs hw
  exact ⟨a, b', hw⟩

lemma iff (h : w.Accepts F P) : (∃ a s', w.Yields ⟨b, T, d⟩ a s') ↔ P d T.kinds :=
  ⟨fun ⟨_, _, hw⟩ => (h.needs hw).1, h.succeeds⟩

/-! ## Steps -/

/-- A walk that always succeeds needs nothing and has no errors. -/
lemma of_yields (h : ∀ b T d, ∃ a b', w.Yields ⟨b, T, d⟩ a ⟨b', T, d⟩) :
    w.Accepts F fun _ _ => True := by
  constructor
  · intro b T d _
    obtain ⟨a, b', hw⟩ := h b T d
    exact ⟨a, _, hw⟩
  · intro b T d a s' hw
    obtain ⟨a', b', hw'⟩ := h b T d
    cases (yields_iff_run.1 hw).symm.trans hw'
    exact ⟨trivial, b', rfl⟩
  · intro b T d e s' failed
    obtain ⟨a, b', hw⟩ := h b T d
    cases (yields_iff_run.1 hw).symm.trans failed

lemma pure (a : α) : (Pure.pure a : Walk α).Accepts F fun _ _ => True :=
  of_yields fun b _ _ => ⟨a, b, yields_pure.2 ⟨rfl, rfl⟩⟩

lemma build (f : Builder → Builder) : (WalkT.build f).Accepts F fun _ _ => True :=
  of_yields fun _ _ _ => ⟨(), _, yields_build.2 rfl⟩

lemma take (f : Builder → α × Builder) : (WalkT.take f).Accepts F fun _ _ => True :=
  of_yields fun _ _ _ => ⟨_, _, yields_take.2 ⟨rfl, rfl⟩⟩

lemma failAt (h : ∀ d, F d (.atNode info fault)) :
    (WalkT.failAt info fault : Walk α).Accepts F fun _ _ => False := by
  refine ⟨False.elim, fun hw => absurd hw not_yields_failAt, fun failed => ?_⟩
  rw [(fails_failAt.1 failed).1]
  exact h _

/-- A walk behind another, which does not need more or less for its result. -/
lemma bind {f : α → Walk β} (hw : w.Accepts F P) (hf : ∀ a, (f a).Accepts F Q) :
    (w >>= f).Accepts F fun d J => P d J ∧ Q d J := by
  constructor
  · rintro b T d ⟨hp, hq⟩
    obtain ⟨a, b₁, h₁⟩ := hw.yields hp
    obtain ⟨r, s', h₂⟩ := (hf a).succeeds hq
    exact ⟨r, s', yields_bind.2 ⟨a, _, h₁, h₂⟩⟩
  · intro b T d r s' h
    obtain ⟨a, s₁, h₁, h₂⟩ := yields_bind.1 h
    obtain ⟨hp, b₁, rfl⟩ := hw.needs h₁
    obtain ⟨hq, hs⟩ := (hf a).needs h₂
    exact ⟨⟨hp, hq⟩, hs⟩
  · intro b T d e s' failed
    rcases fails_bind.1 failed with first | ⟨a, s₁, h₁, second⟩
    · exact hw.fails first
    · obtain ⟨-, b₁, rfl⟩ := hw.needs h₁
      exact (hf a).fails second

/-- What follows a walk that needs nothing. -/
lemma free_bind {f : α → Walk β} (hw : w.Accepts F fun _ _ => True)
    (hf : ∀ a, (f a).Accepts F P) : (w >>= f).Accepts F P :=
  (hw.bind hf).congr fun _ _ => by rw [true_and]

lemma build_bind {g : Builder → Builder} {f : Unit → Walk β} (h : (f ()).Accepts F P) :
    (WalkT.build g >>= f).Accepts F P :=
  (build g).free_bind fun _ => h

lemma take_bind {g : Builder → α × Builder} {f : α → Walk β} (h : ∀ a, (f a).Accepts F P) :
    (WalkT.take g >>= f).Accepts F P :=
  (take g).free_bind h

/-- What a walk needs, if all that follows needs nothing. -/
lemma bind_free {f : α → Walk β} (hw : w.Accepts F P)
    (hf : ∀ a, (f a).Accepts F fun _ _ => True) : (w >>= f).Accepts F P :=
  (hw.bind hf).congr fun _ _ => by rw [and_true]

/-- One level deeper, the limit is one more reason to fail. -/
lemma nested (env : Environment) (info : Info) (h : w.Accepts F P) :
    (WalkT.nested env info w).Accepts
      (fun d e => env.maxDepth ≤ d ∧ e = .atNode info (.depth env.maxDepth) ∨ F (d + 1) e)
      fun d J => d < env.maxDepth ∧ P (d + 1) J := by
  constructor
  · rintro b T d ⟨hd, hp⟩
    obtain ⟨a, b', hw⟩ := h.yields hp
    exact ⟨a, ⟨b', T, d⟩, yields_nested_iff.2 ⟨hd, _, hw, rfl⟩⟩
  · intro b T d a s' hw
    obtain ⟨deep, s₁, inner, rfl⟩ := yields_nested_iff.1 hw
    obtain ⟨hp, b', rfl⟩ := h.needs inner
    exact ⟨⟨deep, hp⟩, b', rfl⟩
  · intro b T d e s' failed
    rcases fails_nested.1 failed with ⟨limit, error, -⟩ | ⟨-, s₁, inner, -⟩
    · exact Or.inl ⟨limit, error⟩
    · exact Or.inr (h.fails inner)

lemma withTargets (overrides : JumpTargets) (h : w.Accepts F P) :
    (WalkT.withTargets overrides w).Accepts F fun d J => P d (J ∪ overrides.kinds) := by
  constructor
  · intro b T d hp
    rw [← JumpTargets.kinds_overlay] at hp
    obtain ⟨a, b', hw⟩ := h.yields (b := b.note (.targetsNow (T.overlay overrides))) hp
    exact ⟨a, _, yields_withTargets.2 ⟨_, hw, rfl⟩⟩
  · intro b T d a s' hw
    obtain ⟨s₁, inner, rfl⟩ := yields_withTargets.1 hw
    obtain ⟨hp, b', rfl⟩ := h.needs inner
    rw [JumpTargets.kinds_overlay] at hp
    exact ⟨hp, _, rfl⟩
  · intro b T d e s' failed
    obtain ⟨s₁, inner, -⟩ := fails_withTargets.1 failed
    exact h.fails inner

variable {a : Alternative Walk} {kind : JumpKind}

lemma jumpTarget (h : ∀ d, F d (.atNode info (.noTarget kind))) :
    (WalkT.jumpTarget info kind).Accepts F fun _ J => kind ∈ J := by
  constructor
  · intro b T d hk
    obtain ⟨name, ht⟩ := Option.isSome_iff_exists.1 hk
    exact ⟨name, _, yields_jumpTarget.2 ⟨ht, rfl⟩⟩
  · intro b T d name s' hw
    obtain ⟨ht, rfl⟩ := yields_jumpTarget.1 hw
    exact ⟨Option.isSome_iff_exists.2 ⟨name, ht⟩, _, rfl⟩
  · intro b T d e s' failed
    unfold WalkT.jumpTarget at failed
    rcases fails_bind.1 failed with first | ⟨s₀, s₁, got, second⟩
    · cases first
    · cases got
      cases ht : T.get? kind with
      | some name =>
        simp only [ht] at second
        cases second
      | none =>
        simp only [ht] at second
        rw [(fails_failAt.1 second).1]
        exact h d

/-! ## Two ways -/

variable {test c : Walk Binding} {x y : Walk Unit}

lemma jumpOut (h : ∀ d, F d (.atNode info (.noTarget kind))) (hx : x.Accepts F P) :
    (WalkT.jumpOut info kind x).Accepts F fun d J => kind ∈ J ∧ P d J :=
  (jumpTarget h).bind fun _ => hx.bind_free fun _ => build _

lemma twoWays (on : Bool) (ht : test.Accepts F P) (hx : x.Accepts F Q) (hy : y.Accepts F R) :
    (WalkT.twoWays test on x y).Accepts F fun d J => P d J ∧ Q d J ∧ R d J :=
  take_bind fun _ => take_bind fun _ => take_bind fun _ => ht.bind fun _ =>
    build_bind (build_bind (hx.bind fun _ => build_bind (build_bind (hy.bind_free fun _ =>
      build_bind (build _)))))

lemma detour (b : Binding) (on : Bool) (hx : x.Accepts F P) : (WalkT.detour b on x).Accepts F P :=
  take_bind fun _ => take_bind fun _ => build_bind (build_bind (hx.bind_free fun _ => build _))

/-! ## Conditionals -/

lemma clause_none (after : BlockName) (on : Bool) (hc : c.Accepts F P) (hx : x.Accepts F Q) :
    (WalkT.clause after on c x none).Accepts F fun d J => P d J ∧ Q d J :=
  take_bind fun _ => hc.bind fun _ => build_bind (build_bind (hx.bind_free fun _ => build _))

lemma clause_some (after : BlockName) (on : Bool) (hc : c.Accepts F P) (hx : x.Accepts F Q)
    (hy : y.Accepts F R) :
    (WalkT.clause after on c x (some y)).Accepts F fun d J => P d J ∧ Q d J ∧ R d J :=
  take_bind fun _ => take_bind fun _ => hc.bind fun _ => build_bind (build_bind (hx.bind fun _ =>
    build_bind (build_bind hy)))

lemma clause_alternative (after : BlockName) (on : Bool) (hc : c.Accepts F P) (hx : x.Accepts F Q)
    (ha : a.Accepts F R) :
    (WalkT.clause after on c x (WalkT.alternative after a)).Accepts F
      fun d J => P d J ∧ Q d J ∧ R d J := by
  induction ha generalizing on c x P Q with
  | nothing => exact (clause_none after on hc hx).congr fun _ _ => by rw [and_true]
  | last h => exact clause_some after on hc hx (h.bind_free fun _ => build _)
  | clause hc' hx' _ ih => exact clause_some after on hc hx (ih true hc' hx')
  | congr _ same ih => exact (ih on hc hx).congr fun d J => by rw [same]

lemma conditional (on : Bool) (hc : c.Accepts F P) (hx : x.Accepts F Q) (ha : a.Accepts F R) :
    (WalkT.conditional on c x a).Accepts F fun d J => P d J ∧ Q d J ∧ R d J :=
  take_bind fun after => (clause_alternative after on hc hx ha).bind_free fun _ => build _

lemma tryTests (bodyBlock : BlockName) {tests : List (Walk Binding)} {Ps : List Need}
    (h : List.Forall₂ (Accepts · F) tests Ps) :
    (WalkT.tryTests bodyBlock tests).Accepts F fun d J => ∀ P ∈ Ps, P d J := by
  induction h with
  | nil => exact (pure ()).congr fun _ _ => by simp
  | @cons t P tests Ps ht _ ih =>
    have first : (WalkT.tryTest bodyBlock t).Accepts F P :=
      take_bind fun _ => ht.bind_free fun _ => build_bind (build _)
    exact (first.bind fun _ => ih).congr fun d J => by rw [List.forall_mem_cons]

lemma clauses (after : BlockName) {cs : Clauses Walk} (h : cs.Accepts F P) :
    (WalkT.clauses after cs).Accepts F P := by
  induction h with
  | last h => exact h.bind_free fun _ => build _
  | clause ht hx _ ih =>
    exact take_bind fun _ => (tryTests _ ht).bind fun _ => take_bind fun _ => build_bind
      (hx.bind fun _ => build_bind (build_bind ih))
  | congr _ same ih => exact ih.congr same

lemma select {subject : Walk Binding} {cs : Binding → Clauses Walk} (hs : subject.Accepts F P)
    (hc : ∀ v, (cs v).Accepts F Q) : (WalkT.select subject cs).Accepts F fun d J => P d J ∧ Q d J :=
  take_bind fun after => hs.bind fun v => (clauses after (hc v)).bind_free fun _ => build _

/-! ## Loops -/

lemma kinds_loopTargets (after next bodyBlock : BlockName) :
    (⟨some after, some next, some bodyBlock, none⟩ : JumpTargets).kinds = JumpKind.ofLoop := by
  ext kind
  cases kind <;> simp [JumpTargets.kinds, JumpTargets.get?, JumpKind.ofLoop]

lemma loop (sense : LoopSense) (hc : c.Accepts F P) (hx : x.Accepts F Q) :
    (WalkT.loop sense c x).Accepts F
      fun d J => P d (J ∪ JumpKind.ofLoop) ∧ Q d (J ∪ JumpKind.ofLoop) := by
  have test : ∀ bodyBlock after, (WalkT.loopTest sense c bodyBlock after).Accepts F P :=
    fun _ _ => hc.bind_free fun _ => build _
  refine take_bind fun bodyBlock => take_bind fun after => take_bind fun pretest => ?_
  refine bind_free (congr (withTargets _ (build_bind ((test _ _).bind fun _ => build_bind
    (hx.bind fun _ => test _ _)))) fun d J => ?_) fun _ => build _
  rw [kinds_loopTargets]
  tauto

/-! ## Clauses that always run -/

lemma unguarded (hx : x.Accepts F P) : (WalkT.guarded x none).Accepts F P :=
  take_bind fun _ => build_bind (build_bind hx)

/-- A copy of the clause is walked for each kind of jump that leads somewhere. -/
lemma landings (T : JumpTargets) (hy : y.Accepts F Q) (kinds : List JumpKind)
    (inner : JumpTargets) : (WalkT.landings T y kinds inner).Accepts F
      fun d J => (∃ kind ∈ kinds, (T.get? kind).isSome) → Q d J := by
  induction kinds generalizing inner with
  | nil => exact (pure inner).congr fun _ _ => by simp
  | cons kind kinds ih =>
    rw [WalkT.landings]
    cases target : T.get? kind with
    | none => exact (ih inner).congr fun _ _ => by simp [target]
    | some target =>
      refine congr (take_bind fun _ => build_bind (build_bind (hy.bind fun _ =>
        build_bind (ih _)))) fun d J => ?_
      simp_all

/-- The copies lead jumps of no other kinds. -/
lemma landings_kinds (hy : y.Accepts F Q) {inner : JumpTargets} {s' : WalkState}
    (h : (WalkT.landings T y JumpKind.all {}).Yields ⟨b, T, d⟩ inner s') :
    (∃ b', s' = ⟨b', T, d⟩) ∧ T.kinds ∪ inner.kinds = T.kinds := by
  obtain ⟨cs, b', rfl, chain, -⟩ := yields_landings hy.steady h
  have known : inner.kinds ⊆ T.kinds := Linked.kinds_inner chain (by rintro (_ | _) ⟨⟩)
  exact ⟨⟨b', rfl⟩, Set.union_eq_self_of_subset_right known⟩

lemma guarded (hx : x.Accepts F P) (hy : y.Accepts F Q) :
    (WalkT.guarded x (some y)).Accepts F fun d J => P d J ∧ Q d J := by
  -- behind the copies
  have rest : ∀ inner bodyBlock, (do
      WalkT.withTargets inner do
        startBlock bodyBlock
        x
      let ensureBlock ← createBlock
      let after ← createBlock
      startBlock ensureBlock
      y
      startBlock after : Walk Unit).Accepts F fun d J => P d (J ∪ inner.kinds) ∧ Q d J :=
    fun inner _ => (withTargets inner (build_bind hx)).bind fun _ => take_bind fun _ =>
      take_bind fun _ => build_bind (hy.bind_free fun _ => build _)
  refine take_bind fun bodyBlock => build_bind ?_
  constructor
  · rintro b T d ⟨hp, hq⟩
    obtain ⟨inner, b₁, h₁⟩ := (landings T hy JumpKind.all {}).yields (b := b) fun _ => hq
    obtain ⟨-, same⟩ := landings_kinds hy h₁
    obtain ⟨u, s', h₂⟩ := (rest inner bodyBlock).succeeds (b := b₁) ⟨same.symm ▸ hp, hq⟩
    exact ⟨u, s', yields_get_bind.2 (yields_bind.2 ⟨inner, _, h₁, h₂⟩)⟩
  · intro b T d u s' hw
    obtain ⟨inner, s₁, h₁, h₂⟩ := yields_bind.1 (yields_get_bind.1 hw)
    obtain ⟨⟨b₁, rfl⟩, same⟩ := landings_kinds hy h₁
    obtain ⟨⟨hp, hq⟩, hs⟩ := (rest inner bodyBlock).needs h₂
    exact ⟨⟨same ▸ hp, hq⟩, hs⟩
  · intro b T d e s' failed
    rcases (fails_bind (x := WalkT.landings T y JumpKind.all {})).1 failed with
      first | ⟨inner, s₁, h₁, second⟩
    · exact (landings T hy _ _).fails first
    · obtain ⟨⟨b₁, rfl⟩, -⟩ := landings_kinds hy h₁
      exact (rest inner bodyBlock).fails second

/-! ## Block literals -/

lemma blockCall (params : List Parameter) (dest : Option Binding) (callee : Callee)
    {args : Walk Arguments} (ha : args.Accepts F P) (hc : c.Accepts F Q) :
    (WalkT.blockCall params dest callee args c).Accepts F
      fun d J => P d J ∧ Q d (J ∪ JumpKind.ofLoop) := by
  refine take_bind fun after => take_bind fun closure => take_bind fun bodyBlock => build_bind ?_
  refine ha.bind fun _ => build_bind (build_bind (take_bind fun landing => ?_))
  refine bind_free (congr (withTargets _ (build_bind (hc.bind_free fun _ => build _)))
    fun d J => ?_) fun _ => build_bind (build _)
  rw [kinds_loopTargets]

/-! ## Instructions -/

variable {env : Environment}

lemma allocTemp : (Construction.allocTemp : Walk Binding).Accepts F fun _ _ => True :=
  take (·.allocTemp)

lemma emit (i : Instruction) (plain : i.isTerminator = false) :
    (Construction.emit i plain : Walk Unit).Accepts F fun _ _ => True :=
  build (·.emit i)

lemma copy (dest src : Binding) :
    (Construction.copy dest src : Walk Unit).Accepts F fun _ _ => True := emit _ _

lemma loadConst (dest : Binding) (c : Constant) :
    (Construction.loadConst dest c : Walk Unit).Accepts F fun _ _ => True := emit _ _

lemma call (dest : Option Binding) (receiver : Binding) (method : String) (args : List Binding) :
    (Construction.call dest receiver method args : Walk Unit).Accepts F fun _ _ => True := emit _ _

lemma constTemp (c : Constant) :
    (Construction.constTemp c : Walk Binding).Accepts F fun _ _ => True :=
  allocTemp.free_bind fun t => (loadConst t c).free_bind fun _ => pure t

lemma callValue (receiver : Binding) (method : String) (args : List Binding) :
    (Construction.callValue receiver method args : Walk Binding).Accepts F fun _ _ => True :=
  allocTemp.free_bind fun t => (call (some t) receiver method args).free_bind fun _ => pure t

lemma readVariable (b : Binding) :
    (Construction.readVariable b : Walk Binding).Accepts F fun _ _ => True :=
  allocTemp.free_bind fun t => (copy t b).free_bind fun _ => pure t

lemma selfBinding (tag : String) (h : info.scope = none → F.Lacks info) :
    (Construction.selfBinding info tag : Walk Binding).Accepts F fun _ _ => info.scope.isSome := by
  unfold Construction.selfBinding
  cases scope : info.scope with
  | some scope => exact (pure _).congr fun _ _ => by simp
  | none => exact (failAt fun d => h scope d _ rfl).congr fun _ _ => by simp

lemma selfTemp (tag : String) (h : info.scope = none → F.Lacks info) :
    (Construction.selfTemp info tag : Walk Binding).Accepts F fun _ _ => info.scope.isSome :=
  (selfBinding tag h).bind_free fun _ => readVariable _

lemma resolved (tag : String) (h : info.binding = none → F.Lacks info) :
    (Construction.resolved info tag : Walk Binding).Accepts F fun _ _ => info.binding.isSome := by
  unfold Construction.resolved
  cases binding : info.binding with
  | some b => exact (pure _).congr fun _ _ => by simp
  | none => exact (failAt fun d => h binding d _ rfl).congr fun _ _ => by simp

lemma wellKnown {name : String} (h : env.types name = none → F.Lacks info) :
    (Construction.wellKnown env info name : Walk Binding).Accepts F
      fun _ _ => (env.types name).isSome := by
  unfold Construction.wellKnown
  cases type : env.types name with
  | some b => exact (pure _).congr fun _ _ => by simp
  | none => exact (failAt fun d => h type d _ rfl).congr fun _ _ => by simp

/-! ## Results -/

variable {v r : Walk Binding}

lemma deliver (result : Option Binding) (b : Binding) :
    (Construction.deliver result b : Walk Unit).Accepts F fun _ _ => True := by
  cases result with
  | some dest => exact copy dest b
  | none => exact pure ()

lemma deliverNil (result : Option Binding) :
    (Construction.deliverNil result : Walk Unit).Accepts F fun _ _ => True := by
  cases result with
  | some dest => exact loadConst dest .nil
  | none => exact pure ()

lemma nothingElse (result : Option Binding) :
    (Construction.nothingElse result : Alternative Walk).Accepts F fun _ _ => True := by
  cases result with
  | some dest => exact .last (loadConst dest .nil)
  | none => exact .nothing

/-! ## Assignments and operators -/

lemma callSetter (receiver : Binding) (name : String) (b : Binding) :
    (Construction.callSetter receiver name b : Walk Unit).Accepts F fun _ _ => True :=
  call none receiver _ _

lemma assignVariable {target : Info} (h : target.binding = none → F.Lacks target)
    (hv : v.Accepts F P) :
    (Construction.assignVariable target v).Accepts F
      fun d J => target.binding.isSome ∧ P d J :=
  (resolved _ h).bind fun slot => hv.bind_free fun v => (copy slot v).free_bind fun _ => pure v

lemma assignField (name : String) (hr : r.Accepts F P) (hv : v.Accepts F Q) :
    (Construction.assignField r name v).Accepts F fun d J => P d J ∧ Q d J :=
  hr.bind fun r => hv.bind_free fun v => (callSetter r name v).free_bind fun _ => pure v

lemma decideOrEvaluate (op : BinaryOp) (lhs result : Binding) (hx : x.Accepts F P) :
    (Construction.decideOrEvaluate op lhs result x).Accepts F P :=
  (twoWays _ (pure lhs) (copy result lhs) hx).congr fun _ _ => by simp

lemma skipOrEvaluate (op : BinaryOp) (lhs : Binding) (hx : x.Accepts F P) :
    (Construction.skipOrEvaluate op lhs x).Accepts F P := detour lhs _ hx

lemma updateField (op : BinaryOp) (name : String) (result : Option Binding) (hr : r.Accepts F P)
    (hv : v.Accepts F Q) :
    (Construction.updateField op r name v result).Accepts F fun d J => P d J ∧ Q d J := by
  refine hr.bind fun r => (callValue r name []).free_bind fun current => ?_
  have evaluate : (v >>= fun v => Construction.callSetter r name v >>= fun _ =>
      Construction.deliver result v : Walk Unit).Accepts F Q :=
    hv.bind_free fun v => (callSetter r name v).free_bind fun _ => deliver result v
  cases op.shortCircuits with
  | true =>
    cases result with
    | some dest => exact decideOrEvaluate op current dest evaluate
    | none => exact skipOrEvaluate op current evaluate
  | false =>
    exact hv.bind_free fun v => (callValue current op.method [v]).free_bind fun combined =>
      (callSetter r name combined).free_bind fun _ => deliver result combined

lemma combineInto (combined : Binding) (op : BinaryOp) (slot current : Binding)
    (hv : v.Accepts F P) : (Construction.combineInto combined op slot current v).Accepts F P :=
  (decideOrEvaluate op current combined (hv.bind_free fun v => copy combined v)).bind_free
    fun _ => copy slot combined

lemma updateVariable (op : BinaryOp) {target : Info} (result : Option Binding)
    (h : target.binding = none → F.Lacks target) (hv : v.Accepts F P) :
    (Construction.updateVariable op target v result).Accepts F
      fun d J => target.binding.isSome ∧ P d J := by
  refine (resolved _ h).bind fun slot => (readVariable slot).free_bind fun current => ?_
  cases op.shortCircuits with
  | true =>
    cases result with
    | some dest => exact combineInto dest op slot current hv
    | none => exact allocTemp.free_bind fun combined => combineInto combined op slot current hv
  | false =>
    exact hv.bind_free fun v => (callValue current op.method [v]).free_bind fun combined =>
      (deliver result combined).free_bind fun _ => copy slot combined

lemma returnValue (h : ∀ d, F d (.atNode info (.noTarget .return))) (hv : v.Accepts F P) :
    (Construction.returnValue info v).Accepts F fun d J => .return ∈ J ∧ P d J :=
  jumpOut h (hv.bind_free fun v => emit (.ret v) rfl)

/-! ## Calls and arrays -/

lemma aggregate {fill : Binding → Binding → Walk Unit} (h : env.types "Array" = none → F.Lacks info)
    (hf : ∀ klass array, (fill klass array).Accepts F P) :
    (Construction.aggregate env info fill).Accepts F
      fun d J => (env.types "Array").isSome ∧ P d J :=
  (wellKnown h).bind fun klass => (callValue klass "new" []).free_bind fun array =>
    (hf klass array).bind_free fun _ => pure array

lemma spliceValue (klass array b : Binding) :
    (Construction.spliceValue klass array b : Walk Unit).Accepts F fun _ _ => True := by
  have convert : (Construction.convert klass b "to_a" : Walk Binding).Accepts F fun _ _ => True := by
    refine allocTemp.free_bind fun result => bind_free ?_ fun _ => pure result
    exact (twoWays false (callValue klass "===" [b])
      ((callValue b "to_a" []).bind_free fun v => copy result v) (copy result b)).congr
        fun _ _ => by simp
  exact convert.free_bind fun items => call none array "concat" [items]

lemma readParameters (ps : List Parameter) :
    (Construction.readParameters ps : Walk (List Binding)).Accepts F fun _ _ => True := by
  induction ps with
  | nil => exact pure _
  | cons p ps ih => exact (readVariable _).bind_free fun _ => ih.bind_free fun _ => pure _

lemma pushParameters (array : Binding) (ps : List Parameter) :
    (Construction.pushParameters array ps : Walk Unit).Accepts F fun _ _ => True := by
  induction ps with
  | nil => exact pure _
  | cons p ps ih =>
    exact (readVariable _).free_bind fun v => (call none array "<<" [v]).free_bind fun _ => ih

lemma parameters {method : Signature}
    (h : (∃ p ∈ method.params, p.kind = .rest) → env.types "Array" = none → F.Lacks info) :
    (Construction.passParameters env info method : Walk Arguments).Accepts F
      fun _ _ => (∃ p ∈ method.params, p.kind = .rest) → (env.types "Array").isSome := by
  have rest := method.isSome_restIndex?
  unfold Construction.passParameters
  cases index : method.restIndex? with
  | none =>
    refine ((readParameters _).bind_free fun _ => pure _).congr fun _ _ => ?_
    rw [← rest, index]
    simp
  | some i =>
    refine bind_free ((aggregate (P := fun _ _ => True) (h (rest.1 (by simp [index])))
      fun klass array => ?_).congr fun _ _ => ?_) fun _ => pure _
    · refine (pushParameters _ _).bind_free fun _ => ?_
      cases method.positional.drop i with
      | nil => exact pure _
      | cons p ps =>
        exact (readVariable _).bind_free fun _ => (spliceValue _ _ _).bind_free fun _ =>
          pushParameters _ _
    · rw [← rest, index]
      simp

/-- Parameters are passed on where it is known what an array is, if one is needed. -/
lemma passParameters (info : Info) (method : Signature) :
    (Construction.passParameters env info method : Walk Arguments).Accepts (fun _ _ => True)
      fun _ _ => (∃ p ∈ method.params, p.kind = .rest) → (env.types "Array").isSome :=
  parameters fun _ _ _ _ _ => trivial

end WalkT.Accepts

end ControlFlow
