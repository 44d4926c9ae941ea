import ControlFlow.Proofs.Meaning.Simulation
/-!
# Conditionals, cases, loops and `ensure` clauses

Code of a construct does what the evaluation of the construct does, where this is known of its parts.
The ways through a conditional or a `case` lead to a label where they meet again, so they are
simulated up to that label.
-/

namespace ControlFlow.Meaning

variable {oracle : Oracle} {fuel : Nat} {Γ : Facts} {D : Set Binding} {out : Unit → Value → Facts}
  {e e₁ e₂ : Eval Value} {body : Plan Unit}
  {post : Value → State → Prop}

namespace Sim

/-! ## Conditionals -/

/-- Code that ends at the label behind it. -/
abbrev ToLabel (oracle : Oracle) (fuel : Nat) (Γ : Facts) (D : Set Binding) (p : Plan Unit)
    (e : Eval Value) (out : Unit → Value → Facts) : Prop :=
  SimTo oracle fuel (fun _ => .left) Γ D p e out

lemma thenLeave {x : Plan Unit} (hx : Sim oracle fuel Γ D x e out) :
    ToLabel oracle fuel Γ D (Plan.thenLeave x) e out where
  counts := by
    rintro K t u c t' ⟨p, hp, rfl⟩
    exact hx.counts hp
  runs := by
    rintro Δ K t u c t' hΔ ⟨p, hp, rfl⟩ below free s hs
    exact (hx.runs hΔ hp below free s hs).widen (fun b s' run => Or.inl ⟨s', run, rfl, rfl⟩)
      fun o s' ho run => Or.inr ⟨ho.ne_done, run⟩

/-- Code up to a label, with the label. -/
lemma join {w : Plan Unit} {p : Plan Unit} (hw : ToLabel oracle fuel Γ D w e out)
    (hp : ∀ ⦃K t u c t'⦄, p K t u c t' → ∃ w', w K t u w' t' ∧ c = .join w') :
    Sim oracle fuel Γ D p e out where
  counts := by
    intro K t u c t' hc
    obtain ⟨w', hw', rfl⟩ := hp hc
    exact hw.counts hw'
  runs := by
    intro Δ K t u c t' hΔ hc below free s hs
    obtain ⟨w', hw', rfl⟩ := hp hc
    exact (hw.runs hΔ hw' below free s hs).widen (fun b s' run => Or.inl ⟨rfl, run⟩)
      fun o s' ho run => Or.inr ⟨ho.ne_left, run⟩

lemma ends_thenLeaves {K : Set JumpKind} {runs : State → Outcome → State → Prop} {s : State}
    {r : Result Value × World} (h : Ends (runs s) K Γ (fun _ => .done) post r) :
    Ends (thenLeaves runs s) K Γ (fun _ => .left) post r :=
  h.widen (fun _ _ run => Or.inl ⟨rfl, run⟩) fun _ _ ho run => Or.inr ⟨ho.ne_done, run⟩

/-- What is simulated is simulated behind other code as well. -/
lemma behind {α β : Type} {last : β → Outcome} {x : Plan α} {e : Eval β} {out : α → β → Facts}
    {more : Facts} (h : SimTo oracle fuel last Γ D x e out) :
    SimTo oracle fuel last (Γ ∪ more) D x e out :=
  h.mono Set.subset_union_left subset_rfl fun _ _ => Set.subset_union_right

variable {condition : Plan Binding}

/-- A condition with its body, where nothing follows if the condition fails. -/
lemma clauseLast {on : Bool} {v₀ : Value} (hc : Sim oracle fuel Γ ∅ condition e holds)
    (hb : Sim oracle fuel Γ D body e₁ out) (hn : out () v₀ ⊆ Γ) :
    ToLabel oracle fuel Γ D (Plan.clause on condition body none)
      (e >>= fun v => if v.truthy = on then e₁ else Pure.pure v₀) out where
  counts := by
    rintro K t u c t' ⟨b, p, t₁, q, hp, hq, rfl⟩
    exact (hc.counts hp).trans (hb.counts hq)
  runs := by
    rintro Δ K t u c t' hΔ ⟨b, p, t₁, q, hp, hq, rfl⟩ below free s hs
    refine branch hc hΔ hp below hs (fun v s₁ run taken new known => ?_)
      fun o s' ho run => Or.inr ⟨ho, run⟩
    have widen {o : Outcome} {s' : State} (way : if v.truthy = on then
        thenLeaves (q.Runs (calling oracle) fuel) s₁ o s' else o = .left ∧ s' = s₁) :
        (Code.clause on p b q).Runs (calling oracle) fuel s o s' :=
      Or.inl ⟨s₁, v.truthy, run, taken, way⟩
    by_cases way : v.truthy = on
    · simp only [if_pos way] at widen ⊢
      exact (ends_thenLeaves (runs_behind (behind hb) (Set.empty_subset _) subset_rfl
        (Set.empty_disjoint D) hΔ hq below free new (hc.counts hp) le_rfl le_rfl known)).within
        fun _ _ => widen
    · simp only [if_neg way] at widen ⊢
      refine ⟨s₁, widen ⟨rfl, rfl⟩, rfl, .old (hn.trans hΔ), known.mono ?_⟩
      exact Set.union_subset Set.subset_union_left ((hn.trans hΔ).trans Set.subset_union_left)

/-- A condition with its body, and what follows if the condition fails. -/
lemma clauseElse {on : Bool} {rest : Plan Unit} (hc : Sim oracle fuel Γ ∅ condition e holds)
    (hb : Sim oracle fuel Γ D body e₁ out) (hr : ToLabel oracle fuel Γ D rest e₂ out) :
    ToLabel oracle fuel Γ D (Plan.clause on condition body (some rest))
      (e >>= fun v => if v.truthy = on then e₁ else e₂) out where
  counts := by
    rintro K t u c t' ⟨b, p, t₁, q, t₂, r, hp, hq, hr', rfl⟩
    exact (hc.counts hp).trans ((hb.counts hq).trans (hr.counts hr'))
  runs := by
    rintro Δ K t u c t' hΔ ⟨b, p, t₁, q, t₂, r, hp, hq, hr', rfl⟩ below free s hs
    refine branch hc hΔ hp below hs (fun v s₁ run taken new known => ?_)
      fun o s' ho run => Or.inr ⟨ho, run⟩
    have widen {o : Outcome} {s' : State} (way : if v.truthy = on then
        thenLeaves (q.Runs (calling oracle) fuel) s₁ o s' else r.Runs (calling oracle) fuel s₁ o s') :
        (Code.clauseElse on p b q r).Runs (calling oracle) fuel s o s' :=
      Or.inl ⟨s₁, v.truthy, run, taken, way⟩
    by_cases way : v.truthy = on
    · simp only [if_pos way] at widen ⊢
      exact (ends_thenLeaves (runs_behind (behind hb) (Set.empty_subset _) subset_rfl
        (Set.empty_disjoint D) hΔ hq below free new (hc.counts hp) le_rfl (hr.counts hr')
        known)).within fun _ _ => widen
    · simp only [if_neg way] at widen ⊢
      exact (runs_behind (behind hr) (Set.empty_subset _) subset_rfl (Set.empty_disjoint D) hΔ hr'
        below free new (hc.counts hp) (hb.counts hq) le_rfl known).within fun _ _ => widen

end Sim

/-- What follows the body of a conditional does what an evaluation does. -/
inductive SimAlternative (oracle : Oracle) (fuel : Nat) (Γ : Facts) (D : Set Binding)
    (out : Unit → Value → Facts) : Alternative Plan → Eval Value → Prop where
  | nothing (h : out () .nil ⊆ Γ) : SimAlternative oracle fuel Γ D out .nothing (pure .nil)
  | last {x : Plan Unit} {e : Eval Value} (h : Sim oracle fuel Γ D x e out) :
      SimAlternative oracle fuel Γ D out (.last x) e
  | clause {condition : Plan Binding} {body : Plan Unit} {rest : Alternative Plan}
      {e e₁ e₂ : Eval Value} (hc : Sim oracle fuel Γ ∅ condition e Sim.holds)
      (hb : Sim oracle fuel Γ D body e₁ out) (hr : SimAlternative oracle fuel Γ D out rest e₂) :
      SimAlternative oracle fuel Γ D out (.clause condition body rest)
        (e >>= fun v => if v.truthy = true then e₁ else e₂)

namespace Sim

variable {condition : Plan Binding} {rest : Alternative Plan}

variable (hc : Sim oracle fuel Γ ∅ condition e holds)
  (hb : Sim oracle fuel Γ D body e₁ out) (hr : SimAlternative oracle fuel Γ D out rest e₂)

include hc hb hr

lemma clause {on : Bool} :
    ToLabel oracle fuel Γ D (Plan.clause on condition body (Plan.alternative rest))
      (e >>= fun v => if v.truthy = on then e₁ else e₂) out := by
  induction hr generalizing on condition body e e₁ with
  | nothing h => exact clauseLast hc hb h
  | last h => exact clauseElse hc hb (thenLeave h)
  | clause hc' hb' _ ih => exact clauseElse hc hb (ih hc' hb')

/-- A conditional. -/
lemma conditional {on : Bool} :
    Sim oracle fuel Γ D (Construction.conditional on condition body rest)
      (e >>= fun v => if v.truthy = on then e₁ else e₂) out :=
  join (clause hc hb hr) fun _ _ _ _ _ h => h

/-- A conditional whose body is taken where the condition fails. -/
lemma conditionalNot :
    Sim oracle fuel Γ D (Construction.conditional false condition body rest)
      (e >>= fun v => if v.truthy = true then e₂ else e₁) out := by
  have same : (fun v : Value => if v.truthy = true then e₂ else e₁) =
      fun v => if v.truthy = false then e₁ else e₂ := by
    funext v
    cases v.truthy <;> rfl
  rw [same]
  exact conditional hc hb hr

end Sim

/-! ## Cases -/

/-- Tests do what the evaluation does that looks for the first one to hold. -/
inductive SimTests (oracle : Oracle) (fuel : Nat) (Γ : Facts) :
    List (Plan Binding) → Eval Bool → Prop where
  | nil : SimTests oracle fuel Γ [] (pure false)
  | cons {x : Plan Binding} {xs : List (Plan Binding)} {e : Eval Value} {r : Eval Bool}
      (hx : Sim oracle fuel Γ ∅ x e Sim.holds) (hr : SimTests oracle fuel Γ xs r) :
      SimTests oracle fuel Γ (x :: xs) (e >>= fun v => if v.truthy = true then pure true else r)

/-- The clauses of a `case` do what an evaluation does. -/
inductive SimClauses (oracle : Oracle) (fuel : Nat) (Γ : Facts) (D : Set Binding)
    (out : Unit → Value → Facts) : Clauses Plan → Eval Value → Prop where
  | last {x : Plan Unit} {e : Eval Value} (h : Sim oracle fuel Γ D x e out) :
      SimClauses oracle fuel Γ D out (.last x) e
  | clause {xs : List (Plan Binding)} {body : Plan Unit} {rest : Clauses Plan} {found : Eval Bool}
      {e₁ e₂ : Eval Value} (ht : SimTests oracle fuel Γ xs found)
      (hb : Sim oracle fuel Γ D body e₁ out) (hr : SimClauses oracle fuel Γ D out rest e₂) :
      SimClauses oracle fuel Γ D out (.clause xs body rest)
        (found >>= fun b => if b = true then e₁ else e₂)

namespace Sim

/-- Where tests end: at the label behind them once one of them holds. -/
def found (b : Bool) : Outcome := if b = true then .left else .done

lemma tests {xs : List (Plan Binding)} {r : Eval Bool} (h : SimTests oracle fuel Γ xs r) :
    SimTo oracle fuel found Γ ∅ (Plan.tests xs) r (fun _ _ => ∅) := by
  induction h with
  | nil =>
    refine ⟨?_, ?_⟩
    · rintro K t u c t' ⟨-, -, rfl⟩
      exact le_rfl
    · rintro Δ K t u c t' hΔ ⟨-, rfl, rfl⟩ below free s hs
      exact ⟨s, ⟨rfl, rfl⟩, rfl, .old (Set.empty_subset _), by rwa [Set.union_empty]⟩
  | @cons x xs e r hx _ ih =>
    refine ⟨?_, ?_⟩
    · rintro K t u c t' ⟨b, p, t₁, q, hp, hq, rfl⟩
      exact (hx.counts hp).trans (ih.counts hq)
    · rintro Δ K t u c t' hΔ ⟨b, p, t₁, q, hp, hq, rfl⟩ below free s hs
      refine branch hx hΔ hp below hs (fun v s₁ run taken new known => ?_)
        fun o s' ho run => Or.inr ⟨ho.ne_done, Or.inr ⟨ho, run⟩⟩
      by_cases way : v.truthy = true
      · rw [way] at taken
        rw [if_pos way]
        refine ⟨s₁, Or.inr ⟨nofun, Or.inl ⟨true, run, taken, rfl⟩⟩, rfl, .old (Set.empty_subset _), ?_⟩
        exact known.mono (Set.union_subset_union_right _ (Set.empty_subset _))
      · rw [eq_false_of_ne_true way] at taken
        rw [if_neg way]
        exact (runs_behind (behind ih) (Set.empty_subset _) subset_rfl (Set.disjoint_empty ∅) hΔ
          hq below free new (hx.counts hp) le_rfl le_rfl known).within
          fun _ _ run' => Or.inl ⟨s₁, Or.inl ⟨false, run, taken, rfl⟩, run'⟩

lemma clauses {cs : Clauses Plan} (h : SimClauses oracle fuel Γ D out cs e) :
    ToLabel oracle fuel Γ D (Plan.clauses cs) e out := by
  induction h with
  | last h => exact thenLeave h
  | @clause xs body rest r e₁ e₂ ht hb _ ih =>
    have ht := tests ht
    refine ⟨?_, ?_⟩
    · rintro K t u c t' ⟨p, t₁, q, t₂, r, hp, hq, hr, rfl⟩
      exact (ht.counts hp).trans ((hb.counts hq).trans (ih.counts hr))
    · rintro Δ K t u c t' hΔ ⟨p, t₁, q, t₂, r, hp, hq, hr, rfl⟩ below free s hs
      refine (ht.runs hΔ hp below (fun _ h => h.elim) s hs).bind (fun b s₁ run ⟨new, known⟩ => ?_)
        fun o s' ho run => Or.inr ⟨ho.ne_done, Or.inr ⟨ho.ne_left, run⟩⟩
      cases b with
      | true =>
        exact (ends_thenLeaves (runs_behind (behind hb) (Set.empty_subset _) subset_rfl
          (Set.empty_disjoint D) hΔ hq below free new (ht.counts hp) le_rfl (ih.counts hr)
          known)).widen (fun _ _ run' => Or.inr ⟨nofun, Or.inl ⟨s₁, run, run'⟩⟩)
          fun _ _ ho run' => Or.inr ⟨ho.ne_done, Or.inl ⟨s₁, run, run'⟩⟩
      | false =>
        have past : (Code.select p q).Runs (calling oracle) fuel s .done s₁ := Or.inr ⟨nofun, run⟩
        exact (runs_behind (behind ih) (Set.empty_subset _) subset_rfl (Set.empty_disjoint D) hΔ hr
          below free new (ht.counts hp) (hb.counts hq) le_rfl known).within
          fun _ _ run' => Or.inl ⟨s₁, past, run'⟩

/-- A `case`. -/
lemma select {subject : Plan Binding} {cs : Binding → Clauses Plan} {e₁ : Value → Eval Value}
    (hs : Sim oracle fuel Γ ∅ subject e holds)
    (hc : ∀ b v, SimClauses oracle fuel (Γ ∪ holds b v) D out (cs b) (e₁ v)) :
    Sim oracle fuel Γ D (Construction.select subject cs) (e >>= e₁) out := by
  refine join (bindTo hs (fun b v => clauses (hc b v)) (Set.empty_subset _) subset_rfl
    (Set.empty_disjoint D)) ?_
  rintro K t u c t' ⟨b, p, t₁, w, hp, hw, rfl⟩
  exact ⟨_, ⟨b, p, t₁, w, hp, hw, rfl⟩, rfl⟩

/-! ## Loops -/

lemma ends_caught {runs runs' : Outcome → State → Prop} {K : Set JumpKind}
    {post' : Value → State → Prop} {part next redo : Eval Value} {andThen : Value → Eval Value}
    {w : World} (h : Ends runs (K ∪ JumpKind.ofLoop) Γ (fun _ => .done) post (part w))
    (done : ∀ v s, runs .done s → post v s →
      Ends runs' K Γ (fun _ => .done) post' (andThen v s.world))
    (broken : ∀ s, runs (.jump .break) s → Γ.On s → runs' .done s ∧ post' .nil s)
    (goesOn : ∀ s, runs (.jump .next) s → Γ.On s →
      Ends runs' K Γ (fun _ => .done) post' (next s.world))
    (again : ∀ s, runs (.jump .redo) s → Γ.On s →
      Ends runs' K Γ (fun _ => .done) post' (redo s.world))
    (returned : ∀ s, runs (.jump .return) s → runs' (.jump .return) s)
    (cut : ∀ s, runs .cut s → runs' .cut s) :
    Ends runs' K Γ (fun _ => .done) post' (Eval.caught part next redo andThen w) := by
  rw [Eval.caught]
  generalize part w = r at h ⊢
  rcases r with ⟨v | (_ | _ | _ | _) | _ | _, w'⟩
  · obtain ⟨s, run, rfl, hp⟩ := h
    exact done v s run hp
  · obtain ⟨s, run, rfl, -, on⟩ := h
    obtain ⟨run', hp⟩ := broken s run on
    exact ⟨s, run', rfl, hp⟩
  · obtain ⟨s, run, rfl, -, on⟩ := h
    exact goesOn s run on
  · obtain ⟨s, run, rfl, -, on⟩ := h
    exact again s run on
  · obtain ⟨s, run, rfl, hk, on⟩ := h
    exact ⟨s, returned s run, rfl, hk.resolve_right fun h => h rfl, on⟩
  · obtain ⟨s, run, rfl⟩ := h
    exact ⟨s, cut s run, rfl⟩
  · exact h

section Rounds

variable {on : Bool} {condition : LoopPart → Binding}
  {part : LoopPart → State → Outcome → State → Prop} {K : Set JumpKind}

/-- Behind the test of a loop, the value of its condition is known. -/
def Tested (Γ : Facts) (b : Binding) (v : Value) (s : State) : Prop :=
  Γ.On s ∧ s.lookup b = v

/-- The rounds of a loop do what their evaluation does. -/
lemma ends_rounds
    (ht : ∀ q, q ≠ .body → ∀ s, Γ.On s →
      Ends (part q s) (K ∪ JumpKind.ofLoop) Γ (fun _ => .done) (Tested Γ (condition q)) (e s.world))
    (hb : ∀ s, Γ.On s →
      Ends (part .body s) (K ∪ JumpKind.ofLoop) Γ (fun _ => .done) (fun _ => Γ.On) (e₁ s.world))
    (n : Nat) (q : LoopPart) (s : State) (hs : Γ.On s) :
    Ends (Rounds (calling oracle) on condition part n q s) K Γ (fun _ => .done) (fun _ => Γ.On)
      (Eval.rounds on e e₁ n (q = .body) s.world) := by
  induction n generalizing q s with
  | zero => exact ⟨s, .cut, rfl⟩
  | succ n ih =>
    have fromTest (s : State) (hs : Γ.On s) := ih .test s hs
    have fromBody (s : State) (hs : Γ.On s) := ih .body s hs
    have tested (q : LoopPart) (hq : q ≠ .body) (s : State) (hs : Γ.On s) :
        Ends (Rounds (calling oracle) on condition part (n + 1) q s) K Γ (fun _ => .done)
          (fun _ => Γ.On)
          (Eval.tested on e (Eval.rounds on e e₁ n false) (Eval.rounds on e e₁ n true) s.world) := by
      refine ends_caught (ht q hq s hs) (fun v s₁ run ⟨known, hv⟩ => ?_)
        (fun s₁ run known => ⟨.broken run, known⟩)
        (fun s₁ run known => (fromTest s₁ known).within fun _ _ => .next run)
        (fun s₁ run known => (fromBody s₁ known).within fun _ _ => .redo run)
        (fun s₁ run => .returned run) fun s₁ run => .inside run
      by_cases way : v.truthy = on
      · rw [if_pos way]
        have takes : (calling oracle).takes (some (condition q)) s₁ on := by rw [← way, ← hv]; rfl
        exact (fromBody s₁ known).within fun _ _ => .enter hq run takes
      · rw [if_neg way]
        have takes : (calling oracle).takes (some (condition q)) s₁ (!on) := by
          change (!on) = (s₁.lookup (condition q)).truthy
          rw [hv]
          cases on <;> simp_all
        exact ⟨s₁, .finish hq run takes, rfl, known⟩
    by_cases hq : q = .body
    · subst hq
      refine ends_caught (hb s hs) (fun v s₁ run known => ?_)
        (fun s₁ run known => ⟨.broken run, known⟩)
        (fun s₁ run known => (fromTest s₁ known).within fun _ _ => .next run)
        (fun s₁ run known => (fromBody s₁ known).within fun _ _ => .redo run)
        (fun s₁ run => .returned run) fun s₁ run => .inside run
      exact (tested .again nofun s₁ known).within fun _ _ => .through run
    · rw [decide_eq_false hq]
      exact tested q hq s hs

end Rounds

/-- A loop. -/
lemma loop {sense : LoopSense} {condition : Plan Binding}
    (hc : Sim oracle fuel Γ ∅ condition e holds) (hb : Sim oracle fuel Γ ∅ body e₁ (fun _ _ => ∅)) :
    Sim oracle fuel Γ D (Construction.loop sense condition body)
      (Eval.rounds (sense = .whileTrue) e e₁ fuel false) (fun _ _ => ∅) where
  counts := by
    rintro K t u c t' ⟨v, p, t₁, q, t₂, v', r, hp, hq, hr, rfl⟩
    exact (hc.counts hp).trans ((hb.counts hq).trans (hc.counts hr))
  runs := by
    rintro Δ K t u c t' hΔ ⟨b, p, t₁, q, t₂, b', r, hp, hq, hr, rfl⟩ below free s hs
    have nowhere {t : Nat} : ∀ d ∈ (∅ : Set Binding), Δ.Free t d := fun _ h => h.elim
    -- both copies of the condition do the same
    have test {t t' : Nat} {b : Binding} {p : Code} (below : Δ.Below t)
        (hp : condition (K ∪ JumpKind.ofLoop) t b p t') (s : State) (hs : Δ.On s) :
        Ends (p.Runs (calling oracle) fuel s) (K ∪ JumpKind.ofLoop) Δ (fun _ => .done)
          (Tested Δ b) (e s.world) :=
      (hc.runs hΔ hp below nowhere s hs).imp (fun v s' run ⟨new, known⟩ => ⟨run,
        known.mono Set.subset_union_left,
        known.lookup (new.below below nowhere (hc.counts hp)) (Or.inr rfl)⟩)
        (fun _ _ run hk on => ⟨run, hk, on⟩) fun _ run => run
    have below₁ := below.mono (hc.counts hp)
    have below₂ := below₁.mono (hb.counts hq)
    have tests : ∀ part, part ≠ .body → ∀ s, Δ.On s →
        Ends (LoopPart.of (p.Runs (calling oracle) fuel) (q.Runs (calling oracle) fuel)
          (r.Runs (calling oracle) fuel) part s) (K ∪ JumpKind.ofLoop) Δ (fun _ => .done)
          (Tested Δ (LoopPart.of b b b' part)) (e s.world) := by
      rintro (_ | _ | _) hq s hs
      · exact test below hp s hs
      · exact absurd rfl hq
      · exact test below₂ hr s hs
    refine (ends_rounds tests (fun s hs => ?_) fuel .test s hs).imp
      (fun v s' run known => ⟨run, .old (Set.empty_subset _), by rwa [Set.union_empty]⟩)
      (fun _ _ run hk on => ⟨run, hk, on⟩) fun _ run => run
    exact (hb.runs hΔ hq below₁ nowhere s hs).imp
      (fun v s' run ⟨_, known⟩ => ⟨run, known.mono Set.subset_union_left⟩)
      (fun _ _ run hk on => ⟨run, hk, on⟩) fun _ run => run

/-! ## Clauses that run however statements end -/

/-- Statements without an `ensure` clause. -/
lemma unguarded (hb : Sim oracle fuel Γ D body e out) :
    Sim oracle fuel Γ D (Construction.guarded body none) e out where
  counts := by
    rintro K t u c t' ⟨p, hp, rfl⟩
    exact hb.counts hp
  runs := by
    rintro Δ K t u c t' hΔ ⟨p, hp, rfl⟩ below free s hs
    exact (hb.runs hΔ hp below free s hs).widen (fun _ _ run => ⟨nofun, run⟩)
      fun _ _ ho run => ⟨ho.ne_left, run⟩

/-- Each copy of a clause is allowed by the plan of the clause. -/
lemma copy_of_copies {clause : Plan Unit} {K : Set JumpKind} {f : JumpKind → Code}
    {kinds : List JumpKind} {t t' : Nat} (hc : ∀ ⦃K t u c t'⦄, clause K t u c t' → t ≤ t')
    (h : Plan.copies clause K f kinds t t') :
    t ≤ t' ∧ ∀ kind ∈ kinds, kind ∈ K → ∃ t₁ t₂, t ≤ t₁ ∧ clause K t₁ () (f kind) t₂ := by
  induction kinds generalizing t with
  | nil => exact ⟨(show t' = t from h) ▸ le_rfl, nofun⟩
  | cons kind kinds ih =>
    rcases h with ⟨hk, t₁, hf, hr⟩ | ⟨hk, -, hr⟩
    · obtain ⟨le, copies⟩ := ih hr
      have first := hc hf
      refine ⟨first.trans le, ?_⟩
      rintro k (_ | ⟨_, hm⟩) hK
      · exact ⟨t, t₁, le_rfl, hf⟩
      · obtain ⟨t₂, t₃, le', h⟩ := copies k hm hK
        exact ⟨t₂, t₃, first.trans le', h⟩
    · obtain ⟨le, copies⟩ := ih hr
      refine ⟨le, ?_⟩
      rintro k (_ | ⟨_, hm⟩) hK
      · exact absurd hK hk
      · exact copies k hm hK

/-- Statements with an `ensure` clause. -/
lemma guarded {β : Type} [Nonempty β] {clause : Plan Unit} {e' : Eval β}
    (hb : Sim oracle fuel Γ D body e out) (hc : Sim oracle fuel Γ ∅ clause e' (fun _ _ => ∅)) :
    Sim oracle fuel Γ D (Construction.guarded body (some clause)) (Eval.ensuring e e') out where
  counts := by
    rintro K t u c t' ⟨f, t₁, p, t₂, q, hf, hp, hq, rfl⟩
    exact (copy_of_copies hc.counts hf).1.trans ((hb.counts hp).trans (hc.counts hq))
  runs := by
    rintro Δ K t u c t' hΔ ⟨f, t₁, p, t₂, q, hf, hp, hq, rfl⟩ below free s hs
    have nowhere {Δ : Facts} {t : Nat} : ∀ d ∈ (∅ : Set Binding), Δ.Free t d := fun _ h => h.elim
    obtain ⟨le, copies⟩ := copy_of_copies hc.counts hf
    have free₁ (d : Binding) (hd : d ∈ D) : Δ.Free t₁ d := by
      obtain ⟨⟨i, hi, heq⟩, free⟩ := free d hd
      exact ⟨⟨i, hi.trans_le le, heq⟩, free⟩
    have h := hb.runs hΔ hp (below.mono le) free₁ s hs
    rw [Eval.ensuring]
    generalize e s.world = r at h ⊢
    rcases r with ⟨v | kind | _ | _, w⟩
    · obtain ⟨s₁, run, rfl, new, known⟩ := h
      have below₂ := new.below (below.mono le) free₁ (hb.counts hp)
      have clause : Ends (q.Runs (calling oracle) fuel s₁) K Δ (fun _ => .done)
          (fun _ s₂ => (Δ ∪ out () v).On s₂) (e' s₁.world) :=
        (hc.runs (hΔ.trans Set.subset_union_left) hq below₂ nowhere s₁ known).imp
          (fun _ _ run' ⟨_, known'⟩ => ⟨run', known'.mono Set.subset_union_left⟩)
          (fun _ _ run' hk known' => ⟨run', hk, known'.mono Set.subset_union_left⟩) fun _ run' => run'
      refine clause.bind (fun b s₂ run' known' => ⟨s₂, Or.inl ⟨s₁, run, nofun, run'⟩, rfl, ?_, known'⟩)
        fun o s' ho run' => Or.inl ⟨s₁, run, ho.ne_left, run'⟩
      exact new.mono (fun f hf => Or.inl hf) subset_rfl le (hc.counts hq)
    · obtain ⟨s₁, run, rfl, hk, known⟩ := h
      obtain ⟨t₃, t₄, le', hcopy⟩ := copies kind (by cases kind <;> decide) hk
      refine (hc.runs hΔ hcopy (below.mono le') nowhere s₁ known).bind
        (fun b s₂ run' ⟨_, known'⟩ => ⟨s₂, Or.inr (Or.inl ⟨kind, s₁, run, Or.inl ⟨rfl, run'⟩⟩), rfl,
          hk, known'.mono Set.subset_union_left⟩)
        fun o s' ho run' => Or.inr (Or.inl ⟨kind, s₁, run, Or.inr ⟨ho, run'⟩⟩)
    · obtain ⟨s₁, run, rfl⟩ := h
      exact ⟨s₁, Or.inr (Or.inr ⟨rfl, run⟩), rfl⟩
    · exact h

end Sim

end ControlFlow.Meaning
