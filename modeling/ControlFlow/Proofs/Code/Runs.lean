import ControlFlow.Proofs.Code.Embed
/-!
# Runs of structured code

`Code.Runs` says how a machine may run through structured code, and `Code.In.run` that a graph which
holds the code is run in the same way.

A run need not end. What is said about a run that goes on and on is what its state is after a while:
such a run is cut off inside of a loop, after a given number of rounds. A call with a block literal is
only run past the body of the literal.
-/

namespace ControlFlow

/-! ## Runs -/

/-- Where a run of code gets to. -/
inductive Outcome where
  /-- Behind the code. -/
  | done
  /-- To the label in front of which the code stands. -/
  | left
  /-- To the target of a jump. -/
  | jump (kind : JumpKind)
  /-- Inside of a loop, where it is cut off. -/
  | cut
deriving DecidableEq

/-- The run gets out of all the constructs that do not catch a jump. -/
def Outcome.Escapes : Outcome → Prop
  | .jump _ | .cut => True
  | _ => False

lemma Outcome.Escapes.ne_done {o : Outcome} (h : o.Escapes) : o ≠ .done := by
  rintro rfl
  exact h

lemma Outcome.Escapes.ne_left {o : Outcome} (h : o.Escapes) : o ≠ .left := by
  rintro rfl
  exact h

/-- The parts of a loop. -/
inductive LoopPart where
  | test
  | body
  /-- The test behind the body. -/
  | again
deriving DecidableEq

/-- Something for each part of a loop. -/
def LoopPart.of {α : Sort*} (test body again : α) : LoopPart → α
  | .test => test
  | .body => body
  | .again => again

variable {σ : Type}

/-- Up to a number of rounds of a loop, from the start of one of its parts. The body is taken where
the condition comes out `on`. -/
inductive Rounds (M : Machine σ) (on : Bool) (condition : LoopPart → Binding)
    (part : LoopPart → σ → Outcome → σ → Prop) : Nat → LoopPart → σ → Outcome → σ → Prop where
  | cut {p : LoopPart} {s : σ} : Rounds M on condition part 0 p s .cut s
  | through {n : Nat} {s s₁ s' : σ} {o : Outcome} (h : part .body s .done s₁)
      (rest : Rounds M on condition part n .again s₁ o s') : Rounds M on condition part n .body s o s'
  | enter {n : Nat} {p : LoopPart} {s s₁ s' : σ} {o : Outcome} (hp : p ≠ .body)
      (h : part p s .done s₁) (takes : M.takes (some (condition p)) s₁ on)
      (rest : Rounds M on condition part n .body s₁ o s') :
      Rounds M on condition part (n + 1) p s o s'
  | finish {n : Nat} {p : LoopPart} {s s' : σ} (hp : p ≠ .body) (h : part p s .done s')
      (takes : M.takes (some (condition p)) s' (!on)) : Rounds M on condition part n p s .done s'
  | broken {n : Nat} {p : LoopPart} {s s' : σ} (h : part p s (.jump .break) s') :
      Rounds M on condition part n p s .done s'
  | next {n : Nat} {p : LoopPart} {s s₁ s' : σ} {o : Outcome} (h : part p s (.jump .next) s₁)
      (rest : Rounds M on condition part n .test s₁ o s') :
      Rounds M on condition part (n + 1) p s o s'
  | redo {n : Nat} {p : LoopPart} {s s₁ s' : σ} {o : Outcome} (h : part p s (.jump .redo) s₁)
      (rest : Rounds M on condition part n .body s₁ o s') :
      Rounds M on condition part (n + 1) p s o s'
  | returned {n : Nat} {p : LoopPart} {s s' : σ} (h : part p s (.jump .return) s') :
      Rounds M on condition part n p s (.jump .return) s'
  | inside {n : Nat} {p : LoopPart} {s s' : σ} (h : part p s .cut s') :
      Rounds M on condition part n p s .cut s'

/-- Runs that go on to the label from where they are done. -/
def thenLeaves (runs : σ → Outcome → σ → Prop) (s : σ) (o : Outcome) (s' : σ) : Prop :=
  o = .left ∧ runs s .done s' ∨ o ≠ .done ∧ runs s o s'

/-- The machine may run through code from a state to another. No loop is run for more than `fuel`
rounds. -/
def Code.Runs (M : Machine σ) (fuel : Nat) : Code → σ → Outcome → σ → Prop
  | .skip, s, o, s' => o = .done ∧ s' = s
  | .seq p q, s, o, s' =>
    (∃ s₁, p.Runs M fuel s .done s₁ ∧ q.Runs M fuel s₁ o s') ∨ o ≠ .done ∧ p.Runs M fuel s o s'
  | .alloc, s, o, s' => o = .done ∧ s' = s
  | .emit i _, s, o, s' => o = .done ∧ s' = M.act i s
  | .jump kind, s, o, s' => o = .jump kind ∧ s' = s
  | .leave, s, o, s' => o = .left ∧ s' = s
  | .twoWays t c on first second, s, o, s' =>
    (∃ s₁ way, t.Runs M fuel s .done s₁ ∧ M.takes (some c) s₁ way ∧ o ≠ .left ∧
      if way = on then first.Runs M fuel s₁ o s' else second.Runs M fuel s₁ o s') ∨
    o.Escapes ∧ t.Runs M fuel s o s'
  | .detour c on way, s, o, s' => ∃ taken, M.takes (some c) s taken ∧ o ≠ .left ∧
    if taken = on then way.Runs M fuel s o s' else o = .done ∧ s' = s
  | .join ways, s, o, s' =>
    o = .done ∧ ways.Runs M fuel s .left s' ∨ o ≠ .left ∧ ways.Runs M fuel s o s'
  | .clause on t c body, s, o, s' =>
    (∃ s₁ way, t.Runs M fuel s .done s₁ ∧ M.takes (some c) s₁ way ∧
      if way = on then thenLeaves (body.Runs M fuel) s₁ o s' else o = .left ∧ s' = s₁) ∨
    o.Escapes ∧ t.Runs M fuel s o s'
  | .clauseElse on t c body rest, s, o, s' =>
    (∃ s₁ way, t.Runs M fuel s .done s₁ ∧ M.takes (some c) s₁ way ∧
      if way = on then thenLeaves (body.Runs M fuel) s₁ o s' else rest.Runs M fuel s₁ o s') ∨
    o.Escapes ∧ t.Runs M fuel s o s'
  | .test inner c, s, o, s' =>
    (∃ way, inner.Runs M fuel s .done s' ∧ M.takes (some c) s' way ∧
      o = if way then .left else .done) ∨
    o.Escapes ∧ inner.Runs M fuel s o s'
  | .select tests body, s, o, s' =>
    (∃ s₁, tests.Runs M fuel s .left s₁ ∧ thenLeaves (body.Runs M fuel) s₁ o s') ∨
    o ≠ .left ∧ tests.Runs M fuel s o s'
  | .loop on t c body again c', s, o, s' =>
    Rounds M on (LoopPart.of c c c')
      (LoopPart.of (t.Runs M fuel) (body.Runs M fuel) (again.Runs M fuel)) fuel .test s o s'
  | .block body, s, o, s' => o ≠ .left ∧ body.Runs M fuel s o s'
  | .guarded copies body ensure, s, o, s' =>
    (∃ s₁, body.Runs M fuel s .done s₁ ∧ o ≠ .left ∧ ensure.Runs M fuel s₁ o s') ∨
    (∃ kind s₁, body.Runs M fuel s (.jump kind) s₁ ∧
      (o = .jump kind ∧ (copies kind).Runs M fuel s₁ .done s' ∨
        o.Escapes ∧ (copies kind).Runs M fuel s₁ o s')) ∨
    o = .cut ∧ body.Runs M fuel s .cut s'
  | .blockCall params closure dest callee request args _ _, s, o, s' =>
    ∀ bodyBlock, (∃ s₁, request.Runs M fuel (M.act (.closure closure params bodyBlock) s) .done s₁ ∧
      s' = M.act (.send dest callee args (.body bodyBlock)) s₁ ∧ M.takes none s' false ∧ o = .done) ∨
      o.Escapes ∧ request.Runs M fuel (M.act (.closure closure params bodyBlock) s) o s'

/-! ## Runs of a graph that holds code -/

/-- Runs of a graph from a point get to where an outcome says; a jump takes a step, and runs that are
cut off have at least `bound` steps. -/
def Graph.Leads (g : Graph) (M : Machine σ) (bound : Nat) (l : BlockName) (T : JumpTargets)
    (y : Option Point) (p : Point) (s : σ) (o : Outcome) (s' : σ) : Prop :=
  ∃ k q, g.Run M k (p, s) (q, s') ∧
    match o with
    | .done => y = some q
    | .left => q = .start l
    | .jump kind => 0 < k ∧ ∃ target, T.get? kind = some target ∧ q = .start target
    | .cut => bound ≤ k

namespace Graph

variable {g : Graph} {M : Machine σ} {bound k : Nat} {l l' : BlockName} {T : JumpTargets}
  {x y y' : Option Point} {p p₁ : Point} {s s₁ s' : σ} {o : Outcome} {c : Binding} {on way : Bool}
  {taken other : BlockName}

lemma Leads.after (r : g.Run M k (p, s) (p₁, s₁)) (h : g.Leads M bound l T y p₁ s₁ o s') :
    g.Leads M (bound + k) l T y p s o s' := by
  obtain ⟨j, q, run, hq⟩ := h
  refine ⟨k + j, q, r.trans run, ?_⟩
  cases o with
  | jump kind => exact ⟨Nat.add_pos_right k hq.1, hq.2⟩
  | cut => exact (Nat.add_le_add_right hq k).trans (Nat.add_comm j k).le
  | _ => exact hq

lemma Leads.mono {bound' : Nat} (h : g.Leads M bound l T y p s o s') (le : bound' ≤ bound) :
    g.Leads M bound' l T y p s o s' := by
  obtain ⟨k, q, run, hq⟩ := h
  refine ⟨k, q, run, ?_⟩
  cases o with
  | cut => exact le.trans hq
  | _ => exact hq

lemma Leads.behind (h : g.Leads M bound l T y p₁ s₁ o s') (r : g.Run M k (p, s) (p₁, s₁)) :
    g.Leads M bound l T y p s o s' :=
  (h.after r).mono (Nat.le_add_right _ _)

lemma Leads.escape (h : g.Leads M bound l T y p s o s') (ho : o.Escapes) :
    g.Leads M bound l' T y' p s o s' := by
  cases o with
  | jump kind => exact h
  | cut => exact h
  | done => cases ho
  | left => cases ho

lemma Leads.undone (h : g.Leads M bound l T y p s o s') (ho : o ≠ .done) :
    g.Leads M bound l T y' p s o s' := by
  cases o with
  | done => exact absurd rfl ho
  | _ => exact h

lemma Leads.unleft (h : g.Leads M bound l T y p s o s') (ho : o ≠ .left) :
    g.Leads M bound l' T y p s o s' := by
  cases o with
  | left => exact absurd rfl ho
  | _ => exact h

variable {target after : BlockName}

/-- Where code is done that leads to a block, that block is reached. -/
lemma Leads.onward (h : g.Leads M bound l T y p s .done s') (hy : g.Has y (.jump target)) :
    ∃ k, g.Run M (k + 1) (p, s) (.start target, s') := by
  obtain ⟨k, q, run, hq⟩ := h
  exact ⟨k, run.trans (Step.jump (hy q hq)).run⟩

/-- A way leads to where it meets others. -/
lemma Leads.meet (h : g.Leads M bound l T y p s o s') (hy : g.Has y (.jump after)) (ho : o ≠ .left) :
    g.Leads M bound l' T (some (.start after)) p s o s' := by
  by_cases hd : o = .done
  · subst hd
    obtain ⟨k, run⟩ := h.onward hy
    exact ⟨k + 1, _, run, rfl⟩
  · exact (h.undone hd).unleft ho

lemma Leads.thenLeaves {runs : σ → Outcome → σ → Prop}
    (h : ∀ o, runs s o s' → g.Leads M bound l T y p s o s') (hy : g.Has y (.jump l))
    (hr : thenLeaves runs s o s') : g.Leads M bound l T y' p s o s' := by
  rcases hr with ⟨rfl, hr⟩ | ⟨ho, hr⟩
  · obtain ⟨k, run⟩ := (h _ hr).onward hy
    exact ⟨k + 1, _, run, rfl⟩
  · exact (h _ hr).undone ho

lemma Has.run (h : g.Has (some p) (.jump target)) : g.Run M 1 (p, s) (.start target, s) :=
  (Step.jump (h p rfl)).run

lemma HasBranch.run (h : g.HasBranch (some p) c on taken other) (takes : M.takes (some c) s way) :
    g.Run M 1 (p, s) (.start (if way = on then taken else other), s) := by
  have step : ∀ x y, g.instruction? p = some (.branch (some c) x y) →
      g.Run M 1 (p, s) (.start (if way then x else y), s) :=
    fun x y h => (Step.branch h takes).run
  have h := h p rfl
  cases on <;> cases way <;> exact step _ _ h

/-- Behind a test that is done, the way that is taken starts. -/
lemma Leads.branch (h : g.Leads M bound l T y p s .done s')
    (hy : g.HasBranch y c on taken other) (takes : M.takes (some c) s' way) :
    ∃ k, g.Run M (k + 1) (p, s) (.start (if way = on then taken else other), s') := by
  obtain ⟨k, q, run, rfl⟩ := h
  exact ⟨k, run.trans (hy.run takes)⟩

/-- The rounds of a loop are runs of the graph, each of them of at least one step. -/
lemma Leads.rounds {condition : LoopPart → Binding} {part : LoopPart → σ → Outcome → σ → Prop}
    {n fuel : Nat} {q : LoopPart} {bodyBlock pretest : BlockName}
    (start stop : LoopPart → Option Point) (hr : Rounds M on condition part n q s o s')
    (hn : n ≤ fuel)
    (hpart : ∀ q p s o s', start q = some p → part q s o s' →
      g.Leads M fuel after (T.inLoop after pretest bodyBlock) (stop q) p s o s')
    (htest : start .test = some (.start pretest)) (hbody : start .body = some (.start bodyBlock))
    (hagain : start .again = stop .body)
    (hbranch : ∀ q, q ≠ .body → g.HasBranch (stop q) (condition q) on bodyBlock after)
    (hp : start q = some p) : g.Leads M n l T (some (.start after)) p s o s' := by
  induction hr generalizing p with
  | cut => exact ⟨0, p, .refl, le_rfl⟩
  | through h _ ih =>
    obtain ⟨k, q, run, hq⟩ := hpart _ _ _ _ _ hp h
    exact (ih hn (hagain.trans hq)).behind run
  | enter hq h takes _ ih =>
    obtain ⟨k, run⟩ := (hpart _ _ _ _ _ hp h).branch (hbranch _ hq) takes
    rw [if_pos rfl] at run
    exact ((ih (by omega) hbody).after run).mono (by omega)
  | finish hq h takes =>
    obtain ⟨k, run⟩ := (hpart _ _ _ _ _ hp h).branch (hbranch _ hq) takes
    rw [if_neg (by cases on <;> decide)] at run
    exact ⟨k + 1, _, run, rfl⟩
  | broken h =>
    obtain ⟨k, q, run, -, target, ht, rfl⟩ := hpart _ _ _ _ _ hp h
    obtain rfl : after = target := Option.some.inj ht
    exact ⟨k, _, run, rfl⟩
  | next h _ ih =>
    obtain ⟨k, q, run, hk, target, ht, rfl⟩ := hpart _ _ _ _ _ hp h
    obtain rfl : pretest = target := Option.some.inj ht
    exact ((ih (by omega) htest).after run).mono (by omega)
  | redo h _ ih =>
    obtain ⟨k, q, run, hk, target, ht, rfl⟩ := hpart _ _ _ _ _ hp h
    obtain rfl : bodyBlock = target := Option.some.inj ht
    exact ((ih (by omega) hbody).after run).mono (by omega)
  | returned h =>
    obtain ⟨k, q, run, hk, target, ht, rfl⟩ := hpart _ _ _ _ _ hp h
    exact ⟨k, _, run, hk, target, ht, rfl⟩
  | inside h =>
    obtain ⟨k, q, run, hk⟩ := hpart _ _ _ _ _ hp h
    exact ⟨k, q, run, hn.trans hk⟩

end Graph

namespace Code.In

variable {g : Graph} {M : Machine σ} {fuel : Nat} {l : BlockName} {T : JumpTargets}
  {x y : Option Point} {p : Point} {s s' : σ} {o : Outcome}

/-- **A graph that holds code is run as the code is.** -/
theorem run {c : Code} (h : c.In g l T (some p) y) (hr : c.Runs M fuel s o s') :
    g.Leads M fuel l T y p s o s' := by
  -- each part is run from the point at which the part before it has stopped
  induction c generalizing l T p y s o s' with
  | skip =>
    obtain ⟨rfl, rfl⟩ := hr
    exact ⟨0, p, .refl, h⟩
  | alloc =>
    obtain ⟨rfl, rfl⟩ := hr
    exact ⟨0, p, .refl, h⟩
  | emit i plain =>
    obtain ⟨rfl, rfl⟩ := hr
    exact ⟨1, p.next, (Graph.Step.act (h.1 p rfl) plain).run, h.2 p rfl⟩
  | jump kind =>
    obtain ⟨rfl, rfl⟩ := hr
    obtain ⟨target, ht, h⟩ := h
    exact ⟨1, _, h.run, Nat.one_pos, target, ht, rfl⟩
  | leave =>
    obtain ⟨rfl, rfl⟩ := hr
    exact ⟨1, _, Graph.Has.run h, rfl⟩
  | seq p q ihp ihq =>
    obtain ⟨x₁, hp, hq⟩ := h
    rcases hr with ⟨s₁, h₁, h₂⟩ | ⟨ho, h₁⟩
    · obtain ⟨k, q, run, rfl⟩ := ihp hp h₁
      exact (ihq hq h₂).behind run
    · exact (ihp hp h₁).undone ho
  | twoWays t c on first second iht ihf ihs =>
    obtain ⟨taken, other, after, x₁, x₂, x₃, ht, hc, hf, hf', hs, hs', rfl⟩ := h
    rcases hr with ⟨s₁, way, h₁, takes, ho, h₂⟩ | ⟨ho, h₁⟩
    · obtain ⟨k, run⟩ := (iht ht h₁).branch hc takes
      split at h₂
      · rw [if_pos ‹_›] at run
        exact ((ihf hf h₂).meet hf' ho).behind run
      · rw [if_neg ‹_›] at run
        exact ((ihs hs h₂).meet hs' ho).behind run
    · exact (iht ht h₁).escape ho
  | detour c on way ihw =>
    obtain ⟨taken, after, x₁, hc, hw, hw', rfl⟩ := h
    obtain ⟨b, takes, ho, h₂⟩ := hr
    have run := hc.run takes
    split at h₂
    · rw [if_pos ‹_›] at run
      exact ((ihw hw h₂).meet hw' ho).behind run
    · rw [if_neg ‹_›] at run
      obtain ⟨rfl, rfl⟩ := h₂
      exact ⟨1, _, run, rfl⟩
  | join ways ihw =>
    obtain ⟨after, x₁, hw, hw', rfl⟩ := h
    rcases hr with ⟨rfl, h₁⟩ | ⟨ho, h₁⟩
    · obtain ⟨k, q, run, rfl⟩ := ihw hw h₁
      exact ⟨k, _, run, rfl⟩
    · exact (ihw hw h₁).meet hw' ho
  | clause on t c body iht ihb =>
    obtain ⟨taken, x₁, x₂, ht, hc, hb, hb'⟩ := h
    rcases hr with ⟨s₁, way, h₁, takes, h₂⟩ | ⟨ho, h₁⟩
    · obtain ⟨k, run⟩ := (iht ht h₁).branch hc takes
      split at h₂
      · rw [if_pos ‹_›] at run
        exact (Graph.Leads.thenLeaves (fun o h => ihb hb h) hb' h₂).behind run
      · rw [if_neg ‹_›] at run
        obtain ⟨rfl, rfl⟩ := h₂
        exact ⟨k + 1, _, run, rfl⟩
    · exact (iht ht h₁).escape ho
  | clauseElse on t c body rest iht ihb ihr =>
    obtain ⟨taken, other, x₁, x₂, ht, hc, hb, hb', hrest⟩ := h
    rcases hr with ⟨s₁, way, h₁, takes, h₂⟩ | ⟨ho, h₁⟩
    · obtain ⟨k, run⟩ := (iht ht h₁).branch hc takes
      split at h₂
      · rw [if_pos ‹_›] at run
        exact (Graph.Leads.thenLeaves (fun o h => ihb hb h) hb' h₂).behind run
      · rw [if_neg ‹_›] at run
        exact (ihr hrest h₂).behind run
    · exact (iht ht h₁).escape ho
  | test inner c ihi =>
    obtain ⟨failed, x₁, hi, hc, rfl⟩ := h
    rcases hr with ⟨way, h₁, takes, rfl⟩ | ⟨ho, h₁⟩
    · obtain ⟨k, run⟩ := (ihi hi h₁).branch hc takes
      cases way with
      | true => exact ⟨k + 1, _, run, rfl⟩
      | false => exact ⟨k + 1, _, run, rfl⟩
    · exact (ihi hi h₁).escape ho
  | select tests body iht ihb =>
    obtain ⟨bodyBlock, x₁, ht, hb, hb'⟩ := h
    rcases hr with ⟨s₁, h₁, h₂⟩ | ⟨ho, h₁⟩
    · obtain ⟨k, q, run, rfl⟩ := iht ht h₁
      exact (Graph.Leads.thenLeaves (fun o h => ihb hb h) hb' h₂).behind run
    · exact (iht ht h₁).unleft ho
  | loop on t c body again c' iht ihb iha =>
    obtain ⟨bodyBlock, after, pretest, x₁, x₂, x₃, hx, ht, hc, hb, ha, hc', rfl⟩ := h
    refine (Graph.Leads.rounds (LoopPart.of (some (.start pretest)) (some (.start bodyBlock)) x₂)
      (LoopPart.of x₁ x₂ x₃) hr le_rfl ?_ rfl rfl rfl ?_ rfl).behind hx.run
    · rintro (_ | _ | _) p s o s' hp h
      · exact iht (Option.some.inj hp ▸ ht) h
      · exact ihb (Option.some.inj hp ▸ hb) h
      · obtain rfl : x₂ = some p := hp
        exact iha ha h
    · rintro (_ | _ | _) hq
      · exact hc
      · exact absurd rfl hq
      · exact hc'
  | block body ihb =>
    obtain ⟨bodyBlock, hx, hb⟩ := h
    obtain ⟨ho, h₁⟩ := hr
    exact ((ihb hb h₁).unleft ho).behind hx.run
  | guarded copies body ensure ihc ihb ihe =>
    obtain ⟨bodyBlock, ensureBlock, after, T', x₁, x₂, hx, hcopies, hb, hb', he, he', rfl⟩ := h
    rcases hr with ⟨s₁, h₁, ho, h₂⟩ | ⟨kind, s₁, h₁, h₂⟩ | ⟨rfl, h₁⟩
    · obtain ⟨k, run⟩ := (ihb hb h₁).onward hb'
      exact (((ihe he h₂).meet he' ho).behind run).behind hx.run
    · -- the jump lands in its copy of the clause
      obtain ⟨k, q, run, hk, n, hn, rfl⟩ := ihb hb h₁
      obtain ⟨target, x', ht, hcopy, hx'⟩ := hcopies kind n hn
      rcases h₂ with ⟨rfl, h₂⟩ | ⟨ho, h₂⟩
      · obtain ⟨j, run'⟩ := (ihc kind hcopy h₂).onward hx'
        exact ⟨_, _, hx.run.trans (run.trans run'), by omega, target, ht, rfl⟩
      · exact (((ihc kind hcopy h₂).escape ho).behind run).behind hx.run
    · obtain ⟨k, q, run, hk⟩ := ihb hb h₁
      exact ⟨_, q, hx.run.trans run, by omega⟩
  | blockCall params closure dest callee request args body v ihr _ =>
    obtain ⟨bodyBlock, after, x₀, x₁, hx, hx₀, hrequest, hs, hb, rfl⟩ := h
    obtain rfl := hx₀ p rfl
    have made := (Graph.Step.act (M := M) (s := s) (hx p rfl) rfl).run
    rcases hr bodyBlock with ⟨s₁, h₁, rfl, takes, rfl⟩ | ⟨ho, h₁⟩
    · obtain ⟨k, q, run, rfl⟩ := ihr hrequest h₁
      have called := (Graph.Step.act (M := M) (s := s₁) (hs q rfl) rfl).run
      have past := (Graph.Step.branch (M := M) (hb q.next rfl) takes).run
      exact ⟨_, _, made.trans (run.trans (called.trans past)), rfl⟩
    · exact ((ihr hrequest h₁).escape ho).behind made

end Code.In

end ControlFlow
