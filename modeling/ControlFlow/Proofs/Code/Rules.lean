import ControlFlow.Proofs.Code.Plan
import ControlFlow.Proofs.Lowering.Related
/-!
# Rules for the code of plans

A property that the code of every construct has if the code of its parts has it is a property of all
code that the plan of a tree allows. It may depend on the jumps that are possible, on the bindings that
hold a value before the code, and on those that are to hold one behind it.

The main result is `Code.Rules.related`.
-/

namespace ControlFlow

variable {vars : Set Binding}

/-- A property of code. -/
abbrev Code.Property (vars : Set Binding) : Type :=
  Set JumpKind → Known vars → Set Binding → Code → Prop

/-- A property `P` of code, `Q` of code that leads to the label of its construct, and `T` of tests one
after the other, each of which follows for a construct from its parts. What is required of the jumps
that leave the condition of a loop is `clear`. -/
structure Code.Rules (clear : Set JumpKind → Prop) (P Q T : Property vars) : Prop where
  mono {J Γ out out' c} (h : P J Γ out c) (less : out' ⊆ Γ.holds ∪ out) : P J Γ out' c
  skip {J Γ} : P J Γ ∅ .skip
  seq {J Γ mid out p q} (hp : P J Γ mid p) (hq : P J (Γ.and mid) out q) : P J Γ out (.seq p q)
  alloc {J Γ} : P J Γ ∅ .alloc
  emit {J Γ i plain} (quiet : i.isQuiet = true) (reads : ∀ b ∈ i.reads, b ∈ Γ.holds) :
    P J Γ {b | i.dest? = some b} (.emit i plain)
  jump {J Γ out kind p} (other : kind ≠ .return) (possible : kind ∈ J) (hp : P J Γ out p) :
    P J Γ ∅ (.seq p (.jump kind))
  returns {J Γ v plain p} (possible : .return ∈ J) (hp : P J Γ {v} p) :
    P J Γ ∅ (.seq (.seq p (.emit (.ret v) plain)) (.jump .return))
  twoWays {J Γ out on v p q r} (hp : P J Γ {v} p) (hq : P J Γ out q) (hr : P J Γ out r) :
    P J Γ out (.twoWays p v on q r)
  detour {J Γ out on v p} (holds : v ∈ Γ.holds) (hp : P J Γ out p) : P J Γ ∅ (.detour v on p)
  join {J Γ out p} (hp : Q J Γ out p) : P J Γ out (.join p)
  leave {J Γ out p} (hp : P J Γ out p) : Q J Γ out (.seq p .leave)
  before {J Γ mid out p q} (hp : P J Γ mid p) (hq : Q J (Γ.and mid) out q) : Q J Γ out (.seq p q)
  clause {J Γ out on v p q} (none : out ⊆ Γ.holds) (hp : P J Γ {v} p) (hq : P J Γ out q) :
    Q J Γ out (.clause on p v q)
  clauseElse {J Γ out on v p q r} (hp : P J Γ {v} p) (hq : P J Γ out q) (hr : Q J Γ out r) :
    Q J Γ out (.clauseElse on p v q r)
  noTest {J Γ} : T J Γ ∅ .skip
  test {J Γ v p q} (hp : P J Γ {v} p) (hq : T J Γ ∅ q) : T J Γ ∅ (.seq (.test p v) q)
  select {J Γ out p q r} (hp : T J Γ ∅ p) (hq : P J Γ out q) (hr : Q J Γ out r) :
    Q J Γ out (.seq (.select p q) r)
  loop {J K L Γ out on v v' p q r} (inner : K ⊆ J ∪ JumpKind.ofLoop) (hK : clear K)
    (hp : P K Γ {v} p) (hq : P L Γ out q) (hr : P K Γ {v'} r) : P J Γ ∅ (.loop on p v q r v')
  block {J Γ out p} (hp : P J Γ out p) : P J Γ out (.block p)
  guarded {J Γ out f p q} (hf : ∀ kind, P J Γ ∅ (f kind)) (hp : P J Γ out p)
    (hq : P J (Γ.and out) ∅ q) : P J Γ out (.guarded f p q)
  blockCall {J K Γ params closure dest callee p args q v}
    (holds : ∀ b ∈ Callee.bindings callee, b ∈ Γ.holds) (hp : P J Γ {b | b ∈ args.bindings} p)
    (hq : P K Γ {v} q) :
    P J Γ {b | dest = some b} (.blockCall params closure dest callee p args q v)

/-- All code that the plan allows has the property. -/
def Plan.allowed (P : Code.Property vars) : Relation vars Plan Plan :=
  fun J Γ _ out p _ => ∀ ⦃K t a c t'⦄, p K t a c t' → P J Γ (out a) c

namespace Code.Rules

variable {clear : Set JumpKind → Prop} {P Q T : Property vars} (rules : Rules clear P Q T)
  {J : Set JumpKind} {Γ : Known vars} {out : Set Binding}

include rules

lemma thenLeave {x x' : Plan Unit} (hx : Plan.allowed P J Γ _ (fun _ => out) x x') :
    Plan.allowed Q J Γ _ (fun _ => out) (Plan.thenLeave x) (Plan.thenLeave x') := by
  rintro K t u c t' ⟨p, hp, rfl⟩
  exact rules.leave (hx hp)

lemma clause_rest {on : Bool} {x x' : Plan Binding} {y y' : Plan Unit} {rest : Option (Plan Unit)}
    (hx : Plan.allowed P J Γ _ (fun v => {v}) x x') (hy : Plan.allowed P J Γ _ (fun _ => out) y y')
    (none : rest = none → out ⊆ Γ.holds)
    (hr : ∀ z ∈ rest, Plan.allowed Q J Γ _ (fun _ => out) z z) :
    Plan.allowed Q J Γ _ (fun _ => out) (Plan.clause on x y rest) (Plan.clause on x y rest) := by
  intro K t u c t' h
  cases rest with
  | none =>
    obtain ⟨v, p, t₁, q, hp, hq, rfl⟩ := h
    exact rules.clause (none rfl) (hx hp) (hy hq)
  | some z =>
    obtain ⟨v, p, t₁, q, t₂, r, hp, hq, hz, rfl⟩ := h
    exact rules.clauseElse (hx hp) (hy hq) (hr z rfl hz)

lemma alternative {a a' : Alternative Plan} (ha : a.Related (Plan.allowed P) J Γ out a') :
    (Plan.alternative a = none → out ⊆ Γ.holds) ∧
      ∀ z ∈ Plan.alternative a, Plan.allowed Q J Γ _ (fun _ => out) z z := by
  induction ha with
  | nothing h => exact ⟨fun _ => h, by simp [Plan.alternative]⟩
  | last h =>
    refine ⟨nofun, ?_⟩
    rintro z ⟨⟩
    exact rules.thenLeave h
  | clause hc hx _ ih =>
    refine ⟨nofun, ?_⟩
    rintro z ⟨⟩
    exact rules.clause_rest hc hx ih.1 ih.2

lemma tests {xs xs' : List (Plan Binding)}
    (hx : List.Forall₂ (Plan.allowed P J Γ Binding fun v => {v}) xs xs') :
    Plan.allowed T J Γ _ (fun _ => ∅) (Plan.tests xs) (Plan.tests xs') := by
  induction hx with
  | nil =>
    rintro K t u c t' ⟨-, rfl, -⟩
    exact rules.noTest
  | cons hx _ ih =>
    rintro K t u c t' ⟨v, p, t₁, q, hp, hq, rfl⟩
    exact rules.test (hx hp) (ih hq)

lemma clauses {a a' : Clauses Plan} (ha : a.Related (Plan.allowed P) J Γ out a') :
    Plan.allowed Q J Γ _ (fun _ => out) (Plan.clauses a) (Plan.clauses a') := by
  induction ha with
  | last h => exact rules.thenLeave h
  | clause hts hx _ ih =>
    rintro K t u c t' ⟨p, t₁, q, t₂, r, hp, hq, hr, rfl⟩
    exact rules.select (rules.tests hts hp) (hx hq) (ih hr)

/-- A kind of jump that leads nowhere has no copy, and skipping has the property as well. -/
lemma copies {x x' : Plan Unit} (hx : Plan.allowed P J Γ _ (fun _ => ∅) x x') {K : Set JumpKind}
    {f : JumpKind → Code} {kinds : List JumpKind} {t t' : Nat} (h : Plan.copies x K f kinds t t') :
    ∀ kind ∈ kinds, P J Γ ∅ (f kind) := by
  induction kinds generalizing t with
  | nil => simp
  | cons kind kinds ih =>
    rcases h with ⟨-, t₁, hc, hr⟩ | ⟨-, hs, hr⟩
    · exact List.forall_mem_cons.2 ⟨hx hc, ih hr⟩
    · refine List.forall_mem_cons.2 ⟨?_, ih hr⟩
      rw [hs]
      exact rules.skip

/-- **A property that follows for each construct from its parts is one of all code that the plan of a
tree allows.** -/
theorem related {env : Environment} (registered : ∀ name b, env.types name = some b → b ∈ vars) :
    Construction.Related env env clear (Plan.allowed P) where
  types := rfl
  registered h := registered _ _ h
  pure a h := by
    rintro K t _ c t' ⟨rfl, rfl, -⟩
    exact rules.mono rules.skip (h.trans Set.subset_union_left)
  bind hx hf := by
    rintro K t _ c t' ⟨a, p, t₁, q, hp, hq, rfl⟩
    exact rules.seq (hx hp) (hf a hq)
  mono hx h := fun _ _ a _ _ hc => rules.mono (hx hc) (h a)
  failAt _ _ := by rintro _ _ _ _ _ ⟨⟩
  nested _ _ _ hx := hx
  allocTemp := by
    rintro J Γ K t _ c t' ⟨-, rfl, -⟩
    exact rules.alloc
  emit i plain quiet h := by
    rintro K t _ c t' ⟨rfl, -⟩
    exact rules.emit quiet h
  jumpOut _ kind other h _ _ hx := by
    rintro K t _ c t' ⟨-, p, hp, rfl⟩
    exact rules.jump other h (hx hp)
  returnValue _ h _ _ hx := by
    rintro K t _ c t' ⟨-, _, ⟨v, p, t₁, _, hp, ⟨rfl, -⟩, rfl⟩, rfl⟩
    exact rules.returns h (hx hp)
  twoWays on _ _ _ _ ht hx hy := by
    rintro K t _ c t' ⟨v, p, t₁, q, t₂, r, hp, hq, hr, rfl⟩
    exact rules.twoWays (ht hp) (hx hq) (hy hr)
  detour h on _ _ hx := by
    rintro K t _ c t' ⟨p, hp, rfl⟩
    exact rules.detour h (hx hp)
  conditional on _ _ _ _ _ _ hc hx ha := by
    rintro K t _ c t' ⟨w, hw, rfl⟩
    obtain ⟨none, some⟩ := rules.alternative ha
    exact rules.join (rules.clause_rest hc hx none some hw)
  select hs hcs := by
    rintro K t _ c t' ⟨v, p, t₁, w, hp, hw, rfl⟩
    exact rules.join (rules.before (hs hp) (rules.clauses (hcs v) hw))
  loop _ _ _ _ _ _ hK hclear hc _ hx := by
    rintro K t _ c t' ⟨v, p, t₁, q, t₂, v', r, hp, hq, hr, rfl⟩
    exact rules.loop hK hclear (hc hp) (hx hq) (hc hr)
  unguarded hx := by
    rintro K t _ c t' ⟨p, hp, rfl⟩
    exact rules.block (hx hp)
  guarded {J Γ out x y x' y'} hx hy := by
    rintro K t _ c t' ⟨f, t₁, p, t₂, q, hf, hp, hq, rfl⟩
    exact rules.guarded (fun kind => rules.copies (hy Γ) hf kind (by cases kind <;> decide)) (hx hp)
      (hy (Γ.and out) hq)
  blockCall {J K Γ} params dest callee r r' x x' h hr _ hx := by
    rintro K t _ c t' ⟨values, p, t₁, v, q, t₂, hp, hq, -, rfl⟩
    exact rules.blockCall h (hr hp) (hx Γ hq)

end Code.Rules

end ControlFlow
