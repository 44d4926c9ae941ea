import ControlFlow.Proofs.Code.Reached
/-!
# Bindings that hold a value

`Code.Flows` follows the bindings that hold a value through structured code. Code through which they
flow is laid out by moves, so everything that moves keep holds of its graph: every block ends in a
terminator, and no instruction reads a binding that holds no value.

That laying code out is such a sequence of moves is proved construct by construct in `Place`.
-/

namespace ControlFlow

/-- What holds a value at the targets of jumps inside of a loop. -/
def loopFacts (J : JumpKind → Set Binding) (A : Set Binding) : JumpKind → Set Binding
  | .return => J .return
  | _ => A

namespace Code

/-- Where the bindings in `A` hold a value before code, and those in `B` have to at its label and
those in `J` at the targets of jumps, those in `A'` hold one behind it. -/
def Flows : Code → (J : JumpKind → Set Binding) → (B A A' : Set Binding) → Prop
  | .skip, _, _, A, A' => A' ⊆ A
  | .seq p q, J, B, A, A' => ∃ A₁, p.Flows J B A A₁ ∧ q.Flows J B A₁ A'
  | .alloc, _, _, A, A' => A' ⊆ A
  | .emit i _, _, _, A, A' => i.Ready A ∧ A' ⊆ A ∪ i.defs
  | .jump kind, J, _, A, _ => J kind ⊆ A
  | .leave, _, B, A, _ => B ⊆ A
  | .twoWays x c _ first second, J, _, A, A' =>
    ∃ A₁ A₂ A₃, x.Flows J A' A A₁ ∧ c ∈ A₁ ∧ first.Flows J A' A₁ A₂ ∧ A' ⊆ A₂ ∧
      second.Flows J A' A₁ A₃ ∧ A' ⊆ A₃
  | .detour c _ way, J, _, A, A' => c ∈ A ∧ A' ⊆ A ∧ ∃ A₁, way.Flows J A' A A₁ ∧ A' ⊆ A₁
  | .join ways, J, _, A, A' => ∃ A₁, ways.Flows J A' A A₁ ∧ A' ⊆ A₁
  | .clause _ x c body, J, B, A, _ =>
    ∃ A₁ A₂, x.Flows J B A A₁ ∧ c ∈ A₁ ∧ B ⊆ A₁ ∧ body.Flows J B A₁ A₂ ∧ B ⊆ A₂
  | .clauseElse _ x c body rest, J, B, A, A' =>
    ∃ A₁ A₂, x.Flows J B A A₁ ∧ c ∈ A₁ ∧ body.Flows J B A₁ A₂ ∧ B ⊆ A₂ ∧
      rest.Flows J B A₁ A'
  | .test inner c, J, B, A, A' => ∃ A₁, inner.Flows J B A A₁ ∧ c ∈ A₁ ∧ B ⊆ A₁ ∧ A' ⊆ A₁
  | .select tests body, J, B, A, A' =>
    ∃ A₁ A₂ A₃, tests.Flows J A₁ A A₂ ∧ body.Flows J B A₁ A₃ ∧ B ⊆ A₃ ∧ A' ⊆ A₂
  | .loop _ x c body again c', J, _, A, A' =>
    A' ⊆ A ∧ ∃ A₁ A₂ A₃, x.Flows (loopFacts J A) A A A₁ ∧ c ∈ A₁ ∧ A ⊆ A₁ ∧
      body.Flows (loopFacts J A) A A A₂ ∧ again.Flows (loopFacts J A) A A₂ A₃ ∧ c' ∈ A₃ ∧ A ⊆ A₃
  | .block body, J, _, A, A' => body.Flows J A A A'
  | .guarded copies body ensure, J, _, A, A' =>
    (∀ kind, ∃ A₁, (copies kind).Flows J A A A₁ ∧ J kind ⊆ A₁) ∧
      ∃ A₁ A₂, body.Flows (fun _ => A) A A A₁ ∧ ensure.Flows J A₁ A₁ A₂ ∧ A' ⊆ A₂
  | .blockCall _ _ dest callee request args body v, J, _, A, A' =>
    ∃ A₁ A₂, request.Flows J A' A A₁ ∧ (∀ b ∈ callee.bindings ++ args.bindings, b ∈ A₁) ∧
      A' ⊆ A₁ ∪ {b | dest = some b} ∧ body.Flows (loopFacts J A') A' A' A₂ ∧ v ∈ A₂ ∧ A' ⊆ A₂

/-- Code is laid out by moves wherever bindings flow through it. -/
def Placed (c : Code) (l : BlockName) (T : JumpTargets) (b b' : Builder) : Prop :=
  ∀ ⦃G : Layout⦄ ⦃J : JumpKind → Set Binding⦄ ⦃B A' : Set Binding⦄, G.Valid → G.builder = b →
    G.Accepts G.scope B l → (∀ kind n, T.get? kind = some n → G.Accepts G.scope (J kind) n) →
    c.Flows J B G.now A' → G.Reached b' A' G.pending G.scope

end Code

namespace Layout.Reached

variable {G : Layout} {b b' : Builder} {A A' B : Set Binding} {P E : Set BlockName}
  {J : JumpKind → Set Binding} {c : Code} {l : BlockName} {T : JumpTargets}

/-- Code is laid out behind other moves. -/
lemma code (hG : G.Valid) (r : G.Reached b A P E) (h : c.Placed l T b b')
    (hl : G.Accepts E B l) (hT : ∀ kind n, T.get? kind = some n → G.Accepts E (J kind) n)
    (hf : c.Flows J B A A') : G.Reached b' A' P E := by
  obtain ⟨L, hr⟩ := r
  have accepts : ∀ {n : BlockName} {s : Set Binding}, G.Accepts E s n →
      (⟨b, L, A, P, E⟩ : Layout).Accepts E s n :=
    fun h => ⟨h.1, h.2.1.mono hr.frame.next, (hr.frame.label _ h.2.1).symm ▸ h.2.2⟩
  exact (h (hr.valid hG) rfl (accepts hl) (fun k n hk => accepts (hT k n hk)) hf).of_moves hr

/-- A block is begun, filled with code, and leads on. -/
lemma way (hG : G.Valid) (r : G.Reached b A P E) (none : b.current = none) {n m : BlockName}
    {s : Set Binding} (hn : G.Made n s) (hp : n ∈ P) (h : c.Placed l T (b.startBlock n) b')
    (hl : G.Accepts E B l) (hT : ∀ kind n, T.get? kind = some n → G.Accepts E (J kind) n)
    (hf : c.Flows J B s A') (hm : G.Accepts E A' m) :
    G.Reached (b'.jump m) Set.univ (P \ {n}) E := by
  have begun := r.start none hp hn.known
  rw [hn.label] at begun
  exact (begun.code hG h hl hT hf).jump hm

end Layout.Reached

end ControlFlow
