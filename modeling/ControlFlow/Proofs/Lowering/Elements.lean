import ControlFlow.Proofs.Lowering.Splices
/-!
# Arrays of elements

Elements are gathered in a new array: each of them is evaluated, and then its value or its items are
added to the array, before the next one is evaluated. What an element does is left open. But it does
not name the array, so the array is left alone until something is added to it.
-/

namespace ControlFlow

open Builder Construction Meaning

/-- The node that is evaluated for an element: what is spliced, or the element itself. -/
def Node.operand : Node → Node
  | .mk _ (.splat n) => n
  | n => n

variable {n : Node}

lemma Node.TemporaryFree.operand (h : n.TemporaryFree) : n.operand.TemporaryFree := by
  rcases n with ⟨info, kind⟩
  cases kind with
  | splat n => exact Node.Each.child h (c := n) (by simp [Kind.children, Kind.fields])
  | _ => exact h

namespace Lowering

lemma elements_cons {m : Type → Type} [Monad m] [Construction m] (env : Environment)
    (klass array : Binding) (n : Node) (ns : List Node) :
    (elements env klass array (n :: ns) : m Unit) = (do
      let v ← value env n.operand
      addValue klass array n.isSplat v
      elements env klass array ns) := by
  rcases n with ⟨info, kind⟩
  cases kind <;> rfl

lemma lays_value (env : Environment) (n : Node) : (value env n : Walk Binding).Lays := by
  intro b T d v s' h
  have linked : Linked (value env n) _ :=
    ((Linked.related env env rfl).everywhere n).value ⟨Set.univ, subset_rfl⟩
  obtain ⟨b', c, rfl, -, lays⟩ := linked b T d v s' h
  exact ⟨b', rfl, c, lays⟩

lemma lays_elements (env : Environment) (klass array : Binding) (ns : List Node) :
    (elements env klass array ns : Walk Unit).Lays := by
  induction ns with
  | nil => exact .pure ()
  | cons n ns ih =>
    rw [elements_cons]
    exact (lays_value env n.operand).bind fun v =>
      (WalkT.Lays.addValue klass array _ v).bind fun _ => ih

variable {σ : Type} {g : Graph} {M : Machine σ} {T : JumpTargets} {d : Nat} {klass : Binding}
  {A : Arrays M klass} {env : Environment} {b b' : Builder} {s s' : σ} {v : Binding}

/-! ## Gathering elements -/

/-- Elements are gathered in an array: each is evaluated, what it adds is added to the array, and
then the next one is evaluated. `ls` says what each of them adds. -/
inductive Gathers (g : Graph) (T : JumpTargets) (d : Nat) (A : Arrays M klass) (env : Environment)
    (array : Binding) : List Node → Builder → σ → List (List A.Value) → Builder → σ → Prop where
  | nil {b : Builder} {s : σ} : Gathers g T d A env array [] b s [] b s
  | cons {n : Node} {ns : List Node} {b b₁ b₂ b' : Builder} {s s₁ s₂ s' : σ} {v : Binding}
      {ls : List (List A.Value)}
      (evaluated : (value env n.operand : Walk Binding).Does g M T d b s v b₁ s₁)
      (added : (addValue klass array n.isSplat v : Walk Unit).Does g M T d b₁ s₁ () b₂ s₂)
      (rest : Gathers g T d A env array ns b₂ s₂ ls b' s') :
      Gathers g T d A env array (n :: ns) b s (A.added s₁ n.isSplat v :: ls) b' s'

variable {array : Binding} {ns : List Node} {ls : List (List A.Value)}

lemma Gathers.laid (h : Gathers g T d A env array ns b s ls b' s') : Laid T b b' := by
  induction h with
  | nil => exact .skip
  | cons evaluated added _ ih =>
    obtain ⟨_, ⟨⟩, laid₁⟩ := lays_value env _ evaluated.1
    obtain ⟨_, ⟨⟩, laid₂⟩ := WalkT.Lays.addValue klass array _ _ added.1
    exact (laid₁.trans laid₂).trans ih

/-! ## What elements leave alone -/

section

variable {l : List A.Value} {k : Nat} {b₁ b₂ : Builder} {s₁ : σ}
  (types_free : ∀ name v, env.types name = some v → v.kind ≠ .temporary)
  (class_free : klass.kind ≠ .temporary) (free : ∀ n ∈ ns, n.TemporaryFree)

section

include types_free

/-- A temporary that is the value of a node, or is named by the code of the node, was handed out for
it. -/
lemma gives_of_value {w : Binding} (free : n.TemporaryFree) (rooted : b.Rooted)
    (h : (value env n : Walk Binding).Yields ⟨b, T, d⟩ v ⟨b', T, d⟩) (hw : w.kind = .temporary) :
    (v = w → Gives w b b') ∧ ∀ i, Adds b b' i → w ∈ i.bindings → Gives w b b' := by
  rw [erase_value] at h
  obtain ⟨V, ends⟩ := WalkT.exists_ends_of_erase h
  have spent := (lowered_of_free free types_free hw).value rooted ends
  exact ⟨fun eq => by simpa using spent.kept eq,
    fun i adds named => by simpa using spent.named i adds named⟩

/-- An element leaves an older array alone, and its value is not the array. -/
lemma owns_of_value (free : n.TemporaryFree) (sited : b.Sited T) (hg : b'.Within g)
    (hk : k < b.nextTemp) (h : (value env n : Walk Binding).Does g M T d b s v b' s')
    (owned : A.Owns s (.temporary k) l) :
    A.Owns s' (.temporary k) l ∧ v ≠ .temporary k ∧ v.Before b'.nextTemp := by
  have rooted : b.Rooted := sited.tidy.rooted
  obtain ⟨yields, execution⟩ := h
  -- the temporaries that are handed out for the element are younger than the array
  have older : ¬ Gives (.temporary k) b b' := by
    rintro ⟨j, eq, le, -⟩
    exact absurd (temporary_injective eq) (by omega)
  obtain ⟨value, named⟩ := gives_of_value types_free free rooted yields (w := .temporary k) rfl
  refine ⟨?_, fun eq => older (value eq), fun j le eq => ?_⟩
  · exact execution.keeps hg (A.Owns · _ l)
      (fun i adds plain s owned => A.frame plain (fun mem => older (named i adds mem)) owned) owned
  · obtain ⟨i, eq, -, lt⟩ :=
      (gives_of_value types_free free rooted yields (w := .temporary j) rfl).1 eq
    exact absurd (temporary_injective eq) (by omega)

include class_free

/-- An older array that an element leaves alone grows by what the element adds. -/
lemma owns_of_added (free : n.TemporaryFree) (live : b.Live T) (hk : k < b.nextTemp)
    (owned : A.Owns s (.temporary k) l)
    (evaluated : (value env n.operand : Walk Binding).Does g M T d b s v b₁ s₁)
    (added : (addValue klass (.temporary k) n.isSplat v : Walk Unit).Yields ⟨b₁, T, d⟩ ()
      ⟨b₂, T, d⟩) (hg : b₂.Within g) :
    ∃ s₂, (∀ s', g.Executes M b₁ b₂ s₁ s' ↔ s' = s₂) ∧
      A.Owns s₂ (.temporary k) (l ++ A.added s₁ n.isSplat v) ∧ b₂.Live T ∧ k < b₂.nextTemp := by
  obtain ⟨_, ⟨⟩, laid₁⟩ := lays_value env _ evaluated.1
  obtain ⟨_, ⟨⟩, laid₂⟩ := WalkT.Lays.addValue klass _ _ _ added
  obtain ⟨owned, other, before⟩ := owns_of_value types_free free.operand live.1
    (hg.back laid₂.grows) hk evaluated owned
  have live := live.behind laid₁ evaluated.2
  have hk := hk.trans_le laid₁.nextTemp_le
  obtain ⟨s₂, only, owned, -⟩ := WalkT.Computes.addValue A n.isSplat
    (Binding.ne_temporary class_free) (.temporary hk) before other owned live () b₂ added hg
  exact ⟨s₂, only, owned, live.behind laid₂ ((only s₂).2 rfl), hk.trans_le laid₂.nextTemp_le⟩

include free

/-- The array holds what the elements have added, one behind the other. -/
lemma Gathers.owns (live : b.Live T) (hg : b'.Within g) (hk : k < b.nextTemp)
    (owned : A.Owns s (.temporary k) l)
    (h : Gathers g T d A env (.temporary k) ns b s ls b' s') :
    A.Owns s' (.temporary k) (l ++ ls.flatten) := by
  induction h generalizing l with
  | nil => simpa using owned
  | @cons n ns b b₁ b₂ b' s s₁ s₂ s' v ls evaluated added rest ih =>
    rw [List.forall_mem_cons] at free
    obtain ⟨_, only, owned, live, hk⟩ := owns_of_added types_free class_free free.1 live hk owned
      evaluated added.1 (hg.back rest.laid.grows)
    obtain rfl := (only s₂).1 added.2
    have owned := ih free.2 live hg hk owned
    rwa [List.append_assoc, ← List.flatten_cons] at owned

end

/-! ## Whole arrays -/

/-- An array is made, and elements are gathered in it. -/
def Assembles (g : Graph) (T : JumpTargets) (d : Nat) (A : Arrays M klass) (env : Environment)
    (array : Binding) (ns : List Node) (b : Builder) (s : σ) (ls : List (List A.Value))
    (b' : Builder) (s' : σ) : Prop :=
  ∃ b₀ s₀, (callValue klass "new" [] : Walk Binding).Does g M T d b s array b₀ s₀ ∧
    Gathers g T d A env array ns b₀ s₀ ls b' s'

section

variable {b₀ : Builder} (live : b.Live T)
  (made : (callValue klass "new" [] : Walk Binding).Yields ⟨b, T, d⟩ array ⟨b₀, T, d⟩)
  (filled : (elements env klass array ns : Walk Unit).Yields ⟨b₀, T, d⟩ () ⟨b', T, d⟩)

include live made

/-- A new array is owned by a temporary. -/
lemma owns_of_made (hg : b₀.Within g) (s : σ) :
    ∃ k s₀, array = .temporary k ∧ k < b₀.nextTemp ∧ A.Owns s₀ (.temporary k) [] ∧
      ∀ s', g.Executes M b b₀ s s' ↔ s' = s₀ := by
  have computes : (callValue klass "new" [] : Walk Binding).Computes g M T d b s _ :=
    .callValue klass "new" []
  obtain ⟨_, only, rfl, lt, rfl⟩ := computes live array b₀ made hg
  exact ⟨_, _, rfl, lt, (A.make s (.temporary b.nextTemp)).1, only⟩

include filled

include types_free class_free free

end

include types_free class_free free

lemma Assembles.items (live : b.Live T) (hg : b'.Within g)
    (h : Assembles g T d A env array ns b s ls b' s') : A.items s' array = some ls.flatten := by
  obtain ⟨b₀, s₀, ⟨made, first⟩, gathers⟩ := h
  obtain ⟨_, ⟨⟩, laid⟩ := WalkT.Lays.callValue klass "new" [] made
  obtain ⟨k, _, rfl, lt, owned, only⟩ :=
    owns_of_made (A := A) live made (hg.back gathers.laid.grows) s
  obtain rfl := (only s₀).1 first
  exact A.items_of_owns
    (gathers.owns types_free class_free free (live.behind laid first) hg lt owned)

end

end Lowering

end ControlFlow
