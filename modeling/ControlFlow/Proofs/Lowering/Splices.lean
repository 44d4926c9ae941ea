import ControlFlow.Proofs.Lowering.Accepts
import ControlFlow.Proofs.Lowering.Computes
import ControlFlow.Proofs.Meaning.Arrays
import ControlFlow.Proofs.Meaning.Simulation
/-!
# Code that fills arrays

A value is added to an array, or its items are: those that it has as an array, or those that it is
converted to. The array is owned all along, and the values of older bindings are as they were. So
the parameters of a method are passed on as they stand, with the items of the rest parameter between
them.
-/

namespace ControlFlow

open Builder Construction Meaning

/-! ## Bindings that are older than temporaries -/

/-- The binding is none of the temporaries from the `k`-th on. -/
def Binding.Before (k : Nat) (v : Binding) : Prop := ∀ j, k ≤ j → v ≠ .temporary j

lemma Binding.ne_temporary {k : Nat} {v : Binding} (h : v.kind ≠ .temporary) :
    v ≠ .temporary k := by
  rintro rfl
  exact h rfl

namespace Binding.Before

variable {j k : Nat} {v : Binding}

lemma mono (h : v.Before j) (le : j ≤ k) : v.Before k := fun i hi => h i (le.trans hi)

lemma of_kind (h : v.kind ≠ .temporary) : v.Before k := fun _ _ => ne_temporary h

lemma temporary (h : j < k) : (Binding.temporary j).Before k := fun i hi eq =>
  absurd (temporary_injective eq) (by omega)

end Binding.Before

/-! ## What is left alone -/

/-- Bindings that are older than the `k`-th temporary hold the same values in two states, and own
the same arrays if they are not in `B`. -/
structure Meaning.Arrays.Spares {σ : Type} {M : Machine σ} {klass : Binding} (A : Arrays M klass)
    (k : Nat) (B : List Binding) (s s' : σ) : Prop where
  value (w : Binding) (h : w.Before k) : A.value s' w = A.value s w
  owns (x : Binding) (l : List A.Value) (h : x.Before k) (other : x ∉ B) (owned : A.Owns s x l) :
    A.Owns s' x l

namespace Meaning.Arrays.Spares

variable {σ : Type} {M : Machine σ} {klass : Binding} {A : Arrays M klass} {j k : Nat}
  {B : List Binding} {s s₁ s' : σ}

lemma trans (h : A.Spares k B s s₁) (h' : A.Spares k B s₁ s') : A.Spares k B s s' where
  value w hw := (h'.value w hw).trans (h.value w hw)
  owns x l hx other owned := h'.owns x l hx other (h.owns x l hx other owned)

/-- An instruction that changes a younger temporary, and names only bindings in `B` besides. -/
lemma step {i : Instruction} {t : Binding} (plain : i.isTerminator = false)
    (young : ∃ j, k ≤ j ∧ t = .temporary j)
    (value : ∀ w ≠ t, A.value (M.act i s) w = A.value s w)
    (names : ∀ w ∈ i.bindings, w ∈ B ∨ ∃ j, k ≤ j ∧ w = .temporary j) :
    A.Spares k B s (M.act i s) where
  value w hw := by
    obtain ⟨j, le, rfl⟩ := young
    exact value w (hw j le)
  owns x l hx other owned := by
    refine A.frame plain (fun mem => ?_) owned
    rcases names x mem with mem | ⟨j, le, rfl⟩
    · exact other mem
    · exact hx j le rfl

lemma copy {t v : Binding} (h : A.Spares k B s s₁) (young : ∃ j, k ≤ j ∧ t = .temporary j)
    (names : v ∈ B ∨ ∃ j, k ≤ j ∧ v = .temporary j) :
    A.Spares k B s (M.act (.assign t (.binding v)) s₁) := by
  have same := (A.copy s₁ t v).2
  refine h.trans (step rfl young (fun w other => (same w other).value) ?_)
  rw [Instruction.bindings_copy]
  rintro w (_ | ⟨_, _ | ⟨_, ⟨⟩⟩⟩)
  · exact Or.inr young
  · exact names

end Meaning.Arrays.Spares

/-! ## Walks that fill arrays -/

namespace Construction

variable {m : Type → Type} [Monad m] [Construction m]

/-- Adds a value to an array, or its items if it is spliced. -/
def addValue (klass array : Binding) (splat : Bool) (v : Binding) : m Unit :=
  if splat then spliceValue klass array v else pushValue array v

/-- Adds parameters to an array, with the items of one between the others. -/
def spreadParameters (klass array : Binding) (ps : List Parameter) (p : Parameter)
    (qs : List Parameter) : m Unit := do
  pushParameters array ps
  let starred ← readVariable p.binding
  addValue klass array true starred
  pushParameters array qs

end Construction

namespace WalkT

variable {σ : Type} {g : Graph} {M : Machine σ} {T : JumpTargets} {d : Nat} {b : Builder} {s : σ}
  {klass array v : Binding} {env : Environment} {fill : Binding → Binding → Walk Unit}

namespace Lays

lemma copy (dest src : Binding) : (Construction.copy dest src : Walk Unit).Lays := emit rfl

lemma call (dest : Option Binding) (receiver : Binding) (method : String) (args : List Binding) :
    (Construction.call dest receiver method args : Walk Unit).Lays :=
  emit rfl

lemma callValue (receiver : Binding) (method : String) (args : List Binding) :
    (Construction.callValue receiver method args : Walk Binding).Lays :=
  allocTemp.bind fun t => (call (some t) receiver method args).bind fun _ => pure t

lemma readVariable (v : Binding) : (Construction.readVariable v : Walk Binding).Lays :=
  allocTemp.bind fun t => (copy t v).bind fun _ => pure t

lemma convert (klass v : Binding) (method : String) :
    (Construction.convert klass v method : Walk Binding).Lays :=
  allocTemp.bind fun result =>
    (twoWays false (callValue klass "===" [v]) ((callValue v method []).bind fun _ => copy result _)
      (copy result v)).bind fun _ => pure result

lemma addValue (klass array : Binding) (splat : Bool) (v : Binding) :
    (Construction.addValue klass array splat v : Walk Unit).Lays := by
  cases splat with
  | false => exact call none array "<<" [v]
  | true => exact (convert klass v "to_a").bind fun items => call none array "concat" [items]

lemma aggregate (info : Info) (hf : ∀ klass array, (fill klass array).Lays) :
    (Construction.aggregate env info fill).Lays := by
  have known : (wellKnown env info "Array" : Walk Binding).Lays := by
    unfold wellKnown
    cases env.types "Array" with
    | none => exact failAt info _
    | some klass => exact pure klass
  exact known.bind fun klass => (callValue klass "new" []).bind fun array =>
    (hf klass array).bind fun _ => pure array

lemma readParameters (ps : List Parameter) :
    (Construction.readParameters ps : Walk (List Binding)).Lays := by
  induction ps with
  | nil => exact pure []
  | cons p ps ih => exact (readVariable p.binding).bind fun _ => ih.bind fun _ => pure _

lemma pushParameters (array : Binding) (ps : List Parameter) :
    (Construction.pushParameters array ps : Walk Unit).Lays := by
  induction ps with
  | nil => exact pure ()
  | cons p ps ih =>
    exact (readVariable p.binding).bind fun v =>
      (call none array "<<" [v]).bind fun _ => ih

lemma spreadParameters (klass array : Binding) (ps : List Parameter) (p : Parameter)
    (qs : List Parameter) : (Construction.spreadParameters klass array ps p qs : Walk Unit).Lays :=
  (pushParameters array ps).bind fun _ => (readVariable p.binding).bind fun v =>
    (addValue klass array true v).bind fun _ => pushParameters array qs

end Lays

namespace Computes

lemma callValue (receiver : Binding) (method : String) (args : List Binding) :
    (Construction.callValue receiver method args : Walk Binding).Computes g M T d b s fun t b' s' =>
      t = .temporary b.nextTemp ∧ b.nextTemp < b'.nextTemp ∧
        s' = M.act (.send (some t) (.method receiver method) (.positional args) .absent) s := by
  refine allocTemp_bind (fun t => (Lays.call (some t) receiver method args).bind fun _ => .pure t)
    (emit_bind rfl (fun _ => .pure _) (pure ⟨rfl, ?_, rfl⟩))
  simp

lemma readVariable (v : Binding) :
    (Construction.readVariable v : Walk Binding).Computes g M T d b s fun t b' s' =>
      t = .temporary b.nextTemp ∧ b.nextTemp < b'.nextTemp ∧
        s' = M.act (.assign t (.binding v)) s := by
  refine allocTemp_bind (fun t => (Lays.copy t v).bind fun _ => .pure t)
    (emit_bind rfl (fun _ => .pure _) (pure ⟨rfl, ?_, rfl⟩))
  simp

variable (A : Arrays M klass)

/-- A value that is spliced comes out as an array, with its own items or with those that it is
converted to. -/
lemma convert (hv : v.Before b.nextTemp) :
    (Construction.convert klass v "to_a" : Walk Binding).Computes g M T d b s fun r b' s' =>
      r = .temporary b.nextTemp ∧ b.nextTemp < b'.nextTemp ∧
        A.items s' r = some (A.spliced s v) ∧ A.Spares b.nextTemp [klass, v] s s' := by
  generalize hr : Binding.temporary b.nextTemp = r
  have copied : (Construction.callValue v "to_a" [] >>= Construction.copy r : Walk Unit).Lays :=
    (Lays.callValue v "to_a" []).bind fun _ => .copy r _
  have ways : (WalkT.twoWays (Construction.callValue klass "===" [v]) false
      (Construction.callValue v "to_a" [] >>= Construction.copy r)
      (Construction.copy r v)).Computes g M T d b.allocTemp.2 s fun _ _ s' =>
        A.items s' r = some (A.spliced s v) ∧ A.Spares b.nextTemp [klass, v] s s' := by
    refine twoWays (.callValue klass "===" [v]) copied (.copy r v) (callValue klass "===" [v]) ?_
    rintro c b₁ s₁ le₁ ⟨hc, -, hs⟩
    change c = .temporary (b.nextTemp + 1) at hc
    change s₁ = M.act (.testArray c klass v) s at hs
    have older : ∃ j, b.nextTemp ≤ j ∧ r = .temporary j := ⟨_, le_rfl, hr.symm⟩
    have young : ∃ j, b.nextTemp ≤ j ∧ c = .temporary j := ⟨_, Nat.le_succ _, hc⟩
    obtain ⟨takes, same⟩ := A.test s c v
    have tested : A.Spares b.nextTemp [klass, v] s (M.act (.testArray c klass v) s) :=
      .step rfl young (fun w other => (same w other).value) (by simp [young])
    obtain ⟨-, items', converted⟩ := same v (hc ▸ hv _ (Nat.le_succ _))
    rw [← hs] at takes tested items' converted
    refine ⟨(A.items s v).isSome, takes, fun b₂ le => ?_⟩
    -- an array is copied as it is, and any other value is converted before
    cases items : A.items s v with
    | none =>
      refine (callValue v "to_a" []).bind (.callValue v "to_a" []) (fun _ => .copy r _) ?_
      rintro t b₃ s₂ - ⟨ht, -, hs₂⟩
      change s₂ = M.act (.toArray t v) s₁ at hs₂
      have young : ∃ j, b.nextTemp ≤ j ∧ t = .temporary j :=
        ⟨_, (Nat.le_succ _).trans (le₁.trans le), ht⟩
      obtain ⟨new, same⟩ := A.convert s₁ t v
      have spares : A.Spares b.nextTemp [klass, v] s s₂ := by
        rw [hs₂]
        exact tested.trans (.step rfl young same (by simp [young]))
      refine emit rfl ⟨?_, spares.copy older (Or.inr young)⟩
      rw [View.spliced, items, Option.getD_none, (A.copy s₂ r t).1.items, hs₂, new, converted]
    | some l =>
      refine emit rfl ⟨?_, tested.copy older (by simp)⟩
      rw [View.spliced, items, Option.getD_some, (A.copy s₁ r v).1.items, items', items]
  refine allocTemp_bind (fun r => (Lays.twoWays false (.callValue klass "===" [v])
    ((Lays.callValue v "to_a" []).bind fun _ => .copy r _) (.copy r v)).bind fun _ => .pure r) ?_
  rw [hr]
  refine ways.bind (.twoWays false (.callValue klass "===" [v]) copied (.copy r v))
    (fun _ => .pure r) ?_
  rintro - b₁ s₁ le ⟨items, spares⟩
  exact pure ⟨rfl, le, items, spares⟩

variable {l : List A.Value}

/-- An array that is owned grows by what is added to it. -/
lemma addValue (splat : Bool) (hk : klass ≠ array) (ha : array.Before b.nextTemp)
    (hv : v.Before b.nextTemp) (other : v ≠ array) (owned : A.Owns s array l) :
    (Construction.addValue klass array splat v : Walk Unit).Computes g M T d b s fun _ _ s' =>
      A.Owns s' array (l ++ A.added s splat v) ∧
        ∀ w, w.Before b.nextTemp → w ≠ array → A.value s' w = A.value s w := by
  cases splat with
  | false =>
    obtain ⟨pushed, same⟩ := A.push other owned
    exact emit rfl ⟨pushed, fun w _ hw => (same w hw).value⟩
  | true =>
    refine (convert A hv).bind (.convert klass v "to_a")
      (fun items => .call none array "concat" [items]) ?_
    rintro _ b₁ s₁ - ⟨rfl, -, items, spares⟩
    have owned := spares.owns array l ha (by simp [hk.symm, other.symm]) owned
    obtain ⟨appended, same⟩ := A.append (ha _ le_rfl).symm owned items
    exact emit rfl ⟨appended, fun w hw other => (same w other).value.trans (spares.value w hw)⟩

/-- A new array is owned, and filled. -/
lemma aggregate (info : Info) {R : Binding → σ → Prop} (registered : env.types "Array" = some klass)
    (lays : ∀ klass array, (fill klass array).Lays)
    (fills : ∀ b₁ s₁, b.nextTemp < b₁.nextTemp → A.Owns s₁ (.temporary b.nextTemp) [] →
      A.Keeps (.temporary b.nextTemp) s s₁ →
      (fill klass (.temporary b.nextTemp)).Computes g M T d b₁ s₁ fun _ _ s' =>
        R (.temporary b.nextTemp) s') :
    (Construction.aggregate env info fill).Computes g M T d b s fun array _ s' => R array s' := by
  have known : (wellKnown env info "Array" : Walk Binding) = Pure.pure klass := by
    rw [wellKnown, registered]
  rw [Construction.aggregate, known, pure_bind]
  refine (callValue klass "new" []).bind (.callValue klass "new" [])
    (fun array => (lays klass array).bind fun _ => .pure array) ?_
  rintro _ b₁ _ - ⟨rfl, lt, rfl⟩
  obtain ⟨owned, others⟩ := A.make s (.temporary b.nextTemp)
  exact (fills b₁ _ lt owned others).bind (lays klass _) (fun _ => .pure _) fun _ _ _ _ h => pure h

/-! ## Parameters -/

variable {ps : List Parameter}

/-- The values of parameters are added to an array, in their order. -/
lemma pushParameters {k : Nat} (hk : k < b.nextTemp) (free : ∀ p ∈ ps, p.binding.kind ≠ .temporary)
    (owned : A.Owns s (.temporary k) l) :
    (Construction.pushParameters (.temporary k) ps : Walk Unit).Computes g M T d b s fun _ _ s' =>
      A.Owns s' (.temporary k) (l ++ ps.map (A.value s ·.binding)) ∧
        ∀ w, w.kind ≠ .temporary → A.Same s w s' w := by
  induction ps generalizing b s l with
  | nil => exact pure ⟨by simpa using owned, fun _ _ => .refl⟩
  | cons p ps ih =>
    rw [List.forall_mem_cons] at free
    refine (readVariable p.binding).bind (.readVariable p.binding)
      (fun v => (Lays.call none (.temporary k) "<<" [v]).bind fun _ => .pushParameters _ ps) ?_
    rintro _ b₁ s₁ le ⟨rfl, -, rfl⟩
    have young := Binding.Before.temporary hk _ le_rfl
    obtain ⟨read, others⟩ := A.copy s (.temporary b.nextTemp) p.binding
    obtain ⟨pushed, others'⟩ :=
      A.push young.symm (A.frame_copy young (Binding.ne_temporary free.1).symm owned)
    have kept (w : Binding) (hw : w.kind ≠ .temporary) :=
      (others w (Binding.ne_temporary hw)).trans (others' w (Binding.ne_temporary hw))
    refine emit_bind rfl (fun _ => .pushParameters _ ps)
      ((ih (b := b₁.emit _) (by simpa using hk.trans_le le) free.2 pushed).mono ?_)
    rintro - - s' ⟨all, same⟩
    refine ⟨?_, fun w hw => (kept w hw).trans (same w hw)⟩
    rw [List.append_assoc, read.value,
      List.map_congr_left fun q hq => (kept _ (free.2 q hq)).value] at all
    exact all

/-- Parameters are read in their order. -/
lemma readParameters (free : ∀ p ∈ ps, p.binding.kind ≠ .temporary) :
    (Construction.readParameters ps : Walk (List Binding)).Computes g M T d b s fun vs _ s' =>
      vs.map (A.value s') = ps.map (A.value s ·.binding) ∧
        ∀ w, w.Before b.nextTemp → A.value s' w = A.value s w := by
  induction ps generalizing b s with
  | nil => exact pure ⟨rfl, fun _ _ => rfl⟩
  | cons p ps ih =>
    rw [List.forall_mem_cons] at free
    refine (readVariable p.binding).bind (.readVariable p.binding)
      (fun v => (Lays.readParameters ps).bind fun vs => .pure (v :: vs)) ?_
    rintro _ b₁ s₁ le ⟨rfl, lt, rfl⟩
    obtain ⟨read, others⟩ := A.copy s (.temporary b.nextTemp) p.binding
    refine (ih free.2).bind (.readParameters ps) (fun vs => .pure (_ :: vs)) ?_
    rintro vs b₂ s₂ - ⟨values, kept⟩
    refine pure ⟨?_, fun w hw => (kept w (hw.mono le)).trans (others w (hw _ le_rfl)).value⟩
    rw [List.map_cons, List.map_cons, values, kept _ (.temporary lt), read.value,
      List.map_congr_left fun q hq => (others _ (Binding.ne_temporary (free.2 q hq))).value]

/-- Parameters are added to an array, with the items of one between the others. -/
lemma spreadParameters {k : Nat} {p : Parameter} {qs : List Parameter} (hk : k < b.nextTemp)
    (class_free : klass.kind ≠ .temporary) (free : ∀ q ∈ ps ++ p :: qs, q.binding.kind ≠ .temporary)
    (owned : A.Owns s (.temporary k) l) :
    (Construction.spreadParameters klass (.temporary k) ps p qs : Walk Unit).Computes g M T d b s
      fun _ _ s' => A.Owns s' (.temporary k) (l ++ (ps.map (A.value s ·.binding) ++
        (A.spliced s p.binding ++ qs.map (A.value s ·.binding)))) := by
  simp only [List.mem_append, List.mem_cons, or_imp, forall_and, forall_eq] at free
  obtain ⟨before, rest, behind⟩ := free
  refine (pushParameters A hk before owned).bind (.pushParameters _ ps)
    (fun _ => (Lays.readVariable p.binding).bind fun v =>
      (Lays.addValue klass _ true v).bind fun _ => .pushParameters _ qs) ?_
  rintro - b₁ s₁ le₁ ⟨owned, same⟩
  refine (readVariable p.binding).bind (.readVariable p.binding)
    (fun v => (Lays.addValue klass _ true v).bind fun _ => .pushParameters _ qs) ?_
  rintro _ b₂ s₂ - ⟨rfl, lt₂, rfl⟩
  have older : (Binding.temporary k).Before b₁.nextTemp := .temporary (hk.trans_le le₁)
  have young := older _ le_rfl
  obtain ⟨read, others⟩ := A.copy s₁ (.temporary b₁.nextTemp) p.binding
  refine (addValue A true (Binding.ne_temporary class_free) (older.mono lt₂.le) (.temporary lt₂)
    young.symm (A.frame_copy young (Binding.ne_temporary rest).symm owned)).bind
    (.addValue klass _ true _) (fun _ => .pushParameters _ qs) ?_
  rintro - b₃ s₃ le₃ ⟨owned, kept⟩
  refine (pushParameters A (hk.trans_le (le₁.trans (lt₂.le.trans le₃))) behind owned).mono ?_
  rintro - - s' ⟨owned, -⟩
  -- nothing so far has changed what the parameters hold
  have values (q : Parameter) (hq : q ∈ qs) : A.value s₃ q.binding = A.value s q.binding :=
    have free := behind q hq
    (kept _ (.of_kind free) (Binding.ne_temporary free)).trans
      ((same _ free).trans (others _ (Binding.ne_temporary free))).value
  have spliced := ((same _ rest).trans read).spliced
  rw [View.added, if_pos rfl, spliced, List.map_congr_left values] at owned
  simpa using owned

/-- The parameters of a method are passed on: in one array if one of them is a rest parameter, and
one by one otherwise. -/
lemma passParameters (info : Info) (method : Signature)
    (registered : (∃ p ∈ method.params, p.kind = .rest) → env.types "Array" = some klass)
    (types_free : ∀ name v, env.types name = some v → v.kind ≠ .temporary)
    (free : ∀ p ∈ method.params, p.binding.kind ≠ .temporary) :
    (Construction.passParameters env info method : Walk Arguments).Computes g M T d b s
      fun args _ s' =>
        if ∃ p ∈ method.params, p.kind = .rest then
          ∃ array, args = .vararg array ∧ A.items s' array = some (A.spread s method.positional)
        else ∃ vs, args = .positional vs ∧
          vs.map (A.value s') = method.positional.map (A.value s ·.binding) := by
  have free (p : Parameter) (hp : p ∈ method.positional) : p.binding.kind ≠ .temporary :=
    free p (List.mem_of_mem_filter hp)
  unfold Construction.passParameters
  simp only [← method.isSome_restIndex?] at registered ⊢
  cases index : method.restIndex? with
  | none =>
    refine (readParameters A free).bind (.readParameters _) (fun _ => .pure _) ?_
    rintro vs b₁ s₁ - ⟨values, -⟩
    exact pure (by simpa using values)
  | some i =>
    have registered := registered (by simp [index])
    obtain ⟨p, qs, drop, spread⟩ := A.spread_of_findIdx? index
    have parts : method.positional.take i ++ p :: qs = method.positional := by
      rw [← drop, List.take_append_drop]
    have lays (klass array : Binding) :=
      Lays.spreadParameters klass array (method.positional.take i) p qs
    have filled : (Construction.aggregate env info fun klass array =>
        Construction.spreadParameters klass array (method.positional.take i) p qs :
        Walk Binding).Computes g M T d b s fun array _ s' =>
          A.items s' array = some (A.spread s method.positional) := by
      refine aggregate A info registered lays fun b₁ s₁ lt owned others => ?_
      refine (spreadParameters A lt (types_free _ _ registered) (by rwa [parts]) owned).mono
        fun _ _ s' owned => ?_
      rw [A.items_of_owns owned, List.nil_append, ← spread s₁,
        View.spread_congr fun q hq => others _ (Binding.ne_temporary (free q hq))]
    simp only [drop]
    refine filled.bind (.aggregate info lays) (fun _ => .pure _) fun array _ _ _ h => ?_
    exact pure ⟨array, rfl, h⟩

end Computes

end WalkT

end ControlFlow
