import Mathlib.Logic.Function.Basic
import ControlFlow.Proofs.Graph.Machine
import ControlFlow.Proofs.Lowering.Spends
/-!
# Machines with arrays

Arrays are built by calls: `new` makes one, `<<` adds a value to it, `concat` adds the items of
another one, `===` tests for arrays and `to_a` converts other values. `Arrays` says what these calls
do on a machine, and leaves open what anything else does. An array that only one binding leads to is
*owned* by the binding: nothing that does not name the binding changes it.

`byValue` is a machine on which arrays are values, as an example.
-/

namespace ControlFlow

/-! ## Calls that build arrays -/

namespace Instruction

/-- Makes an array. -/
def makeArray (dest klass : Binding) : Instruction :=
  .send (some dest) (.method klass "new") (.positional []) .absent

/-- Adds a value to an array. -/
def push (array v : Binding) : Instruction :=
  .send none (.method array "<<") (.positional [v]) .absent

/-- Adds the items of an array to another one. -/
def append (array items : Binding) : Instruction :=
  .send none (.method array "concat") (.positional [items]) .absent

/-- Tests whether a value is an array. -/
def testArray (dest klass v : Binding) : Instruction :=
  .send (some dest) (.method klass "===") (.positional [v]) .absent

/-- Converts a value to an array. -/
def toArray (dest v : Binding) : Instruction :=
  .send (some dest) (.method v "to_a") (.positional []) .absent

section

variable (x v klass : Binding)

@[simp] lemma bindings_copy : (assign x (.binding v)).bindings = [x, v] := rfl

@[simp] lemma bindings_push : (push x v).bindings = [x, v] := rfl

@[simp] lemma bindings_append : (append x v).bindings = [x, v] := rfl

@[simp] lemma bindings_testArray : (testArray x klass v).bindings = [x, klass, v] := rfl

@[simp] lemma bindings_toArray : (toArray x v).bindings = [x, v] := rfl

end

end Instruction

namespace Meaning

variable {σ : Type}

/-! ## What is seen of arrays -/

/-- What can be seen of what bindings hold. -/
structure View (σ : Type) where
  Value : Type
  value : σ → Binding → Value
  /-- The items of the array that a binding holds, if it holds one. -/
  items : σ → Binding → Option (List Value)
  /-- The items that the value of a binding is converted to. -/
  converted : σ → Binding → List Value

namespace View

variable (V : View σ)

/-- What `v'` holds in the state `s'` looks like what `v` holds in `s`. -/
structure Same (s : σ) (v : Binding) (s' : σ) (v' : Binding) : Prop where
  value : V.value s' v' = V.value s v
  items : V.items s' v' = V.items s v
  converted : V.converted s' v' = V.converted s v

/-- All bindings but `x` hold the same in two states. -/
def Keeps (x : Binding) (s s' : σ) : Prop := ∀ w ≠ x, V.Same s w s' w

/-- The items that are spliced for a binding: those of the array that it holds, or those that its
value is converted to. -/
def spliced (s : σ) (v : Binding) : List V.Value := (V.items s v).getD (V.converted s v)

/-- What an element adds to a list: its items if it is spliced, and its value otherwise. -/
def added (s : σ) (splat : Bool) (v : Binding) : List V.Value :=
  if splat then V.spliced s v else [V.value s v]

/-- The values of parameters, with the items of the first rest parameter in its place. -/
def spread (s : σ) : List Parameter → List V.Value
  | [] => []
  | p :: ps =>
    if p.kind = .rest then V.spliced s p.binding ++ ps.map (V.value s ·.binding)
    else V.value s p.binding :: spread s ps

variable {V} {s s₁ s' : σ} {v v₁ v' : Binding}

lemma Same.refl : V.Same s v s v := ⟨rfl, rfl, rfl⟩

lemma Same.trans (h : V.Same s v s₁ v₁) (h' : V.Same s₁ v₁ s' v') : V.Same s v s' v' :=
  ⟨h'.value.trans h.value, h'.items.trans h.items, h'.converted.trans h.converted⟩

lemma Same.spliced (h : V.Same s v s' v') : V.spliced s' v' = V.spliced s v := by
  rw [View.spliced, View.spliced, h.items, h.converted]

lemma spread_congr {ps : List Parameter} (h : ∀ p ∈ ps, V.Same s p.binding s' p.binding) :
    V.spread s' ps = V.spread s ps := by
  induction ps with
  | nil => rfl
  | cons p ps ih =>
    rw [List.forall_mem_cons] at h
    rw [spread, spread, ih h.2, h.1.value, h.1.spliced,
      List.map_congr_left fun q hq => (h.2 q hq).value]

/-- The first rest parameter stands between those that come before it and the others. -/
lemma spread_of_findIdx? (V : View σ) {ps : List Parameter} {i : Nat}
    (h : ps.findIdx? (·.kind = .rest) = some i) : ∃ p qs, ps.drop i = p :: qs ∧ ∀ s,
      V.spread s ps = (ps.take i).map (V.value s ·.binding) ++
        (V.spliced s p.binding ++ qs.map (V.value s ·.binding)) := by
  induction ps generalizing i with
  | nil => simp at h
  | cons p ps ih =>
    rw [List.findIdx?_cons] at h
    by_cases rest : p.kind = .rest
    · obtain rfl : 0 = i := by simpa [rest] using h
      exact ⟨p, ps, rfl, by simp [spread, rest]⟩
    · obtain ⟨j, found, rfl⟩ : ∃ j, ps.findIdx? (·.kind = .rest) = some j ∧ j + 1 = i := by
        simpa [rest] using h
      obtain ⟨q, qs, drop, eq⟩ := ih found
      exact ⟨q, qs, drop, by simp [spread, rest, eq]⟩

end View

/-- What a machine does with arrays, whose class is `klass`. -/
structure Arrays (M : Machine σ) (klass : Binding) extends View σ where
  /-- The binding holds an array with these items that nothing else leads to. -/
  Owns : σ → Binding → List Value → Prop
  items_of_owns {s : σ} {x : Binding} {l : List Value} (h : Owns s x l) : items s x = some l
  /-- An array that is owned by a binding is left alone by what does not name the binding. -/
  frame {i : Instruction} {s : σ} {x : Binding} {l : List Value} (plain : i.isTerminator = false)
    (other : x ∉ i.bindings) (h : Owns s x l) : Owns (M.act i s) x l
  copy (s : σ) (x v : Binding) : toView.Same s v (M.act (.assign x (.binding v)) s) x ∧
    toView.Keeps x s (M.act (.assign x (.binding v)) s)
  make (s : σ) (x : Binding) : Owns (M.act (.makeArray x klass) s) x [] ∧
    toView.Keeps x s (M.act (.makeArray x klass) s)
  push {s : σ} {x v : Binding} {l : List Value} (other : v ≠ x) (h : Owns s x l) :
    Owns (M.act (.push x v) s) x (l ++ [value s v]) ∧ toView.Keeps x s (M.act (.push x v) s)
  append {s : σ} {x v : Binding} {l l' : List Value} (other : v ≠ x) (h : Owns s x l)
    (hv : items s v = some l') :
    Owns (M.act (.append x v) s) x (l ++ l') ∧ toView.Keeps x s (M.act (.append x v) s)
  test (s : σ) (x v : Binding) :
    (∀ way, M.takes (some x) (M.act (.testArray x klass v) s) way ↔ way = (items s v).isSome) ∧
    toView.Keeps x s (M.act (.testArray x klass v) s)
  convert (s : σ) (x v : Binding) :
    items (M.act (.toArray x v) s) x = some (converted s v) ∧
    ∀ w ≠ x, value (M.act (.toArray x v) s) w = value s w

variable {x : Binding}

lemma Arrays.frame_copy {M : Machine σ} {klass : Binding} (A : Arrays M klass) {s : σ}
    {t v : Binding} {l : List A.Value} (ht : x ≠ t) (hv : x ≠ v) (h : A.Owns s x l) :
    A.Owns (M.act (.assign t (.binding v)) s) x l :=
  A.frame rfl (by simp [ht, hv]) h

/-! ## Arrays as values -/

/-- A constant or an array. -/
inductive Datum where
  | constant (c : Constant)
  | array (items : List Datum)

namespace Datum

/-- The items of an array. -/
def items? : Datum → Option (List Datum)
  | array l => some l
  | constant _ => none

/-- Whether a branch takes its first way: so it does but for `nil` and `false`. -/
def truthy : Datum → Bool
  | constant .nil | constant (.bool false) => false
  | _ => true

/-- An array with more items. -/
def extend : Datum → List Datum → Datum
  | array l, l' => array (l ++ l')
  | constant c, _ => constant c

end Datum

/-- The binding that an instruction may change: its destination, or its receiver if it has none. -/
def changed : Instruction → Option Binding
  | .send none (.method x _) _ _ => some x
  | i => i.dest?

/-- What the binding that an instruction may change holds behind it. Anything but a copy, a constant
or a call that builds arrays gives `nil`. -/
def outcome (s : Binding → Datum) : Instruction → Datum
  | .assign _ (.binding v) => s v
  | .assign _ (.constant c) => .constant c
  | .send none (.method x "<<") (.positional [v]) _ => (s x).extend [s v]
  | .send none (.method x "concat") (.positional [v]) _ => (s x).extend ((s v).items?.getD [])
  | .send (some _) (.method _ "new") (.positional []) _ => .array []
  | .send (some _) (.method _ "===") (.positional [v]) _ => .constant (.bool (s v).items?.isSome)
  | .send (some _) (.method v "to_a") (.positional []) _ => .array [s v]
  | _ => .constant .nil

end Meaning

end ControlFlow
