import Mathlib.Data.Set.Basic
import ControlFlow.Proofs.Graph.Growth
/-!
# Instructions that demand others

A return demands a jump right behind it. The call that takes a block literal and the end of a run of
its body demand a branch without a condition: the body may run, once more or for the first time, or
what follows the call is next. Code is regular if every such demand is met and such branches stand
nowhere else; the order in which a builder gives out names decides which block follows a call.

How often instructions occur in a graph is counted by `Graph.count`.
-/

namespace ControlFlow

/-- The name that is given out just before. -/
def BlockName.previous : BlockName → BlockName
  | .numbered n => .numbered (n - 1)
  | name => name

namespace Instruction

/-- May stand anywhere. -/
def isFree : Instruction → Bool
  | .assign _ _ => true
  | .send _ _ _ .absent => true
  | .send _ _ _ (.value _) => true
  | .closure _ _ _ => true
  | .jump _ => true
  | .branch (some _) _ _ => true
  | _ => false

/-- The second instruction is what the first one demands behind it. The bodies of block literals
start at the blocks in `bodies`. -/
inductive Demands (bodies : Set BlockName) : Instruction → Instruction → Prop where
  | ret (v : Binding) (target : BlockName) : Demands bodies (.ret v) (.jump target)
  | send (dest : Option Binding) (callee : Callee) (args : Arguments) {body : BlockName}
      (h : body ∈ bodies) :
      Demands bodies (.send dest callee args (.body body)) (.branch none body body.previous)
  | resume (v : Binding) {body : BlockName} (h : body ∈ bodies) :
      Demands bodies (.resume v) (.branch none body body.previous)

/-- Code that meets all demands, and in which nothing else stands that only demands call for. -/
inductive Regular (bodies : Set BlockName) : List Instruction → Prop where
  | nil : Regular bodies []
  | free {is : List Instruction} {i : Instruction} (h : Regular bodies is)
      (hi : i.isFree = true) : Regular bodies (is ++ [i])
  | demand {is : List Instruction} {i j : Instruction} (h : Regular bodies is)
      (hij : Demands bodies i j) : Regular bodies (is ++ [i, j])

variable {bodies bodies' : Set BlockName} {is : List Instruction} {i j : Instruction}

lemma Demands.mono (h : Demands bodies i j) (le : bodies ⊆ bodies') : Demands bodies' i j := by
  cases h with
  | ret v target => exact .ret v target
  | send dest callee args h => exact .send dest callee args (le h)
  | resume v h => exact .resume v (le h)

lemma Demands.plain (h : Demands bodies i j) : i.isTerminator = false := by
  cases h <;> rfl

lemma Demands.ends (h : Demands bodies i j) : j.isTerminator = true := by
  cases h <;> rfl

lemma Regular.mono (h : Regular bodies is) (le : bodies ⊆ bodies') : Regular bodies' is := by
  induction h with
  | nil => exact .nil
  | free _ hi ih => exact .free ih hi
  | demand _ hij ih => exact .demand ih (hij.mono le)

variable {p q : List Instruction}

/-- Every instruction of regular code is free, or has what it demands behind it, or stands right
behind an instruction that demands it. -/
lemma Regular.sides (h : Regular bodies is) (hs : is = p ++ i :: q) :
    i.isFree = true ∨ (∃ j q', q = j :: q' ∧ Demands bodies i j) ∨
      ∃ j p', p = p' ++ [j] ∧ Demands bodies j i := by
  induction h generalizing q with
  | nil => simp at hs
  | @free is k _ hk ih =>
    rcases List.eq_nil_or_concat' q with rfl | ⟨q, last, rfl⟩
    · obtain ⟨-, hi⟩ := List.append_inj' hs rfl
      rw [List.singleton_inj.1 hi] at hk
      exact Or.inl hk
    · rw [← List.cons_append, ← List.append_assoc] at hs
      obtain ⟨rfl, -⟩ := List.append_inj' hs rfl
      rcases ih rfl with hi | ⟨j, q', rfl, hij⟩ | before
      · exact Or.inl hi
      · exact Or.inr (Or.inl ⟨j, q' ++ [last], rfl, hij⟩)
      · exact Or.inr (Or.inr before)
  | @demand is k k' _ hk ih =>
    rcases List.eq_nil_or_concat' q with rfl | ⟨q, last, rfl⟩
    · -- the instruction is the second one of the pair
      rw [List.append_cons is k [k']] at hs
      obtain ⟨rfl, hi⟩ := List.append_inj' hs rfl
      rw [List.singleton_inj.1 hi] at hk
      exact Or.inr (Or.inr ⟨k, is, rfl, hk⟩)
    rw [List.append_cons is k [k'], ← List.cons_append, ← List.append_assoc] at hs
    obtain ⟨hs, hlast⟩ := List.append_inj' hs rfl
    rcases List.eq_nil_or_concat' q with rfl | ⟨q, last', rfl⟩
    · -- the instruction is the first one of the pair
      obtain ⟨-, hi⟩ := List.append_inj' hs rfl
      rw [List.singleton_inj.1 hi] at hk
      exact Or.inr (Or.inl ⟨k', [], by rw [List.nil_append, hlast], hk⟩)
    · rw [← List.cons_append, ← List.append_assoc] at hs
      obtain ⟨rfl, -⟩ := List.append_inj' hs rfl
      rcases ih rfl with hi | ⟨j, q', rfl, hij⟩ | before
      · exact Or.inl hi
      · exact Or.inr (Or.inl ⟨j, q' ++ [last'] ++ [last], rfl, hij⟩)
      · exact Or.inr (Or.inr before)

/-- An instruction that is neither free nor the end of a block has what it demands behind it. -/
lemma Regular.followed (h : Regular bodies is) (hs : is = p ++ i :: q) (bound : i.isFree = false)
    (plain : i.isTerminator = false) : ∃ j q', q = j :: q' ∧ Demands bodies i j := by
  rcases h.sides hs with free | following | ⟨j, p', -, hj⟩
  · rw [bound] at free
    cases free
  · exact following
  · have ends := hj.ends
    rw [plain] at ends
    cases ends

/-- A branch without a condition stands behind an instruction that demands it. -/
lemma Regular.preceded (h : Regular bodies is) {x y : BlockName}
    (hs : is = p ++ .branch none x y :: q) :
    ∃ j p', p = p' ++ [j] ∧ Demands bodies j (.branch none x y) := by
  rcases h.sides hs with free | ⟨j, q', -, hj⟩ | preceding
  · cases free
  · cases hj.plain
  · exact preceding

/-- The instruction makes the block literal whose body starts at the block. -/
def closes (body : BlockName) : Instruction → Bool
  | .closure _ _ name => name = body
  | _ => false

/-- The instruction is the call that takes the block literal whose body starts at the block. -/
def takes (body : BlockName) : Instruction → Bool
  | .send _ _ _ (.body name) => name = body
  | _ => false

lemma takes_iff {body : BlockName} :
    i.takes body = true ↔ ∃ dest callee args, i = .send dest callee args (.body body) := by
  cases i with
  | send dest callee args block => cases block <;> simp [takes]
  | _ => simp [takes]

end Instruction

/-! ## Counting -/

namespace Graph

variable (g : Graph) (p : Instruction → Bool)

/-- How many instructions of the graph have a property. -/
def count : Nat := (g.blocks.flatMap (·.instructions)).countP p

@[simp] lemma count_addBlock (name : BlockName) : (g.addBlock name).count p = g.count p := by
  unfold addBlock addVertex
  split <;> simp [count]

@[simp] lemma count_connect (name : BlockName) (targets : List BlockName) :
    (Builder.connect name targets g).count p = g.count p := by
  induction targets generalizing g with
  | nil => rfl
  | cons t ts ih => exact (ih ((g.addBlock t).addEdge name t)).trans (g.count_addBlock p t)

/-- One more instruction counts once, since no two blocks have the same name. -/
lemma count_push {name : BlockName} (nodup : g.names.Nodup) (mem : name ∈ g.names)
    (i : Instruction) : (g.push name i).count p = g.count p + if p i then 1 else 0 := by
  obtain ⟨blocks, edges⟩ := g
  simp only [names, count, push, List.flatMap_map] at nodup mem ⊢
  induction blocks with
  | nil => cases mem
  | cons b bs ih =>
    rw [List.map_cons, List.nodup_cons] at nodup
    simp only [List.flatMap_cons, List.countP_append]
    by_cases hb : b.name = name
    · have rest : bs.flatMap (fun b => (if b.name = name then b.push i else b).instructions) =
          bs.flatMap (·.instructions) := by
        refine List.flatMap_congr fun b' hb' => ?_
        have other : b'.name ≠ name := by
          rintro rfl
          exact nodup.1 (hb ▸ List.mem_map_of_mem hb')
        rw [if_neg other]
      rw [if_pos hb, rest, Block.push, List.countP_append, List.countP_singleton]
      omega
    · rw [if_neg hb, ih nodup.2 ((List.mem_cons.1 mem).resolve_left (Ne.symm hb))]
      omega

lemma count_pos : 0 < g.count p ↔ ∃ block ∈ g.blocks, ∃ i ∈ block.instructions, p i = true := by
  simp only [count, List.countP_pos_iff, List.mem_flatMap]
  constructor
  · rintro ⟨i, ⟨block, hb, hi⟩, hp⟩
    exact ⟨block, hb, i, hi, hp⟩
  · rintro ⟨block, hb, i, hi, hp⟩
    exact ⟨i, ⟨block, hb, hi⟩, hp⟩

end Graph

end ControlFlow
