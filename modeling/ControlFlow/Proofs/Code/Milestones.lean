import Mathlib.Logic.Function.Basic
import ControlFlow.Proofs.Code.Basic
import ControlFlow.Proofs.Graph.Demands
/-!
# Milestones

A path through a graph passes milestones: it makes a block literal, it makes the call that takes
one, or it records a value to return. A chart labels each block of a graph under construction with
milestones that lie behind every path to the block; what lies behind every path to the place where
the builder stands is known as well. A milestone once passed stays passed, so the labels of blocks
never have to shrink while the graph grows.
-/

namespace ControlFlow

/-- What a path may have behind it. -/
inductive Milestone where
  /-- The block literal has been made whose body starts at the block. -/
  | made (body : BlockName)
  /-- The call has been made that takes this block literal. -/
  | called (body : BlockName)
  /-- A value to return has been recorded. -/
  | returned

namespace Instruction

/-- The milestones that an instruction is. -/
def passes : Instruction → Set Milestone
  | .closure _ _ body => {.made body}
  | .send _ _ _ (.body body) => {.called body}
  | .ret _ => {.returned}
  | _ => ∅

/-- The milestones that have to be passed before an instruction. -/
def awaits : Instruction → Set Milestone
  | .send _ _ _ (.body body) => {.made body}
  | _ => ∅

/-- The milestones among some instructions. -/
def allPassed (is : List Instruction) : Set Milestone := {m | ∃ i ∈ is, m ∈ i.passes}

lemma allPassed_append (is js : List Instruction) :
    allPassed (is ++ js) = allPassed is ∪ allPassed js := by
  ext m
  simp only [allPassed, List.mem_append, Set.mem_ofPred_eq, Set.mem_union, or_and_right, exists_or]

lemma allPassed_singleton (i : Instruction) : allPassed [i] = i.passes := by
  ext m
  simp [allPassed]

lemma allPassed_mono {is js : List Instruction} (h : is <+: js) : allPassed is ⊆ allPassed js := by
  rintro m ⟨i, hi, hm⟩
  exact ⟨i, h.subset hi, hm⟩

variable {i : Instruction} {body : BlockName}

/-- Only block literals, their calls and returns are milestones. -/
lemma passes_eq_empty (free : i.isFree = true) (other : ∀ body, i.closes body = false) :
    i.passes = ∅ := by
  cases i with
  | send dest callee args block => cases block <;> simp_all [isFree, passes]
  | closure dest params body => simpa [closes] using other body
  | ret v => cases free
  | _ => rfl

lemma awaits_eq_empty (h : ∀ body, i.takes body = false) : i.awaits = ∅ := by
  cases i with
  | send dest callee args block => cases block <;> simp_all [takes, awaits]
  | _ => rfl

lemma takes_eq_false (free : i.isFree = true) (body : BlockName) : i.takes body = false := by
  cases i with
  | send dest callee args block => cases block <;> simp_all [isFree, takes]
  | _ => rfl

lemma closes_of_passes (h : .made body ∈ i.passes) : i.closes body = true := by
  cases i with
  | send dest callee args block => cases block <;> simp [passes] at h
  | _ => simp_all [passes, closes]

lemma takes_of_passes (h : .called body ∈ i.passes) : i.takes body = true := by
  cases i with
  | send dest callee args block => cases block <;> simp_all [passes, takes]
  | _ => simp [passes] at h

lemma eq_ret_of_passes (h : .returned ∈ i.passes) : ∃ v, i = .ret v := by
  cases i with
  | send dest callee args block => cases block <;> simp [passes] at h
  | ret v => exact ⟨v, rfl⟩
  | _ => simp [passes] at h

lemma awaits_of_takes (h : i.takes body = true) : .made body ∈ i.awaits := by
  obtain ⟨dest, callee, args, rfl⟩ := takes_iff.1 h
  rfl

end Instruction

/-- What a path that jumps out in some way has passed since it came to the code around. -/
def JumpKind.passes : JumpKind → Set Milestone
  | .return => {.returned}
  | _ => ∅

open Instruction (allPassed allPassed_append allPassed_singleton allPassed_mono)

namespace Builder

variable {b b' : Builder} {before before' : BlockName → Set Milestone} {now now' : Set Milestone}
  {n : BlockName} {i : Instruction}

/-- How many block literals in the graph have their body at the block. -/
abbrev literals (b : Builder) (body : BlockName) : Nat := b.graph.count (Instruction.closes body)

/-- How many calls in the graph take such a block literal. -/
abbrev calls (b : Builder) (body : BlockName) : Nat := b.graph.count (Instruction.takes body)

/-- The blocks where the bodies of the block literals in the graph start. -/
def bodies (b : Builder) : Set BlockName := {body | 0 < b.literals body}

/-- The labels `before` and `now` hold on every path to the blocks and to where the builder stands.
A call that takes a block literal stands behind the block literal, and the body behind the call. -/
structure Charted (b : Builder) (before : BlockName → Set Milestone) (now : Set Milestone) :
    Prop where
  nodup : b.graph.names.Nodup
  known : ∀ n ∈ b.graph.names, b.Knows n
  edges : ∀ e ∈ b.graph.edges, e.source ∈ b.graph.names ∧ e.target ∈ b.graph.names ∧
    before e.target ⊆ before e.source ∪ allPassed (b.graph.code e.source)
  ready : ∀ n p i q, b.graph.code n = p ++ i :: q → i.awaits ⊆ before n ∪ allPassed p
  bodies : ∀ body ∈ b.bodies, b.Knows body ∧ .called body ∈ before body
  current : ∀ n, b.At n → n ∈ b.graph.names ∧ now ⊆ before n ∪ allPassed (b.graph.code n)

/-- A place that the milestones in `now` lie behind may lead to the block. -/
structure Leads (b : Builder) (before : BlockName → Set Milestone) (now : Set Milestone)
    (n : BlockName) : Prop where
  knows : b.Knows n
  label : before n ⊆ now

/-- The block is labelled with just these milestones. -/
structure Meets (b : Builder) (before : BlockName → Set Milestone) (now : Set Milestone)
    (n : BlockName) : Prop where
  knows : b.Knows n
  label : before n = now

/-- All jumps may lead where they do. -/
def Jumps (b : Builder) (before : BlockName → Set Milestone) (now : Set Milestone)
    (T : JumpTargets) : Prop :=
  ∀ kind n, T.get? kind = some n → b.Leads before (now ∪ kind.passes) n

/-- Names that have been given out stay known, with their labels. -/
structure Later (b : Builder) (before : BlockName → Set Milestone) (b' : Builder)
    (before' : BlockName → Set Milestone) : Prop where
  next : b.nextBlock ≤ b'.nextBlock
  same : ∀ n, b.Knows n → before' n = before n

lemma Later.refl : b.Later before b before := ⟨le_rfl, fun _ _ => rfl⟩

lemma Later.trans {b₀ : Builder} {before₀ : BlockName → Set Milestone}
    (h : b₀.Later before₀ b before) (h' : b.Later before b' before') :
    b₀.Later before₀ b' before' :=
  ⟨h.next.trans h'.next, fun n hn => (h'.same n (hn.mono h.next)).trans (h.same n hn)⟩

lemma Leads.mono (h : b.Leads before now n) (le : now ⊆ now') : b.Leads before now' n :=
  ⟨h.knows, h.label.trans le⟩

variable {T : JumpTargets}

lemma Jumps.mono (h : b.Jumps before now T) (le : now ⊆ now') : b.Jumps before now' T :=
  fun kind n hn => (h kind n hn).mono (Set.union_subset_union_left _ le)

lemma Leads.later (h : b.Leads before now n) (l : b.Later before b' before') :
    b'.Leads before' now n :=
  ⟨h.knows.mono l.next, (l.same n h.knows).le.trans h.label⟩

lemma Meets.later (h : b.Meets before now n) (l : b.Later before b' before') :
    b'.Meets before' now n :=
  ⟨h.knows.mono l.next, (l.same n h.knows).trans h.label⟩

lemma Jumps.later (h : b.Jumps before now T) (l : b.Later before b' before') :
    b'.Jumps before' now T :=
  fun kind n hn => (h kind n hn).later l

lemma Meets.leads (h : b.Meets before now n) : b.Leads before now n := ⟨h.knows, h.label.le⟩

lemma Jumps.overlay {inner : JumpTargets} (h : b.Jumps before now T) (hi : b.Jumps before now inner) :
    b.Jumps before now (T.overlay inner) := by
  intro kind n hn
  rw [JumpTargets.get?_overlay] at hn
  cases hk : inner.get? kind with
  | none => exact h kind n (by simpa [hk] using hn)
  | some m => exact hi kind n (by simpa [hk] using hn)

/-- The jumps inside of a loop or a block literal. -/
lemma Jumps.inLoop {after next bodyBlock : BlockName} (h : b.Jumps before now T)
    (ha : b.Leads before now after) (hn : b.Leads before now next)
    (hb : b.Leads before now bodyBlock) : b.Jumps before now (T.inLoop after next bodyBlock) := by
  refine h.overlay fun kind n hk => ?_
  cases kind with
  | «return» => cases hk
  | «break» =>
    obtain rfl : after = n := Option.some.inj hk
    exact ha.mono Set.subset_union_left
  | next =>
    obtain rfl : next = n := Option.some.inj hk
    exact hn.mono Set.subset_union_left
  | redo =>
    obtain rfl : bodyBlock = n := Option.some.inj hk
    exact hb.mono Set.subset_union_left

lemma count_opened (b : Builder) (p : Instruction → Bool) :
    b.opened.graph.count p = b.graph.count p := by
  cases hb : b.current with
  | some n => rw [opened_of_at hb]
  | none => simp [opened_eq hb]

lemma code_opened (b : Builder) (n : BlockName) : b.opened.graph.code n = b.graph.code n := by
  cases hb : b.current with
  | some n => rw [opened_of_at hb]
  | none => simp [opened_eq hb]

lemma mem_names_emit (hn : b.At n) {m : BlockName} :
    m ∈ (b.emit i).graph.names ↔ m ∈ b.graph.names ∨ m ∈ i.targets := by
  rw [emit_eq hn, Graph.mem_names_connect, Graph.names_push]

namespace Charted

variable (h : b.Charted before now)

include h

/-- What changes neither code nor edges. -/
lemma still (later : b.Later before b' before') (nodup : b'.graph.names.Nodup)
    (names : ∀ n ∈ b.graph.names, n ∈ b'.graph.names) (known : ∀ n ∈ b'.graph.names, b'.Knows n)
    (code : ∀ n, b'.graph.code n = b.graph.code n) (edges : b'.graph.edges = b.graph.edges)
    (count : ∀ p, b'.graph.count p = b.graph.count p)
    (current : ∀ n, b'.At n → n ∈ b'.graph.names ∧ now' ⊆ before' n ∪ allPassed (b.graph.code n)) :
    b'.Charted before' now' where
  nodup := nodup
  known := known
  edges e he := by
    rw [edges] at he
    obtain ⟨hs, ht, le⟩ := h.edges e he
    refine ⟨names _ hs, names _ ht, ?_⟩
    rw [later.same _ (h.known _ hs), later.same _ (h.known _ ht), code]
    exact le
  ready n p i q hi := by
    rw [code] at hi
    have mem : n ∈ b.graph.names := by
      by_contra hn
      simp [Graph.code_eq_nil _ hn] at hi
    rw [later.same n (h.known n mem)]
    exact h.ready n p i q hi
  bodies body hb := by
    obtain ⟨hk, hc⟩ := h.bodies body (by simpa [Builder.bodies, count] using hb)
    exact ⟨hk.mono later.next, by rwa [later.same body hk]⟩
  current n hn := by
    rw [code]
    exact current n hn

/-- The graph and the counter of blocks stay the same. -/
lemma stand (graph : b'.graph = b.graph) (next : b'.nextBlock = b.nextBlock)
    (current : ∀ n, b'.At n → n ∈ b.graph.names ∧ now' ⊆ before n ∪ allPassed (b.graph.code n)) :
    b'.Charted before now' := by
  have knows : ∀ n, b.Knows n → b'.Knows n := fun n hn => hn.mono next.ge
  refine h.still ⟨next.ge, fun _ _ => rfl⟩ ?_ ?_ ?_ ?_ ?_ ?_ ?_
  all_goals rw [graph]
  · exact h.nodup
  · exact fun _ hn => hn
  · exact fun n hn => knows n (h.known n hn)
  · exact fun _ => rfl
  · exact fun _ => rfl
  · exact current

lemma quiet (graph : b'.graph = b.graph) (current : b'.current = b.current)
    (next : b'.nextBlock = b.nextBlock) : b'.Charted before now :=
  h.stand graph next fun n hn => h.current n (current.symm.trans hn)

/-- Anything may be claimed where no block is current. -/
lemma ended (none : b.current = none) : b.Charted before now' :=
  h.stand rfl rfl fun n hn => absurd hn (by simp [At, none])

/-- A name is given out, for a block of the graph or not, and the block may become current. -/
lemma named_fresh (s : Set Milestone) (next : b'.nextBlock = b.nextBlock + 1)
    (graph : b'.graph = b.graph ∨ b'.graph = b.graph.addBlock b.fresh)
    (current : b'.current = b.current ∨
      b'.current = some b.fresh ∧ b'.graph = b.graph.addBlock b.fresh ∧ now ⊆ s) :
    b'.Charted (Function.update before b.fresh s) now := by
  have knows : ∀ n, b'.Knows n ↔ b.Knows n ∨ n = b.fresh := fun n => by
    rw [← knows_created]
    simp [Knows, next]
  have later : b.Later before b' (Function.update before b.fresh s) :=
    ⟨by omega, fun n hn => Function.update_of_ne hn.ne_fresh _ _⟩
  have names : ∀ n ∈ b.graph.names, n ∈ b'.graph.names := by
    rcases graph with hg | hg <;> simp +contextual [hg]
  refine h.still later ?_ names (fun n hn => ?_) ?_ ?_ ?_ (fun n hn => ?_)
  · rcases graph with hg | hg
    · exact hg ▸ h.nodup
    · exact hg ▸ b.graph.nodup_names_addBlock h.nodup
  · rw [knows]
    rcases graph with hg | hg
    · exact Or.inl (h.known n (hg ▸ hn))
    · rw [hg, Graph.mem_names_addBlock] at hn
      exact hn.imp_left (h.known n)
  · rcases graph with hg | hg <;> simp [hg]
  · rcases graph with hg | hg <;> simp [hg]
  · rcases graph with hg | hg <;> simp [hg]
  · rcases current with hc | ⟨hc, hg, le⟩
    · obtain ⟨hm, hp⟩ := h.current n (hc.symm.trans hn)
      rw [later.same n (h.known n hm)]
      exact ⟨names n hm, hp⟩
    · obtain rfl : b.fresh = n := Option.mem_unique hc hn
      rw [Function.update_self, hg]
      exact ⟨by simp, le.trans Set.subset_union_left⟩

/-- If no block is current, a new one is opened, and what was claimed lies behind it. -/
lemma opened : ∃ before', b.Later before b.opened before' ∧ b.opened.Charted before' now := by
  cases hb : b.current with
  | some n =>
    rw [opened_of_at hb]
    exact ⟨before, .refl, h⟩
  | none =>
    rw [opened_eq hb]
    refine ⟨Function.update before b.fresh now, ⟨Nat.le_succ _, fun n hn => ?_⟩, ?_⟩
    · exact Function.update_of_ne hn.ne_fresh _ _
    · exact h.named_fresh now rfl (Or.inr rfl) (Or.inr ⟨rfl, rfl, subset_rfl⟩)

/-- A block is begun where none is current. -/
lemma begun (none : b.current = none) (hn : b.Knows n) (le : now' ⊆ before n) :
    (b.startBlock n).Charted before now' := by
  rw [startBlock_eq none]
  refine h.still ⟨le_rfl, fun _ _ => rfl⟩ (b.graph.nodup_names_addBlock h.nodup) ?_ ?_ ?_ ?_
    ?_ ?_
  · simp +contextual
  · intro m hm
    rcases (Graph.mem_names_addBlock _).1 hm with hm | rfl
    · exact h.known m hm
    · exact hn
  · simp
  · simp
  · simp
  · intro m hm
    obtain rfl : n = m := Option.some.inj hm
    exact ⟨by simp, le.trans Set.subset_union_left⟩

lemma code_emit (hn : b.At n) (m : BlockName) :
    (b.emit i).graph.code m = if m = n then b.graph.code m ++ [i] else b.graph.code m := by
  rw [emit_eq hn, Graph.code_connect, Graph.code_push]
  simp [(h.current n hn).1]

lemma count_emit_at (hn : b.At n) (p : Instruction → Bool) :
    (b.emit i).graph.count p = b.graph.count p + if p i then 1 else 0 := by
  rw [emit_eq hn, Graph.count_connect]
  exact b.graph.count_push p h.nodup (h.current n hn).1 i

lemma code_emit_opened (hn : b.opened.At n) (m : BlockName) :
    (b.emit i).graph.code m = if m = n then b.graph.code m ++ [i] else b.graph.code m := by
  obtain ⟨before', -, h'⟩ := h.opened
  rw [← emit_opened, h'.code_emit hn, code_opened]

lemma count_emit (p : Instruction → Bool) :
    (b.emit i).graph.count p = b.graph.count p + if p i then 1 else 0 := by
  obtain ⟨before', -, h'⟩ := h.opened
  obtain ⟨n, hn⟩ := b.exists_at_opened
  rw [← emit_opened, h'.count_emit_at hn, count_opened]

lemma bodies_subset_emit : b.bodies ⊆ (b.emit i).bodies := by
  intro body hb
  have hb : 0 < b.graph.count (Instruction.closes body) := hb
  show 0 < (b.emit i).graph.count (Instruction.closes body)
  rw [h.count_emit]
  omega

lemma code_prefix_emit (hn : b.At n) (m : BlockName) :
    b.graph.code m <+: (b.emit i).graph.code m := by
  rw [h.code_emit hn]
  split
  · exact List.prefix_append _ _
  · exact List.prefix_rfl

/-- Behind an instruction lies what lay before it, and the instruction itself. -/
lemma passed_emit (hn : b.At n) :
    now ∪ i.passes ⊆ before n ∪ allPassed ((b.emit i).graph.code n) := by
  rw [h.code_emit hn, if_pos rfl, allPassed_append, allPassed_singleton, ← Set.union_assoc]
  exact Set.union_subset_union_left _ (h.current n hn).2

lemma edges_emit (hn : b.At n) (targets : ∀ t ∈ i.targets, b.Leads before (now ∪ i.passes) t)
    {e : Edge} (he : e ∈ (b.emit i).graph.edges) :
    e.source ∈ (b.emit i).graph.names ∧ e.target ∈ (b.emit i).graph.names ∧
      before e.target ⊆ before e.source ∪ allPassed ((b.emit i).graph.code e.source) := by
  simp only [mem_names_emit hn]
  have he : e ∈ b.graph.edges ∨ e ∈ i.targets.map (⟨n, ·⟩) := by
    rwa [emit_eq hn, Graph.edges_connect, Graph.edges_push, List.mem_append] at he
  rcases he with he | he
  · obtain ⟨hs, ht, le⟩ := h.edges e he
    refine ⟨Or.inl hs, Or.inl ht, le.trans ?_⟩
    exact Set.union_subset_union_right _ (allPassed_mono (h.code_prefix_emit hn _))
  · obtain ⟨t, ht, rfl⟩ := List.mem_map.1 he
    exact ⟨Or.inl (h.current n hn).1, Or.inr ht, (targets t ht).label.trans (h.passed_emit hn)⟩

/-- The new instruction stands at the end of its block, and all others stand where they stood. -/
lemma ready_emit (hn : b.At n) (awaits : i.awaits ⊆ now) {m : BlockName} {p q : List Instruction}
    {k : Instruction} (hk : (b.emit i).graph.code m = p ++ k :: q) :
    k.awaits ⊆ before m ∪ allPassed p := by
  rw [h.code_emit hn] at hk
  split at hk
  · rename_i hm
    subst hm
    rcases List.eq_nil_or_concat' q with rfl | ⟨q, last, rfl⟩
    · obtain ⟨rfl, last⟩ := List.append_inj' hk rfl
      rw [← List.singleton_inj.1 last]
      exact awaits.trans (h.current m hn).2
    · rw [← List.cons_append, ← List.append_assoc] at hk
      exact h.ready m p k q (List.append_inj' hk rfl).1
  · exact h.ready m p k q hk

/-- An instruction is added to the current block. -/
lemma emit_at (hn : b.At n) (awaits : i.awaits ⊆ now)
    (closes : ∀ body, i.closes body = true → b.Knows body ∧ .called body ∈ before body)
    (targets : ∀ t ∈ i.targets, b.Leads before (now ∪ i.passes) t) :
    (b.emit i).Charted before (now ∪ i.passes) := by
  have knows : ∀ m, b.Knows m → (b.emit i).Knows m := fun m hm => by rwa [emit_eq hn]
  refine ⟨?_, fun m hm => ?_, fun e he => h.edges_emit hn targets he,
    fun m p k q hk => h.ready_emit hn awaits hk, fun body hb => ?_, fun m hm => ?_⟩
  · rw [emit_eq hn]
    exact Graph.nodup_names_connect _ ((b.graph.names_push n i).symm ▸ h.nodup)
  · rcases (mem_names_emit hn).1 hm with hm | hm
    · exact knows m (h.known m hm)
    · exact knows m (targets m hm).knows
  · have hb : 0 < (b.emit i).graph.count (Instruction.closes body) := hb
    rw [h.count_emit] at hb
    by_cases hc : i.closes body = true
    · exact ⟨knows _ (closes body hc).1, (closes body hc).2⟩
    · rw [if_neg hc] at hb
      obtain ⟨hk, hm⟩ := h.bodies body hb
      exact ⟨knows _ hk, hm⟩
  · have hm : m = n := by
      rw [emit_eq hn] at hm
      by_cases ends : i.isTerminator = true <;> simp_all [At]
    rw [hm]
    exact ⟨(mem_names_emit hn).2 (Or.inl (h.current n hn).1), h.passed_emit hn⟩

/-- An instruction is added to the current block, or to a new one. -/
lemma emit (awaits : i.awaits ⊆ now)
    (closes : ∀ body, i.closes body = true → b.Knows body ∧ .called body ∈ before body)
    (targets : ∀ t ∈ i.targets, b.Leads before (now ∪ i.passes) t) :
    ∃ before', b.Later before (b.emit i) before' ∧
      (b.emit i).Charted before' (now ∪ i.passes) := by
  obtain ⟨before', later, h'⟩ := h.opened
  obtain ⟨n, hn⟩ := b.exists_at_opened
  rw [← emit_opened]
  refine ⟨before', later.trans ⟨by rw [emit_eq hn], fun _ _ => rfl⟩, ?_⟩
  refine h'.emit_at hn awaits (fun body hb => ?_) fun t ht => (targets t ht).later later
  obtain ⟨hk, hc⟩ := closes body hb
  exact ⟨hk.mono later.next, by rwa [later.same body hk]⟩

end Charted

end Builder

end ControlFlow
