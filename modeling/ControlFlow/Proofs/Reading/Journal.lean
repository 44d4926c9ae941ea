import Mathlib.Data.List.Perm.Basic
import Mathlib.Data.List.Dedup
import ControlFlow.Pipeline
import ControlFlow.Proofs.Lowering.Journal
import ControlFlow.Proofs.Lowering.Temporaries
import ControlFlow.Proofs.Meaning.Simulation
import ControlFlow.Proofs.Reading.Annotations
/-!
# Journals of whole builds

The journal of a build consists of a few preliminary messages, of what the lowering writes, and of a
message with the size of the graph if there is one. The last message counts the temporaries that were
handed out. A tree that was read names no temporary, so these are the temporaries of the graph.
-/

namespace ControlFlow

/-! ## Trees that were read name no temporary -/

lemma kind_of_declares {fs : List Form} {params : List Parameter}
    (h : List.Forall₂ Form.Declares fs params) : ∀ p ∈ params, p.binding.kind ≠ .temporary := by
  induction h with
  | nil => simp
  | cons declared _ ih =>
    obtain ⟨tag, n, name, kind, -, -, -, rfl⟩ := declared
    exact List.forall_mem_cons.2 ⟨nofun, ih⟩

lemma Tag.kind_of_varRef {w : String} {kind : BindingKind}
    (h : Tag.ofSymbol? w = some (.varRef kind)) : kind ≠ .temporary := by
  rintro rfl
  exact List.not_mem_nil (Tag.mem_symbols h)

section

variable {slot : Slot} {f : Form} {said : Kind Form} {b : Option Binding}

lemma Says.kind_of_binding (h : Says slot f said b) : ∀ v ∈ b, v.kind ≠ .temporary := by
  induction h with
  | tagged _ ht phrase =>
    cases phrase with
    | varRef =>
      rintro _ ⟨⟩
      exact Tag.kind_of_varRef ht
    | _ => exact fun v hv => nomatch hv
  | varTarget _ ht _ =>
    rintro _ ⟨⟩
    exact Tag.kind_of_varRef ht
  | part _ _ ih => exact ih
  | field _ _ phrase | multi _ _ phrase | elsif _ phrase | elseThen _ phrase | clause _ phrase
    | block _ phrase =>
    cases phrase
    exact fun v hv => nomatch hv
  | integer | float | text | word | content => exact fun v hv => nomatch hv

lemma Phrase.kind_of_params {t : Tag} {args : List Form} (h : Phrase t args said b) :
    ∀ p ∈ said.params, p.binding.kind ≠ .temporary := by
  cases h with
  | doBlock _ declared => exact kind_of_declares declared
  | _ => exact fun p hp => nomatch hp

lemma Says.kind_of_params (h : Says slot f said b) :
    ∀ p ∈ said.params, p.binding.kind ≠ .temporary := by
  induction h with
  | tagged _ _ phrase | field _ _ phrase | multi _ _ phrase | elsif _ phrase | elseThen _ phrase
    | clause _ phrase | block _ phrase => exact phrase.kind_of_params
  | part _ _ ih => exact ih
  | word h =>
    unfold wordKind? at h
    split at h <;> cases h <;> exact fun p hp => nomatch hp
  | integer | float | text | content | varTarget => exact fun p hp => nomatch hp

end

lemma Kind.Rel.params {α β : Type} {R : Role → α → β → Prop} {k : Kind α} {l : Kind β}
    (h : Kind.Rel R k l) : l.params = k.params := by
  cases h <;> rfl

/-- A scope that names no temporary. -/
def Scope.TemporaryFree (scope : Scope) : Prop :=
  scope.self.kind ≠ .temporary ∧ ∀ m ∈ scope.method, ∀ p ∈ m.params, p.binding.kind ≠ .temporary

lemma ProgramSays.temporaryFree {f : Form} {fs : List Form} {scope : Scope}
    (h : ProgramSays .main f fs scope) : scope.TemporaryFree := by
  cases h with
  | withScope _ header =>
    cases header with
    | plain => exact ⟨nofun, fun m hm => nomatch hm⟩
    | method _ _ _ _ declared =>
      refine ⟨nofun, ?_⟩
      rintro _ ⟨⟩
      exact kind_of_declares declared
  | plain | bare => exact ⟨nofun, fun m hm => nomatch hm⟩

lemma Info.kind_of_bindings {info : Info} {scope : Scope} (inScope : info.scope = some scope)
    (free : scope.TemporaryFree) (bound : ∀ v ∈ info.binding, v.kind ≠ .temporary) :
    ∀ b ∈ info.bindings, b.kind ≠ .temporary := by
  intro b hb
  simp only [Info.bindings, inScope, Option.toList_some, List.flatMap_singleton, List.mem_append,
    Option.mem_toList, List.mem_cons, List.mem_flatMap, List.mem_map] at hb
  rcases hb with hb | rfl | ⟨m, hm, p, hp, rfl⟩
  · exact bound b hb
  · exact free.1
  · exact free.2 m hm p hp

lemma Reads.temporaryFree {s : Setting} {slot : Slot} {f : Form} {n : Node}
    (free : s.scope.TemporaryFree) (h : Reads s slot f n) :
    (∀ b ∈ n.info.bindings, b.kind ≠ .temporary) ∧
      ∀ p ∈ n.kind.params, p.binding.kind ≠ .temporary := by
  obtain ⟨said, b, means, ⟨id, info⟩, rel⟩ := h.view
  constructor
  · refine Info.kind_of_bindings (by rw [info]; rfl) free ?_
    rw [info]
    exact means.kind_of_binding
  · rw [rel.params]
    exact means.kind_of_params

namespace Reading

variable {host : Host} {options : Options} {source : Source} {root : Node}

lemma read_temporaryFree (h : read host options source = .ok root) : root.TemporaryFree := by
  obtain ⟨f, k, -, gets⟩ := read_ok h
  obtain ⟨fs, scope, ns, id, program, rfl, reads⟩ := gets_program gets
  have free := program.temporaryFree
  have rel : Kind.Rel (fun role => Reads ⟨source.name, scope⟩ role.slot) (.program fs)
      (.program ns) := .program reads
  have here : ∀ b ∈ (Setting.info ⟨source.name, scope⟩ f.extent none id).bindings,
      b.kind ≠ .temporary := Info.kind_of_bindings rfl free fun v hv => nomatch hv
  refine Node.each_mk.2 ⟨⟨here, fun p hp => nomatch hp⟩, fun n hn => ?_⟩
  obtain ⟨role, mem⟩ := Kind.mem_children.1 hn
  obtain ⟨g, -, read⟩ := rel.field_right mem
  refine ⟨read.temporaryFree free, fun d hd => ?_⟩
  obtain ⟨slot, g', -, read'⟩ := read.below hd
  exact read'.temporaryFree free

end Reading

/-! ## The temporaries of a graph -/

namespace Graph

/-- The temporaries that the instructions of a graph name, each of them once. -/
def temporaries (g : Graph) : List Binding :=
  (((g.names.flatMap g.code).flatMap (·.bindings)).filter (·.kind = .temporary)).dedup

lemma nodup_temporaries (g : Graph) : g.temporaries.Nodup := List.nodup_dedup _

lemma mem_temporaries {g : Graph} {v : Binding} :
    v ∈ g.temporaries ↔ v.kind = .temporary ∧ g.Names v := by
  have named : ∀ n i, i ∈ g.code n → n ∈ g.names := by
    intro n i mem
    rw [mem_names_iff_block?]
    unfold code at mem
    cases found : g.block? n with
    | some b => rfl
    | none => simp [found] at mem
  simp only [temporaries, List.mem_dedup, List.mem_filter, List.mem_flatMap, decide_eq_true_eq]
  constructor
  · rintro ⟨⟨i, ⟨n, -, mem⟩, hv⟩, temporary⟩
    exact ⟨temporary, n, i, mem, hv⟩
  · rintro ⟨temporary, n, i, mem, hv⟩
    exact ⟨⟨i, ⟨n, named n i mem, mem⟩, hv⟩, temporary⟩

end Graph

namespace Lowering

/-- The temporaries of a graph are as many as were handed out. -/
lemma length_temporaries {host : Host} {types : String → Option Binding} {options : Options}
    {root : Node} {g : Graph} (h : build host types options root = .ok g) (free : root.TemporaryFree)
    (registered : ∀ name b, types name = some b → b.kind ≠ .temporary) :
    g.temporaries.length = temporaryCount types options root := by
  have same : g.temporaries.Perm
      ((List.range' 1 (temporaryCount types options root)).map .temporary) := by
    refine (List.perm_ext_iff_of_nodup g.nodup_temporaries
      ((List.nodup_range').map Meaning.temporary_injective)).2 fun v => ?_
    rw [Graph.mem_temporaries, List.mem_map]
    constructor
    · rintro ⟨temporary, named⟩
      obtain ⟨k, first, last, rfl⟩ := (names_temporary_iff free registered temporary h).1 named
      exact ⟨k, by simp; omega, rfl⟩
    · rintro ⟨k, mem, rfl⟩
      refine ⟨rfl, (names_temporary_iff free registered rfl h).2 ⟨k, ?_, ?_, rfl⟩⟩
      all_goals
        simp at mem
        omega
  rw [same.length_eq, List.length_map, List.length_range']

end Lowering

/-! ## Whole builds -/

lemma Reading.run_preliminary (host : Host) (options : Options) (source : Source) :
    ∀ e ∈ (Reading.run host options source).2.toList, e.isPreliminary = true := by
  unfold Reading.run
  split
  · simp
  · split
    · simp
    · split
      · simp [Event.isPreliminary]
      · split <;> simp [Event.isPreliminary]

/-- **Journals are bracketed.** The journal of a build, whether it succeeds or fails, consists of
preliminary messages and of a part in which every change of the targets of jumps is ended by a message
with the targets from before it: at the start only `return` has a target, the exit. If there is a graph
the last message tells how many blocks, edges and temporaries it has. -/
theorem journal_bracketed (host : Host) (options : Options) (source : Source) :
    ∃ before es, (∀ e ∈ before, e.isPreliminary = true) ∧
      match buildWithJournal host options source with
      | (.ok g, journal) =>
        journal.toList = before ++ es ++
          [.built g.blocks.length g.edges.length g.temporaries.length] ∧
        Bracketed false { returnTo := some .exit } es
      | (.error _, journal) =>
        journal.toList = before ++ es ∧ Bracketed true { returnTo := some .exit } es := by
  have opening := Reading.run_preliminary host options source
  rcases reading : Reading.run host options source with ⟨e | root, journal⟩
  · have whole : buildWithJournal host options source = (.error e.diagnostic, journal) := by
      rw [buildWithJournal, reading]
    rw [reading] at opening
    rw [whole]
    exact ⟨journal.toList, [], opening, by simp, .nil⟩
  · rw [reading] at opening
    obtain ⟨before, es, preliminary, rest⟩ := Lowering.run_bracketed host builtinTypes options root
    have all : ∀ e ∈ journal.toList ++ before, e.isPreliminary = true :=
      fun e he => (List.mem_append.1 he).elim (opening e) (preliminary e)
    refine ⟨journal.toList ++ before, es, all, ?_⟩
    rcases lowering : Lowering.run host builtinTypes options root with ⟨e | g, journal'⟩
    · have whole : buildWithJournal host options source =
          (.error e.diagnostic, journal ++ journal') := by
        simp only [buildWithJournal, reading, lowering]
      rw [lowering] at rest
      rw [whole]
      exact ⟨by simp [rest.1], rest.2⟩
    · have whole : buildWithJournal host options source = (.ok g, journal ++ journal') := by
        simp only [buildWithJournal, reading, lowering]
      have free : root.TemporaryFree := Reading.read_temporaryFree (by rw [Reading.read, reading])
      have built : Lowering.build host builtinTypes options root = .ok g := by
        rw [Lowering.build, lowering]
      have count := Lowering.length_temporaries built free fun _ _ => Lowering.kind_of_builtinTypes
      rw [lowering] at rest
      rw [whole]
      exact ⟨by simp [rest.1, count, Lowering.temporaryCount], rest.2⟩

end ControlFlow
