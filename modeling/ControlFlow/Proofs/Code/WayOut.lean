import ControlFlow.Proofs.Code.Rules
import ControlFlow.Proofs.Code.Runs
/-!
# Ways out of code

If the condition of no loop goes on with the same loop, there is a way out of all code: a run that
gets behind the code, or jumps out of it. It takes no loop and passes every block literal by.
-/

namespace ControlFlow

/-- The machine that takes any way. -/
def Machine.any : Machine Unit where
  act _ s := s
  takes _ _ _ := True

namespace Code

variable {J : Set JumpKind} {o o' : Outcome} {p q c : Code}

/-- Some run of the code gets where `o` says, or makes one of the jumps in `J`. -/
def Gets (o : Outcome) (J : Set JumpKind) (c : Code) : Prop :=
  c.Runs Machine.any 1 () o () ∨ ∃ kind ∈ J, c.Runs Machine.any 1 () (.jump kind) ()

/-- The way out of a part goes on behind the part, or leads out of the code around it as well. -/
lemma Gets.bind (hp : p.Gets o J) (behind : p.Runs Machine.any 1 () o () → c.Gets o' J)
    (escapes : ∀ kind, p.Runs Machine.any 1 () (.jump kind) () →
      c.Runs Machine.any 1 () (.jump kind) ()) : c.Gets o' J := by
  rcases hp with hp | ⟨kind, hk, hp⟩
  · exact behind hp
  · exact Or.inr ⟨kind, hk, escapes kind hp⟩

lemma Gets.seq (hp : p.Gets .done J) (hq : q.Gets o J) : (Code.seq p q).Gets o J :=
  hp.bind (fun hp => hq.bind (fun hq => Or.inl (Or.inl ⟨(), hp, hq⟩))
    fun _ hq => Or.inl ⟨(), hp, hq⟩) fun _ hp => Or.inr ⟨by simp, hp⟩

/-- A way out as a property of code. -/
def wayOut : Property Set.univ := fun J _ _ c => c.Gets .done J

/-- There is a way out of a construct if there is one out of its parts. -/
lemma Gets.rules : Rules (fun K => .next ∉ K ∧ .redo ∉ K) wayOut (fun J _ _ c => c.Gets .left J)
    wayOut where
  mono h _ := h
  skip := Or.inl ⟨rfl, rfl⟩
  seq := .seq
  alloc := Or.inl ⟨rfl, rfl⟩
  emit _ _ := Or.inl ⟨rfl, rfl⟩
  jump _ possible hp := hp.seq (Or.inr ⟨_, possible, rfl, rfl⟩)
  returns {_ _ v _ _} possible hp :=
    have emitted : (Code.emit (.ret v) rfl).Runs Machine.any 1 () .done () := ⟨rfl, rfl⟩
    (hp.seq (Or.inl emitted)).seq (Or.inr ⟨.return, possible, rfl, rfl⟩)
  twoWays {_ _ _ on _ _ _ _} hp hq _ := hp.bind (fun hp => hq.bind
    (fun hq => Or.inl (Or.inl ⟨(), on, hp, trivial, by simp, by rwa [if_pos rfl]⟩))
    fun _ hq => Or.inl ⟨(), on, hp, trivial, by simp, by rwa [if_pos rfl]⟩)
    fun _ hp => Or.inr ⟨trivial, hp⟩
  detour {_ _ _ on _ _} _ _ := Or.inl ⟨!on, trivial, by simp, by cases on <;> exact ⟨rfl, rfl⟩⟩
  join hp := hp.bind (fun hp => Or.inl (Or.inl ⟨rfl, hp⟩)) fun _ hp => Or.inr ⟨by simp, hp⟩
  leave hp := hp.seq (Or.inl ⟨rfl, rfl⟩)
  before := .seq
  clause {_ _ _ on _ _ _} _ hp _ := hp.bind
    (fun hp => Or.inl (Or.inl ⟨(), !on, hp, trivial, by cases on <;> exact ⟨rfl, rfl⟩⟩))
    fun _ hp => Or.inr ⟨trivial, hp⟩
  clauseElse {_ _ _ on _ _ _ _} hp _ hr := hp.bind (fun hp => hr.bind
    (fun hr => Or.inl (Or.inl ⟨(), !on, hp, trivial, by cases on <;> exact hr⟩))
    fun _ hr => Or.inl ⟨(), !on, hp, trivial, by cases on <;> exact hr⟩)
    fun _ hp => Or.inr ⟨trivial, hp⟩
  noTest := Or.inl ⟨rfl, rfl⟩
  test {J _ v p _} hp hq :=
    have tested : (Code.test p v).Gets .done J := hp.bind
      (fun hp => Or.inl (Or.inl ⟨false, hp, trivial, rfl⟩)) fun _ hp => Or.inr ⟨trivial, hp⟩
    tested.seq hq
  select {J _ _ p q _} hp _ hr :=
    have passed : (Code.select p q).Gets .done J := hp.bind
      (fun hp => Or.inl (Or.inr ⟨by simp, hp⟩)) fun _ hp => Or.inr ⟨by simp, hp⟩
    passed.seq hr
  loop inner clear hp _ _ := by
    -- a loop is left by its test, unless the test goes on with the loop
    rcases hp with hp | ⟨kind, hk, hp⟩
    · exact Or.inl (.finish (by simp) hp trivial)
    · cases kind with
      | «break» => exact Or.inl (.broken hp)
      | next => exact absurd hk clear.1
      | redo => exact absurd hk clear.2
      | «return» =>
        exact Or.inr ⟨.return, (inner hk).resolve_right (by simp [JumpKind.ofLoop]), .returned hp⟩
  block hp := hp.bind (fun hp => Or.inl ⟨by simp, hp⟩) fun _ hp => ⟨by simp, hp⟩
  guarded hf hp hq := by
    rcases hp with hp | ⟨kind, hk, hp⟩
    · exact hq.bind (fun hq => Or.inl (Or.inl ⟨(), hp, by simp, hq⟩))
        fun _ hq => Or.inl ⟨(), hp, by simp, hq⟩
    · -- the copy of the clause for this jump ends, or is left by a jump itself
      exact (hf kind).bind
        (fun hc => Or.inr ⟨kind, hk, Or.inr (Or.inl ⟨kind, (), hp, Or.inl ⟨rfl, hc⟩⟩)⟩)
        fun _ hc => Or.inr (Or.inl ⟨kind, (), hp, Or.inr ⟨trivial, hc⟩⟩)
  blockCall _ hp _ := hp.bind (fun hp => Or.inl fun _ => Or.inl ⟨(), hp, rfl, trivial, rfl⟩)
    fun _ hp _ => Or.inr ⟨trivial, hp⟩

end Code

/-- All code that the plan of a tree allows has a way out, if no condition of a loop goes on with the
loop. -/
lemma Plan.wayOut_related (env : Environment) :
    Construction.Related env env (fun K => .next ∉ K ∧ .redo ∉ K) (allowed Code.wayOut) :=
  Code.Gets.rules.related fun _ _ _ => trivial

end ControlFlow
