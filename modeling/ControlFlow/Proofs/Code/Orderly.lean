import ControlFlow.Proofs.Code.Rules
/-!
# Orderly code

Code is orderly if it returns a value only to jump out at once, and if it makes block literals only
for the calls that take them. What is laid out between two constructs is then quiet: assignments,
and calls that take no block literal.

The main result is `Plan.orderly_related`: all code that the plan of a tree allows is orderly.
-/

namespace ControlFlow

/-- Code that records a value to return only in front of the jump that returns, and that makes block
literals only for calls. -/
inductive Code.Orderly : Code → Prop where
  | skip : Orderly .skip
  | seq {p q : Code} (hp : Orderly p) (hq : Orderly q) : Orderly (.seq p q)
  | alloc : Orderly .alloc
  | emit {i : Instruction} {plain : i.isTerminator = false} (quiet : i.isQuiet = true) :
      Orderly (.emit i plain)
  | jump {kind : JumpKind} (other : kind ≠ .return) : Orderly (.jump kind)
  | returns {p : Code} {v : Binding} {plain : (Instruction.ret v).isTerminator = false}
      (hp : Orderly p) : Orderly (.seq (.seq p (.emit (.ret v) plain)) (.jump .return))
  | leave : Orderly .leave
  | twoWays {test first second : Code} {c : Binding} {on : Bool} (ht : Orderly test)
      (hf : Orderly first) (hs : Orderly second) : Orderly (.twoWays test c on first second)
  | detour {c : Binding} {on : Bool} {way : Code} (hw : Orderly way) : Orderly (.detour c on way)
  | join {ways : Code} (hw : Orderly ways) : Orderly (.join ways)
  | clause {on : Bool} {test body : Code} {c : Binding} (ht : Orderly test) (hb : Orderly body) :
      Orderly (.clause on test c body)
  | clauseElse {on : Bool} {test body rest : Code} {c : Binding} (ht : Orderly test)
      (hb : Orderly body) (hr : Orderly rest) : Orderly (.clauseElse on test c body rest)
  | test {inner : Code} {c : Binding} (hi : Orderly inner) : Orderly (.test inner c)
  | select {tests body : Code} (ht : Orderly tests) (hb : Orderly body) :
      Orderly (.select tests body)
  | loop {on : Bool} {test body again : Code} {c c' : Binding} (ht : Orderly test)
      (hb : Orderly body) (ha : Orderly again) : Orderly (.loop on test c body again c')
  | block {body : Code} (hb : Orderly body) : Orderly (.block body)
  | guarded {copies : JumpKind → Code} {body ensure : Code} (hc : ∀ kind, Orderly (copies kind))
      (hb : Orderly body) (he : Orderly ensure) : Orderly (.guarded copies body ensure)
  | blockCall {params : List Parameter} {closure : Binding} {dest : Option Binding}
      {callee : Callee} {request body : Code} {args : Arguments} {v : Binding}
      (hr : Orderly request) (hb : Orderly body) :
      Orderly (.blockCall params closure dest callee request args body v)

/-- Orderly code as a property that depends on nothing else. -/
def Code.orderly : Property Set.univ := fun _ _ _ c => c.Orderly

lemma Code.Orderly.rules : Rules (fun _ => True) orderly orderly orderly where
  mono h _ := h
  skip := .skip
  seq := .seq
  alloc := .alloc
  emit quiet _ := .emit quiet
  jump other _ hp := .seq hp (.jump other)
  returns _ hp := .returns hp
  twoWays := .twoWays
  detour _ hp := .detour hp
  join := .join
  leave hp := .seq hp .leave
  before := .seq
  clause _ hp hq := .clause hp hq
  clauseElse := .clauseElse
  noTest := .skip
  test hp hq := .seq (.test hp) hq
  select hp hq hr := .seq (.select hp hq) hr
  loop _ _ hp hq hr := .loop hp hq hr
  block := .block
  guarded := .guarded
  blockCall _ hp hq := .blockCall hp hq

/-- **All code that the plan of a tree allows is orderly.** -/
theorem Plan.orderly_related (env : Environment) :
    Construction.Related env env (fun _ => True) (allowed Code.orderly) :=
  Code.Orderly.rules.related fun _ _ _ => trivial

end ControlFlow
