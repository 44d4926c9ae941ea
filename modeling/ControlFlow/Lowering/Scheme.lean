import ControlFlow.Lowering.Walk
/-!
# Schemes of control flow

How a walk puts the parts of a construct together: which blocks it makes, in which order it fills
them, and where each of them leads.
-/

namespace ControlFlow.WalkT

variable {m : Type → Type} [Monad m]

/-! ## Two ways -/

/-- Leaves the current block for `taken` where a binding is `on`, for `other` where it is not. -/
def branchOn (c : Binding) (on : Bool) (taken other : BlockName) : WalkT m Unit :=
  build (·.branchOn c on taken other)

/-- Two blocks behind a test, one for each way, and one where they meet. -/
def twoWays (test : WalkT m Binding) (on : Bool) (first second : WalkT m Unit) : WalkT m Unit := do
  let ifTrue ← createBlock
  let ifFalse ← createBlock
  let after ← createBlock
  let c ← test
  branch (some c) ifTrue ifFalse
  startBlock (if on then ifTrue else ifFalse)
  first
  jump after
  startBlock (if on then ifFalse else ifTrue)
  second
  jump after
  startBlock after

/-- A block for the way that may be taken, and one behind it. -/
def detour (c : Binding) (on : Bool) (way : WalkT m Unit) : WalkT m Unit := do
  let taken ← createBlock
  let after ← createBlock
  branchOn c on taken after
  startBlock taken
  way
  startBlock after

/-! ## Conditionals -/

/-- One condition with its body. Where the condition fails `rest` goes on in a block of its own, if
there is something left; all ways meet in `after`. -/
def clause (after : BlockName) (on : Bool) (condition : WalkT m Binding) (body : WalkT m Unit)
    (rest : Option (WalkT m Unit)) : WalkT m Unit := do
  let taken ← createBlock
  match rest with
  | none =>
    let c ← condition
    branchOn c on taken after
    startBlock taken
    body
    jump after
  | some rest =>
    let other ← createBlock
    let c ← condition
    branchOn c on taken other
    startBlock taken
    body
    jump after
    startBlock other
    rest

/-- What follows the body of a conditional whose ways meet in `after`, if anything is left. -/
def alternative (after : BlockName) : Alternative (WalkT m) → Option (WalkT m Unit)
  | .nothing => none
  | .last body => some do
    body
    jump after
  | .clause condition body rest => some (clause after true condition body (alternative after rest))

/-- A conditional, with a block where all ways meet. -/
def conditional (on : Bool) (condition : WalkT m Binding) (body : WalkT m Unit)
    (rest : Alternative (WalkT m)) : WalkT m Unit := do
  let after ← createBlock
  clause after on condition body (alternative after rest)
  startBlock after

/-- Makes a test that leads to the body block where it holds, and leaves a block open where it does
not. -/
def tryTest (bodyBlock : BlockName) (test : WalkT m Binding) : WalkT m Unit := do
  let failed ← createBlock
  let c ← test
  branch (some c) bodyBlock failed
  startBlock failed

/-- Makes tests one after the other. -/
def tryTests (bodyBlock : BlockName) : List (WalkT m Binding) → WalkT m Unit
  | [] => pure ()
  | test :: tests => do
    tryTest bodyBlock test
    tryTests bodyBlock tests

/-- The clauses of a `case` whose ways meet in `after`. The block that the tests of a clause leave
open is where the next clause goes on. -/
def clauses (after : BlockName) : Clauses (WalkT m) → WalkT m Unit
  | .last body => do
    body
    jump after
  | .clause tests body rest => do
    let bodyBlock ← createBlock
    tryTests bodyBlock tests
    let failed ← suspend
    startBlock bodyBlock
    body
    jump after
    resume failed
    clauses after rest

/-- A `case`, with a block where all ways meet. -/
def select (subject : WalkT m Binding) (cases : Binding → Clauses (WalkT m)) : WalkT m Unit := do
  let after ← createBlock
  let v ← subject
  clauses after (cases v)
  startBlock after

/-! ## Loops and jumps -/

/-- The test of a loop, which leads to the body or behind the loop. -/
def loopTest (sense : LoopSense) (condition : WalkT m Binding) (bodyBlock after : BlockName) :
    WalkT m Unit := do
  let c ← condition
  branchOn c (sense = .whileTrue) bodyBlock after

/-- A loop that tests its condition first, in a block of its own, and again behind its body. -/
def loop (sense : LoopSense) (condition : WalkT m Binding) (body : WalkT m Unit) : WalkT m Unit := do
  let bodyBlock ← createBlock
  let after ← createBlock
  let pretest ← createBlock
  withTargets ⟨some after, some pretest, some bodyBlock, none⟩ do
    startBlock pretest
    loopTest sense condition bodyBlock after
    startBlock bodyBlock
    body
    loopTest sense condition bodyBlock after
  startBlock after

/-- Jumps once `before` has been done. -/
def jumpOut (info : Info) (kind : JumpKind) (before : WalkT m Unit) : WalkT m Unit := do
  let target ← jumpTarget info kind
  before
  jump target

/-! ## Clauses that always run -/

/-- For each of the given kinds of jumps that leads somewhere, a copy of the `ensure` clause that
leads there too. The result says where each copy starts. -/
def landings (outer : JumpTargets) (clause : WalkT m Unit) :
    List JumpKind → JumpTargets → WalkT m JumpTargets
  | [], inner => pure inner
  | kind :: kinds, inner =>
    match outer.get? kind with
    | none => landings outer clause kinds inner
    | some target => do
      let landing ← createBlock
      note (.redirected kind landing)
      startBlock landing
      clause
      jump target
      landings outer clause kinds (inner.set kind landing)

/-- Statements and an `ensure` clause. While the statements are walked every jump leads through a
copy of the clause. -/
def guarded (body : WalkT m Unit) (ensure : Option (WalkT m Unit)) : WalkT m Unit := do
  let bodyBlock ← createBlock
  jump bodyBlock
  match ensure with
  | none =>
    startBlock bodyBlock
    body
  | some clause =>
    let inner ← landings (← get).targets clause JumpKind.all {}
    withTargets inner do
      startBlock bodyBlock
      body
    let ensureBlock ← createBlock
    let after ← createBlock
    startBlock ensureBlock
    clause
    startBlock after

/-! ## Block literals -/

/-- The end of one run of the body of a block literal. -/
def endRun (v : Binding) (bodyBlock after : BlockName) : WalkT m Unit :=
  build (·.endRun v bodyBlock after)

/-- A block literal becomes a closure that names the block where its body starts, the call that
refers to that block, and a branch without a condition into the body or past it. The body ends with
the same branch, so that it may run any number of times. Inside of the body `break` leaves the call,
`redo` starts the body again, and `next` ends the run. The block for `next` joins the graph only if
the body jumps to it. -/
def blockCall (params : List Parameter) (dest : Option Binding) (callee : Callee)
    (args : WalkT m Arguments) (body : WalkT m Binding) : WalkT m Unit := do
  let after ← createBlock
  let closure ← allocTemp
  let bodyBlock ← createBlock
  emit (.closure closure params bodyBlock)
  let values ← args
  emit (.send dest callee values (.body bodyBlock))
  branch none bodyBlock after
  let landing ← reserveBlock
  withTargets ⟨some after, some landing, some bodyBlock, none⟩ do
    startBlock bodyBlock
    let v ← body
    endRun v bodyBlock after
  build (·.land landing bodyBlock after)
  startBlock after

/-- Lowering by walks. -/
instance : Construction (WalkT m) where
  failAt := failAt
  nested := nested
  allocTemp := allocTemp
  emit i _ := emit i
  jumpOut := jumpOut
  twoWays := twoWays
  detour := detour
  conditional := conditional
  select := select
  loop := loop
  guarded := guarded
  blockCall := blockCall

end ControlFlow.WalkT
