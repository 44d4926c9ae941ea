import ControlFlow.Proofs.Code.Region
/-!
# Structured code

Between a syntax tree and its graph stands structured code: what lowering emits, with the constructs
that lead several ways still in one piece and without names of blocks. `Code.Lays` says what laying
code out does to a builder: which blocks it makes, in which order it fills them, and where each of
them leads.

Code is laid out in front of a label. Only the ways of a `join` and the tests of a `select` lead
there; other code does not refer to it.
-/

namespace ControlFlow

/-- Structured code. -/
inductive Code where
  | skip
  | seq (p q : Code)
  /-- Takes a temporary. -/
  | alloc
  | emit (i : Instruction) (plain : i.isTerminator = false)
  /-- A jump out of the constructs around. -/
  | jump (kind : JumpKind)
  /-- Leads to the label. -/
  | leave
  /-- Two ways behind a test that meet again; `first` is taken where `c` comes out `on`. -/
  | twoWays (test : Code) (c : Binding) (on : Bool) (first second : Code)
  /-- A way that is taken where `c` is `on`, and a way past it. -/
  | detour (c : Binding) (on : Bool) (way : Code)
  /-- Ways that meet in a new label. -/
  | join (ways : Code)
  /-- A body that is taken where `c` comes out `on`, in front of the label. -/
  | clause (on : Bool) (test : Code) (c : Binding) (body : Code)
  /-- A body that is taken where `c` comes out `on`, in front of the label, and what is done where it
  does not. -/
  | clauseElse (on : Bool) (test : Code) (c : Binding) (body rest : Code)
  /-- Leads to the label where `c` holds, and goes on where it does not. -/
  | test (inner : Code) (c : Binding)
  /-- Tests that lead to a body, which leads to the label. -/
  | select (tests body : Code)
  /-- A loop with its test in front and behind the body, which is taken where the test comes out
  `on`. -/
  | loop (on : Bool) (test : Code) (c : Binding) (body again : Code) (c' : Binding)
  /-- Code in a block of its own. -/
  | block (body : Code)
  /-- A body with a clause behind it, and a copy of the clause for every kind of jump. -/
  | guarded (copies : JumpKind → Code) (body ensure : Code)
  /-- A call with a block literal; `v` is the value of its body. -/
  | blockCall (params : List Parameter) (closure : Binding) (dest : Option Binding)
      (callee : Callee) (request : Code) (args : Arguments) (body : Code) (v : Binding)

namespace JumpTargets

/-- The kinds of jumps that lead somewhere. -/
def kinds (T : JumpTargets) : Set JumpKind := {kind | (T.get? kind).isSome}

/-- The blocks that jumps lead to. -/
def names (T : JumpTargets) : Set BlockName := {name | ∃ kind, T.get? kind = some name}

/-- The targets inside of a loop or a block literal. -/
def inLoop (T : JumpTargets) (after next bodyBlock : BlockName) : JumpTargets :=
  T.overlay ⟨some after, some next, some bodyBlock, none⟩

lemma get?_overlay (T overrides : JumpTargets) (kind : JumpKind) :
    (T.overlay overrides).get? kind = (overrides.get? kind <|> T.get? kind) := by
  cases kind <;> rfl

lemma get?_set (T : JumpTargets) (kind kind' : JumpKind) (name : BlockName) :
    (T.set kind name).get? kind' = if kind' = kind then some name else T.get? kind' := by
  cases kind <;> cases kind' <;> rfl

lemma kinds_overlay (T overrides : JumpTargets) :
    (T.overlay overrides).kinds = T.kinds ∪ overrides.kinds := by
  ext kind
  simp only [kinds, get?_overlay, Set.mem_ofPred_eq, Set.mem_union]
  cases overrides.get? kind <;> simp

lemma kinds_set (T : JumpTargets) (kind : JumpKind) (name : BlockName) :
    (T.set kind name).kinds = insert kind T.kinds := by
  ext kind'
  simp only [kinds, get?_set, Set.mem_ofPred_eq, Set.mem_insert_iff]
  split <;> simp [*]

lemma names_overlay (T overrides : JumpTargets) :
    (T.overlay overrides).names ⊆ overrides.names ∪ T.names := by
  rintro name ⟨kind, h⟩
  rw [get?_overlay] at h
  cases ho : overrides.get? kind with
  | none => exact Or.inr ⟨kind, by simpa [ho] using h⟩
  | some m => exact Or.inl ⟨kind, by simpa [ho] using h⟩

lemma names_inLoop (T : JumpTargets) (after next bodyBlock : BlockName) :
    (T.inLoop after next bodyBlock).names ⊆ {after, next, bodyBlock} ∪ T.names := by
  refine (T.names_overlay _).trans (Set.union_subset_union_left _ ?_)
  rintro name ⟨kind, h⟩
  cases kind <;> simp_all [get?]

lemma names_set (T : JumpTargets) (kind : JumpKind) (name : BlockName) :
    (T.set kind name).names ⊆ insert name T.names := by
  rintro m ⟨kind', h⟩
  rw [get?_set] at h
  split at h
  · exact Or.inl (Option.some.inj h).symm
  · exact Or.inr ⟨kind', h⟩

end JumpTargets

/-- Laying code out in front of the label `l`, with the targets `T` for jumps, takes a builder to
another. -/
inductive Code.Lays : Code → BlockName → JumpTargets → Builder → Builder → Prop where
  | skip {l : BlockName} {T : JumpTargets} {b : Builder} : Lays .skip l T b b
  | seq {p q : Code} {l : BlockName} {T : JumpTargets} {b b₁ b₂ : Builder} (hp : Lays p l T b b₁)
      (hq : Lays q l T b₁ b₂) : Lays (.seq p q) l T b b₂
  | alloc {l : BlockName} {T : JumpTargets} {b : Builder} : Lays .alloc l T b b.allocTemp.2
  | emit {i : Instruction} {plain : i.isTerminator = false} {l : BlockName} {T : JumpTargets}
      {b : Builder} : Lays (.emit i plain) l T b (b.emit i)
  | jump {kind : JumpKind} {l target : BlockName} {T : JumpTargets} {b : Builder}
      (h : T.get? kind = some target) : Lays (.jump kind) l T b (b.jump target)
  | leave {l : BlockName} {T : JumpTargets} {b : Builder} : Lays .leave l T b (b.jump l)
  | twoWays {test first second : Code} {c : Binding} {on : Bool} {l ifTrue ifFalse after : BlockName}
      {T : JumpTargets} {b b₁ b₂ b₃ : Builder} (h₁ : ifTrue = b.fresh)
      (h₂ : ifFalse = b.created.fresh) (h₃ : after = b.created.created.fresh)
      (ht : Lays test after T b.created.created.created b₁)
      (hf : Lays first after T ((b₁.branch (some c) ifTrue ifFalse).startBlock
        (if on then ifTrue else ifFalse)) b₂)
      (hs : Lays second after T ((b₂.jump after).startBlock (if on then ifFalse else ifTrue)) b₃) :
      Lays (.twoWays test c on first second) l T b ((b₃.jump after).startBlock after)
  | detour {c : Binding} {on : Bool} {way : Code} {l taken after : BlockName} {T : JumpTargets}
      {b b₁ : Builder} (h₁ : taken = b.fresh) (h₂ : after = b.created.fresh)
      (hw : Lays way after T ((b.created.created.branchOn c on taken after).startBlock taken) b₁) :
      Lays (.detour c on way) l T b (b₁.startBlock after)
  | join {ways : Code} {l after : BlockName} {T : JumpTargets} {b b₁ : Builder}
      (h₁ : after = b.fresh) (hw : Lays ways after T b.created b₁) :
      Lays (.join ways) l T b (b₁.startBlock after)
  | clause {on : Bool} {test body : Code} {c : Binding} {l taken : BlockName} {T : JumpTargets}
      {b b₁ b₂ : Builder} (h₁ : taken = b.fresh) (ht : Lays test l T b.created b₁)
      (hb : Lays body l T ((b₁.branchOn c on taken l).startBlock taken) b₂) :
      Lays (.clause on test c body) l T b (b₂.jump l)
  | clauseElse {on : Bool} {test body rest : Code} {c : Binding} {l taken other : BlockName}
      {T : JumpTargets} {b b₁ b₂ b₃ : Builder} (h₁ : taken = b.fresh)
      (h₂ : other = b.created.fresh) (ht : Lays test l T b.created.created b₁)
      (hb : Lays body l T ((b₁.branchOn c on taken other).startBlock taken) b₂)
      (hr : Lays rest l T ((b₂.jump l).startBlock other) b₃) :
      Lays (.clauseElse on test c body rest) l T b b₃
  | test {inner : Code} {c : Binding} {l failed : BlockName} {T : JumpTargets} {b b₁ : Builder}
      (h₁ : failed = b.fresh) (hi : Lays inner l T b.created b₁) :
      Lays (.test inner c) l T b ((b₁.branch (some c) l failed).startBlock failed)
  | select {tests body : Code} {l bodyBlock : BlockName} {T : JumpTargets} {b b₁ b₂ : Builder}
      (h₁ : bodyBlock = b.fresh) (ht : Lays tests bodyBlock T b.created b₁)
      (hb : Lays body l T (b₁.suspend.2.startBlock bodyBlock) b₂) :
      Lays (.select tests body) l T b ((b₂.jump l).resume b₁.suspend.1)
  | loop {on : Bool} {test body again : Code} {c c' : Binding}
      {l bodyBlock after pretest : BlockName} {T T' : JumpTargets} {b b₁ b₂ b₃ : Builder}
      (h₁ : bodyBlock = b.fresh) (h₂ : after = b.created.fresh)
      (h₃ : pretest = b.created.created.fresh) (hT : T' = T.inLoop after pretest bodyBlock)
      (ht : Lays test after T'
        ((b.created.created.created.note (.targetsNow T')).startBlock pretest) b₁)
      (hb : Lays body after T' ((b₁.branchOn c on bodyBlock after).startBlock bodyBlock) b₂)
      (ha : Lays again after T' b₂ b₃) :
      Lays (.loop on test c body again c') l T b
        (((b₃.branchOn c' on bodyBlock after).note (.targetsRestored T)).startBlock after)
  | block {body : Code} {l bodyBlock : BlockName} {T : JumpTargets} {b b₁ : Builder}
      (h₁ : bodyBlock = b.fresh)
      (hb : Lays body bodyBlock T ((b.created.jump bodyBlock).startBlock bodyBlock) b₁) :
      Lays (.block body) l T b b₁
  | guarded {copies : JumpKind → Code} {body ensure : Code} {l : BlockName} {r : Region}
      (hc : ∀ c ∈ r.copies, Lays (copies c.kind) c.landing r.targets c.start c.done)
      (hb : Lays body r.bodyBlock r.bodyTargets r.bodyStart r.left)
      (he : Lays ensure r.ensureBlock r.targets r.clauseStart r.done) :
      Lays (.guarded copies body ensure) l r.targets r.start r.finish
  | blockCall {params : List Parameter} {closure : Binding} {dest : Option Binding}
      {callee : Callee} {request body : Code} {args : Arguments} {v : Binding}
      {l after bodyBlock landing : BlockName} {T T' : JumpTargets} {b b₁ b₂ b₃ b₄ : Builder}
      (h₁ : after = b.fresh) (h₂ : closure = b.created.allocTemp.1)
      (h₃ : b₁ = b.created.allocTemp.2) (h₄ : bodyBlock = b₁.fresh)
      (hr : Lays request after T (b₁.created.emit (.closure closure params bodyBlock)) b₂)
      (h₅ : b₃ = (b₂.emit (.send dest callee args (.body bodyBlock))).branch none bodyBlock after)
      (h₆ : landing = b₃.fresh) (hT : T' = T.inLoop after landing bodyBlock)
      (hb : Lays body bodyBlock T'
        ((b₃.reserveBlock.2.note (.targetsNow T')).startBlock bodyBlock) b₄) :
      Lays (.blockCall params closure dest callee request args body v) l T b
        ((((b₄.endRun v bodyBlock after).note (.targetsRestored T)).land landing bodyBlock
          after).startBlock after)

end ControlFlow
