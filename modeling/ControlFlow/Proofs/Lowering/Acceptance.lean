import ControlFlow.Proofs.Lowering.Entering
/-!
# The trees that are lowered

A tree is lowered if its nodes stand where they may, its jumps have something to leave, all that is
used by name is known, and it is not too deep, and only then. The walk over a node succeeds where
the node can be walked, and otherwise fails for something that the node can be blamed for. This is
shown for each kind of node from the schemes that it is lowered by.

The main results are `Lowering.build_accepts` and `Lowering.blamed_of_build`.
-/

namespace ControlFlow

/-! ## Lists of nodes -/

namespace Lowering

open WalkT WalkT.Accepts

/-- The walks over a node succeed where the node can be walked, and fail for what the node can be
blamed for. -/
structure Succeeds (env : Environment) (n : Node) : Prop where
  value : (value env n : Walk Binding).Accepts (n.Blamed env .value) (n.Runs env .value)
  effect : (effect env n : Walk Unit).Accepts (n.Blamed env .effect) (n.Runs env .effect)

/-- The walks over all nodes below a node succeed where these can be walked. -/
def SucceedsBelow (env : Environment) (n : Node) : Prop := ∀ c, n.Holds c → Succeeds env c

/-- A child is walked in its mode where it can be, with errors in `F`. -/
def Answers (env : Environment) (F : Blame) : Role × WalkMode × Node → Prop
  | (_, .value, c) => (value env c : Walk Binding).Accepts F (c.Runs env .value)
  | (_, .effect, c) => (effect env c : Walk Unit).Accepts F (c.Runs env .effect)

/-- An element of a list, which may be spliced, is walked with errors in `F`. -/
def ItemAnswers (env : Environment) (F : Blame) (mode : WalkMode) : Node → Prop
  | .mk _ (.splat c) => Answers env F (.value, mode, c)
  | c => Answers env F (.element, mode, c)

attribute [local simp] Kind.visits

variable {env : Environment} {F : Blame} {mode μ : WalkMode} {info : Info} {kind : Kind Node}
  {role : Role} {ns : List Node} {result : Option Binding}

variable (h : SucceedsBelow env (.mk info kind))

include h

lemma SucceedsBelow.child {c : Node} (mem : (role, μ, c) ∈ kind.visits mode) :
    Succeeds env c ∧ SucceedsBelow env c := by
  have field : (role, c) ∈ kind.fields := (Kind.mem_fields_iff mode).2 ⟨μ, mem⟩
  have child : c ∈ kind.children := Kind.mem_children.2 ⟨role, field⟩
  exact ⟨h c (.child child), fun d hd => h d (.inner child hd)⟩

variable (hF : F.Covers env mode (.mk info kind))

include hF

/-- An expression or statement below a node is walked with errors that the node is blamed for. -/
lemma SucceedsBelow.walked (v : Role × WalkMode × Node)
    (mem : v ∈ kind.visits mode) (plain : v.1.isPlain = true) : Answers env F v := by
  obtain ⟨role, μ, c⟩ := v
  obtain ⟨succeeds, -⟩ := h.child mem
  cases μ with
  | value => exact succeeds.value.mono fun d e => hF.walked mem (Or.inl plain)
  | effect => exact succeeds.effect.mono fun d e => hF.walked mem (Or.inl plain)

lemma SucceedsBelow.all (role : Role) (μ : WalkMode) (ns : List Node)
    (mem : ∀ v ∈ Kind.inMode role μ ns, v ∈ kind.visits mode) (plain : role.isPlain = true) :
    ∀ n ∈ ns, Answers env F (role, μ, n) :=
  fun _ hn => h.walked hF _ (mem _ (List.mem_map.2 ⟨_, hn, rfl⟩)) plain

lemma SucceedsBelow.statements (role : Role) (μ : WalkMode) (ns : List Node)
    (mem : ∀ v ∈ Kind.statements role μ ns, v ∈ kind.visits mode) (plain : role.isPlain = true) :
    ∀ v ∈ Kind.statements role μ ns, Answers env F v := by
  intro v hv
  have same : v.1 = role := by
    have field : (v.1, v.2.2) ∈ Kind.inRole role ns := by
      rw [← Kind.map_statements role μ]
      exact List.mem_map.2 ⟨v, hv, rfl⟩
    exact (Kind.mem_inRole.1 field).1
  exact h.walked hF v (mem v hv) (same ▸ plain)

/-- The elements of a list below a node are walked with errors that the node is blamed for. -/
lemma SucceedsBelow.items (role : Role) (μ : WalkMode) (ns : List Node)
    (mem : ∀ v ∈ Kind.inMode role μ ns, v ∈ kind.visits mode) (item : role.isItem = true) :
    ∀ n ∈ ns, ItemAnswers env F μ n := by
  intro n hn
  have visit : (role, μ, n) ∈ kind.visits mode := mem _ (List.mem_map.2 ⟨n, hn, rfl⟩)
  obtain ⟨succeeds, below⟩ := h.child visit
  by_cases splat : n.isSplat = true
  · obtain ⟨ni, nk⟩ := n
    cases nk
    case splat c => exact below.walked (hF.spliced visit item) (.value, μ, c) (by simp) rfl
    all_goals cases splat
  · have single : n.isSplat = false := by simpa using splat
    have walked : Answers env F (.element, μ, n) := by
      cases μ with
      | value => exact succeeds.value.mono fun d e => hF.walked visit (Or.inr ⟨item, single⟩)
      | effect => exact succeeds.effect.mono fun d e => hF.walked visit (Or.inr ⟨item, single⟩)
    obtain ⟨ni, nk⟩ := n
    cases nk <;> first | exact walked | cases single

omit h hF

/-- An element that is not spliced is walked as an expression. -/
lemma ItemAnswers.single {n : Node} (h : ItemAnswers env F .value n) (mem : n ∈ ns)
    (single : ns.any (·.isSplat) = false) :
    (value env n : Walk Binding).Accepts F (n.RunsItem env .value) := by
  rw [Node.runsItem_eq single mem]
  have plain := List.any_eq_false.1 single n mem
  obtain ⟨ni, nk⟩ := n
  cases nk <;> first | exact h | exact absurd rfl plain

lemma body_accepts (hn : ∀ v ∈ Kind.statements role .value ns, Answers env F v) :
    (body env ns : Walk Binding).Accepts F (Kind.RunsAll env .value ns) := by
  induction ns with
  | nil => exact constTemp .nil
  | cons n ns ih =>
    cases ns with
    | nil => exact hn (role, .value, n) (.head _)
    | cons n' ns =>
      obtain ⟨here, below⟩ := List.forall_mem_cons.1 hn
      exact Accepts.bind (w := effect env n) here fun _ => ih below

lemma effects_accepts (hn : ∀ n ∈ ns, Answers env F (role, .effect, n)) :
    (effects env ns : Walk Unit).Accepts F fun d J => ∀ n ∈ ns, n.Runs env .effect d J := by
  induction ns with
  | nil => exact (Accepts.pure ()).congr fun _ _ => by simp
  | cons n ns ih =>
    obtain ⟨here, below⟩ := List.forall_mem_cons.1 hn
    exact (Accepts.bind (w := effect env n) here fun _ => ih below).congr
      fun _ _ => by rw [List.forall_mem_cons]

lemma discarded_accepts (hn : ∀ v ∈ Kind.statements role .effect ns, Answers env F v) :
    (effects env ns : Walk Unit).Accepts F (Kind.RunsAll env .effect ns) := by
  have all : ∀ n ∈ ns, Answers env F (role, .effect, n) := by
    induction ns with
    | nil => exact fun n hn => absurd hn List.not_mem_nil
    | cons n ns ih =>
      cases ns with
      | nil => simpa [Kind.statements] using hn
      | cons n' ns =>
        obtain ⟨here, below⟩ := List.forall_mem_cons.1 hn
        exact List.forall_mem_cons.2 ⟨here, ih below⟩
  exact (effects_accepts all).congr fun _ _ => Kind.runsAll_effect.symm

lemma into_body (hn : ∀ v ∈ Kind.statements role (.ofResult result) ns, Answers env F v) :
    (Construction.into result (body env ns) (effects env ns) : Walk Unit).Accepts F
      (Kind.RunsAll env (.ofResult result) ns) := by
  cases result with
  | some dest => exact (body_accepts hn).bind_free fun v => copy dest v
  | none => exact discarded_accepts hn

lemma into_node {n : Node} (hn : Answers env F (role, .ofResult result, n)) :
    (Construction.into result (value env n) (effect env n) : Walk Unit).Accepts F
      (n.Runs env (.ofResult result)) := by
  cases result with
  | some dest => exact bind_free (w := value env n) hn fun v => copy dest v
  | none => exact hn

lemma values_accepts {P : Node → Need}
    (hn : ∀ n ∈ ns, (value env n : Walk Binding).Accepts F (P n)) :
    (values env ns : Walk (List Binding)).Accepts F fun d J => ∀ n ∈ ns, P n d J := by
  induction ns with
  | nil => exact (Accepts.pure []).congr fun _ _ => by simp
  | cons n ns ih =>
    obtain ⟨here, below⟩ := List.forall_mem_cons.1 hn
    exact (here.bind fun _ => (ih below).bind_free fun _ => Accepts.pure _).congr
      fun _ _ => by rw [List.forall_mem_cons]

lemma concat_accepts (text : Binding) (hn : ∀ n ∈ ns, Answers env F (role, .value, n)) :
    (concat env text ns : Walk Binding).Accepts F fun d J => ∀ n ∈ ns, n.Runs env .value d J := by
  induction ns generalizing text with
  | nil => exact (Accepts.pure text).congr fun _ _ => by simp
  | cons n ns ih =>
    obtain ⟨here, below⟩ := List.forall_mem_cons.1 hn
    exact (Accepts.bind (w := value env n) here fun v =>
      (callValue text "concat" [v]).free_bind fun longer => ih longer below).congr
        fun _ _ => by rw [List.forall_mem_cons]

lemma elements_accepts (klass array : Binding) (hn : ∀ n ∈ ns, ItemAnswers env F .value n) :
    (elements env klass array ns : Walk Unit).Accepts F
      fun d J => ∀ n ∈ ns, n.RunsItem env .value d J := by
  induction ns with
  | nil => exact (Accepts.pure ()).congr fun _ _ => by simp
  | cons n ns ih =>
    obtain ⟨here, below⟩ := List.forall_mem_cons.1 hn
    have rest := ih below
    obtain ⟨ni, nk⟩ := n
    cases nk
    case splat c =>
      exact (Accepts.bind (w := value env c) here fun v =>
        (spliceValue klass array v).free_bind fun _ => rest).congr
          fun _ _ => by rw [List.forall_mem_cons, Node.RunsItem]
    all_goals
      exact (Accepts.bind (w := value env _) here fun v =>
        (call none array "<<" [v]).free_bind fun _ => rest).congr
          fun _ _ => by rw [List.forall_mem_cons, Node.RunsItem]; simp

lemma discards_accepts (hn : ∀ n ∈ ns, ItemAnswers env F .effect n) :
    (discards env ns : Walk Unit).Accepts F fun d J => ∀ n ∈ ns, n.RunsItem env .effect d J := by
  induction ns with
  | nil => exact (Accepts.pure ()).congr fun _ _ => by simp
  | cons n ns ih =>
    obtain ⟨here, below⟩ := List.forall_mem_cons.1 hn
    have rest := ih below
    obtain ⟨ni, nk⟩ := n
    cases nk
    case splat c =>
      exact (Accepts.bind (w := effect env c) here fun _ => rest).congr
        fun _ _ => by rw [List.forall_mem_cons, Node.RunsItem]
    all_goals
      exact (Accepts.bind (w := effect env _) here fun _ => rest).congr
        fun _ _ => by rw [List.forall_mem_cons, Node.RunsItem]; simp

lemma candidates_accepts (subject : Binding) (hn : ∀ n ∈ ns, Answers env F (role, .value, n)) :
    List.Forall₂ (WalkT.Accepts · F) (candidates env subject ns : List (Walk Binding))
      (ns.map (·.Runs env .value)) := by
  induction ns with
  | nil => exact .nil
  | cons n ns ih =>
    obtain ⟨here, below⟩ := List.forall_mem_cons.1 hn
    exact .cons (bind_free (w := value env n) here fun v => callValue v "===" [subject]) (ih below)

/-! ## Clauses and blocks -/

lemma alternative_of_some (other : Option Node)
    (h : ∀ n ∈ other.toList, (alternative env result (some n) : Alternative Walk).Accepts F
      (n.RunsAlternative env (.ofResult result))) :
    (alternative env result other : Alternative Walk).Accepts F
      fun d J => ∀ n ∈ other.toList, n.RunsAlternative env (.ofResult result) d J := by
  cases other with
  | none => exact (nothingElse result).congr fun _ _ => by simp
  | some n => exact (h n (.head _)).congr fun _ _ => by simp

lemma alternative_accepts (n : Node) (hn : SucceedsBelow env n)
    (hF : n.kind.IsAlternative → F.Covers env (.ofResult result) n)
    (refused : ¬ n.kind.IsAlternative →
      ∀ d, F d (.atNode n.info (.misplaced n.kind.tag .conditionalClause))) :
    (alternative env result (some n) : Alternative Walk).Accepts F
      (n.RunsAlternative env (.ofResult result)) := by
  -- the alternatives of an alternative lie below it
  induction n using Node.induction_below with
  | step n ih =>
    obtain ⟨info, kind⟩ := n
    have next : ∀ (hF : F.Covers env (.ofResult result) (.mk info kind)), ∀ c,
        (.alternative, .ofResult result, c) ∈ kind.visits (.ofResult result) →
          (alternative env result (some c) : Alternative Walk).Accepts F
            (c.RunsAlternative env (.ofResult result)) := by
      intro hF c visit
      have child : c ∈ kind.children :=
        Kind.mem_children.2 ⟨_, (Kind.mem_fields_iff _).2 ⟨_, visit⟩⟩
      exact ih c (.child child) (hn.child visit).2
        (fun takes => hF.part visit (by simp) takes) fun wrong => hF.refused visit wrong
    have demands : ∀ d J, kind.IsAlternative ∧ kind.Demands env info (.ofResult result) d J ↔
        (Node.mk info kind).RunsAlternative env (.ofResult result) d J :=
      fun d J => and_congr_right fun _ => Node.fine_iff_demands.symm
    refine Alternative.Accepts.congr ?_ demands
    cases kind
    case ifThen c stmts other | elsif c stmts other =>
      have hF := hF trivial
      have rest := alternative_of_some other fun n hm => next hF n
        (.tail _ (List.mem_append_right _ (List.mem_map.2 ⟨n, hm, rfl⟩)))
      have hc := hn.walked hF (.condition, .value, c) (by simp) rfl
      have hs := hn.statements hF .body (.ofResult result) stmts (by simp +contextual) rfl
      exact (Alternative.Accepts.clause hc (into_body hs) rest).congr
        fun _ _ => (and_iff_right (by trivial)).symm
    case ifMod c n =>
      have hF := hF trivial
      have hc := hn.walked hF (.condition, .value, c) (by simp) rfl
      have hb := hn.walked hF (.body, .ofResult result, n) (by simp) rfl
      exact (Alternative.Accepts.clause hc (into_node hb) (nothingElse result)).congr
        fun _ _ => (and_congr_right' (and_iff_left trivial)).trans (and_iff_right (by trivial)).symm
    case elseThen stmts =>
      have hF := hF trivial
      have hs := hn.statements hF .body (.ofResult result) stmts (by simp +contextual) rfl
      exact (Alternative.Accepts.last (into_body hs)).congr
        fun _ _ => (and_iff_right (by trivial)).symm
    all_goals
      exact (Alternative.Accepts.last (Accepts.failAt (refused not_false))).congr
        fun _ _ => by simp only [Kind.IsAlternative, false_and]

variable {types : String → Option Binding} {other : Option (List Node)}

lemma otherwise_accepts
    (hn : ∀ v ∈ Kind.statements role (.ofResult result) (other.getD []), Answers env F v) :
    (otherwise env result other : Alternative Walk).Accepts F
      (Kind.RunsAll env (.ofResult result) (other.getD [])) := by
  cases other with
  | none => exact nothingElse result
  | some stmts => exact .last (into_body hn)

lemma remaining_accepts
    (hn : ∀ v ∈ Kind.statements role (.ofResult result) (other.getD []), Answers env F v) :
    (remaining env result other : Walk Unit).Accepts F
      (Kind.RunsAll env (.ofResult result) (other.getD [])) := by
  cases other with
  | none => exact deliverNil result
  | some stmts => exact into_body hn

/-- The clauses of a `case` succeed where each of them does, and what is left for other cases. -/
lemma cases_accepts (subject : Binding) {unmatched : Walk Unit} {P : Need}
    (hu : unmatched.Accepts F P) (hn : ∀ n ∈ ns, SucceedsBelow env n)
    (hF : ∀ n ∈ ns, n.kind.IsClause → F.Covers env (.ofResult result) n)
    (refused : ∀ n ∈ ns, ¬ n.kind.IsClause →
      ∀ d, F d (.atNode n.info (.misplaced n.kind.tag .caseClause))) :
    (cases env result subject unmatched ns).Accepts F
      fun d J => (∀ n ∈ ns, n.RunsClause env (.ofResult result) d J) ∧ P d J := by
  induction ns with
  | nil => exact (Clauses.Accepts.last hu).congr fun _ _ => by simp
  | cons n ns ih =>
    rw [List.forall_mem_cons] at hn hF refused
    obtain ⟨info, kind⟩ := n
    cases kind
    case whenThen cs stmts =>
      have here := hF.1 trivial
      have hc := hn.1.all here .candidate .value cs (by simp +contextual) rfl
      have hs := hn.1.statements here .body (.ofResult result) stmts (by simp +contextual) rfl
      refine (Clauses.Accepts.clause (candidates_accepts subject hc) (into_body hs)
        (ih hn.2 hF.2 refused.2)).congr fun d J => ?_
      simp only [List.forall_mem_cons, List.forall_mem_map, Node.RunsClause, Node.fine_iff_demands]
      show _ ↔ ((True ∧ (∀ n ∈ cs, n.Runs env .value d J) ∧ _) ∧ _) ∧ _
      tauto
    -- the walk ends at a node that is no clause, whatever follows it
    all_goals
      exact (Clauses.Accepts.last (Accepts.failAt (refused.1 not_false))).congr fun _ _ => by
        simp only [List.forall_mem_cons, Node.RunsClause, Node.kind, Kind.IsClause, false_and]

lemma receiver_accepts {r : Option Node} (self : r = none → info.scope = none → F.Lacks info)
    (hn : ∀ n ∈ r.toList, Answers env F (role, .value, n)) :
    (receiver env info r : Walk Binding).Accepts F fun d J =>
      (r = none → info.scope.isSome) ∧ ∀ n ∈ r.toList, n.Runs env .value d J := by
  cases r with
  | none => exact (selfTemp "call" (self rfl)).congr fun _ _ => by simp
  | some n => exact congr (w := value env n) (hn n (.head _)) fun _ _ => by simp

lemma arguments_accepts
    (unknown : ns.any (·.isSplat) = true → env.types "Array" = none → F.Lacks info)
    (hn : ∀ n ∈ ns, ItemAnswers env F .value n) :
    (arguments ns (Construction.aggregate env info fun klass array => elements env klass array ns)
      (values env ns) : Walk Arguments).Accepts F fun d J =>
        (ns.any (·.isSplat) → (env.types "Array").isSome) ∧
          ∀ n ∈ ns, n.RunsItem env .value d J := by
  unfold arguments
  cases spliced : ns.any (·.isSplat) with
  | true =>
    exact ((aggregate (unknown spliced) fun klass array => elements_accepts klass array hn).bind_free
      fun _ => Accepts.pure _).congr fun _ _ => by simp
  | false =>
    exact ((values_accepts fun n mem => (hn n mem).single mem spliced).bind_free
      fun _ => Accepts.pure _).congr fun d J => by simp

/-- A call succeeds where its arguments do and its block does, if it has only one. -/
lemma send_accepts (h : SucceedsBelow env (.mk info kind))
    (hF : F.Covers env mode (.mk info kind)) (dest : Option Binding) (callee : Callee)
    {args : Walk Arguments} {P : Need} (pass block : Option Node) (ha : args.Accepts F P)
    (passMem : Kind.inMode .blockPass .value pass.toList ⊆ kind.visits mode)
    (blockMem : Kind.inMode .block .value block.toList ⊆ kind.visits mode)
    (one : kind.OneBlock → pass = none ∨ block = none) :
    (Construction.send info dest callee args (passed env pass) (literal env block)).Accepts F
      fun d J => P d J ∧ (pass = none ∨ block = none) ∧
        (∀ n ∈ pass.toList, n.Runs env .value d J) ∧ ∀ n ∈ block.toList, n.RunsBlock env d J := by
  cases block with
  | none =>
    cases pass with
    | none => exact (ha.bind_free fun values => emit _ rfl).congr fun _ _ => by simp
    | some v =>
      have hv := h.walked hF (.blockPass, .value, v) (passMem (.head _)) rfl
      exact (ha.bind fun values => bind_free (w := value env v) hv fun _ => emit _ rfl).congr
        fun _ _ => by simp
  | some n =>
    have visit : (.block, .value, n) ∈ kind.visits mode := blockMem (.head _)
    have below := (h.child visit).2
    have covers := hF.part visit (by simp)
    have wrong := hF.refused visit
    obtain ⟨blockInfo, block⟩ := n
    cases pass with
    | some v =>
      have two : ∀ d, F d (.atNode info .twoBlocks) :=
        fun d => hF d _ (.twoBlocks fun oneBlock => by simpa using one oneBlock)
      cases block <;> exact (Accepts.failAt two).congr fun _ _ => by simp
    | none =>
      cases block
      case doBlock params stmts =>
        have hs := below.statements (covers trivial) .body .value stmts (by simp +contextual) rfl
        refine (blockCall params dest callee ha (body_accepts hs)).congr fun d J => ?_
        have runs : (Node.mk blockInfo (.doBlock params stmts)).RunsBlock env d J ↔
            Kind.RunsAll env .value stmts d (J ∪ JumpKind.ofLoop) := by
          rw [Node.RunsBlock, Node.fine_iff_demands]
          exact and_iff_right trivial
        simp [runs]
      all_goals
        exact (Accepts.failAt (wrong not_false)).congr fun _ _ => by
          simp [Node.RunsBlock, Node.kind, Kind.IsBlock]

/-! ## Nodes -/

lemma returned_accepts
    (unknown : (ns.any (·.isSplat) ∨ 1 < ns.length) → env.types "Array" = none → F.Lacks info)
    (hn : ∀ n ∈ ns, ItemAnswers env F .value n) :
    (if ns.any (·.isSplat) || 1 < ns.length then
      Construction.aggregate env info fun klass array => elements env klass array ns
    else body env ns : Walk Binding).Accepts F fun d J =>
      ((ns.any (·.isSplat) ∨ 1 < ns.length) → (env.types "Array").isSome) ∧
        ∀ n ∈ ns, n.RunsItem env .value d J := by
  split_ifs with several
  · have several : ns.any (·.isSplat) ∨ 1 < ns.length := by simpa using several
    exact (aggregate (unknown several) fun klass array => elements_accepts klass array hn).congr
      fun _ _ => by rw [imp_iff_right several]
  · obtain ⟨single, short⟩ : ns.any (·.isSplat) = false ∧ ns.length ≤ 1 := by simpa using several
    match ns, short with
    | [], _ => exact (constTemp .nil).congr fun _ _ => by simp
    | [n], _ =>
      exact ((hn n (.head _)).single (.head _) single).congr fun _ _ => by simp [single]

/-- The target of an assignment is blamed for lacking a binding. -/
lemma unbound {target : Info} {name : String}
    (hF : F.Covers env .value (.mk target (.varTarget name))) (none : target.binding = none) :
    F.Lacks target :=
  hF.absent id rfl none

/-- A construct succeeds where its demands are met, whether it fills a result or not. -/
lemma construct_accepts (result : Option Binding) (h : SucceedsBelow env (.mk info kind))
    (hF : F.Covers env (.ofResult result) (.mk info kind)) (filled : kind.delivery info ≠ .own) :
    (construct env info result kind : Walk Unit).Accepts F
      (kind.Demands env info (.ofResult result)) := by
  -- the demands of a construct are those of its operations, one behind the other
  cases kind
  case command parts =>
    have hp := h.all hF .part .value parts (by simp +contextual) rfl
    exact (constTemp _).free_bind fun start => (concat_accepts start hp).bind fun text =>
      (selfBinding _ (hF.absent (fun known _ => known) trivial)).bind_free fun receiver =>
        call result receiver _ [text]
  case varRef name =>
    have unbound : info.binding.isSome = false := by simpa [Kind.delivery] using filled
    refine ((selfTemp _ fun none => hF.lacks ?_).bind_free fun receiver =>
      call result receiver name []).congr fun _ _ => ?_
    · simp [Kind.Annotated, none, unbound]
    · show _ ↔ info.binding.isSome ∨ info.scope.isSome
      simp [unbound]
  case opAssign target op v =>
    have hv := h.walked hF (.value, .value, v) (by simp) rfl
    have visit : (.target, .value, target) ∈
        (Kind.opAssign target op v).visits (.ofResult result) := .head _
    have below := (h.child visit).2
    obtain ⟨targetInfo, target⟩ := target
    cases target
    case varTarget name =>
      exact (updateVariable op result (unbound (hF.part visit (by simp) trivial)) hv).congr
        fun _ _ => and_congr_left' Node.runsTarget_varTarget.symm
    case fieldTarget r name =>
      have hr := below.walked (hF.part visit (by simp) trivial) (.receiver, .value, r) (by simp) rfl
      exact (updateField op name result hr hv).congr
        fun _ _ => and_congr_left' (Node.runsTarget_fieldTarget (by trivial)).symm
    all_goals
      exact (Accepts.failAt (hF.refused visit not_false)).congr
        fun _ _ => iff_of_false id fun h => h.1.1
  case binary l op r =>
    have short : op.shortCircuits = true := by simpa [Kind.delivery] using filled
    have hl := h.walked hF (.left, .value, l) (by simp) rfl
    have hr := h.walked hF (.right, .ofResult result, r) (by simp [short]) rfl
    refine (Accepts.bind (w := value env l) (Q := r.Runs env (.ofResult result)) hl
      fun lhs => ?_).congr fun _ _ => ?_
    · cases result with
      | some dest =>
        exact decideOrEvaluate op lhs dest (bind_free (w := value env r) hr fun v => copy dest v)
      | none => exact skipOrEvaluate op lhs hr
    · show _ ↔ l.Runs env .value _ _ ∧ r.Runs env (if op.shortCircuits then _ else _) _ _
      rw [if_pos short]
  case ifThen c stmts other =>
    have hc := h.walked hF (.condition, .value, c) (by simp) rfl
    have hs := h.statements hF .body (.ofResult result) stmts (by simp +contextual) rfl
    refine conditional true hc (into_body hs) (alternative_of_some other fun n hm => ?_)
    have visit : (.alternative, .ofResult result, n) ∈
        (Kind.ifThen c stmts other).visits (.ofResult result) :=
      .tail _ (List.mem_append_right _ (List.mem_map.2 ⟨n, hm, rfl⟩))
    exact alternative_accepts n (h.child visit).2 (fun takes => hF.part visit (by simp) takes)
      fun wrong => hF.refused visit wrong
  case ifMod c n | unlessMod c n =>
    have hc := h.walked hF (.condition, .value, c) (by simp) rfl
    have hn := h.walked hF (.body, .ofResult result, n) (by simp) rfl
    exact (conditional _ hc (into_node hn) (nothingElse result)).congr
      fun _ _ => and_congr_right' (and_iff_left trivial)
  case unlessThen c stmts other =>
    have hc := h.walked hF (.condition, .value, c) (by simp) rfl
    have hs := h.statements hF .body (.ofResult result) stmts (by simp +contextual) rfl
    have ho := h.statements hF .otherwise (.ofResult result) (other.getD [])
      (by simp +contextual) rfl
    exact conditional false hc (into_body hs) (otherwise_accepts ho)
  case case n clauses other =>
    have hn := h.walked hF (.subject, .value, n) (by simp) rfl
    have ho := h.statements hF .otherwise (.ofResult result) (other.getD [])
      (by simp +contextual) rfl
    have visit : ∀ c ∈ clauses, (.clause, .ofResult result, c) ∈
        (Kind.case n clauses other).visits (.ofResult result) := by
      intro c hc
      simp [Kind.inMode, hc]
    exact select hn fun subject => cases_accepts subject (remaining_accepts ho)
      (fun c hc => (h.child (visit c hc)).2)
      (fun c hc takes => hF.part (visit c hc) (by simp) takes)
      fun c hc wrong => hF.refused (visit c hc) wrong
  case loop sense c stmts =>
    have hc := h.walked hF (.condition, .value, c) (by simp) rfl
    have hs := h.all hF .body .effect stmts (by simp +contextual) rfl
    exact Accepts.loop sense hc (effects_accepts hs)
  case loopMod sense c n =>
    have hc := h.walked hF (.condition, .value, c) (by simp) rfl
    have hn := h.walked hF (.body, .effect, n) (by simp) rfl
    exact Accepts.loop sense hc hn
  case forIn target n stmts =>
    have hn := h.walked hF (.iterable, .value, n) (by simp) rfl
    have hs := h.statements hF .body .value stmts (by simp +contextual) rfl
    have visit : (.target, .value, target) ∈
        (Kind.forIn target n stmts).visits (.ofResult result) := .head _
    obtain ⟨targetInfo, target⟩ := target
    cases target
    case varTarget name =>
      refine ((resolved _ (unbound (hF.part visit (by simp) trivial))).bind fun slot =>
        Accepts.bind (w := value env n) hn fun receiver =>
          blockCall [⟨slot, .required⟩] result _ (Accepts.pure _) (body_accepts hs)).congr
            fun _ _ => ?_
      show _ ↔ Node.RunsTarget env _ (.mk targetInfo (.varTarget name)) _ _ ∧ _ ∧ _
      rw [Node.runsTarget_varTarget, true_and]
    all_goals
      exact (Accepts.failAt (hF.refused visit not_false)).congr
        fun _ _ => iff_of_false id fun h => h.1.1
  case guarded stmts ensure =>
    have hs := h.statements hF .body (.ofResult result) stmts (by simp +contextual) rfl
    have he := h.all hF .ensure .effect (ensure.getD []) (by simp +contextual) rfl
    cases ensure with
    | none => exact (unguarded (into_body hs)).congr fun _ _ => (and_iff_left (by simp)).symm
    | some clause => exact Accepts.guarded (into_body hs) (effects_accepts he)
  case returnWith args =>
    have ha := h.items hF .arg .value args (by simp +contextual) rfl
    exact returnValue (fun d => hF d _ (.adrift rfl)) (returned_accepts (hF.absent id) ha)
  case breakWith args | nextWith args =>
    have ha := h.items hF .arg .effect args (by simp +contextual) rfl
    exact Accepts.jumpOut (fun d => hF d _ (.adrift rfl)) (discards_accepts ha)
  case redo =>
    exact (Accepts.jumpOut (fun d => hF d _ (.adrift rfl)) (Accepts.pure ())).congr
      fun _ _ => and_iff_left trivial
  case call r method args pass block =>
    have hr := h.all hF .receiver .value r.toList (by simp +contextual) rfl
    have ha := h.items hF .arg .value args (by simp +contextual) rfl
    exact (receiver_accepts (hF.absent And.left) hr).bind fun receiver =>
      send_accepts h hF result _ pass block (arguments_accepts (hF.absent And.right) ha)
        (fun v hv => by simp [hv]) (fun v hv => by simp [hv]) id
  case super args pass block =>
    have ha := h.items hF .arg .value args (by simp +contextual) rfl
    exact send_accepts h hF result _ pass block (arguments_accepts (hF.absent id) ha)
      (fun v hv => by simp [hv]) (fun v hv => by simp [hv]) id
  case zsuper block =>
    unfold construct
    cases scope : info.scope.bind (·.method) with
    | none =>
      have unknown : ¬ (Kind.zsuper block).Annotated env.types info (.ofResult result) := by
        rintro ⟨method, known, -⟩
        rw [scope] at known
        cases known
      exact (Accepts.failAt fun d => hF.lacks unknown d _ rfl).congr
        fun _ _ => iff_of_false id fun h => unknown h.1
    | some method =>
      have unknown : (∃ p ∈ method.params, p.kind = .rest) → env.types "Array" = none →
          F.Lacks info := by
        refine hF.absent ?_
        rintro ⟨method', known, registered⟩
        rw [scope] at known
        cases known
        exact registered
      refine (send_accepts h hF result .super none block (parameters unknown)
        (fun v hv => absurd hv List.not_mem_nil) (fun v hv => by simpa using hv)
          fun _ => Or.inl rfl).congr fun _ _ => ?_
      show _ ↔ (∃ method', info.scope.bind (·.method) = some method' ∧ _) ∧ _
      simp [scope]
  all_goals exact absurd rfl filled

/-- An operator that always evaluates both operands does something with their values. -/
lemma binary_accepts {α : Type} {l r : Node} {op : BinaryOp} {k : Binding → Binding → Walk α}
    (h : SucceedsBelow env (.mk info (.binary l op r)))
    (hF : F.Covers env mode (.mk info (.binary l op r)))
    (own : (Kind.binary l op r).delivery info = .own)
    (hk : ∀ lhs rhs, (k lhs rhs).Accepts F fun _ _ => True) :
    (value env l >>= fun lhs => value env r >>= k lhs).Accepts F
      ((Kind.binary l op r).Demands env info mode) := by
  have eager : op.shortCircuits = false := by simpa [Kind.delivery] using own
  have hl := h.walked hF (.left, .value, l) (by simp) rfl
  have hr := h.walked hF (.right, .value, r) (by simp [eager]) rfl
  refine (Accepts.bind (w := value env l) hl fun lhs =>
    bind_free (w := value env r) hr (hk lhs)).congr fun _ _ => ?_
  show _ ↔ l.Runs env .value _ _ ∧ r.Runs env (if op.shortCircuits then _ else _) _ _
  simp [eager]

/-- The rules of their own by which nodes deliver values succeed where demands are met. -/
lemma ownValue_accepts (h : SucceedsBelow env (.mk info kind))
    (hF : F.Covers env .value (.mk info kind)) (own : kind.delivery info = .own)
    (walkable : kind.Walkable) :
    (ownValue env info kind : Walk Binding).Accepts F (kind.Demands env info .value) := by
  cases kind
  case program stmts | paren stmts =>
    exact body_accepts (h.statements hF .body .value stmts (by simp +contextual) rfl)
  case begin n => exact h.walked hF (.body, .value, n) (by simp) rfl
  case void | literal c | content text => exact constTemp _
  case str parts =>
    exact (constTemp _).free_bind fun start =>
      concat_accepts start (h.all hF .part .value parts (by simp +contextual) rfl)
  case embed stmts =>
    exact (body_accepts (h.statements hF .body .value stmts (by simp +contextual) rfl)).bind_free
      fun v => callValue v "to_s" []
  case regexp parts options =>
    have hp := h.all hF .part .value parts (by simp +contextual) rfl
    exact congr ((constTemp _).free_bind fun start => (concat_accepts start hp).bind fun text =>
      (constTemp _).free_bind fun opts => (wellKnown (hF.absent id rfl)).bind_free
        fun klass => callValue klass "new" [text, opts])
          fun _ _ => and_congr_right' (imp_iff_right rfl).symm
  case array items =>
    exact congr (aggregate (hF.absent id rfl) fun klass array =>
      elements_accepts klass array (h.items hF .element .value items (by simp +contextual) rfl))
        fun _ _ => and_congr_left' (imp_iff_right rfl).symm
  case selfRef =>
    exact (selfTemp "self" (hF.absent id rfl)).congr fun _ _ => (imp_iff_right rfl).symm
  case varRef name =>
    have bound : info.binding.isSome := by
      simpa [Kind.delivery, Option.isSome_iff_ne_none] using own
    refine ((resolved _ fun none => ?_).bind_free fun b => readVariable b).congr
      fun _ _ => ⟨fun _ => Or.inl bound, fun _ => bound⟩
    simp [none] at bound
  case varTarget name =>
    exact ((resolved _ (unbound hF)).bind_free fun b => readVariable b).congr
      fun _ _ => (imp_iff_right rfl).symm
  case assign target v =>
    have hv := h.walked hF (.value, .value, v) (by simp) rfl
    have visit : (.target, .value, target) ∈ (Kind.assign target v).visits .value := .head _
    have below := (h.child visit).2
    obtain ⟨targetInfo, target⟩ := target
    cases target
    case varTarget name =>
      exact (assignVariable (unbound (hF.part visit (by simp) trivial)) hv).congr
        fun _ _ => and_congr_left' Node.runsTarget_varTarget.symm
    case fieldTarget r name =>
      have hr := below.walked (hF.part visit (by simp) trivial) (.receiver, .value, r) (by simp) rfl
      exact (assignField name hr hv).congr
        fun _ _ => and_congr_left' (Node.runsTarget_fieldTarget (by trivial)).symm
    all_goals
      exact (Accepts.failAt (hF.refused visit not_false)).congr
        fun _ _ => iff_of_false id fun h => h.1.1
  case binary l op r =>
    exact binary_accepts h hF own fun lhs rhs => callValue lhs op.method [rhs]
  case unary op n =>
    exact bind_free (w := value env n) (h.walked hF (.operand, .value, n) (by simp) rfl)
      fun v => callValue v op.method []
  all_goals contradiction

lemma ownEffect_accepts (h : SucceedsBelow env (.mk info kind))
    (hF : F.Covers env .effect (.mk info kind)) (own : kind.delivery info = .own)
    (walkable : kind.Walkable) :
    (ownEffect env info kind : Walk Unit).Accepts F (kind.Demands env info .effect) := by
  cases kind
  case program stmts | paren stmts | embed stmts =>
    exact discarded_accepts (h.statements hF .body .effect stmts (by simp +contextual) rfl)
  case begin n => exact h.walked hF (.body, .effect, n) (by simp) rfl
  case void | literal c | content text => exact Accepts.pure ()
  case selfRef | varTarget name =>
    refine (Accepts.pure ()).congr fun _ _ => ?_
    show True ↔ (WalkMode.effect = .value → _)
    simp
  case varRef name =>
    have bound : info.binding.isSome := by
      simpa [Kind.delivery, Option.isSome_iff_ne_none] using own
    exact (Accepts.pure ()).congr fun _ _ => iff_of_true trivial (Or.inl bound)
  case str parts => exact effects_accepts (h.all hF .part .effect parts (by simp +contextual) rfl)
  case regexp parts options =>
    exact (effects_accepts (h.all hF .part .effect parts (by simp +contextual) rfl)).congr
      fun _ _ => (and_iff_left (by simp)).symm
  case array items =>
    exact (discards_accepts (h.items hF .element .effect items (by simp +contextual) rfl)).congr
      fun _ _ => (and_iff_right (by simp)).symm
  case assign target v =>
    have hv := h.walked hF (.value, .value, v) (by simp) rfl
    have visit : (.target, .value, target) ∈ (Kind.assign target v).visits .effect := .head _
    have below := (h.child visit).2
    obtain ⟨targetInfo, target⟩ := target
    cases target
    case varTarget name =>
      refine ((assignVariable (unbound (hF.part visit (by simp) trivial)) hv).bind_free
        fun _ => Accepts.pure ()).congr fun _ _ => ?_
      exact and_congr_left' Node.runsTarget_varTarget.symm
    case fieldTarget r name =>
      have hr := below.walked (hF.part visit (by simp) trivial) (.receiver, .value, r) (by simp) rfl
      refine ((assignField name hr hv).bind_free fun _ => Accepts.pure ()).congr fun _ _ => ?_
      exact and_congr_left' (Node.runsTarget_fieldTarget (by trivial)).symm
    all_goals
      exact (Accepts.failAt (hF.refused visit not_false)).congr
        fun _ _ => iff_of_false id fun h => h.1.1
  case binary l op r =>
    exact binary_accepts h hF own fun lhs rhs => call none lhs op.method [rhs]
  case unary op n =>
    exact bind_free (w := value env n) (h.walked hF (.operand, .value, n) (by simp) rfl)
      fun v => call none v op.method []
  all_goals contradiction

/-- A node without a value needs the same in both modes. -/
lemma demands_of_nothing (nothing : kind.delivery info = .nothing) (mode mode' : WalkMode) :
    kind.Demands env info mode = kind.Demands env info mode' := by
  cases kind
  case binary l op r => cases short : op.shortCircuits <;> simp [Kind.delivery, short] at nothing
  all_goals first | rfl | contradiction

/-- A node without a value has the same faults in both modes. -/
lemma faulty_of_nothing {d : Nat} {e : LowerError} (nothing : kind.delivery info = .nothing)
    (h : (Node.mk info kind).Faulty env.types env.maxDepth .effect d e) :
    (Node.mk info kind).Faulty env.types env.maxDepth .value d e := by
  have visits : kind.visits .effect = kind.visits .value := by
    cases kind
    case binary l op r => cases short : op.shortCircuits <;> simp [Kind.delivery, short] at nothing
    all_goals first | rfl | contradiction
  cases h with
  | unannotated missing named =>
    refine .unannotated (fun known => missing ?_) named
    cases kind <;> first | exact known | contradiction
  | adrift jump => exact .adrift jump
  | twoBlocks two => exact .twoBlocks two
  | @misplaced _ μ _ _ _ role c mem wrong =>
    have refusal : kind.refusal info .effect role μ c = kind.refusal info .value role μ c := by
      cases role <;> first | rfl | (cases kind <;> first | rfl | contradiction)
    rw [refusal]
    exact .misplaced (visits ▸ mem) wrong
  | tooDeep mem entered full => exact .tooDeep (visits ▸ mem) entered full
  | inside mem takes inner => exact .inside (visits ▸ mem) takes inner

/-- A node that is no expression or statement is refused. -/
lemma succeeds_of_misplaced (misplaced : ¬ kind.Walkable) : Succeeds env (.mk info kind) := by
  have never : ∀ mode d J, d < env.maxDepth ∧ False ↔ (Node.mk info kind).Runs env mode d J :=
    fun mode d J => by simp [Node.Runs, Node.kind, misplaced]
  have blamed : ∀ mode d e, (env.maxDepth ≤ d ∧ e = .atNode info (.depth env.maxDepth) ∨
      e = .atNode info (.misplaced kind.tag (WalkMode.place mode))) →
        (Node.mk info kind).Blamed env mode d e :=
    fun mode d e h => h.imp_right fun told => Or.inl ⟨misplaced, told⟩
  -- such a node has no other rule than the one that refuses it
  constructor
  · unfold value
    refine ((Accepts.nested (P := fun _ _ => False)
      (F := fun _ e => e = .atNode info (.misplaced kind.tag .expression)) env info ?_).congr
        (never .value)).mono (blamed .value)
    cases kind <;> first | exact absurd trivial misplaced | exact Accepts.failAt fun _ => rfl
  · unfold effect
    refine ((Accepts.nested (P := fun _ _ => False)
      (F := fun _ e => e = .atNode info (.misplaced kind.tag .statement)) env info ?_).congr
        (never .effect)).mono (blamed .effect)
    cases kind <;> first | exact absurd trivial misplaced | exact Accepts.failAt fun _ => rfl

/-- The walks over an expression or statement succeed if those over the nodes below it do. -/
lemma succeeds_of_below (h : SucceedsBelow env (.mk info kind)) (walkable : kind.Walkable) :
    Succeeds env (.mk info kind) := by
  have runs : ∀ mode d J, d < env.maxDepth ∧ kind.Demands env info mode (d + 1) J ↔
      (Node.mk info kind).Runs env mode d J := fun mode d J => by
    rw [Node.Runs, Node.fine_iff_demands, Node.kind, and_iff_right walkable]
  have covers : ∀ mode, Blame.Covers
      ((Node.mk info kind).Faulty env.types env.maxDepth mode) env mode (.mk info kind) :=
    fun mode d e faulty => faulty
  have blamed : ∀ mode d e, (env.maxDepth ≤ d ∧ e = .atNode info (.depth env.maxDepth) ∨
      (Node.mk info kind).Faulty env.types env.maxDepth mode (d + 1) e) →
        (Node.mk info kind).Blamed env mode d e :=
    fun mode d e h => h.imp_right fun faulty => Or.inr ⟨walkable, faulty⟩
  constructor
  · unfold value
    refine ((Accepts.nested (F := Node.Faulty _ _ .value (.mk info kind)) env info ?_).congr
      (runs .value)).mono (blamed .value)
    cases delivery : kind.delivery info with
    | own => exact ownValue_accepts h (covers .value) delivery walkable
    | filled =>
      have filled : kind.delivery info ≠ .own := by simp [delivery]
      exact allocTemp.free_bind fun t =>
        (construct_accepts (some t) h (covers .value) filled).bind_free fun _ => Accepts.pure t
    | nothing =>
      have filled : kind.delivery info ≠ .own := by simp [delivery]
      rw [demands_of_nothing delivery .value .effect]
      exact ((construct_accepts none h (covers .effect) filled).mono
        fun d e => faulty_of_nothing delivery).bind_free fun _ => constTemp .nil
  · unfold effect
    refine ((Accepts.nested (F := Node.Faulty _ _ .effect (.mk info kind)) env info ?_).congr
      (runs .effect)).mono (blamed .effect)
    cases delivery : kind.delivery info with
    | own => exact ownEffect_accepts h (covers .effect) delivery walkable
    | filled | nothing =>
      have filled : kind.delivery info ≠ .own := by simp [delivery]
      exact construct_accepts none h (covers .effect) filled

/-- The walks over a node succeed where the node can be walked, and nowhere else, and fail for
nothing that the node cannot be blamed for. -/
theorem succeeds (env : Environment) (n : Node) : Succeeds env n := by
  induction n using Node.induction_below with
  | step n below =>
    obtain ⟨info, kind⟩ := n
    by_cases walkable : kind.Walkable
    · exact succeeds_of_below below walkable
    · exact succeeds_of_misplaced walkable

/-! ## Whole trees -/

lemma wholeTree_accepts (env : Environment) (root : Node) :
    (wholeTree env root).Accepts (root.Blamed env .value) (root.Runs env .value) :=
  (succeeds env root).value.bind_free fun _ => Accepts.build_bind (Accepts.build _)

lemma kinds_rootTargets : rootTargets.kinds = {.return} := by
  ext kind
  cases kind <;> simp [JumpTargets.kinds, rootTargets, JumpTargets.get?]

lemma exists_build_iff {host : Host} {options : Options} {root : Node} :
    (∃ g, build host types options root = .ok g) ↔ options.hasStack host = true ∧
      ∃ u s, (wholeTree ⟨types, options.maxDepth⟩ root).Yields (initial options root) u s := by
  constructor
  · rintro ⟨g, built⟩
    obtain ⟨stack, s, yields, -⟩ := run_eq_ok_iff.1 (run_of_build built)
    exact ⟨stack, (), s, yields⟩
  · rintro ⟨stack, ⟨⟩, s, yields⟩
    refine ⟨s.builder.graph, ?_⟩
    rw [build, run_eq_ok_iff.2 ⟨stack, s, yields, rfl, rfl⟩]

/-- **A tree is lowered** if and only if there is stack for it, its nodes stand where they may, all
of its jumps but `return` lie in what they leave, what it uses by name is known where it is used,
and it is not too deep. -/
theorem build_accepts (host : Host) (types : String → Option Binding) (options : Options)
    (root : Node) :
    (∃ g, build host types options root = .ok g) ↔
      options.hasStack host = true ∧ root.WellPlaced ∧ root.exits ⊆ {.return} ∧
        root.Annotated types .value ∧ root.depth ≤ options.maxDepth := by
  have walked : (∃ u s, (wholeTree ⟨types, options.maxDepth⟩ root).Yields
      (initial options root) u s) ↔ root.Runs ⟨types, options.maxDepth⟩ .value 0 rootTargets.kinds :=
    (wholeTree_accepts ⟨types, options.maxDepth⟩ root).iff (b := start options root)
  rw [exists_build_iff, walked, kinds_rootTargets, Node.Runs, Node.WellPlaced, Node.depth]
  refine and_congr_right fun _ => ?_
  constructor
  · rintro ⟨walkable, level, fine⟩
    obtain ⟨placed, exits, annotated, depth⟩ := (Node.fine_iff root level).1 fine
    exact ⟨⟨walkable, placed⟩, exits, annotated, (Nat.add_comm _ _).trans_le depth⟩
  · rintro ⟨⟨walkable, placed⟩, exits, annotated, depth⟩
    have level : 0 < options.maxDepth := by omega
    exact ⟨walkable, level, (Node.fine_iff root level).2 ⟨placed, exits, annotated, by omega⟩⟩

/-- The error of a tree that cannot be lowered is one that its root can be blamed for. -/
theorem blamed_of_build {host : Host} {options : Options} {root : Node} {e : LowerError}
    (stack : options.hasStack host = true) (h : build host types options root = .error e) :
    root.Blamed ⟨types, options.maxDepth⟩ .value 0 e := by
  rw [build, run_of_stack stack] at h
  rcases ended : outcome types options root with ⟨r, s⟩
  rw [ended] at h
  cases r with
  | ok u => cases h
  | error e' =>
    cases h
    exact (wholeTree_accepts _ root).fails
      (show (wholeTree _ root).Fails (initial options root) e s from ended)

end Lowering

end ControlFlow
