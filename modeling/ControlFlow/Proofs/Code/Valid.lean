import ControlFlow.Proofs.Code.Moves
/-!
# What moves keep

At every point of a layout the blocks that are neither pending nor current are ended, edges agree
with terminators, and every binding that an instruction reads holds a value. Each move keeps this, so
sequences of moves do.
-/

namespace ControlFlow

/-- What holds of a layout at every point. -/
structure Layout.Valid (G : Layout) : Prop where
  nodup : G.builder.graph.names.Nodup
  enter : .enter ∈ G.builder.graph.names
  exit : .exit ∈ G.builder.graph.names
  known : ∀ n ∈ G.builder.graph.names, G.builder.Knows n
  pending : ∀ n ∈ G.pending, G.builder.Knows n ∧ n ≠ .exit ∧ ¬ G.builder.At n ∧
    G.builder.graph.Open n
  scope : ∀ n ∈ G.scope, G.builder.Knows n ∧ n ≠ .enter ∧
    (n ∈ G.builder.graph.names ∨ n ∈ G.pending)
  current : ∀ n, G.builder.At n → n ∈ G.builder.graph.names ∧ n ≠ .exit ∧
    G.builder.graph.Open n ∧ G.now ⊆ G.label n ∪ Instruction.allDefs (G.builder.graph.code n)
  ended : ∀ n ∈ G.builder.graph.names, n ≠ .exit → n ∉ G.pending → ¬ G.builder.At n →
    G.builder.graph.Ended n
  empty_exit : G.builder.graph.code .exit = [] ∧ G.builder.graph.successors .exit = []
  edges : ∀ e ∈ G.builder.graph.edges, e.source ∈ G.builder.graph.names ∧
    e.target ∈ G.builder.graph.names ∧ e.target ≠ .enter ∧
    G.label e.target ⊆
      G.label e.source ∪ Instruction.allDefs (G.builder.graph.code e.source)
  ready : ∀ n p i q, G.builder.graph.code n = p ++ i :: q →
    i.Ready (G.label n ∪ Instruction.allDefs p)

namespace Move

variable {G G' : Layout} {b : Builder}

lemma valid_quiet (hG : G.Valid) (graph : b.graph = G.builder.graph)
    (current : b.current = G.builder.current) (next : b.nextBlock = G.builder.nextBlock) :
    Layout.Valid { G with builder := b } := by
  have hk : ∀ n, b.Knows n ↔ G.builder.Knows n := fun n => by simp [Builder.Knows, next]
  have ha : ∀ n, b.At n ↔ G.builder.At n := fun n => by simp [Builder.At, current]
  exact {
    nodup := by simpa [graph] using hG.nodup
    enter := by simpa [graph] using hG.enter
    exit := by simpa [graph] using hG.exit
    known := by simpa [graph, hk] using hG.known
    pending := by simpa [graph, hk, ha] using hG.pending
    scope := by simpa [graph, hk] using hG.scope
    current := by simpa [graph, ha] using hG.current
    ended := by simpa [graph, ha] using hG.ended
    empty_exit := by simpa [graph] using hG.empty_exit
    edges := by simpa [graph] using hG.edges
    ready := by simpa [graph] using hG.ready }

lemma not_mem_fresh (hG : G.Valid) : G.builder.fresh ∉ G.builder.graph.names :=
  fun h => G.builder.not_knows_fresh (hG.known _ h)

lemma open_fresh (hG : G.Valid) : G.builder.graph.Open G.builder.fresh := by
  constructor
  · simp [Graph.code_eq_nil _ (not_mem_fresh hG)]
  · refine List.eq_nil_iff_forall_not_mem.2 fun t ht => not_mem_fresh hG ?_
    exact (hG.edges _ ((Graph.mem_successors _).1 ht)).1

lemma not_at_fresh (hG : G.Valid) : ¬ G.builder.At G.builder.fresh :=
  fun h => not_mem_fresh hG (hG.current _ h).1

/-- What every move that gives out a name keeps of the facts about labels. -/
lemma facts_fresh (hG : G.Valid) (s : Set Binding) :
    (∀ e ∈ G.builder.graph.edges,
      Function.update G.label G.builder.fresh s e.target ⊆
        Function.update G.label G.builder.fresh s e.source ∪
          Instruction.allDefs (G.builder.graph.code e.source)) ∧
    ∀ n p i q, G.builder.graph.code n = p ++ i :: q →
      i.Ready (Function.update G.label G.builder.fresh s n ∪ Instruction.allDefs p) := by
  constructor
  · intro e he
    obtain ⟨hs, ht, -, hl⟩ := hG.edges e he
    rwa [Function.update_of_ne (hG.known _ hs).ne_fresh,
      Function.update_of_ne (hG.known _ ht).ne_fresh]
  · intro n p i q hc
    have hn : n ≠ G.builder.fresh := by
      rintro rfl
      rw [Graph.code_eq_nil _ (not_mem_fresh hG)] at hc
      simp at hc
    rw [Function.update_of_ne hn]
    exact hG.ready n p i q hc

/-- A name is given out, for a block of the graph or not. -/
lemma valid_fresh (hG : G.Valid) (s : Set Binding)
    (graph : b.graph = G.builder.graph ∨ b.graph = G.builder.graph.addBlock G.builder.fresh)
    (current : b.current = G.builder.current) (next : b.nextBlock = G.builder.nextBlock + 1) :
    Layout.Valid { G with
      builder := b
      label := Function.update G.label G.builder.fresh s
      pending := insert G.builder.fresh G.pending
      scope := insert G.builder.fresh G.scope } := by
  have hk : ∀ n, b.Knows n ↔ G.builder.Knows n ∨ n = G.builder.fresh := fun n => by
    rw [← Builder.knows_created]
    simp [Builder.Knows, next]
  have ha : ∀ n, b.At n ↔ G.builder.At n := fun n => by simp [Builder.At, current]
  have hcode : ∀ n, b.graph.code n = G.builder.graph.code n := fun n => by
    rcases graph with h | h <;> simp [h]
  have hsucc : ∀ n, b.graph.successors n = G.builder.graph.successors n := fun n => by
    rcases graph with h | h <;> simp [h]
  have hedges : b.graph.edges = G.builder.graph.edges := by
    rcases graph with h | h <;> simp [h]
  have hnames : ∀ n, n ∈ G.builder.graph.names → n ∈ b.graph.names := fun n hn => by
    rcases graph with h | h <;> simp [h, hn]
  have hnames' : ∀ n, n ∈ b.graph.names → n ∈ G.builder.graph.names ∨ n = G.builder.fresh :=
    fun n hn => by rcases graph with h | h <;> simp_all
  have hopen : ∀ n, b.graph.Open n ↔ G.builder.graph.Open n := fun n => by
    simp [Graph.Open, hcode, hsucc]
  have hended : ∀ n, b.graph.Ended n ↔ G.builder.graph.Ended n := fun n => by
    simp [Graph.Ended, hcode, hsucc]
  have hne : G.builder.fresh ≠ .exit ∧ G.builder.fresh ≠ .enter := by simp [Builder.fresh]
  -- the new name has no code and no edges: only the lists of names change
  obtain ⟨flow, ready⟩ := facts_fresh hG s
  exact {
    nodup := by
      rcases graph with h | h
      · simpa [h] using hG.nodup
      · simpa [h] using Graph.nodup_names_addBlock _ hG.nodup
    enter := hnames _ hG.enter
    exit := hnames _ hG.exit
    known := fun n hn => (hk n).2 ((hnames' n hn).imp_left (hG.known n))
    pending := by
      rintro n (rfl | hn)
      · exact ⟨(hk _).2 (Or.inr rfl), hne.1, fun h => not_at_fresh hG ((ha _).1 h),
          (hopen _).2 (open_fresh hG)⟩
      · obtain ⟨h₁, h₂, h₃, h₄⟩ := hG.pending n hn
        exact ⟨(hk n).2 (Or.inl h₁), h₂, fun h => h₃ ((ha n).1 h), (hopen n).2 h₄⟩
    scope := by
      rintro n (rfl | hn)
      · exact ⟨(hk _).2 (Or.inr rfl), hne.2, Or.inr (Or.inl rfl)⟩
      · obtain ⟨h₁, h₂, h₃⟩ := hG.scope n hn
        exact ⟨(hk n).2 (Or.inl h₁), h₂, h₃.imp (hnames n) Or.inr⟩
    current := by
      intro n hn
      obtain ⟨h₁, h₂, h₃, h₄⟩ := hG.current n ((ha n).1 hn)
      refine ⟨hnames n h₁, h₂, (hopen n).2 h₃, ?_⟩
      simpa [hcode, Function.update_of_ne (hG.known n h₁).ne_fresh] using h₄
    ended := by
      intro n hn hx hp ha'
      refine (hended n).2 ?_
      rcases hnames' n hn with hn | rfl
      · exact hG.ended n hn hx (fun h => hp (Or.inr h)) fun h => ha' ((ha n).2 h)
      · exact absurd (Or.inl rfl) hp
    empty_exit := by simpa [hcode, hsucc] using hG.empty_exit
    edges := by
      intro e he
      rw [hedges] at he
      obtain ⟨h₁, h₂, h₃, -⟩ := hG.edges e he
      exact ⟨hnames _ h₁, hnames _ h₂, h₃, by simpa [hcode] using flow e he⟩
    ready := by simpa [hcode] using ready }

section Emission

variable {n : BlockName} {i : Instruction}

/-- Every instruction of a block that gets one more is ready. -/
lemma ready_append (hG : G.Valid) (at_ : G.builder.At n) (ready : i.Ready G.now)
    {p q : List Instruction} {j : Instruction}
    (h : G.builder.graph.code n ++ [i] = p ++ j :: q) :
    j.Ready (G.label n ∪ Instruction.allDefs p) := by
  rcases List.eq_nil_or_concat q with rfl | ⟨q, k, rfl⟩
  · obtain ⟨rfl, hij⟩ := List.append_inj' h rfl
    obtain rfl : i = j := by simpa using hij
    exact ready.mono (hG.current n at_).2.2.2
  · rw [List.concat_eq_append, ← List.cons_append, ← List.append_assoc] at h
    exact hG.ready n p j q (List.append_inj' h rfl).1

lemma code_emit (hG : G.Valid) (at_ : G.builder.At n) :
    (G.builder.emit i).graph.code n = G.builder.graph.code n ++ [i] := by
  simp [Builder.emit_eq at_, Graph.code_push_self _ (hG.current n at_).1]

lemma code_emit_of_ne (at_ : G.builder.At n) {m : BlockName} (h : m ≠ n) :
    (G.builder.emit i).graph.code m = G.builder.graph.code m := by
  simp [Builder.emit_eq at_, Graph.code_push_of_ne _ h]

lemma successors_emit (at_ : G.builder.At n) (m : BlockName) :
    (G.builder.emit i).graph.successors m =
      G.builder.graph.successors m ++ if m = n then i.targets else [] := by
  simp [Builder.emit_eq at_, Graph.successors_connect]

lemma allDefs_code_emit (at_ : G.builder.At n) (m : BlockName) :
    Instruction.allDefs (G.builder.graph.code m) ⊆
      Instruction.allDefs ((G.builder.emit i).graph.code m) := by
  simp only [Builder.emit_eq at_, Graph.code_connect, Graph.code_push]
  split
  · rw [Instruction.allDefs_append]
    exact Set.subset_union_left
  · exact subset_rfl

/-- An instruction is added to the current block, whether it ends the block or not. -/
lemma valid_emit {now : Set Binding} (hG : G.Valid) (at_ : G.builder.At n) (ready : i.Ready G.now)
    (targets : ∀ t ∈ i.targets, t ∈ G.scope ∧ G.label t ⊆ G.now)
    (stays : i.isTerminator = false → now ⊆ G.now ∪ i.defs) :
    Layout.Valid { G with builder := G.builder.emit i, now := now } := by
  obtain ⟨hn, hx, hopen, hnow⟩ := hG.current n at_
  have hk : ∀ m, (G.builder.emit i).Knows m ↔ G.builder.Knows m := fun m => by
    rw [Builder.emit_eq at_]
    rfl
  have ha : ∀ m, (G.builder.emit i).At m ↔ m = n ∧ i.isTerminator = false := fun m => by
    cases ends : i.isTerminator <;> simp [Builder.emit_eq at_, ends, Builder.At, eq_comm]
  have ha' : ∀ m, G.builder.At m ↔ m = n := fun m => by
    rw [Builder.At, at_, Option.some_inj, eq_comm]
  have hnames : ∀ m, m ∈ (G.builder.emit i).graph.names ↔
      m ∈ G.builder.graph.names ∨ m ∈ i.targets := fun m => by
    simp [Builder.emit_eq at_]
  have hedges : (G.builder.emit i).graph.edges =
      G.builder.graph.edges ++ i.targets.map (⟨n, ·⟩) := by
    simp [Builder.emit_eq at_]
  have hsucc : ∀ m, m ≠ n →
      (G.builder.emit i).graph.successors m = G.builder.graph.successors m :=
    fun m hm => by simp [successors_emit at_, hm]
  -- only the block `n` changes, and only the targets of the instruction may be new in the graph
  exact {
    nodup := by
      simpa [Builder.emit_eq at_] using Graph.nodup_names_connect _ (by simpa using hG.nodup)
    enter := (hnames _).2 (Or.inl hG.enter)
    exit := (hnames _).2 (Or.inl hG.exit)
    known := fun m hm => (hk m).2 (((hnames m).1 hm).elim (hG.known m)
      fun ht => (hG.scope m (targets m ht).1).1)
    pending := by
      intro m hm
      obtain ⟨h₁, h₂, h₃, h₄⟩ := hG.pending m hm
      have hne : m ≠ n := fun e => h₃ ((ha' m).2 e)
      exact ⟨(hk m).2 h₁, h₂, fun h => hne ((ha m).1 h).1,
        by simpa [Graph.Open, code_emit_of_ne at_ hne, hsucc m hne] using h₄⟩
    scope := by
      intro m hm
      obtain ⟨h₁, h₂, h₃⟩ := hG.scope m hm
      exact ⟨(hk m).2 h₁, h₂, h₃.imp_left fun h => (hnames m).2 (Or.inl h)⟩
    current := by
      intro m hm
      obtain ⟨rfl, plain⟩ := (ha m).1 hm
      refine ⟨(hnames m).2 (Or.inl hn), hx, ⟨?_, ?_⟩, ?_⟩
      · rw [code_emit hG at_]
        exact List.forall_mem_append.2 ⟨hopen.1, by simpa using plain⟩
      · simp [successors_emit at_, Instruction.targets_eq_nil plain, hopen.2]
      · rw [code_emit hG at_, Instruction.allDefs_append, Instruction.allDefs_singleton,
          ← Set.union_assoc]
        exact (stays plain).trans (Set.union_subset_union_left _ hnow)
    ended := by
      intro m hm hx' hp hat
      by_cases hmn : m = n
      · subst hmn
        have ends : i.isTerminator = true := by simpa [ha] using hat
        exact ⟨_, i, code_emit hG at_, hopen.1, ends, by simp [successors_emit at_, hopen.2]⟩
      · have hm' : m ∈ G.builder.graph.names := ((hnames m).1 hm).elim id fun ht =>
          (hG.scope m (targets m ht).1).2.2.resolve_right hp
        have := hG.ended m hm' hx' hp fun h => hmn ((ha' m).1 h)
        simpa [Graph.Ended, code_emit_of_ne at_ hmn, hsucc m hmn] using this
    empty_exit := by
      simpa [code_emit_of_ne at_ (Ne.symm hx), hsucc _ (Ne.symm hx)] using hG.empty_exit
    edges := by
      intro e he
      rw [hedges] at he
      rcases List.mem_append.1 he with he | he
      · obtain ⟨h₁, h₂, h₃, h₄⟩ := hG.edges e he
        exact ⟨(hnames _).2 (Or.inl h₁), (hnames _).2 (Or.inl h₂), h₃,
          h₄.trans (Set.union_subset_union_right _ (allDefs_code_emit at_ _))⟩
      · obtain ⟨t, ht, rfl⟩ := List.mem_map.1 he
        obtain ⟨hscope, hlabel⟩ := targets t ht
        exact ⟨(hnames _).2 (Or.inl hn), (hnames _).2 (Or.inr ht), (hG.scope t hscope).2.1,
          (hlabel.trans hnow).trans (Set.union_subset_union_right _ (allDefs_code_emit at_ _))⟩
    ready := by
      intro m p j q hc
      by_cases hm : m = n
      · subst hm
        rw [code_emit hG at_] at hc
        exact ready_append hG at_ ready hc
      · rw [code_emit_of_ne at_ hm] at hc
        exact hG.ready m p j q hc }

end Emission

/-- A block becomes the current one, whether it is begun or gone on with. -/
lemma valid_begin {n : BlockName} {s : Set Binding} (hG : G.Valid) (none : G.builder.current = none)
    (mem : n ∈ G.pending) (graph : b.graph = G.builder.graph.addBlock n)
    (current : b.current = some n) (next : b.nextBlock = G.builder.nextBlock)
    (holds : s ⊆ G.label n ∪ Instruction.allDefs (G.builder.graph.code n)) :
    Layout.Valid { G with builder := b, now := s, pending := G.pending \ {n} } := by
  obtain ⟨hknows, hx, -, hopen⟩ := hG.pending n mem
  have hk : ∀ m, b.Knows m ↔ G.builder.Knows m := fun m => by simp [Builder.Knows, next]
  have ha : ∀ m, b.At m ↔ m = n := fun m => by simp [Builder.At, current, eq_comm]
  have hopen' : ∀ m, b.graph.Open m ↔ G.builder.graph.Open m := fun m => by
    simp [Graph.Open, graph]
  have hnames : ∀ m, m ∈ b.graph.names ↔ m ∈ G.builder.graph.names ∨ m = n := fun m => by
    simp [graph]
  exact {
    nodup := by simpa [graph] using Graph.nodup_names_addBlock _ hG.nodup
    enter := (hnames _).2 (Or.inl hG.enter)
    exit := (hnames _).2 (Or.inl hG.exit)
    known := fun m hm => (hk m).2 (((hnames m).1 hm).elim (hG.known m) fun e => e ▸ hknows)
    pending := by
      rintro m ⟨hm, hne⟩
      obtain ⟨h₁, h₂, -, h₄⟩ := hG.pending m hm
      exact ⟨(hk m).2 h₁, h₂, fun h => hne ((ha m).1 h), (hopen' m).2 h₄⟩
    scope := by
      intro m hm
      obtain ⟨h₁, h₂, h₃⟩ := hG.scope m hm
      refine ⟨(hk m).2 h₁, h₂, ?_⟩
      by_cases hmn : m = n
      · exact Or.inl ((hnames m).2 (Or.inr hmn))
      · exact h₃.imp (fun h => (hnames m).2 (Or.inl h)) fun h => ⟨h, hmn⟩
    current := by
      intro m hm
      obtain rfl := (ha m).1 hm
      exact ⟨(hnames m).2 (Or.inr rfl), hx, (hopen' m).2 hopen, by simpa [graph] using holds⟩
    ended := by
      intro m hm hx' hp hat
      have hmn : m ≠ n := fun e => hat ((ha m).2 e)
      have := hG.ended m (((hnames m).1 hm).resolve_right hmn) hx' (fun h => hp ⟨h, hmn⟩)
        (by simp [Builder.At, none])
      simpa [Graph.Ended, graph] using this
    empty_exit := by simpa [graph] using hG.empty_exit
    edges := by
      intro e he
      simp only [graph, Graph.edges_addBlock] at he
      obtain ⟨h₁, h₂, h₃, h₄⟩ := hG.edges e he
      exact ⟨(hnames _).2 (Or.inl h₁), (hnames _).2 (Or.inl h₂), h₃, by simpa [graph] using h₄⟩
    ready := by simpa [graph] using hG.ready }

lemma valid_suspend {n : BlockName} (hG : G.Valid) (at_ : G.builder.At n) :
    Layout.Valid { G with
      builder := G.builder.suspend.2
      now := Set.univ
      pending := insert n G.pending } := by
  obtain ⟨hn, hx, hopen, -⟩ := hG.current n at_
  have ha : ∀ m, ¬ G.builder.suspend.2.At m := fun m h => by cases h
  have ha' : ∀ m, G.builder.At m ↔ m = n := fun m => by
    rw [Builder.At, at_, Option.some_inj, eq_comm]
  exact {
    nodup := hG.nodup
    enter := hG.enter
    exit := hG.exit
    known := hG.known
    pending := by
      rintro m (rfl | hm)
      · exact ⟨hG.known m hn, hx, ha m, hopen⟩
      · obtain ⟨h₁, h₂, -, h₄⟩ := hG.pending m hm
        exact ⟨h₁, h₂, ha m, h₄⟩
    scope := fun m hm => by
      obtain ⟨h₁, h₂, h₃⟩ := hG.scope m hm
      exact ⟨h₁, h₂, h₃.imp_right Or.inr⟩
    current := fun m hm => absurd hm (ha m)
    ended := fun m hm hx' hp _ =>
      hG.ended m hm hx' (fun h => hp (Or.inr h)) fun h => hp (Or.inl ((ha' m).1 h))
    empty_exit := hG.empty_exit
    edges := hG.edges
    ready := hG.ready }

lemma valid_drop {n : BlockName} (hG : G.Valid) (unused : n ∉ G.builder.graph.names) :
    Layout.Valid { G with pending := G.pending \ {n}, scope := G.scope \ {n} } :=
  { hG with
    pending := fun m hm => hG.pending m hm.1
    scope := fun m hm => by
      obtain ⟨h₁, h₂, h₃⟩ := hG.scope m hm.1
      exact ⟨h₁, h₂, h₃.imp_right fun h => ⟨h, hm.2⟩⟩
    ended := fun m hm hx hp hat =>
      hG.ended m hm hx (fun h => hp ⟨h, fun e => unused (e ▸ hm)⟩) hat }

lemma valid_forget {scope : Set BlockName} {now : Set Binding} (hG : G.Valid)
    (hs : scope ⊆ G.scope) (hn : now ⊆ G.now) :
    Layout.Valid { G with scope := scope, now := now } :=
  { hG with
    scope := fun m hm => hG.scope m (hs hm)
    current := fun m hm => by
      obtain ⟨h₁, h₂, h₃, h₄⟩ := hG.current m hm
      exact ⟨h₁, h₂, h₃, hn.trans h₄⟩ }

/-- A block that nothing leads to is one that is created and begun at once. -/
lemma valid_openDead (hG : G.Valid) (none : G.builder.current = none) :
    Layout.Valid { G with
      builder := G.builder.opened
      label := Function.update G.label G.builder.fresh Set.univ
      now := Set.univ } := by
  have opened := Builder.opened_eq none
  have begun := valid_begin (b := G.builder.opened) (s := Set.univ)
    (valid_fresh hG Set.univ (Or.inr G.builder.graph_created) rfl rfl) none (Or.inl rfl)
    (by rw [opened]; exact (Graph.addBlock_of_mem _ (by simp)).symm) (by rw [opened])
    (by rw [opened]) (by simp)
  -- no pending block has the name that is given out
  have pending : insert G.builder.fresh G.pending \ {G.builder.fresh} = G.pending := by
    refine Set.insert_sdiff_self_of_notMem fun h => ?_
    exact G.builder.not_knows_fresh (hG.pending _ h).1
  rw [pending] at begun
  exact valid_forget begun (Set.subset_insert _ _) subset_rfl

/-- Every move keeps what holds of a layout. -/
theorem valid (h : Move G G') (hG : G.Valid) : G'.Valid := by
  cases h with
  | quiet graph current next => exact valid_quiet hG graph current next
  | create s => exact valid_fresh hG s (Or.inr rfl) rfl rfl
  | reserve s => exact valid_fresh hG s (Or.inl rfl) rfl rfl
  | openDead none => exact valid_openDead hG none
  | emit plain at_ ready =>
    exact valid_emit hG at_ ready (by simp [Instruction.targets_eq_nil plain]) fun _ => subset_rfl
  | terminate ends at_ ready targets =>
    exact valid_emit hG at_ ready targets fun plain => absurd plain (by simp [ends])
  | @start n none mem =>
    refine valid_begin hG none mem ?_ ?_ ?_ Set.subset_union_left
    all_goals rw [Builder.startBlock_eq none]
  | suspend at_ => exact valid_suspend hG at_
  | resume none mem names holds =>
    exact valid_begin hG none mem (Graph.addBlock_of_mem _ names).symm rfl rfl holds
  | drop mem unused => exact valid_drop hG unused
  | forget hs hn => exact valid_forget hG hs hn

end Move

/-- **Sequences of moves keep what holds of a layout.** -/
theorem Moves.valid {G G' : Layout} (h : Moves G G') (hG : G.Valid) : G'.Valid := by
  induction h with
  | refl => exact hG
  | tail _ h ih => exact h.valid ih

end ControlFlow
