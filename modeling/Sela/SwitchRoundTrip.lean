import Sela.SharedValues

/-!
# Merged switches are each target's own

A shared switch has the cases of all targets, each with the targets that have it, in an order
that is each target's. Of its edges, those a target has are the target's own in their order
(`Yields.mergeSwitch`).
-/

namespace Sela

open Checked Correspondence Stateful

namespace Merger

/-! ## The cases of switches -/

/-- A case has a target's edge. -/
def HasEdge (blocks : TargetInfo → ℕ → Option ℕ) (cases : List Case) (target : TargetInfo)
    (index : ℕ) (edge : Edge) : Prop :=
  ∃ case, cases[index]? = some case ∧ edge.label = some case.label ∧
    blocks target edge.successor = some case.successor ∧ (target, edge.arguments) ∈ case.arguments

/-- The cases of a target's switch, in its order. -/
structure Placement where
  target : TargetInfo
  order : List ℕ
  edges : List Edge

/-- The cases hold the edges of the switches passed, and no others. -/
structure CasesHold (blocks : TargetInfo → ℕ → Option ℕ) (passed : List Placement)
    (cases : List Case) : Prop where
  placed : ∀ placement ∈ passed, List.Forall₂ (HasEdge blocks cases placement.target)
    placement.order placement.edges
  targets : ∀ index case, cases[index]? = some case → case.arguments.map Prod.fst =
    passed.flatMap fun placement =>
      List.replicate (placement.order.count index) placement.target
  uniform : ∀ case ∈ cases, case.arguments ≠ [] ∧
    ∀ entry ∈ case.arguments, entry.2.length = case.count

/-- Cases stay and only take more arguments. -/
def CasesGrow (cases cases' : List Case) : Prop :=
  ∀ (index : ℕ) (case : Case), cases[index]? = some case → ∃ case', cases'[index]? = some case' ∧
    case'.successor = case.successor ∧ case'.label = case.label ∧ case.arguments ⊆ case'.arguments

theorem HasEdge.grows {blocks : TargetInfo → ℕ → Option ℕ} {cases cases' : List Case}
    (hgrows : CasesGrow cases cases') {target : TargetInfo} {index : ℕ} {edge : Edge}
    (h : HasEdge blocks cases target index edge) : HasEdge blocks cases' target index edge := by
  obtain ⟨case, hcase, hlabel, hsuccessor, harguments⟩ := h
  obtain ⟨case', hcase', hsuccessor', hlabel', harguments'⟩ := hgrows index case hcase
  exact ⟨case', hcase', hlabel'.symm ▸ hlabel, hsuccessor'.symm ▸ hsuccessor, harguments' harguments⟩

theorem HasEdge.lt {blocks : TargetInfo → ℕ → Option ℕ} {cases : List Case} {target : TargetInfo}
    {index : ℕ} {edge : Edge} (h : HasEdge blocks cases target index edge) : index < cases.length := by
  obtain ⟨_, hcase, -⟩ := h
  exact (List.getElem?_eq_some_iff.mp hcase).1

theorem CasesHold.lt {blocks : TargetInfo → ℕ → Option ℕ} {passed : List Placement}
    {cases : List Case} (h : CasesHold blocks passed cases) {placement : Placement}
    (hplacement : placement ∈ passed) : ∀ index ∈ placement.order, index < cases.length := by
  intro index hindex
  obtain ⟨edge, -, hedge⟩ := exists_of_forall₂_left (h.placed placement hplacement) hindex
  exact hedge.lt

/-- One more edge of a target. -/
theorem addCase_ok {blocks : TargetInfo → ℕ → Option ℕ} {passed : List Placement}
    {target : TargetInfo} {operation : Operation} {state state' : Cases} {edges : List Edge}
    {entry : Attr × ℕ × ℤ}
    (hstate : CasesHold blocks (passed ++ [⟨target, state.order, edges⟩]) state.cases)
    (h : addCase blocks target operation state entry = .ok state') :
    CasesHold blocks (passed ++ [⟨target, state'.order, edges ++
      [⟨some entry.1, entry.2.1, (operation.operands.drop state.offset).take entry.2.2.toNat⟩]⟩])
      state'.cases ∧
    state'.offset = state.offset + entry.2.2.toNat ∧ 0 ≤ entry.2.2 ∧
      state'.offset ≤ operation.operands.length := by
  obtain ⟨successor, hsuccessor, h⟩ := bind_ok.mp h
  have hsuccessor := require_ok.mp hsuccessor
  obtain ⟨_, hsegment, h⟩ := bind_ok.mp h
  obtain ⟨hcount, hle⟩ := expect_ok.mp hsegment
  obtain ⟨_, huniform, h⟩ := bind_ok.mp h
  have huniform := expect_ok.mp huniform
  obtain rfl := Except.ok.inj h
  refine ⟨?_, rfl, hcount, hle⟩
  obtain ⟨arguments, harguments⟩ : ∃ arguments,
    (operation.operands.drop state.offset).take entry.2.2.toNat = arguments := ⟨_, rfl⟩
  have hlength : arguments.length = entry.2.2.toNat := by
    rw [← harguments, List.length_take, List.length_drop]
    omega
  obtain ⟨placed, hplaced⟩ : ∃ placed, Grouping.place (fun case : Case =>
      decide (case.successor = successor ∧ case.label = entry.1))
    (fun case => { case with arguments := case.arguments ++ [(target, arguments)] })
    ⟨successor, entry.1, [(target, arguments)]⟩ state.cases = placed := ⟨_, rfl⟩
  suffices CasesHold blocks (passed ++ [⟨target, state.order ++ [placed.2],
      edges ++ [⟨some entry.1, entry.2.1, arguments⟩]⟩]) placed.1 by
    subst hplaced harguments
    exact this
  obtain ⟨hsame, hnew⟩ := Grouping.place_getElem? (fun case : Case =>
      decide (case.successor = successor ∧ case.label = entry.1))
    (fun case => { case with arguments := case.arguments ++ [(target, arguments)] })
    ⟨successor, entry.1, [(target, arguments)]⟩ state.cases
  rw [hplaced] at hsame hnew
  have hgrows : CasesGrow state.cases placed.1 := by
    intro index case hcase
    by_cases hindex : index = placed.2
    · rcases hnew with ⟨case', hcase', -, hjoined⟩ | ⟨hlast, -⟩
      · obtain rfl : case = case' := by
          rw [hindex, hcase'] at hcase
          exact (Option.some.inj hcase).symm
        rw [hindex]
        exact ⟨_, hjoined, rfl, rfl, List.subset_append_left _ _⟩
      · rw [hindex, hlast, List.getElem?_eq_none le_rfl] at hcase
        simp at hcase
    · exact ⟨case, (hsame index hindex).trans hcase, rfl, rfl, fun _ => id⟩
  have hedge : HasEdge blocks placed.1 target placed.2 ⟨some entry.1, entry.2.1, arguments⟩ := by
    rcases hnew with ⟨case, -, hfits, hjoined⟩ | ⟨-, hfresh⟩
    · obtain ⟨rfl, hlabel⟩ := of_decide_eq_true hfits
      exact ⟨_, hjoined, congrArg some hlabel.symm, hsuccessor, by simp⟩
    · exact ⟨_, hfresh, rfl, hsuccessor, by simp⟩
  have hcount_of : ∀ index, (state.order ++ [placed.2]).count index =
      state.order.count index + if index = placed.2 then 1 else 0 := by
    intro index
    rw [List.count_append, List.count_singleton]
    by_cases hindex : index = placed.2
    · simp [hindex]
    · rw [if_neg hindex, beq_eq_false_iff_ne.mpr (Ne.symm hindex)]
      rfl
  have htargets : ∀ (index : ℕ) (case : Case), state.cases[index]? = some case →
      case.arguments.map Prod.fst = (passed.flatMap fun placement =>
        List.replicate (placement.order.count index) placement.target) ++
          List.replicate (state.order.count index) target := by
    intro index case hcase
    simpa using hstate.targets index case hcase
  refine ⟨fun placement hplacement => ?_, fun index case hcase => ?_, fun case hcase => ?_⟩
  · rcases List.mem_append.mp hplacement with hplacement | hplacement
    · exact (hstate.placed placement (List.mem_append_left _ hplacement)).imp
        fun _ _ h => h.grows hgrows
    · obtain rfl := List.mem_singleton.mp hplacement
      exact List.rel_append ((hstate.placed ⟨target, state.order, edges⟩ (by simp)).imp
        fun _ _ h => h.grows hgrows) (.cons hedge .nil)
  · rw [List.flatMap_append, List.flatMap_singleton]
    dsimp only
    rw [hcount_of]
    by_cases hindex : index = placed.2
    · rw [if_pos hindex, List.replicate_add, ← List.append_assoc]
      rw [hindex] at hcase ⊢
      rcases hnew with ⟨case', hcase', -, hjoined⟩ | ⟨hlast, hfresh⟩
      · obtain rfl := Option.some.inj (hjoined.symm.trans hcase)
        rw [← htargets _ case' hcase', List.map_append]
        rfl
      · obtain rfl := Option.some.inj (hfresh.symm.trans hcase)
        have hnone : ∀ placement ∈ passed ++ [⟨target, state.order, edges⟩],
            placement.order.count placed.2 = 0 := fun placement hplacement =>
          List.count_eq_zero.mpr fun hmem =>
            Nat.lt_irrefl _ (hlast ▸ hstate.lt hplacement _ hmem)
        rw [show state.order.count placed.2 = 0 from hnone ⟨target, state.order, edges⟩ (by simp),
          List.flatMap_eq_nil_iff.mpr fun placement hplacement => by
          rw [hnone placement (List.mem_append_left _ hplacement)]
          rfl]
        rfl
    · rw [if_neg hindex, Nat.add_zero]
      exact htargets index case ((hsame index hindex).symm.trans hcase)
  · obtain ⟨index, hcase⟩ := List.mem_iff_getElem?.mp hcase
    by_cases hindex : index = placed.2
    · rw [hindex] at hcase
      rcases hnew with ⟨case', hcase', hfits, hjoined⟩ | ⟨-, hfresh⟩
      · obtain rfl := Option.some.inj (hjoined.symm.trans hcase)
        have hmem := List.mem_of_getElem? hcase'
        obtain ⟨hne, hlengths⟩ := hstate.uniform case' hmem
        have hcounts : Case.count { case' with
            arguments := case'.arguments ++ [(target, arguments)] } = case'.count := by
          unfold Case.count
          rw [List.head?_append_of_ne_nil _ hne]
        refine ⟨by simp, fun argument hargument => ?_⟩
        rw [hcounts]
        rcases List.mem_append.mp hargument with hargument | hargument
        · exact hlengths argument hargument
        · rw [List.mem_singleton.mp hargument, huniform case' hmem (of_decide_eq_true hfits)]
          exact hlength
      · obtain rfl := Option.some.inj (hfresh.symm.trans hcase)
        refine ⟨by simp, fun argument hargument => ?_⟩
        rw [List.mem_singleton.mp hargument]
        rfl
    · exact hstate.uniform case (List.mem_of_getElem? ((hsame index hindex).symm.trans hcase))

/-- The edges of one target's cases. -/
theorem addCases_ok {blocks : TargetInfo → ℕ → Option ℕ} {passed : List Placement}
    {target : TargetInfo} {operation : Operation} :
    ∀ {labels : List Attr} {successors : List ℕ} {counts : List ℤ} {state state' : Cases}
      {edges : List Edge}, counts.length = labels.length → successors.length = labels.length →
      CasesHold blocks (passed ++ [⟨target, state.order, edges⟩]) state.cases →
      (labels.zip (successors.zip counts)).foldlM (addCase blocks target operation) state =
        .ok state' →
      CasesHold blocks (passed ++ [⟨target, state'.order, edges ++ zipEdges (labels.map some)
        successors (segments counts (operation.operands.drop state.offset))⟩]) state'.cases ∧
      state.offset ≤ state'.offset ∧
      operation.operands.drop state.offset =
        (segments counts (operation.operands.drop state.offset)).flatten ++
          operation.operands.drop state'.offset
  | [], [], [], state, state', edges, _, _, hstate, h => by
    obtain rfl := Except.ok.inj h
    exact ⟨by simpa [zipEdges] using hstate, le_rfl, by simp [segments]⟩
  | label :: labels, successor :: successors, count :: counts, state, state', edges, hc, hs,
      hstate, h => by
    obtain ⟨next, hnext, h⟩ := foldlM_cons_ok.mp h
    obtain ⟨hnext', hoffset, -, -⟩ := addCase_ok hstate hnext
    obtain ⟨hrest, hle, hsplit⟩ := addCases_ok (by simpa using hc) (by simpa using hs) hnext' h
    dsimp only at hoffset
    have hdrop : operation.operands.drop next.offset =
        (operation.operands.drop state.offset).drop count.toNat := by
      rw [hoffset, List.drop_drop]
    refine ⟨?_, by omega, ?_⟩
    · rw [List.map_cons, segments, zipEdges_cons, ← hdrop]
      simpa using hrest
    · rw [segments, List.flatten_cons, List.append_assoc, ← hdrop, ← hsplit, hdrop,
        List.take_append_drop]

/-! ## The switches of all targets -/

/-- A target's switch has its edges among the cases. -/
structure SwitchPlaced (blocks : TargetInfo → ℕ → Option ℕ) (state : Switches)
    (observation : TargetInfo × Operation) (placement : Placement) : Prop where
  target : placement.target = observation.1
  selector : ∃ selector,
    observation.2.operands = selector :: observation.2.edges.flatMap Edge.arguments
  edges : ∃ default, observation.2.edges = default :: placement.edges ∧ default.label = none ∧
    (blocks observation.1 default.successor).isSome = true ∧
    blocks observation.1 default.successor = state.default ∧
    (observation.1, default.arguments) ∈ state.defaults

/-- What the switches of some targets have in common. -/
structure SwitchesHold (blocks : TargetInfo → ℕ → Option ℕ)
    (observations : Observations TargetInfo Operation) (passed : List Placement)
    (state : Switches) : Prop where
  cases : CasesHold blocks passed state.cases
  orders : state.orders = passed.map Placement.order
  placed : List.Forall₂ (SwitchPlaced blocks state) observations passed
  targets : state.defaults.map Prod.fst = observations.map Prod.fst
  uniform : ∀ entry ∈ state.defaults, entry.2.length = state.count

/-- A target starts without a case. -/
theorem CasesHold.start {blocks : TargetInfo → ℕ → Option ℕ} {passed : List Placement}
    {cases : List Case} (h : CasesHold blocks passed cases) (target : TargetInfo) :
    CasesHold blocks (passed ++ [⟨target, [], []⟩]) cases := by
  refine ⟨fun placement hplacement => ?_, fun index case hcase => ?_, h.uniform⟩
  · rcases List.mem_append.mp hplacement with hplacement | hplacement
    · exact h.placed placement hplacement
    · obtain rfl := List.mem_singleton.mp hplacement
      exact .nil
  · simpa using h.targets index case hcase

/-- The edges of a switch, its default edge apart. -/
theorem edges_cons {operation : Operation} {labels : List Attr} {count : ℤ} {counts : List ℤ}
    {successor : ℕ} {successors : List ℕ}
    (hlabels : (operation.attributes.get "cases").bind Attr.asArray? = some labels)
    (hcounts : (operation.attributes.get "argument_counts").bind Attr.asDenseI32? =
      some (count :: counts)) (hsuccessors : operation.successors = successor :: successors) :
    operation.edges = ⟨none, successor, operation.operands.tail.take count.toNat⟩ ::
      zipEdges (labels.map some) successors
        (segments counts (operation.operands.drop (1 + count.toNat))) := by
  have hcases : operation.cases = labels := by
    rw [Operation.cases, hlabels]
    rfl
  have hargumentCounts : operation.argumentCounts = count :: counts := by
    rw [Operation.argumentCounts, hcounts]
    rfl
  rw [Operation.edges, hcases, hargumentCounts, hsuccessors, segments, zipEdges_cons,
    ← List.drop_one, List.drop_drop]

/-- A switch placed stays so as the cases and defaults of others are added. -/
theorem SwitchPlaced.grows {blocks : TargetInfo → ℕ → Option ℕ} {state state' : Switches}
    {observation : TargetInfo × Operation} {placement : Placement}
    (h : SwitchPlaced blocks state observation placement)
    (hdefault : state.default = none ∨ state.default = state'.default)
    (hdefaults : state.defaults ⊆ state'.defaults) :
    SwitchPlaced blocks state' observation placement := by
  obtain ⟨default, hedges, hlabel, hsome, heq, hmem⟩ := h.edges
  have hsame : state.default = state'.default := hdefault.resolve_left fun hnone => by
    rw [heq, hnone] at hsome
    simp at hsome
  exact ⟨h.target, h.selector, default, hedges, hlabel, hsome, heq.trans hsame, hdefaults hmem⟩

/-- One more target's switch. -/
theorem addSwitch_ok {blocks : TargetInfo → ℕ → Option ℕ}
    {observations : Observations TargetInfo Operation} {passed : List Placement}
    {state state' : Switches} {observation : TargetInfo × Operation}
    (hstate : SwitchesHold blocks observations passed state)
    (h : addSwitch blocks state observation = .ok state') :
    ∃ placement, SwitchesHold blocks (observations ++ [observation]) (passed ++ [placement])
      state' := by
  unfold addSwitch at h
  dsimp only at h
  split at h
  · rename_i labels count counts defaultTo successors hlabels hcounts hsuccessors
    obtain ⟨_, hinventory, h⟩ := bind_ok.mp h
    obtain ⟨hclen, hslen, hoperands⟩ := expect_ok.mp hinventory
    obtain ⟨mapped, hmapped, h⟩ := bind_ok.mp h
    have hmapped := require_ok.mp hmapped
    obtain ⟨_, hdefault, h⟩ := bind_ok.mp h
    obtain ⟨hsame, hcount, hpos⟩ := expect_ok.mp hdefault
    obtain ⟨cases, hcases, h⟩ := bind_ok.mp h
    obtain ⟨_, hoffset, h⟩ := bind_ok.mp h
    have hoffset := expect_ok.mp hoffset
    obtain rfl := Except.ok.inj h
    obtain ⟨hhold, hle, hsplit⟩ := addCases_ok hclen hslen (hstate.cases.start observation.1) hcases
    dsimp only at hhold hle hsplit
    have hedges := edges_cons hlabels hcounts hsuccessors
    obtain ⟨selector, operands, hcons⟩ := List.exists_cons_of_ne_nil hoperands
    have htail : observation.2.operands.tail = operands := by rw [hcons, List.tail_cons]
    have hlength : 1 + count.toNat ≤ operands.length + 1 := by
      rw [hoffset, hcons, List.length_cons] at hle
      exact hle
    have harguments : (operands.take count.toNat).length = count.toNat := by
      rw [List.length_take]
      omega
    have hselector : observation.2.operands =
        selector :: observation.2.edges.flatMap Edge.arguments := by
      rw [hoffset, List.drop_length, List.append_nil] at hsplit
      rw [hedges, List.flatMap_cons, flatMap_zipEdges (by simp [length_segments, hclen])
        (by simp [length_segments, hclen, hslen]), ← hsplit, htail, hcons, Nat.add_comm,
        List.drop_succ_cons, List.take_append_drop]
    refine ⟨⟨observation.1, cases.order, zipEdges (labels.map some) successors
      (segments counts (observation.2.operands.drop (1 + count.toNat)))⟩, ⟨hhold, ?_, ?_, ?_, ?_⟩⟩
    · simp [hstate.orders]
    · refine List.rel_append (hstate.placed.imp fun _ _ h =>
        h.grows hsame (List.subset_append_left _ _)) (.cons ⟨rfl, ⟨selector, hselector⟩, ?_⟩ .nil)
      exact ⟨_, hedges, rfl, by simp [hmapped], hmapped, by simp⟩
    · simp [hstate.targets]
    · have hall : ∀ entry ∈ state.defaults ++
          [(observation.1, observation.2.operands.tail.take count.toNat)],
          entry.2.length = count.toNat := by
        intro entry hentry
        rcases List.mem_append.mp hentry with hentry | hentry
        · have := hcount.resolve_left (List.ne_nil_of_mem hentry)
          rw [hstate.uniform entry hentry]
          omega
        · rw [List.mem_singleton.mp hentry, htail]
          exact harguments
      intro entry hentry
      rw [hall entry hentry, Switches.count]
      cases hdefaults : state.defaults with
      | nil => simp [htail, harguments]
      | cons first rest => simp [hall first (by simp [hdefaults])]
  · simp [fail] at h

theorem addSwitches_ok {blocks : TargetInfo → ℕ → Option ℕ} :
    ∀ {operations observations : Observations TargetInfo Operation} {passed : List Placement}
      {state state' : Switches}, SwitchesHold blocks observations passed state →
      operations.foldlM (addSwitch blocks) state = .ok state' →
      ∃ passed', SwitchesHold blocks (observations ++ operations) passed' state'
  | [], observations, passed, state, state', hstate, h => by
    obtain rfl := Except.ok.inj h
    exact ⟨passed, by rwa [List.append_nil]⟩
  | operation :: operations, observations, passed, state, state', hstate, h => by
    obtain ⟨next, hnext, h⟩ := foldlM_cons_ok.mp h
    obtain ⟨placement, hplaced⟩ := addSwitch_ok hstate hnext
    obtain ⟨passed', hpassed⟩ := addSwitches_ok hplaced h
    exact ⟨passed', by rwa [List.append_assoc] at hpassed⟩

/-! ## What a case has of each target -/

/-- Each key at most once for each of its entries. -/
theorem flatMap_replicate_sublist {count : Placement → ℕ} :
    ∀ {passed : List Placement}, (∀ placement ∈ passed, count placement ≤ 1) →
      (passed.flatMap fun placement => List.replicate (count placement) placement.target).Sublist
        (passed.map Placement.target)
  | [], _ => .slnil
  | placement :: passed, h => by
    obtain ⟨hplacement, h⟩ := List.forall_mem_cons.mp h
    have ih := flatMap_replicate_sublist h
    rw [List.flatMap_cons, List.map_cons]
    rcases Nat.le_one_iff_eq_zero_or_eq_one.mp hplacement with hzero | hone
    · rw [hzero]
      exact ih.cons _
    · rw [hone]
      exact ih.cons_cons _

theorem SwitchesHold.targets_eq {blocks : TargetInfo → ℕ → Option ℕ}
    {operations : Observations TargetInfo Operation} {passed : List Placement} {state : Switches}
    (h : SwitchesHold blocks operations passed state) :
    passed.map Placement.target = operations.map Prod.fst :=
  map_eq_of_forall₂ (h.placed.imp fun _ _ h => h.target)

/-- What a function finds for each of a list. -/
theorem forall₂_filterMap {α β γ : Type} {f : α → Option γ} {R : β → γ → Prop} {xs : List α}
    {ys : List β} (h : List.Forall₂ (fun x y => ∃ z, f x = some z ∧ R y z) xs ys) :
    List.Forall₂ R ys (xs.filterMap f) := by
  induction h with
  | nil => exact .nil
  | cons hx _ ih =>
    obtain ⟨z, hz, hR⟩ := hx
    rw [List.filterMap_cons_some hz]
    exact .cons hR ih

section Joint

variable {blocks : TargetInfo → ℕ → Option ℕ} {operations : Observations TargetInfo Operation}
  {passed : List Placement} {state : Switches} {joint : List ℕ}

/-- In an order that is each target's, each target has a case once. -/
theorem SwitchesHold.sublist (h : SwitchesHold blocks operations passed state)
    (hjoint : joint.Nodup) (hsublist : ∀ order ∈ state.orders, order.Sublist joint) {index : ℕ}
    {case : Case} (hcase : state.cases[index]? = some case) :
    (case.arguments.map Prod.fst).Sublist (operations.map Prod.fst) := by
  rw [h.cases.targets index case hcase, ← h.targets_eq]
  refine flatMap_replicate_sublist fun placement hplacement => ?_
  have horder : placement.order ∈ state.orders := h.orders ▸ List.mem_map_of_mem hplacement
  exact List.nodup_iff_count_le_one.mp ((hsublist _ horder).nodup hjoint) index

/-- The cases a target has, in the joint order, are those of its own edges. -/
theorem SwitchesHold.kept (h : SwitchesHold blocks operations passed state)
    (hnodup : (operations.map Prod.fst).Nodup) (hjoint : joint.Nodup)
    (hsublist : ∀ order ∈ state.orders, order.Sublist joint) {placement : Placement}
    (hplacement : placement ∈ passed) :
    List.Forall₂ (fun edge case => edge.label = some case.label ∧
      blocks placement.target edge.successor = some case.successor ∧
      (placement.target, edge.arguments) ∈ case.arguments) placement.edges
      ((joint.filterMap (state.cases[·]?)).filter fun case =>
        placement.target ∈ case.arguments.map Prod.fst) := by
  have horder : placement.order ∈ state.orders := h.orders ▸ List.mem_map_of_mem hplacement
  have htargets : (passed.map Placement.target).Nodup := h.targets_eq ▸ hnodup
  rw [List.filter_filterMap, filterMap_sublist_eq (hsublist _ horder) hjoint fun index _ hindex => ?_]
  · refine forall₂_filterMap ((h.cases.placed placement hplacement).imp fun index edge hedge => ?_)
    obtain ⟨case, hcase, hlabel, hsuccessor, harguments⟩ := hedge
    refine ⟨case, ?_, hlabel, hsuccessor, harguments⟩
    rw [hcase, Option.filter_some, if_pos (by simpa using ⟨_, harguments⟩)]
  · cases hcase : state.cases[index]? with
    | none => rfl
    | some case =>
      rw [Option.filter_some, if_neg fun hmem => hindex ?_]
      rw [decide_eq_true_eq, h.cases.targets index case hcase] at hmem
      obtain ⟨other, hother, hmem⟩ := List.mem_flatMap.mp hmem
      obtain ⟨hcount, heq⟩ := List.mem_replicate.mp hmem
      obtain rfl := List.inj_on_of_nodup_map htargets hplacement hother heq
      exact List.count_pos_iff.mp (Nat.pos_of_ne_zero hcount)

end Joint

/-- The switches of the targets in one order of cases that is each target's. -/
structure Joined (blocks : TargetInfo → ℕ → Option ℕ)
    (operations : Observations TargetInfo Operation) (switches : Switches) (cases : List Case) :
    Prop where
  uniform : ∀ case ∈ cases, case.arguments ≠ [] ∧
    ∀ entry ∈ case.arguments, entry.2.length = case.count
  targets : ∀ case ∈ cases, (case.arguments.map Prod.fst).Sublist (operations.map Prod.fst)
  placed : ∀ target own, (target, own) ∈ operations → ∃ placement,
    SwitchPlaced blocks switches (target, own) placement ∧
    List.Forall₂ (fun edge case => edge.label = some case.label ∧
      blocks target edge.successor = some case.successor ∧
      (target, edge.arguments) ∈ case.arguments) placement.edges
      (cases.filter fun case => target ∈ case.arguments.map Prod.fst)
  defaults : switches.defaults.map Prod.fst = operations.map Prod.fst
  lengths : ∀ entry ∈ switches.defaults, entry.2.length = switches.count

theorem joined_of_order {blocks : TargetInfo → ℕ → Option ℕ}
    {operations : Observations TargetInfo Operation} {switches : Switches} {joint : List ℕ}
    (hnodup : (operations.map Prod.fst).Nodup)
    (hswitches : operations.foldlM (addSwitch blocks) ⟨[], [], none, []⟩ = .ok switches)
    (hjoint : JointOrder.jointOrder switches.cases.length switches.orders = some joint) :
    Joined blocks operations switches (joint.filterMap (switches.cases[·]?)) := by
  obtain ⟨passed, hhold⟩ := @addSwitches_ok blocks operations [] [] _ _
    ⟨⟨by simp, by simp, by simp⟩, rfl, .nil, rfl, by simp⟩ hswitches
  rw [List.nil_append] at hhold
  obtain ⟨hperm, hsublist⟩ := JointOrder.jointOrder_spec (fun order horder index hindex => by
    rw [hhold.orders] at horder
    obtain ⟨placement, hplacement, rfl⟩ := List.mem_map.mp horder
    exact hhold.cases.lt hplacement index hindex) hjoint
  have hjointNodup : joint.Nodup := hperm.nodup_iff.mpr List.nodup_range
  refine ⟨fun case hcase => ?_, fun case hcase => ?_, fun target own hmem => ?_, hhold.targets,
    hhold.uniform⟩
  · obtain ⟨index, -, hindex⟩ := List.mem_filterMap.mp hcase
    exact hhold.cases.uniform case (List.mem_of_getElem? hindex)
  · obtain ⟨index, -, hindex⟩ := List.mem_filterMap.mp hcase
    exact hhold.sublist hjointNodup hsublist hindex
  · obtain ⟨placement, hplacement, hplaced⟩ := exists_of_forall₂_left hhold.placed hmem
    have hkept := hhold.kept hnodup hjointNodup hsublist hplacement
    rw [hplaced.target] at hkept
    exact ⟨placement, hplaced, hkept⟩

/-! ## The shared switch -/

/-- What values stand for stays as the history grows. -/
theorem History.map_own_mono {history history' : History} (h : history <+: history')
    {target : TargetInfo} : ∀ {shareds values : List Value},
      shareds.map (history.own target) = values.map some →
      shareds.map (history'.own target) = values.map some
  | [], [], _ => rfl
  | shared :: shareds, value :: values, hmap => by
    obtain ⟨hhead, htail⟩ := List.cons.inj hmap
    rw [List.map_cons, List.map_cons, History.own_mono h hhead, History.map_own_mono h htail]

/-- A merged case has the label and the arguments of each target that has the case. -/
def CaseRead (case : Case) (history : History) (merged : Attr × List Value) : Prop :=
  ∀ target arguments, (target, arguments) ∈ case.arguments →
    AttrResembles false target case.label merged.1 ∧
    merged.2.map (history.own target) = arguments.map some

theorem stable_caseRead (case : Case) : Stable (CaseRead case) :=
  fun _ _ _ hextends h target arguments hmem =>
    ⟨(h target arguments hmem).1, History.map_own_mono hextends (h target arguments hmem).2⟩

theorem Yields.mergeCase {ids : List TargetInfo} {case : Case} (h : OnTargets ids case.arguments)
    (hregistered : ∀ target ∈ ids, target ∈ targets.all) (hne : case.arguments ≠ [])
    (hlength : ∀ entry ∈ case.arguments, entry.2.length = case.count)
    (hconcrete : ∀ entry ∈ case.arguments, case.label.Concrete entry.1 false) :
    Yields (mergeCase ids case) (CaseRead case) := by
  have hobserved : ConcreteAttrs false (case.arguments.map fun entry => (entry.1, case.label)) := by
    refine ⟨by simpa [Function.comp_def] using h.nodup, fun target attr hmem => ?_,
      fun target attr hmem => ?_⟩
    all_goals
      obtain ⟨entry, hentry, heq⟩ := List.mem_map.mp hmem
      obtain ⟨rfl, rfl⟩ := Prod.mk.inj heq
    · exact hregistered _ (h.subset entry hentry)
    · exact hconcrete entry hentry
  intro history s merged s' hs h'
  unfold Merger.mergeCase at h'
  obtain ⟨label, s₁, hlabel, h'⟩ := exec_bind_ok.mp h'
  obtain ⟨history₁, hextends₁, hs₁, m, m', hlabel⟩ := Yields.inMerger _ _ _ _ _ hs hlabel
  obtain ⟨arguments, s₂, harguments, h'⟩ := exec_bind_ok.mp h'
  obtain ⟨history₂, hextends₂, hs₂, harguments⟩ := Yields.operandsOf h
    (fun target values hmem => hlength (target, values) hmem) _ _ _ _ hs₁ harguments
  obtain ⟨hmerged, rfl⟩ := Prod.mk.inj h'
  obtain rfl := Except.ok.inj hmerged
  refine ⟨history₂, hextends₁.trans hextends₂, hs₂, fun target own hmem =>
    ⟨?_, harguments target own hmem⟩⟩
  exact ((mergeAttribute_ok (by simpa using hne) hobserved hlabel).2 m' (.refl m')).resembles
    target _ (List.mem_map.mpr ⟨_, hmem, rfl⟩)

/-- An edge of a shared switch is an edge of a target's. -/
structure ReadsEdge (target : TargetInfo) (history : History) (blocks : ℕ → Option ℕ)
    (own shared : Edge) : Prop where
  label : Option.Rel (AttrResembles false target) own.label shared.label
  successor : blocks own.successor = some shared.successor
  arguments : shared.arguments.map (history.own target) = own.arguments.map some

/-- A shared switch is a target's : its edges for the target are the target's in their order. -/
structure ReadsSwitch (target : TargetInfo) (history : History) (blocks : ℕ → Option ℕ)
    (own shared : Operation) : Prop where
  name : own.name = "sela.switch" ∧ shared.name = "sela.switch"
  results : shared.results = []
  selector : ∃ selector common,
    own.operands = selector :: own.edges.flatMap Edge.arguments ∧
    shared.operands = common :: shared.edges.flatMap Edge.arguments ∧
    history.own target common = some selector
  edges : ∃ default cases domains, shared.edges = default :: cases ∧ default.label = none ∧
    shared.attributes.get "case_domains" = some (.array domains) ∧
    List.Forall₂ (ReadsEdge target history blocks) own.edges
      (default :: ((cases.zip domains).filter fun entry =>
        containsTarget entry.2 target.id).map Prod.fst)

/-- The labels of a switch that holds nothing but what one target sees. -/
theorem cases_concrete {target : TargetInfo} {operation : Operation}
    (h : ResolvedOperation target operation) :
    ∀ label ∈ operation.cases, label.Concrete target false := by
  intro label hlabel
  unfold Operation.cases at hlabel
  cases hget : operation.attributes.get "cases" with
  | none => simp [hget] at hlabel
  | some value =>
    cases value with
    | array labels =>
      have hconcrete := h.attributes.concrete _ (Attributes.mem_of_get hget)
      simp only [hget, Option.bind_some, Attr.asArray?, Option.getD_some] at hlabel
      exact attrsConcrete_iff.mp hconcrete label hlabel
    | _ => simp [hget, Attr.asArray?] at hlabel

/-- The edge of a merged case. -/
def Case.edge (case : Case) (merged : Attr × List Value) : Edge :=
  ⟨some merged.1, case.successor, merged.2⟩

/-- The targets that have a case. -/
def Case.domain (case : Case) : Attr := targetSet (case.arguments.map fun entry => entry.1.id)

/-- Registered targets of one identity are the same. -/
theorem eq_of_id {target other : TargetInfo} (h : target ∈ targets.all) (h' : other ∈ targets.all)
    (hid : target.id = other.id) : target = other := by
  have hfind := targets.find_of_mem _ h
  rw [hid, targets.find_of_mem _ h'] at hfind
  exact (Option.some.inj hfind).symm

/-- Keeping what has a target, of a list and of one related to it. -/
theorem forall₂_filter_domains {α β : Type} {R : α → β → Prop} {domain : α → Attr} {has : α → Bool}
    {target : String} {xs : List α} {ys : List β}
    (hhas : ∀ x ∈ xs, containsTarget (domain x) target = has x) (h : List.Forall₂ R xs ys) :
    List.Forall₂ R (xs.filter has) (((ys.zip (xs.map domain)).filter fun entry =>
      containsTarget entry.2 target).map Prod.fst) := by
  induction h with
  | nil => exact .nil
  | @cons x y xs ys hR _ ih =>
    obtain ⟨hx, hhas⟩ := List.forall_mem_cons.mp hhas
    rw [List.filter_cons, List.map_cons, List.zip_cons_cons, List.filter_cons]
    dsimp only
    rw [hx]
    split
    · exact .cons hR (ih hhas)
    · exact ih hhas

/-- The edges of merged cases, each with what was merged. -/
theorem forall₂_caseEdge {history : History} {cases : List Case}
    {merged : List (Attr × List Value)}
    (h : List.Forall₂ (fun case merged => CaseRead case history merged) cases merged) :
    List.Forall₂ (fun case edge => ∃ merged, CaseRead case history merged ∧
      edge = case.edge merged) cases (List.zipWith Case.edge cases merged) := by
  induction h with
  | nil => exact .nil
  | cons hread _ ih => exact .cons ⟨_, hread, rfl⟩ ih

/-- A switch in flat arrays, with the targets that have each case. -/
def writeSwitch (selector : Value) (default : Edge) (cases : List (Edge × List TargetInfo)) :
    Operation where
  name := "sela.switch"
  attributes :=
    [("argument_counts", .denseI32 ((default :: cases.map Prod.fst).map fun edge =>
        (edge.arguments.length : ℤ))),
      ("case_domains", .array (cases.map fun case => targetSet (case.2.map TargetInfo.id))),
      ("cases", .array ((cases.map Prod.fst).filterMap Edge.label))]
  operands := selector :: (default :: cases.map Prod.fst).flatMap Edge.arguments
  results := []
  successors := (default :: cases.map Prod.fst).map Edge.successor

theorem edges_writeSwitch {selector : Value} {default : Edge} {cases : List (Edge × List TargetInfo)}
    (hdefault : default.label = none) (hcases : ∀ case ∈ cases, case.1.label ≠ none) :
    (writeSwitch selector default cases).edges = default :: cases.map Prod.fst := by
  refine edges_of_written default selector hdefault (List.forall_mem_map.mpr hcases) ?_ ?_ rfl rfl
  · simp [writeSwitch, Attributes.get_cons, hdefault]
  · simp [writeSwitch, Attributes.get_cons]

/-- What a merged case is written as. -/
def Case.written (case : Case) (merged : Attr × List Value) : Edge × List TargetInfo :=
  (case.edge merged, case.arguments.map Prod.fst)

theorem map_fst_written (cases : List Case) (merged : List (Attr × List Value)) :
    (List.zipWith Case.written cases merged).map Prod.fst = List.zipWith Case.edge cases merged := by
  rw [List.map_zipWith]
  rfl

/-- The merged cases in flat arrays. -/
theorem writeSwitch_written {selector : Value} {default : Edge} {count : ℕ}
    (hcount : default.arguments.length = count) {cases : List Case}
    {merged : List (Attr × List Value)}
    (h : List.Forall₂ (fun (case : Case) (merged : Attr × List Value) =>
      merged.2.length = case.count) cases merged) :
    writeSwitch selector default (List.zipWith Case.written cases merged) =
      { name := "sela.switch"
        attributes :=
          [("argument_counts", .denseI32 ((count : ℤ) :: cases.map fun case => (case.count : ℤ))),
            ("case_domains", .array (cases.map Case.domain)),
            ("cases", .array (merged.map Prod.fst))]
        operands := selector :: default.arguments ++ merged.flatMap Prod.snd
        results := []
        successors := default.successor :: cases.map Case.successor } := by
  obtain ⟨hdomains, hlabels, hcounts, harguments, hsuccessors⟩ :
      (List.zipWith Case.written cases merged).map (fun case =>
        targetSet (case.2.map TargetInfo.id)) = cases.map Case.domain ∧
      (List.zipWith Case.edge cases merged).filterMap Edge.label = merged.map Prod.fst ∧
      ((List.zipWith Case.edge cases merged).map fun edge => (edge.arguments.length : ℤ)) =
        cases.map (fun case => (case.count : ℤ)) ∧
      (List.zipWith Case.edge cases merged).flatMap Edge.arguments = merged.flatMap Prod.snd ∧
      (List.zipWith Case.edge cases merged).map Edge.successor = cases.map Case.successor := by
    induction h with
    | nil => exact ⟨rfl, rfl, rfl, rfl, rfl⟩
    | cons hlength _ ih =>
      obtain ⟨hdomains, hlabels, hcounts, harguments, hsuccessors⟩ := ih
      simp [Case.edge, Case.written, Case.domain, Function.comp_def, hdomains, hlabels, hcounts,
        harguments, hsuccessors, hlength]
  rw [writeSwitch, map_fst_written, hdomains]
  simp [hlabels, hcounts, harguments, hsuccessors, hcount]

theorem Yields.mergeSwitch {ids : List TargetInfo} {blocks : TargetInfo → ℕ → Option ℕ}
    {operations : Observations TargetInfo Operation} (h : OnTargets ids operations)
    (hregistered : ∀ target ∈ ids, target ∈ targets.all)
    (hconcrete : ∀ entry ∈ operations, ResolvedOperation entry.1 entry.2)
    (hnames : ∀ entry ∈ operations, entry.2.name = "sela.switch") :
    Yields (mergeSwitch ids blocks operations) fun history shared => ∀ target own,
      (target, own) ∈ operations → ReadsSwitch target history (blocks target) own shared := by
  intro history s shared s' hs h'
  unfold Merger.mergeSwitch at h'
  obtain ⟨switches, hswitches, h'⟩ := exec_check_bind_ok.mp h'
  obtain ⟨joint, hjoint, h'⟩ := exec_check_bind_ok.mp h'
  obtain ⟨selector, s₁, hselector, h'⟩ := exec_bind_ok.mp h'
  obtain ⟨defaults, s₂, hdefaults, h'⟩ := exec_bind_ok.mp h'
  obtain ⟨merged, s₃, hmerged, h'⟩ := exec_bind_ok.mp h'
  obtain ⟨hshared, rfl⟩ := Prod.mk.inj h'
  obtain rfl := Except.ok.inj hshared
  have hjoined := joined_of_order h.nodup hswitches (require_ok.mp hjoint)
  generalize joint.filterMap (switches.cases[·]?) = cases at *
  have hlabels : ∀ case ∈ cases, ∀ entry ∈ case.arguments, case.label.Concrete entry.1 false := by
    intro case hmem entry hentry
    have htarget := List.mem_map_of_mem (f := Prod.fst) hentry
    obtain ⟨⟨target, own⟩, hown, heq⟩ :=
      List.mem_map.mp ((hjoined.targets case hmem).subset htarget)
    obtain rfl : target = entry.1 := heq
    obtain ⟨placement, hplaced, hkept⟩ := hjoined.placed _ own hown
    obtain ⟨edge, hedge, hlabel, -⟩ := exists_of_forall₂_right hkept
      (List.mem_filter.mpr ⟨hmem, by simpa using htarget⟩)
    obtain ⟨default, hedges, -⟩ := hplaced.edges
    have hedge : edge ∈ own.edges := by
      rw [show own.edges = default :: placement.edges from hedges]
      exact List.mem_cons_of_mem _ hedge
    have := label_mem_of_zipEdges hedge
    rw [hlabel] at this
    exact cases_concrete (hconcrete _ hown) case.label (by simpa using this)
  have hoperands : OnTargets ids (operations.map fun entry => (entry.1, entry.2.operands)) :=
    h.sublist (by simp [Function.comp_def])
  obtain ⟨history₁, hextends₁, hs₁, hselector⟩ := Yields.operand (hoperands.nth 0) _ _ _ _ hs hselector
  have hon : OnTargets ids switches.defaults := h.sublist (by rw [hjoined.defaults])
  obtain ⟨history₂, hextends₂, hs₂, hdefaults⟩ := Yields.operandsOf hon (fun target values hmem =>
      hjoined.lengths (target, values) hmem) _ _ _ _ hs₁ hdefaults
  obtain ⟨history₃, hextends₃, hs₃, hmerged⟩ := Yields.mapM stable_caseRead (fun case hmem =>
    Yields.mergeCase (h.sublist (hjoined.targets case hmem)) hregistered
      (hjoined.uniform case hmem).1 (hjoined.uniform case hmem).2 (hlabels case hmem)) _ _ _ _ hs₂
      hmerged
  refine ⟨history₃, (hextends₁.trans hextends₂).trans hextends₃, hs₃, fun target own hmem => ?_⟩
  obtain ⟨placement, hplaced, hkept⟩ := hjoined.placed target own hmem
  obtain ⟨default, hedges, hlabel, hsome, hdefault, hpassed⟩ := hplaced.edges
  dsimp only at hedges hsome hdefault hpassed
  obtain ⟨d, hd⟩ := Option.isSome_iff_exists.mp hsome
  rw [hd] at hdefault
  have hdefaults' := hdefaults target default.arguments hpassed
  have hcount : defaults.length = switches.count := by
    have := congrArg List.length hdefaults'
    rw [List.length_map, List.length_map] at this
    exact this.trans (hjoined.lengths _ hpassed)
  have hlengths : List.Forall₂ (fun (case : Case) (merged : Attr × List Value) =>
      merged.2.length = case.count) cases merged :=
    forall₂_imp_of_mem hmerged fun case hcase merged _ hread => by
      obtain ⟨hne, huniform⟩ := hjoined.uniform case hcase
      obtain ⟨entry, hentry⟩ := List.exists_mem_of_ne_nil _ hne
      have := congrArg List.length (hread entry.1 entry.2 hentry).2
      rw [List.length_map, List.length_map] at this
      exact this.trans (huniform entry hentry)
  have hwritten := @writeSwitch_written selector ⟨none, d, defaults⟩ _ hcount _ _ hlengths
  have hwrittenEdges := @edges_writeSwitch selector ⟨none, d, defaults⟩
    (List.zipWith Case.written cases merged) rfl fun case hcase => by
      rw [← List.map_uncurry_zip_eq_zipWith] at hcase
      obtain ⟨⟨_, _⟩, -, rfl⟩ := List.mem_map.mp hcase
      simp [Function.uncurry_apply_pair, Case.written, Case.edge]
  have hread : ReadsSwitch target history₃ (blocks target) own
      (writeSwitch selector ⟨none, d, defaults⟩ (List.zipWith Case.written cases merged)) := by
    refine ⟨⟨hnames _ hmem, rfl⟩, rfl, ?_, ⟨none, d, defaults⟩, _, cases.map Case.domain,
      hwrittenEdges, rfl, by rw [hwritten]; rfl, ?_⟩
    · obtain ⟨own_selector, hown⟩ := hplaced.selector
      refine ⟨own_selector, selector, hown, by rw [hwrittenEdges]; rfl, ?_⟩
      refine History.own_mono (hextends₂.trans hextends₃) (hselector target own_selector ?_)
      exact mem_nth.mpr ⟨own.operands, List.mem_map.mpr ⟨_, hmem, rfl⟩, by rw [hown]; rfl⟩
    · have hhas : ∀ case ∈ cases, containsTarget case.domain target.id =
          decide (target ∈ case.arguments.map Prod.fst) := by
        intro case hcaseMem
        rw [Bool.eq_iff_iff, Case.domain, containsTarget_targetSet, decide_eq_true_eq]
        constructor
        · intro hid
          obtain ⟨entry, hentry, hid⟩ := List.mem_map.mp hid
          have hentry' := hregistered _
            ((h.sublist (hjoined.targets case hcaseMem)).subset entry hentry)
          rw [← eq_of_id hentry' (hregistered target (h.subset _ hmem)) hid]
          exact List.mem_map_of_mem hentry
        · intro htarget
          obtain ⟨entry, hentry, rfl⟩ := List.mem_map.mp htarget
          exact List.mem_map_of_mem hentry
      rw [show own.edges = default :: placement.edges from hedges, map_fst_written]
      refine .cons ⟨by rw [hlabel]; exact .none, hd, History.map_own_mono hextends₃ hdefaults'⟩ ?_
      refine forall₂_trans (fun edge case result hedge hresult => ?_) hkept
        (forall₂_filter_domains hhas (forall₂_caseEdge hmerged))
      obtain ⟨merged, hread, rfl⟩ := hresult
      obtain ⟨hresembles, harguments⟩ := hread target edge.arguments hedge.2.2
      exact ⟨by rw [hedge.1]; exact .some hresembles, hedge.2.1, harguments⟩
  rw [hwritten] at hread
  rw [← hdefault]
  exact hread

end Merger

end Sela
