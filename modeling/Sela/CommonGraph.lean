import Sela.JointOrder
import Sela.PairedCFG
import Sela.TypeMerge

/-!
# The blocks several functions share

`Merger.correspondence` groups the blocks of one function of each target. The first target's
blocks are a group each; another target's block joins the group of the block it is paired
with, and the blocks of a switch arm the first target does not have join the groups of the
same arm on the targets before. The groups are put in an order that keeps the block order of
every target (`correspondence_ok`).
-/

/-- What every step of a fold keeps, the fold keeps. -/
theorem Checked.foldlM_keeps {σ α : Type} {f : σ → α → Checked σ} (P : σ → Prop) {xs : List α}
    {s t : σ} (hs : P s) (hstep : ∀ x ∈ xs, ∀ s s', P s → f s x = .ok s' → P s')
    (h : xs.foldlM f s = .ok t) : P t :=
  @foldlM_invariant α σ f (fun _ => P) [] xs s t hs
    (fun _ x _ s s' hsplit hs hx => hstep x (by simp_all) s s' hs hx) h

namespace Sela

open Checked Correspondence Native JointOrder

/-- The function's blocks; a function without a body has none. -/
def Definition.body (definition : Definition) : List Block :=
  (definition.regions.head?.map Region.blocks).getD []

/-- The last operation of a block. -/
def Block.terminator (block : Block) : Option Operation := block.operations.getLast?

namespace Merger

/-! ## The control flow of one function -/

/-- The native block of a successor. A successor is a block of its function. -/
def successor (region : List Block) (terminator : Operation) (k : ℕ) : Checked ℕ :=
  require ((terminator.successors[k]?).filter fun block => block ∈ region.map Block.id)
    "N-target merge: successor leaves its function"

/-- The label of a switch case, as a constant of the width of the selector. -/
def switchLabel (width : ℕ) : Attr → Checked ℕ
  | .integer _ value => pure (value % 2 ^ width)
  | _ => fail "conditional graph proof needs exact integer labels"

/-- The width of a switch's selector. -/
def selectorWidth (terminator : Operation) : Option ℕ :=
  match terminator.operands.head?.map Value.type with
  | some (.integer width) => some width
  | _ => none

/-- The terminator of a native block. -/
def nativeTerminator (region : List Block) (terminator : Operation) : Checked Terminator := do
  if terminator.name = "sela.br" then
    pure (.branch (← successor region terminator 0))
  else if terminator.name = "sela.cond_br" then
    pure (.conditional (← successor region terminator 0) (← successor region terminator 1))
  else if terminator.name = "sela.switch" then
    match selectorWidth terminator, (terminator.attributes.get "cases").bind Attr.asArray? with
    | some width, some cases => do
      let defaultDest ← successor region terminator 0
      let cases ← cases.zipIdx.mapM fun case => do
        let label ← switchLabel width case.1
        pure ⟨label, ← successor region terminator (case.2 + 1)⟩
      pure (.switch width defaultDest cases)
    | _, _ => fail "conditional graph proof needs specialized switch labels"
  else if terminator.name = "sela.return" then pure .ret
  else if terminator.name = "sela.unreachable" then pure .unreachable
  else fail "unsupported public terminator in correspondence proof"

/-- The native block of a block, known by the same name. Of the arguments only their presence
is kept, as a PHI; the entry's arguments are none. -/
def nativeBlock (region : List Block) (block : Block × ℕ) : Checked Native.Block := do
  let terminator ← require block.1.terminator
    "N-target merge: unsupported public terminator in correspondence proof"
  let native ← nativeTerminator region terminator
  pure { id := block.1.id
         instructions :=
           if block.2 ≠ 0 ∧ block.1.arguments ≠ [] then [⟨block.1.id, true, []⟩] else []
         terminator := some native
         terminatorOperands := []
         addressTaken := false }

/-- The control flow graph of a function. -/
def graph (verifyFunction : Native.Function → Bool) (source : Definition) :
    Checked Native.Function := do
  let blocks ← source.body.zipIdx.mapM (nativeBlock source.body)
  if h : (blocks.map Native.Block.id).Nodup then do
    expect (verifyFunction ⟨blocks, h⟩ = true) "invalid private structural correspondence graph"
    pure ⟨blocks, h⟩
  else fail "invalid private structural correspondence graph"

/-! ## Groups of blocks -/

/-- The block of each target that has one. -/
abbrev BlockGroup := TargetInfo → Option ℕ

/-- A case that only later targets have : the group of its switch, the width and the value of
its label, and the position on its arm. -/
abbrev ArmKey := ℕ × ℕ × ℕ × ℕ

/-- The groups so far, those of arms by key, and the groups of one target's blocks. -/
structure Grouped where
  groups : List BlockGroup
  arms : List (ArmKey × ℕ)
  indices : List (ℕ × ℕ)

/-- Put a target's block into a group. -/
def Grouped.put (target : TargetInfo) (state : Grouped) (block group : ℕ) : Grouped :=
  { state with
    groups := state.groups.modify group fun blocks => Function.update blocks target (some block)
    indices := (block, group) :: state.indices }

/-- The group of a block on an arm, a new one unless a target before has this arm. -/
def Grouped.arm (state : Grouped) (key : ArmKey) : Grouped × ℕ :=
  match state.arms.lookup key with
  | some group => (state, group)
  | none =>
    ({ state with
       groups := state.groups ++ [fun _ => none]
       arms := (key, state.groups.length) :: state.arms }, state.groups.length)

/-- Put the blocks of an arm into groups, up to one that is in a group. Each turn puts in one
more block, so that the blocks of the function bound the loop. -/
def walkArm (target : TargetInfo) (function : Native.Function) (head width label : ℕ) :
    ℕ → ℕ → Option ℕ → Grouped → Checked Grouped
  | fuel + 1, position, some block, state =>
    if (state.indices.lookup block).isSome then pure state
    else do
      let (state, group) := state.arm (head, width, label, position)
      let next ← require (function.branchTarget block)
        "N-target merge: conditional arm lacks its proved closed chain"
      walkArm target function head width label fuel (position + 1) (some next)
        (state.put target block group)
  | _, _, _, state => pure state

/-- Put a block paired with one of the first target into the same group. -/
def putPair (target : TargetInfo) (base : List (ℕ × ℕ)) (state : Grouped) (pair : BlockPair) :
    Grouped :=
  match pair.left, pair.right with
  | some left, some right => state.put target right ((base.lookup left).getD 0)
  | _, _ => state

/-- The arm of a case the first target does not have. -/
def walkCase (target : TargetInfo) (function : Native.Function) (base : List (ℕ × ℕ))
    (cfg : ConditionalCFG) (selection : SwitchPair) (state : Grouped) (entry : CasePair) :
    Checked Grouped :=
  match entry.domain, entry.right with
  | .right, some label =>
    walkArm target function ((base.lookup selection.left.parent).getD 0) selection.right.width label
      (function.blocks.length + 1) 0 ((cfg.blocks[entry.successor]?).bind BlockPair.right) state
  | _, _ => pure state

/-- Group the blocks of one more target, by its pairing with the first one. -/
def groupPaired (target : TargetInfo) (function : Native.Function) (base : List (ℕ × ℕ))
    (cfg : ConditionalCFG) (state : Grouped) : Checked Grouped := do
  let state := cfg.blocks.foldl (putPair target base) { state with indices := [] }
  let state ← cfg.switches.foldlM (fun state selection =>
    selection.cases.foldlM (walkCase target function base cfg selection) state) state
  expect (∀ block ∈ function.blocks, (state.indices.lookup block.id).isSome = true)
    "unmatched conditional block"
  pure state

/-- The identity of a definition. -/
def definitionId (definition : Definition) : String :=
  ((definition.attributes.get "id").bind Attr.asString?).getD ""

/-- Pair a function with the first one. -/
def pairWith (base : TargetInfo × Definition × Native.Function)
    (input : TargetInfo × Native.Function) : Checked ConditionalCFG :=
  match pairConditionalCFG base.2.2 input.2 with
  | .ok cfg => pure cfg
  | .error message =>
    fail (definitionId base.2.1 ++ " (" ++ base.1.id ++ "/" ++ input.1.id ++ "): " ++ message)

/-- Pair a function with the first one and group its blocks. The orders are those of the
targets so far, as numbers of groups. -/
def groupTarget (base : TargetInfo × Definition × Native.Function)
    (state : Grouped × List (List ℕ)) (input : TargetInfo × Native.Function) :
    Checked (Grouped × List (List ℕ)) := do
  let cfg ← pairWith base input
  let positions := (base.2.2.blocks.map Native.Block.id).zipIdx
  let grouped ← groupPaired input.1 input.2 positions cfg state.1
  pure (grouped, state.2 ++
    [input.2.blocks.map fun block => (grouped.indices.lookup block.id).getD 0])

/-- The groups of blocks the functions share, in an order that is each function's own. -/
def correspondence (verifyFunction : Native.Function → Bool)
    (functions : Observations TargetInfo Definition) : Checked (List BlockGroup) := do
  let inputs ← functions.mapM fun function => do
    pure (function.1, ← graph verifyFunction function.2)
  match functions, inputs with
  | base :: _, (_, function) :: others => do
    let start : Grouped :=
      ⟨function.blocks.map fun block => Function.update (fun _ => none) base.1 (some block.id), [], []⟩
    let (grouped, orders) ← others.foldlM (groupTarget (base.1, base.2, function))
      (start, [List.range function.blocks.length])
    let ordered ← require (jointOrder grouped.groups.length orders)
      "N-target merge: target block orders contradict one another"
    pure (ordered.filterMap (grouped.groups[·]?))
  | _, _ => pure []

/-! ## The native graph keeps the blocks -/

theorem successor_ok {region : List Block} {terminator : Operation} {k block : ℕ}
    (h : successor region terminator k = .ok block) : block ∈ region.map Block.id := by
  have h := require_ok.mp h
  rw [Option.filter_eq_some_iff] at h
  exact of_decide_eq_true h.2

theorem nativeTerminator_branch {region : List Block} {terminator : Operation} {target : ℕ}
    (h : nativeTerminator region terminator = .ok (.branch target)) :
    target ∈ region.map Block.id := by
  unfold nativeTerminator at h
  split at h
  · obtain ⟨block, hblock, h⟩ := bind_ok.mp h
    obtain rfl := Terminator.branch.inj (Except.ok.inj h)
    exact successor_ok hblock
  split at h
  · obtain ⟨_, -, h⟩ := bind_ok.mp h
    obtain ⟨_, -, h⟩ := bind_ok.mp h
    simp at h
  split at h
  · split at h
    · obtain ⟨_, -, h⟩ := bind_ok.mp h
      obtain ⟨_, -, h⟩ := bind_ok.mp h
      simp at h
    · simp [fail] at h
  split at h
  · simp at h
  split at h
  · simp at h
  · simp [fail] at h

theorem nativeBlock_ok {region : List Block} {block : Block × ℕ} {native : Native.Block}
    (h : nativeBlock region block = .ok native) : native.id = block.1.id ∧
      ∀ target, native.terminator = some (.branch target) → target ∈ region.map Block.id := by
  obtain ⟨terminator, -, h⟩ := bind_ok.mp h
  obtain ⟨result, hresult, h⟩ := bind_ok.mp h
  obtain rfl := Except.ok.inj h
  refine ⟨rfl, fun target htarget => ?_⟩
  obtain rfl := Option.some.inj htarget
  exact nativeTerminator_branch hresult

/-- The graph has the function's blocks, and branches stay among them. -/
theorem graph_ok {verifyFunction : Native.Function → Bool} {source : Definition}
    {function : Native.Function} (h : graph verifyFunction source = .ok function) :
    function.blocks.map Native.Block.id = source.body.map Block.id ∧
      ∀ block target, function.branchTarget block = some target →
        target ∈ source.body.map Block.id := by
  obtain ⟨blocks, hblocks, h⟩ := bind_ok.mp h
  have hall := mapM_ok.mp hblocks
  split at h
  · obtain ⟨_, -, h⟩ := bind_ok.mp h
    obtain rfl := Except.ok.inj h
    have hids : List.Forall₂ (fun (block : Block) (native : Native.Block) =>
        native.id = block.id ∧ ∀ target, native.terminator = some (.branch target) →
          target ∈ source.body.map Block.id) source.body blocks :=
      forall₂_of_zipIdx (fun _ _ _ _ hnative => nativeBlock_ok hnative) hall
    refine ⟨map_eq_of_forall₂ (hids.imp fun _ _ h => h.1), fun block target hbranch => ?_⟩
    unfold Function.branchTarget at hbranch
    split at hbranch
    · rename_i target' hterminator
      obtain rfl := Option.some.inj hbranch
      obtain ⟨native, hfind, hbranch⟩ := Option.bind_eq_some_iff.mp hterminator
      obtain ⟨_, -, -, hclosed⟩ := exists_of_forall₂_right hids (List.mem_of_find?_eq_some hfind)
      exact hclosed _ hbranch
    · simp at hbranch
  · simp [fail] at h

/-! ## What grouping keeps -/

/-- The block of a target in a group. -/
def blockAt (groups : List BlockGroup) (group : ℕ) (target : TargetInfo) : Option ℕ :=
  (groups[group]?).bind fun blocks => blocks target

/-- The blocks of the target that are in a group, by the group, while they are put in. -/
structure Grouped.Holds (target : TargetInfo) (blocks : List ℕ) (state : Grouped) : Prop where
  arms : ∀ key group, state.arms.lookup key = some group → group < state.groups.length
  indexed : ∀ block group, state.indices.lookup block = some group →
    block ∈ blocks ∧ (blockAt state.groups group target).isSome = true
  grouped : ∀ group block, blockAt state.groups group target = some block →
    state.indices.lookup block = some group

/-- Every group has a block of some target. -/
def Inhabited (groups : List BlockGroup) : Prop :=
  ∀ group < groups.length, ∃ target block, blockAt groups group target = some block

/-- Putting a target's blocks into groups leaves those of the other targets, and leaves no
group without a block. -/
structure Grouped.Frame (target : TargetInfo) (state state' : Grouped) : Prop where
  length : state.groups.length ≤ state'.groups.length
  same : ∀ other, other ≠ target → ∀ group,
    blockAt state'.groups group other = blockAt state.groups group other
  inhabited : Inhabited state.groups → Inhabited state'.groups

theorem Grouped.Frame.refl (target : TargetInfo) (state : Grouped) : state.Frame target state :=
  ⟨le_rfl, fun _ _ _ => rfl, id⟩

theorem Grouped.Frame.trans {target : TargetInfo} {state state' state'' : Grouped}
    (h : state.Frame target state') (h' : state'.Frame target state'') :
    state.Frame target state'' :=
  ⟨h.length.trans h'.length, fun other hne group => (h'.same other hne group).trans
    (h.same other hne group), h'.inhabited ∘ h.inhabited⟩

theorem blockAt_modify {groups : List BlockGroup} {group : ℕ} (hgroup : group < groups.length)
    (target : TargetInfo) (block : ℕ) (g : ℕ) (t : TargetInfo) :
    blockAt (groups.modify group fun blocks => Function.update blocks target (some block)) g t =
      if g = group ∧ t = target then some block else blockAt groups g t := by
  unfold blockAt
  by_cases hg : g = group
  · subst hg
    rw [List.getElem?_modify, List.getElem?_eq_getElem hgroup]
    by_cases ht : t = target
    · subst ht
      simp
    · simp [ht]
  · rw [List.getElem?_modify]
    simp [hg, Ne.symm hg]

theorem inhabited_put {groups : List BlockGroup} {target : TargetInfo} {block group : ℕ}
    (hgroup : group < groups.length)
    (h : ∀ g < groups.length, g ≠ group → ∃ t b, blockAt groups g t = some b) :
    Inhabited (groups.modify group fun blocks => Function.update blocks target (some block)) := by
  intro g hg
  by_cases hsame : g = group
  · exact ⟨target, block, by simp [blockAt_modify hgroup, hsame]⟩
  · obtain ⟨t, b, hb⟩ := h g (by simpa using hg) hsame
    exact ⟨t, b, by simpa [blockAt_modify hgroup, hsame] using hb⟩

/-- A block put into a group is there, and the only one of its target there. -/
theorem Grouped.Holds.put {target : TargetInfo} {blocks : List ℕ} {state : Grouped}
    (h : state.Holds target blocks) {block group : ℕ} (hblock : block ∈ blocks)
    (hnew : state.indices.lookup block = none) (hgroup : group < state.groups.length) :
    (state.put target block group).Holds target blocks ∧
      state.Frame target (state.put target block group) := by
  have hat := blockAt_modify hgroup target block
  refine ⟨⟨fun key g hkey => ?_, fun b g hb => ?_, fun g b hb => ?_⟩,
    ⟨by simp [Grouped.put], fun other hne g => ?_, fun hinhabited => ?_⟩⟩
  · simpa [Grouped.put] using h.arms key g hkey
  · change List.lookup b ((block, group) :: state.indices) = some g at hb
    rw [List.lookup_cons] at hb
    change _ ∧ (blockAt (state.groups.modify _ _) g target).isSome = true
    rw [hat]
    by_cases hb' : b = block
    · subst hb'
      simp only [BEq.rfl, Option.some.injEq] at hb
      subst hb
      exact ⟨hblock, by simp⟩
    · rw [beq_eq_false_iff_ne.mpr hb'] at hb
      obtain ⟨hmem, hsome⟩ := h.indexed b g hb
      refine ⟨hmem, ?_⟩
      split
      · rfl
      · exact hsome
  · change blockAt (state.groups.modify _ _) g target = some b at hb
    rw [hat] at hb
    change List.lookup b ((block, group) :: state.indices) = some g
    rw [List.lookup_cons]
    by_cases hg : g = group
    · simp only [hg, and_self, if_true, Option.some.injEq] at hb
      simp [hb, hg]
    · simp only [hg, false_and, if_false] at hb
      have hindex := h.grouped g b hb
      have hb' : b ≠ block := fun heq => by simp [← heq, hindex] at hnew
      rw [beq_eq_false_iff_ne.mpr hb']
      exact hindex
  · change blockAt (state.groups.modify _ _) g other = _
    rw [hat]
    simp [hne]
  · exact inhabited_put hgroup fun g hg _ => hinhabited g hg

theorem blockAt_append (groups : List BlockGroup) (g : ℕ) (t : TargetInfo) :
    blockAt (groups ++ [fun _ => none]) g t = blockAt groups g t := by
  unfold blockAt
  rw [List.getElem?_append]
  split
  · rfl
  · rename_i hg
    rw [List.getElem?_eq_none (Nat.le_of_not_lt hg)]
    cases h : ([fun _ => none] : List BlockGroup)[g - groups.length]? with
    | none => rfl
    | some blocks =>
      have := List.mem_of_getElem? h
      simp only [List.mem_singleton] at this
      simp [this]

/-- A block of an arm is put into the group of its place on the arm. -/
theorem Grouped.Holds.put_arm {target : TargetInfo} {blocks : List ℕ} {state : Grouped}
    (h : state.Holds target blocks) {block : ℕ} (key : ArmKey) (hblock : block ∈ blocks)
    (hnew : state.indices.lookup block = none) :
    ((state.arm key).1.put target block (state.arm key).2).Holds target blocks ∧
      state.Frame target ((state.arm key).1.put target block (state.arm key).2) := by
  unfold Grouped.arm
  split
  · rename_i group hgroup
    exact h.put hblock hnew (h.arms key group hgroup)
  · have hfresh : Grouped.Holds target blocks
        { state with
          groups := state.groups ++ [fun _ => none]
          arms := (key, state.groups.length) :: state.arms } := by
      refine ⟨fun key' group hkey => ?_, fun b g hb => ?_, fun g b hb => ?_⟩
      · rw [List.lookup_cons] at hkey
        rw [List.length_append, List.length_singleton]
        split at hkey
        · obtain rfl := Option.some.inj hkey
          omega
        · have := h.arms key' group hkey
          omega
      · rw [blockAt_append]
        exact h.indexed b g hb
      · rw [blockAt_append] at hb
        exact h.grouped g b hb
    have hlt : state.groups.length < (state.groups ++ [fun _ => none]).length := by simp
    obtain ⟨hput, hframe⟩ := hfresh.put hblock hnew hlt
    refine ⟨hput, ⟨?_, fun other hne g => ?_, fun hinhabited => ?_⟩⟩
    · exact (by simp : state.groups.length ≤ (state.groups ++ [fun _ => none]).length).trans
        hframe.length
    · exact (hframe.same other hne g).trans (blockAt_append _ _ _)
    · refine inhabited_put (by simp) fun g hg hne => ?_
      obtain ⟨t, b, hb⟩ := hinhabited g (by simp at hg; omega)
      exact ⟨t, b, by rw [blockAt_append, hb]⟩

/-! ## Grouping the blocks of one target -/

section Target

variable {target : TargetInfo} {function : Native.Function} {blocks : List ℕ}

/-- The blocks of an arm are put into groups. -/
theorem walkArm_ok (hclosed : ∀ block next, function.branchTarget block = some next → next ∈ blocks)
    {head width label : ℕ} : ∀ {fuel position : ℕ} {block : Option ℕ} {state state' : Grouped},
      state.Holds target blocks → (∀ b, block = some b → b ∈ blocks) →
      walkArm target function head width label fuel position block state = .ok state' →
      state'.Holds target blocks ∧ state.Frame target state'
  | 0, _, _, state, state', hholds, _, h => by
    obtain rfl := Except.ok.inj h
    exact ⟨hholds, .refl _ _⟩
  | _ + 1, _, none, state, state', hholds, _, h => by
    obtain rfl := Except.ok.inj h
    exact ⟨hholds, .refl _ _⟩
  | fuel + 1, position, some block, state, state', hholds, hblock, h => by
    unfold walkArm at h
    split at h
    · obtain rfl := Except.ok.inj h
      exact ⟨hholds, .refl _ _⟩
    · rename_i hnew
      have hnew : state.indices.lookup block = none := Option.not_isSome_iff_eq_none.mp hnew
      obtain ⟨next, hnext, h⟩ := bind_ok.mp h
      obtain ⟨hput, hframe⟩ := hholds.put_arm (head, width, label, position)
        (hblock block rfl) hnew
      obtain ⟨hholds', hframe'⟩ := walkArm_ok hclosed hput (fun b hb => by
        obtain rfl := Option.some.inj hb
        exact hclosed block _ (require_ok.mp hnext)) h
      exact ⟨hholds', hframe.trans hframe'⟩

/-- Paired blocks are put into groups; each block is paired once. -/
theorem putPairs_ok (base : List (ℕ × ℕ)) : ∀ {pairs : List BlockPair} {state : Grouped},
    state.Holds target blocks → (pairs.filterMap BlockPair.right).Nodup →
    (∀ pair ∈ pairs, ∀ right, pair.right = some right →
      right ∈ blocks ∧ state.indices.lookup right = none) →
    (∀ pair ∈ pairs, ∀ left, pair.left = some left →
      (base.lookup left).getD 0 < state.groups.length) →
    (pairs.foldl (putPair target base) state).Holds target blocks ∧
      state.Frame target (pairs.foldl (putPair target base) state)
  | [], state, hholds, _, _, _ => ⟨hholds, .refl _ _⟩
  | pair :: pairs, state, hholds, hnodup, hright, hleft => by
    obtain ⟨hrightHead, hrightRest⟩ := List.forall_mem_cons.mp hright
    obtain ⟨hleftHead, hleftRest⟩ := List.forall_mem_cons.mp hleft
    rw [List.foldl_cons]
    rcases hr : pair.right with _ | right
    · rw [List.filterMap_cons_none hr] at hnodup
      have hskip : putPair target base state pair = state := by
        unfold putPair
        simp [hr]
      rw [hskip]
      exact putPairs_ok base hholds hnodup hrightRest hleftRest
    · rw [List.filterMap_cons_some hr] at hnodup
      obtain ⟨hfresh, hnodup⟩ := List.nodup_cons.mp hnodup
      rcases hl : pair.left with _ | left
      · have hskip : putPair target base state pair = state := by
          unfold putPair
          simp [hl]
        rw [hskip]
        exact putPairs_ok base hholds hnodup hrightRest hleftRest
      · have hput : putPair target base state pair =
            state.put target right ((base.lookup left).getD 0) := by
          unfold putPair
          simp [hl, hr]
        obtain ⟨hmem, hnew⟩ := hrightHead right hr
        obtain ⟨hholds', hframe⟩ := hholds.put hmem hnew (hleftHead left hl)
        rw [hput]
        obtain ⟨hholds'', hframe'⟩ := putPairs_ok base hholds' hnodup (fun pair' hpair right' hright' => by
          obtain ⟨hmem', hnew'⟩ := hrightRest pair' hpair right' hright'
          refine ⟨hmem', ?_⟩
          have hne : right' ≠ right := fun heq =>
            hfresh (List.mem_filterMap.mpr ⟨pair', hpair, heq ▸ hright'⟩)
          change List.lookup right' ((right, _) :: state.indices) = none
          rw [List.lookup_cons, beq_eq_false_iff_ne.mpr hne]
          exact hnew') (fun pair' hpair left' hleft' =>
            (hleftRest pair' hpair left' hleft').trans_le hframe.length)
        exact ⟨hholds'', hframe.trans hframe'⟩

/-- The blocks of a side of a pairing are the function's, each once. -/
theorem filterMap_on_paired {left right : Native.Function} {cfg : ConditionalCFG}
    (h : PairedCFG left right cfg) (side : Side) :
    cfg.blocks.filterMap (BlockPair.on · side) =
      (side.pick left right).blocks.map Native.Block.id := by
  have hsplit : ∀ entries : List BlockPair, entries.filterMap (BlockPair.on · side) =
      ((entries.filter fun entry => (entry.on side).isSome).map (·.on side)).filterMap id := by
    intro entries
    rw [List.filterMap_map, List.filterMap_filter]
    refine List.filterMap_congr fun entry _ => ?_
    cases hentry : entry.on side <;> simp [hentry]
  rw [hsplit, h.blocks side, List.filterMap_map]
  exact List.filterMap_eq_map' ▸ rfl

theorem lookup_positions_lt {ids : List ℕ} {id : ℕ} (h : ids ≠ []) :
    (ids.zipIdx.lookup id).getD 0 < ids.length := by
  cases hlookup : ids.zipIdx.lookup id with
  | none => exact List.length_pos_iff.mpr h
  | some k =>
    obtain ⟨before, after, hsplit, -⟩ := List.lookup_eq_some_iff.mp hlookup
    have hmem : (id, k) ∈ ids.zipIdx := by simp [hsplit]
    exact List.snd_lt_of_mem_zipIdx hmem

/-- All blocks of the target are put into groups. -/
theorem groupPaired_ok {left : Native.Function} {cfg : ConditionalCFG} {state state' : Grouped}
    (hpaired : PairedCFG left function cfg)
    (hids : function.blocks.map Native.Block.id = blocks)
    (hclosed : ∀ block next, function.branchTarget block = some next → next ∈ blocks)
    (hnone : ∀ group, blockAt state.groups group target = none)
    (harms : ∀ key group, state.arms.lookup key = some group → group < state.groups.length)
    (hlength : left.blocks.length ≤ state.groups.length)
    (h : groupPaired target function (left.blocks.map Native.Block.id).zipIdx cfg state = .ok state') :
    state'.Holds target blocks ∧ state.Frame target state' ∧
      ∀ block ∈ blocks, (state'.indices.lookup block).isSome = true := by
  have hright : cfg.blocks.filterMap BlockPair.right = blocks :=
    (filterMap_on_paired hpaired .right).trans hids
  have hleft : cfg.blocks.filterMap BlockPair.left = left.blocks.map Native.Block.id :=
    filterMap_on_paired hpaired .left
  have hstart : Grouped.Holds target blocks { state with indices := [] } :=
    ⟨harms, by simp, fun g b hb => by simp [hnone] at hb⟩
  have hframe : state.Frame target { state with indices := [] } := ⟨le_rfl, fun _ _ _ => rfl, id⟩
  obtain ⟨hpairs, hframePairs⟩ := putPairs_ok
    (left.blocks.map Native.Block.id).zipIdx hstart (hright ▸ hids ▸ function.nodup)
    (fun pair hpair right hpairRight =>
      ⟨hright ▸ List.mem_filterMap.mpr ⟨pair, hpair, hpairRight⟩, rfl⟩)
    (fun pair hpair left' hpairLeft => by
      have hmem : left' ∈ left.blocks.map Native.Block.id :=
        hleft ▸ List.mem_filterMap.mpr ⟨pair, hpair, hpairLeft⟩
      refine (lookup_positions_lt (List.ne_nil_of_mem hmem)).trans_le ?_
      rwa [List.length_map])
  obtain ⟨walked, hwalked, h⟩ := bind_ok.mp h
  obtain ⟨_, hall, h⟩ := bind_ok.mp h
  obtain rfl := Except.ok.inj h
  have hcase : ∀ selection entry (s s' : Grouped), s.Holds target blocks ∧ state.Frame target s →
      walkCase target function (left.blocks.map Native.Block.id).zipIdx cfg selection s entry =
        .ok s' → s'.Holds target blocks ∧ state.Frame target s' := by
    rintro selection entry s s' ⟨hholds, hframe⟩ hs
    unfold walkCase at hs
    split at hs
    · obtain ⟨hholds', hframe'⟩ := walkArm_ok hclosed hholds (fun b hb => by
        obtain ⟨pair, hpair, hpairRight⟩ := Option.bind_eq_some_iff.mp hb
        exact hright ▸ List.mem_filterMap.mpr ⟨pair, List.mem_of_getElem? hpair, hpairRight⟩) hs
      exact ⟨hholds', hframe.trans hframe'⟩
    · obtain rfl := Except.ok.inj hs
      exact ⟨hholds, hframe⟩
  obtain ⟨hholds, hframe'⟩ := foldlM_keeps
    (fun s : Grouped => s.Holds target blocks ∧ state.Frame target s)
    ⟨hpairs, hframe.trans hframePairs⟩
    (fun selection _ s s' hs hstep => foldlM_keeps
      (fun s : Grouped => s.Holds target blocks ∧ state.Frame target s) hs
      (fun entry _ s s' hs hstep => hcase selection entry s s' hs hstep) hstep) hwalked
  refine ⟨hholds, hframe', fun block hblock => ?_⟩
  obtain ⟨native, hnative, rfl⟩ := List.mem_map.mp (hids ▸ hblock)
  exact expect_ok.mp hall native hnative

/-! ## Entries -/

theorem lookup_put {state : Grouped} {block group other index : ℕ}
    (hnew : state.indices.lookup block = none) (h : state.indices.lookup other = some index) :
    (state.put target block group).indices.lookup other = some index := by
  have hne : other ≠ block := fun heq => by simp [← heq, h] at hnew
  change List.lookup other ((block, group) :: state.indices) = some index
  rw [List.lookup_cons, beq_eq_false_iff_ne.mpr hne]
  exact h

theorem indices_arm (state : Grouped) (key : ArmKey) : (state.arm key).1.indices = state.indices := by
  unfold Grouped.arm
  split <;> rfl

/-- A block that is in a group stays there while an arm is put into groups. -/
theorem walkArm_lookup {head width label other index : ℕ} : ∀ {fuel position : ℕ}
    {block : Option ℕ} {state state' : Grouped}, state.indices.lookup other = some index →
      walkArm target function head width label fuel position block state = .ok state' →
      state'.indices.lookup other = some index
  | 0, _, _, state, state', hother, h => by
    obtain rfl := Except.ok.inj h
    exact hother
  | _ + 1, _, none, state, state', hother, h => by
    obtain rfl := Except.ok.inj h
    exact hother
  | fuel + 1, position, some block, state, state', hother, h => by
    unfold walkArm at h
    split at h
    · obtain rfl := Except.ok.inj h
      exact hother
    · rename_i hnew
      obtain ⟨next, -, h⟩ := bind_ok.mp h
      have hnew : state.indices.lookup block = none := Option.not_isSome_iff_eq_none.mp hnew
      rw [← indices_arm state (head, width, label, position)] at hnew hother
      exact walkArm_lookup (lookup_put hnew hother) h

/-- Paired blocks put into groups later leave a block in its group. -/
theorem putPairs_lookup (base : List (ℕ × ℕ)) {other index : ℕ} : ∀ {pairs : List BlockPair}
    {state : Grouped}, other ∉ pairs.filterMap BlockPair.right →
      state.indices.lookup other = some index →
      (pairs.foldl (putPair target base) state).indices.lookup other = some index
  | [], _, _, h => h
  | pair :: pairs, state, hother, h => by
    rw [List.foldl_cons]
    have hrest : other ∉ pairs.filterMap BlockPair.right := fun hmem => hother <| by
      obtain ⟨later, hlater, hright⟩ := List.mem_filterMap.mp hmem
      exact List.mem_filterMap.mpr ⟨later, List.mem_cons_of_mem _ hlater, hright⟩
    refine putPairs_lookup base hrest ?_
    unfold putPair
    split
    · rename_i left right hleft hright
      have hne : other ≠ right := fun heq =>
        hother (List.mem_filterMap.mpr ⟨pair, List.mem_cons_self, heq ▸ hright⟩)
      change List.lookup other ((right, _) :: state.indices) = some index
      rw [List.lookup_cons, beq_eq_false_iff_ne.mpr hne]
      exact h
    · exact h

/-- The entry of another target is in the group of the first target's entry. -/
theorem groupPaired_entry {left : Native.Function} {cfg : ConditionalCFG} {state state' : Grouped}
    (hpair : pairConditionalCFG left function = .ok cfg)
    (h : groupPaired target function (left.blocks.map Native.Block.id).zipIdx cfg state = .ok state') :
    ∃ entry, function.entry = some entry ∧ state'.indices.lookup entry = some 0 := by
  obtain ⟨x, y, hx, hy, hmem⟩ := pairConditionalCFG_entry hpair
  have hnodup : (cfg.blocks.filterMap (BlockPair.on · .right)).Nodup := by
    obtain ⟨_, _, _, hfinished, rfl⟩ := Pairing.pairConditionalCFG_ok hpair
    exact filterMap_on_paired hfinished.pairedCFG .right ▸ function.nodup
  have hfirst : (left.blocks.map Native.Block.id).zipIdx.lookup x = some 0 := by
    obtain ⟨first, hfirst, rfl⟩ := Option.map_eq_some_iff.mp hx
    obtain ⟨rest, hrest⟩ := List.head?_eq_some_iff.mp hfirst
    simp [hrest]
  obtain ⟨walked, hwalked, h⟩ := bind_ok.mp h
  obtain ⟨_, -, h⟩ := bind_ok.mp h
  obtain rfl := Except.ok.inj h
  refine ⟨y, hy, ?_⟩
  obtain ⟨before, after, hsplit⟩ := List.append_of_mem hmem
  have hpairs : (cfg.blocks.foldl (putPair target (left.blocks.map Native.Block.id).zipIdx)
      { state with indices := [] }).indices.lookup y = some 0 := by
    rw [hsplit, List.filterMap_append] at hnodup
    have hafter : y ∉ after.filterMap BlockPair.right :=
      (List.nodup_cons.mp (List.nodup_append.mp hnodup).2.1).1
    rw [hsplit, List.foldl_append, List.foldl_cons]
    refine putPairs_lookup _ hafter ?_
    simp only [putPair, Grouped.put, hfirst, Option.getD_some, List.lookup_cons, BEq.rfl]
  refine foldlM_keeps (fun s : Grouped => s.indices.lookup y = some 0) hpairs
    (fun selection _ s s' hs hstep => foldlM_keeps
      (fun s : Grouped => s.indices.lookup y = some 0) hs (fun entry _ s s' hs hcase => ?_) hstep)
    hwalked
  unfold walkCase at hcase
  split at hcase
  · exact walkArm_lookup hs hcase
  · obtain rfl := Except.ok.inj hcase
    exact hs

end Target

/-! ## The blocks of all targets -/

/-- The groups hold a target's blocks, and `order` is the groups of its blocks in their
order. -/
structure Placed (groups : List BlockGroup) (target : TargetInfo) (blocks : List ℕ)
    (order : List ℕ) : Prop where
  order : ∃ index : ℕ → ℕ, order = blocks.map index ∧
    (∀ group block, blockAt groups group target = some block → block ∈ blocks ∧ index block = group) ∧
    ∀ block ∈ blocks, (blockAt groups (index block) target).isSome = true

theorem Placed.frame {groups groups' : List BlockGroup} {target : TargetInfo} {blocks order : List ℕ}
    (h : Placed groups target blocks order)
    (hsame : ∀ group, blockAt groups' group target = blockAt groups group target) :
    Placed groups' target blocks order := by
  obtain ⟨index, horder, hgrouped, hindexed⟩ := h
  exact ⟨index, horder, fun group block => hsame group ▸ hgrouped group block,
    fun block hblock => hsame (index block) ▸ hindexed block hblock⟩

theorem Placed.lt {groups : List BlockGroup} {target : TargetInfo} {blocks order : List ℕ}
    (h : Placed groups target blocks order) : ∀ group ∈ order, group < groups.length := by
  obtain ⟨index, rfl, -, hindexed⟩ := h
  intro group hgroup
  obtain ⟨block, hblock, rfl⟩ := List.mem_map.mp hgroup
  by_contra hle
  have hsome := hindexed block hblock
  rw [blockAt, List.getElem?_eq_none (Nat.le_of_not_lt hle)] at hsome
  simp at hsome

theorem Grouped.Holds.placed {target : TargetInfo} {blocks : List ℕ} {state : Grouped}
    (h : state.Holds target blocks)
    (hall : ∀ block ∈ blocks, (state.indices.lookup block).isSome = true) :
    Placed state.groups target blocks
      (blocks.map fun block => (state.indices.lookup block).getD 0) := by
  refine ⟨_, rfl, fun group block hblock => ?_, fun block hblock => ?_⟩
  · have hindex := h.grouped group block hblock
    exact ⟨(h.indexed block group hindex).1, by rw [hindex, Option.getD_some]⟩
  · obtain ⟨group, hgroup⟩ := Option.isSome_iff_exists.mp (hall block hblock)
    rw [hgroup, Option.getD_some]
    exact (h.indexed block group hgroup).2

/-- A function over the numbers of an order, where the others give nothing. -/
theorem filterMap_sublist_eq {α : Type} {f : ℕ → Option α} :
    ∀ {order joint : List ℕ}, order.Sublist joint → joint.Nodup →
      (∀ group ∈ joint, group ∉ order → f group = none) → joint.filterMap f = order.filterMap f
  | _, _, .slnil, _, _ => rfl
  | order, group :: joint, .cons _ h, hnodup, hnone => by
    obtain ⟨hgroup, hnodup⟩ := List.nodup_cons.mp hnodup
    have hnot : group ∉ order := fun hmem => hgroup (h.subset hmem)
    rw [List.filterMap_cons_none (hnone group (by simp) hnot)]
    exact filterMap_sublist_eq h hnodup fun g hg => hnone g (List.mem_cons_of_mem _ hg)
  | group :: order, _ :: joint, .cons_cons _ h, hnodup, hnone => by
    obtain ⟨hgroup, hnodup⟩ := List.nodup_cons.mp hnodup
    have ih := filterMap_sublist_eq (f := f) h hnodup fun g hg hnot =>
      hnone g (List.mem_cons_of_mem _ hg) fun hmem => by
        rcases List.mem_cons.mp hmem with rfl | hmem
        · exact hgroup hg
        · exact hnot hmem
    rw [List.filterMap_cons, List.filterMap_cons, ih]

/-- In an order that keeps the target's order, the target's blocks of the groups are its
blocks in their order. -/
theorem Placed.filterMap {groups : List BlockGroup} {target : TargetInfo} {blocks order joint : List ℕ}
    (h : Placed groups target blocks order) (hnodup : joint.Nodup) (hsublist : order.Sublist joint) :
    joint.filterMap (blockAt groups · target) = blocks := by
  obtain ⟨index, rfl, hgrouped, hindexed⟩ := h
  have hinjective := hsublist.nodup hnodup
  rw [filterMap_sublist_eq hsublist hnodup fun group _ hgroup => ?_, List.filterMap_map]
  · have hall : ∀ block ∈ blocks, blockAt groups (index block) target = some block := by
      intro block hblock
      obtain ⟨other, hother⟩ := Option.isSome_iff_exists.mp (hindexed block hblock)
      obtain ⟨hmem, heq⟩ := hgrouped _ _ hother
      rwa [List.inj_on_of_nodup_map hinjective hmem hblock heq] at hother
    exact (List.filterMap_congr hall).trans List.filterMap_some
  · by_contra hsome
    obtain ⟨block, hblock⟩ := Option.ne_none_iff_exists'.mp hsome
    obtain ⟨hmem, rfl⟩ := hgrouped _ _ hblock
    exact hgroup (List.mem_map_of_mem hmem)

/-- What is known once some targets are grouped. -/
structure GroupedTo (passed : List (TargetInfo × List ℕ)) (count : ℕ)
    (state : Grouped × List (List ℕ)) : Prop where
  arms : ∀ key group, state.1.arms.lookup key = some group → group < state.1.groups.length
  length : count ≤ state.1.groups.length
  inhabited : Inhabited state.1.groups
  placed : List.Forall₂ (fun target order => Placed state.1.groups target.1 target.2 order)
    passed state.2
  others : ∀ target ∉ passed.map Prod.fst, ∀ group, blockAt state.1.groups group target = none

theorem pairWith_ok {base : TargetInfo × Definition × Native.Function}
    {input : TargetInfo × Native.Function} {cfg : ConditionalCFG}
    (h : pairWith base input = .ok cfg) : pairConditionalCFG base.2.2 input.2 = .ok cfg := by
  unfold pairWith at h
  split at h
  · rename_i cfg' hpair
    obtain rfl := Except.ok.inj h
    exact hpair
  · simp [fail] at h

theorem groupTarget_ok {base : TargetInfo × Definition × Native.Function}
    {passed : List (TargetInfo × List ℕ)} {state state' : Grouped × List (List ℕ)}
    {input : TargetInfo × Native.Function} (hstate : GroupedTo passed base.2.2.blocks.length state)
    (hnew : input.1 ∉ passed.map Prod.fst)
    (hclosed : ∀ block next, input.2.branchTarget block = some next →
      next ∈ input.2.blocks.map Native.Block.id)
    (h : groupTarget base state input = .ok state') :
    GroupedTo (passed ++ [(input.1, input.2.blocks.map Native.Block.id)]) base.2.2.blocks.length
      state' := by
  obtain ⟨cfg, hcfg, h⟩ := bind_ok.mp h
  obtain ⟨grouped, hgrouped, h⟩ := bind_ok.mp h
  obtain rfl := Except.ok.inj h
  obtain ⟨_, _, _, hfinished, rfl⟩ := Pairing.pairConditionalCFG_ok (pairWith_ok hcfg)
  obtain ⟨hholds, hframe, hall⟩ := groupPaired_ok hfinished.pairedCFG rfl
    hclosed (hstate.others input.1 hnew) hstate.arms hstate.length hgrouped
  refine ⟨hholds.arms, hstate.length.trans hframe.length, hframe.inhabited hstate.inhabited, ?_,
    fun target htarget group => ?_⟩
  · refine List.rel_append (forall₂_imp_of_mem hstate.placed fun target htarget order _ hplaced =>
      hplaced.frame (hframe.same target.1 fun heq => hnew ?_)) (.cons ?_ .nil)
    · exact heq ▸ List.mem_map_of_mem htarget
    · have := hholds.placed hall
      rwa [List.map_map] at this
  · simp only [List.map_append, List.map_cons, List.map_nil, List.mem_append, List.mem_singleton,
      not_or] at htarget
    exact (hframe.same target htarget.2 group).trans (hstate.others target htarget.1 group)

theorem groupTargets_ok {base : TargetInfo × Definition × Native.Function} :
    ∀ {others : List (TargetInfo × Native.Function)} {passed : List (TargetInfo × List ℕ)}
      {state state' : Grouped × List (List ℕ)},
      GroupedTo passed base.2.2.blocks.length state →
      (passed.map Prod.fst ++ others.map Prod.fst).Nodup →
      (∀ input ∈ others, ∀ block next, input.2.branchTarget block = some next →
        next ∈ input.2.blocks.map Native.Block.id) →
      others.foldlM (groupTarget base) state = .ok state' →
      GroupedTo (passed ++ others.map fun input =>
        (input.1, input.2.blocks.map Native.Block.id)) base.2.2.blocks.length state'
  | [], passed, state, state', hstate, _, _, h => by
    obtain rfl := Except.ok.inj h
    simpa using hstate
  | input :: others, passed, state, state', hstate, hnodup, hclosed, h => by
    obtain ⟨next, hnext, h⟩ := foldlM_cons_ok.mp h
    obtain ⟨hinput, hothers⟩ := List.forall_mem_cons.mp hclosed
    have hnew : input.1 ∉ passed.map Prod.fst := fun hmem =>
      (List.nodup_append.mp hnodup).2.2 _ hmem _ (by simp) rfl
    have ih := groupTargets_ok (groupTarget_ok hstate hnew hinput hnext) (by simpa using hnodup)
      hothers h
    simpa using ih

/-- At the start each block of the first target is a group. -/
theorem groupedTo_start (base : TargetInfo × Definition × Native.Function) :
    GroupedTo [(base.1, base.2.2.blocks.map Native.Block.id)] base.2.2.blocks.length
      (⟨base.2.2.blocks.map fun block => Function.update (fun _ => none) base.1 (some block.id),
        [], []⟩, [List.range base.2.2.blocks.length]) := by
  obtain ⟨target, definition, function⟩ := base
  have hat : ∀ group t, blockAt (function.blocks.map fun block =>
      Function.update (fun _ => none) target (some block.id)) group t =
      if t = target then (function.blocks.map Native.Block.id)[group]? else none := by
    intro group t
    unfold blockAt
    rw [List.getElem?_map, List.getElem?_map]
    by_cases ht : t = target
    · subst ht
      cases function.blocks[group]? <;> simp
    · cases function.blocks[group]? <;> simp [ht]
  refine ⟨by simp, by simp, fun group hgroup => ⟨target, ?_⟩, .cons ?_ .nil, fun t ht group => ?_⟩
  · have hlt : group < (function.blocks.map Native.Block.id).length := by simpa using hgroup
    exact ⟨_, by rw [hat, if_pos rfl, List.getElem?_eq_getElem hlt]⟩
  · refine ⟨(function.blocks.map Native.Block.id).idxOf, ?_, fun group block hblock => ?_,
      fun block hblock => ?_⟩
    · refine List.ext_getElem (by simp) fun k hk hk' => ?_
      rw [List.getElem_range, List.getElem_map, function.nodup.idxOf_getElem]
    · rw [hat, if_pos rfl] at hblock
      obtain ⟨hlt, rfl⟩ := List.getElem?_eq_some_iff.mp hblock
      exact ⟨List.getElem_mem hlt, function.nodup.idxOf_getElem group hlt⟩
    · rw [hat, if_pos rfl, List.getElem?_idxOf hblock]
      rfl
  · rw [hat, if_neg (by simpa using ht)]

/-- The groups of blocks and the order they are put in, which keeps the order of each target and
starts from the entries. -/
structure Joint (functions : Observations TargetInfo Definition) (grouped : List BlockGroup)
    (orders : List (List ℕ)) (joint : List ℕ) : Prop where
  inhabited : Inhabited grouped
  placed : List.Forall₂ (fun function order =>
    Placed grouped function.1 (function.2.body.map Block.id) order) functions orders
  others : ∀ target ∉ functions.map Prod.fst, ∀ group, blockAt grouped group target = none
  perm : joint.Perm (List.range grouped.length)
  sublist : ∀ order ∈ orders, order.Sublist joint
  entries : ∀ order ∈ orders, order ≠ [] → order.head? = some 0

/-- Each target's order starts from the group of its entry. -/
theorem groupTargets_entries {base : TargetInfo × Definition × Native.Function}
    {others : List (TargetInfo × Native.Function)} {state state' : Grouped × List (List ℕ)}
    (hstate : ∀ order ∈ state.2, order ≠ [] → order.head? = some 0)
    (h : others.foldlM (groupTarget base) state = .ok state') :
    ∀ order ∈ state'.2, order ≠ [] → order.head? = some 0 := by
  refine foldlM_keeps (fun state : Grouped × List (List ℕ) =>
    ∀ order ∈ state.2, order ≠ [] → order.head? = some 0) hstate
    (fun input _ s s' hs hstep => ?_) h
  obtain ⟨cfg, hcfg, hstep⟩ := bind_ok.mp hstep
  obtain ⟨grouped, hgrouped, hstep⟩ := bind_ok.mp hstep
  obtain rfl := Except.ok.inj hstep
  obtain ⟨entry, hentry, hindex⟩ := groupPaired_entry (pairWith_ok hcfg) hgrouped
  refine List.forall_mem_append.mpr ⟨hs, fun order horder _ => ?_⟩
  obtain rfl := List.mem_singleton.mp horder
  obtain ⟨first, hfirst, rfl⟩ := Option.map_eq_some_iff.mp hentry
  rw [List.head?_map, hfirst, Option.map_some, hindex, Option.getD_some]

theorem correspondence_joint {verifyFunction : Native.Function → Bool}
    {functions : Observations TargetInfo Definition} {groups : List BlockGroup}
    (hnodup : (functions.map Prod.fst).Nodup)
    (h : correspondence verifyFunction functions = .ok groups) :
    ∃ grouped orders joint, Joint functions grouped orders joint ∧
      groups = joint.filterMap (grouped[·]?) := by
  obtain ⟨inputs, hinputs, h⟩ := bind_ok.mp h
  have hgraphs : List.Forall₂ (fun (function : TargetInfo × Definition)
      (input : TargetInfo × Native.Function) => input.1 = function.1 ∧
        graph verifyFunction function.2 = .ok input.2) functions inputs :=
    (mapM_ok.mp hinputs).imp fun function input hinput => by
      obtain ⟨native, hnative, hinput⟩ := bind_ok.mp hinput
      obtain rfl := Except.ok.inj hinput
      exact ⟨rfl, hnative⟩
  rcases functions with _ | ⟨base, rest⟩
  · obtain rfl := Except.ok.inj h
    exact ⟨[], [], [], ⟨by simp [Inhabited], .nil, by simp [blockAt], .refl _, by simp, by simp⟩, rfl⟩
  obtain ⟨input, others, hbase, hothers, rfl⟩ := List.forall₂_cons_left_iff.mp hgraphs
  obtain ⟨⟨grouped, orders⟩, hgrouped, h⟩ := bind_ok.mp h
  obtain ⟨joint, hjoint, h⟩ := bind_ok.mp h
  obtain rfl := Except.ok.inj h
  have hjoint := require_ok.mp hjoint
  have htargets : others.map Prod.fst = rest.map Prod.fst :=
    map_eq_of_forall₂ (hothers.imp fun _ _ h => h.1)
  have hpassed : GroupedTo ((base :: rest).map fun function =>
      (function.1, function.2.body.map Block.id)) input.2.blocks.length (grouped, orders) := by
    have hids : ((base.1, input.2.blocks.map Native.Block.id) :: others.map fun input =>
        (input.1, input.2.blocks.map Native.Block.id)) = (base :: rest).map fun function =>
          (function.1, function.2.body.map Block.id) := by
      rw [List.map_cons, (graph_ok hbase.2).1]
      refine congrArg _ (map_eq_of_forall₂ (hothers.imp fun function input h => ?_))
      rw [h.1, (graph_ok h.2).1]
    rw [← hids]
    refine groupTargets_ok (groupedTo_start (base.1, base.2, input.2)) ?_ ?_ hgrouped
    · simpa [htargets] using hnodup
    · intro other hother block next hnext
      obtain ⟨function, -, -, hgraph⟩ := exists_of_forall₂_right hothers hother
      rw [(graph_ok hgraph).1]
      exact (graph_ok hgraph).2 block next hnext
  have hplaced := List.forall₂_map_left_iff.mp hpassed.placed
  obtain ⟨hperm, hsublist⟩ := jointOrder_spec (fun order horder => by
    obtain ⟨_, -, hplaced⟩ := exists_of_forall₂_right hplaced horder
    exact hplaced.lt) hjoint
  refine ⟨grouped.groups, orders, joint, ⟨hpassed.inhabited, hplaced, fun target htarget =>
    hpassed.others target (by simpa [Function.comp_def] using htarget), hperm, hsublist,
    groupTargets_entries (fun order horder hne => ?_) hgrouped⟩, rfl⟩
  obtain rfl := List.mem_singleton.mp horder
  rw [List.head?_range, if_neg (by simpa using hne)]

/-- The groups have a block of every target that has one there, and of no other target; in
the order they are in, the blocks of each target are the function's in its own order, and no
group is empty. -/
theorem correspondence_ok {verifyFunction : Native.Function → Bool}
    {functions : Observations TargetInfo Definition} {groups : List BlockGroup}
    (hnodup : (functions.map Prod.fst).Nodup)
    (h : correspondence verifyFunction functions = .ok groups) :
    (∀ target function, (target, function) ∈ functions →
      groups.filterMap (fun group => group target) = function.body.map Block.id) ∧
    (∀ target ∉ functions.map Prod.fst, ∀ group ∈ groups, group target = none) ∧
    ∀ group ∈ groups, ∃ target block, group target = some block := by
  obtain ⟨grouped, orders, joint, hjoint, rfl⟩ := correspondence_joint hnodup h
  have hgroup : ∀ group ∈ joint.filterMap (grouped[·]?), ∃ k < grouped.length, ∀ target,
      blockAt grouped k target = group target := by
    intro group hgroup
    obtain ⟨k, -, hk⟩ := List.mem_filterMap.mp hgroup
    exact ⟨k, (List.getElem?_eq_some_iff.mp hk).1, fun target => by rw [blockAt, hk]; rfl⟩
  refine ⟨fun target function hfunction => ?_, fun target htarget group hmem => ?_,
    fun group hmem => ?_⟩
  · obtain ⟨order, horder, hplaced⟩ := exists_of_forall₂_left hjoint.placed hfunction
    rw [List.filterMap_filterMap]
    exact hplaced.filterMap (hjoint.perm.nodup_iff.mpr List.nodup_range)
      (hjoint.sublist order horder)
  · obtain ⟨k, -, hk⟩ := hgroup group hmem
    rw [← hk target]
    exact hjoint.others target htarget k
  · obtain ⟨k, hlt, hk⟩ := hgroup group hmem
    obtain ⟨target, block, hblock⟩ := hjoint.inhabited k hlt
    exact ⟨target, block, by rw [← hk target, hblock]⟩

/-- The first group is that of the entries. -/
theorem correspondence_entry {verifyFunction : Native.Function → Bool}
    {functions : Observations TargetInfo Definition} {groups : List BlockGroup}
    (hnodup : (functions.map Prod.fst).Nodup)
    (h : correspondence verifyFunction functions = .ok groups)
    (hbodies : ∀ entry ∈ functions, entry.2.body ≠ []) :
    ∀ group ∈ groups.head?, ∀ target ∈ functions.map Prod.fst, (group target).isSome = true := by
  obtain ⟨grouped, orders, joint, hjoint, rfl⟩ := correspondence_joint hnodup h
  have hnonempty : ∀ function order, function ∈ functions →
      Placed grouped function.1 (function.2.body.map Block.id) order → order ≠ [] := by
    rintro function order hfunction ⟨index, rfl, -⟩
    simpa using hbodies function hfunction
  cases joint with
  | nil => simp
  | cons first rest =>
    -- Another first group would be after the first one in the order of its target.
    have hfirst : first < grouped.length := List.mem_range.mp (hjoint.perm.subset (by simp))
    obtain rfl : first = 0 := by
      obtain ⟨target, block, hblock⟩ := hjoint.inhabited first hfirst
      have htarget : target ∈ functions.map Prod.fst := by
        by_contra hnot
        rw [hjoint.others target hnot] at hblock
        simp at hblock
      obtain ⟨function, hfunction, rfl⟩ := List.mem_map.mp htarget
      obtain ⟨order, horder, hplaced⟩ := exists_of_forall₂_left hjoint.placed hfunction
      have hhead := hjoint.entries order horder (hnonempty function order hfunction hplaced)
      have hmem : first ∈ order := by
        obtain ⟨index, rfl, hgrouped, -⟩ := hplaced
        obtain ⟨hblocks, rfl⟩ := hgrouped first block hblock
        exact List.mem_map_of_mem hblocks
      have hfresh := (List.nodup_cons.mp (hjoint.perm.nodup_iff.mpr List.nodup_range)).1
      obtain ⟨others, rfl⟩ := List.head?_eq_some_iff.mp hhead
      rcases List.sublist_cons_iff.mp (hjoint.sublist _ horder) with hsublist | ⟨_, heq, -⟩
      · exact absurd (hsublist.subset hmem) hfresh
      · exact (List.cons.inj heq).1.symm
    intro group hgroup target htarget
    obtain ⟨function, hfunction, rfl⟩ := List.mem_map.mp htarget
    obtain ⟨order, horder, index, rfl, -, hindexed⟩ := exists_of_forall₂_left hjoint.placed hfunction
    have hhead := hjoint.entries _ horder (by simpa using hbodies function hfunction)
    obtain ⟨block, hblock, hindex⟩ := List.mem_map.mp (List.mem_of_head? hhead)
    have hsome := hindexed block hblock
    rw [hindex, blockAt, List.getElem?_eq_getElem hfirst] at hsome
    rw [List.filterMap_cons_some (List.getElem?_eq_getElem hfirst)] at hgroup
    obtain rfl := Option.some.inj hgroup
    exact hsome

end Merger

end Sela
