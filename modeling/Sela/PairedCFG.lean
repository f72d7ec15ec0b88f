import Sela.Pairing

/-!
# A pairing of two functions can be read back

`PairedCFG` says what a pairing that succeeded holds: the blocks of each side in their
order with inverse position maps, matching terminators of shared blocks, each switch's
native cases in their order, and a private arm around every other block.
-/

namespace Sela

open Native OrderMerge

/-! ## What a pairing is -/

def SwitchPair.on (record : SwitchPair) (side : Side) : Switch :=
  side.pick record.left record.right

def CasePair.label (entry : CasePair) (side : Side) : Option ℕ :=
  side.pick entry.left entry.right

def CasePair.index (entry : CasePair) (side : Side) : Option ℕ :=
  side.pick entry.leftIndex entry.rightIndex

def ConditionalCFG.blocksOn (cfg : ConditionalCFG) (side : Side) : List (ℕ × ℕ) :=
  side.pick cfg.leftBlocks cfg.rightBlocks

def ConditionalCFG.switchesOn (cfg : ConditionalCFG) (side : Side) : List (ℕ × ℕ) :=
  side.pick cfg.leftSwitches cfg.rightSwitches

/-- Two native blocks are mapped to one shared entry. -/
def ConditionalCFG.Common (cfg : ConditionalCFG) (x y : ℕ) : Prop :=
  ∃ index entry, cfg.leftBlocks.lookup x = some index ∧ cfg.rightBlocks.lookup y = some index ∧
    cfg.blocks[index]? = some entry ∧ entry.domain = .both

/-- The private arm of a one-sided switch case. -/
structure PrivateChain (function : Function) (side : Side) (cfg : ConditionalCFG)
    (chain : List ℕ) : Prop where
  /-- It is entered by the edge of a case that one side alone has, and by no other edge. -/
  entered : ∃ record ∈ cfg.switches, ∃ entry ∈ record.cases, entry.domain = .only side ∧
    ∃ first exit, (cfg.blocksOn side).lookup first = some entry.successor ∧
      (∃ case ∈ (record.on side).cases, case.target = first ∧
        entry.label side = some case.label) ∧
      ArmPath function (record.on side).parent first chain exit ∧
      ∃ index shared, (cfg.blocksOn side).lookup exit = some index ∧
        cfg.blocks[index]? = some shared ∧ shared.domain = .both
  members : ∀ block ∈ chain, ∃ entry ∈ cfg.blocks, entry.on side = some block ∧
    entry.domain = .only side
  /-- What it defines is used on it only. -/
  closed : ∀ block ∈ chain, ∀ value ∈ function.defines block, ∀ user ∈ function.users value,
    user ∈ chain

/-- A switch of the result, and the two native switches it can be read back to. -/
structure PairedSwitch (left right : Function) (cfg : ConditionalCFG) (record : SwitchPair) :
    Prop where
  parents : cfg.Common record.left.parent record.right.parent
  native : ∀ side, (side.pick left right).terminator (record.on side).parent =
    some (record.on side).terminator
  default : ∀ side, (cfg.blocksOn side).lookup (record.on side).defaultDest =
    some record.defaultSuccessor
  present : ∀ entry ∈ record.cases, ∀ side,
    (entry.label side).isSome = entry.domain.includes side
  labels : ∀ entry ∈ record.cases, entry.domain = .both → entry.left = entry.right
  cases : ∀ side, List.Forall₂
    (fun entry native => entry.label side = some native.1.label ∧
      entry.index side = some native.2 ∧
      (cfg.blocksOn side).lookup native.1.target = some entry.successor)
    (record.cases.filter fun entry => entry.domain.includes side)
    (record.on side).cases.zipIdx

/-- Both functions can be read back from a pairing. -/
structure PairedCFG (left right : Function) (cfg : ConditionalCFG) : Prop where
  blocks : ∀ side, (cfg.blocks.filter fun entry => (entry.on side).isSome).map (·.on side) =
    (side.pick left right).blocks.map fun b => some b.id
  wellFormed : ∀ entry ∈ cfg.blocks, entry.WellFormed
  positions : ∀ side block index, (cfg.blocksOn side).lookup block = some index ↔
    ∃ entry, cfg.blocks[index]? = some entry ∧ entry.on side = some block
  terminators : ∀ entry ∈ cfg.blocks, entry.domain = .both → ∃ a b x y,
    entry.left = some a ∧ entry.right = some b ∧ left.terminator a = some x ∧
      right.terminator b = some y ∧ TerminatorsMatch cfg.Common x y
  recorded : ∀ entry ∈ cfg.blocks, entry.domain = .both → ∀ a, entry.left = some a →
    ∀ switch, switch.parent = a → left.terminator a = some switch.terminator →
      ∃ record ∈ cfg.switches, record.left = switch
  switches : ∀ record ∈ cfg.switches, PairedSwitch left right cfg record
  switchPositions : ∀ side block index, (cfg.switchesOn side).lookup block = some index ↔
    ∃ record, cfg.switches[index]? = some record ∧ (record.on side).parent = block
  arms : ∀ entry ∈ cfg.blocks, ∀ side, entry.domain = .only side → ∃ chain block,
    entry.on side = some block ∧ block ∈ chain ∧
      PrivateChain (side.pick left right) side cfg chain
  conditional : cfg.conditional = true ↔
    ∃ record ∈ cfg.switches, ∃ entry ∈ record.cases, entry.domain ≠ .both
  phis : cfg.conditional = true → left.hasPhi = false ∧ right.hasPhi = false

namespace Pairing

variable {left right : Function}

/-! ## The result -/

/-- A finished pairing: all blocks are mapped, and `order` merges both functions' orders. -/
structure Finished (left right : Function) (s₁ s : Pairing) (order : List ℕ) : Prop where
  matched : MatchedTo left right s₁.pairs.length s₁
  qualified : Qualified left right s₁ s₁.arms s
  lengths : ∀ side, (s.mapping side).length = (side.pick left right).blocks.length
  merged : mergeOrder (fun index => (s.pairs.getD index {}).domain) (orderOf left s.leftPairs)
    (orderOf right s.rightPairs) = some order
  phis : s₁.arms ≠ [] → left.hasPhi = false ∧ right.hasPhi = false
  entry : ∃ x y, left.entry = some x ∧ right.entry = some y ∧ s₁.Linked x y

theorem pairConditionalCFG_ok {cfg : ConditionalCFG} (h : pairConditionalCFG left right = .ok cfg) :
    ∃ s₁ s order, Finished left right s₁ s order ∧ cfg = s.result order := by
  unfold pairConditionalCFG at h
  obtain ⟨_, _, h⟩ := Checked.bind_ok.mp h
  obtain ⟨_, _, h⟩ := Checked.bind_ok.mp h
  obtain ⟨s₁, hshared, h⟩ := Checked.bind_ok.mp h
  obtain ⟨_, hphis, h⟩ := Checked.bind_ok.mp h
  obtain ⟨s, hqualify, h⟩ := Checked.bind_ok.mp h
  obtain ⟨_, hlengths, h⟩ := Checked.bind_ok.mp h
  obtain ⟨order, horder, h⟩ := Checked.bind_ok.mp h
  obtain ⟨hleft, hright⟩ := Checked.ensure_ok.mp hlengths
  have hmatched := matchShared_ok hshared
  refine ⟨s₁, s, order, ⟨hmatched, qualifyArms_ok hmatched.indexed hqualify, fun side => ?_,
    Checked.require_ok.mp horder, Checked.ensure_ok.mp hphis, matchShared_entry hshared⟩,
    (Except.ok.inj h).symm⟩
  cases side with
  | left => exact hleft
  | right => exact hright

namespace Finished

variable {s₁ s : Pairing} {order : List ℕ}

theorem forall₂_orderOf (h : Finished left right s₁ s order) (side : Side) :
    List.Forall₂ (fun (index : ℕ) (b : Block) => ∃ entry, s.pairs[index]? = some entry ∧
      entry.on side = some b.id)
      (orderOf (side.pick left right) (s.mapping side)) (side.pick left right).blocks := by
  rw [orderOf, List.forall₂_map_left_iff, List.forall₂_same]
  intro b hb
  obtain ⟨index, hindex⟩ := h.qualified.indexed.mapped_of_length (h.lengths side) hb
  rw [hindex, Option.getD_some]
  exact (h.qualified.indexed.mapped side b.id index).mp hindex

theorem includes_orderOf (h : Finished left right s₁ s order) (side : Side) :
    ∀ index ∈ orderOf (side.pick left right) (s.mapping side),
      (s.pairs.getD index {}).domain.includes side = true := by
  intro index hindex
  obtain ⟨b, _, entry, hentry, hon⟩ :=
    Checked.exists_of_forall₂_left (h.forall₂_orderOf side) hindex
  have hwell := h.qualified.indexed.wellFormed entry (List.mem_of_getElem? hentry) side
  rw [hon] at hwell
  rw [List.getD_eq_getElem?_getD, hentry]
  exact hwell.symm

theorem filter_order (h : Finished left right s₁ s order) (side : Side) :
    order.filter (fun index => (s.pairs.getD index {}).domain.includes side) =
      orderOf (side.pick left right) (s.mapping side) := by
  rw [mergeOrder_filter _ _ _ order h.merged (h.includes_orderOf .left) (h.includes_orderOf .right)]
  cases side <;> rfl

theorem mem_order (h : Finished left right s₁ s order) {index : ℕ} (hindex : index ∈ order) :
    ∃ entry, s.pairs[index]? = some entry := by
  have hside : ∃ side : Side, index ∈ orderOf (side.pick left right) (s.mapping side) :=
    ((mem_of_mergeOrder _ _ _ order h.merged (h.includes_orderOf .left)
      (h.includes_orderOf .right)).mp hindex).elim (fun hx => ⟨.left, hx⟩) fun hx => ⟨.right, hx⟩
  obtain ⟨side, hside⟩ := hside
  obtain ⟨_, _, entry, hentry, _⟩ :=
    Checked.exists_of_forall₂_left (h.forall₂_orderOf side) hside
  exact ⟨entry, hentry⟩

/-- The result holds the entries of the pairing. -/
theorem mem_blocks (h : Finished left right s₁ s order) {entry : BlockPair} :
    entry ∈ (s.result order).blocks ↔ entry ∈ s.pairs := by
  have hblocks : (s.result order).blocks = order.map fun index => s.pairs.getD index {} := rfl
  rw [hblocks, List.mem_map]
  constructor
  · rintro ⟨index, hindex, rfl⟩
    obtain ⟨entry, hentry⟩ := h.mem_order hindex
    rw [List.getD_eq_getElem?_getD, hentry]
    exact List.mem_of_getElem? hentry
  · intro hentry
    obtain ⟨index, hindex⟩ := List.mem_iff_getElem?.mp hentry
    have hside : ∃ side, (entry.on side).isSome = true := by
      have hwell := h.qualified.indexed.wellFormed entry hentry
      cases hd : entry.domain with
      | left => exact ⟨.left, (hwell .left).trans (by rw [hd]; rfl)⟩
      | right => exact ⟨.right, (hwell .right).trans (by rw [hd]; rfl)⟩
      | both => exact ⟨.left, (hwell .left).trans (by rw [hd]; rfl)⟩
    obtain ⟨side, hsome⟩ := hside
    obtain ⟨block, hon⟩ := Option.isSome_iff_exists.mp hsome
    have hlookup := (h.qualified.indexed.mapped side block index).mpr ⟨entry, hindex, hon⟩
    have howned := h.qualified.indexed.owned side block
      (Association.lookup_isSome_iff_mem.mp (by rw [hlookup]; rfl))
    obtain ⟨b, hb, rfl⟩ := List.mem_map.mp (of_decide_eq_true howned)
    have hmem : index ∈ orderOf (side.pick left right) (s.mapping side) :=
      List.mem_map.mpr ⟨b, hb, by rw [hlookup]; rfl⟩
    rw [← h.filter_order side] at hmem
    exact ⟨index, (List.mem_filter.mp hmem).1, by rw [List.getD_eq_getElem?_getD, hindex]; rfl⟩

theorem wellFormed (h : Finished left right s₁ s order) :
    ∀ entry ∈ (s.result order).blocks, entry.WellFormed :=
  fun entry hentry => h.qualified.indexed.wellFormed entry (h.mem_blocks.mp hentry)

/-- The entries with a block of a side are that side's blocks in their order. -/
theorem blocks_on (h : Finished left right s₁ s order) (side : Side) :
    ((s.result order).blocks.filter fun entry => (entry.on side).isSome).map (·.on side) =
      (side.pick left right).blocks.map fun b => some b.id := by
  have hfilter : ((s.result order).blocks.filter fun entry => (entry.on side).isSome) =
      (s.result order).blocks.filter fun entry => entry.domain.includes side :=
    List.filter_congr fun entry hentry => h.wellFormed entry hentry side
  have hblocks : (s.result order).blocks = order.map fun index => s.pairs.getD index {} := rfl
  have hsplit : (order.map fun index => s.pairs.getD index {}).filter
      (fun entry => entry.domain.includes side) =
      (orderOf (side.pick left right) (s.mapping side)).map fun index => s.pairs.getD index {} := by
    rw [List.filter_map, ← h.filter_order side]
    rfl
  rw [hfilter, hblocks, hsplit, List.map_map]
  refine (Checked.map_eq_of_forall₂ ((h.forall₂_orderOf side).imp fun index b => ?_)).symm
  rintro ⟨entry, hentry, hon⟩
  rw [Function.comp_apply, List.getD_eq_getElem?_getD, hentry]
  exact hon.symm

theorem filterMap_on (h : Finished left right s₁ s order) (side : Side) :
    (s.result order).blocks.filterMap (·.on side) =
      (side.pick left right).blocks.map Block.id := by
  have hon := congrArg (List.filterMap id) (h.blocks_on side)
  rw [List.filterMap_map, List.filterMap_filter, List.filterMap_map] at hon
  simp only [Function.comp_def, id] at hon
  rw [List.filterMap_eq_map'] at hon
  rw [← hon]
  refine List.filterMap_congr fun entry _ => ?_
  cases entry.on side <;> rfl

/-- The position maps find the entries of the result. -/
theorem lookup_blocksOn (h : Finished left right s₁ s order) (side : Side) (block index : ℕ) :
    ((s.result order).blocksOn side).lookup block = some index ↔
      ∃ entry, (s.result order).blocks[index]? = some entry ∧ entry.on side = some block := by
  have hpositions : (s.result order).blocksOn side =
      Association.positions (fun entry : BlockPair => entry.on side) (s.result order).blocks := by
    cases side <;> rfl
  rw [hpositions, Association.lookup_positions]
  rw [h.filterMap_on side]
  exact (side.pick left right).nodup

theorem exists_position (h : Finished left right s₁ s order) {side : Side} {block : ℕ}
    {entry : BlockPair} (hentry : entry ∈ s.pairs) (hon : entry.on side = some block) :
    ∃ index, (s.result order).blocks[index]? = some entry ∧
      ((s.result order).blocksOn side).lookup block = some index := by
  obtain ⟨index, hindex⟩ := List.mem_iff_getElem?.mp (h.mem_blocks.mpr hentry)
  exact ⟨index, hindex, (h.lookup_blocksOn side block index).mpr ⟨entry, hindex, hon⟩⟩

/-- Linked blocks are at one position of the result. -/
theorem common (h : Finished left right s₁ s order) {x y : ℕ} (hlinked : s.Linked x y) :
    (s.result order).Common x y := by
  have hleft : BlockPair.on ⟨some x, some y, .both⟩ .left = some x := rfl
  have hright : BlockPair.on ⟨some x, some y, .both⟩ .right = some y := rfl
  obtain ⟨index, hindex, hlookup⟩ := h.exists_position hlinked hleft
  exact ⟨index, _, hlookup, (h.lookup_blocksOn .right y index).mpr ⟨_, hindex, hright⟩, hindex, rfl⟩

theorem pendingOf (h : Finished left right s₁ s order) {pending : PendingSwitch}
    (hpending : pending ∈ s.switches) : PendingOf left right s₁ s₁.pairs.length pending :=
  h.matched.switches pending (h.qualified.switches ▸ hpending)

/-- The first block of an arm is an entry of its side. -/
theorem arm_first (h : Finished left right s₁ s order) {arm : PrivateArm} (harm : arm ∈ s₁.arms)
    {first : ℕ} (hfirst : arm.first = some first) :
    ∃ index, ((s.result order).blocksOn arm.side).lookup first = some index := by
  obtain ⟨chain, hne, hchain⟩ := h.qualified.passed arm harm
  obtain ⟨first', exit, hfirst', hpath, _⟩ := hchain.path
  obtain rfl : first = first' := Option.some.inj (hfirst.symm.trans hfirst')
  cases hpath with
  | rejoin => exact absurd rfl hne
  | step _ _ _ =>
    obtain ⟨index, _, hindex⟩ :=
      h.exists_position (hchain.members first (by simp)) (oneSided_on arm.side first)
    exact ⟨index, hindex⟩

theorem mem_arms (h : Finished left right s₁ s order) {pending : PendingSwitch}
    (hpending : pending ∈ s.switches) {entry : PendingCase} (hentry : entry ∈ pending.cases)
    {side : Side} (hdomain : entry.domain = .only side) :
    (⟨pending.on side, entry.target side, side⟩ : PrivateArm) ∈ s₁.arms := by
  rw [h.matched.arms]
  refine List.mem_flatMap.mpr ⟨pending, h.qualified.switches ▸ hpending, ?_⟩
  refine List.mem_filterMap.mpr ⟨entry, hentry, ?_⟩
  cases side <;> simp_all [armOf, Domain.only, PendingSwitch.on, PendingCase.target]

/-- The successor of a case is the position of its target on each side. -/
theorem successor (h : Finished left right s₁ s order) {pending : PendingSwitch}
    (hpending : pending ∈ s.switches) {entry : PendingCase} (hentry : entry ∈ pending.cases)
    {side : Side} {target : ℕ} (htarget : entry.target side = some target) :
    ((s.result order).blocksOn side).lookup target = some
      (casePair (s.result order).leftBlocks (s.result order).rightBlocks entry).successor := by
  have hmatched := (h.pendingOf hpending).matched
  have hwell := hmatched.wellFormed entry hentry
  have hincludes := (hwell side).2
  rw [htarget] at hincludes
  by_cases hboth : entry.domain = .both
  · obtain ⟨_, x, y, hx, hy, hlinked⟩ := hmatched.shared entry hentry hboth
    obtain ⟨index, _, hleft, hright, _⟩ := h.common (hlinked.mono h.qualified.pairs)
    have hsuccessor : (casePair (s.result order).leftBlocks (s.result order).rightBlocks
        entry).successor = index := by
      simp [casePair, hx, hleft]
    rw [hsuccessor]
    cases side with
    | left =>
      obtain rfl : x = target := Option.some.inj (hx.symm.trans htarget)
      exact hleft
    | right =>
      obtain rfl : y = target := Option.some.inj (hy.symm.trans htarget)
      exact hright
  · obtain ⟨own, hown⟩ := (Domain.ne_both_iff _).mp hboth
    obtain rfl : own = side := by simpa [hown] using hincludes.symm
    obtain ⟨index, hindex⟩ := h.arm_first (h.mem_arms hpending hentry hown) htarget
    rw [hindex]
    cases own with
    | left =>
      have hleft : entry.leftTarget = some target := htarget
      have hlookup : (s.result order).leftBlocks.lookup target = some index := hindex
      simp [casePair, hleft, hlookup]
    | right =>
      have hnone : entry.leftTarget = none := by
        have hleft := (hwell .left).2
        rw [hown] at hleft
        simpa [PendingCase.target, Domain.includes, Domain.only] using hleft
      have hright : entry.rightTarget = some target := htarget
      have hlookup : (s.result order).rightBlocks.lookup target = some index := hindex
      simp [casePair, hnone, hright, hlookup]

/-- The record of a pair of switches reads back to both. -/
theorem pairedSwitch (h : Finished left right s₁ s order) {pending : PendingSwitch}
    (hpending : pending ∈ s.switches) :
    PairedSwitch left right (s.result order)
      (recordOf (s.result order).leftBlocks (s.result order).rightBlocks pending) := by
  have hof := h.pendingOf hpending
  have hmatched := hof.matched
  refine
    { parents := ?_
      native := hof.native
      default := fun side => ?_
      present := fun entry hentry side => ?_
      labels := fun entry hentry hboth => ?_
      cases := fun side => ?_ }
  · obtain ⟨index, _, hentry⟩ := hof.entry
    exact h.common (h.qualified.pairs.subset (List.mem_of_getElem? hentry))
  · obtain ⟨index, _, hleft, hright, _⟩ := h.common (hmatched.default.mono h.qualified.pairs)
    have hsuccessor : (recordOf (s.result order).leftBlocks (s.result order).rightBlocks
        pending).defaultSuccessor = index := by
      simp [recordOf, hleft]
    rw [hsuccessor]
    cases side with
    | left => exact hleft
    | right => exact hright
  · obtain ⟨own, hown, rfl⟩ := List.mem_map.mp hentry
    exact (hmatched.wellFormed own hown side).1
  · obtain ⟨own, hown, rfl⟩ := List.mem_map.mp hentry
    exact (hmatched.shared own hown hboth).1
  · have hfilter : (recordOf (s.result order).leftBlocks (s.result order).rightBlocks
        pending).cases.filter (fun entry => entry.domain.includes side) =
        (pending.cases.filter fun entry => entry.domain.includes side).map
          (casePair (s.result order).leftBlocks (s.result order).rightBlocks) :=
      List.filter_map
    rw [hfilter, List.forall₂_map_left_iff]
    have hnative := hmatched.native side
    refine Checked.forall₂_imp_of_mem hnative fun entry hentry native _ hcase => ?_
    obtain ⟨hlabel, htarget, hindex⟩ := hcase
    exact ⟨hlabel, hindex, h.successor hpending (List.mem_filter.mp hentry).1 htarget⟩

/-- The switches of the result are the records of the pairing's switches. -/
theorem mem_switches (h : Finished left right s₁ s order) {record : SwitchPair} :
    record ∈ (s.result order).switches ↔ ∃ pending ∈ s.switches,
      recordOf (s.result order).leftBlocks (s.result order).rightBlocks pending = record := by
  have hswitches : (s.result order).switches = (s.result order).blocks.filterMap
      (switchPair s (s.result order).leftBlocks (s.result order).rightBlocks) := rfl
  rw [hswitches, List.mem_filterMap]
  constructor
  · rintro ⟨entry, _, hrecord⟩
    obtain ⟨pending, hfind, rfl⟩ := Option.map_eq_some_iff.mp hrecord
    exact ⟨pending, List.mem_reverse.mp (List.mem_of_find?_eq_some hfind), rfl⟩
  · rintro ⟨pending, hpending, rfl⟩
    obtain ⟨index, _, hentry⟩ := (h.pendingOf hpending).entry
    refine ⟨_, h.mem_blocks.mpr (h.qualified.pairs.subset (List.mem_of_getElem? hentry)), ?_⟩
    unfold switchPair
    cases hfind : s.switches.reverse.find? (fun other =>
        some pending.left.parent = some other.left.parent) with
    | none =>
      have hnone := List.find?_eq_none.mp hfind pending (List.mem_reverse.mpr hpending)
      simp at hnone
    | some other =>
      have hother := List.mem_reverse.mp (List.mem_of_find?_eq_some hfind)
      have hparent : pending.left.parent = other.left.parent := by
        simpa using List.find?_some hfind
      have hnodup := h.matched.parents
      rw [← h.qualified.switches] at hnodup
      rw [List.inj_on_of_nodup_map hnodup hpending hother hparent, Option.map_some]

theorem filterMap_sublist {α β : Type} {f g : α → Option β} :
    ∀ {xs : List α}, (∀ x ∈ xs, ∀ y, g x = some y → f x = some y) →
      (xs.filterMap g).Sublist (xs.filterMap f)
  | [], _ => .slnil
  | x :: xs, himp => by
    obtain ⟨hx, himp⟩ := List.forall_mem_cons.mp himp
    have ih := filterMap_sublist himp
    cases hg : g x with
    | none =>
      rw [List.filterMap_cons_none hg]
      cases hf : f x with
      | none => rwa [List.filterMap_cons_none hf]
      | some y =>
        rw [List.filterMap_cons_some hf]
        exact ih.cons y
    | some y =>
      rw [List.filterMap_cons_some hg, List.filterMap_cons_some (hx y hg)]
      exact ih.cons_cons y

theorem lookup_switchesOn (h : Finished left right s₁ s order) (side : Side) (block index : ℕ) :
    ((s.result order).switchesOn side).lookup block = some index ↔
      ∃ record, (s.result order).switches[index]? = some record ∧
        (record.on side).parent = block := by
  have hpositions : (s.result order).switchesOn side = Association.positions
      (fun record : SwitchPair => some (record.on side).parent) (s.result order).switches := by
    cases side <;> rfl
  have hswitches : (s.result order).switches = (s.result order).blocks.filterMap
      (switchPair s (s.result order).leftBlocks (s.result order).rightBlocks) := rfl
  rw [hpositions, Association.lookup_positions]
  · simp
  -- A switch ends the block of its entry, so that the entries' blocks tell switches apart.
  · rw [hswitches, List.filterMap_filterMap]
    refine List.Nodup.sublist (filterMap_sublist (f := fun e : BlockPair => e.on side) ?_)
      (h.filterMap_on side ▸ (side.pick left right).nodup)
    intro entry hentry block hblock
    obtain ⟨record, hrecord, hparent⟩ := Option.bind_eq_some_iff.mp hblock
    obtain ⟨pending, hfind, rfl⟩ := Option.map_eq_some_iff.mp hrecord
    have hpending := List.mem_reverse.mp (List.mem_of_find?_eq_some hfind)
    have hleft : entry.left = some pending.left.parent := by
      simpa using List.find?_some hfind
    obtain ⟨i, _, hat⟩ := (h.pendingOf hpending).entry
    obtain ⟨j, hj⟩ := List.mem_iff_getElem?.mp (h.mem_blocks.mp hentry)
    have hat' := getElem?_of_prefix h.qualified.pairs hat
    have hon : entry.on .left = some pending.left.parent := hleft
    have hown : BlockPair.on ⟨some pending.left.parent, some pending.right.parent, .both⟩ .left =
      some pending.left.parent := rfl
    obtain rfl : i = j := h.qualified.indexed.position_unique hat' hown hj hon
    obtain rfl := Option.some.inj (hat'.symm.trans hj)
    cases side <;> exact hparent

/-- The entries that belong to both sides are those of the worklist. -/
theorem mem_shared (h : Finished left right s₁ s order) {entry : BlockPair}
    (hentry : entry ∈ s.pairs) (hboth : entry.domain = .both) : entry ∈ s₁.pairs := by
  rcases h.qualified.added entry hentry with hold | ⟨arm, _, _, block, _, rfl, _⟩
  · exact hold
  · exact absurd hboth (Domain.only_ne_both arm.side)

theorem entryMatched (h : Finished left right s₁ s order) {entry : BlockPair}
    (hentry : entry ∈ (s.result order).blocks) (hboth : entry.domain = .both) :
    EntryMatched left right s₁ entry := by
  obtain ⟨index, hindex⟩ :=
    List.mem_iff_getElem?.mp (h.mem_shared (h.mem_blocks.mp hentry) hboth)
  exact h.matched.entries index (List.getElem?_eq_some_iff.mp hindex).1 entry hindex

/-- The arms that the pairing qualified are the private arms of the result. -/
theorem privateChain (h : Finished left right s₁ s order) {arm : PrivateArm}
    (harm : arm ∈ s₁.arms) {chain : List ℕ} (hchain : ArmChain left right s arm chain) :
    PrivateChain (arm.side.pick left right) arm.side (s.result order) chain := by
  rw [h.matched.arms] at harm
  obtain ⟨pending, hpending, harm⟩ := List.mem_flatMap.mp harm
  obtain ⟨entry, hentry, harm⟩ := List.mem_filterMap.mp harm
  rw [← h.qualified.switches] at hpending
  have hof : entry.domain = .only arm.side ∧ arm.source = pending.on arm.side ∧
      arm.first = entry.target arm.side := by
    unfold armOf at harm
    split at harm
    · obtain rfl := Option.some.inj harm
      exact ⟨‹_›, rfl, rfl⟩
    · obtain rfl := Option.some.inj harm
      exact ⟨‹_›, rfl, rfl⟩
    · simp at harm
  obtain ⟨hdomain, hsource, hfirst⟩ := hof
  refine ⟨?_, fun block hblock => ?_, hchain.closed⟩
  · obtain ⟨first, exit, hfirst', hpath, shared, hshared, hon, hboth⟩ := hchain.path
    have htarget : entry.target arm.side = some first := hfirst.symm.trans hfirst'
    rw [hsource] at hpath
    obtain ⟨index, hindex, hexit⟩ := h.exists_position hshared hon
    refine ⟨_, h.mem_switches.mpr ⟨pending, hpending, rfl⟩, _, List.mem_map_of_mem hentry, hdomain,
      first, exit, h.successor hpending hentry htarget, ?_, hpath, index, shared, hexit,
      hindex, hboth⟩
    have hmem : entry ∈ pending.cases.filter fun entry => entry.domain.includes arm.side :=
      List.mem_filter.mpr ⟨hentry, by rw [hdomain]; simp⟩
    obtain ⟨⟨case, k⟩, hcase, hlabel, hcaseTarget, _⟩ :=
      Checked.exists_of_forall₂_left ((h.pendingOf hpending).matched.native arm.side) hmem
    exact ⟨case, List.mem_of_getElem? (List.mem_zipIdx_iff_getElem?.mp hcase),
      Option.some.inj (hcaseTarget.symm.trans htarget), hlabel⟩
  · exact ⟨oneSided arm.side block, h.mem_blocks.mpr (hchain.members block hblock),
      oneSided_on arm.side block, rfl⟩

theorem conditional_iff (h : Finished left right s₁ s order) :
    (s.result order).conditional = true ↔
      ∃ record ∈ (s.result order).switches, ∃ entry ∈ record.cases, entry.domain ≠ .both := by
  have hconditional : (s.result order).conditional = !s.arms.isEmpty := rfl
  rw [hconditional, Bool.not_eq_true', List.isEmpty_eq_false_iff_exists_mem, h.qualified.arms,
    h.matched.arms]
  constructor
  · rintro ⟨arm, harm⟩
    obtain ⟨pending, hpending, harm⟩ := List.mem_flatMap.mp harm
    obtain ⟨entry, hentry, harm⟩ := List.mem_filterMap.mp harm
    refine ⟨_, h.mem_switches.mpr ⟨pending, h.qualified.switches ▸ hpending, rfl⟩, _,
      List.mem_map_of_mem hentry, fun hboth => ?_⟩
    have hboth : entry.domain = .both := hboth
    simp [armOf, hboth] at harm
  · rintro ⟨record, hrecord, entry, hentry, hdomain⟩
    obtain ⟨pending, hpending, rfl⟩ := h.mem_switches.mp hrecord
    obtain ⟨own, hown, rfl⟩ := List.mem_map.mp hentry
    obtain ⟨side, hside⟩ := (Domain.ne_both_iff _).mp hdomain
    have harm := h.mem_arms hpending hown hside
    rw [h.matched.arms] at harm
    exact ⟨_, harm⟩

/-- A finished pairing reads back to both functions. -/
theorem pairedCFG (h : Finished left right s₁ s order) :
    PairedCFG left right (s.result order) where
  blocks := h.blocks_on
  wellFormed := h.wellFormed
  positions := h.lookup_blocksOn
  terminators := by
    intro entry hentry hboth
    obtain ⟨a, b, x, y, ha, hb, hx, hy, hmatched, _⟩ := h.entryMatched hentry hboth
    exact ⟨a, b, x, y, ha, hb, hx, hy,
      TerminatorsMatch.mono (fun _ _ hlinked => h.common (hlinked.mono h.qualified.pairs)) hmatched⟩
  recorded := by
    intro entry hentry hboth a ha switch hparent hswitch
    obtain ⟨a', b, x, y, ha', hb, hx, hy, _, hrecorded⟩ := h.entryMatched hentry hboth
    obtain rfl : a = a' := Option.some.inj (ha.symm.trans ha')
    obtain ⟨pending, hpending, rfl⟩ :=
      hrecorded switch hparent (Option.some.inj (hx.symm.trans hswitch))
    exact ⟨_, h.mem_switches.mpr ⟨pending, h.qualified.switches ▸ hpending, rfl⟩, rfl⟩
  switches := by
    intro record hrecord
    obtain ⟨pending, hpending, rfl⟩ := h.mem_switches.mp hrecord
    exact h.pairedSwitch hpending
  switchPositions := h.lookup_switchesOn
  arms := by
    intro entry hentry side hdomain
    rcases h.qualified.added entry (h.mem_blocks.mp hentry) with hold |
      ⟨arm, harm, chain, block, hblock, rfl, hchain⟩
    · exact absurd ((h.matched.shared entry hold).symm.trans hdomain).symm
        (Domain.only_ne_both side)
    · obtain rfl : arm.side = side := by
        cases hside : arm.side <;> cases side <;> simp_all [oneSided, Domain.only]
      exact ⟨chain, block, oneSided_on arm.side block, hblock, h.privateChain harm hchain⟩
  conditional := h.conditional_iff
  phis := by
    intro hconditional
    have hconditional : (!s.arms.isEmpty) = true := hconditional
    refine h.phis fun hnone => ?_
    rw [h.qualified.arms, hnone] at hconditional
    simp at hconditional

end Finished

end Pairing

/-- A pairing that succeeds reads back to both functions. -/
theorem pairConditionalCFG_sound (left right : Function) (cfg : ConditionalCFG)
    (h : pairConditionalCFG left right = .ok cfg) : PairedCFG left right cfg := by
  obtain ⟨s₁, s, order, hfinished, rfl⟩ := Pairing.pairConditionalCFG_ok h
  exact hfinished.pairedCFG

/-- The entries of two paired functions are paired. -/
theorem pairConditionalCFG_entry {left right : Function} {cfg : ConditionalCFG}
    (h : pairConditionalCFG left right = .ok cfg) : ∃ x y, left.entry = some x ∧
      right.entry = some y ∧ (⟨some x, some y, .both⟩ : BlockPair) ∈ cfg.blocks := by
  obtain ⟨s₁, s, order, hfinished, rfl⟩ := Pairing.pairConditionalCFG_ok h
  obtain ⟨x, y, hx, hy, hlinked⟩ := hfinished.entry
  exact ⟨x, y, hx, hy, hfinished.mem_blocks.mpr (hlinked.mono hfinished.qualified.pairs)⟩

/-- A switch with one case, which opens an arm. -/
def switchFunction : Function where
  blocks :=
    [{ id := 0, instructions := [], terminator := some (.switch 32 2 [⟨7, 1⟩]),
       terminatorOperands := [], addressTaken := false },
     { id := 1, instructions := [⟨10, false, []⟩, ⟨11, false, [10]⟩],
       terminator := some (.branch 2), terminatorOperands := [], addressTaken := false },
     { id := 2, instructions := [], terminator := some .ret, terminatorOperands := [],
       addressTaken := false }]
  nodup := by decide

/-- The same switch without the case. -/
def caselessFunction : Function where
  blocks :=
    [{ id := 0, instructions := [], terminator := some (.switch 32 1 []),
       terminatorOperands := [], addressTaken := false },
     { id := 1, instructions := [], terminator := some .ret, terminatorOperands := [],
       addressTaken := false }]
  nodup := by decide

theorem pairConditionalCFG_arm : ∃ cfg, pairConditionalCFG switchFunction caselessFunction = .ok cfg ∧
    cfg.conditional = true ∧ PairedCFG switchFunction caselessFunction cfg := by
  have hruns : ((pairConditionalCFG switchFunction caselessFunction).map
      ConditionalCFG.conditional).toOption = some true := by decide +kernel
  cases h : pairConditionalCFG switchFunction caselessFunction with
  | error e => simp [h, Except.map, Except.toOption] at hruns
  | ok cfg =>
    refine ⟨cfg, rfl, ?_, pairConditionalCFG_sound _ _ cfg h⟩
    simpa [h, Except.map, Except.toOption] using hruns

end Sela
