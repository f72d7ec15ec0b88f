import Sela.ConditionalCFG

/-!
# What a pairing keeps while it grows

`Indexed` is the invariant of a pairing's maps: a block is mapped to the position of the one
entry that holds it. Every extension appends entries, so that what is known of entries and
of the switches between them stays true. The worklist keeps `MatchedTo`: the entries before
its position have matching terminators. Private arms are added last, by `Qualified`.
-/

namespace Sela

open Native OrderMerge

def PendingSwitch.on (pending : PendingSwitch) (side : Side) : Switch :=
  side.pick pending.left pending.right

/-- The switch as a terminator of its block. -/
def Native.Switch.terminator (switch : Switch) : Terminator :=
  .switch switch.width switch.defaultDest switch.cases

/-- An entry holds a block of exactly the sides it belongs to. -/
def BlockPair.WellFormed (entry : BlockPair) : Prop :=
  ∀ side, (entry.on side).isSome = entry.domain.includes side

/-- Two terminators of one kind with corresponding successors: edge by edge, and for a
switch the default and the cases of equal labels. -/
inductive TerminatorsMatch (common : ℕ → ℕ → Prop) : Terminator → Terminator → Prop
  | edges {x y : Terminator} (hkind : x.opcode = y.opcode) (hswitch : x.opcode ≠ .switch)
      (hedges : List.Forall₂ common x.successors y.successors) : TerminatorsMatch common x y
  | switch {width d d' : ℕ} {cases cases' : List SwitchCase} (hdefault : common d d')
      (hcases : ∀ c ∈ cases, ∀ c' ∈ cases', c.label = c'.label → common c.target c'.target) :
      TerminatorsMatch common (.switch width d cases) (.switch width d' cases')

/-- A path of one-sided blocks from an edge to the block it rejoins: each block is entered by
the one edge from its predecessor and ends in an unconditional branch. -/
inductive ArmPath (function : Function) : ℕ → ℕ → List ℕ → ℕ → Prop
  | rejoin (predecessor exit : ℕ) : ArmPath function predecessor exit [] exit
  | step {predecessor block next exit : ℕ} {chain : List ℕ}
      (hentered : function.predecessors block = [predecessor])
      (hbranch : function.branchTarget block = some next)
      (hpath : ArmPath function block next chain exit) :
      ArmPath function predecessor block (block :: chain) exit

/-! ## The maps of a pairing -/

namespace Pairing

variable {left right : Function}

/-- The maps of a pairing find its entries: each block is that of one entry. -/
structure Indexed (left right : Function) (s : Pairing) : Prop where
  wellFormed : ∀ entry ∈ s.pairs, entry.WellFormed
  mapped : ∀ side block index, (s.mapping side).lookup block = some index ↔
    ∃ entry, s.pairs[index]? = some entry ∧ entry.on side = some block
  nodup : ∀ side, ((s.mapping side).map Prod.fst).Nodup
  owned : ∀ side, ∀ block ∈ (s.mapping side).map Prod.fst,
    (side.pick left right).owns block = true
  count : ∀ side, (s.mapping side).length = (s.pairs.filter fun e => (e.on side).isSome).length

theorem Indexed.empty : Indexed left right {} where
  wellFormed := by simp
  mapped := by intro side block index; cases side <;> simp [mapping]
  nodup := by intro side; cases side <;> simp [mapping]
  owned := by intro side; cases side <;> simp [mapping]
  count := by intro side; cases side <;> rfl

theorem mapping_push (s : Pairing) (entry : BlockPair) (side : Side) :
    (s.push entry).mapping side =
      ((entry.on side).map (·, s.pairs.length)).toList ++ s.mapping side := by
  cases side <;> rfl

theorem getElem?_concat_eq_some {α : Type} {xs : List α} {x y : α} {index : ℕ} :
    (xs ++ [x])[index]? = some y ↔ xs[index]? = some y ∨ index = xs.length ∧ y = x := by
  rcases Nat.lt_trichotomy index xs.length with h | rfl | h
  · rw [List.getElem?_append_left h]
    exact ⟨.inl, fun hy => hy.resolve_right fun ⟨heq, _⟩ => by omega⟩
  · simp [eq_comm]
  · have hnone : (xs ++ [x])[index]? = none := by simp; omega
    rw [hnone, List.getElem?_eq_none (by omega)]
    simp only [reduceCtorEq, false_or, false_iff, not_and]
    intro heq
    omega

/-- A new entry keeps the maps right when its blocks are new. -/
theorem Indexed.push {s : Pairing} (hs : Indexed left right s) {entry : BlockPair}
    (hwell : entry.WellFormed)
    (hnew : ∀ side block, entry.on side = some block →
      (side.pick left right).owns block = true ∧ (s.mapping side).lookup block = none) :
    Indexed left right (s.push entry) where
  wellFormed := by
    intro e he
    rcases List.mem_append.mp he with he | he
    · exact hs.wellFormed e he
    · rwa [List.mem_singleton.mp he]
  mapped := by
    intro side block index
    have hpairs : (s.push entry).pairs = s.pairs ++ [entry] := rfl
    simp only [mapping_push, hpairs, getElem?_concat_eq_some]
    cases hon : entry.on side with
    | none =>
      rw [Option.map_none, Option.toList_none, List.nil_append, hs.mapped]
      constructor
      · rintro ⟨e, he, hblock⟩
        exact ⟨e, .inl he, hblock⟩
      · rintro ⟨e, he | ⟨_, rfl⟩, hblock⟩
        · exact ⟨e, he, hblock⟩
        · simp [hon] at hblock
    | some own =>
      rw [Option.map_some, Option.toList_some, List.singleton_append, List.lookup_cons]
      by_cases hb : block = own
      · subst hb
        have hnone := (hnew side block hon).2
        simp only [beq_self_eq_true, Option.some.injEq]
        constructor
        · rintro rfl
          exact ⟨entry, .inr ⟨rfl, rfl⟩, hon⟩
        · rintro ⟨e, he | ⟨rfl, _⟩, hblock⟩
          · rw [(hs.mapped side block index).mpr ⟨e, he, hblock⟩] at hnone
            simp at hnone
          · rfl
      · simp only [beq_eq_false_iff_ne.mpr hb, hs.mapped]
        constructor
        · rintro ⟨e, he, hblock⟩
          exact ⟨e, .inl he, hblock⟩
        · rintro ⟨e, he | ⟨_, rfl⟩, hblock⟩
          · exact ⟨e, he, hblock⟩
          · rw [hon] at hblock
            exact absurd (Option.some.inj hblock).symm hb
  nodup := by
    intro side
    rw [mapping_push]
    cases hon : entry.on side with
    | none => exact hs.nodup side
    | some own =>
      have hnone := Association.lookup_eq_none_iff_mem.mp (hnew side own hon).2
      exact List.nodup_cons.mpr ⟨hnone, hs.nodup side⟩
  owned := by
    intro side block hblock
    rw [mapping_push] at hblock
    cases hon : entry.on side with
    | none =>
      rw [hon] at hblock
      exact hs.owned side block hblock
    | some own =>
      rw [hon, Option.map_some, Option.toList_some, List.map_append, List.mem_append] at hblock
      rcases hblock with hblock | hblock
      · obtain rfl : block = own := by simpa using hblock
        exact (hnew side block hon).1
      · exact hs.owned side block hblock
  count := by
    intro side
    have hpairs : (s.push entry).pairs = s.pairs ++ [entry] := rfl
    rw [mapping_push, hpairs, List.filter_append, List.length_append, List.length_append,
      hs.count side, Nat.add_comm]
    cases hon : entry.on side <;> simp [hon]

/-- Two entries with one block on a side are at one position. -/
theorem Indexed.position_unique {s : Pairing} (hs : Indexed left right s) {side : Side}
    {i j block : ℕ} {e e' : BlockPair} (he : s.pairs[i]? = some e) (hon : e.on side = some block)
    (he' : s.pairs[j]? = some e') (hon' : e'.on side = some block) : i = j := by
  have hi := (hs.mapped side block i).mpr ⟨e, he, hon⟩
  have hj := (hs.mapped side block j).mpr ⟨e', he', hon'⟩
  exact Option.some.inj (hi.symm.trans hj)

/-- The two blocks share an entry. -/
def Linked (s : Pairing) (x y : ℕ) : Prop :=
  (⟨some x, some y, .both⟩ : BlockPair) ∈ s.pairs

/-- A pairing grown by shared entries. -/
structure Extension (left right : Function) (s s' : Pairing) : Prop where
  indexed : Indexed left right s'
  pairs : s.pairs <+: s'.pairs
  shared : (∀ entry ∈ s.pairs, entry.domain = .both) → ∀ entry ∈ s'.pairs, entry.domain = .both
  switches : s'.switches = s.switches
  arms : s'.arms = s.arms

theorem Extension.refl {s : Pairing} (hs : Indexed left right s) : Extension left right s s where
  indexed := hs
  pairs := List.prefix_rfl
  shared := id
  switches := rfl
  arms := rfl

theorem Extension.trans {s t u : Pairing} (h : Extension left right s t)
    (h' : Extension left right t u) : Extension left right s u where
  indexed := h'.indexed
  pairs := h.pairs.trans h'.pairs
  shared := h'.shared ∘ h.shared
  switches := h'.switches.trans h.switches
  arms := h'.arms.trans h.arms

theorem Linked.mono {s s' : Pairing} {x y : ℕ} (hpairs : s.pairs <+: s'.pairs)
    (h : s.Linked x y) : s'.Linked x y :=
  hpairs.subset h

/-- Pairing two blocks links them, and only adds shared entries. -/
theorem pair_ok {s s' : Pairing} (hs : Indexed left right s) {a b : Option ℕ}
    (h : pair left right s a b = .ok s') :
    Extension left right s s' ∧ ∃ x y, a = some x ∧ b = some y ∧ s'.Linked x y := by
  unfold pair at h
  obtain ⟨x, hx, hrest⟩ := Checked.bind_ok.mp h
  obtain ⟨y, hy, hstep⟩ := Checked.bind_ok.mp hrest
  rw [Checked.require_ok, Option.filter_eq_some_iff] at hx hy
  obtain ⟨rfl, hownsx⟩ := hx
  obtain ⟨rfl, hownsy⟩ := hy
  split at hstep
  · rename_i hleft hright
    obtain rfl : s.push ⟨some x, some y, .both⟩ = s' := by simpa using hstep
    have hwell : BlockPair.WellFormed ⟨some x, some y, .both⟩ := fun side => by
      cases side <;> rfl
    have hindexed : Indexed left right (s.push ⟨some x, some y, .both⟩) := by
      refine hs.push hwell fun side block hon => ?_
      cases side with
      | left =>
        obtain rfl : x = block := by simpa [BlockPair.on] using hon
        exact ⟨hownsx, hleft⟩
      | right =>
        obtain rfl : y = block := by simpa [BlockPair.on] using hon
        exact ⟨hownsy, hright⟩
    refine ⟨⟨hindexed, List.prefix_append _ _, fun hshared entry hentry => ?_, rfl, rfl⟩,
      x, y, rfl, rfl, List.mem_append_right _ (by simp)⟩
    rcases List.mem_append.mp hentry with hentry | hentry
    · exact hshared entry hentry
    · rw [List.mem_singleton.mp hentry]
  · obtain ⟨_, hcheck, hsame⟩ := Checked.bind_ok.mp hstep
    obtain rfl : s = s' := by simpa using hsame
    obtain ⟨hsome, heq⟩ := Checked.ensure_ok.mp hcheck
    obtain ⟨index, hindex⟩ := Option.isSome_iff_exists.mp hsome
    -- One entry holds both blocks, so that it is shared.
    obtain ⟨e, he, hex⟩ := (hs.mapped .left x index).mp hindex
    obtain ⟨e', he', hey⟩ := (hs.mapped .right y index).mp (heq ▸ hindex)
    obtain rfl : e = e' := Option.some.inj (he.symm.trans he')
    have hwell := hs.wellFormed e (List.mem_of_getElem? he)
    have hboth : e.domain = .both := by
      have hleft := hwell .left
      have hright := hwell .right
      rw [hex] at hleft
      rw [hey] at hright
      cases hd : e.domain <;> simp_all [Domain.includes]
    obtain ⟨left', right', domain'⟩ := e
    obtain rfl : left' = some x := hex
    obtain rfl : right' = some y := hey
    obtain rfl : domain' = .both := hboth
    exact ⟨.refl hs, x, y, rfl, rfl, List.mem_of_getElem? he⟩

/-! ## Switches -/

/-- The case is a native case of a side, with its position. -/
def IsCase (side : Side) (entry : PendingCase) (native : SwitchCase × ℕ) : Prop :=
  entry.label side = some native.1.label ∧ entry.target side = some native.1.target ∧
    entry.index side = some native.2

/-- A case has a label and a target on exactly the sides it belongs to. -/
def CaseWellFormed (entry : PendingCase) : Prop :=
  ∀ side, (entry.label side).isSome = entry.domain.includes side ∧
    (entry.target side).isSome = entry.domain.includes side

/-- A common case has one label, and its targets share an entry. -/
def SharedCase (s : Pairing) (entry : PendingCase) : Prop :=
  entry.left = entry.right ∧
    ∃ x y, entry.leftTarget = some x ∧ entry.rightTarget = some y ∧ s.Linked x y

theorem SharedCase.mono {s s' : Pairing} {entry : PendingCase} (hpairs : s.pairs <+: s'.pairs)
    (h : SharedCase s entry) : SharedCase s' entry := by
  obtain ⟨hlabel, x, y, hx, hy, hlinked⟩ := h
  exact ⟨hlabel, x, y, hx, hy, hlinked.mono hpairs⟩

/-- The case of a left switch before it meets a right one. -/
def leftCase (entry : SwitchCase × ℕ) : PendingCase :=
  { left := some entry.1.label, leftTarget := some entry.1.target, leftIndex := some entry.2,
    domain := .left }

/-- The table after the cases `passed` of the left switch. -/
structure LeftTable (passed : List (SwitchCase × ℕ)) (table : CaseTable) : Prop where
  cases : table.cases = passed.map leftCase
  leftOrder : table.leftOrder = List.range passed.length
  rightOrder : table.rightOrder = []
  labels : ∀ label index, table.labels.lookup label = some index ↔
    ∃ native, passed[index]? = some native ∧ native.1.label = label

theorem addLeft_step {passed : List (SwitchCase × ℕ)} {entry : SwitchCase × ℕ}
    {table table' : CaseTable} (ht : LeftTable passed table)
    (h : table.addLeft entry = .ok table') : LeftTable (passed ++ [entry]) table' := by
  unfold CaseTable.addLeft at h
  obtain ⟨_, hcheck, hsame⟩ := Checked.bind_ok.mp h
  have hnew := Checked.ensure_ok.mp hcheck
  obtain rfl := Except.ok.inj hsame
  have hlength : table.cases.length = passed.length := by rw [ht.cases, List.length_map]
  refine ⟨by simp [ht.cases, leftCase], ?_, ht.rightOrder, fun label index => ?_⟩
  · simp [ht.leftOrder, hlength, List.range_succ]
  · rw [List.lookup_cons]
    by_cases hl : label = entry.1.label
    · subst hl
      rw [beq_self_eq_true]
      constructor
      · intro hindex
        obtain rfl : table.cases.length = index := Option.some.inj hindex
        exact ⟨entry, by rw [hlength]; simp, rfl⟩
      · rintro ⟨native, hnative, hlabel⟩
        rcases getElem?_concat_eq_some.mp hnative with hold | ⟨rfl, rfl⟩
        · rw [(ht.labels _ index).mpr ⟨native, hold, hlabel⟩] at hnew
          simp at hnew
        · rw [hlength]
    · simp only [beq_eq_false_iff_ne.mpr hl, ht.labels, getElem?_concat_eq_some]
      constructor
      · rintro ⟨native, hnative, hlabel⟩
        exact ⟨native, .inl hnative, hlabel⟩
      · rintro ⟨native, hold | ⟨_, rfl⟩, hlabel⟩
        · exact ⟨native, hold, hlabel⟩
        · exact absurd hlabel.symm hl

theorem addLeft_run {natives : List (SwitchCase × ℕ)} {table : CaseTable}
    (h : natives.foldlM CaseTable.addLeft ({} : CaseTable) = .ok table) :
    LeftTable natives table := by
  have hstart : LeftTable [] ({} : CaseTable) := ⟨rfl, rfl, rfl, by simp⟩
  have hrun := Checked.foldlM_invariant LeftTable hstart
    (fun _ _ _ _ _ _ ht hstep => addLeft_step ht hstep) h
  simpa using hrun

/-- The table after all cases `natives` of the left switch and the cases `passed` of the
right one. -/
structure RightTable (left right : Function) (s₀ : Pairing) (natives passed : List (SwitchCase × ℕ))
    (state : Pairing × CaseTable) : Prop where
  extension : Extension left right s₀ state.1
  leftOrder : state.2.leftOrder = List.range natives.length
  labels : ∀ label index, state.2.labels.lookup label = some index ↔
    ∃ native, natives[index]? = some native ∧ native.1.label = label
  leftCases : ∀ (index : ℕ) native, natives[index]? = some native →
    ∃ entry, state.2.cases[index]? = some entry ∧ IsCase .left entry native
  rightCases : List.Forall₂
    (fun (index : ℕ) native => ∃ entry, state.2.cases[index]? = some entry ∧
      IsCase .right entry native) state.2.rightOrder passed
  wellFormed : ∀ entry ∈ state.2.cases, CaseWellFormed entry
  shared : ∀ entry ∈ state.2.cases, entry.domain = .both → SharedCase state.1 entry
  common : ∀ c ∈ natives, ∀ c' ∈ passed, c.1.label = c'.1.label →
    state.1.Linked c.1.target c'.1.target

theorem RightTable.start {s₀ : Pairing} (hs : Indexed left right s₀)
    {natives : List (SwitchCase × ℕ)} {table : CaseTable} (ht : LeftTable natives table) :
    RightTable left right s₀ natives [] (s₀, table) where
  extension := .refl hs
  leftOrder := ht.leftOrder
  labels := ht.labels
  leftCases := by
    intro index native hnative
    exact ⟨leftCase native, by rw [ht.cases, List.getElem?_map, hnative]; rfl, rfl, rfl, rfl⟩
  rightCases := by rw [ht.rightOrder]; exact .nil
  wellFormed := by
    intro entry hentry
    rw [ht.cases] at hentry
    obtain ⟨native, _, rfl⟩ := List.mem_map.mp hentry
    intro side
    cases side <;> exact ⟨rfl, rfl⟩
  shared := by
    intro entry hentry hboth
    rw [ht.cases] at hentry
    obtain ⟨native, _, rfl⟩ := List.mem_map.mp hentry
    simp [leftCase] at hboth
  common := by simp

/-- A case that only the right switch has. -/
theorem addRight_alone {s₀ s : Pairing} {natives passed : List (SwitchCase × ℕ)}
    {table : CaseTable} {entry : SwitchCase × ℕ}
    (ht : RightTable left right s₀ natives passed (s, table))
    (hnone : table.labels.lookup entry.1.label = none) :
    RightTable left right s₀ natives (passed ++ [entry])
      (s, { table with
        cases := table.cases ++
          [{ right := some entry.1.label, rightTarget := some entry.1.target,
             rightIndex := some entry.2, domain := .right }]
        rightOrder := table.rightOrder ++ [table.cases.length] }) where
  extension := ht.extension
  leftOrder := ht.leftOrder
  labels := ht.labels
  leftCases := by
    intro index native hnative
    obtain ⟨e, he, hcase⟩ := ht.leftCases index native hnative
    exact ⟨e, getElem?_concat_eq_some.mpr (.inl he), hcase⟩
  rightCases := by
    refine List.rel_append (ht.rightCases.imp fun index native => ?_) (.cons ?_ .nil)
    · rintro ⟨e, he, hcase⟩
      exact ⟨e, getElem?_concat_eq_some.mpr (.inl he), hcase⟩
    · exact ⟨_, getElem?_concat_eq_some.mpr (.inr ⟨rfl, rfl⟩), rfl, rfl, rfl⟩
  wellFormed := by
    intro e he
    rcases List.mem_append.mp he with he | he
    · exact ht.wellFormed e he
    · rw [List.mem_singleton.mp he]
      intro side
      cases side <;> exact ⟨rfl, rfl⟩
  shared := by
    intro e he hboth
    rcases List.mem_append.mp he with he | he
    · exact ht.shared e he hboth
    · rw [List.mem_singleton.mp he] at hboth
      simp at hboth
  common := by
    intro c hc c' hc' hlabel
    rcases List.mem_append.mp hc' with hc' | hc'
    · exact ht.common c hc c' hc' hlabel
    · obtain rfl : c' = entry := List.mem_singleton.mp hc'
      obtain ⟨index, hindex⟩ := List.mem_iff_getElem?.mp hc
      rw [(ht.labels _ index).mpr ⟨c, hindex, hlabel⟩] at hnone
      simp at hnone

/-- A case of both switches. -/
theorem join_step {s₀ s : Pairing} {natives passed : List (SwitchCase × ℕ)} {table : CaseTable}
    {entry : SwitchCase × ℕ} {index : ℕ} {state' : Pairing × CaseTable}
    (ht : RightTable left right s₀ natives passed (s, table))
    (hindex : table.labels.lookup entry.1.label = some index)
    (h : table.join left right s index entry = .ok state') :
    RightTable left right s₀ natives (passed ++ [entry]) state' := by
  obtain ⟨own, hown, hlabel⟩ := (ht.labels _ index).mp hindex
  obtain ⟨candidate, hcandidate, hleft⟩ := ht.leftCases index own hown
  have hget : table.cases.getD index {} = candidate := by
    rw [List.getD_eq_getElem?_getD, hcandidate]
    rfl
  have hlt : index < table.cases.length := (List.getElem?_eq_some_iff.mp hcandidate).1
  unfold CaseTable.join at h
  rw [hget] at h
  obtain ⟨_, hcheck, hrest⟩ := Checked.bind_ok.mp h
  obtain ⟨s', hpair, hsame⟩ := Checked.bind_ok.mp hrest
  have hright : candidate.right = none := Checked.ensure_ok.mp hcheck
  obtain ⟨hextension, x, y, hx, hy, hlinked⟩ := pair_ok ht.extension.indexed hpair
  obtain rfl := Except.ok.inj hsame
  obtain rfl : own.1.target = x := Option.some.inj (hleft.2.1.symm.trans hx)
  obtain rfl : entry.1.target = y := Option.some.inj hy
  have hpairs : s.pairs <+: s'.pairs := hextension.pairs
  refine
    { extension := ht.extension.trans hextension
      leftOrder := ht.leftOrder
      labels := ht.labels
      leftCases := fun i native hnative => ?_
      rightCases := List.rel_append (ht.rightCases.imp fun i native => ?_) (.cons ?_ .nil)
      wellFormed := fun e he => ?_
      shared := fun e he hboth => ?_
      common := fun c hc c' hc' hlabel' => ?_ }
  · obtain ⟨e, he, hcase⟩ := ht.leftCases i native hnative
    by_cases hi : i = index
    · subst hi
      obtain rfl : candidate = e := Option.some.inj (hcandidate.symm.trans he)
      exact ⟨_, List.getElem?_set_self hlt, hcase⟩
    · exact ⟨e, by rw [List.getElem?_set_ne (Ne.symm hi)]; exact he, hcase⟩
  · rintro ⟨e, he, hcase⟩
    have hi : i ≠ index := by
      rintro rfl
      obtain rfl : candidate = e := Option.some.inj (hcandidate.symm.trans he)
      have hsome : candidate.right = some native.1.label := hcase.1
      simp [hright] at hsome
    exact ⟨e, by rw [List.getElem?_set_ne (Ne.symm hi)]; exact he, hcase⟩
  · exact ⟨_, List.getElem?_set_self hlt, rfl, rfl, rfl⟩
  · rcases List.mem_or_eq_of_mem_set he with he | rfl
    · exact ht.wellFormed e he
    · intro side
      cases side with
      | left =>
        have hlabel : candidate.left = some own.1.label := hleft.1
        have htarget : candidate.leftTarget = some own.1.target := hleft.2.1
        exact ⟨by simp [PendingCase.label, hlabel], by simp [PendingCase.target, htarget]⟩
      | right => exact ⟨rfl, rfl⟩
  · rcases List.mem_or_eq_of_mem_set he with he | rfl
    · exact (ht.shared e he hboth).mono hpairs
    · have hsome : candidate.left = some own.1.label := hleft.1
      exact ⟨hsome.trans (congrArg some hlabel), _, _, hx, rfl, hlinked⟩
  · rcases List.mem_append.mp hc' with hc' | hc'
    · exact (ht.common c hc c' hc' hlabel').mono hpairs
    · obtain rfl : c' = entry := List.mem_singleton.mp hc'
      obtain ⟨i, hi⟩ := List.mem_iff_getElem?.mp hc
      have hlookup := (ht.labels _ i).mpr ⟨c, hi, hlabel'⟩
      obtain rfl : i = index := Option.some.inj (hlookup.symm.trans hindex)
      obtain rfl : c = own := Option.some.inj (hi.symm.trans hown)
      exact hlinked

theorem addRight_run {s₀ : Pairing} (hs : Indexed left right s₀)
    {natives natives' : List (SwitchCase × ℕ)} {table : CaseTable}
    {state' : Pairing × CaseTable} (ht : LeftTable natives table)
    (h : natives'.foldlM (CaseTable.addRight left right) (s₀, table) = .ok state') :
    RightTable left right s₀ natives natives' state' := by
  have hstart : RightTable left right s₀ natives [] (s₀, table) := .start hs ht
  have hrun := Checked.foldlM_invariant (RightTable left right s₀ natives) hstart
    (fun passed entry _ state state' _ ht hstep => ?_) h
  · simpa using hrun
  · unfold CaseTable.addRight at hstep
    split at hstep
    · rename_i index hindex
      exact join_step ht hindex hstep
    · rename_i hnone
      obtain rfl := Except.ok.inj hstep
      exact addRight_alone ht hnone

/-- A pair of switches: both can be read back from its cases, in their order. -/
structure SwitchMatched (s : Pairing) (pending : PendingSwitch) : Prop where
  default : s.Linked pending.left.defaultDest pending.right.defaultDest
  wellFormed : ∀ entry ∈ pending.cases, CaseWellFormed entry
  shared : ∀ entry ∈ pending.cases, entry.domain = .both → SharedCase s entry
  native : ∀ side, List.Forall₂ (IsCase side)
    (pending.cases.filter fun entry => entry.domain.includes side) (pending.on side).cases.zipIdx
  common : ∀ c ∈ pending.left.cases, ∀ c' ∈ pending.right.cases, c.label = c'.label →
    s.Linked c.target c'.target

theorem SwitchMatched.mono {s s' : Pairing} {pending : PendingSwitch}
    (hpairs : s.pairs <+: s'.pairs) (h : SwitchMatched s pending) : SwitchMatched s' pending where
  default := h.default.mono hpairs
  wellFormed := h.wellFormed
  shared := fun entry hentry hboth => (h.shared entry hentry hboth).mono hpairs
  native := h.native
  common := fun c hc c' hc' hlabel => (h.common c hc c' hc' hlabel).mono hpairs

/-- The entries at the positions of a merged order, filtered by a side, are the natives of
that side. -/
theorem forall₂_filter_order {table : CaseTable} {order own : List ℕ} {side : Side}
    {natives : List (SwitchCase × ℕ)}
    (hfilter : order.filter (fun index => (table.cases.getD index {}).domain.includes side) = own)
    (hcases : List.Forall₂ (fun (index : ℕ) native => ∃ entry,
      table.cases[index]? = some entry ∧ IsCase side entry native) own natives) :
    List.Forall₂ (IsCase side)
      ((order.map fun index => table.cases.getD index {}).filter fun entry =>
        entry.domain.includes side) natives := by
  rw [List.filter_map]
  change List.Forall₂ (IsCase side) (List.map _ (order.filter fun index =>
    (table.cases.getD index {}).domain.includes side)) natives
  rw [hfilter, List.forall₂_map_left_iff]
  refine hcases.imp fun index native => ?_
  rintro ⟨entry, hentry, hcase⟩
  rwa [List.getD_eq_getElem?_getD, hentry]

theorem LeftTable.covers {natives : List SwitchCase} {state : Pairing × CaseTable}
    {s₀ : Pairing} {passed : List (SwitchCase × ℕ)}
    (ht : RightTable left right s₀ natives.zipIdx passed state) :
    List.Forall₂ (fun (index : ℕ) native => ∃ entry,
      state.2.cases[index]? = some entry ∧ IsCase .left entry native)
      state.2.leftOrder natives.zipIdx := by
  rw [ht.leftOrder]
  refine Checked.forall₂_of_getElem? (by simp) fun i index native hindex hnative => ?_
  obtain ⟨_, rfl⟩ := List.getElem?_eq_some_iff.mp hindex
  rw [List.getElem_range]
  exact ht.leftCases i native hnative

theorem matchSwitch_ok {s s' : Pairing} (hs : Indexed left right s) {a b : Switch}
    (h : matchSwitch left right s a b = .ok s') :
    a.width = b.width ∧ ∃ t cases, Extension left right s t ∧ SwitchMatched t ⟨a, b, cases⟩ ∧
      s' = { t with
        switches := t.switches ++ [⟨a, b, cases⟩]
        arms := t.arms ++ cases.filterMap (armOf a b) } := by
  unfold matchSwitch at h
  obtain ⟨_, hwidth, h⟩ := Checked.bind_ok.mp h
  obtain ⟨_, _, h⟩ := Checked.bind_ok.mp h
  obtain ⟨s₁, hdefault, h⟩ := Checked.bind_ok.mp h
  obtain ⟨table, htable, h⟩ := Checked.bind_ok.mp h
  obtain ⟨⟨t, table'⟩, hright, h⟩ := Checked.bind_ok.mp h
  obtain ⟨order, horder, h⟩ := Checked.bind_ok.mp h
  obtain rfl := Except.ok.inj h
  rw [Checked.require_ok] at horder
  obtain ⟨hextension, x, y, hx, hy, hlinked⟩ := pair_ok hs hdefault
  obtain rfl := Option.some.inj hx
  obtain rfl := Option.some.inj hy
  have ht := addRight_run hextension.indexed (addLeft_run htable) hright
  have hleftCases := LeftTable.covers ht
  have hincludes : ∀ (side : Side) (own : List ℕ) natives, List.Forall₂ (fun (index : ℕ) native =>
      ∃ entry, table'.cases[index]? = some entry ∧ IsCase side entry native) own natives →
      ∀ index ∈ own, (table'.cases.getD index {}).domain.includes side = true := by
    intro side own natives hcases index hindex
    obtain ⟨native, _, entry, hentry, hlabel, _⟩ := Checked.exists_of_forall₂_left hcases hindex
    have hwell := (ht.wellFormed entry (List.mem_of_getElem? hentry) side).1
    rw [hlabel] at hwell
    rw [List.getD_eq_getElem?_getD, hentry]
    exact hwell.symm
  have hfilter := mergeOrder_filter _ _ _ order horder (hincludes .left _ _ hleftCases)
    (hincludes .right _ _ ht.rightCases)
  have hmem : ∀ entry ∈ order.map (fun index => table'.cases.getD index {}),
      entry ∈ table'.cases := by
    intro entry hentry
    obtain ⟨index, hindex, rfl⟩ := List.mem_map.mp hentry
    have hown := (mem_of_mergeOrder _ _ _ order horder (hincludes .left _ _ hleftCases)
      (hincludes .right _ _ ht.rightCases)).mp hindex
    have hsome : ∃ entry, table'.cases[index]? = some entry := by
      rcases hown with hown | hown
      · obtain ⟨_, _, entry, hentry, _⟩ := Checked.exists_of_forall₂_left hleftCases hown
        exact ⟨entry, hentry⟩
      · obtain ⟨_, _, entry, hentry, _⟩ := Checked.exists_of_forall₂_left ht.rightCases hown
        exact ⟨entry, hentry⟩
    obtain ⟨entry, hentry⟩ := hsome
    rw [List.getD_eq_getElem?_getD, hentry]
    exact List.mem_of_getElem? hentry
  refine ⟨Checked.ensure_ok.mp hwidth, t, _, hextension.trans ht.extension, ?_, rfl⟩
  refine
    { default := hlinked.mono ht.extension.pairs
      wellFormed := fun entry hentry => ht.wellFormed entry (hmem entry hentry)
      shared := fun entry hentry => ht.shared entry (hmem entry hentry)
      native := fun side => ?_
      common := fun c hc c' hc' hlabel => ?_ }
  · cases side with
    | left => exact forall₂_filter_order (hfilter .left) hleftCases
    | right => exact forall₂_filter_order (hfilter .right) ht.rightCases
  · obtain ⟨i, hi⟩ := List.mem_iff_getElem?.mp hc
    obtain ⟨j, hj⟩ := List.mem_iff_getElem?.mp hc'
    exact ht.common (c, i) (List.mem_zipIdx_iff_getElem?.mpr hi) (c', j)
      (List.mem_zipIdx_iff_getElem?.mpr hj) hlabel

/-! ## The worklist -/

theorem TerminatorsMatch.mono {common common' : ℕ → ℕ → Prop} {x y : Terminator}
    (himp : ∀ a b, common a b → common' a b) (h : TerminatorsMatch common x y) :
    TerminatorsMatch common' x y := by
  cases h with
  | edges hkind hswitch hedges => exact .edges hkind hswitch (hedges.imp himp)
  | switch hdefault hcases =>
    exact .switch (himp _ _ hdefault) fun c hc c' hc' hl => himp _ _ (hcases c hc c' hc' hl)

/-- What extending along an entry does: its terminators match, and a pair of switches is
recorded with its arms. -/
structure EntryStep (left right : Function) (s : Pairing) (a b : ℕ) (x y : Terminator)
    (s' : Pairing) : Prop where
  indexed : Indexed left right s'
  pairs : s.pairs <+: s'.pairs
  shared : (∀ entry ∈ s.pairs, entry.domain = .both) → ∀ entry ∈ s'.pairs, entry.domain = .both
  matched : TerminatorsMatch s'.Linked x y
  recorded : (x.opcode ≠ .switch ∧ s'.switches = s.switches ∧ s'.arms = s.arms) ∨
    ∃ pending : PendingSwitch, pending.left.parent = a ∧ pending.right.parent = b ∧
      x = pending.left.terminator ∧ y = pending.right.terminator ∧ SwitchMatched s' pending ∧
      s'.switches = s.switches ++ [pending] ∧
      s'.arms = s.arms ++ pending.cases.filterMap (armOf pending.left pending.right)

theorem EntryStep.of_extension {s s' : Pairing} {a b : ℕ} {x y : Terminator}
    (h : Extension left right s s') (hkind : x.opcode = y.opcode) (hswitch : x.opcode ≠ .switch)
    (hedges : List.Forall₂ s'.Linked x.successors y.successors) :
    EntryStep left right s a b x y s' where
  indexed := h.indexed
  pairs := h.pairs
  shared := h.shared
  matched := .edges hkind hswitch hedges
  recorded := .inl ⟨hswitch, h.switches, h.arms⟩

theorem matchTerminators_ok {s s' : Pairing} (hs : Indexed left right s) {a b : ℕ}
    {x y : Terminator} (h : matchTerminators left right s a b x y = .ok s') :
    EntryStep left right s a b x y s' := by
  unfold matchTerminators at h
  split at h
  · obtain ⟨hextension, _, _, hx, hy, hlinked⟩ := pair_ok hs h
    obtain rfl := Option.some.inj hx
    obtain rfl := Option.some.inj hy
    exact .of_extension hextension rfl (by simp [Terminator.opcode]) (.cons hlinked .nil)
  · obtain ⟨t, htrue, hfalse⟩ := Checked.bind_ok.mp h
    obtain ⟨hextension, _, _, hx, hy, hlinked⟩ := pair_ok hs htrue
    obtain rfl := Option.some.inj hx
    obtain rfl := Option.some.inj hy
    obtain ⟨hextension', _, _, hx, hy, hlinked'⟩ := pair_ok hextension.indexed hfalse
    obtain rfl := Option.some.inj hx
    obtain rfl := Option.some.inj hy
    exact .of_extension (hextension.trans hextension') rfl (by simp [Terminator.opcode])
      (.cons (hlinked.mono hextension'.pairs) (.cons hlinked' .nil))
  · cases h
  · cases h
  · obtain ⟨hwidth, t, cases, hextension, hmatched, rfl⟩ := matchSwitch_ok hs h
    have hindexed := hextension.indexed
    obtain rfl := hwidth
    exact
      { indexed := ⟨hindexed.wellFormed, hindexed.mapped, hindexed.nodup, hindexed.owned,
          hindexed.count⟩
        pairs := hextension.pairs
        shared := hextension.shared
        matched := .switch hmatched.default hmatched.common
        recorded := .inr ⟨⟨_, _, cases⟩, rfl, rfl, rfl, rfl, 
          hmatched.mono (show t.pairs <+: t.pairs from List.prefix_rfl),
          by rw [hextension.switches], by rw [hextension.arms]⟩ }
  · obtain rfl := Except.ok.inj h
    exact .of_extension (.refl hs) rfl (by simp [Terminator.opcode]) .nil
  · obtain rfl := Except.ok.inj h
    exact .of_extension (.refl hs) rfl (by simp [Terminator.opcode]) .nil
  · cases h

theorem matchEntry_ok {s s' : Pairing} (hs : Indexed left right s) {entry : BlockPair}
    (h : matchEntry left right s entry = .ok s') :
    ∃ a b x y, entry.left = some a ∧ entry.right = some b ∧ left.terminator a = some x ∧
      right.terminator b = some y ∧ EntryStep left right s a b x y s' := by
  unfold matchEntry at h
  obtain ⟨a, ha, h⟩ := Checked.bind_ok.mp h
  obtain ⟨b, hb, h⟩ := Checked.bind_ok.mp h
  obtain ⟨x, hx, h⟩ := Checked.bind_ok.mp h
  obtain ⟨y, hy, h⟩ := Checked.bind_ok.mp h
  obtain ⟨_, _, h⟩ := Checked.bind_ok.mp h
  rw [Checked.require_ok] at ha hb hx hy
  exact ⟨a, b, x, y, ha, hb, hx, hy, matchTerminators_ok hs h⟩

/-- The entry's terminators match, and where they are switches the pairing records them. -/
def EntryMatched (left right : Function) (s : Pairing) (entry : BlockPair) : Prop :=
  ∃ a b x y, entry.left = some a ∧ entry.right = some b ∧ left.terminator a = some x ∧
    right.terminator b = some y ∧ TerminatorsMatch s.Linked x y ∧
      ∀ switch : Switch, switch.parent = a → x = switch.terminator →
        ∃ pending ∈ s.switches, pending.left = switch

/-- A recorded pair of switches ends the blocks of an entry before `count`. -/
structure PendingOf (left right : Function) (s : Pairing) (count : ℕ)
    (pending : PendingSwitch) : Prop where
  matched : SwitchMatched s pending
  native : ∀ side, (side.pick left right).terminator (pending.on side).parent =
    some (pending.on side).terminator
  entry : ∃ index < count,
    s.pairs[index]? = some ⟨some pending.left.parent, some pending.right.parent, .both⟩

/-- The pairing with its first `count` entries extended. -/
structure MatchedTo (left right : Function) (count : ℕ) (s : Pairing) : Prop where
  indexed : Indexed left right s
  shared : ∀ entry ∈ s.pairs, entry.domain = .both
  entries : ∀ index < count, ∀ entry, s.pairs[index]? = some entry →
    EntryMatched left right s entry
  switches : ∀ pending ∈ s.switches, PendingOf left right s count pending
  parents : (s.switches.map fun pending => pending.left.parent).Nodup
  arms : s.arms = s.switches.flatMap fun pending =>
    pending.cases.filterMap (armOf pending.left pending.right)

theorem getElem?_of_prefix {α : Type} {xs ys : List α} (h : xs <+: ys) {index : ℕ} {x : α}
    (hx : xs[index]? = some x) : ys[index]? = some x := by
  obtain ⟨rest, rfl⟩ := h
  rw [List.getElem?_append_left (List.getElem?_eq_some_iff.mp hx).1]
  exact hx

theorem PendingOf.mono {s s' : Pairing} {count : ℕ} {pending : PendingSwitch}
    (hpairs : s.pairs <+: s'.pairs) (h : PendingOf left right s count pending) :
    PendingOf left right s' (count + 1) pending where
  matched := h.matched.mono hpairs
  native := h.native
  entry := by
    obtain ⟨index, hlt, hentry⟩ := h.entry
    exact ⟨index, by omega, getElem?_of_prefix hpairs hentry⟩

theorem eq_of_shared {entry : BlockPair} {a b : ℕ} (ha : entry.left = some a)
    (hb : entry.right = some b) (hboth : entry.domain = .both) : entry = ⟨some a, some b, .both⟩ := by
  obtain ⟨_, _, _⟩ := entry
  subst ha hb hboth
  rfl

/-- Extending along the next entry. -/
theorem matchEntry_step {s s' : Pairing} {count : ℕ} (hs : MatchedTo left right count s)
    {entry : BlockPair} (hentry : s.pairs[count]? = some entry)
    (h : matchEntry left right s entry = .ok s') : MatchedTo left right (count + 1) s' := by
  obtain ⟨a, b, x, y, ha, hb, hx, hy, hstep⟩ := matchEntry_ok hs.indexed h
  have hpairs := hstep.pairs
  have hboth := hs.shared entry (List.mem_of_getElem? hentry)
  have hentry' : s'.pairs[count]? = some entry := getElem?_of_prefix hpairs hentry
  have hsubset : ∀ pending ∈ s.switches, pending ∈ s'.switches := by
    intro pending hpending
    rcases hstep.recorded with ⟨_, hsame, _⟩ | ⟨_, _, _, _, _, _, hmore, _⟩
    · rwa [hsame]
    · rw [hmore]
      exact List.mem_append_left _ hpending
  have hentries : ∀ index < count + 1, ∀ e, s'.pairs[index]? = some e →
      EntryMatched left right s' e := by
    intro index hindex e he
    by_cases hlast : index = count
    · subst hlast
      obtain rfl : entry = e := Option.some.inj (hentry'.symm.trans he)
      refine ⟨a, b, x, y, ha, hb, hx, hy, hstep.matched, fun switch hparent hswitch => ?_⟩
      rcases hstep.recorded with ⟨hkind, _⟩ | ⟨pending, hleft, _, hpending, _, _, hmore, _⟩
      · subst hswitch
        simp [Switch.terminator, Terminator.opcode] at hkind
      · refine ⟨pending, hmore ▸ List.mem_append_right _ (by simp), ?_⟩
        obtain ⟨⟨_, _, _, _⟩, _, _⟩ := pending
        obtain ⟨_, _, _, _⟩ := switch
        simp only [Switch.terminator] at hpending hswitch
        subst hparent
        simp_all
    · have hlt : index < s.pairs.length := by
        have := (List.getElem?_eq_some_iff.mp hentry).1
        omega
      have hold : s.pairs[index]? = some e := by
        obtain ⟨rest, hrest⟩ := hpairs
        rw [← hrest, List.getElem?_append_left hlt] at he
        exact he
      obtain ⟨a', b', x', y', ha', hb', hx', hy', hmatched, hrecorded⟩ :=
        hs.entries index (by omega) e hold
      refine ⟨a', b', x', y', ha', hb', hx', hy',
        TerminatorsMatch.mono (fun _ _ => Linked.mono hpairs) hmatched,
        fun switch hparent hswitch => ?_⟩
      obtain ⟨pending, hpending, heq⟩ := hrecorded switch hparent hswitch
      exact ⟨pending, hsubset pending hpending, heq⟩
  rcases hstep.recorded with ⟨_, hswitches, harms⟩ |
    ⟨pending, hleft, hright, hxp, hyp, hmatched, hswitches, harms⟩
  · exact
      { indexed := hstep.indexed
        shared := hstep.shared hs.shared
        entries := hentries
        switches := fun p hp => (hs.switches p (hswitches ▸ hp)).mono hpairs
        parents := hswitches ▸ hs.parents
        arms := by rw [harms, hswitches]; exact hs.arms }
  · have hnew : PendingOf left right s' (count + 1) pending := by
      refine ⟨hmatched, fun side => ?_, count, by omega, ?_⟩
      · cases side with
        | left => exact hleft ▸ hxp ▸ hx
        | right => exact hright ▸ hyp ▸ hy
      · rw [hentry', eq_of_shared ha hb hboth, hleft, hright]
    refine
      { indexed := hstep.indexed
        shared := hstep.shared hs.shared
        entries := hentries
        switches := fun p hp => ?_
        parents := ?_
        arms := by rw [harms, hswitches, hs.arms]; simp }
    · rw [hswitches] at hp
      rcases List.mem_append.mp hp with hp | hp
      · exact (hs.switches p hp).mono hpairs
      · exact List.mem_singleton.mp hp ▸ hnew
    · -- The new switch ends the block of a later entry than those recorded before.
      rw [hswitches, List.map_append, List.map_singleton]
      refine Grouping.nodup_concat hs.parents fun hmem => ?_
      obtain ⟨p, hp, hparent⟩ := List.mem_map.mp hmem
      obtain ⟨index, hlt, hat⟩ := (hs.switches p hp).entry
      have hon : entry.on .left = some a := ha
      have hsame := hs.indexed.position_unique hat rfl hentry
        (hon.trans (congrArg some (hparent.trans hleft).symm))
      omega

/-- A side maps no more blocks than its function has. -/
theorem Indexed.length_mapping_le {s : Pairing} (hs : Indexed left right s) (side : Side) :
    (s.mapping side).length ≤ (side.pick left right).blocks.length := by
  have hsubset : (s.mapping side).map Prod.fst ⊆ (side.pick left right).blocks.map Block.id :=
    fun block hblock => of_decide_eq_true (hs.owned side block hblock)
  simpa using ((hs.nodup side).subperm hsubset).length_le

/-- A side that maps as many blocks as its function has maps them all. -/
theorem Indexed.mapped_of_length {s : Pairing} (hs : Indexed left right s) {side : Side}
    (hlength : (s.mapping side).length = (side.pick left right).blocks.length) {b : Block}
    (hb : b ∈ (side.pick left right).blocks) : ∃ index, (s.mapping side).lookup b.id = some index := by
  have hsubset : (s.mapping side).map Prod.fst ⊆ (side.pick left right).blocks.map Block.id :=
    fun block hblock => of_decide_eq_true (hs.owned side block hblock)
  have hperm := ((hs.nodup side).subperm hsubset).perm_of_length_le (by simp [hlength])
  have hmem : b.id ∈ (s.mapping side).map Prod.fst :=
    hperm.mem_iff.mpr (List.mem_map.mpr ⟨b, hb, rfl⟩)
  exact Option.isSome_iff_exists.mp (Association.lookup_isSome_iff_mem.mpr hmem)

/-- The worklist passes every entry, unless its fuel runs out on a pairing that has more
entries than fuel. -/
theorem matchEntries_ok : ∀ {fuel index : ℕ} {s s' : Pairing}, MatchedTo left right index s →
    index ≤ s.pairs.length → matchEntries left right fuel index s = .ok s' →
    ∃ count, MatchedTo left right count s' ∧
      (s'.pairs.length ≤ count ∨ count = index + fuel ∧ count ≤ s'.pairs.length)
  | 0, index, s, s', hs, hle, h => by
    obtain rfl := Except.ok.inj h
    exact ⟨index, hs, .inr ⟨rfl, hle⟩⟩
  | fuel + 1, index, s, s', hs, hle, h => by
    unfold matchEntries at h
    split at h
    · rename_i hnone
      obtain rfl := Except.ok.inj h
      exact ⟨index, hs, .inl (List.getElem?_eq_none_iff.mp hnone)⟩
    · rename_i entry hentry
      obtain ⟨t, hmatch, hrest⟩ := Checked.bind_ok.mp h
      have ht := matchEntry_step hs hentry hmatch
      obtain ⟨a, b, x, y, _, _, _, _, hstep⟩ := matchEntry_ok hs.indexed hmatch
      have hlt := (List.getElem?_eq_some_iff.mp hentry).1
      have hgrow := hstep.pairs.length_le
      obtain ⟨count, hcount, hend⟩ := matchEntries_ok ht (by omega) hrest
      refine ⟨count, hcount, hend.imp id fun ⟨heq, hle⟩ => ⟨by omega, hle⟩⟩

theorem matchEntries_pairs : ∀ {fuel index : ℕ} {s s' : Pairing}, Indexed left right s →
    matchEntries left right fuel index s = .ok s' → s.pairs <+: s'.pairs
  | 0, index, s, s', _, h => by
    obtain rfl := Except.ok.inj h
    exact List.prefix_rfl
  | fuel + 1, index, s, s', hs, h => by
    unfold matchEntries at h
    split at h
    · obtain rfl := Except.ok.inj h
      exact List.prefix_rfl
    · obtain ⟨t, hmatch, hrest⟩ := Checked.bind_ok.mp h
      obtain ⟨_, _, _, _, _, _, _, _, hstep⟩ := matchEntry_ok hs hmatch
      exact hstep.pairs.trans (matchEntries_pairs hstep.indexed hrest)

/-- The worklist starts from the entries of the two functions. -/
theorem matchShared_entry {s : Pairing} (h : matchShared left right = .ok s) :
    ∃ x y, left.entry = some x ∧ right.entry = some y ∧ s.Linked x y := by
  obtain ⟨t, hentry, h⟩ := Checked.bind_ok.mp h
  obtain ⟨hextension, x, y, hx, hy, hlinked⟩ := pair_ok Indexed.empty hentry
  exact ⟨x, y, hx, hy, hlinked.mono (matchEntries_pairs hextension.indexed h)⟩

/-- After the worklist every entry's terminators match. -/
theorem matchShared_ok {s : Pairing} (h : matchShared left right = .ok s) :
    MatchedTo left right s.pairs.length s := by
  unfold matchShared at h
  obtain ⟨t, hentry, h⟩ := Checked.bind_ok.mp h
  obtain ⟨hextension, _⟩ := pair_ok Indexed.empty hentry
  have hstart : MatchedTo left right 0 t :=
    { indexed := hextension.indexed
      shared := hextension.shared (by simp)
      entries := by simp
      switches := by simp [hextension.switches]
      parents := by simp [hextension.switches]
      arms := by simp [hextension.switches, hextension.arms] }
  obtain ⟨count, hs, hend⟩ := matchEntries_ok hstart (Nat.zero_le _) h
  -- Each entry has a block of the left function, so that the fuel suffices.
  have hcount := hs.indexed.count .left
  have hall : (s.pairs.filter fun e => (e.on .left).isSome) = s.pairs := by
    refine List.filter_eq_self.mpr fun e he => ?_
    rw [hs.indexed.wellFormed e he, hs.shared e he]
    rfl
  have hle := hs.indexed.length_mapping_le .left
  rw [hcount, hall] at hle
  have hpassed : s.pairs.length ≤ count := by
    rcases hend with hend | ⟨heq, hle'⟩
    · exact hend
    · have hle : s.pairs.length ≤ left.blocks.length := hle
      omega
  exact
    { indexed := hs.indexed
      shared := hs.shared
      entries := fun index hlt => hs.entries index (by omega)
      switches := fun pending hpending =>
        { matched := (hs.switches pending hpending).matched
          native := (hs.switches pending hpending).native
          entry := by
            obtain ⟨index, _, hat⟩ := (hs.switches pending hpending).entry
            exact ⟨index, (List.getElem?_eq_some_iff.mp hat).1, hat⟩ }
      parents := hs.parents
      arms := hs.arms }

/-! ## Private arms -/

/-- Following an arm extends its chain by a path of unmapped blocks to a mapped one. -/
theorem armChain_ok {function : Function} {mapping : List (ℕ × ℕ)} :
    ∀ {remaining predecessor block exit : ℕ} {chain whole : List ℕ}, chain.Nodup →
      armChain function mapping remaining predecessor chain block = .ok (whole, exit) →
      ∃ path, whole = chain ++ path ∧ whole.Nodup ∧
        ArmPath function predecessor block path exit ∧
        ∀ member ∈ path, function.owns member = true ∧ mapping.lookup member = none := by
  intro remaining
  induction remaining with
  | zero =>
    intro predecessor block exit chain whole hnodup h
    unfold armChain at h
    split at h
    · obtain ⟨rfl, rfl⟩ := Prod.mk.inj (Except.ok.inj h)
      exact ⟨[], by simp, hnodup, .rejoin _ _, by simp⟩
    · obtain ⟨_, _, h⟩ := Checked.bind_ok.mp h
      cases h
  | succ remaining ih =>
    intro predecessor block exit chain whole hnodup h
    unfold armChain at h
    split at h
    · obtain ⟨rfl, rfl⟩ := Prod.mk.inj (Except.ok.inj h)
      exact ⟨[], by simp, hnodup, .rejoin _ _, by simp⟩
    · rename_i hunmapped
      obtain ⟨_, hcheck, h⟩ := Checked.bind_ok.mp h
      obtain ⟨_, hentered, h⟩ := Checked.bind_ok.mp h
      obtain ⟨next, hnext, h⟩ := Checked.bind_ok.mp h
      obtain ⟨howned, hnew⟩ := Checked.ensure_ok.mp hcheck
      rw [Checked.ensure_ok] at hentered
      rw [Checked.require_ok] at hnext
      obtain ⟨path, hwhole, hnodup', hpath, hmembers⟩ := ih (Grouping.nodup_concat hnodup hnew) h
      refine ⟨block :: path, by simp [hwhole], hnodup', .step hentered hnext hpath, ?_⟩
      exact List.forall_mem_cons.mpr ⟨⟨howned, Option.not_isSome_iff_eq_none.mp hunmapped⟩, hmembers⟩

theorem oneSided_on (side : Side) (block : ℕ) : (oneSided side block).on side = some block := by
  cases side <;> rfl

theorem oneSided_wellFormed (side : Side) (block : ℕ) : (oneSided side block).WellFormed := by
  intro other
  cases side <;> cases other <;> rfl

theorem oneSided_on_eq_some {side other : Side} {block b : ℕ}
    (h : (oneSided side block).on other = some b) : other = side ∧ b = block := by
  cases side <;> cases other <;> simp_all [oneSided, BlockPair.on]

/-- Adding the members of an arm appends their entries, and checks that what they define stays
on the arm. -/
theorem addMembers_ok {side : Side} {chain : List ℕ} :
    ∀ {members : List ℕ} {s t : Pairing}, Indexed left right s → members.Nodup →
      (∀ member ∈ members, (side.pick left right).owns member = true ∧
        (s.mapping side).lookup member = none) →
      members.foldlM (addMember (side.pick left right) side chain) s = .ok t →
      Indexed left right t ∧ t.pairs = s.pairs ++ members.map (oneSided side) ∧
        t.switches = s.switches ∧ t.arms = s.arms ∧
        ∀ member ∈ members, ∀ value ∈ (side.pick left right).defines member,
          ∀ user ∈ (side.pick left right).users value, user ∈ chain
  | [], s, t, hs, _, _, h => by
    obtain rfl : s = t := by simpa using h
    exact ⟨hs, by simp, rfl, rfl, by simp⟩
  | member :: members, s, t, hs, hnodup, hnew, h => by
    obtain ⟨u, hadd, hrest⟩ := Checked.foldlM_cons_ok.mp h
    unfold addMember at hadd
    obtain ⟨_, hcheck, hsame⟩ := Checked.bind_ok.mp hadd
    obtain rfl := Except.ok.inj hsame
    obtain ⟨hmember, hnodup⟩ := List.nodup_cons.mp hnodup
    obtain ⟨hfirst, hnew⟩ := List.forall_mem_cons.mp hnew
    have hpush : Indexed left right (s.push (oneSided side member)) := by
      refine hs.push (oneSided_wellFormed side member) fun other b hon => ?_
      obtain ⟨rfl, rfl⟩ := oneSided_on_eq_some hon
      exact hfirst
    have hnew' : ∀ m ∈ members, (side.pick left right).owns m = true ∧
        ((s.push (oneSided side member)).mapping side).lookup m = none := by
      intro m hm
      have hne : m ≠ member := fun heq => hmember (heq ▸ hm)
      rw [mapping_push, oneSided_on, Option.map_some, Option.toList_some, List.singleton_append,
        List.lookup_cons, beq_eq_false_iff_ne.mpr hne]
      exact hnew m hm
    obtain ⟨hindexed, hpairs, hswitches, harms, hclosed⟩ := addMembers_ok hpush hnodup hnew' hrest
    refine ⟨hindexed, ?_, hswitches, harms, List.forall_mem_cons.mpr
      ⟨Checked.ensure_ok.mp hcheck, hclosed⟩⟩
    rw [hpairs]
    simp [push]

/-- A chain of one-sided entries that hangs on an arm. -/
structure ArmChain (left right : Function) (s : Pairing) (arm : PrivateArm) (chain : List ℕ) :
    Prop where
  path : ∃ first exit, arm.first = some first ∧
    ArmPath (arm.side.pick left right) arm.source.parent first chain exit ∧
    ∃ entry ∈ s.pairs, entry.on arm.side = some exit ∧ entry.domain = .both
  members : ∀ member ∈ chain, oneSided arm.side member ∈ s.pairs
  closed : ∀ member ∈ chain, ∀ value ∈ (arm.side.pick left right).defines member,
    ∀ user ∈ (arm.side.pick left right).users value, user ∈ chain

theorem ArmChain.mono {s s' : Pairing} {arm : PrivateArm} {chain : List ℕ}
    (hpairs : s.pairs <+: s'.pairs) (h : ArmChain left right s arm chain) :
    ArmChain left right s' arm chain where
  path := by
    obtain ⟨first, exit, hfirst, hpath, entry, hentry, hon, hboth⟩ := h.path
    exact ⟨first, exit, hfirst, hpath, entry, hpairs.subset hentry, hon, hboth⟩
  members := fun member hmember => hpairs.subset (h.members member hmember)
  closed := h.closed

/-- The pairing `s₁` grown by the entries of private arms, those of the arms `passed`. -/
structure Qualified (left right : Function) (s₁ : Pairing) (passed : List PrivateArm)
    (s : Pairing) : Prop where
  indexed : Indexed left right s
  pairs : s₁.pairs <+: s.pairs
  switches : s.switches = s₁.switches
  arms : s.arms = s₁.arms
  added : ∀ entry ∈ s.pairs, entry ∈ s₁.pairs ∨ ∃ arm ∈ s₁.arms, ∃ chain, ∃ block ∈ chain,
    entry = oneSided arm.side block ∧ ArmChain left right s arm chain
  passed : ∀ arm ∈ passed, ∃ chain, chain ≠ [] ∧ ArmChain left right s arm chain

theorem qualifyArm_step {s₁ s s' : Pairing} {passed : List PrivateArm}
    (hs : Qualified left right s₁ passed s) {arm : PrivateArm} (harm : arm ∈ s₁.arms)
    (h : qualifyArm left right s arm = .ok s') : Qualified left right s₁ (passed ++ [arm]) s' := by
  unfold qualifyArm at h
  obtain ⟨first, hfirst, h⟩ := Checked.bind_ok.mp h
  obtain ⟨⟨chain, exit⟩, hchain, h⟩ := Checked.bind_ok.mp h
  obtain ⟨_, hcheck, hadd⟩ := Checked.bind_ok.mp h
  rw [Checked.require_ok] at hfirst
  obtain ⟨hne, hexit⟩ := Checked.ensure_ok.mp hcheck
  obtain ⟨path, hwhole, hnodup, hpath, hmembers⟩ := armChain_ok List.nodup_nil hchain
  obtain rfl : chain = path := by simpa using hwhole
  obtain ⟨hindexed, hpairs, hswitches, harms, hclosed⟩ :=
    addMembers_ok hs.indexed hnodup hmembers hadd
  have hprefix : s.pairs <+: s'.pairs := hpairs ▸ List.prefix_append _ _
  have harmChain : ArmChain left right s' arm chain := by
    refine ⟨⟨first, exit, hfirst, hpath, ?_⟩, fun member hmember => ?_, hclosed⟩
    · obtain ⟨entry, hentry, hboth⟩ := Option.map_eq_some_iff.mp hexit
      obtain ⟨index, hindex, hentry⟩ := Option.bind_eq_some_iff.mp hentry
      obtain ⟨e, he, hon⟩ := (hs.indexed.mapped arm.side exit index).mp hindex
      obtain rfl : entry = e := Option.some.inj (hentry.symm.trans he)
      exact ⟨entry, hprefix.subset (List.mem_of_getElem? he), hon, hboth⟩
    · rw [hpairs]
      exact List.mem_append_right _ (List.mem_map_of_mem hmember)
  refine
    { indexed := hindexed
      pairs := hs.pairs.trans hprefix
      switches := hswitches.trans hs.switches
      arms := harms.trans hs.arms
      added := fun entry hentry => ?_
      passed := fun other hother => ?_ }
  · rw [hpairs] at hentry
    rcases List.mem_append.mp hentry with hold | hnew
    · refine (hs.added entry hold).imp id ?_
      rintro ⟨other, hother, chain', block, hblock, heq, hchain'⟩
      exact ⟨other, hother, chain', block, hblock, heq, hchain'.mono hprefix⟩
    · obtain ⟨block, hblock, rfl⟩ := List.mem_map.mp hnew
      exact .inr ⟨arm, harm, chain, block, hblock, rfl, harmChain⟩
  · rcases List.mem_append.mp hother with hother | hother
    · obtain ⟨chain', hne', hchain'⟩ := hs.passed other hother
      exact ⟨chain', hne', hchain'.mono hprefix⟩
    · exact ⟨chain, hne, List.mem_singleton.mp hother ▸ harmChain⟩

theorem qualifyArms_ok {s₁ s : Pairing} (hs : Indexed left right s₁)
    (h : s₁.arms.foldlM (qualifyArm left right) s₁ = .ok s) :
    Qualified left right s₁ s₁.arms s := by
  have hstart : Qualified left right s₁ [] s₁ :=
    ⟨hs, List.prefix_rfl, rfl, rfl, fun entry hentry => .inl hentry, by simp⟩
  have hrun := Checked.foldlM_invariant (Qualified left right s₁) hstart
    (fun passed arm rest s s' hsplit hs hstep =>
      qualifyArm_step hs (by
        have harm : arm ∈ [] ++ s₁.arms := by rw [hsplit]; simp
        simpa using harm) hstep) h
  simpa using hrun

end Pairing

end Sela
