import Mathlib.Data.List.Basic
import Std.Data.String.ToNat
import Sela.LinkArguments

/-!
# Publishing a combination

The publisher makes one artifact of each unit of a combination and links them. Where the
native units of a target are in another order than the units of the combination, it gives
the link a permutation of the units the target has; `applyOrders` then restores the order.

The link takes the request of a combination where its settings are ones that it takes
(`Linkable`). A published plan has, for each target, the native units of its capture in their
order (`publishCombination_order`).
-/

namespace Sela

open Checked

/-! ## The link of a combination -/

/-- The targets of one unit, where it does not have all. -/
def unitDomain (selection : TargetSelection) (entry : CapturedUnit × ℕ) :
    Checked (Option (ℕ × TargetSelection)) := do
  ensure (entry.1.pathsByTarget ≠ []) "selected native unit has no target captures"
  ensure (∀ captures ∈ entry.1.pathsByTarget, captures.2 ≠ [])
    "selected native target has no capture inputs"
  if entry.1.pathsByTarget.length = selection.ids.length then pure none
  else do
    let domain ← parseTargetSelection (entry.1.pathsByTarget.map Prod.fst)
    pure (some (entry.2, domain))

/-- The member names of a static archive. -/
def archiveMemberNames (captured : CapturedBuild) : Checked (List MemberName) :=
  if captured.kind = "static" then
    captured.units.mapM fun unit => parseMemberName unit.archiveMemberName
  else pure []

/-- The request of a combination, as the link reads and checks it. -/
def linkRequest (format : PackageFormat) (selection : TargetSelection) (captured : CapturedBuild) :
    Checked LinkRequest := do
  let domains ← captured.units.zipIdx.mapM (unitDomain selection)
  let archiveNames ← archiveMemberNames captured
  let settings ← readSettings captured.settings
  let targetLinks ← readTargetLinks format captured.linksByTarget
  let request : LinkRequest :=
    ⟨if captured.kind = "shared" ∨ captured.kind = "static" then captured.kind else "executable",
      selection, domains.reduceOption, archiveNames, settings, targetLinks⟩
  checkRequest request captured.units.length
  pure request

/-- The fields of the order of a target : for each of its native units, the position of its
unit among those the target has. -/
def orderFields (captured : CapturedBuild) (entry : String × List ℕ) : Checked (List String) :=
  entry.2.mapM fun index => do
    let position ← require ((captured.present entry.1).zipIdx.lookup index)
      "native unit order references an inactive target input"
    pure (toString position)

/-- One number of an order. -/
def parseOrderIndex (field : String) : Checked ℕ := do
  ensure (field ≠ "" ∧ field.toList.all Char.isDigit = true)
    "invalid target native-unit permutation index"
  let number ← require field.toNat? "invalid target native-unit permutation index"
  ensure (number < 2 ^ 32) "invalid target native-unit permutation index"
  pure number

/-- The length of an order's text, whose fields are separated by commas. -/
def orderLength (fields : List String) : ℕ := (fields.map String.length).sum + (fields.length - 1)

/-- One more order of the link, after the orders before. -/
def parseUnitOrder (orders : List (String × List ℕ)) (target : String) (fields : List String) :
    Checked (List (String × List ℕ)) := do
  ensure ((Sela.targets.find target).isSome ∧ target ∉ orders.map Prod.fst)
    "unsupported or duplicate target native-unit permutation"
  ensure (orderLength fields ≠ 0 ∧ orderLength fields ≤ 4096) "invalid target native-unit permutation"
  ensure (fields.length ≤ 512) "oversized target native-unit permutation"
  let permutation ← fields.mapM parseOrderIndex
  pure (orders ++ [(target, permutation)])

/-- The orders of a combination, as the publisher gives them to the link. -/
def unitOrders (captured : CapturedBuild) : Checked (List (String × List ℕ)) :=
  captured.ordersByTarget.foldlM (fun orders entry => do
    let fields ← orderFields captured entry
    parseUnitOrder orders entry.1 fields) []

/-- The units of a target in the order of `indices`, each once. -/
def permuteUnits (target : String) (units : List ArtifactUnit) :
    List ℕ → List ℕ → Checked (List ArtifactUnit)
  | _, [] => pure []
  | seen, index :: indices => do
    let unit ← require units[index]?
      (target ++ " native-unit permutation must reference each unit exactly once")
    ensure (index ∉ seen)
      (target ++ " native-unit permutation must reference each unit exactly once")
    let ordered ← permuteUnits target units (seen ++ [index]) indices
    pure (unit :: ordered)

/-- Put the units of one target in an order. -/
def applyOrder (plan : CompilationPlan) (entry : String × List ℕ) : Checked CompilationPlan := do
  let units ← require (plan.lookup entry.1)
    (entry.1 ++ " native-unit permutation does not match the admitted unit inventory")
  ensure (entry.2.length = units.length)
    (entry.1 ++ " native-unit permutation does not match the admitted unit inventory")
  let ordered ← permuteUnits entry.1 units [] entry.2
  pure (Association.update entry.1 (fun _ => ordered) plan)

def applyOrders (plan : CompilationPlan) (orders : List (String × List ℕ)) :
    Checked CompilationPlan :=
  orders.foldlM applyOrder plan

/-! ## Selections -/

theorem foldlM_selectTarget_ok {fields selected : List String}
    (h : fields.foldlM selectTarget [] = .ok selected) :
    selected = fields ∧ ∀ field ∈ fields, (Sela.targets.find field).isSome := by
  have hstart : ([] : List String) = [] ∧ ∀ field ∈ ([] : List String),
      (Sela.targets.find field).isSome := ⟨rfl, by simp⟩
  refine foldlM_invariant (fun passed selected => selected = passed ∧
    ∀ field ∈ passed, (Sela.targets.find field).isSome) hstart ?_ h
  rintro passed field rest selected selected' - ⟨rfl, hfound⟩ hstep
  unfold selectTarget at hstep
  obtain ⟨_, -, hstep⟩ := bind_ok.mp hstep
  obtain ⟨_, hregistered, hstep⟩ := bind_ok.mp hstep
  obtain ⟨_, -, hstep⟩ := bind_ok.mp hstep
  obtain rfl := Except.ok.inj hstep
  exact ⟨rfl, by simpa [or_imp, forall_and] using ⟨hfound, ensure_ok.mp hregistered⟩⟩

theorem mem_registered {id : String} (h : (Sela.targets.find id).isSome) :
    id ∈ Sela.targets.all.map TargetInfo.id := by
  obtain ⟨target, htarget⟩ := Option.isSome_iff_exists.mp h
  exact List.mem_map.mpr ⟨target, targets.find_mem htarget, targets.find_id htarget⟩

/-- A selection has the targets of its fields. -/
theorem mem_parseTargetSelection {fields : List String} {selection : TargetSelection}
    (h : parseTargetSelection fields = .ok selection) {target : String} :
    target ∈ selection.ids ↔ target ∈ fields := by
  unfold parseTargetSelection at h
  obtain ⟨selected, hselected, h⟩ := bind_ok.mp h
  obtain rfl := Except.ok.inj h
  obtain ⟨rfl, hfound⟩ := foldlM_selectTarget_ok hselected
  rw [List.mem_filter, decide_eq_true_eq]
  exact ⟨And.right, fun hmem => ⟨mem_registered (hfound target hmem), hmem⟩⟩

/-- Distinct registered targets are the fields of a selection. -/
theorem parseTargetSelection_defined {fields : List String} (hnodup : fields.Nodup)
    (hfound : ∀ field ∈ fields, (Sela.targets.find field).isSome) :
    ∃ selection, parseTargetSelection fields = .ok selection := by
  have hfold : ∀ (rest passed : List String), (passed ++ rest).Nodup →
      (∀ field ∈ rest, (Sela.targets.find field).isSome) →
      rest.foldlM selectTarget passed = .ok (passed ++ rest) := by
    intro rest
    induction rest with
    | nil => intro passed _ _; simp
    | cons field rest ih =>
      intro passed hnodup hfound
      have hregistered := hfound field (by simp)
      have hne : field ≠ "" := by
        rintro rfl
        exact absurd hregistered (by decide)
      have hnew : field ∉ passed := fun hmem =>
        (List.nodup_append.mp hnodup).2.2 field hmem field (by simp) rfl
      have hrest := ih (passed ++ [field]) (by simpa using hnodup)
        fun other hother => hfound other (by simp [hother])
      rw [List.append_assoc, List.singleton_append] at hrest
      exact foldlM_cons_ok.mpr ⟨passed ++ [field], bind_ok.mpr ⟨(), ensure_ok.mpr hne,
        bind_ok.mpr ⟨(), ensure_ok.mpr hregistered, bind_ok.mpr ⟨(), ensure_ok.mpr hnew, rfl⟩⟩⟩, hrest⟩
  exact ⟨_, bind_ok.mpr ⟨fields, hfold fields [] (by simpa using hnodup) hfound, rfl⟩⟩

/-! ## The request -/

/-- Entries given for some positions of a list, each with its position as the key. -/
theorem lookup_positions {α β : Type} :
    ∀ {xs : List α} {n : ℕ} {slots : List (Option (ℕ × β))},
      List.Forall₂ (fun x slot => ∀ entry, slot = some entry → entry.1 = x.2) (xs.zipIdx n) slots →
      ∀ m, slots.reduceOption.lookup m =
        if m < n then none else slots[m - n]?.join.map Prod.snd
  | [], n, _, .nil, m => by simp
  | _ :: _, n, slot :: slots, .cons hslot h, m => by
    have ih := lookup_positions h m
    have htail : n < m → (slot :: slots)[m - n]? = slots[m - (n + 1)]? := fun hlt => by
      rw [show m - n = (m - (n + 1)) + 1 by omega, List.getElem?_cons_succ]
    match slot, hslot with
    | none, _ =>
      rw [List.reduceOption_cons_of_none, ih]
      rcases Nat.lt_trichotomy m n with hlt | rfl | hlt
      · rw [if_pos (by omega), if_pos hlt]
      · simp
      · rw [if_neg (by omega), if_neg (by omega), htail hlt]
    | some (k, value), hslot =>
      obtain rfl : k = n := hslot _ rfl
      rw [List.reduceOption_cons_of_some, List.lookup_cons, ih]
      rcases Nat.lt_trichotomy m k with hlt | rfl | hlt
      · rw [if_pos (by omega), if_pos hlt, beq_eq_false_iff_ne.mpr (by omega)]
      · simp
      · rw [if_neg (by omega), if_neg (by omega), htail hlt, beq_eq_false_iff_ne.mpr (by omega)]

/-- What the request of a combination asks : of each unit the targets it has captures of, and
in a static archive the member name it has. -/
structure RequestOf (selection : TargetSelection) (captured : CapturedBuild)
    (request : LinkRequest) : Prop where
  targets : request.targets = selection
  static : request.kind = "static" ↔ captured.kind = "static"
  required : ∀ index unit, captured.units[index]? = some unit →
    ∀ target, target ∈ (request.required index).ids ↔ target ∈ unit.pathsByTarget.map Prod.fst
  names : captured.kind = "static" → List.Forall₂ (fun unit member =>
    member.name = unit.archiveMemberName) captured.units request.archiveNames

section

variable {format : PackageFormat} {selection : TargetSelection} {selected : List SelectedBuild}
  {captured : CapturedBuild}

/-- A unit that has as many targets as there are has all of them. -/
theorem Combined.all_targets (h : Combined selected captured)
    (hselection : ∀ target, target ∈ selection.ids ↔ target ∈ selected.map SelectedBuild.target)
    {unit : CapturedUnit} (hunit : unit ∈ captured.units)
    (hlength : unit.pathsByTarget.length = selection.ids.length) (target : String) :
    target ∈ selection.ids ↔ target ∈ unit.pathsByTarget.map Prod.fst := by
  have hvalid := h.units unit hunit
  have hsubset : unit.pathsByTarget.map Prod.fst ⊆ selection.ids := by
    intro name hname
    obtain ⟨entry, hentry, rfl⟩ := List.mem_map.mp hname
    exact (hselection _).mpr (hvalid.selected entry hentry)
  have hperm := (List.subperm_of_subset hvalid.nodup hsubset).perm_of_length_le (by simp [hlength])
  exact hperm.mem_iff.symm

/-- The domain of a unit is that of its captures, where it does not have all targets. -/
theorem unitDomain_ok {entry : CapturedUnit × ℕ} {slot : Option (ℕ × TargetSelection)}
    (h : unitDomain selection entry = .ok slot) :
    (slot = none ∧ entry.1.pathsByTarget.length = selection.ids.length) ∨
      ∃ domain, slot = some (entry.2, domain) ∧
        ∀ target, target ∈ domain.ids ↔ target ∈ entry.1.pathsByTarget.map Prod.fst := by
  unfold unitDomain at h
  obtain ⟨_, -, h⟩ := bind_ok.mp h
  obtain ⟨_, -, h⟩ := bind_ok.mp h
  split at h
  · rename_i hlength
    exact Or.inl ⟨(Except.ok.inj h).symm, hlength⟩
  · obtain ⟨domain, hdomain, h⟩ := bind_ok.mp h
    exact Or.inr ⟨domain, (Except.ok.inj h).symm, fun _ => mem_parseTargetSelection hdomain⟩

theorem unitDomain_defined (h : Combined selected captured) {entry : CapturedUnit × ℕ}
    (hentry : entry.1 ∈ captured.units) : ∃ slot, unitDomain selection entry = .ok slot := by
  have hvalid := h.units entry.1 hentry
  unfold unitDomain
  by_cases hlength : entry.1.pathsByTarget.length = selection.ids.length
  · exact ⟨none, bind_ok.mpr ⟨(), ensure_ok.mpr hvalid.nonempty, bind_ok.mpr
      ⟨(), ensure_ok.mpr hvalid.captures, by rw [if_pos hlength]; rfl⟩⟩⟩
  · obtain ⟨domain, hdomain⟩ := parseTargetSelection_defined hvalid.nodup fun name hname => by
      obtain ⟨captures, hmem, rfl⟩ := List.mem_map.mp hname
      obtain ⟨profile, hprofile, hname⟩ := List.mem_map.mp (hvalid.selected captures hmem)
      exact hname ▸ h.targets.2 profile hprofile
    exact ⟨some (entry.2, domain), bind_ok.mpr ⟨(), ensure_ok.mpr hvalid.nonempty, bind_ok.mpr
      ⟨(), ensure_ok.mpr hvalid.captures, by
        rw [if_neg hlength]; exact bind_ok.mpr ⟨domain, hdomain, rfl⟩⟩⟩⟩

theorem parseMemberName_ok {name : String} {member : MemberName}
    (h : parseMemberName name = .ok member) : member.name = name := by
  unfold parseMemberName at h
  split at h
  · exact (Except.ok.inj h) ▸ rfl
  · simp at h

theorem parseMemberName_defined_iff {name : String} :
    (∃ member, parseMemberName name = .ok member) ↔ validArchiveMember name = true := by
  unfold parseMemberName
  by_cases hvalid : validArchiveMember name = true <;> simp [hvalid]

/-- The kind of the output that is asked for. -/
theorem requestKind_static {kind : String} :
    (if kind = "shared" ∨ kind = "static" then kind else "executable") = "static" ↔
      kind = "static" := by
  split
  · rfl
  · rename_i hkind
    exact ⟨fun heq => absurd heq (by decide), fun heq => absurd (Or.inr heq) hkind⟩

theorem linkRequest_ok (h : Combined selected captured)
    (hselection : ∀ target, target ∈ selection.ids ↔ target ∈ selected.map SelectedBuild.target)
    {request : LinkRequest} (hrequest : linkRequest format selection captured = .ok request) :
    RequestOf selection captured request := by
  unfold linkRequest at hrequest
  obtain ⟨domains, hdomains, hrequest⟩ := bind_ok.mp hrequest
  obtain ⟨archiveNames, hnames, hrequest⟩ := bind_ok.mp hrequest
  obtain ⟨settings, -, hrequest⟩ := bind_ok.mp hrequest
  obtain ⟨targetLinks, -, hrequest⟩ := bind_ok.mp hrequest
  obtain ⟨_, -, hrequest⟩ := bind_ok.mp hrequest
  obtain rfl := Except.ok.inj hrequest
  have hdomains := mapM_ok.mp hdomains
  have hslots : List.Forall₂ (fun entry slot => ∀ domain, slot = some domain → domain.1 = entry.2)
      captured.units.zipIdx domains := hdomains.imp fun entry slot hslot domain hdomain => by
    rcases unitDomain_ok hslot with ⟨rfl, -⟩ | ⟨_, rfl, -⟩
    · simp at hdomain
    · exact (Option.some.inj hdomain) ▸ rfl
  refine ⟨rfl, requestKind_static, fun index unit hunit target => ?_, fun hstatic => ?_⟩
  · obtain ⟨slot, hget, hslot⟩ := forall₂_getElem? hdomains
      (show captured.units.zipIdx[index]? = some (unit, index) by simp [hunit])
    unfold LinkRequest.required
    rw [lookup_positions hslots index, if_neg (Nat.not_lt_zero _), Nat.sub_zero, hget]
    rcases unitDomain_ok hslot with ⟨rfl, hlength⟩ | ⟨domain, rfl, hdomain⟩
    · exact h.all_targets hselection (List.mem_of_getElem? hunit) hlength target
    · exact hdomain target
  · rw [archiveMemberNames, if_pos hstatic] at hnames
    exact (mapM_ok.mp hnames).imp fun unit member hmember => parseMemberName_ok hmember

/-- Every native unit is in a unit of the combination, which has its member name. -/
theorem Combined.unit_of_native (h : Combined selected captured) {profile : SelectedBuild}
    (hprofile : profile ∈ selected) {native : SelectedUnit} (hnative : native ∈ profile.units) :
    ∃ unit ∈ captured.units,
      profile.kind = "static" → unit.archiveMemberName = native.archiveMemberName := by
  cases h.ordered profile hprofile with
  | inOrder _ hcaptures =>
    obtain ⟨capture, hcapture, -, hname⟩ := exists_of_forall₂_left hcaptures hnative
    obtain ⟨unit, hunit, hmem⟩ := List.mem_flatMap.mp hcapture
    obtain ⟨path, -, rfl⟩ := List.mem_map.mp hmem
    exact ⟨unit, hunit, hname⟩
  | permuted order _ _ hcaptures _ _ =>
    obtain ⟨index, -, unit, hunit, -, hname⟩ := exists_of_forall₂_left hcaptures hnative
    exact ⟨unit, List.mem_of_getElem? hunit, fun _ => hname⟩

/-- A unit of the combination has a native unit, and in a static archive its member name. -/
theorem Combined.native_of_unit (h : Combined selected captured) {unit : CapturedUnit}
    (hunit : unit ∈ captured.units) : ∃ profile ∈ selected, ∃ native ∈ profile.units,
      profile.kind = "static" → unit.archiveMemberName = native.archiveMemberName := by
  have hvalid := h.units unit hunit
  obtain ⟨⟨target, paths⟩, rest, hpaths⟩ := List.exists_cons_of_ne_nil hvalid.nonempty
  have hentry : (target, paths) ∈ unit.pathsByTarget := by simp [hpaths]
  obtain ⟨profile, hprofile, rfl⟩ := List.mem_map.mp (hvalid.selected _ hentry)
  obtain ⟨index, hindex⟩ := List.getElem?_of_mem hunit
  refine ⟨profile, hprofile, ?_⟩
  cases h.ordered profile hprofile with
  | inOrder _ hcaptures =>
    obtain ⟨capture, others, rfl⟩ := List.exists_cons_of_ne_nil (hvalid.captures _ hentry)
    have hmem : (capture, unit.archiveMemberName) ∈ captured.captures profile.target := by
      refine List.mem_flatMap.mpr ⟨unit, hunit, ?_⟩
      rw [(Association.lookup_eq_some_iff_mem hvalid.nodup).mpr hentry]
      simp
    obtain ⟨native, hnative, -, hname⟩ := exists_of_forall₂_right hcaptures hmem
    exact ⟨native, hnative, hname⟩
  | permuted order _ _ hcaptures _ hpresent =>
    have hmem : index ∈ order := (hpresent index).mpr (CapturedBuild.mem_present.mpr
      ⟨unit, hindex, List.mem_map.mpr ⟨_, hentry, rfl⟩⟩)
    obtain ⟨native, hnative, unit', hunit', -, hname⟩ := exists_of_forall₂_right hcaptures hmem
    rw [hindex] at hunit'
    obtain rfl := Option.some.inj hunit'
    exact ⟨native, hnative, fun _ => hname⟩

/-- Profiles whose combination the link takes. -/
structure Linkable (format : PackageFormat) (selected : List SelectedBuild) : Prop where
  nonempty : ∃ profile ∈ selected, profile.units ≠ [] ∨ profile.kind = "static"
  members : ∀ profile ∈ selected, profile.kind = "static" → ∀ native ∈ profile.units,
    validArchiveMember native.archiveMemberName = true
  settings : SameSettings selected → ∀ profile ∈ selected, TakesSettings profile.settings
  targetLinks : ¬ SameSettings selected →
    (format.jsonText (targetLinksJson (settingsByTarget selected))).length ≤ 1024 * 1024

theorem combineSelected_nonempty (h : combineSelected selected = .ok captured) : selected ≠ [] := by
  rintro rfl
  obtain ⟨first, hfirst, -⟩ := bind_ok.mp h
  simp at hfirst

/-- The links by target are those of the selected targets, and then there are no others. -/
theorem targetLinks_defined (hcombined : Combined selected captured)
    (hsettings : CombinedSettings selected captured)
    (hrecorded : ∀ profile ∈ selected, RecordedOptions profile.linkOptions)
    (hreads : ¬ SameSettings selected → format.ReadsLinks (settingsByTarget selected))
    (hlinkable : Linkable format selected) (hne : selected ≠ []) :
    ∃ settings links, readSettings captured.settings = .ok settings ∧
      readTargetLinks format captured.linksByTarget = .ok links ∧
      (links ≠ [] → (links.map Prod.fst).Perm (selected.map SelectedBuild.target) ∧
        settings = ⟨[], [], ""⟩) := by
  by_cases hsame : SameSettings selected
  · obtain ⟨profile, hprofile⟩ := List.exists_mem_of_ne_nil selected hne
    obtain ⟨hnone, hcommon⟩ := hsettings.same hsame
    have htaken := hlinkable.settings hsame profile hprofile
    obtain ⟨settings, hread⟩ :=
      (@readSettings_defined_iff profile.settings (hrecorded profile hprofile)).mpr htaken
    exact ⟨settings, [], hcommon profile hprofile ▸ hread, by rw [hnone]; rfl, by simp⟩
  · obtain ⟨hcommon, hlinks⟩ := hsettings.other hsame
    have hkeys : (settingsByTarget selected).map Prod.fst = selected.map SelectedBuild.target := by
      simp [settingsByTarget]
    obtain ⟨links, hread, hperm⟩ := @readTargetLinks_defined _ (settingsByTarget selected)
      (by simpa [settingsByTarget] using hne) (hkeys ▸ hcombined.targets.1)
      (by simpa [settingsByTarget] using hcombined.targets.2)
      (by simpa [settingsByTarget, SelectedBuild.settings] using hrecorded) (hreads hsame)
      (hlinkable.targetLinks hsame)
    exact ⟨⟨[], [], ""⟩, links, by rw [hcommon]; rfl, hlinks ▸ hread, fun _ => ⟨hkeys ▸ hperm, rfl⟩⟩

theorem archiveMemberNames_defined (hcombined : Combined selected captured)
    (hlinkable : Linkable format selected) : ∃ names, archiveMemberNames captured = .ok names ∧
      (names ≠ [] → captured.kind = "static" ∧ names.length = captured.units.length) := by
  unfold archiveMemberNames
  split
  · rename_i hstatic
    obtain ⟨names, hnames⟩ : ∃ names, captured.units.mapM (fun unit =>
        parseMemberName unit.archiveMemberName) = .ok names := exists_mapM_ok fun unit hunit => by
      obtain ⟨profile, hprofile, native, hnative, hname⟩ := hcombined.native_of_unit hunit
      have hkind := (hcombined.kind profile hprofile).symm.trans hstatic
      exact parseMemberName_defined_iff.mpr
        (hname hkind ▸ hlinkable.members profile hprofile hkind native hnative)
    exact ⟨names, hnames, fun _ => ⟨hstatic, (mapM_ok.mp hnames).length_eq.symm⟩⟩
  · exact ⟨[], rfl, fun hne => absurd rfl hne⟩

/-- A domain of the units is one of its inputs, with targets that are selected. -/
theorem domains_selected (hcombined : Combined selected captured)
    (hselection : ∀ target, target ∈ selection.ids ↔ target ∈ selected.map SelectedBuild.target)
    {domains : List (Option (ℕ × TargetSelection))}
    (hdomains : captured.units.zipIdx.mapM (unitDomain selection) = .ok domains)
    {entry : ℕ × TargetSelection} (hentry : entry ∈ domains.reduceOption) :
    entry.1 < captured.units.length ∧ ∀ target ∈ entry.2.ids, target ∈ selection.ids := by
  obtain ⟨⟨unit, index⟩, hunit, hslot⟩ :=
    exists_of_forall₂_right (mapM_ok.mp hdomains) (List.reduceOption_mem_iff.mp hentry)
  rcases unitDomain_ok hslot with ⟨hnone, -⟩ | ⟨domain, hsome, hdomain⟩
  · simp at hnone
  · obtain rfl := Option.some.inj hsome
    have hget := List.mem_zipIdx_iff_getElem?.mp hunit
    refine ⟨(List.getElem?_eq_some_iff.mp hget).1, fun target htarget => (hselection target).mpr ?_⟩
    obtain ⟨captures, hcaptures, rfl⟩ := List.mem_map.mp ((hdomain target).mp htarget)
    exact (hcombined.units unit (List.mem_of_getElem? hget)).selected captures hcaptures

/-- The link takes the request of a combination exactly where its profiles are linkable. -/
theorem linkRequest_defined_iff (hcombine : combineSelected selected = .ok captured)
    (hselection : ∀ target, target ∈ selection.ids ↔ target ∈ selected.map SelectedBuild.target)
    (hrecorded : ∀ profile ∈ selected, RecordedOptions profile.linkOptions)
    (hreads : ¬ SameSettings selected → format.ReadsLinks (settingsByTarget selected)) :
    (∃ request, linkRequest format selection captured = .ok request) ↔ Linkable format selected := by
  have hcombined := combineSelected_ok hcombine
  have hsettings := combineSelected_settings hcombine
  have hne := combineSelected_nonempty hcombine
  constructor
  · rintro ⟨request, h⟩
    obtain ⟨domains, -, h⟩ := bind_ok.mp h
    obtain ⟨names, hnames, h⟩ := bind_ok.mp h
    obtain ⟨settings, hread, h⟩ := bind_ok.mp h
    obtain ⟨links, hlinks, h⟩ := bind_ok.mp h
    obtain ⟨_, hcheck, -⟩ := bind_ok.mp h
    have hcheck := checkRequest_ok.mp hcheck
    refine ⟨?_, fun profile hprofile hstatic native hnative => ?_, fun hsame profile hprofile => ?_,
      fun hsame => ?_⟩
    · by_cases hunits : captured.units = []
      · obtain ⟨profile, hprofile⟩ := List.exists_mem_of_ne_nil selected hne
        have hstatic := requestKind_static.mp (hcheck.nonempty (by simp [hunits]))
        exact ⟨profile, hprofile, Or.inr ((hcombined.kind profile hprofile).symm.trans hstatic)⟩
      · obtain ⟨unit, hunit⟩ := List.exists_mem_of_ne_nil _ hunits
        obtain ⟨profile, hprofile, native, hnative, -⟩ := hcombined.native_of_unit hunit
        exact ⟨profile, hprofile, Or.inl (List.ne_nil_of_mem hnative)⟩
    · obtain ⟨unit, hunit, hname⟩ := hcombined.unit_of_native hprofile hnative
      rw [archiveMemberNames, if_pos ((hcombined.kind profile hprofile).trans hstatic)] at hnames
      obtain ⟨member, -, hmember⟩ := exists_of_forall₂_left (mapM_ok.mp hnames) hunit
      exact hname hstatic ▸ parseMemberName_defined_iff.mp ⟨member, hmember⟩
    · rw [(hsettings.same hsame).2 profile hprofile] at hread
      exact (readSettings_defined_iff (hrecorded profile hprofile)).mp ⟨settings, hread⟩
    · rw [(hsettings.other hsame).2] at hlinks
      exact length_targetLinks (by simpa [settingsByTarget] using hne) hlinks
  · intro hlinkable
    obtain ⟨domains, hdomains⟩ : ∃ domains, captured.units.zipIdx.mapM (unitDomain selection) =
        .ok domains := exists_mapM_ok fun entry hentry =>
      unitDomain_defined hcombined (List.mem_of_getElem? (List.mem_zipIdx_iff_getElem?.mp hentry))
    obtain ⟨names, hnames, hlength⟩ := archiveMemberNames_defined hcombined hlinkable
    obtain ⟨settings, links, hread, hlinks, htargets⟩ :=
      targetLinks_defined hcombined hsettings hrecorded hreads hlinkable hne
    have hperm : selection.ids.Perm (selected.map SelectedBuild.target) :=
      (List.perm_ext_iff_of_nodup selection.nodup hcombined.targets.1).mpr hselection
    refine ⟨_, bind_ok.mpr ⟨domains, hdomains, bind_ok.mpr ⟨names, hnames, bind_ok.mpr ⟨settings, hread,
      bind_ok.mpr ⟨links, hlinks, bind_ok.mpr ⟨(), checkRequest_ok.mpr ⟨fun hempty => ?_,
      fun hne => ⟨?_, (htargets hne).2⟩, fun hne target htarget => ?_,
      fun entry hentry => (domains_selected hcombined hselection hdomains hentry).1,
      fun entry hentry => (domains_selected hcombined hselection hdomains hentry).2,
      fun hne => ⟨requestKind_static.mpr (hlength hne).1, (hlength hne).2⟩⟩, rfl⟩⟩⟩⟩⟩⟩
    · obtain ⟨profile, hprofile, hnatives | hstatic⟩ := hlinkable.nonempty
      · obtain ⟨native, hnative⟩ := List.exists_mem_of_ne_nil _ hnatives
        obtain ⟨unit, hunit, -⟩ := hcombined.unit_of_native hprofile hnative
        exact absurd (List.length_pos_of_mem hunit) (by omega)
      · exact requestKind_static.mpr ((hcombined.kind profile hprofile).trans hstatic)
    · simpa using ((htargets hne).1.trans hperm.symm).length_eq
    · exact ((htargets hne).1.trans hperm.symm).mem_iff.mpr htarget

end

/-! ## Published units -/

/-- Of each unit of a combination the publisher makes an artifact with one native unit for each
capture of a target, in the order of the captures. -/
structure Publishes (format : PackageFormat) (publishUnit : CapturedUnit → Checked PackageFiles) :
    Prop where
  units : ∀ unit package manifest plan, publishUnit unit = .ok package →
    validatePackage format package = .ok manifest → readCompilationPlan manifest = .ok plan →
    ∀ entry ∈ unit.pathsByTarget, (CompilationPlan.units plan entry.1).length = entry.2.length

/-- A unit of the published plan is that of a native capture : it is linked from the unit that
the artifact of the capture's unit has for the capture. -/
def Reconstructs (captured : CapturedBuild) (request : LinkRequest) (inputs : List LinkedInput)
    (target capture : String) (unit : ArtifactUnit) : Prop :=
  ∃ input ∈ inputs, ∃ position source found paths, ∃ index : ℕ,
    LinkedUnit request ((input, source), position) unit ∧
    captured.units[input.index]? = some found ∧
    found.pathsByTarget.lookup target = some paths ∧ paths[index]? = some capture ∧
    (input.plan.units target)[index]? = some source

/-- A unit of the published plan is a native unit, under its own name in a static archive. -/
structure NativeUnit (captured : CapturedBuild) (request : LinkRequest) (inputs : List LinkedInput)
    (target : String) (native : SelectedUnit) (unit : ArtifactUnit) : Prop where
  reconstructs : Reconstructs captured request inputs target native.capture unit
  member : captured.kind = "static" → unit.archiveMember = native.archiveMemberName

section

variable {format : PackageFormat} {publishUnit : CapturedUnit → Checked PackageFiles}
  {selection : TargetSelection} {selected : List SelectedBuild} {captured : CapturedBuild}
  {request : LinkRequest} {packages : List PackageFiles} {inputs : List LinkedInput} {s : LinkState}

/-- The `i`-th input is the artifact of the `i`-th unit. -/
theorem inputs_of_units (hpackages : captured.units.mapM publishUnit = .ok packages)
    (hpreserved : Preserved format request packages inputs s) :
    List.Forall₂ (fun unit input => captured.units[input.index]? = some unit ∧ ∃ package,
      publishUnit unit = .ok package ∧ ReadsInput format request (package, input.index) input)
      captured.units inputs := by
  have hpackages := mapM_ok.mp hpackages
  have hlength := hpreserved.reads.length_eq
  rw [List.length_zipIdx, ← hpackages.length_eq] at hlength
  refine forall₂_of_getElem? hlength fun i unit input hunit hinput => ?_
  obtain ⟨package, hpackage, hpublished⟩ := forall₂_getElem? hpackages hunit
  obtain ⟨input', hinput', hreads⟩ := forall₂_getElem? hpreserved.reads
    (show packages.zipIdx[i]? = some (package, i) by simp [hpackage])
  rw [hinput] at hinput'
  obtain rfl := Option.some.inj hinput'
  have hindex : input.index = i := hreads.index
  exact ⟨hindex ▸ hunit, package, hpublished, hindex ▸ hreads⟩

/-- The sources of the units for a target are those of the captures of the target. -/
theorem sources_of_captures (hcombined : Combined selected captured)
    (hrequest : RequestOf selection captured request) (hpublishes : Publishes format publishUnit)
    (hpackages : captured.units.mapM publishUnit = .ok packages)
    (hpreserved : Preserved format request packages inputs s) (target : String) :
    List.Forall₂ (fun capture source => source.1 ∈ inputs ∧ ∃ found paths, ∃ index : ℕ,
      captured.units[source.1.index]? = some found ∧
      found.pathsByTarget.lookup target = some paths ∧ paths[index]? = some capture.1 ∧
      (source.1.plan.units target)[index]? = some source.2 ∧
      capture.2 = found.archiveMemberName) (captured.captures target)
      (inputs.flatMap (LinkedInput.units request target)) := by
  refine forall₂_flatMap (forall₂_imp_of_mem (inputs_of_units hpackages hpreserved)
    fun unit hunit input hinput hread => ?_)
  obtain ⟨hget, package, hpublished, hreads⟩ := hread
  have hrequired := hrequest.required input.index unit hget target
  unfold LinkedInput.units
  cases hlookup : unit.pathsByTarget.lookup target with
  | none =>
    rw [if_neg fun hmem => Association.lookup_eq_none_iff_mem.mp hlookup (hrequired.mp hmem)]
    exact .nil
  | some paths =>
    have hmem : target ∈ unit.pathsByTarget.map Prod.fst :=
      Association.lookup_isSome_iff_mem.mp (by simp [hlookup])
    have hentry := (Association.lookup_eq_some_iff_mem (hcombined.units unit hunit).nodup).mp hlookup
    obtain ⟨manifest, hmanifest, -, -, hplan, -⟩ := hreads.package
    have hlength := hpublishes.units unit package manifest input.plan hpublished hmanifest hplan
      (target, paths) hentry
    rw [if_pos (hrequired.mpr hmem), Option.getD_some]
    refine List.forall₂_map_left_iff.mpr (List.forall₂_map_right_iff.mpr
      (forall₂_of_getElem? hlength.symm fun index capture source hcapture hsource => ?_))
    exact ⟨hinput, unit, paths, index, hget, hlookup, hcapture, hsource, rfl⟩

/-- The link has the units of the captures of each target, in the order of the units. -/
theorem units_of_captures (hcombined : Combined selected captured)
    (hrequest : RequestOf selection captured request) (hpublishes : Publishes format publishUnit)
    (hpackages : captured.units.mapM publishUnit = .ok packages)
    (hpreserved : Preserved format request packages inputs s) (target : String) :
    List.Forall₂ (fun capture unit => Reconstructs captured request inputs target capture.1 unit ∧
      (captured.kind = "static" → unit.archiveMember = capture.2)) (captured.captures target)
      (s.compilationPlan.units target) := by
  have hlinked : List.Forall₂ (fun source unit => ∃ position,
      LinkedUnit request (source, position) unit)
      (inputs.flatMap (LinkedInput.units request target)) (s.compilationPlan.units target) :=
    forall₂_of_zipIdx (fun _ _ position _ h => ⟨position, h⟩) (hpreserved.linked.units target)
  refine forall₂_trans ?_ (sources_of_captures hcombined hrequest hpublishes hpackages hpreserved
    target) hlinked
  rintro capture ⟨input, source⟩ unit ⟨hinput, found, paths, index, hfound, hlookup, hcapture,
    hsource, hname⟩ ⟨position, hunit⟩
  refine ⟨⟨input, hinput, position, source, found, paths, index, hunit, hfound, hlookup, hcapture,
    hsource⟩, fun hstatic => ?_⟩
  have hmember := hunit.archiveMember
  obtain ⟨member, hget, hmemberName⟩ := forall₂_getElem? (hrequest.names hstatic) hfound
  have hne : request.archiveNames ≠ [] := List.ne_nil_of_mem (List.mem_of_getElem? hget)
  rw [memberName, if_pos (hrequest.static.mpr hstatic), if_neg hne] at hmember
  obtain ⟨member', hmember', hmember⟩ := bind_ok.mp hmember
  obtain rfl : member = member' := Option.some.inj (hget.symm.trans (require_ok.mp hmember'))
  rw [← Except.ok.inj hmember, hmemberName, hname]

end

/-! ## Orders -/

/-- The ranks of native units : the positions of their units among those the target has. -/
def Ranks (captured : CapturedBuild) (target : String) (order ranks : List ℕ) : Prop :=
  List.Forall₂ (fun index rank => (captured.present target)[rank]? = some index) order ranks

theorem nodup_present (captured : CapturedBuild) (target : String) :
    (captured.present target).Nodup := List.nodup_range.filter _

theorem orderFields_ranks {captured : CapturedBuild} {target : String} {order ranks : List ℕ}
    (h : Ranks captured target order ranks) :
    orderFields captured (target, order) = .ok (ranks.map toString) := by
  have hkeys : ((captured.present target).zipIdx.map Prod.fst).Nodup := by
    simpa using nodup_present captured target
  refine mapM_ok.mpr (List.forall₂_map_right_iff.mpr (h.imp fun index rank hrank => ?_))
  refine bind_ok.mpr ⟨rank, require_ok.mpr ?_, rfl⟩
  exact (Association.lookup_eq_some_iff_mem hkeys).mpr (List.mem_zipIdx_iff_getElem?.mpr hrank)

theorem parseOrderIndex_toString {number : ℕ} (h : number < 2 ^ 32) :
    parseOrderIndex (toString number) = .ok number := by
  have hdigits : (toString number).toList.all Char.isDigit = true := by
    rw [List.all_eq_true]
    intro c hc
    rw [Nat.toString_eq_repr, Nat.toList_repr] at hc
    exact Nat.isDigit_of_mem_toDigits (by decide) (by decide) hc
  have hne : toString number ≠ "" := by
    intro hempty
    have hpos : 0 < number.repr.length := Nat.length_repr_pos
    rw [← Nat.toString_eq_repr, hempty] at hpos
    exact absurd hpos (by decide)
  refine bind_ok.mpr ⟨(), ensure_ok.mpr ⟨hne, hdigits⟩, bind_ok.mpr ⟨number, require_ok.mpr ?_,
    bind_ok.mpr ⟨(), ensure_ok.mpr h, rfl⟩⟩⟩
  rw [Nat.toString_eq_repr]
  exact Nat.toNat?_repr number

/-- Each of at most 510 ranks below 510 has at most three digits. -/
theorem orderLength_le {ranks : List ℕ} (hlt : ∀ rank ∈ ranks, rank < 510)
    (hlength : ranks.length ≤ 510) : orderLength (ranks.map toString) ≤ 4096 := by
  have hsum : ((ranks.map toString).map String.length).sum ≤ 3 * ranks.length := by
    clear hlength
    induction ranks with
    | nil => simp
    | cons rank ranks ih =>
      have hrank : (toString rank).length ≤ 3 := by
        rw [Nat.toString_eq_repr]
        have := hlt rank (by simp)
        exact (Nat.length_repr_le_iff (by decide)).mpr (by omega)
      have hrest := ih fun other hother => hlt other (by simp [hother])
      simp only [List.map_cons, List.sum_cons, List.length_cons]
      omega
  unfold orderLength
  rw [List.length_map]
  omega

theorem parseUnitOrder_ranks {orders : List (String × List ℕ)} {target : String} {ranks : List ℕ}
    (hregistered : (Sela.targets.find target).isSome) (hnew : target ∉ orders.map Prod.fst)
    (hne : ranks ≠ []) (hlt : ∀ rank ∈ ranks, rank < 510) (hlength : ranks.length ≤ 510) :
    parseUnitOrder orders target (ranks.map toString) = .ok (orders ++ [(target, ranks)]) := by
  have hpos : orderLength (ranks.map toString) ≠ 0 := by
    obtain ⟨rank, rest, rfl⟩ := List.exists_cons_of_ne_nil hne
    have hrank : 0 < rank.repr.length := Nat.length_repr_pos
    rw [orderLength, List.map_cons, List.map_cons, List.sum_cons, Nat.toString_eq_repr]
    omega
  have hparse : (ranks.map toString).mapM parseOrderIndex = .ok ranks :=
    mapM_ok.mpr (List.forall₂_map_left_iff.mpr (List.forall₂_same.mpr fun rank hrank =>
      parseOrderIndex_toString (by have := hlt rank hrank; omega)))
  refine bind_ok.mpr ⟨(), ensure_ok.mpr ⟨hregistered, hnew⟩, bind_ok.mpr ⟨(), ensure_ok.mpr
    ⟨hpos, orderLength_le hlt hlength⟩, bind_ok.mpr ⟨(), ensure_ok.mpr ?_, bind_ok.mpr
    ⟨ranks, hparse, rfl⟩⟩⟩⟩
  rw [List.length_map]
  omega

/-- The orders of a combination reach the link as ranks. -/
theorem unitOrders_ranks {captured : CapturedBuild} :
    ∀ (entries passed orders : List (String × List ℕ)),
      ((passed ++ entries).map Prod.fst).Nodup →
      List.Forall₂ (fun entry entry' => entry'.1 = entry.1 ∧
        Ranks captured entry.1 entry.2 entry'.2 ∧ (Sela.targets.find entry.1).isSome ∧
        entry'.2 ≠ [] ∧ (∀ rank ∈ entry'.2, rank < 510) ∧ entry'.2.length ≤ 510) entries orders →
      entries.foldlM (fun orders entry => do
        let fields ← orderFields captured entry
        parseUnitOrder orders entry.1 fields) passed = .ok (passed ++ orders)
  | [], passed, _, _, .nil => by simp
  | (target, order) :: entries, passed, (target', ranks) :: orders, hnodup, .cons hentry h => by
    obtain ⟨htarget, hranks, hregistered, hne, hlt, hlength⟩ := hentry
    obtain rfl : target' = target := htarget
    have hnew : target' ∉ passed.map Prod.fst := by
      rw [List.map_append, List.map_cons] at hnodup
      exact fun hmem => (List.nodup_append.mp hnodup).2.2 _ hmem _ (by simp) rfl
    have hrest := unitOrders_ranks entries (passed ++ [(target', ranks)]) orders
      (by simpa using hnodup) h
    rw [List.append_assoc, List.singleton_append] at hrest
    exact foldlM_cons_ok.mpr ⟨_, bind_ok.mpr ⟨_, orderFields_ranks hranks,
      parseUnitOrder_ranks hregistered hnew hne hlt hlength⟩, hrest⟩

/-! ## Permutations -/

/-- Distinct positions of the units are accepted as an order of them. -/
theorem permuteUnits_defined (target : String) {units : List ArtifactUnit} :
    ∀ (indices seen : List ℕ), (seen ++ indices).Nodup → (∀ index ∈ indices, index < units.length) →
      ∃ ordered, permuteUnits target units seen indices = .ok ordered ∧
        List.Forall₂ (fun index unit => units[index]? = some unit) indices ordered
  | [], _, _, _ => ⟨[], rfl, .nil⟩
  | index :: indices, seen, hnodup, hlt => by
    obtain ⟨hindex, hlt⟩ := List.forall_mem_cons.mp hlt
    have hnew : index ∉ seen := fun hmem =>
      (List.nodup_append.mp hnodup).2.2 index hmem index (by simp) rfl
    have hget : units[index]? = some units[index] := List.getElem?_eq_getElem hindex
    obtain ⟨ordered, hordered, hunits⟩ := permuteUnits_defined target indices (seen ++ [index])
      (by simpa using hnodup) hlt
    exact ⟨units[index] :: ordered, bind_ok.mpr ⟨_, require_ok.mpr hget, bind_ok.mpr
      ⟨(), ensure_ok.mpr hnew, bind_ok.mpr ⟨ordered, hordered, rfl⟩⟩⟩, .cons hget hunits⟩

/-- The units of a plan after the orders of some targets. -/
theorem applyOrders_defined :
    ∀ (orders : List (String × List ℕ)) (plan : CompilationPlan), (orders.map Prod.fst).Nodup →
      (∀ entry ∈ orders, (plan.lookup entry.1).isSome ∧ entry.2.Nodup ∧
        entry.2.length = (plan.units entry.1).length ∧
        ∀ rank ∈ entry.2, rank < (plan.units entry.1).length) →
      ∃ plan', applyOrders plan orders = .ok plan' ∧
        (∀ entry ∈ orders, List.Forall₂ (fun rank unit => (plan.units entry.1)[rank]? = some unit)
          entry.2 (plan'.units entry.1)) ∧
        ∀ target, target ∉ orders.map Prod.fst → plan'.units target = plan.units target
  | [], plan, _, _ => ⟨plan, rfl, by simp, fun _ _ => rfl⟩
  | (target, ranks) :: orders, plan, hnodup, h => by
    obtain ⟨hnew, hnodup⟩ := List.nodup_cons.mp hnodup
    obtain ⟨⟨hsome, hranks, hlength, hlt⟩, h⟩ := List.forall_mem_cons.mp h
    obtain ⟨units, hunits⟩ := Option.isSome_iff_exists.mp hsome
    have heq : plan.units target = units := by
      rw [CompilationPlan.units, hunits, Option.getD_some]
    rw [heq] at hlength hlt
    obtain ⟨ordered, hordered, hforall⟩ := permuteUnits_defined target ranks []
      (by simpa using hranks) hlt
    have hupdate : ∀ other, CompilationPlan.units (Association.update target (fun _ => ordered) plan)
        other = if other = target then ordered else plan.units other := fun other => by
      rw [CompilationPlan.units, Association.lookup_update]
      split <;> rfl
    have hothers : ∀ entry ∈ orders, entry.1 ≠ target := fun entry hentry heq =>
      hnew (List.mem_map.mpr ⟨entry, hentry, heq⟩)
    obtain ⟨plan', hplan', horders, hrest⟩ := applyOrders_defined orders
      (Association.update target (fun _ => ordered) plan) hnodup fun entry hentry => by
        have hne := hothers entry hentry
        rw [hupdate, if_neg hne, Association.lookup_update, if_neg hne]
        exact h entry hentry
    refine ⟨plan', foldlM_cons_ok.mpr ⟨_, bind_ok.mpr ⟨units, require_ok.mpr hunits, bind_ok.mpr
      ⟨(), ensure_ok.mpr hlength, bind_ok.mpr ⟨ordered, hordered, rfl⟩⟩⟩, hplan'⟩,
      List.forall_mem_cons.mpr ⟨?_, fun entry hentry => ?_⟩, fun other hother => ?_⟩
    · rw [hrest target hnew, hupdate, if_pos rfl, heq]
      exact hforall
    · have := horders entry hentry
      rwa [hupdate, if_neg (hothers entry hentry)] at this
    · rw [List.map_cons, List.mem_cons, not_or] at hother
      rw [hrest other hother.2, hupdate, if_neg hother.1]

/-! ## The publication -/

section

variable {format : PackageFormat} {publishUnit : CapturedUnit → Checked PackageFiles}
  {selection : TargetSelection} {selected : List SelectedBuild} {captured : CapturedBuild}
  {request : LinkRequest} {packages : List PackageFiles} {inputs : List LinkedInput} {s : LinkState}

/-- A unit of the published plan is that of the one capture a unit of the combination has. -/
def PresentUnit (captured : CapturedBuild) (request : LinkRequest) (inputs : List LinkedInput)
    (target : String) (index : ℕ) (unit : ArtifactUnit) : Prop :=
  ∃ found capture, captured.units[index]? = some found ∧
    found.pathsByTarget.lookup target = some [capture] ∧
    Reconstructs captured request inputs target capture unit ∧
    (captured.kind = "static" → unit.archiveMember = found.archiveMemberName)

/-- Where each unit present has one capture of a target, the link has for each of them, in
their order, the unit of that capture. -/
theorem units_of_present (hcombined : Combined selected captured)
    (hrequest : RequestOf selection captured request) (hpublishes : Publishes format publishUnit)
    (hpackages : captured.units.mapM publishUnit = .ok packages)
    (hpreserved : Preserved format request packages inputs s) {target : String}
    (hsole : ∀ index ∈ captured.present target, ∃ found capture,
      captured.units[index]? = some found ∧ found.pathsByTarget.lookup target = some [capture]) :
    List.Forall₂ (PresentUnit captured request inputs target) (captured.present target)
      (s.compilationPlan.units target) := by
  have hcaptures : List.Forall₂ (fun index capture => ∃ found, captured.units[index]? = some found ∧
      found.pathsByTarget.lookup target = some [capture.1] ∧ capture.2 = found.archiveMemberName)
      (captured.present target) (captured.captures target) := by
    have hunits := flatMap_getElem? (Nat.le_refl captured.units.length)
    rw [CapturedBuild.captures, ← congrArg (List.flatMap _) hunits, List.flatMap_assoc]
    refine forall₂_filter_flatMap fun index hindex => ?_
    have hlt := List.mem_range.mp hindex
    split
    · rename_i hpresent
      obtain ⟨found, capture, hfound, hlookup⟩ :=
        hsole index (List.mem_filter.mpr ⟨hindex, hpresent⟩)
      exact ⟨(capture, found.archiveMemberName), by simp [hfound, hlookup], found, hfound, hlookup, rfl⟩
    · rename_i hpresent
      rw [List.getElem?_eq_getElem hlt, Option.any_some, List.contains_iff_mem] at hpresent
      rw [List.getElem?_eq_getElem hlt, Option.toList_some, List.flatMap_singleton,
        Association.lookup_eq_none_iff_mem.mpr hpresent]
      rfl
  refine forall₂_trans ?_ hcaptures
    (units_of_captures hcombined hrequest hpublishes hpackages hpreserved target)
  rintro index capture unit ⟨found, hfound, hlookup, hname⟩ ⟨hreconstructs, hmember⟩
  exact ⟨found, capture.1, hfound, hlookup, hreconstructs, fun hstatic => hname ▸ hmember hstatic⟩

/-- An order of a combination as the ranks that the link applies. -/
structure AppliedOrder (captured : CapturedBuild) (s : LinkState) (entry entry' : String × List ℕ) :
    Prop where
  target : entry'.1 = entry.1
  ranks : Ranks captured entry.1 entry.2 entry'.2
  registered : (Sela.targets.find entry.1).isSome
  nonempty : entry'.2 ≠ []
  nodup : entry'.2.Nodup
  length : entry'.2.length = (s.compilationPlan.units entry.1).length
  lt : ∀ rank ∈ entry'.2, rank < (s.compilationPlan.units entry.1).length
  planned : (s.compilationPlan.lookup entry.1).isSome

theorem exists_appliedOrder (hcombined : Combined selected captured)
    (hselection : ∀ target, target ∈ selection.ids ↔ target ∈ selected.map SelectedBuild.target)
    (hrequest : RequestOf selection captured request) (hpublishes : Publishes format publishUnit)
    (hpackages : captured.units.mapM publishUnit = .ok packages)
    (hpreserved : Preserved format request packages inputs s) {entry : String × List ℕ}
    (hentry : entry ∈ captured.ordersByTarget) :
    ∃ entry', AppliedOrder captured s entry entry' := by
  obtain ⟨target, order⟩ := entry
  have hmem := hcombined.orders.2 _ hentry
  obtain ⟨profile, hprofile, rfl⟩ := List.mem_map.mp hmem
  have hlookup := (Association.lookup_eq_some_iff_mem hcombined.orders.1).mpr hentry
  cases hcombined.ordered profile hprofile with
  | inOrder hnone _ => simp [hlookup] at hnone
  | permuted order' hsome hne hcaptures hnodup hpresent =>
    obtain rfl : order = order' := Option.some.inj (hlookup.symm.trans hsome)
    have hunits := units_of_present hcombined hrequest hpublishes hpackages hpreserved
      fun index hindex => by
        obtain ⟨native, -, unit, hunit, hcapture, -⟩ :=
          exists_of_forall₂_right hcaptures ((hpresent index).mpr hindex)
        exact ⟨unit, native.capture, hunit, hcapture⟩
    have hperm : order.Perm (captured.present profile.target) :=
      (List.perm_ext_iff_of_nodup hnodup (nodup_present _ _)).mpr hpresent
    obtain ⟨ranks, hranks⟩ : ∃ ranks, Ranks captured profile.target order ranks :=
      exists_forall₂ fun index hindex => List.getElem?_of_mem ((hpresent index).mp hindex)
    have hlength : ranks.length = (s.compilationPlan.units profile.target).length := by
      rw [← hranks.length_eq, hperm.length_eq, hunits.length_eq]
    refine ⟨(profile.target, ranks), rfl, hranks, hcombined.targets.2 profile hprofile, fun hnil => ?_,
      ?_, hlength, fun rank hrank => ?_, ?_⟩
    · have := hcaptures.length_eq.trans hranks.length_eq
      rw [show ranks = [] from hnil, List.length_nil, List.length_eq_zero_iff] at this
      exact hne this
    · refine nodup_of_forall₂ ?_ hranks hnodup
      intro index index' rank hindex hindex'
      exact Option.some.inj (hindex.symm.trans hindex')
    · obtain ⟨index, -, hindex⟩ := exists_of_forall₂_right hranks hrank
      rw [← hunits.length_eq]
      exact (List.getElem?_eq_some_iff.mp hindex).1
    · rw [hpreserved.planned, hrequest.targets]
      exact (hselection _).mpr hmem

/-- After the orders of the targets, the units of each target are its native units. -/
theorem published_units (hcombined : Combined selected captured)
    (hrequest : RequestOf selection captured request) (hpublishes : Publishes format publishUnit)
    (hpackages : captured.units.mapM publishUnit = .ok packages)
    (hpreserved : Preserved format request packages inputs s) {orders : List (String × List ℕ)}
    {plan : CompilationPlan}
    (horders : List.Forall₂ (AppliedOrder captured s) captured.ordersByTarget orders)
    (hordered : ∀ entry ∈ orders, List.Forall₂
      (fun rank unit => (s.compilationPlan.units entry.1)[rank]? = some unit) entry.2
      (plan.units entry.1))
    (hother : ∀ target, target ∉ orders.map Prod.fst →
      plan.units target = s.compilationPlan.units target)
    {profile : SelectedBuild} (hprofile : profile ∈ selected) :
    List.Forall₂ (NativeUnit captured request inputs profile.target) profile.units
      (plan.units profile.target) := by
  have hkeys : orders.map Prod.fst = captured.ordersByTarget.map Prod.fst :=
    map_eq_of_forall₂ (horders.imp fun _ _ hentry => hentry.target)
  cases hcombined.ordered profile hprofile with
  | inOrder hnone hcaptures =>
    rw [hother profile.target (hkeys ▸ Association.lookup_eq_none_iff_mem.mp hnone)]
    refine forall₂_trans ?_ hcaptures
      (units_of_captures hcombined hrequest hpublishes hpackages hpreserved profile.target)
    rintro native capture unit ⟨hcapture, hname⟩ ⟨hreconstructs, hmember⟩
    refine ⟨hcapture ▸ hreconstructs, fun hstatic => ?_⟩
    rw [hmember hstatic, hname ((hcombined.kind profile hprofile).symm.trans hstatic)]
  | permuted order hsome hne hcaptures hnodup hpresent =>
    have hunits := units_of_present hcombined hrequest hpublishes hpackages hpreserved
      fun index hindex => by
        obtain ⟨native, -, unit, hunit, hcapture, -⟩ :=
          exists_of_forall₂_right hcaptures ((hpresent index).mpr hindex)
        exact ⟨unit, native.capture, hunit, hcapture⟩
    have hentry := (Association.lookup_eq_some_iff_mem hcombined.orders.1).mp hsome
    obtain ⟨⟨target, ranks⟩, hmem, happlied⟩ := exists_of_forall₂_left horders hentry
    obtain rfl : target = profile.target := happlied.target
    -- A native unit is in the unit at its place of the order, whose rank is its place in the link.
    have hranked : List.Forall₂ (PresentUnit captured request inputs profile.target) order
        (plan.units profile.target) := by
      refine forall₂_trans ?_ happlied.ranks (hordered _ hmem)
      intro index rank unit hrank hunit
      obtain ⟨unit', hunit', hfound⟩ := forall₂_getElem? hunits hrank
      rw [hunit] at hunit'
      exact (Option.some.inj hunit') ▸ hfound
    refine forall₂_trans ?_ hcaptures hranked
    rintro native index unit ⟨found, hfound, hlookup, hname⟩
      ⟨found', capture, hfound', hlookup', hreconstructs, hmember⟩
    obtain rfl : found = found' := Option.some.inj (hfound.symm.trans hfound')
    rw [hlookup] at hlookup'
    obtain rfl : native.capture = capture := by simpa using hlookup'
    exact ⟨hreconstructs, fun hstatic => (hmember hstatic).trans hname⟩

end

/-- The link takes the request of a build whose profiles are linkable, and the published plan of
the build has, for each target, the native units of its capture, in their order and under their
own member names. -/
theorem publishCombination_order (inspectArtifact : String → List String → Checked Unit)
    (format : PackageFormat) (publishUnit : CapturedUnit → Checked PackageFiles)
    (selection : TargetSelection) (selected : List SelectedBuild) (captured : CapturedBuild)
    (hcombine : combineSelected selected = .ok captured)
    (hselection : ∀ target, target ∈ selection.ids ↔ target ∈ selected.map SelectedBuild.target)
    (hrecorded : ∀ profile ∈ selected, RecordedOptions profile.linkOptions)
    (hreads : ¬ SameSettings selected → format.ReadsLinks (settingsByTarget selected))
    (hpublishes : Publishes format publishUnit) :
    ((∃ request, linkRequest format selection captured = .ok request) ↔ Linkable format selected) ∧
      ∀ request packages s, linkRequest format selection captured = .ok request →
        captured.units.mapM publishUnit = .ok packages →
        linkInputs inspectArtifact format request packages = .ok s →
        ∃ inputs orders plan, Preserved format request packages inputs s ∧
          unitOrders captured = .ok orders ∧ applyOrders s.compilationPlan orders = .ok plan ∧
          ∀ profile ∈ selected, List.Forall₂ (NativeUnit captured request inputs profile.target)
            profile.units (plan.units profile.target) := by
  have hcombined := combineSelected_ok hcombine
  refine ⟨linkRequest_defined_iff hcombine hselection hrecorded hreads,
    fun request packages s hlink hpackages hs => ?_⟩
  have hrequest := linkRequest_ok hcombined hselection hlink
  obtain ⟨inputs, hpreserved⟩ := linkInputs_ok hs
  obtain ⟨orders, horders⟩ := exists_forall₂ fun entry hentry => exists_appliedOrder hcombined
    hselection hrequest hpublishes hpackages hpreserved hentry
  have hkeys : orders.map Prod.fst = captured.ordersByTarget.map Prod.fst :=
    map_eq_of_forall₂ (horders.imp fun _ _ hentry => hentry.target)
  obtain ⟨plan, hplan, hordered, hother⟩ := applyOrders_defined orders s.compilationPlan
    (hkeys ▸ hcombined.orders.1) fun entry hmem => by
      obtain ⟨entry', -, happlied⟩ := exists_of_forall₂_right horders hmem
      rw [happlied.target]
      exact ⟨happlied.planned, happlied.nodup, happlied.length, happlied.lt⟩
  refine ⟨inputs, orders, plan, hpreserved, ?_, hplan, fun profile hprofile =>
    published_units hcombined hrequest hpublishes hpackages hpreserved horders hordered hother hprofile⟩
  refine unitOrders_ranks captured.ordersByTarget [] orders (by simpa using hcombined.orders.1)
    (horders.imp fun entry entry' happlied => ⟨happlied.target, happlied.ranks,
      happlied.registered, happlied.nonempty, fun rank hrank => ?_, ?_⟩)
  · exact Nat.lt_of_lt_of_le (happlied.lt rank hrank) (hpreserved.bound entry.1)
  · exact happlied.length ▸ hpreserved.bound entry.1

/-! ## A build for two targets -/

/-- A build of two units for one target. -/
def wordBuild : SelectedBuild where
  units := [⟨"x86_64/main.bc", "main.c", "main.o", "[\"-DMAIN\"]", "O2", ""⟩,
    ⟨"x86_64/help.bc", "help.c", "help.o", "[]", "O2", ""⟩]
  libraries := [":libone.so"]
  linkOptions := ["--export-dynamic"]
  kind := "executable"
  versionScript := ""
  target := "x86_64"

/-- The build for another target, of the same units in another order and of one more. -/
def narrowBuild : SelectedBuild where
  units := [⟨"i686/help.bc", "help.c", "help.o", "[]", "O2", ""⟩,
    ⟨"i686/main.bc", "main.c", "main.o", "[\"-DMAIN\"]", "O2", ""⟩,
    ⟨"i686/word.bc", "word.c", "word.o", "[]", "O2", ""⟩]
  libraries := ["m"]
  linkOptions := []
  kind := "executable"
  versionScript := ""
  target := "i686"

def executableCaptured : CapturedBuild where
  units := [⟨[("x86_64", ["x86_64/main.bc"]), ("i686", ["i686/main.bc"])], "O2", ""⟩,
    ⟨[("x86_64", ["x86_64/help.bc"]), ("i686", ["i686/help.bc"])], "O2", ""⟩,
    ⟨[("i686", ["i686/word.bc"])], "O2", ""⟩]
  kind := "executable"
  libraries := []
  linkOptions := []
  versionScript := ""
  architectures := ["x86_64", "i686"]
  linksByTarget := executableLinks
  ordersByTarget := [("x86_64", [0, 1]), ("i686", [1, 0, 2])]

/-- The file of the settings of the targets. -/
def settingsText : String :=
  "\x7b\n  \"i686\": \x7b\n    \"libraries\": [\n      \"m\"\n    ],\n    \"link_options\": [],\n" ++
  "    \"version_script\": \"\"\n  \x7d,\n  \"x86_64\": \x7b\n    \"libraries\": [\n" ++
  "      \":libone.so\"\n    ],\n    \"link_options\": [\n      \"--export-dynamic\"\n    ],\n" ++
  "    \"version_script\": \"\"\n  \x7d\n\x7d\n"

theorem utf8ByteSize_settingsText : settingsText.utf8ByteSize = 248 := by
  unfold settingsText
  repeat rw [String.utf8ByteSize_append]
  decide +kernel

theorem buildTexts : ManifestTexts wordText narrowText [(settingsText, targetLinksJson executableLinks)] := by
  obtain ⟨hword, hnarrow⟩ := utf8ByteSize_texts
  have hsettings := utf8ByteSize_settingsText
  have hne : wordText ≠ settingsText := fun heq => by simp [heq, hsettings] at hword
  have hne' : narrowText ≠ settingsText := fun heq => by simp [heq, hsettings] at hnarrow
  obtain ⟨hnodup, -, hlength, hlength'⟩ := manifestTexts
  refine ⟨?_, ?_, hlength, hlength'⟩
  · simp [executableTable] at hnodup ⊢
    exact ⟨⟨hnodup, hne⟩, hne'⟩
  · simp [targetLinksJson, targetLinkFields, executableLinks, Json.Distinct, Json.DistinctMembers,
      Json.DistinctElements]

/-- The format on the files of the build. -/
def buildFormat : PackageFormat := executableFormat wordText narrowText buildTexts.distinct

/-- A publisher of units with one capture of each of their targets. -/
def publishSole (unit : CapturedUnit) : Checked PackageFiles :=
  if unit.pathsByTarget.map (fun entry => (entry.1, entry.2.length)) = [("x86_64", 1), ("i686", 1)] then
    pure (solePackage wordText)
  else if unit.pathsByTarget.map (fun entry => (entry.1, entry.2.length)) = [("i686", 1)] then
    pure (solePackage narrowText)
  else throw "unqualified unit"

theorem publishSole_publishes : Publishes buildFormat publishSole := by
  obtain ⟨hword, hnarrow⟩ := buildTexts.validate
  refine ⟨fun unit package manifest plan hpackage hmanifest hplan entry hentry => ?_⟩
  have hmem : (entry.1, entry.2.length) ∈
      unit.pathsByTarget.map fun entry => (entry.1, entry.2.length) :=
    List.mem_map.mpr ⟨entry, hentry, rfl⟩
  unfold publishSole at hpackage
  split at hpackage
  · rename_i hunit
    obtain rfl := Except.ok.inj hpackage
    obtain rfl := Except.ok.inj (hword.symm.trans hmanifest)
    obtain rfl : [("x86_64", [⟨[0], "O2", ""⟩]), ("i686", [⟨[0], "O2", ""⟩])] = plan :=
      Except.ok.inj hplan
    rw [hunit] at hmem
    rcases List.mem_cons.mp hmem with heq | hmem
    · obtain ⟨htarget, hlength⟩ := Prod.mk.inj heq
      rw [htarget, hlength]
      rfl
    · obtain ⟨htarget, hlength⟩ := Prod.mk.inj (List.mem_singleton.mp hmem)
      rw [htarget, hlength]
      rfl
  · split at hpackage
    · rename_i hunit
      obtain rfl := Except.ok.inj hpackage
      obtain rfl := Except.ok.inj (hnarrow.symm.trans hmanifest)
      obtain rfl : [("i686", [⟨[0], "O2", ""⟩])] = plan := Except.ok.inj hplan
      rw [hunit] at hmem
      obtain ⟨htarget, hlength⟩ := Prod.mk.inj (List.mem_singleton.mp hmem)
      rw [htarget, hlength]
      rfl
    · simp at hpackage

theorem recordedOptions_executable :
    ∀ profile ∈ [wordBuild, narrowBuild], RecordedOptions profile.linkOptions := by
  simp only [List.forall_mem_cons, List.not_mem_nil, false_implies, implies_true, and_true]
  exact ⟨⟨[.exportDynamic], rfl⟩, [], rfl⟩

theorem readsLinks_executable :
    ¬ SameSettings [wordBuild, narrowBuild] → buildFormat.ReadsLinks executableLinks := fun _ =>
  ⟨_, @ManifestTexts.parse _ _ _ buildTexts (settingsText, targetLinksJson executableLinks)
    (by simp [executableTable]), .refl _⟩

theorem linkRequest_executable :
    linkRequest buildFormat executableRequest.targets executableCaptured = .ok executableRequest := by
  have hlength : (buildFormat.jsonText (targetLinksJson executableLinks)).length ≤ 1024 * 1024 := by
    refine Nat.le_trans (length_le_utf8ByteSize settingsText) ?_
    rw [utf8ByteSize_settingsText]
    decide
  have hlinks : readTargetLinks buildFormat executableLinks = .ok executableLinks := by
    have hparse := @ManifestTexts.parse _ _ _ buildTexts
      (settingsText, targetLinksJson executableLinks) (by simp [executableTable])
    rw [readTargetLinks, if_neg (by decide)]
    exact bind_ok.mpr ⟨(), ensure_ok.mpr hlength, bind_ok.mpr ⟨_, hparse, bind_ok.mpr ⟨_, rfl,
      bind_ok.mpr ⟨(), rfl, rfl⟩⟩⟩⟩
  exact bind_ok.mpr ⟨_, rfl, bind_ok.mpr ⟨[], rfl, bind_ok.mpr ⟨_, rfl, bind_ok.mpr ⟨_, hlinks,
    bind_ok.mpr ⟨(), rfl, rfl⟩⟩⟩⟩⟩

/-- The orders of the build, as the positions that its targets have of their units. -/
def executableOrders : List (String × List ℕ) := [("x86_64", [0, 1]), ("i686", [1, 0, 2])]

def executablePlan : CompilationPlan :=
  [("x86_64", [⟨[0], "O2", ""⟩, ⟨[1], "O2", ""⟩]),
    ("i686", [⟨[1], "O2", ""⟩, ⟨[0], "O2", ""⟩, ⟨[2], "O2", ""⟩])]

theorem unitOrders_executable : unitOrders executableCaptured = .ok executableOrders := by
  have hword : Ranks executableCaptured "x86_64" [0, 1] [0, 1] := .cons rfl (.cons rfl .nil)
  have hnarrow : Ranks executableCaptured "i686" [1, 0, 2] [1, 0, 2] :=
    .cons rfl (.cons rfl (.cons rfl .nil))
  exact unitOrders_ranks executableCaptured.ordersByTarget [] executableOrders (by decide)
    (.cons ⟨rfl, hword, rfl, by simp, by simp, by simp⟩
      (.cons ⟨rfl, hnarrow, rfl, by simp, by simp, by simp⟩ .nil))

theorem executable_published :
    Linkable buildFormat [wordBuild, narrowBuild] ∧
      ∃ inputs, Preserved buildFormat executableRequest
        [solePackage wordText, solePackage wordText, solePackage narrowText] inputs executableLink ∧
      unitOrders executableCaptured = .ok executableOrders ∧
      applyOrders executableLink.compilationPlan executableOrders = .ok executablePlan ∧
      ∀ profile ∈ [wordBuild, narrowBuild],
        List.Forall₂ (NativeUnit executableCaptured executableRequest inputs profile.target)
          profile.units (executablePlan.units profile.target) := by
  obtain ⟨htakes, hpublished⟩ := publishCombination_order (fun _ _ => .ok ()) buildFormat publishSole
    executableRequest.targets [wordBuild, narrowBuild] executableCaptured rfl
    (by simp [executableRequest, wordBuild, narrowBuild]) recordedOptions_executable
    readsLinks_executable publishSole_publishes
  obtain ⟨inputs, orders, plan, hpreserved, horders, hplan, hunits⟩ := hpublished executableRequest
    [solePackage wordText, solePackage wordText, solePackage narrowText] executableLink
    linkRequest_executable rfl (linkInputs_executable buildTexts)
  obtain rfl : executableOrders = orders :=
    Except.ok.inj (unitOrders_executable.symm.trans horders)
  obtain rfl : executablePlan = plan := Except.ok.inj hplan
  exact ⟨htakes.mp ⟨_, linkRequest_executable⟩, inputs, hpreserved, horders, hplan, hunits⟩

/-- A static archive with a member whose name has a blank. -/
def blankMember : SelectedBuild where
  units := [⟨"main.bc", "main.c", "main.o", "[]", "O2", "a b.o"⟩]
  libraries := []
  linkOptions := []
  kind := "static"
  versionScript := ""
  target := "x86_64"

/-- The archive can be captured and combined, but the link refuses the name of its member. -/
theorem blankMember_refused :
    ∃ captured, combineSelected [blankMember] = .ok captured ∧
      ∀ format selection request, linkRequest format selection captured ≠ .ok request := by
  refine ⟨_, rfl, fun format selection request h => ?_⟩
  obtain ⟨domains, -, h⟩ := bind_ok.mp h
  obtain ⟨names, hnames, -⟩ := bind_ok.mp h
  have hrefused : ∀ names, archiveMemberNames ⟨[⟨[("x86_64", ["main.bc"])], "O2", "a b.o"⟩],
      "static", [], [], "", ["x86_64"], [], []⟩ ≠ .ok names := by
    intro names hnames
    obtain ⟨member, -, hmember⟩ := exists_of_forall₂_left (mapM_ok.mp hnames) (List.mem_singleton_self _)
    exact absurd (parseMemberName_defined_iff.mp ⟨member, hmember⟩) (by decide +kernel)
  exact hrefused names hnames

end Sela
