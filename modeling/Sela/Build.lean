import Mathlib.Data.List.Basic
import Mathlib.Data.List.Perm.Subperm
import Sela.Link

/-!
# Combining the captures of a build

A build is captured once for each target. `combineSelected` brings the native units of the
captures together : each unit of the combination has, for some targets, native captures of
these targets. For a target whose native units are in another order than the units of the
combination it also gives that order (`combineSelected_ok`).
-/

namespace Sela

open Checked

/-! ## Captures -/

/-- One native unit of the capture of a build. -/
structure SelectedUnit where
  capture : String
  source : String
  key : String
  flags : String
  optimization : String
  archiveMemberName : String
  deriving DecidableEq

/-- The capture of a build for one target. -/
structure SelectedBuild where
  units : List SelectedUnit
  libraries : List String
  linkOptions : List String
  kind : String
  versionScript : String
  target : String
  deriving DecidableEq

/-- One unit of a combination : its captures by target. -/
structure CapturedUnit where
  pathsByTarget : List (String × List String)
  optimization : String
  archiveMemberName : String
  deriving DecidableEq

structure CapturedBuild where
  units : List CapturedUnit
  kind : String
  libraries : List String
  linkOptions : List String
  versionScript : String
  architectures : List String
  linksByTarget : List (String × ArtifactLink)
  ordersByTarget : List (String × List ℕ)
  deriving DecidableEq

/-- What a profile links with. -/
def SelectedBuild.settings (profile : SelectedBuild) : ArtifactLink :=
  ⟨profile.libraries, profile.linkOptions, profile.versionScript⟩

/-- What the targets of a combination link with, where they have no settings of their own. -/
def CapturedBuild.settings (captured : CapturedBuild) : ArtifactLink :=
  ⟨captured.libraries, captured.linkOptions, captured.versionScript⟩

/-- Native units of two targets that may be one unit of the combination. -/
def SelectedUnit.matches (left right : SelectedUnit) : Bool :=
  (left.source = right.source || left.key = right.key) && left.flags = right.flags &&
    left.optimization = right.optimization && left.archiveMemberName = right.archiveMemberName

/-! ## Corresponding units -/

/-- The one match of each unit of the reference, none used twice. -/
def matchPeers (units : List SelectedUnit) : List ℕ → List SelectedUnit → Option (List ℕ)
  | _, [] => some []
  | used, unit :: reference =>
    match (List.range units.length).filter fun j => units[j]?.any unit.matches with
    | [j] =>
      if j ∈ used then none
      else do
        let peers ← matchPeers units (used ++ [j]) reference
        pure (j :: peers)
    | _ => none

/-- The positions of the units of the reference among those of a profile. -/
def peersOf (kind : String) (reference units : List SelectedUnit) : Option (List ℕ) :=
  if units.length ≠ reference.length then none
  else if (reference.zip units).all fun pair => pair.1.matches pair.2 then
    some (List.range reference.length)
  else if kind = "static" then none
  else matchPeers units [] reference

/-- The unit of the combination that has the `index`-th unit of the reference and its peers. -/
def correspondingUnit (peers : List (SelectedBuild × List ℕ)) (unit : SelectedUnit × ℕ) :
    CapturedUnit where
  pathsByTarget := peers.map fun entry => (entry.1.target,
    ((entry.2[unit.2]?.bind (entry.1.units[·]?)).map SelectedUnit.capture).toList)
  optimization := unit.1.optimization
  archiveMemberName := unit.1.archiveMemberName

/-- The order in which the positions of `peers` are `0`, `1`, … -/
def inverseOrder (peers : List ℕ) : List ℕ :=
  peers.zipIdx.foldl (fun order entry => order.set entry.1 entry.2) (List.replicate peers.length 0)

/-- The order of a profile, where it is not that of the reference. -/
def correspondingOrder (entry : SelectedBuild × List ℕ) : Option (String × List ℕ) :=
  if entry.2 = List.range entry.2.length then none
  else some (entry.1.target, inverseOrder entry.2)

/-! ## Heterogeneous units -/

/-- Put one native unit with the first unit of another target it matches. -/
def placeUnit (target : String) (state : List (SelectedUnit × CapturedUnit) × List ℕ)
    (native : SelectedUnit) : List (SelectedUnit × CapturedUnit) × List ℕ :=
  let placed := Grouping.place
    (fun group => group.1.matches native && !(group.2.pathsByTarget.map Prod.fst).contains target)
    (fun group => (group.1, { group.2 with
      pathsByTarget := group.2.pathsByTarget ++ [(target, [native.capture])] }))
    (native, ⟨[(target, [native.capture])], native.optimization, native.archiveMemberName⟩) state.1
  (placed.1, state.2 ++ [placed.2])

/-- Put the native units of a profile. -/
def placeProfile
    (state : List (SelectedUnit × CapturedUnit) × List (String × List ℕ)) (profile : SelectedBuild) :
    List (SelectedUnit × CapturedUnit) × List (String × List ℕ) :=
  let placed := profile.units.foldl (placeUnit profile.target) (state.1, [])
  (placed.1, state.2 ++ [(profile.target, placed.2)])

/-! ## The combination -/

/-- What the profiles link with, by target where they differ. -/
def combinedLinks (first : SelectedBuild) (selected : List SelectedBuild) : CapturedBuild where
  units := []
  kind := first.kind
  libraries := if common then first.libraries else []
  linkOptions := if common then first.linkOptions else []
  versionScript := if common then first.versionScript else ""
  architectures := selected.map SelectedBuild.target
  linksByTarget := if common then [] else selected.map fun profile =>
    (profile.target, ⟨profile.libraries, profile.linkOptions, profile.versionScript⟩)
  ordersByTarget := []
where
  common : Bool := selected.all fun profile => profile.libraries = first.libraries &&
    profile.linkOptions = first.linkOptions && profile.versionScript = first.versionScript

/-- Check one profile of a selection, after the targets `labels` of those before. -/
def checkProfile (kind : String) (labels : List String) (profile : SelectedBuild) :
    Checked (List String) := do
  ensure ((Sela.targets.find profile.target).isSome ∧ profile.target ∉ labels)
    "unsupported or duplicate native selection target"
  ensure (kind = profile.kind) "one publication cannot mix native output kinds"
  pure (labels ++ [profile.target])

/-- Whether the units of all profiles have the settings of one. -/
def commonSettings (kind : String) (settings : SelectedUnit) (selected : List SelectedBuild) : Bool :=
  kind ≠ "static" && selected.all fun profile => profile.units.all fun unit =>
    unit.flags = settings.flags && unit.optimization = settings.optimization

/-- The combination of the captures of a build. -/
def combineSelected (selected : List SelectedBuild) : Checked CapturedBuild := do
  let first ← require selected.head? "native selection requires labelled target profiles"
  let _ ← selected.foldlM (checkProfile first.kind) []
  let result := combinedLinks first selected
  match selected.mapM fun profile => (peersOf first.kind first.units profile.units).map
      fun peers => (profile, peers) with
  | some peers =>
    pure { result with
      units := first.units.zipIdx.map (correspondingUnit peers)
      ordersByTarget := peers.filterMap correspondingOrder }
  | none => do
    let settings ← require first.units.head? "empty profile-selected application inventory"
    ensure (∀ profile ∈ selected, profile.units ≠ []) "empty profile-selected application inventory"
    if commonSettings first.kind settings selected then
      pure { result with
        units := [⟨selected.map fun profile => (profile.target, profile.units.map SelectedUnit.capture),
          settings.optimization, ""⟩] }
    else
      let placed := selected.foldl placeProfile ([], [])
      pure { result with units := placed.1.map Prod.snd, ordersByTarget := placed.2 }

/-! ## What a combination is -/

/-- The units of a combination that have captures of a target. -/
def CapturedBuild.present (captured : CapturedBuild) (target : String) : List ℕ :=
  (List.range captured.units.length).filter fun index =>
    captured.units[index]?.any fun unit => (unit.pathsByTarget.map Prod.fst).contains target

/-- The captures a combination has of a target, each with the member name of its unit. -/
def CapturedBuild.captures (captured : CapturedBuild) (target : String) : List (String × String) :=
  captured.units.flatMap fun unit =>
    ((unit.pathsByTarget.lookup target).getD []).map fun capture => (capture, unit.archiveMemberName)

/-- A unit of a combination has a native unit as its one capture of a target. -/
def SoleCapture (units : List CapturedUnit) (target : String) (native : SelectedUnit) (index : ℕ) :
    Prop :=
  ∃ unit, units[index]? = some unit ∧ unit.pathsByTarget.lookup target = some [native.capture] ∧
    unit.archiveMemberName = native.archiveMemberName

/-- The native units of a profile are in a combination : in their order, or in one that is
given, with one capture for each unit. -/
inductive Ordered (captured : CapturedBuild) (profile : SelectedBuild) : Prop
  | inOrder (hnone : captured.ordersByTarget.lookup profile.target = none)
      (hcaptures : List.Forall₂ (fun native capture => capture.1 = native.capture ∧
        (profile.kind = "static" → capture.2 = native.archiveMemberName)) profile.units
        (captured.captures profile.target)) : Ordered captured profile
  | permuted (order : List ℕ) (hsome : captured.ordersByTarget.lookup profile.target = some order)
      (hne : profile.units ≠ [])
      (hcaptures : List.Forall₂ (SoleCapture captured.units profile.target) profile.units order)
      (hnodup : order.Nodup) (hpresent : ∀ index, index ∈ order ↔
        index ∈ captured.present profile.target) : Ordered captured profile

/-- A unit of a combination : it has captures of some of the targets. -/
structure ValidCaptures (targets : List String) (unit : CapturedUnit) : Prop where
  nonempty : unit.pathsByTarget ≠ []
  nodup : (unit.pathsByTarget.map Prod.fst).Nodup
  selected : ∀ entry ∈ unit.pathsByTarget, entry.1 ∈ targets
  captures : ∀ entry ∈ unit.pathsByTarget, entry.2 ≠ []

/-- What the combination of the captures of a build is. -/
structure Combined (selected : List SelectedBuild) (captured : CapturedBuild) : Prop where
  targets : (selected.map SelectedBuild.target).Nodup ∧
    ∀ profile ∈ selected, (Sela.targets.find profile.target).isSome
  kind : ∀ profile ∈ selected, captured.kind = profile.kind
  units : ∀ unit ∈ captured.units, ValidCaptures (selected.map SelectedBuild.target) unit
  orders : (captured.ordersByTarget.map Prod.fst).Nodup ∧
    ∀ entry ∈ captured.ordersByTarget, entry.1 ∈ selected.map SelectedBuild.target
  ordered : ∀ profile ∈ selected, Ordered captured profile

theorem CapturedBuild.mem_present {captured : CapturedBuild} {target : String} {index : ℕ} :
    index ∈ captured.present target ↔
      ∃ unit, captured.units[index]? = some unit ∧ target ∈ unit.pathsByTarget.map Prod.fst := by
  unfold CapturedBuild.present
  rw [List.mem_filter, List.mem_range, Option.any_eq_true]
  constructor
  · rintro ⟨-, unit, hunit, htarget⟩
    exact ⟨unit, hunit, by simpa using htarget⟩
  · rintro ⟨unit, hunit, htarget⟩
    exact ⟨(List.getElem?_eq_some_iff.mp hunit).1, unit, hunit, by simpa using htarget⟩

/-- Profiles of distinct registered targets and one kind of output. -/
structure CheckedProfiles (kind : String) (selected : List SelectedBuild) (labels : List String) :
    Prop where
  labels : labels = selected.map SelectedBuild.target
  nodup : (selected.map SelectedBuild.target).Nodup
  registered : ∀ profile ∈ selected, (Sela.targets.find profile.target).isSome
  kind : ∀ profile ∈ selected, kind = profile.kind

theorem foldlM_checkProfile_ok {kind : String} {selected : List SelectedBuild}
    {labels : List String} (h : selected.foldlM (checkProfile kind) [] = .ok labels) :
    CheckedProfiles kind selected labels := by
  have hnil : CheckedProfiles kind [] [] := ⟨rfl, by simp, by simp, by simp⟩
  refine foldlM_invariant (CheckedProfiles kind) hnil ?_ h
  intro passed profile rest labels labels' _ hsofar hstep
  unfold checkProfile at hstep
  obtain ⟨_, hlabel, hstep⟩ := bind_ok.mp hstep
  obtain ⟨_, hsame, hstep⟩ := bind_ok.mp hstep
  obtain rfl := Except.ok.inj hstep
  obtain ⟨hregistered, hnew⟩ := ensure_ok.mp hlabel
  rw [hsofar.labels] at hnew
  refine ⟨by simp [hsofar.labels], ?_, ?_, ?_⟩
  · rw [List.map_append]
    exact Grouping.nodup_concat hsofar.nodup hnew
  · simpa [or_imp, forall_and] using ⟨hsofar.registered, hregistered⟩
  · simpa [or_imp, forall_and] using ⟨hsofar.kind, ensure_ok.mp hsame⟩

/-! ## Corresponding units -/

theorem SelectedUnit.matches_eq {left right : SelectedUnit} (h : left.matches right = true) :
    left.archiveMemberName = right.archiveMemberName := by
  simp only [SelectedUnit.matches, Bool.and_eq_true, decide_eq_true_eq] at h
  exact h.2

/-- Peers are distinct positions of matching units. -/
structure Peers (reference units : List SelectedUnit) (peers : List ℕ) : Prop where
  nodup : peers.Nodup
  matched : List.Forall₂ (fun unit j => ∃ native, units[j]? = some native ∧
    unit.matches native = true) reference peers
  length : units.length = reference.length

theorem matchPeers_some {units : List SelectedUnit} :
    ∀ {reference : List SelectedUnit} {used peers : List ℕ}, matchPeers units used reference = some peers →
      peers.Nodup ∧ (∀ j ∈ peers, j ∉ used) ∧
        List.Forall₂ (fun unit j => ∃ native, units[j]? = some native ∧
          unit.matches native = true) reference peers
  | [], used, peers, h => by
    obtain rfl := Option.some.inj h
    exact ⟨List.nodup_nil, by simp, .nil⟩
  | unit :: reference, used, peers, h => by
    unfold matchPeers at h
    split at h
    · rename_i j hj
      split at h
      · simp at h
      · rename_i hnew
        obtain ⟨rest, hrest, h⟩ := Option.bind_eq_some_iff.mp h
        obtain rfl := Option.some.inj h
        obtain ⟨hnodup, hfresh, hpeers⟩ := matchPeers_some hrest
        have hmem : j ∈ (List.range units.length).filter fun j => units[j]?.any unit.matches := by
          rw [hj]
          simp
        obtain ⟨native, hnative⟩ := (Option.any_eq_true _ _).mp (List.mem_filter.mp hmem).2
        refine ⟨List.nodup_cons.mpr ⟨fun hmem => hfresh j hmem (by simp), hnodup⟩, ?_,
          .cons ⟨native, hnative⟩ hpeers⟩
        rintro k hk
        rcases List.mem_cons.mp hk with rfl | hk
        · exact hnew
        · exact fun hused => hfresh k hk (by simp [hused])
    · simp at h

theorem peersOf_some {kind : String} {reference units : List SelectedUnit} {peers : List ℕ}
    (h : peersOf kind reference units = some peers) : Peers reference units peers := by
  unfold peersOf at h
  split at h
  · simp at h
  · rename_i hlength
    have hlength : units.length = reference.length := not_not.mp hlength
    split at h
    · rename_i hall
      obtain rfl := Option.some.inj h
      refine ⟨List.nodup_range, List.forall₂_iff_get.mpr ⟨by simp, fun i hi hi' => ?_⟩, hlength⟩
      have hmem : (reference[i], units.get ⟨i, hlength ▸ hi⟩) ∈ reference.zip units :=
        List.mem_iff_getElem.mpr ⟨i, by rw [List.length_zip]; omega, by simp⟩
      have := List.all_eq_true.mp hall _ hmem
      exact ⟨units.get ⟨i, hlength ▸ hi⟩, by simp [hlength ▸ hi], this⟩
    · split at h
      · simp at h
      · obtain ⟨hnodup, -, hpeers⟩ := matchPeers_some h
        exact ⟨hnodup, hpeers, hlength⟩

/-- Setting distinct positions one after the other. -/
theorem foldl_set_spec : ∀ (entries : List (ℕ × ℕ)) (order : List ℕ),
    (entries.map Prod.fst).Nodup → (∀ entry ∈ entries, entry.1 < order.length) →
    (entries.foldl (fun order entry => order.set entry.1 entry.2) order).length = order.length ∧
      (∀ entry ∈ entries, (entries.foldl (fun order entry => order.set entry.1 entry.2)
        order)[entry.1]? = some entry.2) ∧
      ∀ j, j ∉ entries.map Prod.fst →
        (entries.foldl (fun order entry => order.set entry.1 entry.2) order)[j]? = order[j]?
  | [], order, _, _ => by simp
  | (j, i) :: entries, order, hnodup, hlt => by
    obtain ⟨hj, hnodup⟩ := List.nodup_cons.mp hnodup
    obtain ⟨hjlt, hlt⟩ := List.forall_mem_cons.mp hlt
    obtain ⟨hlength, hset, hother⟩ := foldl_set_spec entries (order.set j i) hnodup
      (by simpa using hlt)
    refine ⟨by simpa using hlength, List.forall_mem_cons.mpr ⟨?_, hset⟩, fun k hk => ?_⟩
    · rw [List.foldl_cons, hother j hj, List.getElem?_set_self hjlt]
    · rw [List.map_cons, List.mem_cons, not_or] at hk
      rw [List.foldl_cons, hother k hk.2, List.getElem?_set_ne (Ne.symm hk.1)]

/-- A list of distinct positions of itself has each position. -/
theorem perm_range {peers : List ℕ} (hnodup : peers.Nodup) (hlt : ∀ j ∈ peers, j < peers.length) :
    peers.Perm (List.range peers.length) :=
  (List.subperm_of_subset hnodup fun j hj => List.mem_range.mpr (hlt j hj)).perm_of_length_le
    (by simp)

theorem length_inverseOrder {peers : List ℕ} (hnodup : peers.Nodup)
    (hlt : ∀ j ∈ peers, j < peers.length) : (inverseOrder peers).length = peers.length := by
  have hkeys : (peers.zipIdx.map Prod.fst).Nodup := by simpa using hnodup
  obtain ⟨hlength, -, -⟩ := foldl_set_spec _ (List.replicate peers.length 0) hkeys
    fun entry hentry => by
      simpa using hlt entry.1 (List.mem_of_getElem? (List.mem_zipIdx_iff_getElem?.mp hentry))
  simpa [inverseOrder] using hlength

/-- The inverse order has at each position the index of that position. -/
theorem inverseOrder_getElem? {peers : List ℕ} (hnodup : peers.Nodup)
    (hlt : ∀ j ∈ peers, j < peers.length) {i j : ℕ} :
    (inverseOrder peers)[j]? = some i ↔ peers[i]? = some j := by
  have hkeys : (peers.zipIdx.map Prod.fst).Nodup := by simpa using hnodup
  obtain ⟨-, hset, -⟩ := foldl_set_spec _ (List.replicate peers.length 0) hkeys
    fun entry hentry => by
      simpa using hlt entry.1 (List.mem_of_getElem? (List.mem_zipIdx_iff_getElem?.mp hentry))
  have hinverse : ∀ {i j : ℕ}, peers[i]? = some j → (inverseOrder peers)[j]? = some i :=
    fun {i j} hi => hset (j, i) (List.mem_zipIdx_iff_getElem?.mpr hi)
  refine ⟨fun h => ?_, hinverse⟩
  -- Every position below the length has an index, whose position is no other.
  obtain ⟨hj, -⟩ := List.getElem?_eq_some_iff.mp h
  have hmem : j ∈ peers := (perm_range hnodup hlt).mem_iff.mpr
    (List.mem_range.mpr (length_inverseOrder hnodup hlt ▸ hj))
  obtain ⟨i', hi'⟩ := List.getElem?_of_mem hmem
  rw [hinverse hi'] at h
  exact Option.some.inj h ▸ hi'

theorem nodup_inverseOrder {peers : List ℕ} (hnodup : peers.Nodup)
    (hlt : ∀ j ∈ peers, j < peers.length) : (inverseOrder peers).Nodup := by
  rw [List.nodup_iff_getElem?_ne_getElem?]
  intro j k hjk hk heq
  rw [List.getElem?_eq_getElem hk] at heq
  have hj := (inverseOrder_getElem? hnodup hlt).mp heq
  have hk := (inverseOrder_getElem? hnodup hlt).mp (List.getElem?_eq_getElem hk)
  rw [hj] at hk
  exact Nat.ne_of_lt hjk (Option.some.inj hk)

theorem mem_inverseOrder {peers : List ℕ} (hnodup : peers.Nodup)
    (hlt : ∀ j ∈ peers, j < peers.length) {i : ℕ} : i ∈ inverseOrder peers ↔ i < peers.length := by
  rw [List.mem_iff_getElem?]
  simp only [inverseOrder_getElem? hnodup hlt]
  exact ⟨fun ⟨_, hi⟩ => (List.getElem?_eq_some_iff.mp hi).1,
    fun hi => ⟨peers[i], List.getElem?_eq_getElem hi⟩⟩

section

variable {reference : List SelectedUnit} {selected : List SelectedBuild}
  {peers : List (SelectedBuild × List ℕ)}

/-- Each profile with its peers. -/
def ProfilePeers (reference : List SelectedUnit) (selected : List SelectedBuild)
    (peers : List (SelectedBuild × List ℕ)) : Prop :=
  List.Forall₂ (fun profile entry => entry.1 = profile ∧ Peers reference profile.units entry.2)
    selected peers

theorem Peers.lt {units : List SelectedUnit} {ps : List ℕ} (h : Peers reference units ps) :
    ∀ j ∈ ps, j < ps.length := by
  intro j hj
  obtain ⟨_, -, native, hnative, -⟩ := exists_of_forall₂_right h.matched hj
  rw [← h.matched.length_eq, ← h.length]
  exact (List.getElem?_eq_some_iff.mp hnative).1

theorem ProfilePeers.targets (h : ProfilePeers reference selected peers) :
    peers.map (fun entry => entry.1.target) = selected.map SelectedBuild.target :=
  map_eq_of_forall₂ (h.imp fun _ _ hentry => by rw [hentry.1])

theorem ProfilePeers.entry (h : ProfilePeers reference selected peers) {profile : SelectedBuild}
    (hprofile : profile ∈ selected) :
    ∃ ps, (profile, ps) ∈ peers ∧ Peers reference profile.units ps := by
  obtain ⟨⟨_, ps⟩, hmem, rfl, hpeers⟩ := exists_of_forall₂_left h hprofile
  exact ⟨ps, hmem, hpeers⟩

/-- The `i`-th unit has of each profile the capture of the peer of the `i`-th unit of the
reference. -/
theorem correspondingUnit_capture (h : ProfilePeers reference selected peers)
    (hnodup : (selected.map SelectedBuild.target).Nodup) {profile : SelectedBuild} {ps : List ℕ}
    (hentry : (profile, ps) ∈ peers) (hpeers : Peers reference profile.units ps) {i j : ℕ}
    (hj : ps[i]? = some j) :
    ∃ native, profile.units[j]? = some native ∧
      SoleCapture (reference.zipIdx.map (correspondingUnit peers)) profile.target native i := by
  obtain ⟨hi, hget⟩ := List.getElem?_eq_some_iff.mp hj
  have hi' : i < reference.length := hpeers.matched.length_eq ▸ hi
  obtain ⟨native, hnative, hmatch⟩ := hpeers.matched.get hi' hi
  rw [List.get_eq_getElem, hget] at hnative
  refine ⟨native, hnative, correspondingUnit peers (reference[i], i), ?_, ?_,
    SelectedUnit.matches_eq hmatch⟩
  · simp [List.getElem?_eq_getElem hi']
  · have hkeys : ((correspondingUnit peers (reference[i], i)).pathsByTarget.map Prod.fst).Nodup := by
      simpa [correspondingUnit, h.targets, Function.comp_def] using hnodup
    rw [Association.lookup_eq_some_iff_mem hkeys]
    exact List.mem_map.mpr ⟨(profile, ps), hentry, by simp [hj, hnative]⟩

theorem correspondingUnit_valid (h : ProfilePeers reference selected peers)
    (hnodup : (selected.map SelectedBuild.target).Nodup) (hne : selected ≠ [])
    {unit : CapturedUnit} (hunit : unit ∈ reference.zipIdx.map (correspondingUnit peers)) :
    ValidCaptures (selected.map SelectedBuild.target) unit := by
  obtain ⟨⟨r, i⟩, hr, rfl⟩ := List.mem_map.mp hunit
  have hi : i < reference.length :=
    (List.getElem?_eq_some_iff.mp (List.mem_zipIdx_iff_getElem?.mp hr)).1
  have hkeys : (correspondingUnit peers (r, i)).pathsByTarget.map Prod.fst =
      selected.map SelectedBuild.target := by
    simpa [correspondingUnit, Function.comp_def] using h.targets
  refine ⟨fun hnil => ?_, hkeys ▸ hnodup, fun entry hentry => ?_, fun entry hentry => ?_⟩
  · rw [hnil] at hkeys
    exact hne (List.map_eq_nil_iff.mp hkeys.symm)
  · exact hkeys ▸ List.mem_map.mpr ⟨entry, hentry, rfl⟩
  · obtain ⟨⟨profile, ps⟩, hps, rfl⟩ := List.mem_map.mp hentry
    obtain ⟨profile', -, rfl, hpeers⟩ := exists_of_forall₂_right h hps
    have hlt : i < ps.length := hpeers.matched.length_eq ▸ hi
    obtain ⟨native, hnative, -⟩ :=
      correspondingUnit_capture h hnodup hps hpeers (List.getElem?_eq_getElem hlt)
    simp [List.getElem?_eq_getElem hlt, hnative]

theorem correspondingOrder_target {entry : SelectedBuild × List ℕ} {order : String × List ℕ}
    (h : correspondingOrder entry = some order) : order.1 = entry.1.target := by
  unfold correspondingOrder at h
  split at h
  · simp at h
  · exact (Option.some.inj h) ▸ rfl

/-- The orders have the targets of some of the profiles. -/
theorem orders_sublist : ∀ peers : List (SelectedBuild × List ℕ),
    ((peers.filterMap correspondingOrder).map Prod.fst).Sublist
      (peers.map fun entry => entry.1.target)
  | [] => List.nil_sublist _
  | entry :: peers => by
    have ih := orders_sublist peers
    cases horder : correspondingOrder entry with
    | none =>
      rw [List.filterMap_cons_none horder]
      exact ih.cons _
    | some order =>
      rw [List.filterMap_cons_some horder, List.map_cons, List.map_cons,
        correspondingOrder_target horder]
      exact ih.cons_cons _

theorem lookup_correspondingOrder (h : ProfilePeers reference selected peers)
    (hnodup : (selected.map SelectedBuild.target).Nodup) {profile : SelectedBuild} {ps : List ℕ}
    (hentry : (profile, ps) ∈ peers) :
    (peers.filterMap correspondingOrder).lookup profile.target =
      (correspondingOrder (profile, ps)).map Prod.snd := by
  have htargets : (peers.map fun entry => entry.1.target).Nodup := h.targets ▸ hnodup
  have hkeys := htargets.sublist (orders_sublist peers)
  cases horder : correspondingOrder (profile, ps) with
  | none =>
    rw [Option.map_none, Association.lookup_eq_none_iff_mem]
    intro hmem
    obtain ⟨order, hmem, htarget⟩ := List.mem_map.mp hmem
    obtain ⟨entry, hmem, hsome⟩ := List.mem_filterMap.mp hmem
    -- The targets are distinct, so an order of this target is that of this profile.
    have heq : entry = (profile, ps) := List.inj_on_of_nodup_map htargets hmem hentry
      ((correspondingOrder_target hsome).symm.trans htarget)
    rw [heq, horder] at hsome
    simp at hsome
  | some order =>
    rw [Option.map_some, Association.lookup_eq_some_iff_mem hkeys,
      ← correspondingOrder_target horder]
    exact List.mem_filterMap.mpr ⟨(profile, ps), hentry, horder⟩

theorem corresponding_ordered (h : ProfilePeers reference selected peers)
    (hnodup : (selected.map SelectedBuild.target).Nodup) (result : CapturedBuild)
    {profile : SelectedBuild} (hprofile : profile ∈ selected) :
    Ordered { result with
      units := reference.zipIdx.map (correspondingUnit peers)
      ordersByTarget := peers.filterMap correspondingOrder } profile := by
  obtain ⟨ps, hentry, hpeers⟩ := h.entry hprofile
  have hlookup := lookup_correspondingOrder h hnodup hentry
  have hlength : profile.units.length = ps.length :=
    hpeers.length.trans hpeers.matched.length_eq
  by_cases hrange : ps = List.range ps.length
  · refine .inOrder (by rw [hlookup]; simp [correspondingOrder, ← hrange]) ?_
    have hunits : List.Forall₂ (fun native unit =>
        unit.pathsByTarget.lookup profile.target = some [native.capture] ∧
          unit.archiveMemberName = native.archiveMemberName) profile.units
        (reference.zipIdx.map (correspondingUnit peers)) := by
      refine List.forall₂_iff_get.mpr ⟨by simp [hpeers.length], fun i hi hi' => ?_⟩
      have hj : ps[i]? = some i := by
        rw [hrange, List.getElem?_range (hlength ▸ hi)]
      obtain ⟨native, hnative, unit, hunit, hcapture⟩ :=
        correspondingUnit_capture h hnodup hentry hpeers hj
      rw [List.getElem?_eq_getElem hi] at hnative
      rw [List.getElem?_eq_getElem hi'] at hunit
      obtain rfl := Option.some.inj hnative
      obtain rfl := Option.some.inj hunit
      exact hcapture
    rw [CapturedBuild.captures, ← List.flatMap_singleton' profile.units]
    refine forall₂_flatMap (hunits.imp fun native unit hunit => ?_)
    rw [hunit.1]
    exact .cons ⟨rfl, fun _ => hunit.2⟩ .nil
  · have hne : profile.units ≠ [] := by
      rintro hnil
      rw [hnil, List.length_nil] at hlength
      exact hrange (by rw [← hlength]; exact List.length_eq_zero_iff.mp hlength.symm)
    refine .permuted (inverseOrder ps) (by rw [hlookup]; simp [correspondingOrder, hrange]) hne ?_
      (nodup_inverseOrder hpeers.nodup hpeers.lt) fun i => ?_
    · refine List.forall₂_iff_get.mpr
        ⟨by rw [length_inverseOrder hpeers.nodup hpeers.lt, hlength], fun j hj hj' => ?_⟩
      obtain ⟨native, hnative, hsole⟩ := correspondingUnit_capture h hnodup hentry hpeers
        ((inverseOrder_getElem? hpeers.nodup hpeers.lt).mp (List.getElem?_eq_getElem hj'))
      rw [List.getElem?_eq_getElem hj] at hnative
      obtain rfl := Option.some.inj hnative
      exact hsole
    · rw [mem_inverseOrder hpeers.nodup hpeers.lt, CapturedBuild.mem_present]
      constructor
      · intro hi
        obtain ⟨native, -, unit, hunit, hcapture, -⟩ :=
          correspondingUnit_capture h hnodup hentry hpeers (List.getElem?_eq_getElem hi)
        exact ⟨unit, hunit, Association.lookup_isSome_iff_mem.mp (by simp [hcapture])⟩
      · rintro ⟨unit, hunit, -⟩
        have hi := (List.getElem?_eq_some_iff.mp hunit).1
        rwa [List.length_map, List.length_zipIdx, hpeers.matched.length_eq] at hi

end

/-! ## Heterogeneous units -/

/-- The captures of a target in the group at an index. -/
def held (groups : List (SelectedUnit × CapturedUnit)) (index : ℕ) (target : String) :
    Option (List String) :=
  groups[index]?.bind fun group => group.2.pathsByTarget.lookup target

/-- The member name of the group at an index. -/
def memberAt (groups : List (SelectedUnit × CapturedUnit)) (index : ℕ) : Option String :=
  groups[index]?.map fun group => group.2.archiveMemberName

/-- A group is a unit of some of the targets, with the member name of its first. -/
structure ValidGroup (targets : List String) (group : SelectedUnit × CapturedUnit) : Prop where
  unit : ValidCaptures targets group.2
  member : group.2.archiveMemberName = group.1.archiveMemberName

/-- The groups hold the native units of a target, each as the one capture of the target in the
group at its index. -/
structure PlacedPeers (groups : List (SelectedUnit × CapturedUnit)) (target : String)
    (natives : List SelectedUnit) (order : List ℕ) : Prop where
  captures : List.Forall₂ (fun native index => held groups index target = some [native.capture] ∧
    memberAt groups index = some native.archiveMemberName) natives order
  nodup : order.Nodup
  mem : ∀ index, index ∈ order ↔ (held groups index target).isSome

/-- What placing a native unit changes : the group at `k` now holds it. -/
structure PlacedUnit (target : String) (native : SelectedUnit)
    (groups groups' : List (SelectedUnit × CapturedUnit)) (k : ℕ) : Prop where
  fresh : held groups k target = none
  heldAt : ∀ index other, held groups' index other =
    if index = k ∧ other = target then some [native.capture] else held groups index other
  member : memberAt groups' k = some native.archiveMemberName
  members : ∀ index name, memberAt groups index = some name → memberAt groups' index = some name

theorem lookup_append_single {target other : String} {paths : List String} :
    ∀ {entries : List (String × List String)}, target ∉ entries.map Prod.fst →
      (entries ++ [(target, paths)]).lookup other =
        if other = target then some paths else entries.lookup other
  | [], _ => by
    by_cases h : other = target
    · simp [h]
    · simp [h, List.lookup_cons, beq_eq_false_iff_ne.mpr h]
  | (first, found) :: entries, hnew => by
    rw [List.map_cons, List.mem_cons, not_or] at hnew
    rw [List.cons_append, List.lookup_cons, List.lookup_cons, lookup_append_single hnew.2]
    by_cases h : other = first
    · simp [h, Ne.symm hnew.1]
    · simp [beq_eq_false_iff_ne.mpr h]

/-- Placing changes one group : it now has one more entry, that of the target. -/
theorem placedUnit_of_append {target : String} {native : SelectedUnit}
    {groups groups' : List (SelectedUnit × CapturedUnit)} {k : ℕ}
    {group : SelectedUnit × CapturedUnit}
    (hother : ∀ index, index ≠ k → groups'[index]? = groups[index]?)
    (hgroup : groups'[k]? = some group)
    (hmember : group.2.archiveMemberName = native.archiveMemberName)
    (hold : ∀ old, groups[k]? = some old → target ∉ old.2.pathsByTarget.map Prod.fst ∧
      old.2.archiveMemberName = native.archiveMemberName)
    (hpaths : group.2.pathsByTarget = ((groups[k]?.map fun old => old.2.pathsByTarget).getD []) ++
      [(target, [native.capture])]) : PlacedUnit target native groups groups' k := by
  have hnew : target ∉ (((groups[k]?.map fun old => old.2.pathsByTarget).getD []).map Prod.fst) := by
    cases hk : groups[k]? with
    | none => simp
    | some old => simpa using (hold old hk).1
  have hheld : ∀ other, held groups k other =
      ((groups[k]?.map fun old => old.2.pathsByTarget).getD []).lookup other := fun other => by
    unfold held
    cases groups[k]? <;> rfl
  refine ⟨?_, fun index other => ?_, by simp [memberAt, hgroup, hmember], fun index name h => ?_⟩
  · rw [hheld, Association.lookup_eq_none_iff_mem]
    exact hnew
  · by_cases hk : index = k
    · subst hk
      rw [hheld, held, hgroup, Option.bind_some, hpaths, lookup_append_single hnew]
      simp
    · rw [if_neg fun h => hk h.1, held, hother index hk, held]
  · by_cases hk : index = k
    · subst hk
      obtain ⟨old, hold', rfl⟩ := Option.map_eq_some_iff.mp h
      rw [memberAt, hgroup, (hold old hold').2, Option.map_some, hmember]
    · rwa [memberAt, hother index hk]

theorem placeUnit_spec {targets : List String} {target : String}
    {groups : List (SelectedUnit × CapturedUnit)} (order : List ℕ) (native : SelectedUnit)
    (hvalid : ∀ group ∈ groups, ValidGroup targets group) (htarget : target ∈ targets) :
    ∃ groups' k, placeUnit target (groups, order) native = (groups', order ++ [k]) ∧
      PlacedUnit target native groups groups' k ∧ ∀ group ∈ groups', ValidGroup targets group := by
  refine ⟨_, _, rfl, ?_⟩
  rcases Grouping.place_split
    (fun group : SelectedUnit × CapturedUnit =>
      group.1.matches native && !(group.2.pathsByTarget.map Prod.fst).contains target)
    (fun group => (group.1, { group.2 with
      pathsByTarget := group.2.pathsByTarget ++ [(target, [native.capture])] }))
    (native, ⟨[(target, [native.capture])], native.optimization, native.archiveMemberName⟩) groups
    with ⟨before, old, after, rfl, hfits, -, hplace⟩ | ⟨-, hplace⟩
  · rw [hplace]
    obtain ⟨hmatch, hnew⟩ := (Bool.and_eq_true _ _).mp hfits
    have hnew : target ∉ old.2.pathsByTarget.map Prod.fst := by simpa using hnew
    have hold := hvalid old (by simp)
    have hmember : old.2.archiveMemberName = native.archiveMemberName :=
      hold.member.trans (SelectedUnit.matches_eq hmatch)
    have hget : ∀ group, (before ++ group :: after)[before.length]? = some group := by simp
    refine ⟨placedUnit_of_append (fun index hindex => ?_) (hget _) hmember (fun other hother => ?_)
      (by simp), fun group hgroup => ?_⟩
    · rcases Nat.lt_or_gt_of_ne hindex with h | h
      · simp [List.getElem?_append_left h]
      · obtain ⟨n, rfl⟩ := Nat.exists_eq_add_of_lt h
        simp [Nat.add_assoc, List.getElem?_append_right]
    · obtain rfl : old = other := by simpa using hother
      exact ⟨hnew, hmember⟩
    · rcases List.mem_append.mp hgroup with hgroup | hgroup
      · exact hvalid group (by simp [hgroup])
      rcases List.mem_cons.mp hgroup with rfl | hgroup
      · refine ⟨⟨by simp, ?_, ?_, ?_⟩, hold.member⟩
        · rw [List.map_append]
          exact Grouping.nodup_concat hold.unit.nodup hnew
        · simpa [or_imp, forall_and] using ⟨fun a b h => hold.unit.selected (a, b) h, htarget⟩
        · simpa [or_imp, forall_and] using fun a b h => hold.unit.captures (a, b) h
      · exact hvalid group (by simp [hgroup])
  · rw [hplace]
    have hget : ∀ group, (groups ++ [group])[groups.length]? = some group := by simp
    refine ⟨placedUnit_of_append (fun index hindex => ?_) (hget _) rfl (by simp) (by simp), fun group hgroup => ?_⟩
    · rcases Nat.lt_or_gt_of_ne hindex with h | h
      · rw [List.getElem?_append_left h]
      · rw [List.getElem?_eq_none (by simp; omega), List.getElem?_eq_none (by omega)]
    · rcases List.mem_append.mp hgroup with hgroup | hgroup
      · exact hvalid group hgroup
      · rw [List.mem_singleton.mp hgroup]
        exact ⟨⟨by simp, by simp, by simpa using htarget, by simp⟩, rfl⟩

/-- Placing a native unit of one target keeps those placed of another. -/
theorem PlacedPeers.other {groups groups' : List (SelectedUnit × CapturedUnit)} {target other : String}
    {natives : List SelectedUnit} {native : SelectedUnit} {order : List ℕ} {k : ℕ}
    (h : PlacedPeers groups other natives order) (hplaced : PlacedUnit target native groups groups' k)
    (hne : other ≠ target) : PlacedPeers groups' other natives order := by
  have hheld : ∀ index, held groups' index other = held groups index other := fun index => by
    rw [hplaced.heldAt, if_neg fun h => hne h.2]
  refine ⟨h.captures.imp fun native index hcapture => ⟨?_, hplaced.members _ _ hcapture.2⟩, h.nodup,
    fun index => ?_⟩
  · rw [hheld, h.mem]
  · rw [hheld, hcapture.1]

/-- Placing one more native unit of a target gives it a group of its own. -/
theorem PlacedPeers.concat {groups groups' : List (SelectedUnit × CapturedUnit)} {target : String}
    {natives : List SelectedUnit} {native : SelectedUnit} {order : List ℕ} {k : ℕ}
    (h : PlacedPeers groups target natives order) (hplaced : PlacedUnit target native groups groups' k) :
    PlacedPeers groups' target (natives ++ [native]) (order ++ [k]) := by
  have hnew : k ∉ order := by
    rw [h.mem, hplaced.fresh]
    simp
  refine ⟨List.rel_append ?_ (.cons ⟨?_, hplaced.member⟩ .nil), Grouping.nodup_concat h.nodup hnew,
    fun index => ?_⟩
  · refine forall₂_imp_of_mem h.captures fun native' _ index hindex hcapture =>
      ⟨?_, hplaced.members _ _ hcapture.2⟩
    rw [hplaced.heldAt, if_neg fun heq : index = k ∧ _ => hnew (heq.1 ▸ hindex), hcapture.1]
  · rw [hplaced.heldAt, if_pos ⟨rfl, rfl⟩]
  · rw [List.mem_append, List.mem_singleton, h.mem, hplaced.heldAt]
    by_cases hk : index = k
    · simp [hk]
    · simp [hk]

/-- The groups in a state of the loops : valid, with the orders of the profiles passed. -/
structure PlacedProfiles (targets : List String) (passed : List SelectedBuild)
    (groups : List (SelectedUnit × CapturedUnit)) (orders : List (String × List ℕ)) : Prop where
  valid : ∀ group ∈ groups, ValidGroup targets group
  placed : List.Forall₂ (fun profile entry => entry.1 = profile.target ∧
    PlacedPeers groups profile.target profile.units entry.2) passed orders
  only : ∀ index target, (held groups index target).isSome →
    target ∈ passed.map SelectedBuild.target

theorem foldl_placeUnit_spec {targets : List String} {target : String} (htarget : target ∈ targets) :
    ∀ (rest : List SelectedUnit) {passed : List SelectedUnit}
      {groups : List (SelectedUnit × CapturedUnit)} {order : List ℕ}, (∀ group ∈ groups, ValidGroup targets group) →
      PlacedPeers groups target passed order →
      ∃ groups' order', rest.foldl (placeUnit target) (groups, order) = (groups', order') ∧
        (∀ group ∈ groups', ValidGroup targets group) ∧
        PlacedPeers groups' target (passed ++ rest) order' ∧
        (∀ other natives order, other ≠ target → PlacedPeers groups other natives order →
          PlacedPeers groups' other natives order) ∧
        ∀ index other, (held groups' index other).isSome →
          other = target ∨ (held groups index other).isSome
  | [], passed, groups, order, hvalid, hplaced =>
    ⟨groups, order, rfl, hvalid, by simpa using hplaced, fun _ _ _ _ h => h, fun _ _ h => Or.inr h⟩
  | native :: rest, passed, groups, order, hvalid, hplaced => by
    obtain ⟨groups₁, k, heq, hunit, hvalid₁⟩ := placeUnit_spec order native hvalid htarget
    obtain ⟨groups₂, order₂, hfold, hvalid₂, hplaced₂, hother, honly⟩ :=
      foldl_placeUnit_spec htarget rest hvalid₁ (hplaced.concat hunit)
    refine ⟨groups₂, order₂, by rw [List.foldl_cons, heq, hfold], hvalid₂, by simpa using hplaced₂,
      fun other natives order hne h => hother other natives order hne (h.other hunit hne),
      fun index other h => ?_⟩
    rcases honly index other h with h | h
    · exact Or.inl h
    · rw [hunit.heldAt] at h
      split at h
      · rename_i heq
        exact Or.inl heq.2
      · exact Or.inr h

theorem foldl_placeProfile_spec {targets : List String} :
    ∀ (rest : List SelectedBuild) {passed : List SelectedBuild}
      {groups : List (SelectedUnit × CapturedUnit)} {orders : List (String × List ℕ)}, ((passed ++ rest).map SelectedBuild.target).Nodup →
      (∀ profile ∈ rest, profile.target ∈ targets) →
      PlacedProfiles targets passed groups orders →
      ∃ groups' orders', rest.foldl placeProfile (groups, orders) = (groups', orders') ∧
        PlacedProfiles targets (passed ++ rest) groups' orders'
  | [], passed, groups, orders, _, _, h => ⟨groups, orders, rfl, by simpa using h⟩
  | profile :: rest, passed, groups, orders, hnodup, htargets, h => by
    have hnew : profile.target ∉ passed.map SelectedBuild.target := by
      rw [List.map_append, List.map_cons] at hnodup
      exact fun hmem => (List.nodup_append.mp hnodup).2.2 _ hmem _ (by simp) rfl
    have hstart : PlacedPeers groups profile.target [] [] := by
      refine ⟨.nil, List.nodup_nil, fun index => ⟨by simp, fun hheld => ?_⟩⟩
      exact absurd (h.only index profile.target hheld) hnew
    obtain ⟨groups₁, order, hfold, hvalid, hplaced, hother, honly⟩ :=
      foldl_placeUnit_spec (htargets profile (by simp)) profile.units h.valid hstart
    have hstep : PlacedProfiles targets (passed ++ [profile]) groups₁
        (orders ++ [(profile.target, order)]) := by
      refine ⟨hvalid, List.rel_append ?_ (.cons ⟨rfl, by simpa using hplaced⟩ .nil),
        fun index target hheld => ?_⟩
      · refine forall₂_imp_of_mem h.placed fun other hmem entry _ hentry => ⟨hentry.1, ?_⟩
        refine hother other.target other.units entry.2 (fun heq => hnew ?_) hentry.2
        exact List.mem_map.mpr ⟨other, hmem, heq⟩
      · rw [List.map_append, List.mem_append]
        rcases honly index target hheld with rfl | hheld
        · exact Or.inr (by simp)
        · exact Or.inl (h.only index target hheld)
    obtain ⟨groups₂, orders₂, hrest, hfinal⟩ := foldl_placeProfile_spec rest
      (by simpa using hnodup) (fun other hmem => htargets other (by simp [hmem])) hstep
    refine ⟨groups₂, orders₂, ?_, by simpa using hfinal⟩
    rw [List.foldl_cons, placeProfile, hfold, hrest]

theorem placed_ordered {targets : List String} {selected : List SelectedBuild}
    {groups : List (SelectedUnit × CapturedUnit)} {orders : List (String × List ℕ)}
    (h : PlacedProfiles targets selected groups orders)
    (hnodup : (selected.map SelectedBuild.target).Nodup) (result : CapturedBuild)
    {profile : SelectedBuild} (hprofile : profile ∈ selected) (hne : profile.units ≠ []) :
    Ordered { result with units := groups.map Prod.snd, ordersByTarget := orders } profile := by
  have hkeys : orders.map Prod.fst = selected.map SelectedBuild.target :=
    map_eq_of_forall₂ (h.placed.imp fun _ _ hentry => hentry.1)
  obtain ⟨⟨target, order⟩, hentry, rfl, hplaced⟩ := exists_of_forall₂_left h.placed hprofile
  have hheld : ∀ index, held groups index profile.target =
      (groups.map Prod.snd)[index]?.bind fun unit => unit.pathsByTarget.lookup profile.target :=
    fun index => by
      rw [List.getElem?_map, held]
      cases groups[index]? <;> rfl
  refine .permuted order ((Association.lookup_eq_some_iff_mem (hkeys ▸ hnodup)).mpr hentry) hne
    (hplaced.captures.imp fun native index hcapture => ?_) hplaced.nodup fun index => ?_
  · obtain ⟨hcapture, hmember⟩ := hcapture
    rw [hheld, Option.bind_eq_some_iff] at hcapture
    obtain ⟨unit, hunit, hcapture⟩ := hcapture
    refine ⟨unit, hunit, hcapture, ?_⟩
    rw [List.getElem?_map, Option.map_eq_some_iff] at hunit
    obtain ⟨group, hgroup, rfl⟩ := hunit
    rw [memberAt, hgroup] at hmember
    exact Option.some.inj hmember
  · rw [hplaced.mem, CapturedBuild.mem_present, hheld, Option.isSome_bind]
    simp [Option.any_eq_true]

/-! ## The combination -/

theorem grouped_ordered {selected : List SelectedBuild} {kind : String}
    (hnodup : (selected.map SelectedBuild.target).Nodup) (hkind : ∀ profile ∈ selected,
      kind = profile.kind) (hstatic : kind ≠ "static") (result : CapturedBuild)
    (horders : result.ordersByTarget = []) (optimization : String) {profile : SelectedBuild}
    (hprofile : profile ∈ selected) :
    Ordered { result with
      units := [⟨selected.map fun profile => (profile.target, profile.units.map SelectedUnit.capture),
        optimization, ""⟩] } profile := by
  have hlookup : (selected.map fun profile =>
      (profile.target, profile.units.map SelectedUnit.capture)).lookup profile.target =
        some (profile.units.map SelectedUnit.capture) := by
    rw [Association.lookup_eq_some_iff_mem (by simpa [Function.comp_def] using hnodup)]
    exact List.mem_map.mpr ⟨profile, hprofile, rfl⟩
  refine .inOrder (by simp [horders]) ?_
  rw [CapturedBuild.captures, List.flatMap_singleton, hlookup, Option.getD_some, List.map_map]
  refine List.forall₂_map_right_iff.mpr (List.forall₂_same.mpr fun native _ => ⟨rfl, fun h => ?_⟩)
  exact absurd ((hkind profile hprofile).trans h) hstatic

/-- The combination of captures has the native units of each profile. -/
theorem combineSelected_ok {selected : List SelectedBuild} {captured : CapturedBuild}
    (h : combineSelected selected = .ok captured) : Combined selected captured := by
  unfold combineSelected at h
  obtain ⟨first, hfirst, h⟩ := bind_ok.mp h
  obtain ⟨labels, hlabels, h⟩ := bind_ok.mp h
  have hchecked := foldlM_checkProfile_ok hlabels
  have hmem : first ∈ selected := List.mem_of_head? (require_ok.mp hfirst)
  have hne : selected ≠ [] := List.ne_nil_of_mem hmem
  split at h
  · rename_i peers hpeers
    obtain rfl := Except.ok.inj h
    have hprofiles : ProfilePeers first.units selected peers :=
      (mapM_some.mp hpeers).imp fun profile entry hentry => by
        obtain ⟨ps, hps, rfl⟩ := Option.map_eq_some_iff.mp hentry
        exact ⟨rfl, peersOf_some hps⟩
    have htargets := hprofiles.targets
    refine ⟨⟨hchecked.nodup, hchecked.registered⟩, hchecked.kind,
      fun unit hunit => correspondingUnit_valid hprofiles hchecked.nodup hne hunit,
      ⟨(htargets ▸ hchecked.nodup).sublist (orders_sublist peers), fun entry hentry => ?_⟩,
      fun profile hprofile => corresponding_ordered hprofiles hchecked.nodup _ hprofile⟩
    exact htargets ▸ (orders_sublist peers).subset (List.mem_map.mpr ⟨entry, hentry, rfl⟩)
  · obtain ⟨settings, -, h⟩ := bind_ok.mp h
    obtain ⟨_, hunits, h⟩ := bind_ok.mp h
    have hunits := ensure_ok.mp hunits
    split at h
    · rename_i hcommon
      obtain rfl := Except.ok.inj h
      have hstatic : first.kind ≠ "static" := by
        simpa using ((Bool.and_eq_true _ _).mp hcommon).1
      refine ⟨⟨hchecked.nodup, hchecked.registered⟩, hchecked.kind, fun unit hunit => ?_,
        ⟨by simp [combinedLinks], by simp [combinedLinks]⟩, fun profile hprofile =>
          grouped_ordered hchecked.nodup hchecked.kind hstatic _ rfl _ hprofile⟩
      obtain rfl := List.mem_singleton.mp hunit
      refine ⟨by simpa using hne, by simpa [Function.comp_def] using hchecked.nodup,
        fun entry hentry => ?_, fun entry hentry => ?_⟩
      · obtain ⟨profile, hprofile, rfl⟩ := List.mem_map.mp hentry
        exact List.mem_map.mpr ⟨profile, hprofile, rfl⟩
      · obtain ⟨profile, hprofile, rfl⟩ := List.mem_map.mp hentry
        simpa using hunits profile hprofile
    · obtain rfl := Except.ok.inj h
      have hstart : PlacedProfiles (selected.map SelectedBuild.target) [] [] [] :=
        ⟨by simp, .nil, by simp [held]⟩
      obtain ⟨groups, orders, hfold, hplaced⟩ := foldl_placeProfile_spec selected
        (by simpa using hchecked.nodup)
        (fun profile hprofile => List.mem_map.mpr ⟨profile, hprofile, rfl⟩) hstart
      have hkeys : orders.map Prod.fst = selected.map SelectedBuild.target :=
        map_eq_of_forall₂ (hplaced.placed.imp fun _ _ hentry => hentry.1)
      rw [hfold]
      refine ⟨⟨hchecked.nodup, hchecked.registered⟩, hchecked.kind, fun unit hunit => ?_,
        ⟨hkeys ▸ hchecked.nodup, fun entry hentry => ?_⟩,
        fun profile hprofile => placed_ordered hplaced hchecked.nodup _ hprofile
          (hunits profile hprofile)⟩
      · obtain ⟨group, hgroup, rfl⟩ := List.mem_map.mp hunit
        exact (hplaced.valid group hgroup).unit
      · exact hkeys ▸ List.mem_map.mpr ⟨entry, hentry, rfl⟩

/-! ## Settings -/

/-- Profiles that link with the same. -/
def SameSettings (selected : List SelectedBuild) : Prop :=
  ∀ profile ∈ selected, ∀ other ∈ selected, profile.settings = other.settings

/-- What each profile links with, by its target. -/
def settingsByTarget (selected : List SelectedBuild) : LinkPlan :=
  selected.map fun profile => (profile.target, profile.settings)

/-- The settings of a combination : those of every profile, or those of each by its target. -/
structure CombinedSettings (selected : List SelectedBuild) (captured : CapturedBuild) : Prop where
  same : SameSettings selected → captured.linksByTarget = [] ∧
    ∀ profile ∈ selected, captured.settings = profile.settings
  other : ¬ SameSettings selected → captured.settings = ⟨[], [], ""⟩ ∧
    captured.linksByTarget = settingsByTarget selected

theorem combinedLinks.common_iff {first : SelectedBuild} {selected : List SelectedBuild}
    (hfirst : first ∈ selected) : combinedLinks.common first selected = true ↔ SameSettings selected := by
  have hsettings : combinedLinks.common first selected = true ↔
      ∀ profile ∈ selected, profile.settings = first.settings := by
    simp [combinedLinks.common, SelectedBuild.settings, and_assoc]
  rw [hsettings]
  exact ⟨fun h profile hprofile other hother => (h profile hprofile).trans (h other hother).symm,
    fun h profile hprofile => h profile hprofile first hfirst⟩

theorem combinedLinks_settings {first : SelectedBuild} {selected : List SelectedBuild}
    (hfirst : first ∈ selected) : CombinedSettings selected (combinedLinks first selected) := by
  have hcommon := combinedLinks.common_iff hfirst
  refine ⟨fun h => ⟨by simp [combinedLinks, hcommon.mpr h], fun profile hprofile => ?_⟩, fun h => ?_⟩
  · rw [h profile hprofile first hfirst]
    simp [combinedLinks, CapturedBuild.settings, SelectedBuild.settings, hcommon.mpr h]
  · have hnot : combinedLinks.common first selected = false := by
      rw [← Bool.not_eq_true, hcommon]
      exact h
    exact ⟨by simp [combinedLinks, CapturedBuild.settings, hnot],
      by simp [combinedLinks, settingsByTarget, SelectedBuild.settings, hnot]⟩

/-- The settings of the combination of captures. -/
theorem combineSelected_settings {selected : List SelectedBuild} {captured : CapturedBuild}
    (h : combineSelected selected = .ok captured) : CombinedSettings selected captured := by
  unfold combineSelected at h
  obtain ⟨first, hfirst, h⟩ := bind_ok.mp h
  obtain ⟨_, -, h⟩ := bind_ok.mp h
  obtain ⟨hsame, hother⟩ := combinedLinks_settings (List.mem_of_head? (require_ok.mp hfirst))
  split at h
  · obtain rfl := Except.ok.inj h
    exact ⟨hsame, hother⟩
  · obtain ⟨_, -, h⟩ := bind_ok.mp h
    obtain ⟨_, -, h⟩ := bind_ok.mp h
    split at h
    · obtain rfl := Except.ok.inj h
      exact ⟨hsame, hother⟩
    · obtain rfl := Except.ok.inj h
      exact ⟨hsame, hother⟩

end Sela
