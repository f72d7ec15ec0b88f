import Mathlib.Data.List.Perm.Subperm
import Sela.Association
import Sela.Checked
import Sela.Grouping
import Sela.LengthPrefixed
import Sela.Targets

/-!
# Partitions of native captures

Each target observes a build as a list of native units. Where the definitions are the
same on every target, the units are cut into fragments, the common refinement of the
targets' partitions (`mergeProvedPartitions`); otherwise whole units with the same
definitions are grouped, one capture of a target in a group (`mergeScopedPartitions`).
The result lists for each target the fragments of each of its units.

On both ways the plan of a target is an exact cover : every fragment the target has is
listed once (`mergeProfilePartitions_cover`). Reading, cutting, linking back and writing
native modules and importing a fragment are the tools' own work (`NativeTools`); each may
refuse, and none changes the plan.
-/

namespace Sela

open Checked

/-- A global value of a native module. Its name is a string of bytes, one character
each. -/
structure GlobalValue where
  name : String
  isDeclaration : Bool
  hasLocalLinkage : Bool
  hasAvailableExternallyLinkage : Bool
  hasExternalLinkage : Bool
  deriving DecidableEq

/-- The work on native modules that is not the planner's : reading and verifying a
capture, the qualification and the proof of a split, slicing, writing, and the import of
one fragment from all its captures. No two global values of a module have one name, and a
slice of a module qualified for a split keeps its declarations and the definitions asked
for, in order. -/
structure NativeTools (M : Type) where
  parseIRFile : String → Option M
  globalValues : M → List GlobalValue
  names_nodup : ∀ module,
    (((globalValues module).map GlobalValue.name).filter fun name => name ≠ "").Nodup
  qualifySplit : M → Checked Unit
  slice : M → List String → Checked M
  slice_values : ∀ module definitions fragment, qualifySplit module = .ok () →
    slice module definitions = .ok fragment →
    globalValues fragment = (globalValues module).filter fun value =>
      value.isDeclaration || definitions.contains value.name
  writeCapture : M → String → Checked Unit
  provePartition : M → List M → Checked Unit
  mergeProfiles : List (String × String) → String → Checked Unit

structure ProfilePartitionInput where
  target : String
  captures : List String

structure MergedPartitions where
  fragments : List String
  fragmentTargets : List (List String)
  unitsByTarget : List (String × List (List ℕ))

variable {M : Type} (tools : NativeTools M)

/-! ## Ownership -/

/-- The unit that defines each external name. -/
abbrev Ownership := List (String × ℕ)

/-- The definitions of a module that other modules see. -/
def externals (module : M) : List GlobalValue :=
  (tools.globalValues module).filter fun value =>
    !(value.isDeclaration || value.hasLocalLinkage || value.hasAvailableExternallyLinkage)

/-- Record the owner of one definition. -/
def own (unit : ℕ) (owners : Ownership) (value : GlobalValue) : Checked Ownership := do
  ensure (value.hasExternalLinkage = true ∧ value.name ≠ "" ∧ owners.lookup value.name = none)
    ("ambiguous grouped native definition: " ++ value.name)
  pure (owners ++ [(value.name, unit)])

/-- Read captures from the `unit`-th on, and record who owns their definitions. -/
def loadFrom : List String → ℕ → Ownership → Checked (List M × Ownership)
  | [], _, owners => pure ([], owners)
  | path :: paths, unit, owners => do
    let module ← require (tools.parseIRFile path) ("invalid grouped native capture: " ++ path)
    let owners ← (externals tools module).foldlM (own unit) owners
    ensure (externals tools module ≠ [])
      ("grouped native unit lacks a unique external definition: " ++ path)
    let (modules, owners) ← loadFrom paths (unit + 1) owners
    pure (module :: modules, owners)

def load (paths : List String) : Checked (List M × Ownership) := do
  ensure (paths ≠ [] ∧ paths.length ≤ 256) "invalid grouped native capture inventory"
  loadFrom tools paths 0 []

/-- The captures of one target, read. -/
structure Profile (M : Type) where
  target : String
  captures : List String
  modules : List M
  owners : Ownership

/-- The definitions of a later target are those of the first. -/
def matchFirst (profiles : List (Profile M)) (owners : Ownership) : Checked Unit :=
  match profiles with
  | [] => pure ()
  | first :: _ => do
    ensure (owners.length = first.owners.length)
      "target-conditioned definition presence needs additional common IR semantics"
    first.owners.forM fun entry =>
      ensure (owners.lookup entry.1).isSome ("unmatched grouped native definition: " ++ entry.1)

/-- Read the captures of one target after the others. -/
def loadProfile (profiles : List (Profile M)) (observation : ProfilePartitionInput) :
    Checked (List (Profile M)) := do
  ensure ((targets.find observation.target).isSome ∧
      observation.target ∉ profiles.map Profile.target)
    "unknown or duplicate grouped target observation"
  let (modules, owners) ← load tools observation.captures
  matchFirst profiles owners
  pure (profiles ++ [⟨observation.target, observation.captures, modules, owners⟩])

def loadProfiles (observations : List ProfilePartitionInput) : Checked (List (Profile M)) := do
  ensure (observations ≠ [] ∧ observations.length ≤ 256)
    "invalid grouped target observation inventory"
  observations.foldlM (loadProfile tools) []

/-! ## The common refinement -/

/-- The names a unit owns, in physical order. -/
def ownedNames (owners : Ownership) (unit : ℕ) (module : M) : List String :=
  ((tools.globalValues module).map GlobalValue.name).filter fun name =>
    owners.lookup name = some unit

/-- The owning unit of a name in each target. -/
def ownerVector (profiles : List (Profile M)) (name : String) : List ℕ :=
  profiles.map fun profile => (profile.owners.lookup name).getD 0

/-- The names the first target defines, in physical order. -/
def firstNames (profiles : List (Profile M)) : List String :=
  profiles.head?.toList.flatMap fun first =>
    first.modules.zipIdx.flatMap fun (module, unit) => ownedNames tools first.owners unit module

/-- The fragments : the names with the same owner in every target, in the physical order of
the first target. -/
def fragmentsOf (profiles : List (Profile M)) : List (List ℕ × List String) :=
  Grouping.groupBy (ownerVector profiles) (firstNames tools profiles)

/-- The fragment of a name. -/
def fragmentIndex (profiles : List (Profile M)) (name : String) : ℕ :=
  ((fragmentsOf tools profiles).map Prod.fst).idxOf (ownerVector profiles name)

/-- The fragments of one unit, by their first definition in it. -/
def unitFragments (profiles : List (Profile M)) (owners : Ownership) (unit : ℕ) (module : M) :
    List ℕ :=
  Grouping.distinct ((ownedNames tools owners unit module).map (fragmentIndex tools profiles))

/-- The units of one target. -/
def unitsOf (profiles : List (Profile M)) (profile : Profile M) : List (List ℕ) :=
  profile.modules.zipIdx.map fun (module, unit) => unitFragments tools profiles profile.owners unit module

/-- The capture of each fragment of a unit : the original one where the unit is one
fragment, else a proved slice. -/
def sliceUnit (fragments : List (List ℕ × List String)) (directory target : String)
    (unit : List ℕ) (module : M) (path : String) : Checked (List (ℕ × String)) :=
  match unit with
  | [index] => pure [(index, path)]
  | unit => do
    tools.qualifySplit module
    let slices ← unit.mapM fun index => do
      let fragment ← tools.slice module ((fragments[index]?.map Prod.snd).getD [])
      let path := directory ++ "/" ++ target ++ "-" ++ toString index ++ ".bc"
      tools.writeCapture fragment path
      pure (fragment, index, path)
    tools.provePartition module (slices.map Prod.fst)
    pure (slices.map Prod.snd)

/-- The capture of each fragment on one target. -/
def slicePaths (profiles : List (Profile M)) (directory : String) (profile : Profile M) :
    Checked (List (ℕ × String)) := do
  let paths ← ((unitsOf tools profiles profile).zip (profile.modules.zip profile.captures)).mapM
    fun (unit, module, path) =>
      sliceUnit tools (fragmentsOf tools profiles) directory profile.target unit module path
  pure paths.flatten

/-- Cut the units of every target into common fragments. -/
def mergeProvedPartitions (observations : List ProfilePartitionInput) (directory : String) :
    Checked MergedPartitions := do
  let profiles ← loadProfiles tools observations
  let fragmentPaths ← profiles.mapM (slicePaths tools profiles directory)
  let fragments ← (List.range (fragmentsOf tools profiles).length).mapM fun index => do
    let output := directory ++ "/fragment-" ++ toString index ++ ".selabc"
    tools.mergeProfiles ((profiles.zip fragmentPaths).map fun (profile, paths) =>
      (profile.target, (paths.lookup index).getD "")) output
    pure output
  pure
    { fragments
      fragmentTargets := fragments.map fun _ => observations.map ProfilePartitionInput.target
      unitsByTarget := profiles.map fun profile => (profile.target, unitsOf tools profiles profile) }

/-! ## Grouping of whole units -/

/-- Units of several targets with the same definitions. -/
structure CaptureGroup where
  key : String
  captures : List (String × String)

/-- The targets that have a capture in a group. -/
def CaptureGroup.targets (group : CaptureGroup) : List String := group.captures.map Prod.fst

/-- The names a module defines, in order. -/
def definitionNames (module : M) : List String :=
  (((tools.globalValues module).filter fun value => !value.isDeclaration).map
    GlobalValue.name).eraseDups.mergeSort

/-- The key of a module : the names it defines. -/
def definitionKey (module : M) : String := LengthPrefixed.encode (definitionNames tools module)

/-- Put one capture of `target` into the first group of its key that the target is not in. -/
def groupCapture (target : String) (state : List CaptureGroup × List (List ℕ)) (path : String) :
    Checked (List CaptureGroup × List (List ℕ)) := do
  let module ← require (tools.parseIRFile path) ("invalid scoped native capture: " ++ path)
  let key := definitionKey tools module
  let placed := Grouping.place
    (fun group : CaptureGroup => group.key == key && !decide (target ∈ group.targets))
    (fun group => { group with captures := group.captures ++ [(target, path)] })
    ⟨key, [(target, path)]⟩ state.1
  pure (placed.1, state.2 ++ [[placed.2]])

/-- The groups so far and the units of the targets so far. -/
structure ScopedState where
  groups : List CaptureGroup
  unitsByTarget : List (String × List (List ℕ))

/-- Group the captures of one target after the others. -/
def groupTarget (state : ScopedState) (observation : ProfilePartitionInput) :
    Checked ScopedState := do
  ensure ((targets.find observation.target).isSome ∧
      observation.target ∉ state.unitsByTarget.map Prod.fst ∧ observation.captures ≠ [] ∧
      observation.captures.length ≤ 256) "invalid grouped target capture inventory"
  let (groups, units) ← observation.captures.foldlM (groupCapture tools observation.target)
    (state.groups, [])
  pure ⟨groups, state.unitsByTarget ++ [(observation.target, units)]⟩

/-- Group whole units of several targets by the names they define. -/
def mergeScopedPartitions (observations : List ProfilePartitionInput) (directory : String) :
    Checked MergedPartitions := do
  ensure (observations ≠ [] ∧ observations.length ≤ 256) "invalid grouped observation inventory"
  let state ← observations.foldlM (groupTarget tools) ⟨[], []⟩
  let fragments ← state.groups.zipIdx.mapM fun (group, index) => do
    let output := directory ++ "/scoped-fragment-" ++ toString index ++ ".selabc"
    tools.mergeProfiles group.captures output
    pure output
  pure
    { fragments
      fragmentTargets := state.groups.map CaptureGroup.targets
      unitsByTarget := state.unitsByTarget }

/-- The proved partition where there is one, else the grouping of whole units. -/
def mergeProfilePartitions (observations : List ProfilePartitionInput) (directory : String) :
    Checked MergedPartitions :=
  match mergeProvedPartitions tools observations directory with
  | .ok shared => .ok shared
  | .error _ => mergeScopedPartitions tools observations directory

/-! ## What a plan is -/

/-- The plan of one target lists every fragment the target has, once, and no other; each of
its captures has a unit that is not empty. -/
structure ExactCover (result : MergedPartitions) (target : String) (captures : List String)
    (units : List (List ℕ)) : Prop where
  nodup : units.flatten.Nodup
  mem : ∀ fragment, fragment ∈ units.flatten ↔
    ∃ domain, result.fragmentTargets[fragment]? = some domain ∧ target ∈ domain
  length : units.length = captures.length
  nonempty : ∀ unit ∈ units, unit ≠ []

/-- The names a module defines for other modules. -/
def externalNames (module : M) : List String := (externals tools module).map GlobalValue.name

/-- One unit of a proved partition and its capture : each external definition of the capture
is in exactly one fragment of the unit, the fragments have no others, and they stand in the
order of their first definition in the capture. -/
structure ProvedUnit (fragments : List (List String)) (module : M) (unit : List ℕ) : Prop where
  covered : ∀ name ∈ externalNames tools module, ∃! fragment, fragment ∈ unit ∧
    ∃ definitions, fragments[fragment]? = some definitions ∧ name ∈ definitions
  only : ∀ fragment ∈ unit, ∃ definitions, fragments[fragment]? = some definitions ∧
    ∀ name ∈ definitions, name ∈ externalNames tools module
  order : unit.Pairwise fun fragment later =>
    (externalNames tools module).findIdx (· ∈ (fragments[fragment]?).getD []) <
      (externalNames tools module).findIdx (· ∈ (fragments[later]?).getD [])

/-! ## Ownership of what was read -/

/-- Every external name of the modules has its module as its one owner. -/
structure Owns (modules : List M) (owners : Ownership) : Prop where
  nodup : (owners.map Prod.fst).Nodup
  named : ∀ entry ∈ owners, entry.1 ≠ ""
  mem : ∀ name unit, (name, unit) ∈ owners ↔
    ∃ module, modules[unit]? = some module ∧ name ∈ externalNames tools module

variable {tools}

theorem Owns.lookup {modules : List M} {owners : Ownership} (h : Owns tools modules owners)
    {name : String} {unit : ℕ} : owners.lookup name = some unit ↔
      ∃ module, modules[unit]? = some module ∧ name ∈ externalNames tools module :=
  (Association.lookup_eq_some_iff_mem h.nodup).trans (h.mem name unit)

/-- Recording the definitions of one module appends them, all of new names. -/
theorem foldlM_own {unit : ℕ} :
    ∀ {values : List GlobalValue} {owners owners' : Ownership}, (owners.map Prod.fst).Nodup →
      values.foldlM (own unit) owners = .ok owners' →
      owners' = owners ++ values.map (fun value => (value.name, unit)) ∧
        (owners'.map Prod.fst).Nodup ∧ ∀ value ∈ values, value.name ≠ ""
  | [], owners, owners', hnodup, h => by
    obtain rfl : owners = owners' := by simpa using h
    exact ⟨by simp, hnodup, by simp⟩
  | value :: values, owners, owners', hnodup, h => by
    obtain ⟨next, hnext, h⟩ := foldlM_cons_ok.mp h
    obtain ⟨_, hensure, hnext⟩ := bind_ok.mp hnext
    obtain ⟨-, hname, hnew⟩ := ensure_ok.mp hensure
    obtain rfl : _ = next := Except.ok.inj hnext
    have hfresh : value.name ∉ owners.map Prod.fst := by
      intro hmem
      obtain ⟨entry, hentry, hname⟩ := List.mem_map.mp hmem
      have := List.lookup_eq_none_iff.mp hnew entry hentry
      simp [hname] at this
    have hnodup' : ((owners ++ [(value.name, unit)]).map Prod.fst).Nodup := by
      rw [List.map_append, List.nodup_append]
      refine ⟨hnodup, by simp, ?_⟩
      rintro a ha b hb rfl
      exact hfresh (by simpa [List.mem_singleton.mp hb] using ha)
    obtain ⟨rfl, hnodup', hnames⟩ := foldlM_own hnodup' h
    exact ⟨by simp, hnodup', List.forall_mem_cons.mpr ⟨hname, hnames⟩⟩

/-- Reading further captures extends the ownership by theirs. -/
theorem loadFrom_ok :
    ∀ {paths : List String} {before modules : List M} {owners owners' : Ownership},
      Owns tools before owners →
      loadFrom tools paths before.length owners = .ok (modules, owners') →
      Owns tools (before ++ modules) owners' ∧
        List.Forall₂ (fun path module => tools.parseIRFile path = some module ∧
          externals tools module ≠ []) paths modules
  | [], before, modules, owners, owners', howns, h => by
    obtain ⟨rfl, rfl⟩ := Prod.mk.inj (Except.ok.inj h)
    exact ⟨by simpa using howns, List.Forall₂.nil⟩
  | path :: paths, before, modules, owners, owners', howns, h => by
    unfold loadFrom at h
    obtain ⟨module, hmodule, h⟩ := bind_ok.mp h
    obtain ⟨next, hnext, h⟩ := bind_ok.mp h
    obtain ⟨_, hexternals, h⟩ := bind_ok.mp h
    obtain ⟨⟨rest, owners''⟩, hrest, h⟩ := bind_ok.mp h
    obtain ⟨rfl, rfl⟩ := Prod.mk.inj (Except.ok.inj h)
    obtain ⟨rfl, hnodup, hnames⟩ := foldlM_own howns.nodup hnext
    have hnext : Owns tools (before ++ [module])
        (owners ++ (externals tools module).map fun value => (value.name, before.length)) := by
      have hnamed : ∀ entry ∈ owners ++ (externals tools module).map fun value =>
          (value.name, before.length), entry.1 ≠ "" := by
        intro entry hentry
        rcases List.mem_append.mp hentry with hentry | hentry
        · exact howns.named entry hentry
        · obtain ⟨value, hvalue, rfl⟩ := List.mem_map.mp hentry
          exact hnames value hvalue
      refine ⟨hnodup, hnamed, fun name unit => ?_⟩
      rw [List.mem_append, howns.mem]
      have hnew : (name, unit) ∈ (externals tools module).map (fun value =>
          (value.name, before.length)) ↔ unit = before.length ∧
            name ∈ externalNames tools module := by
        simp only [externalNames, List.mem_map, Prod.mk.injEq]
        constructor
        · rintro ⟨value, hvalue, rfl, rfl⟩
          exact ⟨rfl, value, hvalue, rfl⟩
        · rintro ⟨rfl, value, hvalue, rfl⟩
          exact ⟨value, hvalue, rfl, rfl⟩
      rw [hnew]
      constructor
      · rintro (⟨owner, howner, hname⟩ | ⟨rfl, hname⟩)
        · obtain ⟨hlt, -⟩ := List.getElem?_eq_some_iff.mp howner
          exact ⟨owner, by rwa [List.getElem?_append_left hlt], hname⟩
        · exact ⟨module, by simp, hname⟩
      · rintro ⟨owner, howner, hname⟩
        rcases Nat.lt_or_ge unit before.length with hlt | hge
        · exact Or.inl ⟨owner, by rwa [List.getElem?_append_left hlt] at howner, hname⟩
        · rw [List.getElem?_append_right hge] at howner
          obtain ⟨hlt, rfl⟩ := List.getElem?_eq_some_iff.mp howner
          have hunit : unit = before.length := by simp at hlt; omega
          exact Or.inr ⟨hunit, by simpa [hunit] using hname⟩
    obtain ⟨howns', hread⟩ := loadFrom_ok hnext (by simpa using hrest)
    exact ⟨by simpa using howns',
      List.Forall₂.cons ⟨require_ok.mp hmodule, ensure_ok.mp hexternals⟩ hread⟩

/-- Within a module the owned names are its external names, in physical order. -/
theorem Owns.ownedNames_eq {modules : List M} {owners : Ownership} (h : Owns tools modules owners)
    {unit : ℕ} {module : M} (hmodule : modules[unit]? = some module) :
    ownedNames tools owners unit module = externalNames tools module := by
  have howned : ∀ name, owners.lookup name = some unit ↔ name ∈ externalNames tools module := by
    intro name
    rw [h.lookup, hmodule]
    simp
  have hexternal : ∀ value ∈ tools.globalValues module,
      owners.lookup value.name = some unit ↔ value ∈ externals tools module := by
    intro value hvalue
    rw [howned]
    refine ⟨fun hname => ?_, fun hmem => List.mem_map_of_mem hmem⟩
    obtain ⟨other, hother, heq⟩ := List.mem_map.mp hname
    have hne : value.name ≠ "" := by
      have hmem : (value.name, unit) ∈ owners := (h.mem _ _).mpr ⟨module, hmodule, hname⟩
      exact h.named _ hmem
    -- Two values of one name that is not empty are the same value.
    have hnodup := tools.names_nodup module
    rw [List.filter_map] at hnodup
    have hsame : other = value := List.inj_on_of_nodup_map hnodup
      (List.mem_filter.mpr ⟨List.mem_of_mem_filter hother, by simpa [heq] using hne⟩)
      (List.mem_filter.mpr ⟨hvalue, by simpa using hne⟩) heq
    exact hsame ▸ hother
  unfold ownedNames externalNames externals
  rw [List.filter_map]
  congr 1
  refine List.filter_congr fun value hvalue => ?_
  have := hexternal value hvalue
  simp only [externals, List.mem_filter, hvalue, true_and] at this
  exact Bool.eq_iff_iff.mpr (by simpa using this)

/-- A profile holds the captures of a target as they were read. -/
structure Profile.Loaded (tools : NativeTools M) (profile : Profile M) : Prop where
  owns : Owns tools profile.modules profile.owners
  read : List.Forall₂ (fun path module => tools.parseIRFile path = some module ∧
    externals tools module ≠ []) profile.captures profile.modules

theorem load_ok {paths : List String} {modules : List M} {owners : Ownership}
    (h : load tools paths = .ok (modules, owners)) :
    Owns tools modules owners ∧ List.Forall₂ (fun path module =>
      tools.parseIRFile path = some module ∧ externals tools module ≠ []) paths modules := by
  unfold load at h
  obtain ⟨_, -, h⟩ := bind_ok.mp h
  have hnone : Owns tools [] [] := ⟨by simp, by simp, by simp⟩
  exact loadFrom_ok hnone h

/-- The profiles of a build : its observations as they were read, with distinct targets and
the same definitions on each. -/
structure LoadedProfiles (tools : NativeTools M) (observations : List ProfilePartitionInput)
    (profiles : List (Profile M)) : Prop where
  observed : List.Forall₂ (fun observation profile => profile.target = observation.target ∧
    profile.captures = observation.captures ∧ profile.Loaded tools) observations profiles
  nodup : (profiles.map Profile.target).Nodup
  names : ∀ p ∈ profiles, ∀ q ∈ profiles, ∀ name,
    name ∈ p.owners.map Prod.fst ↔ name ∈ q.owners.map Prod.fst

theorem matchFirst_ok {first : Profile M} {rest : List (Profile M)} {owners : Ownership} {u : Unit}
    (hfirst : (first.owners.map Prod.fst).Nodup)
    (h : matchFirst (first :: rest) owners = .ok u) (name : String) :
    name ∈ owners.map Prod.fst ↔ name ∈ first.owners.map Prod.fst := by
  unfold matchFirst at h
  obtain ⟨_, hlength, h⟩ := bind_ok.mp h
  have hlength := ensure_ok.mp hlength
  have hsubset : first.owners.map Prod.fst ⊆ owners.map Prod.fst := by
    intro name hname
    obtain ⟨entry, hentry, rfl⟩ := List.mem_map.mp hname
    have hsome := ensure_ok.mp (forM_ok.mp h entry hentry)
    obtain ⟨unit, hunit⟩ := Option.isSome_iff_exists.mp hsome
    obtain ⟨before, after, rfl, -⟩ := List.lookup_eq_some_iff.mp hunit
    simp
  have hperm : (first.owners.map Prod.fst).Perm (owners.map Prod.fst) :=
    (List.subperm_of_subset hfirst hsubset).perm_of_length_le (by simp [hlength])
  exact hperm.mem_iff.symm

theorem loadProfiles_ok {observations : List ProfilePartitionInput}
    {profiles : List (Profile M)} (h : loadProfiles tools observations = .ok profiles) :
    LoadedProfiles tools observations profiles := by
  unfold loadProfiles at h
  obtain ⟨_, -, h⟩ := bind_ok.mp h
  refine foldlM_invariant (LoadedProfiles tools) ⟨List.Forall₂.nil, by simp, by simp⟩ ?_ h
  intro passed observation rest profiles profiles' _ hloaded hstep
  unfold loadProfile at hstep
  obtain ⟨_, hensure, hstep⟩ := bind_ok.mp hstep
  obtain ⟨-, hnew⟩ := ensure_ok.mp hensure
  obtain ⟨⟨modules, owners⟩, hload, hstep⟩ := bind_ok.mp hstep
  obtain ⟨_, hmatch, hstep⟩ := bind_ok.mp hstep
  obtain rfl : _ = profiles' := Except.ok.inj hstep
  obtain ⟨howns, hread⟩ := load_ok hload
  have hnames : ∀ p ∈ profiles, ∀ name,
      name ∈ owners.map Prod.fst ↔ name ∈ p.owners.map Prod.fst := by
    intro p hp name
    cases profiles with
    | nil => simp at hp
    | cons first others =>
      have hfirst : first.Loaded tools := by
        obtain ⟨_, _, ⟨-, -, hfirst⟩, -, -⟩ := List.forall₂_cons_right_iff.mp hloaded.observed
        exact hfirst
      exact (matchFirst_ok hfirst.owns.nodup hmatch name).trans (hloaded.names first (by simp) p hp name)
  refine ⟨List.rel_append hloaded.observed (List.Forall₂.cons ⟨rfl, rfl, howns, hread⟩
    List.Forall₂.nil), ?_, ?_⟩
  · rw [List.map_append, List.nodup_append]
    refine ⟨hloaded.nodup, by simp, ?_⟩
    rintro target htarget _ htarget' rfl
    exact hnew (by simpa [List.mem_singleton.mp htarget'] using htarget)
  · intro p hp q hq name
    rcases List.mem_append.mp hp with hp | hp <;> rcases List.mem_append.mp hq with hq | hq
    · exact hloaded.names p hp q hq name
    · rw [List.mem_singleton.mp hq]
      exact (hnames p hp name).symm
    · rw [List.mem_singleton.mp hp]
      exact hnames q hq name
    · rw [List.mem_singleton.mp hp, List.mem_singleton.mp hq]

/-! ## The common refinement covers every unit -/

theorem findIdx_congr {α : Type} {p q : α → Bool} :
    ∀ {xs : List α}, (∀ x ∈ xs, p x = q x) → xs.findIdx p = xs.findIdx q
  | [], _ => rfl
  | x :: xs, h => by
    rw [List.findIdx_cons, List.findIdx_cons, h x (by simp),
      findIdx_congr fun y hy => h y (by simp [hy])]

/-- A name is in the fragment of its owners. -/
theorem fragment_of_name {profiles : List (Profile M)} {name : String}
    (hname : name ∈ firstNames tools profiles) :
    ∃ fragment, (fragmentsOf tools profiles)[fragmentIndex tools profiles name]? = some fragment ∧
      fragment.1 = ownerVector profiles name := by
  have hkey : ownerVector profiles name ∈ (fragmentsOf tools profiles).map Prod.fst :=
    (Grouping.groups_groupBy _ _).covers name hname
  have hlt := List.idxOf_lt_length_of_mem hkey
  have hget := List.getElem_idxOf hlt
  rw [List.getElem_map] at hget
  rw [List.length_map] at hlt
  exact ⟨_, List.getElem?_eq_getElem hlt, hget⟩

/-- The definitions of a fragment are the names that have it as their fragment. -/
theorem mem_fragment {profiles : List (Profile M)} {index : ℕ} {fragment : List ℕ × List String}
    (hfragment : (fragmentsOf tools profiles)[index]? = some fragment) {name : String} :
    name ∈ fragment.2 ↔
      name ∈ firstNames tools profiles ∧ fragmentIndex tools profiles name = index := by
  have hmem := List.mem_of_getElem? hfragment
  rw [Grouping.mem_group_iff hmem]
  constructor
  · rintro ⟨hname, hkey⟩
    refine ⟨hname, ?_⟩
    obtain ⟨hlt, hget⟩ := List.getElem?_eq_some_iff.mp hfragment
    have hkeys := Grouping.groupBy_nodup (ownerVector profiles) (firstNames tools profiles)
    have hindex := hkeys.idxOf_getElem index (by simpa [fragmentsOf] using hlt)
    rw [List.getElem_map] at hindex
    unfold fragmentIndex
    rw [hkey, ← hindex, ← hget]
    rfl
  · rintro ⟨hname, rfl⟩
    obtain ⟨other, hother, hkey⟩ := fragment_of_name hname
    rw [hfragment] at hother
    exact ⟨hname, by rw [Option.some.inj hother, hkey]⟩

section Refinement

variable {observations : List ProfilePartitionInput} {profiles : List (Profile M)}
  (hloaded : LoadedProfiles tools observations profiles)
include hloaded

theorem LoadedProfiles.loaded {profile : Profile M} (hprofile : profile ∈ profiles) :
    profile.Loaded tools := by
  obtain ⟨i, hi, rfl⟩ := List.mem_iff_getElem.mp hprofile
  obtain ⟨hlength, hget⟩ := List.forall₂_iff_get.mp hloaded.observed
  exact (hget i (hlength ▸ hi) hi).2.2

/-- Every target defines the names the first does. -/
theorem mem_firstNames {profile : Profile M} (hprofile : profile ∈ profiles) {name : String} :
    name ∈ firstNames tools profiles ↔ ∃ unit, profile.owners.lookup name = some unit := by
  have hmem : ∀ p : Profile M, p.Loaded tools →
      ((∃ unit, p.owners.lookup name = some unit) ↔ name ∈ p.owners.map Prod.fst) := by
    intro p hp
    constructor
    · rintro ⟨unit, hunit⟩
      exact List.mem_map.mpr ⟨_, (Association.lookup_eq_some_iff_mem hp.owns.nodup).mp hunit, rfl⟩
    · intro hname
      obtain ⟨⟨_, unit⟩, hentry, rfl⟩ := List.mem_map.mp hname
      exact ⟨unit, (Association.lookup_eq_some_iff_mem hp.owns.nodup).mpr hentry⟩
  cases hprofiles : profiles with
  | nil => simp [hprofiles] at hprofile
  | cons first rest =>
    have hfirst : first ∈ profiles := by simp [hprofiles]
    rw [hmem profile (hloaded.loaded hprofile), hloaded.names profile hprofile first hfirst name,
      ← hmem first (hloaded.loaded hfirst)]
    have howns := (hloaded.loaded hfirst).owns
    simp only [firstNames, List.head?_cons, Option.toList_some, List.flatMap_singleton,
      List.mem_flatMap, Prod.exists, List.mem_zipIdx_iff_getElem?]
    constructor
    · rintro ⟨module, unit, hmodule, hname⟩
      exact ⟨unit, by simpa using (List.mem_filter.mp hname).2⟩
    · rintro ⟨unit, hunit⟩
      obtain ⟨module, hmodule, hname⟩ := howns.lookup.mp hunit
      exact ⟨module, unit, hmodule, by rwa [howns.ownedNames_eq hmodule]⟩

/-- The definitions of a target are those of the first. -/
theorem LoadedProfiles.mem_names {profile : Profile M} (hprofile : profile ∈ profiles)
    {name : String} (hname : name ∈ profile.modules.flatMap (externalNames tools)) :
    name ∈ firstNames tools profiles := by
  obtain ⟨module, hmodule, hname⟩ := List.mem_flatMap.mp hname
  obtain ⟨unit, hunit⟩ := List.mem_iff_getElem?.mp hmodule
  exact (mem_firstNames hloaded hprofile).mpr
    ⟨unit, (hloaded.loaded hprofile).owns.lookup.mpr ⟨module, hunit, hname⟩⟩

/-- Two names share a fragment when they have the same owner in every target. -/
theorem sameFragment_iff {a b : String} (ha : a ∈ firstNames tools profiles)
    (hb : b ∈ firstNames tools profiles) :
    (∃ fragment ∈ fragmentsOf tools profiles, a ∈ fragment.2 ∧ b ∈ fragment.2) ↔
      ∀ profile ∈ profiles, profile.owners.lookup a = profile.owners.lookup b := by
  have hvector : ownerVector profiles a = ownerVector profiles b ↔
      ∀ profile ∈ profiles, profile.owners.lookup a = profile.owners.lookup b := by
    unfold ownerVector
    rw [List.map_inj_left]
    refine forall₂_congr fun profile hprofile => ?_
    obtain ⟨unit, hunit⟩ := (mem_firstNames hloaded hprofile).mp ha
    obtain ⟨unit', hunit'⟩ := (mem_firstNames hloaded hprofile).mp hb
    simp [hunit, hunit']
  rw [← hvector]
  constructor
  · rintro ⟨fragment, hfragment, hamem, hbmem⟩
    exact ((Grouping.mem_group_iff hfragment).mp hamem).2.trans
      ((Grouping.mem_group_iff hfragment).mp hbmem).2.symm
  · intro heq
    obtain ⟨fragment, hfragment, hkey⟩ := fragment_of_name ha
    have hmem := List.mem_of_getElem? hfragment
    exact ⟨fragment, hmem, (Grouping.mem_group_iff hmem).mpr ⟨ha, hkey.symm⟩,
      (Grouping.mem_group_iff hmem).mpr ⟨hb, by rw [hkey, heq]⟩⟩

section Unit

variable {profile : Profile M} (hprofile : profile ∈ profiles) {unit : ℕ} {module : M}
  (hmodule : profile.modules[unit]? = some module)
include hprofile hmodule

theorem mem_externalNames {name : String} :
    name ∈ externalNames tools module ↔ profile.owners.lookup name = some unit := by
  rw [(hloaded.loaded hprofile).owns.lookup, hmodule]
  simp

theorem mem_unitFragments {fragment : ℕ} :
    fragment ∈ unitFragments tools profiles profile.owners unit module ↔
      ∃ name ∈ externalNames tools module, fragmentIndex tools profiles name = fragment := by
  rw [unitFragments, (Grouping.distinct_spec _).mem,
    (hloaded.loaded hprofile).owns.ownedNames_eq hmodule, List.mem_map]

theorem provedUnit_unitFragments :
    ProvedUnit tools ((fragmentsOf tools profiles).map Prod.snd) module
      (unitFragments tools profiles profile.owners unit module) := by
  have hfirst : ∀ name ∈ externalNames tools module, name ∈ firstNames tools profiles :=
    fun name hname => (mem_firstNames hloaded hprofile).mpr
      ⟨unit, (mem_externalNames hloaded hprofile hmodule).mp hname⟩
  refine ⟨fun name hname => ?_, fun fragment hfragment => ?_, ?_⟩
  · obtain ⟨fragment, hfragment, -⟩ := fragment_of_name (hfirst name hname)
    refine ⟨fragmentIndex tools profiles name,
      ⟨(mem_unitFragments hloaded hprofile hmodule).mpr ⟨name, hname, rfl⟩, fragment.2,
        by simp [hfragment], (mem_fragment hfragment).mpr ⟨hfirst name hname, rfl⟩⟩, ?_⟩
    rintro other ⟨-, definitions, hother, hmem⟩
    rw [List.getElem?_map, Option.map_eq_some_iff] at hother
    obtain ⟨fragment', hfragment', rfl⟩ := hother
    exact ((mem_fragment hfragment').mp hmem).2.symm
  · obtain ⟨name, hname, rfl⟩ := (mem_unitFragments hloaded hprofile hmodule).mp hfragment
    obtain ⟨fragment, hfragment, hkey⟩ := fragment_of_name (hfirst name hname)
    refine ⟨fragment.2, by simp [hfragment], fun other hother => ?_⟩
    have hother' := ((mem_fragment hfragment).mp hother).1
    have hsame := (sameFragment_iff hloaded (hfirst name hname) hother').mp
      ⟨fragment, List.mem_of_getElem? hfragment,
        (mem_fragment hfragment).mpr ⟨hfirst name hname, rfl⟩, hother⟩ profile hprofile
    rw [mem_externalNames hloaded hprofile hmodule, ← hsame]
    exact (mem_externalNames hloaded hprofile hmodule).mp hname
  · have hposition : ∀ fragment ∈ unitFragments tools profiles profile.owners unit module,
        ((externalNames tools module).map (fragmentIndex tools profiles)).idxOf fragment =
          (externalNames tools module).findIdx
            (· ∈ (((fragmentsOf tools profiles).map Prod.snd)[fragment]?).getD []) := by
      intro index hindex
      obtain ⟨name, hname, rfl⟩ := (mem_unitFragments hloaded hprofile hmodule).mp hindex
      obtain ⟨fragment, hfragment, -⟩ := fragment_of_name (hfirst name hname)
      rw [List.idxOf, List.findIdx_map]
      refine findIdx_congr fun other hother => ?_
      exact Bool.eq_iff_iff.mpr
        (by simp [hfragment, mem_fragment hfragment, hfirst other hother])
    have horder : (unitFragments tools profiles profile.owners unit module).Pairwise
        fun fragment later =>
          ((externalNames tools module).map (fragmentIndex tools profiles)).idxOf fragment <
            ((externalNames tools module).map (fragmentIndex tools profiles)).idxOf later := by
      unfold unitFragments
      rw [(hloaded.loaded hprofile).owns.ownedNames_eq hmodule]
      exact (Grouping.distinct_spec _).order
    exact horder.imp_of_mem fun hx hy hlt => by rwa [hposition _ hx, hposition _ hy] at hlt

end Unit

/-- The units of a target list every fragment once. -/
theorem flatten_unitsOf {profile : Profile M} (hprofile : profile ∈ profiles) :
    (unitsOf tools profiles profile).flatten.Nodup ∧
    ∀ fragment, fragment ∈ (unitsOf tools profiles profile).flatten ↔
      fragment < (fragmentsOf tools profiles).length := by
  have hmem : ∀ entry ∈ profile.modules.zipIdx, profile.modules[entry.2]? = some entry.1 :=
    fun entry hentry => List.mem_zipIdx_iff_getElem?.mp hentry
  unfold unitsOf
  rw [← List.flatMap_def]
  refine ⟨List.nodup_flatMap.mpr ⟨fun entry _ => (Grouping.distinct_spec _).nodup, ?_⟩,
    fun fragment => ?_⟩
  · have hindices : profile.modules.zipIdx.Pairwise fun a b => a.2 ≠ b.2 := by
      have hnodup : (profile.modules.zipIdx.map Prod.snd).Nodup := by
        rw [List.zipIdx_map_snd]
        exact List.nodup_range'
      exact List.pairwise_map.mp hnodup
    refine hindices.imp_of_mem fun {a b} ha hb hne fragment hfa hfb => hne ?_
    -- A name of the fragment in each unit : both have the same owners, so the same unit.
    obtain ⟨name, hname, hindex⟩ :=
      (mem_unitFragments hloaded hprofile (hmem a ha)).mp hfa
    obtain ⟨name', hname', hindex'⟩ :=
      (mem_unitFragments hloaded hprofile (hmem b hb)).mp hfb
    rw [mem_externalNames hloaded hprofile (hmem a ha)] at hname
    rw [mem_externalNames hloaded hprofile (hmem b hb)] at hname'
    have hfirst := (mem_firstNames hloaded hprofile).mpr ⟨_, hname⟩
    have hfirst' := (mem_firstNames hloaded hprofile).mpr ⟨_, hname'⟩
    obtain ⟨g, hg, -⟩ := fragment_of_name hfirst
    have hsame := (sameFragment_iff hloaded hfirst hfirst').mp ⟨g, List.mem_of_getElem? hg,
      (mem_fragment hg).mpr ⟨hfirst, rfl⟩,
      (mem_fragment hg).mpr ⟨hfirst', hindex'.trans hindex.symm⟩⟩ profile hprofile
    rw [hname, hname'] at hsame
    exact Option.some.inj hsame
  · rw [List.mem_flatMap]
    constructor
    · rintro ⟨entry, hentry, hfragment⟩
      obtain ⟨name, hname, rfl⟩ :=
        (mem_unitFragments hloaded hprofile (hmem entry hentry)).mp hfragment
      rw [mem_externalNames hloaded hprofile (hmem entry hentry)] at hname
      obtain ⟨g, hg, -⟩ := fragment_of_name ((mem_firstNames hloaded hprofile).mpr ⟨_, hname⟩)
      exact (List.getElem?_eq_some_iff.mp hg).1
    · intro hlt
      have hg := List.getElem?_eq_getElem hlt
      obtain ⟨name, hname⟩ := List.exists_mem_of_ne_nil _
        (Grouping.mem_groupBy.mp (List.getElem_mem hlt)).2
      obtain ⟨hfirst, hindex⟩ := (mem_fragment hg).mp hname
      obtain ⟨unit, hunit⟩ := (mem_firstNames hloaded hprofile).mp hfirst
      obtain ⟨module, hmodule, hexternal⟩ := (hloaded.loaded hprofile).owns.lookup.mp hunit
      exact ⟨(module, unit), List.mem_zipIdx_iff_getElem?.mpr hmodule,
        (mem_unitFragments hloaded hprofile hmodule).mpr ⟨name, hexternal, hindex⟩⟩

/-- No unit is empty : its capture has an external definition. -/
theorem unitsOf_nonempty {profile : Profile M} (hprofile : profile ∈ profiles) :
    ∀ unit ∈ unitsOf tools profiles profile, unit ≠ [] := by
  intro unit hunit
  obtain ⟨⟨module, index⟩, hentry, rfl⟩ := List.mem_map.mp hunit
  have hmodule := List.mem_zipIdx_iff_getElem?.mp hentry
  obtain ⟨path, -, -, hexternals⟩ :=
    exists_of_forall₂_right (hloaded.loaded hprofile).read (List.mem_of_getElem? hmodule)
  obtain ⟨value, hvalue⟩ := List.exists_mem_of_ne_nil _ hexternals
  exact List.ne_nil_of_mem ((mem_unitFragments hloaded hprofile hmodule).mpr
    ⟨value.name, List.mem_map_of_mem hvalue, rfl⟩)

end Refinement

/-! ## The proved partition -/

/-- A plan with the cover of every target, in order of the observations. -/
structure ExactPlan (observations : List ProfilePartitionInput) (result : MergedPartitions) :
    Prop where
  units : List.Forall₂ (fun observation entry => entry.1 = observation.target ∧
    ExactCover result observation.target observation.captures entry.2)
    observations result.unitsByTarget
  nodup : (result.unitsByTarget.map Prod.fst).Nodup
  fragments : result.fragments.length = result.fragmentTargets.length
  domains : ∀ domain ∈ result.fragmentTargets, ∀ target ∈ domain,
    target ∈ observations.map ProfilePartitionInput.target

/-- The definitions of each fragment. -/
def fragmentNames (tools : NativeTools M) (profiles : List (Profile M)) : List (List String) :=
  (fragmentsOf tools profiles).map Prod.snd

/-- The module of a fragment of one unit and the path it is captured at : the unit's own
where the unit is one fragment, else a slice of the fragment's definitions that was written
for it. -/
inductive FragmentCapture (tools : NativeTools M) (directory target : String) (index : ℕ)
    (definitions : List String) (unit : List ℕ) (module : M) (path : String) : M → String → Prop
  | whole : unit = [index] →
      FragmentCapture tools directory target index definitions unit module path module path
  | slice {fragment : M} : unit.length ≠ 1 → index ∈ unit → tools.qualifySplit module = .ok () →
      tools.slice module definitions = .ok fragment →
      tools.writeCapture fragment
        (directory ++ "/" ++ target ++ "-" ++ toString index ++ ".bc") = .ok () →
      FragmentCapture tools directory target index definitions unit module path fragment
        (directory ++ "/" ++ target ++ "-" ++ toString index ++ ".bc")

/-- What one target contributes to a fragment : the capture of a module that defines for
others exactly the definitions of the fragment, taken from one of the target's units. -/
structure Contributes (tools : NativeTools M) (profiles : List (Profile M)) (directory : String)
    (index : ℕ) (definitions : List String) (profile : Profile M) (capture : String × String) :
    Prop where
  target : capture.1 = profile.target
  captured : ∃ (position : ℕ) (unit : List ℕ) (module : M) (path : String) (fragment : M),
    (unitsOf tools profiles profile)[position]? = some unit ∧
    profile.modules[position]? = some module ∧ profile.captures[position]? = some path ∧
    FragmentCapture tools directory profile.target index definitions unit module path fragment
      capture.2 ∧
    ∀ name, name ∈ externalNames tools fragment ↔ name ∈ definitions

/-- A plan of common fragments. Each unit of each target is cut into fragments, every
definition is in exactly one of them, and two definitions are in one fragment when every
target has them in one unit. A fragment is published from one capture of each target, with
its definitions and no others, and the slices of a unit link back to it. -/
structure ProvedPlan (tools : NativeTools M) (observations : List ProfilePartitionInput)
    (directory : String) (result : MergedPartitions) (profiles : List (Profile M)) : Prop where
  read : loadProfiles tools observations = .ok profiles
  loaded : LoadedProfiles tools observations profiles
  plan : result.unitsByTarget =
    profiles.map fun profile => (profile.target, unitsOf tools profiles profile)
  units : ∀ profile ∈ profiles, List.Forall₂ (ProvedUnit tools (fragmentNames tools profiles))
    profile.modules (unitsOf tools profiles profile)
  unique : ∀ profile ∈ profiles, ∀ name ∈ profile.modules.flatMap (externalNames tools),
    ∃! index : ℕ, ∃ definitions,
      (fragmentNames tools profiles)[index]? = some definitions ∧ name ∈ definitions
  together : ∀ profile ∈ profiles, ∀ a ∈ profile.modules.flatMap (externalNames tools),
    ∀ b ∈ profile.modules.flatMap (externalNames tools),
      (∃ fragment ∈ fragmentNames tools profiles, a ∈ fragment ∧ b ∈ fragment) ↔
        ∀ other ∈ profiles, other.owners.lookup a = other.owners.lookup b
  length : result.fragments.length = (fragmentNames tools profiles).length
  published : ∀ (index : ℕ) (output : String), result.fragments[index]? = some output →
    output = directory ++ "/fragment-" ++ toString index ++ ".selabc" ∧
    ∃ definitions captures, (fragmentNames tools profiles)[index]? = some definitions ∧
      tools.mergeProfiles captures output = .ok () ∧
      List.Forall₂ (Contributes tools profiles directory index definitions) profiles captures
  reconstructed : ∀ profile ∈ profiles, ∀ (position : ℕ) (unit : List ℕ) (module : M),
    (unitsOf tools profiles profile)[position]? = some unit →
    profile.modules[position]? = some module → unit.length ≠ 1 →
    ∃ slices, List.Forall₂ (fun index slice => ∃ definitions,
        (fragmentNames tools profiles)[index]? = some definitions ∧
        tools.slice module definitions = .ok slice) unit slices ∧
      tools.provePartition module slices = .ok ()

theorem forall₂_map_right {α β γ : Type} {R : α → γ → Prop} {f : β → γ} :
    ∀ {xs : List α} {ys : List β}, List.Forall₂ (fun x y => R x (f y)) xs ys →
      List.Forall₂ R xs (ys.map f)
  | _, _, .nil => .nil
  | _, _, .cons h hs => .cons h (forall₂_map_right hs)

theorem forall₂_zipIdx_map {α β : Type} {R : α → β → Prop} {f : α × ℕ → β} {xs : List α}
    (h : ∀ entry ∈ xs.zipIdx, R entry.1 (f entry)) : List.Forall₂ R xs (xs.zipIdx.map f) := by
  refine List.forall₂_iff_get.mpr ⟨by simp, fun i hi hi' => ?_⟩
  have hmem : (xs[i], i) ∈ xs.zipIdx := List.mem_zipIdx_iff_getElem?.mpr (List.getElem?_eq_getElem hi)
  simpa using h _ hmem

/-- The captures of one unit : one for each of its fragments, of that fragment's module. The
slices of a unit that is not one fragment link back to it. -/
theorem sliceUnit_ok {profiles : List (Profile M)} {directory target path : String}
    {unit : List ℕ} {module : M} {paths : List (ℕ × String)}
    (hunit : ∀ index ∈ unit, ∃ definitions,
      (fragmentNames tools profiles)[index]? = some definitions)
    (h : sliceUnit tools (fragmentsOf tools profiles) directory target unit module path =
      .ok paths) :
    List.Forall₂ (fun index entry => entry.1 = index ∧ ∃ definitions fragment,
        (fragmentNames tools profiles)[index]? = some definitions ∧
        FragmentCapture tools directory target index definitions unit module path fragment entry.2)
      unit paths ∧
    (unit.length ≠ 1 → ∃ slices, List.Forall₂ (fun index slice => ∃ definitions,
        (fragmentNames tools profiles)[index]? = some definitions ∧
        tools.slice module definitions = .ok slice) unit slices ∧
      tools.provePartition module slices = .ok ()) := by
  unfold sliceUnit at h
  split at h
  · next index =>
    obtain rfl := Except.ok.inj h
    obtain ⟨definitions, hdefinitions⟩ := hunit index (by simp)
    exact ⟨.cons ⟨rfl, definitions, module, hdefinitions, .whole rfl⟩ .nil, by simp⟩
  · next hother =>
    obtain ⟨_, hqualified, h⟩ := bind_ok.mp h
    obtain ⟨slices, hslices, h⟩ := bind_ok.mp h
    obtain ⟨_, hproved, h⟩ := bind_ok.mp h
    obtain rfl := Except.ok.inj h
    have hone : unit.length ≠ 1 := fun hlength => by
      obtain ⟨index, rfl⟩ := List.length_eq_one_iff.mp hlength
      exact hother index rfl
    -- What was done for one fragment of the unit.
    have hslice : List.Forall₂ (fun index entry => index ∈ unit ∧ entry.2.1 = index ∧
        entry.2.2 = directory ++ "/" ++ target ++ "-" ++ toString index ++ ".bc" ∧
        ∃ definitions, (fragmentNames tools profiles)[index]? = some definitions ∧
          tools.slice module definitions = .ok entry.1 ∧
          tools.writeCapture entry.1 entry.2.2 = .ok ()) unit slices := by
      refine forall₂_imp_of_mem (mapM_ok.mp hslices) fun index hindex entry _ hentry => ?_
      obtain ⟨fragment, hfragment, hentry⟩ := bind_ok.mp hentry
      obtain ⟨_, hwritten, hentry⟩ := bind_ok.mp hentry
      obtain rfl := Except.ok.inj hentry
      obtain ⟨definitions, hdefinitions⟩ := hunit index hindex
      rw [fragmentNames, List.getElem?_map] at hdefinitions
      refine ⟨hindex, rfl, rfl, definitions, by rw [fragmentNames, List.getElem?_map, hdefinitions],
        ?_, hwritten⟩
      simpa [hdefinitions] using hfragment
    refine ⟨List.forall₂_map_right_iff.mpr (hslice.imp ?_), fun _ =>
      ⟨slices.map Prod.fst, List.forall₂_map_right_iff.mpr (hslice.imp ?_), hproved⟩⟩
    · rintro index ⟨fragment, position, capture⟩
        ⟨hindex, rfl, hcapture, definitions, hdefinitions, hfragment, hwritten⟩
      dsimp only at hcapture hdefinitions hwritten
      subst hcapture
      exact ⟨rfl, definitions, fragment, hdefinitions,
        .slice hone hindex hqualified hfragment hwritten⟩
    · rintro index entry ⟨-, -, -, definitions, hdefinitions, hfragment, -⟩
      exact ⟨definitions, hdefinitions, hfragment⟩

/-- A slice of a qualified unit defines for others the names asked for. -/
theorem externalNames_slice {module fragment : M} {definitions : List String}
    (hqualified : tools.qualifySplit module = .ok ())
    (hslice : tools.slice module definitions = .ok fragment) :
    externalNames tools fragment =
      (externalNames tools module).filter fun name => definitions.contains name := by
  unfold externalNames externals
  rw [tools.slice_values _ _ _ hqualified hslice, List.filter_map, List.filter_filter,
    List.filter_filter]
  congr 1
  refine List.filter_congr fun value _ => ?_
  cases value.isDeclaration <;> simp [Bool.and_comm]

/-- The module captured for a fragment of a unit defines for others what the fragment does. -/
theorem FragmentCapture.externalNames {fragments : List (List String)} {directory target : String}
    {index : ℕ} {definitions : List String} {unit : List ℕ} {module fragment : M}
    {path capture : String} (hproved : ProvedUnit tools fragments module unit)
    (hdefinitions : fragments[index]? = some definitions)
    (h : FragmentCapture tools directory target index definitions unit module path fragment
      capture) (name : String) : name ∈ Sela.externalNames tools fragment ↔ name ∈ definitions := by
  -- The definitions of a fragment of the unit are definitions of its module.
  have honly : index ∈ unit → name ∈ definitions → name ∈ Sela.externalNames tools module := by
    intro hindex hname
    obtain ⟨other, hother, hnames⟩ := hproved.only index hindex
    exact hnames name (Option.some.inj (hother.symm.trans hdefinitions) ▸ hname)
  cases h with
  | whole hunit =>
    refine ⟨fun hname => ?_, honly (by simp [hunit])⟩
    obtain ⟨other, ⟨hother, found, hfound, hname⟩, -⟩ := hproved.covered name hname
    rw [hunit, List.mem_singleton] at hother
    rw [hother, hdefinitions] at hfound
    exact Option.some.inj hfound ▸ hname
  | slice _ hindex hqualified hslice _ =>
    rw [externalNames_slice hqualified hslice, List.mem_filter]
    simpa using honly hindex

section Slices

variable {observations : List ProfilePartitionInput} {profiles : List (Profile M)}
  (hloaded : LoadedProfiles tools observations profiles) {profile : Profile M}
  (hprofile : profile ∈ profiles)
include hloaded hprofile

theorem LoadedProfiles.units : List.Forall₂ (ProvedUnit tools (fragmentNames tools profiles))
    profile.modules (unitsOf tools profiles profile) :=
  forall₂_zipIdx_map fun _ hentry =>
    provedUnit_unitFragments hloaded hprofile (List.mem_zipIdx_iff_getElem?.mp hentry)

/-- A unit lists fragments of the plan. -/
theorem LoadedProfiles.named_unit {unit : List ℕ}
    (hunit : unit ∈ unitsOf tools profiles profile) :
    ∀ index ∈ unit, ∃ definitions, (fragmentNames tools profiles)[index]? = some definitions := by
  intro index hindex
  obtain ⟨module, -, hproved⟩ := exists_of_forall₂_right (hloaded.units hprofile) hunit
  obtain ⟨definitions, hdefinitions, -⟩ := hproved.only index hindex
  exact ⟨definitions, hdefinitions⟩

/-- The captures of a target are those of its units, one list after the other. -/
theorem slicePaths_ok {directory : String} {paths : List (ℕ × String)}
    (h : slicePaths tools profiles directory profile = .ok paths) :
    (paths.map Prod.fst).Nodup ∧
    ∀ {position : ℕ} {unit : List ℕ} {module : M},
      (unitsOf tools profiles profile)[position]? = some unit →
      profile.modules[position]? = some module →
      ∃ path entries, profile.captures[position]? = some path ∧ entries ⊆ paths ∧
        sliceUnit tools (fragmentsOf tools profiles) directory profile.target unit module path =
          .ok entries := by
  unfold slicePaths at h
  obtain ⟨captured, hcaptured, h⟩ := bind_ok.mp h
  obtain rfl := Except.ok.inj h
  have hsliced := mapM_ok.mp hcaptured
  have hread := (hloaded.loaded hprofile).read
  have hunits := hloaded.units hprofile
  have hlengths : (unitsOf tools profiles profile).length ≤
      (profile.modules.zip profile.captures).length := by
    simp [← hunits.length_eq, hread.length_eq]
  have hkeys : captured.map (List.map Prod.fst) = unitsOf tools profiles profile := by
    have hcase : List.Forall₂ (fun entry paths => List.map Prod.fst paths = entry.1)
        ((unitsOf tools profiles profile).zip (profile.modules.zip profile.captures)) captured := by
      refine forall₂_imp_of_mem hsliced ?_
      intro entry hentry entries _ hslice
      have hknown := hloaded.named_unit hprofile (List.of_mem_zip hentry).1
      have hentries := (sliceUnit_ok hknown hslice).1
      have hfst : List.Forall₂ (fun index entry => entry.1 = id index) entry.1 entries :=
        hentries.imp fun _ _ h => h.1
      simpa using map_eq_of_forall₂ hfst
    rw [map_eq_of_forall₂ hcase, List.map_fst_zip hlengths]
  refine ⟨?_, fun {position unit module} hunit hmodule => ?_⟩
  · rw [List.map_flatten, hkeys]
    exact (flatten_unitsOf hloaded hprofile).1
  · obtain ⟨path, hpath, -⟩ := forall₂_getElem? hread.flip hmodule
    have hzip : ((unitsOf tools profiles profile).zip (profile.modules.zip profile.captures))[position]? =
        some (unit, module, path) := by
      simp [List.getElem?_zip_eq_some, hunit, hmodule, hpath]
    obtain ⟨entries, hentries, hslice⟩ := forall₂_getElem? hsliced hzip
    exact ⟨path, entries, hpath, fun entry hentry =>
      List.mem_flatten_of_mem (List.mem_of_getElem? hentries) hentry, hslice⟩

/-- The capture a target has for a fragment is one it contributes. -/
theorem contributes {directory : String} {paths : List (ℕ × String)}
    (h : slicePaths tools profiles directory profile = .ok paths) {index : ℕ}
    {definitions : List String}
    (hdefinitions : (fragmentNames tools profiles)[index]? = some definitions) :
    Contributes tools profiles directory index definitions profile
      (profile.target, (paths.lookup index).getD "") := by
  obtain ⟨hnodup, hslices⟩ := slicePaths_ok hloaded hprofile h
  -- The unit of the target that has the fragment.
  obtain ⟨unit, hmem, hindex⟩ : ∃ unit ∈ unitsOf tools profiles profile, index ∈ unit := by
    rw [← List.mem_flatten, (flatten_unitsOf hloaded hprofile).2]
    simpa [fragmentNames] using (List.getElem?_eq_some_iff.mp hdefinitions).1
  obtain ⟨position, hunit⟩ := List.mem_iff_getElem?.mp hmem
  obtain ⟨module, hmodule, hproved⟩ := forall₂_getElem? (hloaded.units hprofile).flip hunit
  obtain ⟨path, entries, hpath, hentries, hslice⟩ := hslices hunit hmodule
  obtain ⟨entry, hentry, hkey, found, fragment, hfound, hcaptured⟩ :=
    exists_of_forall₂_left (sliceUnit_ok (hloaded.named_unit hprofile hmem) hslice).1 hindex
  obtain rfl : found = definitions := Option.some.inj (hfound.symm.trans hdefinitions)
  have hlookup : paths.lookup index = some entry.2 :=
    (Association.lookup_eq_some_iff_mem hnodup).mpr (hkey ▸ hentries hentry)
  rw [hlookup]
  exact ⟨rfl, position, unit, module, path, fragment, hunit, hmodule, hpath, hcaptured,
    hcaptured.externalNames hproved hdefinitions⟩

end Slices

/-- The slices of a fragment on each target go to its import. -/
theorem fragment_published {observations : List ProfilePartitionInput}
    {profiles : List (Profile M)} (hloaded : LoadedProfiles tools observations profiles)
    {directory : String} {fragmentPaths : List (List (ℕ × String))}
    (hpaths : profiles.mapM (slicePaths tools profiles directory) = .ok fragmentPaths) {index : ℕ}
    {definitions : List String}
    (hdefinitions : (fragmentNames tools profiles)[index]? = some definitions) :
    List.Forall₂ (Contributes tools profiles directory index definitions) profiles
      ((profiles.zip fragmentPaths).map fun (profile, paths) =>
        (profile.target, (paths.lookup index).getD "")) := by
  have hsliced := mapM_ok.mp hpaths
  refine List.forall₂_map_right_iff.mpr (forall₂_of_getElem?
    (by simp [hsliced.length_eq]) fun i profile entry hprofile hentry => ?_)
  obtain ⟨hfst, hsnd⟩ := List.getElem?_zip_eq_some.mp hentry
  obtain rfl : profile = entry.1 := Option.some.inj (hprofile.symm.trans hfst)
  obtain ⟨paths, hpaths', hslice⟩ := forall₂_getElem? hsliced hprofile
  obtain rfl : paths = entry.2 := Option.some.inj (hpaths'.symm.trans hsnd)
  exact contributes hloaded (List.mem_of_getElem? hprofile) hslice hdefinitions

/-- Every definition of a target is in exactly one fragment. -/
theorem LoadedProfiles.unique {observations : List ProfilePartitionInput}
    {profiles : List (Profile M)} (hloaded : LoadedProfiles tools observations profiles)
    {profile : Profile M} (hprofile : profile ∈ profiles) {name : String}
    (hname : name ∈ profile.modules.flatMap (externalNames tools)) :
    ∃! index : ℕ, ∃ definitions,
      (fragmentNames tools profiles)[index]? = some definitions ∧ name ∈ definitions := by
  have hfirst := hloaded.mem_names hprofile hname
  obtain ⟨fragment, hfragment, -⟩ := fragment_of_name hfirst
  refine ⟨fragmentIndex tools profiles name, ⟨fragment.2, by simp [fragmentNames, hfragment],
    (mem_fragment hfragment).mpr ⟨hfirst, rfl⟩⟩, ?_⟩
  rintro other ⟨definitions, hother, hmem⟩
  rw [fragmentNames, List.getElem?_map, Option.map_eq_some_iff] at hother
  obtain ⟨found, hfound, rfl⟩ := hother
  exact ((mem_fragment hfound).mp hmem).2.symm

theorem mergeProvedPartitions_ok {observations : List ProfilePartitionInput} {directory : String}
    {result : MergedPartitions}
    (h : mergeProvedPartitions tools observations directory = .ok result) :
    ExactPlan observations result ∧
      ∃ profiles, ProvedPlan tools observations directory result profiles := by
  unfold mergeProvedPartitions at h
  obtain ⟨profiles, hprofiles, h⟩ := bind_ok.mp h
  obtain ⟨fragmentPaths, hpaths, h⟩ := bind_ok.mp h
  obtain ⟨fragments, hfragments, h⟩ := bind_ok.mp h
  obtain rfl : _ = result := Except.ok.inj h
  have hloaded := loadProfiles_ok hprofiles
  have hlength : fragments.length = (fragmentsOf tools profiles).length := by
    simpa using (mapM_ok.mp hfragments).length_eq.symm
  refine ⟨⟨forall₂_map_right ?_, ?_, by simp, ?_⟩, profiles, hprofiles, hloaded, rfl,
    fun _ => hloaded.units, fun _ hprofile _ => hloaded.unique hprofile, ?_,
    by simp [hlength, fragmentNames], ?_, ?_⟩
  · refine List.forall₂_iff_get.mpr ⟨hloaded.observed.length_eq, fun i hi hi' => ?_⟩
    obtain ⟨htarget, hcaptures, hprofile⟩ := hloaded.observed.get hi hi'
    have hmem : profiles.get ⟨i, hi'⟩ ∈ profiles := List.get_mem _ _
    have hmemTarget : observations[i].target ∈ observations.map ProfilePartitionInput.target :=
      List.mem_map_of_mem (List.getElem_mem hi)
    obtain ⟨hnodup, hcover⟩ := flatten_unitsOf hloaded hmem
    refine ⟨htarget, hnodup, fun fragment => ?_, ?_, unitsOf_nonempty hloaded hmem⟩
    · rw [hcover, ← hlength, List.getElem?_map]
      constructor
      · intro hlt
        exact ⟨_, by simp [List.getElem?_eq_getElem hlt], hmemTarget⟩
      · rintro ⟨domain, hdomain, -⟩
        obtain ⟨_, hfragment, -⟩ := Option.map_eq_some_iff.mp hdomain
        exact (List.getElem?_eq_some_iff.mp hfragment).1
    · rw [unitsOf, List.length_map, List.length_zipIdx, ← hprofile.read.length_eq, hcaptures]
  · simpa [Function.comp_def] using hloaded.nodup
  · intro domain hdomain target htarget
    obtain ⟨_, -, rfl⟩ := List.mem_map.mp hdomain
    exact htarget
  · intro profile hprofile a ha b hb
    rw [← sameFragment_iff hloaded (hloaded.mem_names hprofile ha) (hloaded.mem_names hprofile hb)]
    constructor
    · rintro ⟨_, hmem, hnames⟩
      obtain ⟨fragment, hfragment, rfl⟩ := List.mem_map.mp hmem
      exact ⟨fragment, hfragment, hnames⟩
    · rintro ⟨fragment, hfragment, hnames⟩
      exact ⟨fragment.2, List.mem_map_of_mem hfragment, hnames⟩
  · intro index output houtput
    obtain ⟨index', hindex, hmerged⟩ := forall₂_getElem? (mapM_ok.mp hfragments).flip houtput
    obtain ⟨hlt, rfl⟩ := List.getElem?_eq_some_iff.mp hindex
    rw [List.getElem_range] at hmerged
    obtain ⟨_, hmerge, hmerged⟩ := bind_ok.mp hmerged
    obtain rfl := Except.ok.inj hmerged
    have hindex : index < (fragmentNames tools profiles).length := by
      simpa [fragmentNames] using hlt
    have hdefinitions := List.getElem?_eq_getElem hindex
    exact ⟨rfl, _, _, hdefinitions, hmerge, fragment_published hloaded hpaths hdefinitions⟩
  · intro profile hprofile position unit module hunit hmodule hsplit
    obtain ⟨paths, -, hslice⟩ := exists_of_forall₂_left (mapM_ok.mp hpaths) hprofile
    obtain ⟨path, entries, -, -, hentries⟩ := (slicePaths_ok hloaded hprofile hslice).2 hunit hmodule
    exact (sliceUnit_ok (hloaded.named_unit hprofile (List.mem_of_getElem? hunit)) hentries).2 hsplit

/-! ## The grouping of whole units -/

/-- A module defines a name. -/
def Defines (tools : NativeTools M) (path name : String) : Prop :=
  ∃ module value, tools.parseIRFile path = some module ∧ value ∈ tools.globalValues module ∧
    value.isDeclaration = false ∧ value.name = name

/-- A plan of whole units : each unit is one fragment, no fragment groups two captures of a
target, and the captures of a fragment define the same names. -/
def ScopedPlan (tools : NativeTools M) (observations : List ProfilePartitionInput)
    (result : MergedPartitions) : Prop :=
  ∃ groups : List CaptureGroup,
    result.fragmentTargets = groups.map CaptureGroup.targets ∧
    (∀ group ∈ groups, group.targets.Nodup ∧ ∀ capture ∈ group.captures,
      ∀ other ∈ group.captures, ∀ name, Defines tools capture.2 name ↔ Defines tools other.2 name) ∧
    List.Forall₂ (fun observation entry => entry.1 = observation.target ∧
      List.Forall₂ (fun path unit => ∃ index group, unit = [index] ∧ groups[index]? = some group ∧
        (observation.target, path) ∈ group.captures) observation.captures entry.2)
      observations result.unitsByTarget

/-- The groups hold the captures placed so far : `log` is each capture's target, its path and
the position of its group. -/
structure Placed (tools : NativeTools M) (groups : List CaptureGroup)
    (log : List (String × String × ℕ)) : Prop where
  captures : ∀ index group, groups[index]? = some group →
    group.captures = (log.filter fun entry => entry.2.2 = index).map fun entry => (entry.1, entry.2.1)
  inRange : ∀ entry ∈ log, ∃ group module, groups[entry.2.2]? = some group ∧
    tools.parseIRFile entry.2.1 = some module ∧ definitionKey tools module = group.key
  once : (log.map fun entry => (entry.1, entry.2.2)).Nodup

theorem Placed.mem_targets {groups : List CaptureGroup} {log : List (String × String × ℕ)}
    (h : Placed tools groups log) {index : ℕ} {group : CaptureGroup}
    (hgroup : groups[index]? = some group) {target : String} :
    target ∈ group.targets ↔ (target, index) ∈ log.map fun entry => (entry.1, entry.2.2) := by
  unfold CaptureGroup.targets
  rw [h.captures index group hgroup]
  simp only [List.map_map, List.mem_map, List.mem_filter, decide_eq_true_eq, Function.comp_apply,
    Prod.mk.injEq]
  constructor
  · rintro ⟨entry, ⟨hentry, rfl⟩, rfl⟩
    exact ⟨entry, hentry, rfl, rfl⟩
  · rintro ⟨entry, hentry, rfl, rfl⟩
    exact ⟨entry, ⟨hentry, rfl⟩, rfl⟩

/-- Placing one capture extends the log. -/
theorem groupCapture_ok {target path : String} {groups groups' : List CaptureGroup}
    {units units' : List (List ℕ)} {log : List (String × String × ℕ)}
    (hplaced : Placed tools groups log)
    (h : groupCapture tools target (groups, units) path = .ok (groups', units')) :
    ∃ index, units' = units ++ [[index]] ∧ Placed tools groups' (log ++ [(target, path, index)]) := by
  unfold groupCapture at h
  obtain ⟨module, hmodule, h⟩ := bind_ok.mp h
  have hmodule := require_ok.mp hmodule
  obtain ⟨rfl, rfl⟩ := Prod.mk.inj (Except.ok.inj h)
  dsimp only
  obtain ⟨hother, hcase⟩ := Grouping.place_getElem?
    (fun group : CaptureGroup =>
      group.key == definitionKey tools module && !decide (target ∈ group.targets))
    (fun group => { group with captures := group.captures ++ [(target, path)] })
    ⟨definitionKey tools module, [(target, path)]⟩ groups
  generalize hplace : Grouping.place (fun group : CaptureGroup =>
      group.key == definitionKey tools module && !decide (target ∈ group.targets))
    (fun group => { group with captures := group.captures ++ [(target, path)] })
    ⟨definitionKey tools module, [(target, path)]⟩ groups = placed at hother hcase ⊢
  obtain ⟨placed, index⟩ := placed
  dsimp only at hother hcase ⊢
  -- The group that has the capture now : it had this key, or it is new.
  obtain ⟨group, hgroup, hkey, hcaptures, hfresh⟩ : ∃ group, placed[index]? = some group ∧
      group.key = definitionKey tools module ∧
      group.captures = ((log.filter fun entry => entry.2.2 = index).map
        fun entry => (entry.1, entry.2.1)) ++ [(target, path)] ∧
      (target, index) ∉ log.map fun entry => (entry.1, entry.2.2) := by
    rcases hcase with ⟨old, hold, hfits, hnew⟩ | ⟨rfl, hnew⟩
    · obtain ⟨hkey, htarget⟩ : old.key = definitionKey tools module ∧ target ∉ old.targets := by
        simpa using hfits
      exact ⟨_, hnew, hkey, by rw [hplaced.captures index old hold],
        (hplaced.mem_targets hold).not.mp htarget⟩
    · have hnone : ∀ entry ∈ log, entry.2.2 ≠ groups.length := by
        intro entry hentry heq
        obtain ⟨group, _, hgroup, -⟩ := hplaced.inRange entry hentry
        have := (List.getElem?_eq_some_iff.mp hgroup).1
        omega
      refine ⟨_, hnew, rfl, ?_, ?_⟩
      · rw [List.filter_eq_nil_iff.mpr fun entry hentry => by simpa using hnone entry hentry]
        rfl
      · intro hmem
        obtain ⟨entry, hentry, heq⟩ := List.mem_map.mp hmem
        exact hnone entry hentry (Prod.mk.inj heq).2
  refine ⟨index, rfl, ?_, ?_, ?_⟩
  · intro i g hg
    rw [List.filter_append, List.map_append]
    by_cases hi : i = index
    · subst hi
      rw [hgroup] at hg
      obtain rfl := Option.some.inj hg
      simp [hcaptures]
    · rw [hother i hi] at hg
      simp [hplaced.captures i g hg, Ne.symm hi]
  · intro entry hentry
    rcases List.mem_append.mp hentry with hentry | hentry
    · obtain ⟨g, m, hg, hm, hgkey⟩ := hplaced.inRange entry hentry
      by_cases hi : entry.2.2 = index
      · rcases hcase with ⟨old, hold, hfits, hnew⟩ | ⟨hlength, -⟩
        · rw [hi, hold] at hg
          obtain rfl := Option.some.inj hg
          exact ⟨{ old with captures := old.captures ++ [(target, path)] }, m, hi ▸ hnew, hm, hgkey⟩
        · have := (List.getElem?_eq_some_iff.mp hg).1
          omega
      · exact ⟨g, m, by rw [hother _ hi, hg], hm, hgkey⟩
    · rw [List.mem_singleton.mp hentry]
      exact ⟨group, module, hgroup, hmodule, hkey.symm⟩
  · rw [List.map_append, List.nodup_append]
    refine ⟨hplaced.once, by simp, ?_⟩
    rintro pair hpair other hother' rfl
    have hpair' : pair = (target, index) := by simpa using hother'
    exact hfresh (hpair' ▸ hpair)

/-- Placing the captures of one target gives each a unit of one fragment. -/
theorem foldlM_groupCapture_ok {target : String} :
    ∀ {paths : List String} {groups groups' : List CaptureGroup} {units units' : List (List ℕ)}
      {log : List (String × String × ℕ)}, Placed tools groups log →
      paths.foldlM (groupCapture tools target) (groups, units) = .ok (groups', units') →
      ∃ indices, indices.length = paths.length ∧ units' = units ++ indices.map (fun index => [index]) ∧
        Placed tools groups' (log ++ List.zipWith (fun path index => (target, path, index)) paths indices)
  | [], groups, groups', units, units', log, hplaced, h => by
    obtain ⟨rfl, rfl⟩ := Prod.mk.inj (Except.ok.inj h)
    exact ⟨[], rfl, by simp, by simpa using hplaced⟩
  | path :: paths, groups, groups', units, units', log, hplaced, h => by
    obtain ⟨⟨groups₁, units₁⟩, hstep, h⟩ := foldlM_cons_ok.mp h
    obtain ⟨index, rfl, hplaced₁⟩ := groupCapture_ok hplaced hstep
    obtain ⟨indices, hlength, rfl, hplaced₂⟩ := foldlM_groupCapture_ok hplaced₁ h
    exact ⟨index :: indices, by simp [hlength], by simp, by simpa using hplaced₂⟩

/-- What the log says of the units of one target. -/
def LoggedUnits (log : List (String × String × ℕ)) (observation : ProfilePartitionInput)
    (entry : String × List (List ℕ)) : Prop :=
  entry.1 = observation.target ∧ observation.captures ≠ [] ∧ ∃ indices,
    indices.length = observation.captures.length ∧
    entry.2 = indices.map (fun index => [index]) ∧
    log.filter (fun placed => placed.1 = observation.target) =
      List.zipWith (fun path index => (observation.target, path, index)) observation.captures indices

/-- The state of the grouping after some observations. -/
structure GroupedSoFar (tools : NativeTools M) (observations : List ProfilePartitionInput)
    (state : ScopedState) (log : List (String × String × ℕ)) : Prop where
  placed : Placed tools state.groups log
  units : List.Forall₂ (LoggedUnits log) observations state.unitsByTarget
  nodup : (state.unitsByTarget.map Prod.fst).Nodup
  observed : ∀ entry ∈ log, entry.1 ∈ state.unitsByTarget.map Prod.fst

theorem groupTarget_ok {observations : List ProfilePartitionInput} {state state' : ScopedState}
    {observation : ProfilePartitionInput} {log : List (String × String × ℕ)}
    (hstate : GroupedSoFar tools observations state log)
    (h : groupTarget tools state observation = .ok state') :
    ∃ log', GroupedSoFar tools (observations ++ [observation]) state' log' := by
  unfold groupTarget at h
  obtain ⟨_, hensure, h⟩ := bind_ok.mp h
  obtain ⟨-, hnew, hcaptures, -⟩ := ensure_ok.mp hensure
  obtain ⟨⟨groups, units⟩, hfold, h⟩ := bind_ok.mp h
  obtain rfl : _ = state' := Except.ok.inj h
  obtain ⟨indices, hlength, hunits, hplaced⟩ := foldlM_groupCapture_ok hstate.placed hfold
  have hzip : ∀ entry ∈ List.zipWith (fun path index => (observation.target, path, index))
      observation.captures indices, entry.1 = observation.target := by
    intro entry hentry
    rw [← List.map_uncurry_zip_eq_zipWith] at hentry
    obtain ⟨_, -, rfl⟩ := List.mem_map.mp hentry
    rfl
  have hlog : ∀ entry ∈ log, entry.1 ≠ observation.target := fun entry hentry heq =>
    hnew (heq ▸ hstate.observed entry hentry)
  refine ⟨_, hplaced, List.rel_append (forall₂_imp_of_mem hstate.units ?_)
    (List.Forall₂.cons ?_ List.Forall₂.nil), ?_, ?_⟩
  · rintro other - entry hentry ⟨htarget, hother, indices', hlength', hunits', hfilter⟩
    refine ⟨htarget, hother, indices', hlength', hunits', ?_⟩
    have hne : other.target ≠ observation.target := fun heq =>
      hnew (List.mem_map.mpr ⟨entry, hentry, htarget.trans heq⟩)
    rw [List.filter_append, hfilter, List.filter_eq_nil_iff.mpr fun placed hplaced => by
      simpa [hzip placed hplaced] using Ne.symm hne, List.append_nil]
  · refine ⟨rfl, hcaptures, indices, hlength, by simpa using hunits, ?_⟩
    rw [List.filter_append, List.filter_eq_nil_iff.mpr fun entry hentry => by
      simpa using hlog entry hentry, List.nil_append]
    exact List.filter_eq_self.mpr fun entry hentry => by simpa using hzip entry hentry
  · rw [List.map_append, List.nodup_append]
    refine ⟨hstate.nodup, by simp, ?_⟩
    rintro target htarget other hother rfl
    exact hnew (by simpa [List.mem_singleton.mp hother] using htarget)
  · intro entry hentry
    rw [List.map_append, List.mem_append]
    rcases List.mem_append.mp hentry with hentry | hentry
    · exact Or.inl (hstate.observed entry hentry)
    · exact Or.inr (by simp [hzip entry hentry])

theorem mem_definitionNames {module : M} {name : String} :
    name ∈ definitionNames tools module ↔
      ∃ value ∈ tools.globalValues module, value.isDeclaration = false ∧ value.name = name := by
  simp [definitionNames, and_assoc]

/-- Modules with one key define the same names. -/
theorem defines_congr {path path' : String} {module module' : M}
    (hmodule : tools.parseIRFile path = some module)
    (hmodule' : tools.parseIRFile path' = some module')
    (hkey : definitionKey tools module = definitionKey tools module') (name : String) :
    Defines tools path name ↔ Defines tools path' name := by
  have hdefines : ∀ {path : String} {module : M}, tools.parseIRFile path = some module →
      (Defines tools path name ↔ name ∈ definitionNames tools module) := by
    intro path module hmodule
    rw [mem_definitionNames]
    constructor
    · rintro ⟨other, value, hother, hvalue, hname⟩
      rw [hmodule] at hother
      exact ⟨value, Option.some.inj hother ▸ hvalue, hname⟩
    · rintro ⟨value, hvalue, hname⟩
      exact ⟨module, value, hmodule, hvalue, hname⟩
  rw [hdefines hmodule, hdefines hmodule', LengthPrefixed.encode_injective hkey]

theorem groupTargets_ok {observations : List ProfilePartitionInput} {state : ScopedState}
    (h : observations.foldlM (groupTarget tools) ⟨[], []⟩ = .ok state) :
    ∃ log, GroupedSoFar tools observations state log := by
  refine foldlM_invariant (fun passed state => ∃ log, GroupedSoFar tools passed state log)
    ⟨[], ⟨by simp, by simp, by simp⟩, List.Forall₂.nil, by simp, by simp⟩ ?_ h
  rintro passed observation rest state state' - ⟨log, hstate⟩ hstep
  exact groupTarget_ok hstate hstep

theorem mergeScopedPartitions_ok {observations : List ProfilePartitionInput} {directory : String}
    {result : MergedPartitions}
    (h : mergeScopedPartitions tools observations directory = .ok result) :
    ExactPlan observations result ∧ ScopedPlan tools observations result := by
  unfold mergeScopedPartitions at h
  obtain ⟨_, -, h⟩ := bind_ok.mp h
  obtain ⟨state, hstate, h⟩ := bind_ok.mp h
  obtain ⟨fragments, hfragments, h⟩ := bind_ok.mp h
  obtain rfl : _ = result := Except.ok.inj h
  obtain ⟨log, hgrouped⟩ := groupTargets_ok hstate
  have hplaced := hgrouped.placed
  refine ⟨⟨?_, hgrouped.nodup, ?_, ?_⟩, state.groups, rfl, ?_, ?_⟩
  · refine hgrouped.units.imp fun observation entry hentry => ?_
    obtain ⟨htarget, hcaptures, indices, hlength, hunits, hfilter⟩ := hentry
    -- The fragments of the target's units are the groups its captures were placed in.
    have hindices : indices = (log.filter fun placed => placed.1 = observation.target).map
        fun placed => placed.2.2 := by
      rw [hfilter, List.map_zipWith, ← List.map_uncurry_zip_eq_zipWith]
      exact (List.map_snd_zip (Nat.le_of_eq hlength)).symm
    have hflatten : entry.2.flatten = indices := by
      rw [hunits]
      exact List.flatMap_singleton' indices
    refine ⟨htarget, ?_, ?_, by simp [hunits, hlength], ?_⟩
    · rw [hflatten, hindices]
      have honce : ((log.filter fun placed => placed.1 = observation.target).map
          fun placed => (placed.1, placed.2.2)).Nodup :=
        hplaced.once.sublist (List.filter_sublist.map _)
      refine List.Nodup.of_map (fun index => (observation.target, index)) ?_
      rw [List.map_map]
      convert honce using 1
      refine List.map_congr_left fun placed hmem => ?_
      have := (List.mem_filter.mp hmem).2
      simp at this
      simp [this]
    · intro index
      rw [hflatten, hindices]
      simp only [List.mem_map, List.mem_filter, decide_eq_true_eq, List.getElem?_map,
        Option.map_eq_some_iff]
      constructor
      · rintro ⟨placed, ⟨hmem, htarget⟩, rfl⟩
        obtain ⟨group, _, hgroup, -⟩ := hplaced.inRange placed hmem
        exact ⟨group.targets, ⟨group, hgroup, rfl⟩, (hplaced.mem_targets hgroup).mpr
          (List.mem_map.mpr ⟨placed, hmem, by rw [htarget]⟩)⟩
      · rintro ⟨_, ⟨group, hgroup, rfl⟩, hmem⟩
        obtain ⟨placed, hmem, heq⟩ := List.mem_map.mp ((hplaced.mem_targets hgroup).mp hmem)
        obtain ⟨htarget, hindex⟩ := Prod.mk.inj heq
        exact ⟨placed, ⟨hmem, htarget⟩, hindex⟩
    · simp [hunits]
  · have := (mapM_ok.mp hfragments).length_eq
    simpa using this.symm
  · intro domain hdomain target htarget
    obtain ⟨group, hgroup, rfl⟩ := List.mem_map.mp hdomain
    obtain ⟨index, hindex⟩ := List.mem_iff_getElem?.mp hgroup
    obtain ⟨placed, hmem, heq⟩ := List.mem_map.mp ((hplaced.mem_targets hindex).mp htarget)
    obtain ⟨entry, hentry, heq'⟩ := List.mem_map.mp (hgrouped.observed placed hmem)
    obtain ⟨observation, hobservation, htarget', -⟩ :=
      exists_of_forall₂_right hgrouped.units hentry
    rw [← (Prod.mk.inj heq).1, ← heq', htarget']
    exact List.mem_map_of_mem hobservation
  · intro group hgroup
    obtain ⟨index, hindex⟩ := List.mem_iff_getElem?.mp hgroup
    have hcaptures := hplaced.captures index group hindex
    refine ⟨?_, ?_⟩
    · unfold CaptureGroup.targets
      rw [hcaptures, List.map_map]
      refine List.Nodup.of_map (fun target => (target, index)) ?_
      rw [List.map_map]
      have honce : ((log.filter fun placed => placed.2.2 = index).map
          fun placed => (placed.1, placed.2.2)).Nodup :=
        hplaced.once.sublist (List.filter_sublist.map _)
      convert honce using 1
      refine List.map_congr_left fun placed hmem => ?_
      have := (List.mem_filter.mp hmem).2
      simp at this
      simp [this]
    · have hkey : ∀ capture ∈ group.captures, ∃ module,
          tools.parseIRFile capture.2 = some module ∧ definitionKey tools module = group.key := by
        intro capture hcapture
        rw [hcaptures] at hcapture
        obtain ⟨placed, hmem, rfl⟩ := List.mem_map.mp hcapture
        obtain ⟨hmem, hplacedIndex⟩ := List.mem_filter.mp hmem
        obtain ⟨other, module, hother, hmodule, hkey⟩ := hplaced.inRange placed hmem
        rw [show placed.2.2 = index by simpa using hplacedIndex, hindex] at hother
        exact ⟨module, hmodule, by rw [hkey, Option.some.inj hother]⟩
      intro capture hcapture other hother name
      obtain ⟨module, hmodule, hkey₁⟩ := hkey capture hcapture
      obtain ⟨module', hmodule', hkey₂⟩ := hkey other hother
      exact defines_congr hmodule hmodule' (hkey₁.trans hkey₂.symm) name
  · refine hgrouped.units.imp fun observation entry hentry => ?_
    obtain ⟨htarget, hcaptures, indices, hlength, hunits, hfilter⟩ := hentry
    refine ⟨htarget, ?_⟩
    rw [hunits]
    refine forall₂_map_right (List.forall₂_iff_get.mpr ⟨hlength.symm, fun i hi hi' => ?_⟩)
    have hmem : (observation.target, observation.captures[i], indices[i]) ∈ log := by
      have hzip : (observation.target, observation.captures[i], indices[i]) ∈ List.zipWith
          (fun path index => (observation.target, path, index)) observation.captures indices := by
        rw [List.mem_iff_getElem]
        exact ⟨i, by simp; omega, by simp⟩
      rw [← hfilter] at hzip
      exact List.mem_of_mem_filter hzip
    obtain ⟨group, _, hgroup, -⟩ := hplaced.inRange _ hmem
    refine ⟨indices[i], group, rfl, hgroup, ?_⟩
    rw [hplaced.captures _ group hgroup]
    exact List.mem_map.mpr ⟨_, List.mem_filter.mpr ⟨hmem, by simp⟩, rfl⟩

/-- The plan of every target is an exact cover, its units in the order of its captures, by
proved repartitioning as by grouping whole units. -/
theorem mergeProfilePartitions_cover (tools : NativeTools M)
    (observations : List ProfilePartitionInput) (directory : String) (result : MergedPartitions)
    (h : mergeProfilePartitions tools observations directory = .ok result) :
    ExactPlan observations result ∧
      match mergeProvedPartitions tools observations directory with
      | .ok _ => ∃ profiles, ProvedPlan tools observations directory result profiles
      | .error _ => ScopedPlan tools observations result := by
  unfold mergeProfilePartitions at h
  split at h
  · rename_i shared hshared
    obtain rfl := Except.ok.inj h
    exact mergeProvedPartitions_ok hshared
  · exact mergeScopedPartitions_ok h

/-- Modules that are their own external names. -/
def namedTools : NativeTools {names : List String // names.Nodup} where
  parseIRFile path :=
    if path = "f.bc" then some ⟨["f"], by decide⟩
    else if path = "g.bc" then some ⟨["g"], by decide⟩
    else if path = "fg.bc" then some ⟨["g", "f"], by decide⟩
    else none
  globalValues names := names.1.map fun name => ⟨name, false, false, false, true⟩
  names_nodup names := by
    simpa [Function.comp_def] using names.2.filter fun name => name ≠ ""
  qualifySplit _ := pure ()
  slice names definitions := pure ⟨names.1.filter (· ∈ definitions), names.2.filter _⟩
  slice_values names definitions fragment _ h := by
    obtain rfl := Except.ok.inj h
    simp [List.filter_map, Function.comp_def]
  writeCapture _ _ := pure ()
  provePartition names fragments :=
    ensure ((fragments.flatMap Subtype.val).Perm names.1)
      "private partition does not exactly reconstruct the original native translation unit"
  mergeProfiles _ _ := pure ()

theorem mergeProfilePartitions_cover_split :
    ExactPlan [⟨"x86_64", ["f.bc", "g.bc"]⟩, ⟨"i686", ["fg.bc"]⟩]
        ⟨["out/fragment-0.selabc", "out/fragment-1.selabc"],
          [["x86_64", "i686"], ["x86_64", "i686"]], [("x86_64", [[0], [1]]), ("i686", [[1, 0]])]⟩ ∧
      match mergeProvedPartitions namedTools
          [⟨"x86_64", ["f.bc", "g.bc"]⟩, ⟨"i686", ["fg.bc"]⟩] "out" with
      | .ok _ => ∃ profiles,
          ProvedPlan namedTools [⟨"x86_64", ["f.bc", "g.bc"]⟩, ⟨"i686", ["fg.bc"]⟩] "out"
            ⟨["out/fragment-0.selabc", "out/fragment-1.selabc"],
              [["x86_64", "i686"], ["x86_64", "i686"]],
              [("x86_64", [[0], [1]]), ("i686", [[1, 0]])]⟩ profiles
      | .error _ => False := by
  have h := mergeProfilePartitions_cover namedTools
    [⟨"x86_64", ["f.bc", "g.bc"]⟩, ⟨"i686", ["fg.bc"]⟩] "out" _ (by rfl)
  exact h

end Sela
