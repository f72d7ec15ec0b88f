import Sela.MergeRoundTrip
import Sela.NativeImport

/-!
# Native types from the module and back

Native types that are imported, merged with those of other targets, specialized and lowered again
come back with the name of each record replaced by its shared identity (`importedTypes_lowered`).
What the merge does to the identities is a parameter of the lemmas before it.
-/

namespace Sela

open Checked Correspondence Stateful OverlapEvidence

mutual

/-- A native type with the name of each record that has one replaced. -/
def LlvmType.rename (identity : LlvmType → String) : LlvmType → LlvmType
  | .array element count => .array (element.rename identity) count
  | .struct name packed fields =>
    .struct (name.map fun _ => identity (.struct name packed fields)) packed
      (fieldsRename identity fields)
  | type => type

def fieldsRename (identity : LlvmType → String) : List LlvmType → List LlvmType
  | [] => []
  | field :: fields => field.rename identity :: fieldsRename identity fields

end

namespace StorageTypes

/-! ## The native type of what was imported -/

section Lowering

variable {types : NativeTypes} {target : TargetInfo} {overlaps : List (LlvmType × NativeOverlap)}
  {identity : LlvmType → String} {rename : String → String}

theorem nativeType_scalarType {scalar : ScalarType} {type : SelaType}
    (h : scalarType scalar = some type) :
    type.rename rename = type ∧ types.nativeType type = some (.scalar scalar) := by
  unfold scalarType at h
  split at h
  · obtain ⟨rfl, rfl⟩ : _ = _ ∧ _ = _ := by simpa using h
    exact ⟨rfl, rfl⟩
  · obtain rfl := Option.some.inj h
    exact ⟨rfl, rfl⟩
  · obtain rfl := Option.some.inj h
    exact ⟨rfl, rfl⟩
  · cases h
  · rename_i width
    obtain ⟨hwidth, rfl⟩ : (1 ≤ width ∧ width ≤ 128) ∧ SelaType.integer width = type := by
      simpa using h
    refine ⟨rfl, ?_⟩
    rw [NativeTypes.nativeType, if_pos hwidth]

theorem nativeAlternatives_imported : ∀ {entries : List OverlapAlternative}
    {alternatives : List SelaType} {domains : List Attr} {natives : List LlvmType},
    entries.mapM (fun entry => alternativeType entry.type entry.type) = some alternatives →
      types.nativeAlternatives (typesRename rename alternatives) domains = some natives →
      natives = entries.map OverlapAlternative.type
  | [], alternatives, domains, natives, himport, hnative => by
    obtain rfl := Option.some.inj himport
    exact (Option.some.inj hnative).symm
  | entry :: entries, alternatives, domains, natives, himport, hnative => by
    rw [List.mapM_cons] at himport
    obtain ⟨alternative, halternative, himport⟩ :=
      Option.bind_eq_some_iff.mp himport
    obtain ⟨others, hothers, himport⟩ := Option.bind_eq_some_iff.mp himport
    obtain rfl := Option.some.inj himport
    rw [typesRename, NativeTypes.nativeAlternatives] at hnative
    obtain ⟨_, -, hnative⟩ := Option.bind_eq_some_iff.mp hnative
    obtain ⟨first, hfirst, hnative⟩ := Option.bind_eq_some_iff.mp hnative
    obtain ⟨_, -, hnative⟩ := Option.bind_eq_some_iff.mp hnative
    obtain ⟨rest, hrest, hnative⟩ := Option.bind_eq_some_iff.mp hnative
    obtain rfl := Option.some.inj hnative
    have htype : entry.type = first := by
      unfold alternativeType at halternative
      split at halternative
      · rename_i scalar other hscalar hother
        rw [if_pos (LlvmType.scalar.inj (hscalar.symm.trans hother))] at halternative
        obtain ⟨hrename, hscalarNative⟩ : alternative.rename rename = alternative ∧
          types.nativeType alternative = some (.scalar scalar) := nativeType_scalarType halternative
        rw [hrename, hscalarNative] at hfirst
        rw [hscalar]
        exact Option.some.inj hfirst
      · cases halternative
    rw [List.map_cons, htype, nativeAlternatives_imported hothers hrest]

theorem nativeFields_imported {replace : LlvmType → String} :
    ∀ {fields : List LlvmType} {imported : List SelaType} {natives : List LlvmType},
    (∀ field ∈ fields, ∀ type native, importedType overlaps target identity field = some type →
      types.nativeType (type.rename rename) = some native → native = field.rename replace) →
      importedFields overlaps target identity fields = some imported →
      types.nativeFields (typesRename rename imported) = some natives →
      natives = fieldsRename replace fields
  | [], imported, natives, _, himport, hnative => by
    obtain rfl := Option.some.inj himport
    exact (Option.some.inj hnative).symm
  | field :: fields, imported, natives, h, himport, hnative => by
    obtain ⟨hfield, h⟩ := List.forall_mem_cons.mp h
    rw [importedFields] at himport
    obtain ⟨type, htype, himport⟩ := Option.bind_eq_some_iff.mp himport
    obtain ⟨others, hothers, himport⟩ := Option.bind_eq_some_iff.mp himport
    obtain rfl := Option.some.inj himport
    rw [typesRename, NativeTypes.nativeFields] at hnative
    obtain ⟨first, hfirst, hnative⟩ := Option.bind_eq_some_iff.mp hnative
    obtain ⟨_, -, hnative⟩ := Option.bind_eq_some_iff.mp hnative
    obtain ⟨rest, hrest, hnative⟩ := Option.bind_eq_some_iff.mp hnative
    obtain rfl := Option.some.inj hnative
    rw [fieldsRename, ← hfield type first htype hfirst, ← nativeFields_imported h hothers hrest]

theorem renamed_of_ne {name : String} (h : name ≠ "") : renamed rename name = rename name :=
  if_neg h

/-- The native overlapping storage of what was imported. -/
theorem nativeType_importedOverlap {native lowered : LlvmType}
    {overlap : NativeOverlap} {type : SelaType}
    (hproven : ProvenOverlap types.layout native overlap)
    (himport : mergeNativeOverlap overlap overlap (identity native) target.id target.id
      alternativeType = .ok type)
    (hlower : types.nativeType (type.rename rename) = some lowered) :
    ∃ name scalar, native = .struct name false [.scalar scalar] ∧
      lowered = .struct (some (renamed rename (identity native))) false [.scalar scalar] := by
  obtain ⟨alternatives, domains, rfl, halternatives⟩ := mergeNativeOverlap_self himport
  obtain ⟨name, carrier, rfl, hcarrier⟩ := hproven.storage
  rw [SelaType.rename, NativeTypes.nativeType] at hlower
  obtain ⟨_, -, hlower⟩ := Option.bind_eq_some_iff.mp hlower
  obtain ⟨_, -, hlower⟩ := Option.bind_eq_some_iff.mp hlower
  obtain ⟨selected, hselected, hlower⟩ := Option.bind_eq_some_iff.mp hlower
  obtain ⟨chosen, hchosen, hlower⟩ := Option.bind_eq_some_iff.mp hlower
  obtain rfl := nativeAlternatives_imported halternatives hselected
  rw [hcarrier] at hchosen
  obtain rfl := Option.some.inj hchosen
  obtain ⟨scalar, rfl⟩ := scalar_of_carrier hcarrier
  exact ⟨name, scalar, rfl, (Option.some.inj hlower).symm⟩

/-- A type that was imported, renamed and lowered is the native type with the name of each record
replaced by what its identity was renamed to. -/
theorem nativeType_importedType
    (hproven : ∀ native overlap, overlaps.lookup native = some overlap →
      ProvenOverlap types.layout native overlap)
    (hrename : ∀ name, name ≠ "" → rename name ≠ "") {native lowered : LlvmType} {type : SelaType}
    (hnamed : ∀ record ∈ native.structs, identity record ≠ "")
    (himport : importedType overlaps target identity native = some type)
    (hlower : types.nativeType (type.rename rename) = some lowered) :
    lowered = native.rename fun record => rename (identity record) := by
  cases native with
  | void =>
    obtain rfl := Option.some.inj himport
    cases hlower
  | scalar scalar =>
    obtain ⟨hsame, hscalar⟩ : type.rename rename = type ∧
      types.nativeType type = some (.scalar scalar) := nativeType_scalarType himport
    rw [hsame, hscalar] at hlower
    exact (Option.some.inj hlower).symm
  | vector element count =>
    obtain ⟨_, -, himport⟩ := Option.bind_eq_some_iff.mp himport
    obtain ⟨elementType, helement, himport⟩ := Option.bind_eq_some_iff.mp himport
    obtain rfl := Option.some.inj himport
    obtain ⟨-, hscalar⟩ : elementType.rename rename = elementType ∧
      types.nativeType elementType = some (.scalar element) := nativeType_scalarType helement
    have hsame : (SelaType.vector [count] false elementType).rename rename =
        .vector [count] false elementType := rfl
    rw [hsame, NativeTypes.nativeType, hscalar] at hlower
    obtain ⟨-, rfl⟩ : _ ∧ LlvmType.vector element count = lowered := by
      simpa [NativeTypes.fixedVector] using hlower
    rfl
  | array element count =>
    rw [importedType] at himport
    obtain ⟨elementType, helement, himport⟩ := Option.bind_eq_some_iff.mp himport
    obtain rfl := Option.some.inj himport
    rw [SelaType.rename, NativeTypes.nativeType] at hlower
    obtain ⟨elementLowered, hlowered, hlower⟩ := Option.bind_eq_some_iff.mp hlower
    rw [LlvmType.structs] at hnamed
    obtain rfl : elementLowered = element.rename fun record => rename (identity record) :=
      nativeType_importedType hproven hrename hnamed helement hlowered
    obtain ⟨-, rfl⟩ : count ≤ 2 ^ 30 ∧ LlvmType.array _ count = lowered := by
      simpa [NativeTypes.nativeArray] using hlower
    rfl
  | struct name packed fields =>
    rw [importedType, importedStorage] at himport
    rw [LlvmType.structs] at hnamed
    obtain ⟨hown, hnamed⟩ := List.forall_mem_append.mp hnamed
    have hidentity : name ≠ none → identity (.struct name packed fields) ≠ "" := fun hne =>
      hown _ (by simp [hne])
    split at himport
    · rename_i overlap hoverlap
      obtain ⟨_, hguard, himport⟩ := Option.bind_eq_some_iff.mp himport
      have hne : name ≠ none := by simpa [guard] using hguard
      obtain ⟨_, scalar, hnative, rfl⟩ :=
        nativeType_importedOverlap (hproven _ _ hoverlap)
          (NativeTypes.toOption_eq_some.mpr himport) hlower
      obtain ⟨own, rfl⟩ := Option.ne_none_iff_exists'.mp hne
      obtain ⟨-, rfl, rfl⟩ := LlvmType.struct.inj hnative
      rw [renamed_of_ne (hidentity hne), LlvmType.rename]
      rfl
    · obtain ⟨imported, hfields, rfl⟩ := Option.map_eq_some_iff.mp himport
      rw [SelaType.rename, NativeTypes.nativeType] at hlower
      obtain ⟨_, -, hlower⟩ := Option.bind_eq_some_iff.mp hlower
      obtain ⟨natives, hnatives, hlower⟩ := Option.bind_eq_some_iff.mp hlower
      obtain rfl := Option.some.inj hlower
      have hlowered : natives =
          fieldsRename (fun record => rename (identity record)) fields :=
        nativeFields_imported (fun field hfield type native htype hnative =>
          have := List.sizeOf_lt_of_mem hfield
          nativeType_importedType hproven hrename
            (fun record hrecord => hnamed record (structs_subset hfield hrecord)) htype hnative)
          hfields hnatives
      rw [LlvmType.rename, ← hlowered]
      cases name with
      | none => rfl
      | some own =>
        have hne := hidentity (by simp)
        rw [if_neg (by simp), renamed_of_ne hne, NativeTypes.structName, if_neg (hrename _ hne)]
        rfl
  | unsized spelling => cases himport
termination_by sizeOf native

theorem nativeTypes_imported
    (hproven : ∀ native overlap, overlaps.lookup native = some overlap →
      ProvenOverlap types.layout native overlap)
    (hrename : ∀ name, name ≠ "" → rename name ≠ "") :
    ∀ {natives lowered : List LlvmType} {imported : List SelaType},
    (∀ record ∈ natives.flatMap LlvmType.structs, identity record ≠ "") →
      natives.mapM (importedType overlaps target identity) = some imported →
      (imported.map (SelaType.rename rename)).mapM types.nativeType = some lowered →
      lowered = natives.map (LlvmType.rename fun record => rename (identity record))
  | [], lowered, imported, _, himport, hlower => by
    obtain rfl := Option.some.inj himport
    exact (Option.some.inj hlower).symm
  | native :: natives, lowered, imported, hnamed, himport, hlower => by
    rw [List.flatMap_cons] at hnamed
    obtain ⟨hnative, hnamed⟩ := List.forall_mem_append.mp hnamed
    rw [List.mapM_cons] at himport
    obtain ⟨type, htype, himport⟩ := Option.bind_eq_some_iff.mp himport
    obtain ⟨others, hothers, himport⟩ := Option.bind_eq_some_iff.mp himport
    obtain rfl := Option.some.inj himport
    rw [List.map_cons, List.mapM_cons] at hlower
    obtain ⟨first, hfirst, hlower⟩ := Option.bind_eq_some_iff.mp hlower
    obtain ⟨rest, hrest, hlower⟩ := Option.bind_eq_some_iff.mp hlower
    obtain rfl := Option.some.inj hlower
    rw [List.map_cons, ← nativeType_importedType hproven hrename hnative htype hfirst,
      ← nativeTypes_imported hproven hrename hnamed hothers hrest]

end Lowering

end StorageTypes

/-! ## From a module and back -/

open StorageTypes

section Module

variable {types : NativeTypes} {target : TargetInfo}

namespace Merger

theorem numbered_empty : Merger.empty.Numbered := by
  intro _ _ _ hshared
  simp [shared, Correspondence.Tables.shared, empty] at hshared

theorem injective_empty : Merger.empty.storageIdentities.Injective := by
  intro _ _ _ _ hshared
  simp [Correspondence.Tables.shared, empty] at hshared

/-- No identity is lost. -/
theorem Numbered.image_ne {m : Merger} (h : m.Numbered) {name : String} (hne : name ≠ "") :
    m.image target name ≠ "" := by
  unfold image
  rcases hshared : m.shared target name with _ | common
  · exact hne
  · obtain ⟨position, -, rfl⟩ := h target name common hshared
    intro hempty
    simpa using congrArg String.toList hempty

theorem image_injective {m : Merger} (h : m.storageIdentities.Injective) {one other : String}
    (hone : (m.shared target one).isSome = true) (hother : (m.shared target other).isSome = true)
    (heq : m.image target one = m.image target other) : one = other := by
  obtain ⟨common, hone⟩ := Option.isSome_iff_exists.mp hone
  obtain ⟨common', hother⟩ := Option.isSome_iff_exists.mp hother
  rw [image, image, hone, hother] at heq
  obtain rfl : common = common' := heq
  exact h target one other common hone hother

/-- A type of a target that was merged with those of other targets on the way to a state, in which
each identity of an alternative that stayed as it was is its own image. -/
structure Absorbs (m : Merger) (target : TargetInfo) (type merged : SelaType) : Prop where
  merge : ∃ observations before after, Concretes observations ∧ (target, type) ∈ observations ∧
    exec (mergeType observations) before = (.ok merged, after) ∧ after.Reaches m ∧
      m.Kept (rawIdentities observations)

theorem Absorbs.roundTrips {m : Merger} {type merged : SelaType}
    (h : m.Absorbs target type merged) : m.RoundTrips target type merged := by
  obtain ⟨observations, before, after, hobserved, hmem, hmerge, hlater, hkept⟩ := h.merge
  exact ((mergeType_ok hobserved hmerge).2 m hlater.grows).exact.mpr hkept target type hmem

end Merger

/-- The types of a module that are imported, merged with those of other targets, specialized and
lowered are the native types of the module, where the name of each record is replaced by its shared
identity : no two records come to have one name. -/
theorem importedTypes_lowered {m : Merger} {observed : List (LlvmType × Option DIType)}
    {overlaps : List (LlvmType × NativeOverlap)} {natives lowered : List LlvmType}
    {imported merged specialized : List SelaType} {storage : StorageTypes} {state : LoweredTypes}
    (hreaches : Merger.empty.Reaches m)
    (hoverlaps : discoverNativeOverlaps types.layout observed = .ok overlaps)
    (himport : exec (natives.mapM (importType overlaps target)) ⟨[], []⟩ = (.ok imported, storage))
    (hmerged : List.Forall₂ (m.Absorbs target) imported merged)
    (hspecialized : merged.mapM (specializeType target) = .ok specialized)
    (hlowered : exec (specialized.mapM types.lowerType) ⟨[], []⟩ = (.ok lowered, state)) :
    lowered = natives.map (LlvmType.rename fun record => m.image target (storage.identity record)) ∧
      ∀ one ∈ natives.flatMap LlvmType.structs, ∀ other ∈ natives.flatMap LlvmType.structs,
        m.image target (storage.identity one) = m.image target (storage.identity other) →
          one = other := by
  have hgrows := hreaches.grows
  have hproven := (foundOverlaps_foldlM hoverlaps).lookup
  obtain ⟨hholds, -, hdescribed⟩ := (imports_types hproven natives).sound holds_empty himport
  have htypes := hdescribed.imported storage.identity hholds.extends
  have hnamed : ∀ record ∈ natives.flatMap LlvmType.structs, storage.identity record ≠ "" :=
    fun record hrecord => hholds.identity_ne (hdescribed.named record hrecord)
  have hroundTrips : List.Forall₂ (m.RoundTrips target) imported merged :=
    hmerged.imp fun _ _ h => h.roundTrips
  constructor
  · have hrenamed : imported.map (SelaType.rename (m.image target)) = specialized :=
      map_eq_of_forall₂_left (fun _ _ _ htype hresult =>
        Except.ok.inj (htype.specialized.symm.trans hresult)) hroundTrips.flip
        (mapM_ok.mp hspecialized)
    subst hrenamed
    obtain ⟨hnative, -⟩ := (NativeTypes.lowers_types _).sound NativeTypes.holds_empty hlowered
    exact nativeTypes_imported hproven
      (fun _ => ((hgrows.numbered Merger.numbered_empty).image_ne ·)) hnamed htypes hnative
  · -- The image of each identity is known, as the type that holds it came through the merge.
    have hknown : ∀ record ∈ natives.flatMap LlvmType.structs,
        (m.shared target (storage.identity record)).isSome = true := fun record hrecord => by
      obtain ⟨native, hnative, hmem⟩ := List.mem_flatMap.mp hrecord
      obtain ⟨type, hmemType, htype⟩ := exists_of_forall₂_left (mapM_some.mp htypes) hnative
      obtain ⟨_, -, hknows⟩ := exists_of_forall₂_left hroundTrips hmemType
      exact hknows.knows _
        (identities_importedType hproven (hnamed record hrecord) htype hmem)
    intro one hone other hother heq
    exact hholds.injective (hdescribed.named one hone) (hdescribed.named other hother)
      (Merger.image_injective (hgrows.tables.injective Merger.injective_empty) (hknown one hone)
        (hknown other hother) heq)

end Module

namespace Merger

/-- Storage of a union of a number and a double on some targets. -/
def numberOverlap (identity : String) (targets : List String) : SelaType :=
  .overlap identity [.integer 32, .f64] [targetSet targets, targetSet targets]

def numberOverlaps : Observations TargetInfo SelaType :=
  [(x86_64, numberOverlap "r0" ["x86_64"]), (armv7, numberOverlap "r1" ["armv7"])]

/-- Records of a word and the union. -/
def numberRecords : Observations TargetInfo SelaType :=
  [(x86_64, .record "r4" false [.integer 64, numberOverlap "r0" ["x86_64"]]),
    (armv7, .record "r0" false [.integer 32, numberOverlap "r1" ["armv7"]])]

def mergedOverlap : SelaType := numberOverlap "r0" ["x86_64", "armv7"]

theorem numberOverlaps_concretes : Concretes numberOverlaps where
  nodup := by decide
  registered target type h := by
    simp only [numberOverlaps, List.mem_cons, Prod.mk.injEq, List.not_mem_nil, or_false] at h
    rcases h with ⟨rfl, -⟩ | ⟨rfl, -⟩ <;> decide
  concrete target type h := by
    simp only [numberOverlaps, List.mem_cons, Prod.mk.injEq, List.not_mem_nil, or_false] at h
    rcases h with ⟨rfl, rfl⟩ | ⟨rfl, rfl⟩ <;>
      simp [numberOverlap, SelaType.Concrete, typesConcrete, x86_64, armv7, targetSet]

theorem numberRecords_concretes : Concretes numberRecords where
  nodup := by decide
  registered target type h := by
    simp only [numberRecords, List.mem_cons, Prod.mk.injEq, List.not_mem_nil, or_false] at h
    rcases h with ⟨rfl, -⟩ | ⟨rfl, -⟩ <;> decide
  concrete target type h := by
    simp only [numberRecords, List.mem_cons, Prod.mk.injEq, List.not_mem_nil, or_false] at h
    rcases h with ⟨rfl, rfl⟩ | ⟨rfl, rfl⟩ <;>
      simp [numberOverlap, SelaType.Concrete, typesConcrete, x86_64, armv7, targetSet]

theorem mergeType_numberOverlaps {m m' : Merger}
    (hidentity : exec (storageIdentity numberOverlaps) m = (.ok "r0", m')) :
    exec (mergeType numberOverlaps) m = (.ok mergedOverlap, m') := by
  have hnumber : mergeType (Observations.part (alternative 0) numberOverlaps) =
      pure (.integer 32) := by
    rw [show Observations.part (alternative 0) numberOverlaps =
      [(x86_64, SelaType.integer 32), (armv7, .integer 32)] from rfl, mergeType]
    simp [isWhole]
  have hreal : mergeType (Observations.part (alternative 1) numberOverlaps) = pure .f64 := by
    rw [show Observations.part (alternative 1) numberOverlaps =
      [(x86_64, SelaType.f64), (armv7, .f64)] from rfl, mergeType]
    simp [isWhole]
  rw [numberOverlaps, numberOverlap, mergeType, if_neg (by simp [isWhole]), if_neg (by simp [isInteger]),
    if_neg (by simp [isArray])]
  refine exec_check_bind_ok.mpr ⟨(), expect_ok.mpr (by simp [isOverlap, numberOverlap]), exec_bind_ok.mpr
    ⟨_, _, hidentity, ?_⟩⟩
  rw [if_pos (by simp [alternatives, numberOverlap])]
  refine exec_bind_ok.mpr ⟨[.integer 32, .f64], _, ?_, rfl⟩
  change exec ([0, 1].mapM fun k => mergeType (Observations.part (alternative k) numberOverlaps)) _ = _
  rw [List.mapM_cons, List.mapM_cons, List.mapM_nil, hnumber, hreal]
  rfl

theorem mergeType_numberRecords {m m' m'' : Merger}
    (hidentity : exec (storageIdentity numberRecords) m = (.ok "r1", m'))
    (hoverlap : exec (storageIdentity numberOverlaps) m' = (.ok "r0", m'')) :
    exec (mergeType numberRecords) m =
      (.ok (.record "r1" false [.word, mergedOverlap]), m'') := by
  have hword : mergeType (Observations.part (field 0) numberRecords) = pure .word := by
    rw [show Observations.part (field 0) numberRecords =
      [(x86_64, SelaType.integer 64), (armv7, .integer 32)] from rfl, mergeType]
    simp [isWhole, isInteger, x86_64, armv7]
  have hnested : exec (mergeType (Observations.part (field 1) numberRecords)) m' =
      (.ok mergedOverlap, m'') := mergeType_numberOverlaps hoverlap
  rw [numberRecords, mergeType, if_neg (by simp [isWhole]), if_neg (by simp [isInteger]),
    if_neg (by simp [isArray])]
  refine exec_check_bind_ok.mpr ⟨(), expect_ok.mpr (by simp [isRecord]), exec_bind_ok.mpr
    ⟨_, _, hidentity, ?_⟩⟩
  rw [if_pos (by simp [isPacked, fields])]
  refine exec_bind_ok.mpr ⟨[.word, mergedOverlap], _, ?_, rfl⟩
  change exec ([0, 1].mapM fun k => mergeType (Observations.part (field k) numberRecords)) _ = _
  rw [List.mapM_cons, List.mapM_cons, List.mapM_nil, hword]
  exact exec_bind_ok.mpr ⟨_, _, rfl, exec_bind_ok.mpr ⟨_, _, exec_bind_ok.mpr
    ⟨_, _, hnested, rfl⟩, rfl⟩⟩

theorem storages_numberOverlaps : storages numberOverlaps = [numberOverlaps] := by
  have hnumber : storages (Observations.part (alternative 0) numberOverlaps) = [] := by
    rw [show Observations.part (alternative 0) numberOverlaps =
      [(x86_64, SelaType.integer 32), (armv7, .integer 32)] from rfl, storages]
  have hreal : storages (Observations.part (alternative 1) numberOverlaps) = [] := by
    rw [show Observations.part (alternative 1) numberOverlaps =
      [(x86_64, SelaType.f64), (armv7, .f64)] from rfl, storages]
  rw [numberOverlaps, storages]
  change numberOverlaps :: (if uneven numberOverlaps = true then [] else
    ([0, 1].flatMap fun k => storages (Observations.part (alternative k) numberOverlaps))) = _
  rw [if_neg (by decide), List.flatMap_cons, List.flatMap_cons, hnumber, hreal]
  rfl

/-- No alternative stays as it is. -/
theorem rawIdentities_numberOverlaps : rawIdentities numberOverlaps = [] := by
  rw [rawIdentities, storages_numberOverlaps, List.flatMap_singleton, rawAlternatives,
    if_neg (by decide)]

theorem rawIdentities_numberRecords : rawIdentities numberRecords = [] := by
  have hword : storages (Observations.part (field 0) numberRecords) = [] := by
    rw [show Observations.part (field 0) numberRecords =
      [(x86_64, SelaType.integer 64), (armv7, .integer 32)] from rfl, storages]
  have hnested : storages (Observations.part (field 1) numberRecords) = [numberOverlaps] :=
    storages_numberOverlaps
  have hstorages : storages numberRecords = [numberRecords, numberOverlaps] := by
    rw [numberRecords, storages]
    change numberRecords :: ([0, 1].flatMap fun k =>
      storages (Observations.part (field k) numberRecords)) = _
    rw [List.flatMap_cons, List.flatMap_cons, hword, hnested]
    rfl
  rw [rawIdentities, hstorages, List.flatMap_cons, List.flatMap_singleton, rawAlternatives,
    rawAlternatives, if_neg (by decide), if_neg (by decide), List.nil_append]

end Merger

/-- A record of the C program that holds a word and the union. -/
def wordNumber : LlvmType := .struct (some "struct.s") false [.int 32, numberStorage]

/-- What the lowering for its target knows. -/
def armTypes : NativeTypes :=
  { target := Merger.armv7
    layout := NativeTarget.armv7.layout
    vaListType := .ptr
    vaListArgumentType := .ptr }

/-- The imports of the record and of the union it holds. -/
def importNumbers : Stateful StorageTypes (List SelaType) :=
  [wordNumber, numberStorage].mapM
    (importType [(numberStorage, ⟨[⟨"word", .int 32⟩, ⟨"real", .doubleTy⟩]⟩)] Merger.armv7)

/-- The union was merged before the record : the two exchange their identities. -/
theorem importedTypes_lowered_wordNumber : ∃ m, Merger.empty.Reaches m ∧
    [LlvmType.struct (some "r1") false [.int 32, .struct (some "r0") false [.doubleTy]],
        .struct (some "r0") false [.doubleTy]] =
      [wordNumber, numberStorage].map (LlvmType.rename fun record =>
        m.image Merger.armv7 ((exec importNumbers ⟨[], []⟩).2.identity record)) ∧
    m.image Merger.armv7 ((exec importNumbers ⟨[], []⟩).2.identity wordNumber) ≠
      m.image Merger.armv7 ((exec importNumbers ⟨[], []⟩).2.identity numberStorage) := by
  let union := exec (Merger.storageIdentity Merger.numberOverlaps) Merger.empty
  let record := exec (Merger.storageIdentity Merger.numberRecords) union.2
  let nested := exec (Merger.storageIdentity Merger.numberOverlaps) record.2
  have hunion : exec (Merger.mergeType Merger.numberOverlaps) Merger.empty =
      (.ok Merger.mergedOverlap, union.2) :=
    Merger.mergeType_numberOverlaps (Prod.ext (by decide +kernel) rfl)
  have hrecord : exec (Merger.mergeType Merger.numberRecords) union.2 =
      (.ok (.record "r1" false [.word, Merger.mergedOverlap]), nested.2) :=
    Merger.mergeType_numberRecords (Prod.ext (by decide +kernel) rfl)
      (Prod.ext (by decide +kernel) rfl)
  have hbefore : Merger.empty.Reaches union.2 :=
    .types (.refl _) Merger.numberOverlaps_concretes hunion
  have hlater : union.2.Reaches nested.2 :=
    .types (.refl _) Merger.numberRecords_concretes hrecord
  have hreaches : Merger.empty.Reaches nested.2 :=
    .types hbefore Merger.numberRecords_concretes hrecord
  have hkept : nested.2.Kept [] := fun _ _ hmem => by cases hmem
  have habsorbs : List.Forall₂ (nested.2.Absorbs Merger.armv7)
      [.record "r0" false [.integer 32, Merger.numberOverlap "r1" ["armv7"]],
        Merger.numberOverlap "r1" ["armv7"]]
      [.record "r1" false [.word, Merger.mergedOverlap], Merger.mergedOverlap] :=
    .cons ⟨_, _, _, Merger.numberRecords_concretes, by simp [Merger.numberRecords], hrecord,
        .refl _, Merger.rawIdentities_numberRecords ▸ hkept⟩
      (.cons ⟨_, _, _, Merger.numberOverlaps_concretes, by simp [Merger.numberOverlaps], hunion,
        hlater, Merger.rawIdentities_numberOverlaps ▸ hkept⟩ .nil)
  have hoverlaps : discoverNativeOverlaps armTypes.layout [(numberStorage, some numberUnion)] =
      .ok [(numberStorage, ⟨[⟨"word", .int 32⟩, ⟨"real", .doubleTy⟩]⟩)] := by decide +kernel
  have himport : exec importNumbers ⟨[], []⟩ =
      (.ok [.record "r0" false [.integer 32, Merger.numberOverlap "r1" ["armv7"]],
        Merger.numberOverlap "r1" ["armv7"]],
        (exec importNumbers ⟨[], []⟩).2) := Prod.ext (by decide +kernel) rfl
  let specialized : List SelaType :=
    [.record "r1" false [.integer 32, Merger.numberOverlap "r0" ["armv7"]],
      Merger.numberOverlap "r0" ["armv7"]]
  have hspecialized : [.record "r1" false [.word, Merger.mergedOverlap],
      Merger.mergedOverlap].mapM (specializeType Merger.armv7) = .ok specialized := by decide +kernel
  have hlowered : exec (specialized.mapM armTypes.lowerType) ⟨[], []⟩ =
      (.ok [.struct (some "r1") false [.int 32, .struct (some "r0") false [.doubleTy]],
        .struct (some "r0") false [.doubleTy]],
        (exec (specialized.mapM armTypes.lowerType) ⟨[], []⟩).2) := Prod.ext (by decide +kernel) rfl
  obtain ⟨hsame, hdistinct⟩ :=
    importedTypes_lowered hreaches hoverlaps himport habsorbs hspecialized hlowered
  exact ⟨nested.2, hreaches, hsame, fun himage => absurd
    (hdistinct wordNumber (by decide +kernel) numberStorage (by decide +kernel) himage) (by decide)⟩

end Sela
