import Std.Data.String.ToNat
import Sela.NativeTypes

/-!
# Native types of a module

`importType` makes the type of a native type of a module. It numbers the records and the
overlapping storage with a name as it meets them, and keeps their types. `importedType` is the same
under identities that are given, with nothing to keep. What is imported is what the identities
given out describe (`imports_types`), and no two records are given one identity
(`Holds.injective`). The walk fails for no reason of its own : a list of types is imported exactly
when each of them is under some identities (`importTypes_ok_iff`).
-/

namespace Sela

open Checked Stateful OverlapEvidence

/-- The storage met so far : the type of each record, and the identities given out. The importer
walks a module paired with itself, so that one table stands for both. -/
structure StorageTypes where
  storageTypes : List (LlvmType × SelaType)
  recordIDs : List (LlvmType × String)

namespace StorageTypes

/-! ## Import -/

def scalarType : ScalarType → Option SelaType
  | .pointer addressSpace => if addressSpace = 0 then some .ptr else none
  | .floating .float => some .f32
  | .floating .double => some .f64
  | .floating _ => none
  | .integer width => if 1 ≤ width ∧ width ≤ 128 then some (.integer width) else none

/-- The type of an alternative of an overlap, which is a scalar. -/
def alternativeType (left right : LlvmType) : Option SelaType :=
  match left, right with
  | .scalar left, .scalar right => if left = right then scalarType left else none
  | _, _ => none

/-- The next identity. -/
def nextIdentity (storage : StorageTypes) : String := "r" ++ toString storage.recordIDs.length

/-- Give a record that has a name an identity. -/
def recordName (native : LlvmType) (name : Option String) : Stateful StorageTypes String :=
  if name = none then pure ""
  else do
    let storage ← get
    check (ensure (storage.recordIDs.lookup native = none)
      "record correspondence is not one-to-one")
    set { storage with recordIDs := storage.recordIDs ++ [(native, storage.nextIdentity)] }
    pure storage.nextIdentity

/-- Keep the type of a record. -/
def keepType (native : LlvmType) (type : SelaType) : Stateful StorageTypes SelaType := do
  modify fun storage => { storage with storageTypes := storage.storageTypes ++ [(native, type)] }
  pure type

/-- The type of overlapping storage, by its evidence. -/
def importOverlap (target : TargetInfo) (native : LlvmType) (name : Option String)
    (overlap : NativeOverlap) : Stateful StorageTypes SelaType := do
  let storage ← get
  check (ensure (name ≠ none ∧ storage.recordIDs.lookup native = none)
    "overlapping storage requires matching unique semantic layout evidence")
  let type ← check (mergeNativeOverlap overlap overlap storage.nextIdentity target.id target.id
    alternativeType)
  set { storage with recordIDs := storage.recordIDs ++ [(native, storage.nextIdentity)] }
  keepType native type

/-- The type of a record whose fields are imported by `fields`. -/
def importRecord (native : LlvmType) (name : Option String) (packed : Bool)
    (fields : Stateful StorageTypes (List SelaType)) : Stateful StorageTypes SelaType := do
  let identity ← recordName native name
  let fields ← fields
  keepType native (.record identity packed fields)

section Import

variable (overlaps : List (LlvmType × NativeOverlap)) (target : TargetInfo)

/-- The type of a record, or of the overlapping storage it is. -/
def importStorage (native : LlvmType) (name : Option String) (packed : Bool)
    (fields : Stateful StorageTypes (List SelaType)) : Stateful StorageTypes SelaType := do
  let storage ← get
  match storage.storageTypes.lookup native, overlaps.lookup native with
  | some found, _ => pure found
  | none, some overlap => importOverlap target native name overlap
  | none, none => importRecord native name packed fields

mutual

/-- The type of a native type. -/
def importType : LlvmType → Stateful StorageTypes SelaType
  | .void => pure (.foreign (.other "none"))
  | .scalar type => check (require (scalarType type)
    "unsupported type correspondence; aggregate layout normalization is required")
  | .vector element count => do
    check (ensure (count ≤ 1024) "unsupported vector type correspondence")
    let element ← check (require (scalarType element)
      "unsupported type correspondence; aggregate layout normalization is required")
    pure (.vector [count] false element)
  | .array element count => do
    let element ← importType element
    pure (.array element (.integer 64 count))
  | .struct name packed fields =>
    importStorage overlaps target (.struct name packed fields) name packed (importFields fields)
  -- An opaque record. (The other types without extent are no types of a value.)
  | .unsized _ => check (throw "aggregate storage shapes need additional layout normalization")

def importFields : List LlvmType → Stateful StorageTypes (List SelaType)
  | [] => pure []
  | field :: fields => do
    let type ← importType field
    let types ← importFields fields
    pure (type :: types)

end

/-! ## Import under given identities -/

variable (identity : LlvmType → String)

/-- The type of a record with given fields, or of the overlapping storage it is. -/
def importedStorage (native : LlvmType) (name : Option String) (packed : Bool)
    (fields : Option (List SelaType)) : Option SelaType :=
  match overlaps.lookup native with
  | some overlap => do
    guard (name ≠ none)
    (mergeNativeOverlap overlap overlap (identity native) target.id target.id
      alternativeType).toOption
  | none => fields.map (.record (if name = none then "" else identity native) packed)

mutual

/-- The type of a native type, where each record that has a name has the identity given. -/
def importedType : LlvmType → Option SelaType
  | .void => some (.foreign (.other "none"))
  | .scalar type => scalarType type
  | .vector element count => do
    guard (count ≤ 1024)
    let element ← scalarType element
    some (.vector [count] false element)
  | .array element count => do
    let element ← importedType element
    some (.array element (.integer 64 count))
  | .struct name packed fields =>
    importedStorage overlaps target identity (.struct name packed fields) name packed
      (importedFields fields)
  | .unsized _ => none

def importedFields : List LlvmType → Option (List SelaType)
  | [] => some []
  | field :: fields => do
    let type ← importedType field
    let types ← importedFields fields
    some (type :: types)

end

end Import

end StorageTypes

/-! ## Records of a native type -/

mutual

/-- The records of a native type that have a name. -/
def LlvmType.structs : LlvmType → List LlvmType
  | .array element _ => element.structs
  | .struct name packed fields =>
    (if name = none then [] else [.struct name packed fields]) ++ fieldsStructs fields
  | _ => []

def fieldsStructs : List LlvmType → List LlvmType
  | [] => []
  | field :: fields => field.structs ++ fieldsStructs fields

end

namespace StorageTypes

/-! ## Overlapping storage -/

/-- The merge of overlapping storage with itself has the type of each alternative. -/
theorem mergeFrom_self {entries : List OverlapAlternative} {target : String}
    {mergeType : LlvmType → LlvmType → Option SelaType} {i : ℕ}
    {alternatives merged : List SelaType} {domains mergedDomains : List Attr}
    (h : mergeFrom entries entries target target mergeType i i alternatives domains =
      .ok (merged, mergedDomains)) :
    ∃ rest, merged = alternatives ++ rest ∧
      (entries.drop i).mapM (fun entry => mergeType entry.type entry.type) = some rest := by
  rw [mergeFrom] at h
  split at h
  · rename_i hmore
    have hi : i < entries.length := hmore.elim id id
    have hentry : entries[i]? = some entries[i] := List.getElem?_eq_getElem hi
    have hcommon : common entries entries i i = true :=
      common_eq.mpr ⟨entries[i], entries[i], hentry, hentry, rfl⟩
    have hleft : nextLeft entries entries i i = i + 1 := by simp [nextLeft, hcommon]
    have hright : nextRight entries entries i i = i + 1 := by simp [nextRight, hcommon]
    split at h
    · cases h
    · split at h
      · cases h
      · rename_i type htype
        have hmerged : mergeType entries[i].type entries[i].type = some type := by
          simpa [mergedType, hcommon, hentry] using htype
        rw [hleft, hright] at h
        obtain ⟨rest, rfl, hrest⟩ := mergeFrom_self h
        refine ⟨type :: rest, by simp, ?_⟩
        rw [List.drop_eq_getElem_cons hi, List.mapM_cons, hmerged, hrest]
        rfl
  · rename_i hend
    obtain ⟨rfl, rfl⟩ := Prod.mk.inj (Except.ok.inj h)
    refine ⟨[], by simp, ?_⟩
    rw [List.drop_eq_nil_of_le (Nat.not_lt.mp fun hlt => hend (.inl hlt))]
    rfl
termination_by entries.length - i

theorem mergeNativeOverlap_self {overlap : NativeOverlap} {name target : String}
    {mergeType : LlvmType → LlvmType → Option SelaType} {type : SelaType}
    (h : mergeNativeOverlap overlap overlap name target target mergeType = .ok type) :
    ∃ alternatives domains, type = .overlap name alternatives domains ∧
      overlap.alternatives.mapM (fun entry => mergeType entry.type entry.type) =
        some alternatives := by
  obtain ⟨merged, hmerged, h⟩ := bind_ok.mp h
  obtain rfl := Except.ok.inj h
  obtain ⟨rest, hrest, halternatives⟩ := mergeFrom_self hmerged
  exact ⟨merged.1, merged.2, rfl, hrest ▸ halternatives⟩

theorem scalar_of_alternative {type : LlvmType} (h : isOverlapAlternative type = true) :
    ∃ scalar, type = .scalar scalar := by
  cases type with
  | scalar scalar => exact ⟨scalar, rfl⟩
  | void => cases h
  | vector element count => cases h
  | array element count => cases h
  | struct name packed fields => cases h
  | unsized spelling => cases h

/-- The carrier is one of the types that may overlap, so a scalar. -/
theorem scalar_of_carrier {layout : DataLayout} {alternatives : List LlvmType}
    {carrier : LlvmType} (h : selectOverlapCarrier layout alternatives = .ok carrier) :
    ∃ scalar, carrier = .scalar scalar := by
  obtain ⟨-, hqualified, hfind⟩ := selectOverlapCarrier_ok_iff.mp h
  exact scalar_of_alternative (hqualified carrier (List.mem_of_find?_eq_some hfind))

theorem structs_overlap {layout : DataLayout} {native : LlvmType} {name : Option String}
    {packed : Bool} {fields : List LlvmType} {overlap : NativeOverlap}
    (hnative : native = .struct name packed fields) (hproven : ProvenOverlap layout native overlap)
    (hname : name ≠ none) : native.structs = [native] := by
  obtain ⟨own, carrier, rfl, hcarrier⟩ := hproven.storage
  obtain ⟨rfl, rfl, rfl⟩ := LlvmType.struct.inj hnative
  obtain ⟨scalar, rfl⟩ := scalar_of_carrier hcarrier
  rw [LlvmType.structs, if_neg hname]
  rfl

/-! ## What was imported -/

/-- The identity a record was given. -/
def identity (storage : StorageTypes) (native : LlvmType) : String :=
  (storage.recordIDs.lookup native).getD ""

/-- Identities that are those given out, where there are any. -/
def Extends (identity : LlvmType → String) (storage : StorageTypes) : Prop :=
  ∀ native name, (native, name) ∈ storage.recordIDs → identity native = name

/-- A result is what is imported under any identities that extend those given out, which all
records of the type have. -/
structure Described {α : Type} (storage : StorageTypes)
    (imported : (LlvmType → String) → Option α) (records : List LlvmType) (a : α) : Prop where
  imported : ∀ identity, Extends identity storage → imported identity = some a
  named : ∀ record ∈ records, record ∈ storage.recordIDs.map Prod.fst

section Import

variable {overlaps : List (LlvmType × NativeOverlap)} {target : TargetInfo}

/-- The identities were given out by number, each once, and each type kept is what is imported. -/
structure Holds (overlaps : List (LlvmType × NativeOverlap)) (target : TargetInfo)
    (storage : StorageTypes) : Prop where
  nodup : (storage.recordIDs.map Prod.fst).Nodup
  numbered : storage.recordIDs.map Prod.snd =
    (List.range storage.recordIDs.length).map fun position => "r" ++ toString position
  made : ∀ native type, (native, type) ∈ storage.storageTypes →
    Described storage (fun identity => importedType overlaps target identity native)
      native.structs type

/-- A computation imports what the identities it leaves describe. -/
structure Imports (overlaps : List (LlvmType × NativeOverlap)) (target : TargetInfo) {α : Type}
    (m : Stateful StorageTypes α) (imported : (LlvmType → String) → Option α)
    (records : List LlvmType) : Prop where
  sound : ∀ {storage storage' : StorageTypes} {a : α}, Holds overlaps target storage →
    exec m storage = (.ok a, storage') → Holds overlaps target storage' ∧
      storage.recordIDs <+: storage'.recordIDs ∧ Described storage' imported records a

variable {α β : Type} {storage storage' : StorageTypes}

theorem Extends.mono {identity : LlvmType → String} (h : Extends identity storage')
    (hgrows : storage.recordIDs <+: storage'.recordIDs) : Extends identity storage :=
  fun native name hentry => h native name (hgrows.subset hentry)

theorem Described.mono {imported : (LlvmType → String) → Option α} {records : List LlvmType}
    {a : α} (h : Described storage imported records a)
    (hgrows : storage.recordIDs <+: storage'.recordIDs) : Described storage' imported records a :=
  ⟨fun identity hextends => h.imported identity (hextends.mono hgrows),
    fun record hrecord => (hgrows.map Prod.fst).subset (h.named record hrecord)⟩

theorem Imports.pure (a : α) : Imports overlaps target (Pure.pure a) (fun _ => some a) [] where
  sound hholds h := by
    obtain ⟨hb, rfl⟩ := Prod.mk.inj h
    obtain rfl := Except.ok.inj hb
    exact ⟨hholds, List.prefix_refl _, fun _ _ => rfl, by simp⟩

theorem Imports.check {x : Checked α} {imported : Option α}
    (h : ∀ a, x = .ok a → imported = some a) :
    Imports overlaps target (Stateful.check x) (fun _ => imported) [] where
  sound hholds hrun := by
    rw [exec_check] at hrun
    obtain ⟨hx, rfl⟩ := Prod.mk.inj hrun
    exact ⟨hholds, List.prefix_refl _, fun _ _ => h _ hx, by simp⟩

theorem Imports.ensure {condition : Prop} [Decidable condition] {message : String} :
    Imports overlaps target (Stateful.check (Checked.ensure condition message))
      (fun _ => guard condition) [] :=
  .check fun _ h => by simp [guard, ensure_ok.mp h]

theorem Imports.bind {m : Stateful StorageTypes α} {f : α → Stateful StorageTypes β}
    {imported : (LlvmType → String) → Option α} {next : α → (LlvmType → String) → Option β}
    {records records' : List LlvmType} (hm : Imports overlaps target m imported records)
    (hf : ∀ a, Imports overlaps target (f a) (next a) records') :
    Imports overlaps target (m >>= f) (fun identity => imported identity >>= (next · identity))
      (records ++ records') where
  sound hholds h := by
    obtain ⟨a, middle, ha, h⟩ := exec_bind_ok.mp h
    obtain ⟨hholds, hgrows, hdescribed⟩ := hm.sound hholds ha
    obtain ⟨hholds, hgrows', hnext⟩ := (hf a).sound hholds h
    refine ⟨hholds, hgrows.trans hgrows', fun identity hextends => ?_,
      List.forall_mem_append.mpr ⟨(hdescribed.mono hgrows').named, hnext.named⟩⟩
    exact Option.bind_eq_some_iff.mpr
      ⟨a, hdescribed.imported identity (hextends.mono hgrows'), hnext.imported identity hextends⟩

/-- A computation, and what is made of its result without a record. -/
theorem Imports.map {m : Stateful StorageTypes α} {f : α → β}
    {imported : (LlvmType → String) → Option α} {records : List LlvmType}
    (hm : Imports overlaps target m imported records) :
    Imports overlaps target (m >>= fun a => Pure.pure (f a))
      (fun identity => imported identity >>= fun a => some (f a)) records :=
  List.append_nil records ▸ hm.bind fun a => .pure (f a)

/-- A record without an identity is given the next one. -/
theorem Holds.identify {native : LlvmType} (h : Holds overlaps target storage)
    (hnone : storage.recordIDs.lookup native = none) :
    Holds overlaps target
      { storage with recordIDs := storage.recordIDs ++ [(native, storage.nextIdentity)] } := by
  refine ⟨?_, ?_, fun other type hother =>
    (h.made other type hother).mono (List.prefix_append _ _)⟩
  · rw [List.map_append]
    exact Grouping.nodup_concat h.nodup (Association.lookup_eq_none_iff_mem.mp hnone)
  · simp [h.numbered, List.range_succ, nextIdentity]

/-- The type of a record is kept. -/
theorem Holds.keep {native : LlvmType} {type : SelaType} (h : Holds overlaps target storage)
    (hdescribed : Described storage (fun identity => importedType overlaps target identity native)
      native.structs type) :
    Holds overlaps target
      { storage with storageTypes := storage.storageTypes ++ [(native, type)] } := by
  refine ⟨h.nodup, h.numbered, fun other found hother => ?_⟩
  rcases List.mem_append.mp hother with hother | hother
  · exact (h.made other found hother).mono (List.prefix_refl _)
  · obtain ⟨rfl, rfl⟩ := Prod.mk.inj (List.mem_singleton.mp hother)
    exact hdescribed.mono (List.prefix_refl _)

theorem imports_recordName {native : LlvmType} {name : Option String} :
    Imports overlaps target (recordName native name)
      (fun identity => some (if name = none then "" else identity native))
      (if name = none then [] else [native]) := by
  unfold recordName
  by_cases hname : name = none
  · simp only [if_pos hname]
    exact .pure ""
  · simp only [if_neg hname]
    refine ⟨fun {storage storage' a} hholds h => ?_⟩
    obtain ⟨_, _, hget, h⟩ := exec_bind_ok.mp h
    obtain ⟨hstorage, rfl⟩ := Prod.mk.inj hget
    obtain rfl := Except.ok.inj hstorage
    obtain ⟨_, hnone, h⟩ := exec_check_bind_ok.mp h
    obtain ⟨ha, rfl⟩ := Prod.mk.inj h
    obtain rfl := Except.ok.inj ha
    refine ⟨hholds.identify (ensure_ok.mp hnone), List.prefix_append _ _,
      fun identity hextends => ?_, by simp⟩
    exact congrArg some (hextends _ _ (by simp))

/-- The type of overlapping storage is kept under the next identity. -/
theorem imports_overlap {native : LlvmType} {name : Option String} {packed : Bool}
    {fields : List LlvmType} {overlap : NativeOverlap} {layout : DataLayout}
    (hnative : native = .struct name packed fields)
    (hoverlap : overlaps.lookup native = some overlap)
    (hproven : ProvenOverlap layout native overlap) :
    Imports overlaps target (importOverlap target native name overlap)
      (fun identity => importedType overlaps target identity native) native.structs where
  sound {storage storage' a} hholds h := by
    obtain ⟨_, _, hget, h⟩ := exec_bind_ok.mp h
    obtain ⟨hstorage, rfl⟩ := Prod.mk.inj hget
    obtain rfl := Except.ok.inj hstorage
    obtain ⟨_, hnew, h⟩ := exec_check_bind_ok.mp h
    obtain ⟨hname, hnone⟩ := ensure_ok.mp hnew
    obtain ⟨type, htype, h⟩ := exec_check_bind_ok.mp h
    obtain ⟨ha, rfl⟩ := Prod.mk.inj h
    obtain rfl := Except.ok.inj ha
    have hstructs := structs_overlap hnative hproven hname
    have hdescribed : Described
        { storage with recordIDs := storage.recordIDs ++ [(native, storage.nextIdentity)] }
        (fun identity => importedType overlaps target identity native) native.structs type := by
      refine ⟨fun identity hextends => ?_, by simp [hstructs]⟩
      have hidentity : identity native = storage.nextIdentity := hextends _ _ (by simp)
      subst hnative
      rw [importedType, importedStorage, hoverlap]
      dsimp only
      rw [hidentity, htype]
      simp [guard, hname, Except.toOption]
    exact ⟨(hholds.identify hnone).keep hdescribed, List.prefix_append _ _,
      hdescribed.mono (List.prefix_refl _)⟩

/-- The type of a record is kept once its fields are imported. -/
theorem imports_record {native : LlvmType} {name : Option String} {packed : Bool}
    {fields : List LlvmType} {importFields : Stateful StorageTypes (List SelaType)}
    (hnative : native = .struct name packed fields) (hnone : overlaps.lookup native = none)
    (hfields : Imports overlaps target importFields
      (fun identity => importedFields overlaps target identity fields) (fieldsStructs fields)) :
    Imports overlaps target (importRecord native name packed importFields)
      (fun identity => importedType overlaps target identity native) native.structs where
  sound {storage storage' a} hholds h := by
    obtain ⟨identity, named, hidentity, h⟩ := exec_bind_ok.mp h
    obtain ⟨hholds, hgrows, hidentity⟩ := imports_recordName.sound hholds hidentity
    obtain ⟨types, imported, htypes, h⟩ := exec_bind_ok.mp h
    obtain ⟨hholds, hgrows', htypes⟩ := hfields.sound hholds htypes
    obtain ⟨ha, rfl⟩ := Prod.mk.inj h
    obtain rfl := Except.ok.inj ha
    have hdescribed : Described imported
        (fun identity => importedType overlaps target identity native) native.structs
        (.record identity packed types) := by
      subst hnative
      refine ⟨fun own hextends => ?_, ?_⟩
      · have hown := (hidentity.mono hgrows').imported own hextends
        rw [importedType, importedStorage, hnone]
        dsimp only
        rw [htypes.imported own hextends, Option.some.inj hown]
        rfl
      · rw [LlvmType.structs]
        exact List.forall_mem_append.mpr ⟨(hidentity.mono hgrows').named, htypes.named⟩
    exact ⟨hholds.keep hdescribed, hgrows.trans hgrows', hdescribed.mono (List.prefix_refl _)⟩

theorem imports_storage {name : Option String} {packed : Bool} {fields : List LlvmType}
    {importFields : Stateful StorageTypes (List SelaType)} {layout : DataLayout}
    (hproven : ∀ native overlap, overlaps.lookup native = some overlap →
      ProvenOverlap layout native overlap)
    (hfields : Imports overlaps target importFields
      (fun identity => importedFields overlaps target identity fields) (fieldsStructs fields)) :
    Imports overlaps target
      (importStorage overlaps target (.struct name packed fields) name packed importFields)
      (fun identity => importedType overlaps target identity (.struct name packed fields))
      (LlvmType.struct name packed fields).structs where
  sound {storage storage' a} hholds h := by
    obtain ⟨_, _, hget, h⟩ := exec_bind_ok.mp h
    obtain ⟨hstorage, rfl⟩ := Prod.mk.inj hget
    obtain rfl := Except.ok.inj hstorage
    split at h
    · rename_i found hfound
      obtain ⟨ha, rfl⟩ := Prod.mk.inj h
      obtain rfl := Except.ok.inj ha
      exact ⟨hholds, List.prefix_refl _, hholds.made _ _ (NativeTypes.mem_of_lookup hfound)⟩
    · rename_i overlap hoverlap
      exact (imports_overlap rfl hoverlap (hproven _ _ hoverlap)).sound hholds h
    · rename_i hnone
      exact (imports_record rfl hnone hfields).sound hholds h

theorem imports_fields : ∀ {fields : List LlvmType},
    (∀ field ∈ fields, Imports overlaps target (importType overlaps target field)
      (fun identity => importedType overlaps target identity field) field.structs) →
      Imports overlaps target (importFields overlaps target fields)
        (fun identity => importedFields overlaps target identity fields) (fieldsStructs fields)
  | [], _ => .pure []
  | field :: fields, h => by
    obtain ⟨hfield, h⟩ := List.forall_mem_cons.mp h
    rw [importFields, fieldsStructs]
    simp only [importedFields]
    exact hfield.bind fun type => (imports_fields h).map

/-- A native type is imported as the identities describe. -/
theorem imports_type {layout : DataLayout}
    (hproven : ∀ native overlap, overlaps.lookup native = some overlap →
      ProvenOverlap layout native overlap) (native : LlvmType) :
    Imports overlaps target (importType overlaps target native)
      (fun identity => importedType overlaps target identity native) native.structs := by
  cases native with
  | void => exact .pure _
  | scalar scalar => exact .check fun _ => require_ok.mp
  | vector element count =>
    exact Imports.ensure.bind fun _ => (Imports.check fun _ => require_ok.mp).map
  | array element count =>
    rw [importType, LlvmType.structs]
    simp only [importedType]
    exact (imports_type hproven element).map
  | struct name packed fields =>
    rw [importType]
    exact imports_storage hproven (imports_fields fun field hfield =>
      have := List.sizeOf_lt_of_mem hfield
      imports_type hproven field)
  | unsized spelling => exact .check fun _ h => by cases h
termination_by sizeOf native

theorem holds_empty : Holds overlaps target ⟨[], []⟩ := ⟨by simp, by simp, by simp⟩

theorem imports_types {layout : DataLayout}
    (hproven : ∀ native overlap, overlaps.lookup native = some overlap →
      ProvenOverlap layout native overlap) : ∀ natives : List LlvmType,
    Imports overlaps target (natives.mapM (importType overlaps target))
      (fun identity => natives.mapM (importedType overlaps target identity))
      (natives.flatMap LlvmType.structs)
  | [] => .pure []
  | native :: natives => by
    simp only [List.mapM_cons, List.flatMap_cons]
    exact (imports_type hproven native).bind fun type => (imports_types hproven natives).map

end Import

/-! ## The identities given out -/

section Identities

variable {overlaps : List (LlvmType × NativeOverlap)} {target : TargetInfo}
  {storage : StorageTypes}

theorem Holds.entry {native : LlvmType} (h : Holds overlaps target storage)
    (hnative : native ∈ storage.recordIDs.map Prod.fst) :
    (native, storage.identity native) ∈ storage.recordIDs := by
  obtain ⟨⟨own, name⟩, hentry, rfl⟩ := List.mem_map.mp hnative
  rwa [identity, (Association.lookup_eq_some_iff_mem h.nodup).mpr hentry]

theorem Holds.extends (h : Holds overlaps target storage) : Extends storage.identity storage :=
  fun native name hentry => by
    rw [identity, (Association.lookup_eq_some_iff_mem h.nodup).mpr hentry]
    rfl

theorem Holds.nodup_names (h : Holds overlaps target storage) :
    (storage.recordIDs.map Prod.snd).Nodup := by
  rw [h.numbered]
  refine List.nodup_range.map fun k k' heq => ?_
  have hlist : "r".toList ++ (toString k).toList = "r".toList ++ (toString k').toList := by
    simpa using congrArg String.toList heq
  exact Nat.repr_injective (String.toList_inj.mp (List.append_cancel_left hlist))

/-- No two records were given one identity. -/
theorem Holds.injective (h : Holds overlaps target storage) {one other : LlvmType}
    (hone : one ∈ storage.recordIDs.map Prod.fst) (hother : other ∈ storage.recordIDs.map Prod.fst)
    (heq : storage.identity one = storage.identity other) : one = other :=
  congrArg Prod.fst (List.inj_on_of_nodup_map h.nodup_names (h.entry hone) (h.entry hother) heq)

theorem Holds.identity_ne (h : Holds overlaps target storage) {native : LlvmType}
    (hnative : native ∈ storage.recordIDs.map Prod.fst) : storage.identity native ≠ "" := by
  have hname : storage.identity native ∈ storage.recordIDs.map Prod.snd :=
    List.mem_map_of_mem (h.entry hnative)
  rw [h.numbered] at hname
  obtain ⟨position, -, hposition⟩ := List.mem_map.mp hname
  intro hempty
  rw [hempty] at hposition
  simpa using congrArg String.toList hposition

variable {identity : LlvmType → String}

theorem typesIdentities_imported {record : LlvmType} : ∀ {fields : List LlvmType}
    {imported : List SelaType},
    (∀ field ∈ fields, ∀ type, importedType overlaps target identity field = some type →
      record ∈ field.structs → identity record ∈ type.identities) →
      importedFields overlaps target identity fields = some imported →
      record ∈ fieldsStructs fields → identity record ∈ typesIdentities imported
  | field :: fields, imported, h, himport, hrecord => by
    obtain ⟨hfield, h⟩ := List.forall_mem_cons.mp h
    rw [importedFields] at himport
    obtain ⟨type, htype, himport⟩ := Option.bind_eq_some_iff.mp himport
    obtain ⟨others, hothers, himport⟩ := Option.bind_eq_some_iff.mp himport
    obtain rfl := Option.some.inj himport
    rw [fieldsStructs] at hrecord
    rw [typesIdentities]
    rcases List.mem_append.mp hrecord with hrecord | hrecord
    · exact List.mem_append_left _ (hfield type htype hrecord)
    · exact List.mem_append_right _ (typesIdentities_imported h hothers hrecord)

/-- The identity of each record is one of the type imported. -/
theorem identities_importedType {layout : DataLayout}
    (hproven : ∀ native overlap, overlaps.lookup native = some overlap →
      ProvenOverlap layout native overlap) {native record : LlvmType} {type : SelaType}
    (hne : identity record ≠ "")
    (himport : importedType overlaps target identity native = some type)
    (hrecord : record ∈ native.structs) : identity record ∈ type.identities := by
  cases native with
  | array element count =>
    rw [importedType] at himport
    obtain ⟨elementType, helement, himport⟩ := Option.bind_eq_some_iff.mp himport
    obtain rfl := Option.some.inj himport
    rw [LlvmType.structs] at hrecord
    rw [SelaType.identities]
    exact identities_importedType hproven hne helement hrecord
  | struct name packed fields =>
    rw [importedType, importedStorage] at himport
    split at himport
    · rename_i overlap hoverlap
      obtain ⟨_, hguard, himport⟩ := Option.bind_eq_some_iff.mp himport
      have hname : name ≠ none := by simpa [guard] using hguard
      rw [structs_overlap rfl (hproven _ _ hoverlap) hname] at hrecord
      obtain rfl := List.mem_singleton.mp hrecord
      obtain ⟨alternatives, domains, rfl, -⟩ :=
        mergeNativeOverlap_self (NativeTypes.toOption_eq_some.mpr himport)
      simp [SelaType.identities, named, hne]
    · obtain ⟨imported, hfields, rfl⟩ := Option.map_eq_some_iff.mp himport
      rw [LlvmType.structs] at hrecord
      rw [SelaType.identities]
      rcases List.mem_append.mp hrecord with hrecord | hrecord
      · have hname : name ≠ none := fun hnone => by simp [hnone] at hrecord
        rw [if_neg hname] at hrecord
        obtain rfl := List.mem_singleton.mp hrecord
        simp [named, hname, hne]
      · exact List.mem_append_right _ (typesIdentities_imported (fun field hfield type htype =>
          have := List.sizeOf_lt_of_mem hfield
          identities_importedType hproven hne htype) hfields hrecord)
  | void => cases hrecord
  | scalar scalar => cases hrecord
  | vector element count => cases hrecord
  | unsized spelling => cases hrecord
termination_by sizeOf native

end Identities

/-! ## What can be imported -/

section Completeness

variable {overlaps : List (LlvmType × NativeOverlap)} {target : TargetInfo} {α β : Type}
  {storage : StorageTypes} {pending : List LlvmType}

/-- Each record with an identity has its type kept, apart from those whose fields are imported. -/
def Settled (storage : StorageTypes) (pending : List LlvmType) : Prop :=
  ∀ record ∈ storage.recordIDs.map Prod.fst,
    record ∈ pending ∨ record ∈ storage.storageTypes.map Prod.fst

/-- A computation succeeds under a condition, and leaves no other record pending. -/
structure Completes (m : Stateful StorageTypes α) (condition : Prop) (pending : List LlvmType) :
    Prop where
  complete : ∀ {storage : StorageTypes}, Settled storage pending → condition →
    ∃ a storage', exec m storage = (.ok a, storage') ∧ Settled storage' pending

/-- A type that is imported under some identities. -/
def Importable (overlaps : List (LlvmType × NativeOverlap)) (target : TargetInfo)
    (native : LlvmType) : Prop :=
  ∃ identity type, importedType overlaps target identity native = some type

theorem Settled.keep {native : LlvmType} {type : SelaType}
    (h : Settled storage (native :: pending)) :
    Settled { storage with storageTypes := storage.storageTypes ++ [(native, type)] } pending := by
  intro record hrecord
  rw [List.map_append]
  rcases h record hrecord with hpending | hkept
  · rcases List.mem_cons.mp hpending with rfl | hpending
    · exact .inr (List.mem_append_right _ (by simp))
    · exact .inl hpending
  · exact .inr (List.mem_append_left _ hkept)

theorem Settled.identify {native : LlvmType} {name : String} (h : Settled storage pending) :
    Settled { storage with recordIDs := storage.recordIDs ++ [(native, name)] }
      (native :: pending) := by
  intro record hrecord
  rw [List.map_append] at hrecord
  rcases List.mem_append.mp hrecord with hrecord | hrecord
  · exact (h record hrecord).imp (List.mem_cons_of_mem _) id
  · exact .inl (List.mem_cons.mpr (.inl (by simpa using hrecord)))

/-- A record that is neither kept nor pending has no identity yet. -/
theorem Settled.lookup_eq_none {native : LlvmType} (h : Settled storage pending)
    (hkept : storage.storageTypes.lookup native = none) (hpending : native ∉ pending) :
    storage.recordIDs.lookup native = none :=
  Association.lookup_eq_none_iff_mem.mpr fun hmem =>
    (h native hmem).elim hpending (Association.lookup_eq_none_iff_mem.mp hkept)

theorem structs_subset {field record : LlvmType} : ∀ {fields : List LlvmType}, field ∈ fields →
    record ∈ field.structs → record ∈ fieldsStructs fields
  | first :: fields, hfield, hrecord => by
    rw [fieldsStructs]
    rcases List.mem_cons.mp hfield with rfl | hfield
    · exact List.mem_append_left _ hrecord
    · exact List.mem_append_right _ (structs_subset hfield hrecord)

theorem mem_fieldsStructs {record : LlvmType} : ∀ {fields : List LlvmType},
    record ∈ fieldsStructs fields → ∃ field ∈ fields, record ∈ field.structs
  | [], h => by cases h
  | field :: fields, h => by
    rw [fieldsStructs] at h
    rcases List.mem_append.mp h with h | h
    · exact ⟨field, List.mem_cons_self, h⟩
    · obtain ⟨other, hother, h⟩ := mem_fieldsStructs h
      exact ⟨other, List.mem_cons_of_mem _ hother, h⟩

/-- A record of a type is no greater than the type. -/
theorem sizeOf_structs_le {native record : LlvmType} (h : record ∈ native.structs) :
    sizeOf record ≤ sizeOf native := by
  cases native with
  | array element count =>
    rw [LlvmType.structs] at h
    have := sizeOf_structs_le h
    simp only [LlvmType.array.sizeOf_spec]
    omega
  | struct name packed fields =>
    rw [LlvmType.structs] at h
    rcases List.mem_append.mp h with h | h
    · split at h
      · cases h
      · rw [List.mem_singleton.mp h]
    · obtain ⟨field, hfield, h⟩ := mem_fieldsStructs h
      have hlt := List.sizeOf_lt_of_mem hfield
      have := sizeOf_structs_le h
      simp only [LlvmType.struct.sizeOf_spec]
      omega
  | void => cases h
  | scalar scalar => cases h
  | vector element count => cases h
  | unsized spelling => cases h
termination_by sizeOf native

theorem exists_importOverlap {native : LlvmType} {name : Option String} {overlap : NativeOverlap}
    {own : String} {type : SelaType} (hsettled : Settled storage pending)
    (hkept : storage.storageTypes.lookup native = none) (hpending : native ∉ pending)
    (hname : name ≠ none)
    (htype : mergeNativeOverlap overlap overlap own target.id target.id alternativeType =
      .ok type) :
    ∃ a storage', exec (importOverlap target native name overlap) storage = (.ok a, storage') ∧
      Settled storage' pending := by
  obtain ⟨merged, hmerged, -⟩ := bind_ok.mp htype
  have hnone := hsettled.lookup_eq_none hkept hpending
  have hnext : mergeNativeOverlap overlap overlap storage.nextIdentity target.id target.id
      alternativeType = .ok (.overlap storage.nextIdentity merged.1 merged.2) :=
    bind_ok.mpr ⟨merged, hmerged, rfl⟩
  exact ⟨_, _, exec_bind_ok.mpr ⟨storage, storage, rfl, exec_check_bind_ok.mpr
    ⟨(), ensure_ok.mpr ⟨hname, hnone⟩, exec_check_bind_ok.mpr ⟨_, hnext, rfl⟩⟩⟩,
    hsettled.identify.keep⟩

theorem exists_recordName {native : LlvmType} {name : Option String}
    (hsettled : Settled storage pending) (hkept : storage.storageTypes.lookup native = none)
    (hpending : name ≠ none → native ∉ pending) :
    ∃ identity storage', exec (recordName native name) storage = (.ok identity, storage') ∧
      Settled storage' (native :: pending) := by
  unfold recordName
  by_cases hname : name = none
  · rw [if_pos hname]
    exact ⟨"", storage, rfl, fun record hrecord =>
      (hsettled record hrecord).imp (List.mem_cons_of_mem _) id⟩
  · rw [if_neg hname]
    have hnone := hsettled.lookup_eq_none hkept (hpending hname)
    exact ⟨_, _, exec_bind_ok.mpr ⟨storage, storage, rfl,
      exec_check_bind_ok.mpr ⟨(), ensure_ok.mpr hnone, rfl⟩⟩, hsettled.identify⟩

theorem exists_importRecord {native : LlvmType} {name : Option String} {packed : Bool}
    {importFields : Stateful StorageTypes (List SelaType)} {condition : Prop}
    (hfields : Completes importFields condition (native :: pending)) (hcondition : condition)
    (hsettled : Settled storage pending) (hkept : storage.storageTypes.lookup native = none)
    (hpending : name ≠ none → native ∉ pending) :
    ∃ a storage', exec (importRecord native name packed importFields) storage =
      (.ok a, storage') ∧ Settled storage' pending := by
  obtain ⟨identity, named, hidentity, hsettled⟩ := exists_recordName hsettled hkept hpending
  obtain ⟨types, imported, htypes, hsettled⟩ := hfields.complete hsettled hcondition
  exact ⟨_, _, exec_bind_ok.mpr ⟨identity, named, hidentity,
    exec_bind_ok.mpr ⟨types, imported, htypes, rfl⟩⟩, hsettled.keep⟩

variable {identity : LlvmType → String}

theorem completes_fields : ∀ {fields : List LlvmType},
    (∀ field ∈ fields, Completes (importType overlaps target field)
      (∃ type, importedType overlaps target identity field = some type) pending) →
      Completes (importFields overlaps target fields)
        (∃ types, importedFields overlaps target identity fields = some types) pending
  | [], _ => ⟨fun {storage} hsettled _ => ⟨[], storage, rfl, hsettled⟩⟩
  | field :: fields, h => by
    obtain ⟨hfield, h⟩ := List.forall_mem_cons.mp h
    refine ⟨fun {storage} hsettled hfields => ?_⟩
    obtain ⟨imported, hfields⟩ := hfields
    rw [importedFields] at hfields
    obtain ⟨type, htype, hfields⟩ := Option.bind_eq_some_iff.mp hfields
    obtain ⟨others, hothers, -⟩ := Option.bind_eq_some_iff.mp hfields
    obtain ⟨a, middle, ha, hsettled⟩ := hfield.complete hsettled ⟨type, htype⟩
    obtain ⟨rest, last, hrest, hsettled⟩ :=
      (completes_fields h).complete hsettled ⟨others, hothers⟩
    rw [importFields]
    exact ⟨a :: rest, last, exec_bind_ok.mpr ⟨a, middle, ha,
      exec_bind_ok.mpr ⟨rest, last, hrest, rfl⟩⟩, hsettled⟩

/-- A type that is imported under given identities is imported with any records pending that are
none of its own. -/
theorem completes_type (native : LlvmType) (pending : List LlvmType)
    (hpending : ∀ record ∈ pending, record ∉ native.structs) :
    Completes (importType overlaps target native)
      (∃ type, importedType overlaps target identity native = some type) pending := by
  refine ⟨fun {storage} hsettled himport => ?_⟩
  obtain ⟨type, himport⟩ := himport
  cases native with
  | void => exact ⟨_, storage, rfl, hsettled⟩
  | scalar scalar =>
    have htype : scalarType scalar = some type := himport
    exact ⟨type, storage, by rw [importType, exec_check, require_ok.mpr htype], hsettled⟩
  | vector element count =>
    obtain ⟨_, hguard, himport⟩ := Option.bind_eq_some_iff.mp himport
    obtain ⟨elementType, helement, -⟩ := Option.bind_eq_some_iff.mp himport
    have hcount : count ≤ 1024 := by simpa [guard] using hguard
    exact ⟨_, storage, exec_check_bind_ok.mpr ⟨(), ensure_ok.mpr hcount,
      exec_check_bind_ok.mpr ⟨elementType, require_ok.mpr helement, rfl⟩⟩, hsettled⟩
  | array element count =>
    rw [importedType] at himport
    obtain ⟨elementType, helement, -⟩ := Option.bind_eq_some_iff.mp himport
    rw [LlvmType.structs] at hpending
    obtain ⟨a, storage', ha, hsettled⟩ :=
      (completes_type element pending hpending).complete hsettled ⟨elementType, helement⟩
    rw [importType]
    exact ⟨_, storage', exec_bind_ok.mpr ⟨a, storage', ha, rfl⟩, hsettled⟩
  | struct name packed fields =>
    rw [importType, importStorage]
    rcases hkept : storage.storageTypes.lookup (.struct name packed fields) with _ | found
    · have hown : name ≠ none → LlvmType.struct name packed fields ∉ pending :=
        fun hname hmem => hpending _ hmem (by simp [LlvmType.structs, hname])
      rw [importedType, importedStorage] at himport
      rcases hoverlap : overlaps.lookup (.struct name packed fields) with _ | overlap
      · rw [hoverlap] at himport
        obtain ⟨imported, hfields, -⟩ := Option.map_eq_some_iff.mp himport
        -- While the fields are imported, the record is pending too; none of them holds it.
        have hcomplete : ∀ field ∈ fields, Completes (importType overlaps target field)
            (∃ type, importedType overlaps target identity field = some type)
            (.struct name packed fields :: pending) := fun field hfield => by
          have hlt := List.sizeOf_lt_of_mem hfield
          refine completes_type field _ (List.forall_mem_cons.mpr ⟨fun hmem => ?_, ?_⟩)
          · have hle := sizeOf_structs_le hmem
            simp only [LlvmType.struct.sizeOf_spec] at hle
            omega
          · intro record hrecord hmem
            refine hpending record hrecord ?_
            rw [LlvmType.structs]
            exact List.mem_append_right _ (structs_subset hfield hmem)
        obtain ⟨a, storage', ha, hsettled⟩ := exists_importRecord
          (completes_fields hcomplete) ⟨imported, hfields⟩ hsettled hkept hown
        exact ⟨a, storage', exec_bind_ok.mpr ⟨storage, storage, rfl, by
          rw [hkept, hoverlap]
          exact ha⟩, hsettled⟩
      · rw [hoverlap] at himport
        obtain ⟨_, hguard, himport⟩ := Option.bind_eq_some_iff.mp himport
        have hname : name ≠ none := by simpa [guard] using hguard
        obtain ⟨a, storage', ha, hsettled⟩ := exists_importOverlap hsettled hkept (hown hname)
          hname (NativeTypes.toOption_eq_some.mpr himport)
        exact ⟨a, storage', exec_bind_ok.mpr ⟨storage, storage, rfl, by
          rw [hkept, hoverlap]
          exact ha⟩, hsettled⟩
    · exact ⟨found, storage, exec_bind_ok.mpr ⟨storage, storage, rfl, by
        rw [hkept]
        rfl⟩, hsettled⟩
  | unsized spelling => cases himport
termination_by sizeOf native

theorem completes_types : ∀ natives : List LlvmType,
    Completes (natives.mapM (importType overlaps target))
      (∀ native ∈ natives, Importable overlaps target native) []
  | [] => ⟨fun {storage} hsettled _ => ⟨[], storage, rfl, hsettled⟩⟩
  | native :: natives => by
    refine ⟨fun {storage} hsettled himport => ?_⟩
    obtain ⟨⟨identity, type, htype⟩, himport⟩ := List.forall_mem_cons.mp himport
    obtain ⟨a, middle, ha, hsettled⟩ :=
      (completes_type native [] (by simp)).complete hsettled ⟨type, htype⟩
    obtain ⟨rest, last, hrest, hsettled⟩ := (completes_types natives).complete hsettled himport
    rw [List.mapM_cons]
    exact ⟨a :: rest, last, exec_bind_ok.mpr ⟨a, middle, ha,
      exec_bind_ok.mpr ⟨rest, last, hrest, rfl⟩⟩, hsettled⟩

end Completeness

end StorageTypes

open StorageTypes

/-- What is found for a native type is what was proven of it. -/
theorem FoundOverlaps.lookup {layout : DataLayout} {observed : List (LlvmType × Option DIType)}
    {overlaps : List (LlvmType × NativeOverlap)} (h : FoundOverlaps layout observed overlaps)
    (native : LlvmType) (overlap : NativeOverlap)
    (hoverlap : overlaps.lookup native = some overlap) :
    ProvenOverlap layout native overlap :=
  h.proven native overlap (NativeTypes.mem_of_lookup hoverlap)

/-- The types of a module are imported exactly when each of them is imported under some identities :
what was imported before, and in which order, makes no difference. -/
theorem importTypes_ok_iff {layout : DataLayout} {observed : List (LlvmType × Option DIType)}
    {overlaps : List (LlvmType × NativeOverlap)} {target : TargetInfo} {natives : List LlvmType}
    (hoverlaps : discoverNativeOverlaps layout observed = .ok overlaps) :
    (∃ imported storage, exec (natives.mapM (importType overlaps target)) ⟨[], []⟩ =
        (.ok imported, storage)) ↔
      ∀ native ∈ natives, Importable overlaps target native := by
  have hproven : ∀ native overlap, overlaps.lookup native = some overlap →
      ProvenOverlap layout native overlap := (foundOverlaps_foldlM hoverlaps).lookup
  constructor
  · rintro ⟨imported, storage, himport⟩ native hnative
    obtain ⟨hholds, -, hdescribed⟩ := (imports_types hproven natives).sound holds_empty himport
    have htypes := hdescribed.imported storage.identity hholds.extends
    obtain ⟨type, -, htype⟩ := exists_of_forall₂_left (mapM_some.mp htypes) hnative
    exact ⟨storage.identity, type, htype⟩
  · intro himport
    have hsettled : Settled ⟨[], []⟩ [] := by simp [Settled]
    obtain ⟨imported, storage, himport, -⟩ :=
      (completes_types natives).complete hsettled himport
    exact ⟨imported, storage, himport⟩

/-- Storage of a union of a number and a double, and a record that holds it. -/
def numberStorage : LlvmType := .struct (some "union.n") false [.doubleTy]

def numberRecord : LlvmType := .struct (some "struct.s") false [.int 8, numberStorage]

theorem importTypes_ok_iff_numberRecord :
    ∃ overlaps, discoverNativeOverlaps NativeTarget.x86_64.layout
        [(numberStorage, some numberUnion)] = .ok overlaps ∧
      ∃ imported storage, exec ([numberRecord, .array numberRecord 2, numberStorage].mapM
        (importType overlaps Merger.x86_64)) ⟨[], []⟩ = (.ok imported, storage) := by
  have hoverlaps : discoverNativeOverlaps NativeTarget.x86_64.layout
      [(numberStorage, some numberUnion)] =
        .ok [(numberStorage, ⟨[⟨"word", .int 32⟩, ⟨"real", .doubleTy⟩]⟩)] := by
    decide +kernel
  have himportable : ∀ native ∈ [numberRecord, .array numberRecord 2, numberStorage],
      (importedType [(numberStorage, ⟨[⟨"word", .int 32⟩, ⟨"real", .doubleTy⟩]⟩)] Merger.x86_64
        (fun _ => "r0") native).isSome = true := by
    decide +kernel
  exact ⟨_, hoverlaps, (importTypes_ok_iff hoverlaps).mpr fun native hnative =>
    ⟨fun _ => "r0", Option.isSome_iff_exists.mp (himportable native hnative)⟩⟩

end Sela
