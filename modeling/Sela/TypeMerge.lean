import Sela.Concrete
import Sela.Correspondence

/-!
# Merging types and attributes

`Merger.mergeType` and `Merger.mergeAttribute` make one type or attribute of those observed on
several targets : what all targets have stays, a value that differs becomes a choice, a
record or an overlap gets a storage identity that the targets' own identities stand for
(`storageIdentity`).
-/

namespace Sela

open Checked Correspondence Stateful

/-- The state of a merge : the shared identity of each target's own storage identities,
and the number of the next shared identity. -/
structure Merger where
  storageIdentities : Tables TargetInfo String String
  nextStorageIdentity : ℕ

namespace Merger

/-- The state a merge begins with. -/
def empty : Merger := ⟨fun _ => [], 0⟩

/-- A failure of the merge. -/
def fail {α : Type} (text : String) : Checked α := throw ("N-target merge: " ++ text)

/-- Fail unless a condition holds. -/
def expect (condition : Prop) [Decidable condition] (text : String) : Checked Unit :=
  if condition then pure () else fail text

@[simp] theorem expect_ok {condition : Prop} [Decidable condition] {text : String} {u : Unit} :
    expect condition text = .ok u ↔ condition := by
  unfold expect fail
  split <;> simp [*]

/-! ## Storage identities -/

/-- The identity of a record or an overlap. -/
def identity : SelaType → String
  | .record identity _ _ => identity
  | .overlap identity _ _ => identity
  | _ => ""

/-- The shared identity found so far, and that of one more observation. -/
def foundIdentity (tables : Tables TargetInfo String String) (anonymous : Bool)
    (common : Option String) (observation : TargetInfo × SelaType) : Checked (Option String) := do
  let own := identity observation.2
  expect ((own == "") = anonymous) "named and anonymous storage lack correspondence"
  match tables.shared observation.1 own with
  | none => pure common
  | some found => do
    expect (common = none ∨ common = some found)
      "storage identity correspondence changed between uses"
    pure (some found)

/-- Let the identity one target has stand for the shared one. -/
def assignIdentity (common : String) (tables : Tables TargetInfo String String)
    (observation : TargetInfo × SelaType) : Checked (Tables TargetInfo String String) := do
  let own := identity observation.2
  expect (∀ entry ∈ tables observation.1, ¬(entry.2 = common ∧ entry.1 ≠ own))
    "distinct storage identities cannot collapse into one shared identity"
  pure (tables.assign observation.1 own common)

/-- The shared identity of the records or overlaps observed. -/
def storageIdentity (observations : Observations TargetInfo SelaType) : Stateful Merger String := do
  let merger ← get
  let anonymous := observations.head?.all fun observation => identity observation.2 == ""
  let common ← check (observations.foldlM (foundIdentity merger.storageIdentities anonymous) none)
  if anonymous then pure ""
  else do
    let fresh := "r" ++ toString merger.nextStorageIdentity
    let next := if common = none then merger.nextStorageIdentity + 1 else merger.nextStorageIdentity
    let tables ← check
      (observations.foldlM (assignIdentity (common.getD fresh)) merger.storageIdentities)
    set (⟨tables, next⟩ : Merger)
    pure (common.getD fresh)

/-! ## Parts of types and attributes -/

/-- The element of an array type. -/
def element : Subpart SelaType SelaType where
  get
    | .array element _ => some element
    | _ => none
  smaller {a b} h := by
    split at h
    · obtain rfl := Option.some.inj h
      simp
      omega
    · simp at h

/-- The fields of a record. -/
def fields : SelaType → List SelaType
  | .record _ _ fields => fields
  | _ => []

/-- The alternatives of an overlap. -/
def alternatives : SelaType → List SelaType
  | .overlap _ alternatives _ => alternatives
  | _ => []

/-- The inputs and the results of a function type. -/
def signatureTypes : SelaType → List SelaType
  | .function inputs results => inputs ++ results
  | _ => []

/-- The elements of an array. -/
def items : Attr → List Attr
  | .array elements => elements
  | _ => []

theorem sizeOf_field_lt {type part : SelaType} (h : part ∈ fields type) :
    sizeOf part < sizeOf type := by
  unfold fields at h
  split at h
  · have := List.sizeOf_lt_of_mem h
    simp
    omega
  · simp at h

theorem sizeOf_alternative_lt {type part : SelaType} (h : part ∈ alternatives type) :
    sizeOf part < sizeOf type := by
  unfold alternatives at h
  split at h
  · have := List.sizeOf_lt_of_mem h
    simp
    omega
  · simp at h

theorem sizeOf_signatureType_lt {type part : SelaType} (h : part ∈ signatureTypes type) :
    sizeOf part < sizeOf type := by
  unfold signatureTypes at h
  split at h
  · rcases List.mem_append.mp h with h | h <;>
    · have := List.sizeOf_lt_of_mem h
      simp
      omega
  · simp at h

theorem sizeOf_item_lt {attr part : Attr} (h : part ∈ items attr) : sizeOf part < sizeOf attr := by
  unfold items at h
  split at h
  · have := List.sizeOf_lt_of_mem h
    simp
    omega
  · simp at h

/-- The `k`-th field of a record. -/
def field (k : ℕ) : Subpart SelaType SelaType := .nth fields sizeOf_field_lt k

/-- The `k`-th alternative of an overlap. -/
def alternative (k : ℕ) : Subpart SelaType SelaType := .nth alternatives sizeOf_alternative_lt k

/-- The `k`-th input or result of a function type. -/
def signatureType (k : ℕ) : Subpart SelaType SelaType := .nth signatureTypes sizeOf_signatureType_lt k

/-- The `k`-th element of an array. -/
def item (k : ℕ) : Subpart Attr Attr := .nth items sizeOf_item_lt k

/-- The entry of a dictionary under a name. -/
def entry (name : String) : Subpart Attr Attr where
  get
    | .dictionary entries => Attributes.get entries name
    | _ => none
  smaller {a b} h := by
    split at h
    · have := sizeOf_get_le h
      simp
      omega
    · simp at h

theorem sizeOf_type_pos (type : SelaType) : 0 < sizeOf type := by
  cases type <;> simp

theorem sizeOf_attr_pos (attr : Attr) : 0 < sizeOf attr := by
  cases attr <;> simp

/-! ## The merge of types -/

/-- A choice of what each target was observed to have. -/
def choice (observations : Observations TargetInfo Attr) : Attr :=
  targetChoice (observations.map fun observation => (observation.1.id, observation.2))

/-- Whether a type is compared as a whole. -/
def isWhole : SelaType → Bool
  | .array _ _ | .record _ _ _ | .overlap _ _ _ | .function _ _ => false
  | _ => true

def isInteger : SelaType → Bool
  | .integer _ => true
  | _ => false

def isArray : SelaType → Bool
  | .array _ _ => true
  | _ => false

def isRecord : SelaType → Bool
  | .record _ _ _ => true
  | _ => false

def isOverlap : SelaType → Bool
  | .overlap _ _ _ => true
  | _ => false

/-- The number of elements of an array type. -/
def count : SelaType → Attr
  | .array _ count => count
  | _ => .unit

def isPacked : SelaType → Bool
  | .record _ packed _ => packed
  | _ => false

/-- The domains of an overlap's alternatives. -/
def domains : SelaType → List Attr
  | .overlap _ _ domains => domains
  | _ => []

/-- The number of inputs and of results of a function type. -/
def arity : SelaType → Option (ℕ × ℕ)
  | .function inputs results => some (inputs.length, results.length)
  | _ => none

/-- The number of fields of the longest record. -/
def maximum (observations : Observations TargetInfo SelaType) : ℕ :=
  (observations.map fun observation => (fields observation.2).length).foldl max 0

/-- One type for those observed. -/
def mergeType : Observations TargetInfo SelaType → Stateful Merger SelaType
  | [] => check (fail "missing type observations")
  | observation :: rest =>
    let observations : Observations TargetInfo SelaType := observation :: rest
    if isWhole observation.2 ∧ ∀ other ∈ observations, other.2 = observation.2 then
      pure observation.2
    else if ∀ other ∈ observations, isInteger other.2 = true then
      if ∀ other ∈ observations, other.2 = .integer other.1.wordBits then pure .word
      else pure (.choice (choice (observations.map fun other => (other.1, .type other.2))))
    else if ∀ other ∈ observations, isArray other.2 = true then do
      let merged ← mergeType (observations.part element)
      pure (.array merged (choice (observations.map fun other => (other.1, count other.2))))
    else match observation.2 with
      | .record _ packed fields' => do
        check (expect (∀ other ∈ observations, isRecord other.2 = true)
          "logical record kind needs additional correspondence proof")
        let identity ← storageIdentity observations
        if ∀ other ∈ observations, isPacked other.2 = packed ∧
            (fields other.2).length = fields'.length then do
          let merged ← (List.range fields'.length).mapM fun k => mergeType (observations.part (field k))
          pure (.record identity packed merged)
        else do
          -- A local layout may have fields of its own : one record for each target.
          let merged ← (List.range (maximum observations)).mapM fun k =>
            mergeType (observations.part (field k))
          pure (.choice (choice (observations.map fun other => (other.1, .type
            (.record identity (isPacked other.2) (merged.take (fields other.2).length))))))
      | .function inputs results => do
        check (expect (∀ other ∈ observations,
          arity other.2 = some (inputs.length, results.length)) "logical callable arity differs")
        let merged ← (List.range (inputs.length + results.length)).mapM fun k =>
          mergeType (observations.part (signatureType k))
        pure (.function (merged.take inputs.length) (merged.drop inputs.length))
      | .overlap _ alternatives' _ => do
        check (expect (∀ other ∈ observations, isOverlap other.2 = true) "overlap kinds disagree")
        let identity ← storageIdentity observations
        if ∀ other ∈ observations, (alternatives other.2).length = alternatives'.length then do
          let merged ← (List.range alternatives'.length).mapM fun k =>
            mergeType (observations.part (alternative k))
          pure (.overlap identity merged
            (merged.map fun _ => targetSet (observations.map fun other => other.1.id)))
        else
          -- The alternatives of each target stay as they are.
          pure (.choice (choice (observations.map fun other => (other.1, .type
            (.overlap identity (alternatives other.2) (domains other.2))))))
      | _ => check (fail "unproved logical type correspondence")
termination_by observations => observations.weight
decreasing_by
  all_goals exact Observations.weight_part_lt _ sizeOf_type_pos (List.cons_ne_nil _ _)

/-! ## The merge of attributes -/

/-- Whether an attribute is compared as a whole. -/
def isWholeAttr : Attr → Bool
  | .type _ | .array _ | .dictionary _ => false
  | _ => true

/-- The type an attribute holds. -/
def content : Subpart Attr SelaType where
  get := Attr.asType?
  smaller {a b} h := by
    obtain rfl := Attr.asType?_eq_some.mp h
    simp

/-- Whether an attribute is a dictionary with the names of another. -/
def hasEntries (entries : Attributes) : Attr → Bool
  | .dictionary entries' =>
    entries'.length == entries.length && entries.all fun entry =>
      (Attributes.get entries' entry.1).isSome
  | _ => false

/-- One attribute for those observed. (The source never asks for no observation.) -/
def mergeAttribute : Observations TargetInfo Attr → Stateful Merger Attr
  | [] => pure .unit
  | observation :: rest =>
    let observations : Observations TargetInfo Attr := observation :: rest
    if isWholeAttr observation.2 ∧ ∀ other ∈ observations, other.2 = observation.2 then
      pure observation.2
    else if ∀ other ∈ observations, (content.get other.2).isSome = true then do
      let merged ← mergeType (observations.part content)
      pure (.type merged)
    else match observation.2 with
      | .array elements =>
        if ∀ other ∈ observations,
            (other.2.asArray?.map List.length) = some elements.length then do
          let merged ← (List.range elements.length).mapM fun k =>
            mergeAttribute (observations.part (item k))
          pure (.array merged)
        else pure (choice observations)
      | .dictionary entries =>
        if ∀ other ∈ observations, hasEntries entries other.2 = true then do
          let merged ← entries.mapM fun named => do
            let value ← mergeAttribute (observations.part (entry named.1))
            pure (named.1, value)
          pure (.dictionary merged)
        else pure (choice observations)
      | _ => pure (choice observations)
termination_by observations => observations.weight
decreasing_by
  all_goals exact Observations.weight_part_lt _ sizeOf_attr_pos (List.cons_ne_nil _ _)

end Merger

/-! ## Identities -/

/-- The identity, where there is one. -/
def named (identity : String) : List String := if identity = "" then [] else [identity]

mutual

/-- The storage identities of a concrete type. -/
def SelaType.identities : SelaType → List String
  | .function inputs results => typesIdentities inputs ++ typesIdentities results
  | .array element _ => element.identities
  | .record identity _ fields => named identity ++ typesIdentities fields
  | .overlap identity alternatives _ => named identity ++ typesIdentities alternatives
  | _ => []

def typesIdentities : List SelaType → List String
  | [] => []
  | type :: types => type.identities ++ typesIdentities types

end

mutual

/-- The storage identities of a concrete attribute. -/
def Attr.identities : Attr → List String
  | .type type => type.identities
  | .array elements => attrsIdentities elements
  | .dictionary entries => entriesIdentities entries
  | _ => []

def attrsIdentities : List Attr → List String
  | [] => []
  | element :: elements => element.identities ++ attrsIdentities elements

def entriesIdentities : List (String × Attr) → List String
  | [] => []
  | (_, value) :: entries => value.identities ++ entriesIdentities entries

end

/-- The image of an identity; a record without one has none. -/
def renamed (rename : String → String) (identity : String) : String :=
  if identity = "" then "" else rename identity

mutual

/-- A concrete type with every storage identity replaced by its image. -/
def SelaType.rename (rename : String → String) : SelaType → SelaType
  | .function inputs results => .function (typesRename rename inputs) (typesRename rename results)
  | .array element count => .array (element.rename rename) count
  | .record identity packed fields =>
    .record (renamed rename identity) packed (typesRename rename fields)
  | .overlap identity alternatives domains =>
    .overlap (renamed rename identity) (typesRename rename alternatives) domains
  | type => type

def typesRename (rename : String → String) : List SelaType → List SelaType
  | [] => []
  | type :: types => type.rename rename :: typesRename rename types

end

mutual

/-- A concrete attribute with every storage identity replaced by its image. -/
def Attr.rename (rename : String → String) : Attr → Attr
  | .type type => .type (type.rename rename)
  | .array elements => .array (attrsRename rename elements)
  | .dictionary entries => .dictionary (entriesRename rename entries)
  | attr => attr

def attrsRename (rename : String → String) : List Attr → List Attr
  | [] => []
  | element :: elements => element.rename rename :: attrsRename rename elements

def entriesRename (rename : String → String) : List (String × Attr) → List (String × Attr)
  | [] => []
  | (name, value) :: entries => (name, value.rename rename) :: entriesRename rename entries

end

theorem typesIdentities_eq (types : List SelaType) :
    typesIdentities types = types.flatMap SelaType.identities := by
  induction types with
  | nil => rfl
  | cons type types ih => rw [typesIdentities, ih, List.flatMap_cons]

theorem attrsIdentities_eq (elements : List Attr) :
    attrsIdentities elements = elements.flatMap Attr.identities := by
  induction elements with
  | nil => rfl
  | cons element elements ih => rw [attrsIdentities, ih, List.flatMap_cons]

theorem entriesIdentities_eq (entries : List (String × Attr)) :
    entriesIdentities entries = entries.flatMap fun entry => entry.2.identities := by
  induction entries with
  | nil => rfl
  | cons entry entries ih => rw [entriesIdentities, ih, List.flatMap_cons]

theorem typesRename_eq (rename : String → String) (types : List SelaType) :
    typesRename rename types = types.map (SelaType.rename rename) := by
  induction types with
  | nil => rfl
  | cons type types ih => rw [typesRename, ih, List.map_cons]

theorem attrsRename_eq (rename : String → String) (elements : List Attr) :
    attrsRename rename elements = elements.map (Attr.rename rename) := by
  induction elements with
  | nil => rfl
  | cons element elements ih => rw [attrsRename, ih, List.map_cons]

theorem entriesRename_eq (rename : String → String) (entries : List (String × Attr)) :
    entriesRename rename entries = entries.map fun entry => (entry.1, entry.2.rename rename) := by
  induction entries with
  | nil => rfl
  | cons entry entries ih => rw [entriesRename, ih, List.map_cons]

/-- Mapping changes nothing exactly when it changes no element. -/
theorem map_eq_self {α : Type} {f : α → α} {xs : List α} :
    xs.map f = xs ↔ ∀ x ∈ xs, f x = x := by
  induction xs with
  | nil => simp
  | cons x xs ih => rw [List.map_cons, List.cons.injEq, List.forall_mem_cons, ih]

/-- Renaming the parts changes nothing exactly when every identity in them is its own
image. -/
theorem renames_eq_self {α : Type} {identities : α → List String} {apply : α → α}
    {rename : String → String} {xs : List α}
    (h : ∀ x ∈ xs, apply x = x ↔ ∀ identity ∈ identities x, rename identity = identity) :
    xs.map apply = xs ↔ ∀ identity ∈ xs.flatMap identities, rename identity = identity := by
  rw [map_eq_self]
  constructor
  · intro hall identity hidentity
    obtain ⟨x, hx, hidentity⟩ := List.mem_flatMap.mp hidentity
    exact (h x hx).mp (hall x hx) identity hidentity
  · exact fun hall x hx => (h x hx).mpr fun identity hidentity =>
      hall identity (List.mem_flatMap.mpr ⟨x, hx, hidentity⟩)

theorem renamed_eq_self {rename : String → String} {identity : String} :
    renamed rename identity = identity ↔ ∀ own ∈ named identity, rename own = own := by
  unfold renamed named
  split <;> simp [*]

/-- Renaming changes nothing exactly when every identity is its own image. -/
theorem SelaType.rename_eq_self {rename : String → String} (type : SelaType) :
    type.rename rename = type ↔ ∀ identity ∈ type.identities, rename identity = identity := by
  have hparts : ∀ parts : List SelaType, (∀ part ∈ parts, sizeOf part < sizeOf type) →
      (parts.map (SelaType.rename rename) = parts ↔
        ∀ identity ∈ parts.flatMap SelaType.identities, rename identity = identity) :=
    fun parts hsmaller => renames_eq_self fun part hpart =>
      have := hsmaller part hpart
      part.rename_eq_self
  cases type with
  | function inputs results =>
    rw [SelaType.rename, SelaType.identities, SelaType.function.injEq, typesRename_eq,
      typesRename_eq, typesIdentities_eq, typesIdentities_eq, List.forall_mem_append,
      hparts inputs, hparts results]
    · intro part hpart
      have := List.sizeOf_lt_of_mem hpart
      simp
      omega
    · intro part hpart
      have := List.sizeOf_lt_of_mem hpart
      simp
      omega
  | array element count =>
    have helement := hparts [element] (by simp; omega)
    rw [SelaType.rename, SelaType.identities, SelaType.array.injEq]
    simpa using helement
  | record identity packed fields =>
    rw [SelaType.rename, SelaType.identities, SelaType.record.injEq, typesRename_eq,
      typesIdentities_eq, List.forall_mem_append, renamed_eq_self, hparts fields]
    · simp
    · intro part hpart
      have := List.sizeOf_lt_of_mem hpart
      simp
      omega
  | overlap identity alternatives domains =>
    rw [SelaType.rename, SelaType.identities, SelaType.overlap.injEq, typesRename_eq,
      typesIdentities_eq, List.forall_mem_append, renamed_eq_self, hparts alternatives]
    · simp
    · intro part hpart
      have := List.sizeOf_lt_of_mem hpart
      simp
      omega
  | _ => simp [SelaType.rename, SelaType.identities]
termination_by sizeOf type

theorem typesRename_eq_self {rename : String → String} (types : List SelaType) :
    typesRename rename types = types ↔
      ∀ identity ∈ typesIdentities types, rename identity = identity := by
  rw [typesRename_eq, typesIdentities_eq]
  exact renames_eq_self fun type _ => type.rename_eq_self

/-- The same of attributes. -/
theorem Attr.rename_eq_self {rename : String → String} (attr : Attr) :
    attr.rename rename = attr ↔ ∀ identity ∈ attr.identities, rename identity = identity := by
  have hpart : ∀ part : Attr, sizeOf part < sizeOf attr → (part.rename rename = part ↔
      ∀ identity ∈ part.identities, rename identity = identity) := fun part hsmaller =>
    part.rename_eq_self
  cases attr with
  | type type => rw [Attr.rename, Attr.identities, Attr.type.injEq, type.rename_eq_self]
  | array elements =>
    rw [Attr.rename, Attr.identities, Attr.array.injEq, attrsRename_eq, attrsIdentities_eq]
    refine renames_eq_self fun element helement => hpart element ?_
    have := List.sizeOf_lt_of_mem helement
    simp
    omega
  | dictionary entries =>
    rw [Attr.rename, Attr.identities, Attr.dictionary.injEq, entriesRename_eq,
      entriesIdentities_eq]
    refine renames_eq_self fun entry hentry => ?_
    rw [Prod.ext_iff, hpart entry.2]
    · simp
    · have := List.sizeOf_lt_of_mem hentry
      obtain ⟨name, value⟩ := entry
      simp at this ⊢
      omega
  | _ => simp [Attr.rename, Attr.identities]
termination_by sizeOf attr

end Sela
