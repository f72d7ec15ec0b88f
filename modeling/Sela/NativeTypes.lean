import Sela.MergeRoundTrip
import Sela.OverlapStorage

/-!
# Native types

`NativeTypes.lowerType` makes the native type of a type of a specialized module. It keeps the
native records it has made and the type each storage identity names. `NativeTypes.nativeType` is
the same with no state, and `lowerTypes_ok_iff` says when a list of types is lowered : when each
has a native type and no identity names two types. What the types were lowered before, and in
which order, makes no difference to the result.
-/

namespace Sela

open Checked Stateful

/-- An opaque storage identity : `r` and digits. -/
def isStorageIdentity (identity : String) : Bool :=
  2 ≤ identity.length && identity.length ≤ 64 && identity.toList.head? == some 'r' &&
    identity.toList.tail.all Char.isDigit

/-- What the lowering for a target knows of the native types : the layout, and the two types of a
list of variadic arguments. -/
structure NativeTypes where
  target : TargetInfo
  layout : DataLayout
  vaListType : LlvmType
  vaListArgumentType : LlvmType

/-- The native records made so far, and the type each storage identity names. -/
structure LoweredTypes where
  aggregateTypes : List (SelaType × LlvmType)
  recordIdentities : List (String × SelaType)

namespace NativeTypes

/-! ## Lowering -/

/-- The native vector of an element. -/
def fixedVector (element : LlvmType) (shape : List ℕ) (scalable : Bool) : Option LlvmType :=
  match element, shape with
  | .scalar element, [count] =>
    if scalable = false ∧ 1 ≤ count ∧ count ≤ 1024 then some (.vector element count) else none
  | _, _ => none

/-- The native array of an element, with a count that is a number. -/
def nativeArray (element : LlvmType) (count : Attr) : Option LlvmType :=
  match count with
  | .integer _ extent | .foreign (.number _ extent) =>
    if extent ≤ 2 ^ 30 then some (.array element extent) else none
  | _ => none

/-- The native record of a storage type, made once. -/
def storageType (input : SelaType) (make : Stateful LoweredTypes LlvmType) :
    Stateful LoweredTypes LlvmType := do
  let lowered ← get
  match lowered.aggregateTypes.lookup input with
  | some native => pure native
  | none => do
    let native ← make
    modify fun lowered =>
      { lowered with aggregateTypes := lowered.aggregateTypes ++ [(input, native)] }
    pure native

/-- Let an identity name a type, and no other. -/
def rememberIdentity (identity : String) (input : SelaType) (message : String) :
    Stateful LoweredTypes Unit := do
  let lowered ← get
  match lowered.recordIdentities.lookup identity with
  | some found => check (ensure (found = input) message)
  | none => set { lowered with recordIdentities := lowered.recordIdentities ++ [(identity, input)] }

/-- The identity of a record, which may have none. -/
def recordIdentity (identity : String) (input : SelaType) : Stateful LoweredTypes Unit :=
  if identity = "" then pure ()
  else do
    check (ensure (isStorageIdentity identity = true)
      "record identities must be opaque r-prefixed integers")
    rememberIdentity identity input "conflicting definitions of a Sela record identity"

/-- The name of a native record. -/
def structName (identity : String) : Option String := if identity = "" then none else some identity

variable (types : NativeTypes)

mutual

/-- The native type of a type. -/
def lowerType : SelaType → Stateful LoweredTypes LlvmType
  | .ptr => pure .ptr
  | .word => pure (.int types.target.wordBits)
  | .vaListArgument => pure types.vaListArgumentType
  | .vaList => storageType .vaList (pure types.vaListType)
  | .f32 => pure .floatTy
  | .f64 => pure .doubleTy
  | .vector shape scalable element => do
    let native ← lowerType element
    check (require (fixedVector native shape scalable) "invalid fixed-vector type")
  | .array element count => do
    let native ← lowerType element
    check (require (nativeArray native count) "unsupported or oversized native array type")
  | .overlap identity alternatives domains =>
    storageType (.overlap identity alternatives domains) do
    check (ensure (isStorageIdentity identity = true)
      "overlap identities must be opaque r-prefixed integers")
    rememberIdentity identity (.overlap identity alternatives domains)
      "conflicting definitions of a Sela storage identity"
    check (ensure
      (alternatives ≠ [] ∧ alternatives.length ≤ 64 ∧ alternatives.length = domains.length)
      "invalid overlap alternative inventory")
    let selected ← lowerAlternatives alternatives domains
    let carrier ← check (selectOverlapCarrier types.layout selected)
    pure (.struct (some identity) false [carrier])
  | .record identity packed fields => storageType (.record identity packed fields) do
    recordIdentity identity (.record identity packed fields)
    let natives ← lowerFields fields
    pure (.struct (structName identity) packed natives)
  | .integer width | .foreign (.number (.signed width)) | .foreign (.number (.unsigned width)) =>
    check (require (if 1 ≤ width ∧ width ≤ 128 then some (.int width) else none)
      "artifact contains an unsupported type")
  | _ => check (throw "artifact contains an unsupported type")

/-- The native types of the alternatives of an overlap, each for the target. -/
def lowerAlternatives : List SelaType → List Attr → Stateful LoweredTypes (List LlvmType)
  | [], _ => pure []
  | alternative :: alternatives, domains => do
    check (ensure (domains.head?.any (containsTarget · types.target.id) = true)
      "unspecialized overlap alternative domain")
    let native ← lowerType alternative
    let _ ← check (selectOverlapCarrier types.layout [native])
    let natives ← lowerAlternatives alternatives domains.tail
    pure (native :: natives)

/-- The native types of the fields of a record. -/
def lowerFields : List SelaType → Stateful LoweredTypes (List LlvmType)
  | [] => pure []
  | field :: fields => do
    let native ← lowerType field
    check (ensure (native.isSized = true) "record field must have a native storage size")
    let natives ← lowerFields fields
    pure (native :: natives)

end

mutual

/-- The native type of a type, with no regard to what was lowered before. -/
def nativeType : SelaType → Option LlvmType
  | .ptr => some .ptr
  | .word => some (.int types.target.wordBits)
  | .vaListArgument => some types.vaListArgumentType
  | .vaList => some types.vaListType
  | .f32 => some .floatTy
  | .f64 => some .doubleTy
  | .vector shape scalable element => do
    let native ← nativeType element
    fixedVector native shape scalable
  | .array element count => do
    let native ← nativeType element
    nativeArray native count
  | .overlap identity alternatives domains => do
    guard (isStorageIdentity identity = true)
    guard (alternatives ≠ [] ∧ alternatives.length ≤ 64 ∧ alternatives.length = domains.length)
    let selected ← nativeAlternatives alternatives domains
    let carrier ← (selectOverlapCarrier types.layout selected).toOption
    some (.struct (some identity) false [carrier])
  | .record identity packed fields => do
    guard (identity = "" ∨ isStorageIdentity identity = true)
    let natives ← nativeFields fields
    some (.struct (structName identity) packed natives)
  | .integer width | .foreign (.number (.signed width)) | .foreign (.number (.unsigned width)) =>
    if 1 ≤ width ∧ width ≤ 128 then some (.int width) else none
  | _ => none

def nativeAlternatives : List SelaType → List Attr → Option (List LlvmType)
  | [], _ => some []
  | alternative :: alternatives, domains => do
    guard (domains.head?.any (containsTarget · types.target.id) = true)
    let native ← nativeType alternative
    let _ ← (selectOverlapCarrier types.layout [native]).toOption
    let natives ← nativeAlternatives alternatives domains.tail
    some (native :: natives)

def nativeFields : List SelaType → Option (List LlvmType)
  | [] => some []
  | field :: fields => do
    let native ← nativeType field
    guard (native.isSized = true)
    let natives ← nativeFields fields
    some (native :: natives)

end

end NativeTypes

/-! ## The storage of a type -/

/-- A type where it has an identity. -/
def identified (identity : String) (type : SelaType) : List SelaType :=
  if identity = "" then [] else [type]

mutual

/-- The records and overlaps with an identity in a type. -/
def SelaType.storages : SelaType → List SelaType
  | .vector _ _ element => element.storages
  | .array element _ => element.storages
  | .record identity packed fields =>
    identified identity (.record identity packed fields) ++ typesStorages fields
  | .overlap identity alternatives domains =>
    .overlap identity alternatives domains :: typesStorages alternatives
  | _ => []

def typesStorages : List SelaType → List SelaType
  | [] => []
  | type :: types => type.storages ++ typesStorages types

end

/-- No identity names two types. -/
def Unambiguous (storages : List SelaType) : Prop :=
  ∀ one ∈ storages, ∀ other ∈ storages, Merger.identity one = Merger.identity other → one = other

theorem Unambiguous.mono {storages storages' : List SelaType} (h : Unambiguous storages)
    (hsubset : ∀ type ∈ storages', type ∈ storages) : Unambiguous storages' :=
  fun one hone other hother => h one (hsubset one hone) other (hsubset other hother)

namespace NativeTypes

/-- What was lowered of some storage : each identity names its type, and each native record is
the one of its type. -/
structure Holds (types : NativeTypes) (lowered : LoweredTypes) (storages : List SelaType) :
    Prop where
  unambiguous : Unambiguous storages
  recorded : ∀ identity type, lowered.recordIdentities.lookup identity = some type ↔
    type ∈ storages ∧ Merger.identity type = identity
  made : ∀ input native, (input, native) ∈ lowered.aggregateTypes →
    types.nativeType input = some native ∧ ∀ type ∈ input.storages, type ∈ storages

/-- A computation lowers some storage to what it is natively : whatever was lowered before, it
succeeds with just that, unless an identity is there for another type. -/
structure Lowers (types : NativeTypes) {α : Type} (m : Stateful LoweredTypes α) (native : Option α)
    (storages : List SelaType) : Prop where
  sound : ∀ {lowered lowered' : LoweredTypes} {before : List SelaType} {a : α},
    types.Holds lowered before → exec m lowered = (.ok a, lowered') →
      native = some a ∧ types.Holds lowered' (before ++ storages)
  complete : ∀ {lowered : LoweredTypes} {before : List SelaType} {a : α},
    types.Holds lowered before → native = some a → Unambiguous (before ++ storages) →
      ∃ lowered', exec m lowered = (.ok a, lowered')

variable {types : NativeTypes} {α β : Type}

theorem mem_of_lookup {κ : Type} [DecidableEq κ] {key : κ} {value : α} :
    ∀ {entries : List (κ × α)}, entries.lookup key = some value → (key, value) ∈ entries
  | [], h => by cases h
  | (first, other) :: entries, h => by
    rw [List.lookup_cons] at h
    split at h
    · rename_i heq
      obtain rfl := Option.some.inj h
      rw [beq_iff_eq.mp heq]
      exact List.mem_cons_self
    · exact List.mem_cons_of_mem _ (mem_of_lookup h)

theorem Holds.congr {lowered : LoweredTypes} {storages storages' : List SelaType}
    (h : types.Holds lowered storages) (hmem : ∀ type, type ∈ storages' ↔ type ∈ storages) :
    types.Holds lowered storages' :=
  ⟨h.unambiguous.mono fun type => (hmem type).mp,
    fun identity type => (h.recorded identity type).trans (and_congr_left' (hmem type).symm),
    fun input native hmade => ⟨(h.made input native hmade).1,
      fun type htype => (hmem type).mpr ((h.made input native hmade).2 type htype)⟩⟩

theorem lookup_concat_eq_some {κ : Type} [DecidableEq κ] {entries : List (κ × α)} {key name : κ}
    {value found : α} : (entries ++ [(key, value)]).lookup name = some found ↔
      entries.lookup name = some found ∨
        (entries.lookup name = none ∧ name = key ∧ value = found) := by
  rw [List.lookup_append, Option.or_eq_some_iff]
  by_cases h : name = key
  · subst h
    simp
  · simp [List.lookup_cons, beq_eq_false_iff_ne.mpr h, h]

/-- A new identity comes to name a type. -/
theorem Holds.identify {lowered : LoweredTypes} {before : List SelaType} {identity : String}
    {input : SelaType} (h : types.Holds lowered before)
    (hidentity : Merger.identity input = identity)
    (hnone : lowered.recordIdentities.lookup identity = none) :
    types.Holds
      { lowered with recordIdentities := lowered.recordIdentities ++ [(identity, input)] }
      (before ++ [input]) := by
  have hnew : ∀ type ∈ before, Merger.identity type ≠ identity := fun type htype heq => by
    rw [(h.recorded identity type).mpr ⟨htype, heq⟩] at hnone
    cases hnone
  refine ⟨?_, fun name type => ?_, fun made native hmade => ?_⟩
  · intro one hone other hother heq
    rcases List.mem_append.mp hone with hold | hone <;>
      rcases List.mem_append.mp hother with hold' | hother
    · exact h.unambiguous one hold other hold' heq
    · obtain rfl := List.mem_singleton.mp hother
      exact absurd (heq.trans hidentity) (hnew one hold)
    · obtain rfl := List.mem_singleton.mp hone
      exact absurd (heq.symm.trans hidentity) (hnew other hold')
    · rw [List.mem_singleton.mp hone, List.mem_singleton.mp hother]
  · dsimp only
    rw [lookup_concat_eq_some, h.recorded]
    constructor
    · rintro (⟨htype, heq⟩ | ⟨-, rfl, rfl⟩)
      · exact ⟨List.mem_append_left _ htype, heq⟩
      · exact ⟨by simp, hidentity⟩
    · rintro ⟨htype, heq⟩
      rcases List.mem_append.mp htype with htype | htype
      · exact .inl ⟨htype, heq⟩
      · obtain rfl := List.mem_singleton.mp htype
        have hname : name = identity := heq.symm.trans hidentity
        exact .inr ⟨hname ▸ hnone, hname, rfl⟩
  · obtain ⟨hnative, hsubset⟩ := h.made made native hmade
    exact ⟨hnative, fun type htype => List.mem_append_left _ (hsubset type htype)⟩

/-- The native record of a type is kept. -/
theorem Holds.keep {lowered : LoweredTypes} {storages : List SelaType} {input : SelaType}
    {native : LlvmType} (h : types.Holds lowered storages)
    (hnative : types.nativeType input = some native)
    (hsubset : ∀ type ∈ input.storages, type ∈ storages) :
    types.Holds { lowered with aggregateTypes := lowered.aggregateTypes ++ [(input, native)] }
      storages := by
  refine ⟨h.unambiguous, h.recorded, fun other found hother => ?_⟩
  rcases List.mem_append.mp hother with hother | hother
  · exact h.made other found hother
  · obtain ⟨rfl, rfl⟩ := Prod.mk.inj (List.mem_singleton.mp hother)
    exact ⟨hnative, hsubset⟩

theorem Lowers.pure (a : α) : types.Lowers (Pure.pure a) (some a) [] where
  sound hholds h := by
    obtain ⟨ha, rfl⟩ := Prod.mk.inj h
    obtain rfl := Except.ok.inj ha
    exact ⟨rfl, by simpa using hholds⟩
  complete _ h _ := by
    obtain rfl := Option.some.inj h
    exact ⟨_, rfl⟩

/-- A check of its own does not touch what was lowered. -/
theorem Lowers.check {x : Checked α} {native : Option α} (h : ∀ a, x = .ok a ↔ native = some a) :
    types.Lowers (Stateful.check x) native [] where
  sound hholds hrun := by
    rw [exec_check] at hrun
    obtain ⟨hx, rfl⟩ := Prod.mk.inj hrun
    exact ⟨(h _).mp hx, by simpa using hholds⟩
  complete _ hnative _ := ⟨_, by rw [exec_check, (h _).mpr hnative]⟩

theorem Lowers.ensure {condition : Prop} [Decidable condition] {message : String} :
    types.Lowers (Stateful.check (Checked.ensure condition message)) (guard condition) [] :=
  .check fun a => by
    rw [ensure_ok]
    by_cases h : condition <;> simp [h, guard]

theorem Lowers.bind {m : Stateful LoweredTypes α} {f : α → Stateful LoweredTypes β}
    {native : Option α} {next : α → Option β} {storages storages' : List SelaType}
    (hm : types.Lowers m native storages)
    (hf : ∀ a, native = some a → types.Lowers (f a) (next a) storages') :
    types.Lowers (m >>= f) (native >>= next) (storages ++ storages') where
  sound hholds h := by
    obtain ⟨a, middle, ha, h⟩ := exec_bind_ok.mp h
    obtain ⟨hnative, hholds⟩ := hm.sound hholds ha
    obtain ⟨hnext, hholds⟩ := (hf a hnative).sound hholds h
    exact ⟨Option.bind_eq_some_iff.mpr ⟨a, hnative, hnext⟩, List.append_assoc _ _ _ ▸ hholds⟩
  complete hholds h hunambiguous := by
    obtain ⟨a, hnative, hnext⟩ := Option.bind_eq_some_iff.mp h
    rw [← List.append_assoc] at hunambiguous
    obtain ⟨middle, ha⟩ := hm.complete hholds hnative
      (hunambiguous.mono fun type htype => List.mem_append_left _ htype)
    obtain ⟨lowered', h⟩ := (hf a hnative).complete (hm.sound hholds ha).2 hnext hunambiguous
    exact ⟨lowered', exec_bind_ok.mpr ⟨a, middle, ha, h⟩⟩

/-- An identity comes to name its type. -/
theorem lowers_rememberIdentity {identity message : String} {input : SelaType}
    (hidentity : Merger.identity input = identity) :
    types.Lowers (rememberIdentity identity input message) (some ()) [input] where
  sound {lowered lowered' before a} hholds h := by
    refine ⟨rfl, ?_⟩
    unfold rememberIdentity at h
    obtain ⟨_, middle, hget, h⟩ := exec_bind_ok.mp h
    obtain ⟨hlowered, rfl⟩ := Prod.mk.inj hget
    obtain rfl := Except.ok.inj hlowered
    split at h
    · rename_i found hfound
      rw [exec_check] at h
      obtain ⟨hsame, rfl⟩ := Prod.mk.inj h
      obtain rfl := ensure_ok.mp hsame
      have hmem := ((hholds.recorded _ _).mp hfound).1
      exact hholds.congr fun type => by simpa using fun htype => htype ▸ hmem
    · rename_i hnone
      obtain ⟨-, rfl⟩ := Prod.mk.inj h
      exact hholds.identify hidentity hnone
  complete {lowered before a} hholds _ hunambiguous := by
    unfold rememberIdentity
    rcases hlookup : lowered.recordIdentities.lookup identity with _ | found
    · refine ⟨{ lowered with recordIdentities := lowered.recordIdentities ++ [(identity, input)] },
        exec_bind_ok.mpr ⟨lowered, lowered, rfl, ?_⟩⟩
      rw [hlookup]
      rfl
    · obtain ⟨hfound, heq⟩ := (hholds.recorded identity found).mp hlookup
      have hsame : found = input := hunambiguous found (List.mem_append_left _ hfound) input
        (by simp) (heq.trans hidentity.symm)
      refine ⟨lowered, exec_bind_ok.mpr ⟨lowered, lowered, rfl, ?_⟩⟩
      rw [hlookup]
      dsimp only
      rw [exec_check, ensure_ok.mpr hsame]

/-- A native record that is made once is the one of its type. -/
theorem Lowers.storageType {input : SelaType} {make : Stateful LoweredTypes LlvmType}
    (h : types.Lowers make (types.nativeType input) input.storages) :
    types.Lowers (NativeTypes.storageType input make) (types.nativeType input) input.storages where
  sound {lowered lowered' before native} hholds hrun := by
    unfold NativeTypes.storageType at hrun
    obtain ⟨_, middle, hget, hrun⟩ := exec_bind_ok.mp hrun
    obtain ⟨hlowered, rfl⟩ := Prod.mk.inj hget
    obtain rfl := Except.ok.inj hlowered
    split at hrun
    · rename_i found hfound
      obtain ⟨hnative, rfl⟩ := Prod.mk.inj hrun
      obtain rfl := Except.ok.inj hnative
      obtain ⟨hnative, hsubset⟩ := hholds.made input _ (mem_of_lookup hfound)
      exact ⟨hnative, hholds.congr fun type => by simpa using hsubset type⟩
    · obtain ⟨made, last, hmake, hrun⟩ := exec_bind_ok.mp hrun
      obtain ⟨hnative, hholds⟩ := h.sound hholds hmake
      obtain ⟨hmade, rfl⟩ := Prod.mk.inj hrun
      obtain rfl := Except.ok.inj hmade
      exact ⟨hnative, hholds.keep hnative fun type htype => List.mem_append_right _ htype⟩
  complete {lowered before native} hholds hnative hunambiguous := by
    unfold NativeTypes.storageType
    rcases hlookup : lowered.aggregateTypes.lookup input with _ | found
    · obtain ⟨last, hmake⟩ := h.complete hholds hnative hunambiguous
      refine ⟨{ last with aggregateTypes := last.aggregateTypes ++ [(input, native)] },
        exec_bind_ok.mpr ⟨lowered, lowered, rfl, ?_⟩⟩
      rw [hlookup]
      exact exec_bind_ok.mpr ⟨native, last, hmake, rfl⟩
    · obtain ⟨hfound, -⟩ := hholds.made input found (mem_of_lookup hlookup)
      obtain rfl := Option.some.inj (hfound.symm.trans hnative)
      refine ⟨lowered, exec_bind_ok.mpr ⟨lowered, lowered, rfl, ?_⟩⟩
      rw [hlookup]
      rfl

theorem Lowers.fail {message : String} :
    types.Lowers (Stateful.check (throw message : Checked α)) none [] :=
  .check fun a => by simp

/-- A check, and what comes after it. -/
theorem Lowers.checkThen {m : Stateful LoweredTypes α} {f : α → Stateful LoweredTypes β}
    {native : Option α} {next : α → Option β} {storages : List SelaType}
    (hm : types.Lowers m native [])
    (hf : ∀ a, native = some a → types.Lowers (f a) (next a) storages) :
    types.Lowers (m >>= f) (native >>= next) storages :=
  hm.bind hf

/-- A computation, and a check of what it gives. -/
theorem Lowers.thenCheck {m : Stateful LoweredTypes α} {f : α → Stateful LoweredTypes β}
    {native : Option α} {next : α → Option β} {storages : List SelaType}
    (hm : types.Lowers m native storages)
    (hf : ∀ a, native = some a → types.Lowers (f a) (next a) []) :
    types.Lowers (m >>= f) (native >>= next) storages :=
  List.append_nil storages ▸ hm.bind hf

theorem toOption_eq_some {x : Checked α} {a : α} : x = .ok a ↔ x.toOption = some a := by
  cases x <;> simp [Except.toOption]

theorem lowers_carrier {alternatives : List LlvmType} :
    types.Lowers (Stateful.check (selectOverlapCarrier types.layout alternatives))
      (selectOverlapCarrier types.layout alternatives).toOption [] :=
  .check fun _ => toOption_eq_some

theorem lowers_recordIdentity {identity : String} {input : SelaType}
    (hidentity : Merger.identity input = identity) :
    types.Lowers (recordIdentity identity input)
      (guard (identity = "" ∨ isStorageIdentity identity = true)) (identified identity input) := by
  unfold recordIdentity identified
  by_cases hempty : identity = ""
  · rw [if_pos hempty, if_pos hempty, guard, if_pos (.inl hempty)]
    exact .pure ()
  · rw [if_neg hempty, if_neg hempty]
    have hguard : guard (f := Option) (identity = "" ∨ isStorageIdentity identity = true) =
        (guard (isStorageIdentity identity = true) >>= fun _ => some ()) := by
      by_cases h : isStorageIdentity identity = true <;> simp [guard, hempty, h]
    rw [hguard]
    exact Lowers.bind .ensure fun _ _ => lowers_rememberIdentity hidentity

theorem lowers_alternatives : ∀ {alternatives : List SelaType} {domains : List Attr},
    (∀ type ∈ alternatives,
      types.Lowers (types.lowerType type) (types.nativeType type) type.storages) →
      types.Lowers (types.lowerAlternatives alternatives domains)
        (types.nativeAlternatives alternatives domains) (typesStorages alternatives)
  | [], domains, _ => by
    rw [lowerAlternatives, nativeAlternatives, typesStorages]
    exact .pure []
  | alternative :: alternatives, domains, h => by
    obtain ⟨halternative, h⟩ := List.forall_mem_cons.mp h
    rw [lowerAlternatives, nativeAlternatives, typesStorages]
    exact Lowers.checkThen .ensure fun _ _ => halternative.bind fun native _ =>
      Lowers.checkThen lowers_carrier fun _ _ =>
        (lowers_alternatives h).thenCheck fun natives _ => .pure (native :: natives)

theorem lowers_fields : ∀ {fields : List SelaType},
    (∀ type ∈ fields, types.Lowers (types.lowerType type) (types.nativeType type) type.storages) →
      types.Lowers (types.lowerFields fields) (types.nativeFields fields) (typesStorages fields)
  | [], _ => by
    rw [lowerFields, nativeFields, typesStorages]
    exact .pure []
  | field :: fields, h => by
    obtain ⟨hfield, h⟩ := List.forall_mem_cons.mp h
    rw [lowerFields, nativeFields, typesStorages]
    exact hfield.bind fun native _ => Lowers.checkThen .ensure fun _ _ =>
      (lowers_fields h).thenCheck fun natives _ => .pure (native :: natives)

/-- A type is lowered to its native type. -/
theorem lowers_type (input : SelaType) :
    types.Lowers (types.lowerType input) (types.nativeType input) input.storages := by
  cases input with
  | vector shape scalable element =>
    rw [lowerType, nativeType, SelaType.storages]
    exact (lowers_type element).thenCheck fun native _ => .check fun _ => require_ok
  | array element count =>
    rw [lowerType, nativeType, SelaType.storages]
    exact (lowers_type element).thenCheck fun native _ => .check fun _ => require_ok
  | overlap identity alternatives domains =>
    have halternatives : ∀ type ∈ alternatives,
        types.Lowers (types.lowerType type) (types.nativeType type) type.storages :=
      fun type htype =>
        have := List.sizeOf_lt_of_mem htype
        lowers_type type
    rw [lowerType]
    refine Lowers.storageType ?_
    rw [nativeType, SelaType.storages]
    have hcarrier : ∀ selected, types.Lowers (do
          let carrier ← Stateful.check (selectOverlapCarrier types.layout selected)
          pure (LlvmType.struct (some identity) false [carrier]))
        (do
          let carrier ← (selectOverlapCarrier types.layout selected).toOption
          some (LlvmType.struct (some identity) false [carrier])) [] := fun selected =>
      lowers_carrier.thenCheck fun carrier _ => .pure _
    have hidentity : types.Lowers
        (rememberIdentity identity (.overlap identity alternatives domains)
          "conflicting definitions of a Sela storage identity")
        (some ()) [.overlap identity alternatives domains] := lowers_rememberIdentity rfl
    exact Lowers.checkThen .ensure fun _ _ => hidentity.bind
        fun _ _ => Lowers.checkThen .ensure fun _ _ =>
          (lowers_alternatives halternatives).thenCheck fun selected _ => hcarrier selected
  | record identity packed fields =>
    have hfields : ∀ type ∈ fields,
        types.Lowers (types.lowerType type) (types.nativeType type) type.storages :=
      fun type htype =>
        have := List.sizeOf_lt_of_mem htype
        lowers_type type
    rw [lowerType]
    refine Lowers.storageType ?_
    rw [nativeType, SelaType.storages]
    have hidentity : types.Lowers (recordIdentity identity (.record identity packed fields))
        (guard (identity = "" ∨ isStorageIdentity identity = true))
        (identified identity (.record identity packed fields)) := lowers_recordIdentity rfl
    exact hidentity.bind fun _ _ =>
      (lowers_fields hfields).thenCheck fun natives _ =>
        .pure (LlvmType.struct (structName identity) packed natives)
  | vaList => exact Lowers.storageType (.pure types.vaListType)
  | integer width => exact Lowers.check fun _ => require_ok
  | ptr => exact Lowers.pure LlvmType.ptr
  | word => exact Lowers.pure (LlvmType.int types.target.wordBits)
  | vaListArgument => exact Lowers.pure types.vaListArgumentType
  | f32 => exact Lowers.pure LlvmType.floatTy
  | f64 => exact Lowers.pure LlvmType.doubleTy
  | function inputs results => exact Lowers.fail
  | foreign type =>
    rcases type with (width | width | _) | name
    · exact Lowers.check fun _ => require_ok
    · exact Lowers.check fun _ => require_ok
    · exact Lowers.fail
    · exact Lowers.fail
  | choice cases => exact Lowers.fail
termination_by sizeOf input

theorem holds_empty : types.Holds ⟨[], []⟩ [] :=
  ⟨by simp [Unambiguous], by simp, by simp⟩

theorem lowers_types : ∀ inputs : List SelaType, types.Lowers (inputs.mapM types.lowerType)
    (inputs.mapM types.nativeType) (inputs.flatMap SelaType.storages)
  | [] => .pure []
  | input :: inputs => by
    rw [List.mapM_cons, List.mapM_cons, List.flatMap_cons]
    exact (lowers_type input).bind fun native _ =>
      (lowers_types inputs).thenCheck fun natives _ => .pure (native :: natives)

/-- The types of a module are lowered exactly when each has a native type and no identity names two
storage types, and then each to its native type. -/
theorem lowerTypes_ok_iff {inputs : List SelaType} {natives : List LlvmType} :
    (∃ lowered, exec (inputs.mapM types.lowerType) ⟨[], []⟩ = (.ok natives, lowered)) ↔
      inputs.mapM types.nativeType = some natives ∧
        Unambiguous (inputs.flatMap SelaType.storages) := by
  constructor
  · rintro ⟨lowered, h⟩
    obtain ⟨hnative, hholds⟩ := (lowers_types inputs).sound holds_empty h
    exact ⟨hnative, hholds.unambiguous⟩
  · rintro ⟨hnative, hunambiguous⟩
    exact (lowers_types inputs).complete holds_empty hnative hunambiguous

end NativeTypes

end Sela
