import Sela.NativeX86Abi

/-!
# The x86 classifier of semantic layouts

The second x86 classifier reads a record through its semantic layout : each field at a bit
offset, unions and bit-fields included. It cuts a record into the bit spans of its data and
asks which type the storage prefers at the start of each eightbyte.

On ordered records at their natural layout it agrees with the classifier of ordered records
(`classifyNativeLayoutABI_natural`), for storage that nests at most thirty-two deep. Deeper
storage separates the two : each remembers the types it has walked, but they walk them in
different orders (`deepLayout_refused`).
-/

namespace Sela

namespace NativeX86LayoutAbi

open NativeX86Abi (target layout sizeLimit)

def failure {α : Type} (message : String) : Checked α :=
  .error ("native semantic-layout ABI: " ++ message)

def ensure (condition : Prop) [Decidable condition] (message : String) : Checked Unit :=
  Checked.ensure condition ("native semantic-layout ABI: " ++ message)

/-- The scalars of a field. -/
def scalar (type : LlvmType) : Bool :=
  match type with
  | .scalar (.integer width) => width == 8 || width == 16 || width == 32 || width == 64
  | .scalar (.floating format) => format == .float || format == .double
  | .scalar (.pointer addressSpace) => addressSpace == 0
  | _ => false

structure TypeInfo where
  size : ℕ
  alignment : Align
  deriving DecidableEq

/-- The bits of some data. -/
structure Span where
  type : LlvmType
  start : ℕ
  stop : ℕ
  bitfield : Bool

/-- What is remembered : the storage checked, and the information of the types walked. -/
structure Memo where
  checkedStorage : List LlvmType
  semanticInfo : List (LlvmType × TypeInfo)

section Classifier

variable (x64 : Bool)

/-! ## Storage -/

/-- An integer that storage may hold. -/
def storageInteger (type : LlvmType) : Bool :=
  match type with
  | .scalar (.integer width) => width ≤ 128
  | _ => false

mutual

/-- Check a storage carrier. The storage checked so far comes in and goes out. -/
def storage : LlvmType → ℕ → List LlvmType → Checked (List LlvmType)
  | .array element count, depth, checked => do
    ensure (depth ≤ 32 ∧ element.isSized) "unsized or deep native storage carrier"
    if .array element count ∈ checked then pure checked
    else do
      let checked ← storage element (depth + 1) checked
      ensure ((layout x64).allocSize element ≠ 0 ∧
          count ≤ sizeLimit / (layout x64).allocSize element)
        "oversized native storage array"
      ensure ((layout x64).allocSize (.array element count) ≤ sizeLimit)
        "oversized native storage carrier"
      pure (.array element count :: checked)
  | .struct identity packed fields, depth, checked => do
    ensure (depth ≤ 32 ∧ LlvmType.fieldsSized fields) "unsized or deep native storage carrier"
    if .struct identity packed fields ∈ checked then pure checked
    else do
      let checked ← storageFields packed fields (depth + 1) 0 checked
      ensure ((layout x64).allocSize (.struct identity packed fields) ≤ sizeLimit)
        "oversized native storage carrier"
      pure (.struct identity packed fields :: checked)
  | type, depth, checked => do
    ensure (depth ≤ 32 ∧ type.isSized) "unsized or deep native storage carrier"
    if type ∈ checked then pure checked
    else if scalar type = true ∨ storageInteger type = true then pure (type :: checked)
    else failure "unsupported native storage carrier"

/-- Check the fields of a carrier that end at `bytes` so far. -/
def storageFields (packed : Bool) :
    List LlvmType → ℕ → ℕ → List LlvmType → Checked (List LlvmType)
  | [], _, _, checked => pure checked
  | field :: fields, depth, bytes, checked => do
    let checked ← storage field depth checked
    let bytes := alignTo bytes ((layout x64).fieldAlign packed field)
    ensure (bytes ≤ sizeLimit ∧ (layout x64).allocSize field ≤ sizeLimit - bytes)
      "oversized native storage record"
    storageFields packed fields depth (bytes + (layout x64).allocSize field) checked

end

/-! ## Information -/

variable (records : List NativeABIRecordLayout)

/-- The semantic layout of a record. -/
def findRecord (record : StructType) : Option NativeABIRecordLayout :=
  records.find? fun description => description.storageType = record

/-- What the loop over the fields of a record carries : where the fields passed so far end,
and whether there is data among them. -/
structure FieldState where
  stop : ℕ
  data : Bool

/-- An integer bit-field that is well formed. -/
def validBitfield (field : NativeABIFieldLayout) (width : ℕ) : Bool :=
  scalar field.type &&
    (match field.type with
      | .scalar (.integer bits) => width ≤ bits
      | _ => false) &&
    (width != 0 || field.padding)

/-- The extent of one field of a record. -/
def fieldStep (description : NativeABIRecordLayout) (field : NativeABIFieldLayout) (bits : ℕ)
    (state : FieldState) : Checked FieldState := do
  ensure (field.bitOffset ≤ description.sizeBytes * 8 ∧
      bits ≤ description.sizeBytes * 8 - field.bitOffset)
    "semantic field exceeds native storage"
  ensure (¬(description.kind = .union ∧ field.bitOffset ≠ 0))
    "union alternatives must overlap at offset zero"
  ensure (¬(description.kind = .ordered ∧ field.bitOffset < state.stop))
    "ordered semantic fields overlap or are out of order"
  pure
    { stop := if description.kind = .ordered then field.bitOffset + bits else state.stop
      data := state.data || (!field.padding && bits != 0) }

/-- One field of a record, where `inner` walks the type of a field that is no bit-field. -/
def walkField (description : NativeABIRecordLayout)
    (inner : LlvmType → Memo → Checked (TypeInfo × Memo)) (walk : FieldState × Memo)
    (field : NativeABIFieldLayout) : Checked (FieldState × Memo) :=
  match field.bitWidth with
  | some width => do
    ensure (validBitfield field width) "invalid integer bitfield width"
    let state ← fieldStep description field width walk.1
    pure (state, walk.2)
  | none => do
    ensure (field.padding = false ∧ field.bitOffset % 8 = 0)
      "non-bitfield has invalid padding/bit offset"
    let (fieldInfo, memo) ← inner field.type walk.2
    let state ← fieldStep description field (fieldInfo.size * 8) walk.1
    pure (state, memo)

/-- The information of a type, met with `levels` levels of nesting left inside the types of
`active`. -/
def info : ℕ → List LlvmType → LlvmType → Memo → Checked (TypeInfo × Memo)
  | 0, _, _, _ => failure "missing or deep semantic field type"
  | levels + 1, active, type, memo =>
    match memo.semanticInfo.lookup type with
    | some found => pure (found, memo)
    | none =>
      if scalar type then
        pure (⟨(layout x64).allocSize type, (layout x64).abiAlign type⟩, memo)
      else do
        ensure (type ∉ active) "recursive by-value semantic layout"
        match type with
        | .array element count => do
          let (element, memo) ← info levels (type :: active) element memo
          ensure (count ≠ 0 ∧ element.size ≠ 0 ∧ count ≤ sizeLimit / element.size)
            "empty, flexible or oversized semantic array"
          let checked ← storage x64 type 0 memo.checkedStorage
          let result : TypeInfo := ⟨element.size * count, element.alignment⟩
          ensure ((layout x64).allocSize type = result.size)
            "semantic array stride disagrees with storage carrier"
          pure (result, ⟨checked, (type, result) :: memo.semanticInfo⟩)
        | .struct identity packed fields =>
          match findRecord records ⟨identity, packed, fields⟩ with
          | none => failure "record lacks an explicit semantic layout"
          | some description => do
            ensure (description.sizeBytes ≠ 0 ∧ description.sizeBytes ≤ sizeLimit ∧
                description.alignment.value ≤ sizeLimit ∧
                description.sizeBytes % description.alignment.value = 0 ∧
                description.fields ≠ [] ∧ description.fields.length ≤ 1024)
              "invalid semantic record size/alignment/field count"
            let checked ← storage x64 type 0 memo.checkedStorage
            ensure ((layout x64).allocSize type = description.sizeBytes)
              "semantic record size disagrees with storage carrier"
            let (state, memo) ← description.fields.foldlM
              (walkField description (info levels (type :: active)))
              (⟨0, false⟩, ⟨checked, memo.semanticInfo⟩)
            ensure state.data "empty/all-padding ABI values need an explicit ignored-value contract"
            let result : TypeInfo := ⟨description.sizeBytes, description.alignment⟩
            pure (result, { memo with semanticInfo := (type, result) :: memo.semanticInfo })
        | _ => failure "record lacks an explicit semantic layout"

/-- Check every semantic layout. -/
def initializeRecords : Checked Memo := do
  ensure (records.map NativeABIRecordLayout.storageType).Nodup
    "missing or duplicate semantic storage identity"
  records.foldlM
    (fun memo description => do
      let (_, memo) ← info x64 records 33 [] description.storageType.toType memo
      pure memo)
    ⟨[], []⟩

/-! ## Spans -/

/-- The alignment that the field of a record needs. -/
def fieldAlignment (memo : Memo) (type : LlvmType) : Align :=
  if scalar type then (layout x64).abiAlign type
  else ((memo.semanticInfo.lookup type).map TypeInfo.alignment).getD default

/-- One field of a record at bit `base`, where `inner` gathers the spans of a field that is no
bit-field. -/
def gatherField (memo : Memo)
    (inner : LlvmType → ℕ → List Span × Bool → Option (List Span × Bool)) (base : ℕ)
    (found : List Span × Bool) (field : NativeABIFieldLayout) : Option (List Span × Bool) :=
  if found.1.length ≥ 4096 then none
  else if field.padding then some found
  else
    match field.bitWidth with
    | some width =>
      some (found.1 ++ [⟨field.type, base + field.bitOffset, base + field.bitOffset + width, true⟩],
        found.2)
    | none =>
      inner field.type (base + field.bitOffset)
        (found.1, found.2 || (base + field.bitOffset) %
          ((fieldAlignment x64 memo field.type).value * 8) != 0)

/-- The data spans of a type at bit `base`, after those found before, and whether some field
is not aligned. The records have been checked, so their nesting is bounded. -/
def gather (memo : Memo) : ℕ → LlvmType → ℕ → List Span × Bool → Option (List Span × Bool)
  | 0, _, _, _ => none
  | levels + 1, type, base, found =>
    if found.1.length ≥ 4096 then none
    else if scalar type then
      some (found.1 ++ [⟨type, base, base + (layout x64).storeSize type * 8, false⟩], found.2)
    else
      match type with
      | .array element count =>
        (List.range count).foldlM
          (fun found i =>
            gather memo levels element (base + i * ((layout x64).allocSize element * 8)) found)
          found
      | .struct identity packed fields =>
        match findRecord records ⟨identity, packed, fields⟩ with
        | none => none
        | some description =>
          description.fields.foldlM (gatherField x64 memo (gather memo levels) base) found
      | _ => none

/-- The nesting that checked records have at most : each is walked to thirty-three levels from
one of the records. -/
def nesting : ℕ := 33 * records.length + 1

/-! ## Preferred types -/

mutual

/-- The scalar of the storage that begins at `offset`. -/
def preferred : LlvmType → ℕ → Option LlvmType
  | .struct identity packed fields, offset =>
    if offset ≥ (layout x64).allocSize (.struct identity packed fields) then none
    else preferredField packed 0 offset fields
  | .array element count, offset =>
    if offset ≥ (layout x64).allocSize (.array element count) then none
    else if (layout x64).allocSize element = 0 then none
    else preferred element (offset % (layout x64).allocSize element)
  | type, offset =>
    if offset ≥ (layout x64).allocSize type then none
    else if offset = 0 then some type else none

/-- The scalar at `offset` in the last of the fields that begins no later. -/
def preferredField (packed : Bool) (start offset : ℕ) : List LlvmType → Option LlvmType
  | [] => none
  | field :: fields =>
    let position := alignTo start ((layout x64).fieldAlign packed field)
    let stop := position + (layout x64).allocSize field
    match (layout x64).elements packed stop fields with
    | [] => preferred field (offset - position)
    | next :: _ =>
      if next.2 ≤ offset then preferredField packed stop offset fields
      else preferred field (offset - position)

end

/-! ## Classification -/

def value (type : LlvmType) (information : TypeInfo) : NativeABIValue :=
  { NativeABIValue.blank type with
    storageSize := information.size
    storageAlignment := information.alignment
    abiAlignment := information.alignment }

/-- A record in memory, or on the scalar stack. -/
def memory (type : LlvmType) (information : TypeInfo) (returns : Bool) (freeGP : ℕ) :
    NativeABIValue :=
  if x64 = true ∧ returns = false ∧ freeGP = 0 ∧ information.size ≤ 8 ∧
      information.alignment ≤ .of 8 then
    { value type information with
      kind := .coerce
      pieces := [⟨.int (information.size * 8), 0⟩]
      nativeCount := 1 }
  else
    { value type information with
      kind := .indirect
      byVal := !returns
      sRet := returns
      abiAlignment :=
        if returns then information.alignment
        else if x64 then max (.of 8) information.alignment else .of 4
      nativeCount := 1 }

/-- The fields of an i686 record that fill it word by word. -/
def words : List NativeABIFieldLayout → ℕ → Option (List NativeABIPiece × ℕ)
  | [], bytes => some ([], bytes)
  | field :: fields, bytes =>
    if field.bitWidth.isSome = true ∨ field.padding = true ∨ scalar field.type = false then none
    else if ((layout x64).allocSize field.type ≠ 4 ∧ (layout x64).allocSize field.type ≠ 8) ∨
        field.bitOffset ≠ bytes * 8 then
      none
    else
      (words fields (bytes + (layout x64).allocSize field.type)).map fun rest =>
        (⟨field.type, bytes⟩ :: rest.1, rest.2)

def classifyWords (type : LlvmType) (information : TypeInfo)
    (description : NativeABIRecordLayout) (returns : Bool) (freeGP : ℕ) : NativeABIValue :=
  if returns = true ∨ information.size > 16 then memory x64 type information returns freeGP
  else
    match words x64 description.fields 0 with
    | none => memory x64 type information false freeGP
    | some (pieces, bytes) =>
      if bytes ≠ information.size then memory x64 type information false freeGP
      else
        { value type information with
          pieces := pieces
          kind := .expand
          nativeCount := pieces.length }

/-- The span has a bit in the eightbyte at `offset`. -/
def Span.meets (offset : ℕ) (span : Span) : Bool :=
  decide (span.start < (offset + 8) * 8 ∧ offset * 8 < span.stop)

/-- The span makes an eightbyte of class integer. -/
def Span.isWord (span : Span) : Bool := span.bitfield || NativeX86Abi.isWord span.type

/-- The piece of an eightbyte of class integer. -/
def integerPiece (size offset : ℕ) (spans : List Span) (preferredType : Option LlvmType) :
    LlvmType :=
  let bytes : LlvmType := .int (min 8 (size - offset) * 8)
  match preferredType with
  | some (.scalar (.pointer addressSpace)) => .scalar (.pointer addressSpace)
  | some (.scalar (.integer width)) =>
    if width = 64 then .int width
    else if width = 8 ∨ width = 16 ∨ width = 32 then
      if spans.any fun span =>
        decide (span.start < (offset + 8) * 8 ∧ span.stop > offset * 8 + width) then bytes
      else .int width
    else bytes
  | _ => bytes

/-- The piece of an eightbyte of class SSE. -/
def ssePiece (type : LlvmType) (offset : ℕ) (preferredType : Option LlvmType) : LlvmType :=
  if preferredType = some .floatTy then
    if preferred x64 type (offset + 4) = some .floatTy then .vector (.floating .float) 2
    else .floatTy
  else .doubleTy

/-- The piece of the eightbyte at `offset` and whether it takes a general register, when there
is data in it. -/
def eightbyte (type : LlvmType) (size : ℕ) (spans : List Span) (offset : ℕ) :
    Checked (Option (NativeABIPiece × Bool)) :=
  if spans.any (Span.meets offset) = false then pure none
  else do
    let integer := (spans.filter (Span.meets offset)).any Span.isWord
    let piece :=
      if integer then integerPiece size offset spans (preferred x64 type offset)
      else ssePiece x64 type offset (preferred x64 type offset)
    ensure ((layout x64).storeSize piece ≤ size - offset)
      "preferred native coercion exceeds record storage"
    pure (some (⟨piece, offset⟩, integer))

def classifyEightbytes (memo : Memo) (type : LlvmType) (information : TypeInfo) (returns : Bool)
    (freeGP freeSSE : ℕ) : Checked NativeABIValue :=
  if information.size > 16 then pure (memory x64 type information returns freeGP)
  else
    match gather x64 records memo (nesting records) type 0 ([], false) with
    | none => failure "semantic layout exceeds bounded ABI decomposition"
    | some (spans, unaligned) =>
      if unaligned then pure (memory x64 type information returns freeGP)
      else do
        let classes ← (NativeX86Abi.eightbyteOffsets information.size).mapM
          (eightbyte x64 type information.size spans)
        let classes := classes.filterMap id
        ensure (classes ≠ []) "record has no admitted native ABI data"
        let neededGP := classes.countP fun entry => entry.2
        let neededSSE := classes.countP fun entry => !entry.2
        if returns = false ∧ (neededGP > freeGP ∨ neededSSE > freeSSE) then
          pure (memory x64 type information false freeGP)
        else
          let pieces := classes.map Prod.fst
          pure
            { value type information with
              pieces := NativeX86Abi.widen x64 pieces
              kind := if pieces.length = 1 then .coerce else .expand
              nativeCount := pieces.length }

/-- Classify a result or a parameter. -/
def classify (memo : Memo) (type : LlvmType) (returns : Bool) (freeGP freeSSE : ℕ) :
    Checked NativeABIValue :=
  if type = .void then
    if returns then pure (value type ⟨0, .of 1⟩) else failure "void parameter"
  else if scalar type = true ∨ type = .int 1 then
    pure
      { value type ⟨(layout x64).allocSize type, (layout x64).abiAlign type⟩ with
        pieces := [⟨type, 0⟩]
        nativeCount := 1 }
  else
    match type with
    | .struct identity packed fields =>
      match findRecord records ⟨identity, packed, fields⟩, memo.semanticInfo.lookup type with
      | some description, some information =>
        if x64 then classifyEightbytes x64 records memo type information returns freeGP freeSSE
        else pure (classifyWords x64 type information description returns freeGP)
      | _, _ => failure "by-value boundary lacks a semantic record descriptor"
    | _ => failure "by-value boundary lacks a semantic record descriptor"

/-! ## Signatures -/

/-- What the parameter loop carries. -/
structure Registers where
  freeGP : ℕ
  freeSSE : ℕ
  nativeParameters : List LlvmType
  parameters : List NativeABIValue

def classifyParameter (memo : Memo) (state : Registers) (parameter : LlvmType) :
    Checked Registers := do
  let native ← classify x64 records memo parameter false state.freeGP state.freeSSE
  let native := { native with nativeBegin := state.nativeParameters.length }
  let free := NativeX86Abi.takeRegisters x64 native state.freeGP state.freeSSE
  pure
    { freeGP := free.1
      freeSSE := free.2
      nativeParameters := state.nativeParameters ++
        if native.byVal then [.ptr] else native.pieces.map NativeABIPiece.type
      parameters := state.parameters ++ [native] }

def classifyNativeLayoutABI (logical : FunctionType) : Checked NativeABISignature := do
  let memo ← initializeRecords x64 records
  let (freeGP, freeSSE) := NativeX86Abi.freeRegisters x64
  let result ← classify x64 records memo logical.result true freeGP freeSSE
  let state ← logical.params.foldlM (classifyParameter x64 records memo)
    { freeGP := if result.sRet = true ∧ x64 = true then freeGP - 1 else freeGP
      freeSSE := freeSSE
      nativeParameters := if result.sRet then [.ptr] else []
      parameters := [] }
  pure
    { nativeType := ⟨result.nativeResult, state.nativeParameters, logical.isVarArg⟩
      result := result
      parameters := state.parameters
      sretIndex := if result.sRet then some 0 else none
      remainingGP := state.freeGP
      remainingSSE := state.freeSSE }

end Classifier

end NativeX86LayoutAbi

end Sela
