import Sela.NativeAbi

/-!
# The x86 classifier

The classifier of ordered records for x86-64 and i686. A record is validated field by field;
a type once validated is remembered, however deep it is met again. On x86-64 a record of at
most sixteen bytes is cut into eightbytes and each takes the class of the leaves in it; on
i686 a record whose fields fill it word by word is passed field by field. Everything else is
indirect.

`classifyNativeABI_wellFormed` : every signature it returns is well formed.
-/

namespace Sela

namespace NativeX86Abi

open NativeAbi

/-- The target of the classifier. -/
abbrev target (x64 : Bool) : NativeTarget := if x64 then .x86_64 else .i686

abbrev layout (x64 : Bool) : DataLayout := (target x64).layout

/-- A scalar of a record, with its position. -/
structure Leaf where
  type : LlvmType
  offset : ℕ
  size : ℕ

/-- The greatest logical storage. -/
def sizeLimit : ℕ := 2 ^ 30

section Classifier

variable (x64 : Bool) (records : List StructType)

/-! ## Validation -/

/-- Check storage that is no record and no array. -/
def validateScalar (type : LlvmType) (depth : ℕ) (validated : List LlvmType) :
    Checked (List LlvmType) := do
  ensure (depth ≤ 32 ∧ type.isSized) "unsized or excessively nested logical storage"
  if type ∈ validated ∨ scalar type true then pure validated
  else
    failure
      "unsupported logical record field (vectors, bitfields and nonstandard scalars need a separate contract)"

mutual

/-- Check logical storage. The types validated so far come in and go out. -/
def validate : LlvmType → ℕ → List LlvmType → Checked (List LlvmType)
  | .struct identity packed fields, depth, validated => do
    ensure (depth ≤ 32 ∧ LlvmType.fieldsSized fields)
      "unsized or excessively nested logical storage"
    if .struct identity packed fields ∈ validated then pure validated
    else do
      ensure (⟨identity, packed, fields⟩ ∈ records)
        "record lacks ordered non-overlapping ABI qualification (union storage is not a logical record)"
      ensure (packed = false ∧ fields ≠ []) "packed or empty records are not qualified"
      let validated ← validateFields fields (depth + 1) 0 validated
      ensure ((layout x64).allocSize (.struct identity packed fields) ≤ sizeLimit)
        "logical storage exceeds qualification size limit"
      pure (.struct identity packed fields :: validated)
  | .array element count, depth, validated => do
    ensure (depth ≤ 32 ∧ element.isSized) "unsized or excessively nested logical storage"
    if .array element count ∈ validated then pure validated
    else do
      ensure (count ≠ 0) "empty or flexible array storage is not qualified"
      let validated ← validate element (depth + 1) validated
      ensure ((layout x64).allocSize element ≠ 0 ∧
          count ≤ sizeLimit / (layout x64).allocSize element)
        "logical storage exceeds qualification size limit"
      pure (.array element count :: validated)
  | type, depth, validated => validateScalar type depth validated

/-- Check the fields of a record that end at `size` so far. -/
def validateFields : List LlvmType → ℕ → ℕ → List LlvmType → Checked (List LlvmType)
  | [], _, _, validated => pure validated
  | field :: fields, depth, size, validated => do
    let validated ← validate field depth validated
    let size := alignTo size ((layout x64).abiAlign field)
    ensure (size ≤ sizeLimit ∧ (layout x64).allocSize field ≤ sizeLimit - size)
      "logical storage exceeds qualification size limit"
    validateFields fields depth (size + (layout x64).allocSize field) validated

end

/-! ## Leaves -/

mutual

/-- The scalars of a type at `offset`, in order. -/
def leaves : LlvmType → ℕ → List Leaf
  | .struct _ packed fields, offset => fieldLeaves packed offset 0 fields
  | .array element count, offset =>
    (List.range count).flatMap fun i => leaves element (offset + i * (layout x64).allocSize element)
  | type, offset => [⟨type, offset, (layout x64).storeSize type⟩]

/-- The scalars of the fields of a record at `offset`, where the first may begin at
`start`. -/
def fieldLeaves (packed : Bool) (offset start : ℕ) : List LlvmType → List Leaf
  | [] => []
  | field :: fields =>
    leaves field (offset + alignTo start ((layout x64).fieldAlign packed field)) ++
      fieldLeaves packed offset
        (alignTo start ((layout x64).fieldAlign packed field) + (layout x64).allocSize field) fields

end

/-! ## Classification -/

/-- A descriptor of a type's storage. -/
def value (type : LlvmType) : NativeABIValue :=
  if type = .void then .blank type
  else
    { NativeABIValue.blank type with
      storageSize := (layout x64).allocSize type
      storageAlignment := (layout x64).abiAlign type
      abiAlignment := (layout x64).abiAlign type }

def indirect (type : LlvmType) (returns : Bool) : NativeABIValue :=
  { value x64 type with
    kind := .indirect
    sRet := returns
    byVal := !returns
    abiAlignment :=
      if returns then (value x64 type).abiAlignment
      else if x64 then max (.of 8) (value x64 type).storageAlignment else .of 4
    nativeCount := 1 }

/-- The fields of an i686 record, when each is a scalar of a word or two that begins where
the one before it ends. -/
def words : List (LlvmType × ℕ) → ℕ → Option (List NativeABIPiece × ℕ)
  | [], bytes => some ([], bytes)
  | (field, offset) :: fields, bytes =>
    if scalar field true = true ∧
        ((layout x64).allocSize field = 4 ∨ (layout x64).allocSize field = 8) ∧ offset = bytes then
      (words fields (bytes + (layout x64).allocSize field)).map fun rest =>
        (⟨field, bytes⟩ :: rest.1, rest.2)
    else none

/-- A record passed field by field, or through a pointer. -/
def classifyWords (type : LlvmType) (packed : Bool) (fields : List LlvmType) (returns : Bool) :
    NativeABIValue :=
  if returns = true ∨ (value x64 type).storageSize > 16 then indirect x64 type returns
  else
    match words x64 ((layout x64).elements packed 0 fields) 0 with
    | none => indirect x64 type false
    | some (pieces, bytes) =>
      if bytes ≠ (value x64 type).storageSize then indirect x64 type false
      else
        { value x64 type with
          pieces := pieces
          kind := .expand
          nativeCount := pieces.length }

/-- The leaves in the eightbyte at `offset`, none of which may straddle its ends. -/
def chunk (offset : ℕ) : List Leaf → Checked (List Leaf)
  | [] => pure []
  | field :: fields =>
    if field.offset ≥ offset + 8 ∨ field.offset + field.size ≤ offset then chunk offset fields
    else do
      ensure (¬(field.offset < offset ∨ field.offset + field.size > offset + 8))
        "unaligned or straddling scalar field is not qualified"
      let rest ← chunk offset fields
      pure (field :: rest)

def isWord (type : LlvmType) : Bool := type.isInteger || type.isPointer

/-- The piece of the eightbyte at `offset` that holds the leaves of `chunk`. -/
def eightbytePiece (size offset : ℕ) (chunk : List Leaf) : Checked LlvmType :=
  match chunk with
  | [] => failure "empty eightbyte record span is not qualified"
  | first :: rest =>
    if (first :: rest).any fun leaf => isWord leaf.type then
      -- a single leading integer or pointer may omit only proven tail padding
      if rest = [] ∧ first.offset = offset ∧ isWord first.type = true then pure first.type
      else pure (.int (8 * min 8 (size - offset)))
    else do
      ensure (first.offset = offset) "leading padding in SSE eightbyte is not qualified"
      match rest with
      | [] => pure first.type
      | [second] => do
        ensure (first.type = .floatTy ∧ second.type = .floatTy ∧ second.offset = offset + 4)
          "unsupported SSE eightbyte record shape"
        pure (.vector (.floating .float) 2)
      | _ => failure "unsupported SSE eightbyte record shape"

/-- The piece of each eightbyte, and whether it takes a general register. -/
def eightbyte (size : ℕ) (fields : List Leaf) (offset : ℕ) : Checked (NativeABIPiece × Bool) := do
  let chunk ← chunk offset fields
  let piece ← eightbytePiece size offset chunk
  pure (⟨piece, offset⟩, chunk.any fun leaf => isWord leaf.type)

/-- The offsets of the eightbytes of a record. -/
def eightbyteOffsets (size : ℕ) : List ℕ := (List.range ((size + 7) / 8)).map fun i => 8 * i

/-- Widen the first of two pieces that would not put the second at its offset. -/
def widen (pieces : List NativeABIPiece) : List NativeABIPiece :=
  match pieces with
  | [low, high] =>
    if alignTo ((layout x64).allocSize low.type) ((layout x64).abiAlign high.type) ≠ 8 then
      [{ low with type := if low.type = .floatTy then .doubleTy else .int 64 }, high]
    else [low, high]
  | _ => pieces

/-- The descriptor of the pieces that are left to registers or to the scalar stack. -/
def pieced (type : LlvmType) (pieces : List NativeABIPiece) : NativeABIValue :=
  { value x64 type with
    pieces := widen x64 pieces
    kind := if pieces.length = 1 then .coerce else .expand
    nativeCount := pieces.length }

/-- A record of at most two eightbytes in registers, or through a pointer. -/
def classifyEightbytes (type : LlvmType) (returns : Bool) (freeGP freeSSE : ℕ) :
    Checked NativeABIValue :=
  let size := (value x64 type).storageSize
  if size > 16 then pure (indirect x64 type returns)
  else do
    let classes ← (eightbyteOffsets size).mapM (eightbyte size (leaves x64 type 0))
    let neededGP := classes.countP fun entry => entry.2
    let neededSSE := classes.countP fun entry => !entry.2
    if returns = false ∧ (neededGP > freeGP ∨ neededSSE > freeSSE) then
      -- the scalar stack is only for records without a general register left
      if freeGP = 0 ∧ size ≤ 8 ∧ (value x64 type).storageAlignment ≤ .of 8 then
        pure (pieced x64 type [⟨.int (size * 8), 0⟩])
      else pure (indirect x64 type false)
    else pure (pieced x64 type (classes.map Prod.fst))

/-- Classify a result or a parameter. The types validated so far come in and go out. -/
def classify (type : LlvmType) (returns : Bool) (freeGP freeSSE : ℕ) (validated : List LlvmType) :
    Checked (NativeABIValue × List LlvmType) :=
  if type = .void then
    if returns then pure (value x64 type, validated) else failure "void parameter"
  else if scalar type false then
    pure ({ value x64 type with pieces := [⟨type, 0⟩], nativeCount := 1 }, validated)
  else
    match type with
    | .struct identity packed fields => do
      let validated ← validate x64 records (.struct identity packed fields) 0 validated
      if x64 then do
        let native ← classifyEightbytes x64 (.struct identity packed fields) returns freeGP freeSSE
        pure (native, validated)
      else
        pure (classifyWords x64 (.struct identity packed fields) packed fields returns, validated)
    | _ => failure "by-value logical boundary must be a scalar or qualified record"

/-! ## Signatures -/

/-- What the parameter loop carries. -/
structure Registers where
  freeGP : ℕ
  freeSSE : ℕ
  nativeParameters : List LlvmType
  parameters : List NativeABIValue
  validated : List LlvmType

/-- The registers a parameter leaves free. One that does not fit takes none. -/
def takeRegisters (native : NativeABIValue) (freeGP freeSSE : ℕ) : ℕ × ℕ :=
  let gp := native.pieces.countP fun piece => isWord piece.type
  let sse := native.pieces.countP fun piece => !isWord piece.type
  if x64 = true ∧ native.byVal = false ∧ freeGP ≥ gp ∧ freeSSE ≥ sse then
    (freeGP - gp, freeSSE - sse)
  else (freeGP, freeSSE)

def classifyParameter (state : Registers) (parameter : LlvmType) : Checked Registers := do
  let (native, validated) ←
    classify x64 records parameter false state.freeGP state.freeSSE state.validated
  let native := { native with nativeBegin := state.nativeParameters.length }
  let free := takeRegisters x64 native state.freeGP state.freeSSE
  pure
    { freeGP := free.1
      freeSSE := free.2
      nativeParameters := state.nativeParameters ++
        if native.byVal then [.ptr] else native.pieces.map NativeABIPiece.type
      parameters := state.parameters ++ [native]
      validated := validated }

/-- The registers a call has for its parameters. -/
def freeRegisters : ℕ × ℕ := if x64 then (6, 8) else (0, 0)

def classifyNativeABI (logical : FunctionType) : Checked NativeABISignature := do
  let (freeGP, freeSSE) := freeRegisters x64
  let (result, validated) ← classify x64 records logical.result true freeGP freeSSE []
  let state ← logical.params.foldlM (classifyParameter x64 records)
    { freeGP := if result.sRet = true ∧ x64 = true then freeGP - 1 else freeGP
      freeSSE := freeSSE
      nativeParameters := if result.sRet then [.ptr] else []
      parameters := []
      validated := validated }
  pure
    { nativeType := ⟨result.nativeResult, state.nativeParameters, logical.isVarArg⟩
      result := result
      parameters := state.parameters
      sretIndex := if result.sRet then some 0 else none
      remainingGP := state.freeGP
      remainingSSE := state.freeSSE }

end Classifier

/-! ## Validated storage -/

/-- Storage made of the listed records, of arrays and of field scalars, within the limit. -/
inductive Qualified (layout : DataLayout) (records : List StructType) : LlvmType → Prop
  | scalar (type : LlvmType) : NativeAbi.scalar type true = true → Qualified layout records type
  | array (element : LlvmType) (count : ℕ) : count ≠ 0 → layout.allocSize element ≠ 0 →
    count ≤ sizeLimit / layout.allocSize element → Qualified layout records element →
    Qualified layout records (.array element count)
  | struct (identity : Option String) (fields : List LlvmType) :
    ⟨identity, false, fields⟩ ∈ records → fields ≠ [] →
    layout.fieldsEnd false 0 fields ≤ sizeLimit →
    layout.allocSize (.struct identity false fields) ≤ sizeLimit →
    (∀ field ∈ fields, Qualified layout records field) →
    Qualified layout records (.struct identity false fields)

section Validation

variable {x64 : Bool} {records : List StructType}

theorem validateScalar_ok {type : LlvmType} {depth : ℕ} {validated validated' : List LlvmType}
    (h : validateScalar type depth validated = .ok validated')
    (hvalidated : ∀ t ∈ validated, Qualified (layout x64) records t) :
    Qualified (layout x64) records type ∧ ∀ t ∈ validated', Qualified (layout x64) records t := by
  rw [validateScalar, Checked.bind_ok] at h
  obtain ⟨-, -, h⟩ := h
  split_ifs at h with hmem
  · obtain rfl : validated = validated' := by simpa using h
    exact ⟨hmem.elim (hvalidated type) (.scalar type), hvalidated⟩
  · simp at h

mutual

/-- Validated storage is qualified, and so is all that is remembered. -/
theorem validate_ok : ∀ {type : LlvmType} {depth : ℕ} {validated validated' : List LlvmType},
    validate x64 records type depth validated = .ok validated' →
      (∀ t ∈ validated, Qualified (layout x64) records t) →
        Qualified (layout x64) records type ∧
          ∀ t ∈ validated', Qualified (layout x64) records t
  | .struct identity packed fields, depth, validated, validated', h, hvalidated => by
    rw [validate, Checked.bind_ok] at h
    obtain ⟨-, -, h⟩ := h
    split_ifs at h with hmem
    · obtain rfl : validated = validated' := by simpa using h
      exact ⟨hvalidated _ hmem, hvalidated⟩
    · simp only [Checked.bind_ok, ensure_ok, Checked.pure_eq_ok, Except.ok.injEq] at h
      obtain ⟨-, hrecord, -, ⟨rfl, hne⟩, validated₁, hfields, -, hsize, rfl⟩ := h
      obtain ⟨hqualified, hend, hvalidated₁⟩ := validateFields_ok hfields hvalidated
      have htype := Qualified.struct identity fields hrecord hne (hend hne) hsize hqualified
      exact ⟨htype, List.forall_mem_cons.mpr ⟨htype, hvalidated₁⟩⟩
  | .array element count, depth, validated, validated', h, hvalidated => by
    rw [validate, Checked.bind_ok] at h
    obtain ⟨-, -, h⟩ := h
    split_ifs at h with hmem
    · obtain rfl : validated = validated' := by simpa using h
      exact ⟨hvalidated _ hmem, hvalidated⟩
    · simp only [Checked.bind_ok, ensure_ok, Checked.pure_eq_ok, Except.ok.injEq] at h
      obtain ⟨-, hcount, validated₁, helement, -, ⟨hsize, hlimit⟩, rfl⟩ := h
      obtain ⟨hqualified, hvalidated₁⟩ := validate_ok helement hvalidated
      have htype := Qualified.array element count hcount hsize hlimit hqualified
      exact ⟨htype, List.forall_mem_cons.mpr ⟨htype, hvalidated₁⟩⟩
  | .void, _, _, _, h, hvalidated => validateScalar_ok (by simpa only [validate] using h) hvalidated
  | .scalar _, _, _, _, h, hvalidated => validateScalar_ok (by simpa only [validate] using h) hvalidated
  | .vector _ _, _, _, _, h, hvalidated => validateScalar_ok (by simpa only [validate] using h) hvalidated
  | .unsized _, _, _, _, h, hvalidated => validateScalar_ok (by simpa only [validate] using h) hvalidated

theorem validateFields_ok : ∀ {fields : List LlvmType} {depth size : ℕ}
    {validated validated' : List LlvmType},
    validateFields x64 records fields depth size validated = .ok validated' →
      (∀ t ∈ validated, Qualified (layout x64) records t) →
        (∀ field ∈ fields, Qualified (layout x64) records field) ∧
          (fields ≠ [] → (layout x64).fieldsEnd false size fields ≤ sizeLimit) ∧
          ∀ t ∈ validated', Qualified (layout x64) records t
  | [], depth, size, validated, validated', h, hvalidated => by
    obtain rfl : validated = validated' := by simpa [validateFields] using h
    exact ⟨by simp, by simp, hvalidated⟩
  | field :: fields, depth, size, validated, validated', h, hvalidated => by
    simp only [validateFields, Checked.bind_ok, ensure_ok] at h
    obtain ⟨validated₁, hfield, -, ⟨hstart, hlimit⟩, h⟩ := h
    obtain ⟨hqualified, hvalidated₁⟩ := validate_ok hfield hvalidated
    obtain ⟨hfields, hend, hvalidated'⟩ := validateFields_ok h hvalidated₁
    refine ⟨List.forall_mem_cons.mpr ⟨hqualified, hfields⟩, fun _ => ?_, hvalidated'⟩
    rw [DataLayout.fieldsEnd_cons]
    rcases fields with _ | ⟨next, fields⟩
    · rw [DataLayout.fieldsEnd_nil]
      change alignTo size ((layout x64).abiAlign field) + _ ≤ _
      omega
    · exact hend (by simp)

end

end Validation

variable {x64 : Bool} {records : List StructType}

theorem Qualified.isSized {layout : DataLayout} {type : LlvmType}
    (h : Qualified layout records type) : type.isSized = true := by
  induction h with
  | scalar type h =>
    unfold NativeAbi.scalar at h
    split at h <;> first | rfl | exact absurd h (by simp)
  | array element count _ _ _ _ ih => exact ih
  | struct identity fields _ _ _ _ _ ih => exact LlvmType.fieldsSized_iff.mpr ih

/-- What the field scalars are as pieces and as leaves of an eightbyte. -/
theorem fieldScalar_spec (x64 : Bool) {type : LlvmType} (h : scalar type true = true) :
    0 < (layout x64).storeSize type ∧ (layout x64).storeSize type ≤ 8 ∧
      validPieceType type 0 = true ∧
      (layout x64).allocSize type = (layout x64).storeSize type := by
  have hall : ∀ x64, ∀ t ∈ fieldScalars, 0 < (layout x64).storeSize t ∧
      (layout x64).storeSize t ≤ 8 ∧ validPieceType t 0 = true ∧
      (layout x64).allocSize t = (layout x64).storeSize t := by decide
  exact hall x64 type (scalar_field_iff.mp h)

theorem Qualified.allocSize_pos {type : LlvmType} (h : Qualified (layout x64) records type) :
    0 < (layout x64).allocSize type := by
  induction h with
  | scalar type h =>
    obtain ⟨hpos, -, -, halloc⟩ := fieldScalar_spec x64 h
    exact halloc ▸ hpos
  | array element count hcount _ _ _ ih =>
    rw [DataLayout.allocSize_array]
    exact Nat.mul_pos (Nat.pos_of_ne_zero hcount) ih
  | struct identity fields _ hne _ _ _ ih =>
    obtain ⟨field, rest, rfl⟩ := List.exists_cons_of_ne_nil hne
    have hfirst := ih field (by simp)
    have hmem : (field, alignTo 0 ((layout x64).fieldAlign false field)) ∈
        (layout x64).elements false 0 (field :: rest) := by simp [DataLayout.elements]
    have := DataLayout.end_le_allocSize identity hmem
    simp only at this
    omega

/-! ## Leaves of qualified storage -/

/-- A leaf is a scalar inside `[start, stop)`. -/
structure Leaf.Within (layout : DataLayout) (start stop : ℕ) (leaf : Leaf) : Prop where
  scalar : NativeAbi.scalar leaf.type true = true
  size : leaf.size = layout.storeSize leaf.type
  start_le : start ≤ leaf.offset
  le_stop : leaf.offset + leaf.size ≤ stop

theorem Leaf.Within.mono {layout : DataLayout} {start stop start' stop' : ℕ} {leaf : Leaf}
    (h : leaf.Within layout start stop) (hstart : start' ≤ start) (hstop : stop ≤ stop') :
    leaf.Within layout start' stop' :=
  ⟨h.scalar, h.size, hstart.trans h.start_le, h.le_stop.trans hstop⟩

theorem leaves_of_scalar {type : LlvmType} (h : scalar type true = true) (offset : ℕ) :
    leaves x64 type offset = [⟨type, offset, (layout x64).storeSize type⟩] := by
  cases type with
  | array => simp [scalar] at h
  | struct => simp [scalar] at h
  | void => rw [leaves] <;> simp
  | scalar => rw [leaves] <;> simp
  | vector => rw [leaves] <;> simp
  | unsized => rw [leaves] <;> simp

theorem fieldLeaves_eq (packed : Bool) (offset : ℕ) (fields : List LlvmType) :
    ∀ start, fieldLeaves x64 packed offset start fields =
      ((layout x64).elements packed start fields).flatMap fun element =>
        leaves x64 element.1 (offset + element.2) := by
  induction fields with
  | nil => intro start; rfl
  | cons field fields ih =>
    intro start
    rw [fieldLeaves, DataLayout.elements, List.flatMap_cons, ih]

/-- The leaves of qualified storage lie inside it. -/
theorem leaves_within {type : LlvmType} (h : Qualified (layout x64) records type) :
    ∀ {offset : ℕ}, ∀ leaf ∈ leaves x64 type offset,
      leaf.Within (layout x64) offset (offset + (layout x64).allocSize type) := by
  induction h with
  | scalar type h =>
    intro offset leaf hleaf
    rw [leaves_of_scalar h] at hleaf
    obtain rfl := List.mem_singleton.mp hleaf
    exact ⟨h, rfl, le_rfl, Nat.add_le_add_left (DataLayout.storeSize_le_allocSize type) _⟩
  | array element count _ _ _ _ ih =>
    intro offset leaf hleaf
    rw [leaves] at hleaf
    obtain ⟨i, hi, hleaf⟩ := List.mem_flatMap.mp hleaf
    have hi : i + 1 ≤ count := List.mem_range.mp hi
    refine (ih leaf hleaf).mono (Nat.le_add_right _ _) ?_
    have hmul := Nat.mul_le_mul_right ((layout x64).allocSize element) hi
    rw [Nat.succ_mul] at hmul
    rw [DataLayout.allocSize_array]
    omega
  | struct identity fields _ _ _ _ _ ih =>
    intro offset leaf hleaf
    rw [leaves, fieldLeaves_eq] at hleaf
    obtain ⟨element, helement, hleaf⟩ := List.mem_flatMap.mp hleaf
    have hfield : element.1 ∈ fields := by
      rw [← DataLayout.map_fst_elements (layout x64) false fields 0]
      exact List.mem_map_of_mem helement
    refine (ih element.1 hfield leaf hleaf).mono (Nat.le_add_right _ _) ?_
    have := DataLayout.end_le_allocSize identity helement
    omega

/-! ## Eightbytes -/

/-- The leaf has a byte in the eightbyte at `offset`. -/
def Leaf.meets (offset : ℕ) (leaf : Leaf) : Bool :=
  decide (leaf.offset < offset + 8 ∧ offset < leaf.offset + leaf.size)

/-- A chunk holds the leaves that have a byte in the eightbyte, none of which straddles it. -/
theorem chunk_ok {offset : ℕ} :
    ∀ {fields : List Leaf} {leaves : List Leaf}, chunk offset fields = .ok leaves ↔
      leaves = fields.filter (Leaf.meets offset) ∧
        ∀ leaf ∈ leaves, offset ≤ leaf.offset ∧ leaf.offset + leaf.size ≤ offset + 8
  | [], leaves => by
    simp [chunk, eq_comm]
    rintro rfl
    simp
  | field :: fields, leaves => by
    rw [chunk]
    split_ifs with hout
    · rw [chunk_ok, List.filter_cons_of_neg (by simp [Leaf.meets]; omega)]
    · rw [List.filter_cons_of_pos (by simp [Leaf.meets]; omega)]
      simp only [Checked.bind_ok, ensure_ok, chunk_ok, Checked.pure_eq_ok, Except.ok.injEq]
      constructor
      · rintro ⟨-, hinside, rest, ⟨rfl, hrest⟩, rfl⟩
        exact ⟨rfl, List.forall_mem_cons.mpr ⟨by omega, hrest⟩⟩
      · rintro ⟨rfl, hall⟩
        obtain ⟨hfield, hrest⟩ := List.forall_mem_cons.mp hall
        exact ⟨(), by omega, _, ⟨rfl, hrest⟩, rfl⟩

/-- The integer of some bytes, at most eight, is a piece. -/
theorem bytes_spec (layout : DataLayout) {bytes : ℕ} (h : bytes ≤ 8) :
    validPieceType (.int (8 * bytes)) 0 = true ∧ layout.storeSize (.int (8 * bytes)) = bytes := by
  refine ⟨?_, by rw [DataLayout.storeSize_int]; omega⟩
  have : 8 * bytes ≤ 128 := by omega
  simp [validPieceType, nativePieceScalar, this]

/-- A piece that an eightbyte at `offset` may have. -/
structure EightbytePiece (layout : DataLayout) (size offset : ℕ) (type : LlvmType) : Prop where
  valid : validPieceType type 0 = true
  le_eight : layout.storeSize type ≤ 8
  le_size : layout.storeSize type ≤ size - offset

theorem eightbytePiece_ok {size offset : ℕ} {leaves : List Leaf} {piece : LlvmType}
    (h : eightbytePiece size offset leaves = .ok piece) (hoffset : offset < size)
    (hwithin : ∀ leaf ∈ leaves, leaf.Within (layout x64) 0 size) :
    EightbytePiece (layout x64) size offset piece := by
  have hleaf : ∀ leaf ∈ leaves, leaf.offset = offset →
      EightbytePiece (layout x64) size offset leaf.type := by
    intro leaf hmem heq
    obtain ⟨hscalar, hsize, -, hstop⟩ := hwithin leaf hmem
    obtain ⟨-, hle, hvalid, -⟩ := fieldScalar_spec x64 hscalar
    exact ⟨hvalid, hle, by omega⟩
  rcases leaves with _ | ⟨first, rest⟩
  · simp [eightbytePiece] at h
  · simp only [eightbytePiece] at h
    split_ifs at h with hany hfirst
    · obtain rfl : first.type = piece := by simpa using h
      exact hleaf first (by simp) hfirst.2.1
    · obtain rfl : LlvmType.int (8 * min 8 (size - offset)) = piece := by simpa using h
      obtain ⟨hvalid, hstore⟩ := bytes_spec (layout x64) (Nat.min_le_left 8 (size - offset))
      exact ⟨hvalid, by omega, by omega⟩
    · obtain ⟨_, hstart, h⟩ := Checked.bind_ok.mp h
      rw [ensure_ok] at hstart
      rcases rest with _ | ⟨second, _ | ⟨third, rest⟩⟩
      · obtain rfl : first.type = piece := by simpa using h
        exact hleaf first (by simp) hstart
      · obtain ⟨_, hpair, h⟩ := Checked.bind_ok.mp h
        rw [ensure_ok] at hpair
        obtain rfl : LlvmType.vector (.floating .float) 2 = piece := by simpa using h
        obtain ⟨-, hsize, -, hstop⟩ := hwithin second (by simp)
        have hfloat : (layout x64).storeSize .floatTy = 4 := by cases x64 <;> rfl
        have hvector : (layout x64).storeSize (.vector (.floating .float) 2) = 8 := by
          cases x64 <;> rfl
        rw [hpair.2.1, hfloat] at hsize
        exact ⟨rfl, hvector.le, by omega⟩
      · simp at h

/-! ## Loadable descriptors -/

theorem loadable_of_pieces {layout : DataLayout} {value : NativeABIValue}
    (hsized : value.storageType.isSized = true)
    (hsize : layout.allocSize value.storageType = value.storageSize) (hnonempty : value.pieces ≠ [])
    (hpieces : ∀ piece ∈ value.pieces, piece.offset < value.storageSize ∧
      validPieceType piece.type 0 = true ∧
      layout.storeSize piece.type ≤ value.storageSize - piece.offset)
    (hordered : value.pieces.Pairwise fun a b => a.offset + layout.storeSize a.type ≤ b.offset) :
    Loadable layout value where
  sized := hsized
  size := hsize
  nonempty := hnonempty
  types piece hpiece := (hpieces piece hpiece).2.1
  inside piece hpiece := (hpieces piece hpiece).1
  extents piece hpiece :=
    validPieceExtent_of_le (hpieces piece hpiece).1 (hpieces piece hpiece).2.2
  ordered := hordered.imp fun h => (Nat.add_le_add_left (Nat.min_le_left _ _) _).trans h

/-- The storage of a type that is not void. -/
theorem value_of_ne (x64 : Bool) {type : LlvmType} (h : type ≠ .void) :
    value x64 type =
      { NativeABIValue.blank type with
        storageSize := (layout x64).allocSize type
        storageAlignment := (layout x64).abiAlign type
        abiAlignment := (layout x64).abiAlign type } :=
  if_neg h

@[simp] theorem storageType_value (type : LlvmType) : (value x64 type).storageType = type := by
  unfold value
  split <;> rfl

@[simp] theorem pieces_value (type : LlvmType) : (value x64 type).pieces = [] := by
  unfold value
  split <;> rfl

@[simp] theorem sRet_value (type : LlvmType) : (value x64 type).sRet = false := by
  unfold value
  split <;> rfl

@[simp] theorem byVal_value (type : LlvmType) : (value x64 type).byVal = false := by
  unfold value
  split <;> rfl

@[simp] theorem kind_value (type : LlvmType) : (value x64 type).kind = .direct := by
  unfold value
  split <;> rfl

@[simp] theorem nativeCount_value (type : LlvmType) : (value x64 type).nativeCount = 0 := by
  unfold value
  split <;> rfl

theorem mem_eightbyteOffsets {size offset : ℕ} (h : offset ∈ eightbyteOffsets size) :
    offset < size ∧ 8 ∣ offset := by
  obtain ⟨i, hi, rfl⟩ := List.mem_map.mp h
  have := List.mem_range.mp hi
  exact ⟨by omega, Nat.dvd_mul_right 8 i⟩

theorem eightbyteOffsets_pairwise (size : ℕ) :
    (eightbyteOffsets size).Pairwise fun a b => a + 8 ≤ b := by
  refine List.Pairwise.map _ (fun a b hab => ?_) (List.pairwise_lt_range (n := (size + 7) / 8))
  omega

/-- The pieces of the eightbytes of a qualified record. -/
theorem eightbytes_ok {type : LlvmType} (h : Qualified (layout x64) records type)
    {classes : List (NativeABIPiece × Bool)}
    (hclasses : (eightbyteOffsets ((layout x64).allocSize type)).mapM
      (eightbyte ((layout x64).allocSize type) (leaves x64 type 0)) = .ok classes) :
    classes.map (fun entry => entry.1.offset) = eightbyteOffsets ((layout x64).allocSize type) ∧
      ∀ entry ∈ classes, EightbytePiece (layout x64) ((layout x64).allocSize type)
        entry.1.offset entry.1.type := by
  have hforall := Checked.mapM_ok.mp hclasses
  have heach : List.Forall₂ (fun offset (entry : NativeABIPiece × Bool) =>
      entry.1.offset = offset ∧ EightbytePiece (layout x64) ((layout x64).allocSize type)
        offset entry.1.type) (eightbyteOffsets ((layout x64).allocSize type)) classes := by
    refine Checked.forall₂_imp_of_mem hforall fun offset hoffset entry _ hentry => ?_
    simp only [eightbyte, Checked.bind_ok, Checked.pure_eq_ok, Except.ok.injEq] at hentry
    obtain ⟨leaves, hleaves, piece, hpiece, rfl⟩ := hentry
    refine ⟨rfl, eightbytePiece_ok hpiece (mem_eightbyteOffsets hoffset).1 fun leaf hleaf => ?_⟩
    rw [(chunk_ok.mp hleaves).1] at hleaf
    simpa using leaves_within h leaf (List.mem_filter.mp hleaf).1
  refine ⟨?_, fun entry hentry => ?_⟩
  · rw [← List.forall₂_eq_eq_eq, List.forall₂_map_left_iff]
    exact heach.flip.imp fun _ _ hentry => hentry.1
  · obtain ⟨offset, -, hoffset, hpiece⟩ := Checked.exists_of_forall₂_right heach hentry
    exact hoffset ▸ hpiece

theorem eightbyteOffsets_cases {size : ℕ} (hpos : 0 < size) (hsize : size ≤ 16) :
    size ≤ 8 ∧ eightbyteOffsets size = [0] ∨ 8 < size ∧ eightbyteOffsets size = [0, 8] := by
  rcases Nat.lt_or_ge 8 size with h | h
  · have : (size + 7) / 8 = 2 := by omega
    exact .inr ⟨h, by rw [eightbyteOffsets, this]; rfl⟩
  · have : (size + 7) / 8 = 1 := by omega
    exact .inl ⟨h, by rw [eightbyteOffsets, this]; rfl⟩

@[simp] theorem length_widen (pieces : List NativeABIPiece) :
    (widen x64 pieces).length = pieces.length := by
  unfold widen
  split
  · split <;> rfl
  · rfl

/-- The pieces of at most two eightbytes, the first widened where it must be. -/
theorem widen_spec {size : ℕ} (hpos : 0 < size) (hsize : size ≤ 16) {pieces : List NativeABIPiece}
    (hoffsets : pieces.map NativeABIPiece.offset = eightbyteOffsets size)
    (hpieces : ∀ piece ∈ pieces, EightbytePiece (layout x64) size piece.offset piece.type) :
    (widen x64 pieces).map NativeABIPiece.offset = eightbyteOffsets size ∧
      ∀ piece ∈ widen x64 pieces, EightbytePiece (layout x64) size piece.offset piece.type := by
  unfold widen
  split
  · next low high =>
    have hwide : 8 < size ∧ low.offset = 0 ∧ high.offset = 8 := by
      rcases eightbyteOffsets_cases hpos hsize with ⟨-, h⟩ | ⟨hlt, h⟩
      · simp [h] at hoffsets
      · simp only [h, List.map_cons, List.map_nil, List.cons.injEq, and_true] at hoffsets
        exact ⟨hlt, hoffsets⟩
    obtain ⟨hlt, hlow, -⟩ := hwide
    split
    · have hdouble : (layout x64).storeSize .doubleTy = 8 := by cases x64 <;> rfl
      have hint : (layout x64).storeSize (.int 64) = 8 := by cases x64 <;> rfl
      refine ⟨hoffsets, List.forall_mem_cons.mpr ⟨?_, fun piece hpiece =>
        hpieces piece (List.mem_cons_of_mem _ hpiece)⟩⟩
      simp only [hlow]
      split
      · exact ⟨rfl, hdouble.le, by omega⟩
      · exact ⟨rfl, hint.le, by omega⟩
    · exact ⟨hoffsets, hpieces⟩
  · exact ⟨hoffsets, hpieces⟩

/-- A record in registers is loadable. -/
theorem loadable_pieced {type : LlvmType} (h : Qualified (layout x64) records type)
    (hstruct : type.isStruct = true) (hsize : (layout x64).allocSize type ≤ 16)
    {pieces : List NativeABIPiece}
    (hoffsets : pieces.map NativeABIPiece.offset =
      eightbyteOffsets ((layout x64).allocSize type))
    (hpieces : ∀ piece ∈ pieces,
      EightbytePiece (layout x64) ((layout x64).allocSize type) piece.offset piece.type) :
    Loadable (layout x64) (pieced x64 type pieces) := by
  have hne : type ≠ .void := by
    rintro rfl
    simp [LlvmType.isStruct] at hstruct
  obtain ⟨hoffsets, hpieces⟩ := widen_spec h.allocSize_pos hsize hoffsets hpieces
  have hvalue := value_of_ne x64 hne
  refine loadable_of_pieces ?_ ?_ ?_ ?_ ?_
  · simpa [pieced] using h.isSized
  · simp [pieced, hvalue, NativeABIValue.blank]
  · intro hnil
    change widen x64 pieces = [] at hnil
    rw [hnil] at hoffsets
    rcases eightbyteOffsets_cases h.allocSize_pos hsize with ⟨-, hcase⟩ | ⟨-, hcase⟩ <;>
      simp [hcase] at hoffsets
  · intro piece hpiece
    have hspec := hpieces piece hpiece
    have hmem : piece.offset ∈ eightbyteOffsets ((layout x64).allocSize type) :=
      hoffsets ▸ List.mem_map_of_mem hpiece
    simpa [pieced, hvalue] using
      ⟨(mem_eightbyteOffsets hmem).1, hspec.valid, hspec.le_size⟩
  · have hpairwise := hoffsets ▸ eightbyteOffsets_pairwise ((layout x64).allocSize type)
    rw [List.pairwise_map] at hpairwise
    refine hpairwise.imp_of_mem fun {a b} ha _ hab => ?_
    have := (hpieces a ha).le_eight
    omega

/-- The fields of an i686 record that fill it. -/
theorem words_ok {fields : List (LlvmType × ℕ)} :
    ∀ {bytes : ℕ} {pieces : List NativeABIPiece} {stop : ℕ},
      words x64 fields bytes = some (pieces, stop) →
        bytes ≤ stop ∧ pieces.length = fields.length ∧
        (∀ piece ∈ pieces, bytes ≤ piece.offset ∧ scalar piece.type true = true ∧
          piece.offset + (layout x64).allocSize piece.type ≤ stop) ∧
        pieces.Pairwise fun a b => a.offset + (layout x64).allocSize a.type ≤ b.offset := by
  induction fields with
  | nil =>
    intro bytes pieces stop h
    obtain ⟨rfl, rfl⟩ : [] = pieces ∧ bytes = stop := by simpa [words] using h
    simp
  | cons field fields ih =>
    intro bytes pieces stop h
    rw [words] at h
    split_ifs at h with hfield
    obtain ⟨⟨rest, stop'⟩, hrest, heq⟩ := Option.map_eq_some_iff.mp h
    obtain ⟨rfl, rfl⟩ : ⟨field.1, bytes⟩ :: rest = pieces ∧ stop' = stop := by simpa using heq
    obtain ⟨hle, hlength, hpieces, hpairwise⟩ := ih hrest
    refine ⟨by omega, by simp [hlength], List.forall_mem_cons.mpr
      ⟨⟨le_rfl, hfield.1, hle⟩, fun piece hpiece => ?_⟩,
      List.pairwise_cons.mpr ⟨fun piece hpiece => (hpieces piece hpiece).1, hpairwise⟩⟩
    obtain ⟨hstart, hscalar, hstop⟩ := hpieces piece hpiece
    exact ⟨by omega, hscalar, hstop⟩

/-! ## Classified values -/

/-- A classified value, an indirect parameter of which is passed by value. -/
structure Passed (x64 : Bool) (type : LlvmType) (returns : Bool) (native : NativeABIValue) : Prop
    extends native.Classified (layout x64) type returns where
  byVal : native.byVal = true ↔ native.kind = .indirect ∧ returns = false

theorem passed_indirect (type : LlvmType) (returns : Bool) :
    Passed x64 type returns (indirect x64 type returns) where
  storage := storageType_value type
  sRet := by simp [indirect]
  count := by simp [indirect, NativeABIValue.nativeTypes]
  direct := by simp [indirect]
  coerce := by simp [indirect]
  expand := by simp [indirect]
  loadable := by simp [indirect]
  byVal := by simp [indirect]

theorem kind_pieced (type : LlvmType) (pieces : List NativeABIPiece) :
    (pieced x64 type pieces).kind = if pieces.length = 1 then .coerce else .expand := rfl

theorem passed_pieced {type : LlvmType} {returns : Bool} {pieces : List NativeABIPiece}
    (hpieces : pieces ≠ []) (hloadable : Loadable (layout x64) (pieced x64 type pieces)) :
    Passed x64 type returns (pieced x64 type pieces) := by
  have hindirect : (pieced x64 type pieces).kind ≠ .indirect := by
    rw [kind_pieced]
    split <;> simp
  have hdirect : (pieced x64 type pieces).kind ≠ .direct := by
    rw [kind_pieced]
    split <;> simp
  have hlength : (pieced x64 type pieces).pieces.length = pieces.length := length_widen pieces
  have hsRet : (pieced x64 type pieces).sRet = false := sRet_value type
  have hbyVal : (pieced x64 type pieces).byVal = false := byVal_value type
  exact
    { storage := storageType_value type
      sRet := by simp [hsRet, hindirect]
      count := by
        rw [NativeABIValue.nativeTypes, if_neg hindirect, List.length_map, hlength]
        rfl
      direct := fun hkind => absurd hkind hdirect
      coerce := fun hkind => by
        rw [hlength]
        simpa [kind_pieced] using hkind
      expand := fun _ hkind => by
        have hne : pieces.length ≠ 1 := by simpa [kind_pieced] using hkind
        have hpos := List.length_pos_iff.mpr hpieces
        omega
      loadable := fun _ _ => hloadable
      byVal := by simp [hbyVal, hindirect] }

theorem classifyEightbytes_ok {type : LlvmType} (h : Qualified (layout x64) records type)
    (hstruct : type.isStruct = true) {returns : Bool} {freeGP freeSSE : ℕ} {native : NativeABIValue}
    (hclassify : classifyEightbytes x64 type returns freeGP freeSSE = .ok native) :
    Passed x64 type returns native := by
  have hne : type ≠ .void := by
    rintro rfl
    simp [LlvmType.isStruct] at hstruct
  have hstorage : (value x64 type).storageSize = (layout x64).allocSize type := by
    rw [value_of_ne x64 hne]
  have hpos := h.allocSize_pos
  unfold classifyEightbytes at hclassify
  simp only [hstorage] at hclassify
  by_cases hbig : (layout x64).allocSize type > 16
  · rw [if_pos hbig] at hclassify
    obtain rfl := Except.ok.inj hclassify
    exact passed_indirect type returns
  · rw [if_neg hbig] at hclassify
    obtain ⟨classes, hclasses, hclassify⟩ := Checked.bind_ok.mp hclassify
    obtain ⟨hoffsets, hpieces⟩ := eightbytes_ok h hclasses
    have hsize : (layout x64).allocSize type ≤ 16 := by omega
    split_ifs at hclassify with hexhausted hstack
    · -- the scalar stack : one integer of the size of the record
      obtain ⟨-, hsmall, -⟩ := hstack
      obtain rfl := Except.ok.inj hclassify
      obtain ⟨hvalid, hstore⟩ := bytes_spec (layout x64) hsmall
      refine passed_pieced (by simp) (loadable_pieced h hstruct hsize ?_ ?_)
      · rcases eightbyteOffsets_cases hpos hsize with ⟨-, hcase⟩ | ⟨hlt, -⟩
        · simp [hcase]
        · omega
      · intro piece hpiece
        obtain rfl := List.mem_singleton.mp hpiece
        rw [Nat.mul_comm]
        exact ⟨hvalid, hstore.le.trans hsmall, hstore.le⟩
    · obtain rfl := Except.ok.inj hclassify
      rw [hexhausted.1]
      exact passed_indirect type false
    · obtain rfl := Except.ok.inj hclassify
      refine passed_pieced ?_ (loadable_pieced h hstruct hsize ?_ ?_)
      · intro hnil
        rw [List.map_eq_nil_iff.mp hnil] at hoffsets
        rcases eightbyteOffsets_cases hpos hsize with ⟨-, hcase⟩ | ⟨-, hcase⟩ <;>
          simp [hcase] at hoffsets
      · rw [← hoffsets, List.map_map]
        rfl
      · intro piece hpiece
        obtain ⟨entry, hentry, rfl⟩ := List.mem_map.mp hpiece
        exact hpieces entry hentry

theorem classifyWords_ok {identity : Option String} {fields : List LlvmType}
    (h : Qualified (layout x64) records (.struct identity false fields)) (hne : fields ≠ [])
    (returns : Bool) :
    Passed x64 (.struct identity false fields) returns
      (classifyWords x64 (.struct identity false fields) false fields returns) := by
  have hvalue := value_of_ne x64 (show LlvmType.struct identity false fields ≠ .void by simp)
  unfold classifyWords
  split_ifs with hmemory
  · exact passed_indirect _ returns
  · obtain rfl : returns = false := by
      by_contra hreturns
      exact hmemory (.inl (by simpa using hreturns))
    split
    · exact passed_indirect _ false
    · next pieces bytes hwords =>
      split_ifs with hbytes
      · exact passed_indirect _ false
      · obtain ⟨-, hlength, hpieces, hpairwise⟩ := words_ok hwords
        have hstop : bytes = (layout x64).allocSize (.struct identity false fields) := by
          simpa [hvalue] using hbytes
        have hnonempty : pieces ≠ [] := by
          have hfields := congrArg List.length
            (DataLayout.map_fst_elements (layout x64) false fields 0)
          rw [List.length_map] at hfields
          intro hnil
          rw [hnil, hfields] at hlength
          exact hne (List.length_eq_zero_iff.mp hlength.symm)
        exact
          { storage := storageType_value _
            sRet := by simp
            count := by simp [NativeABIValue.nativeTypes]
            direct := by simp
            coerce := by simp
            expand := by simp
            byVal := by simp
            loadable := fun _ _ => by
              refine loadable_of_pieces (by simpa using h.isSized)
                (by simp [hvalue, NativeABIValue.blank]) hnonempty (fun piece hpiece => ?_) (hpairwise.imp_of_mem fun {a b} ha _ hab => ?_)
              · obtain ⟨-, hscalar, hend⟩ := hpieces piece hpiece
                obtain ⟨hpos, -, hvalid, halloc⟩ := fieldScalar_spec x64 hscalar
                simp only [hvalue]
                exact ⟨by omega, hvalid, by omega⟩
              · obtain ⟨-, hscalar, -⟩ := hpieces a ha
                obtain ⟨-, -, -, halloc⟩ := fieldScalar_spec x64 hscalar
                omega }

theorem passed_scalar {type : LlvmType} (h : scalar type false = true) (returns : Bool) :
    Passed x64 type returns { value x64 type with pieces := [⟨type, 0⟩], nativeCount := 1 } where
  storage := storageType_value _
  sRet := by simp
  count := by simp [NativeABIValue.nativeTypes]
  direct := by simp
  coerce := by simp
  expand := by simp
  loadable hstruct := by cases type <;> simp_all [LlvmType.isStruct, scalar]
  byVal := by simp

theorem passed_void : Passed x64 .void true (value x64 .void) where
  storage := storageType_value _
  sRet := by simp
  count := by simp [NativeABIValue.nativeTypes]
  direct := by simp
  coerce := by simp
  expand := by simp
  loadable hstruct := by simp [LlvmType.isStruct] at hstruct
  byVal := by simp

/-- The descriptor of a value, while all that is remembered stays qualified. -/
theorem classify_ok {type : LlvmType} {returns : Bool} {freeGP freeSSE : ℕ}
    {validated validated' : List LlvmType} {native : NativeABIValue}
    (h : classify x64 records type returns freeGP freeSSE validated = .ok (native, validated'))
    (hvalidated : ∀ t ∈ validated, Qualified (layout x64) records t) :
    Passed x64 type returns native ∧ ∀ t ∈ validated', Qualified (layout x64) records t := by
  unfold classify at h
  by_cases hvoid : type = .void
  · rw [if_pos hvoid] at h
    split_ifs at h with hreturns
    · obtain ⟨rfl, rfl⟩ : value x64 type = native ∧ validated = validated' := by simpa using h
      rw [hvoid, hreturns]
      exact ⟨passed_void, hvalidated⟩
    · simp at h
  rw [if_neg hvoid] at h
  by_cases hscalar : scalar type false = true
  · rw [if_pos hscalar] at h
    obtain ⟨rfl, rfl⟩ := Prod.mk.inj (Except.ok.inj h)
    exact ⟨passed_scalar hscalar returns, hvalidated⟩
  rw [if_neg hscalar] at h
  split at h
  · next identity packed fields =>
    obtain ⟨validated₁, hvalidate, h⟩ := Checked.bind_ok.mp h
    obtain ⟨hqualified, hvalidated₁⟩ := validate_ok hvalidate hvalidated
    split_ifs at h with hx64
    · obtain ⟨native', hnative, h⟩ := Checked.bind_ok.mp h
      obtain ⟨rfl, rfl⟩ := Prod.mk.inj (Except.ok.inj h)
      exact ⟨classifyEightbytes_ok hqualified rfl hnative, hvalidated₁⟩
    · obtain ⟨rfl, rfl⟩ := Prod.mk.inj (Except.ok.inj h)
      cases hqualified with
      | scalar _ hfield => simp [scalar] at hfield
      | struct _ _ hrecord hne hend hsize hfields =>
        exact ⟨classifyWords_ok (.struct identity fields hrecord hne hend hsize hfields) hne returns,
          hvalidated₁⟩
  · simp at h

/-! ## Signatures -/

/-- What the parameter loop has placed. -/
structure Registers.Placed (x64 : Bool) (records : List StructType) (logical hidden : List LlvmType)
    (state : Registers) : Prop where
  placed : NativeABIValue.Placed (layout x64) logical hidden state.nativeParameters state.parameters
  validated : ∀ t ∈ state.validated, Qualified (layout x64) records t

theorem classifyParameter_step {logical hidden : List LlvmType} {parameter : LlvmType}
    {state state' : Registers} (hstate : state.Placed x64 records logical hidden)
    (h : classifyParameter x64 records state parameter = .ok state') :
    state'.Placed x64 records (logical ++ [parameter]) hidden := by
  obtain ⟨⟨native, validated⟩, hnative, h⟩ := Checked.bind_ok.mp h
  obtain ⟨hpassed, hvalidated⟩ := classify_ok hnative hstate.validated
  obtain rfl := Except.ok.inj h
  have htypes : (if native.byVal then [LlvmType.ptr] else native.pieces.map NativeABIPiece.type) =
      native.nativeTypes := by
    have hiff : native.byVal = true ↔ native.kind = .indirect := by simpa using hpassed.byVal
    simp only [NativeABIValue.nativeTypes, hiff]
  refine ⟨?_, hvalidated⟩
  have := hstate.placed.concat hpassed.toClassified
  rwa [← htypes] at this

theorem classifyParameters_run {hidden : List LlvmType} {parameters : List LlvmType} :
    ∀ {logical : List LlvmType} {state state' : Registers},
      state.Placed x64 records logical hidden →
      parameters.foldlM (classifyParameter x64 records) state = .ok state' →
        state'.Placed x64 records (logical ++ parameters) hidden := by
  induction parameters with
  | nil =>
    intro logical state state' hstate h
    obtain rfl : state = state' := by simpa using h
    simpa using hstate
  | cons parameter parameters ih =>
    intro logical state state' hstate h
    obtain ⟨middle, hstep, h⟩ := Checked.foldlM_cons_ok.mp h
    simpa using ih (classifyParameter_step hstate hstep) h

/-- Every signature the classifier returns is well formed. -/
theorem classifyNativeABI_wellFormed {logical : FunctionType} {signature : NativeABISignature}
    (h : classifyNativeABI x64 records logical = .ok signature) :
    signature.WellFormed (layout x64) logical := by
  obtain ⟨⟨result, validated⟩, hresult, h⟩ := Checked.bind_ok.mp h
  obtain ⟨state, hstate, h⟩ := Checked.bind_ok.mp h
  obtain ⟨hpassed, hvalidated⟩ := classify_ok hresult (by simp)
  obtain rfl := Except.ok.inj h
  have hrun := classifyParameters_run
    ⟨NativeABIValue.Placed.start (if result.sRet then [.ptr] else []), hvalidated⟩ hstate
  exact NativeABISignature.wellFormed_of_placed hpassed.toClassified hrun.placed rfl rfl rfl

end NativeX86Abi

end Sela
