import Sela.LlvmType

/-!
# Native signatures

The descriptors a native signature is made of, the four target layouts, and the check that
guards every access to the pieces of an aggregate (`validateAccess`).

A descriptor is loadable when its pieces are there, follow one another inside the storage
and are pieces that the access check admits (`NativeABIValue.Loadable`); the access check
then accepts it wherever an insertion point of the target is (`validateAccess_loadable`).
A signature is well formed when its parameters tile the native parameter list, its result
has the native form of its kind, and its records are loadable (`NativeABISignature.WellFormed`).
-/

namespace Sela

/-! ## Targets -/

/-- The native backends. -/
inductive NativeTarget
  | x86_64
  | i686
  | armv7
  | aarch64
  deriving DecidableEq, Repr

namespace NativeTarget

/-- The integer alignments every target shares. -/
def smallIntegers : List (ℕ × Align) := [(1, .of 1), (8, .of 1), (16, .of 2), (32, .of 4)]

/-- The layout string of a target, over the defaults for what it leaves out. -/
def layout : NativeTarget → DataLayout
  | .x86_64 =>
    { bigEndian := false
      pointers := [(270, 4), (271, 4), (272, 8)]
      pointerBytes := 8
      integers := smallIntegers ++ [(64, .of 8), (128, .of 16)]
      floats := [(16, .of 2), (32, .of 4), (64, .of 8), (80, .of 16), (128, .of 16)]
      vectors := [(64, .of 8), (128, .of 16)] }
  | .i686 =>
    { bigEndian := false
      pointers := [(270, 4), (271, 4), (272, 8)]
      pointerBytes := 4
      integers := smallIntegers ++ [(64, .of 4), (128, .of 16)]
      floats := [(16, .of 2), (32, .of 4), (64, .of 4), (80, .of 4), (128, .of 16)]
      vectors := [(64, .of 8), (128, .of 16)] }
  | .armv7 =>
    { bigEndian := false
      pointers := []
      pointerBytes := 4
      integers := smallIntegers ++ [(64, .of 8)]
      floats := [(16, .of 2), (32, .of 4), (64, .of 8), (128, .of 16)]
      vectors := [(64, .of 8), (128, .of 8)] }
  | .aarch64 =>
    { bigEndian := false
      pointers := []
      pointerBytes := 8
      integers := smallIntegers ++ [(64, .of 8), (128, .of 16)]
      floats := [(16, .of 2), (32, .of 4), (64, .of 8), (128, .of 16)]
      vectors := [(64, .of 8), (128, .of 16)] }

end NativeTarget

/-! ## Descriptors -/

inductive NativeABIKind
  | direct
  | coerce
  | expand
  | indirect
  deriving DecidableEq, Repr

/-- A native value and where it stands in the storage. -/
structure NativeABIPiece where
  type : LlvmType
  offset : ℕ
  deriving DecidableEq

/-- How a value crosses a call. The stack alignment is that of a homogeneous argument; the
native positions are those of a parameter. -/
structure NativeABIValue where
  kind : NativeABIKind
  storageType : LlvmType
  storageSize : ℕ
  storageAlignment : Align
  abiAlignment : Align
  stackAlignment : Option Align
  pieces : List NativeABIPiece
  nativeBegin : ℕ
  nativeCount : ℕ
  byVal : Bool
  sRet : Bool
  deriving DecidableEq

structure NativeABISignature where
  nativeType : FunctionType
  result : NativeABIValue
  parameters : List NativeABIValue
  sretIndex : Option ℕ
  remainingGP : ℕ
  remainingSSE : ℕ
  deriving DecidableEq

/-! ### Semantic layouts -/

inductive NativeABIRecordKind
  | ordered
  | union
  deriving DecidableEq, Repr

/-- A field of a semantic layout. A bit-field has a width; padding contributes no data. -/
structure NativeABIFieldLayout where
  type : LlvmType
  bitOffset : ℕ
  bitWidth : Option ℕ
  padding : Bool
  deriving DecidableEq

/-- The semantic layout of a record on one target. -/
structure NativeABIRecordLayout where
  storageType : StructType
  kind : NativeABIRecordKind
  sizeBytes : ℕ
  alignment : Align
  fields : List NativeABIFieldLayout
  deriving DecidableEq

/-- The layout of an ordered record whose fields stand where the data layout puts them. -/
def StructType.naturalLayout (layout : DataLayout) (record : StructType) :
    NativeABIRecordLayout where
  storageType := record
  kind := .ordered
  sizeBytes := layout.allocSize record.toType
  alignment := layout.abiAlign record.toType
  fields := (layout.elements record.packed 0 record.fields).map fun element =>
    ⟨element.1, element.2 * 8, none, false⟩

theorem StructType.map_type_naturalLayout (layout : DataLayout) (record : StructType) :
    (record.naturalLayout layout).fields.map NativeABIFieldLayout.type = record.fields := by
  rw [naturalLayout, List.map_map]
  exact DataLayout.map_fst_elements layout record.packed record.fields 0

/-! ### Native values -/

/-- A descriptor before a classifier fills it in. -/
def NativeABIValue.blank (storageType : LlvmType) : NativeABIValue where
  kind := .direct
  storageType := storageType
  storageSize := 0
  storageAlignment := .of 1
  abiAlignment := .of 1
  stackAlignment := none
  pieces := []
  nativeBegin := 0
  nativeCount := 0
  byVal := false
  sRet := false

/-- The native parameters of a value : its pieces, or the pointer of an indirect one. -/
def NativeABIValue.nativeTypes (value : NativeABIValue) : List LlvmType :=
  if value.kind = .indirect then [.ptr] else value.pieces.map NativeABIPiece.type

/-! ## Access to the pieces -/

namespace NativeAbi

def failure {α : Type} (message : String) : Checked α :=
  .error ("native aggregate ABI: " ++ message)

/-- Fail with the ABI's own message unless `condition`. -/
def ensure (condition : Prop) [Decidable condition] (message : String) : Checked Unit :=
  Checked.ensure condition ("native aggregate ABI: " ++ message)

/-- The scalars of a logical signature; one bit is no field. -/
def scalar (type : LlvmType) (field : Bool) : Bool :=
  match type with
  | .scalar (.pointer addressSpace) => addressSpace == 0
  | .scalar (.floating format) => format == .float || format == .double
  | .scalar (.integer width) =>
    (!field && width == 1) || width == 8 || width == 16 || width == 32 || width == 64
  | _ => false

def nativePieceScalar (type : LlvmType) : Bool :=
  scalar type false ||
    match type with
    | .scalar (.integer width) => width ≤ 128 && width % 8 == 0
    | _ => false

/-- The scalars a record may have as fields. -/
def fieldScalars : List LlvmType := [.int 8, .int 16, .int 32, .int 64, .floatTy, .doubleTy, .ptr]

theorem scalar_field_iff {type : LlvmType} : scalar type true = true ↔ type ∈ fieldScalars := by
  constructor
  · intro h
    unfold scalar at h
    split at h
    · simp_all [fieldScalars]
    · simp at h
      rcases h with rfl | rfl <;> simp [fieldScalars]
    · simp at h
      rcases h with ((rfl | rfl) | rfl) | rfl <;> simp [fieldScalars]
    · simp at h
  · have hall : ∀ t ∈ fieldScalars, scalar t true = true := by decide
    exact hall type

mutual

def validPieceType : LlvmType → ℕ → Bool
  | .scalar type, depth => depth ≤ 32 && nativePieceScalar (.scalar type)
  | .vector element count, depth => depth ≤ 32 && count == 2 && element == .floating .float
  | .array element count, depth =>
    depth ≤ 32 && element.isSized && 0 < count && count ≤ 64 && validPieceType element (depth + 1)
  | .struct _ _ fields, depth =>
    depth ≤ 32 && LlvmType.fieldsSized fields && 0 < fields.length && fields.length ≤ 64 &&
      validPieceTypes fields (depth + 1)
  | .void, _ => false
  | .unsized _, _ => false

def validPieceTypes : List LlvmType → ℕ → Bool
  | [], _ => true
  | field :: fields, depth => validPieceType field depth && validPieceTypes fields depth

end

section Extent

variable (layout : DataLayout) (extent : ℕ)

mutual

/-- The bytes of a value at `offset` lie inside the storage, but for the unused bits of an
integer that rounds up to a register. -/
def validPieceExtent : LlvmType → ℕ → Bool
  | .array element count, offset =>
    offset < extent && (layout.storeSize (.array element count) ≤ extent - offset ||
      (List.range count).all fun i =>
        validPieceExtent element (offset + i * layout.allocSize element))
  | .struct identity packed fields, offset =>
    offset < extent && (layout.storeSize (.struct identity packed fields) ≤ extent - offset ||
      validFieldExtents packed offset 0 fields)
  | type, offset =>
    offset < extent && (layout.storeSize type ≤ extent - offset || type.isInteger)

def validFieldExtents (packed : Bool) (base start : ℕ) : List LlvmType → Bool
  | [] => true
  | field :: fields =>
    validPieceExtent field (base + alignTo start (layout.fieldAlign packed field)) &&
      validFieldExtents packed base
        (alignTo start (layout.fieldAlign packed field) + layout.allocSize field) fields

end

/-- The bytes of the storage that a piece takes. -/
def accessSize (piece : NativeABIPiece) : ℕ :=
  min (layout.storeSize piece.type) (extent - piece.offset)

def validatePieces : ℕ → List NativeABIPiece → Checked Unit
  | _, [] => .ok ()
  | stop, piece :: pieces => do
    ensure (validPieceType piece.type 0) "invalid native piece type"
    ensure (stop ≤ piece.offset ∧ validPieceExtent layout extent piece.type piece.offset)
      "overlapping or out-of-bounds native pieces"
    validatePieces (piece.offset + accessSize layout extent piece) pieces

end Extent

/-- Where an access is emitted : whether there is an insertion block inside a module, the
storage is a pointer to the default address space and both belong to one context, the
module's layout unless it is the default one, and the alignment of the storage. -/
structure Access where
  inserted : Bool
  ordinary : Bool
  sameContext : Bool
  layout : Option DataLayout
  alignment : Align

/-- The greatest alignment of a value. -/
def maximumAlignment : ℕ := 2 ^ 32

def validateAccess (access : Access) (value : NativeABIValue) : Checked Unit := do
  ensure (access.inserted ∧ access.ordinary)
    "piece access requires an insertion module and ordinary storage pointer"
  ensure access.sameContext "piece storage belongs to another LLVM context"
  ensure (value.storageType.isSized ∧ value.kind ≠ .indirect ∧ value.pieces ≠ [] ∧
      access.alignment.value ≤ maximumAlignment)
    "invalid direct piece descriptor or storage alignment"
  match access.layout with
  | none => failure "piece storage disagrees with the insertion module data layout"
  | some layout => do
    ensure (layout.allocSize value.storageType = value.storageSize)
      "piece storage disagrees with the insertion module data layout"
    validatePieces layout value.storageSize 0 value.pieces

@[simp] theorem ensure_ok {condition : Prop} [Decidable condition] {message : String} {u : Unit} :
    ensure condition message = .ok u ↔ condition :=
  Checked.ensure_ok

@[simp] theorem failure_ne_ok {α : Type} {message : String} {a : α} :
    (failure message : Checked α) ≠ .ok a := by
  simp [failure]

theorem validPieceTypes_iff {fields : List LlvmType} {depth : ℕ} :
    validPieceTypes fields depth = true ↔ ∀ field ∈ fields, validPieceType field depth = true := by
  induction fields with
  | nil => simp [validPieceTypes]
  | cons field fields ih => simp [validPieceTypes, ih]

/-! ### What the access check asks -/

/-- The pieces of a descriptor follow one another inside its storage. -/
def Ordered (layout : DataLayout) (value : NativeABIValue) : Prop :=
  value.pieces.Pairwise fun a b =>
    a.offset + accessSize layout value.storageSize a ≤ b.offset

/-- A descriptor whose pieces can be loaded and stored. -/
structure Loadable (layout : DataLayout) (value : NativeABIValue) : Prop where
  sized : value.storageType.isSized = true
  size : layout.allocSize value.storageType = value.storageSize
  nonempty : value.pieces ≠ []
  types : ∀ piece ∈ value.pieces, validPieceType piece.type 0 = true
  inside : ∀ piece ∈ value.pieces, piece.offset < value.storageSize
  extents : ∀ piece ∈ value.pieces,
    validPieceExtent layout value.storageSize piece.type piece.offset = true
  ordered : Ordered layout value

theorem validatePieces_ok {layout : DataLayout} {extent : ℕ} {pieces : List NativeABIPiece}
    (htypes : ∀ piece ∈ pieces, validPieceType piece.type 0 = true)
    (hextents : ∀ piece ∈ pieces, validPieceExtent layout extent piece.type piece.offset = true)
    (hordered : pieces.Pairwise fun a b => a.offset + accessSize layout extent a ≤ b.offset) :
    ∀ {stop}, (∀ piece ∈ pieces, stop ≤ piece.offset) →
      validatePieces layout extent stop pieces = .ok () := by
  induction pieces with
  | nil => intro stop _; rfl
  | cons piece pieces ih =>
    intro stop hstop
    obtain ⟨hfirst, hordered⟩ := List.pairwise_cons.mp hordered
    rw [validatePieces, Checked.bind_ok]
    refine ⟨(), ensure_ok.mpr (htypes piece (by simp)), ?_⟩
    rw [Checked.bind_ok]
    refine ⟨(), ensure_ok.mpr ⟨hstop piece (by simp), hextents piece (by simp)⟩, ?_⟩
    exact ih (fun p hp => htypes p (by simp [hp])) (fun p hp => hextents p (by simp [hp]))
      hordered hfirst

/-- A piece whose bytes lie inside the storage is inside it. -/
theorem validPieceExtent_of_le {layout : DataLayout} {extent offset : ℕ} {type : LlvmType}
    (hoffset : offset < extent) (hsize : layout.storeSize type ≤ extent - offset) :
    validPieceExtent layout extent type offset = true := by
  unfold validPieceExtent
  split <;> simp [hoffset, hsize]

/-- An access emitted into a module of the layout, through an ordinary pointer. -/
structure Access.At (layout : DataLayout) (access : Access) : Prop where
  inserted : access.inserted = true
  ordinary : access.ordinary = true
  sameContext : access.sameContext = true
  layout : access.layout = some layout
  alignment : access.alignment.value ≤ maximumAlignment

/-- The access check accepts a loadable descriptor at every insertion point of its target. -/
theorem validateAccess_loadable {access : Access} {layout : DataLayout} {value : NativeABIValue}
    (h : Loadable layout value) (hkind : value.kind ≠ .indirect) (haccess : access.At layout) :
    validateAccess access value = .ok () := by
  rw [validateAccess, Checked.bind_ok]
  refine ⟨(), ensure_ok.mpr ⟨haccess.inserted, haccess.ordinary⟩, ?_⟩
  rw [Checked.bind_ok]
  refine ⟨(), ensure_ok.mpr haccess.sameContext, ?_⟩
  rw [Checked.bind_ok]
  refine ⟨(), ensure_ok.mpr ⟨h.sized, hkind, h.nonempty, haccess.alignment⟩, ?_⟩
  rw [haccess.layout]
  change (ensure _ _ >>= fun _ => _) = _
  rw [Checked.bind_ok]
  exact ⟨(), ensure_ok.mpr h.size,
    validatePieces_ok h.types h.extents h.ordered fun _ _ => Nat.zero_le _⟩

end NativeAbi

/-! ## Well-formed signatures -/

namespace NativeABIValue

/-- The native result of a value of each kind. -/
inductive ResultType (value : NativeABIValue) : LlvmType → Prop
  | indirect : value.kind = .indirect → ResultType value .void
  | none : value.kind = .direct → value.pieces = [] → ResultType value .void
  | one (piece : NativeABIPiece) : value.kind = .direct ∨ value.kind = .coerce →
    value.pieces = [piece] → ResultType value piece.type
  | several : value.kind = .expand → 2 ≤ value.pieces.length →
    ResultType value (.struct none false (value.pieces.map NativeABIPiece.type))

end NativeABIValue

/-- The parameters of a signature from a native position on : each begins where the one
before it ends, and has a native position for each of its native types. -/
def Tiles : ℕ → List NativeABIValue → Prop
  | _, [] => True
  | start, value :: values =>
    value.nativeBegin = start ∧ value.nativeCount = value.nativeTypes.length ∧
      Tiles (start + value.nativeCount) values

theorem Tiles.concat {value : NativeABIValue} {values : List NativeABIValue} :
    ∀ {start : ℕ}, Tiles start values →
      value.nativeBegin = start + (values.flatMap NativeABIValue.nativeTypes).length →
      value.nativeCount = value.nativeTypes.length → Tiles start (values ++ [value]) := by
  induction values with
  | nil =>
    intro start _ hbegin hcount
    exact ⟨by simpa using hbegin, hcount, trivial⟩
  | cons first values ih =>
    rintro start ⟨hfirst, hlength, h⟩ hbegin hcount
    refine ⟨hfirst, hlength, ih h ?_ hcount⟩
    rw [hbegin, List.flatMap_cons, List.length_append, hlength]
    omega

/-- The native parameters at the positions of a value are its native types. -/
theorem Tiles.interval {value : NativeABIValue} {values : List NativeABIValue} :
    ∀ {hidden : List LlvmType}, Tiles hidden.length values → value ∈ values →
      ((hidden ++ values.flatMap NativeABIValue.nativeTypes).drop value.nativeBegin).take
        value.nativeCount = value.nativeTypes := by
  induction values with
  | nil => simp
  | cons first values ih =>
    rintro hidden ⟨hfirst, hcount, h⟩ hmem
    rw [List.flatMap_cons]
    rcases List.mem_cons.mp hmem with rfl | hmem
    · rw [hfirst, List.drop_left, hcount, List.take_left]
    · rw [← List.append_assoc]
      refine ih ?_ hmem
      rwa [List.length_append, ← hcount]

/-- What a classifier returns for a type. A result is expanded only into several pieces. -/
structure NativeABIValue.Classified (layout : DataLayout) (type : LlvmType) (returns : Bool)
    (value : NativeABIValue) : Prop where
  storage : value.storageType = type
  sRet : value.sRet = true ↔ value.kind = .indirect ∧ returns = true
  count : value.nativeCount = value.nativeTypes.length
  direct : value.kind = .direct → value.pieces.length ≤ 1
  coerce : value.kind = .coerce → value.pieces.length = 1
  expand : returns = true → value.kind = .expand → 2 ≤ value.pieces.length
  loadable : type.isStruct = true → value.kind ≠ .indirect → NativeAbi.Loadable layout value

/-- The parameters a signature has so far, after the hidden ones. -/
structure NativeABIValue.Placed (layout : DataLayout) (logical hidden : List LlvmType)
    (native : List LlvmType) (parameters : List NativeABIValue) : Prop where
  storage : parameters.map NativeABIValue.storageType = logical
  native : native = hidden ++ parameters.flatMap NativeABIValue.nativeTypes
  tiles : Tiles hidden.length parameters
  loadable : ∀ value ∈ parameters, value.storageType.isStruct = true → value.kind ≠ .indirect →
    NativeAbi.Loadable layout value

namespace NativeABIValue

variable {layout : DataLayout}

theorem Placed.start (hidden : List LlvmType) : Placed layout [] hidden hidden [] where
  storage := rfl
  native := by simp
  tiles := trivial
  loadable := by simp

/-- One more parameter, at the next native position. -/
theorem Placed.concat {logical hidden native : List LlvmType} {parameters : List NativeABIValue}
    {type : LlvmType} {value : NativeABIValue} (h : Placed layout logical hidden native parameters)
    (hvalue : Classified layout type false value) :
    Placed layout (logical ++ [type]) hidden (native ++ value.nativeTypes)
      (parameters ++ [{ value with nativeBegin := native.length }]) where
  storage := by rw [List.map_append, h.storage, List.map_singleton, hvalue.storage]
  native := by
    rw [List.flatMap_append, List.flatMap_singleton, ← List.append_assoc, ← h.native]
    rfl
  tiles := by
    refine h.tiles.concat ?_ hvalue.count
    rw [h.native, List.length_append]
  loadable := by
    intro parameter hmem hstruct hkind
    rcases List.mem_append.mp hmem with hmem | hmem
    · exact h.loadable parameter hmem hstruct hkind
    · obtain rfl := List.mem_singleton.mp hmem
      obtain ⟨hsized, hsize, hnonempty, htypes, hinside, hextents, hordered⟩ :=
        hvalue.loadable (hvalue.storage ▸ hstruct) hkind
      exact ⟨hsized, hsize, hnonempty, htypes, hinside, hextents, hordered⟩

/-- The native result of each kind of classified result. -/
def nativeResult (result : NativeABIValue) : LlvmType :=
  if result.sRet then .void
  else
    match result.pieces with
    | [] => .void
    | [piece] => piece.type
    | pieces => .struct none false (pieces.map NativeABIPiece.type)

theorem Classified.resultType {type : LlvmType} {value : NativeABIValue}
    (h : Classified layout type true value) : value.ResultType value.nativeResult := by
  have hsRet : value.sRet = true ↔ value.kind = .indirect := by simpa using h.sRet
  unfold nativeResult
  split
  · next hs => exact .indirect (hsRet.mp hs)
  · next hs =>
    have hkind : value.kind ≠ .indirect := fun hk => hs (hsRet.mpr hk)
    split
    · next hpieces =>
      refine .none ?_ hpieces
      rcases hk : value.kind with _ | _ | _ | _
      · rfl
      · simpa [hpieces] using h.coerce hk
      · simpa [hpieces] using h.expand rfl hk
      · exact absurd hk hkind
    · next piece hpieces =>
      refine .one piece ?_ hpieces
      rcases hk : value.kind with _ | _ | _ | _
      · exact .inl rfl
      · exact .inr rfl
      · simpa [hpieces] using h.expand rfl hk
      · exact absurd hk hkind
    · next hnil hone =>
      have hlength : 2 ≤ value.pieces.length := by
        rcases hp : value.pieces with _ | ⟨piece, _ | ⟨piece', pieces⟩⟩
        · exact absurd hp hnil
        · exact absurd hp (hone piece)
        · simp
      refine .several ?_ hlength
      rcases hk : value.kind with _ | _ | _ | _
      · have := h.direct hk
        omega
      · have := h.coerce hk
        omega
      · rfl
      · exact absurd hk hkind

end NativeABIValue

/-- A native signature that belongs to a logical one and is sound to lower. -/
structure NativeABISignature.WellFormed (layout : DataLayout) (logical : FunctionType)
    (signature : NativeABISignature) : Prop where
  result_storage : signature.result.storageType = logical.result
  parameter_storage : signature.parameters.map NativeABIValue.storageType = logical.params
  variadic : signature.nativeType.isVarArg = logical.isVarArg
  sret : signature.sretIndex = if signature.result.kind = .indirect then some 0 else none
  params : signature.nativeType.params =
    (if signature.result.kind = .indirect then [.ptr] else []) ++
      signature.parameters.flatMap NativeABIValue.nativeTypes
  tiles : Tiles (if signature.result.kind = .indirect then 1 else 0) signature.parameters
  result_type : signature.result.ResultType signature.nativeType.result
  loadable : ∀ value ∈ signature.result :: signature.parameters,
    value.storageType.isStruct = true → value.kind ≠ .indirect → NativeAbi.Loadable layout value

/-- The signature of a classified result and of the parameters placed after it. -/
theorem NativeABISignature.wellFormed_of_placed {layout : DataLayout} {logical : FunctionType}
    {signature : NativeABISignature}
    (hresult : signature.result.Classified layout logical.result true)
    (hplaced : NativeABIValue.Placed layout logical.params
      (if signature.result.sRet then [.ptr] else []) signature.nativeType.params
      signature.parameters)
    (htype : signature.nativeType.result = signature.result.nativeResult)
    (hvariadic : signature.nativeType.isVarArg = logical.isVarArg)
    (hsret : signature.sretIndex = if signature.result.sRet then some 0 else none) :
    signature.WellFormed layout logical := by
  have hiff : signature.result.sRet = true ↔ signature.result.kind = .indirect := by
    simpa using hresult.sRet
  have hhidden : (if signature.result.sRet then [LlvmType.ptr] else []).length =
      if signature.result.kind = .indirect then 1 else 0 := by
    simp only [hiff, apply_ite List.length, List.length_singleton, List.length_nil]
  exact
    { result_storage := hresult.storage
      parameter_storage := hplaced.storage
      variadic := hvariadic
      sret := by simpa only [hiff] using hsret
      params := by simpa only [hiff] using hplaced.native
      tiles := hhidden ▸ hplaced.tiles
      result_type := htype ▸ hresult.resultType
      loadable := by
        intro value hvalue hstruct hkind
        rcases List.mem_cons.mp hvalue with rfl | hvalue
        · exact hresult.loadable (hresult.storage ▸ hstruct) hkind
        · exact hplaced.loadable value hvalue hstruct hkind }

end Sela
