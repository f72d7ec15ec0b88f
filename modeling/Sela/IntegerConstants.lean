import Sela.NativeConstants

/-!
# Integers from the native module and back

An integer of the native module is encoded by the importer, as an operand, in an initializer,
as an index of an address or as the label of a switch, and decoded by the lowering of the
target it was captured for, once the schema has admitted it there. A width of at most 64 bits
travels as a sign-extended 64-bit number. A wider integer keeps its width, except as the label
of a switch, which is cut to 64 bits, and as an index of an address the schema refuses it.

`integers_roundTrip` says which integers come back : all of them as operands and in
initializers, an index of an address exactly when it has at most 64 bits, and a switch with all
its labels exactly when none of them is cut.
-/

namespace Sela

open Checked

/-! ## The importer -/

/-- What the importer of a module knows : the public names of its globals, and the types of
the aggregates it has met. The importer walks pairs of modules; one that imports a captured
module walks it paired with itself, so that both values of a pair are one. -/
structure LLVMImporter where
  symbols : String → Option String
  aggregates : LlvmType → Checked SelaType

namespace LLVMImporter

variable (importer : LLVMImporter)

def type (native : LlvmType) : Checked SelaType :=
  match native with
  | .scalar (.pointer 0) => .ok .ptr
  | .scalar (.floating .float) => .ok .f32
  | .scalar (.floating .double) => .ok .f64
  | .scalar (.integer width) =>
    if 1 ≤ width ∧ width ≤ 128 then .ok (.integer width)
    else throw "unsupported type correspondence; aggregate layout normalization is required"
  | native => importer.aggregates native

/-- An integer that is an operand or a part of an initializer. -/
def encodeInteger (width value : ℕ) : Attr :=
  if 64 < width then .integer width value else .integer 64 (sextOrTrunc width 64 value)

/-- The type of the constants an address can be indexed with. -/
def indexType : Constant → LlvmType
  | .int width _ => .int width
  | .undef type => type
  | .poison type => type
  | _ => .ptr

mutual

/-- The attribute of an initializer. -/
def initializer : Constant → Checked Attr
  | .gep element base indices inbounds inRange => do
    ensure (inRange = false) "constant address expression needs additional normalization"
    let element ← importer.type element
    let base ← initializer base
    let indices ← importIndices indices
    pure (.dictionary [("base", base), ("element", .type element),
      ("inbounds", .integer 1 inbounds.toNat), ("indices", .array indices),
      ("op", .string "gep")])
  | .int width value => .ok (encodeInteger width value)
  | .float format bits => do
    let type ← importer.type (.scalar (.floating format))
    pure (.float type bits)
  | .zero _ => .ok (.string "zero")
  | .null _ => .ok (.string "null")
  | .poison _ => .ok (.string "poison")
  | .undef _ => .ok (.string "undef")
  | .global name => do
    let symbol ← require (importer.symbols name)
      "initializer address has no shared symbol correspondence"
    pure (.dictionary [("symbol", .string symbol)])
  | .aggregate _ elements => do
    ensure (elements.length ≤ elementLimit)
      "explicit aggregate initializers require bounded compatible element domains"
    let elements ← importElements elements
    pure (.array elements)

def importElements : List Constant → Checked (List Attr)
  | [] => .ok []
  | element :: elements => do
    let element ← initializer element
    let elements ← importElements elements
    pure (element :: elements)

def importIndices : List Constant → Checked (List Attr)
  | [] => .ok []
  | index :: indices => do
    let type ← importer.type (indexType index)
    let value ← initializer index
    let indices ← importIndices indices
    pure (.dictionary [("type", .type type), ("value", value)] :: indices)

end

/-- The operation that yields an integer operand. -/
def integerOperand (id width value : ℕ) : Checked Operation := do
  let type ← importer.type (.int width)
  pure {
    name := "sela.constant"
    attributes := [("value", encodeInteger width value)]
    operands := []
    results := [⟨id, type⟩]
    successors := [] }

end LLVMImporter

/-- The constant an operation yields. -/
def Lowerer.constantOperation (lowerer : Lowerer) (operation : Operation) : Checked Constant := do
  ensure (operation.name = "sela.constant" ∧ operation.operands = [] ∧
    operation.results.length = 1) "invalid operation arity: sela.constant"
  let result ← require operation.results.head? "invalid operation arity: sela.constant"
  let type ← lowerer.type result.type
  let value ← require (Attributes.get operation.attributes "value")
    "unsupported typed global initializer"
  lowerer.initializer type value

/-! ## One integer -/

theorem toNat_ofNat_of_lt {width value : ℕ} (h : value < 2 ^ width) :
    (BitVec.ofNat width value).toNat = value := by
  rw [BitVec.toNat_ofNat, Nat.mod_eq_of_lt h]

/-- Sign extension is undone by cutting to the width. -/
theorem sextOrTrunc_sextOrTrunc {width value : ℕ} (hwidth : width ≤ 64) (h : value < 2 ^ width) :
    sextOrTrunc 64 width (sextOrTrunc width 64 value) = value := by
  have hback : BitVec.ofNat 64 ((BitVec.ofNat width value).signExtend 64).toNat =
      (BitVec.ofNat width value).signExtend 64 := by
    rw [BitVec.ofNat_toNat, BitVec.setWidth_eq]
  have htoInt : ((BitVec.ofNat width value).signExtend 64).toInt =
      (BitVec.ofNat width value).toInt := BitVec.toInt_signExtend_of_le hwidth
  unfold sextOrTrunc
  rw [hback]
  unfold BitVec.signExtend at htoInt ⊢
  rw [htoInt, BitVec.ofInt_toInt, toNat_ofNat_of_lt h]

theorem sextOrTrunc_self {width value : ℕ} (h : value < 2 ^ width) :
    sextOrTrunc width width value = value := by
  rw [sextOrTrunc, BitVec.signExtend_eq, toNat_ofNat_of_lt h]

/-- The number that carries an integer fits its width. -/
theorem fitsWidth_sextOrTrunc {width value : ℕ} (hwidth : width ≤ 64) :
    fitsWidth 64 width (sextOrTrunc width 64 value) = true := by
  have hsigned : (BitVec.ofNat 64 (sextOrTrunc width 64 value)).toInt =
      (BitVec.ofNat width value).toInt := by
    rw [sextOrTrunc, BitVec.ofNat_toNat, BitVec.setWidth_eq]
    exact BitVec.toInt_signExtend_of_le hwidth
  have hlow := BitVec.le_toInt (BitVec.ofNat width value)
  have hhigh := BitVec.toInt_lt (x := BitVec.ofNat width value)
  simp only [fitsWidth, hsigned, decide_eq_true hlow, decide_eq_true hhigh, Bool.and_self,
    Bool.true_or]

theorem fitsWidth_self {width value : ℕ} (h : value < 2 ^ width) :
    fitsWidth width width value = true := by
  simp only [fitsWidth, decide_eq_true h, Bool.or_true]

section Leaf

variable {importer : LLVMImporter} {lowerer : Lowerer} {target : TargetInfo} {width value : ℕ}

/-- An encoded integer means itself at its width. -/
theorem integerInitializer_encodeInteger (h : value < 2 ^ width) :
    lowerer.integerInitializer width (LLVMImporter.encodeInteger width value) =
      .ok (.int width value) := by
  unfold LLVMImporter.encodeInteger
  split
  · rw [Lowerer.integerInitializer, Data.literalText_of_ne (by simp)]
    dsimp only
    rw [if_pos (fitsWidth_self h), sextOrTrunc_self h]
  · rename_i hle
    rw [Lowerer.integerInitializer, Data.literalText_of_ne (by simp)]
    dsimp only
    rw [if_pos (fitsWidth_sextOrTrunc (by omega)), sextOrTrunc_sextOrTrunc (by omega) h]

theorem specializeAttribute_encodeInteger :
    specializeAttribute target true (LLVMImporter.encodeInteger width value) =
      .ok (LLVMImporter.encodeInteger width value) := by
  unfold LLVMImporter.encodeInteger
  split <;> exact Data.specializeAttribute_integer _ _

/-- The schema admits an encoded integer at its type. -/
theorem validateValue_encodeInteger (h : value < 2 ^ width) :
    validateValue (.integer width) (LLVMImporter.encodeInteger width value) = .ok () := by
  unfold LLVMImporter.encodeInteger
  split
  · simp [validateValue, validateInitializer, isLiteral, validateInitializerShape, fitsType,
      SelaType.integerWidth?, Attr.integerBits?, Attr.number?, ensure, fitsWidth_self h]
  · rename_i hle
    have hfits := @fitsWidth_sextOrTrunc width value (by omega)
    simp [validateValue, validateInitializer, isLiteral, validateInitializerShape, fitsType,
      SelaType.integerWidth?, Attr.integerBits?, Attr.number?, ensure, hfits]

/-- An integer comes back from an initializer of its type. -/
theorem initializer_roundTrip (hpos : 1 ≤ width) (hwidth : width ≤ 128) (h : value < 2 ^ width) :
    ∃ type raw result, importer.type (.int width) = .ok type ∧
      importer.initializer (.int width value) = .ok raw ∧
      specializeAttribute target true raw = .ok result ∧ validateValue type result = .ok () ∧
      lowerer.initializer (.int width) result = .ok (.int width value) :=
  ⟨.integer width, _, _, if_pos ⟨hpos, hwidth⟩, rfl, specializeAttribute_encodeInteger,
    validateValue_encodeInteger h,
    (Data.initializer_integer _ _).trans (integerInitializer_encodeInteger h)⟩

theorem type_int (hpos : 1 ≤ width) (hwidth : width ≤ 128) :
    importer.type (.int width) = .ok (.integer width) ∧
      specializeType target (.integer width) = .ok (.integer width) ∧
      lowerer.type (.integer width) = .ok (.int width) := by
  refine ⟨if_pos ⟨hpos, hwidth⟩, ?_, if_pos ⟨hpos, hwidth⟩⟩
  simp [specializeType]

/-- An integer comes back from an operand. -/
theorem operand_roundTrip (id : ℕ) (hpos : 1 ≤ width) (hwidth : width ≤ 128)
    (h : value < 2 ^ width) :
    ∃ operation operation' type raw, importer.integerOperand id width value = .ok operation ∧
      specializeOperation target operation = .ok operation' ∧
      operation'.results = [⟨id, type⟩] ∧
      Attributes.get operation'.attributes "value" = some raw ∧
      validateValue type raw = .ok () ∧
      lowerer.constantOperation operation' = .ok (.int width value) := by
  obtain ⟨himport, hspecialize, hlower⟩ :=
    @type_int importer lowerer target width hpos hwidth
  have hentry : specializeEntry target ("value", LLVMImporter.encodeInteger width value) =
      .ok ("value", LLVMImporter.encodeInteger width value) := by
    simp [specializeEntry, numericName, specializeAttribute_encodeInteger]
  refine ⟨⟨"sela.constant", [("value", LLVMImporter.encodeInteger width value)], [],
      [⟨id, .integer width⟩], []⟩,
    ⟨"sela.constant", [("value", LLVMImporter.encodeInteger width value)], [],
      [⟨id, .integer width⟩], []⟩, .integer width, _, ?_, ?_, rfl, rfl,
      validateValue_encodeInteger h, ?_⟩
  · rw [LLVMImporter.integerOperand, himport]
    rfl
  · simp [specializeOperation, specializeAttributes, hentry, specializeValue, hspecialize]
  · simp [Lowerer.constantOperation, ensure, require, hlower, Attributes.get_cons,
      Data.initializer_integer, integerInitializer_encodeInteger h]

end Leaf

/-! ## An integer inside an initializer -/

/-- Where an integer stands in an initializer. -/
inductive Path
  | here
  | element (i : ℕ) (rest : Path)
  | base (rest : Path)
  | index (i : ℕ)

/-- A constant of a type holds an integer at a place : it is the integer, or a part of an
aggregate or the base of an address holds it, or it is an index of an address. -/
def IntegerAt : Path → LlvmType → Constant → ℕ → ℕ → Prop
  | .here, type, .int width value, width', value' =>
    type = .int width ∧ width = width' ∧ value = value'
  | .element i rest, type, .aggregate type' elements, width, value =>
    type = type' ∧ Lowerer.elementCount type = some elements.length ∧
      ∃ element, elements[i]? = some element ∧
        IntegerAt rest (Lowerer.elementType type i) element width value
  | .base rest, .scalar (.pointer _), .gep _ base _ _ _, width, value =>
    IntegerAt rest .ptr base width value
  | .index i, .scalar (.pointer _), .gep _ _ indices _ _, width, value =>
    indices[i]? = some (.int width value)
  | _, _, _, _, _ => False

theorem IntegerAt.base {rest : Path} {type : LlvmType} {constant : Constant} {width value : ℕ}
    (h : IntegerAt (.base rest) type constant width value) :
    ∃ addressSpace element base indices inbounds inRange,
      type = .scalar (.pointer addressSpace) ∧
      constant = .gep element base indices inbounds inRange ∧
      IntegerAt rest .ptr base width value := by
  unfold IntegerAt at h
  split at h <;> simp_all

theorem IntegerAt.index {i : ℕ} {type : LlvmType} {constant : Constant} {width value : ℕ}
    (h : IntegerAt (.index i) type constant width value) :
    ∃ addressSpace element base indices inbounds inRange,
      type = .scalar (.pointer addressSpace) ∧
      constant = .gep element base indices inbounds inRange ∧
      indices[i]? = some (.int width value) := by
  unfold IntegerAt at h
  split at h <;> simp_all

section Inside

variable {importer : LLVMImporter} {lowerer : Lowerer} {target : TargetInfo}

theorem importElements_ok : ∀ {elements : List Constant} {raws : List Attr},
    importer.importElements elements = .ok raws →
      List.Forall₂ (fun element raw => importer.initializer element = .ok raw) elements raws
  | [], raws, h => by
    obtain rfl := Except.ok.inj h
    exact .nil
  | element :: elements, raws, h => by
    rw [LLVMImporter.importElements] at h
    obtain ⟨first, hfirst, h⟩ := bind_ok.mp h
    obtain ⟨rest, hrest, h⟩ := bind_ok.mp h
    obtain rfl := Except.ok.inj h
    exact .cons hfirst (importElements_ok hrest)

theorem importIndices_ok : ∀ {indices : List Constant} {raws : List Attr},
    importer.importIndices indices = .ok raws →
      List.Forall₂ (fun index raw => ∃ type value,
        importer.type (LLVMImporter.indexType index) = .ok type ∧
        importer.initializer index = .ok value ∧
        raw = .dictionary [("type", .type type), ("value", value)]) indices raws
  | [], raws, h => by
    obtain rfl := Except.ok.inj h
    exact .nil
  | index :: indices, raws, h => by
    rw [LLVMImporter.importIndices] at h
    obtain ⟨type, htype, h⟩ := bind_ok.mp h
    obtain ⟨value, hvalue, h⟩ := bind_ok.mp h
    obtain ⟨rest, hrest, h⟩ := bind_ok.mp h
    obtain rfl := Except.ok.inj h
    exact .cons ⟨type, value, htype, hvalue, rfl⟩ (importIndices_ok hrest)

theorem initializers_ok : ∀ {types : ℕ → LlvmType} {values : List Attr} {results : List Constant},
    lowerer.initializers types values = .ok results →
      results.length = values.length ∧
      ∀ i value, values[i]? = some value → ∃ result, results[i]? = some result ∧
        lowerer.initializer (types i) value = .ok result
  | types, [], results, h => by
    rw [Lowerer.initializers] at h
    obtain rfl := Except.ok.inj h
    exact ⟨rfl, by simp⟩
  | types, value :: values, results, h => by
    rw [Lowerer.initializers] at h
    obtain ⟨first, hfirst, h⟩ := bind_ok.mp h
    obtain ⟨rest, hrest, h⟩ := bind_ok.mp h
    obtain rfl := Except.ok.inj h
    obtain ⟨hlength, hall⟩ := initializers_ok hrest
    refine ⟨by simp [hlength], ?_⟩
    intro i other hother
    rcases i with _ | i
    · obtain rfl : value = other := by simpa using hother
      exact ⟨first, rfl, hfirst⟩
    · simpa using hall i other (by simpa using hother)

theorem importGep_ok {element : LlvmType} {base : Constant} {indices : List Constant}
    {inbounds inRange : Bool} {raw : Attr}
    (h : importer.initializer (.gep element base indices inbounds inRange) = .ok raw) :
    ∃ element' base' indices', importer.initializer base = .ok base' ∧
      List.Forall₂ (fun index raw => ∃ type value,
        importer.type (LLVMImporter.indexType index) = .ok type ∧
        importer.initializer index = .ok value ∧
        raw = .dictionary [("type", .type type), ("value", value)]) indices indices' ∧
      raw = .dictionary [("base", base'), ("element", .type element'),
        ("inbounds", .integer 1 inbounds.toNat), ("indices", .array indices'),
        ("op", .string "gep")] := by
  rw [LLVMImporter.initializer] at h
  obtain ⟨_, -, h⟩ := bind_ok.mp h
  obtain ⟨element', -, h⟩ := bind_ok.mp h
  obtain ⟨base', hbase, h⟩ := bind_ok.mp h
  obtain ⟨indices', hindices, h⟩ := bind_ok.mp h
  obtain rfl := Except.ok.inj h
  exact ⟨element', base', indices', hbase, importIndices_ok hindices, rfl⟩

/-- The elements of an aggregate are lowered one by one. -/
theorem initializer_array_ok {expected : LlvmType} {elements : List Attr} {result : Constant}
    (hcount : Lowerer.elementCount expected = some elements.length)
    (hlimit : elements.length ≤ elementLimit)
    (h : lowerer.initializer expected (.array elements) = .ok result) :
    ∃ native, result = .aggregate expected native ∧ native.length = elements.length ∧
      ∀ i value, elements[i]? = some value → ∃ constant, native[i]? = some constant ∧
        lowerer.initializer (Lowerer.elementType expected i) value = .ok constant := by
  rw [Data.initializer_elements hcount hlimit] at h
  obtain ⟨native, hnative, h⟩ := bind_ok.mp h
  obtain rfl := Except.ok.inj h
  obtain ⟨hlength, hall⟩ := initializers_ok hnative
  exact ⟨native, rfl, hlength, hall⟩

/-- A specialized array holds the specialized elements. -/
theorem specializeAttribute_array_ok {elements : List Attr} {result : Attr}
    (h : specializeAttribute target true (.array elements) = .ok result) :
    ∃ results, result = .array results ∧
      List.Forall₂ (fun element result => specializeAttribute target true element = .ok result)
        elements results := by
  rw [Data.specializeAttribute_elements] at h
  obtain ⟨results, hresults, h⟩ := bind_ok.mp h
  obtain rfl := Except.ok.inj h
  exact ⟨results, rfl, mapM_ok.mp hresults⟩

/-- A specialized address expression holds the specialized parts. -/
theorem specializeAttribute_gep_ok {base : Attr} {element : SelaType} {indices : List Attr}
    {inbounds : ℕ} {result : Attr}
    (h : specializeAttribute target true (.dictionary [("base", base), ("element", .type element),
      ("inbounds", .integer 1 inbounds), ("indices", .array indices), ("op", .string "gep")]) =
        .ok result) :
    ∃ base' element' indices', specializeAttribute target true base = .ok base' ∧
      List.Forall₂ (fun index result => specializeAttribute target true index = .ok result)
        indices indices' ∧
      result = .dictionary [("base", base'), ("element", .type element'),
        ("inbounds", .integer 1 inbounds), ("indices", .array indices'), ("op", .string "gep")] := by
  rw [Data.specializeAttribute_entries (by simp [Attributes.get_cons])] at h
  obtain ⟨values, hvalues, h⟩ := bind_ok.mp h
  rw [mapM_ok] at hvalues
  obtain _ | ⟨hbase, hvalues⟩ := hvalues
  obtain _ | ⟨helement, hvalues⟩ := hvalues
  obtain _ | ⟨hinbounds, hvalues⟩ := hvalues
  obtain _ | ⟨hindices, hvalues⟩ := hvalues
  obtain _ | ⟨hop, hvalues⟩ := hvalues
  cases hvalues
  obtain ⟨base', hbase', hvalue⟩ := bind_ok.mp hbase
  obtain rfl := Except.ok.inj hvalue
  obtain ⟨raw, hraw, hvalue⟩ := bind_ok.mp helement
  obtain rfl := Except.ok.inj hvalue
  rw [Data.specializeAttribute_type] at hraw
  obtain ⟨element', -, hraw⟩ := bind_ok.mp hraw
  obtain rfl := Except.ok.inj hraw
  obtain ⟨raw, hraw, hvalue⟩ := bind_ok.mp hinbounds
  obtain rfl := Except.ok.inj hvalue
  rw [Data.specializeAttribute_integer] at hraw
  obtain rfl := Except.ok.inj hraw
  obtain ⟨raw, hraw, hvalue⟩ := bind_ok.mp hindices
  obtain rfl := Except.ok.inj hvalue
  obtain ⟨indices', rfl, hindices'⟩ := specializeAttribute_array_ok hraw
  obtain ⟨raw, hraw, hvalue⟩ := bind_ok.mp hop
  obtain rfl := Except.ok.inj hvalue
  rw [Data.specializeAttribute_string] at hraw
  obtain rfl := Except.ok.inj hraw
  refine ⟨base', element', indices', hbase', hindices', ?_⟩
  simpa [clipArray, Attributes.get_cons, Data.specializedName] using h.symm

/-- A specialized index holds the specialized value. -/
theorem specializeAttribute_index_ok {type : SelaType} {value result : Attr}
    (h : specializeAttribute target true
      (.dictionary [("type", .type type), ("value", value)]) = .ok result) :
    ∃ type' value', specializeType target type = .ok type' ∧
      specializeAttribute target true value = .ok value' ∧
      result = .dictionary [("type", .type type'), ("value", value')] := by
  rw [Data.specializeAttribute_entries (by simp [Attributes.get_cons])] at h
  obtain ⟨values, hvalues, h⟩ := bind_ok.mp h
  rw [mapM_ok] at hvalues
  obtain _ | ⟨htype, hvalues⟩ := hvalues
  obtain _ | ⟨hvalue, hvalues⟩ := hvalues
  cases hvalues
  obtain ⟨raw, hraw, hentry⟩ := bind_ok.mp htype
  obtain rfl := Except.ok.inj hentry
  rw [Data.specializeAttribute_type] at hraw
  obtain ⟨type', htype', hraw⟩ := bind_ok.mp hraw
  obtain rfl := Except.ok.inj hraw
  obtain ⟨value', hvalue', hentry⟩ := bind_ok.mp hvalue
  obtain rfl := Except.ok.inj hentry
  refine ⟨type', value', htype', hvalue', ?_⟩
  simpa [clipArray, Attributes.get_cons] using h.symm

theorem indexInitializer_encodeInteger {width value : ℕ}
    (htype : lowerer.type (.integer width) = .ok (.int width)) (h : value < 2 ^ width) :
    lowerer.indexInitializer (.dictionary [("type", .type (.integer width)),
      ("value", LLVMImporter.encodeInteger width value)]) = .ok (.int width value) := by
  simp [Lowerer.indexInitializer, require, Attr.asDictionary?, getType, Attributes.get_cons,
    Attr.asType?, htype, ensure, integerInitializer_encodeInteger h]

/-- The schema admits the record of an index exactly when the index has at most 64 bits. -/
theorem validateIndex_encodeInteger {type : SelaType} {width value : ℕ} :
    validateIndex (.dictionary [("type", .type type),
      ("value", LLVMImporter.encodeInteger width value)]) = .ok () ↔ width ≤ 64 := by
  have hiff := @Data.validateIndex_index (type, LLVMImporter.encodeInteger width value)
  rw [Data.index] at hiff
  rw [hiff, LLVMImporter.encodeInteger]
  split
  · simp [Attr.integerBits?]
  · have hle : width ≤ 64 := by omega
    simp [Attr.integerBits?, hle]

/-- An integer comes back from an index of an address : its record is imported, the schema
admits what the target keeps of it, and the lowering makes the integer. -/
def IndexRoundTrips (importer : LLVMImporter) (lowerer : Lowerer) (width value : ℕ) : Prop :=
  ∃ type raw result, importer.type (LLVMImporter.indexType (.int width value)) = .ok type ∧
    importer.initializer (.int width value) = .ok raw ∧
    specializeAttribute lowerer.target true (.dictionary [("type", .type type), ("value", raw)]) =
      .ok result ∧
    validateIndex result = .ok () ∧ lowerer.indexInitializer result = .ok (.int width value)

/-- An index of an address comes back exactly when it has at most 64 bits. -/
theorem index_roundTrip_iff {width value : ℕ} (hpos : 1 ≤ width) (hwidth : width ≤ 128)
    (h : value < 2 ^ width) : IndexRoundTrips importer lowerer width value ↔ width ≤ 64 := by
  obtain ⟨himport, hspecialize, hlower⟩ :=
    @type_int importer lowerer lowerer.target width hpos hwidth
  have hrecord : specializeAttribute lowerer.target true (.dictionary
      [("type", .type (.integer width)), ("value", LLVMImporter.encodeInteger width value)]) =
        .ok (.dictionary
          [("type", .type (.integer width)), ("value", LLVMImporter.encodeInteger width value)]) := by
    rw [Data.specializeAttribute_entries (by simp [Attributes.get_cons])]
    simp [Data.specializeAttribute_type, hspecialize, specializeAttribute_encodeInteger,
      clipArray, Attributes.get_cons]
  constructor
  · rintro ⟨type, raw, result, htype, hraw, hresult, hadmitted, -⟩
    obtain rfl : .integer width = type := Except.ok.inj (himport.symm.trans htype)
    obtain rfl := Except.ok.inj hraw
    obtain rfl := Except.ok.inj (hrecord.symm.trans hresult)
    exact validateIndex_encodeInteger.mp hadmitted
  · intro hle
    exact ⟨_, _, _, himport, rfl, hrecord, validateIndex_encodeInteger.mpr hle,
      indexInitializer_encodeInteger hlower h⟩

/-- The indices of a lowered address are those of its attribute. -/
theorem initializer_gep_ok {addressSpace : ℕ} {base : Attr} {element : SelaType}
    {indices : List Attr} {inbounds : ℕ} {result : Constant}
    (h : lowerer.initializer (.scalar (.pointer addressSpace))
      (.dictionary [("base", base), ("element", .type element), ("inbounds", .integer 1 inbounds),
        ("indices", .array indices), ("op", .string "gep")]) = .ok result) :
    ∃ source base' native, result = .gep source base' native (inbounds == 1) false ∧
      lowerer.initializer .ptr base = .ok base' ∧
      List.Forall₂ (fun index constant => lowerer.indexInitializer index = .ok constant)
        indices native := by
  rw [Data.initializer_gep] at h
  obtain ⟨source, -, h⟩ := bind_ok.mp h
  obtain ⟨base', hbase, h⟩ := bind_ok.mp h
  obtain ⟨native, hnative, h⟩ := bind_ok.mp h
  obtain ⟨_, -, h⟩ := bind_ok.mp h
  obtain rfl := Except.ok.inj h
  exact ⟨source, base', native, rfl, hbase, mapM_ok.mp hnative⟩

/-- An integer at any place of an initializer comes back at that place. -/
theorem integerAt_roundTrip {width value : ℕ} (hpos : 1 ≤ width) (hwidth : width ≤ 128)
    (hvalue : value < 2 ^ width) :
    ∀ {path : Path} {type : LlvmType} {constant native : Constant} {raw result : Attr},
      IntegerAt path type constant width value → importer.initializer constant = .ok raw →
      specializeAttribute target true raw = .ok result →
      lowerer.initializer type result = .ok native → IntegerAt path type native width value
  | .here, type, constant, native, raw, result, hat, himport, hspecialize, hlower => by
    cases constant <;> simp only [IntegerAt] at hat
    obtain ⟨rfl, rfl, rfl⟩ := hat
    obtain rfl := Except.ok.inj himport
    rw [specializeAttribute_encodeInteger] at hspecialize
    obtain rfl := Except.ok.inj hspecialize
    rw [Data.initializer_integer, integerInitializer_encodeInteger hvalue] at hlower
    obtain rfl := Except.ok.inj hlower
    exact ⟨rfl, rfl, rfl⟩
  | .element i rest, type, constant, native, raw, result, hat, himport, hspecialize, hlower => by
    cases constant <;> simp only [IntegerAt] at hat
    obtain ⟨rfl, hcount, element, helement, hat⟩ := hat
    rw [LLVMImporter.initializer] at himport
    obtain ⟨_, hlimit, himport⟩ := bind_ok.mp himport
    obtain ⟨raws, hraws, himport⟩ := bind_ok.mp himport
    obtain rfl := Except.ok.inj himport
    have hraws := importElements_ok hraws
    obtain ⟨results, rfl, hresults⟩ := specializeAttribute_array_ok hspecialize
    have hlength : results.length = _ := hresults.length_eq.symm.trans hraws.length_eq.symm
    obtain ⟨natives, rfl, hnatives, hall⟩ := initializer_array_ok (by rw [hlength]; exact hcount)
      (by rw [hlength]; simpa using hlimit) hlower
    obtain ⟨rawElement, hrawElement, himport⟩ := forall₂_getElem? hraws helement
    obtain ⟨resultElement, hresultElement, hspecialize⟩ := forall₂_getElem? hresults hrawElement
    obtain ⟨nativeElement, hnativeElement, hlower⟩ := hall i resultElement hresultElement
    refine ⟨rfl, by rw [hnatives, hlength]; exact hcount, nativeElement, hnativeElement, ?_⟩
    exact integerAt_roundTrip hpos hwidth hvalue hat himport hspecialize hlower
  | .base rest, type, constant, native, raw, result, hat, himport, hspecialize, hlower => by
    obtain ⟨addressSpace, element, base, indices, inbounds, inRange, rfl, rfl, hinside⟩ := hat.base
    obtain ⟨element', base', indices', hbase, -, rfl⟩ := importGep_ok himport
    obtain ⟨base'', element'', indices'', hbase', -, rfl⟩ := specializeAttribute_gep_ok hspecialize
    obtain ⟨source, native, natives, rfl, hnative, -⟩ := initializer_gep_ok hlower
    have hat := integerAt_roundTrip hpos hwidth hvalue hinside hbase hbase' hnative
    exact hat
  | .index i, type, constant, native, raw, result, hat, himport, hspecialize, hlower => by
    obtain ⟨addressSpace, element, base, indices, inbounds, inRange, rfl, rfl, hinside⟩ := hat.index
    obtain ⟨element', base', indices', -, hindices, rfl⟩ := importGep_ok himport
    obtain ⟨base'', element'', indices'', -, hindices', rfl⟩ :=
      specializeAttribute_gep_ok hspecialize
    obtain ⟨source, native, natives, rfl, -, hnatives⟩ := initializer_gep_ok hlower
    obtain ⟨entry, hentry, indexType, raw, htype, hraw, rfl⟩ := forall₂_getElem? hindices hinside
    obtain ⟨entry', hentry', hspecialize⟩ := forall₂_getElem? hindices' hentry
    obtain ⟨native, hnative, hlower⟩ := forall₂_getElem? hnatives hentry'
    obtain ⟨himport, hspecializeType, hlowerType⟩ :=
      @type_int importer lowerer target width hpos hwidth
    obtain rfl : .integer width = indexType := Except.ok.inj (himport.symm.trans htype)
    obtain rfl := Except.ok.inj hraw
    obtain ⟨type', raw', htype', hraw', rfl⟩ := specializeAttribute_index_ok hspecialize
    obtain rfl : .integer width = type' := Except.ok.inj (hspecializeType.symm.trans htype')
    rw [specializeAttribute_encodeInteger] at hraw'
    obtain rfl := Except.ok.inj hraw'
    rw [indexInitializer_encodeInteger hlowerType hvalue] at hlower
    obtain rfl := Except.ok.inj hlower
    exact hnative

/-- The place is an index of an address. -/
def Path.isIndex : Path → Bool
  | .here => false
  | .element _ rest | .base rest => rest.isIndex
  | .index _ => true

/-- An index in an initializer that the schema admits has at most 64 bits. -/
theorem le_of_validateInitializer {width value : ℕ} :
    ∀ {path : Path} {levels : ℕ} {type : LlvmType} {constant : Constant} {raw result : Attr},
      IntegerAt path type constant width value → path.isIndex = true →
      importer.initializer constant = .ok raw → specializeAttribute target true raw = .ok result →
      validateInitializer levels result = .ok () → width ≤ 64
  | .here, _, _, _, _, _, _, hindex, _, _, _ => by simp [Path.isIndex] at hindex
  | _, 0, _, _, _, _, _, _, _, _, hadmitted => by simp [validateInitializer] at hadmitted
  | .element i rest, levels + 1, type, constant, raw, result, hat, hindex, himport, hspecialize,
      hadmitted => by
    cases constant <;> simp only [IntegerAt] at hat
    obtain ⟨rfl, -, element, helement, hat⟩ := hat
    rw [LLVMImporter.initializer] at himport
    obtain ⟨_, -, himport⟩ := bind_ok.mp himport
    obtain ⟨raws, hraws, himport⟩ := bind_ok.mp himport
    obtain rfl := Except.ok.inj himport
    obtain ⟨results, rfl, hresults⟩ := specializeAttribute_array_ok hspecialize
    obtain ⟨rawElement, hrawElement, himport⟩ := forall₂_getElem? (importElements_ok hraws) helement
    obtain ⟨resultElement, hresultElement, hspecialize⟩ := forall₂_getElem? hresults hrawElement
    exact le_of_validateInitializer hat hindex himport hspecialize
      ((Data.validateInitializer_array.mp hadmitted).2 _ (List.mem_of_getElem? hresultElement))
  | .base rest, levels + 1, type, constant, raw, result, hat, hindex, himport, hspecialize,
      hadmitted => by
    obtain ⟨addressSpace, element, base, indices, inbounds, inRange, rfl, rfl, hinside⟩ := hat.base
    obtain ⟨element', base', indices', hbase, -, rfl⟩ := importGep_ok himport
    obtain ⟨base'', element'', indices'', hbase', -, rfl⟩ := specializeAttribute_gep_ok hspecialize
    exact le_of_validateInitializer hinside hindex hbase hbase'
      (Data.validateInitializer_gep.mp hadmitted).1
  | .index i, levels + 1, type, constant, raw, result, hat, hindex, himport, hspecialize,
      hadmitted => by
    obtain ⟨addressSpace, element, base, indices, inbounds, inRange, rfl, rfl, hinside⟩ := hat.index
    obtain ⟨element', base', indices', -, hindices, rfl⟩ := importGep_ok himport
    obtain ⟨base'', element'', indices'', -, hindices', rfl⟩ :=
      specializeAttribute_gep_ok hspecialize
    obtain ⟨entry, hentry, indexType, raw, -, hraw, rfl⟩ := forall₂_getElem? hindices hinside
    obtain ⟨entry', hentry', hspecialize⟩ := forall₂_getElem? hindices' hentry
    obtain rfl := Except.ok.inj hraw
    obtain ⟨type', raw', -, hraw', rfl⟩ := specializeAttribute_index_ok hspecialize
    rw [specializeAttribute_encodeInteger] at hraw'
    obtain rfl := Except.ok.inj hraw'
    exact validateIndex_encodeInteger.mp
      ((Data.validateInitializer_gep.mp hadmitted).2 _ (List.mem_of_getElem? hentry'))

end Inside

/-! ## Switches -/

/-- A switch of the native module, with its cases in order. -/
structure NativeSwitch where
  width : ℕ
  condition : ℕ
  fallback : ℕ
  cases : List (ℕ × ℕ)
  deriving DecidableEq

/-- What the native verifier says of a switch. -/
structure NativeSwitch.Verified (native : NativeSwitch) : Prop where
  label : ∀ entry ∈ native.cases, entry.1 < 2 ^ native.width
  nodup : (native.cases.map Prod.fst).Nodup

/-- The successors of a switch, the one of no case first. -/
def NativeSwitch.successors (native : NativeSwitch) : List ℕ :=
  native.fallback :: native.cases.map Prod.snd

namespace LLVMImporter

/-- The label of a case. -/
def encodeLabel (width label : ℕ) : Attr := .integer 64 (sextOrTrunc width 64 label)

/-- The operation of a switch. `arguments` are the values that the switch hands to the phi
nodes of each block. -/
def switchOperation (importer : LLVMImporter) (arguments : ℕ → List Value)
    (native : NativeSwitch) : Checked Operation := do
  let type ← importer.type (.int native.width)
  let pieces := native.successors.map arguments
  pure {
    name := "sela.switch"
    attributes := [
      ("argument_counts", .denseI32 (pieces.map fun piece => (piece.length : ℤ))),
      ("cases", .array (native.cases.map fun entry => encodeLabel native.width entry.1))]
    operands := ⟨native.condition, type⟩ :: pieces.flatten
    results := []
    successors := native.successors }

end LLVMImporter

namespace Lowerer

/-- The blocks of the edges of an operation, each with the number of its arguments. `blocks`
are the types of the arguments of the blocks that can be branched to. -/
def edges (blocks : ℕ → Option (List SelaType)) :
    List (ℕ × ℤ) → List Value → Checked (List ℕ)
  | [], arguments => do
    ensure (arguments = []) "undeclared switch operands"
    pure []
  | (block, count) :: rest, arguments => do
    ensure (0 ≤ count ∧ count.toNat ≤ arguments.length) "invalid switch block argument counts"
    let types ← require (blocks block) "invalid branch target or block argument count"
    ensure (types.length = count.toNat) "invalid branch target or block argument count"
    ensure ((arguments.take count.toNat).map Value.type = types)
      "branch block argument type mismatch"
    let targets ← edges blocks rest (arguments.drop count.toNat)
    pure (block :: targets)

/-- Add cases to a switch that has the labels `unique` already. -/
def addCases (lowerer : Lowerer) (width : ℕ) (unique : List ℕ) :
    List (Attr × ℕ) → Checked (List (ℕ × ℕ))
  | [] => .ok []
  | (label, target) :: rest => do
    let number ← lowerer.expression label
    let value := number % 2 ^ width
    ensure (value ∉ unique) "duplicate switch case after native specialization"
    let cases ← addCases lowerer width (value :: unique) rest
    pure ((value, target) :: cases)

def switchOperation (lowerer : Lowerer) (blocks : ℕ → Option (List SelaType))
    (operation : Operation) : Checked NativeSwitch := do
  let cases ← require (getArray operation.attributes "cases") "invalid switch shape"
  let counts ← require ((Attributes.get operation.attributes "argument_counts").bind
    Attr.asDenseI32?) "invalid switch shape"
  ensure (operation.results = [] ∧ operation.successors.length = cases.length + 1 ∧
    counts.length = operation.successors.length) "invalid switch shape"
  match operation.operands with
  | [] => throw "invalid switch shape"
  | condition :: arguments => do
    match ← lowerer.type condition.type with
    | .scalar (.integer width) => do
      let targets ← edges blocks (operation.successors.zip counts) arguments
      match targets with
      | [] => throw "invalid switch shape"
      | fallback :: targets => do
        let cases ← lowerer.addCases width [] (cases.zip targets)
        pure ⟨width, condition.id, fallback, cases⟩
    | _ => throw "switch condition must be an integer"

end Lowerer

section Label

variable {width label : ℕ}

/-- The number a lowered label is. -/
def decodedLabel (width label : ℕ) : ℕ := sextOrTrunc width 64 label % 2 ^ width

theorem decodedLabel_of_le (hwidth : width ≤ 64) (h : label < 2 ^ width) :
    decodedLabel width label = label := by
  have hcut := sextOrTrunc_sextOrTrunc hwidth h
  rw [sextOrTrunc, BitVec.signExtend_eq_setWidth_of_le _ hwidth, BitVec.toNat_setWidth,
    BitVec.toNat_ofNat, Nat.mod_mod_of_dvd _ (Nat.pow_dvd_pow 2 hwidth)] at hcut
  exact hcut

theorem decodedLabel_of_lt (hwidth : 64 < width) (h : label < 2 ^ width) :
    decodedLabel width label = label % 2 ^ 64 := by
  rw [decodedLabel, sextOrTrunc, BitVec.signExtend_eq_setWidth_of_le _ hwidth.le,
    BitVec.toNat_setWidth, toNat_ofNat_of_lt h]
  apply Nat.mod_eq_of_lt
  exact (Nat.mod_lt _ (Nat.two_pow_pos 64)).trans (Nat.pow_lt_pow_right (by norm_num) hwidth)

/-- A label comes back when it is not cut. -/
theorem decodedLabel_eq_iff (h : label < 2 ^ width) :
    decodedLabel width label = label ↔ width ≤ 64 ∨ label < 2 ^ 64 := by
  rcases Nat.lt_or_ge 64 width with hwidth | hwidth
  · rw [decodedLabel_of_lt hwidth h, Nat.mod_eq_iff_lt (by norm_num)]
    constructor
    · exact Or.inr
    · rintro (hle | hlt)
      · omega
      · exact hlt
  · exact ⟨fun _ => Or.inl hwidth, fun _ => decodedLabel_of_le hwidth h⟩

end Label

section Switch

variable {importer : LLVMImporter} {lowerer : Lowerer} {native : NativeSwitch}
  {arguments : ℕ → List Value}

theorem expression_encodeLabel (width label : ℕ) :
    lowerer.expression (LLVMImporter.encodeLabel width label) =
      .ok (sextOrTrunc width 64 label) := by
  rw [Lowerer.expression, evaluateInteger, LLVMImporter.encodeLabel,
    selectAttribute_of_plain (by simp), ok_bind]
  rfl

/-- The edges of an imported switch lead to its successors. -/
theorem edges_arguments (arguments : ℕ → List Value) : ∀ blocks : List ℕ,
    Lowerer.edges (fun block => some ((arguments block).map Value.type))
      (blocks.zip ((blocks.map arguments).map fun piece => (piece.length : ℤ)))
      (blocks.map arguments).flatten = .ok blocks
  | [] => rfl
  | block :: blocks => by
    have htake : ((arguments block) ++ (blocks.map arguments).flatten).take
        (arguments block).length = arguments block := List.take_left
    have hdrop : ((arguments block) ++ (blocks.map arguments).flatten).drop
        (arguments block).length = (blocks.map arguments).flatten := List.drop_left
    have hrest := edges_arguments arguments blocks
    simp only [List.map_map] at hrest
    simp [Lowerer.edges, ensure, require, htake, hdrop, hrest]

/-- The cases that are added are the decoded labels with their targets. -/
theorem addCases_ok (width : ℕ) : ∀ {entries cases : List (ℕ × ℕ)} {unique : List ℕ},
    lowerer.addCases width unique
        (entries.map fun entry => (LLVMImporter.encodeLabel width entry.1, entry.2)) = .ok cases →
      cases = entries.map fun entry => (decodedLabel width entry.1, entry.2)
  | [], cases, unique, h => by
    obtain rfl := Except.ok.inj h
    rfl
  | entry :: entries, cases, unique, h => by
    rw [List.map_cons, Lowerer.addCases, expression_encodeLabel, ok_bind] at h
    obtain ⟨_, -, h⟩ := bind_ok.mp h
    obtain ⟨rest, hrest, h⟩ := bind_ok.mp h
    obtain rfl := Except.ok.inj h
    rw [addCases_ok width hrest]
    rfl

/-- Distinct labels that come back are all added. -/
theorem addCases_of (width : ℕ) : ∀ {entries : List (ℕ × ℕ)} {unique : List ℕ},
    (entries.map Prod.fst).Nodup → (∀ entry ∈ entries, entry.1 ∉ unique) →
    (∀ entry ∈ entries, decodedLabel width entry.1 = entry.1) →
      lowerer.addCases width unique
        (entries.map fun entry => (LLVMImporter.encodeLabel width entry.1, entry.2)) = .ok entries
  | [], _, _, _, _ => rfl
  | entry :: entries, unique, hnodup, hunique, hlabel => by
    rw [List.map_cons, List.nodup_cons] at hnodup
    have hfirst := hlabel entry (by simp)
    have hrest := @addCases_of width _ (entry.1 :: unique) hnodup.2
      (by
        intro other hother
        simp only [List.mem_cons, not_or]
        refine ⟨?_, hunique other (by simp [hother])⟩
        intro heq
        exact hnodup.1 (List.mem_map.mpr ⟨other, hother, heq⟩))
      (fun other hother => hlabel other (by simp [hother]))
    rw [List.map_cons, Lowerer.addCases, expression_encodeLabel, ok_bind]
    unfold decodedLabel at hfirst
    simp only [hfirst]
    rw [ensure, if_pos (hunique entry (by simp)), ok_bind, hrest]
    rfl

/-- The specialized operation of an imported switch is the imported one, when the values it
hands on are of concrete types. -/
theorem specializeOperation_switch {target : TargetInfo} {operation : Operation}
    (hpos : 1 ≤ native.width) (hwidth : native.width ≤ 128)
    (harguments : ∀ block, ∀ value ∈ arguments block,
      specializeType target value.type = .ok value.type)
    (h : importer.switchOperation arguments native = .ok operation) :
    specializeOperation target operation = .ok operation := by
  have himport : importer.type (.int native.width) = .ok (.integer native.width) :=
    if_pos ⟨hpos, hwidth⟩
  have hspecialize : specializeType target (.integer native.width) =
      .ok (.integer native.width) := by
    simp [specializeType]
  rw [LLVMImporter.switchOperation, himport] at h
  obtain rfl := Except.ok.inj h
  have hcases : specializeEntry target ("cases",
      .array (native.cases.map fun entry => LLVMImporter.encodeLabel native.width entry.1)) =
        .ok ("cases",
          .array (native.cases.map fun entry => LLVMImporter.encodeLabel native.width entry.1)) := by
    have hconcrete : (Attr.array (native.cases.map fun entry =>
        LLVMImporter.encodeLabel native.width entry.1)).Concrete target (numericName "cases") := by
      refine attrsConcrete_iff.mpr fun element helement => ?_
      obtain ⟨entry, -, rfl⟩ := List.mem_map.mp helement
      trivial
    rw [specializeEntry, if_neg (by simp), specializeAttribute_of_concrete hconcrete]
    rfl
  have hcounts : ∀ counts, specializeEntry target ("argument_counts", .denseI32 counts) =
      .ok ("argument_counts", .denseI32 counts) := by
    intro counts
    have hconcrete : (Attr.denseI32 counts).Concrete target (numericName "argument_counts") :=
      trivial
    rw [specializeEntry, if_neg (by simp), specializeAttribute_of_concrete hconcrete]
    rfl
  have hvalues : (native.successors.map arguments).flatten.mapM (specializeValue target) =
      .ok (native.successors.map arguments).flatten := by
    refine mapM_ok.mpr (List.forall₂_same.mpr fun value hvalue => ?_)
    obtain ⟨piece, hpiece, hvalue⟩ := List.mem_flatten.mp hvalue
    obtain ⟨block, -, rfl⟩ := List.mem_map.mp hpiece
    rw [specializeValue, harguments block value hvalue]
    rfl
  simp [specializeOperation, specializeAttributes, hcases, hcounts, hvalues, specializeValue,
    hspecialize]

/-- A switch comes back : its operation is imported with distinct labels, and the lowering
of the specialized operation is the switch, label by label and successor by successor. -/
def SwitchRoundTrips (importer : LLVMImporter) (lowerer : Lowerer) (arguments : ℕ → List Value)
    (native : NativeSwitch) : Prop :=
  ∃ operation operation' labels, importer.switchOperation arguments native = .ok operation ∧
    getArray operation.attributes "cases" = some labels ∧ labels.Nodup ∧
    specializeOperation lowerer.target operation = .ok operation' ∧
    lowerer.switchOperation (fun block => some ((arguments block).map Value.type)) operation' =
      .ok native

theorem imported_labels {operation : Operation}
    (h : importer.switchOperation arguments native = .ok operation) :
    getArray operation.attributes "cases" =
      some (native.cases.map fun entry => LLVMImporter.encodeLabel native.width entry.1) := by
  obtain ⟨type, -, h⟩ := bind_ok.mp h
  obtain rfl := Except.ok.inj h
  simp [getArray, Attributes.get_cons, Attr.asArray?]

/-- The number that the attribute of a label is lowered to. -/
def decodedAttr (width : ℕ) : Attr → ℕ
  | .integer _ value => value % 2 ^ width
  | _ => 0

/-- The lowering of an imported switch makes the cases it adds. -/
theorem switchOperation_lowered {operation : Operation} (hpos : 1 ≤ native.width)
    (hwidth : native.width ≤ 128)
    (h : importer.switchOperation arguments native = .ok operation) :
    lowerer.switchOperation (fun block => some ((arguments block).map Value.type)) operation =
      (do
        let cases ← lowerer.addCases native.width []
          (native.cases.map fun entry =>
            (LLVMImporter.encodeLabel native.width entry.1, entry.2))
        pure ⟨native.width, native.condition, native.fallback, cases⟩) := by
  obtain ⟨himport, -, hlower⟩ :=
    @type_int importer lowerer lowerer.target native.width hpos hwidth
  rw [LLVMImporter.switchOperation, himport] at h
  obtain rfl := Except.ok.inj h
  have hedges := edges_arguments arguments native.successors
  have hzip : (native.cases.map fun entry => LLVMImporter.encodeLabel native.width entry.1).zip
      (native.cases.map Prod.snd) =
        native.cases.map fun entry =>
          (LLVMImporter.encodeLabel native.width entry.1, entry.2) := List.zip_map' ..
  simp only [Lowerer.switchOperation, getArray, Attributes.get_cons, Attr.asArray?,
    Attr.asDenseI32?, require, reduceIte, String.reduceEq, Option.bind_some, ok_bind, hlower,
    hedges]
  rw [ensure, if_pos (by simp [NativeSwitch.successors]), ok_bind]
  simp only [NativeSwitch.successors, hzip]

/-- A switch comes back exactly when none of its labels is cut. -/
theorem switch_roundTrip_iff (hnative : native.Verified) (hpos : 1 ≤ native.width)
    (hwidth : native.width ≤ 128)
    (harguments : ∀ block, ∀ value ∈ arguments block,
      specializeType lowerer.target value.type = .ok value.type) :
    SwitchRoundTrips importer lowerer arguments native ↔
      native.width ≤ 64 ∨ ∀ entry ∈ native.cases, entry.1 < 2 ^ 64 := by
  have hlabels : (∀ entry ∈ native.cases, decodedLabel native.width entry.1 = entry.1) ↔
      native.width ≤ 64 ∨ ∀ entry ∈ native.cases, entry.1 < 2 ^ 64 := by
    constructor
    · intro h
      by_cases hle : native.width ≤ 64
      · exact Or.inl hle
      · refine Or.inr fun entry hentry => ?_
        have := (decodedLabel_eq_iff (hnative.label entry hentry)).mp (h entry hentry)
        omega
    · intro h entry hentry
      refine (decodedLabel_eq_iff (hnative.label entry hentry)).mpr ?_
      exact h.imp_right fun hall => hall entry hentry
  rw [← hlabels]
  constructor
  · rintro ⟨operation, operation', labels, himport, -, -, hspecialize, hlower⟩
    rw [specializeOperation_switch hpos hwidth harguments himport] at hspecialize
    obtain rfl := Except.ok.inj hspecialize
    rw [switchOperation_lowered hpos hwidth himport] at hlower
    obtain ⟨cases, hcases, hlower⟩ := bind_ok.mp hlower
    have hcases := addCases_ok native.width hcases
    have hkept : cases = native.cases := congrArg NativeSwitch.cases (Except.ok.inj hlower)
    have hmap : native.cases.map (fun entry => (decodedLabel native.width entry.1, entry.2)) =
        native.cases.map id := by rw [← hcases, hkept, List.map_id]
    intro entry hentry
    exact congrArg Prod.fst (List.map_inj_left.mp hmap entry hentry)
  · intro h
    have himport : importer.type (.int native.width) = .ok (.integer native.width) :=
      if_pos ⟨hpos, hwidth⟩
    obtain ⟨operation, hoperation⟩ :
        ∃ operation, importer.switchOperation arguments native = .ok operation := by
      rw [LLVMImporter.switchOperation, himport]
      exact ⟨_, rfl⟩
    refine ⟨operation, operation, _, hoperation, imported_labels hoperation, ?_,
      specializeOperation_switch hpos hwidth harguments hoperation, ?_⟩
    · refine List.Nodup.of_map (decodedAttr native.width) ?_
      have hdecoded : ((native.cases.map fun entry =>
          LLVMImporter.encodeLabel native.width entry.1).map (decodedAttr native.width)) =
            native.cases.map Prod.fst := by
        rw [List.map_map]
        exact List.map_congr_left h
      rw [hdecoded]
      exact hnative.nodup
    · rw [switchOperation_lowered hpos hwidth hoperation,
        addCases_of native.width hnative.nodup (by simp) h]
      rfl

end Switch

/-- Integers of every width up to 128 come back as operands, as initializers and at any place
of an initializer that is lowered. An index of an address comes back exactly when it has at
most 64 bits, and no initializer with a wider one is admitted. A switch comes back exactly when
none of its labels is cut. -/
theorem integers_roundTrip (importer : LLVMImporter) (lowerer : Lowerer) :
    (∀ width value, 1 ≤ width → width ≤ 128 → value < 2 ^ width →
      (∀ id, ∃ operation operation' type raw,
        importer.integerOperand id width value = .ok operation ∧
        specializeOperation lowerer.target operation = .ok operation' ∧
        operation'.results = [⟨id, type⟩] ∧
        Attributes.get operation'.attributes "value" = some raw ∧
        validateValue type raw = .ok () ∧
        lowerer.constantOperation operation' = .ok (.int width value)) ∧
      (∃ type raw result, importer.type (.int width) = .ok type ∧
        importer.initializer (.int width value) = .ok raw ∧
        specializeAttribute lowerer.target true raw = .ok result ∧
        validateValue type result = .ok () ∧
        lowerer.initializer (.int width) result = .ok (.int width value)) ∧
      (IndexRoundTrips importer lowerer width value ↔ width ≤ 64) ∧
      ∀ path type constant raw result, IntegerAt path type constant width value →
        importer.initializer constant = .ok raw →
        specializeAttribute lowerer.target true raw = .ok result →
        (∀ native, lowerer.initializer type result = .ok native →
          IntegerAt path type native width value) ∧
        (path.isIndex = true → 64 < width → validateInitializer 65 result ≠ .ok ())) ∧
    ∀ arguments native, native.Verified → 1 ≤ native.width → native.width ≤ 128 →
      (∀ block, ∀ value ∈ arguments block,
        specializeType lowerer.target value.type = .ok value.type) →
      (SwitchRoundTrips importer lowerer arguments native ↔
        native.width ≤ 64 ∨ ∀ entry ∈ native.cases, entry.1 < 2 ^ 64) := by
  constructor
  · intro width value hpos hwidth hvalue
    refine ⟨fun id => operand_roundTrip id hpos hwidth hvalue,
      initializer_roundTrip hpos hwidth hvalue, index_roundTrip_iff hpos hwidth hvalue, ?_⟩
    intro path type constant raw result hat himport hspecialize
    refine ⟨fun native => integerAt_roundTrip hpos hwidth hvalue hat himport hspecialize, ?_⟩
    intro hindex hwide hadmitted
    have hle := le_of_validateInitializer hat hindex himport hspecialize hadmitted
    omega
  · intro arguments native hnative hpos hwidth harguments
    exact switch_roundTrip_iff hnative hpos hwidth harguments

/-- An importer and a lowering of a module of the global `table` and no aggregates. -/
def sampleImporter : LLVMImporter :=
  ⟨fun name => if name = "table" then some "table" else none, fun _ => throw "no aggregates"⟩

def sampleLowerer : Lowerer :=
  ⟨⟨"x86_64", 64⟩, fun _ => none, fun name => if name = "table" then some "table" else none⟩

/-- The address of byte `index` of the table, the index an integer of `width` bits. -/
def indexedTable (width index : ℕ) : Constant :=
  .gep (.int 8) (.global "table") [.int width index] true false

theorem sampleIntegers_roundTrip :
    (∃ type raw result, sampleImporter.type (.int 128) = .ok type ∧
      sampleImporter.initializer (.int 128 (2 ^ 127 + 1)) = .ok raw ∧
      specializeAttribute sampleLowerer.target true raw = .ok result ∧
      validateValue type result = .ok () ∧
      sampleLowerer.initializer (.int 128) result = .ok (.int 128 (2 ^ 127 + 1))) ∧
    (IndexRoundTrips sampleImporter sampleLowerer 16 65535 ↔ 16 ≤ 64) ∧
    (∀ raw result, sampleImporter.initializer (indexedTable 65 5) = .ok raw →
      specializeAttribute sampleLowerer.target true raw = .ok result →
      validateInitializer 65 result ≠ .ok ()) ∧
    (SwitchRoundTrips sampleImporter sampleLowerer (fun _ => [])
        ⟨64, 0, 1, [(2 ^ 63, 2), (1, 3)]⟩ ↔
      64 ≤ 64 ∨ ∀ entry ∈ [(2 ^ 63, 2), (1, 3)], entry.1 < 2 ^ 64) :=
  ⟨((integers_roundTrip sampleImporter sampleLowerer).1 128 (2 ^ 127 + 1) (by decide) (by decide)
      (by decide)).2.1,
    ((integers_roundTrip sampleImporter sampleLowerer).1 16 65535 (by decide) (by decide)
      (by decide)).2.2.1,
    fun raw result himport hspecialize =>
      (((integers_roundTrip sampleImporter sampleLowerer).1 65 5 (by decide) (by decide)
        (by decide)).2.2.2 (.index 0) .ptr (indexedTable 65 5) raw result rfl himport
          hspecialize).2 rfl (by decide),
    (integers_roundTrip sampleImporter sampleLowerer).2 (fun _ => [])
      ⟨64, 0, 1, [(2 ^ 63, 2), (1, 3)]⟩ ⟨by decide, by decide⟩ (by decide) (by decide) (by simp)⟩

/-- A switch over 128 bits with two labels that agree in their low 64 bits. -/
def wideSwitch : NativeSwitch := ⟨128, 0, 1, [(0, 2), (2 ^ 64, 3)]⟩

/-- The two labels are cut to one, and the switch is rejected. -/
theorem wideSwitch_rejected :
    (∃ operation, sampleImporter.switchOperation (fun _ => []) wideSwitch = .ok operation ∧
      specializeOperation sampleLowerer.target operation = .ok operation ∧
      sampleLowerer.switchOperation (fun _ => some []) operation =
        .error "duplicate switch case after native specialization") ∧
    ¬SwitchRoundTrips sampleImporter sampleLowerer (fun _ => []) wideSwitch := by
  constructor
  · obtain ⟨operation, hoperation⟩ :
        ∃ operation, sampleImporter.switchOperation (fun _ => []) wideSwitch = .ok operation :=
      ⟨_, rfl⟩
    refine ⟨operation, hoperation,
      specializeOperation_switch (by decide) (by decide) (by simp) hoperation, ?_⟩
    exact (switchOperation_lowered (by decide) (by decide) hoperation).trans (by rfl)
  · rw [switch_roundTrip_iff ⟨by decide, by decide⟩ (by decide) (by decide) (by simp)]
    decide

end Sela
