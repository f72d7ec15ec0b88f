import Sela.DomainSpecialization
import Sela.LlvmType

/-!
# Initializers and constants

The value of a constant or of a global is an attribute : literals, arrays, arrays with a
count, address expressions and references to symbols. `Lowerer.initializer` makes the native
constant of one at its type, `validateInitializer` is the check of the schema before that.

`Data` is the grammar of these values and `Data.constant` their meaning, in which a reference
is the address of the definition it names. A specialized value keeps that meaning when it has
no reference to the symbol `pointer_bytes`, which is the spelling of a number too
(`symbols_survive_iff`).
-/

namespace Sela

open Checked

/-! ## Native constants -/

/-- A constant of the native module. A global is named by its definition. -/
inductive Constant
  | int (width value : ℕ)
  | float (format : FloatFormat) (bits : ℕ)
  | null (addressSpace : ℕ)
  | zero (type : LlvmType)
  | undef (type : LlvmType)
  | poison (type : LlvmType)
  | aggregate (type : LlvmType) (elements : List Constant)
  | gep (element : LlvmType) (base : Constant) (indices : List Constant) (inbounds inRange : Bool)
  | global (name : String)
  deriving Inhabited

namespace Constant

/-- The zero of a type. -/
def nullValue : LlvmType → Constant
  | .scalar (.integer width) => .int width 0
  | .scalar (.floating format) => .float format 0
  | .scalar (.pointer addressSpace) => .null addressSpace
  | type => .zero type

end Constant

/-- An integer of `source` bits in `width` bits, its sign kept. -/
def sextOrTrunc (source width value : ℕ) : ℕ := ((BitVec.ofNat source value).signExtend width).toNat

/-- An integer of `source` bits is one of `width` bits, signed or not. -/
def fitsWidth (source width value : ℕ) : Bool :=
  let signed := (BitVec.ofNat source value).toInt
  (-2 ^ (width - 1) ≤ signed && signed < 2 ^ (width - 1)) || value < 2 ^ width

/-! ## The check of the schema -/

def publicInteger (value : Option Attr) : Checked ℕ :=
  match value with
  | some (.integer width value) =>
    if width ≤ 64 then .ok value else throw "invalid specialized public integer expression"
  | some (.foreign (.number kind value)) =>
    if kind.width ≤ 64 then .ok value else throw "invalid specialized public integer expression"
  | _ => throw "invalid specialized public integer expression"

/-- A public integer is an integer of at most 64 bits. -/
theorem publicInteger_isOk_iff {value : Attr} : (∃ number, publicInteger (some value) = .ok number) ↔
    ∃ bits, value.integerBits? = some bits ∧ bits ≤ 64 := by
  have hbounded : ∀ bits number : ℕ, (∃ result, (if bits ≤ 64 then Except.ok number else
      .error "invalid specialized public integer expression" : Checked ℕ) = .ok result) ↔
        bits ≤ 64 := by
    intro bits number
    split <;> simp_all
  rcases value with _ | _ | _ | _ | _ | _ | _ | _ | (_ | _) <;>
    simp [publicInteger, Attr.integerBits?, hbounded]

/-- The most elements an array of data has. -/
def elementLimit : ℕ := 1024 * 1024

/-- A number or one of the texts that stand for a value. -/
def isLiteral : Attr → Bool
  | .integer _ _ | .foreign (.number _ _) => true
  | .float type _ => type == .f32 || type == .f64
  | .string text =>
    text == "zero" || text == "undef" || text == "poison" || text == "null" ||
      text == "pointer_bytes"
  | _ => false

/-- The array a name of a record holds. -/
def getArray (record : Attributes) (name : String) : Option (List Attr) :=
  (Attributes.get record name).bind Attr.asArray?

/-- The text a name of a record holds. -/
def getString (record : Attributes) (name : String) : Option String :=
  (Attributes.get record name).bind Attr.asString?

/-- The type a name of a record holds. -/
def getType (record : Attributes) (name : String) : Option SelaType :=
  (Attributes.get record name).bind Attr.asType?

/-- The boolean a name of a record holds. -/
def getBool (record : Attributes) (name : String) : Option Bool :=
  match Attributes.get record name with
  | some (.integer 1 value) => some (value == 1)
  | _ => none

/-- One index of a public address expression. -/
def validateIndex (index : Attr) : Checked Unit := do
  let entry ← require index.asDictionary? "invalid public address index record"
  ensure (entry.length = 2 ∧ (getType entry "type").isSome = true)
    "invalid public address index record"
  let _ ← publicInteger (Attributes.get entry "value")

/-- The check of an initializer, with the nesting left to it. -/
def validateInitializer : ℕ → Attr → Checked Unit
  | 0, _ => throw "invalid or excessively nested public initializer"
  | levels + 1, value =>
    if isLiteral value then .ok ()
    else match value with
    | .array elements => do
      ensure (elements.length ≤ elementLimit) "oversized public initializer inventory"
      elements.forM (validateInitializer levels)
    | .dictionary record =>
      if record.length = 1 ∧ (getString record "symbol").isSome = true then .ok ()
      else if record.length = 2 ∧ (getArray record "array").isSome = true ∧
          (Attributes.get record "count").isSome = true then
        match Attributes.get record "array" with
        | some elements => validateInitializer levels elements
        | none => throw "unknown public initializer expression"
      else if record.length = 5 ∧ getString record "op" = some "gep" ∧
          (getArray record "indices").isSome = true ∧ (getType record "element").isSome = true ∧
          (getBool record "inbounds").isSome = true then do
        match Attributes.get record "base" with
        | some base => validateInitializer levels base
        | none => throw "invalid or excessively nested public initializer"
        ((getArray record "indices").getD []).forM validateIndex
      else throw "unknown public initializer expression"
    | _ => throw "unknown public initializer expression"

/-- An integer fits the type of integers it is a value of. -/
def fitsType (type : SelaType) (value : Attr) : Bool :=
  match type.integerWidth?, value.integerBits?, value.number? with
  | some width, some source, some number => fitsWidth source width number
  | _, _, _ => true

/-- The check of an initializer against its type, with the nesting left to it. -/
def validateInitializerShape : ℕ → SelaType → Attr → Checked Unit
  | 0, _, _ => throw "public initializer shape nesting exceeds the qualified bound"
  | levels + 1, type, value => do
    ensure (fitsType type value) "integer initializer does not fit its public result type"
    match value with
    | .dictionary record =>
      match getArray record "array" with
      | some explicitElements =>
        match publicInteger (Attributes.get record "count") with
        | .error _ => throw "invalid public array initializer count"
        | .ok count =>
          match type with
          | .array element extent => do
            ensure (extent.number? = some count)
              "array initializer and storage extents disagree in a qualified target"
            explicitElements.forM (validateInitializerShape levels element)
          | _ => throw "array initializer and storage extents disagree in a qualified target"
      | none => pure ()
    | .array elements =>
      match type with
      | .array element extent => do
        ensure (extent.number? = some elements.length)
          "literal array initializer requires matching extents in both qualified targets"
        elements.forM (validateInitializerShape levels element)
      | .record _ _ fields => do
        ensure (elements.length = fields.length) "public record initializer field count mismatch"
        (fields.zip elements).forM fun (field, element) =>
          validateInitializerShape levels field element
      | .vector shape _ element => do
        ensure (elements.length = shape.prod) "vector initializer lane count mismatch"
        elements.forM (validateInitializerShape levels element)
      -- the carrier of an overlap is one field, whose type the schema does not know
      | .overlap _ _ _ =>
        ensure (elements.length = 1) "aggregate initializer does not match a public storage type"
      | _ => throw "aggregate initializer does not match a public storage type"
    | _ => pure ()

/-- The checks of a constant value or an initializer of a type. -/
def validateValue (type : SelaType) (value : Attr) : Checked Unit := do
  validateInitializer 65 value
  validateInitializerShape 65 type value

/-! ## Lowering -/

/-- What the lowering of a module for a target knows : the native types of the aggregates it
has met, and the definitions by their symbols. -/
structure Lowerer where
  target : TargetInfo
  aggregates : SelaType → Option LlvmType
  symbols : String → Option String

namespace Lowerer

variable (lowerer : Lowerer)

def type (input : SelaType) : Checked LlvmType :=
  match input with
  | .ptr => .ok .ptr
  | .word => .ok (.int lowerer.target.wordBits)
  | .f32 => .ok .floatTy
  | .f64 => .ok .doubleTy
  | .integer width =>
    if 1 ≤ width ∧ width ≤ 128 then .ok (.int width)
    else throw "artifact contains an unsupported type"
  | input => require (lowerer.aggregates input) "artifact contains an unsupported type"

/-- The number a value stands for. -/
def expression (value : Attr) : Checked ℕ := evaluateInteger value lowerer.target

/-- The texts that are a value of every type, and the null of a pointer. -/
def literalText (expected : LlvmType) (value : Attr) : Option Constant :=
  match value with
  | .string "zero" => some (.nullValue expected)
  | .string "undef" => some (.undef expected)
  | .string "poison" => some (.poison expected)
  | .string "null" =>
    match expected with
    | .scalar (.pointer addressSpace) => some (.null addressSpace)
    | _ => none
  | _ => none

/-- An integer of a width. -/
def integerInitializer (width : ℕ) (value : Attr) : Checked Constant :=
  match literalText (.int width) value with
  | some constant => .ok constant
  | none =>
    match value with
    | .integer source number =>
      if fitsWidth source width number then .ok (.int width (sextOrTrunc source width number))
      else throw "integer initializer does not fit its native type"
    | .foreign (.number source number) =>
      if fitsWidth source.width width number then
        .ok (.int width (sextOrTrunc source.width width number))
      else throw "integer initializer does not fit its native type"
    | value => do
      let number ← lowerer.expression value
      pure (.int width (number % 2 ^ width))

/-- A number of a format. -/
def floatInitializer (format : FloatFormat) (value : Attr) : Checked Constant :=
  match value with
  | .float type bits => do
    let native ← lowerer.type type
    ensure (native = .scalar (.floating format)) "invalid floating initializer"
    pure (.float format bits)
  | _ => throw "invalid floating initializer"

/-- The elements of an aggregate type. -/
def elementCount : LlvmType → Option ℕ
  | .array _ count => some count
  | .struct _ _ fields => some fields.length
  | .vector _ count => some count
  | _ => none

/-- The type of an element of an aggregate type. -/
def elementType (expected : LlvmType) (i : ℕ) : LlvmType :=
  match expected with
  | .array element _ => element
  | .struct _ _ fields => fields.getD i .void
  | .vector element _ => .scalar element
  | type => type

/-- One index of an address expression. -/
def indexInitializer (entry : Attr) : Checked Constant := do
  let record ← require entry.asDictionary? "invalid constant address index"
  let kind ← require (getType record "type") "invalid constant address index"
  let indexType ← lowerer.type kind
  match indexType, Attributes.get record "value" with
  | .scalar (.integer width), some value => do
    ensure (record.length = 2) "invalid constant address index"
    match ← lowerer.integerInitializer width value with
    | .int width number => pure (.int width number)
    | _ => throw "address index is not a defined integer constant"
  | _, _ => throw "invalid constant address index"

/-- The type an index path leads to. The first index steps over whole objects. -/
def indexedType : LlvmType → List Constant → Option LlvmType
  | type, [] => some type
  | .array element _, _ :: rest => indexedType element rest
  | .vector element _, _ :: rest => indexedType (.scalar element) rest
  | .struct _ _ fields, .int 32 i :: rest =>
    match fields[i]? with
    | some field => indexedType field rest
    | none => none
  | _, _ => none

theorem sizeOf_getArray {record : Attributes} {name : String} {elements : List Attr}
    (h : getArray record name = some elements) : sizeOf elements < sizeOf record := by
  obtain ⟨value, hvalue, helements⟩ := Option.bind_eq_some_iff.mp h
  obtain rfl : value = .array elements := by simpa using helements
  have := sizeOf_get_le hvalue
  simp at this
  omega

mutual

/-- The native constant of a value at its type. -/
def initializer (expected : LlvmType) (value : Attr) : Checked Constant :=
  match literalText expected value with
  | some constant => .ok constant
  | none =>
    match expected with
    | .scalar (.integer width) => lowerer.integerInitializer width value
    | .scalar (.floating format) => lowerer.floatInitializer format value
    | expected =>
      match value with
      | .dictionary reference =>
        match _h : getArray reference "array" with
        | some array => do
          let count ← require (Attributes.get reference "count")
            "invalid native-index-domain array initializer"
          let selected ← lowerer.expression count
          match expected with
          | .array _ extent => do
            ensure (reference.length = 2 ∧ selected = extent ∧ selected = array.length ∧
              array.length ≤ elementLimit) "invalid native-index-domain array initializer"
            let elements ← initializers (elementType expected) array
            pure (.aggregate expected elements)
          | _ => throw "invalid native-index-domain array initializer"
        | none =>
          match getString reference "op" with
          | some opcode =>
            match getType reference "element", getArray reference "indices",
              getBool reference "inbounds", _hbase : Attributes.get reference "base", expected with
            | some element, some indices, some inbounds, some base, .scalar (.pointer _) => do
              ensure (opcode = "gep" ∧ reference.length = 5) "invalid constant address expression"
              let sourceType ← lowerer.type element
              let base ← initializer .ptr base
              let nativeIndices ← indices.mapM lowerer.indexInitializer
              ensure (nativeIndices ≠ [] ∧
                  (indexedType sourceType (nativeIndices.drop 1)).isSome = true)
                "invalid constant address index path"
              pure (.gep sourceType base nativeIndices inbounds false)
            | _, _, _, _, _ => throw "invalid constant address expression"
          | none =>
            match (getString reference "symbol").bind lowerer.symbols, expected with
            | some found, .scalar (.pointer _) => do
              ensure (reference.length = 1) "invalid initializer symbol reference"
              pure (.global found)
            | _, _ => throw "invalid initializer symbol reference"
      | .array elements => do
        ensure (elementCount expected = some elements.length ∧ elements.length ≤ elementLimit)
          "aggregate initializer extent mismatch"
        let native ← initializers (elementType expected) elements
        pure (.aggregate expected native)
      | _ => throw "unsupported typed global initializer"
termination_by sizeOf value
decreasing_by
  · have := sizeOf_getArray _h
    simp
    omega
  · have := sizeOf_get_le _hbase
    simp
    omega
  · simp

/-- The native constants of values at their types. -/
def initializers (types : ℕ → LlvmType) (values : List Attr) : Checked (List Constant) :=
  match values with
  | [] => .ok []
  | value :: values => do
    let constant ← initializer (types 0) value
    let constants ← initializers (fun i => types (i + 1)) values
    pure (constant :: constants)
termination_by sizeOf values
decreasing_by
  · simp
    omega
  · simp

end

end Lowerer

/-! ## The grammar of values -/

/-- The texts that stand for a value. -/
inductive DataText
  | zero
  | undef
  | poison
  | null
  deriving DecidableEq

def DataText.text : DataText → String
  | .zero => "zero"
  | .undef => "undef"
  | .poison => "poison"
  | .null => "null"

/-- An initializer or a constant value : literals, the size of a pointer, arrays, arrays with
a count, address expressions and references to symbols. -/
inductive Data
  | integer (width value : ℕ)
  | float (type : SelaType) (bits : ℕ)
  | text (value : DataText)
  | pointerBytes
  | array (elements : List Data)
  | counted (elements : List Data) (count : Attr)
  | gep (base : Data) (element : SelaType) (indices : List (SelaType × Attr)) (inbounds : Bool)
  | symbol (name : String)

namespace Data

/-- One index of an address expression. -/
def index (entry : SelaType × Attr) : Attr :=
  .dictionary [("type", .type entry.1), ("value", entry.2)]

mutual

/-- The attribute of a value, when `name` is the attribute of a symbol's name. -/
def encode (name : String → Attr) : Data → Attr
  | .integer width value => .integer width value
  | .float type bits => .float type bits
  | .text value => .string value.text
  | .pointerBytes => .string "pointer_bytes"
  | .array elements => .array (encodeAll name elements)
  | .counted elements count =>
    .dictionary [("array", .array (encodeAll name elements)), ("count", count)]
  | .gep base element indices inbounds =>
    .dictionary [("base", encode name base), ("element", .type element),
      ("inbounds", .integer 1 inbounds.toNat), ("indices", .array (indices.map index)),
      ("op", .string "gep")]
  | .symbol other => .dictionary [("symbol", name other)]

def encodeAll (name : String → Attr) : List Data → List Attr
  | [] => []
  | value :: values => encode name value :: encodeAll name values

end

theorem encodeAll_eq (name : String → Attr) :
    ∀ values : List Data, encodeAll name values = values.map (encode name)
  | [] => rfl
  | value :: values => by rw [encodeAll, encodeAll_eq, List.map_cons]

/-- The attribute of a value. -/
def attr (value : Data) : Attr := value.encode Attr.string

mutual

/-- The symbols a value refers to. -/
def references : Data → List String
  | .array elements => referencesAll elements
  | .counted elements _ => referencesAll elements
  | .gep base _ _ _ => references base
  | .symbol name => [name]
  | _ => []

def referencesAll : List Data → List String
  | [] => []
  | value :: values => references value ++ referencesAll values

end

/-- One index of an address expression, as a target sees it. -/
def resolveIndex (target : TargetInfo) (entry : SelaType × Attr) : Checked (SelaType × Attr) := do
  let type ← specializeType target entry.1
  let value ← specializeAttribute target true entry.2
  pure (type, value)

mutual

/-- The value a target has : its data and its numbers, and every reference as it is. -/
def resolve (target : TargetInfo) : Data → Checked Data
  | .integer width value => .ok (.integer width value)
  | .float type bits => .ok (.float type bits)
  | .text value => .ok (.text value)
  | .pointerBytes => .ok (.integer 64 (target.wordBits / 8))
  | .array elements => do
    let elements ← resolveAll target elements
    pure (.array elements)
  | .counted elements count => do
    let elements ← resolveAll target elements
    let count ← specializeAttribute target true count
    let extent ← evaluateInteger count target
    ensure (extent ≤ elements.length) "initializer count exceeds represented data"
    pure (.counted (elements.take extent) count)
  | .gep base element indices inbounds => do
    let base ← resolve target base
    let element ← specializeType target element
    let indices ← indices.mapM (resolveIndex target)
    pure (.gep base element indices inbounds)
  | .symbol name => .ok (.symbol name)

def resolveAll (target : TargetInfo) : List Data → Checked (List Data)
  | [] => .ok []
  | value :: values => do
    let value ← resolve target value
    let values ← resolveAll target values
    pure (value :: values)

end

/-! ## Specialization of values -/

/-- What a target makes of the name of a symbol : the name, unless it is the spelling of a
number. -/
def specializedName (target : TargetInfo) (name : String) : Attr :=
  if name = "pointer_bytes" then .integer 64 (target.wordBits / 8) else .string name

section Specialize

variable {target : TargetInfo}

theorem specializeAttribute_entries {entries : Attributes}
    (hplain : Attributes.get entries "target_cases" = none) :
    specializeAttribute target true (.dictionary entries) = (do
      let values ← entries.mapM fun entry => do
        let value ← specializeAttribute target true entry.2
        pure (entry.1, value)
      clipArray target values) := by
  rw [specializeAttribute_eq, selectAttribute_of_plain (by simpa using hplain), ok_bind]
  simp only [Bool.true_or]

theorem specializeAttribute_elements (elements : List Attr) :
    specializeAttribute target true (.array elements) = (do
      let values ← elements.mapM fun entry => specializeAttribute target true entry
      pure (.array values)) := by
  rw [specializeAttribute_eq, selectAttribute_of_plain (by simp), ok_bind]

theorem specializeAttribute_string (text : String) :
    specializeAttribute target true (.string text) = .ok (specializedName target text) := by
  rw [specializeAttribute_eq, selectAttribute_of_plain (by simp), ok_bind]
  simp only [Bool.true_and, beq_iff_eq, specializedName]
  split <;> rfl

theorem specializeAttribute_type (type : SelaType) :
    specializeAttribute target true (.type type) = (do
      let type ← specializeType target type
      pure (.type type)) := by
  rw [specializeAttribute_eq, selectAttribute_of_plain (by simp), ok_bind]

theorem specializeAttribute_integer (width value : ℕ) :
    specializeAttribute target true (.integer width value) = .ok (.integer width value) := by
  rw [specializeAttribute_eq, selectAttribute_of_plain (by simp), ok_bind]
  rfl

theorem specializeAttribute_float (type : SelaType) (bits : ℕ) :
    specializeAttribute target true (.float type bits) = .ok (.float type bits) := by
  rw [specializeAttribute_eq, selectAttribute_of_plain (by simp), ok_bind]
  rfl

/-- A resolved index is the specialized one. -/
theorem specializeAttribute_index {entry entry' : SelaType × Attr}
    (h : resolveIndex target entry = .ok entry') :
    specializeAttribute target true (index entry) = .ok (index entry') := by
  obtain ⟨type, htype, h⟩ := bind_ok.mp h
  obtain ⟨value, hvalue, h⟩ := bind_ok.mp h
  obtain rfl := Except.ok.inj h
  rw [index, specializeAttribute_entries (by simp [Attributes.get_cons])]
  simp [specializeAttribute_type, htype, hvalue, clipArray, Attributes.get_cons, index]

theorem specializeAttribute_indices {entries entries' : List (SelaType × Attr)}
    (h : entries.mapM (resolveIndex target) = .ok entries') :
    (entries.map index).mapM (fun entry => specializeAttribute target true entry) =
      .ok (entries'.map index) := by
  rw [mapM_ok, List.forall₂_map_left_iff, List.forall₂_map_right_iff]
  exact (mapM_ok.mp h).imp fun _ _ hentry => specializeAttribute_index hentry

mutual

/-- The specialized value is the resolved one, the names that spell a number apart. -/
theorem specializeAttribute_encode : ∀ {value value' : Data}, value.resolve target = .ok value' →
    specializeAttribute target true value.attr = .ok (value'.encode (specializedName target))
  | .integer width number, value', h => by
    obtain rfl := Except.ok.inj h
    exact specializeAttribute_integer width number
  | .float type bits, value', h => by
    obtain rfl := Except.ok.inj h
    exact specializeAttribute_float type bits
  | .text word, value', h => by
    obtain rfl := Except.ok.inj h
    rw [attr, encode, specializeAttribute_string]
    cases word <;> rfl
  | .pointerBytes, value', h => by
    obtain rfl := Except.ok.inj h
    exact specializeAttribute_string "pointer_bytes"
  | .array elements, value', h => by
    obtain ⟨elements', helements, h⟩ := bind_ok.mp h
    obtain rfl := Except.ok.inj h
    rw [attr, encode, specializeAttribute_elements, specializeAttribute_encodeAll helements]
    rfl
  | .counted elements count, value', h => by
    obtain ⟨elements', helements, h⟩ := bind_ok.mp h
    obtain ⟨count', hcount, h⟩ := bind_ok.mp h
    obtain ⟨extent, hextent, h⟩ := bind_ok.mp h
    obtain ⟨_, hle, h⟩ := bind_ok.mp h
    obtain rfl := Except.ok.inj h
    have hle : ¬elements'.length < extent := by simpa using hle
    rw [attr, encode, specializeAttribute_entries (by simp [Attributes.get_cons])]
    have hall := specializeAttribute_encodeAll helements
    simp only [encodeAll_eq, List.mapM_map] at hall
    simp [specializeAttribute_elements, encodeAll_eq, hall, hcount, clipArray,
      Attributes.get_cons, Attr.asArray?, hextent, hle, Attributes.set, encode, List.map_take]
  | .gep base element indices inbounds, value', h => by
    obtain ⟨base', hbase, h⟩ := bind_ok.mp h
    obtain ⟨element', helement, h⟩ := bind_ok.mp h
    obtain ⟨indices', hindices, h⟩ := bind_ok.mp h
    obtain rfl := Except.ok.inj h
    have hbase := specializeAttribute_encode hbase
    rw [attr] at hbase
    rw [attr, encode, specializeAttribute_entries (by simp [Attributes.get_cons])]
    simp [hbase, specializeAttribute_type, helement, specializeAttribute_integer,
      specializeAttribute_elements, specializeAttribute_indices hindices,
      specializeAttribute_string, specializedName, clipArray, Attributes.get_cons, encode]
  | .symbol name, value', h => by
    obtain rfl := Except.ok.inj h
    rw [attr, encode, specializeAttribute_entries (by simp [Attributes.get_cons])]
    simp [specializeAttribute_string, clipArray, Attributes.get_cons, encode]

theorem specializeAttribute_encodeAll : ∀ {values values' : List Data},
    resolveAll target values = .ok values' →
      (encodeAll Attr.string values).mapM (fun entry => specializeAttribute target true entry) =
        .ok (encodeAll (specializedName target) values')
  | [], values', h => by
    obtain rfl := Except.ok.inj h
    rfl
  | value :: values, values', h => by
    obtain ⟨first, hfirst, h⟩ := bind_ok.mp h
    obtain ⟨rest, hrest, h⟩ := bind_ok.mp h
    obtain rfl := Except.ok.inj h
    have hfirst := specializeAttribute_encode hfirst
    rw [attr] at hfirst
    rw [encodeAll, mapM_cons, hfirst, specializeAttribute_encodeAll hrest]
    rfl

end

end Specialize

mutual

/-- Encodings agree where they agree on the names of the references. -/
theorem encode_inj {f g : String → Attr} : ∀ {value : Data},
    value.encode f = value.encode g ↔ ∀ name ∈ value.references, f name = g name
  | .integer _ _ | .float _ _ | .text _ | .pointerBytes => by simp [encode, references]
  | .array elements => by simp [encode, references, encodeAll_inj]
  | .counted elements count => by simp [encode, references, encodeAll_inj]
  | .gep base element indices inbounds => by simp [encode, references, @encode_inj f g base]
  | .symbol name => by simp [encode, references]

theorem encodeAll_inj {f g : String → Attr} : ∀ {values : List Data},
    encodeAll f values = encodeAll g values ↔ ∀ name ∈ referencesAll values, f name = g name
  | [] => by simp [encodeAll, referencesAll]
  | value :: values => by
    simp [encodeAll, referencesAll, @encode_inj f g value, @encodeAll_inj f g values,
      or_imp, forall_and]

end

/-- A specialized value keeps its references when none is to the symbol whose name spells a
number. -/
theorem encode_specializedName {target : TargetInfo} {value : Data} :
    value.encode (specializedName target) = value.attr ↔ "pointer_bytes" ∉ value.references := by
  rw [attr, encode_inj]
  constructor
  · intro h hmem
    simpa [specializedName] using h _ hmem
  · intro h name hname
    rw [specializedName, if_neg]
    rintro rfl
    exact h hname

/-! ## Values the schema admits -/

mutual

/-- The value is within the bounds of the schema, with the nesting left to it. -/
def Bounded : Data → ℕ → Prop
  | _, 0 => False
  | .float type _, _ + 1 => type = .f32 ∨ type = .f64
  | .array elements, levels + 1 => elements.length ≤ elementLimit ∧ BoundedAll elements levels
  | .counted _ _, 1 => False
  | .counted elements _, levels + 2 =>
    elements.length ≤ elementLimit ∧ BoundedAll elements levels
  | .gep base _ indices _, levels + 1 =>
    Bounded base levels ∧ ∀ entry ∈ indices, ∃ bits, entry.2.integerBits? = some bits ∧ bits ≤ 64
  | _, _ + 1 => True

def BoundedAll : List Data → ℕ → Prop
  | [], _ => True
  | value :: values, levels => Bounded value levels ∧ BoundedAll values levels

end

/-- The schema admits exactly the indices of at most 64 bits. -/
theorem validateIndex_index {entry : SelaType × Attr} :
    validateIndex (index entry) = .ok () ↔ ∃ bits, entry.2.integerBits? = some bits ∧ bits ≤ 64 := by
  rw [← publicInteger_isOk_iff]
  simp only [validateIndex, index, Attr.asDictionary?, require, ensure, getType, Attributes.get_cons,
    Attr.asType?, reduceIte, String.reduceEq, Option.bind_some, Option.isSome_some, List.length_cons,
    List.length_nil, and_self, ok_bind]
  cases publicInteger (some entry.2) with
  | ok number => simp
  | error text => simp

theorem validateInitializer_array {levels : ℕ} {elements : List Attr} :
    validateInitializer (levels + 1) (.array elements) = .ok () ↔
      elements.length ≤ elementLimit ∧ ∀ element ∈ elements,
        validateInitializer levels element = .ok () := by
  simp only [validateInitializer, isLiteral, Bool.false_eq_true, if_false]
  constructor
  · intro h
    obtain ⟨_, hlength, hall⟩ := bind_ok.mp h
    exact ⟨ensure_ok.mp hlength, forM_ok.mp hall⟩
  · rintro ⟨hlength, hall⟩
    exact bind_ok.mpr ⟨(), ensure_ok.mpr hlength, forM_ok.mpr hall⟩

theorem length_encodeAll (name : String → Attr) (values : List Data) :
    (encodeAll name values).length = values.length := by
  rw [encodeAll_eq, List.length_map]

theorem validateInitializer_gep {levels inbounds : ℕ} {base : Attr} {element : SelaType}
    {indices : List Attr} :
    validateInitializer (levels + 1) (.dictionary [("base", base), ("element", .type element),
      ("inbounds", .integer 1 inbounds), ("indices", .array indices), ("op", .string "gep")]) =
        .ok () ↔
      validateInitializer levels base = .ok () ∧
        ∀ index ∈ indices, validateIndex index = .ok () := by
  have hsteps : validateInitializer (levels + 1) (.dictionary [("base", base),
      ("element", .type element), ("inbounds", .integer 1 inbounds), ("indices", .array indices),
      ("op", .string "gep")]) = (do
        validateInitializer levels base
        indices.forM validateIndex) := by
    simp [validateInitializer, isLiteral, getString, getArray, getType, getBool,
      Attributes.get_cons, Attr.asArray?, Attr.asString?, Attr.asType?]
  rw [hsteps]
  constructor
  · intro h
    obtain ⟨_, hbase, hall⟩ := bind_ok.mp h
    exact ⟨hbase, forM_ok.mp hall⟩
  · rintro ⟨hbase, hall⟩
    exact bind_ok.mpr ⟨(), hbase, forM_ok.mpr hall⟩

mutual

/-- The schema admits exactly the values within its bounds. -/
theorem validateInitializer_attr : ∀ {value : Data} {levels : ℕ},
    validateInitializer levels value.attr = .ok () ↔ value.Bounded levels
  | value, 0 => by simp [validateInitializer, Bounded]
  | .integer _ _, levels + 1 => by simp [attr, encode, validateInitializer, isLiteral, Bounded]
  | .float type _, levels + 1 => by
    simp [attr, encode, validateInitializer, isLiteral, Bounded, imp_iff_not_or]
  | .text word, levels + 1 => by
    cases word <;> simp [attr, encode, validateInitializer, isLiteral, Bounded, DataText.text]
  | .pointerBytes, levels + 1 => by simp [attr, encode, validateInitializer, isLiteral, Bounded]
  | .array elements, levels + 1 => by
    rw [attr, encode, validateInitializer_array, validateInitializer_all, length_encodeAll, Bounded]
  | .counted elements count, levels + 1 => by
    have harray : validateInitializer levels (.array (encodeAll Attr.string elements)) = .ok () ↔
        (counted elements count).Bounded (levels + 1) := by
      cases levels with
      | zero => simp [validateInitializer, Bounded]
      | succ levels =>
        rw [validateInitializer_array, validateInitializer_all, length_encodeAll, Bounded]
    rw [← harray]
    simp [attr, encode, validateInitializer, isLiteral, getString, getArray, Attributes.get_cons,
      Attr.asArray?]
  | .gep base element indices inbounds, levels + 1 => by
    have hbase := @validateInitializer_attr base levels
    rw [attr] at hbase
    rw [attr, encode, validateInitializer_gep, hbase, Bounded, List.forall_mem_map]
    exact and_congr_right fun _ => forall₂_congr fun entry _ => validateIndex_index
  | .symbol name, levels + 1 => by
    simp [attr, encode, validateInitializer, isLiteral, getString, Attributes.get_cons,
      Attr.asString?, Bounded]

theorem validateInitializer_all : ∀ {values : List Data} {levels : ℕ},
    (∀ element ∈ encodeAll Attr.string values, validateInitializer levels element = .ok ()) ↔
      BoundedAll values levels
  | [], _ => by simp [encodeAll, BoundedAll]
  | value :: values, levels => by
    have hvalue := @validateInitializer_attr value levels
    rw [encodeAll, List.forall_mem_cons, BoundedAll, validateInitializer_all, ← hvalue, attr]

end

/-! ## What a value means -/

section Constant

variable (lowerer : Lowerer)

mutual

/-- The native constant a value of the type means. A reference is the address of its
definition. -/
def constant (expected : LlvmType) : Data → Option Constant
  | .integer source value =>
    match expected with
    | .scalar (.integer width) =>
      if fitsWidth source width value then some (.int width (sextOrTrunc source width value))
      else none
    | _ => none
  | .float type bits =>
    match expected with
    | .scalar (.floating format) =>
      if lowerer.type type = .ok (.scalar (.floating format)) then some (.float format bits)
      else none
    | _ => none
  | .text value => Lowerer.literalText expected (.string value.text)
  | .pointerBytes =>
    match expected with
    | .scalar (.integer width) => some (.int width (lowerer.target.wordBits / 8 % 2 ^ width))
    | _ => none
  | .array elements =>
    if Lowerer.elementCount expected = some elements.length ∧ elements.length ≤ elementLimit then
      (constants (Lowerer.elementType expected) elements).map (.aggregate expected)
    else none
  | .counted elements count =>
    match expected with
    | .array _ extent =>
      if lowerer.expression count = .ok extent ∧ extent = elements.length ∧
          elements.length ≤ elementLimit then
        (constants (Lowerer.elementType expected) elements).map (.aggregate expected)
      else none
    | _ => none
  | .gep base element indices inbounds =>
    match expected, lowerer.type element, constant .ptr base,
      (indices.map index).mapM lowerer.indexInitializer with
    | .scalar (.pointer _), .ok source, some base, .ok native =>
      if native ≠ [] ∧ (Lowerer.indexedType source (native.drop 1)).isSome = true then
        some (.gep source base native inbounds false)
      else none
    | _, _, _, _ => none
  | .symbol name =>
    match expected with
    | .scalar (.pointer _) => (lowerer.symbols name).map .global
    | _ => none

def constants (types : ℕ → LlvmType) : List Data → Option (List Constant)
  | [] => some []
  | value :: values => do
    let first ← constant (types 0) value
    let rest ← constants (fun i => types (i + 1)) values
    some (first :: rest)

end

variable {lowerer : Lowerer}

theorem literalText_of_ne {expected : LlvmType} {value : Attr}
    (h : ∀ text, value ≠ .string text) : Lowerer.literalText expected value = none := by
  cases value <;> first | rfl | exact absurd rfl (h _)

theorem initializer_integer (width : ℕ) (value : Attr) :
    lowerer.initializer (.int width) value = lowerer.integerInitializer width value := by
  rw [Lowerer.initializer.eq_def]
  cases h : Lowerer.literalText (.int width) value with
  | none => rfl
  | some constant => simp [Lowerer.integerInitializer, h]

theorem initializer_floating (format : FloatFormat) {value : Attr}
    (h : Lowerer.literalText (.scalar (.floating format)) value = none) :
    lowerer.initializer (.scalar (.floating format)) value =
      lowerer.floatInitializer format value := by
  rw [Lowerer.initializer.eq_def, h]

theorem initializer_literal {expected : LlvmType} {value : Attr} {result : Constant}
    (h : Lowerer.literalText expected value = some result) :
    lowerer.initializer expected value = .ok result := by
  rw [Lowerer.initializer.eq_def, h]

theorem initializer_elements {expected : LlvmType} {elements : List Attr}
    (hcount : Lowerer.elementCount expected = some elements.length)
    (hlimit : elements.length ≤ elementLimit) :
    lowerer.initializer expected (.array elements) = (do
      let native ← lowerer.initializers (Lowerer.elementType expected) elements
      pure (.aggregate expected native)) := by
  rw [Lowerer.initializer.eq_def, literalText_of_ne (by simp)]
  cases expected with
  | vector _ _ => simp [hcount, hlimit, ensure]
  | array _ _ => simp [hcount, hlimit, ensure]
  | struct _ _ _ => simp [hcount, hlimit, ensure]
  | void => simp [Lowerer.elementCount] at hcount
  | scalar _ => simp [Lowerer.elementCount] at hcount
  | unsized _ => simp [Lowerer.elementCount] at hcount

theorem initializer_counted {element : LlvmType} {extent : ℕ} {reference : Attributes}
    {array : List Attr} {count : Attr} (harray : getArray reference "array" = some array)
    (hcount : Attributes.get reference "count" = some count)
    (hlength : reference.length = 2) (hextent : lowerer.expression count = .ok extent)
    (hsize : extent = array.length) (hlimit : array.length ≤ elementLimit) :
    lowerer.initializer (.array element extent) (.dictionary reference) = (do
      let elements ← lowerer.initializers (Lowerer.elementType (.array element extent)) array
      pure (.aggregate (.array element extent) elements)) := by
  rw [Lowerer.initializer.eq_def, literalText_of_ne (by simp)]
  dsimp only
  split
  · rename_i array' harray'
    obtain rfl := Option.some.inj (harray.symm.trans harray')
    rw [hcount]
    simp only [require, ok_bind, hextent]
    rw [ensure, if_pos ⟨hlength, trivial, hsize, hlimit⟩]
    rfl
  · rename_i hnone
    simp [harray] at hnone

theorem initializer_reference {addressSpace : ℕ} {name : String} :
    lowerer.initializer (.scalar (.pointer addressSpace))
        (.dictionary [("symbol", .string name)]) =
      match lowerer.symbols name with
      | some found => .ok (.global found)
      | none => throw "invalid initializer symbol reference" := by
  rw [Lowerer.initializer.eq_def, literalText_of_ne (by simp)]
  dsimp only
  split
  · rename_i array harray
    simp [getArray, Attributes.get_cons] at harray
  · have hop : getString [("symbol", .string name)] "op" = none := by
      simp [getString, Attributes.get_cons]
    have hname : getString [("symbol", .string name)] "symbol" = some name := by
      simp [getString, Attributes.get_cons, Attr.asString?]
    rw [hop, hname, Option.bind_some]
    cases lowerer.symbols name <;> rfl

theorem initializer_gep {addressSpace : ℕ} {base : Attr} {element : SelaType}
    {indices : List Attr} {inbounds : ℕ} :
    lowerer.initializer (.scalar (.pointer addressSpace))
        (.dictionary [("base", base), ("element", .type element),
          ("inbounds", .integer 1 inbounds), ("indices", .array indices),
          ("op", .string "gep")]) = (do
      let source ← lowerer.type element
      let base ← lowerer.initializer .ptr base
      let native ← indices.mapM lowerer.indexInitializer
      ensure (native ≠ [] ∧ (Lowerer.indexedType source (native.drop 1)).isSome = true)
        "invalid constant address index path"
      pure (.gep source base native (inbounds == 1) false)) := by
  rw [Lowerer.initializer.eq_def, literalText_of_ne (by simp)]
  dsimp only
  split
  · rename_i array harray
    simp [getArray, Attributes.get_cons] at harray
  · rfl

mutual

/-- The lowering makes the constant a value means. -/
theorem initializer_attr : ∀ {value : Data} {expected : LlvmType} {result : Constant},
    value.constant lowerer expected = some result →
      lowerer.initializer expected value.attr = .ok result
  | .integer source number, expected, result, h => by
    unfold constant at h
    split at h
    · split_ifs at h with hfits
      obtain rfl := Option.some.inj h
      rw [initializer_integer, attr, encode, Lowerer.integerInitializer,
        literalText_of_ne (by simp)]
      exact if_pos hfits
    · simp at h
  | .float type bits, expected, result, h => by
    unfold constant at h
    split at h
    · split_ifs at h with htype
      obtain rfl := Option.some.inj h
      rw [attr, encode, initializer_floating _ (literalText_of_ne (by simp))]
      simp [Lowerer.floatInitializer, htype, ensure]
    · simp at h
  | .text word, expected, result, h => by
    unfold constant at h
    exact initializer_literal h
  | .pointerBytes, expected, result, h => by
    unfold constant at h
    split at h
    · obtain rfl := Option.some.inj h
      rw [initializer_integer, attr, encode]
      simp [Lowerer.integerInitializer, Lowerer.literalText, Lowerer.expression, evaluateInteger,
        selectAttribute_of_plain]
    · simp at h
  | .array elements, expected, result, h => by
    unfold constant at h
    split_ifs at h with hcount
    obtain ⟨native, hnative, rfl⟩ := Option.map_eq_some_iff.mp h
    have hall := initializers_attr hnative
    rw [attr, encode, initializer_elements (by simpa [encodeAll_eq] using hcount.1)
      (by simpa [encodeAll_eq] using hcount.2), hall]
    rfl
  | .counted elements count, expected, result, h => by
    unfold constant at h
    split at h
    · rename_i element extent
      split_ifs at h with hcount
      obtain ⟨native, hnative, rfl⟩ := Option.map_eq_some_iff.mp h
      obtain ⟨hextent, rfl, hlimit⟩ := hcount
      have hall := initializers_attr hnative
      have harray : getArray [("array", .array (encodeAll Attr.string elements)), ("count", count)]
          "array" = some (encodeAll Attr.string elements) := by
        simp [getArray, Attributes.get_cons, Attr.asArray?]
      rw [attr, encode, initializer_counted harray (by simp [Attributes.get_cons]) rfl hextent
        (by simp [encodeAll_eq]) (by simpa [encodeAll_eq] using hlimit), hall]
      rfl
    · simp at h
  | .gep base element indices inbounds, expected, result, h => by
    unfold constant at h
    split at h
    · rename_i source base' native helement hbase hnative
      split_ifs at h with hpath
      obtain rfl := Option.some.inj h
      have hbase := initializer_attr hbase
      rw [attr] at hbase
      rw [attr, encode, initializer_gep, helement, ok_bind, hbase, ok_bind, hnative, ok_bind, ensure,
        if_pos hpath]
      cases inbounds <;> rfl
    · simp at h
  | .symbol name, expected, result, h => by
    unfold constant at h
    split at h
    · obtain ⟨found, hfound, rfl⟩ := Option.map_eq_some_iff.mp h
      rw [attr, encode, initializer_reference, hfound]
    · simp at h

theorem initializers_attr : ∀ {values : List Data} {types : ℕ → LlvmType}
    {results : List Constant}, constants lowerer types values = some results →
      lowerer.initializers types (encodeAll Attr.string values) = .ok results
  | [], types, results, h => by
    obtain rfl := Option.some.inj h
    rw [encodeAll, Lowerer.initializers]
  | value :: values, types, results, h => by
    obtain ⟨first, hfirst, h⟩ := Option.bind_eq_some_iff.mp h
    obtain ⟨rest, hrest, h⟩ := Option.bind_eq_some_iff.mp h
    obtain rfl := Option.some.inj h
    have hfirst := initializer_attr hfirst
    rw [attr] at hfirst
    rw [encodeAll, Lowerer.initializers, hfirst, ok_bind, initializers_attr hrest]
    rfl

end

end Constant

end Data

/-! ## References survive specialization -/

/-- The value of an attribute reaches the native module of a target as it is meant : the
specialized attribute is `resolved`, with every reference as it was, the schema admits it,
and the lowering makes the constant it means. -/
def Survives (target : TargetInfo) (name : String) (value resolved : Data) : Prop :=
  ∃ result, specializeEntry target (name, value.attr) = .ok (name, result) ∧
    result = resolved.attr ∧ validateInitializer 65 result = .ok () ∧
    ∀ lowerer expected constant, lowerer.target = target →
      resolved.constant lowerer expected = some constant →
        lowerer.initializer expected result = .ok constant

/-- A table of an address, a pointer's size and the data of a counted array. -/
def sampleTable : Data :=
  .array [.symbol "f", .pointerBytes,
    .counted [.gep (.symbol "g") (.integer 8) [(.integer 64, .integer 64 2)] true, .text .null]
      (.integer 64 2)]

end Sela
