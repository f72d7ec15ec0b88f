import Mathlib.Data.Nat.Log
import Mathlib.Tactic.Ring
import Sela.Checked

/-!
# Native types and their layout

The types a native signature is made of, and the sizes and alignments a data layout gives
them. An alignment is held by its exponent, so every alignment is a power of two
(`Align.value`), and of two alignments one divides the other (`Align.value_dvd`).

* the size of a type is a multiple of its alignment (`DataLayout.value_dvd_allocSize`);
* the elements of a record follow one another and end inside it
  (`DataLayout.elements_pairwise`, `DataLayout.end_le_allocSize`).

A type is equal to another when the two have one structure, their identities included : the
context uniques types, so the source compares pointers. By-value records cannot contain
themselves. `unsized` stands for opaque records, functions, labels and metadata. Scalable
vectors, target types and the two x86 register types are left out : every classifier refuses
them.
-/

namespace Sela

/-! ## Alignments -/

/-- An alignment, by its exponent. -/
structure Align where
  shift : ℕ
  deriving DecidableEq, Repr

namespace Align

/-- The alignment in bytes. -/
def value (a : Align) : ℕ := 2 ^ a.shift

/-- The alignment of a number of bytes, which is a power of two. -/
def of (bytes : ℕ) : Align := ⟨Nat.log2 bytes⟩

instance : LE Align := ⟨fun a b => a.shift ≤ b.shift⟩

instance : LT Align := ⟨fun a b => a.shift < b.shift⟩

instance (a b : Align) : Decidable (a ≤ b) := inferInstanceAs (Decidable (a.shift ≤ b.shift))

instance (a b : Align) : Decidable (a < b) := inferInstanceAs (Decidable (a.shift < b.shift))

instance : Max Align := ⟨fun a b => ⟨max a.shift b.shift⟩⟩

instance : Inhabited Align := ⟨⟨0⟩⟩

theorem le_def {a b : Align} : a ≤ b ↔ a.shift ≤ b.shift := Iff.rfl

theorem le_max_left (a b : Align) : a ≤ max a b := Nat.le_max_left _ _

theorem le_max_right (a b : Align) : b ≤ max a b := Nat.le_max_right _ _

theorem le_trans {a b c : Align} (hab : a ≤ b) (hbc : b ≤ c) : a ≤ c :=
  Nat.le_trans (le_def.mp hab) (le_def.mp hbc)

@[simp] theorem value_one : (of 1).value = 1 := rfl

theorem value_pos (a : Align) : 0 < a.value := Nat.two_pow_pos _

theorem value_dvd {a b : Align} (h : a ≤ b) : a.value ∣ b.value := Nat.pow_dvd_pow 2 h

end Align

/-- `size` up to a multiple of the alignment. -/
def alignTo (size : ℕ) (a : Align) : ℕ := (size + a.value - 1) / a.value * a.value

theorem dvd_alignTo (size : ℕ) (a : Align) : a.value ∣ alignTo size a :=
  Nat.dvd_mul_left _ _

theorem le_alignTo (size : ℕ) (a : Align) : size ≤ alignTo size a := by
  have hpos := a.value_pos
  have hlt := Nat.lt_div_mul_add hpos (a := size + a.value - 1)
  unfold alignTo
  omega

theorem alignTo_of_dvd {size : ℕ} {a : Align} (h : a.value ∣ size) : alignTo size a = size := by
  obtain ⟨k, rfl⟩ := h
  have hpos := a.value_pos
  have hk : (a.value * k + a.value - 1) / a.value = k := by
    rw [Nat.add_sub_assoc hpos, Nat.mul_add_div hpos, Nat.div_eq_of_lt (by omega), Nat.add_zero]
  rw [alignTo, hk, Nat.mul_comm]

@[simp] theorem alignTo_one (size : ℕ) : alignTo size (.of 1) = size :=
  alignTo_of_dvd (by simp)

/-! ## Types -/

/-- Floating-point formats. -/
inductive FloatFormat
  | half
  | bfloat
  | float
  | double
  | x86Fp80
  | fp128
  | ppcFp128
  deriving DecidableEq, Repr

def FloatFormat.bits : FloatFormat → ℕ
  | .half => 16
  | .bfloat => 16
  | .float => 32
  | .double => 64
  | .x86Fp80 => 80
  | .fp128 => 128
  | .ppcFp128 => 128

/-- The types a vector may hold. -/
inductive ScalarType
  | integer (width : ℕ)
  | floating (format : FloatFormat)
  | pointer (addressSpace : ℕ)
  deriving DecidableEq, Repr

/-- Native types. An identified record has a name of its own; `unsized` types have no
extent. -/
inductive LlvmType
  | void
  | scalar (type : ScalarType)
  | vector (element : ScalarType) (count : ℕ)
  | array (element : LlvmType) (count : ℕ)
  | struct (identity : Option String) (packed : Bool) (fields : List LlvmType)
  | unsized (spelling : String)

/-- A record type. -/
structure StructType where
  identity : Option String
  packed : Bool
  fields : List LlvmType

/-- A function type. -/
structure FunctionType where
  result : LlvmType
  params : List LlvmType
  isVarArg : Bool

namespace LlvmType

instance : Inhabited LlvmType := ⟨.void⟩

/-- The integer type of a width. -/
abbrev int (width : ℕ) : LlvmType := .scalar (.integer width)

abbrev floatTy : LlvmType := .scalar (.floating .float)

abbrev doubleTy : LlvmType := .scalar (.floating .double)

/-- The pointer type of the default address space. -/
abbrev ptr : LlvmType := .scalar (.pointer 0)

/-! ### Equality -/

mutual

def beq : LlvmType → LlvmType → Bool
  | .void, .void => true
  | .scalar t, .scalar t' => t == t'
  | .vector e n, .vector e' n' => e == e' && n == n'
  | .array e n, .array e' n' => e.beq e' && n == n'
  | .struct i p fs, .struct i' p' fs' => i == i' && p == p' && fieldsBeq fs fs'
  | .unsized s, .unsized s' => s == s'
  | _, _ => false

def fieldsBeq : List LlvmType → List LlvmType → Bool
  | [], [] => true
  | f :: fs, f' :: fs' => f.beq f' && fieldsBeq fs fs'
  | _, _ => false

end

mutual

theorem beq_iff_eq : ∀ a b : LlvmType, a.beq b = true ↔ a = b
  | .void, b => by cases b <;> simp [beq]
  | .scalar _, b => by cases b <;> simp [beq]
  | .vector _ _, b => by cases b <;> simp [beq]
  | .array e _, b => by cases b <;> simp [beq, beq_iff_eq e]
  | .struct _ _ fs, b => by cases b <;> simp [beq, fieldsBeq_iff_eq fs, and_assoc]
  | .unsized _, b => by cases b <;> simp [beq]

theorem fieldsBeq_iff_eq : ∀ as bs : List LlvmType, fieldsBeq as bs = true ↔ as = bs
  | [], bs => by cases bs <;> simp [fieldsBeq]
  | a :: as, bs => by cases bs <;> simp [fieldsBeq, beq_iff_eq a, fieldsBeq_iff_eq as]

end

instance : DecidableEq LlvmType := fun a b =>
  decidable_of_iff (a.beq b = true) (beq_iff_eq a b)

deriving instance DecidableEq for StructType, FunctionType

/-! ### Extent -/

mutual

/-- The type has an extent. -/
def isSized : LlvmType → Bool
  | .void => false
  | .scalar _ => true
  | .vector _ _ => true
  | .array e _ => e.isSized
  | .struct _ _ fields => fieldsSized fields
  | .unsized _ => false

def fieldsSized : List LlvmType → Bool
  | [] => true
  | field :: fields => field.isSized && fieldsSized fields

end

theorem fieldsSized_iff {fields : List LlvmType} :
    fieldsSized fields = true ↔ ∀ field ∈ fields, field.isSized = true := by
  induction fields with
  | nil => simp [fieldsSized]
  | cons field fields ih => simp [fieldsSized, ih]

def isInteger : LlvmType → Bool
  | .scalar (.integer _) => true
  | _ => false

def isPointer : LlvmType → Bool
  | .scalar (.pointer _) => true
  | _ => false

/-- A record or an array. -/
def isAggregate : LlvmType → Bool
  | .array _ _ => true
  | .struct _ _ _ => true
  | _ => false

def isStruct : LlvmType → Bool
  | .struct _ _ _ => true
  | _ => false

end LlvmType

/-- The record as a type. -/
abbrev StructType.toType (record : StructType) : LlvmType :=
  .struct record.identity record.packed record.fields

/-! ## Data layouts -/

/-- What a layout string fixes : the order of bytes, the sizes of pointers by address space, and
the alignments of integers, floating-point types and vectors by width, in increasing order. -/
structure DataLayout where
  bigEndian : Bool
  pointers : List (ℕ × ℕ)
  pointerBytes : ℕ
  integers : List (ℕ × Align)
  floats : List (ℕ × Align)
  vectors : List (ℕ × Align)

namespace DataLayout

variable (layout : DataLayout)

/-- The size of a pointer in bytes, which is its alignment too. -/
def pointerSize (addressSpace : ℕ) : ℕ :=
  (layout.pointers.lookup addressSpace).getD layout.pointerBytes

/-- The alignment of the first width of the table that is at least as great, or else of the
greatest. -/
def integerAlign (width : ℕ) : Align :=
  match layout.integers.find? fun entry => width ≤ entry.1 with
  | some entry => entry.2
  | none => (layout.integers.getLast?.map Prod.snd).getD default

/-- The alignment of the table, or else the first power of two that holds the bytes. -/
def exactAlign (table : List (ℕ × Align)) (width bytes : ℕ) : Align :=
  (table.lookup width).getD ⟨Nat.clog 2 bytes⟩

def scalarBits : ScalarType → ℕ
  | .integer width => width
  | .floating format => format.bits
  | .pointer addressSpace => 8 * layout.pointerSize addressSpace

def scalarAlign : ScalarType → Align
  | .integer width => layout.integerAlign width
  | .floating format => exactAlign layout.floats format.bits (format.bits / 8)
  | .pointer addressSpace => .of (layout.pointerSize addressSpace)

mutual

/-- The alignment of a type. -/
def abiAlign : LlvmType → Align
  | .void => .of 1
  | .scalar type => layout.scalarAlign type
  | .vector element count =>
    exactAlign layout.vectors (count * layout.scalarBits element)
      ((count * layout.scalarBits element + 7) / 8)
  | .array element _ => abiAlign element
  | .struct _ packed fields => if packed then .of 1 else fieldsAlign fields
  | .unsized _ => .of 1

/-- The greatest alignment of a list of fields. -/
def fieldsAlign : List LlvmType → Align
  | [] => .of 1
  | field :: fields => max (abiAlign field) (fieldsAlign fields)

end

mutual

/-- The size of a type in bits. -/
def typeBits : LlvmType → ℕ
  | .void => 0
  | .scalar type => layout.scalarBits type
  | .vector element count => count * layout.scalarBits element
  | .array element count =>
    count * (8 * alignTo ((typeBits element + 7) / 8) (layout.abiAlign element))
  | .struct _ packed fields =>
    8 * alignTo (fieldsEnd packed 0 fields) (if packed then .of 1 else layout.fieldsAlign fields)
  | .unsized _ => 0

/-- Where the fields of a record end when the first may begin at `start`. -/
def fieldsEnd (packed : Bool) (start : ℕ) : List LlvmType → ℕ
  | [] => start
  | field :: fields =>
    fieldsEnd packed
      (alignTo start (if packed then .of 1 else layout.abiAlign field) +
        alignTo ((typeBits field + 7) / 8) (layout.abiAlign field))
      fields

end

/-- The bytes a store of the type writes. -/
def storeSize (type : LlvmType) : ℕ := (layout.typeBits type + 7) / 8

/-- The bytes an object of the type takes, its tail padding included. -/
def allocSize (type : LlvmType) : ℕ := alignTo (layout.storeSize type) (layout.abiAlign type)

/-- The alignment of a field of a record. -/
def fieldAlign (packed : Bool) (field : LlvmType) : Align :=
  if packed then .of 1 else layout.abiAlign field

/-- The fields of a record with their offsets, when the first may begin at `start`. -/
def elements (packed : Bool) : ℕ → List LlvmType → List (LlvmType × ℕ)
  | _, [] => []
  | start, field :: fields =>
    (field, alignTo start (layout.fieldAlign packed field)) ::
      elements packed
        (alignTo start (layout.fieldAlign packed field) + layout.allocSize field) fields

/-! ### Sizes -/

variable {layout}

theorem storeSize_le_allocSize (type : LlvmType) : layout.storeSize type ≤ layout.allocSize type :=
  le_alignTo _ _

theorem value_dvd_allocSize (type : LlvmType) :
    (layout.abiAlign type).value ∣ layout.allocSize type :=
  dvd_alignTo _ _

@[simp] theorem fieldsEnd_nil (packed : Bool) (start : ℕ) :
    layout.fieldsEnd packed start [] = start := by
  rw [fieldsEnd]

@[simp] theorem fieldsEnd_cons (packed : Bool) (start : ℕ) (field : LlvmType)
    (fields : List LlvmType) :
    layout.fieldsEnd packed start (field :: fields) =
      layout.fieldsEnd packed
        (alignTo start (layout.fieldAlign packed field) + layout.allocSize field) fields := by
  rw [fieldsEnd]
  rfl

theorem storeSize_struct (identity : Option String) (packed : Bool) (fields : List LlvmType) :
    layout.storeSize (.struct identity packed fields) =
      alignTo (layout.fieldsEnd packed 0 fields)
        (layout.abiAlign (.struct identity packed fields)) := by
  rw [storeSize, typeBits, abiAlign]
  omega

/-- A record takes what a store of it writes. -/
theorem allocSize_struct (identity : Option String) (packed : Bool) (fields : List LlvmType) :
    layout.allocSize (.struct identity packed fields) =
      layout.storeSize (.struct identity packed fields) := by
  rw [allocSize, storeSize_struct]
  exact alignTo_of_dvd (dvd_alignTo _ _)

theorem storeSize_int (layout : DataLayout) (width : ℕ) :
    layout.storeSize (.int width) = (width + 7) / 8 := by
  rw [storeSize, typeBits, scalarBits]

theorem storeSize_array (element : LlvmType) (count : ℕ) :
    layout.storeSize (.array element count) = count * layout.allocSize element := by
  rw [storeSize, typeBits, ← storeSize, ← allocSize, Nat.mul_left_comm]
  omega

/-- An array takes what its elements take, one after another. -/
theorem allocSize_array (element : LlvmType) (count : ℕ) :
    layout.allocSize (.array element count) = count * layout.allocSize element := by
  rw [allocSize, storeSize_array, abiAlign]
  exact alignTo_of_dvd ((value_dvd_allocSize element).mul_left _)

/-! ### The elements of a record -/

theorem le_fieldsEnd (packed : Bool) (fields : List LlvmType) :
    ∀ start, start ≤ layout.fieldsEnd packed start fields := by
  induction fields with
  | nil => intro start; rw [fieldsEnd_nil]
  | cons field fields ih =>
    intro start
    rw [fieldsEnd_cons]
    have hstart := le_alignTo start (layout.fieldAlign packed field)
    have hrest := ih (alignTo start (layout.fieldAlign packed field) + layout.allocSize field)
    omega

theorem le_of_mem_elements {packed : Bool} {fields : List LlvmType} {element : LlvmType × ℕ} :
    ∀ {start : ℕ}, element ∈ layout.elements packed start fields → start ≤ element.2 := by
  induction fields with
  | nil => simp [elements]
  | cons field fields ih =>
    intro start h
    have hstart := le_alignTo start (layout.fieldAlign packed field)
    rw [elements] at h
    rcases List.mem_cons.mp h with rfl | h
    · exact hstart
    · have := ih h
      omega

theorem end_le_fieldsEnd {packed : Bool} {fields : List LlvmType} {element : LlvmType × ℕ} :
    ∀ {start : ℕ}, element ∈ layout.elements packed start fields →
      element.2 + layout.allocSize element.1 ≤ layout.fieldsEnd packed start fields := by
  induction fields with
  | nil => simp [elements]
  | cons field fields ih =>
    intro start h
    rw [elements] at h
    rw [fieldsEnd_cons]
    rcases List.mem_cons.mp h with rfl | h
    · exact le_fieldsEnd packed fields _
    · exact ih h

/-- An element ends inside its record. -/
theorem end_le_allocSize (identity : Option String) {packed : Bool} {fields : List LlvmType}
    {element : LlvmType × ℕ} (h : element ∈ layout.elements packed 0 fields) :
    element.2 + layout.allocSize element.1 ≤
      layout.allocSize (.struct identity packed fields) := by
  rw [allocSize_struct, storeSize_struct]
  exact (end_le_fieldsEnd h).trans (le_alignTo _ _)

/-- Each element ends before the next begins. -/
theorem elements_pairwise (packed : Bool) (fields : List LlvmType) :
    ∀ start, (layout.elements packed start fields).Pairwise fun a b =>
      a.2 + layout.allocSize a.1 ≤ b.2 := by
  induction fields with
  | nil => intro start; exact .nil
  | cons field fields ih =>
    intro start
    rw [elements]
    exact .cons (fun element h => le_of_mem_elements h) (ih _)

theorem map_fst_elements (layout : DataLayout) (packed : Bool) (fields : List LlvmType) :
    ∀ start, (layout.elements packed start fields).map Prod.fst = fields := by
  induction fields with
  | nil => intro start; rfl
  | cons field fields ih =>
    intro start
    rw [elements, List.map_cons, ih]

theorem abiAlign_le_fieldsAlign {field : LlvmType} {fields : List LlvmType} (h : field ∈ fields) :
    layout.abiAlign field ≤ layout.fieldsAlign fields := by
  induction fields with
  | nil => simp at h
  | cons first fields ih =>
    rw [fieldsAlign]
    rcases List.mem_cons.mp h with rfl | h
    · exact Align.le_max_left _ _
    · exact Align.le_trans (ih h) (Align.le_max_right _ _)

/-- An element of a record is aligned. -/
theorem dvd_of_mem_elements {packed : Bool} {fields : List LlvmType} {element : LlvmType × ℕ} :
    ∀ {start : ℕ}, element ∈ layout.elements packed start fields →
      (layout.fieldAlign packed element.1).value ∣ element.2 := by
  induction fields with
  | nil => simp [elements]
  | cons field fields ih =>
    intro start h
    rw [elements] at h
    rcases List.mem_cons.mp h with rfl | h
    · exact dvd_alignTo _ _
    · exact ih h

end DataLayout

end Sela
