import Mathlib.Data.Int.Notation
import Sela.Targets

/-!
# Types and attributes

Sela types nest attributes (an array's count, a choice's cases, an overlap's domains)
and attributes nest types, so the two are one mutual definition. Attributes are
uniqued, so the source compares them by pointer; here they are compared by structure
(`SelaType.beq_iff_eq`, `Attr.beq_iff_eq`). A dictionary holds its entries in order of
their names (`Attr.WellFormed`).

The integers the importer builds are signless. `foreign` stands for every other type or
attribute of the surrounding framework : the signed, unsigned and index types with their
integers, which the framework's code for integers takes as well, and what is none.
-/

namespace Sela

/-- The types of integers that are not signless. -/
inductive NumberType
  | signed (width : ℕ)
  | unsigned (width : ℕ)
  | index
  deriving DecidableEq

/-- The bits of an integer of the type. -/
def NumberType.width : NumberType → ℕ
  | .signed width | .unsigned width => width
  | .index => 64

/-- The types of the framework that no case of `SelaType` is for. -/
inductive ForeignType
  | number (type : NumberType)
  | other (name : String)
  deriving DecidableEq

/-- The attributes of the framework that no case of `Attr` is for. -/
inductive ForeignAttr
  | number (type : NumberType) (value : ℕ)
  | other (name : String)
  deriving DecidableEq

mutual

/-- Types : the framework's own, then the dialect's. -/
inductive SelaType
  | integer (width : ℕ)
  | f32
  | f64
  | vector (shape : List ℕ) (scalable : Bool) (element : SelaType)
  | function (inputs results : List SelaType)
  | foreign (type : ForeignType)
  | word
  | ptr
  | vaList
  | vaListArgument
  | array (element : SelaType) (count : Attr)
  | choice (cases : Attr)
  | record (identity : String) (packed : Bool) (fields : List SelaType)
  | overlap (identity : String) (alternatives : List SelaType) (domains : List Attr)

/-- Attributes. An integer is its bit width and its unsigned value, a boolean a one-bit
integer. -/
inductive Attr
  | unit
  | integer (width value : ℕ)
  | float (type : SelaType) (bits : ℕ)
  | string (text : String)
  | type (value : SelaType)
  | array (elements : List Attr)
  | dictionary (entries : List (String × Attr))
  | denseI32 (values : List ℤ)
  | foreign (attr : ForeignAttr)

end

/-- The value of an integer of any type. -/
def Attr.number? : Attr → Option ℕ
  | .integer _ value | .foreign (.number _ value) => some value
  | _ => none

/-- The bits of an integer of any type. -/
def Attr.integerBits? : Attr → Option ℕ
  | .integer width _ => some width
  | .foreign (.number kind _) => some kind.width
  | _ => none

/-- The width of a type of integers, signless or not. -/
def SelaType.integerWidth? : SelaType → Option ℕ
  | .integer width | .foreign (.number (.signed width)) | .foreign (.number (.unsigned width)) =>
    some width
  | _ => none

instance : Inhabited SelaType := ⟨.ptr⟩

instance : Inhabited Attr := ⟨.unit⟩

/-! ## Equality -/

mutual

/-- Structural equality of types. -/
def SelaType.beq : SelaType → SelaType → Bool
  | .integer w, .integer w' => w == w'
  | .f32, .f32 => true
  | .f64, .f64 => true
  | .vector s b e, .vector s' b' e' => s == s' && b == b' && e.beq e'
  | .function is rs, .function is' rs' => typesBeq is is' && typesBeq rs rs'
  | .foreign n, .foreign n' => n == n'
  | .word, .word => true
  | .ptr, .ptr => true
  | .vaList, .vaList => true
  | .vaListArgument, .vaListArgument => true
  | .array e c, .array e' c' => e.beq e' && c.beq c'
  | .choice c, .choice c' => c.beq c'
  | .record i p fs, .record i' p' fs' => i == i' && p == p' && typesBeq fs fs'
  | .overlap i as ds, .overlap i' as' ds' => i == i' && typesBeq as as' && attrsBeq ds ds'
  | _, _ => false

def typesBeq : List SelaType → List SelaType → Bool
  | [], [] => true
  | t :: ts, t' :: ts' => t.beq t' && typesBeq ts ts'
  | _, _ => false

/-- Structural equality of attributes. -/
def Attr.beq : Attr → Attr → Bool
  | .unit, .unit => true
  | .integer w v, .integer w' v' => w == w' && v == v'
  | .float t b, .float t' b' => t.beq t' && b == b'
  | .string s, .string s' => s == s'
  | .type t, .type t' => t.beq t'
  | .array xs, .array xs' => attrsBeq xs xs'
  | .dictionary es, .dictionary es' => entriesBeq es es'
  | .denseI32 vs, .denseI32 vs' => vs == vs'
  | .foreign n, .foreign n' => n == n'
  | _, _ => false

def attrsBeq : List Attr → List Attr → Bool
  | [], [] => true
  | a :: as, a' :: as' => a.beq a' && attrsBeq as as'
  | _, _ => false

def entriesBeq : List (String × Attr) → List (String × Attr) → Bool
  | [], [] => true
  | (n, a) :: es, (n', a') :: es' => n == n' && a.beq a' && entriesBeq es es'
  | _, _ => false

end

mutual

theorem SelaType.beq_iff_eq : ∀ a b : SelaType, a.beq b = true ↔ a = b
  | .integer _, b => by cases b <;> simp [SelaType.beq]
  | .f32, b => by cases b <;> simp [SelaType.beq]
  | .f64, b => by cases b <;> simp [SelaType.beq]
  | .vector _ _ e, b => by
    cases b <;> simp [SelaType.beq, SelaType.beq_iff_eq e, and_assoc]
  | .function is rs, b => by
    cases b <;> simp [SelaType.beq, typesBeq_iff_eq is, typesBeq_iff_eq rs]
  | .foreign _, b => by cases b <;> simp [SelaType.beq]
  | .word, b => by cases b <;> simp [SelaType.beq]
  | .ptr, b => by cases b <;> simp [SelaType.beq]
  | .vaList, b => by cases b <;> simp [SelaType.beq]
  | .vaListArgument, b => by cases b <;> simp [SelaType.beq]
  | .array e c, b => by
    cases b <;> simp [SelaType.beq, SelaType.beq_iff_eq e, Attr.beq_iff_eq c]
  | .choice c, b => by cases b <;> simp [SelaType.beq, Attr.beq_iff_eq c]
  | .record _ _ fs, b => by
    cases b <;> simp [SelaType.beq, typesBeq_iff_eq fs, and_assoc]
  | .overlap _ as ds, b => by
    cases b <;> simp [SelaType.beq, typesBeq_iff_eq as, attrsBeq_iff_eq ds, and_assoc]

theorem typesBeq_iff_eq : ∀ as bs : List SelaType, typesBeq as bs = true ↔ as = bs
  | [], bs => by cases bs <;> simp [typesBeq]
  | a :: as, bs => by
    cases bs <;> simp [typesBeq, SelaType.beq_iff_eq a, typesBeq_iff_eq as]

theorem Attr.beq_iff_eq : ∀ a b : Attr, a.beq b = true ↔ a = b
  | .unit, b => by cases b <;> simp [Attr.beq]
  | .integer _ _, b => by cases b <;> simp [Attr.beq]
  | .float t _, b => by cases b <;> simp [Attr.beq, SelaType.beq_iff_eq t]
  | .string _, b => by cases b <;> simp [Attr.beq]
  | .type t, b => by cases b <;> simp [Attr.beq, SelaType.beq_iff_eq t]
  | .array xs, b => by cases b <;> simp [Attr.beq, attrsBeq_iff_eq xs]
  | .dictionary es, b => by cases b <;> simp [Attr.beq, entriesBeq_iff_eq es]
  | .denseI32 _, b => by cases b <;> simp [Attr.beq]
  | .foreign _, b => by cases b <;> simp [Attr.beq]

theorem attrsBeq_iff_eq : ∀ as bs : List Attr, attrsBeq as bs = true ↔ as = bs
  | [], bs => by cases bs <;> simp [attrsBeq]
  | a :: as, bs => by
    cases bs <;> simp [attrsBeq, Attr.beq_iff_eq a, attrsBeq_iff_eq as]

theorem entriesBeq_iff_eq : ∀ es es' : List (String × Attr), entriesBeq es es' = true ↔ es = es'
  | [], es' => by cases es' <;> simp [entriesBeq]
  | (n, a) :: es, es' => by
    rcases es' with _ | ⟨⟨n', a'⟩, es'⟩
    · simp [entriesBeq]
    · simp [entriesBeq, Attr.beq_iff_eq a, entriesBeq_iff_eq es]

end

instance : DecidableEq SelaType :=
  fun a b => decidable_of_iff (a.beq b = true) (SelaType.beq_iff_eq a b)

instance : DecidableEq Attr :=
  fun a b => decidable_of_iff (a.beq b = true) (Attr.beq_iff_eq a b)

end Sela
