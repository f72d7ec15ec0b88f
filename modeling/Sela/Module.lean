import Mathlib.Data.List.Nodup
import Sela.Type

/-!
# Modules

The graph a module holds : its definitions in order, the blocks of each function in
physical order, and the operations of each block. A value is named within its function
and carries its type; a block is named within its function, and a region holds no two
blocks of one name. Operations of the dialect have no regions of their own; a top-level
definition has.

Attribute dictionaries hold their entries in order of their names. `Attributes.set`
keeps that order, so that two dictionaries with the same entries are equal.
-/

namespace Sela

/-! ## Attribute dictionaries -/

/-- A dictionary of attributes, in order of their names. -/
abbrev Attributes := List (String × Attr)

namespace Attributes

/-- The attribute of a name. -/
def get (attributes : Attributes) (name : String) : Option Attr := attributes.lookup name

/-- Replace the attribute of a name, or insert it in its place. -/
def set (name : String) (value : Attr) : Attributes → Attributes
  | [] => [(name, value)]
  | (n, a) :: rest =>
    if n = name then (name, value) :: rest
    else if name < n then (name, value) :: (n, a) :: rest
    else (n, a) :: set name value rest

/-- Drop the attribute of a name. -/
def erase (attributes : Attributes) (name : String) : Attributes :=
  attributes.filter fun entry => entry.1 ≠ name

@[simp] theorem get_nil (name : String) : get [] name = none := rfl

theorem get_cons (name n : String) (a : Attr) (rest : Attributes) :
    get ((n, a) :: rest) name = if n = name then some a else get rest name := by
  unfold get
  rw [List.lookup_cons]
  by_cases h : n = name
  · simp [h]
  · simp [h, beq_eq_false_iff_ne.mpr (Ne.symm h)]

@[simp] theorem get_set_self (name : String) (value : Attr) :
    ∀ attributes : Attributes, get (set name value attributes) name = some value
  | [] => by simp [set, get_cons]
  | (n, a) :: rest => by
    unfold set
    split
    · simp [get_cons]
    · split
      · simp [get_cons]
      · simp [get_cons, *, get_set_self name value rest]

theorem get_set_of_ne {name other : String} (value : Attr) (h : name ≠ other) :
    ∀ attributes : Attributes, get (set name value attributes) other = get attributes other
  | [] => by simp [set, get_cons, h]
  | (n, a) :: rest => by
    unfold set
    split
    · simp [get_cons, *]
    · split
      · simp [get_cons, h]
      · simp [get_cons, get_set_of_ne value h rest]

@[simp] theorem get_erase_self (name : String) :
    ∀ attributes : Attributes, get (erase attributes name) name = none
  | [] => rfl
  | (n, a) :: rest => by
    have ih := get_erase_self name rest
    unfold erase at ih ⊢
    by_cases h : n = name
    · simpa [h] using ih
    · simpa [h, get_cons] using ih

theorem get_erase_of_ne {name other : String} (h : name ≠ other) :
    ∀ attributes : Attributes, get (erase attributes name) other = get attributes other
  | [] => rfl
  | (n, a) :: rest => by
    have ih := get_erase_of_ne h rest
    unfold erase at ih ⊢
    by_cases hn : n = name
    · simpa [hn, get_cons, h] using ih
    · simp only [ne_eq, hn, not_false_eq_true, decide_true, List.filter_cons_of_pos, get_cons, ih]

theorem mem_of_get {name : String} {value : Attr} :
    ∀ {attributes : Attributes}, get attributes name = some value → (name, value) ∈ attributes
  | (n, a) :: rest, h => by
    rw [get_cons] at h
    split at h
    · simp_all
    · exact List.mem_cons_of_mem _ (mem_of_get h)

end Attributes

namespace Attr

/-- The elements of an array. -/
def asArray? : Attr → Option (List Attr)
  | .array elements => some elements
  | _ => none

/-- The text of a string. -/
def asString? : Attr → Option String
  | .string text => some text
  | _ => none

/-- The type an attribute holds. -/
def asType? : Attr → Option SelaType
  | .type value => some value
  | _ => none

/-- The entries of a dictionary. -/
def asDictionary? : Attr → Option Attributes
  | .dictionary entries => some entries
  | _ => none

/-- The values of a dense array of 32-bit integers. -/
def asDenseI32? : Attr → Option (List ℤ)
  | .denseI32 values => some values
  | _ => none

@[simp] theorem asArray?_eq_some {a : Attr} {elements : List Attr} :
    a.asArray? = some elements ↔ a = .array elements := by
  cases a <;> simp [asArray?]

@[simp] theorem asString?_eq_some {a : Attr} {text : String} :
    a.asString? = some text ↔ a = .string text := by
  cases a <;> simp [asString?]

@[simp] theorem asType?_eq_some {a : Attr} {value : SelaType} :
    a.asType? = some value ↔ a = .type value := by
  cases a <;> simp [asType?]

@[simp] theorem asDictionary?_eq_some {a : Attr} {entries : Attributes} :
    a.asDictionary? = some entries ↔ a = .dictionary entries := by
  cases a <;> simp [asDictionary?]

@[simp] theorem asDenseI32?_eq_some {a : Attr} {values : List ℤ} :
    a.asDenseI32? = some values ↔ a = .denseI32 values := by
  cases a <;> simp [asDenseI32?]

end Attr

/-! ## The graph -/

/-- A value : its name within its function, and its type. -/
structure Value where
  id : ℕ
  type : SelaType
  deriving DecidableEq, Inhabited

/-- An operation. Its successors name blocks of its function. -/
structure Operation where
  name : String
  attributes : Attributes
  operands : List Value
  results : List Value
  successors : List ℕ
  deriving DecidableEq, Inhabited

/-- A block, its name within its function. -/
structure Block where
  id : ℕ
  arguments : List Value
  operations : List Operation
  deriving DecidableEq, Inhabited

/-- The blocks of a function, in physical order. -/
structure Region where
  blocks : List Block
  nodup : (blocks.map Block.id).Nodup
  deriving DecidableEq

/-- A top-level operation. -/
structure Definition where
  name : String
  attributes : Attributes
  regions : List Region
  deriving DecidableEq

instance : Inhabited Definition := ⟨⟨"", [], []⟩⟩

/-- A module : its own attributes and its definitions. -/
structure Module where
  attributes : Attributes
  body : List Definition
  deriving DecidableEq

instance : Inhabited Module := ⟨⟨[], []⟩⟩

/-- The values a block defines : its arguments and the results of its operations. -/
def Block.defined (block : Block) : List Value :=
  block.arguments ++ block.operations.flatMap Operation.results

/-- The block that defines a value. -/
def ownerBlock (blocks : List Block) (value : Value) : Option Block :=
  blocks.find? fun block => value ∈ block.defined

theorem mem_of_ownerBlock {blocks : List Block} {value : Value} {block : Block}
    (h : ownerBlock blocks value = some block) : block ∈ blocks ∧ value ∈ block.defined :=
  ⟨List.mem_of_find?_eq_some h, by simpa using List.find?_some h⟩

/-- Keep the blocks that satisfy a condition. -/
def Region.filter (keep : Block → Bool) (region : Region) : Region :=
  ⟨region.blocks.filter keep, region.nodup.sublist (List.filter_sublist.map _)⟩

end Sela
