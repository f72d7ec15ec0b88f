import Mathlib.Data.Int.Notation
import Mathlib.Data.List.Basic

/-!
# JSON values

The values a JSON reader returns, and reading a member of an object as a value of one
kind. An object holds its members by key; a reader keeps one value for a key.
-/

/-- A JSON value. A number that is no integer keeps its text. -/
inductive Json
  | null
  | boolean (value : Bool)
  | integer (value : ℤ)
  | number (text : String)
  | string (text : String)
  | array (elements : List Json)
  | object (members : List (String × Json))

namespace Json

/-- The members of an object. -/
abbrev Object := List (String × Json)

def asString? : Json → Option String
  | .string text => some text
  | _ => none

def asInteger? : Json → Option ℤ
  | .integer value => some value
  | _ => none

def asArray? : Json → Option (List Json)
  | .array elements => some elements
  | _ => none

def asObject? : Json → Option Object
  | .object members => some members
  | _ => none

@[simp] theorem asString?_string (text : String) : asString? (.string text) = some text := rfl

@[simp] theorem asArray?_array (elements : List Json) : asArray? (.array elements) = some elements := rfl

@[simp] theorem asInteger?_integer (value : ℤ) : asInteger? (.integer value) = some value := rfl

@[simp] theorem asObject?_object (members : Object) : asObject? (.object members) = some members := rfl

theorem asObject?_eq_some {json : Json} {members : Object} :
    json.asObject? = some members ↔ json = .object members := by
  cases json <;> simp [asObject?]

namespace Object

/-- The value of a key. -/
def get (object : Object) (key : String) : Option Json := object.lookup key

def getString (object : Object) (key : String) : Option String := (object.get key).bind asString?

def getInteger (object : Object) (key : String) : Option ℤ := (object.get key).bind asInteger?

def getArray (object : Object) (key : String) : Option (List Json) := (object.get key).bind asArray?

def getObject (object : Object) (key : String) : Option Object := (object.get key).bind asObject?

theorem get_cons (key key' : String) (value : Json) (object : Object) :
    get ((key', value) :: object) key = if key' = key then some value else get object key := by
  unfold get
  rw [List.lookup_cons]
  by_cases h : key' = key
  · simp [h]
  · simp [h, beq_eq_false_iff_ne.mpr (Ne.symm h)]

@[simp] theorem get_nil (key : String) : get [] key = none := rfl

end Object

mutual

/-- Every object in a value has one value for a key. -/
def Distinct : Json → Prop
  | .array elements => DistinctElements elements
  | .object members => (members.map Prod.fst).Nodup ∧ DistinctMembers members
  | _ => True

def DistinctElements : List Json → Prop
  | [] => True
  | element :: elements => Distinct element ∧ DistinctElements elements

def DistinctMembers : List (String × Json) → Prop
  | [] => True
  | (_, value) :: members => Distinct value ∧ DistinctMembers members

end

theorem distinct_of_mem : ∀ {members : List (String × Json)} {entry : String × Json},
    DistinctMembers members → entry ∈ members → Distinct entry.2
  | (key, value) :: members, entry, h, hentry => by
    rcases List.mem_cons.mp hentry with rfl | hentry
    · exact h.1
    · exact distinct_of_mem h.2 hentry

namespace Object

theorem mem_of_get {object : Object} {key : String} {value : Json} (h : object.get key = some value) :
    (key, value) ∈ object := by
  obtain ⟨before, after, rfl, -⟩ := List.lookup_eq_some_iff.mp h
  simp

/-- An object has at most one value for a key. -/
theorem get_of_mem {object : Object} (hnodup : (object.map Prod.fst).Nodup) {key : String}
    {value : Json} (h : (key, value) ∈ object) : object.get key = some value := by
  induction object with
  | nil => simp at h
  | cons entry object ih =>
    obtain ⟨key', value'⟩ := entry
    obtain ⟨hkey, hnodup⟩ := List.nodup_cons.mp hnodup
    rw [get_cons]
    rcases List.mem_cons.mp h with heq | h
    · obtain ⟨rfl, rfl⟩ := Prod.mk.inj heq
      simp
    · have hne : key' ≠ key := fun heq => hkey (List.mem_map.mpr ⟨_, h, heq.symm⟩)
      rw [if_neg hne]
      exact ih hnodup h

end Object

end Json
