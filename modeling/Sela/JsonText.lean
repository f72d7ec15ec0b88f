import Mathlib.Data.List.Forall2
import Sela.Association
import Sela.Checked
import Sela.Json

/-!
# Reading back the text of a JSON value

What a reader may give for the text a value is written as. The members of an object come in
any order, and one of the members that come to have the same key stays. ASCII strings are kept
as they are; a string that is no UTF-8 is mended, which leaves a replacement character in it. A
number that is read as an integer is the integer that was written.

So what is read under an ASCII key was written under this key (`ReadAs.get`).
-/

namespace Json

/-! ## Equality -/

mutual

/-- Structural equality of values. -/
def beq : Json → Json → Bool
  | .null, .null => true
  | .boolean a, .boolean b => a == b
  | .integer a, .integer b => a == b
  | .number a, .number b => a == b
  | .string a, .string b => a == b
  | .array as, .array bs => elementsBeq as bs
  | .object as, .object bs => membersBeq as bs
  | _, _ => false

def elementsBeq : List Json → List Json → Bool
  | [], [] => true
  | a :: as, b :: bs => a.beq b && elementsBeq as bs
  | _, _ => false

def membersBeq : List (String × Json) → List (String × Json) → Bool
  | [], [] => true
  | (key, a) :: as, (key', b) :: bs => key == key' && a.beq b && membersBeq as bs
  | _, _ => false

end

mutual

theorem beq_iff : ∀ a b : Json, a.beq b = true ↔ a = b
  | .null, b => by cases b <;> simp [beq]
  | .boolean _, b => by cases b <;> simp [beq]
  | .integer _, b => by cases b <;> simp [beq]
  | .number _, b => by cases b <;> simp [beq]
  | .string _, b => by cases b <;> simp [beq]
  | .array as, b => by cases b <;> simp [beq, elementsBeq_iff as]
  | .object as, b => by cases b <;> simp [beq, membersBeq_iff as]

theorem elementsBeq_iff : ∀ as bs : List Json, elementsBeq as bs = true ↔ as = bs
  | [], bs => by cases bs <;> simp [elementsBeq]
  | a :: as, bs => by cases bs <;> simp [elementsBeq, beq_iff a, elementsBeq_iff as]

theorem membersBeq_iff : ∀ as bs : List (String × Json), membersBeq as bs = true ↔ as = bs
  | [], bs => by cases bs <;> simp [membersBeq]
  | (key, a) :: as, bs => by
    rcases bs with _ | ⟨⟨key', b⟩, bs⟩
    · simp [membersBeq]
    · simp [membersBeq, beq_iff a, membersBeq_iff as]

end

instance : DecidableEq Json := fun a b => decidable_of_iff (a.beq b = true) (beq_iff a b)

/-! ## Texts -/

/-- Whether a text has ASCII characters only. -/
def Ascii (text : String) : Prop := ∀ c ∈ text.toList, c.toNat < 128

instance : DecidablePred Ascii := fun text =>
  List.decidableBAll (fun c : Char => c.toNat < 128) text.toList

/-- A text as it is read back. -/
def SameText (written read : String) : Prop := Ascii written ∨ Ascii read → written = read

theorem SameText.refl (text : String) : SameText text text := fun _ => rfl

/-- A value as it is read back. -/
inductive ReadAs : Json → Json → Prop
  | null : ReadAs .null .null
  | boolean (value : Bool) : ReadAs (.boolean value) (.boolean value)
  | integer (value : ℤ) : ReadAs (.integer value) (.integer value)
  | large (value : ℤ) (text : String) : ReadAs (.integer value) (.number text)
  | number (text text' : String) : ReadAs (.number text) (.number text')
  | whole (text : String) (value : ℤ) : ReadAs (.number text) (.integer value)
  | string {text text' : String} (same : SameText text text') : ReadAs (.string text) (.string text')
  | array {elements elements' : List Json} (each : List.Forall₂ ReadAs elements elements') :
      ReadAs (.array elements) (.array elements')
  /-- The members that are kept are some of those written, and every key is still there. -/
  | object {members kept members' : Object} (subset : ∀ entry ∈ kept, entry ∈ members)
      (keys : List.Forall₂ SameText (kept.map Prod.fst) (members'.map Prod.fst))
      (values : List.Forall₂ ReadAs (kept.map Prod.snd) (members'.map Prod.snd))
      (all : ∀ key ∈ members.map Prod.fst, ∃ key' ∈ members'.map Prod.fst, SameText key key') :
      ReadAs (.object members) (.object members')

namespace ReadAs

mutual

/-- A value may be read as it is. -/
theorem refl : ∀ json : Json, ReadAs json json
  | .null => .null
  | .boolean value => .boolean value
  | .integer value => .integer value
  | .number text => .number text text
  | .string text => .string (.refl text)
  | .array elements => .array (refl_elements elements)
  | .object members => .object (fun _ hentry => hentry)
      (List.forall₂_same.mpr fun key _ => .refl key) (refl_members members)
      fun key hkey => ⟨key, hkey, .refl key⟩

theorem refl_elements : ∀ elements : List Json, List.Forall₂ ReadAs elements elements
  | [] => .nil
  | element :: elements => .cons (refl element) (refl_elements elements)

theorem refl_members : ∀ members : List (String × Json),
    List.Forall₂ ReadAs (members.map Prod.snd) (members.map Prod.snd)
  | [] => .nil
  | (_, value) :: members => .cons (refl value) (refl_members members)

end

/-- The members of an object may be read in another order. -/
theorem reordered {members members' : Object} (hsubset : ∀ entry ∈ members', entry ∈ members)
    (hkeys : ∀ key ∈ members.map Prod.fst, key ∈ members'.map Prod.fst) :
    ReadAs (.object members) (.object members') :=
  .object hsubset (List.forall₂_same.mpr fun key _ => .refl key) (refl_members members')
    fun key hkey => ⟨key, hkeys key hkey, .refl key⟩

variable {written read : Json} {members members' : Object} {key : String}

/-- A string is read as a string, and as itself where it is ASCII. -/
theorem string_read {text : String} (h : ReadAs (.string text) read) :
    ∃ text', read = .string text' ∧ SameText text text' := by
  cases h with
  | string same => exact ⟨_, rfl, same⟩

theorem ascii_read {text : String} (h : ReadAs (.string text) read) (htext : Ascii text) :
    read = .string text := by
  obtain ⟨text', rfl, hsame⟩ := h.string_read
  rw [hsame (.inl htext)]

theorem asString (h : ReadAs written read) {text : String} (hread : read.asString? = some text)
    (htext : Ascii text) : written.asString? = some text := by
  cases h with
  | string same =>
    obtain rfl := Option.some.inj hread
    rw [same (.inr htext)]
    rfl
  | _ => simp [asString?] at hread

theorem asInteger (h : ReadAs written read) {value : ℤ} (hread : read.asInteger? = some value)
    {written' : ℤ} (hwritten : written.asInteger? = some written') : value = written' := by
  cases h with
  | integer => exact Option.some.inj (hread.symm.trans hwritten)
  | _ => simp [asInteger?] at hread hwritten

theorem asArray (h : ReadAs written read) {elements' : List Json}
    (hread : read.asArray? = some elements') :
    ∃ elements, written.asArray? = some elements ∧ List.Forall₂ ReadAs elements elements' := by
  cases h with
  | array each =>
    obtain rfl := Option.some.inj hread
    exact ⟨_, rfl, each⟩
  | _ => simp [asArray?] at hread

theorem asObject (h : ReadAs written read) (hread : read.asObject? = some members') :
    ∃ members, written.asObject? = some members ∧ ReadAs (.object members) (.object members') := by
  cases h with
  | object subset keys values all =>
    obtain rfl := Option.some.inj hread
    exact ⟨_, rfl, .object subset keys values all⟩
  | _ => simp [asObject?] at hread

/-! ## Members -/

/-- A member that is read was written. -/
theorem get_some (h : ReadAs (.object members) (.object members'))
    (hnodup : (members.map Prod.fst).Nodup) (hkey : Ascii key) {value' : Json}
    (hget : members'.get key = some value') :
    ∃ value, members.get key = some value ∧ ReadAs value value' := by
  cases h with
  | @object _ kept _ subset keys values _ =>
    obtain ⟨index, hlt, hindex⟩ := List.getElem_of_mem (Object.mem_of_get hget)
    rw [List.forall₂_map_left_iff, List.forall₂_map_right_iff] at keys values
    have hkept : index < kept.length := keys.length_eq ▸ hlt
    have hsame : SameText kept[index].1 members'[index].1 := keys.get hkept hlt
    have hvalue : ReadAs kept[index].2 members'[index].2 := values.get hkept hlt
    rw [hindex] at hsame hvalue
    have hmem : (key, kept[index].2) ∈ members := by
      rw [show key = kept[index].1 from (hsame (.inr hkey)).symm]
      exact subset _ (List.getElem_mem hkept)
    exact ⟨_, Object.get_of_mem hnodup hmem, hvalue⟩

/-- A member that is not written is not read. -/
theorem get_eq_none (h : ReadAs (.object members) (.object members'))
    (hnodup : (members.map Prod.fst).Nodup) (hkey : Ascii key) (hget : members.get key = none) :
    members'.get key = none := by
  by_contra hsome
  obtain ⟨value', hvalue'⟩ := Option.ne_none_iff_exists'.mp hsome
  obtain ⟨value, hvalue, -⟩ := h.get_some hnodup hkey hvalue'
  simp [hget] at hvalue

/-- A member that is written is read. -/
theorem get_none (h : ReadAs (.object members) (.object members')) (hkey : Ascii key)
    (hget : members'.get key = none) : members.get key = none := by
  cases h with
  | object _ _ _ all =>
    refine Association.lookup_eq_none_iff_mem.mpr fun hmem => ?_
    obtain ⟨key', hkey', hsame⟩ := all key hmem
    rw [← hsame (.inl hkey)] at hkey'
    exact Association.lookup_eq_none_iff_mem.mp hget hkey'

/-- A member that is written is read under its key. -/
theorem get_of_get (h : ReadAs (.object members) (.object members'))
    (hnodup : (members.map Prod.fst).Nodup) (hkey : Ascii key) {value : Json}
    (hget : members.get key = some value) :
    ∃ value', members'.get key = some value' ∧ ReadAs value value' := by
  cases hread : members'.get key with
  | none => simp [h.get_none hkey hread] at hget
  | some value' =>
    obtain ⟨value₁, hvalue₁, hvalue⟩ := h.get_some hnodup hkey hread
    obtain rfl := Option.some.inj (hget.symm.trans hvalue₁)
    exact ⟨value', rfl, hvalue⟩

/-- The keys that are read are those that were written, where these are ASCII. -/
theorem keys_perm (h : ReadAs (.object members) (.object members'))
    (hnodup : (members.map Prod.fst).Nodup) (hnodup' : (members'.map Prod.fst).Nodup)
    (hascii : ∀ key ∈ members.map Prod.fst, Ascii key) :
    (members'.map Prod.fst).Perm (members.map Prod.fst) := by
  refine (List.perm_ext_iff_of_nodup hnodup' hnodup).mpr fun key => ?_
  cases h with
  | @object _ kept _ subset keys _ all =>
    constructor
    · intro hkey
      obtain ⟨key', hkept, hsame⟩ := Checked.exists_of_forall₂_right keys hkey
      obtain ⟨entry, hentry, rfl⟩ := List.mem_map.mp hkept
      have hmem : entry.1 ∈ members.map Prod.fst := List.mem_map.mpr ⟨entry, subset entry hentry, rfl⟩
      exact hsame (.inl (hascii _ hmem)) ▸ hmem
    · intro hkey
      obtain ⟨key', hkey', hsame⟩ := all key hkey
      exact hsame (.inl (hascii key hkey)) ▸ hkey'

/-- An object is read as one with its keys, where these are ASCII. -/
theorem object_read (h : ReadAs (.object members) read) (hdistinct : read.Distinct)
    (hnodup : (members.map Prod.fst).Nodup) (hascii : ∀ key ∈ members.map Prod.fst, Ascii key) :
    ∃ members', read = .object members' ∧ (members'.map Prod.fst).Perm (members.map Prod.fst) ∧
      ∀ entry' ∈ members', entry'.2.Distinct ∧ ∃ entry ∈ members, entry.1 = entry'.1 ∧
        ReadAs entry.2 entry'.2 := by
  cases h with
  | @object _ _ members' subset keys values all =>
    have hread : ReadAs (.object members) (.object members') := .object subset keys values all
    have hperm := hread.keys_perm hnodup hdistinct.1 hascii
    refine ⟨members', rfl, hperm, fun entry' hentry => ⟨distinct_of_mem hdistinct.2 hentry, ?_⟩⟩
    have hkey : Ascii entry'.1 :=
      hascii _ (hperm.mem_iff.mp (List.mem_map.mpr ⟨entry', hentry, rfl⟩))
    obtain ⟨value, hvalue, heach⟩ :=
      hread.get_some hnodup hkey (Object.get_of_mem hdistinct.1 hentry)
    exact ⟨(entry'.1, value), Object.mem_of_get hvalue, rfl, heach⟩

/-- The keys that are written are among names that are read, where there is no other member. -/
theorem keys_mem (h : ReadAs (.object members) (.object members')) {names : List String}
    (hnames : names.Nodup) (hlength : members'.length = names.length) (hascii : ∀ name ∈ names, Ascii name)
    (hread : ∀ name ∈ names, name ∈ members'.map Prod.fst) :
    ∀ key ∈ members.map Prod.fst, key ∈ names := by
  intro key hmem
  have hperm : names.Perm (members'.map Prod.fst) :=
    (List.subperm_of_subset hnames hread).perm_of_length_le (by simp [hlength])
  cases h with
  | object _ _ _ all =>
    obtain ⟨key', hkey', hsame⟩ := all key hmem
    have hname : key' ∈ names := hperm.mem_iff.mpr hkey'
    rwa [hsame (.inr (hascii key' hname))]

section Fields

variable (h : ReadAs (.object members) (.object members')) (hnodup : (members.map Prod.fst).Nodup)
  (hkey : Ascii key)

include h hnodup hkey

theorem getString {text : String} (hget : members'.getString key = some text) (htext : Ascii text) :
    members.getString key = some text := by
  obtain ⟨value', hvalue', htext'⟩ := Option.bind_eq_some_iff.mp hget
  obtain ⟨value, hvalue, hread⟩ := h.get_some hnodup hkey hvalue'
  exact Option.bind_eq_some_iff.mpr ⟨value, hvalue, hread.asString htext' htext⟩

theorem getArray {elements' : List Json} (hget : members'.getArray key = some elements') :
    ∃ elements, members.getArray key = some elements ∧
      List.Forall₂ ReadAs elements elements' := by
  obtain ⟨value', hvalue', helements'⟩ := Option.bind_eq_some_iff.mp hget
  obtain ⟨value, hvalue, hread⟩ := h.get_some hnodup hkey hvalue'
  obtain ⟨elements, helements, heach⟩ := hread.asArray helements'
  exact ⟨elements, Option.bind_eq_some_iff.mpr ⟨value, hvalue, helements⟩, heach⟩

theorem getObject {inner' : Object} (hget : members'.getObject key = some inner') :
    ∃ inner, members.getObject key = some inner ∧ ReadAs (.object inner) (.object inner') := by
  obtain ⟨value', hvalue', hinner'⟩ := Option.bind_eq_some_iff.mp hget
  obtain ⟨value, hvalue, hread⟩ := h.get_some hnodup hkey hvalue'
  obtain ⟨inner, hinner, hobject⟩ := hread.asObject hinner'
  exact ⟨inner, Option.bind_eq_some_iff.mpr ⟨value, hvalue, hinner⟩, hobject⟩

end Fields

/-- Strings that are read as ASCII ones are those that were written. -/
theorem strings {texts texts' : List String} {elements' : List Json}
    (h : List.Forall₂ ReadAs (texts.map Json.string) elements')
    (hread : List.Forall₂ (fun element text => element.asString? = some text) elements' texts')
    (hascii : ∀ text ∈ texts', Ascii text) : texts' = texts := by
  induction texts generalizing elements' texts' with
  | nil =>
    cases h
    cases hread
    rfl
  | cons text texts ih =>
    cases h with
    | cons hfirst hrest =>
      cases hread with
      | cons htext hread =>
        obtain ⟨hascii, hasciis⟩ := List.forall_mem_cons.mp hascii
        obtain rfl := Option.some.inj (hfirst.asString htext hascii)
        rw [ih hrest hread hasciis]

end ReadAs

end Json
