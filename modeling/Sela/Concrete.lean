import Mathlib.Data.String.Basic
import Sela.DomainVerification

/-!
# Concrete types and attributes

What specialization leaves for a target is concrete : no word, no choice, every extent a
literal, every overlap alternative the target's, and an initializer with a count holds as
many elements. A specialized type or attribute is concrete (`specializeType_concrete`,
`specializeAttribute_concrete`), and a concrete one is its own specialization
(`specializeType_of_concrete`, `specializeAttribute_of_concrete`), so specializing twice is
specializing once. What a module's verification accepts of an attribute or a type for
several targets it accepts of the specialized one for its target
(`checkAttribute_specialized`, `checkType_specialized`).
-/

namespace Sela

open Checked

/-! ## Dictionaries in order -/

/-- The names of a dictionary are in order, each once. -/
def Attributes.Sorted (attributes : Attributes) : Prop :=
  (attributes.map Prod.fst).Pairwise (· < ·)

instance (attributes : Attributes) : Decidable attributes.Sorted :=
  inferInstanceAs (Decidable (List.Pairwise _ _))

namespace Attributes

theorem get_eq_none_iff {name : String} :
    ∀ {attributes : Attributes}, get attributes name = none ↔ name ∉ attributes.map Prod.fst
  | [] => by simp
  | (n, a) :: rest => by
    rw [get_cons]
    split
    · simp [*]
    · rename_i hn
      rw [get_eq_none_iff]
      simp [Ne.symm hn]

/-- Dropping a name that is not there changes nothing. -/
theorem erase_of_get {name : String} {attributes : Attributes} (h : get attributes name = none) :
    erase attributes name = attributes := by
  refine List.filter_eq_self.mpr fun entry hentry => ?_
  have hname : entry.1 ≠ name := fun heq =>
    get_eq_none_iff.mp h (heq ▸ List.mem_map_of_mem hentry)
  simpa using hname

/-- Setting a name that has the value already changes nothing. -/
theorem set_of_get {name : String} {value : Attr} :
    ∀ {attributes : Attributes}, Sorted attributes → get attributes name = some value →
      set name value attributes = attributes
  | (n, a) :: rest, hsorted, h => by
    obtain ⟨hhead, hrest⟩ := List.pairwise_cons.mp hsorted
    rw [get_cons] at h
    unfold set
    split
    · simp_all
    · rename_i hn
      rw [if_neg hn] at h
      have hmem : name ∈ rest.map Prod.fst := List.mem_map_of_mem (mem_of_get h)
      rw [if_neg (lt_asymm (hhead name hmem)), set_of_get hrest h]

/-- Replacing the value of a name keeps the names. -/
theorem map_fst_set {name : String} {value : Attr} :
    ∀ {attributes : Attributes}, Sorted attributes → name ∈ attributes.map Prod.fst →
      (set name value attributes).map Prod.fst = attributes.map Prod.fst
  | (n, a) :: rest, hsorted, h => by
    obtain ⟨hhead, hrest⟩ := List.pairwise_cons.mp hsorted
    unfold set
    split
    · simp_all
    · rename_i hn
      have hmem : name ∈ rest.map Prod.fst := by
        rcases List.mem_cons.mp h with h | h
        · exact absurd h.symm hn
        · exact h
      rw [if_neg (lt_asymm (hhead name hmem)), List.map_cons, map_fst_set hrest hmem, List.map_cons]

/-- What a dictionary with a replaced value holds. -/
theorem mem_set {name : String} {value : Attr} {entry : String × Attr} :
    ∀ {attributes : Attributes}, entry ∈ set name value attributes →
      entry = (name, value) ∨ entry ∈ attributes
  | [], h => by simpa [set] using h
  | (n, a) :: rest, h => by
    unfold set at h
    split at h
    · rcases List.mem_cons.mp h with h | h <;> simp [h]
    · split at h
      · rcases List.mem_cons.mp h with h | h
        · exact .inl h
        · exact .inr h
      · rcases List.mem_cons.mp h with h | h
        · simp [h]
        · rcases mem_set h with h | h <;> simp [h]

theorem Sorted.set {name : String} {value : Attr} :
    ∀ {attributes : Attributes}, Sorted attributes → Sorted (attributes.set name value)
  | [], _ => by simp [Sorted, Attributes.set]
  | (n, a) :: rest, hsorted => by
    obtain ⟨hhead, hrest⟩ := List.pairwise_cons.mp hsorted
    unfold Attributes.set
    split
    · rename_i hn
      exact List.pairwise_cons.mpr ⟨hn ▸ hhead, hrest⟩
    · split
      · rename_i hlt
        refine List.pairwise_cons.mpr ⟨fun m hm => ?_, hsorted⟩
        rcases List.mem_cons.mp hm with rfl | hm
        · exact hlt
        · exact hlt.trans (hhead m hm)
      · rename_i hn hlt
        refine List.pairwise_cons.mpr ⟨fun m hm => ?_, Sorted.set hrest⟩
        obtain ⟨entry, hentry, rfl⟩ := List.mem_map.mp hm
        rcases mem_set hentry with rfl | hentry
        · exact lt_of_le_of_ne (not_lt.mp hlt) hn
        · exact hhead entry.1 (List.mem_map_of_mem hentry)

theorem Sorted.erase {name : String} {attributes : Attributes} (h : Sorted attributes) :
    Sorted (attributes.erase name) :=
  h.sublist (List.filter_sublist.map _)

/-- In a dictionary in order each name has one value. -/
theorem Sorted.get_of_mem {name : String} {value : Attr} :
    ∀ {attributes : Attributes}, Sorted attributes → (name, value) ∈ attributes →
      attributes.get name = some value
  | (n, a) :: rest, hsorted, h => by
    obtain ⟨hhead, hrest⟩ := List.pairwise_cons.mp hsorted
    rw [get_cons]
    rcases List.mem_cons.mp h with heq | h
    · obtain ⟨rfl, rfl⟩ := Prod.mk.inj heq
      simp
    · have hlt := hhead name (List.mem_map_of_mem h)
      rw [if_neg hlt.ne]
      exact get_of_mem hrest h

end Attributes

/-! ## Well-formed types and attributes -/

/-- The scalars of the framework, which a vector may hold. -/
def SelaType.isScalar : SelaType → Bool
  | .integer _ | .f32 | .f64 | .foreign _ => true
  | _ => false

mutual

/-- A type the framework can build : every vector holds scalars. -/
def SelaType.WellFormed : SelaType → Prop
  | .vector _ _ element => element.isScalar = true
  | .function inputs results => typesWellFormed inputs ∧ typesWellFormed results
  | .array element count => element.WellFormed ∧ count.WellFormed
  | .choice cases => cases.WellFormed
  | .record _ _ fields => typesWellFormed fields
  | .overlap _ alternatives domains => typesWellFormed alternatives ∧ attrsWellFormed domains
  | _ => True

def typesWellFormed : List SelaType → Prop
  | [] => True
  | type :: types => type.WellFormed ∧ typesWellFormed types

/-- An attribute the framework can build : every dictionary is in order. -/
def Attr.WellFormed : Attr → Prop
  | .type type => type.WellFormed
  | .array elements => attrsWellFormed elements
  | .dictionary entries => Attributes.Sorted entries ∧ entriesWellFormed entries
  | _ => True

def attrsWellFormed : List Attr → Prop
  | [] => True
  | element :: elements => element.WellFormed ∧ attrsWellFormed elements

def entriesWellFormed : List (String × Attr) → Prop
  | [] => True
  | (_, value) :: entries => value.WellFormed ∧ entriesWellFormed entries

end

theorem typesWellFormed_iff : ∀ {types : List SelaType},
    typesWellFormed types ↔ ∀ type ∈ types, type.WellFormed
  | [] => by simp [typesWellFormed]
  | type :: types => by rw [typesWellFormed, typesWellFormed_iff, List.forall_mem_cons]

theorem attrsWellFormed_iff : ∀ {elements : List Attr},
    attrsWellFormed elements ↔ ∀ element ∈ elements, element.WellFormed
  | [] => by simp [attrsWellFormed]
  | element :: elements => by rw [attrsWellFormed, attrsWellFormed_iff, List.forall_mem_cons]

theorem entriesWellFormed_iff : ∀ {entries : List (String × Attr)},
    entriesWellFormed entries ↔ ∀ entry ∈ entries, entry.2.WellFormed
  | [] => by simp [entriesWellFormed]
  | (name, value) :: entries => by
    rw [entriesWellFormed, entriesWellFormed_iff, List.forall_mem_cons]

theorem Attr.WellFormed.get {entries : Attributes} {name : String} {value : Attr}
    (h : (Attr.dictionary entries).WellFormed) (hget : Attributes.get entries name = some value) :
    value.WellFormed :=
  entriesWellFormed_iff.mp h.2 (name, value) (Attributes.mem_of_get hget)

/-! ## Selected cases -/

/-- What holds of the values of a choice holds of the one selected. -/
theorem selectCase_of {target : String} (P : Attr → Prop) :
    ∀ {cases : List Attr} {selected : Option Attr} {result : Attr},
      (∀ entries value, Attr.dictionary entries ∈ cases →
        (Attributes.get entries "targets").any (containsTarget · target) = true →
        Attributes.get entries "value" = some value → P value) →
      (∀ a, selected = some a → P a) →
      selectCase target cases selected = .ok result → P result
  | [], selected, result, _, hselected, h => by
    cases selected with
    | none => simp [selectCase] at h
    | some a =>
      obtain rfl : a = result := by simpa [selectCase] using h
      exact hselected a rfl
  | case :: cases, selected, result, hcases, hselected, h => by
    have hrest : ∀ entries value, Attr.dictionary entries ∈ cases →
        (Attributes.get entries "targets").any (containsTarget · target) = true →
        Attributes.get entries "value" = some value → P value :=
      fun entries value hmem => hcases entries value (List.mem_cons_of_mem _ hmem)
    unfold selectCase at h
    split at h
    · simp at h
    · rename_i entry hentry
      obtain rfl : case = .dictionary entry := by simpa using hentry
      split at h
      · simp at h
      · rename_i value hvalue
        split at h
        · simp at h
        · split at h
          · exact selectCase_of P hrest hselected h
          · rename_i htargets
            split at h
            · simp at h
            · refine selectCase_of P hrest (fun a ha => ?_) h
              obtain rfl := Option.some.inj ha
              exact hcases entry value (by simp) (by simpa using htargets) hvalue

/-- A selected attribute is no choice. -/
theorem selectNested_plain {target : String} :
    ∀ {depth : ℕ} {input : Attr} {entries : Attributes},
      selectNested target depth input = .ok (.dictionary entries) →
      Attributes.get entries "target_cases" = none
  | 0, input, entries, h => by simp [selectNested] at h
  | depth + 1, input, entries, h => by
    unfold selectNested at h
    split at h
    · rename_i hinput
      obtain rfl : input = .dictionary entries := by simpa using h
      simp [Attr.asDictionary?] at hinput
    · rename_i dictionary hdictionary
      split at h
      · rename_i hnone
        obtain rfl : input = .dictionary entries := by simpa using h
        obtain rfl : entries = dictionary := by simpa using hdictionary
        exact hnone
      · split at h
        · simp at h
        · split at h
          · simp at h
          · obtain ⟨selected, -, h⟩ := bind_ok.mp h
            exact selectNested_plain h

theorem selectNested_wellFormed {target : String} :
    ∀ {depth : ℕ} {input result : Attr}, input.WellFormed →
      selectNested target depth input = .ok result → result.WellFormed
  | 0, input, result, _, h => by simp [selectNested] at h
  | depth + 1, input, result, hinput, h => by
    unfold selectNested at h
    split at h
    · obtain rfl : input = result := by simpa using h
      exact hinput
    · rename_i dictionary hdictionary
      obtain rfl : input = .dictionary dictionary := by simpa using hdictionary
      split at h
      · obtain rfl : Attr.dictionary dictionary = result := by simpa using h
        exact hinput
      · rename_i raw hraw
        split at h
        · simp at h
        · rename_i cases hcases
          obtain rfl : raw = .array cases := by simpa using hcases
          split at h
          · simp at h
          · obtain ⟨selected, hselected, h⟩ := bind_ok.mp h
            have helements := attrsWellFormed_iff.mp (hinput.get hraw)
            refine selectNested_wellFormed (selectCase_of Attr.WellFormed ?_ (by simp) hselected) h
            intro entries value hmem _ hvalue
            exact (helements _ hmem).get hvalue

/-- An attribute that is no choice is what a target sees of it. -/
theorem selectAttribute_of_plain {input : Attr} {target : String}
    (h : ∀ entries, input = .dictionary entries → Attributes.get entries "target_cases" = none) :
    selectAttribute input target = .ok input := by
  unfold selectAttribute selectNested
  split
  · rfl
  · rename_i dictionary hdictionary
    rw [h dictionary (by simpa using hdictionary)]
    rfl

/-! ## Concrete types -/

mutual

/-- A type with nothing left to select for the target `id`. -/
def SelaType.Concrete (id : String) : SelaType → Prop
  | .word => False
  | .choice _ => False
  | .vector _ _ element => element.Concrete id
  | .function inputs results => typesConcrete id inputs ∧ typesConcrete id results
  | .array element count => element.Concrete id ∧ ∃ extent, count = .integer 64 extent
  | .record _ _ fields => typesConcrete id fields
  | .overlap _ alternatives domains =>
    alternatives ≠ [] ∧ domains = alternatives.map (fun _ => targetSet [id]) ∧
      typesConcrete id alternatives
  | _ => True

def typesConcrete (id : String) : List SelaType → Prop
  | [] => True
  | type :: types => type.Concrete id ∧ typesConcrete id types

end

theorem typesConcrete_iff {id : String} : ∀ {types : List SelaType},
    typesConcrete id types ↔ ∀ type ∈ types, type.Concrete id
  | [] => by simp [typesConcrete]
  | type :: types => by rw [typesConcrete, typesConcrete_iff, List.forall_mem_cons]

theorem SelaType.concrete_of_isScalar {id : String} {type : SelaType} (h : type.isScalar = true) :
    type.Concrete id := by
  unfold SelaType.isScalar at h
  split at h <;> simp_all [SelaType.Concrete]

/-- A specialized list of types, element by element. -/
theorem specializeTypes_concrete {target : TargetInfo} {types results : List SelaType}
    (ih : ∀ type ∈ types, ∀ result, specializeType target type = .ok result →
      result.Concrete target.id)
    (h : types.mapM (fun type => specializeType target type) = .ok results) :
    typesConcrete target.id results := by
  refine typesConcrete_iff.mpr fun result hresult => ?_
  obtain ⟨type, htype, hspecialized⟩ := exists_of_forall₂_right (mapM_ok.mp h) hresult
  exact ih type htype result hspecialized

/-- A specialized type is concrete. -/
theorem specializeType_concrete {target : TargetInfo} {type result : SelaType}
    (hform : type.WellFormed) (h : specializeType target type = .ok result) :
    result.Concrete target.id := by
  match type, hform with
  | .word, _ =>
    rw [specializeType] at h
    obtain rfl := Except.ok.inj h
    trivial
  | .choice cases, hform =>
    rw [specializeType_choice] at h
    obtain ⟨selected, hselected, h⟩ := bind_ok.mp h
    have hsize := selectAttribute_sizeOf hselected
    have hselectedForm := selectNested_wellFormed hform hselected
    split at h
    · rename_i concrete
      have : sizeOf concrete < sizeOf (SelaType.choice cases) := by simp at hsize ⊢; omega
      exact specializeType_concrete hselectedForm h
    · simp at h
  | .array element count, hform =>
    rw [specializeType] at h
    obtain ⟨extent, -, h⟩ := bind_ok.mp h
    obtain ⟨element', helement, h⟩ := bind_ok.mp h
    obtain rfl := Except.ok.inj h
    exact ⟨specializeType_concrete hform.1 helement, extent, rfl⟩
  | .record identity packed fields, hform =>
    rw [specializeType] at h
    obtain ⟨fields', hfields, h⟩ := bind_ok.mp h
    obtain rfl := Except.ok.inj h
    refine specializeTypes_concrete (fun field hfield result hresult => ?_) hfields
    have := List.sizeOf_lt_of_mem hfield
    exact specializeType_concrete (typesWellFormed_iff.mp hform field hfield) hresult
  | .overlap identity alternatives domains, hform =>
    rw [specializeType_overlap] at h
    split at h
    · simp at h
    · obtain ⟨kept, hkept, h⟩ := bind_ok.mp h
      split at h
      · simp at h
      · rename_i hne
        obtain rfl := Except.ok.inj h
        refine ⟨hne, rfl, typesConcrete_iff.mpr fun result hresult => ?_⟩
        obtain ⟨entry, hentry, hresult⟩ := exists_of_forall₂_right (mapM_ok.mp hkept) hresult
        have hmem : entry.1 ∈ alternatives := (List.of_mem_zip (List.mem_of_mem_filter hentry)).1
        have := List.sizeOf_lt_of_mem hmem
        exact specializeType_concrete (typesWellFormed_iff.mp hform.1 _ hmem) hresult
  | .function inputs results, hform =>
    rw [specializeType] at h
    obtain ⟨inputs', hinputs, h⟩ := bind_ok.mp h
    obtain ⟨results', hresults, h⟩ := bind_ok.mp h
    obtain rfl := Except.ok.inj h
    constructor
    · refine specializeTypes_concrete (fun input hinput result hresult => ?_) hinputs
      have := List.sizeOf_lt_of_mem hinput
      exact specializeType_concrete (typesWellFormed_iff.mp hform.1 input hinput) hresult
    · refine specializeTypes_concrete (fun input hinput result hresult => ?_) hresults
      have := List.sizeOf_lt_of_mem hinput
      exact specializeType_concrete (typesWellFormed_iff.mp hform.2 input hinput) hresult
  | .vector shape scalable element, hform =>
    simp only [specializeType, pure_eq_ok, Except.ok.injEq] at h
    subst h
    rw [SelaType.Concrete]
    exact SelaType.concrete_of_isScalar (by simpa [SelaType.WellFormed] using hform)
  | .integer _, _ | .f32, _ | .f64, _ | .foreign _, _ | .ptr, _ | .vaList, _ | .vaListArgument, _ =>
    simp only [specializeType, pure_eq_ok, Except.ok.injEq] at h
    subst h
    trivial
termination_by sizeOf type
decreasing_by all_goals (simp_all; try omega)

/-- Specializing each of a list of concrete types changes none. -/
theorem specializeTypes_of_concrete {target : TargetInfo} {types : List SelaType}
    (ih : ∀ type ∈ types, specializeType target type = .ok type) :
    types.mapM (fun type => specializeType target type) = .ok types :=
  mapM_ok.mpr (List.forall₂_same.mpr ih)

/-- A concrete type is its own specialization. -/
theorem specializeType_of_concrete {target : TargetInfo} {type : SelaType}
    (h : type.Concrete target.id) : specializeType target type = .ok type := by
  match type, h with
  | .array element count, h =>
    obtain ⟨helement, extent, rfl⟩ := h
    have hcount : evaluateInteger (.integer 64 extent) target = .ok extent := by
      rw [evaluateInteger, selectAttribute_of_plain (by simp)]
      rfl
    rw [specializeType, hcount, ok_bind, specializeType_of_concrete helement]
    rfl
  | .record identity packed fields, h =>
    have hfields : ∀ field ∈ fields, specializeType target field = .ok field := fun field hfield =>
      have := List.sizeOf_lt_of_mem hfield
      specializeType_of_concrete (typesConcrete_iff.mp h field hfield)
    rw [specializeType, specializeTypes_of_concrete hfields]
    rfl
  | .overlap identity alternatives domains, h =>
    obtain ⟨hne, rfl, halternatives⟩ := h
    have hkeep : ((alternatives.zip (alternatives.map fun _ => targetSet [target.id])).filter
        (containsTarget ·.2 target.id)) =
        alternatives.zip (alternatives.map fun _ => targetSet [target.id]) := by
      refine List.filter_eq_self.mpr fun entry hentry => ?_
      obtain ⟨_, -, hdomain⟩ := List.mem_map.mp (List.of_mem_zip hentry).2
      simp [← hdomain]
    have hkept : ((alternatives.zip (alternatives.map fun _ => targetSet [target.id])).mapM
        fun entry => specializeType target entry.1) = .ok alternatives := by
      rw [show (fun entry : SelaType × Attr => specializeType target entry.1) =
          (fun type => specializeType target type) ∘ Prod.fst from rfl, ← List.mapM_map,
        List.map_fst_zip (by simp)]
      refine specializeTypes_of_concrete fun type htype => ?_
      have := List.sizeOf_lt_of_mem htype
      exact specializeType_of_concrete (typesConcrete_iff.mp halternatives type htype)
    rw [specializeType_overlap, if_neg (by simp), hkeep, hkept, ok_bind, if_neg hne]
    rfl
  | .function inputs results, h =>
    have hinputs : ∀ input ∈ inputs, specializeType target input = .ok input := fun input hinput =>
      have := List.sizeOf_lt_of_mem hinput
      specializeType_of_concrete (typesConcrete_iff.mp h.1 input hinput)
    have hresults : ∀ input ∈ results, specializeType target input = .ok input := fun input hinput =>
      have := List.sizeOf_lt_of_mem hinput
      specializeType_of_concrete (typesConcrete_iff.mp h.2 input hinput)
    rw [specializeType, specializeTypes_of_concrete hinputs, ok_bind,
      specializeTypes_of_concrete hresults]
    rfl
  | .vector _ _ _, _ | .integer _, _ | .f32, _ | .f64, _ | .foreign _, _ | .ptr, _ | .vaList, _
  | .vaListArgument, _ => simp only [specializeType, pure_eq_ok]
termination_by sizeOf type
decreasing_by all_goals (simp_all; try omega)

/-! ## The checks of a concrete type -/

/-- The type a choice has for a target is one of those checked. -/
theorem checkCaseTypes_selected {target : String} {check : SelaType → Checked Unit}
    {type : SelaType} :
    ∀ {level depth : ℕ} {raw : Attr}, checkCaseTypes check level raw = .ok () →
      selectNested target depth raw = .ok (.type type) → check type = .ok ()
  | 0, _, _, hcheck, _ => by simp [checkCaseTypes] at hcheck
  | _, 0, _, _, h => by simp [selectNested] at h
  | level + 1, depth + 1, .type held, hcheck, h => by
    obtain rfl : held = type := by simpa [selectNested, Attr.asDictionary?] using h
    simpa [checkCaseTypes] using hcheck
  | level + 1, depth + 1, .dictionary dictionary, hcheck, h => by
    simp only [checkCaseTypes] at hcheck
    split at hcheck
    · simp at hcheck
    · rename_i alternatives halternatives
      obtain ⟨raw, hraw, helements⟩ := Option.bind_eq_some_iff.mp halternatives
      simp only [selectNested, Attr.asDictionary?, hraw, helements] at h
      split at h
      · simp at h
      · obtain ⟨selected, hselected, h⟩ := bind_ok.mp h
        have hvalue : checkCaseTypes check level selected = .ok () := by
          refine selectCase_of (checkCaseTypes check level · = .ok ()) ?_ (by simp) hselected
          intro entries value hmem _ hvalue
          have := forM_ok.mp hcheck _ hmem
          simpa [Attr.asDictionary?, hvalue] using this
        exact checkCaseTypes_selected hvalue h
  | level + 1, depth + 1, .unit, hcheck, _ | level + 1, depth + 1, .integer _ _, hcheck, _
  | level + 1, depth + 1, .float _ _, hcheck, _ | level + 1, depth + 1, .string _, hcheck, _
  | level + 1, depth + 1, .array _, hcheck, _ | level + 1, depth + 1, .denseI32 _, hcheck, _
  | level + 1, depth + 1, .foreign _, hcheck, _ => by simp [checkCaseTypes] at hcheck

theorem checkType_record {declared : List String} {depth : ℕ} {identity : String}
    {packed : Bool} {fields : List SelaType} :
    checkType declared (depth + 1) (.record identity packed fields) = .ok () ↔
      (identity = "" ∨ checkIdentity identity = .ok ()) ∧
        fields.forM (fun field => checkType declared depth field) = .ok () := by
  simp only [checkType]
  split
  · simp [*]
  · rename_i hidentity
    rw [bind_ok, or_iff_right hidentity]
    exact ⟨fun ⟨_, hcheck, h⟩ => ⟨hcheck, h⟩, fun ⟨hcheck, h⟩ => ⟨(), hcheck, h⟩⟩

/-- A concrete type that passes within a depth passes within the next one. -/
theorem checkType_succ {id : String} {declared : List String} :
    ∀ {depth : ℕ} {type : SelaType}, type.Concrete id → checkType declared depth type = .ok () →
      checkType declared (depth + 1) type = .ok ()
  | 0, _, _, h => by simp [checkType] at h
  | depth + 1, type, hconcrete, h => by
    have ih : ∀ {types : List SelaType}, typesConcrete id types →
        types.forM (fun field => checkType declared depth field) = .ok () →
        types.forM (fun field => checkType declared (depth + 1) field) = .ok () :=
      fun htypes h => forM_ok.mpr fun field hfield =>
        checkType_succ (typesConcrete_iff.mp htypes field hfield) (forM_ok.mp h field hfield)
    unfold checkType at h ⊢
    split at h
    · exact hconcrete.elim
    · obtain ⟨_, hcount, h⟩ := bind_ok.mp h
      exact bind_ok.mpr ⟨_, hcount, checkType_succ hconcrete.1 h⟩
    · rename_i identity packed fields
      obtain ⟨hidentity, h⟩ := (@checkType_record _ _ _ packed _).mp (by rwa [checkType])
      have := (@checkType_record _ _ _ packed _).mpr ⟨hidentity, ih hconcrete h⟩
      rwa [checkType] at this
    · obtain ⟨_, hinventory, h⟩ := bind_ok.mp h
      obtain ⟨_, hdomains, h⟩ := bind_ok.mp h
      obtain ⟨_, hidentity, h⟩ := bind_ok.mp h
      exact bind_ok.mpr ⟨_, hinventory, bind_ok.mpr ⟨_, hdomains, bind_ok.mpr ⟨_, hidentity,
        ih hconcrete.2.2 h⟩⟩⟩
    · obtain ⟨_, hresults, h⟩ := bind_ok.mp h
      obtain ⟨_, hinputs, h⟩ := bind_ok.mp h
      exact bind_ok.mpr ⟨_, hresults, bind_ok.mpr ⟨_, ih hconcrete.1 hinputs, ih hconcrete.2 h⟩⟩
    · exact h
    · exact h
    · exact h
    · obtain ⟨_, hshape, h⟩ := bind_ok.mp h
      rw [SelaType.Concrete] at hconcrete
      exact bind_ok.mpr ⟨_, hshape, checkType_succ hconcrete h⟩
    · simp at h
    all_goals rfl

@[simp] theorem checkSet_targetSet (id : String) : checkSet (some (targetSet [id])) [id] = .ok [id] := by
  simp [checkSet, targetSet, Attr.asArray?, Attr.asString?, require, ensure]

/-- A registered word is an integer the schema admits. -/
theorem wordBits_le {target : TargetInfo} (h : target ∈ targets.all) :
    1 ≤ target.wordBits ∧ target.wordBits ≤ 128 := by
  revert target
  decide

/-- A type that passes for several targets passes, once specialized, for its target. -/
theorem checkType_specialized {target : TargetInfo} (htarget : target ∈ targets.all)
    {declared : List String} :
    ∀ {depth : ℕ} {type result : SelaType}, type.WellFormed →
      checkType declared depth type = .ok () → specializeType target type = .ok result →
      checkType [target.id] depth result = .ok ()
  | 0, _, _, _, h, _ => by simp [checkType] at h
  | depth + 1, type, result, hform, hcheck, h => by
    have ih : ∀ {types results : List SelaType}, typesWellFormed types →
        types.forM (fun field => checkType declared depth field) = .ok () →
        types.mapM (fun field => specializeType target field) = .ok results →
        results.forM (fun field => checkType [target.id] depth field) = .ok () :=
      fun hform hcheck h => forM_ok.mpr fun result hresult => by
        obtain ⟨field, hfield, hspecialized⟩ := exists_of_forall₂_right (mapM_ok.mp h) hresult
        exact checkType_specialized htarget (typesWellFormed_iff.mp hform field hfield)
          (forM_ok.mp hcheck field hfield) hspecialized
    match type, hform with
    | .word, _ =>
      simp only [specializeType, pure_eq_ok, Except.ok.injEq] at h
      subst h
      exact ensure_ok.mpr (wordBits_le htarget)
    | .choice cases, hform =>
      simp only [checkType] at hcheck
      obtain ⟨_, -, hcases⟩ := bind_ok.mp hcheck
      rw [specializeType_choice] at h
      obtain ⟨selected, hselected, h⟩ := bind_ok.mp h
      have hselectedForm := selectNested_wellFormed hform hselected
      split at h
      · rename_i concrete
        have hconcrete := checkCaseTypes_selected hcases hselected
        exact checkType_succ (specializeType_concrete hselectedForm h)
          (checkType_specialized htarget hselectedForm hconcrete h)
      · simp at h
    | .array element count, hform =>
      simp only [checkType] at hcheck
      obtain ⟨_, -, helement⟩ := bind_ok.mp hcheck
      rw [specializeType] at h
      obtain ⟨extent, -, h⟩ := bind_ok.mp h
      obtain ⟨element', helement', h⟩ := bind_ok.mp h
      obtain rfl := Except.ok.inj h
      exact bind_ok.mpr ⟨(), rfl, checkType_specialized htarget hform.1 helement helement'⟩
    | .record identity packed fields, hform =>
      obtain ⟨hidentity, hfields⟩ := checkType_record.mp hcheck
      rw [specializeType] at h
      obtain ⟨fields', hfields', h⟩ := bind_ok.mp h
      obtain rfl := Except.ok.inj h
      exact checkType_record.mpr ⟨hidentity, ih hform hfields hfields'⟩
    | .overlap identity alternatives domains, hform =>
      simp only [checkType] at hcheck
      obtain ⟨_, hinventory, hcheck⟩ := bind_ok.mp hcheck
      obtain ⟨-, hlength, -⟩ := ensure_ok.mp hinventory
      obtain ⟨_, -, hcheck⟩ := bind_ok.mp hcheck
      obtain ⟨_, hidentity, halternatives⟩ := bind_ok.mp hcheck
      rw [specializeType_overlap] at h
      split at h
      · simp at h
      · obtain ⟨kept, hkept, h⟩ := bind_ok.mp h
        split at h
        · simp at h
        · rename_i hne
          obtain rfl := Except.ok.inj h
          have hcount : kept.length ≤ 64 := by
            rw [← (mapM_ok.mp hkept).length_eq]
            refine (List.length_filter_le _ _).trans ?_
            simp only [List.length_zip]
            omega
          refine bind_ok.mpr ⟨(), ensure_ok.mpr ⟨hne, hcount, by simp⟩, bind_ok.mpr
            ⟨(), forM_ok.mpr fun set hset => ?_, bind_ok.mpr ⟨(), hidentity,
              forM_ok.mpr fun result hresult => ?_⟩⟩⟩
          · obtain ⟨_, -, rfl⟩ := List.mem_map.mp hset
            rw [checkSet_targetSet]
            rfl
          · obtain ⟨entry, hentry, hresult⟩ := exists_of_forall₂_right (mapM_ok.mp hkept) hresult
            have hmem : entry.1 ∈ alternatives :=
              (List.of_mem_zip (List.mem_of_mem_filter hentry)).1
            exact checkType_specialized htarget (typesWellFormed_iff.mp hform.1 _ hmem)
              (forM_ok.mp halternatives _ hmem) hresult
    | .function inputs results, hform =>
      simp only [checkType] at hcheck
      obtain ⟨_, hlength, hcheck⟩ := bind_ok.mp hcheck
      obtain ⟨_, hinputs, hresults⟩ := bind_ok.mp hcheck
      rw [specializeType] at h
      obtain ⟨inputs', hinputs', h⟩ := bind_ok.mp h
      obtain ⟨results', hresults', h⟩ := bind_ok.mp h
      obtain rfl := Except.ok.inj h
      have hlength' := (mapM_ok.mp hresults').length_eq
      refine bind_ok.mpr ⟨(), ensure_ok.mpr ?_, bind_ok.mpr ⟨(), ih hform.1 hinputs hinputs',
        ih hform.2 hresults hresults'⟩⟩
      exact hlength' ▸ ensure_ok.mp hlength
    | .vector shape scalable element, hform =>
      simp only [specializeType, pure_eq_ok, Except.ok.injEq] at h
      subst h
      simp only [checkType] at hcheck
      obtain ⟨_, hshape, helement⟩ := bind_ok.mp hcheck
      have hscalar : element.isScalar = true := by simpa [SelaType.WellFormed] using hform
      refine bind_ok.mpr ⟨(), hshape, checkType_specialized htarget ?_ helement ?_⟩
      · unfold SelaType.isScalar at hscalar
        split at hscalar <;> simp_all [SelaType.WellFormed]
      · exact specializeType_of_concrete (SelaType.concrete_of_isScalar hscalar)
    | .foreign type, _ =>
      simp only [specializeType, pure_eq_ok, Except.ok.injEq] at h
      subst h
      rcases type with (_ | _ | _) | _ <;> exact hcheck
    | .integer _, _ | .f32, _ | .f64, _ | .ptr, _ | .vaList, _ | .vaListArgument, _ =>
      simp only [specializeType, pure_eq_ok, Except.ok.injEq] at h
      subst h
      exact hcheck

/-! ## Concrete attributes -/

/-- An initializer with a count holds as many elements. -/
def Counted (target : TargetInfo) (entries : Attributes) : Prop :=
  ∀ elements count, entries.get "array" = some (.array elements) →
    entries.get "count" = some count → evaluateInteger count target = .ok elements.length

mutual

/-- An attribute with nothing left to select for a target. In a numeric place no text
stands for a number. -/
def Attr.Concrete (target : TargetInfo) : Bool → Attr → Prop
  | _, .type type => type.Concrete target.id
  | numeric, .array elements => attrsConcrete target numeric elements
  | numeric, .dictionary entries =>
    Attributes.Sorted entries ∧ Attributes.get entries "target_cases" = none ∧
      Counted target entries ∧ entriesConcrete target numeric entries
  | numeric, .string text => ¬(numeric = true ∧ text = "pointer_bytes")
  | _, _ => True

def attrsConcrete (target : TargetInfo) : Bool → List Attr → Prop
  | _, [] => True
  | numeric, element :: elements =>
    element.Concrete target numeric ∧ attrsConcrete target numeric elements

def entriesConcrete (target : TargetInfo) : Bool → List (String × Attr) → Prop
  | _, [] => True
  | numeric, (name, value) :: entries =>
    value.Concrete target (numeric || name == "integer") ∧ entriesConcrete target numeric entries

end

theorem attrsConcrete_iff {target : TargetInfo} {numeric : Bool} : ∀ {elements : List Attr},
    attrsConcrete target numeric elements ↔ ∀ element ∈ elements, element.Concrete target numeric
  | [] => by simp [attrsConcrete]
  | element :: elements => by rw [attrsConcrete, attrsConcrete_iff, List.forall_mem_cons]

theorem entriesConcrete_iff {target : TargetInfo} {numeric : Bool} :
    ∀ {entries : List (String × Attr)}, entriesConcrete target numeric entries ↔
      ∀ entry ∈ entries, entry.2.Concrete target (numeric || entry.1 == "integer")
  | [] => by simp [entriesConcrete]
  | (name, value) :: entries => by
    rw [entriesConcrete, entriesConcrete_iff, List.forall_mem_cons]

/-- What the specialized entries of a dictionary become : the data is cut where there is
a count, and stays otherwise. -/
theorem clipArray_ok {target : TargetInfo} {entries : Attributes} {result : Attr}
    (h : clipArray target entries = .ok result) :
    (∃ elements count extent, entries.get "array" = some (.array elements) ∧
      entries.get "count" = some count ∧ evaluateInteger count target = .ok extent ∧
      extent ≤ elements.length ∧
      result = .dictionary (entries.set "array" (.array (elements.take extent)))) ∨
    (result = .dictionary entries ∧ ∀ elements count, entries.get "array" = some (.array elements) →
      entries.get "count" ≠ some count) := by
  unfold clipArray at h
  split at h
  · rename_i elements count harray hcount
    obtain ⟨raw, hraw, helements⟩ := Option.bind_eq_some_iff.mp harray
    obtain ⟨extent, hextent, h⟩ := bind_ok.mp h
    split at h
    · simp at h
    · rename_i hle
      obtain rfl : raw = .array elements := by simpa using helements
      exact .inl ⟨elements, count, extent, hraw, hcount, hextent, not_lt.mp hle,
        (Except.ok.inj h).symm⟩
  · rename_i hboth
    refine .inr ⟨(Except.ok.inj h).symm, fun elements count harray hcount => ?_⟩
    exact hboth elements count (by simp [harray, Attr.asArray?]) hcount

/-- Specialized entries keep their names. -/
theorem map_fst_specialized {target : TargetInfo} {numeric : Bool} {entries values : Attributes}
    (h : (entries.mapM fun entry => do
      let value ← specializeAttribute target (numeric || entry.1 == "integer") entry.2
      pure (entry.1, value)) = .ok values) :
    List.Forall₂ (fun entry value => value.1 = entry.1 ∧
      specializeAttribute target (numeric || entry.1 == "integer") entry.2 = .ok value.2)
      entries values := by
  refine (mapM_ok.mp h).imp fun entry value hvalue => ?_
  obtain ⟨result, hresult, hvalue⟩ := bind_ok.mp hvalue
  obtain rfl := Except.ok.inj hvalue
  exact ⟨rfl, hresult⟩

theorem sizeOf_entry_lt {entries : List (String × Attr)} {entry : String × Attr}
    (h : entry ∈ entries) : sizeOf entry.2 < sizeOf entries := by
  have := List.sizeOf_lt_of_mem h
  obtain ⟨name, value⟩ := entry
  simp only [Prod.mk.sizeOf_spec] at this ⊢
  omega

/-- A specialized attribute is concrete. -/
theorem specializeAttribute_concrete {target : TargetInfo} {numeric : Bool} {input result : Attr}
    (hform : input.WellFormed) (h : specializeAttribute target numeric input = .ok result) :
    result.Concrete target numeric := by
  rw [specializeAttribute_eq] at h
  obtain ⟨selected, hselected, h⟩ := bind_ok.mp h
  have hsize := selectAttribute_sizeOf hselected
  have hselectedForm := selectNested_wellFormed hform hselected
  match selected, hselectedForm, hsize with
  | .type type, hselectedForm, _ =>
    obtain ⟨type', htype, h⟩ := bind_ok.mp h
    obtain rfl := Except.ok.inj h
    exact specializeType_concrete hselectedForm htype
  | .array elements, hselectedForm, hsize =>
    obtain ⟨values, hvalues, h⟩ := bind_ok.mp h
    obtain rfl := Except.ok.inj h
    refine attrsConcrete_iff.mpr fun value hvalue => ?_
    obtain ⟨element, helement, hspecialized⟩ := exists_of_forall₂_right (mapM_ok.mp hvalues) hvalue
    have helementSize := List.sizeOf_lt_of_mem helement
    have hlt : sizeOf element < sizeOf input := by
      simp only [Attr.array.sizeOf_spec] at hsize
      omega
    exact specializeAttribute_concrete (attrsWellFormed_iff.mp hselectedForm element helement)
      hspecialized
  | .dictionary entries, hselectedForm, hsize =>
    obtain ⟨values, hvalues, h⟩ := bind_ok.mp h
    have hvalues := map_fst_specialized hvalues
    have hnames : values.map Prod.fst = entries.map Prod.fst :=
      map_eq_of_forall₂ (hvalues.imp fun _ _ h => h.1)
    have hsorted : Attributes.Sorted values := by
      unfold Attributes.Sorted
      rw [hnames]
      exact hselectedForm.1
    have hplain : Attributes.get values "target_cases" = none := by
      rw [Attributes.get_eq_none_iff, hnames, ← Attributes.get_eq_none_iff]
      exact selectNested_plain hselected
    have hconcrete : ∀ value ∈ values, value.2.Concrete target (numeric || value.1 == "integer") := by
      intro value hvalue
      obtain ⟨entry, hentry, hname, hspecialized⟩ := exists_of_forall₂_right hvalues hvalue
      have hlt : sizeOf entry.2 < sizeOf input := by
        have := sizeOf_entry_lt hentry
        simp only [Attr.dictionary.sizeOf_spec] at hsize
        omega
      rw [hname]
      exact specializeAttribute_concrete (entriesWellFormed_iff.mp hselectedForm.2 entry hentry)
        hspecialized
    obtain ⟨elements, count, extent, harray, hcount, hextent, hle, rfl⟩ | ⟨rfl, hboth⟩ :=
      clipArray_ok h
    · refine ⟨hsorted.set, ?_, ?_, entriesConcrete_iff.mpr fun entry hentry => ?_⟩
      · rwa [Attributes.get_set_of_ne _ (by decide)]
      · intro elements' count' harray' hcount'
        rw [Attributes.get_set_self] at harray'
        rw [Attributes.get_set_of_ne _ (by decide), hcount] at hcount'
        obtain rfl : elements.take extent = elements' := by simpa using harray'
        obtain rfl := Option.some.inj hcount'
        rw [hextent, List.length_take, min_eq_left hle]
      · rcases Attributes.mem_set hentry with rfl | hentry
        · have helements := hconcrete _ (Attributes.mem_of_get harray)
          refine attrsConcrete_iff.mpr fun element helement => ?_
          exact attrsConcrete_iff.mp helements element (List.mem_of_mem_take helement)
        · exact hconcrete entry hentry
    · exact ⟨hsorted, hplain, fun elements count harray hcount =>
        absurd hcount (hboth elements count harray), entriesConcrete_iff.mpr hconcrete⟩
  | .string text, _, _ =>
    simp only at h
    split at h
    · obtain rfl := Except.ok.inj h
      trivial
    · rename_i hnumeric
      obtain rfl := Except.ok.inj h
      simpa [Attr.Concrete] using hnumeric
  | .unit, _, _ | .integer _ _, _, _ | .float _ _, _, _ | .denseI32 _, _, _ | .foreign _, _, _ =>
    obtain rfl := Except.ok.inj h
    trivial
termination_by sizeOf input
decreasing_by all_goals exact hlt

/-- A concrete attribute is its own specialization. -/
theorem specializeAttribute_of_concrete {target : TargetInfo} {numeric : Bool} {input : Attr}
    (h : input.Concrete target numeric) : specializeAttribute target numeric input = .ok input := by
  have hplain : selectAttribute input target.id = .ok input := by
    refine selectAttribute_of_plain fun entries hentries => ?_
    subst hentries
    exact h.2.1
  rw [specializeAttribute_eq, hplain, ok_bind]
  match input, h with
  | .type type, h =>
    simp only
    rw [specializeType_of_concrete h]
    rfl
  | .array elements, h =>
    have helements : elements.mapM (fun entry => specializeAttribute target numeric entry) =
        .ok elements := by
      refine mapM_ok.mpr (List.forall₂_same.mpr fun element helement => ?_)
      have hlt := List.sizeOf_lt_of_mem helement
      exact specializeAttribute_of_concrete (attrsConcrete_iff.mp h element helement)
    simp only
    rw [helements]
    rfl
  | .dictionary entries, h =>
    obtain ⟨hsorted, -, hcounted, hentries⟩ := h
    have hvalues : (entries.mapM fun entry => do
        let value ← specializeAttribute target (numeric || entry.1 == "integer") entry.2
        pure (entry.1, value)) = .ok entries := by
      refine mapM_ok.mpr (List.forall₂_same.mpr fun entry hentry => ?_)
      have hlt := sizeOf_entry_lt hentry
      rw [specializeAttribute_of_concrete (entriesConcrete_iff.mp hentries entry hentry)]
      rfl
    simp only
    rw [hvalues, ok_bind, clipArray]
    split
    · rename_i elements count harray hcount
      obtain ⟨raw, hraw, helements⟩ := Option.bind_eq_some_iff.mp harray
      obtain rfl : raw = .array elements := by simpa using helements
      rw [hcounted elements count hraw hcount, ok_bind, if_neg (lt_irrefl _), List.take_length,
        Attributes.set_of_get hsorted hraw]
      rfl
    · rfl
  | .string text, h =>
    have hnumeric : ¬(numeric && text == "pointer_bytes") = true := by
      simpa [Attr.Concrete] using h
    simp only
    rw [if_neg hnumeric]
    rfl
  | .unit, _ | .integer _ _, _ | .float _ _, _ | .denseI32 _, _ | .foreign _, _ => rfl
termination_by sizeOf input
decreasing_by all_goals (simp_all; try omega)

/-! ## The checks of a concrete attribute -/

/-- A checked set holds distinct declared targets. -/
theorem checkSet_ok {input : Option Attr} {declared ids : List String}
    (h : checkSet input declared = .ok ids) :
    input = some (targetSet ids) ∧ ids ≠ [] ∧ (∀ id ∈ ids, id ∈ declared) ∧ ids.Nodup := by
  unfold checkSet at h
  split at h
  · simp at h
  · rename_i values hvalues
    obtain ⟨_, hne, h⟩ := bind_ok.mp h
    obtain ⟨ids', hids, h⟩ := bind_ok.mp h
    obtain ⟨_, hdeclared, h⟩ := bind_ok.mp h
    obtain rfl : ids' = ids := Except.ok.inj h
    obtain ⟨raw, rfl, hraw⟩ := Option.bind_eq_some_iff.mp hvalues
    obtain rfl : raw = .array values := by simpa using hraw
    have hstrings : ids'.map Attr.string = values := by
      have := (mapM_ok.mp hids).imp fun value id (h : require value.asString? _ = .ok id) =>
        show Attr.string id = value from
          (Attr.asString?_eq_some.mp (require_ok.mp h)).symm
      simpa using map_eq_of_forall₂ (f := id) this
    refine ⟨by rw [targetSet, hstrings], fun hempty => ?_, (ensure_ok.mp hdeclared).1,
      (ensure_ok.mp hdeclared).2⟩
    subst hempty
    exact ensure_ok.mp hne (by simpa using hstrings.symm)

/-- Each checked case has a checked set and a value checked against it. -/
theorem checkCases_mem {checkValue : List String → Attr → Checked Unit} {declared : List String} :
    ∀ {seen : List String} {cases : List Attr},
      checkCases checkValue declared seen cases = .ok () → ∀ case ∈ cases,
        ∃ entries value active, case = .dictionary entries ∧ entries.length = 2 ∧
          Attributes.get entries "value" = some value ∧
          checkSet (Attributes.get entries "targets") declared = .ok active ∧
          checkValue active value = .ok ()
  | _, [], _ => by simp
  | seen, case :: cases, h => by
    unfold checkCases at h
    split at h
    · simp at h
    · rename_i entries hentries
      obtain rfl : case = .dictionary entries := by simpa using hentries
      split at h
      · simp at h
      · rename_i value hvalue
        obtain ⟨_, hlength, h⟩ := bind_ok.mp h
        obtain ⟨active, hactive, h⟩ := bind_ok.mp h
        obtain ⟨_, -, h⟩ := bind_ok.mp h
        obtain ⟨_, hcheck, h⟩ := bind_ok.mp h
        refine List.forall_mem_cons.mpr ⟨⟨entries, value, active, rfl, ensure_ok.mp hlength, hvalue,
          hactive, hcheck⟩, ?_⟩
        exact checkCases_mem h

/-- A check that a wider one includes accepts the same cases. -/
theorem checkCases_imp {check check' : List String → Attr → Checked Unit}
    (himp : ∀ active value, check active value = .ok () → check' active value = .ok ())
    {declared : List String} :
    ∀ {seen : List String} {cases : List Attr},
      checkCases check declared seen cases = .ok () → checkCases check' declared seen cases = .ok ()
  | _, [], _ => rfl
  | seen, case :: cases, h => by
    unfold checkCases at h ⊢
    split at h
    · simp at h
    · split at h
      · simp at h
      · obtain ⟨_, hlength, h⟩ := bind_ok.mp h
        obtain ⟨active, hactive, h⟩ := bind_ok.mp h
        obtain ⟨_, hdisjoint, h⟩ := bind_ok.mp h
        obtain ⟨_, hcheck, h⟩ := bind_ok.mp h
        exact bind_ok.mpr ⟨_, hlength, bind_ok.mpr ⟨active, hactive, bind_ok.mpr
          ⟨_, hdisjoint, bind_ok.mpr ⟨(), himp _ _ hcheck, checkCases_imp himp h⟩⟩⟩⟩

/-- An attribute that passes within a depth passes within the next one. -/
theorem checkAttribute_succ :
    ∀ {depth : ℕ} {declared : List String} {input : Attr},
      checkAttribute depth declared input = .ok () →
      checkAttribute (depth + 1) declared input = .ok ()
  | 0, _, _, h => by simp [checkAttribute] at h
  | depth + 1, declared, input, h => by
    unfold checkAttribute at h ⊢
    split at h
    · rename_i dictionary
      split at h
      · split at h
        · simp at h
        · obtain ⟨_, hinventory, h⟩ := bind_ok.mp h
          exact bind_ok.mpr ⟨_, hinventory, checkCases_imp (fun _ _ => checkAttribute_succ) h⟩
      · obtain ⟨_, harray, h⟩ := bind_ok.mp h
        exact bind_ok.mpr ⟨_, harray, forM_ok.mpr fun entry hentry =>
          checkAttribute_succ (forM_ok.mp h entry hentry)⟩
    · exact forM_ok.mpr fun element helement => checkAttribute_succ (forM_ok.mp h element helement)
    · rfl

/-- A selected case was checked for targets that have the one it is selected for. -/
theorem checkAttribute_selected {target : String} :
    ∀ {fuel depth : ℕ} {declared : List String} {input result : Attr}, target ∈ declared →
      checkAttribute depth declared input = .ok () → selectNested target fuel input = .ok result →
      ∃ active, target ∈ active ∧ checkAttribute depth active result = .ok ()
  | 0, _, _, _, _, _, _, h => by simp [selectNested] at h
  | _, 0, _, _, _, _, hcheck, _ => by simp [checkAttribute] at hcheck
  | fuel + 1, depth + 1, declared, input, result, htarget, hcheck, h => by
    have hcheck' := hcheck
    unfold selectNested at h
    split at h
    · obtain rfl := Except.ok.inj h
      exact ⟨declared, htarget, hcheck⟩
    · rename_i dictionary hdictionary
      obtain rfl : input = .dictionary dictionary := by simpa using hdictionary
      split at h
      · obtain rfl := Except.ok.inj h
        exact ⟨declared, htarget, hcheck⟩
      · rename_i raw hraw
        split at h
        · simp at h
        · rename_i cases hcases
          split at h
          · simp at h
          · obtain ⟨selected, hselected, h⟩ := bind_ok.mp h
            simp only [checkAttribute, hraw, hcases] at hcheck
            obtain ⟨_, -, hcheck⟩ := bind_ok.mp hcheck
            obtain ⟨active, hactive, hvalue⟩ :
                ∃ active, target ∈ active ∧ checkAttribute depth active selected = .ok () := by
              refine selectCase_of (fun value => ∃ active, target ∈ active ∧
                checkAttribute depth active value = .ok ()) ?_ (by simp) hselected
              intro entries value hmem hhas hvalue
              obtain ⟨entries', value', active, heq, -, hvalue', hset, hchecked⟩ :=
                checkCases_mem hcheck _ hmem
              obtain rfl : entries = entries' := by simpa using heq
              obtain rfl : value = value' := Option.some.inj (hvalue.symm.trans hvalue')
              obtain ⟨htargets, -⟩ := checkSet_ok hset
              refine ⟨active, ?_, hchecked⟩
              simpa [htargets] using hhas
            exact checkAttribute_selected hactive (checkAttribute_succ hvalue) h

/-- The extent of an initializer for one target is that of its data. -/
theorem checkConditionalArray_counted {target : TargetInfo} (htarget : target ∈ targets.all)
    {entries : Attributes} {elements : List Attr} {count : Attr} (hlength : entries.length = 2)
    (hsize : elements.length ≤ 1024 * 1024) (harray : entries.get "array" = some (.array elements))
    (hcount : entries.get "count" = some count)
    (hextent : evaluateInteger count target = .ok elements.length) :
    checkConditionalArray entries [target.id] = .ok () := by
  have hget : targets.get target.id = target := by
    rw [targets.get, targets.find_of_mem target htarget]
    rfl
  have hcounts : ([target.id].mapM fun id => evaluateInteger count (targets.get id)) =
      .ok [elements.length] := by
    rw [mapM_cons, hget, hextent]
    rfl
  rw [checkConditionalArray, if_pos (by simp [harray]), harray, Option.bind_some, hcount]
  simp only [Attr.asArray?]
  refine bind_ok.mpr ⟨(), ensure_ok.mpr ⟨hlength, hsize⟩, ?_⟩
  rw [hcounts, ok_bind]
  refine bind_ok.mpr ⟨(), ensure_ok.mpr (by simp), ensure_ok.mpr ?_⟩
  rw [show [elements.length].foldl min elements.length = elements.length by simp, List.drop_length]
  rfl

/-- A checked dictionary that is an initializer with a count has nothing else. -/
theorem checkConditionalArray_ok {entries : Attributes} {declared : List String}
    (h : checkConditionalArray entries declared = .ok ()) :
    (entries.get "array" = none ∧ entries.get "count" = none) ∨
    ∃ elements count, entries.get "array" = some (.array elements) ∧
      entries.get "count" = some count ∧ entries.length = 2 ∧ elements.length ≤ 1024 * 1024 := by
  unfold checkConditionalArray at h
  split at h
  · split at h
    · rename_i elements count harray hcount
      obtain ⟨_, hinventory, -⟩ := bind_ok.mp h
      obtain ⟨raw, hraw, helements⟩ := Option.bind_eq_some_iff.mp harray
      obtain rfl : raw = .array elements := by simpa using helements
      exact .inr ⟨elements, count, hraw, hcount, ensure_ok.mp hinventory⟩
    · simp at h
  · rename_i hneither
    exact .inl (by simpa using hneither)

/-- A sublist of a checked array is checked. -/
theorem checkAttribute_array_of_subset {depth : ℕ} {declared : List String} {xs ys : List Attr}
    (hsubset : ∀ y ∈ ys, y ∈ xs) (h : checkAttribute depth declared (.array xs) = .ok ()) :
    checkAttribute depth declared (.array ys) = .ok () := by
  cases depth with
  | zero => simp [checkAttribute] at h
  | succ depth => exact forM_ok.mpr fun y hy => forM_ok.mp h y (hsubset y hy)

/-- The value of a name in the specialized entries of a dictionary. -/
theorem get_specialized {target : TargetInfo} {numeric : Bool} {name : String} {value : Attr} :
    ∀ {entries values : Attributes},
      List.Forall₂ (fun entry value => value.1 = entry.1 ∧
        specializeAttribute target (numeric || entry.1 == "integer") entry.2 = .ok value.2)
        entries values → entries.get name = some value →
      ∃ value', values.get name = some value' ∧
        specializeAttribute target (numeric || name == "integer") value = .ok value'
  | (n, a) :: entries, (m, b) :: values, .cons ⟨hname, hR⟩ hrest, h => by
    obtain rfl : m = n := hname
    rw [Attributes.get_cons] at h ⊢
    split
    · rename_i hn
      rw [if_pos hn] at h
      obtain rfl := Option.some.inj h
      exact ⟨b, rfl, hn ▸ hR⟩
    · rename_i hn
      rw [if_neg hn] at h
      exact get_specialized hrest h

theorem specializeAttribute_array {target : TargetInfo} {numeric : Bool} {elements : List Attr}
    {result : Attr} (h : specializeAttribute target numeric (.array elements) = .ok result) :
    ∃ values, result = .array values ∧ elements.mapM (fun entry =>
      specializeAttribute target numeric entry) = .ok values := by
  rw [specializeAttribute_eq, selectAttribute_of_plain (by simp), ok_bind] at h
  obtain ⟨values, hvalues, h⟩ := bind_ok.mp h
  exact ⟨values, (Except.ok.inj h).symm, hvalues⟩

/-- An attribute that passes for several targets passes, once specialized, for its
target. -/
theorem checkAttribute_specialized {target : TargetInfo} (htarget : target ∈ targets.all) :
    ∀ {depth : ℕ} {declared : List String} {numeric : Bool} {input result : Attr},
      input.WellFormed → target.id ∈ declared → checkAttribute depth declared input = .ok () →
      specializeAttribute target numeric input = .ok result →
      checkAttribute depth [target.id] result = .ok ()
  | 0, _, _, _, _, _, _, hcheck, _ => by simp [checkAttribute] at hcheck
  | depth + 1, declared, numeric, input, result, hform, hdeclared, hcheck, h => by
    have hconcrete := specializeAttribute_concrete hform h
    rw [specializeAttribute_eq] at h
    obtain ⟨selected, hselected, h⟩ := bind_ok.mp h
    obtain ⟨active, hactive, hcheck⟩ := checkAttribute_selected hdeclared hcheck hselected
    have hselectedForm := selectNested_wellFormed hform hselected
    match selected, hselectedForm with
    | .type type, _ =>
      obtain ⟨type', -, h⟩ := bind_ok.mp h
      obtain rfl := Except.ok.inj h
      rfl
    | .array elements, hselectedForm =>
      obtain ⟨values, hvalues, h⟩ := bind_ok.mp h
      obtain rfl := Except.ok.inj h
      refine forM_ok.mpr fun value hvalue => ?_
      obtain ⟨element, helement, hvalue⟩ := exists_of_forall₂_right (mapM_ok.mp hvalues) hvalue
      exact checkAttribute_specialized htarget (attrsWellFormed_iff.mp hselectedForm element helement)
        hactive (forM_ok.mp hcheck element helement) hvalue
    | .dictionary entries, hselectedForm =>
      obtain ⟨values, hvalues, h⟩ := bind_ok.mp h
      have hvalues := map_fst_specialized hvalues
      have hnames : values.map Prod.fst = entries.map Prod.fst :=
        map_eq_of_forall₂ (hvalues.imp fun _ _ h => h.1)
      have hsorted : Attributes.Sorted values := by
        unfold Attributes.Sorted
        rw [hnames]
        exact hselectedForm.1
      simp only [checkAttribute, selectNested_plain hselected] at hcheck
      obtain ⟨_, harray, hentries⟩ := bind_ok.mp hcheck
      have hchecked : ∀ value ∈ values, checkAttribute depth [target.id] value.2 = .ok () := by
        intro value hvalue
        obtain ⟨entry, hentry, hname, hspecialized⟩ := exists_of_forall₂_right hvalues hvalue
        exact checkAttribute_specialized htarget
          (entriesWellFormed_iff.mp hselectedForm.2 entry hentry) hactive
          (forM_ok.mp hentries entry hentry) hspecialized
      have hnone : ∀ name, Attributes.get values name = none ↔ Attributes.get entries name = none := by
        intro name
        rw [Attributes.get_eq_none_iff, hnames, ← Attributes.get_eq_none_iff]
      have hplain : Attributes.get values "target_cases" = none :=
        (hnone _).mpr (selectNested_plain hselected)
      obtain ⟨elements, count, extent, hget, hcount, hextent, hle, rfl⟩ | ⟨rfl, hboth⟩ :=
        clipArray_ok h
      · obtain ⟨hneither, -⟩ | ⟨elements', -, harray', -, hlength, hsize⟩ :=
          checkConditionalArray_ok harray
        · simp [(hnone _).mpr hneither] at hget
        obtain ⟨value, hvalue, hspecialized⟩ := get_specialized hvalues harray'
        obtain ⟨elements'', rfl, helements⟩ := specializeAttribute_array hspecialized
        obtain rfl : elements'' = elements := by simpa [hget] using hvalue.symm
        have hcount' : Attributes.get (Attributes.set "array" (.array (elements''.take extent)) values)
            "count" = some count := by rwa [Attributes.get_set_of_ne _ (by decide)]
        have hmem : "array" ∈ values.map Prod.fst := List.mem_map_of_mem (Attributes.mem_of_get hget)
        simp only [checkAttribute, Attributes.get_set_of_ne _ (show "array" ≠ "target_cases" by decide),
          hplain]
        refine bind_ok.mpr ⟨(), checkConditionalArray_counted htarget ?_ ?_
          (Attributes.get_set_self _ _ _) hcount' ?_, forM_ok.mpr fun entry hentry => ?_⟩
        · have := congrArg List.length
            (@Attributes.map_fst_set _ (.array (elements''.take extent)) values hsorted hmem)
          have hkept := congrArg List.length hnames
          simp only [List.length_map] at this hkept
          rw [this, hkept, hlength]
        · have := (mapM_ok.mp helements).length_eq
          simp only [List.length_take]
          omega
        · rw [hextent, List.length_take, min_eq_left hle]
        · rcases Attributes.mem_set hentry with rfl | hentry
          · exact checkAttribute_array_of_subset (fun _ => List.mem_of_mem_take)
              (hchecked _ (Attributes.mem_of_get hget))
          · exact hchecked entry hentry
      · have harray' : checkConditionalArray values [target.id] = .ok () := by
          obtain ⟨ha, hc⟩ | ⟨elements, count, ha, hc, -⟩ := checkConditionalArray_ok harray
          · rw [checkConditionalArray, if_neg (by simp [(hnone _).mpr ha, (hnone _).mpr hc])]
            rfl
          · obtain ⟨value, hvalue, hspecialized⟩ := get_specialized hvalues ha
            obtain ⟨elements', rfl, -⟩ := specializeAttribute_array hspecialized
            obtain ⟨count', hcount', -⟩ := get_specialized hvalues hc
            exact absurd hcount' (hboth elements' count' hvalue)
        simp only [checkAttribute, hplain]
        exact bind_ok.mpr ⟨(), harray', forM_ok.mpr hchecked⟩
    | .string text, _ =>
      simp only at h
      split at h <;>
      · obtain rfl := Except.ok.inj h
        rfl
    | .unit, _ | .integer _ _, _ | .float _ _, _ | .denseI32 _, _ | .foreign _, _ =>
      obtain rfl := Except.ok.inj h
      rfl

/-! ## The types a concrete attribute mentions -/

theorem attrsMentioned_eq : ∀ elements : List Attr,
    attrsMentioned elements = elements.flatMap Attr.mentioned
  | [] => rfl
  | element :: elements => by rw [attrsMentioned, attrsMentioned_eq, List.flatMap_cons]

theorem entriesMentioned_eq : ∀ entries : List (String × Attr),
    entriesMentioned entries = entries.flatMap fun entry => entry.2.mentioned
  | [] => rfl
  | (_, _) :: entries => by rw [entriesMentioned, entriesMentioned_eq, List.flatMap_cons]

theorem mem_mentioned_of_get {entries : Attributes} {name : String} {value : Attr} {type : SelaType}
    (hget : entries.get name = some value) (h : type ∈ value.mentioned) :
    type ∈ (Attr.dictionary entries).mentioned := by
  rw [Attr.mentioned, entriesMentioned_eq]
  exact List.mem_flatMap.mpr ⟨(name, value), Attributes.mem_of_get hget, h⟩

/-- The types of a well-formed attribute are well formed. -/
theorem wellFormed_of_mentioned {type : SelaType} {input : Attr} (hform : input.WellFormed)
    (h : type ∈ input.mentioned) : type.WellFormed := by
  match input, hform with
  | .type held, hform =>
    obtain rfl : type = held := by simpa [Attr.mentioned] using h
    exact hform
  | .array elements, hform =>
    rw [Attr.mentioned, attrsMentioned_eq] at h
    obtain ⟨element, helement, h⟩ := List.mem_flatMap.mp h
    have hlt := List.sizeOf_lt_of_mem helement
    exact wellFormed_of_mentioned (attrsWellFormed_iff.mp hform element helement) h
  | .dictionary entries, hform =>
    rw [Attr.mentioned, entriesMentioned_eq] at h
    obtain ⟨entry, hentry, h⟩ := List.mem_flatMap.mp h
    have hlt := sizeOf_entry_lt hentry
    exact wellFormed_of_mentioned (entriesWellFormed_iff.mp hform.2 entry hentry) h
  | .unit, _ | .integer _ _, _ | .float _ _, _ | .string _, _ | .denseI32 _, _ | .foreign _, _ =>
    simp [Attr.mentioned] at h
termination_by sizeOf input
decreasing_by all_goals (simp_all; try omega)

/-- A selected case mentions no other types. -/
theorem mem_mentioned_of_selected {target : String} {type : SelaType} :
    ∀ {depth : ℕ} {input result : Attr}, selectNested target depth input = .ok result →
      type ∈ result.mentioned → type ∈ input.mentioned
  | 0, _, _, h, _ => by simp [selectNested] at h
  | depth + 1, input, result, h, htype => by
    unfold selectNested at h
    split at h
    · obtain rfl := Except.ok.inj h
      exact htype
    · rename_i dictionary hdictionary
      obtain rfl : input = .dictionary dictionary := by simpa using hdictionary
      split at h
      · obtain rfl := Except.ok.inj h
        exact htype
      · rename_i raw hraw
        split at h
        · simp at h
        · rename_i cases hcases
          obtain rfl : raw = .array cases := by simpa using hcases
          split at h
          · simp at h
          · obtain ⟨selected, hselected, h⟩ := bind_ok.mp h
            have hin := mem_mentioned_of_selected h htype
            refine mem_mentioned_of_get hraw ?_
            rw [Attr.mentioned, attrsMentioned_eq]
            refine selectCase_of (fun value => type ∈ value.mentioned →
              type ∈ cases.flatMap Attr.mentioned) ?_ (by simp) hselected hin
            intro entries value hmem _ hvalue htype
            exact List.mem_flatMap.mpr ⟨_, hmem, mem_mentioned_of_get hvalue htype⟩

/-- A specialized attribute mentions specializations of the types it mentioned. -/
theorem mentioned_specialized {target : TargetInfo} {numeric : Bool} {input result : Attr}
    {type : SelaType} (h : specializeAttribute target numeric input = .ok result)
    (htype : type ∈ result.mentioned) :
    ∃ source ∈ input.mentioned, specializeType target source = .ok type := by
  rw [specializeAttribute_eq] at h
  obtain ⟨selected, hselected, h⟩ := bind_ok.mp h
  have hsize := selectAttribute_sizeOf hselected
  suffices hsource : ∃ source ∈ selected.mentioned, specializeType target source = .ok type by
    obtain ⟨source, hsource, hspecialized⟩ := hsource
    exact ⟨source, mem_mentioned_of_selected hselected hsource, hspecialized⟩
  match selected, hsize with
  | .type held, _ =>
    obtain ⟨type', htype', h⟩ := bind_ok.mp h
    obtain rfl := Except.ok.inj h
    obtain rfl : type = type' := by simpa [Attr.mentioned] using htype
    exact ⟨held, by simp [Attr.mentioned], htype'⟩
  | .array elements, hsize =>
    obtain ⟨values, hvalues, h⟩ := bind_ok.mp h
    obtain rfl := Except.ok.inj h
    rw [Attr.mentioned, attrsMentioned_eq] at htype ⊢
    obtain ⟨value, hvalue, htype⟩ := List.mem_flatMap.mp htype
    obtain ⟨element, helement, hvalue⟩ := exists_of_forall₂_right (mapM_ok.mp hvalues) hvalue
    have hlt : sizeOf element < sizeOf input := by
      have := List.sizeOf_lt_of_mem helement
      simp only [Attr.array.sizeOf_spec] at hsize
      omega
    obtain ⟨source, hsource, hspecialized⟩ := mentioned_specialized hvalue htype
    exact ⟨source, List.mem_flatMap.mpr ⟨element, helement, hsource⟩, hspecialized⟩
  | .dictionary entries, hsize =>
    obtain ⟨values, hvalues, h⟩ := bind_ok.mp h
    have hvalues := map_fst_specialized hvalues
    obtain ⟨value, hvalue, htype⟩ : ∃ value ∈ values, type ∈ value.2.mentioned := by
      obtain ⟨elements, count, extent, harray, -, -, -, rfl⟩ | ⟨rfl, -⟩ := clipArray_ok h
      · rw [Attr.mentioned, entriesMentioned_eq] at htype
        obtain ⟨entry, hentry, htype⟩ := List.mem_flatMap.mp htype
        rcases Attributes.mem_set hentry with rfl | hentry
        · refine ⟨_, Attributes.mem_of_get harray, ?_⟩
          rw [Attr.mentioned, attrsMentioned_eq] at htype ⊢
          obtain ⟨element, helement, htype⟩ := List.mem_flatMap.mp htype
          exact List.mem_flatMap.mpr ⟨element, List.mem_of_mem_take helement, htype⟩
        · exact ⟨entry, hentry, htype⟩
      · rw [Attr.mentioned, entriesMentioned_eq] at htype
        exact List.mem_flatMap.mp htype
    obtain ⟨entry, hentry, -, hvalue⟩ := exists_of_forall₂_right hvalues hvalue
    have hlt : sizeOf entry.2 < sizeOf input := by
      have := sizeOf_entry_lt hentry
      simp only [Attr.dictionary.sizeOf_spec] at hsize
      omega
    obtain ⟨source, hsource, hspecialized⟩ := mentioned_specialized hvalue htype
    rw [Attr.mentioned, entriesMentioned_eq]
    exact ⟨source, List.mem_flatMap.mpr ⟨entry, hentry, hsource⟩, hspecialized⟩
  | .string text, _ =>
    simp only at h
    split at h <;>
    · obtain rfl := Except.ok.inj h
      simp [Attr.mentioned] at htype
  | .unit, _ | .integer _ _, _ | .float _ _, _ | .denseI32 _, _ | .foreign _, _ =>
    obtain rfl := Except.ok.inj h
    simp [Attr.mentioned] at htype
termination_by sizeOf input
decreasing_by all_goals exact hlt

end Sela
