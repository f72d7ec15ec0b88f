import Mathlib.Data.List.Induction
import Sela.Association
import Sela.NativeAbi
import Sela.OverlapEvidence

/-!
# The storage of overlapping alternatives

`selectOverlapCarrier` picks the one field of native overlapping storage : the first alternative
that has both the greatest alignment and the greatest size of all (`selectOverlapCarrier_ok_iff`).
`discoverNativeOverlaps` reads the overlapping storage of a module from its debug types. What it
finds is a record of the carrier of its alternatives, so that each alternative fits into it
(`discoverNativeOverlaps_fits`).
-/

namespace Sela

open Checked

/-! ## The carrier -/

/-- The types that may overlap. -/
def isOverlapAlternative : LlvmType → Bool
  | .scalar (.integer width) => width == 8 || width == 16 || width == 32 || width == 64
  | .scalar (.floating format) => format == .float || format == .double
  | .scalar (.pointer addressSpace) => addressSpace == 0
  | _ => false

/-- The carrier of the alternatives passed, and the greatest size among them. -/
structure CarrierChoice where
  carrier : Option LlvmType
  maximumSize : ℕ
  carrierSize : ℕ
  maximumAlignment : Align

section Carrier

variable (layout : DataLayout)

/-- One more alternative. -/
def considerAlternative (choice : CarrierChoice) (type : LlvmType) : Checked CarrierChoice := do
  ensure (isOverlapAlternative type = true) "unqualified overlapping-storage alternative"
  let alignment := layout.abiAlign type
  let size := layout.allocSize type
  let maximumSize := max choice.maximumSize size
  if choice.carrier = none ∨ choice.maximumAlignment < alignment ∨
      (alignment = choice.maximumAlignment ∧ choice.carrierSize < size) then
    pure ⟨some type, maximumSize, size, alignment⟩
  else pure { choice with maximumSize }

/-- The field of storage for overlapping alternatives. -/
def selectOverlapCarrier (alternatives : List LlvmType) : Checked LlvmType := do
  ensure (alternatives ≠ [] ∧ alternatives.length ≤ 64)
    "overlapping storage needs 1 to 64 qualified alternatives"
  let choice ← alternatives.foldlM (considerAlternative layout) ⟨none, 0, 0, .of 1⟩
  ensure (choice.carrierSize = choice.maximumSize)
    "overlapping storage needs unqualified tail padding"
  require choice.carrier "overlapping storage needs 1 to 64 qualified alternatives"

/-- A type is at least as great and as aligned as all of a list. -/
def Dominates (alternatives : List LlvmType) (type : LlvmType) : Prop :=
  ∀ other ∈ alternatives,
    layout.abiAlign other ≤ layout.abiAlign type ∧ layout.allocSize other ≤ layout.allocSize type

instance (alternatives : List LlvmType) (type : LlvmType) :
    Decidable (Dominates layout alternatives type) := by
  unfold Dominates
  infer_instance

/-- A type comes after another in the order of alignments, then of sizes. -/
def Exceeds (type other : LlvmType) : Prop :=
  layout.abiAlign other < layout.abiAlign type ∨
    (layout.abiAlign type = layout.abiAlign other ∧ layout.allocSize other < layout.allocSize type)

/-- The choice made of the alternatives passed : the first of the greatest, by alignment and then
size. -/
structure Considered (passed : List LlvmType) (choice : CarrierChoice) : Prop where
  qualified : ∀ type ∈ passed, isOverlapAlternative type = true
  bounds : ∀ type ∈ passed, layout.allocSize type ≤ choice.maximumSize
  least : ∀ bound, (∀ type ∈ passed, layout.allocSize type ≤ bound) → choice.maximumSize ≤ bound
  unset : choice.carrier = none ↔ passed = []
  chosen : ∀ carrier, choice.carrier = some carrier →
    choice.carrierSize = layout.allocSize carrier ∧
      choice.maximumAlignment = layout.abiAlign carrier ∧
      ∃ before after, passed = before ++ carrier :: after ∧
        (∀ type ∈ before, Exceeds layout carrier type) ∧
        ∀ type ∈ after, ¬Exceeds layout type carrier

variable {layout}

theorem align_eq_iff {a b : Align} : a = b ↔ a.shift = b.shift := by
  obtain ⟨_⟩ := a
  obtain ⟨_⟩ := b
  exact (Align.mk.injEq ..).to_iff

theorem Exceeds.of_not {type carrier next : LlvmType} (h : ¬Exceeds layout type carrier)
    (hnext : Exceeds layout next carrier) : Exceeds layout next type := by
  have hlt (a b : Align) : a < b ↔ a.shift < b.shift := .rfl
  simp only [Exceeds, hlt, align_eq_iff] at h hnext ⊢
  omega

theorem Exceeds.trans {type carrier next : LlvmType} (h : Exceeds layout carrier type)
    (hnext : Exceeds layout next carrier) : Exceeds layout next type := by
  rcases h with h | ⟨h, hsize⟩
  · rcases hnext with hnext | ⟨hnext, -⟩
    · exact .inl (Nat.lt_trans h hnext)
    · exact .inl (hnext ▸ h)
  · rcases hnext with hnext | ⟨hnext, hsize'⟩
    · exact .inl (h ▸ hnext)
    · exact .inr ⟨hnext.trans h, Nat.lt_trans hsize hsize'⟩

theorem Exceeds.asymm {type other : LlvmType} (h : Exceeds layout type other) :
    ¬Exceeds layout other type := by
  have hlt (a b : Align) : a < b ↔ a.shift < b.shift := .rfl
  simp only [Exceeds, hlt, align_eq_iff] at h ⊢
  omega

theorem considered_nil : Considered layout [] ⟨none, 0, 0, .of 1⟩ :=
  ⟨by simp, by simp, by simp, by simp, by simp⟩

/-- What one more alternative makes of the choice. -/
theorem Considered.concat {passed : List LlvmType} {choice choice' : CarrierChoice}
    {type : LlvmType} (h : Considered layout passed choice)
    (hstep : considerAlternative layout choice type = .ok choice') :
    Considered layout (passed ++ [type]) choice' := by
  obtain ⟨_, hqualified, hstep⟩ := bind_ok.mp hstep
  have hqualified : ∀ other ∈ passed ++ [type], isOverlapAlternative other = true := by
    simpa [or_imp, forall_and] using ⟨h.qualified, ensure_ok.mp hqualified⟩
  have hbounds : ∀ other ∈ passed ++ [type],
      layout.allocSize other ≤ max choice.maximumSize (layout.allocSize type) := by
    intro other hother
    rcases List.mem_append.mp hother with hother | hother
    · exact (h.bounds other hother).trans (Nat.le_max_left _ _)
    · exact List.mem_singleton.mp hother ▸ Nat.le_max_right _ _
  have hleast : ∀ bound, (∀ other ∈ passed ++ [type], layout.allocSize other ≤ bound) →
      max choice.maximumSize (layout.allocSize type) ≤ bound := fun bound hbound =>
    Nat.max_le.mpr ⟨h.least bound fun other hother => hbound other (by simp [hother]),
      hbound type (by simp)⟩
  dsimp only at hstep
  split at hstep
  · -- The new alternative is the carrier from here on.
    rename_i hnew
    obtain rfl := Except.ok.inj hstep
    refine ⟨hqualified, hbounds, hleast, by simp, ?_⟩
    rintro carrier hcarrier
    obtain rfl := Option.some.inj hcarrier
    refine ⟨rfl, rfl, passed, [], rfl, fun other hother => ?_, by simp⟩
    have hne : choice.carrier ≠ none := fun hnone =>
      List.ne_nil_of_mem hother (h.unset.mp hnone)
    obtain ⟨carrier, hcarrier⟩ := Option.ne_none_iff_exists'.mp hne
    obtain ⟨hsize, halignment, before, after, rfl, hbefore, hafter⟩ := h.chosen carrier hcarrier
    have hexceeds : Exceeds layout type carrier := by
      rw [hsize, halignment] at hnew
      exact hnew.resolve_left hne
    rcases List.mem_append.mp hother with hother | hother
    · exact (hbefore other hother).trans hexceeds
    · rcases List.mem_cons.mp hother with rfl | hother
      · exact hexceeds
      · exact .of_not (hafter other hother) hexceeds
  · rename_i hold
    obtain rfl := Except.ok.inj hstep
    obtain ⟨hne, hold⟩ := not_or.mp hold
    refine ⟨hqualified, hbounds, hleast, by simp [hne], fun carrier hcarrier => ?_⟩
    obtain ⟨hsize, halignment, before, after, rfl, hbefore, hafter⟩ := h.chosen carrier hcarrier
    rw [hsize, halignment] at hold
    refine ⟨hsize, halignment, before, after ++ [type], by simp, hbefore, fun other hother => ?_⟩
    rcases List.mem_append.mp hother with hother | hother
    · exact hafter other hother
    · exact List.mem_singleton.mp hother ▸ hold

theorem considered_foldlM : ∀ {alternatives : List LlvmType} {choice : CarrierChoice},
    alternatives.foldlM (considerAlternative layout) ⟨none, 0, 0, .of 1⟩ = .ok choice →
      Considered layout alternatives choice := by
  intro alternatives choice h
  simpa using foldlM_invariant (Considered layout) considered_nil
    (fun passed type rest choice choice' _ hpassed hstep => hpassed.concat hstep) h

theorem exists_considerAlternative {choice : CarrierChoice} {type : LlvmType}
    (h : isOverlapAlternative type = true) :
    ∃ choice', considerAlternative layout choice type = .ok choice' := by
  have hensure : ensure (isOverlapAlternative type = true)
      "unqualified overlapping-storage alternative" = .ok () := ensure_ok.mpr h
  unfold considerAlternative
  rw [hensure, ok_bind]
  dsimp only
  split
  · exact ⟨_, rfl⟩
  · exact ⟨_, rfl⟩

theorem exists_foldlM_considerAlternative :
    ∀ {alternatives : List LlvmType} {choice : CarrierChoice},
    (∀ type ∈ alternatives, isOverlapAlternative type = true) →
      ∃ choice', alternatives.foldlM (considerAlternative layout) choice = .ok choice'
  | [], choice, _ => ⟨choice, rfl⟩
  | type :: alternatives, choice, h => by
    obtain ⟨htype, h⟩ := List.forall_mem_cons.mp h
    obtain ⟨next, hnext⟩ : ∃ next, considerAlternative layout choice type = .ok next :=
      exists_considerAlternative htype
    obtain ⟨choice', hchoice'⟩ : ∃ choice', alternatives.foldlM (considerAlternative layout) next =
      .ok choice' := exists_foldlM_considerAlternative h
    exact ⟨choice', foldlM_cons_ok.mpr ⟨next, hnext, hchoice'⟩⟩

/-- A list is split at the first element that satisfies a condition. -/
theorem find_of_split {α : Type} {p : α → Bool} {x : α} {before after : List α}
    (hbefore : ∀ y ∈ before, p y = false) (hx : p x = true) :
    (before ++ x :: after).find? p = some x := by
  rw [List.find?_append, List.find?_eq_none.mpr fun y hy => by simp [hbefore y hy]]
  simp [hx]

/-- No alternative passed exceeds the carrier. -/
theorem Considered.not_exceeds {passed : List LlvmType} {choice : CarrierChoice}
    {carrier other : LlvmType} (h : Considered layout passed choice)
    (hcarrier : choice.carrier = some carrier) (hother : other ∈ passed) :
    ¬Exceeds layout other carrier := by
  obtain ⟨-, -, before, after, rfl, hbefore, hafter⟩ := h.chosen carrier hcarrier
  rcases List.mem_append.mp hother with hother | hother
  · exact (hbefore other hother).asymm
  · rcases List.mem_cons.mp hother with rfl | hother
    · exact fun hself => hself.asymm hself
    · exact hafter other hother

/-- Where the carrier has the greatest size it is the first alternative that dominates all. -/
theorem Considered.dominates {alternatives : List LlvmType} {choice : CarrierChoice}
    {carrier : LlvmType} (h : Considered layout alternatives choice)
    (hcarrier : choice.carrier = some carrier) (hsize : choice.carrierSize = choice.maximumSize) :
    alternatives.find? (fun type => Dominates layout alternatives type) = some carrier := by
  have hdominates : Dominates layout alternatives carrier := by
    refine fun other hother => ⟨?_, ?_⟩
    · exact Nat.not_lt.mp fun hlt => h.not_exceeds hcarrier hother (.inl hlt)
    · rw [← (h.chosen carrier hcarrier).1, hsize]
      exact h.bounds other hother
  obtain ⟨-, -, before, after, rfl, hbefore, -⟩ := h.chosen carrier hcarrier
  refine find_of_split (fun type htype => ?_) (decide_eq_true hdominates)
  refine decide_eq_false fun hearlier => ?_
  obtain ⟨halign, hle⟩ := hearlier carrier (by simp)
  rcases hbefore type htype with hlt | ⟨-, hlt⟩
  · exact Nat.not_lt.mpr halign hlt
  · exact Nat.not_lt.mpr hle hlt

/-- An alternative that dominates all is no greater than the carrier. -/
theorem Considered.allocSize_le {alternatives : List LlvmType} {choice : CarrierChoice}
    {carrier greatest : LlvmType} (h : Considered layout alternatives choice)
    (hcarrier : choice.carrier = some carrier) (hgreatest : greatest ∈ alternatives)
    (halign : layout.abiAlign carrier ≤ layout.abiAlign greatest) :
    layout.allocSize greatest ≤ layout.allocSize carrier := by
  have hnot := h.not_exceeds hcarrier hgreatest
  refine Nat.not_lt.mp fun hlt => hnot ?_
  rcases Nat.lt_or_eq_of_le halign with halign | halign
  · exact .inl halign
  · exact .inr ⟨align_eq_iff.mpr halign.symm, hlt⟩

/-- The carrier is the first alternative that is at least as great and as aligned as all. -/
theorem selectOverlapCarrier_ok_iff {alternatives : List LlvmType} {carrier : LlvmType} :
    selectOverlapCarrier layout alternatives = .ok carrier ↔ alternatives.length ≤ 64 ∧
      (∀ type ∈ alternatives, isOverlapAlternative type = true) ∧
        alternatives.find? (fun type => Dominates layout alternatives type) = some carrier := by
  constructor
  · intro h
    obtain ⟨_, hlength, h⟩ := bind_ok.mp h
    obtain ⟨choice, hchoice, h⟩ := bind_ok.mp h
    obtain ⟨_, hsize, hcarrier⟩ := bind_ok.mp h
    have hconsidered := considered_foldlM hchoice
    exact ⟨(ensure_ok.mp hlength).2, hconsidered.qualified,
      hconsidered.dominates (require_ok.mp hcarrier) (ensure_ok.mp hsize)⟩
  · rintro ⟨hlength, hqualified, hfind⟩
    have hmem := List.mem_of_find?_eq_some hfind
    have hdominates : Dominates layout alternatives carrier := by simpa using List.find?_some hfind
    obtain ⟨choice, hchoice⟩ : ∃ choice, alternatives.foldlM (considerAlternative layout)
      ⟨none, 0, 0, .of 1⟩ = .ok choice := exists_foldlM_considerAlternative hqualified
    have hconsidered := considered_foldlM hchoice
    obtain ⟨chosen, hchosen⟩ := Option.ne_none_iff_exists'.mp fun hnone =>
      List.ne_nil_of_mem hmem (hconsidered.unset.mp hnone)
    obtain ⟨hcarrierSize, -, before, after, hsplit, -⟩ := hconsidered.chosen chosen hchosen
    have hchosenMem : chosen ∈ alternatives := hsplit ▸ by simp
    -- What dominates all is no greater than what was chosen.
    have hle : layout.allocSize carrier ≤ layout.allocSize chosen :=
      hconsidered.allocSize_le hchosen hmem (hdominates chosen hchosenMem).1
    have hsize : choice.carrierSize = choice.maximumSize := by
      rw [hcarrierSize]
      exact Nat.le_antisymm (hconsidered.bounds chosen hchosenMem)
        ((hconsidered.least _ fun other hother => (hdominates other hother).2).trans hle)
    obtain rfl := Option.some.inj (hfind.symm.trans (hconsidered.dominates hchosen hsize))
    exact bind_ok.mpr ⟨(), ensure_ok.mpr ⟨List.ne_nil_of_mem hmem, hlength⟩,
      bind_ok.mpr ⟨choice, hchoice, bind_ok.mpr ⟨(), ensure_ok.mpr hsize, require_ok.mpr hchosen⟩⟩⟩

/-- A record of the carrier is as great and as aligned as every alternative. -/
theorem carrier_fits {identity : Option String} {alternatives : List LlvmType} {carrier : LlvmType}
    (h : selectOverlapCarrier layout alternatives = .ok carrier) :
    Dominates layout alternatives (.struct identity false [carrier]) := by
  obtain ⟨-, -, hfind⟩ := selectOverlapCarrier_ok_iff.mp h
  have hdominates : Dominates layout alternatives carrier := by simpa using List.find?_some hfind
  refine fun other hother => ⟨Align.le_trans (hdominates other hother).1 ?_,
    Nat.le_trans (hdominates other hother).2 ?_⟩
  · rw [DataLayout.abiAlign, if_neg (by simp)]
    exact DataLayout.abiAlign_le_fieldsAlign List.mem_cons_self
  · have hmem : (carrier, 0) ∈ layout.elements false 0 [carrier] := by
      rw [DataLayout.elements, alignTo_of_dvd (Nat.dvd_zero _)]
      exact List.mem_cons_self
    simpa using DataLayout.end_le_allocSize identity hmem

end Carrier

/-! ## Debug types -/

inductive DITag
  | typeDef
  | const
  | volatile
  | restrict
  | pointer
  | member
  | union
  | other
  deriving DecidableEq

inductive DIEncoding
  | float
  | signed
  | unsigned
  | signedChar
  | unsignedChar
  | boolean
  | other
  deriving DecidableEq

/-- A debug type. Sizes, alignments and offsets are in bits. (The types are trees here : what a
pointer points to is never followed.) -/
inductive DIType
  | basic (encoding : DIEncoding) (size : ℕ)
  | derived (tag : DITag) (name : String) (size align offset : ℕ) (bitField : Bool)
    (base : Option DIType)
  | composite (tag : DITag) (size align : ℕ) (elements : List DIType)
  | other

/-- Whether a derived type is another name of its base. -/
def DITag.isName : DITag → Bool
  | .typeDef | .const | .volatile | .restrict => true
  | _ => false

/-- The type under the names, at most as many as the fuel. -/
def baseType : ℕ → Option DIType → Option DIType
  | 0, some (.derived ..) => none
  | depth + 1, some (.derived tag name size align offset bitField base) =>
    if tag.isName then baseType depth base
    else some (.derived tag name size align offset bitField base)
  | _, type => type

def DIEncoding.isInteger : DIEncoding → Bool
  | .signed | .unsigned | .signedChar | .unsignedChar | .boolean => true
  | _ => false

deriving instance DecidableEq for OverlapAlternative, NativeOverlap

section Evidence

variable (layout : DataLayout)

/-- The native type of a scalar debug type. -/
def debugScalarType (input : Option DIType) : Option LlvmType :=
  match baseType 64 input with
  | some (.basic encoding size) =>
    if encoding = .float then
      if size = 32 then some .floatTy else if size = 64 then some .doubleTy else none
    else if encoding.isInteger = true ∧ (size = 8 ∨ size = 16 ∨ size = 32 ∨ size = 64) then
      some (.int size)
    else none
  | some (.derived .pointer _ size _ _ _ _) =>
    if size = 8 * layout.pointerSize 0 then some .ptr else none
  | _ => none

/-- One more member of a union. -/
def proveMember (alternatives : List OverlapAlternative) (item : DIType) :
    Checked (List OverlapAlternative) :=
  match item with
  | .derived tag name size align offset bitField base => do
    let type ← require (debugScalarType layout base)
      "unqualified or contradictory overlap member evidence"
    ensure (tag = .member ∧ bitField = false ∧ offset = 0 ∧ name ≠ "" ∧
        (∀ other ∈ alternatives, other.privateName ≠ name) ∧ size = layout.typeBits type ∧
        (align = 0 ∨ align = (layout.abiAlign type).value * 8))
      "unqualified or contradictory overlap member evidence"
    pure (alternatives ++ [⟨name, type⟩])
  | _ => throw "unqualified or contradictory overlap member evidence"

/-- The alternatives of native storage, by the union it is the storage of. -/
def proveOverlap (storage : StructType) (size align : ℕ) (elements : List DIType) :
    Checked NativeOverlap := do
  ensure (storage.packed = false ∧ storage.fields.length = 1 ∧ elements ≠ [] ∧ elements.length ≤ 64)
    "unqualified overlapping-storage layout"
  let alternatives ← elements.foldlM (proveMember layout) []
  let carrier ← selectOverlapCarrier layout (alternatives.map OverlapAlternative.type)
  ensure (storage.fields = [carrier] ∧ size = layout.allocSize storage.toType * 8 ∧
      layout.abiAlign carrier = layout.abiAlign storage.toType ∧
      (align = 0 ∨ align = (layout.abiAlign storage.toType).value * 8))
    "native overlap carrier does not match its semantic layout evidence"
  pure ⟨alternatives⟩

/-- Keep what is found for a native type. -/
def rememberOverlap (found : List (LlvmType × NativeOverlap)) (native : LlvmType)
    (proven : NativeOverlap) : Checked (List (LlvmType × NativeOverlap)) :=
  match found.lookup native with
  | some previous => do
    ensure (previous = proven) "conflicting overlap evidence for native storage"
    pure found
  | none => pure (found ++ [(native, proven)])

/-- The overlapping storage found, with that of one more native type and its debug type. -/
def associateOverlap (found : List (LlvmType × NativeOverlap)) (entry : LlvmType × Option DIType) :
    Checked (List (LlvmType × NativeOverlap)) :=
  match baseType 64 entry.2 with
  | some (.composite .union size align elements) =>
    match entry.1 with
    | .struct identity packed fields => do
      let proven ← proveOverlap layout ⟨identity, packed, fields⟩ size align elements
      rememberOverlap found entry.1 proven
    | _ => throw "overlap evidence does not describe LLVM record storage"
  | _ => pure found

/-- The overlapping storage of a module, by the types and debug types of its variables. -/
def discoverNativeOverlaps (observed : List (LlvmType × Option DIType)) :
    Checked (List (LlvmType × NativeOverlap)) :=
  observed.foldlM (associateOverlap layout) []

/-- What is found is a record of the carrier of alternatives with distinct names. -/
structure ProvenOverlap (native : LlvmType) (overlap : NativeOverlap) : Prop where
  names : (OverlapEvidence.names overlap.alternatives).Nodup
  storage : ∃ identity carrier, native = .struct identity false [carrier] ∧
    selectOverlapCarrier layout (overlap.alternatives.map OverlapAlternative.type) = .ok carrier

variable {layout}

theorem proveMember_ok {alternatives alternatives' : List OverlapAlternative} {item : DIType}
    (h : proveMember layout alternatives item = .ok alternatives') :
    ∃ alternative, alternatives' = alternatives ++ [alternative] ∧
      ∀ other ∈ alternatives, other.privateName ≠ alternative.privateName := by
  unfold proveMember at h
  split at h
  · obtain ⟨type, -, h⟩ := bind_ok.mp h
    obtain ⟨_, hmember, h⟩ := bind_ok.mp h
    obtain rfl := Except.ok.inj h
    exact ⟨_, rfl, (ensure_ok.mp hmember).2.2.2.2.1⟩
  · cases h

theorem names_proveMembers :
    ∀ {items : List DIType} {alternatives alternatives' : List OverlapAlternative},
    (OverlapEvidence.names alternatives).Nodup →
      items.foldlM (proveMember layout) alternatives = .ok alternatives' →
      (OverlapEvidence.names alternatives').Nodup
  | [], alternatives, alternatives', hnodup, h => by
    obtain rfl := Except.ok.inj h
    exact hnodup
  | item :: items, alternatives, alternatives', hnodup, h => by
    obtain ⟨next, hnext, h⟩ := foldlM_cons_ok.mp h
    obtain ⟨alternative, rfl, hnew⟩ := proveMember_ok hnext
    refine names_proveMembers ?_ h
    rw [OverlapEvidence.names, List.map_append]
    refine Grouping.nodup_concat hnodup fun hmem => ?_
    obtain ⟨other, hother, heq⟩ := List.mem_map.mp hmem
    exact hnew other hother heq

theorem proveOverlap_ok {storage : StructType} {size align : ℕ} {elements : List DIType}
    {overlap : NativeOverlap} (h : proveOverlap layout storage size align elements = .ok overlap) :
    ProvenOverlap layout storage.toType overlap := by
  obtain ⟨_, hstorage, h⟩ := bind_ok.mp h
  obtain ⟨alternatives, halternatives, h⟩ := bind_ok.mp h
  obtain ⟨carrier, hcarrier, h⟩ := bind_ok.mp h
  obtain ⟨_, hmatches, h⟩ := bind_ok.mp h
  obtain rfl := Except.ok.inj h
  have hnil : (OverlapEvidence.names []).Nodup := List.nodup_nil
  refine ⟨names_proveMembers hnil halternatives, storage.identity, carrier, ?_, hcarrier⟩
  rw [StructType.toType, (ensure_ok.mp hstorage).1, (ensure_ok.mp hmatches).1]

/-- The union a variable is of. -/
def IsUnion (debug : Option DIType) (size align : ℕ) (elements : List DIType) : Prop :=
  baseType 64 debug = some (.composite .union size align elements)

/-- A variable among those passed is a union, of this storage and with these alternatives
proven. -/
def ObservedUnion (layout : DataLayout) (passed : List (LlvmType × Option DIType))
    (native : LlvmType) (overlap : NativeOverlap) : Prop :=
  ∃ debug size align elements storage, (native, debug) ∈ passed ∧
    IsUnion debug size align elements ∧ native = StructType.toType storage ∧
    proveOverlap layout storage size align elements = .ok overlap

/-- What is found for the variables passed : each union among them once, as it was proven, and
nothing that is not the storage of a union among them. -/
structure FoundOverlaps (layout : DataLayout) (passed : List (LlvmType × Option DIType))
    (found : List (LlvmType × NativeOverlap)) : Prop where
  nodup : (found.map Prod.fst).Nodup
  proven : ∀ native overlap, (native, overlap) ∈ found → ProvenOverlap layout native overlap
  observed : ∀ native overlap, (native, overlap) ∈ found →
    ObservedUnion layout passed native overlap
  complete : ∀ native debug size align elements, (native, debug) ∈ passed →
    IsUnion debug size align elements → ∃ storage overlap, native = StructType.toType storage ∧
      proveOverlap layout storage size align elements = .ok overlap ∧ (native, overlap) ∈ found

theorem ObservedUnion.append {passed : List (LlvmType × Option DIType)} {native : LlvmType}
    {overlap : NativeOverlap} (h : ObservedUnion layout passed native overlap)
    (entry : LlvmType × Option DIType) :
    ObservedUnion layout (passed ++ [entry]) native overlap := by
  obtain ⟨debug, size, align, elements, storage, hpassed, hunion⟩ := h
  exact ⟨debug, size, align, elements, storage, List.mem_append_left _ hpassed, hunion⟩

theorem rememberOverlap_ok {found found' : List (LlvmType × NativeOverlap)} {native : LlvmType}
    {proven : NativeOverlap} (hnodup : (found.map Prod.fst).Nodup)
    (h : rememberOverlap found native proven = .ok found') :
    (found'.map Prod.fst).Nodup ∧
      ∀ entry, entry ∈ found' ↔ entry ∈ found ∨ entry = (native, proven) := by
  unfold rememberOverlap at h
  split at h
  · rename_i previous hprevious
    obtain ⟨_, hsame, hfound⟩ := bind_ok.mp h
    obtain rfl := Except.ok.inj hfound
    obtain rfl := ensure_ok.mp hsame
    have hmem := (Association.lookup_eq_some_iff_mem hnodup).mp hprevious
    exact ⟨hnodup, fun entry => ⟨.inl, fun hentry => hentry.elim id fun heq => heq ▸ hmem⟩⟩
  · rename_i hnone
    obtain rfl := Except.ok.inj h
    refine ⟨?_, by simp⟩
    rw [List.map_append]
    exact Grouping.nodup_concat hnodup (Association.lookup_eq_none_iff_mem.mp hnone)

theorem FoundOverlaps.concat {passed : List (LlvmType × Option DIType)}
    {found found' : List (LlvmType × NativeOverlap)} {entry : LlvmType × Option DIType}
    (h : FoundOverlaps layout passed found)
    (hstep : associateOverlap layout found entry = .ok found') :
    FoundOverlaps layout (passed ++ [entry]) found' := by
  unfold associateOverlap at hstep
  split at hstep
  · rename_i size align elements hunion
    split at hstep
    · rename_i identity packed fields hnative
      obtain ⟨proven, hproven, hstep⟩ := bind_ok.mp hstep
      obtain ⟨hnodup, hmem⟩ := rememberOverlap_ok h.nodup hstep
      refine ⟨hnodup, fun native overlap hentry => ?_, fun native overlap hentry => ?_,
        fun native debug size' align' elements' hpassed hdebug => ?_⟩
      · rcases (hmem _).mp hentry with hentry | hentry
        · exact h.proven native overlap hentry
        · obtain ⟨rfl, rfl⟩ := Prod.mk.inj hentry
          exact hnative ▸ proveOverlap_ok hproven
      · rcases (hmem _).mp hentry with hentry | hentry
        · exact (h.observed native overlap hentry).append entry
        · obtain ⟨rfl, rfl⟩ := Prod.mk.inj hentry
          exact ⟨entry.2, size, align, elements, ⟨identity, packed, fields⟩, by simp, hunion,
            hnative, hproven⟩
      · rcases List.mem_append.mp hpassed with hpassed | hpassed
        · obtain ⟨storage, overlap, hstorage, hoverlap, hfound⟩ :=
            h.complete native debug size' align' elements' hpassed hdebug
          exact ⟨storage, overlap, hstorage, hoverlap, (hmem _).mpr (.inl hfound)⟩
        · obtain rfl := List.mem_singleton.mp hpassed
          obtain ⟨-, rfl, rfl, rfl⟩ :=
            DIType.composite.inj (Option.some.inj (hunion.symm.trans hdebug))
          exact ⟨⟨identity, packed, fields⟩, proven, hnative, hproven, (hmem _).mpr (.inr rfl)⟩
    · cases hstep
  · rename_i hother
    obtain rfl := Except.ok.inj hstep
    refine ⟨h.nodup, h.proven, fun native overlap hentry =>
      (h.observed native overlap hentry).append entry,
      fun native debug size align elements hpassed hdebug => ?_⟩
    rcases List.mem_append.mp hpassed with hpassed | hpassed
    · exact h.complete native debug size align elements hpassed hdebug
    · obtain rfl := List.mem_singleton.mp hpassed
      exact absurd hdebug (hother size align elements)

theorem foundOverlaps_foldlM {observed : List (LlvmType × Option DIType)}
    {found : List (LlvmType × NativeOverlap)}
    (h : observed.foldlM (associateOverlap layout) [] = .ok found) :
    FoundOverlaps layout observed found := by
  have hnil : FoundOverlaps layout [] [] := ⟨by simp, by simp, by simp, by simp⟩
  simpa using foldlM_invariant (FoundOverlaps layout) hnil
    (fun passed entry rest found found' _ hpassed hstep => hpassed.concat hstep) h

/-- The overlapping storage found in a module : exactly each union among its variables once, its
alternatives under distinct names, and the storage at least as great and as aligned as each of
them. -/
theorem discoverNativeOverlaps_fits {observed : List (LlvmType × Option DIType)}
    {found : List (LlvmType × NativeOverlap)}
    (h : discoverNativeOverlaps layout observed = .ok found) :
    FoundOverlaps layout observed found ∧ ∀ native overlap, (native, overlap) ∈ found →
      Dominates layout (overlap.alternatives.map OverlapAlternative.type) native := by
  have hfound : FoundOverlaps layout observed found := foundOverlaps_foldlM h
  refine ⟨hfound, fun native overlap hentry => ?_⟩
  obtain ⟨identity, carrier, rfl, hcarrier⟩ := (hfound.proven native overlap hentry).storage
  exact carrier_fits hcarrier

end Evidence

/-- A union of a 32-bit number and a double, which has the alignment of both. -/
def numberUnion : DIType :=
  .composite .union 64 0 [
    .derived .member "word" 32 0 0 false (some (.basic .unsigned 32)),
    .derived .member "real" 64 0 0 false
      (some (.derived .typeDef "" 0 0 0 false (some (.basic .float 64))))]

/-- Two variables of the union, one under a name for it, and a number. -/
def numberVariables : List (LlvmType × Option DIType) :=
  [(.struct (some "union.n") false [.doubleTy], some numberUnion),
    (.int 32, some (.basic .signed 32)),
    (.struct (some "union.n") false [.doubleTy],
      some (.derived .typeDef "number" 0 0 0 false (some numberUnion)))]

theorem discoverNativeOverlaps_fits_numberUnion :
    FoundOverlaps NativeTarget.x86_64.layout numberVariables
        [(.struct (some "union.n") false [.doubleTy],
          ⟨[⟨"word", .int 32⟩, ⟨"real", .doubleTy⟩]⟩)] ∧
      Dominates NativeTarget.x86_64.layout [.int 32, .doubleTy]
        (.struct (some "union.n") false [.doubleTy]) := by
  have hfound : discoverNativeOverlaps NativeTarget.x86_64.layout numberVariables =
      .ok [(.struct (some "union.n") false [.doubleTy],
        ⟨[⟨"word", .int 32⟩, ⟨"real", .doubleTy⟩]⟩)] := by
    decide +kernel
  have hfits := discoverNativeOverlaps_fits hfound
  exact ⟨hfits.1, hfits.2 _ _ List.mem_cons_self⟩

end Sela
