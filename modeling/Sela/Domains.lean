import Sela.Checked
import Sela.Grouping
import Sela.Module

/-!
# Target domains

An attribute may hold one value for each group of targets (`targetChoice`), a type may
have a target's word width, a case, an extent or an alternative. Selecting a target's
case of an attribute and specializing a type or an attribute for a target give what that
target sees.
-/

namespace Sela

open Checked

/-! ## Target sets -/

/-- The attribute of a set of target identities. -/
def targetSet (ids : List String) : Attr := .array (ids.map Attr.string)

/-- Whether a set of target identities has `target`. -/
def containsTarget (input : Attr) (target : String) : Bool :=
  match input with
  | .array values => values.any fun value => value == .string target
  | _ => false

@[simp] theorem containsTarget_targetSet {ids : List String} {target : String} :
    containsTarget (targetSet ids) target = true ↔ target ∈ ids := by
  simp [containsTarget, targetSet]

/-- The target qualification a module declares. -/
def declaredTargets (module : Module) : Checked (List String) :=
  match (module.attributes.get "sela.targets").bind Attr.asArray? with
  | none => throw "Sela module needs a bounded explicit target qualification set"
  | some values => do
    ensure (values ≠ [] ∧ values.length ≤ 256)
      "Sela module needs a bounded explicit target qualification set"
    let ids ← values.mapM fun value =>
      match value with
      | .string id => do
        ensure (targets.find id).isSome "unknown or duplicate qualified Sela target"
        pure id
      | _ => throw "unknown or duplicate qualified Sela target"
    ensure ids.Nodup "unknown or duplicate qualified Sela target"
    pure ids

/-! ## Choices -/

/-- One attribute for the values observed on several targets : the value itself where
they all agree, else a case for each group of targets. (The source returns no attribute
for no observation, and never asks for it.) -/
def targetChoice (observations : List (String × Attr)) : Attr :=
  match Grouping.groupBy Prod.snd observations with
  | [] => .unit
  | [(value, _)] => value
  | groups =>
    .dictionary [("target_cases", .array (groups.map fun group =>
      .dictionary [("targets", targetSet (group.2.map Prod.fst)), ("value", group.1)]))]

/-- The case of a choice that has `target`, among the cases left and the one found. -/
def selectCase (target : String) : List Attr → Option Attr → Checked Attr
  | [], some selected => pure selected
  | [], none => throw ("semantic choice is not defined for qualified target: " ++ target)
  | value :: cases, selected =>
    match value.asDictionary? with
    | none => throw "invalid target choice case"
    | some entry =>
      match entry.get "value" with
      | none => throw "invalid target choice case"
      | some value =>
        if entry.length ≠ 2 then throw "invalid target choice case"
        else if !(entry.get "targets").any (containsTarget · target) then
          selectCase target cases selected
        else if selected.isSome then throw "overlapping target choice"
        else selectCase target cases (some value)

/-- Select through at most `depth` nested choices. -/
def selectNested (target : String) : ℕ → Attr → Checked Attr
  | 0, _ => throw "excessively nested target choice"
  | depth + 1, input =>
    match input.asDictionary? with
    | none => pure input
    | some dictionary =>
      match dictionary.get "target_cases" with
      | none => pure input
      | some raw =>
        match raw.asArray? with
        | none => throw "invalid target choice"
        | some cases =>
          if dictionary.length ≠ 1 then throw "invalid target choice"
          else do
            let selected ← selectCase target cases none
            selectNested target depth selected

/-- What `target` sees of an attribute. -/
def selectAttribute (input : Attr) (target : String) : Checked Attr :=
  selectNested target 64 input

/-- The integer an attribute denotes on a target. -/
def evaluateInteger (input : Attr) (target : TargetInfo) : Checked ℕ := do
  let value ← selectAttribute input target.id
  match value with
  | .integer width value =>
    if width ≤ 64 then pure value else throw "invalid public target integer expression"
  | .foreign (.number type value) =>
    if type.width ≤ 64 then pure value else throw "invalid public target integer expression"
  | .string "pointer_bytes" => pure (target.wordBits / 8)
  | _ => throw "invalid public target integer expression"

/-! ## A selected case is a part of the choice -/

theorem sizeOf_get_le {name : String} {value : Attr} {entries : Attributes}
    (h : entries.get name = some value) : sizeOf value < sizeOf entries := by
  have hentry := List.sizeOf_lt_of_mem (Attributes.mem_of_get h)
  simp only [Prod.mk.sizeOf_spec] at hentry
  omega

theorem selectCase_sizeOf {target : String} {bound : ℕ} :
    ∀ {cases : List Attr} {selected : Option Attr} {result : Attr},
      (∀ a ∈ cases, sizeOf a ≤ bound) → (∀ a, selected = some a → sizeOf a ≤ bound) →
      selectCase target cases selected = .ok result → sizeOf result ≤ bound
  | [], selected, result, _, hselected, h => by
    cases selected with
    | none => simp [selectCase] at h
    | some a =>
      obtain rfl : a = result := by simpa [selectCase] using h
      exact hselected a rfl
  | case :: cases, selected, result, hcases, hselected, h => by
    have hrest : ∀ a ∈ cases, sizeOf a ≤ bound := fun a ha => hcases a (by simp [ha])
    unfold selectCase at h
    split at h
    · simp at h
    · rename_i entry hentry
      obtain rfl : case = .dictionary entry := by simpa using hentry
      split at h
      · simp at h
      · rename_i value hvalue
        have hsize : sizeOf value ≤ bound := by
          have := hcases (.dictionary entry) (by simp)
          have := sizeOf_get_le hvalue
          simp at *
          omega
        split at h
        · simp at h
        · split at h
          · exact selectCase_sizeOf hrest hselected h
          · split at h
            · simp at h
            · exact selectCase_sizeOf hrest (by simpa using hsize) h

theorem selectNested_sizeOf {target : String} :
    ∀ {depth : ℕ} {input result : Attr},
      selectNested target depth input = .ok result → sizeOf result ≤ sizeOf input
  | 0, input, result, h => by simp [selectNested] at h
  | depth + 1, input, result, h => by
    unfold selectNested at h
    split at h
    · simp_all
    · rename_i dictionary hdictionary
      obtain rfl : input = .dictionary dictionary := by simpa using hdictionary
      split at h
      · simp_all
      · rename_i raw hraw
        split at h
        · simp at h
        · rename_i cases hcases
          obtain rfl : raw = .array cases := by simpa using hcases
          split at h
          · simp at h
          · obtain ⟨selected, hselected, h⟩ := bind_ok.mp h
            have hle := selectNested_sizeOf h
            have hbound := sizeOf_get_le hraw
            have hcase : sizeOf selected ≤ sizeOf cases := selectCase_sizeOf
              (fun a ha => Nat.le_of_lt (List.sizeOf_lt_of_mem ha)) (by simp) hselected
            simp at *
            omega

theorem selectAttribute_sizeOf {input result : Attr} {target : String}
    (h : selectAttribute input target = .ok result) : sizeOf result ≤ sizeOf input :=
  selectNested_sizeOf h

/-! ## Specialization -/

/-- The type `target` sees. -/
def specializeType (target : TargetInfo) : SelaType → Checked SelaType
  | .word => pure (.integer target.wordBits)
  | .choice cases =>
    match _h : selectAttribute cases target.id with
    | .error message => throw message
    | .ok (.type concrete) => specializeType target concrete
    | .ok _ => throw "type choice requires type-valued cases"
  | .array element count => do
    let count ← evaluateInteger count target
    let element ← specializeType target element
    pure (.array element (.integer 64 count))
  | .record identity packed fields => do
    let fields ← fields.mapM fun field => specializeType target field
    pure (.record identity packed fields)
  | .overlap identity alternatives domains =>
    if alternatives.length ≠ domains.length then
      throw "overlap alternative target inventory mismatch"
    else do
      let kept ← ((alternatives.attach.zip domains).filter (containsTarget ·.2 target.id)).mapM
        fun entry => specializeType target entry.1.1
      if kept = [] then throw "no overlap alternatives for qualified target"
      else pure (.overlap identity kept (kept.map fun _ => targetSet [target.id]))
  | .function inputs results => do
    let inputs ← inputs.mapM fun input => specializeType target input
    let results ← results.mapM fun result => specializeType target result
    pure (.function inputs results)
  | type => pure type
termination_by type => sizeOf type
decreasing_by
  · have := selectAttribute_sizeOf _h
    simp at *
    omega
  · simp
    omega
  · rename_i h
    have := List.sizeOf_lt_of_mem h
    simp
    omega
  · have := List.sizeOf_lt_of_mem entry.1.2
    simp
    omega
  · rename_i h
    have := List.sizeOf_lt_of_mem h
    simp
    omega
  · rename_i h
    have := List.sizeOf_lt_of_mem h
    simp
    omega

/-- Cut the data of an initializer with a count to that count. -/
def clipArray (target : TargetInfo) (dictionary : Attributes) : Checked Attr :=
  match (dictionary.get "array").bind Attr.asArray?, dictionary.get "count" with
  | some elements, some count => do
    let count ← evaluateInteger count target
    if elements.length < count then throw "initializer count exceeds represented data"
    else pure (.dictionary (dictionary.set "array" (.array (elements.take count))))
  | _, _ => pure (.dictionary dictionary)

/-- The attribute `target` sees. In a numeric place `pointer_bytes` is a number. -/
def specializeAttribute (target : TargetInfo) (numeric : Bool) (input : Attr) : Checked Attr :=
  match h : selectAttribute input target.id with
  | .error message => throw message
  | .ok (.type type) => do
    let type ← specializeType target type
    pure (.type type)
  | .ok (.array elements) => do
    let values ← elements.attach.mapM fun entry => specializeAttribute target numeric entry.1
    pure (.array values)
  | .ok (.dictionary entries) => do
    let values ← entries.attach.mapM fun entry => do
      let value ← specializeAttribute target (numeric || entry.1.1 == "integer") entry.1.2
      pure (entry.1.1, value)
    clipArray target values
  | .ok (.string text) =>
    if numeric && text == "pointer_bytes" then pure (.integer 64 (target.wordBits / 8))
    else pure (.string text)
  | .ok value => pure value
termination_by sizeOf input
decreasing_by
  · have := selectAttribute_sizeOf h
    have := List.sizeOf_lt_of_mem entry.2
    simp at *
    omega
  · have := selectAttribute_sizeOf h
    have := List.sizeOf_lt_of_mem entry.2
    obtain ⟨⟨name, value⟩, hentry⟩ := entry
    simp at *
    omega

theorem mapM_attach {α β : Type} (f : α → Checked β) (xs : List α) :
    (xs.attach.mapM fun x => f x.1) = xs.mapM f := by
  rw [show (xs.attach.mapM fun x => f x.1) = (xs.attach.map Subtype.val).mapM f from
    List.mapM_map.symm, List.attach_map_subtype_val]

/-- The alternatives of an overlap a target has. -/
theorem specializeType_overlap (target : TargetInfo) (identity : String)
    (alternatives : List SelaType) (domains : List Attr) :
    specializeType target (.overlap identity alternatives domains) =
      (if alternatives.length ≠ domains.length then
        throw "overlap alternative target inventory mismatch"
      else do
        let kept ← ((alternatives.zip domains).filter (containsTarget ·.2 target.id)).mapM
          fun entry => specializeType target entry.1
        if kept = [] then throw "no overlap alternatives for qualified target"
        else pure (.overlap identity kept (kept.map fun _ => targetSet [target.id]))) := by
  have hzip : (alternatives.attach.zip domains).map (fun entry => (entry.1.1, entry.2)) =
      alternatives.zip domains := by
    conv_rhs => rw [← List.attach_map_subtype_val alternatives]
    rw [List.zip_map_left]
    rfl
  rw [specializeType, ← hzip, List.filter_map, List.mapM_map]
  rfl

/-- The equation of `specializeAttribute`, by the selected case. -/
theorem specializeAttribute_eq (target : TargetInfo) (numeric : Bool) (input : Attr) :
    specializeAttribute target numeric input = (do
      let selected ← selectAttribute input target.id
      match selected with
      | .type type => do
        let type ← specializeType target type
        pure (.type type)
      | .array elements => do
        let values ← elements.mapM fun entry => specializeAttribute target numeric entry
        pure (.array values)
      | .dictionary entries => do
        let values ← entries.mapM fun entry => do
          let value ← specializeAttribute target (numeric || entry.1 == "integer") entry.2
          pure (entry.1, value)
        clipArray target values
      | .string text =>
        if numeric && text == "pointer_bytes" then pure (.integer 64 (target.wordBits / 8))
        else pure (.string text)
      | value => pure value) := by
  rw [specializeAttribute]
  split
  · simp [*]
  · simp [*]
  · rename_i elements h
    simp only [h, ok_bind, mapM_attach]
  · rename_i entries h
    simp only [h, ok_bind]
    rw [mapM_attach (fun entry : String × Attr => do
      let value ← specializeAttribute target (numeric || entry.1 == "integer") entry.2
      pure (entry.1, value))]
  · simp [*]
  · rename_i value htype harray hdictionary hstring h
    rw [h, ok_bind]
    cases value <;> simp_all

/-- The equation of `specializeType` at a choice. -/
theorem specializeType_choice (target : TargetInfo) (cases : Attr) :
    specializeType target (.choice cases) = (do
      let selected ← selectAttribute cases target.id
      match selected with
      | .type concrete => specializeType target concrete
      | _ => throw "type choice requires type-valued cases") := by
  rw [specializeType]
  split
  · simp [*]
  · simp [*]
  · rename_i value htype h
    rw [h, ok_bind]
    cases value <;> simp_all

end Sela
