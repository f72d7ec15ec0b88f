import Mathlib.Logic.Relation
import Sela.DomainSpecialization

/-!
# Choices of targets, wherever they stand

A choice may stand in an attribute, inside of arrays, dictionaries and other choices, and in the
types a type is made of. A place is reached in steps (`Content.Step`) that keep track of the
targets it was checked for : the cases of a choice narrow them, and a type is checked for all
targets of its module.

What the checks accept they accept inside too (`Content.Accepted.step`), so the cases of each
choice have targets, no two the same one and none outside of the place
(`Content.Accepted.admits`). What a target sees is resolved for it inside too
(`Content.Resolved.step`), so exactly one case of a choice it sees is its own
(`selectAttribute_case`).
-/

namespace Sela

open Checked Stateful

/-! ## Choices -/

/-- A case of a choice : its targets and its value. -/
def Attr.IsCase (raw : Attr) (case : List String × Attr) : Prop :=
  ∃ entries : Attributes, raw = .dictionary entries ∧ entries.length = 2 ∧
    entries.get "targets" = some (targetSet case.1) ∧ entries.get "value" = some case.2

/-- A choice among cases. -/
def Attr.IsChoice (value : Attr) (cases : List (List String × Attr)) : Prop :=
  ∃ (dictionary : Attributes) (raws : List Attr), value = .dictionary dictionary ∧
    dictionary.length = 1 ∧ dictionary.get "target_cases" = some (.array raws) ∧
    List.Forall₂ Attr.IsCase raws cases

/-- The cases of a choice are for targets of `active`, each for targets of its own. -/
structure Admits (active : List String) (cases : List (List String × Attr)) : Prop where
  nonempty : cases ≠ []
  targets : ∀ case ∈ cases, case.1 ≠ [] ∧ case.1.Nodup ∧ ∀ id ∈ case.1, id ∈ active
  disjoint : cases.Pairwise fun case other => ∀ id ∈ case.1, id ∉ other.1

/-- The number of cases that have a target. -/
def casesFor (id : String) (cases : List (List String × Attr)) : ℕ :=
  cases.countP fun case => decide (id ∈ case.1)

theorem targetSet_injective : Function.Injective targetSet := fun _ _ h =>
  List.map_injective_iff.mpr (fun _ _ h => Attr.string.inj h) (Attr.array.inj h)

theorem checkCases_ok {checkValue : List String → Attr → Checked Unit} {declared : List String} :
    ∀ {seen : List String} {raws : List Attr}, checkCases checkValue declared seen raws = .ok () →
      ∃ cases : List (List String × Attr),
        List.Forall₂ Attr.IsCase raws cases ∧
        (∀ case ∈ cases, (case.1 ≠ [] ∧ case.1.Nodup ∧ ∀ id ∈ case.1, id ∈ declared) ∧
          (∀ id ∈ case.1, id ∉ seen) ∧ checkValue case.1 case.2 = .ok ()) ∧
        cases.Pairwise fun case other => ∀ id ∈ case.1, id ∉ other.1
  | _, [], _ => ⟨[], .nil, by simp, .nil⟩
  | seen, raw :: raws, h => by
    unfold checkCases at h
    split at h
    · simp at h
    · rename_i entries hentries
      obtain rfl : raw = .dictionary entries := by simpa using hentries
      split at h
      · simp at h
      · rename_i value hvalue
        obtain ⟨_, hlength, h⟩ := bind_ok.mp h
        obtain ⟨active, hactive, h⟩ := bind_ok.mp h
        obtain ⟨_, hseen, h⟩ := bind_ok.mp h
        obtain ⟨_, hcheck, h⟩ := bind_ok.mp h
        obtain ⟨cases, hforms, hcases, hdisjoint⟩ := checkCases_ok h
        obtain ⟨hset, hne, hdeclared, hnodup⟩ := checkSet_ok hactive
        refine ⟨(active, value) :: cases,
          .cons ⟨entries, rfl, ensure_ok.mp hlength, hset, hvalue⟩ hforms,
          List.forall_mem_cons.mpr ⟨⟨⟨hne, hnodup, hdeclared⟩, ensure_ok.mp hseen, hcheck⟩,
            fun case hcase => ?_⟩, .cons (fun other hother id hid hin => ?_) hdisjoint⟩
        · obtain ⟨hform, hnot, hchecked⟩ := hcases case hcase
          exact ⟨hform, fun id hid hin => hnot id hid (List.mem_append_left _ hin), hchecked⟩
        · exact (hcases other hother).2.1 id hin (List.mem_append_right _ hid)

/-- A checked choice admits its cases, and the value of each was checked for its targets. -/
theorem checkAttribute_choice {depth : ℕ} {active : List String} {dictionary : Attributes}
    (hchoice : (dictionary.get "target_cases").isSome)
    (h : checkAttribute (depth + 1) active (.dictionary dictionary) = .ok ()) :
    ∃ cases, (Attr.dictionary dictionary).IsChoice cases ∧ Admits active cases ∧
      ∀ case ∈ cases, checkAttribute depth case.1 case.2 = .ok () := by
  obtain ⟨raw, hraw⟩ := Option.isSome_iff_exists.mp hchoice
  simp only [checkAttribute, hraw] at h
  split at h
  · simp at h
  · rename_i raws hraws
    obtain rfl : raw = .array raws := by simpa using hraws
    obtain ⟨_, hinventory, h⟩ := bind_ok.mp h
    obtain ⟨hlength, hne, -⟩ := ensure_ok.mp hinventory
    obtain ⟨cases, hforms, hcases, hdisjoint⟩ := checkCases_ok h
    refine ⟨cases, ⟨dictionary, raws, rfl, hlength, hraw, hforms⟩,
      ⟨?_, fun case hcase => (hcases case hcase).1, hdisjoint⟩, fun case hcase => (hcases case hcase).2.2⟩
    rintro rfl
    exact hne (List.forall₂_nil_right_iff.mp hforms)

theorem Attr.IsChoice.isSome {dictionary : Attributes} {cases : List (List String × Attr)}
    (h : (Attr.dictionary dictionary).IsChoice cases) : (dictionary.get "target_cases").isSome := by
  obtain ⟨dictionary', raws, heq, -, hraw, -⟩ := h
  obtain rfl : dictionary = dictionary' := by simpa using heq
  simp [hraw]

theorem Attr.IsChoice.unique {value : Attr} {cases cases' : List (List String × Attr)}
    (h : value.IsChoice cases) (h' : value.IsChoice cases') : cases = cases' := by
  obtain ⟨dictionary, raws, rfl, -, hraw, hforms⟩ := h
  obtain ⟨dictionary', raws', heq, -, hraw', hforms'⟩ := h'
  obtain rfl : dictionary = dictionary' := by simpa using heq
  obtain rfl : raws = raws' := by simpa [hraw] using hraw'
  clear hraw hraw'
  induction hforms generalizing cases' with
  | nil => exact (List.forall₂_nil_left_iff.mp hforms').symm
  | cons hcase _ ih =>
    obtain ⟨case', rest', hcase', hrest', rfl⟩ := List.forall₂_cons_left_iff.mp hforms'
    obtain ⟨entries, rfl, -, htargets, hvalue⟩ := hcase
    obtain ⟨entries', heq, -, htargets', hvalue'⟩ := hcase'
    obtain rfl : entries = entries' := by simpa using heq
    have hids := targetSet_injective (Option.some.inj (htargets.symm.trans htargets'))
    rw [ih hrest', Prod.ext hids (Option.some.inj (hvalue.symm.trans hvalue'))]

/-! ## Places -/

/-- What an attribute stands for. -/
inductive Content.Kind
  | value
  | alternatives
  | count
  deriving DecidableEq

/-- What may hold a choice. -/
inductive Content
  | attribute (kind : Content.Kind) (value : Attr)
  | type (type : SelaType)

/-- A place inside of another, with the targets each was checked for. The case of a choice and the
alternative of an overlap are entered when `visible` holds of their targets. (A vector holds
numbers.) -/
inductive Content.Step (declared : List String) (visible : List String → Prop) :
    List String × Content → List String × Content → Prop
  | element {active : List String} {kind : Kind} {elements : List Attr} {element : Attr}
    (h : element ∈ elements) :
    Step declared visible (active, .attribute kind (.array elements)) (active, .attribute kind element)
  | entry {active : List String} {kind : Kind} {entries : Attributes} {entry : String × Attr}
    (hplain : entries.get "target_cases" = none) (h : entry ∈ entries) :
    Step declared visible (active, .attribute kind (.dictionary entries))
      (active, .attribute kind entry.2)
  | case {active : List String} {kind : Kind} {value : Attr} {cases : List (List String × Attr)}
    {case : List String × Attr} (hchoice : value.IsChoice cases) (h : case ∈ cases)
    (hvisible : visible case.1) :
    Step declared visible (active, .attribute kind value) (case.1, .attribute kind case.2)
  | mentioned {active : List String} {kind : Kind} {type : SelaType} (hkind : kind ≠ .count) :
    Step declared visible (active, .attribute kind (.type type)) (declared, .type type)
  | alternatives {active : List String} {cases : Attr} :
    Step declared visible (active, .type (.choice cases)) (declared, .attribute .alternatives cases)
  | count {active : List String} {element : SelaType} {count : Attr} :
    Step declared visible (active, .type (.array element count)) (declared, .attribute .count count)
  | elements {active : List String} {element : SelaType} {count : Attr} :
    Step declared visible (active, .type (.array element count)) (declared, .type element)
  | field {active : List String} {identity : String} {packed : Bool} {fields : List SelaType}
    {field : SelaType} (h : field ∈ fields) :
    Step declared visible (active, .type (.record identity packed fields)) (declared, .type field)
  | alternative {active : List String} {identity : String} {alternatives : List SelaType}
    {domains : List Attr} {alternative : SelaType} {ids : List String}
    (h : (alternative, targetSet ids) ∈ alternatives.zip domains) (hvisible : visible ids) :
    Step declared visible (active, .type (.overlap identity alternatives domains))
      (declared, .type alternative)
  | input {active : List String} {inputs results : List SelaType} {input : SelaType}
    (h : input ∈ inputs) :
    Step declared visible (active, .type (.function inputs results)) (declared, .type input)
  | result {active : List String} {inputs results : List SelaType} {result : SelaType}
    (h : result ∈ results) :
    Step declared visible (active, .type (.function inputs results)) (declared, .type result)

/-- A place reached from another. -/
def Content.Reaches (declared : List String) (visible : List String → Prop) :
    List String × Content → List String × Content → Prop :=
  Relation.ReflTransGen (Content.Step declared visible)

/-! ## What the checks accept -/

/-- The types a place of an attribute holds were checked as its kind demands. -/
def Content.TypesAccepted (declared : List String) (value : Attr) : Content.Kind → Prop
  | .value => ∀ type ∈ value.mentioned, ∃ depth, checkType declared depth type = .ok ()
  | .alternatives => ∃ depth level, checkCaseTypes (checkType declared depth) level value = .ok ()
  | .count => True

/-- A place was checked. -/
def Content.Accepted (declared : List String) (place : List String × Content) : Prop :=
  match place.2 with
  | .attribute kind value =>
    (∃ depth, checkAttribute depth place.1 value = .ok ()) ∧ TypesAccepted declared value kind
  | .type input => ∃ depth, checkType declared depth input = .ok ()

theorem mentioned_case {value : Attr} {cases : List (List String × Attr)} (h : value.IsChoice cases)
    {case : List String × Attr} (hcase : case ∈ cases) {type : SelaType}
    (htype : type ∈ case.2.mentioned) : type ∈ value.mentioned := by
  obtain ⟨dictionary, raws, rfl, -, hraw, hforms⟩ := h
  obtain ⟨raw, hmem, entries, rfl, -, -, hvalue⟩ := exists_of_forall₂_right hforms hcase
  rw [Attr.mentioned, entriesMentioned_eq]
  refine List.mem_flatMap.mpr ⟨_, Attributes.mem_of_get hraw, ?_⟩
  rw [Attr.mentioned, attrsMentioned_eq]
  refine List.mem_flatMap.mpr ⟨_, hmem, ?_⟩
  rw [Attr.mentioned, entriesMentioned_eq]
  exact List.mem_flatMap.mpr ⟨_, Attributes.mem_of_get hvalue, htype⟩

/-- Each case of a choice of types was checked. -/
theorem checkCaseTypes_case {check : SelaType → Checked Unit} {level : ℕ} {value : Attr}
    {cases : List (List String × Attr)} (hchoice : value.IsChoice cases)
    {case : List String × Attr} (hcase : case ∈ cases)
    (h : checkCaseTypes check level value = .ok ()) :
    ∃ level', checkCaseTypes check level' case.2 = .ok () := by
  obtain ⟨dictionary, raws, rfl, -, hraw, hforms⟩ := hchoice
  obtain ⟨raw, hmem, entries, rfl, -, -, hvalue⟩ := exists_of_forall₂_right hforms hcase
  cases level with
  | zero => simp [checkCaseTypes] at h
  | succ level =>
    simp only [checkCaseTypes, hraw, Option.bind_some, Attr.asArray?] at h
    have h := forM_ok.mp h _ hmem
    simp only [Attr.asDictionary?, Option.bind_some, hvalue, Option.getD_some] at h
    exact ⟨level, h⟩

/-- What was checked was checked inside. -/
theorem Content.Accepted.step {declared : List String} {visible : List String → Prop}
    {place place' : List String × Content} (h : Content.Accepted declared place)
    (hstep : Content.Step declared visible place place') : Content.Accepted declared place' := by
  cases hstep with
  | @element active kind elements element hmem =>
    obtain ⟨⟨depth, hcheck⟩, htypes⟩ := h
    refine ⟨?_, ?_⟩
    · cases depth with
      | zero => simp [checkAttribute] at hcheck
      | succ depth => exact ⟨depth, forM_ok.mp hcheck element hmem⟩
    · cases kind with
      | value =>
        intro type htype
        refine htypes type ?_
        rw [Attr.mentioned, attrsMentioned_eq]
        exact List.mem_flatMap.mpr ⟨element, hmem, htype⟩
      | alternatives =>
        obtain ⟨depth, level, htypes⟩ := htypes
        cases level <;> simp [checkCaseTypes] at htypes
      | count => trivial
  | @entry active kind entries entry hplain hmem =>
    obtain ⟨⟨depth, hcheck⟩, htypes⟩ := h
    refine ⟨?_, ?_⟩
    · cases depth with
      | zero => simp [checkAttribute] at hcheck
      | succ depth =>
        simp only [checkAttribute, hplain] at hcheck
        obtain ⟨_, -, hcheck⟩ := bind_ok.mp hcheck
        exact ⟨depth, forM_ok.mp hcheck entry hmem⟩
    · cases kind with
      | value =>
        intro type htype
        refine htypes type ?_
        rw [Attr.mentioned, entriesMentioned_eq]
        exact List.mem_flatMap.mpr ⟨entry, hmem, htype⟩
      | alternatives =>
        obtain ⟨depth, level, htypes⟩ := htypes
        cases level <;> simp [checkCaseTypes, hplain] at htypes
      | count => trivial
  | @case active kind value cases case hchoice hmem hvisible =>
    obtain ⟨⟨depth, hcheck⟩, htypes⟩ := h
    refine ⟨?_, ?_⟩
    · cases depth with
      | zero => simp [checkAttribute] at hcheck
      | succ depth =>
        obtain ⟨dictionary, raws, rfl, -⟩ := id hchoice
        obtain ⟨cases', hchoice', -, hcases⟩ := checkAttribute_choice hchoice.isSome hcheck
        obtain rfl := hchoice.unique hchoice'
        exact ⟨depth, hcases case hmem⟩
    · cases kind with
      | value => exact fun type htype => htypes type (mentioned_case hchoice hmem htype)
      | alternatives =>
        obtain ⟨depth, level, htypes⟩ := htypes
        exact ⟨depth, checkCaseTypes_case hchoice hmem htypes⟩
      | count => trivial
  | @mentioned active kind type hkind =>
    obtain ⟨-, htypes⟩ := h
    cases kind with
    | value => exact htypes type (by simp [Attr.mentioned])
    | alternatives =>
      obtain ⟨depth, level, htypes⟩ := htypes
      cases level with
      | zero => simp [checkCaseTypes] at htypes
      | succ level => exact ⟨depth, htypes⟩
    | count => exact absurd rfl hkind
  | alternatives =>
    obtain ⟨depth, h⟩ := h
    cases depth with
    | zero => simp [checkType] at h
    | succ depth =>
      obtain ⟨_, hcheck, h⟩ := bind_ok.mp h
      exact ⟨⟨65, hcheck⟩, depth, 65, h⟩
  | count =>
    obtain ⟨depth, h⟩ := h
    cases depth with
    | zero => simp [checkType] at h
    | succ depth =>
      obtain ⟨_, hcheck, -⟩ := bind_ok.mp h
      exact ⟨⟨65, hcheck⟩, trivial⟩
  | elements =>
    obtain ⟨depth, h⟩ := h
    cases depth with
    | zero => simp [checkType] at h
    | succ depth =>
      obtain ⟨_, -, h⟩ := bind_ok.mp h
      exact ⟨depth, h⟩
  | field hmem =>
    obtain ⟨depth, h⟩ := h
    cases depth with
    | zero => simp [checkType] at h
    | succ depth =>
      obtain ⟨-, h⟩ := checkType_record.mp h
      exact ⟨depth, forM_ok.mp h _ hmem⟩
  | alternative hmem hvisible =>
    obtain ⟨depth, h⟩ := h
    cases depth with
    | zero => simp [checkType] at h
    | succ depth =>
      obtain ⟨_, -, h⟩ := bind_ok.mp h
      obtain ⟨_, -, h⟩ := bind_ok.mp h
      obtain ⟨_, -, h⟩ := bind_ok.mp h
      exact ⟨depth, forM_ok.mp h _ (List.of_mem_zip hmem).1⟩
  | input hmem =>
    obtain ⟨depth, h⟩ := h
    cases depth with
    | zero => simp [checkType] at h
    | succ depth =>
      obtain ⟨_, -, h⟩ := bind_ok.mp h
      obtain ⟨_, h, -⟩ := bind_ok.mp h
      exact ⟨depth, forM_ok.mp h _ hmem⟩
  | result hmem =>
    obtain ⟨depth, h⟩ := h
    cases depth with
    | zero => simp [checkType] at h
    | succ depth =>
      obtain ⟨_, -, h⟩ := bind_ok.mp h
      obtain ⟨_, -, h⟩ := bind_ok.mp h
      exact ⟨depth, forM_ok.mp h _ hmem⟩

theorem Content.Accepted.reaches {declared : List String} {visible : List String → Prop}
    {place place' : List String × Content} (h : Content.Accepted declared place)
    (hreaches : Content.Reaches declared visible place place') : Content.Accepted declared place' := by
  induction hreaches with
  | refl => exact h
  | tail _ hstep ih => exact ih.step hstep

/-- A choice reached from a checked place admits its cases. -/
theorem Content.Accepted.admits {declared : List String} {visible : List String → Prop}
    {place : List String × Content} (h : Content.Accepted declared place) {active : List String}
    {kind : Content.Kind} {dictionary : Attributes}
    (hreaches : Content.Reaches declared visible place (active, .attribute kind (.dictionary dictionary)))
    (hchoice : (dictionary.get "target_cases").isSome) :
    ∃ cases, (Attr.dictionary dictionary).IsChoice cases ∧ Admits active cases := by
  obtain ⟨⟨depth, hcheck⟩, -⟩ := h.reaches hreaches
  cases depth with
  | zero => simp [checkAttribute] at hcheck
  | succ depth =>
    obtain ⟨cases, hcases, hadmits, -⟩ := checkAttribute_choice hchoice hcheck
    exact ⟨cases, hcases, hadmits⟩

/-! ## What a target resolves -/

theorem selectCase_cons {target : String} {raw : Attr} {raws : List Attr} {selected : Option Attr}
    {case : List String × Attr} (h : raw.IsCase case) :
    selectCase target (raw :: raws) selected =
      if target ∈ case.1 then
        if selected.isSome then throw "overlapping target choice"
        else selectCase target raws (some case.2)
      else selectCase target raws selected := by
  obtain ⟨entries, rfl, hlength, htargets, hvalue⟩ := h
  rw [selectCase]
  by_cases hmem : target ∈ case.1 <;>
    simp [Attr.asDictionary?, hvalue, hlength, htargets, hmem]

theorem selectCase_some {target : String} {value : Attr} :
    ∀ {raws : List Attr} {cases : List (List String × Attr)} {result : Attr},
      List.Forall₂ Attr.IsCase raws cases →
      selectCase target raws (some value) = .ok result → result = value ∧ casesFor target cases = 0
  | [], _, result, .nil, h => ⟨by simpa [selectCase] using h.symm, rfl⟩
  | _ :: raws, case :: cases, result, .cons hcase hrest, h => by
    rw [selectCase_cons hcase] at h
    split at h
    · simp at h
    · rename_i hnot
      obtain ⟨hresult, hcount⟩ := selectCase_some hrest h
      exact ⟨hresult, by simpa [casesFor, List.countP_cons, hnot] using hcount⟩

/-- A selected value is that of the one case that has the target. -/
theorem selectCase_none {target : String} :
    ∀ {raws : List Attr} {cases : List (List String × Attr)} {result : Attr},
      List.Forall₂ Attr.IsCase raws cases → selectCase target raws none = .ok result →
      casesFor target cases = 1 ∧ ∀ case ∈ cases, target ∈ case.1 → case.2 = result
  | [], _, result, .nil, h => by simp [selectCase] at h
  | _ :: raws, case :: cases, result, .cons hcase hrest, h => by
    rw [selectCase_cons hcase] at h
    split at h
    · rename_i hmem
      obtain ⟨rfl, hcount⟩ := selectCase_some hrest h
      refine ⟨by simpa [casesFor, List.countP_cons, hmem] using hcount, fun other hother hin => ?_⟩
      rcases List.mem_cons.mp hother with rfl | hother
      · rfl
      · exact absurd hin (by simpa using List.countP_eq_zero.mp hcount other hother)
    · rename_i hnot
      obtain ⟨hcount, hvalues⟩ := selectCase_none hrest h
      refine ⟨by simpa [casesFor, List.countP_cons, hnot] using hcount, fun other hother hin => ?_⟩
      rcases List.mem_cons.mp hother with rfl | hother
      · exact absurd hin hnot
      · exact hvalues other hother hin

theorem selectNested_succ {target : String} :
    ∀ {depth : ℕ} {input result : Attr}, selectNested target depth input = .ok result →
      selectNested target (depth + 1) input = .ok result
  | 0, _, _, h => by simp [selectNested] at h
  | depth + 1, input, result, h => by
    unfold selectNested at h ⊢
    split at h
    · exact h
    · split at h
      · exact h
      · split at h
        · simp at h
        · split at h
          · simp at h
          · rename_i hlength
            obtain ⟨selected, hselected, h⟩ := bind_ok.mp h
            rw [if_neg hlength]
            exact bind_ok.mpr ⟨selected, hselected, selectNested_succ h⟩

/-- A target sees of a choice what it sees of its own case. -/
theorem selectAttribute_case {value result : Attr} {cases : List (List String × Attr)}
    {target : String} (hchoice : value.IsChoice cases)
    (h : selectAttribute value target = .ok result) :
    casesFor target cases = 1 ∧
      ∀ case ∈ cases, target ∈ case.1 → selectAttribute case.2 target = .ok result := by
  obtain ⟨dictionary, raws, rfl, hlength, hraw, hforms⟩ := hchoice
  unfold selectAttribute selectNested at h
  simp only [Attr.asDictionary?, hraw, Attr.asArray?, hlength, ne_eq, not_true_eq_false, if_false] at h
  obtain ⟨selected, hselected, h⟩ := bind_ok.mp h
  obtain ⟨hcount, hvalues⟩ := selectCase_none hforms hselected
  refine ⟨hcount, fun case hcase hin => ?_⟩
  rw [hvalues case hcase hin]
  exact selectNested_succ h

/-- A place resolved for a target. -/
def Content.Resolved (target : TargetInfo) : Content → Prop
  | .attribute .value value =>
    ∃ numeric result, specializeAttribute target numeric value = .ok result
  | .attribute .alternatives value => ∃ type result,
    selectAttribute value target.id = .ok (.type type) ∧ specializeType target type = .ok result
  | .attribute .count value => ∃ count, evaluateInteger value target = .ok count
  | .type input => ∃ result, specializeType target input = .ok result

/-- What is seen of a place resolved for a target. -/
theorem Content.Resolved.selected {target : TargetInfo} {kind : Kind} {value : Attr}
    (h : Resolved target (.attribute kind value)) :
    ∃ result, selectAttribute value target.id = .ok result := by
  cases kind with
  | value =>
    obtain ⟨numeric, result, h⟩ := h
    rw [specializeAttribute_eq] at h
    obtain ⟨selected, hselected, -⟩ := bind_ok.mp h
    exact ⟨selected, hselected⟩
  | alternatives =>
    obtain ⟨type, result, hselected, -⟩ := h
    exact ⟨_, hselected⟩
  | count =>
    obtain ⟨count, h⟩ := h
    obtain ⟨selected, hselected, -⟩ := bind_ok.mp h
    exact ⟨selected, hselected⟩

/-- A value seen as another is resolved as it is. -/
theorem Content.Resolved.of_selected {target : TargetInfo} {kind : Kind} {value other result : Attr}
    (h : Resolved target (.attribute kind value))
    (hvalue : selectAttribute value target.id = .ok result)
    (hother : selectAttribute other target.id = .ok result) :
    Resolved target (.attribute kind other) := by
  cases kind with
  | value =>
    obtain ⟨numeric, resolved, h⟩ := h
    refine ⟨numeric, resolved, ?_⟩
    rw [specializeAttribute_eq, hvalue] at h
    rw [specializeAttribute_eq, hother]
    exact h
  | alternatives =>
    obtain ⟨type, resolved, hselected, h⟩ := h
    obtain rfl := Except.ok.inj (hvalue.symm.trans hselected)
    exact ⟨type, resolved, hother, h⟩
  | count =>
    obtain ⟨count, h⟩ := h
    refine ⟨count, ?_⟩
    rw [evaluateInteger, hvalue] at h
    rw [evaluateInteger, hother]
    exact h

/-- What is seen of a place is resolved inside. -/
theorem Content.Resolved.step {declared : List String} {target : TargetInfo}
    {place place' : List String × Content} (h : Content.Resolved target place.2)
    (hstep : Content.Step declared (target.id ∈ ·) place place') : Content.Resolved target place'.2 := by
  cases hstep with
  | @element active kind elements element hmem =>
    have hplain : selectAttribute (.array elements) target.id = .ok (.array elements) :=
      selectAttribute_of_plain (by simp)
    cases kind with
    | value =>
      obtain ⟨numeric, result, h⟩ := h
      obtain ⟨values, -, hvalues⟩ := specializeAttribute_array h
      obtain ⟨value, -, hvalue⟩ := exists_of_forall₂_left (mapM_ok.mp hvalues) hmem
      exact ⟨numeric, value, hvalue⟩
    | alternatives =>
      obtain ⟨type, result, hselected, -⟩ := h
      simp [hplain] at hselected
    | count =>
      obtain ⟨count, h⟩ := h
      simp [evaluateInteger, hplain] at h
  | @entry active kind entries entry hplain hmem =>
    have hplain : selectAttribute (.dictionary entries) target.id = .ok (.dictionary entries) :=
      selectAttribute_of_plain fun entries' heq => by
        obtain rfl := Attr.dictionary.inj heq
        exact hplain
    cases kind with
    | value =>
      obtain ⟨numeric, result, h⟩ := h
      rw [specializeAttribute_eq, hplain, ok_bind] at h
      obtain ⟨values, hvalues, -⟩ := bind_ok.mp h
      obtain ⟨value, -, hvalue⟩ := exists_of_forall₂_left (mapM_ok.mp hvalues) hmem
      obtain ⟨resolved, hresolved, -⟩ := bind_ok.mp hvalue
      exact ⟨_, resolved, hresolved⟩
    | alternatives =>
      obtain ⟨type, result, hselected, -⟩ := h
      simp [hplain] at hselected
    | count =>
      obtain ⟨count, h⟩ := h
      simp [evaluateInteger, hplain] at h
  | @case active kind value cases case hchoice hmem hvisible =>
    obtain ⟨result, hselected⟩ := h.selected
    exact h.of_selected hselected ((selectAttribute_case hchoice hselected).2 case hmem hvisible)
  | @mentioned active kind type hkind =>
    have hplain : selectAttribute (.type type) target.id = .ok (.type type) :=
      selectAttribute_of_plain (by simp)
    cases kind with
    | value =>
      obtain ⟨numeric, result, h⟩ := h
      rw [specializeAttribute_eq, hplain, ok_bind] at h
      obtain ⟨resolved, hresolved, -⟩ := bind_ok.mp h
      exact ⟨resolved, hresolved⟩
    | alternatives =>
      obtain ⟨type', result, hselected, h⟩ := h
      obtain rfl : type = type' := by simpa [hplain] using hselected
      exact ⟨result, h⟩
    | count => exact absurd rfl hkind
  | alternatives =>
    obtain ⟨result, h⟩ := h
    rw [specializeType_choice] at h
    obtain ⟨selected, hselected, h⟩ := bind_ok.mp h
    split at h
    · exact ⟨_, result, hselected, h⟩
    · simp at h
  | count =>
    obtain ⟨result, h⟩ := h
    rw [specializeType] at h
    obtain ⟨count, hcount, -⟩ := bind_ok.mp h
    exact ⟨count, hcount⟩
  | elements =>
    obtain ⟨result, h⟩ := h
    rw [specializeType] at h
    obtain ⟨_, -, h⟩ := bind_ok.mp h
    obtain ⟨element, helement, -⟩ := bind_ok.mp h
    exact ⟨element, helement⟩
  | field hmem =>
    obtain ⟨result, h⟩ := h
    rw [specializeType] at h
    obtain ⟨fields, hfields, -⟩ := bind_ok.mp h
    obtain ⟨field, -, hfield⟩ := exists_of_forall₂_left (mapM_ok.mp hfields) hmem
    exact ⟨field, hfield⟩
  | @alternative active identity alternatives domains alternative ids hmem hvisible =>
    obtain ⟨result, h⟩ := h
    rw [specializeType_overlap] at h
    split at h
    · simp at h
    · obtain ⟨kept, hkept, -⟩ := bind_ok.mp h
      have hin : (alternative, targetSet ids) ∈
          (alternatives.zip domains).filter (containsTarget ·.2 target.id) :=
        List.mem_filter.mpr ⟨hmem, containsTarget_targetSet.mpr hvisible⟩
      obtain ⟨resolved, -, hresolved⟩ := exists_of_forall₂_left (mapM_ok.mp hkept) hin
      exact ⟨resolved, hresolved⟩
  | input hmem =>
    obtain ⟨result, h⟩ := h
    rw [specializeType] at h
    obtain ⟨inputs, hinputs, -⟩ := bind_ok.mp h
    obtain ⟨input, -, hinput⟩ := exists_of_forall₂_left (mapM_ok.mp hinputs) hmem
    exact ⟨input, hinput⟩
  | result hmem =>
    obtain ⟨result, h⟩ := h
    rw [specializeType] at h
    obtain ⟨_, -, h⟩ := bind_ok.mp h
    obtain ⟨results, hresults, -⟩ := bind_ok.mp h
    obtain ⟨result, -, hresult⟩ := exists_of_forall₂_left (mapM_ok.mp hresults) hmem
    exact ⟨result, hresult⟩

theorem Content.Resolved.reaches {declared : List String} {target : TargetInfo}
    {place place' : List String × Content} (h : Content.Resolved target place.2)
    (hreaches : Content.Reaches declared (target.id ∈ ·) place place') :
    Content.Resolved target place'.2 := by
  induction hreaches with
  | refl => exact h
  | tail _ hstep ih => exact ih.step hstep

end Sela
