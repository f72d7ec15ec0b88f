import Sela.Concrete
import Sela.ConditionalSpecialization

/-!
# Specialization of a module

`specializeDomains` cuts a module to the definitions, blocks and edges of a target and
then resolves every attribute and every type that is left. The module it leaves is
`ConcreteModule` : nothing in it is symbolic or belongs to another target. Such a module
passes verification for its one target and is its own specialization, so specializing
again gives the same module (`specializeDomains_complete`).

Block domains mean something on functions only, case domains on the switches of functions
only, the targets of a definition on definitions only and the declared targets on the module
only. On another operation they are carried along, as the schema's closed inventory of
attributes rejects them afterwards; `DomainInventories` says that a module has none there.
-/

namespace Sela

open Checked Stateful

/-! ## The specializer -/

/-- The attributes whose texts stand for numbers. -/
def numericName (name : String) : Bool :=
  name == "alignment" || name == "value" || name == "initializer" || name == "flags"

/-- Whether a target has a module flag. -/
def hasFlag (target : TargetInfo) : Attr → Bool
  | .dictionary record => (Attributes.get record "targets").any (containsTarget · target.id)
  | _ => false

/-- A module flag labelled with the one target. -/
def labelFlag (target : TargetInfo) : Attr → Attr
  | .dictionary record => .dictionary (Attributes.set "targets" (targetSet [target.id]) record)
  | value => value

/-- The module flags a target has. -/
def keepFlags (target : TargetInfo) (raw : Attr) : Checked Attr :=
  match raw.asArray? with
  | none => throw "invalid public module flag inventory"
  | some flags => do
    flags.forM fun value => ensure value.asDictionary?.isSome "invalid public module flag"
    pure (.array ((flags.filter (hasFlag target)).map (labelFlag target)))

/-- One attribute of an operation, as a target sees it. -/
def specializeEntry (target : TargetInfo) (entry : String × Attr) : Checked (String × Attr) :=
  if entry.1 = "sela.module_flags" then do
    let raw ← keepFlags target entry.2
    let value ← specializeAttribute target (numericName entry.1) raw
    pure (entry.1, value)
  else do
    let value ← specializeAttribute target (numericName entry.1) entry.2
    pure (entry.1, value)

/-- The attributes of an operation, as a target sees them. -/
def specializeAttributes (target : TargetInfo) (attributes : Attributes) : Checked Attributes :=
  attributes.mapM (specializeEntry target)

/-- A value, its type as a target sees it. -/
def specializeValue (target : TargetInfo) (value : Value) : Checked Value := do
  let type ← specializeType target value.type
  pure { value with type }

/-- An operation, as a target sees it. An operand is a use of a value and changes with it.
(Where several types of an operation fail the source reports the last, this the first.) -/
def specializeOperation (target : TargetInfo) (operation : Operation) : Checked Operation := do
  let attributes ← specializeAttributes target operation.attributes
  let results ← operation.results.mapM (specializeValue target)
  let operands ← operation.operands.mapM (specializeValue target)
  pure { operation with attributes, results, operands }

/-- A block, as a target sees it. -/
def specializeBlock (target : TargetInfo) (block : Block) : Checked Block := do
  let operations ← block.operations.mapM (specializeOperation target)
  let arguments ← block.arguments.mapM (specializeValue target)
  pure { block with operations, arguments }

/-- The specialized blocks keep their names. -/
theorem map_id_specializeBlock {target : TargetInfo} {blocks blocks' : List Block}
    (h : blocks.mapM (specializeBlock target) = .ok blocks') :
    blocks'.map Block.id = blocks.map Block.id := by
  refine map_eq_of_forall₂ ((mapM_ok.mp h).imp fun block block' hblock => ?_)
  obtain ⟨operations, -, hblock⟩ := bind_ok.mp hblock
  obtain ⟨arguments, -, hblock⟩ := bind_ok.mp hblock
  obtain rfl := Except.ok.inj hblock
  rfl

/-- A region, as a target sees it. -/
def specializeRegion (target : TargetInfo) (region : Region) : Checked Region :=
  match h : region.blocks.mapM (specializeBlock target) with
  | .error message => throw message
  | .ok blocks => pure ⟨blocks, map_id_specializeBlock h ▸ region.nodup⟩

/-- A definition that a target has, as the target sees it. -/
def resolveDefinition (target : TargetInfo) (definition : Definition) : Checked Definition := do
  let regions ← definition.regions.mapM (specializeRegion target)
  let attributes ← specializeAttributes target (definition.attributes.erase "targets")
  pure { definition with attributes, regions }

/-- A module cut to a target, as the target sees it. -/
def resolveModule (target : TargetInfo) (module : Module) : Checked Module := do
  let body ← module.body.mapM (resolveDefinition target)
  let attributes ← specializeAttributes target module.attributes
  pure { attributes := attributes.set "sela.targets" (targetSet [target.id]), body }

/-- A copy of the module of `source` as a target sees it. `verify` is the framework's
structural verifier. -/
def specializeDomains (verify : Module → Bool) (source : ℕ) (target : TargetInfo) :
    Stateful Context ℕ := do
  let module ← readModule source
  let domain ← check (declaredTargets module)
  check (ensure (target.id ∈ domain)
    ("target lies outside artifact qualification: " ++ target.id))
  let selected ← specializeConditionalCFG verify source target.id
  let copy ← readModule selected
  let concrete ← check (resolveModule target copy)
  editModule selected fun _ => concrete
  check (ensure (verify concrete) "target-specialized public IR is structurally invalid")
  pure selected

/-! ## Module flags -/

/-- Module flags of one target. -/
def FlagsOf (target : TargetInfo) (raw : Attr) : Prop :=
  ∃ flags, raw = .array flags ∧ ∀ flag ∈ flags, ∃ record, flag = .dictionary record ∧
    Attributes.get record "targets" = some (targetSet [target.id])

theorem keepFlags_ok {target : TargetInfo} {raw kept : Attr} (h : keepFlags target raw = .ok kept) :
    ∃ flags, raw = .array flags ∧ kept = .array ((flags.filter (hasFlag target)).map (labelFlag target)) := by
  unfold keepFlags at h
  split at h
  · simp at h
  · rename_i flags hflags
    obtain ⟨_, -, h⟩ := bind_ok.mp h
    exact ⟨flags, by simpa using hflags, (Except.ok.inj h).symm⟩

theorem hasFlag_iff {target : TargetInfo} {flag : Attr} :
    hasFlag target flag = true ↔ ∃ record values, flag = .dictionary record ∧
      Attributes.get record "targets" = some (.array values) ∧ .string target.id ∈ values := by
  unfold hasFlag
  split
  · rename_i record
    cases hget : Attributes.get record "targets" with
    | none => simp [hget]
    | some domain => cases domain <;> simp [hget, containsTarget]
  · rename_i hdictionary
    simp only [Bool.false_eq_true, false_iff]
    rintro ⟨record, -, rfl, -⟩
    exact hdictionary record rfl

/-- A name of a dictionary with one entry is its only name. -/
theorem get_none_of_singleton {entries : Attributes} {name other : String} {value : Attr}
    (hlength : entries.length = 1) (hne : name ≠ other) (hget : entries.get name = some value) :
    entries.get other = none := by
  obtain ⟨⟨n, a⟩, rfl⟩ := List.length_eq_one_iff.mp hlength
  rw [Attributes.get_cons] at hget ⊢
  split at hget
  · rename_i hn
    rw [if_neg (hn ▸ hne)]
    rfl
  · simp at hget

/-- Three names need three entries. -/
theorem get_none_of_pair {entries : Attributes} {first second other : String} {a b : Attr}
    (hlength : entries.length = 2) (hfirst : entries.get first = some a)
    (hsecond : entries.get second = some b) (hne : first ≠ second) (hneFirst : first ≠ other)
    (hneSecond : second ≠ other) : entries.get other = none := by
  obtain ⟨⟨n, a'⟩, ⟨m, b'⟩, rfl⟩ := List.length_eq_two.mp hlength
  simp only [Attributes.get_cons, Attributes.get_nil] at hfirst hsecond ⊢
  split_ifs at hfirst hsecond ⊢ <;> simp_all

/-- A flag labelled with one of its targets passes the checks it passed. -/
theorem checkAttribute_labelFlag {target : TargetInfo} {depth : ℕ} {declared : List String}
    {flag : Attr} (hhas : hasFlag target flag = true)
    (h : checkAttribute depth declared flag = .ok ()) :
    checkAttribute depth declared (labelFlag target flag) = .ok () := by
  obtain ⟨record, values, rfl, hget, hmem⟩ := hasFlag_iff.mp hhas
  cases depth with
  | zero => simp [checkAttribute] at h
  | succ depth =>
    have hnames : ∀ name, "targets" ≠ name → Attributes.get
        (Attributes.set "targets" (targetSet [target.id]) record) name = Attributes.get record name :=
      fun name hne => Attributes.get_set_of_ne _ hne record
    simp only [labelFlag, checkAttribute, hnames "target_cases" (by decide)] at h ⊢
    split at h
    · rename_i raw hraw
      split at h
      · simp at h
      · obtain ⟨_, hinventory, -⟩ := bind_ok.mp h
        rw [get_none_of_singleton (ensure_ok.mp hinventory).1 (by decide) hraw] at hget
        simp at hget
    · obtain ⟨_, harray, hentries⟩ := bind_ok.mp h
      refine bind_ok.mpr ⟨(), ?_, forM_ok.mpr fun entry hentry => ?_⟩
      · obtain ⟨ha, hc⟩ | ⟨elements, count, ha, hc, hlength, -⟩ := checkConditionalArray_ok harray
        · rw [checkConditionalArray, if_neg (by simp [hnames, ha, hc])]
          rfl
        · rw [get_none_of_pair hlength ha hc (by decide) (by decide) (by decide)] at hget
          simp at hget
      · rcases Attributes.mem_set hentry with rfl | hentry
        · exact @checkAttribute_array_of_subset _ _ values _ (by simpa [targetSet] using hmem)
            (forM_ok.mp hentries _ (Attributes.mem_of_get hget))
        · exact forM_ok.mp hentries entry hentry

/-- The flags kept are well formed, pass the checks the inventory passed and mention types
it mentioned. -/
theorem labelFlag_wellFormed {target : TargetInfo} {flag : Attr} (hform : flag.WellFormed) :
    (labelFlag target flag).WellFormed := by
  unfold labelFlag
  split
  · obtain ⟨hsorted, hentries⟩ := hform
    refine ⟨hsorted.set, entriesWellFormed_iff.mpr fun entry hentry => ?_⟩
    rcases Attributes.mem_set hentry with rfl | hentry
    · exact attrsWellFormed_iff.mpr fun element helement => by
        obtain ⟨id, -, rfl⟩ := List.mem_map.mp helement
        trivial
    · exact entriesWellFormed_iff.mp hentries entry hentry
  · exact hform

theorem mentioned_targetSet (ids : List String) : (targetSet ids).mentioned = [] := by
  rw [targetSet, Attr.mentioned, attrsMentioned_eq, List.flatMap_map]
  exact List.flatMap_eq_nil_iff.mpr fun _ _ => rfl

theorem mentioned_labelFlag {target : TargetInfo} {flag : Attr} {type : SelaType}
    (h : type ∈ (labelFlag target flag).mentioned) : type ∈ flag.mentioned := by
  unfold labelFlag at h
  split at h
  · rw [Attr.mentioned, entriesMentioned_eq] at h ⊢
    obtain ⟨entry, hentry, htype⟩ := List.mem_flatMap.mp h
    rcases Attributes.mem_set hentry with rfl | hentry
    · simp [mentioned_targetSet] at htype
    · exact List.mem_flatMap.mpr ⟨entry, hentry, htype⟩
  · exact h

theorem targetSet_concrete {target : TargetInfo} (htarget : target ∈ targets.all) (numeric : Bool) :
    (targetSet [target.id]).Concrete target numeric := by
  have hid : target.id ≠ "pointer_bytes" := by
    revert target
    decide
  simp [targetSet, Attr.Concrete, attrsConcrete, hid]

/-- Specializing a labelled flag keeps its label and its fields. -/
theorem specializeAttribute_labelFlag {target : TargetInfo} (htarget : target ∈ targets.all)
    {numeric : Bool} {record : Attributes} {result : Attr}
    (hform : (Attr.dictionary record).WellFormed) (hhas : hasFlag target (.dictionary record) = true)
    (h : specializeAttribute target numeric (labelFlag target (.dictionary record)) = .ok result) :
    ∃ fields : Attributes, result = .dictionary fields ∧
      fields.get "targets" = some (targetSet [target.id]) ∧
      fields.map Prod.fst = record.map Prod.fst := by
  obtain ⟨record', values, heq, hget, -⟩ := hasFlag_iff.mp hhas
  obtain rfl : record = record' := by simpa using heq
  have hlabel : Attributes.get (Attributes.set "targets" (targetSet [target.id]) record) "targets" =
      some (targetSet [target.id]) := Attributes.get_set_self _ _ _
  have hsorted : Attributes.Sorted (Attributes.set "targets" (targetSet [target.id]) record) :=
    Attributes.Sorted.set hform.1
  rw [← @Attributes.map_fst_set "targets" (targetSet [target.id]) record hform.1
    (List.mem_map_of_mem (Attributes.mem_of_get hget))]
  simp only [labelFlag] at h
  generalize Attributes.set "targets" (targetSet [target.id]) record = labelled at h hlabel hsorted ⊢
  rw [specializeAttribute_eq] at h
  obtain ⟨selected, hselected, h⟩ := bind_ok.mp h
  have hplain : selected = .dictionary labelled := by
    unfold selectAttribute selectNested at hselected
    simp only [Attr.asDictionary?] at hselected
    split at hselected
    · exact (Except.ok.inj hselected).symm
    · rename_i raw hraw
      split at hselected
      · simp at hselected
      · split at hselected
        · simp at hselected
        · rename_i hlength
          rw [get_none_of_singleton (not_not.mp hlength) (by decide) hraw] at hlabel
          simp at hlabel
  subst hplain
  obtain ⟨values, hvalues, h⟩ := bind_ok.mp h
  have hvalues := map_fst_specialized hvalues
  have hnames : values.map Prod.fst = labelled.map Prod.fst :=
    map_eq_of_forall₂ (hvalues.imp fun _ _ h => h.1)
  obtain ⟨value, hvalue, hspecialized⟩ := get_specialized hvalues hlabel
  rw [specializeAttribute_of_concrete (targetSet_concrete htarget _)] at hspecialized
  obtain rfl := Except.ok.inj hspecialized
  obtain ⟨elements, count, extent, harray, -, -, -, rfl⟩ | ⟨rfl, -⟩ := clipArray_ok h
  · refine ⟨_, rfl, by rwa [Attributes.get_set_of_ne _ (by decide)], ?_⟩
    have hsorted' : Attributes.Sorted values := by
      unfold Attributes.Sorted
      rw [hnames]
      exact hsorted
    rw [Attributes.map_fst_set hsorted' (List.mem_map_of_mem (Attributes.mem_of_get harray)), hnames]
  · exact ⟨_, rfl, hvalue, hnames⟩

/-- Each flag that is kept and specialized comes from one that the target has. -/
theorem mem_keepFlags_specialized {target : TargetInfo} (htarget : target ∈ targets.all)
    {numeric : Bool} {raw kept result : Attr} (hform : raw.WellFormed)
    (hkept : keepFlags target raw = .ok kept)
    (h : specializeAttribute target numeric kept = .ok result) :
    ∃ flags values, raw = .array flags ∧ result = .array values ∧ ∀ value ∈ values,
      ∃ record fields : Attributes, Attr.dictionary record ∈ flags ∧
        hasFlag target (.dictionary record) = true ∧
        specializeAttribute target numeric (labelFlag target (.dictionary record)) = .ok value ∧
        value = .dictionary fields ∧ fields.get "targets" = some (targetSet [target.id]) ∧
        fields.map Prod.fst = record.map Prod.fst := by
  obtain ⟨flags, rfl, rfl⟩ := keepFlags_ok hkept
  obtain ⟨values, rfl, hvalues⟩ := specializeAttribute_array h
  refine ⟨flags, values, rfl, rfl, fun value hvalue => ?_⟩
  obtain ⟨flag, hflag, hspecialized⟩ := exists_of_forall₂_right (mapM_ok.mp hvalues) hvalue
  obtain ⟨source, hsource, rfl⟩ := List.mem_map.mp hflag
  obtain ⟨hmem, hhas⟩ := List.mem_filter.mp hsource
  obtain ⟨record, _, rfl, -⟩ := hasFlag_iff.mp hhas
  obtain ⟨fields, hfields, hlabel, hnames⟩ := specializeAttribute_labelFlag htarget
    (attrsWellFormed_iff.mp hform _ hmem) hhas hspecialized
  exact ⟨record, fields, hmem, hhas, hspecialized, hfields, hlabel, hnames⟩

/-- The flags a target has, once specialized, are flags of that target alone. -/
theorem keepFlags_specialized {target : TargetInfo} (htarget : target ∈ targets.all)
    {numeric : Bool} {raw kept result : Attr} (hform : raw.WellFormed)
    (hkept : keepFlags target raw = .ok kept)
    (h : specializeAttribute target numeric kept = .ok result) : FlagsOf target result := by
  obtain ⟨flags, values, -, rfl, hvalues⟩ := mem_keepFlags_specialized htarget hform hkept h
  refine ⟨values, rfl, fun value hvalue => ?_⟩
  obtain ⟨_, fields, -, -, -, hfields, hlabel, -⟩ := hvalues value hvalue
  exact ⟨fields, hfields, hlabel⟩

/-- Flags of one target alone are all kept for it, as they are. -/
theorem keepFlags_of_flagsOf {target : TargetInfo} {numeric : Bool} {raw : Attr}
    (hflags : FlagsOf target raw) (hconcrete : raw.Concrete target numeric) :
    keepFlags target raw = .ok raw := by
  obtain ⟨flags, rfl, hflags⟩ := hflags
  have hhas : ∀ flag ∈ flags, hasFlag target flag = true := fun flag hflag => by
    obtain ⟨record, rfl, hget⟩ := hflags flag hflag
    exact hasFlag_iff.mpr ⟨record, _, rfl, hget, by simp⟩
  have hlabel : ∀ flag ∈ flags, labelFlag target flag = flag := fun flag hflag => by
    obtain ⟨record, rfl, hget⟩ := hflags flag hflag
    rw [labelFlag, Attributes.set_of_get (attrsConcrete_iff.mp hconcrete _ hflag).1 hget]
  rw [keepFlags]
  refine bind_ok.mpr ⟨(), forM_ok.mpr fun flag hflag => ensure_ok.mpr ?_, ?_⟩
  · obtain ⟨record, rfl, -⟩ := hflags flag hflag
    rfl
  · rw [List.filter_eq_self.mpr hhas, List.map_congr_left hlabel, List.map_id']
    rfl

/-! ## The attributes of an operation -/

/-- The attributes of an operation that holds nothing but what one target sees. -/
structure ConcreteAttributes (target : TargetInfo) (attributes : Attributes) : Prop where
  concrete : ∀ entry ∈ attributes, entry.2.Concrete target (numericName entry.1)
  flags : ∀ entry ∈ attributes, entry.1 = "sela.module_flags" → FlagsOf target entry.2

/-- The attribute that is specialized in the place of one : a module flag inventory is
filtered first. -/
def SpecializedFrom (target : TargetInfo) (entry : String × Attr) (raw : Attr) : Prop :=
  if entry.1 = "sela.module_flags" then keepFlags target entry.2 = .ok raw else raw = entry.2

theorem specializeEntry_ok {target : TargetInfo} {entry result : String × Attr}
    (h : specializeEntry target entry = .ok result) :
    result.1 = entry.1 ∧ ∃ raw, SpecializedFrom target entry raw ∧
      specializeAttribute target (numericName entry.1) raw = .ok result.2 := by
  unfold specializeEntry at h
  unfold SpecializedFrom
  split at h
  · rename_i hname
    obtain ⟨raw, hraw, h⟩ := bind_ok.mp h
    obtain ⟨value, hvalue, h⟩ := bind_ok.mp h
    obtain rfl := Except.ok.inj h
    exact ⟨rfl, raw, by rwa [if_pos hname], hvalue⟩
  · rename_i hname
    obtain ⟨value, hvalue, h⟩ := bind_ok.mp h
    obtain rfl := Except.ok.inj h
    exact ⟨rfl, entry.2, by rw [if_neg hname], hvalue⟩

theorem SpecializedFrom.wellFormed {target : TargetInfo} {entry : String × Attr} {raw : Attr}
    (h : SpecializedFrom target entry raw) (hform : entry.2.WellFormed) : raw.WellFormed := by
  unfold SpecializedFrom at h
  split at h
  · obtain ⟨flags, hflags, rfl⟩ := keepFlags_ok h
    rw [hflags] at hform
    refine attrsWellFormed_iff.mpr fun flag hflag => ?_
    obtain ⟨source, hsource, rfl⟩ := List.mem_map.mp hflag
    exact labelFlag_wellFormed
      (attrsWellFormed_iff.mp hform source (List.mem_of_mem_filter hsource))
  · rwa [h]

theorem SpecializedFrom.checkAttribute {target : TargetInfo} {entry : String × Attr} {raw : Attr}
    (h : SpecializedFrom target entry raw) {depth : ℕ} {declared : List String}
    (hcheck : checkAttribute depth declared entry.2 = .ok ()) :
    checkAttribute depth declared raw = .ok () := by
  unfold SpecializedFrom at h
  split at h
  · obtain ⟨flags, hflags, rfl⟩ := keepFlags_ok h
    rw [hflags] at hcheck
    cases depth with
    | zero => simp [Sela.checkAttribute] at hcheck
    | succ depth =>
      refine forM_ok.mpr fun flag hflag => ?_
      obtain ⟨source, hsource, rfl⟩ := List.mem_map.mp hflag
      obtain ⟨hmem, hhas⟩ := List.mem_filter.mp hsource
      exact checkAttribute_labelFlag hhas (forM_ok.mp hcheck source hmem)
  · rwa [h]

theorem SpecializedFrom.mentioned {target : TargetInfo} {entry : String × Attr} {raw : Attr}
    (h : SpecializedFrom target entry raw) {type : SelaType} (htype : type ∈ raw.mentioned) :
    type ∈ entry.2.mentioned := by
  unfold SpecializedFrom at h
  split at h
  · obtain ⟨flags, hflags, rfl⟩ := keepFlags_ok h
    rw [hflags]
    rw [Attr.mentioned, attrsMentioned_eq] at htype ⊢
    obtain ⟨flag, hflag, htype⟩ := List.mem_flatMap.mp htype
    obtain ⟨source, hsource, rfl⟩ := List.mem_map.mp hflag
    exact List.mem_flatMap.mpr ⟨source, List.mem_of_mem_filter hsource, mentioned_labelFlag htype⟩
  · rwa [h] at htype

/-- Specialized attributes, name by name. -/
theorem specializeAttributes_ok {target : TargetInfo} {attributes results : Attributes}
    (h : specializeAttributes target attributes = .ok results) :
    List.Forall₂ (fun entry result : String × Attr => result.1 = entry.1 ∧
      ∃ raw, SpecializedFrom target entry raw ∧
        specializeAttribute target (numericName entry.1) raw = .ok result.2) attributes results :=
  (mapM_ok.mp h).imp fun _ _ => specializeEntry_ok

theorem map_fst_specializeAttributes {target : TargetInfo} {attributes results : Attributes}
    (h : specializeAttributes target attributes = .ok results) :
    results.map Prod.fst = attributes.map Prod.fst :=
  map_eq_of_forall₂ ((specializeAttributes_ok h).imp fun _ _ h => h.1)

theorem get_specializeAttributes_none {target : TargetInfo} {attributes results : Attributes}
    (h : specializeAttributes target attributes = .ok results) (name : String) :
    results.get name = none ↔ attributes.get name = none := by
  rw [Attributes.get_eq_none_iff, map_fst_specializeAttributes h, ← Attributes.get_eq_none_iff]

theorem sorted_specializeAttributes {target : TargetInfo} {attributes results : Attributes}
    (h : specializeAttributes target attributes = .ok results) (hsorted : attributes.Sorted) :
    results.Sorted := by
  unfold Attributes.Sorted
  rw [map_fst_specializeAttributes h]
  exact hsorted

/-- Specialized attributes are concrete. -/
theorem specializeAttributes_concrete {target : TargetInfo} (htarget : target ∈ targets.all)
    {attributes results : Attributes} (hform : (Attr.dictionary attributes).WellFormed)
    (h : specializeAttributes target attributes = .ok results) :
    ConcreteAttributes target results where
  concrete result hresult := by
    obtain ⟨entry, hentry, hname, raw, hraw, hspecialized⟩ :=
      exists_of_forall₂_right (specializeAttributes_ok h) hresult
    rw [hname]
    exact specializeAttribute_concrete
      (hraw.wellFormed (entriesWellFormed_iff.mp hform.2 entry hentry)) hspecialized
  flags result hresult hflags := by
    obtain ⟨entry, hentry, hname, raw, hraw, hspecialized⟩ :=
      exists_of_forall₂_right (specializeAttributes_ok h) hresult
    rw [SpecializedFrom, if_pos (hname.symm.trans hflags)] at hraw
    exact keepFlags_specialized htarget (entriesWellFormed_iff.mp hform.2 entry hentry) hraw hspecialized

/-- Concrete attributes are their own specialization. -/
theorem specializeAttributes_of_concrete {target : TargetInfo} {attributes : Attributes}
    (h : ConcreteAttributes target attributes) :
    specializeAttributes target attributes = .ok attributes := by
  refine mapM_ok.mpr (List.forall₂_same.mpr fun entry hentry => ?_)
  have hconcrete := h.concrete entry hentry
  unfold specializeEntry
  split
  · rename_i hname
    rw [keepFlags_of_flagsOf (h.flags entry hentry hname) hconcrete, ok_bind,
      specializeAttribute_of_concrete hconcrete]
    rfl
  · rw [specializeAttribute_of_concrete hconcrete]
    rfl

/-- What verification established of the attributes and types of an operation that the
target `id` has : they passed for a set of targets with `id`. -/
structure Passed (declared : List String) (id : String) (attributes : Attributes)
    (types : List SelaType) : Prop where
  checked : ∃ active, id ∈ active ∧
    ∀ entry ∈ attributes, checkAttribute 65 active entry.2 = .ok ()
  admitted : ∀ type ∈ types, checkType declared 65 type = .ok ()
  mentioned : ∀ entry ∈ attributes, ∀ type ∈ entry.2.mentioned, checkType declared 65 type = .ok ()

theorem passed_of_checkOperation {declared active : List String} {id : String}
    {attributes : Attributes} {types : List SelaType} (hid : id ∈ active)
    (h : checkOperation declared active attributes types = .ok ()) :
    Passed declared id attributes types := by
  unfold checkOperation at h
  obtain ⟨_, hattributes, h⟩ := bind_ok.mp h
  obtain ⟨_, -, h⟩ := bind_ok.mp h
  obtain ⟨_, htypes, h⟩ := bind_ok.mp h
  refine ⟨⟨active, hid, forM_ok.mp hattributes⟩, forM_ok.mp htypes, fun entry hentry type htype => ?_⟩
  refine forM_ok.mp h type ?_
  rw [entriesMentioned_eq]
  exact List.mem_flatMap.mpr ⟨entry, hentry, htype⟩

/-- What passed for several targets passes, once specialized, for its target. -/
theorem Passed.checkOperation {target : TargetInfo} (htarget : target ∈ targets.all)
    {declared : List String} {attributes results : Attributes} {types types' : List SelaType}
    (h : Passed declared target.id attributes types)
    (hform : (Attr.dictionary attributes).WellFormed) (htypes : ∀ type ∈ types, type.WellFormed)
    (hresults : specializeAttributes target attributes = .ok results)
    (htypes' : List.Forall₂ (fun type type' => specializeType target type = .ok type') types types')
    (hblock : attributes.get "block_domains" = none) (hcase : attributes.get "case_domains" = none) :
    checkOperation [target.id] [target.id] results types' = .ok () := by
  obtain ⟨active, hactive, hattributes⟩ := h.checked
  have hspecialized := specializeAttributes_ok hresults
  have hblock' := (get_specializeAttributes_none hresults "block_domains").mpr hblock
  have hcase' := (get_specializeAttributes_none hresults "case_domains").mpr hcase
  unfold Sela.checkOperation
  refine bind_ok.mpr ⟨(), forM_ok.mpr fun result hresult => ?_, bind_ok.mpr ⟨(), ?_,
    bind_ok.mpr ⟨(), forM_ok.mpr fun type' htype' => ?_, forM_ok.mpr fun type' htype' => ?_⟩⟩⟩
  · obtain ⟨entry, hentry, -, raw, hraw, hvalue⟩ := exists_of_forall₂_right hspecialized hresult
    exact checkAttribute_specialized htarget
      (hraw.wellFormed (entriesWellFormed_iff.mp hform.2 entry hentry)) hactive
      (hraw.checkAttribute (hattributes entry hentry)) hvalue
  · simp [hblock', hcase']
  · obtain ⟨type, htype, htype'⟩ := exists_of_forall₂_right htypes' htype'
    exact checkType_specialized htarget (htypes type htype) (h.admitted type htype) htype'
  · rw [entriesMentioned_eq] at htype'
    obtain ⟨result, hresult, htype'⟩ := List.mem_flatMap.mp htype'
    obtain ⟨entry, hentry, -, raw, hraw, hvalue⟩ := exists_of_forall₂_right hspecialized hresult
    obtain ⟨type, htype, hspecial⟩ := mentioned_specialized hvalue htype'
    have hwell := entriesWellFormed_iff.mp hform.2 entry hentry
    exact checkType_specialized htarget (wellFormed_of_mentioned hwell (hraw.mentioned htype))
      (h.mentioned entry hentry type (hraw.mentioned htype)) hspecial

/-! ## Switches of one target -/

/-- A switch that its target takes whole : a label for each edge but the first, and no case
domains. -/
def PlainSwitch (operation : Operation) : Prop :=
  ∃ (cases : List Attr) (arguments : List (List Value)) (selector : Value),
    operation.attributes.get "cases" = some (.array cases) ∧
    operation.attributes.get "argument_counts" =
      some (.denseI32 (arguments.map fun segment => (segment.length : ℤ))) ∧
    operation.operands = selector :: arguments.flatten ∧ operation.results = [] ∧
    operation.successors.length = arguments.length ∧ cases.length + 1 = arguments.length ∧
    operation.attributes.get "case_domains" = none

theorem length_filterMap_label : ∀ {edges : List Edge}, (∀ edge ∈ edges, edge.label ≠ none) →
    (edges.filterMap Edge.label).length = edges.length
  | [], _ => rfl
  | edge :: edges, h => by
    obtain ⟨hhead, hrest⟩ := List.forall_mem_cons.mp h
    obtain ⟨label, hlabel⟩ := Option.ne_none_iff_exists'.mp hhead
    rw [List.filterMap_cons_some hlabel, List.length_cons, length_filterMap_label hrest,
      List.length_cons]

/-- The edges a target keeps of a switch : the default edge, then labelled ones of the
switch, whose arguments were the switch's. -/
theorem cutEdges_default {targets : List String} {domains : BlockDomains} {block : ℕ}
    {selected : String} {counts : List ℤ} {cases : List Attr} {successors : List ℕ}
    {edgeDomains : List Attr} {all : Attr} {operands : List Value} {edges : List Edge}
    (hall : containsTarget all selected = true) (hcases : counts.length = cases.length + 1)
    (hsuccessors : successors.length = counts.length) (hdomains : edgeDomains.length = cases.length)
    (h : cutEdges targets domains block selected
      (counts.zip ((none :: cases.map some).zip (successors.zip (all :: edgeDomains)))) operands =
        .ok edges) :
    ∃ default kept, edges = default :: kept ∧ default.label = none ∧
      (∀ edge ∈ kept, ∃ label ∈ cases, edge.label = some label) ∧
      (∀ edge ∈ edges, ∀ argument ∈ edge.arguments, argument ∈ operands) := by
  obtain ⟨hedges, hflatten⟩ :=
    cutEdges_ok (by simp [hcases]) hsuccessors (by simp [hdomains, hcases]) h
  obtain ⟨count, counts, rfl⟩ := List.exists_cons_of_length_eq_add_one hcases
  obtain ⟨successor, successors, rfl⟩ :=
    List.exists_cons_of_length_eq_add_one (hsuccessors.trans hcases)
  have harguments : ∀ edge ∈ edges, ∀ argument ∈ edge.arguments, argument ∈ operands := by
    intro edge hedge argument hargument
    rw [hedges] at hedge
    obtain ⟨entry, hentry, rfl⟩ := List.mem_map.mp hedge
    have hzip := (List.of_mem_zip (List.mem_of_mem_filter hentry)).1
    obtain ⟨parts, hparts, hedge⟩ := List.mem_map.mp hzip
    rw [← hedge] at hargument
    have hsegment := (List.of_mem_zip (List.of_mem_zip hparts).2).2
    rw [← hflatten]
    exact List.mem_flatten.mpr ⟨_, hsegment, hargument⟩
  rw [segments, zipEdges_cons, List.zip_cons_cons, List.filter_cons, if_pos (by exact hall),
    List.map_cons] at hedges
  refine ⟨_, _, hedges, rfl, fun edge hedge => ?_, harguments⟩
  obtain ⟨entry, hentry, rfl⟩ := List.mem_map.mp hedge
  have hlabel := label_mem_of_zipEdges (List.of_mem_zip (List.mem_of_mem_filter hentry)).1
  obtain ⟨label, hmem, hlabel⟩ := List.mem_map.mp hlabel
  exact ⟨label, hmem, hlabel.symm⟩

/-- A switch cut to a target. -/
structure CutSwitch (source result : Operation) : Prop where
  name : result.name = source.name
  results : result.results = source.results
  operands : ∀ operand ∈ result.operands, operand ∈ source.operands
  plain : PlainSwitch result
  attributes : ∃ cases kept counts, source.attributes.get "cases" = some (.array cases) ∧
    (∀ label ∈ kept, label ∈ cases) ∧
    result.attributes = ((source.attributes.erase "case_domains").set "cases" (.array kept)).set
      "argument_counts" (.denseI32 counts)

theorem rewriteSwitch_cut {targets : List String} {domains : BlockDomains} {block : ℕ}
    {selected : String} (hselected : selected ∈ targets) {source result : Operation}
    (hname : source.name = "sela.switch")
    (h : rewriteSwitch targets domains block selected source = .ok result) :
    CutSwitch source result := by
  unfold rewriteSwitch at h
  rw [if_neg (by simpa using hname)] at h
  split at h
  · rename_i cases counts selector operands hcases hcounts hoperands
    obtain ⟨domainsOfCases, -, h⟩ := bind_ok.mp h
    obtain ⟨_, hinventory, h⟩ := bind_ok.mp h
    obtain ⟨hdlen, hclen, hslen, hresults⟩ := ensure_ok.mp hinventory
    obtain ⟨edges, hcut, h⟩ := bind_ok.mp h
    obtain rfl := Except.ok.inj h
    obtain ⟨default, kept, rfl, hdefault, hkept, harguments⟩ :=
      cutEdges_default (containsTarget_targetSet.mpr hselected) hclen hslen hdlen hcut
    obtain ⟨raw, hraw, helements⟩ := Option.bind_eq_some_iff.mp hcases
    obtain rfl : raw = .array cases := by simpa using helements
    have hlabelled : ∀ edge ∈ kept, edge.label ≠ none := fun edge hedge => by
      obtain ⟨label, -, hlabel⟩ := hkept edge hedge
      simp [hlabel]
    refine ⟨rfl, hresults.symm, fun operand hoperand => ?_, ?_, cases, _, _, hraw,
      fun label hlabel => ?_, rfl⟩
    · rw [hoperands]
      rcases List.mem_cons.mp hoperand with rfl | hoperand
      · exact List.mem_cons_self
      · obtain ⟨edge, hedge, hargument⟩ := List.mem_flatMap.mp hoperand
        exact List.mem_cons_of_mem _ (harguments edge hedge operand hargument)
    · refine ⟨_, (default :: kept).map Edge.arguments, selector,
        by rw [Attributes.get_set_of_ne _ (by decide), Attributes.get_set_self],
        by rw [Attributes.get_set_self, List.map_map]; rfl, by rw [List.flatMap_def], rfl,
        by simp, ?_, ?_⟩
      · rw [List.filterMap_cons_none hdefault, length_filterMap_label hlabelled]
        simp
      · rw [Attributes.get_set_of_ne _ (by decide), Attributes.get_set_of_ne _ (by decide),
          Attributes.get_erase_self]
    · rw [List.filterMap_cons_none hdefault] at hlabel
      obtain ⟨edge, hedge, hlabel⟩ := List.mem_filterMap.mp hlabel
      obtain ⟨label', hmem, hlabel'⟩ := hkept edge hedge
      obtain rfl : label' = label := Option.some.inj (hlabel'.symm.trans hlabel)
      exact hmem
  · simp at h

/-- Every edge of a switch whose successors are all there is kept, with its arguments. -/
theorem cutEdges_all {target : String} {domains : BlockDomains} {block : ℕ}
    {labels : List (Option Attr)} {successors : List ℕ} {arguments : List (List Value)}
    (hl : labels.length = arguments.length) (hs : successors.length = arguments.length)
    (hhas : ∀ successor ∈ successors, domains.has target successor = true) :
    cutEdges [target] domains block target
      ((arguments.map fun segment => (segment.length : ℤ)).zip
        (labels.zip (successors.zip (arguments.map fun _ => targetSet [target]))))
      arguments.flatten = .ok (zipEdges labels successors arguments) := by
  induction arguments generalizing labels successors with
  | nil => simp [cutEdges, zipEdges]
  | cons segment arguments ih =>
    obtain ⟨label, labels, rfl⟩ := List.exists_cons_of_length_eq_add_one hl
    obtain ⟨successor, successors, rfl⟩ := List.exists_cons_of_length_eq_add_one hs
    obtain ⟨hhead, hrest⟩ := List.forall_mem_cons.mp hhas
    have ih := ih (by simpa using hl) (by simpa using hs) hrest
    have hlookup : (domains.lookup successor).isSome := by
      obtain ⟨domain, hdomain, -⟩ := (Option.any_eq_true _ _).mp hhead
      simp [hdomain]
    have hedge : ∀ id ∈ [target], domains.has id block = true →
        containsTarget (targetSet [target]) id = true → domains.has id successor = true := by
      intro id hid _ _
      obtain rfl := List.mem_singleton.mp hid
      exact hhead
    simp only [List.map_cons, List.zip_cons_cons, List.flatten_cons, cutEdges]
    refine bind_ok.mpr ⟨(), ensure_ok.mpr (by simp), bind_ok.mpr ⟨(), ensure_ok.mpr hlookup,
      bind_ok.mpr ⟨(), ensure_ok.mpr hedge, ?_⟩⟩⟩
    rw [Int.toNat_natCast, List.drop_left, ih, ok_bind, if_pos (by simp), List.take_left]
    rfl

theorem filterMap_label_zipEdges {labels : List (Option Attr)} {successors : List ℕ}
    {arguments : List (List Value)} (hl : labels.length = arguments.length)
    (hs : successors.length = arguments.length) :
    (zipEdges labels successors arguments).filterMap Edge.label = labels.filterMap id := by
  induction arguments generalizing labels successors with
  | nil => simp_all [zipEdges]
  | cons segment arguments ih =>
    obtain ⟨label, labels, rfl⟩ := List.exists_cons_of_length_eq_add_one hl
    obtain ⟨successor, successors, rfl⟩ := List.exists_cons_of_length_eq_add_one hs
    rw [zipEdges_cons, List.filterMap_cons, List.filterMap_cons,
      ih (by simpa using hl) (by simpa using hs)]
    rfl

theorem map_zipEdges {labels : List (Option Attr)} {successors : List ℕ}
    {arguments : List (List Value)} (hl : labels.length = arguments.length)
    (hs : successors.length = arguments.length) :
    (zipEdges labels successors arguments).map Edge.arguments = arguments ∧
    (zipEdges labels successors arguments).map Edge.successor = successors := by
  induction arguments generalizing labels successors with
  | nil => simp_all [zipEdges]
  | cons segment arguments ih =>
    obtain ⟨label, labels, rfl⟩ := List.exists_cons_of_length_eq_add_one hl
    obtain ⟨successor, successors, rfl⟩ := List.exists_cons_of_length_eq_add_one hs
    obtain ⟨harguments, hsuccessors⟩ :=
      @ih labels successors (by simpa using hl) (by simpa using hs)
    simp [harguments, hsuccessors]

/-- A switch of one target is its own cut. -/
theorem rewriteSwitch_of_plain {target : String} {domains : BlockDomains} {block : ℕ}
    {operation : Operation} (hsorted : operation.attributes.Sorted)
    (hplain : operation.name = "sela.switch" → PlainSwitch operation)
    (hhas : ∀ successor ∈ operation.successors, domains.has target successor = true) :
    rewriteSwitch [target] domains block target operation = .ok operation := by
  unfold rewriteSwitch
  split
  · rfl
  · rename_i hname
    obtain ⟨cases, arguments, selector, hcases, hcounts, hoperands, hresults, hsuccessors, hlength,
      hdomains⟩ := hplain (not_not.mp hname)
    obtain ⟨segment, arguments, rfl⟩ := List.exists_cons_of_length_eq_add_one hlength.symm
    have hlabels : (none :: cases.map some).length = (segment :: arguments).length := by
      simpa using hlength
    have hcut : cutEdges [target] domains block target _ _ = _ :=
      cutEdges_all hlabels hsuccessors hhas
    have hcount : arguments.length = cases.length := by simpa using hlength.symm
    have hall : targetSet [target] :: (cases.map fun _ => targetSet [target]) =
        (segment :: arguments).map fun _ => targetSet [target] := by
      simp [List.map_const', hcount]
    obtain ⟨hedgeArguments, hedgeSuccessors⟩ := map_zipEdges hlabels hsuccessors
    have hwritten : (zipEdges (none :: cases.map some) operation.successors
        (segment :: arguments)).map (fun edge => (edge.arguments.length : ℤ)) =
        (segment :: arguments).map fun segment => (segment.length : ℤ) := by
      rw [← hedgeArguments, List.map_map, hedgeArguments]
      rfl
    have hattributes : ((operation.attributes.erase "case_domains").set "cases" (.array cases)).set
        "argument_counts" (.denseI32 ((segment :: arguments).map fun segment => (segment.length : ℤ))) =
        operation.attributes := by
      rw [Attributes.erase_of_get hdomains, Attributes.set_of_get hsorted hcases,
        Attributes.set_of_get hsorted hcounts]
    simp only [hcases, hcounts, hoperands, Option.bind_some, Attr.asArray?, Attr.asDenseI32?]
    rw [caseDomains, hdomains]
    simp only [pure_eq_ok, ok_bind]
    refine bind_ok.mpr ⟨(), ensure_ok.mpr ⟨by simp, by simpa using hcount, ?_, hresults⟩, ?_⟩
    · simpa using hsuccessors
    rw [hall, hcut, ok_bind, filterMap_label_zipEdges hlabels hsuccessors,
      flatMap_zipEdges hlabels hsuccessors, hwritten, hedgeSuccessors]
    simp only [List.filterMap_cons, id, List.filterMap_map, Function.comp_def, List.filterMap_some,
      hattributes]
    rw [← hoperands, ← hresults]

/-! ## Functions of one target -/

/-- A function that its target takes whole : one region, nothing in it refers out of it, and
its switches are plain. -/
def Whole (definition : Definition) : Prop :=
  definition.name = "sela.func" → ∃ region, definition.regions = [region] ∧ Closed region.blocks ∧
    ∀ block ∈ region.blocks, ∀ operation ∈ block.operations,
      operation.attributes.Sorted ∧ (operation.name = "sela.switch" → PlainSwitch operation)

theorem lookup_zip_const {ids : List ℕ} {domain : Attr} {id : ℕ} (h : id ∈ ids) :
    (ids.zip (ids.map fun _ => domain)).lookup id = some domain := by
  induction ids with
  | nil => simp at h
  | cons head ids ih =>
    rw [List.map_cons, List.zip_cons_cons, List.lookup_cons]
    split
    · rfl
    · rename_i hne
      refine ih ((List.mem_cons.mp h).resolve_left ?_)
      rintro rfl
      simp at hne

theorem withOperations_self (region : Region) :
    region.withOperations (region.blocks.map Block.operations) = region := by
  have hblocks : ∀ blocks : List Block, List.zipWith
      (fun (block : Block) operations => { block with operations }) blocks
      (blocks.map Block.operations) = blocks := by
    intro blocks
    induction blocks with
    | nil => rfl
    | cons block blocks ih => rw [List.map_cons, List.zipWith_cons_cons, ih]
  obtain ⟨blocks, hnodup⟩ := region
  simp only [Region.withOperations, Region.mk.injEq]
  exact hblocks blocks

/-- A function of one target is its own cut. -/
theorem specializeFunction_of_whole {target : String} {definition : Definition}
    (hwhole : Whole definition) (htargets : definition.attributes.get "targets" = none)
    (hdomains : definition.attributes.get "block_domains" = none) :
    specializeFunction [target] target definition = .ok definition := by
  unfold specializeFunction
  split
  · rfl
  · rename_i hname
    obtain ⟨region, hregion, hclosed, hplain⟩ := hwhole (not_not.mp hname)
    obtain ⟨name, attributes, regions⟩ := definition
    obtain rfl : regions = [region] := hregion
    have hdeclared : blockDomains (targetSet [target]) ⟨name, attributes, [region]⟩ region =
        .ok ((region.blocks.map Block.id).zip
          ((region.blocks.map Block.id).map fun _ => targetSet [target])) := by
      rw [blockDomains, functionDomain, htargets, declaredBlockDomains, hdomains]
      refine bind_ok.mpr ⟨_, rfl, bind_ok.mpr ⟨(), ensure_ok.mpr fun domain hdomain => ?_, ?_⟩⟩
      · obtain ⟨_, -, rfl⟩ := List.mem_map.mp (List.mem_of_mem_head? hdomain)
        simp [coversFunction, targetSet, containsTarget]
      · rw [List.map_map]
        rfl
    have hhas : ∀ id ∈ region.blocks.map Block.id, BlockDomains.has ((region.blocks.map Block.id).zip
        ((region.blocks.map Block.id).map fun _ => targetSet [target])) target id = true := by
      intro id hid
      rw [BlockDomains.has, lookup_zip_const hid]
      simp
    simp only [hdeclared, ok_bind]
    generalize (region.blocks.map Block.id).zip
      ((region.blocks.map Block.id).map fun _ => targetSet [target]) = domains at hhas ⊢
    have hoperations : (region.blocks.mapM fun block => block.operations.mapM
        (rewriteSwitch [target] domains block.id target)) =
        .ok (region.blocks.map Block.operations) := by
      refine mapM_ok.mpr (List.forall₂_map_right_iff.mpr (List.forall₂_same.mpr fun block hblock => ?_))
      refine mapM_ok.mpr (List.forall₂_same.mpr fun operation hoperation => ?_)
      obtain ⟨hsorted, hswitch⟩ := hplain block hblock operation hoperation
      exact rewriteSwitch_of_plain hsorted hswitch fun successor hsuccessor =>
        hhas successor ((hclosed block hblock operation hoperation).1 successor hsuccessor)
    have hsurvivors : checkSurvivors domains target region.blocks = .ok () := by
      refine forM_ok.mpr fun block hblock => forM_ok.mpr fun operation hoperation => ?_
      obtain ⟨hsuccessors, hoperands⟩ :=
        hclosed block (List.mem_of_mem_filter hblock) operation hoperation
      refine bind_ok.mpr ⟨(), ensure_ok.mpr fun successor hsuccessor =>
        hhas successor (hsuccessors successor hsuccessor), ensure_ok.mpr fun operand hoperand => ?_⟩
      obtain ⟨owner, howner, hdefined⟩ := hoperands operand hoperand
      obtain ⟨found, hfound⟩ : ∃ found, ownerBlock region.blocks operand = some found :=
        Option.isSome_iff_exists.mp (List.find?_isSome.mpr ⟨owner, howner, by simpa using hdefined⟩)
      rw [hfound]
      exact hhas found.id (List.mem_map_of_mem (mem_of_ownerBlock hfound).1)
    have hfilter : region.filter (fun block => BlockDomains.has domains target block.id) = region := by
      obtain ⟨blocks, hnodup⟩ := region
      simp only [Region.filter, Region.mk.injEq]
      exact List.filter_eq_self.mpr fun block hblock => hhas block.id (List.mem_map_of_mem hblock)
    rw [hoperations, ok_bind, withOperations_self, hsurvivors, ok_bind, hfilter,
      Attributes.erase_of_get hdomains]
    rfl

/-! ## The conditional cut in memory -/

/-- The loop over definitions that all cut. -/
theorem exec_specializeDefinitions_of_ok {targets : List String} {selected : String} {result : ℕ} :
    ∀ {before after specialized : List Definition} {context : Context},
      (context.modules result).body = before ++ after →
      after.mapM (specializeFunction targets selected) = .ok specialized →
      ∃ context', exec (specializeDefinitions targets selected result before after) context =
          (.ok (), context') ∧ context'.next = context.next ∧
        context'.modules result = { context.modules result with body := before ++ specialized }
  | before, [], specialized, context, hbody, h => by
    obtain rfl : [] = specialized := Except.ok.inj h
    exact ⟨context, rfl, rfl, by rw [← hbody]⟩
  | before, definition :: after, specialized, context, hbody, h => by
    rw [mapM_cons] at h
    obtain ⟨definition', hdefinition, h⟩ := bind_ok.mp h
    obtain ⟨rest, hrest, h⟩ := bind_ok.mp h
    obtain rfl := Except.ok.inj h
    unfold specializeDefinitions
    rw [hdefinition, exec_check_bind]
    simp only
    rw [exec_editModule_bind]
    obtain ⟨context', hexec, hnext, hmodule⟩ := @exec_specializeDefinitions_of_ok targets selected
      result (before ++ [definition']) after rest
      ⟨Function.update context.modules result
        { context.modules result with body := before ++ definition' :: after }, context.next⟩
      (by simp) hrest
    exact ⟨context', hexec, hnext, by simpa using hmodule⟩

/-- What a successful cut did. -/
theorem exec_specializeConditionalCFG_ok {verify : Module → Bool} {source : ℕ} {selected : String}
    {context context' : Context} {result : ℕ}
    (h : exec (specializeConditionalCFG verify source selected) context = (.ok result, context')) :
    ∃ targets body, declaredTargets (context.modules source) = .ok targets ∧ selected ∈ targets ∧
      verifyTargetDomains (context.modules source) = .ok () ∧
      ((context.modules source).body.filter (presentFor selected)).mapM
        (specializeFunction targets selected) = .ok body ∧
      context'.modules result = { context.modules source with body } := by
  unfold specializeConditionalCFG at h
  rw [exec_readModule_bind] at h
  obtain ⟨targets, htargets, h⟩ := exec_check_bind_ok.mp h
  obtain ⟨_, hselected, h⟩ := exec_check_bind_ok.mp h
  obtain ⟨_, hverified, h⟩ := exec_check_bind_ok.mp h
  rw [exec_cloneModule_bind, specializeClone, exec_editModule_bind, exec_readModule_bind] at h
  obtain ⟨_, _, hloop, h⟩ := exec_bind_ok.mp h
  obtain ⟨specialized, hspecialized, hresult⟩ := exec_specializeDefinitions (by simp) hloop
  rw [exec_readModule_bind] at h
  obtain ⟨_, -, h⟩ := exec_check_bind_ok.mp h
  obtain ⟨hhandle, rfl⟩ := Prod.mk.inj h
  obtain rfl := Except.ok.inj hhandle
  exact ⟨targets, specialized, htargets, ensure_ok.mp hselected, hverified, by simpa using hspecialized,
    by rw [hresult]; simp⟩

/-- A cut that passes its checks and leaves the module as it is succeeds, with an equal
copy. -/
theorem exec_specializeConditionalCFG_of_ok {verify : Module → Bool} {source : ℕ}
    {selected : String} {context : Context} {targets : List String}
    (htargets : declaredTargets (context.modules source) = .ok targets)
    (hselected : selected ∈ targets)
    (hverified : verifyTargetDomains (context.modules source) = .ok ())
    (hpresent : (context.modules source).body.filter (presentFor selected) =
      (context.modules source).body)
    (hbody : (context.modules source).body.mapM (specializeFunction targets selected) =
      .ok (context.modules source).body)
    (hverify : verify (context.modules source) = true) :
    ∃ result context', exec (specializeConditionalCFG verify source selected) context =
      (.ok result, context') ∧ context'.modules result = context.modules source := by
  have hmodule : { context.modules source with body := (context.modules source).body } =
      context.modules source := rfl
  unfold specializeConditionalCFG
  rw [exec_readModule_bind, htargets, exec_check_bind]
  simp only
  rw [exec_check_bind, (ensure_ok (u := ())).mpr hselected]
  simp only
  rw [exec_check_bind, hverified]
  simp only
  rw [exec_cloneModule_bind, specializeClone, exec_editModule_bind, exec_readModule_bind]
  simp only [Function.update_self, hpresent, hmodule]
  obtain ⟨context', hloop, -, hresult⟩ := @exec_specializeDefinitions_of_ok targets selected
    context.next [] (context.modules source).body _
    { modules := Function.update (Function.update context.modules context.next
        (context.modules source)) context.next (context.modules source)
      next := context.next + 1 } (by simp) hbody
  have hresult : context'.modules context.next = context.modules source := by
    rw [hresult]
    simp
  refine ⟨context.next, context', ?_, hresult⟩
  rw [exec_bind, hloop]
  simp only
  rw [exec_readModule_bind, hresult, exec_check_bind, (ensure_ok (u := ())).mpr hverify]
  rfl

/-! ## What is verified of a definition a target has -/

/-- An operation with well-formed attributes and types. -/
structure Operation.WellFormed (operation : Operation) : Prop where
  attributes : (Attr.dictionary operation.attributes).WellFormed
  operands : ∀ value ∈ operation.operands, value.type.WellFormed
  results : ∀ value ∈ operation.results, value.type.WellFormed

/-- A definition with well-formed attributes and types. -/
structure Definition.WellFormed (definition : Definition) : Prop where
  attributes : (Attr.dictionary definition.attributes).WellFormed
  arguments : ∀ region ∈ definition.regions, ∀ block ∈ region.blocks,
    ∀ value ∈ block.arguments, value.type.WellFormed
  operations : ∀ region ∈ definition.regions, ∀ block ∈ region.blocks,
    ∀ operation ∈ block.operations, operation.WellFormed

/-- A module with well-formed attributes and types. -/
structure Module.WellFormed (module : Module) : Prop where
  attributes : (Attr.dictionary module.attributes).WellFormed
  definitions : ∀ definition ∈ module.body, definition.WellFormed

/-- A definition with block domains on a function only, case domains on the switches of a
function only, and no targets on the operations of a function. -/
structure DefinitionInventories (definition : Definition) : Prop where
  blocks : definition.name ≠ "sela.func" → definition.attributes.get "block_domains" = none
  cases : definition.attributes.get "case_domains" = none
  label : definition.attributes.get "sela.targets" = none
  operations : ∀ region ∈ definition.regions, ∀ block ∈ region.blocks,
    ∀ operation ∈ block.operations, operation.attributes.get "block_domains" = none ∧
      (¬(definition.name = "sela.func" ∧ operation.name = "sela.switch") →
        operation.attributes.get "case_domains" = none)
  labels : ∀ region ∈ definition.regions, ∀ block ∈ region.blocks,
    ∀ operation ∈ block.operations, operation.attributes.get "sela.targets" = none ∧
      (definition.name = "sela.func" → operation.attributes.get "targets" = none)

/-- A module with target sets only where they mean something : block domains on functions, case
domains on the switches of functions, targets on definitions and the declared targets on the
module. -/
structure DomainInventories (module : Module) : Prop where
  blocks : module.attributes.get "block_domains" = none
  cases : module.attributes.get "case_domains" = none
  definitions : ∀ definition ∈ module.body, DefinitionInventories definition

/-- The attributes of an operation name no targets of the operation. -/
def Unlabelled (attributes : Attributes) : Prop :=
  attributes.get "targets" = none ∧ attributes.get "sela.targets" = none

/-- The types of the block arguments of a definition. -/
def Definition.argumentTypes (definition : Definition) : List SelaType :=
  definition.regions.flatMap fun region =>
    region.blocks.flatMap fun block => block.arguments.map Value.type

theorem mem_argumentTypes {definition : Definition} {type : SelaType} :
    type ∈ definition.argumentTypes ↔ ∃ region ∈ definition.regions, ∃ block ∈ region.blocks,
      ∃ value ∈ block.arguments, value.type = type := by
  simp [Definition.argumentTypes]

/-- A check of every operation of some regions, by block and position. -/
theorem forM_operations_ok {f : Block × ℕ → Operation → Checked Unit} {regions : List Region}
    {u : Unit} :
    (regions.forM fun region => region.blocks.zipIdx.forM fun x =>
      x.1.operations.forM fun operation => f x operation) = .ok u ↔
    ∀ region ∈ regions, ∀ block index, region.blocks[index]? = some block →
      ∀ operation ∈ block.operations, f (block, index) operation = .ok () := by
  rw [forM_ok]
  refine forall₂_congr fun region _ => ?_
  rw [forM_ok, Prod.forall]
  refine forall₂_congr fun block index => ?_
  rw [List.mk_mem_zipIdx_iff_getElem?, forM_ok]

theorem verifyDefinition_ok {declared : List String} {definition : Definition} :
    verifyDefinition declared definition = .ok () ↔
      (∀ region ∈ definition.regions, ∀ block index, region.blocks[index]? = some block →
        ∀ operation ∈ block.operations, ∃ active,
          (if definition.name = "sela.func" then ∃ whole,
            definitionTargets declared definition = .ok whole ∧
              blockTargets definition whole index = .ok active
          else active = declared ∧ operation.attributes.get "targets" = none) ∧
          checkOperation declared active operation.attributes
            (operation.results.map Value.type) = .ok ()) ∧
      ∃ active, definitionTargets declared definition = .ok active ∧
        checkOperation declared active definition.attributes definition.argumentTypes = .ok () := by
  unfold verifyDefinition Definition.argumentTypes
  rw [bind_ok]
  by_cases hname : definition.name = "sela.func"
  · simp only [hname, if_true]
    constructor
    · rintro ⟨_, hoperations, h⟩
      refine ⟨fun region hregion block index hblock operation hoperation => ?_, bind_ok.mp h⟩
      have h := forM_operations_ok.mp hoperations region hregion block index hblock operation hoperation
      obtain ⟨whole, hwhole, h⟩ := bind_ok.mp h
      obtain ⟨active, hactive, h⟩ := bind_ok.mp h
      obtain ⟨_, -, h⟩ := bind_ok.mp h
      exact ⟨active, ⟨whole, hwhole, hactive⟩, h⟩
    · rintro ⟨hoperations, h⟩
      refine ⟨(), forM_operations_ok.mpr
        fun region hregion block index hblock operation hoperation => ?_, bind_ok.mpr h⟩
      obtain ⟨active, ⟨whole, hwhole, hactive⟩, h⟩ :=
        hoperations region hregion block index hblock operation hoperation
      exact bind_ok.mpr ⟨whole, hwhole, bind_ok.mpr ⟨active, hactive, bind_ok.mpr
        ⟨(), ensure_ok.mpr (.inl trivial), h⟩⟩⟩
  · simp only [hname, if_false, false_or, pure_eq_ok, ok_bind]
    constructor
    · rintro ⟨_, hoperations, h⟩
      refine ⟨fun region hregion block index hblock operation hoperation => ?_, bind_ok.mp h⟩
      have h := forM_operations_ok.mp hoperations region hregion block index hblock operation hoperation
      obtain ⟨_, htargets, h⟩ := bind_ok.mp h
      exact ⟨declared, ⟨rfl, ensure_ok.mp htargets⟩, h⟩
    · rintro ⟨hoperations, h⟩
      refine ⟨(), forM_operations_ok.mpr
        fun region hregion block index hblock operation hoperation => ?_, bind_ok.mpr h⟩
      obtain ⟨active, ⟨rfl, htargets⟩, h⟩ :=
        hoperations region hregion block index hblock operation hoperation
      exact bind_ok.mpr ⟨(), ensure_ok.mpr htargets, h⟩

/-- A target that has a definition is one of the definition's targets. -/
theorem mem_definitionTargets {declared active : List String} {id : String}
    {definition : Definition} (hid : id ∈ declared) (hpresent : presentFor id definition = true)
    (h : definitionTargets declared definition = .ok active) : id ∈ active := by
  unfold definitionTargets at h
  unfold presentFor at hpresent
  split at h
  · obtain rfl := Except.ok.inj h
    exact hid
  · rename_i raw hraw
    obtain ⟨_, -, h⟩ := bind_ok.mp h
    obtain ⟨htargets, -⟩ := checkSet_ok h
    rw [hraw, Option.some.inj htargets] at hpresent
    simpa using hpresent

/-- A target that has a block is one of the block's targets. -/
theorem mem_blockTargets {whole active : List String} {id : String} {definition : Definition}
    {index : ℕ} (hid : id ∈ whole)
    (hblock : ∀ domains, definition.attributes.get "block_domains" = some (.array domains) →
      ∀ domain, domains[index]? = some domain → containsTarget domain id = true)
    (h : blockTargets definition whole index = .ok active) : id ∈ active := by
  unfold blockTargets at h
  split at h
  · obtain rfl := Except.ok.inj h
    exact hid
  · rename_i domains hdomains
    obtain ⟨_, -, h⟩ := bind_ok.mp h
    obtain ⟨raw, hraw, harray⟩ := Option.bind_eq_some_iff.mp hdomains
    obtain rfl : raw = .array domains := by simpa using harray
    obtain ⟨hdomain, -⟩ := checkSet_ok h
    simpa using hblock domains hraw _ hdomain

/-! ## The cut of a definition -/

/-- A definition cut to the target `id` : what was verified of it and of its operations was
verified for `id`, and nothing in it is conditional. -/
structure CutDefinition (declared : List String) (id : String) (definition : Definition) :
    Prop where
  wellFormed : definition.WellFormed
  whole : Whole definition
  passed : Passed declared id definition.attributes definition.argumentTypes
  blocks : definition.attributes.get "block_domains" = none
  cases : definition.attributes.get "case_domains" = none
  label : definition.attributes.get "sela.targets" = none
  operations : ∀ region ∈ definition.regions, ∀ block ∈ region.blocks,
    ∀ operation ∈ block.operations,
      Passed declared id operation.attributes (operation.results.map Value.type) ∧
      operation.attributes.get "block_domains" = none ∧
      operation.attributes.get "case_domains" = none ∧ Unlabelled operation.attributes

theorem Attributes.mem_erase {name : String} {entry : String × Attr} {attributes : Attributes}
    (h : entry ∈ attributes.erase name) : entry ∈ attributes :=
  List.mem_of_mem_filter h

/-- The attributes of a switch that is cut are ones of the switch, but for its labels and
counts. -/
theorem CutSwitch.mem_attributes {source result : Operation} (h : CutSwitch source result)
    {entry : String × Attr} (hentry : entry ∈ result.attributes) :
    (∃ counts, entry.2 = .denseI32 counts) ∨
    (∃ cases kept, ("cases", Attr.array cases) ∈ source.attributes ∧ (∀ label ∈ kept, label ∈ cases) ∧
      entry.2 = .array kept) ∨
    entry ∈ source.attributes := by
  obtain ⟨cases, kept, counts, hcases, hkept, hattributes⟩ := h.attributes
  rw [hattributes] at hentry
  rcases Attributes.mem_set hentry with rfl | hentry
  · exact .inl ⟨counts, rfl⟩
  · rcases Attributes.mem_set hentry with rfl | hentry
    · exact .inr (.inl ⟨cases, kept, Attributes.mem_of_get hcases, hkept, rfl⟩)
    · exact .inr (.inr (Attributes.mem_erase hentry))

theorem CutSwitch.wellFormed {source result : Operation} (h : CutSwitch source result)
    (hform : source.WellFormed) : result.WellFormed where
  attributes := by
    refine ⟨?_, entriesWellFormed_iff.mpr fun entry hentry => ?_⟩
    · obtain ⟨cases, kept, counts, -, -, hattributes⟩ := h.attributes
      rw [hattributes]
      exact (Attributes.Sorted.set (Attributes.Sorted.set hform.attributes.1.erase))
    · have hentries := entriesWellFormed_iff.mp hform.attributes.2
      obtain ⟨counts, heq⟩ | ⟨cases, kept, hmem, hkept, heq⟩ | hmem := h.mem_attributes hentry
      · rw [heq]
        trivial
      · rw [heq]
        exact attrsWellFormed_iff.mpr fun label hlabel =>
          attrsWellFormed_iff.mp (hentries _ hmem) label (hkept label hlabel)
      · exact hentries entry hmem
  operands value hvalue := hform.operands value (h.operands value hvalue)
  results value hvalue := hform.results value (h.results ▸ hvalue)

theorem CutSwitch.passed {source result : Operation} (h : CutSwitch source result)
    {declared : List String} {id : String}
    (hpassed : Passed declared id source.attributes (source.results.map Value.type)) :
    Passed declared id result.attributes (result.results.map Value.type) := by
  obtain ⟨active, hactive, hchecked⟩ := hpassed.checked
  refine ⟨⟨active, hactive, fun entry hentry => ?_⟩, h.results ▸ hpassed.admitted,
    fun entry hentry type htype => ?_⟩
  · obtain ⟨counts, heq⟩ | ⟨cases, kept, hmem, hkept, heq⟩ | hmem := h.mem_attributes hentry
    · rw [heq]
      rfl
    · rw [heq]
      exact checkAttribute_array_of_subset hkept (hchecked _ hmem)
    · exact hchecked entry hmem
  · obtain ⟨counts, heq⟩ | ⟨cases, kept, hmem, hkept, heq⟩ | hmem := h.mem_attributes hentry
    · simp [heq, Attr.mentioned] at htype
    · refine hpassed.mentioned _ hmem type ?_
      rw [heq, Attr.mentioned, attrsMentioned_eq] at htype
      rw [Attr.mentioned, attrsMentioned_eq]
      obtain ⟨label, hlabel, htype⟩ := List.mem_flatMap.mp htype
      exact List.mem_flatMap.mpr ⟨label, hkept label hlabel, htype⟩
    · exact hpassed.mentioned entry hmem type htype

/-- The operation that becomes one of a cut function. -/
def CutFrom (source result : Operation) : Prop :=
  (source.name = "sela.switch" ∧ CutSwitch source result) ∨
    (source.name ≠ "sela.switch" ∧ result = source)

/-- The blocks of a cut function are ones of the function whose domain has the target, with
each operation cut. -/
theorem specializeFunction_blocks {targets : List String} {selected : String}
    (hselected : selected ∈ targets) {source result : Definition}
    (hname : source.name = "sela.func")
    (h : specializeFunction targets selected source = .ok result) :
    ∃ region region', source.regions = [region] ∧
      result = { source with
        attributes := source.attributes.erase "block_domains", regions := [region'] } ∧
      Closed region'.blocks ∧
      ∀ block' ∈ region'.blocks, ∃ (block : Block) (index : ℕ), region.blocks[index]? = some block ∧
        (∀ domains, source.attributes.get "block_domains" = some (.array domains) →
          ∀ domain, domains[index]? = some domain → containsTarget domain selected = true) ∧
        block'.arguments = block.arguments ∧
        ∀ operation' ∈ block'.operations, ∃ operation ∈ block.operations,
          CutFrom operation operation' := by
  unfold specializeFunction at h
  rw [if_neg (by simpa using hname)] at h
  split at h
  · rename_i region hregion
    obtain ⟨domains, hdomains, h⟩ := bind_ok.mp h
    obtain ⟨operations, hoperations, h⟩ := bind_ok.mp h
    obtain ⟨_, hsurvivors, h⟩ := bind_ok.mp h
    obtain rfl := Except.ok.inj h
    have hblocks := blocks_withOperations hoperations
    generalize region.withOperations operations = rewritten at hblocks hsurvivors
    obtain ⟨rfl, hinventory⟩ := blockDomains_ok hdomains
    have hids : rewritten.blocks.map Block.id = region.blocks.map Block.id :=
      map_eq_of_forall₂ (hblocks.imp fun _ _ h => h.1)
    refine ⟨region, _, hregion, rfl, checkSurvivors_ok ?_ hsurvivors, fun block' hblock' => ?_⟩
    · rw [List.map_fst_zip (by simp [hinventory]), hids]
    · obtain ⟨hmem, hhas⟩ := List.mem_filter.mp hblock'
      obtain ⟨block, hblock, hid, harguments, hops⟩ := exists_of_forall₂_right hblocks hmem
      have hkept : block ∈ ((region.blocks.zip (domainsOf (targetSet targets) source region)).filter
          fun entry => containsTarget entry.2 selected).map Prod.fst := by
        rw [← filter_has selected region.nodup hinventory]
        exact List.mem_filter.mpr ⟨hblock, hid ▸ hhas⟩
      obtain ⟨entry, hentry, rfl⟩ := List.mem_map.mp hkept
      obtain ⟨hzip, hcontains⟩ := List.mem_filter.mp hentry
      obtain ⟨index, hindex⟩ := List.mem_iff_getElem?.mp hzip
      obtain ⟨hfst, hsnd⟩ := List.getElem?_zip_eq_some.mp hindex
      refine ⟨entry.1, index, hfst, fun domains hdeclared domain hdomain => ?_, harguments,
        fun operation' hoperation' => ?_⟩
      · have hof : domainsOf (targetSet targets) source region = domains := by
          simp [domainsOf, hdeclared]
        rw [hof, hdomain] at hsnd
        exact Option.some.inj hsnd ▸ hcontains
      · obtain ⟨operation, hoperation, hrewrite⟩ := exists_of_forall₂_right (mapM_ok.mp hops) hoperation'
        refine ⟨operation, hoperation, ?_⟩
        by_cases hswitch : operation.name = "sela.switch"
        · exact .inl ⟨hswitch, rewriteSwitch_cut hselected hswitch hrewrite⟩
        · rw [rewriteSwitch, if_pos hswitch] at hrewrite
          exact .inr ⟨hswitch, (Except.ok.inj hrewrite).symm⟩
  · simp at h

theorem Passed.subset {declared : List String} {id : String} {attributes attributes' : Attributes}
    {types types' : List SelaType} (h : Passed declared id attributes types)
    (hattributes : ∀ entry ∈ attributes', entry ∈ attributes) (htypes : ∀ type ∈ types', type ∈ types) :
    Passed declared id attributes' types' := by
  obtain ⟨active, hactive, hchecked⟩ := h.checked
  exact ⟨⟨active, hactive, fun entry hentry => hchecked entry (hattributes entry hentry)⟩,
    fun type htype => h.admitted type (htypes type htype),
    fun entry hentry => h.mentioned entry (hattributes entry hentry)⟩

theorem Definition.WellFormed.erase {definition : Definition} (h : definition.WellFormed)
    (name : String) : (Attr.dictionary (definition.attributes.erase name)).WellFormed :=
  ⟨h.attributes.1.erase, entriesWellFormed_iff.mpr fun entry hentry =>
    entriesWellFormed_iff.mp h.attributes.2 entry (Attributes.mem_erase hentry)⟩

/-- What the cut makes of a verified definition that the target has. -/
theorem specializeFunction_cut {declared : List String} {id : String} (hid : id ∈ declared)
    {source result : Definition} (hform : source.WellFormed)
    (hinventories : DefinitionInventories source) (hpresent : presentFor id source = true)
    (hverified : verifyDefinition declared source = .ok ())
    (h : specializeFunction declared id source = .ok result) : CutDefinition declared id result := by
  obtain ⟨hoperations, active, hactive, hself⟩ := verifyDefinition_ok.mp hverified
  have hpassed : Passed declared id source.attributes source.argumentTypes :=
    passed_of_checkOperation (mem_definitionTargets hid hpresent hactive) hself
  by_cases hname : source.name = "sela.func"
  · obtain ⟨region, region', hregion, rfl, hclosed, hblocks⟩ := specializeFunction_blocks hid hname h
    have hmem : region ∈ source.regions := by simp [hregion]
    -- Each operation that stays comes from one that was verified for the target.
    have hsource : ∀ block' ∈ region'.blocks, ∀ operation' ∈ block'.operations,
        ∃ operation, CutFrom operation operation' ∧ operation.WellFormed ∧
          Passed declared id operation.attributes (operation.results.map Value.type) ∧
          operation.attributes.get "block_domains" = none ∧ Unlabelled operation.attributes ∧
          (operation.name ≠ "sela.switch" → operation.attributes.get "case_domains" = none) := by
      intro block' hblock' operation' hoperation'
      obtain ⟨block, index, hindex, hdomain, -, hcut⟩ := hblocks block' hblock'
      obtain ⟨operation, hoperation, hfrom⟩ := hcut operation' hoperation'
      have hblock : block ∈ region.blocks := List.mem_of_getElem? hindex
      obtain ⟨activeBlock, hactiveBlock, hchecked⟩ :=
        hoperations region hmem block index hindex operation hoperation
      rw [if_pos hname] at hactiveBlock
      obtain ⟨whole, hwhole, hactiveBlock⟩ := hactiveBlock
      have hin : id ∈ activeBlock :=
        mem_blockTargets (mem_definitionTargets hid hpresent hwhole) hdomain hactiveBlock
      obtain ⟨hnone, hcases⟩ := hinventories.operations region hmem block hblock operation hoperation
      obtain ⟨hlabel, htargets⟩ := hinventories.labels region hmem block hblock operation hoperation
      exact ⟨operation, hfrom, hform.operations region hmem block hblock operation hoperation,
        passed_of_checkOperation hin hchecked, hnone, ⟨htargets hname, hlabel⟩,
        fun hswitch => hcases fun h => hswitch h.2⟩
    have hcutForm : ∀ block' ∈ region'.blocks, ∀ operation' ∈ block'.operations,
        operation'.WellFormed := by
      intro block' hblock' operation' hoperation'
      obtain ⟨operation, ⟨-, hcut⟩ | ⟨-, rfl⟩, hform, -⟩ :=
        hsource block' hblock' operation' hoperation'
      · exact hcut.wellFormed hform
      · exact hform
    refine
      { wellFormed := ⟨hform.erase _, ?_, ?_⟩
        whole := fun _ => ⟨region', rfl, hclosed, fun block' hblock' operation' hoperation' =>
          ⟨(hcutForm block' hblock' operation' hoperation').attributes.1, ?_⟩⟩
        passed := hpassed.subset (fun entry => Attributes.mem_erase) ?_
        blocks := Attributes.get_erase_self _ _
        cases := by
          rw [Attributes.get_erase_of_ne (by decide)]
          exact hinventories.cases
        label := by
          rw [Attributes.get_erase_of_ne (by decide)]
          exact hinventories.label
        operations := ?_ }
    · intro region'' hregion'' block' hblock' value hvalue
      obtain rfl := List.mem_singleton.mp hregion''
      obtain ⟨block, index, hindex, -, harguments, -⟩ := hblocks block' hblock'
      exact hform.arguments region hmem block (List.mem_of_getElem? hindex) value (harguments ▸ hvalue)
    · intro region'' hregion'' block' hblock' operation' hoperation'
      obtain rfl := List.mem_singleton.mp hregion''
      exact hcutForm block' hblock' operation' hoperation'
    · intro hswitch
      obtain ⟨operation, ⟨-, hcut⟩ | ⟨hne, rfl⟩, -⟩ := hsource block' hblock' operation' hoperation'
      · exact hcut.plain
      · exact absurd hswitch hne
    · intro type htype
      obtain ⟨region'', hregion'', block', hblock', value, hvalue, rfl⟩ := mem_argumentTypes.mp htype
      obtain rfl := List.mem_singleton.mp hregion''
      obtain ⟨block, index, hindex, -, harguments, -⟩ := hblocks block' hblock'
      exact mem_argumentTypes.mpr ⟨region, hmem, block, List.mem_of_getElem? hindex, value,
        harguments ▸ hvalue, rfl⟩
    · intro region'' hregion'' block' hblock' operation' hoperation'
      obtain rfl := List.mem_singleton.mp hregion''
      obtain ⟨operation, ⟨hswitch, hcut⟩ | ⟨hne, rfl⟩, -, hpassed, hnone, hlabels, hcases⟩ :=
        hsource block' hblock' operation' hoperation'
      · obtain ⟨_, _, _, _, -, hattributes⟩ := hcut.attributes
        obtain ⟨_, _, _, -, -, -, -, -, -, hplain⟩ := hcut.plain
        have hget : ∀ name, name ≠ "cases" → name ≠ "argument_counts" → name ≠ "case_domains" →
            operation'.attributes.get name = operation.attributes.get name :=
          fun name hcases hcounts hdomains => by
            rw [hattributes, Attributes.get_set_of_ne _ (by grind),
              Attributes.get_set_of_ne _ (by grind), Attributes.get_erase_of_ne (by grind)]
        refine ⟨hcut.passed hpassed, ?_, hplain, ?_, ?_⟩
        · rw [hget _ (by decide) (by decide) (by decide), hnone]
        · rw [hget _ (by decide) (by decide) (by decide), hlabels.1]
        · rw [hget _ (by decide) (by decide) (by decide), hlabels.2]
      · exact ⟨hpassed, hnone, hcases hne, hlabels⟩
  · rw [specializeFunction, if_pos hname] at h
    obtain rfl := Except.ok.inj h
    refine
      { wellFormed := hform
        whole := fun h => absurd h hname
        passed := hpassed
        blocks := hinventories.blocks hname
        cases := hinventories.cases
        label := hinventories.label
        operations := fun region hregion block hblock operation hoperation => ?_ }
    obtain ⟨index, hindex⟩ := List.mem_iff_getElem?.mp hblock
    obtain ⟨activeBlock, hactiveBlock, hchecked⟩ :=
      hoperations region hregion block index hindex operation hoperation
    rw [if_neg hname] at hactiveBlock
    obtain ⟨rfl, htargets⟩ := hactiveBlock
    obtain ⟨hnone, hcases⟩ := hinventories.operations region hregion block hblock operation hoperation
    obtain ⟨hlabel, -⟩ := hinventories.labels region hregion block hblock operation hoperation
    exact ⟨passed_of_checkOperation hid hchecked, hnone, hcases fun h => hname h.1, htargets, hlabel⟩

/-! ## What resolution leaves -/

/-- An operation of which attributes and types hold nothing but what one target sees. -/
structure ResolvedOperation (target : TargetInfo) (operation : Operation) : Prop where
  attributes : ConcreteAttributes target operation.attributes
  operands : ∀ value ∈ operation.operands, value.type.Concrete target.id
  results : ∀ value ∈ operation.results, value.type.Concrete target.id
  blocks : operation.attributes.get "block_domains" = none
  cases : operation.attributes.get "case_domains" = none

/-- A definition of which attributes and types hold nothing but what one target sees. -/
structure ResolvedDefinition (target : TargetInfo) (definition : Definition) : Prop where
  attributes : ConcreteAttributes target definition.attributes
  targets : definition.attributes.get "targets" = none
  blocks : definition.attributes.get "block_domains" = none
  cases : definition.attributes.get "case_domains" = none
  arguments : ∀ region ∈ definition.regions, ∀ block ∈ region.blocks,
    ∀ value ∈ block.arguments, value.type.Concrete target.id
  operations : ∀ region ∈ definition.regions, ∀ block ∈ region.blocks,
    ∀ operation ∈ block.operations, ResolvedOperation target operation

/-- A module of which attributes and types hold nothing but what one target sees. -/
structure ResolvedModule (target : TargetInfo) (module : Module) : Prop where
  attributes : ConcreteAttributes target module.attributes
  targets : module.attributes.get "sela.targets" = some (targetSet [target.id])
  blocks : module.attributes.get "block_domains" = none
  cases : module.attributes.get "case_domains" = none
  definitions : ∀ definition ∈ module.body, ResolvedDefinition target definition

/-- A module that holds nothing but what one target sees, and names its targets nowhere but on
itself. -/
structure ConcreteModule (target : TargetInfo) (module : Module) : Prop
    extends ResolvedModule target module where
  untargeted : module.attributes.get "targets" = none
  unlabelled : ∀ definition ∈ module.body, Unlabelled definition.attributes ∧
    ∀ region ∈ definition.regions, ∀ block ∈ region.blocks, ∀ operation ∈ block.operations,
      Unlabelled operation.attributes

theorem specializeValue_ok {target : TargetInfo} {value result : Value} :
    specializeValue target value = .ok result ↔
      specializeType target value.type = .ok result.type ∧ result.id = value.id := by
  rw [specializeValue, bind_ok]
  constructor
  · rintro ⟨type, htype, h⟩
    obtain rfl := Except.ok.inj h
    exact ⟨htype, rfl⟩
  · rintro ⟨htype, hid⟩
    exact ⟨result.type, htype, by rw [← hid]; rfl⟩

theorem specializeValues_of_concrete {target : TargetInfo} {values : List Value}
    (h : ∀ value ∈ values, value.type.Concrete target.id) :
    values.mapM (specializeValue target) = .ok values :=
  mapM_ok.mpr (List.forall₂_same.mpr fun value hvalue =>
    specializeValue_ok.mpr ⟨specializeType_of_concrete (h value hvalue), rfl⟩)

theorem specializeValues_concrete {target : TargetInfo} {values results : List Value}
    (hform : ∀ value ∈ values, value.type.WellFormed)
    (h : values.mapM (specializeValue target) = .ok results) :
    ∀ result ∈ results, result.type.Concrete target.id := fun result hresult => by
  obtain ⟨value, hvalue, hspecialized⟩ := exists_of_forall₂_right (mapM_ok.mp h) hresult
  exact specializeType_concrete (hform value hvalue) (specializeValue_ok.mp hspecialized).1

theorem specializeOperation_ok {target : TargetInfo} {operation result : Operation}
    (h : specializeOperation target operation = .ok result) :
    specializeAttributes target operation.attributes = .ok result.attributes ∧
      operation.results.mapM (specializeValue target) = .ok result.results ∧
      operation.operands.mapM (specializeValue target) = .ok result.operands ∧
      result.name = operation.name ∧ result.successors = operation.successors := by
  obtain ⟨attributes, hattributes, h⟩ := bind_ok.mp h
  obtain ⟨results, hresults, h⟩ := bind_ok.mp h
  obtain ⟨operands, hoperands, h⟩ := bind_ok.mp h
  obtain rfl := Except.ok.inj h
  exact ⟨hattributes, hresults, hoperands, rfl, rfl⟩

theorem specializeBlock_ok {target : TargetInfo} {block result : Block}
    (h : specializeBlock target block = .ok result) :
    block.operations.mapM (specializeOperation target) = .ok result.operations ∧
      block.arguments.mapM (specializeValue target) = .ok result.arguments ∧
      result.id = block.id := by
  obtain ⟨operations, hoperations, h⟩ := bind_ok.mp h
  obtain ⟨arguments, harguments, h⟩ := bind_ok.mp h
  obtain rfl := Except.ok.inj h
  exact ⟨hoperations, harguments, rfl⟩

theorem specializeRegion_ok {target : TargetInfo} {region result : Region} :
    specializeRegion target region = .ok result ↔
      region.blocks.mapM (specializeBlock target) = .ok result.blocks := by
  unfold specializeRegion
  split
  · simp [*]
  · rename_i blocks h
    obtain ⟨blocks', hnodup⟩ := result
    simp [h]

/-- The operation that becomes one of a resolved region, and its place. -/
theorem mem_resolved {target : TargetInfo} {regions results : List Region}
    (h : regions.mapM (specializeRegion target) = .ok results) {region' : Region}
    (hregion' : region' ∈ results) {block' : Block} {index : ℕ}
    (hindex : region'.blocks[index]? = some block') :
    ∃ region ∈ regions, ∃ block, region.blocks[index]? = some block ∧
      specializeBlock target block = .ok block' := by
  obtain ⟨region, hregion, hspecialized⟩ := exists_of_forall₂_right (mapM_ok.mp h) hregion'
  have hblocks := mapM_ok.mp (specializeRegion_ok.mp hspecialized)
  obtain ⟨block, hblock, hspecialized⟩ := forall₂_getElem? hblocks.flip hindex
  exact ⟨region, hregion, block, hblock, hspecialized⟩

/-- A resolved operation is concrete. -/
theorem specializeOperation_concrete {target : TargetInfo} (htarget : target ∈ targets.all)
    {operation result : Operation} (hform : operation.WellFormed)
    (hblocks : operation.attributes.get "block_domains" = none)
    (hcases : operation.attributes.get "case_domains" = none)
    (h : specializeOperation target operation = .ok result) : ResolvedOperation target result := by
  obtain ⟨hattributes, hresults, hoperands, -, -⟩ := specializeOperation_ok h
  exact
    { attributes := specializeAttributes_concrete htarget hform.attributes hattributes
      operands := specializeValues_concrete hform.operands hoperands
      results := specializeValues_concrete hform.results hresults
      blocks := (get_specializeAttributes_none hattributes _).mpr hblocks
      cases := (get_specializeAttributes_none hattributes _).mpr hcases }

/-- A concrete operation is its own resolution. -/
theorem specializeOperation_of_concrete {target : TargetInfo} {operation : Operation}
    (h : ResolvedOperation target operation) :
    specializeOperation target operation = .ok operation := by
  rw [specializeOperation, specializeAttributes_of_concrete h.attributes, ok_bind,
    specializeValues_of_concrete h.results, ok_bind, specializeValues_of_concrete h.operands]
  rfl

/-- A resolved definition is concrete. -/
theorem resolveDefinition_concrete {target : TargetInfo} (htarget : target ∈ targets.all)
    {declared : List String} {definition result : Definition}
    (hcut : CutDefinition declared target.id definition)
    (h : resolveDefinition target definition = .ok result) : ResolvedDefinition target result := by
  obtain ⟨regions, hregions, h⟩ := bind_ok.mp h
  obtain ⟨attributes, hattributes, h⟩ := bind_ok.mp h
  obtain rfl := Except.ok.inj h
  have hnone := get_specializeAttributes_none hattributes
  refine
    { attributes := specializeAttributes_concrete htarget (hcut.wellFormed.erase _) hattributes
      targets := (hnone _).mpr (Attributes.get_erase_self _ _)
      blocks := (hnone _).mpr (by
        rw [Attributes.get_erase_of_ne (by decide)]
        exact hcut.blocks)
      cases := (hnone _).mpr (by
        rw [Attributes.get_erase_of_ne (by decide)]
        exact hcut.cases)
      arguments := fun region' hregion' block' hblock' => ?_
      operations := fun region' hregion' block' hblock' operation' hoperation' => ?_ }
  all_goals
    obtain ⟨index, hindex⟩ := List.mem_iff_getElem?.mp hblock'
    obtain ⟨region, hregion, block, hblock, hspecialized⟩ := mem_resolved hregions hregion' hindex
    have hblock := List.mem_of_getElem? hblock
    obtain ⟨hoperations, harguments, -⟩ := specializeBlock_ok hspecialized
  · exact specializeValues_concrete (hcut.wellFormed.arguments region hregion block hblock) harguments
  · obtain ⟨operation, hoperation, hspecialized⟩ :=
      exists_of_forall₂_right (mapM_ok.mp hoperations) hoperation'
    obtain ⟨-, hblocks, hcases, -⟩ := hcut.operations region hregion block hblock operation hoperation
    exact specializeOperation_concrete htarget
      (hcut.wellFormed.operations region hregion block hblock operation hoperation) hblocks hcases
      hspecialized

/-- A concrete definition is its own resolution. -/
theorem resolveDefinition_of_concrete {target : TargetInfo} {definition : Definition}
    (h : ResolvedDefinition target definition) :
    resolveDefinition target definition = .ok definition := by
  have hregions : definition.regions.mapM (specializeRegion target) = .ok definition.regions := by
    refine mapM_ok.mpr (List.forall₂_same.mpr fun region hregion => specializeRegion_ok.mpr ?_)
    refine mapM_ok.mpr (List.forall₂_same.mpr fun block hblock => ?_)
    have hoperations : block.operations.mapM (specializeOperation target) = .ok block.operations :=
      mapM_ok.mpr (List.forall₂_same.mpr fun operation hoperation =>
        specializeOperation_of_concrete (h.operations region hregion block hblock operation hoperation))
    rw [specializeBlock, hoperations, ok_bind,
      specializeValues_of_concrete (h.arguments region hregion block hblock)]
    rfl
  rw [resolveDefinition, hregions, ok_bind, Attributes.erase_of_get h.targets,
    specializeAttributes_of_concrete h.attributes]
  rfl

/-! ## Resolution keeps the graph whole -/

/-- A list that is related to a joined one is itself joined, of segments as long. -/
theorem forall₂_flatten {α β : Type} {R : α → β → Prop} :
    ∀ {segments : List (List α)} {ys : List β}, List.Forall₂ R segments.flatten ys →
      ∃ segments' : List (List β), ys = segments'.flatten ∧
        segments'.map List.length = segments.map List.length
  | [], _, .nil => ⟨[], rfl, rfl⟩
  | segment :: segments, ys, h => by
    rw [List.flatten_cons] at h
    have hlength := h.length_eq
    have hrest := List.forall₂_drop segment.length h
    rw [List.drop_left] at hrest
    obtain ⟨segments', hsegments, hlengths⟩ := forall₂_flatten hrest
    refine ⟨ys.take segment.length :: segments', ?_, ?_⟩
    · rw [List.flatten_cons, ← hsegments, List.take_append_drop]
    · rw [List.length_append] at hlength
      rw [List.map_cons, hlengths, List.map_cons, List.length_take, min_eq_left (by omega)]

/-- The specialized attribute of a name. -/
theorem get_specializedFrom {target : TargetInfo} {name : String} {value : Attr} :
    ∀ {attributes results : Attributes},
      specializeAttributes target attributes = .ok results → attributes.get name = some value →
      ∃ value', results.get name = some value' ∧ ∃ raw, SpecializedFrom target (name, value) raw ∧
        specializeAttribute target (numericName name) raw = .ok value'
  | [], _, _, h => by simp at h
  | (n, a) :: attributes, results, h, hget => by
    rw [specializeAttributes, mapM_cons] at h
    obtain ⟨⟨m, b⟩, hentry, h⟩ := bind_ok.mp h
    obtain ⟨rest, hrest, h⟩ := bind_ok.mp h
    obtain rfl := Except.ok.inj h
    obtain ⟨hm, raw, hraw, hvalue⟩ := specializeEntry_ok hentry
    obtain rfl : m = n := hm
    rw [Attributes.get_cons] at hget ⊢
    split
    · rename_i hname
      subst hname
      rw [if_pos rfl] at hget
      obtain rfl := Option.some.inj hget
      exact ⟨b, rfl, raw, hraw, hvalue⟩
    · rename_i hname
      rw [if_neg hname] at hget
      exact get_specializedFrom hrest hget

theorem get_specializeAttributes {target : TargetInfo} {name : String} {value : Attr}
    {attributes results : Attributes} (hflags : name ≠ "sela.module_flags")
    (h : specializeAttributes target attributes = .ok results)
    (hget : attributes.get name = some value) :
    ∃ value', results.get name = some value' ∧
      specializeAttribute target (numericName name) value = .ok value' := by
  obtain ⟨value', hvalue', raw, hraw, hspecialized⟩ := get_specializedFrom h hget
  rw [SpecializedFrom, if_neg hflags] at hraw
  subst hraw
  exact ⟨value', hvalue', hspecialized⟩

/-- A plain switch is one once it is resolved. -/
theorem plainSwitch_specialized {target : TargetInfo} {operation result : Operation}
    (hplain : PlainSwitch operation) (h : specializeOperation target operation = .ok result) :
    PlainSwitch result := by
  obtain ⟨cases, arguments, selector, hcases, hcounts, hoperands, hresults, hsuccessors, hlength,
    hdomains⟩ := hplain
  obtain ⟨hattributes, hresults', hoperands', -, hsuccessors'⟩ := specializeOperation_ok h
  obtain ⟨value, hvalue, hspecialized⟩ := get_specializeAttributes (by decide) hattributes hcases
  obtain ⟨cases', rfl, hcases'⟩ := specializeAttribute_array hspecialized
  obtain ⟨counts, hcounts', hspecialized⟩ := get_specializeAttributes (by decide) hattributes hcounts
  rw [specializeAttribute_of_concrete (by simp [Attr.Concrete])] at hspecialized
  obtain rfl := Except.ok.inj hspecialized
  rw [hoperands] at hoperands'
  obtain ⟨selector', rest, -, hrest, hsplit⟩ := List.forall₂_cons_left_iff.mp (mapM_ok.mp hoperands')
  obtain ⟨arguments', rfl, hlengths⟩ := forall₂_flatten hrest
  have hcount : arguments'.length = arguments.length := by
    simpa using congrArg List.length hlengths
  have hkept := (mapM_ok.mp hcases').length_eq
  refine ⟨cases', arguments', selector', hvalue, ?_, hsplit, ?_, ?_, ?_, ?_⟩
  · rw [hcounts', show arguments'.map (fun segment => (segment.length : ℤ)) =
        (arguments'.map List.length).map (fun n : ℕ => (n : ℤ)) by rw [List.map_map]; rfl,
      hlengths, List.map_map]
    rfl
  · rw [hresults] at hresults'
    exact (Except.ok.inj hresults').symm
  · rw [hsuccessors', hsuccessors, hcount]
  · rw [hcount, ← hlength, hkept]
  · exact (get_specializeAttributes_none hattributes _).mpr hdomains

/-- The values a resolved block defines are those the block defined, resolved. -/
theorem mem_defined_specialized {target : TargetInfo} {block block' : Block} {value value' : Value}
    (h : specializeBlock target block = .ok block') (hvalue : specializeValue target value = .ok value')
    (hdefined : value ∈ block.defined) : value' ∈ block'.defined := by
  obtain ⟨hoperations, harguments, -⟩ := specializeBlock_ok h
  have hsame : ∀ {result}, specializeValue target value = .ok result → result = value' :=
    fun hresult => Except.ok.inj (hresult.symm.trans hvalue)
  rcases List.mem_append.mp hdefined with hargument | hresult
  · obtain ⟨result, hmem, hresult⟩ := exists_of_forall₂_left (mapM_ok.mp harguments) hargument
    exact List.mem_append_left _ (hsame hresult ▸ hmem)
  · obtain ⟨operation, hoperation, hresult⟩ := List.mem_flatMap.mp hresult
    obtain ⟨operation', hmem', hspecialized⟩ :=
      exists_of_forall₂_left (mapM_ok.mp hoperations) hoperation
    obtain ⟨result, hmem, hresult⟩ :=
      exists_of_forall₂_left (mapM_ok.mp (specializeOperation_ok hspecialized).2.1) hresult
    exact List.mem_append_right _ (List.mem_flatMap.mpr ⟨operation', hmem', hsame hresult ▸ hmem⟩)

theorem closed_specialized {target : TargetInfo} {blocks blocks' : List Block}
    (hclosed : Closed blocks) (h : blocks.mapM (specializeBlock target) = .ok blocks') :
    Closed blocks' := by
  intro block' hblock' operation' hoperation'
  obtain ⟨block, hblock, hspecialized⟩ := exists_of_forall₂_right (mapM_ok.mp h) hblock'
  obtain ⟨operation, hoperation, hoperation'⟩ :=
    exists_of_forall₂_right (mapM_ok.mp (specializeBlock_ok hspecialized).1) hoperation'
  obtain ⟨-, -, hoperands, -, hsuccessors⟩ := specializeOperation_ok hoperation'
  obtain ⟨hclosedSuccessors, hclosedOperands⟩ := hclosed block hblock operation hoperation
  refine ⟨fun successor hsuccessor => ?_, fun operand' hoperand' => ?_⟩
  · rw [map_id_specializeBlock h]
    exact hclosedSuccessors successor (hsuccessors ▸ hsuccessor)
  · obtain ⟨operand, hoperand, hvalue⟩ := exists_of_forall₂_right (mapM_ok.mp hoperands) hoperand'
    obtain ⟨owner, howner, hdefined⟩ := hclosedOperands operand hoperand
    obtain ⟨owner', howner', hspecialized⟩ := exists_of_forall₂_left (mapM_ok.mp h) howner
    exact ⟨owner', howner', mem_defined_specialized hspecialized hvalue hdefined⟩

/-- A resolved definition is whole for its target. -/
theorem resolveDefinition_whole {target : TargetInfo} {definition result : Definition}
    (hwhole : Whole definition) (h : resolveDefinition target definition = .ok result) :
    Whole result := by
  obtain ⟨regions, hregions, h⟩ := bind_ok.mp h
  obtain ⟨attributes, hattributes, h⟩ := bind_ok.mp h
  obtain rfl := Except.ok.inj h
  intro hname
  obtain ⟨region, hregion, hclosed, hplain⟩ := hwhole hname
  rw [hregion] at hregions
  obtain ⟨region', rest, hspecialized, hrest, rfl⟩ :=
    List.forall₂_cons_left_iff.mp (mapM_ok.mp hregions)
  obtain rfl := List.forall₂_nil_left_iff.mp hrest
  have hblocks := specializeRegion_ok.mp hspecialized
  refine ⟨region', rfl, closed_specialized hclosed hblocks,
    fun block' hblock' operation' hoperation' => ?_⟩
  obtain ⟨block, hblock, hspecialized⟩ := exists_of_forall₂_right (mapM_ok.mp hblocks) hblock'
  obtain ⟨operation, hoperation, hspecialized⟩ :=
    exists_of_forall₂_right (mapM_ok.mp (specializeBlock_ok hspecialized).1) hoperation'
  obtain ⟨hsorted, hswitch⟩ := hplain block hblock operation hoperation
  obtain ⟨hattributes, -, -, hname, -⟩ := specializeOperation_ok hspecialized
  exact ⟨sorted_specializeAttributes hattributes hsorted, fun hswitchName =>
    plainSwitch_specialized (hswitch (hname ▸ hswitchName)) hspecialized⟩

/-! ## Verification of the specialized module -/

theorem definitionTargets_of_none {declared : List String} {definition : Definition}
    (h : definition.attributes.get "targets" = none) :
    definitionTargets declared definition = .ok declared := by
  rw [definitionTargets, h]
  rfl

theorem blockTargets_of_none {active : List String} {definition : Definition} {index : ℕ}
    (h : definition.attributes.get "block_domains" = none) :
    blockTargets definition active index = .ok active := by
  rw [blockTargets, h]
  rfl

theorem resolved_argumentTypes {target : TargetInfo} {definition result : Definition}
    (h : resolveDefinition target definition = .ok result) :
    List.Forall₂ (fun type type' => specializeType target type = .ok type')
      definition.argumentTypes result.argumentTypes := by
  obtain ⟨regions, hregions, h⟩ := bind_ok.mp h
  obtain ⟨attributes, -, h⟩ := bind_ok.mp h
  obtain rfl := Except.ok.inj h
  refine forall₂_flatMap ((mapM_ok.mp hregions).imp fun region region' hregion => ?_)
  refine forall₂_flatMap ((mapM_ok.mp (specializeRegion_ok.mp hregion)).imp
    fun block block' hblock => ?_)
  refine List.forall₂_map_left_iff.mpr (List.forall₂_map_right_iff.mpr ?_)
  exact (mapM_ok.mp (specializeBlock_ok hblock).2.1).imp fun value value' hvalue =>
    (specializeValue_ok.mp hvalue).1

/-- A resolved definition passes for its target. -/
theorem resolveDefinition_verified {target : TargetInfo} (htarget : target ∈ targets.all)
    {declared : List String} {definition result : Definition}
    (hcut : CutDefinition declared target.id definition)
    (h : resolveDefinition target definition = .ok result) :
    verifyDefinition [target.id] result = .ok () := by
  have hconcrete := resolveDefinition_concrete htarget hcut h
  have htypes := resolved_argumentTypes h
  obtain ⟨regions, hregions, h⟩ := bind_ok.mp h
  obtain ⟨attributes, hattributes, h⟩ := bind_ok.mp h
  obtain rfl := Except.ok.inj h
  refine verifyDefinition_ok.mpr ⟨fun region' hregion' block' index hindex operation' hoperation' => ?_,
    [target.id], definitionTargets_of_none hconcrete.targets, ?_⟩
  · obtain ⟨region, hregion, block, hblock, hspecialized⟩ := mem_resolved hregions hregion' hindex
    have hblock := List.mem_of_getElem? hblock
    obtain ⟨operation, hoperation, hspecialized⟩ :=
      exists_of_forall₂_right (mapM_ok.mp (specializeBlock_ok hspecialized).1) hoperation'
    obtain ⟨hpassed, hblocks, hcases, htargets⟩ :=
      hcut.operations region hregion block hblock operation hoperation
    have hform := hcut.wellFormed.operations region hregion block hblock operation hoperation
    obtain ⟨hattributes', hresults, -, -, -⟩ := specializeOperation_ok hspecialized
    refine ⟨[target.id], ?_, hpassed.checkOperation htarget hform.attributes ?_ hattributes' ?_ hblocks
      hcases⟩
    · split
      · exact ⟨_, definitionTargets_of_none hconcrete.targets, blockTargets_of_none hconcrete.blocks⟩
      · rename_i hname
        exact ⟨rfl, (get_specializeAttributes_none hattributes' _).mpr htargets.1⟩
    · intro type htype
      obtain ⟨value, hvalue, rfl⟩ := List.mem_map.mp htype
      exact hform.results value hvalue
    · refine List.forall₂_map_left_iff.mpr (List.forall₂_map_right_iff.mpr ?_)
      exact (mapM_ok.mp hresults).imp fun value value' hvalue => (specializeValue_ok.mp hvalue).1
  · refine (hcut.passed.subset (fun _ => Attributes.mem_erase) fun _ h => h).checkOperation htarget
      (hcut.wellFormed.erase _) ?_ hattributes htypes ?_ ?_
    · intro type htype
      obtain ⟨region, hregion, block, hblock, value, hvalue, rfl⟩ := mem_argumentTypes.mp htype
      exact hcut.wellFormed.arguments region hregion block hblock value hvalue
    · rw [Attributes.get_erase_of_ne (by decide)]
      exact hcut.blocks
    · rw [Attributes.get_erase_of_ne (by decide)]
      exact hcut.cases

theorem verifyTargetDomains_ok {module : Module} :
    verifyTargetDomains module = .ok () ↔ ∃ declared, declaredTargets module = .ok declared ∧
      (∀ raw, module.attributes.get "sela.module_flags" = some raw →
        ∃ flags, raw = .array flags ∧ ∀ flag ∈ flags, checkFlag declared flag = .ok ()) ∧
      (∀ definition ∈ module.body, verifyDefinition declared definition = .ok ()) ∧
      module.attributes.get "targets" = none ∧
      checkOperation declared declared module.attributes [] = .ok () := by
  unfold verifyTargetDomains
  rw [bind_ok]
  refine exists_congr fun declared => and_congr_right fun _ => ?_
  have hrest : (do
      module.body.forM fun definition => verifyDefinition declared definition
      ensure (module.attributes.get "targets" = none)
        "target availability requires a top-level definition"
      checkOperation declared declared module.attributes []) = .ok () ↔
      (∀ definition ∈ module.body, verifyDefinition declared definition = .ok ()) ∧
        module.attributes.get "targets" = none ∧
        checkOperation declared declared module.attributes [] = .ok () := by
    rw [bind_ok]
    constructor
    · rintro ⟨_, hbody, h⟩
      obtain ⟨_, htargets, h⟩ := bind_ok.mp h
      exact ⟨forM_ok.mp hbody, ensure_ok.mp htargets, h⟩
    · rintro ⟨hbody, htargets, h⟩
      exact ⟨(), forM_ok.mpr hbody, bind_ok.mpr ⟨(), ensure_ok.mpr htargets, h⟩⟩
  cases hflags : module.attributes.get "sela.module_flags" with
  | none => simpa using hrest
  | some raw =>
    simp only []
    constructor
    · intro h
      obtain ⟨flags, hraw, h⟩ := bind_ok.mp h
      obtain ⟨_, hchecked, h⟩ := bind_ok.mp h
      refine ⟨fun raw' hraw' => ?_, hrest.mp h⟩
      obtain rfl := Option.some.inj hraw'
      exact ⟨flags, by simpa using hraw, forM_ok.mp hchecked⟩
    · rintro ⟨hchecked, h⟩
      obtain ⟨flags, rfl, hflag⟩ := hchecked raw rfl
      exact bind_ok.mpr ⟨flags, rfl, bind_ok.mpr ⟨(), forM_ok.mpr hflag, hrest.mpr h⟩⟩

/-- A flag that passed for several targets passes, once specialized, for its target. -/
theorem checkFlag_specialized {target : TargetInfo} (htarget : target ∈ targets.all)
    {numeric : Bool} {declared : List String} {record fields : Attributes}
    (hform : (Attr.dictionary record).WellFormed)
    (hchecked : checkFlag declared (.dictionary record) = .ok ())
    (hhas : hasFlag target (.dictionary record) = true)
    (h : specializeAttribute target numeric (labelFlag target (.dictionary record)) =
      .ok (.dictionary fields))
    (hlabel : fields.get "targets" = some (targetSet [target.id]))
    (hnames : fields.map Prod.fst = record.map Prod.fst) :
    checkFlag [target.id] (.dictionary fields) = .ok () := by
  simp only [checkFlag, Attr.asDictionary?] at hchecked ⊢
  obtain ⟨_, hfields, hchecked⟩ := bind_ok.mp hchecked
  obtain ⟨present, hpresent, hchecked⟩ := bind_ok.mp hchecked
  obtain ⟨hlength, hname, hbehavior, hvalue⟩ := ensure_ok.mp hfields
  have hin : target.id ∈ present := by
    obtain ⟨htargets, -⟩ := checkSet_ok hpresent
    simpa [hasFlag, htargets] using hhas
  have hsome : ∀ name, (record.get name).isSome → (fields.get name).isSome := by
    intro name h
    rw [← Option.ne_none_iff_isSome] at h ⊢
    rwa [ne_eq, Attributes.get_eq_none_iff, hnames, ← Attributes.get_eq_none_iff]
  have hcount : fields.length = record.length := by simpa using congrArg List.length hnames
  refine bind_ok.mpr ⟨(), ensure_ok.mpr ⟨hcount.trans hlength, hsome _ hname, hsome _ hbehavior,
    hsome _ hvalue⟩, ?_⟩
  rw [hlabel, checkSet_targetSet, ok_bind]
  exact checkAttribute_specialized htarget (labelFlag_wellFormed hform) hin
    (checkAttribute_labelFlag hhas hchecked) h

/-- An attribute that mentions no type and passes may stand in the place of another. -/
theorem checkOperation_set {declared active : List String} {attributes : Attributes}
    {types : List SelaType} {name : String} {value : Attr} (hvalue : value.mentioned = [])
    (hcheck : checkAttribute 65 active value = .ok ()) (hblock : name ≠ "block_domains")
    (hcase : name ≠ "case_domains")
    (h : checkOperation declared active attributes types = .ok ()) :
    checkOperation declared active (attributes.set name value) types = .ok () := by
  unfold checkOperation at h ⊢
  obtain ⟨_, hattributes, h⟩ := bind_ok.mp h
  obtain ⟨_, hdomains, h⟩ := bind_ok.mp h
  obtain ⟨_, htypes, h⟩ := bind_ok.mp h
  refine bind_ok.mpr ⟨(), forM_ok.mpr fun entry hentry => ?_, bind_ok.mpr ⟨(), forM_ok.mpr
    fun other hother => ?_, bind_ok.mpr ⟨(), htypes, forM_ok.mpr fun type htype => ?_⟩⟩⟩
  · rcases Attributes.mem_set hentry with rfl | hentry
    · exact hcheck
    · exact forM_ok.mp hattributes entry hentry
  · have hne : name ≠ other := by
      simp only [List.mem_cons, List.not_mem_nil, or_false] at hother
      rcases hother with rfl | rfl
      · exact hblock
      · exact hcase
    rw [Attributes.get_set_of_ne _ hne]
    exact forM_ok.mp hdomains other hother
  · rw [entriesMentioned_eq] at htype
    obtain ⟨entry, hentry, htype⟩ := List.mem_flatMap.mp htype
    rcases Attributes.mem_set hentry with rfl | hentry
    · simp [hvalue] at htype
    · refine forM_ok.mp h type ?_
      rw [entriesMentioned_eq]
      exact List.mem_flatMap.mpr ⟨entry, hentry, htype⟩

theorem declaredTargets_single {target : TargetInfo} (htarget : target ∈ targets.all)
    {module : Module}
    (h : module.attributes.get "sela.targets" = some (targetSet [target.id])) :
    declaredTargets module = .ok [target.id] := by
  simp [declaredTargets, h, targetSet, Attr.asArray?, targets.find_of_mem target htarget, ensure]

/-- A verified module that is cut to a target. -/
structure CutModule (declared : List String) (target : TargetInfo) (module : Module) : Prop where
  wellFormed : (Attr.dictionary module.attributes).WellFormed
  flags : ∀ raw, module.attributes.get "sela.module_flags" = some raw →
    ∃ flags, raw = .array flags ∧ ∀ flag ∈ flags, checkFlag declared flag = .ok ()
  passed : Passed declared target.id module.attributes []
  targets : module.attributes.get "targets" = none
  blocks : module.attributes.get "block_domains" = none
  cases : module.attributes.get "case_domains" = none
  definitions : ∀ definition ∈ module.body, CutDefinition declared target.id definition

/-- A resolved module is concrete. -/
theorem resolveModule_concrete {target : TargetInfo} (htarget : target ∈ targets.all)
    {declared : List String} {module result : Module} (hcut : CutModule declared target module)
    (h : resolveModule target module = .ok result) : ResolvedModule target result := by
  obtain ⟨body, hbody, h⟩ := bind_ok.mp h
  obtain ⟨attributes, hattributes, h⟩ := bind_ok.mp h
  obtain rfl := Except.ok.inj h
  have hconcrete := specializeAttributes_concrete htarget hcut.wellFormed hattributes
  have hnone := get_specializeAttributes_none hattributes
  refine
    { attributes := ⟨fun entry hentry => ?_, fun entry hentry hname => ?_⟩
      targets := Attributes.get_set_self _ _ _
      blocks := by
        rw [Attributes.get_set_of_ne _ (by decide)]
        exact (hnone _).mpr hcut.blocks
      cases := by
        rw [Attributes.get_set_of_ne _ (by decide)]
        exact (hnone _).mpr hcut.cases
      definitions := fun definition' hdefinition' => ?_ }
  · rcases Attributes.mem_set hentry with rfl | hentry
    · exact targetSet_concrete htarget _
    · exact hconcrete.concrete entry hentry
  · rcases Attributes.mem_set hentry with rfl | hentry
    · exact absurd hname (by simp)
    · exact hconcrete.flags entry hentry hname
  · obtain ⟨definition, hdefinition, hresolved⟩ :=
      exists_of_forall₂_right (mapM_ok.mp hbody) hdefinition'
    exact resolveDefinition_concrete htarget (hcut.definitions definition hdefinition) hresolved

/-- A concrete module is its own resolution. -/
theorem resolveModule_of_concrete {target : TargetInfo} {module : Module}
    (hsorted : module.attributes.Sorted) (h : ResolvedModule target module) :
    resolveModule target module = .ok module := by
  have hbody : module.body.mapM (resolveDefinition target) = .ok module.body :=
    mapM_ok.mpr (List.forall₂_same.mpr fun definition hdefinition =>
      resolveDefinition_of_concrete (h.definitions definition hdefinition))
  rw [resolveModule, hbody, ok_bind, specializeAttributes_of_concrete h.attributes, ok_bind,
    Attributes.set_of_get hsorted h.targets]
  rfl

/-- A resolved module passes for its target. -/
theorem resolveModule_verified {target : TargetInfo} (htarget : target ∈ targets.all)
    {declared : List String} {module result : Module} (hcut : CutModule declared target module)
    (h : resolveModule target module = .ok result) : verifyTargetDomains result = .ok () := by
  have hconcrete := resolveModule_concrete htarget hcut h
  obtain ⟨body, hbody, h⟩ := bind_ok.mp h
  obtain ⟨attributes, hattributes, h⟩ := bind_ok.mp h
  obtain rfl := Except.ok.inj h
  have hnone := get_specializeAttributes_none hattributes
  refine verifyTargetDomains_ok.mpr ⟨[target.id], declaredTargets_single htarget hconcrete.targets,
    fun raw hraw => ?_, fun definition' hdefinition' => ?_, ?_, ?_⟩
  · rw [Attributes.get_set_of_ne _ (by decide)] at hraw
    have hmem := Attributes.mem_of_get hraw
    obtain ⟨entry, hentry, hname, kept, hkept, hspecialized⟩ :=
      exists_of_forall₂_right (specializeAttributes_ok hattributes) hmem
    have hname : "sela.module_flags" = entry.1 := hname
    rw [SpecializedFrom, if_pos hname.symm] at hkept
    have hsource : module.attributes.get "sela.module_flags" = some entry.2 :=
      Attributes.Sorted.get_of_mem hcut.wellFormed.1 (hname ▸ hentry)
    have hform := entriesWellFormed_iff.mp hcut.wellFormed.2 entry hentry
    obtain ⟨flags, hflags, hchecked⟩ := hcut.flags _ hsource
    obtain ⟨flags', values, hflags', hvalues, hfrom⟩ :=
      mem_keepFlags_specialized htarget hform hkept hspecialized
    obtain rfl : flags = flags' := by simpa [hflags] using hflags'
    refine ⟨values, hvalues, fun value hvalue => ?_⟩
    obtain ⟨record, fields, hmem, hhas, hspecialized, rfl, hlabel, hnames⟩ := hfrom value hvalue
    rw [hflags] at hform
    exact checkFlag_specialized htarget (attrsWellFormed_iff.mp hform _ hmem) (hchecked _ hmem) hhas
      hspecialized hlabel hnames
  · obtain ⟨definition, hdefinition, hresolved⟩ :=
      exists_of_forall₂_right (mapM_ok.mp hbody) hdefinition'
    exact resolveDefinition_verified htarget (hcut.definitions definition hdefinition) hresolved
  · rw [Attributes.get_set_of_ne _ (by decide)]
    exact (hnone _).mpr hcut.targets
  · exact checkOperation_set (mentioned_targetSet _) rfl (by decide) (by decide)
      (hcut.passed.checkOperation htarget hcut.wellFormed (by simp) hattributes .nil hcut.blocks
        hcut.cases)

theorem Unlabelled.specialized {target : TargetInfo} {attributes results : Attributes}
    (h : Unlabelled attributes) (hresults : specializeAttributes target attributes = .ok results) :
    Unlabelled results :=
  ⟨(get_specializeAttributes_none hresults _).mpr h.1,
    (get_specializeAttributes_none hresults _).mpr h.2⟩

/-- Nothing in a resolved definition names targets. -/
theorem resolveDefinition_unlabelled {target : TargetInfo} {declared : List String}
    {definition result : Definition} (hcut : CutDefinition declared target.id definition)
    (h : resolveDefinition target definition = .ok result) :
    Unlabelled result.attributes ∧ ∀ region ∈ result.regions, ∀ block ∈ region.blocks,
      ∀ operation ∈ block.operations, Unlabelled operation.attributes := by
  obtain ⟨regions, hregions, h⟩ := bind_ok.mp h
  obtain ⟨attributes, hattributes, h⟩ := bind_ok.mp h
  obtain rfl := Except.ok.inj h
  have herased : Unlabelled (definition.attributes.erase "targets") := by
    refine ⟨Attributes.get_erase_self _ _, ?_⟩
    rw [Attributes.get_erase_of_ne (by decide)]
    exact hcut.label
  refine ⟨herased.specialized hattributes, ?_⟩
  intro region' hregion' block' hblock' operation' hoperation'
  obtain ⟨index, hindex⟩ := List.mem_iff_getElem?.mp hblock'
  obtain ⟨region, hregion, block, hblock, hspecialized⟩ := mem_resolved hregions hregion' hindex
  have hblock := List.mem_of_getElem? hblock
  obtain ⟨operation, hoperation, hspecialized⟩ :=
    exists_of_forall₂_right (mapM_ok.mp (specializeBlock_ok hspecialized).1) hoperation'
  obtain ⟨-, -, -, hlabels⟩ := hcut.operations region hregion block hblock operation hoperation
  exact hlabels.specialized (specializeOperation_ok hspecialized).1

/-- A resolved module names its targets nowhere but on itself. -/
theorem resolveModule_unlabelled {target : TargetInfo} {declared : List String}
    {module result : Module} (hcut : CutModule declared target module)
    (h : resolveModule target module = .ok result) :
    result.attributes.get "targets" = none ∧
    ∀ definition ∈ result.body, Unlabelled definition.attributes ∧
      ∀ region ∈ definition.regions, ∀ block ∈ region.blocks, ∀ operation ∈ block.operations,
        Unlabelled operation.attributes := by
  obtain ⟨body, hbody, h⟩ := bind_ok.mp h
  obtain ⟨attributes, hattributes, h⟩ := bind_ok.mp h
  obtain rfl := Except.ok.inj h
  refine ⟨?_, fun definition' hdefinition' => ?_⟩
  · rw [Attributes.get_set_of_ne _ (by decide)]
    exact (get_specializeAttributes_none hattributes _).mpr hcut.targets
  · obtain ⟨definition, hdefinition, hresolved⟩ :=
      exists_of_forall₂_right (mapM_ok.mp hbody) hdefinition'
    exact resolveDefinition_unlabelled (hcut.definitions definition hdefinition) hresolved

/-! ## Specialization is complete and idempotent -/

/-- The module flags of the result are those the target has, in order. -/
def KeepsOwnFlags (target : TargetInfo) (source result : Module) : Prop :=
  ∀ raw, source.attributes.get "sela.module_flags" = some raw → ∃ flags values,
    raw = .array flags ∧ result.attributes.get "sela.module_flags" = some (.array values) ∧
    List.Forall₂ (fun flag value =>
        specializeAttribute target false (labelFlag target flag) = .ok value)
      (flags.filter (hasFlag target)) values

/-- The alternatives of a specialized overlap are those the target has, in order. -/
def KeepsOwnAlternatives (target : TargetInfo) : Prop :=
  ∀ identity alternatives domains result,
    specializeType target (.overlap identity alternatives domains) = .ok result → ∃ kept,
      result = .overlap identity kept (kept.map fun _ => targetSet [target.id]) ∧
      List.Forall₂ (fun entry type => specializeType target entry.1 = .ok type)
        ((alternatives.zip domains).filter (containsTarget ·.2 target.id)) kept

theorem specializeType_ownAlternatives (target : TargetInfo) : KeepsOwnAlternatives target := by
  intro identity alternatives domains result h
  rw [specializeType_overlap] at h
  split at h
  · simp at h
  · obtain ⟨kept, hkept, h⟩ := bind_ok.mp h
    split at h
    · simp at h
    · exact ⟨kept, (Except.ok.inj h).symm, mapM_ok.mp hkept⟩

theorem resolveModule_ownFlags {target : TargetInfo} {source result : Module}
    (h : resolveModule target source = .ok result) : KeepsOwnFlags target source result := by
  intro raw hraw
  obtain ⟨body, -, h⟩ := bind_ok.mp h
  obtain ⟨attributes, hattributes, h⟩ := bind_ok.mp h
  obtain rfl := Except.ok.inj h
  obtain ⟨value, hvalue, kept, hkept, hspecialized⟩ := get_specializedFrom hattributes hraw
  rw [SpecializedFrom, if_pos rfl] at hkept
  obtain ⟨flags, hflags, rfl⟩ := keepFlags_ok hkept
  obtain rfl : raw = .array flags := hflags
  obtain ⟨values, rfl, hvalues⟩ := specializeAttribute_array hspecialized
  refine ⟨flags, values, rfl, by rwa [Attributes.get_set_of_ne _ (by decide)], ?_⟩
  exact List.forall₂_map_left_iff.mp (mapM_ok.mp hvalues)

/-- What the conditional cut leaves of a verified module. -/
theorem cutModule_of_specializeFunction {declared : List String} {target : TargetInfo}
    {source : Module} {body : List Definition} (hform : source.WellFormed)
    (hinventories : DomainInventories source) (hdeclared : declaredTargets source = .ok declared)
    (hin : target.id ∈ declared) (hverified : verifyTargetDomains source = .ok ())
    (hbody : (source.body.filter (presentFor target.id)).mapM
      (specializeFunction declared target.id) = .ok body) :
    CutModule declared target { source with body } := by
  obtain ⟨declared', hdeclared', hflags, hdefinitions, htargets, hself⟩ :=
    verifyTargetDomains_ok.mp hverified
  obtain rfl : declared = declared' := Except.ok.inj (hdeclared.symm.trans hdeclared')
  refine
    { wellFormed := hform.attributes
      flags := hflags
      passed := passed_of_checkOperation hin hself
      targets := htargets
      blocks := hinventories.blocks
      cases := hinventories.cases
      definitions := fun definition' hdefinition' => ?_ }
  obtain ⟨definition, hdefinition, hcut⟩ := exists_of_forall₂_right (mapM_ok.mp hbody) hdefinition'
  obtain ⟨hmem, hpresent⟩ := List.mem_filter.mp hdefinition
  exact specializeFunction_cut hin (hform.definitions definition hmem)
    (hinventories.definitions definition hmem) hpresent (hdefinitions definition hmem) hcut

/-- A concrete module that passes its checks and is whole is specialized to an equal copy. -/
theorem exec_specializeDomains_of_concrete {verify : Module → Bool} {source : ℕ}
    {target : TargetInfo} (htarget : target ∈ targets.all) {context : Context}
    (hconcrete : ResolvedModule target (context.modules source))
    (hsorted : (context.modules source).attributes.Sorted)
    (hverified : verifyTargetDomains (context.modules source) = .ok ())
    (hwhole : ∀ definition ∈ (context.modules source).body, Whole definition)
    (hverify : verify (context.modules source) = true) :
    ∃ result context', exec (specializeDomains verify source target) context =
      (.ok result, context') ∧ context'.modules result = context.modules source := by
  have hdeclared := declaredTargets_single htarget hconcrete.targets
  have hpresent : (context.modules source).body.filter (presentFor target.id) =
      (context.modules source).body := by
    refine List.filter_eq_self.mpr fun definition hdefinition => ?_
    rw [presentFor, (hconcrete.definitions definition hdefinition).targets]
  have hbody : (context.modules source).body.mapM (specializeFunction [target.id] target.id) =
      .ok (context.modules source).body :=
    mapM_ok.mpr (List.forall₂_same.mpr fun definition hdefinition =>
      specializeFunction_of_whole (hwhole definition hdefinition)
        (hconcrete.definitions definition hdefinition).targets
        (hconcrete.definitions definition hdefinition).blocks)
  obtain ⟨selected, middle, hcut, hcopy⟩ := exec_specializeConditionalCFG_of_ok hdeclared
    (List.mem_singleton_self _) hverified hpresent hbody hverify
  refine ⟨selected, ⟨Function.update middle.modules selected (context.modules source), middle.next⟩,
    ?_, Function.update_self _ _ _⟩
  unfold specializeDomains
  rw [exec_readModule_bind, hdeclared, exec_check_bind]
  simp only
  rw [exec_check_bind, (ensure_ok (u := ())).mpr (List.mem_singleton_self _)]
  simp only
  rw [exec_bind, hcut]
  simp only
  rw [exec_readModule_bind, hcopy, resolveModule_of_concrete hsorted hconcrete, exec_check_bind]
  simp only
  rw [exec_editModule_bind, exec_check_bind, (ensure_ok (u := ())).mpr hverify]
  rfl

/-- A module with a module flag, an overlap alternative, a word and a switch case of one
target or the other. -/
def qualifiedModule : Module where
  attributes :=
    [("sela.module_flags", .array [.dictionary [("behavior", .integer 32 1), ("name", .string "wide"),
        ("targets", targetSet ["x86_64"]), ("value", .integer 32 1)],
      .dictionary [("behavior", .integer 32 1), ("name", .string "narrow"),
        ("targets", targetSet ["i686"]), ("value", .integer 32 2)]]),
      ("sela.targets", targetSet ["x86_64", "i686"])]
  body :=
    [{ name := "sela.func"
       attributes := [("block_domains", .array [targetSet ["x86_64", "i686"],
          targetSet ["x86_64", "i686"], targetSet ["x86_64"]])]
       regions := [⟨[⟨0, [⟨0, .overlap "r0" [.f64, .word] [targetSet ["x86_64"], targetSet ["i686"]]⟩],
          [⟨"sela.constant", [("value", .dictionary [("target_cases", .array
              [.dictionary [("targets", targetSet ["x86_64"]), ("value", .integer 64 8)],
                .dictionary [("targets", targetSet ["i686"]), ("value", .string "pointer_bytes")]])])],
              [], [⟨1, .word⟩], []⟩,
            ⟨"sela.switch", [("argument_counts", .denseI32 [0, 0]),
                ("case_domains", .array [targetSet ["x86_64"]]), ("cases", .array [.integer 64 8])],
              [⟨1, .word⟩], [], [1, 2]⟩]⟩,
          ⟨1, [], [⟨"sela.return", [], [], [], []⟩]⟩,
          ⟨2, [], [⟨"sela.br", [], [], [], [1]⟩]⟩], by decide⟩] }]

theorem qualifiedModule_wellFormed : qualifiedModule.WellFormed where
  attributes := by
    simp only [qualifiedModule, Attr.WellFormed, entriesWellFormed, attrsWellFormed, targetSet,
      List.map_cons, List.map_nil, and_true]
    decide
  definitions := by
    intro definition hdefinition
    obtain rfl := List.mem_singleton.mp hdefinition
    constructor
    · simp [Attr.WellFormed, entriesWellFormed, attrsWellFormed, targetSet, Attributes.Sorted]
    · simp [SelaType.WellFormed, typesWellFormed, attrsWellFormed, Attr.WellFormed, targetSet]
    · simp only [List.mem_singleton, forall_eq]
      intro block hblock
      simp only [List.mem_cons, List.not_mem_nil, or_false] at hblock
      rcases hblock with rfl | rfl | rfl
      · simp only [List.mem_cons, List.not_mem_nil, or_false, forall_eq_or_imp, forall_eq]
        refine ⟨⟨?_, ?_, ?_⟩, ⟨?_, ?_, ?_⟩⟩ <;>
          simp [-String.lt_iff_ltb, Attr.WellFormed, entriesWellFormed, attrsWellFormed, targetSet,
            Attributes.Sorted, SelaType.WellFormed]
      all_goals
        simp only [List.mem_singleton, forall_eq]
        refine ⟨?_, ?_, ?_⟩ <;> simp [Attr.WellFormed, entriesWellFormed, Attributes.Sorted]

theorem qualifiedModule_inventories : DomainInventories qualifiedModule where
  blocks := by decide
  cases := by decide
  definitions := by
    intro definition hdefinition
    obtain rfl := List.mem_singleton.mp hdefinition
    exact ⟨by decide, by decide, by decide, by decide, by decide⟩

/-- A module that carries case domains on an operation other than a switch, and targets on an
operation of a function. -/
def strayDomains : Module where
  attributes := [("sela.targets", targetSet ["x86_64", "i686"])]
  body :=
    [{ name := "sela.func"
       attributes := []
       regions := [⟨[⟨0, [], [⟨"sela.call", [("targets", targetSet ["x86_64", "i686"])], [], [], []⟩,
          ⟨"sela.return", [("case_domains", .array [targetSet ["x86_64", "i686"]])], [], [], []⟩]⟩],
        by decide⟩] }]

end Sela
