import Mathlib.Data.Set.List
import Sela.Choices

/-!
# The admission of a module

`verifyModuleStructure` checks a module's domains and takes the view of each of its targets.
After that every choice of the module is unambiguous and covers the targets that see it
(`verifyModuleStructure_choices`) : those that have the definition, the block and the edge it
stands in (`Module.Holds`).
-/

namespace Sela

open Checked Stateful

/-! ## The places of a module -/

/-- A block of a module, the targets it was checked for and those that see it. (Only functions
divide their blocks among their targets.) -/
def Module.HasBlock (module : Module) (declared checked seen : List String) (block : Block) : Prop :=
  ∃ definition ∈ module.body, ∃ region ∈ definition.regions, ∃ (index : ℕ) (whole : List String),
    region.blocks[index]? = some block ∧ definitionTargets declared definition = .ok whole ∧
    if definition.name = "sela.func" then
      blockTargets definition whole index = .ok checked ∧ seen = checked
    else checked = declared ∧ seen = whole

/-- A place of a module, the targets it was checked for and those that see it. The module flags
are seen record by record, the label of a switch by the targets of its edge. -/
inductive Module.Holds (module : Module) (declared : List String) :
    List String → List String → Content → Prop
  | flag {flags : List Attr} {record : Attributes} {ids : List String} {name : String} {value : Attr}
    (hflags : module.attributes.get "sela.module_flags" = some (.array flags))
    (hmem : .dictionary record ∈ flags) (hids : record.get "targets" = some (targetSet ids))
    (hname : name ≠ "targets") (hvalue : record.get name = some value) :
    Holds module declared ids ids (.attribute .value value)
  | module {name : String} {value : Attr} (hname : name ≠ "sela.module_flags")
    (hvalue : module.attributes.get name = some value) :
    Holds module declared declared declared (.attribute .value value)
  | definition {definition : Definition} {active : List String} {name : String} {value : Attr}
    (hmem : definition ∈ module.body) (hactive : definitionTargets declared definition = .ok active)
    (hname : name ≠ "sela.module_flags") (hvalue : definition.attributes.get name = some value) :
    Holds module declared active active (.attribute .value value)
  | argument {checked seen : List String} {block : Block} {argument : Value}
    (hblock : module.HasBlock declared checked seen block) (hmem : argument ∈ block.arguments) :
    Holds module declared declared seen (.type argument.type)
  | result {checked seen : List String} {block : Block} {operation : Operation} {result : Value}
    (hblock : module.HasBlock declared checked seen block) (hoperation : operation ∈ block.operations)
    (hmem : result ∈ operation.results) :
    Holds module declared declared seen (.type result.type)
  | entry {checked seen : List String} {block : Block} {operation : Operation} {name : String}
    {value : Attr} (hblock : module.HasBlock declared checked seen block)
    (hoperation : operation ∈ block.operations) (hname : name ≠ "sela.module_flags")
    (hswitch : operation.name = "sela.switch" → name = "cases" → value.asArray? = none)
    (hvalue : operation.attributes.get name = some value) :
    Holds module declared checked seen (.attribute .value value)
  | label {checked seen : List String} {block : Block} {operation : Operation} {edge : Edge}
    {label domain : Attr} (hblock : module.HasBlock declared checked seen block)
    (hoperation : operation ∈ block.operations) (hswitch : operation.name = "sela.switch")
    (hedge : (edge, domain) ∈ operation.edges.tail.zip (operation.edgeDomains (targetSet declared)).tail)
    (hlabel : edge.label = some label) :
    Holds module declared checked (seen.filter fun id => containsTarget domain id)
      (.attribute .value label)

theorem checkOperation_attribute {declared active : List String} {attributes : Attributes}
    {types : List SelaType} (h : checkOperation declared active attributes types = .ok ())
    {name : String} {value : Attr} (hvalue : attributes.get name = some value) :
    Content.Accepted declared (active, .attribute .value value) := by
  unfold checkOperation at h
  obtain ⟨_, hattributes, h⟩ := bind_ok.mp h
  obtain ⟨_, -, h⟩ := bind_ok.mp h
  obtain ⟨_, -, h⟩ := bind_ok.mp h
  have hmem := Attributes.mem_of_get hvalue
  refine ⟨⟨65, forM_ok.mp hattributes _ hmem⟩, fun type htype => ⟨65, forM_ok.mp h type ?_⟩⟩
  rw [entriesMentioned_eq]
  exact List.mem_flatMap.mpr ⟨_, hmem, htype⟩

/-- The domains of blocks and of cases are sets of targets. -/
theorem checkOperation_domains {declared active : List String} {attributes : Attributes}
    {types : List SelaType} (h : checkOperation declared active attributes types = .ok ())
    {name : String} (hname : name = "block_domains" ∨ name = "case_domains") {value : Attr}
    (hvalue : attributes.get name = some value) :
    ∃ sets : List (List String), value = .array (sets.map targetSet) := by
  unfold checkOperation at h
  obtain ⟨_, -, h⟩ := bind_ok.mp h
  obtain ⟨_, hdomains, -⟩ := bind_ok.mp h
  have hdomain := forM_ok.mp hdomains name (by simpa using hname)
  rw [hvalue] at hdomain
  obtain ⟨values, hvalues, hdomain⟩ := bind_ok.mp hdomain
  obtain rfl := Attr.asArray?_eq_some.mp (require_ok.mp hvalues)
  have hsets : ∀ value ∈ values, ∃ ids, targetSet ids = value := by
    intro value hmem
    obtain ⟨ids, hids, -⟩ := bind_ok.mp (forM_ok.mp hdomain value hmem)
    exact ⟨ids, (Option.some.inj (checkSet_ok hids).1).symm⟩
  obtain ⟨sets, rfl⟩ : values ∈ Set.range (List.map targetSet) := by
    rw [Set.range_list_map]
    exact hsets
  exact ⟨sets, rfl⟩

theorem checkOperation_type {declared active : List String} {attributes : Attributes}
    {types : List SelaType} (h : checkOperation declared active attributes types = .ok ())
    {type : SelaType} (htype : type ∈ types) : Content.Accepted declared (declared, .type type) := by
  unfold checkOperation at h
  obtain ⟨_, -, h⟩ := bind_ok.mp h
  obtain ⟨_, -, h⟩ := bind_ok.mp h
  obtain ⟨_, htypes, -⟩ := bind_ok.mp h
  exact ⟨65, forM_ok.mp htypes type htype⟩

/-- The operations of a block were checked for the block's targets. -/
theorem Module.HasBlock.operation {module : Module} {declared checked seen : List String}
    {block : Block} (h : module.HasBlock declared checked seen block)
    (hbody : ∀ definition ∈ module.body, verifyDefinition declared definition = .ok ())
    {operation : Operation} (hoperation : operation ∈ block.operations) :
    checkOperation declared checked operation.attributes (operation.results.map Value.type) =
      .ok () := by
  obtain ⟨definition, hdefinition, region, hregion, index, whole, hblock, hwhole, hseen⟩ := h
  obtain ⟨hoperations, -⟩ := verifyDefinition_ok.mp (hbody definition hdefinition)
  obtain ⟨active, hactive, hcheck⟩ := hoperations region hregion block index hblock operation hoperation
  split at hseen
  · rename_i hname
    rw [if_pos hname] at hactive
    obtain ⟨whole', hwhole', hactive⟩ := hactive
    obtain rfl := Except.ok.inj (hwhole.symm.trans hwhole')
    obtain rfl := Except.ok.inj (hactive.symm.trans hseen.1)
    exact hcheck
  · rename_i hname
    rw [if_neg hname] at hactive
    obtain rfl := hseen.1
    obtain rfl := hactive.1
    exact hcheck

/-- The label of an edge is one of the switch's labels. -/
theorem label_mem_cases {operation : Operation} {edge : Edge} {label : Attr}
    (hedge : edge ∈ operation.edges) (hlabel : edge.label = some label) :
    ∃ raws, operation.attributes.get "cases" = some (.array raws) ∧ label ∈ raws := by
  have hmem : label ∈ operation.cases := by simpa [hlabel] using label_mem_of_zipEdges hedge
  unfold Operation.cases at hmem
  cases hcases : (operation.attributes.get "cases").bind Attr.asArray? with
  | none => simp [hcases] at hmem
  | some raws =>
    obtain ⟨raw, hraw, harray⟩ := Option.bind_eq_some_iff.mp hcases
    obtain rfl : raw = .array raws := by simpa using harray
    exact ⟨raws, hraw, by simpa [hcases] using hmem⟩

/-- A checked flag is a record of plain fields for its targets. -/
theorem checkFlag_ok {declared : List String} {record : Attributes} {ids : List String}
    (h : checkFlag declared (.dictionary record) = .ok ())
    (hids : record.get "targets" = some (targetSet ids)) :
    record.get "target_cases" = none ∧ checkAttribute 65 ids (.dictionary record) = .ok () := by
  simp only [checkFlag, Attr.asDictionary?] at h
  obtain ⟨_, -, h⟩ := bind_ok.mp h
  obtain ⟨present, hpresent, h⟩ := bind_ok.mp h
  obtain rfl : present = ids :=
    targetSet_injective (Option.some.inj ((checkSet_ok hpresent).1.symm.trans hids))
  refine ⟨?_, h⟩
  cases hchoice : record.get "target_cases" with
  | none => rfl
  | some raw =>
    obtain ⟨cases, ⟨_, _, heq, hlength, -⟩, -⟩ := checkAttribute_choice (by simp [hchoice]) h
    obtain rfl := Attr.dictionary.inj heq
    rw [get_none_of_singleton hlength (by decide) hchoice] at hids
    simp at hids

/-- Every place of a verified module was checked. -/
theorem Module.Holds.accepted {module : Module} {declared checked seen : List String}
    {content : Content} (h : module.Holds declared checked seen content)
    (hdeclared : declaredTargets module = .ok declared) (hverified : verifyTargetDomains module = .ok ()) :
    Content.Accepted declared (checked, content) := by
  obtain ⟨declared', hdeclared', hflags, hbody, -, hself⟩ := verifyTargetDomains_ok.mp hverified
  obtain rfl := Except.ok.inj (hdeclared.symm.trans hdeclared')
  cases h with
  | @flag flags record ids name value hraw hmem hids hname hvalue =>
    obtain ⟨flags', heq, hflags⟩ := hflags _ hraw
    obtain rfl := Attr.array.inj heq
    obtain ⟨hplain, hflag⟩ := checkFlag_ok (hflags _ hmem) hids
    have hwhole : Content.Accepted declared (checked, .attribute .value (.dictionary record)) := by
      refine ⟨⟨65, hflag⟩, fun type htype => ?_⟩
      refine (checkOperation_attribute hself hraw).2 type ?_
      rw [Attr.mentioned, attrsMentioned_eq]
      exact List.mem_flatMap.mpr ⟨_, hmem, htype⟩
    exact @Content.Accepted.step declared (fun _ => True) _ _ hwhole
      (.entry hplain (Attributes.mem_of_get hvalue))
  | module hname hvalue => exact checkOperation_attribute hself hvalue
  | definition hmem hactive hname hvalue =>
    obtain ⟨-, active, hactive', hcheck⟩ := verifyDefinition_ok.mp (hbody _ hmem)
    obtain rfl := Except.ok.inj (hactive.symm.trans hactive')
    exact checkOperation_attribute hcheck hvalue
  | argument hblock hmem =>
    obtain ⟨definition, hdefinition, region, hregion, index, whole, hblock, -⟩ := hblock
    obtain ⟨-, active, -, hcheck⟩ := verifyDefinition_ok.mp (hbody definition hdefinition)
    exact checkOperation_type hcheck (mem_argumentTypes.mpr
      ⟨region, hregion, _, List.mem_of_getElem? hblock, _, hmem, rfl⟩)
  | result hblock hoperation hmem =>
    exact checkOperation_type (hblock.operation hbody hoperation) (List.mem_map_of_mem hmem)
  | entry hblock hoperation hname hswitch hvalue =>
    exact checkOperation_attribute (hblock.operation hbody hoperation) hvalue
  | @label checked seen block operation edge label domain hblock hoperation hswitch hedge hlabel =>
    obtain ⟨raws, hraws, hmem⟩ :=
      label_mem_cases (List.mem_of_mem_tail (List.of_mem_zip hedge).1) hlabel
    exact @Content.Accepted.step declared (fun _ => True) _ _
      (checkOperation_attribute (hblock.operation hbody hoperation) hraws) (.element hmem)

/-! ## What a target sees of a module -/

/-- What specialization for a target makes of a definition. -/
def SpecializedTo (declared : List String) (target : TargetInfo) (definition result : Definition) :
    Prop :=
  ∃ cut, specializeFunction declared target.id definition = .ok cut ∧
    resolveDefinition target cut = .ok result

/-- What specialization for a target made of a module. -/
structure SpecializedFor (declared : List String) (target : TargetInfo) (module view : Module) :
    Prop where
  flags : ∃ attributes, specializeAttributes target module.attributes = .ok attributes
  definitions : List.Forall₂ (SpecializedTo declared target)
    (module.body.filter (presentFor target.id)) view.body

theorem SpecializedFor.definition {declared : List String} {target : TargetInfo}
    {module view : Module} (h : SpecializedFor declared target module view) {definition : Definition}
    (hmem : definition ∈ module.body) (hpresent : presentFor target.id definition = true) :
    ∃ cut result, specializeFunction declared target.id definition = .ok cut ∧
      resolveDefinition target cut = .ok result ∧ result ∈ view.body := by
  obtain ⟨result, hresult, cut, hcut, hresolved⟩ :=
    exists_of_forall₂_left h.definitions (List.mem_filter.mpr ⟨hmem, hpresent⟩)
  exact ⟨cut, result, hcut, hresolved, hresult⟩

theorem exec_specializeDomains_ok {verify : Module → Bool} {source : ℕ} {target : TargetInfo}
    {context context' : Context} {result : ℕ}
    (h : exec (specializeDomains verify source target) context = (.ok result, context')) :
    ∃ declared, declaredTargets (context.modules source) = .ok declared ∧ target.id ∈ declared ∧
      verifyTargetDomains (context.modules source) = .ok () ∧
      SpecializedFor declared target (context.modules source) (context'.modules result) := by
  unfold specializeDomains at h
  rw [exec_readModule_bind] at h
  obtain ⟨declared, hdeclared, h⟩ := exec_check_bind_ok.mp h
  obtain ⟨_, -, h⟩ := exec_check_bind_ok.mp h
  obtain ⟨selected, middle, hcut, h⟩ := exec_bind_ok.mp h
  rw [exec_readModule_bind] at h
  obtain ⟨concrete, hresolved, h⟩ := exec_check_bind_ok.mp h
  rw [exec_editModule_bind] at h
  obtain ⟨_, -, h⟩ := exec_check_bind_ok.mp h
  obtain ⟨hhandle, rfl⟩ := Prod.mk.inj h
  obtain rfl := Except.ok.inj hhandle
  obtain ⟨declared', body, hdeclared', hin, hverified, hbody, hmodule⟩ :=
    exec_specializeConditionalCFG_ok hcut
  obtain rfl := Except.ok.inj (hdeclared.symm.trans hdeclared')
  rw [hmodule] at hresolved
  obtain ⟨results, hresults, hresolved⟩ := bind_ok.mp hresolved
  obtain ⟨attributes, hattributes, hresolved⟩ := bind_ok.mp hresolved
  obtain rfl := Except.ok.inj hresolved
  refine ⟨declared, hdeclared, hin, hverified, ⟨attributes, hattributes⟩, ?_⟩
  dsimp only
  rw [Function.update_self]
  exact forall₂_trans (fun _ _ _ hcut hresult => ⟨_, hcut, hresult⟩) (mapM_ok.mp hbody)
    (mapM_ok.mp hresults)

/-- The attributes of what is specialized are resolved. -/
theorem specializeAttributes_resolved {target : TargetInfo} {attributes results : Attributes}
    (h : specializeAttributes target attributes = .ok results) {name : String} {value : Attr}
    (hname : name ≠ "sela.module_flags") (hvalue : attributes.get name = some value) :
    Content.Resolved target (.attribute .value value) := by
  obtain ⟨result, -, raw, hraw, hresult⟩ := get_specializedFrom h hvalue
  rw [SpecializedFrom, if_neg hname] at hraw
  obtain rfl : raw = value := hraw
  exact ⟨_, result, hresult⟩

/-- Sets of targets have nothing to resolve. -/
theorem resolved_sets {target : TargetInfo} {sets : List (List String)} :
    Content.Resolved target (.attribute .value (.array (sets.map targetSet))) := by
  refine ⟨false, _, specializeAttribute_of_concrete ?_⟩
  rw [Attr.Concrete, attrsConcrete_iff]
  intro set hset
  obtain ⟨ids, -, rfl⟩ := List.mem_map.mp hset
  rw [targetSet, Attr.Concrete, attrsConcrete_iff]
  intro id hid
  obtain ⟨text, -, rfl⟩ := List.mem_map.mp hid
  simp [Attr.Concrete]

theorem resolved_set {target : TargetInfo} {ids : List String} :
    Content.Resolved target (.attribute .value (targetSet ids)) := by
  refine ⟨false, _, specializeAttribute_of_concrete ?_⟩
  rw [targetSet, Attr.Concrete, attrsConcrete_iff]
  intro id hid
  obtain ⟨text, -, rfl⟩ := List.mem_map.mp hid
  simp [Attr.Concrete]

/-- The fields of a flag that a target has are resolved. -/
theorem flag_resolved {target : TargetInfo} {attributes results : Attributes}
    (h : specializeAttributes target attributes = .ok results) {flags : List Attr}
    {record : Attributes} {ids : List String}
    (hflags : attributes.get "sela.module_flags" = some (.array flags))
    (hmem : .dictionary record ∈ flags) (hids : record.get "targets" = some (targetSet ids))
    (hin : target.id ∈ ids) {name : String} {value : Attr} (hname : name ≠ "targets")
    (hvalue : record.get name = some value) (hplain : record.get "target_cases" = none) :
    Content.Resolved target (.attribute .value value) := by
  obtain ⟨result, -, raw, hraw, hresult⟩ := get_specializedFrom h hflags
  rw [SpecializedFrom, if_pos rfl] at hraw
  obtain ⟨flags', heq, rfl⟩ := keepFlags_ok hraw
  obtain rfl := Attr.array.inj heq
  obtain ⟨values, -, hvalues⟩ := specializeAttribute_array hresult
  have hlabelled : labelFlag target (.dictionary record) ∈
      (flags.filter (hasFlag target)).map (labelFlag target) :=
    List.mem_map_of_mem (List.mem_filter.mpr ⟨hmem, hasFlag_iff.mpr
      ⟨record, _, rfl, hids, List.mem_map_of_mem hin⟩⟩)
  obtain ⟨value', -, hvalue'⟩ := exists_of_forall₂_left (mapM_ok.mp hvalues) hlabelled
  have hplace : Content.Resolved target (.attribute .value (labelFlag target (.dictionary record))) :=
    ⟨_, value', hvalue'⟩
  have hget : ∀ other, "targets" ≠ other → Attributes.get
      (Attributes.set "targets" (targetSet [target.id]) record) other = record.get other :=
    fun other hne => Attributes.get_set_of_ne _ hne record
  exact @Content.Resolved.step [] target ([], _) _ hplace
    (.entry ((hget _ (by decide)).trans hplain)
      (Attributes.mem_of_get ((hget name hname.symm).trans hvalue)))

/-- A target that sees a definition has it. -/
theorem presentFor_of_mem {declared active : List String} {id : String} {definition : Definition}
    (h : definitionTargets declared definition = .ok active) (hid : id ∈ active) :
    presentFor id definition = true := by
  unfold definitionTargets at h
  split at h
  · rename_i hnone
    unfold presentFor
    rw [hnone]
  · rename_i raw hraw
    obtain ⟨_, -, h⟩ := bind_ok.mp h
    obtain ⟨htargets, -⟩ := checkSet_ok h
    obtain rfl := Option.some.inj htargets
    unfold presentFor
    rw [hraw]
    simpa using hid

theorem mem_of_blockTargets {whole active : List String} {definition : Definition} {index : ℕ}
    (h : blockTargets definition whole index = .ok active) {id : String} (hid : id ∈ active) :
    id ∈ whole := by
  unfold blockTargets at h
  split at h
  · obtain rfl := Except.ok.inj h
    exact hid
  · obtain ⟨_, -, h⟩ := bind_ok.mp h
    exact (checkSet_ok h).2.2.1 id hid

/-- A target that sees a block is in the block's domain. -/
theorem domainsOf_contains {declared whole active : List String} {definition : Definition}
    {region : Region} {index : ℕ} {block : Block} {id : String}
    (hwhole : definitionTargets declared definition = .ok whole)
    (h : blockTargets definition whole index = .ok active) (hblock : region.blocks[index]? = some block)
    (hid : id ∈ active) :
    ∃ domain, (domainsOf (targetSet declared) definition region)[index]? = some domain ∧
      containsTarget domain id = true := by
  unfold blockTargets at h
  unfold domainsOf
  split at h
  · rename_i hnone
    obtain rfl := Except.ok.inj h
    have hfunction : containsTarget (functionDomain (targetSet declared) definition) id = true := by
      unfold definitionTargets at hwhole
      unfold functionDomain
      split at hwhole
      · rename_i htargets
        obtain rfl := Except.ok.inj hwhole
        simpa [htargets] using hid
      · rename_i raw hraw
        obtain ⟨_, -, hwhole⟩ := bind_ok.mp hwhole
        obtain ⟨htargets, -⟩ := checkSet_ok hwhole
        rw [hraw, Option.some.inj htargets]
        exact containsTarget_targetSet.mpr hid
    refine ⟨functionDomain (targetSet declared) definition, ?_, hfunction⟩
    split
    · rename_i domains hdomains
      rw [hdomains] at hnone
      simp [Attr.asArray?] at hnone
    · have hindex := (List.getElem?_eq_some_iff.mp hblock).1
      simp [hindex]
  · rename_i domains hdomains
    obtain ⟨_, -, h⟩ := bind_ok.mp h
    obtain ⟨raw, hraw, harray⟩ := Option.bind_eq_some_iff.mp hdomains
    obtain rfl : raw = .array domains := by simpa using harray
    obtain ⟨hset, -⟩ := checkSet_ok h
    exact ⟨targetSet active, by rw [hraw]; exact hset, containsTarget_targetSet.mpr hid⟩

/-- An operation of a module. -/
def Module.HasOperation (module : Module) (operation : Operation) : Prop :=
  ∃ definition ∈ module.body, ∃ region ∈ definition.regions, ∃ block ∈ region.blocks,
    operation ∈ block.operations

/-- A block as a target sees it : its arguments and what became of its operations. -/
structure SeenBlock (declared : List String) (target : TargetInfo) (view : Module) (block : Block) :
    Prop where
  arguments : ∀ argument ∈ block.arguments, ∃ result, specializeValue target argument = .ok result
  operations : ∀ operation ∈ block.operations, ∃ cut result,
    (cut = operation ∨ (operation.name = "sela.switch" ∧
      SpecializedSwitch (targetSet declared) target.id operation cut)) ∧
    specializeOperation target cut = .ok result ∧ view.HasOperation result

theorem specializeBlock_seen {target : TargetInfo} {block result : Block}
    (h : specializeBlock target block = .ok result) :
    (∀ argument ∈ block.arguments, ∃ result, specializeValue target argument = .ok result) ∧
    ∀ operation ∈ block.operations, ∃ made ∈ result.operations,
      specializeOperation target operation = .ok made := by
  obtain ⟨operations, hoperations, h⟩ := bind_ok.mp h
  obtain ⟨arguments, harguments, h⟩ := bind_ok.mp h
  obtain rfl := Except.ok.inj h
  constructor
  · intro argument hargument
    obtain ⟨result, -, hresult⟩ := exists_of_forall₂_left (mapM_ok.mp harguments) hargument
    exact ⟨result, hresult⟩
  · exact fun operation hoperation => exists_of_forall₂_left (mapM_ok.mp hoperations) hoperation

theorem resolveDefinition_block {target : TargetInfo} {definition result : Definition}
    (h : resolveDefinition target definition = .ok result) {region : Region}
    (hregion : region ∈ definition.regions) {block : Block} (hblock : block ∈ region.blocks) :
    ∃ region' ∈ result.regions, ∃ block' ∈ region'.blocks,
      specializeBlock target block = .ok block' := by
  obtain ⟨regions, hregions, h⟩ := bind_ok.mp h
  obtain ⟨attributes, -, h⟩ := bind_ok.mp h
  obtain rfl := Except.ok.inj h
  obtain ⟨region', hmem, hregion'⟩ := exists_of_forall₂_left (mapM_ok.mp hregions) hregion
  refine ⟨region', hmem, ?_⟩
  unfold specializeRegion at hregion'
  split at hregion'
  · simp at hregion'
  · rename_i blocks hblocks
    obtain rfl := Except.ok.inj hregion'
    exact exists_of_forall₂_left (mapM_ok.mp hblocks) hblock

/-- What a target sees of a block that it has. -/
theorem Module.HasBlock.seen {module view : Module} {declared checked seen : List String}
    {target : TargetInfo} (hin : target.id ∈ declared)
    (hmodule : SpecializedFor declared target module view) {block : Block}
    (h : module.HasBlock declared checked seen block) (hseen : target.id ∈ seen) :
    SeenBlock declared target view block := by
  obtain ⟨definition, hdefinition, region, hregion, index, whole, hblock, hwhole, htargets⟩ := h
  split at htargets
  · rename_i hname
    obtain ⟨htargets, rfl⟩ := htargets
    have hpresent := presentFor_of_mem hwhole (mem_of_blockTargets htargets hseen)
    obtain ⟨cut, result, hcut, hresult, hview⟩ := hmodule.definition hdefinition hpresent
    have hspecialized := specializeFunction_ok hin hcut
    rw [SpecializedDefinition, if_pos hname] at hspecialized
    obtain ⟨-, -, region', region'', hregions, hcutRegions, hspecialized⟩ := hspecialized
    obtain rfl : region = region' := by simpa [hregions] using hregion
    obtain ⟨domain, hdomain, hcontains⟩ := domainsOf_contains hwhole htargets hblock hseen
    have hkept : block ∈ ((region.blocks.zip (domainsOf (targetSet declared) definition region)).filter
        fun entry => containsTarget entry.2 target.id).map Prod.fst :=
      List.mem_map.mpr ⟨(block, domain), List.mem_filter.mpr ⟨List.mem_of_getElem?
        (List.getElem?_zip_eq_some.mpr ⟨hblock, hdomain⟩), hcontains⟩, rfl⟩
    obtain ⟨block', hblock', hsame⟩ := exists_of_forall₂_left hspecialized.blocks hkept
    obtain ⟨madeRegion, hmadeRegion, made, hmade, hresolved⟩ :=
      resolveDefinition_block hresult (by simp [hcutRegions]) hblock'
    obtain ⟨harguments, hoperations⟩ := specializeBlock_seen hresolved
    refine ⟨hsame.arguments ▸ harguments, fun operation hoperation => ?_⟩
    obtain ⟨cutOperation, hmem, hcutOperation⟩ := exists_of_forall₂_left hsame.operations hoperation
    obtain ⟨madeOperation, hin, hmadeOperation⟩ := hoperations cutOperation hmem
    refine ⟨cutOperation, madeOperation, ?_, hmadeOperation,
      result, hview, madeRegion, hmadeRegion, made, hmade, hin⟩
    unfold SpecializedOperation at hcutOperation
    split at hcutOperation
    · exact .inr ⟨‹_›, hcutOperation⟩
    · exact .inl hcutOperation
  · rename_i hname
    obtain ⟨-, rfl⟩ := htargets
    have hpresent := presentFor_of_mem hwhole hseen
    obtain ⟨cut, result, hcut, hresult, hview⟩ := hmodule.definition hdefinition hpresent
    have hspecialized := specializeFunction_ok hin hcut
    rw [SpecializedDefinition, if_neg hname] at hspecialized
    subst hspecialized
    obtain ⟨madeRegion, hmadeRegion, made, hmade, hresolved⟩ :=
      resolveDefinition_block hresult hregion (List.mem_of_getElem? hblock)
    obtain ⟨harguments, hoperations⟩ := specializeBlock_seen hresolved
    refine ⟨harguments, fun operation hoperation => ?_⟩
    obtain ⟨madeOperation, hin, hmadeOperation⟩ := hoperations operation hoperation
    exact ⟨operation, madeOperation, .inl rfl, hmadeOperation,
      result, hview, madeRegion, hmadeRegion, made, hmade, hin⟩

theorem specializeValue_resolved {target : TargetInfo} {value result : Value}
    (h : specializeValue target value = .ok result) :
    Content.Resolved target (.type value.type) := by
  obtain ⟨type, htype, -⟩ := bind_ok.mp h
  exact ⟨type, htype⟩

/-- A definition cut to a target keeps its attributes but for the domains of its blocks. -/
theorem specializeFunction_attributes {declared : List String} {id : String} (hin : id ∈ declared)
    {definition cut : Definition} (h : specializeFunction declared id definition = .ok cut)
    {name : String} (hname : name ≠ "block_domains") :
    cut.attributes.get name = definition.attributes.get name := by
  have hspecialized := specializeFunction_ok hin h
  unfold SpecializedDefinition at hspecialized
  split at hspecialized
  · rw [hspecialized.2.1, Attributes.get_erase_of_ne hname.symm]
  · rw [hspecialized]

/-- What a target sees of a module is resolved. -/
theorem Module.Holds.resolved {module view : Module} {declared checked seen : List String}
    {content : Content} {target : TargetInfo} (h : module.Holds declared checked seen content)
    (hin : target.id ∈ declared) (hdeclared : declaredTargets module = .ok declared)
    (hverified : verifyTargetDomains module = .ok ())
    (hmodule : SpecializedFor declared target module view) (hseen : target.id ∈ seen) :
    Content.Resolved target content := by
  obtain ⟨attributes, hattributes⟩ := hmodule.flags
  obtain ⟨declared', hdeclared', hflags, hbody, -⟩ := verifyTargetDomains_ok.mp hverified
  obtain rfl := Except.ok.inj (hdeclared.symm.trans hdeclared')
  cases h with
  | @flag flags record ids name value hraw hmem hids hname hvalue =>
    obtain ⟨flags', heq, hflags⟩ := hflags _ hraw
    obtain rfl := Attr.array.inj heq
    exact flag_resolved hattributes hraw hmem hids hseen hname hvalue
      (checkFlag_ok (hflags _ hmem) hids).1
  | @module name value hname hvalue => exact specializeAttributes_resolved hattributes hname hvalue
  | @definition definition active name value hmem hactive hname hvalue =>
    obtain ⟨-, active', hactive', hcheck⟩ := verifyDefinition_ok.mp (hbody definition hmem)
    by_cases htargets : name = "targets"
    · subst htargets
      unfold definitionTargets at hactive
      rw [hvalue] at hactive
      obtain ⟨_, -, hactive⟩ := bind_ok.mp hactive
      obtain rfl := Option.some.inj (checkSet_ok hactive).1
      exact resolved_set
    by_cases hdomains : name = "block_domains"
    · obtain ⟨sets, rfl⟩ := checkOperation_domains hcheck (.inl hdomains) hvalue
      exact resolved_sets
    obtain ⟨cut, result, hcut, hresult, -⟩ :=
      hmodule.definition hmem (presentFor_of_mem hactive hseen)
    obtain ⟨_, -, hresult⟩ := bind_ok.mp hresult
    obtain ⟨attributes, hattributes, -⟩ := bind_ok.mp hresult
    refine specializeAttributes_resolved hattributes hname ?_
    rw [Attributes.get_erase_of_ne (Ne.symm htargets),
      specializeFunction_attributes hin hcut hdomains]
    exact hvalue
  | argument hblock hmem =>
    obtain ⟨result, hresult⟩ := (hblock.seen hin hmodule hseen).arguments _ hmem
    exact specializeValue_resolved hresult
  | @result checked seen block operation value hblock hoperation hmem =>
    obtain ⟨cut, result, hcut, hresult, -⟩ :=
      (hblock.seen hin hmodule hseen).operations operation hoperation
    obtain ⟨_, -, hresult⟩ := bind_ok.mp hresult
    obtain ⟨results, hresults, -⟩ := bind_ok.mp hresult
    rcases hcut with rfl | ⟨-, hcut⟩
    · obtain ⟨result, -, hresult⟩ := exists_of_forall₂_left (mapM_ok.mp hresults) hmem
      exact specializeValue_resolved hresult
    · rw [hcut.results.1] at hmem
      simp at hmem
  | @entry checked seen block operation name value hblock hoperation hname hswitch hvalue =>
    by_cases hdomains : name = "case_domains"
    · obtain ⟨sets, rfl⟩ :=
        checkOperation_domains (hblock.operation hbody hoperation) (.inr hdomains) hvalue
      exact resolved_sets
    obtain ⟨cut, result, hcut, hresult, -⟩ :=
      (hblock.seen hin hmodule hseen).operations _ hoperation
    obtain ⟨attributes, hattributes, -⟩ := bind_ok.mp hresult
    rcases hcut with rfl | ⟨hkind, hcut⟩
    · exact specializeAttributes_resolved hattributes hname hvalue
    by_cases hcases : name = "cases"
    · obtain ⟨cases, heq⟩ := hcut.cases
      obtain rfl := Option.some.inj ((hcases ▸ hvalue).symm.trans heq)
      exact absurd (hswitch hkind hcases) (by simp [Attr.asArray?])
    by_cases hcounts : name = "argument_counts"
    · obtain ⟨counts, heq⟩ := hcut.counts
      obtain rfl := Option.some.inj ((hcounts ▸ hvalue).symm.trans heq)
      exact ⟨false, _, specializeAttribute_of_concrete (by simp [Attr.Concrete])⟩
    refine specializeAttributes_resolved hattributes hname ?_
    rw [hcut.attributes _ hdomains hcases hcounts]
    exact hvalue
  | @label checked seen block operation edge label domain hblock hoperation hswitch hedge hlabel =>
    obtain ⟨hseen, hcontains⟩ := List.mem_filter.mp hseen
    obtain ⟨cut, result, hcut, hresult, -⟩ :=
      (hblock.seen hin hmodule hseen).operations _ hoperation
    obtain ⟨attributes, hattributes, -⟩ := bind_ok.mp hresult
    have hkept : edge ∈ cut.edges := by
      rcases hcut with rfl | ⟨-, hcut⟩
      · exact List.mem_of_mem_tail (List.of_mem_zip hedge).1
      · obtain ⟨default, rest, hedges, -, hcutEdges⟩ := hcut.edges
        rw [hcutEdges]
        rw [hedges, List.tail_cons] at hedge
        exact List.mem_cons_of_mem _ (List.mem_map.mpr
          ⟨(edge, domain), List.mem_filter.mpr ⟨hedge, hcontains⟩, rfl⟩)
    obtain ⟨raws, hraws, hmem⟩ := label_mem_cases hkept hlabel
    exact @Content.Resolved.step [] target ([], _) _
      (specializeAttributes_resolved hattributes (by decide) hraws) (.element hmem)

/-! ## Verification of a module -/

/-- Take the view of each target in turn and check it. -/
def validateTargets (verify : Module → Bool) (validateSchema : Module → Checked Unit) (source : ℕ) :
    List String → Stateful Context Unit
  | [] => pure ()
  | id :: ids => do
    let specialized ← specializeDomains verify source (targets.get id)
    let module ← readModule specialized
    check (validateSchema module)
    validateTargets verify validateSchema source ids

/-- Check a module, its domains and what each of its targets sees of it. `verify` is the
framework's structural verifier and `validateSchema` checks the operations and attributes of one
target. -/
def verifyModuleStructure (verify : Module → Bool) (validateSchema : Module → Checked Unit)
    (source : ℕ) : Stateful Context Unit := do
  let module ← readModule source
  check (ensure (verify module) "Sela structural verification failed")
  check (verifyTargetDomains module)
  let domain ← check (declaredTargets module)
  validateTargets verify validateSchema source domain

theorem keeps_next_editModule (handle : ℕ) (edit : Module → Module) :
    Keeps (fun context : Context => context.next) (editModule handle edit) := fun _ => rfl

theorem keeps_next_specializeDefinitions {targets : List String} {selected : String} {result : ℕ} :
    ∀ before after : List Definition, Keeps (fun context : Context => context.next)
      (specializeDefinitions targets selected result before after)
  | _, [] => Keeps.pure _
  | before, _ :: after =>
    Keeps.bind (Keeps.check _) fun definition =>
      Keeps.bind (keeps_next_editModule _ _) fun _ =>
        keeps_next_specializeDefinitions (before ++ [definition]) after

/-- A view is taken in a module of its own. -/
theorem exec_specializeConditionalCFG_handle {verify : Module → Bool} {source : ℕ}
    {selected : String} {context context' : Context} {result : ℕ}
    (h : exec (specializeConditionalCFG verify source selected) context = (.ok result, context')) :
    result = context.next ∧ context'.next = context.next + 1 := by
  unfold specializeConditionalCFG at h
  rw [exec_readModule_bind] at h
  obtain ⟨targets, -, h⟩ := exec_check_bind_ok.mp h
  obtain ⟨_, -, h⟩ := exec_check_bind_ok.mp h
  obtain ⟨_, -, h⟩ := exec_check_bind_ok.mp h
  rw [exec_cloneModule_bind, specializeClone, exec_editModule_bind, exec_readModule_bind] at h
  obtain ⟨_, middle, hloop, h⟩ := exec_bind_ok.mp h
  have hnext := (congrArg (fun run : Checked Unit × Context => run.2.next) hloop).symm.trans
    (keeps_next_specializeDefinitions _ _ _)
  rw [exec_readModule_bind] at h
  obtain ⟨_, -, h⟩ := exec_check_bind_ok.mp h
  obtain ⟨hhandle, rfl⟩ := Prod.mk.inj h
  exact ⟨(Except.ok.inj hhandle).symm, hnext⟩

/-- Taking a view leaves the module as it is. -/
theorem specializeDomains_keeps {verify : Module → Bool} {source : ℕ} {target : TargetInfo}
    {context context' : Context} {result : ℕ} (hsource : source < context.next)
    (h : exec (specializeDomains verify source target) context = (.ok result, context')) :
    context'.modules source = context.modules source ∧ source < context'.next := by
  unfold specializeDomains at h
  rw [exec_readModule_bind] at h
  obtain ⟨_, -, h⟩ := exec_check_bind_ok.mp h
  obtain ⟨_, -, h⟩ := exec_check_bind_ok.mp h
  obtain ⟨selected, middle, hcut, h⟩ := exec_bind_ok.mp h
  rw [exec_readModule_bind] at h
  obtain ⟨concrete, -, h⟩ := exec_check_bind_ok.mp h
  rw [exec_editModule_bind] at h
  obtain ⟨_, -, h⟩ := exec_check_bind_ok.mp h
  obtain ⟨-, rfl⟩ := Prod.mk.inj h
  obtain ⟨rfl, hnext⟩ := exec_specializeConditionalCFG_handle hcut
  have hkept := specializeConditionalCFG_keeps verify target.id hsource
  rw [hcut] at hkept
  refine ⟨?_, ?_⟩
  · dsimp only
    rw [Function.update_of_ne (Nat.ne_of_lt hsource)]
    exact hkept
  · dsimp only
    omega

/-- Each target's view of the module was taken and checked. -/
theorem exec_validateTargets_ok {verify : Module → Bool} {validateSchema : Module → Checked Unit}
    {source : ℕ} : ∀ {ids : List String} {context context' : Context}, source < context.next →
      exec (validateTargets verify validateSchema source ids) context = (.ok (), context') →
      ∀ id ∈ ids, ∃ result before after, before.modules source = context.modules source ∧
        exec (specializeDomains verify source (targets.get id)) before = (.ok result, after) ∧
        validateSchema (after.modules result) = .ok ()
  | [], _, _, _, _ => by simp
  | id :: ids, context, context', hsource, h => by
    unfold validateTargets at h
    obtain ⟨specialized, middle, hspecialized, h⟩ := exec_bind_ok.mp h
    rw [exec_readModule_bind] at h
    obtain ⟨_, hschema, h⟩ := exec_check_bind_ok.mp h
    obtain ⟨hkept, hnext⟩ := specializeDomains_keeps hsource hspecialized
    refine List.forall_mem_cons.mpr ⟨⟨specialized, context, middle, rfl, hspecialized, hschema⟩,
      fun other hother => ?_⟩
    obtain ⟨result, before, after, hbefore, hafter⟩ := exec_validateTargets_ok hnext h other hother
    exact ⟨result, before, after, hbefore.trans hkept, hafter⟩

theorem find_of_declaredTargets {module : Module} {declared : List String}
    (h : declaredTargets module = .ok declared) {id : String} (hid : id ∈ declared) :
    (targets.get id).id = id := by
  unfold declaredTargets at h
  split at h
  · simp at h
  · obtain ⟨_, -, h⟩ := bind_ok.mp h
    obtain ⟨ids, hids, h⟩ := bind_ok.mp h
    obtain ⟨_, -, h⟩ := bind_ok.mp h
    obtain rfl := Except.ok.inj h
    obtain ⟨value, -, hvalue⟩ := exists_of_forall₂_right (mapM_ok.mp hids) hid
    split at hvalue
    · obtain ⟨_, hfound, hvalue⟩ := bind_ok.mp hvalue
      obtain rfl := Except.ok.inj hvalue
      obtain ⟨target, htarget⟩ := Option.isSome_iff_exists.mp (ensure_ok.mp hfound)
      rw [targets.get, htarget]
      exact targets.find_id htarget
    · simp at hvalue

/-- Only declared targets see a place. -/
theorem Module.Holds.seen_subset {module : Module} {declared checked seen : List String}
    {content : Content} (h : module.Holds declared checked seen content)
    (hdeclared : declaredTargets module = .ok declared) (hverified : verifyTargetDomains module = .ok ())
    {id : String} (hid : id ∈ seen) : id ∈ declared := by
  have hdefinition : ∀ {definition : Definition} {active : List String},
      definitionTargets declared definition = .ok active → ∀ id ∈ active, id ∈ declared := by
    intro definition active hactive id hid
    unfold definitionTargets at hactive
    split at hactive
    · obtain rfl := Except.ok.inj hactive
      exact hid
    · obtain ⟨_, -, hactive⟩ := bind_ok.mp hactive
      exact (checkSet_ok hactive).2.2.1 id hid
  have hblock : ∀ {checked seen : List String} {block : Block},
      module.HasBlock declared checked seen block → ∀ id ∈ seen, id ∈ declared := by
    rintro checked seen block ⟨definition, -, region, -, index, whole, -, hwhole, hseen⟩ id hid
    split at hseen
    · obtain ⟨htargets, rfl⟩ := hseen
      exact hdefinition hwhole id (mem_of_blockTargets htargets hid)
    · exact hdefinition hwhole id (hseen.2 ▸ hid)
  cases h with
  | flag hraw hmem hids hname hvalue =>
    obtain ⟨declared', hdeclared', hflags, -⟩ := verifyTargetDomains_ok.mp hverified
    obtain rfl := Except.ok.inj (hdeclared.symm.trans hdeclared')
    obtain ⟨flags, heq, hflags⟩ := hflags _ hraw
    obtain rfl := Attr.array.inj heq
    have hflag := hflags _ hmem
    simp only [checkFlag, Attr.asDictionary?] at hflag
    obtain ⟨_, -, hflag⟩ := bind_ok.mp hflag
    obtain ⟨present, hpresent, -⟩ := bind_ok.mp hflag
    obtain ⟨hset, -, hsubset, -⟩ := checkSet_ok hpresent
    exact hsubset id (targetSet_injective (Option.some.inj (hset.symm.trans hids)) ▸ hid)
  | module => exact hid
  | definition hmem hactive => exact hdefinition hactive id hid
  | argument hin => exact hblock hin id hid
  | result hin => exact hblock hin id hid
  | entry hin => exact hblock hin id hid
  | label hin => exact hblock hin id (List.mem_filter.mp hid).1

/-- Wherever a choice stands in a module, its cases are for targets of the place, each for targets
of its own, and a target that sees the choice has exactly one of them. -/
def Module.AdmitsChoices (module : Module) (declared : List String) : Prop :=
  ∀ checked seen content, module.Holds declared checked seen content →
    ∀ visible active kind dictionary,
      Content.Reaches declared visible (checked, content)
        (active, .attribute kind (.dictionary dictionary)) →
      (Attributes.get dictionary "target_cases").isSome →
      ∃ cases, (Attr.dictionary dictionary).IsChoice cases ∧ Admits active cases ∧
        ∀ id ∈ seen, Content.Reaches declared (id ∈ ·) (checked, content)
          (active, .attribute kind (.dictionary dictionary)) → casesFor id cases = 1

/-- The choices of a module with checked domains and a view for each of its targets are
unambiguous and cover the targets that see them. -/
theorem Module.admitsChoices {module : Module} {declared : List String}
    (hdeclared : declaredTargets module = .ok declared) (hverified : verifyTargetDomains module = .ok ())
    (hviews : ∀ id ∈ declared, ∃ view, SpecializedFor declared (targets.get id) module view) :
    module.AdmitsChoices declared := by
  intro checked seen content hholds visible active kind dictionary hreaches hchoice
  obtain ⟨cases, hcases, hadmits⟩ := (hholds.accepted hdeclared hverified).admits hreaches hchoice
  refine ⟨cases, hcases, hadmits, fun id hid hsees => ?_⟩
  have hin := hholds.seen_subset hdeclared hverified hid
  have hget := find_of_declaredTargets hdeclared hin
  obtain ⟨view, hmodule⟩ := hviews id hin
  have hresolved :=
    hholds.resolved (hget.symm ▸ hin) hdeclared hverified hmodule (hget.symm ▸ hid)
  have hsees' : Content.Reaches declared ((targets.get id).id ∈ ·) (checked, content)
      (active, .attribute kind (.dictionary dictionary)) := by rwa [hget]
  obtain ⟨selected, hselected⟩ :=
    (@Content.Resolved.reaches declared _ (checked, content) _ hresolved hsees').selected
  rw [hget] at hselected
  exact (selectAttribute_case hcases hselected).1

/-- A module that passes has checked domains, and a checked view for each of its targets. -/
theorem verifyModuleStructure_ok {verify : Module → Bool} {validateSchema : Module → Checked Unit}
    {source : ℕ} {context context' : Context} (hsource : source < context.next)
    (h : exec (verifyModuleStructure verify validateSchema source) context = (.ok (), context')) :
    ∃ declared, declaredTargets (context.modules source) = .ok declared ∧
      verifyTargetDomains (context.modules source) = .ok () ∧
      ∀ id ∈ declared, ∃ view, validateSchema view = .ok () ∧
        SpecializedFor declared (targets.get id) (context.modules source) view := by
  unfold verifyModuleStructure at h
  rw [exec_readModule_bind] at h
  obtain ⟨_, -, h⟩ := exec_check_bind_ok.mp h
  obtain ⟨_, hverified, h⟩ := exec_check_bind_ok.mp h
  obtain ⟨declared, hdeclared, h⟩ := exec_check_bind_ok.mp h
  refine ⟨declared, hdeclared, hverified, fun id hin => ?_⟩
  obtain ⟨result, before, after, hbefore, hspecialized, hschema⟩ :=
    exec_validateTargets_ok hsource h id hin
  obtain ⟨declared', hdeclared', -, -, hmodule⟩ := exec_specializeDomains_ok hspecialized
  rw [hbefore] at hdeclared' hmodule
  obtain rfl := Except.ok.inj (hdeclared.symm.trans hdeclared')
  exact ⟨_, hschema, hmodule⟩

/-- Storage of two of three targets, as great as a word of each. -/
def wordStorage : Module where
  attributes := [("sela.schema", .integer 32 1),
    ("sela.targets", targetSet ["x86_64", "i686", "armv7"])]
  body := [{
    name := "sela.global"
    attributes := [
      ("alignment", .dictionary [("target_cases", .array [
        .dictionary [("targets", targetSet ["x86_64"]), ("value", .integer 64 8)],
        .dictionary [("targets", targetSet ["armv7"]), ("value", .integer 64 4)]])]),
      ("element", .type (.array .word (.integer 64 2))),
      ("id", .string "storage"),
      ("targets", targetSet ["x86_64", "armv7"])]
    regions := [] }]

/-- The check of the schema's number. -/
def schemaNumber (module : Module) : Checked Unit :=
  ensure (module.attributes.get "sela.schema" = some (.integer 32 1)) "unsupported common IR schema"

end Sela
