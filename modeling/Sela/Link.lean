import Mathlib.Data.List.Basic
import Mathlib.Data.List.ReduceOption
import Sela.Artifact
import Sela.Association
import Sela.JsonText

/-!
# Linking relocatable artifacts

`linkInputs` puts the modules of relocatable artifacts one after the other. A module with
no target among those required of its input is left out, the others are numbered anew, and
the units of each required target follow those of the inputs before.

The plan that results has, for each requested target, the units of the inputs that
provide it, in order, and is again exact (`linkInputs_preserves`).
-/

namespace Sela

open Checked

/-! ## Selections -/

/-- A selection of targets, each once. -/
structure TargetSelection where
  ids : List String
  nodup : ids.Nodup

/-- Select one target, given as a field of the selection's text. -/
def selectTarget (selected : List String) (field : String) : Checked (List String) := do
  ensure (field ≠ "") "architecture selection contains an empty target"
  ensure (Sela.targets.find field).isSome ("unknown publication architecture: " ++ field)
  ensure (field ∉ selected) ("duplicate publication architecture: " ++ field)
  pure (selected ++ [field])

/-- The targets of the comma-separated fields of a selection, in the order of the registry. -/
def parseTargetSelection (fields : List String) : Checked TargetSelection := do
  let selected ← fields.foldlM selectTarget []
  pure ⟨(Sela.targets.all.map TargetInfo.id).filter (· ∈ selected), Sela.targets.nodup_all.filter _⟩

/-- A name a static archive may give a member. -/
structure MemberName where
  name : String
  valid : validArchiveMember name = true

def parseMemberName (name : String) : Checked MemberName :=
  if h : validArchiveMember name = true then pure ⟨name, h⟩
  else throw "invalid static archive member name"

/-- What is asked of a link : the kind of its output, the targets requested, those required
of an input where they are fewer, the names of the members of a static archive, and what is
linked with, for all targets or for each of them. -/
structure LinkRequest where
  kind : String
  targets : TargetSelection
  inputDomains : List (ℕ × TargetSelection)
  archiveNames : List MemberName
  settings : ArtifactLink
  targetLinks : LinkPlan

/-- The targets required of an input. -/
def LinkRequest.required (request : LinkRequest) (inputIndex : ℕ) : TargetSelection :=
  (request.inputDomains.lookup inputIndex).getD request.targets

/-! ## Plans -/

namespace CompilationPlan

/-- The units planned for a target. -/
def units (plan : CompilationPlan) (target : String) : List ArtifactUnit :=
  (plan.lookup target).getD []

/-- Plan one more unit for a target. -/
def push (plan : CompilationPlan) (target : String) (unit : ArtifactUnit) : CompilationPlan :=
  Association.update target (fun units => units.getD [] ++ [unit]) plan

/-- Plan a target, if only with no unit. -/
def tryEmplace (plan : CompilationPlan) (target : String) : CompilationPlan :=
  Association.update target (fun units => units.getD []) plan

/-- Keep the targets requested, and each of them. -/
def restrict (plan : CompilationPlan) (targets : List String) : CompilationPlan :=
  targets.foldl tryEmplace (plan.filter fun entry => entry.1 ∈ targets)

theorem units_push (plan : CompilationPlan) (target other : String) (unit : ArtifactUnit) :
    (plan.push target unit).units other =
      if other = target then plan.units target ++ [unit] else plan.units other := by
  unfold units push
  rw [Association.lookup_update]
  split <;> rfl

end CompilationPlan

/-! ## The link -/

/-- One module of a published artifact. -/
structure ArtifactModule where
  bytecode : String
  optimization : String
  archiveMember : String
  targets : List String
  deriving DecidableEq

/-- The modules of the output so far with their bytes, and for each module of the current
input its index in the output, if it has one. -/
structure Admission where
  modules : List ArtifactModule
  aggregateBytes : ℕ
  moduleIndices : List (Option ℕ)

/-- The link so far. -/
structure LinkState where
  modules : List ArtifactModule
  aggregateBytes : ℕ
  compilationPlan : CompilationPlan
  inputLinks : List (String × List String)

/-- A read of the validated manifest the code makes without a check. -/
def unchecked {α : Type} (value : Option α) : Checked α :=
  require value "undefined read of a manifest"

/-- The bytes and the domain of a module record. -/
def readModuleRecord (files : PackageFiles) (entry : Json) : Option (String × List String) := do
  let record ← entry.asObject?
  let domain ← readStrings (record.getArray "targets")
  let path ← record.getString "path"
  let bytes ← files.find path
  pure (bytes, domain)

/-- The part of a domain that is required. -/
def selectedDomain (required domain : List String) : List String :=
  domain.filter fun target => target ∈ required

/-- What is checked of a request, with the number of its inputs, before they are linked. -/
def checkRequest (request : LinkRequest) (inputs : ℕ) : Checked Unit := do
  ensure (inputs = 0 → request.kind = "static") "publication link has no Sela object inputs"
  ensure (request.targetLinks ≠ [] →
      request.targetLinks.length = request.targets.ids.length ∧ request.settings = ⟨[], [], ""⟩)
    "native target link settings require the exact selected targets and no common override"
  ensure (request.targetLinks ≠ [] →
      ∀ target ∈ request.targets.ids, target ∈ request.targetLinks.map Prod.fst)
    "missing native target link settings"
  ensure (∀ entry ∈ request.inputDomains, entry.1 < inputs)
    "target-scoped input index is outside link inventory"
  ensure (∀ entry ∈ request.inputDomains, ∀ target ∈ entry.2.ids, target ∈ request.targets.ids)
    "input scope is outside requested publication targets"
  ensure (request.archiveNames ≠ [] →
      request.kind = "static" ∧ request.archiveNames.length = inputs)
    "archive member-name count does not match input members"

/-- A request that passes the checks. -/
structure CheckedRequest (request : LinkRequest) (inputs : ℕ) : Prop where
  nonempty : inputs = 0 → request.kind = "static"
  settings : request.targetLinks ≠ [] →
    request.targetLinks.length = request.targets.ids.length ∧ request.settings = ⟨[], [], ""⟩
  targetLinks : request.targetLinks ≠ [] →
    ∀ target ∈ request.targets.ids, target ∈ request.targetLinks.map Prod.fst
  indices : ∀ entry ∈ request.inputDomains, entry.1 < inputs
  scope : ∀ entry ∈ request.inputDomains, ∀ target ∈ entry.2.ids, target ∈ request.targets.ids
  names : request.archiveNames ≠ [] →
    request.kind = "static" ∧ request.archiveNames.length = inputs

theorem checkRequest_ok {request : LinkRequest} {inputs : ℕ} {u : Unit} :
    checkRequest request inputs = .ok u ↔ CheckedRequest request inputs := by
  unfold checkRequest
  simp only [bind_ok, ensure_ok, exists_and_left, exists_const]
  constructor
  · rintro ⟨hnonempty, hsettings, hlinks, hindices, hscope, hnames⟩
    exact ⟨hnonempty, hsettings, hlinks, hindices, hscope, hnames⟩
  · exact fun h => ⟨h.nonempty, h.settings, h.targetLinks, h.indices, h.scope, h.names⟩

section

-- Whether the bytes of a module are one admissible on a domain.
variable (inspectArtifact : String → List String → Checked Unit)

/-- Admit one module of an input. -/
def admitModule (files : PackageFiles) (required : List String) (s : Admission) (entry : Json) :
    Checked Admission := do
  let record ← unchecked (readModuleRecord files entry)
  ensure (s.modules.length < 510 ∧
      record.1.length ≤ 64 * 1024 * 1024 - s.aggregateBytes)
    "linked Sela artifact exceeds module or byte limits"
  inspectArtifact record.1 record.2
  let aggregateBytes := s.aggregateBytes + record.1.length
  if selectedDomain required record.2 = [] then
    pure ⟨s.modules, aggregateBytes, s.moduleIndices ++ [none]⟩
  else
    pure ⟨s.modules ++ [⟨record.1, "O2", "", selectedDomain required record.2⟩], aggregateBytes,
      s.moduleIndices ++ [some s.modules.length]⟩

/-- The member name of the unit at `position` among the units of its target. -/
def memberName (request : LinkRequest) (inputIndex position : ℕ) (unit : ArtifactUnit) :
    Checked String :=
  if request.kind = "static" then
    if request.archiveNames = [] then pure ("m" ++ toString position ++ ".o")
    else do
      let member ← unchecked request.archiveNames[inputIndex]?
      pure member.name
  else pure unit.archiveMember

/-- The index of a module in the output. -/
def renumber (moduleIndices : List (Option ℕ)) (index : ℕ) : Checked ℕ :=
  require moduleIndices[index]?.join "active compilation unit references an inactive input fragment"

/-- Plan one unit of an input for a target. -/
def planUnit (request : LinkRequest) (inputIndex : ℕ) (moduleIndices : List (Option ℕ))
    (target : String) (plan : CompilationPlan) (unit : ArtifactUnit) : Checked CompilationPlan := do
  let archiveMember ← memberName request inputIndex (plan.units target).length unit
  let modules ← unit.modules.mapM (renumber moduleIndices)
  pure (plan.push target ⟨modules, unit.optimization, archiveMember⟩)

/-- Plan the units of an input for a target it is required to provide. -/
def planTarget (request : LinkRequest) (inputIndex : ℕ) (inputPlan : CompilationPlan)
    (moduleIndices : List (Option ℕ)) (plan : CompilationPlan) (target : String) :
    Checked CompilationPlan := do
  let units ← unchecked (inputPlan.lookup target)
  ensure (request.kind = "static" → units.length = 1)
    "static output requires one native compilation unit per archive input member"
  units.foldlM (planUnit request inputIndex moduleIndices target) plan

/-- The libraries an input depends on for a target. -/
def addDependencies (dependencies : LinkPlan) (inputLinks : List (String × List String))
    (target : String) : Checked (List (String × List String)) := do
  let link ← unchecked (dependencies.lookup target)
  pure (Association.update target (fun libraries => libraries.getD [] ++ link.libraries) inputLinks)

/-- Link one input. -/
def linkInput (format : PackageFormat) (request : LinkRequest) (s : LinkState)
    (input : PackageFiles × ℕ) : Checked LinkState := do
  let object ← validatePackage format input.1
  ensure (object.getString "kind" = some "object")
    "publication link requires relocatable Sela inputs"
  let admitted ← unchecked (readStrings (object.getArray "targets"))
  ensure (∀ target ∈ (request.required input.2).ids, target ∈ admitted)
    "a requested target is missing from an input; publication never silently narrows its target selection"
  let inputPlan ← readCompilationPlan object
  let dependencies ← unchecked (readLinkPlan object input.1)
  let inputLinks ← (request.required input.2).ids.foldlM (addDependencies dependencies) s.inputLinks
  let entries ← unchecked (object.getArray "modules")
  let admission ← entries.foldlM (admitModule inspectArtifact input.1 (request.required input.2).ids)
    ⟨s.modules, s.aggregateBytes, []⟩
  let plan ← (request.required input.2).ids.foldlM
    (planTarget request input.2 inputPlan admission.moduleIndices) s.compilationPlan
  pure ⟨admission.modules, admission.aggregateBytes, plan, inputLinks⟩

/-- Link the inputs of a request : the link before the orders of its units. -/
def linkInputs (format : PackageFormat) (request : LinkRequest) (inputs : List PackageFiles) :
    Checked LinkState := do
  checkRequest request inputs.length
  let s ← inputs.zipIdx.foldlM (linkInput inspectArtifact format request) ⟨[], 0, [], []⟩
  pure { s with compilationPlan := s.compilationPlan.restrict request.targets.ids }

end

/-! ## The manifest of the output -/

/-- The record of the module at `index`. -/
def moduleRecord (format : PackageFormat) (targets : List String) (entry : ArtifactModule × ℕ) :
    Json :=
  .object [("path", .string (modulePath entry.2)),
    ("sha256", .string (format.digest entry.1.bytecode)),
    ("targets", .array ((if entry.1.targets = [] then targets else entry.1.targets).map Json.string))]

def unitRecord (unit : ArtifactUnit) : Json :=
  .object ([("modules", .array (unit.modules.map fun index : ℕ => Json.integer index)),
    ("optimization", .string unit.optimization)] ++
      if unit.archiveMember = "" then [] else [("archive_member", .string unit.archiveMember)])

/-- The manifest of an artifact, before its link records. -/
def artifactManifest (format : PackageFormat) (kind : String) (modules : List ArtifactModule)
    (libraries linkOptions targets : List String) (plan : CompilationPlan) : Json.Object :=
  [("format_version", .integer artifactFormatVersion), ("contract", .string contract),
    ("kind", .string kind), ("targets", .array (targets.map Json.string)),
    ("runtime", .string "glibc-2.39-0ubuntu8.8"),
    ("libraries", .array (libraries.map Json.string)),
    ("link_options", .array (linkOptions.map Json.string)),
    ("modules", .array (modules.zipIdx.map (moduleRecord format targets))),
    ("compilation_units", .object (plan.map fun entry =>
      (entry.1, .array (entry.2.map unitRecord))))]

/-! ## What a link preserves -/

/-- One linked input : its position, the bytes and the domains of its modules, its plan, and
the index in the output of each of its modules. -/
structure LinkedInput where
  index : ℕ
  records : List (String × List String)
  plan : CompilationPlan
  moduleIndices : List (Option ℕ)

/-- The data of a linked input are those of its package, which is accepted and relocatable
and declares the targets required of it. -/
structure ReadsInput (format : PackageFormat) (request : LinkRequest)
    (package : PackageFiles × ℕ) (input : LinkedInput) : Prop where
  index : input.index = package.2
  package : ∃ manifest, validatePackage format package.1 = .ok manifest ∧
    manifest.getString "kind" = some "object" ∧
    (∃ entries, manifest.getArray "modules" = some entries ∧
      entries.mapM (readModuleRecord package.1) = some input.records) ∧
    readCompilationPlan manifest = .ok input.plan ∧
    ∃ targets, readStrings (manifest.getArray "targets") = some targets ∧
      ∀ target ∈ (request.required input.index).ids, target ∈ targets

/-- A module none of whose targets is required has no index. Any other is at its index in the
output, with its bytes and the required part of its domain. -/
def Retained (modules : List ArtifactModule) (required : List String)
    (record : String × List String) : Option ℕ → Prop
  | none => selectedDomain required record.2 = []
  | some index => selectedDomain required record.2 ≠ [] ∧
      modules[index]? = some ⟨record.1, "O2", "", selectedDomain required record.2⟩

/-- The units an input provides for a target. -/
def LinkedInput.units (request : LinkRequest) (target : String) (input : LinkedInput) :
    List (LinkedInput × ArtifactUnit) :=
  if target ∈ (request.required input.index).ids then
    (input.plan.units target).map fun unit => (input, unit)
  else []

/-- A unit of the output is one of an input, with its modules numbered anew; the member name
of a static archive is given by its position among the units. -/
structure LinkedUnit (request : LinkRequest) (source : (LinkedInput × ArtifactUnit) × ℕ)
    (unit : ArtifactUnit) : Prop where
  optimization : unit.optimization = source.1.2.optimization
  modules : List.Forall₂ (fun index index' => source.1.1.moduleIndices[index]? = some (some index'))
    source.1.2.modules unit.modules
  archiveMember : memberName request source.1.1.index source.2 source.1.2 = .ok unit.archiveMember

theorem LinkedInput.eq_of_mem_units {request : LinkRequest} {target : String} {input : LinkedInput}
    {source : LinkedInput × ArtifactUnit} (h : source ∈ input.units request target) :
    source.1 = input := by
  unfold LinkedInput.units at h
  split at h
  · obtain ⟨unit, -, rfl⟩ := List.mem_map.mp h
    rfl
  · simp at h

/-- The index in the output of a module of an input. -/
def outputIndex (inputs : List LinkedInput) (input index : ℕ) : Option ℕ := do
  let found ← inputs[input]?
  found.moduleIndices[index]?.join

/-- What a link makes of its inputs. -/
structure Linked (request : LinkRequest) (inputs : List LinkedInput) (modules : List ArtifactModule)
    (plan : CompilationPlan) : Prop where
  retained : ∀ input ∈ inputs, List.Forall₂ (Retained modules (request.required input.index).ids)
    input.records input.moduleIndices
  numbering : (inputs.flatMap LinkedInput.moduleIndices).reduceOption = List.range modules.length
  units : ∀ target, List.Forall₂ (LinkedUnit request)
    (inputs.flatMap (LinkedInput.units request target)).zipIdx (plan.units target)

/-! ## Modules -/

theorem Retained.append {modules : List ArtifactModule} {required : List String}
    {record : String × List String} {slot : Option ℕ} (h : Retained modules required record slot)
    (added : List ArtifactModule) : Retained (modules ++ added) required record slot := by
  match slot, h with
  | none, h => exact h
  | some index, ⟨hne, hget⟩ =>
    obtain ⟨hlt, -⟩ := List.getElem?_eq_some_iff.mp hget
    exact ⟨hne, by rw [List.getElem?_append_left hlt, hget]⟩

/-- The modules of one input, in a state of the loop over them. -/
structure AdmittedModules (files : PackageFiles) (required : List String)
    (start : List ArtifactModule) (passed : List Json) (a : Admission) : Prop where
  modules : ∃ added records, a.modules = start ++ added ∧
    List.Forall₂ (fun entry record => readModuleRecord files entry = some record) passed records ∧
    List.Forall₂ (Retained a.modules required) records a.moduleIndices ∧
    a.moduleIndices.reduceOption = List.range' start.length added.length
  bound : a.modules.length ≤ 510

variable {inspectArtifact : String → List String → Checked Unit}

theorem foldlM_admitModule_ok {files : PackageFiles} {required : List String}
    {start : List ArtifactModule} {aggregateBytes : ℕ} {entries : List Json} {a : Admission}
    (hstart : start.length ≤ 510)
    (h : entries.foldlM (admitModule inspectArtifact files required) ⟨start, aggregateBytes, []⟩ =
      .ok a) :
    AdmittedModules files required start entries a := by
  have hnil : AdmittedModules files required start [] ⟨start, aggregateBytes, []⟩ :=
    ⟨⟨[], [], by simp, .nil, .nil, rfl⟩, hstart⟩
  refine foldlM_invariant (AdmittedModules files required start) hnil ?_ h
  intro passed entry rest s s' _ hsofar hstep
  obtain ⟨added, records, hmodules, hread, hretained, hnumbering⟩ := hsofar.modules
  unfold admitModule at hstep
  obtain ⟨record, hrecord, hstep⟩ := bind_ok.mp hstep
  obtain ⟨_, hlimits, hstep⟩ := bind_ok.mp hstep
  obtain ⟨_, -, hstep⟩ := bind_ok.mp hstep
  have hread : List.Forall₂ (fun entry record => readModuleRecord files entry = some record)
      (passed ++ [entry]) (records ++ [record]) :=
    List.rel_append hread (.cons (require_ok.mp hrecord) .nil)
  split at hstep
  · rename_i hnone
    obtain rfl := Except.ok.inj hstep
    refine ⟨⟨added, _, hmodules, hread, List.rel_append hretained (.cons hnone .nil), ?_⟩,
      hsofar.bound⟩
    simpa [List.reduceOption_append] using hnumbering
  · rename_i hsome
    obtain rfl := Except.ok.inj hstep
    obtain ⟨hlength, -⟩ := ensure_ok.mp hlimits
    refine ⟨⟨added ++ [_], _, by rw [hmodules, List.append_assoc], hread, List.rel_append
      (hretained.imp fun _ _ hslot => hslot.append _) (.cons ⟨hsome, by simp⟩ .nil), ?_⟩, ?_⟩
    · rw [List.reduceOption_append, hnumbering]
      simp [hmodules, List.range'_concat]
    · rw [List.length_append, List.length_singleton]
      exact hlength

/-! ## Units -/

/-- The units of one input for one target follow those planned before; the other targets keep
theirs. -/
structure PlannedUnits (request : LinkRequest) (target : String)
    (sources : List (LinkedInput × ArtifactUnit)) (plan plan' : CompilationPlan) : Prop where
  units : ∃ new, plan'.units target = plan.units target ++ new ∧
    List.Forall₂ (LinkedUnit request) (sources.zipIdx (plan.units target).length) new
  other : ∀ other, other ≠ target → plan'.units other = plan.units other
  keys : (plan.map Prod.fst).Nodup → (plan'.map Prod.fst).Nodup

theorem planUnit_ok {request : LinkRequest} {input : LinkedInput} {target : String}
    {plan plan' : CompilationPlan} {unit : ArtifactUnit}
    (h : planUnit request input.index input.moduleIndices target plan unit = .ok plan') :
    PlannedUnits request target [(input, unit)] plan plan' := by
  unfold planUnit at h
  obtain ⟨archiveMember, hmember, h⟩ := bind_ok.mp h
  obtain ⟨modules, hmodules, h⟩ := bind_ok.mp h
  obtain rfl := Except.ok.inj h
  have hindices : List.Forall₂
      (fun index index' => input.moduleIndices[index]? = some (some index')) unit.modules modules :=
    (mapM_ok.mp hmodules).imp fun index index' hindex =>
      Option.join_eq_some_iff.mp (require_ok.mp hindex)
  refine ⟨⟨[⟨modules, unit.optimization, archiveMember⟩], by simp [CompilationPlan.units_push],
    .cons ⟨rfl, hindices, hmember⟩ .nil⟩, fun other hother => ?_, Association.nodup_keys_update⟩
  rw [CompilationPlan.units_push, if_neg hother]

theorem PlannedUnits.trans {request : LinkRequest} {target : String}
    {sources sources' : List (LinkedInput × ArtifactUnit)} {plan plan' plan'' : CompilationPlan}
    (h : PlannedUnits request target sources plan plan')
    (h' : PlannedUnits request target sources' plan' plan'') :
    PlannedUnits request target (sources ++ sources') plan plan'' := by
  obtain ⟨new, hnew, hlinked⟩ := h.units
  obtain ⟨new', hnew', hlinked'⟩ := h'.units
  refine ⟨⟨new ++ new', by rw [hnew', hnew, List.append_assoc], ?_⟩,
    fun other hother => (h'.other other hother).trans (h.other other hother),
    fun hkeys => h'.keys (h.keys hkeys)⟩
  rw [List.zipIdx_append]
  refine List.rel_append hlinked ?_
  have hlength : (plan'.units target).length = (plan.units target).length + sources.length := by
    have := hlinked.length_eq
    rw [List.length_zipIdx] at this
    rw [hnew, List.length_append, this]
  rw [hlength] at hlinked'
  exact hlinked'

theorem foldlM_planUnit_ok {request : LinkRequest} {input : LinkedInput} {target : String}
    {units : List ArtifactUnit} {plan plan' : CompilationPlan}
    (h : units.foldlM (planUnit request input.index input.moduleIndices target) plan = .ok plan') :
    PlannedUnits request target (units.map fun unit => (input, unit)) plan plan' := by
  have hnil : PlannedUnits request target (([] : List ArtifactUnit).map fun unit => (input, unit))
      plan plan := ⟨⟨[], by simp, .nil⟩, fun _ _ => rfl, id⟩
  refine foldlM_invariant (fun passed plan' => PlannedUnits request target
    (passed.map fun unit => (input, unit)) plan plan') hnil ?_ h
  intro passed unit rest plan₁ plan₂ _ hsofar hstep
  rw [List.map_append]
  exact hsofar.trans (planUnit_ok hstep)

/-- The units of one input follow those planned before, for each of the targets passed. -/
structure PlannedTargets (request : LinkRequest) (input : LinkedInput) (plan : CompilationPlan)
    (passed : List String) (plan' : CompilationPlan) : Prop where
  units : ∀ target, ∃ new, plan'.units target = plan.units target ++ new ∧
    List.Forall₂ (LinkedUnit request)
      ((if target ∈ passed then (input.plan.units target).map fun unit => (input, unit)
        else []).zipIdx (plan.units target).length) new
  keys : (plan.map Prod.fst).Nodup → (plan'.map Prod.fst).Nodup

theorem foldlM_planTarget_ok {request : LinkRequest} {input : LinkedInput} {targets : List String}
    {plan plan' : CompilationPlan} (hnodup : targets.Nodup)
    (h : targets.foldlM (planTarget request input.index input.plan input.moduleIndices) plan =
      .ok plan') :
    PlannedTargets request input plan targets plan' := by
  have hnil : PlannedTargets request input plan [] plan := ⟨fun target => ⟨[], by simp, .nil⟩, id⟩
  refine foldlM_invariant (PlannedTargets request input plan) hnil ?_ h
  intro passed target rest plan₁ plan₂ heq hsofar hstep
  -- The targets are distinct, so the units of this one are those before the input.
  have hnew : target ∉ passed := by
    obtain rfl : targets = passed ++ target :: rest := by simpa using heq
    intro hmem
    exact (List.nodup_append.mp hnodup).2.2 target hmem target (by simp) rfl
  unfold planTarget at hstep
  obtain ⟨units, hunits, hstep⟩ := bind_ok.mp hstep
  obtain ⟨_, -, hstep⟩ := bind_ok.mp hstep
  have hplanned := foldlM_planUnit_ok hstep
  have hsource : input.plan.units target = units := by
    rw [CompilationPlan.units, require_ok.mp hunits, Option.getD_some]
  refine ⟨fun other => ?_, fun hkeys => hplanned.keys (hsofar.keys hkeys)⟩
  by_cases hother : other = target
  · subst hother
    obtain ⟨before, hbefore, hnone⟩ := hsofar.units other
    rw [if_neg hnew, List.zipIdx_nil, List.forall₂_nil_left_iff] at hnone
    rw [hnone, List.append_nil] at hbefore
    rw [if_pos (by simp), hsource, ← hbefore]
    exact hplanned.units
  · have hmem : other ∈ passed ++ [target] ↔ other ∈ passed := by simp [hother]
    rw [hplanned.other other hother]
    simpa only [hmem] using hsofar.units other

/-! ## Numbering -/

/-- Where the numbers given are distinct, a number is given once. -/
theorem slot_injective : ∀ {slots : List (Option ℕ)} {i j k : ℕ}, slots.reduceOption.Nodup →
    slots[i]? = some (some k) → slots[j]? = some (some k) → i = j
  | slot :: slots, i, j, k, hnodup, hi, hj => by
    have htail : slots.reduceOption.Nodup := by
      cases slot with
      | none => simpa using hnodup
      | some _ => exact (List.nodup_cons.mp (by simpa using hnodup)).2
    -- A number given to the first is given to no other.
    have hhead : ∀ {n : ℕ}, slot = some k → slots[n]? ≠ some (some k) := by
      rintro n rfl hn
      exact (List.nodup_cons.mp (by simpa using hnodup)).1
        (List.reduceOption_mem_iff.mpr (List.mem_of_getElem? hn))
    cases i with
    | zero =>
      cases j with
      | zero => rfl
      | succ j => exact absurd hj (hhead (Option.some.inj hi))
    | succ i =>
      cases j with
      | zero => exact absurd hi (hhead (Option.some.inj hj))
      | succ j => exact congrArg Nat.succ (slot_injective htail hi hj)

theorem nodup_of_forall₂ {α β : Type} {R : α → β → Prop}
    (hR : ∀ x x' y, R x y → R x' y → x = x') {xs : List α} {ys : List β}
    (h : List.Forall₂ R xs ys) (hnodup : xs.Nodup) : ys.Nodup := by
  induction h with
  | nil => exact List.nodup_nil
  | cons hx hxs ih =>
    obtain ⟨hnew, hnodup⟩ := List.nodup_cons.mp hnodup
    refine List.nodup_cons.mpr ⟨fun hmem => ?_, ih hnodup⟩
    obtain ⟨x', hx', hR'⟩ := exists_of_forall₂_right hxs hmem
    exact hnew (hR _ _ _ hx hR' ▸ hx')

/-- Slots number domains after `before` others : an unnumbered domain is empty, and a number
is the position of its domain. -/
structure Numbered (before added domains : List (List String)) (slots : List (Option ℕ)) : Prop where
  slot : List.Forall₂ (fun domain slot => match slot with
    | none => domain = []
    | some k => (before ++ added)[k]? = some domain) domains slots
  numbering : slots.reduceOption = List.range' before.length added.length

namespace Numbered

variable {before added domains : List (List String)} {slots : List (Option ℕ)}

theorem domain (h : Numbered before added domains slots) {i k : ℕ}
    (hslot : slots[i]? = some (some k)) :
    ∃ domain, domains[i]? = some domain ∧ (before ++ added)[k]? = some domain := by
  obtain ⟨hlt, hget⟩ := List.getElem?_eq_some_iff.mp hslot
  have hlt' : i < domains.length := h.slot.length_eq ▸ hlt
  have := h.slot.get hlt' hlt
  rw [List.get_eq_getElem, List.get_eq_getElem, hget] at this
  exact ⟨domains[i], List.getElem?_eq_getElem hlt', this⟩

theorem mem (h : Numbered before added domains slots) {k : ℕ} :
    (∃ i : ℕ, slots[i]? = some (some k)) ↔ before.length ≤ k ∧ k < before.length + added.length := by
  rw [← List.mem_range'_1, ← h.numbering, List.reduceOption_mem_iff, List.mem_iff_getElem?]

theorem injective (h : Numbered before added domains slots) {i j k : ℕ}
    (hi : slots[i]? = some (some k)) (hj : slots[j]? = some (some k)) : i = j :=
  slot_injective (h.numbering ▸ List.nodup_range') hi hj

end Numbered

/-! ## Exactness -/

/-- Exact units stay exact when modules are added with the units that have them. -/
theorem ExactUnits.append {before added domains : List (List String)} {slots : List (Option ℕ)}
    {target : String} {old source new : List ArtifactUnit}
    (hslots : Numbered before added domains slots) (hold : ExactUnits before target old)
    (hsource : ExactUnits domains target source)
    (hnew : List.Forall₂ (fun unit unit' => List.Forall₂
      (fun index index' => slots[index]? = some (some index')) unit.modules unit'.modules) source new) :
    ExactUnits (before ++ added) target (old ++ new) := by
  have hflat := forall₂_flatMap hnew
  have hlt : ∀ k ∈ old.flatMap ArtifactUnit.modules, k < before.length := fun k hk => by
    obtain ⟨domain, hdomain, -⟩ := (hold.mem k).mp hk
    exact (List.getElem?_eq_some_iff.mp hdomain).1
  have hnodup : (new.flatMap ArtifactUnit.modules).Nodup := by
    refine nodup_of_forall₂ ?_ hflat hsource.nodup
    intro i j k hi hj
    exact hslots.injective hi hj
  refine ⟨?_, fun k => ?_⟩
  · rw [List.flatMap_append]
    refine List.nodup_append.mpr ⟨hold.nodup, hnodup, ?_⟩
    rintro k hk _ hk' rfl
    obtain ⟨i, -, hi⟩ := exists_of_forall₂_right hflat hk'
    have := hlt k hk
    have := (hslots.mem.mp ⟨i, hi⟩).1
    omega
  · rw [List.flatMap_append, List.mem_append]
    constructor
    · rintro (hk | hk)
      · obtain ⟨domain, hdomain, htarget⟩ := (hold.mem k).mp hk
        exact ⟨domain, by rw [List.getElem?_append_left (hlt k hk), hdomain], htarget⟩
      · obtain ⟨i, hi, hslot⟩ := exists_of_forall₂_right hflat hk
        obtain ⟨domain, hdomain, htarget⟩ := (hsource.mem i).mp hi
        obtain ⟨domain', hdomain', hget⟩ := hslots.domain hslot
        rw [hdomain] at hdomain'
        exact ⟨domain', hget, Option.some.inj hdomain' ▸ htarget⟩
    · rintro ⟨domain, hget, htarget⟩
      by_cases hk : k < before.length
      · rw [List.getElem?_append_left hk] at hget
        exact Or.inl ((hold.mem k).mpr ⟨domain, hget, htarget⟩)
      · obtain ⟨hbound, -⟩ := List.getElem?_eq_some_iff.mp hget
        rw [List.length_append] at hbound
        obtain ⟨i, hslot⟩ := hslots.mem.mpr ⟨Nat.le_of_not_lt hk, hbound⟩
        obtain ⟨domain', hdomain', hget'⟩ := hslots.domain hslot
        rw [hget] at hget'
        obtain rfl := Option.some.inj hget'
        obtain ⟨k', hk', hslot'⟩ := exists_of_forall₂_left hflat
          ((hsource.mem i).mpr ⟨domain, hdomain', htarget⟩)
        rw [hslot] at hslot'
        exact Or.inr ((Option.some.inj (Option.some.inj hslot')) ▸ hk')

/-- The domains of an input are lists of distinct targets. Its units for a target are exact
with respect to the required parts of the domains. -/
structure ExactInput (request : LinkRequest) (input : LinkedInput) : Prop where
  nodup : ∀ record ∈ input.records, record.2.Nodup
  units : ∀ target, ExactUnits (input.records.map fun record =>
      selectedDomain (request.required input.index).ids record.2) target
    ((input.units request target).map Prod.snd)
  valid : ∀ target, ∀ source ∈ input.units request target, ValidUnit "object" source.2

theorem ReadsInput.exactInput {format : PackageFormat} {request : LinkRequest}
    {package : PackageFiles × ℕ} {input : LinkedInput} (h : ReadsInput format request package input) :
    ExactInput request input := by
  obtain ⟨manifest, hmanifest, hkind, ⟨entries, hentries, hrecords⟩, hplan, targets, htargets,
    hprovided⟩ := h.package
  obtain ⟨targets', domains, plan, hvalid⟩ := validatePackage_ok hmanifest
  obtain rfl : targets = targets' := Option.some.inj (htargets.symm.trans hvalid.plan.2.declared)
  obtain rfl : input.plan = plan := Except.ok.inj (hplan.symm.trans hvalid.plan.1)
  have hdomains : input.records.map Prod.snd = domains := by
    obtain ⟨modules, hmodules, hread⟩ := hvalid.plan.2.modules
    rw [hentries] at hmodules
    obtain rfl := Option.some.inj hmodules
    refine map_eq_of_forall₂_left (fun entry record domain hrecord hdomain => ?_)
      (mapM_some.mp hrecords) hread
    obtain ⟨object, hobject, hdomain⟩ := hdomain
    simp only [readModuleRecord, hobject, hdomain, Option.bind_eq_bind, Option.bind_some,
      Option.bind_eq_some_iff] at hrecord
    obtain ⟨_, -, _, -, hrecord⟩ := hrecord
    exact (Option.some.inj hrecord) ▸ rfl
  refine (?_ : (∀ record ∈ input.records, record.2.Nodup) ∧ ∀ target,
      ExactUnits (input.records.map fun record =>
        selectedDomain (request.required input.index).ids record.2) target
        ((input.units request target).map Prod.snd) ∧
      ∀ source ∈ input.units request target, ValidUnit "object" source.2).elim
    fun hnodup hunits => ⟨hnodup, fun target => (hunits target).1, fun target => (hunits target).2⟩
  refine ⟨fun record hrecord => hvalid.plan.2.nodup _
    (hdomains ▸ List.mem_map.mpr ⟨record, hrecord, rfl⟩), fun target => ?_⟩
  unfold LinkedInput.units
  split
  · rename_i hrequired
    have htarget := hprovided target hrequired
    obtain ⟨units, hlookup, hexact⟩ := hvalid.units htarget
    have hunits : input.plan.units target = units := by
      rw [CompilationPlan.units, hlookup, Option.getD_some]
    obtain ⟨kind, hkind', hunit⟩ := hvalid.plan.2.kind
    rw [hkind] at hkind'
    obtain rfl := Option.some.inj hkind'
    have hmap : ((input.plan.units target).map fun unit => (input, unit)).map Prod.snd = units := by
      simp [hunits, Function.comp_def]
    rw [hmap]
    refine ⟨⟨hexact.nodup, fun index => (hexact.mem index).trans ?_⟩, fun source hsource => ?_⟩
    · rw [← hdomains]
      simp only [List.getElem?_map, Option.map_eq_some_iff, selectedDomain]
      constructor
      · rintro ⟨domain, ⟨record, hrecord, rfl⟩, htarget⟩
        exact ⟨_, ⟨record, hrecord, rfl⟩, by simp [htarget, hrequired]⟩
      · rintro ⟨_, ⟨record, hrecord, rfl⟩, htarget⟩
        exact ⟨_, ⟨record, hrecord, rfl⟩, (List.mem_filter.mp htarget).1⟩
    · obtain ⟨unit, hmem, rfl⟩ := List.mem_map.mp hsource
      obtain ⟨before, after, heq, -⟩ := List.lookup_eq_some_iff.mp hlookup
      exact hunit (target, units) (by simp [heq]) unit (hunits ▸ hmem)
  · rename_i hrequired
    refine ⟨⟨by simp, fun index => ?_⟩, by simp⟩
    simp [selectedDomain, hrequired]

/-! ## One input -/

/-- What linking one input makes of a link so far. -/
structure LinkedOne (format : PackageFormat) (request : LinkRequest) (package : PackageFiles × ℕ)
    (input : LinkedInput) (s s' : LinkState) : Prop where
  reads : ReadsInput format request package input
  modules : ∃ added, s'.modules = s.modules ++ added ∧
    input.moduleIndices.reduceOption = List.range' s.modules.length added.length
  retained : List.Forall₂ (Retained s'.modules (request.required input.index).ids) input.records
    input.moduleIndices
  bound : s'.modules.length ≤ 510
  planned : PlannedTargets request input s.compilationPlan (request.required input.index).ids
    s'.compilationPlan

theorem linkInput_ok {format : PackageFormat} {request : LinkRequest} {package : PackageFiles × ℕ}
    {s s' : LinkState} (hbound : s.modules.length ≤ 510)
    (h : linkInput inspectArtifact format request s package = .ok s') :
    ∃ input, LinkedOne format request package input s s' := by
  unfold linkInput at h
  obtain ⟨manifest, hmanifest, h⟩ := bind_ok.mp h
  obtain ⟨_, hkind, h⟩ := bind_ok.mp h
  obtain ⟨targets, htargets, h⟩ := bind_ok.mp h
  obtain ⟨_, hprovided, h⟩ := bind_ok.mp h
  obtain ⟨plan, hplan, h⟩ := bind_ok.mp h
  obtain ⟨dependencies, -, h⟩ := bind_ok.mp h
  obtain ⟨inputLinks, -, h⟩ := bind_ok.mp h
  obtain ⟨entries, hentries, h⟩ := bind_ok.mp h
  obtain ⟨admission, hadmission, h⟩ := bind_ok.mp h
  obtain ⟨plan', hplan', h⟩ := bind_ok.mp h
  obtain rfl := Except.ok.inj h
  have hadmitted := foldlM_admitModule_ok hbound hadmission
  obtain ⟨added, records, hmodules, hread, hretained, hnumbering⟩ := hadmitted.modules
  let input : LinkedInput := ⟨package.2, records, plan, admission.moduleIndices⟩
  have hplanned : PlannedTargets request input s.compilationPlan
      (request.required package.2).ids plan' :=
    foldlM_planTarget_ok (request.required package.2).nodup hplan'
  exact ⟨input, ⟨rfl, manifest, hmanifest, ensure_ok.mp hkind,
    ⟨entries, require_ok.mp hentries, mapM_some.mpr hread⟩, hplan, targets, require_ok.mp htargets,
    ensure_ok.mp hprovided⟩, ⟨added, hmodules, hnumbering⟩, hretained, hadmitted.bound, hplanned⟩

theorem LinkedOne.numbered {format : PackageFormat} {request : LinkRequest}
    {package : PackageFiles × ℕ} {input : LinkedInput} {s s' : LinkState}
    (h : LinkedOne format request package input s s') {added : List ArtifactModule}
    (hmodules : s'.modules = s.modules ++ added)
    (hnumbering : input.moduleIndices.reduceOption =
      List.range' s.modules.length added.length) :
    Numbered (s.modules.map ArtifactModule.targets) (added.map ArtifactModule.targets)
      (input.records.map fun record => selectedDomain (request.required input.index).ids record.2)
      input.moduleIndices := by
  refine ⟨List.forall₂_map_left_iff.mpr (h.retained.imp fun record slot hslot => ?_),
    by simpa using hnumbering⟩
  match slot, hslot with
  | none, hslot => exact hslot
  | some k, ⟨_, hget⟩ =>
    rw [← List.map_append, ← hmodules]
    simp [hget]

/-! ## The inputs -/

/-- The link, in a state of the loop over the inputs. -/
structure LinkedSoFar (format : PackageFormat) (request : LinkRequest)
    (passed : List (PackageFiles × ℕ)) (inputs : List LinkedInput) (s : LinkState) : Prop where
  reads : List.Forall₂ (ReadsInput format request) passed inputs
  linked : Linked request inputs s.modules s.compilationPlan
  exact_units : ∀ target, ExactUnits (s.modules.map ArtifactModule.targets) target
    (s.compilationPlan.units target)
  optimized : ∀ target, ∀ unit ∈ s.compilationPlan.units target,
    unit.modules ≠ [] ∧ unit.optimization ∈ optimizations
  domains : ∀ module ∈ s.modules, module.targets ≠ [] ∧ module.targets.Nodup
  bound : s.modules.length ≤ 510
  keys : (s.compilationPlan.map Prod.fst).Nodup

theorem LinkedOne.domains {format : PackageFormat} {request : LinkRequest}
    {package : PackageFiles × ℕ} {input : LinkedInput} {s s' : LinkState}
    (h : LinkedOne format request package input s s')
    (hs : ∀ module ∈ s.modules, module.targets ≠ [] ∧ module.targets.Nodup) :
    ∀ module ∈ s'.modules, module.targets ≠ [] ∧ module.targets.Nodup := by
  obtain ⟨added, hmodules, hnumbering⟩ := h.modules
  intro module hmodule
  obtain ⟨k, hk⟩ := List.getElem?_of_mem hmodule
  by_cases hold : k < s.modules.length
  · rw [hmodules, List.getElem?_append_left hold] at hk
    exact hs module (List.mem_of_getElem? hk)
  · -- An added module is at the index of one of the input's, whose domain it has in part.
    obtain ⟨hlt, -⟩ := List.getElem?_eq_some_iff.mp hk
    rw [hmodules, List.length_append] at hlt
    have hmem : k ∈ input.moduleIndices.reduceOption := by
      rw [hnumbering, List.mem_range'_1]
      omega
    obtain ⟨record, hrecord, hne, hget⟩ :=
      exists_of_forall₂_right h.retained (List.reduceOption_mem_iff.mp hmem)
    rw [hk] at hget
    obtain rfl := Option.some.inj hget
    exact ⟨hne, (h.reads.exactInput.nodup record hrecord).filter _⟩

theorem LinkedSoFar.step {format : PackageFormat} {request : LinkRequest}
    {passed : List (PackageFiles × ℕ)} {package : PackageFiles × ℕ} {inputs : List LinkedInput}
    {input : LinkedInput} {s s' : LinkState} (h : LinkedSoFar format request passed inputs s)
    (hone : LinkedOne format request package input s s') :
    LinkedSoFar format request (passed ++ [package]) (inputs ++ [input]) s' := by
  obtain ⟨added, hmodules, hnumbering⟩ := hone.modules
  have hinput := hone.reads.exactInput
  have hnumbered := hone.numbered hmodules hnumbering
  -- The units of each target : those so far, then those of this input.
  have hunits : ∀ target, ∃ new, s'.compilationPlan.units target =
        s.compilationPlan.units target ++ new ∧
      List.Forall₂ (LinkedUnit request)
        ((input.units request target).zipIdx (s.compilationPlan.units target).length) new :=
    hone.planned.units
  have hsource : ∀ {target : String} {new : List ArtifactUnit}, List.Forall₂ (LinkedUnit request)
      ((input.units request target).zipIdx (s.compilationPlan.units target).length) new →
      List.Forall₂ (fun source unit => unit.optimization = source.2.optimization ∧ List.Forall₂
        (fun index index' => input.moduleIndices[index]? = some (some index')) source.2.modules
        unit.modules) (input.units request target) new := by
    intro target new hlinked
    refine forall₂_of_zipIdx (fun source hmem k unit hunit => ⟨hunit.optimization, ?_⟩) hlinked
    rw [← LinkedInput.eq_of_mem_units hmem]
    exact hunit.modules
  refine ⟨List.rel_append h.reads (.cons hone.reads .nil), ⟨?_, ?_, fun target => ?_⟩,
    fun target => ?_, fun target unit hunit => ?_, hone.domains h.domains, hone.bound,
    hone.planned.keys h.keys⟩
  · intro other hother
    rcases List.mem_append.mp hother with hother | hother
    · rw [hmodules]
      exact (h.linked.retained other hother).imp fun _ _ hslot => hslot.append added
    · rw [List.mem_singleton.mp hother]
      exact hone.retained
  · rw [List.flatMap_append, List.reduceOption_append, h.linked.numbering, List.flatMap_singleton,
      hnumbering, hmodules, List.length_append, List.range_eq_range', List.range_eq_range',
      ← List.range'_append_1, Nat.zero_add]
  · obtain ⟨new, hnew, hlinked⟩ := hunits target
    rw [hnew, List.flatMap_append, List.flatMap_singleton, List.zipIdx_append]
    refine List.rel_append (h.linked.units target) ?_
    have := (h.linked.units target).length_eq
    rw [List.length_zipIdx] at this
    rw [this, Nat.zero_add]
    exact hlinked
  · obtain ⟨new, hnew, hlinked⟩ := hunits target
    rw [hnew, hmodules, List.map_append]
    refine (h.exact_units target).append hnumbered (hinput.units target) ?_
    exact List.forall₂_map_left_iff.mpr ((hsource hlinked).imp fun _ _ hunit => hunit.2)
  · obtain ⟨new, hnew, hlinked⟩ := hunits target
    rw [hnew] at hunit
    rcases List.mem_append.mp hunit with hunit | hunit
    · exact h.optimized target unit hunit
    · obtain ⟨source, hmem, hlevel, hindices⟩ := exists_of_forall₂_right (hsource hlinked) hunit
      have hvalid := hinput.valid target source hmem
      refine ⟨fun hnil => ?_, hlevel ▸ hvalid.optimization⟩
      rw [hnil, List.forall₂_nil_right_iff] at hindices
      exact hvalid.nonempty hindices

/-! ## The plan of the output -/

namespace CompilationPlan

theorem units_tryEmplace (plan : CompilationPlan) (target other : String) :
    (plan.tryEmplace target).units other = plan.units other := by
  unfold units tryEmplace
  rw [Association.lookup_update]
  split
  · rename_i h
    rw [h]
    rfl
  · rfl

theorem units_restrict (plan : CompilationPlan) (targets : List String) (other : String) :
    (plan.restrict targets).units other = if other ∈ targets then plan.units other else [] := by
  have hfold : ∀ (names : List String) (start : CompilationPlan),
      (names.foldl tryEmplace start).units other = start.units other := by
    intro names
    induction names with
    | nil => exact fun _ => rfl
    | cons name names ih => exact fun start => (ih _).trans (units_tryEmplace start name other)
  unfold restrict
  rw [hfold, units, Association.lookup_filter (fun name => decide (name ∈ targets)) other plan]
  by_cases h : other ∈ targets
  · simp [h, units]
  · simp [h]

/-- The targets planned are those kept, each once. -/
theorem keys_restrict {plan : CompilationPlan} (hkeys : (plan.map Prod.fst).Nodup)
    (targets : List String) :
    ((plan.restrict targets).map Prod.fst).Nodup ∧
      ∀ target, target ∈ (plan.restrict targets).map Prod.fst ↔ target ∈ targets := by
  have hfold : ∀ (names : List String) (start : CompilationPlan), (start.map Prod.fst).Nodup →
      ((names.foldl tryEmplace start).map Prod.fst).Nodup ∧
        ∀ target, target ∈ (names.foldl tryEmplace start).map Prod.fst ↔
          target ∈ start.map Prod.fst ∨ target ∈ names := by
    intro names
    induction names with
    | nil => exact fun start hstart => ⟨hstart, by simp⟩
    | cons name names ih =>
      intro start hstart
      obtain ⟨hnodup, hmem⟩ := ih _ (Association.nodup_keys_update hstart)
      refine ⟨hnodup, fun target => (hmem target).trans ?_⟩
      refine (or_congr_left Association.mem_keys_update).trans ?_
      rw [List.mem_cons, or_assoc]
  have hstart : ((plan.filter fun entry => decide (entry.1 ∈ targets)).map Prod.fst).Nodup :=
    hkeys.sublist (List.filter_sublist.map _)
  obtain ⟨hnodup, hmem⟩ := hfold targets _ hstart
  refine ⟨hnodup, fun target => (hmem target).trans ⟨?_, Or.inr⟩⟩
  rintro (h | h)
  · obtain ⟨entry, hentry, rfl⟩ := List.mem_map.mp h
    exact of_decide_eq_true (List.mem_filter.mp hentry).2
  · exact h

end CompilationPlan

/-! ## Reading the manifest of the output -/

theorem readMembers_integers {domains : List (List String)} {target : String} :
    ∀ {indices seen : List ℕ}, (seen ++ indices).Nodup →
      (∀ index ∈ indices, ∃ domain, domains[index]? = some domain ∧ target ∈ domain) →
      readMembers domains target seen (indices.map fun index : ℕ => Json.integer index) = .ok indices
  | [], _, _, _ => rfl
  | index :: indices, seen, hnodup, hactive => by
    obtain ⟨domain, hdomain, htarget⟩ := hactive index (by simp)
    obtain ⟨hlt, -⟩ := List.getElem?_eq_some_iff.mp hdomain
    have hnew : index ∉ seen := fun hmem =>
      (List.nodup_append.mp hnodup).2.2 index hmem index (by simp) rfl
    have hrest : readMembers domains target (seen ++ [index])
        (indices.map fun index : ℕ => Json.integer index) = .ok indices :=
      readMembers_integers (by simpa using hnodup)
        fun other hother => hactive other (by simp [hother])
    rw [List.map_cons, readMembers]
    refine bind_ok.mpr ⟨_, rfl, bind_ok.mpr ⟨(), ensure_ok.mpr ⟨by omega, hlt, hnew⟩,
      bind_ok.mpr ⟨(), ensure_ok.mpr ?_, bind_ok.mpr ⟨indices, hrest, rfl⟩⟩⟩⟩
    rw [Int.toNat_natCast, hdomain]
    simpa using htarget

theorem readUnit_record {kind target : String} {domains : List (List String)} {seen : List ℕ}
    {unit : ArtifactUnit} (hvalid : ValidUnit kind unit) (hnodup : (seen ++ unit.modules).Nodup)
    (hactive : ∀ index ∈ unit.modules, ∃ domain, domains[index]? = some domain ∧ target ∈ domain) :
    readUnit kind domains target seen (unitRecord unit) = .ok unit := by
  have hmodules : (unitRecord unit).asObject? = some ([("modules",
      .array (unit.modules.map fun index : ℕ => Json.integer index)),
      ("optimization", .string unit.optimization)] ++
        if unit.archiveMember = "" then [] else [("archive_member", .string unit.archiveMember)]) := rfl
  have hmember : ∀ object : Json.Object, (unitRecord unit).asObject? = some object →
      readArchiveMember kind object = .ok unit.archiveMember := by
    intro object hobject
    obtain rfl := Option.some.inj (hmodules.symm.trans hobject)
    have harchive := hvalid.archiveMember
    unfold readArchiveMember
    split
    · rename_i hstatic
      rw [if_pos hstatic] at harchive
      have hne : unit.archiveMember ≠ "" := fun hempty => by simp [hempty, validArchiveMember] at harchive
      refine bind_ok.mpr ⟨unit.archiveMember, ?_, bind_ok.mpr ⟨(), ensure_ok.mpr harchive, rfl⟩⟩
      simp [hne, Json.Object.getString, Json.Object.get_cons]
    · rename_i hstatic
      rw [if_neg hstatic] at harchive
      refine bind_ok.mpr ⟨(), ensure_ok.mpr ?_, by rw [harchive]; rfl⟩
      simp [harchive, Json.Object.get_cons]
  have hindices : unit.modules.map (fun index : ℕ => Json.integer index) ≠ [] := by
    simpa using hvalid.nonempty
  unfold readUnit
  refine bind_ok.mpr ⟨_, require_ok.mpr hmodules, ?_⟩
  refine bind_ok.mpr ⟨(), ensure_ok.mpr ?_, bind_ok.mpr ⟨_, require_ok.mpr rfl,
    bind_ok.mpr ⟨_, require_ok.mpr rfl, bind_ok.mpr ⟨(), ensure_ok.mpr ⟨hindices, hvalid.optimization⟩,
    bind_ok.mpr ⟨_, hmember _ hmodules, bind_ok.mpr ⟨_, readMembers_integers hnodup hactive, rfl⟩⟩⟩⟩⟩⟩
  split <;> simp

theorem readUnits_records {kind target : String} {domains : List (List String)} :
    ∀ {units : List ArtifactUnit} {seen : List ℕ}, (∀ unit ∈ units, ValidUnit kind unit) →
      (seen ++ units.flatMap ArtifactUnit.modules).Nodup →
      (∀ index ∈ units.flatMap ArtifactUnit.modules,
        ∃ domain, domains[index]? = some domain ∧ target ∈ domain) →
      readUnits kind domains target seen (units.map unitRecord) = .ok units
  | [], _, _, _, _ => rfl
  | unit :: units, seen, hvalid, hnodup, hactive => by
    rw [List.flatMap_cons, ← List.append_assoc] at hnodup
    rw [List.flatMap_cons] at hactive
    have hunit := readUnit_record (hvalid unit (by simp)) (List.nodup_append.mp hnodup).1
      fun index hindex => hactive index (List.mem_append_left _ hindex)
    have hrest := readUnits_records (fun other hother => hvalid other (by simp [hother])) hnodup
      fun index hindex => hactive index (List.mem_append_right _ hindex)
    rw [List.map_cons, readUnits]
    exact bind_ok.mpr ⟨unit, hunit, bind_ok.mpr ⟨units, hrest, rfl⟩⟩

/-- Units that are exact and have modules are no more than the modules. -/
theorem ExactUnits.length_le {domains : List (List String)} {target : String}
    {units : List ArtifactUnit} (h : ExactUnits domains target units)
    (hne : ∀ unit ∈ units, unit.modules ≠ []) : units.length ≤ domains.length := by
  have hsubset : units.flatMap ArtifactUnit.modules ⊆ List.range domains.length := by
    intro index hindex
    obtain ⟨domain, hdomain, -⟩ := (h.mem index).mp hindex
    exact List.mem_range.mpr (List.getElem?_eq_some_iff.mp hdomain).1
  have hle := (List.subperm_of_subset h.nodup hsubset).length_le
  rw [List.length_range, List.length_flatMap] at hle
  refine Nat.le_trans ?_ hle
  clear hle hsubset h
  induction units with
  | nil => simp
  | cons unit units ih =>
    have hpos : 0 < unit.modules.length := List.length_pos_iff.mpr (hne unit (by simp))
    have := ih fun other hother => hne other (by simp [hother])
    rw [List.map_cons, List.sum_cons, List.length_cons]
    omega

theorem readModuleDomain_record {format : PackageFormat} {targets : List String}
    {entry : ArtifactModule × ℕ} (hne : entry.1.targets ≠ []) (hnodup : entry.1.targets.Nodup) :
    readModuleDomain (moduleRecord format targets entry) = .ok entry.1.targets := by
  have hdomain : ((moduleRecord format targets entry).asObject?.bind
      (Json.Object.getArray · "targets")) = some (entry.1.targets.map Json.string) := by
    simp [moduleRecord, Json.Object.getArray, Json.Object.get_cons, hne]
  have hids : (entry.1.targets.map Json.string).mapM
      (fun json => require json.asString? "invalid module target domain") = .ok entry.1.targets :=
    mapM_ok.mpr (List.forall₂_map_left_iff.mpr (List.forall₂_same.mpr fun _ _ => rfl))
  unfold readModuleDomain readDomain
  refine bind_ok.mpr ⟨_, require_ok.mpr hdomain, bind_ok.mpr ⟨(), ensure_ok.mpr (by simpa using hne), ?_⟩⟩
  exact bind_ok.mpr ⟨_, hids, bind_ok.mpr ⟨(), ensure_ok.mpr ⟨by simp, hnodup⟩, rfl⟩⟩

/-- The manifest of an artifact whose plan is exact is read back as that plan. -/
theorem readCompilationPlan_manifest {format : PackageFormat} {kind : String}
    {modules : List ArtifactModule} {libraries linkOptions targets : List String}
    {plan : CompilationPlan} (htargets : targets.Nodup) (hkeys : (plan.map Prod.fst).Nodup)
    (hmem : ∀ target, target ∈ plan.map Prod.fst ↔ target ∈ targets)
    (hdomains : ∀ module ∈ modules, module.targets ≠ [] ∧ module.targets.Nodup)
    (hexact : ∀ target ∈ targets,
      ExactUnits (modules.map ArtifactModule.targets) target (plan.units target))
    (hvalid : ∀ target ∈ targets, ∀ unit ∈ plan.units target, ValidUnit kind unit) :
    readCompilationPlan (artifactManifest format kind modules libraries linkOptions targets plan) =
      .ok (targets.map fun target => (target, plan.units target)) := by
  have hplans : (artifactManifest format kind modules libraries linkOptions targets plan).getObject
      "compilation_units" = some (plan.map fun entry =>
        (entry.1, .array (entry.2.map unitRecord))) := rfl
  have hdeclared : (artifactManifest format kind modules libraries linkOptions targets plan).getArray
      "targets" = some (targets.map Json.string) := rfl
  have hmodules : (artifactManifest format kind modules libraries linkOptions targets plan).getArray
      "modules" = some (modules.zipIdx.map (moduleRecord format targets)) := rfl
  have hkind : (artifactManifest format kind modules libraries linkOptions targets plan).getString
      "kind" = some kind := rfl
  have hlength : plan.length = targets.length := by
    have := ((List.perm_ext_iff_of_nodup hkeys htargets).mpr hmem).length_eq
    rwa [List.length_map] at this
  have hread : (modules.zipIdx.map (moduleRecord format targets)).mapM readModuleDomain =
      .ok (modules.map ArtifactModule.targets) := by
    have hmap : modules.map ArtifactModule.targets =
        modules.zipIdx.map fun entry => entry.1.targets := by
      conv_lhs => rw [← List.zipIdx_map_fst 0 modules]
      rw [List.map_map]
      rfl
    rw [hmap]
    refine mapM_ok.mpr (List.forall₂_map_left_iff.mpr (List.forall₂_map_right_iff.mpr
      (List.forall₂_same.mpr fun entry hentry => ?_)))
    obtain ⟨hne, hnodup⟩ := hdomains entry.1
      (List.mem_of_getElem? (List.mem_zipIdx_iff_getElem?.mp hentry))
    exact readModuleDomain_record hne hnodup
  unfold readCompilationPlan
  rw [hplans, hdeclared, hmodules, hkind]
  refine bind_ok.mpr ⟨(), ensure_ok.mpr (by simpa using hlength), bind_ok.mpr ⟨_, hread, mapM_ok.mpr ?_⟩⟩
  refine List.forall₂_map_left_iff.mpr (List.forall₂_map_right_iff.mpr
    (List.forall₂_same.mpr fun target htarget => ?_))
  have hentry : Json.Object.getArray (plan.map fun entry => (entry.1, Json.array (entry.2.map unitRecord)))
      target = some ((plan.units target).map unitRecord) := by
    obtain ⟨units, hlookup⟩ :=
      Option.isSome_iff_exists.mp (Association.lookup_isSome_iff_mem.mpr ((hmem target).mpr htarget))
    rw [CompilationPlan.units, Json.Object.getArray, Json.Object.get,
      Association.lookup_map (fun units : List ArtifactUnit => Json.array (units.map unitRecord))
        target plan, hlookup]
    rfl
  have hunits := hexact target htarget
  have hlevel := hvalid target htarget
  unfold readTargetPlan
  refine bind_ok.mpr ⟨target, rfl, bind_ok.mpr ⟨_, require_ok.mpr hentry, ?_⟩⟩
  refine bind_ok.mpr ⟨(), ensure_ok.mpr ?_, bind_ok.mpr ⟨plan.units target, ?_, ?_⟩⟩
  · rw [List.length_map]
    exact hunits.length_le fun unit hunit => (hlevel unit hunit).nonempty
  · exact readUnits_records hlevel (by simpa using hunits.nodup) fun index hindex =>
      (hunits.mem index).mp hindex
  · refine bind_ok.mpr ⟨(), ensure_ok.mpr fun entry hentry htarget => ?_, rfl⟩
    exact (hunits.mem entry.2).mpr ⟨entry.1, List.mem_zipIdx_iff_getElem?.mp hentry, htarget⟩

/-! ## The link -/

theorem LinkedSoFar.empty {format : PackageFormat} {request : LinkRequest} :
    LinkedSoFar format request [] [] ⟨[], 0, [], []⟩ where
  reads := .nil
  linked := ⟨by simp, by simp, fun _ => .nil⟩
  exact_units target := ⟨by simp [CompilationPlan.units], by simp [CompilationPlan.units]⟩
  optimized target := by simp [CompilationPlan.units]
  domains := by simp
  bound := by simp
  keys := by simp

theorem foldlM_linkInput_ok {format : PackageFormat} {request : LinkRequest}
    {packages : List (PackageFiles × ℕ)} {s : LinkState}
    (h : packages.foldlM (linkInput inspectArtifact format request) ⟨[], 0, [], []⟩ = .ok s) :
    ∃ inputs, LinkedSoFar format request packages inputs s := by
  refine foldlM_invariant (fun passed s => ∃ inputs, LinkedSoFar format request passed inputs s)
    ⟨[], LinkedSoFar.empty⟩ ?_ h
  rintro passed package rest s s' _ ⟨inputs, hsofar⟩ hstep
  obtain ⟨input, hone⟩ := linkInput_ok hsofar.bound hstep
  exact ⟨inputs ++ [input], hsofar.step hone⟩

/-- There are no more units for a target than modules. -/
theorem LinkedSoFar.length_le {format : PackageFormat} {request : LinkRequest}
    {passed : List (PackageFiles × ℕ)} {inputs : List LinkedInput} {s : LinkState}
    (h : LinkedSoFar format request passed inputs s) (target : String) :
    (s.compilationPlan.units target).length ≤ 510 := by
  have hle := (h.exact_units target).length_le fun unit hunit => (h.optimized target unit hunit).1
  rw [List.length_map] at hle
  exact Nat.le_trans hle h.bound

/-- An index in the output is that of one module. -/
theorem outputIndex_injective : ∀ {inputs : List LinkedInput} {i j m n k : ℕ},
    (inputs.flatMap LinkedInput.moduleIndices).reduceOption.Nodup →
    outputIndex inputs i m = some k → outputIndex inputs j n = some k → i = j ∧ m = n
  | [], i, j, m, n, k, _, hi, _ => by simp [outputIndex] at hi
  | input :: inputs, i, j, m, n, k, hnodup, hi, hj => by
    rw [List.flatMap_cons, List.reduceOption_append] at hnodup
    obtain ⟨hfirst, hrest, hdisjoint⟩ := List.nodup_append.mp hnodup
    have hhead : ∀ {n : ℕ}, outputIndex (input :: inputs) 0 n = some k →
        input.moduleIndices[n]? = some (some k) := fun {n} hn => by
      simpa [outputIndex, Option.join_eq_some_iff] using hn
    have htail : ∀ {j n : ℕ}, outputIndex (input :: inputs) (j + 1) n = some k →
        outputIndex inputs j n = some k := id
    have hmem : ∀ {j n : ℕ}, outputIndex inputs j n = some k →
        k ∈ (inputs.flatMap LinkedInput.moduleIndices).reduceOption := fun {j n} hn => by
      obtain ⟨found, hfound, hslot⟩ := Option.bind_eq_some_iff.mp hn
      exact List.reduceOption_mem_iff.mpr (List.mem_flatMap.mpr ⟨found, List.mem_of_getElem? hfound,
        List.mem_of_getElem? (Option.join_eq_some_iff.mp hslot)⟩)
    have hfresh : ∀ {n j n' : ℕ}, outputIndex (input :: inputs) 0 n = some k →
        outputIndex inputs j n' ≠ some k := fun {n j n'} hn hn' =>
      hdisjoint k (List.reduceOption_mem_iff.mpr (List.mem_of_getElem? (hhead hn))) k (hmem hn') rfl
    match i, j with
    | 0, 0 => exact ⟨rfl, slot_injective hfirst (hhead hi) (hhead hj)⟩
    | 0, j + 1 => exact absurd (htail hj) (hfresh hi)
    | i + 1, 0 => exact absurd (htail hi) (hfresh hj)
    | i + 1, j + 1 =>
      obtain ⟨rfl, rfl⟩ := outputIndex_injective hrest (htail hi) (htail hj)
      exact ⟨rfl, rfl⟩

theorem exists_outputIndex {inputs : List LinkedInput} {k : ℕ} :
    (∃ i m, outputIndex inputs i m = some k) ↔
      k ∈ (inputs.flatMap LinkedInput.moduleIndices).reduceOption := by
  rw [List.reduceOption_mem_iff, List.mem_flatMap]
  simp only [List.mem_iff_getElem?, outputIndex, Option.bind_eq_bind, Option.bind_eq_some_iff,
    Option.join_eq_some_iff]
  constructor
  · rintro ⟨i, m, input, hinput, hslot⟩
    exact ⟨input, ⟨i, hinput⟩, m, hslot⟩
  · rintro ⟨input, ⟨i, hinput⟩, m, hslot⟩
    exact ⟨i, m, input, hinput, hslot⟩

/-- Wherever the link numbers the modules of a unit anew, each of them has an index. -/
def RenumberingDefined (inspectArtifact : String → List String → Checked Unit)
    (format : PackageFormat) (request : LinkRequest) : Prop :=
  ∀ (package : PackageFiles × ℕ) (s : LinkState) (manifest : Json.Object) (targets : List String)
    (plan : CompilationPlan) (entries : List Json) (admission : Admission),
    validatePackage format package.1 = .ok manifest → manifest.getString "kind" = some "object" →
    readStrings (manifest.getArray "targets") = some targets →
    (∀ target ∈ (request.required package.2).ids, target ∈ targets) →
    readCompilationPlan manifest = .ok plan → manifest.getArray "modules" = some entries →
    s.modules.length ≤ 510 →
    entries.foldlM (admitModule inspectArtifact package.1 (request.required package.2).ids)
      ⟨s.modules, s.aggregateBytes, []⟩ = .ok admission →
    ∀ target ∈ (request.required package.2).ids, ∀ unit ∈ plan.units target,
      ∃ modules, unit.modules.mapM (renumber admission.moduleIndices) = .ok modules

/-- The plan of a link and what it has of the plans of its inputs. -/
structure Preserved (format : PackageFormat) (request : LinkRequest) (packages : List PackageFiles)
    (inputs : List LinkedInput) (s : LinkState) : Prop where
  reads : List.Forall₂ (ReadsInput format request) packages.zipIdx inputs
  linked : Linked request inputs s.modules s.compilationPlan
  /-- A module of a unit for a target is in the output, with its bytes and a domain that has
  the target. -/
  provided : ∀ target, ∀ source ∈ inputs.flatMap (LinkedInput.units request target),
    ∀ index ∈ source.2.modules, ∃ index' bytes domain,
      source.1.records[index]? = some (bytes, domain) ∧
      source.1.moduleIndices[index]? = some (some index') ∧
      s.modules[index']? = some ⟨bytes, "O2", "",
        selectedDomain (request.required source.1.index).ids domain⟩ ∧
      target ∈ selectedDomain (request.required source.1.index).ids domain
  /-- Distinct modules have distinct indices, and every index is that of a module. -/
  distinct : ∀ i j m n k, outputIndex inputs i m = some k → outputIndex inputs j n = some k →
    i = j ∧ m = n
  covered : ∀ k, k < s.modules.length ↔ ∃ i m, outputIndex inputs i m = some k
  planned : ∀ target, (s.compilationPlan.lookup target).isSome = true ↔ target ∈ request.targets.ids
  bound : ∀ target, (s.compilationPlan.units target).length ≤ 510
  exact_units : ∀ target ∈ request.targets.ids,
    ExactUnits (s.modules.map ArtifactModule.targets) target (s.compilationPlan.units target)
  accepted : readCompilationPlan (artifactManifest format request.kind s.modules [] []
      request.targets.ids s.compilationPlan) =
    .ok (request.targets.ids.map fun target => (target, s.compilationPlan.units target))

/-- A module of a unit an input provides for a target is retained, with the target. -/
theorem ExactInput.provided {request : LinkRequest} {input : LinkedInput}
    {modules : List ArtifactModule} (h : ExactInput request input)
    (hretained : List.Forall₂ (Retained modules (request.required input.index).ids) input.records
      input.moduleIndices) {target : String} {source : LinkedInput × ArtifactUnit}
    (hsource : source ∈ input.units request target) {index : ℕ}
    (hindex : index ∈ source.2.modules) :
    ∃ index' bytes domain, input.records[index]? = some (bytes, domain) ∧
      input.moduleIndices[index]? = some (some index') ∧
      modules[index']? = some ⟨bytes, "O2", "",
        selectedDomain (request.required input.index).ids domain⟩ ∧
      target ∈ selectedDomain (request.required input.index).ids domain := by
  obtain ⟨_, hdomain, htarget⟩ := ((h.units target).mem index).mp
    (List.mem_flatMap.mpr ⟨source.2, List.mem_map.mpr ⟨source, hsource, rfl⟩, hindex⟩)
  rw [List.getElem?_map, Option.map_eq_some_iff] at hdomain
  obtain ⟨⟨bytes, domain⟩, hrecord, rfl⟩ := hdomain
  obtain ⟨hlt, hget⟩ := List.getElem?_eq_some_iff.mp hrecord
  have hlt' : index < input.moduleIndices.length := hretained.length_eq ▸ hlt
  have hslot := hretained.get hlt hlt'
  rw [List.get_eq_getElem, List.get_eq_getElem, hget] at hslot
  -- The domain has the target, so the module is one of those with an index.
  cases hfound : input.moduleIndices[index] with
  | none =>
    rw [hfound] at hslot
    rw [show selectedDomain _ domain = [] from hslot] at htarget
    simp at htarget
  | some index' =>
    rw [hfound] at hslot
    exact ⟨index', bytes, domain, hrecord, by rw [List.getElem?_eq_getElem hlt', hfound], hslot.2,
      htarget⟩

theorem renumbering_defined (inspectArtifact : String → List String → Checked Unit)
    (format : PackageFormat) (request : LinkRequest) :
    RenumberingDefined inspectArtifact format request := by
  intro package s manifest targets plan entries admission hmanifest hkind htargets hprovided hplan
    hentries hbound hadmission target htarget unit hunit
  have hadmitted := foldlM_admitModule_ok hbound hadmission
  obtain ⟨added, records, hmodules, hread, hretained, hnumbering⟩ := hadmitted.modules
  let input : LinkedInput := ⟨package.2, records, plan, admission.moduleIndices⟩
  have hreads : ReadsInput format request package input :=
    ⟨rfl, manifest, hmanifest, hkind, ⟨entries, hentries, mapM_some.mpr hread⟩, hplan, targets,
      htargets, hprovided⟩
  have hsource : (input, unit) ∈ input.units request target := by
    rw [LinkedInput.units, if_pos htarget]
    exact List.mem_map.mpr ⟨unit, hunit, rfl⟩
  refine exists_mapM_ok fun index hindex => ?_
  obtain ⟨index', _, _, -, hslot, -, -⟩ := hreads.exactInput.provided hretained hsource hindex
  exact ⟨index', require_ok.mpr (Option.join_eq_some_iff.mpr hslot)⟩

theorem validArchiveMember_position {position : ℕ} (h : position ≤ 510) :
    validArchiveMember ("m" ++ toString position ++ ".o") = true := by
  have hdigits : ∀ c ∈ (toString position).toList, isAlphanumeric c = true := by
    intro c hc
    rw [Nat.toString_eq_repr, Nat.toList_repr] at hc
    have hdigit := Nat.isDigit_of_mem_toDigits (by decide) (by decide) hc
    have : '0' ≤ c ∧ c ≤ '9' := by simpa [Char.isDigit, Char.le_def] using hdigit
    simp [isAlphanumeric, this]
  have hlength : (toString position).length ≤ 3 := by
    rw [Nat.toString_eq_repr]
    exact (Nat.length_repr_le_iff (by decide)).mpr (by omega)
  have hlist : ("m" ++ toString position ++ ".o").toList =
      'm' :: ((toString position).toList ++ ['.', 'o']) := by simp
  have hne : ∀ name : String, name.toList.head? ≠ some 'm' →
      "m" ++ toString position ++ ".o" ≠ name := by
    rintro name hname rfl
    rw [hlist] at hname
    exact hname rfl
  have hsize : ("m" ++ toString position ++ ".o").length ≤ 128 := by
    rw [← String.length_toList, hlist]
    simp only [List.length_cons, List.length_append, List.length_nil, String.length_toList]
    omega
  unfold validArchiveMember
  rw [hlist]
  simp only [Bool.and_eq_true, decide_eq_true_eq, List.all_cons, List.all_append, List.all_eq_true]
  refine ⟨⟨⟨⟨hne _ (by decide), hsize⟩, hne _ (by decide)⟩, hne _ (by decide)⟩, by decide, ?_, ?_⟩
  · intro c hc
    simp [hdigits c hc]
  · simp [isAlphanumeric]

/-- The member name of a linked unit is one its kind of package admits. -/
theorem LinkedUnit.validUnit {request : LinkRequest} {source : (LinkedInput × ArtifactUnit) × ℕ}
    {unit : ArtifactUnit} (h : LinkedUnit request source unit) (hposition : source.2 ≤ 510)
    (hsource : ValidUnit "object" source.1.2) (hne : unit.modules ≠ []) :
    ValidUnit request.kind unit := by
  refine ⟨hne, h.optimization ▸ hsource.optimization, ?_⟩
  have hmember := h.archiveMember
  unfold memberName at hmember
  split
  · rename_i hstatic
    rw [if_pos hstatic] at hmember
    split at hmember
    · rw [← Except.ok.inj hmember]
      exact validArchiveMember_position hposition
    · obtain ⟨member, -, hmember⟩ := bind_ok.mp hmember
      rw [← Except.ok.inj hmember]
      exact member.valid
  · rename_i hstatic
    rw [if_neg hstatic] at hmember
    rw [← Except.ok.inj hmember]
    simpa using hsource.archiveMember

theorem linkInputs_ok {format : PackageFormat} {request : LinkRequest} {packages : List PackageFiles}
    {s : LinkState} (h : linkInputs inspectArtifact format request packages = .ok s) :
    ∃ inputs, Preserved format request packages inputs s := by
  unfold linkInputs at h
  obtain ⟨_, hcheck, h⟩ := bind_ok.mp h
  obtain ⟨last, hlast, h⟩ := bind_ok.mp h
  obtain rfl := Except.ok.inj h
  have hscope := (checkRequest_ok.mp hcheck).scope
  obtain ⟨inputs, hlinked⟩ := foldlM_linkInput_ok hlast
  have hrequired : ∀ index, ∀ target ∈ (request.required index).ids,
      target ∈ request.targets.ids := by
    intro index target htarget
    unfold LinkRequest.required at htarget
    cases hlookup : request.inputDomains.lookup index with
    | none => simpa [hlookup] using htarget
    | some domain =>
      rw [hlookup] at htarget
      obtain ⟨before, after, heq, -⟩ := List.lookup_eq_some_iff.mp hlookup
      exact hscope (index, domain) (by simp [heq]) target htarget
  have hexact : ∀ input ∈ inputs, ExactInput request input := fun input hinput => by
    obtain ⟨package, -, hreads⟩ := exists_of_forall₂_right hlinked.reads hinput
    exact hreads.exactInput
  have hunits : ∀ target ∈ request.targets.ids,
      (last.compilationPlan.restrict request.targets.ids).units target =
        last.compilationPlan.units target := fun target htarget => by
    rw [CompilationPlan.units_restrict, if_pos htarget]
  obtain ⟨hkeys, hmem⟩ := CompilationPlan.keys_restrict hlinked.keys request.targets.ids
  have hexactUnits : ∀ target ∈ request.targets.ids,
      ExactUnits (last.modules.map ArtifactModule.targets) target
        ((last.compilationPlan.restrict request.targets.ids).units target) :=
    fun target htarget => hunits target htarget ▸ hlinked.exact_units target
  refine ⟨inputs, hlinked.reads, ⟨hlinked.linked.retained, hlinked.linked.numbering,
    fun target => ?_⟩, fun target source hsource index hindex => ?_, fun i j m n k => ?_,
    fun k => ?_, fun target => ?_, fun target => ?_, hexactUnits, ?_⟩
  · by_cases htarget : target ∈ request.targets.ids
    · rw [hunits target htarget]
      exact hlinked.linked.units target
    · -- No input provides units for a target that is not requested.
      have hnone : inputs.flatMap (LinkedInput.units request target) = [] := by
        refine List.flatMap_eq_nil_iff.mpr fun input _ => ?_
        rw [LinkedInput.units, if_neg fun hmem => htarget (hrequired input.index target hmem)]
      rw [CompilationPlan.units_restrict, if_neg htarget, hnone]
      exact .nil
  · obtain ⟨input, hinput, hmem⟩ := List.mem_flatMap.mp hsource
    have hindices := (hexact input hinput).provided (hlinked.linked.retained input hinput) hmem hindex
    rwa [← LinkedInput.eq_of_mem_units hmem] at hindices
  · exact outputIndex_injective (hlinked.linked.numbering ▸ List.nodup_range)
  · rw [exists_outputIndex, hlinked.linked.numbering, List.mem_range]
  · rw [Association.lookup_isSome_iff_mem, hmem]
  · rw [CompilationPlan.units_restrict]
    split
    · exact hlinked.length_le target
    · simp
  · refine readCompilationPlan_manifest request.targets.nodup hkeys hmem hlinked.domains hexactUnits
      fun target htarget unit hunit => ?_
    rw [hunits target htarget] at hunit
    obtain ⟨source, hsource, hunit'⟩ := exists_of_forall₂_right (hlinked.linked.units target) hunit
    obtain ⟨input, hinput, hmem⟩ := List.mem_flatMap.mp (List.fst_mem_of_mem_zipIdx hsource)
    refine hunit'.validUnit ?_ ((hexact input hinput).valid target source.1 hmem)
      (hlinked.optimized target unit hunit).1
    have hlength := (hlinked.linked.units target).length_eq
    have hle := hlinked.length_le target
    have hlt := List.snd_lt_of_mem_zipIdx hsource
    rw [List.length_zipIdx] at hlength
    omega

/-- A link preserves the plan of every input, and its renumbering is always defined. -/
theorem linkInputs_preserves (inspectArtifact : String → List String → Checked Unit)
    (format : PackageFormat) (request : LinkRequest) :
    RenumberingDefined inspectArtifact format request ∧
      ∀ packages s, linkInputs inspectArtifact format request packages = .ok s →
        ∃ inputs, Preserved format request packages inputs s :=
  ⟨renumbering_defined inspectArtifact format request, fun _ _ h => linkInputs_ok h⟩

/-! ## An executable for two targets -/

/-- The format on some values and their texts. -/
def tableFormat (entries : List (String × Json)) (hdistinct : ∀ entry ∈ entries, entry.2.Distinct) :
    PackageFormat where
  parse text := require (entries.lookup text) "invalid JSON"
  parse_distinct h := hdistinct _ (Json.Object.mem_of_get (require_ok.mp h))
  jsonText json := ((entries.find? fun entry => entry.2 = json).map Prod.fst).getD ""
  digest contents :=
    if contents = "sela" then "523f3a83db8bd636be55536029b95b6c316b2106a69b896be20dea51000a0b9a"
    else ""

/-- A relocatable unit of one module, with the targets of its plan in the order of `planned`. -/
def soleManifest (planned targets : List String) : Json.Object :=
  [("compilation_units", .object (planned.map fun target => (target,
      .array [.object [("modules", .array [.integer 0]), ("optimization", .string "O2")]]))),
    ("contract", .string "sela-prealpha-2"),
    ("format_version", .integer 2),
    ("kind", .string "object"),
    ("libraries", .array []),
    ("link_options", .array []),
    ("modules", .array [.object [("path", .string "modules/0.selabc"),
      ("sha256", .string "523f3a83db8bd636be55536029b95b6c316b2106a69b896be20dea51000a0b9a"),
      ("targets", .array (targets.map Json.string))]]),
    ("runtime", .string "glibc-2.39-0ubuntu8.8"),
    ("targets", .array (targets.map Json.string))]

theorem nodup_solePackage (text : String) :
    ([("manifest.json", text), ("modules/0.selabc", "sela")].map Prod.fst).Nodup := by
  simp

def solePackage (text : String) : PackageFiles where
  entries := [("manifest.json", text), ("modules/0.selabc", "sela")]
  nodup := nodup_solePackage text

/-- A unit for both targets, and one for the second only. -/
def wordManifest : Json.Object := soleManifest ["i686", "x86_64"] ["x86_64", "i686"]

def narrowManifest : Json.Object := soleManifest ["i686"] ["i686"]

/-- The links of the targets, with other libraries and options for each. -/
def executableLinks : LinkPlan :=
  [("x86_64", ⟨[":libone.so"], ["--export-dynamic"], ""⟩), ("i686", ⟨["m"], [], ""⟩)]

/-- An executable of two units for both targets and one for the second. -/
def executableRequest : LinkRequest where
  kind := "executable"
  targets := ⟨["x86_64", "i686"], by decide⟩
  inputDomains := [(2, ⟨["i686"], by decide⟩)]
  archiveNames := []
  settings := ⟨[], [], ""⟩
  targetLinks := executableLinks

/-- The link of that executable. -/
def executableLink : LinkState where
  modules := [⟨"sela", "O2", "", ["x86_64", "i686"]⟩, ⟨"sela", "O2", "", ["x86_64", "i686"]⟩,
    ⟨"sela", "O2", "", ["i686"]⟩]
  aggregateBytes := 12
  compilationPlan := [("x86_64", [⟨[0], "O2", ""⟩, ⟨[1], "O2", ""⟩]),
    ("i686", [⟨[0], "O2", ""⟩, ⟨[1], "O2", ""⟩, ⟨[2], "O2", ""⟩])]
  inputLinks := [("x86_64", []), ("i686", [])]

section

-- The texts of the manifests, and the other values the format has.
variable {word narrow : String} {others : List (String × Json)}

/-- The values of the link of the executable. -/
def executableTable (word narrow : String) (others : List (String × Json)) : List (String × Json) :=
  (word, .object wordManifest) :: (narrow, .object narrowManifest) :: others

theorem executableTable_distinct (hothers : ∀ entry ∈ others, entry.2.Distinct) :
    ∀ entry ∈ executableTable word narrow others, entry.2.Distinct := by
  have hsole : (Json.object wordManifest).Distinct ∧ (Json.object narrowManifest).Distinct := by
    simp [wordManifest, narrowManifest, soleManifest, Json.Distinct, Json.DistinctMembers,
      Json.DistinctElements]
  simpa [executableTable] using ⟨hsole.1, hsole.2, fun text json => hothers (text, json)⟩

/-- The format on the files of the executable. -/
def executableFormat (word narrow : String) (hothers : ∀ entry ∈ others, entry.2.Distinct) :
    PackageFormat :=
  tableFormat (executableTable word narrow others) (executableTable_distinct hothers)

/-- Texts that can be told apart and are no longer than a manifest may be. -/
structure ManifestTexts (word narrow : String) (others : List (String × Json)) : Prop where
  nodup : ((executableTable word narrow others).map Prod.fst).Nodup
  distinct : ∀ entry ∈ others, entry.2.Distinct
  word : word.length ≤ 1024 * 1024
  narrow : narrow.length ≤ 1024 * 1024

theorem ManifestTexts.parse (h : ManifestTexts word narrow others) {entry : String × Json}
    (hentry : entry ∈ executableTable word narrow others) :
    (executableFormat word narrow h.distinct).parse entry.1 = .ok entry.2 :=
  require_ok.mpr ((Association.lookup_eq_some_iff_mem h.nodup).mpr hentry)

theorem ManifestTexts.validate (h : ManifestTexts word narrow others) :
    validatePackage (executableFormat word narrow h.distinct) (solePackage word) =
        .ok wordManifest ∧
      validatePackage (executableFormat word narrow h.distinct) (solePackage narrow) =
        .ok narrowManifest := by
  have hword : readManifest (executableFormat word narrow h.distinct)
      (solePackage word) = .ok wordManifest := by
    have hparse : (executableFormat word narrow h.distinct).parse word = .ok (.object wordManifest) :=
      @ManifestTexts.parse _ _ _ h (word, _) (by simp [executableTable])
    exact readManifest_of (by simp [PackageFiles.find, solePackage]) h.word hparse rfl
      (by decide +kernel) (by decide +kernel)
  have hnarrow : readManifest (executableFormat word narrow h.distinct)
      (solePackage narrow) = .ok narrowManifest := by
    have hparse : (executableFormat word narrow h.distinct).parse narrow =
        .ok (.object narrowManifest) :=
      @ManifestTexts.parse _ _ _ h (narrow, _) (by simp [executableTable])
    exact readManifest_of (by simp [PackageFiles.find, solePackage]) h.narrow hparse rfl
      (by decide +kernel) (by decide +kernel)
  unfold validatePackage
  rw [hword, hnarrow]
  exact ⟨rfl, rfl⟩

theorem linkInputs_executable (h : ManifestTexts word narrow others) :
    linkInputs (fun _ _ => .ok ()) (executableFormat word narrow h.distinct)
      executableRequest [solePackage word, solePackage word, solePackage narrow] =
        .ok executableLink := by
  obtain ⟨hword, hnarrow⟩ := h.validate
  have hfirst : linkInput (fun _ _ => .ok ()) (executableFormat word narrow h.distinct)
      executableRequest ⟨[], 0, [], []⟩ (solePackage word, 0) =
        .ok ⟨[⟨"sela", "O2", "", ["x86_64", "i686"]⟩], 4,
          [("x86_64", [⟨[0], "O2", ""⟩]), ("i686", [⟨[0], "O2", ""⟩])],
          [("x86_64", []), ("i686", [])]⟩ := by
    unfold linkInput
    rw [hword]
    rfl
  have hsecond : linkInput (fun _ _ => .ok ()) (executableFormat word narrow h.distinct)
      executableRequest ⟨[⟨"sela", "O2", "", ["x86_64", "i686"]⟩], 4,
        [("x86_64", [⟨[0], "O2", ""⟩]), ("i686", [⟨[0], "O2", ""⟩])],
        [("x86_64", []), ("i686", [])]⟩ (solePackage word, 1) =
        .ok ⟨[⟨"sela", "O2", "", ["x86_64", "i686"]⟩, ⟨"sela", "O2", "", ["x86_64", "i686"]⟩], 8,
          [("x86_64", [⟨[0], "O2", ""⟩, ⟨[1], "O2", ""⟩]),
            ("i686", [⟨[0], "O2", ""⟩, ⟨[1], "O2", ""⟩])], [("x86_64", []), ("i686", [])]⟩ := by
    unfold linkInput
    rw [hword]
    rfl
  have hthird : linkInput (fun _ _ => .ok ()) (executableFormat word narrow h.distinct)
      executableRequest
        ⟨[⟨"sela", "O2", "", ["x86_64", "i686"]⟩, ⟨"sela", "O2", "", ["x86_64", "i686"]⟩], 8,
          [("x86_64", [⟨[0], "O2", ""⟩, ⟨[1], "O2", ""⟩]),
            ("i686", [⟨[0], "O2", ""⟩, ⟨[1], "O2", ""⟩])], [("x86_64", []), ("i686", [])]⟩
        (solePackage narrow, 2) = .ok executableLink := by
    unfold linkInput
    rw [hnarrow]
    rfl
  have hlinks := foldlM_cons_ok.mpr ⟨_, hfirst, foldlM_cons_ok.mpr ⟨_, hsecond,
    foldlM_cons_ok.mpr ⟨_, hthird, foldlM_nil _ _⟩⟩⟩
  exact bind_ok.mpr ⟨(), rfl, bind_ok.mpr ⟨executableLink, hlinks, rfl⟩⟩

end

/-- The text of the plan of one target. -/
def planText (target : String) : String :=
  "    \"" ++ target ++ "\": [\n      \x7b\n        \"modules\": [\n          0\n        ],\n" ++
  "        \"optimization\": \"O2\"\n      \x7d\n    ]"

/-- The text of the manifest of a unit of one module, of the texts in it. -/
def soleText (plan domain targets : String) : String :=
  "\x7b\n  \"compilation_units\": \x7b\n" ++ plan ++ "\n  \x7d,\n" ++
  "  \"contract\": \"sela-prealpha-2\",\n  \"format_version\": 2,\n" ++
  "  \"kind\": \"object\",\n  \"libraries\": [],\n  \"link_options\": [],\n" ++
  "  \"modules\": [\n    \x7b\n      \"path\": \"modules/0.selabc\",\n" ++
  "      \"sha256\": \"523f3a83db8bd636be55536029b95b6c316b2106a69b896be20dea51000a0b9a\",\n" ++
  "      \"targets\": [\n" ++ domain ++ "\n      ]\n    \x7d\n  ],\n" ++
  "  \"runtime\": \"glibc-2.39-0ubuntu8.8\",\n  \"targets\": [\n" ++ targets ++ "\n  ]\n\x7d\n"

def wordText : String :=
  soleText (planText "i686" ++ ",\n" ++ planText "x86_64")
    "        \"x86_64\",\n        \"i686\"" "    \"x86_64\",\n    \"i686\""

def narrowText : String := soleText (planText "i686") "        \"i686\"" "    \"i686\""

theorem utf8ByteSize_texts : wordText.utf8ByteSize = 664 ∧ narrowText.utf8ByteSize = 520 := by
  unfold wordText narrowText soleText planText
  repeat rw [String.utf8ByteSize_append]
  decide +kernel

theorem manifestTexts : ManifestTexts wordText narrowText [] := by
  obtain ⟨hword, hnarrow⟩ := utf8ByteSize_texts
  have hne : wordText ≠ narrowText := fun heq => by simp [heq, hnarrow] at hword
  refine ⟨by simp [executableTable, hne], by simp, Nat.le_trans (length_le_utf8ByteSize _) ?_,
    Nat.le_trans (length_le_utf8ByteSize _) ?_⟩
  · rw [hword]
    decide
  · rw [hnarrow]
    decide

theorem linkInputs_preserves_executable : ∃ inputs,
    Preserved (executableFormat wordText narrowText manifestTexts.distinct) executableRequest
      [solePackage wordText, solePackage wordText, solePackage narrowText] inputs executableLink :=
  (linkInputs_preserves _ _ _).2 _ _ (linkInputs_executable manifestTexts)

end Sela
