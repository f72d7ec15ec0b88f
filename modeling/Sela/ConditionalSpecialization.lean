import Mathlib.Data.List.Zip
import Mathlib.Logic.Function.Basic
import Sela.DomainVerification

/-!
# Specialization of a conditional graph

`specializeConditionalCFG` clones a module and cuts the clone to one target : the
definitions, the blocks of each function and the edges of each switch that the target
has. A switch holds its labels, successors and arguments in flat arrays with a count for
each edge; `Operation.edges` reads them as one list, and the cut is a filter of that list
(`rewriteSwitch_ok`). Surviving operations are checked against the surviving blocks
before anything is dropped, so that no reference dangles (`checkSurvivors_ok`).

The clone lives in a `Context` of modules beside its source, and every edit goes through
its handle : the source is the same after a success and after a failure
(`specializeConditionalCFG_keeps`).
-/

namespace Sela

open Checked Stateful

/-! ## Modules in memory -/

/-- The modules in memory, by handle. -/
structure Context where
  modules : ℕ → Module
  next : ℕ

/-- The module of a handle. -/
def readModule (handle : ℕ) : Stateful Context Module := do
  let context ← get
  pure (context.modules handle)

/-- Edit the module of a handle in place. -/
def editModule (handle : ℕ) (edit : Module → Module) : Stateful Context Unit :=
  modify fun context =>
    { context with
      modules := Function.update context.modules handle (edit (context.modules handle)) }

/-- A copy of a module under a new handle. -/
def cloneModule (source : ℕ) : Stateful Context ℕ := do
  let context ← get
  set { modules := Function.update context.modules context.next (context.modules source)
        next := context.next + 1 : Context }
  pure context.next

/-! ## Edges of a switch -/

/-- One edge of a switch : its label (the default edge has none), its successor and the
arguments it passes. -/
structure Edge where
  label : Option Attr
  successor : ℕ
  arguments : List Value
  deriving DecidableEq

/-- The edges of parallel lists of labels, successors and arguments. -/
def zipEdges (labels : List (Option Attr)) (successors : List ℕ) (arguments : List (List Value)) :
    List Edge :=
  (labels.zip (successors.zip arguments)).map
    fun (label, successor, arguments) => ⟨label, successor, arguments⟩

/-- Cut operands into segments of the given lengths. -/
def segments : List ℤ → List Value → List (List Value)
  | [], _ => []
  | count :: counts, operands =>
    operands.take count.toNat :: segments counts (operands.drop count.toNat)

namespace Operation

/-- The labels of a switch. -/
def cases (operation : Operation) : List Attr :=
  ((operation.attributes.get "cases").bind Attr.asArray?).getD []

/-- The number of arguments of each edge of a switch. -/
def argumentCounts (operation : Operation) : List ℤ :=
  ((operation.attributes.get "argument_counts").bind Attr.asDenseI32?).getD []

/-- The domain of each edge of a switch, the default edge first. Without case domains
every edge has the domain `all`. -/
def edgeDomains (all : Attr) (operation : Operation) : List Attr :=
  all :: (((operation.attributes.get "case_domains").bind Attr.asArray?).getD
    (operation.cases.map fun _ => all))

/-- The edges of a switch, the default edge first. -/
def edges (operation : Operation) : List Edge :=
  zipEdges (none :: operation.cases.map some) operation.successors
    (segments operation.argumentCounts operation.operands.tail)

end Operation

/-! ## The cut of one function -/

/-- Whether a definition is there for a target. -/
def presentFor (selected : String) (definition : Definition) : Bool :=
  match definition.attributes.get "targets" with
  | none => true
  | some domain => containsTarget domain selected

/-- The domain of each block by its name. -/
abbrev BlockDomains := List (ℕ × Attr)

/-- Whether a block is in the function and there for a target. -/
def BlockDomains.has (domains : BlockDomains) (target : String) (block : ℕ) : Bool :=
  (domains.lookup block).any (containsTarget · target)

/-- The domain of a function, `all` where it has none. -/
def functionDomain (all : Attr) (function : Definition) : Attr :=
  match function.attributes.get "targets" with
  | some (.array ids) => .array ids
  | _ => all

/-- Whether a block domain has every target of its function. -/
def coversFunction (functionDomain domain : Attr) : Bool :=
  match functionDomain with
  | .array ids => ids.all fun id =>
    match id with
    | .string id => containsTarget domain id
    | _ => false
  | _ => false

/-- The declared domain of each block, or the domain `whole` of the function. -/
def declaredBlockDomains (whole : Attr) (function : Definition) (region : Region) :
    Checked (List Attr) :=
  match function.attributes.get "block_domains" with
  | none => pure (region.blocks.map fun _ => whole)
  | some raw => do
    let domains ← require raw.asArray? "conditional CFG block inventory mismatch"
    ensure (domains.length = region.blocks.length ∧ region.blocks ≠ [])
      "conditional CFG block inventory mismatch"
    pure domains

/-- The domain of each block of a function, in order. -/
def blockDomains (all : Attr) (function : Definition) (region : Region) :
    Checked BlockDomains := do
  let whole := functionDomain all function
  let domains ← declaredBlockDomains whole function region
  ensure (∀ domain ∈ domains.head?, coversFunction whole domain)
    "conditional CFG must retain a shared entry block"
  pure ((region.blocks.map Block.id).zip domains)

/-- Cut the edges of a switch, and its operands after the selector with them. An edge
that some target takes must reach a block which that target has. -/
def cutEdges (targets : List String) (domains : BlockDomains) (block : ℕ) (selected : String) :
    List (ℤ × Option Attr × ℕ × Attr) → List Value → Checked (List Edge)
  | [], [] => pure []
  | [], _ :: _ => throw "conditional switch has undeclared arguments"
  | (count, label, successor, domain) :: rest, operands => do
    ensure (0 ≤ count ∧ count.toNat ≤ operands.length)
      "invalid conditional switch argument segment"
    ensure (domains.lookup successor).isSome "conditional switch leaves its function"
    ensure (∀ id ∈ targets, domains.has id block → containsTarget domain id →
        domains.has id successor) "active conditional switch edge reaches an absent block"
    let edges ← cutEdges targets domains block selected rest (operands.drop count.toNat)
    if containsTarget domain selected then
      pure (⟨label, successor, operands.take count.toNat⟩ :: edges)
    else pure edges

/-- The declared domain of each case of a switch, or `all`. -/
def caseDomains (all : Attr) (operation : Operation) (cases : List Attr) : Checked (List Attr) :=
  match operation.attributes.get "case_domains" with
  | none => pure (cases.map fun _ => all)
  | some raw => require raw.asArray? "invalid conditional switch inventory"

/-- Cut a switch to the edges a target has; another operation stays. -/
def rewriteSwitch (targets : List String) (domains : BlockDomains) (block : ℕ)
    (selected : String) (operation : Operation) : Checked Operation :=
  if operation.name ≠ "sela.switch" then pure operation
  else
    match (operation.attributes.get "cases").bind Attr.asArray?,
        (operation.attributes.get "argument_counts").bind Attr.asDenseI32?,
        operation.operands with
    | some cases, some counts, selector :: operands => do
      let domainsOfCases ← caseDomains (targetSet targets) operation cases
      ensure (domainsOfCases.length = cases.length ∧ counts.length = cases.length + 1 ∧
          operation.successors.length = counts.length ∧ operation.results = [])
        "invalid conditional switch inventory"
      let edges ← cutEdges targets domains block selected
        (counts.zip ((none :: cases.map some).zip
          (operation.successors.zip (targetSet targets :: domainsOfCases)))) operands
      pure
        { name := operation.name
          attributes := ((operation.attributes.erase "case_domains").set "cases"
              (.array (edges.filterMap Edge.label))).set "argument_counts"
              (.denseI32 (edges.map fun edge => (edge.arguments.length : ℤ)))
          operands := selector :: edges.flatMap Edge.arguments
          results := []
          successors := edges.map Edge.successor }
    | _, _, _ => throw "invalid conditional switch inventory"

/-- Every edge and every use of a surviving operation stays inside the surviving blocks. -/
def checkSurvivors (domains : BlockDomains) (selected : String) (blocks : List Block) :
    Checked Unit :=
  (blocks.filter fun block => domains.has selected block.id).forM fun block =>
    block.operations.forM fun operation => do
      ensure (∀ successor ∈ operation.successors, domains.has selected successor)
        "active branch reaches an absent conditional block"
      ensure (∀ operand ∈ operation.operands,
          (ownerBlock blocks operand).any fun owner => domains.has selected owner.id)
        "active operation uses an absent conditional value"

/-- The region with its blocks' operations replaced, block by block. -/
def Region.withOperations (region : Region) (operations : List (List Operation)) : Region :=
  ⟨List.zipWith (fun block operations => { block with operations }) region.blocks operations, by
    have hids : (List.zipWith (fun (block : Block) operations => { block with operations })
        region.blocks operations).map Block.id = (region.blocks.map Block.id).take operations.length := by
      rw [List.map_zipWith, ← List.map_take]
      exact zipWith_left region.blocks operations
    rw [hids]
    exact region.nodup.sublist (List.take_sublist _ _)⟩
where
  zipWith_left : ∀ (blocks : List Block) (operations : List (List Operation)),
      List.zipWith (fun (block : Block) (_ : List Operation) => block.id) blocks operations =
        (blocks.take operations.length).map Block.id
    | [], _ => by simp
    | _ :: _, [] => by simp
    | _ :: blocks, _ :: operations => by simp [zipWith_left blocks operations]

/-- Cut a function to the blocks and switch edges a target has; another definition
stays. -/
def specializeFunction (targets : List String) (selected : String) (function : Definition) :
    Checked Definition :=
  if function.name ≠ "sela.func" then pure function
  else
    match function.regions with
    | [region] => do
      let domains ← blockDomains (targetSet targets) function region
      let operations ← region.blocks.mapM fun block =>
        block.operations.mapM (rewriteSwitch targets domains block.id selected)
      let region := region.withOperations operations
      checkSurvivors domains selected region.blocks
      pure { function with
        attributes := function.attributes.erase "block_domains"
        regions := [region.filter fun block => domains.has selected block.id] }
    | _ => throw "conditional CFG requires one function region"

/-- Cut the definitions of `result` one after the other, in place. -/
def specializeDefinitions (targets : List String) (selected : String) (result : ℕ) :
    List Definition → List Definition → Stateful Context Unit
  | _, [] => pure ()
  | before, definition :: after => do
    let definition ← check (specializeFunction targets selected definition)
    editModule result fun module => { module with body := before ++ definition :: after }
    specializeDefinitions targets selected result (before ++ [definition]) after

/-- Cut the module of `result` in place to the target `selected`. `verify` is the
framework's structural verifier. -/
def specializeClone (verify : Module → Bool) (targets : List String) (selected : String)
    (result : ℕ) : Stateful Context ℕ := do
  editModule result fun module => { module with body := module.body.filter (presentFor selected) }
  let copy ← readModule result
  specializeDefinitions targets selected result [] copy.body
  let copy ← readModule result
  check (ensure (verify copy) "specialized conditional CFG failed structural verification")
  pure result

/-- A copy of the module of `source`, cut to the target `selected`. -/
def specializeConditionalCFG (verify : Module → Bool) (source : ℕ) (selected : String) :
    Stateful Context ℕ := do
  let module ← readModule source
  let targets ← check (declaredTargets module)
  check (ensure (selected ∈ targets) "conditional target is outside module qualification")
  check (verifyTargetDomains module)
  let result ← cloneModule source
  specializeClone verify targets selected result

/-! ## The edges that stay -/

@[simp] theorem zipEdges_cons (label : Option Attr) (labels : List (Option Attr)) (successor : ℕ)
    (successors : List ℕ) (arguments : List Value) (rest : List (List Value)) :
    zipEdges (label :: labels) (successor :: successors) (arguments :: rest) =
      ⟨label, successor, arguments⟩ :: zipEdges labels successors rest := rfl

theorem zipEdges_map (edges : List Edge) :
    zipEdges (edges.map Edge.label) (edges.map Edge.successor) (edges.map Edge.arguments) =
      edges := by
  unfold zipEdges
  rw [List.zip_map', List.zip_map', List.map_map]
  exact List.map_id edges

theorem label_mem_of_zipEdges {labels : List (Option Attr)} {successors : List ℕ}
    {arguments : List (List Value)} {edge : Edge} (h : edge ∈ zipEdges labels successors arguments) :
    edge.label ∈ labels := by
  obtain ⟨entry, hentry, rfl⟩ := List.mem_map.mp h
  exact (List.of_mem_zip hentry).1

theorem flatMap_zipEdges : ∀ {labels : List (Option Attr)} {successors : List ℕ}
    {arguments : List (List Value)}, labels.length = arguments.length →
      successors.length = arguments.length →
      (zipEdges labels successors arguments).flatMap Edge.arguments = arguments.flatten
  | labels, successors, [], _, _ => by simp [zipEdges]
  | label :: labels, successor :: successors, a :: arguments, hl, hs => by
    have ih : (zipEdges labels successors arguments).flatMap Edge.arguments = arguments.flatten :=
      flatMap_zipEdges (by simpa using hl) (by simpa using hs)
    simp [ih]

theorem length_segments : ∀ (counts : List ℤ) (operands : List Value),
    (segments counts operands).length = counts.length
  | [], _ => rfl
  | count :: counts, operands => by simp [segments, length_segments counts]

/-- Concatenated segments are cut where they were joined. -/
theorem segments_flatMap : ∀ edges : List Edge,
    segments (edges.map fun edge => (edge.arguments.length : ℤ)) (edges.flatMap Edge.arguments) =
      edges.map Edge.arguments
  | [] => rfl
  | edge :: edges => by simp [segments, segments_flatMap edges]

/-- The cut keeps the edges whose domain has the target, and it consumes the operands. -/
theorem cutEdges_ok {targets : List String} {domains : BlockDomains} {block : ℕ}
    {selected : String} :
    ∀ {counts : List ℤ} {labels : List (Option Attr)} {successors : List ℕ}
      {edgeDomains : List Attr} {operands : List Value} {edges : List Edge},
      labels.length = counts.length → successors.length = counts.length →
      edgeDomains.length = counts.length →
      cutEdges targets domains block selected
        (counts.zip (labels.zip (successors.zip edgeDomains))) operands = .ok edges →
      edges = (((zipEdges labels successors (segments counts operands)).zip edgeDomains).filter
        fun entry => containsTarget entry.2 selected).map Prod.fst ∧
      (segments counts operands).flatten = operands
  | [], labels, successors, edgeDomains, operands, edges, hl, hs, hd, h => by
    obtain rfl := List.length_eq_zero_iff.mp hl
    cases operands with
    | nil => simp_all [cutEdges, segments, zipEdges]
    | cons => simp [cutEdges] at h
  | count :: counts, label :: labels, successor :: successors, domain :: edgeDomains,
      operands, edges, hl, hs, hd, h => by
    simp only [List.zip_cons_cons, cutEdges] at h
    obtain ⟨_, -, h⟩ := bind_ok.mp h
    obtain ⟨_, -, h⟩ := bind_ok.mp h
    obtain ⟨_, -, h⟩ := bind_ok.mp h
    obtain ⟨rest, hrest, h⟩ := bind_ok.mp h
    obtain ⟨ih, hoperands⟩ := cutEdges_ok (by simpa using hl) (by simpa using hs)
      (by simpa using hd) hrest
    refine ⟨?_, by simp [segments, hoperands]⟩
    by_cases hdomain : containsTarget domain selected = true
    · obtain rfl : (⟨label, successor, operands.take count.toNat⟩ : Edge) :: rest = edges := by
        simpa [hdomain] using h
      simp [segments, hdomain, ← ih]
    · obtain rfl : rest = edges := by simpa [hdomain] using h
      simp [segments, hdomain, ← ih]

/-- The labels of edges that all have one. -/
theorem map_some_filterMap_label : ∀ {edges : List Edge}, (∀ edge ∈ edges, edge.label ≠ none) →
    (edges.filterMap Edge.label).map some = edges.map Edge.label
  | [], _ => rfl
  | edge :: edges, h => by
    obtain ⟨hedge, hedges⟩ := List.forall_mem_cons.mp h
    obtain ⟨label, hlabel⟩ := Option.ne_none_iff_exists'.mp hedge
    simp [hlabel, map_some_filterMap_label hedges]

/-- The flat arrays written for a list of edges are read back as that list. -/
theorem edges_of_written (default : Edge) {rest : List Edge} {operation : Operation}
    (selector : Value) (hdefault : default.label = none)
    (hrest : ∀ edge ∈ rest, edge.label ≠ none)
    (hcases : operation.attributes.get "cases" =
      some (.array ((default :: rest).filterMap Edge.label)))
    (hcounts : operation.attributes.get "argument_counts" =
      some (.denseI32 ((default :: rest).map fun edge => (edge.arguments.length : ℤ))))
    (hoperands : operation.operands = selector :: (default :: rest).flatMap Edge.arguments)
    (hsuccessors : operation.successors = (default :: rest).map Edge.successor) :
    operation.edges = default :: rest := by
  have hlabels : none :: operation.cases.map some = (default :: rest).map Edge.label := by
    simp [Operation.cases, hcases, Attr.asArray?, hdefault, map_some_filterMap_label hrest]
  have harguments : segments operation.argumentCounts operation.operands.tail =
      (default :: rest).map Edge.arguments := by
    simp only [Operation.argumentCounts, hcounts, Option.bind_some, Attr.asDenseI32?,
      Option.getD_some, hoperands, List.tail_cons]
    exact segments_flatMap (default :: rest)
  rw [Operation.edges, hlabels, harguments, hsuccessors, zipEdges_map]

/-- An operation cut to a target : a switch keeps its selector and the edges whose domain
has the target, the default edge first. -/
structure SpecializedSwitch (all : Attr) (selected : String) (source result : Operation) :
    Prop where
  name : result.name = source.name
  selector : ∃ selector, source.operands = selector :: source.edges.flatMap Edge.arguments ∧
    result.operands = selector :: result.edges.flatMap Edge.arguments
  results : source.results = [] ∧ result.results = []
  edges : ∃ default cases, source.edges = default :: cases ∧ default.label = none ∧
    result.edges = default :: ((cases.zip (source.edgeDomains all).tail).filter
      fun entry => containsTarget entry.2 selected).map Prod.fst
  attributes : ∀ name, name ≠ "case_domains" → name ≠ "cases" → name ≠ "argument_counts" →
    result.attributes.get name = source.attributes.get name
  cases : ∃ cases, source.attributes.get "cases" = some (.array cases)
  counts : ∃ counts, source.attributes.get "argument_counts" = some (.denseI32 counts)
  domains : result.attributes.get "case_domains" = none

theorem edgeDomains_eq {all : Attr} {operation : Operation} {domains : List Attr}
    (h : caseDomains all operation operation.cases = .ok domains) :
    operation.edgeDomains all = all :: domains := by
  unfold caseDomains at h
  unfold Operation.edgeDomains
  split at h
  · rename_i hraw
    simpa [hraw] using h
  · rename_i raw hraw
    have : raw.asArray? = some domains := require_ok.mp h
    simp [hraw, this]

/-- What the cut makes of a switch. -/
theorem rewriteSwitch_ok {targets : List String} {domains : BlockDomains} {block : ℕ}
    {selected : String} (hselected : selected ∈ targets) {source result : Operation}
    (hname : source.name = "sela.switch")
    (h : rewriteSwitch targets domains block selected source = .ok result) :
    SpecializedSwitch (targetSet targets) selected source result := by
  unfold rewriteSwitch at h
  rw [if_neg (by simpa using hname)] at h
  split at h
  · rename_i cases counts selector operands hcases hcounts hoperands
    obtain ⟨domainsOfCases, hdomains, h⟩ := bind_ok.mp h
    obtain ⟨_, hinventory, h⟩ := bind_ok.mp h
    obtain ⟨hdlen, hclen, hslen, hresults⟩ := ensure_ok.mp hinventory
    obtain ⟨edges, hcut, h⟩ := bind_ok.mp h
    obtain rfl : _ = result := Except.ok.inj h
    have hsourceCases : source.cases = cases := by simp [Operation.cases, hcases]
    have hsourceCounts : source.argumentCounts = counts := by
      simp [Operation.argumentCounts, hcounts]
    obtain ⟨hedges, hflatten⟩ := cutEdges_ok (by simp [hclen]) hslen (by simp [hdlen, hclen]) hcut
    have hsourceEdges : source.edges =
        zipEdges (none :: cases.map some) source.successors (segments counts operands) := by
      simp [Operation.edges, hsourceCases, hsourceCounts, hoperands]
    have hsourceOperands : source.edges.flatMap Edge.arguments = operands := by
      rw [hsourceEdges, flatMap_zipEdges (by simp [length_segments, hclen])
        (by simp [length_segments, hslen]), hflatten]
    -- The source has its default edge, so that edge heads both lists.
    obtain ⟨count, counts, rfl⟩ := List.exists_cons_of_length_eq_add_one hclen
    obtain ⟨successor, successors, hsucc⟩ :=
      List.exists_cons_of_length_eq_add_one (hslen.trans hclen)
    rw [hsucc, segments, zipEdges_cons] at hsourceEdges hedges
    have hall : containsTarget (targetSet targets) selected = true :=
      containsTarget_targetSet.mpr hselected
    rw [List.zip_cons_cons, List.filter_cons, if_pos (by exact hall), List.map_cons] at hedges
    generalize hkept : (((zipEdges (cases.map some) successors
      (segments counts (operands.drop count.toNat))).zip domainsOfCases).filter
        fun entry => containsTarget entry.2 selected).map Prod.fst = kept at hedges
    have hlabels : ∀ edge ∈ kept, edge.label ≠ none := by
      rw [← hkept]
      intro edge hedge
      obtain ⟨entry, hentry, rfl⟩ := List.mem_map.mp hedge
      have := label_mem_of_zipEdges (List.of_mem_zip (List.mem_of_mem_filter hentry)).1
      obtain ⟨label, -, hlabel⟩ := List.mem_map.mp this
      simp [← hlabel]
    refine
      { name := rfl
        selector := ⟨selector, by rw [hsourceOperands, hoperands], ?_⟩
        results := ⟨hresults, rfl⟩
        edges := ⟨_, _, hsourceEdges, rfl, ?_⟩
        attributes := fun name h1 h2 h3 => by
          simp [Attributes.get_set_of_ne, Attributes.get_erase_of_ne, Ne.symm h1, Ne.symm h2,
            Ne.symm h3]
        cases := by
          obtain ⟨raw, hraw, harray⟩ := Option.bind_eq_some_iff.mp hcases
          exact ⟨cases, hraw.trans (congrArg some (Attr.asArray?_eq_some.mp harray))⟩
        counts := by
          obtain ⟨raw, hraw, hdense⟩ := Option.bind_eq_some_iff.mp hcounts
          exact ⟨_, hraw.trans (congrArg some (Attr.asDenseI32?_eq_some.mp hdense))⟩
        domains := by simp [Attributes.get_set_of_ne] }
    all_goals
      rw [edges_of_written ⟨none, successor, operands.take count.toNat⟩ selector rfl hlabels
        (by simp [Attributes.get_set_of_ne, hedges]) (by simp [hedges])
        (by simp [hedges]) (by simp [hedges])]
    · simp [hedges]
    · rw [edgeDomains_eq (hsourceCases ▸ hdomains), List.tail_cons, hkept]
  · simp at h

/-! ## The blocks that stay -/

/-- Nothing in these blocks refers to what is not in them. -/
def Closed (blocks : List Block) : Prop :=
  ∀ block ∈ blocks, ∀ operation ∈ block.operations,
    (∀ successor ∈ operation.successors, successor ∈ blocks.map Block.id) ∧
    (∀ operand ∈ operation.operands, ∃ owner ∈ blocks, operand ∈ owner.defined)

theorem BlockDomains.mem_of_has {domains : BlockDomains} {target : String} {block : ℕ}
    (h : domains.has target block = true) : block ∈ domains.map Prod.fst := by
  obtain ⟨domain, hlookup, -⟩ := (Option.any_eq_true _ _).mp h
  obtain ⟨before, after, rfl, -⟩ := List.lookup_eq_some_iff.mp hlookup
  simp

theorem checkSurvivors_ok {domains : BlockDomains} {selected : String} {blocks : List Block}
    (hids : domains.map Prod.fst = blocks.map Block.id) {u : Unit}
    (h : checkSurvivors domains selected blocks = .ok u) :
    Closed (blocks.filter fun block => domains.has selected block.id) := by
  intro block hblock operation hoperation
  have h := forM_ok.mp (forM_ok.mp h block hblock) operation hoperation
  obtain ⟨_, hsuccessors, h⟩ := bind_ok.mp h
  refine ⟨fun successor hsuccessor => ?_, fun operand hoperand => ?_⟩
  · have hhas := ensure_ok.mp hsuccessors successor hsuccessor
    have hmem : successor ∈ blocks.map Block.id := hids ▸ BlockDomains.mem_of_has hhas
    obtain ⟨target, htarget, rfl⟩ := List.mem_map.mp hmem
    exact List.mem_map_of_mem (List.mem_filter.mpr ⟨htarget, hhas⟩)
  · have howner := ensure_ok.mp h operand hoperand
    obtain ⟨owner, hfind, hhas⟩ := (Option.any_eq_true _ _).mp howner
    obtain ⟨hmem, hdefined⟩ := mem_of_ownerBlock hfind
    exact ⟨owner, List.mem_filter.mpr ⟨hmem, hhas⟩, hdefined⟩

/-- An operation of a function cut to a target. -/
def SpecializedOperation (all : Attr) (selected : String) (source result : Operation) : Prop :=
  if source.name = "sela.switch" then SpecializedSwitch all selected source result
  else result = source

theorem rewriteSwitch_specialized {targets : List String} {domains : BlockDomains} {block : ℕ}
    {selected : String} (hselected : selected ∈ targets) {source result : Operation}
    (h : rewriteSwitch targets domains block selected source = .ok result) :
    SpecializedOperation (targetSet targets) selected source result := by
  unfold SpecializedOperation
  split
  · exact rewriteSwitch_ok hselected ‹_› h
  · rename_i hname
    rw [rewriteSwitch, if_pos (by simpa using hname)] at h
    exact (Except.ok.inj h).symm

/-- A block of a function cut to a target. -/
structure SpecializedBlock (all : Attr) (selected : String) (source result : Block) : Prop where
  id : result.id = source.id
  arguments : result.arguments = source.arguments
  operations : List.Forall₂ (SpecializedOperation all selected) source.operations result.operations

/-- The domain of each block of a function : the declared one, or that of the function. -/
def domainsOf (all : Attr) (function : Definition) (region : Region) : List Attr :=
  match function.attributes.get "block_domains" with
  | some (.array domains) => domains
  | _ => region.blocks.map fun _ => functionDomain all function

/-- A function cut to a target : the blocks whose domain has the target, in order. -/
structure SpecializedRegion (all : Attr) (selected : String) (function : Definition)
    (source result : Region) : Prop where
  inventory : (domainsOf all function source).length = source.blocks.length
  blocks : List.Forall₂ (SpecializedBlock all selected)
    (((source.blocks.zip (domainsOf all function source)).filter
      fun entry => containsTarget entry.2 selected).map Prod.fst) result.blocks
  closed : Closed result.blocks

/-- A definition cut to a target. -/
def SpecializedDefinition (all : Attr) (selected : String) (source result : Definition) : Prop :=
  if source.name = "sela.func" then
    result.name = source.name ∧
    result.attributes = source.attributes.erase "block_domains" ∧
    ∃ region region', source.regions = [region] ∧ result.regions = [region'] ∧
      SpecializedRegion all selected source region region'
  else result = source

theorem blockDomains_ok {all : Attr} {function : Definition} {region : Region}
    {domains : BlockDomains} (h : blockDomains all function region = .ok domains) :
    domains = (region.blocks.map Block.id).zip (domainsOf all function region) ∧
    (domainsOf all function region).length = region.blocks.length := by
  unfold blockDomains at h
  obtain ⟨declared, hdeclared, h⟩ := bind_ok.mp h
  obtain ⟨_, -, h⟩ := bind_ok.mp h
  have hdomains : declared = domainsOf all function region ∧
      declared.length = region.blocks.length := by
    unfold declaredBlockDomains at hdeclared
    unfold domainsOf
    split at hdeclared
    · rename_i hnone
      obtain rfl : _ = declared := Except.ok.inj hdeclared
      simp [hnone]
    · rename_i raw hraw
      obtain ⟨elements, helements, hdeclared⟩ := bind_ok.mp hdeclared
      obtain ⟨_, hensure, hdeclared⟩ := bind_ok.mp hdeclared
      obtain rfl : elements = declared := Except.ok.inj hdeclared
      obtain rfl : raw = .array elements := by simpa using helements
      simp [hraw, (ensure_ok.mp hensure).1]
  obtain rfl : _ = domains := Except.ok.inj h
  exact ⟨by rw [hdomains.1], hdomains.1 ▸ hdomains.2⟩

/-- With distinct names, looking a block's domain up by name is reading it in place. -/
theorem filter_has (selected : String) :
    ∀ {blocks : List Block} {domains : List Attr}, (blocks.map Block.id).Nodup →
      domains.length = blocks.length →
      blocks.filter (fun block => BlockDomains.has ((blocks.map Block.id).zip domains) selected
        block.id) =
      ((blocks.zip domains).filter fun entry => containsTarget entry.2 selected).map Prod.fst
  | [], domains, _, _ => by simp
  | block :: blocks, domain :: domains, hnodup, hlength => by
    obtain ⟨hnotin, hnodup⟩ := List.nodup_cons.mp hnodup
    have ih := filter_has selected hnodup (by simpa using hlength)
    have hrest : blocks.filter (fun b => BlockDomains.has
        (((block :: blocks).map Block.id).zip (domain :: domains)) selected b.id) =
        blocks.filter (fun b => BlockDomains.has ((blocks.map Block.id).zip domains) selected b.id) := by
      refine List.filter_congr fun b hb => ?_
      have hne : b.id ≠ block.id := fun heq => hnotin (heq ▸ List.mem_map_of_mem hb)
      simp [BlockDomains.has, List.lookup_cons, beq_eq_false_iff_ne.mpr hne]
    rw [List.filter_cons, hrest, ih]
    simp only [BlockDomains.has, List.map_cons, List.zip_cons_cons, List.lookup_cons, beq_self_eq_true,
      Option.any_some, List.filter_cons]
    split <;> simp

theorem blocks_withOperations {region : Region} {f : Block → Checked (List Operation)}
    {operations : List (List Operation)} (h : region.blocks.mapM f = .ok operations) :
    List.Forall₂ (fun source result : Block => result.id = source.id ∧
      result.arguments = source.arguments ∧ f source = .ok result.operations)
      region.blocks (region.withOperations operations).blocks := by
  change List.Forall₂ _ region.blocks (List.zipWith
    (fun (block : Block) operations => { block with operations }) region.blocks operations)
  have hops := mapM_ok.mp h
  clear h
  generalize region.blocks = blocks at hops ⊢
  induction hops with
  | nil => simp
  | cons hblock _ ih => exact List.Forall₂.cons ⟨rfl, rfl, hblock⟩ ih

theorem specializeFunction_ok {targets : List String} {selected : String}
    (hselected : selected ∈ targets) {source result : Definition}
    (h : specializeFunction targets selected source = .ok result) :
    SpecializedDefinition (targetSet targets) selected source result := by
  unfold specializeFunction at h
  unfold SpecializedDefinition
  by_cases hname : source.name = "sela.func"
  · rw [if_neg (by simpa using hname)] at h
    rw [if_pos hname]
    split at h
    · rename_i region hregion
      obtain ⟨domains, hdomains, h⟩ := bind_ok.mp h
      obtain ⟨operations, hoperations, h⟩ := bind_ok.mp h
      obtain ⟨_, hsurvivors, h⟩ := bind_ok.mp h
      obtain rfl : _ = result := Except.ok.inj h
      have hblocks := blocks_withOperations hoperations
      generalize region.withOperations operations = rewritten at hblocks hsurvivors
      obtain ⟨rfl, hinventory⟩ := blockDomains_ok hdomains
      have hids : rewritten.blocks.map Block.id = region.blocks.map Block.id :=
        map_eq_of_forall₂ (hblocks.imp fun _ _ h => h.1)
      refine ⟨rfl, rfl, region, _, hregion, rfl, hinventory, ?_, ?_⟩
      · rw [← filter_has selected region.nodup hinventory]
        have hspecialized : List.Forall₂ (fun source result => result.id = source.id ∧
            SpecializedBlock (targetSet targets) selected source result)
            region.blocks rewritten.blocks :=
          hblocks.imp fun source result ⟨hid, harguments, hops⟩ =>
            ⟨hid, hid, harguments, (mapM_ok.mp hops).imp fun _ _ => rewriteSwitch_specialized hselected⟩
        refine (List.rel_filter ?_ hspecialized).imp fun _ _ h => h.2
        intro source result ⟨hid, _⟩
        simp only [hid]
      · refine checkSurvivors_ok ?_ hsurvivors
        rw [List.map_fst_zip (by simp [hinventory]), hids]
    · simp at h
  · rw [if_pos (by simpa using hname)] at h
    rw [if_neg hname]
    exact (Except.ok.inj h).symm

/-! ## The module in memory -/

theorem exec_readModule_bind {α : Type} (handle : ℕ) (f : Module → Stateful Context α)
    (context : Context) :
    exec (readModule handle >>= f) context = exec (f (context.modules handle)) context := rfl

theorem exec_editModule_bind {α : Type} (handle : ℕ) (edit : Module → Module)
    (f : Unit → Stateful Context α) (context : Context) :
    exec (editModule handle edit >>= f) context =
      exec (f ()) { context with
        modules := Function.update context.modules handle (edit (context.modules handle)) } := rfl

theorem exec_cloneModule_bind {α : Type} (source : ℕ) (f : ℕ → Stateful Context α)
    (context : Context) :
    exec (cloneModule source >>= f) context =
      exec (f context.next)
        { modules := Function.update context.modules context.next (context.modules source)
          next := context.next + 1 } := rfl

/-- An edit of one module leaves the others alone. -/
theorem keeps_editModule {handle other : ℕ} (hne : other ≠ handle) (edit : Module → Module) :
    Keeps (fun context : Context => context.modules other) (editModule handle edit) :=
  fun _ => Function.update_of_ne hne _ _

theorem keeps_readModule {γ : Type} {view : Context → γ} (handle : ℕ) :
    Keeps view (readModule handle) := fun _ => rfl

theorem keeps_specializeDefinitions {targets : List String} {selected : String}
    {result other : ℕ} (hne : other ≠ result) :
    ∀ before after : List Definition,
      Keeps (fun context : Context => context.modules other)
        (specializeDefinitions targets selected result before after)
  | _, [] => Keeps.pure _
  | before, _ :: after =>
    Keeps.bind (Keeps.check _) fun definition =>
      Keeps.bind (keeps_editModule hne _) fun _ =>
        keeps_specializeDefinitions hne (before ++ [definition]) after

/-- The loop over the definitions leaves them all specialized. -/
theorem exec_specializeDefinitions {targets : List String} {selected : String} {result : ℕ} :
    ∀ {before after : List Definition} {context context' : Context},
      (context.modules result).body = before ++ after →
      exec (specializeDefinitions targets selected result before after) context =
        (.ok (), context') →
      ∃ specialized, after.mapM (specializeFunction targets selected) = .ok specialized ∧
        context'.modules result =
          { context.modules result with body := before ++ specialized }
  | before, [], context, context', hbody, h => by
    obtain rfl : context = context' := congrArg Prod.snd h
    exact ⟨[], rfl, by rw [← hbody]⟩
  | before, definition :: after, context, context', hbody, h => by
    unfold specializeDefinitions at h
    obtain ⟨specialized, hspecialized, h⟩ := exec_check_bind_ok.mp h
    rw [exec_editModule_bind] at h
    obtain ⟨rest, hrest, hmodule⟩ := exec_specializeDefinitions (by simp) h
    refine ⟨specialized :: rest, ?_, by simpa using hmodule⟩
    rw [mapM_cons, hspecialized, ok_bind, hrest, ok_bind, pure_eq_ok]

theorem keeps_specializeClone (verify : Module → Bool) {targets : List String}
    {selected : String} {result other : ℕ} (hne : other ≠ result) :
    Keeps (fun context : Context => context.modules other)
      (specializeClone verify targets selected result) :=
  Keeps.bind (keeps_editModule hne _) fun _ =>
    Keeps.bind (keeps_readModule _) fun copy =>
      Keeps.bind (keeps_specializeDefinitions hne [] copy.body) fun _ =>
        Keeps.bind (keeps_readModule _) fun _ => Keeps.bind (Keeps.check _) fun _ => Keeps.pure _

/-- The source is the same after the call, whether it succeeds or fails. -/
theorem specializeConditionalCFG_keeps (verify : Module → Bool) {source : ℕ} (selected : String)
    {context : Context} (hsource : source < context.next) :
    (exec (specializeConditionalCFG verify source selected) context).2.modules source =
      context.modules source := by
  have hne : source ≠ context.next := Nat.ne_of_lt hsource
  unfold specializeConditionalCFG
  rw [exec_readModule_bind, exec_check_bind]
  rcases declaredTargets (context.modules source) with _ | targets
  · rfl
  simp only
  rw [exec_check_bind]
  rcases ensure (selected ∈ targets) _ with _ | _
  · rfl
  simp only
  rw [exec_check_bind]
  rcases verifyTargetDomains (context.modules source) with _ | _
  · rfl
  simp only
  rw [exec_cloneModule_bind]
  -- From here on every step edits the clone.
  exact (keeps_specializeClone verify hne _).trans (Function.update_of_ne hne _ _)

/-- What a target's copy of a module is. -/
structure SpecializedModule (selected : String) (source result : Module) : Prop where
  attributes : result.attributes = source.attributes
  body : ∃ targets, declaredTargets source = .ok targets ∧ selected ∈ targets ∧
    List.Forall₂ (SpecializedDefinition (targetSet targets) selected)
      (source.body.filter (presentFor selected)) result.body

/-- Specializing a conditional graph keeps exactly the definitions, blocks and switch edges
of the target, in order, and nothing that survives refers to what is dropped; the source
stays as it is on success and on failure. -/
theorem specializeConditionalCFG_exact (verify : Module → Bool) (source : ℕ) (selected : String)
    (context : Context) (hsource : source < context.next) :
    (exec (specializeConditionalCFG verify source selected) context).2.modules source =
      context.modules source ∧
    ∀ result context',
      exec (specializeConditionalCFG verify source selected) context = (.ok result, context') →
      SpecializedModule selected (context.modules source) (context'.modules result) := by
  refine ⟨specializeConditionalCFG_keeps verify selected hsource, fun result context' h => ?_⟩
  unfold specializeConditionalCFG at h
  rw [exec_readModule_bind] at h
  obtain ⟨targets, htargets, h⟩ := exec_check_bind_ok.mp h
  obtain ⟨_, hselected, h⟩ := exec_check_bind_ok.mp h
  have hselected := ensure_ok.mp hselected
  obtain ⟨_, -, h⟩ := exec_check_bind_ok.mp h
  rw [exec_cloneModule_bind, specializeClone, exec_editModule_bind, exec_readModule_bind] at h
  obtain ⟨_, _, hloop, h⟩ := exec_bind_ok.mp h
  obtain ⟨specialized, hspecialized, hresult⟩ := exec_specializeDefinitions (by simp) hloop
  rw [exec_readModule_bind] at h
  obtain ⟨_, -, h⟩ := exec_check_bind_ok.mp h
  obtain ⟨hhandle, rfl⟩ := Prod.mk.inj h
  obtain rfl : _ = result := Except.ok.inj hhandle
  rw [hresult]
  refine ⟨by simp, targets, htargets, hselected, ?_⟩
  simpa using (mapM_ok.mp hspecialized).imp fun _ _ => specializeFunction_ok hselected

/-- A switch whose case is there for one target, with the block that case reaches. -/
def conditionalSwitch : Module where
  attributes := [("sela.targets", targetSet ["x86_64", "i686"])]
  body :=
    [{ name := "sela.func"
       attributes := [("block_domains", .array [targetSet ["x86_64", "i686"],
          targetSet ["x86_64", "i686"], targetSet ["x86_64"]])]
       regions := [⟨[⟨0, [],
          [⟨"sela.constant", [("value", .integer 64 8)], [], [⟨0, .integer 32⟩], []⟩,
            ⟨"sela.switch", [("argument_counts", .denseI32 [0, 0]),
                ("case_domains", .array [targetSet ["x86_64"]]), ("cases", .array [.integer 64 8])],
              [⟨0, .integer 32⟩], [], [1, 2]⟩]⟩,
          ⟨1, [], [⟨"sela.return", [], [], [], []⟩]⟩,
          ⟨2, [], [⟨"sela.br", [], [], [], [1]⟩]⟩], by decide⟩] }]

theorem conditionalSwitch_exact :
    (exec (specializeConditionalCFG (fun _ => true) 0 "i686") ⟨fun _ => conditionalSwitch, 1⟩).1.toOption =
      some 1 ∧
    ((exec (specializeConditionalCFG (fun _ => true) 0 "i686")
      ⟨fun _ => conditionalSwitch, 1⟩).2.modules 1).body.map (fun definition =>
        definition.regions.map fun region => region.blocks.map Block.id) = [[[0, 1]]] ∧
    (exec (specializeConditionalCFG (fun _ => true) 0 "i686")
      ⟨fun _ => conditionalSwitch, 1⟩).2.modules 0 = conditionalSwitch :=
  ⟨by decide +kernel, by decide +kernel,
    (specializeConditionalCFG_exact (fun _ => true) 0 "i686" ⟨fun _ => conditionalSwitch, 1⟩
      (by decide)).1⟩

end Sela
