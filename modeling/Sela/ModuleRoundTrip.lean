import Sela.FunctionRoundTrip

/-!
# Merging and specializing again

What a target's module becomes when it is merged with those of other targets and the merged
module is specialized for the target again : its own definitions in some order, each on values
and blocks of other names (`RenamedDefinition`). Storage has other identities. Where a target
has a cast that others do without, its own comes back as a native cast, and there are casts of
values to themselves on the others (`mergeCommonModules_specialized`).
-/

namespace Sela

open Checked Correspondence Stateful

namespace Merger

/-! ## Other names for values and blocks -/

/-- What a shared value stands for on a target, by the name of the value. -/
def History.byId (history : History) (target : TargetInfo) (id : ℕ) : Option Value :=
  (history.find? fun entry => entry.1.id = id).bind fun entry => entry.2.lookup target

/-- Two attributes are the same up to the identities of storage in them. -/
def SameAttribute (own result : Attr) : Prop :=
  result.rename (fun _ => "") = own.rename fun _ => ""

/-- A value of another name, of the own value's type up to the identities in it. -/
structure RenamedValue (values : ℕ → Option Value) (own result : Value) : Prop where
  name : values result.id = some own
  type : result.type.rename (fun _ => "") = own.type.rename fun _ => ""

/-- An operation on values and blocks of other names. (The flags of a module are no operation's.) -/
structure RenamedOperation (values : ℕ → Option Value) (blocks : ℕ → Option ℕ)
    (own result : Operation) : Prop where
  name : result.name = own.name
  attributes : ∀ name, name ≠ "sela.module_flags" →
    Option.Rel SameAttribute (own.attributes.get name) (result.attributes.get name)
  operands : List.Forall₂ (RenamedValue values) own.operands result.operands
  results : List.Forall₂ (RenamedValue values) own.results result.results
  successors : own.successors.map blocks = result.successors.map some

/-- An edge to a block of another name. -/
structure RenamedEdge (values : ℕ → Option Value) (blocks : ℕ → Option ℕ) (own result : Edge) :
    Prop where
  label : Option.Rel SameAttribute own.label result.label
  successor : blocks own.successor = some result.successor
  arguments : List.Forall₂ (RenamedValue values) own.arguments result.arguments

/-- A switch with its edges in the same order. -/
structure RenamedSwitch (values : ℕ → Option Value) (blocks : ℕ → Option ℕ)
    (own result : Operation) : Prop where
  name : result.name = own.name
  results : result.results = []
  selector : ∃ selector selector', own.operands = selector :: own.edges.flatMap Edge.arguments ∧
    result.operands = selector' :: result.edges.flatMap Edge.arguments ∧
    RenamedValue values selector selector'
  edges : List.Forall₂ (RenamedEdge values blocks) own.edges result.edges

def RenamedAs (values : ℕ → Option Value) (blocks : ℕ → Option ℕ) (own result : Operation) : Prop :=
  if own.name = "sela.switch" then RenamedSwitch values blocks own result
  else RenamedOperation values blocks own result

/-! ## What shared values become -/

section Target

variable {target : TargetInfo} {history : History}

theorem History.byId_eq (h : history.WellFormed) {value own : Value}
    (hown : history.own target value = some own) : history.byId target value.id = some own := by
  obtain ⟨tuple, htuple, hown⟩ := Option.bind_eq_some_iff.mp hown
  obtain ⟨before, after, hsplit, -⟩ := List.lookup_eq_some_iff.mp htuple
  have hmem : (value, tuple) ∈ history := by simp [hsplit]
  obtain ⟨found, hfound⟩ : ∃ found, history.find? (fun entry => entry.1.id = value.id) =
      some found := Option.isSome_iff_exists.mp (List.find?_isSome.mpr ⟨_, hmem, by simp⟩)
  have hsame : found.1.id = value.id := by simpa using List.find?_some hfound
  obtain rfl := List.inj_on_of_nodup_map h.nodup (List.mem_of_find?_eq_some hfound) hmem hsame
  rw [History.byId, hfound]
  exact hown

theorem renamedValue (h : history.WellFormed) {own shared result : Value}
    (hown : history.own target shared = some own) (hresult : specializeValue target shared = .ok result) :
    RenamedValue (history.byId target) own result := by
  obtain ⟨htype, hid⟩ := specializeValue_ok.mp hresult
  obtain ⟨type, htype', hrename⟩ := h.types target shared own hown
  obtain rfl := Except.ok.inj (htype.symm.trans htype')
  exact ⟨hid ▸ History.byId_eq h hown, hrename⟩

theorem renamedValues (h : history.WellFormed) : ∀ {owns shareds results : List Value},
    shareds.map (history.own target) = owns.map some →
    shareds.mapM (specializeValue target) = .ok results →
    List.Forall₂ (RenamedValue (history.byId target)) owns results
  | [], [], results, _, hresults => by
    obtain rfl := Except.ok.inj hresults
    exact .nil
  | own :: owns, shared :: shareds, results, hmap, hresults => by
    obtain ⟨hhead, htail⟩ := List.cons.inj hmap
    obtain ⟨result, rest, hresult, hrest, rfl⟩ := List.forall₂_cons_left_iff.mp (mapM_ok.mp hresults)
    exact .cons (renamedValue h hhead hresult) (renamedValues h htail (mapM_ok.mpr hrest))

/-- Attributes resolved are the target's own. -/
theorem sameAttributes {own shared results : Attributes} {name : String}
    (hname : name ≠ "sela.module_flags")
    (h : Option.Rel (AttrResembles (numericName name) target) (own.get name) (shared.get name))
    (hresults : specializeAttributes target shared = .ok results) :
    Option.Rel SameAttribute (own.get name) (results.get name) := by
  generalize own.get name = held at h
  cases hshared : shared.get name with
  | none =>
    rw [hshared] at h
    rw [(get_specializeAttributes_none hresults name).mpr hshared]
    cases h
    exact .none
  | some value =>
    rw [hshared] at h
    obtain ⟨result, hresult, hspecialized⟩ := get_specializeAttributes hname hresults hshared
    rw [hresult]
    cases h with
    | some h =>
      obtain ⟨result', hresult', hrename⟩ := h
      obtain rfl := Except.ok.inj (hspecialized.symm.trans hresult')
      exact .some hrename

end Target

/-! ## The edges of a resolved switch -/

/-- Lists joined segment by segment are related segment by segment. -/
theorem forall₂_of_flatten {α β : Type} {R : α → β → Prop} :
    ∀ {segments : List (List α)} {segments' : List (List β)},
      segments'.map List.length = segments.map List.length →
      List.Forall₂ R segments.flatten segments'.flatten →
      List.Forall₂ (List.Forall₂ R) segments segments'
  | [], [], _, _ => .nil
  | segment :: segments, segment' :: segments', hlengths, h => by
    obtain ⟨hlength, hlengths⟩ := List.cons.inj hlengths
    rw [List.flatten_cons, List.flatten_cons] at h
    have hhead := List.forall₂_take segment.length h
    have htail := List.forall₂_drop segment.length h
    rw [List.take_left, ← hlength, List.take_left] at hhead
    rw [List.drop_left, ← hlength, List.drop_left] at htail
    exact .cons hhead (forall₂_of_flatten hlengths htail)

theorem forall₂_zipEdges {R : Option Attr → Option Attr → Prop} {S : Value → Value → Prop} :
    ∀ {labels labels' : List (Option Attr)} {successors : List ℕ}
      {arguments arguments' : List (List Value)},
      List.Forall₂ R labels labels' → List.Forall₂ (List.Forall₂ S) arguments arguments' →
      List.Forall₂ (fun edge edge' => R edge.label edge'.label ∧ edge'.successor = edge.successor ∧
        List.Forall₂ S edge.arguments edge'.arguments)
        (zipEdges labels successors arguments) (zipEdges labels' successors arguments')
  | _, _, successors, _, _, .nil, _ => by simp [zipEdges]
  | _, _, [], _, _, .cons _ _, _ => by simp [zipEdges]
  | _, _, _ :: _, _, _, .cons _ _, .nil => by simp [zipEdges]
  | _, _, successor :: successors, _, _, .cons hlabel hlabels, .cons hargument harguments => by
    rw [zipEdges_cons, zipEdges_cons]
    exact .cons ⟨hlabel, rfl, hargument⟩ (forall₂_zipEdges hlabels harguments)

/-- The edges of a plain switch. -/
theorem edges_of_plain {operation : Operation} {cases : List Attr} {arguments : List (List Value)}
    {selector : Value} (hcases : operation.attributes.get "cases" = some (.array cases))
    (hcounts : operation.attributes.get "argument_counts" =
      some (.denseI32 (arguments.map fun segment => (segment.length : ℤ))))
    (hoperands : operation.operands = selector :: arguments.flatten) :
    operation.edges = zipEdges (none :: cases.map some) operation.successors arguments := by
  have hsegments : ∀ arguments : List (List Value),
      segments (arguments.map fun segment => (segment.length : ℤ)) arguments.flatten = arguments := by
    intro arguments
    induction arguments with
    | nil => rfl
    | cons segment arguments ih => simp [segments, ih]
  rw [Operation.edges, Operation.cases, Operation.argumentCounts, hcases, hcounts, hoperands]
  simp [Attr.asArray?, Attr.asDenseI32?, hsegments]

/-- The edges of a switch once it is resolved, in their order. -/
theorem edges_specialized {target : TargetInfo} {operation result : Operation}
    (hplain : PlainSwitch operation) (h : specializeOperation target operation = .ok result) :
    (∃ selector selector', operation.operands = selector :: operation.edges.flatMap Edge.arguments ∧
      result.operands = selector' :: result.edges.flatMap Edge.arguments ∧
      specializeValue target selector = .ok selector') ∧
    List.Forall₂ (fun edge edge' =>
      Option.Rel (fun label label' => specializeAttribute target false label = .ok label')
        edge.label edge'.label ∧ edge'.successor = edge.successor ∧
      List.Forall₂ (fun value value' => specializeValue target value = .ok value')
        edge.arguments edge'.arguments) operation.edges result.edges := by
  obtain ⟨cases, arguments, selector, hcases, hcounts, hoperands, -, hsuccessors, hlength, -⟩ := hplain
  obtain ⟨hattributes, -, hoperands', -, hsuccessors'⟩ := specializeOperation_ok h
  obtain ⟨value, hvalue, hspecialized⟩ := get_specializeAttributes (by decide) hattributes hcases
  obtain ⟨cases', rfl, hcases'⟩ := specializeAttribute_array hspecialized
  obtain ⟨counts, hcounts', hspecialized⟩ := get_specializeAttributes (by decide) hattributes hcounts
  rw [specializeAttribute_of_concrete (by simp [Attr.Concrete])] at hspecialized
  obtain rfl := Except.ok.inj hspecialized
  rw [hoperands] at hoperands'
  obtain ⟨selector', rest, hselector, hrest, hsplit⟩ :=
    List.forall₂_cons_left_iff.mp (mapM_ok.mp hoperands')
  obtain ⟨arguments', rfl, hlengths⟩ := forall₂_flatten hrest
  have harguments := forall₂_of_flatten hlengths hrest
  have hedges := edges_of_plain hcases hcounts hoperands
  have hedges' := edges_of_plain hvalue (hcounts'.trans (by
    rw [show arguments'.map (fun segment => (segment.length : ℤ)) =
      (arguments'.map List.length).map (fun n : ℕ => (n : ℤ)) by rw [List.map_map]; rfl,
      hlengths, List.map_map]
    rfl)) hsplit
  have hkept := (mapM_ok.mp hcases').length_eq
  have hcount := harguments.length_eq
  refine ⟨⟨selector, selector', ?_, ?_, hselector⟩, ?_⟩
  · rw [hedges, flatMap_zipEdges (by simp [hlength]) hsuccessors, hoperands]
  · rw [hedges', flatMap_zipEdges (by simp [← hkept, ← hcount, hlength])
      (by rw [hsuccessors', ← hcount, hsuccessors]), hsplit]
  · rw [hedges, hedges', hsuccessors']
    refine forall₂_zipEdges (.cons .none ?_) harguments
    rw [List.forall₂_map_left_iff, List.forall₂_map_right_iff]
    exact (mapM_ok.mp hcases').imp fun _ _ h => .some h

/-! ## Operations cut and resolved -/

section Operations

variable {target : TargetInfo} {history : History} {blocks : ℕ → Option ℕ}
  {own shared cut result : Operation}

/-- A shared label is the target's own once it is resolved. -/
theorem sameLabel {own shared result : Option Attr}
    (h : Option.Rel (AttrResembles false target) own shared)
    (hresult : Option.Rel (fun label label' => specializeAttribute target false label = .ok label')
      shared result) : Option.Rel SameAttribute own result := by
  cases h with
  | none =>
    cases hresult
    exact .none
  | some h =>
    cases hresult with
    | some hresult =>
      obtain ⟨result', hresult', hrename⟩ := h
      obtain rfl := Except.ok.inj (hresult.symm.trans hresult')
      exact .some hrename

/-- A shared switch cut to a target has the target's edges. -/
theorem ReadsSwitch.cut_read {all : Attr} (hread : ReadsSwitch target history blocks own shared)
    (hcut : SpecializedSwitch all target.id shared cut) :
    (∃ selector common, own.operands = selector :: own.edges.flatMap Edge.arguments ∧
      cut.operands = common :: cut.edges.flatMap Edge.arguments ∧
      history.own target common = some selector) ∧
    List.Forall₂ (ReadsEdge target history blocks) own.edges cut.edges := by
  obtain ⟨selector, common, hownOperands, hsharedOperands, hstands⟩ := hread.selector
  obtain ⟨default, cases, domains, hsharedEdges, -, hdomains, hreads⟩ := hread.edges
  obtain ⟨common', hsharedOperands', hcutOperands⟩ := hcut.selector
  obtain ⟨default', cases', hsharedEdges', -, hcutEdges⟩ := hcut.edges
  obtain ⟨rfl, rfl⟩ := List.cons.inj (hsharedEdges.symm.trans hsharedEdges')
  obtain ⟨rfl, -⟩ := List.cons.inj (hsharedOperands.symm.trans hsharedOperands')
  have htail : (shared.edgeDomains all).tail = domains := by
    simp [Operation.edgeDomains, hdomains, Attr.asArray?]
  rw [htail] at hcutEdges
  rw [← hcutEdges] at hreads
  exact ⟨⟨selector, common, hownOperands, hcutOperands, hstands⟩, hreads⟩

theorem renamedSwitch {all : Attr} (hhistory : history.WellFormed)
    (hread : ReadsSwitch target history blocks own shared)
    (hcut : SpecializedSwitch all target.id shared cut) (hplain : PlainSwitch cut)
    (h : specializeOperation target cut = .ok result) :
    RenamedSwitch (history.byId target) blocks own result := by
  obtain ⟨-, hresults, -, hname, -⟩ := specializeOperation_ok h
  obtain ⟨⟨selector, selector', hcutOperands, hoperands, hselector⟩, hedges⟩ :=
    edges_specialized hplain h
  obtain ⟨⟨ownSelector, common, hownOperands, hcutOperands', hstands⟩, hreads⟩ := hread.cut_read hcut
  obtain ⟨rfl, -⟩ := List.cons.inj (hcutOperands.symm.trans hcutOperands')
  refine ⟨?_, ?_, ⟨ownSelector, selector', hownOperands, hoperands,
    renamedValue hhistory hstands hselector⟩, ?_⟩
  · rw [hname, hcut.name, hread.name.1, hread.name.2]
  · rw [hcut.results.2] at hresults
    exact (Except.ok.inj hresults).symm
  · refine forall₂_trans (fun edge edge' edge'' hread hresult => ?_) hreads hedges
    obtain ⟨hlabel, hsuccessor, harguments⟩ := hresult
    exact ⟨sameLabel hread.label hlabel, hread.successor.trans (congrArg some hsuccessor.symm),
      renamedValues hhistory hread.arguments (mapM_ok.mpr harguments)⟩

theorem renamedOperation (hhistory : history.WellFormed)
    (hread : ReadsOperation target history blocks own shared)
    (h : specializeOperation target shared = .ok result) :
    RenamedOperation (history.byId target) blocks own result := by
  obtain ⟨hattributes, hresults, hoperands, hname, hsuccessors⟩ := specializeOperation_ok h
  exact ⟨hname.trans hread.name, fun name hflags =>
      sameAttributes hflags (hread.attributes name) hattributes,
    renamedValues hhistory hread.operands hoperands, renamedValues hhistory hread.results hresults,
    by rw [hsuccessors, hread.successors]⟩

/-- An operation of the shared function is, once cut and resolved, the target's own. -/
theorem renamedAs {targets : List String} {domains : BlockDomains} {block : ℕ}
    (hselected : target.id ∈ targets) (hhistory : history.WellFormed)
    (hread : ReadsAs target history blocks own shared)
    (hcut : rewriteSwitch targets domains block target.id shared = .ok cut)
    (h : specializeOperation target cut = .ok result) :
    RenamedAs (history.byId target) blocks own result := by
  unfold ReadsAs at hread
  unfold RenamedAs
  split
  · rw [if_pos ‹_›] at hread
    exact renamedSwitch hhistory hread (rewriteSwitch_ok hselected hread.name.2 hcut)
      (rewriteSwitch_cut hselected hread.name.2 hcut).plain h
  · rename_i hname
    rw [if_neg hname] at hread
    rw [rewriteSwitch, if_pos (hread.name ▸ hname)] at hcut
    obtain rfl := Except.ok.inj hcut
    exact renamedOperation hhistory hread h

end Operations

/-! ## Functions -/

/-- The operations of a block on values and blocks of other names. Own casts may have come back
as native ones, and there may be casts of values to themselves where `others` have casts. -/
def RenamedAll (others : Operation → Prop) (values : ℕ → Option Value) (blocks : ℕ → Option ℕ)
    (own result : List Operation) : Prop :=
  ∃ read, WithCasts others own read ∧ List.Forall₂ (RenamedAs values blocks) read result

structure RenamedBlock (others : Operation → Prop) (values : ℕ → Option Value)
    (blocks : ℕ → Option ℕ) (own result : Block) : Prop where
  id : blocks own.id = some result.id
  arguments : List.Forall₂ (RenamedValue values) own.arguments result.arguments
  operations : RenamedAll others values blocks own.operations result.operations

/-- A definition on values and blocks of other names, but for identities of storage, for own
casts that come back as native casts of their opcode, and for casts of values to themselves
where `others` have casts. -/
structure RenamedDefinition (others : Operation → Prop) (own result : Definition) : Prop where
  name : result.name = own.name
  attributes : ∀ name, name ≠ "sela.module_flags" →
    Option.Rel SameAttribute (own.attributes.get name) (result.attributes.get name)
  body : own.name = "sela.func" →
    ∃ values blocks, List.Forall₂ (RenamedBlock others values blocks) own.body result.body

/-- What is left of the operations of a cut function. -/
theorem specializeFunction_rewritten {targets : List String} {selected : String}
    {source result : Definition} (hname : source.name = "sela.func")
    (h : specializeFunction targets selected source = .ok result) :
    ∃ region region', source.regions = [region] ∧ result =
      { source with
        attributes := source.attributes.erase "block_domains"
        regions := [region'] } ∧
      List.Forall₂ (fun block result : Block => result.id = block.id ∧
        result.arguments = block.arguments ∧ List.Forall₂ (fun operation cut =>
          rewriteSwitch targets ((region.blocks.map Block.id).zip
            (domainsOf (targetSet targets) source region)) block.id selected operation = .ok cut)
          block.operations result.operations)
        (((region.blocks.zip (domainsOf (targetSet targets) source region)).filter
          fun entry => containsTarget entry.2 selected).map Prod.fst) region'.blocks := by
  unfold specializeFunction at h
  rw [if_neg (by simpa using hname)] at h
  split at h
  · rename_i region hregion
    obtain ⟨domains, hdomains, h⟩ := bind_ok.mp h
    obtain ⟨operations, hoperations, h⟩ := bind_ok.mp h
    obtain ⟨_, -, h⟩ := bind_ok.mp h
    obtain rfl := Except.ok.inj h
    have hblocks := blocks_withOperations hoperations
    generalize region.withOperations operations = rewritten at hblocks
    obtain ⟨rfl, hinventory⟩ := blockDomains_ok hdomains
    refine ⟨region, _, hregion, rfl, ?_⟩
    rw [← filter_has selected region.nodup hinventory]
    refine List.rel_filter (fun source result hsame => ?_) (hblocks.imp fun source result h =>
      ⟨h.1, h.2.1, mapM_ok.mp h.2.2⟩)
    simp only [hsame.1]
  · simp at h

/-- The blocks of a shared function that a target has are the target's. -/
theorem ReadsFunction.blocks_read {others : Operation → Prop} {target : TargetInfo}
    {history : History} {blocks : ℕ → Option ℕ} {own shared : Definition} {region : Region}
    (h : ReadsFunction others target history blocks own shared) (hregion : shared.regions = [region])
    (all : Attr) : List.Forall₂ (ReadsBlock others target history blocks) own.body
      (((region.blocks.zip (domainsOf all shared region)).filter fun entry =>
        containsTarget entry.2 target.id).map Prod.fst) := by
  obtain ⟨region', domains, hregion', hlength, hdomains, hreads⟩ := h.body
  obtain rfl := List.singleton_inj.mp (hregion.symm.trans hregion')
  have hof : region.blocks.zip (domainsOf all shared region) = region.blocks.zip domains := by
    by_cases hempty : region.blocks = []
    · simp [hempty]
    · rw [if_neg hempty] at hdomains
      simp [domainsOf, hdomains]
  rwa [hof]

/-- A shared function that is a target's is, once cut and resolved for the target, its own. -/
theorem renamedFunction {others : Operation → Prop} {targets : List String} {target : TargetInfo}
    {history : History} {blocks : ℕ → Option ℕ} {own shared cut result : Definition} (hselected : target.id ∈ targets)
    (hhistory : history.WellFormed) (hname : own.name = "sela.func")
    (hconcrete : ResolvedDefinition target own)
    (hread : ReadsFunction others target history blocks own shared)
    (hcut : specializeFunction targets target.id shared = .ok cut)
    (h : resolveDefinition target cut = .ok result) : RenamedDefinition others own result := by
  obtain ⟨region, region', hregion, rfl, hblocks⟩ := specializeFunction_rewritten hread.name hcut
  obtain ⟨regions, hregions, h⟩ := bind_ok.mp h
  obtain ⟨attributes, hattributes, h⟩ := bind_ok.mp h
  obtain rfl := Except.ok.inj h
  have hreads := hread.blocks_read hregion (targetSet targets)
  obtain ⟨resolved, hresolved, rfl⟩ : ∃ resolved,
      specializeRegion target region' = .ok resolved ∧ regions = [resolved] := by
    obtain ⟨resolved, rest, hresolved, hrest, rfl⟩ :=
      List.forall₂_cons_left_iff.mp (mapM_ok.mp hregions)
    cases hrest
    exact ⟨resolved, hresolved, rfl⟩
  refine ⟨hread.name.trans hname.symm, fun name hflags => ?_, fun _ => ⟨history.byId target,
    blocks, ?_⟩⟩
  · by_cases hblocks : name = "block_domains"
    · rw [hblocks, hconcrete.blocks, (get_specializeAttributes_none hattributes _).mpr (by
        rw [Attributes.get_erase_of_ne (by decide), Attributes.get_erase_self])]
      exact .none
    by_cases htargets : name = "targets"
    · rw [htargets, hconcrete.targets,
        (get_specializeAttributes_none hattributes _).mpr (Attributes.get_erase_self _ _)]
      exact .none
    refine sameAttributes hflags ?_ hattributes
    rw [Attributes.get_erase_of_ne (Ne.symm htargets), Attributes.get_erase_of_ne (Ne.symm hblocks)]
    exact hread.attributes name hblocks
  · have hcuts : List.Forall₂ (fun (own cut : Block) => ∃ shared : Block,
        ReadsBlock others target history blocks own shared ∧ cut.id = shared.id ∧
        cut.arguments = shared.arguments ∧ List.Forall₂ (fun operation cut =>
          ∃ domains, rewriteSwitch targets domains shared.id target.id operation = .ok cut)
          shared.operations cut.operations) own.body region'.blocks :=
      forall₂_trans (fun _ shared _ hread hcut => ⟨shared, hread, hcut.1, hcut.2.1,
        hcut.2.2.imp fun _ _ h => ⟨_, h⟩⟩) hreads hblocks
    refine forall₂_trans (fun block cut result hcut hresult => ?_) hcuts
      (mapM_ok.mp (specializeRegion_ok.mp hresolved))
    obtain ⟨shared, hread, hid, harguments, hrewritten⟩ := hcut
    obtain ⟨hoperations, harguments', hid'⟩ := specializeBlock_ok hresult
    rw [harguments] at harguments'
    obtain ⟨read, hcasts, hreads⟩ := hread.operations
    refine ⟨hread.id.trans (congrArg some (hid'.trans hid).symm),
      renamedValues hhistory hread.arguments harguments', read, hcasts, ?_⟩
    have hrewrites : List.Forall₂ (fun own cut => ∃ shared,
        ReadsAs target history blocks own shared ∧ ∃ domains block,
          rewriteSwitch targets domains block target.id shared = .ok cut) read cut.operations :=
      forall₂_trans (fun _ shared _ hread hcut => ⟨shared, hread, hcut.imp fun _ h => ⟨_, h⟩⟩)
        hreads hrewritten
    refine forall₂_trans (fun own cut result hcut hresult => ?_) hrewrites (mapM_ok.mp hoperations)
    obtain ⟨shared, hread, domains, block, hcut⟩ := hcut
    exact renamedAs hselected hhistory hread hcut hresult

/-! ## Modules -/

/-- A shared definition is a target's definition. -/
def ReadsDefinition (others : Operation → Prop) (target : TargetInfo) (own shared : Definition) :
    Prop :=
  if own.name = "sela.func" then ∃ (history : History) (blocks : ℕ → Option ℕ),
    history.WellFormed ∧ ReadsFunction others target history blocks own shared
  else shared.name = own.name ∧ AttributesRead target own.attributes shared.attributes ∧
    shared.regions = []

/-- The operations that the other modules have in the definition of an identity. -/
def DefinedElsewhere (modules : Observations TargetInfo Module) (target : TargetInfo)
    (own : Definition) (operation : Operation) : Prop :=
  ∃ entry ∈ modules, entry.1 ≠ target ∧ ∃ other ∈ entry.2.body, identityOf other = identityOf own ∧
    ∃ block ∈ other.body, operation ∈ block.operations

/-- A shared definition of a name and identity is that of each target. -/
theorem mergeDefinition_reads {verifyFunction : Native.Function → Bool}
    {modules : Observations TargetInfo Module} {definition shared : Definition} {m m' : Merger}
    (hnodup : (modules.map Prod.fst).Nodup)
    (hregistered : ∀ target ∈ modules.map Prod.fst, target ∈ targets.all)
    (hconcrete : ∀ entry ∈ modules, ∀ own ∈ entry.2.body, ResolvedDefinition entry.1 own)
    (h : exec (mergeDefinition verifyFunction modules definition) m = (.ok shared, m')) :
    ∀ entry ∈ modules, ∃ own ∈ entry.2.body, identityOf own = identityOf definition ∧
      ReadsDefinition (DefinedElsewhere modules entry.1 own) entry.1 own shared := by
  obtain ⟨input, hinput, h⟩ := exec_check_bind_ok.mp h
  have hfound : List.Forall₂ (fun (module : TargetInfo × Module) (found : TargetInfo × Definition) =>
      found.1 = module.1 ∧ found.2 ∈ module.2.body ∧ identityOf found.2 = identityOf definition ∧
        found.2.name = definition.name) modules input := by
    refine (mapM_ok.mp hinput).imp fun module found hmodule => ?_
    obtain ⟨own, hown, hmodule⟩ := bind_ok.mp hmodule
    obtain rfl := Except.ok.inj hmodule
    have hown := require_ok.mp hown
    have hsame : identityOf own = identityOf definition ∧ own.name = definition.name := by
      simpa using List.find?_some hown
    exact ⟨rfl, List.mem_of_find?_eq_some hown, hsame⟩
  have htargets : input.map Prod.fst = modules.map Prod.fst :=
    map_eq_of_forall₂ (hfound.imp fun _ _ h => h.1)
  have hconcrete' : ∀ entry ∈ input, ResolvedDefinition entry.1 entry.2 := fun entry hentry => by
    obtain ⟨module, hmodule, htarget, hmem, -⟩ := exists_of_forall₂_right hfound hentry
    exact htarget ▸ hconcrete module hmodule _ hmem
  intro entry hentry
  obtain ⟨⟨target, own⟩, hmem, rfl, hown, hidentity, hname⟩ := exists_of_forall₂_left hfound hentry
  dsimp only at hown hidentity hname
  refine ⟨own, hown, hidentity, ?_⟩
  rw [← htargets] at hnodup hregistered
  unfold ReadsDefinition
  split at h
  · rename_i hfunction
    rw [if_pos (hname.trans hfunction)]
    obtain ⟨state, m₁, hget, h⟩ := exec_bind_ok.mp h
    obtain ⟨hstate, rfl⟩ := Prod.mk.inj hget
    obtain rfl := Except.ok.inj hstate
    split at h
    · rename_i function m₂ hfunction'
      obtain ⟨_, m₃, hset, h⟩ := exec_bind_ok.mp h
      obtain ⟨-, rfl⟩ := Prod.mk.inj hset
      obtain ⟨hshared, rfl⟩ := Prod.mk.inj h
      obtain rfl := Except.ok.inj hshared
      rw [← htargets] at hfunction'
      obtain ⟨history, blocks, hhistory, hreads⟩ :=
        mergeFunction_reads hnodup hregistered hconcrete' hfunction'
      refine ⟨history, blocks _, hhistory, (hreads _ own hmem).imp ?_⟩
      rintro operation ⟨other, hother, hne, hoperation⟩
      obtain ⟨module, hmodule, htarget, hin, hsame, -⟩ := exists_of_forall₂_right hfound hother
      exact ⟨module, hmodule, htarget ▸ hne, other.2, hin, hsame.trans hidentity.symm, hoperation⟩
    · obtain ⟨_, m₃, -, h⟩ := exec_bind_ok.mp h
      simp [fail] at h
  · rename_i hfunction
    rw [if_neg (hname ▸ hfunction)]
    obtain ⟨attrs, m₁, hattrs, h⟩ := exec_bind_ok.mp h
    obtain ⟨hshared, rfl⟩ := Prod.mk.inj h
    obtain rfl := Except.ok.inj hshared
    have hread := attributes_read (by simpa [Function.comp_def] using hnodup)
      (fun entry hentry => by
        obtain ⟨found, hfound, rfl⟩ := List.mem_map.mp hentry
        exact hregistered _ (List.mem_map_of_mem hfound))
      (fun target attributes hvalue => by
        obtain ⟨found, hfound, rfl⟩ := mem_map_snd.mp hvalue
        exact (hconcrete' _ hfound).attributes.concrete) hattrs
      (List.mem_map.mpr ⟨_, hmem, rfl⟩)
    exact ⟨hname.symm, fun name => hread.1 name List.not_mem_nil, rfl⟩

/-- A shared definition that is a target's is there for the target and, once cut and resolved
for it, its own. -/
theorem renamedDefinition {others : Operation → Prop} {targets : List String}
    {target : TargetInfo} {own shared cut result : Definition} (hselected : target.id ∈ targets)
    (hconcrete : ResolvedDefinition target own) (hread : ReadsDefinition others target own shared)
    (hcut : specializeFunction targets target.id shared = .ok cut)
    (h : resolveDefinition target cut = .ok result) : RenamedDefinition others own result := by
  unfold ReadsDefinition at hread
  split at hread
  · obtain ⟨history, blocks, hhistory, hread⟩ := hread
    exact renamedFunction hselected hhistory ‹_› hconcrete hread hcut h
  · rename_i hname
    obtain ⟨hsame, hattributes, -⟩ := hread
    rw [specializeFunction, if_pos (hsame ▸ hname)] at hcut
    obtain rfl := Except.ok.inj hcut
    obtain ⟨regions, -, h⟩ := bind_ok.mp h
    obtain ⟨attributes, hresolved, h⟩ := bind_ok.mp h
    obtain rfl := Except.ok.inj h
    refine ⟨hsame, fun name hflags => ?_, fun h => absurd h hname⟩
    by_cases htargets : name = "targets"
    · rw [htargets, hconcrete.targets,
        (get_specializeAttributes_none hresolved _).mpr (Attributes.get_erase_self _ _)]
      exact .none
    refine sameAttributes hflags ?_ hresolved
    rw [Attributes.get_erase_of_ne (Ne.symm htargets)]
    exact hattributes name

/-- A shared definition is there for each of the targets. -/
theorem presentFor_shared {others : Operation → Prop} {target : TargetInfo}
    {own shared : Definition} (hconcrete : ResolvedDefinition target own)
    (hread : ReadsDefinition others target own shared)
    (selected : String) : presentFor selected shared = true := by
  have hnone : shared.attributes.get "targets" = none := by
    have hrel : Option.Rel (AttrResembles (numericName "targets") target)
        (own.attributes.get "targets") (shared.attributes.get "targets") := by
      unfold ReadsDefinition at hread
      split at hread
      · obtain ⟨_, _, -, hread⟩ := hread
        exact hread.attributes "targets" (by decide)
      · exact hread.2.1 "targets"
    rw [hconcrete.targets] at hrel
    generalize shared.attributes.get "targets" = held at hrel
    cases hrel
    rfl
  rw [presentFor, hnone]

/-- Elements between those of two lists. -/
theorem exists_between {α β γ : Type} {P : α → β → Prop} {S : β → γ → Prop} {xs : List α}
    {zs : List γ} (h : List.Forall₂ (fun x z => ∃ y, P x y ∧ S y z) xs zs) :
    ∃ ys, List.Forall₂ P xs ys ∧ List.Forall₂ S ys zs := by
  induction h with
  | nil => exact ⟨[], .nil, .nil⟩
  | cons hx _ ih =>
    obtain ⟨y, hP, hS⟩ := hx
    obtain ⟨ys, hPs, hSs⟩ := ih
    exact ⟨y :: ys, .cons hP hPs, .cons hS hSs⟩

/-- Of a merged module, the definitions are those of each module, in some order. -/
theorem merge_reads {verifyFunction : Native.Function → Bool}
    {modules : Observations TargetInfo Module} {output : Module} {m m' : Merger}
    (hnodup : (modules.map Prod.fst).Nodup)
    (hregistered : ∀ target ∈ modules.map Prod.fst, target ∈ targets.all)
    (hconcrete : ∀ entry ∈ modules, ∀ own ∈ entry.2.body, ResolvedDefinition entry.1 own)
    (h : exec (merge verifyFunction modules) m = (.ok output, m')) :
    ∀ entry ∈ modules, ∃ owns : List Definition, owns.Perm entry.2.body ∧
      List.Forall₂ (fun own => ReadsDefinition (DefinedElsewhere modules entry.1 own) entry.1 own)
        owns output.body := by
  unfold merge at h
  obtain ⟨flags, -, h⟩ := exec_check_bind_ok.mp h
  obtain ⟨_, hidentities, h⟩ := exec_check_bind_ok.mp h
  have hidentities := expect_ok.mp hidentities
  obtain ⟨body, m₁, hbody, h⟩ := exec_bind_ok.mp h
  obtain ⟨_, hmatched, h⟩ := exec_check_bind_ok.mp h
  have hmatched := forM_ok.mp hmatched
  obtain ⟨houtput, rfl⟩ := Prod.mk.inj h
  obtain rfl := Except.ok.inj houtput
  intro entry hentry
  generalize hfirst : (modules.head?.map fun module => module.2.body).getD [] = first at hbody hmatched
  have hreads := (exec_mapM_ok (R := fun _ _ => True) (Q := fun definition shared _ =>
      ∃ own ∈ entry.2.body, identityOf own = identityOf definition ∧
        ReadsDefinition (DefinedElsewhere modules entry.1 own) entry.1 own shared)
    (fun _ => trivial) (fun _ _ _ _ _ => trivial)
    (fun definition _ s shared t hshared => ⟨trivial, fun _ _ =>
      mergeDefinition_reads hnodup hregistered hconcrete hshared entry hentry⟩) hbody).2 m₁ trivial
  obtain ⟨owns, howns, hreads⟩ := exists_between
    (P := fun definition own => own ∈ entry.2.body ∧ identityOf own = identityOf definition)
    (hreads.imp fun definition shared ⟨own, hown, hidentity, hread⟩ =>
      ⟨own, ⟨hown, hidentity⟩, hread⟩)
  refine ⟨owns, ?_, hreads⟩
  have hsame : owns.map identityOf = first.map identityOf :=
    map_eq_of_forall₂ (howns.imp fun _ _ h => h.2)
  have hfirstNodup : (first.map identityOf).Nodup := by
    rw [← hfirst]
    cases hmodules : modules.head? with
    | none => simp
    | some head => exact (hidentities head (List.mem_of_head? hmodules)).2
  have hown : ∀ own ∈ owns, own ∈ entry.2.body := fun own hmem => by
    obtain ⟨_, -, hown, -⟩ := exists_of_forall₂_right howns hmem
    exact hown
  have hnodupOwns : owns.Nodup := List.Nodup.of_map identityOf (hsame ▸ hfirstNodup)
  have hnodupBody := (hidentities entry hentry).2
  refine (List.perm_ext_iff_of_nodup hnodupOwns (List.Nodup.of_map _ hnodupBody)).mpr
    fun own => ⟨hown own, fun hmem => ?_⟩
  have hmatchedOwn : identityOf own ∈ first.map identityOf := by
    by_contra hnot
    have hnil := expect_ok.mp (hmatched entry hentry)
    have hunmatched : own ∈ entry.2.body.filter fun definition =>
        ∀ matched ∈ first, identityOf matched ≠ identityOf definition :=
      List.mem_filter.mpr ⟨hmem, decide_eq_true fun matched hin heq =>
        hnot (List.mem_map.mpr ⟨matched, hin, heq⟩)⟩
    rw [List.map_eq_nil_iff.mp hnil] at hunmatched
    simp at hunmatched
  obtain ⟨own', hown', hidentity⟩ := List.mem_map.mp (hsame ▸ hmatchedOwn)
  rwa [← List.inj_on_of_nodup_map hnodupBody (hown own' hown') hmem hidentity]

end Merger

/-- A function that widens its argument on one target, with a case only this target has. -/
def widening : Definition where
  name := "sela.func"
  attributes := [("id", .string "widen"), ("type", .type (.function [.integer 32] [.integer 64]))]
  regions := [⟨[⟨0, [⟨0, .integer 32⟩],
      [⟨"sela.cast", [("opcode", .string "zext")], [⟨0, .integer 32⟩], [⟨1, .integer 64⟩], []⟩,
        ⟨"sela.switch", [("argument_counts", .denseI32 [0, 0]), ("cases", .array [.integer 32 7])],
          [⟨0, .integer 32⟩], [], [2, 1]⟩]⟩,
    ⟨1, [], [⟨"sela.call", [("callee", .string "g")], [], [], []⟩, ⟨"sela.br", [], [], [], [2]⟩]⟩,
    ⟨2, [], [⟨"sela.return", [], [⟨1, .integer 64⟩], [], []⟩]⟩], by decide⟩]

/-- The same function where nothing is to be widened. -/
def keeping : Definition where
  name := "sela.func"
  attributes := [("id", .string "widen"), ("type", .type (.function [.integer 32] [.integer 32]))]
  regions := [⟨[⟨5, [⟨0, .integer 32⟩],
      [⟨"sela.switch", [("argument_counts", .denseI32 [0]), ("cases", .array [])],
        [⟨0, .integer 32⟩], [], [6]⟩]⟩,
    ⟨6, [], [⟨"sela.return", [], [⟨0, .integer 32⟩], [], []⟩]⟩], by decide⟩]

/-- An operation of plain attributes on integers. -/
theorem concreteOperation_of_integers {target : TargetInfo} {operation : Operation}
    (hattributes : ∀ entry ∈ operation.attributes, entry.1 ≠ "sela.module_flags" ∧
      entry.2.Concrete target (numericName entry.1))
    (hvalues : ∀ value ∈ operation.operands ++ operation.results, ∃ width, value.type = .integer width)
    (hblocks : operation.attributes.get "block_domains" = none)
    (hcases : operation.attributes.get "case_domains" = none) :
    ResolvedOperation target operation := by
  have hinteger : ∀ value ∈ operation.operands ++ operation.results,
      value.type.Concrete target.id := fun value hvalue => by
    obtain ⟨width, htype⟩ := hvalues value hvalue
    simp [htype, SelaType.Concrete]
  exact ⟨⟨fun entry hentry => (hattributes entry hentry).2, fun entry hentry hname =>
    absurd hname (hattributes entry hentry).1⟩, fun value hvalue =>
    hinteger value (List.mem_append_left _ hvalue), fun value hvalue =>
    hinteger value (List.mem_append_right _ hvalue), hblocks, hcases⟩

theorem widening_concrete : ResolvedDefinition ⟨"x86_64", 64⟩ widening := by
  refine ⟨⟨?_, ?_⟩, by decide, by decide, by decide, ?_, ?_⟩
  · simp [widening, Attr.Concrete, SelaType.Concrete, typesConcrete, numericName]
  · simp [widening]
  · simp [widening, SelaType.Concrete]
  · simp only [widening, List.mem_cons, List.not_mem_nil, or_false, forall_eq, forall_eq_or_imp]
    refine ⟨⟨?_, ?_⟩, ⟨?_, ?_⟩, ?_⟩ <;> refine concreteOperation_of_integers ?_ ?_ rfl rfl <;>
      simp [Attr.Concrete, attrsConcrete, numericName]

theorem keeping_concrete : ResolvedDefinition ⟨"armv7", 32⟩ keeping := by
  refine ⟨⟨?_, ?_⟩, by decide, by decide, by decide, ?_, ?_⟩
  · simp [keeping, Attr.Concrete, SelaType.Concrete, typesConcrete, numericName]
  · simp [keeping]
  · simp [keeping, SelaType.Concrete]
  · simp only [keeping, List.mem_cons, List.not_mem_nil, or_false, forall_eq, forall_eq_or_imp]
    refine ⟨?_, ?_⟩ <;> refine concreteOperation_of_integers ?_ ?_ rfl rfl <;>
      simp [Attr.Concrete, attrsConcrete, numericName]

/-- The modules of both targets. -/
def widened : Observations TargetInfo Module :=
  [(⟨"x86_64", 64⟩, ⟨[], [widening]⟩), (⟨"armv7", 32⟩, ⟨[], [keeping]⟩)]

theorem widened_concrete : ∀ entry ∈ widened, ∀ own ∈ entry.2.body,
    ResolvedDefinition entry.1 own := by
  intro entry hentry own hown
  simp only [widened, List.mem_cons, List.not_mem_nil, or_false] at hentry
  rcases hentry with rfl | rfl <;> obtain rfl := List.mem_singleton.mp hown
  · exact widening_concrete
  · exact keeping_concrete

end Sela
