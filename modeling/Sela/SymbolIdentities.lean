import Sela.Association
import Sela.CaptureModule
import Sela.Checked

/-!
# The identities of imported symbols

The importer gives each global value of a native module an identity: a local one a generated
identity (`g0`, `f0`, ..), a memory intrinsic over the target's word a spelling of its own,
and any other value its native name. All identities share one namespace with the external
names of the program.

The identities are unique, every reference resolves to the value it names and the schema
admits the definitions exactly when no native name is taken for a generated identity
(`importSymbols_unique_iff`).
-/

namespace Sela

/-! ## The importer -/

/-- The linkage and storage checks of a global. -/
def GlobalVariable.importable (global : GlobalVariable) : Bool :=
  global.addressSpace = 0 && !global.isThreadLocal && !global.isExternallyInitialized &&
    !global.hasSection && !global.hasComdat &&
    (global.linkage ∈ [.private, .internal, .external, .common, .weakAny] ||
      global.linkage = .appending && global.name ∈ ["llvm.global_ctors", "llvm.global_dtors"])

namespace CapturedFunction

/-- Functions that are imported as operations, or not at all. -/
def skipped (function : CapturedFunction) : Bool :=
  function.debugFunction || function.byteSwapPrimitive || findIntrinsic function.intrinsicID

/-- The linkage and calling convention checks of a function. -/
def importable (function : CapturedFunction) : Bool :=
  function.callingConv = 0 && !function.hasPersonality && !function.hasPrefixData &&
    !function.hasPrologueData && !function.hasComdat && !function.hasSection &&
    function.linkage ∈ [.external, .internal, .availableExternally, .weakAny]

/-- The intrinsics that are imported as functions. -/
def importableIntrinsic (function : CapturedFunction) : Bool :=
  !function.isIntrinsic || function.memoryIntrinsic ||
    function.name ∈ ["llvm.lifetime.start.p0", "llvm.lifetime.end.p0", "llvm.va_start",
      "llvm.va_end", "llvm.va_copy", "llvm.fabs.f32", "llvm.fabs.f64", "llvm.fmuladd.f32",
      "llvm.fmuladd.f64", "llvm.fma.f32", "llvm.fma.f64"]

/-- A memory intrinsic whose length is a word of the target. -/
def wordIntrinsic (wordBits : ℕ) (function : CapturedFunction) : Bool :=
  function.memoryIntrinsic && function.parameterWidths[2]? = some (some wordBits)

/-- The name without its width. -/
def wordStem (function : CapturedFunction) : String :=
  String.ofList (function.name.toList.take (function.name.toList.length - 4))

end CapturedFunction

/-- How an identity is spelled: generated, from a memory intrinsic, or as the native name. -/
inductive Identity
  | generated (stem : String) (index : ℕ)
  | word (stem : String)
  | native (name : String)

def Identity.text : Identity → String
  | .generated stem index => numbered stem index
  | .word stem => stem ++ ".word"
  | .native name => name

def GlobalVariable.identity (global : GlobalVariable) (globalIndex : ℕ) : Identity :=
  if global.linkage.isLocal then .generated "g" globalIndex else .native global.name

def CapturedFunction.identity (wordBits : ℕ) (function : CapturedFunction) (functionIndex : ℕ) :
    Identity :=
  if function.wordIntrinsic wordBits then .word function.wordStem
  else if function.linkage.isLocal then .generated "f" functionIndex
  else .native function.name

/-- The identities given so far. -/
abbrev Symbols := List (NativeSymbol × String)

def importGlobal (symbols : Symbols) (entry : GlobalVariable × ℕ) : Checked Symbols := do
  Checked.ensure (entry.1.importable = true)
    ("unsupported single-target global storage/linkage: " ++ entry.1.name)
  pure (symbols ++ [(.global entry.2, (entry.1.identity entry.2).text)])

/-- Give a function its identity. Local functions are numbered by the definitions before
them. -/
def importFunction (wordBits : ℕ) (state : ℕ × Symbols) (entry : CapturedFunction × ℕ) :
    Checked (ℕ × Symbols) :=
  if entry.1.skipped then .ok state
  else do
    Checked.ensure (entry.1.importable = true)
      ("unsupported single-target function ABI/linkage: " ++ entry.1.name)
    Checked.ensure (entry.1.importableIntrinsic = true)
      ("unsupported Sela intrinsic import: " ++ entry.1.name)
    pure (if entry.1.isDeclaration then state.1 else state.1 + 1,
      state.2 ++ [(.function entry.2, (entry.1.identity wordBits state.1).text)])

def importSymbols (wordBits : ℕ) (input : CaptureModule) : Checked Symbols := do
  let symbols ← input.globals.zipIdx.foldlM importGlobal []
  let (_, symbols) ← input.functions.zipIdx.foldlM (importFunction wordBits) (0, symbols)
  pure symbols

/-- The definitions of the imported module, in order, with the native values they are made
from. -/
def importDefinitions (symbols : Symbols) (input : CaptureModule) : List (String × NativeSymbol) :=
  (input.globals.zipIdx.map fun entry =>
    ((symbols.lookup (.global entry.2)).getD "", .global entry.2)) ++
  (input.functions.zipIdx.filter fun entry => !entry.1.skipped).map fun entry =>
    ((symbols.lookup (.function entry.2)).getD "", .function entry.2)

/-- The schema's check of definition identities. -/
def validateIdentities (ids : List String) : Checked (List String) :=
  ids.foldlM (fun seen id => do
    Checked.ensure (id ∉ seen) "missing or overlapping active definition identity"
    pure (seen ++ [id])) []

/-- The identity that a reference to a global value is imported with. -/
def reference (symbols : Symbols) (value : NativeSymbol) : Option String :=
  symbols.lookup value

/-- The value of the definition that an identity names. -/
def resolve (definitions : List (String × NativeSymbol)) (identity : String) : Option NativeSymbol :=
  definitions.lookup identity

/-! ## Unique identities -/

/-- Distinct values have distinct identities, the schema admits the definitions and references
resolve to the values they name. -/
structure UniqueIdentities (input : CaptureModule) (symbols : Symbols) : Prop where
  injective : ∀ value value' identity, reference symbols value = some identity →
    reference symbols value' = some identity → value = value'
  admitted : ∃ seen, validateIdentities ((importDefinitions symbols input).map Prod.fst) = .ok seen
  resolves : ∀ value identity, reference symbols value = some identity →
    resolve (importDefinitions symbols input) identity = some value

/-- The number a local function gets: the definitions imported before it. -/
def CaptureModule.functionIndex (input : CaptureModule) (index : ℕ) : ℕ :=
  (input.functions.take index).countP fun function => !function.skipped && !function.isDeclaration

/-- How the identity of an imported value is spelled. -/
def CaptureModule.identity (wordBits : ℕ) (input : CaptureModule) : NativeSymbol → Option Identity
  | .global index => (input.globals[index]?).map fun global => global.identity index
  | .function index =>
    (input.functions[index]?).bind fun function =>
      if function.skipped then none
      else some (function.identity wordBits (input.functionIndex index))

namespace CaptureModule

def LocalGlobal (input : CaptureModule) (index : ℕ) : Prop :=
  ∃ global, input.globals[index]? = some global ∧ global.linkage.isLocal = true

/-- An imported local function, other than a memory intrinsic over a word. -/
def LocalFunction (wordBits : ℕ) (input : CaptureModule) (index : ℕ) : Prop :=
  ∃ function, input.functions[index]? = some function ∧ function.skipped = false ∧
    function.wordIntrinsic wordBits = false ∧ function.linkage.isLocal = true

/-- An imported memory intrinsic over a word. -/
def WordFunction (wordBits : ℕ) (input : CaptureModule) (index : ℕ) (stem : String) : Prop :=
  ∃ function, input.functions[index]? = some function ∧ function.skipped = false ∧
    function.wordIntrinsic wordBits = true ∧ function.wordStem = stem

/-- An imported value that other modules see under its name. -/
def External (wordBits : ℕ) (input : CaptureModule) (name : String) : NativeSymbol → Prop
  | .global index => ∃ global, input.globals[index]? = some global ∧
      global.linkage.isLocal = false ∧ global.name = name
  | .function index => ∃ function, input.functions[index]? = some function ∧
      function.skipped = false ∧ function.wordIntrinsic wordBits = false ∧
      function.linkage.isLocal = false ∧ function.name = name

end CaptureModule

/-- No identity is taken twice: a definition stands between two local functions, memory
intrinsics differ in more than their width, one external value at most is unnamed, and no
external name is spelled like a generated identity or a memory intrinsic's. -/
structure DistinctNames (wordBits : ℕ) (input : CaptureModule) : Prop where
  numbers : ∀ i j, input.LocalFunction wordBits i → input.LocalFunction wordBits j →
    input.functionIndex i = input.functionIndex j → i = j
  words : ∀ i j stem, input.WordFunction wordBits i stem → input.WordFunction wordBits j stem →
    i = j
  unnamed : ∀ value value', input.External wordBits "" value →
    input.External wordBits "" value' → value = value'
  globals : ∀ value name i, input.External wordBits name value → input.LocalGlobal i →
    name ≠ numbered "g" i
  functions : ∀ value name i, input.External wordBits name value →
    input.LocalFunction wordBits i → name ≠ numbered "f" (input.functionIndex i)
  intrinsics : ∀ value name i stem, input.External wordBits name value →
    input.WordFunction wordBits i stem → name ≠ stem ++ ".word"

/-! ## What the importer gives -/

variable {wordBits : ℕ} {input : CaptureModule} {symbols : Symbols}

/-- The entries of the globals. -/
def globalEntries (input : CaptureModule) : Symbols :=
  input.globals.zipIdx.map fun entry => (.global entry.2, (entry.1.identity entry.2).text)

/-- The entries of the first functions. -/
def functionEntries (wordBits : ℕ) (input : CaptureModule) (passed : List (CapturedFunction × ℕ)) :
    Symbols :=
  (passed.filter fun entry => !entry.1.skipped).map fun entry =>
    (.function entry.2, (entry.1.identity wordBits (input.functionIndex entry.2)).text)

theorem importGlobals_ok {globals : List (GlobalVariable × ℕ)}
    (h : globals.foldlM importGlobal [] = .ok symbols) :
    symbols = globals.map fun entry => (.global entry.2, (entry.1.identity entry.2).text) := by
  have hstart : ([] : Symbols) = ([] : List (GlobalVariable × ℕ)).map fun entry =>
      (.global entry.2, (entry.1.identity entry.2).text) := rfl
  have hrun := Checked.foldlM_invariant (fun passed (s : Symbols) =>
    s = passed.map fun entry => (.global entry.2, (entry.1.identity entry.2).text)) hstart
    (fun passed entry rest s s' _ hs hstep => ?_) h
  · simpa using hrun
  · unfold importGlobal at hstep
    obtain ⟨_, _, hsame⟩ := Checked.bind_ok.mp hstep
    obtain rfl := Except.ok.inj hsame
    rw [hs, List.map_append, List.map_singleton]

/-- The counter of the importer after a prefix of the functions. -/
theorem importFunctions_ok {symbols₀ : Symbols} {state : ℕ × Symbols}
    (h : input.functions.zipIdx.foldlM (importFunction wordBits) (0, symbols₀) = .ok state) :
    state.2 = symbols₀ ++ functionEntries wordBits input input.functions.zipIdx := by
  have hstart : (0, symbols₀).1 = input.functionIndex ([] : List (CapturedFunction × ℕ)).length ∧
      (0, symbols₀).2 = symbols₀ ++ functionEntries wordBits input [] := by
    simp [CaptureModule.functionIndex, functionEntries]
  have hrun := Checked.foldlM_invariant
    (fun (passed : List (CapturedFunction × ℕ)) (s : ℕ × Symbols) =>
      s.1 = input.functionIndex passed.length ∧
        s.2 = symbols₀ ++ functionEntries wordBits input passed) hstart
    (fun passed entry rest s s' hsplit hs hstep => ?_) h
  · simpa using hrun.2
  · obtain ⟨hcount, hsymbols⟩ := hs
    -- The entry at a position of the enumeration carries that position.
    have hat : input.functions.zipIdx[passed.length]? = some entry := by
      rw [List.nil_append] at hsplit
      rw [hsplit]
      simp
    rw [List.getElem?_zipIdx] at hat
    obtain ⟨function, hfunction, hentry⟩ := Option.map_eq_some_iff.mp hat
    obtain rfl : (function, 0 + passed.length) = entry := hentry
    have hnext : input.functionIndex (passed ++ [(function, 0 + passed.length)]).length =
        input.functionIndex passed.length +
          if !function.skipped && !function.isDeclaration then 1 else 0 := by
      rw [List.length_append, List.length_singleton, CaptureModule.functionIndex,
        List.take_add_one, List.countP_append, hfunction]
      simp [CaptureModule.functionIndex, List.countP_cons]
    unfold importFunction at hstep
    split at hstep
    · rename_i hskipped
      obtain rfl := Except.ok.inj hstep
      refine ⟨?_, ?_⟩
      · rw [hnext]
        simp [hskipped, hcount]
      · simp [functionEntries, hskipped, hsymbols]
    · rename_i hkept
      obtain ⟨_, _, hstep⟩ := Checked.bind_ok.mp hstep
      obtain ⟨_, _, hstep⟩ := Checked.bind_ok.mp hstep
      obtain rfl := Except.ok.inj hstep
      have hkept : function.skipped = false := by simpa using hkept
      refine ⟨?_, ?_⟩
      · rw [hnext]
        cases hdeclaration : function.isDeclaration <;> simp [hkept, hcount]
      · simp [functionEntries, hkept, hsymbols, hcount]

/-- The identities are those of the module's values. -/
theorem importSymbols_ok (h : importSymbols wordBits input = .ok symbols) :
    symbols = globalEntries input ++ functionEntries wordBits input input.functions.zipIdx := by
  unfold importSymbols at h
  obtain ⟨symbols₀, hglobals, h⟩ := Checked.bind_ok.mp h
  obtain ⟨state, hfunctions, h⟩ := Checked.bind_ok.mp h
  obtain rfl := Except.ok.inj h
  rw [importFunctions_ok hfunctions, importGlobals_ok hglobals]
  rfl

theorem mem_globalEntries {value : NativeSymbol} {identity : String} :
    (value, identity) ∈ globalEntries input ↔ ∃ index global, value = .global index ∧
      input.globals[index]? = some global ∧ (global.identity index).text = identity := by
  rw [globalEntries, List.mem_map]
  constructor
  · rintro ⟨⟨global, index⟩, hmem, hentry⟩
    obtain ⟨rfl, rfl⟩ := Prod.mk.inj hentry
    exact ⟨index, global, rfl, List.mem_zipIdx_iff_getElem?.mp hmem, rfl⟩
  · rintro ⟨index, global, rfl, hglobal, rfl⟩
    exact ⟨(global, index), List.mem_zipIdx_iff_getElem?.mpr hglobal, rfl⟩

theorem mem_functionEntries {value : NativeSymbol} {identity : String} :
    (value, identity) ∈ functionEntries wordBits input input.functions.zipIdx ↔
      ∃ index function, value = .function index ∧ input.functions[index]? = some function ∧
        function.skipped = false ∧
        (function.identity wordBits (input.functionIndex index)).text = identity := by
  rw [functionEntries, List.mem_map]
  constructor
  · rintro ⟨⟨function, index⟩, hmem, hentry⟩
    obtain ⟨rfl, rfl⟩ := Prod.mk.inj hentry
    obtain ⟨hmem, hkept⟩ := List.mem_filter.mp hmem
    exact ⟨index, function, rfl, List.mem_zipIdx_iff_getElem?.mp hmem, by simpa using hkept, rfl⟩
  · rintro ⟨index, function, rfl, hfunction, hkept, rfl⟩
    exact ⟨(function, index), List.mem_filter.mpr
      ⟨List.mem_zipIdx_iff_getElem?.mpr hfunction, by simpa using hkept⟩, rfl⟩

/-- Each imported value has one entry. -/
theorem nodup_values (h : importSymbols wordBits input = .ok symbols) :
    (symbols.map Prod.fst).Nodup := by
  rw [importSymbols_ok h, List.map_append]
  have hglobals : (globalEntries input).map Prod.fst =
      (input.globals.zipIdx.map Prod.snd).map NativeSymbol.global := by
    rw [globalEntries, List.map_map, List.map_map]
    rfl
  have hfunctions : (functionEntries wordBits input input.functions.zipIdx).map Prod.fst =
      ((input.functions.zipIdx.filter fun entry => !entry.1.skipped).map Prod.snd).map
        NativeSymbol.function := by
    rw [functionEntries, List.map_map, List.map_map]
    rfl
  have hpositions : ∀ {α : Type} (xs : List α), (xs.zipIdx.map Prod.snd).Nodup := by
    intro α xs
    rw [List.zipIdx_map_snd]
    exact List.nodup_range'
  rw [hglobals, hfunctions]
  refine List.nodup_append.mpr ⟨?_, ?_, ?_⟩
  · exact (hpositions _).map fun i j hij => NativeSymbol.global.inj hij
  · refine List.Nodup.map (fun i j hij => NativeSymbol.function.inj hij) ?_
    exact (hpositions _).sublist (List.filter_sublist.map Prod.snd)
  · intro a ha b hb
    obtain ⟨i, _, rfl⟩ := List.mem_map.mp ha
    obtain ⟨j, _, rfl⟩ := List.mem_map.mp hb
    simp

/-- A reference is imported with the identity of its value. -/
theorem reference_eq_some_iff (h : importSymbols wordBits input = .ok symbols)
    {value : NativeSymbol} {identity : String} : reference symbols value = some identity ↔
      ∃ spelled, input.identity wordBits value = some spelled ∧ spelled.text = identity := by
  rw [reference, Association.lookup_eq_some_iff_mem (nodup_values h), importSymbols_ok h,
    List.mem_append, mem_globalEntries, mem_functionEntries]
  constructor
  · rintro (⟨index, global, rfl, hglobal, rfl⟩ | ⟨index, function, rfl, hfunction, hkept, rfl⟩)
    · exact ⟨_, by simp [CaptureModule.identity, hglobal], rfl⟩
    · exact ⟨_, by simp [CaptureModule.identity, hfunction, hkept], rfl⟩
  · rintro ⟨spelled, hspelled, rfl⟩
    cases value with
    | global index =>
      obtain ⟨global, hglobal, rfl⟩ := Option.map_eq_some_iff.mp hspelled
      exact .inl ⟨index, global, rfl, hglobal, rfl⟩
    | function index =>
      obtain ⟨function, hfunction, hsome⟩ := Option.bind_eq_some_iff.mp hspelled
      split at hsome
      · simp at hsome
      · rename_i hkept
        obtain rfl := Option.some.inj hsome
        exact .inr ⟨index, function, rfl, hfunction, by simpa using hkept, rfl⟩

/-- The definitions are the entries, in the same order. -/
theorem importDefinitions_eq (h : importSymbols wordBits input = .ok symbols) :
    importDefinitions symbols input = symbols.map fun entry => (entry.2, entry.1) := by
  have hlookup : ∀ entry ∈ symbols, (symbols.lookup entry.1).getD "" = entry.2 := by
    rintro ⟨value, identity⟩ hentry
    rw [(Association.lookup_eq_some_iff_mem (nodup_values h)).mpr hentry]
    rfl
  have hok := importSymbols_ok h
  have hglobals : ∀ entry ∈ globalEntries input, (symbols.lookup entry.1).getD "" = entry.2 :=
    fun entry hentry => hlookup entry (hok ▸ List.mem_append_left _ hentry)
  have hfunctions : ∀ entry ∈ functionEntries wordBits input input.functions.zipIdx,
      (symbols.lookup entry.1).getD "" = entry.2 :=
    fun entry hentry => hlookup entry (hok ▸ List.mem_append_right _ hentry)
  have hsplit : symbols.map (fun entry => (entry.2, entry.1)) =
      (globalEntries input).map (fun entry => (entry.2, entry.1)) ++
        (functionEntries wordBits input input.functions.zipIdx).map
          fun entry => (entry.2, entry.1) := by
    rw [← List.map_append, ← hok]
  rw [hsplit, importDefinitions]
  congr 1
  · rw [globalEntries, List.map_map]
    refine List.map_congr_left fun entry hentry => ?_
    exact congrArg (·, _) (hglobals _ (List.mem_map_of_mem hentry))
  · rw [functionEntries, List.map_map]
    refine List.map_congr_left fun entry hentry => ?_
    exact congrArg (·, _) (hfunctions _ (List.mem_map_of_mem hentry))

theorem mem_of_validateIdentities {ids seen : List String} (h : validateIdentities ids = .ok seen) :
    ∀ id ∈ seen, id ∈ ids := by
  refine @Checked.foldlM_invariant _ _ _ (fun passed seen => ∀ id ∈ seen, id ∈ passed) [] _ _ _
    (by simp) (fun passed id _ seen seen' _ hseen hstep => ?_) h
  obtain ⟨_, -, hstep⟩ := Checked.bind_ok.mp hstep
  obtain rfl := Except.ok.inj hstep
  exact List.forall_mem_append.mpr
    ⟨fun id hid => List.mem_append_left _ (hseen id hid), by simp⟩

theorem validateIdentities_ok {ids : List String} :
    (∃ seen, validateIdentities ids = .ok seen) ↔ ids.Nodup := by
  have hrun : ∀ (ids seen : List String), seen.Nodup →
      ((∃ all, ids.foldlM (fun seen id => do
        Checked.ensure (id ∉ seen) "missing or overlapping active definition identity"
        pure (seen ++ [id])) seen = .ok all) ↔ (seen ++ ids).Nodup) := by
    intro ids
    induction ids with
    | nil => exact fun seen hseen => by simpa using hseen
    | cons id ids ih =>
      intro seen hseen
      have hassoc : seen ++ id :: ids = (seen ++ [id]) ++ ids := by simp
      by_cases hid : id ∈ seen
      · have hrepeated : ¬(seen ++ id :: ids).Nodup := fun hnodup =>
          (List.nodup_append.mp hnodup).2.2 id hid id (by simp) rfl
        simp [Checked.bind_ok, hid, hrepeated]
      · have hnext : (seen ++ [id]).Nodup := Grouping.nodup_concat hseen hid
        rw [hassoc, ← ih (seen ++ [id]) hnext]
        simp [Checked.bind_ok, hid]
  exact hrun ids [] List.nodup_nil

/-- Identities are unique when no two values have the same one; the schema and the references
follow. -/
theorem uniqueIdentities_iff (h : importSymbols wordBits input = .ok symbols) :
    UniqueIdentities input symbols ↔ ∀ value value' spelled spelled',
      input.identity wordBits value = some spelled →
      input.identity wordBits value' = some spelled' → spelled.text = spelled'.text →
      value = value' := by
  constructor
  · intro hunique value value' spelled spelled' hvalue hvalue' htext
    exact hunique.injective value value' spelled.text
      ((reference_eq_some_iff h).mpr ⟨spelled, hvalue, rfl⟩)
      ((reference_eq_some_iff h).mpr ⟨spelled', hvalue', htext.symm⟩)
  · intro hdistinct
    have hinjective : ∀ value value' identity, reference symbols value = some identity →
        reference symbols value' = some identity → value = value' := by
      intro value value' identity hvalue hvalue'
      obtain ⟨spelled, hspelled, htext⟩ := (reference_eq_some_iff h).mp hvalue
      obtain ⟨spelled', hspelled', htext'⟩ := (reference_eq_some_iff h).mp hvalue'
      exact hdistinct value value' spelled spelled' hspelled hspelled' (htext.trans htext'.symm)
    have hids : (importDefinitions symbols input).map Prod.fst = symbols.map Prod.snd := by
      rw [importDefinitions_eq h, List.map_map]
      rfl
    have hnodup : ((importDefinitions symbols input).map Prod.fst).Nodup := by
      have hentries : symbols.Nodup := (nodup_values h).of_map
      rw [hids]
      refine hentries.map_on fun entry hentry entry' hentry' heq => ?_
      have hlookup := (Association.lookup_eq_some_iff_mem (nodup_values h)).mpr
        (show (entry.1, entry.2) ∈ symbols from hentry)
      have hlookup' := (Association.lookup_eq_some_iff_mem (nodup_values h)).mpr
        (show (entry'.1, entry.2) ∈ symbols from heq ▸ hentry')
      exact Prod.ext (hinjective _ _ _ hlookup hlookup') heq
    refine ⟨hinjective, validateIdentities_ok.mpr hnodup, fun value identity hvalue => ?_⟩
    rw [resolve, Association.lookup_eq_some_iff_mem hnodup, importDefinitions_eq h]
    exact List.mem_map.mpr
      ⟨_, (Association.lookup_eq_some_iff_mem (nodup_values h)).mp hvalue, rfl⟩

/-! ## Which spellings coincide -/

/-- A name that occurs once among the nonempty ones is at one position. -/
theorem position_unique {α : Type} {p : α → Bool} : ∀ {xs : List α} {i j : ℕ} {x : α},
    (xs.filter p).Nodup → p x = true → xs[i]? = some x → xs[j]? = some x → i = j
  | [], _, _, _, _, _, hi, _ => by simp at hi
  | y :: xs, i, j, x, hnodup, hx, hi, hj => by
    have htail : (xs.filter p).Nodup := hnodup.sublist ((List.sublist_cons_self y xs).filter p)
    have hhead : ∀ k : ℕ, xs[k]? = some x → y ≠ x := by
      rintro k hk rfl
      rw [List.filter_cons_of_pos hx] at hnodup
      exact (List.nodup_cons.mp hnodup).1 (List.mem_filter.mpr ⟨List.mem_of_getElem? hk, hx⟩)
    cases i with
    | zero =>
      cases j with
      | zero => rfl
      | succ j => exact absurd (by simpa using hi) (hhead j hj)
    | succ i =>
      cases j with
      | zero => exact absurd (by simpa using hj) (hhead i hi)
      | succ j => exact congrArg (· + 1) (position_unique htail hx hi hj)

/-- The position of a value among the names of its module. -/
def CaptureModule.position (input : CaptureModule) : NativeSymbol → ℕ
  | .global index => index
  | .function index => input.globals.length + index

theorem name_of_external {value : NativeSymbol} {name : String}
    (h : input.External wordBits name value) :
    (input.globals.map GlobalVariable.name ++ input.functions.map CapturedFunction.name)[
      input.position value]? = some name := by
  cases value with
  | global index =>
    obtain ⟨global, hglobal, _, rfl⟩ := h
    have hlt := (List.getElem?_eq_some_iff.mp hglobal).1
    rw [CaptureModule.position, List.getElem?_append_left (by simpa using hlt), List.getElem?_map,
      hglobal, Option.map_some]
  | function index =>
    obtain ⟨function, hfunction, _, _, _, rfl⟩ := h
    rw [CaptureModule.position, List.getElem?_append_right (by simp), List.length_map,
      Nat.add_sub_cancel_left, List.getElem?_map, hfunction, Option.map_some]

/-- The range of positions tells globals from functions. -/
theorem position_inj {value value' : NativeSymbol} {spelled spelled' : Identity}
    (h : input.identity wordBits value = some spelled)
    (h' : input.identity wordBits value' = some spelled')
    (heq : input.position value = input.position value') : value = value' := by
  have hlt : ∀ {index : ℕ} {spelled : Identity},
      input.identity wordBits (.global index) = some spelled → index < input.globals.length := by
    intro index spelled h
    obtain ⟨global, hglobal, _⟩ := Option.map_eq_some_iff.mp h
    exact (List.getElem?_eq_some_iff.mp hglobal).1
  cases value with
  | global i =>
    cases value' with
    | global j => exact congrArg NativeSymbol.global heq
    | function j =>
      have := hlt h
      simp only [CaptureModule.position] at heq
      omega
  | function i =>
    cases value' with
    | global j =>
      have := hlt h'
      simp only [CaptureModule.position] at heq
      omega
    | function j =>
      simp only [CaptureModule.position] at heq
      exact congrArg NativeSymbol.function (by omega)

/-- The spelling of a value's identity tells which value it is. -/
inductive Spelled (wordBits : ℕ) (input : CaptureModule) : NativeSymbol → Identity → Prop
  | global {index : ℕ} (h : input.LocalGlobal index) :
      Spelled wordBits input (.global index) (.generated "g" index)
  | function {index : ℕ} (h : input.LocalFunction wordBits index) :
      Spelled wordBits input (.function index) (.generated "f" (input.functionIndex index))
  | word {index : ℕ} {stem : String} (h : input.WordFunction wordBits index stem) :
      Spelled wordBits input (.function index) (.word stem)
  | external {value : NativeSymbol} {name : String} (h : input.External wordBits name value) :
      Spelled wordBits input value (.native name)

theorem identity_eq_some_iff {value : NativeSymbol} {spelled : Identity} :
    input.identity wordBits value = some spelled ↔ Spelled wordBits input value spelled := by
  constructor
  · intro h
    cases value with
    | global index =>
      obtain ⟨global, hglobal, rfl⟩ := Option.map_eq_some_iff.mp h
      unfold GlobalVariable.identity
      split
      · exact .global ⟨global, hglobal, ‹_›⟩
      · exact .external ⟨global, hglobal, Bool.eq_false_iff.mpr ‹_›, rfl⟩
    | function index =>
      obtain ⟨function, hfunction, hsome⟩ := Option.bind_eq_some_iff.mp h
      split at hsome
      · simp at hsome
      · rename_i hkept
        have hkept : function.skipped = false := by simpa using hkept
        obtain rfl := Option.some.inj hsome
        unfold CapturedFunction.identity
        split
        · exact .word ⟨function, hfunction, hkept, ‹_›, rfl⟩
        · rename_i hword
          have hword : function.wordIntrinsic wordBits = false := by simpa using hword
          split
          · exact .function ⟨function, hfunction, hkept, hword, ‹_›⟩
          · exact .external ⟨function, hfunction, hkept, hword, Bool.eq_false_iff.mpr ‹_›, rfl⟩
  · intro h
    cases h with
    | global h =>
      obtain ⟨global, hglobal, hlocal⟩ := h
      simp [CaptureModule.identity, GlobalVariable.identity, hglobal, hlocal]
    | function h =>
      obtain ⟨function, hfunction, hkept, hword, hlocal⟩ := h
      simp [CaptureModule.identity, CapturedFunction.identity, hfunction, hkept, hword, hlocal]
    | word h =>
      obtain ⟨function, hfunction, hkept, hword, rfl⟩ := h
      simp [CaptureModule.identity, CapturedFunction.identity, hfunction, hkept, hword]
    | @external value _ h =>
      cases value with
      | global index =>
        obtain ⟨global, hglobal, hlocal, rfl⟩ := h
        simp [CaptureModule.identity, GlobalVariable.identity, hglobal, hlocal]
      | function index =>
        obtain ⟨function, hfunction, hkept, hword, hlocal, rfl⟩ := h
        simp [CaptureModule.identity, CapturedFunction.identity, hfunction, hkept, hword, hlocal]

/-- A generated identity has no point, a memory intrinsic's has one. -/
theorem numbered_ne_word {stem stem' : String} {index : ℕ} (hstem : stem = "g" ∨ stem = "f") :
    numbered stem index ≠ stem' ++ ".word" := by
  intro heq
  have hpoint : '.' ∈ (numbered stem index).toList := by
    rw [heq, String.toList_append]
    exact List.mem_append_right _ (by decide)
  rcases isDigit_of_mem_numbered hpoint with hmem | hdigit
  · rcases hstem with rfl | rfl <;> simp at hmem
  · exact absurd hdigit (by decide)

/-- Where no identity is taken twice, values with one spelling are one value. -/
theorem DistinctNames.text_inj (hdistinct : DistinctNames wordBits input)
    {value value' : NativeSymbol} {spelled spelled' : Identity}
    (h : Spelled wordBits input value spelled) (h' : Spelled wordBits input value' spelled')
    (htext : spelled.text = spelled'.text) : value = value' := by
  cases h with
  | @global i hi =>
    cases h' with
    | @global j hj => exact congrArg NativeSymbol.global (numbered_inj htext)
    | function hj => exact absurd htext numbered_ne
    | word hj => exact absurd htext (numbered_ne_word (.inl rfl))
    | external hj => exact absurd htext.symm (hdistinct.globals _ _ _ hj hi)
  | @function i hi =>
    cases h' with
    | global hj => exact absurd htext.symm numbered_ne
    | @function j hj =>
      exact congrArg NativeSymbol.function (hdistinct.numbers i j hi hj (numbered_inj htext))
    | word hj => exact absurd htext (numbered_ne_word (.inr rfl))
    | external hj => exact absurd htext.symm (hdistinct.functions _ _ _ hj hi)
  | @word i stem hi =>
    cases h' with
    | global hj => exact absurd htext.symm (numbered_ne_word (.inl rfl))
    | function hj => exact absurd htext.symm (numbered_ne_word (.inr rfl))
    | @word j stem' hj =>
      have htext : stem ++ ".word" = stem' ++ ".word" := htext
      obtain rfl := (String.append_left_inj ".word").mp htext
      exact congrArg NativeSymbol.function (hdistinct.words i j stem hi hj)
    | external hj => exact absurd htext.symm (hdistinct.intrinsics _ _ _ _ hj hi)
  | @external _ name hi =>
    cases h' with
    | global hj => exact absurd htext (hdistinct.globals _ _ _ hi hj)
    | function hj => exact absurd htext (hdistinct.functions _ _ _ hi hj)
    | word hj => exact absurd htext (hdistinct.intrinsics _ _ _ _ hi hj)
    | @external _ name' hj =>
      obtain rfl : name = name' := htext
      by_cases hempty : name = ""
      · subst hempty
        exact hdistinct.unnamed value value' hi hj
      · exact position_inj (identity_eq_some_iff.mpr (.external hi))
          (identity_eq_some_iff.mpr (.external hj))
          (position_unique input.distinct (by simpa using hempty)
            (name_of_external hi) (name_of_external hj))

/-- A value has one spelling. -/
theorem Spelled.unique {value : NativeSymbol} {spelled spelled' : Identity}
    (h : Spelled wordBits input value spelled) (h' : Spelled wordBits input value spelled') :
    spelled = spelled' :=
  Option.some.inj ((identity_eq_some_iff.mpr h).symm.trans (identity_eq_some_iff.mpr h'))

/-- Imported symbols have unique identities exactly when no identity is taken twice. -/
theorem importSymbols_unique_iff (wordBits : ℕ) (input : CaptureModule) (symbols : Symbols)
    (h : importSymbols wordBits input = .ok symbols) :
    UniqueIdentities input symbols ↔ DistinctNames wordBits input := by
  rw [uniqueIdentities_iff h]
  simp only [identity_eq_some_iff]
  constructor
  · intro hunique
    have hfunction : ∀ {i j spelled spelled'}, Spelled wordBits input (.function i) spelled →
        Spelled wordBits input (.function j) spelled' → spelled.text = spelled'.text → i = j :=
      fun hi hj htext => NativeSymbol.function.inj (hunique _ _ _ _ hi hj htext)
    -- An external value and another kind of value have spellings of different kinds.
    have hexternal : ∀ {value name value' spelled'}, input.External wordBits name value →
        Spelled wordBits input value' spelled' → name = spelled'.text →
        spelled' = .native name := by
      intro value name value' spelled' hvalue hvalue' htext
      obtain rfl := hunique _ _ _ _ (.external hvalue) hvalue' htext
      exact hvalue'.unique (.external hvalue)
    exact
      { numbers := fun i j hi hj heq =>
          hfunction (.function hi) (.function hj) (congrArg (numbered "f") heq)
        words := fun i j stem hi hj => hfunction (.word hi) (.word hj) rfl
        unnamed := fun value value' hi hj => hunique _ _ _ _ (.external hi) (.external hj) rfl
        globals := fun value name i hi hj heq => by cases hexternal hi (.global hj) heq
        functions := fun value name i hi hj heq => by cases hexternal hi (.function hj) heq
        intrinsics := fun value name i stem hi hj heq => by cases hexternal hi (.word hj) heq }
  · intro hdistinct value value' spelled spelled' hvalue hvalue' htext
    exact hdistinct.text_inj hvalue hvalue' htext

/-- A program with a static variable that prints. -/
def printingModule : CaptureModule where
  globals := [{ name := "counter", linkage := .internal }]
  functions := [{ name := "printf", linkage := .external, isDeclaration := true }]
  distinct := by decide

theorem printingModule_unique : UniqueIdentities printingModule
    [(.global 0, "g0"), (.function 0, "printf")] := by
  have hsymbols : importSymbols 64 printingModule =
      .ok [(.global 0, "g0"), (.function 0, "printf")] := by decide
  refine (importSymbols_unique_iff 64 printingModule _ hsymbols).mpr ?_
  have hfunction : ∀ (i : ℕ) function, printingModule.functions[i]? = some function →
      i = 0 ∧ function = { name := "printf", linkage := .external, isDeclaration := true } := by
    intro i function hi
    match i with
    | 0 => exact ⟨rfl, (Option.some.inj hi).symm⟩
    | _ + 1 => cases hi
  have hexternal : ∀ value name, printingModule.External 64 name value → name = "printf" := by
    intro value name h
    match value with
    | .global 0 =>
      obtain ⟨global, hglobal, hlocal, _⟩ := h
      obtain rfl := Option.some.inj hglobal
      exact absurd hlocal (by decide)
    | .global (_ + 1) =>
      obtain ⟨global, hglobal, _⟩ := h
      cases hglobal
    | .function i =>
      obtain ⟨function, hi, _, _, _, rfl⟩ := h
      rw [(hfunction i function hi).2]
  have hlocal : ∀ i, ¬printingModule.LocalFunction 64 i := by
    rintro i ⟨function, hi, _, _, hlocal⟩
    obtain ⟨-, rfl⟩ := hfunction i function hi
    exact absurd hlocal (by decide)
  have hword : ∀ i stem, ¬printingModule.WordFunction 64 i stem := by
    rintro i stem ⟨function, hi, _, hword, _⟩
    obtain ⟨-, rfl⟩ := hfunction i function hi
    exact absurd hword (by decide)
  refine ⟨fun i _ hi => absurd hi (hlocal i), fun i _ stem hi => absurd hi (hword i stem),
    fun value _ h => ?_, fun value name i h hi heq => ?_,
    fun _ _ i _ hi => absurd hi (hlocal i), fun _ _ i stem _ hi => absurd hi (hword i stem)⟩
  · exact absurd (hexternal value "" h) (by decide)
  · obtain rfl := hexternal value name h
    have hhead := congrArg String.toList heq
    rw [toList_numbered] at hhead
    simp at hhead

/-- A program with a static variable that calls an external function `g0`. -/
def clashingModule : CaptureModule where
  globals := [{ name := "counter", linkage := .internal }]
  functions := [{ name := "g0", linkage := .external, isDeclaration := true }]
  distinct := by decide

theorem clashingModule_overlaps : ∃ symbols, importSymbols 64 clashingModule = .ok symbols ∧
    ¬UniqueIdentities clashingModule symbols := by
  refine ⟨[(.global 0, "g0"), (.function 0, "g0")], by decide, fun hunique => ?_⟩
  have hsame := hunique.injective (.global 0) (.function 0) "g0" (by decide) (by decide)
  simp at hsame

end Sela
