import Sela.Admission
import Sela.SymbolIdentities

/-!
# The references of a module

The schema of a target's view says which attributes an operation may have, and that the symbols
it refers to are those of definitions of the view. With what the admission of a module checks of
its choices, a module that passes is one whose references name, for each of its targets,
definitions that the target has (`verifyModuleStructure_admits`).
-/

namespace Sela

open Checked Stateful

/-! ## Symbols -/

mutual

/-- The symbols a type mentions. -/
def SelaType.symbols : SelaType → List String
  | .vector _ _ element => element.symbols
  | .function inputs results => typesSymbols inputs ++ typesSymbols results
  | .array element count => element.symbols ++ count.symbols
  | .choice cases => cases.symbols
  | .record _ _ fields => typesSymbols fields
  | .overlap _ alternatives domains => typesSymbols alternatives ++ attrsSymbols domains
  | _ => []

def typesSymbols : List SelaType → List String
  | [] => []
  | type :: types => type.symbols ++ typesSymbols types

/-- The symbols an attribute mentions : the entry `symbol` of each dictionary in it. -/
def Attr.symbols : Attr → List String
  | .float type _ => type.symbols
  | .type type => type.symbols
  | .array elements => attrsSymbols elements
  | .dictionary entries =>
    ((Attributes.get entries "symbol").bind Attr.asString?).toList ++ entriesSymbols entries
  | _ => []

def attrsSymbols : List Attr → List String
  | [] => []
  | element :: elements => element.symbols ++ attrsSymbols elements

def entriesSymbols : List (String × Attr) → List String
  | [] => []
  | (_, value) :: entries => value.symbols ++ entriesSymbols entries

end

/-! ## The schema -/

/-- The attributes each operation may have. -/
def allowed : List (String × List String) := [
  ("builtin.module", ["sela.schema", "sela.module_flags", "sela.targets"]),
  ("sela.func", ["id", "type", "declaration", "variadic", "internal", "weak",
    "available_externally", "dso_local", "visibility", "intrinsic", "attributes",
    "block_domains", "native_abi", "codegen"]),
  ("sela.global", ["id", "bytes", "alignment", "unnamed", "element", "initializer", "constant",
    "declaration", "linkage", "dso_local", "visibility"]),
  ("sela.constant", ["value"]),
  ("sela.address", ["global"]),
  ("sela.alloca", ["element", "alignment"]),
  ("sela.load", ["alignment", "volatile"]),
  ("sela.store", ["alignment", "volatile"]),
  ("sela.call", ["callee", "attributes", "tail", "native_abi"]),
  ("sela.call_indirect", ["type", "variadic", "attributes", "tail", "native_abi"]),
  ("sela.binary", ["opcode", "flags"]),
  ("sela.cast", ["opcode"]),
  ("sela.compare", ["predicate"]),
  ("sela.return", []),
  ("sela.gep", ["element", "inbounds"]),
  ("sela.select", []),
  ("sela.fneg", []),
  ("sela.bswap", []),
  ("sela.extract_value", ["indices"]),
  ("sela.insert_value", ["indices"]),
  ("sela.extract_element", []),
  ("sela.insert_element", []),
  ("sela.shuffle", ["mask"]),
  ("sela.intrinsic", ["name", "attributes", "tail"]),
  ("sela.inline_asm", ["template", "constraints", "backend", "side_effects", "align_stack",
    "can_throw", "dialect", "attributes", "tail"]),
  ("sela.inline_asm_br", ["template", "constraints", "backend", "side_effects", "align_stack",
    "can_throw", "dialect", "attributes", "tail", "argument_count", "argument_counts"]),
  ("sela.va_arg", []),
  ("sela.va_forward", []),
  ("sela.br", ["loop", "loop_id"]),
  ("sela.cond_br", ["true_count", "loop", "loop_id"]),
  ("sela.switch", ["cases", "argument_counts", "case_domains"]),
  ("sela.unreachable", [])]

/-- The attributes some operations must have. -/
def required : List (String × List String) := [
  ("sela.func", ["id", "type", "declaration", "variadic", "internal", "dso_local", "attributes"]),
  ("sela.constant", ["value"]),
  ("sela.address", ["global"]),
  ("sela.alloca", ["element", "alignment"]),
  ("sela.load", ["alignment"]),
  ("sela.store", ["alignment"]),
  ("sela.call", ["callee", "attributes", "tail"]),
  ("sela.call_indirect", ["type", "variadic", "attributes", "tail"]),
  ("sela.binary", ["opcode", "flags"]),
  ("sela.cast", ["opcode"]),
  ("sela.compare", ["predicate"]),
  ("sela.gep", ["element", "inbounds"]),
  ("sela.extract_value", ["indices"]),
  ("sela.insert_value", ["indices"]),
  ("sela.shuffle", ["mask"]),
  ("sela.intrinsic", ["name", "attributes", "tail"]),
  ("sela.inline_asm", ["template", "constraints", "backend", "side_effects", "align_stack",
    "can_throw", "dialect", "attributes", "tail"]),
  ("sela.inline_asm_br", ["template", "constraints", "backend", "side_effects", "align_stack",
    "can_throw", "dialect", "attributes", "tail", "argument_count", "argument_counts"]),
  ("sela.cond_br", ["true_count"]),
  ("sela.switch", ["cases", "argument_counts"])]

/-- The identities of definitions, no two the same. -/
def definitionSymbols (definitions : List Definition) : Checked (List String) := do
  let ids ← definitions.mapM fun definition =>
    require ((definition.attributes.get "id").bind Attr.asString?)
      "missing or overlapping active definition identity"
  validateIdentities ids

/-- An attribute of an operation that may have `fields`. -/
def validateField (symbols fields : List String) (entry : String × Attr) : Checked Unit := do
  ensure (entry.1 ∈ fields) ("unknown common IR attribute: " ++ entry.1)
  if entry.1 = "callee" ∨ entry.1 = "global" then
    ensure (entry.2.asString?.any fun reference => symbols.contains reference)
      "active reference has no declaration in its target domain"
  else if entry.1 = "initializer" then
    ensure (entry.2.symbols.all fun symbol => symbols.contains symbol)
      "initializer reference has no declaration in its target domain"
  else pure ()

/-- The attributes of an operation. -/
def validateOperation (symbols : List String) (name : String) (attributes : Attributes) :
    Checked Unit := do
  let fields ← require (allowed.lookup name) "unknown required common IR operation"
  ((required.lookup name).getD []).forM fun field =>
    ensure (attributes.get field).isSome
      ("missing required public operation attribute: " ++ field)
  attributes.forM fun entry => validateField symbols fields entry

/-- The attributes of an operation in a module. -/
def validateNested (symbols : List String) (name : String) (attributes : Attributes) :
    Checked Unit := do
  validateOperation symbols name attributes
  ensure (name ≠ "builtin.module") "nested modules are forbidden in common IR"

/-- What a target sees of a module. `other` stands for the checks of single attributes and types
that say nothing of another definition. (Where several operations fail the source reports the
last, this the first.) -/
def validateSchema (other : Module → Checked Unit) (module : Module) : Checked Unit := do
  other module
  let symbols ← definitionSymbols module.body
  module.body.forM fun definition => do
    definition.regions.forM fun region => region.blocks.forM fun block =>
      block.operations.forM fun operation =>
        validateNested symbols operation.name operation.attributes
    validateNested symbols definition.name definition.attributes
  validateOperation symbols "builtin.module" module.attributes

theorem definitionSymbols_ok {definitions : List Definition} {symbols : List String}
    (h : definitionSymbols definitions = .ok symbols) {symbol : String} (hsymbol : symbol ∈ symbols) :
    ∃ definition ∈ definitions, definition.attributes.get "id" = some (.string symbol) := by
  obtain ⟨ids, hids, h⟩ := bind_ok.mp h
  obtain ⟨definition, hmem, hid⟩ :=
    exists_of_forall₂_right (mapM_ok.mp hids) (mem_of_validateIdentities h symbol hsymbol)
  obtain ⟨raw, hraw, hstring⟩ := Option.bind_eq_some_iff.mp (require_ok.mp hid)
  obtain rfl : raw = .string symbol := by simpa using hstring
  exact ⟨definition, hmem, hraw⟩

/-- What an operation that passes refers to. It has no module flags. -/
structure Refers (symbols : List String) (attributes : Attributes) : Prop where
  flags : attributes.get "sela.module_flags" = none
  named : ∀ name, name = "callee" ∨ name = "global" → ∀ value, attributes.get name = some value →
    ∃ symbol ∈ symbols, value = .string symbol
  initializer : ∀ value, attributes.get "initializer" = some value →
    ∀ symbol ∈ value.symbols, symbol ∈ symbols

/-- Only a module may have module flags. -/
theorem flags_notMem_allowed {name : String} (hname : name ≠ "builtin.module") {fields : List String}
    (h : allowed.lookup name = some fields) : "sela.module_flags" ∉ fields := by
  have hall : ∀ entry ∈ allowed, entry.1 ≠ "builtin.module" → "sela.module_flags" ∉ entry.2 := by
    decide
  obtain ⟨before, after, heq, -⟩ := List.lookup_eq_some_iff.mp h
  exact hall (name, fields) (by simp [heq]) hname

theorem validateNested_refers {symbols : List String} {name : String} {attributes : Attributes}
    (h : validateNested symbols name attributes = .ok ()) : Refers symbols attributes := by
  obtain ⟨_, h, hname⟩ := bind_ok.mp h
  have hname := ensure_ok.mp hname
  obtain ⟨fields, hallowed, h⟩ := bind_ok.mp h
  have hallowed := require_ok.mp hallowed
  obtain ⟨_, -, h⟩ := bind_ok.mp h
  have hfield : ∀ {name value}, attributes.get name = some value →
      validateField symbols fields (name, value) = .ok () := fun hvalue =>
    forM_ok.mp h _ (Attributes.mem_of_get hvalue)
  refine ⟨?_, fun name hname value hvalue => ?_, fun value hvalue symbol hsymbol => ?_⟩
  · cases hflags : attributes.get "sela.module_flags" with
    | none => rfl
    | some value =>
      obtain ⟨_, hmem, -⟩ := bind_ok.mp (hfield hflags)
      exact absurd (ensure_ok.mp hmem) (flags_notMem_allowed hname hallowed)
  · obtain ⟨_, -, hchecked⟩ := bind_ok.mp (hfield hvalue)
    rw [if_pos hname] at hchecked
    obtain ⟨symbol, hstring, hsymbol⟩ := (Option.any_eq_true _ _).mp (ensure_ok.mp hchecked)
    exact ⟨symbol, by simpa using hsymbol, by simpa using hstring⟩
  · obtain ⟨_, -, hchecked⟩ := bind_ok.mp (hfield hvalue)
    rw [if_neg (by simp), if_pos rfl] at hchecked
    simpa using List.all_eq_true.mp (ensure_ok.mp hchecked) symbol hsymbol

/-- The references of a view that passes are to definitions of the view. -/
theorem validateSchema_refers {other : Module → Checked Unit} {view : Module}
    (h : validateSchema other view = .ok ()) :
    ∃ symbols, (∀ symbol ∈ symbols, ∃ definition ∈ view.body,
        definition.attributes.get "id" = some (.string symbol)) ∧
      (∀ definition ∈ view.body, Refers symbols definition.attributes) ∧
      ∀ operation, view.HasOperation operation → Refers symbols operation.attributes := by
  obtain ⟨_, -, h⟩ := bind_ok.mp h
  obtain ⟨symbols, hsymbols, h⟩ := bind_ok.mp h
  obtain ⟨_, hbody, -⟩ := bind_ok.mp h
  refine ⟨symbols, fun symbol hsymbol => ?_, fun definition hdefinition => ?_, ?_⟩
  · exact definitionSymbols_ok hsymbols hsymbol
  · obtain ⟨_, -, hchecked⟩ := bind_ok.mp (forM_ok.mp hbody definition hdefinition)
    exact validateNested_refers hchecked
  · rintro operation ⟨definition, hdefinition, region, hregion, block, hblock, hoperation⟩
    obtain ⟨_, hregions, -⟩ := bind_ok.mp (forM_ok.mp hbody definition hdefinition)
    exact validateNested_refers
      (forM_ok.mp (forM_ok.mp (forM_ok.mp hregions region hregion) block hblock) operation hoperation)

/-! ## References -/

/-- A definition that a target has, by the identity the target sees of it. -/
def Module.Defines (module : Module) (target : TargetInfo) (symbol : String) : Prop :=
  ∃ definition ∈ module.body, presentFor target.id definition = true ∧
    ∃ id, definition.attributes.get "id" = some id ∧
      specializeAttribute target false id = .ok (.string symbol)

/-- The attributes of a definition that a target has, or of an operation it has. -/
inductive Module.Carries (module : Module) (declared : List String) (id : String) :
    Attributes → Prop
  | definition {definition : Definition} (hmem : definition ∈ module.body)
    (hpresent : presentFor id definition = true) : Carries module declared id definition.attributes
  | operation {checked seen : List String} {block : Block} {operation : Operation}
    (hblock : module.HasBlock declared checked seen block) (hseen : id ∈ seen)
    (hoperation : operation ∈ block.operations) :
    Carries module declared id operation.attributes

/-- What attributes refer to, as a target sees them, names definitions the target has. They have
no module flags. -/
structure Module.Resolves (module : Module) (target : TargetInfo) (attributes : Attributes) :
    Prop where
  flags : attributes.get "sela.module_flags" = none
  named : ∀ name, name = "callee" ∨ name = "global" → ∀ value, attributes.get name = some value →
    ∃ symbol, specializeAttribute target false value = .ok (.string symbol) ∧
      module.Defines target symbol
  initializer : ∀ value, attributes.get "initializer" = some value →
    ∃ result, specializeAttribute target true value = .ok result ∧
      ∀ symbol ∈ result.symbols, module.Defines target symbol

/-- The attributes of a view refer to its symbols, so those they were made of do. -/
theorem Module.Resolves.of_refers {module : Module} {target : TargetInfo} {symbols : List String}
    {attributes results : Attributes} (h : specializeAttributes target attributes = .ok results)
    (hrefers : Refers symbols results) (hsymbols : ∀ symbol ∈ symbols, module.Defines target symbol) :
    module.Resolves target attributes where
  flags := (get_specializeAttributes_none h _).mp hrefers.flags
  named name hname value hvalue := by
    obtain ⟨result, hresult, raw, hraw, hspecialized⟩ := get_specializedFrom h hvalue
    obtain ⟨symbol, hsymbol, rfl⟩ := hrefers.named name hname result hresult
    rw [SpecializedFrom, if_neg (by rcases hname with rfl | rfl <;> simp)] at hraw
    obtain rfl : raw = value := hraw
    have hnumeric : numericName name = false := by rcases hname with rfl | rfl <;> decide
    exact ⟨symbol, hnumeric ▸ hspecialized, hsymbols symbol hsymbol⟩
  initializer value hvalue := by
    obtain ⟨result, hresult, raw, hraw, hspecialized⟩ := get_specializedFrom h hvalue
    rw [SpecializedFrom, if_neg (by simp)] at hraw
    obtain rfl : raw = value := hraw
    exact ⟨result, hspecialized, fun symbol hsymbol =>
      hsymbols symbol (hrefers.initializer result hresult symbol hsymbol)⟩

/-- Attributes refer to what others do that have the same references. -/
theorem Module.Resolves.of_get {module : Module} {target : TargetInfo}
    {attributes attributes' : Attributes} (h : module.Resolves target attributes')
    (hget : ∀ name ∈ ["sela.module_flags", "callee", "global", "initializer"],
      attributes.get name = attributes'.get name) : module.Resolves target attributes where
  flags := (hget _ (by simp)).trans h.flags
  named name hname value hvalue :=
    h.named name hname value ((hget name (by rcases hname with rfl | rfl <;> simp)) ▸ hvalue)
  initializer value hvalue := h.initializer value ((hget "initializer" (by simp)) ▸ hvalue)

/-- The identities a view has are those of definitions its target has. -/
theorem SpecializedFor.defines {declared : List String} {target : TargetInfo}
    {module view : Module} (h : SpecializedFor declared target module view)
    (hin : target.id ∈ declared) {result : Definition} (hresult : result ∈ view.body)
    {symbol : String} (hid : result.attributes.get "id" = some (.string symbol)) :
    module.Defines target symbol := by
  obtain ⟨definition, hmem, cut, hcut, hresolved⟩ := exists_of_forall₂_right h.definitions hresult
  obtain ⟨hmem, hpresent⟩ := List.mem_filter.mp hmem
  obtain ⟨regions, -, hresolved⟩ := bind_ok.mp hresolved
  obtain ⟨attributes, hattributes, hresolved⟩ := bind_ok.mp hresolved
  obtain rfl := Except.ok.inj hresolved
  refine ⟨definition, hmem, hpresent, ?_⟩
  have hcutId : (cut.attributes.erase "targets").get "id" = definition.attributes.get "id" := by
    rw [Attributes.get_erase_of_ne (by decide), specializeFunction_attributes hin hcut (by decide)]
  cases hown : definition.attributes.get "id" with
  | none =>
    simp [(get_specializeAttributes_none hattributes _).mpr (hcutId.trans hown)] at hid
  | some id =>
    obtain ⟨result, hresult, raw, hraw, hspecialized⟩ :=
      get_specializedFrom hattributes (hcutId.trans hown)
    obtain rfl := Option.some.inj (hresult.symm.trans hid)
    rw [SpecializedFrom, if_neg (by simp)] at hraw
    obtain rfl : raw = id := hraw
    exact ⟨raw, rfl, hspecialized⟩

/-- What a target has of a module refers to definitions it has. -/
theorem Module.Carries.resolves {module view : Module} {declared : List String}
    {target : TargetInfo} {attributes : Attributes} (h : module.Carries declared target.id attributes)
    (hin : target.id ∈ declared) (hmodule : SpecializedFor declared target module view)
    {other : Module → Checked Unit} (hschema : validateSchema other view = .ok ()) :
    module.Resolves target attributes := by
  obtain ⟨symbols, hsymbols, hdefinitions, hoperations⟩ := validateSchema_refers hschema
  have hdefines : ∀ symbol ∈ symbols, module.Defines target symbol := by
    intro symbol hsymbol
    obtain ⟨result, hresult, hid⟩ := hsymbols symbol hsymbol
    exact hmodule.defines hin hresult hid
  cases h with
  | @definition definition hmem hpresent =>
    obtain ⟨cut, result, hcut, hresolved, hview⟩ := hmodule.definition hmem hpresent
    have hrefers := hdefinitions result hview
    obtain ⟨regions, -, hresolved⟩ := bind_ok.mp hresolved
    obtain ⟨attributes, hattributes, hresolved⟩ := bind_ok.mp hresolved
    obtain rfl := Except.ok.inj hresolved
    refine (Module.Resolves.of_refers hattributes hrefers hdefines).of_get fun name hname => ?_
    have hne : "targets" ≠ name ∧ name ≠ "block_domains" := by
      revert name
      decide
    rw [Attributes.get_erase_of_ne hne.1, specializeFunction_attributes hin hcut hne.2]
  | @operation checked seen block operation hblock hseen hoperation =>
    obtain ⟨cut, result, hcut, hresult, hview⟩ :=
      (hblock.seen hin hmodule hseen).operations operation hoperation
    have hrefers := hoperations result hview
    obtain ⟨attributes, hattributes, hresult⟩ := bind_ok.mp hresult
    obtain ⟨_, -, hresult⟩ := bind_ok.mp hresult
    obtain ⟨_, -, hresult⟩ := bind_ok.mp hresult
    obtain rfl := Except.ok.inj hresult
    refine (Module.Resolves.of_refers hattributes hrefers hdefines).of_get fun name hname => ?_
    rcases hcut with rfl | ⟨-, hcut⟩
    · rfl
    · have hne : name ≠ "case_domains" ∧ name ≠ "cases" ∧ name ≠ "argument_counts" := by
        revert name
        decide
      exact (hcut.attributes name hne.1 hne.2.1 hne.2.2).symm

/-- A choice between a wide and a narrow attribute. -/
def wideOrNarrow (wide narrow : Attr) : Attr :=
  .dictionary [("target_cases", .array [
    .dictionary [("targets", targetSet ["x86_64"]), ("value", wide)],
    .dictionary [("targets", targetSet ["armv7"]), ("value", narrow)]])]

/-- A choice that only one target can make. -/
def wideOnly (wide : Attr) : Attr :=
  .dictionary [("target_cases", .array [
    .dictionary [("targets", targetSet ["x86_64"]), ("value", wide)]])]

def halfSwitch : Operation where
  name := "sela.switch"
  attributes := [
    ("argument_counts", .denseI32 [0, 0]),
    ("case_domains", .array [targetSet ["x86_64"]]),
    ("cases", .array [wideOnly (.integer 32 1)])]
  operands := [⟨0, .integer 32⟩]
  results := []
  successors := [1, 2]

def leaveOperation : Operation := ⟨"sela.return", [], [], [], []⟩

def halfBlocks : List Block :=
  [⟨0, [⟨0, .integer 32⟩], [halfSwitch]⟩, ⟨1, [], [leaveOperation]⟩, ⟨2, [], [leaveOperation]⟩]

theorem nodup_halfBlocks : (halfBlocks.map Block.id).Nodup := by
  simp [halfBlocks]

/-- Storage of one of two targets, its type a choice for both; storage whose first alternative is
one target's; and a switch with an edge for that target. -/
def halfSeen : Module where
  attributes := [("sela.schema", .integer 32 1), ("sela.targets", targetSet ["x86_64", "armv7"])]
  body := [
    { name := "sela.global"
      attributes := [
        ("element", .type (.choice (wideOrNarrow (.type (.integer 64)) (.type (.integer 32))))),
        ("id", .string "storage"),
        ("targets", targetSet ["x86_64"])]
      regions := [] },
    { name := "sela.global"
      attributes := [
        ("element", .type (.overlap "r0" [.choice (wideOnly (.type (.integer 64))), .ptr]
          [targetSet ["x86_64"], targetSet ["armv7"]])),
        ("id", .string "overlap")]
      regions := [] },
    { name := "sela.func"
      attributes := [
        ("attributes", .array []),
        ("block_domains", .array [targetSet ["x86_64", "armv7"], targetSet ["x86_64", "armv7"],
          targetSet ["x86_64"]]),
        ("declaration", .integer 1 0),
        ("dso_local", .integer 1 0),
        ("id", .string "switch"),
        ("internal", .integer 1 0),
        ("type", .type (.function [.integer 32] [])),
        ("variadic", .integer 1 0)]
      regions := [⟨halfBlocks, nodup_halfBlocks⟩] }]

theorem wideOrNarrow_isChoice {wide narrow : Attr} :
    (wideOrNarrow wide narrow).IsChoice [(["x86_64"], wide), (["armv7"], narrow)] :=
  ⟨_, _, rfl, rfl, rfl, .cons ⟨_, rfl, rfl, rfl, rfl⟩ (.cons ⟨_, rfl, rfl, rfl, rfl⟩ .nil)⟩

theorem wideOnly_isChoice {wide : Attr} : (wideOnly wide).IsChoice [(["x86_64"], wide)] :=
  ⟨_, _, rfl, rfl, rfl, .cons ⟨_, rfl, rfl, rfl, rfl⟩ .nil⟩

/-- What each target's function has the address of. -/
def cellName : Attr := wideOrNarrow (.string "cell") (.string "narrow")

def addressOperation : Operation where
  name := "sela.address"
  attributes := [("global", cellName)]
  operands := []
  results := [⟨0, .ptr⟩]
  successors := []

def returnOperation : Operation where
  name := "sela.return"
  attributes := []
  operands := [⟨0, .ptr⟩]
  results := []
  successors := []

def addressBlock : Block := ⟨0, [], [addressOperation, returnOperation]⟩

theorem nodup_addressBlock : ([addressBlock].map Block.id).Nodup := by
  simp

def addressFunction : Definition where
  name := "sela.func"
  attributes := [
    ("attributes", .array []),
    ("declaration", .integer 1 0),
    ("dso_local", .integer 1 0),
    ("id", .string "address"),
    ("internal", .integer 1 0),
    ("type", .type (.function [] [.ptr])),
    ("variadic", .integer 1 0)]
  regions := [⟨[addressBlock], nodup_addressBlock⟩]

/-- A cell of both targets that refers to itself, one of the second, and a function that returns
the address of the one or the other. -/
def cells : Module where
  attributes := [("sela.schema", .integer 32 1), ("sela.targets", targetSet ["x86_64", "armv7"])]
  body := [
    { name := "sela.global"
      attributes := [
        ("element", .type .ptr),
        ("id", .string "cell"),
        ("initializer", .dictionary [("symbol", .string "cell")])]
      regions := [] },
    { name := "sela.global"
      attributes := [
        ("element", .type .ptr),
        ("id", .string "narrow"),
        ("targets", targetSet ["armv7"])]
      regions := [] },
    addressFunction]

end Sela
