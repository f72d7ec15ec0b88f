import Sela.Domains

/-!
# Verification of target domains

What a module must satisfy before a target's view of it is taken : each target set
names declared targets once, the cases of a choice do not overlap, the data of a
conditional array reaches its largest extent, and every type is one the schema admits.
-/

namespace Sela

open Checked

/-- The registered target of an identity that is known to be registered. -/
def targets.get (id : String) : TargetInfo := (targets.find id).getD ⟨id, 0⟩

/-- The identities of a set drawn from `declared`, each once. -/
def checkSet (input : Option Attr) (declared : List String) : Checked (List String) :=
  match input.bind Attr.asArray? with
  | none => throw "empty or malformed public target set"
  | some values => do
    ensure (values ≠ []) "empty or malformed public target set"
    let ids ← values.mapM fun value =>
      require value.asString? "unknown or duplicate identity in public target set"
    ensure ((∀ id ∈ ids, id ∈ declared) ∧ ids.Nodup)
      "unknown or duplicate identity in public target set"
    pure ids

mutual

/-- A literal that needs no computation, as the tail of a conditional array must be. -/
def literalTail : Attr → Bool
  | .integer _ _ | .foreign (.number _ _) => true
  | .float type _ => type == .f32 || type == .f64
  | .string text => text == "zero" || text == "null"
  | .array elements => elements.length ≤ 1024 * 1024 && literalTails elements
  | _ => false

def literalTails : List Attr → Bool
  | [] => true
  | element :: elements => literalTail element && literalTails elements

end

/-- The inventory of a conditional array : its count is at most the number of its
elements and reaches it, and what some target lacks is literal. -/
def checkConditionalArray (dictionary : Attributes) (declared : List String) : Checked Unit :=
  if (dictionary.get "array").isSome ∨ (dictionary.get "count").isSome then
    match (dictionary.get "array").bind Attr.asArray?, dictionary.get "count" with
    | some elements, some count => do
      ensure (dictionary.length = 2 ∧ elements.length ≤ 1024 * 1024)
        "invalid public conditional array inventory"
      let counts ← declared.mapM fun id => evaluateInteger count (targets.get id)
      ensure (counts.foldl max 0 = elements.length)
        "conditional array contains data outside every qualified extent"
      ensure (literalTails (elements.drop (counts.foldl min elements.length)))
        "conditional array tails require pure literal initializers"
    | _, _ => throw "invalid public conditional array inventory"
  else pure ()

/-- The cases of a choice, after the cases that have the targets `seen`. -/
def checkCases (checkValue : List String → Attr → Checked Unit) (declared : List String) :
    List String → List Attr → Checked Unit
  | _, [] => pure ()
  | seen, value :: cases =>
    match value.asDictionary? with
    | none => throw "invalid public target choice case"
    | some entry =>
      match entry.get "value" with
      | none => throw "invalid public target choice case"
      | some value => do
        ensure (entry.length = 2) "invalid public target choice case"
        let active ← checkSet (entry.get "targets") declared
        ensure (∀ id ∈ active, id ∉ seen) "overlapping public target choice cases"
        checkValue active value
        checkCases checkValue declared (seen ++ active) cases

/-- The target choices inside an attribute, up to `depth` levels. -/
def checkAttribute : ℕ → List String → Attr → Checked Unit
  | 0, _, _ => throw "public target expression nesting exceeds its bound"
  | depth + 1, declared, input =>
    match input with
    | .dictionary dictionary =>
      match Attributes.get dictionary "target_cases" with
      | some raw =>
        match raw.asArray? with
        | none => throw "invalid public target choice"
        | some cases => do
          ensure (dictionary.length = 1 ∧ cases ≠ [] ∧ cases.length ≤ declared.length)
            "invalid public target choice"
          checkCases (checkAttribute depth) declared [] cases
      | none => do
        checkConditionalArray dictionary declared
        dictionary.forM fun entry => checkAttribute depth declared entry.2
    | .array elements => elements.forM fun element => checkAttribute depth declared element
    | _ => pure ()

/-- Check the types a choice can have, up to `level` nested choices. -/
def checkCaseTypes (checkType : SelaType → Checked Unit) : ℕ → Attr → Checked Unit
  | 0, _ => throw "public type choice nesting exceeds its bound"
  | level + 1, raw =>
    match raw with
    | .type type => checkType type
    | .dictionary dictionary =>
      match (Attributes.get dictionary "target_cases").bind Attr.asArray? with
      | none => throw "public type alternatives must contain types, not opaque payloads"
      | some alternatives => alternatives.forM fun alternative =>
        checkCaseTypes checkType level
          ((alternative.asDictionary?.bind (Attributes.get · "value")).getD .unit)
    | _ => throw "public type alternatives must contain types, not opaque payloads"

/-- A storage identity : `r` and a number, of at most 64 characters. -/
def checkIdentity (identity : String) : Checked Unit :=
  ensure (2 ≤ identity.length ∧ identity.length ≤ 64 ∧ identity.toList.head? = some 'r' ∧
      identity.toList.tail.all (fun c => '0' ≤ c ∧ c ≤ '9'))
    "public storage identities must be opaque r-prefixed integers"

/-- A type the schema admits, up to `depth` levels. -/
def checkType (declared : List String) : ℕ → SelaType → Checked Unit
  | 0, _ => throw "public type nesting exceeds the qualified bound"
  | depth + 1, type =>
    match type with
    | .choice cases => do
      checkAttribute 65 declared cases
      checkCaseTypes (checkType declared depth) 65 cases
    | .array element count => do
      checkAttribute 65 declared count
      checkType declared depth element
    | .record identity _ fields => do
      if identity = "" then pure () else checkIdentity identity
      fields.forM fun field => checkType declared depth field
    | .overlap identity alternatives domains => do
      ensure (alternatives ≠ [] ∧ alternatives.length ≤ 64 ∧
          alternatives.length = domains.length) "invalid public overlap alternative inventory"
      domains.forM fun set => do
        let _ ← checkSet (some set) declared
        pure ()
      checkIdentity identity
      alternatives.forM fun field => checkType declared depth field
    | .function inputs results => do
      ensure (results.length ≤ 1) "public function type has multiple results"
      inputs.forM fun input => checkType declared depth input
      results.forM fun result => checkType declared depth result
    | .integer width | .foreign (.number (.signed width)) | .foreign (.number (.unsigned width)) =>
      ensure (1 ≤ width ∧ width ≤ 128) "unsupported public integer type in a declared alternative"
    | .vector shape scalable element => do
      ensure (scalable = false ∧ shape.length = 1 ∧ 1 ≤ shape.prod ∧ shape.prod ≤ 1024)
        "unsupported vector extent in a declared alternative"
      checkType declared depth element
    | .foreign _ => throw "unsupported public type in a declared alternative"
    | .f32 | .f64 | .word | .ptr | .vaList | .vaListArgument => pure ()

mutual

/-- The types an attribute mentions. -/
def Attr.mentioned : Attr → List SelaType
  | .type type => [type]
  | .array elements => attrsMentioned elements
  | .dictionary entries => entriesMentioned entries
  | _ => []

def attrsMentioned : List Attr → List SelaType
  | [] => []
  | element :: elements => element.mentioned ++ attrsMentioned elements

def entriesMentioned : List (String × Attr) → List SelaType
  | [] => []
  | (_, value) :: entries => value.mentioned ++ entriesMentioned entries

end

/-- The attributes and types of one operation, seen by the targets `active`. -/
def checkOperation (declared active : List String) (attributes : Attributes)
    (types : List SelaType) : Checked Unit := do
  attributes.forM fun entry => checkAttribute 65 active entry.2
  ["block_domains", "case_domains"].forM fun name =>
    match attributes.get name with
    | none => pure ()
    | some raw => do
      let values ← require raw.asArray? "invalid conditional target domain inventory"
      values.forM fun value => do
        let _ ← checkSet (some value) active
        pure ()
  types.forM fun type => checkType declared 65 type
  (entriesMentioned attributes).forM fun type => checkType declared 65 type

/-- The targets that have a definition. -/
def definitionTargets (declared : List String) (definition : Definition) :
    Checked (List String) :=
  match definition.attributes.get "targets" with
  | none => pure declared
  | some raw => do
    ensure (definition.name = "sela.func" ∨ definition.name = "sela.global")
      "target availability requires a top-level definition"
    checkSet (some raw) declared

/-- The targets, of those that have the function, that have its `index`-th block. -/
def blockTargets (definition : Definition) (active : List String) (index : ℕ) :
    Checked (List String) :=
  match (definition.attributes.get "block_domains").bind Attr.asArray? with
  | none => pure active
  | some domains => do
    ensure (index < domains.length) "local operation lacks a declared block domain"
    checkSet domains[index]? active

/-- The operations of a definition, then the definition itself. -/
def verifyDefinition (declared : List String) (definition : Definition) : Checked Unit := do
  definition.regions.forM fun region =>
    region.blocks.zipIdx.forM fun (block, index) =>
      block.operations.forM fun operation => do
        let active ← if definition.name = "sela.func" then definitionTargets declared definition
          else pure declared
        let active ← if definition.name = "sela.func" then blockTargets definition active index
          else pure active
        ensure (definition.name = "sela.func" ∨ operation.attributes.get "targets" = none)
          "target availability requires a top-level definition"
        checkOperation declared active operation.attributes (operation.results.map Value.type)
  let active ← definitionTargets declared definition
  checkOperation declared active definition.attributes
    (definition.regions.flatMap fun region =>
      region.blocks.flatMap fun block => block.arguments.map Value.type)

/-- One record of the module flags. -/
def checkFlag (declared : List String) (value : Attr) : Checked Unit :=
  match value.asDictionary? with
  | none => throw "invalid public module flag fields"
  | some record => do
    ensure (record.length = 4 ∧ (record.get "name").isSome ∧ (record.get "behavior").isSome ∧
      (record.get "value").isSome) "invalid public module flag fields"
    let present ← checkSet (record.get "targets") declared
    checkAttribute 65 present value

/-- Every domain, choice and type of a module. -/
def verifyTargetDomains (module : Module) : Checked Unit := do
  let declared ← declaredTargets module
  match module.attributes.get "sela.module_flags" with
  | none => pure ()
  | some raw => do
    let flags ← require raw.asArray? "invalid public module flag inventory"
    flags.forM fun value => checkFlag declared value
  module.body.forM fun definition => verifyDefinition declared definition
  ensure (module.attributes.get "targets" = none)
    "target availability requires a top-level definition"
  checkOperation declared declared module.attributes []

end Sela
