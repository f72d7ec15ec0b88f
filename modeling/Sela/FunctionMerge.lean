import Sela.CommonGraph
import Sela.ScopedFactoring

/-!
# Merging functions and modules

`Merger.mergeFunction` makes one function of one function of each target. The shared blocks
are those of `correspondence`; their operations are merged one position after the other. A
shared value stands for a tuple, the value each target has in its place, and an operand is
looked up by the tuple of the targets' operands (`operand`). A cast between integers that
some targets have and others do not, because their types coincide, is shared by all
(`mergeCast`). `mergeCommonModules` merges the definitions of whole modules by their
identities.
-/

namespace Sela

open Checked Correspondence Stateful

namespace Merger

/-! ## Shared values -/

/-- The value each target has in the place of a shared one. -/
abbrev Tuple := Observations TargetInfo Value

/-- The state of the merge of one function : that of the whole merge, the shared value of
each tuple, and the name of the next shared value. -/
structure Building where
  merger : Merger
  values : List (Tuple × Value)
  next : ℕ

/-- A step of the whole merge. -/
def inMerger {α : Type} (m : Stateful Merger α) : Stateful Building α := do
  let building ← get
  set { building with merger := (exec m building.merger).2 }
  check (exec m building.merger).1

/-- The tuple of the values observed, in the order of the targets. -/
def key (ids : List TargetInfo) (observations : Observations TargetInfo Value) : Tuple :=
  ids.filterMap fun target =>
    (observations.reverse.lookup target).map fun value => (target, value)

/-- A new shared value for the values observed. -/
def addValue (ids : List TargetInfo) (observations : Observations TargetInfo Value)
    (type : SelaType) : Stateful Building Value := do
  let building ← get
  let tuple := key ids observations
  set { building with
        values := (tuple, ⟨building.next, type⟩) :: building.values.filter (·.1 ≠ tuple)
        next := building.next + 1 }
  pure ⟨building.next, type⟩

/-- Whether a shared value stands for each value of a tuple. -/
def covers (candidate tuple : Tuple) : Bool :=
  tuple.all fun entry => candidate.lookup entry.1 = some entry.2

/-- The shared value of the operands observed : that of their tuple, or the one whose tuple
has them all. -/
def operand (ids : List TargetInfo) (observations : Observations TargetInfo Value) :
    Stateful Building Value := do
  let building ← get
  let tuple := key ids observations
  match building.values.lookup tuple with
  | some value => pure value
  | none =>
    match (building.values.filter fun entry => covers entry.1 tuple).map Prod.snd with
    | [] => check (fail "missing or escaping conditional SSA correspondence")
    | value :: others => do
      check (expect (∀ other ∈ others, other = value) "ambiguous conditional SSA correspondence")
      pure value

/-- The `k`-th of what each target has in order. -/
def nth {α : Type} (k : ℕ) (lists : Observations TargetInfo (List α)) : Observations TargetInfo α :=
  lists.filterMap fun entry => (entry.2[k]?).map fun value => (entry.1, value)

/-- New shared values for the values each target has in order, all of one number. -/
def addValues (ids : List TargetInfo) (values : Observations TargetInfo (List Value)) (count : ℕ) :
    Stateful Building (List Value) :=
  (List.range count).mapM fun k => do
    let type ← inMerger (mergeType ((nth k values).map fun entry => (entry.1, entry.2.type)))
    addValue ids (nth k values) type

/-- The shared values of the operands each target has in order. -/
def operandsOf (ids : List TargetInfo) (values : Observations TargetInfo (List Value)) (count : ℕ) :
    Stateful Building (List Value) :=
  (List.range count).mapM fun k => operand ids (nth k values)

/-! ## Attributes -/

/-- The attribute of one name that every target has. -/
def observed (dictionaries : Observations TargetInfo Attributes) (name : String) :
    Checked (Observations TargetInfo Attr) :=
  dictionaries.mapM fun entry => do
    match entry.2.get name with
    | some value => pure (entry.1, value)
    | none => fail "operation attribute inventories differ"

/-- The attributes of one operation for those of each target's, apart from some names. -/
def attributes (dictionaries : Observations TargetInfo Attributes) (omitted : List String) :
    Stateful Merger Attributes := do
  let first := (dictionaries.head?.map Prod.snd).getD []
  check (expect (∀ entry ∈ dictionaries, ∀ field ∈ entry.2, field.1 ∉ omitted →
    (first.get field.1).isSome = true) "operation attribute inventories differ")
  (first.filter fun field => field.1 ∉ omitted).mapM fun field => do
    let input ← check (observed dictionaries field.1)
    let value ← mergeAttribute input
    pure (field.1, value)

/-! ## Switches -/

/-- A case of a shared switch : the block it enters, its label, and the arguments it passes
on each target that has it. -/
structure Case where
  successor : ℕ
  label : Attr
  arguments : Observations TargetInfo (List Value)

/-- The number of arguments of a case. -/
def Case.count (case : Case) : ℕ := (case.arguments.head?.map fun entry => entry.2.length).getD 0

/-- The cases so far, the order of one target's cases, and the operands passed. -/
structure Cases where
  cases : List Case
  order : List ℕ
  offset : ℕ

/-- One more case of a target's switch. A case is known by its block and its label. -/
def addCase (blocks : TargetInfo → ℕ → Option ℕ) (target : TargetInfo) (operation : Operation)
    (state : Cases) (entry : Attr × ℕ × ℤ) : Checked Cases := do
  let successor ← require (blocks target entry.2.1) "N-target merge: invalid switch operand segment"
  expect (0 ≤ entry.2.2 ∧ state.offset + entry.2.2.toNat ≤ operation.operands.length)
    "invalid switch operand segment"
  let count := entry.2.2.toNat
  let arguments := (operation.operands.drop state.offset).take count
  let fits := fun case : Case => case.successor = successor ∧ case.label = entry.1
  expect (∀ case ∈ state.cases, fits case → case.count = count) "switch case argument counts differ"
  let placed := Grouping.place (fun case => decide (fits case))
    (fun case => { case with arguments := case.arguments ++ [(target, arguments)] })
    ⟨successor, entry.1, [(target, arguments)]⟩ state.cases
  pure ⟨placed.1, state.order ++ [placed.2], state.offset + count⟩

/-- What the switches of the targets have in common so far : the cases, the order each target
has them in, the block of the default and the arguments passed there. -/
structure Switches where
  cases : List Case
  orders : List (List ℕ)
  default : Option ℕ
  defaults : Observations TargetInfo (List Value)

/-- The number of arguments of the default. -/
def Switches.count (state : Switches) : ℕ :=
  (state.defaults.head?.map fun entry => entry.2.length).getD 0

/-- One more target's switch. -/
def addSwitch (blocks : TargetInfo → ℕ → Option ℕ) (state : Switches)
    (observation : TargetInfo × Operation) : Checked Switches := do
  let operation := observation.2
  match (operation.attributes.get "cases").bind Attr.asArray?,
      (operation.attributes.get "argument_counts").bind Attr.asDenseI32?, operation.successors with
  | some labels, some (count :: counts), defaultTo :: successors => do
    expect (counts.length = labels.length ∧ successors.length = labels.length ∧
      operation.operands ≠ []) "invalid switch observation"
    let mapped ← require (blocks observation.1 defaultTo)
      "N-target merge: switch default correspondence differs"
    expect ((state.default = none ∨ state.default = some mapped) ∧
        (state.defaults = [] ∨ (state.count : ℤ) = count) ∧ 0 ≤ count)
      "switch default correspondence differs"
    let cases ← (labels.zip (successors.zip counts)).foldlM
      (addCase blocks observation.1 operation) ⟨state.cases, [], 1 + count.toNat⟩
    expect (cases.offset = operation.operands.length) "switch has undeclared operand segments"
    pure ⟨cases.cases, state.orders ++ [cases.order], some mapped,
      state.defaults ++ [(observation.1, operation.operands.tail.take count.toNat)]⟩
  | _, _, _ => fail "invalid switch observation"

/-- A case of the shared switch : its label and its arguments. -/
def mergeCase (ids : List TargetInfo) (case : Case) : Stateful Building (Attr × List Value) := do
  let label ← inMerger (mergeAttribute (case.arguments.map fun entry => (entry.1, case.label)))
  let arguments ← operandsOf ids case.arguments case.count
  pure (label, arguments)

/-- One switch for those of the targets. Its cases are in an order that is each target's. -/
def mergeSwitch (ids : List TargetInfo) (blocks : TargetInfo → ℕ → Option ℕ)
    (operations : Observations TargetInfo Operation) : Stateful Building Operation := do
  let switches ← check (operations.foldlM (addSwitch blocks) ⟨[], [], none, []⟩)
  let ordered ← check (require (JointOrder.jointOrder switches.cases.length switches.orders)
    "N-target merge: switch case orders contradict one another")
  let cases := ordered.filterMap (switches.cases[·]?)
  let selector ← operand ids (nth 0 (operations.map fun entry => (entry.1, entry.2.operands)))
  let defaults ← operandsOf ids switches.defaults switches.count
  let merged ← cases.mapM (mergeCase ids)
  pure
    { name := "sela.switch"
      attributes :=
        [("argument_counts", .denseI32 ((switches.count : ℤ) :: cases.map fun case => (case.count : ℤ))),
          ("case_domains", .array (cases.map fun case =>
            targetSet (case.arguments.map fun entry => entry.1.id))),
          ("cases", .array (merged.map Prod.fst))]
      operands := selector :: defaults ++ merged.flatMap Prod.snd
      results := []
      successors := switches.default.toList ++ cases.map Case.successor }

/-! ## Operations -/

/-- The shared block that every target's `k`-th successor is in. -/
def mergeSuccessor (blocks : TargetInfo → ℕ → Option ℕ)
    (operations : Observations TargetInfo Operation) (k : ℕ) : Checked ℕ := do
  let common ← (nth k (operations.map fun entry => (entry.1, entry.2.successors))).foldlM
    (fun common entry => do
      let mapped ← require (blocks entry.1 entry.2)
        "N-target merge: branch successors lack common correspondence"
      expect (common = none ∨ common = some mapped) "branch successors lack common correspondence"
      pure (some mapped)) none
  require common "N-target merge: branch successors lack common correspondence"

/-- One operation for those of the targets. (The source never asks for no observation.) -/
def mergeOperation (ids : List TargetInfo) (blocks : TargetInfo → ℕ → Option ℕ) :
    Observations TargetInfo Operation → Stateful Building Operation
  | [] => check (fail "missing operation observations")
  | first :: rest =>
    let operations : Observations TargetInfo Operation := first :: rest
    if ∀ entry ∈ operations, entry.2.name = "sela.switch" then mergeSwitch ids blocks operations
    else do
      check (expect (∀ entry ∈ operations, entry.2.name = first.2.name ∧
        entry.2.operands.length = first.2.operands.length ∧
        entry.2.results.length = first.2.results.length ∧
        entry.2.successors.length = first.2.successors.length)
        "instruction shape needs additional common-graph normalization")
      let attrs ← inMerger (attributes (operations.map fun entry => (entry.1, entry.2.attributes)) [])
      -- The types of all results come before the operands, the results themselves after them.
      let types ← (List.range first.2.results.length).mapM fun k => inMerger (mergeType
        ((nth k (operations.map fun entry => (entry.1, entry.2.results))).map fun entry =>
          (entry.1, entry.2.type)))
      let operands ← operandsOf ids (operations.map fun entry => (entry.1, entry.2.operands))
        first.2.operands.length
      let successors ← (List.range first.2.successors.length).mapM fun k =>
        check (mergeSuccessor blocks operations k)
      let results ← types.zipIdx.mapM fun type => addValue ids
        (nth type.2 (operations.map fun entry => (entry.1, entry.2.results))) type.1
      pure ⟨first.2.name, attrs, operands, results, successors⟩

/-! ## Casts that some targets do not have -/

/-- The opcode of an operation. -/
def opcode (operation : Operation) : String :=
  ((operation.attributes.get "opcode").bind Attr.asString?).getD ""

/-- Whether an operation is a cast between integers. -/
def isCast (operation : Operation) : Bool :=
  operation.name = "sela.cast" && opcode operation ∈ ["sext", "zext", "trunc"] &&
    match operation.operands, operation.results with
    | [source], [result] => isInteger source.type && isInteger result.type
    | _, _ => false

/-- What a target has in the place of an optional cast : the result of its own cast, or what it
has for the shared source. -/
def castResult (casts : Observations TargetInfo Operation) (source : Tuple)
    (target : TargetInfo) : Option Value :=
  match casts.lookup target with
  | some cast => cast.results.head?
  | none => source.lookup target

/-- The opcode of an optional cast on a target. -/
def castOpcode (casts : Observations TargetInfo Operation) (target : TargetInfo) : String :=
  match casts.lookup target with
  | some cast => "native_" ++ opcode cast
  | none => "native_zext"

/-- The cast that some of the targets have, of one source that all of them have. -/
def mergeCast (ids targets : List TargetInfo) (casts : Observations TargetInfo Operation) :
    Stateful Building Operation := do
  let building ← get
  match building.values.filter fun entry =>
      (casts.all fun cast => entry.1.lookup cast.1 = cast.2.operands.head?) &&
        targets.all fun target => (entry.1.lookup target).isSome with
  | [] => check (fail "optional cast lacks shared source evidence")
  | [entry] => do
    let originals : Observations TargetInfo Value := targets.filterMap fun target =>
      (castResult casts entry.1 target).map fun value => (target, value)
    let opcodes : Observations TargetInfo Attr := targets.map fun target =>
      (target, .string (castOpcode casts target))
    let type ← inMerger (mergeType (originals.map fun value => (value.1, value.2.type)))
    let result ← addValue ids originals type
    pure ⟨"sela.cast", [("opcode", choice opcodes)], [entry.2], [result], []⟩
  | _ => check (fail "ambiguous optional-cast source correspondence")

/-! ## The operations of a block -/

/-- The operations of a target's block from a position on. -/
structure Cursor where
  position : ℕ
  rest : List Operation

def Cursor.advance (cursor : Cursor) : Cursor := ⟨cursor.position + 1, cursor.rest.tail⟩

/-- The operation each target has next. -/
def heads (cursors : Observations TargetInfo Cursor) : Observations TargetInfo Operation :=
  cursors.filterMap fun entry => entry.2.rest.head?.map fun operation => (entry.1, operation)

/-- What the targets have next, where it has nothing in common. -/
def describe (cursors : Observations TargetInfo Cursor) : String :=
  ", ".intercalate (cursors.filterMap fun entry => entry.2.rest.head?.map fun operation =>
    entry.1.id ++ "=" ++ operation.name ++ "@" ++ toString entry.2.position ++
      (match (operation.attributes.get "callee").bind Attr.asString? with
        | some callee => ":" ++ callee
        | none => ""))

/-- Whether every target has an operation next, all of one name. -/
def agree (cursors : Observations TargetInfo Cursor) : Prop :=
  (∀ entry ∈ cursors, entry.2.rest ≠ []) ∧
    ∀ operation ∈ heads cursors, some operation.2.name = (heads cursors).head?.map (·.2.name)

instance (cursors : Observations TargetInfo Cursor) : Decidable (agree cursors) :=
  inferInstanceAs (Decidable (_ ∧ _))

/-- The casts among what the targets have next. -/
def nextCasts (cursors : Observations TargetInfo Cursor) : Observations TargetInfo Operation :=
  (heads cursors).filter fun entry => isCast entry.2

/-- Pass what every target has next. -/
def advanceAll (cursors : Observations TargetInfo Cursor) : Observations TargetInfo Cursor :=
  cursors.map fun entry => (entry.1, entry.2.advance)

/-- Pass the casts next on some targets. -/
def advanceCasts (cursors : Observations TargetInfo Cursor) : Observations TargetInfo Cursor :=
  cursors.map fun entry => (entry.1,
    if (nextCasts cursors).lookup entry.1 = none then entry.2 else entry.2.advance)

/-- The number of operations left. -/
def remaining : Observations TargetInfo Cursor → ℕ
  | [] => 0
  | entry :: cursors => entry.2.rest.length + remaining cursors

/-- Passing an operation of some target leaves fewer. -/
theorem remaining_lt {pass : TargetInfo × Cursor → Cursor} :
    ∀ {cursors : Observations TargetInfo Cursor},
      (∀ entry ∈ cursors, (pass entry).rest.length ≤ entry.2.rest.length) →
      (remaining (cursors.map fun entry => (entry.1, pass entry)) ≤ remaining cursors) ∧
      ((∃ entry ∈ cursors, (pass entry).rest.length < entry.2.rest.length) →
        remaining (cursors.map fun entry => (entry.1, pass entry)) < remaining cursors)
  | [], _ => by simp
  | entry :: cursors, hle => by
    obtain ⟨hhead, hrest⟩ := List.forall_mem_cons.mp hle
    obtain ⟨ihle, ihlt⟩ := remaining_lt hrest
    rw [List.map_cons, remaining, remaining]
    refine ⟨Nat.add_le_add hhead ihle, fun hlt => ?_⟩
    obtain ⟨passed, hmem, hlt⟩ := hlt
    rcases List.mem_cons.mp hmem with rfl | hmem
    · exact Nat.add_lt_add_of_lt_of_le hlt ihle
    · exact Nat.add_lt_add_of_le_of_lt hhead (ihlt ⟨passed, hmem, hlt⟩)

theorem mem_heads {cursors : Observations TargetInfo Cursor} {target : TargetInfo}
    {operation : Operation} : (target, operation) ∈ heads cursors ↔
      ∃ cursor, (target, cursor) ∈ cursors ∧ cursor.rest.head? = some operation := by
  simp only [heads, List.mem_filterMap, Option.map_eq_some_iff, Prod.mk.injEq]
  constructor
  · rintro ⟨⟨target', cursor⟩, hmem, operation', hhead, rfl, rfl⟩
    exact ⟨cursor, hmem, hhead⟩
  · rintro ⟨cursor, hmem, hhead⟩
    exact ⟨(target, cursor), hmem, operation, hhead, rfl, rfl⟩

theorem length_advance_le (cursor : Cursor) :
    cursor.advance.rest.length ≤ cursor.rest.length := by
  simp [Cursor.advance]

theorem length_advance_lt {cursor : Cursor} {operation : Operation}
    (h : cursor.rest.head? = some operation) : cursor.advance.rest.length < cursor.rest.length := by
  obtain ⟨rest, hrest⟩ := List.head?_eq_some_iff.mp h
  simp [Cursor.advance, hrest]

theorem remaining_advanceAll {cursors : Observations TargetInfo Cursor} (h : heads cursors ≠ []) :
    remaining (advanceAll cursors) < remaining cursors := by
  obtain ⟨⟨target, operation⟩, hmem⟩ := List.exists_mem_of_ne_nil _ h
  obtain ⟨cursor, hcursor, hhead⟩ := mem_heads.mp hmem
  exact (remaining_lt fun entry _ => length_advance_le entry.2).2
    ⟨_, hcursor, length_advance_lt hhead⟩

theorem remaining_advanceCasts {cursors : Observations TargetInfo Cursor}
    (h : nextCasts cursors ≠ []) : remaining (advanceCasts cursors) < remaining cursors := by
  obtain ⟨⟨target, operation⟩, hcast⟩ := List.exists_mem_of_ne_nil _ h
  obtain ⟨cursor, hcursor, hhead⟩ := mem_heads.mp (List.mem_of_mem_filter hcast)
  have hsome : (nextCasts cursors).lookup target ≠ none := fun hnone =>
    Association.lookup_eq_none_iff_mem.mp hnone (List.mem_map_of_mem hcast)
  refine (remaining_lt fun entry _ => ?_).2 ⟨_, hcursor, ?_⟩
  · split
    · exact le_rfl
    · exact length_advance_le entry.2
  · rw [if_neg hsome]
    exact length_advance_lt hhead

/-- The operations the targets' blocks share, from their cursors on. -/
def mergeInstructions (ids : List TargetInfo) (blocks : TargetInfo → ℕ → Option ℕ)
    (cursors : Observations TargetInfo Cursor) : Stateful Building (List Operation) :=
  if _hnone : heads cursors = [] then pure []
  else if agree cursors then do
    let operation ← mergeOperation ids blocks (heads cursors)
    let rest ← mergeInstructions ids blocks (advanceAll cursors)
    pure (operation :: rest)
  -- An integer extension or truncation may be missing where its types coincide.
  else if _hcasts : nextCasts cursors = [] then
    check (fail ("instruction sequences need additional local semantic normalization (" ++
      describe cursors ++ ")"))
  else do
    let operation ← mergeCast ids (cursors.map Prod.fst) (nextCasts cursors)
    let rest ← mergeInstructions ids blocks (advanceCasts cursors)
    pure (operation :: rest)
termination_by remaining cursors
decreasing_by
  · exact remaining_advanceAll _hnone
  · exact remaining_advanceCasts _hcasts

/-! ## Functions -/

/-- The block each target has in a group. -/
def sources (ids : List TargetInfo) (functions : Observations TargetInfo Definition)
    (group : BlockGroup) : Observations TargetInfo Block :=
  ids.filterMap fun target => (group target).bind fun block =>
    (functions.lookup target).bind fun function =>
      (function.body.find? fun source => source.id = block).map fun source => (target, source)

/-- The shared block a target's block is in. -/
def sharedBlock (groups : List BlockGroup) (target : TargetInfo) (block : ℕ) : Option ℕ :=
  groups.findIdx? fun group => group target = some block

/-- The arguments of a shared block. -/
def mergeArguments (ids : List TargetInfo) (sources : Observations TargetInfo Block) :
    Stateful Building (List Value) := do
  let count := (sources.head?.map fun source => source.2.arguments.length).getD 0
  check (expect (∀ source ∈ sources, source.2.arguments.length = count)
    "block argument arities differ")
  addValues ids (sources.map fun source => (source.1, source.2.arguments)) count

/-- The region of blocks with the given arguments and operations, named by their positions. -/
def regionOf (blocks : List (List Value × List Operation)) : Region :=
  ⟨blocks.zipIdx.map fun block => ⟨block.2, block.1.1, block.1.2⟩, by
    rw [List.map_map, show (Block.id ∘ fun block : (List Value × List Operation) × ℕ =>
      (⟨block.2, block.1.1, block.1.2⟩ : Block)) = Prod.snd from rfl, List.zipIdx_map_snd]
    exact List.nodup_range'⟩

/-- The shared blocks : the arguments of all of them first, then the operations of each. -/
def mergeBody (ids : List TargetInfo) (functions : Observations TargetInfo Definition)
    (groups : List BlockGroup) : Stateful Building Region := do
  let arguments ← groups.mapM fun group => mergeArguments ids (sources ids functions group)
  let operations ← groups.mapM fun group =>
    mergeInstructions ids (sharedBlock groups) ((sources ids functions group).map fun source =>
      (source.1, ⟨0, source.2.operations⟩))
  pure (regionOf (arguments.zip operations))

/-- The targets that have a block in a group. -/
def groupDomain (ids : List TargetInfo) (group : BlockGroup) : Attr :=
  targetSet ((ids.filter fun target => (group target).isSome).map TargetInfo.id)

/-- One function for one of each target. -/
def mergeFunction (verifyFunction : Native.Function → Bool) (ids : List TargetInfo)
    (functions : Observations TargetInfo Definition) : Stateful Merger Definition := do
  let attrs ← attributes (functions.map fun function => (function.1, function.2.attributes))
    ["block_domains"]
  let isEmpty := functions.head?.all fun function => function.2.body.isEmpty
  check (expect (∀ function ∈ functions, function.2.body.isEmpty = isEmpty)
    "conditional function definition presence is not proved")
  if isEmpty then pure ⟨"sela.func", attrs, [⟨[], List.nodup_nil⟩]⟩
  else do
    let groups ← check (correspondence verifyFunction functions)
    let merger ← get
    set (exec (mergeBody ids functions groups) ⟨merger, [], 0⟩).2.merger
    let region ← check (exec (mergeBody ids functions groups) ⟨merger, [], 0⟩).1
    pure ⟨"sela.func", attrs.set "block_domains" (.array (groups.map (groupDomain ids))), [region]⟩

/-! ## Modules -/

/-- A module flag without its targets. -/
def flagRecord (target : TargetInfo) (raw : Attr) : Checked (TargetInfo × Attributes) :=
  match raw with
  | .dictionary fields => pure (target, Attributes.erase fields "targets")
  | _ => fail "invalid module flag observation"

/-- The module flags, each with the targets that have it. -/
def mergeFlags (modules : Observations TargetInfo Module) : Checked (List Attr) := do
  let records ← (modules.flatMap fun module => module.2.flags.map fun raw => (module.1, raw)).mapM
    fun entry => flagRecord entry.1 entry.2
  pure ((Grouping.groupBy Prod.snd records).map fun group =>
    .dictionary (Attributes.set "targets" (targetSet (group.2.map fun record => record.1.id)) group.1))

/-- The identity of a definition, where it has one. -/
def identityOf (definition : Definition) : Option String :=
  (definition.attributes.get "id").bind Attr.asString?

/-- The definition of an identity in each module. -/
def definitionsOf (modules : Observations TargetInfo Module) (definition : Definition) :
    Checked (Observations TargetInfo Definition) :=
  modules.mapM fun module => do
    let found ← require (module.2.body.find? fun other =>
        identityOf other = identityOf definition ∧ other.name = definition.name)
      "N-target merge: semantic definition inventories do not correspond"
    pure (module.1, found)

/-- One definition for that of each target. -/
def mergeDefinition (verifyFunction : Native.Function → Bool)
    (modules : Observations TargetInfo Module) (definition : Definition) :
    Stateful Merger Definition := do
  let input ← check (definitionsOf modules definition)
  if definition.name = "sela.func" then
    match exec (mergeFunction verifyFunction (modules.map Prod.fst) input) (← get) with
    | (.ok function, merger) => do
      set merger
      pure function
    | (.error message, merger) => do
      set merger
      check (fail (definitionId definition ++ ": " ++ message))
  else do
    let attrs ← attributes (input.map fun entry => (entry.1, entry.2.attributes)) []
    pure ⟨definition.name, attrs, []⟩

/-- Fail unless every definition of a module is one of the first module's. -/
def checkMatched (first : List Definition) (module : TargetInfo × Module) : Checked Unit :=
  let unmatched := (module.2.body.filter fun definition =>
    ∀ matched ∈ first, identityOf matched ≠ identityOf definition).map definitionId
  expect (unmatched = []) ("unmatched semantic definition for " ++ module.1.id ++ ": " ++
    unmatched.foldl (fun least id => if id < least then id else least) (unmatched.head?.getD ""))

/-- One module for that of each target. -/
def merge (verifyFunction : Native.Function → Bool) (modules : Observations TargetInfo Module) :
    Stateful Merger Module := do
  let flags ← check (mergeFlags modules)
  check (expect (∀ module ∈ modules, (∀ definition ∈ module.2.body, identityOf definition ≠ none) ∧
    (module.2.body.map identityOf).Nodup) "missing or duplicate semantic definition identity")
  let first := (modules.head?.map fun module => module.2.body).getD []
  let body ← first.mapM (mergeDefinition verifyFunction modules)
  check (modules.forM (checkMatched first))
  pure
    { attributes :=
        [("sela.module_flags", .array flags), ("sela.schema", .integer 32 1),
          ("sela.targets", targetSet (modules.map fun module => module.1.id))]
      body := body }

end Merger

/-- One module for the modules of several targets, with the storage identities each target's
own stand for. `verify` is the framework's verifier. -/
def mergeCommonModules (verify : Module → Bool) (verifyFunction : Native.Function → Bool)
    (modules : Observations TargetInfo Module) : Checked CommonModule := do
  Merger.expect (modules ≠ []) "invalid observation inventory"
  let output ← (exec (Merger.merge verifyFunction modules) Merger.empty).1
  Merger.expect (verify output = true) "factored shared graph failed structural verification"
  let merger := (exec (Merger.merge verifyFunction modules) Merger.empty).2
  pure ⟨output, modules.map fun module => merger.storageIdentities module.1⟩

end Sela
