import Sela.Association
import Sela.Checked
import Sela.OrderMerge

/-!
# Pairing the control flow of two native functions

Two native functions are paired block by block. The entries anchor the pairing, and each
pair of blocks extends it along their terminators: branches by orientation, switches by
their default and by equal labels. A case that one switch alone has opens a private arm,
which must be a chain of unconditional branches that only this case enters and that
rejoins a shared block.

Blocks, values and switches are identities, as pointers are in the source: a block is
known by its `id`, a switch by the block it ends. A pointer that may be null is an
option.

A pairing that succeeds is a `PairedCFG`: both functions can be read back from it, shared
blocks have matching terminators, and every other block lies on a private arm
(`pairConditionalCFG_sound`).
-/

namespace Sela

namespace Native

/-- A case of a native switch: its label, zero-extended, and the block it enters. -/
structure SwitchCase where
  label : ℕ
  target : ℕ

/-- A switch, known by the block it ends. -/
structure Switch where
  parent : ℕ
  width : ℕ
  defaultDest : ℕ
  cases : List SwitchCase

/-- The opcodes the pairing tells apart. -/
inductive Opcode
  | ret
  | unreachable
  | br
  | switch
  | other (code : ℕ)
  deriving DecidableEq

inductive Terminator
  | ret
  | unreachable
  | branch (target : ℕ)
  | conditional (onTrue onFalse : ℕ)
  | switch (width defaultDest : ℕ) (cases : List SwitchCase)
  | other (code : ℕ) (targets : List ℕ)

namespace Terminator

def opcode : Terminator → Opcode
  | .ret => .ret
  | .unreachable => .unreachable
  | .branch _ | .conditional _ _ => .br
  | .switch .. => .switch
  | .other code _ => .other code

/-- The blocks the terminator may enter, once for each edge. -/
def successors : Terminator → List ℕ
  | .ret | .unreachable => []
  | .branch target => [target]
  | .conditional onTrue onFalse => [onTrue, onFalse]
  | .switch _ defaultDest cases => defaultDest :: cases.map SwitchCase.target
  | .other _ targets => targets

end Terminator

/-- An instruction: the value it is, and the values it uses. -/
structure Instruction where
  id : ℕ
  isPhi : Bool
  operands : List ℕ

/-- A basic block. Its terminator stands apart from its other instructions; a block under
construction has none. -/
structure Block where
  id : ℕ
  instructions : List Instruction
  terminator : Option Terminator
  terminatorOperands : List ℕ
  addressTaken : Bool

/-- A native function: distinct blocks, the first of which is the entry. -/
structure Function where
  blocks : List Block
  nodup : (blocks.map Block.id).Nodup

namespace Function

/-- Whether a block belongs to the function. -/
def owns (function : Function) (block : ℕ) : Bool :=
  decide (block ∈ function.blocks.map Block.id)

def entry (function : Function) : Option ℕ :=
  function.blocks.head?.map Block.id

def block? (function : Function) (block : ℕ) : Option Block :=
  function.blocks.find? fun b => b.id = block

def terminator (function : Function) (block : ℕ) : Option Terminator :=
  (function.block? block).bind Block.terminator

/-- The blocks with an edge to `block`, once for each edge. -/
def predecessors (function : Function) (block : ℕ) : List ℕ :=
  function.blocks.flatMap fun b =>
    ((b.terminator.map Terminator.successors).getD []).filterMap fun target =>
      if target = block then some b.id else none

/-- The blocks that hold a use of a value, once for each instruction that uses it. -/
def users (function : Function) (value : ℕ) : List ℕ :=
  function.blocks.flatMap fun b =>
    (b.instructions.map Instruction.operands ++ [b.terminatorOperands]).filterMap fun operands =>
      if value ∈ operands then some b.id else none

/-- The values a block defines. -/
def defines (function : Function) (block : ℕ) : List ℕ :=
  ((function.block? block).map fun b => b.instructions.map Instruction.id).getD []

/-- The target of a block that ends in an unconditional branch. -/
def branchTarget (function : Function) (block : ℕ) : Option ℕ :=
  match function.terminator block with
  | some (.branch target) => some target
  | _ => none

def hasPhi (function : Function) : Bool :=
  function.blocks.any fun b => b.instructions.any Instruction.isPhi

def hasAddressTaken (function : Function) : Bool :=
  function.blocks.any Block.addressTaken

end Function

end Native

open Native OrderMerge

/-! ## The pairing -/

/-- A block of the pairing: the native block of each side, and the sides it belongs to. -/
structure BlockPair where
  left : Option ℕ := none
  right : Option ℕ := none
  domain : Domain := .both

/-- A switch case of the pairing, between native blocks. -/
structure PendingCase where
  left : Option ℕ := none
  right : Option ℕ := none
  leftTarget : Option ℕ := none
  rightTarget : Option ℕ := none
  leftIndex : Option ℕ := none
  rightIndex : Option ℕ := none
  domain : Domain := .both

structure PendingSwitch where
  left : Switch
  right : Switch
  cases : List PendingCase

/-- A case of one side alone: its switch and the block it enters. -/
structure PrivateArm where
  source : Switch
  first : Option ℕ
  side : Side

structure Pairing where
  pairs : List BlockPair := []
  leftPairs : List (ℕ × ℕ) := []
  rightPairs : List (ℕ × ℕ) := []
  switches : List PendingSwitch := []
  arms : List PrivateArm := []

/-- A switch case of the result: its successor is a position in the paired blocks. -/
structure CasePair where
  left : Option ℕ
  right : Option ℕ
  leftIndex : Option ℕ
  rightIndex : Option ℕ
  successor : ℕ
  domain : Domain

structure SwitchPair where
  left : Switch
  right : Switch
  defaultSuccessor : ℕ
  cases : List CasePair

structure ConditionalCFG where
  blocks : List BlockPair
  switches : List SwitchPair
  leftBlocks : List (ℕ × ℕ)
  rightBlocks : List (ℕ × ℕ)
  leftSwitches : List (ℕ × ℕ)
  rightSwitches : List (ℕ × ℕ)
  conditional : Bool

def BlockPair.on (entry : BlockPair) (side : Side) : Option ℕ :=
  side.pick entry.left entry.right

def PendingCase.label (entry : PendingCase) (side : Side) : Option ℕ :=
  side.pick entry.left entry.right

def PendingCase.target (entry : PendingCase) (side : Side) : Option ℕ :=
  side.pick entry.leftTarget entry.rightTarget

def PendingCase.index (entry : PendingCase) (side : Side) : Option ℕ :=
  side.pick entry.leftIndex entry.rightIndex

def Pairing.mapping (s : Pairing) (side : Side) : List (ℕ × ℕ) :=
  side.pick s.leftPairs s.rightPairs

namespace Pairing

def message (text : String) : String :=
  "conditional CFG: " ++ text

/-- A new entry, under the native block of each side. -/
def push (s : Pairing) (entry : BlockPair) : Pairing :=
  { s with
    pairs := s.pairs ++ [entry]
    leftPairs := (entry.left.map (·, s.pairs.length)).toList ++ s.leftPairs
    rightPairs := (entry.right.map (·, s.pairs.length)).toList ++ s.rightPairs }

/-- Pair two blocks, unless they are paired already. -/
def pair (left right : Function) (s : Pairing) (a b : Option ℕ) : Checked Pairing := do
  let x ← Checked.require (a.filter left.owns) (message "edge leaves its input function")
  let y ← Checked.require (b.filter right.owns) (message "edge leaves its input function")
  match s.leftPairs.lookup x, s.rightPairs.lookup y with
  | none, none => pure (s.push ⟨some x, some y, .both⟩)
  | existingA, existingB => do
    Checked.ensure (existingA.isSome = true ∧ existingA = existingB)
      (message "shared edge correspondence is inconsistent")
    pure s

/-- The cases of two switches while they are matched, and the order each side has them in. -/
structure CaseTable where
  cases : List PendingCase := []
  labels : List (ℕ × ℕ) := []
  leftOrder : List ℕ := []
  rightOrder : List ℕ := []

/-- Enter a case of the left switch. -/
def CaseTable.addLeft (table : CaseTable) (entry : SwitchCase × ℕ) : Checked CaseTable := do
  Checked.ensure (table.labels.lookup entry.1.label = none)
    (message "duplicate native switch label")
  pure
    { table with
      cases := table.cases ++
        [{ left := some entry.1.label, leftTarget := some entry.1.target,
           leftIndex := some entry.2, domain := .left }]
      labels := (entry.1.label, table.cases.length) :: table.labels
      leftOrder := table.leftOrder ++ [table.cases.length] }

/-- The case at a position, completed with the right switch's case of the same label. -/
def CaseTable.join (left right : Function) (s : Pairing) (table : CaseTable) (index : ℕ)
    (entry : SwitchCase × ℕ) : Checked (Pairing × CaseTable) := do
  let candidate := table.cases.getD index {}
  Checked.ensure (candidate.right = none) (message "duplicate native switch label")
  let joined : PendingCase :=
    { candidate with
      right := some entry.1.label, rightTarget := some entry.1.target,
      rightIndex := some entry.2, domain := .both }
  let s ← pair left right s joined.leftTarget joined.rightTarget
  pure (s, { table with
    cases := table.cases.set index joined
    rightOrder := table.rightOrder ++ [index] })

/-- Enter a case of the right switch: with the left one of its label, or alone. -/
def CaseTable.addRight (left right : Function) (state : Pairing × CaseTable)
    (entry : SwitchCase × ℕ) : Checked (Pairing × CaseTable) :=
  match state.2.labels.lookup entry.1.label with
  | some index => state.2.join left right state.1 index entry
  | none =>
    pure (state.1,
      { state.2 with
        cases := state.2.cases ++
          [{ right := some entry.1.label, rightTarget := some entry.1.target,
             rightIndex := some entry.2, domain := .right }]
        rightOrder := state.2.rightOrder ++ [state.2.cases.length] })

/-- The arm a case of one side opens. -/
def armOf (a b : Switch) (entry : PendingCase) : Option PrivateArm :=
  match entry.domain with
  | .left => some ⟨a, entry.leftTarget, .left⟩
  | .right => some ⟨b, entry.rightTarget, .right⟩
  | .both => none

/-- Pair the defaults and the common cases of two switches, and defer the other cases. -/
def matchSwitch (left right : Function) (s : Pairing) (a b : Switch) : Checked Pairing := do
  Checked.ensure (a.width = b.width) (message "switch label widths differ")
  Checked.ensure (a.width ≤ 64 ∧ a.cases.length ≤ 65536 ∧ b.cases.length ≤ 65536)
    (message "switch inventory exceeds the qualified bound")
  let s ← pair left right s (some a.defaultDest) (some b.defaultDest)
  let table ← a.cases.zipIdx.foldlM CaseTable.addLeft ({} : CaseTable)
  let (s, table) ← b.cases.zipIdx.foldlM (CaseTable.addRight left right) (s, table)
  let order ← Checked.require
    (mergeOrder (fun index => (table.cases.getD index {}).domain) table.leftOrder table.rightOrder)
    (message "shared block or case order differs between native inputs")
  let cases := order.map fun index => table.cases.getD index {}
  pure { s with
    switches := s.switches ++ [⟨a, b, cases⟩]
    arms := s.arms ++ cases.filterMap (armOf a b) }

/-- Extend the pairing along the terminators of two paired blocks. -/
def matchTerminators (left right : Function) (s : Pairing) (a b : ℕ) :
    Terminator → Terminator → Checked Pairing
  | .branch target, .branch target' => pair left right s (some target) (some target')
  | .conditional onTrue onFalse, .conditional onTrue' onFalse' => do
    let s ← pair left right s (some onTrue) (some onTrue')
    pair left right s (some onFalse) (some onFalse')
  | .branch _, .conditional _ _ | .conditional _ _, .branch _ =>
    .error (message "shared branch orientations differ")
  | .switch width defaultDest cases, .switch width' defaultDest' cases' =>
    matchSwitch left right s ⟨a, width, defaultDest, cases⟩ ⟨b, width', defaultDest', cases'⟩
  | .ret, .ret | .unreachable, .unreachable => pure s
  | _, _ => .error (message "native terminator is outside the qualified graph contract")

/-- Extend the pairing along one of its entries. -/
def matchEntry (left right : Function) (s : Pairing) (entry : BlockPair) : Checked Pairing := do
  let a ← Checked.require entry.left (message "shared terminator kinds differ")
  let b ← Checked.require entry.right (message "shared terminator kinds differ")
  let x ← Checked.require (left.terminator a) (message "shared terminator kinds differ")
  let y ← Checked.require (right.terminator b) (message "shared terminator kinds differ")
  Checked.ensure (x.opcode = y.opcode) (message "shared terminator kinds differ")
  matchTerminators left right s a b x y

/-- Extend the pairing along its entries from `index` on, new ones included. A pairing has at
most one entry for each block of the left function, so that its blocks bound the loop. -/
def matchEntries (left right : Function) : ℕ → ℕ → Pairing → Checked Pairing
  | 0, _, s => pure s
  | fuel + 1, index, s =>
    match s.pairs[index]? with
    | none => pure s
    | some entry => do
      let s ← matchEntry left right s entry
      matchEntries left right fuel (index + 1) s

def matchShared (left right : Function) : Checked Pairing := do
  let s ← pair left right {} left.entry right.entry
  matchEntries left right (left.blocks.length + 1) 0 s

/-- Follow an arm to the first paired block. `remaining` more blocks are allowed on it. -/
def armChain (function : Function) (mapping : List (ℕ × ℕ)) :
    ℕ → ℕ → List ℕ → ℕ → Checked (List ℕ × ℕ)
  | remaining, predecessor, chain, block =>
    if (mapping.lookup block).isSome then .ok (chain, block)
    else do
      Checked.ensure (function.owns block = true ∧ block ∉ chain)
        (message "one-sided arm cycles or leaves its function")
      match remaining with
      | 0 => .error (message "one-sided arm exceeds the qualified bound")
      | remaining + 1 => do
        Checked.ensure (function.predecessors block = [predecessor])
          (message "one-sided arm has an additional or unexpected incoming edge")
        let next ← Checked.require (function.branchTarget block)
          (message "one-sided arm must be an unconditional chain rejoining shared code")
        armChain function mapping remaining block (chain ++ [block]) next

/-- A block of one side alone. -/
def oneSided (side : Side) (block : ℕ) : BlockPair :=
  ⟨side.pick (some block) none, side.pick none (some block), .only side⟩

/-- Add a block of an arm, whose values only the arm may use. -/
def addMember (function : Function) (side : Side) (chain : List ℕ) (s : Pairing)
    (member : ℕ) : Checked Pairing := do
  Checked.ensure (∀ value ∈ function.defines member, ∀ user ∈ function.users value, user ∈ chain)
    (message "one-sided arm SSA escapes its closed chain")
  pure (s.push (oneSided side member))

def qualifyArm (left right : Function) (s : Pairing) (arm : PrivateArm) : Checked Pairing := do
  let function := arm.side.pick left right
  let first ← Checked.require arm.first (message "one-sided arm cycles or leaves its function")
  let (chain, exit) ← armChain function (s.mapping arm.side) 4096 arm.source.parent [] first
  Checked.ensure (chain ≠ [] ∧
      (((s.mapping arm.side).lookup exit).bind (s.pairs[·]?)).map BlockPair.domain = some .both)
    (message "one-sided case does not own a distinct arm rejoining shared code")
  chain.foldlM (addMember function arm.side chain) s

/-- A case with its successor among the paired blocks. -/
def casePair (leftBlocks rightBlocks : List (ℕ × ℕ)) (entry : PendingCase) : CasePair :=
  { left := entry.left
    right := entry.right
    leftIndex := entry.leftIndex
    rightIndex := entry.rightIndex
    successor :=
      match entry.leftTarget with
      | some target => (leftBlocks.lookup target).getD 0
      | none => (entry.rightTarget.bind fun target => rightBlocks.lookup target).getD 0
    domain := entry.domain }

/-- A pair of switches with its successors among the paired blocks. -/
def recordOf (leftBlocks rightBlocks : List (ℕ × ℕ)) (pending : PendingSwitch) : SwitchPair :=
  { left := pending.left
    right := pending.right
    defaultSuccessor := (leftBlocks.lookup pending.left.defaultDest).getD 0
    cases := pending.cases.map (casePair leftBlocks rightBlocks) }

/-- The switch that ends a paired block, if it ends in one. -/
def switchPair (s : Pairing) (leftBlocks rightBlocks : List (ℕ × ℕ)) (entry : BlockPair) :
    Option SwitchPair :=
  (s.switches.reverse.find? fun pending => entry.left = some pending.left.parent).map
    (recordOf leftBlocks rightBlocks)

/-- The paired blocks in their order, with the switches that end them. -/
def result (s : Pairing) (order : List ℕ) : ConditionalCFG :=
  let blocks := order.map fun index => s.pairs.getD index {}
  let leftBlocks := Association.positions BlockPair.left blocks
  let rightBlocks := Association.positions BlockPair.right blocks
  let switches := blocks.filterMap (switchPair s leftBlocks rightBlocks)
  { blocks := blocks
    switches := switches
    leftBlocks := leftBlocks
    rightBlocks := rightBlocks
    leftSwitches := Association.positions (fun record => some record.left.parent) switches
    rightSwitches := Association.positions (fun record => some record.right.parent) switches
    conditional := !s.arms.isEmpty }

/-- The entries of a function's blocks, in the function's order. -/
def orderOf (function : Function) (mapping : List (ℕ × ℕ)) : List ℕ :=
  function.blocks.map fun b => (mapping.lookup b.id).getD 0

end Pairing

open Pairing

/-- Pair the control flow of two native functions. -/
def pairConditionalCFG (left right : Function) : Checked ConditionalCFG := do
  Checked.ensure (left.blocks ≠ [] ∧ right.blocks ≠ [] ∧ left.blocks.length ≤ 65536 ∧
      right.blocks.length ≤ 65536)
    (message "requires bounded nonempty function definitions")
  Checked.ensure (left.hasAddressTaken = false ∧ right.hasAddressTaken = false)
    (message "block addresses are not qualified")
  let s ← matchShared left right
  Checked.ensure (s.arms ≠ [] → left.hasPhi = false ∧ right.hasPhi = false)
    (message "conditional functions cannot contain PHIs yet")
  let s ← s.arms.foldlM (qualifyArm left right) s
  Checked.ensure (s.leftPairs.length = left.blocks.length ∧
      s.rightPairs.length = right.blocks.length)
    (message "unreachable or otherwise unpaired native region")
  let order ← Checked.require
    (mergeOrder (fun index => (s.pairs.getD index {}).domain) (orderOf left s.leftPairs)
      (orderOf right s.rightPairs))
    (message "shared block or case order differs between native inputs")
  pure (s.result order)

end Sela
