import Mathlib.Data.BitVec
import Sela.LlvmType

/-!
# Code over a flat memory

A memory of bytes with its little-endian words (`FlatMemory.read`, `FlatMemory.write`), and
the part of the LLVM instruction set that moves pointers and words : address arithmetic,
loads, stores, integer comparisons and additions, in basic blocks.

A `Builder` appends instructions to its insertion block, as the code that emits them does,
and `Fragment.run` executes the blocks from the first one. Every memory access and every
addition of a run is recorded as an `Event`.
-/

/-! ## Flat memories -/

/-- A memory of bytes, addressed by words. -/
abbrev FlatMemory (w : ℕ) := BitVec w → BitVec 8

namespace FlatMemory

variable {w : ℕ}

/-- The little-endian word of `n` bytes at an address. -/
def read (memory : FlatMemory w) (address : BitVec w) : ℕ → ℕ
  | 0 => 0
  | n + 1 => (memory address).toNat + 256 * read memory (address + 1) n

/-- The memory with a little-endian word of `n` bytes written at an address. -/
def write (memory : FlatMemory w) (address : BitVec w) (n value : ℕ) : FlatMemory w := fun a =>
  if (a - address).toNat < n then BitVec.ofNat 8 (value / 256 ^ (a - address).toNat)
  else memory a

/-- No byte of the first region is in the second one. -/
def Apart (a : BitVec w) (n : ℕ) (b : BitVec w) (m : ℕ) : Prop :=
  ∀ i < n, m ≤ (a + BitVec.ofNat w i - b).toNat

theorem read_eq {memory : FlatMemory w} :
    ∀ {n value : ℕ} {address : BitVec w},
      (∀ i < n, memory (address + BitVec.ofNat w i) = BitVec.ofNat 8 (value / 256 ^ i)) →
        memory.read address n = value % 256 ^ n
  | 0, value, address, _ => by simp [read, Nat.mod_one]
  | n + 1, value, address, h => by
    have hfirst : memory address = BitVec.ofNat 8 value := by simpa using h 0 (by omega)
    have hrest : memory.read (address + 1) n = value / 256 % 256 ^ n := by
      apply read_eq
      intro i hi
      have := h (i + 1) (by omega)
      rw [pow_succ', ← Nat.div_div_eq_div_mul] at this
      rw [← this, BitVec.add_assoc]
      congr 2
      rw [Nat.add_comm i 1, BitVec.ofNat_add]
      rfl
    rw [read, hfirst, hrest, pow_succ', Nat.mod_mul, BitVec.toNat_ofNat]

theorem read_congr {memory memory' : FlatMemory w} :
    ∀ {n : ℕ} {address : BitVec w},
      (∀ i < n, memory (address + BitVec.ofNat w i) = memory' (address + BitVec.ofNat w i)) →
        memory.read address n = memory'.read address n
  | 0, _, _ => rfl
  | n + 1, address, h => by
    have hfirst : memory address = memory' address := by simpa using h 0 (by omega)
    have hrest : memory.read (address + 1) n = memory'.read (address + 1) n := by
      apply read_congr
      intro i hi
      have := h (i + 1) (by omega)
      rwa [Nat.add_comm i 1, BitVec.ofNat_add, ← BitVec.add_assoc] at this
    rw [read, read, hfirst, hrest]

/-- A word is read back as it was written. -/
theorem read_write_same (memory : FlatMemory w) (address : BitVec w) {n : ℕ} (value : ℕ)
    (hn : n ≤ 2 ^ w) : (memory.write address n value).read address n = value % 256 ^ n := by
  apply read_eq
  intro i hi
  have hoffset : (address + BitVec.ofNat w i - address).toNat = i := by
    rw [BitVec.add_comm, BitVec.add_sub_cancel, BitVec.toNat_ofNat]
    exact Nat.mod_eq_of_lt (by omega)
  rw [write, hoffset, if_pos hi]

/-- A write leaves the words apart from it. -/
theorem read_write_apart (memory : FlatMemory w) {a b : BitVec w} {n m : ℕ} (value : ℕ)
    (h : Apart a n b m) : (memory.write b m value).read a n = memory.read a n := by
  apply read_congr
  intro i hi
  rw [write, if_neg (Nat.not_lt.mpr (h i hi))]

theorem write_apart (memory : FlatMemory w) {a b : BitVec w} {m : ℕ} (value : ℕ)
    (h : m ≤ (a - b).toNat) : memory.write b m value a = memory a := by
  rw [write, if_neg (Nat.not_lt.mpr h)]

/-- Two parts of an object no larger than the memory are apart when one ends before the other
starts. -/
theorem apart_of_le {base : BitVec w} {o p n m : ℕ} (hn : o + n ≤ 2 ^ w) (hm : p + m ≤ 2 ^ w)
    (h : o + n ≤ p ∨ p + m ≤ o) :
    Apart (base + BitVec.ofNat w o) n (base + BitVec.ofNat w p) m := by
  intro i hi
  have hoffset : (base + BitVec.ofNat w o + BitVec.ofNat w i - (base + BitVec.ofNat w p)) =
      BitVec.ofNat w (o + i) - BitVec.ofNat w p := by
    rw [BitVec.add_assoc, ← BitVec.ofNat_add, ← sub_sub, BitVec.add_comm base,
      BitVec.add_sub_cancel]
  rw [hoffset, BitVec.toNat_sub, BitVec.toNat_ofNat, BitVec.toNat_ofNat,
    Nat.mod_eq_of_lt (show o + i < 2 ^ w by omega)]
  by_cases hp : p < 2 ^ w
  · rw [Nat.mod_eq_of_lt hp]
    rcases h with h | h
    · rw [Nat.mod_eq_of_lt (by omega)]
      omega
    · rw [show 2 ^ w - p + (o + i) = o + i - p + 2 ^ w by omega, Nat.add_mod_right,
        Nat.mod_eq_of_lt (by omega)]
      omega
  · omega

end FlatMemory

/-! ## Instructions -/

namespace Sela

namespace LlvmCode

/-- An instruction's operand : the result of an earlier instruction, or a constant. -/
inductive Operand where
  | result (instruction : ℕ)
  | i32 (value : BitVec 32)
  | i64 (value : BitVec 64)
  deriving DecidableEq, Repr

/-- The signed comparisons. -/
inductive Predicate where
  | sge
  | sle
  deriving DecidableEq, Repr

/-- An instruction. The element type of an address offset is a byte. -/
inductive Instruction where
  | structGEP (record : LlvmType) (base : Operand) (field : ℕ)
  | inBoundsGEP (base offset : Operand)
  | ptrmask (pointer mask : Operand)
  | alignedLoad (type : LlvmType) (address : Operand) (alignment : ℕ)
  | alignedStore (value address : Operand) (alignment : ℕ)
  | icmp (predicate : Predicate) (left right : Operand)
  | add (left right : Operand)
  | phi (incoming : List (Operand × ℕ))

/-- How a block ends. The block the builder stands in has not ended yet. -/
inductive Terminator where
  | br (block : ℕ)
  | condBr (condition : Operand) (whenTrue whenFalse : ℕ)
  | pending

/-- A basic block, its instructions under the numbers of their results. -/
structure Block where
  name : String
  code : List (ℕ × Instruction)
  terminator : Terminator

/-! ## The builder -/

/-- The blocks made so far, the one instructions are inserted in, and the next number. -/
structure Builder where
  blocks : List Block
  insertBlock : ℕ
  next : ℕ

namespace Builder

/-- Code that appends to a function. -/
abbrev Emit := StateM Builder

def modifyBlock (edit : Block → Block) : Emit Unit :=
  modify fun b => { b with blocks := b.blocks.modify b.insertBlock edit }

/-- Append an instruction to the insertion block. -/
def insert (instruction : Instruction) : Emit Operand := do
  let b ← get
  modifyBlock fun block => { block with code := block.code ++ [(b.next, instruction)] }
  modify fun b => { b with next := b.next + 1 }
  return .result b.next

def createBlock (name : String) : Emit ℕ :=
  modifyGet fun b => (b.blocks.length, { b with blocks := b.blocks ++ [⟨name, [], .pending⟩] })

def setInsertPoint (block : ℕ) : Emit Unit := modify fun b => { b with insertBlock := block }

def createStructGEP (record : LlvmType) (base : Operand) (field : ℕ) : Emit Operand :=
  insert (.structGEP record base field)

def createInBoundsGEP (base offset : Operand) : Emit Operand := insert (.inBoundsGEP base offset)

def createPtrMask (pointer mask : Operand) : Emit Operand := insert (.ptrmask pointer mask)

def createAlignedLoad (type : LlvmType) (address : Operand) (alignment : ℕ) : Emit Operand :=
  insert (.alignedLoad type address alignment)

def createAlignedStore (value address : Operand) (alignment : ℕ) : Emit Operand :=
  insert (.alignedStore value address alignment)

def createICmp (predicate : Predicate) (left right : Operand) : Emit Operand :=
  insert (.icmp predicate left right)

def createAdd (left right : Operand) : Emit Operand := insert (.add left right)

def createPHI (incoming : List (Operand × ℕ)) : Emit Operand := insert (.phi incoming)

def createBr (block : ℕ) : Emit Unit :=
  modifyBlock fun current => { current with terminator := .br block }

def createCondBr (condition : Operand) (whenTrue whenFalse : ℕ) : Emit Unit :=
  modifyBlock fun current => { current with terminator := .condBr condition whenTrue whenFalse }

end Builder

/-- Blocks to run from the first one, and the operand they leave the result in. -/
structure Fragment where
  blocks : List Block
  result : Operand

/-- What an emitter that is given one operand emits into an empty function. -/
def Fragment.of (emit : Operand → Builder.Emit Operand) : Fragment :=
  let (result, b) := (emit (.result 0)).run ⟨[⟨"entry", [], .pending⟩], 0, 1⟩
  ⟨b.blocks, result⟩

/-! ## Execution -/

/-- A value of a run. Data of other types are kept with their size in bytes. -/
inductive Value (w : ℕ) where
  | bit (value : Bool)
  | i32 (value : BitVec 32)
  | i64 (value : BitVec 64)
  | pointer (value : BitVec w)
  | data (bytes value : ℕ)
  deriving DecidableEq

/-- A memory access or an addition of a run. -/
inductive Event (w : ℕ) where
  | load (address : BitVec w) (bytes alignment : ℕ)
  | store (address : BitVec w) (bytes alignment : ℕ)
  | add (left right : BitVec 32)
  deriving DecidableEq

structure Machine (w : ℕ) where
  memory : FlatMemory w
  results : List (ℕ × Value w)
  events : List (Event w)

section Run

variable {w : ℕ} (layout : DataLayout)

/-- The bytes of a value as a store writes them. -/
def Value.bytes : Value w → ℕ × ℕ
  | .bit value => (1, value.toNat)
  | .i32 value => (4, value.toNat)
  | .i64 value => (8, value.toNat)
  | .pointer value => (layout.storeSize .ptr, value.toNat)
  | .data bytes value => (bytes, value)

/-- The value a load of the type makes of a word. -/
def Value.ofWord (type : LlvmType) (word : ℕ) : Value w :=
  match type with
  | .scalar (.integer 32) => .i32 (BitVec.ofNat 32 word)
  | .scalar (.integer 64) => .i64 (BitVec.ofNat 64 word)
  | .scalar (.pointer 0) => .pointer (BitVec.ofNat w word)
  | type => .data (layout.storeSize type) word

namespace Machine

variable (m : Machine w)

def operand : Operand → Option (Value w)
  | .result instruction => m.results.lookup instruction
  | .i32 value => some (.i32 value)
  | .i64 value => some (.i64 value)

def address (operand : Operand) : Option (BitVec w) :=
  match m.operand operand with
  | some (.pointer value) => some value
  | _ => none

def word32 (operand : Operand) : Option (BitVec 32) :=
  match m.operand operand with
  | some (.i32 value) => some value
  | _ => none

/-- The offset of an address computation, extended to the width of an address. -/
def offset (operand : Operand) : Option (BitVec w) :=
  match m.operand operand with
  | some (.i32 value) => some (value.signExtend w)
  | some (.i64 value) => some (value.signExtend w)
  | _ => none

def bit (operand : Operand) : Option Bool :=
  match m.operand operand with
  | some (.bit value) => some value
  | _ => none

/-- The machine with one more result. -/
def bind (number : ℕ) (value : Value w) : Machine w :=
  { m with results := (number, value) :: m.results }

def emit (event : Event w) : Machine w := { m with events := m.events ++ [event] }

end Machine

def Predicate.holds (predicate : Predicate) (left right : BitVec 32) : Bool :=
  match predicate with
  | .sge => right.sle left
  | .sle => left.sle right

/-- One instruction, reached from the block `origin`. -/
def Instruction.exec (origin : ℕ) (number : ℕ) (m : Machine w) :
    Instruction → Option (Machine w)
  | .structGEP record base field => do
    let address ← m.address base
    let .struct _ packed fields := record | none
    let (_, offset) ← (layout.elements packed 0 fields)[field]?
    some (m.bind number (.pointer (address + BitVec.ofNat w offset)))
  | .inBoundsGEP base offset => do
    let address ← m.address base
    let offset ← m.offset offset
    some (m.bind number (.pointer (address + offset)))
  | .ptrmask pointer mask => do
    let address ← m.address pointer
    let mask ← m.offset mask
    some (m.bind number (.pointer (address &&& mask)))
  | .alignedLoad type address alignment => do
    let address ← m.address address
    let word := m.memory.read address (layout.storeSize type)
    some ((m.emit (.load address (layout.storeSize type) alignment)).bind number
      (.ofWord layout type word))
  | .alignedStore value address alignment => do
    let address ← m.address address
    let value ← m.operand value
    let (bytes, word) := value.bytes layout
    some { m.emit (.store address bytes alignment) with
      memory := m.memory.write address bytes word }
  | .icmp predicate left right => do
    let left ← m.word32 left
    let right ← m.word32 right
    some (m.bind number (.bit (predicate.holds left right)))
  | .add left right => do
    let left ← m.word32 left
    let right ← m.word32 right
    some ((m.emit (.add left right)).bind number (.i32 (left + right)))
  | .phi incoming => do
    let (value, _) ← incoming.find? fun entry => entry.2 == origin
    let value ← m.operand value
    some (m.bind number value)

def execCode (origin : ℕ) : List (ℕ × Instruction) → Machine w → Option (Machine w)
  | [], m => some m
  | (number, instruction) :: code, m => do
    let m ← instruction.exec layout origin number m
    execCode origin code m

/-- Run at most `fuel` blocks, from `block`, up to the one that has not ended. -/
def runBlocks (blocks : List Block) : ℕ → ℕ → ℕ → Machine w → Option (Machine w)
  | 0, _, _, _ => none
  | fuel + 1, origin, block, m => do
    let current ← blocks[block]?
    let m ← execCode layout origin current.code m
    match current.terminator with
    | .br next => runBlocks blocks fuel block next m
    | .condBr condition whenTrue whenFalse =>
      let condition ← m.bit condition
      runBlocks blocks fuel block (if condition then whenTrue else whenFalse) m
    | .pending => some m

/-- Run a fragment on a pointer. No fragment here has a loop, so each block runs at most
once. -/
def Fragment.run (fragment : Fragment) (memory : FlatMemory w) (pointer : BitVec w) :
    Option (Machine w × Value w) := do
  let m ← runBlocks layout fragment.blocks fragment.blocks.length 0 0
    ⟨memory, [(0, .pointer pointer)], []⟩
  let value ← m.operand fragment.result
  some (m, value)

/-! ## Runs block by block -/

variable {layout : DataLayout} {blocks : List Block} {fuel origin block : ℕ} {current : Block}
  {m m' : Machine w}

theorem runBlocks_br {next : ℕ} (hblock : blocks[block]? = some current)
    (hcode : execCode layout origin current.code m = some m')
    (hend : current.terminator = .br next) :
    runBlocks layout blocks (fuel + 1) origin block m =
      runBlocks layout blocks fuel block next m' := by
  simp [runBlocks, hblock, hcode, hend]

theorem runBlocks_condBr {condition : Operand} {whenTrue whenFalse : ℕ} {taken : Bool}
    (hblock : blocks[block]? = some current)
    (hcode : execCode layout origin current.code m = some m')
    (hend : current.terminator = .condBr condition whenTrue whenFalse)
    (hbit : m'.bit condition = some taken) :
    runBlocks layout blocks (fuel + 1) origin block m =
      runBlocks layout blocks fuel block (if taken then whenTrue else whenFalse) m' := by
  simp [runBlocks, hblock, hcode, hend, hbit]

theorem runBlocks_pending (hblock : blocks[block]? = some current)
    (hcode : execCode layout origin current.code m = some m')
    (hend : current.terminator = .pending) :
    runBlocks layout blocks (fuel + 1) origin block m = some m' := by
  simp [runBlocks, hblock, hcode, hend]

end Run

end LlvmCode

end Sela
