import Mathlib.Algebra.Order.Ring.Int
import Sela.LlvmCode
import Sela.NativeArmAbi

/-!
# Reading a variadic argument on ARM

`nativeVaArg` emits the code that reads one variadic argument of a `va_list` in memory and
advances it. On `armv7` the list is a cursor in the argument area. On `aarch64` it is a record
of the stack area, the ends of the general and vector save areas, and the offsets of the next
save slots from these ends, which are negative while slots remain.

The addresses one extraction loads from are those of the ABI's slots, and from that a run of
any length reads its slots in order (`nativeVaArg_reads`).
-/

namespace Sela

namespace NativeArmVariadic

open LlvmCode LlvmCode.Builder NativeArmAbi

/-- The `va_list` record. -/
def nativeVaListType (aapcs64 : Bool) : LlvmType :=
  .struct (some "v0") false
    (if aapcs64 then [.ptr, .ptr, .ptr, .int 32, .int 32] else [.ptr])

def isDoubleTy (type : LlvmType) : Bool := type == .doubleTy

/-- A number between two bounds, or the nearer bound. -/
def clamp (value low high : ℕ) : ℕ :=
  if value < low then low else if high < value then high else value

/-- Emit the extraction of an argument of the type from the `va_list` at `state`. -/
def nativeVaArg (aapcs64 : Bool) (state : Operand) (type : LlvmType) : Emit Operand := do
  if aapcs64 = false then
    let cursor ← createAlignedLoad .ptr state 4
    let alignment := clamp ((layout aapcs64).abiAlign type).value 4 8
    let aligned ←
      if 4 < alignment then do
        let next ← createInBoundsGEP cursor (.i32 (BitVec.ofNat 32 (alignment - 1)))
        createPtrMask next (.i32 (-BitVec.ofNat 32 alignment))
      else pure cursor
    let size := ((layout aapcs64).allocSize type + 3) / 4 * 4
    let next ← createInBoundsGEP aligned (.i32 (BitVec.ofNat 32 size))
    let _ ← createAlignedStore next state 4
    createAlignedLoad type aligned alignment
  else
    let floating := isDoubleTy type
    let record := nativeVaListType aapcs64
    let offsetField := if floating then 4 else 3
    let offsetAlignment := if floating then 4 else 8
    let offsetAddress ← createStructGEP record state offsetField
    let offset ← createAlignedLoad (.int 32) offsetAddress offsetAlignment
    let maybeRegisters ← createBlock "va.maybe_registers"
    let inRegisters ← createBlock "va.registers"
    let onStack ← createBlock "va.stack"
    let continuation ← createBlock "va.continue"
    createCondBr (← createICmp .sge offset (.i32 0)) onStack maybeRegisters

    setInsertPoint maybeRegisters
    let nextOffset ← createAdd offset (.i32 (if floating then 16 else 8))
    let _ ← createAlignedStore nextOffset offsetAddress offsetAlignment
    createCondBr (← createICmp .sle nextOffset (.i32 0)) inRegisters onStack

    setInsertPoint inRegisters
    let topAddress ← createStructGEP record state (if floating then 2 else 1)
    let top ← createAlignedLoad .ptr topAddress 8
    let registerAddress ← createInBoundsGEP top offset
    createBr continuation

    setInsertPoint onStack
    let stackAddress ← createStructGEP record state 0
    let stack ← createAlignedLoad .ptr stackAddress 8
    let nextStack ← createInBoundsGEP stack (.i64 8)
    let _ ← createAlignedStore nextStack stackAddress 8
    createBr continuation

    setInsertPoint continuation
    let address ← createPHI [(registerAddress, inRegisters), (stack, onStack)]
    createAlignedLoad type address 8

/-! ## Extractions -/

/-- One extraction as the code emitted for it. -/
def fragment (aapcs64 : Bool) (type : LlvmType) : Fragment :=
  .of fun state => nativeVaArg aapcs64 state type

/-- What one extraction yields : its value, and what it did in order. -/
structure Extraction (w : ℕ) where
  value : Value w
  events : List (Event w)
  deriving DecidableEq

/-- The argument is the word an extraction loads last. -/
def Extraction.ReadsAt {w : ℕ} (extraction : Extraction w) (address : BitVec w) : Prop :=
  ∃ bytes alignment, extraction.events.getLast? = some (.load address bytes alignment)

/-- The additions of an extraction do not overflow. -/
def Extraction.NoOverflow {w : ℕ} (extraction : Extraction w) : Prop :=
  ∀ left right, .add left right ∈ extraction.events →
    (left + right).toInt = left.toInt + right.toInt

section Extractions

variable {w : ℕ} (aapcs64 : Bool) (state : BitVec w)

def extract (memory : FlatMemory w) (type : LlvmType) :
    Option (Extraction w × FlatMemory w) := do
  let (m, value) ← (fragment aapcs64 type).run (layout aapcs64) memory state
  some (⟨value, m.events⟩, m.memory)

/-- Extract arguments of the types in order. -/
def extractions : FlatMemory w → List LlvmType → Option (List (Extraction w) × FlatMemory w)
  | memory, [] => some ([], memory)
  | memory, type :: types => do
    let (extraction, memory) ← extract aapcs64 state memory type
    let (rest, memory) ← extractions memory types
    some (extraction :: rest, memory)

end Extractions

/-! ## The record on `aarch64` -/

/-- The fields of the `va_list` record. -/
structure VaList where
  stack : BitVec 64
  grTop : BitVec 64
  vrTop : BitVec 64
  grOffs : BitVec 32
  vrOffs : BitVec 32
  deriving DecidableEq

namespace VaList

/-- The record as the memory holds it. -/
structure At (list : VaList) (memory : FlatMemory 64) (state : BitVec 64) : Prop where
  stack : memory.read (state + BitVec.ofNat 64 0) 8 = list.stack.toNat
  grTop : memory.read (state + BitVec.ofNat 64 8) 8 = list.grTop.toNat
  vrTop : memory.read (state + BitVec.ofNat 64 16) 8 = list.vrTop.toNat
  grOffs : memory.read (state + BitVec.ofNat 64 24) 4 = list.grOffs.toNat
  vrOffs : memory.read (state + BitVec.ofNat 64 28) 4 = list.vrOffs.toNat

section Fields

variable (list : VaList) (floating : Bool)

/-- The offset of the class. -/
def offset : BitVec 32 := if floating then list.vrOffs else list.grOffs

/-- The end of the save area of the class. -/
def top : BitVec 64 := if floating then list.vrTop else list.grTop

def setOffset (offset : BitVec 32) : VaList :=
  if floating then { list with vrOffs := offset } else { list with grOffs := offset }

def advance : VaList := { list with stack := list.stack + 8 }

/-- The bytes of a save slot. -/
def slotBytes : BitVec 32 := if floating then 16 else 8

/-- Where the next argument of the class is, and the record without it. -/
def next : BitVec 64 × VaList :=
  if (0 : BitVec 32).sle (list.offset floating) then (list.stack, list.advance)
  else
    let offset := list.offset floating + slotBytes floating
    if offset.sle 0 then
      (list.top floating + (list.offset floating).signExtend 64, list.setOffset floating offset)
    else (list.stack, (list.setOffset floating offset).advance)

end Fields

end VaList

section Blocks

open VaList

variable (floating : Bool)

def offsetAddress (state : BitVec 64) : BitVec 64 :=
  state + BitVec.ofNat 64 (if floating then 28 else 24)

def topAddress (state : BitVec 64) : BitVec 64 :=
  state + BitVec.ofNat 64 (if floating then 16 else 8)

def entry : Block where
  name := "entry"
  code := [
    (1, .structGEP (nativeVaListType true) (.result 0) (if floating then 4 else 3)),
    (2, .alignedLoad (.int 32) (.result 1) (if floating then 4 else 8)),
    (3, .icmp .sge (.result 2) (.i32 0))]
  terminator := .condBr (.result 3) 3 1

def maybeRegisters : Block where
  name := "va.maybe_registers"
  code := [
    (4, .add (.result 2) (.i32 (slotBytes floating))),
    (5, .alignedStore (.result 4) (.result 1) (if floating then 4 else 8)),
    (6, .icmp .sle (.result 4) (.i32 0))]
  terminator := .condBr (.result 6) 2 3

def inRegisters : Block where
  name := "va.registers"
  code := [
    (7, .structGEP (nativeVaListType true) (.result 0) (if floating then 2 else 1)),
    (8, .alignedLoad .ptr (.result 7) 8),
    (9, .inBoundsGEP (.result 8) (.result 2))]
  terminator := .br 4

def onStack : Block where
  name := "va.stack"
  code := [
    (10, .structGEP (nativeVaListType true) (.result 0) 0),
    (11, .alignedLoad .ptr (.result 10) 8),
    (12, .inBoundsGEP (.result 11) (.i64 8)),
    (13, .alignedStore (.result 12) (.result 10) 8)]
  terminator := .br 4

def continuation (type : LlvmType) : Block where
  name := "va.continue"
  code := [
    (14, .phi [(.result 9, 2), (.result 11, 3)]),
    (15, .alignedLoad type (.result 14) 8)]
  terminator := .pending

end Blocks

theorem fragment_eq (type : LlvmType) :
    fragment true type =
      ⟨[entry (isDoubleTy type), maybeRegisters (isDoubleTy type), inRegisters (isDoubleTy type),
        onStack, continuation type], .result 15⟩ := rfl

section Exec

open VaList

variable (floating : Bool) (state : BitVec 64) (offset : BitVec 32)

abbrev entryResults : List (ℕ × Value 64) :=
  [(3, .bit ((0 : BitVec 32).sle offset)), (2, .i32 offset),
    (1, .pointer (offsetAddress floating state)), (0, .pointer state)]

abbrev nextResults : List (ℕ × Value 64) :=
  (6, .bit ((offset + slotBytes floating).sle 0)) :: (4, .i32 (offset + slotBytes floating)) ::
    entryResults floating state offset

variable (memory : FlatMemory 64) (events : List (Event 64))

theorem exec_entry (hoffset : memory.read (offsetAddress floating state) 4 = offset.toNat) :
    execCode (layout true) 0 (entry floating).code ⟨memory, [(0, .pointer state)], events⟩ =
      some ⟨memory, entryResults floating state offset,
        events ++ [.load (offsetAddress floating state) 4 (if floating then 4 else 8)]⟩ := by
  obtain rfl : offset = BitVec.ofNat 32 (memory.read (offsetAddress floating state) 4) := by
    rw [hoffset, BitVec.ofNat_toNat, BitVec.setWidth_eq]
  cases floating <;> rfl

theorem exec_maybeRegisters :
    execCode (layout true) 0 (maybeRegisters floating).code
        ⟨memory, entryResults floating state offset, events⟩ =
      some ⟨memory.write (offsetAddress floating state) 4 (offset + slotBytes floating).toNat,
        nextResults floating state offset,
        events ++ [.add offset (slotBytes floating)] ++
          [.store (offsetAddress floating state) 4 (if floating then 4 else 8)]⟩ := by
  cases floating <;> rfl

abbrev registerResults (top : BitVec 64) : List (ℕ × Value 64) :=
  (9, .pointer (top + offset.signExtend 64)) :: (8, .pointer top) ::
    (7, .pointer (topAddress floating state)) :: nextResults floating state offset

theorem exec_inRegisters (top : BitVec 64)
    (htop : memory.read (topAddress floating state) 8 = top.toNat) :
    execCode (layout true) 1 (inRegisters floating).code
        ⟨memory, nextResults floating state offset, events⟩ =
      some ⟨memory, registerResults floating state offset top,
        events ++ [.load (topAddress floating state) 8 8]⟩ := by
  obtain rfl : top = BitVec.ofNat 64 (memory.read (topAddress floating state) 8) := by
    rw [htop, BitVec.ofNat_toNat, BitVec.setWidth_eq]
  cases floating <;> rfl

/-- The results before the block that reads the stack, which is reached from the first block or
from the second one. -/
abbrev beforeStack (advanced : Bool) : List (ℕ × Value 64) :=
  if advanced then nextResults floating state offset else entryResults floating state offset

abbrev stackResults (advanced : Bool) (stack : BitVec 64) : List (ℕ × Value 64) :=
  (12, .pointer (stack + 8)) :: (11, .pointer stack) ::
    (10, .pointer (state + BitVec.ofNat 64 0)) :: beforeStack floating state offset advanced

theorem exec_onStack (advanced : Bool) (origin : ℕ) (stack : BitVec 64)
    (hstack : memory.read (state + BitVec.ofNat 64 0) 8 = stack.toNat) :
    execCode (layout true) origin onStack.code
        ⟨memory, beforeStack floating state offset advanced, events⟩ =
      some ⟨memory.write (state + BitVec.ofNat 64 0) 8 (stack + 8).toNat,
        stackResults floating state offset advanced stack,
        events ++ [.load (state + BitVec.ofNat 64 0) 8 8] ++
          [.store (state + BitVec.ofNat 64 0) 8 8]⟩ := by
  obtain rfl : stack = BitVec.ofNat 64 (memory.read (state + BitVec.ofNat 64 0) 8) := by
    rw [hstack, BitVec.ofNat_toNat, BitVec.setWidth_eq]
  cases advanced <;> rfl

end Exec

section Continue

variable (type : LlvmType) (memory : FlatMemory 64) (events : List (Event 64))
  (results : List (ℕ × Value 64)) (address : BitVec 64)

/-- The value the last block loads. -/
abbrev loaded : Value 64 :=
  .ofWord (layout true) type (memory.read address ((layout true).storeSize type))

theorem exec_continuation {origin : ℕ}
    (h : origin = 2 ∧ results.lookup 9 = some (.pointer address) ∨
      origin = 3 ∧ results.lookup 11 = some (.pointer address)) :
    execCode (layout true) origin (continuation type).code ⟨memory, results, events⟩ =
      some ⟨memory, (15, loaded type memory address) :: (14, .pointer address) :: results,
        events ++ [.load address ((layout true).storeSize type) 8]⟩ := by
  rcases h with ⟨rfl, h⟩ | ⟨rfl, h⟩ <;>
    simp [continuation, execCode, Instruction.exec, Machine.operand, h, Machine.bind,
      Machine.address, Machine.emit]

end Continue

/-! ## One extraction -/

namespace VaList

variable {list : VaList} {memory : FlatMemory 64} {state : BitVec 64} {floating : Bool}

theorem At.offset (h : list.At memory state) :
    memory.read (offsetAddress floating state) 4 = (list.offset floating).toNat := by
  cases floating
  · exact h.grOffs
  · exact h.vrOffs

theorem At.top (h : list.At memory state) :
    memory.read (topAddress floating state) 8 = (list.top floating).toNat := by
  cases floating
  · exact h.grTop
  · exact h.vrTop

/-- A field written is the field of the record, and the others stay. -/
theorem At.setOffset (h : list.At memory state) (floating : Bool) (offset : BitVec 32) :
    (list.setOffset floating offset).At
      (memory.write (offsetAddress floating state) 4 offset.toNat) state := by
  have hwritten : ∀ address : BitVec 64,
      (memory.write address 4 offset.toNat).read address 4 = offset.toNat := by
    intro address
    rw [FlatMemory.read_write_same _ _ _ (by omega)]
    exact Nat.mod_eq_of_lt offset.isLt
  have hkept : ∀ p {o n : ℕ}, o + n ≤ p ∨ p + 4 ≤ o → o + n ≤ 32 → p + 4 ≤ 32 →
      (memory.write (state + BitVec.ofNat 64 p) 4 offset.toNat).read
        (state + BitVec.ofNat 64 o) n = memory.read (state + BitVec.ofNat 64 o) n := by
    intro p o n hapart ho hp
    apply FlatMemory.read_write_apart
    exact FlatMemory.apart_of_le (by omega) (by omega) hapart
  cases floating
  · exact {
      stack := (hkept 24 (by omega) (by omega) (by omega)).trans h.stack
      grTop := (hkept 24 (by omega) (by omega) (by omega)).trans h.grTop
      vrTop := (hkept 24 (by omega) (by omega) (by omega)).trans h.vrTop
      grOffs := hwritten _
      vrOffs := (hkept 24 (by omega) (by omega) (by omega)).trans h.vrOffs }
  · exact {
      stack := (hkept 28 (by omega) (by omega) (by omega)).trans h.stack
      grTop := (hkept 28 (by omega) (by omega) (by omega)).trans h.grTop
      vrTop := (hkept 28 (by omega) (by omega) (by omega)).trans h.vrTop
      grOffs := (hkept 28 (by omega) (by omega) (by omega)).trans h.grOffs
      vrOffs := hwritten _ }

theorem At.advance (h : list.At memory state) :
    list.advance.At
      (memory.write (state + BitVec.ofNat 64 0) 8 (list.stack + 8).toNat) state := by
  have hkept : ∀ {o n : ℕ}, 8 ≤ o → o + n ≤ 32 →
      (memory.write (state + BitVec.ofNat 64 0) 8 (list.stack + 8).toNat).read
        (state + BitVec.ofNat 64 o) n = memory.read (state + BitVec.ofNat 64 o) n := by
    intro o n ho hn
    apply FlatMemory.read_write_apart
    exact FlatMemory.apart_of_le (by omega) (by omega) (by omega)
  constructor
  · rw [FlatMemory.read_write_same _ _ _ (by omega)]
    exact Nat.mod_eq_of_lt (list.stack + 8).isLt
  · exact (hkept (by omega) (by omega)).trans h.grTop
  · exact (hkept (by omega) (by omega)).trans h.vrTop
  · exact (hkept (by omega) (by omega)).trans h.grOffs
  · exact (hkept (by omega) (by omega)).trans h.vrOffs

end VaList

/-- The bytes of memory that are not the record's. -/
def Outside (state address : BitVec 64) : Prop := 32 ≤ (address - state).toNat

theorem outside_write {memory : FlatMemory 64} {state : BitVec 64} {o n : ℕ} (value : ℕ)
    (h : o + n ≤ 32) {address : BitVec 64} (ha : Outside state address) :
    memory.write (state + BitVec.ofNat 64 o) n value address = memory address := by
  apply FlatMemory.write_apart
  unfold Outside at ha
  rw [show address - (state + BitVec.ofNat 64 o) = address - state - BitVec.ofNat 64 o by
    rw [sub_sub], BitVec.toNat_sub_of_le]
  · rw [BitVec.toNat_ofNat, Nat.mod_eq_of_lt (by omega)]
    omega
  · rw [BitVec.le_def, BitVec.toNat_ofNat, Nat.mod_eq_of_lt (by omega)]
    omega

theorem end_le (floating : Bool) : (if floating then 28 else 24) + 4 ≤ 32 := by
  cases floating <;> decide

/-- What an extraction of the type does to a record : it loads the argument the record has
next and leaves the record without it. -/
structure Extracts (list : VaList) (memory : FlatMemory 64) (state : BitVec 64)
    (type : LlvmType) (extraction : Extraction 64) (memory' : FlatMemory 64) : Prop where
  record : (list.next (isDoubleTy type)).2.At memory' state
  outside : ∀ address, Outside state address → memory' address = memory address
  load : extraction.events.getLast? =
    some (.load (list.next (isDoubleTy type)).1 ((layout true).storeSize type) 8)
  value : extraction.value = .ofWord (layout true) type
    (memory'.read (list.next (isDoubleTy type)).1 ((layout true).storeSize type))
  add : ∀ left right, .add left right ∈ extraction.events →
    (0 : BitVec 32).sle (list.offset (isDoubleTy type)) = false ∧
      left = list.offset (isDoubleTy type) ∧ right = VaList.slotBytes (isDoubleTy type)

section Extract

variable {list : VaList} {memory : FlatMemory 64} {state : BitVec 64} (type : LlvmType)
  (events : List (Event 64))

/-- From the block that reads the stack, in memory that holds `list`. -/
theorem runBlocks_onStack (fuel : ℕ) (advanced : Bool) (origin : ℕ) (offset : BitVec 32)
    (h : list.At memory state) :
    runBlocks (layout true) (fragment true type).blocks (fuel + 2) origin 3
        ⟨memory, beforeStack (isDoubleTy type) state offset advanced, events⟩ =
      some ⟨memory.write (state + BitVec.ofNat 64 0) 8 (list.stack + 8).toNat,
        (15, loaded type (memory.write (state + BitVec.ofNat 64 0) 8 (list.stack + 8).toNat)
          list.stack) :: (14, .pointer list.stack) ::
            stackResults (isDoubleTy type) state offset advanced list.stack,
        events ++ [.load (state + BitVec.ofNat 64 0) 8 8] ++
          [.store (state + BitVec.ofNat 64 0) 8 8] ++
          [.load list.stack ((layout true).storeSize type) 8]⟩ := by
  have hstack := exec_onStack (isDoubleTy type) state offset memory events advanced origin
    list.stack h.stack
  have hcontinue := exec_continuation type
    (memory.write (state + BitVec.ofNat 64 0) 8 (list.stack + 8).toNat)
    (events ++ [.load (state + BitVec.ofNat 64 0) 8 8] ++
      [.store (state + BitVec.ofNat 64 0) 8 8])
    (stackResults (isDoubleTy type) state offset advanced list.stack) list.stack
    (Or.inr ⟨rfl, rfl⟩)
  rw [fragment_eq, runBlocks_br rfl hstack rfl, runBlocks_pending rfl hcontinue rfl]

/-- From the block that reads a save slot, in memory that holds `list`. -/
theorem runBlocks_inRegisters (fuel : ℕ) (offset : BitVec 32) (h : list.At memory state) :
    runBlocks (layout true) (fragment true type).blocks (fuel + 2) 1 2
        ⟨memory, nextResults (isDoubleTy type) state offset, events⟩ =
      some ⟨memory,
        (15, loaded type memory (list.top (isDoubleTy type) + offset.signExtend 64)) ::
          (14, .pointer (list.top (isDoubleTy type) + offset.signExtend 64)) ::
            registerResults (isDoubleTy type) state offset (list.top (isDoubleTy type)),
        events ++ [.load (topAddress (isDoubleTy type) state) 8 8] ++
          [.load (list.top (isDoubleTy type) + offset.signExtend 64)
            ((layout true).storeSize type) 8]⟩ := by
  have hregisters := exec_inRegisters (isDoubleTy type) state offset memory events
    (list.top (isDoubleTy type)) h.top
  have hcontinue := exec_continuation type memory
    (events ++ [.load (topAddress (isDoubleTy type) state) 8 8])
    (registerResults (isDoubleTy type) state offset (list.top (isDoubleTy type)))
    (list.top (isDoubleTy type) + offset.signExtend 64) (Or.inl ⟨rfl, rfl⟩)
  rw [fragment_eq, runBlocks_br rfl hregisters rfl, runBlocks_pending rfl hcontinue rfl]

theorem extract_of_run {m : Machine 64} {value : Value 64}
    (h : runBlocks (layout true) (fragment true type).blocks 5 0 0
      ⟨memory, [(0, .pointer state)], []⟩ = some m) (hvalue : m.results.lookup 15 = some value) :
    extract true state memory type = some (⟨value, m.events⟩, m.memory) := by
  have hlength : (fragment true type).blocks.length = 5 := rfl
  have hresult : m.operand (fragment true type).result = some value := hvalue
  simp [extract, Fragment.run, hlength, h, hresult]

/-- What the first block leaves to the next one. -/
abbrev entryEvents (floating : Bool) (state : BitVec 64) : List (Event 64) :=
  [.load (offsetAddress floating state) 4 (if floating then 4 else 8)]

/-- What the second block leaves to the next one. -/
abbrev nextEvents (floating : Bool) (state : BitVec 64) (offset : BitVec 32) : List (Event 64) :=
  entryEvents floating state ++ [.add offset (VaList.slotBytes floating)] ++
    [.store (offsetAddress floating state) 4 (if floating then 4 else 8)]

/-- One extraction loads the argument the record has next. -/
theorem extract_next (h : list.At memory state) :
    ∃ extraction memory', extract true state memory type = some (extraction, memory') ∧
      Extracts list memory state type extraction memory' := by
  have hentry := exec_entry (isDoubleTy type) state (list.offset (isDoubleTy type)) memory []
    h.offset
  by_cases hsge : (0 : BitVec 32).sle (list.offset (isDoubleTy type)) = true
  · -- The class has overflowed before.
    have hnext : list.next (isDoubleTy type) = (list.stack, list.advance) := by
      rw [VaList.next, if_pos hsge]
    have hfirst : runBlocks (layout true) (fragment true type).blocks 5 0 0
          ⟨memory, [(0, .pointer state)], []⟩ =
        runBlocks (layout true) (fragment true type).blocks 4 0 3
          ⟨memory, beforeStack (isDoubleTy type) state (list.offset (isDoubleTy type)) false,
            entryEvents (isDoubleTy type) state⟩ := by
      rw [fragment_eq, runBlocks_condBr rfl hentry rfl rfl, if_pos hsge]
      rfl
    have hrun := hfirst.trans (runBlocks_onStack type _ 2 false 0 _ h)
    refine ⟨_, _, extract_of_run type hrun rfl, ?_⟩
    exact {
      record := by
        rw [hnext]
        exact h.advance
      outside := fun address ha => outside_write _ (by omega) ha
      load := by simp [hnext]
      value := by rw [hnext]
      add := by simp }
  have hsge : (0 : BitVec 32).sle (list.offset (isDoubleTy type)) = false := by simpa using hsge
  have hmaybe := exec_maybeRegisters (isDoubleTy type) state (list.offset (isDoubleTy type))
    memory (entryEvents (isDoubleTy type) state)
  have hset := h.setOffset (isDoubleTy type)
    (list.offset (isDoubleTy type) + VaList.slotBytes (isDoubleTy type))
  have hfirst : runBlocks (layout true) (fragment true type).blocks 5 0 0
        ⟨memory, [(0, .pointer state)], []⟩ =
      runBlocks (layout true) (fragment true type).blocks 3 1
        (if (list.offset (isDoubleTy type) + VaList.slotBytes (isDoubleTy type)).sle 0 then 2
          else 3)
        ⟨memory.write (offsetAddress (isDoubleTy type) state) 4
            (list.offset (isDoubleTy type) + VaList.slotBytes (isDoubleTy type)).toNat,
          nextResults (isDoubleTy type) state (list.offset (isDoubleTy type)),
          nextEvents (isDoubleTy type) state (list.offset (isDoubleTy type))⟩ := by
    rw [fragment_eq, runBlocks_condBr rfl hentry rfl rfl, hsge]
    exact runBlocks_condBr rfl hmaybe rfl rfl
  by_cases hsle :
      (list.offset (isDoubleTy type) + VaList.slotBytes (isDoubleTy type)).sle 0 = true
  · -- A save slot is left.
    have hnext : list.next (isDoubleTy type) =
        (list.top (isDoubleTy type) + (list.offset (isDoubleTy type)).signExtend 64,
          list.setOffset (isDoubleTy type)
            (list.offset (isDoubleTy type) + VaList.slotBytes (isDoubleTy type))) := by
      simp only [VaList.next, hsge, hsle, if_true, Bool.false_eq_true, if_false]
    have htop : (list.setOffset (isDoubleTy type)
        (list.offset (isDoubleTy type) + VaList.slotBytes (isDoubleTy type))).top
          (isDoubleTy type) = list.top (isDoubleTy type) := by
      cases isDoubleTy type <;> rfl
    rw [if_pos hsle] at hfirst
    have hrun := hfirst.trans (runBlocks_inRegisters type _ 1 _ hset)
    rw [htop] at hrun
    refine ⟨_, _, extract_of_run type hrun rfl, ?_⟩
    exact {
      record := by
        rw [hnext]
        exact hset
      outside := fun address ha => outside_write _ (end_le _) ha
      load := by simp [hnext]
      value := by rw [hnext]
      add := fun left right hmem => ⟨hsge, by simpa using hmem⟩ }
  · -- The argument would straddle the end of the save area.
    have hsle : (list.offset (isDoubleTy type) + VaList.slotBytes (isDoubleTy type)).sle 0 =
        false := by simpa using hsle
    have hnext : list.next (isDoubleTy type) =
        (list.stack, (list.setOffset (isDoubleTy type)
            (list.offset (isDoubleTy type) + VaList.slotBytes (isDoubleTy type))).advance) := by
      simp only [VaList.next, hsge, hsle, Bool.false_eq_true, if_false]
    have hstack : (list.setOffset (isDoubleTy type)
        (list.offset (isDoubleTy type) + VaList.slotBytes (isDoubleTy type))).stack =
          list.stack := by
      cases isDoubleTy type <;> rfl
    rw [hsle] at hfirst
    have hrun := hfirst.trans (runBlocks_onStack type _ 1 true 1 _ hset)
    refine ⟨_, _, extract_of_run type hrun rfl, ?_⟩
    exact {
      record := by
        rw [hnext]
        exact hset.advance
      outside := by
        intro address ha
        exact (outside_write _ (by omega) ha).trans (outside_write _ (end_le _) ha)
      load := by simp [hnext, hstack]
      value := by rw [hnext, hstack]
      add := fun left right hmem => ⟨hsge, by simpa using hmem⟩ }

end Extract

/-! ## Slots -/

/-- The bytes of a save slot. -/
def slotSize (floating : Bool) : ℕ := if floating then 16 else 8

namespace VaList

/-- The offset of a save slot of the class from the end of its save area. -/
def slotOffset (list : VaList) (floating : Bool) (k : ℕ) : ℤ :=
  (list.offset floating).toInt + slotSize floating * k

/-- The record after extractions of the types. -/
def after (list : VaList) (types : List LlvmType) : VaList :=
  types.foldl (fun list type => (list.next (isDoubleTy type)).2) list

end VaList

/-- The extractions of the class. -/
def taken (floating : Bool) (types : List LlvmType) : ℕ :=
  types.countP fun type => isDoubleTy type == floating

theorem slotBytes_toInt (floating : Bool) :
    (VaList.slotBytes floating).toInt = slotSize floating := by
  cases floating <;> rfl

theorem taken_append (floating : Bool) (types : List LlvmType) (type : LlvmType) :
    taken floating (types ++ [type]) =
      taken floating types + if isDoubleTy type = floating then 1 else 0 := by
  simp [taken, List.countP_append, List.countP_singleton]

namespace VaList

variable {list : VaList} {floating : Bool}

theorem after_append (list : VaList) (types : List LlvmType) (type : LlvmType) :
    list.after (types ++ [type]) = ((list.after types).next (isDoubleTy type)).2 := by
  simp [after]

theorem offset_setOffset (list : VaList) (floating other : Bool) (offset : BitVec 32) :
    (list.setOffset floating offset).offset other =
      if floating = other then offset else list.offset other := by
  cases floating <;> cases other <;> rfl

@[simp] theorem offset_advance (list : VaList) (floating : Bool) :
    list.advance.offset floating = list.offset floating := rfl

@[simp] theorem top_advance (list : VaList) (floating : Bool) :
    list.advance.top floating = list.top floating := rfl

@[simp] theorem top_setOffset (list : VaList) (floating other : Bool) (offset : BitVec 32) :
    (list.setOffset floating offset).top other = list.top other := by
  cases floating <;> cases other <;> rfl

@[simp] theorem stack_setOffset (list : VaList) (floating : Bool) (offset : BitVec 32) :
    (list.setOffset floating offset).stack = list.stack := by
  cases floating <;> rfl

theorem next_of_nonneg (h : 0 ≤ (list.offset floating).toInt) :
    list.next floating = (list.stack, list.advance) := by
  rw [next, if_pos]
  simpa [BitVec.sle] using h

/-- The addition is done in range, and leaves a number of slots. -/
theorem toInt_add_slotBytes {slots : ℕ} (hslots : slots < 8)
    (h : (list.offset floating).toInt = -(slotSize floating * (slots + 1) : ℕ)) :
    (list.offset floating + slotBytes floating).toInt = -(slotSize floating * slots : ℕ) := by
  have hsum : -((slotSize floating * (slots + 1) : ℕ) : ℤ) + slotSize floating =
      -(slotSize floating * slots : ℕ) := by
    push_cast
    ring
  have hsize : slotSize floating * slots ≤ 128 := by
    cases floating
    · simp only [slotSize, Bool.false_eq_true, if_false]
      omega
    · simp only [slotSize, if_true]
      omega
  rw [BitVec.toInt_add, slotBytes_toInt, h, hsum]
  exact Int.bmod_eq_of_le (by omega) (by omega)

theorem next_of_slots {slots : ℕ} (hslots : slots < 8)
    (h : (list.offset floating).toInt = -(slotSize floating * (slots + 1) : ℕ)) :
    list.next floating =
      (list.top floating + BitVec.ofInt 64 (list.offset floating).toInt,
        list.setOffset floating (list.offset floating + slotBytes floating)) := by
  have hpos : 0 < slotSize floating * (slots + 1) := by
    cases floating <;> simp [slotSize]
  have hadd := toInt_add_slotBytes hslots h
  have hzero : (0 : BitVec 32).toInt = 0 := rfl
  have hsge : ¬(0 : BitVec 32).sle (list.offset floating) = true := by
    simp only [BitVec.sle, decide_eq_true_eq, h, hzero]
    omega
  have hsle : (list.offset floating + slotBytes floating).sle 0 = true := by
    simp only [BitVec.sle, decide_eq_true_eq, hadd, hzero]
    omega
  rw [next, if_neg hsge]
  exact if_pos hsle

section Left

variable {slots : Bool → ℕ}

/-- The record has save slots left, at most the eight that `va_start` leaves of each class. -/
def Left (list : VaList) (slots : Bool → ℕ) : Prop :=
  ∀ floating, slots floating ≤ 8 ∧
    (list.offset floating).toInt = -(slotSize floating * slots floating : ℕ)

theorem Left.next (h : list.Left slots) (floating : Bool) :
    (list.next floating).2.Left fun other =>
      slots other - if floating = other then 1 else 0 := by
  intro other
  refine ⟨(Nat.sub_le _ _).trans (h other).1, ?_⟩
  dsimp only
  obtain ⟨hle, hoffset⟩ := h floating
  rcases hcount : slots floating with _ | k
  · rw [hcount, Nat.mul_zero] at hoffset
    rw [next_of_nonneg (by simp [hoffset]), offset_advance, (h other).2]
    by_cases hother : floating = other
    · subst hother
      simp [hcount]
    · simp [hother]
  · rw [hcount] at hoffset
    rw [next_of_slots (by omega) hoffset, offset_setOffset]
    by_cases hother : floating = other
    · subst hother
      rw [if_pos rfl, if_pos rfl, toInt_add_slotBytes (by omega) hoffset, hcount]
      rfl
    · rw [if_neg hother, if_neg hother, (h other).2]
      rfl

theorem Left.after (h : list.Left slots) (types : List LlvmType) :
    (list.after types).Left fun floating => slots floating - taken floating types := by
  induction types using List.reverseRecOn with
  | nil => exact h
  | append_singleton types type ih =>
    rw [after_append]
    have hnext := ih.next (isDoubleTy type)
    simpa only [taken_append, Nat.sub_sub] using hnext

theorem top_next (h : list.Left slots) (floating other : Bool) :
    (list.next floating).2.top other = list.top other := by
  obtain ⟨hle, hoffset⟩ := h floating
  rcases hcount : slots floating with _ | k
  · rw [hcount, Nat.mul_zero] at hoffset
    rw [next_of_nonneg (by simp [hoffset]), top_advance]
  · rw [hcount] at hoffset
    rw [next_of_slots (by omega) hoffset, top_setOffset]

theorem top_after (h : list.Left slots) (types : List LlvmType) (floating : Bool) :
    (list.after types).top floating = list.top floating := by
  induction types using List.reverseRecOn with
  | nil => rfl
  | append_singleton types type ih => rw [after_append, top_next (h.after types), ih]

end Left

end VaList

/-! ## Counting positions -/

section Count

variable {p : ℕ → Bool}

theorem countP_range_succ (p : ℕ → Bool) (n : ℕ) :
    (List.range (n + 1)).countP p = (List.range n).countP p + if p n then 1 else 0 := by
  rw [List.range_succ, List.countP_append, List.countP_singleton]

theorem countP_range_mono {n m : ℕ} (h : n ≤ m) :
    (List.range n).countP p ≤ (List.range m).countP p := by
  induction m, h using Nat.le_induction with
  | base => exact le_rfl
  | succ m _ ih =>
    rw [countP_range_succ]
    omega

/-- Positions that are counted have different counts before them. -/
theorem countP_range_lt {n m : ℕ} (hn : p n = true) (h : n < m) :
    (List.range n).countP p < (List.range m).countP p := by
  have hmono : (List.range (n + 1)).countP p ≤ (List.range m).countP p := countP_range_mono h
  rw [countP_range_succ, if_pos hn] at hmono
  omega

theorem countP_range_inj {n m : ℕ} (hn : p n = true) (hm : p m = true)
    (h : (List.range n).countP p = (List.range m).countP p) : n = m := by
  rcases lt_trichotomy n m with hlt | heq | hlt
  · have := countP_range_lt hn hlt
    omega
  · exact heq
  · have := countP_range_lt hm hlt
    omega

/-- Every smaller count is reached at an earlier position that is counted. -/
theorem exists_of_lt_countP_range {j : ℕ} :
    ∀ {n : ℕ}, j < (List.range n).countP p → ∃ m < n, p m = true ∧ (List.range m).countP p = j
  | 0, h => by simp at h
  | n + 1, h => by
    rw [countP_range_succ] at h
    by_cases hlt : j < (List.range n).countP p
    · obtain ⟨m, hm, hp, hcount⟩ := exists_of_lt_countP_range hlt
      exact ⟨m, by omega, hp, hcount⟩
    · by_cases hn : p n = true
      · rw [if_pos hn] at h
        exact ⟨n, by omega, hn, by omega⟩
      · rw [if_neg hn] at h
        omega

end Count

/-! ## The slots a run reads -/

/-- A slot of the ABI : a save slot of a class, or an eightbyte of the stack area. -/
inductive Slot where
  | save (floating : Bool) (k : ℕ)
  | stack (k : ℕ)
  deriving DecidableEq

namespace VaList

variable (list : VaList) (types : List LlvmType)

/-- The argument at `n` finds no save slot of its class. -/
def Overflowed (n : ℕ) : Prop :=
  ∃ type, types[n]? = some type ∧
    0 ≤ list.slotOffset (isDoubleTy type) (taken (isDoubleTy type) (types.take n))

instance (n : ℕ) : Decidable (list.Overflowed types n) :=
  match h : types[n]? with
  | none => isFalse fun ⟨_, ht, _⟩ => by simp [h] at ht
  | some type =>
    if hle : 0 ≤ list.slotOffset (isDoubleTy type) (taken (isDoubleTy type) (types.take n)) then
      isTrue ⟨type, h, hle⟩
    else isFalse fun ⟨_, ht, hle'⟩ => hle (by
      obtain rfl := Option.some.inj (h.symm.trans ht)
      exact hle')

/-- The arguments before `n` that were on the stack. -/
def stacked (n : ℕ) : ℕ := (List.range n).countP fun i => list.Overflowed types i

/-- The slot of the argument at `n`, of the given type : the next save slot of its class
while the offset of that slot is negative, and else the next eightbyte of the stack. -/
def slot (n : ℕ) (type : LlvmType) : Slot :=
  if list.slotOffset (isDoubleTy type) (taken (isDoubleTy type) (types.take n)) < 0 then
    .save (isDoubleTy type) (taken (isDoubleTy type) (types.take n))
  else .stack (list.stacked types n)

/-- Where a slot is. -/
def slotAddress : Slot → BitVec 64
  | .save floating k => list.top floating + BitVec.ofInt 64 (list.slotOffset floating k)
  | .stack k => list.stack + BitVec.ofNat 64 (8 * k)

end VaList

namespace VaList

variable {list : VaList} {types : List LlvmType} {slots : Bool → ℕ} {n : ℕ} {type : LlvmType}

theorem taken_take (floating : Bool) (types : List LlvmType) (n : ℕ) :
    taken floating (types.take n) =
      (List.range n).countP fun i => types[i]?.any fun type => isDoubleTy type == floating := by
  induction n with
  | zero => rfl
  | succ n ih =>
    rw [countP_range_succ, ← ih, List.take_add_one]
    cases types[n]? with
    | none => simp
    | some type => simp [taken_append]

/-- The class has the offset of its next slot until its slots are taken. -/
theorem offset_after (h : list.Left slots) (types : List LlvmType) (floating : Bool) :
    ((list.after types).offset floating).toInt =
      min 0 (list.slotOffset floating (taken floating types)) := by
  rw [(h.after types floating).2, slotOffset, (h floating).2]
  dsimp only
  rcases le_total (taken floating types) (slots floating) with hle | hle
  · obtain ⟨k, hk⟩ := Nat.exists_eq_add_of_le hle
    have hpos : (0 : ℤ) ≤ slotSize floating * k :=
      mul_nonneg (Int.natCast_nonneg _) (Int.natCast_nonneg _)
    rw [hk, Nat.add_sub_cancel_left, Nat.mul_add]
    push_cast
    omega
  · obtain ⟨k, hk⟩ := Nat.exists_eq_add_of_le hle
    have hpos : (0 : ℤ) ≤ slotSize floating * k :=
      mul_nonneg (Int.natCast_nonneg _) (Int.natCast_nonneg _)
    rw [hk, Nat.sub_eq_zero_of_le (by omega)]
    push_cast
    rw [mul_add]
    omega

theorem overflowed_iff (ht : types[n]? = some type) :
    list.Overflowed types n ↔
      0 ≤ list.slotOffset (isDoubleTy type) (taken (isDoubleTy type) (types.take n)) := by
  constructor
  · rintro ⟨_, ht', h⟩
    obtain rfl := Option.some.inj (ht.symm.trans ht')
    exact h
  · exact fun h => ⟨type, ht, h⟩

/-- Where the next argument is, by the offset of its slot. -/
theorem next_after (h : list.Left slots) (ht : types[n]? = some type) :
    (list.Overflowed types n →
      (list.after (types.take n)).next (isDoubleTy type) =
        ((list.after (types.take n)).stack, (list.after (types.take n)).advance)) ∧
    (¬list.Overflowed types n →
      ((list.after (types.take n)).next (isDoubleTy type)).1 =
        list.top (isDoubleTy type) + BitVec.ofInt 64
          (list.slotOffset (isDoubleTy type) (taken (isDoubleTy type) (types.take n))) ∧
      ((list.after (types.take n)).next (isDoubleTy type)).2.stack =
        (list.after (types.take n)).stack) := by
  have hoffset := offset_after h (types.take n) (isDoubleTy type)
  rw [overflowed_iff ht]
  constructor
  · intro hle
    exact next_of_nonneg (by rw [hoffset]; omega)
  · intro hlt
    obtain ⟨hle, hleft⟩ := h.after (types.take n) (isDoubleTy type)
    dsimp only at hle hleft
    rcases hcount : slots (isDoubleTy type) - taken (isDoubleTy type) (types.take n) with _ | k
    · rw [hcount, Nat.mul_zero] at hleft
      omega
    · rw [hcount] at hleft hle
      rw [next_of_slots (by omega) hleft]
      refine ⟨?_, stack_setOffset ..⟩
      dsimp only
      rw [top_after h, hoffset, min_eq_right (by omega)]

theorem stack_after (h : list.Left slots) (types : List LlvmType) (n : ℕ) :
    (list.after (types.take n)).stack = list.stack + BitVec.ofNat 64 (8 * list.stacked types n) := by
  induction n with
  | zero => simp [after, stacked]
  | succ n ih =>
    rw [stacked, countP_range_succ, List.take_add_one]
    cases ht : types[n]? with
    | none =>
      have hnot : ¬list.Overflowed types n := by
        rintro ⟨_, ht', _⟩
        simp [ht] at ht'
      simpa [hnot, stacked] using ih
    | some type =>
      obtain ⟨hstack, hsave⟩ := next_after h ht
      rw [Option.toList_some, after_append]
      by_cases hover : list.Overflowed types n
      · rw [hstack hover]
        simp [hover, advance, ih, stacked, Nat.mul_add, BitVec.ofNat_add, BitVec.add_assoc]
      · rw [(hsave hover).2, ih]
        simp [hover, stacked]

/-- The next argument is in the slot of its position. -/
theorem next_slot (h : list.Left slots) (ht : types[n]? = some type) :
    ((list.after (types.take n)).next (isDoubleTy type)).1 =
      list.slotAddress (list.slot types n type) := by
  obtain ⟨hstack, hsave⟩ := next_after h ht
  by_cases hover : list.Overflowed types n
  · rw [hstack hover, slot, if_neg (not_lt.mpr ((overflowed_iff ht).mp hover)), slotAddress,
      stack_after h]
  · rw [(hsave hover).1, slot, if_pos (not_le.mp (mt (overflowed_iff ht).mpr hover)), slotAddress]

end VaList

/-! ## A run -/

/-- Every extraction of a run is one from the record after the types before it. -/
theorem extractions_next {state : BitVec 64} :
    ∀ (types : List LlvmType) {list : VaList} {memory : FlatMemory 64}, list.At memory state →
      ∃ reads memory', extractions true state memory types = some (reads, memory') ∧
        (list.after types).At memory' state ∧
        (∀ address, Outside state address → memory' address = memory address) ∧
        reads.length = types.length ∧
        ∀ n type, types[n]? = some type → ∃ extraction before behind,
          reads[n]? = some extraction ∧
          (∀ address, Outside state address → before address = memory address) ∧
          Extracts (list.after (types.take n)) before state type extraction behind
  | [], list, memory, h => ⟨[], memory, rfl, h, fun _ _ => rfl, rfl, fun n type ht => by simp at ht⟩
  | type :: types, list, memory, h => by
    obtain ⟨extraction, middle, hextract, hextracts⟩ := extract_next type h
    obtain ⟨reads, memory', hrun, hlist, houtside, hlength, hreads⟩ :=
      extractions_next types hextracts.record
    refine ⟨extraction :: reads, memory', ?_, hlist, ?_, by simp [hlength], ?_⟩
    · simp [extractions, hextract, hrun]
    · exact fun address ha => (houtside address ha).trans (hextracts.outside address ha)
    · intro n other ht
      rcases n with _ | n
      · obtain rfl : type = other := by simpa using ht
        exact ⟨extraction, memory, middle, rfl, fun _ _ => rfl, hextracts⟩
      · obtain ⟨read, before, behind, hread, hbefore, hother⟩ := hreads n other (by simpa using ht)
        exact ⟨read, before, behind, by simpa using hread,
          fun address ha => (hbefore address ha).trans (hextracts.outside address ha), hother⟩

/-- The addition of an extraction from a record with slots left does not overflow. -/
theorem noOverflow {list : VaList} {slots : Bool → ℕ} (hleft : list.Left slots)
    {memory memory' : FlatMemory 64} {state : BitVec 64} {type : LlvmType}
    {extraction : Extraction 64} (h : Extracts list memory state type extraction memory') :
    extraction.NoOverflow := by
  intro left right hmem
  obtain ⟨hsge, rfl, rfl⟩ := h.add left right hmem
  obtain ⟨hle, hoffset⟩ := hleft (isDoubleTy type)
  rcases hcount : slots (isDoubleTy type) with _ | k
  · rw [hcount, Nat.mul_zero] at hoffset
    simp [BitVec.sle, hoffset] at hsge
  · rw [hcount] at hoffset
    rw [VaList.toInt_add_slotBytes (by omega) hoffset, hoffset, slotBytes_toInt]
    push_cast
    ring

/-- A run reads the arguments of the types in order, each in its slot. -/
structure ReadsInOrder (list : VaList) (state : BitVec 64) (memory : FlatMemory 64)
    (types : List LlvmType) (reads : List (Extraction 64)) (memory' : FlatMemory 64) : Prop where
  length : reads.length = types.length
  slot : ∀ n type, types[n]? = some type → ∃ extraction : Extraction 64, reads[n]? = some extraction ∧
    extraction.ReadsAt (list.slotAddress (list.slot types n type))
  value : ∀ n type extraction, types[n]? = some type → reads[n]? = some extraction →
    FlatMemory.Apart (list.slotAddress (list.slot types n type))
      ((layout true).storeSize type) state 32 →
      extraction.value = .ofWord (layout true) type
        (memory.read (list.slotAddress (list.slot types n type)) ((layout true).storeSize type))
  once : ∀ n type n' type', types[n]? = some type → types[n']? = some type' →
    list.slot types n type = list.slot types n' type' → n = n'
  saved : ∀ n type floating k j, types[n]? = some type →
    list.slot types n type = .save floating k → j < k →
      ∃ m < n, ∃ earlier, types[m]? = some earlier ∧ list.slot types m earlier = .save floating j
  stacked : ∀ n type k j, types[n]? = some type →
    list.slot types n type = .stack k → j < k →
      ∃ m < n, ∃ earlier, types[m]? = some earlier ∧ list.slot types m earlier = .stack j
  overflowed : ∀ n type n' type', types[n]? = some type → types[n']? = some type' → n ≤ n' →
    isDoubleTy type' = isDoubleTy type → list.Overflowed types n → list.Overflowed types n'
  noOverflow : ∀ extraction ∈ reads, Extraction.NoOverflow extraction
  left : ∃ last : VaList, last.At memory' state ∧
    last.stack = list.stack + BitVec.ofNat 64 (8 * list.stacked types types.length) ∧
    ∀ floating, last.top floating = list.top floating ∧
      (last.offset floating).toInt = min 0 (list.slotOffset floating (taken floating types))

section Slots

variable {list : VaList} {types : List LlvmType} {n n' : ℕ} {type type' : LlvmType}

theorem VaList.slot_save {floating : Bool} {k : ℕ} :
    list.slot types n type = .save floating k ↔
      isDoubleTy type = floating ∧ taken floating (types.take n) = k ∧
        list.slotOffset floating k < 0 := by
  unfold VaList.slot
  constructor
  · intro h
    split at h
    · next hlt =>
      obtain ⟨rfl, rfl⟩ := Slot.save.inj h
      exact ⟨rfl, rfl, hlt⟩
    · exact Slot.noConfusion h
  · rintro ⟨rfl, rfl, hlt⟩
    rw [if_pos hlt]

theorem VaList.slot_stack {k : ℕ} (ht : types[n]? = some type) :
    list.slot types n type = .stack k ↔
      list.Overflowed types n ∧ list.stacked types n = k := by
  rw [VaList.overflowed_iff ht]
  unfold VaList.slot
  constructor
  · intro h
    split at h
    · exact Slot.noConfusion h
    · next hle => exact ⟨not_lt.mp hle, Slot.stack.inj h⟩
  · rintro ⟨hle, rfl⟩
    rw [if_neg (not_lt.mpr hle)]

/-- No two arguments are in one slot. -/
theorem VaList.slot_inj (ht : types[n]? = some type) (ht' : types[n']? = some type')
    (h : list.slot types n type = list.slot types n' type') : n = n' := by
  cases hslot : list.slot types n' type' with
  | save floating k =>
    obtain ⟨hclass, hk, -⟩ := VaList.slot_save.mp (h.trans hslot)
    obtain ⟨hclass', hk', -⟩ := VaList.slot_save.mp hslot
    rw [VaList.taken_take] at hk hk'
    exact countP_range_inj (by simpa [ht] using hclass) (by simpa [ht'] using hclass')
      (hk.trans hk'.symm)
  | stack k =>
    obtain ⟨hover, hk⟩ := (VaList.slot_stack ht).mp (h.trans hslot)
    obtain ⟨hover', hk'⟩ := (VaList.slot_stack ht').mp hslot
    exact countP_range_inj (by simpa using hover) (by simpa using hover') (hk.trans hk'.symm)

theorem slotOffset_mono {floating : Bool} {j k : ℕ} (h : j ≤ k) :
    list.slotOffset floating j ≤ list.slotOffset floating k := by
  have : (slotSize floating : ℤ) * j ≤ slotSize floating * k :=
    mul_le_mul_of_nonneg_left (by exact_mod_cast h) (Int.natCast_nonneg _)
  unfold VaList.slotOffset
  omega

/-- The save slots of a class are read from the first one on. -/
theorem VaList.slot_saved {floating : Bool} {k j : ℕ}
    (h : list.slot types n type = .save floating k) (hj : j < k) :
    ∃ m < n, ∃ earlier, types[m]? = some earlier ∧
      list.slot types m earlier = .save floating j := by
  obtain ⟨hclass, hk, hlt⟩ := VaList.slot_save.mp h
  rw [VaList.taken_take] at hk
  obtain ⟨m, hm, hp, hcount⟩ := exists_of_lt_countP_range (hk ▸ hj)
  obtain ⟨earlier, hearlier, hclass'⟩ := (Option.any_eq_true _ _).mp hp
  refine ⟨m, hm, earlier, hearlier, VaList.slot_save.mpr ⟨by simpa using hclass', ?_, ?_⟩⟩
  · rw [VaList.taken_take, hcount]
  · exact lt_of_le_of_lt (slotOffset_mono hj.le) hlt

/-- The stack is read from the first eightbyte on. -/
theorem VaList.slot_stacked {k j : ℕ} (ht : types[n]? = some type)
    (h : list.slot types n type = .stack k) (hj : j < k) :
    ∃ m < n, ∃ earlier, types[m]? = some earlier ∧ list.slot types m earlier = .stack j := by
  obtain ⟨-, hk⟩ := (VaList.slot_stack ht).mp h
  obtain ⟨m, hm, hp, hcount⟩ := exists_of_lt_countP_range (hk ▸ hj)
  have hover : list.Overflowed types m := by simpa using hp
  obtain ⟨earlier, hearlier, -⟩ := id hover
  exact ⟨m, hm, earlier, hearlier, (VaList.slot_stack hearlier).mpr ⟨hover, hcount⟩⟩

/-- A class that has overflowed stays on the stack. -/
theorem VaList.overflowed_mono (ht : types[n]? = some type) (ht' : types[n']? = some type')
    (h : n ≤ n') (hclass : isDoubleTy type' = isDoubleTy type)
    (hover : list.Overflowed types n) : list.Overflowed types n' := by
  rw [VaList.overflowed_iff ht] at hover
  rw [VaList.overflowed_iff ht', hclass]
  have htaken : taken (isDoubleTy type) (types.take n) ≤
      taken (isDoubleTy type) (types.take n') := by
    rw [VaList.taken_take, VaList.taken_take]
    exact countP_range_mono h
  exact hover.trans (slotOffset_mono htaken)

end Slots

/-- From a record with at most eight slots of each class, a run reads its arguments in
order. -/
theorem extractions_inOrder {list : VaList} {slots : Bool → ℕ} (hleft : list.Left slots)
    {state : BitVec 64} {memory : FlatMemory 64} (h : list.At memory state)
    (types : List LlvmType) :
    ∃ reads memory', extractions true state memory types = some (reads, memory') ∧
      ReadsInOrder list state memory types reads memory' := by
  obtain ⟨reads, memory', hrun, hlist, houtside, hlength, hreads⟩ := extractions_next types h
  have hread : ∀ n type extraction, types[n]? = some type → reads[n]? = some extraction →
      ∃ before behind, (∀ address, Outside state address → before address = memory address) ∧
        Extracts (list.after (types.take n)) before state type extraction behind := by
    intro n type extraction ht hextraction
    obtain ⟨found, before, behind, hfound, hbefore, hextracts⟩ := hreads n type ht
    obtain rfl := Option.some.inj (hfound.symm.trans hextraction)
    exact ⟨before, behind, hbefore, hextracts⟩
  refine ⟨reads, memory', hrun, {
    length := hlength
    slot := ?_
    value := ?_
    once := fun n type n' type' ht ht' => VaList.slot_inj ht ht'
    saved := fun n type floating k j _ hslot hj => VaList.slot_saved hslot hj
    stacked := fun n type k j ht hslot hj => VaList.slot_stacked ht hslot hj
    overflowed := fun n type n' type' ht ht' hle hclass => VaList.overflowed_mono ht ht' hle hclass
    noOverflow := ?_
    left := ?_ }⟩
  · intro n type ht
    obtain ⟨extraction, before, behind, hextraction, -, hextracts⟩ := hreads n type ht
    have hload := hextracts.load
    rw [VaList.next_slot hleft ht] at hload
    exact ⟨extraction, hextraction, _, _, hload⟩
  · intro n type extraction ht hextraction hapart
    obtain ⟨before, behind, hbefore, hextracts⟩ := hread n type extraction ht hextraction
    rw [hextracts.value, VaList.next_slot hleft ht]
    congr 1
    apply FlatMemory.read_congr
    intro i hi
    have houtside := hapart i hi
    exact (hextracts.outside _ houtside).trans (hbefore _ houtside)
  · intro extraction hmem
    obtain ⟨n, hn, rfl⟩ := List.getElem_of_mem hmem
    have ht : types[n]? = some types[n] := List.getElem?_eq_getElem (hlength ▸ hn)
    obtain ⟨before, behind, -, hextracts⟩ := hread n _ _ ht (List.getElem?_eq_getElem hn)
    exact noOverflow (hleft.after (types.take n)) hextracts
  · refine ⟨list.after types, hlist, ?_, fun floating => ⟨?_, ?_⟩⟩
    · have := VaList.stack_after hleft types types.length
      rwa [List.take_length] at this
    · exact VaList.top_after hleft types floating
    · exact VaList.offset_after hleft types floating

/-! ## The cursor on `armv7` -/

section Cursor

variable (type : LlvmType)

def argumentAlignment : ℕ := clamp ((layout false).abiAlign type).value 4 8

def argumentSize : ℕ := ((layout false).allocSize type + 3) / 4 * 4

/-- The next address that the type may be at. -/
def alignedCursor (cursor : BitVec 32) : BitVec 32 :=
  BitVec.ofNat 32
    ((cursor.toNat + (argumentAlignment type - 1)) / argumentAlignment type *
      argumentAlignment type)

/-- The cursor past an argument of the type. -/
def nextCursor (cursor : BitVec 32) : BitVec 32 :=
  alignedCursor type cursor + BitVec.ofNat 32 (argumentSize type)

end Cursor

/-- The cursor past arguments of the types. -/
def cursorAfter (cursor : BitVec 32) (types : List LlvmType) : BitVec 32 :=
  types.foldl (fun cursor type => nextCursor type cursor) cursor

theorem argumentAlignment_eq (type : LlvmType) :
    argumentAlignment type = 4 ∨ argumentAlignment type = 8 := by
  unfold argumentAlignment Align.value
  rcases ((layout false).abiAlign type).shift with _ | _ | _ | shift
  · exact Or.inl rfl
  · exact Or.inl rfl
  · exact Or.inl rfl
  · right
    have : 1 ≤ 2 ^ shift := Nat.one_le_two_pow
    have hpow : 2 ^ (shift + 1 + 1 + 1) = 2 ^ shift * 8 := by ring
    rw [hpow, clamp, if_neg (by omega)]
    split <;> omega

/-- Masking the low bits off rounds down. -/
theorem and_neg_eight (x : BitVec 32) : x &&& -8#32 = BitVec.ofNat 32 (x.toNat / 8 * 8) := by
  have hmask : ∀ i : Fin 32, (-8#32).getLsbD i = decide (3 ≤ i.val) := by decide
  have hshift : x &&& -8#32 = (x >>> 3) <<< 3 := by
    ext i hi
    have hbit : (-8#32)[i] = decide (3 ≤ i) := by
      rw [← BitVec.getLsbD_eq_getElem]
      exact hmask ⟨i, hi⟩
    rw [BitVec.getElem_and, hbit, BitVec.getElem_shiftLeft]
    by_cases h : i < 3
    · simp [h]
    · simp [h, BitVec.getLsbD_eq_getElem hi, show 3 + (i - 3) = i by omega, show 3 ≤ i by omega]
  rw [hshift]
  apply BitVec.eq_of_toNat_eq
  rw [BitVec.toNat_shiftLeft, BitVec.toNat_ushiftRight, BitVec.toNat_ofNat, Nat.shiftLeft_eq,
    Nat.shiftRight_eq_div_pow]

theorem alignedCursor_of_eight {type : LlvmType} (h : argumentAlignment type = 8)
    (cursor : BitVec 32) :
    (cursor + BitVec.ofNat 32 (argumentAlignment type - 1)) &&&
        -BitVec.ofNat 32 (argumentAlignment type) = alignedCursor type cursor := by
  rw [alignedCursor, h]
  refine (and_neg_eight _).trans ?_
  apply BitVec.eq_of_toNat_eq
  rw [BitVec.toNat_ofNat, BitVec.toNat_ofNat, BitVec.toNat_add, BitVec.toNat_ofNat]
  omega

theorem alignedCursor_of_four {type : LlvmType} (h : argumentAlignment type = 4)
    {cursor : BitVec 32} (hcursor : 4 ∣ cursor.toNat) : alignedCursor type cursor = cursor := by
  rw [alignedCursor, h]
  apply BitVec.eq_of_toNat_eq
  have := cursor.isLt
  rw [BitVec.toNat_ofNat]
  omega

theorem dvd_nextCursor (type : LlvmType) (cursor : BitVec 32) :
    4 ∣ (nextCursor type cursor).toNat := by
  rw [nextCursor, alignedCursor, argumentSize, BitVec.toNat_add, BitVec.toNat_ofNat,
    BitVec.toNat_ofNat]
  rcases argumentAlignment_eq type with h | h <;> rw [h] <;> omega

/-! ## An extraction on `armv7` -/

section Arm

variable (type : LlvmType)

theorem fragment_four (h : argumentAlignment type = 4) :
    fragment false type =
      ⟨[⟨"entry", [
        (1, .alignedLoad .ptr (.result 0) 4),
        (2, .inBoundsGEP (.result 1) (.i32 (BitVec.ofNat 32 (argumentSize type)))),
        (3, .alignedStore (.result 2) (.result 0) 4),
        (4, .alignedLoad type (.result 1) 4)], .pending⟩], .result 4⟩ := by
  have h' : clamp ((layout false).abiAlign type).value 4 8 = 4 := h
  simp only [fragment, nativeVaArg, h', if_true]
  rfl

theorem fragment_eight (h : argumentAlignment type = 8) :
    fragment false type =
      ⟨[⟨"entry", [
        (1, .alignedLoad .ptr (.result 0) 4),
        (2, .inBoundsGEP (.result 1) (.i32 (BitVec.ofNat 32 (8 - 1)))),
        (3, .ptrmask (.result 2) (.i32 (-BitVec.ofNat 32 8))),
        (4, .inBoundsGEP (.result 3) (.i32 (BitVec.ofNat 32 (argumentSize type)))),
        (5, .alignedStore (.result 4) (.result 0) 4),
        (6, .alignedLoad type (.result 3) 8)], .pending⟩], .result 6⟩ := by
  have h' : clamp ((layout false).abiAlign type).value 4 8 = 8 := h
  simp only [fragment, nativeVaArg, h', if_true]
  rfl

variable {type} {memory : FlatMemory 32} {state cursor : BitVec 32}

/-- The memory with the cursor past an argument of the type. -/
abbrev advanced (type : LlvmType) (memory : FlatMemory 32) (state cursor : BitVec 32) :
    FlatMemory 32 :=
  memory.write state 4 (nextCursor type cursor).toNat

/-- One extraction loads the argument at the next address its type may be at, and stores the
cursor past it. -/
theorem extract_cursor (hcursor : memory.read state 4 = cursor.toNat)
    (hdvd : 4 ∣ cursor.toNat) :
    extract false state memory type = some
      (⟨.ofWord (layout false) type
          ((advanced type memory state cursor).read (alignedCursor type cursor)
            ((layout false).storeSize type)),
        [.load state 4 4, .store state 4 4,
          .load (alignedCursor type cursor) ((layout false).storeSize type)
            (argumentAlignment type)]⟩,
        advanced type memory state cursor) := by
  obtain rfl : cursor = BitVec.ofNat 32 (memory.read state 4) := by
    rw [hcursor, BitVec.ofNat_toNat, BitVec.setWidth_eq]
  have hrun : ∀ (aligned : BitVec 32) (alignment : ℕ),
      argumentAlignment type = 4 ∧ alignment = 4 ∧
          aligned = BitVec.ofNat 32 (memory.read state 4) ∨
        argumentAlignment type = 8 ∧ alignment = 8 ∧
          aligned = (BitVec.ofNat 32 (memory.read state 4) +
            (BitVec.ofNat 32 (8 - 1)).signExtend 32) &&& (-BitVec.ofNat 32 8).signExtend 32 →
      extract false state memory type = some
        (⟨.ofWord (layout false) type
            ((memory.write state 4
              (aligned + (BitVec.ofNat 32 (argumentSize type)).signExtend 32).toNat).read aligned
              ((layout false).storeSize type)),
          [.load state 4 4, .store state 4 4,
            .load aligned ((layout false).storeSize type) alignment]⟩,
          memory.write state 4
            (aligned + (BitVec.ofNat 32 (argumentSize type)).signExtend 32).toNat) := by
    rintro aligned alignment (⟨h, rfl, rfl⟩ | ⟨h, rfl, rfl⟩)
    · rw [extract, fragment_four type h]
      rfl
    · rw [extract, fragment_eight type h]
      rfl
  simp only [BitVec.signExtend_eq] at hrun
  apply hrun
  rcases argumentAlignment_eq type with h | h
  · exact Or.inl ⟨h, h, alignedCursor_of_four h hdvd⟩
  · refine Or.inr ⟨h, h, ?_⟩
    rw [← alignedCursor_of_eight h, h]

theorem cursor_advanced (memory : FlatMemory 32) (state cursor : BitVec 32) :
    (advanced type memory state cursor).read state 4 = (nextCursor type cursor).toNat := by
  rw [FlatMemory.read_write_same _ _ _ (by omega)]
  exact Nat.mod_eq_of_lt (nextCursor type cursor).isLt

/-- A run reads every argument at the next address its type may be at, from the cursor past
the arguments before it. -/
structure ReadsArea (cursor state : BitVec 32) (memory : FlatMemory 32) (types : List LlvmType)
    (reads : List (Extraction 32)) (memory' : FlatMemory 32) : Prop where
  length : reads.length = types.length
  address : ∀ n type, types[n]? = some type → ∃ extraction : Extraction 32,
    reads[n]? = some extraction ∧
      extraction.ReadsAt (alignedCursor type (cursorAfter cursor (types.take n)))
  value : ∀ n type extraction, types[n]? = some type → reads[n]? = some extraction →
    FlatMemory.Apart (alignedCursor type (cursorAfter cursor (types.take n)))
      ((layout false).storeSize type) state 4 →
      extraction.value = .ofWord (layout false) type
        (memory.read (alignedCursor type (cursorAfter cursor (types.take n)))
          ((layout false).storeSize type))
  cursor : memory'.read state 4 = (cursorAfter cursor types).toNat

theorem extractions_area :
    ∀ (types : List LlvmType) {memory : FlatMemory 32} {cursor : BitVec 32},
      memory.read state 4 = cursor.toNat → 4 ∣ cursor.toNat →
      ∃ reads memory', extractions false state memory types = some (reads, memory') ∧
        ReadsArea cursor state memory types reads memory'
  | [], memory, cursor, h, _ =>
    ⟨[], memory, rfl, {
      length := rfl
      address := fun n type ht => by simp at ht
      value := fun n type extraction ht => by simp at ht
      cursor := h }⟩
  | type :: types, memory, cursor, h, hdvd => by
    obtain ⟨reads, memory', hrun, hreads⟩ :=
      extractions_area types (cursor_advanced memory state cursor) (dvd_nextCursor type cursor)
    obtain ⟨extraction, hextraction, hvalue, hat⟩ : ∃ extraction : Extraction 32,
        extract false state memory type =
          some (extraction, advanced type memory state cursor) ∧
        extraction.value = .ofWord (layout false) type
          ((advanced type memory state cursor).read (alignedCursor type cursor)
            ((layout false).storeSize type)) ∧
        extraction.ReadsAt (alignedCursor type cursor) :=
      ⟨_, extract_cursor h hdvd, rfl, _, _, rfl⟩
    refine ⟨extraction :: reads, memory', ?_, {
      length := by simp [hreads.length]
      address := ?_
      value := ?_
      cursor := hreads.cursor }⟩
    · simp only [extractions, hextraction, hrun, Option.bind_eq_bind, Option.bind_some]
    · intro n other ht
      rcases n with _ | n
      · obtain rfl : type = other := by simpa using ht
        exact ⟨extraction, rfl, hat⟩
      · obtain ⟨found, hfound, hat⟩ := hreads.address n other (by simpa using ht)
        exact ⟨found, by simpa using hfound, hat⟩
    · intro n other found ht hfound hapart
      have hkept : ∀ {address : BitVec 32} {bytes : ℕ}, FlatMemory.Apart address bytes state 4 →
          (advanced type memory state cursor).read address bytes = memory.read address bytes :=
        fun hapart => FlatMemory.read_write_apart memory _ hapart
      rcases n with _ | n
      · obtain rfl : type = other := by simpa using ht
        obtain rfl : extraction = found := by simpa using hfound
        rw [hvalue]
        exact congrArg _ (hkept hapart)
      · rw [hreads.value n other found (by simpa using ht) (by simpa using hfound) hapart]
        exact congrArg _ (hkept hapart)

end Arm

/-! ## The law of the emitted code -/

/-- The code emitted for `va_arg` reads every variadic argument once and in order. -/
theorem nativeVaArg_reads :
    (∀ (list : VaList) (slots : Bool → ℕ) (state : BitVec 64) (memory : FlatMemory 64)
        (types : List LlvmType), list.Left slots → list.At memory state →
      ∃ reads memory', extractions true state memory types = some (reads, memory') ∧
        ReadsInOrder list state memory types reads memory') ∧
    (∀ (state cursor : BitVec 32) (memory : FlatMemory 32) (types : List LlvmType),
        memory.read state 4 = cursor.toNat → 4 ∣ cursor.toNat →
      ∃ reads memory', extractions false state memory types = some (reads, memory') ∧
        ReadsArea cursor state memory types reads memory') :=
  ⟨fun _ _ _ _ types hleft h => extractions_inOrder hleft h types,
    fun _ _ _ _ h hdvd => extractions_area _ h hdvd⟩

/-- A memory that holds a record with one general and one vector save slot left. -/
def sampleMemory : FlatMemory 64 :=
  ((((FlatMemory.write (fun _ => 0) 0 8 0x1000).write 8 8 0x2000).write 16 8 0x3000).write
    24 4 0xfffffff8).write 28 4 0xfffffff0

/-- A memory with a cursor. -/
def sampleArea : FlatMemory 32 := FlatMemory.write (fun _ => 0) 0 4 0x1004

theorem sample_reads :
    (∃ reads memory', extractions true 0 sampleMemory [.int 32, .doubleTy, .int 64] =
        some (reads, memory') ∧
      ReadsInOrder ⟨0x1000, 0x2000, 0x3000, 0xfffffff8, 0xfffffff0⟩ 0 sampleMemory
        [.int 32, .doubleTy, .int 64] reads memory') ∧
    (∃ reads memory', extractions false 0 sampleArea [.doubleTy, .int 32] =
        some (reads, memory') ∧
      ReadsArea 0x1004 0 sampleArea [.doubleTy, .int 32] reads memory') :=
  ⟨nativeVaArg_reads.1 _ (fun _ => 1) _ _ _ (by intro floating; cases floating <;> decide)
      (by constructor <;> rfl),
    nativeVaArg_reads.2 _ _ _ _ (by rfl) (by decide)⟩

end NativeArmVariadic

end Sela
