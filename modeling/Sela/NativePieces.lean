import Mathlib.Algebra.Order.BigOperators.Group.List
import Mathlib.Data.Nat.Prime.Basic
import Sela.NativeAbi
import Sela.ByteMemory

/-!
# Pieces in memory

The loads and stores of native pieces. A piece that lies inside the storage is moved by one
access; an integer that reaches past its end by its low bytes; an array or a record that does,
element by element. The bytes of the scalars of a type are its data bytes
(`DataLayout.IsData`); the rest is padding. A single bit has a byte that it does not fill : it is
read as itself only where a bit was stored.

`nativeABIPieces_exact` : a descriptor that the access check accepts is loaded and stored by
aligned accesses inside its pieces, which move its data bytes and no byte outside the pieces;
nothing is emitted on an error.
-/

namespace Sela

/-! ## Data bytes of a type -/

/-- Whether a type is that of a single bit. -/
def LlvmType.isBit : LlvmType → Bool
  | .scalar (.integer 1) => true
  | _ => false

namespace DataLayout

variable (layout : DataLayout)

mutual

/-- What a load or a store of a whole type at `offset` touches. -/
def footprint : LlvmType → ℕ → Footprint
  | .array element count, offset =>
    .whole offset (layout.storeSize (.array element count))
      ((List.range count).map fun i => footprint element (offset + i * layout.allocSize element))
  | .struct identity packed fields, offset =>
    .whole offset (layout.storeSize (.struct identity packed fields))
      (fieldFootprints packed offset 0 fields)
  | type, offset => .bytes offset (layout.storeSize type) (layout.storeSize type) type.isBit

def fieldFootprints (packed : Bool) (base start : ℕ) : List LlvmType → List Footprint
  | [] => []
  | field :: fields =>
    footprint field (base + alignTo start (layout.fieldAlign packed field)) ::
      fieldFootprints packed base
        (alignTo start (layout.fieldAlign packed field) + layout.allocSize field) fields

end

/-- The byte of storage of the type belongs to a scalar. -/
def IsData (type : LlvmType) (p : ℕ) : Prop := (layout.footprint type 0).Data p

instance (type : LlvmType) (p : ℕ) : Decidable (layout.IsData type p) :=
  inferInstanceAs (Decidable (Footprint.Data _ _))

variable {layout}

theorem fieldFootprints_eq (packed : Bool) (base : ℕ) (fields : List LlvmType) :
    ∀ start, layout.fieldFootprints packed base start fields =
      (layout.elements packed start fields).map fun element =>
        layout.footprint element.1 (base + element.2) := by
  induction fields with
  | nil => intro start; rfl
  | cons field fields ih =>
    intro start
    rw [fieldFootprints, elements, List.map_cons, ih]

theorem footprint_struct (identity : Option String) (packed : Bool) (fields : List LlvmType)
    (offset : ℕ) :
    layout.footprint (.struct identity packed fields) offset =
      .whole offset (layout.storeSize (.struct identity packed fields))
        ((layout.elements packed 0 fields).map fun element =>
          layout.footprint element.1 (offset + element.2)) := by
  rw [footprint, fieldFootprints_eq]

theorem footprint_scalar {type : LlvmType} (h : type.isAggregate = false) (offset : ℕ) :
    layout.footprint type offset =
      .bytes offset (layout.storeSize type) (layout.storeSize type) type.isBit := by
  cases type <;> first | simp [LlvmType.isAggregate] at h; done | rw [footprint] <;> simp

theorem mem_of_mem_elements {packed : Bool} {start : ℕ} {fields : List LlvmType}
    {element : LlvmType × ℕ} (h : element ∈ layout.elements packed start fields) :
    element.1 ∈ fields := by
  rw [← map_fst_elements layout packed fields start]
  exact List.mem_map_of_mem h

/-- The elements of an array follow one another. -/
theorem strides_pairwise (offset stride count : ℕ) :
    (List.range count).Pairwise fun i j => offset + i * stride + stride ≤ offset + j * stride := by
  refine List.pairwise_lt_range.imp fun {i j} hij => ?_
  have := Nat.mul_le_mul_right stride hij
  rw [Nat.succ_mul] at this
  omega

theorem stride_le (stride : ℕ) {count i : ℕ} (h : i < count) : i * stride + stride ≤ count * stride := by
  have := Nat.mul_le_mul_right stride h
  rwa [Nat.succ_mul] at this

/-- The elements of a record end inside it. -/
theorem element_end_le (identity : Option String) {packed : Bool} {fields : List LlvmType}
    {element : LlvmType × ℕ} (h : element ∈ layout.elements packed 0 fields) :
    element.2 + layout.storeSize element.1 ≤
      layout.storeSize (.struct identity packed fields) := by
  have hend := end_le_allocSize identity h
  have hstore : layout.storeSize element.1 ≤ _ := storeSize_le_allocSize element.1
  rw [allocSize_struct] at hend
  omega

/-- A bit is stored in one byte. -/
theorem storeSize_of_isBit {type : LlvmType} (h : type.isBit = true) : layout.storeSize type = 1 := by
  unfold LlvmType.isBit at h
  split at h
  · exact storeSize_int layout 1
  · simp at h

theorem scalar_within {type : LlvmType} (h : type.isAggregate = false) (offset : ℕ) :
    (layout.footprint type offset).Within offset (offset + layout.storeSize type) := by
  rw [footprint_scalar h, Footprint.Within]
  exact ⟨le_rfl, le_rfl, le_rfl, storeSize_of_isBit⟩

mutual

/-- A whole access lies where the type does. -/
theorem footprint_within : ∀ (type : LlvmType) (offset : ℕ),
    (layout.footprint type offset).Within offset (offset + layout.storeSize type)
  | .array element count, offset => by
    rw [footprint, Footprint.Within]
    refine ⟨le_rfl, le_rfl, ?_⟩
    rw [storeSize_array]
    have hstore : layout.storeSize element ≤ _ := storeSize_le_allocSize element
    refine Footprint.sequence_of_pairwise _ _ (fun i _ => footprint_within element _)
      ((strides_pairwise offset (layout.allocSize element) count).imp fun h => by omega)
      (fun i hi => ?_) (fun i _ => Nat.le_add_right _ _) (Nat.le_add_right _ _)
    have := stride_le (layout.allocSize element) (List.mem_range.mp hi)
    omega
  | .struct identity packed fields, offset => by
    rw [footprint_struct, Footprint.Within]
    refine ⟨le_rfl, le_rfl, ?_⟩
    refine Footprint.sequence_of_pairwise (fun element : LlvmType × ℕ => offset + element.2)
      (fun element => offset + element.2 + layout.storeSize element.1)
      (fun element helement => ?_) ((elements_pairwise packed fields 0).imp fun {a b} h => ?_)
      (fun element helement => ?_) (fun element _ => Nat.le_add_right _ _) (Nat.le_add_right _ _)
    · exact fields_within fields element.1 (mem_of_mem_elements helement) _
    · have : layout.storeSize a.1 ≤ _ := storeSize_le_allocSize a.1
      omega
    · have := element_end_le identity helement
      omega
  | .void, offset => scalar_within rfl offset
  | .scalar _, offset => scalar_within rfl offset
  | .vector _ _, offset => scalar_within rfl offset
  | .unsized _, offset => scalar_within rfl offset

theorem fields_within : ∀ (fields : List LlvmType), ∀ field ∈ fields, ∀ offset,
    (layout.footprint field offset).Within offset (offset + layout.storeSize field)
  | [], _, h, _ => by simp at h
  | first :: fields, field, h, offset => by
    rcases List.mem_cons.mp h with h | h
    · rw [h]
      exact footprint_within first offset
    · exact fields_within fields field h offset

end

end DataLayout

/-! ## Accesses to a piece -/

/-- The greatest alignment that two addresses so far apart share. -/
def commonAlignment (alignment : Align) (offset : ℕ) : Align :=
  .of (Nat.gcd alignment.value offset)

theorem value_commonAlignment (alignment : Align) (offset : ℕ) :
    (commonAlignment alignment offset).value = Nat.gcd alignment.value offset := by
  obtain ⟨k, -, hk⟩ := (Nat.dvd_prime_pow Nat.prime_two).mp
    (Nat.gcd_dvd_left alignment.value offset)
  rw [commonAlignment, Align.of, Align.value, hk, Nat.log2_two_pow]

/-- A common alignment is one of the address. -/
theorem commonAlignment_dvd {alignment : Align} {address : ℕ} (h : alignment.value ∣ address)
    (offset : ℕ) : (commonAlignment alignment offset).value ∣ address + offset := by
  rw [value_commonAlignment]
  exact Nat.dvd_add ((Nat.gcd_dvd_left _ _).trans h) (Nat.gcd_dvd_right _ _)

/-- The instructions that move a piece : one access of its type, one of the low bytes of an
integer, or those of its elements. -/
inductive PieceAccess
  | whole (type : LlvmType) (offset : ℕ) (alignment : Align)
  | narrow (type memoryType : LlvmType) (offset : ℕ) (alignment : Align)
  | elements (parts : List PieceAccess)

namespace PieceAccess

variable (layout : DataLayout)

mutual

def footprint : PieceAccess → Footprint
  | .whole type offset _ => layout.footprint type offset
  | .narrow type memoryType offset _ =>
    .bytes offset (layout.storeSize memoryType) (layout.storeSize type) false
  | .elements parts => .elements (footprints parts)

def footprints : List PieceAccess → List Footprint
  | [] => []
  | part :: parts => footprint part :: footprints parts

end

/-- A load or a store of some bytes, with the alignment it assumes. -/
structure Instruction where
  offset : ℕ
  bytes : ℕ
  alignment : Align

mutual

/-- The loads or the stores of an access. -/
def instructions : PieceAccess → List Instruction
  | .whole type offset alignment => [⟨offset, layout.storeSize type, alignment⟩]
  | .narrow _ memoryType offset alignment => [⟨offset, layout.storeSize memoryType, alignment⟩]
  | .elements parts => allInstructions parts

def allInstructions : List PieceAccess → List Instruction
  | [] => []
  | part :: parts => instructions part ++ allInstructions parts

end

end PieceAccess

namespace NativeAbi

section Pieces

variable (layout : DataLayout) (extent : ℕ) (alignment : Align)

mutual

/-- The accesses that move a piece at `offset` of storage of `extent` bytes. -/
def pieceAccess : LlvmType → ℕ → PieceAccess
  | .array element count, offset =>
    if layout.storeSize (.array element count) ≤ extent - offset then
      .whole (.array element count) offset (commonAlignment alignment offset)
    else
      .elements ((List.range count).map fun i =>
        pieceAccess element (offset + i * layout.allocSize element))
  | .struct identity packed fields, offset =>
    if layout.storeSize (.struct identity packed fields) ≤ extent - offset then
      .whole (.struct identity packed fields) offset (commonAlignment alignment offset)
    else .elements (fieldAccesses packed offset 0 fields)
  | type, offset =>
    if layout.storeSize type ≤ extent - offset then
      .whole type offset (commonAlignment alignment offset)
    else if type.isInteger then
      .narrow type (.int ((extent - offset) * 8)) offset (commonAlignment alignment offset)
    else .elements []

def fieldAccesses (packed : Bool) (base start : ℕ) : List LlvmType → List PieceAccess
  | [] => []
  | field :: fields =>
    pieceAccess field (base + alignTo start (layout.fieldAlign packed field)) ::
      fieldAccesses packed base
        (alignTo start (layout.fieldAlign packed field) + layout.allocSize field) fields

end

/-- The loads of a piece. A part of an integer is extended by zeros. -/
def loadPiece (type : LlvmType) (offset : ℕ) : PieceAccess :=
  pieceAccess layout extent alignment type offset

/-- The stores of a piece. A part of an integer is truncated. -/
def storePiece (type : LlvmType) (offset : ℕ) : PieceAccess :=
  pieceAccess layout extent alignment type offset

end Pieces

/-- Emit the loads of the pieces. -/
def loadNativeABIPieces (access : Access) (value : NativeABIValue) :
    Stateful (List PieceAccess) (List PieceAccess) := do
  Stateful.check (validateAccess access value)
  match access.layout with
  | none => pure []
  | some layout =>
    value.pieces.mapM fun piece => do
      let load := loadPiece layout value.storageSize access.alignment piece.type piece.offset
      modify (· ++ [load])
      pure load

/-- Emit the stores of the pieces, whose values have these types. -/
def storeNativeABIPieces (access : Access) (value : NativeABIValue)
    (pieces : List (Option LlvmType)) : Stateful (List PieceAccess) Unit := do
  Stateful.check (validateAccess access value)
  Stateful.check (ensure (pieces.length = value.pieces.length) "wrong native piece count")
  Stateful.check (ensure (pieces = value.pieces.map fun piece => some piece.type)
    "wrong native piece value type")
  match access.layout with
  | none => pure ()
  | some layout =>
    value.pieces.forM fun piece =>
      modify (· ++ [storePiece layout value.storageSize access.alignment piece.type piece.offset])

/-! ### Accesses as cuts of the piece -/

variable {layout : DataLayout} {extent : ℕ} {alignment : Align}

theorem fieldAccesses_eq (packed : Bool) (base : ℕ) (fields : List LlvmType) :
    ∀ start, fieldAccesses layout extent alignment packed base start fields =
      (layout.elements packed start fields).map fun element =>
        pieceAccess layout extent alignment element.1 (base + element.2) := by
  induction fields with
  | nil => intro start; rfl
  | cons field fields ih =>
    intro start
    rw [fieldAccesses, DataLayout.elements, List.map_cons, ih]

theorem validFieldExtents_iff (packed : Bool) (base : ℕ) (fields : List LlvmType) :
    ∀ start, validFieldExtents layout extent packed base start fields = true ↔
      ∀ element ∈ layout.elements packed start fields,
        validPieceExtent layout extent element.1 (base + element.2) = true := by
  induction fields with
  | nil => simp [validFieldExtents, DataLayout.elements]
  | cons field fields ih =>
    intro start
    rw [validFieldExtents, DataLayout.elements, List.forall_mem_cons, Bool.and_eq_true, ih]

theorem footprints_eq_map (parts : List PieceAccess) :
    PieceAccess.footprints layout parts = parts.map (PieceAccess.footprint layout) := by
  induction parts with
  | nil => rw [PieceAccess.footprints, List.map_nil]
  | cons part parts ih => rw [PieceAccess.footprints, List.map_cons, ih]

theorem allInstructions_eq_flatMap (parts : List PieceAccess) :
    PieceAccess.allInstructions layout parts = parts.flatMap (PieceAccess.instructions layout) := by
  induction parts with
  | nil => rw [PieceAccess.allInstructions, List.flatMap_nil]
  | cons part parts ih => rw [PieceAccess.allInstructions, List.flatMap_cons, ih]

/-- What an access to a valid piece is : the piece cut at the end of the storage, by aligned
instructions inside it. -/
structure PieceOk (layout : DataLayout) (extent : ℕ) (alignment : Align) (type : LlvmType)
    (offset : ℕ) (access : PieceAccess) : Prop where
  offset_lt : offset < extent
  begins : (layout.footprint type offset).Begins extent
  footprint : access.footprint layout = (layout.footprint type offset).cut extent
  inside : ∀ instruction ∈ access.instructions layout, offset ≤ instruction.offset ∧
    instruction.offset + instruction.bytes ≤ offset + min (layout.storeSize type) (extent - offset)
  aligned : ∀ instruction ∈ access.instructions layout, ∀ address, alignment.value ∣ address →
    instruction.alignment.value ∣ address + instruction.offset

theorem pieceOk_whole {type : LlvmType} {offset : ℕ} (hoffset : offset < extent)
    (hsize : layout.storeSize type ≤ extent - offset) :
    PieceOk layout extent alignment type offset
      (.whole type offset (commonAlignment alignment offset)) where
  offset_lt := hoffset
  begins := by
    by_cases haggregate : type.isAggregate = true
    · cases type <;> simp only [LlvmType.isAggregate, Bool.false_eq_true] at haggregate
      all_goals
        rw [DataLayout.footprint, Footprint.Begins]
        exact .inl (by omega)
    · rw [DataLayout.footprint_scalar (by simpa using haggregate), Footprint.Begins]
      exact hoffset
  footprint := by
    rw [PieceAccess.footprint]
    exact ((DataLayout.footprint_within type offset).cut_eq (by omega)).symm
  inside instruction h := by
    obtain rfl := List.mem_singleton.mp (PieceAccess.instructions.eq_1 layout .. ▸ h)
    dsimp only
    omega
  aligned instruction h address haddress := by
    obtain rfl := List.mem_singleton.mp (PieceAccess.instructions.eq_1 layout .. ▸ h)
    exact commonAlignment_dvd haddress offset

theorem pieceOk_narrow {width offset : ℕ} (hoffset : offset < extent)
    (hsize : ¬layout.storeSize (.int width) ≤ extent - offset) :
    PieceOk layout extent alignment (.int width) offset
      (.narrow (.int width) (.int ((extent - offset) * 8)) offset
        (commonAlignment alignment offset)) := by
  have hmemory : layout.storeSize (.int ((extent - offset) * 8)) = extent - offset := by
    rw [DataLayout.storeSize_int]
    omega
  have hwhole : (LlvmType.int width).isBit = false := by
    by_contra hbit
    have : layout.storeSize (.int width) = 1 := DataLayout.storeSize_of_isBit (by simpa using hbit)
    omega
  refine ⟨hoffset, ?_, ?_, fun instruction h => ?_, fun instruction h address haddress => ?_⟩
  · rw [DataLayout.footprint_scalar rfl, Footprint.Begins]
    exact hoffset
  · rw [PieceAccess.footprint, DataLayout.footprint_scalar rfl, Footprint.cut, hmemory, hwhole,
      Nat.min_eq_right (by omega)]
  · obtain rfl := List.mem_singleton.mp (PieceAccess.instructions.eq_2 layout .. ▸ h)
    dsimp only
    omega
  · obtain rfl := List.mem_singleton.mp (PieceAccess.instructions.eq_2 layout .. ▸ h)
    exact commonAlignment_dvd haddress offset

/-- A piece of elements that are each moved in turn. -/
theorem pieceOk_elements (alignment : Align) {type : LlvmType} {offset : ℕ}
    (items : List (LlvmType × ℕ))
    (hoffset : offset < extent) (hsize : ¬layout.storeSize type ≤ extent - offset)
    (hfootprint : layout.footprint type offset = .whole offset (layout.storeSize type)
      (items.map fun item => layout.footprint item.1 item.2))
    (hinside : ∀ item ∈ items, offset ≤ item.2 ∧
      item.2 + layout.storeSize item.1 ≤ offset + layout.storeSize type)
    (h : ∀ item ∈ items, PieceOk layout extent alignment item.1 item.2
      (pieceAccess layout extent alignment item.1 item.2)) :
    PieceOk layout extent alignment type offset
      (.elements (items.map fun item => pieceAccess layout extent alignment item.1 item.2)) := by
  have hitem : ∀ instruction ∈ PieceAccess.instructions layout
      (.elements (items.map fun item => pieceAccess layout extent alignment item.1 item.2)),
      ∃ item ∈ items, instruction ∈ PieceAccess.instructions layout
        (pieceAccess layout extent alignment item.1 item.2) := by
    intro instruction hmem
    rw [PieceAccess.instructions, allInstructions_eq_flatMap, List.flatMap_map] at hmem
    exact List.mem_flatMap.mp hmem
  refine ⟨hoffset, ?_, ?_, fun instruction hmem => ?_, fun instruction hmem => ?_⟩
  · rw [hfootprint, Footprint.Begins]
    refine .inr (Footprint.allBegin_iff.mpr fun part hpart => ?_)
    obtain ⟨item, hitem, rfl⟩ := List.mem_map.mp hpart
    exact (h item hitem).begins
  · rw [hfootprint, Footprint.cut, if_neg (by omega), PieceAccess.footprint, footprints_eq_map,
      Footprint.cutAll_eq_map, List.map_map, List.map_map]
    exact congrArg Footprint.elements (List.map_congr_left fun item hitem =>
      (h item hitem).footprint)
  · obtain ⟨item, hmem, hinstruction⟩ := hitem instruction hmem
    have hstart := hinside item hmem
    have hstop := (h item hmem).inside instruction hinstruction
    have := (h item hmem).offset_lt
    omega
  · obtain ⟨item, hmem, hinstruction⟩ := hitem instruction hmem
    exact (h item hmem).aligned instruction hinstruction

theorem scalarAccess_ok {type : LlvmType} (haggregate : type.isAggregate = false) {offset : ℕ}
    (h : validPieceExtent layout extent type offset = true) :
    PieceOk layout extent alignment type offset
      (pieceAccess layout extent alignment type offset) := by
  have hvalid : (decide (offset < extent) &&
      (decide (layout.storeSize type ≤ extent - offset) || type.isInteger)) = true := by
    cases type <;> first
      | simp [LlvmType.isAggregate] at haggregate; done
      | simpa only [validPieceExtent] using h
  have haccess : pieceAccess layout extent alignment type offset =
      if layout.storeSize type ≤ extent - offset then
        .whole type offset (commonAlignment alignment offset)
      else if type.isInteger then
        .narrow type (.int ((extent - offset) * 8)) offset (commonAlignment alignment offset)
      else .elements [] := by
    cases type <;> first
      | simp [LlvmType.isAggregate] at haggregate; done
      | simp only [pieceAccess]
  simp only [Bool.and_eq_true, Bool.or_eq_true, decide_eq_true_eq] at hvalid
  obtain ⟨hoffset, hvalid⟩ := hvalid
  rw [haccess]
  split
  · next hsize => exact pieceOk_whole hoffset hsize
  · next hsize =>
    have hinteger := hvalid.resolve_left hsize
    rw [if_pos hinteger]
    unfold LlvmType.isInteger at hinteger
    split at hinteger
    · exact pieceOk_narrow hoffset hsize
    · simp at hinteger

mutual

/-- Every valid piece is accessed inside the storage. -/
theorem pieceAccess_ok (alignment : Align) : ∀ (type : LlvmType) (offset : ℕ),
    validPieceExtent layout extent type offset = true →
      PieceOk layout extent alignment type offset
        (pieceAccess layout extent alignment type offset)
  | .array element count, offset, h => by
    rw [validPieceExtent, Bool.and_eq_true, Bool.or_eq_true] at h
    obtain ⟨hoffset, h⟩ := h
    have hoffset : offset < extent := by simpa using hoffset
    rw [pieceAccess]
    split
    · next hsize => exact pieceOk_whole hoffset hsize
    · next hsize =>
      have hall := List.all_eq_true.mp (h.resolve_left (by simpa using hsize))
      have hok := pieceOk_elements alignment
        ((List.range count).map fun i => (element, offset + i * layout.allocSize element))
        hoffset hsize ?_ ?_ ?_
      · rwa [List.map_map] at hok
      · rw [DataLayout.footprint, List.map_map]
        rfl
      · intro item hitem
        obtain ⟨i, hi, rfl⟩ := List.mem_map.mp hitem
        have := DataLayout.stride_le (layout.allocSize element) (List.mem_range.mp hi)
        have : layout.storeSize element ≤ _ := DataLayout.storeSize_le_allocSize element
        rw [DataLayout.storeSize_array]
        dsimp only
        omega
      · intro item hitem
        obtain ⟨i, hi, rfl⟩ := List.mem_map.mp hitem
        exact pieceAccess_ok alignment element _ (hall i hi)
  | .struct identity packed fields, offset, h => by
    rw [validPieceExtent, Bool.and_eq_true, Bool.or_eq_true] at h
    obtain ⟨hoffset, h⟩ := h
    have hoffset : offset < extent := by simpa using hoffset
    rw [pieceAccess]
    split
    · next hsize => exact pieceOk_whole hoffset hsize
    · next hsize =>
      have hall := (validFieldExtents_iff packed offset fields 0).mp
        (h.resolve_left (by simpa using hsize))
      have hok := pieceOk_elements alignment
        ((layout.elements packed 0 fields).map fun element => (element.1, offset + element.2))
        hoffset hsize ?_ ?_ ?_
      · rw [List.map_map] at hok
        rwa [fieldAccesses_eq]
      · rw [DataLayout.footprint_struct, List.map_map]
        rfl
      · intro item hitem
        obtain ⟨element, helement, rfl⟩ := List.mem_map.mp hitem
        have := DataLayout.element_end_le identity helement
        dsimp only
        omega
      · intro item hitem
        obtain ⟨element, helement, rfl⟩ := List.mem_map.mp hitem
        exact fieldAccess_ok alignment fields element.1 (DataLayout.mem_of_mem_elements helement) _
          (hall element helement)
  | .void, offset, h => scalarAccess_ok rfl h
  | .scalar _, offset, h => scalarAccess_ok rfl h
  | .vector _ _, offset, h => scalarAccess_ok rfl h
  | .unsized _, offset, h => scalarAccess_ok rfl h

theorem fieldAccess_ok (alignment : Align) : ∀ (fields : List LlvmType), ∀ field ∈ fields, ∀ offset,
    validPieceExtent layout extent field offset = true →
      PieceOk layout extent alignment field offset
        (pieceAccess layout extent alignment field offset)
  | [], _, hmem, _, _ => by simp at hmem
  | first :: fields, field, hmem, offset, h => by
    rcases List.mem_cons.mp hmem with hmem | hmem
    · rw [hmem] at h ⊢
      exact pieceAccess_ok alignment first offset h
    · exact fieldAccess_ok alignment fields field hmem offset h

end

/-! ## What the access check promises -/

theorem validatePieces_stop {layout : DataLayout} {extent : ℕ} {pieces : List NativeABIPiece} :
    ∀ {stop}, validatePieces layout extent stop pieces = .ok () →
      ∀ piece ∈ pieces, stop ≤ piece.offset := by
  induction pieces with
  | nil => simp
  | cons first pieces ih =>
    intro stop h piece hpiece
    simp only [validatePieces, Checked.bind_ok, ensure_ok] at h
    obtain ⟨-, -, -, ⟨hstop, -⟩, h⟩ := h
    rcases List.mem_cons.mp hpiece with rfl | hpiece
    · exact hstop
    · have := ih h piece hpiece
      omega

theorem validatePieces_pairwise {layout : DataLayout} {extent : ℕ} {pieces : List NativeABIPiece} :
    ∀ {stop}, validatePieces layout extent stop pieces = .ok () →
      pieces.Pairwise fun a b => a.offset + accessSize layout extent a ≤ b.offset := by
  induction pieces with
  | nil => intro stop _; exact .nil
  | cons first pieces ih =>
    intro stop h
    simp only [validatePieces, Checked.bind_ok, ensure_ok] at h
    obtain ⟨-, -, -, -, h⟩ := h
    exact .cons (validatePieces_stop h) (ih h)

theorem validatePieces_forall {layout : DataLayout} {extent : ℕ} {pieces : List NativeABIPiece} :
    ∀ {stop}, validatePieces layout extent stop pieces = .ok () → ∀ piece ∈ pieces,
      validPieceType piece.type 0 = true ∧
        validPieceExtent layout extent piece.type piece.offset = true := by
  induction pieces with
  | nil => simp
  | cons first pieces ih =>
    intro stop h
    simp only [validatePieces, Checked.bind_ok, ensure_ok] at h
    obtain ⟨-, hvalid, -, ⟨-, hextent⟩, h⟩ := h
    exact List.forall_mem_cons.mpr ⟨⟨hvalid, hextent⟩, ih h⟩

theorem exists_layout_of_validateAccess {access : Access} {value : NativeABIValue}
    (h : validateAccess access value = .ok ()) : ∃ layout, access.layout = some layout := by
  rcases hlayout : access.layout with _ | layout
  · simp [validateAccess, hlayout, Checked.bind_ok] at h
  · exact ⟨layout, rfl⟩

/-- A descriptor that the access check accepts is loadable. -/
theorem loadable_of_validateAccess {access : Access} {value : NativeABIValue}
    {layout : DataLayout} (hlayout : access.layout = some layout)
    (h : validateAccess access value = .ok ()) : Loadable layout value := by
  rw [validateAccess, hlayout] at h
  simp only [Checked.bind_ok, ensure_ok] at h
  obtain ⟨-, -, -, -, -, ⟨hsized, -, hnonempty, -⟩, -, hsize, h⟩ := h
  have hall := validatePieces_forall h
  exact
    { sized := hsized
      size := hsize
      nonempty := hnonempty
      types := fun piece hpiece => (hall piece hpiece).1
      inside := fun piece hpiece =>
        (pieceAccess_ok (.of 1) piece.type _ (hall piece hpiece).2).offset_lt
      extents := fun piece hpiece => (hall piece hpiece).2
      ordered := validatePieces_pairwise h }

/-! ## Emission -/

/-- The accesses to the pieces of a descriptor. -/
def accesses (layout : DataLayout) (alignment : Align) (value : NativeABIValue) :
    List PieceAccess :=
  value.pieces.map fun piece =>
    pieceAccess layout value.storageSize alignment piece.type piece.offset

theorem exec_mapM_emit {α : Type} (f : α → PieceAccess) (xs : List α) :
    ∀ emitted, Stateful.exec (xs.mapM fun x => (do
      modify (· ++ [f x])
      pure (f x) : Stateful (List PieceAccess) PieceAccess)) emitted =
        (.ok (xs.map f), emitted ++ xs.map f) := by
  induction xs with
  | nil => intro emitted; simp
  | cons x xs ih =>
    intro emitted
    rw [List.mapM_cons, Stateful.exec_bind, Stateful.exec_bind, Stateful.exec_modify]
    dsimp only
    rw [Stateful.exec_pure]
    dsimp only
    rw [Stateful.exec_bind, ih]
    simp

theorem exec_forM_emit {α : Type} (f : α → PieceAccess) (xs : List α) :
    ∀ emitted, Stateful.exec (xs.forM fun x =>
      (modify (· ++ [f x]) : Stateful (List PieceAccess) Unit)) emitted =
        (.ok (), emitted ++ xs.map f) := by
  induction xs with
  | nil =>
    intro emitted
    rw [show ([] : List α).forM _ = (pure () : Stateful (List PieceAccess) Unit) from rfl]
    simp
  | cons x xs ih =>
    intro emitted
    rw [show (x :: xs).forM (fun x => (modify (· ++ [f x]) : Stateful (List PieceAccess) Unit)) =
        (modify (· ++ [f x]) >>= fun _ => xs.forM fun x => modify (· ++ [f x])) from
      List.forM_cons .., Stateful.exec_bind, Stateful.exec_modify]
    dsimp only
    rw [ih]
    simp

/-- Loads are emitted once the access is valid, and else nothing is. -/
theorem exec_loadNativeABIPieces (access : Access) (value : NativeABIValue)
    (emitted : List PieceAccess) :
    Stateful.exec (loadNativeABIPieces access value) emitted =
      match validateAccess access value, access.layout with
      | .error message, _ => (.error message, emitted)
      | .ok _, none => (.ok [], emitted)
      | .ok _, some layout =>
        (.ok (accesses layout access.alignment value),
          emitted ++ accesses layout access.alignment value) := by
  rw [loadNativeABIPieces, Stateful.exec_check_bind]
  rcases validateAccess access value with message | _
  · rfl
  · rcases access.layout with _ | layout
    · rfl
    · exact exec_mapM_emit _ _ _

/-- Stores are emitted when the access and the values are valid. -/
theorem exec_storeNativeABIPieces {access : Access} {value : NativeABIValue} {layout : DataLayout}
    (hlayout : access.layout = some layout) (h : validateAccess access value = .ok ())
    (emitted : List PieceAccess) :
    Stateful.exec (storeNativeABIPieces access value
        (value.pieces.map fun piece => some piece.type)) emitted =
      (.ok (), emitted ++ accesses layout access.alignment value) := by
  rw [storeNativeABIPieces, Stateful.exec_check_bind, h]
  dsimp only
  rw [Stateful.exec_check_bind, ensure, Checked.ensure, if_pos (List.length_map _)]
  dsimp only
  rw [Stateful.exec_check_bind, ensure, Checked.ensure, if_pos rfl]
  dsimp only
  rw [hlayout]
  exact exec_forM_emit _ _ _

/-- Nothing is stored on an error. -/
theorem exec_storeNativeABIPieces_error {access : Access} {value : NativeABIValue}
    {pieces : List (Option LlvmType)} {emitted emitted' : List PieceAccess} {message : String}
    (h : Stateful.exec (storeNativeABIPieces access value pieces) emitted =
      (.error message, emitted')) : emitted' = emitted := by
  rw [storeNativeABIPieces, Stateful.exec_check_bind] at h
  rcases hvalid : validateAccess access value with message | _
  · rw [hvalid] at h
    exact (Prod.mk.inj h).2.symm
  rw [hvalid] at h
  dsimp only at h
  rw [Stateful.exec_check_bind] at h
  rcases hcount : ensure (pieces.length = value.pieces.length) "wrong native piece count"
    with message | _
  · rw [hcount] at h
    exact (Prod.mk.inj h).2.symm
  rw [hcount] at h
  dsimp only at h
  rw [Stateful.exec_check_bind] at h
  rcases htypes : ensure (pieces = value.pieces.map fun piece => some piece.type)
    "wrong native piece value type" with message | _
  · rw [htypes] at h
    exact (Prod.mk.inj h).2.symm
  rw [htypes] at h
  dsimp only at h
  rcases hlayout : access.layout with _ | layout
  · simp [hlayout] at h
  · rw [hlayout, show Stateful.exec (value.pieces.forM fun piece =>
      modify (· ++ [storePiece layout value.storageSize access.alignment piece.type piece.offset]))
        emitted = _ from exec_forM_emit _ _ _] at h
    simp at h

/-! ## What the accesses move -/

/-- The pieces of a descriptor, each as a whole. -/
def pieceFootprints (layout : DataLayout) (value : NativeABIValue) : List Footprint :=
  value.pieces.map fun piece => layout.footprint piece.type piece.offset

section Moves

variable {β : Type} {value : NativeABIValue}

theorem Loadable.pieceOk (h : Loadable layout value) (alignment : Align) {piece : NativeABIPiece}
    (hpiece : piece ∈ value.pieces) :
    PieceOk layout value.storageSize alignment piece.type piece.offset
      (pieceAccess layout value.storageSize alignment piece.type piece.offset) :=
  pieceAccess_ok alignment piece.type piece.offset (h.extents piece hpiece)

/-- The accesses are the pieces cut at the end of the storage. -/
theorem Loadable.footprints (h : Loadable layout value) (alignment : Align) :
    PieceAccess.footprints layout (accesses layout alignment value) =
      Footprint.cutAll value.storageSize (pieceFootprints layout value) := by
  rw [footprints_eq_map, Footprint.cutAll_eq_map, accesses, pieceFootprints, List.map_map,
    List.map_map]
  exact List.map_congr_left fun piece hpiece => (h.pieceOk alignment hpiece).footprint

theorem Loadable.begins (h : Loadable layout value) :
    Footprint.AllBegin value.storageSize (pieceFootprints layout value) := by
  refine Footprint.allBegin_iff.mpr fun part hpart => ?_
  obtain ⟨piece, hpiece, rfl⟩ := List.mem_map.mp hpart
  exact (h.pieceOk (.of 1) hpiece).begins

/-- The pieces follow one another. Only the last may reach past the storage. -/
theorem Loadable.sequence (h : Loadable layout value) {hi : ℕ}
    (hhi : ∀ piece ∈ value.pieces, piece.offset + layout.storeSize piece.type ≤ hi) :
    Footprint.Sequence (pieceFootprints layout value) 0 hi := by
  refine Footprint.sequence_of_pairwise _ _ (fun piece _ => DataLayout.footprint_within _ _)
    (h.ordered.imp_of_mem fun {a b} ha hb hab => ?_) hhi (fun _ _ => Nat.zero_le _) (Nat.zero_le _)
  have := h.inside a ha
  have := h.inside b hb
  simp only [accessSize] at hab
  omega

/-- Storage where every piece ends. -/
def reach (layout : DataLayout) (value : NativeABIValue) : ℕ :=
  (value.pieces.map fun piece => piece.offset + layout.storeSize piece.type).sum

theorem le_reach {piece : NativeABIPiece} (hpiece : piece ∈ value.pieces) :
    piece.offset + layout.storeSize piece.type ≤ reach layout value :=
  List.single_le_sum (by simp) _ (List.mem_map_of_mem hpiece)

theorem Loadable.sequence_cut (h : Loadable layout value) :
    Footprint.Sequence (Footprint.cutAll value.storageSize (pieceFootprints layout value)) 0
      value.storageSize :=
  ((h.sequence fun _ => le_reach).cut h.begins).mono (by omega) (by omega)

/-- The pieces of storage are loaded : their data bytes are those of the storage, and what is
past its end is zero. -/
theorem Loadable.loads (h : Loadable layout value) (alignment : Align) (encoding : Encoding β)
    {source : List β} (hsource : source.length = value.storageSize) :
    ∃ values, Footprint.loadAll encoding source
        (PieceAccess.footprints layout (accesses layout alignment value)) = some values ∧
      ∀ p < value.storageSize, Footprint.AnyData (pieceFootprints layout value) p →
        Footprint.ReadsByte encoding (Footprint.AnyBit (pieceFootprints layout value) p) source[p]?
          (Footprint.anyByte? encoding
            (PieceAccess.footprints layout (accesses layout alignment value)) values p) := by
  obtain ⟨values, hvalues, -, hbytes⟩ := Footprint.loadsAll encoding h.sequence_cut hsource.ge
  rw [← h.footprints alignment] at hvalues hbytes
  refine ⟨values, hvalues, fun p hp hdata => ?_⟩
  have hsequence := h.sequence fun piece hpiece => le_reach hpiece
  rw [h.footprints] at hbytes ⊢
  exact (hbytes p ((Footprint.anyData_cut hsequence).mpr ⟨hdata, hp⟩)).congr
    (Footprint.anyBit_cut hp).symm

/-- The values that are loaded have the bytes of the pieces. -/
theorem Loadable.fits (h : Loadable layout value) (alignment : Align) (encoding : Encoding β)
    {source : List β} (hsource : source.length = value.storageSize)
    {values : List (TypedValue β)} (hvalues : Footprint.loadAll encoding source
      (PieceAccess.footprints layout (accesses layout alignment value)) = some values) :
    Footprint.FitAll (PieceAccess.footprints layout (accesses layout alignment value)) values := by
  obtain ⟨values', hvalues', hfits, -⟩ := Footprint.loadsAll encoding h.sequence_cut hsource.ge
  rw [← h.footprints alignment, hvalues] at hvalues'
  obtain rfl := Option.some.inj hvalues'
  rwa [h.footprints]

/-- Where the first byte is the least significant, the values are those of the whole pieces in the
storage extended by zeros. -/
theorem Loadable.loads_extended (h : Loadable layout value) (alignment : Align)
    {encoding : Encoding β} (hlittle : encoding.bigEndian = false) {source : List β}
    (hsource : source.length = value.storageSize) {k : ℕ} (hk : ∀ piece ∈ value.pieces,
      piece.offset + layout.storeSize piece.type ≤ value.storageSize + k) :
    Footprint.loadAll encoding source
        (PieceAccess.footprints layout (accesses layout alignment value)) =
      Footprint.loadAll encoding (source ++ List.replicate k encoding.zero)
        (pieceFootprints layout value) := by
  rw [h.footprints alignment, ← hsource]
  exact Footprint.loadAll_cut hlittle (h.sequence hk) (hsource ▸ h.begins) (by rw [hsource])

/-- The byte is inside a piece. -/
def InPieces (layout : DataLayout) (value : NativeABIValue) (p : ℕ) : Prop :=
  ∃ piece ∈ value.pieces, piece.offset ≤ p ∧
    p < piece.offset + accessSize layout value.storageSize piece

theorem Loadable.inPieces (h : Loadable layout value) {p : ℕ}
    (hp : Footprint.AnyCovers
      (Footprint.cutAll value.storageSize (pieceFootprints layout value)) p) :
    InPieces layout value p := by
  obtain ⟨part, hpart, hcovers⟩ := Footprint.anyCovers_iff.mp hp
  rw [Footprint.cutAll_eq_map, pieceFootprints, List.map_map] at hpart
  obtain ⟨piece, hpiece, rfl⟩ := List.mem_map.mp hpart
  have hinside := h.inside piece hpiece
  have hwithin := ((DataLayout.footprint_within piece.type piece.offset).cut
    (h.pieceOk (.of 1) hpiece).begins).covers hcovers
  refine ⟨piece, hpiece, ?_, ?_⟩
  · omega
  · rw [accessSize]
    omega

/-- Values of the pieces are stored : the data bytes inside the storage are those of the
values, other bytes inside the pieces may become undefined, and the rest is left. -/
theorem Loadable.stores (h : Loadable layout value) (alignment : Align) (encoding : Encoding β)
    {values : List (TypedValue β)} {storage : List β}
    (hfits : Footprint.FitAll
      (PieceAccess.footprints layout (accesses layout alignment value)) values)
    (hstorage : storage.length = value.storageSize) :
    ∃ storage', Footprint.storeAll encoding
        (PieceAccess.footprints layout (accesses layout alignment value)) values storage =
          some storage' ∧
      Footprint.Stored encoding.undef
        (fun p => Footprint.AnyData (pieceFootprints layout value) p ∧ p < value.storageSize)
        (InPieces layout value)
        (Footprint.anyByte? encoding
          (PieceAccess.footprints layout (accesses layout alignment value)) values)
        storage storage' := by
  have hsequence := h.sequence fun piece hpiece => le_reach hpiece
  rw [h.footprints] at hfits ⊢
  obtain ⟨storage', hrun, hstored⟩ :=
    Footprint.storesAll encoding h.sequence_cut hfits hstorage.ge
  exact ⟨storage', hrun, hstored.length,
    fun p hp => hstored.data p ((Footprint.anyData_cut hsequence).mpr hp),
    fun p hp => hstored.padding p fun hdata => hp ((Footprint.anyData_cut hsequence).mp hdata),
    fun p hp => hstored.outside p fun hcovers => hp (h.inPieces hcovers)⟩

end Moves

/-- The instructions of an access lie inside its piece and inside the storage, and the
alignment of each is one of its address. -/
structure Exact (layout : DataLayout) (alignment : Align) (value : NativeABIValue)
    (piece : NativeABIPiece) (access : PieceAccess) : Prop where
  inside : ∀ instruction ∈ access.instructions layout, piece.offset ≤ instruction.offset ∧
    instruction.offset + instruction.bytes ≤
      piece.offset + accessSize layout value.storageSize piece
  storage : ∀ instruction ∈ access.instructions layout,
    instruction.offset + instruction.bytes ≤ value.storageSize
  aligned : ∀ instruction ∈ access.instructions layout, ∀ address,
    alignment.value ∣ address → instruction.alignment.value ∣ address + instruction.offset

/-- What accesses move between storage and the values of the pieces. -/
structure Moves {β : Type} (layout : DataLayout) (value : NativeABIValue)
    (moved : List PieceAccess) (encoding : Encoding β) : Prop where
  /-- An access is to its piece, cut at the end of the storage : of a scalar that reaches past it
  the low bytes are moved, in the order of the layout, and the others are zero. -/
  cut : PieceAccess.footprints layout moved =
    Footprint.cutAll value.storageSize (pieceFootprints layout value)
  /-- The pieces of any storage are loaded, in little-endian order as the whole pieces of the
  storage extended by zeros. -/
  loads : ∀ source : List β, source.length = value.storageSize →
    ∃ values, Footprint.loadAll encoding source (PieceAccess.footprints layout moved) = some values ∧
      Footprint.FitAll (PieceAccess.footprints layout moved) values ∧
      (layout.bigEndian = false → ∀ k, (∀ piece ∈ value.pieces,
          piece.offset + layout.storeSize piece.type ≤ value.storageSize + k) →
        Footprint.loadAll encoding (source ++ List.replicate k encoding.zero)
          (pieceFootprints layout value) = some values)
  /-- The bytes of the values inside the storage are stored. -/
  stores : ∀ (values : List (TypedValue β)) (storage : List β),
    Footprint.FitAll (PieceAccess.footprints layout moved) values →
    storage.length = value.storageSize →
    ∃ storage', Footprint.storeAll encoding (PieceAccess.footprints layout moved) values storage =
        some storage' ∧
      Footprint.Stored encoding.undef
        (fun p => Footprint.AnyData (pieceFootprints layout value) p ∧ p < value.storageSize)
        (InPieces layout value)
        (Footprint.anyByte? encoding (PieceAccess.footprints layout moved) values) storage storage'
  /-- What was loaded from one object and stored into another is a copy of the data bytes, with
  the byte of a bit as the bit is read. -/
  copies : ∀ source storage : List β, source.length = value.storageSize →
    storage.length = value.storageSize →
    ∃ values storage',
      Footprint.loadAll encoding source (PieceAccess.footprints layout moved) = some values ∧
      Footprint.storeAll encoding (PieceAccess.footprints layout moved) values storage =
        some storage' ∧
      Footprint.Copied encoding
        (fun p => Footprint.AnyData (pieceFootprints layout value) p ∧ p < value.storageSize)
        (Footprint.AnyBit (pieceFootprints layout value)) (InPieces layout value) source storage
        storage'

theorem Loadable.exact (h : Loadable layout value) (alignment : Align) :
    List.Forall₂ (Exact layout alignment value) value.pieces (accesses layout alignment value) := by
  rw [accesses, List.forall₂_map_right_iff, List.forall₂_same]
  intro piece hpiece
  have hok := h.pieceOk alignment hpiece
  have hoffset := h.inside piece hpiece
  refine ⟨hok.inside, fun instruction hmem => ?_, hok.aligned⟩
  have := (hok.inside instruction hmem).2
  omega

theorem Loadable.moves {β : Type} (h : Loadable layout value) (alignment : Align)
    {encoding : Encoding β} (horder : encoding.bigEndian = layout.bigEndian) :
    Moves layout value (accesses layout alignment value) encoding where
  cut := h.footprints alignment
  loads source hsource := by
    obtain ⟨values, hvalues, -⟩ := h.loads alignment encoding hsource
    exact ⟨values, hvalues, h.fits alignment encoding hsource hvalues, fun hlittle k hk =>
      (h.loads_extended alignment (horder.trans hlittle) hsource hk).symm.trans hvalues⟩
  stores _ _ hfits hstorage := h.stores alignment encoding hfits hstorage
  copies source storage hsource hstorage := by
    obtain ⟨values, hvalues, hbytes⟩ := h.loads alignment encoding hsource
    obtain ⟨storage', hrun, hstored⟩ :=
      h.stores alignment encoding (h.fits alignment encoding hsource hvalues) hstorage
    refine ⟨values, storage', hvalues, hrun, hstored.length, fun p hp => ?_, hstored.padding,
      hstored.outside⟩
    rw [hstored.data p hp]
    exact hbytes p hp.2 hp.1

/-- Bytes that may be undefined. A bit is read only where one was stored. -/
def defined (layout : DataLayout) : Encoding (Option ℕ) where
  zero := some 0
  undef := none
  bit byte := if byte = some 0 ∨ byte = some 1 then byte else none
  bigEndian := layout.bigEndian

/-- A bit, and an integer that reaches past the end of the storage. -/
def roundedPieces : NativeABIValue :=
  { NativeABIValue.blank (.struct none false [.int 8, .int 8, .int 8]) with
    kind := .coerce
    storageSize := 3
    storageAlignment := .of 1
    abiAlignment := .of 1
    pieces := [⟨.int 1, 0⟩, ⟨.int 32, 1⟩]
    nativeCount := 2 }

def roundedAccess : Access := ⟨true, true, true, some NativeTarget.x86_64.layout, .of 1⟩

/-- A record with padding that is one piece. -/
def paddedPiece : NativeABIValue :=
  { NativeABIValue.blank (.struct none false [.int 8, .int 32]) with
    kind := .coerce
    storageSize := 8
    storageAlignment := .of 4
    abiAlignment := .of 4
    pieces := [⟨.struct none false [.int 8, .int 32], 0⟩]
    nativeCount := 1 }

def paddedAccess : Access := ⟨true, true, true, some NativeTarget.x86_64.layout, .of 4⟩

end NativeAbi
end Sela
