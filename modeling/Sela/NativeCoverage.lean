import Sela.NativeArmHomogeneous
import Sela.NativePieces
import Sela.NativeSignature

/-!
# Records that cross a call

The pieces that a classifier gives a record hold its data : every byte of a scalar of the record
is one of a piece, and no piece holds a single bit (`NativeABIValue.Covered`). On x86 the pieces
are eightbytes or fields, on ARM the record itself, an array of its members, or integers that
reach past its end.

* every signature of ordered records is covered (`NativeTarget.classify_covered`);
* so a record that is loaded on one side of a call and stored on the other arrives whole
  (`classifyNativeABI_carries`).
-/

namespace Sela

open NativeAbi

/-! ## Data bytes -/

namespace DataLayout

variable {layout : DataLayout}

theorem data_scalar {type : LlvmType} (h : type.isAggregate = false) {offset p : ℕ} :
    (layout.footprint type offset).Data p ↔ offset ≤ p ∧ p < offset + layout.storeSize type := by
  rw [footprint_scalar h, Footprint.Data]

theorem data_array {element : LlvmType} {count offset p : ℕ} :
    (layout.footprint (.array element count) offset).Data p ↔
      ∃ i < count, (layout.footprint element (offset + i * layout.allocSize element)).Data p := by
  rw [footprint, Footprint.Data, Footprint.anyData_iff]
  simp only [List.mem_map, List.mem_range, exists_exists_and_eq_and]

theorem data_struct {identity : Option String} {packed : Bool} {fields : List LlvmType}
    {offset p : ℕ} :
    (layout.footprint (.struct identity packed fields) offset).Data p ↔
      ∃ element ∈ layout.elements packed 0 fields,
        (layout.footprint element.1 (offset + element.2)).Data p := by
  rw [footprint_struct, Footprint.Data, Footprint.anyData_iff]
  simp only [List.mem_map, exists_exists_and_eq_and]

theorem isData_lt {type : LlvmType} {p : ℕ} (h : layout.IsData type p) :
    p < layout.allocSize type := by
  have hwithin := (footprint_within type 0).data h
  have hstore : layout.storeSize type ≤ _ := storeSize_le_allocSize type
  omega

/-- An array of scalars without padding has no byte that is not data. -/
theorem data_packed_array {element : LlvmType} (hscalar : element.isAggregate = false)
    (hpadding : layout.storeSize element = layout.allocSize element)
    {count p : ℕ} (hp : p < count * layout.allocSize element) :
    (layout.footprint (.array element count) 0).Data p := by
  have hpos : 0 < layout.allocSize element := by
    by_contra hzero
    simp [Nat.eq_zero_of_not_pos hzero] at hp
  have hmod := Nat.mod_lt p hpos
  have hdiv := Nat.div_add_mod p (layout.allocSize element)
  rw [data_array]
  refine ⟨p / layout.allocSize element, (Nat.div_lt_iff_lt_mul hpos).mpr hp, ?_⟩
  rw [data_scalar hscalar, hpadding, Nat.zero_add, Nat.mul_comm]
  omega

/-- No byte of an array of scalars that are no bits is one of a bit. -/
theorem not_isBit_array {element : LlvmType} (hscalar : element.isAggregate = false)
    (hbit : element.isBit = false) {count offset p : ℕ} :
    ¬(layout.footprint (.array element count) offset).IsBit p := by
  rw [footprint, Footprint.IsBit, Footprint.anyBit_iff]
  rintro ⟨part, hpart, h⟩
  obtain ⟨i, -, rfl⟩ := List.mem_map.mp hpart
  rw [footprint_scalar hscalar, Footprint.IsBit, hbit] at h
  simp at h

end DataLayout

theorem LlvmType.isBit_bytes (bytes : ℕ) : (LlvmType.int (bytes * 8)).isBit = false := by
  unfold LlvmType.isBit
  split
  · next h => simp [LlvmType.int] at h
  · rfl

/-! ## Pieces -/

theorem anyData_pieces {layout : DataLayout} {value : NativeABIValue} {p : ℕ} :
    Footprint.AnyData (pieceFootprints layout value) p ↔
      ∃ piece ∈ value.pieces, (layout.footprint piece.type piece.offset).Data p := by
  rw [pieceFootprints, Footprint.anyData_iff]
  simp only [List.mem_map, exists_exists_and_eq_and]

theorem anyBit_pieces {layout : DataLayout} {value : NativeABIValue} {p : ℕ} :
    Footprint.AnyBit (pieceFootprints layout value) p ↔
      ∃ piece ∈ value.pieces, (layout.footprint piece.type piece.offset).IsBit p := by
  rw [pieceFootprints, Footprint.anyBit_iff]
  simp only [List.mem_map, exists_exists_and_eq_and]

/-- The pieces of a record that crosses in them hold its data, and none holds a single bit. -/
structure NativeABIValue.Covered (layout : DataLayout) (value : NativeABIValue) : Prop where
  data : value.storageType.isStruct = true → value.kind ≠ .indirect →
    ∀ p, layout.IsData value.storageType p → Footprint.AnyData (pieceFootprints layout value) p
  bits : value.storageType.isStruct = true → value.kind ≠ .indirect →
    ∀ piece ∈ value.pieces, ∀ p, ¬(layout.footprint piece.type piece.offset).IsBit p

theorem NativeABIValue.Covered.of_not_struct {layout : DataLayout} {value : NativeABIValue}
    (h : value.storageType.isStruct = false) : value.Covered layout where
  data hstruct := by simp [h] at hstruct
  bits hstruct := by simp [h] at hstruct

theorem NativeABIValue.Covered.of_indirect {layout : DataLayout} {value : NativeABIValue}
    (h : value.kind = .indirect) : value.Covered layout where
  data _ hkind := absurd h hkind
  bits _ hkind := absurd h hkind

/-- Scalar pieces that are no bits hold the data when each byte of it is in one. -/
theorem NativeABIValue.Covered.of_scalars {layout : DataLayout} {value : NativeABIValue}
    (hscalar : ∀ piece ∈ value.pieces, piece.type.isAggregate = false ∧ piece.type.isBit = false)
    (hdata : ∀ p, layout.IsData value.storageType p → ∃ piece ∈ value.pieces, piece.offset ≤ p ∧
      p < piece.offset + layout.storeSize piece.type) : value.Covered layout where
  data _ _ p hp := by
    obtain ⟨piece, hpiece, hstart, hstop⟩ := hdata p hp
    exact anyData_pieces.mpr
      ⟨piece, hpiece, (DataLayout.data_scalar (hscalar piece hpiece).1).mpr ⟨hstart, hstop⟩⟩
  bits _ _ piece hpiece p := by
    rw [DataLayout.footprint_scalar (hscalar piece hpiece).1, Footprint.IsBit,
      (hscalar piece hpiece).2]
    simp

/-! ## x86 -/

namespace NativeX86Abi

variable {x64 : Bool} {records : List StructType}

/-- Every data byte of qualified storage belongs to a leaf. -/
theorem data_leaf {type : LlvmType} (h : Qualified (layout x64) records type) :
    ∀ {offset p : ℕ}, ((layout x64).footprint type offset).Data p →
      ∃ leaf ∈ leaves x64 type offset, leaf.offset ≤ p ∧ p < leaf.offset + leaf.size := by
  induction h with
  | scalar type h =>
    intro offset p hp
    have haggregate : type.isAggregate = false := by
      cases type <;> simp_all [scalar, LlvmType.isAggregate]
    rw [DataLayout.data_scalar haggregate] at hp
    exact ⟨_, by rw [leaves_of_scalar h]; exact List.mem_singleton_self _, hp⟩
  | array element count _ _ _ _ ih =>
    intro offset p hp
    rw [DataLayout.data_array] at hp
    obtain ⟨i, hi, hp⟩ := hp
    obtain ⟨leaf, hleaf, hbounds⟩ := ih hp
    refine ⟨leaf, ?_, hbounds⟩
    rw [leaves]
    exact List.mem_flatMap.mpr ⟨i, List.mem_range.mpr hi, hleaf⟩
  | struct identity fields _ _ _ _ _ ih =>
    intro offset p hp
    rw [DataLayout.data_struct] at hp
    obtain ⟨element, helement, hp⟩ := hp
    obtain ⟨leaf, hleaf, hbounds⟩ := ih element.1 (DataLayout.mem_of_mem_elements helement) hp
    refine ⟨leaf, ?_, hbounds⟩
    rw [leaves, fieldLeaves_eq]
    exact List.mem_flatMap.mpr ⟨element, helement, hleaf⟩

/-! ### Eightbytes -/

/-- The pieces that an eightbyte may have. -/
def eightbyteTypes : List LlvmType :=
  fieldScalars ++ (List.range' 1 8).map (fun bytes => .int (8 * bytes)) ++
    [.vector (.floating .float) 2]

/-- The piece of an eightbyte holds its leaves. -/
structure EightbyteData (layout : DataLayout) (offset : ℕ) (leaves : List Leaf) (type : LlvmType) :
    Prop where
  mem : type ∈ eightbyteTypes
  covers : ∀ leaf ∈ leaves, leaf.offset + leaf.size ≤ offset + layout.storeSize type

theorem eightbytePiece_data {size offset : ℕ} {leaves : List Leaf} {piece : LlvmType}
    (h : eightbytePiece size offset leaves = .ok piece)
    (hwithin : ∀ leaf ∈ leaves, leaf.Within (layout x64) offset (min size (offset + 8))) :
    EightbyteData (layout x64) offset leaves piece := by
  have hsingle : ∀ leaf ∈ leaves, leaves = [leaf] → leaf.offset = offset →
      EightbyteData (layout x64) offset leaves leaf.type := by
    intro leaf hmem hleaves hoffset
    obtain ⟨hscalar, hsize, -, -⟩ := hwithin leaf hmem
    refine ⟨?_, fun other hother => ?_⟩
    · have := scalar_field_iff.mp hscalar
      simp only [eightbyteTypes, List.mem_append]
      exact .inl (.inl this)
    · obtain rfl : other = leaf := by simpa [hleaves] using hother
      omega
  rcases leaves with _ | ⟨first, rest⟩
  · simp [eightbytePiece] at h
  simp only [eightbytePiece] at h
  split_ifs at h with hany hfirst
  · obtain rfl : first.type = piece := by simpa using h
    exact hsingle first (by simp) (by rw [hfirst.1]) hfirst.2.1
  · -- the integer of all bytes of the eightbyte that the record has
    obtain rfl : LlvmType.int (8 * min 8 (size - offset)) = piece := by simpa using h
    obtain ⟨hscalar, hsize, hstart, hstop⟩ := hwithin first (by simp)
    obtain ⟨hpos, -, -, -⟩ := fieldScalar_spec x64 hscalar
    have hmin : 1 ≤ min 8 (size - offset) ∧ min 8 (size - offset) < 1 + 8 := by omega
    refine ⟨?_, fun leaf hleaf => ?_⟩
    · simp only [eightbyteTypes, List.mem_append, List.mem_map, List.mem_range'_1]
      exact .inl (.inr ⟨_, hmin, rfl⟩)
    · obtain ⟨-, -, hstart, hstop⟩ := hwithin leaf hleaf
      rw [(bytes_spec (layout x64) (Nat.min_le_left 8 (size - offset))).2]
      omega
  · obtain ⟨_, hstart, h⟩ := Checked.bind_ok.mp h
    rw [ensure_ok] at hstart
    rcases rest with _ | ⟨second, _ | ⟨third, rest⟩⟩
    · obtain rfl : first.type = piece := by simpa using h
      exact hsingle first (by simp) rfl hstart
    · obtain ⟨_, hpair, h⟩ := Checked.bind_ok.mp h
      rw [ensure_ok] at hpair
      obtain rfl : LlvmType.vector (.floating .float) 2 = piece := by simpa using h
      have hvector : (layout x64).storeSize (.vector (.floating .float) 2) = 8 := by
        cases x64 <;> rfl
      refine ⟨by simp [eightbyteTypes], fun leaf hleaf => ?_⟩
      obtain ⟨-, -, -, hstop⟩ := hwithin leaf hleaf
      omega
    · simp at h

/-- Each data byte of a record lies in the piece of its eightbyte. -/
theorem eightbytes_data {type : LlvmType} (h : Qualified (layout x64) records type)
    {classes : List (NativeABIPiece × Bool)}
    (hclasses : (eightbyteOffsets ((layout x64).allocSize type)).mapM
      (eightbyte ((layout x64).allocSize type) (leaves x64 type 0)) = .ok classes) :
    (∀ entry ∈ classes, entry.1.type ∈ eightbyteTypes) ∧
      ∀ p, (layout x64).IsData type p → ∃ entry ∈ classes, entry.1.offset ≤ p ∧
        p < entry.1.offset + (layout x64).storeSize entry.1.type := by
  have heach : ∀ offset ∈ eightbyteOffsets ((layout x64).allocSize type), ∀ entry,
      eightbyte ((layout x64).allocSize type) (leaves x64 type 0) offset = .ok entry →
        entry.1.offset = offset ∧ EightbyteData (layout x64) offset
          ((leaves x64 type 0).filter (Leaf.meets offset)) entry.1.type := by
    intro offset _ entry hentry
    simp only [eightbyte, Checked.bind_ok, Checked.pure_eq_ok, Except.ok.injEq] at hentry
    obtain ⟨chunk, hchunk, piece, hpiece, rfl⟩ := hentry
    obtain ⟨hfilter, hinside⟩ := chunk_ok.mp hchunk
    rw [← hfilter]
    refine ⟨rfl, eightbytePiece_data hpiece fun leaf hleaf => ?_⟩
    have hmem : leaf ∈ leaves x64 type 0 := by
      rw [hfilter] at hleaf
      exact (List.mem_filter.mp hleaf).1
    obtain ⟨hscalar, hsize, -, hstop⟩ := leaves_within h leaf hmem
    have := hinside leaf hleaf
    exact ⟨hscalar, hsize, this.1, by omega⟩
  have hforall := Checked.mapM_ok.mp hclasses
  refine ⟨fun entry hentry => ?_, fun p hp => ?_⟩
  · obtain ⟨offset, hoffset, hrun⟩ := Checked.exists_of_forall₂_right hforall hentry
    exact (heach offset hoffset entry hrun).2.mem
  · obtain ⟨leaf, hleaf, hstart, hstop⟩ := data_leaf h hp
    have hlt : p < (layout x64).allocSize type := DataLayout.isData_lt hp
    have hoffset : 8 * (p / 8) ∈ eightbyteOffsets ((layout x64).allocSize type) := by
      refine List.mem_map.mpr ⟨p / 8, List.mem_range.mpr ?_, rfl⟩
      omega
    obtain ⟨entry, hentry, hrun⟩ := Checked.exists_of_forall₂_left hforall hoffset
    obtain ⟨hstart', hdata⟩ := heach _ hoffset entry hrun
    have hmeets : leaf.meets (8 * (p / 8)) = true := by
      rw [Leaf.meets, decide_eq_true_eq]
      omega
    have := hdata.covers leaf (List.mem_filter.mpr ⟨hleaf, hmeets⟩)
    exact ⟨entry, hentry, by omega, by omega⟩

/-! ### Records in registers -/

theorem eightbyteTypes_scalar :
    ∀ type ∈ eightbyteTypes, type.isAggregate = false ∧ type.isBit = false := by decide

/-- Widening keeps the pieces of two eightbytes among such pieces, where they are and at least as
large. -/
theorem widen_types : ∀ low ∈ eightbyteTypes, ∀ high ∈ eightbyteTypes,
    (∀ wide ∈ widen true [⟨low, 0⟩, ⟨high, 8⟩], wide.type ∈ eightbyteTypes) ∧
      ∀ piece ∈ [(⟨low, 0⟩ : NativeABIPiece), ⟨high, 8⟩],
        ∃ wide ∈ widen true [⟨low, 0⟩, ⟨high, 8⟩], wide.offset = piece.offset ∧
          (layout true).storeSize piece.type ≤ (layout true).storeSize wide.type := by
  decide +kernel

theorem widen_pieces {size : ℕ} (hpos : 0 < size) (hlimit : size ≤ 16)
    {pieces : List NativeABIPiece}
    (hoffsets : pieces.map NativeABIPiece.offset = eightbyteOffsets size)
    (htypes : ∀ piece ∈ pieces, piece.type ∈ eightbyteTypes) :
    (∀ wide ∈ widen true pieces, wide.type ∈ eightbyteTypes) ∧
      ∀ piece ∈ pieces, ∃ wide ∈ widen true pieces, wide.offset = piece.offset ∧
        (layout true).storeSize piece.type ≤ (layout true).storeSize wide.type := by
  rcases eightbyteOffsets_cases hpos hlimit with ⟨-, hcase⟩ | ⟨-, hcase⟩
  · rw [hcase] at hoffsets
    obtain ⟨only, rfl⟩ : ∃ only, pieces = [only] :=
      List.length_eq_one_iff.mp (by simpa using congrArg List.length hoffsets)
    exact ⟨htypes, fun piece hpiece => ⟨piece, hpiece, rfl, le_rfl⟩⟩
  · rw [hcase] at hoffsets
    obtain ⟨⟨low, _⟩, ⟨high, _⟩, rfl⟩ : ∃ low high, pieces = [low, high] :=
      List.length_eq_two.mp (by simpa using congrArg List.length hoffsets)
    obtain ⟨rfl, rfl⟩ : _ = 0 ∧ _ = 8 := by simpa using hoffsets
    exact widen_types low (htypes ⟨low, 0⟩ (by simp)) high (htypes ⟨high, 8⟩ (by simp))

/-- A record in registers is covered by its eightbytes. -/
theorem covered_pieced {type : LlvmType} (h : Qualified (layout true) records type)
    {pieces : List NativeABIPiece} (hlimit : (layout true).allocSize type ≤ 16)
    (hoffsets : pieces.map NativeABIPiece.offset = eightbyteOffsets ((layout true).allocSize type))
    (htypes : ∀ piece ∈ pieces, piece.type ∈ eightbyteTypes)
    (hdata : ∀ p, (layout true).IsData type p → ∃ piece ∈ pieces, piece.offset ≤ p ∧
      p < piece.offset + (layout true).storeSize piece.type) :
    (pieced true type pieces).Covered (layout true) := by
  obtain ⟨hwide, hwiden⟩ := widen_pieces h.allocSize_pos hlimit hoffsets htypes
  refine NativeABIValue.Covered.of_scalars
    (fun wide hmem => eightbyteTypes_scalar _ (hwide wide hmem)) fun p hp => ?_
  obtain ⟨piece, hpiece, hstart, hstop⟩ := hdata p (by simpa [pieced] using hp)
  obtain ⟨wide, hmem, hoffset, hsize⟩ := hwiden piece hpiece
  exact ⟨wide, hmem, by omega, by omega⟩

theorem classifyEightbytes_covered {type : LlvmType} (h : Qualified (layout true) records type)
    (hstruct : type.isStruct = true) {returns : Bool} {freeGP freeSSE : ℕ} {native : NativeABIValue}
    (hclassify : classifyEightbytes true type returns freeGP freeSSE = .ok native) :
    native.Covered (layout true) := by
  have hne : type ≠ .void := by
    rintro rfl
    simp [LlvmType.isStruct] at hstruct
  have hstorage : (value true type).storageSize = (layout true).allocSize type := by
    rw [value_of_ne true hne]
  unfold classifyEightbytes at hclassify
  simp only [hstorage] at hclassify
  by_cases hbig : (layout true).allocSize type > 16
  · rw [if_pos hbig] at hclassify
    obtain rfl := Except.ok.inj hclassify
    exact .of_indirect rfl
  · rw [if_neg hbig] at hclassify
    obtain ⟨classes, hclasses, hclassify⟩ := Checked.bind_ok.mp hclassify
    split_ifs at hclassify with hexhausted hstack
    · -- the scalar stack : one integer of the size of the record
      obtain rfl := Except.ok.inj hclassify
      have hstore := (bytes_spec (layout true) hstack.2.1).2
      rw [Nat.mul_comm] at hstore
      refine .of_scalars (fun piece hpiece => ?_) fun p hp => ?_
      · obtain rfl := List.mem_singleton.mp hpiece
        exact ⟨rfl, LlvmType.isBit_bytes _⟩
      · refine ⟨_, List.mem_singleton_self _, Nat.zero_le _, ?_⟩
        have := DataLayout.isData_lt (by simpa [pieced] using hp)
        simpa [hstore] using this
    · obtain rfl := Except.ok.inj hclassify
      exact .of_indirect rfl
    · obtain rfl := Except.ok.inj hclassify
      obtain ⟨htypes, hdata⟩ := eightbytes_data h hclasses
      refine covered_pieced h (by omega) ?_ (fun piece hpiece => ?_) fun p hp => ?_
      · rw [List.map_map, ← (eightbytes_ok h hclasses).1]
        rfl
      · obtain ⟨entry, hentry, rfl⟩ := List.mem_map.mp hpiece
        exact htypes entry hentry
      · obtain ⟨entry, hentry, hbounds⟩ := hdata p hp
        exact ⟨entry.1, List.mem_map_of_mem hentry, hbounds⟩

/-- The fields of a record that are words are its pieces. -/
theorem words_pieces {fields : List (LlvmType × ℕ)} :
    ∀ {bytes : ℕ} {pieces : List NativeABIPiece} {stop : ℕ},
      words x64 fields bytes = some (pieces, stop) →
        (∀ field ∈ fields, (⟨field.1, field.2⟩ : NativeABIPiece) ∈ pieces) := by
  induction fields with
  | nil => simp
  | cons field fields ih =>
    intro bytes pieces stop h
    rw [words] at h
    split_ifs at h with hfield
    obtain ⟨⟨rest, stop'⟩, hrest, heq⟩ := Option.map_eq_some_iff.mp h
    obtain ⟨rfl, rfl⟩ : ⟨field.1, bytes⟩ :: rest = pieces ∧ stop' = stop := by simpa using heq
    refine List.forall_mem_cons.mpr ⟨?_, fun other hother => ?_⟩
    · rw [hfield.2.2]
      exact List.mem_cons_self
    · exact List.mem_cons_of_mem _ (ih hrest other hother)

/-- A field of a record is no aggregate and no bit. -/
theorem field_scalar {type : LlvmType} (h : scalar type true = true) :
    type.isAggregate = false ∧ type.isBit = false := by
  have hfields : ∀ type ∈ fieldScalars, type.isAggregate = false ∧ type.isBit = false := by decide
  exact hfields type (scalar_field_iff.mp h)

theorem classifyWords_covered {identity : Option String} {fields : List LlvmType} (returns : Bool) :
    (classifyWords x64 (.struct identity false fields) false fields returns).Covered
      (layout x64) := by
  unfold classifyWords
  split_ifs
  · exact .of_indirect rfl
  · split
    · exact .of_indirect rfl
    · next pieces bytes hwords =>
      split_ifs
      · exact .of_indirect rfl
      · obtain ⟨-, -, hpieces, -⟩ := words_ok hwords
        have hscalar : ∀ piece ∈ pieces,
            piece.type.isAggregate = false ∧ piece.type.isBit = false :=
          fun piece hpiece => field_scalar (hpieces piece hpiece).2.1
        refine .of_scalars hscalar fun p hp => ?_
        have hp : (layout x64).IsData (.struct identity false fields) p := by simpa using hp
        obtain ⟨element, helement, hp⟩ := DataLayout.data_struct.mp hp
        have hpiece := words_pieces hwords element helement
        rw [DataLayout.data_scalar (hscalar _ hpiece).1, Nat.zero_add] at hp
        exact ⟨_, hpiece, hp⟩

/-- The descriptor of a value is covered. -/
theorem classify_covered {type : LlvmType} {returns : Bool} {freeGP freeSSE : ℕ}
    {validated validated' : List LlvmType} {native : NativeABIValue}
    (h : classify x64 records type returns freeGP freeSSE validated = .ok (native, validated'))
    (hvalidated : ∀ t ∈ validated, Qualified (layout x64) records t) :
    native.Covered (layout x64) := by
  unfold classify at h
  by_cases hvoid : type = .void
  · rw [if_pos hvoid] at h
    split_ifs at h with hreturns
    · obtain ⟨rfl, -⟩ : value x64 type = native ∧ validated = validated' := by simpa using h
      exact .of_not_struct (by simp [hvoid, LlvmType.isStruct])
    · simp at h
  rw [if_neg hvoid] at h
  by_cases hscalar : scalar type false = true
  · rw [if_pos hscalar] at h
    obtain ⟨rfl, -⟩ := Prod.mk.inj (Except.ok.inj h)
    refine .of_not_struct ?_
    cases type <;> simp_all [LlvmType.isStruct, scalar]
  rw [if_neg hscalar] at h
  split at h
  · next identity packed fields =>
    obtain ⟨validated₁, hvalidate, h⟩ := Checked.bind_ok.mp h
    obtain ⟨hqualified, -⟩ := validate_ok hvalidate hvalidated
    split_ifs at h with hx64
    · obtain rfl := hx64
      obtain ⟨native', hnative, h⟩ := Checked.bind_ok.mp h
      obtain ⟨rfl, -⟩ := Prod.mk.inj (Except.ok.inj h)
      exact classifyEightbytes_covered hqualified rfl hnative
    · obtain ⟨rfl, -⟩ := Prod.mk.inj (Except.ok.inj h)
      cases hqualified with
      | scalar _ hfield => simp [scalar] at hfield
      | struct _ _ hrecord hne hend hsize hfields => exact classifyWords_covered returns
  · simp at h

/-- What is so of every value that is classified, as a result or as a parameter, is so of those of
a signature. -/
theorem forall_values {P : Bool → NativeABIValue → Prop} {logical : FunctionType}
    {signature : NativeABISignature} (h : classifyNativeABI x64 records logical = .ok signature)
    (hplace : ∀ (value : NativeABIValue) (start : ℕ), P false value →
      P false { value with nativeBegin := start })
    (hclassify : ∀ {type returns freeGP freeSSE validated validated' native},
      (∀ t ∈ validated, Qualified (layout x64) records t) →
      classify x64 records type returns freeGP freeSSE validated = .ok (native, validated') →
        P returns native) :
    P true signature.result ∧ ∀ value ∈ signature.parameters, P false value := by
  obtain ⟨⟨result, validated⟩, hresult, h⟩ := Checked.bind_ok.mp h
  obtain ⟨state, hstate, h⟩ := Checked.bind_ok.mp h
  obtain rfl := Except.ok.inj h
  have hvalidated := (classify_ok hresult (by simp)).2
  have hparameters : (∀ parameter ∈ state.parameters, P false parameter) ∧
      ∀ t ∈ state.validated, Qualified (layout x64) records t :=
    @Checked.foldlM_invariant _ _ _ (fun _ state =>
        (∀ parameter ∈ state.parameters, P false parameter) ∧
          ∀ t ∈ state.validated, Qualified (layout x64) records t) [] _ _ _
      ⟨by simp, hvalidated⟩
      (fun _ _ _ state state' _ ⟨hpassed, hqualified⟩ hstep => by
        obtain ⟨⟨native, validated'⟩, hnative, hstep⟩ := Checked.bind_ok.mp hstep
        obtain rfl := Except.ok.inj hstep
        exact ⟨List.forall_mem_append.mpr ⟨hpassed,
          by simpa using hplace _ _ (hclassify hqualified hnative)⟩,
          (classify_ok hnative hqualified).2⟩) hstate
  exact ⟨hclassify (by simp) hresult, hparameters.1⟩

/-- Every value of a signature is covered. -/
theorem classifyNativeABI_covered {logical : FunctionType} {signature : NativeABISignature}
    (h : classifyNativeABI x64 records logical = .ok signature) :
    ∀ value ∈ signature.result :: signature.parameters, value.Covered (layout x64) :=
  List.forall_mem_cons.mpr <| @forall_values _ _ (fun _ value => value.Covered (layout x64)) _ _ h
    (fun _ _ hcovered => ⟨hcovered.data, hcovered.bits⟩)
    fun hvalidated hclassify => classify_covered hclassify hvalidated

end NativeX86Abi

/-! ## ARM -/

namespace NativeArmAbi

variable {aapcs64 : Bool} {records : List NativeABIRecordLayout}

theorem isBit_of_scalar {layout : DataLayout} {type : LlvmType} (h : type.isAggregate = false)
    {offset p : ℕ} (hbit : (layout.footprint type offset).IsBit p) :
    ∃ leaf ∈ leafTypes type, leaf.isBit = true := by
  rw [DataLayout.footprint_scalar h, Footprint.IsBit] at hbit
  refine ⟨type, ?_, hbit.1⟩
  cases type <;> first | simp [leafTypes]; done | simp [LlvmType.isAggregate] at h

mutual

/-- A single bit is a leaf. -/
theorem isBit_leaf {layout : DataLayout} : ∀ (type : LlvmType) {offset p : ℕ},
    (layout.footprint type offset).IsBit p → ∃ leaf ∈ leafTypes type, leaf.isBit = true
  | .array element count, offset, p, h => by
    rw [DataLayout.footprint, Footprint.IsBit, Footprint.anyBit_iff] at h
    obtain ⟨part, hpart, h⟩ := h
    obtain ⟨i, hi, rfl⟩ := List.mem_map.mp hpart
    obtain ⟨leaf, hleaf, hbit⟩ := isBit_leaf element h
    have hcount : count ≠ 0 := by
      rintro rfl
      simp at hi
    exact ⟨leaf, (mem_leafTypes_array hcount).mpr hleaf, hbit⟩
  | .struct identity packed fields, offset, p, h => by
    rw [DataLayout.footprint_struct, Footprint.IsBit, Footprint.anyBit_iff] at h
    obtain ⟨part, hpart, h⟩ := h
    obtain ⟨element, helement, rfl⟩ := List.mem_map.mp hpart
    obtain ⟨leaf, hleaf, hbit⟩ :=
      isBit_field fields element.1 (DataLayout.mem_of_mem_elements helement) h
    exact ⟨leaf, hleaf, hbit⟩
  | .void, offset, p, h => isBit_of_scalar rfl h
  | .scalar _, offset, p, h => isBit_of_scalar rfl h
  | .vector _ _, offset, p, h => isBit_of_scalar rfl h
  | .unsized _, offset, p, h => isBit_of_scalar rfl h

theorem isBit_field {layout : DataLayout} : ∀ (fields : List LlvmType), ∀ field ∈ fields,
    ∀ {offset p : ℕ}, (layout.footprint field offset).IsBit p →
      ∃ leaf ∈ fieldLeafTypes fields, leaf.isBit = true
  | [], _, hmem, _, _, _ => by simp at hmem
  | first :: fields, field, hmem, offset, p, h => by
    rw [fieldLeafTypes]
    rcases List.mem_cons.mp hmem with hmem | hmem
    · rw [hmem] at h
      obtain ⟨leaf, hleaf, hbit⟩ := isBit_leaf first h
      exact ⟨leaf, List.mem_append_left _ hleaf, hbit⟩
    · obtain ⟨leaf, hleaf, hbit⟩ := isBit_field fields field hmem h
      exact ⟨leaf, List.mem_append_right _ hleaf, hbit⟩

end

theorem base_scalar {base : LlvmType} (h : IsBase base) :
    base.isAggregate = false ∧ base.isBit = false ∧
      (layout aapcs64).storeSize base = (layout aapcs64).allocSize base := by
  rcases h with rfl | rfl <;> cases aapcs64 <;> exact ⟨rfl, rfl, rfl⟩

/-- A record that is one piece, which holds its data and no bit. -/
theorem covered_direct {native : NativeABIValue} {physical : LlvmType}
    (hdata : ∀ p, (layout aapcs64).IsData native.storageType p →
      ((layout aapcs64).footprint physical 0).Data p)
    (hbits : ∀ p, ¬((layout aapcs64).footprint physical 0).IsBit p) :
    (direct native physical).Covered (layout aapcs64) where
  data _ _ p hp := anyData_pieces.mpr ⟨⟨physical, 0⟩, List.mem_singleton_self _, hdata p hp⟩
  bits _ _ piece hpiece p := by
    obtain rfl := List.mem_singleton.mp hpiece
    exact hbits p

/-- An integer that is no smaller than the record. -/
theorem covered_integer {type : LlvmType} {native : NativeABIValue} {bytes : ℕ}
    (h : Described aapcs64 type native) (hsize : native.storageSize ≤ bytes) :
    (direct native (.int (bytes * 8))).Covered (layout aapcs64) := by
  have hbytes : (layout aapcs64).storeSize (.int (bytes * 8)) = bytes := by
    rw [DataLayout.storeSize_int]
    omega
  refine covered_direct (fun p hp => ?_) fun p => ?_
  · rw [DataLayout.data_scalar rfl, hbytes]
    have := DataLayout.isData_lt (h.storage ▸ hp)
    have := h.size
    omega
  · rw [DataLayout.footprint_scalar rfl, Footprint.IsBit, LlvmType.isBit_bytes]
    simp

/-- An array of scalars without padding that is no smaller than the record. -/
theorem covered_array {type element : LlvmType} {native : NativeABIValue} {count : ℕ}
    (h : Described aapcs64 type native) (hscalar : element.isAggregate = false)
    (hbit : element.isBit = false)
    (hpadding : (layout aapcs64).storeSize element = (layout aapcs64).allocSize element)
    (hsize : native.storageSize ≤ count * (layout aapcs64).allocSize element) :
    (direct native (.array element count)).Covered (layout aapcs64) := by
  refine covered_direct (fun p hp => ?_) fun p => DataLayout.not_isBit_array hscalar hbit
  have := DataLayout.isData_lt (h.storage ▸ hp)
  have := h.size
  exact DataLayout.data_packed_array hscalar hpadding (by omega)

theorem covered_units {type : LlvmType} {native : NativeABIValue} {unit : ℕ}
    (h : Described aapcs64 type native) (hunit : unit = 4 ∨ unit = 8 ∨ unit = 16 ∧ aapcs64 = true) :
    (direct native (.array (.int (unit * 8)) ((native.storageSize + unit - 1) / unit))).Covered
      (layout aapcs64) := by
  have halloc := allocSize_unit hunit
  have hpos : 0 < unit := by omega
  refine covered_array h rfl (LlvmType.isBit_bytes unit) ?_ ?_
  · rw [halloc, DataLayout.storeSize_int]
    omega
  · rw [halloc]
    have := Nat.lt_mul_div_succ (native.storageSize + unit - 1) hpos
    rw [Nat.mul_succ, Nat.mul_comm] at this
    omega

theorem classifyIntegers_covered {type : LlvmType} {returns : Bool} {native : NativeABIValue}
    (h : Described aapcs64 type native) :
    (classifyIntegers aapcs64 native returns).Covered (layout aapcs64) := by
  unfold classifyIntegers
  dsimp only
  split_ifs
  all_goals first
    | exact .of_indirect rfl
    | exact covered_integer h (by omega)
    | exact covered_units h (by simp_all)

/-- A homogeneous record is covered by itself, or by an array of its members. -/
theorem classifyHomogeneous_covered {type base : LlvmType} {returns : Bool}
    {native : NativeABIValue} {info : Information} (h : Described aapcs64 type native)
    (hsize : native.storageSize = info.size) (hstruct : type.isStruct = true)
    (hinfo : InformationOk aapcs64 33 type info) (hfound : Found aapcs64 type info)
    (hbase : info.homogeneousBase = some base) :
    (classifyHomogeneous aapcs64 native type base info.members returns).Covered
      (layout aapcs64) := by
  have hflat := (hfound.flat base).mp hbase
  obtain ⟨hscalar, hbit, hpadding⟩ := @base_scalar aapcs64 base hflat.isBase
  have hitself : ∀ {native' : NativeABIValue}, native'.storageType = type →
      (direct native' type).Covered (layout aapcs64) := fun hstorage =>
    covered_direct (fun p hp => hstorage ▸ hp) fun p h => by
      obtain ⟨leaf, hleaf, hleafBit⟩ := isBit_leaf type h
      rw [hflat.leaf leaf hleaf, hbit] at hleafBit
      simp at hleafBit
  unfold classifyHomogeneous
  by_cases haapcs64 : aapcs64 = true
  · rw [if_pos haapcs64]
    by_cases hreturns : returns = true
    · rw [if_pos hreturns]
      exact hitself h.storage
    · rw [if_neg hreturns]
      have hstacked : ∀ stackAlignment, Described aapcs64 type
          { native with stackAlignment := stackAlignment } :=
        fun _ => ⟨h.storage, h.size, h.sized, h.pos, h.count, h.sRet⟩
      refine covered_array (hstacked _) hscalar hbit hpadding ?_
      rw [Nat.mul_comm, hinfo.extent base hbase hstruct]
      exact hsize.le
  · rw [if_neg haapcs64]
    split
    · exact hitself h.storage
    · exact hitself h.storage

/-- The descriptor of a value over ordered records is covered. -/
theorem classify_covered (hnatural : Natural aapcs64 records) {type : LlvmType}
    {returns variadic : Bool} {budget budget' : Budget} {native : NativeABIValue}
    (h : classify aapcs64 records type returns variadic budget = .ok (native, budget')) :
    native.Covered (layout aapcs64) := by
  unfold classify at h
  by_cases hvoid : type = .void
  · rw [if_pos hvoid] at h
    split_ifs at h
    · obtain ⟨rfl, -⟩ := Prod.mk.inj (Except.ok.inj h)
      exact .of_not_struct (by simp [NativeABIValue.blank, hvoid, LlvmType.isStruct])
    · simp at h
  rw [if_neg hvoid] at h
  obtain ⟨⟨info, budget₁⟩, hinformation, h⟩ := Checked.bind_ok.mp h
  have hinfo := information_ok hnatural hinformation
  dsimp only at h
  by_cases hscalar : scalar aapcs64 type = true
  · rw [if_pos hscalar] at h
    obtain ⟨rfl, -⟩ := Prod.mk.inj (Except.ok.inj h)
    refine .of_not_struct ?_
    cases type <;> simp_all [LlvmType.isStruct, scalar, NativeABIValue.blank]
  rw [if_neg hscalar] at h
  by_cases hstruct : type.isStruct = false
  · simp [hstruct] at h
  rw [if_neg hstruct] at h
  have hdescribed : Described aapcs64 type
      { NativeABIValue.blank type with
        storageSize := info.size
        storageAlignment := info.alignment
        abiAlignment := info.alignment
        nativeCount := 1 } :=
    ⟨rfl, hinfo.size.symm, hinfo.sized, hinfo.pos, rfl, rfl⟩
  split at h
  · next base hbase =>
    split_ifs at h
    · obtain ⟨rfl, -⟩ := Prod.mk.inj (Except.ok.inj h)
      exact classifyHomogeneous_covered hdescribed rfl (by simpa using hstruct) hinfo
        (information_flat hnatural hinformation) hbase
    · obtain ⟨rfl, -⟩ := Prod.mk.inj (Except.ok.inj h)
      exact classifyIntegers_covered hdescribed
  · obtain ⟨rfl, -⟩ := Prod.mk.inj (Except.ok.inj h)
    exact classifyIntegers_covered hdescribed

/-- What is so of every value over ordered records, as a result or as a parameter, is so of those
of a signature. -/
theorem forall_values {P : Bool → NativeABIValue → Prop} {ordered : List StructType}
    {logical : FunctionType} {signature : NativeABISignature}
    (h : classifyNativeABI aapcs64 ordered logical = .ok signature)
    (hplace : ∀ (value : NativeABIValue) (start : ℕ), P false value →
      P false { value with nativeBegin := start })
    (hclassify : ∀ {records type returns variadic budget budget' native},
      Natural aapcs64 records →
      classify aapcs64 records type returns variadic budget = .ok (native, budget') →
        P returns native) :
    P true signature.result ∧ ∀ value ∈ signature.parameters, P false value := by
  have hnatural := @natural_map aapcs64 ordered
  obtain ⟨-, -, h⟩ := Checked.bind_ok.mp h
  obtain ⟨-, -, h⟩ := Checked.bind_ok.mp h
  obtain ⟨budget, -, h⟩ := Checked.bind_ok.mp h
  obtain ⟨⟨result, budget₁⟩, hresult, h⟩ := Checked.bind_ok.mp h
  obtain ⟨state, hstate, h⟩ := Checked.bind_ok.mp h
  obtain rfl := Except.ok.inj h
  have hparameters : ∀ parameter ∈ state.parameters, P false parameter :=
    @Checked.foldlM_invariant _ _ _
      (fun _ state => ∀ parameter ∈ state.parameters, P false parameter)
      [] _ _ _ (by simp)
      (fun _ _ _ state state' _ hpassed hstep => by
        obtain ⟨⟨argument, budget'⟩, hargument, hstep⟩ := Checked.bind_ok.mp hstep
        obtain rfl := Except.ok.inj hstep
        exact List.forall_mem_append.mpr ⟨hpassed,
          by simpa using hplace _ _ (hclassify hnatural hargument)⟩) hstate
  exact ⟨hclassify hnatural hresult, hparameters⟩

/-- Every value of a signature of ordered records is covered. -/
theorem classifyNativeABI_covered {ordered : List StructType} {logical : FunctionType}
    {signature : NativeABISignature} (h : classifyNativeABI aapcs64 ordered logical = .ok signature) :
    ∀ value ∈ signature.result :: signature.parameters, value.Covered (layout aapcs64) :=
  List.forall_mem_cons.mpr <|
    @forall_values _ (fun _ value => value.Covered (layout aapcs64)) _ _ _ h
      (fun _ _ hcovered => ⟨hcovered.data, hcovered.bits⟩)
      fun hnatural hclassify => classify_covered hnatural hclassify

end NativeArmAbi

/-! ## Calls -/

/-- Every record that crosses in pieces is covered by them, whatever the target. -/
theorem NativeTarget.classify_covered {target : NativeTarget} {logical : FunctionType}
    {ordered : List StructType} {signature : NativeABISignature}
    (h : target.classify logical ordered = .ok signature) :
    ∀ value ∈ signature.result :: signature.parameters, value.Covered target.layout := by
  cases target with
  | x86_64 => exact NativeX86Abi.classifyNativeABI_covered h
  | i686 => exact NativeX86Abi.classifyNativeABI_covered h
  | armv7 => exact NativeArmAbi.classifyNativeABI_covered h
  | aarch64 => exact NativeArmAbi.classifyNativeABI_covered h

/-- What a record becomes that is loaded in pieces from one object and stored to another : the
same in every byte of its scalars. -/
structure NativeABIValue.Carried {β : Type} (layout : DataLayout) (value : NativeABIValue)
    (moved : List PieceAccess) (encoding : Encoding β) (source storage storage' : List β) :
    Prop where
  moves : ∃ values,
    Footprint.loadAll encoding source (PieceAccess.footprints layout moved) = some values ∧
      Footprint.storeAll encoding (PieceAccess.footprints layout moved) values storage =
        some storage'
  length : storage'.length = storage.length
  data : ∀ p, layout.IsData value.storageType p → storage'[p]? = source[p]?

/-- The data of a record that is covered arrives. -/
theorem NativeABIValue.Covered.carried {β : Type} {layout : DataLayout} {value : NativeABIValue}
    (h : value.Covered layout) (hloadable : Loadable layout value)
    (hstruct : value.storageType.isStruct = true) (hkind : value.kind ≠ .indirect)
    (alignment : Align) {encoding : Encoding β} (horder : encoding.bigEndian = layout.bigEndian)
    {source storage : List β} (hsource : source.length = value.storageSize)
    (hstorage : storage.length = value.storageSize) :
    ∃ storage', value.Carried layout (accesses layout alignment value) encoding source storage
      storage' := by
  obtain ⟨values, storage', hloads, hstores, hcopied⟩ :=
    (hloadable.moves alignment horder).copies source storage hsource hstorage
  refine ⟨storage', ⟨values, hloads, hstores⟩, hcopied.length, fun p hp => ?_⟩
  have hlt : p < value.storageSize := hloadable.size ▸ DataLayout.isData_lt hp
  refine (hcopied.data p ⟨h.data hstruct hkind p hp, hlt⟩).1 fun hbit => ?_
  obtain ⟨piece, hpiece, hbit⟩ := anyBit_pieces.mp hbit
  exact h.bits hstruct hkind piece hpiece p hbit

/-- A record that a signature passes or returns in pieces arrives whole : its loads and its
stores are emitted for any access of its target, and what one side loads from its object the
other stores into its own with every data byte. -/
theorem classifyNativeABI_carries {linked : List NativeTarget} {logical : FunctionType}
    {target : NativeTarget} {ordered : List StructType} {signature : NativeABISignature}
    (h : classifyNativeABI linked logical target.id ordered = .ok signature) :
    ∀ value ∈ signature.result :: signature.parameters, value.storageType.isStruct = true →
      value.kind ≠ .indirect → ∀ access : Access, access.At target.layout → ∃ moved,
        (∀ emitted, Stateful.exec (loadNativeABIPieces access value) emitted =
          (.ok moved, emitted ++ moved)) ∧
        (∀ emitted, Stateful.exec (storeNativeABIPieces access value
            (value.pieces.map fun piece => some piece.type)) emitted =
          (.ok (), emitted ++ moved)) ∧
        ∀ (β : Type) (encoding : Encoding β), encoding.bigEndian = target.layout.bigEndian →
          ∀ source storage : List β, source.length = value.storageSize →
            storage.length = value.storageSize →
              ∃ storage', value.Carried target.layout moved encoding source storage storage' := by
  intro value hvalue hstruct hkind access haccess
  have hclassify := classifyNativeABI_ok h
  have hloadable := (NativeTarget.classify_wellFormed hclassify).loadable value hvalue hstruct hkind
  have hcovered := NativeTarget.classify_covered hclassify value hvalue
  have hvalid := validateAccess_loadable hloadable hkind haccess
  refine ⟨accesses target.layout access.alignment value, fun emitted => ?_,
    exec_storeNativeABIPieces haccess.layout hvalid, fun β encoding horder source storage hsource
      hstorage =>
        hcovered.carried hloadable hstruct hkind access.alignment horder hsource hstorage⟩
  rw [exec_loadNativeABIPieces, hvalid, haccess.layout]

/-- A record with padding, which two words reach past. -/
def spaced : StructType := ⟨some "spaced", false, [.int 8, .int 16, .int 16]⟩

def spacedFunction : FunctionType := ⟨.void, [spaced.toType], false⟩

def spacedArgument : NativeABIValue :=
  { NativeABIValue.blank spaced.toType with
    kind := .coerce
    storageSize := 6
    storageAlignment := .of 2
    abiAlignment := .of 2
    pieces := [⟨.array (.int 32) 2, 0⟩]
    nativeCount := 1 }

def spacedSignature : NativeABISignature where
  nativeType := ⟨.void, [.array (.int 32) 2], false⟩
  result := .blank .void
  parameters := [spacedArgument]
  sretIndex := none
  remainingGP := 0
  remainingSSE := 0

theorem spacedArgument_carries : ∃ moved storage',
    spacedArgument.Carried NativeTarget.armv7.layout moved (defined NativeTarget.armv7.layout)
      ([1, 2, 3, 4, 5, 6].map some) (List.replicate 6 none) storage' := by
  have h : classifyNativeABI [.armv7] spacedFunction NativeTarget.armv7.id [spaced] =
      .ok spacedSignature := by decide +kernel
  obtain ⟨moved, -, -, hcarried⟩ :=
    classifyNativeABI_carries h spacedArgument (by simp [spacedSignature]) rfl (by decide)
      ⟨true, true, true, some NativeTarget.armv7.layout, .of 4⟩ ⟨rfl, rfl, rfl, rfl, by decide⟩
  exact ⟨moved, hcarried _ (defined _) rfl _ _ rfl rfl⟩

end Sela
