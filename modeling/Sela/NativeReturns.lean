import Sela.NativeCoverage

/-!
# Storage and results of a signature

What both sides of a call rely on of a classified signature, besides the pieces of its records :
the extent and the alignment of the storage of a record, one native parameter for a scalar
(`NativeTarget.classify_stored`), and how a record is returned. The pieces of a returned record
stand where a load of the native result looks for them, and there are two of them only on x86-64
(`NativeTarget.classify_returns`).
-/

namespace Sela

open Checked
open NativeAbi hiding ensure ensure_ok

/-! ## Storage -/

/-- The storage of a value : an aggregate is a record, its extent and alignment are those of its
type, and a scalar is direct, as a parameter in one piece. -/
structure NativeABIValue.Stored (layout : DataLayout) (returns : Bool) (value : NativeABIValue) :
    Prop where
  record : value.storageType.isAggregate = true → value.storageType.isStruct = true
  size : value.storageType.isStruct = true → layout.allocSize value.storageType = value.storageSize
  alignment : value.storageType.isStruct = true → value.storageAlignment.value ≤ maximumAlignment
  direct : value.storageType.isAggregate = false → value.kind = .direct
  scalar : returns = false → value.storageType.isAggregate = false → value.pieces.length = 1

theorem abiAlign_le_maximum {layout : DataLayout} {type : LlvmType}
    (hpos : 0 < layout.allocSize type) (hlimit : layout.allocSize type ≤ 2 ^ 30) :
    (layout.abiAlign type).value ≤ maximumAlignment := by
  have hle := Nat.le_of_dvd hpos (DataLayout.value_dvd_allocSize type)
  exact hle.trans (hlimit.trans (by decide))

theorem NativeABIValue.Stored.of_scalar {layout : DataLayout} {returns : Bool}
    {value : NativeABIValue} (h : value.storageType.isAggregate = false)
    (hdirect : value.kind = .direct) (hscalar : returns = false → value.pieces.length = 1) :
    value.Stored layout returns where
  record haggregate := by simp [h] at haggregate
  size hstruct := by cases htype : value.storageType <;> simp_all [LlvmType.isStruct, LlvmType.isAggregate]
  alignment hstruct := by
    cases htype : value.storageType <;> simp_all [LlvmType.isStruct, LlvmType.isAggregate]
  direct _ := hdirect
  scalar hreturns _ := hscalar hreturns

/-- A record as it is described, which is no scalar. -/
theorem NativeABIValue.Stored.of_record {layout : DataLayout} {returns : Bool}
    {value : NativeABIValue} (hstruct : value.storageType.isStruct = true)
    (hsize : layout.allocSize value.storageType = value.storageSize)
    (halignment : value.storageAlignment.value ≤ maximumAlignment) :
    value.Stored layout returns where
  record _ := hstruct
  size _ := hsize
  alignment _ := halignment
  direct hscalar := by
    cases htype : value.storageType <;> simp_all [LlvmType.isStruct, LlvmType.isAggregate]
  scalar _ hscalar := by
    cases htype : value.storageType <;> simp_all [LlvmType.isStruct, LlvmType.isAggregate]

theorem NativeABIValue.Stored.placed {layout : DataLayout} {returns : Bool} {value : NativeABIValue}
    (h : value.Stored layout returns) (start : ℕ) :
    NativeABIValue.Stored layout returns { value with nativeBegin := start } :=
  ⟨h.record, h.size, h.alignment, h.direct, h.scalar⟩

/-- The pieces of a record that is returned : one at its start, or two that stand where the fields
of a record of them do. -/
inductive NativeABIValue.Returned (layout : DataLayout) (value : NativeABIValue) : Prop
  | one (type : LlvmType) (hpieces : value.pieces = [⟨type, 0⟩])
  | two (low high : LlvmType) (hpieces : value.pieces = [⟨low, 0⟩, ⟨high, 8⟩])
    (helements : layout.elements false 0 [low, high] = [(low, 0), (high, 8)])
    (hsize : layout.storeSize (.struct none false [low, high]) = 16)

namespace NativeX86Abi

variable {x64 : Bool} {records : List StructType}

theorem storageSize_classifyWords {type : LlvmType} {packed : Bool} {fields : List LlvmType}
    {returns : Bool} :
    (classifyWords x64 type packed fields returns).storageSize = (value x64 type).storageSize ∧
      (classifyWords x64 type packed fields returns).storageAlignment =
        (value x64 type).storageAlignment := by
  unfold classifyWords
  split_ifs
  · exact ⟨rfl, rfl⟩
  · split
    · exact ⟨rfl, rfl⟩
    · split_ifs <;> exact ⟨rfl, rfl⟩

theorem storageSize_classifyEightbytes {type : LlvmType} {returns : Bool} {freeGP freeSSE : ℕ}
    {native : NativeABIValue}
    (h : classifyEightbytes x64 type returns freeGP freeSSE = .ok native) :
    native.storageSize = (value x64 type).storageSize ∧
      native.storageAlignment = (value x64 type).storageAlignment := by
  unfold classifyEightbytes at h
  dsimp only at h
  by_cases hbig : (value x64 type).storageSize > 16
  · rw [if_pos hbig] at h
    obtain rfl := Except.ok.inj h
    exact ⟨rfl, rfl⟩
  · rw [if_neg hbig] at h
    obtain ⟨classes, -, h⟩ := bind_ok.mp h
    split_ifs at h
    all_goals
      obtain rfl := Except.ok.inj h
      exact ⟨rfl, rfl⟩

theorem classify_stored {type : LlvmType} {returns : Bool} {freeGP freeSSE : ℕ}
    {validated validated' : List LlvmType} {native : NativeABIValue}
    (hvalidated : ∀ t ∈ validated, Qualified (layout x64) records t)
    (h : classify x64 records type returns freeGP freeSSE validated = .ok (native, validated')) :
    native.Stored (layout x64) returns := by
  have hstorage := (classify_ok h hvalidated).1.storage
  unfold classify at h
  by_cases hvoid : type = .void
  · rw [if_pos hvoid] at h
    by_cases hreturns : returns = true
    · rw [if_pos hreturns] at h
      obtain ⟨rfl, -⟩ := Prod.mk.inj (Except.ok.inj h)
      exact .of_scalar (by rw [hstorage, hvoid]; rfl) (kind_value type) (by simp [hreturns])
    · simp [hreturns] at h
  rw [if_neg hvoid] at h
  by_cases hscalar : scalar type false = true
  · rw [if_pos hscalar] at h
    obtain ⟨rfl, -⟩ := Prod.mk.inj (Except.ok.inj h)
    exact .of_scalar (by rw [hstorage]; cases type <;> simp_all [LlvmType.isAggregate, scalar])
      (kind_value type) fun _ => rfl
  rw [if_neg hscalar] at h
  split at h
  · next identity packed fields =>
    obtain ⟨validated₁, hvalidate, h⟩ := bind_ok.mp h
    obtain ⟨hqualified, -⟩ := validate_ok hvalidate hvalidated
    have hpos := hqualified.allocSize_pos
    have hlimit : (layout x64).allocSize (.struct identity packed fields) ≤ 2 ^ 30 := by
      cases hqualified with
      | scalar _ hfield => simp [NativeAbi.scalar] at hfield
      | struct _ _ hrecord hne hend hsize hfields => exact hsize
    have hvalue := value_of_ne x64 hvoid
    have hsame : native.storageSize = (value x64 (.struct identity packed fields)).storageSize ∧
        native.storageAlignment = (value x64 (.struct identity packed fields)).storageAlignment := by
      split_ifs at h
      · obtain ⟨native', hnative, h⟩ := bind_ok.mp h
        obtain ⟨rfl, -⟩ := Prod.mk.inj (Except.ok.inj h)
        exact storageSize_classifyEightbytes hnative
      · obtain ⟨rfl, -⟩ := Prod.mk.inj (Except.ok.inj h)
        exact storageSize_classifyWords
    rw [hvalue] at hsame
    exact .of_record (hstorage ▸ rfl) (hstorage ▸ hsame.1.symm)
      (hsame.2 ▸ abiAlign_le_maximum hpos hlimit)
  · simp at h

/-- Two eightbytes, the first widened, stand where the fields of a record of them do. -/
theorem widen_elements : ∀ low ∈ eightbyteTypes, ∀ high ∈ eightbyteTypes,
    ∃ low', widen true [⟨low, 0⟩, ⟨high, 8⟩] = [⟨low', 0⟩, ⟨high, 8⟩] ∧
      (layout true).elements false 0 [low', high] = [(low', 0), (high, 8)] ∧
      (layout true).storeSize (.struct none false [low', high]) = 16 := by
  have hall : ∀ low ∈ eightbyteTypes, ∀ high ∈ eightbyteTypes,
      let low' := ((widen true [⟨low, 0⟩, ⟨high, 8⟩]).map NativeABIPiece.type).headD .void
      widen true [⟨low, 0⟩, ⟨high, 8⟩] = [⟨low', 0⟩, ⟨high, 8⟩] ∧
        (layout true).elements false 0 [low', high] = [(low', 0), (high, 8)] ∧
        (layout true).storeSize (.struct none false [low', high]) = 16 := by
    decide +kernel
  exact fun low hlow high hhigh => ⟨_, hall low hlow high hhigh⟩

/-- How x86-64 returns a record : in one eightbyte or two, unless it is longer. -/
structure ReturnedPieces (native : NativeABIValue) : Prop where
  indirect : native.kind = .indirect → 16 < native.storageSize
  returned : native.kind ≠ .indirect → native.Returned (layout true)
  size : native.kind ≠ .indirect → native.storageSize ≤ 16
  two : native.kind ≠ .indirect → (1 < native.pieces.length ↔ 8 < native.storageSize)

theorem classifyEightbytes_returned {type : LlvmType} (h : Qualified (layout true) records type)
    (hstruct : type.isStruct = true) {freeGP freeSSE : ℕ} {native : NativeABIValue}
    (hclassify : classifyEightbytes true type true freeGP freeSSE = .ok native) :
    ReturnedPieces native := by
  have hne : type ≠ .void := by
    rintro rfl
    simp [LlvmType.isStruct] at hstruct
  have hstorage : (value true type).storageSize = (layout true).allocSize type := by
    rw [value_of_ne true hne]
  unfold classifyEightbytes at hclassify
  simp only [hstorage] at hclassify
  by_cases hbig : (layout true).allocSize type > 16
  · rw [if_pos hbig] at hclassify
    obtain rfl := Except.ok.inj hclassify
    exact ⟨fun _ => hstorage ▸ hbig, fun hkind => absurd rfl hkind, fun hkind => absurd rfl hkind,
      fun hkind => absurd rfl hkind⟩
  rw [if_neg hbig] at hclassify
  obtain ⟨classes, hclasses, hclassify⟩ := bind_ok.mp hclassify
  rw [if_neg (by simp)] at hclassify
  obtain rfl := Except.ok.inj hclassify
  obtain ⟨htypes, -⟩ := eightbytes_data h hclasses
  have hoffsets : (classes.map Prod.fst).map NativeABIPiece.offset =
      eightbyteOffsets ((layout true).allocSize type) := by
    rw [List.map_map, ← (eightbytes_ok h hclasses).1]
    rfl
  have hmem : ∀ piece ∈ classes.map Prod.fst, piece.type ∈ eightbyteTypes := by
    intro piece hpiece
    obtain ⟨entry, hentry, rfl⟩ := List.mem_map.mp hpiece
    exact htypes entry hentry
  generalize classes.map Prod.fst = pieces at hoffsets hmem
  have hsize : (pieced true type pieces).storageSize = (layout true).allocSize type := hstorage
  have hdirect : (pieced true type pieces).kind ≠ .indirect := by
    rw [kind_pieced]
    split <;> simp
  rcases eightbyteOffsets_cases h.allocSize_pos (by omega) with ⟨hsmall, hcase⟩ | ⟨hlarge, hcase⟩
  · rw [hcase] at hoffsets
    obtain ⟨⟨only, _⟩, rfl⟩ : ∃ only, pieces = [only] :=
      List.length_eq_one_iff.mp (by simpa using congrArg List.length hoffsets)
    obtain rfl : _ = 0 := by simpa using hoffsets
    refine ⟨fun hkind => absurd hkind hdirect, fun _ => .one only rfl, fun _ => by omega,
      fun _ => ?_⟩
    rw [hsize]
    simpa [pieced, widen] using hsmall
  · rw [hcase] at hoffsets
    obtain ⟨⟨low, _⟩, ⟨high, _⟩, rfl⟩ : ∃ low high, pieces = [low, high] :=
      List.length_eq_two.mp (by simpa using congrArg List.length hoffsets)
    obtain ⟨rfl, rfl⟩ : _ = 0 ∧ _ = 8 := by simpa using hoffsets
    obtain ⟨low', hwiden, helements, hstore⟩ :=
      widen_elements low (hmem ⟨low, 0⟩ (by simp)) high (hmem ⟨high, 8⟩ (by simp))
    refine ⟨fun hkind => absurd hkind hdirect, fun _ => .two low' high hwiden helements hstore,
      fun _ => by omega, fun _ => ?_⟩
    rw [hsize]
    simpa [pieced] using hlarge

/-- Only x86-64 returns a record in pieces. -/
theorem classify_returned {type : LlvmType} (hstruct : type.isStruct = true)
    {freeGP freeSSE : ℕ} {validated validated' : List LlvmType} {native : NativeABIValue}
    (hvalidated : ∀ t ∈ validated, Qualified (layout x64) records t)
    (h : classify x64 records type true freeGP freeSSE validated = .ok (native, validated')) :
    x64 = true ∧ ReturnedPieces native ∨ x64 = false ∧ native.kind = .indirect := by
  unfold classify at h
  have hvoid : type ≠ .void := by
    rintro rfl
    simp [LlvmType.isStruct] at hstruct
  have hscalar : scalar type false ≠ true := by
    cases type <;> simp_all [LlvmType.isStruct, scalar]
  rw [if_neg hvoid, if_neg hscalar] at h
  split at h
  · next identity packed fields =>
    obtain ⟨validated₁, hvalidate, h⟩ := bind_ok.mp h
    obtain ⟨hqualified, -⟩ := validate_ok hvalidate hvalidated
    split_ifs at h with hx64
    · obtain rfl := hx64
      obtain ⟨native', hnative, h⟩ := bind_ok.mp h
      obtain ⟨rfl, -⟩ := Prod.mk.inj (Except.ok.inj h)
      exact .inl ⟨rfl, classifyEightbytes_returned hqualified rfl hnative⟩
    · obtain ⟨rfl, -⟩ := Prod.mk.inj (Except.ok.inj h)
      exact .inr ⟨(Bool.not_eq_true _).mp hx64, by simp [classifyWords, indirect]⟩
  · simp at h

end NativeX86Abi

namespace NativeArmAbi

variable {aapcs64 : Bool} {records : List NativeABIRecordLayout}

theorem storage_classifyIntegers {native : NativeABIValue} {returns : Bool} :
    (classifyIntegers aapcs64 native returns).storageSize = native.storageSize ∧
      (classifyIntegers aapcs64 native returns).storageAlignment = native.storageAlignment := by
  unfold classifyIntegers
  dsimp only
  split_ifs <;> exact ⟨rfl, rfl⟩

theorem storage_classifyHomogeneous {native : NativeABIValue} {type base : LlvmType} {members : ℕ}
    {returns : Bool} :
    (classifyHomogeneous aapcs64 native type base members returns).storageSize =
        native.storageSize ∧
      (classifyHomogeneous aapcs64 native type base members returns).storageAlignment =
        native.storageAlignment := by
  unfold classifyHomogeneous
  split_ifs <;> exact ⟨rfl, rfl⟩

theorem size_information {levels : ℕ} {active : List LlvmType} {type : LlvmType}
    {budget budget' : Budget} {info : Information}
    (h : information aapcs64 records levels active type budget = .ok (info, budget')) :
    (layout aapcs64).allocSize type ≤ 2 ^ 30 := by
  cases levels with
  | zero => simp [information] at h
  | succ levels =>
    rw [information, bind_ok] at h
    obtain ⟨-, -, h⟩ := h
    split at h
    · simp at h
    · obtain ⟨_, hsize, -⟩ := bind_ok.mp h
      exact (ensure_ok.mp hsize).2

theorem classify_stored (hnatural : Natural aapcs64 records) {type : LlvmType}
    {returns variadic : Bool} {budget budget' : Budget} {native : NativeABIValue}
    (h : classify aapcs64 records type returns variadic budget = .ok (native, budget')) :
    native.Stored (layout aapcs64) returns := by
  have hstorage := (classify_ok hnatural h).storage
  unfold classify at h
  by_cases hvoid : type = .void
  · rw [if_pos hvoid] at h
    by_cases hreturns : returns = true
    · rw [if_pos hreturns] at h
      obtain ⟨rfl, -⟩ := Prod.mk.inj (Except.ok.inj h)
      exact .of_scalar (by rw [hstorage, hvoid]; rfl) rfl (by simp [hreturns])
    · simp [hreturns] at h
  rw [if_neg hvoid] at h
  obtain ⟨⟨info, budget₁⟩, hinformation, h⟩ := bind_ok.mp h
  have hinfo := information_ok hnatural hinformation
  have hlimit := size_information hinformation
  dsimp only at h
  by_cases hscalar : scalar aapcs64 type = true
  · rw [if_pos hscalar] at h
    obtain ⟨rfl, -⟩ := Prod.mk.inj (Except.ok.inj h)
    exact .of_scalar (by rw [hstorage]; cases type <;> simp_all [LlvmType.isAggregate, scalar]) rfl
      fun _ => rfl
  rw [if_neg hscalar] at h
  by_cases hstruct : type.isStruct = false
  · simp [hstruct] at h
  rw [if_neg hstruct] at h
  have hsame : native.storageSize = info.size ∧ native.storageAlignment = info.alignment := by
    split at h
    · split_ifs at h
      · obtain ⟨rfl, -⟩ := Prod.mk.inj (Except.ok.inj h)
        exact storage_classifyHomogeneous
      · obtain ⟨rfl, -⟩ := Prod.mk.inj (Except.ok.inj h)
        exact storage_classifyIntegers
    · obtain ⟨rfl, -⟩ := Prod.mk.inj (Except.ok.inj h)
      exact storage_classifyIntegers
  have hpos := hinfo.pos
  rw [hinfo.size] at hsame hpos
  rw [hinfo.alignment] at hsame
  exact .of_record (hstorage ▸ (Bool.not_eq_false _).mp hstruct) (hstorage ▸ hsame.1.symm)
    (hsame.2 ▸ abiAlign_le_maximum hpos hlimit)

/-- A record that is not indirect is one piece. -/
theorem classify_returned {type : LlvmType} (hstruct : type.isStruct = true)
    {returns variadic : Bool} {budget budget' : Budget} {native : NativeABIValue}
    (h : classify aapcs64 records type returns variadic budget = .ok (native, budget'))
    (hkind : native.kind ≠ .indirect) : ∃ physical, native.pieces = [⟨physical, 0⟩] := by
  have hintegers : ∀ {native' : NativeABIValue},
      (classifyIntegers aapcs64 native' returns).kind ≠ .indirect →
        ∃ physical, (classifyIntegers aapcs64 native' returns).pieces = [⟨physical, 0⟩] := by
    intro native'
    unfold classifyIntegers
    dsimp only
    split_ifs
    all_goals first | exact fun _ => ⟨_, rfl⟩ | exact fun hkind => absurd rfl hkind
  have hhomogeneous : ∀ {native' : NativeABIValue} {base : LlvmType} {members : ℕ},
      ∃ physical, (classifyHomogeneous aapcs64 native' type base members returns).pieces =
        [⟨physical, 0⟩] := by
    intro native' base members
    unfold classifyHomogeneous
    split_ifs <;> exact ⟨_, rfl⟩
  unfold classify at h
  have hvoid : type ≠ .void := by
    rintro rfl
    simp [LlvmType.isStruct] at hstruct
  have hscalar : scalar aapcs64 type ≠ true := by
    cases type <;> simp_all [LlvmType.isStruct, scalar]
  rw [if_neg hvoid] at h
  obtain ⟨⟨info, budget₁⟩, -, h⟩ := bind_ok.mp h
  dsimp only at h
  rw [if_neg hscalar, if_neg (by simp [hstruct])] at h
  split at h
  · split_ifs at h
    · obtain ⟨rfl, -⟩ := Prod.mk.inj (Except.ok.inj h)
      exact hhomogeneous
    · obtain ⟨rfl, -⟩ := Prod.mk.inj (Except.ok.inj h)
      exact hintegers hkind
  · obtain ⟨rfl, -⟩ := Prod.mk.inj (Except.ok.inj h)
    exact hintegers hkind

end NativeArmAbi

namespace NativeTarget

variable {target : NativeTarget} {logical : FunctionType} {ordered : List StructType}
  {signature : NativeABISignature}

theorem classify_stored (h : target.classify logical ordered = .ok signature) :
    signature.result.Stored target.layout true ∧
      ∀ value ∈ signature.parameters, value.Stored target.layout false := by
  have hx86 : ∀ {x64 : Bool}, NativeX86Abi.classifyNativeABI x64 ordered logical = .ok signature →
      signature.result.Stored (NativeX86Abi.layout x64) true ∧
        ∀ value ∈ signature.parameters, value.Stored (NativeX86Abi.layout x64) false := fun h =>
    NativeX86Abi.forall_values h (fun _ start hstored => hstored.placed start)
      NativeX86Abi.classify_stored
  have harm : ∀ {aapcs64 : Bool},
      NativeArmAbi.classifyNativeABI aapcs64 ordered logical = .ok signature →
        signature.result.Stored (NativeArmAbi.layout aapcs64) true ∧
          ∀ value ∈ signature.parameters,
            value.Stored (NativeArmAbi.layout aapcs64) false := fun h =>
    NativeArmAbi.forall_values h (fun _ start hstored => hstored.placed start)
      fun hnatural hclassify => NativeArmAbi.classify_stored hnatural hclassify
  cases target with
  | x86_64 => exact hx86 h
  | i686 => exact hx86 h
  | armv7 => exact harm h
  | aarch64 => exact harm h

/-- How a record is returned. Pieces are such that a load of the native result reads them, and
there are two of them just when x86-64 returns a record longer than one eightbyte. -/
structure Returns (target : NativeTarget) (result : NativeABIValue) : Prop where
  indirect : result.kind = .indirect → target = .x86_64 → 16 < result.storageSize
  returned : result.kind ≠ .indirect → result.Returned target.layout
  two : result.kind ≠ .indirect →
    (1 < result.pieces.length ↔ target = .x86_64 ∧ 8 < result.storageSize)
  limit : result.kind ≠ .indirect → target = .x86_64 → result.storageSize ≤ 16

theorem classify_returns (h : target.classify logical ordered = .ok signature)
    (hstruct : logical.result.isStruct = true) : target.Returns signature.result := by
  have hx86 : ∀ {x64 : Bool}, NativeX86Abi.classifyNativeABI x64 ordered logical = .ok signature →
      x64 = true ∧ NativeX86Abi.ReturnedPieces signature.result ∨
        x64 = false ∧ signature.result.kind = .indirect := by
    intro x64 h
    obtain ⟨⟨result, validated⟩, hresult, h⟩ := bind_ok.mp h
    obtain ⟨state, -, h⟩ := bind_ok.mp h
    obtain rfl := Except.ok.inj h
    exact NativeX86Abi.classify_returned hstruct (by simp) hresult
  have harm : ∀ {aapcs64 : Bool},
      NativeArmAbi.classifyNativeABI aapcs64 ordered logical = .ok signature →
        target ≠ .x86_64 → target.Returns signature.result := by
    intro aapcs64 h hne
    obtain ⟨-, -, h⟩ := bind_ok.mp h
    obtain ⟨-, -, h⟩ := bind_ok.mp h
    obtain ⟨budget, -, h⟩ := bind_ok.mp h
    obtain ⟨⟨result, budget₁⟩, hresult, h⟩ := bind_ok.mp h
    obtain ⟨state, -, h⟩ := bind_ok.mp h
    obtain rfl := Except.ok.inj h
    refine ⟨fun _ htarget => absurd htarget hne, fun hkind => ?_, fun hkind => ?_,
      fun _ htarget => absurd htarget hne⟩
    · obtain ⟨physical, hpieces⟩ := NativeArmAbi.classify_returned hstruct hresult hkind
      exact .one physical hpieces
    · obtain ⟨physical, hpieces⟩ := NativeArmAbi.classify_returned hstruct hresult hkind
      simp [hpieces, hne]
  cases target with
  | x86_64 =>
    rcases hx86 h with ⟨-, hpieces⟩ | ⟨hfalse, -⟩
    · exact ⟨fun hkind _ => hpieces.indirect hkind, hpieces.returned,
        fun hkind => by simpa using hpieces.two hkind, fun hkind _ => hpieces.size hkind⟩
    · cases hfalse
  | i686 =>
    rcases hx86 h with ⟨htrue, -⟩ | ⟨-, hkind⟩
    · cases htrue
    · exact ⟨fun _ htarget => absurd htarget (by decide), fun hne => absurd hkind hne,
        fun hne => absurd hkind hne, fun hne => absurd hkind hne⟩
  | armv7 => exact harm h (by decide)
  | aarch64 => exact harm h (by decide)

end NativeTarget

end Sela
