import Sela.NativeSignature

/-!
# The two x86 classifiers agree

Ordered records have two readings on x86 : the classifier of ordered records looks at the
leaves in each eightbyte, the classifier of semantic layouts at the spans of its natural
layout and at the type the storage prefers. On storage that nests at most thirty-two deep
the second accepts what the first accepts and returns the same signature
(`classifyNativeLayoutABI_natural`) :

* every check of the second classifier passes on qualified storage (`storage_ok`, `info_ok`);
* its spans are the leaves (`gather_ok`), and the type it prefers at the start of an
  eightbyte is the type of the leaf there (`preferred_iff`);
* so each eightbyte has the same piece and the same class (`eightbyte_agrees`).

A record that is walked from the outside in can be too deep for the second classifier when
the first has met its inside before (`deepLayout_refused`).
-/

namespace Sela

namespace LlvmType

mutual

/-- The levels of nesting under a type. -/
def height : LlvmType → ℕ
  | .array element _ => element.height + 1
  | .struct _ _ fields => fieldsHeight fields + 1
  | _ => 0

def fieldsHeight : List LlvmType → ℕ
  | [] => 0
  | field :: fields => max field.height (fieldsHeight fields)

end

theorem height_le_fieldsHeight {field : LlvmType} {fields : List LlvmType} (h : field ∈ fields) :
    field.height ≤ fieldsHeight fields := by
  induction fields with
  | nil => simp at h
  | cons first fields ih =>
    rw [fieldsHeight]
    rcases List.mem_cons.mp h with rfl | h
    · exact Nat.le_max_left _ _
    · exact (ih h).trans (Nat.le_max_right _ _)

/-- One type is another or lies inside it. -/
inductive Inside (inner : LlvmType) : LlvmType → Prop
  | refl : Inside inner inner
  | array {element : LlvmType} {count : ℕ} : Inside inner element →
    Inside inner (.array element count)
  | struct {identity : Option String} {packed : Bool} {fields : List LlvmType}
    {field : LlvmType} : field ∈ fields → Inside inner field →
    Inside inner (.struct identity packed fields)

theorem height_le_of_inside {inner type : LlvmType} (h : Inside inner type) :
    inner.height ≤ type.height := by
  induction h with
  | refl => exact le_rfl
  | array _ ih =>
    rw [height]
    omega
  | struct hfield _ ih =>
    have := height_le_fieldsHeight hfield
    rw [height]
    omega

end LlvmType

namespace NativeX86Agreement

open NativeX86Abi (layout sizeLimit Qualified Leaf leaves)
open NativeX86LayoutAbi

variable {x64 : Bool} {ordered : List StructType}

theorem ensure_of {condition : Prop} [Decidable condition] {message : String} (h : condition) :
    NativeX86LayoutAbi.ensure condition message = .ok () :=
  Checked.ensure_ok.mpr h

/-- The scalars of a field are the same for the two classifiers. -/
theorem scalar_eq (type : LlvmType) : scalar type = NativeAbi.scalar type true := by
  unfold scalar NativeAbi.scalar
  split <;> simp

/-- A boundary scalar is a field scalar or one bit. -/
theorem scalar_boundary {type : LlvmType} :
    NativeAbi.scalar type false = true ↔ scalar type = true ∨ type = .int 1 := by
  rw [scalar_eq]
  cases type with
  | scalar type =>
    cases type with
    | integer width =>
      simp only [NativeAbi.scalar, LlvmType.int, LlvmType.scalar.injEq, ScalarType.integer.injEq,
        Bool.or_eq_true, beq_iff_eq, Bool.not_false, Bool.true_and, Bool.not_true, Bool.false_and]
      grind
    | floating => simp [NativeAbi.scalar]
    | pointer => simp [NativeAbi.scalar]
  | _ => simp [NativeAbi.scalar]

/-! ## Qualified storage -/

theorem qualified_array {element : LlvmType} {count : ℕ}
    (h : Qualified (layout x64) ordered (.array element count)) :
    count ≠ 0 ∧ (layout x64).allocSize element ≠ 0 ∧
      count ≤ sizeLimit / (layout x64).allocSize element ∧
      Qualified (layout x64) ordered element := by
  cases h with
  | scalar _ h => simp [NativeAbi.scalar] at h
  | array _ _ hcount hsize hlimit h => exact ⟨hcount, hsize, hlimit, h⟩

theorem qualified_struct {identity : Option String} {packed : Bool} {fields : List LlvmType}
    (h : Qualified (layout x64) ordered (.struct identity packed fields)) :
    packed = false ∧ ⟨identity, false, fields⟩ ∈ ordered ∧ fields ≠ [] ∧
      (layout x64).fieldsEnd false 0 fields ≤ sizeLimit ∧
      (layout x64).allocSize (.struct identity false fields) ≤ sizeLimit ∧
      ∀ field ∈ fields, Qualified (layout x64) ordered field := by
  cases h with
  | scalar _ h => simp [NativeAbi.scalar] at h
  | struct _ _ hrecord hne hend hsize hfields => exact ⟨rfl, hrecord, hne, hend, hsize, hfields⟩

/-- What lies inside qualified storage is qualified. -/
theorem Qualified.inside {inner type : LlvmType} (h : Qualified (layout x64) ordered type)
    (hinside : LlvmType.Inside inner type) : Qualified (layout x64) ordered inner := by
  induction hinside with
  | refl => exact h
  | array _ ih => exact ih (qualified_array h).2.2.2
  | struct hfield _ ih => exact ih ((qualified_struct h).2.2.2.2.2 _ hfield)

mutual

/-- Qualified storage is a carrier that the second classifier admits. -/
theorem storage_ok : ∀ {type : LlvmType} {depth : ℕ} {checked : List LlvmType},
    Qualified (layout x64) ordered type → depth + type.height ≤ 32 →
      ∃ checked', storage x64 type depth checked = .ok checked'
  | .array element count, depth, checked, h, hdepth => by
    obtain ⟨hcount, hsize, hlimit, helement⟩ := qualified_array h
    rw [LlvmType.height] at hdepth
    have hcheck : depth ≤ 32 ∧ element.isSized = true := ⟨by omega, helement.isSized⟩
    obtain ⟨checked', hchecked⟩ := @storage_ok _ _ checked helement
      (show depth + 1 + element.height ≤ 32 by omega)
    have hsizeLimit : (layout x64).allocSize (.array element count) ≤ sizeLimit := by
      rw [DataLayout.allocSize_array]
      exact (Nat.le_div_iff_mul_le (Nat.pos_of_ne_zero hsize)).mp hlimit
    rw [storage, ensure_of hcheck, Checked.ok_bind]
    split_ifs
    · exact ⟨checked, rfl⟩
    · rw [hchecked, Checked.ok_bind, ensure_of ⟨hsize, hlimit⟩, Checked.ok_bind,
        ensure_of hsizeLimit]
      exact ⟨_, rfl⟩
  | .struct identity packed fields, depth, checked, h, hdepth => by
    obtain ⟨rfl, -, hne, hend, hsize, hfields⟩ := qualified_struct h
    rw [LlvmType.height] at hdepth
    have hcheck : depth ≤ 32 ∧ LlvmType.fieldsSized fields = true := ⟨by omega, h.isSized⟩
    obtain ⟨checked', hchecked⟩ := @storageFields_ok _ _ _ checked hfields
      (show depth + 1 + LlvmType.fieldsHeight fields ≤ 32 by omega) hend
    rw [storage, ensure_of hcheck, Checked.ok_bind]
    split_ifs
    · exact ⟨checked, rfl⟩
    · rw [hchecked, Checked.ok_bind, ensure_of hsize]
      exact ⟨_, rfl⟩
  | .scalar type, depth, checked, h, hdepth => by
    have hcheck : depth ≤ 32 ∧ (LlvmType.scalar type).isSized = true := ⟨by omega, rfl⟩
    have hscalar : scalar (.scalar type) = true := by
      cases h with
      | scalar _ h => rwa [scalar_eq]
    rw [storage, ensure_of hcheck, Checked.ok_bind]
    · split_ifs with hmem hstorage
      · exact ⟨checked, rfl⟩
      · exact ⟨_, rfl⟩
      · exact absurd (.inl hscalar) hstorage
    · simp
    · simp
  | .void, _, _, h, _ => by
    cases h with
    | scalar _ h => simp [NativeAbi.scalar] at h
  | .vector _ _, _, _, h, _ => by
    cases h with
    | scalar _ h => simp [NativeAbi.scalar] at h
  | .unsized _, _, _, h, _ => by
    cases h with
    | scalar _ h => simp [NativeAbi.scalar] at h

theorem storageFields_ok : ∀ {fields : List LlvmType} {depth bytes : ℕ} {checked : List LlvmType},
    (∀ field ∈ fields, Qualified (layout x64) ordered field) →
      depth + LlvmType.fieldsHeight fields ≤ 32 →
      (layout x64).fieldsEnd false bytes fields ≤ sizeLimit →
        ∃ checked', storageFields x64 false fields depth bytes checked = .ok checked'
  | [], _, _, checked, _, _, _ => ⟨checked, rfl⟩
  | field :: fields, depth, bytes, checked, h, hdepth, hend => by
    obtain ⟨hfield, hfields⟩ := List.forall_mem_cons.mp h
    rw [LlvmType.fieldsHeight] at hdepth
    rw [DataLayout.fieldsEnd_cons] at hend
    have hstop := @DataLayout.le_fieldsEnd (layout x64) false fields
      (alignTo bytes ((layout x64).fieldAlign false field) + (layout x64).allocSize field)
    obtain ⟨checked₁, hchecked₁⟩ := @storage_ok _ _ checked hfield
      (show depth + field.height ≤ 32 by omega)
    obtain ⟨checked₂, hchecked₂⟩ := @storageFields_ok _ _ _ checked₁ hfields
      (show depth + LlvmType.fieldsHeight fields ≤ 32 by omega) hend
    refine ⟨checked₂, ?_⟩
    rw [storageFields, hchecked₁, Checked.ok_bind]
    dsimp only
    rw [ensure_of ⟨by omega, by omega⟩, Checked.ok_bind]
    exact hchecked₂

end

/-! ## What is remembered -/

/-- The information of a type at its natural layout. -/
def natural (x64 : Bool) (type : LlvmType) : TypeInfo :=
  ⟨(layout x64).allocSize type, (layout x64).abiAlign type⟩

/-- The memo has every aggregate inside the type. -/
def Known (x64 : Bool) (memo : Memo) (type : LlvmType) : Prop :=
  ∀ inner, LlvmType.Inside inner type → inner.isAggregate = true →
    memo.semanticInfo.lookup inner = some (natural x64 inner)

/-- What the memo has is natural, and it has what lies inside. -/
structure MemoOk (x64 : Bool) (memo : Memo) : Prop where
  natural : ∀ {type found}, memo.semanticInfo.lookup type = some found →
    found = NativeX86Agreement.natural x64 type
  known : ∀ {type found}, memo.semanticInfo.lookup type = some found → Known x64 memo type

/-- The second memo has what the first has. -/
def Extends (memo memo' : Memo) : Prop :=
  ∀ type found, memo.semanticInfo.lookup type = some found →
    memo'.semanticInfo.lookup type = some found

theorem Extends.refl (memo : Memo) : Extends memo memo := fun _ _ h => h

theorem Extends.trans {a b c : Memo} (hab : Extends a b) (hbc : Extends b c) : Extends a c :=
  fun type found h => hbc type found (hab type found h)

theorem Known.mono {memo memo' : Memo} {type : LlvmType} (h : Known x64 memo type)
    (hextends : Extends memo memo') : Known x64 memo' type :=
  fun inner hinside haggregate => hextends inner _ (h inner hinside haggregate)

/-- Remembering one more type, all that lies strictly inside it being known. -/
theorem MemoOk.remember {memo : Memo} {checked : List LlvmType} {type : LlvmType}
    (h : MemoOk x64 memo)
    (hinside : ∀ inner, LlvmType.Inside inner type → inner ≠ type → inner.isAggregate = true →
      memo.semanticInfo.lookup inner = some (NativeX86Agreement.natural x64 inner)) :
    MemoOk x64 ⟨checked, (type, NativeX86Agreement.natural x64 type) :: memo.semanticInfo⟩ ∧
      Extends memo ⟨checked, (type, NativeX86Agreement.natural x64 type) :: memo.semanticInfo⟩ ∧
      Known x64 ⟨checked, (type, NativeX86Agreement.natural x64 type) :: memo.semanticInfo⟩
        type := by
  have hextends : Extends memo
      ⟨checked, (type, NativeX86Agreement.natural x64 type) :: memo.semanticInfo⟩ := by
    intro type' found hfound
    rw [List.lookup_cons]
    split
    · next heq =>
      obtain rfl : type' = type := by simpa using heq
      rw [h.natural hfound]
    · exact hfound
  have hknown : Known x64
      ⟨checked, (type, NativeX86Agreement.natural x64 type) :: memo.semanticInfo⟩ type := by
    intro inner hinner haggregate
    by_cases heq : inner = type
    · rw [heq]
      exact List.lookup_cons_self
    · exact hextends inner _ (hinside inner hinner heq haggregate)
  refine ⟨⟨?_, ?_⟩, hextends, hknown⟩
  · intro type' found hfound
    rw [List.lookup_cons] at hfound
    split at hfound
    · next heq =>
      obtain rfl : type' = type := by simpa using heq
      exact (Option.some.inj hfound).symm
    · exact h.natural hfound
  · intro type' found hfound
    rw [List.lookup_cons] at hfound
    split at hfound
    · next heq =>
      obtain rfl : type' = type := by simpa using heq
      exact hknown
    · exact (h.known hfound).mono hextends

/-- The field of a natural layout. -/
def toField (element : LlvmType × ℕ) : NativeABIFieldLayout :=
  ⟨element.1, element.2 * 8, none, false⟩

theorem fields_naturalLayout (record : StructType) :
    (record.naturalLayout (layout x64)).fields =
      ((layout x64).elements record.packed 0 record.fields).map toField := rfl

theorem findRecord_natural {record : StructType} (h : record ∈ ordered) :
    findRecord (ordered.map (StructType.naturalLayout (layout x64))) record =
      some (record.naturalLayout (layout x64)) := by
  unfold findRecord
  rcases hfound : (ordered.map (StructType.naturalLayout (layout x64))).find?
      fun description => description.storageType = record with _ | description
  · have := List.find?_eq_none.mp hfound _ (List.mem_map_of_mem h)
    simp [StructType.naturalLayout] at this
  · obtain ⟨record', -, rfl⟩ := List.mem_map.mp (List.mem_of_find?_eq_some hfound)
    have hstorage := @List.find?_some _ (fun description : NativeABIRecordLayout =>
      decide (description.storageType = record)) _ _ hfound
    rw [hfound, show record' = record from of_decide_eq_true hstorage]

/-- Walking the type of a field remembers it. -/
def Walks (x64 : Bool) (inner : LlvmType → Memo → Checked (TypeInfo × Memo)) (type : LlvmType) :
    Prop :=
  ∀ memo, MemoOk x64 memo → ∃ memo', inner type memo = .ok (natural x64 type, memo') ∧
    MemoOk x64 memo' ∧ Extends memo memo' ∧ Known x64 memo' type

/-- A field of an ordered record passes at an offset no earlier than the field before it
ends. -/
theorem walkField_ok {description : NativeABIRecordLayout}
    {inner : LlvmType → Memo → Checked (TypeInfo × Memo)} {type : LlvmType} {position : ℕ}
    {state : FieldState} {memo memo' : Memo} (hkind : description.kind = .ordered)
    (hinner : inner type memo = .ok (natural x64 type, memo'))
    (hpos : 0 < (layout x64).allocSize type)
    (hend : position + (layout x64).allocSize type ≤ description.sizeBytes)
    (hstop : state.stop ≤ position * 8) :
    walkField description inner (state, memo) (toField (type, position)) =
      .ok (⟨(position + (layout x64).allocSize type) * 8, true⟩, memo') := by
  have hbits : ((layout x64).allocSize type * 8 != 0) = true := by
    simpa using Nat.pos_iff_ne_zero.mp hpos
  have hstep : fieldStep description (toField (type, position))
      ((natural x64 type).size * 8) state =
      .ok ⟨(position + (layout x64).allocSize type) * 8, true⟩ := by
    refine Checked.bind_ok.mpr ⟨(), ensure_of ?_, Checked.bind_ok.mpr ⟨(), ensure_of ?_,
      Checked.bind_ok.mpr ⟨(), ensure_of ?_, ?_⟩⟩⟩
    · simp only [toField, natural]
      omega
    · simp [hkind]
    · simp only [toField, hkind, true_and]
      omega
    · simp [hkind, toField, natural, hbits, Nat.add_mul]
  have haligned : position * 8 % 8 = 0 := Nat.mul_mod_left _ _
  exact Checked.bind_ok.mpr ⟨(), ensure_of ⟨rfl, haligned⟩,
    Checked.bind_ok.mpr ⟨_, hinner, Checked.bind_ok.mpr ⟨_, hstep, rfl⟩⟩⟩

/-- The fields of an ordered record pass at their natural offsets. -/
theorem walkFields_ok {description : NativeABIRecordLayout}
    {inner : LlvmType → Memo → Checked (TypeInfo × Memo)} (hkind : description.kind = .ordered)
    {fields : List LlvmType} :
    ∀ {start : ℕ} {state : FieldState} {memo : Memo},
      (∀ field ∈ fields, Walks x64 inner field) →
      (∀ field ∈ fields, 0 < (layout x64).allocSize field) →
      (layout x64).fieldsEnd false start fields ≤ description.sizeBytes →
      state.stop ≤ start * 8 → MemoOk x64 memo →
        ∃ state' memo', (((layout x64).elements false start fields).map toField).foldlM
            (walkField description inner) (state, memo) = .ok (state', memo') ∧
          MemoOk x64 memo' ∧ Extends memo memo' ∧ (∀ field ∈ fields, Known x64 memo' field) ∧
          (state.data = true ∨ fields ≠ [] → state'.data = true) := by
  induction fields with
  | nil =>
    intro start state memo _ _ _ _ hmemo
    exact ⟨state, memo, rfl, hmemo, .refl memo, by simp, by simp⟩
  | cons field fields ih =>
    intro start state memo hwalks hpos hend hstop hmemo
    obtain ⟨hwalk, hwalks⟩ := List.forall_mem_cons.mp hwalks
    obtain ⟨hfieldPos, hpos⟩ := List.forall_mem_cons.mp hpos
    rw [DataLayout.fieldsEnd_cons] at hend
    rw [DataLayout.elements]
    have hstart := le_alignTo start ((layout x64).fieldAlign false field)
    generalize alignTo start ((layout x64).fieldAlign false field) = position at *
    have hfieldEnd := @DataLayout.le_fieldsEnd (layout x64) false fields
      (position + (layout x64).allocSize field)
    obtain ⟨memo₁, hinner, hmemo₁, hextends₁, hknown₁⟩ := hwalk memo hmemo
    have hstep := @walkField_ok _ _ _ _ _ state _ _ hkind hinner hfieldPos
      (hfieldEnd.trans hend) (by omega)
    obtain ⟨state', memo', hrest, hmemo', hextends', hknown', hdata⟩ :=
      @ih _ ⟨(position + (layout x64).allocSize field) * 8, true⟩ _ hwalks hpos hend
        le_rfl hmemo₁
    refine ⟨state', memo', ?_, hmemo', hextends₁.trans hextends',
      List.forall_mem_cons.mpr ⟨hknown₁.mono hextends', hknown'⟩, fun _ => hdata (.inl rfl)⟩
    rw [List.map_cons, Checked.foldlM_cons_ok]
    exact ⟨_, hstep, hrest⟩

/-- The natural layout of a qualified record has a valid extent. -/
theorem naturalLayout_valid (hfields : ∀ record ∈ ordered, record.fields.length ≤ 1024)
    {record : StructType} (h : Qualified (layout x64) ordered record.toType) :
    let description := record.naturalLayout (layout x64)
    description.sizeBytes ≠ 0 ∧ description.sizeBytes ≤ sizeLimit ∧
      description.alignment.value ≤ sizeLimit ∧
      description.sizeBytes % description.alignment.value = 0 ∧
      description.fields ≠ [] ∧ description.fields.length ≤ 1024 := by
  obtain ⟨hpacked, hrecord, hne, -, hsize, -⟩ := qualified_struct h
  have heq : (⟨record.identity, false, record.fields⟩ : StructType) = record := by rw [← hpacked]
  have hpos := h.allocSize_pos
  have hdvd := @DataLayout.value_dvd_allocSize (layout x64) record.toType
  have hlength : (record.naturalLayout (layout x64)).fields.length = record.fields.length := by
    rw [← List.length_map, StructType.map_type_naturalLayout]
  have hlimit : (layout x64).allocSize record.toType ≤ sizeLimit := by
    rw [← hpacked] at hsize
    exact hsize
  refine ⟨Nat.pos_iff_ne_zero.mp hpos, hlimit, (Nat.le_of_dvd hpos hdvd).trans hlimit,
    Nat.mod_eq_zero_of_dvd hdvd, ?_, hlength ▸ hfields _ (heq ▸ hrecord)⟩
  intro hnil
  rw [hnil] at hlength
  exact hne (List.length_eq_zero_iff.mp hlength.symm)

/-- The second classifier walks qualified storage that is not too deep, and finds its natural
size and alignment. -/
theorem info_ok (hfields : ∀ record ∈ ordered, record.fields.length ≤ 1024) :
    ∀ {levels : ℕ} {type : LlvmType} {active : List LlvmType},
      Qualified (layout x64) ordered type → type.height < levels → levels ≤ 33 →
      (∀ outer ∈ active, sizeOf type < sizeOf outer) →
        Walks x64 (info x64 (ordered.map (StructType.naturalLayout (layout x64))) levels active)
          type
  | 0, _, _, _, hlevels, _, _ => absurd hlevels (Nat.not_lt_zero _)
  | levels + 1, type, active, h, hlevels, hmax, hactive => by
    intro memo hmemo
    rcases hlookup : memo.semanticInfo.lookup type with _ | found
    · by_cases hscalar : scalar type = true
      · refine ⟨memo, ?_, hmemo, .refl memo, fun inner hinner haggregate => ?_⟩
        · cases type with
          | scalar =>
            simp only [info, hlookup, if_pos hscalar]
            rfl
          | _ => simp [scalar] at hscalar
        · cases hinner with
          | refl => cases type <;> simp_all [LlvmType.isAggregate, scalar]
          | array => simp [scalar] at hscalar
          | struct => simp [scalar] at hscalar
      have hnew : type ∉ active := fun hmem => Nat.lt_irrefl _ (hactive type hmem)
      cases type with
      | array element count =>
        obtain ⟨hcount, hsize, hlimit, helement⟩ := qualified_array h
        rw [LlvmType.height] at hlevels
        obtain ⟨memo₁, hinner, hmemo₁, hextends₁, hknown₁⟩ :=
          @info_ok hfields _ _ (.array element count :: active) helement
            (show element.height < levels by omega) (by omega) (by
              intro outer houter
              have hlt : sizeOf element < sizeOf (LlvmType.array element count) := by
                simp
                omega
              rcases List.mem_cons.mp houter with rfl | houter
              · exact hlt
              · exact hlt.trans (hactive outer houter)) memo hmemo
        obtain ⟨checked, hchecked⟩ := @storage_ok _ _ _ _ memo₁.checkedStorage h
          (show 0 + (LlvmType.array element count).height ≤ 32 by rw [LlvmType.height]; omega)
        have halloc := @DataLayout.allocSize_array (layout x64) element count
        have hresult : (⟨(natural x64 element).size * count, (natural x64 element).alignment⟩ :
            TypeInfo) = natural x64 (.array element count) := by
          simp only [natural, halloc, Nat.mul_comm count]
          rfl
        obtain ⟨hmemo', hextends', hknown'⟩ := @MemoOk.remember _ _ checked
          (.array element count) hmemo₁ fun inner hinside hne haggregate => by
            cases hinside with
            | refl => exact absurd rfl hne
            | array hinside => exact hknown₁ inner hinside haggregate
        refine ⟨_, ?_, hmemo', hextends₁.trans hextends', hknown'⟩
        simp only [info, hlookup, if_neg hscalar]
        refine Checked.bind_ok.mpr ⟨(), ensure_of hnew, Checked.bind_ok.mpr ⟨_, hinner,
          Checked.bind_ok.mpr ⟨(), ensure_of ⟨hcount, hsize, hlimit⟩, Checked.bind_ok.mpr
            ⟨checked, hchecked, Checked.bind_ok.mpr ⟨(), ensure_of ?_, ?_⟩⟩⟩⟩⟩
        · change (layout x64).allocSize (.array element count) =
            (layout x64).allocSize element * count
          rw [halloc, Nat.mul_comm]
        · dsimp only
          rw [hresult]
          rfl
      | struct identity packed fields =>
        obtain ⟨rfl, hrecord, hne, hend, hsize, hqualified⟩ := qualified_struct h
        rw [LlvmType.height] at hlevels
        obtain ⟨checked, hchecked⟩ := @storage_ok _ _ _ _ memo.checkedStorage h
          (show 0 + (LlvmType.struct identity false fields).height ≤ 32 by
            rw [LlvmType.height]; omega)
        have hstart : MemoOk x64 ⟨checked, memo.semanticInfo⟩ := ⟨hmemo.natural, hmemo.known⟩
        have hwalks : ∀ field ∈ fields, Walks x64
            (info x64 (ordered.map (StructType.naturalLayout (layout x64))) levels
              (.struct identity false fields :: active)) field := by
          intro field hfield
          have hheight := LlvmType.height_le_fieldsHeight hfield
          refine info_ok hfields (hqualified field hfield) (by omega) (by omega)
            fun outer houter => ?_
          have hlt : sizeOf field < sizeOf (LlvmType.struct identity false fields) := by
            have := List.sizeOf_lt_of_mem hfield
            simp
            omega
          rcases List.mem_cons.mp houter with rfl | houter
          · exact hlt
          · exact hlt.trans (hactive outer houter)
        have hfieldsEnd : (layout x64).fieldsEnd false 0 fields ≤
            (layout x64).allocSize (.struct identity false fields) := by
          rw [DataLayout.allocSize_struct, DataLayout.storeSize_struct]
          exact le_alignTo _ _
        obtain ⟨state, memo₁, hwalk, hmemo₁, hextends₁, hknown₁, hdata⟩ :=
          @walkFields_ok _ ((⟨identity, false, fields⟩ : StructType).naturalLayout (layout x64)) _
            rfl _ _ ⟨0, false⟩ _ hwalks (fun field hfield => (hqualified field hfield).allocSize_pos)
            hfieldsEnd (by simp) hstart
        obtain ⟨hmemo', hextends', hknown'⟩ := @MemoOk.remember _ _ memo₁.checkedStorage
          (.struct identity false fields) hmemo₁ fun inner hinside hne' haggregate => by
            cases hinside with
            | refl => exact absurd rfl hne'
            | struct hfield hinside => exact hknown₁ _ hfield inner hinside haggregate
        refine ⟨_, ?_, hmemo', (show Extends memo ⟨checked, memo.semanticInfo⟩ from
          fun _ _ hfound => hfound).trans (hextends₁.trans hextends'), hknown'⟩
        simp only [info, hlookup, if_neg hscalar, findRecord_natural hrecord]
        exact Checked.bind_ok.mpr ⟨(), ensure_of hnew, Checked.bind_ok.mpr ⟨(),
          ensure_of (naturalLayout_valid hfields h),
          Checked.bind_ok.mpr ⟨checked, hchecked, Checked.bind_ok.mpr ⟨(), ensure_of rfl,
            Checked.bind_ok.mpr ⟨_, hwalk, Checked.bind_ok.mpr
              ⟨(), ensure_of (hdata (.inr hne)), rfl⟩⟩⟩⟩⟩⟩
      | _ =>
        cases h with
        | scalar _ h => exact absurd ((scalar_eq _).trans h) hscalar
    · obtain rfl := hmemo.natural hlookup
      refine ⟨memo, ?_, hmemo, .refl memo, hmemo.known hlookup⟩
      cases type <;> simp [info, hlookup]

/-- Every semantic layout is checked and remembered. -/
theorem initializeRecords_ok (hnodup : ordered.Nodup)
    (hfields : ∀ record ∈ ordered, record.fields.length ≤ 1024)
    (hqualified : ∀ record ∈ ordered, Qualified (layout x64) ordered record.toType)
    (hheight : ∀ record ∈ ordered, record.toType.height ≤ 32) :
    ∃ memo, initializeRecords x64 (ordered.map (StructType.naturalLayout (layout x64))) = .ok memo ∧
      ∀ record ∈ ordered, Known x64 memo record.toType := by
  have hstorage : (ordered.map (StructType.naturalLayout (layout x64))).map
      NativeABIRecordLayout.storageType = ordered := by
    rw [List.map_map]
    exact List.map_id _
  have hrun : ∀ (rest : List StructType) (memo : Memo), (∀ record ∈ rest, record ∈ ordered) →
      MemoOk x64 memo → ∃ memo', (rest.map (StructType.naturalLayout (layout x64))).foldlM
          (fun memo description => do
            let found ← info x64 (ordered.map (StructType.naturalLayout (layout x64))) 33 []
              description.storageType.toType memo
            pure found.2) memo = .ok memo' ∧
        Extends memo memo' ∧ ∀ record ∈ rest, Known x64 memo' record.toType := by
    intro rest
    induction rest with
    | nil =>
      intro memo _ _
      exact ⟨memo, rfl, .refl memo, by simp⟩
    | cons record rest ih =>
      intro memo hmem hmemo
      obtain ⟨hrecord, hrest⟩ := List.forall_mem_cons.mp hmem
      obtain ⟨memo₁, hinfo, hmemo₁, hextends₁, hknown₁⟩ :=
        @info_ok _ _ hfields _ _ [] (hqualified record hrecord)
          (Nat.lt_succ_of_le (hheight record hrecord)) le_rfl (by simp) memo hmemo
      obtain ⟨memo', hfold, hextends, hknown⟩ := ih memo₁ hrest hmemo₁
      refine ⟨memo', ?_, hextends₁.trans hextends,
        List.forall_mem_cons.mpr ⟨hknown₁.mono hextends, hknown⟩⟩
      rw [List.map_cons, Checked.foldlM_cons_ok]
      exact ⟨memo₁, Checked.bind_ok.mpr ⟨_, hinfo, rfl⟩, hfold⟩
  obtain ⟨memo, hfold, -, hknown⟩ := hrun ordered ⟨[], []⟩ (fun _ h => h)
    ⟨by simp, by simp⟩
  exact ⟨memo, Checked.bind_ok.mpr ⟨(), ensure_of (hstorage.symm ▸ hnodup), hfold⟩, hknown⟩

/-! ## Leaves -/

theorem leaf_pos {start stop : ℕ} {leaf : Leaf} (h : leaf.Within (layout x64) start stop) :
    0 < leaf.size := by
  rw [h.size]
  exact (NativeX86Abi.fieldScalar_spec x64 h.scalar).1

/-- Each leaf ends before the next begins. -/
theorem leaves_pairwise {type : LlvmType} (h : Qualified (layout x64) ordered type) :
    ∀ offset, (leaves x64 type offset).Pairwise fun a b => a.offset + a.size ≤ b.offset := by
  induction h with
  | scalar type h =>
    intro offset
    rw [NativeX86Abi.leaves_of_scalar h]
    exact List.pairwise_singleton _ _
  | array element count hcount hsize hlimit helement ih =>
    intro offset
    rw [leaves, List.pairwise_flatMap]
    refine ⟨fun i _ => ih _, List.pairwise_lt_range.imp fun {i j} hij a ha b hb => ?_⟩
    have hstop := (NativeX86Abi.leaves_within helement a ha).le_stop
    have hstart := (NativeX86Abi.leaves_within helement b hb).start_le
    have hmul := Nat.mul_le_mul_right ((layout x64).allocSize element) hij
    rw [Nat.succ_mul] at hmul
    omega
  | struct identity fields hrecord hne hend hsize hfields ih =>
    intro offset
    rw [leaves, NativeX86Abi.fieldLeaves_eq, List.pairwise_flatMap]
    have hmem : ∀ element ∈ (layout x64).elements false 0 fields, element.1 ∈ fields := by
      intro element helement
      rw [← DataLayout.map_fst_elements (layout x64) false fields 0]
      exact List.mem_map_of_mem helement
    refine ⟨fun element helement => ih _ (hmem element helement) _, ?_⟩
    refine (@DataLayout.elements_pairwise (layout x64) false fields 0).imp_of_mem
      fun {f g} hf hg hfg a ha b hb => ?_
    have hstop := (NativeX86Abi.leaves_within (hfields _ (hmem f hf)) a ha).le_stop
    have hstart := (NativeX86Abi.leaves_within (hfields _ (hmem g hg)) b hb).start_le
    omega

/-- Leaves that follow one another are no more than the bytes they lie in. -/
theorem length_le_of_pairwise {stop : ℕ} {found : List Leaf} :
    ∀ {start : ℕ}, (∀ leaf ∈ found, leaf.Within (layout x64) start stop) →
      found.Pairwise (fun a b => a.offset + a.size ≤ b.offset) → found.length ≤ stop - start := by
  induction found with
  | nil => simp
  | cons leaf found ih =>
    intro start hwithin hpairwise
    obtain ⟨hleaf, hrest⟩ := List.forall_mem_cons.mp hwithin
    obtain ⟨hbefore, hpairwise⟩ := List.pairwise_cons.mp hpairwise
    have hpos := leaf_pos hleaf
    have hlength := @ih (start + 1) (fun b hb =>
      ⟨(hrest b hb).scalar, (hrest b hb).size, by
        have := hbefore b hb
        have := hleaf.start_le
        omega, (hrest b hb).le_stop⟩) hpairwise
    have hstart := hleaf.start_le
    have hstop := hleaf.le_stop
    rw [List.length_cons]
    omega

theorem length_leaves_le {type : LlvmType} (h : Qualified (layout x64) ordered type) (offset : ℕ) :
    (leaves x64 type offset).length ≤ (layout x64).allocSize type := by
  have := length_le_of_pairwise (NativeX86Abi.leaves_within h) (leaves_pairwise h offset)
  omega

theorem leaves_ne_nil {type : LlvmType} (h : Qualified (layout x64) ordered type) :
    ∀ offset, leaves x64 type offset ≠ [] := by
  induction h with
  | scalar type h =>
    intro offset
    simp [NativeX86Abi.leaves_of_scalar h]
  | array element count hcount hsize hlimit helement ih =>
    intro offset
    obtain ⟨count, rfl⟩ := Nat.exists_eq_succ_of_ne_zero hcount
    rw [leaves, List.range_succ_eq_map, List.flatMap_cons]
    exact List.append_ne_nil_of_left_ne_nil (ih _) _
  | struct identity fields hrecord hne hend hsize hfields ih =>
    intro offset
    obtain ⟨field, rest, rfl⟩ := List.exists_cons_of_ne_nil hne
    rw [leaves, NativeX86Abi.fieldLeaves_eq, DataLayout.elements, List.flatMap_cons]
    exact List.append_ne_nil_of_left_ne_nil (ih field (by simp) _) _

/-! ## The preferred type -/

/-- `preferred` finds the leaf of a type that begins at each offset. -/
def Finds (x64 : Bool) (type : LlvmType) : Prop :=
  ∀ start offset found, preferred x64 type offset = some found ↔
    ∃ leaf ∈ leaves x64 type start, leaf.offset = start + offset ∧ leaf.type = found

/-- The last field that begins no later than `offset` has the leaf there, if any has. -/
theorem preferredField_iff {fields : List LlvmType} {start offset : ℕ} {found : LlvmType} :
    ∀ {first : ℕ}, (∀ field ∈ fields, Qualified (layout x64) ordered field) →
      (∀ field ∈ fields, Finds x64 field) →
      (∀ element, ((layout x64).elements false first fields).head? = some element →
        element.2 ≤ offset) →
      (preferredField x64 false first offset fields = some found ↔
        ∃ element ∈ (layout x64).elements false first fields,
          ∃ leaf ∈ leaves x64 element.1 (start + element.2),
            leaf.offset = start + offset ∧ leaf.type = found) := by
  induction fields with
  | nil => simp [preferredField, DataLayout.elements]
  | cons field fields ih =>
    intro first hqualified hfinds hhead
    obtain ⟨hfield, hqualified⟩ := List.forall_mem_cons.mp hqualified
    obtain ⟨hfind, hfinds⟩ := List.forall_mem_cons.mp hfinds
    have hpairwise := @DataLayout.elements_pairwise (layout x64) false (field :: fields)
      first
    rw [DataLayout.elements] at hhead hpairwise ⊢
    rw [preferredField]
    generalize alignTo first ((layout x64).fieldAlign false field) = position at *
    have hposition : position ≤ offset := hhead _ rfl
    obtain ⟨hbefore, hpairwise⟩ := List.pairwise_cons.mp hpairwise
    -- the field that begins at `position` has its leaf at the remaining offset
    have hhere := hfind (start + position) (offset - position) found
    rw [show start + position + (offset - position) = start + offset by omega] at hhere
    simp only [List.exists_mem_cons_iff]
    rcases hrest : (layout x64).elements false (position + (layout x64).allocSize field) fields with
      _ | ⟨next, rest⟩
    · simpa using hhere
    dsimp only
    have hnext : position + (layout x64).allocSize field ≤ next.2 := by
      rw [hrest] at hbefore
      exact hbefore next (by simp)
    split_ifs with hpast
    · have hih := @ih (position + (layout x64).allocSize field) hqualified hfinds
        (by rw [hrest]; rintro element ⟨⟩; exact hpast)
      rw [hih, hrest, List.exists_mem_cons_iff]
      refine ⟨.inr, fun h => h.resolve_left ?_⟩
      rintro ⟨leaf, hleaf, heq, -⟩
      have hwithin := NativeX86Abi.leaves_within hfield leaf hleaf
      have hpos := leaf_pos hwithin
      have hstop := hwithin.le_stop
      omega
    · rw [hhere]
      refine ⟨.inl, fun h => h.resolve_right fun hlater => ?_⟩
      obtain ⟨element, helement, leaf, hleaf, heq, -⟩ := hlater
      have hlate : next.2 ≤ element.2 := by
        rcases List.mem_cons.mp helement with rfl | helement
        · exact le_rfl
        · rw [hrest] at hpairwise
          have := (List.pairwise_cons.mp hpairwise).1 element helement
          omega
      have hmem : element.1 ∈ fields := by
        rw [← DataLayout.map_fst_elements (layout x64) false fields
          (position + (layout x64).allocSize field), hrest]
        exact List.mem_map_of_mem helement
      have hwithin := NativeX86Abi.leaves_within (hqualified _ hmem) leaf hleaf
      have hstart := hwithin.start_le
      omega

/-- The type preferred at an offset is the type of the leaf that begins there. -/
theorem preferred_iff {type : LlvmType} (h : Qualified (layout x64) ordered type) :
    Finds x64 type := by
  induction h with
  | scalar type h =>
    intro start offset found
    have hpos : 0 < (layout x64).allocSize type := by
      obtain ⟨hpos, -, -, heq⟩ := NativeX86Abi.fieldScalar_spec x64 h
      omega
    have hpreferred : preferred x64 type offset = if offset = 0 then some type else none := by
      cases type with
      | scalar =>
        rw [preferred]
        · split_ifs <;> first | rfl | omega
        · simp
        · simp
      | _ => simp [NativeAbi.scalar] at h
    rw [hpreferred, NativeX86Abi.leaves_of_scalar h]
    simp
  | array element count hcount hsize hlimit helement ih =>
    intro start offset found
    have halloc := @DataLayout.allocSize_array (layout x64) element count
    rw [preferred, leaves, if_neg hsize]
    split_ifs with hout
    · refine ⟨by simp, ?_⟩
      rintro ⟨leaf, hleaf, heq, -⟩
      obtain ⟨i, hi, hleaf⟩ := List.mem_flatMap.mp hleaf
      have hwithin := NativeX86Abi.leaves_within helement leaf hleaf
      have hpos := leaf_pos hwithin
      have hstop := hwithin.le_stop
      have hmul := Nat.mul_le_mul_right ((layout x64).allocSize element)
        (show i + 1 ≤ count from List.mem_range.mp hi)
      rw [Nat.succ_mul] at hmul
      omega
    · have hpos := Nat.pos_of_ne_zero hsize
      have hdiv := Nat.div_add_mod offset ((layout x64).allocSize element)
      have hmod := Nat.mod_lt offset hpos
      rw [ih (start + offset / (layout x64).allocSize element * (layout x64).allocSize element)]
      constructor
      · rintro ⟨leaf, hleaf, heq, htype⟩
        refine ⟨leaf, List.mem_flatMap.mpr ⟨offset / (layout x64).allocSize element,
          List.mem_range.mpr ?_, hleaf⟩, ?_, htype⟩
        · exact Nat.div_lt_of_lt_mul (by rw [Nat.mul_comm, ← halloc]; omega)
        · rw [Nat.mul_comm] at heq
          omega
      · rintro ⟨leaf, hleaf, heq, htype⟩
        obtain ⟨i, -, hleaf⟩ := List.mem_flatMap.mp hleaf
        have hwithin := NativeX86Abi.leaves_within helement leaf hleaf
        have hleafPos := leaf_pos hwithin
        have hstop := hwithin.le_stop
        have hstart := hwithin.start_le
        have hquotient : offset / (layout x64).allocSize element = i := by
          refine Nat.div_eq_of_lt_le ?_ ?_
          · omega
          · rw [Nat.succ_mul]
            omega
        rw [hquotient]
        refine ⟨leaf, hleaf, ?_, htype⟩
        rw [hquotient, Nat.mul_comm] at hdiv
        omega
  | struct identity fields hrecord hne hend hsize hfields ih =>
    intro start offset found
    have hmem : ∀ element ∈ (layout x64).elements false 0 fields, element.1 ∈ fields := by
      intro element helement
      rw [← DataLayout.map_fst_elements (layout x64) false fields 0]
      exact List.mem_map_of_mem helement
    rw [preferred, leaves, NativeX86Abi.fieldLeaves_eq]
    simp only [List.mem_flatMap]
    split_ifs with hout
    · refine ⟨by simp, ?_⟩
      rintro ⟨leaf, ⟨element, helement, hleaf⟩, heq, -⟩
      have hwithin := NativeX86Abi.leaves_within (hfields _ (hmem element helement)) leaf hleaf
      have hpos := leaf_pos hwithin
      have hstop := hwithin.le_stop
      have := DataLayout.end_le_allocSize identity helement
      omega
    · rw [@preferredField_iff _ _ _ start _ _ _ hfields ih ?_]
      · constructor
        · rintro ⟨element, helement, leaf, hleaf, heq⟩
          exact ⟨leaf, ⟨element, helement, hleaf⟩, heq⟩
        · rintro ⟨leaf, ⟨element, helement, hleaf⟩, heq⟩
          exact ⟨element, helement, leaf, hleaf, heq⟩
      · intro element helement
        obtain ⟨field, rest, rfl⟩ := List.exists_cons_of_ne_nil hne
        rw [DataLayout.elements, List.head?_cons] at helement
        obtain rfl := Option.some.inj helement
        have := alignTo_of_dvd (Nat.dvd_zero ((layout x64).fieldAlign false field).value)
        dsimp only
        omega

/-! ## Spans -/

/-- The bits of a leaf. -/
def spanOf (leaf : Leaf) : Span :=
  ⟨leaf.type, leaf.offset * 8, (leaf.offset + leaf.size) * 8, false⟩

/-- A gatherer that finds the leaves of a type wherever it may stand. -/
def Gathers (x64 : Bool) (inner : LlvmType → ℕ → List Span × Bool → Option (List Span × Bool))
    (type : LlvmType) : Prop :=
  ∀ start spans, ((layout x64).abiAlign type).value ∣ start →
    spans.length + (leaves x64 type start).length ≤ 4096 →
      inner type (start * 8) (spans, false) =
        some (spans ++ (leaves x64 type start).map spanOf, false)

theorem gatherElements_ok {inner : LlvmType → ℕ → List Span × Bool → Option (List Span × Bool)}
    {element : LlvmType} {start : ℕ} (h : Gathers x64 inner element)
    (hstart : ((layout x64).abiAlign element).value ∣ start) {positions : List ℕ} :
    ∀ {spans : List Span},
      spans.length + (positions.flatMap fun i =>
        leaves x64 element (start + i * (layout x64).allocSize element)).length ≤ 4096 →
      positions.foldlM (fun found i =>
          inner element (start * 8 + i * ((layout x64).allocSize element * 8)) found)
          (spans, false) =
        some (spans ++ (positions.flatMap fun i =>
          leaves x64 element (start + i * (layout x64).allocSize element)).map spanOf, false) := by
  induction positions with
  | nil => simp
  | cons i positions ih =>
    intro spans hlength
    rw [List.flatMap_cons, List.length_append] at hlength
    have hposition : start * 8 + i * ((layout x64).allocSize element * 8) =
        (start + i * (layout x64).allocSize element) * 8 := by ring
    have haligned : ((layout x64).abiAlign element).value ∣
        start + i * (layout x64).allocSize element :=
      Nat.dvd_add hstart ((DataLayout.value_dvd_allocSize element).mul_left i)
    rw [List.foldlM_cons, hposition, h _ spans haligned (by omega), List.flatMap_cons,
      List.map_append, ← List.append_assoc]
    refine ih ?_
    rw [List.length_append, List.length_map]
    omega

theorem fieldAlignment_eq {memo : Memo} {type : LlvmType}
    (h : Qualified (layout x64) ordered type) (hknown : Known x64 memo type) :
    fieldAlignment x64 memo type = (layout x64).abiAlign type := by
  unfold fieldAlignment
  split_ifs with hscalar
  · rfl
  · have haggregate : type.isAggregate = true := by
      cases h with
      | scalar _ h => exact absurd ((scalar_eq type).trans h) hscalar
      | array => rfl
      | struct => rfl
    rw [hknown type .refl haggregate]
    rfl

theorem gatherFields_ok {memo : Memo}
    {inner : LlvmType → ℕ → List Span × Bool → Option (List Span × Bool)} {start : ℕ}
    {elements : List (LlvmType × ℕ)} :
    ∀ {spans : List Span}, (∀ element ∈ elements, Gathers x64 inner element.1) →
      (∀ element ∈ elements, Qualified (layout x64) ordered element.1) →
      (∀ element ∈ elements, Known x64 memo element.1) →
      (∀ element ∈ elements, ((layout x64).abiAlign element.1).value ∣ start + element.2) →
      spans.length + (elements.flatMap fun element =>
        leaves x64 element.1 (start + element.2)).length ≤ 4096 →
      (elements.map toField).foldlM (gatherField x64 memo inner (start * 8)) (spans, false) =
        some (spans ++ (elements.flatMap fun element =>
          leaves x64 element.1 (start + element.2)).map spanOf, false) := by
  induction elements with
  | nil => simp
  | cons element elements ih =>
    intro spans hgathers hqualified hknown haligned hlength
    obtain ⟨hgather, hgathers⟩ := List.forall_mem_cons.mp hgathers
    obtain ⟨hfield, hqualified⟩ := List.forall_mem_cons.mp hqualified
    obtain ⟨hknow, hknown⟩ := List.forall_mem_cons.mp hknown
    obtain ⟨halign, haligned⟩ := List.forall_mem_cons.mp haligned
    rw [List.flatMap_cons, List.length_append] at hlength
    have hsome := List.length_pos_iff.mpr (leaves_ne_nil hfield (start + element.2))
    have hroom : ¬spans.length ≥ 4096 := by omega
    have hposition : start * 8 + element.2 * 8 = (start + element.2) * 8 := by ring
    have hmod : (start + element.2) * 8 % (((layout x64).abiAlign element.1).value * 8) = 0 :=
      Nat.mod_eq_zero_of_dvd (Nat.mul_dvd_mul_right halign 8)
    have hstep : gatherField x64 memo inner (start * 8) (spans, false) (toField element) =
        some (spans ++ (leaves x64 element.1 (start + element.2)).map spanOf, false) := by
      have := hgather (start + element.2) spans halign (by omega)
      simp [gatherField, toField, hroom, fieldAlignment_eq hfield hknow, hposition, hmod, this]
    rw [List.map_cons, List.foldlM_cons, hstep, List.flatMap_cons, List.map_append,
      ← List.append_assoc]
    refine ih hgathers hqualified hknown haligned ?_
    rw [List.length_append, List.length_map]
    omega

/-- The spans of qualified storage are its leaves, and every field is aligned. -/
theorem gather_ok {memo : Memo} :
    ∀ {levels : ℕ} {type : LlvmType}, Qualified (layout x64) ordered type →
      Known x64 memo type → type.height < levels →
        Gathers x64 (gather x64 (ordered.map (StructType.naturalLayout (layout x64))) memo levels)
          type
  | 0, _, _, _, hlevels => absurd hlevels (Nat.not_lt_zero _)
  | levels + 1, type, h, hknown, hlevels => by
    intro start spans haligned hlength
    have hsome := List.length_pos_iff.mpr (leaves_ne_nil h start)
    have hroom : ¬spans.length ≥ 4096 := by omega
    by_cases hscalar : scalar type = true
    · rw [NativeX86Abi.leaves_of_scalar ((scalar_eq type).symm.trans hscalar)]
      cases type with
      | scalar => simp [gather, hroom, hscalar, spanOf, Nat.add_mul]
      | _ => simp [scalar] at hscalar
    cases type with
    | array element count =>
      have helement := (qualified_array h).2.2.2
      rw [LlvmType.height] at hlevels
      rw [leaves] at hlength ⊢
      simp only [gather, if_neg hroom, if_neg hscalar]
      exact gatherElements_ok (gather_ok helement
        (fun inner hinside => hknown inner (.array hinside)) (by omega)) haligned hlength
    | struct identity packed fields =>
      obtain ⟨rfl, hrecord, hne, -, -, hfields⟩ := qualified_struct h
      have hmem : ∀ element ∈ (layout x64).elements false 0 fields, element.1 ∈ fields := by
        intro element helement
        rw [← DataLayout.map_fst_elements (layout x64) false fields 0]
        exact List.mem_map_of_mem helement
      rw [LlvmType.height] at hlevels
      rw [leaves, NativeX86Abi.fieldLeaves_eq] at hlength ⊢
      simp only [gather, if_neg hroom, if_neg hscalar, findRecord_natural hrecord,
        fields_naturalLayout]
      refine gatherFields_ok (fun element helement => ?_)
        (fun element helement => hfields _ (hmem element helement))
        (fun element helement inner hinside =>
          hknown inner (.struct (hmem element helement) hinside))
        (fun element helement => ?_) hlength
      · have hheight := LlvmType.height_le_fieldsHeight (hmem element helement)
        exact gather_ok (hfields _ (hmem element helement))
          (fun inner hinside => hknown inner (.struct (hmem element helement) hinside)) (by omega)
      · have hle : (layout x64).abiAlign element.1 ≤ (layout x64).fieldsAlign fields :=
          DataLayout.abiAlign_le_fieldsAlign (hmem element helement)
        have hstruct : ((layout x64).fieldsAlign fields).value ∣ start := by
          rwa [DataLayout.abiAlign] at haligned
        exact Nat.dvd_add ((Align.value_dvd hle).trans hstruct)
          (DataLayout.dvd_of_mem_elements helement)
    | _ =>
      cases h with
      | scalar _ h => exact absurd ((scalar_eq _).trans h) hscalar

/-! ## Eightbytes -/

theorem meets_spanOf (offset : ℕ) (leaf : Leaf) :
    (spanOf leaf).meets offset = leaf.meets offset := by
  unfold Span.meets Leaf.meets spanOf
  rw [decide_eq_decide]
  constructor <;> rintro ⟨hstart, hstop⟩ <;> dsimp only at * <;> omega

theorem filter_spans (offset : ℕ) (found : List Leaf) :
    (found.map spanOf).filter (Span.meets offset) =
      (found.filter (Leaf.meets offset)).map spanOf := by
  rw [List.filter_map]
  congr 1
  exact List.filter_congr fun leaf _ => meets_spanOf offset leaf

/-- A word scalar of a record on x86-64 with its size. -/
theorem word_cases {type : LlvmType} (h : NativeAbi.scalar type true = true)
    (hword : NativeX86Abi.isWord type = true) :
    type = .ptr ∧ (layout true).storeSize type = 8 ∨
      type = .int 64 ∧ (layout true).storeSize type = 8 ∨
      ∃ width, type = .int width ∧ (width = 8 ∨ width = 16 ∨ width = 32) ∧
        width = 8 * (layout true).storeSize type := by
  have hmem := NativeAbi.scalar_field_iff.mp h
  simp only [NativeAbi.fieldScalars, List.mem_cons, List.not_mem_nil, or_false] at hmem
  rcases hmem with rfl | rfl | rfl | rfl | rfl | rfl | rfl
  · exact .inr (.inr ⟨8, rfl, .inl rfl, rfl⟩)
  · exact .inr (.inr ⟨16, rfl, .inr (.inl rfl), rfl⟩)
  · exact .inr (.inr ⟨32, rfl, .inr (.inr rfl), rfl⟩)
  · exact .inr (.inl ⟨rfl, rfl⟩)
  · simp [NativeX86Abi.isWord, LlvmType.isInteger, LlvmType.isPointer] at hword
  · simp [NativeX86Abi.isWord, LlvmType.isInteger, LlvmType.isPointer] at hword
  · exact .inl ⟨rfl, rfl⟩

/-- The leaves of an eightbyte, the first of which is `first`. -/
structure Chunk (type : LlvmType) (offset : ℕ) (first : Leaf) (rest : List Leaf) : Prop where
  filter : (leaves true type 0).filter (Leaf.meets offset) = first :: rest
  inside : ∀ leaf ∈ first :: rest, offset ≤ leaf.offset ∧ leaf.offset + leaf.size ≤ offset + 8
  pairwise : (first :: rest).Pairwise fun a b => a.offset + a.size ≤ b.offset
  within : ∀ leaf ∈ first :: rest,
    leaf.Within (layout true) 0 ((layout true).allocSize type)

theorem Chunk.mem_iff {type : LlvmType} {offset : ℕ} {first : Leaf} {rest : List Leaf}
    (h : Chunk type offset first rest) {leaf : Leaf} :
    leaf ∈ first :: rest ↔ leaf ∈ leaves true type 0 ∧ leaf.meets offset = true := by
  rw [← h.filter, List.mem_filter]

/-- Only the first leaf of an eightbyte can begin where the eightbyte does. -/
theorem Chunk.preferred {type : LlvmType} {offset : ℕ} {first : Leaf} {rest : List Leaf}
    (htype : Qualified (layout true) ordered type) (h : Chunk type offset first rest) :
    preferred true type offset = if first.offset = offset then some first.type else none := by
  ext found
  rw [preferred_iff htype 0 offset found]
  have hfirst : first ∈ leaves true type 0 := (h.mem_iff.mp (by simp)).1
  constructor
  · rintro ⟨leaf, hleaf, heq, rfl⟩
    rw [Nat.zero_add] at heq
    have hpos := leaf_pos (NativeX86Abi.leaves_within htype leaf hleaf)
    have hmem : leaf ∈ first :: rest := by
      refine h.mem_iff.mpr ⟨hleaf, ?_⟩
      simp only [Leaf.meets, decide_eq_true_eq]
      omega
    rcases List.mem_cons.mp hmem with rfl | hmem
    · rw [if_pos heq]
    · have hbefore := (List.pairwise_cons.mp h.pairwise).1 leaf hmem
      have hfirstPos := leaf_pos (h.within first (by simp))
      have := (h.inside first (by simp)).1
      omega
  · intro hfound
    split_ifs at hfound with heq
    · exact ⟨first, hfirst, by omega, Option.some.inj hfound⟩

/-- The word of an eightbyte of class integer. -/
theorem Chunk.integerPiece {type : LlvmType} {offset size : ℕ} {first : Leaf} {rest : List Leaf}
    (h : Chunk type offset first rest) :
    integerPiece size offset ((leaves true type 0).map spanOf)
        (if first.offset = offset then some first.type else none) =
      if rest = [] ∧ first.offset = offset ∧ NativeX86Abi.isWord first.type = true then first.type
      else .int (8 * min 8 (size - offset)) := by
  have hfirst := h.within first (by simp)
  have hmul : min 8 (size - offset) * 8 = 8 * min 8 (size - offset) := Nat.mul_comm _ _
  -- a second leaf of the eightbyte begins after the first ends
  have hsecond : ∀ second ∈ rest, first.offset + first.size ≤ second.offset ∧
      second.offset + second.size ≤ offset + 8 ∧ 0 < second.size := fun second hmem =>
    ⟨(List.pairwise_cons.mp h.pairwise).1 second hmem,
      (h.inside second (List.mem_cons_of_mem _ hmem)).2,
      leaf_pos (h.within second (List.mem_cons_of_mem _ hmem))⟩
  by_cases hstart : first.offset = offset
  · rw [if_pos hstart]
    by_cases hword : NativeX86Abi.isWord first.type = true
    · have hsize := hfirst.size
      rcases word_cases hfirst.scalar hword with ⟨heq, hstore⟩ | ⟨heq, hstore⟩ |
        ⟨width, heq, hwidth, hstore⟩
      · have hnil : rest = [] := List.eq_nil_iff_forall_not_mem.mpr fun second hmem => by
          have := hsecond second hmem
          omega
        rw [if_pos ⟨hnil, hstart, hword⟩, heq]
        rfl
      · have hnil : rest = [] := List.eq_nil_iff_forall_not_mem.mpr fun second hmem => by
          have := hsecond second hmem
          omega
        rw [if_pos ⟨hnil, hstart, hword⟩, heq]
        rfl
      · have h64 : width ≠ 64 := by omega
        rw [heq]
        simp only [NativeX86LayoutAbi.integerPiece, if_neg h64, if_pos hwidth]
        rw [heq] at hword
        simp only [hword, hstart, and_true]
        by_cases hnil : rest = []
        · rw [if_pos hnil, if_neg]
          simp only [List.any_map, List.any_eq_true, Function.comp_apply, decide_eq_true_eq,
            not_exists, not_and]
          intro leaf hleaf hbegin hend
          simp only [spanOf] at hbegin hend
          have hmem : leaf ∈ first :: rest := by
            refine h.mem_iff.mpr ⟨hleaf, ?_⟩
            simp only [Leaf.meets, decide_eq_true_eq]
            omega
          rw [hnil] at hmem
          obtain rfl := List.mem_singleton.mp hmem
          omega
        · rw [if_neg hnil, if_pos, hmul]
          obtain ⟨second, rest', rfl⟩ := List.exists_cons_of_ne_nil hnil
          have hlater := hsecond second (by simp)
          have hmem : second ∈ leaves true type 0 := (h.mem_iff.mp (by simp)).1
          simp only [List.any_map, List.any_eq_true, Function.comp_apply, decide_eq_true_eq]
          refine ⟨second, hmem, ?_, ?_⟩
          · simp only [spanOf]
            omega
          · simp only [spanOf]
            omega
    · rw [if_neg fun hand => hword hand.2.2]
      have hmem := NativeAbi.scalar_field_iff.mp hfirst.scalar
      simp only [NativeAbi.fieldScalars, List.mem_cons, List.not_mem_nil, or_false] at hmem
      rcases hmem with heq | heq | heq | heq | heq | heq | heq <;> rw [heq] at hword ⊢ <;>
        simp_all [NativeX86LayoutAbi.integerPiece, NativeX86Abi.isWord, LlvmType.isInteger,
          LlvmType.isPointer]
  · rw [if_neg hstart, if_neg fun hand => hstart hand.2.1]
    simp only [NativeX86LayoutAbi.integerPiece, hmul]

/-- A scalar of a record that is no word. -/
theorem float_cases {type : LlvmType} (h : NativeAbi.scalar type true = true)
    (hword : NativeX86Abi.isWord type = false) : type = .floatTy ∨ type = .doubleTy := by
  have hmem := NativeAbi.scalar_field_iff.mp h
  simp only [NativeAbi.fieldScalars, List.mem_cons, List.not_mem_nil, or_false] at hmem
  rcases hmem with rfl | rfl | rfl | rfl | rfl | rfl | rfl
  · simp [NativeX86Abi.isWord, LlvmType.isInteger] at hword
  · simp [NativeX86Abi.isWord, LlvmType.isInteger] at hword
  · simp [NativeX86Abi.isWord, LlvmType.isInteger] at hword
  · simp [NativeX86Abi.isWord, LlvmType.isInteger] at hword
  · exact .inl rfl
  · exact .inr rfl
  · simp [NativeX86Abi.isWord, LlvmType.isPointer] at hword

/-- The type preferred in the upper half of an eightbyte that begins with a float. -/
theorem Chunk.preferred_upper {type : LlvmType} {offset : ℕ} {first : Leaf} {rest : List Leaf}
    (htype : Qualified (layout true) ordered type) (h : Chunk type offset first rest)
    (hstart : first.offset = offset) {found : LlvmType} :
    NativeX86LayoutAbi.preferred true type (offset + 4) = some found ↔
      ∃ leaf ∈ rest, leaf.offset = offset + 4 ∧ leaf.type = found := by
  rw [preferred_iff htype 0 (offset + 4) found]
  simp only [Nat.zero_add]
  constructor
  · rintro ⟨leaf, hleaf, heq, htypes⟩
    have hpos := leaf_pos (NativeX86Abi.leaves_within htype leaf hleaf)
    have hmem : leaf ∈ first :: rest := by
      refine h.mem_iff.mpr ⟨hleaf, ?_⟩
      simp only [Leaf.meets, decide_eq_true_eq]
      omega
    rcases List.mem_cons.mp hmem with rfl | hmem
    · omega
    · exact ⟨leaf, hmem, heq, htypes⟩
  · rintro ⟨leaf, hmem, heq, htypes⟩
    exact ⟨leaf, (h.mem_iff.mp (List.mem_cons_of_mem _ hmem)).1, heq, htypes⟩

/-- The two classifiers give an eightbyte the same piece and the same class. -/
theorem eightbyte_agrees {type : LlvmType} (htype : Qualified (layout true) ordered type)
    {offset : ℕ} (hoffset : offset < (layout true).allocSize type)
    {entry : NativeABIPiece × Bool}
    (h : NativeX86Abi.eightbyte ((layout true).allocSize type) (leaves true type 0) offset =
      .ok entry) :
    eightbyte true type ((layout true).allocSize type) ((leaves true type 0).map spanOf) offset =
      .ok (some entry) := by
  simp only [NativeX86Abi.eightbyte, Checked.bind_ok, Checked.pure_eq_ok, Except.ok.injEq] at h
  obtain ⟨found, hchunk, piece, hpiece, rfl⟩ := h
  obtain ⟨hfilter, hinside⟩ := NativeX86Abi.chunk_ok.mp hchunk
  rcases found with _ | ⟨first, rest⟩
  · simp [NativeX86Abi.eightbytePiece] at hpiece
  have hwithin : ∀ leaf ∈ first :: rest,
      leaf.Within (layout true) 0 ((layout true).allocSize type) := by
    intro leaf hleaf
    rw [hfilter] at hleaf
    simpa using NativeX86Abi.leaves_within htype leaf (List.mem_filter.mp hleaf).1
  have hpairwise : (first :: rest).Pairwise fun a b => a.offset + a.size ≤ b.offset := by
    rw [hfilter]
    exact (leaves_pairwise htype 0).filter _
  have hc : Chunk type offset first rest := ⟨hfilter.symm, hinside, hpairwise, hwithin⟩
  have hspec := NativeX86Abi.eightbytePiece_ok hpiece hoffset hwithin
  have hany : ((leaves true type 0).map spanOf).any (Span.meets offset) = true := by
    rw [List.any_map, List.any_eq_true]
    refine ⟨first, (hc.mem_iff.mp (by simp)).1, ?_⟩
    exact (meets_spanOf offset first).trans (hc.mem_iff.mp (by simp)).2
  have hclass : (((leaves true type 0).map spanOf).filter (Span.meets offset)).any Span.isWord =
      (first :: rest).any fun leaf => NativeX86Abi.isWord leaf.type := by
    rw [filter_spans, ← hfilter, List.any_map]
    rfl
  -- the same piece, class by class
  have hsame : (if (first :: rest).any fun leaf => NativeX86Abi.isWord leaf.type then
        integerPiece ((layout true).allocSize type) offset ((leaves true type 0).map spanOf)
          (preferred true type offset)
      else ssePiece true type offset (preferred true type offset)) = piece := by
    rw [hc.preferred htype]
    simp only [NativeX86Abi.eightbytePiece] at hpiece
    by_cases hword : ((first :: rest).any fun leaf => NativeX86Abi.isWord leaf.type) = true
    · rw [if_pos hword, hc.integerPiece]
      rw [if_pos hword] at hpiece
      split_ifs at hpiece ⊢ <;> exact Except.ok.inj hpiece
    · rw [if_neg hword]
      rw [if_neg hword] at hpiece
      obtain ⟨_, hstart, hpiece⟩ := Checked.bind_ok.mp hpiece
      rw [NativeAbi.ensure_ok] at hstart
      rw [if_pos hstart]
      have hfloat : first.type = .floatTy ∨ first.type = .doubleTy := by
        refine float_cases (hwithin first (by simp)).scalar ?_
        simp only [List.any_cons, Bool.or_eq_true, not_or] at hword
        simpa using hword.1
      have hupper := fun found => @Chunk.preferred_upper _ _ _ _ _ htype hc hstart found
      unfold ssePiece
      rcases rest with _ | ⟨second, _ | ⟨third, rest⟩⟩
      · have hnone : preferred true type (offset + 4) ≠ some .floatTy := by
          rw [Ne, hupper .floatTy]
          simp
        rw [if_neg hnone]
        obtain rfl : first.type = piece := Except.ok.inj hpiece
        rcases hfloat with heq | heq
        · rw [if_pos (by rw [heq]), heq]
        · rw [if_neg (by rw [heq]; simp), heq]
      · obtain ⟨_, hpair, hpiece⟩ := Checked.bind_ok.mp hpiece
        obtain ⟨hfirst, hsecond, hposition⟩ := NativeAbi.ensure_ok.mp hpair
        obtain rfl := Except.ok.inj hpiece
        rw [if_pos (by rw [hfirst]), if_pos]
        exact (hupper .floatTy).mpr ⟨second, by simp, hposition, hsecond⟩
      · simp at hpiece
  unfold eightbyte
  simp only [hany, reduceCtorEq, if_false, hclass, hsame]
  rw [ensure_of hspec.le_size]
  rfl

/-! ## Values -/

theorem value_natural {type : LlvmType} (h : type ≠ .void) :
    value type (natural x64 type) = NativeX86Abi.value x64 type :=
  (NativeX86Abi.value_of_ne x64 h).symm

/-- A value that is not left to the scalar stack is indirect for both. -/
theorem memory_natural {type : LlvmType} (h : type ≠ .void) {returns : Bool} {freeGP : ℕ}
    (hstack : ¬(x64 = true ∧ returns = false ∧ freeGP = 0 ∧ (layout x64).allocSize type ≤ 8 ∧
      (layout x64).abiAlign type ≤ .of 8)) :
    memory x64 type (natural x64 type) returns freeGP = NativeX86Abi.indirect x64 type returns := by
  have hcond : ¬(x64 = true ∧ returns = false ∧ freeGP = 0 ∧ (natural x64 type).size ≤ 8 ∧
      (natural x64 type).alignment ≤ .of 8) := hstack
  rw [memory, if_neg hcond, value_natural h, NativeX86Abi.indirect, NativeX86Abi.value_of_ne x64 h]
  rfl

theorem words_agree {fields : List (LlvmType × ℕ)} :
    ∀ bytes, words x64 (fields.map toField) bytes = NativeX86Abi.words x64 fields bytes := by
  induction fields with
  | nil => intro bytes; rfl
  | cons field fields ih =>
    intro bytes
    rw [List.map_cons, words, NativeX86Abi.words, ih, scalar_eq]
    by_cases hscalar : NativeAbi.scalar field.1 true = true
    · have hposition : field.2 * 8 ≠ bytes * 8 ↔ field.2 ≠ bytes := by omega
      simp only [toField, hscalar, hposition, Option.isSome_none, true_and]
      split_ifs <;> first | rfl | simp_all
    · simp [toField, hscalar]

theorem classifyWords_agrees {identity : Option String} {fields : List LlvmType}
    (returns : Bool) (freeGP : ℕ) :
    classifyWords false (.struct identity false fields)
        (natural false (.struct identity false fields))
        ((⟨identity, false, fields⟩ : StructType).naturalLayout (layout false)) returns freeGP =
      NativeX86Abi.classifyWords false (.struct identity false fields) false fields returns := by
  have hne : LlvmType.struct identity false fields ≠ .void := by simp
  have hvalue := NativeX86Abi.value_of_ne false hne
  have hmemory : ∀ returns', memory false (.struct identity false fields)
      (natural false (.struct identity false fields)) returns' freeGP =
        NativeX86Abi.indirect false (.struct identity false fields) returns' :=
    fun returns' => memory_natural hne (by simp)
  have hsize : (NativeX86Abi.value false (.struct identity false fields)).storageSize =
      (natural false (.struct identity false fields)).size := by rw [hvalue]; rfl
  rw [classifyWords, NativeX86Abi.classifyWords, hsize, fields_naturalLayout, words_agree]
  rcases NativeX86Abi.words false ((layout false).elements false 0 fields) 0 with
    _ | ⟨pieces, bytes⟩
  · simp only [hmemory]
  · simp only [hmemory, value_natural hne]

/-- The eightbytes of a record have the same pieces and classes for both. -/
theorem eightbytes_agree {type : LlvmType} (htype : Qualified (layout true) ordered type)
    {classes : List (NativeABIPiece × Bool)}
    (h : (NativeX86Abi.eightbyteOffsets ((layout true).allocSize type)).mapM
      (NativeX86Abi.eightbyte ((layout true).allocSize type) (leaves true type 0)) = .ok classes) :
    (NativeX86Abi.eightbyteOffsets ((layout true).allocSize type)).mapM
      (eightbyte true type ((layout true).allocSize type) ((leaves true type 0).map spanOf)) =
        .ok (classes.map some) := by
  refine Checked.mapM_ok.mpr (List.forall₂_map_right_iff.mpr ?_)
  refine Checked.forall₂_imp_of_mem (Checked.mapM_ok.mp h) fun offset hoffset entry _ hentry => ?_
  exact eightbyte_agrees htype (NativeX86Abi.mem_eightbyteOffsets hoffset).1 hentry

theorem classifyEightbytes_agrees {memo : Memo} {type : LlvmType}
    (htype : Qualified (layout true) ordered type) (hstruct : type.isStruct = true)
    (hknown : Known true memo type)
    (hheight : type.height < nesting (ordered.map (StructType.naturalLayout (layout true))))
    {returns : Bool} {freeGP freeSSE : ℕ} {native : NativeABIValue}
    (h : NativeX86Abi.classifyEightbytes true type returns freeGP freeSSE = .ok native) :
    classifyEightbytes true (ordered.map (StructType.naturalLayout (layout true))) memo type
      (natural true type) returns freeGP freeSSE = .ok native := by
  have hne : type ≠ .void := by
    rintro rfl
    simp [LlvmType.isStruct] at hstruct
  have hvalue := NativeX86Abi.value_of_ne true hne
  have hsize : (NativeX86Abi.value true type).storageSize = (layout true).allocSize type := by
    rw [hvalue]
  have halignment : (NativeX86Abi.value true type).storageAlignment =
      (layout true).abiAlign type := by rw [hvalue]
  have hnatural : (natural true type).size = (layout true).allocSize type := rfl
  unfold NativeX86Abi.classifyEightbytes at h
  unfold classifyEightbytes
  simp only [hsize, halignment] at h
  simp only [hnatural]
  by_cases hbig : (layout true).allocSize type > 16
  · rw [if_pos hbig] at h ⊢
    rw [memory_natural hne fun hstack => by omega]
    exact h
  rw [if_neg hbig] at h ⊢
  obtain ⟨classes, hclasses, h⟩ := Checked.bind_ok.mp h
  have hgather := gather_ok htype hknown hheight 0 [] (Nat.dvd_zero _) (by
    have := length_leaves_le htype 0
    simp only [List.length_nil]
    omega)
  rw [Nat.zero_mul, List.nil_append] at hgather
  rw [hgather]
  dsimp only
  rw [if_neg (by simp), eightbytes_agree htype hclasses, Checked.ok_bind]
  have hfilter : (classes.map some).filterMap id = classes := by
    rw [List.filterMap_map]
    exact List.filterMap_some
  have hnonempty : classes ≠ [] := by
    rintro rfl
    have hoffsets := (NativeX86Abi.eightbytes_ok htype hclasses).1
    rcases NativeX86Abi.eightbyteOffsets_cases htype.allocSize_pos (by omega) with
      ⟨-, hcase⟩ | ⟨-, hcase⟩ <;> simp [hcase] at hoffsets
  rw [hfilter, ensure_of hnonempty, Checked.ok_bind]
  by_cases hexhausted : returns = false ∧ (classes.countP (fun entry => entry.2) > freeGP ∨
      classes.countP (fun entry => !entry.2) > freeSSE)
  · rw [if_pos hexhausted] at h ⊢
    by_cases hstack : freeGP = 0 ∧ (layout true).allocSize type ≤ 8 ∧
        (layout true).abiAlign type ≤ .of 8
    · rw [if_pos hstack] at h
      have hcond : true = true ∧ false = false ∧ freeGP = 0 ∧ (natural true type).size ≤ 8 ∧
          (natural true type).alignment ≤ .of 8 := ⟨rfl, rfl, hstack⟩
      rw [← h, memory, if_pos hcond, value_natural hne]
      rfl
    · rw [if_neg hstack] at h
      rw [← h, memory_natural hne fun hcond => hstack hcond.2.2]
  · rw [if_neg hexhausted] at h ⊢
    rw [← h, value_natural hne]
    rfl

/-- The memo has the information of every ordered record. -/
def Remembers (x64 : Bool) (ordered : List StructType) (memo : Memo) : Prop :=
  ∀ record ∈ ordered, Known x64 memo record.toType

/-- A value that the first classifier accepts is described alike by the second. -/
theorem classify_agrees {memo : Memo} (hmemo : Remembers x64 ordered memo) {type : LlvmType}
    (hheight : type.height ≤ 32) {returns : Bool} {freeGP freeSSE : ℕ}
    {validated validated' : List LlvmType} {native : NativeABIValue}
    (hvalidated : ∀ t ∈ validated, Qualified (layout x64) ordered t)
    (h : NativeX86Abi.classify x64 ordered type returns freeGP freeSSE validated =
      .ok (native, validated')) :
    classify x64 (ordered.map (StructType.naturalLayout (layout x64))) memo type returns freeGP
      freeSSE = .ok native := by
  unfold NativeX86Abi.classify at h
  unfold classify
  by_cases hvoid : type = .void
  · rw [if_pos hvoid] at h ⊢
    subst hvoid
    split_ifs at h ⊢ with hreturns
    · obtain ⟨rfl, -⟩ := Prod.mk.inj (Except.ok.inj h)
      rfl
    · simp at h
  rw [if_neg hvoid] at h ⊢
  by_cases hscalar : NativeAbi.scalar type false = true
  · rw [if_pos hscalar] at h
    rw [if_pos (scalar_boundary.mp hscalar)]
    obtain ⟨rfl, -⟩ := Prod.mk.inj (Except.ok.inj h)
    have hvalue := @value_natural x64 _ hvoid
    unfold natural at hvalue
    rw [hvalue]
    rfl
  rw [if_neg hscalar] at h
  rw [if_neg fun hor => hscalar (scalar_boundary.mpr hor)]
  cases type with
  | struct identity packed fields =>
    obtain ⟨validated₁, hvalidate, h⟩ := Checked.bind_ok.mp h
    have hqualified := (NativeX86Abi.validate_ok hvalidate hvalidated).1
    obtain ⟨rfl, hrecord, -⟩ := qualified_struct hqualified
    have hknown := hmemo _ hrecord
    have hlookup : memo.semanticInfo.lookup (.struct identity false fields) =
        some (natural x64 (.struct identity false fields)) := hknown _ .refl rfl
    simp only [findRecord_natural hrecord, hlookup]
    cases x64 with
    | true =>
      obtain ⟨native', hnative, h⟩ := Checked.bind_ok.mp h
      obtain ⟨rfl, -⟩ := Prod.mk.inj (Except.ok.inj h)
      have hlength : 0 < ordered.length := List.length_pos_of_mem hrecord
      refine classifyEightbytes_agrees hqualified rfl hknown ?_ hnative
      rw [nesting, List.length_map]
      omega
    | false =>
      obtain ⟨rfl, -⟩ := Prod.mk.inj (Except.ok.inj h)
      exact congrArg Except.ok (classifyWords_agrees returns freeGP)
  | _ => simp at h

/-! ## Signatures -/

/-- The state of the second loop that goes with a state of the first. -/
def forget (state : NativeX86Abi.Registers) : Registers :=
  ⟨state.freeGP, state.freeSSE, state.nativeParameters, state.parameters⟩

theorem classifyParameter_agrees {memo : Memo} (hmemo : Remembers x64 ordered memo)
    {parameter : LlvmType} (hheight : parameter.height ≤ 32) {state state' : NativeX86Abi.Registers}
    (hstate : ∀ t ∈ state.validated, Qualified (layout x64) ordered t)
    (h : NativeX86Abi.classifyParameter x64 ordered state parameter = .ok state') :
    classifyParameter x64 (ordered.map (StructType.naturalLayout (layout x64))) memo
        (forget state) parameter = .ok (forget state') ∧
      ∀ t ∈ state'.validated, Qualified (layout x64) ordered t := by
  obtain ⟨⟨native, validated⟩, hnative, h⟩ := Checked.bind_ok.mp h
  have hvalidated := (NativeX86Abi.classify_ok hnative hstate).2
  obtain rfl := Except.ok.inj h
  exact ⟨Checked.bind_ok.mpr ⟨native, classify_agrees hmemo hheight hstate hnative, rfl⟩,
    hvalidated⟩

theorem classifyParameters_agree {memo : Memo} (hmemo : Remembers x64 ordered memo)
    {parameters : List LlvmType} :
    ∀ {state state' : NativeX86Abi.Registers}, (∀ parameter ∈ parameters, parameter.height ≤ 32) →
      (∀ t ∈ state.validated, Qualified (layout x64) ordered t) →
      parameters.foldlM (NativeX86Abi.classifyParameter x64 ordered) state = .ok state' →
        parameters.foldlM (classifyParameter x64
          (ordered.map (StructType.naturalLayout (layout x64))) memo) (forget state) =
            .ok (forget state') ∧
        ∀ t ∈ state'.validated, Qualified (layout x64) ordered t := by
  induction parameters with
  | nil =>
    intro state state' _ hstate h
    obtain rfl : state = state' := by simpa using h
    exact ⟨rfl, hstate⟩
  | cons parameter parameters ih =>
    intro state state' hheights hstate h
    obtain ⟨hheight, hheights⟩ := List.forall_mem_cons.mp hheights
    obtain ⟨middle, hstep, h⟩ := Checked.foldlM_cons_ok.mp h
    obtain ⟨hstep', hmiddle⟩ := classifyParameter_agrees hmemo hheight hstate hstep
    obtain ⟨hrest, hstate'⟩ := ih hheights hmiddle h
    exact ⟨Checked.foldlM_cons_ok.mpr ⟨_, hstep', hrest⟩, hstate'⟩

theorem qualified_of_classify {type : LlvmType} {returns : Bool} {freeGP freeSSE : ℕ}
    {validated validated' : List LlvmType} {native : NativeABIValue}
    (h : NativeX86Abi.classify x64 ordered type returns freeGP freeSSE validated =
      .ok (native, validated')) (haggregate : type.isAggregate = true)
    (hvalidated : ∀ t ∈ validated, Qualified (layout x64) ordered t) :
    Qualified (layout x64) ordered type := by
  cases type with
  | struct identity packed fields =>
    unfold NativeX86Abi.classify at h
    rw [if_neg (by simp), if_neg (by simp [NativeAbi.scalar])] at h
    obtain ⟨validated₁, hvalidate, -⟩ := Checked.bind_ok.mp h
    exact (NativeX86Abi.validate_ok hvalidate hvalidated).1
  | array element count => simp [NativeX86Abi.classify, NativeAbi.scalar] at h
  | _ => simp [LlvmType.isAggregate] at haggregate

theorem qualified_of_classifyParameters {parameters : List LlvmType} :
    ∀ {state state' : NativeX86Abi.Registers},
      (∀ t ∈ state.validated, Qualified (layout x64) ordered t) →
      parameters.foldlM (NativeX86Abi.classifyParameter x64 ordered) state = .ok state' →
        ∀ parameter ∈ parameters, parameter.isAggregate = true →
          Qualified (layout x64) ordered parameter := by
  induction parameters with
  | nil => simp
  | cons first parameters ih =>
    intro state state' hstate h
    obtain ⟨middle, hstep, h⟩ := Checked.foldlM_cons_ok.mp h
    obtain ⟨⟨native, validated⟩, hnative, hpure⟩ := Checked.bind_ok.mp hstep
    have hvalidated := (NativeX86Abi.classify_ok hnative hstate).2
    obtain rfl := Except.ok.inj hpure
    exact List.forall_mem_cons.mpr
      ⟨fun haggregate => qualified_of_classify hnative haggregate hstate, ih hvalidated h⟩

/-- The records that a signature accepted by the first classifier reaches are qualified. -/
theorem qualified_of_inside {logical : FunctionType} {signature : NativeABISignature}
    (h : NativeX86Abi.classifyNativeABI x64 ordered logical = .ok signature) {record : StructType}
    {type : LlvmType} (htype : type ∈ logical.result :: logical.params)
    (hinside : LlvmType.Inside record.toType type) :
    Qualified (layout x64) ordered record.toType := by
  obtain ⟨⟨result, validated⟩, hresult, h⟩ := Checked.bind_ok.mp h
  obtain ⟨state, hstate, -⟩ := Checked.bind_ok.mp h
  have hvalidated := (NativeX86Abi.classify_ok hresult (by simp)).2
  have haggregate : type.isAggregate = true := by cases hinside <;> rfl
  refine Qualified.inside ?_ hinside
  rcases List.mem_cons.mp htype with rfl | hparameter
  · exact qualified_of_classify hresult haggregate (by simp)
  · exact qualified_of_classifyParameters hvalidated hstate type hparameter haggregate

/-- The second classifier returns the signature of the first. -/
theorem classifyNativeLayoutABI_ok {logical : FunctionType} {signature : NativeABISignature}
    (hnodup : ordered.Nodup)
    (hreachable : ∀ record ∈ ordered, ∃ type ∈ logical.result :: logical.params,
      LlvmType.Inside record.toType type)
    (hfields : ∀ record ∈ ordered, record.fields.length ≤ 1024)
    (hheight : ∀ type ∈ logical.result :: logical.params, type.height ≤ 32)
    (h : NativeX86Abi.classifyNativeABI x64 ordered logical = .ok signature) :
    NativeX86LayoutAbi.classifyNativeLayoutABI x64
      (ordered.map (StructType.naturalLayout (layout x64))) logical = .ok signature := by
  have hqualified : ∀ record ∈ ordered, Qualified (layout x64) ordered record.toType := by
    intro record hrecord
    obtain ⟨type, htype, hinside⟩ := hreachable record hrecord
    exact qualified_of_inside h htype hinside
  have hrecordHeight : ∀ record ∈ ordered, record.toType.height ≤ 32 := by
    intro record hrecord
    obtain ⟨type, htype, hinside⟩ := hreachable record hrecord
    exact (LlvmType.height_le_of_inside hinside).trans (hheight type htype)
  obtain ⟨memo, hmemo, hremembers⟩ := initializeRecords_ok hnodup hfields hqualified hrecordHeight
  obtain ⟨hresultHeight, hparameterHeight⟩ := List.forall_mem_cons.mp hheight
  obtain ⟨⟨result, validated⟩, hresult, h⟩ := Checked.bind_ok.mp h
  obtain ⟨state, hstate, h⟩ := Checked.bind_ok.mp h
  have hvalidated := (NativeX86Abi.classify_ok hresult (by simp)).2
  have hresult' := classify_agrees hremembers hresultHeight (by simp) hresult
  have hstate' := (classifyParameters_agree hremembers hparameterHeight hvalidated hstate).1
  exact Checked.bind_ok.mpr ⟨memo, hmemo, Checked.bind_ok.mpr ⟨result, hresult',
    Checked.bind_ok.mpr ⟨forget state, hstate', h⟩⟩⟩

end NativeX86Agreement

/-- The two x86 classifiers agree on ordered records at their natural layout that nest at most
thirty-two deep. -/
theorem classifyNativeLayoutABI_natural {linked : List NativeTarget} {logical : FunctionType}
    {target : NativeTarget} {ordered : List StructType} {signature : NativeABISignature}
    (htarget : target = .x86_64 ∨ target = .i686) (hnodup : ordered.Nodup)
    (hreachable : ∀ record ∈ ordered, ∃ type ∈ logical.result :: logical.params,
      LlvmType.Inside record.toType type)
    (hfields : ∀ record ∈ ordered, record.fields.length ≤ 1024)
    (hheight : ∀ type ∈ logical.result :: logical.params, type.height ≤ 32)
    (h : classifyNativeABI linked logical target.id ordered = .ok signature) :
    classifyNativeLayoutABI linked logical target.id
      (ordered.map (StructType.naturalLayout target.layout)) = .ok signature := by
  unfold classifyNativeABI at h
  unfold classifyNativeLayoutABI
  split at h
  · simp at h
  · next found hfound =>
    obtain rfl := findNativeTarget_id hfound
    rcases htarget with rfl | rfl
    · exact @NativeX86Agreement.classifyNativeLayoutABI_ok true _ _ _ hnodup hreachable hfields
        hheight h
    · exact @NativeX86Agreement.classifyNativeLayoutABI_ok false _ _ _ hnodup hreachable hfields
        hheight h

/-- A sample passed and returned has one signature by both readings. -/
theorem sampleSignature_natural :
    classifyNativeLayoutABI [.x86_64] sampleFunction NativeTarget.x86_64.id
      ([sample].map (StructType.naturalLayout NativeTarget.x86_64.layout)) = .ok sampleSignature :=
  classifyNativeLayoutABI_natural (.inl rfl) (by simp)
    (by
      intro record hrecord
      obtain rfl := List.mem_singleton.mp hrecord
      exact ⟨sample.toType, by simp [sampleFunction], .refl⟩)
    (by simp [sample]) (by decide +kernel) (by decide +kernel)

/-! ## Deeper storage -/

/-- A record of a record, so many times, of an integer. -/
def deepRecord : ℕ → StructType
  | 0 => ⟨some "deep0", false, [.int 32]⟩
  | n + 1 => ⟨some ("deep" ++ toString (n + 1)), false, [(deepRecord n).toType]⟩

/-- The records from the outermost to the innermost. -/
def deepOrdered : List StructType := (List.range 35).reverse.map deepRecord

/-- A function of a record that nests eighteen deep, then of one that nests thirty-five deep
around it. -/
def deepFunction : FunctionType := ⟨.void, [(deepRecord 17).toType, (deepRecord 34).toType], false⟩

theorem inside_deepRecord {n m : ℕ} (h : n ≤ m) :
    LlvmType.Inside (deepRecord n).toType (deepRecord m).toType := by
  induction m, h using Nat.le_induction with
  | base => exact .refl
  | succ m _ ih => exact .struct (List.mem_singleton.mpr rfl) ih

/-- The first classifier meets the inner record first and remembers it; the second walks the
outer record first and finds it too deep. -/
theorem deepLayout_refused :
    deepOrdered.Nodup ∧
      (∀ record ∈ deepOrdered, ∃ type ∈ deepFunction.result :: deepFunction.params,
        LlvmType.Inside record.toType type) ∧
      (∀ record ∈ deepOrdered, record.fields.length ≤ 1024) ∧
      (classifyNativeABI [.x86_64] deepFunction "x86_64" deepOrdered).isOk = true ∧
      (classifyNativeLayoutABI [.x86_64] deepFunction "x86_64"
        (deepOrdered.map (StructType.naturalLayout NativeTarget.x86_64.layout))).isOk = false := by
  refine ⟨by decide +kernel, ?_, by decide +kernel, by decide +kernel, by decide +kernel⟩
  intro record hrecord
  obtain ⟨n, hn, rfl⟩ := List.mem_map.mp hrecord
  have hle : n ≤ 34 := by
    have := List.mem_range.mp (List.mem_reverse.mp hn)
    omega
  exact ⟨(deepRecord 34).toType, by simp [deepFunction], inside_deepRecord hle⟩

end Sela
