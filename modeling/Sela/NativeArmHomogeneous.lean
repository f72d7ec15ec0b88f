import Sela.NativeArmAbi

/-!
# Homogeneous aggregates by their leaves

The ARM classifier finds the members of a homogeneous aggregate bottom-up, with a test of the
size at each record and a cut-off at each array. Over ordered records the result only depends
on the scalar leaves : a type is homogeneous exactly when it has one to four leaves, all `float`
or all `double`, and nothing but them (`information_flat`). Each field of such a record is such
an aggregate itself, since padding anywhere would show in the size of the whole
(`Flat.field`); so the tests inside never disagree with the one outside.

`homogeneous_leaves` is the result on types, `arrayInformation_exact` the arithmetic of the
array rule.
-/

namespace Sela

namespace NativeArmAbi

/-! ## Leaves -/

section Leaves

variable (layout : DataLayout)

mutual

/-- The scalars of a type with their offsets. -/
def leaves : LlvmType → ℕ → List (ℕ × LlvmType)
  | .array element count, offset => (List.range count).flatMap fun i =>
      leaves element (offset + i * layout.allocSize element)
  | .struct _ packed fields, offset => fieldLeaves packed fields offset 0
  | type, offset => [(offset, type)]

/-- The scalars of the fields of a record, the first of which may begin at `start`. -/
def fieldLeaves (packed : Bool) : List LlvmType → ℕ → ℕ → List (ℕ × LlvmType)
  | [], _, _ => []
  | field :: fields, offset, start =>
    leaves field (offset + alignTo start (layout.fieldAlign packed field)) ++
      fieldLeaves packed fields offset
        (alignTo start (layout.fieldAlign packed field) + layout.allocSize field)

end

mutual

/-- The types of the scalars of a type. -/
def leafTypes : LlvmType → List LlvmType
  | .array element count => (List.replicate count (leafTypes element)).flatten
  | .struct _ _ fields => fieldLeafTypes fields
  | type => [type]

def fieldLeafTypes : List LlvmType → List LlvmType
  | [] => []
  | field :: fields => leafTypes field ++ fieldLeafTypes fields

end

mutual

theorem map_snd_leaves : ∀ (type : LlvmType) (offset : ℕ),
    (leaves layout type offset).map Prod.snd = leafTypes type
  | .array element count, offset => by
    rw [leaves, leafTypes, List.map_flatMap, List.flatMap_def]
    simp [map_snd_leaves element]
  | .struct _ packed fields, offset => by
    rw [leaves, leafTypes]
    exact map_snd_fieldLeaves packed fields offset 0
  | .void, _ | .scalar _, _ | .vector _ _, _ | .unsized _, _ => rfl

theorem map_snd_fieldLeaves (packed : Bool) : ∀ (fields : List LlvmType) (offset start : ℕ),
    (fieldLeaves layout packed fields offset start).map Prod.snd = fieldLeafTypes fields
  | [], _, _ => rfl
  | field :: fields, offset, start => by
    rw [fieldLeaves, fieldLeafTypes, List.map_append, map_snd_leaves field,
      map_snd_fieldLeaves packed fields]

end

end Leaves

theorem mem_fieldLeafTypes {leaf : LlvmType} : ∀ {fields : List LlvmType},
    leaf ∈ fieldLeafTypes fields ↔ ∃ field ∈ fields, leaf ∈ leafTypes field
  | [] => by simp [fieldLeafTypes]
  | field :: fields => by simp [fieldLeafTypes, mem_fieldLeafTypes]

theorem mem_leafTypes_array {leaf element : LlvmType} {count : ℕ} (hcount : count ≠ 0) :
    leaf ∈ leafTypes (.array element count) ↔ leaf ∈ leafTypes element := by
  simp [leafTypes, hcount]

theorem length_leafTypes_array (element : LlvmType) (count : ℕ) :
    (leafTypes (.array element count)).length = count * (leafTypes element).length := by
  simp [leafTypes]

/-! ## Aggregates of their leaves alone -/

/-- One to four leaves, all of them `base`, and no byte besides. -/
structure Flat (layout : DataLayout) (type base : LlvmType) : Prop where
  isBase : IsBase base
  leaf : ∀ leaf ∈ leafTypes type, leaf = base
  pos : 0 < (leafTypes type).length
  le : (leafTypes type).length ≤ 4
  extent : layout.allocSize type = (leafTypes type).length * layout.allocSize base

theorem Flat.unique {layout : DataLayout} {type base base' : LlvmType} (h : Flat layout type base)
    (h' : Flat layout type base') : base = base' := by
  obtain ⟨leaf, hleaf⟩ := List.exists_mem_of_length_pos h.pos
  exact (h.leaf leaf hleaf).symm.trans (h'.leaf leaf hleaf)

/-- The fields of a record take no more than their place. -/
theorem sum_allocSize_le {layout : DataLayout} (packed : Bool) (fields : List LlvmType) :
    ∀ start, start + (fields.map layout.allocSize).sum ≤ layout.fieldsEnd packed start fields := by
  induction fields with
  | nil => simp
  | cons field fields ih =>
    intro start
    rw [DataLayout.fieldsEnd_cons, List.map_cons, List.sum_cons]
    have hstart := le_alignTo start (layout.fieldAlign packed field)
    have hrest := ih (alignTo start (layout.fieldAlign packed field) + layout.allocSize field)
    omega

theorem sum_allocSize_le_struct {layout : DataLayout} (identity : Option String) (packed : Bool)
    (fields : List LlvmType) :
    (fields.map layout.allocSize).sum ≤ layout.allocSize (.struct identity packed fields) := by
  rw [DataLayout.allocSize_struct, DataLayout.storeSize_struct]
  have := @sum_allocSize_le layout packed fields 0
  exact (by omega : _ ≤ _).trans (le_alignTo _ _)

mutual

/-- Leaves of one type fit side by side. -/
theorem leaves_le_allocSize {layout : DataLayout} {base : LlvmType} : ∀ {type : LlvmType},
    (∀ leaf ∈ leafTypes type, leaf = base) →
      (leafTypes type).length * layout.allocSize base ≤ layout.allocSize type
  | .array element count, h => by
    by_cases hcount : count = 0
    · simp [length_leafTypes_array, hcount]
    have helement := @leaves_le_allocSize layout _ _ fun leaf hleaf =>
      h leaf ((mem_leafTypes_array hcount).mpr hleaf)
    rw [length_leafTypes_array, DataLayout.allocSize_array, Nat.mul_assoc]
    exact Nat.mul_le_mul_left count helement
  | .struct identity packed fields, h => by
    rw [leafTypes] at h ⊢
    exact (fieldLeaves_le_sum h).trans (sum_allocSize_le_struct identity packed fields)
  | .void, h | .scalar _, h | .vector _ _, h | .unsized _, h => by
    simp only [leafTypes, List.mem_singleton, forall_eq] at h
    simp [leafTypes, h]

theorem fieldLeaves_le_sum {layout : DataLayout} {base : LlvmType} : ∀ {fields : List LlvmType},
    (∀ leaf ∈ fieldLeafTypes fields, leaf = base) →
      (fieldLeafTypes fields).length * layout.allocSize base ≤ (fields.map layout.allocSize).sum
  | [], _ => by simp [fieldLeafTypes]
  | field :: fields, h => by
    simp only [fieldLeafTypes, List.mem_append] at h
    have hfield := @leaves_le_allocSize layout _ _ fun leaf hleaf => h leaf (.inl hleaf)
    have hfields := @fieldLeaves_le_sum layout _ _ fun leaf hleaf => h leaf (.inr hleaf)
    rw [fieldLeafTypes, List.length_append, Nat.add_mul, List.map_cons, List.sum_cons]
    exact Nat.add_le_add hfield hfields

end

/-- Fields whose leaves fill a bound fill their own storage. -/
theorem field_extent {layout : DataLayout} {base : LlvmType} : ∀ {fields : List LlvmType},
    (∀ leaf ∈ fieldLeafTypes fields, leaf = base) →
      (fields.map layout.allocSize).sum ≤ (fieldLeafTypes fields).length * layout.allocSize base →
      ∀ field ∈ fields, layout.allocSize field = (leafTypes field).length * layout.allocSize base
  | [], _, _ => by simp
  | field :: fields, h, hsum => by
    simp only [fieldLeafTypes, List.mem_append] at h
    have hfield := @leaves_le_allocSize layout _ _ fun leaf hleaf => h leaf (.inl hleaf)
    have hfields := @fieldLeaves_le_sum layout _ _ fun leaf hleaf => h leaf (.inr hleaf)
    rw [fieldLeafTypes, List.length_append, Nat.add_mul, List.map_cons, List.sum_cons] at hsum
    refine List.forall_mem_cons.mpr ⟨by omega, ?_⟩
    exact field_extent (fun leaf hleaf => h leaf (.inr hleaf)) (by omega)

theorem length_leafTypes_le {field : LlvmType} : ∀ {fields : List LlvmType}, field ∈ fields →
    (leafTypes field).length ≤ (fieldLeafTypes fields).length
  | _ :: _, h => by
    rw [fieldLeafTypes, List.length_append]
    rcases List.mem_cons.mp h with rfl | h
    · exact Nat.le_add_right _ _
    · exact (length_leafTypes_le h).trans (Nat.le_add_left _ _)

/-- Every field of a flat record is flat, whatever holds a leaf at all. -/
theorem Flat.field {layout : DataLayout} {identity : Option String} {packed : Bool}
    {fields : List LlvmType} {base : LlvmType} (h : Flat layout (.struct identity packed fields) base)
    {field : LlvmType} (hfield : field ∈ fields) (hne : leafTypes field ≠ []) :
    Flat layout field base := by
  have hleaf : ∀ leaf ∈ fieldLeafTypes fields, leaf = base := by
    simpa [leafTypes] using h.leaf
  have hextent := h.extent
  rw [leafTypes] at hextent
  refine ⟨h.isBase, fun leaf hleafField => hleaf leaf (mem_fieldLeafTypes.mpr ⟨field, hfield,
    hleafField⟩), List.length_pos_iff.mpr hne, ?_, ?_⟩
  · have hle := h.le
    rw [leafTypes] at hle
    exact (length_leafTypes_le hfield).trans hle
  · refine field_extent hleaf ?_ field hfield
    rw [← hextent]
    exact sum_allocSize_le_struct identity packed fields

/-! ## What information finds -/

variable {aapcs64 : Bool} {records : List NativeABIRecordLayout}

/-- The members that are found are those of a flat type. -/
structure Found (aapcs64 : Bool) (type : LlvmType) (info : Information) : Prop where
  leaf : leafTypes type ≠ []
  flat : ∀ base, info.homogeneousBase = some base ↔ Flat (layout aapcs64) type base
  members : ∀ base, info.homogeneousBase = some base → info.members = (leafTypes type).length
  none : info.homogeneousBase = none → info.members = 0

/-- A scalar is homogeneous when it is a member itself. -/
theorem found_scalar {type : LlvmType} (hscalar : scalar aapcs64 type = true) {size : ℕ}
    {alignment : Align} :
    (IsBase type → Found aapcs64 type ⟨size, alignment, some type, 1⟩) ∧
      (¬IsBase type → Found aapcs64 type ⟨size, alignment, none, 0⟩) := by
  have hleaves : leafTypes type = [type] := by
    cases type <;> first | rfl | simp [scalar] at hscalar
  have hflat : ∀ base, Flat (layout aapcs64) type base ↔ base = type ∧ IsBase type := by
    intro base
    constructor
    · intro h
      have heq : type = base := h.leaf type (by simp [hleaves])
      exact ⟨heq.symm, heq ▸ h.isBase⟩
    · rintro ⟨rfl, hbase⟩
      exact ⟨hbase, by simp [hleaves], by simp [hleaves], by simp [hleaves], by simp [hleaves]⟩
  refine ⟨fun hbase => ⟨by simp [hleaves], fun base => ?_, by simp [hleaves], by simp⟩,
    fun hbase => ⟨by simp [hleaves], fun base => ?_, by simp, by simp⟩⟩
  · simp [hflat, hbase, eq_comm]
  · simp [hflat, hbase]

/-- The cut-off of the array rule keeps exactly the arrays of at most four members. -/
theorem found_array {element : LlvmType} {count size : ℕ} {alignment : Align}
    {info : Information} (hcount : count ≠ 0) (h : Found aapcs64 element info) :
    Found aapcs64 (.array element count) (arrayInformation size alignment count info) := by
  have hleaf : leafTypes (.array element count) ≠ [] := by
    obtain ⟨leaf, hleaf⟩ := List.exists_mem_of_ne_nil _ h.leaf
    exact List.ne_nil_of_mem ((mem_leafTypes_array hcount).mpr hleaf)
  have hlength := length_leafTypes_array element count
  have hpositive := Nat.pos_of_ne_zero hcount
  -- an array is flat when its element is and there are few enough of them
  have hflat : ∀ base, Flat (layout aapcs64) (.array element count) base ↔
      Flat (layout aapcs64) element base ∧ count * (leafTypes element).length ≤ 4 := by
    intro base
    constructor
    · intro harray
      have hextent := harray.extent
      rw [DataLayout.allocSize_array, hlength, Nat.mul_assoc] at hextent
      have hle := harray.le
      rw [hlength] at hle
      refine ⟨⟨harray.isBase, fun leaf hmem => harray.leaf leaf ((mem_leafTypes_array hcount).mpr hmem),
        List.length_pos_iff.mpr h.leaf, (Nat.le_mul_of_pos_left _ hpositive).trans hle,
        Nat.eq_of_mul_eq_mul_left hpositive hextent⟩, hle⟩
    · rintro ⟨helement, hle⟩
      refine ⟨helement.isBase, fun leaf hmem => helement.leaf leaf ((mem_leafTypes_array hcount).mp hmem),
        List.length_pos_iff.mpr hleaf, by rwa [hlength], ?_⟩
      rw [DataLayout.allocSize_array, helement.extent, hlength, Nat.mul_assoc]
  have hguard : ∀ base, info.homogeneousBase = some base →
      (count ≤ 4 / info.members ↔ count * (leafTypes element).length ≤ 4) := by
    intro base hbase
    rw [h.members base hbase]
    exact Nat.le_div_iff_mul_le ((h.flat base).mp hbase).pos
  unfold arrayInformation
  split_ifs with hhomogeneous
  · obtain ⟨hne, hle⟩ := hhomogeneous
    refine ⟨hleaf, fun base => ?_, fun base hbase => ?_, fun hnone => absurd hnone hne⟩
    · rw [hflat, ← h.flat]
      exact ⟨fun hbase => ⟨hbase, (hguard base hbase).mp hle⟩, fun hbase => hbase.1⟩
    · rw [hlength, h.members base hbase, Nat.mul_comm]
  · refine ⟨hleaf, fun base => ?_, by simp, by simp⟩
    rw [hflat, ← h.flat]
    simp only [reduceCtorEq, false_iff, not_and]
    intro hbase hle
    exact hhomogeneous ⟨by simp [hbase], (hguard base hbase).mpr hle⟩

/-- The fields of a record that have been walked : either all of them are flat over one base,
or no base makes all of them flat. -/
structure Tracked (aapcs64 : Bool) (passed : List LlvmType) (state : FieldState) : Prop where
  start : passed = [] → state.homogeneousBase = none
  base : state.homogeneous = true → passed ≠ [] → state.homogeneousBase ≠ none
  flat : state.homogeneous = true → ∀ base, state.homogeneousBase = some base →
    ∀ field ∈ passed, Flat (layout aapcs64) field base
  members : state.homogeneous = true → state.members = (fieldLeafTypes passed).length
  mixed : state.homogeneous = false → ∀ base, ∃ field ∈ passed, ¬Flat (layout aapcs64) field base

theorem fieldLeafTypes_append (xs ys : List LlvmType) :
    fieldLeafTypes (xs ++ ys) = fieldLeafTypes xs ++ fieldLeafTypes ys := by
  induction xs with
  | nil => rfl
  | cons x xs ih => rw [List.cons_append, fieldLeafTypes, ih, fieldLeafTypes, List.append_assoc]

theorem fieldStep_tracked {size : ℕ} {description : NativeABIRecordLayout}
    {field : NativeABIFieldLayout} {child : Information} {passed : List LlvmType}
    {state state' : FieldState} (hordered : description.kind = .ordered)
    (hplain : field.padding = false ∧ field.bitWidth = none)
    (hstate : Tracked aapcs64 passed state) (hchild : Found aapcs64 field.type child)
    (h : fieldStep description size field child state = .ok state') :
    Tracked aapcs64 (passed ++ [field.type]) state' := by
  obtain ⟨-, -, h⟩ := Checked.bind_ok.mp h
  simp only [hplain.1, hplain.2, Bool.false_eq_true, Option.isSome_none, false_or, hordered,
    reduceCtorEq, if_false] at h
  split_ifs at h with hnone
  · obtain rfl := Except.ok.inj h
    refine ⟨by simp, by simp, by simp, by simp, fun _ base => ⟨field.type, by simp, fun hflat => ?_⟩⟩
    simp [(hchild.flat base).mpr hflat] at hnone
  · obtain rfl := Except.ok.inj h
    obtain ⟨found, hfound⟩ := Option.ne_none_iff_exists'.mp hnone
    have hflat := (hchild.flat found).mp hfound
    refine ⟨by simp, fun _ _ => hnone, fun hhomogeneous base hbase => ?_, fun hhomogeneous => ?_,
      fun hmixed base => ?_⟩
    · obtain rfl : found = base := Option.some.inj (hfound.symm.trans hbase)
      obtain ⟨htrue, hsame⟩ := Bool.and_eq_true_iff.mp hhomogeneous
      intro field' hfield'
      rcases List.mem_append.mp hfield' with hmem | hmem
      · have hne := hstate.base htrue (List.ne_nil_of_mem hmem)
        have heq : state.homogeneousBase = some found := by
          simpa [hne, hfound] using hsame
        exact hstate.flat htrue found heq field' hmem
      · obtain rfl := List.mem_singleton.mp hmem
        exact hflat
    · have htrue := (Bool.and_eq_true_iff.mp hhomogeneous).1
      simp [fieldLeafTypes_append, fieldLeafTypes, hstate.members htrue, hchild.members found hfound]
    · cases hbool : state.homogeneous with
      | false =>
        obtain ⟨field', hmem, hnot⟩ := hstate.mixed hbool base
        exact ⟨field', List.mem_append_left _ hmem, hnot⟩
      | true =>
        -- the fields so far have another base than this one
        simp only [hbool, Bool.true_and, decide_eq_false_iff_not, not_or] at hmixed
        obtain ⟨earlier, hearlier⟩ := Option.ne_none_iff_exists'.mp hmixed.1
        have hne : passed ≠ [] := fun hempty => hmixed.1 (hstate.start hempty)
        obtain ⟨field', hmem⟩ := List.exists_mem_of_ne_nil _ hne
        by_contra hall
        simp only [not_exists, not_and, not_not] at hall
        have hfirst := hall field' (List.mem_append_left _ hmem)
        have hlast := hall field.type (by simp)
        have hearlierBase := (hstate.flat hbool earlier hearlier field' hmem).unique hfirst
        have hfoundBase := hflat.unique hlast
        exact hmixed.2 (by rw [hearlier, hfound, hearlierBase, hfoundBase])

/-- The size test of a record keeps exactly the flat ones. -/
theorem found_record (record : StructType) {description : NativeABIRecordLayout}
    {state : FieldState} {info : Information} (hne : record.fields ≠ [])
    (hleaves : ∀ field ∈ record.fields, leafTypes field ≠ [])
    (htracked : Tracked aapcs64 record.fields state)
    (h : recordInformation aapcs64 description ((layout aapcs64).allocSize record.toType) state =
      .ok info) :
    Found aapcs64 record.toType info := by
  have htypes : leafTypes record.toType = fieldLeafTypes record.fields := by
    rw [StructType.toType, leafTypes]
  obtain ⟨first, hfirst⟩ := List.exists_mem_of_ne_nil _ hne
  have hleaf : leafTypes record.toType ≠ [] := by
    obtain ⟨leaf, hleaf⟩ := List.exists_mem_of_ne_nil _ (hleaves first hfirst)
    rw [htypes]
    exact List.ne_nil_of_mem (mem_fieldLeafTypes.mpr ⟨first, hfirst, hleaf⟩)
  -- a flat record has been tracked to its base and its members
  have hflat : ∀ base, Flat (layout aapcs64) record.toType base →
      state.homogeneous = true ∧ state.homogeneousBase = some base ∧
        state.members = (leafTypes record.toType).length := by
    intro base hrecord
    have hfields : ∀ field ∈ record.fields, Flat (layout aapcs64) field base :=
      fun field hfield => hrecord.field hfield (hleaves field hfield)
    have htrue : state.homogeneous = true := by
      by_contra hfalse
      obtain ⟨field, hfield, hnot⟩ := htracked.mixed (Bool.eq_false_iff.mpr hfalse) base
      exact hnot (hfields field hfield)
    obtain ⟨found, hfound⟩ := Option.ne_none_iff_exists'.mp (htracked.base htrue hne)
    have heq := (htracked.flat htrue found hfound first hfirst).unique (hfields first hfirst)
    exact ⟨htrue, heq ▸ hfound, htypes ▸ htracked.members htrue⟩
  obtain ⟨-, -, h⟩ := Checked.bind_ok.mp h
  split at h
  · next hnone =>
    obtain rfl := Except.ok.inj h
    refine ⟨hleaf, fun base => ?_, by simp, by simp⟩
    simp only [reduceCtorEq, false_iff]
    intro hrecord
    simp [(hflat base hrecord).2.1] at hnone
  · next found hfound =>
    split_ifs at h with hhomogeneous
    · obtain rfl := Except.ok.inj h
      obtain ⟨htrue, hzero, hfour, hextent⟩ := hhomogeneous
      have hmembers : state.members = (leafTypes record.toType).length :=
        htypes ▸ htracked.members htrue
      refine ⟨hleaf, fun base => ⟨fun hbase => ?_, fun hrecord => (hfound ▸ (hflat base hrecord).2.1)⟩,
        fun _ _ => hmembers, by simp⟩
      obtain rfl := Option.some.inj hbase
      have hfields := htracked.flat htrue found hfound
      refine ⟨(hfields first hfirst).isBase, fun leaf hmem => ?_, List.length_pos_iff.mpr hleaf,
        hmembers ▸ hfour, ?_⟩
      · rw [htypes] at hmem
        obtain ⟨field, hfield, hmem⟩ := mem_fieldLeafTypes.mp hmem
        exact (hfields field hfield).leaf leaf hmem
      · rw [← hmembers, Nat.mul_comm]
        exact hextent.symm
    · obtain rfl := Except.ok.inj h
      refine ⟨hleaf, fun base => ?_, by simp, by simp⟩
      simp only [reduceCtorEq, false_iff]
      intro hrecord
      obtain ⟨htrue, hbase, hmembers⟩ := hflat base hrecord
      obtain rfl := Option.some.inj (hfound.symm.trans hbase)
      refine hhomogeneous ⟨htrue, ?_, ?_, ?_⟩
      · have := hrecord.pos
        omega
      · exact hmembers ▸ hrecord.le
      · rw [hmembers, Nat.mul_comm]
        exact hrecord.extent.symm

/-- Over ordered records, the homogeneous types are the flat ones. -/
theorem information_flat (hnatural : Natural aapcs64 records) :
    ∀ {levels : ℕ} {active : List LlvmType} {type : LlvmType} {budget budget' : Budget}
      {info : Information},
      information aapcs64 records levels active type budget = .ok (info, budget') →
        Found aapcs64 type info
  | 0, _, _, _, _, _, h => by simp [information] at h
  | levels + 1, active, type, budget, budget', info, h => by
    rw [information, Checked.bind_ok] at h
    obtain ⟨-, -, h⟩ := h
    split at h
    · simp at h
    next storageNodes hbounded =>
    obtain ⟨_, hsize, h⟩ := Checked.bind_ok.mp h
    split_ifs at h with hscalar hbase
    · obtain ⟨rfl, -⟩ := Prod.mk.inj (Except.ok.inj h)
      exact (found_scalar hscalar).1 hbase
    · obtain ⟨rfl, -⟩ := Prod.mk.inj (Except.ok.inj h)
      exact (found_scalar hscalar).2 hbase
    · cases type with
      | array element count =>
        obtain ⟨⟨child, budget₁⟩, hchild, h⟩ := Checked.bind_ok.mp h
        obtain ⟨rfl, -⟩ := Prod.mk.inj (Except.ok.inj h)
        exact found_array (count_ne_zero_of_boundedStorage hbounded)
          (information_flat hnatural hchild)
      | struct identity packed fields =>
        dsimp only at h
        split at h
        · simp at h
        next description hfind =>
        obtain ⟨-, -, h⟩ := Checked.bind_ok.mp h
        obtain ⟨_, hextent, h⟩ := Checked.bind_ok.mp h
        obtain ⟨⟨state, budget₁⟩, hwalk, h⟩ := Checked.bind_ok.mp h
        obtain ⟨result, hresult, h⟩ := Checked.bind_ok.mp h
        obtain ⟨rfl, -⟩ := Prod.mk.inj (Except.ok.inj h)
        have hdescription := hnatural.find hfind
        have hkind : description.kind = .ordered := by rw [hdescription]; rfl
        have htypes : description.fields.map NativeABIFieldLayout.type = fields := by
          rw [hdescription]
          exact StructType.map_type_naturalLayout _ _
        have hplain : ∀ field ∈ description.fields, field.padding = false ∧ field.bitWidth = none := by
          rw [hdescription]
          intro field hfield
          obtain ⟨element, -, rfl⟩ := List.mem_map.mp hfield
          exact ⟨rfl, rfl⟩
        have hwalked : Tracked aapcs64 (description.fields.map NativeABIFieldLayout.type) state ∧
            ∀ field ∈ description.fields, leafTypes field.type ≠ [] := by
          have hstart : Tracked aapcs64 [] ⟨true, false, 0, none, 0⟩ :=
            ⟨by simp, by simp, by simp, by simp [fieldLeafTypes], by simp⟩
          refine @Checked.foldlM_invariant _ _ _
            (fun (passed : List NativeABIFieldLayout) (walk : FieldState × Budget) =>
              Tracked aapcs64 (passed.map NativeABIFieldLayout.type) walk.1 ∧
                ∀ field ∈ passed, leafTypes field.type ≠ [])
            [] description.fields (⟨true, false, 0, none, 0⟩, _) _ ⟨hstart, by simp⟩ ?_ hwalk
          intro passed field rest walk walk' hfields hstate hstep
          obtain ⟨⟨child, budget₂⟩, hchild, hstep⟩ := Checked.bind_ok.mp hstep
          obtain ⟨state', hfield, hpure⟩ := Checked.bind_ok.mp hstep
          obtain rfl := Except.ok.inj hpure
          have hfound := information_flat hnatural hchild
          have hmem : field ∈ description.fields := by
            rw [show description.fields = passed ++ field :: rest from hfields]
            simp
          rw [List.map_append, List.map_singleton]
          exact ⟨fieldStep_tracked hkind (hplain field hmem) hstate.1 hfound hfield,
            by simpa using fun field' h => h.elim (hstate.2 field') (· ▸ hfound.leaf)⟩
        rw [htypes] at hwalked
        refine found_record ⟨identity, packed, fields⟩ ?_ ?_ hwalked.1 hresult
        · rintro rfl
          exact (ensure_ok.mp hextent).2.1 (List.map_eq_nil_iff.mp htypes)
        · intro field hfield
          obtain ⟨field', hfield', rfl⟩ := List.mem_map.mp (htypes ▸ hfield)
          exact hwalked.2 field' hfield'
      | void => simp at h
      | scalar => simp at h
      | vector => simp at h
      | unsized => simp at h

/-- The array rule divides by no zero, and what it multiplies is small. -/
theorem arrayInformation_exact (hnatural : Natural aapcs64 records) {levels : ℕ}
    {active : List LlvmType} {element : LlvmType} {budget budget' : Budget} {info : Information}
    (h : information aapcs64 records levels active element budget = .ok (info, budget'))
    (hbase : info.homogeneousBase ≠ none) (count : ℕ) :
    info.members ≠ 0 ∧ (count ≤ 4 / info.members → info.members * count ≤ 4) := by
  obtain ⟨base, hbase⟩ := Option.ne_none_iff_exists'.mp hbase
  have hpos := ((information_ok hnatural h).members base hbase).1
  refine ⟨by omega, fun hle => ?_⟩
  rw [Nat.mul_comm]
  exact (Nat.le_div_iff_mul_le hpos).mp hle

theorem flat_iff {layout : DataLayout} {type base : LlvmType} : Flat layout type base ↔
    IsBase base ∧ (∀ leaf ∈ leaves layout type 0, leaf.2 = base) ∧
      1 ≤ (leaves layout type 0).length ∧ (leaves layout type 0).length ≤ 4 ∧
      layout.allocSize type = (leaves layout type 0).length * layout.allocSize base := by
  have htypes := map_snd_leaves layout type 0
  have hlength : (leaves layout type 0).length = (leafTypes type).length := by
    rw [← htypes, List.length_map]
  have hleaf : (∀ leaf ∈ leaves layout type 0, leaf.2 = base) ↔ ∀ leaf ∈ leafTypes type, leaf = base := by
    rw [← htypes, List.forall_mem_map]
  rw [hleaf, hlength]
  exact ⟨fun h => ⟨h.isBase, h.leaf, h.pos, h.le, h.extent⟩,
    fun ⟨hbase, hleaf, hpos, hle, hextent⟩ => ⟨hbase, hleaf, hpos, hle, hextent⟩⟩

section Information

variable {levels : ℕ} {active : List LlvmType} {type : LlvmType} {budget budget' : Budget}
  {info : Information}

/-- The members of a homogeneous type are its leaves. -/
theorem information_members (hnatural : Natural aapcs64 records)
    (h : information aapcs64 records levels active type budget = .ok (info, budget'))
    (hbase : info.homogeneousBase ≠ none) :
    info.members = (leaves (layout aapcs64) type 0).length := by
  obtain ⟨base, hbase⟩ := Option.ne_none_iff_exists'.mp hbase
  rw [(information_flat hnatural h).members base hbase, ← map_snd_leaves (layout aapcs64) type 0,
    List.length_map]

/-- How the leaves are grouped makes no difference. -/
theorem information_regroup {records' : List NativeABIRecordLayout} {levels' : ℕ}
    {active' : List LlvmType} {type' : LlvmType} {budget₁ budget₂ : Budget} {info' : Information}
    (hnatural : Natural aapcs64 records) (hnatural' : Natural aapcs64 records')
    (h : information aapcs64 records levels active type budget = .ok (info, budget'))
    (h' : information aapcs64 records' levels' active' type' budget₁ = .ok (info', budget₂))
    (hleaves : leaves (layout aapcs64) type 0 = leaves (layout aapcs64) type' 0)
    (hsize : info.size = info'.size) :
    info.homogeneousBase = info'.homogeneousBase ∧ info.members = info'.members := by
  have hsizes : (layout aapcs64).allocSize type = (layout aapcs64).allocSize type' := by
    rw [← (information_ok hnatural h).size, hsize, (information_ok hnatural' h').size]
  have hflat : ∀ base, Flat (layout aapcs64) type base ↔ Flat (layout aapcs64) type' base := by
    intro base
    rw [flat_iff, flat_iff, hleaves, hsizes]
  have hbase : info.homogeneousBase = info'.homogeneousBase := by
    ext base
    rw [(information_flat hnatural h).flat, (information_flat hnatural' h').flat, hflat]
  refine ⟨hbase, ?_⟩
  by_cases hnone : info.homogeneousBase = none
  · rw [(information_flat hnatural h).none hnone,
      (information_flat hnatural' h').none (hbase ▸ hnone)]
  · rw [information_members hnatural h hnone, information_members hnatural' h' (hbase ▸ hnone),
      hleaves]

/-- A type is homogeneous exactly when it is one to four leaves of one floating type and nothing
else; another type with the same leaves and size is classified alike; and the array rule is exact
on it for any count. -/
theorem homogeneous_leaves (hnatural : Natural aapcs64 records)
    (h : information aapcs64 records levels active type budget = .ok (info, budget')) :
    (∀ base, info.homogeneousBase = some base ↔ IsBase base ∧
      (∀ leaf ∈ leaves (layout aapcs64) type 0, leaf.2 = base) ∧
      1 ≤ (leaves (layout aapcs64) type 0).length ∧ (leaves (layout aapcs64) type 0).length ≤ 4 ∧
      info.size = (leaves (layout aapcs64) type 0).length * (layout aapcs64).allocSize base) ∧
    (info.homogeneousBase ≠ none → info.members = (leaves (layout aapcs64) type 0).length) ∧
    (∀ records' levels' active' type' budget₁ budget₂ info', Natural aapcs64 records' →
      information aapcs64 records' levels' active' type' budget₁ = .ok (info', budget₂) →
      leaves (layout aapcs64) type 0 = leaves (layout aapcs64) type' 0 → info.size = info'.size →
      info.homogeneousBase = info'.homogeneousBase ∧ info.members = info'.members) ∧
    (info.homogeneousBase ≠ none → ∀ count,
      info.members ≠ 0 ∧ (count ≤ 4 / info.members → info.members * count < 2 ^ 64)) := by
  refine ⟨fun base => ?_, information_members hnatural h, ?_, fun hbase count => ?_⟩
  · rw [(information_flat hnatural h).flat, (information_ok hnatural h).size, flat_iff]
  · intro records' levels' active' type' budget₁ budget₂ info' hnatural' h' hleaves hsize
    exact information_regroup hnatural hnatural' h h' hleaves hsize
  · obtain ⟨hne, hexact⟩ := arrayInformation_exact hnatural h hbase count
    exact ⟨hne, fun hle => (hexact hle).trans_lt (by decide)⟩

end Information

/-- A float beside an array of two. -/
def sampleAggregate : StructType := ⟨none, false, [.floatTy, .array .floatTy 2]⟩

/-- What the classifier finds for the sample. -/
theorem sampleAggregate_homogeneous : ∃ info budget',
    information true [sampleAggregate.naturalLayout (layout true)] 33 [] sampleAggregate.toType
      initialBudget = .ok (info, budget') ∧
    info.homogeneousBase = some .floatTy ∧
    info.members = (leaves (layout true) sampleAggregate.toType 0).length := by
  have h : information true [sampleAggregate.naturalLayout (layout true)] 33 []
      sampleAggregate.toType initialBudget =
      .ok (⟨12, .of 4, some .floatTy, 3⟩, ⟨4092, 16376⟩) := by
    rfl
  have hall := homogeneous_leaves (natural_map [sampleAggregate]) h
  exact ⟨_, _, h, rfl, hall.2.1 (by simp)⟩

end NativeArmAbi

end Sela
