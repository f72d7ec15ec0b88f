import Sela.NativeAbi

/-!
# The ARM classifier

The classifier of semantic records for AArch64 and ARMv7, and its use on ordered records.
A type is walked twice : once to bound its storage (`boundedStorage`) and once for its size,
its alignment and the members it has when it is homogeneous (`information`). Both walks
draw on a number of nodes for the whole signature. A homogeneous record crosses a call as
itself or as an array of its members, another record as integers or through a pointer.

* the information of a type is that of its walk, with a piece where it is homogeneous
  (`information_ok`);
* every signature of ordered records is well formed (`classifyNativeABI_wellFormed`).
-/

namespace Sela

namespace NativeArmAbi

abbrev target (aapcs64 : Bool) : NativeTarget := if aapcs64 then .aarch64 else .armv7

abbrev layout (aapcs64 : Bool) : DataLayout := (target aapcs64).layout

def failure {α : Type} (message : String) : Checked α := .error ("native ARM ABI: " ++ message)

def ensure (condition : Prop) [Decidable condition] (message : String) : Checked Unit :=
  Checked.ensure condition ("native ARM ABI: " ++ message)

/-- The greatest storage. -/
def sizeLimit : ℕ := 2 ^ 30

section Classifier

variable (aapcs64 : Bool)

/-- The scalars of a signature, among them the vectors of one or two registers. -/
def scalar : LlvmType → Bool
  | .scalar (.pointer addressSpace) => addressSpace == 0
  | .vector element count =>
    (count * (layout aapcs64).scalarBits element == 64 ||
        count * (layout aapcs64).scalarBits element == 128) &&
      match element with
      | .pointer _ => false
      | _ => true
  | .scalar (.floating format) => format == .float || format == .double
  | .scalar (.integer width) =>
    width == 1 || width == 8 || width == 16 || width == 32 || width == 64 ||
      (aapcs64 && width == 128)
  | _ => false

/-! ## Storage -/

mutual

/-- The nodes that remain when a type of bounded storage has been walked. -/
def boundedStorage : LlvmType → ℕ → ℕ → Option ℕ
  | .array element count, depth, remaining =>
    if remaining = 0 ∨ depth > 32 ∨ element.isSized = false then none
    else if count = 0 then none
    else do
      let remaining ← boundedStorage element (depth + 1) (remaining - 1)
      if (layout aapcs64).allocSize element ≠ 0 ∧
          count ≤ sizeLimit / (layout aapcs64).allocSize element then some remaining
      else none
  | .struct identity packed fields, depth, remaining =>
    if remaining = 0 ∨ depth > 32 ∨ LlvmType.fieldsSized fields = false then none
    else do
      let remaining ← boundedFields fields (depth + 1) 0 (remaining - 1)
      if (layout aapcs64).allocSize (.struct identity packed fields) ≤ sizeLimit then some remaining
      else none
  | type, depth, remaining =>
    if remaining = 0 ∨ depth > 32 ∨ type.isSized = false then none
    else if (layout aapcs64).allocSize type ≤ sizeLimit then some (remaining - 1)
    else none

/-- Walk fields, the worst-case padding of each added to `maximum`. -/
def boundedFields : List LlvmType → ℕ → ℕ → ℕ → Option ℕ
  | [], _, _, remaining => some remaining
  | field :: fields, depth, maximum, remaining => do
    let remaining ← boundedStorage field depth remaining
    let bytes := (layout aapcs64).allocSize field + ((layout aapcs64).abiAlign field).value
    if bytes > sizeLimit - maximum then none
    else boundedFields fields depth (maximum + bytes) remaining

end

/-! ## Homogeneous aggregates -/

structure Information where
  size : ℕ
  alignment : Align
  homogeneousBase : Option LlvmType
  members : ℕ

/-- The nodes that remain for the whole signature. -/
structure Budget where
  nodes : ℕ
  storageNodes : ℕ

/-- What the loop over the fields of a record carries. -/
structure FieldState where
  homogeneous : Bool
  hasValue : Bool
  previousEnd : ℕ
  homogeneousBase : Option LlvmType
  members : ℕ

variable (records : List NativeABIRecordLayout)

/-- The semantic layout of a record. -/
def findRecord (record : StructType) : Option NativeABIRecordLayout :=
  records.find? fun description => description.storageType = record

/-- An integer type of at least so many bits. -/
def holdsBits (type : LlvmType) (bits : ℕ) : Bool :=
  match type with
  | .scalar (.integer width) => bits ≤ width
  | _ => false

/-- Where a field of `bits` bits may not stand in a record of `size` bytes. -/
def invalidExtent (description : NativeABIRecordLayout) (size : ℕ) (field : NativeABIFieldLayout)
    (bits previousEnd : ℕ) : Bool :=
  field.bitOffset > size * 8 || bits > size * 8 - field.bitOffset ||
    (field.bitWidth.isSome && !holdsBits field.type bits) ||
    (field.bitWidth.isNone && field.bitOffset % 8 != 0) ||
    (description.kind == .union && field.bitOffset != 0) ||
    (description.kind == .ordered && !field.padding && field.bitOffset < previousEnd)

/-- One field of a record, given the information of its type. -/
def fieldStep (description : NativeABIRecordLayout) (size : ℕ) (field : NativeABIFieldLayout)
    (child : Information) (state : FieldState) : Checked FieldState := do
  let bits := field.bitWidth.getD (child.size * 8)
  ensure (invalidExtent description size field bits state.previousEnd = false)
    "invalid or overlapping semantic field extent"
  let previousEnd := if field.padding then state.previousEnd else field.bitOffset + bits
  let hasValue := state.hasValue || !field.padding
  if field.padding = true ∨ field.bitWidth.isSome = true ∨ child.homogeneousBase = none then
    pure { state with homogeneous := false, previousEnd := previousEnd, hasValue := hasValue }
  else
    pure
      { state with
        homogeneous := state.homogeneous &&
          decide (state.homogeneousBase = none ∨ state.homogeneousBase = child.homogeneousBase)
        hasValue := hasValue
        previousEnd := previousEnd
        homogeneousBase := child.homogeneousBase
        members :=
          if description.kind = .union then max state.members child.members
          else state.members + child.members }

/-- The information of a record whose fields have been walked. -/
def recordInformation (description : NativeABIRecordLayout) (size : ℕ) (state : FieldState) :
    Checked Information := do
  ensure state.hasValue "all-padding record requires an explicit ignored-value contract"
  match state.homogeneousBase with
  | none => pure ⟨size, description.alignment, none, 0⟩
  | some base =>
    if state.homogeneous = true ∧ state.members ≠ 0 ∧ state.members ≤ 4 ∧
        (layout aapcs64).allocSize base * state.members = size then
      pure ⟨size, description.alignment, some base, state.members⟩
    else pure ⟨size, description.alignment, none, 0⟩

/-- The members of an array of `count` elements. -/
def arrayInformation (size : ℕ) (alignment : Align) (count : ℕ) (element : Information) :
    Information :=
  if element.homogeneousBase ≠ none ∧ count ≤ 4 / element.members then
    ⟨size, alignment, element.homogeneousBase, element.members * count⟩
  else ⟨size, alignment, none, 0⟩

/-- The information of a type, met with `levels` levels of nesting left inside the records
of `active`. -/
def information : ℕ → List LlvmType → LlvmType → Budget → Checked (Information × Budget)
  | 0, _, _, _ => failure "unsized, oversized or excessively nested storage"
  | levels + 1, active, type, budget => do
    ensure (budget.nodes ≠ 0) "unsized, oversized or excessively nested storage"
    match boundedStorage aapcs64 type 0 budget.storageNodes with
    | none => failure "unsized, oversized or excessively nested storage"
    | some storageNodes => do
      let budget : Budget := ⟨budget.nodes - 1, storageNodes⟩
      let size := (layout aapcs64).allocSize type
      let alignment := (layout aapcs64).abiAlign type
      ensure (size ≠ 0 ∧ size ≤ sizeLimit) "empty or oversized ABI storage"
      if scalar aapcs64 type then
        if type = .floatTy ∨ type = .doubleTy then
          pure (⟨size, alignment, some type, 1⟩, budget)
        else pure (⟨size, alignment, none, 0⟩, budget)
      else
        match type with
        | .array element count => do
          let (element, budget) ← information levels active element budget
          pure (arrayInformation size alignment count element, budget)
        | .struct identity packed fields =>
          match findRecord records ⟨identity, packed, fields⟩ with
          | none => failure "aggregate lacks a qualified semantic record layout"
          | some description => do
            ensure (type ∉ active) "recursive by-value record"
            ensure (description.sizeBytes = size ∧ description.fields ≠ [] ∧
                description.fields.length ≤ 4096 ∧
                description.sizeBytes % description.alignment.value = 0)
              "semantic layout disagrees with storage extent"
            let (state, budget) ← description.fields.foldlM
              (fun (walk : FieldState × Budget) field => do
                let (child, budget) ← information levels (type :: active) field.type walk.2
                let state ← fieldStep description size field child walk.1
                pure (state, budget))
              (⟨true, false, 0, none, 0⟩, budget)
            let result ← recordInformation aapcs64 description size state
            pure (result, budget)
        | _ => failure "aggregate lacks a qualified semantic record layout"

/-! ## Classification -/

/-- A descriptor of one piece that holds the whole record. -/
def direct (native : NativeABIValue) (physical : LlvmType) : NativeABIValue :=
  { native with kind := .coerce, pieces := [⟨physical, 0⟩] }

def indirect (native : NativeABIValue) (returns byVal : Bool) : NativeABIValue :=
  { native with
    kind := .indirect
    byVal := byVal
    sRet := returns
    abiAlignment :=
      if aapcs64 = false ∧ returns = false then
        .of (max 4 (min native.storageAlignment.value 8))
      else native.abiAlignment }

/-- A homogeneous record of the members of `base`. -/
def classifyHomogeneous (native : NativeABIValue) (type base : LlvmType) (members : ℕ)
    (returns : Bool) : NativeABIValue :=
  if aapcs64 then
    if returns then direct native type
    else
      direct
        { native with
          stackAlignment := some (.of (if native.storageAlignment.value ≥ 16 then 16 else 8)) }
        (.array base members)
  else if returns = false ∧ (layout aapcs64).abiAlign base < native.storageAlignment ∧
      native.storageAlignment.value ≥ 8 then
    direct { native with stackAlignment := some (.of 8) } type
  else direct native type

/-- A record that crosses as integers or through a pointer. -/
def classifyIntegers (native : NativeABIValue) (returns : Bool) : NativeABIValue :=
  let size := native.storageSize
  if aapcs64 then
    if size > 16 then indirect aapcs64 native returns false
    else if returns = true ∧ size ≤ 8 then direct native (.int (size * 8))
    else
      let unit := if native.storageAlignment.value ≥ 16 then 16 else 8
      let count := (size + unit - 1) / unit
      direct native (if count = 1 then .int (unit * 8) else .array (.int (unit * 8)) count)
  else if returns then
    if size > 4 then indirect aapcs64 native returns false
    else direct native (.int ((if size ≤ 1 then 1 else if size ≤ 2 then 2 else 4) * 8))
  else if size > 64 then indirect aapcs64 native returns true
  else
    let unit := if native.storageAlignment.value ≤ 4 then 4 else 8
    direct native (.array (.int (unit * 8)) ((size + unit - 1) / unit))

def classify (type : LlvmType) (returns variadic : Bool) (budget : Budget) :
    Checked (NativeABIValue × Budget) :=
  if type = .void then
    if returns then pure (.blank type, budget) else failure "void argument"
  else do
    let (info, budget) ← information aapcs64 records 33 [] type budget
    let native :=
      { NativeABIValue.blank type with
        storageSize := info.size
        storageAlignment := info.alignment
        abiAlignment := info.alignment
        nativeCount := 1 }
    if scalar aapcs64 type then pure ({ native with pieces := [⟨type, 0⟩] }, budget)
    else if type.isStruct = false then
      failure "a by-value aggregate must be an explicitly qualified record"
    else
      match info.homogeneousBase with
      | some base =>
        if aapcs64 = true ∨ variadic = false then
          pure (classifyHomogeneous aapcs64 native type base info.members returns, budget)
        else pure (classifyIntegers aapcs64 native returns, budget)
      | none => pure (classifyIntegers aapcs64 native returns, budget)

/-! ## Signatures -/

/-- The native parameter of an argument : a pointer or its first piece. -/
def nativeParameter (argument : NativeABIValue) : LlvmType :=
  match argument.kind, argument.pieces with
  | .indirect, _ => .ptr
  | _, [] => .void
  | _, piece :: _ => piece.type

/-- What the parameter loop carries. -/
structure Parameters where
  nativeParameters : List LlvmType
  parameters : List NativeABIValue
  budget : Budget

def classifyParameter (variadic : Bool) (state : Parameters) (parameter : LlvmType) :
    Checked Parameters := do
  let (argument, budget) ← classify aapcs64 records parameter false variadic state.budget
  pure
    { nativeParameters := state.nativeParameters ++ [nativeParameter argument]
      parameters :=
        state.parameters ++ [{ argument with nativeBegin := state.nativeParameters.length }]
      budget := budget }

def signature (logical : FunctionType) (budget : Budget) : Checked NativeABISignature := do
  let (result, budget) ← classify aapcs64 records logical.result true logical.isVarArg budget
  let returnType :=
    if result.sRet then .void
    else
      match result.pieces with
      | [] => .void
      | piece :: _ => piece.type
  let state ← logical.params.foldlM (classifyParameter aapcs64 records logical.isVarArg)
    ⟨if result.sRet then [.ptr] else [], [], budget⟩
  pure
    { nativeType := ⟨returnType, state.nativeParameters, logical.isVarArg⟩
      result := result
      parameters := state.parameters
      sretIndex := if result.sRet then some 0 else none
      remainingGP := 0
      remainingSSE := 0 }

/-- The nodes a signature starts with. -/
def initialBudget : Budget := ⟨4096, 16384⟩

def classifyNativeLayoutABI (logical : FunctionType) : Checked NativeABISignature := do
  ensure (records.map NativeABIRecordLayout.storageType).Nodup
    "missing or duplicate semantic record"
  let budget ← records.foldlM
    (fun budget description => do
      let (_, budget) ← information aapcs64 records 33 [] description.storageType.toType budget
      pure budget)
    initialBudget
  signature aapcs64 records logical budget

/-- Check one ordered record; the nodes that remain go round. -/
def orderedStep (remaining : ℕ) (record : StructType) : Checked ℕ :=
  match boundedStorage aapcs64 record.toType 0 remaining with
  | none => failure "ordered ABI records must be nonempty, sized and naturally aligned"
  | some remaining => do
    ensure (record.packed = false ∧ record.fields ≠ [])
      "ordered ABI records must be nonempty, sized and naturally aligned"
    pure remaining

def classifyNativeABI (ordered : List StructType) (logical : FunctionType) :
    Checked NativeABISignature := do
  let _ ← ordered.foldlM (orderedStep aapcs64) initialBudget.storageNodes
  classifyNativeLayoutABI aapcs64
    (ordered.map (StructType.naturalLayout (layout aapcs64))) logical

end Classifier

variable {aapcs64 : Bool} {records : List NativeABIRecordLayout}

@[simp] theorem ensure_ok {condition : Prop} [Decidable condition] {message : String} {u : Unit} :
    ensure condition message = .ok u ↔ condition :=
  Checked.ensure_ok

@[simp] theorem failure_ne_ok {α : Type} {message : String} {a : α} :
    (failure message : Checked α) ≠ .ok a := by
  simp [failure]

/-! ## What information says -/

/-- The members of homogeneous aggregates. -/
def IsBase (type : LlvmType) : Prop := type = .floatTy ∨ type = .doubleTy

theorem isSized_of_boundedStorage {type : LlvmType} {depth remaining remaining' : ℕ}
    (h : boundedStorage aapcs64 type depth remaining = some remaining') : type.isSized = true := by
  by_contra hsized
  cases type <;> simp_all [boundedStorage, LlvmType.isSized]

theorem count_ne_zero_of_boundedStorage {element : LlvmType} {count depth remaining remaining' : ℕ}
    (h : boundedStorage aapcs64 (.array element count) depth remaining = some remaining') :
    count ≠ 0 := by
  rintro rfl
  simp [boundedStorage] at h

/-- The information of a type with `levels` levels of nesting left. -/
structure InformationOk (aapcs64 : Bool) (levels : ℕ) (type : LlvmType) (info : Information) :
    Prop where
  sized : type.isSized = true
  size : info.size = (layout aapcs64).allocSize type
  alignment : info.alignment = (layout aapcs64).abiAlign type
  pos : 0 < info.size
  base : ∀ base, info.homogeneousBase = some base → IsBase base
  members : ∀ base, info.homogeneousBase = some base → 0 < info.members ∧ info.members ≤ 4
  piece : ∀ base, info.homogeneousBase = some base → ∀ depth, depth + levels ≤ 33 →
    NativeAbi.validPieceType type depth = true
  extent : ∀ base, info.homogeneousBase = some base → type.isStruct = true →
    (layout aapcs64).allocSize base * info.members = info.size

/-- The fields of a record that have been walked. -/
structure Walked (levels : ℕ) (passed : List NativeABIFieldLayout) (state : FieldState) : Prop where
  base : ∀ base, state.homogeneousBase = some base → IsBase base
  members : state.homogeneous = true → passed.length ≤ state.members
  pieces : state.homogeneous = true → ∀ field ∈ passed, ∀ depth, depth + levels ≤ 33 →
    NativeAbi.validPieceType field.type depth = true

theorem fieldStep_walked {levels size : ℕ} {description : NativeABIRecordLayout}
    {field : NativeABIFieldLayout} {child : Information} {passed : List NativeABIFieldLayout}
    {state state' : FieldState} (hordered : description.kind = .ordered)
    (hstate : Walked levels passed state) (hchild : InformationOk aapcs64 levels field.type child)
    (h : fieldStep description size field child state = .ok state') :
    Walked levels (passed ++ [field]) state' := by
  obtain ⟨-, -, h⟩ := Checked.bind_ok.mp h
  dsimp only at h
  by_cases hplain : field.padding = true ∨ field.bitWidth.isSome = true ∨
      child.homogeneousBase = none
  · rw [if_pos hplain] at h
    obtain rfl := Except.ok.inj h
    exact ⟨hstate.base, by simp, by simp⟩
  · rw [if_neg hplain] at h
    obtain rfl := Except.ok.inj h
    obtain ⟨base, hbase⟩ := Option.ne_none_iff_exists'.mp
      fun hnone => hplain (.inr (.inr hnone))
    have hmembers := hchild.members base hbase
    have hadd : (if description.kind = .union then max state.members child.members
        else state.members + child.members) = state.members + child.members :=
      if_neg (by simp [hordered])
    refine ⟨hchild.base, fun hhomogeneous => ?_, fun hhomogeneous => ?_⟩
    · have := hstate.members (Bool.and_eq_true_iff.mp hhomogeneous).1
      simp only [hadd, List.length_append, List.length_singleton]
      omega
    · intro field' hfield' depth hdepth
      rcases List.mem_append.mp hfield' with hmem | hmem
      · exact hstate.pieces (Bool.and_eq_true_iff.mp hhomogeneous).1 field' hmem depth hdepth
      · obtain rfl := List.mem_singleton.mp hmem
        exact hchild.piece base hbase depth hdepth

theorem arrayInformation_ok {levels count : ℕ} {element : LlvmType} {info : Information}
    (hsized : element.isSized = true) (hcount : count ≠ 0)
    (hpos : 0 < (layout aapcs64).allocSize (.array element count))
    (hinfo : InformationOk aapcs64 levels element info) :
    InformationOk aapcs64 (levels + 1) (.array element count)
      (arrayInformation ((layout aapcs64).allocSize (.array element count))
        ((layout aapcs64).abiAlign (.array element count)) count info) := by
  unfold arrayInformation
  split_ifs with hhomogeneous
  · obtain ⟨hne, hle⟩ := hhomogeneous
    obtain ⟨base, hbase⟩ := Option.ne_none_iff_exists'.mp hne
    obtain ⟨hmembers, -⟩ := hinfo.members base hbase
    have hmul : info.members * count ≤ 4 := by
      rw [Nat.mul_comm]
      exact (Nat.le_div_iff_mul_le hmembers).mp hle
    have hcount4 : count ≤ 4 := (Nat.le_mul_of_pos_left count hmembers).trans hmul
    refine ⟨hsized, rfl, rfl, hpos, hinfo.base, fun _ _ =>
      ⟨Nat.mul_pos hmembers (Nat.pos_of_ne_zero hcount), hmul⟩, fun _ _ depth hdepth => ?_, by simp [LlvmType.isStruct]⟩
    have hpiece := hinfo.piece base hbase (depth + 1) (by omega)
    have hdepth32 : depth ≤ 32 := by omega
    have hcount64 : count ≤ 64 := by omega
    simp [NativeAbi.validPieceType, hdepth32, hsized, Nat.pos_of_ne_zero hcount, hcount64, hpiece]
  · exact ⟨hsized, rfl, rfl, hpos, by simp, by simp, by simp, by simp⟩

/-- The semantic layouts are those of ordered records. -/
def Natural (aapcs64 : Bool) (records : List NativeABIRecordLayout) : Prop :=
  ∀ description ∈ records,
    description = description.storageType.naturalLayout (layout aapcs64)

theorem natural_map (ordered : List StructType) :
    Natural aapcs64 (ordered.map (StructType.naturalLayout (layout aapcs64))) := by
  intro description hdescription
  obtain ⟨record, -, rfl⟩ := List.mem_map.mp hdescription
  rfl

theorem Natural.find (hnatural : Natural aapcs64 records) {record : StructType}
    {description : NativeABIRecordLayout} (h : findRecord records record = some description) :
    description = record.naturalLayout (layout aapcs64) := by
  have hmem := List.mem_of_find?_eq_some h
  have hstorage : description.storageType = record := by simpa using List.find?_some h
  rw [hnatural description hmem, hstorage]

theorem recordInformation_ok {levels : ℕ} (record : StructType)
    {description : NativeABIRecordLayout} {state : FieldState} {info : Information}
    (hdescription : description = record.naturalLayout (layout aapcs64))
    (hsized : record.toType.isSized = true) (hne : description.fields ≠ [])
    (hpos : 0 < (layout aapcs64).allocSize record.toType)
    (hwalked : Walked levels description.fields state)
    (h : recordInformation aapcs64 description ((layout aapcs64).allocSize record.toType) state =
      .ok info) :
    InformationOk aapcs64 (levels + 1) record.toType info := by
  have halign : description.alignment = (layout aapcs64).abiAlign record.toType := by
    rw [hdescription]
    rfl
  have hplain : ∀ {info'}, (⟨(layout aapcs64).allocSize record.toType, description.alignment, none,
      0⟩ : Information) = info' → InformationOk aapcs64 (levels + 1) record.toType info' := by
    rintro _ rfl
    exact ⟨hsized, rfl, halign, hpos, by simp, by simp, by simp, by simp⟩
  obtain ⟨-, -, h⟩ := Checked.bind_ok.mp h
  split at h
  · exact hplain (Except.ok.inj h)
  · next base hbase =>
    split_ifs at h with hhomogeneous
    · obtain rfl := Except.ok.inj h
      obtain ⟨htrue, hzero, hfour, hextent⟩ := hhomogeneous
      refine ⟨hsized, rfl, halign, hpos, ?_, fun _ _ => ⟨Nat.pos_of_ne_zero hzero, hfour⟩,
        fun _ _ depth hdepth => ?_, ?_⟩
      · rintro _ ⟨⟩
        exact hwalked.base base hbase
      · have hfields : description.fields.map NativeABIFieldLayout.type = record.fields := by
          rw [hdescription]
          exact record.map_type_naturalLayout _
        have hlength : description.fields.length = record.fields.length := by
          rw [← hfields, List.length_map]
        have hmembers := hwalked.members htrue
        have hpositive : 0 < record.fields.length := hlength ▸ List.length_pos_iff.mpr hne
        have hdepth32 : depth ≤ 32 := by omega
        have hlength64 : record.fields.length ≤ 64 := by omega
        have hpieces : NativeAbi.validPieceTypes record.fields (depth + 1) = true := by
          rw [NativeAbi.validPieceTypes_iff, ← hfields]
          intro field hfield
          obtain ⟨field', hfield', rfl⟩ := List.mem_map.mp hfield
          exact hwalked.pieces htrue field' hfield' (depth + 1) (by omega)
        have hsized' : LlvmType.fieldsSized record.fields = true := hsized
        simp [NativeAbi.validPieceType, hdepth32, hsized', hpositive, hlength64, hpieces]
      · rintro _ ⟨⟩ -
        exact hextent
    · exact hplain (Except.ok.inj h)

/-- The information of a type over ordered records. -/
theorem information_ok (hnatural : Natural aapcs64 records) :
    ∀ {levels : ℕ} {active : List LlvmType} {type : LlvmType} {budget budget' : Budget}
      {info : Information},
      information aapcs64 records levels active type budget = .ok (info, budget') →
        InformationOk aapcs64 levels type info
  | 0, _, _, _, _, _, h => by simp [information] at h
  | levels + 1, active, type, budget, budget', info, h => by
    rw [information, Checked.bind_ok] at h
    obtain ⟨-, -, h⟩ := h
    split at h
    · simp at h
    next storageNodes hbounded =>
    have hsized := isSized_of_boundedStorage hbounded
    obtain ⟨_, hsize, h⟩ := Checked.bind_ok.mp h
    have hpos : 0 < (layout aapcs64).allocSize type := Nat.pos_of_ne_zero (ensure_ok.mp hsize).1
    split_ifs at h with hscalar hbase
    · obtain ⟨rfl, -⟩ := Prod.mk.inj (Except.ok.inj h)
      refine ⟨hsized, rfl, rfl, hpos, by rintro _ ⟨⟩; exact hbase, fun _ _ => by simp,
        fun _ _ depth hdepth => ?_, fun _ _ hstruct => ?_⟩
      · have hdepth32 : depth ≤ 32 := by omega
        rcases hbase with rfl | rfl <;>
          simp [NativeAbi.validPieceType, NativeAbi.nativePieceScalar, NativeAbi.scalar, hdepth32]
      · rcases hbase with rfl | rfl <;> simp [LlvmType.isStruct] at hstruct
    · obtain ⟨rfl, -⟩ := Prod.mk.inj (Except.ok.inj h)
      exact ⟨hsized, rfl, rfl, hpos, by simp, by simp, by simp, by simp⟩
    · cases type with
      | array element count =>
        obtain ⟨⟨child, budget₁⟩, hchild, h⟩ := Checked.bind_ok.mp h
        obtain ⟨rfl, -⟩ := Prod.mk.inj (Except.ok.inj h)
        exact arrayInformation_ok hsized (count_ne_zero_of_boundedStorage hbounded) hpos
          (information_ok hnatural hchild)
      | struct identity packed fields =>
        dsimp only at h
        split at h
        · simp at h
        next description hfind =>
        obtain ⟨-, -, h⟩ := Checked.bind_ok.mp h
        obtain ⟨_, hextent, h⟩ := Checked.bind_ok.mp h
        obtain ⟨⟨state, budget₁⟩, hwalk, h⟩ := Checked.bind_ok.mp h
        obtain ⟨result, hresult, h⟩ := Checked.bind_ok.mp h
        obtain ⟨rfl, -⟩ := Prod.mk.inj (Except.ok.inj h)
        have hdescription := hnatural.find hfind
        have hkind : description.kind = .ordered := by rw [hdescription]; rfl
        refine recordInformation_ok ⟨identity, packed, fields⟩ hdescription hsized
          (ensure_ok.mp hextent).2.1 hpos ?_ hresult
        refine Checked.foldlM_invariant
          (fun passed (walk : FieldState × Budget) => Walked levels passed walk.1)
          (show Walked levels [] ⟨true, false, 0, none, 0⟩ from ⟨by simp, by simp, by simp⟩) ?_ hwalk
        intro passed field rest walk walk' _ hstate hstep
        obtain ⟨⟨child, budget₂⟩, hchild, hstep⟩ := Checked.bind_ok.mp hstep
        obtain ⟨state', hfield, hpure⟩ := Checked.bind_ok.mp hstep
        obtain rfl := Except.ok.inj hpure
        exact fieldStep_walked hkind hstate (information_ok hnatural hchild) hfield
      | void => simp at h
      | scalar => simp at h
      | vector => simp at h
      | unsized => simp at h

/-! ## Pieces of a record -/

/-- A record that crosses as one piece at its start. -/
theorem loadable_direct {layout : DataLayout} {native : NativeABIValue} {physical : LlvmType}
    (hsized : native.storageType.isSized = true)
    (hsize : layout.allocSize native.storageType = native.storageSize)
    (hpos : 0 < native.storageSize) (hvalid : NativeAbi.validPieceType physical 0 = true)
    (hextent : NativeAbi.validPieceExtent layout native.storageSize physical 0 = true) :
    NativeAbi.Loadable layout (direct native physical) where
  sized := hsized
  size := hsize
  nonempty := by simp [direct]
  types piece hpiece := by
    obtain rfl := List.mem_singleton.mp hpiece
    exact hvalid
  inside piece hpiece := by
    obtain rfl := List.mem_singleton.mp hpiece
    exact hpos
  extents piece hpiece := by
    obtain rfl := List.mem_singleton.mp hpiece
    exact hextent
  ordered := List.pairwise_singleton _ _

/-- An integer may reach past the end of the storage it begins in. -/
theorem validPieceExtent_int {layout : DataLayout} {extent offset width : ℕ}
    (h : offset < extent) :
    NativeAbi.validPieceExtent layout extent (.int width) offset = true := by
  unfold NativeAbi.validPieceExtent
  simp [h, LlvmType.isInteger]

theorem validPieceType_int {bytes depth : ℕ} (hdepth : depth ≤ 32) (hbytes : bytes ≤ 16) :
    NativeAbi.validPieceType (.int (bytes * 8)) depth = true := by
  have : bytes * 8 ≤ 128 := by omega
  simp [NativeAbi.validPieceType, NativeAbi.nativePieceScalar, hdepth, this]

/-- The register integers of a target are stored without padding. -/
theorem allocSize_unit {unit : ℕ} (hunit : unit = 4 ∨ unit = 8 ∨ unit = 16 ∧ aapcs64 = true) :
    (layout aapcs64).allocSize (.int (unit * 8)) = unit := by
  rcases hunit with rfl | rfl | ⟨rfl, rfl⟩
  · cases aapcs64 <;> rfl
  · cases aapcs64 <;> rfl
  · rfl

/-- An array of register integers that covers some storage. -/
theorem units_spec {unit size : ℕ} (hunit : unit = 4 ∨ unit = 8 ∨ unit = 16 ∧ aapcs64 = true)
    (hpos : 0 < size) (hsize : size ≤ 64) :
    NativeAbi.validPieceType (.array (.int (unit * 8)) ((size + unit - 1) / unit)) 0 = true ∧
      NativeAbi.validPieceExtent (layout aapcs64) size
        (.array (.int (unit * 8)) ((size + unit - 1) / unit)) 0 = true := by
  have hunit16 : unit ≤ 16 := by omega
  have hunitpos : 0 < unit := by omega
  have hcount : 0 < (size + unit - 1) / unit := Nat.div_pos (by omega) hunitpos
  have hcount64 : (size + unit - 1) / unit ≤ 64 := by
    refine Nat.div_le_of_le_mul ?_
    have : 4 * 64 ≤ unit * 64 := Nat.mul_le_mul_right 64 (by omega)
    omega
  refine ⟨?_, ?_⟩
  · have helement := validPieceType_int (show 1 ≤ 32 by decide) hunit16
    rw [NativeAbi.validPieceType, helement]
    simp [LlvmType.isSized, hcount, hcount64]
  · rw [NativeAbi.validPieceExtent, Bool.and_eq_true, Bool.or_eq_true]
    refine ⟨by simpa using hpos, .inr (List.all_eq_true.mpr fun i hi => ?_)⟩
    refine validPieceExtent_int ?_
    have hlt : i < (size + unit - 1) / unit := List.mem_range.mp hi
    have hmul : (i + 1) * unit ≤ size + unit - 1 :=
      (Nat.mul_le_mul_right unit hlt).trans (Nat.div_mul_le_self _ _)
    rw [allocSize_unit hunit]
    rw [Nat.succ_mul] at hmul
    omega

/-! ## Classified values -/

theorem classified_direct {native : NativeABIValue} {type physical : LlvmType} {returns : Bool}
    (hstorage : native.storageType = type) (hcount : native.nativeCount = 1)
    (hsRet : native.sRet = false)
    (hloadable : NativeAbi.Loadable (layout aapcs64) (direct native physical)) :
    (direct native physical).Classified (layout aapcs64) type returns where
  storage := hstorage
  sRet := by simp [direct, hsRet]
  count := hcount
  direct := by simp [direct]
  coerce _ := rfl
  expand := by simp [direct]
  loadable _ _ := hloadable

theorem classified_indirect {native : NativeABIValue} {type : LlvmType} {returns byVal : Bool}
    (hstorage : native.storageType = type) (hcount : native.nativeCount = 1) :
    (indirect aapcs64 native returns byVal).Classified (layout aapcs64) type returns where
  storage := hstorage
  sRet := by simp [indirect]
  count := hcount
  direct := by simp [indirect]
  coerce := by simp [indirect]
  expand := by simp [indirect]
  loadable := by simp [indirect]

/-- The descriptor of a record before its pieces are chosen. -/
structure Described (aapcs64 : Bool) (type : LlvmType) (native : NativeABIValue) : Prop where
  storage : native.storageType = type
  size : (layout aapcs64).allocSize type = native.storageSize
  sized : type.isSized = true
  pos : 0 < native.storageSize
  count : native.nativeCount = 1
  sRet : native.sRet = false

/-- A value that is not indirect has at most one piece, and a parameter just one. -/
structure Single (aapcs64 : Bool) (type : LlvmType) (returns : Bool) (native : NativeABIValue) :
    Prop extends native.Classified (layout aapcs64) type returns where
  single : returns = false → native.kind ≠ .indirect → native.pieces.length = 1
  le_one : native.kind ≠ .indirect → native.pieces.length ≤ 1

theorem Described.single {type physical : LlvmType} {returns : Bool} {native : NativeABIValue}
    (h : Described aapcs64 type native) (hvalid : NativeAbi.validPieceType physical 0 = true)
    (hextent : NativeAbi.validPieceExtent (layout aapcs64) native.storageSize physical 0 = true) :
    Single aapcs64 type returns (direct native physical) where
  toClassified := classified_direct h.storage h.count h.sRet
    (loadable_direct (h.storage.symm ▸ h.sized) (h.storage.symm ▸ h.size) h.pos hvalid hextent)
  single _ _ := rfl
  le_one _ := le_rfl

theorem Described.indirect {type : LlvmType} {returns byVal : Bool} {native : NativeABIValue}
    (h : Described aapcs64 type native) :
    Single aapcs64 type returns (indirect aapcs64 native returns byVal) where
  toClassified := classified_indirect h.storage h.count
  single _ hkind := absurd rfl hkind
  le_one hkind := absurd rfl hkind

theorem Described.integer {type : LlvmType} {returns : Bool} {native : NativeABIValue} {bytes : ℕ}
    (h : Described aapcs64 type native) (hbytes : bytes ≤ 16) :
    Single aapcs64 type returns (direct native (.int (bytes * 8))) :=
  h.single (validPieceType_int (Nat.zero_le _) hbytes) (validPieceExtent_int h.pos)

theorem Described.units {type : LlvmType} {returns : Bool} {native : NativeABIValue} {unit : ℕ}
    (h : Described aapcs64 type native) (hunit : unit = 4 ∨ unit = 8 ∨ unit = 16 ∧ aapcs64 = true)
    (hsize : native.storageSize ≤ 64) :
    Single aapcs64 type returns
      (direct native (.array (.int (unit * 8)) ((native.storageSize + unit - 1) / unit))) :=
  h.single (units_spec hunit h.pos hsize).1 (units_spec hunit h.pos hsize).2

theorem classifyIntegers_ok {type : LlvmType} {returns : Bool} {native : NativeABIValue}
    (h : Described aapcs64 type native) :
    Single aapcs64 type returns (classifyIntegers aapcs64 native returns) := by
  unfold classifyIntegers
  dsimp only
  split_ifs
  all_goals first
    | exact h.indirect
    | exact h.integer (by omega)
    | exact h.units (by simp_all) (by omega)

theorem validPieceExtent_whole {layout : DataLayout} {size : ℕ} {type : LlvmType} (hpos : 0 < size)
    (h : layout.allocSize type ≤ size) :
    NativeAbi.validPieceExtent layout size type 0 = true :=
  NativeAbi.validPieceExtent_of_le hpos ((DataLayout.storeSize_le_allocSize type).trans h)

theorem classifyHomogeneous_ok {type base : LlvmType} {returns : Bool} {native : NativeABIValue}
    {info : Information} (h : Described aapcs64 type native) (hsize : native.storageSize = info.size)
    (hstruct : type.isStruct = true) (hinfo : InformationOk aapcs64 33 type info)
    (hbase : info.homogeneousBase = some base) :
    Single aapcs64 type returns
      (classifyHomogeneous aapcs64 native type base info.members returns) := by
  have hpiece := hinfo.piece base hbase 0 le_rfl
  have hwhole := @validPieceExtent_whole (layout aapcs64) _ _ h.pos h.size.le
  have hmembers := hinfo.members base hbase
  have hstacked : ∀ stackAlignment, Described aapcs64 type
      { native with stackAlignment := stackAlignment } :=
    fun _ => ⟨h.storage, h.size, h.sized, h.pos, h.count, h.sRet⟩
  unfold classifyHomogeneous
  by_cases haapcs64 : aapcs64 = true
  · rw [if_pos haapcs64]
    by_cases hreturns : returns = true
    · rw [if_pos hreturns]
      exact h.single hpiece hwhole
    · rw [if_neg hreturns]
      refine (hstacked _).single ?_ (validPieceExtent_whole h.pos ?_)
      · have helement : NativeAbi.validPieceType base 1 = true := by
          rcases hinfo.base base hbase with rfl | rfl <;> rfl
        have hsized : base.isSized = true := by
          rcases hinfo.base base hbase with rfl | rfl <;> rfl
        have hmembers64 : info.members ≤ 64 := by omega
        rw [NativeAbi.validPieceType, helement]
        simp [hsized, hmembers.1, hmembers64]
      · rw [DataLayout.allocSize_array, Nat.mul_comm, hinfo.extent base hbase hstruct]
        exact hsize.ge
  · rw [if_neg haapcs64]
    split
    · exact (hstacked _).single hpiece hwhole
    · exact h.single hpiece hwhole

/-- The descriptor of a value over ordered records. -/
theorem classify_ok (hnatural : Natural aapcs64 records) {type : LlvmType}
    {returns variadic : Bool} {budget budget' : Budget} {native : NativeABIValue}
    (h : classify aapcs64 records type returns variadic budget = .ok (native, budget')) :
    Single aapcs64 type returns native := by
  unfold classify at h
  by_cases hvoid : type = .void
  · rw [if_pos hvoid] at h
    split_ifs at h with hreturns
    · obtain ⟨rfl, -⟩ := Prod.mk.inj (Except.ok.inj h)
      subst hvoid
      exact
        { storage := rfl
          sRet := by simp [NativeABIValue.blank]
          count := by simp [NativeABIValue.blank, NativeABIValue.nativeTypes]
          direct := by simp [NativeABIValue.blank]
          coerce := by simp [NativeABIValue.blank]
          expand := by simp [NativeABIValue.blank]
          loadable := by simp [LlvmType.isStruct]
          single := by simp [hreturns]
          le_one := by simp [NativeABIValue.blank] }
    · simp at h
  rw [if_neg hvoid] at h
  obtain ⟨⟨info, budget₁⟩, hinformation, h⟩ := Checked.bind_ok.mp h
  have hinfo := information_ok hnatural hinformation
  dsimp only at h
  by_cases hscalar : scalar aapcs64 type = true
  · rw [if_pos hscalar] at h
    obtain ⟨rfl, -⟩ := Prod.mk.inj (Except.ok.inj h)
    exact
      { storage := rfl
        sRet := by simp [NativeABIValue.blank]
        count := by simp [NativeABIValue.blank, NativeABIValue.nativeTypes]
        direct := by simp
        coerce := by simp [NativeABIValue.blank]
        expand := by simp [NativeABIValue.blank]
        loadable := fun hstruct => by cases type <;> simp_all [LlvmType.isStruct, scalar]
        single := by simp
        le_one := by simp }
  rw [if_neg hscalar] at h
  by_cases hstruct : type.isStruct = false
  · simp [hstruct] at h
  rw [if_neg hstruct] at h
  have hdescribed : Described aapcs64 type
      { NativeABIValue.blank type with
        storageSize := info.size
        storageAlignment := info.alignment
        abiAlignment := info.alignment
        nativeCount := 1 } :=
    ⟨rfl, hinfo.size.symm, hinfo.sized, hinfo.pos, rfl, rfl⟩
  split at h
  · next base hbase =>
    split_ifs at h
    · obtain ⟨rfl, -⟩ := Prod.mk.inj (Except.ok.inj h)
      exact classifyHomogeneous_ok hdescribed rfl (by simpa using hstruct) hinfo hbase
    · obtain ⟨rfl, -⟩ := Prod.mk.inj (Except.ok.inj h)
      exact classifyIntegers_ok hdescribed
  · obtain ⟨rfl, -⟩ := Prod.mk.inj (Except.ok.inj h)
    exact classifyIntegers_ok hdescribed

/-! ## Signatures -/

theorem nativeParameter_eq {type : LlvmType} {argument : NativeABIValue}
    (h : Single aapcs64 type false argument) : [nativeParameter argument] = argument.nativeTypes := by
  unfold nativeParameter NativeABIValue.nativeTypes
  by_cases hkind : argument.kind = .indirect
  · rw [if_pos hkind, hkind]
  · rw [if_neg hkind]
    obtain ⟨piece, hpieces⟩ := List.length_eq_one_iff.mp (h.single rfl hkind)
    rw [hpieces]
    rcases hk : argument.kind with _ | _ | _ | _
    · rfl
    · rfl
    · rfl
    · exact absurd hk hkind

theorem classifyParameter_step (hnatural : Natural aapcs64 records) {variadic : Bool}
    {logical hidden : List LlvmType} {parameter : LlvmType} {state state' : Parameters}
    (hstate : NativeABIValue.Placed (layout aapcs64) logical hidden state.nativeParameters
      state.parameters)
    (h : classifyParameter aapcs64 records variadic state parameter = .ok state') :
    NativeABIValue.Placed (layout aapcs64) (logical ++ [parameter]) hidden state'.nativeParameters
      state'.parameters := by
  obtain ⟨⟨argument, budget⟩, hargument, h⟩ := Checked.bind_ok.mp h
  obtain rfl := Except.ok.inj h
  have hsingle := classify_ok hnatural hargument
  have hplaced := hstate.concat hsingle.toClassified
  rwa [← nativeParameter_eq hsingle] at hplaced

theorem classifyParameters_run (hnatural : Natural aapcs64 records) {variadic : Bool}
    {hidden parameters : List LlvmType} :
    ∀ {logical : List LlvmType} {state state' : Parameters},
      NativeABIValue.Placed (layout aapcs64) logical hidden state.nativeParameters
        state.parameters →
      parameters.foldlM (classifyParameter aapcs64 records variadic) state = .ok state' →
        NativeABIValue.Placed (layout aapcs64) (logical ++ parameters) hidden
          state'.nativeParameters state'.parameters := by
  induction parameters with
  | nil =>
    intro logical state state' hstate h
    obtain rfl : state = state' := by simpa using h
    simpa using hstate
  | cons parameter parameters ih =>
    intro logical state state' hstate h
    obtain ⟨middle, hstep, h⟩ := Checked.foldlM_cons_ok.mp h
    simpa using ih (classifyParameter_step hnatural hstate hstep) h

theorem signature_wellFormed (hnatural : Natural aapcs64 records) {logical : FunctionType}
    {budget : Budget} {native : NativeABISignature}
    (h : signature aapcs64 records logical budget = .ok native) :
    native.WellFormed (layout aapcs64) logical := by
  obtain ⟨⟨result, budget₁⟩, hresult, h⟩ := Checked.bind_ok.mp h
  obtain ⟨state, hstate, h⟩ := Checked.bind_ok.mp h
  obtain rfl := Except.ok.inj h
  have hsingle := classify_ok hnatural hresult
  have hplaced := classifyParameters_run hnatural
    (NativeABIValue.Placed.start (if result.sRet then [.ptr] else [])) hstate
  refine NativeABISignature.wellFormed_of_placed hsingle.toClassified hplaced ?_ rfl rfl
  unfold NativeABIValue.nativeResult
  split
  · rfl
  · next hsRet =>
    have hkind : result.kind ≠ .indirect := fun hkind => hsRet (hsingle.sRet.mpr ⟨hkind, rfl⟩)
    have hlength := hsingle.le_one hkind
    dsimp only
    rcases hpieces : result.pieces with _ | ⟨piece, _ | ⟨second, rest⟩⟩
    · rfl
    · rfl
    · simp [hpieces] at hlength

/-- Every signature of ordered records is well formed. -/
theorem classifyNativeABI_wellFormed {ordered : List StructType} {logical : FunctionType}
    {native : NativeABISignature} (h : classifyNativeABI aapcs64 ordered logical = .ok native) :
    native.WellFormed (layout aapcs64) logical := by
  obtain ⟨-, -, h⟩ := Checked.bind_ok.mp h
  obtain ⟨-, -, h⟩ := Checked.bind_ok.mp h
  obtain ⟨budget, -, h⟩ := Checked.bind_ok.mp h
  exact signature_wellFormed (natural_map ordered) h

end NativeArmAbi

end Sela
