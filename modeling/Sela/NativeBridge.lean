import Sela.NativeReturns

/-!
# Owned storage behind a native signature

A function over owned storage takes a pointer to each record of its logical signature, that of its
result first (`nativeStorageBodyType`). The bridge gives such a function the native signature that
a classifier returned : it fills owned storage from the native arguments at its entry, and at each
return it reads the native result back (`materializeNativeAggregateDefinition`). A call is taken
apart in the same way on its side (`materializeNativeAggregateCall`).

* a call is always materialized (`materializeNativeAggregateCall_ok`);
* a definition is, unless it returns a record in two registers that together are wider than the
  record (`materializeNativeAggregateDefinition_ok_iff`).
-/

namespace Sela

open Checked
open NativeAbi hiding ensure ensure_ok

/-! ## Attributes -/

/-- The attributes of parameters and results that the bridge writes, and any other. -/
inductive AbiAttribute
  | structRet (type : LlvmType)
  | byVal (type : LlvmType)
  | align (alignment : Align)
  | stackAlign (alignment : Align)
  | deadOnUnwind
  | writable
  | noAlias
  | noUndef
  | other (name : String)
  deriving DecidableEq

structure AttributeList where
  function : List String
  result : List AbiAttribute
  params : List (List AbiAttribute)

/-- The attributes of a parameter. -/
def AttributeList.param (attributes : AttributeList) (index : ℕ) : List AbiAttribute :=
  attributes.params.getD index []

/-- The attributes of the native parameters of a record. -/
def physicalAttributes (value : NativeABIValue) (result definition : Bool) : List AbiAttribute :=
  (if value.kind = .indirect then
    (if result || value.byVal then
      [if result then .structRet value.storageType else .byVal value.storageType,
        .align value.abiAlignment]
    else []) ++
      if result then [.deadOnUnwind, .writable] ++ if definition then [.noAlias] else []
      else [.noUndef]
  else []) ++ if result then [] else (value.stackAlignment.map .stackAlign).toList

/-- Set the attributes of the native parameters of a value. -/
def placeAttributes (value : NativeABIValue) (attributes : List AbiAttribute)
    (parameters : List (List AbiAttribute)) : List (List AbiAttribute) :=
  (List.range value.nativeCount).foldl
    (fun parameters piece => parameters.set (value.nativeBegin + piece) attributes) parameters

/-- Set the attributes of the native parameters of each value, the first of which is an argument
of the body at `index`. -/
def parameterAttributes (body : AttributeList) (definition : Bool) :
    List NativeABIValue → ℕ → List (List AbiAttribute) → Checked (List (List AbiAttribute))
  | [], _, parameters => pure parameters
  | value :: values, index, parameters => do
    let attributes ←
      if value.storageType.isAggregate then do
        ensure (body.param index = [])
          "owned aggregate input cannot carry scalar native ABI attributes"
        pure (physicalAttributes value false definition)
      else pure (body.param index)
    parameterAttributes body definition values (index + 1)
      (placeAttributes value attributes parameters)

/-- The place of the first parameter among the arguments of a body. -/
def bodyOffset (logical : FunctionType) : ℕ := if logical.result.isAggregate then 1 else 0

def physicalAttributeList (body : AttributeList) (logical : FunctionType)
    (native : NativeABISignature) (definition : Bool) : Checked AttributeList := do
  let result := logical.result.isAggregate
  ensure (¬(result = true ∧ (body.result ≠ [] ∨ body.param 0 ≠ [])))
    "owned aggregate result argument cannot carry scalar native ABI attributes"
  let parameters := List.replicate native.nativeType.params.length []
  let parameters :=
    match native.sretIndex with
    | some index => parameters.set index (physicalAttributes native.result true definition)
    | none => parameters
  let parameters ←
    parameterAttributes body definition native.parameters (bodyOffset logical) parameters
  pure ⟨body.function, if result then [] else body.result, parameters⟩

/-! ## Bodies and calls -/

/-- The type of a function over owned storage. -/
def nativeStorageBodyType (logical : FunctionType) : FunctionType where
  result := if logical.result.isAggregate then .void else logical.result
  params := (if logical.result.isAggregate then [.ptr] else []) ++
    logical.params.map fun parameter => if parameter.isAggregate then .ptr else parameter
  isVarArg := logical.isVarArg

/-- What the bridge reads of a function over owned storage. A definition has a number of return
instructions. -/
structure StorageBody where
  type : FunctionType
  callingConv : ℕ
  attributes : AttributeList
  returns : Option ℕ

/-- What the bridge reads of a call of such a function. -/
structure StorageCall where
  type : FunctionType
  callingConv : ℕ
  operandBundles : Bool
  tailCall : Bool
  attributes : AttributeList

/-- An access in a module of the layout. -/
def moduleAccess (layout : DataLayout) (alignment : Align) : Access :=
  ⟨true, true, true, some layout, alignment⟩

/-- The accesses that are emitted, unless there is an error. -/
def emit {α : Type} (run : Stateful (List PieceAccess) α) : Checked (List PieceAccess) :=
  match Stateful.exec run [] with
  | (.ok _, emitted) => .ok emitted
  | (.error message, _) => .error message

/-! ## Definitions -/

/-- What takes the place of an argument of the body : a native argument, or an allocation that
holds `count` native arguments from the `first` on. -/
inductive BodyArgument
  | argument (index : ℕ)
  | storage (type : LlvmType) (alignment : Align) (first count : ℕ) (stores : List PieceAccess)

/-- What takes the place of a return : itself, one that loads the native result whole from the
storage of the result, or one that loads the only piece of it. -/
inductive NativeReturn
  | unchanged
  | whole (type : LlvmType) (alignment : Align)
  | piece (loads : List PieceAccess)

/-- A function with the native signature. A declaration has no arguments and returns. -/
structure MaterializedDefinition where
  type : FunctionType
  attributes : AttributeList
  arguments : List BodyArgument
  returns : List NativeReturn

/-- The storage of a result. -/
def resultArgument (native : NativeABISignature) : BodyArgument :=
  match native.sretIndex with
  | some index => .argument index
  | none => .storage native.result.storageType native.result.storageAlignment 0 0 []

/-- The storage of a parameter, or the scalar itself. -/
def bodyArgument (layout : DataLayout) (native : NativeABISignature) (value : NativeABIValue) :
    Checked BodyArgument :=
  if value.storageType.isAggregate = false ∨ value.kind = .indirect then
    pure (.argument value.nativeBegin)
  else do
    let stores ← emit (storeNativeABIPieces (moduleAccess layout value.storageAlignment) value
      (((native.nativeType.params.drop value.nativeBegin).take value.nativeCount).map some))
    pure (.storage value.storageType value.storageAlignment value.nativeBegin value.nativeCount
      stores)

/-- The return of a result that has storage of its own. -/
def nativeReturn (layout : DataLayout) (native : NativeABISignature) : Checked NativeReturn :=
  if layout.storeSize native.nativeType.result ≤ native.result.storageSize then
    pure (.whole native.nativeType.result native.result.storageAlignment)
  else do
    let loads ← emit (loadNativeABIPieces
      (moduleAccess layout native.result.storageAlignment) native.result)
    ensure (loads.length = 1) "oversized native return requires one bounded coercion"
    pure (.piece loads)

/-- The returns of a definition. -/
def nativeReturns (layout : DataLayout) (logical : FunctionType) (native : NativeABISignature)
    (returns : ℕ) : Checked (List NativeReturn) :=
  if logical.result.isAggregate = true ∧ native.sretIndex = none then
    (List.replicate returns ()).mapM fun _ => nativeReturn layout native
  else pure (List.replicate returns .unchanged)

def materializeNativeAggregateDefinition (layout : DataLayout) (body : StorageBody)
    (logical : FunctionType) (native : NativeABISignature) : Checked MaterializedDefinition := do
  ensure (body.type = nativeStorageBodyType logical ∧ body.callingConv = 0 ∧
      native.parameters.length = logical.params.length)
    "aggregate native definition does not match its owned-storage body signature"
  let attributes ← physicalAttributeList body.attributes logical native body.returns.isSome
  match body.returns with
  | none => pure ⟨native.nativeType, attributes, [], []⟩
  | some returns => do
    let result := if logical.result.isAggregate then [resultArgument native] else []
    let parameters ← native.parameters.mapM (bodyArgument layout native)
    let returns ← nativeReturns layout logical native returns
    pure ⟨native.nativeType, attributes, result ++ parameters, returns⟩

/-! ## Calls -/

/-- What a call passes natively for an argument of the body : the argument itself, the pointer to
a copy of it, or its pieces. -/
inductive NativeArgument
  | operand (index : ℕ)
  | copy (type : LlvmType) (alignment : Align) (size index : ℕ)
  | pieces (index : ℕ) (loads : List PieceAccess)

/-- What becomes of a native result : it is the result of the body, or it is stored, taken apart
or not. -/
inductive NativeResult
  | unchanged
  | stored (extracted : Bool) (stores : List PieceAccess)

structure MaterializedCall where
  type : FunctionType
  attributes : AttributeList
  arguments : List NativeArgument
  result : NativeResult

def nativeArgument (layout : DataLayout) (value : NativeABIValue) (index : ℕ) :
    Checked NativeArgument :=
  if value.storageType.isAggregate = true ∧ value.kind = .indirect ∧ value.byVal = false then
    -- the native convention does not copy what this pointer refers to
    pure (.copy value.storageType value.storageAlignment value.storageSize index)
  else if value.storageType.isAggregate = false ∨ value.kind = .indirect then
    pure (.operand index)
  else do
    let loads ← emit (loadNativeABIPieces (moduleAccess layout value.storageAlignment) value)
    pure (.pieces index loads)

/-- The native arguments for values the first of which is an argument of the body at `index`. -/
def nativeArguments (layout : DataLayout) :
    List NativeABIValue → ℕ → Checked (List NativeArgument)
  | [], _ => pure []
  | value :: values, index => do
    let first ← nativeArgument layout value index
    let rest ← nativeArguments layout values (index + 1)
    pure (first :: rest)

/-- The type of an element of a value. -/
def LlvmType.element? : LlvmType → ℕ → Option LlvmType
  | .struct _ _ fields, index => fields[index]?
  | .array element count, index => if index < count then some element else none
  | _, _ => none

/-- The types of the values a native result is stored from. -/
def resultTypes (native : NativeABISignature) : List (Option LlvmType) :=
  if 1 < native.result.pieces.length then
    (List.range native.result.pieces.length).map native.nativeType.result.element?
  else [some native.nativeType.result]

/-- What becomes of the result of a call. -/
def nativeResult (layout : DataLayout) (logical : FunctionType) (native : NativeABISignature) :
    Checked NativeResult :=
  if logical.result.isAggregate = true ∧ native.sretIndex = none then do
    let stores ← emit (storeNativeABIPieces
      (moduleAccess layout native.result.storageAlignment) native.result (resultTypes native))
    pure (.stored (1 < native.result.pieces.length) stores)
  else pure .unchanged

def materializeNativeAggregateCall (layout : DataLayout) (call : StorageCall)
    (logical : FunctionType) (native : NativeABISignature) : Checked MaterializedCall := do
  ensure (call.type = nativeStorageBodyType logical ∧ call.callingConv = 0 ∧
      call.operandBundles = false ∧ call.tailCall = false ∧ logical.isVarArg = false)
    "aggregate native call does not match its qualified owned-storage signature"
  let attributes ← physicalAttributeList call.attributes logical native false
  let hidden := if native.sretIndex.isSome then [.operand 0] else []
  let arguments ← nativeArguments layout native.parameters (bodyOffset logical)
  let result ← nativeResult layout logical native
  pure ⟨native.nativeType, attributes, hidden ++ arguments, result⟩

/-! ## What is materialized -/

section Emit

variable {layout : DataLayout} {value : NativeABIValue} {alignment : Align}

theorem moduleAccess_at (h : alignment.value ≤ maximumAlignment) :
    (moduleAccess layout alignment).At layout :=
  ⟨rfl, rfl, rfl, rfl, h⟩

theorem emit_loadNativeABIPieces (h : Loadable layout value) (hkind : value.kind ≠ .indirect)
    (halignment : alignment.value ≤ maximumAlignment) :
    emit (loadNativeABIPieces (moduleAccess layout alignment) value) =
      .ok (accesses layout alignment value) := by
  have hvalid := validateAccess_loadable h hkind (moduleAccess_at halignment)
  rw [emit, exec_loadNativeABIPieces, hvalid]
  rfl

theorem emit_storeNativeABIPieces (h : Loadable layout value) (hkind : value.kind ≠ .indirect)
    (halignment : alignment.value ≤ maximumAlignment) {types : List (Option LlvmType)}
    (htypes : types = value.pieces.map fun piece => some piece.type) :
    emit (storeNativeABIPieces (moduleAccess layout alignment) value types) =
      .ok (accesses layout alignment value) := by
  have hvalid := validateAccess_loadable h hkind (moduleAccess_at halignment)
  rw [htypes, emit, exec_storeNativeABIPieces rfl hvalid]
  rfl

end Emit

/-- A record that crosses in pieces. -/
def NativeABIValue.InPieces (value : NativeABIValue) : Prop :=
  value.storageType.isAggregate = true ∧ value.kind ≠ .indirect

instance (value : NativeABIValue) : Decidable value.InPieces :=
  inferInstanceAs (Decidable (_ ∧ _))

/-- The aggregates of a body or a call carry no attributes. -/
structure AttributeList.Plain (attributes : AttributeList) (logical : FunctionType) : Prop where
  result : logical.result.isAggregate = true → attributes.result = [] ∧ attributes.param 0 = []
  params : ∀ index parameter, logical.params[index]? = some parameter →
    parameter.isAggregate = true → attributes.param (bodyOffset logical + index) = []

/-- A body of the storage type of a function that the bridge takes. -/
structure StorageBody.Conforms (body : StorageBody) (logical : FunctionType) : Prop where
  type : body.type = nativeStorageBodyType logical
  callingConv : body.callingConv = 0
  attributes : body.attributes.Plain logical

/-- A call of the storage type of a function that the bridge takes. -/
structure StorageCall.Conforms (call : StorageCall) (logical : FunctionType) : Prop where
  type : call.type = nativeStorageBodyType logical
  callingConv : call.callingConv = 0
  operandBundles : call.operandBundles = false
  tailCall : call.tailCall = false
  attributes : call.attributes.Plain logical

/-- The attributes of the native parameters of a value. -/
def valueAttributes (body : AttributeList) (definition : Bool) (value : NativeABIValue)
    (index : ℕ) : List AbiAttribute :=
  if value.storageType.isAggregate then physicalAttributes value false definition
  else body.param index

/-- The attributes of the native parameters of values, those of each value together. -/
def placedAttributes (body : AttributeList) (definition : Bool) (values : List NativeABIValue)
    (index : ℕ) : List (List (List AbiAttribute)) :=
  (values.zipIdx index).map fun entry =>
    List.replicate entry.1.nativeCount (valueAttributes body definition entry.1 entry.2)

theorem placeAttributes_eq {value : NativeABIValue} {attributes : List AbiAttribute}
    {done : List (List AbiAttribute)} {rest : ℕ} (hbegin : value.nativeBegin = done.length) :
    placeAttributes value attributes (done ++ List.replicate (value.nativeCount + rest) []) =
      (done ++ List.replicate value.nativeCount attributes) ++ List.replicate rest [] := by
  have hplaced : ∀ count ≤ value.nativeCount,
      (List.range count).foldl
          (fun parameters piece => parameters.set (value.nativeBegin + piece) attributes)
          (done ++ List.replicate (value.nativeCount + rest) []) =
        (done ++ List.replicate count attributes) ++
          List.replicate (value.nativeCount + rest - count) [] := by
    intro count hcount
    induction count with
    | zero => simp
    | succ count ih =>
      have hsub : value.nativeCount + rest - count = value.nativeCount + rest - (count + 1) + 1 := by
        omega
      have hlength : (done ++ List.replicate count attributes).length = value.nativeBegin + count := by
        simp [hbegin]
      rw [List.range_succ, List.foldl_append, ih (by omega), List.foldl_cons, List.foldl_nil,
        hsub, List.replicate_succ, List.set_append_right _ _ (by omega), hlength, Nat.sub_self,
        List.set_cons_zero, List.replicate_succ', ← List.append_assoc, List.append_assoc _ [attributes]]
      rfl
  rw [placeAttributes, hplaced _ le_rfl, Nat.add_sub_cancel_left]

theorem Tiles.length {values : List NativeABIValue} : ∀ {start : ℕ}, Tiles start values →
    (values.flatMap NativeABIValue.nativeTypes).length =
      (values.map NativeABIValue.nativeCount).sum := by
  induction values with
  | nil => simp
  | cons value values ih =>
    rintro start ⟨-, hcount, htiles⟩
    rw [List.flatMap_cons, List.length_append, ih htiles, List.map_cons, List.sum_cons, hcount]

theorem parameterAttributes_ok {body : AttributeList} {definition : Bool}
    {values : List NativeABIValue} :
    ∀ {index : ℕ} {done : List (List AbiAttribute)},
      (∀ place value, values[place]? = some value → value.storageType.isAggregate = true →
        body.param (index + place) = []) →
      Tiles done.length values →
      parameterAttributes body definition values index
          (done ++ List.replicate (values.map NativeABIValue.nativeCount).sum []) =
        .ok (done ++ (placedAttributes body definition values index).flatten) := by
  induction values with
  | nil => intro index done _ _; rfl
  | cons value values ih =>
    rintro index done hplain ⟨hbegin, -, htiles⟩
    have hstep : ∀ parameters, parameterAttributes body definition (value :: values) index
        parameters = parameterAttributes body definition values (index + 1)
          (placeAttributes value (valueAttributes body definition value index) parameters) := by
      intro parameters
      rw [parameterAttributes]
      unfold valueAttributes
      split_ifs with haggregate
      · have hempty : body.param index = [] := hplain 0 value rfl haggregate
        rw [ensure, if_pos hempty]
        rfl
      · rfl
    rw [hstep]
    rw [List.map_cons, List.sum_cons, placeAttributes_eq hbegin, placedAttributes,
      List.zipIdx_cons, List.map_cons, List.flatten_cons, ← List.append_assoc]
    refine ih (fun place value' hvalue' haggregate => ?_) (by simpa using htiles)
    rw [Nat.add_assoc, Nat.add_comm 1]
    exact hplain (place + 1) value' hvalue' haggregate

/-- The attributes of the native parameters : those of a hidden result pointer, then those of the
values. -/
def boundaryAttributes (body : AttributeList) (logical : FunctionType) (native : NativeABISignature)
    (definition : Bool) : AttributeList where
  function := body.function
  result := if logical.result.isAggregate then [] else body.result
  params :=
    (if native.result.kind = .indirect then [physicalAttributes native.result true definition]
    else []) ++ (placedAttributes body definition native.parameters (bodyOffset logical)).flatten

theorem physicalAttributeList_ok {layout : DataLayout} {logical : FunctionType}
    {native : NativeABISignature} (hwell : native.WellFormed layout logical)
    {body : AttributeList} (hplain : body.Plain logical) (definition : Bool) :
    physicalAttributeList body logical native definition =
      .ok (boundaryAttributes body logical native definition) := by
  have hparams : ∀ place value, native.parameters[place]? = some value →
      value.storageType.isAggregate = true → body.param (bodyOffset logical + place) = [] := by
    intro place value hvalue haggregate
    refine hplain.params place value.storageType ?_ haggregate
    rw [← hwell.parameter_storage, List.getElem?_map, hvalue]
    rfl
  have hlength := hwell.tiles.length
  have hstart : (match native.sretIndex with
      | some index => (List.replicate native.nativeType.params.length []).set index
          (physicalAttributes native.result true definition)
      | none => List.replicate native.nativeType.params.length []) =
        (if native.result.kind = .indirect then [physicalAttributes native.result true definition]
        else []) ++ List.replicate (native.parameters.map NativeABIValue.nativeCount).sum [] := by
    rw [hwell.sret, hwell.params, List.length_append, hlength]
    by_cases hkind : native.result.kind = .indirect
    · rw [if_pos hkind, if_pos hkind, if_pos hkind, List.length_singleton, Nat.add_comm 1,
        List.replicate_succ]
      rfl
    · rw [if_neg hkind, if_neg hkind, if_neg hkind, List.length_nil, Nat.zero_add]
      rfl
  unfold physicalAttributeList
  dsimp only
  rw [bind_ok]
  refine ⟨(), ensure_ok.mpr fun ⟨haggregate, hor⟩ => ?_, bind_ok.mpr ⟨_, ?_, rfl⟩⟩
  · obtain ⟨hresult, hparam⟩ := hplain.result haggregate
    exact hor.elim (absurd hresult) (absurd hparam)
  · rw [hstart]
    refine parameterAttributes_ok hparams ?_
    simpa only [apply_ite List.length, List.length_singleton, List.length_nil] using hwell.tiles

/-- What a classified signature says of the boundary of a call. -/
structure NativeABISignature.Crosses (target : NativeTarget) (logical : FunctionType)
    (native : NativeABISignature) : Prop where
  wellFormed : native.WellFormed target.layout logical
  result_stored : native.result.Stored target.layout true
  stored : ∀ value ∈ native.parameters, value.Stored target.layout false
  covered : ∀ value ∈ native.result :: native.parameters, value.Covered target.layout
  returns : logical.result.isStruct = true → target.Returns native.result

theorem NativeTarget.classify_crosses {target : NativeTarget} {logical : FunctionType}
    {ordered : List StructType} {native : NativeABISignature}
    (h : target.classify logical ordered = .ok native) : native.Crosses target logical where
  wellFormed := classify_wellFormed h
  result_stored := (classify_stored h).1
  stored := (classify_stored h).2
  covered := classify_covered h
  returns := classify_returns h

section Success

variable {target : NativeTarget} {logical : FunctionType} {native : NativeABISignature}

/-- A value in pieces is loaded and stored with the alignment of its storage. -/
theorem NativeABISignature.Crosses.loadable (h : native.Crosses target logical)
    {value : NativeABIValue} (hvalue : value ∈ native.result :: native.parameters)
    (hpieces : value.InPieces) :
    Loadable target.layout value ∧ value.storageAlignment.value ≤ maximumAlignment := by
  have hstorage : value.storageType.isStruct = true ∧
      value.storageAlignment.value ≤ maximumAlignment := by
    rcases List.mem_cons.mp hvalue with rfl | hmem
    · have hstruct := h.result_stored.record hpieces.1
      exact ⟨hstruct, h.result_stored.alignment hstruct⟩
    · have hstruct := (h.stored value hmem).record hpieces.1
      exact ⟨hstruct, (h.stored value hmem).alignment hstruct⟩
  exact ⟨h.wellFormed.loadable value hvalue hstorage.1 hpieces.2, hstorage.2⟩

/-- The native parameters at the positions of a value are its native types. -/
theorem NativeABISignature.Crosses.interval (h : native.Crosses target logical)
    {value : NativeABIValue} (hvalue : value ∈ native.parameters) :
    (native.nativeType.params.drop value.nativeBegin).take value.nativeCount =
      value.nativeTypes := by
  rw [h.wellFormed.params]
  refine Tiles.interval ?_ hvalue
  simpa only [apply_ite List.length, List.length_singleton, List.length_nil] using
    h.wellFormed.tiles

/-- What takes the place of an argument of the body. -/
def storageArgument (layout : DataLayout) (value : NativeABIValue) : BodyArgument :=
  if value.InPieces then
    .storage value.storageType value.storageAlignment value.nativeBegin value.nativeCount
      (accesses layout value.storageAlignment value)
  else .argument value.nativeBegin

theorem bodyArgument_ok (h : native.Crosses target logical) {value : NativeABIValue}
    (hvalue : value ∈ native.parameters) :
    bodyArgument target.layout native value = .ok (storageArgument target.layout value) := by
  unfold bodyArgument storageArgument
  by_cases hpieces : value.InPieces
  · obtain ⟨hloadable, halignment⟩ := h.loadable (List.mem_cons_of_mem _ hvalue) hpieces
    have hdirect : ¬(value.storageType.isAggregate = false ∨ value.kind = .indirect) := by
      rintro (hscalar | hkind)
      · exact absurd (hscalar.symm.trans hpieces.1) (by simp)
      · exact hpieces.2 hkind
    rw [if_neg hdirect, if_pos hpieces, bind_ok]
    refine ⟨_, emit_storeNativeABIPieces hloadable hpieces.2 halignment ?_, rfl⟩
    rw [h.interval hvalue, NativeABIValue.nativeTypes, if_neg hpieces.2, List.map_map]
    rfl
  · rw [if_neg hpieces, if_pos]
    · rfl
    · by_contra hdirect
      rw [not_or] at hdirect
      exact hpieces ⟨(Bool.not_eq_false _).mp hdirect.1, hdirect.2⟩

/-- What a call passes natively for an argument of the body. -/
def passedArgument (layout : DataLayout) (value : NativeABIValue) (index : ℕ) : NativeArgument :=
  if value.InPieces then .pieces index (accesses layout value.storageAlignment value)
  else if value.storageType.isAggregate = true ∧ value.byVal = false then
    .copy value.storageType value.storageAlignment value.storageSize index
  else .operand index

def passedArguments (layout : DataLayout) (values : List NativeABIValue) (index : ℕ) :
    List NativeArgument :=
  (values.zipIdx index).map fun entry => passedArgument layout entry.1 entry.2

theorem nativeArgument_ok (h : native.Crosses target logical) {value : NativeABIValue}
    (hvalue : value ∈ native.parameters) (index : ℕ) :
    nativeArgument target.layout value index = .ok (passedArgument target.layout value index) := by
  unfold nativeArgument passedArgument
  by_cases hpieces : value.InPieces
  · obtain ⟨hloadable, halignment⟩ := h.loadable (List.mem_cons_of_mem _ hvalue) hpieces
    have hdirect : ¬(value.storageType.isAggregate = false ∨ value.kind = .indirect) := by
      rintro (hscalar | hkind)
      · exact absurd (hscalar.symm.trans hpieces.1) (by simp)
      · exact hpieces.2 hkind
    rw [if_neg fun hcopy => hpieces.2 hcopy.2.1, if_neg hdirect, if_pos hpieces, bind_ok]
    exact ⟨_, emit_loadNativeABIPieces hloadable hpieces.2 halignment, rfl⟩
  · rw [if_neg hpieces]
    by_cases haggregate : value.storageType.isAggregate = true
    · have hkind : value.kind = .indirect := by
        by_contra hkind
        exact hpieces ⟨haggregate, hkind⟩
      simp [haggregate, hkind]
      split_ifs <;> rfl
    · simp [haggregate]

theorem nativeArguments_ok (h : native.Crosses target logical) {values : List NativeABIValue} :
    ∀ {index : ℕ}, (∀ value ∈ values, value ∈ native.parameters) →
      nativeArguments target.layout values index =
        .ok (passedArguments target.layout values index) := by
  induction values with
  | nil => intro index _; rfl
  | cons value values ih =>
    intro index hvalues
    obtain ⟨hvalue, hvalues⟩ := List.forall_mem_cons.mp hvalues
    rw [nativeArguments, bind_ok]
    exact ⟨_, nativeArgument_ok h hvalue index, bind_ok.mpr ⟨_, ih hvalues, rfl⟩⟩

/-- The result of a signature is a record that crosses in pieces. -/
theorem NativeABISignature.Crosses.sretIndex_eq_none (h : native.Crosses target logical) :
    native.sretIndex = none ↔ native.result.kind ≠ .indirect := by
  rw [h.wellFormed.sret]
  split_ifs with hkind <;> simp [hkind]

/-- The values a native result is stored from have the types of its pieces. -/
theorem resultTypes_eq (h : native.Crosses target logical) (hpieces : native.result.InPieces) :
    resultTypes native = native.result.pieces.map fun piece => some piece.type := by
  have hloadable := (h.loadable List.mem_cons_self hpieces).1
  unfold resultTypes
  generalize htype : native.nativeType.result = type
  have hresult := htype ▸ h.wellFormed.result_type
  cases hresult with
  | indirect hkind => exact absurd hkind hpieces.2
  | none _ hnil => exact absurd hnil hloadable.nonempty
  | one piece _ hone => simp [hone]
  | several _ hlength =>
    rw [if_pos (by omega)]
    refine List.ext_getElem? fun index => ?_
    simp only [List.getElem?_map]
    by_cases hindex : index < native.result.pieces.length
    · rw [List.getElem?_range hindex, List.getElem?_eq_getElem hindex, Option.map_some,
        Option.map_some, LlvmType.element?, List.getElem?_map, List.getElem?_eq_getElem hindex]
      rfl
    · rw [List.getElem?_eq_none (by simpa using hindex), List.getElem?_eq_none (by simpa using hindex)]
      rfl

/-- What becomes of the native result of a call. -/
def storedResult (layout : DataLayout) (native : NativeABISignature) : NativeResult :=
  if native.result.InPieces then
    .stored (1 < native.result.pieces.length)
      (accesses layout native.result.storageAlignment native.result)
  else .unchanged

theorem nativeResult_ok (h : native.Crosses target logical) :
    nativeResult target.layout logical native = .ok (storedResult target.layout native) := by
  have hstorage := h.wellFormed.result_storage
  unfold nativeResult storedResult
  by_cases hpieces : native.result.InPieces
  · obtain ⟨hloadable, halignment⟩ := h.loadable List.mem_cons_self hpieces
    rw [if_pos ⟨hstorage ▸ hpieces.1, h.sretIndex_eq_none.mpr hpieces.2⟩, if_pos hpieces, bind_ok]
    exact ⟨_, emit_storeNativeABIPieces hloadable hpieces.2 halignment (resultTypes_eq h hpieces),
      rfl⟩
  · rw [if_neg hpieces, if_neg]
    · rfl
    · rintro ⟨haggregate, hsret⟩
      exact hpieces ⟨hstorage.symm ▸ haggregate, h.sretIndex_eq_none.mp hsret⟩

/-- The call that is materialized. -/
def nativeCall (layout : DataLayout) (call : StorageCall) (logical : FunctionType)
    (native : NativeABISignature) : MaterializedCall where
  type := native.nativeType
  attributes := boundaryAttributes call.attributes logical native false
  arguments := (if native.result.kind = .indirect then [.operand 0] else []) ++
    passedArguments layout native.parameters (bodyOffset logical)
  result := storedResult layout native

/-- A call that meets the conventions of the bridge is materialized. -/
theorem materializeNativeAggregateCall_ok (h : native.Crosses target logical) {call : StorageCall}
    (hcall : call.Conforms logical) (hvariadic : logical.isVarArg = false) :
    materializeNativeAggregateCall target.layout call logical native =
      .ok (nativeCall target.layout call logical native) := by
  have hhidden : native.sretIndex.isSome = true ↔ native.result.kind = .indirect := by
    rw [Option.isSome_iff_ne_none, ne_eq, h.sretIndex_eq_none, not_not]
  unfold materializeNativeAggregateCall
  simp only [hhidden]
  refine bind_ok.mpr ⟨(), ensure_ok.mpr
    ⟨hcall.type, hcall.callingConv, hcall.operandBundles, hcall.tailCall, hvariadic⟩, ?_⟩
  refine bind_ok.mpr ⟨_, physicalAttributeList_ok h.wellFormed hcall.attributes false, ?_⟩
  refine bind_ok.mpr ⟨_, nativeArguments_ok h fun _ hvalue => hvalue, ?_⟩
  exact bind_ok.mpr ⟨_, nativeResult_ok h, rfl⟩

/-- A record that x86-64 returns in two registers, which together are wider than it. -/
def Oversized (target : NativeTarget) (logical : FunctionType) : Prop :=
  target = .x86_64 ∧ logical.result.isStruct = true ∧
    8 < target.layout.allocSize logical.result ∧ target.layout.allocSize logical.result < 16

/-- The return of a record. -/
def returnedRecord (layout : DataLayout) (native : NativeABISignature) : NativeReturn :=
  if layout.storeSize native.nativeType.result ≤ native.result.storageSize then
    .whole native.nativeType.result native.result.storageAlignment
  else .piece (accesses layout native.result.storageAlignment native.result)

theorem nativeReturn_ok (h : native.Crosses target logical) (hpieces : native.result.InPieces)
    {returned : NativeReturn} : nativeReturn target.layout native = .ok returned ↔
      ¬Oversized target logical ∧ returned = returnedRecord target.layout native := by
  obtain ⟨hloadable, halignment⟩ := h.loadable List.mem_cons_self hpieces
  have hstored := h.result_stored
  have hstruct := hstored.record hpieces.1
  have hstorage := h.wellFormed.result_storage
  have hreturns := h.returns (hstorage ▸ hstruct)
  have hsize : target.layout.allocSize logical.result = native.result.storageSize :=
    hstorage ▸ hstored.size hstruct
  have htwo := hreturns.two hpieces.2
  have hoversized : Oversized target logical ↔
      1 < native.result.pieces.length ∧ native.result.storageSize < 16 := by
    rw [Oversized, hsize, htwo, ← hstorage]
    simp only [hstruct, true_and, and_assoc]
  have hlength : (accesses target.layout native.result.storageAlignment native.result).length =
      native.result.pieces.length := List.length_map _
  have hwide : target.layout.storeSize native.nativeType.result ≤ native.result.storageSize →
      ¬(1 < native.result.pieces.length ∧ native.result.storageSize < 16) := by
    rintro hle ⟨hone, hlt⟩
    rcases hreturns.returned hpieces.2 with ⟨type, hsingle⟩ | ⟨low, high, hpair, -, hstore⟩
    · simp [hsingle] at hone
    · have hresult := h.wellFormed.result_type
      generalize native.nativeType.result = type at hresult hle
      cases hresult with
      | indirect hkind => exact hpieces.2 hkind
      | none _ hnil => exact hloadable.nonempty hnil
      | one piece _ hsingle => simp [hsingle] at hone
      | several =>
        simp only [hpair, List.map_cons, List.map_nil] at hle
        omega
  have hnarrow : ¬target.layout.storeSize native.nativeType.result ≤ native.result.storageSize →
      (native.result.pieces.length = 1 ↔
        ¬(1 < native.result.pieces.length ∧ native.result.storageSize < 16)) := by
    intro hle
    rcases hreturns.returned hpieces.2 with ⟨type, hsingle⟩ | ⟨low, high, hpair, -, hstore⟩
    · simp [hsingle]
    · have hresult := h.wellFormed.result_type
      generalize native.nativeType.result = type at hresult hle
      cases hresult with
      | indirect hkind => exact absurd hkind hpieces.2
      | none _ hnil => exact absurd hnil hloadable.nonempty
      | one piece _ hsingle => simp [hsingle]
      | several =>
        simp only [hpair, List.map_cons, List.map_nil] at hle
        simp only [hpair, List.length_cons, List.length_nil]
        omega
  rw [hoversized]
  unfold nativeReturn returnedRecord
  split_ifs with hle
  · exact ⟨fun hok => ⟨hwide hle, (Except.ok.inj hok).symm⟩, fun hok => congrArg _ hok.2.symm⟩
  · rw [bind_ok]
    constructor
    · rintro ⟨loads, hloads, hok⟩
      rw [emit_loadNativeABIPieces hloadable hpieces.2 halignment] at hloads
      obtain rfl := Except.ok.inj hloads
      obtain ⟨_, hone, hok⟩ := bind_ok.mp hok
      exact ⟨(hnarrow hle).mp (hlength ▸ ensure_ok.mp hone), (Except.ok.inj hok).symm⟩
    · rintro ⟨hfits, rfl⟩
      exact ⟨_, emit_loadNativeABIPieces hloadable hpieces.2 halignment,
        bind_ok.mpr ⟨(), ensure_ok.mpr (hlength ▸ (hnarrow hle).mpr hfits), rfl⟩⟩

/-- The returns of a result of either kind. -/
def returnedResult (layout : DataLayout) (native : NativeABISignature) : NativeReturn :=
  if native.result.InPieces then returnedRecord layout native else .unchanged

/-- A record wider than its registers is not one that crosses through a pointer. -/
theorem Oversized.inPieces (hoversized : Oversized target logical)
    (h : native.Crosses target logical) : native.result.InPieces := by
  obtain ⟨htarget, hstruct, -, hlt⟩ := hoversized
  have hstorage := h.wellFormed.result_storage
  have hstored := h.result_stored
  refine ⟨?_, fun hkind => ?_⟩
  · rw [hstorage]
    cases hresult : logical.result <;> simp_all [LlvmType.isStruct, LlvmType.isAggregate]
  · have hbig := (h.returns hstruct).indirect hkind htarget
    have hsize := hstored.size (hstorage.symm ▸ hstruct)
    rw [hstorage] at hsize
    omega

theorem nativeReturns_ok (h : native.Crosses target logical) {count : ℕ}
    {returns : List NativeReturn} :
    nativeReturns target.layout logical native count = .ok returns ↔
      ¬(Oversized target logical ∧ 0 < count) ∧
        returns = List.replicate count (returnedResult target.layout native) := by
  have hstorage := h.wellFormed.result_storage
  unfold nativeReturns returnedResult
  by_cases hpieces : native.result.InPieces
  · rw [if_pos ⟨hstorage ▸ hpieces.1, h.sretIndex_eq_none.mpr hpieces.2⟩, if_pos hpieces]
    induction count generalizing returns with
    | zero =>
      simp only [List.replicate_zero, List.mapM_nil]
      exact ⟨fun hok => ⟨by simp, (Except.ok.inj hok).symm⟩, fun hok => congrArg _ hok.2.symm⟩
    | succ count ih =>
      rw [List.replicate_succ, List.mapM_cons, bind_ok]
      simp only [nativeReturn_ok h hpieces, bind_ok, ih]
      constructor
      · rintro ⟨_, ⟨hfits, rfl⟩, _, ⟨-, rfl⟩, hok⟩
        exact ⟨fun hboth => hfits hboth.1, (Except.ok.inj hok).symm⟩
      · rintro ⟨hboth, rfl⟩
        have hfits : ¬Oversized target logical := fun hoversized => hboth ⟨hoversized, by omega⟩
        exact ⟨_, ⟨hfits, rfl⟩, _, ⟨fun hboth => hfits hboth.1, rfl⟩, rfl⟩
  · rw [if_neg hpieces, if_neg]
    · refine ⟨fun hok => ⟨fun hboth => hpieces (hboth.1.inPieces h), (Except.ok.inj hok).symm⟩,
        fun hok => congrArg _ hok.2.symm⟩
    · rintro ⟨haggregate, hsret⟩
      exact hpieces ⟨hstorage.symm ▸ haggregate, h.sretIndex_eq_none.mp hsret⟩

/-- The definition that is materialized. -/
def nativeDefinition (layout : DataLayout) (body : StorageBody) (logical : FunctionType)
    (native : NativeABISignature) (count : ℕ) : MaterializedDefinition where
  type := native.nativeType
  attributes := boundaryAttributes body.attributes logical native true
  arguments := (if logical.result.isAggregate then [resultArgument native] else []) ++
    (native.parameters.map (storageArgument layout))
  returns := List.replicate count (returnedResult layout native)

/-- A body is materialized unless it returns a record that is wider than its registers. -/
theorem materializeNativeAggregateDefinition_ok (h : native.Crosses target logical)
    {body : StorageBody} (hbody : body.Conforms logical) {count : ℕ}
    (hreturns : body.returns = some count) {definition : MaterializedDefinition} :
    materializeNativeAggregateDefinition target.layout body logical native = .ok definition ↔
      ¬(Oversized target logical ∧ 0 < count) ∧
        definition = nativeDefinition target.layout body logical native count := by
  have hparameters : native.parameters.mapM (bodyArgument target.layout native) =
      .ok (native.parameters.map (storageArgument target.layout)) := by
    rw [mapM_ok, List.forall₂_map_right_iff, List.forall₂_same]
    exact fun value hvalue => bodyArgument_ok h hvalue
  have hlength : native.parameters.length = logical.params.length := by
    rw [← h.wellFormed.parameter_storage, List.length_map]
  unfold materializeNativeAggregateDefinition
  simp only [hreturns, Option.isSome_some]
  constructor
  · intro hok
    obtain ⟨_, -, hok⟩ := bind_ok.mp hok
    obtain ⟨attributes, hattributes, hok⟩ := bind_ok.mp hok
    obtain rfl := Except.ok.inj ((physicalAttributeList_ok h.wellFormed hbody.attributes true).symm.trans
      hattributes)
    obtain ⟨parameters, hmapped, hok⟩ := bind_ok.mp hok
    obtain rfl := Except.ok.inj (hparameters.symm.trans hmapped)
    obtain ⟨returns, hmade, hok⟩ := bind_ok.mp hok
    obtain ⟨hfits, rfl⟩ := (nativeReturns_ok h).mp hmade
    exact ⟨hfits, (Except.ok.inj hok).symm⟩
  · rintro ⟨hfits, rfl⟩
    refine bind_ok.mpr ⟨(), ensure_ok.mpr ⟨hbody.type, hbody.callingConv, hlength⟩, ?_⟩
    refine bind_ok.mpr ⟨_, physicalAttributeList_ok h.wellFormed hbody.attributes true, ?_⟩
    refine bind_ok.mpr ⟨_, hparameters, ?_⟩
    exact bind_ok.mpr ⟨_, (nativeReturns_ok h).mpr ⟨hfits, rfl⟩, rfl⟩

/-- A declaration is always materialized. -/
theorem materializeNativeAggregateDefinition_declaration (h : native.Crosses target logical)
    {body : StorageBody} (hbody : body.Conforms logical) (hreturns : body.returns = none) :
    materializeNativeAggregateDefinition target.layout body logical native =
      .ok ⟨native.nativeType, boundaryAttributes body.attributes logical native false, [], []⟩ := by
  have hlength : native.parameters.length = logical.params.length := by
    rw [← h.wellFormed.parameter_storage, List.length_map]
  unfold materializeNativeAggregateDefinition
  simp only [hreturns, Option.isSome_none]
  refine bind_ok.mpr ⟨(), ensure_ok.mpr ⟨hbody.type, hbody.callingConv, hlength⟩, ?_⟩
  exact bind_ok.mpr ⟨_, physicalAttributeList_ok h.wellFormed hbody.attributes false, rfl⟩

end Success

end Sela
