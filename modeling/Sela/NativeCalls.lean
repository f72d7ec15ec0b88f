import Sela.NativeBridge
import Sela.ObjectMemory

/-!
# Calls across a native boundary

A body over owned storage that is called through a materialized call and a materialized definition.
On its way in a record is loaded in pieces and stored into an object of the callee, or copied by
the caller, or passed by value; the record that is returned is stored into the object of the
caller, or is there from the start.

* the body is entered with objects of its own, which hold the data of the records of the caller
  (`enterBody_ok`);
* whatever it does with them, the call changes nothing but the result of the caller, which has the
  data of that of the body (`leaveBody_ok`);
* so a boundary that is materialized preserves values
  (`materializeNativeAggregate_preserves`).
-/

namespace Sela

open NativeAbi hiding ensure ensure_ok

/-! ## Values -/

/-- What is passed : a pointer to an object, or the value of a scalar or of a piece. -/
inductive NativeValue (β : Type)
  | pointer (place : ℕ)
  | immediate (value : TypedValue β)

namespace NativeValue

variable {β : Type}

/-- The place of the object a pointer is to. -/
def place? : NativeValue β → Option ℕ
  | .pointer place => some place
  | .immediate _ => none

def value? : NativeValue β → Option (TypedValue β)
  | .pointer _ => none
  | .immediate value => some value

/-- The object a pointer is to. -/
def object? (memory : List (List β)) : NativeValue β → Option (List β)
  | .pointer place => memory[place]?
  | .immediate _ => none

end NativeValue

section Semantics

variable {β : Type} (layout : DataLayout) (encoding : Encoding β)

/-! ## Entering a body -/

/-- The object with its first bytes copied from another, unless the copy leaves one of them. -/
def copyBytes (size : ℕ) (source object : List β) : Option (List β) :=
  if size ≤ source.length ∧ size ≤ object.length then
    some (splice object 0 (source.take size))
  else none

/-- An object that is allocated has undefined bytes. -/
def allocated (type : LlvmType) : List β :=
  List.replicate (layout.allocSize type) encoding.undef

/-- The argument of the body that a native argument comes from. -/
def NativeArgument.index : NativeArgument → ℕ
  | .operand index => index
  | .copy _ _ _ index => index
  | .pieces index _ => index

/-- The native values that are passed for an argument of the body. -/
def NativeArgument.values (argument : NativeArgument) (operand : NativeValue β)
    (memory : List (List β)) : Option (List (List β) × List (NativeValue β)) :=
  match argument with
  | .operand _ => some (memory, [operand])
  | .copy type _ size _ => do
    let source ← operand.object? memory
    let copy ← copyBytes size source (allocated layout encoding type)
    some (memory ++ [copy], [.pointer memory.length])
  | .pieces _ loads => do
    let source ← operand.object? memory
    let values ← Footprint.loadAll encoding source (PieceAccess.footprints layout loads)
    some (memory, values.map .immediate)

/-- Pass an argument of the body natively. -/
def passArgument (operands : List (NativeValue β)) (argument : NativeArgument)
    (memory : List (List β)) : Option (List (List β) × List (NativeValue β)) := do
  let operand ← operands[argument.index]?
  argument.values layout encoding operand memory

/-- The type of what is passed by value. -/
def AbiAttribute.byVal? : AbiAttribute → Option LlvmType
  | .byVal type => some type
  | _ => none

/-- What a function receives : where a pointer is passed by value, one to a copy of its own. -/
def receive (attributes : List AbiAttribute) (native : NativeValue β) (memory : List (List β)) :
    Option (List (List β) × NativeValue β) :=
  match native, attributes.findSome? AbiAttribute.byVal? with
  | .pointer place, some type => do
    let source ← memory[place]?
    let copy ← copyBytes (layout.allocSize type) source (allocated layout encoding type)
    some (memory ++ [copy], .pointer memory.length)
  | native, _ => some (memory, native)

/-- An object with the values of the native arguments stored into it. -/
def storeArguments (type : LlvmType) (stores : List PieceAccess) (natives : List (NativeValue β)) :
    Option (List β) := do
  let values ← natives.mapM NativeValue.value?
  Footprint.storeAll encoding (PieceAccess.footprints layout stores) values
    (allocated layout encoding type)

/-- The argument of the body that takes the place of native arguments. -/
def receiveArgument (attributes : AttributeList) (natives : List (NativeValue β))
    (argument : BodyArgument) (memory : List (List β)) :
    Option (List (List β) × NativeValue β) :=
  match argument with
  | .argument index => do
    let native ← natives[index]?
    receive layout encoding (attributes.param index) native memory
  | .storage type _ first count stores => do
    let storage ← storeArguments layout encoding type stores ((natives.drop first).take count)
    some (memory ++ [storage], .pointer memory.length)

/-- The memory and the arguments that a body is entered with. -/
def enterBody (call : MaterializedCall) (definition : MaterializedDefinition)
    (operands : List (NativeValue β)) (memory : List (List β)) :
    Option (List (List β) × List (NativeValue β)) := do
  let (memory, natives) ← runAll (passArgument layout encoding operands) call.arguments memory
  runAll (receiveArgument layout encoding call.attributes natives.flatten) definition.arguments
    memory

/-! ## Leaving a body -/

/-- How a body returns : the memory it leaves, which of its returns it takes, and its own result. -/
structure BodyExit (β : Type) (returns : ℕ) where
  memory : List (List β)
  taken : Fin returns
  result : Option (NativeValue β)

/-- The native result of a function whose body has these arguments. -/
def NativeReturn.result (returned : NativeReturn) (arguments : List (NativeValue β))
    (memory : List (List β)) (result : Option (NativeValue β)) :
    Option (Option (NativeValue β)) :=
  match returned with
  | .unchanged => some result
  | .whole type _ => do
    let storage ← arguments[0]?
    let source ← storage.object? memory
    let value ← Footprint.load encoding source (layout.footprint type 0)
    some (some (.immediate value))
  | .piece loads => do
    let storage ← arguments[0]?
    let source ← storage.object? memory
    match ← Footprint.loadAll encoding source (PieceAccess.footprints layout loads) with
    | [value] => some (some (.immediate value))
    | _ => none

/-- The values that a native result is stored from. -/
def resultValues (extracted : Bool) (result : Option (NativeValue β)) :
    Option (List (TypedValue β)) :=
  match extracted, result with
  | true, some (.immediate (.elements values)) => some values
  | false, some (.immediate value) => some [value]
  | _, _ => none

/-- The memory and the result after a call with these arguments of the body. -/
def NativeResult.store (stored : NativeResult) (operands : List (NativeValue β))
    (memory : List (List β)) (result : Option (NativeValue β)) :
    Option (List (List β) × Option (NativeValue β)) :=
  match stored with
  | .unchanged => some (memory, result)
  | .stored extracted stores => do
    let values ← resultValues extracted result
    let place ← operands[0]? >>= NativeValue.place?
    let object ← memory[place]?
    let object ← Footprint.storeAll encoding (PieceAccess.footprints layout stores) values object
    some (memory.set place object, none)

/-- The memory and the result after a body has returned. -/
def leaveBody {returns : ℕ} (call : MaterializedCall) (definition : MaterializedDefinition)
    (operands arguments : List (NativeValue β)) (exit : BodyExit β returns) :
    Option (List (List β) × Option (NativeValue β)) := do
  let returned ← definition.returns[exit.taken.val]?
  let result ← returned.result layout encoding arguments exit.memory exit.result
  call.result.store layout encoding operands exit.memory result

end Semantics

/-! ## What a call preserves -/

section Preserves

variable {β : Type} (layout : DataLayout) (encoding : Encoding β)

/-- What a body takes for a type : a pointer to a record, or a scalar. -/
def Accepts (memory : List (List β)) (type : LlvmType) : NativeValue β → Prop
  | .pointer place => type.isAggregate = true ∧
      ∃ object, memory[place]? = some object ∧ object.length = layout.allocSize type
  | .immediate _ => type.isAggregate = false

/-- What a body is entered with for an operand : a record in an object of its own with the data of
that of the caller, or the same scalar. -/
def Arrives (before after : List (List β)) (type : LlvmType) (operand argument : NativeValue β) :
    Prop :=
  match operand with
  | .pointer place => ∃ own source copy, argument = .pointer own ∧ before.length ≤ own ∧
      before[place]? = some source ∧ after[own]? = some copy ∧ copy.length = source.length ∧
      ∀ p, layout.IsData type p → copy[p]? = source[p]?
  | .immediate value => argument = .immediate value

/-- The object that a body leaves its result in : that of the caller, or one of its own. -/
def OwnsResult (before after : List (List β)) (type : LlvmType) (operand argument : NativeValue β) :
    Prop :=
  ∃ place own object, operand = .pointer place ∧ argument = .pointer own ∧
    (own = place ∨ before.length ≤ own) ∧ after[own]? = some object ∧
    object.length = layout.allocSize type

/-- How a body is entered by a caller with this memory. -/
structure Entered (logical : FunctionType) (results operands : List (NativeValue β))
    (before after : List (List β)) (owned received : List (NativeValue β)) : Prop where
  /-- No object of the caller is changed. -/
  kept : before <+: after
  distinct : ((owned ++ received).filterMap NativeValue.place?).Nodup
  result : List.Forall₂ (OwnsResult layout before after logical.result) results owned
  parameters : List.Forall₂
    (fun parameter argument => Arrives layout before after parameter.1 parameter.2 argument)
    (logical.params.zip operands) received

/-- No object of the memory ends or changes its extent. -/
def KeepsObjects (before after : List (List β)) : Prop :=
  ∀ (place : ℕ) (object : List β), before[place]? = some object →
    ∃ object' : List β, after[place]? = some object' ∧ object'.length = object.length

/-- What a body changes is in the objects of its arguments, or in new ones. -/
def Confined (arguments : List (NativeValue β)) (before after : List (List β)) : Prop :=
  ∀ (place : ℕ) (object : List β), before[place]? = some object → .pointer place ∉ arguments →
    after[place]? = some object

/-- The object of a result after a call has the data of that of the body. -/
def Returned (left after : List (List β)) (type : LlvmType) (operand argument : NativeValue β) :
    Prop :=
  ∃ place own object copy, operand = .pointer place ∧ argument = .pointer own ∧
    left[own]? = some object ∧ after[place]? = some copy ∧ copy.length = layout.allocSize type ∧
    ∀ p, layout.IsData type p → copy[p]? = object[p]?

/-- How a call returns whose body was entered with memory `entry` and has left `left`. -/
structure Left (logical : FunctionType) (results owned received : List (NativeValue β))
    (before entry left after : List (List β)) : Prop where
  result : List.Forall₂ (Returned layout left after logical.result) results owned
  others : ∀ place, .pointer place ∉ results → after[place]? = left[place]?
  /-- The arguments of the caller are not those that the body writes to. -/
  arguments : Confined (owned ++ received) entry left → Confined results before after

/-- Any run of the body that a call enters through a definition preserves values, and no access on
the way leaves its object. -/
def PreservesValues (logical : FunctionType) (call : MaterializedCall)
    (definition : MaterializedDefinition) (returns : ℕ) : Prop :=
  ∀ before results operands,
    List.Forall₂ (Accepts layout before) (if logical.result.isAggregate then [logical.result] else [])
      results →
    List.Forall₂ (Accepts layout before) logical.params operands →
    ∃ entry owned received,
      enterBody layout encoding call definition (results ++ operands) before =
        some (entry, owned ++ received) ∧
      Entered layout logical results operands before entry owned received ∧
      ∀ exit : BodyExit β returns, KeepsObjects entry exit.memory → ∃ after result,
        leaveBody layout encoding call definition (results ++ operands) (owned ++ received) exit =
          some (after, result) ∧
        Left layout logical results owned received before entry exit.memory after ∧
        (logical.result.isAggregate = false → result = exit.result)

end Preserves

theorem Arrives.grown {β : Type} {layout : DataLayout} {before memory memory' : List (List β)}
    {type : LlvmType} {operand argument : NativeValue β} (hgrown : memory <+: memory')
    (h : Arrives layout before memory type operand argument) :
    Arrives layout before memory' type operand argument := by
  cases operand with
  | immediate immediate => exact h
  | pointer place =>
    obtain ⟨own, source, copy, hargument, hown, hsource, hcopy, hsame⟩ := h
    exact ⟨own, source, copy, hargument, hown, hsource, getElem?_grown hgrown hcopy, hsame⟩

theorem OwnsResult.grown {β : Type} {layout : DataLayout} {before memory memory' : List (List β)}
    {type : LlvmType} {operand argument : NativeValue β} (hgrown : memory <+: memory')
    (h : OwnsResult layout before memory type operand argument) :
    OwnsResult layout before memory' type operand argument := by
  obtain ⟨place, own, object, hoperand, hargument, hor, hobject, hlength⟩ := h
  exact ⟨place, own, object, hoperand, hargument, hor, getElem?_grown hgrown hobject, hlength⟩

/-! ## Positions -/

theorem Tiles.count {values : List NativeABIValue} :
    ∀ {start : ℕ}, Tiles start values → ∀ value ∈ values,
      value.nativeCount = value.nativeTypes.length := by
  induction values with
  | nil => simp
  | cons value values ih =>
    rintro start ⟨-, hcount, htiles⟩
    exact List.forall_mem_cons.mpr ⟨hcount, ih htiles⟩

/-- What stands at the positions of values in order is read back there. -/
theorem Tiles.groups {γ : Type} {values : List NativeABIValue} :
    ∀ {done : List γ} {groups : List (List γ)}, Tiles done.length values →
      List.Forall₂ (fun value group => group.length = value.nativeCount) values groups →
      List.Forall₂ (fun value group => ((done ++ groups.flatten).drop value.nativeBegin).take
        value.nativeCount = group) values groups := by
  induction values with
  | nil =>
    intro done groups _ hlengths
    cases hlengths
    exact .nil
  | cons value values ih =>
    rintro done groups ⟨hbegin, -, htiles⟩ hlengths
    cases hlengths with
    | cons hlength hlengths =>
      next group groups =>
      rw [← hlength, ← List.length_append] at htiles
      refine .cons ?_ ?_
      · rw [hbegin, List.drop_left, List.flatten_cons, ← hlength, List.take_left]
      · simpa only [List.flatten_cons, List.append_assoc] using ih htiles hlengths

theorem forall₂_zipIdx {α γ : Type} {R : α → γ → Prop} {items : List α} {index : ℕ}
    {others : List γ} : List.Forall₂ (fun entry other => R entry.1 other) (items.zipIdx index) others ↔
      List.Forall₂ R items others :=
  List.forall₂_map_left_iff.symm.trans (by rw [List.zipIdx_map_fst])

section Positions

variable {target : NativeTarget} {logical : FunctionType} {native : NativeABISignature}

theorem NativeABISignature.Crosses.count (h : native.Crosses target logical)
    {value : NativeABIValue} (hvalue : value ∈ native.parameters) :
    value.nativeCount = value.nativeTypes.length :=
  h.wellFormed.tiles.count value hvalue

/-- What stands at the positions of parameters, after what is hidden, is read back there. -/
theorem NativeABISignature.Crosses.groups {γ : Type} (h : native.Crosses target logical)
    {hidden : γ} {groups : List (List γ)}
    (hlengths : List.Forall₂ (fun value group => group.length = value.nativeCount)
      native.parameters groups) :
    List.Forall₂ (fun value group =>
        (((if native.result.kind = .indirect then [hidden] else []) ++ groups.flatten).drop
          value.nativeBegin).take value.nativeCount = group) native.parameters groups := by
  refine Tiles.groups ?_ hlengths
  simpa only [apply_ite List.length, List.length_singleton, List.length_nil] using
    h.wellFormed.tiles

/-- The attributes at the positions of a value. -/
theorem param_boundaryAttributes (h : native.Crosses target logical) (attributes : AttributeList)
    (definition : Bool) {value : NativeABIValue} {index : ℕ}
    (hvalue : (value, index) ∈ native.parameters.zipIdx (bodyOffset logical)) {place : ℕ}
    (hplace : place < value.nativeCount) :
    (boundaryAttributes attributes logical native definition).param (value.nativeBegin + place) =
      valueAttributes attributes definition value index := by
  have hgroups := @NativeABISignature.Crosses.groups _ _ _ _ h
    (physicalAttributes native.result true definition)
    (placedAttributes attributes definition native.parameters (bodyOffset logical)) (by
      rw [← forall₂_zipIdx, placedAttributes, List.forall₂_map_right_iff, List.forall₂_same]
      exact fun entry _ => List.length_replicate)
  rw [← forall₂_zipIdx, placedAttributes, List.forall₂_map_right_iff, List.forall₂_same] at hgroups
  have hread := congrArg (fun group => group[place]?) (hgroups _ hvalue)
  dsimp only at hread
  rw [getElem?_take_drop hplace, List.getElem?_replicate, if_pos hplace] at hread
  rw [AttributeList.param, List.getD_eq_getElem?_getD, boundaryAttributes]
  exact congrArg (Option.getD · []) hread

end Positions

/-! ## Passing a parameter -/

section Attributes

variable {value : NativeABIValue} {definition : Bool}

theorem byVal?_physicalAttributes : (physicalAttributes value false definition).findSome?
    AbiAttribute.byVal? =
      if value.kind = .indirect ∧ value.byVal = true then some value.storageType else none := by
  have hstack : ((value.stackAlignment.map AbiAttribute.stackAlign).toList).findSome?
      AbiAttribute.byVal? = none := by
    cases value.stackAlignment <;> rfl
  unfold physicalAttributes
  by_cases hkind : value.kind = .indirect
  · by_cases hbyVal : value.byVal = true
    · rw [if_pos hkind, if_pos (by simp [hbyVal])]
      exact (if_pos ⟨hkind, hbyVal⟩).symm
    · simp [hkind, hbyVal, AbiAttribute.byVal?]
  · simp [hkind, hstack]

theorem byVal?_physicalAttributes_result :
    (physicalAttributes value true definition).findSome? AbiAttribute.byVal? = none := by
  unfold physicalAttributes
  split_ifs <;> simp_all [AbiAttribute.byVal?]

end Attributes

section Objects

variable {β : Type} {layout : DataLayout} {encoding : Encoding β}

@[simp] theorem length_allocated {type : LlvmType} :
    (allocated layout encoding type).length = layout.allocSize type :=
  List.length_replicate ..

/-- A record is copied whole. -/
theorem copyBytes_allocated {source : List β} {type : LlvmType}
    (h : source.length = layout.allocSize type) :
    copyBytes (layout.allocSize type) source (allocated layout encoding type) = some source := by
  have htake : source.take (layout.allocSize type) = source := by rw [← h, List.take_length]
  unfold copyBytes
  rw [length_allocated, if_pos ⟨h.ge, le_rfl⟩, htake, splice, h, Nat.zero_add,
    List.drop_of_length_le (length_allocated).le]
  simp

/-- A pointer that is not passed by value is received. -/
theorem receive_pointer {attributes : List AbiAttribute} {place : ℕ} {memory : List (List β)}
    (h : attributes.findSome? AbiAttribute.byVal? = none) :
    receive layout encoding attributes (.pointer place) memory = some (memory, .pointer place) := by
  simp only [receive, h]

/-- Of a record that is passed by value a copy is received. -/
theorem receive_byVal {attributes : List AbiAttribute} {place : ℕ} {memory : List (List β)}
    {type : LlvmType} {source : List β}
    (h : attributes.findSome? AbiAttribute.byVal? = some type) (hsource : memory[place]? = some source)
    (hlength : source.length = layout.allocSize type) :
    receive layout encoding attributes (.pointer place) memory =
      some (memory ++ [source], .pointer memory.length) := by
  simp only [receive, h, hsource, copyBytes_allocated hlength, Option.bind_eq_bind,
    Option.bind_some]

/-- What is passed for an operand : pieces of its record, a pointer to a copy of it or to be
passed by value, or the operand itself. -/
inductive PassedAs (layout : DataLayout) (encoding : Encoding β) (before memory : List (List β))
    (value : NativeABIValue) : NativeValue β → List (NativeValue β) → Prop
  | scalar (immediate : TypedValue β) (hscalar : value.storageType.isAggregate = false) :
    PassedAs layout encoding before memory value (.immediate immediate) [.immediate immediate]
  | pieces {place : ℕ} {source : List β} {values : List (TypedValue β)} (hpieces : value.InPieces)
    (hsource : before[place]? = some source)
    (hlength : source.length = layout.allocSize value.storageType)
    (hvalues : Footprint.loadAll encoding source (PieceAccess.footprints layout
      (accesses layout value.storageAlignment value)) = some values) :
    PassedAs layout encoding before memory value (.pointer place) (values.map .immediate)
  | copied {place own : ℕ} {source : List β} (hkind : value.kind = .indirect)
    (hbyVal : value.byVal = false) (hsource : before[place]? = some source)
    (hown : memory[own]? = some source) (hfresh : before.length ≤ own) :
    PassedAs layout encoding before memory value (.pointer place) [.pointer own]
  | byVal {place : ℕ} {source : List β} (hkind : value.kind = .indirect)
    (hbyVal : value.byVal = true) (hsource : before[place]? = some source)
    (hlength : source.length = layout.allocSize value.storageType) :
    PassedAs layout encoding before memory value (.pointer place) [.pointer place]

theorem PassedAs.grown {before memory memory' : List (List β)} {value : NativeABIValue}
    {operand : NativeValue β} {group : List (NativeValue β)} (hgrown : memory <+: memory')
    (h : PassedAs layout encoding before memory value operand group) :
    PassedAs layout encoding before memory' value operand group := by
  cases h with
  | scalar immediate hscalar => exact .scalar immediate hscalar
  | pieces hpieces hsource hlength hvalues => exact .pieces hpieces hsource hlength hvalues
  | copied hkind hbyVal hsource hown hfresh =>
    exact .copied hkind hbyVal hsource (getElem?_grown hgrown hown) hfresh
  | byVal hkind hbyVal hsource hlength => exact .byVal hkind hbyVal hsource hlength

/-- The values of a parameter are as many as its native parameters. -/
theorem PassedAs.length {before memory : List (List β)} {value : NativeABIValue}
    {operand : NativeValue β} {group : List (NativeValue β)}
    (h : PassedAs layout encoding before memory value operand group)
    (hstored : value.Stored layout false) : group.length = value.nativeTypes.length := by
  unfold NativeABIValue.nativeTypes
  cases h with
  | scalar immediate hscalar =>
    rw [if_neg (by simp [hstored.direct hscalar]), List.length_map, hstored.scalar rfl hscalar]
    rfl
  | pieces hpieces hsource hlength hvalues =>
    rw [if_neg hpieces.2, List.length_map, Footprint.length_loadAll hvalues, footprints_eq_map,
      List.length_map, accesses, List.length_map, List.length_map]
  | copied hkind => rw [if_pos hkind]; rfl
  | byVal hkind => rw [if_pos hkind]; rfl

end Objects

section Parameters

variable {target : NativeTarget} {logical : FunctionType} {native : NativeABISignature} {β : Type}
  {encoding : Encoding β} {before middle : List (List β)} {passed natives : List (NativeValue β)}

theorem operands_at {α γ : Type} {values : List α} :
    ∀ {operands done : List γ}, values.length = operands.length →
      List.Forall₂ (fun entry operand => (done ++ operands)[entry.2]? = some operand)
        (values.zipIdx done.length) operands := by
  induction values with
  | nil =>
    intro operands done h
    obtain rfl := List.eq_nil_of_length_eq_zero h.symm
    exact .nil
  | cons value values ih =>
    intro operands done h
    obtain ⟨operand, operands, rfl⟩ := List.exists_cons_of_length_eq_add_one h.symm
    refine .cons (by simp) ?_
    have hrest := @ih operands (done ++ [operand]) (by simpa using h)
    simpa using hrest

/-- A parameter with its index and its operand, among those that are passed. -/
structure Operand (target : NativeTarget) (logical : FunctionType) (native : NativeABISignature)
    (before : List (List β)) (passed : List (NativeValue β))
    (entry : (NativeABIValue × ℕ) × NativeValue β) : Prop where
  mem : entry.1 ∈ native.parameters.zipIdx (bodyOffset logical)
  accepts : Accepts target.layout before entry.1.1.storageType entry.2
  operand : passed[entry.1.2]? = some entry.2

/-- The place of an object that is not one of the memory before. -/
def ownPlace (before : List (List β)) (group : List (NativeValue β)) : Option ℕ :=
  (group[0]? >>= NativeValue.place?).filter fun place => before.length ≤ place

theorem index_passedArgument {layout : DataLayout} {value : NativeABIValue} {index : ℕ} :
    (passedArgument layout value index).index = index := by
  unfold passedArgument
  split_ifs <;> rfl

/-- A parameter that is no record in pieces is in storage of its own, or a scalar. -/
theorem NativeABIValue.indirect_of_not_inPieces {value : NativeABIValue}
    (haggregate : value.storageType.isAggregate = true) (h : ¬value.InPieces) :
    value.kind = .indirect := by
  by_contra hkind
  exact h ⟨haggregate, hkind⟩

/-- A parameter is passed, whatever has been allocated. -/
theorem passArgument_grows (h : native.Crosses target logical)
    {entry : (NativeABIValue × ℕ) × NativeValue β}
    (hentry : Operand target logical native before passed entry) :
    Grows (fun entry : (NativeABIValue × ℕ) × NativeValue β =>
        passArgument target.layout encoding passed
          (passedArgument target.layout entry.1.1 entry.1.2))
      before (fun _ => none) (ownPlace before)
      (fun memory entry => PassedAs target.layout encoding before memory entry.1.1 entry.2) entry := by
  intro memory hbefore
  obtain ⟨⟨value, index⟩, operand⟩ := entry
  obtain ⟨hmem, haccepts, hoperand⟩ := hentry
  dsimp only at hmem haccepts hoperand ⊢
  have hvalue : value ∈ native.parameters := List.fst_mem_of_mem_zipIdx hmem
  have hstored := h.stored value hvalue
  have hstep : passArgument target.layout encoding passed
      (passedArgument target.layout value index) memory =
        (passedArgument target.layout value index).values target.layout encoding operand memory := by
    rw [passArgument, index_passedArgument, hoperand]
    rfl
  rw [hstep]
  unfold passedArgument
  cases operand with
  | immediate immediate =>
    have hscalar : value.storageType.isAggregate = false := haccepts
    rw [if_neg (by simp [NativeABIValue.InPieces, hscalar]), if_neg (by simp [hscalar])]
    exact ⟨memory, [.immediate immediate], rfl, List.prefix_rfl, .scalar immediate hscalar, .inl rfl⟩
  | pointer place =>
    obtain ⟨haggregate, source, hsource, hlength⟩ := haccepts
    have hfound := getElem?_grown hbefore hsource
    have hsize := hstored.size (hstored.record haggregate)
    by_cases hpieces : value.InPieces
    · have hloadable := (h.loadable (List.mem_cons_of_mem _ hvalue) hpieces).1
      obtain ⟨values, hvalues, -⟩ :=
        hloadable.loads value.storageAlignment encoding (hlength.trans hsize)
      rw [if_pos hpieces]
      refine ⟨memory, values.map .immediate, ?_, List.prefix_rfl,
        .pieces hpieces hsource hlength hvalues, .inl ?_⟩
      · simp only [NativeArgument.values, NativeValue.object?, hfound, hvalues, Option.bind_eq_bind,
          Option.bind_some]
      · cases values <;> rfl
    · have hkind := NativeABIValue.indirect_of_not_inPieces haggregate hpieces
      rw [if_neg hpieces]
      by_cases hbyVal : value.byVal = false
      · have hcopy := hsize ▸ @copyBytes_allocated _ target.layout encoding _ _ hlength
        rw [if_pos ⟨haggregate, hbyVal⟩]
        refine ⟨memory ++ [source], [.pointer memory.length], ?_, List.prefix_append _ _,
          .copied hkind hbyVal hsource getElem?_allocated hbefore.length_le,
          .inr ⟨memory.length, ?_, le_rfl, by simp⟩⟩
        · simp only [NativeArgument.values, NativeValue.object?, hfound, hcopy,
            Option.bind_eq_bind, Option.bind_some]
        · simp [ownPlace, NativeValue.place?, hbefore.length_le]
      · have hplace := (List.getElem?_eq_some_iff.mp hsource).1
        rw [if_neg fun hcopy => hbyVal hcopy.2]
        refine ⟨memory, [.pointer place], rfl, List.prefix_rfl,
          .byVal hkind ((Bool.not_eq_false _).mp hbyVal) hsource hlength, .inl ?_⟩
        simp [ownPlace, NativeValue.place?, hplace]

theorem mapM_immediate (values : List (TypedValue β)) :
    (values.map NativeValue.immediate).mapM NativeValue.value? = some values := by
  induction values with
  | nil => rfl
  | cons value values ih =>
    rw [List.map_cons, List.mapM_cons, ih]
    rfl

/-- A parameter is received, with the data of the record of its operand. -/
theorem receiveArgument_grows (h : native.Crosses target logical)
    (horder : encoding.bigEndian = target.layout.bigEndian) (hmiddle : before <+: middle)
    {attributes : AttributeList} {item : ((NativeABIValue × ℕ) × NativeValue β) × List (NativeValue β)}
    (hentry : Operand target logical native before passed item.1)
    (hpassed : PassedAs target.layout encoding before middle item.1.1.1 item.1.2 item.2)
    (hplace : (natives.drop item.1.1.1.nativeBegin).take item.1.1.1.nativeCount = item.2)
    (hattributes : item.1.1.1.nativeCount = 1 → item.1.1.1.storageType.isAggregate = true →
      attributes.param item.1.1.1.nativeBegin = physicalAttributes item.1.1.1 false false) :
    Grows (fun item : ((NativeABIValue × ℕ) × NativeValue β) × List (NativeValue β) =>
        receiveArgument target.layout encoding attributes natives
          (storageArgument target.layout item.1.1.1))
      middle (fun item => ownPlace before item.2) NativeValue.place?
      (fun memory item => Arrives target.layout before memory item.1.1.1.storageType item.1.2)
      item := by
  intro memory hgrown
  obtain ⟨⟨⟨value, index⟩, operand⟩, group⟩ := item
  obtain ⟨hmem, haccepts, -⟩ := hentry
  dsimp only at hmem haccepts hpassed hplace hattributes ⊢
  have hvalue : value ∈ native.parameters := List.fst_mem_of_mem_zipIdx hmem
  have hstored := h.stored value hvalue
  have hcount : value.nativeCount = group.length :=
    (h.count hvalue).trans (hpassed.length hstored).symm
  have hbelow := hmiddle.length_le.trans hgrown.length_le
  -- the one native value of a parameter that is not in pieces
  have hone : ∀ {only : NativeValue β}, group = [only] → ¬value.InPieces →
      receiveArgument target.layout encoding attributes natives
          (storageArgument target.layout value) memory =
        receive target.layout encoding (attributes.param value.nativeBegin) only memory := by
    rintro only rfl hpieces
    rw [hcount] at hplace
    have hread := congrArg (fun group => group[0]?) hplace
    rw [getElem?_take_drop (by simp), Nat.add_zero, List.getElem?_cons_zero] at hread
    rw [storageArgument, if_neg hpieces, receiveArgument, hread]
    rfl
  cases hpassed with
  | scalar immediate hscalar =>
    rw [hone rfl (by simp [NativeABIValue.InPieces, hscalar])]
    exact ⟨memory, .immediate immediate, rfl, List.prefix_rfl, rfl, .inl rfl⟩
  | @pieces place source values hpieces hsource hlength hvalues =>
    obtain ⟨haggregate, -⟩ := haccepts
    have hstruct := hstored.record haggregate
    have hsize := hstored.size hstruct
    have hloadable := (h.loadable (List.mem_cons_of_mem _ hvalue) hpieces).1
    obtain ⟨storage, ⟨values', hvalues', hstores⟩, hextent, hdata⟩ :=
      (h.covered value (List.mem_cons_of_mem _ hvalue)).carried hloadable hstruct hpieces.2
        value.storageAlignment horder (hlength.trans hsize)
        ((@length_allocated _ target.layout encoding value.storageType).trans hsize)
    obtain rfl := Option.some.inj (hvalues.symm.trans hvalues')
    rw [storageArgument, if_pos hpieces]
    refine ⟨memory ++ [storage], .pointer memory.length, ?_, List.prefix_append _ _,
      ⟨memory.length, source, storage, rfl, hbelow, hsource, getElem?_allocated, ?_, hdata⟩,
      .inr ⟨memory.length, rfl, le_rfl, by simp⟩⟩
    · simp only [receiveArgument, storeArguments, hplace, mapM_immediate, hstores,
        Option.bind_eq_bind, Option.bind_some]
    · rw [hextent, length_allocated, hlength]
  | @copied place own source hkind hbyVal hsource hown hfresh =>
    have hpieces : ¬value.InPieces := fun hpieces => hpieces.2 hkind
    have hattribute : (physicalAttributes value false false).findSome? AbiAttribute.byVal? = none := by
      rw [byVal?_physicalAttributes, if_neg (by simp [hbyVal])]
    rw [hone rfl hpieces, hattributes hcount haccepts.1, receive_pointer hattribute]
    refine ⟨memory, .pointer own, rfl, List.prefix_rfl,
      ⟨own, source, source, rfl, hfresh, hsource, getElem?_grown hgrown hown, rfl, fun _ _ => rfl⟩,
      .inl ?_⟩
    exact (Option.filter_some_pos (by simpa using hfresh)).symm
  | @byVal place source hkind hbyVal hsource hlength =>
    have hpieces : ¬value.InPieces := fun hpieces => hpieces.2 hkind
    have hfound := getElem?_grown (hmiddle.trans hgrown) hsource
    have hattribute : (physicalAttributes value false false).findSome? AbiAttribute.byVal? =
        some value.storageType := by
      rw [byVal?_physicalAttributes, if_pos ⟨hkind, hbyVal⟩]
    rw [hone rfl hpieces, hattributes hcount haccepts.1, receive_byVal hattribute hfound hlength]
    exact ⟨memory ++ [source], .pointer memory.length, rfl, List.prefix_append _ _,
      ⟨memory.length, source, source, rfl, hbelow, hsource, getElem?_allocated, rfl,
        fun _ _ => rfl⟩, .inr ⟨memory.length, rfl, le_rfl, by simp⟩⟩

end Parameters

/-! ## Entering a body -/

section Entering

variable {target : NativeTarget} {logical : FunctionType} {native : NativeABISignature} {β : Type}
  {encoding : Encoding β} {before : List (List β)} {results operands : List (NativeValue β)}

/-- The parameters of a signature with their indices and operands. -/
def entries (logical : FunctionType) (native : NativeABISignature)
    (operands : List (NativeValue β)) : List ((NativeABIValue × ℕ) × NativeValue β) :=
  (native.parameters.zipIdx (bodyOffset logical)).zip operands

theorem length_results (hresults : List.Forall₂ (Accepts target.layout before)
    (if logical.result.isAggregate then [logical.result] else []) results) :
    results.length = bodyOffset logical := by
  rw [← hresults.length_eq, bodyOffset]
  split_ifs <;> rfl

theorem length_operands (h : native.Crosses target logical)
    (hoperands : List.Forall₂ (Accepts target.layout before) logical.params operands) :
    native.parameters.length = operands.length := by
  rw [← hoperands.length_eq, ← h.wellFormed.parameter_storage, List.length_map]

theorem operand_of_mem (h : native.Crosses target logical)
    (hresults : List.Forall₂ (Accepts target.layout before)
      (if logical.result.isAggregate then [logical.result] else []) results)
    (hoperands : List.Forall₂ (Accepts target.layout before) logical.params operands)
    {entry : (NativeABIValue × ℕ) × NativeValue β} (hentry : entry ∈ entries logical native operands) :
    Operand target logical native before (results ++ operands) entry := by
  obtain ⟨value, operand⟩ := entry
  have haccepts : List.Forall₂
      (fun entry operand => Accepts target.layout before entry.1.storageType operand)
      (native.parameters.zipIdx (bodyOffset logical)) operands := by
    rw [← h.wellFormed.parameter_storage, List.forall₂_map_left_iff] at hoperands
    exact forall₂_zipIdx.mpr hoperands
  have hat := @operands_at _ _ native.parameters operands results (length_operands h hoperands)
  rw [length_results hresults] at hat
  exact ⟨(List.of_mem_zip hentry).1, List.forall₂_zip haccepts hentry, List.forall₂_zip hat hentry⟩

theorem map_fst_entries (h : native.Crosses target logical)
    (hoperands : List.Forall₂ (Accepts target.layout before) logical.params operands) :
    (entries logical native operands).map Prod.fst =
      native.parameters.zipIdx (bodyOffset logical) :=
  List.map_fst_zip (by rw [List.length_zipIdx, length_operands h hoperands])

theorem map_entries (h : native.Crosses target logical)
    (hoperands : List.Forall₂ (Accepts target.layout before) logical.params operands) :
    ((entries logical native operands).map fun entry => entry.1.1) = native.parameters := by
  have hfst := congrArg (List.map Prod.fst) (map_fst_entries h hoperands)
  rwa [List.zipIdx_map_fst, List.map_map] at hfst

/-- The parameters are passed, each in values or an object of its own. -/
theorem passArguments_ok (h : native.Crosses target logical)
    (hresults : List.Forall₂ (Accepts target.layout before)
      (if logical.result.isAggregate then [logical.result] else []) results)
    (hoperands : List.Forall₂ (Accepts target.layout before) logical.params operands) :
    ∃ middle groups,
      runAll (passArgument target.layout encoding (results ++ operands))
          (passedArguments target.layout native.parameters (bodyOffset logical)) before =
        some (middle, groups) ∧
      before <+: middle ∧
      List.Forall₂ (fun entry => PassedAs target.layout encoding before middle entry.1.1 entry.2)
        (entries logical native operands) groups ∧
      (groups.filterMap (ownPlace before)).Nodup ∧
      ∀ place ∈ groups.filterMap (ownPlace before), before.length ≤ place ∧ place < middle.length := by
  have harguments : passedArguments target.layout native.parameters (bodyOffset logical) =
      (entries logical native operands).map
        fun entry => passedArgument target.layout entry.1.1 entry.1.2 := by
    rw [passedArguments, ← map_fst_entries h hoperands, List.map_map]
    rfl
  have hnone : (entries logical native operands).filterMap (fun _ => (none : Option ℕ)) = [] := by
    simp
  obtain ⟨middle, groups, hrun, hgrown, hpassed, hnodup, hplaces⟩ :=
    @runAll_grows _ _ _ _ before _ _
      (fun memory (entry : (NativeABIValue × ℕ) × NativeValue β) =>
        PassedAs target.layout encoding before memory entry.1.1 entry.2)
      (fun hgrown hpassed => hpassed.grown hgrown) (entries logical native operands) before
      List.prefix_rfl
      (fun entry hentry => @passArgument_grows _ _ _ _ encoding _ _ h _
        (operand_of_mem h hresults hoperands hentry))
      (by rw [hnone]; exact List.nodup_nil) (by simp [hnone])
  refine ⟨middle, groups, by rw [harguments, runAll_map, hrun], hgrown, hpassed, hnodup,
    fun place hplace => ?_⟩
  obtain ⟨hlt, hor⟩ := hplaces place hplace
  exact ⟨hor.resolve_left (by simp [hnone]), hlt⟩

/-- The result has an object : that of the caller, which is passed, or one of the body. -/
theorem receiveResult_ok (h : native.Crosses target logical)
    (hresults : List.Forall₂ (Accepts target.layout before)
      (if logical.result.isAggregate then [logical.result] else []) results)
    {middle : List (List β)} (hmiddle : before <+: middle) {attributes : AttributeList}
    {natives : List (NativeValue β)}
    (hhidden : native.result.kind = .indirect → natives[0]? = results[0]?)
    (hattributes : native.result.kind = .indirect →
      (attributes.param 0).findSome? AbiAttribute.byVal? = none) :
    ∃ entered owned,
      runAll (receiveArgument target.layout encoding attributes natives)
          (if logical.result.isAggregate then [resultArgument native] else []) middle =
        some (entered, owned) ∧
      middle <+: entered ∧
      List.Forall₂ (OwnsResult target.layout before entered logical.result) results owned ∧
      (native.result.kind = .indirect → owned = results) ∧
      (owned.filterMap NativeValue.place?).Nodup ∧
      ∀ place ∈ owned.filterMap NativeValue.place?,
        place < before.length ∨ middle.length ≤ place ∧ place < entered.length := by
  by_cases haggregate : logical.result.isAggregate = true
  · rw [if_pos haggregate] at hresults ⊢
    obtain ⟨operand, _, haccepts, hnil, rfl⟩ := List.forall₂_cons_left_iff.mp hresults
    obtain rfl := List.forall₂_nil_left_iff.mp hnil
    cases operand with
    | immediate immediate => simp [Accepts, haggregate] at haccepts
    | pointer place =>
      obtain ⟨-, object, hobject, hlength⟩ := haccepts
      by_cases hkind : native.result.kind = .indirect
      · have hargument : resultArgument native = .argument 0 := by
          rw [resultArgument, h.wellFormed.sret, if_pos hkind]
        have hreceive : receiveArgument target.layout encoding attributes natives (.argument 0)
            middle = some (middle, .pointer place) := by
          rw [receiveArgument, hhidden hkind]
          exact receive_pointer (hattributes hkind)
        refine ⟨middle, [.pointer place], by rw [hargument, runAll, hreceive]; rfl,
          List.prefix_rfl, .cons ⟨place, place, object, rfl, rfl, .inl rfl,
            getElem?_grown hmiddle hobject, hlength⟩ .nil, fun _ => rfl, List.nodup_singleton _, ?_⟩
        intro place' hplace'
        obtain rfl : place' = place := by simpa [NativeValue.place?] using hplace'
        exact .inl (List.getElem?_eq_some_iff.mp hobject).1
      · have hargument : resultArgument native =
            .storage native.result.storageType native.result.storageAlignment 0 0 [] := by
          rw [resultArgument, h.wellFormed.sret, if_neg hkind]
        have hreceive : ∀ alignment, receiveArgument target.layout encoding attributes natives
            (.storage native.result.storageType alignment 0 0 []) middle =
              some (middle ++ [allocated target.layout encoding native.result.storageType],
                .pointer middle.length) := fun _ => rfl
        refine ⟨_, [.pointer middle.length], by rw [hargument, runAll, hreceive]; rfl,
          List.prefix_append _ _, .cons ⟨place, middle.length, _, rfl, rfl, .inr hmiddle.length_le,
            getElem?_allocated, by rw [length_allocated, h.wellFormed.result_storage]⟩ .nil,
          fun hindirect => absurd hindirect hkind, List.nodup_singleton _, ?_⟩
        intro place' hplace'
        obtain rfl : place' = middle.length := by simpa [NativeValue.place?] using hplace'
        exact .inr ⟨le_rfl, by simp⟩
  · rw [if_neg haggregate] at hresults ⊢
    obtain rfl := List.forall₂_nil_left_iff.mp hresults
    exact ⟨middle, [], rfl, List.prefix_rfl, .nil, fun _ => rfl, List.nodup_nil, by simp⟩

/-- The parameters are received, each record in an object of its own. -/
theorem receiveArguments_ok (h : native.Crosses target logical)
    (horder : encoding.bigEndian = target.layout.bigEndian)
    (hresults : List.Forall₂ (Accepts target.layout before)
      (if logical.result.isAggregate then [logical.result] else []) results)
    (hoperands : List.Forall₂ (Accepts target.layout before) logical.params operands)
    {middle entered : List (List β)} (hmiddle : before <+: middle) (hentered : middle <+: entered)
    {groups : List (List (NativeValue β))} {natives : List (NativeValue β)}
    (hpassed : List.Forall₂
      (fun entry => PassedAs target.layout encoding before middle entry.1.1 entry.2)
      (entries logical native operands) groups)
    (hnodup : (groups.filterMap (ownPlace before)).Nodup)
    (hplaces : ∀ place ∈ groups.filterMap (ownPlace before),
      before.length ≤ place ∧ place < middle.length)
    (hnatives : List.Forall₂
      (fun value group => (natives.drop value.nativeBegin).take value.nativeCount = group)
      native.parameters groups) (attributes : AttributeList) :
    ∃ entry received,
      runAll (receiveArgument target.layout encoding
          (boundaryAttributes attributes logical native false) natives)
          (native.parameters.map (storageArgument target.layout)) entered =
        some (entry, received) ∧
      entered <+: entry ∧
      List.Forall₂ (fun parameter argument =>
        Arrives target.layout before entry parameter.1 parameter.2 argument)
        (logical.params.zip operands) received ∧
      (received.filterMap NativeValue.place?).Nodup ∧
      ∀ place ∈ received.filterMap NativeValue.place?, before.length ≤ place ∧
        (place < middle.length ∨ entered.length ≤ place) := by
  have hlength := hpassed.length_eq
  have hitems : ∀ {δ : Type} (f : (NativeABIValue × ℕ) × NativeValue β → δ),
      (((entries logical native operands).zip groups).map fun item => f item.1) =
        (entries logical native operands).map f := by
    intro δ f
    have hfst := congrArg (List.map f) (List.map_fst_zip hlength.le)
    rwa [List.map_map] at hfst
  have hmapped : native.parameters.map (storageArgument target.layout) =
      ((entries logical native operands).zip groups).map
        fun item => storageArgument target.layout item.1.1.1 := by
    rw [hitems fun entry => storageArgument target.layout entry.1.1, ← map_entries h hoperands,
      List.map_map]
    rfl
  have hbefore : ((entries logical native operands).zip groups).filterMap
      (fun item => ownPlace before item.2) = groups.filterMap (ownPlace before) := by
    have hsnd := congrArg (List.filterMap (ownPlace before)) (List.map_snd_zip hlength.ge)
    rwa [List.filterMap_map] at hsnd
  have hat : List.Forall₂ (fun entry group =>
      (natives.drop entry.1.1.nativeBegin).take entry.1.1.nativeCount = group)
      (entries logical native operands) groups := by
    rw [← map_entries h hoperands, List.forall₂_map_left_iff] at hnatives
    exact hnatives
  obtain ⟨entry, received, hrun, hgrown, harrive, hdistinct, hall⟩ :=
    @runAll_grows _ _ _ _ middle _ _
      (fun memory (item : ((NativeABIValue × ℕ) × NativeValue β) × List (NativeValue β)) =>
        Arrives target.layout before memory item.1.1.1.storageType item.1.2)
      (fun hgrown harrive => harrive.grown hgrown) _ entered hentered
      (fun item hitem => by
        have hoperand := operand_of_mem h hresults hoperands (List.of_mem_zip hitem).1
        refine @receiveArgument_grows _ _ _ _ encoding _ _ _ natives h horder hmiddle
          (boundaryAttributes attributes logical native false) item hoperand
          (List.forall₂_zip hpassed hitem) (List.forall₂_zip hat hitem) fun hcount haggregate => ?_
        have hparam := param_boundaryAttributes h attributes false hoperand.mem (hcount ▸ Nat.one_pos)
        rw [Nat.add_zero, valueAttributes, if_pos haggregate] at hparam
        exact hparam)
      (hbefore ▸ hnodup) (fun place hplace => by
        rw [hbefore] at hplace
        exact (hplaces place hplace).2.trans_le hentered.length_le)
  refine ⟨entry, received, by rw [hmapped, runAll_map, hrun], hgrown, ?_, hdistinct,
    fun place hplace => ?_⟩
  · have hzip : logical.params.zip operands =
        ((entries logical native operands).zip groups).map
          fun item => (item.1.1.1.storageType, item.1.2) := by
      have hstorage := congrArg (List.map NativeABIValue.storageType)
        (List.zipIdx_map_fst (bodyOffset logical) native.parameters)
      rw [List.map_map, h.wellFormed.parameter_storage] at hstorage
      rw [hitems fun entry => (entry.1.1.storageType, entry.2), ← hstorage, List.zip_map_left]
      rfl
    rw [hzip, List.forall₂_map_left_iff]
    exact harrive
  · have hbelow := hmiddle.length_le.trans hentered.length_le
    rcases (hall place hplace).2 with hkeep | hnew
    · rw [hbefore] at hkeep
      exact (hplaces place hkeep).imp_right .inl
    · exact ⟨hbelow.trans hnew, .inr hnew⟩

/-- A result that is not direct has an object of the caller. -/
theorem results_of_indirect (h : native.Crosses target logical)
    (hresults : List.Forall₂ (Accepts target.layout before)
      (if logical.result.isAggregate then [logical.result] else []) results)
    (hkind : native.result.kind = .indirect) : ∃ place, results = [.pointer place] := by
  have haggregate : logical.result.isAggregate = true := by
    by_contra hscalar
    have hdirect := h.result_stored.direct
      (h.wellFormed.result_storage.symm ▸ (Bool.not_eq_true _).mp hscalar)
    simp [hdirect] at hkind
  rw [if_pos haggregate] at hresults
  obtain ⟨operand, _, haccepts, hnil, rfl⟩ := List.forall₂_cons_left_iff.mp hresults
  obtain rfl := List.forall₂_nil_left_iff.mp hnil
  cases operand with
  | immediate immediate => simp [Accepts, haggregate] at haccepts
  | pointer place => exact ⟨place, rfl⟩

/-- A body is entered with the data of the operands in objects of its own. -/
theorem enterBody_ok (h : native.Crosses target logical)
    (horder : encoding.bigEndian = target.layout.bigEndian)
    (hresults : List.Forall₂ (Accepts target.layout before)
      (if logical.result.isAggregate then [logical.result] else []) results)
    (hoperands : List.Forall₂ (Accepts target.layout before) logical.params operands)
    {call : MaterializedCall} {definition : MaterializedDefinition} {attributes : AttributeList}
    (hcall : call.arguments = (if native.result.kind = .indirect then [.operand 0] else []) ++
      passedArguments target.layout native.parameters (bodyOffset logical))
    (hattributes : call.attributes = boundaryAttributes attributes logical native false)
    (hdefinition : definition.arguments =
      (if logical.result.isAggregate then [resultArgument native] else []) ++
        (native.parameters.map (storageArgument target.layout))) :
    ∃ entry owned received,
      enterBody target.layout encoding call definition (results ++ operands) before =
        some (entry, owned ++ received) ∧
      Entered target.layout logical results operands before entry owned received ∧
      (native.result.kind = .indirect → owned = results) := by
  obtain ⟨middle, groups, hpass, hmiddle, hpassed, hnodup, hplaces⟩ :=
    @passArguments_ok _ _ _ _ encoding _ _ _ h hresults hoperands
  -- the hidden pointer is passed first
  obtain ⟨hidden, hhidden⟩ : ∃ hidden, native.result.kind = .indirect → results = [hidden] := by
    by_cases hkind : native.result.kind = .indirect
    · obtain ⟨place, hplace⟩ := results_of_indirect h hresults hkind
      exact ⟨_, fun _ => hplace⟩
    · exact ⟨.pointer 0, fun hindirect => absurd hindirect hkind⟩
  have hfirst : runAll (passArgument target.layout encoding (results ++ operands))
      (if native.result.kind = .indirect then [.operand 0] else []) before =
        some (before, if native.result.kind = .indirect then [[hidden]] else []) := by
    split_ifs with hkind
    · rw [hhidden hkind]
      rfl
    · rfl
  have hflatten : ((if native.result.kind = .indirect then [[hidden]] else []) ++ groups).flatten =
      (if native.result.kind = .indirect then [hidden] else []) ++ groups.flatten := by
    split_ifs <;> rfl
  have hnatives := @NativeABISignature.Crosses.groups _ _ _ _ h hidden groups (by
    rw [← map_entries h hoperands, List.forall₂_map_left_iff]
    refine List.forall₂_iff_zip.mpr ⟨hpassed.length_eq, fun {entry group} hitem => ?_⟩
    have hoperand := operand_of_mem h hresults hoperands (List.of_mem_zip hitem).1
    have hvalue := List.fst_mem_of_mem_zipIdx hoperand.mem
    rw [(List.forall₂_zip hpassed hitem).length (h.stored _ hvalue), h.count hvalue])
  obtain ⟨entered, owned, hresult, hentered, howned, hsame, hownedDistinct, hownedPlaces⟩ :=
    @receiveResult_ok _ _ _ _ encoding _ _ h hresults middle hmiddle call.attributes
      ((if native.result.kind = .indirect then [hidden] else []) ++ groups.flatten)
      (fun hkind => by rw [if_pos hkind, hhidden hkind]; rfl)
      (fun hkind => by
        rw [hattributes, AttributeList.param, boundaryAttributes, if_pos hkind]
        exact byVal?_physicalAttributes_result)
  obtain ⟨entry, received, hrun, hentry, hreceived, hdistinct, hreceivedPlaces⟩ :=
    receiveArguments_ok h horder hresults hoperands hmiddle hentered hpassed hnodup hplaces hnatives
      attributes
  refine ⟨entry, owned, received, ?_,
    ⟨hmiddle.trans (hentered.trans hentry), ?_, ?_, hreceived⟩, hsame⟩
  · rw [enterBody, hcall, runAll_append hpass hfirst]
    simp only [Option.bind_eq_bind, Option.bind_some, hflatten, hdefinition]
    refine runAll_append ?_ hresult
    rw [hattributes, hrun]
  · rw [List.filterMap_append, List.nodup_append]
    refine ⟨hownedDistinct, hdistinct, fun place howner place' hreceiver heq => ?_⟩
    obtain rfl := heq
    have hle := (hreceivedPlaces place hreceiver).2
    have hbelow := (hreceivedPlaces place hreceiver).1
    have hor := hownedPlaces place howner
    omega
  · exact howned.imp fun _ _ howns => howns.grown hentry

end Entering

/-! ## Leaving a body -/

section Leaving

variable {target : NativeTarget} {logical : FunctionType} {native : NativeABISignature} {β : Type}
  {encoding : Encoding β} {before entry : List (List β)}
  {results operands owned received : List (NativeValue β)}

theorem footprints_inside {layout : DataLayout} {value : NativeABIValue} (h : Loadable layout value)
    (alignment : Align)
    (hinside : ∀ piece ∈ value.pieces, piece.offset + layout.storeSize piece.type ≤ value.storageSize) :
    PieceAccess.footprints layout (accesses layout alignment value) = pieceFootprints layout value := by
  rw [h.footprints, (h.sequence hinside).cut_eq le_rfl]

/-- The values that a caller stores of a record that is returned are those that it is loaded in. -/
theorem returnedRecord_ok (h : native.Crosses target logical) (hpieces : native.result.InPieces)
    (hfits : ¬Oversized target logical) {memory : List (List β)} {own : ℕ}
    {arguments : List (NativeValue β)} {source : List β} {values : List (TypedValue β)}
    {result : Option (NativeValue β)} (harguments : arguments[0]? = some (.pointer own))
    (hsource : memory[own]? = some source) (hlength : source.length = native.result.storageSize)
    (hvalues : Footprint.loadAll encoding source (PieceAccess.footprints target.layout
      (accesses target.layout native.result.storageAlignment native.result)) = some values) :
    ∃ returned, (returnedRecord target.layout native).result target.layout encoding arguments memory
        result = some returned ∧
      resultValues (1 < native.result.pieces.length) returned = some values := by
  have hloadable := (h.loadable List.mem_cons_self hpieces).1
  have hstorage := h.wellFormed.result_storage
  have hstruct := h.result_stored.record hpieces.1
  have hreturns := h.returns (hstorage ▸ hstruct)
  have hcount : values.length = native.result.pieces.length := by
    rw [Footprint.length_loadAll hvalues, footprints_eq_map, List.length_map, accesses,
      List.length_map]
  have hobject : (NativeValue.pointer own : NativeValue β).object? memory = some source := hsource
  rcases hreturns.returned hpieces.2 with ⟨type, hone⟩ | ⟨low, high, htwo, helements, hstore⟩
  · have htype : native.nativeType.result = type := by
      have hresult := h.wellFormed.result_type
      generalize native.nativeType.result = returned at hresult
      cases hresult with
      | indirect hkind => exact absurd hkind hpieces.2
      | none _ hnil => exact absurd hnil hloadable.nonempty
      | one piece _ hpiece =>
        obtain rfl : piece = ⟨type, 0⟩ := by simpa [hone] using hpiece.symm
        rfl
      | several _ hlength => simp [hone] at hlength
    obtain ⟨value, rfl⟩ := List.length_eq_one_iff.mp (hcount.trans (by rw [hone]; rfl))
    refine ⟨some (.immediate value), ?_, by simp [hone, resultValues]⟩
    rw [returnedRecord, htype]
    split_ifs with hle
    · have hinside : ∀ piece ∈ native.result.pieces,
          piece.offset + target.layout.storeSize piece.type ≤ native.result.storageSize := by
        rw [hone]
        simpa using hle
      rw [footprints_inside hloadable _ hinside, pieceFootprints, hone] at hvalues
      obtain ⟨value', hvalue, hrest⟩ := Option.bind_eq_some_iff.mp hvalues
      obtain rfl : value' = value := by simpa [Footprint.loadAll] using hrest
      simp only [NativeReturn.result, harguments, hobject, hvalue, Option.bind_eq_bind,
        Option.bind_some]
    · simp only [NativeReturn.result, harguments, hobject, hvalues, Option.bind_eq_bind,
        Option.bind_some]
  · have htype : native.nativeType.result = .struct none false [low, high] := by
      have hresult := h.wellFormed.result_type
      generalize native.nativeType.result = returned at hresult
      cases hresult with
      | indirect hkind => exact absurd hkind hpieces.2
      | none _ hnil => exact absurd hnil hloadable.nonempty
      | one piece _ hpiece => simp [htwo] at hpiece
      | several => rw [htwo]; rfl
    have hsize : native.result.storageSize = 16 := by
      obtain ⟨htarget, hlarge⟩ := (hreturns.two hpieces.2).mp (by simp [htwo])
      have hlimit := hreturns.limit hpieces.2 htarget
      have hextent : target.layout.allocSize logical.result = native.result.storageSize :=
        hstorage ▸ h.result_stored.size hstruct
      by_contra hne
      exact hfits ⟨htarget, hstorage ▸ hstruct, by omega, by omega⟩
    have hinside : ∀ piece ∈ native.result.pieces,
        piece.offset + target.layout.storeSize piece.type ≤ native.result.storageSize := by
      have hend : ∀ element ∈ [(low, 0), (high, 8)],
          element.2 + target.layout.storeSize element.1 ≤ 16 := by
        intro element helement
        rw [← hstore]
        exact DataLayout.element_end_le none (helements ▸ helement)
      simpa [htwo, hsize] using hend
    rw [footprints_inside hloadable _ hinside, pieceFootprints, htwo] at hvalues
    refine ⟨some (.immediate (.elements values)), ?_, by simp [htwo, resultValues]⟩
    have hload : Footprint.load encoding source
        (target.layout.footprint (.struct none false [low, high]) 0) = some (.elements values) := by
      rw [DataLayout.footprint_struct, helements, Footprint.load, hstore, if_pos (by omega)]
      exact congrArg (Option.map TypedValue.elements) hvalues
    rw [returnedRecord, htype, if_pos (by omega)]
    simp only [NativeReturn.result, harguments, hobject, hload, Option.bind_eq_bind,
      Option.bind_some]

/-- A body that writes to its arguments alone changes nothing of the caller but its result. -/
theorem Entered.confined {layout : DataLayout} {left after : List (List β)}
    (hentered : Entered layout logical results operands before entry owned received)
    (hothers : ∀ place, .pointer place ∉ results → after[place]? = left[place]?)
    (hconfined : Confined (owned ++ received) entry left) : Confined results before after := by
  intro place object hobject hplace
  have hlt := (List.getElem?_eq_some_iff.mp hobject).1
  rw [hothers place hplace]
  refine hconfined place object (getElem?_grown hentered.kept hobject) fun hmem => ?_
  rcases List.mem_append.mp hmem with hmem | hmem
  · obtain ⟨operand, hoperand, hown⟩ := Checked.exists_of_forall₂_right hentered.result hmem
    obtain ⟨place', own, -, rfl, hargument, hor, -⟩ := hown
    obtain rfl := NativeValue.pointer.inj hargument
    rcases hor with rfl | hfresh
    · exact hplace hoperand
    · omega
  · obtain ⟨parameter, -, harrive⟩ := Checked.exists_of_forall₂_right hentered.parameters hmem
    obtain ⟨type, operand⟩ := parameter
    cases operand with
    | immediate immediate => cases harrive
    | pointer place' =>
      obtain ⟨own, -, -, hargument, hfresh, -⟩ := harrive
      obtain rfl := NativeValue.pointer.inj hargument
      omega

/-- A call whose body has returned leaves its result with the caller. -/
theorem leaveBody_ok (h : native.Crosses target logical)
    (horder : encoding.bigEndian = target.layout.bigEndian)
    (hresults : List.Forall₂ (Accepts target.layout before)
      (if logical.result.isAggregate then [logical.result] else []) results)
    (hentered : Entered target.layout logical results operands before entry owned received)
    (hsame : native.result.kind = .indirect → owned = results)
    {call : MaterializedCall} {definition : MaterializedDefinition} {count : ℕ}
    (hcall : call.result = storedResult target.layout native)
    (hdefinition : definition.returns =
      List.replicate count (returnedResult target.layout native))
    (hfits : ¬(Oversized target logical ∧ 0 < count)) (exit : BodyExit β count)
    (hkeeps : KeepsObjects entry exit.memory) :
    ∃ after result,
      leaveBody target.layout encoding call definition (results ++ operands) (owned ++ received)
          exit = some (after, result) ∧
        Left target.layout logical results owned received before entry exit.memory after ∧
        (logical.result.isAggregate = false → result = exit.result) := by
  have htaken : definition.returns[exit.taken.val]? =
      some (returnedResult target.layout native) := by
    rw [hdefinition, List.getElem?_replicate, if_pos exit.taken.isLt]
  have hpositive : 0 < count := exit.taken.pos
  have hstorage := h.wellFormed.result_storage
  by_cases hpieces : native.result.InPieces
  · have hstruct := h.result_stored.record hpieces.1
    have hsize := h.result_stored.size hstruct
    rw [if_pos (hstorage ▸ hpieces.1)] at hresults
    obtain ⟨operand, _, haccepts, hnil, rfl⟩ := List.forall₂_cons_left_iff.mp hresults
    obtain rfl := List.forall₂_nil_left_iff.mp hnil
    obtain ⟨argument, _, hown, hnil, rfl⟩ := List.forall₂_cons_left_iff.mp hentered.result
    obtain rfl := List.forall₂_nil_left_iff.mp hnil
    obtain ⟨place, own, object, rfl, rfl, -, hobject, hlength⟩ := hown
    obtain ⟨-, caller, hcaller, hcallerLength⟩ := haccepts
    obtain ⟨source, hsource, hsourceLength⟩ := hkeeps own object hobject
    obtain ⟨storage, hstorageAt, hstorageLength⟩ :=
      hkeeps place caller (getElem?_grown hentered.kept hcaller)
    have hextent : target.layout.allocSize logical.result = native.result.storageSize :=
      hstorage ▸ hsize
    have hwhole := hsourceLength.trans (hlength.trans hextent)
    have hloadable := (h.loadable List.mem_cons_self hpieces).1
    obtain ⟨copy, ⟨values, hvalues, hstores⟩, hcopyLength, hdata⟩ :=
      (h.covered _ List.mem_cons_self).carried hloadable hstruct hpieces.2
        native.result.storageAlignment horder hwhole
        (hstorageLength.trans (hcallerLength.trans hextent))
    obtain ⟨returned, hreturned, hread⟩ :=
      @returnedRecord_ok _ _ _ _ encoding h hpieces (fun hwide => hfits ⟨hwide, hpositive⟩)
        exit.memory own (.pointer own :: received) source values exit.result rfl hsource hwhole
        hvalues
    have hothers : ∀ place', .pointer place' ∉ [(.pointer place : NativeValue β)] →
        (exit.memory.set place copy)[place']? = exit.memory[place']? := by
      intro place' hplace'
      rw [List.getElem?_set_ne]
      rintro rfl
      simp at hplace'
    refine ⟨exit.memory.set place copy, none, ?_,
      ⟨.cons ⟨place, own, source, copy, rfl, rfl, hsource, ?_, ?_, ?_⟩ .nil, hothers,
        hentered.confined hothers⟩, fun hscalar => ?_⟩
    · have hreturn : returnedResult target.layout native = returnedRecord target.layout native :=
        if_pos hpieces
      rw [leaveBody, htaken]
      simp only [Option.bind_eq_bind, Option.bind_some, hreturn, hreturned, hcall, storedResult,
        if_pos hpieces, NativeResult.store, hread, List.cons_append, List.nil_append,
        List.getElem?_cons_zero, NativeValue.place?, hstorageAt, hstores]
    · rw [List.getElem?_set_self (List.getElem?_eq_some_iff.mp hstorageAt).1]
    · rw [hcopyLength, hstorageLength, hcallerLength]
    · exact fun p hp => hdata p (hstorage ▸ hp)
    · have haggregate := hstorage ▸ hpieces.1
      simp [hscalar] at haggregate
  · have hothers : ∀ place, .pointer place ∉ results → exit.memory[place]? = exit.memory[place]? :=
      fun _ _ => rfl
    refine ⟨exit.memory, exit.result, ?_, ⟨?_, hothers, hentered.confined hothers⟩, fun _ => rfl⟩
    · rw [leaveBody, htaken]
      simp only [Option.bind_eq_bind, Option.bind_some, returnedResult, if_neg hpieces, hcall,
        storedResult, NativeReturn.result, NativeResult.store]
    · -- the object is that of the caller
      by_cases haggregate : logical.result.isAggregate = true
      · have hkind := NativeABIValue.indirect_of_not_inPieces (hstorage.symm ▸ haggregate) hpieces
        have howned := hsame hkind ▸ hentered.result
        rw [hsame hkind]
        obtain ⟨place, rfl⟩ := results_of_indirect h hresults hkind
        obtain ⟨place', own, object, hplace, hown, -, hobject, hlength⟩ :=
          (List.forall₂_cons.mp howned).1
        obtain rfl := NativeValue.pointer.inj hown
        obtain ⟨left, hleft, hleftLength⟩ := hkeeps place object hobject
        exact .cons ⟨place, place, left, left, rfl, rfl, hleft, hleft, hleftLength.trans hlength,
          fun _ _ => rfl⟩ .nil
      · rw [if_neg haggregate] at hresults
        obtain rfl := List.forall₂_nil_left_iff.mp hresults
        obtain rfl := List.forall₂_nil_left_iff.mp hentered.result
        exact .nil

end Leaving

/-! ## Boundaries -/

section Boundaries

variable {target : NativeTarget} {logical : FunctionType} {native : NativeABISignature}

/-- The two sides of a boundary have one native type, and pass the records in the same way. -/
structure Agrees (native : NativeABISignature) (call : MaterializedCall)
    (definition : MaterializedDefinition) : Prop where
  type : call.type = definition.type
  attributes : ∀ value ∈ native.parameters, value.storageType.isAggregate = true →
    ∀ place < value.nativeCount, call.attributes.param (value.nativeBegin + place) =
      definition.attributes.param (value.nativeBegin + place)

theorem agrees_attributes (h : native.Crosses target logical) {attributes attributes' : AttributeList}
    {value : NativeABIValue} (hvalue : value ∈ native.parameters)
    (haggregate : value.storageType.isAggregate = true) {place : ℕ}
    (hplace : place < value.nativeCount) :
    (boundaryAttributes attributes logical native false).param (value.nativeBegin + place) =
      (boundaryAttributes attributes' logical native true).param (value.nativeBegin + place) := by
  obtain ⟨index, hindex⟩ : ∃ index,
      (value, index) ∈ native.parameters.zipIdx (bodyOffset logical) := by
    rw [← List.zipIdx_map_fst (bodyOffset logical) native.parameters] at hvalue
    obtain ⟨entry, hentry, rfl⟩ := List.mem_map.mp hvalue
    exact ⟨entry.2, hentry⟩
  rw [param_boundaryAttributes h attributes false hindex hplace,
    param_boundaryAttributes h attributes' true hindex hplace, valueAttributes, valueAttributes,
    if_pos haggregate, if_pos haggregate]
  rfl

/-- A boundary of a classified signature preserves values. Its call is always materialized, and its
definition unless it returns a record that is wider than its registers; and any run of the body
through them is entered with copies of the records of the caller, in objects of its own, and leaves
the data of its result in that of the caller, and what else the caller has as the body left it. -/
theorem materializeNativeAggregate_preserves {linked : List NativeTarget}
    {ordered : List StructType}
    (h : classifyNativeABI linked logical target.id ordered = .ok native)
    (hvariadic : logical.isVarArg = false) {body : StorageBody} (hbody : body.Conforms logical)
    {call : StorageCall} (hcall : call.Conforms logical) :
    ∃ materialized,
      materializeNativeAggregateCall target.layout call logical native = .ok materialized ∧
      ((∃ definition, materializeNativeAggregateDefinition target.layout body logical native =
          .ok definition) ↔
        ¬(Oversized target logical ∧ ∃ count, body.returns = some (count + 1))) ∧
      ∀ definition count, materializeNativeAggregateDefinition target.layout body logical native =
          .ok definition → body.returns = some count →
        Agrees native materialized definition ∧
        ∀ (β : Type) (encoding : Encoding β), encoding.bigEndian = target.layout.bigEndian →
          PreservesValues target.layout encoding logical materialized definition count := by
  have hcrosses := NativeTarget.classify_crosses (classifyNativeABI_ok h)
  refine ⟨_, materializeNativeAggregateCall_ok hcrosses hcall hvariadic, ?_,
    fun definition count hdefinition hreturns => ?_⟩
  · rcases hreturns : body.returns with _ | count
    · refine ⟨fun _ hboth => ?_, fun _ =>
        ⟨_, materializeNativeAggregateDefinition_declaration hcrosses hbody hreturns⟩⟩
      obtain ⟨-, count, hcount⟩ := hboth
      cases hcount
    · have hpositive : (∃ count', some count = some (count' + 1)) ↔ 0 < count := by
        refine ⟨fun ⟨count', hcount⟩ => ?_, fun hcount => ⟨count - 1, ?_⟩⟩
        · have := Option.some.inj hcount
          omega
        · rw [Nat.sub_add_cancel hcount]
      simp only [materializeNativeAggregateDefinition_ok hcrosses hbody hreturns, hpositive,
        exists_and_left, exists_eq, and_true]
  · obtain ⟨hfits, rfl⟩ :=
      (materializeNativeAggregateDefinition_ok hcrosses hbody hreturns).mp hdefinition
    refine ⟨⟨rfl, fun value hvalue haggregate place hplace =>
      agrees_attributes hcrosses hvalue haggregate hplace⟩, fun β encoding horder before results
        operands hresults hoperands => ?_⟩
    obtain ⟨entry, owned, received, henter, hentered, hsame⟩ :=
      @enterBody_ok _ _ _ _ encoding _ _ _ hcrosses horder hresults hoperands
        (nativeCall target.layout call logical native)
        (nativeDefinition target.layout body logical native count) call.attributes rfl rfl rfl
    exact ⟨entry, owned, received, henter, hentered, fun exit hkeeps =>
      leaveBody_ok hcrosses horder hresults hentered hsame rfl rfl hfits exit hkeeps⟩

end Boundaries

/-- A record that is passed by value on x86-64. -/
def large : StructType := ⟨some "large", false, [.int 64, .int 64, .int 64]⟩

/-- A function that takes a record in memory, one in registers and a scalar, and returns a record. -/
def boundaryFunction : FunctionType := ⟨sample.toType, [large.toType, sample.toType, .int 32], false⟩

def boundarySignature : NativeABISignature where
  nativeType :=
    ⟨.struct none false [.doubleTy, .int 32], [.ptr, .doubleTy, .int 32, .int 32], false⟩
  result := sampleSignature.result
  parameters :=
    [{ NativeABIValue.blank large.toType with
        kind := .indirect
        storageSize := 24
        storageAlignment := .of 8
        abiAlignment := .of 8
        nativeCount := 1
        byVal := true },
      { sampleSignature.result with nativeBegin := 1 },
      { NativeABIValue.blank (.int 32) with
        storageSize := 4
        storageAlignment := .of 4
        abiAlignment := .of 4
        pieces := [⟨.int 32, 0⟩]
        nativeBegin := 3
        nativeCount := 1 }]
  sretIndex := none
  remainingGP := 4
  remainingSSE := 7

/-- A body of a function without attributes, which returns once. -/
def plainBody (logical : FunctionType) : StorageBody :=
  ⟨nativeStorageBodyType logical, 0, ⟨[], [], []⟩, some 1⟩

def plainCall (logical : FunctionType) : StorageCall :=
  ⟨nativeStorageBodyType logical, 0, false, false, ⟨[], [], []⟩⟩

theorem plain_conforms (logical : FunctionType) :
    (plainBody logical).Conforms logical ∧ (plainCall logical).Conforms logical := by
  have hplain : AttributeList.Plain ⟨[], [], []⟩ logical :=
    ⟨fun _ => ⟨rfl, rfl⟩, fun _ _ _ _ => rfl⟩
  exact ⟨⟨rfl, rfl, hplain⟩, ⟨rfl, rfl, rfl, rfl, hplain⟩⟩

theorem materializeNativeAggregate_preserves_boundary : ∃ materialized definition,
    materializeNativeAggregateCall NativeTarget.x86_64.layout (plainCall boundaryFunction)
      boundaryFunction boundarySignature = .ok materialized ∧
    materializeNativeAggregateDefinition NativeTarget.x86_64.layout (plainBody boundaryFunction)
      boundaryFunction boundarySignature = .ok definition ∧
    PreservesValues NativeTarget.x86_64.layout (defined NativeTarget.x86_64.layout)
      boundaryFunction materialized definition 1 := by
  obtain ⟨hbody, hcall⟩ := plain_conforms boundaryFunction
  have h : classifyNativeABI [.x86_64] boundaryFunction NativeTarget.x86_64.id [sample, large] =
      .ok boundarySignature := by decide +kernel
  obtain ⟨materialized, hmaterialized, hiff, hpreserves⟩ :=
    materializeNativeAggregate_preserves h rfl hbody hcall
  obtain ⟨definition, hdefinition⟩ :=
    hiff.mpr fun hboth => absurd hboth.1.2.2.2 (by decide +kernel)
  exact ⟨materialized, definition, hmaterialized, hdefinition,
    (hpreserves definition 1 hdefinition rfl).2 _ _ rfl⟩

/-- A record of three words, which x86-64 returns in two registers that are wider than it. -/
def triple : StructType := ⟨some "triple", false, [.int 32, .int 32, .int 32]⟩

def tripleFunction : FunctionType := ⟨triple.toType, [.int 32], false⟩

def tripleSignature : NativeABISignature where
  nativeType := ⟨.struct none false [.int 64, .int 32], [.int 32], false⟩
  result :=
    { NativeABIValue.blank triple.toType with
      kind := .expand
      storageSize := 12
      storageAlignment := .of 4
      abiAlignment := .of 4
      pieces := [⟨.int 64, 0⟩, ⟨.int 32, 8⟩]
      nativeCount := 2 }
  parameters :=
    [{ NativeABIValue.blank (.int 32) with
        storageSize := 4
        storageAlignment := .of 4
        abiAlignment := .of 4
        pieces := [⟨.int 32, 0⟩]
        nativeCount := 1 }]
  sretIndex := none
  remainingGP := 5
  remainingSSE := 8

/-- A body that returns such a record is not materialized, though its signature is classified and
its calls are materialized. -/
theorem materializeNativeAggregate_oversized :
    classifyNativeABI [.x86_64] tripleFunction NativeTarget.x86_64.id [triple] =
        .ok tripleSignature ∧
      (plainBody tripleFunction).Conforms tripleFunction ∧
      (∃ materialized, materializeNativeAggregateCall NativeTarget.x86_64.layout
        (plainCall tripleFunction) tripleFunction tripleSignature = .ok materialized) ∧
      materializeNativeAggregateDefinition NativeTarget.x86_64.layout (plainBody tripleFunction)
        tripleFunction tripleSignature =
          .error "oversized native return requires one bounded coercion" := by
  obtain ⟨hbody, hcall⟩ := plain_conforms tripleFunction
  have h : classifyNativeABI [.x86_64] tripleFunction NativeTarget.x86_64.id [triple] =
      .ok tripleSignature := by decide +kernel
  have hcrosses := NativeTarget.classify_crosses (classifyNativeABI_ok h)
  exact ⟨h, hbody, ⟨_, materializeNativeAggregateCall_ok hcrosses hcall rfl⟩, rfl⟩

end Sela
