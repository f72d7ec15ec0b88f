import Sela.NativeSignature

/-!
# Registers of an x86-64 call

A call has six general registers and eight vector registers, one general register fewer when
a hidden pointer returns the result. Both classifiers hand them to the parameters in order.
A record takes registers for all of its eightbytes or none : what it needs is counted from
the classes of its eightbytes, and counted once more from its pieces when the registers are
taken.

`classifyNativeABI_registers` : in every accepted signature the registers that remain are
those that the parameters have not taken, and each parameter is passed as its need and the
registers left before it say (`Passing`).
-/

namespace Sela

namespace NativeX86Abi

/-- The general registers that the pieces of a value take. -/
def generalCount (value : NativeABIValue) : ℕ := value.pieces.countP fun piece => isWord piece.type

/-- The vector registers that the pieces of a value take. -/
def vectorCount (value : NativeABIValue) : ℕ := value.pieces.countP fun piece => !isWord piece.type

/-- The pieces of the value are in registers when so many are free. -/
def InRegisters (free : ℕ × ℕ) (value : NativeABIValue) : Prop :=
  value.byVal = false ∧ generalCount value ≤ free.1 ∧ vectorCount value ≤ free.2

instance (free : ℕ × ℕ) (value : NativeABIValue) : Decidable (InRegisters free value) :=
  inferInstanceAs (Decidable (_ ∧ _ ∧ _))

/-- The registers that a parameter leaves free. -/
def left (free : ℕ × ℕ) (value : NativeABIValue) : ℕ × ℕ :=
  if InRegisters free value then (free.1 - generalCount value, free.2 - vectorCount value) else free

/-- The parameters with the registers that are free when each is met. -/
def registersBefore : ℕ × ℕ → List NativeABIValue → List (NativeABIValue × ℕ × ℕ)
  | _, [] => []
  | free, value :: values => (value, free) :: registersBefore (left free value) values

/-- The parameters that are in registers. -/
def placed (free : ℕ × ℕ) (values : List NativeABIValue) : List NativeABIValue :=
  ((registersBefore free values).filter fun entry => decide (InRegisters entry.2 entry.1)).map
    Prod.fst

/-- The need of a record fits the free registers. A record in memory has no need. -/
def Fits (need : Option (ℕ × ℕ)) (free : ℕ × ℕ) : Prop :=
  ∃ general vector, need = some (general, vector) ∧ general ≤ free.1 ∧ vector ≤ free.2

/-- The value may go to the scalar stack as one integer. -/
def OnStack (free : ℕ × ℕ) (value : NativeABIValue) : Prop :=
  free.1 = 0 ∧ value.storageSize ≤ 8 ∧ value.storageAlignment ≤ .of 8

/-- How a record that needs so many registers is passed when so many are free. -/
inductive Passing (need : Option (ℕ × ℕ)) (free : ℕ × ℕ) (value : NativeABIValue) : Prop
  | registers : need = some (generalCount value, vectorCount value) → InRegisters free value →
    value.kind ≠ .indirect → Passing need free value
  | stack : ¬Fits need free → OnStack free value → value.byVal = false →
    value.pieces = [⟨.int (value.storageSize * 8), 0⟩] → Passing need free value
  | memory : ¬Fits need free → ¬OnStack free value → value.byVal = true →
    value.kind = .indirect → Passing need free value

/-- What a parameter does with the free registers : all of its pieces are in registers or
none is, and a record is passed as its need says. -/
structure Assigned (need : LlvmType → Option (ℕ × ℕ)) (free : ℕ × ℕ) (value : NativeABIValue) :
    Prop where
  whole : value.byVal = true ∨ InRegisters free value ∨ ∀ piece ∈ value.pieces,
    (if isWord piece.type then free.1 else free.2) = 0
  record : value.storageType.isStruct = true → Passing (need value.storageType) free value

/-- The registers of a signature are accounted for. -/
structure Accounted (need : LlvmType → Option (ℕ × ℕ)) (signature : NativeABISignature) : Prop where
  general : signature.remainingGP +
    ((placed (if signature.result.sRet then 5 else 6, 8) signature.parameters).map
      generalCount).sum = if signature.result.sRet then 5 else 6
  vector : signature.remainingSSE +
    ((placed (if signature.result.sRet then 5 else 6, 8) signature.parameters).map
      vectorCount).sum = 8
  assigned : ∀ entry ∈ registersBefore (if signature.result.sRet then 5 else 6, 8)
    signature.parameters, Assigned need entry.2 entry.1

/-! ## The register loop -/

theorem takeRegisters_eq (value : NativeABIValue) (free : ℕ × ℕ) :
    takeRegisters true value free.1 free.2 = left free value := by
  by_cases h : InRegisters free value
  · rw [left, if_pos h]
    exact if_pos ⟨rfl, h⟩
  · rw [left, if_neg h]
    exact if_neg fun hfree => h hfree.2

theorem registersBefore_append (values more : List NativeABIValue) :
    ∀ free, registersBefore free (values ++ more) =
      registersBefore free values ++ registersBefore (values.foldl left free) more := by
  induction values with
  | nil => intro free; rfl
  | cons value values ih =>
    intro free
    rw [List.cons_append, registersBefore, ih, registersBefore, List.cons_append, List.foldl_cons]

/-- No register is counted twice, and none is lost. -/
theorem foldl_left (values : List NativeABIValue) :
    ∀ free, (values.foldl left free).1 + ((placed free values).map generalCount).sum = free.1 ∧
      (values.foldl left free).2 + ((placed free values).map vectorCount).sum = free.2 := by
  induction values with
  | nil => intro free; simp [placed, registersBefore]
  | cons value values ih =>
    intro free
    obtain ⟨hgeneral, hvector⟩ := ih (left free value)
    simp only [placed] at hgeneral hvector
    rw [List.foldl_cons, placed, registersBefore, List.filter_cons]
    by_cases h : InRegisters free value
    · have hleft : left free value =
          (free.1 - generalCount value, free.2 - vectorCount value) := if_pos h
      have hfirst := h.2.1
      have hsecond := h.2.2
      rw [if_pos (by simpa using h), List.map_cons, List.map_cons, List.map_cons, List.sum_cons,
        List.sum_cons]
      rw [hleft] at hgeneral hvector ⊢
      dsimp only at hgeneral hvector ⊢
      omega
    · have hleft : left free value = free := if_neg h
      rw [if_neg (by simpa using h)]
      rw [hleft] at hgeneral hvector ⊢
      exact ⟨hgeneral, hvector⟩

/-- A value of one piece is in a register or finds its bank empty. -/
theorem whole_of_single {free : ℕ × ℕ} {value : NativeABIValue} {piece : NativeABIPiece}
    (hpieces : value.pieces = [piece]) (hbyVal : value.byVal = false) :
    InRegisters free value ∨ ∀ piece ∈ value.pieces,
      (if isWord piece.type then free.1 else free.2) = 0 := by
  by_cases h : InRegisters free value
  · exact .inl h
  · refine .inr fun other hother => ?_
    obtain rfl : other = piece := by simpa [hpieces] using hother
    simp only [InRegisters, generalCount, vectorCount, hpieces, hbyVal, true_and,
      List.countP_singleton, not_and] at h
    cases hword : isWord other.type <;> simp_all

theorem Passing.whole {need : Option (ℕ × ℕ)} {free : ℕ × ℕ} {value : NativeABIValue}
    (h : Passing need free value) :
    value.byVal = true ∨ InRegisters free value ∨ ∀ piece ∈ value.pieces,
      (if isWord piece.type then free.1 else free.2) = 0 := by
  cases h with
  | registers _ hin _ => exact .inr (.inl hin)
  | stack _ hstack hbyVal hpieces => exact .inr (whole_of_single hpieces hbyVal)
  | memory _ _ hbyVal _ => exact .inl hbyVal

/-! ## Pieces that are rewritten -/

/-- The pieces of an eightbyte. -/
inductive RegisterPiece : LlvmType → Prop
  | int (width : ℕ) : width ≤ 64 → RegisterPiece (.int width)
  | pointer (addressSpace : ℕ) : RegisterPiece (.scalar (.pointer addressSpace))
  | float : RegisterPiece .floatTy
  | double : RegisterPiece .doubleTy
  | vector : RegisterPiece (.vector (.floating .float) 2)

theorem integerAlign_dvd {width : ℕ} (h : width ≤ 64) :
    ((layout true).abiAlign (.int width)).value ∣ 8 := by
  rw [DataLayout.abiAlign, DataLayout.scalarAlign, DataLayout.integerAlign]
  simp only [layout, target, NativeTarget.layout, NativeTarget.smallIntegers, if_true,
    List.cons_append, List.nil_append, List.find?_cons, h, decide_true]
  by_cases h1 : width ≤ 1
  · simp [h1]
  by_cases h8 : width ≤ 8
  · simp [h1, h8]
  by_cases h16 : width ≤ 16
  · simp only [h1, h8, h16, decide_true, decide_false]
    decide
  by_cases h32 : width ≤ 32
  · simp only [h1, h8, h16, h32, decide_true, decide_false]
    decide
  · simp only [h1, h8, h16, h32, decide_false]
    decide

theorem pointerAlign_dvd (addressSpace : ℕ) :
    ((layout true).abiAlign (.scalar (.pointer addressSpace))).value ∣ 8 := by
  rw [DataLayout.abiAlign, DataLayout.scalarAlign, DataLayout.pointerSize]
  simp only [layout, target, NativeTarget.layout, if_true, List.lookup_cons, List.lookup_nil]
  split
  · decide
  · split
    · decide
    · split <;> decide

theorem align_dvd_eight {type : LlvmType} (h : RegisterPiece type) :
    ((layout true).abiAlign type).value ∣ 8 := by
  cases h with
  | int width hwidth => exact integerAlign_dvd hwidth
  | pointer addressSpace => exact pointerAlign_dvd addressSpace
  | float => decide
  | double => decide
  | vector => decide

theorem RegisterPiece.isWord_of_narrow {low high : LlvmType} (hlow : RegisterPiece low)
    (hhigh : RegisterPiece high) (hne : low ≠ .floatTy)
    (h : alignTo ((layout true).allocSize low) ((layout true).abiAlign high) ≠ 8) :
    isWord low = true := by
  cases hlow with
  | int => rfl
  | pointer => rfl
  | float => exact absurd rfl hne
  | double => exact absurd (alignTo_of_dvd (align_dvd_eight hhigh)) h
  | vector => exact absurd (alignTo_of_dvd (align_dvd_eight hhigh)) h

/-- Widening the first of two pieces leaves it in its bank. -/
theorem map_isWord_widen {pieces : List NativeABIPiece}
    (h : ∀ piece ∈ pieces, RegisterPiece piece.type) :
    (widen true pieces).map (fun piece => isWord piece.type) =
      pieces.map fun piece => isWord piece.type := by
  unfold widen
  split
  · next low high =>
    split
    · next hnarrow =>
      simp only [List.map_cons, List.map_nil, List.cons.injEq, and_true]
      split
      · next hfloat =>
        rw [hfloat]
        rfl
      · next hfloat =>
        rw [RegisterPiece.isWord_of_narrow (h low (by simp)) (h high (by simp)) hfloat hnarrow]
        rfl
    · rfl
  · rfl

/-- The pieces of classes whose flags say the bank take the registers that were counted. -/
theorem counts_widen (classes : List (NativeABIPiece × Bool)) (value : NativeABIValue)
    (hpieces : value.pieces = widen true (classes.map Prod.fst))
    (hregister : ∀ entry ∈ classes, RegisterPiece entry.1.type)
    (hflag : ∀ entry ∈ classes, entry.2 = isWord entry.1.type) :
    generalCount value = classes.countP (fun entry => entry.2) ∧
      vectorCount value = classes.countP (fun entry => !entry.2) := by
  have hmap : value.pieces.map (fun piece => isWord piece.type) = classes.map Prod.snd := by
    rw [hpieces, map_isWord_widen, List.map_map]
    · exact List.map_congr_left fun entry hentry => (hflag entry hentry).symm
    · intro piece hpiece
      obtain ⟨entry, hentry, rfl⟩ := List.mem_map.mp hpiece
      exact hregister entry hentry
  have hcount : ∀ f : Bool → Bool, value.pieces.countP (fun piece => f (isWord piece.type)) =
      classes.countP fun entry => f entry.2 := by
    intro f
    have hleft : (value.pieces.map fun piece => isWord piece.type).countP f = _ :=
      List.countP_map
    have hright : (classes.map Prod.snd).countP f = _ := List.countP_map
    rw [hmap, hright] at hleft
    exact hleft.symm
  exact ⟨hcount fun word => word, hcount fun word => !word⟩

theorem Passing.begin {need : Option (ℕ × ℕ)} {free : ℕ × ℕ} {value : NativeABIValue}
    (h : Passing need free value) (start : ℕ) :
    Passing need free { value with nativeBegin := start } := by
  cases h with
  | registers hneed hin hkind => exact .registers hneed hin hkind
  | stack hfits hstack hbyVal hpieces => exact .stack hfits hstack hbyVal hpieces
  | memory hfits hstack hbyVal hkind => exact .memory hfits hstack hbyVal hkind

/-- A record whose need fits the free registers. -/
theorem Passing.of_classes {need : Option (ℕ × ℕ)} {free : ℕ × ℕ} {value : NativeABIValue}
    {classes : List (NativeABIPiece × Bool)}
    (hneed : need = some (classes.countP fun entry => entry.2,
      classes.countP fun entry => !entry.2))
    (hregister : ∀ entry ∈ classes, RegisterPiece entry.1.type ∧ entry.2 = isWord entry.1.type)
    (hfits : ¬((classes.countP fun entry => entry.2) > free.1 ∨
      (classes.countP fun entry => !entry.2) > free.2))
    (hpieces : value.pieces = widen true (classes.map Prod.fst)) (hbyVal : value.byVal = false)
    (hkind : value.kind ≠ .indirect) : Passing need free value := by
  obtain ⟨hgeneral, hvector⟩ := counts_widen classes value hpieces
    (fun entry hentry => (hregister entry hentry).1)
    (fun entry hentry => (hregister entry hentry).2)
  refine .registers (by rw [hneed, hgeneral, hvector]) ⟨hbyVal, ?_, ?_⟩ hkind
  · rw [hgeneral]
    omega
  · rw [hvector]
    omega

/-- A record whose need does not fit. -/
theorem not_fits_of_classes {need : Option (ℕ × ℕ)} {free : ℕ × ℕ}
    {classes : List (NativeABIPiece × Bool)}
    (hneed : need = some (classes.countP fun entry => entry.2,
      classes.countP fun entry => !entry.2))
    (h : (classes.countP fun entry => entry.2) > free.1 ∨
      (classes.countP fun entry => !entry.2) > free.2) : ¬Fits need free := by
  rintro ⟨_, _, hneed', hgeneral, hvector⟩
  obtain ⟨rfl, rfl⟩ := Prod.mk.inj (Option.some.inj (hneed.symm.trans hneed'))
  omega

/-! ## Ordered records -/

/-- The registers that the eightbytes of a record need, unless it is in memory. -/
def need (type : LlvmType) : Option (ℕ × ℕ) :=
  let size := (value true type).storageSize
  if size > 16 then none
  else
    match (eightbyteOffsets size).mapM (eightbyte size (leaves true type 0)) with
    | .error _ => none
    | .ok classes =>
      some (classes.countP fun entry => entry.2, classes.countP fun entry => !entry.2)

variable {records : List StructType}

theorem registerPiece_of_scalar {type : LlvmType} (h : NativeAbi.scalar type true = true) :
    RegisterPiece type := by
  have hmem := NativeAbi.scalar_field_iff.mp h
  simp only [NativeAbi.fieldScalars, List.mem_cons, List.not_mem_nil, or_false] at hmem
  rcases hmem with rfl | rfl | rfl | rfl | rfl | rfl | rfl
  · exact .int 8 (by decide)
  · exact .int 16 (by decide)
  · exact .int 32 (by decide)
  · exact .int 64 (by decide)
  · exact .float
  · exact .double
  · exact .pointer 0

theorem eightbytePiece_register {size offset : ℕ} {leaves : List Leaf} {piece : LlvmType}
    (h : eightbytePiece size offset leaves = .ok piece)
    (hscalar : ∀ leaf ∈ leaves, NativeAbi.scalar leaf.type true = true) :
    RegisterPiece piece ∧ (leaves.any fun leaf => isWord leaf.type) = isWord piece := by
  rcases leaves with _ | ⟨first, rest⟩
  · simp [eightbytePiece] at h
  have hfirst := registerPiece_of_scalar (hscalar first (by simp))
  simp only [eightbytePiece] at h
  split_ifs at h with hany hsingle
  · obtain rfl : first.type = piece := by simpa using h
    exact ⟨hfirst, hany.trans hsingle.2.2.symm⟩
  · obtain rfl : LlvmType.int (8 * min 8 (size - offset)) = piece := by simpa using h
    exact ⟨.int _ (by omega), hany⟩
  · have hnone : (List.any (first :: rest) fun leaf => isWord leaf.type) = false := by
      simpa using hany
    have hword : isWord first.type = false := by
      rw [List.any_cons, Bool.or_eq_false_iff] at hnone
      exact hnone.1
    obtain ⟨_, -, h⟩ := Checked.bind_ok.mp h
    rcases rest with _ | ⟨second, _ | ⟨third, rest⟩⟩
    · obtain rfl : first.type = piece := by simpa using h
      exact ⟨hfirst, hnone.trans hword.symm⟩
    · obtain ⟨_, -, h⟩ := Checked.bind_ok.mp h
      obtain rfl : LlvmType.vector (.floating .float) 2 = piece := by simpa using h
      exact ⟨.vector, hnone⟩
    · simp at h

/-- Each eightbyte of a qualified record has a piece of its own bank. -/
theorem eightbytes_register {type : LlvmType} (hqualified : Qualified (layout true) records type)
    {size : ℕ} {classes : List (NativeABIPiece × Bool)}
    (h : (eightbyteOffsets size).mapM (eightbyte size (leaves true type 0)) = .ok classes) :
    ∀ entry ∈ classes, RegisterPiece entry.1.type ∧ entry.2 = isWord entry.1.type := by
  intro entry hentry
  obtain ⟨offset, -, heightbyte⟩ :=
    Checked.exists_of_forall₂_right (Checked.mapM_ok.mp h) hentry
  simp only [eightbyte, Checked.bind_ok, Checked.pure_eq_ok, Except.ok.injEq] at heightbyte
  obtain ⟨chunk, hchunk, piece, hpiece, rfl⟩ := heightbyte
  refine eightbytePiece_register hpiece fun leaf hleaf => ?_
  rw [(chunk_ok.mp hchunk).1] at hleaf
  exact (leaves_within hqualified leaf (List.mem_filter.mp hleaf).1).scalar

theorem classifyEightbytes_passing {type : LlvmType}
    (hqualified : Qualified (layout true) records type) {free : ℕ × ℕ} {native : NativeABIValue}
    (h : classifyEightbytes true type false free.1 free.2 = .ok native) :
    Passing (need type) free native := by
  unfold classifyEightbytes at h
  dsimp only at h
  by_cases hbig : (value true type).storageSize > 16
  · rw [if_pos hbig] at h
    obtain rfl := Except.ok.inj h
    refine .memory ?_ ?_ rfl rfl
    · rintro ⟨_, _, hneed, -⟩
      rw [need, if_pos hbig] at hneed
      simp at hneed
    · rintro ⟨-, hsmall, -⟩
      have : (value true type).storageSize ≤ 8 := hsmall
      omega
  rw [if_neg hbig] at h
  obtain ⟨classes, hclasses, h⟩ := Checked.bind_ok.mp h
  have hneed : need type = some (classes.countP fun entry => entry.2,
      classes.countP fun entry => !entry.2) := by
    unfold need
    simp only [if_neg hbig, hclasses]
  have hregister := eightbytes_register hqualified hclasses
  split_ifs at h with hexhausted hstack
  · obtain rfl := Except.ok.inj h
    exact .stack (not_fits_of_classes hneed hexhausted.2) hstack (byVal_value type) rfl
  · obtain rfl := Except.ok.inj h
    exact .memory (not_fits_of_classes hneed hexhausted.2) hstack rfl rfl
  · obtain rfl := Except.ok.inj h
    refine .of_classes hneed hregister (not_and.mp hexhausted rfl) rfl (byVal_value type) ?_
    rw [kind_pieced]
    split <;> simp

/-- What a classified parameter does with the free registers. -/
theorem classify_assigned {type : LlvmType} (free : ℕ × ℕ) {validated validated' : List LlvmType}
    {native : NativeABIValue}
    (h : classify true records type false free.1 free.2 validated = .ok (native, validated'))
    (hvalidated : ∀ t ∈ validated, Qualified (layout true) records t) :
    Assigned need free native := by
  have hstorage := (classify_ok h hvalidated).1.storage
  unfold classify at h
  by_cases hvoid : type = .void
  · rw [if_pos hvoid] at h
    simp at h
  rw [if_neg hvoid] at h
  by_cases hscalar : NativeAbi.scalar type false = true
  · rw [if_pos hscalar] at h
    obtain ⟨rfl, -⟩ := Prod.mk.inj (Except.ok.inj h)
    refine ⟨.inr (whole_of_single rfl (byVal_value type)), fun hstruct => ?_⟩
    rw [hstorage] at hstruct
    cases type <;> simp_all [LlvmType.isStruct, NativeAbi.scalar]
  rw [if_neg hscalar] at h
  split at h
  · obtain ⟨validated₁, hvalidate, h⟩ := Checked.bind_ok.mp h
    rw [if_pos rfl] at h
    obtain ⟨native', hnative, h⟩ := Checked.bind_ok.mp h
    obtain ⟨rfl, -⟩ := Prod.mk.inj (Except.ok.inj h)
    have hpassing := classifyEightbytes_passing (validate_ok hvalidate hvalidated).1 hnative
    exact ⟨hpassing.whole, fun _ => hstorage ▸ hpassing⟩
  · simp at h

/-- The parameters placed so far, and the registers they leave. -/
structure Registers.Assigned (start : ℕ × ℕ) (records : List StructType) (state : Registers) :
    Prop where
  free : (state.freeGP, state.freeSSE) = state.parameters.foldl left start
  assigned : ∀ entry ∈ registersBefore start state.parameters,
    NativeX86Abi.Assigned need entry.2 entry.1
  validated : ∀ t ∈ state.validated, Qualified (layout true) records t

theorem classifyParameter_assigned {start : ℕ × ℕ} {parameter : LlvmType}
    {state state' : Registers} (hstate : state.Assigned start records)
    (h : classifyParameter true records state parameter = .ok state') :
    state'.Assigned start records := by
  obtain ⟨⟨native, validated⟩, hnative, h⟩ := Checked.bind_ok.mp h
  have hvalidated := (classify_ok hnative hstate.validated).2
  have hassigned : NativeX86Abi.Assigned need (state.parameters.foldl left start) native := by
    rw [← hstate.free]
    exact classify_assigned (state.freeGP, state.freeSSE) hnative hstate.validated
  obtain rfl := Except.ok.inj h
  refine ⟨?_, ?_, hvalidated⟩
  · rw [List.foldl_append, ← hstate.free]
    exact takeRegisters_eq _ (state.freeGP, state.freeSSE)
  · intro entry hentry
    rw [registersBefore_append] at hentry
    rcases List.mem_append.mp hentry with hentry | hentry
    · exact hstate.assigned entry hentry
    · obtain rfl := List.mem_singleton.mp hentry
      exact ⟨hassigned.whole, fun hstruct => (hassigned.record hstruct).begin _⟩

theorem classifyParameters_assigned {start : ℕ × ℕ} {parameters : List LlvmType}
    {state state' : Registers} (hstate : state.Assigned start records)
    (h : parameters.foldlM (classifyParameter true records) state = .ok state') :
    state'.Assigned start records :=
  @Checked.foldlM_invariant _ _ _ (fun _ state => state.Assigned start records) [] _ _ _ hstate
    (fun _ _ _ _ _ _ hstate hstep => classifyParameter_assigned hstate hstep) h

theorem accounted_of_assigned {need : LlvmType → Option (ℕ × ℕ)} {signature : NativeABISignature}
    (hfree : (signature.remainingGP, signature.remainingSSE) =
      signature.parameters.foldl left (if signature.result.sRet then 5 else 6, 8))
    (hassigned : ∀ entry ∈ registersBefore (if signature.result.sRet then 5 else 6, 8)
      signature.parameters, Assigned need entry.2 entry.1) : Accounted need signature := by
  obtain ⟨hgeneral, hvector⟩ :=
    foldl_left signature.parameters (if signature.result.sRet then 5 else 6, 8)
  rw [← hfree] at hgeneral hvector
  exact ⟨hgeneral, hvector, hassigned⟩

theorem classifyNativeABI_accounted {logical : FunctionType} {signature : NativeABISignature}
    (h : classifyNativeABI true records logical = .ok signature) : Accounted need signature := by
  obtain ⟨⟨result, validated⟩, hresult, h⟩ := Checked.bind_ok.mp h
  obtain ⟨state, hstate, h⟩ := Checked.bind_ok.mp h
  obtain ⟨-, hvalidated⟩ := classify_ok hresult (by simp)
  obtain rfl := Except.ok.inj h
  have hrun : state.Assigned (if result.sRet then 5 else 6, 8) records :=
    classifyParameters_assigned
      ⟨by cases result.sRet <;> rfl, by simp [registersBefore], hvalidated⟩ hstate
  exact accounted_of_assigned hrun.free hrun.assigned

end NativeX86Abi

namespace NativeX86LayoutAbi

open NativeX86Abi

/-! ## Semantic layouts -/

variable (records : List NativeABIRecordLayout) (memo : Memo)

/-- The registers that the eightbytes of a record need, unless it is in memory. -/
def need (type : LlvmType) : Option (ℕ × ℕ) :=
  match memo.semanticInfo.lookup type with
  | none => none
  | some information =>
    if information.size > 16 then none
    else
      match gather true records memo (nesting records) type 0 ([], false) with
      | none => none
      | some (spans, unaligned) =>
        if unaligned then none
        else
          match (eightbyteOffsets information.size).mapM
            (eightbyte true type information.size spans) with
          | .error _ => none
          | .ok classes =>
            some ((classes.filterMap id).countP fun entry => entry.2,
              (classes.filterMap id).countP fun entry => !entry.2)

variable {records memo}

theorem integerPiece_register (size offset : ℕ) (spans : List Span) (preferredType : Option LlvmType) :
    RegisterPiece (integerPiece size offset spans preferredType) ∧
      isWord (integerPiece size offset spans preferredType) = true := by
  have hbytes : RegisterPiece (.int (min 8 (size - offset) * 8)) := .int _ (by omega)
  unfold integerPiece
  split
  · exact ⟨.pointer _, rfl⟩
  · split_ifs with h64 hnarrow hlater
    · exact ⟨.int _ h64.le, rfl⟩
    · exact ⟨hbytes, rfl⟩
    · exact ⟨.int _ (by omega), rfl⟩
    · exact ⟨hbytes, rfl⟩
  · exact ⟨hbytes, rfl⟩

theorem ssePiece_register (type : LlvmType) (offset : ℕ) (preferredType : Option LlvmType) :
    RegisterPiece (ssePiece true type offset preferredType) ∧
      isWord (ssePiece true type offset preferredType) = false := by
  unfold ssePiece
  split_ifs
  · exact ⟨.vector, rfl⟩
  · exact ⟨.float, rfl⟩
  · exact ⟨.double, rfl⟩

theorem eightbytes_register {type : LlvmType} {size : ℕ} {spans : List Span}
    {classes : List (Option (NativeABIPiece × Bool))}
    (h : (eightbyteOffsets size).mapM (eightbyte true type size spans) = .ok classes) :
    ∀ entry ∈ classes.filterMap id,
      RegisterPiece entry.1.type ∧ entry.2 = isWord entry.1.type := by
  intro entry hentry
  obtain ⟨found, hfound, rfl⟩ := List.mem_filterMap.mp hentry
  obtain ⟨offset, -, heightbyte⟩ :=
    Checked.exists_of_forall₂_right (Checked.mapM_ok.mp h) hfound
  unfold eightbyte at heightbyte
  split_ifs at heightbyte
  · simp at heightbyte
  · simp only [Checked.bind_ok, Checked.pure_eq_ok, Except.ok.injEq] at heightbyte
    obtain ⟨-, -, heq⟩ := heightbyte
    obtain rfl := Option.some.inj heq
    dsimp only
    split_ifs with hinteger
    · obtain ⟨hpiece, hword⟩ := integerPiece_register size offset spans (preferred true type offset)
      exact ⟨hpiece, hinteger.trans hword.symm⟩
    · obtain ⟨hpiece, hword⟩ := ssePiece_register type offset (preferred true type offset)
      exact ⟨hpiece, by rw [hword]; simpa using hinteger⟩

/-- A record that cannot have registers is in memory or on the scalar stack. -/
theorem memory_passing {need : Option (ℕ × ℕ)} {free : ℕ × ℕ} (hfits : ¬Fits need free)
    (type : LlvmType) (information : TypeInfo) :
    Passing need free (memory true type information false free.1) := by
  unfold memory
  by_cases hstack : free.1 = 0 ∧ information.size ≤ 8 ∧ information.alignment ≤ .of 8
  · rw [if_pos ⟨rfl, rfl, hstack⟩]
    exact .stack hfits hstack rfl rfl
  · rw [if_neg fun h => hstack h.2.2]
    exact .memory hfits hstack rfl rfl

theorem classifyEightbytes_passing {type : LlvmType} {information : TypeInfo}
    (hlookup : memo.semanticInfo.lookup type = some information) {free : ℕ × ℕ}
    {native : NativeABIValue}
    (h : classifyEightbytes true records memo type information false free.1 free.2 = .ok native) :
    Passing (need records memo type) free native := by
  have hnone : need records memo type = none → ¬Fits (need records memo type) free := by
    rintro hneed ⟨_, _, hsome, -⟩
    rw [hneed] at hsome
    simp at hsome
  unfold classifyEightbytes at h
  by_cases hbig : information.size > 16
  · rw [if_pos hbig] at h
    obtain rfl := Except.ok.inj h
    refine memory_passing (hnone ?_) type information
    simp only [need, hlookup, if_pos hbig]
  rw [if_neg hbig] at h
  split at h
  · simp [failure] at h
  · next spans unaligned hgather =>
    by_cases hunaligned : unaligned = true
    · rw [if_pos hunaligned] at h
      obtain rfl := Except.ok.inj h
      refine memory_passing (hnone ?_) type information
      simp only [need, hlookup, if_neg hbig, hgather, if_pos hunaligned]
    rw [if_neg hunaligned] at h
    obtain ⟨classes, hclasses, h⟩ := Checked.bind_ok.mp h
    obtain ⟨_, -, h⟩ := Checked.bind_ok.mp h
    have hneed : need records memo type =
        some ((classes.filterMap id).countP fun entry => entry.2,
          (classes.filterMap id).countP fun entry => !entry.2) := by
      simp only [need, hlookup, if_neg hbig, hgather, if_neg hunaligned, hclasses]
    have hregister := eightbytes_register hclasses
    dsimp only at h
    split_ifs at h with hexhausted
    · obtain rfl := Except.ok.inj h
      exact memory_passing (not_fits_of_classes hneed hexhausted.2) type information
    · obtain rfl := Except.ok.inj h
      exact .of_classes hneed hregister (not_and.mp hexhausted rfl) rfl rfl (by simp)
    · obtain rfl := Except.ok.inj h
      exact .of_classes hneed hregister (not_and.mp hexhausted rfl) rfl rfl (by simp)

theorem storageType_classifyEightbytes {type : LlvmType} {information : TypeInfo}
    {freeGP freeSSE : ℕ} {native : NativeABIValue}
    (h : classifyEightbytes true records memo type information false freeGP freeSSE =
      .ok native) : native.storageType = type := by
  have hmemory : ∀ freeGP, (memory true type information false freeGP).storageType = type := by
    intro freeGP
    unfold memory
    split <;> rfl
  unfold classifyEightbytes at h
  split at h
  · obtain rfl := Except.ok.inj h
    exact hmemory freeGP
  · split at h
    · simp [failure] at h
    · split at h
      · obtain rfl := Except.ok.inj h
        exact hmemory freeGP
      · obtain ⟨classes, -, h⟩ := Checked.bind_ok.mp h
        obtain ⟨_, -, h⟩ := Checked.bind_ok.mp h
        dsimp only at h
        split_ifs at h
        · obtain rfl := Except.ok.inj h
          exact hmemory freeGP
        · obtain rfl := Except.ok.inj h
          rfl
        · obtain rfl := Except.ok.inj h
          rfl

theorem classify_assigned {type : LlvmType} (free : ℕ × ℕ) {native : NativeABIValue}
    (h : classify true records memo type false free.1 free.2 = .ok native) :
    Assigned (need records memo) free native := by
  unfold classify at h
  by_cases hvoid : type = .void
  · rw [if_pos hvoid] at h
    simp [failure] at h
  rw [if_neg hvoid] at h
  by_cases hscalar : scalar type = true ∨ type = .int 1
  · rw [if_pos hscalar] at h
    obtain rfl := Except.ok.inj h
    refine ⟨.inr (whole_of_single rfl rfl), fun hstruct => ?_⟩
    change type.isStruct = true at hstruct
    cases type <;> simp_all [LlvmType.isStruct, scalar]
  rw [if_neg hscalar] at h
  split at h
  · split at h
    · next description information hdescription hinformation =>
      rw [if_pos rfl] at h
      have hpassing := classifyEightbytes_passing hinformation h
      exact ⟨hpassing.whole, fun _ => storageType_classifyEightbytes h ▸ hpassing⟩
    · simp [failure] at h
  · simp [failure] at h

/-- The parameters placed so far, and the registers they leave. -/
structure Registers.Assigned (start : ℕ × ℕ) (records : List NativeABIRecordLayout) (memo : Memo)
    (state : Registers) : Prop where
  free : (state.freeGP, state.freeSSE) = state.parameters.foldl left start
  assigned : ∀ entry ∈ registersBefore start state.parameters,
    NativeX86Abi.Assigned (need records memo) entry.2 entry.1

theorem classifyParameter_assigned {start : ℕ × ℕ} {parameter : LlvmType}
    {state state' : Registers} (hstate : state.Assigned start records memo)
    (h : classifyParameter true records memo state parameter = .ok state') :
    state'.Assigned start records memo := by
  obtain ⟨native, hnative, h⟩ := Checked.bind_ok.mp h
  have hassigned : NativeX86Abi.Assigned (need records memo)
      (state.parameters.foldl left start) native := by
    rw [← hstate.free]
    exact classify_assigned (state.freeGP, state.freeSSE) hnative
  obtain rfl := Except.ok.inj h
  refine ⟨?_, ?_⟩
  · rw [List.foldl_append, ← hstate.free]
    exact takeRegisters_eq _ (state.freeGP, state.freeSSE)
  · intro entry hentry
    rw [registersBefore_append] at hentry
    rcases List.mem_append.mp hentry with hentry | hentry
    · exact hstate.assigned entry hentry
    · obtain rfl := List.mem_singleton.mp hentry
      exact ⟨hassigned.whole, fun hstruct => (hassigned.record hstruct).begin _⟩

theorem classifyParameters_assigned {start : ℕ × ℕ} {parameters : List LlvmType}
    {state state' : Registers} (hstate : state.Assigned start records memo)
    (h : parameters.foldlM (classifyParameter true records memo) state = .ok state') :
    state'.Assigned start records memo :=
  @Checked.foldlM_invariant _ _ _ (fun _ state => state.Assigned start records memo) [] _ _ _
    hstate (fun _ _ _ _ _ _ hstate hstep => classifyParameter_assigned hstate hstep) h

theorem classifyNativeLayoutABI_accounted {logical : FunctionType}
    {signature : NativeABISignature}
    (h : classifyNativeLayoutABI true records logical = .ok signature) :
    ∃ memo, initializeRecords true records = .ok memo ∧
      Accounted (need records memo) signature := by
  obtain ⟨memo, hmemo, h⟩ := Checked.bind_ok.mp h
  obtain ⟨result, hresult, h⟩ := Checked.bind_ok.mp h
  obtain ⟨state, hstate, h⟩ := Checked.bind_ok.mp h
  obtain rfl := Except.ok.inj h
  have hrun : state.Assigned (if result.sRet then 5 else 6, 8) records memo :=
    classifyParameters_assigned
      ⟨by cases result.sRet <;> rfl, by simp [registersBefore]⟩ hstate
  exact ⟨memo, hmemo, accounted_of_assigned hrun.free hrun.assigned⟩

end NativeX86LayoutAbi

theorem classifyNativeLayoutABI_ok {linked : List NativeTarget} {logical : FunctionType}
    {target : NativeTarget} {records : List NativeABIRecordLayout} {signature : NativeABISignature}
    (h : classifyNativeLayoutABI linked logical target.id records = .ok signature) :
    target.classifyLayout logical records = .ok signature := by
  unfold classifyNativeLayoutABI at h
  split at h
  · simp at h
  · next found hfound => rwa [findNativeTarget_id hfound] at h

/-- The registers of every x86-64 signature that either classifier accepts are accounted
for. -/
theorem classifyNativeABI_registers (linked : List NativeTarget) (logical : FunctionType)
    (signature : NativeABISignature) :
    (∀ ordered, classifyNativeABI linked logical NativeTarget.x86_64.id ordered = .ok signature →
      NativeX86Abi.Accounted NativeX86Abi.need signature) ∧
    ∀ records,
      classifyNativeLayoutABI linked logical NativeTarget.x86_64.id records = .ok signature →
      ∃ memo, NativeX86LayoutAbi.initializeRecords true records = .ok memo ∧
        NativeX86Abi.Accounted (NativeX86LayoutAbi.need records memo) signature :=
  ⟨fun _ h => NativeX86Abi.classifyNativeABI_accounted (classifyNativeABI_ok h),
    fun _ h => NativeX86LayoutAbi.classifyNativeLayoutABI_accounted
      (classifyNativeLayoutABI_ok h)⟩

/-- A record that is returned through a hidden pointer. -/
def wordTriple : StructType := ⟨some "word_triple", false, [.int 64, .int 64, .int 64]⟩

/-- A record that needs two general registers. -/
def wordPair : StructType := ⟨some "word_pair", false, [.int 64, .int 64]⟩

/-- A record that fits a stack slot. -/
def wordSingle : StructType := ⟨some "word_single", false, [.int 64]⟩

/-- A function whose words leave one general register for its records : it is too few for a
pair, and a sample takes it. -/
def crowdedFunction : FunctionType :=
  ⟨wordTriple.toType, List.replicate 4 (.int 64) ++
    [wordPair.toType, sample.toType, .int 32, wordSingle.toType, wordPair.toType], false⟩

def crowdedRecords : List StructType := [wordTriple, wordPair, sample, wordSingle]

def crowdedLayouts : List NativeABIRecordLayout :=
  crowdedRecords.map (StructType.naturalLayout NativeTarget.x86_64.layout)

/-- By both readings the pairs go to memory as wholes, and what follows the last general register
goes to the stack. -/
theorem crowdedFunction_registers : ∃ signature memo,
    classifyNativeABI [.x86_64] crowdedFunction NativeTarget.x86_64.id
      crowdedRecords = .ok signature ∧
    NativeX86LayoutAbi.initializeRecords true crowdedLayouts = .ok memo ∧
    (signature.remainingGP, signature.remainingSSE) = (0, 7) ∧
    signature.parameters.map NativeABIValue.byVal =
      [false, false, false, false, true, false, false, false, true] ∧
    NativeX86Abi.Accounted NativeX86Abi.need signature ∧
    NativeX86Abi.Accounted (NativeX86LayoutAbi.need crowdedLayouts memo) signature := by
  have hregisters : (classifyNativeABI [.x86_64] crowdedFunction NativeTarget.x86_64.id
      crowdedRecords).toOption.map (fun signature =>
        ((signature.remainingGP, signature.remainingSSE),
          signature.parameters.map NativeABIValue.byVal)) =
      some ((0, 7), [false, false, false, false, true, false, false, false, true]) := by
    decide +kernel
  have hsame : classifyNativeLayoutABI [.x86_64] crowdedFunction NativeTarget.x86_64.id
      crowdedLayouts = classifyNativeABI [.x86_64] crowdedFunction NativeTarget.x86_64.id
        crowdedRecords := by decide +kernel
  rcases h : classifyNativeABI [.x86_64] crowdedFunction NativeTarget.x86_64.id
    crowdedRecords with message | signature
  · rw [h] at hregisters
    exact nomatch hregisters
  rw [h] at hregisters hsame
  obtain ⟨hcounts, hbyVal⟩ := Prod.mk.inj (Option.some.inj hregisters)
  have hboth := classifyNativeABI_registers [.x86_64] crowdedFunction signature
  obtain ⟨memo, hmemo, hlayout⟩ := hboth.2 _ hsame
  exact ⟨signature, memo, rfl, hmemo, hcounts, hbyVal, hboth.1 _ h, hlayout⟩

/-- A record of a float. -/
def floatRecord : StructType := ⟨some "float_record", false, [.floatTy]⟩

/-- A function that takes a record of a float after every register is taken. -/
def exhaustedFunction : FunctionType :=
  ⟨.void, List.replicate 6 (.int 64) ++ List.replicate 8 .doubleTy ++ [floatRecord.toType], false⟩

/-- With every register taken, a record that needs a vector register goes to the scalar stack
as an integer : the register loop counts a general register for it. -/
theorem floatRecord_stack :
    NativeX86Abi.need floatRecord.toType = some (0, 1) ∧
      (classifyNativeABI [.x86_64] exhaustedFunction "x86_64" [floatRecord]).toOption.bind
          (fun signature => signature.parameters.getLast?.map fun parameter =>
            (NativeX86Abi.generalCount parameter, NativeX86Abi.vectorCount parameter)) =
        some (1, 0) :=
  ⟨by decide +kernel, by decide +kernel⟩

end Sela
