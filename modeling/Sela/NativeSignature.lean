import Sela.NativeX86LayoutAbi
import Sela.NativeArmAbi

/-!
# Classified signatures

The two classifiers of each target under one name each. Whatever target it is, a signature it returns
tiles the native parameter list, and the pieces of its records are never refused by the
access check (`classifyNativeABI_loadable`).
-/

namespace Sela

namespace NativeTarget

/-- The registered identity of a backend. -/
def id : NativeTarget → String
  | .x86_64 => "x86_64"
  | .i686 => "i686"
  | .armv7 => "armv7"
  | .aarch64 => "aarch64"

/-- The classifier of ordered records a backend provides. -/
def classify (target : NativeTarget) (logical : FunctionType) (ordered : List StructType) :
    Checked NativeABISignature :=
  match target with
  | .x86_64 => NativeX86Abi.classifyNativeABI true ordered logical
  | .i686 => NativeX86Abi.classifyNativeABI false ordered logical
  | .armv7 => NativeArmAbi.classifyNativeABI false ordered logical
  | .aarch64 => NativeArmAbi.classifyNativeABI true ordered logical

/-- The classifier of semantic layouts a backend provides. -/
def classifyLayout (target : NativeTarget) (logical : FunctionType)
    (records : List NativeABIRecordLayout) : Checked NativeABISignature :=
  match target with
  | .x86_64 => NativeX86LayoutAbi.classifyNativeLayoutABI true records logical
  | .i686 => NativeX86LayoutAbi.classifyNativeLayoutABI false records logical
  | .armv7 => NativeArmAbi.classifyNativeLayoutABI false records logical
  | .aarch64 => NativeArmAbi.classifyNativeLayoutABI true records logical

theorem id_injective {a b : NativeTarget} (h : a.id = b.id) : a = b := by
  cases a <;> cases b <;> first | rfl | exact absurd h (by decide)

theorem classify_wellFormed {target : NativeTarget} {logical : FunctionType}
    {ordered : List StructType} {signature : NativeABISignature}
    (h : target.classify logical ordered = .ok signature) :
    signature.WellFormed target.layout logical := by
  cases target with
  | x86_64 => exact NativeX86Abi.classifyNativeABI_wellFormed h
  | i686 => exact NativeX86Abi.classifyNativeABI_wellFormed h
  | armv7 => exact NativeArmAbi.classifyNativeABI_wellFormed h
  | aarch64 => exact NativeArmAbi.classifyNativeABI_wellFormed h

end NativeTarget

/-- The backend of an identity among those of the library. -/
def findNativeTarget (linked : List NativeTarget) (targetID : String) : Option NativeTarget :=
  linked.find? fun target => target.id = targetID

/-- Classify ordered records for a target of the library. -/
def classifyNativeABI (linked : List NativeTarget) (logical : FunctionType) (targetID : String)
    (ordered : List StructType) : Checked NativeABISignature :=
  match findNativeTarget linked targetID with
  | none => NativeAbi.failure "requested native target is unavailable in this Sela library"
  | some target => target.classify logical ordered

/-- Classify semantic layouts for a target of the library. -/
def classifyNativeLayoutABI (linked : List NativeTarget) (logical : FunctionType)
    (targetID : String) (records : List NativeABIRecordLayout) : Checked NativeABISignature :=
  match findNativeTarget linked targetID with
  | none => NativeAbi.failure "requested native target is unavailable in this Sela library"
  | some target => target.classifyLayout logical records

theorem findNativeTarget_id {linked : List NativeTarget} {target found : NativeTarget}
    (h : findNativeTarget linked target.id = some found) : found = target := by
  have hid : found.id = target.id := by simpa using List.find?_some h
  exact NativeTarget.id_injective hid

theorem classifyNativeABI_ok {linked : List NativeTarget} {logical : FunctionType}
    {target : NativeTarget} {ordered : List StructType} {signature : NativeABISignature}
    (h : classifyNativeABI linked logical target.id ordered = .ok signature) :
    target.classify logical ordered = .ok signature := by
  unfold classifyNativeABI at h
  split at h
  · simp at h
  · next found hfound => rwa [findNativeTarget_id hfound] at h

/-- A classified signature is well formed and loadable : the hidden result pointer and the
intervals of the parameters tile the native parameter list, each holding the types of its
value; the native result has the form of its kind; and every record that is not indirect has
pieces, in order inside its storage, which the access check accepts. -/
theorem classifyNativeABI_loadable {linked : List NativeTarget} {logical : FunctionType}
    {target : NativeTarget} {ordered : List StructType} {signature : NativeABISignature}
    (h : classifyNativeABI linked logical target.id ordered = .ok signature) :
    signature.WellFormed target.layout logical ∧
      (∀ parameter ∈ signature.parameters,
        (signature.nativeType.params.drop parameter.nativeBegin).take parameter.nativeCount =
          parameter.nativeTypes) ∧
      ∀ value ∈ signature.result :: signature.parameters,
        value.storageType.isStruct = true → value.kind ≠ .indirect →
          value.pieces ≠ [] ∧ NativeAbi.Ordered target.layout value ∧
          (∀ piece ∈ value.pieces, piece.offset < value.storageSize) ∧
          ∀ access : NativeAbi.Access, access.At target.layout →
            NativeAbi.validateAccess access value = .ok () := by
  have hwell := NativeTarget.classify_wellFormed (classifyNativeABI_ok h)
  refine ⟨hwell, fun parameter hparameter => ?_, fun value hvalue hstruct hkind => ?_⟩
  · rw [hwell.params]
    refine Tiles.interval ?_ hparameter
    simpa only [apply_ite List.length, List.length_singleton, List.length_nil] using hwell.tiles
  · have hloadable := hwell.loadable value hvalue hstruct hkind
    exact ⟨hloadable.nonempty, hloadable.ordered, hloadable.inside, fun access haccess =>
      NativeAbi.validateAccess_loadable hloadable hkind haccess⟩

/-- A record of a double and an integer. -/
def sample : StructType := ⟨some "sample", false, [.doubleTy, .int 32]⟩

/-- A function that takes a sample and an integer and returns a sample. -/
def sampleFunction : FunctionType := ⟨sample.toType, [sample.toType, .int 32], false⟩

/-- On x86-64 a sample takes a register of each bank. -/
def sampleSignature : NativeABISignature where
  nativeType :=
    ⟨.struct none false [.doubleTy, .int 32], [.doubleTy, .int 32, .int 32], false⟩
  result :=
    { NativeABIValue.blank sample.toType with
      kind := .expand
      storageSize := 16
      storageAlignment := .of 8
      abiAlignment := .of 8
      pieces := [⟨.doubleTy, 0⟩, ⟨.int 32, 8⟩]
      nativeCount := 2 }
  parameters :=
    [{ NativeABIValue.blank sample.toType with
        kind := .expand
        storageSize := 16
        storageAlignment := .of 8
        abiAlignment := .of 8
        pieces := [⟨.doubleTy, 0⟩, ⟨.int 32, 8⟩]
        nativeCount := 2 },
      { NativeABIValue.blank (.int 32) with
        storageSize := 4
        storageAlignment := .of 4
        abiAlignment := .of 4
        pieces := [⟨.int 32, 0⟩]
        nativeBegin := 2
        nativeCount := 1 }]
  sretIndex := none
  remainingGP := 4
  remainingSSE := 7

theorem sampleSignature_wellFormed :
    sampleSignature.WellFormed NativeTarget.x86_64.layout sampleFunction :=
  have h : classifyNativeABI [.x86_64] sampleFunction NativeTarget.x86_64.id [sample] =
      .ok sampleSignature := by decide +kernel
  (classifyNativeABI_loadable h).1

end Sela
