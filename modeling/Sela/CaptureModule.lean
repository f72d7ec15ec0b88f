import Mathlib.Data.List.Basic
import Std.Data.String.ToNat

/-!
# The symbols of a captured native module

What the producer reads of the global values of a native module: names, linkage and the
properties its import checks. Global values are identities, as pointers are in the source:
a `NativeSymbol` is a position in the module's globals or functions. A named global value has a
name of its own; the empty name stands for an unnamed one.
-/

namespace Sela

inductive Linkage
  | external
  | availableExternally
  | linkOnceAny
  | linkOnceODR
  | weakAny
  | weakODR
  | appending
  | internal
  | «private»
  | externalWeak
  | common
  deriving DecidableEq

/-- Linkage that no other module sees. -/
def Linkage.isLocal : Linkage → Bool
  | .internal | .private => true
  | _ => false

structure GlobalVariable where
  name : String
  linkage : Linkage
  addressSpace : ℕ := 0
  isThreadLocal : Bool := false
  isExternallyInitialized : Bool := false
  hasSection : Bool := false
  hasComdat : Bool := false

structure CapturedFunction where
  name : String
  linkage : Linkage
  isDeclaration : Bool
  callingConv : ℕ := 0
  hasPersonality : Bool := false
  hasPrefixData : Bool := false
  hasPrologueData : Bool := false
  hasSection : Bool := false
  hasComdat : Bool := false
  /-- The native intrinsic of this name, if there is one. -/
  intrinsicID : Option String := none
  /-- Whether the attributes are those of the intrinsic itself. -/
  intrinsicAttributes : Bool := false
  defaultVisibility : Bool := true
  isDSOLocal : Bool := false
  /-- The width of an integer result. -/
  resultWidth : Option ℕ := none
  /-- The width of each integer parameter. -/
  parameterWidths : List (Option ℕ) := []

/-- A global value of a module. -/
inductive NativeSymbol
  | global (index : ℕ)
  | function (index : ℕ)
  deriving DecidableEq

structure CaptureModule where
  globals : List GlobalVariable
  functions : List CapturedFunction
  /-- The symbol table holds a name once. -/
  distinct : ((globals.map GlobalVariable.name ++ functions.map CapturedFunction.name).filter
    (· ≠ "")).Nodup

namespace CapturedFunction

def isIntrinsic (function : CapturedFunction) : Bool :=
  "llvm.".toList.isPrefixOf function.name.toList

def debugFunction (function : CapturedFunction) : Bool :=
  "llvm.dbg.".toList.isPrefixOf function.name.toList

def byteSwapPrimitive (function : CapturedFunction) : Bool :=
  function.intrinsicID = some "bswap" && function.isDeclaration && function.intrinsicAttributes &&
    function.callingConv = 0 && !function.hasSection && !function.hasComdat &&
    function.defaultVisibility && !function.isDSOLocal && function.linkage = .external &&
    function.resultWidth ∈ [some 16, some 32, some 64]

def memoryIntrinsic (function : CapturedFunction) : Bool :=
  function.intrinsicID ∈ [some "memcpy", some "memmove", some "memset"]

end CapturedFunction

/-- The native intrinsics that have a public operation. -/
def intrinsicRegistry : List String :=
  ["assume", "expect", "prefetch", "fshl", "fshr", "umin", "umax", "smin", "smax", "ctlz", "cttz",
    "ctpop", "bitreverse", "vector_reduce_add", "vector_reduce_mul", "vector_reduce_and",
    "vector_reduce_or", "vector_reduce_xor", "uadd_with_overflow", "usub_with_overflow",
    "umul_with_overflow", "sadd_with_overflow", "ssub_with_overflow", "smul_with_overflow",
    "x86_avx512_pternlog_d_512", "x86_sse2_psrli_q", "x86_sse2_pslli_q", "x86_avx2_psrli_q",
    "x86_avx2_pslli_q", "x86_avx512_psrli_q_512", "x86_avx512_pslli_q_512", "aarch64_neon_umull"]

def findIntrinsic (intrinsic : Option String) : Bool :=
  intrinsic.any fun name => name ∈ intrinsicRegistry

/-- The spelling of a counter. -/
def numbered (stem : String) (index : ℕ) : String :=
  stem ++ toString index

theorem toList_numbered (stem : String) (index : ℕ) :
    (numbered stem index).toList = stem.toList ++ Nat.toDigits 10 index := by
  simp [numbered, Nat.toList_repr]

theorem numbered_inj {stem : String} {i j : ℕ} (h : numbered stem i = numbered stem j) : i = j := by
  have hlist := congrArg String.toList h
  rw [toList_numbered, toList_numbered] at hlist
  have hdigits : (Nat.repr i).toList = (Nat.repr j).toList := by
    rw [Nat.toList_repr, Nat.toList_repr]
    exact List.append_cancel_left hlist
  exact Nat.repr_injective (String.toList_inj.mp hdigits)

theorem isDigit_of_mem_numbered {stem : String} {index : ℕ} {c : Char}
    (h : c ∈ (numbered stem index).toList) : c ∈ stem.toList ∨ c.isDigit = true := by
  rw [toList_numbered, List.mem_append] at h
  exact h.imp id fun hc => Nat.isDigit_of_mem_toDigits (by decide) (by decide) hc

theorem numbered_ne {i j : ℕ} : numbered "g" i ≠ numbered "f" j := by
  intro h
  have hlist := congrArg String.toList h
  rw [toList_numbered, toList_numbered] at hlist
  simp at hlist

end Sela
