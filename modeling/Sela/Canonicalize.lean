import Mathlib.Algebra.Order.BigOperators.Group.List
import Mathlib.Algebra.Order.Group.Nat
import Mathlib.Algebra.Ring.Nat
import Mathlib.Data.List.Sort
import Sela.Association
import Sela.CaptureModule
import Sela.Checked

/-!
# Canonical text of a native module

Before two native modules are compared as text, their private names are replaced by generated
ones, in place and one at a time. The native symbol table renames apart: a symbol that asks
for a name another symbol holds gets that name with a suffix (`Naming`).

Two modules that differ in private names, and in the order of PHI lists, have one canonical
text exactly when no generated name is taken at the time it is asked for
(`canonicalize_text_iff`). The incoming pairs of every PHI are kept in any case.
-/

namespace Sela

/-! ## Native modules with their bodies -/

/-- An operand of a native instruction or initializer. Local values and blocks are numbered in
their function, global values are known by their identity. -/
inductive NativeOperand
  | symbol (id : ℕ)
  | value (number : ℕ)
  | block (number : ℕ)
  | literal (text : String)
  deriving DecidableEq

structure NativeMetadata where
  kind : String
  node : String
  /-- The node has itself as its only operand. -/
  selfOnly : Bool := false

/-- An instruction: its name, its opcode with types and flags, and its operands. A PHI has
incoming pairs of a block and a value. -/
structure CapturedInstruction where
  name : String := ""
  text : String
  isDebug : Bool := false
  operands : List NativeOperand := []
  incoming : List (ℕ × NativeOperand) := []
  metadata : List NativeMetadata := []

structure CapturedBlock where
  name : String := ""
  instructions : List CapturedInstruction

structure FunctionDefinition extends CapturedFunction where
  id : ℕ
  /-- Types and attributes that are not named strings. -/
  signature : String := ""
  attributes : List (String × String) := []
  arguments : List String := []
  blocks : List CapturedBlock := []

structure GlobalDefinition extends GlobalVariable where
  id : ℕ
  signature : String := ""
  initializer : List NativeOperand := []

structure ModuleContents where
  functions : List FunctionDefinition
  globals : List GlobalDefinition
  namedMetadata : List (String × String) := []
  /-- Name, behavior and value; the value of a flag that is no integer is missing. -/
  flags : List (String × ℕ × Option ℕ) := []
  identifier : String := ""
  sourceFileName : String := ""
  triple : String := ""
  layout : String := ""

def ModuleContents.names (module : ModuleContents) : List String :=
  module.functions.map (fun f => f.name) ++ module.globals.map (fun g => g.name)

/-- A module that the native verifier accepts. -/
structure VerifiedModule extends ModuleContents where
  /-- The symbol table holds a name once. -/
  distinct : (toModuleContents.names.filter (· ≠ "")).Nodup
  /-- Global values are distinct. -/
  identities : (toModuleContents.functions.map FunctionDefinition.id ++
    toModuleContents.globals.map GlobalDefinition.id).Nodup
  /-- Local functions are defined. -/
  locals : ∀ f ∈ functions, f.linkage.isLocal = true → f.isDeclaration = false
  /-- Intrinsics are not defined. -/
  intrinsics : ∀ f ∈ functions, f.isIntrinsic = true → f.isDeclaration = true
  /-- Declarations have no body. -/
  declarations : ∀ f ∈ functions, f.isDeclaration = true → f.blocks = []
  /-- A PHI has blocks of its function, and one value for each. -/
  phis : ∀ f ∈ functions, ∀ b ∈ f.blocks, ∀ i ∈ b.instructions, ∀ p ∈ i.incoming,
    p.1 < f.blocks.length ∧ ∀ q ∈ i.incoming, p.1 = q.1 → p = q

/-! ## The canonical form -/

/-- The code generation attributes of a target that are left out of the text. -/
structure Baseline where
  cpu : String
  features : String
  triple : String
  layout : String

/-- How the symbol table renames apart: the suffix of a name that is held. -/
structure Naming where
  suffix : List String → String → String
  fresh : ∀ held requested, requested ++ suffix held requested ∉ held
  nonempty : ∀ held requested, suffix held requested ≠ ""

/-- The name a symbol gets that asks for `requested` while the others hold `held`. -/
def setName (naming : Naming) (held : List String) (requested : String) : String :=
  if requested ∈ held then requested ++ naming.suffix held requested else requested

def baselineAttributes (target : Baseline) : List (String × String) :=
  [("target-cpu", target.cpu), ("target-features", target.features), ("tune-cpu", "generic"),
    ("min-legal-vector-width", "0")]

def keptMetadata (metadata : NativeMetadata) : Bool :=
  metadata.kind ∉ ["dbg", "tbaa", "tbaa.struct", "srcloc"] &&
    !(metadata.kind = "llvm.loop" && metadata.selfOnly)

/-- The position of a block in its function; a block of no function counts as the first. -/
def blockOrder (blocks : ℕ) (block : ℕ) : ℕ :=
  if block < blocks then block else 0

/-- The incoming pairs in the order of their blocks. -/
def sortIncoming (blocks : ℕ) (incoming : List (ℕ × NativeOperand)) : List (ℕ × NativeOperand) :=
  incoming.mergeSort fun p q => decide (blockOrder blocks p.1 ≤ blockOrder blocks q.1)

def canonicalInstruction (blocks : ℕ) (instruction : CapturedInstruction) : CapturedInstruction :=
  { instruction with
    name := ""
    incoming := sortIncoming blocks instruction.incoming
    metadata := instruction.metadata.filter keptMetadata }

def canonicalBlock (blocks : ℕ) (block : CapturedBlock) : CapturedBlock where
  name := ""
  instructions := (block.instructions.filter fun i => !i.isDebug).map (canonicalInstruction blocks)

def canonicalBody (target : Baseline) (function : FunctionDefinition) : FunctionDefinition :=
  { function with
    attributes := function.attributes.filter fun entry => entry ∉ baselineAttributes target
    arguments := function.arguments.map fun _ => ""
    blocks := function.blocks.map (canonicalBlock function.blocks.length) }

/-- The functions that are neither erased nor left as they are. -/
def FunctionDefinition.canonical (function : FunctionDefinition) : Bool :=
  !function.debugFunction && !function.byteSwapPrimitive

/-- Name the functions in order, and bring their bodies into canonical form. The functions
before have been named already. -/
def canonicalFunctions (naming : Naming) (target : Baseline) (globals : List GlobalDefinition) :
    List FunctionDefinition → ℕ → List FunctionDefinition → List FunctionDefinition
  | _, _, [] => []
  | before, functionIndex, function :: after =>
    if function.canonical then
      let held := (before ++ after).map (fun f => f.name) ++ globals.map (fun g => g.name)
      let named :=
        if function.linkage.isLocal then
          setName naming held (numbered "f" functionIndex)
        else function.name
      let result := canonicalBody target { function with name := named }
      result :: canonicalFunctions naming target globals (before ++ [result])
        (if function.isDeclaration then functionIndex else functionIndex + 1) after
    else
      function :: canonicalFunctions naming target globals (before ++ [function]) functionIndex after

/-- Name the local globals by their position. -/
def canonicalGlobals (naming : Naming) (functions : List FunctionDefinition) :
    List GlobalDefinition → List GlobalDefinition → List GlobalDefinition
  | _, [] => []
  | before, global :: after =>
    let held := functions.map (fun f => f.name) ++ (before ++ after).map (fun g => g.name)
    let named :=
      if global.linkage.isLocal then setName naming held (numbered "g" before.length)
      else global.name
    { global with name := named } ::
      canonicalGlobals naming functions (before ++ [{ global with name := named }]) after

def intrinsicDeclaration (function : FunctionDefinition) : Bool :=
  function.isDeclaration && function.isIntrinsic

/-- Erase the debug functions, and move intrinsic declarations to the end in one order. -/
def placeFunctions (functions : List FunctionDefinition) : List FunctionDefinition :=
  let kept := functions.filter fun f => !f.debugFunction
  (kept.filter fun f => !intrinsicDeclaration f) ++
    (kept.filter intrinsicDeclaration).mergeSort fun f g => decide (f.name ≤ g.name)

/-- The flags that are integers, each name once and in order. -/
def integerFlags (flags : List (String × ℕ × Option ℕ)) : List (String × ℕ × Option ℕ) :=
  ((flags.filter fun flag => flag.1 ∉
      ["Dwarf Version", "Debug Info Version", "debug-info-assignment-tracking"] &&
      flag.2.2.isSome).foldl
    (fun entries flag => Association.update flag.1 (fun _ => flag.2) entries) []).mergeSort
      fun a b => decide (a.1 ≤ b.1)

/-- The flags as they are written again, in 32 bits. -/
def canonicalFlags (flags : List (String × ℕ × Option ℕ)) : List (String × ℕ × Option ℕ) :=
  (integerFlags flags).map fun flag => (flag.1, flag.2.1, flag.2.2.map (· % 2 ^ 32))

def canonicalize (naming : Naming) (target : Baseline) (module : ModuleContents) :
    ModuleContents :=
  let functions :=
    placeFunctions (canonicalFunctions naming target module.globals [] 0 module.functions)
  { functions := functions
    globals := canonicalGlobals naming functions [] module.globals
    namedMetadata := module.namedMetadata.filter fun entry =>
      entry.1 ∉ ["llvm.ident", "llvm.dbg.cu"]
    flags := canonicalFlags module.flags
    identifier := "sela"
    sourceFileName := "sela"
    triple := target.triple
    layout := target.layout }

/-! ## Text -/

/-- The printed form of a definition. -/
structure DefinitionText where
  linkage : Linkage
  name : String
  tokens : List String

structure ModuleText where
  header : List String
  globals : List DefinitionText
  functions : List DefinitionText

/-- The symbols of a module in the order they are numbered in. -/
def ModuleContents.symbols (module : ModuleContents) : List (ℕ × String) :=
  module.globals.map (fun g => (g.id, g.name)) ++ module.functions.map fun f => (f.id, f.name)

/-- A symbol's name; an unnamed symbol prints as its number among the unnamed ones. -/
def printedName (symbols : List (ℕ × String)) (id : ℕ) (name : String) : String :=
  if name = "" then toString (((symbols.filter fun entry => entry.2 = "").map Prod.fst).idxOf id)
  else name

def operandText (symbols : List (ℕ × String)) : NativeOperand → String
  | .symbol id => "@" ++ printedName symbols id ((symbols.lookup id).getD "")
  | .value number => "%" ++ toString number
  | .block number => "label %" ++ toString number
  | .literal text => text

def instructionText (symbols : List (ℕ × String)) (instruction : CapturedInstruction) :
    List String :=
  instruction.name :: instruction.text :: instruction.operands.map (operandText symbols) ++
    instruction.incoming.flatMap (fun pair =>
      [operandText symbols (.block pair.1), operandText symbols pair.2]) ++
    instruction.metadata.flatMap fun metadata => [metadata.kind, metadata.node]

/-- A function prints the names of its arguments where it is defined. -/
def functionText (symbols : List (ℕ × String)) (function : FunctionDefinition) :
    DefinitionText where
  linkage := function.linkage
  name := printedName symbols function.id function.name
  tokens := function.signature :: function.attributes.flatMap (fun entry => [entry.1, entry.2]) ++
    (if function.isDeclaration then [] else function.arguments) ++
    function.blocks.flatMap fun block =>
      block.name :: block.instructions.flatMap (instructionText symbols)

def globalText (symbols : List (ℕ × String)) (global : GlobalDefinition) : DefinitionText where
  linkage := global.linkage
  name := printedName symbols global.id global.name
  tokens := global.signature :: global.initializer.map (operandText symbols)

def moduleText (module : ModuleContents) : ModuleText where
  header := [module.identifier, module.sourceFileName, module.triple, module.layout] ++
    module.namedMetadata.flatMap (fun entry => [entry.1, entry.2]) ++
    module.flags.flatMap fun flag => [flag.1, toString flag.2.1, toString (flag.2.2.getD 0)]
  globals := module.globals.map (globalText module.symbols)
  functions := module.functions.map (functionText module.symbols)

/-! ## Renamed modules -/

/-- The incoming lists of the instructions are permuted, and names are changed. -/
def RenamedInstruction (i j : CapturedInstruction) : Prop :=
  i.incoming.Perm j.incoming ∧ { i with name := j.name, incoming := j.incoming } = j

def RenamedBlock (b c : CapturedBlock) : Prop :=
  List.Forall₂ RenamedInstruction b.instructions c.instructions

structure RenamedFunction (f g : FunctionDefinition) : Prop where
  blocks : List.Forall₂ RenamedBlock f.blocks g.blocks
  arguments : f.arguments.length = g.arguments.length
  name : f.linkage.isLocal = false → f.name = g.name
  same : { f with name := g.name, arguments := g.arguments, blocks := g.blocks } = g

structure RenamedGlobal (g h : GlobalDefinition) : Prop where
  name : g.linkage.isLocal = false → g.name = h.name
  same : { g with name := h.name } = h

/-- The modules are equal except for the names of local functions and globals, of arguments,
blocks and instructions, and the order of PHI lists. -/
structure RenamedModule (a b : ModuleContents) : Prop where
  functions : List.Forall₂ RenamedFunction a.functions b.functions
  globals : List.Forall₂ RenamedGlobal a.globals b.globals
  same : { a with functions := b.functions, globals := b.globals } = b

/-- The definitions named before a function, by which a local one is numbered. -/
def definitionsIn (functions : List FunctionDefinition) : ℕ :=
  functions.countP fun f => f.canonical && !f.isDeclaration

/-- No generated name is taken when it is asked for: not by a symbol that keeps its name, nor by
a local one that is named later. -/
structure FreeNames (module : ModuleContents) : Prop where
  functions : ∀ before f after, module.functions = before ++ f :: after →
    f.linkage.isLocal = true →
    (∀ g ∈ before, g.linkage.isLocal = false → g.name ≠ numbered "f" (definitionsIn before)) ∧
    (∀ g ∈ after, g.name ≠ numbered "f" (definitionsIn before)) ∧
    ∀ g ∈ module.globals, g.name ≠ numbered "f" (definitionsIn before)
  globals : ∀ before g after, module.globals = before ++ g :: after → g.linkage.isLocal = true →
    (∀ f ∈ module.functions, f.linkage.isLocal = false → f.name ≠ numbered "g" before.length) ∧
    (∀ h ∈ before, h.linkage.isLocal = false → h.name ≠ numbered "g" before.length) ∧
    ∀ h ∈ after, h.name ≠ numbered "g" before.length

/-- Two functions with the same incoming pairs in each PHI. -/
def SamePhis (f g : FunctionDefinition) : Prop :=
  List.Forall₂ (fun b c : CapturedBlock => List.Forall₂
    (fun i j : CapturedInstruction => i.incoming.Perm j.incoming)
      (b.instructions.filter fun i => !i.isDebug) (c.instructions.filter fun i => !i.isDebug))
    f.blocks g.blocks

/-- The functions that are kept are those of the result, and each has there the same incoming
pairs in each PHI. -/
structure PhisPreserved (module result : ModuleContents) : Prop where
  kept : (result.functions.map FunctionDefinition.id).Perm
    ((module.functions.filter fun f => !f.debugFunction).map FunctionDefinition.id)
  same : ∀ f ∈ module.functions, ∀ g ∈ result.functions, g.id = f.id → SamePhis f g

/-! ## Bodies -/

section Bodies

theorem sortIncoming_perm (blocks : ℕ) (incoming : List (ℕ × NativeOperand)) :
    (sortIncoming blocks incoming).Perm incoming :=
  List.mergeSort_perm _ _

theorem sortIncoming_pairwise (blocks : ℕ) (incoming : List (ℕ × NativeOperand)) :
    (sortIncoming blocks incoming).Pairwise
      fun p q => blockOrder blocks p.1 ≤ blockOrder blocks q.1 := by
  refine List.Pairwise.imp (fun h => of_decide_eq_true h) (List.pairwise_mergeSort ?_ ?_ incoming)
  · intro p q r hpq hqr
    simp only [decide_eq_true_eq] at *
    omega
  · intro p q
    simp only [Bool.or_eq_true, decide_eq_true_eq]
    omega

/-- Permuted incoming lists are sorted to one list, where a block has one value. -/
theorem sortIncoming_eq {blocks : ℕ} {xs ys : List (ℕ × NativeOperand)} (hperm : xs.Perm ys)
    (hwell : ∀ p ∈ xs, p.1 < blocks ∧ ∀ q ∈ xs, p.1 = q.1 → p = q) :
    sortIncoming blocks xs = sortIncoming blocks ys := by
  have hsame := (sortIncoming_perm blocks xs).trans (hperm.trans (sortIncoming_perm blocks ys).symm)
  refine List.Perm.eq_of_pairwise (fun p q hp hq hpq hqp => ?_) (sortIncoming_pairwise blocks xs)
    (sortIncoming_pairwise blocks ys) hsame
  have hp : p ∈ xs := (sortIncoming_perm blocks xs).mem_iff.mp hp
  have hq : q ∈ xs := hperm.mem_iff.mpr ((sortIncoming_perm blocks ys).mem_iff.mp hq)
  refine (hwell p hp).2 q hq ?_
  have hpb := (hwell p hp).1
  have hqb := (hwell q hq).1
  simp only [blockOrder, hpb, hqb, if_true] at hpq hqp
  omega

theorem canonicalInstruction_renamed {blocks : ℕ} {i j : CapturedInstruction}
    (h : RenamedInstruction i j)
    (hwell : ∀ p ∈ i.incoming, p.1 < blocks ∧ ∀ q ∈ i.incoming, p.1 = q.1 → p = q) :
    canonicalInstruction blocks i = canonicalInstruction blocks j := by
  obtain ⟨hperm, hsame⟩ := h
  have hincoming := sortIncoming_eq hperm hwell
  rw [← hsame]
  simp only [canonicalInstruction, hincoming]

theorem canonicalBlock_renamed {blocks : ℕ} {b c : CapturedBlock} (h : RenamedBlock b c)
    (hwell : ∀ i ∈ b.instructions, ∀ p ∈ i.incoming,
      p.1 < blocks ∧ ∀ q ∈ i.incoming, p.1 = q.1 → p = q) :
    canonicalBlock blocks b = canonicalBlock blocks c := by
  obtain ⟨name, instructions⟩ := b
  obtain ⟨name', instructions'⟩ := c
  simp only [canonicalBlock, CapturedBlock.mk.injEq, true_and]
  unfold RenamedBlock at h
  dsimp only at h hwell
  clear name name'
  induction h with
  | nil => rfl
  | @cons i j is js hij _ ih =>
    obtain ⟨hi, hwell⟩ := List.forall_mem_cons.mp hwell
    have hdebug : i.isDebug = j.isDebug := by rw [← hij.2]
    have ih := ih hwell
    simp only [List.filter_cons, hdebug]
    split
    · rw [List.map_cons, List.map_cons, ih, canonicalInstruction_renamed hij hi]
    · exact ih

theorem canonicalBody_renamed {target : Baseline} {f g : FunctionDefinition}
    (h : RenamedFunction f g) (name : String)
    (hwell : ∀ b ∈ f.blocks, ∀ i ∈ b.instructions, ∀ p ∈ i.incoming,
      p.1 < f.blocks.length ∧ ∀ q ∈ i.incoming, p.1 = q.1 → p = q) :
    canonicalBody target { f with name := name } = canonicalBody target { g with name := name } := by
  have hblocks : f.blocks.map (canonicalBlock f.blocks.length) =
      g.blocks.map (canonicalBlock g.blocks.length) := by
    rw [← h.blocks.length_eq]
    have hrenamed := h.blocks
    generalize f.blocks.length = count at hwell
    generalize f.blocks = bs at hwell hrenamed ⊢
    generalize g.blocks = cs at hrenamed ⊢
    induction hrenamed with
    | nil => rfl
    | cons hb _ ih =>
      obtain ⟨hwellb, hwell⟩ := List.forall_mem_cons.mp hwell
      rw [List.map_cons, List.map_cons, ih hwell, canonicalBlock_renamed hb hwellb]
  have harguments : f.arguments.map (fun _ => "") = g.arguments.map fun _ => "" := by
    rw [List.map_const', List.map_const', h.arguments]
  have hsame := h.same
  unfold canonicalBody
  rw [← hsame]
  simp only [FunctionDefinition.mk.injEq, true_and]
  refine ⟨?_, ?_⟩
  · rw [← hsame] at harguments
    exact harguments
  · rw [← hsame] at hblocks
    exact hblocks

end Bodies

/-! ## Naming -/

section Naming

variable {target : Baseline} {globals : List GlobalDefinition}

/-- The name a function gets when no name is taken. -/
def freeName (functionIndex : ℕ) (function : FunctionDefinition) : String :=
  if function.linkage.isLocal then numbered "f" functionIndex else function.name

/-- A function as it is named when no name is taken. -/
def freeFunction (target : Baseline) (functionIndex : ℕ) (function : FunctionDefinition) :
    FunctionDefinition :=
  if function.canonical then
    canonicalBody target { function with name := freeName functionIndex function }
  else function

def nextIndex (functionIndex : ℕ) (function : FunctionDefinition) : ℕ :=
  if function.canonical && !function.isDeclaration then functionIndex + 1 else functionIndex

/-- The functions as they are named when no name is taken. -/
def freeFunctions (target : Baseline) : ℕ → List FunctionDefinition → List FunctionDefinition
  | _, [] => []
  | functionIndex, function :: after =>
    freeFunction target functionIndex function ::
      freeFunctions target (nextIndex functionIndex function) after

/-- No name is taken when the functions are named in order. -/
def FunctionsFree (target : Baseline) (globals : List GlobalDefinition) :
    List FunctionDefinition → ℕ → List FunctionDefinition → Prop
  | _, _, [] => True
  | before, functionIndex, function :: after =>
    (function.canonical = true → function.linkage.isLocal = true → numbered "f" functionIndex ∉
      (before ++ after).map (fun f => f.name) ++ globals.map fun g => g.name) ∧
    FunctionsFree target globals (before ++ [freeFunction target functionIndex function])
      (nextIndex functionIndex function) after

theorem canonicalFunctions_of_free (naming : Naming) :
    ∀ {before functionIndex functions}, FunctionsFree target globals before functionIndex functions →
      canonicalFunctions naming target globals before functionIndex functions =
        freeFunctions target functionIndex functions
  | _, _, [], _ => rfl
  | before, functionIndex, function :: after, ⟨hhead, htail⟩ => by
    have ih := canonicalFunctions_of_free naming htail
    unfold canonicalFunctions freeFunctions
    by_cases hcanonical : function.canonical = true
    · have hname : (if function.linkage.isLocal = true then setName naming
          ((before ++ after).map (fun f => f.name) ++ globals.map fun g => g.name)
          (numbered "f" functionIndex) else function.name) = freeName functionIndex function := by
        unfold freeName
        split
        · rw [setName, if_neg (hhead hcanonical ‹_›)]
        · rfl
      have hfree : freeFunction target functionIndex function =
          canonicalBody target { function with name := freeName functionIndex function } := by
        rw [freeFunction, if_pos hcanonical]
      have hnext : nextIndex functionIndex function =
          if function.isDeclaration = true then functionIndex else functionIndex + 1 := by
        unfold nextIndex
        cases function.isDeclaration <;> simp [hcanonical]
      rw [if_pos hcanonical]
      simp only [hname, ← hfree, ← hnext, ih]
    · have hfree : freeFunction target functionIndex function = function := by
        rw [freeFunction, if_neg hcanonical]
      have hnext : nextIndex functionIndex function = functionIndex := by
        simp [nextIndex, hcanonical]
      rw [if_neg hcanonical]
      rw [hfree, hnext] at ih
      rw [hfree, hnext, ih]

/-- A suffix longer than every held name. -/
def padding (extra : ℕ) (held : List String) : String :=
  String.ofList (List.replicate ((held.map String.length).sum + extra + 1) '.')

theorem length_padding (extra : ℕ) (held : List String) :
    (padding extra held).length = (held.map String.length).sum + extra + 1 := by
  simp [padding]

/-- One way the symbol table may rename apart, for each length. -/
def paddedNaming (extra : ℕ) : Naming where
  suffix held _ := padding extra held
  fresh := by
    intro held requested hmem
    have hle := List.le_sum_of_mem (List.mem_map_of_mem (f := String.length) hmem)
    rw [String.length_append, length_padding] at hle
    omega
  nonempty := by
    intro held requested h
    have hlength := congrArg String.length h
    rw [length_padding] at hlength
    simp at hlength

theorem setName_padded_inj {held : List String} {requested : String}
    (h : setName (paddedNaming 0) held requested = setName (paddedNaming 1) held requested) :
    requested ∉ held := by
  intro hheld
  rw [setName, setName, if_pos hheld, if_pos hheld] at h
  have hlength := congrArg String.length h
  rw [String.length_append, String.length_append] at hlength
  simp [paddedNaming, length_padding] at hlength

/-- The names of the local functions of a list. -/
def localNames (functions : List FunctionDefinition) : List String :=
  (functions.filter fun f => f.linkage.isLocal).map fun f => f.name

/-- Where the names do not depend on how the symbol table renames, no name is taken. -/
theorem functionsFree_of_names : ∀ {before functionIndex functions},
    localNames (canonicalFunctions (paddedNaming 0) target globals before functionIndex functions) =
      localNames (canonicalFunctions (paddedNaming 1) target globals before functionIndex functions) →
    (∀ f ∈ functions, f.linkage.isLocal = true → f.canonical = true) →
    FunctionsFree target globals before functionIndex functions
  | _, _, [], _, _ => trivial
  | before, functionIndex, function :: after, h, hlocals => by
    obtain ⟨hlocal, hlocals⟩ := List.forall_mem_cons.mp hlocals
    unfold FunctionsFree
    unfold canonicalFunctions at h
    by_cases hcanonical : function.canonical = true
    · rw [if_pos hcanonical, if_pos hcanonical] at h
      have hnext : nextIndex functionIndex function =
          if function.isDeclaration = true then functionIndex else functionIndex + 1 := by
        unfold nextIndex
        cases function.isDeclaration <;> simp [hcanonical]
      by_cases hlinkage : function.linkage.isLocal = true
      · simp only [hlinkage, if_true, localNames, List.filter_cons, canonicalBody] at h
        rw [List.map_cons, List.map_cons, List.cons.injEq] at h
        obtain ⟨hhead, htail⟩ := h
        have hfresh := setName_padded_inj hhead
        refine ⟨fun _ _ => hfresh, ?_⟩
        rw [setName, setName, if_neg hfresh, if_neg hfresh] at htail
        have hfree : freeFunction target functionIndex function =
            canonicalBody target { function with name := numbered "f" functionIndex } := by
          rw [freeFunction, if_pos hcanonical, freeName, if_pos hlinkage]
        rw [hfree, hnext]
        exact functionsFree_of_names htail hlocals
      · have hfree : freeFunction target functionIndex function =
            canonicalBody target { function with name := function.name } := by
          rw [freeFunction, if_pos hcanonical, freeName, if_neg hlinkage]
        refine ⟨fun _ h => absurd h hlinkage, ?_⟩
        have hskip : ∀ rest : List FunctionDefinition,
            localNames (canonicalBody target { function with name := function.name } :: rest) =
              localNames rest := by
          intro rest
          simp [localNames, canonicalBody, hlinkage]
        simp only [hlinkage, if_false, Bool.false_eq_true, hskip] at h
        rw [hfree, hnext]
        exact functionsFree_of_names h hlocals
    · refine ⟨fun h => absurd h hcanonical, ?_⟩
      have hlinkage : ¬function.linkage.isLocal = true := fun h => hcanonical (hlocal h)
      have hfree : freeFunction target functionIndex function = function := by
        rw [freeFunction, if_neg hcanonical]
      have hnext : nextIndex functionIndex function = functionIndex := by
        simp [nextIndex, hcanonical]
      rw [if_neg hcanonical, if_neg hcanonical] at h
      have hskip : ∀ rest : List FunctionDefinition,
          localNames (function :: rest) = localNames rest := by
        intro rest
        simp [localNames, hlinkage]
      rw [hskip, hskip] at h
      rw [hfree, hnext]
      exact functionsFree_of_names h hlocals

/-- A global as it is named when no name is taken. -/
def freeGlobal (index : ℕ) (global : GlobalDefinition) : GlobalDefinition :=
  { global with name := if global.linkage.isLocal then numbered "g" index else global.name }

/-- The globals as they are named when no name is taken. -/
def freeGlobals : ℕ → List GlobalDefinition → List GlobalDefinition
  | _, [] => []
  | index, global :: after => freeGlobal index global :: freeGlobals (index + 1) after

def GlobalsFree (functions : List FunctionDefinition) :
    List GlobalDefinition → List GlobalDefinition → Prop
  | _, [] => True
  | before, global :: after =>
    (global.linkage.isLocal = true → numbered "g" before.length ∉
      functions.map (fun f => f.name) ++ (before ++ after).map fun g => g.name) ∧
    GlobalsFree functions (before ++ [freeGlobal before.length global]) after

theorem canonicalGlobals_of_free (naming : Naming) {functions : List FunctionDefinition} :
    ∀ {before after}, GlobalsFree functions before after →
      canonicalGlobals naming functions before after = freeGlobals before.length after
  | _, [], _ => rfl
  | before, global :: after, ⟨hhead, htail⟩ => by
    have ih := canonicalGlobals_of_free naming htail
    have hname : (if global.linkage.isLocal = true then setName naming
        (functions.map (fun f => f.name) ++ (before ++ after).map fun g => g.name)
        (numbered "g" before.length) else global.name) =
        if global.linkage.isLocal = true then numbered "g" before.length else global.name := by
      split
      · rw [setName, if_neg (hhead ‹_›)]
      · rfl
    unfold canonicalGlobals freeGlobals
    rw [List.length_append, List.length_singleton] at ih
    simp only [hname, ← ih]
    rfl

def localGlobalNames (globals : List GlobalDefinition) : List String :=
  (globals.filter fun g => g.linkage.isLocal).map fun g => g.name

theorem globalsFree_of_names {functions : List FunctionDefinition} : ∀ {before after},
    localGlobalNames (canonicalGlobals (paddedNaming 0) functions before after) =
      localGlobalNames (canonicalGlobals (paddedNaming 1) functions before after) →
    GlobalsFree functions before after
  | _, [], _ => trivial
  | before, global :: after, h => by
    unfold GlobalsFree
    unfold canonicalGlobals at h
    by_cases hlinkage : global.linkage.isLocal = true
    · simp only [hlinkage, if_true, localGlobalNames, List.filter_cons] at h
      rw [List.map_cons, List.map_cons, List.cons.injEq] at h
      obtain ⟨hhead, htail⟩ := h
      have hfresh := setName_padded_inj hhead
      refine ⟨fun _ => hfresh, ?_⟩
      rw [setName, setName, if_neg hfresh, if_neg hfresh] at htail
      have hfree : freeGlobal before.length global =
          { global with name := numbered "g" before.length } := by
        rw [freeGlobal, if_pos hlinkage]
      rw [hfree]
      exact globalsFree_of_names htail
    · refine ⟨fun h => absurd h hlinkage, ?_⟩
      simp only [hlinkage, if_false, Bool.false_eq_true] at h
      have hfree : freeGlobal before.length global = { global with name := global.name } := by
        rw [freeGlobal, if_neg hlinkage]
      have hskip : ∀ rest : List GlobalDefinition,
          localGlobalNames ({ global with name := global.name } :: rest) =
            localGlobalNames rest := by
        intro rest
        simp [localGlobalNames, hlinkage]
      rw [hskip, hskip] at h
      rw [hfree]
      exact globalsFree_of_names h

end Naming

/-! ## Which names are taken -/

section Taken

variable {target : Baseline} {globals : List GlobalDefinition}

theorem isIntrinsic_of_debugFunction {f : CapturedFunction} (h : f.debugFunction = true) :
    f.isIntrinsic = true := by
  unfold CapturedFunction.debugFunction at h
  unfold CapturedFunction.isIntrinsic
  rw [List.isPrefixOf_iff_prefix] at h ⊢
  exact List.IsPrefix.trans (by decide) h

/-- A generated name is not that of an intrinsic. -/
theorem debugFunction_of_numbered {f : CapturedFunction} {stem suffix : String} {index : ℕ}
    (hstem : stem = "f" ∨ stem = "g") (h : f.name = numbered stem index ++ suffix) :
    f.debugFunction = false := by
  unfold CapturedFunction.debugFunction
  rw [h, String.toList_append, toList_numbered]
  rcases hstem with rfl | rfl <;> rfl

/-- Local functions are defined, and intrinsics are not. -/
def LocalsDefined (functions : List FunctionDefinition) : Prop :=
  ∀ f ∈ functions, (f.linkage.isLocal = true → f.isDeclaration = false) ∧
    (f.isIntrinsic = true → f.isDeclaration = true)

theorem VerifiedModule.localsDefined (a : VerifiedModule) : LocalsDefined a.functions :=
  fun f hf => ⟨a.locals f hf, a.intrinsics f hf⟩

theorem LocalsDefined.canonical {functions : List FunctionDefinition}
    (h : LocalsDefined functions) {f : FunctionDefinition} (hf : f ∈ functions)
    (hlocal : f.linkage.isLocal = true) : f.canonical = true := by
  obtain ⟨hdefined, hintrinsic⟩ := h f hf
  have hdeclaration := hdefined hlocal
  have hdebug : f.debugFunction = false := by
    by_contra hdebug
    rw [hintrinsic (isIntrinsic_of_debugFunction (by simpa using hdebug))] at hdeclaration
    simp at hdeclaration
  simp [FunctionDefinition.canonical, hdebug, CapturedFunction.byteSwapPrimitive, hdeclaration]

theorem LocalsDefined.tail {f : FunctionDefinition} {functions : List FunctionDefinition}
    (h : LocalsDefined (f :: functions)) : LocalsDefined functions :=
  fun g hg => h g (.tail f hg)

theorem definitionsIn_append (fs gs : List FunctionDefinition) :
    definitionsIn (fs ++ gs) = definitionsIn fs + definitionsIn gs :=
  List.countP_append

theorem nextIndex_eq (index : ℕ) (f : FunctionDefinition) :
    nextIndex index f = index + definitionsIn [f] := by
  unfold nextIndex definitionsIn
  split <;> simp_all

theorem freeFunctions_append : ∀ {index} (fs : List FunctionDefinition) (f : FunctionDefinition),
    freeFunctions target index (fs ++ [f]) =
      freeFunctions target index fs ++ [freeFunction target (index + definitionsIn fs) f]
  | index, [], f => rfl
  | index, g :: fs, f => by
    have ih : freeFunctions target (nextIndex index g) (fs ++ [f]) = _ := freeFunctions_append fs f
    have hcount : definitionsIn (g :: fs) = definitionsIn [g] + definitionsIn fs :=
      definitionsIn_append [g] fs
    rw [List.cons_append, freeFunctions, freeFunctions, ih, nextIndex_eq, hcount, List.cons_append,
      Nat.add_assoc]

theorem name_freeFunction (index : ℕ) (f : FunctionDefinition) :
    (freeFunction target index f).name =
      if f.canonical && f.linkage.isLocal then numbered "f" index else f.name := by
  unfold freeFunction freeName
  by_cases hcanonical : f.canonical = true
  · rw [if_pos hcanonical]
    simp [canonicalBody, hcanonical]
  · rw [if_neg hcanonical]
    simp [hcanonical]

/-- The names after naming are those of the functions that keep theirs, and generated ones. -/
theorem mem_names_freeFunctions : ∀ {index} {fs : List FunctionDefinition} {name : String},
    LocalsDefined fs → name ∈ (freeFunctions target index fs).map (fun f => f.name) →
      (∃ g ∈ fs, g.linkage.isLocal = false ∧ g.name = name) ∨
        ∃ j < index + definitionsIn fs, name = numbered "f" j
  | _, [], _, _, h => by simp [freeFunctions] at h
  | index, f :: fs, name, hfs, h => by
    have hcount : definitionsIn (f :: fs) = definitionsIn [f] + definitionsIn fs :=
      definitionsIn_append [f] fs
    rw [freeFunctions, List.map_cons, List.mem_cons] at h
    rcases h with rfl | h
    · rw [name_freeFunction]
      cases hlocal : f.linkage.isLocal with
      | false => exact .inl ⟨f, by simp, hlocal, by simp⟩
      | true =>
        have hcanonical := hfs.canonical (List.mem_cons_self ..) hlocal
        have hdefined := (hfs f (List.mem_cons_self ..)).1 hlocal
        have hone : definitionsIn [f] = 1 := by simp [definitionsIn, hcanonical, hdefined]
        exact .inr ⟨index, by omega, by simp [hcanonical]⟩
    · rcases mem_names_freeFunctions hfs.tail h with ⟨g, hg, hlocal, hname⟩ | ⟨j, hj, hname⟩
      · exact .inl ⟨g, .tail f hg, hlocal, hname⟩
      · rw [nextIndex_eq] at hj
        exact .inr ⟨j, by omega, hname⟩

theorem mem_freeFunctions_of_external (target : Baseline) {fs : List FunctionDefinition} {g : FunctionDefinition}
    (hg : g ∈ fs) (hlocal : g.linkage.isLocal = false) (index : ℕ) :
    ∃ f ∈ freeFunctions target index fs, f.name = g.name := by
  induction fs generalizing index with
  | nil => simp at hg
  | cons f fs ih =>
    rw [freeFunctions]
    rcases List.mem_cons.mp hg with rfl | hg
    · exact ⟨_, List.mem_cons_self .., by rw [name_freeFunction]; simp [hlocal]⟩
    · obtain ⟨f', hf', hname⟩ := ih hg (nextIndex index f)
      exact ⟨f', .tail _ hf', hname⟩

/-- The generated name of a local function is free. -/
def FunctionFree (globals : List GlobalDefinition) (before after : List FunctionDefinition) : Prop :=
  (∀ g ∈ before, g.linkage.isLocal = false → g.name ≠ numbered "f" (definitionsIn before)) ∧
    (∀ g ∈ after, g.name ≠ numbered "f" (definitionsIn before)) ∧
    ∀ g ∈ globals, g.name ≠ numbered "f" (definitionsIn before)

theorem functionFree_iff {before after : List FunctionDefinition} (hbefore : LocalsDefined before) :
    numbered "f" (definitionsIn before) ∉
      (freeFunctions target 0 before ++ after).map (fun f => f.name) ++
        globals.map (fun g => g.name) ↔ FunctionFree globals before after := by
  simp only [List.map_append, List.mem_append, not_or]
  constructor
  · rintro ⟨⟨hnamed, hafter⟩, hglobals⟩
    refine ⟨fun g hg hlocal hname => ?_, fun g hg hname => ?_, fun g hg hname => ?_⟩
    · obtain ⟨f, hf, hfname⟩ := mem_freeFunctions_of_external target hg hlocal 0
      exact hnamed (List.mem_map.mpr ⟨f, hf, hfname.trans hname⟩)
    · exact hafter (List.mem_map.mpr ⟨g, hg, hname⟩)
    · exact hglobals (List.mem_map.mpr ⟨g, hg, hname⟩)
  · rintro ⟨hnamed, hafter, hglobals⟩
    refine ⟨⟨fun hmem => ?_, fun hmem => ?_⟩, fun hmem => ?_⟩
    · rcases mem_names_freeFunctions hbefore hmem with ⟨g, hg, hlocal, hname⟩ | ⟨j, hj, hname⟩
      · exact hnamed g hg hlocal hname
      · have := numbered_inj hname
        omega
    · obtain ⟨g, hg, hname⟩ := List.mem_map.mp hmem
      exact hafter g hg hname
    · obtain ⟨g, hg, hname⟩ := List.mem_map.mp hmem
      exact hglobals g hg hname

theorem functionsFree_iff : ∀ {after before : List FunctionDefinition},
    LocalsDefined (before ++ after) →
      (FunctionsFree target globals (freeFunctions target 0 before) (definitionsIn before) after ↔
        ∀ middle f rest, after = middle ++ f :: rest → f.linkage.isLocal = true →
          FunctionFree globals (before ++ middle) rest)
  | [], before, _ => by simp [FunctionsFree]
  | f :: after, before, hdefined => by
    have hsplit : before ++ f :: after = (before ++ [f]) ++ after := by simp
    have hstart : freeFunctions target 0 before ++
        [freeFunction target (definitionsIn before) f] = freeFunctions target 0 (before ++ [f]) := by
      rw [freeFunctions_append, Nat.zero_add]
    have hcount : nextIndex (definitionsIn before) f = definitionsIn (before ++ [f]) := by
      rw [nextIndex_eq, definitionsIn_append]
    have ih : FunctionsFree target globals (freeFunctions target 0 (before ++ [f]))
        (definitionsIn (before ++ [f])) after ↔ _ := functionsFree_iff (hsplit ▸ hdefined)
    have hbefore : LocalsDefined before := fun g hg => hdefined g (List.mem_append_left _ hg)
    unfold FunctionsFree
    rw [hstart, hcount, ih]
    constructor
    · rintro ⟨hhead, htail⟩ middle g rest heq hlocal
      rcases List.cons_eq_append_iff.mp heq with ⟨rfl, hcons⟩ | ⟨middle', rfl, hrest⟩
      · obtain ⟨rfl, rfl⟩ := List.cons.inj hcons
        rw [List.append_nil]
        exact (functionFree_iff hbefore).mp
          (hhead (hdefined.canonical (by simp) hlocal) hlocal)
      · have hfree := htail middle' g rest hrest hlocal
        rwa [List.append_assoc] at hfree
    · intro hall
      refine ⟨fun _ hlocal => (functionFree_iff hbefore).mpr ?_, fun middle g rest heq hlocal => ?_⟩
      · have hfree := hall [] f after rfl hlocal
        rwa [List.append_nil] at hfree
      · have hfree := hall (f :: middle) g rest (by rw [heq]; rfl) hlocal
        rw [List.append_assoc]
        exact hfree

theorem names_freeGlobals : ∀ {index} {gs : List GlobalDefinition} {name : String},
    name ∈ (freeGlobals index gs).map (fun g => g.name) →
      (∃ g ∈ gs, g.linkage.isLocal = false ∧ g.name = name) ∨
        ∃ j < index + gs.length, name = numbered "g" j
  | _, [], _, h => by simp [freeGlobals] at h
  | index, g :: gs, name, h => by
    rw [freeGlobals, List.map_cons, List.mem_cons] at h
    rcases h with rfl | h
    · cases hlocal : g.linkage.isLocal with
      | false => exact .inl ⟨g, by simp, hlocal, by simp [freeGlobal, hlocal]⟩
      | true => exact .inr ⟨index, by simp, by simp [freeGlobal, hlocal]⟩
    · rcases names_freeGlobals h with ⟨h, hh, hlocal, hname⟩ | ⟨j, hj, hname⟩
      · exact .inl ⟨h, .tail g hh, hlocal, hname⟩
      · exact .inr ⟨j, by simp only [List.length_cons]; omega, hname⟩

theorem mem_freeGlobals_of_external {gs : List GlobalDefinition} {h : GlobalDefinition}
    (hh : h ∈ gs) (hlocal : h.linkage.isLocal = false) (index : ℕ) :
    h.name ∈ (freeGlobals index gs).map fun g => g.name := by
  induction gs generalizing index with
  | nil => simp at hh
  | cons g gs ih =>
    rw [freeGlobals, List.map_cons]
    rcases List.mem_cons.mp hh with rfl | hh
    · simp [freeGlobal, hlocal]
    · exact .tail _ (ih hh (index + 1))

theorem freeGlobals_append (gs : List GlobalDefinition) (g : GlobalDefinition) (index : ℕ) :
    freeGlobals index (gs ++ [g]) = freeGlobals index gs ++ [freeGlobal (index + gs.length) g] := by
  induction gs generalizing index with
  | nil => rfl
  | cons h gs ih =>
    rw [List.cons_append, freeGlobals, freeGlobals, ih, List.cons_append, List.length_cons,
      Nat.add_assoc, Nat.add_comm 1]

theorem length_freeGlobals : ∀ (index : ℕ) (gs : List GlobalDefinition),
    (freeGlobals index gs).length = gs.length
  | _, [] => rfl
  | index, _ :: gs => by rw [freeGlobals, List.length_cons, length_freeGlobals, List.length_cons]

/-- The generated name of a local global is free. -/
def GlobalFree (names : List String) (before after : List GlobalDefinition) : Prop :=
  numbered "g" before.length ∉ names ∧
    (∀ h ∈ before, h.linkage.isLocal = false → h.name ≠ numbered "g" before.length) ∧
    ∀ h ∈ after, h.name ≠ numbered "g" before.length

theorem globalsFree_iff {functions : List FunctionDefinition} :
    ∀ {after before : List GlobalDefinition},
      (GlobalsFree functions (freeGlobals 0 before) after ↔
        ∀ middle g rest, after = middle ++ g :: rest → g.linkage.isLocal = true →
          GlobalFree (functions.map fun f => f.name) (before ++ middle) rest)
  | [], before => by simp [GlobalsFree]
  | g :: after, before => by
    have hstart : freeGlobals 0 before ++ [freeGlobal (freeGlobals 0 before).length g] =
        freeGlobals 0 (before ++ [g]) := by
      rw [freeGlobals_append, length_freeGlobals, Nat.zero_add]
    have ih : GlobalsFree functions (freeGlobals 0 (before ++ [g])) after ↔ _ := globalsFree_iff
    have hhead : numbered "g" (freeGlobals 0 before).length ∉ functions.map (fun f => f.name) ++
        (freeGlobals 0 before ++ after).map (fun g => g.name) ↔
          GlobalFree (functions.map fun f => f.name) before after := by
      rw [length_freeGlobals, List.map_append, List.mem_append, List.mem_append, not_or, not_or]
      refine and_congr Iff.rfl (and_congr ⟨fun hnamed h hh hlocal hname => ?_, fun hfree hmem => ?_⟩
        ⟨fun hafter h hh hname => ?_, fun hfree hmem => ?_⟩)
      · exact hnamed (hname ▸ mem_freeGlobals_of_external hh hlocal 0)
      · rcases names_freeGlobals hmem with ⟨h, hh, hlocal, hname⟩ | ⟨j, hj, hname⟩
        · exact hfree h hh hlocal hname
        · have := numbered_inj hname
          omega
      · exact hafter (List.mem_map.mpr ⟨h, hh, hname⟩)
      · obtain ⟨h, hh, hname⟩ := List.mem_map.mp hmem
        exact hfree h hh hname
    unfold GlobalsFree
    rw [hhead, hstart, ih]
    constructor
    · rintro ⟨hfirst, htail⟩ middle h rest heq hlocal
      rcases List.cons_eq_append_iff.mp heq with ⟨rfl, hcons⟩ | ⟨middle', rfl, hrest⟩
      · obtain ⟨rfl, rfl⟩ := List.cons.inj hcons
        rw [List.append_nil]
        exact hfirst hlocal
      · have hfree := htail middle' h rest hrest hlocal
        rwa [List.append_assoc] at hfree
    · intro hall
      refine ⟨fun hlocal => ?_, fun middle h rest heq hlocal => ?_⟩
      · have hfree := hall [] g after rfl hlocal
        rwa [List.append_nil] at hfree
      · have hfree := hall (g :: middle) h rest (by rw [heq]; rfl) hlocal
        rw [List.append_assoc]
        exact hfree

end Taken

/-! ## Canonical text -/

section Text

variable {target : Baseline}

/-- What a function prints. -/
def printable (function : FunctionDefinition) : FunctionDefinition :=
  { function with arguments := if function.isDeclaration then [] else function.arguments }

theorem functionText_printable (symbols : List (ℕ × String)) (function : FunctionDefinition) :
    functionText symbols (printable function) = functionText symbols function := by
  cases hdeclaration : function.isDeclaration <;> simp [functionText, printable, hdeclaration]

/-- The text of a module is that of what its functions print. -/
theorem moduleText_congr {a b : ModuleContents}
    (hfunctions : a.functions.map printable = b.functions.map printable)
    (hsame : { a with functions := b.functions } = b) : moduleText a = moduleText b := by
  have hnames : ∀ fs : List FunctionDefinition, fs.map (fun f => (f.id, f.name)) =
      (fs.map printable).map fun f => (f.id, f.name) := fun fs => by rw [List.map_map]; rfl
  have hsymbols : a.symbols = b.symbols := by
    rw [← hsame]
    simp only [ModuleContents.symbols]
    rw [hnames, hfunctions, ← hnames]
  have htexts : ∀ (symbols : List (ℕ × String)) (fs : List FunctionDefinition),
      fs.map (functionText symbols) = (fs.map printable).map (functionText symbols) := by
    intro symbols fs
    rw [List.map_map]
    exact List.map_congr_left fun f _ => (functionText_printable symbols f).symm
  have hglobals : a.globals = b.globals := by rw [← hsame]
  have hheader : (moduleText a).header = (moduleText b).header := by rw [← hsame]; rfl
  have hfunctionTexts : (moduleText a).functions = (moduleText b).functions := by
    change a.functions.map _ = b.functions.map _
    rw [htexts, hfunctions, ← htexts, hsymbols]
  have hglobalTexts : (moduleText a).globals = (moduleText b).globals := by
    change a.globals.map _ = b.globals.map _
    rw [hglobals, hsymbols]
  calc moduleText a = ⟨(moduleText a).header, (moduleText a).globals, (moduleText a).functions⟩ := rfl
    _ = moduleText b := by rw [hheader, hfunctionTexts, hglobalTexts]

theorem placeFunctions_printable (fs : List FunctionDefinition) :
    (placeFunctions fs).map printable = placeFunctions (fs.map printable) := by
  unfold placeFunctions
  simp only [List.map_append, List.filter_map]
  congr 1
  exact List.map_mergeSort fun f _ g _ => rfl

theorem mem_placeFunctions {fs : List FunctionDefinition} {f : FunctionDefinition} :
    f ∈ placeFunctions fs ↔ f ∈ fs ∧ f.debugFunction = false := by
  simp only [placeFunctions, List.mem_append, List.mem_mergeSort, List.mem_filter,
    Bool.not_eq_true']
  cases intrinsicDeclaration f <;> simp

/-- What is local is defined, so that it is placed with the definitions. -/
theorem filter_placeFunctions {fs : List FunctionDefinition}
    (h : ∀ f ∈ fs, f.linkage.isLocal = true →
      f.debugFunction = false ∧ f.isDeclaration = false) :
    (placeFunctions fs).filter (fun f => f.linkage.isLocal) = fs.filter fun f => f.linkage.isLocal := by
  have hnone : (((fs.filter fun f => !f.debugFunction).filter intrinsicDeclaration).mergeSort
      fun f g => decide (f.name ≤ g.name)).filter (fun f => f.linkage.isLocal) = [] := by
    refine List.filter_eq_nil_iff.mpr fun f hf hlocal => ?_
    obtain ⟨hf, hintrinsic⟩ := List.mem_filter.mp (List.mem_mergeSort.mp hf)
    have hdefined := (h f (List.mem_filter.mp hf).1 hlocal).2
    simp [intrinsicDeclaration, hdefined] at hintrinsic
  unfold placeFunctions
  rw [List.filter_append, hnone, List.append_nil, List.filter_filter, List.filter_filter]
  refine List.filter_congr fun f hf => ?_
  cases hlocal : f.linkage.isLocal with
  | false => rfl
  | true =>
    obtain ⟨hdebug, hdefined⟩ := h f hf hlocal
    simp [intrinsicDeclaration, hdebug, hdefined]

/-- A renamed function, however the symbol table renames. -/
theorem mem_canonicalFunctions {naming : Naming} {globals : List GlobalDefinition}
    {functions : List FunctionDefinition} (hdefined : LocalsDefined functions) :
    ∀ {before index f}, f ∈ canonicalFunctions naming target globals before index functions →
      f.linkage.isLocal = true → f.isDeclaration = false ∧
        ∃ number suffix, f.name = numbered "f" number ++ suffix := by
  induction functions with
  | nil =>
    intro before index f hf
    simp [canonicalFunctions] at hf
  | cons g functions ih =>
    intro before index f hf hlocal
    unfold canonicalFunctions at hf
    by_cases hcanonical : g.canonical = true
    · rw [if_pos hcanonical] at hf
      rcases List.mem_cons.mp hf with rfl | hf
      · have hlocal : g.linkage.isLocal = true := hlocal
        refine ⟨(hdefined g (List.mem_cons_self ..)).1 hlocal, index, ?_⟩
        simp only [canonicalBody, hlocal, if_true, setName]
        split
        · exact ⟨_, rfl⟩
        · exact ⟨"", by simp⟩
      · exact ih hdefined.tail hf hlocal
    · rw [if_neg hcanonical] at hf
      rcases List.mem_cons.mp hf with rfl | hf
      · exact absurd (hdefined.canonical (List.mem_cons_self ..) hlocal) hcanonical
      · exact ih hdefined.tail hf hlocal

theorem printedName_of_ne {symbols : List (ℕ × String)} {id : ℕ} {name : String} (h : name ≠ "") :
    printedName symbols id name = name := by
  rw [printedName, if_neg h]

/-- The text shows the names of the local functions. -/
theorem localNames_text (target : Baseline) (a : VerifiedModule) (naming : Naming) :
    ((moduleText (canonicalize naming target a.toModuleContents)).functions.filter
      fun text => text.linkage.isLocal).map DefinitionText.name =
        localNames (canonicalFunctions naming target a.globals [] 0 a.functions) := by
  have hnamed : ∀ f ∈ canonicalFunctions naming target a.globals [] 0 a.functions,
      f.linkage.isLocal = true → f.debugFunction = false ∧ f.isDeclaration = false := by
    intro f hf hlocal
    obtain ⟨hdefined, number, suffix, hname⟩ := mem_canonicalFunctions a.localsDefined hf hlocal
    exact ⟨debugFunction_of_numbered (.inl rfl) hname, hdefined⟩
  have hfunctions : (moduleText (canonicalize naming target a.toModuleContents)).functions =
      (placeFunctions (canonicalFunctions naming target a.globals [] 0 a.functions)).map
        (functionText (canonicalize naming target a.toModuleContents).symbols) := rfl
  rw [hfunctions, List.filter_map, List.map_map, localNames, ← filter_placeFunctions hnamed]
  refine List.map_congr_left fun f hf => ?_
  obtain ⟨hf, hlocal⟩ := List.mem_filter.mp hf
  obtain ⟨_, number, suffix, hname⟩ := mem_canonicalFunctions a.localsDefined
    (mem_placeFunctions.mp hf).1 hlocal
  refine printedName_of_ne fun hempty => ?_
  have hlist := congrArg String.toList (hname.symm.trans hempty)
  rw [String.toList_append, toList_numbered] at hlist
  simp at hlist

theorem names_canonicalGlobals {naming : Naming} {functions : List FunctionDefinition} :
    ∀ {after before g}, g ∈ canonicalGlobals naming functions before after →
      g.linkage.isLocal = true → g.name ≠ "" := by
  intro after
  induction after with
  | nil =>
    intro before g hg
    simp [canonicalGlobals] at hg
  | cons h after ih =>
    intro before g hg hlocal
    unfold canonicalGlobals at hg
    rcases List.mem_cons.mp hg with rfl | hg
    · have hlocal : h.linkage.isLocal = true := hlocal
      simp only [hlocal, if_true, setName]
      intro hempty
      have hlist := congrArg String.toList hempty
      split at hlist
      · rw [String.toList_append, toList_numbered] at hlist
        simp at hlist
      · rw [toList_numbered] at hlist
        simp at hlist
    · exact ih hg hlocal

/-- The text shows the names of the local globals. -/
theorem localGlobalNames_text (target : Baseline) (a : ModuleContents) (naming : Naming) :
    ((moduleText (canonicalize naming target a)).globals.filter
      fun text => text.linkage.isLocal).map DefinitionText.name =
        localGlobalNames (canonicalGlobals naming (canonicalize naming target a).functions []
          a.globals) := by
  have hglobals : (moduleText (canonicalize naming target a)).globals =
      (canonicalGlobals naming (canonicalize naming target a).functions [] a.globals).map
        (globalText (canonicalize naming target a).symbols) := rfl
  rw [hglobals, List.filter_map, List.map_map, localGlobalNames]
  refine List.map_congr_left fun g hg => ?_
  obtain ⟨hg, hlocal⟩ := List.mem_filter.mp hg
  exact printedName_of_ne (names_canonicalGlobals hg hlocal)

/-- The names that the functions hold when the globals are named. -/
theorem numbered_notMem_placed {functions : List FunctionDefinition}
    (hdefined : LocalsDefined functions) (index : ℕ) :
    numbered "g" index ∉ (placeFunctions (freeFunctions target 0 functions)).map (fun f => f.name) ↔
      ∀ f ∈ functions, f.linkage.isLocal = false → f.name ≠ numbered "g" index := by
  constructor
  · intro hnone f hf hlocal hname
    obtain ⟨f', hf', hname'⟩ := mem_freeFunctions_of_external target hf hlocal 0
    refine hnone (List.mem_map.mpr ⟨f', mem_placeFunctions.mpr ⟨hf', ?_⟩, hname'.trans hname⟩)
    have hnumbered : f'.name = numbered "g" index ++ "" := by simpa using hname'.trans hname
    exact debugFunction_of_numbered (.inr rfl) hnumbered
  · intro hfree hmem
    obtain ⟨f, hf, hname⟩ := List.mem_map.mp hmem
    have hmem : numbered "g" index ∈
        (freeFunctions target 0 functions).map fun f => f.name :=
      List.mem_map.mpr ⟨f, (mem_placeFunctions.mp hf).1, hname⟩
    rcases mem_names_freeFunctions hdefined hmem with ⟨g, hg, hlocal, hgname⟩ | ⟨j, _, hj⟩
    · exact hfree g hg hlocal hgname
    · exact numbered_ne hj

theorem functionsFree_of_freeNames (target : Baseline) (a : VerifiedModule) (h : FreeNames a.toModuleContents) :
    FunctionsFree target a.globals [] 0 a.functions := by
  have hiff : FunctionsFree target a.globals (freeFunctions target 0 []) (definitionsIn [])
      a.functions ↔ _ := functionsFree_iff a.localsDefined
  exact hiff.mpr fun middle f rest heq hlocal => h.functions middle f rest heq hlocal

theorem globalsFree_of_freeNames (target : Baseline) (a : VerifiedModule) (h : FreeNames a.toModuleContents) :
    GlobalsFree (placeFunctions (freeFunctions target 0 a.functions)) [] a.globals := by
  have hiff : GlobalsFree (placeFunctions (freeFunctions target 0 a.functions)) (freeGlobals 0 [])
      a.globals ↔ _ := globalsFree_iff
  refine hiff.mpr fun middle g rest heq hlocal => ?_
  obtain ⟨hfunctions, hbefore, hafter⟩ := h.globals middle g rest heq hlocal
  exact ⟨(numbered_notMem_placed a.localsDefined _).mpr hfunctions, hbefore, hafter⟩

/-- The canonical form where no name is taken. -/
def freeModule (target : Baseline) (a : ModuleContents) : ModuleContents :=
  { canonicalize (paddedNaming 0) target a with
    functions := placeFunctions (freeFunctions target 0 a.functions)
    globals := freeGlobals 0 a.globals }

theorem canonicalize_of_freeNames (a : VerifiedModule) (h : FreeNames a.toModuleContents)
    (naming : Naming) : canonicalize naming target a.toModuleContents =
      freeModule target a.toModuleContents := by
  have hfunctions := canonicalFunctions_of_free naming (functionsFree_of_freeNames target a h)
  have hglobals := canonicalGlobals_of_free naming (globalsFree_of_freeNames target a h)
  simp only [canonicalize, freeModule, hfunctions]
  rw [hglobals]
  rfl

/-- Where the text does not depend on how the symbol table renames, no name is taken. -/
theorem freeNames_of_text (a : VerifiedModule)
    (h : moduleText (canonicalize (paddedNaming 0) target a.toModuleContents) =
      moduleText (canonicalize (paddedNaming 1) target a.toModuleContents)) :
    FreeNames a.toModuleContents := by
  have hnames := localNames_text target a (paddedNaming 0)
  rw [h, localNames_text target] at hnames
  have hfunctions : FunctionsFree target a.globals (freeFunctions target 0 []) (definitionsIn [])
      a.functions := functionsFree_of_names hnames.symm
    fun f hf hlocal => a.localsDefined.canonical hf hlocal
  have hcanonical : ∀ naming, (canonicalize naming target a.toModuleContents).functions =
      placeFunctions (freeFunctions target 0 a.functions) := by
    intro naming
    exact congrArg placeFunctions (canonicalFunctions_of_free naming hfunctions)
  have hglobalNames := localGlobalNames_text target a.toModuleContents (paddedNaming 0)
  rw [h, localGlobalNames_text target, hcanonical, hcanonical] at hglobalNames
  have hglobals : GlobalsFree (placeFunctions (freeFunctions target 0 a.functions))
      (freeGlobals 0 []) a.globals := globalsFree_of_names hglobalNames.symm
  have hdefined : LocalsDefined ([] ++ a.functions) := a.localsDefined
  refine ⟨(functionsFree_iff hdefined).mp hfunctions, ?_⟩
  intro before g after heq hlocal
  obtain ⟨hfree, hbefore, hafter⟩ := globalsFree_iff.mp hglobals before g after heq hlocal
  exact ⟨(numbered_notMem_placed a.localsDefined _).mp hfree, hbefore, hafter⟩

end Text

/-! ## Renamed modules have one canonical form -/

section Renamed

variable {target : Baseline}

theorem RenamedFunction.captured {f g : FunctionDefinition} (h : RenamedFunction f g) :
    { f.toCapturedFunction with name := g.name } = g.toCapturedFunction :=
  congrArg FunctionDefinition.toCapturedFunction h.same

theorem RenamedFunction.linkage {f g : FunctionDefinition} (h : RenamedFunction f g) :
    f.linkage = g.linkage := by
  rw [← h.same]

theorem RenamedFunction.isDeclaration {f g : FunctionDefinition} (h : RenamedFunction f g) :
    f.isDeclaration = g.isDeclaration := by
  rw [← h.same]

/-- A function that other modules see is the same but for its body. -/
theorem RenamedFunction.captured_eq {f g : FunctionDefinition} (h : RenamedFunction f g)
    (hlocal : f.linkage.isLocal = false) : f.toCapturedFunction = g.toCapturedFunction := by
  rw [← h.captured, ← h.name hlocal]

theorem RenamedFunction.canonical {f g : FunctionDefinition} (h : RenamedFunction f g)
    {fs gs : List FunctionDefinition} (hfs : LocalsDefined fs) (hgs : LocalsDefined gs)
    (hf : f ∈ fs) (hg : g ∈ gs) : f.canonical = g.canonical := by
  cases hlocal : f.linkage.isLocal with
  | false =>
    unfold FunctionDefinition.canonical
    rw [h.captured_eq hlocal]
  | true => rw [hfs.canonical hf hlocal, hgs.canonical hg (h.linkage ▸ hlocal)]

/-- What is left as it is, is a declaration. -/
theorem isDeclaration_of_not_canonical {f : FunctionDefinition}
    (hintrinsic : f.isIntrinsic = true → f.isDeclaration = true) (h : f.canonical = false) :
    f.isDeclaration = true := by
  cases hdebug : f.debugFunction with
  | true => exact hintrinsic (isIntrinsic_of_debugFunction hdebug)
  | false =>
    have hswap : f.byteSwapPrimitive = true := by
      simpa [FunctionDefinition.canonical, hdebug] using h
    unfold CapturedFunction.byteSwapPrimitive at hswap
    simp only [Bool.and_eq_true] at hswap
    exact hswap.1.1.1.1.1.1.1.1.2

theorem freeFunction_renamed {f g : FunctionDefinition} (h : RenamedFunction f g) {a b : VerifiedModule}
    (hf : f ∈ a.functions) (hg : g ∈ b.functions) (index : ℕ) :
    printable (freeFunction target index f) = printable (freeFunction target index g) := by
  have hcanonical := h.canonical a.localsDefined b.localsDefined hf hg
  unfold freeFunction
  rw [← hcanonical]
  split
  · have hname : freeName index f = freeName index g := by
      unfold freeName
      rw [← h.linkage]
      cases hlocal : f.linkage.isLocal with
      | false => exact h.name hlocal
      | true => rfl
    rw [hname, canonicalBody_renamed h _ (a.phis f hf)]
  · rename_i hnot
    have hnot : f.canonical = false := by simpa using hnot
    have hlocal : f.linkage.isLocal = false := by
      by_contra hlocal
      rw [a.localsDefined.canonical hf (by simpa using hlocal)] at hnot
      simp at hnot
    have hdeclaration := isDeclaration_of_not_canonical (a.intrinsics f hf) hnot
    have hblocks : g.blocks = f.blocks := by
      have hnone := a.declarations f hf hdeclaration
      have hrenamed := h.blocks
      rw [hnone] at hrenamed ⊢
      exact (List.forall₂_nil_left_iff.mp hrenamed)
    have hprints : ∀ k : FunctionDefinition, k.isDeclaration = true →
        printable k = { k with arguments := [] } := fun k hk => by simp [printable, hk]
    have hsame := congrArg (fun k : FunctionDefinition => { k with arguments := [] }) h.same
    rw [hprints f hdeclaration, hprints g (h.isDeclaration ▸ hdeclaration), ← hsame]
    simp only [hblocks, ← h.name hlocal]

theorem freeFunctions_renamed {a b : VerifiedModule} {fs gs : List FunctionDefinition}
    (h : List.Forall₂ RenamedFunction fs gs) (hfs : ∀ f ∈ fs, f ∈ a.functions)
    (hgs : ∀ g ∈ gs, g ∈ b.functions) (index : ℕ) :
    (freeFunctions target index fs).map printable =
      (freeFunctions target index gs).map printable := by
  induction h generalizing index with
  | nil => rfl
  | @cons f g fs gs hfg _ ih =>
    obtain ⟨hf, hfs⟩ := List.forall_mem_cons.mp hfs
    obtain ⟨hg, hgs⟩ := List.forall_mem_cons.mp hgs
    have hnext : nextIndex index f = nextIndex index g := by
      unfold nextIndex
      rw [hfg.canonical a.localsDefined b.localsDefined hf hg, hfg.isDeclaration]
    rw [freeFunctions, freeFunctions, List.map_cons, List.map_cons, hnext,
      ih hfs hgs (nextIndex index g), freeFunction_renamed hfg hf hg]

theorem freeGlobals_renamed : ∀ {gs hs : List GlobalDefinition} (index : ℕ),
    List.Forall₂ RenamedGlobal gs hs → freeGlobals index gs = freeGlobals index hs
  | [], [], _, .nil => rfl
  | g :: gs, h :: hs, index, .cons hgh hrest => by
    have hlinkage : g.linkage = h.linkage := by rw [← hgh.same]
    have hname : (if g.linkage.isLocal then numbered "g" index else g.name) =
        if h.linkage.isLocal then numbered "g" index else h.name := by
      rw [← hlinkage]
      cases hlocal : g.linkage.isLocal with
      | false => exact hgh.name hlocal
      | true => rfl
    have hsame := congrArg (fun k : GlobalDefinition =>
      { k with name := if h.linkage.isLocal then numbered "g" index else h.name }) hgh.same
    have hfree : freeGlobal index g = freeGlobal index h := by
      unfold freeGlobal
      rw [hname]
      exact hsame
    rw [freeGlobals, freeGlobals, hfree, freeGlobals_renamed (index + 1) hrest]

theorem freeModule_renamed {a b : VerifiedModule}
    (h : RenamedModule a.toModuleContents b.toModuleContents) :
    moduleText (freeModule target a.toModuleContents) =
      moduleText (freeModule target b.toModuleContents) := by
  refine moduleText_congr ?_ ?_
  · change (placeFunctions _).map printable = (placeFunctions _).map printable
    rw [placeFunctions_printable, placeFunctions_printable,
      freeFunctions_renamed h.functions (fun f hf => hf) (fun g hg => hg)]
  · have hsame := h.same
    have hmetadata := congrArg ModuleContents.namedMetadata hsame
    have hflags := congrArg ModuleContents.flags hsame
    simp only [freeModule, canonicalize, freeGlobals_renamed 0 h.globals] at hmetadata hflags ⊢
    rw [hmetadata, hflags]

/-! ## Incoming pairs -/

theorem samePhis_canonicalBody (f : FunctionDefinition) (name : String) :
    SamePhis f (canonicalBody target { f with name := name }) := by
  unfold SamePhis canonicalBody
  rw [List.forall₂_map_right_iff]
  refine List.forall₂_same.mpr fun b _ => ?_
  have hfilter : (canonicalBlock f.blocks.length b).instructions.filter (fun i => !i.isDebug) =
      (b.instructions.filter fun i => !i.isDebug).map (canonicalInstruction f.blocks.length) := by
    simp only [canonicalBlock, List.filter_map, List.filter_filter]
    congr 1
    exact List.filter_congr fun i _ => Bool.and_self _
  rw [hfilter, List.forall₂_map_right_iff]
  exact List.forall₂_same.mpr fun i _ => (sortIncoming_perm _ i.incoming).symm

theorem samePhis_refl (f : FunctionDefinition) : SamePhis f f :=
  List.forall₂_same.mpr fun _ _ => List.forall₂_same.mpr fun _ _ => List.Perm.refl _

/-- Naming keeps the functions, which of them are debug functions, and the pairs of each PHI. -/
theorem canonicalFunctions_phis {naming : Naming} {globals : List GlobalDefinition}
    {functions : List FunctionDefinition} (hdefined : LocalsDefined functions) :
    ∀ {before index}, List.Forall₂
      (fun f g => (SamePhis f g ∧ g.id = f.id) ∧ f.debugFunction = g.debugFunction) functions
      (canonicalFunctions naming target globals before index functions) := by
  induction functions with
  | nil =>
    intro before index
    exact .nil
  | cons f functions ih =>
    intro before index
    unfold canonicalFunctions
    by_cases hcanonical : f.canonical = true
    · rw [if_pos hcanonical]
      refine .cons ⟨⟨samePhis_canonicalBody f _, rfl⟩, ?_⟩ (ih hdefined.tail)
      have hdebug : f.debugFunction = false := by
        simp only [FunctionDefinition.canonical, Bool.and_eq_true, Bool.not_eq_true'] at hcanonical
        exact hcanonical.1
      cases hlocal : f.linkage.isLocal with
      | false =>
        have hsame : (canonicalBody target { f with name := f.name }).debugFunction =
          f.debugFunction := rfl
        simp only [Bool.false_eq_true, if_false]
        exact hsame.symm
      | true =>
        have hname : ∀ name, (canonicalBody target { f with name := name }).name = name :=
          fun _ => rfl
        rw [hdebug, if_pos rfl, setName]
        split
        · exact (debugFunction_of_numbered (.inl rfl) (hname (numbered "f" index ++ _))).symm
        · have hempty := (hname (numbered "f" index)).trans String.append_empty.symm
          exact (debugFunction_of_numbered (.inl rfl) hempty).symm
    · rw [if_neg hcanonical]
      exact .cons ⟨⟨samePhis_refl f, rfl⟩, rfl⟩ (ih hdefined.tail)

theorem forall₂_filter {α β : Type} {R : α → β → Prop} {p : α → Bool} {q : β → Bool}
    {xs : List α} {ys : List β} (h : List.Forall₂ (fun x y => R x y ∧ p x = q y) xs ys) :
    List.Forall₂ R (xs.filter p) (ys.filter q) := by
  induction h with
  | nil => exact .nil
  | @cons x y xs ys hxy _ ih =>
    rw [List.filter_cons, List.filter_cons, hxy.2]
    split
    · exact .cons hxy.1 ih
    · exact ih

theorem placeFunctions_perm (fs : List FunctionDefinition) :
    (placeFunctions fs).Perm (fs.filter fun f => !f.debugFunction) := by
  unfold placeFunctions
  refine ((List.mergeSort_perm _ _).append_left _).trans ?_
  have hsplit := List.filter_append_perm (fun f => !intrinsicDeclaration f)
    (fs.filter fun f => !f.debugFunction)
  simpa using hsplit

/-- Every PHI keeps its incoming pairs. -/
theorem canonicalize_phis (a : VerifiedModule) (naming : Naming) :
    PhisPreserved a.toModuleContents (canonicalize naming target a.toModuleContents) := by
  have hkept : List.Forall₂ (fun f g => SamePhis f g ∧ g.id = f.id)
      (a.functions.filter fun f => !f.debugFunction)
      ((canonicalFunctions naming target a.globals [] 0 a.functions).filter fun f =>
        !f.debugFunction) :=
    forall₂_filter ((canonicalFunctions_phis a.localsDefined).imp fun f g h =>
      ⟨h.1, congrArg (!·) h.2⟩)
  have hplaced := placeFunctions_perm (canonicalFunctions naming target a.globals [] 0 a.functions)
  refine ⟨?_, fun f hf g hg hid => ?_⟩
  · rw [← Checked.map_eq_of_forall₂ (hkept.imp fun _ _ h => h.2)]
    exact hplaced.map _
  · obtain ⟨source, hsource, hphis, hsame⟩ :=
      Checked.exists_of_forall₂_right hkept (hplaced.mem_iff.mp hg)
    -- A function of the result comes from one function : that of its identity.
    have hunique := List.inj_on_of_nodup_map (List.nodup_append.mp a.identities).1
    obtain rfl := hunique (List.mem_of_mem_filter hsource) hf (hsame.symm.trans hid)
    exact hphis

end Renamed

/-- Two modules that differ in private names and in the order of PHI lists have one canonical
text, however the symbol table renames apart, exactly when no generated name is taken in
either. The incoming pairs of every PHI are kept. -/
theorem canonicalize_text_iff (target : Baseline) (a b : VerifiedModule)
    (h : RenamedModule a.toModuleContents b.toModuleContents) :
    ((∀ naming naming', moduleText (canonicalize naming target a.toModuleContents) =
        moduleText (canonicalize naming' target b.toModuleContents)) ∧
      (∀ naming, PhisPreserved a.toModuleContents
        (canonicalize naming target a.toModuleContents)) ∧
      ∀ naming, PhisPreserved b.toModuleContents
        (canonicalize naming target b.toModuleContents)) ↔
      FreeNames a.toModuleContents ∧ FreeNames b.toModuleContents := by
  constructor
  · rintro ⟨htext, -, -⟩
    exact ⟨freeNames_of_text a ((htext _ (paddedNaming 0)).trans (htext _ (paddedNaming 0)).symm),
      freeNames_of_text b ((htext (paddedNaming 0) _).symm.trans (htext (paddedNaming 0) _))⟩
  · rintro ⟨hfreea, hfreeb⟩
    refine ⟨fun naming naming' => ?_, canonicalize_phis a, canonicalize_phis b⟩
    rw [canonicalize_of_freeNames a hfreea, canonicalize_of_freeNames b hfreeb]
    exact freeModule_renamed h

/-- The private names of a module, and one incoming list. -/
structure Spelling where
  first : String
  second : String
  table : String
  argument : String
  block : String
  counter : String
  incoming : List (ℕ × NativeOperand)

/-- Two static functions that call each other, one with a loop, and a static table of them,
under their names in the source. -/
def mutualContents (spelling : Spelling) : ModuleContents where
  functions :=
    [{ name := spelling.first, linkage := .internal, isDeclaration := false, id := 0,
       arguments := [spelling.argument],
       blocks := [{ instructions := [{ text := "br", operands := [.block 1] }] },
         { name := spelling.block,
           instructions := [
             { name := spelling.counter, text := "phi", incoming := spelling.incoming },
             { text := "call", operands := [.symbol 1, .value 0] }] }] },
     { name := spelling.second, linkage := .internal, isDeclaration := false, id := 1,
       blocks := [{ instructions := [{ text := "call", operands := [.symbol 0] }] }] },
     { name := "main", linkage := .external, isDeclaration := false, id := 2,
       blocks := [{ instructions := [{ text := "load", operands := [.symbol 3] }] }] }]
  globals :=
    [{ name := spelling.table, linkage := .internal, id := 3,
       initializer := [.symbol 0, .symbol 1] },
     { name := "state", linkage := .external, id := 4 }]

/-- The names are those of distinct symbols, none of an intrinsic, and the incoming list is one
of two blocks. -/
structure Spelling.Verified (spelling : Spelling) : Prop where
  distinct : [spelling.first, spelling.second, "main", spelling.table, "state"].Nodup
  first : "llvm.".toList.isPrefixOf spelling.first.toList = false
  second : "llvm.".toList.isPrefixOf spelling.second.toList = false
  incoming : ∀ p ∈ spelling.incoming, p.1 < 2 ∧ ∀ q ∈ spelling.incoming, p.1 = q.1 → p = q

def mutualModule (spelling : Spelling) (h : spelling.Verified) : VerifiedModule where
  toModuleContents := mutualContents spelling
  distinct := h.distinct.filter _
  identities := by
    have hids : [0, 1, 2, 3, 4].Nodup := by decide
    exact hids
  locals := by simp [mutualContents, Linkage.isLocal]
  intrinsics := by
    intro f hf hintrinsic
    rcases List.mem_cons.mp hf with rfl | hf
    · exact absurd (hintrinsic.symm.trans h.first) (by simp)
    rcases List.mem_cons.mp hf with rfl | hf
    · exact absurd (hintrinsic.symm.trans h.second) (by simp)
    · obtain rfl := List.mem_singleton.mp hf
      exact absurd hintrinsic (by decide)
  declarations := by simp [mutualContents]
  phis := by
    intro f hf b hb i hi p hp
    simp only [mutualContents, List.mem_cons, List.not_mem_nil, or_false] at hf
    rcases hf with rfl | rfl | rfl <;>
      simp only [List.mem_cons, List.not_mem_nil, or_false] at hb
    · rcases hb with rfl | rfl <;> simp only [List.mem_cons, List.not_mem_nil, or_false] at hi
      · simp [hi] at hp
      · rcases hi with rfl | rfl
        · exact h.incoming p hp
        · simp at hp
    · simp only [hb, List.mem_singleton] at hi
      simp [hi] at hp
    · simp only [hb, List.mem_singleton] at hi
      simp [hi] at hp

theorem mutualContents_renamed {spelling spelling' : Spelling}
    (h : spelling.incoming.Perm spelling'.incoming) :
    RenamedModule (mutualContents spelling) (mutualContents spelling') where
  functions := by
    have hsame : ∀ i : CapturedInstruction, RenamedInstruction i i := fun i => ⟨.refl _, rfl⟩
    refine .cons ⟨.cons (.cons (hsame _) .nil) (.cons (.cons ⟨h, rfl⟩ (.cons (hsame _) .nil)) .nil),
      rfl, by simp [Linkage.isLocal], rfl⟩ (.cons ⟨.cons (.cons (hsame _) .nil) .nil, rfl,
      by simp [Linkage.isLocal], rfl⟩ (.cons ⟨.cons (.cons (hsame _) .nil) .nil, rfl,
      fun _ => rfl, rfl⟩ .nil))
  globals := .cons ⟨by simp [Linkage.isLocal], rfl⟩ (.cons ⟨fun _ => rfl, rfl⟩ .nil)
  same := rfl

/-- What holds of each element with those before and after it, for the elements of a list. -/
theorem forall_split_cons {α : Type} {x : α} {xs : List α} {P : List α → α → List α → Prop}
    (hhead : P [] x xs)
    (htail : ∀ before y after, xs = before ++ y :: after → P (x :: before) y after) :
    ∀ before y after, x :: xs = before ++ y :: after → P before y after
  | [], _, _, heq => by
    obtain ⟨rfl, rfl⟩ := List.cons.inj heq
    exact hhead
  | _ :: before, y, after, heq => by
    obtain ⟨rfl, hrest⟩ := List.cons.inj heq
    exact htail before y after hrest

theorem forall_split_nil {α : Type} {P : List α → α → List α → Prop} :
    ∀ before y after, ([] : List α) = before ++ y :: after → P before y after :=
  fun _ _ _ heq => absurd heq (by simp)

/-- The names are free where neither the second source name is the first generated one nor the
table has a generated name of a function. -/
theorem mutualContents_free {spelling : Spelling} (h : spelling.Verified)
    (hsecond : spelling.second ≠ "f0")
    (htable : spelling.table ≠ "f0" ∧ spelling.table ≠ "f1") :
    FreeNames (mutualContents spelling) where
  functions := by
    have hnames : numbered "f" 0 = "f0" ∧ numbered "f" 1 = "f1" := by decide
    -- The first function is a definition that is not left as it is, so it is counted.
    have hcounted : ∀ f : FunctionDefinition, f.name = spelling.first → f.isDeclaration = false →
        f.intrinsicID = none → definitionsIn [f] = 1 := by
      intro f hname hdefined hintrinsic
      have hdebug : f.debugFunction = false := by
        refine Bool.eq_false_iff.mpr fun hdebug => ?_
        have hfirst := isIntrinsic_of_debugFunction hdebug
        rw [CapturedFunction.isIntrinsic, hname, h.first] at hfirst
        exact Bool.false_ne_true hfirst
      simp [definitionsIn, FunctionDefinition.canonical, hdebug, CapturedFunction.byteSwapPrimitive,
        hintrinsic, hdefined]
    refine forall_split_cons (fun _ => ⟨by simp, ?_, ?_⟩) (forall_split_cons
      (fun _ => ?_) (forall_split_cons (fun hlocal => ?_) forall_split_nil))
    · simpa [definitionsIn, hnames] using hsecond
    · simpa [mutualContents, definitionsIn, hnames] using htable.1
    · rw [hcounted _ rfl rfl rfl, hnames.2]
      exact ⟨by simp [Linkage.isLocal], by simp, by simpa [mutualContents] using htable.2⟩
    · exact absurd hlocal (by simp [Linkage.isLocal])
  globals := by
    have hname : numbered "g" 0 = "g0" := by decide
    refine forall_split_cons (fun _ => ⟨?_, by simp, ?_⟩) (forall_split_cons
      (fun hlocal => absurd hlocal (by simp [Linkage.isLocal])) forall_split_nil)
    · simp [mutualContents, Linkage.isLocal, hname]
    · simp [hname]

/-- The names of the source. -/
def parity : Spelling :=
  ⟨"even", "odd", "table", "n", "loop", "i", [(0, .literal "0"), (1, .value 2)]⟩

/-- Other names, and the incoming list the other way round. -/
def parityRenamed : Spelling :=
  ⟨"isEven", "isOdd", "parity", "count", "again", "k", [(1, .value 2), (0, .literal "0")]⟩

theorem parity_verified : parity.Verified :=
  ⟨by decide, by decide, by decide, by decide⟩

theorem parityRenamed_verified : parityRenamed.Verified :=
  ⟨by decide, by decide, by decide, by decide⟩

theorem parity_renamed : RenamedModule (mutualContents parity) (mutualContents parityRenamed) :=
  mutualContents_renamed (List.Perm.swap _ _ _)

theorem mutualModule_text :
    moduleText (canonicalize (paddedNaming 0) ⟨"x86-64", "", "", ""⟩ (mutualContents parity)) =
        moduleText (canonicalize (paddedNaming 1) ⟨"x86-64", "", "", ""⟩
          (mutualContents parityRenamed)) ∧
      PhisPreserved (mutualContents parity)
        (canonicalize (paddedNaming 0) ⟨"x86-64", "", "", ""⟩ (mutualContents parity)) := by
  have h := (canonicalize_text_iff ⟨"x86-64", "", "", ""⟩ (mutualModule parity parity_verified)
    (mutualModule parityRenamed parityRenamed_verified) parity_renamed).mpr
      ⟨mutualContents_free parity_verified (by decide) (by decide),
        mutualContents_free parityRenamed_verified (by decide) (by decide)⟩
  exact ⟨h.1 _ _, h.2.1 _⟩

/-- Source names that are generated ones. -/
def parityTaken : Spelling := { parity with first := "f1", second := "f0" }

/-- The functions `f1` and `f0`, in this order, keep a trace of their source names. -/
theorem mutualModule_collides : ∃ target naming, parity.Verified ∧ parityTaken.Verified ∧
    RenamedModule (mutualContents parity) (mutualContents parityTaken) ∧
    moduleText (canonicalize naming target (mutualContents parity)) ≠
      moduleText (canonicalize naming target (mutualContents parityTaken)) := by
  refine ⟨⟨"x86-64", "", "", ""⟩, paddedNaming 0, parity_verified,
    ⟨by decide, by decide, by decide, by decide⟩, mutualContents_renamed (List.Perm.refl _),
    fun heq => ?_⟩
  have hnames := congrArg (fun text : ModuleText => text.functions.map DefinitionText.name) heq
  exact absurd hnames (by decide +kernel)

end Sela
