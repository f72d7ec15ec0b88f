import Sela.Association
import Sela.Checked
import Sela.Json
import Sela.Paths

/-!
# Native objects of a build

What a build observes of its native inputs. An object carries the journals of its captures in
a section of its own, each ended by a null (`captureMarkers`). A shared object names itself and
what it needs (`dynamicInfo`). A member of an archive is selected by the journal it must carry
(`selectedArchiveMember`), and an object that is linked is checked against its journal
(`consumedObject`).

The readers of object files, archives and files are parameters of the build.
-/

namespace Sela

open Checked

structure ObjectSection where
  name : Checked String
  contents : Checked String

inductive DynamicTag
  | needed
  | soname
  | other
  deriving DecidableEq

structure DynamicEntry where
  tag : DynamicTag
  offset : ℕ

/-- A section of an ELF object, with the string table it is linked to. -/
structure ElfSection where
  isDynamic : Bool
  stringTable : Checked String
  entries : Checked (List DynamicEntry)

structure ElfObject where
  type : ℕ
  machine : ℕ
  addressBytes : ℕ
  isLittleEndian : Bool
  platformFlags : ℕ
  sections : Checked (List ElfSection)

/-- An object file, which need not be an ELF object. -/
structure ObjectFile where
  sections : List ObjectSection
  elf : Option ElfObject

structure ArchiveChild where
  name : Checked String
  fullName : Checked String
  buffer : Checked String

/-- An archive, with the failure that ends its children. -/
structure NativeArchive where
  isThin : Bool
  children : List ArchiveChild
  failure : Option String

/-- What a build takes from elsewhere : the selected profile, the files, and the readers of their
contents. -/
structure BuildEnvironment where
  profile : Option String
  sdkRoot : String
  absolutePath : String → String
  read : String → ℕ → Checked String
  parse : String → Checked Json
  object : String → Checked ObjectFile
  archive : String → String → Checked NativeArchive
  digest : String → String
  /-- Save an object that is not saved yet. -/
  save : String → String → Checked Unit
  /-- Replace the contents of a private record. -/
  replace : String → Json → Checked Unit

/-- The limit of a file that has none of its own. -/
def readLimit : ℕ := 64 * 1024 * 1024

def inside (path root : String) : Bool := Paths.inside path.toList root.toList

def BuildEnvironment.readJson (env : BuildEnvironment) (path : String) : Checked Json := do
  let bytes ← env.read path (1024 * 1024)
  env.parse bytes

/-- The private record of an output. -/
def BuildEnvironment.metadataPath (env : BuildEnvironment) (directory output kind : String) : String :=
  Paths.join directory (env.digest (env.absolutePath output) ++ "." ++ kind ++ ".json")

/-- The strings of an optional field. -/
def strings (object : Json.Object) (key : String) : Checked (List String) :=
  match object.get key with
  | none => pure []
  | some value => do
    let array ← require value.asArray? ("private build field must be a string array: " ++ key)
    array.mapM fun item => do
      let text ← require item.asString? "invalid private build string"
      ensure ('\x00' ∉ text.toList) "invalid private build string"
      pure text

/-! ## Capture markers -/

/-- The texts that end in nulls. -/
def readMarkers (name : String) (remaining : List Char) : Checked (List String) :=
  if h : remaining = [] then pure []
  else do
    let marker := remaining.takeWhile (· ≠ '\x00')
    ensure (marker ≠ [] ∧ marker.length < remaining.length ∧ marker.length ≤ 4096)
      ("invalid private capture witness in " ++ name)
    let markers ← readMarkers name (remaining.drop (marker.length + 1))
    pure (String.ofList marker :: markers)
termination_by remaining.length
decreasing_by
  have := List.length_pos_iff.mpr h
  simp only [List.length_drop]
  omega

/-- The markers of one more section, and whether there were any. -/
def addMarkers (name : String) (state : List String × Bool) (entry : ObjectSection) :
    Checked (List String × Bool) := do
  let sectionName ← entry.name
  if sectionName ≠ ".sela.capture" then pure state
  else do
    ensure (state.2 = false) ("multiple private capture sections in " ++ name)
    let contents ← entry.contents
    ensure (contents.length ≤ 8 * 1024 * 1024) ("private capture witness exceeds limit: " ++ name)
    let markers ← readMarkers name contents.toList
    pure (state.1 ++ markers, true)

/-- The journals an object carries. -/
def captureMarkers (object : ObjectFile) (name : String) : Checked (List String) := do
  let state ← object.sections.foldlM (addMarkers name) ([], false)
  pure state.1

/-! ## Shared objects -/

structure DynamicInfo where
  soname : String := ""
  needed : List String := []

/-- The name at an offset of a string table. -/
def dynamicName (table : String) (offset : ℕ) : Checked String := do
  ensure (offset < table.length) "invalid ELF dynamic string offset"
  let tail := table.toList.drop offset
  ensure ('\x00' ∈ tail) "unterminated ELF dynamic name"
  let name := String.ofList (tail.takeWhile (· ≠ '\x00'))
  ensure (name ≠ "" ∧ name.length ≤ 255 ∧ '/' ∉ name.toList ∧ name ≠ "." ∧ name ≠ "..")
    "nonportable native dependency identity"
  pure name

def DynamicInfo.addEntry (table : String) (info : DynamicInfo) (entry : DynamicEntry) :
    Checked DynamicInfo :=
  match entry.tag with
  | .other => pure info
  | .needed => do
    let name ← dynamicName table entry.offset
    pure { info with needed := info.needed ++ [name] }
  | .soname => do
    let name ← dynamicName table entry.offset
    pure { info with soname := name }

def DynamicInfo.addSection (info : DynamicInfo) (entry : ElfSection) : Checked DynamicInfo :=
  if entry.isDynamic then do
    let table ← entry.stringTable
    let entries ← entry.entries
    entries.foldlM (addEntry table) info
  else pure info

/-- The names a shared object has and needs. -/
def dynamicInfo (object : ObjectFile) : Checked DynamicInfo :=
  match object.elf with
  | some elf =>
    if elf.isLittleEndian ∧ (elf.addressBytes = 4 ∨ elf.addressBytes = 8) then do
      let sections ← elf.sections
      sections.foldlM DynamicInfo.addSection {}
    else throw "native build observer requires a qualified little-endian ELF object"
  | none => throw "native build observer requires a qualified little-endian ELF object"

/-! ## Linked objects -/

section Inputs

variable (env : BuildEnvironment)

/-- The member selected so far, with one more child. -/
def selectChild (archive : NativeArchive) (memberName lane expectedJournal : String)
    (selected : Option String) (child : ArchiveChild) : Checked (Option String) := do
  let name ← child.name
  if name ≠ memberName then pure selected
  else do
    if archive.isThin then
      let memberPath ← child.fullName
      ensure (inside (env.absolutePath memberPath) lane)
        ("thin archive member escapes private build: " ++ memberName)
    let contents ← child.buffer
    ensure (contents.length ≤ 64 * 1024 * 1024) "archive member exceeds capture limit"
    match env.object contents >>= fun object => captureMarkers object name with
    | .error _ => pure selected
    | .ok markers =>
      if markers ≠ [expectedJournal] then pure selected
      else do
        ensure (selected = none) ("ambiguous repeated-journal archive member: " ++ memberName)
        pure (some contents)

/-- The children of an archive came to their end. -/
def ensureComplete (failure : Option String) : Checked Unit :=
  match failure with
  | some message => throw message
  | none => pure ()

/-- The contents of the member of a name that carries a journal. -/
def selectedArchiveMember (path memberName lane expectedJournal : String) : Checked String := do
  let bytes ← env.read path readLimit
  let archive ← env.archive bytes path
  let selected ← archive.children.foldlM (selectChild env archive memberName lane expectedJournal) none
  ensureComplete archive.failure
  require selected ("archive member does not match final native capture witness: " ++ memberName)

/-- An input of the compiler is as it was. -/
def checkDependency (dependency : Json) : Checked Unit := do
  let input ← require dependency.asObject? "invalid compiler input provenance"
  let path ← require (input.getString "path") "invalid compiler input provenance"
  let sha256 ← require (input.getString "sha256") "invalid compiler input provenance"
  let contents ← env.read path readLimit
  ensure (env.digest contents = sha256) ("compiler input changed before link: " ++ path)

/-- The fields of a journal. -/
structure JournalFields where
  capture : String
  captureSha256 : String
  nativeSha256 : String
  dependencies : List Json

def journalFields (item : Json.Object) : Option JournalFields := do
  let capture ← item.getString "capture"
  let captureSha256 ← item.getString "capture_sha256"
  let nativeSha256 ← item.getString "native_sha256"
  let _ ← item.getString "source"
  let _ ← item.getString "optimization"
  let _ ← item.getArray "flags"
  let dependencies ← item.getArray "dependencies"
  pure ⟨capture, captureSha256, nativeSha256, dependencies⟩

/-- The journal of an object that is linked, with the object it was checked against. -/
def linkedJournal (item : Json.Object) (sha256 saved : String) : Json :=
  .object (Association.update "native_object" (fun _ => .string saved)
    (Association.update "native_sha256" (fun _ => .string sha256) item))

/-- The journal of a native object that is linked, checked against the object and what it was
compiled from. -/
def consumedObject (metadata bytes name : String) : Checked Json := do
  let object ← env.object bytes
  let markers ← captureMarkers object name
  ensure (markers ≠ []) ("native object has no private capture marker: " ++ name)
  ensure (markers.length = 1) ("native object has multiple private capture markers: " ++ name)
  let journalPath := markers.headD ""
  ensure (Paths.isAbsolute journalPath.toList ∧ inside (env.absolutePath journalPath) metadata)
    ("object capture journal escapes private metadata: " ++ name)
  let journal ← env.readJson journalPath
  let item ← require journal.asObject? ("invalid immutable native capture journal: " ++ journalPath)
  let fields ← require (journalFields item)
    ("invalid immutable native capture journal: " ++ journalPath)
  ensure (fields.nativeSha256 = env.digest bytes)
    ("native object changed after successful Clang code generation: " ++ name)
  ensure (inside (env.absolutePath fields.capture) metadata) "LLVM capture escapes private metadata"
  let captured ← env.read fields.capture readLimit
  ensure (env.digest captured = fields.captureSha256)
    "LLVM capture changed after native code generation"
  fields.dependencies.forM (checkDependency env)
  let saved := Paths.join metadata (env.digest bytes ++ ".native.o")
  env.save saved bytes
  pure (linkedJournal item (env.digest bytes) saved)

end Inputs

end Sela
