import Sela.NativeObject

/-!
# The record of a native link

A link of a build is recorded after the linker ran : from its arguments, from the trace of the
inputs it selected, and from the journals the linked output carries, in their order. Each private
input of the trace is matched with the next journal of the output and contributes the unit that
it is checked against; anything that is not understood is listed as unsupported.

A record that is written without unsupported entries has exactly the units of the output
(`recordNativeLink_exact`) : the journals of the output are distinct, and the private inputs of
the trace, in order, are the objects that carry them.
-/

namespace Sela

open Checked

/-! ## Targets -/

/-- The registry fields a native link is checked against. -/
structure LinkTarget where
  id : String
  sysrootTriple : String
  multiarch : String
  abi : String
  byteOrder : String
  loader : String
  lldEmulation : String
  wordBits : ℕ
  elfMachine : ℕ

namespace LinkTarget

def x86_64 : LinkTarget :=
  ⟨"x86_64", "x86_64-linux-gnu", "x86_64-linux-gnu", "sysv-amd64", "little",
    "ld-linux-x86-64.so.2", "elf_x86_64", 64, 62⟩

def all : List LinkTarget :=
  [x86_64,
    ⟨"i686", "i686-linux-gnu", "i386-linux-gnu", "sysv-i386", "little", "ld-linux.so.2", "elf_i386",
      32, 3⟩,
    ⟨"armv7", "armv7-linux-gnueabihf", "arm-linux-gnueabihf", "aapcs32-vfp", "little",
      "ld-linux-armhf.so.3", "armelf_linux_eabi", 32, 40⟩,
    ⟨"aarch64", "aarch64-linux-gnu", "aarch64-linux-gnu", "aapcs64", "little",
      "ld-linux-aarch64.so.1", "aarch64linux", 64, 183⟩]

def find (id : String) : Option LinkTarget := all.find? fun target => target.id = id

end LinkTarget

/-! ## Arguments -/

/-- What the arguments of the linker say so far. -/
structure LinkArguments where
  output : String := "a.out"
  kind : String := "executable"
  versionScript : String := ""
  interpreter : String := ""
  hashStyle : String := "gnu"
  linkOptions : List String := []
  unsupported : List String := []

/-- Every occurrence of a text replaced. -/
def normalizeChars (root : List Char) (text : List Char) : List Char :=
  match text with
  | [] => []
  | c :: rest =>
    if root ≠ [] ∧ root.isPrefixOf (c :: rest) then
      "$PRIVATE".toList ++ normalizeChars root (rest.drop (root.length - 1))
    else c :: normalizeChars root rest
termination_by text.length
decreasing_by
  all_goals simp only [List.length_drop, List.length_cons]; omega

/-- A text without the path of the private build. -/
def normalize (text root : String) : String :=
  String.ofList (normalizeChars root.toList text.toList)

def startsWith (text start : String) : Bool := start.toList.isPrefixOf text.toList

def dropFront (text : String) (count : ℕ) : String := String.ofList (text.toList.drop count)

section Arguments

variable (env : BuildEnvironment) (target : LinkTarget) (lane : String)

namespace LinkArguments

def reject (s : LinkArguments) (message : String) : LinkArguments :=
  { s with unsupported := s.unsupported ++ [message] }

def addOption (s : LinkArguments) (options : List String) : LinkArguments :=
  { s with linkOptions := s.linkOptions ++ options }

/-- A directory the linker searches is the SDK's or the build's. -/
def searchPath (directory text : String) (s : LinkArguments) : LinkArguments :=
  if !inside directory (env.absolutePath env.sdkRoot) && !inside directory lane &&
      directory ≠ lane then
    s.reject ("library search path outside captured build/SDK " ++ normalize text lane)
  else s

def readVersionScript (path : String) (s : LinkArguments) : Checked LinkArguments := do
  ensure (s.versionScript = "") "multiple version scripts are not yet qualified"
  let contents ← env.read path (1024 * 1024)
  pure { s with versionScript := contents }

/-- Options with a value of their own. -/
def valued : List String :=
  ["-m", "-z", "-rpath", "--rpath", "-rpath-link", "--rpath-link", "-dynamic-linker",
    "--dynamic-linker", "-L"]

/-- Options that say nothing a record has to keep. -/
def ordinary : List String :=
  ["-pie", "--pie", "--eh-frame-hdr", "--as-needed", "--no-as-needed", "--enable-new-dtags",
    "--build-id", "-s", "--strip-all", "--whole-archive", "--no-whole-archive", "--start-group",
    "--end-group", "-(", "-)", "-t", "--trace"]

/-- The failure of an option whose value is missing, for the options that have one. -/
def missingValue (arg : String) : Option String :=
  if arg = "-o" then some "native linker -o has no value"
  else if arg ∈ ["-soname", "--soname", "-h"] then some "native linker SONAME has no value"
  else if arg ∈ valued then some "native linker option has no value"
  else if arg = "--version-script" then some "version script has no path"
  else if arg = "-T" then some "native linker script has no value"
  else none

/-- A valued option with its value. -/
def setting (arg value : String) (s : LinkArguments) : LinkArguments :=
  let s := if arg = "-m" ∧ value ≠ target.lldEmulation then
    s.reject ("native linker emulation contradicts target profile: " ++ value) else s
  let s := if arg = "-dynamic-linker" ∨ arg = "--dynamic-linker" then
    { s with interpreter := value } else s
  let s := if arg = "-z" ∧ value ∉ ["relro", "now", "nodefaultlib"] then
    s.reject ("unqualified native -z setting " ++ value) else s
  if arg ∈ ["-L", "-rpath", "--rpath", "-rpath-link", "--rpath-link"] then
    searchPath env lane (env.absolutePath value) value s
  else s

/-- An option that has a value. -/
def readOption (arg value : String) (s : LinkArguments) : Checked LinkArguments :=
  if arg = "-o" then pure { s with output := value }
  else if arg ∈ ["-soname", "--soname", "-h"] then pure (s.addOption ["-soname", value])
  else if arg ∈ valued then pure (setting env target lane arg value s)
  else if arg = "--version-script" then readVersionScript env value s
  else pure (s.reject ("unqualified link semantic " ++ arg))

/-- An argument that has no value of its own. -/
def readFlag (args : List String) (arg : String) (s : LinkArguments) : Checked LinkArguments :=
  if startsWith arg "-o" ∧ 2 < arg.length then pure { s with output := dropFront arg 2 }
  else if arg = "-shared" ∨ arg = "--shared" then pure { s with kind := "shared" }
  else if startsWith arg "--soname=" ∨ startsWith arg "-soname=" then
    pure (s.addOption ["-soname", dropFront arg (arg.toList.idxOf '=' + 1)])
  else if arg ∈ ["-export-dynamic", "--export-dynamic", "-E"] then
    pure (s.addOption ["--export-dynamic"])
  else if arg = "--hash-style=both" ∨ arg = "--hash-style=gnu" then
    pure { s with hashStyle := dropFront arg 13 }
  else if startsWith arg "--dynamic-linker=" then pure { s with interpreter := dropFront arg 17 }
  else if arg = "--undefined-version" then pure (s.addOption [arg])
  else if arg = "-EL" ∨ arg = "--little-endian" then
    pure (if target.byteOrder ≠ "little" then
      s.reject "native linker byte order contradicts target profile" else s)
  else if arg = "-X" ∨ arg = "--discard-locals" then
    pure (if "--strip-all" ∉ args ∧ "-s" ∉ args then
      s.reject "discard-locals requires the qualified full-stripping policy" else s)
  else if startsWith arg "-l" then pure s
  else if startsWith arg "--version-script=" then readVersionScript env (dropFront arg 17) s
  else if arg ∈ ["-r", "--relocatable", "-static"] then
    pure (s.reject ("unqualified link semantic " ++ arg))
  else if !startsWith arg "-" ∧ arg ≠ "" then pure s
  else if startsWith arg "-L" then
    pure (searchPath env lane (env.absolutePath (dropFront arg 2)) arg s)
  else if arg ∉ ordinary ∧ !startsWith arg "--sysroot=" ∧ arg ≠ "--build-id=fast" then
    pure (s.reject ("unknown native link semantic " ++ arg))
  else pure s

end LinkArguments

/-- The arguments of the linker, of which `args` are all. -/
def readArguments (args : List String) : List String → LinkArguments → Checked LinkArguments
  | [], s => pure s
  | arg :: rest, s =>
    match LinkArguments.missingValue arg with
    | none => do
      let s ← s.readFlag env target lane args arg
      readArguments args rest s
    | some message =>
      match rest with
      | [] => throw message
      | value :: rest => do
        let s ← s.readOption env target lane arg value
        readArguments args rest s

end Arguments

/-! ## The trace -/

/-- A line of the trace that names a member of an archive : the archive and the member. -/
def memberOf (line : String) : Option (String × String) :=
  if line.toList.getLast? = some ')' ∧ '(' ∈ line.toList then
    let opened := line.length - 1 - line.toList.reverse.idxOf '('
    some (String.ofList (line.toList.take opened),
      String.ofList (line.toList.drop (opened + 1)).dropLast)
  else none

/-- The types of an ELF object. -/
def etRel : ℕ := 1

def etDyn : ℕ := 3

structure TraceState where
  markerPosition : ℕ := 0
  units : List Json := []
  unsupported : List String
  privateDSOs : List (String × String) := []
  managedLoaderSelected : Bool := false
  selectedArchiveNames : List String := []

namespace TraceState

def reject (s : TraceState) (message : String) : TraceState :=
  { s with unsupported := s.unsupported ++ [message] }

end TraceState

section Trace

variable (env : BuildEnvironment) (lane metadata interpreter : String) (journals : List String)

/-- A private shared object, which needs a qualified record of its own link. -/
def readSharedObject (line path contents : String) (object : ObjectFile) (s : TraceState) :
    Checked TraceState :=
  match dynamicInfo object with
  | .error message => pure (s.reject message)
  | .ok info =>
    match env.readJson (env.metadataPath metadata path "link") with
    | .error _ => pure (s.reject ("DSO lacks private build provenance: " ++ line))
    | .ok dependency =>
      match dependency.asObject? with
      | none => pure (s.reject ("DSO identity/provenance mismatch: " ++ line))
      | some record =>
        if record.getString "native_sha256" ≠ some (env.digest contents) ∨
            record.getString "kind" ≠ some "shared" ∨ info.soname = "" then
          pure (s.reject ("DSO identity/provenance mismatch: " ++ line))
        else do
          let errors ← strings record "unsupported"
          match errors with
          | error :: _ => pure (s.reject ("unqualified DSO dependency: " ++ error))
          | [] =>
            match s.privateDSOs.lookup info.soname with
            | none => pure { s with privateDSOs := s.privateDSOs ++ [(info.soname, path)] }
            | some other =>
              if other ≠ path then
                pure (s.reject ("conflicting native DSO SONAME: " ++ info.soname))
              else pure s

/-- A private object, whose journal comes next in the output. -/
def readRelocatable (line contents : String) (object : ObjectFile) (s : TraceState) : TraceState :=
  match captureMarkers object line with
  | .error message => s.reject message
  | .ok markers =>
    if markers.length ≠ 1 ∨ journals.length ≤ s.markerPosition ∨
        markers.head? ≠ journals[s.markerPosition]? then
      s.reject ("native trace/final capture witness order mismatch: " ++ line)
    else
      let s := { s with markerPosition := s.markerPosition + 1 }
      match consumedObject env metadata contents line with
      | .error message => s.reject message
      | .ok journal => { s with units := s.units ++ [journal] }

/-- A private input by its contents. -/
def readInput (line path contents : String) (isMember : Bool) (s : TraceState) :
    Checked TraceState :=
  match env.object contents with
  | .error message => pure (s.reject message)
  | .ok object =>
    match object.elf with
    | none => pure (s.reject "non-ELF native input")
    | some elf =>
      if !isMember ∧ elf.type = etDyn then readSharedObject env metadata line path contents object s
      else if elf.type ≠ etRel then pure (s.reject "non-relocatable ordinary link input")
      else pure (readRelocatable env metadata journals line contents object s)

/-- One line of the trace. -/
def readLine (s : TraceState) (line : String) : Checked TraceState :=
  match memberOf line with
  | some (archive, member) =>
    let path := env.absolutePath archive
    if inside path (env.absolutePath env.sdkRoot) then pure s
    else if !inside path lane then pure (s.reject "archive input outside private build")
    else
      let s := { s with selectedArchiveNames := s.selectedArchiveNames ++ [line] }
      match journals[s.markerPosition]? with
      | none => pure (s.reject "archive extraction exceeds final native capture witness")
      | some journal =>
        match selectedArchiveMember env path member lane journal with
        | .error message => pure (s.reject message)
        | .ok contents => readInput env metadata journals line path contents true s
  | none =>
    let path := env.absolutePath line
    if inside path (env.absolutePath env.sdkRoot) then
      pure (if path = env.absolutePath interpreter then { s with managedLoaderSelected := true } else s)
    else if !inside path lane then
      pure (s.reject ("native input outside private build: " ++ line))
    else
      match env.read path readLimit with
      | .error message => pure (s.reject message)
      | .ok contents => readInput env metadata journals line path contents false s

end Trace

/-- The lines of a text that are not empty. -/
def linesOf (text : String) : List String :=
  ((text.toList.splitOn '\n').filter (· ≠ [])).map String.ofList

/-! ## The record -/

/-- The record of a link. -/
structure LinkRecord where
  nativeSha256 : String
  kind : String
  units : List Json
  libraries : List String
  linkOptions : List String
  versionScript : String
  unsupported : List String

namespace LinkRecord

def json (record : LinkRecord) : Json :=
  .object [("native_sha256", .string record.nativeSha256), ("kind", .string record.kind),
    ("units", .array record.units), ("libraries", .array (record.libraries.map Json.string)),
    ("link_options", .array (record.linkOptions.map Json.string)),
    ("version_script", .string record.versionScript),
    ("unsupported", .array (record.unsupported.map Json.string))]

end LinkRecord

section Record

variable (env : BuildEnvironment)

/-- Every extraction from a private archive is in the trace. -/
def checkExtraction (selectedArchiveNames : List String) (line : String) : Checked Unit := do
  match (line.toList.splitOn '\t').map String.ofList with
  | [_, extracted, _] =>
    ensure ('(' ∈ extracted.toList) "invalid extracted member identity"
    let archive := String.ofList
      (extracted.toList.take (extracted.length - 1 - extracted.toList.reverse.idxOf '('))
    ensure (inside (env.absolutePath archive) (env.absolutePath env.sdkRoot) ∨
      extracted ∈ selectedArchiveNames) "LLD archive extraction/trace mismatch"
  | _ => throw "malformed LLD archive extraction evidence"

/-- What the output lacks of the qualified kind and ABI of the target. -/
def outputFaults (target : LinkTarget) (object : ObjectFile) : List String :=
  let kind := if (object.elf.map ElfObject.type) ≠ some etDyn then
    ["selected native output is not the qualified PIE/shared ELF kind"] else []
  match object.elf with
  | none => kind
  | some elf =>
    kind ++ (if elf.machine ≠ target.elfMachine ∨ elf.addressBytes * 8 ≠ target.wordBits ∨
        !elf.isLittleEndian then ["selected native ELF ABI contradicts target profile"] else []) ++
      if target.abi = "aapcs32-vfp" ∧ (elf.platformFlags &&& 0xff000000 ≠ 0x05000000 ∨
          elf.platformFlags &&& 0x400 = 0 ∨ elf.platformFlags &&& (0x200 ||| 0x00800000) ≠ 0) then
        ["selected native ELF is not the required little-endian ARM EABI5 hard-float ABI"] else []

/-- The end of the trace, where every journal of the output has to be matched. -/
def TraceState.finish (s : TraceState) (journals : List String) : TraceState :=
  if s.markerPosition ≠ journals.length then
    s.reject "final native capture witness contains unmatched input journals"
  else s

/-- One library the output needs : the libraries of the record, and what is unsupported. -/
def addNeeded (target : LinkTarget) (s : TraceState) (state : List String × List String)
    (needed : String) : List String × List String :=
  if (s.privateDSOs.lookup needed).isSome then (state.1 ++ [":" ++ needed], state.2)
  else if needed = "libc.so.6" then state
  else if needed = target.loader ∧ s.managedLoaderSelected then state
  else if needed = "libm.so.6" then (state.1 ++ ["m"], state.2)
  else (state.1, state.2 ++ ["native dependency is not a captured/managed DSO: " ++ needed])

/-- A repeated journal of the output, for each repetition. -/
def repetitions : List String → List String → List String
  | _, [] => []
  | seen, journal :: rest =>
    if journal ∈ seen then "repeated journal in final native capture witness" :: repetitions seen rest
    else repetitions (seen ++ [journal]) rest

/-- The journals of the output, and what is unsupported of them. -/
def finalJournals (object : ObjectFile) (output : String) : List String × List String :=
  match captureMarkers object output with
  | .error message => ([], [message])
  | .ok journals => (journals, repetitions [] journals)

/-- The path of the interpreter of executables. -/
def expectedInterpreter (target : LinkTarget) : String :=
  Paths.join (Paths.join (Paths.join (Paths.join (Paths.join env.sdkRoot "sysroots")
    target.sysrootTriple) "usr/lib") target.multiarch) target.loader

/-- The record of a link of an output, by what its arguments say. -/
def recordOutput (target : LinkTarget) (arguments : LinkArguments)
    (output lane metadata trace whyExtract : String) : Checked LinkRecord := do
  let linkOptions := arguments.linkOptions ++
    if arguments.hashStyle = "both" then ["--hash-style=both"] else []
  let interpreter := expectedInterpreter env target
  let unsupported := arguments.unsupported ++
    if arguments.kind = "executable" ∧ arguments.interpreter ≠ interpreter then
      ["unqualified native dynamic interpreter " ++ arguments.interpreter] else []
  let bytes ← env.read output readLimit
  let object ← env.object bytes
  let final := finalJournals object output
  let traceText ← env.read trace (8 * 1024 * 1024)
  let extraction ← env.read whyExtract (8 * 1024 * 1024)
  let s ← (linesOf traceText).foldlM (readLine env lane metadata interpreter final.1)
    { unsupported := unsupported ++ final.2 }
  let s := s.finish final.1
  (linesOf extraction).tail.forM (checkExtraction env s.selectedArchiveNames)
  let dynamic ← dynamicInfo object
  let needed := dynamic.needed.foldl (addNeeded target s) ([], [])
  pure ⟨env.digest bytes, arguments.kind, s.units, needed.1, linkOptions, arguments.versionScript,
    s.unsupported ++ outputFaults target object ++ needed.2⟩

/-- Record a link : the private record that is written and its path, nothing where the output is
discarded. -/
def recordNativeLink (args : List String) (lane metadata trace whyExtract : String) :
    Checked (Option (String × Json)) := do
  let target ← require (env.profile.bind LinkTarget.find) "native linker lacks a qualified profile"
  let arguments ← readArguments env target lane args args {}
  let output := env.absolutePath arguments.output
  if output = "/dev/null" then pure none
  else do
    ensure (inside output lane) "native link output escaped private build lane"
    let record ← recordOutput env target arguments output lane metadata trace whyExtract
    let path := env.metadataPath metadata output "link"
    env.replace path record.json
    pure (some (path, record.json))

end Record

/-! ## Private inputs and their units -/

section Inputs

variable (env : BuildEnvironment) (lane metadata : String)

/-- Whether a path is a shared object. -/
def isSharedObject (path : String) : Bool :=
  match env.read path readLimit >>= env.object with
  | .error _ => false
  | .ok object => object.elf.any fun elf => elf.type = etDyn

/-- The lines of the trace that a build has to account for : members of archives and objects
outside the SDK, but not shared objects. -/
def isPrivateInput (line : String) : Bool :=
  match memberOf line with
  | some (archive, _) => !inside (env.absolutePath archive) (env.absolutePath env.sdkRoot)
  | none => !inside (env.absolutePath line) (env.absolutePath env.sdkRoot) &&
      !isSharedObject env (env.absolutePath line)

/-- The contents of a private input that carries a journal. -/
def inputContents (line journal : String) : Checked String :=
  match memberOf line with
  | some (archive, member) =>
    selectedArchiveMember env (env.absolutePath archive) member lane journal
  | none => env.read (env.absolutePath line) readLimit

/-- A unit is the journal that a private input carries : the input is a relocatable object with
this journal alone, and the unit is what the journal says, with the object it was checked
against. -/
def IsUnit (line journal : String) (unit : Json) : Prop :=
  ∃ contents object elf item, inputContents env lane line journal = .ok contents ∧
    env.object contents = .ok object ∧ object.elf = some elf ∧ elf.type = etRel ∧
    captureMarkers object line = .ok [journal] ∧ env.readJson journal = .ok (.object item) ∧
    unit = linkedJournal item (env.digest contents)
      (Paths.join metadata (env.digest contents ++ ".native.o"))

end Inputs

section Steps

variable {env : BuildEnvironment} {lane metadata interpreter line : String}
  {journals : List String} {s s' : TraceState}

theorem TraceState.reject_ne_nil (s : TraceState) (message : String) :
    (s.reject message).unsupported ≠ [] := by
  simp [TraceState.reject]

theorem consumedObject_ok {contents journal : String} {object : ObjectFile} {unit : Json}
    (hobject : env.object contents = .ok object)
    (hmarkers : captureMarkers object line = .ok [journal])
    (h : consumedObject env metadata contents line = .ok unit) :
    ∃ item, env.readJson journal = .ok (.object item) ∧
      unit = linkedJournal item (env.digest contents)
        (Paths.join metadata (env.digest contents ++ ".native.o")) := by
  unfold consumedObject at h
  obtain ⟨object', hobject', h⟩ := bind_ok.mp h
  obtain rfl : object = object' := Except.ok.inj (hobject.symm.trans hobject')
  obtain ⟨markers, hmarkers', h⟩ := bind_ok.mp h
  obtain rfl : [journal] = markers := Except.ok.inj (hmarkers.symm.trans hmarkers')
  obtain ⟨_, -, h⟩ := bind_ok.mp h
  obtain ⟨_, -, h⟩ := bind_ok.mp h
  obtain ⟨_, -, h⟩ := bind_ok.mp h
  obtain ⟨json, hjson, h⟩ := bind_ok.mp h
  obtain ⟨item, hitem, h⟩ := bind_ok.mp h
  obtain ⟨_, -, h⟩ := bind_ok.mp h
  obtain ⟨_, -, h⟩ := bind_ok.mp h
  obtain ⟨_, -, h⟩ := bind_ok.mp h
  obtain ⟨_, -, h⟩ := bind_ok.mp h
  obtain ⟨_, -, h⟩ := bind_ok.mp h
  obtain ⟨_, -, h⟩ := bind_ok.mp h
  obtain ⟨_, -, h⟩ := bind_ok.mp h
  obtain rfl := Except.ok.inj h
  rw [Json.asObject?_eq_some.mp (require_ok.mp hitem)] at hjson
  exact ⟨item, hjson, rfl⟩

/-- A line that adds no unit. -/
structure Passes (s s' : TraceState) : Prop where
  qualified : s.unsupported = []
  position : s'.markerPosition = s.markerPosition
  units : s'.units = s.units

/-- A line that adds the unit of the next journal. -/
structure AddsUnit (env : BuildEnvironment) (lane metadata : String) (journals : List String)
    (line : String) (s s' : TraceState) : Prop where
  qualified : s.unsupported = []
  position : s'.markerPosition = s.markerPosition + 1
  unit : ∃ journal unit, journals[s.markerPosition]? = some journal ∧
    s'.units = s.units ++ [unit] ∧ IsUnit env lane metadata line journal unit

theorem readSharedObject_passes {path contents : String} {object : ObjectFile}
    (h : readSharedObject env metadata line path contents object s = .ok s')
    (hqualified : s'.unsupported = []) : Passes s s' := by
  have hreject : ∀ {message}, (.ok (s.reject message) : Checked TraceState) = .ok s' → Passes s s' := by
    intro message hs
    obtain rfl := Except.ok.inj hs
    exact absurd hqualified (s.reject_ne_nil message)
  unfold readSharedObject at h
  split at h
  · exact hreject h
  · split at h
    · exact hreject h
    · split at h
      · exact hreject h
      · split_ifs at h
        · exact hreject h
        · obtain ⟨errors, -, h⟩ := bind_ok.mp h
          split at h
          · exact hreject h
          · split at h
            · obtain rfl := Except.ok.inj h
              exact ⟨hqualified, rfl, rfl⟩
            · split_ifs at h
              · exact hreject h
              · obtain rfl := Except.ok.inj h
                exact ⟨hqualified, rfl, rfl⟩

theorem readRelocatable_addsUnit {contents : String} {object : ObjectFile} {elf : ElfObject}
    (hcontents : ∀ journal, journals[s.markerPosition]? = some journal →
      inputContents env lane line journal = .ok contents)
    (hobject : env.object contents = .ok object) (helf : object.elf = some elf)
    (htype : elf.type = etRel)
    (hqualified : (readRelocatable env metadata journals line contents object s).unsupported = []) :
    AddsUnit env lane metadata journals line s
      (readRelocatable env metadata journals line contents object s) := by
  cases hmarkers : captureMarkers object line with
  | error message =>
    simp only [readRelocatable, hmarkers] at hqualified
    exact absurd hqualified (s.reject_ne_nil _)
  | ok markers =>
    simp only [readRelocatable, hmarkers] at hqualified ⊢
    split_ifs at hqualified ⊢ with hmismatch
    · exact absurd hqualified (s.reject_ne_nil _)
    · -- the object carries the one journal the cursor is at
      push Not at hmismatch
      obtain ⟨hlength, hposition, hhead⟩ := hmismatch
      obtain ⟨journal, rfl⟩ := List.length_eq_one_iff.mp hlength
      have hjournal : journals[s.markerPosition]? = some journal := hhead.symm
      cases hunit : consumedObject env metadata contents line with
      | error message =>
        simp only [hunit] at hqualified
        exact absurd hqualified (TraceState.reject_ne_nil _ _)
      | ok unit =>
        simp only [hunit] at hqualified ⊢
        obtain ⟨item, hitem, hlinked⟩ := consumedObject_ok hobject hmarkers hunit
        exact ⟨hqualified, rfl, journal, unit, hjournal, rfl, contents, object, elf, item,
          hcontents journal hjournal, hobject, helf, htype, hmarkers, hitem, hlinked⟩

/-- A private input that is not a shared object adds a unit. -/
theorem readInput_qualified {path contents : String} {isMember : Bool}
    (hcontents : ∀ journal, journals[s.markerPosition]? = some journal →
      inputContents env lane line journal = .ok contents)
    (h : readInput env metadata journals line path contents isMember s = .ok s')
    (hqualified : s'.unsupported = []) :
    ∃ object elf, env.object contents = .ok object ∧ object.elf = some elf ∧
      if !isMember ∧ elf.type = etDyn then Passes s s'
      else AddsUnit env lane metadata journals line s s' := by
  have hreject : ∀ {message}, (.ok (s.reject message) : Checked TraceState) ≠ .ok s' := by
    intro message hs
    obtain rfl := Except.ok.inj hs
    exact s.reject_ne_nil message hqualified
  unfold readInput at h
  split at h
  · exact absurd h hreject
  · rename_i object hobject
    split at h
    · exact absurd h hreject
    · rename_i elf helf
      refine ⟨object, elf, hobject, helf, ?_⟩
      split_ifs at h ⊢ with hshared htype
      · exact readSharedObject_passes h hqualified
      · exact absurd h hreject
      · obtain rfl := Except.ok.inj h
        exact readRelocatable_addsUnit hcontents hobject helf (not_not.mp htype) hqualified

/-- What a line of a qualified trace adds : the unit of the next journal when it is a private
input, else nothing. -/
theorem readLine_qualified (h : readLine env lane metadata interpreter journals s line = .ok s')
    (hqualified : s'.unsupported = []) :
    if isPrivateInput env line then AddsUnit env lane metadata journals line s s'
    else Passes s s' := by
  have hreject : ∀ {s : TraceState} {message},
      (.ok (s.reject message) : Checked TraceState) ≠ .ok s' := by
    intro s message hs
    obtain rfl := Except.ok.inj hs
    exact s.reject_ne_nil message hqualified
  cases hmember : memberOf line with
  | some entry =>
    simp only [readLine, hmember] at h
    split_ifs at h with hsdk hlane
    · obtain rfl := Except.ok.inj h
      rw [if_neg (by simp [isPrivateInput, hmember, hsdk])]
      exact ⟨hqualified, rfl, rfl⟩
    · exact absurd h hreject
    · split at h
      · exact absurd h hreject
      · rename_i journal hjournal
        split at h
        · exact absurd h hreject
        · rename_i contents hcontents
          have hinput : ∀ journal', journals[s.markerPosition]? = some journal' →
              inputContents env lane line journal' = .ok contents := by
            intro journal' hjournal'
            obtain rfl : journal = journal' := Option.some.inj (hjournal.symm.trans hjournal')
            rw [inputContents, hmember]
            exact hcontents
          rw [if_pos (by simp [isPrivateInput, hmember, hsdk])]
          obtain ⟨_, _, -, -, hadds⟩ := readInput_qualified
            (s := { s with selectedArchiveNames := s.selectedArchiveNames ++ [line] }) hinput h
            hqualified
          rw [if_neg (by simp)] at hadds
          exact ⟨hadds.qualified, hadds.position, hadds.unit⟩
  | none =>
    simp only [readLine, hmember] at h
    split_ifs at h with hsdk hloader hlane
    · obtain rfl := Except.ok.inj h
      rw [if_neg (by simp [isPrivateInput, hmember, hsdk])]
      exact ⟨hqualified, rfl, rfl⟩
    · obtain rfl := Except.ok.inj h
      rw [if_neg (by simp [isPrivateInput, hmember, hsdk])]
      exact ⟨hqualified, rfl, rfl⟩
    · exact absurd h hreject
    · split at h
      · exact absurd h hreject
      · rename_i contents hcontents
        have hinput : ∀ journal, journals[s.markerPosition]? = some journal →
            inputContents env lane line journal = .ok contents := by
          intro journal _
          rw [inputContents, hmember]
          exact hcontents
        obtain ⟨object, elf, hobject, helf, hadds⟩ := readInput_qualified hinput h hqualified
        have hshared : isSharedObject env (env.absolutePath line) = decide (elf.type = etDyn) := by
          simp [isSharedObject, hcontents, hobject, helf]
        by_cases hdyn : elf.type = etDyn
        · rw [if_neg (by simp [isPrivateInput, hmember, hshared, hdyn])]
          rwa [if_pos (by simp [hdyn])] at hadds
        · rw [if_pos (by simp [isPrivateInput, hmember, hsdk, hshared, hdyn])]
          rwa [if_neg (by simp [hdyn])] at hadds

/-- The trace so far : the private inputs are the objects that carry the journals up to the
cursor, and the units are theirs. -/
structure Walked (env : BuildEnvironment) (lane metadata : String) (journals passed : List String)
    (s : TraceState) : Prop where
  position : s.markerPosition = s.units.length
  bound : s.units.length ≤ journals.length
  units : List.Forall₂ (fun line entry => IsUnit env lane metadata line entry.1 entry.2)
    (passed.filter (isPrivateInput env)) ((journals.take s.units.length).zip s.units)

theorem Walked.addsUnit {passed : List String} (h : Walked env lane metadata journals passed s)
    (hline : isPrivateInput env line = true)
    (hadds : AddsUnit env lane metadata journals line s s') :
    Walked env lane metadata journals (passed ++ [line]) s' := by
  obtain ⟨journal, unit, hjournal, hunits, hunit⟩ := hadds.unit
  rw [h.position] at hjournal
  obtain ⟨hlt, -⟩ := List.getElem?_eq_some_iff.mp hjournal
  have hlength : s'.units.length = s.units.length + 1 := by simp [hunits]
  refine ⟨by rw [hadds.position, h.position, hlength], by omega, ?_⟩
  have htake : journals.take s'.units.length = journals.take s.units.length ++ [journal] := by
    rw [hlength, List.take_add_one, hjournal]
    rfl
  rw [htake, hunits, List.zip_append (by simp; omega), List.filter_append]
  refine List.rel_append h.units ?_
  simpa [hline] using hunit

theorem Walked.passes {passed : List String} (h : Walked env lane metadata journals passed s)
    (hline : isPrivateInput env line = false) (hpasses : Passes s s') :
    Walked env lane metadata journals (passed ++ [line]) s' := by
  refine ⟨by rw [hpasses.position, hpasses.units, h.position], by rw [hpasses.units]; exact h.bound,
    ?_⟩
  rw [hpasses.units, List.filter_append, List.filter_singleton, hline]
  simpa using h.units

/-- Unsupported entries stay. -/
theorem foldlM_readLine_unsupported {lines : List String}
    (h : lines.foldlM (readLine env lane metadata interpreter journals) s = .ok s')
    (hqualified : s'.unsupported = []) : s.unsupported = [] := by
  induction lines generalizing s with
  | nil =>
    obtain rfl : s = s' := Except.ok.inj h
    exact hqualified
  | cons line rest ih =>
    obtain ⟨middle, hstep, h⟩ := foldlM_cons_ok.mp h
    have hline := readLine_qualified hstep (ih h)
    split_ifs at hline
    · exact hline.qualified
    · exact hline.qualified

/-- A walk of a trace that ends without unsupported entries. -/
theorem foldlM_readLine_walked {lines passed : List String}
    (hwalked : Walked env lane metadata journals passed s)
    (h : lines.foldlM (readLine env lane metadata interpreter journals) s = .ok s')
    (hqualified : s'.unsupported = []) :
    Walked env lane metadata journals (passed ++ lines) s' := by
  induction lines generalizing s passed with
  | nil =>
    obtain rfl : s = s' := Except.ok.inj h
    simpa using hwalked
  | cons line rest ih =>
    obtain ⟨middle, hstep, h⟩ := foldlM_cons_ok.mp h
    have hline := readLine_qualified hstep (foldlM_readLine_unsupported h hqualified)
    have hmiddle : Walked env lane metadata journals (passed ++ [line]) middle := by
      split_ifs at hline with hinput
      · exact hwalked.addsUnit hinput hline
      · exact hwalked.passes (by simpa using hinput) hline
    simpa using ih hmiddle h

end Steps

/-! ## Qualified records -/

/-- A written record has exactly the units of its output : the journals of the output are
distinct, and each private input of the trace, in order, is the object that carries the next
journal and contributes the unit of this journal. -/
structure ExactLink (env : BuildEnvironment) (args : List String)
    (lane metadata trace path : String) (written : Json.Object) (units : List Json) : Prop where
  exact : ∃ target arguments bytes object journals traceText,
    env.profile.bind LinkTarget.find = some target ∧
    readArguments env target lane args args {} = .ok arguments ∧
    path = env.metadataPath metadata (env.absolutePath arguments.output) "link" ∧
    env.read (env.absolutePath arguments.output) readLimit = .ok bytes ∧
    written.getString "native_sha256" = some (env.digest bytes) ∧ env.object bytes = .ok object ∧
    captureMarkers object (env.absolutePath arguments.output) = .ok journals ∧
    env.read trace (8 * 1024 * 1024) = .ok traceText ∧
    journals.Nodup ∧ units.length = journals.length ∧
    List.Forall₂ (fun line entry => IsUnit env lane metadata line entry.1 entry.2)
      ((linesOf traceText).filter (isPrivateInput env)) (journals.zip units)

theorem nodup_of_repetitions {seen journals : List String} (h : repetitions seen journals = []) :
    journals.Nodup ∧ ∀ journal ∈ journals, journal ∉ seen := by
  induction journals generalizing seen with
  | nil => simp
  | cons journal rest ih =>
    rw [repetitions] at h
    split_ifs at h with hseen
    obtain ⟨hnodup, hrest⟩ := ih h
    refine ⟨List.nodup_cons.mpr ⟨fun hmem => ?_, hnodup⟩, ?_⟩
    · exact hrest journal hmem (by simp)
    · intro other hother
      rcases List.mem_cons.mp hother with rfl | hother
      · exact hseen
      · exact fun hmem => hrest other hother (by simp [hmem])

theorem finalJournals_ok {object : ObjectFile} {output : String}
    (h : (finalJournals object output).2 = []) :
    captureMarkers object output = .ok (finalJournals object output).1 ∧
      (finalJournals object output).1.Nodup := by
  unfold finalJournals at h ⊢
  split at h
  · simp at h
  · rename_i journals hjournals
    exact ⟨hjournals, (nodup_of_repetitions h).1⟩

theorem TraceState.finish_qualified {s : TraceState} {journals : List String}
    (h : (s.finish journals).unsupported = []) :
    s.unsupported = [] ∧ s.markerPosition = journals.length ∧ s.finish journals = s := by
  unfold TraceState.finish at h ⊢
  split_ifs at h ⊢ with hposition
  · exact absurd h (s.reject_ne_nil _)
  · exact ⟨h, not_not.mp hposition, rfl⟩

/-- What a qualified record says of its output and of the trace. -/
theorem recordOutput_qualified {env : BuildEnvironment} {target : LinkTarget}
    {arguments : LinkArguments} {output lane metadata trace whyExtract : String}
    {record : LinkRecord}
    (h : recordOutput env target arguments output lane metadata trace whyExtract = .ok record)
    (hqualified : record.unsupported = []) :
    ∃ bytes object traceText journals, env.read output readLimit = .ok bytes ∧
      record.nativeSha256 = env.digest bytes ∧ env.object bytes = .ok object ∧
      captureMarkers object output = .ok journals ∧
      env.read trace (8 * 1024 * 1024) = .ok traceText ∧ journals.Nodup ∧
      record.units.length = journals.length ∧
      List.Forall₂ (fun line entry => IsUnit env lane metadata line entry.1 entry.2)
        ((linesOf traceText).filter (isPrivateInput env)) (journals.zip record.units) := by
  unfold recordOutput at h
  obtain ⟨bytes, hbytes, h⟩ := bind_ok.mp h
  obtain ⟨object, hobject, h⟩ := bind_ok.mp h
  obtain ⟨traceText, htrace, h⟩ := bind_ok.mp h
  obtain ⟨extraction, -, h⟩ := bind_ok.mp h
  obtain ⟨s, hwalk, h⟩ := bind_ok.mp h
  obtain ⟨_, -, h⟩ := bind_ok.mp h
  obtain ⟨dynamic, -, h⟩ := bind_ok.mp h
  obtain rfl := Except.ok.inj h
  obtain ⟨hrest, -⟩ := List.append_eq_nil_iff.mp hqualified
  obtain ⟨hfinish, -⟩ := List.append_eq_nil_iff.mp hrest
  obtain ⟨hs, hposition, hsame⟩ := TraceState.finish_qualified hfinish
  obtain ⟨-, hfaults⟩ := List.append_eq_nil_iff.mp (foldlM_readLine_unsupported hwalk hs)
  obtain ⟨hjournals, hnodup⟩ := finalJournals_ok hfaults
  have hwalked := foldlM_readLine_walked
    (show Walked env lane metadata _ [] _ from ⟨rfl, Nat.zero_le _, List.Forall₂.nil⟩) hwalk hs
  have hlength : s.units.length = (finalJournals object output).1.length :=
    hwalked.position.symm.trans hposition
  have hunits := hwalked.units
  rw [hlength, List.take_length, List.nil_append] at hunits
  refine ⟨bytes, object, traceText, (finalJournals object output).1, hbytes, rfl, hobject,
    hjournals, htrace, hnodup, ?_, ?_⟩
  · change (s.finish _).units.length = _
    rw [hsame, hlength]
  · change List.Forall₂ _ _ (List.zip _ (s.finish _).units)
    rwa [hsame]

/-- The record that is written has a list of units and of what is unsupported. Where nothing is,
it has exactly the units of its output. -/
theorem recordNativeLink_exact (env : BuildEnvironment) (args : List String)
    (lane metadata trace whyExtract path : String) (json : Json)
    (h : recordNativeLink env args lane metadata trace whyExtract = .ok (some (path, json))) :
    env.replace path json = .ok () ∧ ∃ (written : Json.Object) (units unsupported : List Json),
      json = .object written ∧ written.getArray "units" = some units ∧
      written.getArray "unsupported" = some unsupported ∧
      (unsupported = [] → ExactLink env args lane metadata trace path written units) := by
  unfold recordNativeLink at h
  obtain ⟨target, htarget, h⟩ := bind_ok.mp h
  obtain ⟨arguments, harguments, h⟩ := bind_ok.mp h
  dsimp only at h
  split_ifs at h
  · simp at h
  obtain ⟨_, -, h⟩ := bind_ok.mp h
  obtain ⟨record, hrecord, h⟩ := bind_ok.mp h
  obtain ⟨_, hwritten, h⟩ := bind_ok.mp h
  obtain ⟨rfl, rfl⟩ := Prod.mk.inj (Option.some.inj (Except.ok.inj h))
  refine ⟨hwritten, _, record.units, record.unsupported.map Json.string, rfl, rfl, rfl,
    fun hqualified => ?_⟩
  obtain ⟨bytes, object, traceText, journals, hbytes, hdigest, hobject, hjournals, htrace, hnodup,
    hlength, hunits⟩ := recordOutput_qualified hrecord (List.map_eq_nil_iff.mp hqualified)
  exact ⟨target, arguments, bytes, object, journals, traceText, require_ok.mp htarget, harguments,
    rfl, hbytes, congrArg some hdigest, hobject, hjournals, htrace, hnodup, hlength, hunits⟩

/-! ### A shared object of an object and an archive member -/

/-- The journal of one input. -/
def inputJournal (source capture captureSha256 nativeSha256 : String) : Json.Object :=
  [("capture", .string capture), ("capture_sha256", .string captureSha256),
    ("dependencies", .array []), ("flags", .array []), ("native_sha256", .string nativeSha256),
    ("optimization", .string "O2"), ("source", .string source)]

/-- The journal of the object. -/
def objectJournal : Json.Object :=
  inputJournal "x.c" "/b/m/c" "9c17e78e6cdabcea286a8ba0acd586e6646762489ab44dee33364ecef89447a4"
    "772a5fb04f9bad38681a2f56ddfdbd6a15185753df8dcc029788d02bf3b6825b"

/-- The journal of the member. -/
def memberJournal : Json.Object :=
  inputJournal "y.c" "/b/m/d" "7aa0bb60be92c883b9253adcb855c5e73543bd55ed422b6faca749da96183bee"
    "e31ab643c44f7a0ec824b59d1194d60dac334200d845e61d2d289daa0f087ea4"

/-- An object that carries journals. -/
def markedObject (type : ℕ) (contents : String) : ObjectFile :=
  ⟨[⟨.ok ".sela.capture", .ok contents⟩], some ⟨type, 62, 8, true, 0, .ok []⟩⟩

/-- The build of `/b/a.so` from `/b/x.o` and the member `y.o` of `/b/l.a`, which has another
member. -/
def sharedBuild : BuildEnvironment where
  profile := some "x86_64"
  sdkRoot := "/sdk"
  absolutePath := id
  read path _ := require ([("/b/a.so", "out"), ("/b/x.o", "obj"), ("/b/l.a", "archive"),
    ("/b/m/c", "bitcode"), ("/b/m/d", "member bitcode"), ("/b/m/j", "journal"),
    ("/b/m/k", "member journal"), ("/b/trace", "/sdk/crti.o\n/b/x.o\n/b/l.a(y.o)\n"),
    ("/b/why", "reference\textracted\tsymbol\n/b/x.o\t/b/l.a(y.o)\ty\n")].lookup path)
    ("cannot read " ++ path)
  parse text := require ([("journal", Json.object objectJournal),
    ("member journal", Json.object memberJournal)].lookup text) "invalid JSON"
  object bytes := require ([("out", markedObject etDyn "/b/m/j\x00/b/m/k\x00"),
    ("obj", markedObject etRel "/b/m/j\x00"), ("member", markedObject etRel "/b/m/k\x00")].lookup
      bytes) "invalid object"
  archive _ _ := pure ⟨false, [⟨.ok "z.o", .ok "z.o", .ok "other"⟩,
    ⟨.ok "y.o", .ok "y.o", .ok "member"⟩], none⟩
  digest bytes := ([("out", "762069bc07a6e1b5df123a5ae7bd91c10daa04694fbaa17fba0cd6a8dcce8f22"),
    ("obj", "772a5fb04f9bad38681a2f56ddfdbd6a15185753df8dcc029788d02bf3b6825b"),
    ("member", "e31ab643c44f7a0ec824b59d1194d60dac334200d845e61d2d289daa0f087ea4"),
    ("bitcode", "9c17e78e6cdabcea286a8ba0acd586e6646762489ab44dee33364ecef89447a4"),
    ("member bitcode", "7aa0bb60be92c883b9253adcb855c5e73543bd55ed422b6faca749da96183bee"),
    ("/b/a.so", "0cc79bbd8913e9e87538072ebbc678768d586511860b2cbcfb36cbd5183ea820")].lookup
      bytes).getD ""
  save _ _ := pure ()
  replace _ _ := pure ()

/-- The unit of the object. -/
def objectUnit : Json :=
  linkedJournal objectJournal "772a5fb04f9bad38681a2f56ddfdbd6a15185753df8dcc029788d02bf3b6825b"
    "/b/m/772a5fb04f9bad38681a2f56ddfdbd6a15185753df8dcc029788d02bf3b6825b.native.o"

/-- The unit of the member. -/
def memberUnit : Json :=
  linkedJournal memberJournal "e31ab643c44f7a0ec824b59d1194d60dac334200d845e61d2d289daa0f087ea4"
    "/b/m/e31ab643c44f7a0ec824b59d1194d60dac334200d845e61d2d289daa0f087ea4.native.o"

/-- The record of the link. -/
def sharedRecord : LinkRecord where
  nativeSha256 := "762069bc07a6e1b5df123a5ae7bd91c10daa04694fbaa17fba0cd6a8dcce8f22"
  kind := "shared"
  units := [objectUnit, memberUnit]
  libraries := []
  linkOptions := []
  versionScript := ""
  unsupported := []

theorem captureMarkers_markedObject {type : ℕ} {contents name : String} {markers : List String}
    (hmarkers : readMarkers name contents.toList = .ok markers)
    (hlength : contents.length ≤ 8388608) :
    captureMarkers (markedObject type contents) name = .ok markers := by
  simp [captureMarkers, markedObject, addMarkers, hmarkers, hlength, ensure]

/-- The journals the objects of the build carry. -/
theorem captureMarkers_object (type : ℕ) (name : String) :
    captureMarkers (markedObject type "/b/m/j\x00") name = .ok ["/b/m/j"] :=
  captureMarkers_markedObject (by simp [readMarkers, ensure]) (by decide)

theorem captureMarkers_member (type : ℕ) (name : String) :
    captureMarkers (markedObject type "/b/m/k\x00") name = .ok ["/b/m/k"] :=
  captureMarkers_markedObject (by simp [readMarkers, ensure]) (by decide)

theorem captureMarkers_output (type : ℕ) (name : String) :
    captureMarkers (markedObject type "/b/m/j\x00/b/m/k\x00") name = .ok ["/b/m/j", "/b/m/k"] :=
  captureMarkers_markedObject (by simp [readMarkers, ensure]) (by decide)

theorem consumedObject_object :
    consumedObject sharedBuild "/b/m" "obj" "/b/x.o" = .ok objectUnit := by
  have hobject : sharedBuild.object "obj" = .ok (markedObject etRel "/b/m/j\x00") := rfl
  rw [consumedObject, hobject, ok_bind, captureMarkers_object]
  rfl

theorem consumedObject_member :
    consumedObject sharedBuild "/b/m" "member" "/b/l.a(y.o)" = .ok memberUnit := by
  have hobject : sharedBuild.object "member" = .ok (markedObject etRel "/b/m/k\x00") := rfl
  rw [consumedObject, hobject, ok_bind, captureMarkers_member]
  rfl

theorem selectedArchiveMember_member :
    selectedArchiveMember sharedBuild "/b/l.a" "y.o" "/b" "/b/m/k" = .ok "member" := by
  have hmarkers : (sharedBuild.object "member" >>= fun object => captureMarkers object "y.o") =
      .ok ["/b/m/k"] := captureMarkers_member etRel "y.o"
  have hselected : selectChild sharedBuild
      ⟨false, [⟨.ok "z.o", .ok "z.o", .ok "other"⟩, ⟨.ok "y.o", .ok "y.o", .ok "member"⟩], none⟩
      "y.o" "/b" "/b/m/k" none ⟨.ok "y.o", .ok "y.o", .ok "member"⟩ = .ok (some "member") := by
    simp only [selectChild, ok_bind, hmarkers]
    rfl
  refine bind_ok.mpr ⟨"archive", rfl, bind_ok.mpr ⟨_, rfl, bind_ok.mpr ⟨some "member", ?_, rfl⟩⟩⟩
  exact foldlM_cons_ok.mpr ⟨none, rfl, foldlM_cons_ok.mpr ⟨_, hselected, rfl⟩⟩

/-- The trace after the object. -/
def objectRead : TraceState := { markerPosition := 1, units := [objectUnit], unsupported := [] }

/-- The trace after the member. -/
def memberRead : TraceState where
  markerPosition := 2
  units := [objectUnit, memberUnit]
  unsupported := []
  selectedArchiveNames := ["/b/l.a(y.o)"]

theorem readLine_object :
    readLine sharedBuild "/b" "/b/m" (expectedInterpreter sharedBuild LinkTarget.x86_64)
      ["/b/m/j", "/b/m/k"] { unsupported := [] } "/b/x.o" = .ok objectRead := by
  have hinput : readRelocatable sharedBuild "/b/m" ["/b/m/j", "/b/m/k"] "/b/x.o" "obj"
      (markedObject etRel "/b/m/j\x00") { unsupported := [] } = objectRead := by
    rw [readRelocatable, captureMarkers_object, consumedObject_object]
    rfl
  rw [← hinput]
  rfl

theorem readLine_member :
    readLine sharedBuild "/b" "/b/m" (expectedInterpreter sharedBuild LinkTarget.x86_64)
      ["/b/m/j", "/b/m/k"] objectRead "/b/l.a(y.o)" = .ok memberRead := by
  have hmember : memberOf "/b/l.a(y.o)" = some ("/b/l.a", "y.o") := by decide
  have hinput : readRelocatable sharedBuild "/b/m" ["/b/m/j", "/b/m/k"] "/b/l.a(y.o)" "member"
      (markedObject etRel "/b/m/k\x00")
      { objectRead with selectedArchiveNames := ["/b/l.a(y.o)"] } = memberRead := by
    rw [readRelocatable, captureMarkers_member, consumedObject_member]
    rfl
  have hselected : selectedArchiveMember sharedBuild (sharedBuild.absolutePath "/b/l.a") "y.o" "/b"
      "/b/m/k" = .ok "member" := selectedArchiveMember_member
  have hjournal : ["/b/m/j", "/b/m/k"][objectRead.markerPosition]? = some "/b/m/k" := rfl
  have hinside : inside (sharedBuild.absolutePath "/b/l.a")
      (sharedBuild.absolutePath sharedBuild.sdkRoot) = false := by decide
  have hlane : inside (sharedBuild.absolutePath "/b/l.a") "/b" = true := by decide
  simp only [readLine, hmember, hinside, hlane, hjournal, hselected]
  rw [← hinput]
  rfl

/-- The trace, which begins with an object of the SDK. -/
theorem linesOf_trace : linesOf "/sdk/crti.o\n/b/x.o\n/b/l.a(y.o)\n" =
    ["/sdk/crti.o", "/b/x.o", "/b/l.a(y.o)"] := by decide

theorem recordNativeLink_sharedBuild :
    recordNativeLink sharedBuild ["-shared", "-o", "/b/a.so", "/b/x.o", "/b/l.a"] "/b" "/b/m"
      "/b/trace" "/b/why" = .ok (some
        ("/b/m/0cc79bbd8913e9e87538072ebbc678768d586511860b2cbcfb36cbd5183ea820.link.json",
          sharedRecord.json)) := by
  have hfinal : finalJournals (markedObject etDyn "/b/m/j\x00/b/m/k\x00") "/b/a.so" =
      (["/b/m/j", "/b/m/k"], []) := by
    rw [finalJournals, captureMarkers_output]
    rfl
  have hrecord : recordOutput sharedBuild LinkTarget.x86_64 { output := "/b/a.so", kind := "shared" }
      "/b/a.so" "/b" "/b/m" "/b/trace" "/b/why" = .ok sharedRecord := by
    refine bind_ok.mpr ⟨"out", rfl, bind_ok.mpr
      ⟨markedObject etDyn "/b/m/j\x00/b/m/k\x00", rfl, ?_⟩⟩
    rw [hfinal]
    refine bind_ok.mpr ⟨"/sdk/crti.o\n/b/x.o\n/b/l.a(y.o)\n", rfl, bind_ok.mpr
      ⟨"reference\textracted\tsymbol\n/b/x.o\t/b/l.a(y.o)\ty\n", rfl, ?_⟩⟩
    rw [linesOf_trace]
    refine bind_ok.mpr ⟨memberRead, ?_, rfl⟩
    exact foldlM_cons_ok.mpr ⟨{ unsupported := [] }, rfl, foldlM_cons_ok.mpr
      ⟨_, readLine_object, foldlM_cons_ok.mpr ⟨_, readLine_member, rfl⟩⟩⟩
  exact bind_ok.mpr ⟨LinkTarget.x86_64, rfl, bind_ok.mpr ⟨_, rfl, bind_ok.mpr ⟨(), rfl,
    bind_ok.mpr ⟨sharedRecord, hrecord, rfl⟩⟩⟩⟩

theorem recordNativeLink_exact_shared :
    ∃ written, sharedRecord.json = .object written ∧
      ExactLink sharedBuild ["-shared", "-o", "/b/a.so", "/b/x.o", "/b/l.a"] "/b" "/b/m" "/b/trace"
        "/b/m/0cc79bbd8913e9e87538072ebbc678768d586511860b2cbcfb36cbd5183ea820.link.json" written
        [objectUnit, memberUnit] := by
  obtain ⟨-, written, units, unsupported, hjson, hunits, hunsupported, hexact⟩ :=
    recordNativeLink_exact _ _ _ _ _ "/b/why" _ _ recordNativeLink_sharedBuild
  refine ⟨written, hjson, ?_⟩
  obtain rfl : _ = written := Json.object.inj hjson
  obtain rfl : [objectUnit, memberUnit] = units := Option.some.inj hunits
  obtain rfl : [] = unsupported := Option.some.inj hunsupported
  exact hexact rfl

end Sela
