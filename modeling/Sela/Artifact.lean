import Mathlib.Data.List.Perm.Subperm
import Sela.Checked
import Sela.Grouping
import Sela.Json
import Sela.Targets

/-!
# Packages

A package is a map of files with a manifest. `validatePackage` accepts it when the
manifest declares exactly the files there are, with their digests, and plans for every
target the modules that target has.

Whoever consumes an accepted package reads the manifest again without checking it. The
readers return nothing where such a read would be undefined (`readLinkPlan`,
`moduleBytes`, `unitBytes`); on an accepted package they never do
(`validatePackage_sound`).

A text is a string of bytes : its characters are bytes, and its length is its size.
-/

namespace Sela

open Checked

/-- The files of a package by their distinct names. -/
structure PackageFiles where
  entries : List (String × String)
  nodup : (entries.map Prod.fst).Nodup

namespace PackageFiles

def find (files : PackageFiles) (name : String) : Option String := files.entries.lookup name

def names (files : PackageFiles) : List String := files.entries.map Prod.fst

end PackageFiles

/-- What the package format takes from elsewhere : the reader and the canonical writer of
JSON text, and the digest of a file. The reader keeps one value for a key. -/
structure PackageFormat where
  parse : String → Checked Json
  parse_distinct : ∀ {text json}, parse text = .ok json → json.Distinct
  jsonText : Json → String
  digest : String → String

structure ArtifactUnit where
  modules : List ℕ
  optimization : String
  archiveMember : String
  deriving DecidableEq

/-- The compilation units of each target. -/
abbrev CompilationPlan := List (String × List ArtifactUnit)

structure ArtifactLink where
  libraries : List String
  options : List String
  versionScript : String
  deriving DecidableEq

/-- The link settings of each target. -/
abbrev LinkPlan := List (String × ArtifactLink)

/-! ## Names -/

def isAlphanumeric (c : Char) : Bool :=
  ('a' ≤ c && c ≤ 'z') || ('A' ≤ c && c ≤ 'Z') || ('0' ≤ c && c ≤ '9')

def validName (name : String) : Bool :=
  name ≠ "" && name.length ≤ 64 && name.toList.all fun c => isAlphanumeric c || c == '_' || c == '-'

def validArchiveMember (name : String) : Bool :=
  name ≠ "" && name.length ≤ 128 && name ≠ "." && name ≠ ".." && name.toList.all fun c =>
    isAlphanumeric c || c == '_' || c == '-' || c == '.' || c == '+'

def validLibrary (name : String) : Bool :=
  match name.toList with
  | ':' :: rest => validArchiveMember (String.ofList rest)
  | _ => validName name

/-! ## Version scripts -/

/-- The text after the end of a comment. -/
def afterComment : List Char → Option (List Char)
  | [] => none
  | '*' :: '/' :: rest => some rest
  | _ :: rest => afterComment rest

theorem length_afterComment : ∀ {text rest : List Char}, afterComment text = some rest →
    rest.length < text.length
  | [], rest, h => by simp [afterComment] at h
  | c :: text, rest, h => by
    unfold afterComment at h
    split at h
    · simp at *
    · rename_i heq
      obtain ⟨rfl, rfl⟩ := List.cons.inj heq
      obtain rfl := Option.some.inj h
      simp only [List.length_cons]
      omega
    · rename_i heq
      obtain ⟨rfl, rfl⟩ := List.cons.inj heq
      have := length_afterComment h
      simp only [List.length_cons]
      omega

/-- Strip the comments of a version script and reject what it may not have. -/
def normalizeText : List Char → Checked (List Char)
  | [] => pure []
  | '/' :: '*' :: text =>
    match _h : afterComment text with
    | none => throw "unterminated version script comment"
    | some rest => do
      let output ← normalizeText rest
      pure (' ' :: output)
  | c :: text =>
    if (c = '/' ∧ text.head? = some '/') ∨ c = '#' then do
      let output ← normalizeText (text.dropWhile fun c => c ≠ '\n')
      pure (' ' :: output)
    else if isAlphanumeric c || "_.*?[]+-;:\x7b\x7d \t\r\n".toList.contains c then do
      let output ← normalizeText text
      pure (c :: output)
    else throw "unqualified C symbol version script syntax"
termination_by text => text.length
decreasing_by
  · have := length_afterComment _h
    simp only [List.length_cons]
    omega
  · have := (List.dropWhile_sublist (l := text) fun c => decide (c ≠ '\n')).length_le
    simp only [List.length_cons]
    omega
  · simp

def normalizeVersionScript (text : String) : Checked String := do
  ensure (text ≠ "" ∧ text.length ≤ 65536) "empty or oversized symbol version script"
  let output ← normalizeText text.toList
  ensure (output.any fun c => !c.isWhitespace) "symbol version script has no declarations"
  pure (String.ofList output)

/-! ## Link records -/

/-- The script part of a link record : declared with its digest, free of comments. It
returns the names of the files declared so far. -/
def validateVersionScript (format : PackageFormat) (object : Json.Object) (kind scriptPath : String)
    (files : PackageFiles) (expected : List String) : Checked (List String) :=
  match object.get "version_script" with
  | none => pure expected
  | some value => do
    let script ← require value.asObject? "invalid symbol version script record"
    ensure (kind = "shared" ∧ script.length = 2 ∧ script.getString "path" = some scriptPath)
      "invalid symbol version script record"
    let contents ← require (files.find scriptPath) "missing or corrupt symbol version script"
    ensure (script.getString "sha256" = some (format.digest contents))
      "missing or corrupt symbol version script"
    let normalized ← normalizeVersionScript contents
    ensure (normalized = contents) "private comments in published symbol version script"
    pure (Grouping.pushNew expected scriptPath)

/-- A link option a kind of output admits. -/
def validOption (kind text : String) : Bool :=
  !(kind == "object" || kind == "static") &&
    (text == "--export-dynamic" || text == "--hash-style=both" || text == "--undefined-version" ||
      (kind == "shared" && "-soname=".toList.isPrefixOf text.toList &&
        validLibrary (":" ++ String.ofList (text.toList.drop 8))))

def validateLinkRecord (format : PackageFormat) (object : Json.Object) (kind scriptPath : String)
    (files : PackageFiles) (expected : List String) : Checked (List String) := do
  let libraries ← require (object.getArray "libraries") "missing library declarations"
  ensure (∀ library ∈ libraries, library.asString?.any validLibrary)
    "invalid native library contract"
  ensure (kind = "static" → libraries.isEmpty)
    "static archive dependency linkage must be declared by its consuming native link"
  let options ← require (object.getArray "link_options") "missing link options"
  ensure (∀ option ∈ options, option.asString?.any (validOption kind))
    "unqualified native link option"
  validateVersionScript format object kind scriptPath files expected

/-- The script file of one target's link record. -/
def targetScriptPath (target : String) : String := "link/" ++ target ++ ".version.script"

/-- The link record of one target. -/
def validateTargetLink (format : PackageFormat) (links : Json.Object) (kind : String)
    (files : PackageFiles) (expected : List String) (target : String) : Checked (List String) := do
  let record ← require (links.getObject target) "missing target link record"
  ensure (∀ field ∈ record, field.1 ∈ ["libraries", "link_options", "version_script"])
    "unknown target link field"
  validateLinkRecord format record kind (targetScriptPath target) files expected

/-- The link records of all targets, where they are not in common. -/
def validateTargetLinks (format : PackageFormat) (object : Json.Object) (kind : String)
    (targets : List String) (files : PackageFiles) (expected : List String) :
    Checked (List String) :=
  match object.get "target_links" with
  | none => pure expected
  | some raw => do
    let links ← require raw.asObject?
      "target links require complete records and empty common link settings"
    ensure (links.length = targets.length ∧ (object.getArray "libraries").any List.isEmpty ∧
        (object.getArray "link_options").any List.isEmpty ∧ (object.get "version_script").isNone)
      "target links require complete records and empty common link settings"
    targets.mergeSort.foldlM (validateTargetLink format links kind files) expected

/-! ## Modules and their plan -/

/-- The file of the `index`-th module. -/
def modulePath (index : ℕ) : String := "modules/" ++ toString index ++ ".selabc"

/-- The identities of an array, each once. -/
def readDomain (domain : List Json) (admits : String → Bool) (message : String) :
    Checked (List String) := do
  let ids ← domain.mapM fun entry => require entry.asString? message
  ensure ((∀ id ∈ ids, admits id = true) ∧ ids.Nodup) message
  pure ids

/-- One module record. -/
def validateModule (format : PackageFormat) (targets : List String) (files : PackageFiles)
    (expected : List String) (entry : Json × ℕ) : Checked (List String) := do
  let module ← require entry.1.asObject? "invalid module record"
  ensure (∀ field ∈ module, field.1 ∈ ["path", "sha256", "targets"]) "unknown public module field"
  let domain ← require (module.getArray "targets") "module requires a nonempty target domain"
  ensure (domain ≠ []) "module requires a nonempty target domain"
  let _ ← readDomain domain (fun id => targets.contains id)
    "module target domain is outside the artifact or contains duplicates"
  ensure (module.getString "path" = some (modulePath entry.2)) "invalid module path"
  let found ← require (files.find (modulePath entry.2))
    ("missing module or digest mismatch: " ++ modulePath entry.2)
  ensure (module.getString "sha256" = some (format.digest found))
    ("missing module or digest mismatch: " ++ modulePath entry.2)
  pure (Grouping.pushNew expected (modulePath entry.2))

/-- The domain of a module record. -/
def readModuleDomain (entry : Json) : Checked (List String) := do
  let domain ← require (entry.asObject?.bind (Json.Object.getArray · "targets"))
    "missing module target domain"
  ensure (domain ≠ []) "missing module target domain"
  readDomain domain (fun _ => true) "invalid module target domain"

/-- The levels a unit may be optimized at. -/
def optimizations : List String := ["O0", "O1", "O2", "O3", "Os", "Oz"]

/-- Take the modules of one unit, after the modules `seen` by the units before. -/
def readMembers (domains : List (List String)) (target : String) :
    List ℕ → List Json → Checked (List ℕ)
  | _, [] => pure []
  | seen, member :: members => do
    let value ← require member.asInteger?
      "compilation-unit plan duplicates or misreferences a common fragment"
    ensure (0 ≤ value ∧ value.toNat < domains.length ∧ value.toNat ∉ seen)
      "compilation-unit plan duplicates or misreferences a common fragment"
    ensure ((domains[value.toNat]?).any fun domain => domain.contains target)
      "compilation-unit plan includes an inactive target fragment"
    let rest ← readMembers domains target (seen ++ [value.toNat]) members
    pure (value.toNat :: rest)

/-- The archive member of a unit, which a static archive alone has. -/
def readArchiveMember (kind : String) (unit : Json.Object) : Checked String :=
  if kind = "static" then do
    let member ← require (unit.getString "archive_member") "invalid static archive member identity"
    ensure (validArchiveMember member = true) "invalid static archive member identity"
    pure member
  else do
    ensure ((unit.get "archive_member").isNone) "archive member identity requires static output"
    pure ""

/-- One unit of a target, after the modules `seen` by the units before. -/
def readUnit (kind : String) (domains : List (List String)) (target : String) (seen : List ℕ)
    (entry : Json) : Checked ArtifactUnit := do
  let unit ← require entry.asObject? "invalid compilation-unit record"
  ensure (∀ field ∈ unit, field.1 ∈ ["modules", "optimization", "archive_member"])
    "unknown compilation-unit field"
  let members ← require (unit.getArray "modules") "invalid compilation-unit members or optimization"
  let optimization ← require (unit.getString "optimization")
    "invalid compilation-unit members or optimization"
  ensure (members ≠ [] ∧ optimization ∈ optimizations)
    "invalid compilation-unit members or optimization"
  let archiveMember ← readArchiveMember kind unit
  let modules ← readMembers domains target seen members
  pure ⟨modules, optimization, archiveMember⟩

/-- The units of a target one after the other. -/
def readUnits (kind : String) (domains : List (List String)) (target : String) :
    List ℕ → List Json → Checked (List ArtifactUnit)
  | _, [] => pure []
  | seen, entry :: entries => do
    let unit ← readUnit kind domains target seen entry
    let units ← readUnits kind domains target (seen ++ unit.modules) entries
    pure (unit :: units)

/-- The plan of one target : its units, which together have every module of its domain. -/
def readTargetPlan (kind : String) (plans : Json.Object) (domains : List (List String))
    (target : Json) : Checked (String × List ArtifactUnit) := do
  let name ← require target.asString? "invalid compilation target"
  let entries ← require (plans.getArray name) "invalid compilation-unit inventory"
  ensure (entries.length ≤ domains.length) "invalid compilation-unit inventory"
  let units ← readUnits kind domains name [] entries
  ensure (∀ entry ∈ domains.zipIdx, name ∈ entry.1 → entry.2 ∈ units.flatMap ArtifactUnit.modules)
    "compilation-unit plan drops an active target fragment"
  pure (name, units)

def readCompilationPlan (manifest : Json.Object) : Checked CompilationPlan :=
  match manifest.getObject "compilation_units", manifest.getArray "targets",
      manifest.getArray "modules", manifest.getString "kind" with
  | some plans, some targets, some modules, some kind => do
    ensure (plans.length = targets.length) "missing or inconsistent native compilation-unit plan"
    let domains ← modules.mapM readModuleDomain
    targets.mapM (readTargetPlan kind plans domains)
  | _, _, _, _ => throw "missing or inconsistent native compilation-unit plan"

/-! ## The package -/

/-- The fields a manifest may have. -/
def manifestFields : List String :=
  ["format_version", "contract", "kind", "runtime", "targets", "libraries", "modules",
    "link_options", "version_script", "compilation_units", "target_links"]

def artifactFormatVersion : ℤ := 2

def contract : String := "sela-prealpha-2"

/-- The declared targets of a manifest. -/
def readTargets (targets : List Json) : Checked (List String) := do
  ensure (targets ≠ []) "missing target constraints"
  readDomain targets (fun id => (Sela.targets.find id).isSome)
    "unsupported or duplicate target constraint"

/-- The object of a manifest in its canonical encoding. -/
def readManifest (format : PackageFormat) (files : PackageFiles) : Checked Json.Object := do
  let text ← require (files.find "manifest.json") "missing or oversized manifest"
  ensure (text.length ≤ 1024 * 1024) "missing or oversized manifest"
  let parsed ← format.parse text
  ensure (format.jsonText parsed = text)
    "manifest must use canonical Sela JSON encoding (no duplicate keys)"
  let object ← require parsed.asObject? "unsupported experimental format/compiler contract"
  ensure (object.getInteger "format_version" = some artifactFormatVersion ∧
      object.getString "contract" = some contract)
    "unsupported experimental format/compiler contract"
  ensure (∀ entry ∈ object, entry.1 ∈ manifestFields) "unknown public manifest field"
  pure object

def validatePackage (format : PackageFormat) (files : PackageFiles) : Checked Json.Object := do
  let object ← readManifest format files
  let kind ← require (object.getString "kind") "invalid artifact kind"
  ensure (kind ∈ ["object", "executable", "shared", "static"]) "invalid artifact kind"
  ensure (object.getString "runtime" = some "glibc-2.39-0ubuntu8.8")
    "unsupported managed runtime contract"
  let targetList ← require (object.getArray "targets") "missing target constraints"
  let targets ← readTargets targetList
  let modules ← require (object.getArray "modules") "package has no common IR modules"
  ensure (modules = [] → kind = "static") "package has no common IR modules"
  let expected ← validateLinkRecord format object kind "link/version.script" files ["manifest.json"]
  let expected ← validateTargetLinks format object kind targets files expected
  let expected ← modules.zipIdx.foldlM (validateModule format targets files) expected
  let _ ← readCompilationPlan object
  ensure (expected.length = files.entries.length) "package contains undeclared files"
  pure object

/-! ## The consumers -/

/-- The strings of an array, where it is one of strings. -/
def readStrings (array : Option (List Json)) : Option (List String) :=
  array.bind fun elements => elements.mapM Json.asString?

/-- The link record of a target : its own, or the common one. -/
def linkRecord (manifest : Json.Object) (target : String) : Option Json.Object :=
  match manifest.getObject "target_links" with
  | some byTarget => byTarget.getObject target
  | none => some manifest

/-- The version script of a link record, empty where it has none. -/
def readScript (record : Json.Object) (files : PackageFiles) : Option String :=
  match record.getObject "version_script" with
  | some script => do
    let path ← script.getString "path"
    files.find path
  | none => some ""

/-- The link settings of one target. -/
def readLink (manifest : Json.Object) (files : PackageFiles) (target : String) :
    Option ArtifactLink := do
  let record ← linkRecord manifest target
  let libraries ← readStrings (record.getArray "libraries")
  let options ← readStrings (record.getArray "link_options")
  let versionScript ← readScript record files
  pure ⟨libraries, options, versionScript⟩

/-- The link settings of every target, read without a check. -/
def readLinkPlan (manifest : Json.Object) (files : PackageFiles) : Option LinkPlan := do
  let targets ← readStrings (manifest.getArray "targets")
  targets.mapM fun target => do
    let link ← readLink manifest files target
    pure (target, link)

/-- The bytes of every module, read without a check. -/
def moduleBytes (manifest : Json.Object) (files : PackageFiles) : Option (List String) := do
  let modules ← manifest.getArray "modules"
  modules.mapM fun entry => do
    let record ← entry.asObject?
    let path ← record.getString "path"
    files.find path

/-- The bytes of the modules of every unit of a target, read without a check. -/
def unitBytes (plan : CompilationPlan) (bytecodes : List String) (target : String) :
    Option (List (List String)) := do
  let units ← plan.lookup target
  units.mapM fun unit => unit.modules.mapM fun index => bytecodes[index]?

/-! ## What an accepted package is -/

/-- The module records of a manifest. -/
def moduleRecords (manifest : Json.Object) : List Json.Object :=
  ((manifest.getArray "modules").getD []).filterMap Json.asObject?

/-- The link records of a manifest : its common one, and those of the targets. -/
def linkRecords (manifest : Json.Object) : List Json.Object :=
  manifest :: ((manifest.getObject "target_links").getD []).filterMap fun entry => entry.2.asObject?

/-- The version-script records of a manifest. -/
def scriptRecords (manifest : Json.Object) : List Json.Object :=
  (linkRecords manifest).filterMap (Json.Object.getObject · "version_script")

/-- A record declares a file of the package, with its digest. -/
def DeclaresFile (format : PackageFormat) (files : PackageFiles) (record : Json.Object) : Prop :=
  ∃ path contents, record.getString "path" = some path ∧ files.find path = some contents ∧
    record.getString "sha256" = some (format.digest contents)

/-- The units of a target have every module of the target, once, and no other. -/
structure ExactUnits (domains : List (List String)) (target : String) (units : List ArtifactUnit) :
    Prop where
  nodup : (units.flatMap ArtifactUnit.modules).Nodup
  mem : ∀ index, index ∈ units.flatMap ArtifactUnit.modules ↔
    ∃ domain, domains[index]? = some domain ∧ target ∈ domain

/-- What a package that is accepted guarantees. -/
structure Admitted (format : PackageFormat) (files : PackageFiles) (manifest : Json.Object) :
    Prop where
  /-- The files are the manifest, the modules and the version scripts it declares. -/
  names : ∀ name, name ∈ files.names ↔ name = "manifest.json" ∨
    (∃ record ∈ moduleRecords manifest, record.getString "path" = some name) ∨
    ∃ record ∈ scriptRecords manifest, record.getString "path" = some name
  /-- Every declared digest is that of its file. -/
  digests : ∀ record ∈ moduleRecords manifest ++ scriptRecords manifest,
    DeclaresFile format files record
  /-- Every target's units have exactly its modules, and every read of a consumer is
  defined. -/
  consumers : ∃ kind targets domains plan links bytecodes,
    manifest.getString "kind" = some kind ∧
    readStrings (manifest.getArray "targets") = some targets ∧
    (moduleRecords manifest).mapM (fun record => readStrings (record.getArray "targets")) =
      some domains ∧
    readCompilationPlan manifest = .ok plan ∧ readLinkPlan manifest files = some links ∧
    moduleBytes manifest files = some bytecodes ∧
    ∀ target ∈ targets, (links.lookup target).isSome ∧
      (unitBytes plan bytecodes target).isSome ∧
      ∃ units, plan.lookup target = some units ∧ ExactUnits domains target units

/-! ## Strings and domains -/

theorem readStrings_eq {elements : List Json} {texts : List String} :
    readStrings (some elements) = some texts ↔
      List.Forall₂ (fun element text => element.asString? = some text) elements texts := by
  unfold readStrings
  rw [Option.bind_some, mapM_some]

theorem readDomain_ok {domain : List Json} {admits : String → Bool} {message : String}
    {ids : List String} (h : readDomain domain admits message = .ok ids) :
    readStrings (some domain) = some ids ∧ (∀ id ∈ ids, admits id = true) ∧ ids.Nodup := by
  unfold readDomain at h
  obtain ⟨ids', hids, h⟩ := bind_ok.mp h
  obtain ⟨_, hensure, h⟩ := bind_ok.mp h
  obtain rfl : ids' = ids := Except.ok.inj h
  exact ⟨readStrings_eq.mpr ((mapM_ok.mp hids).imp fun _ _ => require_ok.mp), ensure_ok.mp hensure⟩

theorem PackageFiles.mem_names {files : PackageFiles} {name contents : String}
    (h : files.find name = some contents) : name ∈ files.names := by
  obtain ⟨before, after, heq, -⟩ := List.lookup_eq_some_iff.mp h
  simp [PackageFiles.names, heq]

/-! ## Link records -/

/-- The names declared so far : distinct, and each the name of a file. -/
structure ExpectedFiles (files : PackageFiles) (expected : List String) : Prop where
  nodup : expected.Nodup
  found : ∀ name ∈ expected, name ∈ files.names

theorem ExpectedFiles.pushNew {files : PackageFiles} {expected : List String}
    (h : ExpectedFiles files expected) {name contents : String}
    (hfound : files.find name = some contents) :
    ExpectedFiles files (Grouping.pushNew expected name) := by
  refine ⟨Grouping.nodup_pushNew h.nodup, fun other hother => ?_⟩
  · rcases Grouping.mem_pushNew.mp hother with hother | rfl
    · exact h.found other hother
    · exact PackageFiles.mem_names hfound

/-- A link record a consumer can read. -/
structure ReadableLink (format : PackageFormat) (files : PackageFiles) (record : Json.Object) :
    Prop where
  libraries : ∃ libraries, readStrings (record.getArray "libraries") = some libraries
  options : ∃ options, readStrings (record.getArray "link_options") = some options
  script : ∀ script, record.getObject "version_script" = some script →
    DeclaresFile format files script

/-- The names the version script of a record declares. -/
def scriptPaths (record : Json.Object) : List String :=
  ((record.getObject "version_script").bind (Json.Object.getString · "path")).toList

theorem strings_of_all {elements : List Json} {valid : String → Bool}
    (h : ∀ element ∈ elements, element.asString?.any valid = true) :
    ∃ texts, readStrings (some elements) = some texts := by
  unfold readStrings
  rw [Option.bind_some]
  refine exists_mapM_some fun element helement => ?_
  obtain ⟨text, htext, -⟩ := (Option.any_eq_true _ _).mp (h element helement)
  exact ⟨text, htext⟩

theorem validateLinkRecord_ok {format : PackageFormat} {record : Json.Object}
    {kind scriptPath : String} {files : PackageFiles} {expected expected' : List String}
    (hexpected : ExpectedFiles files expected)
    (h : validateLinkRecord format record kind scriptPath files expected = .ok expected') :
    ReadableLink format files record ∧ ExpectedFiles files expected' ∧
      ∀ name, name ∈ expected' ↔ name ∈ expected ∨ name ∈ scriptPaths record := by
  unfold validateLinkRecord at h
  obtain ⟨libraries, hlibraries, h⟩ := bind_ok.mp h
  obtain ⟨_, hvalid, h⟩ := bind_ok.mp h
  obtain ⟨_, -, h⟩ := bind_ok.mp h
  obtain ⟨options, hoptions, h⟩ := bind_ok.mp h
  obtain ⟨_, hvalidOptions, h⟩ := bind_ok.mp h
  have hlibraries := require_ok.mp hlibraries
  have hoptions := require_ok.mp hoptions
  have hread : ∀ {key : String} {elements : List Json} {valid : String → Bool},
      record.getArray key = some elements →
      (∀ element ∈ elements, element.asString?.any valid = true) →
      ∃ texts, readStrings (record.getArray key) = some texts := by
    intro key elements valid hget hall
    rw [hget]
    exact strings_of_all hall
  refine (?_ : (∀ script, record.getObject "version_script" = some script →
      DeclaresFile format files script) ∧ ExpectedFiles files expected' ∧
      ∀ name, name ∈ expected' ↔ name ∈ expected ∨ name ∈ scriptPaths record).imp_left
    fun hscript => ⟨hread hlibraries (ensure_ok.mp hvalid), hread hoptions (ensure_ok.mp hvalidOptions),
      hscript⟩
  unfold validateVersionScript at h
  split at h
  · rename_i hnone
    obtain rfl := Except.ok.inj h
    simp [Json.Object.getObject, scriptPaths, hnone, hexpected]
  · rename_i value hvalue
    obtain ⟨script, hscript, h⟩ := bind_ok.mp h
    obtain ⟨_, hfields, h⟩ := bind_ok.mp h
    obtain ⟨contents, hcontents, h⟩ := bind_ok.mp h
    obtain ⟨_, hdigest, h⟩ := bind_ok.mp h
    obtain ⟨_, -, h⟩ := bind_ok.mp h
    obtain ⟨_, -, h⟩ := bind_ok.mp h
    obtain rfl := Except.ok.inj h
    obtain ⟨-, -, hpath⟩ := ensure_ok.mp hfields
    have hcontents := require_ok.mp hcontents
    have hget : record.getObject "version_script" = some script := by
      simp [Json.Object.getObject, hvalue, require_ok.mp hscript]
    refine ⟨fun other hother => ?_, hexpected.pushNew hcontents, fun name => ?_⟩
    · rw [hget] at hother
      obtain rfl := Option.some.inj hother
      exact ⟨scriptPath, contents, hpath, hcontents, ensure_ok.mp hdigest⟩
    · rw [Grouping.mem_pushNew]
      simp [scriptPaths, hget, hpath, eq_comm]

/-- The link records of the targets, in a state of the loop over them. -/
structure TargetLinksSoFar (format : PackageFormat) (files : PackageFiles) (links : Json.Object)
    (before passed expected : List String) : Prop where
  expectedFiles : ExpectedFiles files expected
  mem : ∀ name, name ∈ expected ↔ name ∈ before ∨
    ∃ target ∈ passed, ∃ record, links.getObject target = some record ∧ name ∈ scriptPaths record
  readable : ∀ target ∈ passed, ∃ record, links.getObject target = some record ∧
    ReadableLink format files record

theorem foldlM_validateTargetLink_ok {format : PackageFormat} {links : Json.Object} {kind : String}
    {files : PackageFiles} {targets before expected : List String}
    (hbefore : ExpectedFiles files before)
    (h : targets.foldlM (validateTargetLink format links kind files) before = .ok expected) :
    TargetLinksSoFar format files links before targets expected := by
  have hstart : TargetLinksSoFar format files links before [] before :=
    ⟨hbefore, by simp, by simp⟩
  refine foldlM_invariant (TargetLinksSoFar format files links before) hstart ?_ h
  intro passed target rest expected expected' _ hsofar hstep
  unfold validateTargetLink at hstep
  obtain ⟨record, hrecord, hstep⟩ := bind_ok.mp hstep
  obtain ⟨_, -, hstep⟩ := bind_ok.mp hstep
  have hrecord := require_ok.mp hrecord
  obtain ⟨hreadable, hfiles, hmem⟩ := validateLinkRecord_ok hsofar.expectedFiles hstep
  refine ⟨hfiles, fun name => ?_, fun other hother => ?_⟩
  · rw [hmem, hsofar.mem]
    constructor
    · rintro ((hbefore | ⟨other, hother, hpath⟩) | hpath)
      · exact Or.inl hbefore
      · exact Or.inr ⟨other, by simp [hother], hpath⟩
      · exact Or.inr ⟨target, by simp, record, hrecord, hpath⟩
    · rintro (hbefore | ⟨other, hother, hpath⟩)
      · exact Or.inl (Or.inl hbefore)
      · rcases List.mem_append.mp hother with hother | hother
        · exact Or.inl (Or.inr ⟨other, hother, hpath⟩)
        · obtain ⟨record', hrecord', hpath⟩ := hpath
          rw [List.mem_singleton.mp hother, hrecord] at hrecord'
          exact Or.inr (Option.some.inj hrecord' ▸ hpath)
  · rcases List.mem_append.mp hother with hother | hother
    · exact hsofar.readable other hother
    · exact ⟨record, List.mem_singleton.mp hother ▸ hrecord, hreadable⟩

/-- The links of a manifest : where there are records by target, one for each target and no
other, and each can be read. -/
structure TargetLinks (format : PackageFormat) (files : PackageFiles) (manifest : Json.Object)
    (targets before expected : List String) : Prop where
  expectedFiles : ExpectedFiles files expected
  mem : ∀ name, name ∈ expected ↔ name ∈ before ∨
    ∃ record ∈ (linkRecords manifest).tail, name ∈ scriptPaths record
  readable : ∀ record ∈ (linkRecords manifest).tail, ReadableLink format files record
  complete : manifest.getObject "target_links" = none ∨
    ∃ links, manifest.getObject "target_links" = some links ∧
      ∀ target ∈ targets, ∃ record ∈ (linkRecords manifest).tail,
        links.getObject target = some record

theorem validateTargetLinks_ok {format : PackageFormat} {manifest : Json.Object} {kind : String}
    {files : PackageFiles} {targets before expected : List String}
    (hdistinct : (Json.object manifest).Distinct) (htargets : targets.Nodup)
    (hbefore : ExpectedFiles files before)
    (h : validateTargetLinks format manifest kind targets files before = .ok expected) :
    TargetLinks format files manifest targets before expected := by
  unfold validateTargetLinks at h
  split at h
  · rename_i hnone
    obtain rfl := Except.ok.inj h
    have hobject : manifest.getObject "target_links" = none := by
      simp [Json.Object.getObject, hnone]
    exact ⟨hbefore, by simp [linkRecords, hobject], by simp [linkRecords, hobject], Or.inl hobject⟩
  · rename_i raw hraw
    obtain ⟨links, hlinks, h⟩ := bind_ok.mp h
    obtain ⟨_, hensure, h⟩ := bind_ok.mp h
    obtain ⟨hlength, -⟩ := ensure_ok.mp hensure
    have hlinks := require_ok.mp hlinks
    have hobject : manifest.getObject "target_links" = some links := by
      simp [Json.Object.getObject, hraw, hlinks]
    have hsofar := foldlM_validateTargetLink_ok hbefore h
    have hkeys : (links.map Prod.fst).Nodup := by
      have hvalue := Json.distinct_of_mem hdistinct.2 (Json.Object.mem_of_get hraw)
      rw [Json.asObject?_eq_some.mp hlinks] at hvalue
      exact hvalue.1
    -- The records are as many as the targets and each target has one, so there is no other.
    have hsubset : targets ⊆ links.map Prod.fst := by
      intro target htarget
      obtain ⟨record, hrecord, -⟩ := hsofar.readable target (by simpa using htarget)
      obtain ⟨value, hvalue, -⟩ := Option.bind_eq_some_iff.mp hrecord
      exact List.mem_map.mpr ⟨_, Json.Object.mem_of_get hvalue, rfl⟩
    have hperm : targets.Perm (links.map Prod.fst) :=
      (List.subperm_of_subset htargets hsubset).perm_of_length_le (by simp [hlength])
    have hrecords : ∀ record, record ∈ (linkRecords manifest).tail ↔
        ∃ target ∈ targets, links.getObject target = some record := by
      intro record
      simp only [linkRecords, hobject, Option.getD_some, List.tail_cons, List.mem_filterMap]
      constructor
      · rintro ⟨⟨key, value⟩, hentry, hvalue⟩
        refine ⟨key, hperm.mem_iff.mpr (List.mem_map.mpr ⟨_, hentry, rfl⟩), ?_⟩
        simp [Json.Object.getObject, Json.Object.get_of_mem hkeys hentry, hvalue]
      · rintro ⟨target, -, hrecord⟩
        obtain ⟨value, hvalue, hrecord⟩ := Option.bind_eq_some_iff.mp hrecord
        exact ⟨(target, value), Json.Object.mem_of_get hvalue, hrecord⟩
    refine ⟨hsofar.expectedFiles, fun name => ?_, fun record hrecord => ?_,
      Or.inr ⟨links, hobject, fun target htarget => ?_⟩⟩
    · rw [hsofar.mem]
      refine or_congr_right ⟨?_, ?_⟩
      · rintro ⟨target, htarget, record, hrecord, hpath⟩
        exact ⟨record, (hrecords record).mpr ⟨target, by simpa using htarget, hrecord⟩, hpath⟩
      · rintro ⟨record, hrecord, hpath⟩
        obtain ⟨target, htarget, hrecord⟩ := (hrecords record).mp hrecord
        exact ⟨target, by simpa using htarget, record, hrecord, hpath⟩
    · obtain ⟨target, htarget, hrecord⟩ := (hrecords record).mp hrecord
      obtain ⟨record', hrecord', hreadable⟩ := hsofar.readable target (by simpa using htarget)
      rw [hrecord] at hrecord'
      exact Option.some.inj hrecord' ▸ hreadable
    · obtain ⟨record, hrecord, -⟩ := hsofar.readable target (by simpa using htarget)
      exact ⟨record, (hrecords record).mpr ⟨target, htarget, hrecord⟩, hrecord⟩

/-! ## Modules -/

/-- A module record a consumer can read. -/
structure ReadableModule (format : PackageFormat) (files : PackageFiles) (record : Json.Object) :
    Prop where
  file : DeclaresFile format files record
  domain : ∃ domain, readStrings (record.getArray "targets") = some domain

/-- The module records, in a state of the loop over them. -/
structure ModulesSoFar (format : PackageFormat) (files : PackageFiles) (before : List String)
    (passed : List (Json × ℕ)) (expected : List String) : Prop where
  expectedFiles : ExpectedFiles files expected
  mem : ∀ name, name ∈ expected ↔ name ∈ before ∨ ∃ entry ∈ passed, ∃ record,
    entry.1.asObject? = some record ∧ record.getString "path" = some name
  readable : ∀ entry ∈ passed, ∃ record, entry.1.asObject? = some record ∧
    ReadableModule format files record

theorem foldlM_validateModule_ok {format : PackageFormat} {targets : List String}
    {files : PackageFiles} {entries : List (Json × ℕ)} {before expected : List String}
    (hbefore : ExpectedFiles files before)
    (h : entries.foldlM (validateModule format targets files) before = .ok expected) :
    ModulesSoFar format files before entries expected := by
  have hstart : ModulesSoFar format files before [] before := ⟨hbefore, by simp, by simp⟩
  refine foldlM_invariant (ModulesSoFar format files before) hstart ?_ h
  intro passed entry rest expected expected' _ hsofar hstep
  unfold validateModule at hstep
  obtain ⟨record, hrecord, hstep⟩ := bind_ok.mp hstep
  obtain ⟨_, -, hstep⟩ := bind_ok.mp hstep
  obtain ⟨domain, hdomain, hstep⟩ := bind_ok.mp hstep
  obtain ⟨_, -, hstep⟩ := bind_ok.mp hstep
  obtain ⟨ids, hids, hstep⟩ := bind_ok.mp hstep
  obtain ⟨_, hpath, hstep⟩ := bind_ok.mp hstep
  obtain ⟨contents, hcontents, hstep⟩ := bind_ok.mp hstep
  obtain ⟨_, hdigest, hstep⟩ := bind_ok.mp hstep
  obtain rfl := Except.ok.inj hstep
  have hrecord := require_ok.mp hrecord
  have hpath := ensure_ok.mp hpath
  have hcontents := require_ok.mp hcontents
  refine ⟨hsofar.expectedFiles.pushNew hcontents, fun name => ?_, fun other hother => ?_⟩
  · rw [Grouping.mem_pushNew, hsofar.mem]
    constructor
    · rintro ((hname | ⟨other, hother, hname⟩) | rfl)
      · exact Or.inl hname
      · exact Or.inr ⟨other, by simp [hother], hname⟩
      · exact Or.inr ⟨entry, by simp, record, hrecord, hpath⟩
    · rintro (hname | ⟨other, hother, record', hrecord', hname⟩)
      · exact Or.inl (Or.inl hname)
      · rcases List.mem_append.mp hother with hother | hother
        · exact Or.inl (Or.inr ⟨other, hother, record', hrecord', hname⟩)
        · rw [List.mem_singleton.mp hother, hrecord] at hrecord'
          rw [← Option.some.inj hrecord', hpath] at hname
          exact Or.inr (Option.some.inj hname).symm
  · rcases List.mem_append.mp hother with hother | hother
    · exact hsofar.readable other hother
    · refine ⟨record, List.mem_singleton.mp hother ▸ hrecord,
        ⟨modulePath entry.2, contents, hpath, hcontents, ensure_ok.mp hdigest⟩, ids, ?_⟩
      rw [require_ok.mp hdomain]
      exact (readDomain_ok hids).1

/-! ## The plan -/

theorem readMembers_ok {domains : List (List String)} {target : String} :
    ∀ {members : List Json} {seen indices : List ℕ}, seen.Nodup →
      readMembers domains target seen members = .ok indices →
      (seen ++ indices).Nodup ∧ ∀ index ∈ indices, ∃ domain, domains[index]? = some domain ∧
        target ∈ domain
  | [], seen, indices, hseen, h => by
    obtain rfl := Except.ok.inj h
    exact ⟨by simpa using hseen, by simp⟩
  | member :: members, seen, indices, hseen, h => by
    unfold readMembers at h
    obtain ⟨value, -, h⟩ := bind_ok.mp h
    obtain ⟨_, hrange, h⟩ := bind_ok.mp h
    obtain ⟨_, hactive, h⟩ := bind_ok.mp h
    obtain ⟨rest, hrest, h⟩ := bind_ok.mp h
    obtain rfl := Except.ok.inj h
    obtain ⟨-, -, hnew⟩ := ensure_ok.mp hrange
    obtain ⟨domain, hdomain, htarget⟩ := (Option.any_eq_true _ _).mp (ensure_ok.mp hactive)
    have hseen' : (seen ++ [value.toNat]).Nodup := Grouping.nodup_concat hseen hnew
    obtain ⟨hnodup, hdomains⟩ := readMembers_ok hseen' hrest
    refine ⟨by simpa using hnodup, List.forall_mem_cons.mpr ⟨⟨domain, hdomain, ?_⟩, hdomains⟩⟩
    simpa using htarget

/-- A unit of a plan : it has modules, and a level and a member name its kind of package
admits. -/
structure ValidUnit (kind : String) (unit : ArtifactUnit) : Prop where
  nonempty : unit.modules ≠ []
  optimization : unit.optimization ∈ optimizations
  archiveMember : if kind = "static" then validArchiveMember unit.archiveMember = true
    else unit.archiveMember = ""

theorem readUnit_ok {kind target : String} {domains : List (List String)} {seen : List ℕ}
    {entry : Json} {unit : ArtifactUnit} (hseen : seen.Nodup)
    (h : readUnit kind domains target seen entry = .ok unit) :
    ValidUnit kind unit ∧ (seen ++ unit.modules).Nodup ∧
      ∀ index ∈ unit.modules, ∃ domain, domains[index]? = some domain ∧ target ∈ domain := by
  unfold readUnit at h
  obtain ⟨object, -, h⟩ := bind_ok.mp h
  obtain ⟨_, -, h⟩ := bind_ok.mp h
  obtain ⟨members, -, h⟩ := bind_ok.mp h
  obtain ⟨optimization, -, h⟩ := bind_ok.mp h
  obtain ⟨_, hensure, h⟩ := bind_ok.mp h
  obtain ⟨archiveMember, hmember, h⟩ := bind_ok.mp h
  obtain ⟨modules, hmodules, h⟩ := bind_ok.mp h
  obtain rfl := Except.ok.inj h
  obtain ⟨hne, hlevel⟩ := ensure_ok.mp hensure
  refine ⟨⟨?_, hlevel, ?_⟩, readMembers_ok hseen hmodules⟩
  · obtain ⟨first, rest, rfl⟩ := List.exists_cons_of_ne_nil hne
    unfold readMembers at hmodules
    obtain ⟨_, -, hmodules⟩ := bind_ok.mp hmodules
    obtain ⟨_, -, hmodules⟩ := bind_ok.mp hmodules
    obtain ⟨_, -, hmodules⟩ := bind_ok.mp hmodules
    obtain ⟨_, -, hmodules⟩ := bind_ok.mp hmodules
    obtain rfl := Except.ok.inj hmodules
    simp
  · unfold readArchiveMember at hmember
    split at hmember
    · obtain ⟨_, -, hmember⟩ := bind_ok.mp hmember
      obtain ⟨_, hvalid, hmember⟩ := bind_ok.mp hmember
      obtain rfl := Except.ok.inj hmember
      simpa [*] using ensure_ok.mp hvalid
    · obtain ⟨_, -, hmember⟩ := bind_ok.mp hmember
      obtain rfl := Except.ok.inj hmember
      simp [*]

theorem readUnits_ok {kind target : String} {domains : List (List String)} :
    ∀ {entries : List Json} {seen : List ℕ} {units : List ArtifactUnit}, seen.Nodup →
      readUnits kind domains target seen entries = .ok units →
      (∀ unit ∈ units, ValidUnit kind unit) ∧ (seen ++ units.flatMap ArtifactUnit.modules).Nodup ∧
        ∀ index ∈ units.flatMap ArtifactUnit.modules,
          ∃ domain, domains[index]? = some domain ∧ target ∈ domain
  | [], seen, units, hseen, h => by
    obtain rfl := Except.ok.inj h
    exact ⟨by simp, by simpa using hseen, by simp⟩
  | entry :: entries, seen, units, hseen, h => by
    unfold readUnits at h
    obtain ⟨unit, hunit, h⟩ := bind_ok.mp h
    obtain ⟨rest, hrest, h⟩ := bind_ok.mp h
    obtain rfl := Except.ok.inj h
    obtain ⟨hvalid, hnodup, hdomains⟩ := readUnit_ok hseen hunit
    obtain ⟨hvalid', hnodup', hdomains'⟩ := readUnits_ok hnodup hrest
    refine ⟨List.forall_mem_cons.mpr ⟨hvalid, hvalid'⟩, by simpa using hnodup', fun index hindex => ?_⟩
    rw [List.flatMap_cons, List.mem_append] at hindex
    exact hindex.elim (hdomains index) (hdomains' index)

theorem readModuleDomain_ok {entry : Json} {domain : List String}
    (h : readModuleDomain entry = .ok domain) :
    (∃ record, entry.asObject? = some record ∧
      readStrings (record.getArray "targets") = some domain) ∧ domain.Nodup := by
  unfold readModuleDomain at h
  obtain ⟨elements, helements, h⟩ := bind_ok.mp h
  obtain ⟨_, -, h⟩ := bind_ok.mp h
  obtain ⟨record, hrecord, hget⟩ := Option.bind_eq_some_iff.mp (require_ok.mp helements)
  obtain ⟨hstrings, -, hnodup⟩ := readDomain_ok h
  exact ⟨⟨record, hrecord, hget ▸ hstrings⟩, hnodup⟩

/-- What a manifest's plan says : for each declared target, in order, exact units. -/
structure ReadPlan (manifest : Json.Object) (targets : List String) (domains : List (List String))
    (plan : CompilationPlan) : Prop where
  kind : ∃ kind, manifest.getString "kind" = some kind ∧
    ∀ entry ∈ plan, ∀ unit ∈ entry.2, ValidUnit kind unit
  declared : readStrings (manifest.getArray "targets") = some targets
  modules : ∃ modules, manifest.getArray "modules" = some modules ∧
    List.Forall₂ (fun entry domain => ∃ record, entry.asObject? = some record ∧
      readStrings (record.getArray "targets") = some domain) modules domains
  nodup : ∀ domain ∈ domains, domain.Nodup
  names : plan.map Prod.fst = targets
  exact_units : ∀ entry ∈ plan, ExactUnits domains entry.1 entry.2

theorem readCompilationPlan_ok {manifest : Json.Object} {plan : CompilationPlan}
    (h : readCompilationPlan manifest = .ok plan) :
    ∃ targets domains, ReadPlan manifest targets domains plan := by
  unfold readCompilationPlan at h
  split at h
  · rename_i plans targets modules kind hplans htargets hmodules hkind
    obtain ⟨_, -, h⟩ := bind_ok.mp h
    obtain ⟨domains, hdomains, h⟩ := bind_ok.mp h
    have h := mapM_ok.mp h
    have hentry : ∀ {target : Json} {entry : String × List ArtifactUnit},
        readTargetPlan kind plans domains target = .ok entry →
        target.asString? = some entry.1 ∧ (∀ unit ∈ entry.2, ValidUnit kind unit) ∧
          ExactUnits domains entry.1 entry.2 := by
      intro target entry hentry
      unfold readTargetPlan at hentry
      obtain ⟨name, hname, hentry⟩ := bind_ok.mp hentry
      obtain ⟨entries, -, hentry⟩ := bind_ok.mp hentry
      obtain ⟨_, -, hentry⟩ := bind_ok.mp hentry
      obtain ⟨units, hunits, hentry⟩ := bind_ok.mp hentry
      obtain ⟨_, hcomplete, hentry⟩ := bind_ok.mp hentry
      obtain rfl := Except.ok.inj hentry
      obtain ⟨hvalid, hnodup, hmem⟩ := readUnits_ok List.nodup_nil hunits
      refine ⟨require_ok.mp hname, hvalid, by simpa using hnodup, fun index => ⟨hmem index, ?_⟩⟩
      rintro ⟨domain, hdomain, htarget⟩
      exact ensure_ok.mp hcomplete (domain, index) (List.mem_zipIdx_iff_getElem?.mpr hdomain) htarget
    refine ⟨plan.map Prod.fst, domains, ⟨kind, hkind, fun entry hmem => ?_⟩, ?_,
      ⟨modules, hmodules, (mapM_ok.mp hdomains).imp fun entry domain hdomain => ?_⟩,
      fun domain hmem => ?_, rfl, fun entry hmem => ?_⟩
    · obtain ⟨target, -, hread⟩ := exists_of_forall₂_right h hmem
      exact (hentry hread).2.1
    · rw [htargets]
      exact readStrings_eq.mpr (List.forall₂_map_right_iff.mpr (h.imp fun _ _ hread => (hentry hread).1))
    · exact (readModuleDomain_ok hdomain).1
    · obtain ⟨entry, -, hdomain⟩ := exists_of_forall₂_right (mapM_ok.mp hdomains) hmem
      exact (readModuleDomain_ok hdomain).2
    · obtain ⟨target, -, hread⟩ := exists_of_forall₂_right h hmem
      exact (hentry hread).2.2
  · simp at h

/-! ## Accepted packages -/

theorem readManifest_ok {format : PackageFormat} {files : PackageFiles} {manifest : Json.Object}
    (h : readManifest format files = .ok manifest) :
    (Json.object manifest).Distinct ∧ ExpectedFiles files ["manifest.json"] := by
  unfold readManifest at h
  obtain ⟨text, htext, h⟩ := bind_ok.mp h
  obtain ⟨_, -, h⟩ := bind_ok.mp h
  obtain ⟨parsed, hparsed, h⟩ := bind_ok.mp h
  obtain ⟨_, -, h⟩ := bind_ok.mp h
  obtain ⟨object, hobject, h⟩ := bind_ok.mp h
  obtain ⟨_, -, h⟩ := bind_ok.mp h
  obtain ⟨_, -, h⟩ := bind_ok.mp h
  obtain rfl := Except.ok.inj h
  refine ⟨?_, by simp, fun name hname => ?_⟩
  · rw [← Json.asObject?_eq_some.mp (require_ok.mp hobject)]
    exact format.parse_distinct hparsed
  · rw [List.mem_singleton.mp hname]
    exact PackageFiles.mem_names (require_ok.mp htext)

/-- What validation establishes on the way : a readable common link record, readable links
and modules, and an exact plan, whose files are all the files. -/
structure Validated (format : PackageFormat) (files : PackageFiles) (manifest : Json.Object)
    (targets : List String) (domains : List (List String)) (plan : CompilationPlan) : Prop where
  link : ReadableLink format files manifest
  links : ∃ before expected, TargetLinks format files manifest targets before expected
  modules : ∃ modules, manifest.getArray "modules" = some modules ∧
    ∀ entry ∈ modules, ∃ record, entry.asObject? = some record ∧
      ReadableModule format files record
  plan : readCompilationPlan manifest = .ok plan ∧ ReadPlan manifest targets domains plan
  names : ∀ name, name ∈ files.names ↔ name = "manifest.json" ∨
    (∃ record ∈ moduleRecords manifest, record.getString "path" = some name) ∨
    ∃ record ∈ linkRecords manifest, name ∈ scriptPaths record

theorem validatePackage_ok {format : PackageFormat} {files : PackageFiles} {manifest : Json.Object}
    (h : validatePackage format files = .ok manifest) :
    ∃ targets domains plan, Validated format files manifest targets domains plan := by
  unfold validatePackage at h
  obtain ⟨object, hmanifest, h⟩ := bind_ok.mp h
  obtain ⟨kind, -, h⟩ := bind_ok.mp h
  obtain ⟨_, -, h⟩ := bind_ok.mp h
  obtain ⟨_, -, h⟩ := bind_ok.mp h
  obtain ⟨targetList, htargetList, h⟩ := bind_ok.mp h
  obtain ⟨targets, htargets, h⟩ := bind_ok.mp h
  obtain ⟨modules, hmodules, h⟩ := bind_ok.mp h
  obtain ⟨_, -, h⟩ := bind_ok.mp h
  obtain ⟨expected₁, hlink, h⟩ := bind_ok.mp h
  obtain ⟨expected₂, hlinks, h⟩ := bind_ok.mp h
  obtain ⟨expected, hexpected, h⟩ := bind_ok.mp h
  obtain ⟨plan, hplan, h⟩ := bind_ok.mp h
  obtain ⟨_, hlength, h⟩ := bind_ok.mp h
  obtain rfl : object = manifest := Except.ok.inj h
  have htargetList := require_ok.mp htargetList
  have hmodules := require_ok.mp hmodules
  obtain ⟨hdistinct, hstart⟩ := readManifest_ok hmanifest
  unfold readTargets at htargets
  obtain ⟨_, -, htargets⟩ := bind_ok.mp htargets
  obtain ⟨hnames, -, hnodup⟩ := readDomain_ok htargets
  obtain ⟨hreadable, hfiles, hmem⟩ := validateLinkRecord_ok hstart hlink
  have hbyTarget := validateTargetLinks_ok hdistinct hnodup hfiles hlinks
  have hrecords := foldlM_validateModule_ok hbyTarget.expectedFiles hexpected
  obtain ⟨targets', domains, hread⟩ := readCompilationPlan_ok hplan
  obtain rfl : targets' = targets := by
    have := hread.declared
    rw [htargetList, hnames] at this
    exact (Option.some.inj this).symm
  refine ⟨targets', domains, plan, hreadable, ⟨expected₁, expected₂, hbyTarget⟩,
    ⟨modules, hmodules, fun entry hentry => ?_⟩, ⟨hplan, hread⟩, fun name => ?_⟩
  · obtain ⟨index, hindex⟩ := List.getElem?_of_mem hentry
    exact hrecords.readable (entry, index) (List.mem_zipIdx_iff_getElem?.mpr hindex)
  · -- The declared names are distinct names of files and as many, so they are all of them.
    have hperm : expected.Perm files.names :=
      (List.subperm_of_subset hrecords.expectedFiles.nodup hrecords.expectedFiles.found).perm_of_length_le
        (by simp [PackageFiles.names, ensure_ok.mp hlength])
    rw [← hperm.mem_iff, hrecords.mem, hbyTarget.mem, hmem, List.mem_singleton, or_assoc, or_assoc]
    refine or_congr_right ?_
    rw [← or_assoc, or_comm]
    refine or_congr ⟨?_, ?_⟩ ⟨?_, ?_⟩
    · rintro ⟨entry, hentry, record, hrecord, hpath⟩
      refine ⟨record, List.mem_filterMap.mpr ⟨entry.1, ?_, hrecord⟩, hpath⟩
      rw [hmodules]
      exact List.mem_of_getElem? (List.mem_zipIdx_iff_getElem?.mp hentry)
    · rintro ⟨record, hrecord, hpath⟩
      obtain ⟨entry, hentry, hrecord⟩ := List.mem_filterMap.mp hrecord
      rw [hmodules] at hentry
      obtain ⟨index, hindex⟩ := List.getElem?_of_mem hentry
      exact ⟨(entry, index), List.mem_zipIdx_iff_getElem?.mpr hindex, record, hrecord, hpath⟩
    · rintro (hpath | ⟨record, hrecord, hpath⟩)
      · exact ⟨object, by simp [linkRecords], hpath⟩
      · exact ⟨record, List.mem_of_mem_tail hrecord, hpath⟩
    · rintro ⟨record, hrecord, hpath⟩
      rcases List.mem_cons.mp hrecord with rfl | hrecord
      · exact Or.inl hpath
      · exact Or.inr ⟨record, hrecord, hpath⟩

namespace Validated

variable {format : PackageFormat} {files : PackageFiles} {manifest : Json.Object}
  {targets : List String} {domains : List (List String)} {plan : CompilationPlan}

theorem readable_link (h : Validated format files manifest targets domains plan)
    {record : Json.Object} (hrecord : record ∈ linkRecords manifest) :
    ReadableLink format files record := by
  obtain ⟨before, expected, hlinks⟩ := h.links
  rcases List.mem_cons.mp hrecord with rfl | hrecord
  · exact h.link
  · exact hlinks.readable record hrecord

theorem readable_module (h : Validated format files manifest targets domains plan)
    {record : Json.Object} (hrecord : record ∈ moduleRecords manifest) :
    ReadableModule format files record := by
  obtain ⟨modules, hmodules, hread⟩ := h.modules
  obtain ⟨entry, hentry, hrecord⟩ := List.mem_filterMap.mp hrecord
  rw [hmodules] at hentry
  obtain ⟨record', hrecord', hreadable⟩ := hread entry hentry
  rw [hrecord] at hrecord'
  exact Option.some.inj hrecord' ▸ hreadable

theorem digests (h : Validated format files manifest targets domains plan) {record : Json.Object}
    (hrecord : record ∈ moduleRecords manifest ++ scriptRecords manifest) :
    DeclaresFile format files record := by
  rcases List.mem_append.mp hrecord with hrecord | hrecord
  · exact (h.readable_module hrecord).file
  · obtain ⟨link, hlink, hscript⟩ := List.mem_filterMap.mp hrecord
    exact (h.readable_link hlink).script record hscript

/-- The link settings of a declared target can be read. -/
theorem readLink_isSome (h : Validated format files manifest targets domains plan)
    {target : String} (htarget : target ∈ targets) : ∃ link, readLink manifest files target = some link := by
  obtain ⟨before, expected, hlinks⟩ := h.links
  obtain ⟨record, hrecord, hreadable⟩ :
      ∃ record, linkRecord manifest target = some record ∧ ReadableLink format files record := by
    rcases hlinks.complete with hnone | ⟨links, hsome, hcomplete⟩
    · exact ⟨manifest, by simp [linkRecord, hnone], h.link⟩
    · obtain ⟨record, hrecord, hget⟩ := hcomplete target htarget
      exact ⟨record, by simp [linkRecord, hsome, hget], hlinks.readable record hrecord⟩
  obtain ⟨libraries, hlibraries⟩ := hreadable.libraries
  obtain ⟨options, hoptions⟩ := hreadable.options
  obtain ⟨script, hscript⟩ : ∃ script, readScript record files = some script := by
    unfold readScript
    split
    · rename_i script hget
      obtain ⟨path, contents, hpath, hfind, -⟩ := hreadable.script script hget
      exact ⟨contents, by simp [hpath, hfind]⟩
    · exact ⟨"", rfl⟩
  exact ⟨⟨libraries, options, script⟩, by simp [readLink, hrecord, hlibraries, hoptions, hscript]⟩

theorem readLinkPlan_isSome (h : Validated format files manifest targets domains plan) :
    ∃ links, readLinkPlan manifest files = some links ∧ links.map Prod.fst = targets := by
  unfold readLinkPlan
  rw [h.plan.2.declared, Option.bind_eq_bind, Option.bind_some]
  obtain ⟨links, hlinks⟩ : ∃ links, targets.mapM (fun target => do
      let link ← readLink manifest files target
      pure (target, link)) = some links := exists_mapM_some fun target htarget => by
    obtain ⟨link, hlink⟩ := h.readLink_isSome htarget
    exact ⟨(target, link), by simp [hlink]⟩
  refine ⟨links, hlinks, ?_⟩
  have hfst : List.Forall₂ (fun target entry => Prod.fst entry = id target) targets links :=
    (mapM_some.mp hlinks).imp fun target entry hentry => by
      obtain ⟨link, -, hlink⟩ := Option.bind_eq_some_iff.mp hentry
      exact (Option.some.inj hlink) ▸ rfl
  simpa using map_eq_of_forall₂ hfst

/-- The domains of the plan are those of the module records. -/
theorem domains_eq (h : Validated format files manifest targets domains plan) :
    (moduleRecords manifest).mapM (fun record => readStrings (record.getArray "targets")) =
      some domains := by
  obtain ⟨modules, hmodules, hread⟩ := h.plan.2.modules
  unfold moduleRecords
  rw [hmodules, Option.getD_some, mapM_some]
  clear hmodules h
  induction hread with
  | nil => exact .nil
  | cons hentry _ ih =>
    obtain ⟨record, hrecord, hdomain⟩ := hentry
    rw [List.filterMap_cons_some hrecord]
    exact .cons hdomain ih

theorem moduleBytes_isSome (h : Validated format files manifest targets domains plan) :
    ∃ bytecodes, moduleBytes manifest files = some bytecodes ∧
      bytecodes.length = domains.length := by
  obtain ⟨modules, hmodules, hread⟩ := h.modules
  unfold moduleBytes
  rw [hmodules, Option.bind_eq_bind, Option.bind_some]
  obtain ⟨bytecodes, hbytecodes⟩ : ∃ bytecodes, modules.mapM (fun entry => do
      let record ← entry.asObject?
      let path ← record.getString "path"
      files.find path) = some bytecodes := exists_mapM_some fun entry hentry => by
    obtain ⟨record, hrecord, hreadable⟩ := hread entry hentry
    obtain ⟨path, contents, hpath, hfind, -⟩ := hreadable.file
    exact ⟨contents, by simp [hrecord, hpath, hfind]⟩
  refine ⟨bytecodes, hbytecodes, ?_⟩
  obtain ⟨modules', hmodules', hdomains⟩ := h.plan.2.modules
  rw [hmodules] at hmodules'
  obtain rfl := Option.some.inj hmodules'
  exact (mapM_some.mp hbytecodes).length_eq.symm.trans hdomains.length_eq

/-- The units of a declared target are planned exactly. -/
theorem units (h : Validated format files manifest targets domains plan) {target : String}
    (htarget : target ∈ targets) :
    ∃ units, plan.lookup target = some units ∧ ExactUnits domains target units := by
  have hmem : target ∈ plan.map Prod.fst := h.plan.2.names ▸ htarget
  obtain ⟨units, hunits⟩ : ∃ units, plan.lookup target = some units := by
    rw [← Option.isSome_iff_exists, List.lookup_isSome_iff]
    obtain ⟨entry, hentry, rfl⟩ := List.mem_map.mp hmem
    exact ⟨entry, hentry, by simp⟩
  obtain ⟨before, after, rfl, -⟩ := List.lookup_eq_some_iff.mp hunits
  exact ⟨units, hunits, h.plan.2.exact_units (target, units) (by simp)⟩

end Validated

/-- An accepted package has exactly the files it declares, each with its digest, and every
read of its consumers is defined. -/
theorem validatePackage_sound (format : PackageFormat) (files : PackageFiles)
    (manifest : Json.Object) (h : validatePackage format files = .ok manifest) :
    Admitted format files manifest := by
  obtain ⟨targets, domains, plan, hvalid⟩ := validatePackage_ok h
  obtain ⟨links, hlinks, hlinked⟩ := hvalid.readLinkPlan_isSome
  obtain ⟨bytecodes, hbytecodes, hlength⟩ := hvalid.moduleBytes_isSome
  obtain ⟨kind, hkind, -⟩ := hvalid.plan.2.kind
  refine ⟨fun name => ?_, fun record hrecord => hvalid.digests hrecord, kind, targets, domains, plan,
    links, bytecodes, hkind, hvalid.plan.2.declared, hvalid.domains_eq, hvalid.plan.1, hlinks,
    hbytecodes, fun target htarget => ?_⟩
  · rw [hvalid.names]
    refine or_congr_right (or_congr_right ⟨?_, ?_⟩)
    · rintro ⟨record, hrecord, hpath⟩
      obtain ⟨script, hscript, hpath⟩ := Option.bind_eq_some_iff.mp (Option.mem_toList.mp hpath)
      exact ⟨script, List.mem_filterMap.mpr ⟨record, hrecord, hscript⟩, hpath⟩
    · rintro ⟨script, hscript, hpath⟩
      obtain ⟨record, hrecord, hscript⟩ := List.mem_filterMap.mp hscript
      exact ⟨record, hrecord, by simp [scriptPaths, hscript, hpath]⟩
  · obtain ⟨units, hunits, hexact⟩ := hvalid.units htarget
    refine ⟨?_, ?_, units, hunits, hexact⟩
    · rw [List.lookup_isSome_iff]
      obtain ⟨entry, hentry, rfl⟩ := List.mem_map.mp (hlinked ▸ htarget : target ∈ links.map Prod.fst)
      exact ⟨entry, hentry, by simp⟩
    · -- A module of a unit has a domain, so its index is one of the bytecodes.
      unfold unitBytes
      rw [hunits, Option.bind_eq_bind, Option.bind_some, Option.isSome_iff_exists]
      refine exists_mapM_some fun unit hunit => exists_mapM_some fun index hindex => ?_
      obtain ⟨domain, hdomain, -⟩ :=
        (hexact.mem index).mp (List.mem_flatMap.mpr ⟨unit, hunit, hindex⟩)
      obtain ⟨hlt, -⟩ := List.getElem?_eq_some_iff.mp hdomain
      exact ⟨bytecodes[index], List.getElem?_eq_getElem (hlength ▸ hlt)⟩

/-! ## An accepted package -/

/-- A relocatable unit of one module for one target. -/
def unitManifest : Json.Object :=
  [("compilation_units", .object [("x86_64",
      .array [.object [("modules", .array [.integer 0]), ("optimization", .string "O2")]])]),
    ("contract", .string "sela-prealpha-2"),
    ("format_version", .integer 2),
    ("kind", .string "object"),
    ("libraries", .array []),
    ("link_options", .array []),
    ("modules", .array [.object [("path", .string "modules/0.selabc"),
      ("sha256", .string "523f3a83db8bd636be55536029b95b6c316b2106a69b896be20dea51000a0b9a"),
      ("targets", .array [.string "x86_64"])]]),
    ("runtime", .string "glibc-2.39-0ubuntu8.8"),
    ("targets", .array [.string "x86_64"])]

def unitManifestText : String :=
  "\x7b\n  \"compilation_units\": \x7b\n    \"x86_64\": [\n      \x7b\n" ++
  "        \"modules\": [\n          0\n        ],\n        \"optimization\": \"O2\"\n" ++
  "      \x7d\n    ]\n  \x7d,\n  \"contract\": \"sela-prealpha-2\",\n" ++
  "  \"format_version\": 2,\n  \"kind\": \"object\",\n  \"libraries\": [],\n" ++
  "  \"link_options\": [],\n  \"modules\": [\n    \x7b\n" ++
  "      \"path\": \"modules/0.selabc\",\n" ++
  "      \"sha256\": \"523f3a83db8bd636be55536029b95b6c316b2106a69b896be20dea51000a0b9a\",\n" ++
  "      \"targets\": [\n        \"x86_64\"\n      ]\n    \x7d\n  ],\n" ++
  "  \"runtime\": \"glibc-2.39-0ubuntu8.8\",\n  \"targets\": [\n    \"x86_64\"\n  ]\n\x7d\n"

theorem unitManifest_distinct : (Json.object unitManifest).Distinct := by
  simp [unitManifest, Json.Distinct, Json.DistinctMembers, Json.DistinctElements]

/-- The format on the files of this one package, whose manifest has the text `text`. -/
def unitFormat (text : String) : PackageFormat where
  parse text' := if text' = text then .ok (.object unitManifest) else .error "invalid JSON"
  parse_distinct h := by
    split at h
    · exact Except.ok.inj h ▸ unitManifest_distinct
    · simp at h
  jsonText _ := text
  digest contents :=
    if contents = "sela" then "523f3a83db8bd636be55536029b95b6c316b2106a69b896be20dea51000a0b9a"
    else ""

def unitPackage (text : String) : PackageFiles where
  entries := [("manifest.json", text), ("modules/0.selabc", "sela")]
  nodup := by simp

theorem readManifest_of {format : PackageFormat} {files : PackageFiles} {manifest : Json.Object}
    {text : String} (hfind : files.find "manifest.json" = some text)
    (hsize : text.length ≤ 1024 * 1024) (hparse : format.parse text = .ok (.object manifest))
    (htext : format.jsonText (.object manifest) = text)
    (hversion : manifest.getInteger "format_version" = some artifactFormatVersion ∧
      manifest.getString "contract" = some contract)
    (hfields : ∀ entry ∈ manifest, entry.1 ∈ manifestFields) :
    readManifest format files = .ok manifest := by
  unfold readManifest
  rw [hfind]
  refine bind_ok.mpr ⟨_, rfl, bind_ok.mpr ⟨(), ensure_ok.mpr hsize, bind_ok.mpr ⟨_, hparse, ?_⟩⟩⟩
  refine bind_ok.mpr ⟨(), ensure_ok.mpr htext, bind_ok.mpr ⟨manifest, rfl, ?_⟩⟩
  exact bind_ok.mpr ⟨(), ensure_ok.mpr hversion, bind_ok.mpr ⟨(), ensure_ok.mpr hfields, rfl⟩⟩

theorem readManifest_unitPackage {text : String} (hsize : text.length ≤ 1024 * 1024) :
    readManifest (unitFormat text) (unitPackage text) = .ok unitManifest := by
  have hparse : (unitFormat text).parse text = .ok (.object unitManifest) := if_pos rfl
  exact readManifest_of (by simp [PackageFiles.find, unitPackage]) hsize hparse rfl
    (by decide +kernel) (by decide +kernel)

theorem validatePackage_unitPackage {text : String} (hsize : text.length ≤ 1024 * 1024) :
    validatePackage (unitFormat text) (unitPackage text) = .ok unitManifest := by
  unfold validatePackage
  rw [readManifest_unitPackage hsize]
  rfl

/-- A text is not longer than its encoding, which the kernel measures faster. -/
theorem length_le_utf8ByteSize (text : String) : text.length ≤ text.utf8ByteSize := by
  rw [← String.ofList_toList (s := text), String.length_ofList]
  induction text.toList with
  | nil => exact Nat.zero_le _
  | cons c text ih =>
    have hc := Char.utf8Size_pos c
    rw [String.ofList_cons, String.utf8ByteSize_append, String.utf8ByteSize_singleton,
      List.length_cons]
    omega

theorem length_unitManifestText : unitManifestText.length ≤ 1024 * 1024 := by
  refine Nat.le_trans (length_le_utf8ByteSize _) ?_
  unfold unitManifestText
  repeat rw [String.utf8ByteSize_append]
  decide +kernel

theorem unitPackage_admitted :
    Admitted (unitFormat unitManifestText) (unitPackage unitManifestText) unitManifest :=
  validatePackage_sound _ _ _ (validatePackage_unitPackage length_unitManifestText)

end Sela
