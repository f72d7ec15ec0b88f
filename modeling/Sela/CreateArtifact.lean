import Sela.Link
import Sela.VersionScript

/-!
# Creating an artifact

`createArtifact` lays out the files of a package : the bytecode of each module, the
normalized version scripts, and the manifest that declares them and plans the native units of
every target. The package is validated before it is returned.

* every version script it stores is normalized, so that the check of a link record accepts it
  as it stands (`versionScripts_exact`).
-/

namespace Sela

open Checked

namespace PackageFiles

variable {files : PackageFiles} {name other contents : String}

/-- Give a file its contents, whether or not there is one. -/
def assign (files : PackageFiles) (name contents : String) : PackageFiles where
  entries := Association.update name (fun _ => contents) files.entries
  nodup := Association.nodup_keys_update files.nodup

theorem find_assign : (files.assign name contents).find other =
    if other = name then some contents else files.find other :=
  Association.lookup_update name _ other files.entries

end PackageFiles

/-- The files of the modules. -/
def moduleFiles (modules : List ArtifactModule) : PackageFiles :=
  modules.zipIdx.foldl (fun files entry => files.assign (modulePath entry.2) entry.1.bytecode)
    ⟨[], List.nodup_nil⟩

/-! ## The plan -/

/-- A module is a unit of a target of its domain, which is every target where it has none. -/
def ArtifactModule.active (module : ArtifactModule) (target : String) : Bool :=
  module.targets = [] || module.targets.contains target

/-- The plan of an artifact that is given none : each module is a unit. -/
def defaultPlan (modules : List ArtifactModule) (targets : List String) : CompilationPlan :=
  let plan := targets.foldl (fun plan target =>
    modules.zipIdx.foldl (fun (plan : CompilationPlan) entry =>
      if entry.1.active target then
        plan.push target ⟨[entry.2], entry.1.optimization, entry.1.archiveMember⟩
      else plan) plan) []
  -- empty static archives still have an explicit empty plan for every target
  targets.foldl CompilationPlan.tryEmplace plan

/-! ## The link records -/

/-- The record of a version script. -/
def scriptRecord (format : PackageFormat) (path script : String) : Json :=
  .object [("path", .string path), ("sha256", .string (format.digest script))]

/-- Store a version script, unless it is empty, and return the field that declares it. -/
def storeScript (format : PackageFormat) (path versionScript : String) (files : PackageFiles) :
    Checked (Json.Object × PackageFiles) :=
  if versionScript = "" then pure ([], files)
  else do
    let normalized ← normalizeVersionScript versionScript
    pure ([("version_script", scriptRecord format path normalized)], files.assign path normalized)

/-- The link record of one target. -/
def storeLink (format : PackageFormat) (state : Json.Object × PackageFiles)
    (entry : String × ArtifactLink) : Checked (Json.Object × PackageFiles) := do
  let (script, files) ←
    storeScript format (targetScriptPath entry.1) entry.2.versionScript state.2
  let record : Json.Object := [("libraries", .array (entry.2.libraries.map Json.string)),
    ("link_options", .array (entry.2.options.map Json.string))] ++ script
  pure (state.1 ++ [(entry.1, .object record)], files)

/-- The link records of the targets, where there are any. -/
def storeLinks (format : PackageFormat) (linkPlan : LinkPlan) (files : PackageFiles) :
    Checked (Json.Object × PackageFiles) :=
  if linkPlan = [] then pure ([], files)
  else do
    let (links, files) ← linkPlan.foldlM (storeLink format) ([], files)
    pure ([("target_links", .object links)], files)

/-! ## The artifact -/

section

variable (format : PackageFormat) (kind : String) (modules : List ArtifactModule)
  (libraries linkOptions targets : List String) (versionScript : String)
  (compilationPlan : CompilationPlan) (linkPlan : LinkPlan)

/-- The manifest of an artifact and its files but for the manifest. -/
def artifactContents : Checked (Json.Object × PackageFiles) := do
  let plan := if compilationPlan = [] then defaultPlan modules targets else compilationPlan
  let manifest := artifactManifest format kind modules libraries linkOptions targets plan
  let (script, files) ←
    storeScript format "link/version.script" versionScript (moduleFiles modules)
  ensure (linkPlan ≠ [] → libraries = [] ∧ linkOptions = [] ∧ versionScript = "")
    "cannot combine common and target-dependent link settings"
  let (links, files) ← storeLinks format linkPlan files
  pure (manifest ++ script ++ links, files)

def createArtifact : Checked PackageFiles := do
  let (manifest, files) ← artifactContents format kind modules libraries linkOptions targets
    versionScript compilationPlan linkPlan
  let files := files.assign "manifest.json" (format.jsonText (.object manifest))
  let _ ← validatePackage format files
  pure files

end

/-! ## Stored version scripts -/

/-- Where version scripts are stored. -/
def IsScriptPath (path : String) : Prop :=
  path = "link/version.script" ∨ ∃ target, path = targetScriptPath target

theorem isScriptPath_head {path : String} (h : IsScriptPath path) :
    path.toList.head? = some 'l' := by
  rcases h with rfl | ⟨target, rfl⟩
  · rfl
  · rw [targetScriptPath, String.toList_append, String.toList_append]
    rfl

theorem modulePath_ne_script {index : ℕ} {path : String} (h : IsScriptPath path) :
    path ≠ modulePath index := by
  rintro rfl
  have := isScriptPath_head h
  rw [modulePath, String.toList_append, String.toList_append] at this
  exact absurd this (by simp)

theorem manifest_ne_script {path : String} (h : IsScriptPath path) : path ≠ "manifest.json" := by
  rintro rfl
  exact absurd (isScriptPath_head h) (by decide)

/-- The version scripts among the files are normal. -/
def ScriptsNormal (files : PackageFiles) : Prop :=
  ∀ path contents, IsScriptPath path → files.find path = some contents → NormalScript contents

theorem ScriptsNormal.assign {files : PackageFiles} (h : ScriptsNormal files) {name contents : String}
    (hname : IsScriptPath name → NormalScript contents) :
    ScriptsNormal (files.assign name contents) := by
  intro path found hpath hfind
  rw [PackageFiles.find_assign] at hfind
  split_ifs at hfind with hsame
  · subst hsame
    exact Option.some.inj hfind ▸ hname hpath
  · exact h path found hpath hfind

theorem moduleFiles_scriptsNormal (modules : List ArtifactModule) :
    ScriptsNormal (moduleFiles modules) := by
  have hfold : ∀ (entries : List (ArtifactModule × ℕ)) (files : PackageFiles), ScriptsNormal files →
      ScriptsNormal (entries.foldl (fun files entry =>
        files.assign (modulePath entry.2) entry.1.bytecode) files) := by
    intro entries
    induction entries with
    | nil => exact fun files h => h
    | cons entry entries ih =>
      exact fun files h => ih _ (h.assign fun hpath => absurd rfl (modulePath_ne_script hpath))
  refine hfold _ _ fun path contents _ hfind => ?_
  simp [PackageFiles.find] at hfind

variable {format : PackageFormat}

theorem storeScript_scriptsNormal {path versionScript : String} {files : PackageFiles}
    {result : Json.Object × PackageFiles}
    (h : storeScript format path versionScript files = .ok result) (hfiles : ScriptsNormal files) :
    ScriptsNormal result.2 := by
  unfold storeScript at h
  split_ifs at h with hempty
  · exact Except.ok.inj h ▸ hfiles
  · obtain ⟨normalized, hnormalized, h⟩ := bind_ok.mp h
    exact Except.ok.inj h ▸ hfiles.assign fun _ => normalizeVersionScript_normal hnormalized

theorem storeLinks_scriptsNormal {linkPlan : LinkPlan} {files : PackageFiles}
    {result : Json.Object × PackageFiles} (h : storeLinks format linkPlan files = .ok result)
    (hfiles : ScriptsNormal files) : ScriptsNormal result.2 := by
  unfold storeLinks at h
  split_ifs at h with hempty
  · exact Except.ok.inj h ▸ hfiles
  · obtain ⟨state, hrun, h⟩ := bind_ok.mp h
    obtain rfl := Except.ok.inj h
    change ScriptsNormal state.2
    refine @foldlM_invariant _ _ _ (fun _ state => ScriptsNormal state.2) [] linkPlan ([], files) _
      hfiles ?_ hrun
    intro _ entry _ state state' _ hstate hstep
    obtain ⟨stored, hstored, hstep⟩ := bind_ok.mp hstep
    obtain rfl := Except.ok.inj hstep
    change ScriptsNormal stored.2
    exact storeScript_scriptsNormal hstored hstate

/-- Every version script that an artifact stores is normal, before any validation. -/
theorem artifactContents_scriptsNormal {kind versionScript : String}
    {modules : List ArtifactModule} {libraries linkOptions targets : List String}
    {compilationPlan : CompilationPlan} {linkPlan : LinkPlan}
    {contents : Json.Object × PackageFiles}
    (h : artifactContents format kind modules libraries linkOptions targets versionScript
      compilationPlan linkPlan = .ok contents) : ScriptsNormal contents.2 := by
  obtain ⟨script, hscript, h⟩ := bind_ok.mp h
  obtain ⟨-, -, h⟩ := bind_ok.mp h
  obtain ⟨links, hlinks, h⟩ := bind_ok.mp h
  obtain rfl := Except.ok.inj h
  change ScriptsNormal links.2
  exact storeLinks_scriptsNormal hlinks
    (storeScript_scriptsNormal hscript (moduleFiles_scriptsNormal modules))

/-- What a version script is normalized to : its text with every comment replaced by a space,
which no comment begins in, made of the characters of a script and not blank, and which is
normalized to itself. -/
structure Normalization (text script : String) : Prop where
  stripped : Stripped text.toList script.toList
  free : CommentFree script.toList
  size : script.length ≤ text.length
  characters : ∀ c ∈ script.toList, scriptCharacter c = true
  declares : ∃ c ∈ script.toList, c.isWhitespace = false
  fixed : normalizeVersionScript script = .ok script

theorem normalization {text script : String} (h : normalizeVersionScript text = .ok script) :
    Normalization text script := by
  obtain ⟨-, -, hstripped, hdeclares⟩ := normalizeVersionScript_ok.mp h
  refine ⟨hstripped, commentFree_of_forall hstripped.characters, ?_, hstripped.characters,
    hdeclares, (normalizeVersionScript_normal h).fixed⟩
  exact hstripped.length_le

/-- Normalizing a version script strips its comments and is a projection. Every version
script an artifact stores, in common or for a target, is normalized to itself, which is what
the check of a link record asks. -/
theorem versionScripts_exact :
    (∀ text script, normalizeVersionScript text = .ok script → Normalization text script) ∧
      ∀ format kind modules libraries linkOptions targets versionScript compilationPlan linkPlan files,
        createArtifact format kind modules libraries linkOptions targets versionScript
          compilationPlan linkPlan = .ok files →
        ∀ path contents, IsScriptPath path → files.find path = some contents →
          normalizeVersionScript contents = .ok contents := by
  refine ⟨fun text script h => normalization h, fun format kind modules libraries linkOptions
    targets versionScript compilationPlan linkPlan files h path contents hpath hfind => ?_⟩
  obtain ⟨⟨manifest, stored⟩, hcontents, h⟩ := bind_ok.mp h
  obtain ⟨_, -, h⟩ := bind_ok.mp h
  obtain rfl := Except.ok.inj h
  rw [PackageFiles.find_assign, if_neg (manifest_ne_script hpath)] at hfind
  exact (artifactContents_scriptsNormal hcontents path contents hpath hfind).fixed

/-- A script with a block comment and a hash comment. -/
def commentedScript : String := "v1 /* old */;#x\ny"

theorem commentedScript_stripped : Stripped commentedScript.toList "v1  ; \ny".toList := by
  have hbody : ¬['*', '/'] <:+: [' ', 'o', 'l', 'd', ' '] ++ ['*'] := by
    simp [List.infix_cons_iff]
  have hline : Stripped ['\n', 'y'] ['\n', 'y'] := .keep (by decide) (.keep (by decide) .nil)
  have hhash : Stripped ['#', 'x', '\n', 'y'] [' ', '\n', 'y'] :=
    @Stripped.hash ['x'] _ _ (by decide) (.inr rfl) hline
  have hblock : Stripped "/* old */;#x\ny".toList [' ', ';', ' ', '\n', 'y'] :=
    Stripped.block hbody (.keep (by decide) hhash)
  exact .keep (by decide) (.keep (by decide) (.keep (by decide) hblock))

theorem commentedScript_exact : Normalization commentedScript "v1  ; \ny" :=
  versionScripts_exact.1 _ _ (normalizeVersionScript_ok.mpr
    ⟨by decide, by decide, commentedScript_stripped, 'v', by decide, by decide⟩)

end Sela
