import Sela.CreateArtifact
import Sela.JsonText
import Sela.PackageArchive

/-!
# Reading an artifact back

An artifact that `createArtifact` returns is read as what it was created from : the plan of each
target has the units that were given, or one for each module of the target, the link settings of
each target are those that were given, with the normal form of the version script, and the module
files are the bytecode of the modules, in order (`createArtifact_readBack`).

The writer and the reader of JSON are those of the format. What is read of a member that passes
the checks of the package is ASCII, so it is what was written (`Json.ReadAs`).
-/

namespace Sela

open Checked Json

/-- The reader of the format gives back what its writer wrote. -/
def PackageFormat.ReadsText (format : PackageFormat) : Prop :=
  ∀ written read, format.parse (format.jsonText written) = .ok read → written.ReadAs read

/-! ## ASCII names -/

theorem toNat_lt_of_isAlphanumeric {c : Char} (h : isAlphanumeric c = true) : c.toNat < 128 := by
  simp only [isAlphanumeric, Bool.or_eq_true, Bool.and_eq_true, decide_eq_true_eq, Char.le_def,
    UInt32.le_iff_toNat_le] at h
  have hnat : c.toNat = c.val.toNat := rfl
  have ha : ('a' : Char).val.toNat = 97 := rfl
  have hz : ('z' : Char).val.toNat = 122 := rfl
  have hA : ('A' : Char).val.toNat = 65 := rfl
  have hZ : ('Z' : Char).val.toNat = 90 := rfl
  have h0 : ('0' : Char).val.toNat = 48 := rfl
  have h9 : ('9' : Char).val.toNat = 57 := rfl
  omega

theorem validName_ascii {name : String} (h : validName name = true) : Ascii name := by
  intro c hc
  simp only [validName, Bool.and_eq_true, List.all_eq_true] at h
  have hchar := h.2 c hc
  simp only [Bool.or_eq_true, beq_iff_eq] at hchar
  rcases hchar with (hchar | rfl) | rfl
  · exact toNat_lt_of_isAlphanumeric hchar
  · decide
  · decide

theorem validArchiveMember_ascii {name : String} (h : validArchiveMember name = true) :
    Ascii name := by
  intro c hc
  simp only [validArchiveMember, Bool.and_eq_true, List.all_eq_true] at h
  have hchar := h.2 c hc
  simp only [Bool.or_eq_true, beq_iff_eq] at hchar
  rcases hchar with (((hchar | rfl) | rfl) | rfl) | rfl
  · exact toNat_lt_of_isAlphanumeric hchar
  · decide
  · decide
  · decide
  · decide

theorem validLibrary_ascii {name : String} (h : validLibrary name = true) : Ascii name := by
  unfold validLibrary at h
  split at h
  · rename_i rest hname
    intro c hc
    rw [hname] at hc
    rcases List.mem_cons.mp hc with rfl | hc
    · decide
    · exact validArchiveMember_ascii h c (by simpa using hc)
  · exact validName_ascii h

theorem validOption_ascii {kind text : String} (h : validOption kind text = true) : Ascii text := by
  have hdrop : validLibrary (":" ++ String.ofList (text.toList.drop 8)) = true →
      "-soname=".toList <+: text.toList → Ascii text := by
    intro hvalid hprefix c hc
    obtain ⟨rest, hrest⟩ := hprefix
    rw [← hrest] at hc hvalid
    rcases List.mem_append.mp hc with hc | hc
    · have hall : Ascii "-soname=" := by decide
      exact hall c hc
    · refine validLibrary_ascii hvalid c ?_
      rw [String.toList_append]
      simpa using Or.inr hc
  simp only [validOption, Bool.and_eq_true, Bool.or_eq_true, beq_iff_eq] at h
  rcases h.2 with ((rfl | rfl) | rfl) | ⟨⟨-, hprefix⟩, hvalid⟩
  · decide
  · decide
  · decide
  · exact hdrop hvalid (List.isPrefixOf_iff_prefix.mp hprefix)

theorem target_ascii {id : String} (h : (Sela.targets.find id).isSome = true) : Ascii id := by
  obtain ⟨target, htarget⟩ := Option.isSome_iff_exists.mp h
  rw [← Sela.targets.find_id htarget]
  have hall : ∀ target ∈ Sela.targets.all, Ascii target.id := by decide
  exact hall target (Sela.targets.find_mem htarget)

theorem optimization_ascii {level : String} (h : level ∈ optimizations) : Ascii level := by
  have hall : ∀ level ∈ optimizations, Ascii level := by decide
  exact hall level h

/-! ## Plans -/

section Plan

variable {kind target : String} {domains : List (List String)}

theorem readMembers_eq {indices : List ℕ} : ∀ {members : List Json} {seen modules : List ℕ},
    List.Forall₂ ReadAs (indices.map fun index : ℕ => Json.integer index) members →
    readMembers domains target seen members = .ok modules → modules = indices := by
  induction indices with
  | nil =>
    intro members seen modules hread h
    cases hread
    exact (Except.ok.inj h).symm
  | cons index indices ih =>
    intro members seen modules hread h
    cases hread with
    | cons hfirst hrest =>
      unfold readMembers at h
      obtain ⟨value, hvalue, h⟩ := bind_ok.mp h
      obtain ⟨_, -, h⟩ := bind_ok.mp h
      obtain ⟨_, -, h⟩ := bind_ok.mp h
      obtain ⟨rest, hmodules, h⟩ := bind_ok.mp h
      obtain rfl := Except.ok.inj h
      have hindex : value = index := hfirst.asInteger (require_ok.mp hvalue) rfl
      rw [ih hrest hmodules, hindex]
      rfl

/-- The fields of a unit that are written. -/
def unitFields (unit : ArtifactUnit) : Json.Object :=
  [("modules", .array (unit.modules.map fun index : ℕ => Json.integer index)),
    ("optimization", .string unit.optimization)] ++
      if unit.archiveMember = "" then [] else [("archive_member", .string unit.archiveMember)]

theorem unitFields_nodup (unit : ArtifactUnit) : ((unitFields unit).map Prod.fst).Nodup := by
  unfold unitFields
  split <;> simp

theorem readArchiveMember_eq {unit : ArtifactUnit} {record : Json.Object} {archiveMember : String}
    (hread : ReadAs (.object (unitFields unit)) (.object record))
    (h : readArchiveMember kind record = .ok archiveMember) : archiveMember = unit.archiveMember := by
  have hkey : Ascii "archive_member" := by decide
  have hget : (unitFields unit).get "archive_member" =
      if unit.archiveMember = "" then none else some (.string unit.archiveMember) := by
    unfold unitFields
    split <;> simp [Json.Object.get_cons]
  unfold readArchiveMember at h
  split_ifs at h with hstatic
  · obtain ⟨member, hmember, h⟩ := bind_ok.mp h
    obtain ⟨_, hvalid, h⟩ := bind_ok.mp h
    obtain rfl := Except.ok.inj h
    have hwritten := hread.getString (unitFields_nodup unit) hkey (require_ok.mp hmember)
      (validArchiveMember_ascii (ensure_ok.mp hvalid))
    rw [Json.Object.getString, hget] at hwritten
    split_ifs at hwritten
    · simp at hwritten
    · simpa using hwritten.symm
  · obtain ⟨_, hnone, h⟩ := bind_ok.mp h
    obtain rfl := Except.ok.inj h
    have hwritten := hread.get_none hkey (Option.isNone_iff_eq_none.mp (ensure_ok.mp hnone))
    rw [hget] at hwritten
    split_ifs at hwritten with hempty
    exact hempty.symm

/-- A unit is read as it was written. -/
theorem readUnit_eq {unit unit' : ArtifactUnit} {entry : Json} {seen : List ℕ}
    (hread : ReadAs (unitRecord unit) entry)
    (h : readUnit kind domains target seen entry = .ok unit') : unit' = unit := by
  unfold readUnit at h
  obtain ⟨record, hrecord, h⟩ := bind_ok.mp h
  obtain ⟨_, -, h⟩ := bind_ok.mp h
  obtain ⟨members, hmembers, h⟩ := bind_ok.mp h
  obtain ⟨optimization, hoptimization, h⟩ := bind_ok.mp h
  obtain ⟨_, hlevel, h⟩ := bind_ok.mp h
  obtain ⟨archiveMember, hmember, h⟩ := bind_ok.mp h
  obtain ⟨modules, hmodules, h⟩ := bind_ok.mp h
  obtain rfl := Except.ok.inj h
  obtain ⟨fields, hfields, hobject⟩ := hread.asObject (require_ok.mp hrecord)
  obtain rfl : unitFields unit = fields := Option.some.inj hfields
  obtain ⟨indices, hindices, heach⟩ := hobject.getArray (unitFields_nodup unit) (by decide)
    (require_ok.mp hmembers)
  obtain rfl : unit.modules.map (fun index : ℕ => Json.integer index) = indices :=
    Option.some.inj hindices
  have hoptimized := hobject.getString (unitFields_nodup unit) (by decide)
    (require_ok.mp hoptimization) (optimization_ascii (ensure_ok.mp hlevel).2)
  obtain rfl : unit.optimization = optimization := Option.some.inj hoptimized
  rw [readMembers_eq heach hmodules, readArchiveMember_eq hobject hmember]

theorem readUnits_eq {units : List ArtifactUnit} : ∀ {entries : List Json} {seen : List ℕ}
    {units' : List ArtifactUnit}, List.Forall₂ ReadAs (units.map unitRecord) entries →
    readUnits kind domains target seen entries = .ok units' → units' = units := by
  induction units with
  | nil =>
    intro entries seen units' hread h
    cases hread
    exact (Except.ok.inj h).symm
  | cons unit units ih =>
    intro entries seen units' hread h
    cases hread with
    | cons hfirst hrest =>
      unfold readUnits at h
      obtain ⟨unit', hunit, h⟩ := bind_ok.mp h
      obtain ⟨rest, hunits, h⟩ := bind_ok.mp h
      obtain rfl := Except.ok.inj h
      rw [readUnit_eq hfirst hunit, ih hrest hunits]

/-- The plan of a target is read as it was written. -/
theorem readTargetPlan_eq {plan : CompilationPlan} {plans : Json.Object} {declared : Json}
    {planned : String × List ArtifactUnit} (hkeys : (plan.map Prod.fst).Nodup)
    (hread : ReadAs (.object (plan.map fun entry => (entry.1, .array (entry.2.map unitRecord))))
      (.object plans)) (htarget : declared.asString? = some target) (hascii : Ascii target)
    (h : readTargetPlan kind plans domains declared = .ok planned) :
    planned.1 = target ∧ plan.lookup target = some planned.2 := by
  unfold readTargetPlan at h
  obtain ⟨name, hname, h⟩ := bind_ok.mp h
  obtain ⟨entries, hentries, h⟩ := bind_ok.mp h
  obtain ⟨_, -, h⟩ := bind_ok.mp h
  obtain ⟨units, hunits, h⟩ := bind_ok.mp h
  obtain ⟨_, -, h⟩ := bind_ok.mp h
  obtain rfl := Except.ok.inj h
  obtain rfl : name = target := Option.some.inj ((require_ok.mp hname).symm.trans htarget)
  obtain ⟨written, hwritten, heach⟩ := hread.getArray (by simpa [Function.comp_def] using hkeys)
    hascii (require_ok.mp hentries)
  rw [Json.Object.getArray, Json.Object.get,
    Association.lookup_map (fun units : List ArtifactUnit => Json.array (units.map unitRecord))]
    at hwritten
  obtain ⟨value, hvalue, harray⟩ := Option.bind_eq_some_iff.mp hwritten
  obtain ⟨planned, hplanned, rfl⟩ := Option.map_eq_some_iff.mp hvalue
  obtain rfl := Option.some.inj harray
  rw [hplanned, readUnits_eq heach hunits]
  exact ⟨rfl, rfl⟩

end Plan

/-! ## Modules -/

/-- The domain a module is declared with. -/
def ArtifactModule.domain (module : ArtifactModule) (targets : List String) : List String :=
  if module.targets = [] then targets else module.targets

section Modules

variable {format : PackageFormat} {targets : List String} {files : PackageFiles}
  {modules : List ArtifactModule}

/-- A module record is read as it was written. -/
theorem readModuleRecord_eq {module : ArtifactModule} {index : ℕ} {entry : Json}
    {expected expected' : List String} (htargets : ∀ target ∈ targets, Ascii target)
    (hfile : files.find (modulePath index) = some module.bytecode)
    (hread : ReadAs (moduleRecord format targets (module, index)) entry)
    (h : validateModule format targets files expected (entry, index) = .ok expected') :
    readModuleRecord files entry = some (module.bytecode, module.domain targets) := by
  unfold validateModule at h
  obtain ⟨record, hrecord, h⟩ := bind_ok.mp h
  obtain ⟨_, -, h⟩ := bind_ok.mp h
  obtain ⟨domain, hdomain, h⟩ := bind_ok.mp h
  obtain ⟨_, -, h⟩ := bind_ok.mp h
  obtain ⟨ids, hids, h⟩ := bind_ok.mp h
  obtain ⟨_, hpath, h⟩ := bind_ok.mp h
  obtain ⟨hstrings, hadmits, -⟩ := readDomain_ok hids
  have hrecord := require_ok.mp hrecord
  obtain ⟨fields, hfields, hobject⟩ := hread.asObject hrecord
  obtain rfl := Option.some.inj hfields
  obtain ⟨written, hwritten, heach⟩ := hobject.getArray (by simp) (by decide)
    (require_ok.mp hdomain)
  obtain rfl : (module.domain targets).map Json.string = written := Option.some.inj hwritten
  obtain rfl : ids = module.domain targets := ReadAs.strings heach (readStrings_eq.mp hstrings)
    fun id hid => htargets id (by simpa using hadmits id hid)
  simp only [readModuleRecord, hrecord, require_ok.mp hdomain, hstrings, ensure_ok.mp hpath, hfile,
    Option.bind_eq_bind, Option.bind_some, Option.pure_def]

theorem readModuleRecords_eq (htargets : ∀ target ∈ targets, Ascii target) :
    ∀ {modules : List ArtifactModule} {start : ℕ} {entries : List Json} {expected expected' : List String},
      (∀ index module, modules[index]? = some module →
        files.find (modulePath (start + index)) = some module.bytecode) →
      List.Forall₂ ReadAs ((modules.zipIdx start).map (moduleRecord format targets)) entries →
      (entries.zipIdx start).foldlM (validateModule format targets files) expected = .ok expected' →
        entries.mapM (readModuleRecord files) =
          some (modules.map fun module => (module.bytecode, module.domain targets)) := by
  intro modules
  induction modules with
  | nil =>
    intro start entries expected expected' _ hread _
    cases hread
    rfl
  | cons module modules ih =>
    intro start entries expected expected' hfiles hread h
    rw [List.zipIdx_cons, List.map_cons] at hread
    cases hread with
    | cons hfirst hrest =>
      rw [List.zipIdx_cons] at h
      obtain ⟨middle, hstep, h⟩ := foldlM_cons_ok.mp h
      have hmodule := readModuleRecord_eq htargets (hfiles 0 module rfl) hfirst hstep
      have hmodules := ih (fun index other hother => by
        have := hfiles (index + 1) other hother
        rwa [show start + (index + 1) = start + 1 + index by omega] at this) hrest h
      rw [List.mapM_cons, hmodule, hmodules]
      rfl

/-- The files of the modules are their bytecode. -/
theorem find_moduleFiles {index : ℕ} :
    (moduleFiles modules).find (modulePath index) = modules[index]?.map ArtifactModule.bytecode := by
  have hfold : ∀ (modules : List ArtifactModule) (start : ℕ) (files : PackageFiles),
      ((modules.zipIdx start).foldl (fun files entry =>
        files.assign (modulePath entry.2) entry.1.bytecode) files).find (modulePath index) =
        if start ≤ index ∧ index < start + modules.length then
          modules[index - start]?.map ArtifactModule.bytecode
        else files.find (modulePath index) := by
    intro modules
    induction modules with
    | nil =>
      intro start files
      rw [if_neg (by simp)]
      rfl
    | cons module modules ih =>
      intro start files
      rw [List.zipIdx_cons, List.foldl_cons, ih, PackageFiles.find_assign]
      by_cases hstart : index = start
      · subst hstart
        rw [if_neg (by omega), if_pos rfl, if_pos (by simp), Nat.sub_self]
        rfl
      · rw [if_neg fun h => hstart (modulePath_injective h)]
        by_cases hlt : start + 1 ≤ index ∧ index < start + 1 + modules.length
        · rw [if_pos hlt, if_pos (by simp only [List.length_cons]; omega),
            show index - start = index - (start + 1) + 1 by omega, List.getElem?_cons_succ]
        · rw [if_neg hlt, if_neg (by simp only [List.length_cons]; omega)]
  rw [moduleFiles, hfold]
  split_ifs with hlt
  · rw [Nat.sub_zero]
  · have hlength : modules.length ≤ index := by omega
    simp [PackageFiles.find, List.getElem?_eq_none hlength]

end Modules

/-! ## Version scripts -/

/-- The normal form of a version script that is given. -/
def NormalForm (given script : String) : Prop :=
  if given = "" then script = "" else normalizeVersionScript given = .ok script

/-- The field of a version script, and the file where it is. -/
inductive StoredScript (format : PackageFormat) (files : PackageFiles) (path : String) :
    Json.Object → String → Prop
  | none : StoredScript format files path [] ""
  | file {script : String} (hfile : files.find path = some script) :
      StoredScript format files path [("version_script", scriptRecord format path script)] script

section Scripts

variable {format : PackageFormat} {files files' : PackageFiles} {path script given : String}
  {field : Json.Object}

theorem StoredScript.mono (h : StoredScript format files path field script)
    (hkeep : files'.find path = files.find path) : StoredScript format files' path field script := by
  cases h with
  | none => exact .none
  | file hfile => exact .file (hkeep.trans hfile)

theorem StoredScript.keys (h : StoredScript format files path field script) :
    field.map Prod.fst = [] ∨ field.map Prod.fst = ["version_script"] := by
  cases h with
  | none => exact .inl rfl
  | file => exact .inr rfl

theorem storeScript_ok {stored : Json.Object × PackageFiles}
    (h : storeScript format path given files = .ok stored) :
    (∃ script, NormalForm given script ∧ StoredScript format stored.2 path stored.1 script) ∧
      ∀ other, other ≠ path → stored.2.find other = files.find other := by
  unfold storeScript at h
  split_ifs at h with hempty
  · obtain rfl := Except.ok.inj h
    exact ⟨⟨"", by rw [NormalForm, if_pos hempty], .none⟩, fun _ _ => rfl⟩
  · obtain ⟨script, hscript, h⟩ := bind_ok.mp h
    obtain rfl := Except.ok.inj h
    refine ⟨⟨script, by rwa [NormalForm, if_neg hempty], .file ?_⟩, fun other hother => ?_⟩
    · exact PackageFiles.find_assign.trans (if_pos rfl)
    · exact PackageFiles.find_assign.trans (if_neg hother)

end Scripts

/-! ## Link records -/

/-- Link settings as they are given, with the normal form of the version script. -/
structure ReadsLink (given read : ArtifactLink) : Prop where
  libraries : read.libraries = given.libraries
  options : read.options = given.options
  versionScript : NormalForm given.versionScript read.versionScript

/-- The fields of link settings in a record. -/
structure LinkFields (record : Json.Object) (link : ArtifactLink) (field : Json.Object) : Prop where
  nodup : (record.map Prod.fst).Nodup
  libraries : record.getArray "libraries" = some (link.libraries.map Json.string)
  options : record.getArray "link_options" = some (link.options.map Json.string)
  script : record.get "version_script" = field.get "version_script"

section Links

variable {format : PackageFormat} {files : PackageFiles}

/-- The strings of an array that pass a check for ASCII are those that were written. -/
theorem readStrings_eq_of_valid {texts : List String} {elements : List Json} {valid : String → Bool}
    (hvalid : ∀ {text}, valid text = true → Ascii text)
    (hread : List.Forall₂ ReadAs (texts.map Json.string) elements)
    (h : ∀ element ∈ elements, element.asString?.any valid = true) :
    readStrings (some elements) = some texts := by
  obtain ⟨texts', htexts'⟩ := strings_of_all h
  have heach := readStrings_eq.mp htexts'
  rw [htexts', ReadAs.strings hread heach fun text htext => ?_]
  obtain ⟨element, helement, htext⟩ := exists_of_forall₂_right heach htext
  have := h element helement
  rw [htext] at this
  exact hvalid (by simpa using this)

/-- A link record is read as it was written. -/
theorem readRecord_eq {written record field : Json.Object} {given : ArtifactLink}
    {kind path script : String} {expected expected' : List String}
    (hfields : LinkFields written given field) (hread : ReadAs (.object written) (.object record))
    (hscript : StoredScript format files path field script)
    (h : validateLinkRecord format record kind path files expected = .ok expected') :
    readStrings (record.getArray "libraries") = some given.libraries ∧
      readStrings (record.getArray "link_options") = some given.options ∧
      readScript record files = some script := by
  unfold validateLinkRecord at h
  obtain ⟨libraries, hlibraries, h⟩ := bind_ok.mp h
  obtain ⟨_, hvalid, h⟩ := bind_ok.mp h
  obtain ⟨_, -, h⟩ := bind_ok.mp h
  obtain ⟨options, hoptions, h⟩ := bind_ok.mp h
  obtain ⟨_, hvalidOptions, h⟩ := bind_ok.mp h
  have hkey : Ascii "version_script" := by decide
  refine ⟨?_, ?_, ?_⟩
  · obtain ⟨elements, helements, heach⟩ :=
      hread.getArray hfields.nodup (by decide) (require_ok.mp hlibraries)
    obtain rfl := Option.some.inj (hfields.libraries.symm.trans helements)
    rw [require_ok.mp hlibraries]
    exact readStrings_eq_of_valid validLibrary_ascii heach (ensure_ok.mp hvalid)
  · obtain ⟨elements, helements, heach⟩ :=
      hread.getArray hfields.nodup (by decide) (require_ok.mp hoptions)
    obtain rfl := Option.some.inj (hfields.options.symm.trans helements)
    rw [require_ok.mp hoptions]
    exact readStrings_eq_of_valid validOption_ascii heach (ensure_ok.mp hvalidOptions)
  · unfold validateVersionScript at h
    cases hscript with
    | none =>
      have hnone : record.get "version_script" = none :=
        hread.get_eq_none hfields.nodup hkey hfields.script
      rw [readScript, Json.Object.getObject, hnone]
      rfl
    | file hfile =>
      split at h
      · rename_i hnone
        have hwritten := hread.get_none hkey hnone
        rw [hfields.script] at hwritten
        simp [Json.Object.get_cons] at hwritten
      · rename_i value hvalue
        obtain ⟨object, hobject, h⟩ := bind_ok.mp h
        obtain ⟨_, hensure, h⟩ := bind_ok.mp h
        obtain ⟨-, -, hpath⟩ := ensure_ok.mp hensure
        have hget : record.getObject "version_script" = some object := by
          rw [Json.Object.getObject, hvalue, Option.bind_some, require_ok.mp hobject]
        rw [readScript, hget]
        simpa [hpath] using hfile

/-- The record of the link settings of a target. -/
structure StoredLink (format : PackageFormat) (files : PackageFiles) (entry : String × ArtifactLink)
    (member : String × Json) : Prop where
  target : member.1 = entry.1
  record : ∃ field script, member.2 = .object ([("libraries",
      .array (entry.2.libraries.map Json.string)),
      ("link_options", .array (entry.2.options.map Json.string))] ++ field) ∧
    NormalForm entry.2.versionScript script ∧
    StoredScript format files (targetScriptPath entry.1) field script

theorem StoredLink.mono {files' : PackageFiles} {entry : String × ArtifactLink}
    {member : String × Json} (h : StoredLink format files entry member)
    (hkeep : files'.find (targetScriptPath entry.1) = files.find (targetScriptPath entry.1)) :
    StoredLink format files' entry member := by
  obtain ⟨field, script, hmember, hnormal, hscript⟩ := h.record
  exact ⟨h.target, field, script, hmember, hnormal, hscript.mono hkeep⟩

theorem targetScriptPath_injective : Function.Injective targetScriptPath := by
  intro a b h
  have hlist := congrArg String.toList h
  simp only [targetScriptPath, String.toList_append, List.append_cancel_left_eq,
    List.append_cancel_right_eq, List.append_assoc] at hlist
  exact String.toList_inj.mp hlist

theorem linkFields_of_stored {link : ArtifactLink} {field : Json.Object} {path script : String}
    (h : StoredScript format files path field script) :
    LinkFields ([("libraries", .array (link.libraries.map Json.string)),
      ("link_options", .array (link.options.map Json.string))] ++ field) link field := by
  refine ⟨?_, rfl, rfl, ?_⟩
  · rw [List.map_append]
    rcases h.keys with hkeys | hkeys <;> simp [hkeys]
  · simp [Json.Object.get_cons]

/-- The records of the targets, after the files that were stored before. -/
theorem foldlM_storeLink_ok {linkPlan : LinkPlan} : ∀ {start state : Json.Object × PackageFiles},
    (linkPlan.map Prod.fst).Nodup → linkPlan.foldlM (storeLink format) start = .ok state →
    (∃ new, state.1 = start.1 ++ new ∧
      List.Forall₂ (StoredLink format state.2) linkPlan new) ∧
      ∀ path, (∀ entry ∈ linkPlan, path ≠ targetScriptPath entry.1) →
        state.2.find path = start.2.find path := by
  induction linkPlan with
  | nil =>
    intro start state _ h
    obtain rfl : start = state := Except.ok.inj h
    exact ⟨⟨[], by simp, .nil⟩, fun _ _ => rfl⟩
  | cons entry linkPlan ih =>
    intro start state hnodup h
    obtain ⟨hentry, hnodup⟩ := List.nodup_cons.mp hnodup
    obtain ⟨middle, hstep, h⟩ := foldlM_cons_ok.mp h
    obtain ⟨⟨new, hnew, hstored⟩, hkeep⟩ := ih hnodup h
    obtain ⟨stored, hscript, hstep⟩ := bind_ok.mp hstep
    obtain rfl := Except.ok.inj hstep
    obtain ⟨⟨script, hnormal, hfirst⟩, hbefore⟩ := storeScript_ok hscript
    have hother : ∀ other ∈ linkPlan, targetScriptPath entry.1 ≠ targetScriptPath other.1 :=
      fun other hother heq => hentry (List.mem_map.mpr ⟨other, hother,
        (targetScriptPath_injective heq).symm⟩)
    refine ⟨⟨_, by rw [hnew, List.append_assoc]; rfl, .cons ⟨rfl, stored.1, script, rfl, hnormal,
      hfirst.mono (hkeep _ hother)⟩ hstored⟩, fun path hpath => ?_⟩
    obtain ⟨hne, hpath⟩ := List.forall_mem_cons.mp hpath
    rw [hkeep path hpath]
    exact hbefore path hne

end Links

/-! ## The default plan -/

/-- The unit of a module on its own. -/
def ArtifactModule.unit (entry : ArtifactModule × ℕ) : ArtifactUnit :=
  ⟨[entry.2], entry.1.optimization, entry.1.archiveMember⟩

/-- A unit for each module of a target, in order. -/
def moduleUnits (modules : List ArtifactModule) (target : String) : List ArtifactUnit :=
  (modules.zipIdx.filter fun entry => entry.1.active target).map ArtifactModule.unit

/-- The units of a target that are given, or those of the modules. -/
def plannedUnits (modules : List ArtifactModule) (compilationPlan : CompilationPlan)
    (target : String) : List ArtifactUnit :=
  if compilationPlan = [] then moduleUnits modules target else compilationPlan.units target

/-- The plan that is written : the given one, or that of the modules. -/
def writtenPlan (modules : List ArtifactModule) (targets : List String)
    (compilationPlan : CompilationPlan) : CompilationPlan :=
  if compilationPlan = [] then defaultPlan modules targets else compilationPlan

section DefaultPlan

variable {modules : List ArtifactModule} {targets : List String}

/-- Plan the modules of one target. -/
def pushModules (modules : List ArtifactModule) (plan : CompilationPlan) (target : String) :
    CompilationPlan :=
  modules.zipIdx.foldl (fun (plan : CompilationPlan) entry =>
    if entry.1.active target then
      plan.push target ⟨[entry.2], entry.1.optimization, entry.1.archiveMember⟩
    else plan) plan

theorem units_pushModules (plan : CompilationPlan) (target other : String) :
    (pushModules modules plan target).units other =
      if other = target then plan.units target ++ moduleUnits modules target
      else plan.units other := by
  have hfold : ∀ (entries : List (ArtifactModule × ℕ)) (plan : CompilationPlan),
      (entries.foldl (fun (plan : CompilationPlan) entry => if entry.1.active target then
        plan.push target ⟨[entry.2], entry.1.optimization, entry.1.archiveMember⟩ else plan)
        plan).units other =
        if other = target then plan.units target ++
          (entries.filter fun entry => entry.1.active target).map ArtifactModule.unit
        else plan.units other := by
    intro entries
    induction entries with
    | nil => intro plan; split_ifs with h <;> simp [h]
    | cons entry entries ih =>
      intro plan
      rw [List.foldl_cons, ih, List.filter_cons]
      split_ifs with hsame hactive hactive
      · simp [CompilationPlan.units_push, ArtifactModule.unit]
      · rfl
      · rw [CompilationPlan.units_push, if_neg hsame]
      · rfl
  exact hfold _ plan

theorem keys_pushModules {plan : CompilationPlan} {target : String}
    (h : (plan.map Prod.fst).Nodup) : ((pushModules modules plan target).map Prod.fst).Nodup := by
  refine List.foldlRecOn (motive := fun plan : CompilationPlan => (plan.map Prod.fst).Nodup) _ _ h
    fun plan h entry _ => ?_
  split_ifs
  · exact Association.nodup_keys_update h
  · exact h

/-- The default plan has the modules of each target, each once. -/
theorem units_defaultPlan (htargets : targets.Nodup) (target : String) :
    (defaultPlan modules targets).units target =
      if target ∈ targets then moduleUnits modules target else [] := by
  have hfold : ∀ (targets : List String) (plan : CompilationPlan), targets.Nodup →
      (targets.foldl (pushModules modules) plan).units target =
        plan.units target ++ if target ∈ targets then moduleUnits modules target else [] := by
    intro targets
    induction targets with
    | nil => intro plan _; simp
    | cons first targets ih =>
      intro plan hnodup
      obtain ⟨hfirst, hnodup⟩ := List.nodup_cons.mp hnodup
      rw [List.foldl_cons, ih _ hnodup, units_pushModules]
      by_cases hsame : target = first
      · subst hsame
        simp [hfirst]
      · simp [hsame]
  have hplaced : ∀ (targets : List String) (plan : CompilationPlan),
      (targets.foldl CompilationPlan.tryEmplace plan).units target = plan.units target := by
    intro targets
    induction targets with
    | nil => exact fun _ => rfl
    | cons first targets ih =>
      intro plan
      rw [List.foldl_cons, ih, CompilationPlan.units_tryEmplace]
  have hplan : (defaultPlan modules targets).units target =
      (targets.foldl (pushModules modules) []).units target := hplaced targets _
  rw [hplan, hfold targets [] htargets]
  rfl

theorem keys_defaultPlan : ((defaultPlan modules targets).map Prod.fst).Nodup :=
  List.foldlRecOn (motive := fun plan : CompilationPlan => (plan.map Prod.fst).Nodup) _ _
    (List.foldlRecOn (motive := fun plan : CompilationPlan => (plan.map Prod.fst).Nodup) _ _
      List.nodup_nil fun _ h _ _ => keys_pushModules h)
    fun _ h _ _ => Association.nodup_keys_update h

theorem units_writtenPlan {compilationPlan : CompilationPlan} (htargets : targets.Nodup)
    {target : String} (htarget : target ∈ targets) :
    (writtenPlan modules targets compilationPlan).units target =
      plannedUnits modules compilationPlan target := by
  unfold writtenPlan plannedUnits
  split_ifs
  · rw [units_defaultPlan htargets, if_pos htarget]
  · rfl

theorem keys_writtenPlan {compilationPlan : CompilationPlan}
    (h : (compilationPlan.map Prod.fst).Nodup) :
    ((writtenPlan modules targets compilationPlan).map Prod.fst).Nodup := by
  unfold writtenPlan
  split_ifs
  · exact keys_defaultPlan
  · exact h

end DefaultPlan

/-! ## Artifacts -/

/-- The link settings that are given for a target. -/
def givenLink (libraries linkOptions : List String) (versionScript : String) (linkPlan : LinkPlan)
    (target : String) : Option ArtifactLink :=
  if linkPlan = [] then some ⟨libraries, linkOptions, versionScript⟩ else linkPlan.lookup target

/-- What an artifact is read as. -/
structure ReadBack (files : PackageFiles) (manifest : Json.Object) (modules : List ArtifactModule)
    (libraries linkOptions targets : List String) (versionScript : String)
    (compilationPlan : CompilationPlan) (linkPlan : LinkPlan) : Prop where
  declared : readStrings (manifest.getArray "targets") = some targets
  /-- The units of each target are the given ones, or those of its modules. -/
  plan : readCompilationPlan manifest = .ok (targets.map fun target =>
    (target, plannedUnits modules compilationPlan target))
  planned : compilationPlan ≠ [] → ∀ target,
    target ∈ compilationPlan.map Prod.fst ↔ target ∈ targets
  /-- The link settings of each target are the given ones. -/
  links : ∃ links, readLinkPlan manifest files = some links ∧ links.map Prod.fst = targets ∧
    ∀ entry ∈ links, ∃ given,
      givenLink libraries linkOptions versionScript linkPlan entry.1 = some given ∧
        ReadsLink given entry.2
  linked : linkPlan ≠ [] → ∀ target, target ∈ linkPlan.map Prod.fst ↔ target ∈ targets
  /-- The modules are the given ones, in order. -/
  records : ∃ records, manifest.getArray "modules" = some records ∧
    records.mapM (readModuleRecord files) =
      some (modules.map fun module => (module.bytecode, module.domain targets))
  bytes : ∀ index module, modules[index]? = some module →
    files.find (modulePath index) = some module.bytecode

/-- The field of the link records of the targets. -/
inductive StoredLinks (format : PackageFormat) (files : PackageFiles) (linkPlan : LinkPlan) :
    Json.Object → Prop
  | none (hempty : linkPlan = []) : StoredLinks format files linkPlan []
  | records {links : Json.Object} (hne : linkPlan ≠ [])
      (hstored : List.Forall₂ (StoredLink format files) linkPlan links) :
      StoredLinks format files linkPlan [("target_links", .object links)]

/-- What is written of an artifact. -/
structure Written (format : PackageFormat) (kind : String) (modules : List ArtifactModule)
    (libraries linkOptions targets : List String) (versionScript : String)
    (plan : CompilationPlan) (linkPlan : LinkPlan) (files : PackageFiles) (manifest : Json.Object) :
    Prop where
  fields : ∃ script links, manifest =
    artifactManifest format kind modules libraries linkOptions targets plan ++ script ++ links ∧
    (∃ text, NormalForm versionScript text ∧
      StoredScript format files "link/version.script" script text) ∧
    StoredLinks format files linkPlan links
  bytes : ∀ index, files.find (modulePath index) = modules[index]?.map ArtifactModule.bytecode

section Artifacts

variable {format : PackageFormat} {kind versionScript : String} {modules : List ArtifactModule}
  {libraries linkOptions targets : List String} {compilationPlan : CompilationPlan}
  {linkPlan : LinkPlan} {files : PackageFiles}

theorem commonScriptPath_ne {target : String} :
    "link/version.script" ≠ targetScriptPath target := by
  intro h
  have hlength := congrArg (fun path => path.toList.length) h
  simp only [targetScriptPath_toList, List.length_append] at hlength
  have hcommon : "link/version.script".toList.length = 19 := rfl
  have hdirectory : "link/".toList.length = 5 := rfl
  have hsuffix : ".version.script".toList.length = 15 := rfl
  omega

theorem storeLinks_ok {stored : Json.Object × PackageFiles} (hlinks : (linkPlan.map Prod.fst).Nodup)
    (h : storeLinks format linkPlan files = .ok stored) :
    StoredLinks format stored.2 linkPlan stored.1 ∧
      ∀ path, (∀ entry ∈ linkPlan, path ≠ targetScriptPath entry.1) →
        stored.2.find path = files.find path := by
  unfold storeLinks at h
  split_ifs at h with hempty
  · obtain rfl := Except.ok.inj h
    exact ⟨.none hempty, fun _ _ => rfl⟩
  · obtain ⟨state, hrun, h⟩ := bind_ok.mp h
    obtain rfl := Except.ok.inj h
    obtain ⟨⟨new, hnew, hstored⟩, hkeep⟩ := foldlM_storeLink_ok hlinks hrun
    rw [List.nil_append] at hnew
    exact ⟨.records hempty (hnew ▸ hstored), hkeep⟩

theorem artifactContents_ok {contents : Json.Object × PackageFiles}
    (hlinks : (linkPlan.map Prod.fst).Nodup)
    (h : artifactContents format kind modules libraries linkOptions targets versionScript
      compilationPlan linkPlan = .ok contents) :
    Written format kind modules libraries linkOptions targets versionScript
      (writtenPlan modules targets compilationPlan) linkPlan contents.2 contents.1 := by
  obtain ⟨script, hscript, h⟩ := bind_ok.mp h
  obtain ⟨-, -, h⟩ := bind_ok.mp h
  obtain ⟨links, hstored, h⟩ := bind_ok.mp h
  obtain rfl := Except.ok.inj h
  obtain ⟨⟨text, hnormal, hfield⟩, hkeep⟩ := storeScript_ok hscript
  obtain ⟨hrecords, hkeep'⟩ := storeLinks_ok hlinks hstored
  refine ⟨⟨script.1, links.1, rfl, ⟨text, hnormal, hfield.mono ?_⟩, hrecords⟩, fun index => ?_⟩
  · exact hkeep' _ fun entry _ => commonScriptPath_ne
  · have hpath : ∀ path, IsScriptPath path → modulePath index ≠ path :=
      fun path hpath heq => modulePath_ne_script hpath heq.symm
    have hfirst := hkeep' (modulePath index) fun entry _ => hpath _ (.inr ⟨entry.1, rfl⟩)
    exact hfirst.trans ((hkeep _ (hpath _ (.inl rfl))).trans find_moduleFiles)

/-- The manifest is read from the text it is written as. -/
theorem validatePackage_readAs (hformat : format.ReadsText) {stored : PackageFiles}
    {written manifest : Json.Object}
    (h : validatePackage format (stored.assign "manifest.json" (format.jsonText (.object written))) =
      .ok manifest) : ReadAs (.object written) (.object manifest) := by
  unfold validatePackage at h
  obtain ⟨object, hmanifest, h⟩ := bind_ok.mp h
  obtain ⟨_, -, h⟩ := bind_ok.mp h
  obtain ⟨_, -, h⟩ := bind_ok.mp h
  obtain ⟨_, -, h⟩ := bind_ok.mp h
  obtain ⟨_, -, h⟩ := bind_ok.mp h
  obtain ⟨_, -, h⟩ := bind_ok.mp h
  obtain ⟨_, -, h⟩ := bind_ok.mp h
  obtain ⟨_, -, h⟩ := bind_ok.mp h
  obtain ⟨_, -, h⟩ := bind_ok.mp h
  obtain ⟨_, -, h⟩ := bind_ok.mp h
  obtain ⟨_, -, h⟩ := bind_ok.mp h
  obtain ⟨_, -, h⟩ := bind_ok.mp h
  obtain ⟨_, -, h⟩ := bind_ok.mp h
  obtain rfl : object = manifest := Except.ok.inj h
  unfold readManifest at hmanifest
  obtain ⟨text, htext, hmanifest⟩ := bind_ok.mp hmanifest
  obtain ⟨_, -, hmanifest⟩ := bind_ok.mp hmanifest
  obtain ⟨parsed, hparsed, hmanifest⟩ := bind_ok.mp hmanifest
  obtain ⟨_, -, hmanifest⟩ := bind_ok.mp hmanifest
  obtain ⟨object', hobject, hmanifest⟩ := bind_ok.mp hmanifest
  obtain ⟨_, -, hmanifest⟩ := bind_ok.mp hmanifest
  obtain ⟨_, -, hmanifest⟩ := bind_ok.mp hmanifest
  obtain rfl := Except.ok.inj hmanifest
  have hfind := require_ok.mp htext
  rw [PackageFiles.find_assign, if_pos rfl] at hfind
  obtain rfl := Option.some.inj hfind
  rw [← Json.asObject?_eq_some.mp (require_ok.mp hobject)]
  exact hformat _ _ hparsed

namespace Written

variable {plan : CompilationPlan} {written manifest : Json.Object}

/-- What the readers look for in a manifest that is written. -/
structure Fields (format : PackageFormat) (modules : List ArtifactModule)
    (libraries linkOptions targets : List String) (versionScript : String)
    (plan : CompilationPlan) (script links written : Json.Object) : Prop where
  link : LinkFields written ⟨libraries, linkOptions, versionScript⟩ script
  declared : written.getArray "targets" = some (targets.map Json.string)
  records : written.getArray "modules" = some (modules.zipIdx.map (moduleRecord format targets))
  plan : written.getObject "compilation_units" = some (plan.map fun entry =>
    (entry.1, .array (entry.2.map unitRecord)))
  links : written.get "target_links" = links.get "target_links"

theorem fields_of {script links : Json.Object} {path text : String}
    (hscript : StoredScript format files path script text)
    (hlinks : StoredLinks format files linkPlan links) :
    Fields format modules libraries linkOptions targets versionScript plan script links
      (artifactManifest format kind modules libraries linkOptions targets plan ++ script ++
        links) := by
  cases hscript with
  | none => cases hlinks with
    | none => exact ⟨⟨by simp [artifactManifest], rfl, rfl, rfl⟩, rfl, rfl, rfl, rfl⟩
    | records => exact ⟨⟨by simp [artifactManifest], rfl, rfl, rfl⟩, rfl, rfl, rfl, rfl⟩
  | file => cases hlinks with
    | none => exact ⟨⟨by simp [artifactManifest], rfl, rfl, rfl⟩, rfl, rfl, rfl, rfl⟩
    | records => exact ⟨⟨by simp [artifactManifest], rfl, rfl, rfl⟩, rfl, rfl, rfl, rfl⟩

end Written

/-! ## What the checks establish -/

/-- The checks of a package whose manifest was written, by the fields they read. -/
structure Checks (format : PackageFormat) (files : PackageFiles) (targets : List String)
    (manifest : Json.Object) : Prop where
  declared : ∃ targetList, manifest.getArray "targets" = some targetList ∧
    List.Forall₂ (fun entry target => entry.asString? = some target) targetList targets
  nodup : targets.Nodup
  registered : ∀ target ∈ targets, Ascii target
  modules : ∃ records expected expected', manifest.getArray "modules" = some records ∧
    records.zipIdx.foldlM (validateModule format targets files) expected = .ok expected'
  link : ∃ kind expected expected', validateLinkRecord format manifest kind "link/version.script"
    files expected = .ok expected'
  links : ∃ kind expected expected', validateTargetLinks format manifest kind targets files expected =
    .ok expected'
  plan : ∃ plan, readCompilationPlan manifest = .ok plan

theorem validatePackage_checks {written manifest : Json.Object}
    (hread : ReadAs (.object written) (.object manifest)) (hnodup : (written.map Prod.fst).Nodup)
    (hdeclared : written.getArray "targets" = some (targets.map Json.string))
    (h : validatePackage format files = .ok manifest) : Checks format files targets manifest := by
  unfold validatePackage at h
  obtain ⟨object, -, h⟩ := bind_ok.mp h
  obtain ⟨kind, -, h⟩ := bind_ok.mp h
  obtain ⟨_, -, h⟩ := bind_ok.mp h
  obtain ⟨_, -, h⟩ := bind_ok.mp h
  obtain ⟨targetList, htargetList, h⟩ := bind_ok.mp h
  obtain ⟨targets', htargets, h⟩ := bind_ok.mp h
  obtain ⟨modules, hmodules, h⟩ := bind_ok.mp h
  obtain ⟨_, -, h⟩ := bind_ok.mp h
  obtain ⟨expected₁, hlink, h⟩ := bind_ok.mp h
  obtain ⟨expected₂, hlinks, h⟩ := bind_ok.mp h
  obtain ⟨expected, hexpected, h⟩ := bind_ok.mp h
  obtain ⟨plan, hplan, h⟩ := bind_ok.mp h
  obtain ⟨_, -, h⟩ := bind_ok.mp h
  obtain rfl : object = manifest := Except.ok.inj h
  have htargetList := require_ok.mp htargetList
  unfold readTargets at htargets
  obtain ⟨_, -, htargets⟩ := bind_ok.mp htargets
  obtain ⟨hnames, hregistered, hnodup'⟩ := readDomain_ok htargets
  have hascii : ∀ target ∈ targets', Ascii target := fun target htarget =>
    target_ascii (by simpa using hregistered target htarget)
  obtain ⟨elements, helements, heach⟩ := hread.getArray hnodup (by decide) htargetList
  obtain rfl := Option.some.inj (hdeclared.symm.trans helements)
  obtain rfl : targets' = targets := ReadAs.strings heach (readStrings_eq.mp hnames) hascii
  exact ⟨⟨targetList, htargetList, readStrings_eq.mp hnames⟩, hnodup', hascii,
    ⟨modules, expected₂, expected, require_ok.mp hmodules, hexpected⟩, ⟨kind, _, expected₁, hlink⟩,
    ⟨kind, expected₁, expected₂, hlinks⟩, ⟨plan, hplan⟩⟩

/-- The plans of the targets are read as they were written. -/
theorem readPlans_eq {plan planned : CompilationPlan} {plans : Json.Object}
    {domains : List (List String)} {declared : List Json} {targets : List String}
    (hkeys : (plan.map Prod.fst).Nodup)
    (hread : ReadAs (.object (plan.map fun entry => (entry.1, .array (entry.2.map unitRecord))))
      (.object plans))
    (htargets : List.Forall₂ (fun entry target => entry.asString? = some target) declared targets)
    (hascii : ∀ target ∈ targets, Ascii target)
    (h : declared.mapM (readTargetPlan kind plans domains) = .ok planned) :
    planned = targets.map (fun target => (target, plan.units target)) ∧
      ∀ target ∈ targets, target ∈ plan.map Prod.fst := by
  induction htargets generalizing planned with
  | nil =>
    obtain rfl := Except.ok.inj h
    simp
  | @cons entry target declared targets htarget _ ih =>
    obtain ⟨hfirst, hrestAscii⟩ := List.forall_mem_cons.mp hascii
    rw [Checked.mapM_cons] at h
    obtain ⟨first, hplan, h⟩ := bind_ok.mp h
    obtain ⟨rest, hrest, h⟩ := bind_ok.mp h
    obtain rfl := Except.ok.inj h
    obtain ⟨rfl, hlookup⟩ := readTargetPlan_eq hkeys hread htarget hfirst hplan
    obtain ⟨rfl, hmem⟩ := ih hrestAscii hrest
    refine ⟨?_, List.forall_mem_cons.mpr ⟨?_, hmem⟩⟩
    · rw [List.map_cons, CompilationPlan.units, hlookup]
      rfl
    · exact Association.lookup_isSome_iff_mem.mp (by rw [hlookup]; rfl)

theorem keys_plan_map (plan : CompilationPlan) :
    (plan.map fun entry => (entry.1, Json.array (entry.2.map unitRecord))).map Prod.fst =
      plan.map Prod.fst := by
  simp

/-- The plan of an artifact is read as it was written. -/
theorem readCompilationPlan_eq {plan planned : CompilationPlan} {written manifest : Json.Object}
    (hread : ReadAs (.object written) (.object manifest)) (hnodup : (written.map Prod.fst).Nodup)
    (hwritten : written.getObject "compilation_units" = some (plan.map fun entry =>
      (entry.1, .array (entry.2.map unitRecord)))) (hkeys : (plan.map Prod.fst).Nodup)
    (hchecks : Checks format files targets manifest)
    (h : readCompilationPlan manifest = .ok planned) :
    planned = targets.map (fun target => (target, plan.units target)) ∧
      ∀ target, target ∈ plan.map Prod.fst ↔ target ∈ targets := by
  obtain ⟨targetList, htargetList, hstrings⟩ := hchecks.declared
  unfold readCompilationPlan at h
  split at h
  · rename_i plans targetList' modules kind hplans htargetList' _ _
    obtain ⟨_, hlength, h⟩ := bind_ok.mp h
    obtain ⟨domains, -, h⟩ := bind_ok.mp h
    obtain rfl : targetList = targetList' := Option.some.inj (htargetList.symm.trans htargetList')
    obtain ⟨inner, hinner, hobject⟩ := hread.getObject hnodup (by decide) hplans
    obtain rfl := Option.some.inj (hwritten.symm.trans hinner)
    obtain ⟨hplanned, hmem⟩ := readPlans_eq hkeys hobject hstrings hchecks.registered h
    refine ⟨hplanned, fun target => ⟨fun htarget => ?_, hmem target⟩⟩
    have hread : ∀ name ∈ targets, name ∈ plans.map Prod.fst := by
      intro name hname
      obtain ⟨entry, hentry, hname⟩ := exists_of_forall₂_right hstrings hname
      obtain ⟨result, -, hresult⟩ := exists_of_forall₂_left (mapM_ok.mp h) hentry
      unfold readTargetPlan at hresult
      obtain ⟨name', hname', hresult⟩ := bind_ok.mp hresult
      obtain ⟨entries, hentries, -⟩ := bind_ok.mp hresult
      obtain rfl : name' = name := Option.some.inj ((require_ok.mp hname').symm.trans hname)
      obtain ⟨value, hvalue, -⟩ := Option.bind_eq_some_iff.mp (require_ok.mp hentries)
      exact List.mem_map.mpr ⟨_, Json.Object.mem_of_get hvalue, rfl⟩
    refine hobject.keys_mem hchecks.nodup ?_ hchecks.registered hread target ?_
    · rw [ensure_ok.mp hlength, hstrings.length_eq]
    · rwa [keys_plan_map]
  · simp at h

/-! ## The link settings -/

/-- A step of a fold that succeeds. -/
theorem exists_step_of_foldlM {α σ : Type} {f : σ → α → Checked σ} : ∀ {xs : List α} {s s' : σ},
    xs.foldlM f s = .ok s' → ∀ x ∈ xs, ∃ t t', f t x = .ok t'
  | [], _, _, _ => by simp
  | x :: xs, s, s', h => by
    obtain ⟨middle, hstep, h⟩ := foldlM_cons_ok.mp h
    exact List.forall_mem_cons.mpr ⟨⟨s, middle, hstep⟩, exists_step_of_foldlM h⟩

/-- The link settings of a target that has a record of its own. -/
theorem readTargetLink_eq {links written : Json.Object} {manifest : Json.Object}
    (hread : ReadAs (.object written) (.object manifest)) (hnodup : (written.map Prod.fst).Nodup)
    (hwritten : written.get "target_links" = some (.object links))
    (hlinks : (linkPlan.map Prod.fst).Nodup)
    (hstored : List.Forall₂ (StoredLink format files) linkPlan links)
    (hchecks : Checks format files targets manifest) :
    (∀ target ∈ targets, ∃ link given, readLink manifest files target = some link ∧
      linkPlan.lookup target = some given ∧ ReadsLink given link) ∧
      ∀ target, target ∈ linkPlan.map Prod.fst ↔ target ∈ targets := by
  obtain ⟨kind, expected, expected', h⟩ := hchecks.links
  unfold validateTargetLinks at h
  split at h
  · rename_i hnone
    simp [hread.get_none (by decide) hnone] at hwritten
  rename_i raw hraw
  obtain ⟨records, hrecords, h⟩ := bind_ok.mp h
  obtain ⟨_, hensure, h⟩ := bind_ok.mp h
  have hrecords : manifest.getObject "target_links" = some records := by
    rw [Json.Object.getObject, hraw, Option.bind_some, require_ok.mp hrecords]
  obtain ⟨inner, hinner, hobject⟩ := hread.getObject hnodup (by decide) hrecords
  obtain rfl : links = inner := by
    rw [Json.Object.getObject, hwritten] at hinner
    exact Option.some.inj hinner
  have hkeys : links.map Prod.fst = linkPlan.map Prod.fst :=
    map_eq_of_forall₂ (hstored.imp fun _ _ h => h.target)
  have htargets : ∀ target ∈ targets, target ∈ records.map Prod.fst ∧ ∃ link given,
      readLink manifest files target = some link ∧ linkPlan.lookup target = some given ∧
        ReadsLink given link := by
    intro target htarget
    obtain ⟨_, _, hstep⟩ := exists_step_of_foldlM h target (List.mem_mergeSort.mpr htarget)
    unfold validateTargetLink at hstep
    obtain ⟨record, hrecord, hstep⟩ := bind_ok.mp hstep
    obtain ⟨_, -, hstep⟩ := bind_ok.mp hstep
    have hrecord := require_ok.mp hrecord
    obtain ⟨fields, hfields, hreadRecord⟩ := hobject.getObject (hkeys ▸ hlinks)
      (hchecks.registered target htarget) hrecord
    obtain ⟨value, hvalue, hfields⟩ := Option.bind_eq_some_iff.mp hfields
    obtain rfl := Json.asObject?_eq_some.mp hfields
    obtain ⟨entry, hentry, hlink⟩ :=
      exists_of_forall₂_right hstored (Json.Object.mem_of_get hvalue)
    obtain ⟨field, script, hmember, hnormal, hscript⟩ := hlink.record
    obtain rfl : target = entry.1 := hlink.target
    obtain rfl := Json.object.inj hmember
    obtain ⟨hlibraries, hoptions, hversion⟩ :=
      readRecord_eq (linkFields_of_stored hscript) hreadRecord hscript hstep
    obtain ⟨value', hvalue', -⟩ := Option.bind_eq_some_iff.mp hrecord
    refine ⟨List.mem_map.mpr ⟨_, Json.Object.mem_of_get hvalue', rfl⟩,
      ⟨entry.2.libraries, entry.2.options, script⟩, entry.2, ?_,
      (Association.lookup_eq_some_iff_mem hlinks).mpr hentry, ⟨rfl, rfl, hnormal⟩⟩
    simp [readLink, linkRecord, hrecords, hrecord, hlibraries, hoptions, hversion]
  refine ⟨fun target htarget => (htargets target htarget).2, fun target => ⟨fun hmem => ?_,
    fun htarget => ?_⟩⟩
  · exact hobject.keys_mem hchecks.nodup (ensure_ok.mp hensure).1 hchecks.registered
      (fun name hname => (htargets name hname).1) target (hkeys ▸ hmem)
  · obtain ⟨_, link, given, -, hgiven, -⟩ := htargets target htarget
    exact Association.lookup_isSome_iff_mem.mp (by rw [hgiven]; rfl)

/-- The settings of all targets are read where those of each are. -/
theorem readLinkPlan_of {manifest : Json.Object} {P : String → ArtifactLink → Prop}
    (hdeclared : readStrings (manifest.getArray "targets") = some targets)
    (h : ∀ target ∈ targets, ∃ link, readLink manifest files target = some link ∧ P target link) :
    ∃ links, readLinkPlan manifest files = some links ∧ links.map Prod.fst = targets ∧
      ∀ entry ∈ links, P entry.1 entry.2 := by
  obtain ⟨links, hlinks⟩ : ∃ links, targets.mapM (fun target => do
      let link ← readLink manifest files target
      pure (target, link)) = some links := exists_mapM_some fun target htarget => by
    obtain ⟨link, hlink, -⟩ := h target htarget
    exact ⟨(target, link), by simp [hlink]⟩
  have heach : List.Forall₂ (fun target (entry : String × ArtifactLink) =>
      entry.1 = target ∧ readLink manifest files target = some entry.2) targets links :=
    (mapM_some.mp hlinks).imp fun target entry hentry => by
      obtain ⟨link, hlink, hpair⟩ := Option.bind_eq_some_iff.mp hentry
      obtain rfl := Option.some.inj hpair
      exact ⟨rfl, hlink⟩
  refine ⟨links, by rw [readLinkPlan, hdeclared]; exact hlinks, ?_, fun entry hentry => ?_⟩
  · simpa using map_eq_of_forall₂ (f := id) (heach.imp fun _ _ h => h.1)
  · obtain ⟨target, htarget, rfl, hlink⟩ := exists_of_forall₂_right heach hentry
    obtain ⟨link, hlink', hP⟩ := h _ htarget
    obtain rfl : link = entry.2 := Option.some.inj (hlink'.symm.trans hlink)
    exact hP

theorem modulePath_ne_manifest (index : ℕ) : modulePath index ≠ "manifest.json" := by
  intro h
  have hlist := congrArg String.toList h
  rw [modulePath_toList] at hlist
  exact absurd (congrArg (fun text => text[1]?) hlist) (by simp)

/-- The readers give back what is written. -/
theorem readBack_of_written {written manifest script links : Json.Object} {text versionText : String}
    {stored : PackageFiles} (hplan : (compilationPlan.map Prod.fst).Nodup)
    (hlinkPlan : (linkPlan.map Prod.fst).Nodup)
    (hread : ReadAs (.object written) (.object manifest))
    (hfields : Written.Fields format modules libraries linkOptions targets versionScript
      (writtenPlan modules targets compilationPlan) script links written)
    (hnormal : NormalForm versionScript versionText)
    (hscript : StoredScript format stored "link/version.script" script versionText)
    (hlinks : StoredLinks format stored linkPlan links)
    (hbytes : ∀ index, stored.find (modulePath index) = modules[index]?.map ArtifactModule.bytecode)
    (hvalid : validatePackage format (stored.assign "manifest.json" text) = .ok manifest) :
    ReadBack (stored.assign "manifest.json" text) manifest modules libraries linkOptions targets
      versionScript compilationPlan linkPlan := by
  -- the file of the manifest is none of the others
  have hkeep : ∀ path, path ≠ "manifest.json" →
      (stored.assign "manifest.json" text).find path = stored.find path :=
    fun path hpath => PackageFiles.find_assign.trans (if_neg hpath)
  have hkeepScript : ∀ path, IsScriptPath path →
      (stored.assign "manifest.json" text).find path = stored.find path :=
    fun path hpath => hkeep path (manifest_ne_script hpath)
  have hbytes' : ∀ index module, modules[index]? = some module →
      (stored.assign "manifest.json" text).find (modulePath index) = some module.bytecode := by
    intro index module hmodule
    rw [hkeep _ (modulePath_ne_manifest index), hbytes, hmodule]
    rfl
  have hnodup := hfields.link.nodup
  have hchecks := validatePackage_checks hread hnodup hfields.declared hvalid
  obtain ⟨planned, hplanned⟩ := hchecks.plan
  obtain ⟨rfl, hkeys⟩ := readCompilationPlan_eq hread hnodup hfields.plan
    (keys_writtenPlan hplan) hchecks hplanned
  obtain ⟨targetList, htargetList, hstrings⟩ := hchecks.declared
  obtain ⟨records, _, _, hrecords, hmodules⟩ := hchecks.modules
  obtain ⟨elements, helements, heach⟩ := hread.getArray hnodup (by decide) hrecords
  obtain rfl := Option.some.inj (hfields.records.symm.trans helements)
  have hdeclared : readStrings (manifest.getArray "targets") = some targets := by
    rw [htargetList]
    exact readStrings_eq.mpr hstrings
  obtain ⟨hsettings, hlinked⟩ : (∀ target ∈ targets, ∃ link,
      readLink manifest (stored.assign "manifest.json" text) target = some link ∧ ∃ given,
        givenLink libraries linkOptions versionScript linkPlan target = some given ∧
          ReadsLink given link) ∧
      (linkPlan ≠ [] → ∀ target, target ∈ linkPlan.map Prod.fst ↔ target ∈ targets) := by
    cases hlinks with
    | none hempty =>
      refine ⟨fun target _ => ?_, fun hne => absurd hempty hne⟩
      obtain ⟨_, _, _, hlink⟩ := hchecks.link
      obtain ⟨hlibraries, hoptions, hversion⟩ := readRecord_eq hfields.link hread
        (hscript.mono (hkeepScript _ (.inl rfl))) hlink
      have hnone : manifest.getObject "target_links" = none := by
        rw [Json.Object.getObject, hread.get_eq_none hnodup (by decide) hfields.links]
        rfl
      exact ⟨⟨libraries, linkOptions, versionText⟩,
        by simp [readLink, linkRecord, hnone, hlibraries, hoptions, hversion],
        ⟨libraries, linkOptions, versionScript⟩, if_pos hempty, ⟨rfl, rfl, hnormal⟩⟩
    | records hne hstored =>
      obtain ⟨hsettings, hlinked⟩ := readTargetLink_eq hread hnodup hfields.links hlinkPlan
        (hstored.imp fun entry _ h => h.mono (hkeepScript _ (.inr ⟨entry.1, rfl⟩))) hchecks
      refine ⟨fun target htarget => ?_, fun _ => hlinked⟩
      obtain ⟨link, given, hlink, hgiven, hreads⟩ := hsettings target htarget
      exact ⟨link, hlink, given, (if_neg hne).trans hgiven, hreads⟩
  refine ⟨hdeclared, ?_, fun hne target => ?_, readLinkPlan_of hdeclared hsettings, hlinked,
    ⟨records, hrecords, ?_⟩, hbytes'⟩
  · rw [hplanned]
    exact congrArg Except.ok (List.map_congr_left fun target htarget => by
      rw [units_writtenPlan hchecks.nodup htarget])
  · rw [← hkeys, writtenPlan, if_neg hne]
  · exact readModuleRecords_eq hchecks.registered (fun index module hmodule => by
      rw [Nat.zero_add]
      exact hbytes' index module hmodule) heach hmodules

end Artifacts

/-- An artifact is read as what it was created from. -/
theorem createArtifact_readBack (format : PackageFormat) (hformat : format.ReadsText)
    (kind : String) (modules : List ArtifactModule) (libraries linkOptions targets : List String)
    (versionScript : String) (compilationPlan : CompilationPlan) (linkPlan : LinkPlan)
    (hplan : (compilationPlan.map Prod.fst).Nodup) (hlinkPlan : (linkPlan.map Prod.fst).Nodup)
    (files : PackageFiles)
    (h : createArtifact format kind modules libraries linkOptions targets versionScript
      compilationPlan linkPlan = .ok files) :
    ∃ manifest, validatePackage format files = .ok manifest ∧
      ReadBack files manifest modules libraries linkOptions targets versionScript compilationPlan
        linkPlan := by
  obtain ⟨⟨written, stored⟩, hcontents, h⟩ := bind_ok.mp h
  obtain ⟨manifest, hvalid, h⟩ := bind_ok.mp h
  obtain rfl := Except.ok.inj h
  have hread := validatePackage_readAs hformat hvalid
  obtain ⟨⟨script, links, hmanifest, ⟨text, hnormal, hscript⟩, hlinks⟩, hbytes⟩ :=
    artifactContents_ok hlinkPlan hcontents
  dsimp only at hmanifest hscript hlinks hbytes
  have hfields := @Written.fields_of format kind versionScript modules libraries linkOptions targets
    linkPlan stored (writtenPlan modules targets compilationPlan) script links _ _ hscript hlinks
  rw [← hmanifest] at hfields
  exact ⟨manifest, hvalid, readBack_of_written hplan hlinkPlan hread hfields hnormal hscript hlinks
    hbytes hvalid⟩

/-! ## The artifact of a library -/

/-- A version script with a comment, and its normal form. -/
def libraryScript : String := "\x7b /* all */ local: *; \x7d;"

def normalScript : String := "\x7b   local: *; \x7d;"

/-- A module for every target and one for the first. -/
def libraryModules : List ArtifactModule :=
  [⟨"sela", "O2", "", []⟩, ⟨"sela", "O2", "", ["x86_64"]⟩]

/-- The first target has one unit of both modules. -/
def libraryPlan : CompilationPlan :=
  [("x86_64", [⟨[0, 1], "O3", ""⟩]), ("i686", [⟨[0], "O2", ""⟩])]

/-- Only the first target has a version script. -/
def libraryLinks : LinkPlan :=
  [("x86_64", ⟨[":libone.so"], ["-soname=libword.so"], libraryScript⟩),
    ("i686", ⟨["m"], ["-soname=libword.so"], ""⟩)]

/-- The members of the manifest as they are written, but for the links of the targets. -/
def libraryFields : Json.Object :=
  [("format_version", .integer 2), ("contract", .string "sela-prealpha-2"),
    ("kind", .string "shared"), ("targets", .array [.string "x86_64", .string "i686"]),
    ("runtime", .string "glibc-2.39-0ubuntu8.8"), ("libraries", .array []),
    ("link_options", .array []),
    ("modules", .array [.object [("path", .string "modules/0.selabc"),
        ("sha256", .string "523f3a83db8bd636be55536029b95b6c316b2106a69b896be20dea51000a0b9a"),
        ("targets", .array [.string "x86_64", .string "i686"])],
      .object [("path", .string "modules/1.selabc"),
        ("sha256", .string "523f3a83db8bd636be55536029b95b6c316b2106a69b896be20dea51000a0b9a"),
        ("targets", .array [.string "x86_64"])]]),
    ("compilation_units", .object [("x86_64", .array [.object
        [("modules", .array [.integer 0, .integer 1]), ("optimization", .string "O3")]]),
      ("i686", .array [.object [("modules", .array [.integer 0]), ("optimization", .string "O2")]])])]

def libraryLinkRecords : Json.Object :=
  [("x86_64", .object [("libraries", .array [.string ":libone.so"]),
      ("link_options", .array [.string "-soname=libword.so"]),
      ("version_script", .object [("path", .string "link/x86_64.version.script"),
        ("sha256", .string "88f06e03449265341d8d2cea46b303330997f932ba52820e094149eb29fcaf2d")])]),
    ("i686", .object [("libraries", .array [.string "m"]),
      ("link_options", .array [.string "-soname=libword.so"])])]

/-- The manifest of the library as it is written, and as it is read. -/
def writtenLibrary : Json.Object := libraryFields ++ [("target_links", .object libraryLinkRecords)]

def libraryManifest : Json.Object := writtenLibrary.reverse

/-- The format on the files of this artifact. -/
def libraryWriter (text : String) : PackageFormat where
  parse text' := if text' = text then .ok (.object libraryManifest) else .error "invalid JSON"
  parse_distinct h := by
    split at h
    · obtain rfl := Except.ok.inj h
      simp [libraryManifest, writtenLibrary, libraryFields, libraryLinkRecords, Json.Distinct,
        Json.DistinctMembers, Json.DistinctElements]
    · simp at h
  jsonText json :=
    if json = .object writtenLibrary ∨ json = .object libraryManifest then text else text ++ " "
  digest contents :=
    if contents = "sela" then "523f3a83db8bd636be55536029b95b6c316b2106a69b896be20dea51000a0b9a"
    else if contents = normalScript then
      "88f06e03449265341d8d2cea46b303330997f932ba52820e094149eb29fcaf2d"
    else ""

/-- The files of this artifact. -/
def libraryFiles (text : String) : PackageFiles where
  entries := [("modules/0.selabc", "sela"), ("modules/1.selabc", "sela"),
    ("link/x86_64.version.script", normalScript), ("manifest.json", text)]
  nodup := by simp

theorem jsonText_library (text : String) {json : Json}
    (h : json = .object writtenLibrary ∨ json = .object libraryManifest) :
    (libraryWriter text).jsonText json = text := by
  change (if _ then text else text ++ " ") = text
  exact if_pos h

theorem libraryWriter_readsText (text : String) : (libraryWriter text).ReadsText := by
  intro written read h
  have hparse : ∀ text', (libraryWriter text).parse text' =
      if text' = text then .ok (.object libraryManifest) else .error "invalid JSON" := fun _ => rfl
  rw [hparse] at h
  by_cases hwritten : written = .object writtenLibrary ∨ written = .object libraryManifest
  · rw [if_pos (jsonText_library text hwritten)] at h
    obtain rfl := Except.ok.inj h
    rcases hwritten with rfl | rfl
    · exact .reordered (by simp [libraryManifest]) (by simp [libraryManifest])
    · exact .refl _
  · have hother : (libraryWriter text).jsonText written ≠ text := by
      change (if _ then text else text ++ " ") ≠ text
      rw [if_neg hwritten]
      intro heq
      simpa using congrArg (fun text => text.toList.length) heq
    rw [if_neg hother] at h
    simp at h

theorem normalizeVersionScript_library :
    normalizeVersionScript libraryScript = .ok normalScript ∧
      normalizeVersionScript normalScript = .ok normalScript := by
  have hbody : ¬['*', '/'] <:+: [' ', 'a', 'l', 'l', ' '] ++ ['*'] := by
    simp [List.infix_cons_iff]
  have hkept : ∀ text : List Char, (∀ c ∈ text, scriptCharacter c = true) → Stripped text text := by
    intro text h
    induction text with
    | nil => exact .nil
    | cons c text ih => exact .keep (h c (by simp)) (ih fun c hc => h c (by simp [hc]))
  have hrest : Stripped " local: *; \x7d;".toList " local: *; \x7d;".toList :=
    hkept _ (by simp [scriptCharacter, isAlphanumeric])
  have hscript : Stripped libraryScript.toList normalScript.toList :=
    .keep (by decide) (.keep (by decide) (.block hbody hrest))
  have hnormal : normalizeVersionScript libraryScript = .ok normalScript :=
    normalizeVersionScript_ok.mpr ⟨by decide, by decide, hscript, ';', by decide, by decide⟩
  exact ⟨hnormal, (normalizeVersionScript_normal hnormal).fixed⟩

theorem validatePackage_libraryFiles {text : String} (hsize : text.length ≤ 1024 * 1024) :
    validatePackage (libraryWriter text) (libraryFiles text) = .ok libraryManifest := by
  have hmanifest : readManifest (libraryWriter text) (libraryFiles text) = .ok libraryManifest :=
    readManifest_of rfl hsize (if_pos rfl) (jsonText_library text (.inr rfl)) (by decide +kernel)
      (by decide +kernel)
  have hnarrow : validateTargetLink (libraryWriter text) libraryLinkRecords "shared"
      (libraryFiles text) ["manifest.json"] "i686" = .ok ["manifest.json"] := rfl
  have hscript : validateVersionScript (libraryWriter text)
      [("libraries", .array [.string ":libone.so"]),
        ("link_options", .array [.string "-soname=libword.so"]),
        ("version_script", .object [("path", .string "link/x86_64.version.script"),
          ("sha256", .string "88f06e03449265341d8d2cea46b303330997f932ba52820e094149eb29fcaf2d")])]
      "shared" "link/x86_64.version.script" (libraryFiles text) ["manifest.json"] =
        .ok ["manifest.json", "link/x86_64.version.script"] :=
    bind_ok.mpr ⟨_, rfl, bind_ok.mpr ⟨(), rfl, bind_ok.mpr ⟨normalScript, rfl, bind_ok.mpr ⟨(), rfl,
      bind_ok.mpr ⟨normalScript, normalizeVersionScript_library.2, rfl⟩⟩⟩⟩⟩
  have hword : validateTargetLink (libraryWriter text) libraryLinkRecords "shared"
      (libraryFiles text) ["manifest.json"] "x86_64" =
        .ok ["manifest.json", "link/x86_64.version.script"] :=
    bind_ok.mpr ⟨_, rfl, bind_ok.mpr ⟨(), rfl, bind_ok.mpr ⟨_, rfl, bind_ok.mpr ⟨(), rfl,
      bind_ok.mpr ⟨(), rfl, bind_ok.mpr ⟨_, rfl, bind_ok.mpr ⟨(), rfl, hscript⟩⟩⟩⟩⟩⟩⟩
  have hlinks : validateTargetLinks (libraryWriter text) libraryManifest "shared" ["x86_64", "i686"]
      (libraryFiles text) ["manifest.json"] = .ok ["manifest.json", "link/x86_64.version.script"] := by
    have hsorted : ["x86_64", "i686"].mergeSort = ["i686", "x86_64"] := by
      simp [List.mergeSort, List.MergeSort.Internal.splitInTwo]
    refine bind_ok.mpr ⟨libraryLinkRecords, rfl, bind_ok.mpr ⟨(), rfl, ?_⟩⟩
    rw [hsorted]
    exact foldlM_cons_ok.mpr ⟨_, hnarrow, foldlM_cons_ok.mpr ⟨_, hword, rfl⟩⟩
  exact bind_ok.mpr ⟨libraryManifest, hmanifest, bind_ok.mpr ⟨"shared", rfl, bind_ok.mpr ⟨(), rfl,
    bind_ok.mpr ⟨(), rfl, bind_ok.mpr ⟨_, rfl, bind_ok.mpr ⟨["x86_64", "i686"], rfl, bind_ok.mpr ⟨_, rfl,
    bind_ok.mpr ⟨(), rfl, bind_ok.mpr ⟨["manifest.json"], rfl, bind_ok.mpr ⟨_, hlinks, bind_ok.mpr ⟨_, rfl,
    bind_ok.mpr ⟨_, rfl, bind_ok.mpr ⟨(), rfl, rfl⟩⟩⟩⟩⟩⟩⟩⟩⟩⟩⟩⟩⟩

theorem createArtifact_library {text : String} (hsize : text.length ≤ 1024 * 1024) :
    createArtifact (libraryWriter text) "shared" libraryModules [] [] ["x86_64", "i686"] ""
      libraryPlan libraryLinks = .ok (libraryFiles text) := by
  have hword : storeLink (libraryWriter text) ([], moduleFiles libraryModules)
      ("x86_64", ⟨[":libone.so"], ["-soname=libword.so"], libraryScript⟩) =
        .ok (libraryLinkRecords.take 1,
          (moduleFiles libraryModules).assign "link/x86_64.version.script" normalScript) := by
    have hstored : storeScript (libraryWriter text) (targetScriptPath "x86_64") libraryScript
        (moduleFiles libraryModules) = .ok ([("version_script", scriptRecord (libraryWriter text)
          (targetScriptPath "x86_64") normalScript)],
          (moduleFiles libraryModules).assign "link/x86_64.version.script" normalScript) := by
      rw [storeScript, if_neg (by decide)]
      exact bind_ok.mpr ⟨_, normalizeVersionScript_library.1, rfl⟩
    exact bind_ok.mpr ⟨_, hstored, rfl⟩
  have hlinks : storeLinks (libraryWriter text) libraryLinks (moduleFiles libraryModules) =
      .ok ([("target_links", .object libraryLinkRecords)],
        (moduleFiles libraryModules).assign "link/x86_64.version.script" normalScript) := by
    rw [storeLinks, if_neg (by decide)]
    exact bind_ok.mpr ⟨_, foldlM_cons_ok.mpr ⟨_, hword, rfl⟩, rfl⟩
  have hcontents : artifactContents (libraryWriter text) "shared" libraryModules [] []
      ["x86_64", "i686"] "" libraryPlan libraryLinks = .ok (writtenLibrary,
        (moduleFiles libraryModules).assign "link/x86_64.version.script" normalScript) :=
    bind_ok.mpr ⟨_, rfl, bind_ok.mpr ⟨(), rfl, bind_ok.mpr ⟨_, hlinks, rfl⟩⟩⟩
  have hfiles : ((moduleFiles libraryModules).assign "link/x86_64.version.script" normalScript).assign
      "manifest.json" ((libraryWriter text).jsonText (.object writtenLibrary)) = libraryFiles text := by
    rw [jsonText_library text (.inl rfl)]
    rfl
  refine bind_ok.mpr ⟨_, hcontents, ?_⟩
  dsimp only
  rw [hfiles]
  exact bind_ok.mpr ⟨_, validatePackage_libraryFiles hsize, rfl⟩

def libraryText : String :=
  "\x7b\n  \"compilation_units\": \x7b\n    \"i686\": [\n      \x7b\n" ++
  "        \"modules\": [\n          0\n        ],\n        \"optimization\": \"O2\"\n" ++
  "      \x7d\n    ],\n    \"x86_64\": [\n      \x7b\n        \"modules\": [\n" ++
  "          0,\n          1\n        ],\n        \"optimization\": \"O3\"\n      \x7d\n" ++
  "    ]\n  \x7d,\n  \"contract\": \"sela-prealpha-2\",\n  \"format_version\": 2,\n" ++
  "  \"kind\": \"shared\",\n  \"libraries\": [],\n  \"link_options\": [],\n" ++
  "  \"modules\": [\n    \x7b\n      \"path\": \"modules/0.selabc\",\n" ++
  "      \"sha256\": \"523f3a83db8bd636be55536029b95b6c316b2106a69b896be20dea51000a0b9a\",\n" ++
  "      \"targets\": [\n        \"x86_64\",\n        \"i686\"\n      ]\n    \x7d,\n" ++
  "    \x7b\n      \"path\": \"modules/1.selabc\",\n" ++
  "      \"sha256\": \"523f3a83db8bd636be55536029b95b6c316b2106a69b896be20dea51000a0b9a\",\n" ++
  "      \"targets\": [\n        \"x86_64\"\n      ]\n    \x7d\n  ],\n" ++
  "  \"runtime\": \"glibc-2.39-0ubuntu8.8\",\n  \"target_links\": \x7b\n" ++
  "    \"i686\": \x7b\n      \"libraries\": [\n        \"m\"\n      ],\n" ++
  "      \"link_options\": [\n        \"-soname=libword.so\"\n      ]\n    \x7d,\n" ++
  "    \"x86_64\": \x7b\n      \"libraries\": [\n        \":libone.so\"\n      ],\n" ++
  "      \"link_options\": [\n        \"-soname=libword.so\"\n      ],\n" ++
  "      \"version_script\": \x7b\n        \"path\": \"link/x86_64.version.script\",\n" ++
  "        \"sha256\": \"88f06e03449265341d8d2cea46b303330997f932ba52820e094149eb29fcaf2d\"\n" ++
  "      \x7d\n    \x7d\n  \x7d,\n  \"targets\": [\n    \"x86_64\",\n    \"i686\"\n  ]\n" ++
  "\x7d\n"

theorem length_libraryText : libraryText.length ≤ 1024 * 1024 := by
  refine Nat.le_trans (length_le_utf8ByteSize _) ?_
  unfold libraryText
  repeat rw [String.utf8ByteSize_append]
  decide +kernel

theorem createArtifact_readBack_library :
    ∃ manifest, validatePackage (libraryWriter libraryText) (libraryFiles libraryText) = .ok manifest ∧
      ReadBack (libraryFiles libraryText) manifest libraryModules [] [] ["x86_64", "i686"] ""
        libraryPlan libraryLinks :=
  createArtifact_readBack _ (libraryWriter_readsText _) "shared" libraryModules [] []
    ["x86_64", "i686"] "" libraryPlan libraryLinks (by decide) (by decide) _
    (createArtifact_library length_libraryText)

end Sela
