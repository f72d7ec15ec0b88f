import Mathlib.Data.List.Basic
import Sela.Build
import Sela.ReadBack

/-!
# The settings of a link

The publisher gives the settings of a combination to the link as arguments : its libraries, the
texts of its options and its version script. Where the targets have other settings than each
other, it writes those of each target to a file, which the link reads back.

* the link takes the settings of every capture, but for a library without a valid name, a name
  of the output that is read as a file of arguments, and a version script that is too long
  (`readSettings_defined_iff`);
* it reads the settings by target back, one for each target, whenever their file is not too long
  (`readTargetLinks_defined`).
-/

namespace Sela

open Checked Json

/-! ## Options -/

/-- An option that is recorded of a native link. -/
inductive LinkOption
  | soname (name : String)
  | exportDynamic
  | undefinedVersion
  | bothHashStyles

/-- The texts it is recorded as. -/
def LinkOption.texts : LinkOption → List String
  | .soname name => ["-soname", name]
  | .exportDynamic => ["--export-dynamic"]
  | .undefinedVersion => ["--undefined-version"]
  | .bothHashStyles => ["--hash-style=both"]

/-- The texts of recorded options. -/
def RecordedOptions (texts : List String) : Prop :=
  ∃ options : List LinkOption, texts = options.flatMap LinkOption.texts

/-- Whether an argument stands for the arguments in a file. -/
def isResponseFile (argument : String) : Bool :=
  match argument.toList with
  | '@' :: _ :: _ => true
  | _ => false

/-- The options read so far, whether the last hash style is the one for both, and whether a
name is still to come. -/
structure OptionReader where
  options : List String
  bothHashStyles : Bool
  awaitsName : Bool

/-- Read one more text of the options. -/
def readOptionText (reader : OptionReader) (text : String) : Checked OptionReader :=
  if reader.awaitsName then pure ⟨reader.options ++ ["-soname=" ++ text], reader.bothHashStyles, false⟩
  else if text = "-soname" ∨ text = "--soname" then pure { reader with awaitsName := true }
  else if text = "--export-dynamic" ∨ text = "-export-dynamic" ∨ text = "-E" then
    pure { reader with options := reader.options ++ ["--export-dynamic"] }
  else if text = "--hash-style=both" ∨ text = "--hash-style=gnu" then
    pure { reader with bothHashStyles := text = "--hash-style=both" }
  else if text = "--undefined-version" ∨ "-soname=".toList.isPrefixOf text.toList then
    pure { reader with options := reader.options ++ [text] }
  else throw ("unqualified publication link option: " ++ text)

/-- The options of a link, where no text names a file of arguments, which the publisher does
not write. The hash style stands last. -/
def readOptions (texts : List String) : Checked (List String) := do
  ensure (∀ text ∈ texts, isResponseFile text = false) "cannot read publication linker response file"
  let reader ← texts.foldlM readOptionText ⟨[], false, false⟩
  ensure (reader.awaitsName = false) "missing linker argument after -soname"
  pure (reader.options ++ if reader.bothHashStyles then ["--hash-style=both"] else [])

/-- The texts of recorded options are read, each option to its end. -/
theorem readOptionText_recorded : ∀ (options : List LinkOption) (reader : OptionReader),
    reader.awaitsName = false → ∃ read : OptionReader,
      (options.flatMap LinkOption.texts).foldlM readOptionText reader = .ok read ∧
        read.awaitsName = false
  | [], reader, h => ⟨reader, rfl, h⟩
  | option :: options, ⟨written, both, _⟩, rfl => by
    have hstep : ∃ next : OptionReader, option.texts.foldlM readOptionText ⟨written, both, false⟩ =
        .ok next ∧ next.awaitsName = false := by
      cases option with
      | soname name => exact ⟨⟨written ++ ["-soname=" ++ name], both, false⟩, rfl, rfl⟩
      | exportDynamic => exact ⟨⟨written ++ ["--export-dynamic"], both, false⟩, rfl, rfl⟩
      | undefinedVersion => exact ⟨⟨written ++ ["--undefined-version"], both, false⟩, rfl, rfl⟩
      | bothHashStyles => exact ⟨⟨written, true, false⟩, rfl, rfl⟩
    obtain ⟨next, hnext, hplain⟩ := hstep
    obtain ⟨read, hread, hend⟩ := readOptionText_recorded options next hplain
    exact ⟨read, by rw [List.flatMap_cons]; exact foldlM_append_ok.mpr ⟨next, hnext, hread⟩, hend⟩

/-! ## Common settings -/

/-- The libraries of a link, without the one of every link. -/
def readLibraries (libraries : List String) : Checked (List String) := do
  let declared := libraries.filter (· ≠ "c")
  ensure (∀ library ∈ declared, validLibrary library = true) "invalid declared native dependency"
  pure declared

/-- The version script of a link, which is read from a file where there is one. -/
def readVersionScript (script : String) : Checked String := do
  ensure (script.length ≤ 65536) "cannot read bounded input: size limit exceeded"
  pure script

def readSettings (settings : ArtifactLink) : Checked ArtifactLink := do
  let libraries ← readLibraries settings.libraries
  let options ← readOptions settings.options
  let versionScript ← readVersionScript settings.versionScript
  pure ⟨libraries, options, versionScript⟩

/-- Settings that the link takes. -/
structure TakesSettings (settings : ArtifactLink) : Prop where
  libraries : ∀ library ∈ settings.libraries, validLibrary library = true
  options : ∀ text ∈ settings.options, isResponseFile text = false
  versionScript : settings.versionScript.length ≤ 65536

theorem readLibraries_defined_iff (libraries : List String) :
    (∃ read, readLibraries libraries = .ok read) ↔
      ∀ library ∈ libraries, validLibrary library = true := by
  have hruntime : validLibrary "c" = true := by decide +kernel
  unfold readLibraries
  constructor
  · rintro ⟨read, h⟩ library hlibrary
    obtain ⟨_, hvalid, -⟩ := bind_ok.mp h
    by_cases hc : library = "c"
    · exact hc ▸ hruntime
    · exact ensure_ok.mp hvalid library (List.mem_filter.mpr ⟨hlibrary, by simpa using hc⟩)
  · exact fun h => ⟨_, bind_ok.mpr ⟨(), ensure_ok.mpr fun library hlibrary =>
      h library (List.mem_filter.mp hlibrary).1, rfl⟩⟩

/-- Of the settings of a capture the link takes those it should. -/
theorem readSettings_defined_iff {settings : ArtifactLink} (hrecorded : RecordedOptions settings.options) :
    (∃ read, readSettings settings = .ok read) ↔ TakesSettings settings := by
  constructor
  · rintro ⟨read, h⟩
    obtain ⟨libraries, hlibraries, h⟩ := bind_ok.mp h
    obtain ⟨options, hoptions, h⟩ := bind_ok.mp h
    obtain ⟨script, hscript, -⟩ := bind_ok.mp h
    obtain ⟨_, hfiles, -⟩ := bind_ok.mp hoptions
    obtain ⟨_, hlength, -⟩ := bind_ok.mp hscript
    exact ⟨(readLibraries_defined_iff _).mp ⟨libraries, hlibraries⟩, ensure_ok.mp hfiles,
      ensure_ok.mp hlength⟩
  · intro h
    obtain ⟨libraries, hlibraries⟩ := (readLibraries_defined_iff _).mpr h.libraries
    obtain ⟨options, hoptions⟩ := hrecorded
    obtain ⟨reader, hread, hend⟩ := readOptionText_recorded options ⟨[], false, false⟩ rfl
    rw [← hoptions] at hread
    have hoptions : ∃ read, readOptions settings.options = .ok read :=
      ⟨_, bind_ok.mpr ⟨(), ensure_ok.mpr h.options, bind_ok.mpr ⟨reader, hread,
        bind_ok.mpr ⟨(), ensure_ok.mpr hend, rfl⟩⟩⟩⟩
    obtain ⟨read, hoptions⟩ := hoptions
    exact ⟨_, bind_ok.mpr ⟨libraries, hlibraries, bind_ok.mpr ⟨read, hoptions,
      bind_ok.mpr ⟨_, bind_ok.mpr ⟨(), ensure_ok.mpr h.versionScript, rfl⟩, rfl⟩⟩⟩⟩

/-! ## Settings by target -/

/-- The settings of one target as they are written. -/
def targetLinkFields (link : ArtifactLink) : Json.Object :=
  [("libraries", .array (link.libraries.map Json.string)),
    ("link_options", .array (link.options.map Json.string)),
    ("version_script", .string link.versionScript)]

/-- The settings of the targets as they are written. -/
def targetLinksJson (links : LinkPlan) : Json :=
  .object (links.map fun entry => (entry.1, .object (targetLinkFields entry.2)))

/-- One more option of a target, where the one before may await a name. -/
def joinSoname (state : List String × Bool) (option : Json) : Checked (List String × Bool) := do
  if state.2 then
    let name ← require option.asString? "missing target soname"
    pure (state.1 ++ ["-soname=" ++ name], false)
  else
    let text ← require option.asString? "invalid target link option"
    if text = "-soname" then pure (state.1, true)
    else pure (state.1 ++ [text], false)

/-- The options of a target, with the name after `-soname` joined to it. -/
def joinSonames (options : List Json) : Checked (List String) := do
  let (joined, awaitsName) ← options.foldlM joinSoname ([], false)
  ensure (awaitsName = false) "missing target soname"
  pure joined

/-- The settings of one target. -/
def readTargetLink (entry : String × Json) : Checked (String × ArtifactLink) := do
  let record ← require entry.2.asObject? "invalid native target link record"
  ensure ((Sela.targets.find entry.1).isSome ∧ record.length = 3) "invalid native target link record"
  let libraries ← require (record.getArray "libraries") "invalid native target link record"
  let options ← require (record.getArray "link_options") "invalid native target link record"
  let versionScript ← require (record.getString "version_script") "invalid native target link record"
  let libraries ← require (readStrings (some libraries)) "invalid target library declaration"
  let options ← joinSonames options
  pure (entry.1, ⟨libraries, options, versionScript⟩)

/-- The settings of the targets, read from their file where there is one. -/
def readTargetLinks (format : PackageFormat) (links : LinkPlan) : Checked LinkPlan :=
  if links = [] then pure []
  else do
    let text := format.jsonText (targetLinksJson links)
    ensure (text.length ≤ 1024 * 1024) "cannot read bounded input: size limit exceeded"
    let json ← format.parse text
    let records ← require json.asObject? "invalid native target link settings"
    ensure (records ≠ []) "invalid native target link settings"
    records.mapM readTargetLink

/-- The reader of the format reads what its writer wrote for the settings of the targets. -/
def PackageFormat.ReadsLinks (format : PackageFormat) (links : LinkPlan) : Prop :=
  ∃ read, format.parse (format.jsonText (targetLinksJson links)) = .ok read ∧
    (targetLinksJson links).ReadAs read

theorem readStrings_readAs {texts : List String} {elements : List Json}
    (h : List.Forall₂ ReadAs (texts.map Json.string) elements) :
    ∃ texts', readStrings (some elements) = some texts' := by
  refine exists_mapM_some fun element helement => ?_
  obtain ⟨text, htext, hread⟩ := exists_of_forall₂_right h helement
  obtain ⟨text, -, rfl⟩ := List.mem_map.mp htext
  obtain ⟨text', rfl, -⟩ := hread.string_read
  exact ⟨text', rfl⟩

/-- An option that no name follows is kept. -/
theorem joinSoname_plain {text : String} {read : Json} (joined : List String)
    (h : ReadAs (.string text) read) (htext : Ascii text) (hne : text ≠ "-soname") :
    joinSoname (joined, false) read = .ok (joined ++ [text], false) := by
  obtain rfl := h.ascii_read htext
  exact bind_ok.mpr ⟨text, rfl, by rw [if_neg hne]; rfl⟩

/-- The options of a target are read from the texts they were recorded as. -/
theorem joinSoname_recorded : ∀ (options : List LinkOption) {elements : List Json} (joined : List String),
    List.Forall₂ ReadAs ((options.flatMap LinkOption.texts).map Json.string) elements →
    ∃ read, elements.foldlM joinSoname (joined, false) = .ok (read, false)
  | [], _, joined, .nil => ⟨joined, rfl⟩
  | option :: options, elements, joined, h => by
    rw [List.flatMap_cons, List.map_append] at h
    cases option with
    | soname name =>
      obtain ⟨first, rest, hfirst, hrest, rfl⟩ := List.forall₂_cons_left_iff.mp h
      obtain ⟨second, rest, hsecond, hoptions, rfl⟩ := List.forall₂_cons_left_iff.mp hrest
      obtain rfl := hfirst.ascii_read (by decide)
      obtain ⟨name', rfl, -⟩ := hsecond.string_read
      obtain ⟨read, hread⟩ := joinSoname_recorded options (joined ++ ["-soname=" ++ name']) hoptions
      exact ⟨read, foldlM_cons_ok.mpr ⟨(joined, true), rfl, foldlM_cons_ok.mpr ⟨_, rfl, hread⟩⟩⟩
    | exportDynamic =>
      obtain ⟨first, rest, hfirst, hrest, rfl⟩ := List.forall₂_cons_left_iff.mp h
      obtain ⟨read, hread⟩ := joinSoname_recorded options (joined ++ ["--export-dynamic"]) hrest
      exact ⟨read, foldlM_cons_ok.mpr ⟨_, joinSoname_plain joined hfirst (by decide) (by decide), hread⟩⟩
    | undefinedVersion =>
      obtain ⟨first, rest, hfirst, hrest, rfl⟩ := List.forall₂_cons_left_iff.mp h
      obtain ⟨read, hread⟩ := joinSoname_recorded options (joined ++ ["--undefined-version"]) hrest
      exact ⟨read, foldlM_cons_ok.mpr ⟨_, joinSoname_plain joined hfirst (by decide) (by decide), hread⟩⟩
    | bothHashStyles =>
      obtain ⟨first, rest, hfirst, hrest, rfl⟩ := List.forall₂_cons_left_iff.mp h
      obtain ⟨read, hread⟩ := joinSoname_recorded options (joined ++ ["--hash-style=both"]) hrest
      exact ⟨read, foldlM_cons_ok.mpr ⟨_, joinSoname_plain joined hfirst (by decide) (by decide), hread⟩⟩

theorem readTargetLink_defined {target : String} {link : ArtifactLink} {read : Json}
    (hregistered : (Sela.targets.find target).isSome) (hrecorded : RecordedOptions link.options)
    (hread : ReadAs (.object (targetLinkFields link)) read) (hdistinct : read.Distinct) :
    ∃ link', readTargetLink (target, read) = .ok (target, link') := by
  have hnodup : ((targetLinkFields link).map Prod.fst).Nodup := by simp [targetLinkFields]
  have hascii : ∀ key ∈ ["libraries", "link_options", "version_script"], Ascii key := by decide
  obtain ⟨options, hoptions⟩ := hrecorded
  obtain ⟨record, rfl, hperm, -⟩ := hread.object_read hdistinct hnodup hascii
  have hlength : record.length = 3 := by simpa [targetLinkFields] using hperm.length_eq
  obtain ⟨_, hlibraries, hreadLibraries⟩ := hread.get_of_get hnodup (hascii "libraries" (by simp)) rfl
  obtain ⟨_, hlinkOptions, hreadOptions⟩ :=
    hread.get_of_get hnodup (hascii "link_options" (by simp)) rfl
  obtain ⟨_, hscript, hreadScript⟩ := hread.get_of_get hnodup (hascii "version_script" (by simp)) rfl
  cases hreadLibraries with
  | array heachLibrary =>
    cases hreadOptions with
    | array heachOption =>
      obtain ⟨script, rfl, -⟩ := hreadScript.string_read
      obtain ⟨libraries, hlibraries'⟩ := readStrings_readAs heachLibrary
      rw [hoptions] at heachOption
      obtain ⟨joined, hfold⟩ := joinSoname_recorded options [] heachOption
      have hjoined : joinSonames _ = .ok joined :=
        bind_ok.mpr ⟨_, hfold, bind_ok.mpr ⟨(), ensure_ok.mpr rfl, rfl⟩⟩
      refine ⟨⟨libraries, joined, script⟩, bind_ok.mpr ⟨record, rfl, bind_ok.mpr ⟨(),
        ensure_ok.mpr ⟨hregistered, hlength⟩, bind_ok.mpr ⟨_, require_ok.mpr ?_, bind_ok.mpr ⟨_,
        require_ok.mpr ?_, bind_ok.mpr ⟨script, require_ok.mpr ?_, bind_ok.mpr ⟨libraries,
        require_ok.mpr hlibraries', bind_ok.mpr ⟨joined, hjoined, rfl⟩⟩⟩⟩⟩⟩⟩⟩
      · rw [Object.getArray, hlibraries]
        rfl
      · rw [Object.getArray, hlinkOptions]
        rfl
      · rw [Object.getString, hscript]
        rfl

theorem length_targetLinks {format : PackageFormat} {links read : LinkPlan} (hne : links ≠ [])
    (h : readTargetLinks format links = .ok read) :
    (format.jsonText (targetLinksJson links)).length ≤ 1024 * 1024 := by
  rw [readTargetLinks, if_neg hne] at h
  obtain ⟨_, hlength, -⟩ := bind_ok.mp h
  exact ensure_ok.mp hlength

/-- The settings of the targets are read back, one for each of them, unless their file is too long. -/
theorem readTargetLinks_defined {format : PackageFormat} {links : LinkPlan} (hne : links ≠ [])
    (hnodup : (links.map Prod.fst).Nodup)
    (hregistered : ∀ entry ∈ links, (Sela.targets.find entry.1).isSome)
    (hrecorded : ∀ entry ∈ links, RecordedOptions entry.2.options) (hreads : format.ReadsLinks links)
    (hlength : (format.jsonText (targetLinksJson links)).length ≤ 1024 * 1024) :
    ∃ read, readTargetLinks format links = .ok read ∧
      (read.map Prod.fst).Perm (links.map Prod.fst) := by
  obtain ⟨json, hparse, hread⟩ := hreads
  have hkeys : (links.map fun entry => (entry.1, Json.object (targetLinkFields entry.2))).map Prod.fst =
      links.map Prod.fst := by simp
  have hascii : ∀ key ∈ links.map Prod.fst, Ascii key := by
    intro key hkey
    obtain ⟨entry, hentry, rfl⟩ := List.mem_map.mp hkey
    exact target_ascii (hregistered entry hentry)
  obtain ⟨records, rfl, hperm, heach⟩ :=
    hread.object_read (format.parse_distinct hparse) (hkeys ▸ hnodup) (hkeys ▸ hascii)
  rw [hkeys] at hperm
  have hrecords : ∀ record ∈ records, ∃ entry, readTargetLink record = .ok entry ∧
      entry.1 = record.1 := by
    rintro ⟨target, record⟩ hrecord
    obtain ⟨hdistinct, written, hwritten, rfl, hrecord⟩ := heach _ hrecord
    obtain ⟨entry, hentry, rfl⟩ := List.mem_map.mp hwritten
    obtain ⟨link, hlink⟩ := readTargetLink_defined (hregistered entry hentry)
      (hrecorded entry hentry) hrecord hdistinct
    exact ⟨_, hlink, rfl⟩
  obtain ⟨read, hread⟩ := exists_forall₂ hrecords
  refine ⟨read, ?_, ?_⟩
  · rw [readTargetLinks, if_neg hne]
    refine bind_ok.mpr ⟨(), ensure_ok.mpr hlength, bind_ok.mpr ⟨_, hparse, bind_ok.mpr ⟨records, rfl,
      bind_ok.mpr ⟨(), ensure_ok.mpr ?_, mapM_ok.mpr (hread.imp fun _ _ h => h.1)⟩⟩⟩⟩
    rintro rfl
    simp [hne] at hperm
  · rwa [map_eq_of_forall₂ (hread.imp fun _ _ h => h.2)]

end Sela
