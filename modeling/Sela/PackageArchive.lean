import Sela.CreateArtifact
import Sela.LengthPrefixed
import Sela.Paths

/-!
# Package archives

A package is published as an archive of its files. `writePackage` admits a map of files and
archives it; `readPackage` reads an archive that may come from anywhere, so it checks the path
of every member, its kind and its size before it takes its data.

The archive library is a parameter : what it writes for a list of members, and what it reads
from the bytes of an archive. Where it stores the members of a package, every package that is
written is read back (`readPackage_writePackage`) : the names of an admitted package are the
few that its manifest can declare (`PackageName`), which are paths the reader takes
(`PackageName.validMember`), and the limits of the writer are within those of the reader.
-/

namespace Sela

open Checked

/-- The limit on the bytes of all files. -/
def maxBytes : ℕ := 64 * 1024 * 1024

/-- The limit on the number of files. -/
def maxFiles : ℕ := 512

/-- A member, as the archive library reads it : its header, and its data in the chunks in which
the reader is given them. -/
structure ArchiveEntry where
  pathname : Option String
  isRegular : Bool
  symlink : Option String
  hardlink : Option String
  size : ℤ
  chunks : List String

/-- The archive library : the archive of some files, and the members of an archive with the
failure that ends it, if it does not end as an archive does. -/
structure ArchiveLibrary where
  write : List (String × String) → Checked String
  read : String → Checked (List ArchiveEntry × Option String)

/-- The files around the archive being written : a new file, and its move to its place. -/
structure Staging where
  create : Checked Unit
  replace : String → Checked Unit

/-! ## Writing -/

/-- The bytes of the files so far, with one more. -/
def addSize (total : ℕ) (file : String × String) : Checked ℕ := do
  ensure (file.2.length ≤ maxBytes - total) "publication exceeds package size limit"
  pure (total + file.2.length)

/-- The archive of a package, put in its place. -/
def writePackage (library : ArchiveLibrary) (staging : Staging) (format : PackageFormat)
    (files : PackageFiles) : Checked String := do
  ensure (files.entries.length ≤ maxFiles) "too many package files"
  let _ ← files.entries.foldlM addSize 0
  let _ ← validatePackage format files
  staging.create
  let bytes ← library.write files.entries
  staging.replace bytes
  pure bytes

/-! ## Reading -/

/-- Whether a text has `..` in it. -/
def hasParent : List Char → Bool
  | '.' :: '.' :: _ => true
  | _ :: rest => hasParent rest
  | [] => false

/-- The paths a member may have. -/
def validMember (name : String) : Bool :=
  name ≠ "" && name.length ≤ 256 && !Paths.isAbsolute name.toList &&
    Paths.lexicallyNormal name.toList = name.toList && !hasParent name.toList

/-- The data of a member of a size, from its chunks. -/
def readData (name : String) : ℕ → List String → Checked String
  | 0, _ => pure ""
  | _ + 1, [] => throw ("truncated archive entry: " ++ name)
  | remaining + 1, chunk :: chunks => do
    ensure (chunk ≠ "") ("truncated archive entry: " ++ name)
    let rest ← readData name (remaining + 1 - chunk.length) chunks
    pure (chunk ++ rest)

/-- A file after the others. -/
def PackageFiles.push (files : PackageFiles) (name contents : String) (h : name ∉ files.names) :
    PackageFiles where
  entries := files.entries ++ [(name, contents)]
  nodup := by
    rw [List.map_append, List.nodup_append]
    refine ⟨files.nodup, by simp, ?_⟩
    rintro other hother last hlast rfl
    obtain rfl : other = name := by simpa using hlast
    exact h hother

/-- One more member. The files are numbered by their bytes so far. -/
def readEntry (state : PackageFiles × ℕ) (entry : ArchiveEntry) : Checked (PackageFiles × ℕ) := do
  let name ← require entry.pathname "archive entry without pathname"
  ensure (validMember name ∧ entry.isRegular ∧ entry.symlink = none ∧ entry.hardlink = none)
    ("invalid archive entry: " ++ name)
  if h : entry.size < 0 ∨ maxBytes - state.2 < entry.size.toNat ∨
      maxFiles ≤ state.1.entries.length ∨ name ∈ state.1.names then
    throw ("archive size/count limit or duplicate entry: " ++ name)
  else do
    let data ← readData name entry.size.toNat entry.chunks
    pure (state.1.push name data fun hname => h (.inr (.inr (.inr hname))),
      state.2 + data.length)

/-- The files of the archive at `input`, which has the bytes `bytes`. -/
def readPackage (library : ArchiveLibrary) (input bytes : String) : Checked PackageFiles := do
  ensure (bytes.length ≤ maxBytes + 1024 * 1024)
    ("cannot read bounded input " ++ input ++ ": size limit exceeded")
  let members ← library.read bytes
  let state ← members.1.foldlM readEntry (⟨[], List.nodup_nil⟩, 0)
  match members.2 with
  | some message => throw message
  | none => pure state.1

/-! ## The names of a package -/

/-- The names the files of an admitted package have. -/
inductive PackageName : String → Prop
  | manifest : PackageName "manifest.json"
  | module {index : ℕ} (h : index < maxFiles) : PackageName (modulePath index)
  | script : PackageName "link/version.script"
  | targetScript {target : TargetInfo} (h : target ∈ targets.all) :
    PackageName (targetScriptPath target.id)

section Expected

variable {format : PackageFormat} {files : PackageFiles} {kind : String}
  {expected expected' : List String} {name : String}

theorem mem_validateLinkRecord {record : Json.Object} {scriptPath : String}
    (h : validateLinkRecord format record kind scriptPath files expected = .ok expected')
    (hname : name ∈ expected') : name ∈ expected ∨ name = scriptPath := by
  unfold validateLinkRecord at h
  obtain ⟨_, -, h⟩ := bind_ok.mp h
  obtain ⟨_, -, h⟩ := bind_ok.mp h
  obtain ⟨_, -, h⟩ := bind_ok.mp h
  obtain ⟨_, -, h⟩ := bind_ok.mp h
  obtain ⟨_, -, h⟩ := bind_ok.mp h
  unfold validateVersionScript at h
  split at h
  · obtain rfl := Except.ok.inj h
    exact .inl hname
  · obtain ⟨_, -, h⟩ := bind_ok.mp h
    obtain ⟨_, -, h⟩ := bind_ok.mp h
    obtain ⟨_, -, h⟩ := bind_ok.mp h
    obtain ⟨_, -, h⟩ := bind_ok.mp h
    obtain ⟨_, -, h⟩ := bind_ok.mp h
    obtain ⟨_, -, h⟩ := bind_ok.mp h
    obtain rfl := Except.ok.inj h
    exact Grouping.mem_pushNew.mp hname

theorem mem_foldlM_validateTargetLink {links : Json.Object} {targets : List String}
    (h : targets.foldlM (validateTargetLink format links kind files) expected = .ok expected')
    (hname : name ∈ expected') :
    name ∈ expected ∨ ∃ target ∈ targets, name = targetScriptPath target := by
  induction targets generalizing expected with
  | nil =>
    obtain rfl : expected = expected' := Except.ok.inj h
    exact .inl hname
  | cons target rest ih =>
    obtain ⟨middle, hstep, h⟩ := foldlM_cons_ok.mp h
    unfold validateTargetLink at hstep
    obtain ⟨record, -, hstep⟩ := bind_ok.mp hstep
    obtain ⟨_, -, hstep⟩ := bind_ok.mp hstep
    rcases ih h with hmiddle | ⟨other, hother, rfl⟩
    · rcases mem_validateLinkRecord hstep hmiddle with hexpected | rfl
      · exact .inl hexpected
      · exact .inr ⟨target, .head rest, rfl⟩
    · exact .inr ⟨other, .tail target hother, rfl⟩

theorem mem_validateTargetLinks {manifest : Json.Object} {targets : List String}
    (h : validateTargetLinks format manifest kind targets files expected = .ok expected')
    (hname : name ∈ expected') :
    name ∈ expected ∨ ∃ target ∈ targets, name = targetScriptPath target := by
  unfold validateTargetLinks at h
  split at h
  · obtain rfl := Except.ok.inj h
    exact .inl hname
  · obtain ⟨links, -, h⟩ := bind_ok.mp h
    obtain ⟨_, -, h⟩ := bind_ok.mp h
    rcases mem_foldlM_validateTargetLink h hname with hname | ⟨target, htarget, rfl⟩
    · exact .inl hname
    · exact .inr ⟨target, List.mem_mergeSort.mp htarget, rfl⟩

theorem mem_validateModule {targets : List String} {entry : Json × ℕ}
    (h : validateModule format targets files expected entry = .ok expected') :
    name ∈ expected' ↔ name ∈ expected ∨ name = modulePath entry.2 := by
  unfold validateModule at h
  obtain ⟨_, -, h⟩ := bind_ok.mp h
  obtain ⟨_, -, h⟩ := bind_ok.mp h
  obtain ⟨_, -, h⟩ := bind_ok.mp h
  obtain ⟨_, -, h⟩ := bind_ok.mp h
  obtain ⟨_, -, h⟩ := bind_ok.mp h
  obtain ⟨_, -, h⟩ := bind_ok.mp h
  obtain ⟨_, -, h⟩ := bind_ok.mp h
  obtain ⟨_, -, h⟩ := bind_ok.mp h
  obtain rfl := Except.ok.inj h
  exact Grouping.mem_pushNew

theorem mem_validateModules {targets : List String} {entries : List (Json × ℕ)}
    (h : entries.foldlM (validateModule format targets files) expected = .ok expected') :
    name ∈ expected' ↔ name ∈ expected ∨ ∃ entry ∈ entries, name = modulePath entry.2 := by
  induction entries generalizing expected with
  | nil =>
    obtain rfl : expected = expected' := Except.ok.inj h
    simp
  | cons entry rest ih =>
    obtain ⟨middle, hstep, h⟩ := foldlM_cons_ok.mp h
    rw [ih h, mem_validateModule hstep, or_assoc, List.exists_mem_cons_iff]

end Expected

theorem modulePath_injective : Function.Injective modulePath := by
  intro i j h
  have hlist := congrArg String.toList h
  simp only [modulePath, String.toList_append, List.append_cancel_left_eq,
    List.append_cancel_right_eq, List.append_assoc] at hlist
  exact Nat.repr_injective (String.toList_inj.mp hlist)

/-- The files of an admitted package have the names its manifest can declare. -/
theorem packageName_of_validatePackage {format : PackageFormat} {files : PackageFiles}
    {manifest : Json.Object} (h : validatePackage format files = .ok manifest)
    (hcount : files.entries.length ≤ maxFiles) : ∀ name ∈ files.names, PackageName name := by
  unfold validatePackage at h
  obtain ⟨object, hmanifest, h⟩ := bind_ok.mp h
  obtain ⟨kind, -, h⟩ := bind_ok.mp h
  obtain ⟨_, -, h⟩ := bind_ok.mp h
  obtain ⟨_, -, h⟩ := bind_ok.mp h
  obtain ⟨targetList, -, h⟩ := bind_ok.mp h
  obtain ⟨targets, htargets, h⟩ := bind_ok.mp h
  obtain ⟨modules, -, h⟩ := bind_ok.mp h
  obtain ⟨_, -, h⟩ := bind_ok.mp h
  obtain ⟨expected₁, hlink, h⟩ := bind_ok.mp h
  obtain ⟨expected₂, hlinks, h⟩ := bind_ok.mp h
  obtain ⟨expected, hexpected, h⟩ := bind_ok.mp h
  obtain ⟨plan, -, h⟩ := bind_ok.mp h
  obtain ⟨_, hlength, -⟩ := bind_ok.mp h
  obtain ⟨hdistinct, hstart⟩ := readManifest_ok hmanifest
  unfold readTargets at htargets
  obtain ⟨_, -, htargets⟩ := bind_ok.mp htargets
  obtain ⟨-, hregistered, hnodup⟩ := readDomain_ok htargets
  obtain ⟨-, hfiles₁, -⟩ := validateLinkRecord_ok hstart hlink
  have hfiles₂ := (validateTargetLinks_ok hdistinct hnodup hfiles₁ hlinks).expectedFiles
  have hfiles := (foldlM_validateModule_ok hfiles₂ hexpected).expectedFiles
  have hperm : expected.Perm files.names :=
    (List.subperm_of_subset hfiles.nodup hfiles.found).perm_of_length_le
      (by simp [PackageFiles.names, ensure_ok.mp hlength])
  intro name hname
  rcases (mem_validateModules hexpected).mp (hperm.mem_iff.mpr hname) with
    hname | ⟨entry, hentry, rfl⟩
  · rcases mem_validateTargetLinks hlinks hname with hname | ⟨target, htarget, rfl⟩
    · rcases mem_validateLinkRecord hlink hname with hname | rfl
      · rw [List.mem_singleton.mp hname]
        exact .manifest
      · exact .script
    · obtain ⟨info, hinfo⟩ := Option.isSome_iff_exists.mp (hregistered target htarget)
      rw [← Sela.targets.find_id hinfo]
      exact .targetScript (Sela.targets.find_mem hinfo)
  · -- every module before this one has a file of its own
    obtain ⟨hindex, -⟩ := List.getElem?_eq_some_iff.mp (List.mem_zipIdx_iff_getElem?.mp hentry)
    refine .module (lt_of_lt_of_le hindex ?_)
    have hpaths : ((List.range modules.length).map modulePath).Nodup :=
      List.nodup_range.map modulePath_injective
    have hsubset : (List.range modules.length).map modulePath ⊆ expected := by
      intro path hpath
      obtain ⟨index, hindex, rfl⟩ := List.mem_map.mp hpath
      obtain ⟨record, hrecord⟩ : ∃ record, modules[index]? = some record :=
        ⟨_, List.getElem?_eq_getElem (List.mem_range.mp hindex)⟩
      exact (mem_validateModules hexpected).mpr
        (.inr ⟨(record, index), List.mem_zipIdx_iff_getElem?.mpr hrecord, rfl⟩)
    have hlength' := (List.subperm_of_subset hpaths hsubset).length_le
    rw [List.length_map, List.length_range, ensure_ok.mp hlength] at hlength'
    exact hlength'.trans hcount

/-! ## The paths of a package -/

/-- A short portable path, which an archive stores in the name of its header. -/
def portable (name : List Char) : Bool :=
  name ≠ [] && name.length ≤ 100 && name.getLast? ≠ some '/' && name.all fun c =>
    isAlphanumeric c || c == '/' || c == '.' || c == '_' || c == '-'

/-- A path of ordinary names, none of which has `..` in it. -/
structure PlainPath (path : List Char) : Prop where
  names : ∃ first rest, path = ['/'].intercalate (first :: rest) ∧
    ∀ name ∈ first :: rest, Paths.Ordinary name
  parents : hasParent path = false

theorem hasParent_of_count {path : List Char} (h : path.count '.' ≤ 1) : hasParent path = false := by
  induction path using hasParent.induct with
  | case1 rest => simp at h
  | case2 c rest hne ih =>
    rw [hasParent.eq_2 _ _ hne]
    exact ih (Nat.le_trans List.count_le_count_cons h)
  | case3 => rfl

theorem digits_alphanumeric (index : ℕ) : ∀ c ∈ (toString index).toList, isAlphanumeric c = true := by
  intro c hc
  rw [Nat.toString_eq_repr, Nat.toList_repr] at hc
  have hdigit := Nat.isDigit_of_mem_toDigits (by decide) (by decide) hc
  have hrange : '0' ≤ c ∧ c ≤ '9' := by simpa [Char.isDigit, Char.le_def] using hdigit
  simp [isAlphanumeric, hrange]

theorem modulePath_toList (index : ℕ) : (modulePath index).toList =
    "modules/".toList ++ ((toString index).toList ++ ".selabc".toList) := by
  rw [modulePath, String.toList_append, String.toList_append, List.append_assoc]

theorem targetScriptPath_toList (target : String) : (targetScriptPath target).toList =
    "link/".toList ++ (target.toList ++ ".version.script".toList) := by
  rw [targetScriptPath, String.toList_append, String.toList_append, List.append_assoc]

/-- A path of one directory. -/
theorem PlainPath.pair {directory leaf : List Char} (hdirectory : Paths.Ordinary directory)
    (hleaf : Paths.Ordinary leaf) (hparents : hasParent (directory ++ '/' :: leaf) = false) :
    PlainPath (directory ++ '/' :: leaf) := by
  refine ⟨⟨directory, [leaf], by simp, ?_⟩, hparents⟩
  intro name hname
  rcases List.mem_pair.mp hname with rfl | rfl
  · exact hdirectory
  · exact hleaf

theorem plainPath_modulePath (index : ℕ) : PlainPath (modulePath index).toList := by
  have hdigits := digits_alphanumeric index
  have hslash : '/' ∉ (toString index).toList := fun h => absurd (hdigits _ h) (by decide)
  have hdot : '.' ∉ (toString index).toList := fun h => absurd (hdigits _ h) (by decide)
  have hleaf : Paths.Ordinary ((toString index).toList ++ ".selabc".toList) := by
    refine ⟨by simp, ?_, ?_, ?_⟩
    · intro h
      exact absurd (congrArg List.length h) (by simp)
    · intro h
      exact absurd (congrArg List.length h) (by simp)
    · rw [List.mem_append]
      exact fun h => h.elim hslash (by decide)
  have hparents : hasParent
      ("modules".toList ++ '/' :: ((toString index).toList ++ ".selabc".toList)) = false := by
    -- the only dot of the path is before its suffix
    refine hasParent_of_count ?_
    rw [List.count_append, List.count_cons, List.count_append, List.count_eq_zero.mpr hdot]
    decide
  rw [modulePath_toList]
  exact @PlainPath.pair "modules".toList _ (by decide) hleaf hparents

theorem plainPath_targetScriptPath {target : TargetInfo} (h : target ∈ targets.all) :
    PlainPath (targetScriptPath target.id).toList := by
  have hnames : ∀ target ∈ targets.all,
      Paths.Ordinary (target.id.toList ++ ".version.script".toList) ∧
        hasParent ("link/".toList ++ (target.id.toList ++ ".version.script".toList)) = false := by
    decide
  obtain ⟨hleaf, hparents⟩ := hnames target h
  rw [targetScriptPath_toList]
  exact @PlainPath.pair "link".toList _ (by decide) hleaf hparents

theorem PackageName.plainPath {name : String} (h : PackageName name) : PlainPath name.toList := by
  cases h with
  | manifest => exact ⟨⟨"manifest.json".toList, [], by decide, by decide⟩, by decide⟩
  | module => exact plainPath_modulePath _
  | script =>
    have hpath : "link/version.script".toList = "link".toList ++ '/' :: "version.script".toList := by
      decide
    rw [hpath]
    exact PlainPath.pair (by decide) (by decide) (by decide)
  | targetScript htarget => exact plainPath_targetScriptPath htarget

theorem portable_modulePath {index : ℕ} (h : index < maxFiles) :
    portable (modulePath index).toList = true := by
  have hdigits := digits_alphanumeric index
  have hlength : (toString index).toList.length ≤ 3 := by
    rw [String.length_toList, Nat.toString_eq_repr]
    exact (Nat.length_repr_le_iff (by decide)).mpr (by unfold maxFiles at h; omega)
  have hlast : ("modules/".toList ++ ((toString index).toList ++ ".selabc".toList)).getLast? =
      some 'c' := by
    rw [← List.append_assoc, List.getLast?_append_of_ne_nil _ (by decide)]
    decide
  rw [modulePath_toList]
  simp only [portable, hlast, List.all_append, List.length_append, Bool.and_eq_true,
    decide_eq_true_eq]
  refine ⟨⟨⟨by simp, ?_⟩, by decide⟩, by decide, ?_, by decide⟩
  · have hdirectory : "modules/".toList.length = 8 := by decide
    have hsuffix : ".selabc".toList.length = 7 := by decide
    omega
  · rw [List.all_eq_true]
    intro c hc
    simp [hdigits c hc]

/-- A name of a package fits the header of a member. -/
theorem PackageName.portable {name : String} (h : PackageName name) :
    portable name.toList = true := by
  cases h with
  | manifest => decide
  | script => decide
  | targetScript htarget =>
    have hnames : ∀ target ∈ targets.all, Sela.portable
        ("link/".toList ++ (target.id.toList ++ ".version.script".toList)) = true := by
      decide
    rw [targetScriptPath_toList]
    exact hnames _ htarget
  | module hindex => exact portable_modulePath hindex

/-- The reader takes the names of a package. -/
theorem PackageName.validMember {name : String} (h : PackageName name) : validMember name = true := by
  obtain ⟨⟨first, rest, hnames, hordinary⟩, hparents⟩ := h.plainPath
  have hportable := h.portable
  simp only [Sela.portable, Bool.and_eq_true, decide_eq_true_eq] at hportable
  obtain ⟨⟨⟨hnil, hlength⟩, -⟩, -⟩ := hportable
  have hne : name ≠ "" := by
    rintro rfl
    exact hnil rfl
  have hlimit : name.length ≤ 256 := by
    rw [String.length_toList] at hlength
    omega
  have habsolute : Paths.isAbsolute name.toList = false := by
    rw [hnames]
    exact Paths.not_absolute (hordinary first (.head rest))
  have hnormal : Paths.lexicallyNormal name.toList = name.toList := by
    rw [hnames]
    exact Paths.lexicallyNormal_intercalate hordinary
  simp [Sela.validMember, hne, hlimit, habsolute, hnormal, hparents]

/-! ## Reading back what was written -/

/-- The bytes of some data in blocks of 512. -/
def padded (size : ℕ) : ℕ := (size + 511) / 512 * 512

/-- A member is read as it was stored : a regular file of its name, whose data comes in chunks. -/
structure StoredEntry (file : String × String) (entry : ArchiveEntry) : Prop where
  pathname : entry.pathname = some file.1
  regular : entry.isRegular = true
  symlink : entry.symlink = none
  hardlink : entry.hardlink = none
  size : entry.size = file.2.length
  chunks : entry.chunks.flatMap String.toList = file.2.toList
  nonempty : ∀ chunk ∈ entry.chunks, chunk ≠ ""

/-- The library stores some files : each takes a header of 512 bytes and its data padded to 512
bytes, the end of the archive takes at most 11264 bytes, and the members are read as they were
stored. -/
structure ArchiveLibrary.Stores (library : ArchiveLibrary) (files : List (String × String)) :
    Prop where
  size : ∀ bytes, library.write files = .ok bytes →
    bytes.length ≤ (files.map fun file => 512 + padded file.2.length).sum + 11264
  entries : ∀ bytes, library.write files = .ok bytes →
    ∃ entries, library.read bytes = .ok (entries, none) ∧ List.Forall₂ StoredEntry files entries

/-- The bytes of some files. -/
def totalSize (files : List (String × String)) : ℕ := (files.map fun file => file.2.length).sum

theorem foldlM_addSize_ok {files : List (String × String)} {total total' : ℕ}
    (htotal : total ≤ maxBytes) (h : files.foldlM addSize total = .ok total') :
    total + totalSize files ≤ maxBytes := by
  induction files generalizing total with
  | nil => simpa [totalSize] using htotal
  | cons file rest ih =>
    obtain ⟨middle, hstep, h⟩ := foldlM_cons_ok.mp h
    obtain ⟨_, hlimit, hstep⟩ := bind_ok.mp hstep
    have hlimit := ensure_ok.mp hlimit
    obtain rfl := Except.ok.inj hstep
    have hrest := ih (by omega) h
    simp only [totalSize, List.map_cons, List.sum_cons] at hrest ⊢
    omega

/-- The archive of a package is within the limit of the reader. -/
theorem archive_size_le {files : List (String × String)} (hcount : files.length ≤ maxFiles)
    (htotal : totalSize files ≤ maxBytes) :
    (files.map fun file => 512 + padded file.2.length).sum + 11264 ≤ maxBytes + 1024 * 1024 := by
  have hmember : ∀ files : List (String × String),
      (files.map fun file => 512 + padded file.2.length).sum ≤
        totalSize files + 1023 * files.length := by
    intro files
    induction files with
    | nil => simp [totalSize]
    | cons file rest ih =>
      have hpadded : padded file.2.length ≤ file.2.length + 511 := by
        unfold padded
        omega
      simp only [totalSize, List.map_cons, List.sum_cons, List.length_cons] at ih ⊢
      omega
  have hfiles := hmember files
  unfold maxFiles at hcount
  unfold maxBytes at htotal ⊢
  omega

theorem readData_ok (name : String) {chunks : List String} (h : ∀ chunk ∈ chunks, chunk ≠ "")
    {size : ℕ} (hsize : (chunks.flatMap String.toList).length = size) :
    readData name size chunks = .ok (String.ofList (chunks.flatMap String.toList)) := by
  induction chunks generalizing size with
  | nil =>
    obtain rfl : 0 = size := hsize
    rfl
  | cons chunk rest ih =>
    obtain ⟨hchunk, hrest⟩ := List.forall_mem_cons.mp h
    have hpositive : 0 < chunk.length := by
      rw [← String.length_toList, List.length_pos_iff, Ne, String.toList_eq_nil_iff]
      exact hchunk
    rw [List.flatMap_cons, List.length_append, String.length_toList] at hsize
    obtain ⟨remaining, rfl⟩ : ∃ remaining, size = remaining + 1 := ⟨size - 1, by omega⟩
    have hread : readData name (remaining + 1 - chunk.length) rest =
        .ok (String.ofList (rest.flatMap String.toList)) := ih hrest (by omega)
    rw [List.flatMap_cons, String.ofList_append, String.ofList_toList]
    exact bind_ok.mpr ⟨(), ensure_ok.mpr hchunk, bind_ok.mpr ⟨_, hread, rfl⟩⟩

/-- The reader takes one stored member after the others. -/
theorem readEntry_ok {file : String × String} {entry : ArchiveEntry}
    (hentry : StoredEntry file entry) {state : PackageFiles × ℕ}
    (hname : validMember file.1 = true) (hnew : file.1 ∉ state.1.names)
    (htotal : state.2 + file.2.length ≤ maxBytes) (hcount : state.1.entries.length < maxFiles) :
    ∃ state', readEntry state entry = .ok state' ∧
      state'.1.entries = state.1.entries ++ [file] ∧ state'.2 = state.2 + file.2.length := by
  have hchecks : validMember file.1 = true ∧ entry.isRegular = true ∧ entry.symlink = none ∧
      entry.hardlink = none := ⟨hname, hentry.regular, hentry.symlink, hentry.hardlink⟩
  have hsize : entry.size.toNat = file.2.length := by
    rw [hentry.size]
    rfl
  have hdata : readData file.1 entry.size.toNat entry.chunks = .ok file.2 := by
    rw [hsize, readData_ok file.1 hentry.nonempty (by rw [hentry.chunks, String.length_toList]),
      hentry.chunks, String.ofList_toList]
  have hlimits : ¬(entry.size < 0 ∨ maxBytes - state.2 < entry.size.toNat ∨
      maxFiles ≤ state.1.entries.length ∨ file.1 ∈ state.1.names) := by
    rw [hsize, hentry.size]
    rintro (hlt | hlt | hlt | hmem)
    · omega
    · omega
    · omega
    · exact hnew hmem
  refine ⟨(state.1.push file.1 file.2 hnew, state.2 + file.2.length), ?_, rfl, rfl⟩
  unfold readEntry
  refine bind_ok.mpr ⟨file.1, require_ok.mpr hentry.pathname, bind_ok.mpr ⟨(),
    ensure_ok.mpr hchecks, ?_⟩⟩
  rw [dif_neg hlimits, hdata]
  rfl

/-- The reader takes all stored members, in order. -/
theorem foldlM_readEntry_ok {files : List (String × String)} {entries : List ArchiveEntry}
    (hentries : List.Forall₂ StoredEntry files entries) {state : PackageFiles × ℕ}
    (hnames : ∀ file ∈ files, validMember file.1 = true)
    (hnodup : (state.1.names ++ files.map Prod.fst).Nodup)
    (htotal : state.2 + totalSize files ≤ maxBytes)
    (hcount : state.1.entries.length + files.length ≤ maxFiles) :
    ∃ state', entries.foldlM readEntry state = .ok state' ∧
      state'.1.entries = state.1.entries ++ files := by
  induction hentries generalizing state with
  | nil => exact ⟨state, rfl, by simp⟩
  | @cons file entry files entries hentry _ ih =>
    obtain ⟨hname, hrest⟩ := List.forall_mem_cons.mp hnames
    simp only [totalSize, List.map_cons, List.sum_cons, List.length_cons] at htotal hcount hnodup
    have hnew : file.1 ∉ state.1.names := fun hmem =>
      (List.nodup_append.mp hnodup).2.2 _ hmem _ (.head _) rfl
    obtain ⟨middle, hstep, hmiddle, htotal'⟩ :=
      readEntry_ok hentry hname hnew (by omega) (by omega)
    obtain ⟨state', hread, hstate⟩ := @ih middle hrest
      (by simpa [PackageFiles.names, hmiddle] using hnodup)
      (by rw [htotal']; simp only [totalSize]; omega)
      (by rw [hmiddle, List.length_append, List.length_singleton]; omega)
    refine ⟨state', foldlM_cons_ok.mpr ⟨middle, hstep, hread⟩, ?_⟩
    rw [hstate, hmiddle, List.append_assoc]
    rfl

/-- Every package that is written is read back : its names are paths the reader takes, its
archive is within the limit of the reader, and reading gives the files that were written. -/
theorem readPackage_writePackage (library : ArchiveLibrary) (staging : Staging)
    (format : PackageFormat) (files : PackageFiles) (input bytes : String)
    (hwrite : writePackage library staging format files = .ok bytes)
    (hstores : (∀ file ∈ files.entries, portable file.1.toList = true) →
      library.Stores files.entries) :
    (∀ name ∈ files.names, validMember name = true) ∧ bytes.length ≤ maxBytes + 1024 * 1024 ∧
      readPackage library input bytes = .ok files := by
  unfold writePackage at hwrite
  obtain ⟨_, hcount, hwrite⟩ := bind_ok.mp hwrite
  obtain ⟨total, htotal, hwrite⟩ := bind_ok.mp hwrite
  obtain ⟨manifest, hmanifest, hwrite⟩ := bind_ok.mp hwrite
  obtain ⟨_, -, hwrite⟩ := bind_ok.mp hwrite
  obtain ⟨archive, harchive, hwrite⟩ := bind_ok.mp hwrite
  obtain ⟨_, -, hwrite⟩ := bind_ok.mp hwrite
  obtain rfl : archive = bytes := Except.ok.inj hwrite
  have hcount := ensure_ok.mp hcount
  have hnames := packageName_of_validatePackage hmanifest hcount
  have hsize : totalSize files.entries ≤ maxBytes := by
    have := foldlM_addSize_ok (Nat.zero_le _) htotal
    omega
  have hlibrary := hstores fun file hfile =>
    (hnames file.1 (List.mem_map_of_mem hfile)).portable
  obtain ⟨entries, hentries, hstored⟩ := hlibrary.entries archive harchive
  have hlimit : archive.length ≤ maxBytes + 1024 * 1024 :=
    Nat.le_trans (hlibrary.size archive harchive) (archive_size_le hcount hsize)
  obtain ⟨state, hread, hstate⟩ := @foldlM_readEntry_ok _ _ hstored (⟨[], List.nodup_nil⟩, 0)
    (fun file hfile => (hnames file.1 (List.mem_map_of_mem hfile)).validMember)
    (by simpa [PackageFiles.names] using files.nodup) (by simpa using hsize) (by simpa using hcount)
  have hfiles : state.1 = files := by
    cases files
    obtain ⟨⟨read, hread⟩, total⟩ := state
    obtain rfl : read = _ := by simpa using hstate
    rfl
  refine ⟨fun name hname => (hnames name hname).validMember, hlimit, ?_⟩
  unfold readPackage
  refine bind_ok.mpr ⟨(), ensure_ok.mpr hlimit, bind_ok.mpr ⟨_, hentries, bind_ok.mpr ⟨state, hread, ?_⟩⟩⟩
  exact congrArg Except.ok hfiles

/-! ## An archive -/

/-- A field of a header : a text in its width. -/
def headerField (field : ℕ × List Char) : List Char :=
  field.2.take field.1 ++ List.replicate (field.1 - field.2.length) '\x00'

/-- A number in octal digits. -/
def octal (width value : ℕ) : List Char :=
  List.replicate (width - (Nat.toDigits 8 value).length) '0' ++ Nat.toDigits 8 value

/-- The fields of the header of a regular file, with its checksum. -/
def headerFields (name : String) (size : ℕ) (checksum : List Char) : List (ℕ × List Char) :=
  [(100, name.toList), (8, octal 6 0o644 ++ [' ']), (8, octal 6 0 ++ [' ']), (8, octal 6 0 ++ [' ']),
    (12, octal 11 size ++ [' ']), (12, octal 11 0 ++ [' ']), (8, checksum), (1, ['0']), (100, []),
    (6, "ustar".toList), (2, ['0', '0']), (32, []), (32, []), (8, octal 6 0 ++ [' ']),
    (8, octal 6 0 ++ [' ']), (155, []), (12, [])]

/-- The header of a regular file : its checksum is the sum of its bytes with a blank checksum. -/
def fileHeader (name : String) (size : ℕ) : List Char :=
  let blank := (headerFields name size (List.replicate 8 ' ')).flatMap headerField
  (headerFields name size (octal 6 (blank.map Char.toNat).sum ++ ['\x00', ' '])).flatMap headerField

/-- A member : its header, and its data in whole blocks. -/
def tarMember (file : String × String) : List Char :=
  fileHeader file.1 file.2.length ++ file.2.toList ++
    List.replicate (padded file.2.length - file.2.length) '\x00'

/-- An archive : its members, and its end in records of 10240 bytes. -/
def tarArchive (files : List (String × String)) : String :=
  let members := files.flatMap tarMember
  let size := (members.length + 1024 + 10239) / 10240 * 10240
  String.ofList (members ++ List.replicate (size - members.length) '\x00')

theorem length_headerField (field : ℕ × List Char) : (headerField field).length = field.1 := by
  simp only [headerField, List.length_append, List.length_take, List.length_replicate]
  omega

theorem length_fileHeader (name : String) (size : ℕ) : (fileHeader name size).length = 512 := by
  simp [fileHeader, headerFields, length_headerField]

theorem length_tarMember (file : String × String) :
    (tarMember file).length = 512 + padded file.2.length := by
  have hpadded : file.2.length ≤ padded file.2.length := by
    unfold padded
    omega
  simp only [tarMember, List.length_append, length_fileHeader, String.length_toList,
    List.length_replicate]
  omega

theorem length_tarArchive_le (files : List (String × String)) :
    (tarArchive files).length ≤
      (files.map fun file => 512 + padded file.2.length).sum + 11264 := by
  have hmembers : (files.flatMap tarMember).length =
      (files.map fun file => 512 + padded file.2.length).sum := by
    simp only [List.length_flatMap, length_tarMember]
  simp only [tarArchive, String.length_ofList, List.length_append, List.length_replicate, hmembers]
  omega

/-- A regular file as the library reads it, its data in one chunk. -/
def regularEntry (file : String × String) : ArchiveEntry :=
  ⟨some file.1, true, none, none, file.2.length, if file.2 = "" then [] else [file.2]⟩

theorem regularEntry_stored (file : String × String) : StoredEntry file (regularEntry file) := by
  refine ⟨rfl, rfl, rfl, rfl, rfl, ?_, ?_⟩
  · by_cases h : file.2 = "" <;> simp [regularEntry, h]
  · by_cases h : file.2 = "" <;> simp [regularEntry, h]

/-- The library on the archive of some files. -/
def tarLibrary (files : List (String × String)) : ArchiveLibrary where
  write files := .ok (tarArchive files)
  read bytes :=
    if bytes = tarArchive files then .ok (files.map regularEntry, none)
    else .error "Unrecognized archive format"

theorem tarLibrary_stores (files : List (String × String)) : (tarLibrary files).Stores files where
  size bytes hbytes := by
    obtain rfl := Except.ok.inj hbytes
    exact length_tarArchive_le files
  entries bytes hbytes := by
    obtain rfl := Except.ok.inj hbytes
    refine ⟨files.map regularEntry, if_pos rfl, ?_⟩
    rw [List.forall₂_map_right_iff, List.forall₂_same]
    exact fun file _ => regularEntry_stored file

theorem writePackage_unitPackage {text : String} (hsize : text.length ≤ 1024 * 1024)
    {library : ArchiveLibrary} {bytes : String}
    (hbytes : library.write (unitPackage text).entries = .ok bytes) :
    writePackage library ⟨.ok (), fun _ => .ok ()⟩ (unitFormat text) (unitPackage text) =
      .ok bytes := by
  have hfirst : text.length ≤ maxBytes - 0 := by
    unfold maxBytes
    omega
  have hsecond : "sela".length ≤ maxBytes - (0 + text.length) := by
    have hlength : "sela".length = 4 := by decide
    unfold maxBytes
    omega
  have hmanifest : addSize 0 ("manifest.json", text) = .ok (0 + text.length) :=
    bind_ok.mpr ⟨(), ensure_ok.mpr hfirst, rfl⟩
  have hmodule : addSize (0 + text.length) ("modules/0.selabc", "sela") =
      .ok (0 + text.length + "sela".length) :=
    bind_ok.mpr ⟨(), ensure_ok.mpr hsecond, rfl⟩
  unfold writePackage
  exact bind_ok.mpr ⟨(), ensure_ok.mpr (by simp [unitPackage, maxFiles]), bind_ok.mpr ⟨_,
    foldlM_cons_ok.mpr ⟨_, hmanifest, foldlM_cons_ok.mpr ⟨_, hmodule, rfl⟩⟩, bind_ok.mpr ⟨_,
    validatePackage_unitPackage hsize, bind_ok.mpr ⟨(), rfl, bind_ok.mpr ⟨_, hbytes, rfl⟩⟩⟩⟩⟩

/-- The package of one unit, archived and read back. -/
theorem readPackage_unitPackage :
    (∀ name ∈ (unitPackage unitManifestText).names, validMember name = true) ∧
      (tarArchive (unitPackage unitManifestText).entries).length ≤ maxBytes + 1024 * 1024 ∧
      readPackage (tarLibrary (unitPackage unitManifestText).entries) "artifact.sela"
        (tarArchive (unitPackage unitManifestText).entries) =
          .ok (unitPackage unitManifestText) :=
  readPackage_writePackage _ _ _ _ "artifact.sela" _
    (writePackage_unitPackage length_unitManifestText rfl) fun _ => tarLibrary_stores _

end Sela
