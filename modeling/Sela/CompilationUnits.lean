import Sela.Admission
import Sela.KeyedTable
import Sela.NativeConstants

/-!
# Compilation units

A compilation unit comes in fragments. `lowerCompilationUnit` reads each of them, takes its view
for one target and adds the view to the unit : a symbol that several fragments declare has one
definition in it (`combineDefinition`). `Assembles` says what the unit of a list of views is, with
no regard to the order of the work, and `lowerCompilationUnit_ok_iff` that a unit is lowered just
when its fragments are read and their views assemble. The order of the fragments does not matter
where the declarations agree (`assembles_perm`).
-/

namespace Sela

open Checked Stateful Grouping

/-! ## Symbols of a unit -/

/-- The symbol a definition is of. -/
def symbolOf (operation : Definition) : Option String :=
  (operation.attributes.get "id").bind Attr.asString?

def isDeclaration (value : Definition) : Bool :=
  getBool value.attributes "declaration" = some true

/-- The attributes all definitions of a symbol agree on. -/
def nativeAttributes : List String := ["type", "element", "native_abi", "variadic"]

/-- A definition of a symbol joined with what the unit has of the symbol. -/
def combineDefinition (previous operation : Definition) : Checked Definition := do
  ensure (previous.name = operation.name ∧
      (isDeclaration previous = true ∨ isDeclaration operation = true))
    "fragment group has conflicting or duplicate native definitions"
  ensure (∀ name ∈ nativeAttributes,
      previous.attributes.get name = operation.attributes.get name)
    "fragment symbol declarations have incompatible native types"
  if isDeclaration previous = true ∧ isDeclaration operation = true then do
    ensure (previous.attributes = operation.attributes)
      "fragment group has inconsistent symbol declarations"
    pure previous
  else if isDeclaration previous = true then pure operation
  else pure previous

/-- Add a definition to those of a unit. -/
def addDefinition (body : List Definition) (operation : Definition) : Checked (List Definition) := do
  ensure ((symbolOf operation).isSome = true) "fragment definition has no explicit symbol identity"
  KeyedTable.insert symbolOf combineDefinition body operation

/-- A unit while its fragments are added. -/
structure CombinedUnit where
  attributes : Option Attributes
  flags : List Attr
  body : List Definition
  deriving DecidableEq

def moduleFlags (selected : Module) : List Attr :=
  ((selected.attributes.get "sela.module_flags").bind Attr.asArray?).getD []

/-- Add a view to a unit. -/
def addFragment (combined : CombinedUnit) (selected : Module) : Checked CombinedUnit := do
  let attributes := combined.attributes.getD selected.attributes
  let flags := (moduleFlags selected).foldl pushNew combined.flags
  let body ← selected.body.foldlM addDefinition combined.body
  pure ⟨some attributes, flags, body⟩

/-- The module of a unit. -/
def CombinedUnit.module (combined : CombinedUnit) : Module where
  attributes := (combined.attributes.getD []).set "sela.module_flags" (.array combined.flags)
  body := combined.body

/-! ## The run over the fragments -/

/-- Place a module that was read under a new handle. -/
def storeModule (module : Module) : Stateful Context ℕ := do
  let context ← get
  set { modules := Function.update context.modules context.next module
        next := context.next + 1 : Context }
  pure context.next

section Fragments

variable {α : Type} (readArtifact : String → Checked Module) (verify : Module → Bool)
  (validateSchema : Module → Checked Unit)

def readModuleStructure (path : String) : Stateful Context ℕ := do
  let module ← check (readArtifact path)
  let source ← storeModule module
  verifyModuleStructure verify validateSchema source
  pure source

/-- What a target sees of a fragment. -/
def readFragment (target : TargetInfo) (path : String) : Stateful Context Module := do
  let source ← readModuleStructure readArtifact verify validateSchema path
  let selected ← specializeDomains verify source target
  readModule selected

/-- Read the fragments in turn, and add each to the unit before the next is read. -/
def combineFragments (target : TargetInfo) : List String → CombinedUnit → Stateful Context CombinedUnit
  | [], combined => pure combined
  | path :: fragments, combined => do
    let selected ← readFragment readArtifact verify validateSchema target path
    let combined ← check (addFragment combined selected)
    combineFragments target fragments combined

/-- Lower the fragments of a unit as one module. `lowerModule` makes the native module of a
target, which `verifyModule` checks. -/
def lowerCompilationUnit (lowerModule : Module → String → Checked α) (verifyModule : α → Bool)
    (fragments : List String) (profile : String) : Stateful Context α := do
  check (ensure (fragments ≠ [] ∧ fragments.length ≤ 512 ∧ (targets.find profile).isSome = true)
    "invalid Sela compilation-unit contract")
  let combined ← combineFragments readArtifact verify validateSchema (targets.get profile) fragments
    ⟨none, [], []⟩
  let result ← check (lowerModule combined.module profile)
  check (ensure (verifyModule result = true) "reconstructed Sela translation unit is invalid")
  pure result

/-- The views of all fragments. -/
def readFragments (target : TargetInfo) : List String → Stateful Context (List Module)
  | [] => pure []
  | path :: fragments => do
    let selected ← readFragment readArtifact verify validateSchema target path
    let views ← readFragments target fragments
    pure (selected :: views)

end Fragments

/-! ## What stands for a symbol -/

/-- Two definitions may be of one symbol. -/
def SameNative (one other : Definition) : Prop :=
  one.name = other.name ∧
    ∀ name ∈ nativeAttributes, one.attributes.get name = other.attributes.get name

theorem SameNative.symm {one other : Definition} (h : SameNative one other) : SameNative other one :=
  ⟨h.1.symm, fun name hname => (h.2 name hname).symm⟩

theorem SameNative.trans {one other third : Definition} (h : SameNative one other)
    (h' : SameNative other third) : SameNative one third :=
  ⟨h.1.trans h'.1, fun name hname => (h.2 name hname).trans (h'.2 name hname)⟩

theorem sameNative_of_attributes {one other : Definition} (hname : one.name = other.name)
    (hattributes : one.attributes = other.attributes) : SameNative one other :=
  ⟨hname, fun _ _ => by rw [hattributes]⟩

theorem isDeclaration_congr {one other : Definition} (h : one.attributes = other.attributes) :
    isDeclaration one = isDeclaration other := by
  unfold isDeclaration
  rw [h]

/-- The definition that stands for the appearances of a symbol : the first of declarations alike,
or the one that is no declaration. The declarations before it are alike, and those after it agree
with it in the native attributes only. -/
inductive Represents (items : List Definition) (result : Definition) : Prop
  | declared (rest : List Definition) (hitems : items = result :: rest)
    (hresult : isDeclaration result = true)
    (hrest : ∀ item ∈ rest, item.name = result.name ∧ item.attributes = result.attributes)
  | defined (before after : List Definition) (hitems : items = before ++ result :: after)
    (hresult : isDeclaration result = false)
    (hothers : ∀ item ∈ before ++ after, isDeclaration item = true ∧ SameNative item result)
    (hbefore : ∀ item ∈ before, ∀ other ∈ before, item.attributes = other.attributes)

theorem combineDefinition_ok {previous operation result : Definition} :
    combineDefinition previous operation = .ok result ↔
      SameNative previous operation ∧
        ((isDeclaration previous = true ∧ isDeclaration operation = true ∧
            previous.attributes = operation.attributes ∧ result = previous) ∨
          (isDeclaration previous = true ∧ isDeclaration operation = false ∧ result = operation) ∨
          (isDeclaration previous = false ∧ isDeclaration operation = true ∧ result = previous)) := by
  unfold combineDefinition SameNative
  simp only [bind_ok, ensure_ok]
  cases hprevious : isDeclaration previous <;> cases hoperation : isDeclaration operation <;>
    simp [bind_ok, and_assoc, @eq_comm _ result]

/-- One more appearance of a symbol is joined with what stands for those before. -/
theorem represents_concat {items : List Definition} {operation result : Definition}
    (hitems : items ≠ []) : Represents (items ++ [operation]) result ↔
      ∃ previous, Represents items previous ∧ combineDefinition previous operation = .ok result := by
  constructor
  · rintro (⟨rest, heq, hresult, hrest⟩ | ⟨before, after, heq, hresult, hothers, hbefore⟩)
    · obtain ⟨first, items, rfl⟩ := List.exists_cons_of_ne_nil hitems
      obtain ⟨rfl, rfl⟩ := List.cons_eq_cons.mp heq
      obtain ⟨hname, hattributes⟩ := hrest operation (by simp)
      exact ⟨first, .declared items rfl hresult fun item hitem => hrest item (by simp [hitem]),
        combineDefinition_ok.mpr ⟨(sameNative_of_attributes hname hattributes).symm,
          .inl ⟨hresult, (isDeclaration_congr hattributes).trans hresult, hattributes.symm, rfl⟩⟩⟩
    · rcases List.eq_nil_or_concat' after with rfl | ⟨after, last, rfl⟩
      · obtain ⟨rfl, hlast⟩ := List.append_inj' heq rfl
        obtain rfl : operation = result := by simpa using hlast
        obtain ⟨first, items, rfl⟩ := List.exists_cons_of_ne_nil hitems
        obtain ⟨hdeclaration, hsame⟩ := hothers first (by simp)
        have hrest : ∀ item ∈ items, item.name = first.name ∧ item.attributes = first.attributes :=
          fun item hitem =>
            ⟨((hothers item (by simp [hitem])).2.trans hsame.symm).1,
              hbefore item (by simp [hitem]) first (by simp)⟩
        exact ⟨first, .declared items rfl hdeclaration hrest,
          combineDefinition_ok.mpr ⟨hsame, .inr (.inl ⟨hdeclaration, hresult, rfl⟩)⟩⟩
      · have heq : items ++ [operation] = (before ++ result :: after) ++ [last] := by simpa using heq
        obtain ⟨rfl, hlast⟩ := List.append_inj' heq rfl
        obtain rfl : operation = last := by simpa using hlast
        obtain ⟨hdeclaration, hsame⟩ := hothers operation (by simp)
        refine ⟨result, .defined before after rfl hresult (fun item hitem => hothers item ?_) hbefore,
          combineDefinition_ok.mpr ⟨hsame.symm, .inr (.inr ⟨hresult, hdeclaration, rfl⟩)⟩⟩
        rw [← List.append_assoc]
        exact List.mem_append_left _ hitem
  · rintro ⟨previous, hprevious, hcombine⟩
    obtain ⟨hsame, hcombine⟩ := combineDefinition_ok.mp hcombine
    cases hprevious with
    | declared rest hitems hdeclaration hrest =>
      subst hitems
      rcases hcombine with ⟨-, -, hattributes, rfl⟩ | ⟨-, hoperation, rfl⟩ | ⟨hfalse, -⟩
      · refine .declared (rest ++ [operation]) rfl hdeclaration fun item hitem => ?_
        rcases List.mem_append.mp hitem with hitem | hitem
        · exact hrest item hitem
        · obtain rfl := List.mem_singleton.mp hitem
          exact ⟨hsame.1.symm, hattributes.symm⟩
      · have hall : ∀ item ∈ previous :: rest,
            item.name = previous.name ∧ item.attributes = previous.attributes :=
          List.forall_mem_cons.mpr ⟨⟨rfl, rfl⟩, hrest⟩
        refine .defined (previous :: rest) [] rfl hoperation (fun item hitem => ?_)
          fun item hitem other hother => (hall item hitem).2.trans (hall other hother).2.symm
        obtain ⟨hname, hattributes⟩ := hall item (by simpa using hitem)
        exact ⟨(isDeclaration_congr hattributes).trans hdeclaration,
          (sameNative_of_attributes hname hattributes).trans hsame⟩
      · rw [hdeclaration] at hfalse
        cases hfalse
    | defined before after hitems hdefinition hothers hbefore =>
      subst hitems
      rcases hcombine with ⟨htrue, -⟩ | ⟨htrue, -⟩ | ⟨-, hoperation, rfl⟩
      · rw [hdefinition] at htrue
        cases htrue
      · rw [hdefinition] at htrue
        cases htrue
      · refine .defined before (after ++ [operation]) (by simp) hdefinition (fun item hitem => ?_) hbefore
        rw [← List.append_assoc] at hitem
        rcases List.mem_append.mp hitem with hitem | hitem
        · exact hothers item hitem
        · obtain rfl := List.mem_singleton.mp hitem
          exact ⟨hoperation, hsame.symm⟩

theorem represents_singleton {item result : Definition} : Represents [item] result ↔ item = result := by
  constructor
  · rintro (⟨rest, heq, -, -⟩ | ⟨before, after, heq, -, -, -⟩)
    · exact (List.cons_eq_cons.mp heq).1
    · have hmem : result ∈ [item] := heq ▸ List.mem_append_right _ List.mem_cons_self
      exact (List.mem_singleton.mp hmem).symm
  · rintro rfl
    cases hdeclaration : isDeclaration item
    · exact .defined [] [] rfl hdeclaration (by simp) (by simp)
    · exact .declared [] rfl hdeclaration (by simp)

/-- What the appearances of a symbol are joined to stands for them. -/
theorem foldlM_combineDefinition_ok {first result : Definition} {rest : List Definition} :
    rest.foldlM combineDefinition first = .ok result ↔ Represents (first :: rest) result := by
  induction rest using List.reverseRecOn generalizing result with
  | nil =>
    rw [represents_singleton, foldlM_nil]
    exact ⟨Except.ok.inj, congrArg _⟩
  | append_singleton rest operation ih =>
    rw [foldlM_append_ok, ← List.cons_append, represents_concat (List.cons_ne_nil _ _)]
    refine exists_congr fun previous => and_congr ih ?_
    rw [foldlM_cons_ok]
    exact ⟨fun ⟨_, hcombine, h⟩ => Except.ok.inj h ▸ hcombine, fun h => ⟨result, h, rfl⟩⟩

theorem joined_iff_represents {items : List Definition} {symbol : Option String} {result : Definition} :
    KeyedTable.joined symbolOf combineDefinition items symbol result ↔
      Represents (items.filter fun item => symbolOf item = symbol) result := by
  constructor
  · rintro ⟨first, rest, hfilter, hfold⟩
    rw [hfilter]
    exact foldlM_combineDefinition_ok.mp hfold
  · intro h
    have hne : (items.filter fun item => symbolOf item = symbol) ≠ [] := by
      rintro hnil
      rw [hnil] at h
      cases h with
      | declared rest hitems => cases hitems
      | defined before after hitems => simp at hitems
    obtain ⟨first, rest, hfilter⟩ := List.exists_cons_of_ne_nil hne
    exact ⟨first, rest, hfilter, foldlM_combineDefinition_ok.mpr (hfilter ▸ h)⟩

theorem symbolOf_combineDefinition {previous operation result : Definition}
    (h : combineDefinition previous operation = .ok result) (hsame : symbolOf previous = symbolOf operation) :
    symbolOf result = symbolOf previous := by
  obtain ⟨-, ⟨-, -, -, rfl⟩ | ⟨-, -, rfl⟩ | ⟨-, -, rfl⟩⟩ := combineDefinition_ok.mp h
  · rfl
  · exact hsame.symm
  · rfl

/-! ## The unit of a list of views -/

/-- A unit of a list of views : each symbol of the views has one definition, in the order in which
the symbols first appear; the attributes are those of the first view, and the flags those of
all. -/
structure Assembles (views : List Module) (unit : Module) : Prop where
  identified : ∀ view ∈ views, ∀ operation ∈ view.body, (symbolOf operation).isSome = true
  symbols : unit.body.map symbolOf = distinct ((views.flatMap Module.body).map symbolOf)
  represents : ∀ operation ∈ unit.body, Represents
    ((views.flatMap Module.body).filter fun item => symbolOf item = symbolOf operation) operation
  attributes : ∃ first rest, views = first :: rest ∧ unit.attributes =
    first.attributes.set "sela.module_flags" (.array (distinct (views.flatMap moduleFlags)))

theorem foldlM_addDefinition_ok : ∀ {operations body body' : List Definition},
    operations.foldlM addDefinition body = .ok body' ↔
      (∀ operation ∈ operations, (symbolOf operation).isSome = true) ∧
        operations.foldlM (KeyedTable.insert symbolOf combineDefinition) body = .ok body'
  | [], _, _ => by simp
  | operation :: operations, body, body' => by
    rw [foldlM_cons_ok, foldlM_cons_ok, List.forall_mem_cons]
    constructor
    · rintro ⟨middle, hadd, hfold⟩
      obtain ⟨_, hsymbol, hinsert⟩ := bind_ok.mp hadd
      obtain ⟨hrest, hfold⟩ := foldlM_addDefinition_ok.mp hfold
      exact ⟨⟨ensure_ok.mp hsymbol, hrest⟩, middle, hinsert, hfold⟩
    · rintro ⟨⟨hsymbol, hrest⟩, middle, hinsert, hfold⟩
      exact ⟨middle, bind_ok.mpr ⟨(), ensure_ok.mpr hsymbol, hinsert⟩,
        foldlM_addDefinition_ok.mpr ⟨hrest, hfold⟩⟩

theorem foldlM_addFragment_ok : ∀ {views : List Module} {start combined : CombinedUnit},
    views.foldlM addFragment start = .ok combined ↔
      combined.attributes = start.attributes.or (views.head?.map Module.attributes) ∧
        combined.flags = (views.flatMap moduleFlags).foldl pushNew start.flags ∧
        (views.flatMap Module.body).foldlM addDefinition start.body = .ok combined.body
  | [], start, combined => by
    simp only [foldlM_nil, List.head?_nil, Option.map_none, Option.or_none, List.flatMap_nil,
      List.foldl_nil]
    constructor
    · intro h
      obtain rfl := Except.ok.inj h
      exact ⟨rfl, rfl, rfl⟩
    · rintro ⟨hattributes, hflags, hbody⟩
      obtain ⟨attributes, flags, body⟩ := combined
      obtain rfl := hattributes
      obtain rfl := hflags
      obtain rfl := Except.ok.inj hbody
      rfl
  | view :: views, start, combined => by
    have hattributes (other : Option Attributes) : (some (start.attributes.getD view.attributes)).or other =
        start.attributes.or (some view.attributes) := by
      cases start.attributes <;> rfl
    rw [foldlM_cons_ok, List.flatMap_cons, List.flatMap_cons, List.foldl_append, foldlM_append_ok]
    constructor
    · rintro ⟨middle, hadd, hfold⟩
      obtain ⟨body, hbody, hmiddle⟩ := bind_ok.mp hadd
      obtain rfl := Except.ok.inj hmiddle
      obtain ⟨hcombined, hflags, hrest⟩ := foldlM_addFragment_ok.mp hfold
      exact ⟨hcombined.trans (hattributes _), hflags, body, hbody, hrest⟩
    · rintro ⟨hcombined, hflags, body, hbody, hrest⟩
      exact ⟨_, bind_ok.mpr ⟨body, hbody, rfl⟩,
        foldlM_addFragment_ok.mpr ⟨hcombined.trans (hattributes _).symm, hflags, hrest⟩⟩

/-- Views add up to a unit just when they assemble to it. -/
theorem foldlM_addFragment_iff {views : List Module} {unit : Module} (hviews : views ≠ []) :
    (∃ combined, views.foldlM addFragment ⟨none, [], []⟩ = .ok combined ∧ combined.module = unit) ↔
      Assembles views unit := by
  obtain ⟨first, rest, rfl⟩ := List.exists_cons_of_ne_nil hviews
  have hcollect {body : List Definition} :
      ((first :: rest).flatMap Module.body).foldlM (KeyedTable.insert symbolOf combineDefinition) [] =
          .ok body ↔ KeyedTable.Holds symbolOf combineDefinition ((first :: rest).flatMap Module.body) body :=
    KeyedTable.collect_ok_iff symbolOf_combineDefinition
  constructor
  · rintro ⟨combined, hfold, rfl⟩
    obtain ⟨hattributes, hflags, hbody⟩ := foldlM_addFragment_ok.mp hfold
    obtain ⟨hidentified, hbody⟩ := foldlM_addDefinition_ok.mp hbody
    have hholds := hcollect.mp hbody
    refine ⟨fun view hview operation hoperation =>
      hidentified operation (List.mem_flatMap.mpr ⟨view, hview, hoperation⟩), hholds.keys,
      fun operation hoperation => joined_iff_represents.mp (hholds.joined operation hoperation),
      first, rest, rfl, ?_⟩
    rw [CombinedUnit.module, hattributes, hflags]
    rfl
  · rintro ⟨hidentified, hsymbols, hrepresents, first', rest', heq, hattributes⟩
    obtain ⟨rfl, rfl⟩ := List.cons_eq_cons.mp heq
    refine ⟨⟨some first.attributes, distinct ((first :: rest).flatMap moduleFlags), unit.body⟩,
      foldlM_addFragment_ok.mpr ⟨rfl, rfl, foldlM_addDefinition_ok.mpr ⟨fun operation hoperation => ?_,
        hcollect.mpr ⟨hsymbols, fun operation hoperation =>
          joined_iff_represents.mpr (hrepresents operation hoperation)⟩⟩⟩, ?_⟩
    · obtain ⟨view, hview, hmem⟩ := List.mem_flatMap.mp hoperation
      exact hidentified view hview operation hmem
    · obtain ⟨attributes, body⟩ := unit
      obtain rfl := hattributes
      rfl

/-! ## The order of the fragments -/

/-- The declarations of one symbol are alike. -/
def DeclarationsAgree (views : List Module) : Prop :=
  ∀ one ∈ views.flatMap Module.body, ∀ other ∈ views.flatMap Module.body,
    symbolOf one = symbolOf other → isDeclaration one = true → isDeclaration other = true → one = other

/-- What stands for the appearances of a symbol stands for them in any order. -/
theorem Represents.perm {items items' : List Definition} {result : Definition}
    (hperm : items.Perm items') (hagree : ∀ one ∈ items, ∀ other ∈ items,
      isDeclaration one = true → isDeclaration other = true → one = other)
    (h : Represents items result) : Represents items' result := by
  rcases h with ⟨rest, rfl, hresult, hrest⟩ | ⟨before, after, rfl, hresult, hothers, -⟩
  · have hall : ∀ item ∈ items', item = result := by
      intro item hitem
      rcases List.mem_cons.mp (hperm.mem_iff.mpr hitem) with rfl | hmem
      · rfl
      · exact hagree _ (List.mem_cons_of_mem _ hmem) _ List.mem_cons_self
          ((isDeclaration_congr (hrest item hmem).2).trans hresult) hresult
    obtain ⟨first, others, rfl⟩ := List.exists_cons_of_ne_nil
      (List.ne_nil_of_mem (hperm.mem_iff.mp List.mem_cons_self))
    obtain ⟨rfl, hothers⟩ := List.forall_mem_cons.mp hall
    exact .declared others rfl hresult fun item hitem => by simp [hothers item hitem]
  · obtain ⟨before', after', rfl⟩ :=
      List.append_of_mem (hperm.mem_iff.mp (List.mem_append_right before List.mem_cons_self))
    have hrest : (before ++ after).Perm (before' ++ after') :=
      ((List.perm_middle.symm.trans hperm).trans List.perm_middle).cons_inv
    have hothers : ∀ item ∈ before' ++ after', isDeclaration item = true ∧ SameNative item result :=
      fun item hitem => hothers item (hrest.mem_iff.mpr hitem)
    refine .defined before' after' rfl hresult hothers fun item hitem other hother => ?_
    rw [hagree item (hperm.mem_iff.mpr (List.mem_append_left _ hitem)) other
      (hperm.mem_iff.mpr (List.mem_append_left _ hother)) (hothers item (by simp [hitem])).1
      (hothers other (by simp [hother])).1]

theorem Represents.mem {items : List Definition} {result : Definition} (h : Represents items result) :
    result ∈ items := by
  rcases h with ⟨rest, rfl, -, -⟩ | ⟨before, after, rfl, -, -, -⟩ <;> simp

theorem Assembles.nodup {views : List Module} {unit : Module} (h : Assembles views unit) :
    unit.body.Nodup :=
  List.Nodup.of_map symbolOf (h.symbols ▸ (distinct_spec _).nodup)

/-- A unit has what stands for the appearances of each symbol, and nothing else. -/
theorem Assembles.mem_iff {views : List Module} {unit : Module} (h : Assembles views unit)
    {operation : Definition} : operation ∈ unit.body ↔ Represents
      ((views.flatMap Module.body).filter fun item => symbolOf item = symbolOf operation) operation := by
  refine ⟨h.represents operation, fun hrepresents => ?_⟩
  have hsymbol : symbolOf operation ∈ unit.body.map symbolOf := by
    rw [h.symbols, KeyedTable.mem_distinct]
    exact List.mem_map_of_mem (List.mem_of_mem_filter hrepresents.mem)
  obtain ⟨other, hother, hsame⟩ := List.mem_map.mp hsymbol
  have hthere := h.represents other hother
  rw [hsame] at hthere
  rwa [KeyedTable.joined_unique (joined_iff_represents.mpr hrepresents)
    (joined_iff_represents.mpr hthere)]

/-- Where the declarations of each symbol are alike, a unit has the same definitions and flags for
its fragments in any order. -/
theorem assembles_perm {views views' : List Module} {unit : Module} (hperm : views.Perm views')
    (hagree : DeclarationsAgree views) (h : Assembles views unit) :
    ∃ unit', Assembles views' unit' ∧ unit'.body.Perm unit.body ∧
      ∀ flag, flag ∈ moduleFlags unit' ↔ flag ∈ moduleFlags unit := by
  have hitems : (views.flatMap Module.body).Perm (views'.flatMap Module.body) := hperm.flatMap_right _
  have hrepresents {symbol : Option String} {operation : Definition} :
      Represents ((views.flatMap Module.body).filter fun item => symbolOf item = symbol) operation ↔
        Represents ((views'.flatMap Module.body).filter fun item => symbolOf item = symbol) operation := by
    have hsame : ∀ one ∈ (views.flatMap Module.body).filter fun item => symbolOf item = symbol,
        ∀ other ∈ (views.flatMap Module.body).filter fun item => symbolOf item = symbol,
          isDeclaration one = true → isDeclaration other = true → one = other := by
      intro one hone other hother
      obtain ⟨hone, hsymbol⟩ := List.mem_filter.mp hone
      obtain ⟨hother, hsymbol'⟩ := List.mem_filter.mp hother
      exact hagree one hone other hother
        ((of_decide_eq_true hsymbol).trans (of_decide_eq_true hsymbol').symm)
    have hfilter := hitems.filter fun item => symbolOf item = symbol
    exact ⟨Represents.perm hfilter hsame, Represents.perm hfilter.symm fun one hone other hother =>
      hsame one (hfilter.mem_iff.mpr hone) other (hfilter.mem_iff.mpr hother)⟩
  obtain ⟨first, rest, rfl, hattributes⟩ := h.attributes
  obtain ⟨first', rest', rfl⟩ := List.exists_cons_of_ne_nil
    (List.ne_nil_of_mem (hperm.mem_iff.mp List.mem_cons_self))
  have hjoined : ∀ item ∈ (first' :: rest').flatMap Module.body, ∃ operation,
      KeyedTable.joined symbolOf combineDefinition ((first' :: rest').flatMap Module.body)
        (symbolOf item) operation := by
    intro item hitem
    have hsymbol : symbolOf item ∈ unit.body.map symbolOf := by
      rw [h.symbols, KeyedTable.mem_distinct]
      exact List.mem_map_of_mem (hitems.mem_iff.mpr hitem)
    obtain ⟨operation, hoperation, hsame⟩ := List.mem_map.mp hsymbol
    exact ⟨operation, joined_iff_represents.mpr
      (hrepresents.mp (hsame ▸ h.represents operation hoperation))⟩
  obtain ⟨body, hbody⟩ := KeyedTable.collect_isOk symbolOf_combineDefinition hjoined
  have hholds := KeyedTable.holds_of_collect symbolOf_combineDefinition hbody
  have hunit : Assembles (first' :: rest')
      ⟨first'.attributes.set "sela.module_flags"
        (.array (distinct ((first' :: rest').flatMap moduleFlags))), body⟩ :=
    ⟨fun view hview => h.identified view (hperm.mem_iff.mpr hview), hholds.keys,
      fun operation hoperation => joined_iff_represents.mp (hholds.joined operation hoperation),
      first', rest', rfl, rfl⟩
  refine ⟨_, hunit, (List.perm_ext_iff_of_nodup hunit.nodup h.nodup).mpr fun operation => ?_,
    fun flag => ?_⟩
  · rw [hunit.mem_iff, h.mem_iff, hrepresents]
  · have hflags (attributes : Attributes) (flags : List Attr) (body : List Definition) :
        moduleFlags ⟨attributes.set "sela.module_flags" (.array flags), body⟩ = flags := by
      simp [moduleFlags, Attr.asArray?]
    obtain ⟨attributes, body'⟩ := unit
    obtain rfl := hattributes
    rw [hflags, hflags, KeyedTable.mem_distinct, KeyedTable.mem_distinct]
    exact (hperm.flatMap_right moduleFlags).mem_iff.symm

theorem moduleFlags_module (combined : CombinedUnit) : moduleFlags combined.module = combined.flags := by
  simp [moduleFlags, CombinedUnit.module, Attr.asArray?]

/-- Views whose declarations of each symbol are alike add up in any order, and to the same
definitions and flags. -/
theorem foldlM_addFragment_perm {views views' : List Module} {combined : CombinedUnit}
    (hperm : views.Perm views') (hagree : DeclarationsAgree views)
    (h : views.foldlM addFragment ⟨none, [], []⟩ = .ok combined) :
    ∃ combined', views'.foldlM addFragment ⟨none, [], []⟩ = .ok combined' ∧
      combined'.body.Perm combined.body ∧
      ∀ flag, flag ∈ combined'.flags ↔ flag ∈ combined.flags := by
  by_cases hne : views = []
  · subst hne
    obtain rfl := hperm.nil_eq
    exact ⟨combined, h, .refl _, fun _ => .rfl⟩
  · have hassembles := (foldlM_addFragment_iff hne).mp ⟨combined, h, rfl⟩
    obtain ⟨unit, hunit, hbody, hflags⟩ := assembles_perm hperm hagree hassembles
    obtain ⟨combined', hfold, rfl⟩ :=
      (foldlM_addFragment_iff fun hnil => hne (hnil ▸ hperm).eq_nil).mpr hunit
    simp only [moduleFlags_module] at hflags
    exact ⟨combined', hfold, hbody, hflags⟩

/-- A fragment that calls a function and one that defines it. -/
def callerView : Module where
  attributes := [("sela.module_flags", .array [.string "pic"])]
  body := [
    ⟨"sela.func", [("id", .string "caller"), ("type", .foreign (.other "fn"))], []⟩,
    ⟨"sela.func", [("declaration", .integer 1 1), ("id", .string "callee"), ("type", .foreign (.other "fn"))], []⟩]

def calleeView : Module where
  attributes := [("sela.module_flags", .array [.string "wchar", .string "pic"])]
  body := [⟨"sela.func", [("id", .string "callee"), ("type", .foreign (.other "fn"))], []⟩]

theorem calleeView_callerView : ∃ combined,
    [calleeView, callerView].foldlM addFragment ⟨none, [], []⟩ = .ok combined ∧
      combined.body.Perm [
        ⟨"sela.func", [("id", .string "caller"), ("type", .foreign (.other "fn"))], []⟩,
        ⟨"sela.func", [("id", .string "callee"), ("type", .foreign (.other "fn"))], []⟩] := by
  obtain ⟨combined, hfold, hbody, -⟩ := foldlM_addFragment_perm
    (List.Perm.swap calleeView callerView []) (by unfold DeclarationsAgree; decide +kernel)
    (show [callerView, calleeView].foldlM addFragment ⟨none, [], []⟩ =
      .ok ⟨some callerView.attributes, [.string "pic", .string "wchar"], [
        ⟨"sela.func", [("id", .string "caller"), ("type", .foreign (.other "fn"))], []⟩,
        ⟨"sela.func", [("id", .string "callee"), ("type", .foreign (.other "fn"))], []⟩]⟩ by decide +kernel)
  exact ⟨combined, hfold, hbody⟩

/-! ## Runs -/

theorem exec_combineFragments_ok {readArtifact : String → Checked Module} {verify : Module → Bool}
    {validateSchema : Module → Checked Unit} {target : TargetInfo} :
    ∀ {fragments : List String} {combined result : CombinedUnit} {context context' : Context},
      exec (combineFragments readArtifact verify validateSchema target fragments combined) context =
          (.ok result, context') ↔
        ∃ views, exec (readFragments readArtifact verify validateSchema target fragments) context =
          (.ok views, context') ∧ views.foldlM addFragment combined = .ok result
  | [], combined, result, context, context' => by
    unfold combineFragments readFragments
    rw [exec_pure, exec_pure]
    constructor
    · intro h
      obtain ⟨hresult, rfl⟩ := Prod.mk.inj h
      exact ⟨[], rfl, hresult⟩
    · rintro ⟨views, hviews, hfold⟩
      obtain ⟨hnil, rfl⟩ := Prod.mk.inj hviews
      obtain rfl := Except.ok.inj hnil
      exact Prod.ext hfold rfl
  | path :: fragments, combined, result, context, context' => by
    unfold combineFragments readFragments
    rw [exec_bind_ok]
    constructor
    · rintro ⟨selected, middle, hselected, h⟩
      obtain ⟨added, hadded, h⟩ := exec_check_bind_ok.mp h
      obtain ⟨views, hviews, hfold⟩ := exec_combineFragments_ok.mp h
      exact ⟨selected :: views,
        exec_bind_ok.mpr ⟨selected, middle, hselected, exec_bind_ok.mpr ⟨views, context', hviews, rfl⟩⟩,
        foldlM_cons_ok.mpr ⟨added, hadded, hfold⟩⟩
    · rintro ⟨views, h, hfold⟩
      obtain ⟨selected, middle, hselected, h⟩ := exec_bind_ok.mp h
      obtain ⟨rest, last, hrest, h⟩ := exec_bind_ok.mp h
      obtain ⟨hviews, rfl⟩ := Prod.mk.inj h
      obtain rfl := Except.ok.inj hviews
      obtain ⟨added, hadded, hfold⟩ := foldlM_cons_ok.mp hfold
      exact ⟨selected, middle, hselected, exec_check_bind_ok.mpr ⟨added, hadded,
        exec_combineFragments_ok.mpr ⟨rest, hrest, hfold⟩⟩⟩

theorem length_readFragments {readArtifact : String → Checked Module} {verify : Module → Bool}
    {validateSchema : Module → Checked Unit} {target : TargetInfo} :
    ∀ {fragments : List String} {views : List Module} {context context' : Context},
      exec (readFragments readArtifact verify validateSchema target fragments) context =
        (.ok views, context') → views.length = fragments.length
  | [], views, context, context', h => by
    obtain ⟨hviews, -⟩ := Prod.mk.inj h
    obtain rfl := Except.ok.inj hviews
    rfl
  | path :: fragments, views, context, context', h => by
    unfold readFragments at h
    obtain ⟨selected, middle, -, h⟩ := exec_bind_ok.mp h
    obtain ⟨rest, last, hrest, h⟩ := exec_bind_ok.mp h
    obtain ⟨hviews, -⟩ := Prod.mk.inj h
    obtain rfl := Except.ok.inj hviews
    rw [List.length_cons, List.length_cons, length_readFragments hrest]

/-- A unit is lowered just when each of its fragments is read and seen by the target, and the views
assemble to a module that is lowered to a valid one. -/
theorem lowerCompilationUnit_ok_iff {α : Type} {readArtifact : String → Checked Module}
    {verify : Module → Bool} {validateSchema : Module → Checked Unit}
    {lowerModule : Module → String → Checked α} {verifyModule : α → Bool} {fragments : List String}
    {profile : String} {native : α} {context context' : Context} :
    exec (lowerCompilationUnit readArtifact verify validateSchema lowerModule verifyModule fragments
        profile) context = (.ok native, context') ↔
      (fragments ≠ [] ∧ fragments.length ≤ 512 ∧ (targets.find profile).isSome = true) ∧
        ∃ views unit,
          exec (readFragments readArtifact verify validateSchema (targets.get profile) fragments)
            context = (.ok views, context') ∧
          Assembles views unit ∧ lowerModule unit profile = .ok native ∧ verifyModule native = true := by
  unfold lowerCompilationUnit
  rw [exec_check_bind_ok]
  constructor
  · rintro ⟨_, hcontract, h⟩
    have hcontract := ensure_ok.mp hcontract
    obtain ⟨combined, middle, hcombined, h⟩ := exec_bind_ok.mp h
    obtain ⟨result, hlower, h⟩ := exec_check_bind_ok.mp h
    obtain ⟨_, hverified, h⟩ := exec_check_bind_ok.mp h
    obtain ⟨hresult, rfl⟩ := Prod.mk.inj h
    obtain rfl := Except.ok.inj hresult
    obtain ⟨views, hviews, hfold⟩ := exec_combineFragments_ok.mp hcombined
    have hne : views ≠ [] := by
      rintro rfl
      exact hcontract.1 (List.length_eq_zero_iff.mp (length_readFragments hviews).symm)
    exact ⟨hcontract, views, combined.module, hviews,
      (foldlM_addFragment_iff hne).mp ⟨combined, hfold, rfl⟩, hlower, ensure_ok.mp hverified⟩
  · rintro ⟨hcontract, views, unit, hviews, hassembles, hlower, hverified⟩
    have hne : views ≠ [] := by
      rintro rfl
      exact hcontract.1 (List.length_eq_zero_iff.mp (length_readFragments hviews).symm)
    obtain ⟨combined, hfold, rfl⟩ := (foldlM_addFragment_iff hne).mpr hassembles
    refine ⟨(), ensure_ok.mpr hcontract, exec_bind_ok.mpr ⟨combined, context',
      exec_combineFragments_ok.mpr ⟨views, hviews, hfold⟩, ?_⟩⟩
    exact exec_check_bind_ok.mpr ⟨native, hlower, exec_check_bind_ok.mpr ⟨(), ensure_ok.mpr hverified, rfl⟩⟩

end Sela
