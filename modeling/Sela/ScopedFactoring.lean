import Sela.ConditionalSpecialization

/-!
# Scoped factoring

`factorScopedModules` puts the modules of several targets into one without proving any
correspondence : the definitions at one position are grouped by their printed text, and
a group that some target lacks is qualified with the targets that have it.

What a target sees of the result is its own module again, definition by definition in
the original order (`factorScopedModules_lossless`). That needs definitions which are not
already cut off from one of the targets, and module flags which name only the module's
own target : a set that a definition brings along stays on a group all targets share
(`factorScopedModules_keeps_foreign_targets`).
-/

namespace Sela

open Checked

/-- A module with the storage identities each target's own are mapped to. -/
structure CommonModule where
  module : Module
  storageIdentities : List (List (String × String))

/-- The records of the module flags. -/
def Module.flags (module : Module) : List Attr :=
  ((module.attributes.get "sela.module_flags").bind Attr.asArray?).getD []

theorem Module.flags_eq {module : Module} (records : List Attr)
    (h : module.attributes.get "sela.module_flags" = some (.array records)) :
    module.flags = records := by
  simp [Module.flags, h, Attr.asArray?]

/-- The definitions at one position, each with its target. -/
def observedAt (modules : List Module) (ids : List String) (index : ℕ) :
    List (String × Definition) :=
  (ids.zip modules).filterMap fun (id, module) => module.body[index]?.map fun definition =>
    (id, definition)

/-- One definition for the targets of a group, qualified unless they are all of them. -/
def scopedCopy (ids : List String) (group : List (String × Definition)) : Option Definition :=
  group.head?.map fun (_, definition) =>
    if group.length ≠ ids.length then
      { definition with
        attributes := definition.attributes.set "targets" (targetSet (group.map Prod.fst)) }
    else definition

/-- The definitions at one position, one for each text. -/
def scopedAt (print : Definition → String) (modules : List Module) (ids : List String)
    (index : ℕ) : List Definition :=
  (Grouping.groupBy (fun entry => print entry.2) (observedAt modules ids index)).filterMap
    fun group => scopedCopy ids group.2

/-- The modules of several targets as one module of qualified definitions. `print` is the
framework's printer; all modules are of one context. -/
def factorScopedModules (print : Definition → String) (modules : List Module)
    (ids : List String) : Checked CommonModule := do
  ensure (modules ≠ [] ∧ modules.length = ids.length)
    "N-target merge: invalid scoped observation inventory"
  let count := (modules.map fun module => module.body.length).foldl max 0
  pure
    { module :=
        { attributes :=
            [("sela.module_flags", .array (modules.flatMap Module.flags)),
              ("sela.schema", .integer 32 1), ("sela.targets", targetSet ids)]
          body := (List.range count).flatMap (scopedAt print modules ids) }
      storageIdentities := [] }

/-! ## What a target sees -/

/-- The same definition up to its printed text and its set of targets. -/
def SameText (print : Definition → String) (result source : Definition) : Prop :=
  ∃ copy, print copy = print source ∧ result.name = copy.name ∧
    result.attributes.erase "targets" = copy.attributes.erase "targets" ∧
    result.regions = copy.regions

/-- Whether a module flag is there for a target. -/
def flagPresentFor (target : String) (record : Attr) : Bool :=
  ((record.asDictionary?.bind (Attributes.get · "targets")).any (containsTarget · target))

/-- Restricted to any target, the result is that target's module; each of its definitions
is there for some target. -/
structure Lossless (print : Definition → String) (modules : List Module) (ids : List String)
    (result : Module) : Prop where
  definitions : ∀ entry ∈ ids.zip modules,
    List.Forall₂ (SameText print) (result.body.filter (presentFor entry.1)) entry.2.body
  flags : ∀ entry ∈ ids.zip modules,
    result.flags.filter (flagPresentFor entry.1) = entry.2.flags
  inhabited : ∀ definition ∈ result.body, ∃ id ∈ ids, presentFor id definition = true

/-- What the targets' modules are expected to be : each definition is there for every
target, and each flag for its own target alone. -/
structure Unscoped (modules : List Module) (ids : List String) : Prop where
  definitions : ∀ module ∈ modules, ∀ definition ∈ module.body, ∀ id ∈ ids,
    presentFor id definition = true
  flags : ∀ entry ∈ ids.zip modules, ∀ record ∈ entry.2.flags, ∀ id ∈ ids,
    flagPresentFor id record = true ↔ id = entry.1

namespace Attributes

@[simp] theorem erase_set_self (name : String) (value : Attr) :
    ∀ attributes : Attributes, erase (set name value attributes) name = erase attributes name
  | [] => by simp [set, erase]
  | (n, a) :: rest => by
    have ih := erase_set_self name value rest
    simp only [erase, ne_eq, decide_not] at ih ⊢
    unfold set
    split
    · simp [*]
    · split <;> simp [*]

end Attributes

/-- Who sees the copy of a group. -/
theorem presentFor_scopedCopy {ids : List String} {group : List (String × Definition)}
    (hpresent : ∀ entry ∈ group, ∀ id ∈ ids, presentFor id entry.2 = true)
    (hsub : (group.map Prod.fst).Sublist ids) {copy : Definition}
    (hcopy : scopedCopy ids group = some copy) {id : String} (hid : id ∈ ids) :
    presentFor id copy = true ↔ id ∈ group.map Prod.fst := by
  obtain ⟨⟨first, definition⟩, hfirst, rfl⟩ := Option.map_eq_some_iff.mp hcopy
  have hmem : (first, definition) ∈ group := List.mem_of_mem_head? hfirst
  dsimp only
  split
  · simp [presentFor]
  · rename_i hall
    have hlength : (group.map Prod.fst).length = ids.length := by simpa using hall
    rw [hsub.eq_of_length hlength]
    simp [hid, hpresent _ hmem id hid]

theorem sameText_scopedCopy {print : Definition → String} {ids : List String}
    {group : List (String × Definition)} {copy source : Definition}
    (hcopy : scopedCopy ids group = some copy)
    (htext : ∀ entry ∈ group, print entry.2 = print source) : SameText print copy source := by
  obtain ⟨⟨first, definition⟩, hfirst, rfl⟩ := Option.map_eq_some_iff.mp hcopy
  have hmem : (first, definition) ∈ group := List.mem_of_mem_head? hfirst
  refine ⟨definition, htext _ hmem, ?_⟩
  dsimp only
  split <;> simp

/-- With distinct identities, the observation of a target at a position is its own. -/
theorem mem_observedAt {modules : List Module} {ids : List String} {index : ℕ} {id : String}
    {definition : Definition} :
    (id, definition) ∈ observedAt modules ids index ↔
      ∃ module, (id, module) ∈ ids.zip modules ∧ module.body[index]? = some definition := by
  simp only [observedAt, List.mem_filterMap, Option.map_eq_some_iff, Prod.exists, Prod.mk.injEq]
  constructor
  · rintro ⟨id', module, hmem, d, hd, rfl, rfl⟩
    exact ⟨module, hmem, hd⟩
  · rintro ⟨module, hmem, hd⟩
    exact ⟨id, module, hmem, definition, hd, rfl, rfl⟩

/-! ## One position -/

theorem map_fst_zip_sublist {α β : Type} :
    ∀ (xs : List α) (ys : List β), ((xs.zip ys).map Prod.fst).Sublist xs
  | [], _ => by simp
  | _ :: _, [] => by simp
  | x :: xs, _ :: ys => (map_fst_zip_sublist xs ys).cons_cons x

theorem observedAt_fst_sublist (modules : List Module) (ids : List String) (index : ℕ) :
    ((observedAt modules ids index).map Prod.fst).Sublist ids := by
  have hmap : (observedAt modules ids index).map Prod.fst =
      ((ids.zip modules).filter fun entry => entry.2.body[index]?.isSome).map Prod.fst := by
    unfold observedAt
    induction ids.zip modules with
    | nil => rfl
    | cons entry rest ih =>
      cases hbody : entry.2.body[index]? <;> simp [hbody, ih]
  rw [hmap]
  exact (List.filter_sublist.map Prod.fst).trans (map_fst_zip_sublist ids modules)

theorem zip_fst_nodup {modules : List Module} {ids : List String} (hids : ids.Nodup) :
    ((ids.zip modules).map Prod.fst).Nodup :=
  hids.sublist (map_fst_zip_sublist ids modules)

/-- A group holds observations of one text. -/
theorem mem_group {print : Definition → String} {modules : List Module} {ids : List String}
    {index : ℕ} {group : String × List (String × Definition)}
    (hgroup : group ∈ Grouping.groupBy (fun entry => print entry.2) (observedAt modules ids index))
    {entry : String × Definition} :
    entry ∈ group.2 ↔ entry ∈ observedAt modules ids index ∧ print entry.2 = group.1 :=
  Grouping.mem_group_iff hgroup

theorem filterMap_eq_singleton {α β : Type} (f : α → Option β) {x : α} {b : β} :
    ∀ {l : List α}, l.Nodup → x ∈ l → f x = some b → (∀ y ∈ l, y ≠ x → f y = none) →
      l.filterMap f = [b]
  | y :: l, hnodup, hx, hb, hother => by
    obtain ⟨hy, hnodup⟩ := List.nodup_cons.mp hnodup
    by_cases hyx : y = x
    · subst hyx
      have hnone : l.filterMap f = [] := List.filterMap_eq_nil_iff.mpr fun z hz =>
        hother z (by simp [hz]) fun h => hy (h ▸ hz)
      simp [hb, hnone]
    · have hl := filterMap_eq_singleton f hnodup (by simpa [Ne.symm hyx] using hx) hb
        fun z hz => hother z (by simp [hz])
      simp [hother y (by simp) hyx, hl]

section Position

variable {print : Definition → String} {modules : List Module} {ids : List String}
  (hunscoped : Unscoped modules ids)
include hunscoped

/-- Whether a target sees the copy of a group is whether it is in the group. -/
theorem presentFor_group {index : ℕ} {group : String × List (String × Definition)}
    (hgroup : group ∈ Grouping.groupBy (fun entry => print entry.2) (observedAt modules ids index))
    {copy : Definition} (hcopy : scopedCopy ids group.2 = some copy) {id : String} (hid : id ∈ ids) :
    presentFor id copy = true ↔ id ∈ group.2.map Prod.fst := by
  refine presentFor_scopedCopy (fun entry hentry id hid => ?_) ?_ hcopy hid
  · obtain ⟨hmem, -⟩ := (mem_group hgroup).mp hentry
    obtain ⟨module, hmodule, hbody⟩ := mem_observedAt.mp hmem
    exact hunscoped.definitions module (List.of_mem_zip hmodule).2 _ (List.mem_of_getElem? hbody) id hid
  · rw [(Grouping.mem_groupBy.mp hgroup).1]
    exact (List.filter_sublist.map Prod.fst).trans (observedAt_fst_sublist modules ids index)

/-- At one position a target sees its own definition, and nothing if it has none there. -/
theorem scopedAt_filter (hids : ids.Nodup) {entry : String × Module} (hentry : entry ∈ ids.zip modules) (index : ℕ) :
    List.Forall₂ (SameText print) ((scopedAt print modules ids index).filter (presentFor entry.1))
      entry.2.body[index]?.toList := by
  obtain ⟨id, module⟩ := entry
  have hid : id ∈ ids := (List.of_mem_zip hentry).1
  have hown : ∀ {definition}, (id, definition) ∈ observedAt modules ids index →
      module.body[index]? = some definition := by
    intro definition hmem
    obtain ⟨module', hmodule', hbody⟩ := mem_observedAt.mp hmem
    have : (id, module') = (id, module) :=
      List.inj_on_of_nodup_map (zip_fst_nodup hids) hmodule' hentry rfl
    rw [← (Prod.mk.inj this).2, hbody]
  unfold scopedAt
  rw [List.filter_filterMap]
  generalize hgroups : Grouping.groupBy (fun entry => print entry.2)
    (observedAt modules ids index) = groups
  -- A group without the target contributes nothing to what it sees.
  have hnone : ∀ group ∈ groups, id ∉ group.2.map Prod.fst →
      (scopedCopy ids group.2).filter (presentFor id) = none := by
    intro group hgroup hnotin
    cases hcopy : scopedCopy ids group.2 with
    | none => rfl
    | some copy =>
      have := (presentFor_group hunscoped (hgroups ▸ hgroup) hcopy hid).not.mpr hnotin
      simpa [Option.filter] using this
  cases hbody : module.body[index]? with
  | none =>
    have hempty : groups.filterMap (fun group => (scopedCopy ids group.2).filter (presentFor id)) =
        [] := by
      refine List.filterMap_eq_nil_iff.mpr fun group hgroup => hnone group hgroup fun hmem => ?_
      obtain ⟨⟨_, definition⟩, hitem, rfl⟩ := List.mem_map.mp hmem
      have := hown ((mem_group (hgroups ▸ hgroup)).mp hitem).1
      simp [hbody] at this
    rw [hempty]
    exact List.Forall₂.nil
  | some definition =>
    have hobserved : (id, definition) ∈ observedAt modules ids index :=
      mem_observedAt.mpr ⟨module, hentry, hbody⟩
    have hgroup : (print definition, (observedAt modules ids index).filter
        fun entry => print entry.2 = print definition) ∈ groups := by
      rw [← hgroups]
      exact Grouping.mem_groupBy.mpr ⟨rfl, List.ne_nil_of_mem
        (List.mem_filter.mpr ⟨hobserved, by simp⟩)⟩
    generalize (observedAt modules ids index).filter _ = items at hgroup
    have hitem : (id, definition) ∈ items :=
      (mem_group (hgroups ▸ hgroup)).mpr ⟨hobserved, rfl⟩
    obtain ⟨copy, hcopy⟩ : ∃ copy, scopedCopy ids items = some copy := by
      cases items with
      | nil => simp at hitem
      | cons first rest => exact ⟨_, rfl⟩
    have hpresent := (presentFor_group hunscoped (hgroups ▸ hgroup) hcopy hid).mpr
      (List.mem_map_of_mem hitem)
    have hsingle := filterMap_eq_singleton
      (fun group : String × List (String × Definition) =>
        (scopedCopy ids group.2).filter (presentFor id))
      (hgroups ▸ List.Nodup.of_map _ (Grouping.groupBy_nodup _ _)) hgroup
      (show _ = some copy by simp [hcopy, Option.filter, hpresent])
      fun other hother hne => hnone other hother fun hmem => hne ?_
    · rw [hsingle]
      refine List.Forall₂.cons (sameText_scopedCopy hcopy fun entry hmem => ?_) List.Forall₂.nil
      exact ((mem_group (hgroups ▸ hgroup)).mp hmem).2
    · -- The groups have distinct texts, and both hold this observation.
      obtain ⟨⟨_, own⟩, hown', rfl⟩ := List.mem_map.mp hmem
      obtain ⟨hobserved', htext⟩ := (mem_group (hgroups ▸ hother)).mp hown'
      obtain rfl : own = definition := by
        have := hown hobserved'
        rw [hbody] at this
        exact (Option.some.inj this).symm
      exact List.inj_on_of_nodup_map (hgroups ▸ Grouping.groupBy_nodup _ _) hother hgroup
        htext.symm

/-- Every copy is there for a target of its group. -/
theorem scopedAt_inhabited {index : ℕ} {copy : Definition}
    (hcopy : copy ∈ scopedAt print modules ids index) :
    ∃ id ∈ ids, presentFor id copy = true := by
  obtain ⟨group, hgroup, hcopy⟩ := List.mem_filterMap.mp hcopy
  obtain ⟨entry, hentry⟩ := List.exists_mem_of_ne_nil _ (Grouping.mem_groupBy.mp hgroup).2
  obtain ⟨module, hmodule, -⟩ := mem_observedAt.mp ((mem_group hgroup).mp hentry).1
  have hid := (List.of_mem_zip hmodule).1
  exact ⟨entry.1, hid, (presentFor_group hunscoped hgroup hcopy hid).mpr
    (List.mem_map_of_mem hentry)⟩

end Position

/-! ## The whole module -/

theorem le_foldl_max :
    ∀ {l : List ℕ} {n : ℕ} (start : ℕ), n ∈ l ∨ n ≤ start → n ≤ l.foldl max start
  | [], n, start, h => by simpa using h
  | m :: l, n, start, h => by
    refine le_foldl_max (max start m) ?_
    rcases h with h | h
    · rcases List.mem_cons.mp h with rfl | h
      · exact Or.inr (Nat.le_max_right _ _)
      · exact Or.inl h
    · exact Or.inr (Nat.le_trans h (Nat.le_max_left _ _))

theorem filter_flags : ∀ {entries : List (String × Module)} {entry : String × Module},
    entry ∈ entries → (entries.map Prod.fst).Nodup →
    (∀ other ∈ entries, ∀ record ∈ other.2.flags,
      flagPresentFor entry.1 record = true ↔ entry.1 = other.1) →
    (entries.flatMap fun other => other.2.flags).filter (flagPresentFor entry.1) = entry.2.flags
  | other :: entries, entry, hentry, hnodup, hflags => by
    obtain ⟨hnotin, hnodup⟩ := List.nodup_cons.mp hnodup
    rw [List.flatMap_cons, List.filter_append]
    by_cases heq : other = entry
    · subst heq
      have hall : other.2.flags.filter (flagPresentFor other.1) = other.2.flags :=
        List.filter_eq_self.mpr fun record hrecord =>
          (hflags other (by simp) record hrecord).mpr rfl
      have hnone : (entries.flatMap fun e => e.2.flags).filter (flagPresentFor other.1) = [] := by
        refine List.filter_eq_nil_iff.mpr fun record hrecord => ?_
        obtain ⟨e, he, hrecord⟩ := List.mem_flatMap.mp hrecord
        rw [hflags e (by simp [he]) record hrecord]
        exact fun h => hnotin (h ▸ List.mem_map_of_mem he)
      rw [hall, hnone, List.append_nil]
    · have hmem : entry ∈ entries := by simpa [Ne.symm heq] using hentry
      have hnone : other.2.flags.filter (flagPresentFor entry.1) = [] := by
        refine List.filter_eq_nil_iff.mpr fun record hrecord => ?_
        rw [hflags other (by simp) record hrecord]
        exact fun h => hnotin (h ▸ List.mem_map_of_mem hmem)
      rw [hnone, List.nil_append]
      exact filter_flags hmem hnodup fun e he => hflags e (by simp [he])

/-- Scoped factoring loses nothing : each target sees its own definitions, in their order,
and its own module flags. -/
theorem factorScopedModules_lossless (print : Definition → String) {modules : List Module}
    {ids : List String} (hids : ids.Nodup) (hunscoped : Unscoped modules ids)
    {result : CommonModule} (h : factorScopedModules print modules ids = .ok result) :
    Lossless print modules ids result.module := by
  unfold factorScopedModules at h
  obtain ⟨_, hlength, h⟩ := bind_ok.mp h
  obtain ⟨-, hlength⟩ := ensure_ok.mp hlength
  obtain rfl : _ = result := Except.ok.inj h
  refine ⟨fun entry hentry => ?_, fun entry hentry => ?_, fun copy hcopy => ?_⟩
  · have hcount : entry.2.body.length ≤
        (modules.map fun module => module.body.length).foldl max 0 :=
      le_foldl_max 0 (Or.inl (List.mem_map_of_mem (List.of_mem_zip hentry).2))
    dsimp only
    rw [List.filter_flatMap, ← flatMap_getElem? hcount]
    exact forall₂_flatMap (List.forall₂_same.mpr fun index _ =>
      scopedAt_filter hunscoped hids hentry index)
  · have hmodules : modules = (ids.zip modules).map Prod.snd := by
      rw [List.map_snd_zip (Nat.le_of_eq hlength)]
    rw [Module.flags_eq (modules.flatMap Module.flags) rfl]
    conv_lhs => rw [hmodules, List.flatMap_map]
    exact filter_flags hentry (zip_fst_nodup hids) fun other hother record hrecord =>
      hunscoped.flags other hother record hrecord _ (List.of_mem_zip hentry).1
  · obtain ⟨index, -, hcopy⟩ := List.mem_flatMap.mp hcopy
    exact scopedAt_inhabited hunscoped hcopy

/-- One global, and one that is cut off from every target but the first. -/
def globals : List Definition :=
  [{ name := "sela.global", attributes := [("id", .string "a")], regions := [] },
    { name := "sela.global"
      attributes := [("id", .string "b"), ("targets", targetSet ["x86_64"])], regions := [] }]

theorem factorScopedModules_lossless_globals :
    Unscoped [⟨[], globals.take 1⟩, ⟨[], globals.take 1⟩, ⟨[], []⟩] ["x86_64", "i686", "armv7"] ∧
    ∃ result, factorScopedModules (fun definition => definition.name)
        [⟨[], globals.take 1⟩, ⟨[], globals.take 1⟩, ⟨[], []⟩] ["x86_64", "i686", "armv7"] =
          .ok result ∧
      Lossless (fun definition => definition.name)
        [⟨[], globals.take 1⟩, ⟨[], globals.take 1⟩, ⟨[], []⟩] ["x86_64", "i686", "armv7"]
        result.module := by
  have hunscoped :
      Unscoped [⟨[], globals.take 1⟩, ⟨[], globals.take 1⟩, ⟨[], []⟩] ["x86_64", "i686", "armv7"] :=
    ⟨by decide, by decide⟩
  exact ⟨hunscoped, _, rfl, factorScopedModules_lossless _ (by decide) hunscoped rfl⟩

/-- A set of targets that a definition brings along stays on the copy all targets share :
a target loses its own definition. -/
theorem factorScopedModules_keeps_foreign_targets :
    ∃ result, factorScopedModules (fun definition => definition.name)
        [⟨[], globals.drop 1⟩, ⟨[], globals.drop 1⟩] ["x86_64", "i686"] = .ok result ∧
      result.module.body.filter (presentFor "i686") = [] ∧
      ¬ Lossless (fun definition => definition.name)
        [⟨[], globals.drop 1⟩, ⟨[], globals.drop 1⟩] ["x86_64", "i686"] result.module := by
  refine ⟨_, rfl, by decide +kernel, fun h => ?_⟩
  have hlength := (h.definitions ("i686", ⟨[], globals.drop 1⟩) (by simp)).length_eq
  exact absurd hlength (by decide +kernel)

end Sela
