import Mathlib.Data.List.Perm.Subperm
import Sela.TypeMerge

/-!
# Merging and specializing again

What a merge makes of the observations, specialized for one of the targets, is what that
target was observed to have, with each storage identity replaced by the shared one it
stands for. Where the observations have no common shape the merge keeps what each target
has as it is : there an identity stays what it was (`Merger.returned`,
`Merger.returnedAttr`), so the round trip holds exactly when each identity kept is its own
image (`Merger.mergeType_roundTrips`, `Merger.mergeAttribute_roundTrips`). All of it holds in
every run of one merge (`Merger.reaches_roundTrips`).
-/

namespace Stateful

variable {σ α β : Type}

/-- A traversal of steps that each lead on, with what each step leaves true from then on. -/
theorem exec_mapM_ok {R : σ → σ → Prop} (hrefl : ∀ s, R s s)
    (htrans : ∀ s t u, R s t → R t u → R s u) {f : α → Stateful σ β} {Q : α → β → σ → Prop} :
    ∀ {xs : List α} {s t : σ} {ys : List β},
      (∀ x ∈ xs, ∀ s y t, exec (f x) s = (.ok y, t) → R s t ∧ ∀ later, R t later → Q x y later) →
      exec (xs.mapM f) s = (.ok ys, t) →
      R s t ∧ ∀ later, R t later → List.Forall₂ (fun x y => Q x y later) xs ys
  | [], s, t, ys, _, h => by
    rw [List.mapM_nil, exec_pure] at h
    obtain ⟨hys, rfl⟩ := Prod.mk.inj h
    obtain rfl := Except.ok.inj hys
    exact ⟨hrefl _, fun _ _ => .nil⟩
  | x :: xs, s, t, ys, hstep, h => by
    rw [List.mapM_cons] at h
    obtain ⟨y, u, hy, h⟩ := exec_bind_ok.mp h
    obtain ⟨ys', v, hys, h⟩ := exec_bind_ok.mp h
    obtain ⟨hcons, rfl⟩ := Prod.mk.inj h
    obtain rfl := Except.ok.inj hcons
    obtain ⟨hhead, hrest⟩ := List.forall_mem_cons.mp hstep
    obtain ⟨hfirst, hQ⟩ := hhead _ _ _ hy
    obtain ⟨hsecond, hQs⟩ := exec_mapM_ok hrefl htrans hrest hys
    exact ⟨htrans _ _ _ hfirst hsecond, fun later hlater =>
      .cons (hQ later (htrans _ _ _ hsecond hlater)) (hQs later hlater)⟩

end Stateful

namespace Sela

open Checked Correspondence Stateful

/-! ## Selecting what a target was observed to have -/

theorem selectNested_of_plain {depth : ℕ} {input : Attr} {target : String}
    (h : ∀ entries, input = .dictionary entries → Attributes.get entries "target_cases" = none) :
    selectNested target (depth + 1) input = .ok input := by
  unfold selectNested
  split
  · rfl
  · rename_i dictionary hdictionary
    rw [h dictionary (by simpa using hdictionary)]
    rfl

/-- The case of a choice for a group of observations. -/
def groupCase (group : Attr × List (String × Attr)) : Attr :=
  .dictionary [("targets", targetSet (group.2.map Prod.fst)), ("value", group.1)]

theorem selectCase_skip {target : String} {group : Attr × List (String × Attr)}
    {cases : List Attr} {selected : Option Attr} (h : target ∉ group.2.map Prod.fst) :
    selectCase target (groupCase group :: cases) selected = selectCase target cases selected := by
  have hcontains : containsTarget (targetSet (group.2.map Prod.fst)) target = false := by
    rw [← Bool.not_eq_true, containsTarget_targetSet]
    exact h
  rw [selectCase]
  simp [groupCase, Attr.asDictionary?, Attributes.get_cons, hcontains]

theorem selectCase_take {target : String} {group : Attr × List (String × Attr)}
    {cases : List Attr} (h : target ∈ group.2.map Prod.fst) :
    selectCase target (groupCase group :: cases) none = selectCase target cases (some group.1) := by
  have hcontains := containsTarget_targetSet.mpr h
  rw [selectCase]
  simp [groupCase, Attr.asDictionary?, Attributes.get_cons, hcontains]

theorem selectCase_skips {target : String} {selected : Attr} :
    ∀ {groups : List (Attr × List (String × Attr))},
      (∀ group ∈ groups, target ∉ group.2.map Prod.fst) →
      selectCase target (groups.map groupCase) (some selected) = .ok selected
  | [], _ => rfl
  | group :: groups, h => by
    obtain ⟨hhead, hrest⟩ := List.forall_mem_cons.mp h
    rw [List.map_cons, selectCase_skip hhead, selectCase_skips hrest]

/-- The one group that has the target is selected. -/
theorem selectCase_group {target : String} {group : Attr × List (String × Attr)}
    {after : List (Attr × List (String × Attr))} (hgroup : target ∈ group.2.map Prod.fst)
    (hafter : ∀ other ∈ after, target ∉ other.2.map Prod.fst) :
    ∀ {before : List (Attr × List (String × Attr))},
      (∀ other ∈ before, target ∉ other.2.map Prod.fst) →
      selectCase target ((before ++ group :: after).map groupCase) none = .ok group.1
  | [], _ => by
    rw [List.nil_append, List.map_cons, selectCase_take hgroup, selectCase_skips hafter]
  | other :: before, h => by
    obtain ⟨hhead, hrest⟩ := List.forall_mem_cons.mp h
    rw [List.cons_append, List.map_cons, selectCase_skip hhead,
      selectCase_group hgroup hafter hrest]

/-- A target sees of a choice what it was observed to have. -/
theorem selectAttribute_targetChoice {observations : List (String × Attr)} {target : String}
    {value : Attr} (hnodup : (observations.map Prod.fst).Nodup)
    (hmem : (target, value) ∈ observations)
    (hplain : ∀ entries, value = .dictionary entries →
      Attributes.get entries "target_cases" = none) :
    selectAttribute (targetChoice observations) target = .ok value := by
  have hgroups := Grouping.groups_groupBy Prod.snd observations
  obtain ⟨group, hgroup, hvalue⟩ := List.mem_map.mp (hgroups.covers (target, value) hmem)
  have hin : target ∈ group.2.map Prod.fst :=
    List.mem_map.mpr ⟨(target, value), (Grouping.mem_group_iff hgroup).mpr ⟨hmem, hvalue.symm⟩, rfl⟩
  have hout : ∀ other ∈ Grouping.groupBy Prod.snd observations, other.1 ≠ group.1 →
      target ∉ other.2.map Prod.fst := by
    intro other hother hne htarget
    obtain ⟨⟨_, value'⟩, hobservation, rfl⟩ := List.mem_map.mp htarget
    obtain ⟨hobserved, hkey⟩ := (Grouping.mem_group_iff hother).mp hobservation
    have heq := List.inj_on_of_nodup_map hnodup hobserved hmem rfl
    exact hne (hkey.symm.trans ((Prod.mk.inj heq).2.trans hvalue.symm))
  unfold targetChoice
  split
  · rename_i hnil
    rw [hnil] at hgroup
    simp at hgroup
  · rename_i value' _ hone
    rw [hone] at hgroup
    obtain rfl := List.mem_singleton.mp hgroup
    obtain rfl : value' = value := hvalue
    exact selectAttribute_of_plain hplain
  · obtain ⟨before, after, hsplit⟩ := List.append_of_mem hgroup
    have hkeys := hgroups.nodup
    rw [hsplit, List.map_append, List.map_cons, List.nodup_middle, List.nodup_cons] at hkeys
    have hother : ∀ other ∈ before ++ after, target ∉ other.2.map Prod.fst := by
      intro other hmem'
      refine hout other ?_ fun heq => hkeys.1 ?_
      · rw [hsplit]
        rcases List.mem_append.mp hmem' with h | h <;> simp [h]
      · rw [← List.map_append, ← heq]
        exact List.mem_map_of_mem hmem'
    obtain ⟨hbefore, hafter⟩ := List.forall_mem_append.mp hother
    have hcase := selectCase_group hin hafter hbefore
    rw [hvalue, ← hsplit] at hcase
    unfold selectAttribute selectNested
    change (do
      let selected ← selectCase target ((Grouping.groupBy Prod.snd observations).map groupCase) none
      selectNested target 63 selected) = _
    rw [hcase, ok_bind, selectNested_of_plain hplain]

namespace Merger

/-! ## Storage identities -/

/-- The shared identity of a target's own one. -/
def shared (m : Merger) (target : TargetInfo) (own : String) : Option String :=
  m.storageIdentities.shared target own

/-- Every shared identity is `r` and a number used so far. -/
def Numbered (m : Merger) : Prop :=
  ∀ target own common, m.shared target own = some common →
    ∃ k < m.nextStorageIdentity, common = "r" ++ toString k

/-- A merge state grows as its table does, and numbers what it adds. -/
structure Grows (m m' : Merger) : Prop where
  tables : m.storageIdentities.Grows m'.storageIdentities
  numbered : m.Numbered → m'.Numbered

theorem Grows.keeps {m m' : Merger} (h : m.Grows m') {target : TargetInfo} {own common : String}
    (hshared : m.shared target own = some common) : m'.shared target own = some common :=
  h.tables.keeps target own common hshared

theorem Grows.refl (m : Merger) : m.Grows m := ⟨Tables.Grows.refl _, id⟩

theorem Grows.trans (m m' m'' : Merger) (h : m.Grows m') (h' : m'.Grows m'') : m.Grows m'' :=
  ⟨h.tables.trans h'.tables, fun hnumbered => h'.numbered (h.numbered hnumbered)⟩

/-- The image of a target's own identity. -/
def image (m : Merger) (target : TargetInfo) (own : String) : String := (m.shared target own).getD own

/-- An identity stands for a shared one, no identity for none. -/
def Stands (m : Merger) (target : TargetInfo) (own common : String) : Prop :=
  (own = "" ∧ common = "") ∨ (own ≠ "" ∧ m.shared target own = some common)

/-- Every identity has an image. -/
def Knows (m : Merger) (target : TargetInfo) (identities : List String) : Prop :=
  ∀ own ∈ identities, (m.shared target own).isSome = true

theorem Stands.grows {m m' : Merger} {target : TargetInfo} {own common : String}
    (h : m.Stands target own common) (hgrows : m.Grows m') : m'.Stands target own common :=
  h.imp id fun h => ⟨h.1, hgrows.keeps h.2⟩

theorem Stands.renamed {m : Merger} {target : TargetInfo} {own common : String}
    (h : m.Stands target own common) : renamed (m.image target) own = common := by
  unfold Sela.renamed image
  rcases h with ⟨rfl, rfl⟩ | ⟨hne, hshared⟩
  · rfl
  · rw [if_neg hne, hshared, Option.getD_some]

theorem Stands.knows {m : Merger} {target : TargetInfo} {own common : String}
    (h : m.Stands target own common) : m.Knows target (named own) := by
  unfold named Knows
  rcases h with ⟨rfl, rfl⟩ | ⟨hne, hshared⟩
  · simp
  · simp [hne, hshared]

theorem knows_append {m : Merger} {target : TargetInfo} {xs ys : List String} :
    m.Knows target (xs ++ ys) ↔ m.Knows target xs ∧ m.Knows target ys :=
  List.forall_mem_append

/-- An identity has an image and is it exactly when it is shared under its own name. -/
theorem knows_fixed {m : Merger} {target : TargetInfo} {identities : List String} :
    (m.Knows target identities ∧ ∀ own ∈ identities, m.image target own = own) ↔
      ∀ own ∈ identities, m.shared target own = some own := by
  refine ⟨fun ⟨hknows, himage⟩ own hown => ?_, fun h => ⟨fun own hown => by simp [h own hown],
    fun own hown => by simp [image, h own hown]⟩⟩
  obtain ⟨common, hcommon⟩ := Option.isSome_iff_exists.mp (hknows own hown)
  have heq := himage own hown
  rw [image, hcommon, Option.getD_some] at heq
  rw [hcommon, heq]

/-- The identity found is one found before, or the shared one of an observation. -/
theorem foundIdentities_of {tables : Tables TargetInfo String String} {anonymous : Bool} :
    ∀ {observations : Observations TargetInfo SelaType} {common common' : Option String},
      observations.foldlM (foundIdentity tables anonymous) common = .ok common' →
      ∀ found, common' = some found → common = some found ∨
        ∃ target own, tables.shared target own = some found
  | [], common, common', h, found, hfound => by
    obtain rfl := Except.ok.inj h
    exact .inl hfound
  | observation :: observations, common, common', h, found, hfound => by
    obtain ⟨next, hnext, h⟩ := foldlM_cons_ok.mp h
    refine (foundIdentities_of h found hfound).elim (fun hnextFound => ?_) .inr
    obtain ⟨_, -, hnext⟩ := bind_ok.mp hnext
    split at hnext
    · obtain rfl := Except.ok.inj hnext
      exact .inl hnextFound
    · rename_i found' hshared
      obtain ⟨_, -, hnext⟩ := bind_ok.mp hnext
      obtain rfl := Except.ok.inj hnext
      obtain rfl := Option.some.inj hnextFound
      exact .inr ⟨_, _, hshared⟩

/-- The identity found so far is that of every observation passed. -/
theorem foundIdentities_ok {tables : Tables TargetInfo String String} {anonymous : Bool} :
    ∀ {observations : Observations TargetInfo SelaType} {common common' : Option String},
      observations.foldlM (foundIdentity tables anonymous) common = .ok common' →
      (∀ found, common = some found → common' = some found) ∧
      ∀ observation ∈ observations, (identity observation.2 == "") = anonymous ∧
        ∀ found, tables.shared observation.1 (identity observation.2) = some found →
          common' = some found
  | [], common, common', h => by
    obtain rfl := Except.ok.inj h
    simp
  | observation :: observations, common, common', h => by
    obtain ⟨next, hnext, h⟩ := foldlM_cons_ok.mp h
    obtain ⟨hkeeps, hrest⟩ := foundIdentities_ok h
    obtain ⟨_, hanonymous, hnext⟩ := bind_ok.mp hnext
    have hanonymous := expect_ok.mp hanonymous
    split at hnext
    · rename_i hnone
      obtain rfl := Except.ok.inj hnext
      exact ⟨hkeeps, List.forall_mem_cons.mpr ⟨⟨hanonymous, by simp [hnone]⟩, hrest⟩⟩
    · rename_i found hfound
      obtain ⟨_, hcommon, hnext⟩ := bind_ok.mp hnext
      obtain rfl := Except.ok.inj hnext
      have hcommon' := hkeeps found rfl
      refine ⟨fun found' hfound' => ?_, List.forall_mem_cons.mpr ⟨⟨hanonymous, ?_⟩, hrest⟩⟩
      · rcases expect_ok.mp hcommon with hnone | hsome
        · rw [hnone] at hfound'
          simp at hfound'
        · rw [hcommon', ← hsome, hfound']
      · intro found' hfound'
        rw [hcommon', ← hfound, hfound']

/-- Only the common identity is added. -/
theorem shared_assignIdentities {common : String} :
    ∀ {observations : Observations TargetInfo SelaType}
      {tables tables' : Tables TargetInfo String String},
      observations.foldlM (assignIdentity common) tables = .ok tables' →
      ∀ target own found, tables'.shared target own = some found →
        found = common ∨ tables.shared target own = some found
  | [], tables, tables', h, target, own, found, hfound => by
    obtain rfl := Except.ok.inj h
    exact .inr hfound
  | observation :: observations, tables, tables', h, target, own, found, hfound => by
    obtain ⟨next, hnext, h⟩ := foldlM_cons_ok.mp h
    obtain ⟨_, -, hnext⟩ := bind_ok.mp hnext
    obtain rfl := Except.ok.inj hnext
    refine (shared_assignIdentities h target own found hfound).elim .inl fun hfound => ?_
    by_cases hsame : target = observation.1 ∧ own = identity observation.2
    · rw [hsame.1, hsame.2, Tables.shared_assign_self] at hfound
      exact .inl (Option.some.inj hfound).symm
    · rw [Tables.shared_assign_of_ne common (by tauto)] at hfound
      exact .inr hfound

/-- Every observation passed stands for the common identity. -/
theorem assignIdentities_ok {common : String} :
    ∀ {observations : Observations TargetInfo SelaType} {tables tables' : Tables TargetInfo String String},
      (∀ observation ∈ observations, ∀ other,
        tables.shared observation.1 (identity observation.2) = some other → other = common) →
      observations.foldlM (assignIdentity common) tables = .ok tables' →
      tables.Grows tables' ∧ ∀ observation ∈ observations,
        tables'.shared observation.1 (identity observation.2) = some common
  | [], tables, tables', _, h => by
    obtain rfl := Except.ok.inj h
    exact ⟨.refl _, by simp⟩
  | observation :: observations, tables, tables', hfound, h => by
    obtain ⟨next, hnext, h⟩ := foldlM_cons_ok.mp h
    obtain ⟨_, hcollapse, hnext⟩ := bind_ok.mp hnext
    obtain rfl := Except.ok.inj hnext
    have hcollapse := expect_ok.mp hcollapse
    obtain ⟨hhead, hrest⟩ := List.forall_mem_cons.mp hfound
    have hgrows : tables.Grows
        (tables.assign observation.1 (identity observation.2) common) := by
      refine Tables.grows_assign hhead fun name' hname' => ?_
      by_contra hne
      have hentry : (name', common) ∈ tables observation.1 := Tables.mem_of_shared hname'
      exact hcollapse _ hentry ⟨rfl, hne⟩
    have hnext : ∀ other ∈ observations, ∀ found,
        (tables.assign observation.1 (identity observation.2) common).shared other.1
          (identity other.2) = some found → found = common := by
      intro other hother found hshared
      by_cases hsame : other.1 = observation.1 ∧ identity other.2 = identity observation.2
      · rw [hsame.1, hsame.2, Tables.shared_assign_self] at hshared
        exact (Option.some.inj hshared).symm
      · rw [Tables.shared_assign_of_ne common (by tauto)] at hshared
        exact hrest other hother found hshared
    obtain ⟨hgrows', hshared⟩ := assignIdentities_ok hnext h
    exact ⟨hgrows.trans hgrows', List.forall_mem_cons.mpr
      ⟨hgrows'.keeps _ _ _ (Tables.shared_assign_self _ _ _), hshared⟩⟩

/-- The identity found is what that of every observation stands for. -/
theorem storageIdentity_ok {observations : Observations TargetInfo SelaType} {m m' : Merger}
    {common : String} (h : exec (storageIdentity observations) m = (.ok common, m')) :
    m.Grows m' ∧ ∀ observation ∈ observations,
      m'.Stands observation.1 (identity observation.2) common := by
  unfold storageIdentity at h
  obtain ⟨_, _, hget, h⟩ := exec_bind_ok.mp h
  obtain ⟨hm, rfl⟩ := Prod.mk.inj hget
  obtain rfl := Except.ok.inj hm
  obtain ⟨found, hfound, h⟩ := exec_check_bind_ok.mp h
  obtain ⟨-, heach⟩ := foundIdentities_ok hfound
  split at h
  · rename_i hanonymous
    obtain ⟨hcommon, rfl⟩ := Prod.mk.inj h
    obtain rfl := Except.ok.inj hcommon
    refine ⟨.refl _, fun observation hobservation => .inl ⟨?_, rfl⟩⟩
    have := (heach observation hobservation).1
    simpa [hanonymous] using this
  · rename_i hanonymous
    obtain ⟨tables, htables, h⟩ := exec_check_bind_ok.mp h
    obtain ⟨_, _, hset, h⟩ := exec_bind_ok.mp h
    obtain ⟨-, rfl⟩ := Prod.mk.inj hset
    obtain ⟨hcommon, rfl⟩ := Prod.mk.inj h
    obtain rfl := Except.ok.inj hcommon
    obtain ⟨hgrows, hshared⟩ := assignIdentities_ok (fun observation hobservation other hother => by
      rw [(heach observation hobservation).2 other hother, Option.getD_some]) htables
    refine ⟨⟨hgrows, fun hnumbered target own other hother => ?_⟩,
      fun observation hobservation => .inr ⟨?_, hshared observation hobservation⟩⟩
    · have hle : m.nextStorageIdentity ≤
          (if found = none then m.nextStorageIdentity + 1 else m.nextStorageIdentity) := by
        split <;> omega
      rcases shared_assignIdentities htables target own other hother with rfl | hbefore
      · cases found with
        | none => exact ⟨m.nextStorageIdentity, by simp, rfl⟩
        | some found =>
          obtain ⟨target', own', hfound'⟩ :=
            (foundIdentities_of hfound found rfl).resolve_left (by simp)
          obtain ⟨k, hk, heq⟩ := hnumbered target' own' found hfound'
          exact ⟨k, by simpa using hk, heq⟩
      · obtain ⟨k, hk, heq⟩ := hnumbered target own other hbefore
        exact ⟨k, Nat.lt_of_lt_of_le hk hle, heq⟩
    have := (heach observation hobservation).1
    intro hempty
    rw [hempty] at this
    simp [← this] at hanonymous

/-! ## What a merge sees of types -/

/-- Whether overlaps were observed that do not all have as many alternatives. -/
def uneven : Observations TargetInfo SelaType → Bool
  | [] => false
  | observation :: rest => isOverlap observation.2 &&
    !rest.all fun other => (alternatives other.2).length == (alternatives observation.2).length

/-- The records and overlaps a merge takes for the same storage. -/
def storages : Observations TargetInfo SelaType → List (Observations TargetInfo SelaType)
  | [] => []
  | observation :: rest =>
    let observations : Observations TargetInfo SelaType := observation :: rest
    match observation.2 with
    | .array _ _ => storages (observations.part element)
    | .record _ _ _ => observations :: (List.range (maximum observations)).flatMap fun k =>
      storages (observations.part (field k))
    | .function inputs results => (List.range (inputs.length + results.length)).flatMap fun k =>
      storages (observations.part (signatureType k))
    | .overlap _ alternatives' _ => observations ::
      if uneven observations then []
      else (List.range alternatives'.length).flatMap fun k =>
        storages (observations.part (alternative k))
    | _ => []
termination_by observations => observations.weight
decreasing_by
  all_goals exact Observations.weight_part_lt _ sizeOf_type_pos (List.cons_ne_nil _ _)

/-- The identities of alternatives that stay as they are. -/
def rawAlternatives (storage : Observations TargetInfo SelaType) : Observations TargetInfo String :=
  if uneven storage then
    storage.flatMap fun observation =>
      (typesIdentities (alternatives observation.2)).map fun own => (observation.1, own)
  else []

/-- The identities a merge of types leaves as they are. -/
def rawIdentities (observations : Observations TargetInfo SelaType) :
    Observations TargetInfo String :=
  (storages observations).flatMap rawAlternatives

/-- Each of these identities is its own image. -/
def Kept (m : Merger) (raw : Observations TargetInfo String) : Prop :=
  ∀ target own, (target, own) ∈ raw → m.shared target own = some own

theorem kept_flatMap {α : Type} {m : Merger} {xs : List α} {raw : α → Observations TargetInfo String} :
    m.Kept (xs.flatMap raw) ↔ ∀ x ∈ xs, m.Kept (raw x) := by
  simp only [Kept, List.mem_flatMap]
  exact ⟨fun h x hx target own hmem => h target own ⟨x, hx, hmem⟩,
    fun h target own ⟨x, hx, hmem⟩ => h x hx target own hmem⟩

/-- What becomes of a type observed on a target : each identity is replaced by its image, but
in the alternatives that stay as they are. -/
def returned (m : Merger) (target : TargetInfo) :
    Observations TargetInfo SelaType → SelaType → SelaType
  | [], type => type
  | observation :: rest, type =>
    let observations : Observations TargetInfo SelaType := observation :: rest
    match type with
    | .array element' count => .array (returned m target (observations.part element) element') count
    | .record own packed fields' => .record (renamed (m.image target) own) packed
        (fields'.mapIdx fun k field' => returned m target (observations.part (field k)) field')
    | .function inputs results => .function
        (inputs.mapIdx fun k input => returned m target (observations.part (signatureType k)) input)
        (results.mapIdx fun k result =>
          returned m target (observations.part (signatureType (k + inputs.length))) result)
    | .overlap own alternatives' domains => .overlap (renamed (m.image target) own)
        (if uneven observations then alternatives'
        else alternatives'.mapIdx fun k alternative' =>
          returned m target (observations.part (alternative k)) alternative') domains
    | type => type
termination_by observations => observations.weight
decreasing_by
  all_goals exact Observations.weight_part_lt _ sizeOf_type_pos (List.cons_ne_nil _ _)

theorem returned_whole {m : Merger} {target : TargetInfo} {type : SelaType}
    {observations : Observations TargetInfo SelaType} (h : isWhole type = true) :
    m.returned target observations type = type := by
  cases observations with
  | nil => rw [returned]
  | cons observation rest => cases type <;> simp_all [isWhole, returned]

/-! ## The round trip of types -/

/-- What is specialized for a target is the type observed, each identity replaced by its
image. -/
structure RoundTrips (m : Merger) (target : TargetInfo) (type merged : SelaType) : Prop where
  knows : m.Knows target type.identities
  specialized : specializeType target merged = .ok (type.rename (m.image target))

/-- What is specialized for a target is the type observed up to its identities. -/
def Resembles (target : TargetInfo) (type merged : SelaType) : Prop :=
  ∃ result, specializeType target merged = .ok result ∧
    result.rename (fun _ => "") = type.rename fun _ => ""

/-- What a merge makes of the types observed. -/
structure Merged (m : Merger) (observations : Observations TargetInfo SelaType)
    (merged : SelaType) : Prop where
  images : ∀ storage ∈ storages observations, ∃ common, ∀ observation ∈ storage,
    m.Stands observation.1 (identity observation.2) common
  exact : (∀ target type, (target, type) ∈ observations → m.RoundTrips target type merged) ↔
    m.Kept (rawIdentities observations)
  resembles : ∀ target type, (target, type) ∈ observations → Resembles target type merged
  specialized : ∀ target type, (target, type) ∈ observations →
    specializeType target merged = .ok (m.returned target observations type)

/-- Types observed on distinct registered targets, each with nothing left to select. -/
structure Concretes (observations : Observations TargetInfo SelaType) : Prop where
  nodup : (observations.map Prod.fst).Nodup
  registered : ∀ target type, (target, type) ∈ observations → target ∈ targets.all
  concrete : ∀ target type, (target, type) ∈ observations → type.Concrete target.id

theorem RoundTrips.congr {m : Merger} {target : TargetInfo} {type merged merged' : SelaType}
    (h : specializeType target merged = specializeType target merged') :
    m.RoundTrips target type merged ↔ m.RoundTrips target type merged' :=
  ⟨fun ⟨hknows, hspecialized⟩ => ⟨hknows, h ▸ hspecialized⟩,
    fun ⟨hknows, hspecialized⟩ => ⟨hknows, h.symm ▸ hspecialized⟩⟩

theorem Resembles.congr {target : TargetInfo} {type merged merged' : SelaType}
    (h : specializeType target merged = specializeType target merged')
    (h' : Resembles target type merged') : Resembles target type merged := by
  obtain ⟨result, hresult, hrename⟩ := h'
  exact ⟨result, h.trans hresult, hrename⟩

theorem Concretes.part {observations : Observations TargetInfo SelaType}
    (h : Concretes observations) {part : Subpart SelaType SelaType}
    (hpart : ∀ id whole value, SelaType.Concrete id whole → part.get whole = some value →
      value.Concrete id) : Concretes (observations.part part) where
  nodup := h.nodup.sublist (Observations.part_sublist part observations)
  registered target type hmem := by
    obtain ⟨whole, hwhole, -⟩ := Observations.mem_part.mp hmem
    exact h.registered target whole hwhole
  concrete target type hmem := by
    obtain ⟨whole, hwhole, hget⟩ := Observations.mem_part.mp hmem
    exact hpart target.id whole type (h.concrete target whole hwhole) hget

theorem Concretes.element {observations : Observations TargetInfo SelaType}
    (h : Concretes observations) : Concretes (observations.part element) := by
  refine h.part fun id whole value hconcrete hget => ?_
  simp only [Merger.element] at hget
  split at hget
  · obtain rfl := Option.some.inj hget
    exact hconcrete.1
  · simp at hget

theorem Concretes.field {observations : Observations TargetInfo SelaType}
    (h : Concretes observations) (k : ℕ) : Concretes (observations.part (field k)) := by
  refine h.part fun id whole value hconcrete hget => ?_
  have hmem : value ∈ fields whole := List.mem_of_getElem? hget
  unfold fields at hmem
  split at hmem
  · exact typesConcrete_iff.mp hconcrete value hmem
  · simp at hmem

theorem Concretes.alternative {observations : Observations TargetInfo SelaType}
    (h : Concretes observations) (k : ℕ) : Concretes (observations.part (alternative k)) := by
  refine h.part fun id whole value hconcrete hget => ?_
  have hmem : value ∈ alternatives whole := List.mem_of_getElem? hget
  unfold alternatives at hmem
  split at hmem
  · exact typesConcrete_iff.mp hconcrete.2.2 value hmem
  · simp at hmem

theorem Concretes.signatureType {observations : Observations TargetInfo SelaType}
    (h : Concretes observations) (k : ℕ) : Concretes (observations.part (signatureType k)) := by
  refine h.part fun id whole value hconcrete hget => ?_
  have hmem : value ∈ signatureTypes whole := List.mem_of_getElem? hget
  unfold signatureTypes at hmem
  split at hmem
  · rcases List.mem_append.mp hmem with hmem | hmem
    · exact typesConcrete_iff.mp hconcrete.1 value hmem
    · exact typesConcrete_iff.mp hconcrete.2 value hmem
  · simp at hmem

/-- Registered targets that differ have identities that differ. -/
theorem nodup_ids {α : Type} {observations : Observations TargetInfo α}
    (hnodup : (observations.map Prod.fst).Nodup)
    (hregistered : ∀ target value, (target, value) ∈ observations → target ∈ targets.all) :
    (observations.map fun observation => observation.1.id).Nodup := by
  have hids : ((observations.map Prod.fst).map TargetInfo.id).Nodup := by
    refine hnodup.map_on fun target htarget target' htarget' heq => ?_
    obtain ⟨⟨_, value⟩, hmem, rfl⟩ := List.mem_map.mp htarget
    obtain ⟨⟨_, value'⟩, hmem', rfl⟩ := List.mem_map.mp htarget'
    have hfind := targets.find_of_mem _ (hregistered _ _ hmem)
    rw [heq, targets.find_of_mem _ (hregistered _ _ hmem')] at hfind
    exact (Option.some.inj hfind).symm
  rwa [List.map_map] at hids

/-- A target sees of a choice what it was observed to have. -/
theorem selectAttribute_choice {observations : Observations TargetInfo Attr} {target : TargetInfo}
    {value : Attr} (hnodup : (observations.map fun observation => observation.1.id).Nodup)
    (hmem : (target, value) ∈ observations)
    (hplain : ∀ entries, value = .dictionary entries →
      Attributes.get entries "target_cases" = none) :
    selectAttribute (choice observations) target.id = .ok value := by
  refine selectAttribute_targetChoice ?_ (List.mem_map.mpr ⟨(target, value), hmem, rfl⟩) hplain
  rwa [List.map_map]

/-- A target sees of a choice of types the one observed. -/
theorem specializeType_choiceOf {observations : Observations TargetInfo SelaType}
    (hobserved : Concretes observations) {f : TargetInfo × SelaType → SelaType}
    {target : TargetInfo} {type : SelaType} (hmem : (target, type) ∈ observations) :
    specializeType target (.choice (choice (observations.map fun other => (other.1, .type (f other))))) =
      specializeType target (f (target, type)) := by
  have hselected : selectAttribute
      (choice (observations.map fun other => (other.1, Attr.type (f other)))) target.id =
        .ok (.type (f (target, type))) := by
    refine selectAttribute_choice ?_ (List.mem_map.mpr ⟨(target, type), hmem, rfl⟩) (by simp)
    rw [List.map_map]
    exact nodup_ids hobserved.nodup hobserved.registered
  rw [specializeType_choice, hselected, ok_bind]

theorem roundTrips_types {m : Merger} {target : TargetInfo} {merged types : List SelaType} :
    (m.Knows target (typesIdentities types) ∧
      merged.mapM (fun type => specializeType target type) =
        .ok (typesRename (m.image target) types)) ↔
    List.Forall₂ (fun merged type => m.RoundTrips target type merged) merged types := by
  rw [typesRename_eq, mapM_ok, List.forall₂_map_right_iff, typesIdentities_eq]
  constructor
  · rintro ⟨hknows, h⟩
    exact forall₂_imp_of_mem h fun _ _ type htype hspecialized =>
      ⟨fun own hown => hknows own (List.mem_flatMap.mpr ⟨type, htype, hown⟩), hspecialized⟩
  · intro h
    refine ⟨fun own hown => ?_, h.imp fun _ _ h => h.specialized⟩
    obtain ⟨type, htype, hown⟩ := List.mem_flatMap.mp hown
    obtain ⟨_, -, hround⟩ := exists_of_forall₂_right h htype
    exact hround.knows own hown

theorem resembles_types {target : TargetInfo} {merged types : List SelaType}
    (h : List.Forall₂ (fun merged type => Resembles target type merged) merged types) :
    ∃ results, merged.mapM (fun type => specializeType target type) = .ok results ∧
      typesRename (fun _ => "") results = typesRename (fun _ => "") types ∧
      results.length = types.length := by
  induction h with
  | nil => exact ⟨[], rfl, rfl, rfl⟩
  | cons hhead _ ih =>
    obtain ⟨result, hresult, hrename⟩ := hhead
    obtain ⟨results, hresults, hrenames, hlength⟩ := ih
    refine ⟨result :: results, ?_, ?_, by simp [hlength]⟩
    · rw [mapM_cons, hresult, ok_bind, hresults, ok_bind, pure_eq_ok]
    · rw [typesRename, typesRename, hrename, hrenames]

theorem specializeType_record_ok {target : TargetInfo} {common : String} {packed : Bool}
    {merged : List SelaType} {result : SelaType} :
    specializeType target (.record common packed merged) = .ok result ↔
      ∃ results, merged.mapM (fun type => specializeType target type) = .ok results ∧
        result = .record common packed results := by
  rw [specializeType, bind_ok]
  simp only [pure_eq_ok, Except.ok.injEq, eq_comm]

/-- A record makes the round trip when its fields do. -/
theorem roundTrips_record {m : Merger} {target : TargetInfo} {own common : String} {packed : Bool}
    {merged fields : List SelaType} (hstands : m.Stands target own common) :
    m.RoundTrips target (.record own packed fields) (.record common packed merged) ↔
      List.Forall₂ (fun merged type => m.RoundTrips target type merged) merged fields := by
  rw [← roundTrips_types]
  constructor
  · rintro ⟨hknows, hspecialized⟩
    rw [SelaType.identities, knows_append] at hknows
    obtain ⟨results, hresults, heq⟩ := specializeType_record_ok.mp hspecialized
    rw [SelaType.rename] at heq
    obtain ⟨-, -, rfl⟩ := SelaType.record.inj heq
    exact ⟨hknows.2, hresults⟩
  · rintro ⟨hknows, hresults⟩
    refine ⟨?_, specializeType_record_ok.mpr ⟨_, hresults, ?_⟩⟩
    · rw [SelaType.identities, knows_append]
      exact ⟨hstands.knows, hknows⟩
    · rw [SelaType.rename, hstands.renamed]

theorem resembles_record {target : TargetInfo} {own common : String} {packed : Bool}
    {merged fields : List SelaType}
    (h : List.Forall₂ (fun merged type => Resembles target type merged) merged fields) :
    Resembles target (.record own packed fields) (.record common packed merged) := by
  obtain ⟨results, hresults, hrename, -⟩ := resembles_types h
  refine ⟨_, specializeType_record_ok.mpr ⟨results, hresults, rfl⟩, ?_⟩
  rw [SelaType.rename, SelaType.rename, hrename]
  simp [renamed]

theorem forall₂_append_iff {α β : Type} {R : α → β → Prop} {xs : List α} {ys zs : List β} :
    List.Forall₂ R xs (ys ++ zs) ↔
      List.Forall₂ R (xs.take ys.length) ys ∧ List.Forall₂ R (xs.drop ys.length) zs := by
  refine ⟨fun h => ⟨List.forall₂_take_append _ _ _ h, List.forall₂_drop_append _ _ _ h⟩, ?_⟩
  rintro ⟨hys, hzs⟩
  rw [← List.take_append_drop ys.length xs]
  exact List.rel_append hys hzs

theorem specializeType_function_ok {target : TargetInfo} {inputs results : List SelaType}
    {result : SelaType} :
    specializeType target (.function inputs results) = .ok result ↔
      ∃ inputs' results', inputs.mapM (fun type => specializeType target type) = .ok inputs' ∧
        results.mapM (fun type => specializeType target type) = .ok results' ∧
        result = .function inputs' results' := by
  rw [specializeType, bind_ok]
  constructor
  · rintro ⟨inputs', hinputs, h⟩
    obtain ⟨results', hresults, h⟩ := bind_ok.mp h
    exact ⟨inputs', results', hinputs, hresults, (Except.ok.inj h).symm⟩
  · rintro ⟨inputs', results', hinputs, hresults, rfl⟩
    exact ⟨inputs', hinputs, bind_ok.mpr ⟨results', hresults, rfl⟩⟩

/-- A function type makes the round trip when its inputs and results do. -/
theorem roundTrips_function {m : Merger} {target : TargetInfo}
    {merged inputs results : List SelaType} :
    m.RoundTrips target (.function inputs results)
        (.function (merged.take inputs.length) (merged.drop inputs.length)) ↔
      List.Forall₂ (fun merged type => m.RoundTrips target type merged) merged
        (inputs ++ results) := by
  rw [forall₂_append_iff, ← roundTrips_types, ← roundTrips_types]
  constructor
  · rintro ⟨hknows, hspecialized⟩
    rw [SelaType.identities, knows_append] at hknows
    obtain ⟨inputs', results', hinputs, hresults, heq⟩ := specializeType_function_ok.mp hspecialized
    rw [SelaType.rename] at heq
    obtain ⟨rfl, rfl⟩ := SelaType.function.inj heq
    exact ⟨⟨hknows.1, hinputs⟩, hknows.2, hresults⟩
  · rintro ⟨⟨hinputs, hinputs'⟩, hresults, hresults'⟩
    refine ⟨?_, specializeType_function_ok.mpr ⟨_, _, hinputs', hresults', rfl⟩⟩
    rw [SelaType.identities, knows_append]
    exact ⟨hinputs, hresults⟩

theorem resembles_function {target : TargetInfo} {merged inputs results : List SelaType}
    (h : List.Forall₂ (fun merged type => Resembles target type merged) merged
      (inputs ++ results)) :
    Resembles target (.function inputs results)
      (.function (merged.take inputs.length) (merged.drop inputs.length)) := by
  obtain ⟨hinputs, hresults⟩ := forall₂_append_iff.mp h
  obtain ⟨inputs', hinputs, hrename, -⟩ := resembles_types hinputs
  obtain ⟨results', hresults, hrename', -⟩ := resembles_types hresults
  refine ⟨_, specializeType_function_ok.mpr ⟨_, _, hinputs, hresults, rfl⟩, ?_⟩
  rw [SelaType.rename, SelaType.rename, hrename, hrename']

/-- A target has every alternative of an overlap whose domains all have it. -/
theorem specializeType_overlap_all {target : TargetInfo} {ids : List String} {common : String}
    {merged : List SelaType} (hid : target.id ∈ ids) {result : SelaType} :
    specializeType target (.overlap common merged (merged.map fun _ => targetSet ids)) = .ok result ↔
      ∃ results, merged.mapM (fun type => specializeType target type) = .ok results ∧
        results ≠ [] ∧ result = .overlap common results (results.map fun _ => targetSet [target.id]) := by
  have hkeep : ((merged.zip (merged.map fun _ => targetSet ids)).filter
      (containsTarget ·.2 target.id)) = merged.zip (merged.map fun _ => targetSet ids) := by
    refine List.filter_eq_self.mpr fun entry hentry => ?_
    obtain ⟨_, -, hdomain⟩ := List.mem_map.mp (List.of_mem_zip hentry).2
    simpa [← hdomain] using hid
  have hkept : ((merged.zip (merged.map fun _ => targetSet ids)).mapM
      fun entry => specializeType target entry.1) =
      merged.mapM fun type => specializeType target type := by
    rw [show (fun entry : SelaType × Attr => specializeType target entry.1) =
        (fun type => specializeType target type) ∘ Prod.fst from rfl, ← List.mapM_map,
      List.map_fst_zip (by simp)]
  rw [specializeType_overlap, if_neg (by simp), hkeep, hkept, bind_ok]
  constructor
  · rintro ⟨results, hresults, h⟩
    split at h
    · simp at h
    · exact ⟨results, hresults, ‹_›, (Except.ok.inj h).symm⟩
  · rintro ⟨results, hresults, hne, rfl⟩
    exact ⟨results, hresults, by rw [if_neg hne]; rfl⟩

/-- An overlap makes the round trip when its alternatives do. -/
theorem roundTrips_overlap {m : Merger} {target : TargetInfo} {own common : String}
    {merged alternatives : List SelaType} {domains : List Attr} {ids : List String}
    (hstands : m.Stands target own common) (hid : target.id ∈ ids)
    (hconcrete : (SelaType.overlap own alternatives domains).Concrete target.id) :
    m.RoundTrips target (.overlap own alternatives domains)
        (.overlap common merged (merged.map fun _ => targetSet ids)) ↔
      List.Forall₂ (fun merged type => m.RoundTrips target type merged) merged alternatives := by
  obtain ⟨hne, rfl, -⟩ := hconcrete
  rw [← roundTrips_types]
  constructor
  · rintro ⟨hknows, hspecialized⟩
    rw [SelaType.identities, knows_append] at hknows
    obtain ⟨results, hresults, -, heq⟩ := (specializeType_overlap_all hid).mp hspecialized
    rw [SelaType.rename] at heq
    obtain ⟨-, rfl, -⟩ := SelaType.overlap.inj heq
    exact ⟨hknows.2, hresults⟩
  · rintro ⟨hknows, hresults⟩
    refine ⟨?_, (specializeType_overlap_all hid).mpr ⟨_, hresults, ?_, ?_⟩⟩
    · rw [SelaType.identities, knows_append]
      exact ⟨hstands.knows, hknows⟩
    · rw [typesRename_eq]
      simpa using hne
    · rw [SelaType.rename, hstands.renamed, typesRename_eq, List.map_map]
      rfl

theorem resembles_overlap {target : TargetInfo} {own common : String}
    {merged alternatives : List SelaType} {domains : List Attr} {ids : List String}
    (hid : target.id ∈ ids)
    (hconcrete : (SelaType.overlap own alternatives domains).Concrete target.id)
    (h : List.Forall₂ (fun merged type => Resembles target type merged) merged alternatives) :
    Resembles target (.overlap own alternatives domains)
      (.overlap common merged (merged.map fun _ => targetSet ids)) := by
  obtain ⟨hne, rfl, -⟩ := hconcrete
  obtain ⟨results, hresults, hrename, hlength⟩ := resembles_types h
  have hresultsNe : results ≠ [] := by
    rintro rfl
    exact hne (List.length_eq_zero_iff.mp hlength.symm)
  refine ⟨_, (specializeType_overlap_all hid).mpr ⟨results, hresults, hresultsNe, rfl⟩, ?_⟩
  rw [SelaType.rename, SelaType.rename, hrename, List.map_const', List.map_const', hlength]
  simp [renamed]

/-- An overlap whose alternatives stay as they are makes the round trip when each of their
identities is its own image. -/
theorem roundTrips_raw {m : Merger} {target : TargetInfo} {own common : String}
    {alternatives : List SelaType} {domains : List Attr} (hstands : m.Stands target own common)
    (hconcrete : (SelaType.overlap own alternatives domains).Concrete target.id) :
    m.RoundTrips target (.overlap own alternatives domains) (.overlap common alternatives domains) ↔
      ∀ own ∈ typesIdentities alternatives, m.shared target own = some own := by
  have hself : specializeType target (.overlap common alternatives domains) =
      .ok (.overlap common alternatives domains) := specializeType_of_concrete hconcrete
  rw [← knows_fixed, ← typesRename_eq_self]
  constructor
  · rintro ⟨hknows, hspecialized⟩
    rw [SelaType.identities, knows_append] at hknows
    rw [hself, SelaType.rename] at hspecialized
    exact ⟨hknows.2, (SelaType.overlap.inj (Except.ok.inj hspecialized)).2.1.symm⟩
  · rintro ⟨hknows, hrename⟩
    refine ⟨?_, ?_⟩
    · rw [SelaType.identities, knows_append]
      exact ⟨hstands.knows, hknows⟩
    · rw [hself, SelaType.rename, hstands.renamed, hrename]

theorem resembles_raw {target : TargetInfo} {own common : String}
    {alternatives : List SelaType} {domains : List Attr}
    (hconcrete : (SelaType.overlap own alternatives domains).Concrete target.id) :
    Resembles target (.overlap own alternatives domains) (.overlap common alternatives domains) := by
  have hself : (SelaType.overlap common alternatives domains).Concrete target.id := hconcrete
  refine ⟨_, specializeType_of_concrete hself, ?_⟩
  simp [SelaType.rename, renamed]

/-! ## The parts of the observations -/

section Parts

variable {α β : Type} [SizeOf α] [SizeOf β] {m : Merger} {observations : Observations TargetInfo α}
  {parts : α → List β} {smaller : ∀ {whole part}, part ∈ parts whole → sizeOf part < sizeOf whole}
  {n : ℕ}

/-- The parts of every observation make the round trip when each part of all does. -/
theorem exact_of_parts {R : TargetInfo → β → β → Prop} {raw : ℕ → Observations TargetInfo String}
    {merged : List β}
    (hparts : List.Forall₂ (fun k merged => (∀ target part,
      (target, part) ∈ observations.part (.nth parts smaller k) → R target part merged) ↔
        m.Kept (raw k)) (List.range n) merged)
    (hlength : ∀ target whole, (target, whole) ∈ observations → (parts whole).length ≤ n) :
    (∀ target whole, (target, whole) ∈ observations →
      List.Forall₂ (fun merged part => R target part merged)
        (merged.take (parts whole).length) (parts whole)) ↔
    m.Kept ((List.range n).flatMap raw) := by
  have hn : merged.length = n := by simpa using hparts.length_eq.symm
  rw [@Observations.forall₂_nth TargetInfo α β _ _ β parts smaller
    (fun target merged part => R target part merged) observations merged
    (by simpa [hn] using hlength), kept_flatMap]
  constructor
  · intro h k hk
    obtain ⟨result, hresult, hexact⟩ := forall₂_getElem? hparts
      (List.getElem?_range (List.mem_range.mp hk))
    exact hexact.mp (h k result hresult)
  · intro h k result hresult
    have hk : k < n := by
      rw [← hn]
      exact (List.getElem?_eq_some_iff.mp hresult).1
    obtain ⟨result', hresult', hexact⟩ := forall₂_getElem? hparts (List.getElem?_range hk)
    obtain rfl := Option.some.inj (hresult.symm.trans hresult')
    exact hexact.mpr (h k (List.mem_range.mpr hk))

/-- What each part of all observations is, the parts of every observation are. -/
theorem each_of_parts {R : TargetInfo → β → β → Prop} {merged : List β}
    (hparts : List.Forall₂ (fun k merged => ∀ target part,
      (target, part) ∈ observations.part (.nth parts smaller k) → R target part merged)
      (List.range n) merged)
    (hlength : ∀ target whole, (target, whole) ∈ observations → (parts whole).length ≤ n)
    {target : TargetInfo} {whole : α} (hmem : (target, whole) ∈ observations) :
    List.Forall₂ (fun merged part => R target part merged)
      (merged.take (parts whole).length) (parts whole) := by
  have hn : merged.length = n := by simpa using hparts.length_eq.symm
  refine (@Observations.forall₂_nth TargetInfo α β _ _ β parts smaller
    (fun target merged part => R target part merged) observations merged
    (by simpa [hn] using hlength)).mpr (fun k result hresult => ?_) target whole hmem
  have hk : k < n := by
    rw [← hn]
    exact (List.getElem?_eq_some_iff.mp hresult).1
  obtain ⟨result', hresult', heach⟩ := forall₂_getElem? hparts (List.getElem?_range hk)
  obtain rfl := Option.some.inj (hresult.symm.trans hresult')
  exact heach

/-- What each part becomes, the parts of an observation become one after the other. -/
theorem mapM_of_parts {f : β → Checked β} {g : ℕ → β → β} {merged : List β} {target : TargetInfo}
    (hparts : List.Forall₂ (fun k merged => ∀ part,
      (target, part) ∈ observations.part (.nth parts smaller k) → f merged = .ok (g k part))
      (List.range n) merged)
    {whole : α} (hlength : (parts whole).length ≤ n) (hmem : (target, whole) ∈ observations) :
    (merged.take (parts whole).length).mapM f = .ok ((parts whole).mapIdx g) := by
  have hn : merged.length = n := by simpa using hparts.length_eq.symm
  refine mapM_ok.mpr (forall₂_of_getElem? (by simp [hn, hlength]) fun k made part hmade hpart => ?_)
  rw [List.getElem?_mapIdx] at hpart
  obtain ⟨own, hown, rfl⟩ := Option.map_eq_some_iff.mp hpart
  have hk : k < (parts whole).length := (List.getElem?_eq_some_iff.mp hown).1
  rw [List.getElem?_take_of_lt hk] at hmade
  obtain ⟨made', hmade', hresult⟩ := forall₂_getElem? hparts
    (List.getElem?_range (Nat.lt_of_lt_of_le hk hlength))
  obtain rfl := Option.some.inj (hmade.symm.trans hmade')
  exact hresult own (Observations.mem_part.mpr ⟨whole, hmem, hown⟩)

end Parts

section TypeParts

variable {m : Merger} {observations : Observations TargetInfo SelaType}
  {parts : SelaType → List SelaType}
  {smaller : ∀ {type part : SelaType}, part ∈ parts type → sizeOf part < sizeOf type}
  {n : ℕ} {merged : List SelaType}
  (hparts : List.Forall₂ (fun k merged => m.Merged (observations.part (.nth parts smaller k)) merged)
    (List.range n) merged)

include hparts

theorem parts_exact
    (hlength : ∀ target type, (target, type) ∈ observations → (parts type).length ≤ n) :
    (∀ target type, (target, type) ∈ observations →
      List.Forall₂ (fun merged type => m.RoundTrips target type merged)
        (merged.take (parts type).length) (parts type)) ↔
    m.Kept ((List.range n).flatMap fun k =>
      rawIdentities (observations.part (.nth parts smaller k))) :=
  exact_of_parts (hparts.imp fun _ _ h => h.exact) hlength

theorem parts_resemble
    (hlength : ∀ target type, (target, type) ∈ observations → (parts type).length ≤ n)
    {target : TargetInfo} {type : SelaType} (hmem : (target, type) ∈ observations) :
    List.Forall₂ (fun merged type => Resembles target type merged)
      (merged.take (parts type).length) (parts type) :=
  each_of_parts (hparts.imp fun _ _ h => h.resembles) hlength hmem

theorem parts_specialized {target : TargetInfo} {type : SelaType}
    (hlength : (parts type).length ≤ n) (hmem : (target, type) ∈ observations) :
    (merged.take (parts type).length).mapM (fun type => specializeType target type) =
      .ok ((parts type).mapIdx fun k part =>
        m.returned target (observations.part (.nth parts smaller k)) part) :=
  mapM_of_parts (hparts.imp fun _ _ h part hpart => h.specialized target part hpart) hlength hmem

theorem parts_images {storage : Observations TargetInfo SelaType}
    (hstorage : storage ∈ (List.range n).flatMap fun k =>
      storages (observations.part (.nth parts smaller k))) :
    ∃ common, ∀ observation ∈ storage, m.Stands observation.1 (identity observation.2) common := by
  obtain ⟨k, hk, hstorage⟩ := List.mem_flatMap.mp hstorage
  obtain ⟨_, -, hmerged⟩ := exists_of_forall₂_left hparts hk
  exact hmerged.images storage hstorage

end TypeParts

/-! ## The branches of the merge -/

theorem le_foldl_max {x : ℕ} : ∀ {xs : List ℕ} {init : ℕ}, (x ≤ init ∨ x ∈ xs) →
    x ≤ xs.foldl max init
  | [], init, h => by simpa using h
  | y :: xs, init, h => by
    rw [List.foldl_cons]
    refine le_foldl_max ?_
    rcases h with h | h
    · exact .inl (h.trans (Nat.le_max_left _ _))
    · rcases List.mem_cons.mp h with rfl | h
      · exact .inl (Nat.le_max_right _ _)
      · exact .inr h

theorem foldl_max_le {bound : ℕ} : ∀ {xs : List ℕ} {init : ℕ}, init ≤ bound →
    (∀ x ∈ xs, x ≤ bound) → xs.foldl max init ≤ bound
  | [], _, hinit, _ => hinit
  | y :: xs, init, hinit, h => by
    obtain ⟨hy, hxs⟩ := List.forall_mem_cons.mp h
    rw [List.foldl_cons]
    exact foldl_max_le (Nat.max_le.mpr ⟨hinit, hy⟩) hxs

theorem length_fields_le {observations : Observations TargetInfo SelaType} {target : TargetInfo}
    {type : SelaType} (hmem : (target, type) ∈ observations) :
    (fields type).length ≤ maximum observations :=
  le_foldl_max (.inr (List.mem_map.mpr ⟨(target, type), hmem, rfl⟩))

theorem isRecord_iff {type : SelaType} :
    isRecord type = true ↔ ∃ own packed fields, type = .record own packed fields := by
  cases type <;> simp [isRecord]

theorem isOverlap_iff {type : SelaType} :
    isOverlap type = true ↔ ∃ own alternatives domains, type = .overlap own alternatives domains := by
  cases type <;> simp [isOverlap]

section Branches

variable {m : Merger} {observation : TargetInfo × SelaType}
  {rest : Observations TargetInfo SelaType} {result : SelaType}

/-- Types compared as a whole have no parts and no identities. -/
theorem whole_merged (hwhole : isWhole observation.2 = true)
    (hresult : ∀ target type, (target, type) ∈ observation :: rest →
      isWhole type = true ∧ specializeType target result = .ok type) :
    m.Merged (observation :: rest) result := by
  have hstorages : storages (observation :: rest) = [] := by
    rw [storages]
    cases heq : observation.2 <;> simp_all [isWhole]
  have hself : ∀ type, isWhole type = true → type.identities = [] ∧
      ∀ rename, type.rename rename = type := by
    intro type htype
    cases type <;> simp_all [isWhole, SelaType.identities, SelaType.rename]
  refine ⟨by simp [hstorages], ?_, fun target type hmem => ?_, fun target type hmem => ?_⟩
  · simp only [rawIdentities, hstorages, List.flatMap_nil]
    refine iff_of_true (fun target type hmem => ?_) (by simp [Kept])
    obtain ⟨htype, hspecialized⟩ := hresult target type hmem
    obtain ⟨hidentities, hrename⟩ := hself type htype
    exact ⟨by simp [Knows, hidentities], by rw [hrename, hspecialized]⟩
  · exact ⟨type, (hresult target type hmem).2, rfl⟩
  · obtain ⟨htype, hspecialized⟩ := hresult target type hmem
    rw [returned_whole htype, hspecialized]

/-- Arrays make the round trip when their elements do. -/
theorem arrays_merged {merged : SelaType} {counts : Attr}
    (harrays : ∀ target type, (target, type) ∈ observation :: rest → ∃ element extent,
      type = .array element (.integer 64 extent) ∧ evaluateInteger counts target = .ok extent)
    (hmerged : m.Merged (Observations.part element (observation :: rest)) merged) :
    m.Merged (observation :: rest) (.array merged counts) := by
  have hstorages : storages (observation :: rest) =
      storages (Observations.part element (observation :: rest)) := by
    obtain ⟨element, extent, harray, -⟩ := harrays observation.1 observation.2 (by simp)
    rw [storages, harray]
  have hspecialize : ∀ {target : TargetInfo} {extent : ℕ},
      evaluateInteger counts target = .ok extent → ∀ {result}, specializeType target merged = .ok result →
        specializeType target (.array merged counts) = .ok (.array result (.integer 64 extent)) := by
    intro target extent hextent result hresult
    rw [specializeType, hextent, ok_bind, hresult, ok_bind, pure_eq_ok]
  have hpart : ∀ {target : TargetInfo} {elementType : SelaType} {extent : ℕ},
      (target, SelaType.array elementType (.integer 64 extent)) ∈ observation :: rest →
        (target, elementType) ∈ Observations.part element (observation :: rest) :=
    fun hmem => Observations.mem_part.mpr ⟨_, hmem, rfl⟩
  refine ⟨by rw [hstorages]; exact hmerged.images, ?_, fun target type hmem => ?_,
    fun target type hmem => ?_⟩
  · rw [rawIdentities, hstorages, ← rawIdentities, ← hmerged.exact]
    constructor
    · intro h target type hmem
      obtain ⟨whole, hwhole, hget⟩ := Observations.mem_part.mp hmem
      obtain ⟨elementType, extent, rfl, hextent⟩ := harrays target whole hwhole
      obtain rfl : elementType = type := Option.some.inj hget
      obtain ⟨hknows, hspecialized⟩ := h target _ hwhole
      refine ⟨hknows, ?_⟩
      rw [specializeType, hextent, ok_bind] at hspecialized
      obtain ⟨result, hresult, heq⟩ := bind_ok.mp hspecialized
      rw [SelaType.rename] at heq
      obtain ⟨rfl, -⟩ := SelaType.array.inj (Except.ok.inj heq)
      exact hresult
    · intro h target type hmem
      obtain ⟨elementType, extent, rfl, hextent⟩ := harrays target type hmem
      obtain ⟨hknows, hspecialized⟩ := h target elementType (hpart hmem)
      refine ⟨hknows, ?_⟩
      rw [hspecialize hextent hspecialized, SelaType.rename]
  · obtain ⟨elementType, extent, rfl, hextent⟩ := harrays target type hmem
    obtain ⟨element', hresult, hrename⟩ := hmerged.resembles target elementType (hpart hmem)
    refine ⟨_, hspecialize hextent hresult, ?_⟩
    rw [SelaType.rename, SelaType.rename, hrename]
  · obtain ⟨elementType, extent, rfl, hextent⟩ := harrays target type hmem
    rw [hspecialize hextent (hmerged.specialized target elementType (hpart hmem)), returned]

/-- Records make the round trip when their fields do, whether or not they have as many. -/
theorem records_merged {merged : List SelaType} {common : String}
    (hrecords : ∀ other ∈ observation :: rest, isRecord other.2 = true)
    (hstands : ∀ other ∈ observation :: rest, m.Stands other.1 (identity other.2) common)
    (hparts : List.Forall₂
      (fun k merged => m.Merged (Observations.part (field k) (observation :: rest)) merged)
      (List.range (maximum (observation :: rest))) merged)
    (hresult : ∀ target type, (target, type) ∈ observation :: rest →
      specializeType target result = specializeType target
        (.record common (isPacked type) (merged.take (fields type).length))) :
    m.Merged (observation :: rest) result := by
  have hstorages : storages (observation :: rest) = (observation :: rest) ::
      (List.range (maximum (observation :: rest))).flatMap fun k =>
        storages (Observations.part (field k) (observation :: rest)) := by
    obtain ⟨own, packed, fields, heq⟩ := isRecord_iff.mp (hrecords observation (by simp))
    rw [storages, heq]
  have hraw : rawIdentities (observation :: rest) =
      (List.range (maximum (observation :: rest))).flatMap fun k =>
        rawIdentities (Observations.part (field k) (observation :: rest)) := by
    obtain ⟨own, packed, fields, heq⟩ := isRecord_iff.mp (hrecords observation (by simp))
    rw [rawIdentities, hstorages, List.flatMap_cons, List.flatMap_assoc]
    simp [rawAlternatives, uneven, heq, isOverlap, rawIdentities]
  have hlength : ∀ target type, (target, type) ∈ observation :: rest →
      (fields type).length ≤ maximum (observation :: rest) := fun _ _ => length_fields_le
  have hiff : ∀ target type, (target, type) ∈ observation :: rest →
      (m.RoundTrips target type result ↔ List.Forall₂
        (fun merged type => m.RoundTrips target type merged)
        (merged.take (fields type).length) (fields type)) := by
    intro target type hmem
    rw [RoundTrips.congr (hresult target type hmem)]
    have hstand := hstands _ hmem
    obtain ⟨own, packed, fields, rfl⟩ := isRecord_iff.mp (hrecords _ hmem)
    exact roundTrips_record hstand
  refine ⟨?_, ?_, fun target type hmem => ?_, fun target type hmem => ?_⟩
  · rw [hstorages]
    exact List.forall_mem_cons.mpr ⟨⟨common, hstands⟩, fun storage => parts_images hparts⟩
  · rw [hraw]
    refine Iff.trans ?_ (parts_exact hparts hlength)
    exact ⟨fun h target type hmem => (hiff target type hmem).mp (h target type hmem),
      fun h target type hmem => (hiff target type hmem).mpr (h target type hmem)⟩
  · refine Resembles.congr (hresult target type hmem) ?_
    have hparts := parts_resemble hparts hlength hmem
    obtain ⟨own, packed, fields, rfl⟩ := isRecord_iff.mp (hrecords _ hmem)
    exact resembles_record hparts
  · rw [hresult target type hmem]
    have hspecialized := parts_specialized hparts (hlength target type hmem) hmem
    have hrenamed := (hstands _ hmem).renamed
    obtain ⟨own, packed, fields, rfl⟩ := isRecord_iff.mp (hrecords _ hmem)
    rw [returned, show renamed (m.image target) own = common from hrenamed]
    exact specializeType_record_ok.mpr ⟨_, hspecialized, rfl⟩

theorem arity_iff {type : SelaType} {inputs results : ℕ} :
    arity type = some (inputs, results) ↔ ∃ inputTypes resultTypes,
      type = .function inputTypes resultTypes ∧ inputTypes.length = inputs ∧
        resultTypes.length = results := by
  cases type <;> simp [arity]

/-- Function types make the round trip when their inputs and results do. -/
theorem functions_merged {merged : List SelaType} {inputs results : ℕ}
    (harity : ∀ other ∈ observation :: rest, arity other.2 = some (inputs, results))
    (hparts : List.Forall₂
      (fun k merged => m.Merged (Observations.part (signatureType k) (observation :: rest)) merged)
      (List.range (inputs + results)) merged) :
    m.Merged (observation :: rest) (.function (merged.take inputs) (merged.drop inputs)) := by
  have hstorages : storages (observation :: rest) =
      (List.range (inputs + results)).flatMap fun k =>
        storages (Observations.part (signatureType k) (observation :: rest)) := by
    obtain ⟨inputTypes, resultTypes, heq, rfl, rfl⟩ := arity_iff.mp (harity observation (by simp))
    rw [storages, heq]
  have hraw : rawIdentities (observation :: rest) =
      (List.range (inputs + results)).flatMap fun k =>
        rawIdentities (Observations.part (signatureType k) (observation :: rest)) := by
    rw [rawIdentities, hstorages, List.flatMap_assoc]
    rfl
  have hn : merged.length = inputs + results := by simpa using hparts.length_eq.symm
  have hlength : ∀ target type, (target, type) ∈ observation :: rest →
      (signatureTypes type).length = inputs + results := by
    intro target type hmem
    obtain ⟨inputTypes, resultTypes, rfl, rfl, rfl⟩ := arity_iff.mp (harity _ hmem)
    simp [signatureTypes]
  have hle : ∀ target type, (target, type) ∈ observation :: rest →
      (signatureTypes type).length ≤ inputs + results := fun _ _ hmem => (hlength _ _ hmem).le
  have htake : ∀ target type, (target, type) ∈ observation :: rest →
      merged.take (signatureTypes type).length = merged := fun target type hmem =>
    List.take_of_length_le (by rw [hn, hlength target type hmem])
  refine ⟨?_, ?_, fun target type hmem => ?_, fun target type hmem => ?_⟩
  · rw [hstorages]
    exact fun storage => parts_images hparts
  · rw [hraw]
    refine Iff.trans ?_ (parts_exact hparts hle)
    refine forall_congr' fun target => forall_congr' fun type => forall_congr' fun hmem => ?_
    rw [htake target type hmem]
    obtain ⟨inputTypes, resultTypes, rfl, rfl, -⟩ := arity_iff.mp (harity _ hmem)
    exact roundTrips_function
  · have hresemble := parts_resemble hparts hle hmem
    rw [htake target type hmem] at hresemble
    obtain ⟨inputTypes, resultTypes, rfl, rfl, -⟩ := arity_iff.mp (harity _ hmem)
    exact resembles_function hresemble
  · have hspecialized := parts_specialized hparts (hle target type hmem) hmem
    rw [htake target type hmem] at hspecialized
    obtain ⟨inputTypes, resultTypes, rfl, rfl, -⟩ := arity_iff.mp (harity _ hmem)
    rw [signatureTypes, List.mapIdx_append, mapM_ok, forall₂_append_iff, List.length_mapIdx,
      ← mapM_ok, ← mapM_ok] at hspecialized
    rw [returned]
    exact specializeType_function_ok.mpr ⟨_, _, hspecialized.1, hspecialized.2, rfl⟩

/-- Overlaps with as many alternatives make the round trip when their alternatives do. -/
theorem overlaps_merged {merged : List SelaType} {common : String}
    (hobserved : Concretes (observation :: rest))
    (hoverlaps : ∀ other ∈ observation :: rest, isOverlap other.2 = true)
    (heven : ∀ other ∈ observation :: rest,
      (alternatives other.2).length = (alternatives observation.2).length)
    (hstands : ∀ other ∈ observation :: rest, m.Stands other.1 (identity other.2) common)
    (hparts : List.Forall₂
      (fun k merged => m.Merged (Observations.part (alternative k) (observation :: rest)) merged)
      (List.range (alternatives observation.2).length) merged) :
    m.Merged (observation :: rest) (.overlap common merged
      (merged.map fun _ => targetSet ((observation :: rest).map fun other => other.1.id))) := by
  have huneven : uneven (observation :: rest) = false := by
    have hrest := (List.forall_mem_cons.mp heven).2
    simp only [uneven, Bool.and_eq_false_iff, Bool.not_eq_false', List.all_eq_true, beq_iff_eq]
    exact .inr hrest
  have hstorages : storages (observation :: rest) = (observation :: rest) ::
      (List.range (alternatives observation.2).length).flatMap fun k =>
        storages (Observations.part (alternative k) (observation :: rest)) := by
    obtain ⟨own, alternatives', domains, heq⟩ :=
      isOverlap_iff.mp (hoverlaps observation (by simp))
    rw [storages, heq]
    simp only [huneven, Bool.false_eq_true, if_false]
    rfl
  have hraw : rawIdentities (observation :: rest) =
      (List.range (alternatives observation.2).length).flatMap fun k =>
        rawIdentities (Observations.part (alternative k) (observation :: rest)) := by
    rw [rawIdentities, hstorages, List.flatMap_cons, List.flatMap_assoc]
    simp [rawAlternatives, huneven, rawIdentities]
  have hn : merged.length = (alternatives observation.2).length := by
    simpa using hparts.length_eq.symm
  have hle : ∀ target type, (target, type) ∈ observation :: rest →
      (alternatives type).length ≤ (alternatives observation.2).length :=
    fun _ _ hmem => (heven _ hmem).le
  have htake : ∀ target type, (target, type) ∈ observation :: rest →
      merged.take (alternatives type).length = merged := fun target type hmem =>
    List.take_of_length_le (by rw [hn, heven _ hmem])
  have hids : ∀ target type, (target, type) ∈ observation :: rest →
      target.id ∈ (observation :: rest).map fun other => other.1.id :=
    fun target type hmem => List.mem_map.mpr ⟨(target, type), hmem, rfl⟩
  refine ⟨?_, ?_, fun target type hmem => ?_, fun target type hmem => ?_⟩
  · rw [hstorages]
    exact List.forall_mem_cons.mpr ⟨⟨common, hstands⟩, fun storage => parts_images hparts⟩
  · rw [hraw]
    refine Iff.trans ?_ (parts_exact hparts hle)
    refine forall_congr' fun target => forall_congr' fun type => forall_congr' fun hmem => ?_
    rw [htake target type hmem]
    have hstand := hstands _ hmem
    have hconcrete := hobserved.concrete _ _ hmem
    have hid := hids _ _ hmem
    obtain ⟨own, alternatives', domains, rfl⟩ := isOverlap_iff.mp (hoverlaps _ hmem)
    exact roundTrips_overlap hstand hid hconcrete
  · have hresemble := parts_resemble hparts hle hmem
    rw [htake target type hmem] at hresemble
    have hconcrete := hobserved.concrete _ _ hmem
    have hid := hids _ _ hmem
    obtain ⟨own, alternatives', domains, rfl⟩ := isOverlap_iff.mp (hoverlaps _ hmem)
    exact resembles_overlap hid hconcrete hresemble
  · have hspecialized := parts_specialized hparts (hle target type hmem) hmem
    rw [htake target type hmem] at hspecialized
    have hrenamed := (hstands _ hmem).renamed
    have hconcrete := hobserved.concrete _ _ hmem
    have hid := hids _ _ hmem
    obtain ⟨own, alternatives', domains, rfl⟩ := isOverlap_iff.mp (hoverlaps _ hmem)
    obtain ⟨hne, rfl, -⟩ := hconcrete
    rw [returned, show renamed (m.image target) own = common from hrenamed]
    refine (specializeType_overlap_all hid).mpr ⟨_, hspecialized, by simpa [alternatives] using hne, ?_⟩
    simp [huneven, alternatives, alternative]

/-- Overlaps that do not have as many alternatives make the round trip when each identity of
their alternatives is its own image. -/
theorem raw_merged {common : String} (hobserved : Concretes (observation :: rest))
    (hoverlaps : ∀ other ∈ observation :: rest, isOverlap other.2 = true)
    (huneven : ¬∀ other ∈ observation :: rest,
      (alternatives other.2).length = (alternatives observation.2).length)
    (hstands : ∀ other ∈ observation :: rest, m.Stands other.1 (identity other.2) common)
    (hresult : ∀ target type, (target, type) ∈ observation :: rest →
      specializeType target result =
        specializeType target (.overlap common (alternatives type) (domains type))) :
    m.Merged (observation :: rest) result := by
  have huneven : uneven (observation :: rest) = true := by
    simp only [uneven, Bool.and_eq_true, hoverlaps observation (by simp), true_and,
      Bool.not_eq_true']
    rw [← Bool.not_eq_true, List.all_eq_true]
    intro hall
    refine huneven (List.forall_mem_cons.mpr ⟨rfl, fun other hother => ?_⟩)
    simpa using hall other hother
  have hstorages : storages (observation :: rest) = [observation :: rest] := by
    obtain ⟨own, alternatives', domains, heq⟩ :=
      isOverlap_iff.mp (hoverlaps observation (by simp))
    rw [storages, heq]
    simp only [huneven, if_true]
  refine ⟨?_, ?_, fun target type hmem => ?_, fun target type hmem => ?_⟩
  · rw [hstorages]
    exact List.forall_mem_singleton.mpr ⟨common, hstands⟩
  · rw [rawIdentities, hstorages, List.flatMap_singleton, rawAlternatives, if_pos huneven,
      kept_flatMap, Prod.forall]
    refine forall_congr' fun target => forall_congr' fun type => forall_congr' fun hmem => ?_
    rw [RoundTrips.congr (hresult target type hmem)]
    have hstand := hstands _ hmem
    have hconcrete := hobserved.concrete _ _ hmem
    obtain ⟨own, alternatives', domains, rfl⟩ := isOverlap_iff.mp (hoverlaps _ hmem)
    refine (roundTrips_raw hstand hconcrete).trans ?_
    simp only [Kept, alternatives, List.mem_map, Prod.mk.injEq]
    constructor
    · rintro h target' own' ⟨_, hown, rfl, rfl⟩
      exact h _ hown
    · exact fun h own' hown => h target own' ⟨own', hown, rfl, rfl⟩
  · refine Resembles.congr (hresult target type hmem) ?_
    have hconcrete := hobserved.concrete _ _ hmem
    obtain ⟨own, alternatives', domains, rfl⟩ := isOverlap_iff.mp (hoverlaps _ hmem)
    exact resembles_raw hconcrete
  · rw [hresult target type hmem]
    have hrenamed := (hstands _ hmem).renamed
    have hconcrete := hobserved.concrete _ _ hmem
    obtain ⟨own, alternatives', domains, rfl⟩ := isOverlap_iff.mp (hoverlaps _ hmem)
    have hself : (SelaType.overlap common alternatives' domains).Concrete target.id := hconcrete
    rw [returned, show renamed (m.image target) own = common from hrenamed, if_pos huneven]
    exact specializeType_of_concrete hself

end Branches

/-! ## The merge of types -/

theorem maximum_eq {observation : TargetInfo × SelaType} {rest : Observations TargetInfo SelaType}
    (h : ∀ other ∈ observation :: rest,
      (fields other.2).length = (fields observation.2).length) :
    maximum (observation :: rest) = (fields observation.2).length := by
  refine Nat.le_antisymm (foldl_max_le (Nat.zero_le _) fun x hx => ?_)
    (@length_fields_le (observation :: rest) observation.1 observation.2 (by simp))
  obtain ⟨other, hother, rfl⟩ := List.mem_map.mp hx
  exact (h other hother).le

theorem isWhole_of_isInteger {type : SelaType} (h : isInteger type = true) :
    isWhole type = true := by
  cases type <;> simp_all [isInteger, isWhole]

/-- Specialized for each of the targets, a merged type is the type observed, its identities
replaced by their images, but for those of alternatives that stay as they are. -/
theorem mergeType_ok : ∀ {observations : Observations TargetInfo SelaType} {m m' : Merger}
    {merged : SelaType}, Concretes observations →
    exec (mergeType observations) m = (.ok merged, m') →
    m.Grows m' ∧ ∀ later, m'.Grows later → later.Merged observations merged
  | [], m, m', merged, _, h => by
    rw [mergeType] at h
    simp [fail] at h
  | observation :: rest, m, m', merged, hobserved, h => by
    have hsmaller : ∀ part : Subpart SelaType SelaType,
        (Observations.part part (observation :: rest)).weight <
          Observations.weight (observation :: rest) := fun part =>
      Observations.weight_part_lt part sizeOf_type_pos (List.cons_ne_nil _ _)
    have hparts : ∀ {part : ℕ → Subpart SelaType SelaType} {n : ℕ} {m m' : Merger}
        {merged : List SelaType},
        (∀ k, Concretes (Observations.part (part k) (observation :: rest))) →
        exec ((List.range n).mapM fun k =>
          mergeType (Observations.part (part k) (observation :: rest))) m = (.ok merged, m') →
        m.Grows m' ∧ ∀ later, m'.Grows later → List.Forall₂ (fun k merged =>
          later.Merged (Observations.part (part k) (observation :: rest)) merged)
          (List.range n) merged := by
      intro part n m m' merged hpart h
      exact exec_mapM_ok Grows.refl Grows.trans (fun k _ s type t hk => by
        have := hsmaller (part k)
        exact mergeType_ok (hpart k) hk) h
    rw [mergeType] at h
    split at h
    · rename_i hall
      obtain ⟨hresult, rfl⟩ := Prod.mk.inj h
      obtain rfl := Except.ok.inj hresult
      refine ⟨.refl _, fun later _ => whole_merged hall.1 fun target type hmem => ?_⟩
      obtain rfl : type = observation.2 := hall.2 _ hmem
      exact ⟨hall.1, specializeType_of_concrete (hobserved.concrete _ _ hmem)⟩
    split at h
    · rename_i hintegers
      have hwhole := isWhole_of_isInteger (hintegers observation (by simp))
      split at h
      · rename_i hwords
        obtain ⟨hresult, rfl⟩ := Prod.mk.inj h
        obtain rfl := Except.ok.inj hresult
        refine ⟨.refl _, fun later _ => whole_merged hwhole fun target type hmem =>
          ⟨isWhole_of_isInteger (hintegers _ hmem), ?_⟩⟩
        obtain rfl : type = .integer target.wordBits := hwords _ hmem
        rw [specializeType, pure_eq_ok]
      · obtain ⟨hresult, rfl⟩ := Prod.mk.inj h
        obtain rfl := Except.ok.inj hresult
        refine ⟨.refl _, fun later _ => whole_merged hwhole fun target type hmem =>
          ⟨isWhole_of_isInteger (hintegers _ hmem), ?_⟩⟩
        rw [specializeType_choiceOf (f := fun other => other.2) hobserved hmem]
        exact specializeType_of_concrete (hobserved.concrete _ _ hmem)
    split at h
    · rename_i harrays
      obtain ⟨elementType, t, helement, h⟩ := exec_bind_ok.mp h
      obtain ⟨hresult, rfl⟩ := Prod.mk.inj h
      obtain rfl := Except.ok.inj hresult
      have := hsmaller element
      obtain ⟨hgrows, hmerged⟩ := mergeType_ok hobserved.element helement
      refine ⟨hgrows, fun later hlater => arrays_merged (fun target type hmem => ?_)
        (hmerged later hlater)⟩
      have hconcrete := hobserved.concrete _ _ hmem
      have harray := harrays _ hmem
      cases type with
      | array inner counted =>
        obtain ⟨extent, rfl⟩ := hconcrete.2
        refine ⟨inner, extent, rfl, ?_⟩
        have hselected : selectAttribute (choice ((observation :: rest).map fun other =>
            (other.1, count other.2))) target.id = .ok (.integer 64 extent) := by
          refine selectAttribute_choice ?_ (List.mem_map.mpr ⟨_, hmem, rfl⟩) (by simp)
          rw [List.map_map]
          exact nodup_ids hobserved.nodup hobserved.registered
        rw [evaluateInteger, hselected]
        rfl
      | _ => simp [isArray] at harray
    split at h
    · rename_i own packed fields' heq
      obtain ⟨_, hrecords, h⟩ := exec_check_bind_ok.mp h
      obtain ⟨common, t, hidentity, h⟩ := exec_bind_ok.mp h
      have hrecords := expect_ok.mp hrecords
      obtain ⟨hgrows, hstands⟩ := storageIdentity_ok hidentity
      have hfields : fields observation.2 = fields' := by rw [heq]; rfl
      split at h
      · rename_i hsame
        obtain ⟨results, u, hresults, h⟩ := exec_bind_ok.mp h
        obtain ⟨hresult, rfl⟩ := Prod.mk.inj h
        obtain rfl := Except.ok.inj hresult
        obtain ⟨hgrows', hmerged⟩ := hparts hobserved.field hresults
        refine ⟨hgrows.trans _ _ _ hgrows', fun later hlater => ?_⟩
        have hlength : ∀ other ∈ observation :: rest,
            (fields other.2).length = (fields observation.2).length := fun other hother => by
          rw [(hsame other hother).2, hfields]
        have hpieces := hmerged later hlater
        rw [← hfields, ← maximum_eq hlength] at hpieces
        have hn : results.length = maximum (observation :: rest) := by
          simpa using hpieces.length_eq.symm
        refine records_merged hrecords (fun other hother => (hstands other hother).grows
          (hgrows'.trans _ _ _ hlater)) hpieces fun target type hmem => ?_
        rw [(hsame _ hmem).1, List.take_of_length_le]
        rw [hn, maximum_eq hlength, hlength _ hmem]
      · obtain ⟨results, u, hresults, h⟩ := exec_bind_ok.mp h
        obtain ⟨hresult, rfl⟩ := Prod.mk.inj h
        obtain rfl := Except.ok.inj hresult
        obtain ⟨hgrows', hmerged⟩ := hparts hobserved.field hresults
        refine ⟨hgrows.trans _ _ _ hgrows', fun later hlater => ?_⟩
        exact records_merged hrecords (fun other hother => (hstands other hother).grows
          (hgrows'.trans _ _ _ hlater)) (hmerged later hlater) fun target type hmem =>
            specializeType_choiceOf hobserved hmem
    · rename_i inputs results heq
      obtain ⟨_, harity, h⟩ := exec_check_bind_ok.mp h
      obtain ⟨pieces, u, hpieces, h⟩ := exec_bind_ok.mp h
      obtain ⟨hresult, rfl⟩ := Prod.mk.inj h
      obtain rfl := Except.ok.inj hresult
      obtain ⟨hgrows, hmerged⟩ := hparts hobserved.signatureType hpieces
      exact ⟨hgrows, fun later hlater =>
        functions_merged (expect_ok.mp harity) (hmerged later hlater)⟩
    · rename_i own alternatives' domains' heq
      obtain ⟨_, hoverlaps, h⟩ := exec_check_bind_ok.mp h
      obtain ⟨common, t, hidentity, h⟩ := exec_bind_ok.mp h
      have hoverlaps := expect_ok.mp hoverlaps
      obtain ⟨hgrows, hstands⟩ := storageIdentity_ok hidentity
      have halternatives : alternatives observation.2 = alternatives' := by rw [heq]; rfl
      rw [← halternatives] at h
      split at h
      · rename_i heven
        obtain ⟨results, u, hresults, h⟩ := exec_bind_ok.mp h
        obtain ⟨hresult, rfl⟩ := Prod.mk.inj h
        obtain rfl := Except.ok.inj hresult
        obtain ⟨hgrows', hmerged⟩ := hparts hobserved.alternative hresults
        exact ⟨hgrows.trans _ _ _ hgrows', fun later hlater => overlaps_merged hobserved hoverlaps
          heven (fun other hother => (hstands other hother).grows (hgrows'.trans _ _ _ hlater))
          (hmerged later hlater)⟩
      · rename_i huneven
        obtain ⟨hresult, rfl⟩ := Prod.mk.inj h
        obtain rfl := Except.ok.inj hresult
        exact ⟨hgrows, fun later hlater => raw_merged hobserved hoverlaps huneven
          (fun other hother => (hstands other hother).grows hlater) fun target type hmem =>
            specializeType_choiceOf hobserved hmem⟩
    · simp [fail] at h
termination_by observations => observations.weight

/-! ## What a merge sees of attributes -/

/-- The attributes a merge takes as they are, as types, or as a choice. -/
def leaves : Observations TargetInfo Attr → List (Observations TargetInfo Attr)
  | [] => []
  | observation :: rest =>
    let observations : Observations TargetInfo Attr := observation :: rest
    match observation.2 with
    | .array elements =>
      if ∀ other ∈ observations, (other.2.asArray?.map List.length) = some elements.length then
        (List.range elements.length).flatMap fun k => leaves (observations.part (item k))
      else [observations]
    | .dictionary entries =>
      if ∀ other ∈ observations, hasEntries entries other.2 = true then
        entries.flatMap fun named => leaves (observations.part (entry named.1))
      else [observations]
    | _ => [observations]
termination_by observations => observations.weight
decreasing_by
  all_goals exact Observations.weight_part_lt _ sizeOf_attr_pos (List.cons_ne_nil _ _)

/-- Whether every attribute is a type. -/
def allTypes (observations : Observations TargetInfo Attr) : Prop :=
  ∀ other ∈ observations, (content.get other.2).isSome = true

instance (observations : Observations TargetInfo Attr) : Decidable (allTypes observations) :=
  List.decidableBAll _ _

/-- The records and overlaps a merge of attributes takes for the same storage. -/
def attrStorages (observations : Observations TargetInfo Attr) :
    List (Observations TargetInfo SelaType) :=
  (leaves observations).flatMap fun leaf => if allTypes leaf then storages (leaf.part content) else []

/-- The identities of attributes that stay as they are. -/
def rawLeaf (leaf : Observations TargetInfo Attr) : Observations TargetInfo String :=
  if allTypes leaf then rawIdentities (leaf.part content)
  else leaf.flatMap fun observation =>
    observation.2.identities.map fun own => (observation.1, own)

/-- The identities a merge of attributes leaves as they are. -/
def rawAttrIdentities (observations : Observations TargetInfo Attr) :
    Observations TargetInfo String :=
  (leaves observations).flatMap rawLeaf

/-- What becomes of an attribute observed on a target : arrays of one length, dictionaries of the
same names and types become what their parts become, any other attribute stays as it is. -/
def returnedAttr (m : Merger) (target : TargetInfo) : Observations TargetInfo Attr → Attr → Attr
  | [], attr => attr
  | observation :: rest, attr =>
    let observations : Observations TargetInfo Attr := observation :: rest
    match attr with
    | .type type =>
      if allTypes observations then .type (m.returned target (observations.part content) type)
      else .type type
    | .array elements =>
      if ∀ other ∈ observations, (other.2.asArray?.map List.length) = some elements.length then
        .array (elements.mapIdx fun k element =>
          returnedAttr m target (observations.part (item k)) element)
      else .array elements
    | .dictionary entries =>
      if ∀ other ∈ observations, hasEntries entries other.2 = true then
        .dictionary (entries.map fun named =>
          (named.1, returnedAttr m target (observations.part (entry named.1)) named.2))
      else .dictionary entries
    | attr => attr
termination_by observations => observations.weight
decreasing_by
  all_goals exact Observations.weight_part_lt _ sizeOf_attr_pos (List.cons_ne_nil _ _)

/-! ## The round trip of attributes -/

/-- What is specialized for a target is the attribute observed, each identity replaced by its
image. -/
structure AttrRoundTrips (m : Merger) (numeric : Bool) (target : TargetInfo)
    (attr merged : Attr) : Prop where
  knows : m.Knows target attr.identities
  specialized : specializeAttribute target numeric merged = .ok (attr.rename (m.image target))

/-- What is specialized for a target is the attribute observed up to its identities. -/
def AttrResembles (numeric : Bool) (target : TargetInfo) (attr merged : Attr) : Prop :=
  ∃ result, specializeAttribute target numeric merged = .ok result ∧
    result.rename (fun _ => "") = attr.rename fun _ => ""

/-- What a merge makes of the attributes observed. -/
structure AttrMerged (m : Merger) (numeric : Bool) (observations : Observations TargetInfo Attr)
    (merged : Attr) : Prop where
  images : ∀ storage ∈ attrStorages observations, ∃ common, ∀ observation ∈ storage,
    m.Stands observation.1 (identity observation.2) common
  exact : (∀ target attr, (target, attr) ∈ observations →
    m.AttrRoundTrips numeric target attr merged) ↔ m.Kept (rawAttrIdentities observations)
  resembles : ∀ target attr, (target, attr) ∈ observations →
    AttrResembles numeric target attr merged
  specialized : ∀ target attr, (target, attr) ∈ observations →
    specializeAttribute target numeric merged = .ok (m.returnedAttr target observations attr)

/-- Attributes observed on distinct registered targets, each with nothing left to select. -/
structure ConcreteAttrs (numeric : Bool) (observations : Observations TargetInfo Attr) : Prop where
  nodup : (observations.map Prod.fst).Nodup
  registered : ∀ target attr, (target, attr) ∈ observations → target ∈ targets.all
  concrete : ∀ target attr, (target, attr) ∈ observations → attr.Concrete target numeric

theorem ConcreteAttrs.part {numeric numeric' : Bool} {observations : Observations TargetInfo Attr}
    (h : ConcreteAttrs numeric observations) {part : Subpart Attr Attr}
    (hpart : ∀ target whole value, Attr.Concrete target numeric whole →
      part.get whole = some value → value.Concrete target numeric') :
    ConcreteAttrs numeric' (observations.part part) where
  nodup := h.nodup.sublist (Observations.part_sublist part observations)
  registered target attr hmem := by
    obtain ⟨whole, hwhole, -⟩ := Observations.mem_part.mp hmem
    exact h.registered target whole hwhole
  concrete target attr hmem := by
    obtain ⟨whole, hwhole, hget⟩ := Observations.mem_part.mp hmem
    exact hpart target whole attr (h.concrete target whole hwhole) hget

theorem ConcreteAttrs.item {numeric : Bool} {observations : Observations TargetInfo Attr}
    (h : ConcreteAttrs numeric observations) (k : ℕ) :
    ConcreteAttrs numeric (observations.part (item k)) := by
  refine h.part fun target whole value hconcrete hget => ?_
  have hmem : value ∈ items whole := List.mem_of_getElem? hget
  unfold items at hmem
  split at hmem
  · exact attrsConcrete_iff.mp hconcrete value hmem
  · simp at hmem

theorem ConcreteAttrs.entry {numeric : Bool} {observations : Observations TargetInfo Attr}
    (h : ConcreteAttrs numeric observations) (name : String) :
    ConcreteAttrs (numeric || name == "integer") (observations.part (entry name)) := by
  refine h.part fun target whole value hconcrete hget => ?_
  simp only [Merger.entry] at hget
  split at hget
  · exact entriesConcrete_iff.mp hconcrete.2.2.2 _ (Attributes.mem_of_get hget)
  · simp at hget

theorem ConcreteAttrs.content {numeric : Bool} {observations : Observations TargetInfo Attr}
    (h : ConcreteAttrs numeric observations) : Concretes (observations.part content) where
  nodup := h.nodup.sublist (Observations.part_sublist _ observations)
  registered target type hmem := by
    obtain ⟨whole, hwhole, -⟩ := Observations.mem_part.mp hmem
    exact h.registered target whole hwhole
  concrete target type hmem := by
    obtain ⟨whole, hwhole, hget⟩ := Observations.mem_part.mp hmem
    obtain rfl := Attr.asType?_eq_some.mp hget
    exact h.concrete target _ hwhole

theorem plain_of_concrete {target : TargetInfo} {numeric : Bool} {attr : Attr}
    (h : attr.Concrete target numeric) : ∀ entries, attr = .dictionary entries →
      Attributes.get entries "target_cases" = none := by
  rintro entries rfl
  exact h.2.1

/-- A target sees of a choice of attributes the one observed. -/
theorem specializeAttribute_choice {numeric : Bool} {observations : Observations TargetInfo Attr}
    (hobserved : ConcreteAttrs numeric observations) {target : TargetInfo} {attr : Attr}
    (hmem : (target, attr) ∈ observations) :
    specializeAttribute target numeric (choice observations) = .ok attr := by
  have hconcrete := hobserved.concrete target attr hmem
  have hselected := selectAttribute_choice (nodup_ids hobserved.nodup hobserved.registered) hmem
    (plain_of_concrete hconcrete)
  have hself := specializeAttribute_of_concrete hconcrete
  rw [specializeAttribute_eq, selectAttribute_of_plain (plain_of_concrete hconcrete)] at hself
  rw [specializeAttribute_eq, hselected]
  exact hself

/-- What entries another dictionary has depends on their names. -/
theorem hasEntries_congr {entries entries' : Attributes}
    (h : entries.map Prod.fst = entries'.map Prod.fst) (attr : Attr) :
    hasEntries entries attr = hasEntries entries' attr := by
  have hall : ∀ (entries held : Attributes), (entries.all fun entry =>
      (Attributes.get held entry.1).isSome) =
        (entries.map Prod.fst).all fun name => (Attributes.get held name).isSome :=
    fun entries held => by rw [List.all_map]; rfl
  have hlength : entries.length = entries'.length := by simpa using congrArg List.length h
  cases attr <;> simp only [hasEntries]
  rw [hall, hall, h, hlength]

/-- Two dictionaries in order with as many names, those of the one in the other, have the
same names. -/
theorem names_eq {entries entries' : Attributes} (hsorted : Attributes.Sorted entries)
    (hsorted' : Attributes.Sorted entries') (hentries : hasEntries entries (.dictionary entries') = true) :
    entries'.map Prod.fst = entries.map Prod.fst := by
  obtain ⟨hlength, hall⟩ := by simpa [hasEntries] using hentries
  have hsubset : entries.map Prod.fst ⊆ entries'.map Prod.fst := by
    intro name hname
    obtain ⟨⟨_, value⟩, hmem, rfl⟩ := List.mem_map.mp hname
    obtain ⟨value', hvalue'⟩ := Option.isSome_iff_exists.mp (hall _ _ hmem)
    exact List.mem_map.mpr ⟨_, Attributes.mem_of_get hvalue', rfl⟩
  have hnodup : (entries.map Prod.fst).Nodup := hsorted.imp fun h => h.ne
  have hperm : (entries.map Prod.fst).Perm (entries'.map Prod.fst) :=
    (hnodup.subperm hsubset).perm_of_length_le (by simp [hlength])
  exact (hperm.eq_of_pairwise (fun _ _ _ _ h h' => absurd h' (lt_asymm h)) hsorted hsorted').symm

theorem leaves_of_whole {observation : TargetInfo × Attr} {rest : Observations TargetInfo Attr}
    (harray : ∀ elements, observation.2 = .array elements →
      ¬∀ other ∈ observation :: rest, (other.2.asArray?.map List.length) = some elements.length)
    (hdictionary : ∀ entries, observation.2 = .dictionary entries →
      ¬∀ other ∈ observation :: rest, hasEntries entries other.2 = true) :
    leaves (observation :: rest) = [observation :: rest] := by
  rw [leaves]
  split
  · rename_i elements heq
    exact if_neg (harray elements heq)
  · rename_i entries heq
    exact if_neg (hdictionary entries heq)
  · rfl

/-- Attributes that have no parts in common with the others stay as they are. -/
theorem returnedAttr_leaf {m : Merger} {numeric : Bool} {observation : TargetInfo × Attr}
    {rest : Observations TargetInfo Attr} (hobserved : ConcreteAttrs numeric (observation :: rest))
    (harray : ∀ elements, observation.2 = .array elements →
      ¬∀ other ∈ observation :: rest, (other.2.asArray?.map List.length) = some elements.length)
    (hdictionary : ∀ entries, observation.2 = .dictionary entries →
      ¬∀ other ∈ observation :: rest, hasEntries entries other.2 = true)
    (htypes : ¬allTypes (observation :: rest)) {target : TargetInfo} {attr : Attr}
    (hmem : (target, attr) ∈ observation :: rest) :
    m.returnedAttr target (observation :: rest) attr = attr := by
  cases attr with
  | type type => rw [returnedAttr, if_neg htypes]
  | array elements =>
    rw [returnedAttr]
    refine if_neg fun hall => ?_
    obtain ⟨elements', helements, hlength⟩ :=
      Option.map_eq_some_iff.mp (hall observation List.mem_cons_self)
    refine harray elements' (Attr.asArray?_eq_some.mp helements) ?_
    rwa [hlength]
  | dictionary entries =>
    rw [returnedAttr]
    refine if_neg fun hall => ?_
    have hhead := hall observation List.mem_cons_self
    have hconcrete := hobserved.concrete observation.1 observation.2 List.mem_cons_self
    cases heq : observation.2 with
    | dictionary entries' =>
      rw [heq] at hhead hconcrete
      have hnames := names_eq (hobserved.concrete _ _ hmem).1 hconcrete.1 hhead
      refine hdictionary entries' heq fun other hother => ?_
      rw [hasEntries_congr hnames]
      exact hall other hother
    | _ => simp [heq, hasEntries] at hhead
  | _ => simp [returnedAttr]

section Leaves

variable {m : Merger} {numeric : Bool} {observation : TargetInfo × Attr}
  {rest : Observations TargetInfo Attr} {result : Attr}

/-- Attributes that stay as they are make the round trip when each of their identities is its
own image. -/
theorem leaf_merged (hobserved : ConcreteAttrs numeric (observation :: rest))
    (harray : ∀ elements, observation.2 = .array elements →
      ¬∀ other ∈ observation :: rest, (other.2.asArray?.map List.length) = some elements.length)
    (hdictionary : ∀ entries, observation.2 = .dictionary entries →
      ¬∀ other ∈ observation :: rest, hasEntries entries other.2 = true)
    (htypes : ¬allTypes (observation :: rest))
    (hresult : ∀ target attr, (target, attr) ∈ observation :: rest →
      specializeAttribute target numeric result = .ok attr) :
    m.AttrMerged numeric (observation :: rest) result := by
  have hleaves := leaves_of_whole harray hdictionary
  refine ⟨?_, ?_, fun target attr hmem => ⟨attr, hresult target attr hmem, rfl⟩,
    fun target attr hmem => ?_⟩
  · rw [attrStorages, hleaves, List.flatMap_singleton, if_neg htypes]
    simp
  · rw [rawAttrIdentities, hleaves, List.flatMap_singleton, rawLeaf, if_neg htypes, kept_flatMap,
      Prod.forall]
    refine forall_congr' fun target => forall_congr' fun attr => forall_congr' fun hmem => ?_
    have hkept : m.Kept (attr.identities.map fun own => (target, own)) ↔
        ∀ own ∈ attr.identities, m.shared target own = some own := by
      simp only [Kept, List.mem_map, Prod.mk.injEq]
      constructor
      · exact fun h own hown => h target own ⟨own, hown, rfl, rfl⟩
      · rintro h target' own' ⟨_, hown, rfl, rfl⟩
        exact h _ hown
    rw [hkept, ← knows_fixed, ← Attr.rename_eq_self]
    constructor
    · rintro ⟨hknows, hspecialized⟩
      rw [hresult target attr hmem] at hspecialized
      exact ⟨hknows, (Except.ok.inj hspecialized).symm⟩
    · rintro ⟨hknows, hrename⟩
      exact ⟨hknows, by rw [hresult target attr hmem, hrename]⟩
  · rw [hresult target attr hmem, returnedAttr_leaf hobserved harray hdictionary htypes hmem]

theorem specializeAttribute_type_ok {target : TargetInfo} {type : SelaType} :
    specializeAttribute target numeric (.type type) = .ok result ↔
      ∃ type', specializeType target type = .ok type' ∧ result = .type type' := by
  rw [specializeAttribute_eq, selectAttribute_of_plain (by simp), ok_bind, bind_ok]
  simp only [pure_eq_ok, Except.ok.injEq, eq_comm]

/-- Attributes that are types make the round trip when the types do. -/
theorem types_merged {merged : SelaType} (htypes : allTypes (observation :: rest))
    (hmerged : m.Merged (Observations.part content (observation :: rest)) merged) :
    m.AttrMerged numeric (observation :: rest) (.type merged) := by
  have hleaves : leaves (observation :: rest) = [observation :: rest] := by
    obtain ⟨type, htype⟩ := Option.isSome_iff_exists.mp (htypes observation (by simp))
    have htype := Attr.asType?_eq_some.mp htype
    rw [leaves, htype]
  have hmem_type : ∀ target attr, (target, attr) ∈ observation :: rest → ∃ type,
      attr = .type type ∧ (target, type) ∈ Observations.part content (observation :: rest) := by
    intro target attr hmem
    obtain ⟨type, htype⟩ := Option.isSome_iff_exists.mp (htypes _ hmem)
    exact ⟨type, Attr.asType?_eq_some.mp htype, Observations.mem_part.mpr ⟨_, hmem, htype⟩⟩
  refine ⟨?_, ?_, fun target attr hmem => ?_, fun target attr hmem => ?_⟩
  · rw [attrStorages, hleaves, List.flatMap_singleton, if_pos htypes]
    exact hmerged.images
  · rw [rawAttrIdentities, hleaves, List.flatMap_singleton, rawLeaf, if_pos htypes,
      ← hmerged.exact]
    constructor
    · intro h target type hmem
      obtain ⟨whole, hwhole, hget⟩ := Observations.mem_part.mp hmem
      obtain rfl := Attr.asType?_eq_some.mp hget
      obtain ⟨hknows, hspecialized⟩ := h target _ hwhole
      obtain ⟨type', htype', heq⟩ := specializeAttribute_type_ok.mp hspecialized
      rw [Attr.rename] at heq
      obtain rfl := Attr.type.inj heq
      exact ⟨hknows, htype'⟩
    · intro h target attr hmem
      obtain ⟨type, rfl, hpart⟩ := hmem_type target attr hmem
      obtain ⟨hknows, hspecialized⟩ := h target type hpart
      exact ⟨hknows, specializeAttribute_type_ok.mpr ⟨_, hspecialized, by rw [Attr.rename]⟩⟩
  · obtain ⟨type, rfl, hpart⟩ := hmem_type target attr hmem
    obtain ⟨type', htype', hrename⟩ := hmerged.resembles target type hpart
    refine ⟨_, specializeAttribute_type_ok.mpr ⟨type', htype', rfl⟩, ?_⟩
    rw [Attr.rename, Attr.rename, hrename]
  · obtain ⟨type, rfl, hpart⟩ := hmem_type target attr hmem
    rw [returnedAttr, if_pos htypes]
    exact specializeAttribute_type_ok.mpr ⟨_, hmerged.specialized target type hpart, rfl⟩

theorem specializeAttribute_array_ok {target : TargetInfo} {elements : List Attr} :
    specializeAttribute target numeric (.array elements) = .ok result ↔
      ∃ values, elements.mapM (fun element => specializeAttribute target numeric element) =
        .ok values ∧ result = .array values := by
  rw [specializeAttribute_eq, selectAttribute_of_plain (by simp), ok_bind, bind_ok]
  simp only [pure_eq_ok, Except.ok.injEq, eq_comm]

/-- An array makes the round trip when its elements do. -/
theorem roundTrips_array {target : TargetInfo} {merged elements : List Attr} :
    m.AttrRoundTrips numeric target (.array elements) (.array merged) ↔
      List.Forall₂ (fun merged element => m.AttrRoundTrips numeric target element merged) merged
        elements := by
  constructor
  · rintro ⟨hknows, hspecialized⟩
    obtain ⟨values, hvalues, heq⟩ := specializeAttribute_array_ok.mp hspecialized
    rw [Attr.rename, attrsRename_eq] at heq
    obtain rfl := Attr.array.inj heq
    rw [mapM_ok, List.forall₂_map_right_iff] at hvalues
    rw [Attr.identities, attrsIdentities_eq] at hknows
    exact forall₂_imp_of_mem hvalues fun _ _ element helement hspecialized =>
      ⟨fun own hown => hknows own (List.mem_flatMap.mpr ⟨element, helement, hown⟩), hspecialized⟩
  · intro h
    refine ⟨fun own hown => ?_, specializeAttribute_array_ok.mpr
      ⟨elements.map (Attr.rename (m.image target)), ?_, by rw [Attr.rename, attrsRename_eq]⟩⟩
    · rw [Attr.identities, attrsIdentities_eq] at hown
      obtain ⟨element, helement, hown⟩ := List.mem_flatMap.mp hown
      obtain ⟨_, -, hround⟩ := exists_of_forall₂_right h helement
      exact hround.knows own hown
    · rw [mapM_ok, List.forall₂_map_right_iff]
      exact h.imp fun _ _ h => h.specialized

theorem resembles_array {target : TargetInfo} {merged elements : List Attr}
    (h : List.Forall₂ (fun merged element => AttrResembles numeric target element merged) merged
      elements) :
    AttrResembles numeric target (.array elements) (.array merged) := by
  obtain ⟨values, hvalues, hrenames⟩ : ∃ values,
      merged.mapM (fun element => specializeAttribute target numeric element) = .ok values ∧
        attrsRename (fun _ => "") values = attrsRename (fun _ => "") elements := by
    induction h with
    | nil => exact ⟨[], rfl, rfl⟩
    | cons hhead _ ih =>
      obtain ⟨value, hvalue, hrename⟩ := hhead
      obtain ⟨values, hvalues, hrenames⟩ := ih
      refine ⟨value :: values, ?_, ?_⟩
      · rw [mapM_cons, hvalue, ok_bind, hvalues, ok_bind, pure_eq_ok]
      · rw [attrsRename, attrsRename, hrename, hrenames]
  refine ⟨_, specializeAttribute_array_ok.mpr ⟨values, hvalues, rfl⟩, ?_⟩
  rw [Attr.rename, Attr.rename, hrenames]

/-- Arrays of as many elements make the round trip when their elements do. -/
theorem items_merged {merged : List Attr} {n : ℕ}
    (hlengths : ∀ other ∈ observation :: rest, (other.2.asArray?.map List.length) = some n)
    (hparts : List.Forall₂
      (fun k merged => m.AttrMerged numeric (Observations.part (item k) (observation :: rest)) merged)
      (List.range n) merged) :
    m.AttrMerged numeric (observation :: rest) (.array merged) := by
  have harray : ∀ target attr, (target, attr) ∈ observation :: rest → ∃ elements,
      attr = .array elements ∧ elements.length = n := by
    intro target attr hmem
    obtain ⟨elements, helements, hlength⟩ := Option.map_eq_some_iff.mp (hlengths _ hmem)
    exact ⟨elements, Attr.asArray?_eq_some.mp helements, hlength⟩
  have hleaves : leaves (observation :: rest) =
      (List.range n).flatMap fun k => leaves (Observations.part (item k) (observation :: rest)) := by
    obtain ⟨elements, helements, rfl⟩ := harray observation.1 observation.2 (by simp)
    rw [leaves, helements]
    exact if_pos hlengths
  have hn : merged.length = n := by simpa using hparts.length_eq.symm
  have hle : ∀ target attr, (target, attr) ∈ observation :: rest → (items attr).length ≤ n := by
    intro target attr hmem
    obtain ⟨elements, rfl, hlength⟩ := harray target attr hmem
    exact hlength.le
  have htake : ∀ target attr, (target, attr) ∈ observation :: rest →
      merged.take (items attr).length = merged := by
    intro target attr hmem
    obtain ⟨elements, rfl, hlength⟩ := harray target attr hmem
    exact List.take_of_length_le (by rw [hn, ← hlength]; rfl)
  refine ⟨?_, ?_, fun target attr hmem => ?_, fun target attr hmem => ?_⟩
  · intro storage hstorage
    rw [attrStorages, hleaves, List.flatMap_assoc] at hstorage
    obtain ⟨k, hk, hstorage⟩ := List.mem_flatMap.mp hstorage
    obtain ⟨_, -, hmerged⟩ := exists_of_forall₂_left hparts hk
    exact hmerged.images storage hstorage
  · rw [rawAttrIdentities, hleaves, List.flatMap_assoc]
    refine Iff.trans ?_ (@exact_of_parts Attr Attr _ _ m (observation :: rest) items
      sizeOf_item_lt n (m.AttrRoundTrips numeric) (fun k => rawAttrIdentities
        (Observations.part (item k) (observation :: rest))) merged
      (hparts.imp fun _ _ h => h.exact) hle)
    refine forall_congr' fun target => forall_congr' fun attr => forall_congr' fun hmem => ?_
    rw [htake target attr hmem]
    obtain ⟨elements, rfl, -⟩ := harray target attr hmem
    exact roundTrips_array
  · have hresemble := @each_of_parts Attr Attr _ _ (observation :: rest) items sizeOf_item_lt n
      (AttrResembles numeric) merged (hparts.imp fun _ _ h => h.resembles) hle _ _ hmem
    rw [htake target attr hmem] at hresemble
    obtain ⟨elements, rfl, -⟩ := harray target attr hmem
    exact resembles_array hresemble
  · have hspecialized := @mapM_of_parts Attr Attr _ _ (observation :: rest) items sizeOf_item_lt n
      (fun attr => specializeAttribute target numeric attr) (fun k part =>
        m.returnedAttr target (Observations.part (item k) (observation :: rest)) part) merged target
      (hparts.imp fun _ _ h part hpart => h.specialized target part hpart) attr
      (hle target attr hmem) hmem
    rw [htake target attr hmem] at hspecialized
    obtain ⟨elements, rfl, rfl⟩ := harray target attr hmem
    rw [returnedAttr, if_pos hlengths]
    exact specializeAttribute_array_ok.mpr ⟨_, hspecialized, rfl⟩

/-! ### Dictionaries -/

/-- What a name has in one of two dictionaries with the same names. -/
theorem get_forall₂ {R : Attr → Attr → Prop} {name : String} {value : Attr} :
    ∀ {entries entries' : Attributes},
      List.Forall₂ (fun named named' => named.1 = named'.1 ∧ R named.2 named'.2) entries entries' →
      Attributes.get entries name = some value →
      ∃ value', Attributes.get entries' name = some value' ∧ R value value'
  | _, _, .cons (a := (key, held)) (b := (key', held')) ⟨hkey, hheld⟩ hrest, h => by
    obtain rfl : key = key' := hkey
    rw [Attributes.get_cons] at h ⊢
    split at h
    · obtain rfl := Option.some.inj h
      exact ⟨held', if_pos ‹_›, hheld⟩
    · rw [if_neg ‹_›]
      exact get_forall₂ hrest h

/-- A count is a number, of any type, or a text. -/
theorem count_plain {target : TargetInfo} {numeric : Bool} {count : Attr} {extent : ℕ}
    (hconcrete : count.Concrete target numeric) (h : evaluateInteger count target = .ok extent) :
    (∃ width value, count = .integer width value) ∨ (∃ text, count = .string text) ∨
      ∃ attr, count = .foreign attr := by
  rw [evaluateInteger, selectAttribute_of_plain (plain_of_concrete hconcrete), ok_bind] at h
  cases count <;> simp_all

/-- The data of an initializer that resembles a concrete one is not cut. -/
theorem clipArray_of_resembles {target : TargetInfo} {own values : Attributes}
    (hsorted : Attributes.Sorted values) (hconcrete : (Attr.dictionary own).Concrete target numeric)
    (h : List.Forall₂ (fun value named => value.1 = named.1 ∧
      value.2.rename (fun _ => "") = named.2.rename fun _ => "") values own) :
    clipArray target values = .ok (.dictionary values) := by
  unfold clipArray
  split
  · rename_i elements count harray hcount
    obtain ⟨raw, hraw, helements⟩ := Option.bind_eq_some_iff.mp harray
    obtain rfl : raw = .array elements := by simpa using helements
    obtain ⟨array', harray', hrename⟩ := @get_forall₂ (fun value own =>
      value.rename (fun _ => "") = own.rename fun _ => "") _ _ _ _ h hraw
    obtain ⟨count', hcount', hrenameCount⟩ := @get_forall₂ (fun value own =>
      value.rename (fun _ => "") = own.rename fun _ => "") _ _ _ _ h hcount
    obtain ⟨elements', rfl, hlength⟩ : ∃ elements', array' = .array elements' ∧
        elements'.length = elements.length := by
      rw [Attr.rename, attrsRename_eq] at hrename
      cases array' with
      | array elements' =>
        rw [Attr.rename, attrsRename_eq] at hrename
        have hlengths := congrArg List.length (Attr.array.inj hrename)
        exact ⟨elements', rfl, by simpa using hlengths.symm⟩
      | _ => simp [Attr.rename] at hrename
    have hcounted := hconcrete.2.2.1 elements' count' harray' hcount'
    have hentry := entriesConcrete_iff.mp hconcrete.2.2.2 _ (Attributes.mem_of_get hcount')
    obtain rfl : count = count' := by
      rcases count_plain hentry hcounted with ⟨width, value, rfl⟩ | ⟨text, rfl⟩ | ⟨attr, rfl⟩ <;>
        cases count <;> simp_all [Attr.rename]
    rw [hcounted, ok_bind, hlength, if_neg (lt_irrefl _), List.take_length,
      Attributes.set_of_get hsorted hraw]
    rfl
  · rfl

/-- What a dictionary whose entries resemble a concrete one's becomes. -/
theorem specializeAttribute_dictionary {target : TargetInfo} {own merged : Attributes}
    (hconcrete : (Attr.dictionary own).Concrete target numeric)
    (h : List.Forall₂ (fun merged named => merged.1 = named.1 ∧
      AttrResembles (numeric || named.1 == "integer") target named.2 merged.2) merged own) :
    ∃ values : Attributes, List.Forall₂ (fun merged value => value.1 = merged.1 ∧
        specializeAttribute target (numeric || merged.1 == "integer") merged.2 = .ok value.2)
        merged values ∧
      List.Forall₂ (fun value named => value.1 = named.1 ∧
        value.2.rename (fun _ => "") = named.2.rename fun _ => "") values own ∧
      specializeAttribute target numeric (.dictionary merged) = .ok (.dictionary values) := by
  have hnames : merged.map Prod.fst = own.map Prod.fst :=
    (map_eq_of_forall₂ (h.imp fun _ _ h => h.1.symm)).symm
  obtain ⟨values, hvalues, hown⟩ : ∃ values : Attributes, List.Forall₂ (fun merged value => value.1 = merged.1 ∧
        specializeAttribute target (numeric || merged.1 == "integer") merged.2 = .ok value.2)
        merged values ∧
      List.Forall₂ (fun value named => value.1 = named.1 ∧
        value.2.rename (fun _ => "") = named.2.rename fun _ => "") values own := by
    clear hconcrete hnames
    induction h with
    | nil => exact ⟨[], .nil, .nil⟩
    | @cons merged named _ _ hhead _ ih =>
      obtain ⟨hname, value, hvalue, hrename⟩ := hhead
      obtain ⟨values, hvalues, hown⟩ := ih
      exact ⟨(merged.1, value) :: values, .cons ⟨rfl, by rw [hname]; exact hvalue⟩ hvalues,
        .cons ⟨hname, hrename⟩ hown⟩
  have hsorted : Attributes.Sorted values := by
    unfold Attributes.Sorted
    rw [map_eq_of_forall₂ (hvalues.imp fun _ _ h => h.1), hnames]
    exact hconcrete.1
  have hplain : selectAttribute (.dictionary merged) target.id = .ok (.dictionary merged) := by
    refine selectAttribute_of_plain fun entries hentries => ?_
    obtain rfl := Attr.dictionary.inj hentries
    rw [Attributes.get_eq_none_iff, hnames, ← Attributes.get_eq_none_iff]
    exact hconcrete.2.1
  refine ⟨values, hvalues, hown, ?_⟩
  have hmapM : (merged.mapM fun entry => do
      let value ← specializeAttribute target (numeric || entry.1 == "integer") entry.2
      pure (entry.1, value)) = .ok values := by
    refine mapM_ok.mpr (hvalues.imp fun entry value hvalue => ?_)
    rw [hvalue.2, ok_bind, ← hvalue.1, pure_eq_ok]
  rw [specializeAttribute_eq, hplain, ok_bind]
  change ((merged.mapM fun entry => do
      let value ← specializeAttribute target (numeric || entry.1 == "integer") entry.2
      pure (entry.1, value)) >>= fun values => clipArray target values) = _
  rw [hmapM, ok_bind, clipArray_of_resembles hsorted hconcrete hown]

/-- A dictionary makes the round trip when its entries do. -/
theorem roundTrips_dictionary {target : TargetInfo} {own merged : Attributes}
    (hconcrete : (Attr.dictionary own).Concrete target numeric)
    (h : List.Forall₂ (fun merged named => merged.1 = named.1 ∧
      AttrResembles (numeric || named.1 == "integer") target named.2 merged.2) merged own) :
    m.AttrRoundTrips numeric target (.dictionary own) (.dictionary merged) ↔
      List.Forall₂ (fun merged named => m.AttrRoundTrips (numeric || named.1 == "integer") target
        named.2 merged.2) merged own := by
  obtain ⟨values, hvalues, hown, hspecialize⟩ := specializeAttribute_dictionary hconcrete h
  have hnames : List.Forall₂ (fun merged named => merged.1 = named.1) merged own :=
    h.imp fun _ _ h => h.1
  constructor
  · rintro ⟨hknows, hspecialized⟩
    rw [hspecialize, Attr.rename, entriesRename_eq] at hspecialized
    obtain rfl := Attr.dictionary.inj (Except.ok.inj hspecialized)
    rw [List.forall₂_map_right_iff] at hvalues
    rw [Attr.identities, entriesIdentities_eq] at hknows
    exact forall₂_imp_of_mem hvalues fun merged _ named hnamed hvalue =>
      ⟨fun own hown => hknows own (List.mem_flatMap.mpr ⟨named, hnamed, hown⟩), by
        rw [hvalue.1]
        exact hvalue.2⟩
  · intro hrounds
    refine ⟨fun identity hidentity => ?_, ?_⟩
    · rw [Attr.identities, entriesIdentities_eq] at hidentity
      obtain ⟨named, hnamed, hidentity⟩ := List.mem_flatMap.mp hidentity
      obtain ⟨_, -, hround⟩ := exists_of_forall₂_right hrounds hnamed
      exact hround.knows identity hidentity
    · rw [hspecialize, Attr.rename, entriesRename_eq]
      refine congrArg (fun values => Except.ok (Attr.dictionary values)) ?_
      clear hspecialize hown h hconcrete
      induction hvalues generalizing own with
      | nil =>
        cases hrounds
        rfl
      | @cons merged value _ _ hvalue _ ih =>
        cases hrounds with
        | @cons _ named _ _ hround hrounds =>
          cases hnames with
          | cons hname hnames =>
            rw [List.map_cons, ih hnames hrounds]
            have hspecialized := hround.specialized
            rw [← hname] at hspecialized
            rw [hvalue.2] at hspecialized
            obtain ⟨key, held⟩ := value
            obtain rfl := Except.ok.inj hspecialized
            rw [← hname, ← hvalue.1]

theorem resembles_dictionary {target : TargetInfo} {own merged : Attributes}
    (hconcrete : (Attr.dictionary own).Concrete target numeric)
    (h : List.Forall₂ (fun merged named => merged.1 = named.1 ∧
      AttrResembles (numeric || named.1 == "integer") target named.2 merged.2) merged own) :
    AttrResembles numeric target (.dictionary own) (.dictionary merged) := by
  obtain ⟨values, -, hown, hspecialize⟩ := specializeAttribute_dictionary hconcrete h
  refine ⟨_, hspecialize, ?_⟩
  rw [Attr.rename, Attr.rename, entriesRename_eq, entriesRename_eq]
  refine congrArg Attr.dictionary ?_
  clear hspecialize h hconcrete
  induction hown with
  | nil => rfl
  | cons hhead _ ih => rw [List.map_cons, List.map_cons, ih, hhead.1, hhead.2]

theorem forall₂_and {α β : Type} {R S : α → β → Prop} {xs : List α} {ys : List β}
    (hR : List.Forall₂ R xs ys) (hS : List.Forall₂ S xs ys) :
    List.Forall₂ (fun x y => R x y ∧ S x y) xs ys := by
  induction hR with
  | nil => exact .nil
  | cons hx _ ih =>
    cases hS with
    | cons hx' hS => exact .cons ⟨hx, hx'⟩ (ih hS)

/-- Dictionaries with the same names make the round trip when their entries do. -/
theorem entries_merged {entries merged : Attributes}
    (hobserved : ConcreteAttrs numeric (observation :: rest))
    (hhead : observation.2 = .dictionary entries)
    (hsame : ∀ other ∈ observation :: rest, hasEntries entries other.2 = true)
    (hparts : List.Forall₂ (fun named merged => merged.1 = named.1 ∧
      m.AttrMerged (numeric || named.1 == "integer")
        (Observations.part (entry named.1) (observation :: rest)) merged.2) entries merged) :
    m.AttrMerged numeric (observation :: rest) (.dictionary merged) := by
  have hleaves : leaves (observation :: rest) = entries.flatMap fun named =>
      leaves (Observations.part (entry named.1) (observation :: rest)) := by
    rw [leaves, hhead]
    exact if_pos hsame
  have hsorted : Attributes.Sorted entries := by
    have := hobserved.concrete observation.1 observation.2 (by simp)
    rw [hhead] at this
    exact this.1
  have hnames : merged.map Prod.fst = entries.map Prod.fst :=
    map_eq_of_forall₂ (hparts.imp fun _ _ h => h.1)
  have hnodup : (merged.map Prod.fst).Nodup := by
    rw [hnames]
    exact hsorted.imp fun h => h.ne
  have hdictionary : ∀ target attr, (target, attr) ∈ observation :: rest →
      ∃ own, attr = .dictionary own := by
    intro target attr hmem
    have := hsame _ hmem
    cases attr <;> simp_all [hasEntries]
  -- The merged entries beside those of one observation, which have the same names.
  have hbeside : ∀ target own, (target, Attr.dictionary own) ∈ observation :: rest →
      List.Forall₂ (fun merged named => merged.1 = named.1 ∧ named.1 ∈ entries.map Prod.fst ∧
        (target, named.2) ∈ Observations.part (entry named.1) (observation :: rest) ∧
        m.AttrMerged (numeric || named.1 == "integer")
          (Observations.part (entry named.1) (observation :: rest)) merged.2) merged own := by
    intro target own hmem
    have hown := (hobserved.concrete target _ hmem).1
    have hkeys := names_eq hsorted hown (hsame _ hmem)
    refine forall₂_of_getElem? ?_ fun i made named hmade hnamed => ?_
    · simpa using congrArg List.length (hnames.trans hkeys.symm)
    have hi : (entries.map Prod.fst)[i]? = some named.1 := by
      rw [← hkeys, List.getElem?_map, hnamed]
      rfl
    obtain ⟨held, hheld, hkey⟩ := Option.map_eq_some_iff.mp (List.getElem?_map (f := Prod.fst) ▸ hi)
    obtain ⟨made', hmade', hname, hmerged⟩ := forall₂_getElem? hparts hheld
    obtain rfl := Option.some.inj (hmade.symm.trans hmade')
    rw [hkey] at hname hmerged
    exact ⟨hname, List.mem_of_getElem? hi, Observations.mem_part.mpr ⟨_, hmem,
      hown.get_of_mem (List.mem_of_getElem? hnamed)⟩, hmerged⟩
  have hresembles : ∀ target own, (target, Attr.dictionary own) ∈ observation :: rest →
      List.Forall₂ (fun merged named => merged.1 = named.1 ∧
        AttrResembles (numeric || named.1 == "integer") target named.2 merged.2) merged own :=
    fun target own hmem => (hbeside target own hmem).imp fun _ named h =>
      ⟨h.1, h.2.2.2.resembles target named.2 h.2.2.1⟩
  refine ⟨?_, ?_, fun target attr hmem => ?_, fun target attr hmem => ?_⟩
  · intro storage hstorage
    rw [attrStorages, hleaves, List.flatMap_assoc] at hstorage
    obtain ⟨named, hnamed, hstorage⟩ := List.mem_flatMap.mp hstorage
    obtain ⟨_, -, hmerged⟩ := exists_of_forall₂_left hparts hnamed
    exact hmerged.2.images storage hstorage
  · rw [rawAttrIdentities, hleaves, List.flatMap_assoc, kept_flatMap]
    constructor
    · intro h named hnamed
      obtain ⟨made, hmade, hname, hmerged⟩ := exists_of_forall₂_left hparts hnamed
      refine hmerged.exact.mp fun target value hvalue => ?_
      obtain ⟨whole, hwhole, hget⟩ := Observations.mem_part.mp hvalue
      obtain ⟨own, rfl⟩ := hdictionary target whole hwhole
      have hrounds := (roundTrips_dictionary (hobserved.concrete _ _ hwhole)
        (hresembles target own hwhole)).mp (h target _ hwhole)
      have hget : Attributes.get own named.1 = some value := hget
      obtain ⟨made', hmade', hbeside', hround⟩ := exists_of_forall₂_right
        (forall₂_and (hbeside target own hwhole) hrounds) (Attributes.mem_of_get hget)
      have heq : made' = made := List.inj_on_of_nodup_map hnodup hmade' hmade
        (hbeside'.1.trans hname.symm)
      rw [← heq]
      exact hround
    · intro h target attr hmem
      obtain ⟨own, rfl⟩ := hdictionary target attr hmem
      refine (roundTrips_dictionary (hobserved.concrete _ _ hmem)
        (hresembles target own hmem)).mpr ((hbeside target own hmem).imp fun made named hbeside => ?_)
      obtain ⟨-, hname, hpart, hmerged⟩ := hbeside
      obtain ⟨⟨key, held⟩, hentry, hkey⟩ := List.mem_map.mp hname
      have hkept := h _ hentry
      rw [show key = named.1 from hkey] at hkept
      exact hmerged.exact.mpr hkept target named.2 hpart
  · obtain ⟨own, rfl⟩ := hdictionary target attr hmem
    exact resembles_dictionary (hobserved.concrete _ _ hmem) (hresembles target own hmem)
  · obtain ⟨own, rfl⟩ := hdictionary target attr hmem
    obtain ⟨values, hvalues, -, hspecialize⟩ :=
      specializeAttribute_dictionary (hobserved.concrete _ _ hmem) (hresembles target own hmem)
    have hown := (hobserved.concrete target _ hmem).1
    have hkeys := names_eq hsorted hown (hsame _ hmem)
    rw [returnedAttr, if_pos fun other hother => (hasEntries_congr hkeys _).trans (hsame other hother),
      hspecialize, map_eq_of_forall₂_left (fun made named value hbeside hvalue => ?_)
        (hbeside target own hmem) hvalues]
    obtain ⟨hname, -, hpart, hmerged⟩ := hbeside
    obtain ⟨key, held⟩ := value
    obtain ⟨rfl, hheld⟩ := hvalue
    rw [hname] at hheld
    obtain rfl := Except.ok.inj (hheld.symm.trans (hmerged.specialized target named.2 hpart))
    rw [hname]

end Leaves

/-! ## The merge of attributes -/

/-- Specialized for each of the targets, a merged attribute is the attribute observed, its
identities replaced by their images, but for those of attributes that stay as they are. -/
theorem mergeAttribute_ok : ∀ {observations : Observations TargetInfo Attr} {numeric : Bool}
    {m m' : Merger} {merged : Attr}, observations ≠ [] → ConcreteAttrs numeric observations →
    exec (mergeAttribute observations) m = (.ok merged, m') →
    m.Grows m' ∧ ∀ later, m'.Grows later → later.AttrMerged numeric observations merged
  | [], _, _, _, _, hne, _, _ => absurd rfl hne
  | observation :: rest, numeric, m, m', merged, _, hobserved, h => by
    have hsmaller : ∀ part : Subpart Attr Attr,
        (Observations.part part (observation :: rest)).weight <
          Observations.weight (observation :: rest) := fun part =>
      Observations.weight_part_lt part sizeOf_attr_pos (List.cons_ne_nil _ _)
    have hne : ∀ {part : Subpart Attr Attr} {value : Attr}, part.get observation.2 = some value →
        Observations.part part (observation :: rest) ≠ [] := fun hget =>
      List.ne_nil_of_mem (Observations.mem_part.mpr ⟨_, List.mem_cons_self, hget⟩)
    have hchoice : ∀ {later : Merger},
        (∀ elements, observation.2 = .array elements → ¬∀ other ∈ observation :: rest,
          (other.2.asArray?.map List.length) = some elements.length) →
        (∀ entries, observation.2 = .dictionary entries →
          ¬∀ other ∈ observation :: rest, hasEntries entries other.2 = true) →
        ¬allTypes (observation :: rest) →
        later.AttrMerged numeric (observation :: rest) (choice (observation :: rest)) :=
      fun harray hdictionary htypes => leaf_merged hobserved harray hdictionary htypes
        fun target attr hmem => specializeAttribute_choice hobserved hmem
    rw [mergeAttribute] at h
    split at h
    · rename_i hall
      obtain ⟨hresult, rfl⟩ := Prod.mk.inj h
      obtain rfl := Except.ok.inj hresult
      refine ⟨.refl _, fun later _ => leaf_merged hobserved (fun elements heq => ?_)
        (fun entries heq => ?_) (fun htypes => ?_) fun target attr hmem => ?_⟩
      · simp [isWholeAttr, heq] at hall
      · simp [isWholeAttr, heq] at hall
      · obtain ⟨type, htype⟩ := Option.isSome_iff_exists.mp (htypes observation (by simp))
        simp [isWholeAttr, Attr.asType?_eq_some.mp htype] at hall
      · obtain rfl : attr = observation.2 := hall.2 _ hmem
        exact specializeAttribute_of_concrete (hobserved.concrete _ _ hmem)
    split at h
    · rename_i htypes
      obtain ⟨type, t, htype, h⟩ := exec_bind_ok.mp h
      obtain ⟨hresult, rfl⟩ := Prod.mk.inj h
      obtain rfl := Except.ok.inj hresult
      obtain ⟨hgrows, hmerged⟩ := mergeType_ok hobserved.content htype
      exact ⟨hgrows, fun later hlater => types_merged htypes (hmerged later hlater)⟩
    rename_i htypes
    split at h
    · rename_i elements heq
      split at h
      · rename_i hlengths
        obtain ⟨results, t, hresults, h⟩ := exec_bind_ok.mp h
        obtain ⟨hresult, rfl⟩ := Prod.mk.inj h
        obtain rfl := Except.ok.inj hresult
        obtain ⟨hgrows, hmerged⟩ := exec_mapM_ok Grows.refl Grows.trans
          (Q := fun k merged later => later.AttrMerged numeric
            (Observations.part (item k) (observation :: rest)) merged)
          (fun k hk s attr t hrun => by
            have := hsmaller (item k)
            have hget : (item k).get observation.2 = some (elements.get ⟨k, List.mem_range.mp hk⟩) := by
              rw [heq]
              exact List.getElem?_eq_getElem _
            exact mergeAttribute_ok (hne hget) (hobserved.item k) hrun) hresults
        exact ⟨hgrows, fun later hlater => items_merged hlengths (hmerged later hlater)⟩
      · rename_i hlengths
        obtain ⟨hresult, rfl⟩ := Prod.mk.inj h
        obtain rfl := Except.ok.inj hresult
        refine ⟨.refl _, fun later _ => hchoice (fun elements' heq' => ?_)
          (fun entries heq' => ?_) htypes⟩
        · obtain rfl := Attr.array.inj (heq.symm.trans heq')
          exact hlengths
        · exact absurd (heq.symm.trans heq') (by simp)
    · rename_i entries heq
      split at h
      · rename_i hsame
        obtain ⟨results, t, hresults, h⟩ := exec_bind_ok.mp h
        obtain ⟨hresult, rfl⟩ := Prod.mk.inj h
        obtain rfl := Except.ok.inj hresult
        obtain ⟨hgrows, hmerged⟩ := exec_mapM_ok Grows.refl Grows.trans
          (Q := fun named merged later => merged.1 = named.1 ∧
            later.AttrMerged (numeric || named.1 == "integer")
              (Observations.part (entry named.1) (observation :: rest)) merged.2)
          (fun named hnamed s made t hrun => by
            have := hsmaller (entry named.1)
            obtain ⟨value, u, hvalue, hmade⟩ := exec_bind_ok.mp hrun
            obtain ⟨hresult, rfl⟩ := Prod.mk.inj hmade
            obtain rfl := Except.ok.inj hresult
            have hconcrete := hobserved.concrete observation.1 observation.2 (by simp)
            have hget : (entry named.1).get observation.2 = some named.2 := by
              rw [heq] at hconcrete ⊢
              exact hconcrete.1.get_of_mem hnamed
            obtain ⟨hgrows, hmerged⟩ :=
              mergeAttribute_ok (hne hget) (hobserved.entry named.1) hvalue
            exact ⟨hgrows, fun later hlater => ⟨rfl, hmerged later hlater⟩⟩) hresults
        exact ⟨hgrows, fun later hlater =>
          entries_merged hobserved heq hsame (hmerged later hlater)⟩
      · rename_i hsame
        obtain ⟨hresult, rfl⟩ := Prod.mk.inj h
        obtain rfl := Except.ok.inj hresult
        refine ⟨.refl _, fun later _ => hchoice (fun elements heq' => ?_)
          (fun entries' heq' => ?_) htypes⟩
        · exact absurd (heq.symm.trans heq') (by simp)
        · obtain rfl := Attr.dictionary.inj (heq.symm.trans heq')
          exact hsame
    · rename_i harray hdictionary
      obtain ⟨hresult, rfl⟩ := Prod.mk.inj h
      obtain rfl := Except.ok.inj hresult
      exact ⟨.refl _, fun later _ => hchoice (fun elements heq => absurd heq (harray elements))
        (fun entries heq => absurd heq (hdictionary entries)) htypes⟩
termination_by observations => observations.weight

/-! ## Runs of a merge -/

/-- The states a merge reaches from a state, one successful call after the other. -/
inductive Reaches : Merger → Merger → Prop
  | refl (m : Merger) : Reaches m m
  | types {m m' m'' : Merger} {observations : Observations TargetInfo SelaType} {merged : SelaType}
      (before : Reaches m m') (observed : Concretes observations)
      (call : exec (mergeType observations) m' = (.ok merged, m'')) : Reaches m m''
  | attributes {m m' m'' : Merger} {numeric : Bool} {observations : Observations TargetInfo Attr}
      {merged : Attr} (before : Reaches m m') (nonempty : observations ≠ [])
      (observed : ConcreteAttrs numeric observations)
      (call : exec (mergeAttribute observations) m' = (.ok merged, m'')) : Reaches m m''

theorem Reaches.grows {m m' : Merger} (h : m.Reaches m') : m.Grows m' := by
  induction h with
  | refl => exact .refl _
  | types _ observed call ih => exact ih.trans _ _ _ (mergeType_ok observed call).1
  | attributes _ nonempty observed call ih =>
    exact ih.trans _ _ _ (mergeAttribute_ok nonempty observed call).1

theorem Reaches.injective {m : Merger} (h : empty.Reaches m) : m.storageIdentities.Injective := by
  refine h.grows.tables.injective ?_
  intro _ _ _ _ hshared
  simp [Tables.shared, empty] at hshared

/-- In every run of a merge, no two storage identities of one target stand for one shared
identity, each shared one is `r` and a number given out before, and what an identity stands
for never changes. -/
theorem reaches_identities {m m' : Merger} (h : empty.Reaches m) (h' : m.Reaches m') :
    m.storageIdentities.Injective ∧ m.Numbered ∧
      ∀ target own common, m.shared target own = some common →
        m'.shared target own = some common := by
  refine ⟨h.injective, h.grows.numbered ?_, fun _ _ _ => h'.grows.keeps⟩
  intro _ _ _ hshared
  simp [shared, Tables.shared, empty] at hshared

def x86_64 : TargetInfo := ⟨"x86_64", 64⟩

def armv7 : TargetInfo := ⟨"armv7", 32⟩

/-- Records whose field is as wide as the target's word. -/
def wordRecords : Observations TargetInfo SelaType :=
  [(x86_64, .record "r3" false [.integer 64]), (armv7, .record "r0" false [.integer 32])]

theorem wordRecords_concretes : Concretes wordRecords where
  nodup := by decide
  registered target type h := by
    simp only [wordRecords, List.mem_cons, Prod.mk.injEq, List.not_mem_nil, or_false] at h
    rcases h with ⟨rfl, -⟩ | ⟨rfl, -⟩ <;> decide
  concrete target type h := by
    simp only [wordRecords, List.mem_cons, Prod.mk.injEq, List.not_mem_nil, or_false] at h
    rcases h with ⟨rfl, rfl⟩ | ⟨rfl, rfl⟩ <;> simp [SelaType.Concrete, typesConcrete]

theorem mergeType_wordRecords :
    ∃ m', exec (mergeType wordRecords) empty = (.ok (.record "r0" false [.word]), m') := by
  have hfield : mergeType (Observations.part (field 0) wordRecords) = pure .word := by
    rw [show Observations.part (field 0) wordRecords =
      [(x86_64, SelaType.integer 64), (armv7, .integer 32)] from rfl, mergeType]
    simp [isWhole, isInteger, x86_64, armv7]
  have hidentity : exec (storageIdentity wordRecords) empty =
      (.ok "r0", (exec (storageIdentity wordRecords) empty).2) := Prod.ext (by decide +kernel) rfl
  refine ⟨(exec (storageIdentity wordRecords) empty).2, ?_⟩
  rw [wordRecords, mergeType, if_neg (by simp [isWhole]), if_neg (by simp [isInteger]),
    if_neg (by simp [isArray])]
  refine exec_check_bind_ok.mpr ⟨(), expect_ok.mpr (by simp [isRecord]), exec_bind_ok.mpr
    ⟨_, _, hidentity, ?_⟩⟩
  rw [if_pos (by simp [isPacked, fields])]
  refine exec_bind_ok.mpr ⟨[.word], _, ?_, rfl⟩
  change exec ([0].mapM fun k => mergeType (Observations.part (field k) wordRecords)) _ = _
  rw [List.mapM_cons, List.mapM_nil, hfield]
  rfl

/-- In a run that merged these records the identity of each target stands for `r0`. -/
theorem reaches_identities_wordRecords :
    ∃ m', empty.Reaches m' ∧ m'.storageIdentities.Injective ∧ m'.Numbered ∧
      m'.Merged wordRecords (.record "r0" false [.word]) := by
  obtain ⟨m', h⟩ := mergeType_wordRecords
  have hreaches : empty.Reaches m' := .types (.refl _) wordRecords_concretes h
  obtain ⟨hinjective, hnumbered, -⟩ := reaches_identities hreaches (.refl m')
  exact ⟨m', hreaches, hinjective, hnumbered, (mergeType_ok wordRecords_concretes h).2 m' (.refl m')⟩

/-- The attributes of an argument that only one target passes by value. -/
def byvalLists : Observations TargetInfo Attr :=
  [(x86_64, .array [.dictionary [("name", .string "byval"),
    ("type", .type (.record "r3" false [.integer 64]))]]), (armv7, .array [])]

theorem byvalLists_concretes : ConcreteAttrs false byvalLists where
  nodup := by decide
  registered target attr h := by
    simp only [byvalLists, List.mem_cons, Prod.mk.injEq, List.not_mem_nil, or_false] at h
    rcases h with ⟨rfl, -⟩ | ⟨rfl, -⟩ <;> decide
  concrete target attr h := by
    simp only [byvalLists, List.mem_cons, Prod.mk.injEq, List.not_mem_nil, or_false] at h
    rcases h with ⟨rfl, rfl⟩ | ⟨rfl, rfl⟩
    · simp [-String.lt_iff_ltb, Attr.Concrete, attrsConcrete, entriesConcrete, SelaType.Concrete,
        typesConcrete, Attributes.Sorted, Attributes.get_cons, Counted]
    · simp [Attr.Concrete, attrsConcrete]

theorem mergeAttribute_byvalLists (m : Merger) :
    exec (mergeAttribute byvalLists) m = (.ok (choice byvalLists), m) := by
  rw [byvalLists, mergeAttribute, if_neg (by simp [isWholeAttr]),
    if_neg (by simp [content, Attr.asType?])]
  simp [Attr.asArray?]

end Merger

end Sela
