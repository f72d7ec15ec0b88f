import Mathlib.Data.List.Perm.Subperm
import Sela.Grouping

/-!
# Maps as lists of entries

A map is a list of entries; the first entry of a key is its value. `update` changes the
value of one key, and appends an entry where the key is new.
-/

namespace Association

variable {κ α : Type} [DecidableEq κ]

/-- The entry of a key is the one there is, where keys are distinct. -/
theorem lookup_eq_some_iff_mem {entries : List (κ × α)} (hnodup : (entries.map Prod.fst).Nodup)
    {key : κ} {value : α} : entries.lookup key = some value ↔ (key, value) ∈ entries := by
  induction entries with
  | nil => simp
  | cons entry rest ih =>
    obtain ⟨first, found⟩ := entry
    obtain ⟨hkey, hnodup⟩ := List.nodup_cons.mp hnodup
    rw [List.lookup_cons, List.mem_cons]
    by_cases h : key = first
    · subst h
      have hnone : (key, value) ∉ rest := fun hmem => hkey (List.mem_map.mpr ⟨_, hmem, rfl⟩)
      simp [hnone, eq_comm]
    · simp [beq_eq_false_iff_ne.mpr h, h, ih hnodup]

/-- A key has a value when it is the key of an entry. -/
theorem lookup_isSome_iff_mem {entries : List (κ × α)} {key : κ} :
    (entries.lookup key).isSome = true ↔ key ∈ entries.map Prod.fst := by
  simp only [List.lookup_isSome_iff, List.mem_map]
  exact ⟨fun ⟨entry, hentry, hkey⟩ => ⟨entry, hentry, (beq_iff_eq.mp hkey).symm⟩,
    fun ⟨entry, hentry, hkey⟩ => ⟨entry, hentry, beq_iff_eq.mpr hkey.symm⟩⟩

theorem lookup_eq_none_iff_mem {entries : List (κ × α)} {key : κ} :
    entries.lookup key = none ↔ key ∉ entries.map Prod.fst := by
  rw [← lookup_isSome_iff_mem, Option.not_isSome_iff_eq_none]

/-- Change the value of a key by `f`, which learns whether there is one. -/
def update (key : κ) (f : Option α → α) : List (κ × α) → List (κ × α)
  | [] => [(key, f none)]
  | (first, value) :: rest =>
    if first = key then (first, f (some value)) :: rest else (first, value) :: update key f rest

theorem lookup_update (key : κ) (f : Option α → α) (other : κ) : ∀ entries : List (κ × α),
    (update key f entries).lookup other =
      if other = key then some (f (entries.lookup key)) else entries.lookup other
  | [] => by
    by_cases h : other = key
    · simp [update, h]
    · simp [update, h]
  | (first, value) :: rest => by
    have ih := lookup_update key f other rest
    unfold update
    by_cases hfirst : first = key
    · subst hfirst
      by_cases h : other = first
      · simp [h]
      · simp [h, List.lookup_cons, beq_eq_false_iff_ne.mpr h]
    · have hkey : ¬key = first := fun h => hfirst h.symm
      rw [if_neg hfirst, List.lookup_cons, List.lookup_cons, List.lookup_cons, ih]
      by_cases h : other = first
      · subst h
        simp [hfirst]
      · simp [beq_eq_false_iff_ne.mpr h, beq_eq_false_iff_ne.mpr hkey]

/-- The keys keep their order, and a new one is the last. -/
theorem keys_update (key : κ) (f : Option α → α) : ∀ entries : List (κ × α),
    (update key f entries).map Prod.fst = Grouping.pushNew (entries.map Prod.fst) key
  | [] => rfl
  | (first, value) :: rest => by
    have ih := keys_update key f rest
    rw [Grouping.pushNew] at ih ⊢
    rw [update]
    by_cases hfirst : first = key
    · simp [hfirst]
    · have hkey : ¬key = first := fun h => hfirst h.symm
      simp only [if_neg hfirst, List.map_cons, ih, List.mem_cons, hkey, false_or]
      split <;> simp

theorem mem_keys_update {key : κ} {f : Option α → α} {entries : List (κ × α)} {other : κ} :
    other ∈ (update key f entries).map Prod.fst ↔ other ∈ entries.map Prod.fst ∨ other = key := by
  rw [keys_update]
  exact Grouping.mem_pushNew

theorem nodup_keys_update {key : κ} {f : Option α → α} {entries : List (κ × α)}
    (h : (entries.map Prod.fst).Nodup) : ((update key f entries).map Prod.fst).Nodup := by
  rw [keys_update]
  exact Grouping.nodup_pushNew h

/-- Keep the entries of some keys. -/
theorem lookup_filter (p : κ → Bool) (key : κ) : ∀ entries : List (κ × α),
    (entries.filter fun entry => p entry.1).lookup key = if p key then entries.lookup key else none
  | [] => by simp
  | (first, value) :: rest => by
    have ih := lookup_filter p key rest
    rw [List.filter_cons, List.lookup_cons]
    by_cases h : key = first
    · subst h
      cases hp : p key <;> simp [hp, ih]
    · cases hp : p first <;> simp [List.lookup_cons, beq_eq_false_iff_ne.mpr h, ih]

/-- Change all values. -/
theorem lookup_map {β : Type} (f : α → β) (key : κ) : ∀ entries : List (κ × α),
    (entries.map fun entry => (entry.1, f entry.2)).lookup key = (entries.lookup key).map f
  | [] => rfl
  | (first, value) :: rest => by
    rw [List.map_cons, List.lookup_cons, List.lookup_cons, lookup_map f key rest]
    cases key == first <;> rfl

/-- The position of each element under its key. -/
def positions (key : α → Option κ) (xs : List α) : List (κ × ℕ) :=
  xs.zipIdx.filterMap fun entry => (key entry.1).map (·, entry.2)

omit [DecidableEq κ] in
theorem keys_positions (key : α → Option κ) (xs : List α) :
    (positions key xs).map Prod.fst = xs.filterMap key := by
  have hkey : ∀ entry : α × ℕ, ((key entry.1).map (·, entry.2)).map Prod.fst = key entry.1 :=
    fun entry => by cases key entry.1 <;> rfl
  rw [positions, List.map_filterMap, funext hkey]
  calc xs.zipIdx.filterMap (fun entry => key entry.1)
      = (xs.zipIdx.map Prod.fst).filterMap key := by rw [List.filterMap_map]; rfl
    _ = xs.filterMap key := by simp

/-- A key is found where an element has it, where keys are distinct. -/
theorem lookup_positions {key : α → Option κ} {xs : List α} (hnodup : (xs.filterMap key).Nodup)
    {k : κ} {index : ℕ} :
    (positions key xs).lookup k = some index ↔ ∃ x, xs[index]? = some x ∧ key x = some k := by
  rw [lookup_eq_some_iff_mem (keys_positions key xs ▸ hnodup), positions, List.mem_filterMap]
  constructor
  · rintro ⟨⟨x, i⟩, hmem, hkey⟩
    obtain ⟨k', hk', hpair⟩ := Option.map_eq_some_iff.mp hkey
    obtain ⟨rfl, rfl⟩ := Prod.mk.inj hpair
    exact ⟨x, List.mem_zipIdx_iff_getElem?.mp hmem, hk'⟩
  · rintro ⟨x, hx, hkey⟩
    exact ⟨(x, index), List.mem_zipIdx_iff_getElem?.mpr hx, by simp [hkey]⟩

end Association
