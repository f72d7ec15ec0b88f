import Mathlib.Data.List.Nodup

/-!
# Grouping in first-appearance order

`place` puts an item into the first group that takes it, or into a group of its own at
the end, and returns the position of that group; `place_split` says which of the two
happened. `distinct` keeps the first appearance of each element. `groupBy` places the items of a list one after the other by a key : each key
has one group, and the group holds the items of that key in their order (`mem_groupBy`).
-/

namespace Grouping

variable {α γ κ : Type*}

/-- Let the first group that `fits` take the item by `join`, else append `fresh`. The
position is that of the group that has the item. -/
def place (fits : γ → Bool) (join : γ → γ) (fresh : γ) : List γ → List γ × ℕ
  | [] => ([fresh], 0)
  | g :: gs =>
    if fits g then (join g :: gs, 0)
    else ((g :: (place fits join fresh gs).1), (place fits join fresh gs).2 + 1)

/-- Either the first fitting group takes the item, or no group fits and a new one is
appended. -/
theorem place_split (fits : γ → Bool) (join : γ → γ) (fresh : γ) :
    ∀ groups : List γ,
      (∃ before g after, groups = before ++ g :: after ∧ fits g = true ∧
        (∀ x ∈ before, fits x = false) ∧
        place fits join fresh groups = (before ++ join g :: after, before.length)) ∨
      ((∀ x ∈ groups, fits x = false) ∧
        place fits join fresh groups = (groups ++ [fresh], groups.length))
  | [] => Or.inr ⟨by simp, rfl⟩
  | g :: gs => by
    by_cases hg : fits g = true
    · exact Or.inl ⟨[], g, gs, rfl, hg, by simp, by simp [place, hg]⟩
    · have hg' : fits g = false := by simpa using hg
      rcases place_split fits join fresh gs with
        ⟨before, x, after, rfl, hx, hbefore, hplace⟩ | ⟨hnone, hplace⟩
      · exact Or.inl ⟨g :: before, x, after, rfl, hx, by simpa [hg'] using hbefore,
          by simp [place, hg', hplace]⟩
      · exact Or.inr ⟨by simpa [hg'] using hnone, by simp [place, hg', hplace]⟩

/-- Only the group at the returned position changes : it takes the item, or it is new. -/
theorem place_getElem? (fits : γ → Bool) (join : γ → γ) (fresh : γ) (groups : List γ) :
    (∀ i, i ≠ (place fits join fresh groups).2 →
      (place fits join fresh groups).1[i]? = groups[i]?) ∧
    ((∃ g, groups[(place fits join fresh groups).2]? = some g ∧ fits g = true ∧
        (place fits join fresh groups).1[(place fits join fresh groups).2]? = some (join g)) ∨
      ((place fits join fresh groups).2 = groups.length ∧
        (place fits join fresh groups).1[(place fits join fresh groups).2]? = some fresh)) := by
  rcases place_split fits join fresh groups with
    ⟨before, g, after, rfl, hg, -, hplace⟩ | ⟨-, hplace⟩
  · rw [hplace]
    refine ⟨fun i hi => ?_, Or.inl ⟨g, by simp, hg, by simp⟩⟩
    rcases Nat.lt_or_gt_of_ne hi with h | h
    · simp [List.getElem?_append_left h]
    · obtain ⟨k, rfl⟩ := Nat.exists_eq_add_of_lt h
      simp [Nat.add_assoc, List.getElem?_append_right]
  · rw [hplace]
    refine ⟨fun i hi => ?_, Or.inr ⟨rfl, by simp⟩⟩
    rcases Nat.lt_or_gt_of_ne hi with h | h
    · simp [List.getElem?_append_left h]
    · rw [List.getElem?_eq_none (by simpa using Nat.succ_le_of_lt h),
        List.getElem?_eq_none (Nat.le_of_lt h)]

/-! ## Distinct elements -/

section Distinct

variable [DecidableEq α]

/-- Append an element that is not there yet. -/
def pushNew (seen : List α) (x : α) : List α := if x ∈ seen then seen else seen ++ [x]

theorem mem_pushNew {seen : List α} {x y : α} : y ∈ pushNew seen x ↔ y ∈ seen ∨ y = x := by
  unfold pushNew
  split
  · rename_i hx
    exact ⟨Or.inl, fun h => h.elim id fun h => h ▸ hx⟩
  · simp

omit [DecidableEq α] in
/-- Distinct elements stay distinct with a new one at the end. -/
theorem nodup_concat {seen : List α} {x : α} (h : seen.Nodup) (hx : x ∉ seen) :
    (seen ++ [x]).Nodup := by
  refine List.nodup_append.mpr ⟨h, by simp, ?_⟩
  rintro a ha b hb rfl
  exact hx (List.mem_singleton.mp hb ▸ ha)

theorem nodup_pushNew {seen : List α} {x : α} (h : seen.Nodup) : (pushNew seen x).Nodup := by
  unfold pushNew
  split
  · exact h
  · exact nodup_concat h ‹_›

/-- The distinct elements of a list, in order of first appearance. -/
def distinct (xs : List α) : List α := xs.foldl pushNew []

/-- Each element once, in order of first appearance. -/
structure Distinct (xs ds : List α) : Prop where
  nodup : ds.Nodup
  mem : ∀ x, x ∈ ds ↔ x ∈ xs
  order : ds.Pairwise fun x y => xs.idxOf x < xs.idxOf y

theorem Distinct.pushNew {xs ds : List α} (h : Distinct xs ds) (x : α) :
    Distinct (xs ++ [x]) (pushNew ds x) := by
  have horder : ds.Pairwise fun a b => (xs ++ [x]).idxOf a < (xs ++ [x]).idxOf b :=
    h.order.imp_of_mem fun ha hb hlt => by
      rwa [List.idxOf_append_of_mem ((h.mem _).mp ha), List.idxOf_append_of_mem ((h.mem _).mp hb)]
  unfold Grouping.pushNew
  split
  · rename_i hx
    refine ⟨h.nodup, fun y => ?_, horder⟩
    rw [h.mem, List.mem_append, List.mem_singleton]
    exact ⟨Or.inl, fun hy => hy.elim id fun hy => hy ▸ (h.mem x).mp hx⟩
  · rename_i hx
    refine ⟨?_, fun y => by simp [h.mem], ?_⟩
    · exact List.nodup_append.mpr ⟨h.nodup, by simp, by
        rintro a ha b hb rfl
        exact hx (List.mem_singleton.mp hb ▸ ha)⟩
    · refine List.pairwise_append.mpr ⟨horder, by simp, fun a ha b hb => ?_⟩
      obtain rfl := List.mem_singleton.mp hb
      have ha := (h.mem a).mp ha
      rw [List.idxOf_append_of_mem ha, List.idxOf_append_of_notMem fun hb => hx ((h.mem b).mpr hb)]
      exact Nat.lt_of_lt_of_le (List.idxOf_lt_length_of_mem ha) (Nat.le_add_right _ _)

theorem distinct_foldl : ∀ (passed xs ds : List α), Distinct passed ds →
    Distinct (passed ++ xs) (xs.foldl pushNew ds)
  | passed, [], ds, h => by simpa using h
  | passed, x :: xs, ds, h => by simpa using distinct_foldl (passed ++ [x]) xs _ (h.pushNew x)

/-- What `distinct` returns. -/
theorem distinct_spec (xs : List α) : Distinct xs (distinct xs) := by
  simpa [distinct] using distinct_foldl [] xs [] ⟨by simp, by simp, by simp⟩

end Distinct

/-! ## Groups by key -/

variable [DecidableEq κ]

/-- Add one item to the group of its key. -/
def insertGroup (key : κ) (item : α) (groups : List (κ × List α)) : List (κ × List α) :=
  (place (fun g => g.1 = key) (fun g => (g.1, g.2 ++ [item])) (key, [item]) groups).1

/-- The items by key, the keys and each key's items in order of first appearance. -/
def groupBy (key : α → κ) (items : List α) : List (κ × List α) :=
  items.foldl (fun groups item => insertGroup (key item) item groups) []

/-- Every key has one group, which holds its items in order. -/
structure Groups (key : α → κ) (items : List α) (groups : List (κ × List α)) : Prop where
  nodup : (groups.map Prod.fst).Nodup
  group : ∀ g ∈ groups, g.2 = items.filter (fun x => key x = g.1) ∧ g.2 ≠ []
  covers : ∀ x ∈ items, key x ∈ groups.map Prod.fst

theorem Groups.insertGroup {key : α → κ} {items : List α} {groups : List (κ × List α)}
    (h : Groups key items groups) (x : α) :
    Groups key (items ++ [x]) (insertGroup (key x) x groups) := by
  have hother : ∀ g : κ × List α, g ∈ groups → g.1 ≠ key x →
      g.2 = (items ++ [x]).filter (fun y => key y = g.1) ∧ g.2 ≠ [] := by
    intro g hg hne
    have hfilter : [x].filter (fun y => key y = g.1) = [] := by simp [Ne.symm hne]
    rw [List.filter_append, hfilter, List.append_nil]
    exact h.group g hg
  unfold Grouping.insertGroup
  rcases place_split (fun g : κ × List α => decide (g.1 = key x))
      (fun g => (g.1, g.2 ++ [x])) (key x, [x]) groups with
    ⟨before, g, after, rfl, hg, -, hplace⟩ | ⟨hnone, hplace⟩
  · rw [hplace]
    have hg : g.1 = key x := by simpa using hg
    have hkeys : (before ++ (g.1, g.2 ++ [x]) :: after).map Prod.fst =
        (before ++ g :: after).map Prod.fst := by simp
    have hne : ∀ y ∈ before ++ after, y.1 ≠ key x := by
      intro y hy
      have hnodup : ((before ++ g :: after).map Prod.fst).Nodup := h.nodup
      have hperm : ((g :: (before ++ after)).map Prod.fst).Nodup :=
        (List.perm_middle.map Prod.fst).nodup_iff.mp hnodup
      rw [List.map_cons, List.nodup_cons] at hperm
      exact fun hyx => hperm.1 (List.mem_map.mpr ⟨y, hy, hyx.trans hg.symm⟩)
    refine ⟨hkeys ▸ h.nodup, ?_, ?_⟩
    · intro y hy
      rcases List.mem_append.mp hy with hy | hy
      · exact hother y (by simp [hy]) (hne y (by simp [hy]))
      · rcases List.mem_cons.mp hy with rfl | hy
        · obtain ⟨hitems, -⟩ := h.group g (by simp)
          rw [hg] at hitems
          simpa [List.filter_append, hg] using hitems
        · exact hother y (by simp [hy]) (hne y (by simp [hy]))
    · intro y hy
      rw [hkeys]
      rcases List.mem_append.mp hy with hy | hy
      · exact h.covers y hy
      · rw [List.mem_singleton.mp hy, ← hg]
        simp
  · rw [hplace]
    have hnone : ∀ g ∈ groups, g.1 ≠ key x := fun g hg => by simpa using hnone g hg
    have hfresh : items.filter (fun y => key y = key x) = [] := by
      refine List.filter_eq_nil_iff.mpr fun y hy => ?_
      obtain ⟨g, hg, hgy⟩ := List.mem_map.mp (h.covers y hy)
      simpa [← hgy] using hnone g hg
    refine ⟨?_, ?_, ?_⟩
    · rw [List.map_append, List.nodup_append]
      refine ⟨h.nodup, by simp, ?_⟩
      rintro k hk k' hk' rfl
      obtain ⟨g, hg, rfl⟩ := List.mem_map.mp hk
      exact hnone g hg (by simpa using hk')
    · intro g hg
      rcases List.mem_append.mp hg with hg | hg
      · exact hother g hg (hnone g hg)
      · rw [List.mem_singleton.mp hg]
        simp [List.filter_append, hfresh]
    · intro y hy
      rcases List.mem_append.mp hy with hy | hy
      · have := h.covers y hy
        simp only [List.map_append, List.mem_append]
        exact Or.inl this
      · simp [List.mem_singleton.mp hy]

theorem groups_foldl {key : α → κ} :
    ∀ (passed items : List α) (groups : List (κ × List α)), Groups key passed groups →
      Groups key (passed ++ items)
        (items.foldl (fun groups item => insertGroup (key item) item groups) groups)
  | passed, [], groups, h => by simpa using h
  | passed, x :: items, groups, h => by
    simpa using groups_foldl (passed ++ [x]) items _ (h.insertGroup x)

/-- What `groupBy` returns. -/
theorem groups_groupBy (key : α → κ) (items : List α) : Groups key items (groupBy key items) := by
  simpa [groupBy] using groups_foldl [] items [] ⟨by simp, by simp, by simp⟩

theorem groupBy_nodup (key : α → κ) (items : List α) :
    ((groupBy key items).map Prod.fst).Nodup :=
  (groups_groupBy key items).nodup

/-- The groups : each key that appears, with all its items. -/
theorem mem_groupBy {key : α → κ} {items : List α} {g : κ × List α} :
    g ∈ groupBy key items ↔ g.2 = items.filter (fun x => key x = g.1) ∧ g.2 ≠ [] := by
  have h := groups_groupBy key items
  refine ⟨h.group g, fun ⟨hitems, hne⟩ => ?_⟩
  obtain ⟨x, hx⟩ := List.exists_mem_of_ne_nil _ hne
  rw [hitems, List.mem_filter] at hx
  obtain ⟨g', hg', hkey⟩ := List.mem_map.mp (h.covers x hx.1)
  have hkey : g'.1 = g.1 := hkey.trans (by simpa using hx.2)
  have : g' = g := Prod.ext hkey (by rw [(h.group g' hg').1, hitems, hkey])
  exact this ▸ hg'

/-- An item is in the group of its key, and in no other. -/
theorem mem_group_iff {key : α → κ} {items : List α} {g : κ × List α} (hg : g ∈ groupBy key items)
    {x : α} : x ∈ g.2 ↔ x ∈ items ∧ key x = g.1 := by
  rw [(mem_groupBy.mp hg).1]
  simp

end Grouping
