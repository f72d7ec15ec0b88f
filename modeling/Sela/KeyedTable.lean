import Mathlib.Data.List.Induction
import Sela.Checked
import Sela.Grouping

/-!
# Tables of items by key

A table holds one item for each key, in the order in which the keys first came. An item of a key
that is there is joined with the table's own, and the join may fail (`insert`). `collect` inserts
a list of items one after the other : the table it gives holds for each key the items of that key
joined in their order (`Holds`), and it fails only when a join of one key's items does
(`collect_ok_iff`).
-/

namespace KeyedTable

open Checked Grouping

variable {α κ : Type} [DecidableEq κ] (key : α → κ) (join : α → α → Checked α)

/-- Join an item with the one of its key, or append it. -/
def insert : List α → α → Checked (List α)
  | [], x => pure [x]
  | y :: table, x =>
    if key y = key x then do
      let z ← join y x
      pure (z :: table)
    else do
      let table ← insert table x
      pure (y :: table)

/-- Insert items one after the other. -/
def collect (xs : List α) : Checked (List α) := xs.foldlM (insert key join) []

/-- The items of a key, joined in their order. -/
def joined (xs : List α) (k : κ) (result : α) : Prop :=
  ∃ first rest, xs.filter (fun x => key x = k) = first :: rest ∧ rest.foldlM join first = .ok result

/-- A table holds for each key of a list its items joined, in the order of the keys. -/
structure Holds (xs table : List α) : Prop where
  keys : table.map key = distinct (xs.map key)
  joined : ∀ y ∈ table, joined key join xs (key y) y

variable {key join}

/-- What an insertion does. -/
theorem insert_ok {x : α} : ∀ {table table' : List α}, insert key join table x = .ok table' →
    (key x ∉ table.map key ∧ table' = table ++ [x]) ∨
    ∃ before y after z, table = before ++ y :: after ∧ key x ∉ before.map key ∧ key y = key x ∧
      join y x = .ok z ∧ table' = before ++ z :: after
  | [], table', h => .inl ⟨by simp, (Except.ok.inj h).symm⟩
  | y :: table, table', h => by
    unfold insert at h
    split at h
    · rename_i hkey
      obtain ⟨z, hz, h⟩ := bind_ok.mp h
      exact .inr ⟨[], y, table, z, rfl, by simp, hkey, hz, (Except.ok.inj h).symm⟩
    · rename_i hkey
      obtain ⟨rest, hrest, h⟩ := bind_ok.mp h
      obtain rfl := Except.ok.inj h
      rcases insert_ok hrest with ⟨hnot, rfl⟩ | ⟨before, y', after, z, rfl, hnot, hsame, hz, rfl⟩
      · exact .inl ⟨by simpa [Ne.symm hkey] using hnot, rfl⟩
      · exact .inr ⟨y :: before, y', after, z, rfl, by simpa [Ne.symm hkey] using hnot, hsame, hz, rfl⟩

/-- An insertion fails only when its join does. -/
theorem insert_isOk {x : α} : ∀ {table : List α},
    (∀ y ∈ table, key y = key x → ∃ z, join y x = .ok z) →
    ∃ table', insert key join table x = .ok table'
  | [], _ => ⟨[x], rfl⟩
  | y :: table, h => by
    unfold insert
    split
    · rename_i hkey
      obtain ⟨z, hz⟩ := h y (by simp) hkey
      exact ⟨z :: table, bind_ok.mpr ⟨z, hz, rfl⟩⟩
    · obtain ⟨rest, hrest⟩ := insert_isOk fun y' hy' => h y' (List.mem_cons_of_mem _ hy')
      exact ⟨y :: rest, bind_ok.mpr ⟨rest, hrest, rfl⟩⟩

theorem distinct_concat {ks : List κ} {k : κ} :
    distinct (ks ++ [k]) = if k ∈ distinct ks then distinct ks else distinct ks ++ [k] := by
  rw [distinct, List.foldl_append]
  rfl

theorem mem_distinct {ks : List κ} {k : κ} : k ∈ distinct ks ↔ k ∈ ks := (distinct_spec ks).mem k

/-- The items of another key are the same with one more item. -/
theorem joined_concat_of_ne {xs : List α} {x : α} {k : κ} {result : α} (hne : key x ≠ k) :
    joined key join (xs ++ [x]) k result ↔ joined key join xs k result := by
  simp [joined, List.filter_append, hne]

theorem filter_eq_nil_of_notMem {xs : List α} {k : κ} (h : k ∉ xs.map key) :
    xs.filter (fun x => key x = k) = [] :=
  List.filter_eq_nil_iff.mpr fun x hx hk => h (List.mem_map.mpr ⟨x, hx, of_decide_eq_true hk⟩)

/-- A table with an item inserted holds one more item. -/
theorem Holds.insert (hjoin : ∀ {y x z : α}, join y x = .ok z → key y = key x → key z = key y)
    {xs table table' : List α} {x : α} (h : Holds key join xs table)
    (hinsert : insert key join table x = .ok table') : Holds key join (xs ++ [x]) table' := by
  have hmem : key x ∈ table.map key ↔ key x ∈ xs.map key := by rw [h.keys, mem_distinct]
  rcases insert_ok hinsert with ⟨hnot, rfl⟩ | ⟨before, y, after, z, rfl, hnot, hsame, hz, rfl⟩
  · refine ⟨?_, fun y hy => ?_⟩
    · rw [List.map_append, h.keys, List.map_append, List.map_singleton, distinct_concat,
        if_neg (by rwa [← h.keys])]
    · rcases List.mem_append.mp hy with hy | hy
      · have hne : key x ≠ key y := fun heq => hnot (heq ▸ List.mem_map_of_mem hy)
        exact (joined_concat_of_ne hne).mpr (h.joined y hy)
      · obtain rfl := List.mem_singleton.mp hy
        refine ⟨y, [], ?_, rfl⟩
        rw [List.filter_append, filter_eq_nil_of_notMem (mt hmem.mpr hnot)]
        simp
  · have hkey := (hjoin hz hsame).trans hsame
    have hkeys : (before ++ z :: after).map key = (before ++ y :: after).map key := by
      simp [hkey, hsame]
    have hin : key x ∈ (before ++ y :: after).map key := by simp [hsame]
    have hnodup : ((before ++ y :: after).map key).Nodup := h.keys ▸ (distinct_spec _).nodup
    refine ⟨?_, fun w hw => ?_⟩
    · rw [hkeys, h.keys, List.map_append, List.map_singleton, distinct_concat,
        if_pos (by rwa [← h.keys])]
    · rcases List.mem_append.mp hw with hw | hw
      · have hne : key x ≠ key w := fun heq => hnot (heq ▸ List.mem_map_of_mem hw)
        exact (joined_concat_of_ne hne).mpr (h.joined w (List.mem_append_left _ hw))
      · rcases List.mem_cons.mp hw with rfl | hw
        · obtain ⟨first, rest, hfilter, hfold⟩ := h.joined y (by simp)
          refine ⟨first, rest ++ [x], ?_, foldlM_append_ok.mpr ⟨y, hfold, ?_⟩⟩
          · rw [List.filter_append, hkey, ← hsame, hfilter]
            simp [hsame]
          · exact foldlM_cons_ok.mpr ⟨w, hz, rfl⟩
        · have hne : key x ≠ key w := by
            intro heq
            rw [List.map_append, List.map_cons] at hnodup
            exact (List.nodup_cons.mp (List.nodup_append.mp hnodup).2.1).1
              (hsame.trans heq ▸ List.mem_map_of_mem hw)
          exact (joined_concat_of_ne hne).mpr
            (h.joined w (List.mem_append_right _ (List.mem_cons_of_mem _ hw)))

omit [DecidableEq κ] in
theorem eq_of_map_eq {f : α → κ} : ∀ {xs ys : List α}, xs.map f = ys.map f →
    (∀ x ∈ xs, ∀ y ∈ ys, f x = f y → x = y) → xs = ys
  | [], [], _, _ => rfl
  | [], _ :: _, h, _ => by simp at h
  | _ :: _, [], h, _ => by simp at h
  | x :: xs, y :: ys, h, hsame => by
    obtain ⟨hhead, htail⟩ := List.cons_eq_cons.mp h
    rw [hsame x (by simp) y (by simp) hhead, eq_of_map_eq htail fun x' hx' y' hy' =>
      hsame x' (List.mem_cons_of_mem _ hx') y' (List.mem_cons_of_mem _ hy')]

/-- The joined items of a key are one. -/
theorem joined_unique {xs : List α} {k : κ} {y y' : α} (h : joined key join xs k y)
    (h' : joined key join xs k y') : y = y' := by
  obtain ⟨first, rest, hfilter, hfold⟩ := h
  obtain ⟨first', rest', hfilter', hfold'⟩ := h'
  obtain ⟨rfl, rfl⟩ := List.cons_eq_cons.mp (hfilter.symm.trans hfilter')
  exact Except.ok.inj (hfold.symm.trans hfold')

theorem Holds.unique {xs table table' : List α} (h : Holds key join xs table)
    (h' : Holds key join xs table') : table = table' :=
  eq_of_map_eq (h.keys.trans h'.keys.symm) fun y hy y' hy' heq =>
    joined_unique (h.joined y hy) (heq ▸ h'.joined y' hy')

theorem collect_concat {xs : List α} {x : α} {table : List α} :
    collect key join (xs ++ [x]) = .ok table ↔
      ∃ before, collect key join xs = .ok before ∧ insert key join before x = .ok table := by
  rw [collect, foldlM_append_ok]
  refine exists_congr fun before => and_congr_right fun _ => ?_
  rw [foldlM_cons_ok]
  exact ⟨fun ⟨_, hinsert, h⟩ => Except.ok.inj h ▸ hinsert, fun h => ⟨table, h, rfl⟩⟩

/-- What is collected is held. -/
theorem holds_of_collect (hjoin : ∀ {y x z : α}, join y x = .ok z → key y = key x → key z = key y)
    {xs table : List α} (h : collect key join xs = .ok table) : Holds key join xs table := by
  induction xs using List.reverseRecOn generalizing table with
  | nil =>
    obtain rfl := Except.ok.inj h
    exact ⟨rfl, by simp⟩
  | append_singleton xs x ih =>
    obtain ⟨before, hbefore, hinsert⟩ := collect_concat.mp h
    exact (ih hbefore).insert hjoin hinsert

/-- Items whose joins all succeed are collected. -/
theorem collect_isOk (hjoin : ∀ {y x z : α}, join y x = .ok z → key y = key x → key z = key y)
    {xs : List α} (h : ∀ x ∈ xs, ∃ y, joined key join xs (key x) y) :
    ∃ table, collect key join xs = .ok table := by
  induction xs using List.reverseRecOn with
  | nil => exact ⟨[], rfl⟩
  | append_singleton xs x ih =>
    have hprefix : ∀ x' ∈ xs, ∃ y, joined key join xs (key x') y := by
      intro x' hx'
      obtain ⟨y, first, rest, hfilter, hfold⟩ := h x' (List.mem_append_left _ hx')
      by_cases hkey : key x = key x'
      · have hcons : xs.filter (fun x => key x = key x') ≠ [] :=
          List.ne_nil_of_mem (List.mem_filter.mpr ⟨hx', by simp⟩)
        obtain ⟨first', rest', hfirst⟩ := List.exists_cons_of_ne_nil hcons
        rw [List.filter_append, hfirst] at hfilter
        obtain ⟨rfl, rfl⟩ := List.cons_eq_cons.mp hfilter
        obtain ⟨middle, hmiddle, -⟩ := foldlM_append_ok.mp hfold
        exact ⟨middle, first', rest', hfirst, hmiddle⟩
      · exact ⟨y, (joined_concat_of_ne hkey).mp ⟨first, rest, hfilter, hfold⟩⟩
    obtain ⟨before, hbefore⟩ := ih hprefix
    have hholds := holds_of_collect hjoin hbefore
    obtain ⟨table, htable⟩ : ∃ table, insert key join before x = .ok table := by
      refine insert_isOk fun y hy hsame => ?_
      obtain ⟨first, rest, hfilter, hfold⟩ := hholds.joined y hy
      obtain ⟨z, first', rest', hfilter', hfold'⟩ := h x (by simp)
      rw [List.filter_append, ← hsame, hfilter] at hfilter'
      obtain ⟨rfl, rfl⟩ := List.cons_eq_cons.mp hfilter'
      obtain ⟨middle, hmiddle, hlast⟩ := foldlM_append_ok.mp hfold'
      obtain rfl := Except.ok.inj (hfold.symm.trans hmiddle)
      simp only [hsame, decide_true, List.filter_cons_of_pos, List.filter_nil] at hlast
      obtain ⟨z', hz', -⟩ := foldlM_cons_ok.mp hlast
      exact ⟨z', hz'⟩
    exact ⟨table, collect_concat.mpr ⟨before, hbefore, htable⟩⟩

/-- A list is collected to a table just when the table holds it. -/
theorem collect_ok_iff (hjoin : ∀ {y x z : α}, join y x = .ok z → key y = key x → key z = key y)
    {xs table : List α} : collect key join xs = .ok table ↔ Holds key join xs table := by
  refine ⟨holds_of_collect hjoin, fun h => ?_⟩
  obtain ⟨table', htable'⟩ := collect_isOk hjoin fun x hx => by
    have hmem : key x ∈ table.map key := by
      rw [h.keys, mem_distinct]
      exact List.mem_map_of_mem hx
    obtain ⟨y, hy, heq⟩ := List.mem_map.mp hmem
    exact ⟨y, heq ▸ h.joined y hy⟩
  rw [htable', h.unique (holds_of_collect hjoin htable')]

end KeyedTable
