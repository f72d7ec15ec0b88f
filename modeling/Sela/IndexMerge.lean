import Sela.ConditionalCFG

/-!
# Merging two index sequences

The blocks of a paired function, and the cases of a paired switch, are numbered; each
native input holds its own numbers in its own order. Two cursors merge the two sequences:
a number of the left input alone is taken first, then one of the right input alone, and a
shared number when both cursors stand at it.

The cursors compute the merge of the two orders (`mergeFrom_eq`), which is how the pairing
is stated (`mergeOrder_entries`). The merge exists just when both inputs hold the shared
numbers in the same order (`mergeOrder_exact`).
-/

namespace Sela

namespace ConditionalCFG

/-- The merge of two index sequences from the cursors on, after `result`. -/
def mergeFrom (left right domains : List ℕ) (a b : ℕ) (result : List ℕ) : Checked (List ℕ) :=
  if a < left.length ∨ b < right.length then
    if a < left.length ∧ domains[left.getD a 0]? = some 1 then
      mergeFrom left right domains (a + 1) b (result ++ [left.getD a 0])
    else if b < right.length ∧ domains[right.getD b 0]? = some 2 then
      mergeFrom left right domains a (b + 1) (result ++ [right.getD b 0])
    else if a < left.length ∧ b < right.length ∧ left.getD a 0 = right.getD b 0 then
      mergeFrom left right domains (a + 1) (b + 1) (result ++ [left.getD a 0])
    else .error (Pairing.message "shared block or case order differs between native inputs")
  else .ok result
termination_by (left.length - a) + (right.length - b)

/-- Two index sequences in one order, by the domain of each index: 1 for the left one, 2 for
the right one, 3 for both. -/
def mergeOrder (left right domains : List ℕ) : Checked (List ℕ) :=
  mergeFrom left right domains 0 0 []

/-- The sides of an index. -/
def domainAt (domains : List ℕ) (index : ℕ) : Domain :=
  match domains[index]? with
  | some 1 => .left
  | some 2 => .right
  | _ => .both

section Domains

variable {domains : List ℕ} {index : ℕ}

theorem domainAt_left : domainAt domains index = .left ↔ domains[index]? = some 1 := by
  unfold domainAt
  split <;> simp_all

theorem domainAt_right : domainAt domains index = .right ↔ domains[index]? = some 2 := by
  unfold domainAt
  split <;> simp_all

theorem domainAt_both (h : domains[index]? = some 3) : domainAt domains index = .both := by
  simp [domainAt, h]

end Domains

theorem drop_getD {xs : List ℕ} {a : ℕ} (h : a < xs.length) :
    xs.drop a = xs.getD a 0 :: xs.drop (a + 1) := by
  rw [List.drop_eq_getElem_cons h, List.getD_eq_getElem?_getD, List.getElem?_eq_getElem h]
  rfl

/-- A cursor that is not at an index of its own side. -/
theorem head_drop_ne {xs : List ℕ} {a code : ℕ} {domains : List ℕ} {d : Domain}
    (hd : ∀ index, domainAt domains index = d ↔ domains[index]? = some code)
    (h : ¬(a < xs.length ∧ domains[xs.getD a 0]? = some code)) :
    ∀ x ∈ (xs.drop a).head?, domainAt domains x ≠ d := by
  intro x hx hdomain
  by_cases ha : a < xs.length
  · rw [drop_getD ha] at hx
    obtain rfl : xs.getD a 0 = x := Option.some.inj hx
    exact h ⟨ha, (hd _).mp hdomain⟩
  · rw [List.drop_eq_nil_of_le (by omega)] at hx
    simp at hx

/-- The cursors merge what is left of the two sequences. -/
theorem mergeFrom_eq (left right domains : List ℕ) (a b : ℕ) (result : List ℕ) :
    mergeFrom left right domains a b result =
      Checked.require ((result ++ ·) <$>
          OrderMerge.mergeOrder (domainAt domains) (left.drop a) (right.drop b))
        (Pairing.message "shared block or case order differs between native inputs") := by
  induction a, b, result using mergeFrom.induct left right domains with
  | case1 a b result _ hleft ih =>
    rw [mergeFrom, if_pos ‹_›, if_pos hleft, ih, drop_getD hleft.1,
      OrderMerge.mergeOrder_left (domainAt_left.mpr hleft.2)]
    simp [Function.comp_def]
  | case2 a b result _ hleft hright ih =>
    have hhead := head_drop_ne (fun _ => domainAt_left) hleft
    rw [mergeFrom, if_pos ‹_›, if_neg hleft, if_pos hright, ih, drop_getD hright.1,
      OrderMerge.mergeOrder_right hhead (domainAt_right.mpr hright.2)]
    simp [Function.comp_def]
  | case3 a b result _ hleft hright hboth ih =>
    have hleftHead := head_drop_ne (fun _ => domainAt_left) hleft
    have hrightHead := head_drop_ne (fun _ => domainAt_right) hright
    rw [drop_getD hboth.1] at hleftHead
    rw [drop_getD hboth.2.1] at hrightHead
    rw [mergeFrom, if_pos ‹_›, if_neg hleft, if_neg hright, if_pos hboth, ih,
      drop_getD hboth.1, drop_getD hboth.2.1, OrderMerge.mergeOrder, if_neg (hleftHead _ rfl),
      if_neg (hrightHead _ rfl), if_pos hboth.2.2]
    simp [Function.comp_def]
  | case4 a b result hmore hleft hright hboth =>
    have hleftHead := head_drop_ne (fun _ => domainAt_left) hleft
    have hrightHead := head_drop_ne (fun _ => domainAt_right) hright
    rw [mergeFrom, if_pos hmore, if_neg hleft, if_neg hright, if_neg hboth,
      OrderMerge.mergeOrder_none hleftHead hrightHead]
    · rfl
    · simp only [ne_eq, List.drop_eq_nil_iff]
      omega
    · intro x hx hx'
      rw [List.head?_drop] at hx hx'
      obtain ⟨ha, hx⟩ := List.getElem?_eq_some_iff.mp hx
      obtain ⟨hb, hx'⟩ := List.getElem?_eq_some_iff.mp hx'
      exact hboth ⟨ha, hb, by simp [ha, hb, hx, hx']⟩
  | case5 a b result h =>
    rw [mergeFrom, if_neg h, List.drop_eq_nil_of_le (by omega), List.drop_eq_nil_of_le (by omega)]
    simp [OrderMerge.mergeOrder, Checked.require]

/-! ## What the pairing merges -/

/-- The code of a domain. -/
def domainCode : Domain → ℕ
  | .left => 1
  | .right => 2
  | .both => 3

theorem domainAt_map {α : Type} (domain : α → Domain) (entries : List α) (default : α)
    (hdefault : domain default = .both) :
    domainAt (entries.map fun entry => domainCode (domain entry)) =
      fun index => domain (entries.getD index default) := by
  ext1 index
  simp only [domainAt, List.getElem?_map, List.getD_eq_getElem?_getD]
  cases hentry : entries[index]? with
  | none => simp [hdefault]
  | some entry => cases hdomain : domain entry <;> simp [hdomain, domainCode]

/-- The merge of the numbers of some entries, as the pairing asks for it. -/
theorem mergeOrder_entries {α : Type} (domain : α → Domain) (entries : List α) (default : α)
    (hdefault : domain default = .both) (left right : List ℕ) :
    Checked.require
        (OrderMerge.mergeOrder (fun index => domain (entries.getD index default)) left right)
        (Pairing.message "shared block or case order differs between native inputs") =
      mergeOrder left right (entries.map fun entry => domainCode (domain entry)) := by
  rw [mergeOrder, mergeFrom_eq, domainAt_map domain entries default hdefault]
  simp

/-! ## When there is a merge -/

/-- The indices of both sequences come in the same relative order. -/
def SameOrder (domains left right : List ℕ) : Prop :=
  ∀ i j, domains[i]? = some 3 → domains[j]? = some 3 →
    ([i, j].Sublist left ↔ [i, j].Sublist right)

/-- Two index sequences over the domains of their indices: neither repeats an index, each holds
indices of its own or shared ones, and both hold every shared one. -/
structure Sequences (left right domains : List ℕ) : Prop where
  leftNodup : left.Nodup
  rightNodup : right.Nodup
  leftDomain : ∀ i ∈ left, domains[i]? = some 1 ∨ domains[i]? = some 3
  rightDomain : ∀ i ∈ right, domains[i]? = some 2 ∨ domains[i]? = some 3
  shared : ∀ i, domains[i]? = some 3 → i ∈ left ∧ i ∈ right

namespace Sequences

variable {left right domains : List ℕ} (h : Sequences left right domains)

include h

theorem includes_left : ∀ i ∈ left, (domainAt domains i).includes .left = true := by
  intro i hi
  rcases h.leftDomain i hi with hdomain | hdomain
  · rw [domainAt_left.mpr hdomain]
    rfl
  · rw [domainAt_both hdomain]
    rfl

theorem includes_right : ∀ i ∈ right, (domainAt domains i).includes .right = true := by
  intro i hi
  rcases h.rightDomain i hi with hdomain | hdomain
  · rw [domainAt_right.mpr hdomain]
    rfl
  · rw [domainAt_both hdomain]
    rfl

theorem mem_right_iff {i : ℕ} (hi : i ∈ left) :
    i ∈ right ↔ domainAt domains i = .both := by
  constructor
  · intro hright
    rcases h.leftDomain i hi with hdomain | hdomain
    · rcases h.rightDomain i hright with hdomain' | hdomain' <;>
        simp [hdomain] at hdomain'
    · exact domainAt_both hdomain
  · intro hboth
    rcases h.leftDomain i hi with hdomain | hdomain
    · simp [domainAt_left.mpr hdomain] at hboth
    · exact (h.shared i hdomain).2

theorem mem_left_iff {i : ℕ} (hi : i ∈ right) :
    i ∈ left ↔ domainAt domains i = .both := by
  constructor
  · intro hleft
    rcases h.rightDomain i hi with hdomain | hdomain
    · rcases h.leftDomain i hleft with hdomain' | hdomain' <;>
        simp [hdomain] at hdomain'
    · exact domainAt_both hdomain
  · intro hboth
    rcases h.rightDomain i hi with hdomain | hdomain
    · simp [domainAt_right.mpr hdomain] at hboth
    · exact (h.shared i hdomain).1

theorem includes_left_eq {i : ℕ} (hi : i ∈ left ∨ i ∈ right) :
    (domainAt domains i).includes .left = decide (i ∈ left) := by
  by_cases hleft : i ∈ left
  · simp [h.includes_left i hleft, hleft]
  · have hright : i ∈ right := hi.resolve_left hleft
    have hown : domainAt domains i = .right := by
      rcases h.rightDomain i hright with hdomain | hdomain
      · exact domainAt_right.mpr hdomain
      · exact absurd (h.shared i hdomain).1 hleft
    simp [hown, hleft, Domain.includes]

theorem includes_right_eq {i : ℕ} (hi : i ∈ left ∨ i ∈ right) :
    (domainAt domains i).includes .right = decide (i ∈ right) := by
  by_cases hright : i ∈ right
  · simp [h.includes_right i hright, hright]
  · have hleft : i ∈ left := hi.resolve_right hright
    have hown : domainAt domains i = .left := by
      rcases h.leftDomain i hleft with hdomain | hdomain
      · exact domainAt_left.mpr hdomain
      · exact absurd (h.shared i hdomain).2 hright
    simp [hown, hright, Domain.includes]

theorem sameOrder_iff : SameOrder domains left right ↔
    ∀ i j, [i, j].Sublist left → ¬[j, i].Sublist right := by
  have hdomain : ∀ {i}, i ∈ left → i ∈ right → domains[i]? = some 3 := by
    intro i hleft hright
    rcases h.leftDomain i hleft with hdomain | hdomain
    · rcases h.rightDomain i hright with hdomain' | hdomain' <;>
        simp [hdomain] at hdomain'
    · exact hdomain
  constructor
  · intro hsame i j hleft hright
    have hi := hdomain (i := i) (hleft.subset (by simp)) (hright.subset (by simp))
    have hj := hdomain (i := j) (hleft.subset (by simp)) (hright.subset (by simp))
    exact OrderMerge.not_both_orders h.rightNodup ((hsame i j hi hj).mp hleft) hright
  · intro hopposite i j hi hj
    obtain ⟨hileft, hiright⟩ := h.shared i hi
    obtain ⟨hjleft, hjright⟩ := h.shared j hj
    constructor
    · intro hleft
      exact (OrderMerge.one_order hiright hjright (hleft.nodup h.leftNodup)).resolve_right
        (hopposite i j hleft)
    · intro hright
      refine (OrderMerge.one_order hileft hjleft (hright.nodup h.rightNodup)).resolve_right ?_
      intro hleft
      exact hopposite j i hleft hright

theorem filter_shared_iff :
    left.filter (OrderMerge.shared (domainAt domains)) =
        right.filter (OrderMerge.shared (domainAt domains)) ↔
      SameOrder domains left right := by
  have hleft : left.filter (OrderMerge.shared (domainAt domains)) =
      left.filter (· ∈ right) :=
    List.filter_congr fun i hi => by simp [OrderMerge.shared, h.mem_right_iff hi]
  have hright : right.filter (OrderMerge.shared (domainAt domains)) =
      right.filter (· ∈ left) :=
    List.filter_congr fun i hi => by simp [OrderMerge.shared, h.mem_left_iff hi]
  rw [hleft, hright, OrderMerge.filter_mem_eq_iff h.leftNodup h.rightNodup, h.sameOrder_iff]

end Sequences

/-- Two index sequences are merged exactly when they hold the shared indices in the same
relative order, and the merge holds each index of the two once, in the order of each. -/
theorem mergeOrder_exact (left right domains : List ℕ) (h : Sequences left right domains) :
    ((∃ merged, mergeOrder left right domains = .ok merged) ↔ SameOrder domains left right) ∧
      ∀ merged, mergeOrder left right domains = .ok merged →
        merged.Nodup ∧ (∀ i, i ∈ merged ↔ i ∈ left ∨ i ∈ right) ∧
          merged.filter (· ∈ left) = left ∧ merged.filter (· ∈ right) = right := by
  have hmerge : ∀ merged, mergeOrder left right domains = .ok merged ↔
      OrderMerge.mergeOrder (domainAt domains) left right = some merged := by
    intro merged
    rw [mergeOrder, mergeFrom_eq, Checked.require_ok]
    simp
  constructor
  · rw [← h.filter_shared_iff, ← OrderMerge.mergeOrder_isSome_iff _ _ _ h.includes_left
      h.includes_right, Option.isSome_iff_exists]
    exact exists_congr hmerge
  · intro merged hmerged
    rw [hmerge] at hmerged
    have hmem : ∀ i, i ∈ merged ↔ i ∈ left ∨ i ∈ right := fun _ =>
      OrderMerge.mem_of_mergeOrder _ _ _ _ hmerged h.includes_left h.includes_right
    have hfilter := OrderMerge.mergeOrder_filter _ _ _ _ hmerged h.includes_left h.includes_right
    refine ⟨OrderMerge.nodup_of_mergeOrder _ _ _ _ hmerged h.includes_left h.includes_right
      h.leftNodup h.rightNodup, hmem, ?_, ?_⟩
    · refine Eq.trans (List.filter_congr fun i hi => ?_) (hfilter .left)
      exact (h.includes_left_eq ((hmem i).mp hi)).symm
    · refine Eq.trans (List.filter_congr fun i hi => ?_) (hfilter .right)
      exact (h.includes_right_eq ((hmem i).mp hi)).symm

theorem mergeOrder_exact_cases :
    ((∃ merged, mergeOrder [0, 1, 2] [1, 3, 2] [1, 3, 3, 2] = .ok merged) ↔
        SameOrder [1, 3, 3, 2] [0, 1, 2] [1, 3, 2]) ∧
      ∀ merged, mergeOrder [0, 1, 2] [1, 3, 2] [1, 3, 3, 2] = .ok merged →
        merged.Nodup ∧ (∀ i, i ∈ merged ↔ i ∈ [0, 1, 2] ∨ i ∈ [1, 3, 2]) ∧
          merged.filter (· ∈ [0, 1, 2]) = [0, 1, 2] ∧
          merged.filter (· ∈ [1, 3, 2]) = [1, 3, 2] := by
  refine mergeOrder_exact _ _ _ ⟨by decide, by decide, by decide, by decide, ?_⟩
  intro i hi
  match i with
  | 0 => simp at hi
  | 1 => decide
  | 2 => decide
  | 3 => simp at hi
  | i + 4 => simp at hi

end ConditionalCFG

end Sela
