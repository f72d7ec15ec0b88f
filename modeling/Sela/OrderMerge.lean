import Mathlib.Data.List.Nodup

/-!
# Two orders merged into one

Two lists share some of their elements and own the others. Merging them takes the
elements that one side owns as soon as they are met, the left ones first, and takes a
shared element when both lists have come to it: the shared elements are anchors that
both lists must hold in the same order.

A merged list keeps both orders: filtered by a side it is that side's list
(`mergeOrder_filter`). Two lists can be merged just when they hold the shared elements in the
same order (`mergeOrder_isSome_iff`).
-/

/-- One of two sides. -/
inductive Side
  | left
  | right
  deriving DecidableEq

namespace Side

/-- The member of a pair on a side. -/
def pick {α : Type} (side : Side) (left right : α) : α :=
  match side with
  | .left => left
  | .right => right

@[simp] theorem pick_left {α : Type} (x y : α) : Side.left.pick x y = x :=
  rfl

@[simp] theorem pick_right {α : Type} (x y : α) : Side.right.pick x y = y :=
  rfl

end Side

/-- The sides an element belongs to. -/
inductive Domain
  | left
  | right
  | both
  deriving DecidableEq

namespace Domain

/-- Whether the element belongs to a side. -/
def includes : Domain → Side → Bool
  | .left, .left | .right, .right | .both, _ => true
  | _, _ => false

@[simp] theorem includes_both (side : Side) : Domain.both.includes side = true :=
  rfl

/-- The elements of one side alone. -/
def only : Side → Domain
  | .left => .left
  | .right => .right

@[simp] theorem includes_only (side other : Side) :
    (only side).includes other = decide (side = other) := by
  cases side <;> cases other <;> rfl

theorem ne_both_iff (d : Domain) : d ≠ .both ↔ ∃ side, d = only side := by
  cases d with
  | left => exact ⟨fun _ => ⟨.left, rfl⟩, fun _ => by simp⟩
  | right => exact ⟨fun _ => ⟨.right, rfl⟩, fun _ => by simp⟩
  | both => exact ⟨fun h => absurd rfl h, fun ⟨side, h⟩ => by cases side <;> simp [only] at h⟩

theorem only_ne_both (side : Side) : only side ≠ .both := by
  cases side <;> simp [only]

end Domain

namespace OrderMerge

variable {α : Type} [DecidableEq α]

/-- The two lists in one order, when their shared elements come in the same order. -/
def mergeOrder (domain : α → Domain) : List α → List α → Option (List α)
  | [], [] => some []
  | a :: left, [] =>
    if domain a = .left then (a :: ·) <$> mergeOrder domain left [] else none
  | [], b :: right =>
    if domain b = .right then (b :: ·) <$> mergeOrder domain [] right else none
  | a :: left, b :: right =>
    if domain a = .left then (a :: ·) <$> mergeOrder domain left (b :: right)
    else if domain b = .right then (b :: ·) <$> mergeOrder domain (a :: left) right
    else if a = b then (a :: ·) <$> mergeOrder domain left right
    else none
termination_by left right => left.length + right.length

theorem mergeOrder_left {domain : α → Domain} {a : α} {left right : List α}
    (ha : domain a = .left) :
    mergeOrder domain (a :: left) right = (a :: ·) <$> mergeOrder domain left right := by
  cases right <;> rw [mergeOrder, if_pos ha]

theorem mergeOrder_right {domain : α → Domain} {b : α} {left right : List α}
    (hleft : ∀ a ∈ left.head?, domain a ≠ .left) (hb : domain b = .right) :
    mergeOrder domain left (b :: right) = (b :: ·) <$> mergeOrder domain left right := by
  cases left with
  | nil => rw [mergeOrder, if_pos hb]
  | cons a left => rw [mergeOrder, if_neg (hleft a rfl), if_pos hb]

/-- The lists have no merge when neither holds an element of its own first, and they do not
start with the same one. -/
theorem mergeOrder_none {domain : α → Domain} {left right : List α}
    (hleft : ∀ a ∈ left.head?, domain a ≠ .left) (hright : ∀ b ∈ right.head?, domain b ≠ .right)
    (hmore : left ≠ [] ∨ right ≠ []) (hne : ∀ a ∈ left.head?, a ∉ right.head?) :
    mergeOrder domain left right = none := by
  match left, right with
  | [], [] => simp at hmore
  | a :: left, [] => rw [mergeOrder, if_neg (hleft a rfl)]
  | [], b :: right => rw [mergeOrder, if_neg (hright b rfl)]
  | a :: left, b :: right =>
    have hab : a ≠ b := fun h => hne a rfl (by simp [h])
    rw [mergeOrder, if_neg (hleft a rfl), if_neg (hright b rfl), if_neg hab]

/-- A merged list filtered by a side is that side's list. -/
theorem mergeOrder_filter (domain : α → Domain) (left right merged : List α)
    (h : mergeOrder domain left right = some merged)
    (hleft : ∀ a ∈ left, (domain a).includes .left = true)
    (hright : ∀ b ∈ right, (domain b).includes .right = true) (side : Side) :
    merged.filter (fun x => (domain x).includes side) = side.pick left right := by
  induction left, right using mergeOrder.induct domain generalizing merged with
  | case1 =>
    obtain rfl : [] = merged := by simpa [mergeOrder] using h
    cases side <;> rfl
  | case2 a left ha ih =>
    rw [mergeOrder, if_pos ha] at h
    obtain ⟨rest, hrest, rfl⟩ : ∃ rest, mergeOrder domain left [] = some rest ∧
        a :: rest = merged := by simpa using h
    have hrec := ih rest hrest (fun x hx => hleft x (.tail a hx)) hright
    cases side <;> simpa [ha, Domain.includes] using hrec
  | case3 a left ha => simp [mergeOrder, ha] at h
  | case4 b right hb ih =>
    rw [mergeOrder, if_pos hb] at h
    obtain ⟨rest, hrest, rfl⟩ : ∃ rest, mergeOrder domain [] right = some rest ∧
        b :: rest = merged := by simpa using h
    have hrec := ih rest hrest hleft (fun x hx => hright x (.tail b hx))
    cases side <;> simpa [hb, Domain.includes] using hrec
  | case5 b right hb => simp [mergeOrder, hb] at h
  | case6 a left b right ha ih =>
    rw [mergeOrder, if_pos ha] at h
    obtain ⟨rest, hrest, rfl⟩ : ∃ rest, mergeOrder domain left (b :: right) = some rest ∧
        a :: rest = merged := by simpa using h
    have hrec := ih rest hrest (fun x hx => hleft x (.tail a hx)) hright
    cases side <;> simpa [ha, Domain.includes] using hrec
  | case7 a left b right ha hb ih =>
    rw [mergeOrder, if_neg ha, if_pos hb] at h
    obtain ⟨rest, hrest, rfl⟩ : ∃ rest, mergeOrder domain (a :: left) right = some rest ∧
        b :: rest = merged := by simpa using h
    have hrec := ih rest hrest hleft (fun x hx => hright x (.tail b hx))
    cases side <;> simpa [hb, Domain.includes] using hrec
  | case8 left a right _ _ ih =>
    -- A shared element: neither side owns it, so both lists hold it here.
    rw [mergeOrder, if_neg ‹_›, if_neg ‹_›, if_pos rfl] at h
    obtain ⟨rest, hrest, rfl⟩ : ∃ rest, mergeOrder domain left right = some rest ∧
        a :: rest = merged := by simpa using h
    have hrec := ih rest hrest (fun x hx => hleft x (.tail a hx))
      (fun x hx => hright x (.tail a hx))
    have hboth : domain a = .both := by
      cases hd : domain a with
      | left => exact absurd hd ‹_›
      | right => exact absurd hd ‹_›
      | both => rfl
    cases side <;> simpa [hboth] using hrec
  | case9 a left b right ha hb hne => simp [mergeOrder, ha, hb, hne] at h

/-- Every element of a merged list is of one of the two lists. -/
theorem mem_of_mergeOrder (domain : α → Domain) (left right merged : List α)
    (h : mergeOrder domain left right = some merged)
    (hleft : ∀ a ∈ left, (domain a).includes .left = true)
    (hright : ∀ b ∈ right, (domain b).includes .right = true) {x : α} :
    x ∈ merged ↔ x ∈ left ∨ x ∈ right := by
  have hfilter := mergeOrder_filter domain left right merged h hleft hright
  constructor
  · intro hx
    have hside : ∃ side, (domain x).includes side = true := by
      cases domain x with
      | left => exact ⟨.left, rfl⟩
      | right => exact ⟨.right, rfl⟩
      | both => exact ⟨.left, rfl⟩
    obtain ⟨side, hside⟩ := hside
    have hmem : x ∈ side.pick left right := hfilter side ▸ List.mem_filter.mpr ⟨hx, hside⟩
    cases side with
    | left => exact .inl hmem
    | right => exact .inr hmem
  · rintro (hx | hx)
    · rw [← Side.pick_left left right, ← hfilter] at hx
      exact (List.mem_filter.mp hx).1
    · rw [← Side.pick_right left right, ← hfilter] at hx
      exact (List.mem_filter.mp hx).1

/-- Two lists without repetitions merge into one. -/
theorem nodup_of_mergeOrder (domain : α → Domain) (left right merged : List α)
    (h : mergeOrder domain left right = some merged)
    (hleft : ∀ a ∈ left, (domain a).includes .left = true)
    (hright : ∀ b ∈ right, (domain b).includes .right = true) (hleftNodup : left.Nodup)
    (hrightNodup : right.Nodup) : merged.Nodup := by
  have hfilter := mergeOrder_filter domain left right merged h hleft hright
  rw [List.nodup_iff_count_le_one]
  intro x
  have hside : ∃ side, (domain x).includes side = true := by
    cases domain x with
    | left => exact ⟨.left, rfl⟩
    | right => exact ⟨.right, rfl⟩
    | both => exact ⟨.left, rfl⟩
  obtain ⟨side, hside⟩ := hside
  have hcount : merged.count x = (side.pick left right).count x := by
    rw [← hfilter side]
    exact (List.count_filter (p := fun x => (domain x).includes side) hside).symm
  rw [hcount]
  cases side with
  | left => exact List.nodup_iff_count_le_one.mp hleftNodup x
  | right => exact List.nodup_iff_count_le_one.mp hrightNodup x

/-- An element of both sides. -/
def shared (domain : α → Domain) (x : α) : Bool := decide (domain x = .both)

omit [DecidableEq α] in
theorem shared_of_includes {domain : α → Domain} {x : α} (side : Side)
    (hincludes : (domain x).includes side = true) (hown : domain x ≠ Domain.only side) :
    shared domain x = true := by
  cases side <;> cases hd : domain x <;> simp_all [Domain.includes, Domain.only, shared]

omit [DecidableEq α] in
theorem not_shared {domain : α → Domain} {x : α} (side : Side) (hown : domain x = Domain.only side) :
    shared domain x = false := by
  cases side <;> simp [shared, hown, Domain.only]

/-- Two lists merge when the shared elements come in the same order in both. -/
theorem mergeOrder_isSome_iff (domain : α → Domain) (left right : List α)
    (hleft : ∀ a ∈ left, (domain a).includes .left = true)
    (hright : ∀ b ∈ right, (domain b).includes .right = true) :
    (mergeOrder domain left right).isSome = true ↔
      left.filter (shared domain) = right.filter (shared domain) := by
  induction left, right using mergeOrder.induct domain with
  | case1 => simp [mergeOrder]
  | case2 a left ha ih =>
    rw [mergeOrder, if_pos ha, List.filter_cons_of_neg (by simp [not_shared .left ha])]
    simpa using ih (fun x hx => hleft x (.tail a hx)) hright
  | case3 a left ha =>
    have hshared := shared_of_includes .left (hleft a (.head left)) ha
    rw [mergeOrder, if_neg ha, List.filter_cons_of_pos hshared]
    simp
  | case4 b right hb ih =>
    rw [mergeOrder, if_pos hb, List.filter_cons_of_neg (a := b) (by simp [not_shared .right hb])]
    simpa using ih hleft (fun x hx => hright x (.tail b hx))
  | case5 b right hb =>
    have hshared := shared_of_includes .right (hright b (.head right)) hb
    rw [mergeOrder, if_neg hb, List.filter_cons_of_pos hshared]
    simp
  | case6 a left b right ha ih =>
    rw [mergeOrder, if_pos ha, List.filter_cons_of_neg (by simp [not_shared .left ha])]
    simpa using ih (fun x hx => hleft x (.tail a hx)) hright
  | case7 a left b right ha hb ih =>
    rw [mergeOrder, if_neg ha, if_pos hb,
      List.filter_cons_of_neg (a := b) (by simp [not_shared .right hb])]
    simpa using ih hleft (fun x hx => hright x (.tail b hx))
  | case8 left a right hb ha ih =>
    -- both lists stand at the same anchor
    have hshared := shared_of_includes .left (hleft a (.head left)) ha
    rw [mergeOrder, if_neg ha, if_neg hb, if_pos rfl, List.filter_cons_of_pos hshared,
      List.filter_cons_of_pos hshared]
    simpa using ih (fun x hx => hleft x (.tail a hx)) (fun x hx => hright x (.tail a hx))
  | case9 a left b right ha hb hne =>
    -- they stand at two anchors, so the shared elements differ from the first on
    have hsharedLeft := shared_of_includes .left (hleft a (.head left)) ha
    have hsharedRight := shared_of_includes .right (hright b (.head right)) hb
    rw [mergeOrder, if_neg ha, if_neg hb, if_neg hne, List.filter_cons_of_pos hsharedLeft,
      List.filter_cons_of_pos hsharedRight]
    simp [hne]

/-! ## Agreeing orders -/

omit [DecidableEq α] in
theorem not_both_orders {xs : List α} (hxs : xs.Nodup) {x y : α} (h : [x, y].Sublist xs)
    (h' : [y, x].Sublist xs) : False := by
  have hpair : [x, y].Nodup := h.nodup hxs
  induction xs with
  | nil => simp at h
  | cons a xs ih =>
    obtain ⟨ha, hxs⟩ := List.nodup_cons.mp hxs
    -- an element that stands first stands nowhere else
    rcases List.sublist_cons_iff.mp h with hrest | ⟨r, hr, -⟩
    · rcases List.sublist_cons_iff.mp h' with hrest' | ⟨r', hr', -⟩
      · exact ih hxs hrest hrest'
      · obtain rfl : y = a := (List.cons.inj hr').1
        exact ha (hrest.subset (List.mem_cons_of_mem x List.mem_cons_self))
    · obtain rfl : x = a := (List.cons.inj hr).1
      rcases List.sublist_cons_iff.mp h' with hrest' | ⟨r', hr', -⟩
      · exact ha (hrest'.subset (List.mem_cons_of_mem y List.mem_cons_self))
      · obtain rfl : y = x := (List.cons.inj hr').1
        simp at hpair

omit [DecidableEq α] in
theorem one_order {xs : List α} {x y : α} (hx : x ∈ xs) (hy : y ∈ xs) (hne : [x, y].Nodup) :
    [x, y].Sublist xs ∨ [y, x].Sublist xs := by
  induction xs with
  | nil => simp at hx
  | cons a xs ih =>
    rcases List.mem_cons.mp hx with rfl | hxrest
    · have hyrest : y ∈ xs := by
        rcases List.mem_cons.mp hy with rfl | hyrest
        · simp at hne
        · exact hyrest
      exact .inl (.cons_cons x (List.singleton_sublist.mpr hyrest))
    · rcases List.mem_cons.mp hy with rfl | hyrest
      · exact .inr (.cons_cons y (List.singleton_sublist.mpr hxrest))
      · exact (ih hxrest hyrest).imp (List.Sublist.cons a) (List.Sublist.cons a)

/-- Two lists that hold no two elements in opposite orders hold their common elements in
the same order, and conversely. -/
theorem filter_mem_eq_iff {left right : List α} (hleft : left.Nodup) (hright : right.Nodup) :
    left.filter (· ∈ right) = right.filter (· ∈ left) ↔
      ∀ x y, [x, y].Sublist left → ¬[y, x].Sublist right := by
  have hmem : ∀ {xs ys : List α} {x y : α}, [x, y].Sublist xs → [y, x].Sublist ys →
      [x, y].Sublist (xs.filter (· ∈ ys)) := by
    intro xs ys x y hx hy
    have hfilter := hx.filter (· ∈ ys)
    have hxmem : x ∈ ys := hy.subset (by simp)
    have hymem : y ∈ ys := hy.subset (by simp)
    simpa [hxmem, hymem] using hfilter
  constructor
  · intro h x y hx hy
    have hforward := hmem hx hy
    rw [h] at hforward
    exact not_both_orders (hright.filter _) hforward (hmem hy hx)
  · intro h
    have hperm : (left.filter (· ∈ right)).Perm (right.filter (· ∈ left)) := by
      rw [List.perm_ext_iff_of_nodup (hleft.filter _) (hright.filter _)]
      intro x
      simp [and_comm]
    refine @List.Perm.eq_of_pairwise _ (fun x y => [x, y].Sublist left) _ _ ?_ ?_ ?_ hperm
    · intro x y _ _ hxy hyx
      exact (not_both_orders hleft hxy hyx).elim
    · exact (List.pairwise_iff_forall_sublist.mpr fun hxy => hxy).sublist List.filter_sublist
    · rw [List.pairwise_iff_forall_sublist]
      intro x y hxy
      have hx : x ∈ left := by simpa using (List.mem_filter.mp (hxy.subset (by simp))).2
      have hy : y ∈ left := by simpa using (List.mem_filter.mp (hxy.subset (by simp))).2
      have hright' : [x, y].Sublist right := hxy.trans List.filter_sublist
      rcases one_order hx hy (hright'.nodup hright) with hleft' | hleft'
      · exact hleft'
      · exact (h y x hleft' hright').elim

end OrderMerge
