import Mathlib.Data.List.Chain
import Mathlib.Data.List.Induction
import Mathlib.Data.List.Nodup
import Mathlib.Data.List.Perm.Subperm
import Mathlib.Logic.Function.Basic

/-!
# One order for several

Several lists order some of the numbers below `n`. `jointOrder` puts all of these numbers
in one list that keeps every order : from the edges between neighbours it repeats to take
the smallest number that no edge enters any more. It finds such a list exactly when there is
one (`jointOrder_isSome_iff`).
-/

namespace JointOrder

/-! ## Edges between neighbours -/

/-- Edges between numbers, and how many enter each. -/
structure Edges where
  next : ℕ → List ℕ
  indegree : ℕ → ℕ

/-- An edge, unless it is there already. -/
def Edges.link (edges : Edges) (a b : ℕ) : Edges :=
  if b ∈ edges.next a then edges
  else ⟨Function.update edges.next a (b :: edges.next a),
    Function.update edges.indegree b (edges.indegree b + 1)⟩

/-- An edge from each number of a list to the next one. -/
def Edges.follow : Edges → List ℕ → Edges
  | edges, a :: b :: rest => (edges.link a b).follow (b :: rest)
  | edges, _ => edges

/-- The edges between the neighbours in several orders. -/
def edgesOf (orders : List (List ℕ)) : Edges :=
  orders.foldl Edges.follow ⟨fun _ => [], fun _ => 0⟩

/-! ## The order -/

/-- The numbers ordered so far, those no edge enters any more, and how many edges from
numbers not ordered yet enter each. -/
structure Ready where
  available : List ℕ
  indegree : ℕ → ℕ
  ordered : List ℕ

/-- Drop an edge into a number. -/
def Ready.release (ready : Ready) (next : ℕ) : Ready :=
  { ready with
    indegree := Function.update ready.indegree next (ready.indegree next - 1)
    available := if ready.indegree next - 1 = 0 then next :: ready.available else ready.available }

/-- Take an available number. -/
def Ready.take (edges : Edges) (ready : Ready) (index : ℕ) : Ready :=
  (edges.next index).foldl Ready.release
    { ready with available := ready.available.erase index, ordered := ready.ordered ++ [index] }

/-- Take the smallest available number, again and again. Every number is taken once, so that
their number bounds the loop. -/
def takeAll (edges : Edges) : ℕ → Ready → Ready
  | 0, ready => ready
  | fuel + 1, ready =>
    match ready.available.min? with
    | none => ready
    | some index => takeAll edges fuel (ready.take edges index)

/-- The numbers no edge enters from the start. -/
def start (n : ℕ) (edges : Edges) : Ready :=
  ⟨(List.range n).filter fun index => edges.indegree index = 0, edges.indegree, []⟩

/-- The numbers below `n` in an order that keeps all of the orders. -/
def jointOrder (n : ℕ) (orders : List (List ℕ)) : Option (List ℕ) :=
  let edges := edgesOf orders
  let ordered := (takeAll edges n (start n edges)).ordered
  if ordered.length = n then some ordered else none

/-! ## What the edges are -/

/-- Each edge counts once, where it ends. -/
structure Edges.Counted (n : ℕ) (edges : Edges) : Prop where
  bounded : ∀ a, ∀ b ∈ edges.next a, b < n
  nodup : ∀ a, (edges.next a).Nodup
  indegree : ∀ b, edges.indegree b = ((List.range n).filter fun a => b ∈ edges.next a).length

theorem mem_link {edges : Edges} {a b x y : ℕ} :
    y ∈ (edges.link a b).next x ↔ y ∈ edges.next x ∨ (x = a ∧ y = b) := by
  unfold Edges.link
  split
  · rename_i hmem
    exact ⟨.inl, fun h => h.elim id fun h => by rw [h.1, h.2]; exact hmem⟩
  · by_cases hx : x = a
    · subst hx
      simp [or_comm]
    · simp [hx]

/-- One more of several numbers satisfies a condition. -/
theorem length_filter_or {p : ℕ → Prop} [DecidablePred p] {a : ℕ} (ha : ¬p a) :
    ∀ {xs : List ℕ}, xs.Nodup → a ∈ xs →
      (xs.filter fun x => p x ∨ x = a).length = (xs.filter fun x => p x).length + 1
  | x :: xs, hnodup, hmem => by
    obtain ⟨hx, hnodup⟩ := List.nodup_cons.mp hnodup
    by_cases hxa : x = a
    · subst hxa
      have hrest : (xs.filter fun y => p y ∨ y = x) = xs.filter fun y => p y :=
        List.filter_congr fun y hy => by
          have : y ≠ x := fun heq => hx (heq ▸ hy)
          simp [this]
      simp [-Bool.decide_or, ha, hrest]
    · have ih := length_filter_or ha hnodup ((List.mem_cons.mp hmem).resolve_left (Ne.symm hxa))
      by_cases hp : p x <;> simp [-Bool.decide_or, hp, hxa, ih]

theorem Edges.Counted.link {n : ℕ} {edges : Edges} (h : edges.Counted n) {a b : ℕ} (ha : a < n)
    (hb : b < n) : (edges.link a b).Counted n := by
  by_cases hmem : b ∈ edges.next a
  · rwa [Edges.link, if_pos hmem]
  · refine ⟨fun x y hy => ?_, fun x => ?_, fun y => ?_⟩
    · rcases mem_link.mp hy with hy | ⟨-, rfl⟩
      · exact h.bounded x y hy
      · exact hb
    · rw [Edges.link, if_neg hmem]
      by_cases hx : x = a
      · subst hx
        simpa using ⟨hmem, h.nodup x⟩
      · simpa [hx] using h.nodup x
    · have hfilter : ((List.range n).filter fun x => y ∈ (edges.link a b).next x) =
          (List.range n).filter fun x => y ∈ edges.next x ∨ (x = a ∧ y = b) :=
        List.filter_congr fun x _ => by simp only [mem_link]
      rw [hfilter, Edges.link, if_neg hmem]
      by_cases hy : y = b
      · subst hy
        have hlength := length_filter_or (p := fun x => y ∈ edges.next x) hmem List.nodup_range
          (List.mem_range.mpr ha)
        simp only [Function.update_self, h.indegree, and_true]
        exact hlength.symm
      · simp [hy, h.indegree]

theorem mem_follow {x y : ℕ} : ∀ {edges : Edges} {order : List ℕ},
    y ∈ (edges.follow order).next x ↔ y ∈ edges.next x ∨ [x, y] <:+: order
  | edges, [] => by simp [Edges.follow]
  | edges, [a] => by
    have : ¬[x, y] <:+: [a] := fun h => by simpa using h.length_le
    simp [Edges.follow, this]
  | edges, a :: b :: rest => by
    have hinfix : [x, y] <:+: a :: b :: rest ↔
        [x, y] <+: a :: b :: rest ∨ [x, y] <:+: b :: rest := List.infix_cons_iff
    rw [Edges.follow, mem_follow, mem_link, hinfix, or_assoc]
    simp [List.cons_prefix_cons]

theorem Edges.Counted.follow {n : ℕ} : ∀ {edges : Edges} {order : List ℕ}, edges.Counted n →
    (∀ a ∈ order, a < n) → (edges.follow order).Counted n
  | edges, [], h, _ => h
  | edges, [a], h, _ => h
  | edges, a :: b :: rest, h, horder => by
    obtain ⟨ha, hrest⟩ := List.forall_mem_cons.mp horder
    exact (h.link ha (List.forall_mem_cons.mp hrest).1).follow hrest

/-- Two neighbours in one of the orders. -/
def Neighbours (orders : List (List ℕ)) (a b : ℕ) : Prop := ∃ order ∈ orders, [a, b] <:+: order

theorem mem_foldl_follow {x y : ℕ} : ∀ {orders : List (List ℕ)} {edges : Edges},
    y ∈ (orders.foldl Edges.follow edges).next x ↔ y ∈ edges.next x ∨ Neighbours orders x y
  | [], edges => by simp [Neighbours]
  | order :: orders, edges => by
    rw [List.foldl_cons, mem_foldl_follow, mem_follow, or_assoc]
    simp [Neighbours]

theorem mem_edgesOf {orders : List (List ℕ)} {x y : ℕ} :
    y ∈ (edgesOf orders).next x ↔ Neighbours orders x y := by
  rw [edgesOf, mem_foldl_follow]
  simp

theorem Edges.Counted.foldl {n : ℕ} : ∀ {orders : List (List ℕ)} {edges : Edges}, edges.Counted n →
    (∀ order ∈ orders, ∀ a ∈ order, a < n) → (orders.foldl Edges.follow edges).Counted n
  | [], _, h, _ => h
  | order :: orders, edges, h, horders => by
    obtain ⟨horder, hrest⟩ := List.forall_mem_cons.mp horders
    exact (h.follow horder).foldl hrest

theorem counted_edgesOf {n : ℕ} {orders : List (List ℕ)}
    (horders : ∀ order ∈ orders, ∀ a ∈ order, a < n) : (edgesOf orders).Counted n :=
  Edges.Counted.foldl ⟨by simp, by simp, by simp⟩ horders

/-! ## What the loop keeps -/

/-- The numbers ordered so far come after all that have an edge to them; the others have as
many edges into them as numbers not ordered yet have an edge to them. -/
structure Ready.Kept (n : ℕ) (edges : Edges) (ready : Ready) : Prop where
  nodup : ready.ordered.Nodup
  bounded : ∀ a ∈ ready.ordered, a < n
  available_nodup : ready.available.Nodup
  available : ∀ b, b ∈ ready.available ↔ b < n ∧ b ∉ ready.ordered ∧ ready.indegree b = 0
  indegree : ∀ b, ready.indegree b =
    ((List.range n).filter fun a => b ∈ edges.next a ∧ a ∉ ready.ordered).length
  order : ∀ before b after, ready.ordered = before ++ b :: after →
    ∀ a < n, b ∈ edges.next a → a ∈ before

/-- The edges out of one number are dropped one after the other. -/
theorem release_all : ∀ {nexts : List ℕ} {ready : Ready}, nexts.Nodup →
    (∀ b ∈ nexts, 0 < ready.indegree b) →
    (nexts.foldl Ready.release ready).ordered = ready.ordered ∧
    (∀ b, (nexts.foldl Ready.release ready).indegree b =
      if b ∈ nexts then ready.indegree b - 1 else ready.indegree b) ∧
    (nexts.foldl Ready.release ready).available =
      (nexts.filter fun b => ready.indegree b - 1 = 0).reverse ++ ready.available
  | [], ready, _, _ => by simp
  | next :: nexts, ready, hnodup, hpos => by
    obtain ⟨hnext, hnodup⟩ := List.nodup_cons.mp hnodup
    obtain ⟨_, hpos⟩ := List.forall_mem_cons.mp hpos
    have hsame : ∀ b ∈ nexts, (ready.release next).indegree b = ready.indegree b := fun b hb => by
      have : b ≠ next := fun heq => hnext (heq ▸ hb)
      simp [Ready.release, this]
    obtain ⟨hordered, hindegree, havailable⟩ := @release_all nexts (ready.release next) hnodup
      (fun b hb => by rw [hsame b hb]; exact hpos b hb)
    rw [List.foldl_cons]
    refine ⟨hordered, fun b => ?_, ?_⟩
    · rw [hindegree]
      by_cases hb : b = next
      · subst hb
        simp [hnext, Ready.release]
      · simp [hb, Ready.release]
    · rw [havailable, List.filter_congr fun b hb => by rw [hsame b hb]]
      by_cases hzero : ready.indegree next - 1 = 0 <;> simp [Ready.release, hzero]

theorem Ready.Kept.start {n : ℕ} {edges : Edges} (h : edges.Counted n) :
    (start n edges).Kept n edges where
  nodup := List.nodup_nil
  bounded := by simp [JointOrder.start]
  available_nodup := List.nodup_range.filter _
  available b := by simp [JointOrder.start]
  indegree b := by simp [JointOrder.start, h.indegree]
  order before b after h := by simp [JointOrder.start] at h

/-- Taking a number drops the edges out of it. -/
theorem Ready.Kept.take {n : ℕ} {edges : Edges} (hcounted : edges.Counted n) {ready : Ready}
    (h : ready.Kept n edges) {index : ℕ} (hindex : index ∈ ready.available) :
    (ready.take edges index).Kept n edges ∧
      (ready.take edges index).ordered = ready.ordered ++ [index] := by
  obtain ⟨hlt, hnew, hzero⟩ := (h.available index).mp hindex
  have hpos : ∀ b ∈ edges.next index, 0 < ready.indegree b := fun b hb => by
    rw [h.indegree]
    exact List.length_pos_of_mem (List.mem_filter.mpr ⟨List.mem_range.mpr hlt, by simp [hb, hnew]⟩)
  obtain ⟨hordered, hindegree, havailable⟩ := @release_all (edges.next index)
    { ready with
      available := ready.available.erase index, ordered := ready.ordered ++ [index] }
    (hcounted.nodup index) hpos
  have hself : index ∉ edges.next index := fun hself => by
    have := hpos index hself
    omega
  have hnodup : (ready.ordered ++ [index]).Nodup :=
    List.nodup_append.mpr ⟨h.nodup, by simp, fun a ha b hb heq => by
      rw [List.mem_singleton.mp hb] at heq
      exact hnew (heq ▸ ha)⟩
  have hcount : ∀ b, ready.indegree b =
      ((List.range n).filter fun a => b ∈ edges.next a ∧ a ∉ ready.ordered ++ [index]).length +
        if b ∈ edges.next index then 1 else 0 := by
    intro b
    rw [h.indegree]
    by_cases hb : b ∈ edges.next index
    · rw [if_pos hb, ← length_filter_or (a := index) (by simp) List.nodup_range
        (List.mem_range.mpr hlt)]
      refine congrArg List.length (List.filter_congr fun a _ => ?_)
      by_cases ha : a = index
      · subst ha
        simp [hb, hnew]
      · simp [ha]
    · rw [if_neg hb, Nat.add_zero]
      refine congrArg List.length (List.filter_congr fun a _ => ?_)
      by_cases ha : a = index
      · subst ha
        simp [hb]
      · simp [ha]
  refine ⟨⟨?_, ?_, ?_, fun b => ?_, fun b => ?_, ?_⟩, hordered⟩
  · exact hordered ▸ hnodup
  · rw [show (ready.take edges index).ordered = _ from hordered]
    exact List.forall_mem_append.mpr ⟨h.bounded, by simpa using hlt⟩
  · rw [show (ready.take edges index).available = _ from havailable]
    refine List.nodup_append.mpr ⟨List.nodup_reverse.mpr ((hcounted.nodup index).filter _),
      h.available_nodup.erase index, ?_⟩
    rintro b hb _ hb' rfl
    have hpos := hpos b (List.mem_of_mem_filter (List.mem_reverse.mp hb))
    have hzero := ((h.available b).mp (List.mem_of_mem_erase hb')).2.2
    omega
  · rw [show (ready.take edges index).available = _ from havailable,
      show (ready.take edges index).ordered = _ from hordered,
      show (ready.take edges index).indegree b = _ from hindegree b, List.mem_append,
      List.mem_reverse, List.mem_filter, h.available_nodup.mem_erase_iff, h.available]
    by_cases hb : b ∈ edges.next index
    · have hne : b ≠ index := fun heq => hself (heq ▸ hb)
      have hlt' := hcounted.bounded index b hb
      have hpos := hpos b hb
      have hnew' : b ∉ ready.ordered := fun hmem => by
        obtain ⟨before, after, hsplit⟩ := List.append_of_mem hmem
        have hbefore := h.order before b after hsplit index hlt hb
        exact hnew (by rw [hsplit]; exact List.mem_append_left _ hbefore)
      simp only [hb, hlt', hnew', hne, if_true, List.mem_append, List.mem_singleton]
      simp
      omega
    · by_cases hne : b = index
      · simp [hne, hself]
      · simp [hb, hne]
  · rw [show (ready.take edges index).ordered = _ from hordered,
      show (ready.take edges index).indegree b = _ from hindegree b]
    have hcount := hcount b
    split
    · rename_i hb
      rw [if_pos hb] at hcount
      exact (Nat.sub_eq_iff_eq_add (hpos b hb)).mpr hcount
    · rename_i hb
      rw [if_neg hb] at hcount
      exact hcount
  · rw [show (ready.take edges index).ordered = _ from hordered]
    intro before b after hsplit a ha hb
    rcases List.eq_nil_or_concat after with rfl | ⟨after, last, rfl⟩
    · obtain ⟨rfl, heq⟩ := List.append_inj' hsplit rfl
      obtain rfl := List.singleton_injective heq
      by_contra hnot
      have hcount := h.indegree index
      rw [hzero, eq_comm, List.length_eq_zero_iff, List.filter_eq_nil_iff] at hcount
      exact hcount a (List.mem_range.mpr ha) (by simp [hb, hnot])
    · rw [List.concat_eq_append, ← List.cons_append, ← List.append_assoc] at hsplit
      obtain ⟨hsplit, -⟩ := List.append_inj' hsplit rfl
      exact h.order before b after hsplit a ha hb

/-- When nothing is available any more, each number left has an edge from one left. -/
theorem takeAll_kept {n : ℕ} {edges : Edges} (hcounted : edges.Counted n) :
    ∀ {fuel : ℕ} {ready : Ready}, ready.Kept n edges → ready.ordered.length + fuel = n →
      (takeAll edges fuel ready).Kept n edges ∧ (takeAll edges fuel ready).available = []
  | 0, ready, h, hfuel => by
    refine ⟨h, List.eq_nil_iff_forall_not_mem.mpr fun b hb => ?_⟩
    obtain ⟨hlt, hnew, -⟩ := (h.available b).mp hb
    have hperm : ready.ordered.Perm (List.range n) :=
      (List.subperm_of_subset h.nodup fun a ha => List.mem_range.mpr (h.bounded a ha)).perm_of_length_le
        (by simpa using Nat.le_of_eq hfuel.symm)
    exact hnew (hperm.mem_iff.mpr (List.mem_range.mpr hlt))
  | fuel + 1, ready, h, hfuel => by
    rw [takeAll]
    split
    · rename_i hnone
      exact ⟨h, List.min?_eq_none_iff.mp hnone⟩
    · rename_i index hindex
      obtain ⟨hkept, hordered⟩ := h.take hcounted (List.min?_mem hindex)
      refine takeAll_kept hcounted hkept ?_
      rw [hordered, List.length_append, List.length_singleton]
      omega

/-! ## One order keeps the others -/

/-- A list that has its elements where another one has them, in that order. -/
theorem sublist_of_order : ∀ {order joint : List ℕ}, joint.Nodup → (∀ a ∈ order, a ∈ joint) →
    order.Pairwise (fun a b => joint.idxOf a < joint.idxOf b) → order.Sublist joint
  | [], joint, _, _, _ => List.nil_sublist _
  | a :: order, [], _, hmem, _ => by simpa using hmem a (by simp)
  | a :: order, x :: joint, hnodup, hmem, hpairwise => by
    obtain ⟨hx, hnodup⟩ := List.nodup_cons.mp hnodup
    have hinside : ∀ {others : List ℕ}, (∀ b ∈ others, b ∈ x :: joint) → (∀ b ∈ others, b ≠ x) →
        others.Pairwise (fun a b => (x :: joint).idxOf a < (x :: joint).idxOf b) →
        others.Sublist joint := by
      intro others hothers hne hpairwise
      refine sublist_of_order hnodup
        (fun b hb => (List.mem_cons.mp (hothers b hb)).resolve_left (hne b hb)) ?_
      refine hpairwise.imp_of_mem fun {b c} hb hc hlt => ?_
      rw [List.idxOf_cons_ne _ (hne b hb).symm, List.idxOf_cons_ne _ (hne c hc).symm] at hlt
      omega
    obtain ⟨hhead, hrest⟩ := List.pairwise_cons.mp hpairwise
    obtain ⟨ha, hothers⟩ := List.forall_mem_cons.mp hmem
    have hlater : ∀ b ∈ order, b ≠ x := fun b hb heq => by
      have := hhead b hb
      rw [heq, List.idxOf_cons_self] at this
      omega
    by_cases hax : a = x
    · subst hax
      exact (hinside hothers hlater hrest).cons_cons a
    · exact (hinside hmem (List.forall_mem_cons.mpr ⟨hax, hlater⟩) hpairwise).cons x
termination_by _ joint => joint.length

/-- Of two neighbours in a sublist of a list without repetitions the first comes first. -/
theorem before_of_sublist {order joint before after : List ℕ} {a b : ℕ} (hnodup : joint.Nodup)
    (hsublist : order.Sublist joint) (hneighbours : [a, b] <:+: order)
    (hsplit : joint = before ++ b :: after) : a ∈ before := by
  have hpair : [a, b].Sublist (before ++ b :: after) :=
    hsplit ▸ hneighbours.sublist.trans hsublist
  rw [hsplit] at hnodup
  obtain ⟨hbefore, hafter, hdisjoint⟩ := List.nodup_append.mp hnodup
  have hb : b ∉ after := (List.nodup_cons.mp hafter).1
  obtain ⟨first, second, hpair, hfirst, hsecond⟩ := List.sublist_append_iff.mp hpair
  rcases first with _ | ⟨c, first⟩
  · rw [List.nil_append] at hpair
    rw [← hpair] at hsecond
    rcases List.sublist_cons_iff.mp hsecond with h | ⟨rest, hrest, h⟩
    · exact absurd (h.subset (by simp)) hb
    · obtain ⟨-, rfl⟩ := List.cons.inj hrest
      exact absurd (h.subset (by simp)) hb
  · obtain ⟨rfl, -⟩ := List.cons.inj hpair
    exact hfirst.subset (by simp)

variable {n : ℕ} {orders : List (List ℕ)}

/-- The last state of the loop. -/
def last (n : ℕ) (orders : List (List ℕ)) : Ready :=
  takeAll (edgesOf orders) n (start n (edgesOf orders))

theorem last_kept (horders : ∀ order ∈ orders, ∀ a ∈ order, a < n) :
    (last n orders).Kept n (edgesOf orders) ∧ (last n orders).available = [] :=
  takeAll_kept (counted_edgesOf horders) (.start (counted_edgesOf horders)) (by simp [start])

/-- An order found has all numbers and keeps every order. -/
theorem jointOrder_spec (horders : ∀ order ∈ orders, ∀ a ∈ order, a < n) {joint : List ℕ}
    (h : jointOrder n orders = some joint) :
    joint.Perm (List.range n) ∧ ∀ order ∈ orders, order.Sublist joint := by
  obtain ⟨hkept, -⟩ := last_kept horders
  unfold jointOrder at h
  rw [Option.ite_none_right_eq_some] at h
  obtain ⟨hlength, h⟩ := h
  change (last n orders).ordered.length = n at hlength
  obtain rfl : (last n orders).ordered = joint := Option.some.inj h
  have hperm : (last n orders).ordered.Perm (List.range n) :=
    (List.subperm_of_subset hkept.nodup fun a ha =>
      List.mem_range.mpr (hkept.bounded a ha)).perm_of_length_le
      (by simpa using Nat.le_of_eq hlength.symm)
  refine ⟨hperm, fun order horder => ?_⟩
  have hmem : ∀ a ∈ order, a ∈ (last n orders).ordered := fun a ha =>
    hperm.mem_iff.mpr (List.mem_range.mpr (horders order horder a ha))
  refine sublist_of_order hkept.nodup hmem ?_
  have hchain : order.IsChain fun a b =>
      (last n orders).ordered.idxOf a < (last n orders).ordered.idxOf b := by
    refine List.isChain_iff_forall_rel_of_append_cons_cons.mpr fun a b left right hsplit => ?_
    have hneighbours : [a, b] <:+: order := ⟨left, right, by simp [hsplit]⟩
    have hedge := mem_edgesOf.mpr ⟨order, horder, hneighbours⟩
    have ha : a < n := horders order horder a (hneighbours.subset (by simp))
    obtain ⟨before, after, hjoint⟩ := List.append_of_mem (hmem b (hneighbours.subset (by simp)))
    have hfirst := hkept.order before b after hjoint a ha hedge
    have hb : b ∉ before := fun hb => by
      have hnodup := hkept.nodup
      rw [hjoint] at hnodup
      exact (List.nodup_append.mp hnodup).2.2 b hb b (by simp) rfl
    rw [hjoint, List.idxOf_append_of_mem hfirst, List.idxOf_append_of_notMem hb,
      List.idxOf_cons_self]
    exact List.idxOf_lt_length_of_mem hfirst
  have : Trans (fun a b => (last n orders).ordered.idxOf a < (last n orders).ordered.idxOf b)
      (fun a b => (last n orders).ordered.idxOf a < (last n orders).ordered.idxOf b)
      fun a b => (last n orders).ordered.idxOf a < (last n orders).ordered.idxOf b :=
    ⟨Nat.lt_trans⟩
  exact List.isChain_iff_pairwise.mp hchain

/-- There is an order exactly when there is a list of all numbers that keeps every order. -/
theorem jointOrder_isSome_iff (horders : ∀ order ∈ orders, ∀ a ∈ order, a < n) :
    (jointOrder n orders).isSome = true ↔
      ∃ joint : List ℕ, joint.Perm (List.range n) ∧ ∀ order ∈ orders, order.Sublist joint := by
  constructor
  · intro h
    obtain ⟨joint, hjoint⟩ := Option.isSome_iff_exists.mp h
    exact ⟨joint, jointOrder_spec horders hjoint⟩
  · rintro ⟨joint, hperm, hsublist⟩
    obtain ⟨hkept, havailable⟩ := last_kept horders
    have hnodup : joint.Nodup := hperm.nodup_iff.mpr List.nodup_range
    -- The first number of `joint` left over would be available.
    have hall : ∀ before after, joint = before ++ after → ∀ a ∈ before,
        a ∈ (last n orders).ordered := by
      intro before
      induction before using List.reverseRecOn with
      | nil => simp
      | append_singleton before b ih =>
        intro after hsplit
        rw [List.append_assoc, List.singleton_append] at hsplit
        have hbefore := ih (b :: after) hsplit
        refine List.forall_mem_append.mpr ⟨hbefore, List.forall_mem_singleton.mpr ?_⟩
        by_contra hleft
        have hlt : b < n := List.mem_range.mp (hperm.mem_iff.mp (by rw [hsplit]; simp))
        have hzero : (last n orders).indegree b = 0 := by
          rw [hkept.indegree, List.length_eq_zero_iff, List.filter_eq_nil_iff]
          intro a _ ha
          obtain ⟨hedge, hnew⟩ := of_decide_eq_true ha
          obtain ⟨order, horder, hneighbours⟩ := mem_edgesOf.mp hedge
          exact hnew (hbefore a (before_of_sublist hnodup (hsublist order horder) hneighbours hsplit))
        have := (hkept.available b).mpr ⟨hlt, hleft, hzero⟩
        rw [havailable] at this
        simp at this
    have hlength : (last n orders).ordered.length = n := by
      refine Nat.le_antisymm ?_ ?_
      · simpa using (List.subperm_of_subset hkept.nodup fun a ha =>
          List.mem_range.mpr (hkept.bounded a ha)).length_le
      · have hsubset := (List.subperm_of_subset List.nodup_range fun a ha =>
          hall joint [] (by simp) a (hperm.mem_iff.mpr ha)).length_le
        simpa using hsubset
    unfold jointOrder
    exact Option.isSome_iff_exists.mpr ⟨_, if_pos hlength⟩

end JointOrder
