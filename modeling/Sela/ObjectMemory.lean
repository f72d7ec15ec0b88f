import Mathlib.Data.List.Basic
import Mathlib.Data.List.Nodup
import Mathlib.Algebra.Order.Group.Nat

/-!
# Memories that grow

A memory is a list of objects, each known by its place. An object that is allocated becomes the
last one, so the objects before it keep their places and their values : a memory is a prefix of
each that it grows into.

A pass takes one item after the other to what it becomes, and may allocate an object for it
(`runAll`). When each item becomes what it should in whatever memory it is met, so do all of them;
and if the objects that items had before were distinct, so are those that they have after, as an
object is either kept or new (`runAll_grows`).
-/

variable {α γ ω : Type}

/-! ## Objects -/

section Objects

variable {memory memory' : List ω} {object : ω} {place : ℕ}

/-- An object keeps its place and its value in a memory that grows. -/
theorem getElem?_grown (h : memory <+: memory') (hobject : memory[place]? = some object) :
    memory'[place]? = some object := by
  obtain ⟨grown, rfl⟩ := h
  rw [List.getElem?_append_left (List.getElem?_eq_some_iff.mp hobject).1]
  exact hobject

theorem getElem?_allocated : (memory ++ [object])[memory.length]? = some object := by
  rw [List.getElem?_append_right le_rfl, Nat.sub_self, List.getElem?_cons_zero]

end Objects

/-! ## Passes -/

/-- Run a pass over the items. -/
def runAll (step : α → List ω → Option (List ω × γ)) :
    List α → List ω → Option (List ω × List γ)
  | [], memory => some (memory, [])
  | item :: items, memory => do
    let (memory, first) ← step item memory
    let (memory, rest) ← runAll step items memory
    some (memory, first :: rest)

/-- What becomes of an item in any memory that `base` has grown into : the memory grows, the item
becomes what it should, and the object of it is the one it had before, or a new one. -/
def Grows (step : α → List ω → Option (List ω × γ)) (base : List ω) (before : α → Option ℕ)
    (after : γ → Option ℕ) (becomes : List ω → α → γ → Prop) (item : α) : Prop :=
  ∀ memory, base <+: memory → ∃ memory' result, step item memory = some (memory', result) ∧
    memory <+: memory' ∧ becomes memory' item result ∧
    (after result = before item ∨
      ∃ place, after result = some place ∧ memory.length ≤ place ∧ place < memory'.length)

section Passes

variable {step : α → List ω → Option (List ω × γ)} {base : List ω} {before : α → Option ℕ}
  {after : γ → Option ℕ} {becomes : List ω → α → γ → Prop}

theorem runAll_map {δ : Type} (f : δ → α) (items : List δ) :
    ∀ memory, runAll step (items.map f) memory = runAll (fun item => step (f item)) items memory := by
  induction items with
  | nil => intro memory; rfl
  | cons item items ih =>
    intro memory
    rw [List.map_cons, runAll, runAll]
    simp only [ih]

theorem runAll_append {items others : List α} {middle memory' : List ω} {results results' : List γ}
    (hothers : runAll step others middle = some (memory', results')) :
    ∀ {memory}, runAll step items memory = some (middle, results) →
      runAll step (items ++ others) memory = some (memory', results ++ results') := by
  induction items generalizing results with
  | nil =>
    intro memory h
    obtain ⟨rfl, rfl⟩ := Prod.mk.inj (Option.some.inj h)
    exact hothers
  | cons item items ih =>
    intro memory h
    rw [runAll] at h
    obtain ⟨⟨memory₁, first⟩, hstep, h⟩ := Option.bind_eq_some_iff.mp h
    obtain ⟨⟨memory₂, rest⟩, hrun, h⟩ := Option.bind_eq_some_iff.mp h
    obtain ⟨rfl, rfl⟩ := Prod.mk.inj (Option.some.inj h)
    rw [List.cons_append, runAll, hstep]
    simp only [Option.bind_eq_bind, Option.bind_some, ih hrun]
    rfl

/-- A pass in which every item grows runs, and keeps objects apart. -/
theorem runAll_grows
    (hkept : ∀ {memory memory' item result}, memory <+: memory' → becomes memory item result →
      becomes memory' item result) {items : List α} :
    ∀ {memory : List ω}, base <+: memory →
      (∀ item ∈ items, Grows step base before after becomes item) →
      (items.filterMap before).Nodup → (∀ place ∈ items.filterMap before, place < memory.length) →
      ∃ memory' results, runAll step items memory = some (memory', results) ∧
        memory <+: memory' ∧ List.Forall₂ (becomes memory') items results ∧
        (results.filterMap after).Nodup ∧
        ∀ place ∈ results.filterMap after, place < memory'.length ∧
          (place ∈ items.filterMap before ∨ memory.length ≤ place) := by
  induction items with
  | nil =>
    intro memory _ _ _ _
    exact ⟨memory, [], rfl, List.prefix_rfl, .nil, List.nodup_nil, by simp⟩
  | cons item items ih =>
    intro memory hbase hgrows hnodup hold
    obtain ⟨hitem, hitems⟩ := List.forall_mem_cons.mp hgrows
    obtain ⟨middle, first, hstep, hgrown, hfirst, hplace⟩ := hitem memory hbase
    have hlength := hgrown.length_le
    -- the objects of the other items are kept apart from that of this one
    have hapart : (items.filterMap before).Nodup ∧
        ∀ place, before item = some place →
          place < memory.length ∧ place ∉ items.filterMap before := by
      rcases hbefore : before item with _ | place
      · rw [List.filterMap_cons_none hbefore] at hnodup
        exact ⟨hnodup, by simp⟩
      · rw [List.filterMap_cons_some hbefore] at hnodup hold
        obtain ⟨hnot, hnodup⟩ := List.nodup_cons.mp hnodup
        refine ⟨hnodup, fun place' hplace' => ?_⟩
        obtain rfl := Option.some.inj hplace'
        exact ⟨hold place List.mem_cons_self, hnot⟩
    have hsubset : items.filterMap before ⊆ (item :: items).filterMap before :=
      ((List.sublist_cons_self item items).filterMap before).subset
    have hrestold : ∀ place ∈ items.filterMap before, place < memory.length :=
      fun place hmem => hold place (hsubset hmem)
    obtain ⟨memory', rest, hrun, hgrown', hrest, hrestnodup, hrestplaces⟩ :=
      ih (hbase.trans hgrown) hitems hapart.1
        fun place hmem => (hrestold place hmem).trans_le hlength
    have hlength' := hgrown'.length_le
    refine ⟨memory', first :: rest, by rw [runAll, hstep]; simp only [Option.bind_eq_bind,
      Option.bind_some, hrun], hgrown.trans hgrown', .cons (hkept hgrown' hfirst) hrest, ?_⟩
    rcases hafter : after first with _ | place
    · rw [List.filterMap_cons_none hafter]
      refine ⟨hrestnodup, fun place hmem => ?_⟩
      obtain ⟨hlt, hor⟩ := hrestplaces place hmem
      exact ⟨hlt, hor.imp (fun hmem => hsubset hmem) fun hle => hlength.trans hle⟩
    · rw [List.filterMap_cons_some hafter]
      -- the object is kept, or allocated here : either way none of the others
      have hthis : place < middle.length ∧ place ∉ items.filterMap before ∧
          (before item = some place ∨ memory.length ≤ place) := by
        rcases hplace with hkeep | ⟨place', hnew, hle, hlt⟩
        · have hbefore := hkeep.symm.trans hafter
          obtain ⟨hlt, hnot⟩ := hapart.2 place hbefore
          exact ⟨hlt.trans_le hlength, hnot, .inl hbefore⟩
        · obtain rfl := Option.some.inj (hafter.symm.trans hnew)
          refine ⟨hlt, fun hmem => ?_, .inr hle⟩
          have := hrestold place hmem
          omega
      refine ⟨List.nodup_cons.mpr ⟨fun hmem => ?_, hrestnodup⟩, fun place' hmem => ?_⟩
      · rcases (hrestplaces place hmem).2 with hold' | hle
        · exact hthis.2.1 hold'
        · have := hthis.1
          omega
      · rcases List.mem_cons.mp hmem with rfl | hmem
        · refine ⟨hthis.1.trans_le hlength', hthis.2.2.imp (fun hbefore => ?_) id⟩
          exact List.mem_filterMap.mpr ⟨item, List.mem_cons_self, hbefore⟩
        · obtain ⟨hlt, hor⟩ := hrestplaces place' hmem
          exact ⟨hlt, hor.imp (fun hmem => hsubset hmem) fun hle => hlength.trans hle⟩

end Passes
