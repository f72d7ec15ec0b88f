import Mathlib.Algebra.Ring.Nat
import Mathlib.Data.List.Nodup
import Mathlib.Logic.Function.Basic

/-!
# Observations of several peers

Several peers are each observed to have a value (`Observations`). The values are taken
apart in the same way for all peers : a `Subpart` of a value is smaller than it, so taking
parts ends (`Observations.weight_part_lt`).

Each peer has names of its own for what the peers share. A table (`Tables`) holds the
shared name of each peer's own name; a table that grows keeps what it holds and, if no
two names of one peer share a name, still has none that do (`Tables.Grows`).
-/

namespace Correspondence

variable {κ α β : Type}

/-- What peers were observed to have. -/
abbrev Observations (κ α : Type) := List (κ × α)

/-- A part of a value, smaller than the value. -/
structure Subpart (α β : Type) [SizeOf α] [SizeOf β] where
  get : α → Option β
  smaller : ∀ {a b}, get a = some b → sizeOf b < sizeOf a

/-- The `k`-th of the parts a value has in order. -/
def Subpart.nth [SizeOf α] [SizeOf β] (parts : α → List β)
    (smaller : ∀ {a b}, b ∈ parts a → sizeOf b < sizeOf a) (k : ℕ) : Subpart α β where
  get a := (parts a)[k]?
  smaller h := smaller (List.mem_of_getElem? h)

namespace Observations

section Parts

variable [SizeOf α] [SizeOf β]

/-- The part of every peer that has it. -/
def part (part : Subpart α β) (observations : Observations κ α) : Observations κ β :=
  observations.filterMap fun observation =>
    (part.get observation.2).map fun value => (observation.1, value)

theorem mem_part {part : Subpart α β} {observations : Observations κ α} {peer : κ} {value : β} :
    (peer, value) ∈ observations.part part ↔
      ∃ whole, (peer, whole) ∈ observations ∧ part.get whole = some value := by
  simp only [Observations.part, List.mem_filterMap, Option.map_eq_some_iff, Prod.mk.injEq]
  constructor
  · rintro ⟨⟨peer', whole⟩, hmem, value', hget, rfl, rfl⟩
    exact ⟨whole, hmem, hget⟩
  · rintro ⟨whole, hmem, hget⟩
    exact ⟨(peer, whole), hmem, value, hget, rfl, rfl⟩

/-- Each peer that has the part had the whole. -/
theorem part_sublist (part : Subpart α β) :
    ∀ observations : Observations κ α,
      ((observations.part part).map Prod.fst).Sublist (observations.map Prod.fst)
  | [] => .slnil
  | observation :: observations => by
    have ih := part_sublist part observations
    unfold Observations.part at ih ⊢
    rw [List.filterMap_cons, List.map_cons]
    split
    · exact ih.cons _
    · rename_i value hvalue
      obtain ⟨_, -, rfl⟩ := Option.map_eq_some_iff.mp hvalue
      exact ih.cons_cons _

/-- What holds of every part of every peer's value, list by list, holds part by part. -/
theorem forall₂_nth {γ : Type} {parts : α → List β}
    {smaller : ∀ {a b}, b ∈ parts a → sizeOf b < sizeOf a} {R : κ → γ → β → Prop}
    {observations : Observations κ α} {results : List γ}
    (hlength : ∀ peer whole, (peer, whole) ∈ observations → (parts whole).length ≤ results.length) :
    (∀ peer whole, (peer, whole) ∈ observations →
      List.Forall₂ (R peer) (results.take (parts whole).length) (parts whole)) ↔
    ∀ k result, results[k]? = some result →
      ∀ peer value, (peer, value) ∈ observations.part (.nth parts smaller k) →
        R peer result value := by
  constructor
  · intro h k result hresult peer value hvalue
    obtain ⟨whole, hmem, hget⟩ := mem_part.mp hvalue
    have hk : k < (parts whole).length := (List.getElem?_eq_some_iff.mp hget).1
    obtain ⟨hlen, hpairs⟩ := List.forall₂_iff_get.mp (h peer whole hmem)
    have hpair := hpairs k (by rw [hlen]; exact hk) hk
    obtain ⟨hk', rfl⟩ := List.getElem?_eq_some_iff.mp hresult
    obtain ⟨_, rfl⟩ := List.getElem?_eq_some_iff.mp hget
    simpa using hpair
  · intro h peer whole hmem
    have hle := hlength peer whole hmem
    refine List.forall₂_iff_get.mpr ⟨by simp [hle], fun k hk hk' => ?_⟩
    have hresult : results[k]? = some (results.take (parts whole).length)[k] := by
      rw [List.getElem_take]
      exact List.getElem?_eq_getElem _
    exact h k _ hresult peer _ (mem_part.mpr ⟨whole, hmem, List.getElem?_eq_getElem hk'⟩)

/-- The size of all values together. -/
def weight (observations : Observations κ α) : ℕ :=
  (observations.map fun observation => sizeOf observation.2).sum

theorem weight_cons (observation : κ × α) (observations : Observations κ α) :
    weight (observation :: observations) = sizeOf observation.2 + weight observations := by
  simp [weight]

theorem weight_part_le (part : Subpart α β) :
    ∀ observations : Observations κ α, (observations.part part).weight ≤ observations.weight
  | [] => Nat.le_refl _
  | observation :: observations => by
    have ih := weight_part_le part observations
    unfold Observations.part at ih ⊢
    rw [List.filterMap_cons, weight_cons]
    split
    · omega
    · rename_i value hvalue
      obtain ⟨_, hget, rfl⟩ := Option.map_eq_some_iff.mp hvalue
      have := part.smaller hget
      rw [weight_cons]
      dsimp only
      omega

/-- The parts weigh less than the whole. -/
theorem weight_part_lt (part : Subpart α β) (hpos : ∀ a : α, 0 < sizeOf a)
    {observations : Observations κ α} (hne : observations ≠ []) :
    (observations.part part).weight < observations.weight := by
  obtain ⟨observation, observations, rfl⟩ := List.exists_cons_of_ne_nil hne
  have hrest := weight_part_le part observations
  have hhead := hpos observation.2
  unfold Observations.part at hrest ⊢
  rw [List.filterMap_cons, weight_cons]
  split
  · omega
  · rename_i value hvalue
    obtain ⟨_, hget, rfl⟩ := Option.map_eq_some_iff.mp hvalue
    have hsmaller := part.smaller hget
    rw [weight_cons]
    dsimp only
    omega

end Parts

end Observations

/-- The shared name of each name a peer has. -/
abbrev Tables (κ α β : Type) := κ → List (α × β)

namespace Tables

variable [DecidableEq α]

/-- The shared name a peer's name stands for. -/
def shared (tables : Tables κ α β) (peer : κ) (name : α) : Option β := (tables peer).lookup name

/-- Let a peer's name stand for a shared name. -/
def assign [DecidableEq κ] (tables : Tables κ α β) (peer : κ) (name : α) (common : β) :
    Tables κ α β :=
  Function.update tables peer
    ((name, common) :: (tables peer).filter fun entry => entry.1 ≠ name)

theorem mem_of_shared {tables : Tables κ α β} {peer : κ} {name : α} {common : β}
    (h : tables.shared peer name = some common) : (name, common) ∈ tables peer := by
  obtain ⟨before, after, heq, -⟩ := List.lookup_eq_some_iff.mp h
  simp [heq]

/-- No two names of one peer stand for the same shared name. -/
def Injective (tables : Tables κ α β) : Prop :=
  ∀ peer name name' common, tables.shared peer name = some common →
    tables.shared peer name' = some common → name = name'

/-- A table that grows keeps what it holds. -/
structure Grows (tables tables' : Tables κ α β) : Prop where
  keeps : ∀ peer name common, tables.shared peer name = some common →
    tables'.shared peer name = some common
  injective : tables.Injective → tables'.Injective

theorem Grows.refl (tables : Tables κ α β) : tables.Grows tables :=
  ⟨fun _ _ _ h => h, fun h => h⟩

theorem Grows.trans {tables tables' tables'' : Tables κ α β} (h : tables.Grows tables')
    (h' : tables'.Grows tables'') : tables.Grows tables'' :=
  ⟨fun peer name common hshared => h'.keeps peer name common (h.keeps peer name common hshared),
    fun hinjective => h'.injective (h.injective hinjective)⟩

variable [DecidableEq κ] {tables : Tables κ α β}

theorem shared_assign_self (peer : κ) (name : α) (common : β) :
    (tables.assign peer name common).shared peer name = some common := by
  simp [shared, assign]

theorem lookup_cons_of_ne {name name' : α} (h : name' ≠ name) (common : β)
    (entries : List (α × β)) : ((name, common) :: entries).lookup name' = entries.lookup name' := by
  rw [List.lookup_cons, beq_eq_false_iff_ne.mpr h]

theorem lookup_filter_ne {name name' : α} (h : name' ≠ name) :
    ∀ entries : List (α × β),
      (entries.filter fun entry => entry.1 ≠ name).lookup name' = entries.lookup name'
  | [] => rfl
  | (key, value) :: entries => by
    have ih := lookup_filter_ne h entries
    by_cases hkey : key = name
    · subst hkey
      rw [List.filter_cons_of_neg (by simp), ih, lookup_cons_of_ne h]
    · rw [List.filter_cons_of_pos (by simpa using hkey), List.lookup_cons, List.lookup_cons, ih]

theorem shared_assign_of_ne {peer peer' : κ} {name name' : α} (common : β)
    (h : peer' ≠ peer ∨ name' ≠ name) :
    (tables.assign peer name common).shared peer' name' = tables.shared peer' name' := by
  unfold shared assign
  by_cases hpeer : peer' = peer
  · subst hpeer
    have hname : name' ≠ name := h.resolve_left (by simp)
    rw [Function.update_self, lookup_cons_of_ne hname, lookup_filter_ne hname]
  · rw [Function.update_of_ne hpeer]

/-- A name that stands for nothing yet, or for this already, may be assigned a shared name
that no other name of the peer stands for. -/
theorem grows_assign {peer : κ} {name : α} {common : β}
    (hname : ∀ other, tables.shared peer name = some other → other = common)
    (hother : ∀ name', tables.shared peer name' = some common → name' = name) :
    tables.Grows (tables.assign peer name common) := by
  constructor
  · intro peer' name' common' hshared
    by_cases h : peer' = peer ∧ name' = name
    · obtain ⟨rfl, rfl⟩ := h
      rw [shared_assign_self, hname common' hshared]
    · rw [shared_assign_of_ne common (by tauto)]
      exact hshared
  · intro hinjective peer' a b common' ha hb
    by_cases hpeer : peer' = peer
    · subst hpeer
      by_cases hna : a = name <;> by_cases hnb : b = name
      · rw [hna, hnb]
      · subst hna
        rw [shared_assign_self] at ha
        rw [shared_assign_of_ne common (.inr hnb), ← Option.some.inj ha] at hb
        exact absurd (hother b hb) hnb
      · subst hnb
        rw [shared_assign_self] at hb
        rw [shared_assign_of_ne common (.inr hna), ← Option.some.inj hb] at ha
        exact absurd (hother a ha) hna
      · rw [shared_assign_of_ne common (.inr hna)] at ha
        rw [shared_assign_of_ne common (.inr hnb)] at hb
        exact hinjective peer' a b common' ha hb
    · rw [shared_assign_of_ne common (.inl hpeer)] at ha hb
      exact hinjective peer' a b common' ha hb

end Tables

end Correspondence
