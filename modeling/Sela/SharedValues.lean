import Sela.DomainSpecialization
import Sela.FunctionMerge
import Sela.MergeRoundTrip

/-!
# What shared values stand for

A shared value stands for one value of each target it was merged from (`History.own`). Every
step of a merge only adds to what is known (`Yields`), so that an operand found by the operands
of the targets stands for each of them (`Yields.operand`), and what is made for the values of
the targets stands for each of them from then on (`Yields.addValue`).
-/

namespace Stateful

variable {σ α β : Type}

theorem exec_mapM_cons_ok {f : α → Stateful σ β} {x : α} {xs : List α} {s u : σ} {ys : List β} :
    exec ((x :: xs).mapM f) s = (.ok ys, u) ↔ ∃ y rest t, exec (f x) s = (.ok y, t) ∧
      exec (xs.mapM f) t = (.ok rest, u) ∧ ys = y :: rest := by
  rw [List.mapM_cons, exec_bind_ok]
  constructor
  · rintro ⟨y, t, hy, h⟩
    obtain ⟨rest, v, hrest, h⟩ := exec_bind_ok.mp h
    obtain ⟨hys, rfl⟩ := Prod.mk.inj h
    exact ⟨y, rest, t, hy, hrest, (Except.ok.inj hys).symm⟩
  · rintro ⟨y, rest, t, hy, hrest, rfl⟩
    exact ⟨y, t, hy, exec_bind_ok.mpr ⟨rest, u, hrest, rfl⟩⟩

end Stateful

namespace Sela

open Checked Correspondence Stateful

namespace Merger

/-! ## What shared values stand for -/

/-- The tuple of each shared value, in the order they were made. -/
abbrev History := List (Value × Tuple)

/-- What a shared value stands for on a target. -/
def History.own (history : History) (target : TargetInfo) (value : Value) : Option Value :=
  (history.lookup value).bind fun tuple => tuple.lookup target

theorem History.own_mono {history history' : History} (h : history <+: history')
    {target : TargetInfo} {value own : Value} (hown : history.own target value = some own) :
    history'.own target value = some own := by
  obtain ⟨tuple, htuple, hown⟩ := Option.bind_eq_some_iff.mp hown
  exact Option.bind_eq_some_iff.mpr ⟨tuple, h.lookup_eq_some htuple, hown⟩

/-- Every shared value has a name of its own, and the type of what it stands for on a target
once it is specialized for that target, up to the identities in it. -/
structure History.WellFormed (history : History) : Prop where
  nodup : (history.map fun entry => entry.1.id).Nodup
  concrete : ∀ target value own, history.own target value = some own →
    own.type.Concrete target.id
  types : ∀ target value own, history.own target value = some own →
    Resembles target own.type value.type

/-- The history of a merge : what it looks values up by, and names it has used. -/
structure Building.Traces (building : Building) (history : History) : Prop where
  wellFormed : history.WellFormed
  values : ∀ tuple value, (tuple, value) ∈ building.values → history.lookup value = some tuple
  fresh : ∀ entry ∈ history, entry.1.id < building.next

/-- Whatever has come before, a step that succeeds leads to a longer history, of which and of
its result `Q` holds. -/
def Yields {α : Type} (m : Stateful Building α) (Q : History → α → Prop) : Prop :=
  ∀ history s a s', s.Traces history → exec m s = (.ok a, s') →
    ∃ history', history <+: history' ∧ s'.Traces history' ∧ Q history' a

/-- What stays true of a result as the history grows. -/
def Stable {α : Type} (Q : History → α → Prop) : Prop :=
  ∀ history history' a, history <+: history' → Q history a → Q history' a

theorem Yields.imp {α : Type} {m : Stateful Building α} {Q R : History → α → Prop}
    (h : Yields m Q) (himp : ∀ history a, Q history a → R history a) : Yields m R :=
  fun history s a s' hs hm => by
    obtain ⟨history', hextends, hs', hQ⟩ := h history s a s' hs hm
    exact ⟨history', hextends, hs', himp _ _ hQ⟩

theorem Yields.pure {α : Type} {Q : History → α → Prop} {a : α} (h : ∀ history, Q history a) :
    Yields (Pure.pure a) Q := fun history s b s' hs hm => by
  obtain ⟨hb, rfl⟩ := Prod.mk.inj hm
  obtain rfl := Except.ok.inj hb
  exact ⟨history, List.prefix_refl _, hs, h history⟩

theorem Yields.check {α : Type} (c : Checked α) : Yields (check c) fun _ a => c = .ok a :=
  fun history s a s' hs hm => by
    rw [exec_check] at hm
    obtain ⟨hc, rfl⟩ := Prod.mk.inj hm
    exact ⟨history, List.prefix_refl _, hs, hc⟩

/-- One step after the other : what holds after the first one still holds after the second. -/
theorem Yields.bind {α β : Type} {m : Stateful Building α} {f : α → Stateful Building β}
    {Q : History → α → Prop} {R : α → History → β → Prop} {S : History → β → Prop}
    (hm : Yields m Q) (hQ : Stable Q) (hf : ∀ a history, Q history a → Yields (f a) (R a))
    (hS : ∀ history a b, Q history a → R a history b → S history b) : Yields (m >>= f) S :=
  fun history s b s'' hs h => by
    obtain ⟨a, s', ha, hb⟩ := exec_bind_ok.mp h
    obtain ⟨history', hextends, hs', hQa⟩ := hm history s a s' hs ha
    obtain ⟨history'', hextends', hs'', hRb⟩ := hf a history' hQa history' s' b s'' hs' hb
    exact ⟨history'', hextends.trans hextends', hs'', hS _ _ _ (hQ _ _ _ hextends' hQa) hRb⟩

theorem Yields.mapM {α β : Type} {f : α → Stateful Building β} {Q : α → History → β → Prop}
    (hQ : ∀ x, Stable (Q x)) : ∀ {xs : List α}, (∀ x ∈ xs, Yields (f x) (Q x)) →
      Yields (xs.mapM f) fun history ys => List.Forall₂ (fun x y => Q x history y) xs ys
  | [], _ => Yields.pure fun _ => .nil
  | x :: xs, h => by
    obtain ⟨hx, hxs⟩ := List.forall_mem_cons.mp h
    have ih := Yields.mapM hQ hxs
    intro history s ys s'' hs hm
    obtain ⟨y, rest, s', hy, hrest, rfl⟩ := exec_mapM_cons_ok.mp hm
    obtain ⟨history', hextends, hs', hQy⟩ := hx history s y s' hs hy
    obtain ⟨history'', hextends', hs'', hall⟩ := ih history' s' rest s'' hs' hrest
    exact ⟨history'', hextends.trans hextends', hs'', .cons (hQ x _ _ _ hextends' hQy) hall⟩

/-- A step of the whole merge makes no shared value. -/
theorem Yields.inMerger {α : Type} (m : Stateful Merger α) :
    Yields (inMerger m) fun _ a => ∃ s s', exec m s = (.ok a, s') := by
  intro history s a s' hs hm
  unfold Merger.inMerger at hm
  obtain ⟨building, t, hget, hm⟩ := exec_bind_ok.mp hm
  obtain ⟨hbuilding, rfl⟩ := Prod.mk.inj hget
  obtain rfl := Except.ok.inj hbuilding
  obtain ⟨_, t, hset, hm⟩ := exec_bind_ok.mp hm
  obtain ⟨-, rfl⟩ := Prod.mk.inj hset
  rw [exec_check] at hm
  obtain ⟨ha, rfl⟩ := Prod.mk.inj hm
  exact ⟨history, List.prefix_refl _, ⟨hs.wellFormed, hs.values, hs.fresh⟩, _, _,
    Prod.ext ha rfl⟩

/-! ## Looking values up -/

/-- Observations on distinct targets of the merge. -/
structure OnTargets {α : Type} (ids : List TargetInfo) (observations : Observations TargetInfo α) :
    Prop where
  nodup : (observations.map Prod.fst).Nodup
  subset : ∀ entry ∈ observations, entry.1 ∈ ids

/-- Reading one entry of a list made entry by entry. -/
theorem lookup_filterMap {κ α : Type} [DecidableEq κ] (f : κ → Option α) (key : κ) :
    ∀ keys : List κ, (keys.filterMap fun key => (f key).map fun value => (key, value)).lookup key =
      if key ∈ keys then f key else none
  | [] => rfl
  | first :: keys => by
    have ih := lookup_filterMap f key keys
    by_cases hkey : key = first
    · subst hkey
      cases hf : f key with
      | none => simp [hf, ih]
      | some value => simp [hf]
    · cases hf : f first with
      | none => simp [hf, ih, hkey]
      | some value => simp [hf, ih, hkey, List.lookup_cons, beq_eq_false_iff_ne.mpr hkey]

/-- The tuple of the values observed holds each of them. -/
theorem lookup_key {ids : List TargetInfo} {observations : Observations TargetInfo Value}
    (h : OnTargets ids observations) {target : TargetInfo} {value : Value} :
    (key ids observations).lookup target = some value ↔ (target, value) ∈ observations := by
  have hnodup : (observations.reverse.map Prod.fst).Nodup := by
    rw [List.map_reverse]
    exact List.nodup_reverse.mpr h.nodup
  rw [key, lookup_filterMap, Option.ite_none_right_eq_some,
    Association.lookup_eq_some_iff_mem hnodup, List.mem_reverse]
  exact ⟨fun h => h.2, fun hmem => ⟨h.subset _ hmem, hmem⟩⟩

/-- A shared value stands for each of the values observed. -/
def StandsFor (observations : Observations TargetInfo Value) (history : History) (shared : Value) :
    Prop :=
  ∀ target value, (target, value) ∈ observations → history.own target shared = some value

theorem stable_standsFor (observations : Observations TargetInfo Value) :
    Stable (StandsFor observations) :=
  fun _ _ _ hextends h target value hmem => History.own_mono hextends (h target value hmem)

/-- An operand found stands for the operands observed. -/
theorem Yields.operand {ids : List TargetInfo} {observations : Observations TargetInfo Value}
    (h : OnTargets ids observations) :
    Yields (operand ids observations) (StandsFor observations) := by
  intro history s a s' hs hm
  unfold Merger.operand at hm
  obtain ⟨building, t, hget, hm⟩ := exec_bind_ok.mp hm
  obtain ⟨hbuilding, rfl⟩ := Prod.mk.inj hget
  obtain rfl := Except.ok.inj hbuilding
  have hfound : ∀ candidate, (candidate, a) ∈ s.values →
      (∀ target value, (target, value) ∈ observations → candidate.lookup target = some value) →
      StandsFor observations history a := fun candidate hmem hcandidate target value hvalue => by
    rw [History.own, hs.values candidate a hmem]
    exact hcandidate target value hvalue
  dsimp only at hm
  split at hm
  · rename_i value hvalue
    obtain ⟨hvalue', rfl⟩ := Prod.mk.inj hm
    obtain rfl := Except.ok.inj hvalue'
    refine ⟨history, List.prefix_refl _, hs, hfound _ ?_ fun target value => (lookup_key h).mpr⟩
    obtain ⟨before, after, hsplit, -⟩ := List.lookup_eq_some_iff.mp hvalue
    simp [hsplit]
  · split at hm
    · simp [fail] at hm
    · rename_i value others hmatching
      obtain ⟨_, -, hm⟩ := exec_check_bind_ok.mp hm
      obtain ⟨hvalue, rfl⟩ := Prod.mk.inj hm
      obtain rfl := Except.ok.inj hvalue
      have hmem : value ∈ (s.values.filter fun entry =>
          covers entry.1 (key ids observations)).map Prod.snd := by simp [hmatching]
      obtain ⟨⟨candidate, value'⟩, hentry, rfl⟩ := List.mem_map.mp hmem
      obtain ⟨hentry, hcovers⟩ := List.mem_filter.mp hentry
      refine ⟨history, List.prefix_refl _, hs, hfound candidate hentry fun target value hvalue => ?_⟩
      have hkey := (lookup_key h).mpr hvalue
      obtain ⟨before, after, hsplit, -⟩ := List.lookup_eq_some_iff.mp hkey
      unfold covers at hcovers
      rw [hsplit] at hcovers
      exact of_decide_eq_true (List.all_eq_true.mp hcovers (target, value) (by simp))

/-- What a longer history says of a value it ends with, or of one before. -/
theorem History.own_concat {history : History} {value : Value} {tuple : Tuple}
    {target : TargetInfo} {shared own : Value}
    (h : (history ++ [(value, tuple)]).own target shared = some own) :
    history.own target shared = some own ∨ (shared = value ∧ tuple.lookup target = some own) := by
  obtain ⟨found, hfound, hown⟩ := Option.bind_eq_some_iff.mp h
  rw [List.lookup_append] at hfound
  cases hlookup : history.lookup shared with
  | some tuple' =>
    rw [hlookup, Option.some_or, Option.some.injEq] at hfound
    exact .inl (Option.bind_eq_some_iff.mpr ⟨tuple', hlookup, hfound ▸ hown⟩)
  | none =>
    rw [hlookup, Option.none_or, List.lookup_cons] at hfound
    split at hfound
    · rename_i heq
      obtain rfl := Option.some.inj hfound
      exact .inr ⟨beq_iff_eq.mp heq, hown⟩
    · simp at hfound

/-- A value added stands for the values observed. -/
theorem Yields.addValue {ids : List TargetInfo} {observations : Observations TargetInfo Value}
    (h : OnTargets ids observations)
    (hconcrete : ∀ target value, (target, value) ∈ observations → value.type.Concrete target.id)
    {type : SelaType}
    (htype : ∀ target value, (target, value) ∈ observations → Resembles target value.type type) :
    Yields (addValue ids observations type) (StandsFor observations) := by
  intro history s a s' hs hm
  unfold Merger.addValue at hm
  obtain ⟨building, t, hget, hm⟩ := exec_bind_ok.mp hm
  obtain ⟨hbuilding, rfl⟩ := Prod.mk.inj hget
  obtain rfl := Except.ok.inj hbuilding
  obtain ⟨_, t, hset, hm⟩ := exec_bind_ok.mp hm
  obtain ⟨-, rfl⟩ := Prod.mk.inj hset
  obtain ⟨ha, rfl⟩ := Prod.mk.inj hm
  obtain rfl := Except.ok.inj ha
  have hnew : history.lookup ⟨s.next, type⟩ = none := by
    rw [Association.lookup_eq_none_iff_mem]
    intro hmem
    obtain ⟨entry, hentry, heq⟩ := List.mem_map.mp hmem
    have := hs.fresh entry hentry
    rw [heq] at this
    exact Nat.lt_irrefl _ this
  have hlast : List.lookup ⟨s.next, type⟩ (history ++ [(⟨s.next, type⟩, key ids observations)]) =
      some (key ids observations) := by
    rw [List.lookup_append, hnew]
    simp
  have hextends : history <+: history ++ [(⟨s.next, type⟩, key ids observations)] :=
    List.prefix_append _ _
  refine ⟨_, hextends, ⟨⟨?_, fun target value own hown => ?_, fun target value own hown => ?_⟩,
    fun tuple value hmem => ?_, fun entry hentry => ?_⟩, fun target value hvalue => ?_⟩
  · rw [List.map_append, List.map_cons, List.map_nil]
    refine Grouping.nodup_concat hs.wellFormed.nodup fun hmem => ?_
    obtain ⟨entry, hentry, heq⟩ := List.mem_map.mp hmem
    exact Nat.ne_of_lt (hs.fresh entry hentry) heq
  · rcases History.own_concat hown with hown | ⟨-, hown⟩
    · exact hs.wellFormed.concrete target value own hown
    · exact hconcrete target own ((lookup_key h).mp hown)
  · rcases History.own_concat hown with hown | ⟨rfl, hnewest⟩
    · exact hs.wellFormed.types target value own hown
    · exact htype target own ((lookup_key h).mp hnewest)
  · rcases List.mem_cons.mp hmem with heq | hmem
    · obtain ⟨rfl, rfl⟩ := Prod.mk.inj heq
      exact hlast
    · exact hextends.lookup_eq_some (hs.values tuple value (List.mem_of_mem_filter hmem))
  · rcases List.mem_append.mp hentry with hentry | hentry
    · exact Nat.lt_succ_of_lt (hs.fresh entry hentry)
    · rw [List.mem_singleton.mp hentry]
      exact Nat.lt_succ_self _
  · rw [History.own, hlast]
    exact (lookup_key h).mpr hvalue

/-! ## Values in order -/

/-- Keeping some entries keeps their keys in order. -/
theorem filterMap_fst_sublist {α κ : Type} {f : κ × α → Option κ}
    (hf : ∀ entry key, f entry = some key → key = entry.1) :
    ∀ {entries : List (κ × α)}, (entries.filterMap f).Sublist (entries.map Prod.fst)
  | [] => .slnil
  | entry :: entries => by
    have ih := @filterMap_fst_sublist _ _ _ hf entries
    rw [List.filterMap_cons, List.map_cons]
    split
    · exact ih.cons _
    · rename_i key hkey
      rw [hf entry key hkey]
      exact ih.cons_cons _

theorem mem_nth {α : Type} {k : ℕ} {lists : Observations TargetInfo (List α)}
    {target : TargetInfo} {value : α} : (target, value) ∈ nth k lists ↔
      ∃ list, (target, list) ∈ lists ∧ list[k]? = some value := by
  simp only [nth, List.mem_filterMap, Option.map_eq_some_iff, Prod.mk.injEq]
  constructor
  · rintro ⟨⟨target', list⟩, hmem, value', hvalue, rfl, rfl⟩
    exact ⟨list, hmem, hvalue⟩
  · rintro ⟨list, hmem, hvalue⟩
    exact ⟨(target, list), hmem, value, hvalue, rfl, rfl⟩

theorem nth_sublist {α : Type} (k : ℕ) (lists : Observations TargetInfo (List α)) :
    ((nth k lists).map Prod.fst).Sublist (lists.map Prod.fst) := by
  unfold nth
  rw [List.map_filterMap]
  refine filterMap_fst_sublist fun entry target h => ?_
  obtain ⟨value, hvalue, rfl⟩ := Option.map_eq_some_iff.mp h
  obtain ⟨value', -, rfl⟩ := Option.map_eq_some_iff.mp hvalue
  rfl

theorem OnTargets.sublist {α β : Type} {ids : List TargetInfo}
    {observations : Observations TargetInfo α} {observations' : Observations TargetInfo β}
    (h : OnTargets ids observations)
    (hsublist : (observations'.map Prod.fst).Sublist (observations.map Prod.fst)) :
    OnTargets ids observations' :=
  ⟨h.nodup.sublist hsublist, fun entry hentry => by
    obtain ⟨entry', hentry', heq⟩ := List.mem_map.mp (hsublist.subset (List.mem_map_of_mem hentry))
    exact heq ▸ h.subset entry' hentry'⟩

theorem OnTargets.nth {α : Type} {ids : List TargetInfo}
    {lists : Observations TargetInfo (List α)} (h : OnTargets ids lists) (k : ℕ) :
    OnTargets ids (nth k lists) :=
  h.sublist (nth_sublist k lists)

/-- Shared values for as many values of each target stand for each target's, in order. -/
theorem forall₂_standsFor {history : History} {lists : Observations TargetInfo (List Value)}
    {count : ℕ} {shareds : List Value}
    (hlength : ∀ target values, (target, values) ∈ lists → values.length = count)
    (h : List.Forall₂ (fun k shared => StandsFor (nth k lists) history shared) (List.range count)
      shareds) {target : TargetInfo} {values : List Value} (hmem : (target, values) ∈ lists) :
    shareds.map (history.own target) = values.map some := by
  have hcount : shareds.length = count := by simpa using h.length_eq.symm
  refine List.ext_getElem? fun k => ?_
  rw [List.getElem?_map, List.getElem?_map]
  by_cases hk : k < count
  · obtain ⟨shared, hshared, hstands⟩ := forall₂_getElem? h (List.getElem?_range hk)
    have hvalue := List.getElem?_eq_getElem (hlength target values hmem ▸ hk)
    rw [hshared, hvalue, Option.map_some, Option.map_some,
      hstands target _ (mem_nth.mpr ⟨values, hmem, hvalue⟩)]
  · rw [List.getElem?_eq_none (by omega), List.getElem?_eq_none
      (by rw [hlength target values hmem]; omega)]
    rfl

theorem Yields.operandsOf {ids : List TargetInfo} {lists : Observations TargetInfo (List Value)}
    (h : OnTargets ids lists) {count : ℕ}
    (hlength : ∀ target values, (target, values) ∈ lists → values.length = count) :
    Yields (operandsOf ids lists count) fun history shareds => ∀ target values,
      (target, values) ∈ lists → shareds.map (history.own target) = values.map some :=
  (Yields.mapM (fun k => stable_standsFor (Merger.nth k lists)) fun k _ =>
    Yields.operand (h.nth k)).imp fun _ _ hall _ _ => forall₂_standsFor hlength hall

/-- The types of values observed are concrete types of the targets observed. -/
theorem concretes_types {observations : Observations TargetInfo Value}
    (hnodup : (observations.map Prod.fst).Nodup)
    (hregistered : ∀ entry ∈ observations, entry.1 ∈ targets.all)
    (hconcrete : ∀ target value, (target, value) ∈ observations → value.type.Concrete target.id) :
    Concretes (observations.map fun entry => (entry.1, entry.2.type)) := by
  refine ⟨by simpa [Function.comp_def] using hnodup, fun target type hmem => ?_,
    fun target type hmem => ?_⟩
  · obtain ⟨entry, hentry, heq⟩ := List.mem_map.mp hmem
    obtain ⟨rfl, rfl⟩ := Prod.mk.inj heq
    exact hregistered entry hentry
  · obtain ⟨entry, hentry, heq⟩ := List.mem_map.mp hmem
    obtain ⟨rfl, rfl⟩ := Prod.mk.inj heq
    exact hconcrete entry.1 entry.2 hentry

/-- A merged type is the type of each value observed, once specialized for its target. -/
theorem Yields.mergeType {observations : Observations TargetInfo Value}
    (hnodup : (observations.map Prod.fst).Nodup)
    (hregistered : ∀ entry ∈ observations, entry.1 ∈ targets.all)
    (hconcrete : ∀ target value, (target, value) ∈ observations → value.type.Concrete target.id) :
    Yields (Merger.inMerger (mergeType (observations.map fun entry => (entry.1, entry.2.type))))
      fun _ type => ∀ target value, (target, value) ∈ observations →
        Resembles target value.type type := by
  refine (Yields.inMerger _).imp fun _ type h target value hmem => ?_
  obtain ⟨s, s', h⟩ := h
  have hmerged := (mergeType_ok (concretes_types hnodup hregistered hconcrete) h).2 s' (.refl s')
  exact hmerged.resembles target value.type (List.mem_map.mpr ⟨(target, value), hmem, rfl⟩)

theorem Yields.addValues {ids : List TargetInfo} {lists : Observations TargetInfo (List Value)}
    (h : OnTargets ids lists) (hregistered : ∀ target ∈ ids, target ∈ targets.all)
    (hconcrete : ∀ target values, (target, values) ∈ lists →
      ∀ value ∈ values, value.type.Concrete target.id) {count : ℕ}
    (hlength : ∀ target values, (target, values) ∈ lists → values.length = count) :
    Yields (addValues ids lists count) fun history shareds => ∀ target values,
      (target, values) ∈ lists → shareds.map (history.own target) = values.map some := by
  refine (Yields.mapM (fun k => stable_standsFor (Merger.nth k lists)) fun k _ => ?_).imp
    fun _ _ hall _ _ => forall₂_standsFor hlength hall
  have hconcrete : ∀ target value, (target, value) ∈ Merger.nth k lists →
      value.type.Concrete target.id := fun target value hmem => by
    obtain ⟨values, hvalues, hvalue⟩ := mem_nth.mp hmem
    exact hconcrete target values hvalues value (List.mem_of_getElem? hvalue)
  exact Yields.bind (Yields.mergeType (h.nth k).nodup
    (fun entry hentry => hregistered _ ((h.nth k).subset entry hentry)) hconcrete)
    (fun _ _ _ _ => id) (fun type _ htype => Yields.addValue (h.nth k) hconcrete htype)
    fun _ _ _ _ hstands => hstands

/-! ## Attributes -/

/-- Shared attributes are those of a target once they are specialized for it, up to the
identities in them. -/
def AttributesRead (target : TargetInfo) (own shared : Attributes) : Prop :=
  ∀ name, Option.Rel (AttrResembles (numericName name) target) (own.get name) (shared.get name)

/-- The value of a name that each dictionary has. -/
theorem observed_ok {dictionaries : Observations TargetInfo Attributes} {name : String}
    {input : Observations TargetInfo Attr} (h : observed dictionaries name = .ok input) :
    List.Forall₂ (fun dictionary value => value.1 = dictionary.1 ∧
      dictionary.2.get name = some value.2) dictionaries input := by
  refine (mapM_ok.mp h).imp fun dictionary value hvalue => ?_
  split at hvalue
  · rename_i value' hget
    obtain rfl := Except.ok.inj hvalue
    exact ⟨rfl, hget⟩
  · simp [fail] at hvalue

/-- Each merged attribute is one the target has. -/
theorem attributes_fields {dictionaries : Observations TargetInfo Attributes} {omitted : List String}
    {m m' : Merger} {shared : Attributes} (hnodup : (dictionaries.map Prod.fst).Nodup)
    (hregistered : ∀ entry ∈ dictionaries, entry.1 ∈ targets.all)
    (hconcrete : ∀ target own, (target, own) ∈ dictionaries →
      ∀ field ∈ own, field.2.Concrete target (numericName field.1))
    (h : exec (attributes dictionaries omitted) m = (.ok shared, m')) {target : TargetInfo}
    {own : Attributes} (hmem : (target, own) ∈ dictionaries) :
    List.Forall₂ (fun field entry => field.1 = entry.1 ∧ ∃ value, own.get field.1 = some value ∧
      AttrResembles (numericName field.1) target value entry.2)
      (((dictionaries.head?.map Prod.snd).getD []).filter fun field => field.1 ∉ omitted) shared := by
  obtain ⟨_, -, h⟩ := exec_check_bind_ok.mp h
  refine (exec_mapM_ok (R := fun _ _ => True) (Q := fun field entry _ =>
      field.1 = entry.1 ∧ ∃ value, own.get field.1 = some value ∧
        AttrResembles (numericName field.1) target value entry.2)
    (fun _ => trivial) (fun _ _ _ _ _ => trivial) (fun field _ s entry t hentry => by
      refine ⟨trivial, fun _ _ => ?_⟩
      obtain ⟨input, hinput, hentry⟩ := exec_check_bind_ok.mp hentry
      obtain ⟨value, u, hvalue, hentry⟩ := exec_bind_ok.mp hentry
      obtain ⟨hentry', rfl⟩ := Prod.mk.inj hentry
      obtain rfl := Except.ok.inj hentry'
      have hall := observed_ok hinput
      obtain ⟨observation, hobservation, heq, hget⟩ := exists_of_forall₂_left hall hmem
      have htargets : input.map Prod.fst = dictionaries.map Prod.fst :=
        map_eq_of_forall₂ (hall.imp fun _ _ h => h.1)
      have hobserved : ConcreteAttrs (numericName field.1) input := by
        refine ⟨htargets ▸ hnodup, fun t v hv => ?_, fun t v hv => ?_⟩ <;>
          obtain ⟨⟨t', d⟩, hd, rfl, hdget⟩ := exists_of_forall₂_right hall hv
        · exact hregistered _ hd
        · exact hconcrete _ _ hd (field.1, v) (Attributes.mem_of_get hdget)
      obtain ⟨-, hmerged⟩ := mergeAttribute_ok (List.ne_nil_of_mem hobservation) hobserved hvalue
      refine ⟨rfl, _, hget, (hmerged u (.refl _)).resembles target _ ?_⟩
      rwa [← show observation.1 = target from heq])
    h).2 m' trivial

/-- Merged attributes are each target's own. -/
theorem attributes_read {dictionaries : Observations TargetInfo Attributes} {omitted : List String}
    {m m' : Merger} {shared : Attributes} (hnodup : (dictionaries.map Prod.fst).Nodup)
    (hregistered : ∀ entry ∈ dictionaries, entry.1 ∈ targets.all)
    (hconcrete : ∀ target own, (target, own) ∈ dictionaries →
      ∀ field ∈ own, field.2.Concrete target (numericName field.1))
    (h : exec (attributes dictionaries omitted) m = (.ok shared, m')) {target : TargetInfo}
    {own : Attributes} (hmem : (target, own) ∈ dictionaries) :
    (∀ name ∉ omitted, Option.Rel (AttrResembles (numericName name) target) (own.get name)
      (shared.get name)) ∧ ∀ name ∈ omitted, shared.get name = none := by
  have hfields := attributes_fields hnodup hregistered hconcrete h hmem
  obtain ⟨_, hnames, h⟩ := exec_check_bind_ok.mp h
  have hnames := expect_ok.mp hnames
  have hread : ∀ name value', (name, value') ∈ shared → name ∉ omitted ∧
      ∃ value, own.get name = some value ∧ AttrResembles (numericName name) target value value' := by
    intro name value' hvalue'
    obtain ⟨field, hfield, rfl, hvalue⟩ := exists_of_forall₂_right hfields hvalue'
    exact ⟨of_decide_eq_true (List.mem_filter.mp hfield).2, hvalue⟩
  refine ⟨fun name hname => ?_, fun name hname => ?_⟩
  · cases hshared : shared.get name with
    | some value' =>
      obtain ⟨-, value, hvalue, hresembles⟩ := hread name value' (Attributes.mem_of_get hshared)
      rw [hvalue]
      exact .some hresembles
    | none =>
      -- What a target has, the first one has, and what it has is merged.
      have hmissing : ∀ value, own.get name ≠ some value := by
        intro value hvalue
        obtain ⟨held, hheld⟩ := Option.isSome_iff_exists.mp
          (hnames _ hmem _ (Attributes.mem_of_get hvalue) hname)
        have hfield : (name, held) ∈ (dictionaries.head?.map Prod.snd).getD [] :=
          Attributes.mem_of_get hheld
        obtain ⟨entry, hentry, heq, -⟩ := exists_of_forall₂_left hfields
          (List.mem_filter.mpr ⟨hfield, by simpa using hname⟩)
        exact Attributes.get_eq_none_iff.mp hshared
          (List.mem_map.mpr ⟨entry, hentry, (heq : name = entry.1).symm⟩)
      rw [Option.eq_none_iff_forall_ne_some.mpr hmissing]
      exact .none
  · refine Option.eq_none_iff_forall_ne_some.mpr fun value' hvalue' => ?_
    exact (hread name value' (Attributes.mem_of_get hvalue')).1 hname

end Merger

end Sela
