import Sela.Domains
import Sela.LlvmType
import Sela.OrderMerge

/-!
# Merging overlapping storage of two targets

The alternatives of overlapping native storage carry the private names of their debug
evidence. Two native inputs are merged by these names: two cursors take a name that both
stand at, else one the other list does not hold any more. An alternative of the merge
belongs to the targets whose list holds its name.

The cursors search what the other list still holds; as a name is taken on both sides at
once, that is what the other list holds at all (`Cursors`), and the cursors compute the merge
of the two orders of names (`mergeFrom_ok`). The merge exists just when no two common names
come in opposite orders, and each target gets its own list back (`mergeNativeOverlap_exact`).
-/

namespace Sela

/-- An alternative of overlapping storage. -/
structure OverlapAlternative where
  privateName : String
  type : LlvmType

/-- Native overlapping storage. -/
structure NativeOverlap where
  alternatives : List OverlapAlternative

namespace OverlapEvidence

/-- Whether a name comes from a position on. -/
def appears (entries : List OverlapAlternative) (start : ℕ) (name : String) : Bool :=
  (entries.drop start).any fun entry => entry.privateName == name

section Cursors

variable (left right : List OverlapAlternative) (i j : ℕ)

/-- Whether both cursors stand at one name. -/
def common : Bool :=
  match left[i]?, right[j]? with
  | some a, some b => a.privateName == b.privateName
  | _, _ => false

/-- Whether the left cursor stands at a name the right list does not hold from its cursor on. -/
def onlyLeft : Bool :=
  match left[i]? with
  | some a => !appears right j a.privateName
  | none => false

/-- Whether the right cursor stands at a name the left list does not hold from its cursor on. -/
def onlyRight : Bool :=
  match right[j]? with
  | some b => !appears left i b.privateName
  | none => false

/-- The type of the alternative the cursors take. -/
def mergedType (mergeType : LlvmType → LlvmType → Option SelaType) : Option SelaType :=
  if common left right i j then do
    let a ← left[i]?
    let b ← right[j]?
    mergeType a.type b.type
  else if onlyLeft left right i j then do
    let a ← left[i]?
    mergeType a.type a.type
  else do
    let b ← right[j]?
    mergeType b.type b.type

/-- The targets of the alternative the cursors take. -/
def ids (leftTarget rightTarget : String) : List String :=
  let ids := if common left right i j || onlyLeft left right i j then [leftTarget] else []
  if (common left right i j || !onlyLeft left right i j) && !ids.contains rightTarget then
    ids ++ [rightTarget]
  else ids

def nextLeft : ℕ := if common left right i j || onlyLeft left right i j then i + 1 else i

def nextRight : ℕ := if common left right i j || !onlyLeft left right i j then j + 1 else j

end Cursors

section Progress

variable {left right : List OverlapAlternative} {i j : ℕ}

theorem common_eq : common left right i j = true ↔ ∃ a b, left[i]? = some a ∧
    right[j]? = some b ∧ a.privateName = b.privateName := by
  unfold common
  split <;> simp_all

theorem onlyLeft_eq : onlyLeft left right i j = true ↔ ∃ a, left[i]? = some a ∧
    appears right j a.privateName = false := by
  unfold onlyLeft
  split <;> simp_all

theorem onlyRight_eq : onlyRight left right i j = true ↔ ∃ b, right[j]? = some b ∧
    appears left i b.privateName = false := by
  unfold onlyRight
  split <;> simp_all

/-- A step that is not refused takes an alternative of one of the lists. -/
theorem progress (h : ¬(!common left right i j && !onlyLeft left right i j &&
      !onlyRight left right i j) = true) :
    (left.length - nextLeft left right i j) + (right.length - nextRight left right i j) <
      (left.length - i) + (right.length - j) := by
  unfold nextLeft nextRight
  cases hcommon : common left right i j with
  | true =>
    obtain ⟨a, b, ha, hb, -⟩ := common_eq.mp hcommon
    have hi := (List.getElem?_eq_some_iff.mp ha).1
    have hj := (List.getElem?_eq_some_iff.mp hb).1
    simp only [Bool.true_or, if_true]
    omega
  | false =>
    cases hleft : onlyLeft left right i j with
    | true =>
      obtain ⟨a, ha, -⟩ := onlyLeft_eq.mp hleft
      have hi := (List.getElem?_eq_some_iff.mp ha).1
      simp
      omega
    | false =>
      obtain ⟨b, hb, -⟩ := onlyRight_eq.mp (by simpa [hcommon, hleft] using h)
      have hj := (List.getElem?_eq_some_iff.mp hb).1
      simp
      omega

end Progress

section Merge

variable (left right : List OverlapAlternative) (leftTarget rightTarget : String)
  (mergeType : LlvmType → LlvmType → Option SelaType)

/-- The merge of the alternatives from the cursors on, after those already taken. -/
def mergeFrom (i j : ℕ) (alternatives : List SelaType) (domains : List Attr) :
    Checked (List SelaType × List Attr) :=
  if i < left.length ∨ j < right.length then
    if _ : !common left right i j && !onlyLeft left right i j && !onlyRight left right i j then
      .error "overlap alternatives have conflicting semantic order"
    else
      match mergedType left right i j mergeType with
      | none => .error "unsupported overlap alternative type correspondence"
      | some type =>
        mergeFrom (nextLeft left right i j) (nextRight left right i j) (alternatives ++ [type])
          (domains ++ [targetSet (ids left right i j leftTarget rightTarget)])
  else .ok (alternatives, domains)
termination_by (left.length - i) + (right.length - j)
decreasing_by exact progress ‹_›

end Merge

/-- The overlapping storage of two native inputs as one type. -/
def mergeNativeOverlap (left right : NativeOverlap) (identity leftTarget rightTarget : String)
    (mergeType : LlvmType → LlvmType → Option SelaType) : Checked SelaType := do
  let merged ← mergeFrom left.alternatives right.alternatives leftTarget rightTarget mergeType
    0 0 [] []
  pure (.overlap identity merged.1 merged.2)

/-! ## What the merge is by names -/

def names (entries : List OverlapAlternative) : List String :=
  entries.map OverlapAlternative.privateName

section Names

variable (left right : List OverlapAlternative)

/-- The lists that hold a name. -/
def nameDomain (name : String) : Domain :=
  if name ∈ names left then
    if name ∈ names right then .both else .left
  else .right

/-- The alternative of a name. -/
def find (entries : List OverlapAlternative) (name : String) : Option OverlapAlternative :=
  entries.find? fun entry => entry.privateName == name

/-- The merged type of a name. -/
def typeOf (mergeType : LlvmType → LlvmType → Option SelaType) (name : String) :
    Option SelaType :=
  match find left name, find right name with
  | some a, some b => mergeType a.type b.type
  | some a, none => mergeType a.type a.type
  | none, some b => mergeType b.type b.type
  | none, none => none

/-- The targets whose list holds a name. -/
def targetsOf (leftTarget rightTarget name : String) : List String :=
  (if name ∈ names left then [leftTarget] else []) ++
    if name ∈ names right then [rightTarget] else []

/-- The cursors have taken nothing on one side that the other still holds. -/
structure Cursors (i j : ℕ) : Prop where
  fromLeft : ∀ name ∈ (names right).take j, name ∉ (names left).drop i
  fromRight : ∀ name ∈ (names left).take i, name ∉ (names right).drop j

/-- The cursors take a name : it comes next in the merge of the two orders. -/
structure Takes (leftTarget rightTarget : String)
    (mergeType : LlvmType → LlvmType → Option SelaType) (i j : ℕ) (name : String) : Prop where
  order : OrderMerge.mergeOrder (nameDomain left right) ((names left).drop i)
      ((names right).drop j) =
    (name :: ·) <$> OrderMerge.mergeOrder (nameDomain left right)
      ((names left).drop (nextLeft left right i j)) ((names right).drop (nextRight left right i j))
  type : mergedType left right i j mergeType = typeOf left right mergeType name
  ids : ids left right i j leftTarget rightTarget = targetsOf left right leftTarget rightTarget name
  cursors : Cursors left right (nextLeft left right i j) (nextRight left right i j)

end Names

section Lookups

variable {entries : List OverlapAlternative} {i : ℕ} {a : OverlapAlternative}

theorem drop_names (h : entries[i]? = some a) :
    (names entries).drop i = a.privateName :: (names entries).drop (i + 1) := by
  obtain ⟨hi, rfl⟩ := List.getElem?_eq_some_iff.mp h
  rw [names, List.drop_eq_getElem_cons (by simpa using hi), List.getElem_map]

theorem take_names (h : entries[i]? = some a) :
    (names entries).take (i + 1) = (names entries).take i ++ [a.privateName] := by
  obtain ⟨hi, rfl⟩ := List.getElem?_eq_some_iff.mp h
  rw [names, List.take_add_one, List.getElem?_eq_getElem (by simpa using hi), List.getElem_map]
  rfl

theorem mem_names (h : entries[i]? = some a) : a.privateName ∈ names entries :=
  List.mem_map_of_mem (List.mem_of_getElem? h)

theorem appears_iff {start : ℕ} {name : String} :
    appears entries start name = true ↔ name ∈ (names entries).drop start := by
  simp [appears, names, ← List.map_drop]

/-- A name that is not taken yet is still held when it is held at all. -/
theorem appears_iff_mem {start : ℕ} {name : String} (h : name ∉ (names entries).take start) :
    appears entries start name = true ↔ name ∈ names entries := by
  rw [appears_iff]
  conv_rhs => rw [← List.take_append_drop start (names entries), List.mem_append]
  simp [h]

theorem find_of_mem (hentries : (names entries).Nodup) (ha : a ∈ entries) :
    find entries a.privateName = some a := by
  induction entries with
  | nil => simp at ha
  | cons entry entries ih =>
    obtain ⟨hentry, hentries⟩ := List.nodup_cons.mp hentries
    rcases List.mem_cons.mp ha with rfl | ha
    · simp [find]
    · have hne : entry.privateName ≠ a.privateName := by
        intro heq
        exact hentry (heq ▸ List.mem_map_of_mem ha)
      rw [find, List.find?_cons_of_neg (by simpa using hne)]
      exact ih hentries ha

theorem find_of_not_mem {name : String} (h : name ∉ names entries) : find entries name = none := by
  rw [find, List.find?_eq_none]
  intro entry hentry hname
  exact h (List.mem_map.mpr ⟨entry, hentry, by simpa using hname⟩)

end Lookups

section Steps

variable {left right : List OverlapAlternative} {leftTarget rightTarget : String}
  {mergeType : LlvmType → LlvmType → Option SelaType} {i j : ℕ} {a b : OverlapAlternative}

/-- The head of a list without repetitions is no more to come. -/
theorem head_not_mem_drop {entries : List OverlapAlternative} (hentries : (names entries).Nodup)
    (h : entries[i]? = some a) : a.privateName ∉ (names entries).drop (i + 1) := by
  have hdrop : ((names entries).drop i).Nodup := hentries.sublist (List.drop_sublist i _)
  rw [drop_names h] at hdrop
  exact (List.nodup_cons.mp hdrop).1

theorem head_left (h : onlyLeft left right i j = false) :
    ∀ name ∈ ((names left).drop i).head?, nameDomain left right name ≠ .left := by
  intro name hname hown
  rw [List.head?_drop, names, List.getElem?_map] at hname
  obtain ⟨a, ha, rfl⟩ := Option.map_eq_some_iff.mp hname
  have haright : a.privateName ∉ names right := by
    simpa [nameDomain, mem_names ha] using hown
  have happears : appears right j a.privateName = false := by
    rw [Bool.eq_false_iff, Ne, appears_iff]
    exact fun hdrop => haright (List.mem_of_mem_drop hdrop)
  exact absurd (onlyLeft_eq.mpr ⟨a, ha, happears⟩) (by simp [h])

theorem head_right (h : onlyRight left right i j = false) :
    ∀ name ∈ ((names right).drop j).head?, nameDomain left right name ≠ .right := by
  intro name hname hown
  rw [List.head?_drop, names, List.getElem?_map] at hname
  obtain ⟨b, hb, rfl⟩ := Option.map_eq_some_iff.mp hname
  have hbleft : b.privateName ∉ names left := by
    intro hbleft
    simp [nameDomain, hbleft, mem_names hb] at hown
  have happears : appears left i b.privateName = false := by
    rw [Bool.eq_false_iff, Ne, appears_iff]
    exact fun hdrop => hbleft (List.mem_of_mem_drop hdrop)
  exact absurd (onlyRight_eq.mpr ⟨b, hb, happears⟩) (by simp [h])

/-- Where the cursors cannot go on, the orders of the names conflict. -/
theorem mergeOrder_conflict (hmore : i < left.length ∨ j < right.length)
    (h : (!common left right i j && !onlyLeft left right i j && !onlyRight left right i j) = true) :
    OrderMerge.mergeOrder (nameDomain left right) ((names left).drop i) ((names right).drop j) =
      none := by
  simp only [Bool.and_eq_true, Bool.not_eq_true'] at h
  obtain ⟨⟨hcommon, hleft⟩, hright⟩ := h
  refine OrderMerge.mergeOrder_none (head_left hleft) (head_right hright) ?_ ?_
  · simp only [ne_eq, List.drop_eq_nil_iff, names, List.length_map]
    omega
  · intro name hname hname'
    rw [List.head?_drop, names, List.getElem?_map] at hname hname'
    obtain ⟨a, ha, rfl⟩ := Option.map_eq_some_iff.mp hname
    obtain ⟨b, hb, hab⟩ := Option.map_eq_some_iff.mp hname'
    exact absurd (common_eq.mpr ⟨a, b, ha, hb, hab.symm⟩) (by simp [hcommon])

theorem Cursors.takes_common (h : Cursors left right i j) (hleft : (names left).Nodup)
    (hright : (names right).Nodup) (htargets : leftTarget ≠ rightTarget)
    (ha : left[i]? = some a) (hb : right[j]? = some b) (hab : a.privateName = b.privateName) :
    Takes left right leftTarget rightTarget mergeType i j a.privateName := by
  have hcommon : common left right i j = true := common_eq.mpr ⟨a, b, ha, hb, hab⟩
  have haleft : a.privateName ∈ names left := mem_names ha
  have haright : a.privateName ∈ names right := hab ▸ mem_names hb
  have hnextLeft : nextLeft left right i j = i + 1 := by simp [nextLeft, hcommon]
  have hnextRight : nextRight left right i j = j + 1 := by simp [nextRight, hcommon]
  have hdomain : nameDomain left right a.privateName = .both := by
    simp [nameDomain, haleft, haright]
  refine ⟨?_, ?_, ?_, ?_⟩
  · rw [hnextLeft, hnextRight, drop_names ha, drop_names hb, ← hab, OrderMerge.mergeOrder,
      if_neg (by simp [hdomain]), if_neg (by simp [hdomain]), if_pos rfl]
  · rw [mergedType, if_pos hcommon, typeOf, find_of_mem hleft (List.mem_of_getElem? ha), hab,
      find_of_mem hright (List.mem_of_getElem? hb), ha, hb]
    rfl
  · simp [ids, hcommon, targetsOf, haleft, haright, htargets.symm]
  · rw [hnextLeft, hnextRight]
    constructor
    · intro name hname hdrop
      rw [take_names hb, List.mem_append] at hname
      rcases hname with hname | hname
      · exact h.fromLeft name hname (by rw [drop_names ha]; exact .tail _ hdrop)
      · obtain rfl : name = b.privateName := by simpa using hname
        exact head_not_mem_drop hleft ha (hab ▸ hdrop)
    · intro name hname hdrop
      rw [take_names ha, List.mem_append] at hname
      rcases hname with hname | hname
      · exact h.fromRight name hname (by rw [drop_names hb]; exact .tail _ hdrop)
      · obtain rfl : name = a.privateName := by simpa using hname
        exact head_not_mem_drop hright hb (hab ▸ hdrop)

theorem Cursors.takes_left (h : Cursors left right i j) (hleft : (names left).Nodup)
    (hcommon : common left right i j = false) (ha : left[i]? = some a)
    (hright : appears right j a.privateName = false) :
    Takes left right leftTarget rightTarget mergeType i j a.privateName := by
  have honly : onlyLeft left right i j = true := onlyLeft_eq.mpr ⟨a, ha, hright⟩
  have haleft : a.privateName ∈ names left := mem_names ha
  have haright : a.privateName ∉ names right := by
    rw [← @appears_iff_mem _ j]
    · simp [hright]
    · intro htaken
      exact h.fromLeft _ htaken (by rw [drop_names ha]; exact .head _)
  have hnextLeft : nextLeft left right i j = i + 1 := by simp [nextLeft, honly]
  have hnextRight : nextRight left right i j = j := by simp [nextRight, honly, hcommon]
  refine ⟨?_, ?_, ?_, ?_⟩
  · rw [hnextLeft, hnextRight, drop_names ha, OrderMerge.mergeOrder_left]
    simp [nameDomain, haleft, haright]
  · rw [mergedType, if_neg (by simp [hcommon]), if_pos honly, typeOf,
      find_of_mem hleft (List.mem_of_getElem? ha), find_of_not_mem haright, ha]
    rfl
  · simp [ids, hcommon, honly, targetsOf, haleft, haright]
  · rw [hnextLeft, hnextRight]
    constructor
    · intro name hname hdrop
      exact h.fromLeft name hname (by rw [drop_names ha]; exact .tail _ hdrop)
    · intro name hname hdrop
      rw [take_names ha, List.mem_append] at hname
      rcases hname with hname | hname
      · exact h.fromRight name hname hdrop
      · obtain rfl : name = a.privateName := by simpa using hname
        exact haright (List.mem_of_mem_drop hdrop)

theorem Cursors.takes_right (h : Cursors left right i j) (hright : (names right).Nodup)
    (hcommon : common left right i j = false) (honly : onlyLeft left right i j = false)
    (hb : right[j]? = some b) (hleft : appears left i b.privateName = false) :
    Takes left right leftTarget rightTarget mergeType i j b.privateName := by
  have hbright : b.privateName ∈ names right := mem_names hb
  have hbleft : b.privateName ∉ names left := by
    rw [← @appears_iff_mem _ i]
    · simp [hleft]
    · intro htaken
      exact h.fromRight _ htaken (by rw [drop_names hb]; exact .head _)
  have hnextLeft : nextLeft left right i j = i := by simp [nextLeft, honly, hcommon]
  have hnextRight : nextRight left right i j = j + 1 := by simp [nextRight, honly]
  refine ⟨?_, ?_, ?_, ?_⟩
  · rw [hnextLeft, hnextRight, drop_names hb, OrderMerge.mergeOrder_right]
    · exact head_left honly
    · simp [nameDomain, hbleft]
  · rw [mergedType, if_neg (by simp [hcommon]), if_neg (by simp [honly]), typeOf,
      find_of_not_mem hbleft, find_of_mem hright (List.mem_of_getElem? hb), hb]
    rfl
  · simp [ids, hcommon, honly, targetsOf, hbleft, hbright]
  · rw [hnextLeft, hnextRight]
    constructor
    · intro name hname hdrop
      rw [take_names hb, List.mem_append] at hname
      rcases hname with hname | hname
      · exact h.fromLeft name hname hdrop
      · obtain rfl : name = b.privateName := by simpa using hname
        exact hbleft (List.mem_of_mem_drop hdrop)
    · intro name hname hdrop
      exact h.fromRight name hname (by rw [drop_names hb]; exact .tail _ hdrop)

/-- The cursors go on by taking one name. -/
theorem Cursors.takes (h : Cursors left right i j) (hleft : (names left).Nodup)
    (hright : (names right).Nodup) (htargets : leftTarget ≠ rightTarget)
    (hgo : ¬(!common left right i j && !onlyLeft left right i j && !onlyRight left right i j) =
      true) :
    ∃ name, Takes left right leftTarget rightTarget mergeType i j name := by
  cases hcommon : common left right i j with
  | true =>
    obtain ⟨a, b, ha, hb, hab⟩ := common_eq.mp hcommon
    exact ⟨_, h.takes_common hleft hright htargets ha hb hab⟩
  | false =>
    cases honly : onlyLeft left right i j with
    | true =>
      obtain ⟨a, ha, happears⟩ := onlyLeft_eq.mp honly
      exact ⟨_, h.takes_left hleft hcommon ha happears⟩
    | false =>
      obtain ⟨b, hb, happears⟩ := onlyRight_eq.mp (by simpa [hcommon, honly] using hgo)
      exact ⟨_, h.takes_right hright hcommon honly hb happears⟩

/-- The cursors merge what is left of the two orders of names. -/
theorem mergeFrom_ok (hleft : (names left).Nodup) (hright : (names right).Nodup)
    (htargets : leftTarget ≠ rightTarget) (i j : ℕ) (alternatives : List SelaType)
    (domains : List Attr) (h : Cursors left right i j) (merged : List SelaType × List Attr) :
    mergeFrom left right leftTarget rightTarget mergeType i j alternatives domains = .ok merged ↔
      ∃ order types, OrderMerge.mergeOrder (nameDomain left right) ((names left).drop i)
          ((names right).drop j) = some order ∧
        order.mapM (typeOf left right mergeType) = some types ∧
        merged = (alternatives ++ types, domains ++ order.map fun name =>
          targetSet (targetsOf left right leftTarget rightTarget name)) := by
  induction i, j, alternatives, domains using
    mergeFrom.induct left right leftTarget rightTarget mergeType with
  | case1 i j alternatives domains hmore hconflict =>
    rw [mergeFrom, if_pos hmore, dif_pos hconflict, mergeOrder_conflict hmore hconflict]
    simp
  | case2 i j alternatives domains hmore hgo htype =>
    obtain ⟨name, hname : Takes left right leftTarget rightTarget mergeType i j name⟩ :=
      h.takes hleft hright htargets hgo
    rw [mergeFrom, if_pos hmore, dif_neg hgo, htype, hname.order]
    rw [hname.type] at htype
    constructor
    · intro hmerged
      simp at hmerged
    · rintro ⟨order, types, horder, htypes, -⟩
      obtain ⟨rest, -, rfl⟩ := Option.map_eq_some_iff.mp horder
      simp [List.mapM_cons, htype] at htypes
  | case3 i j alternatives domains hmore hgo type htype ih =>
    obtain ⟨name, hname : Takes left right leftTarget rightTarget mergeType i j name⟩ :=
      h.takes hleft hright htargets hgo
    rw [mergeFrom, if_pos hmore, dif_neg hgo, htype, hname.order]
    rw [hname.type] at htype
    refine (ih hname.cursors).trans ?_
    rw [hname.ids]
    constructor
    · rintro ⟨order, types, horder, htypes, rfl⟩
      refine ⟨name :: order, type :: types, by simp [horder], ?_, by simp⟩
      simp [List.mapM_cons, htype, htypes]
    · rintro ⟨order, types, horder, htypes, rfl⟩
      obtain ⟨rest, hrest, rfl⟩ := Option.map_eq_some_iff.mp horder
      obtain ⟨types', htypes', rfl⟩ : ∃ types', rest.mapM (typeOf left right mergeType) =
          some types' ∧ type :: types' = types := by
        simpa [List.mapM_cons, htype, Option.bind_eq_some_iff] using htypes
      exact ⟨rest, types', hrest, htypes', by simp⟩
  | case4 i j alternatives domains hmore =>
    rw [mergeFrom, if_neg hmore, List.drop_eq_nil_of_le (by simp [names]; omega),
      List.drop_eq_nil_of_le (by simp [names]; omega)]
    simp [OrderMerge.mergeOrder, eq_comm]

end Steps

/-! ## When there is a merge -/

section Union

variable (left right : NativeOverlap) (leftTarget rightTarget : String)
  (mergeType : LlvmType → LlvmType → Option SelaType)

/-- No two common names come in opposite orders. -/
def Agree : Prop :=
  ∀ x y, [x, y].Sublist (names left.alternatives) → ¬[y, x].Sublist (names right.alternatives)

/-- The types that a merge of the names asks for exist. -/
def Mergeable : Prop :=
  ∀ name, name ∈ names left.alternatives ∨ name ∈ names right.alternatives →
    (typeOf left.alternatives right.alternatives mergeType name).isSome = true

/-- A merge holds every name once, with its merged type and the targets that have it, and each
target has its own list, in order. -/
structure Union (alternatives : List SelaType) (domains : List Attr) (order : List String) :
    Prop where
  nodup : order.Nodup
  mem : ∀ name, name ∈ order ↔ name ∈ names left.alternatives ∨ name ∈ names right.alternatives
  typed : alternatives.map some =
    order.map (typeOf left.alternatives right.alternatives mergeType)
  targeted : domains = order.map fun name =>
    targetSet (targetsOf left.alternatives right.alternatives leftTarget rightTarget name)
  leftOrder : ((order.zip domains).filter (containsTarget ·.2 leftTarget)).map Prod.fst =
    names left.alternatives
  rightOrder : ((order.zip domains).filter (containsTarget ·.2 rightTarget)).map Prod.fst =
    names right.alternatives
  leftTypes : ((alternatives.zip domains).filter (containsTarget ·.2 leftTarget)).map
      (fun entry => some entry.1) =
    (names left.alternatives).map (typeOf left.alternatives right.alternatives mergeType)
  rightTypes : ((alternatives.zip domains).filter (containsTarget ·.2 rightTarget)).map
      (fun entry => some entry.1) =
    (names right.alternatives).map (typeOf left.alternatives right.alternatives mergeType)

end Union

section Exact

variable {left right : NativeOverlap} {leftTarget rightTarget : String}
  {mergeType : LlvmType → LlvmType → Option SelaType}

theorem nameDomain_includes_left (left right : List OverlapAlternative) :
    ∀ name ∈ names left, (nameDomain left right name).includes .left = true := by
  intro name hname
  rw [nameDomain, if_pos hname]
  split <;> rfl

theorem nameDomain_includes_right (left right : List OverlapAlternative) :
    ∀ name ∈ names right, (nameDomain left right name).includes .right = true := by
  intro name hname
  by_cases hleft : name ∈ names left
  · rw [nameDomain, if_pos hleft, if_pos hname]
    rfl
  · rw [nameDomain, if_neg hleft]
    rfl

theorem includes_left_eq {left right : List OverlapAlternative} {name : String} :
    (nameDomain left right name).includes .left = decide (name ∈ names left) := by
  by_cases hleft : name ∈ names left
  · simp [nameDomain_includes_left left right name hleft, hleft]
  · simp [nameDomain, hleft, Domain.includes]

theorem includes_right_eq {left right : List OverlapAlternative} {name : String}
    (hname : name ∈ names left ∨ name ∈ names right) :
    (nameDomain left right name).includes .right = decide (name ∈ names right) := by
  by_cases hright : name ∈ names right
  · simp [nameDomain_includes_right left right name hright, hright]
  · simp [nameDomain, hname.resolve_right hright, hright, Domain.includes]

/-- The names have a merged order just when they agree. -/
theorem mergeOrder_isSome_iff_agree (hleft : (names left.alternatives).Nodup)
    (hright : (names right.alternatives).Nodup) :
    (OrderMerge.mergeOrder (nameDomain left.alternatives right.alternatives)
        (names left.alternatives) (names right.alternatives)).isSome = true ↔
      Agree left right := by
  rw [OrderMerge.mergeOrder_isSome_iff _ _ _ (nameDomain_includes_left _ _)
    (nameDomain_includes_right _ _), Agree, ← OrderMerge.filter_mem_eq_iff hleft hright]
  have hleftShared : (names left.alternatives).filter
        (OrderMerge.shared (nameDomain left.alternatives right.alternatives)) =
      (names left.alternatives).filter (· ∈ names right.alternatives) := by
    refine List.filter_congr fun name hname => ?_
    by_cases hother : name ∈ names right.alternatives <;>
      simp [OrderMerge.shared, nameDomain, hname, hother]
  have hrightShared : (names right.alternatives).filter
        (OrderMerge.shared (nameDomain left.alternatives right.alternatives)) =
      (names right.alternatives).filter (· ∈ names left.alternatives) := by
    refine List.filter_congr fun name hname => ?_
    by_cases hother : name ∈ names left.alternatives <;>
      simp [OrderMerge.shared, nameDomain, hname, hother]
  rw [hleftShared, hrightShared]

/-- A name of the merge belongs to the left target when the left list holds it. -/
theorem containsTarget_left (htargets : leftTarget ≠ rightTarget)
    (left right : List OverlapAlternative) (name : String) :
    containsTarget (targetSet (targetsOf left right leftTarget rightTarget name)) leftTarget =
      decide (name ∈ names left) := by
  rw [Bool.eq_iff_iff, containsTarget_targetSet, targetsOf]
  by_cases hleft : name ∈ names left <;> by_cases hright : name ∈ names right <;>
    simp [hleft, hright, htargets]

theorem containsTarget_right (htargets : leftTarget ≠ rightTarget)
    (left right : List OverlapAlternative) (name : String) :
    containsTarget (targetSet (targetsOf left right leftTarget rightTarget name)) rightTarget =
      decide (name ∈ names right) := by
  rw [Bool.eq_iff_iff, containsTarget_targetSet, targetsOf]
  by_cases hleft : name ∈ names left <;> by_cases hright : name ∈ names right <;>
    simp [hleft, hright, htargets.symm]

/-- The entries of a target, by their names. -/
theorem filter_zip_map {α β γ : Type} (f : α → β) (g : α → γ) (p : γ → Bool) (xs : List α) :
    (((xs.map f).zip (xs.map g)).filter fun entry => p entry.2).map Prod.fst =
      (xs.filter fun x => p (g x)).map f := by
  rw [List.zip_map', List.filter_map, List.map_map]
  rfl

theorem map_some_filter_zip {α γ : Type} (p : γ → Bool) (xs : List α) (ys : List γ) :
    ((xs.zip ys).filter fun entry => p entry.2).map (fun entry => some entry.1) =
      (((xs.map some).zip ys).filter fun entry => p entry.2).map Prod.fst := by
  rw [List.zip_map_left, List.filter_map, List.map_map]
  rfl

/-- A merged order of the names, with the merged types, is a union of the two lists. -/
theorem union_of_order (hleft : (names left.alternatives).Nodup)
    (hright : (names right.alternatives).Nodup) (htargets : leftTarget ≠ rightTarget)
    {order : List String} {types : List SelaType}
    (horder : OrderMerge.mergeOrder (nameDomain left.alternatives right.alternatives)
      (names left.alternatives) (names right.alternatives) = some order)
    (htypes : order.mapM (typeOf left.alternatives right.alternatives mergeType) = some types) :
    Union left right leftTarget rightTarget mergeType types
      (order.map fun name =>
        targetSet (targetsOf left.alternatives right.alternatives leftTarget rightTarget name))
      order := by
  have hincludesLeft := nameDomain_includes_left left.alternatives right.alternatives
  have hincludesRight := nameDomain_includes_right left.alternatives right.alternatives
  have hmem : ∀ name, name ∈ order ↔
      name ∈ names left.alternatives ∨ name ∈ names right.alternatives := fun _ =>
    OrderMerge.mem_of_mergeOrder _ _ _ _ horder hincludesLeft hincludesRight
  have hfilter := OrderMerge.mergeOrder_filter _ _ _ _ horder hincludesLeft hincludesRight
  have htyped : types.map some =
      order.map (typeOf left.alternatives right.alternatives mergeType) :=
    Checked.map_eq_of_forall₂ ((Checked.mapM_some.mp htypes).imp fun _ _ h => h.symm)
  have hleftOrder : order.filter (· ∈ names left.alternatives) = names left.alternatives := by
    refine Eq.trans (List.filter_congr fun name hname => ?_) (hfilter .left)
    exact includes_left_eq.symm
  have hrightOrder : order.filter (· ∈ names right.alternatives) = names right.alternatives := by
    refine Eq.trans (List.filter_congr fun name hname => ?_) (hfilter .right)
    exact (includes_right_eq ((hmem name).mp hname)).symm
  refine ⟨OrderMerge.nodup_of_mergeOrder _ _ _ _ horder hincludesLeft hincludesRight hleft hright,
    hmem, htyped, rfl, ?_, ?_, ?_, ?_⟩
  · have hentries := filter_zip_map id (fun name => targetSet (targetsOf left.alternatives
      right.alternatives leftTarget rightTarget name)) (containsTarget · leftTarget) order
    simp only [containsTarget_left htargets, hleftOrder, List.map_id] at hentries
    exact hentries
  · have hentries := filter_zip_map id (fun name => targetSet (targetsOf left.alternatives
      right.alternatives leftTarget rightTarget name)) (containsTarget · rightTarget) order
    simp only [containsTarget_right htargets, hrightOrder, List.map_id] at hentries
    exact hentries
  · rw [map_some_filter_zip (containsTarget · leftTarget), htyped,
      filter_zip_map _ _ (containsTarget · leftTarget)]
    simp only [containsTarget_left htargets, hleftOrder]
  · rw [map_some_filter_zip (containsTarget · rightTarget), htyped,
      filter_zip_map _ _ (containsTarget · rightTarget)]
    simp only [containsTarget_right htargets, hrightOrder]

/-- A merge is the merged order of the names with their merged types. -/
theorem mergeNativeOverlap_ok (identity : String)
    (mergeType : LlvmType → LlvmType → Option SelaType)
    (hleft : (names left.alternatives).Nodup) (hright : (names right.alternatives).Nodup)
    (htargets : leftTarget ≠ rightTarget) (merged : SelaType) :
    mergeNativeOverlap left right identity leftTarget rightTarget mergeType = .ok merged ↔
      ∃ order types,
        OrderMerge.mergeOrder (nameDomain left.alternatives right.alternatives)
          (names left.alternatives) (names right.alternatives) = some order ∧
        order.mapM (typeOf left.alternatives right.alternatives mergeType) = some types ∧
        merged = .overlap identity types (order.map fun name =>
          targetSet (targetsOf left.alternatives right.alternatives leftTarget rightTarget
            name)) := by
  have hstart : Cursors left.alternatives right.alternatives 0 0 := ⟨by simp, by simp⟩
  rw [mergeNativeOverlap, Checked.bind_ok]
  simp only [mergeFrom_ok hleft hright htargets 0 0 [] [] hstart, List.drop_zero]
  constructor
  · rintro ⟨_, ⟨order, types, horder, htypes, rfl⟩, hmerged⟩
    exact ⟨order, types, horder, htypes, (Except.ok.inj hmerged).symm⟩
  · rintro ⟨order, types, horder, htypes, rfl⟩
    exact ⟨_, ⟨order, types, horder, htypes, rfl⟩, rfl⟩

end Exact

end OverlapEvidence

open OverlapEvidence

/-- The overlapping storage of two native inputs has a merge exactly when no two common names
come in opposite orders and every pair of types has a merged type; the merge is the union of
the two lists, and each target gets its own list back. -/
theorem mergeNativeOverlap_exact (left right : NativeOverlap)
    (identity leftTarget rightTarget : String)
    (mergeType : LlvmType → LlvmType → Option SelaType)
    (hleft : (names left.alternatives).Nodup) (hright : (names right.alternatives).Nodup)
    (htargets : leftTarget ≠ rightTarget) :
    ((∃ merged, mergeNativeOverlap left right identity leftTarget rightTarget mergeType =
        .ok merged) ↔ Agree left right ∧ Mergeable left right mergeType) ∧
      ∀ merged, mergeNativeOverlap left right identity leftTarget rightTarget mergeType =
          .ok merged → ∃ alternatives domains order,
        merged = .overlap identity alternatives domains ∧
          Union left right leftTarget rightTarget mergeType alternatives domains order := by
  have hmerge := mergeNativeOverlap_ok identity mergeType hleft hright htargets
  constructor
  · rw [← mergeOrder_isSome_iff_agree hleft hright, Option.isSome_iff_exists]
    constructor
    · rintro ⟨merged, hmerged⟩
      obtain ⟨order, types, horder, htypes, -⟩ := (hmerge merged).mp hmerged
      refine ⟨⟨order, horder⟩, ?_⟩
      intro name hname
      have hmem := ((union_of_order hleft hright htargets horder htypes).mem name).mpr hname
      obtain ⟨type, -, htype⟩ :=
        Checked.exists_of_forall₂_left (Checked.mapM_some.mp htypes) hmem
      simp [htype]
    · rintro ⟨⟨order, horder⟩, hmergeable⟩
      have hmem := fun name => OrderMerge.mem_of_mergeOrder _ _ _ _ horder
        (nameDomain_includes_left _ _) (nameDomain_includes_right _ _) (x := name)
      obtain ⟨types, htypes⟩ := Checked.exists_mapM_some fun name hname =>
        Option.isSome_iff_exists.mp (hmergeable name ((hmem name).mp hname))
      exact ⟨_, (hmerge _).mpr ⟨order, types, horder, htypes, rfl⟩⟩
  · intro merged hmerged
    obtain ⟨order, types, horder, htypes, rfl⟩ := (hmerge merged).mp hmerged
    exact ⟨types, _, order, rfl, union_of_order hleft hright htargets horder htypes⟩

/-- An integer type of one width on both sides. -/
def integerType : LlvmType → LlvmType → Option SelaType
  | .scalar (.integer width), .scalar (.integer width') =>
    if width = width' then some (.integer width) else none
  | _, _ => none

/-- A 32-bit integer stands first on one target and last on the other. -/
theorem mergeNativeOverlap_exact_integer :
    let left : NativeOverlap :=
      ⟨[⟨"word", .scalar (.integer 32)⟩, ⟨"wide", .scalar (.integer 64)⟩]⟩
    let right : NativeOverlap :=
      ⟨[⟨"half", .scalar (.integer 16)⟩, ⟨"word", .scalar (.integer 32)⟩]⟩
    ((∃ merged, mergeNativeOverlap left right "r0" "x86_64" "i686" integerType = .ok merged) ↔
        Agree left right ∧ Mergeable left right integerType) ∧
      ∀ merged, mergeNativeOverlap left right "r0" "x86_64" "i686" integerType = .ok merged →
        ∃ alternatives domains order, merged = .overlap "r0" alternatives domains ∧
          Union left right "x86_64" "i686" integerType alternatives domains order := by
  intro left right
  exact mergeNativeOverlap_exact left right "r0" "x86_64" "i686" integerType (by decide)
    (by decide) (by decide)

/-- What the left target makes of the merge is its own list, each alternative by its merged
type. -/
theorem specializeType_mergeNativeOverlap {left right : NativeOverlap} {target : TargetInfo}
    {identity rightTarget : String} {mergeType : LlvmType → LlvmType → Option SelaType}
    (hleft : (names left.alternatives).Nodup) (hright : (names right.alternatives).Nodup)
    (htargets : target.id ≠ rightTarget) {merged result : SelaType}
    (hmerged : mergeNativeOverlap left right identity target.id rightTarget mergeType = .ok merged)
    (h : specializeType target merged = .ok result) :
    ∃ kept, result = .overlap identity kept (kept.map fun _ => targetSet [target.id]) ∧
      List.Forall₂ (fun a type => ∃ common,
        typeOf left.alternatives right.alternatives mergeType a.privateName = some common ∧
          specializeType target common = .ok type) left.alternatives kept := by
  obtain ⟨order, types, horder, htypes, rfl⟩ :=
    (mergeNativeOverlap_ok identity mergeType hleft hright htargets merged).mp hmerged
  have hunion := union_of_order hleft hright htargets horder htypes
  rw [specializeType_overlap] at h
  split at h
  · simp at h
  · obtain ⟨kept, hkept, h⟩ := Checked.bind_ok.mp h
    split at h
    · simp at h
    · refine ⟨kept, (Except.ok.inj h).symm, ?_⟩
      have hentries := hunion.leftTypes
      rw [names, List.map_map] at hentries
      have hleftTypes := (List.forall₂_map_left_iff.mp
        (List.forall₂_map_right_iff.mp (List.forall₂_eq_eq_eq ▸ hentries)))
      exact Checked.forall₂_trans (fun a entry type ha hentry => ⟨entry.1, ha.symm, hentry⟩)
        hleftTypes.flip (Checked.mapM_ok.mp hkept)

end Sela
