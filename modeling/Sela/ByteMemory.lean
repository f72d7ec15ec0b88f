import Mathlib.Data.List.Basic
import Mathlib.Algebra.Order.Group.Nat

/-!
# Typed access to bytes

A typed access moves the bytes of some scalars between storage and a value, and leaves the
bytes between them alone or undefined. What it touches is its footprint. The bytes are of
any type, in either order, with an `Encoding` : the byte that extends a scalar, the one that
fills padding, and what a single bit is read as from a byte that it does not fill.

* a value that is loaded has the data bytes of the storage (`Footprint.loads`), and one that
  is stored gives them back and changes no byte outside its footprint (`Footprint.stores`);
* a footprint cut at the end of the storage loads from the storage extended by zeros, where
  the least significant byte is the first (`Footprint.load_cut`).
-/

variable {β : Type}

/-! ## Bytes -/

/-- The bytes with those from `start` on replaced. -/
def splice (bytes : List β) (start : ℕ) (data : List β) : List β :=
  bytes.take start ++ data ++ bytes.drop (start + data.length)

section Splice

variable {bytes data : List β} {start p : ℕ}

theorem length_splice (h : start + data.length ≤ bytes.length) :
    (splice bytes start data).length = bytes.length := by
  simp only [splice, List.length_append, List.length_take, List.length_drop]
  omega

theorem getElem?_splice_inside (h : start + data.length ≤ bytes.length) (hstart : start ≤ p)
    (hstop : p < start + data.length) : (splice bytes start data)[p]? = data[p - start]? := by
  have htake : (bytes.take start).length = start := by
    rw [List.length_take]
    omega
  rw [splice, List.append_assoc, List.getElem?_append_right (by omega), htake,
    List.getElem?_append_left (by omega)]

theorem getElem?_splice_outside (h : start + data.length ≤ bytes.length)
    (hp : p < start ∨ start + data.length ≤ p) : (splice bytes start data)[p]? = bytes[p]? := by
  have htake : (bytes.take start).length = start := by
    rw [List.length_take]
    omega
  rcases hp with hp | hp
  · rw [splice, List.append_assoc, List.getElem?_append_left (by omega),
      List.getElem?_take_of_lt hp]
  · rw [splice, List.append_assoc, List.getElem?_append_right (by omega), htake,
      List.getElem?_append_right (by omega), List.getElem?_drop]
    congr 1
    omega

theorem getElem?_take_drop {start size p : ℕ} (h : p < size) :
    ((bytes.drop start).take size)[p]? = bytes[start + p]? := by
  rw [List.getElem?_take_of_lt h, List.getElem?_drop]

end Splice

/-! ## Encodings -/

/-- How scalars are read and written : the byte that extends one, the one that padding becomes,
the byte that a single bit is read as, and the order of the bytes. -/
structure Encoding (β : Type) where
  zero : β
  undef : β
  bit : β → β
  bigEndian : Bool

namespace Encoding

variable (encoding : Encoding β)

/-- The bytes of a scalar by significance, from those by address, or the other way round. -/
def arrange (data : List β) : List β := if encoding.bigEndian then data.reverse else data

/-- The place by significance of a byte of a scalar, from that by address, or the other way
round. -/
def place (length i : ℕ) : ℕ := if encoding.bigEndian then length - 1 - i else i

/-- The byte of a scalar that is read from a byte of storage. -/
def byte (isBit : Bool) : β → β := if isBit then encoding.bit else id

variable {encoding} {data : List β} {length i : ℕ}

@[simp] theorem length_arrange : (encoding.arrange data).length = data.length := by
  unfold arrange
  split <;> simp

theorem place_lt (h : i < length) : encoding.place length i < length := by
  unfold place
  split <;> omega

theorem place_place (h : i < length) : encoding.place length (encoding.place length i) = i := by
  unfold place
  split <;> omega

theorem getElem?_arrange (h : i < data.length) :
    (encoding.arrange data)[i]? = data[encoding.place data.length i]? := by
  unfold arrange place
  split
  · exact List.getElem?_reverse h
  · rfl

end Encoding

/-! ## Footprints -/

/-- A first-class value : the bytes of a scalar, the least significant first, or the values of
the elements. -/
inductive TypedValue (β : Type)
  | bytes (bytes : List β)
  | elements (values : List (TypedValue β))

/-- What an access touches : `length` bytes of a scalar of `width`, or the byte that a single
bit does not fill, elements one by one, or elements and the padding between them in a span of
storage. -/
inductive Footprint
  | bytes (offset length width : ℕ) (bit : Bool)
  | elements (parts : List Footprint)
  | whole (offset size : ℕ) (parts : List Footprint)

namespace Footprint

mutual

/-- The byte belongs to a scalar. -/
def Data : Footprint → ℕ → Prop
  | .bytes offset length _ _, p => offset ≤ p ∧ p < offset + length
  | .elements parts, p => AnyData parts p
  | .whole _ _ parts, p => AnyData parts p

def AnyData : List Footprint → ℕ → Prop
  | [], _ => False
  | part :: parts, p => part.Data p ∨ AnyData parts p

end

mutual

/-- The byte is that of a single bit. -/
def IsBit : Footprint → ℕ → Prop
  | .bytes offset length _ bit, p => bit = true ∧ offset ≤ p ∧ p < offset + length
  | .elements parts, p => AnyBit parts p
  | .whole _ _ parts, p => AnyBit parts p

def AnyBit : List Footprint → ℕ → Prop
  | [], _ => False
  | part :: parts, p => part.IsBit p ∨ AnyBit parts p

end

mutual

/-- The byte is touched by an access. -/
def Covers : Footprint → ℕ → Prop
  | .bytes offset length _ _, p => offset ≤ p ∧ p < offset + length
  | .elements parts, p => AnyCovers parts p
  | .whole offset size _, p => offset ≤ p ∧ p < offset + size

def AnyCovers : List Footprint → ℕ → Prop
  | [], _ => False
  | part :: parts, p => part.Covers p ∨ AnyCovers parts p

end

mutual

def decidableData : ∀ (footprint : Footprint) (p : ℕ), Decidable (footprint.Data p)
  | .bytes offset length _ _, p => inferInstanceAs (Decidable (offset ≤ p ∧ p < offset + length))
  | .elements parts, p => decidableAnyData parts p
  | .whole _ _ parts, p => decidableAnyData parts p

def decidableAnyData : ∀ (parts : List Footprint) (p : ℕ), Decidable (AnyData parts p)
  | [], _ => inferInstanceAs (Decidable False)
  | part :: parts, p =>
    have := decidableData part p
    have := decidableAnyData parts p
    inferInstanceAs (Decidable (part.Data p ∨ AnyData parts p))

end

instance (footprint : Footprint) (p : ℕ) : Decidable (footprint.Data p) :=
  decidableData footprint p

mutual

/-- The footprint lies in `[lo, hi)`, its elements one after another. A bit is in one byte. -/
def Within : Footprint → ℕ → ℕ → Prop
  | .bytes offset length width bit, lo, hi =>
    lo ≤ offset ∧ offset + length ≤ hi ∧ length ≤ width ∧ (bit = true → length = 1)
  | .elements parts, lo, hi => Sequence parts lo hi
  | .whole offset size parts, lo, hi =>
    lo ≤ offset ∧ offset + size ≤ hi ∧ Sequence parts offset (offset + size)

def Sequence : List Footprint → ℕ → ℕ → Prop
  | [], lo, hi => lo ≤ hi
  | part :: parts, lo, hi => ∃ mid, part.Within lo mid ∧ Sequence parts mid hi

end

section Access

variable (encoding : Encoding β)

mutual

/-- The value in the storage, unless the access leaves it. A scalar is extended by zeros. -/
def load (storage : List β) : Footprint → Option (TypedValue β)
  | .bytes offset length width bit =>
    if offset + length ≤ storage.length then
      some (.bytes (encoding.arrange
          (((storage.drop offset).take length).map (encoding.byte bit)) ++
        List.replicate (width - length) encoding.zero))
    else none
  | .elements parts => (loadAll storage parts).map .elements
  | .whole offset size parts =>
    if offset + size ≤ storage.length then (loadAll storage parts).map .elements else none

def loadAll (storage : List β) : List Footprint → Option (List (TypedValue β))
  | [] => some []
  | part :: parts => do
    let value ← load storage part
    let values ← loadAll storage parts
    some (value :: values)

end

mutual

/-- The storage with the value in it, unless the access leaves it. A scalar is truncated to
the bytes that are moved; the padding of a span becomes undefined. -/
def store : Footprint → TypedValue β → List β → Option (List β)
  | .bytes offset length _ _, .bytes data, storage =>
    if offset + length ≤ storage.length ∧ length ≤ data.length then
      some (splice storage offset (encoding.arrange (data.take length)))
    else none
  | .elements parts, .elements values, storage => storeAll parts values storage
  | .whole offset size parts, .elements values, storage =>
    if offset + size ≤ storage.length then
      storeAll parts values (splice storage offset (List.replicate size encoding.undef))
    else none
  | _, _, _ => none

def storeAll : List Footprint → List (TypedValue β) → List β → Option (List β)
  | [], [], storage => some storage
  | part :: parts, value :: values, storage => do
    let storage ← store part value storage
    storeAll parts values storage
  | _, _, _ => none

end

end Access

mutual

/-- The value has the bytes the access moves. -/
def Fits : Footprint → TypedValue β → Prop
  | .bytes _ length _ _, .bytes data => length ≤ data.length
  | .elements parts, .elements values => FitAll parts values
  | .whole _ _ parts, .elements values => FitAll parts values
  | _, _ => False

def FitAll : List Footprint → List (TypedValue β) → Prop
  | [], [] => True
  | part :: parts, value :: values => Fits part value ∧ FitAll parts values
  | _, _ => False

end

section Bytes

variable (encoding : Encoding β)

mutual

/-- The byte that a value has at a place of the storage. -/
def byte? : Footprint → TypedValue β → ℕ → Option β
  | .bytes offset length _ _, .bytes data, p => data[encoding.place length (p - offset)]?
  | .elements parts, .elements values, p => anyByte? parts values p
  | .whole _ _ parts, .elements values, p => anyByte? parts values p
  | _, _, _ => none

def anyByte? : List Footprint → List (TypedValue β) → ℕ → Option β
  | part :: parts, value :: values, p =>
    if part.Data p then byte? part value p else anyByte? parts values p
  | _, _, _ => none

end

end Bytes

theorem length_loadAll {encoding : Encoding β} {storage : List β} {parts : List Footprint} :
    ∀ {values : List (TypedValue β)}, loadAll encoding storage parts = some values →
      values.length = parts.length := by
  induction parts with
  | nil =>
    intro values h
    rw [loadAll, Option.some.injEq] at h
    rw [← h]
    rfl
  | cons part parts ih =>
    intro values h
    rw [loadAll] at h
    obtain ⟨value, -, h⟩ := Option.bind_eq_some_iff.mp h
    obtain ⟨rest, hrest, h⟩ := Option.bind_eq_some_iff.mp h
    obtain rfl := Option.some.inj h
    rw [List.length_cons, ih hrest, List.length_cons]

theorem anyCovers_iff {parts : List Footprint} {p : ℕ} :
    AnyCovers parts p ↔ ∃ part ∈ parts, part.Covers p := by
  induction parts with
  | nil => simp [AnyCovers]
  | cons part parts ih => simp [AnyCovers, ih]

theorem anyData_iff {parts : List Footprint} {p : ℕ} :
    AnyData parts p ↔ ∃ part ∈ parts, part.Data p := by
  induction parts with
  | nil => simp [AnyData]
  | cons part parts ih => simp [AnyData, ih]

theorem anyBit_iff {parts : List Footprint} {p : ℕ} :
    AnyBit parts p ↔ ∃ part ∈ parts, part.IsBit p := by
  induction parts with
  | nil => simp [AnyBit]
  | cons part parts ih => simp [AnyBit, ih]

mutual

theorem Within.le : ∀ {footprint : Footprint} {lo hi : ℕ}, footprint.Within lo hi → lo ≤ hi
  | .bytes _ _ _ _, lo, hi, h => by
    simp only [Within] at h
    omega
  | .elements _, lo, hi, h => by
    simp only [Within] at h
    exact h.le
  | .whole _ _ _, lo, hi, h => by
    simp only [Within] at h
    omega

theorem Sequence.le : ∀ {parts : List Footprint} {lo hi : ℕ}, Sequence parts lo hi → lo ≤ hi
  | [], _, _, h => by simpa only [Sequence] using h
  | _ :: _, _, _, h => by
    simp only [Sequence] at h
    obtain ⟨mid, hpart, hparts⟩ := h
    exact hpart.le.trans hparts.le

end

mutual

theorem Within.mono : ∀ {footprint : Footprint} {lo hi lo' hi' : ℕ},
    footprint.Within lo hi → lo' ≤ lo → hi ≤ hi' → footprint.Within lo' hi'
  | .bytes _ _ _ _, lo, hi, lo', hi', h, hlo, hhi => by
    simp only [Within] at h ⊢
    exact ⟨hlo.trans h.1, h.2.1.trans hhi, h.2.2⟩
  | .elements _, lo, hi, lo', hi', h, hlo, hhi => by
    simp only [Within] at h ⊢
    exact h.mono hlo hhi
  | .whole _ _ _, lo, hi, lo', hi', h, hlo, hhi => by
    simp only [Within] at h ⊢
    exact ⟨hlo.trans h.1, h.2.1.trans hhi, h.2.2⟩

theorem Sequence.mono : ∀ {parts : List Footprint} {lo hi lo' hi' : ℕ},
    Sequence parts lo hi → lo' ≤ lo → hi ≤ hi' → Sequence parts lo' hi'
  | [], _, _, _, _, h, hlo, hhi => by
    simp only [Sequence] at h ⊢
    omega
  | _ :: _, lo, hi, lo', hi', h, hlo, hhi => by
    simp only [Sequence] at h ⊢
    obtain ⟨mid, hpart, hparts⟩ := h
    exact ⟨mid, hpart.mono hlo le_rfl, hparts.mono le_rfl hhi⟩

end

mutual

/-- What a footprint covers lies where it does. -/
theorem Within.covers : ∀ {footprint : Footprint} {lo hi p : ℕ},
    footprint.Within lo hi → footprint.Covers p → lo ≤ p ∧ p < hi
  | .bytes _ _ _ _, lo, hi, p, h, hp => by
    simp only [Within, Covers] at h hp
    omega
  | .elements _, lo, hi, p, h, hp => by
    simp only [Within, Covers] at h hp
    exact h.covers hp
  | .whole _ _ _, lo, hi, p, h, hp => by
    simp only [Within, Covers] at h hp
    omega

theorem Sequence.covers : ∀ {parts : List Footprint} {lo hi p : ℕ},
    Sequence parts lo hi → AnyCovers parts p → lo ≤ p ∧ p < hi
  | [], _, _, _, _, hp => by simp only [AnyCovers] at hp
  | _ :: _, lo, hi, p, h, hp => by
    simp only [Sequence, AnyCovers] at h hp
    obtain ⟨mid, hpart, hparts⟩ := h
    have hmid := hpart.le
    have hstop := hparts.le
    rcases hp with hp | hp
    · have := hpart.covers hp
      omega
    · have := hparts.covers hp
      omega

end

mutual

/-- A bit is in a data byte. -/
theorem IsBit.data : ∀ {footprint : Footprint} {p : ℕ}, footprint.IsBit p → footprint.Data p
  | .bytes _ _ _ _, _, h => by
    simp only [IsBit, Data] at h ⊢
    exact h.2
  | .elements _, _, h => by
    simp only [IsBit, Data] at h ⊢
    exact h.data
  | .whole _ _ _, _, h => by
    simp only [IsBit, Data] at h ⊢
    exact h.data

theorem AnyBit.data : ∀ {parts : List Footprint} {p : ℕ}, AnyBit parts p → AnyData parts p
  | [], _, h => by simp only [AnyBit] at h
  | _ :: _, _, h => by
    simp only [AnyBit, AnyData] at h ⊢
    exact h.imp IsBit.data AnyBit.data

end

mutual

/-- A footprint covers its data bytes. -/
theorem Within.covers_of_data : ∀ {footprint : Footprint} {lo hi p : ℕ},
    footprint.Within lo hi → footprint.Data p → footprint.Covers p
  | .bytes _ _ _ _, _, _, _, _, hp => by simpa only [Data, Covers] using hp
  | .elements _, lo, hi, p, h, hp => by
    simp only [Within, Data, Covers] at h hp ⊢
    exact h.covers_of_data hp
  | .whole _ _ _, lo, hi, p, h, hp => by
    simp only [Within, Data, Covers] at h hp ⊢
    exact h.2.2.covers (h.2.2.covers_of_data hp)

theorem Sequence.covers_of_data : ∀ {parts : List Footprint} {lo hi p : ℕ},
    Sequence parts lo hi → AnyData parts p → AnyCovers parts p
  | [], _, _, _, _, hp => by simp only [AnyData] at hp
  | _ :: _, lo, hi, p, h, hp => by
    simp only [Sequence, AnyData, AnyCovers] at h hp ⊢
    obtain ⟨mid, hpart, hparts⟩ := h
    exact hp.imp hpart.covers_of_data hparts.covers_of_data

end

theorem Within.data {footprint : Footprint} {lo hi p : ℕ} (h : footprint.Within lo hi)
    (hp : footprint.Data p) : lo ≤ p ∧ p < hi :=
  h.covers (h.covers_of_data hp)

theorem Sequence.data {parts : List Footprint} {lo hi p : ℕ} (h : Sequence parts lo hi)
    (hp : AnyData parts p) : lo ≤ p ∧ p < hi :=
  h.covers (h.covers_of_data hp)

/-- Footprints at the places of a list that grow, each inside `[lo, hi)`. -/
theorem sequence_of_pairwise {ι : Type} {f : ι → Footprint} (start stop : ι → ℕ) {hi : ℕ}
    {items : List ι} (hwithin : ∀ i ∈ items, (f i).Within (start i) (stop i))
    (hpairwise : items.Pairwise fun a b => stop a ≤ start b) (hstop : ∀ i ∈ items, stop i ≤ hi) :
    ∀ {lo : ℕ}, (∀ i ∈ items, lo ≤ start i) → lo ≤ hi → Sequence (items.map f) lo hi := by
  induction items with
  | nil =>
    intro lo _ hle
    simpa only [List.map_nil, Sequence] using hle
  | cons i items ih =>
    intro lo hlo hle
    obtain ⟨hfirst, hpairwise⟩ := List.pairwise_cons.mp hpairwise
    rw [List.map_cons, Sequence]
    refine ⟨stop i, (hwithin i (by simp)).mono (hlo i (by simp)) le_rfl, ?_⟩
    exact ih (fun j hj => hwithin j (by simp [hj])) hpairwise (fun j hj => hstop j (by simp [hj]))
      hfirst (hstop i (by simp))

/-! ## Loads and stores -/

/-- What is read from a byte of storage : the byte, or what a bit in it is read as. -/
structure ReadsByte (encoding : Encoding β) (isBit : Prop) (byte read : Option β) : Prop where
  whole : ¬isBit → read = byte
  bit : isBit → read = byte.map encoding.bit

theorem ReadsByte.congr {encoding : Encoding β} {isBit isBit' : Prop} {byte read : Option β}
    (h : ReadsByte encoding isBit byte read) (hiff : isBit' ↔ isBit) :
    ReadsByte encoding isBit' byte read :=
  ⟨fun hbit => h.whole (hiff.not.mp hbit), fun hbit => h.bit (hiff.mp hbit)⟩

/-- What a store has done : the data bytes are those of the value, padding is left or
undefined, and what is not covered is left. -/
structure Stored (undef : β) (isData covers : ℕ → Prop) (byte : ℕ → Option β)
    (storage storage' : List β) : Prop where
  length : storage'.length = storage.length
  data : ∀ p, isData p → storage'[p]? = byte p
  padding : ∀ p, ¬isData p → storage'[p]? = storage[p]? ∨ storage'[p]? = some undef
  outside : ∀ p, ¬covers p → storage'[p]? = storage[p]?

/-- What a copy by a load and a store has done : the data bytes are those of the source as they
are read, padding is left or undefined, and what is not covered is left. -/
structure Copied (encoding : Encoding β) (isData isBit covers : ℕ → Prop)
    (source storage storage' : List β) : Prop where
  length : storage'.length = storage.length
  data : ∀ p, isData p → ReadsByte encoding (isBit p) source[p]? storage'[p]?
  padding : ∀ p, ¬isData p → storage'[p]? = storage[p]? ∨ storage'[p]? = some encoding.undef
  outside : ∀ p, ¬covers p → storage'[p]? = storage[p]?

section Runs

variable (encoding : Encoding β)

mutual

/-- A value that fits is stored. -/
theorem stores : ∀ {footprint : Footprint} {value : TypedValue β} {lo hi : ℕ} {storage : List β},
    footprint.Within lo hi → footprint.Fits value → hi ≤ storage.length →
      ∃ storage', store encoding footprint value storage = some storage' ∧
        Stored encoding.undef footprint.Data footprint.Covers (footprint.byte? encoding value) storage storage'
  | .bytes offset length width bit, .bytes data, lo, hi, storage, h, hfits, hstorage => by
    simp only [Within, Fits] at h hfits
    have htake : (encoding.arrange (data.take length)).length = length := by
      rw [Encoding.length_arrange, List.length_take]
      omega
    have hroom : offset + (encoding.arrange (data.take length)).length ≤ storage.length := by omega
    refine ⟨_, by rw [store, if_pos (by omega)], length_splice hroom, fun p hp => ?_,
      fun p hp => ?_, fun p hp => ?_⟩
    · simp only [Data] at hp
      have hplace : encoding.place length (p - offset) < length := Encoding.place_lt (by omega)
      rw [getElem?_splice_inside hroom hp.1 (by omega), byte?, Encoding.getElem?_arrange
        (by rw [← @Encoding.length_arrange _ encoding]; omega), List.length_take,
        Nat.min_eq_left hfits, List.getElem?_take_of_lt hplace]
    · simp only [Data] at hp
      exact .inl (getElem?_splice_outside hroom (by omega))
    · simp only [Covers] at hp
      exact getElem?_splice_outside hroom (by omega)
  | .elements parts, .elements values, lo, hi, storage, h, hfits, hstorage => by
    simp only [Within, Fits] at h hfits
    obtain ⟨storage', hrun, hstored⟩ := storesAll h hfits hstorage
    exact ⟨storage', by rw [store, hrun], hstored⟩
  | .whole offset size parts, .elements values, lo, hi, storage, h, hfits, hstorage => by
    simp only [Within, Fits] at h hfits
    obtain ⟨hlo, hhi, hparts⟩ := h
    have hroom : offset + (List.replicate size encoding.undef).length ≤ storage.length := by
      rw [List.length_replicate]
      omega
    have hfill := length_splice hroom
    have hlength : offset + size ≤
        (splice storage offset (List.replicate size encoding.undef)).length := by omega
    obtain ⟨storage', hrun, hstored⟩ := storesAll hparts hfits hlength
    have hleft : ∀ p, p < offset ∨ offset + size ≤ p →
        (splice storage offset (List.replicate size encoding.undef))[p]? = storage[p]? := by
      intro p hp
      refine getElem?_splice_outside hroom ?_
      rwa [List.length_replicate]
    refine ⟨storage', by rw [store, if_pos (by omega), hrun], hstored.length.trans hfill,
      hstored.data, fun p hp => ?_, fun p hp => ?_⟩
    · rcases hstored.padding p hp with hsame | hundef
      · by_cases hinside : p < offset ∨ offset + size ≤ p
        · exact .inl (hsame.trans (hleft p hinside))
        · refine .inr ?_
          rw [hsame, getElem?_splice_inside hroom (by omega)
            (by rw [List.length_replicate]; omega), List.getElem?_replicate, if_pos (by omega)]
      · exact .inr hundef
    · simp only [Covers] at hp
      have houtside : p < offset ∨ offset + size ≤ p := by omega
      rw [hstored.outside p fun hcovers => hp (hparts.covers hcovers), hleft p houtside]
  | .bytes _ _ _ _, .elements _, _, _, _, _, hfits, _ => by simp only [Fits] at hfits
  | .elements _, .bytes _, _, _, _, _, hfits, _ => by simp only [Fits] at hfits
  | .whole _ _ _, .bytes _, _, _, _, _, hfits, _ => by simp only [Fits] at hfits

theorem storesAll : ∀ {parts : List Footprint} {values : List (TypedValue β)} {lo hi : ℕ}
    {storage : List β}, Sequence parts lo hi → FitAll parts values → hi ≤ storage.length →
      ∃ storage', storeAll encoding parts values storage = some storage' ∧
        Stored encoding.undef (AnyData parts) (AnyCovers parts) (anyByte? encoding parts values) storage storage'
  | [], [], lo, hi, storage, _, _, _ => by
    refine ⟨storage, by rw [storeAll], rfl, fun p hp => ?_, fun p _ => .inl rfl, fun p _ => rfl⟩
    rw [AnyData] at hp
    exact hp.elim
  | part :: parts, value :: values, lo, hi, storage, h, hfits, hstorage => by
    simp only [Sequence, FitAll] at h hfits
    obtain ⟨mid, hpart, hparts⟩ := h
    have hlo := hpart.le
    have hhi := hparts.le
    obtain ⟨middle, hrun, hfirst⟩ := stores hpart hfits.1 (hhi.trans hstorage)
    obtain ⟨storage', hrun', hrest⟩ := storesAll hparts hfits.2 (hfirst.length ▸ hstorage)
    refine ⟨storage', by rw [storeAll, hrun]; exact hrun', hrest.length.trans hfirst.length,
      fun p hp => ?_, fun p hp => ?_, fun p hp => ?_⟩
    · rw [AnyData] at hp
      rw [anyByte?]
      by_cases hdata : part.Data p
      · have hwithin := hpart.data hdata
        have hout : ¬AnyCovers parts p := fun hcovers => by
          have := hparts.covers hcovers
          omega
        rw [if_pos hdata, hrest.outside p hout, hfirst.data p hdata]
      · rw [if_neg hdata]
        exact hrest.data p (hp.resolve_left hdata)
    · rw [AnyData, not_or] at hp
      rcases hrest.padding p hp.2 with hsame | hundef
      · rw [hsame]
        exact hfirst.padding p hp.1
      · exact .inr hundef
    · rw [AnyCovers, not_or] at hp
      rw [hrest.outside p hp.2, hfirst.outside p hp.1]
  | [], _ :: _, _, _, _, _, hfits, _ => by simp only [FitAll] at hfits
  | _ :: _, [], _, _, _, _, hfits, _ => by simp only [FitAll] at hfits

end

mutual

/-- A value is loaded from storage, and has its data bytes. -/
theorem loads : ∀ {footprint : Footprint} {lo hi : ℕ} {source : List β},
    footprint.Within lo hi → hi ≤ source.length →
      ∃ value, load encoding source footprint = some value ∧ footprint.Fits value ∧
        ∀ p, footprint.Data p →
          ReadsByte encoding (footprint.IsBit p) source[p]? (footprint.byte? encoding value p)
  | .bytes offset length width bit, lo, hi, source, h, hsource => by
    simp only [Within] at h
    have htake : ((source.drop offset).take length).length = length := by
      rw [List.length_take, List.length_drop]
      omega
    refine ⟨_, by rw [load, if_pos (by omega)], ?_, fun p hp => ?_⟩
    · rw [Fits, List.length_append, Encoding.length_arrange, List.length_map, htake]
      omega
    · simp only [Data] at hp
      have hplace : encoding.place length (p - offset) < length := Encoding.place_lt (by omega)
      have hread : Footprint.byte? encoding (.bytes offset length width bit) (.bytes
          (encoding.arrange (((source.drop offset).take length).map (encoding.byte bit)) ++
            List.replicate (width - length) encoding.zero)) p =
          source[p]?.map (encoding.byte bit) := by
        rw [byte?, List.getElem?_append_left (by rwa [Encoding.length_arrange, List.length_map, htake]),
          Encoding.getElem?_arrange (by rwa [List.length_map, htake]), List.length_map, htake,
          Encoding.place_place (by omega), List.getElem?_map, getElem?_take_drop (by omega),
          Nat.add_sub_cancel' hp.1]
      rw [hread]
      refine ⟨fun hbit => ?_, fun hbit => ?_⟩
      · have hwhole : bit = false := by simpa [IsBit, hp] using hbit
        rw [hwhole, Encoding.byte, if_neg (by simp), Option.map_id_fun, id]
      · rw [show bit = true from hbit.1, Encoding.byte, if_pos rfl]
  | .elements parts, lo, hi, source, h, hsource => by
    simp only [Within] at h
    obtain ⟨values, hvalues, hfits, hbytes⟩ := loadsAll h hsource
    exact ⟨.elements values, by rw [load, hvalues]; rfl, by simpa only [Fits] using hfits,
      fun p hp => by simpa only [byte?, IsBit] using hbytes p (by simpa only [Data] using hp)⟩
  | .whole offset size parts, lo, hi, source, h, hsource => by
    simp only [Within] at h
    obtain ⟨hlo, hhi, hparts⟩ := h
    obtain ⟨values, hvalues, hfits, hbytes⟩ := loadsAll hparts (hhi.trans hsource)
    exact ⟨.elements values, by rw [load, if_pos (by omega), hvalues]; rfl,
      by simpa only [Fits] using hfits,
      fun p hp => by simpa only [byte?, IsBit] using hbytes p (by simpa only [Data] using hp)⟩

theorem loadsAll : ∀ {parts : List Footprint} {lo hi : ℕ} {source : List β},
    Sequence parts lo hi → hi ≤ source.length →
      ∃ values, loadAll encoding source parts = some values ∧ FitAll parts values ∧
        ∀ p, AnyData parts p →
          ReadsByte encoding (AnyBit parts p) source[p]? (anyByte? encoding parts values p)
  | [], _, _, _, _, _ => by
    refine ⟨[], by rw [loadAll], trivial, fun p hp => ?_⟩
    rw [AnyData] at hp
    exact hp.elim
  | part :: parts, lo, hi, source, h, hsource => by
    simp only [Sequence] at h
    obtain ⟨mid, hpart, hparts⟩ := h
    obtain ⟨value, hvalue, hfits, hbyte⟩ := loads hpart (hparts.le.trans hsource)
    obtain ⟨values, hvalues, hfitAll, hbytes⟩ := loadsAll hparts hsource
    refine ⟨value :: values, by rw [loadAll, hvalue, hvalues]; rfl,
      by simpa only [FitAll] using ⟨hfits, hfitAll⟩, fun p hp => ?_⟩
    rw [AnyData] at hp
    rw [anyByte?]
    by_cases hdata : part.Data p
    · have hpart' := hpart.data hdata
      have hrest : ¬AnyBit parts p := fun hbit => by
        have := hparts.data hbit.data
        omega
      rw [if_pos hdata]
      exact (hbyte p hdata).congr (by rw [AnyBit, or_iff_left hrest])
    · rw [if_neg hdata]
      exact (hbytes p (hp.resolve_left hdata)).congr
        (by rw [AnyBit, or_iff_right fun hbit => hdata hbit.data])

end

end Runs

/-! ## Cutting at the end of the storage -/

mutual

/-- The footprint without what lies past the end of the storage : a span that reaches past
it is taken element by element, and a scalar by its low bytes. -/
def cut (extent : ℕ) : Footprint → Footprint
  | .bytes offset length width bit => .bytes offset (min length (extent - offset)) width bit
  | .elements parts => .elements (cutAll extent parts)
  | .whole offset size parts =>
    if offset + size ≤ extent then .whole offset size parts else .elements (cutAll extent parts)

def cutAll (extent : ℕ) : List Footprint → List Footprint
  | [] => []
  | part :: parts => cut extent part :: cutAll extent parts

end

mutual

/-- Every scalar begins inside the storage. -/
def Begins (extent : ℕ) : Footprint → Prop
  | .bytes offset _ _ _ => offset < extent
  | .elements parts => AllBegin extent parts
  | .whole offset size parts => offset + size ≤ extent ∨ AllBegin extent parts

def AllBegin (extent : ℕ) : List Footprint → Prop
  | [] => True
  | part :: parts => Begins extent part ∧ AllBegin extent parts

end

section Cut

variable {extent : ℕ}

theorem cutAll_eq_map (parts : List Footprint) : cutAll extent parts = parts.map (cut extent) := by
  induction parts with
  | nil => rw [cutAll, List.map_nil]
  | cons part parts ih => rw [cutAll, List.map_cons, ih]

theorem allBegin_iff {parts : List Footprint} :
    AllBegin extent parts ↔ ∀ part ∈ parts, part.Begins extent := by
  induction parts with
  | nil => simp [AllBegin]
  | cons part parts ih => rw [AllBegin, List.forall_mem_cons, ih]

mutual

/-- What lies inside the storage is not cut. -/
theorem Within.cut_eq : ∀ {footprint : Footprint} {lo hi : ℕ}, footprint.Within lo hi →
    hi ≤ extent → footprint.cut extent = footprint
  | .bytes _ _ _ _, lo, hi, h, hhi => by
    simp only [Within] at h
    rw [Footprint.cut, Nat.min_eq_left (by omega)]
  | .elements _, lo, hi, h, hhi => by
    simp only [Within] at h
    rw [Footprint.cut, h.cut_eq hhi]
  | .whole _ _ _, lo, hi, h, hhi => by
    simp only [Within] at h
    rw [Footprint.cut, if_pos (by omega)]

theorem Sequence.cut_eq : ∀ {parts : List Footprint} {lo hi : ℕ}, Sequence parts lo hi →
    hi ≤ extent → cutAll extent parts = parts
  | [], _, _, _, _ => by rw [cutAll]
  | _ :: _, lo, hi, h, hhi => by
    simp only [Sequence] at h
    obtain ⟨mid, hpart, hparts⟩ := h
    rw [cutAll, hpart.cut_eq (hparts.le.trans hhi), hparts.cut_eq hhi]

end

mutual

theorem Within.cut : ∀ {footprint : Footprint} {lo hi : ℕ}, footprint.Within lo hi →
    footprint.Begins extent → (footprint.cut extent).Within (min lo extent) (min hi extent)
  | .bytes _ _ _ _, lo, hi, h, hbegins => by
    simp only [Within, Begins, Footprint.cut] at h hbegins ⊢
    refine ⟨by omega, by omega, by omega, fun hbit => ?_⟩
    have := h.2.2.2 hbit
    omega
  | .elements _, lo, hi, h, hbegins => by
    simp only [Within, Begins, Footprint.cut] at h hbegins ⊢
    exact h.cut hbegins
  | .whole offset size parts, lo, hi, h, hbegins => by
    simp only [Within, Begins, Footprint.cut] at h hbegins ⊢
    split
    · next hinside =>
      rw [Within]
      exact ⟨by omega, by omega, h.2.2⟩
    · next houtside =>
      rw [Within]
      exact (h.2.2.cut (hbegins.resolve_left houtside)).mono (by omega) (by omega)

theorem Sequence.cut : ∀ {parts : List Footprint} {lo hi : ℕ}, Sequence parts lo hi →
    AllBegin extent parts → Sequence (cutAll extent parts) (min lo extent) (min hi extent)
  | [], _, _, h, _ => by
    simp only [Sequence, cutAll] at h ⊢
    omega
  | _ :: _, lo, hi, h, hbegins => by
    simp only [Sequence, AllBegin, cutAll] at h hbegins ⊢
    obtain ⟨mid, hpart, hparts⟩ := h
    exact ⟨min mid extent, hpart.cut hbegins.1, hparts.cut hbegins.2⟩

end

mutual

/-- The data bytes of a cut footprint are those inside the storage. -/
theorem data_cut : ∀ {footprint : Footprint} {lo hi p : ℕ}, footprint.Within lo hi →
    ((footprint.cut extent).Data p ↔ footprint.Data p ∧ p < extent)
  | .bytes _ _ _ _, lo, hi, p, h => by
    simp only [Footprint.cut, Data]
    omega
  | .elements _, lo, hi, p, h => by
    simp only [Within] at h
    simp only [Footprint.cut, Data]
    exact anyData_cut h
  | .whole offset size parts, lo, hi, p, h => by
    simp only [Within] at h
    simp only [Footprint.cut]
    split
    · next hinside =>
      refine (and_iff_left_of_imp fun hp => ?_).symm
      simp only [Data] at hp
      have := h.2.2.data hp
      omega
    · simp only [Data]
      exact anyData_cut h.2.2

theorem anyData_cut : ∀ {parts : List Footprint} {lo hi p : ℕ}, Sequence parts lo hi →
    (AnyData (cutAll extent parts) p ↔ AnyData parts p ∧ p < extent)
  | [], _, _, _, _ => by simp only [cutAll, AnyData, false_and]
  | _ :: _, lo, hi, p, h => by
    simp only [Sequence] at h
    obtain ⟨mid, hpart, hparts⟩ := h
    simp only [cutAll, AnyData, data_cut hpart, anyData_cut hparts, or_and_right]

end

mutual

theorem Fits.cut : ∀ {footprint : Footprint} {value : TypedValue β}, footprint.Fits value →
    (footprint.cut extent).Fits value
  | .bytes _ _ _ _, .bytes _, h => by
    simp only [Footprint.cut, Fits] at h ⊢
    omega
  | .elements _, .elements _, h => by
    simp only [Footprint.cut, Fits] at h ⊢
    exact h.cut
  | .whole _ _ _, .elements _, h => by
    simp only [Footprint.cut]
    split
    · exact h
    · simp only [Fits] at h ⊢
      exact h.cut
  | .bytes _ _ _ _, .elements _, h => by simp only [Fits] at h
  | .elements _, .bytes _, h => by simp only [Fits] at h
  | .whole _ _ _, .bytes _, h => by simp only [Fits] at h

theorem FitAll.cut : ∀ {parts : List Footprint} {values : List (TypedValue β)},
    FitAll parts values → FitAll (cutAll extent parts) values
  | [], [], _ => trivial
  | _ :: _, _ :: _, h => by
    simp only [cutAll, FitAll] at h ⊢
    exact ⟨h.1.cut, h.2.cut⟩
  | [], _ :: _, h => by simp only [FitAll] at h
  | _ :: _, [], h => by simp only [FitAll] at h

end

mutual

/-- Cutting a footprint inside the storage leaves its bits. -/
theorem isBit_cut : ∀ {footprint : Footprint} {p : ℕ}, p < extent →
    ((footprint.cut extent).IsBit p ↔ footprint.IsBit p)
  | .bytes _ _ _ _, p, hp => by
    simp only [Footprint.cut, IsBit]
    exact and_congr_right fun _ => by omega
  | .elements _, p, hp => by
    simp only [Footprint.cut, IsBit]
    exact anyBit_cut hp
  | .whole _ _ _, p, hp => by
    simp only [Footprint.cut]
    split
    · rfl
    · simp only [IsBit]
      exact anyBit_cut hp

theorem anyBit_cut : ∀ {parts : List Footprint} {p : ℕ}, p < extent →
    (AnyBit (cutAll extent parts) p ↔ AnyBit parts p)
  | [], _, _ => by simp only [cutAll]
  | _ :: _, p, hp => by simp only [cutAll, AnyBit, isBit_cut hp, anyBit_cut hp]

end

mutual

/-- Bytes past a footprint do not matter. -/
theorem load_append (encoding : Encoding β) {source more : List β} :
    ∀ {footprint : Footprint} {lo hi : ℕ}, footprint.Within lo hi → hi ≤ source.length →
      load encoding (source ++ more) footprint = load encoding source footprint
  | .bytes offset length width bit, lo, hi, h, hsource => by
    simp only [Within] at h
    rw [load, load, if_pos (by rw [List.length_append]; omega), if_pos (by omega),
      List.drop_append_of_le_length (by omega), List.take_append_of_le_length
        (by rw [List.length_drop]; omega)]
  | .elements _, lo, hi, h, hsource => by
    simp only [Within] at h
    rw [load, load, loadAll_append encoding h hsource]
  | .whole _ _ _, lo, hi, h, hsource => by
    simp only [Within] at h
    rw [load, load, if_pos (by rw [List.length_append]; omega), if_pos (by omega),
      loadAll_append encoding h.2.2 (by omega)]

theorem loadAll_append (encoding : Encoding β) {source more : List β} :
    ∀ {parts : List Footprint} {lo hi : ℕ}, Sequence parts lo hi → hi ≤ source.length →
      loadAll encoding (source ++ more) parts = loadAll encoding source parts
  | [], _, _, _, _ => by rw [loadAll, loadAll]
  | _ :: _, lo, hi, h, hsource => by
    simp only [Sequence] at h
    obtain ⟨mid, hpart, hparts⟩ := h
    rw [loadAll, loadAll, load_append encoding hpart (hparts.le.trans hsource),
      loadAll_append encoding hparts hsource]

end

/-- A scalar cut at the end of the storage is extended by zeros, as the bytes after its first
ones are the more significant. -/
theorem load_bytes_cut {encoding : Encoding β} (hlittle : encoding.bigEndian = false)
    {source : List β} {offset length width k : ℕ} {bit : Bool} (hbegins : offset < source.length)
    (hstop : offset + length ≤ source.length + k) (hwidth : length ≤ width)
    (hbit : bit = true → length = 1) :
    load encoding source (.bytes offset (min length (source.length - offset)) width bit) =
      load encoding (source ++ List.replicate k encoding.zero) (.bytes offset length width bit) := by
  by_cases hlength : length ≤ source.length - offset
  · have hwithin : (Footprint.bytes offset length width bit).Within offset source.length := by
      rw [Within]
      exact ⟨le_rfl, by omega, hwidth, hbit⟩
    rw [Nat.min_eq_left hlength, load_append encoding hwithin le_rfl]
  · have hwhole : bit = false := by
      by_contra hne
      have := hbit (by simpa using hne)
      omega
    have harrange : ∀ data : List β, encoding.arrange data = data := fun data => by
      rw [Encoding.arrange, hlittle, if_neg (by simp)]
    have hbyte : ∀ data : List β, data.map (encoding.byte bit) = data := fun data => by
      rw [hwhole, Encoding.byte, if_neg (by simp), List.map_id]
    rw [load, load, if_pos (by omega),
      if_pos (by rw [List.length_append, List.length_replicate]; omega)]
    refine congrArg (fun data => some (TypedValue.bytes data)) ?_
    rw [harrange, harrange, hbyte, hbyte, List.drop_append_of_le_length hbegins.le, List.take_append,
      List.length_drop, List.take_replicate, List.append_assoc, List.replicate_append_replicate,
      Nat.min_eq_right (by omega), List.take_of_length_le (by rw [List.length_drop]),
      List.take_of_length_le (by rw [List.length_drop]; omega)]
    congr 2
    omega

mutual

/-- A load cut at the end of the storage loads from the storage extended by zeros. -/
theorem load_cut {encoding : Encoding β} (hlittle : encoding.bigEndian = false) {source : List β} {k : ℕ} :
    ∀ {footprint : Footprint} {lo hi : ℕ}, footprint.Within lo hi →
      footprint.Begins source.length → hi ≤ source.length + k →
        load encoding source (footprint.cut source.length) =
          load encoding (source ++ List.replicate k encoding.zero) footprint
  | .bytes offset length width bit, lo, hi, h, hbegins, hhi => by
    simp only [Within, Begins] at h hbegins
    exact load_bytes_cut hlittle hbegins (h.2.1.trans hhi) h.2.2.1 h.2.2.2
  | .elements _, lo, hi, h, hbegins, hhi => by
    simp only [Within, Begins] at h hbegins
    rw [Footprint.cut, load, load, loadAll_cut hlittle h hbegins hhi]
  | .whole offset size parts, lo, hi, h, hbegins, hhi => by
    simp only [Within, Begins] at h hbegins
    rw [Footprint.cut]
    split
    · next hinside =>
      have hwithin : (Footprint.whole offset size parts).Within offset (offset + size) := by
        simp only [Within]
        exact ⟨le_rfl, le_rfl, h.2.2⟩
      exact (load_append encoding hwithin hinside).symm
    · next houtside =>
      rw [load, load, if_pos (by rw [List.length_append, List.length_replicate]; omega),
        loadAll_cut hlittle h.2.2 (hbegins.resolve_left houtside) (h.2.1.trans hhi)]

theorem loadAll_cut {encoding : Encoding β} (hlittle : encoding.bigEndian = false) {source : List β} {k : ℕ} :
    ∀ {parts : List Footprint} {lo hi : ℕ}, Sequence parts lo hi →
      AllBegin source.length parts → hi ≤ source.length + k →
        loadAll encoding source (cutAll source.length parts) =
          loadAll encoding (source ++ List.replicate k encoding.zero) parts
  | [], _, _, _, _, _ => by rw [cutAll, loadAll, loadAll]
  | _ :: _, lo, hi, h, hbegins, hhi => by
    simp only [Sequence, AllBegin] at h hbegins
    obtain ⟨mid, hpart, hparts⟩ := h
    rw [cutAll, loadAll, loadAll, load_cut hlittle hpart hbegins.1 (hparts.le.trans hhi),
      loadAll_cut hlittle hparts hbegins.2 hhi]

end

end Cut

end Footprint
