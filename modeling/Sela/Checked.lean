import Mathlib.Algebra.Ring.Int.Defs
import Mathlib.Algebra.Ring.Nat
import Mathlib.Data.List.Forall2

/-!
# Checked computations

A checked computation returns a value or the text of its error. What a success says is
read backwards: a sequence succeeds when both parts do (`bind_ok`), a guard when its
condition holds (`ensure_ok`), a traversal when every element does (`mapM_ok`,
`forM_ok`), a fold when it keeps an invariant (`foldlM_invariant`).

A stateful computation keeps its state when it fails, as a program that edits memory and
then reports an error does. Its runs are inverted the same way (`exec_bind_ok`), and what
it leaves alone on success and on failure is `Keeps`.
-/

/-- A value, or the text of an error. -/
abbrev Checked (α : Type) := Except String α

namespace Checked

variable {α β σ : Type}

/-- Fail with `message` unless `condition`. -/
def ensure (condition : Prop) [Decidable condition] (message : String) : Checked Unit :=
  if condition then .ok () else .error message

/-- The value of an option, or the failure `message`. -/
def require (value : Option α) (message : String) : Checked α :=
  match value with
  | some a => .ok a
  | none => .error message

@[simp] theorem pure_eq_ok (a : α) : (pure a : Checked α) = .ok a := rfl

@[simp] theorem throw_eq_error (message : String) :
    (throw message : Checked α) = .error message := rfl

@[simp] theorem ok_bind (a : α) (f : α → Checked β) :
    ((Except.ok a : Checked α) >>= f) = f a := rfl

@[simp] theorem error_bind (message : String) (f : α → Checked β) :
    ((Except.error message : Checked α) >>= f) = .error message := rfl

theorem bind_ok {x : Checked α} {f : α → Checked β} {b : β} :
    x >>= f = .ok b ↔ ∃ a, x = .ok a ∧ f a = .ok b := by
  cases x <;> simp

@[simp] theorem map_ok {x : Checked α} {f : α → β} {b : β} :
    f <$> x = .ok b ↔ ∃ a, x = .ok a ∧ f a = b := by
  cases x <;> simp [Functor.map, Except.map]

@[simp] theorem ensure_ok {condition : Prop} [Decidable condition] {message : String} {u : Unit} :
    ensure condition message = .ok u ↔ condition := by
  unfold ensure
  split <;> simp [*]

@[simp] theorem require_ok {value : Option α} {message : String} {a : α} :
    require value message = .ok a ↔ value = some a := by
  cases value <;> simp [require]

/-! ## Traversals -/

@[simp] theorem mapM_nil (f : α → Checked β) : [].mapM f = .ok [] := rfl

theorem mapM_cons (f : α → Checked β) (x : α) (xs : List α) :
    (x :: xs).mapM f = (do
      let y ← f x
      let ys ← xs.mapM f
      pure (y :: ys)) :=
  List.mapM_cons

/-- A traversal succeeds when every element does, in order. -/
theorem mapM_ok {f : α → Checked β} :
    ∀ {xs : List α} {ys : List β},
      xs.mapM f = .ok ys ↔ List.Forall₂ (fun x y => f x = .ok y) xs ys
  | [], ys => by simp [eq_comm]
  | x :: xs, ys => by
    rw [mapM_cons, bind_ok, List.forall₂_cons_left_iff]
    constructor
    · rintro ⟨y, hy, h⟩
      obtain ⟨ys', hys, h⟩ := bind_ok.mp h
      obtain rfl : y :: ys' = ys := by simpa using h
      exact ⟨y, ys', hy, mapM_ok.mp hys, rfl⟩
    · rintro ⟨y, ys, hy, hys, rfl⟩
      exact ⟨y, hy, bind_ok.mpr ⟨ys, mapM_ok.mpr hys, rfl⟩⟩

/-- A traversal that may find nothing finds something when every element does, in order. -/
theorem mapM_some {f : α → Option β} :
    ∀ {xs : List α} {ys : List β},
      xs.mapM f = some ys ↔ List.Forall₂ (fun x y => f x = some y) xs ys
  | [], ys => by simp [eq_comm]
  | x :: xs, ys => by
    rw [List.mapM_cons, List.forall₂_cons_left_iff]
    simp only [Option.bind_eq_bind, Option.bind_eq_some_iff, mapM_some]
    constructor
    · rintro ⟨y, hy, ys', hys, h⟩
      exact ⟨y, ys', hy, hys, (Option.some.inj h).symm⟩
    · rintro ⟨y, ys', hy, hys, rfl⟩
      exact ⟨y, hy, ys', hys, rfl⟩

/-- A traversal for its checks alone succeeds when every check does. -/
theorem forM_ok {f : α → Checked Unit} :
    ∀ {xs : List α} {u : Unit}, xs.forM f = .ok u ↔ ∀ x ∈ xs, f x = .ok ()
  | [], _ => by simp [List.forM]
  | x :: xs, u => by
    rw [show (x :: xs).forM f = (f x >>= fun _ => xs.forM f) from List.forM_cons ..]
    rw [bind_ok, List.forall_mem_cons]
    exact ⟨fun ⟨_, hx, h⟩ => ⟨hx, forM_ok.mp h⟩, fun ⟨hx, h⟩ => ⟨(), hx, forM_ok.mpr h⟩⟩

/-- Related lists with equal images element by element have equal images. -/
theorem map_eq_of_forall₂ {γ : Type} {f : α → γ} {g : β → γ} {xs : List α} {ys : List β}
    (h : List.Forall₂ (fun x y => g y = f x) xs ys) : ys.map g = xs.map f := by
  induction h with
  | nil => rfl
  | cons hx _ ih => simp [hx, ih]

/-- Two lists related to a third, where the relations determine the elements of the one from
those of the other. -/
theorem map_eq_of_forall₂_left {γ : Type} {R : α → β → Prop} {S : α → γ → Prop} {f : β → γ}
    (hf : ∀ x y z, R x y → S x z → f y = z) {xs : List α} {ys : List β} {zs : List γ}
    (hR : List.Forall₂ R xs ys) (hS : List.Forall₂ S xs zs) : ys.map f = zs := by
  induction hR generalizing zs with
  | nil =>
    cases hS
    rfl
  | cons hx _ ih =>
    cases hS with
    | cons hz hS => rw [List.map_cons, hf _ _ _ hx hz, ih hS]

theorem exists_of_forall₂_right {R : α → β → Prop} {xs : List α} {ys : List β}
    (h : List.Forall₂ R xs ys) {y : β} (hy : y ∈ ys) : ∃ x ∈ xs, R x y := by
  induction h with
  | nil => simp at hy
  | cons hx _ ih =>
    rcases List.mem_cons.mp hy with rfl | hy
    · exact ⟨_, by simp, hx⟩
    · obtain ⟨x, hmem, hxy⟩ := ih hy
      exact ⟨x, by simp [hmem], hxy⟩

theorem exists_of_forall₂_left {R : α → β → Prop} {xs : List α} {ys : List β}
    (h : List.Forall₂ R xs ys) {x : α} (hx : x ∈ xs) : ∃ y ∈ ys, R x y :=
  exists_of_forall₂_right h.flip hx

theorem forall₂_imp_of_mem {R S : α → β → Prop} {xs : List α} {ys : List β}
    (h : List.Forall₂ R xs ys) (himp : ∀ x ∈ xs, ∀ y ∈ ys, R x y → S x y) :
    List.Forall₂ S xs ys := by
  induction h with
  | nil => exact .nil
  | cons hx _ ih =>
    exact .cons (himp _ (by simp) _ (by simp) hx)
      (ih fun x hx y hy => himp x (by simp [hx]) y (by simp [hy]))

theorem forall₂_flatMap {γ δ : Type} {R : γ → δ → Prop} {f : α → List γ} {g : β → List δ}
    {xs : List α} {ys : List β} (h : List.Forall₂ (fun x y => List.Forall₂ R (f x) (g y)) xs ys) :
    List.Forall₂ R (xs.flatMap f) (ys.flatMap g) := by
  induction h with
  | nil => exact .nil
  | cons hx _ ih => exact List.rel_append hx ih

/-- Choosing a related element for each of a list. -/
theorem exists_forall₂ {R : α → β → Prop} :
    ∀ {xs : List α}, (∀ x ∈ xs, ∃ y, R x y) → ∃ ys, List.Forall₂ R xs ys
  | [], _ => ⟨[], .nil⟩
  | x :: xs, h => by
    obtain ⟨⟨y, hy⟩, h⟩ := List.forall_mem_cons.mp h
    obtain ⟨ys, hys⟩ := exists_forall₂ h
    exact ⟨y :: ys, .cons hy hys⟩

theorem exists_mapM_some {f : α → Option β} {xs : List α} (h : ∀ x ∈ xs, ∃ y, f x = some y) :
    ∃ ys, xs.mapM f = some ys := by
  obtain ⟨ys, hys⟩ := exists_forall₂ h
  exact ⟨ys, mapM_some.mpr hys⟩

theorem exists_mapM_ok {f : α → Checked β} {xs : List α} (h : ∀ x ∈ xs, ∃ y, f x = .ok y) :
    ∃ ys, xs.mapM f = .ok ys := by
  obtain ⟨ys, hys⟩ := exists_forall₂ h
  exact ⟨ys, mapM_ok.mpr hys⟩

theorem forall₂_trans {γ : Type} {R : α → β → Prop} {S : β → γ → Prop} {T : α → γ → Prop}
    (himp : ∀ x y z, R x y → S y z → T x z) {xs : List α} {ys : List β} {zs : List γ}
    (hR : List.Forall₂ R xs ys) (hS : List.Forall₂ S ys zs) : List.Forall₂ T xs zs := by
  induction hR generalizing zs with
  | nil =>
    cases hS
    exact .nil
  | cons hx _ ih =>
    cases hS with
    | cons hy hS => exact .cons (himp _ _ _ hx hy) (ih hS)

theorem forall₂_getElem? {R : α → β → Prop} {xs : List α} {ys : List β} (h : List.Forall₂ R xs ys)
    {i : ℕ} {x : α} (hx : xs[i]? = some x) : ∃ y, ys[i]? = some y ∧ R x y := by
  obtain ⟨hi, rfl⟩ := List.getElem?_eq_some_iff.mp hx
  exact ⟨_, List.getElem?_eq_getElem (h.length_eq ▸ hi), h.get hi (h.length_eq ▸ hi)⟩

/-- Two lists are related when they are as long and related at each position. -/
theorem forall₂_of_getElem? {R : α → β → Prop} {xs : List α} {ys : List β}
    (hlength : xs.length = ys.length)
    (h : ∀ (i : ℕ) x y, xs[i]? = some x → ys[i]? = some y → R x y) : List.Forall₂ R xs ys :=
  List.forall₂_iff_get.mpr ⟨hlength, fun i hi hi' =>
    h i _ _ (List.getElem?_eq_getElem hi) (List.getElem?_eq_getElem hi')⟩

/-- The elements a predicate keeps, where each other element contributes nothing. -/
theorem forall₂_filter_flatMap {R : α → β → Prop} {p : α → Bool} {g : α → List β} :
    ∀ {xs : List α}, (∀ x ∈ xs, if p x then ∃ y, g x = [y] ∧ R x y else g x = []) →
      List.Forall₂ R (xs.filter p) (xs.flatMap g)
  | [], _ => .nil
  | x :: xs, h => by
    obtain ⟨hx, h⟩ := List.forall_mem_cons.mp h
    have ih := forall₂_filter_flatMap h
    rw [List.filter_cons, List.flatMap_cons]
    split at hx
    · rename_i hp
      obtain ⟨y, hy, hR⟩ := hx
      rw [if_pos hp, hy]
      exact .cons hR ih
    · rename_i hp
      rwa [if_neg hp, hx, List.nil_append]

/-- Reading a list position by position gives the list. -/
theorem flatMap_getElem? :
    ∀ {l : List α} {count : ℕ}, l.length ≤ count →
      ((List.range count).flatMap fun index => l[index]?.toList) = l
  | [], count, _ => by simp
  | x :: l, 0, h => by simp at h
  | x :: l, count + 1, h => by
    rw [List.range_succ_eq_map, List.flatMap_cons, List.flatMap_map]
    simp [flatMap_getElem? (show l.length ≤ count by simpa using h)]

/-- Forget the positions in a relation to positioned elements. -/
theorem forall₂_of_zipIdx {R : α × ℕ → β → Prop} {S : α → β → Prop} :
    ∀ {xs : List α} {n : ℕ} {ys : List β}, (∀ x ∈ xs, ∀ k y, R (x, k) y → S x y) →
      List.Forall₂ R (xs.zipIdx n) ys → List.Forall₂ S xs ys
  | [], _, _, _, .nil => .nil
  | x :: _, _, _, himp, .cons hx h =>
    .cons (himp x (by simp) _ _ hx) (forall₂_of_zipIdx (fun x hx => himp x (by simp [hx])) h)

@[simp] theorem foldlM_nil (f : σ → α → Checked σ) (s : σ) : [].foldlM f s = .ok s := rfl

theorem foldlM_cons_ok {f : σ → α → Checked σ} {s t : σ} {x : α} {xs : List α} :
    (x :: xs).foldlM f s = .ok t ↔ ∃ m, f s x = .ok m ∧ xs.foldlM f m = .ok t := by
  rw [List.foldlM_cons, bind_ok]

theorem foldlM_append_ok {f : σ → α → Checked σ} :
    ∀ {xs ys : List α} {s t : σ},
      (xs ++ ys).foldlM f s = .ok t ↔ ∃ m, xs.foldlM f s = .ok m ∧ ys.foldlM f m = .ok t
  | [], ys, s, t => by simp
  | x :: xs, ys, s, t => by
    simp only [List.cons_append, foldlM_cons_ok, foldlM_append_ok]
    grind

/-- What every step of a fold keeps, relative to the elements it has passed, holds of the
whole fold. -/
theorem foldlM_invariant {f : σ → α → Checked σ} (Inv : List α → σ → Prop) :
    ∀ {passed xs : List α} {s t : σ}, Inv passed s →
      (∀ passed' x rest s s', passed ++ xs = passed' ++ x :: rest → Inv passed' s →
        f s x = .ok s' → Inv (passed' ++ [x]) s') →
      xs.foldlM f s = .ok t → Inv (passed ++ xs) t
  | passed, [], s, t, hs, _, h => by
    obtain rfl : s = t := by simpa using h
    simpa using hs
  | passed, x :: xs, s, t, hs, hstep, h => by
    obtain ⟨m, hm, h⟩ := foldlM_cons_ok.mp h
    have hmid : Inv (passed ++ [x]) m := hstep passed x xs s m rfl hs hm
    have hrest : Inv ((passed ++ [x]) ++ xs) t := foldlM_invariant Inv hmid
      (fun passed' y rest s s' hsplit => hstep passed' y rest s s' (by simpa using hsplit)) h
    simpa using hrest

end Checked

/-! ## Stateful computations -/

/-- A computation that edits a state and may fail. A failure leaves the state as it is at
that point. -/
abbrev Stateful (σ : Type) := ExceptT String (StateM σ)

namespace Stateful

variable {σ α β : Type}

/-- Run a computation : what it returns and the state it leaves. -/
def exec (m : Stateful σ α) (s : σ) : Checked α × σ := m.run.run s

/-- A checked computation that does not touch the state. -/
def check (x : Checked α) : Stateful σ α := liftExcept x

@[simp] theorem exec_pure (a : α) (s : σ) : exec (pure a) s = (.ok a, s) := rfl

@[simp] theorem exec_check (x : Checked α) (s : σ) : exec (check x) s = (x, s) := by
  cases x <;> rfl

@[simp] theorem exec_get (s : σ) : exec get s = (.ok s, s) := rfl

@[simp] theorem exec_set (s t : σ) : exec (set t) s = (.ok (), t) := rfl

@[simp] theorem exec_modify (f : σ → σ) (s : σ) : exec (modify f) s = (.ok (), f s) := rfl

theorem exec_bind (m : Stateful σ α) (f : α → Stateful σ β) (s : σ) :
    exec (m >>= f) s =
      match exec m s with
      | (.ok a, t) => exec (f a) t
      | (.error e, t) => (.error e, t) := by
  unfold exec
  simp only [ExceptT.run_bind, StateT.run_bind]
  generalize StateT.run (ExceptT.run m) s = r
  obtain ⟨_ | _, t⟩ := r <;> rfl

theorem exec_bind_ok {m : Stateful σ α} {f : α → Stateful σ β} {s u : σ} {b : β} :
    exec (m >>= f) s = (.ok b, u) ↔
      ∃ a t, exec m s = (.ok a, t) ∧ exec (f a) t = (.ok b, u) := by
  rw [exec_bind]
  rcases exec m s with ⟨_ | a, t⟩ <;> simp

theorem exec_check_bind (x : Checked α) (f : α → Stateful σ β) (s : σ) :
    exec (check x >>= f) s =
      match x with
      | .ok a => exec (f a) s
      | .error e => (.error e, s) := by
  rw [exec_bind, exec_check]
  cases x <;> rfl

theorem exec_check_bind_ok {x : Checked α} {f : α → Stateful σ β} {s u : σ} {b : β} :
    exec (check x >>= f) s = (.ok b, u) ↔ ∃ a, x = .ok a ∧ exec (f a) s = (.ok b, u) := by
  rw [exec_check_bind]
  cases x <;> simp

/-! ## What a computation leaves alone -/

/-- The state keeps its `view` whether the computation succeeds or fails. -/
def Keeps {γ : Type*} (view : σ → γ) (m : Stateful σ α) : Prop :=
  ∀ s, view (exec m s).2 = view s

variable {γ : Type*} {view : σ → γ}

theorem Keeps.pure (a : α) : Keeps view (Pure.pure a : Stateful σ α) := fun _ => rfl

theorem Keeps.check (x : Checked α) : Keeps view (Stateful.check x : Stateful σ α) := fun s => by
  simp

theorem Keeps.bind {m : Stateful σ α} {f : α → Stateful σ β} (hm : Keeps view m)
    (hf : ∀ a, Keeps view (f a)) : Keeps view (m >>= f) := fun s => by
  rw [exec_bind]
  have h := hm s
  rcases hr : exec m s with ⟨_ | a, t⟩
  · simpa [hr] using h
  · simpa [hr] using (hf a t).trans (by simpa [hr] using h)

theorem Keeps.forM {f : α → Stateful σ Unit} :
    ∀ {xs : List α}, (∀ x ∈ xs, Keeps view (f x)) → Keeps view (xs.forM f)
  | [], _ => Keeps.pure _
  | x :: xs, h => by
    rw [show (x :: xs).forM f = (f x >>= fun _ => xs.forM f) from List.forM_cons ..]
    exact Keeps.bind (h x (by simp)) fun _ => Keeps.forM fun y hy => h y (by simp [hy])

end Stateful
