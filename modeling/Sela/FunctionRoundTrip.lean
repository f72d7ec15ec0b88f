import Sela.SwitchRoundTrip

/-!
# Merged functions are each target's own

By what shared values stand for and by the groups of blocks, the shared function reads as the
function of any of the targets : its blocks there are the target's in their order, and their
operations are the target's, each in its place, but for casts that change nothing on that
target (`mergeFunction_reads`).
-/

namespace Sela

open Checked Correspondence Stateful

namespace Merger

/-! ## Operations -/

/-- A shared operation is an operation of a target, in the names and identities the target
has. -/
structure ReadsOperation (target : TargetInfo) (history : History) (blocks : ℕ → Option ℕ)
    (own shared : Operation) : Prop where
  name : shared.name = own.name
  attributes : AttributesRead target own.attributes shared.attributes
  operands : shared.operands.map (history.own target) = own.operands.map some
  results : shared.results.map (history.own target) = own.results.map some
  successors : own.successors.map blocks = shared.successors.map some

/-- A shared operation or switch is a target's. -/
def ReadsAs (target : TargetInfo) (history : History) (blocks : ℕ → Option ℕ)
    (own shared : Operation) : Prop :=
  if own.name = "sela.switch" then ReadsSwitch target history blocks own shared
  else ReadsOperation target history blocks own shared

theorem ReadsEdge.mono {target : TargetInfo} {history history' : History} {blocks : ℕ → Option ℕ}
    {own shared : Edge} (h : ReadsEdge target history blocks own shared)
    (hextends : history <+: history') : ReadsEdge target history' blocks own shared :=
  ⟨h.label, h.successor, History.map_own_mono hextends h.arguments⟩

theorem ReadsAs.mono {target : TargetInfo} {history history' : History} {blocks : ℕ → Option ℕ}
    {own shared : Operation} (h : ReadsAs target history blocks own shared)
    (hextends : history <+: history') : ReadsAs target history' blocks own shared := by
  unfold ReadsAs at h ⊢
  split
  · rw [if_pos ‹_›] at h
    obtain ⟨selector, common, hown, hshared, hstands⟩ := h.selector
    obtain ⟨default, cases, domains, hedges, hlabel, hdomains, hread⟩ := h.edges
    exact ⟨h.name, h.results, ⟨selector, common, hown, hshared, History.own_mono hextends hstands⟩,
      ⟨default, cases, domains, hedges, hlabel, hdomains, hread.imp fun _ _ h => h.mono hextends⟩⟩
  · rw [if_neg ‹_›] at h
    exact ⟨h.name, h.attributes, History.map_own_mono hextends h.operands,
      History.map_own_mono hextends h.results, h.successors⟩

/-- The shared block that each target's successor is in. -/
theorem mergeSuccessor_ok {blocks : TargetInfo → ℕ → Option ℕ}
    {operations : Observations TargetInfo Operation} {k common : ℕ}
    (h : mergeSuccessor blocks operations k = .ok common) {target : TargetInfo} {own : Operation}
    (hmem : (target, own) ∈ operations) {successor : ℕ} (hsuccessor : own.successors[k]? = some successor) :
    blocks target successor = some common := by
  obtain ⟨result, hresult, h⟩ := bind_ok.mp h
  obtain rfl := require_ok.mp h
  have hall : ∀ (entries : Observations TargetInfo ℕ) (start result : Option ℕ),
      entries.foldlM (fun common entry => do
        let mapped ← require (blocks entry.1 entry.2)
          "N-target merge: branch successors lack common correspondence"
        expect (common = none ∨ common = some mapped) "branch successors lack common correspondence"
        pure (some mapped)) start = .ok result →
      (∀ common, start = some common → result = some common) ∧
        ∀ entry ∈ entries, blocks entry.1 entry.2 = result := by
    intro entries
    induction entries with
    | nil =>
      intro start result hfold
      obtain rfl := Except.ok.inj hfold
      exact ⟨fun _ => id, by simp⟩
    | cons entry entries ih =>
      intro start result hfold
      obtain ⟨next, hnext, hfold⟩ := foldlM_cons_ok.mp hfold
      obtain ⟨mapped, hmapped, hnext⟩ := bind_ok.mp hnext
      obtain ⟨_, hsame, hnext⟩ := bind_ok.mp hnext
      obtain rfl := Except.ok.inj hnext
      obtain ⟨hkeeps, hrest⟩ := ih _ _ hfold
      refine ⟨fun common hstart => hkeeps common ?_, List.forall_mem_cons.mpr ⟨?_, hrest⟩⟩
      · rw [hstart] at hsame
        simpa [eq_comm] using expect_ok.mp hsame
      · rw [require_ok.mp hmapped, hkeeps mapped rfl]
  refine (hall _ _ _ hresult).2 (target, successor) (mem_nth.mpr ⟨own.successors, ?_, hsuccessor⟩)
  exact List.mem_map.mpr ⟨_, hmem, rfl⟩

theorem Yields.mergeOperation {ids : List TargetInfo} {blocks : TargetInfo → ℕ → Option ℕ}
    {operations : Observations TargetInfo Operation} (h : OnTargets ids operations)
    (hregistered : ∀ target ∈ ids, target ∈ targets.all)
    (hconcrete : ∀ entry ∈ operations, ResolvedOperation entry.1 entry.2) :
    Yields (mergeOperation ids blocks operations) fun history shared => ∀ target own,
      (target, own) ∈ operations → ReadsAs target history (blocks target) own shared := by
  match operations with
  | [] =>
    intro history s shared s' hs h'
    simp [Merger.mergeOperation, fail] at h'
  | first :: rest =>
    unfold Merger.mergeOperation
    dsimp only
    split
    · rename_i hnames
      refine (Yields.mergeSwitch h hregistered hconcrete hnames).imp
        fun history shared hread target own hmem => ?_
      rw [ReadsAs, if_pos (hnames _ hmem)]
      exact hread target own hmem
    · rename_i hnames
      generalize hoperations : first :: rest = operations at *
      intro history s shared s' hs h'
      obtain ⟨_, hshape, h'⟩ := exec_check_bind_ok.mp h'
      have hshape := expect_ok.mp hshape
      obtain ⟨attrs, s₁, hattrs, h'⟩ := exec_bind_ok.mp h'
      obtain ⟨types, s₂, htypes, h'⟩ := exec_bind_ok.mp h'
      obtain ⟨operands, s₃, hoperands, h'⟩ := exec_bind_ok.mp h'
      obtain ⟨successors, s₄, hsuccessors, h'⟩ := exec_bind_ok.mp h'
      obtain ⟨results, s₅, hresults, h'⟩ := exec_bind_ok.mp h'
      obtain ⟨hshared, rfl⟩ := Prod.mk.inj h'
      obtain rfl := Except.ok.inj hshared
      have hon : ∀ {β : Type} (part : Operation → β),
          OnTargets ids (operations.map fun entry => (entry.1, part entry.2)) := fun part =>
        h.sublist (by simp [Function.comp_def])
      have hin : ∀ {β : Type} {part : Operation → β} {target : TargetInfo} {value : β},
          (target, value) ∈ operations.map (fun entry => (entry.1, part entry.2)) →
          ∃ own, (target, own) ∈ operations ∧ part own = value := fun hvalue => by
        obtain ⟨entry, hentry, heq⟩ := List.mem_map.mp hvalue
        obtain ⟨rfl, rfl⟩ := Prod.mk.inj heq
        exact ⟨entry.2, hentry, rfl⟩
      obtain ⟨history₁, hextends₁, hs₁, m, m', hattrs⟩ := Yields.inMerger _ _ _ _ _ hs hattrs
      have hvalues : ∀ k target value,
          (target, value) ∈ nth k (operations.map fun entry => (entry.1, entry.2.results)) →
          value.type.Concrete target.id := fun k target value hvalue => by
        obtain ⟨values, hvalues, hvalue⟩ := mem_nth.mp hvalue
        obtain ⟨own, hown, rfl⟩ := hin hvalues
        exact (hconcrete _ hown).results value (List.mem_of_getElem? hvalue)
      obtain ⟨history₂, hextends₂, hs₂, htypes⟩ := Yields.mapM
        (Q := fun k _ type => ∀ target value,
          (target, value) ∈ nth k (operations.map fun entry => (entry.1, entry.2.results)) →
          Resembles target value.type type) (fun _ _ _ _ _ => id)
        (fun k _ => Yields.mergeType ((hon Operation.results).nth k).nodup
          (fun entry hentry => hregistered _ (((hon Operation.results).nth k).subset entry hentry))
          (hvalues k)) _ _ _ _ hs₁ htypes
      obtain ⟨history₃, hextends₃, hs₃, hoperands⟩ := Yields.operandsOf (hon Operation.operands)
        (fun target values hvalues => by
          obtain ⟨own, hown, rfl⟩ := hin hvalues
          exact (hshape _ hown).2.1) _ _ _ _ hs₂ hoperands
      obtain ⟨history₄, hextends₄, hs₄, hsuccessors⟩ := Yields.mapM
        (Q := fun k _ successor => mergeSuccessor blocks operations k = .ok successor)
        (fun _ _ _ _ _ => id) (fun k _ => Yields.check _) _ _ _ _ hs₃ hsuccessors
      have htyped : ∀ type ∈ types.zipIdx, ∀ target value, (target, value) ∈ nth type.2
          (operations.map fun entry => (entry.1, entry.2.results)) →
          Resembles target value.type type.1 := by
        intro type htype
        obtain ⟨k, hk, hresembles⟩ := forall₂_getElem? htypes.flip
          (List.mem_zipIdx_iff_getElem?.mp htype)
        obtain ⟨hlt, heq⟩ := List.getElem?_eq_some_iff.mp hk
        rw [List.getElem_range] at heq
        exact heq ▸ hresembles
      obtain ⟨history₅, hextends₅, hs₅, hresults⟩ := Yields.mapM
        (Q := fun type : SelaType × ℕ => StandsFor
          (nth type.2 (operations.map fun entry => (entry.1, entry.2.results))))
        (fun type => stable_standsFor _) (fun type htype => Yields.addValue
          ((hon Operation.results).nth type.2) (hvalues type.2) (htyped type htype)) _ _ _ _ hs₄ hresults
      have hresults : List.Forall₂ (fun k shared => StandsFor
          (nth k (operations.map fun entry => (entry.1, entry.2.results))) history₅ shared)
          (List.range first.2.results.length) results := by
        have hrange : types.zipIdx.map Prod.snd = List.range first.2.results.length := by
          rw [List.zipIdx_map_snd, ← htypes.length_eq, List.length_range, List.range_eq_range']
        rw [← hrange, List.forall₂_map_left_iff]
        exact hresults
      refine ⟨history₅, (((hextends₁.trans hextends₂).trans hextends₃).trans hextends₄).trans hextends₅,
        hs₅, fun target own hmem => ?_⟩
      obtain ⟨hname, hoperandCount, hresultCount, hsuccessorCount⟩ := hshape _ hmem
      dsimp only at hname hoperandCount hresultCount hsuccessorCount
      have hswitch : own.name ≠ "sela.switch" := fun heq => hnames fun entry hentry =>
        ((hshape entry hentry).1.trans hname.symm).trans heq
      rw [ReadsAs, if_neg hswitch]
      refine ⟨hname.symm, ?_, ?_, ?_, ?_⟩
      · have hread := attributes_read (hon Operation.attributes).nodup
          (fun entry hentry => hregistered _ ((hon Operation.attributes).subset entry hentry))
          (fun target attributes hvalue => by
            obtain ⟨own, hown, rfl⟩ := hin hvalue
            exact (hconcrete _ hown).attributes.concrete) hattrs (List.mem_map.mpr ⟨_, hmem, rfl⟩)
        exact fun name => hread.1 name List.not_mem_nil
      · exact History.map_own_mono (hextends₄.trans hextends₅)
          (hoperands target own.operands (List.mem_map.mpr ⟨_, hmem, rfl⟩))
      · refine forall₂_standsFor (fun target values hvalues => ?_) hresults
          (List.mem_map.mpr ⟨_, hmem, rfl⟩)
        obtain ⟨own, hown, rfl⟩ := hin hvalues
        exact (hshape _ hown).2.2.1
      · have hcount : successors.length = own.successors.length := by
          rw [← hsuccessors.length_eq, List.length_range, hsuccessorCount]
        refine List.ext_getElem? fun k => ?_
        rw [List.getElem?_map, List.getElem?_map]
        by_cases hk : k < own.successors.length
        · obtain ⟨common, hcommon, hmerged⟩ := forall₂_getElem? hsuccessors
            (List.getElem?_range (hsuccessorCount ▸ hk))
          have hsuccessor := List.getElem?_eq_getElem hk
          rw [hsuccessor, hcommon, Option.map_some, Option.map_some,
            mergeSuccessor_ok hmerged hmem hsuccessor]
        · rw [List.getElem?_eq_none (Nat.le_of_not_lt hk),
            List.getElem?_eq_none (show successors.length ≤ k by omega)]
          rfl

/-! ## Casts -/

/-- What a target has of a shared cast that it has a cast for. -/
def nativeCast (operation : Operation) : Operation :=
  ⟨"sela.cast", [("opcode", .string ("native_" ++ opcode operation))], operation.operands,
    operation.results, []⟩

/-- What a target has of a shared cast that it has no cast for. -/
def identityCast (value : Value) : Operation :=
  ⟨"sela.cast", [("opcode", .string "native_zext")], [value], [value], []⟩

theorem isCast_values {operation : Operation} (h : isCast operation = true) :
    ∃ source result, operation.operands = [source] ∧ operation.results = [result] := by
  unfold isCast at h
  simp only [Bool.and_eq_true] at h
  obtain ⟨-, h⟩ := h
  split at h
  · rename_i source result hoperands hresults
    exact ⟨source, result, hoperands, hresults⟩
  · simp at h

theorem attributesRead_singleton {target : TargetInfo} {name : String} {own shared : Attr}
    (h : AttrResembles (numericName name) target own shared) :
    AttributesRead target [(name, own)] [(name, shared)] := by
  intro other
  rw [Attributes.get_cons, Attributes.get_cons]
  split
  · rename_i hname
    exact .some (hname ▸ h)
  · exact .none

/-- The keys of a list made key by key are among the keys, in their order. -/
theorem keys_filterMap_sublist {κ α : Type} (f : κ → Option α) : ∀ keys : List κ,
    ((keys.filterMap fun key => (f key).map fun value => (key, value)).map Prod.fst).Sublist keys
  | [] => .slnil
  | key :: keys => by
    have ih := keys_filterMap_sublist f keys
    rw [List.filterMap_cons]
    cases f key with
    | none => exact ih.cons _
    | some value => exact ih.cons_cons _

/-- An opcode chosen for each of the targets is the one of each. -/
theorem opcode_read {present : List TargetInfo} (text : TargetInfo → String)
    (hnodup : present.Nodup) (hregistered : ∀ target ∈ present, target ∈ targets.all)
    {target : TargetInfo} (hmem : target ∈ present) :
    AttributesRead target [("opcode", .string (text target))]
      [("opcode", choice (present.map fun target => (target, .string (text target))))] := by
  have hobserved : ConcreteAttrs (numericName "opcode")
      (present.map fun target => (target, .string (text target))) := by
    refine ⟨by simpa [Function.comp_def] using hnodup, fun t attr hattr => ?_, fun t attr hattr => ?_⟩
    all_goals
      obtain ⟨t', ht', heq⟩ := List.mem_map.mp hattr
      obtain ⟨rfl, rfl⟩ := Prod.mk.inj heq
    · exact hregistered _ ht'
    · simp [Attr.Concrete, numericName]
  exact attributesRead_singleton ⟨_, specializeAttribute_choice hobserved
    (List.mem_map.mpr ⟨target, hmem, rfl⟩), rfl⟩

theorem Yields.mergeCast {ids present : List TargetInfo} {casts : Observations TargetInfo Operation}
    (blocks : TargetInfo → ℕ → Option ℕ) (hnodup : present.Nodup) (hsubset : present ⊆ ids)
    (hregistered : ∀ target ∈ ids, target ∈ targets.all) (hcasts : (casts.map Prod.fst).Nodup)
    (hconcrete : ∀ entry ∈ casts, ResolvedOperation entry.1 entry.2)
    (hisCast : ∀ entry ∈ casts, isCast entry.2 = true) :
    Yields (mergeCast ids present casts) fun history shared => ∀ target ∈ present,
      (∀ own, casts.lookup target = some own →
        ReadsOperation target history (blocks target) (nativeCast own) shared) ∧
      (casts.lookup target = none → ∃ value,
        ReadsOperation target history (blocks target) (identityCast value) shared) := by
  intro history s shared s' hs h
  unfold Merger.mergeCast at h
  obtain ⟨building, t, hget, h⟩ := exec_bind_ok.mp h
  obtain ⟨hbuilding, rfl⟩ := Prod.mk.inj hget
  obtain rfl := Except.ok.inj hbuilding
  dsimp only at h
  split at h
  · simp [fail] at h
  · rename_i entry hentry
    have hmem : entry ∈ s.values ∧ _ := List.mem_filter.mp (by rw [hentry]; simp)
    obtain ⟨hmem, hmatches⟩ := hmem
    obtain ⟨hsources, hpresent⟩ := Bool.and_eq_true_iff.mp hmatches
    obtain ⟨type, s₁, htype, h⟩ := exec_bind_ok.mp h
    obtain ⟨result, s₂, hresult, h⟩ := exec_bind_ok.mp h
    obtain ⟨hshared, rfl⟩ := Prod.mk.inj h
    obtain rfl := Except.ok.inj hshared
    have hsource : ∀ target value, entry.1.lookup target = some value →
        History.own history target entry.2 = some value := fun target value hvalue => by
      rw [History.own, hs.values entry.1 entry.2 hmem]
      exact hvalue
    -- What each target has in the place of the result.
    have horiginal : ∀ target value, (target, value) ∈ (present.filterMap fun target =>
          (castResult casts entry.1 target).map fun value => (target, value)) →
        value.type.Concrete target.id := by
      intro target value hvalue
      obtain ⟨target', -, hvalue⟩ := List.mem_filterMap.mp hvalue
      obtain ⟨value', hoption, heq⟩ := Option.map_eq_some_iff.mp hvalue
      obtain ⟨rfl, rfl⟩ := Prod.mk.inj heq
      unfold castResult at hoption
      split at hoption
      · rename_i cast hcast
        have hcast := (Association.lookup_eq_some_iff_mem hcasts).mp hcast
        exact (hconcrete _ hcast).results _ (List.mem_of_head? hoption)
      · exact hs.wellFormed.concrete _ _ _ (hsource _ _ hoption)
    have hon : OnTargets ids (present.filterMap fun target =>
          (castResult casts entry.1 target).map fun value => (target, value)) := by
      refine ⟨hnodup.sublist (keys_filterMap_sublist _ present), fun observation hobservation => ?_⟩
      exact hsubset ((keys_filterMap_sublist _ present).subset (List.mem_map_of_mem hobservation))
    obtain ⟨history₁, hextends₁, hs₁, htype⟩ := Yields.mergeType hon.nodup
      (fun observation hobservation => hregistered _ (hon.subset observation hobservation))
      horiginal _ _ _ _ hs htype
    obtain ⟨history₂, hextends₂, hs₂, hresult⟩ := Yields.addValue hon horiginal htype _ _ _ _ hs₁ hresult
    have hextends := hextends₁.trans hextends₂
    refine ⟨history₂, hextends, hs₂, fun target htarget => ⟨fun own hown => ?_, fun hnone => ?_⟩⟩
    · have hmemCast := (Association.lookup_eq_some_iff_mem hcasts).mp hown
      obtain ⟨source, result', hoperands, hresults⟩ := isCast_values (hisCast _ hmemCast)
      have hread := opcode_read (castOpcode casts) hnodup
        (fun t ht => hregistered t (hsubset ht)) htarget
      rw [castOpcode, hown] at hread
      refine ⟨rfl, hread, ?_, ?_, rfl⟩
      · have hlookup := of_decide_eq_true (List.all_eq_true.mp hsources _ hmemCast)
        rw [hoperands, List.head?_cons] at hlookup
        change [entry.2].map (History.own history₂ target) = own.operands.map some
        rw [hoperands, List.map_singleton, History.own_mono hextends (hsource target source hlookup)]
        rfl
      · change [result].map (History.own history₂ target) = own.results.map some
        rw [hresults, List.map_singleton, hresult target result' ?_]
        · rfl
        · have hhead : own.results.head? = some result' := by rw [show own.results = _ from hresults]; rfl
          exact List.mem_filterMap.mpr ⟨target, htarget, by rw [castResult, hown]; exact congrArg _ hhead⟩
    · obtain ⟨value, hvalue⟩ := Option.isSome_iff_exists.mp
        (List.all_eq_true.mp hpresent target htarget)
      have hread := opcode_read (castOpcode casts) hnodup
        (fun t ht => hregistered t (hsubset ht)) htarget
      rw [castOpcode, hnone] at hread
      refine ⟨value, rfl, hread, ?_, ?_, rfl⟩
      · change [entry.2].map (History.own history₂ target) = [value].map some
        rw [List.map_singleton, History.own_mono hextends (hsource target value hvalue)]
        rfl
      · change [result].map (History.own history₂ target) = [value].map some
        rw [List.map_singleton, hresult target value ?_]
        · rfl
        · exact List.mem_filterMap.mpr ⟨target, htarget, by rw [castResult, hnone, hvalue]; rfl⟩
  · simp [fail] at h

/-! ## The operations of a block -/

/-- The operations of a target's block. A cast of its own that other targets do without comes
back as the native cast of its opcode, with no other attribute; and where one of the others has
a cast, a value of the target may be cast to itself. -/
inductive WithCasts (others : Operation → Prop) : List Operation → List Operation → Prop
  | nil : WithCasts others [] []
  | keep {own read : List Operation} (operation : Operation) (h : WithCasts others own read) :
    WithCasts others (operation :: own) (operation :: read)
  | cast {own read : List Operation} (operation : Operation) (hcast : isCast operation = true)
      (h : WithCasts others own read) :
    WithCasts others (operation :: own) (nativeCast operation :: read)
  | insert {own read : List Operation} (value : Value) {other : Operation} (hother : others other)
      (hcast : isCast other = true) (h : WithCasts others own read) :
    WithCasts others own (identityCast value :: read)

theorem WithCasts.imp {others others' : Operation → Prop}
    (himp : ∀ operation, others operation → others' operation) {own read : List Operation}
    (h : WithCasts others own read) : WithCasts others' own read := by
  induction h with
  | nil => exact .nil
  | keep operation _ ih => exact .keep operation ih
  | cast operation hcast _ ih => exact .cast operation hcast ih
  | insert value hother hcast _ ih => exact .insert value (himp _ hother) hcast ih

/-- Shared operations are those of a target's block, in their order. -/
def ReadsAll (others : Operation → Prop) (target : TargetInfo) (history : History)
    (blocks : ℕ → Option ℕ) (own shared : List Operation) : Prop :=
  ∃ read, WithCasts others own read ∧ List.Forall₂ (ReadsAs target history blocks) read shared

theorem ReadsAll.mono {others others' : Operation → Prop} {target : TargetInfo}
    {history history' : History} {blocks : ℕ → Option ℕ} {own shared : List Operation}
    (h : ReadsAll others target history blocks own shared)
    (himp : ∀ operation, others operation → others' operation) (hextends : history <+: history') :
    ReadsAll others' target history' blocks own shared := by
  obtain ⟨read, hcasts, hread⟩ := h
  exact ⟨read, hcasts.imp himp, hread.imp fun _ _ h => h.mono hextends⟩

/-- The operations still to come on the targets but one. -/
def RestElsewhere (cursors : Observations TargetInfo Cursor) (target : TargetInfo)
    (operation : Operation) : Prop :=
  ∃ entry ∈ cursors, entry.1 ≠ target ∧ operation ∈ entry.2.rest

/-- What is still to come after a step was to come before it. -/
theorem RestElsewhere.of_advance {pass : TargetInfo × Cursor → Cursor}
    {cursors : Observations TargetInfo Cursor}
    (hpass : ∀ entry ∈ cursors, pass entry = entry.2 ∨ pass entry = entry.2.advance)
    {target : TargetInfo} (operation : Operation)
    (h : RestElsewhere (cursors.map fun entry => (entry.1, pass entry)) target operation) :
    RestElsewhere cursors target operation := by
  obtain ⟨_, hentry, hne, hoperation⟩ := h
  obtain ⟨source, hsource, rfl⟩ := List.mem_map.mp hentry
  refine ⟨source, hsource, hne, ?_⟩
  rcases hpass source hsource with heq | heq <;> rw [heq] at hoperation
  · exact hoperation
  · exact List.mem_of_mem_tail hoperation

theorem OnTargets.heads {ids : List TargetInfo} {cursors : Observations TargetInfo Cursor}
    (h : OnTargets ids cursors) : OnTargets ids (heads cursors) := by
  refine h.sublist ?_
  unfold Merger.heads
  rw [List.map_filterMap]
  refine filterMap_fst_sublist fun entry target htarget => ?_
  obtain ⟨value, hvalue, rfl⟩ := Option.map_eq_some_iff.mp htarget
  obtain ⟨operation, -, rfl⟩ := Option.map_eq_some_iff.mp hvalue
  rfl

theorem OnTargets.advance {ids : List TargetInfo} {cursors : Observations TargetInfo Cursor}
    (h : OnTargets ids cursors) (pass : TargetInfo × Cursor → Cursor) :
    OnTargets ids (cursors.map fun entry => (entry.1, pass entry)) :=
  h.sublist (by simp [Function.comp_def])

/-- The operations still to come of a block are operations of it. -/
theorem mem_advance {pass : TargetInfo × Cursor → Cursor} {cursors : Observations TargetInfo Cursor}
    {P : TargetInfo → Operation → Prop}
    (hpass : ∀ entry ∈ cursors, pass entry = entry.2 ∨ pass entry = entry.2.advance)
    (h : ∀ entry ∈ cursors, ∀ operation ∈ entry.2.rest, P entry.1 operation) :
    ∀ entry ∈ cursors.map fun entry => (entry.1, pass entry), ∀ operation ∈ entry.2.rest,
      P entry.1 operation := by
  intro entry hentry operation hoperation
  obtain ⟨source, hsource, rfl⟩ := List.mem_map.mp hentry
  refine h source hsource operation ?_
  rcases hpass source hsource with heq | heq <;> rw [heq] at hoperation
  · exact hoperation
  · exact List.mem_of_mem_tail hoperation

theorem Yields.mergeInstructions {ids : List TargetInfo} {blocks : TargetInfo → ℕ → Option ℕ}
    (hregistered : ∀ target ∈ ids, target ∈ targets.all)
    (cursors : Observations TargetInfo Cursor) (h : OnTargets ids cursors)
    (hconcrete : ∀ entry ∈ cursors, ∀ operation ∈ entry.2.rest,
      ResolvedOperation entry.1 operation) :
    Yields (mergeInstructions ids blocks cursors) fun history shared => ∀ entry ∈ cursors,
      ReadsAll (RestElsewhere cursors entry.1) entry.1 history (blocks entry.1) entry.2.rest
        shared := by
  induction cursors using mergeInstructions.induct with
  | case1 cursors hnone =>
    rw [Merger.mergeInstructions, dif_pos hnone]
    refine Yields.pure fun history entry hentry => ⟨[], ?_, .nil⟩
    cases hrest : entry.2.rest with
    | nil => exact .nil
    | cons operation rest =>
      have := mem_heads.mpr ⟨entry.2, hentry, (congrArg List.head? hrest).trans List.head?_cons⟩
      simp [hnone] at this
  | case2 cursors hnone hagree ih =>
    have ih := ih (h.advance _) (mem_advance (fun _ _ => .inr rfl) hconcrete)
    rw [Merger.mergeInstructions, dif_neg hnone, if_pos hagree]
    intro history s shared s' hs h'
    obtain ⟨operation, s₁, hoperation, h'⟩ := exec_bind_ok.mp h'
    obtain ⟨rest, s₂, hrest, h'⟩ := exec_bind_ok.mp h'
    obtain ⟨hshared, rfl⟩ := Prod.mk.inj h'
    obtain rfl := Except.ok.inj hshared
    obtain ⟨history₁, hextends₁, hs₁, hoperation⟩ := Yields.mergeOperation h.heads hregistered
      (fun entry hentry => by
        obtain ⟨cursor, hcursor, hhead⟩ := mem_heads.mp hentry
        exact hconcrete _ hcursor _ (List.mem_of_head? hhead)) _ _ _ _ hs hoperation
    obtain ⟨history₂, hextends₂, hs₂, hrest⟩ := ih _ _ _ _ hs₁ hrest
    refine ⟨history₂, hextends₁.trans hextends₂, hs₂, fun entry hentry => ?_⟩
    obtain ⟨own, tail, hcons⟩ := List.exists_cons_of_ne_nil (hagree.1 entry hentry)
    obtain ⟨read, hcasts, hread⟩ := hrest (entry.1, entry.2.advance)
      (List.mem_map.mpr ⟨entry, hentry, rfl⟩)
    have hown := hoperation entry.1 own (mem_heads.mpr ⟨entry.2, hentry, by rw [hcons]; rfl⟩)
    rw [show entry.2.advance.rest = tail from congrArg List.tail hcons] at hcasts
    have hcasts := hcasts.imp (RestElsewhere.of_advance fun _ _ => .inr rfl)
    rw [hcons]
    exact ⟨own :: read, hcasts.keep own, .cons (hown.mono hextends₂) hread⟩
  | case3 cursors hnone hagree hcasts =>
    rw [Merger.mergeInstructions, dif_neg hnone, if_neg hagree, dif_pos hcasts]
    exact (Yields.check _).imp fun _ _ h => by simp [fail] at h
  | case4 cursors hnone hagree hcasts ih =>
    have ih := ih (h.advance _) (mem_advance (fun entry _ => by
        by_cases heq : (nextCasts cursors).lookup entry.1 = none
        · exact .inl (if_pos heq)
        · exact .inr (if_neg heq)) hconcrete)
    rw [Merger.mergeInstructions, dif_neg hnone, if_neg hagree, dif_neg hcasts]
    intro history s shared s' hs h'
    obtain ⟨operation, s₁, hoperation, h'⟩ := exec_bind_ok.mp h'
    obtain ⟨rest, s₂, hrest, h'⟩ := exec_bind_ok.mp h'
    obtain ⟨hshared, rfl⟩ := Prod.mk.inj h'
    obtain rfl := Except.ok.inj hshared
    have hsublist : ((nextCasts cursors).map Prod.fst).Sublist ((heads cursors).map Prod.fst) :=
      List.filter_sublist.map _
    have hcastsNodup := h.heads.nodup.sublist hsublist
    have hnext : ∀ entry ∈ nextCasts cursors, isCast entry.2 = true ∧
        ∃ cursor, (entry.1, cursor) ∈ cursors ∧ cursor.rest.head? = some entry.2 :=
      fun entry hentry => by
        obtain ⟨hmem, hcast⟩ := List.mem_filter.mp hentry
        exact ⟨hcast, mem_heads.mp hmem⟩
    obtain ⟨history₁, hextends₁, hs₁, hoperation⟩ := Yields.mergeCast blocks h.nodup
      (fun target htarget => by
        obtain ⟨entry, hentry, rfl⟩ := List.mem_map.mp htarget
        exact h.subset entry hentry) hregistered hcastsNodup
      (fun entry hentry => by
        obtain ⟨-, cursor, hcursor, hhead⟩ := hnext entry hentry
        exact hconcrete _ hcursor _ (List.mem_of_head? hhead))
      (fun entry hentry => (hnext entry hentry).1) _ _ _ _ hs hoperation
    obtain ⟨history₂, hextends₂, hs₂, hrest⟩ := ih _ _ _ _ hs₁ hrest
    refine ⟨history₂, hextends₁.trans hextends₂, hs₂, fun entry hentry => ?_⟩
    obtain ⟨hcast, hskip⟩ := hoperation entry.1 (List.mem_map_of_mem hentry)
    obtain ⟨read, hrestCasts, hread⟩ := hrest _ (List.mem_map.mpr ⟨entry, hentry, rfl⟩)
    have hrestCasts := hrestCasts.imp (RestElsewhere.of_advance fun entry _ => by
      by_cases heq : (nextCasts cursors).lookup entry.1 = none
      · exact .inl (if_pos heq)
      · exact .inr (if_neg heq))
    have hreadsAs : ∀ own, own.name = "sela.cast" →
        ReadsOperation entry.1 history₁ (blocks entry.1) own operation →
        ReadsAs entry.1 history₂ (blocks entry.1) own operation := fun own hname hread => by
      refine ReadsAs.mono ?_ hextends₂
      rwa [ReadsAs, if_neg (by rw [hname]; decide)]
    cases hlookup : (nextCasts cursors).lookup entry.1 with
    | none =>
      rw [if_pos hlookup] at hrestCasts
      obtain ⟨value, hvalue⟩ := hskip hlookup
      -- The cast is one of another target, for this one has none here.
      obtain ⟨other, hother⟩ := List.exists_mem_of_ne_nil _ hcasts
      obtain ⟨hisCast, cursor, hcursor, hhead⟩ := hnext _ hother
      have hne : other.1 ≠ entry.1 := fun heq =>
        Association.lookup_eq_none_iff_mem.mp hlookup (heq ▸ List.mem_map_of_mem hother)
      exact ⟨_, hrestCasts.insert value ⟨_, hcursor, hne, List.mem_of_head? hhead⟩ hisCast,
        .cons (hreadsAs _ rfl hvalue) hread⟩
    | some own =>
      rw [if_neg (by rw [hlookup]; simp)] at hrestCasts
      obtain ⟨hisCast, cursor, hcursor, hhead⟩ := hnext _
        ((Association.lookup_eq_some_iff_mem hcastsNodup).mp hlookup)
      obtain rfl : cursor = entry.2 := by
        have := List.inj_on_of_nodup_map h.nodup hcursor hentry rfl
        rw [← this]
      obtain ⟨tail, hcons⟩ := List.head?_eq_some_iff.mp hhead
      dsimp only at hcons
      rw [show entry.2.advance.rest = tail from congrArg List.tail hcons] at hrestCasts
      rw [hcons]
      exact ⟨_, hrestCasts.cast own hisCast, .cons (hreadsAs _ rfl (hcast own hlookup)) hread⟩

/-! ## Blocks -/

/-- A shared block is a target's block. -/
structure ReadsBlock (others : Operation → Prop) (target : TargetInfo) (history : History)
    (blocks : ℕ → Option ℕ) (own shared : Block) : Prop where
  id : blocks own.id = some shared.id
  arguments : shared.arguments.map (history.own target) = own.arguments.map some
  operations : ReadsAll others target history blocks own.operations shared.operations

theorem Definition.nodup_body (definition : Definition) :
    (definition.body.map Block.id).Nodup := by
  unfold Sela.Definition.body
  cases definition.regions.head? with
  | none => simp
  | some region => exact region.nodup

/-- The blocks of the groups that a target has. -/
theorem forall₂_groups {target : TargetInfo} : ∀ {groups : List BlockGroup} {blocks : List Block},
    groups.filterMap (fun group => group target) = blocks.map Block.id →
    List.Forall₂ (fun (block : Block) (group : BlockGroup) => group target = some block.id) blocks
      (groups.filter fun group => (group target).isSome)
  | [], blocks, h => by
    obtain rfl := List.map_eq_nil_iff.mp h.symm
    exact .nil
  | group :: groups, blocks, h => by
    cases hgroup : group target with
    | none =>
      rw [List.filterMap_cons, hgroup] at h
      rw [List.filter_cons_of_neg (by simp [hgroup])]
      exact forall₂_groups h
    | some id =>
      rw [List.filterMap_cons, hgroup] at h
      obtain ⟨block, rest, rfl, rfl, hrest⟩ := List.map_eq_cons_iff.mp h.symm
      rw [List.filter_cons_of_pos (by simp [hgroup])]
      exact .cons hgroup (forall₂_groups hrest.symm)

/-- The group that a target's block is in. -/
theorem sharedBlock_eq {groups : List BlockGroup} {target : TargetInfo}
    (hnodup : (groups.filterMap fun group => group target).Nodup) {index block : ℕ}
    {group : BlockGroup} (hgroup : groups[index]? = some group) (hblock : group target = some block) :
    sharedBlock groups target block = some index := by
  obtain ⟨hlt, rfl⟩ := List.getElem?_eq_some_iff.mp hgroup
  refine List.findIdx?_eq_some_iff_getElem.mpr ⟨hlt, by simpa using hblock, fun j hj => ?_⟩
  have hpairwise := List.pairwise_iff_getElem.mp (List.pairwise_filterMap.mp hnodup) j index
    (hj.trans hlt) hlt hj
  simp only [decide_eq_true_eq]
  exact fun hsame => hpairwise _ hsame _ hblock rfl

theorem mem_sources {ids : List TargetInfo} {functions : Observations TargetInfo Definition}
    (hnodup : (functions.map Prod.fst).Nodup) {group : BlockGroup} {target : TargetInfo}
    {block : Block} : (target, block) ∈ sources ids functions group ↔
      target ∈ ids ∧ ∃ function, (target, function) ∈ functions ∧ block ∈ function.body ∧
        group target = some block.id := by
  simp only [sources, List.mem_filterMap, Option.bind_eq_some_iff, Option.map_eq_some_iff,
    Prod.mk.injEq]
  constructor
  · rintro ⟨target', htarget, id, hid, function, hfunction, found, hfound, rfl, rfl⟩
    have hfunction := (Association.lookup_eq_some_iff_mem hnodup).mp hfunction
    have hsame : found.id = id := by simpa using List.find?_some hfound
    exact ⟨htarget, function, hfunction, List.mem_of_find?_eq_some hfound, hsame ▸ hid⟩
  · rintro ⟨htarget, function, hfunction, hblock, hid⟩
    refine ⟨target, htarget, block.id, hid, function,
      (Association.lookup_eq_some_iff_mem hnodup).mpr hfunction, block, ?_, rfl, rfl⟩
    obtain ⟨found, hfound⟩ : ∃ found, function.body.find? (fun source => source.id = block.id) =
        some found := Option.isSome_iff_exists.mp (List.find?_isSome.mpr ⟨block, hblock, by simp⟩)
    have hsame : found.id = block.id := by simpa using List.find?_some hfound
    rw [hfound, List.inj_on_of_nodup_map (Definition.nodup_body function)
      (List.mem_of_find?_eq_some hfound) hblock hsame]

theorem onTargets_sources {ids : List TargetInfo} {functions : Observations TargetInfo Definition}
    (hids : ids.Nodup) (group : BlockGroup) : OnTargets ids (sources ids functions group) := by
  have hsublist : ((sources ids functions group).map Prod.fst).Sublist ids := by
    have heq : sources ids functions group = ids.filterMap fun target =>
        ((group target).bind fun block => (functions.lookup target).bind fun function =>
          function.body.find? fun source => source.id = block).map fun source => (target, source) := by
      simp only [sources, Option.map_bind, Function.comp_def]
    rw [heq]
    exact keys_filterMap_sublist _ ids
  refine ⟨hids.sublist hsublist, fun entry hentry => hsublist.subset (List.mem_map_of_mem hentry)⟩

/-- What is taken of each observation. -/
theorem mem_map_snd {α β : Type} {part : α → β} {observations : Observations TargetInfo α}
    {target : TargetInfo} {value : β} :
    (target, value) ∈ observations.map (fun entry => (entry.1, part entry.2)) ↔
      ∃ whole, (target, whole) ∈ observations ∧ part whole = value := by
  simp only [List.mem_map, Prod.mk.injEq]
  constructor
  · rintro ⟨⟨target', whole⟩, hmem, rfl, rfl⟩
    exact ⟨whole, hmem, rfl⟩
  · rintro ⟨whole, hmem, rfl⟩
    exact ⟨(target, whole), hmem, rfl, rfl⟩

theorem mem_body {definition : Definition} {block : Block} (h : block ∈ definition.body) :
    ∃ region ∈ definition.regions, block ∈ region.blocks := by
  unfold Definition.body at h
  cases hregion : definition.regions.head? with
  | none => simp [hregion] at h
  | some region =>
    rw [hregion] at h
    exact ⟨region, List.mem_of_head? hregion, h⟩

/-- The blocks of a group hold nothing but what their target sees. -/
theorem resolved_sources {ids : List TargetInfo} {functions : Observations TargetInfo Definition}
    (hnodup : (functions.map Prod.fst).Nodup)
    (hconcrete : ∀ entry ∈ functions, ResolvedDefinition entry.1 entry.2) {group : BlockGroup}
    {source : TargetInfo × Block} (hmem : source ∈ sources ids functions group) :
    (∀ value ∈ source.2.arguments, value.type.Concrete source.1.id) ∧
      ∀ operation ∈ source.2.operations, ResolvedOperation source.1 operation := by
  obtain ⟨-, function, hfunction, hown, -⟩ := (mem_sources hnodup).mp hmem
  obtain ⟨region, hregion, hblock⟩ := mem_body hown
  exact ⟨(hconcrete _ hfunction).arguments region hregion source.2 hblock,
    (hconcrete _ hfunction).operations region hregion source.2 hblock⟩

theorem Yields.mergeArguments {ids : List TargetInfo} {sources : Observations TargetInfo Block}
    (h : OnTargets ids sources) (hregistered : ∀ target ∈ ids, target ∈ targets.all)
    (hconcrete : ∀ entry ∈ sources, ∀ value ∈ entry.2.arguments, value.type.Concrete entry.1.id) :
    Yields (mergeArguments ids sources) fun history shareds => ∀ entry ∈ sources,
      shareds.map (history.own entry.1) = entry.2.arguments.map some := by
  intro history s shareds s' hs h'
  unfold Merger.mergeArguments at h'
  obtain ⟨_, hcount, h'⟩ := exec_check_bind_ok.mp h'
  have hcount := expect_ok.mp hcount
  have hlists : OnTargets ids (sources.map fun source => (source.1, source.2.arguments)) :=
    h.sublist (by simp [Function.comp_def])
  have hlength : ∀ target values,
      (target, values) ∈ sources.map (fun source => (source.1, source.2.arguments)) →
      values.length = (sources.head?.map fun source => source.2.arguments.length).getD 0 := by
    intro target values hvalues
    obtain ⟨block, hblock, rfl⟩ := mem_map_snd.mp hvalues
    exact hcount _ hblock
  obtain ⟨history', hextends, hs', hread⟩ := Yields.addValues hlists hregistered
    (fun target values hvalues => by
      obtain ⟨block, hblock, rfl⟩ := mem_map_snd.mp hvalues
      exact hconcrete _ hblock) hlength _ _ _ _ hs h'
  exact ⟨history', hextends, hs', fun entry hentry =>
    hread entry.1 entry.2.arguments (List.mem_map.mpr ⟨entry, hentry, rfl⟩)⟩

/-- The operations that the other targets have in a function. -/
def OperationsElsewhere (functions : Observations TargetInfo Definition) (target : TargetInfo)
    (operation : Operation) : Prop :=
  ∃ entry ∈ functions, entry.1 ≠ target ∧ ∃ block ∈ entry.2.body, operation ∈ block.operations

/-- What the blocks of the shared function are, once they are merged. -/
def BodyRead (ids : List TargetInfo) (functions : Observations TargetInfo Definition)
    (groups : List BlockGroup) (history : History) (region : Region) : Prop :=
  List.Forall₂ (fun group shared => groups[shared.id]? = some group ∧
    ∀ target own, (target, own) ∈ sources ids functions group →
      shared.arguments.map (history.own target) = own.arguments.map some ∧
      ReadsAll (OperationsElsewhere functions target) target history (sharedBlock groups target)
        own.operations shared.operations)
    groups region.blocks

theorem Yields.mergeBody {ids : List TargetInfo} {functions : Observations TargetInfo Definition}
    {groups : List BlockGroup} (hids : ids.Nodup) (hnodup : (functions.map Prod.fst).Nodup)
    (hregistered : ∀ target ∈ ids, target ∈ targets.all)
    (hconcrete : ∀ entry ∈ functions, ResolvedDefinition entry.1 entry.2) :
    Yields (mergeBody ids functions groups) (BodyRead ids functions groups) := by
  have hon : ∀ group, OnTargets ids (sources ids functions group) :=
    fun group => onTargets_sources hids group
  -- The operations of the other blocks of a group are operations of the other functions.
  have helsewhere : ∀ (group : BlockGroup) (target : TargetInfo) (operation : Operation),
      RestElsewhere ((sources ids functions group).map fun source =>
        (source.1, (⟨0, source.2.operations⟩ : Cursor))) target operation →
      OperationsElsewhere functions target operation := by
    rintro group target operation ⟨_, hentry, hne, hoperation⟩
    obtain ⟨source, hsource, rfl⟩ := List.mem_map.mp hentry
    obtain ⟨-, function, hfunction, hblock, -⟩ := (mem_sources hnodup).mp hsource
    exact ⟨_, hfunction, hne, source.2, hblock, hoperation⟩
  intro history s region s' hs h
  unfold Merger.mergeBody at h
  obtain ⟨arguments, s₁, harguments, h⟩ := exec_bind_ok.mp h
  obtain ⟨operations, s₂, hoperations, h⟩ := exec_bind_ok.mp h
  obtain ⟨hregion, rfl⟩ := Prod.mk.inj h
  obtain rfl := Except.ok.inj hregion
  obtain ⟨history₁, hextends₁, hs₁, harguments⟩ := Yields.mapM
    (Q := fun group history shareds => ∀ entry ∈ sources ids functions group,
      shareds.map (History.own history entry.1) = entry.2.arguments.map some)
    (fun group _ _ _ hextends h entry hentry => History.map_own_mono hextends (h entry hentry))
    (fun group _ => Yields.mergeArguments (hon group) hregistered
      fun entry hentry => (resolved_sources hnodup hconcrete hentry).1) _ _ _ _ hs harguments
  obtain ⟨history₂, hextends₂, hs₂, hoperations⟩ := Yields.mapM
    (Q := fun group history shared => ∀ entry ∈ sources ids functions group,
      ReadsAll (OperationsElsewhere functions entry.1) entry.1 history (sharedBlock groups entry.1)
        entry.2.operations shared)
    (fun group _ _ _ hextends h entry hentry => (h entry hentry).mono (fun _ h => h) hextends)
    (fun group _ => (Yields.mergeInstructions hregistered _
      ((hon group).sublist (by simp [Function.comp_def]))
      fun entry hentry => by
        obtain ⟨source, hsource, rfl⟩ := List.mem_map.mp hentry
        exact (resolved_sources hnodup hconcrete hsource).2).imp
      fun history shared hread source hsource =>
        (hread _ (List.mem_map.mpr ⟨source, hsource, rfl⟩)).mono (helsewhere group source.1)
          (List.prefix_refl _)) _ _ _ _ hs₁ hoperations
  refine ⟨history₂, hextends₁.trans hextends₂, hs₂, ?_⟩
  have hlength : arguments.length = groups.length := harguments.length_eq.symm
  have hlength' : operations.length = groups.length := hoperations.length_eq.symm
  refine forall₂_of_getElem? ?_ fun index group shared hgroup hshared => ?_
  · simp [regionOf, hlength, hlength']
  · obtain ⟨shareds, hshareds, hreadArguments⟩ := forall₂_getElem? harguments hgroup
    obtain ⟨operation, hoperation, hreadOperations⟩ := forall₂_getElem? hoperations hgroup
    obtain rfl : (⟨index, shareds, operation⟩ : Block) = shared := by
      have hzip : (arguments.zip operations)[index]? = some (shareds, operation) := by
        rw [List.getElem?_zip_eq_some]
        exact ⟨hshareds, hoperation⟩
      simpa [regionOf, hzip] using hshared
    exact ⟨hgroup, fun target own hmem =>
      ⟨History.map_own_mono hextends₂ (hreadArguments _ hmem), hreadOperations _ hmem⟩⟩

/-! ## Functions -/

/-- A shared function is a target's function : of its blocks, those the target has are the
target's in their order. -/
structure ReadsFunction (others : Operation → Prop) (target : TargetInfo) (history : History)
    (blocks : ℕ → Option ℕ) (own shared : Definition) : Prop where
  name : shared.name = "sela.func"
  attributes : ∀ name, name ≠ "block_domains" → Option.Rel
    (AttrResembles (numericName name) target) (own.attributes.get name) (shared.attributes.get name)
  body : ∃ region domains, shared.regions = [region] ∧ domains.length = region.blocks.length ∧
    shared.attributes.get "block_domains" =
      (if region.blocks = [] then none else some (.array domains)) ∧
    List.Forall₂ (ReadsBlock others target history blocks) own.body
      (((region.blocks.zip domains).filter fun entry =>
        containsTarget entry.2 target.id).map Prod.fst)

theorem ReadsFunction.imp {others others' : Operation → Prop} {target : TargetInfo}
    {history : History} {blocks : ℕ → Option ℕ} {own shared : Definition}
    (h : ReadsFunction others target history blocks own shared)
    (himp : ∀ operation, others operation → others' operation) :
    ReadsFunction others' target history blocks own shared := by
  obtain ⟨region, domains, hregion, hlength, hdomains, hblocks⟩ := h.body
  exact ⟨h.name, h.attributes, region, domains, hregion, hlength, hdomains,
    hblocks.imp fun _ _ hblock => ⟨hblock.id, hblock.arguments,
      hblock.operations.mono himp (List.prefix_refl _)⟩⟩

/-- The targets that have a block in a group are those of its domain. -/
theorem containsTarget_groupDomain {ids : List TargetInfo}
    (hregistered : ∀ target ∈ ids, target ∈ targets.all) (group : BlockGroup) {target : TargetInfo}
    (hmem : target ∈ ids) : containsTarget (groupDomain ids group) target.id = (group target).isSome := by
  rw [Bool.eq_iff_iff, groupDomain, containsTarget_targetSet]
  constructor
  · intro hid
    obtain ⟨other, hother, hid⟩ := List.mem_map.mp hid
    obtain ⟨hother, hsome⟩ := List.mem_filter.mp hother
    exact eq_of_id (hregistered _ hother) (hregistered _ hmem) hid ▸ hsome
  · exact fun hsome => List.mem_map.mpr ⟨target, List.mem_filter.mpr ⟨hmem, hsome⟩, rfl⟩

/-- The merged function is each target's function. -/
theorem mergeFunction_reads {verifyFunction : Native.Function → Bool}
    {functions : Observations TargetInfo Definition} {m m' : Merger} {shared : Definition}
    (hnodup : (functions.map Prod.fst).Nodup)
    (hregistered : ∀ target ∈ functions.map Prod.fst, target ∈ targets.all)
    (hconcrete : ∀ entry ∈ functions, ResolvedDefinition entry.1 entry.2)
    (h : exec (mergeFunction verifyFunction (functions.map Prod.fst) functions) m =
      (.ok shared, m')) :
    ∃ (history : History) (blocks : TargetInfo → ℕ → Option ℕ), history.WellFormed ∧
      ∀ target own, (target, own) ∈ functions →
        ReadsFunction (OperationsElsewhere functions target) target history (blocks target) own
          shared := by
  have hstart : Building.Traces ⟨m, [], 0⟩ [] :=
    ⟨⟨by simp, by simp [History.own], by simp [History.own]⟩, by simp, by simp⟩
  unfold mergeFunction at h
  obtain ⟨attrs, m₁, hattrs, h⟩ := exec_bind_ok.mp h
  obtain ⟨_, hempty, h⟩ := exec_check_bind_ok.mp h
  have hempty := expect_ok.mp hempty
  have hattrs : ∀ target own, (target, own) ∈ functions →
      (∀ name ∉ ["block_domains"], Option.Rel (AttrResembles (numericName name) target)
        (own.attributes.get name) (attrs.get name)) ∧
      ∀ name ∈ ["block_domains"], attrs.get name = none :=
    fun target own hmem => attributes_read (by simpa [Function.comp_def] using hnodup)
      (fun entry hentry => by
        obtain ⟨function, hfunction, rfl⟩ := List.mem_map.mp hentry
        exact hregistered _ (List.mem_map_of_mem hfunction))
      (fun target attributes hvalue => by
        obtain ⟨function, hfunction, rfl⟩ := mem_map_snd.mp hvalue
        exact (hconcrete _ hfunction).attributes.concrete) hattrs
      (List.mem_map.mpr ⟨_, hmem, rfl⟩)
  split at h
  · rename_i hisEmpty
    obtain ⟨hshared, rfl⟩ := Prod.mk.inj h
    obtain rfl := Except.ok.inj hshared
    refine ⟨[], fun _ _ => none, hstart.wellFormed, fun target own hmem => ⟨rfl,
      fun name hname => (hattrs target own hmem).1 name (by simpa using hname),
      ⟨[], List.nodup_nil⟩, [], rfl, rfl, (hattrs target own hmem).2 _ (by simp), ?_⟩⟩
    have hnil : own.body = [] := by
      have := hempty _ hmem
      rw [hisEmpty] at this
      simpa using this
    rw [hnil]
    exact .nil
  · rename_i hisEmpty
    obtain ⟨groups, hgroups, h⟩ := exec_check_bind_ok.mp h
    obtain ⟨merger, m₂, hget, h⟩ := exec_bind_ok.mp h
    obtain ⟨hm, rfl⟩ := Prod.mk.inj hget
    obtain rfl := Except.ok.inj hm
    obtain ⟨_, m₃, hset, h⟩ := exec_bind_ok.mp h
    obtain ⟨-, rfl⟩ := Prod.mk.inj hset
    obtain ⟨region, hregion, h⟩ := exec_check_bind_ok.mp h
    obtain ⟨hshared, rfl⟩ := Prod.mk.inj h
    obtain rfl := Except.ok.inj hshared
    obtain ⟨history, -, hs, hbody⟩ := Yields.mergeBody hnodup hnodup hregistered hconcrete [] _ _ _
      (show Building.Traces ⟨m₁, [], 0⟩ [] from
        ⟨hstart.wellFormed, hstart.values, hstart.fresh⟩) (Prod.ext hregion rfl)
    obtain ⟨hgroups, -, -⟩ := correspondence_ok hnodup hgroups
    refine ⟨history, sharedBlock groups, hs.wellFormed, fun target own hmem => ⟨rfl,
      fun name hname => ?_, region, groups.map (groupDomain (functions.map Prod.fst)), rfl, ?_, ?_, ?_⟩⟩
    · rw [Attributes.get_set_of_ne _ (Ne.symm hname)]
      exact (hattrs target own hmem).1 name (by simpa using hname)
    · rw [List.length_map, hbody.length_eq]
    · rw [if_neg, Attributes.get_set_self]
      intro hnil
      obtain rfl : groups = [] := List.eq_nil_of_length_eq_zero (by rw [hbody.length_eq, hnil]; rfl)
      have hids := hgroups target own hmem
      have hnone := hempty _ hmem
      rw [List.map_eq_nil_iff.mp hids.symm] at hnone
      exact hisEmpty hnone.symm
    · have hmem' : target ∈ functions.map Prod.fst := List.mem_map_of_mem hmem
      have hids := hgroups target own hmem
      refine forall₂_trans (fun block group shared hblock hshared => ?_)
        (forall₂_imp_of_mem (S := fun block group => group target = some block.id ∧
          (target, block) ∈ sources (functions.map Prod.fst) functions group)
          (forall₂_groups hids) fun block hblock group _ hid => ⟨hid, (mem_sources hnodup).mpr
            ⟨hmem', own, hmem, hblock, hid⟩⟩)
        (forall₂_filter_domains (fun group _ =>
          containsTarget_groupDomain hregistered group hmem') hbody)
      obtain ⟨hid, hsource⟩ := hblock
      obtain ⟨hgroup, hreads⟩ := hshared
      obtain ⟨harguments, hoperations⟩ := hreads target block hsource
      exact ⟨sharedBlock_eq (hids ▸ Definition.nodup_body own) hgroup hid, harguments, hoperations⟩

end Merger

end Sela
