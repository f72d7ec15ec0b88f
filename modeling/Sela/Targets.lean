import Mathlib.Data.List.Basic
import Mathlib.Data.List.Nodup

/-!
# Registered targets

The registry of device targets, in its published order. A target is named by its
identity; the only other property the intermediate representation reads is the width
of its machine word.
-/

namespace Sela

/-- The registry fields the representation reads. -/
structure TargetInfo where
  id : String
  wordBits : ℕ
  deriving DecidableEq, Repr

namespace targets

/-- The registry, in its published order. -/
def all : List TargetInfo :=
  [⟨"x86_64", 64⟩, ⟨"i686", 32⟩, ⟨"armv7", 32⟩, ⟨"aarch64", 64⟩]

/-- The registered target of an identity. -/
def find (id : String) : Option TargetInfo :=
  all.find? fun target => target.id = id

theorem find_id {id : String} {target : TargetInfo} (h : find id = some target) :
    target.id = id := by
  simpa using List.find?_some h

theorem find_mem {id : String} {target : TargetInfo} (h : find id = some target) :
    target ∈ all :=
  List.mem_of_find?_eq_some h

theorem nodup_all : (all.map TargetInfo.id).Nodup := by decide

/-- A registered target is found under its own identity. -/
theorem find_of_mem : ∀ target ∈ all, find target.id = some target := by decide

end targets

end Sela
