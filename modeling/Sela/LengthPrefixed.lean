import Mathlib.Data.List.Basic
import Std.Data.String.ToNat

/-!
# Length-prefixed encoding

A list of texts is encoded as one text, each part after its length in decimal and a
colon. The encoding is injective (`encode_injective`) : the digits end at the first
colon, and the length says where the part ends.
-/

namespace LengthPrefixed

/-- Each part after its length and a colon. -/
def encode (parts : List String) : String :=
  parts.foldl (fun key part => key ++ toString part.length ++ ":" ++ part) ""

/-- The characters of an encoding. -/
def encodeChars : List String → List Char
  | [] => []
  | part :: parts => (Nat.repr part.length).toList ++ ':' :: (part.toList ++ encodeChars parts)

theorem toList_foldl : ∀ (parts : List String) (key : String),
    (parts.foldl (fun key part => key ++ toString part.length ++ ":" ++ part) key).toList =
      key.toList ++ encodeChars parts
  | [], key => by simp [encodeChars]
  | part :: parts, key => by
    rw [List.foldl_cons, toList_foldl parts]
    simp [encodeChars, toString]

theorem toList_encode (parts : List String) : (encode parts).toList = encodeChars parts := by
  simpa [encode] using toList_foldl parts ""

theorem colon_notMem_repr (n : ℕ) : ':' ∉ (Nat.repr n).toList := by
  intro h
  have hdigit : (':' : Char).isDigit = true :=
    Nat.isDigit_of_mem_toDigits (show 0 < 10 by decide) (show 10 ≤ 10 by decide)
      (by simpa [Nat.repr] using h)
  exact absurd hdigit (by decide)

/-- A list is cut at the first place of an element in one way. -/
theorem append_cons_inj {α : Type} {c : α} :
    ∀ {x x' y y' : List α}, c ∉ x → c ∉ x' → x ++ c :: y = x' ++ c :: y' → x = x' ∧ y = y'
  | [], [], y, y', _, _, h => ⟨rfl, by simpa using h⟩
  | [], d :: x', y, y', _, hx', h => by simp_all
  | d :: x, [], y, y', hx, _, h => by simp_all
  | d :: x, d' :: x', y, y', hx, hx', h => by
    obtain ⟨hd, h⟩ := List.cons.inj h
    obtain ⟨hx, hy⟩ := append_cons_inj (fun hc => hx (List.mem_cons_of_mem _ hc))
      (fun hc => hx' (List.mem_cons_of_mem _ hc)) h
    exact ⟨by rw [hd, hx], hy⟩

theorem encodeChars_injective :
    ∀ {parts parts' : List String}, encodeChars parts = encodeChars parts' → parts = parts'
  | [], [], _ => rfl
  | [], part :: parts, h => by simp [encodeChars] at h
  | part :: parts, [], h => by simp [encodeChars] at h
  | part :: parts, part' :: parts', h => by
    obtain ⟨hdigits, hrest⟩ := append_cons_inj (colon_notMem_repr _) (colon_notMem_repr _) h
    have hlength : part.toList.length = part'.toList.length := by
      rw [String.length_toList, String.length_toList]
      exact Nat.repr_injective (String.toList_inj.mp hdigits)
    obtain ⟨hpart, hparts⟩ := List.append_inj hrest hlength
    rw [String.toList_inj.mp hpart, encodeChars_injective hparts]

/-- Different lists of texts have different encodings. -/
theorem encode_injective {parts parts' : List String} (h : encode parts = encode parts') :
    parts = parts' :=
  encodeChars_injective (by rw [← toList_encode, ← toList_encode, h])

end LengthPrefixed
