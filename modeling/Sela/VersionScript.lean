import Mathlib.Data.List.TakeWhile
import Sela.Artifact

/-!
# Version scripts

What normalizing a version script does to its text. `Stripped` says it without the scanner :
the text is cut into comments and characters, each comment becomes one space, and every
character is one a script may have. No such character begins a comment, so a stripped text is
its own stripped text.

* the scanner strips a text or fails (`normalizeText_ok`);
* normalizing is a projection (`normalizeVersionScript_normal`, `NormalScript.fixed`).
-/

namespace Sela

open Checked

/-- The characters of a version script outside comments. -/
def scriptCharacter (c : Char) : Bool :=
  isAlphanumeric c || "_.*?[]+-;:\x7b\x7d \t\r\n".toList.contains c

/-- A text with every comment replaced by one space. A block comment ends at the first
`*/` in it, a line comment before the end of its line. -/
inductive Stripped : List Char → List Char → Prop
  | nil : Stripped [] []
  | block {body text output : List Char} : ¬['*', '/'] <:+: body ++ ['*'] → Stripped text output →
    Stripped ('/' :: '*' :: (body ++ '*' :: '/' :: text)) (' ' :: output)
  | line {body text output : List Char} : '\n' ∉ body → (text = [] ∨ text.head? = some '\n') →
    Stripped text output → Stripped ('/' :: '/' :: (body ++ text)) (' ' :: output)
  | hash {body text output : List Char} : '\n' ∉ body → (text = [] ∨ text.head? = some '\n') →
    Stripped text output → Stripped ('#' :: (body ++ text)) (' ' :: output)
  | keep {c : Char} {text output : List Char} : scriptCharacter c = true → Stripped text output →
    Stripped (c :: text) (c :: output)

/-- No comment begins in the text. -/
structure CommentFree (text : List Char) : Prop where
  block : ¬['/', '*'] <:+: text
  line : ¬['/', '/'] <:+: text
  hash : '#' ∉ text

/-! ## Characters -/

theorem ne_slash_of_scriptCharacter {c : Char} (h : scriptCharacter c = true) : c ≠ '/' := by
  rintro rfl
  exact absurd h (by decide)

theorem ne_hash_of_scriptCharacter {c : Char} (h : scriptCharacter c = true) : c ≠ '#' := by
  rintro rfl
  exact absurd h (by decide)

theorem commentFree_of_forall {text : List Char} (h : ∀ c ∈ text, scriptCharacter c = true) :
    CommentFree text where
  block hinside := ne_slash_of_scriptCharacter (h '/' (hinside.subset (by simp))) rfl
  line hinside := ne_slash_of_scriptCharacter (h '/' (hinside.subset (by simp))) rfl
  hash hmem := ne_hash_of_scriptCharacter (h '#' hmem) rfl

/-! ## Comments -/

theorem not_end_cons {c : Char} {body : List Char} (hfirst : ∀ rest, c = '*' → body ++ ['*'] ≠ '/' :: rest)
    (hbody : ¬['*', '/'] <:+: body ++ ['*']) : ¬['*', '/'] <:+: c :: body ++ ['*'] := by
  intro hinside
  rw [List.cons_append, List.infix_cons_iff] at hinside
  rcases hinside with hprefix | hinside
  · obtain ⟨hc, rest, hrest⟩ := by simpa [List.cons_prefix_cons] using hprefix
    exact hfirst rest hc.symm (by simpa using hrest.symm)
  · exact hbody hinside

/-- What follows a comment is what follows the first end of one. -/
theorem afterComment_eq_some : ∀ {text rest : List Char}, afterComment text = some rest →
    ∃ body, text = body ++ '*' :: '/' :: rest ∧ ¬['*', '/'] <:+: body ++ ['*']
  | [], rest, h => by simp [afterComment] at h
  | c :: text, rest, h => by
    unfold afterComment at h
    split at h
    · simp at *
    · rename_i heq
      obtain ⟨rfl, rfl⟩ := List.cons.inj heq
      obtain rfl := Option.some.inj h
      exact ⟨[], rfl, by decide⟩
    · rename_i hne heq
      obtain ⟨rfl, rfl⟩ := List.cons.inj heq
      obtain ⟨body, rfl, hbody⟩ := afterComment_eq_some h
      refine ⟨_ :: body, rfl, not_end_cons (fun tail hc hslash => ?_) hbody⟩
      rcases body with _ | ⟨d, body⟩
      · simp at hslash
      · obtain ⟨rfl, -⟩ := List.cons.inj hslash
        exact hne (body ++ '*' :: '/' :: rest) hc rfl

/-- The first end of a comment is found. -/
theorem afterComment_append : ∀ {body text : List Char}, ¬['*', '/'] <:+: body ++ ['*'] →
    afterComment (body ++ '*' :: '/' :: text) = some text
  | [], text, _ => rfl
  | c :: body, text, h => by
    have hbody : ¬['*', '/'] <:+: body ++ ['*'] := fun hinside =>
      h (hinside.trans (List.suffix_cons c _).isInfix)
    have hrest := @afterComment_append body text hbody
    rw [List.cons_append, afterComment, hrest]
    rintro tail rfl heq
    rcases body with _ | ⟨d, body⟩
    · simp at heq
    · obtain ⟨rfl, -⟩ := List.cons.inj heq
      exact h (List.prefix_append _ _).isInfix

/-- The rest of a line and what follows it. -/
theorem dropWhile_line {body text : List Char} (hbody : '\n' ∉ body)
    (htext : text = [] ∨ text.head? = some '\n') :
    (body ++ text).dropWhile (fun c => c ≠ '\n') = text := by
  induction body with
  | nil =>
    rcases text with _ | ⟨c, text⟩
    · rfl
    · obtain rfl : c = '\n' := by simpa using htext
      simp
  | cons c body ih =>
    have hc : c ≠ '\n' := fun hc => hbody (by simp [hc])
    rw [List.cons_append, List.dropWhile_cons_of_pos (by simpa using hc)]
    exact ih fun hmem => hbody (by simp [hmem])

theorem line_split (text : List Char) : ∃ body, '\n' ∉ body ∧
    text = body ++ text.dropWhile (fun c => c ≠ '\n') ∧
    (text.dropWhile (fun c => c ≠ '\n') = [] ∨
      (text.dropWhile (fun c => c ≠ '\n')).head? = some '\n') := by
  refine ⟨text.takeWhile fun c => c ≠ '\n', fun hmem => ?_,
    (List.takeWhile_append_dropWhile ..).symm, ?_⟩
  · simpa using List.mem_takeWhile_imp hmem
  · rcases hrest : text.dropWhile (fun c => c ≠ '\n') with _ | ⟨c, rest⟩
    · exact .inl rfl
    · have := List.head?_dropWhile_not (fun c => decide (c ≠ '\n')) text
      rw [hrest] at this
      exact .inr (by simpa using this)

/-! ## The scanner -/

theorem normalizeText_block {text rest output : List Char} (hend : afterComment text = some rest) :
    normalizeText ('/' :: '*' :: text) = .ok output ↔
      ∃ tail, normalizeText rest = .ok tail ∧ ' ' :: tail = output := by
  rw [normalizeText]
  split
  · next hnone => simp [hnone] at hend
  · next found hfound =>
    obtain rfl := Option.some.inj (hfound.symm.trans hend)
    simp [bind_ok]

theorem normalizeText_comment {c : Char} {text output : List Char}
    (hcomment : (c = '/' ∧ text.head? = some '/') ∨ c = '#') :
    normalizeText (c :: text) = .ok output ↔
      ∃ tail, normalizeText (text.dropWhile fun c => c ≠ '\n') = .ok tail ∧
        ' ' :: tail = output := by
  have hblock : ∀ rest, c = '/' → text = '*' :: rest → False := by
    rintro rest rfl rfl
    simp at hcomment
  rw [normalizeText.eq_3 _ _ hblock, if_pos hcomment]
  simp [bind_ok]

theorem normalizeText_keep {c : Char} {text output : List Char} (hc : scriptCharacter c = true) :
    normalizeText (c :: text) = .ok output ↔
      ∃ tail, normalizeText text = .ok tail ∧ c :: tail = output := by
  have hslash := ne_slash_of_scriptCharacter hc
  have hhash := ne_hash_of_scriptCharacter hc
  unfold scriptCharacter at hc
  rw [normalizeText.eq_3 _ _ (fun _ h _ => hslash h), if_neg (by simp [hslash, hhash]), if_pos hc]
  simp [bind_ok]

/-- The scanner strips a text whose characters outside comments are those of a script. -/
theorem normalizeText_ok {text output : List Char} :
    normalizeText text = .ok output ↔ Stripped text output := by
  constructor
  · intro h
    induction text using normalizeText.induct generalizing output with
    | case1 =>
      obtain rfl : [] = output := by simpa [normalizeText] using h
      exact .nil
    | case2 text hend =>
      rw [normalizeText] at h
      split at h
      · simp at h
      · next found hfound => simp [hfound] at hend
    | case3 text rest hend ih =>
      obtain ⟨body, rfl, hbody⟩ := afterComment_eq_some hend
      obtain ⟨tail, htail, rfl⟩ := (normalizeText_block hend).mp h
      exact .block hbody (ih htail)
    | case4 c text hblock hcomment ih =>
      obtain ⟨tail, htail, rfl⟩ := (normalizeText_comment hcomment).mp h
      rcases hcomment with ⟨rfl, hslash⟩ | rfl
      · -- the line has at least the second slash
        obtain ⟨text, rfl⟩ : ∃ rest, text = '/' :: rest := by
          rcases text with _ | ⟨d, rest⟩
          · simp at hslash
          · exact ⟨rest, by simpa using hslash⟩
        rw [List.dropWhile_cons_of_pos (by decide)] at ih htail
        obtain ⟨body, hbody, htext, hrest⟩ := line_split text
        rw [htext]
        exact .line hbody hrest (ih htail)
      · obtain ⟨body, hbody, htext, hrest⟩ := line_split text
        rw [htext]
        exact .hash hbody hrest (ih htail)
    | case5 c text hblock hcomment hc ih =>
      obtain ⟨tail, htail, rfl⟩ := (normalizeText_keep hc).mp h
      exact .keep hc (ih htail)
    | case6 c text hblock hcomment hc =>
      rw [normalizeText.eq_3 _ _ hblock, if_neg hcomment, if_neg hc] at h
      simp at h
  · intro h
    induction h with
    | nil => simp [normalizeText]
    | block hbody _ ih =>
      exact (normalizeText_block (afterComment_append hbody)).mpr ⟨_, ih, rfl⟩
    | line hbody hrest _ ih =>
      refine (normalizeText_comment (.inl ⟨rfl, rfl⟩)).mpr ⟨_, ?_, rfl⟩
      rw [List.dropWhile_cons_of_pos (by decide), dropWhile_line hbody hrest]
      exact ih
    | hash hbody hrest _ ih =>
      refine (normalizeText_comment (.inr rfl)).mpr ⟨_, ?_, rfl⟩
      rw [dropWhile_line hbody hrest]
      exact ih
    | keep hc _ ih => exact (normalizeText_keep hc).mpr ⟨_, ih, rfl⟩

/-! ## What a stripped text is -/

namespace Stripped

variable {text output : List Char}

theorem characters (h : Stripped text output) : ∀ c ∈ output, scriptCharacter c = true := by
  induction h with
  | nil => simp
  | block _ _ ih => exact List.forall_mem_cons.mpr ⟨by decide, ih⟩
  | line _ _ _ ih => exact List.forall_mem_cons.mpr ⟨by decide, ih⟩
  | hash _ _ _ ih => exact List.forall_mem_cons.mpr ⟨by decide, ih⟩
  | keep hc _ ih => exact List.forall_mem_cons.mpr ⟨hc, ih⟩

/-- A comment is not shorter than a space. -/
theorem length_le (h : Stripped text output) : output.length ≤ text.length := by
  induction h with
  | nil => exact le_rfl
  | block _ _ ih =>
    simp only [List.length_cons, List.length_append]
    omega
  | line _ _ _ ih =>
    simp only [List.length_cons, List.length_append]
    omega
  | hash _ _ _ ih =>
    simp only [List.length_cons, List.length_append]
    omega
  | keep _ _ ih =>
    simp only [List.length_cons]
    omega

/-- A text without comments is its own stripped text. -/
theorem refl (h : ∀ c ∈ text, scriptCharacter c = true) : Stripped text text := by
  induction text with
  | nil => exact .nil
  | cons c text ih =>
    obtain ⟨hc, htext⟩ := List.forall_mem_cons.mp h
    exact .keep hc (ih htext)

end Stripped

/-! ## Normalizing -/

/-- A script that a package may have : it is within the limit, declares something and is
made of the characters of a script. -/
structure NormalScript (script : String) : Prop where
  limit : script.length ≤ 65536
  characters : ∀ c ∈ script.toList, scriptCharacter c = true
  declares : ∃ c ∈ script.toList, c.isWhitespace = false

theorem NormalScript.fixed {script : String} (h : NormalScript script) :
    normalizeVersionScript script = .ok script := by
  have hne : script ≠ "" := by
    rintro rfl
    obtain ⟨c, hc, -⟩ := h.declares
    simp at hc
  have htext := normalizeText_ok.mpr (Stripped.refl h.characters)
  have hdeclares : (script.toList.any fun c => !c.isWhitespace) = true := by
    simpa using h.declares
  unfold normalizeVersionScript
  refine bind_ok.mpr ⟨(), ensure_ok.mpr ⟨hne, h.limit⟩, bind_ok.mpr ⟨_, htext,
    bind_ok.mpr ⟨(), ensure_ok.mpr hdeclares, ?_⟩⟩⟩
  rw [String.ofList_toList]
  rfl

theorem normalizeVersionScript_ok {text script : String} :
    normalizeVersionScript text = .ok script ↔
      text ≠ "" ∧ text.length ≤ 65536 ∧ Stripped text.toList script.toList ∧
        ∃ c ∈ script.toList, c.isWhitespace = false := by
  unfold normalizeVersionScript
  simp only [bind_ok, ensure_ok, normalizeText_ok, List.any_eq_true, Bool.not_eq_true',
    pure_eq_ok, Except.ok.injEq, exists_const]
  constructor
  · rintro ⟨⟨hne, hlimit⟩, output, hstripped, hdeclares, rfl⟩
    rw [String.toList_ofList]
    exact ⟨hne, hlimit, hstripped, hdeclares⟩
  · rintro ⟨hne, hlimit, hstripped, hdeclares⟩
    exact ⟨⟨hne, hlimit⟩, script.toList, hstripped, hdeclares, String.ofList_toList⟩

/-- What normalizing returns is a normal script. -/
theorem normalizeVersionScript_normal {text script : String}
    (h : normalizeVersionScript text = .ok script) : NormalScript script := by
  obtain ⟨-, hlimit, hstripped, hdeclares⟩ := normalizeVersionScript_ok.mp h
  refine ⟨?_, hstripped.characters, hdeclares⟩
  calc script.length ≤ text.length := hstripped.length_le
    _ ≤ 65536 := hlimit

end Sela
