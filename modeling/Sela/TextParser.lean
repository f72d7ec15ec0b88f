import Mathlib.Data.List.Basic

/-!
# Texts and their parsers

A parser takes a value off the front of a text. The tokens are those of an assembly
format : bare keywords, punctuation, decimal numbers and quoted strings, each after any
number of spaces; lists have commas between their elements.

A text *reads* as a value when the parser takes exactly the text off the front, whatever
delimiter follows (`TextParser.Reads`). Every token reads back as it was written
(`run_parseKeyword`, `run_parseInteger`, `run_parseString`), and so does a list whose elements
do (`run_parseList`). A quoted string needs no escapes when none of its characters is a quote,
a backslash or a line break (`isPlain`).

A parser that calls itself is the limit of its unrollings (`TextParser.limit`). A parser
that is put together from others follows their unrollings (`Unrolls`), so what one more
unrolling of the limit takes the limit takes too.
-/

/-- A text, character by character. -/
abbrev Text := List Char

/-- What takes a value off the front of a text, or fails. -/
abbrev TextParser (α : Type) := StateT Text Option α

namespace TextParser

variable {α β : Type}

/-! ## Delimiters -/

/-- A character that ends whatever stands before it. -/
def isDelimiter (c : Char) : Bool :=
  c == ',' || c == ']' || c == '>' || c == ')' || c == '}'

/-- Nothing follows, or a delimiter. -/
def Delimited (rest : Text) : Prop := ∀ c ∈ rest.head?, isDelimiter c = true

@[simp] theorem delimited_nil : Delimited [] := by simp [Delimited]

@[simp] theorem delimited_cons {c : Char} {rest : Text} :
    Delimited (c :: rest) ↔ isDelimiter c = true := by
  simp [Delimited]

/-- The text reads as the value, whatever delimiter follows. -/
def Reads (parser : TextParser α) (text : Text) (value : α) : Prop :=
  ∀ rest, Delimited rest → parser.run (text ++ rest) = some (value, rest)

/-- A text reads as one value at most. -/
theorem Reads.unique {parser : TextParser α} {text : Text} {a b : α}
    (ha : Reads parser text a) (hb : Reads parser text b) : a = b := by
  have h := (ha [] delimited_nil).symm.trans (hb [] delimited_nil)
  exact (Prod.mk.inj (Option.some.inj h)).1

/-! ## Tokens -/

/-- The text after its leading spaces. -/
def skipSpaces (text : Text) : Text := text.dropWhile (· == ' ')

@[simp] theorem skipSpaces_space (text : Text) : skipSpaces (' ' :: text) = skipSpaces text := by
  simp [skipSpaces]

theorem skipSpaces_cons {c : Char} (hc : c ≠ ' ') (text : Text) :
    skipSpaces (c :: text) = c :: text := by
  simp [skipSpaces, hc]

/-- One punctuation character. -/
def parsePunctuation (c : Char) : TextParser Unit := fun text =>
  match skipSpaces text with
  | d :: rest => if d = c then some ((), rest) else none
  | [] => none

/-- One punctuation character, if it is next. -/
def parseOptional (c : Char) : TextParser Bool := fun text =>
  match skipSpaces text with
  | d :: rest => if d = c then some (true, rest) else some (false, d :: rest)
  | [] => some (false, [])

/-- A character a keyword may hold. -/
def isKeywordChar (c : Char) : Bool :=
  c.isAlphanum || c == '_' || c == '$' || c == '.'

/-- A bare keyword. -/
def parseKeyword : TextParser Text := fun text =>
  match skipSpaces text with
  | c :: rest =>
    if c.isAlpha || c == '_' then
      some (c :: rest.takeWhile isKeywordChar, rest.dropWhile isKeywordChar)
    else none
  | [] => none

/-- A decimal number. -/
def parseNumber : TextParser ℕ := fun text =>
  let text := skipSpaces text
  let digits := text.takeWhile Char.isDigit
  if digits ≠ [] then some (Nat.ofDigitChars 10 digits 0, text.dropWhile Char.isDigit) else none

/-- A decimal number below the bound. -/
def parseInteger (bound : ℕ) : TextParser ℕ := do
  let value ← parseNumber
  if value < bound then pure value else failure

/-- The value of a hexadecimal digit. -/
def hexDigit? (c : Char) : Option ℕ :=
  if c.isDigit then some (c.toNat - 48)
  else if 'a' ≤ c ∧ c ≤ 'f' then some (c.toNat - 87)
  else if 'A' ≤ c ∧ c ≤ 'F' then some (c.toNat - 55)
  else none

/-- A character that breaks a quoted string off : a line feed, a vertical tab, a form feed. -/
def isBreak (c : Char) : Bool := c == '\n' || c.toNat == 11 || c.toNat == 12

/-- The characters of a quoted string up to its closing quote, their escapes resolved. -/
def stringBody : Text → Option (Text × Text)
  | [] => none
  | '"' :: rest => some ([], rest)
  | '\\' :: '"' :: rest => (stringBody rest).map fun (body, rest) => ('"' :: body, rest)
  | '\\' :: '\\' :: rest => (stringBody rest).map fun (body, rest) => ('\\' :: body, rest)
  | '\\' :: 'n' :: rest => (stringBody rest).map fun (body, rest) => ('\n' :: body, rest)
  | '\\' :: 't' :: rest => (stringBody rest).map fun (body, rest) => ('\t' :: body, rest)
  | '\\' :: high :: low :: rest =>
    match hexDigit? high, hexDigit? low with
    | some h, some l =>
      (stringBody rest).map fun (body, rest) => (Char.ofNat (16 * h + l) :: body, rest)
    | _, _ => none
  | '\\' :: _ => none
  | c :: rest =>
    if isBreak c then none else (stringBody rest).map fun (body, rest) => (c :: body, rest)

/-- A quoted string. -/
def parseString : TextParser Text := fun text =>
  match skipSpaces text with
  | '"' :: rest => stringBody rest
  | _ => none

/-- The elements of a list that is not empty, with commas between them. -/
def commaSeparated (parser : TextParser α) : ℕ → TextParser (List α)
  | 0 => failure
  | fuel + 1 => do
    let value ← parser
    let more ← parseOptional ','
    if more then
      let values ← commaSeparated parser fuel
      pure (value :: values)
    else pure [value]

/-- A list in square brackets, after its opening bracket. Every element but the first
follows a comma, so the length of the text bounds their number. -/
def parseList (parser : TextParser α) : TextParser (List α) := do
  let done ← parseOptional ']'
  if done then pure []
  else
    let text ← get
    let values ← commaSeparated parser (text.length + 1)
    parsePunctuation ']'
    pure values

/-! ## Reading tokens back -/

theorem run_parsePunctuation {c : Char} (hc : c ≠ ' ') (rest : Text) :
    (parsePunctuation c).run (c :: rest) = some ((), rest) := by
  simp [parsePunctuation, StateT.run, skipSpaces_cons hc]

@[simp] theorem run_parsePunctuation_space {c : Char} (rest : Text) :
    (parsePunctuation c).run (' ' :: rest) = (parsePunctuation c).run rest := by
  simp [parsePunctuation, StateT.run]

theorem run_parseOptional {c : Char} (hc : c ≠ ' ') (rest : Text) :
    (parseOptional c).run (c :: rest) = some (true, rest) := by
  simp [parseOptional, StateT.run, skipSpaces_cons hc]

theorem run_parseOptional_ne {c d : Char} (hd : d ≠ ' ') (h : d ≠ c) (rest : Text) :
    (parseOptional c).run (d :: rest) = some (false, d :: rest) := by
  simp [parseOptional, StateT.run, skipSpaces_cons hd, h]

@[simp] theorem run_parseOptional_space {c : Char} (rest : Text) :
    (parseOptional c).run (' ' :: rest) = (parseOptional c).run rest := by
  simp [parseOptional, StateT.run]

/-- A bare keyword : a letter or an underscore, then keyword characters. -/
def isKeyword : Text → Bool
  | [] => false
  | c :: rest => (c.isAlpha || c == '_') && rest.all isKeywordChar

/-- No keyword continues into the text. -/
def EndsKeyword (rest : Text) : Prop := ∀ c ∈ rest.head?, isKeywordChar c = false

@[simp] theorem endsKeyword_cons {c : Char} {rest : Text} :
    EndsKeyword (c :: rest) ↔ isKeywordChar c = false := by
  simp [EndsKeyword]

theorem Delimited.endsKeyword {rest : Text} (h : Delimited rest) : EndsKeyword rest := by
  intro c hc
  have := h c hc
  simp only [isDelimiter, Bool.or_eq_true, beq_iff_eq] at this
  obtain (((rfl | rfl) | rfl) | rfl) | rfl := this <;> decide

/-- What a predicate holds on, up to where it stops. -/
theorem takeWhile_append_of_all {p : Char → Bool} {text rest : Text}
    (htext : ∀ c ∈ text, p c = true) (hrest : ∀ c ∈ rest.head?, p c = false) :
    (text ++ rest).takeWhile p = text ∧ (text ++ rest).dropWhile p = rest := by
  have hstop : rest.takeWhile p = [] ∧ rest.dropWhile p = rest := by
    cases rest with
    | nil => simp
    | cons c rest => simp [hrest c (by simp)]
  rw [List.takeWhile_append_of_pos htext, List.dropWhile_append_of_pos htext, hstop.1, hstop.2]
  simp

theorem run_parseKeyword {word rest : Text} (hword : isKeyword word = true)
    (hrest : EndsKeyword rest) : parseKeyword.run (word ++ rest) = some (word, rest) := by
  cases word with
  | nil => simp [isKeyword] at hword
  | cons c word =>
    simp only [isKeyword, Bool.and_eq_true, List.all_eq_true] at hword
    have hspace : c ≠ ' ' := by
      rintro rfl
      exact absurd hword.1 (by decide)
    obtain ⟨htake, hdrop⟩ := takeWhile_append_of_all hword.2 hrest
    simp only [parseKeyword, StateT.run, List.cons_append, skipSpaces_cons hspace]
    rw [if_pos hword.1, htake, hdrop]

/-- A number reads back from its decimal digits. -/
theorem run_parseNumber (value : ℕ) {rest : Text} (hrest : ∀ c ∈ rest.head?, c.isDigit = false) :
    parseNumber.run (Nat.toDigits 10 value ++ rest) = some (value, rest) := by
  have hdigit : ∀ c ∈ Nat.toDigits 10 value, c.isDigit = true := fun c hc =>
    Nat.isDigit_of_mem_toDigits (by decide) (by decide) hc
  have hne : Nat.toDigits 10 value ≠ [] := Nat.toDigits_ne_nil
  have hskip : skipSpaces (Nat.toDigits 10 value ++ rest) = Nat.toDigits 10 value ++ rest := by
    obtain ⟨c, digits, heq⟩ := List.exists_cons_of_ne_nil hne
    rw [heq, List.cons_append]
    refine skipSpaces_cons ?_ _
    rintro rfl
    exact absurd (hdigit ' ' (by simp [heq])) (by decide)
  obtain ⟨htake, hdrop⟩ := takeWhile_append_of_all hdigit hrest
  simp only [parseNumber, StateT.run, hskip, htake, hdrop, Nat.ofDigitChars_ten_toDigits]
  rw [if_pos hne]

@[simp] theorem run_parseNumber_space (rest : Text) :
    parseNumber.run (' ' :: rest) = parseNumber.run rest := by
  simp [parseNumber, StateT.run]

theorem run_parseInteger {bound value : ℕ} (hvalue : value < bound) (rest : Text)
    (hrest : ∀ c ∈ rest.head?, c.isDigit = false) :
    (parseInteger bound).run (Nat.toDigits 10 value ++ rest) = some (value, rest) := by
  simp only [parseInteger, StateT.run_bind, run_parseNumber value hrest, Option.bind_eq_bind,
    Option.bind_some, hvalue, if_true]
  rfl

@[simp] theorem run_parseInteger_space {bound : ℕ} (rest : Text) :
    (parseInteger bound).run (' ' :: rest) = (parseInteger bound).run rest := by
  simp only [parseInteger, StateT.run_bind, run_parseNumber_space]

/-! ## Reading strings back -/

/-- No character of the text has to be escaped in quotes. -/
def isPlain (text : Text) : Bool :=
  text.all fun c => c != '"' && c != '\\' && !isBreak c

theorem stringBody_plain : ∀ {text : Text} (rest : Text), isPlain text = true →
    stringBody (text ++ '"' :: rest) = some (text, rest)
  | [], rest, _ => by rw [List.nil_append, stringBody]
  | c :: text, rest, h => by
    simp only [isPlain, List.all_cons, Bool.and_eq_true, bne_iff_ne, ne_eq,
      Bool.not_eq_true'] at h
    obtain ⟨⟨⟨hquote, hescape⟩, hbreak⟩, htext⟩ := h
    rw [List.cons_append, stringBody, if_neg (by simp [hbreak]), stringBody_plain rest htext]
    · rfl
    all_goals simp [hquote, hescape]

theorem run_parseString {text : Text} (h : isPlain text = true) (rest : Text) :
    parseString.run ('"' :: text ++ '"' :: rest) = some (text, rest) := by
  simp only [parseString, StateT.run, List.cons_append, skipSpaces_cons (show '"' ≠ ' ' by decide)]
  exact stringBody_plain rest h

/-- A character as it stands between quotes. -/
def escape (c : Char) : Text :=
  if c = '"' then ['\\', '"']
  else if c = '\\' then ['\\', '\\']
  else if c = '\n' then ['\\', 'n']
  else if c.toNat = 11 then ['\\', '0', 'B']
  else if c.toNat = 12 then ['\\', '0', 'C']
  else [c]

theorem stringBody_escape (c : Char) (text : Text) :
    stringBody (escape c ++ text) = (stringBody text).map fun (body, rest) => (c :: body, rest) := by
  unfold escape
  split_ifs with hquote hescape hline htab hfeed
  · simp [stringBody, hquote]
  · simp [stringBody, hescape]
  · simp [stringBody, hline]
  · obtain rfl : c = Char.ofNat 11 := by rw [← htab, Char.ofNat_toNat]
    simp [stringBody, hexDigit?]
  · obtain rfl : c = Char.ofNat 12 := by rw [← hfeed, Char.ofNat_toNat]
    simp [stringBody, hexDigit?]
  · have hbreak : isBreak c = false := by simp [isBreak, hline, htab, hfeed]
    rw [List.singleton_append, stringBody, if_neg (by simp [hbreak])]
    all_goals simp [hquote, hescape]

/-- Any text reads back from its escaped form. -/
theorem run_parseString_escape (text rest : Text) :
    parseString.run ('"' :: text.flatMap escape ++ '"' :: rest) = some (text, rest) := by
  simp only [parseString, StateT.run, List.cons_append, skipSpaces_cons (show '"' ≠ ' ' by decide)]
  induction text with
  | nil => simp [stringBody]
  | cons c text ih => rw [List.flatMap_cons, List.append_assoc, stringBody_escape, ih]; rfl

@[simp] theorem run_parseString_space (rest : Text) :
    parseString.run (' ' :: rest) = parseString.run rest := by
  simp [parseString, StateT.run]

/-! ## Reading lists back -/

/-- Texts with a comma and a space between them. -/
def interleaveComma (texts : List Text) : Text := List.intercalate [',', ' '] texts

@[simp] theorem interleaveComma_singleton (text : Text) : interleaveComma [text] = text := by
  simp [interleaveComma]

theorem interleaveComma_cons {text : Text} {texts : List Text} (h : texts ≠ []) :
    interleaveComma (text :: texts) = text ++ ',' :: ' ' :: interleaveComma texts := by
  obtain ⟨next, texts, rfl⟩ := List.exists_cons_of_ne_nil h
  simp [interleaveComma, List.intercalate]

theorem length_le_interleaveComma : ∀ texts : List Text,
    texts.length ≤ (interleaveComma texts).length + 1
  | [] => by simp
  | [_] => by simp
  | _ :: next :: texts => by
    have := length_le_interleaveComma (next :: texts)
    rw [interleaveComma_cons (by simp)]
    simp only [List.length_cons, List.length_append] at this ⊢
    omega

/-- What starts with neither a space nor a closing bracket. -/
def Opens (text : Text) : Prop := ∃ c rest, text = c :: rest ∧ c ≠ ' ' ∧ c ≠ ']'

section List

variable {parser : TextParser α} {print : α → Text}

/-- Elements that read back one by one read back with commas between them. -/
theorem run_commaSeparated (hspace : ∀ text, parser.run (' ' :: text) = parser.run text)
    (rest : Text) : ∀ {values : List α} {fuel : ℕ}, values ≠ [] → values.length ≤ fuel →
    (∀ value ∈ values, Reads parser (print value) value) →
    (commaSeparated parser fuel).run (interleaveComma (values.map print) ++ ']' :: rest) =
      some (values, ']' :: rest)
  | [], _, h, _, _ => absurd rfl h
  | _, 0, hne, hfuel, _ => by simp at hfuel; exact absurd hfuel hne
  | [value], fuel + 1, _, _, hreads => by
    have hvalue := hreads value (by simp) (']' :: rest) (by simp [isDelimiter])
    have hmore := run_parseOptional_ne (c := ',') (d := ']') (by decide) (by decide) rest
    simp only [commaSeparated, List.map_cons, List.map_nil, interleaveComma_singleton,
      StateT.run_bind, hvalue, hmore, Option.bind_eq_bind, Option.bind_some]
    rfl
  | value :: next :: values, fuel + 1, _, hfuel, hreads => by
    have hlength : (next :: values).length ≤ fuel := by simpa using hfuel
    have htail := run_commaSeparated hspace rest (by simp) hlength fun v hv =>
      hreads v (by simp [hv])
    generalize hnext : interleaveComma ((next :: values).map print) = text at htail
    have hvalue := hreads value (by simp) (',' :: ' ' :: (text ++ ']' :: rest))
      (by simp [isDelimiter])
    have hmore := run_parseOptional (c := ',') (by decide) (' ' :: (text ++ ']' :: rest))
    have hskip : (commaSeparated parser fuel).run (' ' :: (text ++ ']' :: rest)) =
        (commaSeparated parser fuel).run (text ++ ']' :: rest) := by
      cases fuel with
      | zero => rfl
      | succ fuel => simp only [commaSeparated, StateT.run_bind, hspace]
    rw [List.map_cons, interleaveComma_cons (by simp), hnext]
    simp only [commaSeparated, List.append_assoc, List.cons_append, StateT.run_bind, hvalue, hmore,
      Option.bind_eq_bind, Option.bind_some, if_true, hskip, htail]
    rfl

/-- A list reads back when its elements do. -/
theorem run_parseList (hspace : ∀ text, parser.run (' ' :: text) = parser.run text)
    {values : List α} (hopens : ∀ value ∈ values, Opens (print value))
    (hreads : ∀ value ∈ values, Reads parser (print value) value) (rest : Text) :
    (parseList parser).run (interleaveComma (values.map print) ++ ']' :: rest) =
      some (values, rest) := by
  by_cases hne : values = []
  · have hdone := run_parseOptional (c := ']') (by decide) rest
    simp only [hne, List.map_nil, interleaveComma, List.intercalate_nil, List.nil_append, parseList,
      StateT.run_bind, hdone, Option.bind_eq_bind, Option.bind_some]
    rfl
  have hfirst : ∃ c text, interleaveComma (values.map print) ++ ']' :: rest = c :: text ∧
      c ≠ ' ' ∧ c ≠ ']' := by
    obtain ⟨value, values, rfl⟩ := List.exists_cons_of_ne_nil hne
    obtain ⟨c, text, hprint, hc⟩ := hopens value (by simp)
    by_cases hvalues : values = []
    · exact ⟨c, text ++ ']' :: rest, by simp [hvalues, hprint], hc⟩
    · rw [List.map_cons, interleaveComma_cons (by simpa using hvalues), hprint]
      exact ⟨c, _, rfl, hc⟩
  obtain ⟨c, text, heq, hspace', hbracket⟩ := hfirst
  have hdone := run_parseOptional_ne (c := ']') hspace' hbracket text
  have hlength : values.length ≤
      (interleaveComma (values.map print) ++ ']' :: rest).length + 1 := by
    have := length_le_interleaveComma (values.map print)
    simp only [List.length_map, List.length_append] at this ⊢
    omega
  have hvalues := run_commaSeparated hspace rest hne hlength hreads
  have hclose := run_parsePunctuation (c := ']') (by decide) rest
  rw [heq] at hvalues ⊢
  simp only [parseList, StateT.run_bind, hdone, Option.bind_eq_bind, Option.bind_some,
    StateT.run_get, Option.pure_def, Bool.false_eq_true, if_false, hvalues, hclose]
  rfl

end List

/-! ## Parsers that call themselves -/

/-- The parsers approximate one another and, together, what the last parser takes. -/
structure Unrolls (unrolled : ℕ → TextParser α) (parser : TextParser α) : Prop where
  step : ∀ {n : ℕ} {text : Text} {r : α × Text},
    (unrolled n).run text = some r → (unrolled (n + 1)).run text = some r
  reached : ∀ {text : Text} {r : α × Text},
    parser.run text = some r → ∃ n, (unrolled n).run text = some r

namespace Unrolls

variable {unrolled : ℕ → TextParser α} {parser : TextParser α}

theorem le (h : Unrolls unrolled parser) {m n : ℕ} (hmn : m ≤ n) {text : Text} {r : α × Text}
    (hm : (unrolled m).run text = some r) : (unrolled n).run text = some r := by
  induction hmn with
  | refl => exact hm
  | step _ ih => exact h.step ih

/-- A parser that does not depend on the unrolling. -/
theorem const (parser : TextParser α) : Unrolls (fun _ => parser) parser :=
  ⟨id, fun h => ⟨0, h⟩⟩

theorem bind {next : ℕ → α → TextParser β} {last : α → TextParser β}
    (h : Unrolls unrolled parser) (hnext : ∀ a, Unrolls (fun n => next n a) (last a)) :
    Unrolls (fun n => unrolled n >>= next n) (parser >>= last) where
  step hrun := by
    simp only [StateT.run_bind, Option.bind_eq_bind, Option.bind_eq_some_iff] at hrun ⊢
    obtain ⟨⟨a, rest⟩, ha, hrun⟩ := hrun
    exact ⟨(a, rest), h.step ha, (hnext a).step hrun⟩
  reached hrun := by
    simp only [StateT.run_bind, Option.bind_eq_bind, Option.bind_eq_some_iff] at hrun
    obtain ⟨⟨a, rest⟩, ha, hrun⟩ := hrun
    obtain ⟨m, hm⟩ := h.reached ha
    obtain ⟨n, hn⟩ := (hnext a).reached hrun
    refine ⟨max m n, ?_⟩
    simp only [StateT.run_bind, Option.bind_eq_bind, Option.bind_eq_some_iff]
    exact ⟨(a, rest), h.le (Nat.le_max_left m n) hm, (hnext a).le (Nat.le_max_right m n) hn⟩

theorem ite {condition : Prop} [Decidable condition] {unrolled' : ℕ → TextParser α}
    {parser' : TextParser α} (h : Unrolls unrolled parser) (h' : Unrolls unrolled' parser') :
    Unrolls (fun n => if condition then unrolled n else unrolled' n)
      (if condition then parser else parser') := by
  split <;> assumption

theorem commaSeparated (h : Unrolls unrolled parser) :
    ∀ fuel, Unrolls (fun n => (unrolled n).commaSeparated fuel) (parser.commaSeparated fuel)
  | 0 => const _
  | fuel + 1 => h.bind fun _ => (const _).bind fun _ =>
      ite ((commaSeparated h fuel).bind fun _ => const _) (const _)

theorem parseList (h : Unrolls unrolled parser) :
    Unrolls (fun n => (unrolled n).parseList) parser.parseList :=
  (const _).bind fun _ => ite (const _) <| (const _).bind fun _ =>
    (commaSeparated h _).bind fun _ => (const _).bind fun _ => const _

end Unrolls

open Classical in
/-- What some unrolling takes. -/
noncomputable def limit (unrolled : ℕ → TextParser α) : TextParser α := fun text =>
  if h : ∃ n r, (unrolled n).run text = some r then some h.choose_spec.choose else none

/-- Unrollings that extend one another unroll their limit. -/
theorem unrolls_limit {unrolled : ℕ → TextParser α}
    (step : ∀ {n text r}, (unrolled n).run text = some r → (unrolled (n + 1)).run text = some r) :
    Unrolls unrolled (limit unrolled) := by
  refine ⟨step, fun {text r} h => ?_⟩
  by_cases hex : ∃ n r, (unrolled n).run text = some r
  · have hchosen := hex.choose_spec.choose_spec
    have heq : (limit unrolled).run text = some hex.choose_spec.choose := dif_pos hex
    exact ⟨hex.choose, hchosen.trans (heq.symm.trans h)⟩
  · have heq : (limit unrolled).run text = none := dif_neg hex
    simp [heq] at h

/-- The limit takes what an unrolling takes. -/
theorem run_limit {unrolled : ℕ → TextParser α} (h : Unrolls unrolled (limit unrolled)) {n : ℕ}
    {text : Text} {r : α × Text} (hn : (unrolled n).run text = some r) :
    (limit unrolled).run text = some r := by
  have hex : ∃ n r, (unrolled n).run text = some r := ⟨n, r, hn⟩
  have hchosen := hex.choose_spec.choose_spec
  have heq := (h.le (Nat.le_max_left n hex.choose) hn).symm.trans
    (h.le (Nat.le_max_right n hex.choose) hchosen)
  rw [heq]
  exact dif_pos hex

/-- Texts that every unrolling reads alike, the limit reads alike. -/
theorem run_limit_congr {unrolled : ℕ → TextParser α} (h : Unrolls unrolled (limit unrolled))
    {text text' : Text} (hsame : ∀ n, (unrolled n).run text = (unrolled n).run text') :
    (limit unrolled).run text = (limit unrolled).run text' := by
  refine Option.ext fun r => ⟨fun hr => ?_, fun hr => ?_⟩
  · obtain ⟨n, hn⟩ := h.reached hr
    exact run_limit h ((hsame n).symm.trans hn)
  · obtain ⟨n, hn⟩ := h.reached hr
    exact run_limit h ((hsame n).trans hn)

end TextParser
