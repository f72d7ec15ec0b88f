import Sela.Dialect

/-!
# A framework that meets the laws

A printer and a parser of the framework's types and attributes for which the laws of
`TextFramework.Lawful` hold, so what is proved from them is about something. Integers,
floats, strings and lists are spelled the usual way, everything else as a keyword and its
parts in angle brackets. A type inside a type is parsed by the same parser, which is the limit
of its unrollings.
-/

namespace Sela.PlainText

open TextParser

/-! ## Printing -/

/-! The keywords, as their characters. -/

namespace Keyword

def f32 : Text := ['f', '3', '2']

def f64 : Text := ['f', '6', '4']

def vector : Text := ['v', 'e', 'c', 't', 'o', 'r']

def function : Text := ['f', 'u', 'n', 'c', 't', 'i', 'o', 'n']

def foreign : Text := ['f', 'o', 'r', 'e', 'i', 'g', 'n']

def number : Text := ['n', 'u', 'm', 'b', 'e', 'r']

def unit : Text := ['u', 'n', 'i', 't']

def integer : Text := ['i', 'n', 't', 'e', 'g', 'e', 'r']

def float : Text := ['f', 'l', 'o', 'a', 't']

def type : Text := ['t', 'y', 'p', 'e']

def dictionary : Text := ['d', 'i', 'c', 't', 'i', 'o', 'n', 'a', 'r', 'y']

def dense : Text := ['d', 'e', 'n', 's', 'e']

end Keyword

/-- A string in quotes, its characters escaped. -/
def quoted (text : String) : Text := '"' :: text.toList.flatMap escape ++ ['"']

/-- A list in square brackets. -/
def bracketed (texts : List Text) : Text := '[' :: interleaveComma texts ++ [']']

/-- A number with its sign. -/
def printInt (value : ℤ) : Text :=
  if value < 0 then '-' :: Nat.toDigits 10 value.natAbs else Nat.toDigits 10 value.natAbs

/-- The kind of an integer that is not signless, and its width. -/
def printNumberType (type : NumberType) : Text :=
  Nat.toDigits 10 (match type with | .signed _ => 0 | .unsigned _ => 1 | .index => 2) ++
    ',' :: Nat.toDigits 10 type.width

mutual

def printType : SelaType → Text
  | .integer width => 'i' :: Nat.toDigits 10 width
  | .f32 => Keyword.f32
  | .f64 => Keyword.f64
  | .vector shape scalable element =>
    Keyword.vector ++ '<' :: (bracketed (shape.map (Nat.toDigits 10)) ++
      ',' :: (Nat.toDigits 10 scalable.toNat ++ ',' :: (printType element ++ ['>'])))
  | .function inputs results =>
    Keyword.function ++ '<' :: (bracketed (printTypes inputs) ++
      ',' :: (bracketed (printTypes results) ++ ['>']))
  | .foreign (.number type) => Keyword.number ++ '<' :: (printNumberType type ++ ['>'])
  | .foreign (.other name) => Keyword.foreign ++ '<' :: (quoted name ++ ['>'])
  | .word => SelaDialect.sigil ++ SelaDialect.Keyword.word
  | .ptr => SelaDialect.sigil ++ SelaDialect.Keyword.ptr
  | .vaList => SelaDialect.sigil ++ SelaDialect.Keyword.vaList
  | .vaListArgument => SelaDialect.sigil ++ SelaDialect.Keyword.vaListArgument
  | .array element (.integer _ value) | .array element (.foreign (.number _ value)) =>
    SelaDialect.sigil ++ (SelaDialect.Keyword.array ++ '<' ::
      (Nat.toDigits 10 (value % 2 ^ 64) ++ ',' :: ' ' :: (printType element ++ ['>'])))
  | .array element count =>
    SelaDialect.sigil ++ (SelaDialect.Keyword.targetArray ++ '<' ::
      (printAttribute count ++ ',' :: ' ' :: (printType element ++ ['>'])))
  | .choice cases =>
    SelaDialect.sigil ++ (SelaDialect.Keyword.choice ++ '<' :: (printAttribute cases ++ ['>']))
  | .overlap identity alternatives domains =>
    SelaDialect.sigil ++ (SelaDialect.Keyword.overlap ++ '<' :: '"' :: (identity.toList ++
      '"' :: ',' :: ' ' :: '[' :: (interleaveComma (printTypes alternatives) ++
        ']' :: ',' :: ' ' :: (bracketed (printAttributes domains) ++ ['>']))))
  | .record identity packed fields =>
    SelaDialect.sigil ++ (SelaDialect.Keyword.record ++ '<' :: '"' :: (identity.toList ++
      '"' :: ',' :: ' ' :: (Nat.toDigits 10 packed.toNat ++ ',' :: ' ' :: '[' ::
        (interleaveComma (printTypes fields) ++ [']', '>']))))

def printTypes : List SelaType → List Text
  | [] => []
  | type :: types => printType type :: printTypes types

def printAttribute : Attr → Text
  | .unit => Keyword.unit
  | .integer width value =>
    Keyword.integer ++ '<' :: (Nat.toDigits 10 width ++ ',' :: (Nat.toDigits 10 value ++ ['>']))
  | .float scalar bits =>
    Keyword.float ++ '<' :: (printType scalar ++ ',' :: (Nat.toDigits 10 bits ++ ['>']))
  | .string text => quoted text
  | .type value => Keyword.type ++ '<' :: (printType value ++ ['>'])
  | .array elements => bracketed (printAttributes elements)
  | .dictionary entries => Keyword.dictionary ++ '<' :: (bracketed (printEntries entries) ++ ['>'])
  | .denseI32 values => Keyword.dense ++ '<' :: (bracketed (values.map printInt) ++ ['>'])
  | .foreign (.number type value) =>
    Keyword.number ++ '<' :: (printNumberType type ++ ',' :: (Nat.toDigits 10 value ++ ['>']))
  | .foreign (.other name) => Keyword.foreign ++ '<' :: (quoted name ++ ['>'])

def printAttributes : List Attr → List Text
  | [] => []
  | element :: elements => printAttribute element :: printAttributes elements

def printEntries : List (String × Attr) → List Text
  | [] => []
  | (name, value) :: entries => (quoted name ++ '=' :: printAttribute value) :: printEntries entries

end

theorem printTypes_eq : ∀ types : List SelaType, printTypes types = types.map printType
  | [] => rfl
  | type :: types => by rw [printTypes, printTypes_eq types, List.map_cons]

theorem printAttributes_eq : ∀ elements : List Attr,
    printAttributes elements = elements.map printAttribute
  | [] => rfl
  | element :: elements => by rw [printAttributes, printAttributes_eq elements, List.map_cons]

/-- The text of one entry of a dictionary. -/
def printEntry (entry : String × Attr) : Text := quoted entry.1 ++ '=' :: printAttribute entry.2

theorem printEntries_eq : ∀ entries : List (String × Attr),
    printEntries entries = entries.map printEntry
  | [] => rfl
  | (name, value) :: entries => by rw [printEntries, printEntries_eq entries, List.map_cons]; rfl

/-! ## Parsing -/

/-- What the text starts with. -/
def parseLiteral (literal : Text) : TextParser Unit := fun text =>
  if literal.isPrefixOf text then some ((), text.drop literal.length) else none

/-- A string after its opening quote. -/
def parseStringBody : TextParser Text := stringBody

/-- A number with its sign. -/
def parseInt : TextParser ℤ := do
  let negative ← parseOptional '-'
  let value ← parseNumber
  pure (if negative then -value else value)

section Body

variable (framework : TextFramework)

def parseVector : TextParser SelaType := do
  parsePunctuation '<'
  parsePunctuation '['
  let shape ← parseList parseNumber
  parsePunctuation ','
  let scalable ← parseNumber
  parsePunctuation ','
  let element ← framework.parseType
  parsePunctuation '>'
  pure (.vector shape (scalable == 1) element)

def parseFunction : TextParser SelaType := do
  parsePunctuation '<'
  parsePunctuation '['
  let inputs ← parseList framework.parseType
  parsePunctuation ','
  parsePunctuation '['
  let results ← parseList framework.parseType
  parsePunctuation '>'
  pure (.function inputs results)

/-- A name in angle brackets. -/
def parseName : TextParser String := do
  parsePunctuation '<'
  let name ← parseString
  parsePunctuation '>'
  pure (.ofList name)

/-- The type of an integer that is not signless. -/
def parseNumberType : TextParser NumberType := do
  let kind ← parseNumber
  parsePunctuation ','
  let width ← parseNumber
  pure (if kind = 0 then .signed width else if kind = 1 then .unsigned width else .index)

def parseNumberParts : TextParser SelaType := do
  parsePunctuation '<'
  let type ← parseNumberType
  parsePunctuation '>'
  pure (.foreign (.number type))

/-- The parts of a type of the framework, after its keyword. -/
def parseTypeParts (keyword : Text) : TextParser SelaType :=
  if keyword = Keyword.f32 then pure .f32
  else if keyword = Keyword.f64 then pure .f64
  else if keyword = Keyword.vector then parseVector framework
  else if keyword = Keyword.function then parseFunction framework
  else if keyword = Keyword.foreign then do
    let name ← parseName
    pure (.foreign (.other name))
  else if keyword = Keyword.number then parseNumberParts
  else match keyword with
    | 'i' :: digits => pure (.integer (Nat.ofDigitChars 10 digits 0))
    | _ => failure

/-- A type, where the framework parses the types and attributes inside. -/
def parseType : TextParser SelaType := do
  let sela ← parseOptional '!'
  if sela then
    parseLiteral ['s', 'e', 'l', 'a', '.']
    SelaDialect.parseType framework
  else
    let keyword ← parseKeyword
    parseTypeParts framework keyword

/-- One entry of a dictionary. -/
def parseEntry : TextParser (String × Attr) := do
  let name ← parseString
  parsePunctuation '='
  let value ← framework.parseAttribute
  pure (.ofList name, value)

def parseIntegerParts : TextParser Attr := do
  parsePunctuation '<'
  let width ← parseNumber
  parsePunctuation ','
  let value ← parseNumber
  parsePunctuation '>'
  pure (.integer width value)

def parseFloatParts : TextParser Attr := do
  parsePunctuation '<'
  let scalar ← framework.parseType
  parsePunctuation ','
  let bits ← parseNumber
  parsePunctuation '>'
  pure (.float scalar bits)

def parseTypeAttribute : TextParser Attr := do
  parsePunctuation '<'
  let value ← framework.parseType
  parsePunctuation '>'
  pure (.type value)

def parseDictionary : TextParser Attr := do
  parsePunctuation '<'
  parsePunctuation '['
  let entries ← parseList (parseEntry framework)
  parsePunctuation '>'
  pure (.dictionary entries)

def parseNumberAttribute : TextParser Attr := do
  parsePunctuation '<'
  let type ← parseNumberType
  parsePunctuation ','
  let value ← parseNumber
  parsePunctuation '>'
  pure (.foreign (.number type value))

def parseDense : TextParser Attr := do
  parsePunctuation '<'
  parsePunctuation '['
  let values ← parseList parseInt
  parsePunctuation '>'
  pure (.denseI32 values)

/-- The parts of an attribute, after its keyword. -/
def parseAttributeParts (keyword : Text) : TextParser Attr :=
  if keyword = Keyword.unit then pure .unit
  else if keyword = Keyword.integer then parseIntegerParts
  else if keyword = Keyword.float then parseFloatParts framework
  else if keyword = Keyword.type then parseTypeAttribute framework
  else if keyword = Keyword.dictionary then parseDictionary framework
  else if keyword = Keyword.dense then parseDense
  else if keyword = Keyword.foreign then do
    let name ← parseName
    pure (.foreign (.other name))
  else if keyword = Keyword.number then parseNumberAttribute
  else failure

/-- An attribute, where the framework parses the types and attributes inside. -/
def parseAttribute : TextParser Attr := do
  let list ← parseOptional '['
  if list then
    let elements ← parseList framework.parseAttribute
    pure (.array elements)
  else
    let text ← parseOptional '"'
    if text then
      let text ← parseStringBody
      pure (.string (.ofList text))
    else
      let keyword ← parseKeyword
      parseAttributeParts framework keyword

end Body

/-- The framework whose parsers know `n` levels of types and attributes. -/
def unrolled : ℕ → TextFramework
  | 0 => ⟨printType, printAttribute, failure, failure⟩
  | n + 1 => ⟨printType, printAttribute, parseType (unrolled n), parseAttribute (unrolled n)⟩

/-- The framework whose parsers know types and attributes of any depth. -/
noncomputable def framework : TextFramework where
  printType := printType
  printAttribute := printAttribute
  parseType := limit fun n => (unrolled n).parseType
  parseAttribute := limit fun n => (unrolled n).parseAttribute

/-! ## Unrolling -/

section Unroll

variable {frameworks : ℕ → TextFramework} {last : TextFramework}

/-- The parsers of the frameworks unroll those of the last one. -/
structure Unroll (frameworks : ℕ → TextFramework) (last : TextFramework) : Prop where
  type : Unrolls (fun n => (frameworks n).parseType) last.parseType
  attr : Unrolls (fun n => (frameworks n).parseAttribute) last.parseAttribute

open Unrolls in
theorem unrolls_parseBody (h : Unroll frameworks last) (keyword : Text) :
    Unrolls (fun n => SelaDialect.parseBody (frameworks n) keyword)
      (SelaDialect.parseBody last keyword) := by
  have harray : Unrolls (fun n => SelaDialect.parseArray (frameworks n))
      (SelaDialect.parseArray last) :=
    (const _).bind fun _ => (const _).bind fun _ => (const _).bind fun _ =>
      h.type.bind fun _ => (const _).bind fun _ => const _
  have htarget : Unrolls (fun n => SelaDialect.parseTargetArray (frameworks n))
      (SelaDialect.parseTargetArray last) :=
    (const _).bind fun _ => h.attr.bind fun _ => (const _).bind fun _ =>
      h.type.bind fun _ => (const _).bind fun _ => const _
  have hchoice : Unrolls (fun n => SelaDialect.parseChoice (frameworks n))
      (SelaDialect.parseChoice last) :=
    (const _).bind fun _ => h.attr.bind fun _ => (const _).bind fun _ => const _
  have hoverlap : Unrolls (fun n => SelaDialect.parseOverlap (frameworks n))
      (SelaDialect.parseOverlap last) :=
    (const _).bind fun _ => (const _).bind fun _ => (const _).bind fun _ => (const _).bind fun _ =>
      h.type.parseList.bind fun _ => (const _).bind fun _ => h.attr.bind fun _ =>
        (const _).bind fun _ => const _
  have hrecord : Unrolls (fun n => SelaDialect.parseRecord (frameworks n))
      (SelaDialect.parseRecord last) :=
    (const _).bind fun _ => (const _).bind fun _ => (const _).bind fun _ => (const _).bind fun _ =>
      ite (const _) <| (const _).bind fun _ => (const _).bind fun _ =>
        h.type.parseList.bind fun _ => (const _).bind fun _ => const _
  exact ite (const _) <| ite (const _) <| ite (const _) <| ite (const _) <| ite harray <|
    ite htarget <| ite hchoice <| ite hoverlap <| ite hrecord <| const _

open Unrolls in
theorem unrolls_parseType (h : Unroll frameworks last) :
    Unrolls (fun n => parseType (frameworks n)) (parseType last) := by
  have hparts : ∀ keyword, Unrolls (fun n => parseTypeParts (frameworks n) keyword)
      (parseTypeParts last keyword) := fun keyword =>
    ite (const _) <| ite (const _) <|
      ite ((const _).bind fun _ => (const _).bind fun _ => (const _).bind fun _ =>
        (const _).bind fun _ => (const _).bind fun _ => (const _).bind fun _ =>
          h.type.bind fun _ => (const _).bind fun _ => const _) <|
      ite ((const _).bind fun _ => (const _).bind fun _ => h.type.parseList.bind fun _ =>
        (const _).bind fun _ => (const _).bind fun _ => h.type.parseList.bind fun _ =>
          (const _).bind fun _ => const _) <|
      ite (const _) <| ite (const _) (const _)
  exact (const _).bind fun _ => ite
    ((const _).bind fun _ => (const _).bind fun keyword => unrolls_parseBody h keyword)
    ((const _).bind hparts)

open Unrolls in
theorem unrolls_parseAttribute (h : Unroll frameworks last) :
    Unrolls (fun n => parseAttribute (frameworks n)) (parseAttribute last) := by
  have hentry : Unrolls (fun n => parseEntry (frameworks n)) (parseEntry last) :=
    (const _).bind fun _ => (const _).bind fun _ => h.attr.bind fun _ => const _
  have hparts : ∀ keyword, Unrolls (fun n => parseAttributeParts (frameworks n) keyword)
      (parseAttributeParts last keyword) := fun keyword =>
    ite (const _) <| ite (const _) <|
      ite ((const _).bind fun _ => h.type.bind fun _ => (const _).bind fun _ =>
        (const _).bind fun _ => (const _).bind fun _ => const _) <|
      ite ((const _).bind fun _ => h.type.bind fun _ => (const _).bind fun _ => const _) <|
      ite ((const _).bind fun _ => (const _).bind fun _ => hentry.parseList.bind fun _ =>
        (const _).bind fun _ => const _) <|
      ite (const _) <| ite (const _) <| ite (const _) (const _)
  exact (const _).bind fun _ => ite (h.attr.parseList.bind fun _ => const _) <|
    (const _).bind fun _ => ite (const _) <| (const _).bind hparts

/-- Another level takes what the levels before took. -/
theorem unrolled_step : ∀ n,
    (∀ {text r}, (unrolled n).parseType.run text = some r →
      (unrolled (n + 1)).parseType.run text = some r) ∧
    ∀ {text r}, (unrolled n).parseAttribute.run text = some r →
      (unrolled (n + 1)).parseAttribute.run text = some r
  | 0 => ⟨fun h => by simp [unrolled] at h, fun h => by simp [unrolled] at h⟩
  | n + 1 => by
    obtain ⟨htype, hattribute⟩ := unrolled_step n
    -- the two levels as an unrolling that is complete after one step
    have hpair : Unroll (fun k => if k = 0 then unrolled n else unrolled (n + 1))
        (unrolled (n + 1)) := by
      refine ⟨⟨fun {k} _ _ h => ?_, fun h => ⟨1, h⟩⟩, ⟨fun {k} _ _ h => ?_, fun h => ⟨1, h⟩⟩⟩
      · cases k with
        | zero => exact htype h
        | succ k => exact h
      · cases k with
        | zero => exact hattribute h
        | succ k => exact h
    exact ⟨fun h => (unrolls_parseType hpair).step (n := 0) h,
      fun h => (unrolls_parseAttribute hpair).step (n := 0) h⟩

theorem unroll_framework : Unroll unrolled framework :=
  ⟨unrolls_limit fun h => (unrolled_step _).1 h, unrolls_limit fun h => (unrolled_step _).2 h⟩

/-- The framework's parser of types unfolds. -/
theorem run_parseType {text : Text} {r : SelaType × Text}
    (h : (parseType framework).run text = some r) : framework.parseType.run text = some r := by
  obtain ⟨n, hn⟩ := (unrolls_parseType unroll_framework).reached h
  exact run_limit unroll_framework.type (n := n + 1) hn

/-- The framework's parser of attributes unfolds. -/
theorem run_parseAttribute {text : Text} {r : Attr × Text}
    (h : (parseAttribute framework).run text = some r) :
    framework.parseAttribute.run text = some r := by
  obtain ⟨n, hn⟩ := (unrolls_parseAttribute unroll_framework).reached h
  exact run_limit unroll_framework.attr (n := n + 1) hn

end Unroll

/-! ## The laws -/

@[simp] theorem printType_framework : framework.printType = printType := rfl

@[simp] theorem printAttribute_framework : framework.printAttribute = printAttribute := rfl

theorem printSela {type : SelaType} (h : type.isSela = true) :
    framework.printType type = SelaDialect.sigil ++ SelaDialect.printType framework type := by
  cases type with
  | array element count =>
    rcases count with _ | _ | _ | _ | _ | _ | _ | _ | (_ | _) <;>
      simp [printType, SelaDialect.printType, SelaDialect.printArray]
  | choice cases => simp [printType, SelaDialect.printType]
  | overlap identity alternatives domains =>
    simp [printType, SelaDialect.printType, printTypes_eq, printAttribute, printAttributes_eq]
  | record identity packed fields =>
    simp [printType, SelaDialect.printType, printTypes_eq]
  | word | ptr | vaList | vaListArgument => rfl
  | _ => simp [SelaType.isSela] at h

/-- No type starts with a space or a closing bracket. -/
theorem opens (type : SelaType) : Opens (printType type) := by
  cases type with
  | array element count =>
    rcases count with _ | _ | _ | _ | _ | _ | _ | _ | (_ | _) <;>
      exact ⟨'!', _, rfl, by decide, by decide⟩
  | integer width => exact ⟨'i', _, rfl, by decide, by decide⟩
  | f32 => exact ⟨'f', _, rfl, by decide, by decide⟩
  | f64 => exact ⟨'f', _, rfl, by decide, by decide⟩
  | vector shape scalable element => exact ⟨'v', _, rfl, by decide, by decide⟩
  | function inputs results => exact ⟨'f', _, rfl, by decide, by decide⟩
  | foreign type =>
    cases type with
    | number type => exact ⟨'n', _, rfl, by decide, by decide⟩
    | other name => exact ⟨'f', _, rfl, by decide, by decide⟩
  | _ => exact ⟨'!', _, rfl, by decide, by decide⟩

theorem opens_attribute (attr : Attr) : Opens (printAttribute attr) := by
  cases attr with
  | string text => exact ⟨'"', _, rfl, by decide, by decide⟩
  | array elements => exact ⟨'[', _, rfl, by decide, by decide⟩
  | unit => exact ⟨'u', _, rfl, by decide, by decide⟩
  | integer width value => exact ⟨'i', _, rfl, by decide, by decide⟩
  | float scalar bits => exact ⟨'f', _, rfl, by decide, by decide⟩
  | type value => exact ⟨'t', _, rfl, by decide, by decide⟩
  | dictionary entries => exact ⟨'d', _, rfl, by decide, by decide⟩
  | denseI32 values => exact ⟨'d', _, rfl, by decide, by decide⟩
  | foreign attr =>
    cases attr with
    | number type value => exact ⟨'n', _, rfl, by decide, by decide⟩
    | other name => exact ⟨'f', _, rfl, by decide, by decide⟩

theorem parseSela {type : SelaType} (h : Reads (SelaDialect.parseType framework)
    (SelaDialect.printType framework type) type) :
    Reads framework.parseType (SelaDialect.sigil ++ SelaDialect.printType framework type) type := by
  intro rest hrest
  refine run_parseType ?_
  have hbody := h rest hrest
  have hopen := run_parseOptional (c := '!') (by decide)
    ('s' :: 'e' :: 'l' :: 'a' :: '.' :: (SelaDialect.printType framework type ++ rest))
  have hliteral : (parseLiteral ['s', 'e', 'l', 'a', '.']).run
      ('s' :: 'e' :: 'l' :: 'a' :: '.' :: (SelaDialect.printType framework type ++ rest)) =
      some ((), SelaDialect.printType framework type ++ rest) := by
    simp [parseLiteral, StateT.run]
  simp only [SelaDialect.sigil, List.cons_append, List.nil_append, parseType, StateT.run_bind,
    hopen, Option.bind_eq_bind, Option.bind_some, if_true, hliteral, hbody]

/-- A type of the framework is its keyword and its parts. -/
theorem reads_keyword {type : SelaType} (keyword parts : Text) (parser : TextParser SelaType)
    (hkeyword : isKeyword keyword = true) (hparser : parseTypeParts framework keyword = parser)
    (hprint : printType type = keyword ++ parts)
    (hparts : ∀ rest, Delimited rest → EndsKeyword (parts ++ rest) ∧
      parser.run (parts ++ rest) = some (type, rest)) :
    framework.ReadsType type := by
  subst hparser
  intro rest hrest
  obtain ⟨hends, hrun⟩ := hparts rest hrest
  refine run_parseType ?_
  obtain ⟨c, word, rfl⟩ : ∃ c word, keyword = c :: word := by
    cases keyword with
    | nil => simp [isKeyword] at hkeyword
    | cons c word => exact ⟨c, word, rfl⟩
  have hletter : (c.isAlpha || c == '_') = true := by
    simp only [isKeyword, Bool.and_eq_true] at hkeyword
    exact hkeyword.1
  have hspace : c ≠ ' ' := by
    rintro rfl
    exact absurd hletter (by decide)
  have hsigil : c ≠ '!' := by
    rintro rfl
    exact absurd hletter (by decide)
  have hopen := run_parseOptional_ne hspace hsigil (word ++ (parts ++ rest))
  have hword := run_parseKeyword hkeyword hends
  rw [printType_framework, hprint, List.append_assoc]
  rw [List.cons_append] at hword ⊢
  simp only [parseType, StateT.run_bind, hopen, Option.bind_eq_bind, Option.bind_some,
    Bool.false_eq_true, if_false, hword, hrun]

/-- An attribute that is a keyword and its parts. -/
theorem reads_attribute_keyword {attr : Attr} (keyword parts : Text) (parser : TextParser Attr)
    (hkeyword : isKeyword keyword = true) (hparser : parseAttributeParts framework keyword = parser)
    (hprint : printAttribute attr = keyword ++ parts)
    (hparts : ∀ rest, Delimited rest → EndsKeyword (parts ++ rest) ∧
      parser.run (parts ++ rest) = some (attr, rest)) :
    framework.ReadsAttribute attr := by
  subst hparser
  intro rest hrest
  obtain ⟨hends, hrun⟩ := hparts rest hrest
  refine run_parseAttribute ?_
  obtain ⟨c, word, rfl⟩ : ∃ c word, keyword = c :: word := by
    cases keyword with
    | nil => simp [isKeyword] at hkeyword
    | cons c word => exact ⟨c, word, rfl⟩
  have hletter : (c.isAlpha || c == '_') = true := by
    simp only [isKeyword, Bool.and_eq_true] at hkeyword
    exact hkeyword.1
  have hne : ∀ d : Char, (d.isAlpha || d == '_') = false → c ≠ d := by
    rintro d hd rfl
    simp [hd] at hletter
  have hlist := run_parseOptional_ne (hne ' ' (by decide)) (hne '[' (by decide))
    (word ++ (parts ++ rest))
  have htext := run_parseOptional_ne (hne ' ' (by decide)) (hne '"' (by decide))
    (word ++ (parts ++ rest))
  have hword := run_parseKeyword hkeyword hends
  rw [printAttribute_framework, hprint, List.append_assoc]
  rw [List.cons_append] at hword ⊢
  simp only [parseAttribute, StateT.run_bind, hlist, htext, Option.bind_eq_bind, Option.bind_some,
    Bool.false_eq_true, if_false, hword, hrun]

theorem run_parseString_quoted (text : String) (rest : Text) :
    parseString.run (quoted text ++ rest) = some (text.toList, rest) := by
  simpa [quoted] using run_parseString_escape text.toList rest

/-- A list in its brackets reads back, after the opening one, when its elements do. -/
theorem run_parseList_bracketed {α : Type} {parser : TextParser α} {print : α → Text}
    (hspace : ∀ text, parser.run (' ' :: text) = parser.run text) {values : List α}
    (hopens : ∀ value ∈ values, Opens (print value))
    (hreads : ∀ value ∈ values, Reads parser (print value) value) (rest : Text) :
    bracketed (values.map print) ++ rest =
        '[' :: (interleaveComma (values.map print) ++ ']' :: rest) ∧
      (parseList parser).run (interleaveComma (values.map print) ++ ']' :: rest) =
        some (values, rest) :=
  ⟨by simp [bracketed], run_parseList hspace hopens hreads rest⟩

theorem reads_number (value : ℕ) : Reads parseNumber (Nat.toDigits 10 value) value := by
  intro rest hrest
  refine run_parseNumber value fun c hc => ?_
  have := hrest c hc
  simp only [isDelimiter, Bool.or_eq_true, beq_iff_eq] at this
  obtain (((rfl | rfl) | rfl) | rfl) | rfl := this <;> decide

theorem opens_number (value : ℕ) : Opens (Nat.toDigits 10 value) := by
  obtain ⟨c, digits, heq⟩ := List.exists_cons_of_ne_nil (Nat.toDigits_ne_nil (b := 10) (n := value))
  have hdigit : c.isDigit = true :=
    Nat.isDigit_of_mem_toDigits (by decide) (by decide) (show c ∈ Nat.toDigits 10 value by simp [heq])
  refine ⟨c, digits, heq, ?_, ?_⟩ <;> rintro rfl <;> exact absurd hdigit (by decide)

theorem parseType_space (text : Text) :
    framework.parseType.run (' ' :: text) = framework.parseType.run text := by
  refine run_limit_congr unroll_framework.type fun n => ?_
  cases n with
  | zero => rfl
  | succ n => simp only [unrolled, parseType, StateT.run_bind, run_parseOptional_space]

theorem parseAttribute_space (text : Text) :
    framework.parseAttribute.run (' ' :: text) = framework.parseAttribute.run text := by
  refine run_limit_congr unroll_framework.attr fun n => ?_
  cases n with
  | zero => rfl
  | succ n => simp only [unrolled, parseAttribute, StateT.run_bind, run_parseOptional_space]

theorem run_parseName (name : String) (rest : Text) :
    parseName.run ('<' :: (quoted name ++ '>' :: rest)) = some (name, rest) := by
  simp only [parseName, StateT.run_bind, run_parsePunctuation, run_parseString_quoted,
    Option.bind_eq_bind, Option.bind_some, String.ofList_toList, ne_eq, Char.reduceEq,
    not_false_eq_true]
  rfl

theorem reads_numberType (type : NumberType) :
    Reads parseNumberType (printNumberType type) type := by
  intro rest hrest
  have hwidth := reads_number type.width rest hrest
  have hkind : ∀ kind, parseNumber.run
      (Nat.toDigits 10 kind ++ ',' :: (Nat.toDigits 10 type.width ++ rest)) =
        some (kind, ',' :: (Nat.toDigits 10 type.width ++ rest)) :=
    fun kind => reads_number kind _ (by simp [isDelimiter])
  simp only [printNumberType, List.append_assoc, List.cons_append, parseNumberType,
    StateT.run_bind, hkind, run_parsePunctuation, hwidth, Option.bind_eq_bind, Option.bind_some,
    ne_eq, Char.reduceEq, not_false_eq_true]
  cases type <;> rfl

theorem run_parseVector {shape : List ℕ} {scalable : Bool} {element : SelaType}
    (helement : framework.ReadsType element) (rest : Text) :
    (parseVector framework).run ('<' :: (bracketed (shape.map (Nat.toDigits 10)) ++
      ',' :: (Nat.toDigits 10 scalable.toNat ++ ',' :: (printType element ++ '>' :: rest)))) =
      some (.vector shape scalable element, rest) := by
  obtain ⟨hshape, hrun⟩ := @run_parseList_bracketed _ parseNumber _
    run_parseNumber_space shape (fun value _ => opens_number value)
    (fun value (_ : value ∈ shape) => reads_number value)
    (',' :: (Nat.toDigits 10 scalable.toNat ++ ',' :: (printType element ++ '>' :: rest)))
  have hscalable := reads_number scalable.toNat (',' :: (printType element ++ '>' :: rest))
    (by simp [isDelimiter])
  have helement := helement ('>' :: rest) (by simp [isDelimiter])
  have hbit : (scalable.toNat == 1) = scalable := by cases scalable <;> rfl
  rw [printType_framework] at helement
  rw [hshape]
  simp only [parseVector, StateT.run_bind, run_parsePunctuation, hrun, hscalable, helement, hbit,
    Option.bind_eq_bind, Option.bind_some, ne_eq, Char.reduceEq, not_false_eq_true]
  rfl

theorem run_parseFunction {inputs results : List SelaType}
    (hinputs : ∀ type ∈ inputs, framework.ReadsType type)
    (hresults : ∀ type ∈ results, framework.ReadsType type) (rest : Text) :
    (parseFunction framework).run ('<' :: (bracketed (inputs.map printType) ++
      ',' :: (bracketed (results.map printType) ++ '>' :: rest))) =
      some (.function inputs results, rest) := by
  obtain ⟨hinputsText, hinputs⟩ := run_parseList_bracketed parseType_space (fun type _ => opens type)
    hinputs (',' :: (bracketed (results.map printType) ++ '>' :: rest))
  obtain ⟨hresultsText, hresults⟩ := run_parseList_bracketed parseType_space
    (fun type _ => opens type) hresults ('>' :: rest)
  rw [hinputsText]
  rw [hresultsText] at hinputs ⊢
  simp only [parseFunction, StateT.run_bind, run_parsePunctuation, hinputs, hresults,
    Option.bind_eq_bind, Option.bind_some, ne_eq, Char.reduceEq, not_false_eq_true]
  rfl

/-- The framework's own types read back when the types inside do. -/
theorem readsType {type : SelaType} (hsela : type.isSela = false)
    (hinside : ∀ inner ∈ type.inside, framework.ReadsType inner) : framework.ReadsType type := by
  cases type with
  | f32 => exact reads_keyword Keyword.f32 [] (pure .f32) (by decide) rfl rfl fun rest hrest =>
      ⟨hrest.endsKeyword, rfl⟩
  | f64 => exact reads_keyword Keyword.f64 [] (pure .f64) (by decide) rfl rfl fun rest hrest =>
      ⟨hrest.endsKeyword, rfl⟩
  | integer width =>
    have hdigit : ∀ c ∈ Nat.toDigits 10 width, c.isDigit = true := fun c hc =>
      Nat.isDigit_of_mem_toDigits (by decide) (by decide) hc
    refine reads_keyword ('i' :: Nat.toDigits 10 width) [] _ ?_ rfl (by simp [printType])
      fun rest hrest => ⟨hrest.endsKeyword, ?_⟩
    · simp only [isKeyword, Bool.and_eq_true, List.all_eq_true]
      refine ⟨by decide, fun c hc => ?_⟩
      simp [isKeywordChar, Char.isAlphanum, hdigit c hc]
    · have hne : ∀ word : Text, word.head? ≠ some 'i' → 'i' :: Nat.toDigits 10 width ≠ word := by
        rintro word hword rfl
        simp at hword
      simp only [parseTypeParts]
      rw [if_neg (hne _ (by decide)), if_neg (hne _ (by decide)), if_neg (hne _ (by decide)),
        if_neg (hne _ (by decide)), if_neg (hne _ (by decide)), if_neg (hne _ (by decide))]
      simp
  | vector shape scalable element =>
    refine reads_keyword Keyword.vector _ (parseVector framework) (by decide) rfl (by rw [printType])
      fun rest hrest => ⟨by simp; decide, ?_⟩
    have := @run_parseVector shape scalable _ (hinside element (by simp [SelaType.inside])) rest
    simpa using this
  | function inputs results =>
    refine reads_keyword Keyword.function _ (parseFunction framework) (by decide) rfl (by rw [printType])
      fun rest hrest => ⟨by simp; decide, ?_⟩
    have := run_parseFunction (fun type htype => hinside type (List.mem_append_left _ htype))
      (fun type htype => hinside type (List.mem_append_right _ htype)) rest
    simpa [printTypes_eq] using this
  | foreign type =>
    cases type with
    | number type =>
      refine reads_keyword Keyword.number _ parseNumberParts (by decide) rfl (by rw [printType])
        fun rest hrest => ⟨by simp; decide, ?_⟩
      have htype := reads_numberType type ('>' :: rest) (by simp [isDelimiter])
      simp only [List.append_assoc, List.cons_append, List.nil_append, parseNumberParts,
        StateT.run_bind, run_parsePunctuation, htype, Option.bind_eq_bind, Option.bind_some,
        ne_eq, Char.reduceEq, not_false_eq_true]
      rfl
    | other name =>
      refine reads_keyword Keyword.foreign _
        (do let name ← parseName; pure (.foreign (.other name))) (by decide) rfl
        (by rw [printType]) fun rest hrest => ⟨by simp; decide, ?_⟩
      simp only [List.append_assoc, List.cons_append, List.nil_append, StateT.run_bind,
        run_parseName, Option.bind_eq_bind, Option.bind_some]
      rfl
  | _ => simp [SelaType.isSela] at hsela

theorem run_parseEntry {entry : String × Attr} (h : framework.ReadsAttribute entry.2) :
    Reads (parseEntry framework) (printEntry entry) entry := by
  intro rest hrest
  have hvalue := h rest hrest
  rw [printAttribute_framework] at hvalue
  simp only [printEntry, List.append_assoc, List.cons_append, parseEntry, StateT.run_bind,
    run_parseString_quoted, run_parsePunctuation, hvalue, Option.bind_eq_bind, Option.bind_some,
    String.ofList_toList, ne_eq, Char.reduceEq, not_false_eq_true]
  rfl

theorem parseEntry_space (text : Text) :
    (parseEntry framework).run (' ' :: text) = (parseEntry framework).run text := by
  simp only [parseEntry, StateT.run_bind, run_parseString_space]

theorem opens_entry (entry : String × Attr) : Opens (printEntry entry) :=
  ⟨'"', _, rfl, by decide, by decide⟩

theorem run_parseDictionary {entries : List (String × Attr)}
    (h : ∀ entry ∈ entries, framework.ReadsAttribute entry.2) (rest : Text) :
    (parseDictionary framework).run ('<' :: (bracketed (entries.map printEntry) ++ '>' :: rest)) =
      some (.dictionary entries, rest) := by
  obtain ⟨htext, hrun⟩ := run_parseList_bracketed parseEntry_space
    (fun entry _ => opens_entry entry) (fun entry hentry => run_parseEntry (h entry hentry))
    ('>' :: rest)
  rw [htext]
  simp only [parseDictionary, StateT.run_bind, run_parsePunctuation, hrun, Option.bind_eq_bind,
    Option.bind_some, ne_eq, Char.reduceEq, not_false_eq_true]
  rfl

theorem reads_int (value : ℤ) : Reads parseInt (printInt value) value := by
  intro rest hrest
  have hnumber := reads_number value.natAbs rest hrest
  unfold printInt
  split
  · rename_i hnegative
    have hsign := run_parseOptional (c := '-') (by decide) (Nat.toDigits 10 value.natAbs ++ rest)
    have hvalue : -((value.natAbs : ℕ) : ℤ) = value := by omega
    simp only [List.cons_append, parseInt, StateT.run_bind, hsign, hnumber, Option.bind_eq_bind,
      Option.bind_some, if_true, hvalue]
    rfl
  · rename_i hnegative
    obtain ⟨c, digits, heq, hspace, -⟩ := opens_number value.natAbs
    have hdigit : c.isDigit = true :=
      Nat.isDigit_of_mem_toDigits (by decide) (by decide)
        (show c ∈ Nat.toDigits 10 value.natAbs by simp [heq])
    have hne : c ≠ '-' := by
      rintro rfl
      exact absurd hdigit (by decide)
    have hsign := run_parseOptional_ne hspace hne (digits ++ rest)
    have hvalue : ((value.natAbs : ℕ) : ℤ) = value := by omega
    rw [heq, List.cons_append] at hnumber ⊢
    simp only [parseInt, StateT.run_bind, hsign, hnumber, Option.bind_eq_bind, Option.bind_some,
      Bool.false_eq_true, if_false, hvalue]
    rfl

theorem parseInt_space (text : Text) : parseInt.run (' ' :: text) = parseInt.run text := by
  simp only [parseInt, StateT.run_bind, run_parseOptional_space]

theorem opens_int (value : ℤ) : Opens (printInt value) := by
  unfold printInt
  split
  · exact ⟨'-', _, rfl, by decide, by decide⟩
  · exact opens_number _

theorem run_parseDense (values : List ℤ) (rest : Text) :
    parseDense.run ('<' :: (bracketed (values.map printInt) ++ '>' :: rest)) =
      some (.denseI32 values, rest) := by
  obtain ⟨htext, hrun⟩ := run_parseList_bracketed parseInt_space (fun value _ => opens_int value)
    (fun value (_ : value ∈ values) => reads_int value) ('>' :: rest)
  rw [htext]
  simp only [parseDense, StateT.run_bind, run_parsePunctuation, hrun, Option.bind_eq_bind,
    Option.bind_some, ne_eq, Char.reduceEq, not_false_eq_true]
  rfl

/-- Attributes read back when the types and attributes inside do. -/
theorem readsAttribute {attr : Attr} (htypes : ∀ inner ∈ attr.typesInside, framework.ReadsType inner)
    (hattrs : ∀ inner ∈ attr.inside, framework.ReadsAttribute inner) :
    framework.ReadsAttribute attr := by
  cases attr with
  | unit =>
    exact reads_attribute_keyword Keyword.unit [] (pure .unit) (by decide) rfl (by rfl)
      fun rest hrest => ⟨hrest.endsKeyword, rfl⟩
  | string text =>
    intro rest _
    refine run_parseAttribute ?_
    have hlist := run_parseOptional_ne (c := '[') (d := '"') (by decide) (by decide)
      (text.toList.flatMap escape ++ ('"' :: rest))
    have hquote := run_parseOptional (c := '"') (by decide)
      (text.toList.flatMap escape ++ ('"' :: rest))
    have hbody : parseStringBody.run (text.toList.flatMap escape ++ '"' :: rest) =
        some (text.toList, rest) := by
      simpa [parseStringBody, parseString, StateT.run, skipSpaces] using
        run_parseString_escape text.toList rest
    simp only [printAttribute_framework, printAttribute, quoted, List.cons_append, List.append_assoc,
      List.nil_append, parseAttribute, StateT.run_bind, hlist, hquote, hbody, Option.bind_eq_bind,
      Option.bind_some, Bool.false_eq_true, if_false, if_true, String.ofList_toList]
    rfl
  | array elements =>
    intro rest _
    refine run_parseAttribute ?_
    obtain ⟨htext, hrun⟩ := run_parseList_bracketed parseAttribute_space
      (fun attr (_ : attr ∈ elements) => opens_attribute attr) hattrs rest
    have hlist := run_parseOptional (c := '[') (by decide)
      (interleaveComma (elements.map printAttribute) ++ ']' :: rest)
    rw [printAttribute_framework, printAttribute, printAttributes_eq, htext]
    simp only [parseAttribute, StateT.run_bind, hlist, hrun, Option.bind_eq_bind, Option.bind_some,
      if_true]
    rfl
  | integer width value =>
    refine reads_attribute_keyword Keyword.integer _ parseIntegerParts (by decide) rfl
      (by rw [printAttribute]) fun rest hrest => ⟨by simp; decide, ?_⟩
    have hwidth := reads_number width (',' :: (Nat.toDigits 10 value ++ '>' :: rest))
      (by simp [isDelimiter])
    have hvalue := reads_number value ('>' :: rest) (by simp [isDelimiter])
    simp only [List.append_assoc, List.cons_append, List.nil_append, parseIntegerParts,
      StateT.run_bind, run_parsePunctuation, hwidth, hvalue, Option.bind_eq_bind, Option.bind_some,
      ne_eq, Char.reduceEq, not_false_eq_true]
    rfl
  | float scalar bits =>
    have hscalar := htypes scalar (by simp [Attr.typesInside])
    refine reads_attribute_keyword Keyword.float _ (parseFloatParts framework) (by decide) rfl
      (by rw [printAttribute]) fun rest hrest => ⟨by simp; decide, ?_⟩
    have hscalar := hscalar (',' :: (Nat.toDigits 10 bits ++ '>' :: rest)) (by simp [isDelimiter])
    have hbits := reads_number bits ('>' :: rest) (by simp [isDelimiter])
    rw [printType_framework] at hscalar
    simp only [List.append_assoc, List.cons_append, List.nil_append, parseFloatParts,
      StateT.run_bind, run_parsePunctuation, hscalar, hbits, Option.bind_eq_bind, Option.bind_some,
      ne_eq, Char.reduceEq, not_false_eq_true]
    rfl
  | type value =>
    have hvalue := htypes value (by simp [Attr.typesInside])
    refine reads_attribute_keyword Keyword.type _ (parseTypeAttribute framework) (by decide) rfl
      (by rw [printAttribute]) fun rest hrest => ⟨by simp; decide, ?_⟩
    have hvalue := hvalue ('>' :: rest) (by simp [isDelimiter])
    rw [printType_framework] at hvalue
    simp only [List.append_assoc, List.cons_append, List.nil_append, parseTypeAttribute,
      StateT.run_bind, run_parsePunctuation, hvalue, Option.bind_eq_bind, Option.bind_some,
      ne_eq, Char.reduceEq, not_false_eq_true]
    rfl
  | dictionary entries =>
    refine reads_attribute_keyword Keyword.dictionary _ (parseDictionary framework) (by decide) rfl
      (by rw [printAttribute]) fun rest hrest => ⟨by simp; decide, ?_⟩
    have := run_parseDictionary (fun entry hentry => hattrs entry.2 (List.mem_map_of_mem hentry)) rest
    simpa [printEntries_eq] using this
  | denseI32 values =>
    refine reads_attribute_keyword Keyword.dense _ parseDense (by decide) rfl
      (by rw [printAttribute]) fun rest hrest => ⟨by simp; decide, ?_⟩
    simpa using run_parseDense values rest
  | foreign attr =>
    cases attr with
    | number type value =>
      refine reads_attribute_keyword Keyword.number _ parseNumberAttribute (by decide) rfl
        (by rw [printAttribute]) fun rest hrest => ⟨by simp; decide, ?_⟩
      have htype := reads_numberType type (',' :: (Nat.toDigits 10 value ++ '>' :: rest))
        (by simp [isDelimiter])
      have hvalue := reads_number value ('>' :: rest) (by simp [isDelimiter])
      simp only [List.append_assoc, List.cons_append, List.nil_append, parseNumberAttribute,
        StateT.run_bind, run_parsePunctuation, htype, hvalue, Option.bind_eq_bind,
        Option.bind_some, ne_eq, Char.reduceEq, not_false_eq_true]
      rfl
    | other name =>
      refine reads_attribute_keyword Keyword.foreign _
        (do let name ← parseName; pure (.foreign (.other name))) (by decide) rfl
        (by rw [printAttribute]) fun rest hrest => ⟨by simp; decide, ?_⟩
      simp only [List.append_assoc, List.cons_append, List.nil_append, StateT.run_bind,
        run_parseName, Option.bind_eq_bind, Option.bind_some]
      rfl

theorem printInside {type : SelaType} {f : SelaType → SelaType} (hsela : type.isSela = false)
    (h : ∀ inner ∈ type.inside, printType (f inner) = printType inner) :
    printType (type.mapInside f) = printType type := by
  cases type with
  | vector shape scalable element =>
    simp [SelaType.mapInside, printType, h element (by simp [SelaType.inside])]
  | function inputs results =>
    have hmap : ∀ types : List SelaType, (∀ type ∈ types, printType (f type) = printType type) →
        (types.map f).map printType = types.map printType := fun types h => by simpa using h
    simp only [SelaType.mapInside, printType, printTypes_eq,
      hmap inputs fun type htype => h type (List.mem_append_left _ htype),
      hmap results fun type htype => h type (List.mem_append_right _ htype)]
  | _ => rfl

theorem printAttributeInside {attr : Attr} {f : SelaType → SelaType} {g : Attr → Attr}
    (htypes : ∀ inner ∈ attr.typesInside, printType (f inner) = printType inner)
    (hattrs : ∀ inner ∈ attr.inside, printAttribute (g inner) = printAttribute inner) :
    printAttribute (attr.mapInside f g) = printAttribute attr := by
  cases attr with
  | float scalar bits =>
    simp [Attr.mapInside, printAttribute, htypes scalar (by simp [Attr.typesInside])]
  | type value => simp [Attr.mapInside, printAttribute, htypes value (by simp [Attr.typesInside])]
  | array elements =>
    have : (elements.map g).map printAttribute = elements.map printAttribute := by
      simpa [Attr.inside] using hattrs
    simp only [Attr.mapInside, printAttribute, printAttributes_eq, this]
  | dictionary entries =>
    have : (entries.map fun entry => (entry.1, g entry.2)).map printEntry =
        entries.map printEntry := by
      rw [List.map_map]
      refine List.map_congr_left fun entry hentry => ?_
      simp [printEntry, hattrs entry.2 (List.mem_map_of_mem hentry)]
    simp only [Attr.mapInside, printAttribute, printEntries_eq, this]
  | _ => rfl

/-- The laws hold of the framework. -/
theorem lawful : framework.Lawful where
  printSela _ := printSela
  parseSela _ _ := parseSela
  readsType _ hsela _ := readsType hsela
  readsAttribute _ _ _ := readsAttribute
  printInside _ _ := printInside
  printAttributeInside _ _ _ := printAttributeInside
  typeSpace := parseType_space
  attributeSpace := parseAttribute_space
  opens := opens

end Sela.PlainText
