import Sela.Concrete
import Sela.TextParser

/-!
# The text of the dialect's types

The dialect prints its own types and reads them back; the types and attributes of the
framework, and the `!sela.` in front of every type of the dialect, are the framework's
(`TextFramework`). What the dialect relies on is `TextFramework.Lawful` : the framework hands
the body of a `!sela.` symbol to the dialect, its own types and attributes read back when
the types and attributes inside them do, and its text of a type only depends on the texts
of what is inside.

An array is spelled by its number of elements when its count is an integer, whatever the
width and signedness of that integer, and is read back with a signless count of 64 bits.
-/

namespace Sela

open TextParser

/-! ## The dialect's printer and parser -/

/-- The framework's printers and parsers. -/
structure TextFramework where
  printType : SelaType → Text
  printAttribute : Attr → Text
  parseType : TextParser SelaType
  parseAttribute : TextParser Attr

namespace SelaDialect

/-! The keywords of the types, as their characters. -/

/-- What the framework writes in front of a type of the dialect. -/
def sigil : Text := ['!', 's', 'e', 'l', 'a', '.']

namespace Keyword

def word : Text := ['w', 'o', 'r', 'd']

def ptr : Text := ['p', 't', 'r']

def vaList : Text := ['v', 'a', '_', 'l', 'i', 's', 't']

def vaListArgument : Text := ['v', 'a', '_', 'l', 'i', 's', 't', '_', 'a', 'r', 'g', 'u', 'm', 'e', 'n', 't']

def array : Text := ['a', 'r', 'r', 'a', 'y']

def targetArray : Text := ['t', 'a', 'r', 'g', 'e', 't', '_', 'a', 'r', 'r', 'a', 'y']

def choice : Text := ['c', 'h', 'o', 'i', 'c', 'e']

def overlap : Text := ['o', 'v', 'e', 'r', 'l', 'a', 'p']

def record : Text := ['r', 'e', 'c', 'o', 'r', 'd']

end Keyword

variable (framework : TextFramework)

/-- An array, spelled by its number of elements when the count is an integer of any type. -/
def printArray (element : SelaType) : Attr → Text
  | .integer _ value | .foreign (.number _ value) =>
    Keyword.array ++ '<' :: (Nat.toDigits 10 (value % 2 ^ 64) ++
      ',' :: ' ' :: (framework.printType element ++ ['>']))
  | count =>
    Keyword.targetArray ++ '<' :: (framework.printAttribute count ++
      ',' :: ' ' :: (framework.printType element ++ ['>']))

/-- The text of a type of the dialect, after its `!sela.`. -/
def printType : SelaType → Text
  | .word => Keyword.word
  | .ptr => Keyword.ptr
  | .vaList => Keyword.vaList
  | .vaListArgument => Keyword.vaListArgument
  | .array element count => printArray framework element count
  | .choice cases => Keyword.choice ++ '<' :: (framework.printAttribute cases ++ ['>'])
  | .overlap identity alternatives domains =>
    Keyword.overlap ++ '<' :: '"' :: (identity.toList ++ '"' :: ',' :: ' ' :: '[' ::
      (interleaveComma (alternatives.map framework.printType) ++ ']' :: ',' :: ' ' ::
        (framework.printAttribute (.array domains) ++ ['>'])))
  | .record identity packed fields =>
    Keyword.record ++ '<' :: '"' :: (identity.toList ++ '"' :: ',' :: ' ' ::
      (Nat.toDigits 10 packed.toNat ++ ',' :: ' ' :: '[' ::
        (interleaveComma (fields.map framework.printType) ++ [']', '>'])))
  | _ => []

/-- The number of elements and their type, after `array`. -/
def parseArray : TextParser SelaType := do
  parsePunctuation '<'
  let count ← parseInteger (2 ^ 64)
  parsePunctuation ','
  let element ← framework.parseType
  parsePunctuation '>'
  pure (.array element (.integer 64 count))

/-- A count of any kind and the type of the elements, after `target_array`. -/
def parseTargetArray : TextParser SelaType := do
  parsePunctuation '<'
  let count ← framework.parseAttribute
  parsePunctuation ','
  let element ← framework.parseType
  parsePunctuation '>'
  pure (.array element count)

def parseChoice : TextParser SelaType := do
  parsePunctuation '<'
  let cases ← framework.parseAttribute
  parsePunctuation '>'
  pure (.choice cases)

def parseOverlap : TextParser SelaType := do
  parsePunctuation '<'
  let identity ← parseString
  parsePunctuation ','
  parsePunctuation '['
  let alternatives ← parseList framework.parseType
  parsePunctuation ','
  let domains ← framework.parseAttribute
  parsePunctuation '>'
  match domains.asArray? with
  | some domains => pure (.overlap (.ofList identity) alternatives domains)
  | none => failure

def parseRecord : TextParser SelaType := do
  parsePunctuation '<'
  let identity ← parseString
  parsePunctuation ','
  let packed ← parseInteger (2 ^ 32)
  if packed > 1 then failure
  else
    parsePunctuation ','
    parsePunctuation '['
    let fields ← parseList framework.parseType
    parsePunctuation '>'
    pure (.record (.ofList identity) (packed == 1) fields)

/-- What follows the keyword of a type. -/
def parseBody (keyword : Text) : TextParser SelaType :=
  if keyword = Keyword.word then pure .word
  else if keyword = Keyword.ptr then pure .ptr
  else if keyword = Keyword.vaList then pure .vaList
  else if keyword = Keyword.vaListArgument then pure .vaListArgument
  else if keyword = Keyword.array then parseArray framework
  else if keyword = Keyword.targetArray then parseTargetArray framework
  else if keyword = Keyword.choice then parseChoice framework
  else if keyword = Keyword.overlap then parseOverlap framework
  else if keyword = Keyword.record then parseRecord framework
  else failure

section

variable {framework}

@[simp] theorem parseBody_array : parseBody framework Keyword.array = parseArray framework := rfl

@[simp] theorem parseBody_targetArray :
    parseBody framework Keyword.targetArray = parseTargetArray framework := rfl

@[simp] theorem parseBody_choice : parseBody framework Keyword.choice = parseChoice framework := rfl

@[simp] theorem parseBody_overlap :
    parseBody framework Keyword.overlap = parseOverlap framework := rfl

@[simp] theorem parseBody_record : parseBody framework Keyword.record = parseRecord framework := rfl

theorem printArray_of_not_number {element : SelaType} {count : Attr} (h : count.number? = none) :
    printArray framework element count =
      Keyword.targetArray ++ '<' :: (framework.printAttribute count ++
        ',' :: ' ' :: (framework.printType element ++ ['>'])) := by
  cases count with
  | integer width value => simp [Attr.number?] at h
  | foreign attr =>
    cases attr with
    | number type value => simp [Attr.number?] at h
    | other name => rfl
  | _ => rfl

theorem printArray_of_number {element : SelaType} {count : Attr} {value : ℕ}
    (h : count.number? = some value) : printArray framework element count =
      Keyword.array ++ '<' :: (Nat.toDigits 10 (value % 2 ^ 64) ++
        ',' :: ' ' :: (framework.printType element ++ ['>'])) := by
  cases count with
  | integer width value' =>
    obtain rfl := Option.some.inj h
    rfl
  | foreign attr =>
    cases attr with
    | number type value' =>
      obtain rfl := Option.some.inj h
      rfl
    | other name => simp [Attr.number?] at h
  | _ => simp [Attr.number?] at h

end

/-- A type of the dialect, after its `!sela.`. -/
def parseType : TextParser SelaType := do
  let keyword ← parseKeyword
  parseBody framework keyword

end SelaDialect

/-! ## The framework -/

/-- The types of the dialect, as opposed to the framework's own. -/
def SelaType.isSela : SelaType → Bool
  | .word | .ptr | .vaList | .vaListArgument | .array _ _ | .choice _ | .record _ _ _
  | .overlap _ _ _ => true
  | _ => false

/-- The types directly inside a type of the framework. -/
def SelaType.inside : SelaType → List SelaType
  | .vector _ _ element => [element]
  | .function inputs results => inputs ++ results
  | _ => []

/-- A type of the framework with other types inside. -/
def SelaType.mapInside (f : SelaType → SelaType) : SelaType → SelaType
  | .vector shape scalable element => .vector shape scalable (f element)
  | .function inputs results => .function (inputs.map f) (results.map f)
  | type => type

/-- The types directly inside an attribute. -/
def Attr.typesInside : Attr → List SelaType
  | .float scalar _ => [scalar]
  | .type value => [value]
  | _ => []

/-- The attributes directly inside an attribute. -/
def Attr.inside : Attr → List Attr
  | .array elements => elements
  | .dictionary entries => entries.map Prod.snd
  | _ => []

/-- An attribute with other types and attributes inside. -/
def Attr.mapInside (f : SelaType → SelaType) (g : Attr → Attr) : Attr → Attr
  | .float scalar bits => .float (f scalar) bits
  | .type value => .type (f value)
  | .array elements => .array (elements.map g)
  | .dictionary entries => .dictionary (entries.map fun entry => (entry.1, g entry.2))
  | attr => attr

/-- The value of an attribute is one its type holds. -/
def Attr.Fits : Attr → Prop
  | .integer width value => value < 2 ^ width
  | .foreign (.number kind value) => value < 2 ^ kind.width
  | .float .f32 bits => bits < 2 ^ 32
  | .float .f64 bits => bits < 2 ^ 64
  | .float (.foreign _) _ => True
  | .float _ _ => False
  | .denseI32 values => ∀ value ∈ values, -2 ^ 31 ≤ value ∧ value < 2 ^ 31
  | _ => True

namespace TextFramework

variable (framework : TextFramework)

/-- The text of the type reads back as the type. -/
def ReadsType (type : SelaType) : Prop :=
  Reads framework.parseType (framework.printType type) type

/-- The text of the attribute reads back as the attribute. -/
def ReadsAttribute (attr : Attr) : Prop :=
  Reads framework.parseAttribute (framework.printAttribute attr) attr

/-- What the dialect relies on. -/
structure Lawful : Prop where
  /-- A type of the dialect is `!sela.` and what the dialect prints. -/
  printSela : ∀ type, type.isSela = true →
    framework.printType type = SelaDialect.sigil ++ SelaDialect.printType framework type
  /-- What follows `!sela.` is left to the dialect. -/
  parseSela : ∀ type, type.isSela = true →
    Reads (SelaDialect.parseType framework) (SelaDialect.printType framework type) type →
    Reads framework.parseType (SelaDialect.sigil ++ SelaDialect.printType framework type) type
  /-- The framework's own types round-trip. -/
  readsType : ∀ type, type.isSela = false → type.WellFormed →
    (∀ inner ∈ type.inside, framework.ReadsType inner) → framework.ReadsType type
  /-- Attributes round-trip. -/
  readsAttribute : ∀ attr, attr.WellFormed → attr.Fits →
    (∀ inner ∈ attr.typesInside, framework.ReadsType inner) →
    (∀ inner ∈ attr.inside, framework.ReadsAttribute inner) → framework.ReadsAttribute attr
  /-- The framework prints the texts of what is inside its types. -/
  printInside : ∀ type f, type.isSela = false →
    (∀ inner ∈ type.inside, framework.printType (f inner) = framework.printType inner) →
    framework.printType (type.mapInside f) = framework.printType type
  /-- The framework prints the texts of what is inside attributes. -/
  printAttributeInside : ∀ attr f g,
    (∀ inner ∈ attr.typesInside, framework.printType (f inner) = framework.printType inner) →
    (∀ inner ∈ attr.inside, framework.printAttribute (g inner) = framework.printAttribute inner) →
    framework.printAttribute (attr.mapInside f g) = framework.printAttribute attr
  /-- Spaces in front of a type do not matter. -/
  typeSpace : ∀ text, framework.parseType.run (' ' :: text) = framework.parseType.run text
  /-- Spaces in front of an attribute do not matter. -/
  attributeSpace : ∀ text,
    framework.parseAttribute.run (' ' :: text) = framework.parseAttribute.run text
  /-- No type starts with a space or a closing bracket. -/
  opens : ∀ type, Opens (framework.printType type)

end TextFramework

end Sela
