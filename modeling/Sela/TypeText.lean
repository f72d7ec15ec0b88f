import Sela.Dialect
import Sela.DomainSpecialization
import Sela.Everywhere
import Sela.PlainText

/-!
# Types survive their text

A type of the dialect reads back from its text when the types and attributes inside it do,
its identity needs no escapes and an integer count is signless and has 64 bits
(`SelaDialect.reads_parseType`), so a type reads back when that holds everywhere inside it
(`SelaType.reads`). A type with any other integer count (a narrower or wider one, a signed,
unsigned or index one) has the text of the type with the signless count of 64 bits
(`SelaType.printType_widen`), which is what is read back; so exactly the types without one
survive (`SelaType.reads_iff`).

The verifier only admits identities without escapes, but it looks into no count
(`everywhere_of_checkType`). `types_roundTrip_iff` puts both together for the types of a
verified module.
-/

namespace Sela

open Checked TextParser

/-! ## Reading types back -/

/-- The types directly inside a type of the dialect. -/
def SelaType.types : SelaType → List SelaType
  | .array element _ => [element]
  | .record _ _ fields => fields
  | .overlap _ alternatives _ => alternatives
  | _ => []

/-- The attributes directly inside a type of the dialect, but for the integer counts. -/
def SelaType.attributes : SelaType → List Attr
  | .array _ (.integer _ _) | .array _ (.foreign (.number _ _)) => []
  | .array _ count => [count]
  | .choice cases => [cases]
  | .overlap _ _ domains => [.array domains]
  | _ => []

theorem SelaType.attributes_array {element : SelaType} {count : Attr}
    (h : count.number? = none) : (SelaType.array element count).attributes = [count] := by
  rcases count with _ | _ | _ | _ | _ | _ | _ | _ | (_ | _) <;>
    first | rfl | simp [Attr.number?] at h

/-- The identity of a record or an overlap needs no escapes in quotes. -/
def SelaType.identityPlain : SelaType → Prop
  | .record identity _ _ | .overlap identity _ _ => isPlain identity.toList = true
  | _ => True

/-- An integer count is signless and has 64 bits. -/
def SelaType.countWide : SelaType → Prop
  | .array _ (.integer width _) => width = 64
  | .array _ (.foreign (.number _ _)) => False
  | _ => True

/-- A number counts as wide only when it is signless and has 64 bits. -/
theorem SelaType.eq_of_countWide {element : SelaType} {count : Attr} {value : ℕ}
    (h : (SelaType.array element count).countWide) (hvalue : count.number? = some value) :
    count = .integer 64 value := by
  rcases count with _ | _ | _ | _ | _ | _ | _ | _ | (_ | _) <;>
    simp_all [SelaType.countWide, Attr.number?]

theorem SelaType.countWide_of_not_number {element : SelaType} {count : Attr}
    (h : count.number? = none) : (SelaType.array element count).countWide := by
  rcases count with _ | _ | _ | _ | _ | _ | _ | _ | (_ | _) <;> trivial

namespace SelaDialect

variable {framework : TextFramework}

theorem run_parseType {word body : Text} (hword : isKeyword word = true)
    (hbody : EndsKeyword body) :
    (parseType framework).run (word ++ body) = (parseBody framework word).run body := by
  simp only [parseType, StateT.run_bind, run_parseKeyword hword hbody, Option.bind_eq_bind,
    Option.bind_some]

theorem run_parseArray (hlawful : framework.Lawful) {element : SelaType} {value : ℕ}
    (hvalue : value < 2 ^ 64) (helement : framework.ReadsType element) (rest : Text) :
    (parseArray framework).run ('<' :: (Nat.toDigits 10 value ++
      ',' :: ' ' :: (framework.printType element ++ '>' :: rest))) =
      some (.array element (.integer 64 value), rest) := by
  have hcount := run_parseInteger hvalue
    (',' :: ' ' :: (framework.printType element ++ '>' :: rest)) (by simp)
  have helement := helement ('>' :: rest) (by simp [isDelimiter])
  simp only [parseArray, StateT.run_bind, Option.bind_eq_bind, Option.bind_some, hcount,
    hlawful.typeSpace, helement, run_parsePunctuation, ne_eq, Char.reduceEq, not_false_eq_true]
  rfl

theorem run_parseTargetArray (hlawful : framework.Lawful) {element : SelaType} {count : Attr}
    (hcount : framework.ReadsAttribute count) (helement : framework.ReadsType element)
    (rest : Text) :
    (parseTargetArray framework).run ('<' :: (framework.printAttribute count ++
      ',' :: ' ' :: (framework.printType element ++ '>' :: rest))) =
      some (.array element count, rest) := by
  have hcount := hcount (',' :: ' ' :: (framework.printType element ++ '>' :: rest))
    (by simp [isDelimiter])
  have helement := helement ('>' :: rest) (by simp [isDelimiter])
  simp only [parseTargetArray, StateT.run_bind, Option.bind_eq_bind, Option.bind_some, hcount,
    hlawful.typeSpace, helement, run_parsePunctuation, ne_eq, Char.reduceEq, not_false_eq_true]
  rfl

theorem run_parseChoice {cases : Attr} (hcases : framework.ReadsAttribute cases) (rest : Text) :
    (parseChoice framework).run ('<' :: (framework.printAttribute cases ++ '>' :: rest)) =
      some (.choice cases, rest) := by
  have hcases := hcases ('>' :: rest) (by simp [isDelimiter])
  simp only [parseChoice, StateT.run_bind, Option.bind_eq_bind, Option.bind_some, hcases,
    run_parsePunctuation, ne_eq, Char.reduceEq, not_false_eq_true]
  rfl

theorem run_parseOverlap (hlawful : framework.Lawful) {identity : String}
    (alternatives : List SelaType) {domains : List Attr} (hplain : isPlain identity.toList = true)
    (halternatives : ∀ type ∈ alternatives, framework.ReadsType type)
    (hdomains : framework.ReadsAttribute (.array domains)) (rest : Text) :
    (parseOverlap framework).run ('<' :: '"' :: (identity.toList ++ '"' :: ',' :: ' ' :: '[' ::
      (interleaveComma (alternatives.map framework.printType) ++ ']' :: ',' :: ' ' ::
        (framework.printAttribute (.array domains) ++ '>' :: rest)))) =
      some (.overlap identity alternatives domains, rest) := by
  have hidentity := run_parseString hplain (',' :: ' ' :: '[' ::
    (interleaveComma (alternatives.map framework.printType) ++ ']' :: ',' :: ' ' ::
      (framework.printAttribute (.array domains) ++ '>' :: rest)))
  have halternatives := run_parseList hlawful.typeSpace
    (fun type _ => hlawful.opens type) halternatives
    (',' :: ' ' :: (framework.printAttribute (.array domains) ++ '>' :: rest))
  have hdomains := hdomains ('>' :: rest) (by simp [isDelimiter])
  rw [List.cons_append] at hidentity
  simp only [parseOverlap, StateT.run_bind, Option.bind_eq_bind, Option.bind_some, hidentity,
    halternatives, hdomains, hlawful.attributeSpace, run_parsePunctuation, run_parsePunctuation_space,
    Attr.asArray?, String.ofList_toList, ne_eq, Char.reduceEq, not_false_eq_true]
  rfl

theorem run_parseRecord (hlawful : framework.Lawful) {identity : String} (packed : Bool)
    (fields : List SelaType) (hplain : isPlain identity.toList = true)
    (hfields : ∀ type ∈ fields, framework.ReadsType type) (rest : Text) :
    (parseRecord framework).run ('<' :: '"' :: (identity.toList ++ '"' :: ',' :: ' ' ::
      (Nat.toDigits 10 packed.toNat ++ ',' :: ' ' :: '[' ::
        (interleaveComma (fields.map framework.printType) ++ ']' :: '>' :: rest)))) =
      some (.record identity packed fields, rest) := by
  have hidentity := run_parseString hplain (',' :: ' ' :: (Nat.toDigits 10 packed.toNat ++
    ',' :: ' ' :: '[' :: (interleaveComma (fields.map framework.printType) ++ ']' :: '>' :: rest)))
  have hbound : packed.toNat < 2 ^ 32 := by cases packed <;> simp
  have hpacked := run_parseInteger hbound
    (',' :: ' ' :: '[' :: (interleaveComma (fields.map framework.printType) ++
      ']' :: '>' :: rest)) (by simp)
  have hfields := run_parseList hlawful.typeSpace
    (fun type _ => hlawful.opens type) hfields ('>' :: rest)
  have hbit : ¬ packed.toNat > 1 := by cases packed <;> simp
  have hvalue : (packed.toNat == 1) = packed := by cases packed <;> rfl
  rw [List.cons_append] at hidentity
  simp only [parseRecord, StateT.run_bind, Option.bind_eq_bind, Option.bind_some, hidentity,
    hpacked, hbit, if_false, hfields, run_parsePunctuation, run_parsePunctuation_space,
    run_parseInteger_space, hvalue, String.ofList_toList, ne_eq, Char.reduceEq, not_false_eq_true]
  rfl

/-- A type of the dialect reads back when what is inside does, its identity is plain and an
integer count is signless and has 64 bits. -/
theorem reads_parseType (hlawful : framework.Lawful) {type : SelaType}
    (hsela : type.isSela = true) (hplain : type.identityPlain) (hwide : type.countWide)
    (hfits : ∀ element count, type = .array element count → count.Fits)
    (htypes : ∀ inner ∈ type.types, framework.ReadsType inner)
    (hattrs : ∀ inner ∈ type.attributes, framework.ReadsAttribute inner) :
    Reads (parseType framework) (printType framework type) type := by
  intro rest hrest
  have hends := hrest.endsKeyword
  cases type with
  | word => exact run_parseType (show isKeyword Keyword.word = true by decide) hends
  | ptr => exact run_parseType (show isKeyword Keyword.ptr = true by decide) hends
  | vaList => exact run_parseType (show isKeyword Keyword.vaList = true by decide) hends
  | vaListArgument => exact run_parseType (show isKeyword Keyword.vaListArgument = true by decide) hends
  | choice cases =>
    have := run_parseChoice (hattrs cases (by simp [SelaType.attributes])) rest
    rw [printType, List.append_assoc, run_parseType (by decide) (by simp; decide)]
    simpa using this
  | overlap identity alternatives domains =>
    have := run_parseOverlap hlawful alternatives hplain htypes
      (hattrs (.array domains) (by simp [SelaType.attributes])) rest
    rw [printType, List.append_assoc, run_parseType (by decide) (by simp; decide)]
    simpa using this
  | record identity packed fields =>
    have := run_parseRecord hlawful packed fields hplain htypes rest
    rw [printType, List.append_assoc, run_parseType (by decide) (by simp; decide)]
    simpa using this
  | array element count =>
    have helement := htypes element (by simp [SelaType.types])
    rw [printType]
    cases hcount : count.number? with
    | some value =>
      obtain rfl := SelaType.eq_of_countWide hwide hcount
      have hvalue : value < 2 ^ 64 := hfits element _ rfl
      have := run_parseArray hlawful hvalue helement rest
      rw [printArray_of_number hcount, Nat.mod_eq_of_lt hvalue, List.append_assoc,
        run_parseType (by decide) (by simp; decide)]
      simpa using this
    | none =>
      have hattr := hattrs count (by rw [SelaType.attributes_array hcount]; simp)
      have := run_parseTargetArray hlawful hattr helement rest
      rw [printArray_of_not_number hcount, List.append_assoc,
        run_parseType (by decide) (by simp; decide)]
      simpa using this
  | _ => simp [SelaType.isSela] at hsela

end SelaDialect

section Reads

variable {framework : TextFramework}

/-- A type of the dialect reads back when what is inside does. -/
theorem TextFramework.Lawful.readsSela (hlawful : framework.Lawful) {type : SelaType}
    (hsela : type.isSela = true) (hplain : type.identityPlain) (hwide : type.countWide)
    (hfits : ∀ element count, type = .array element count → count.Fits)
    (htypes : ∀ inner ∈ type.types, framework.ReadsType inner)
    (hattrs : ∀ inner ∈ type.attributes, framework.ReadsAttribute inner) :
    framework.ReadsType type := by
  have := hlawful.parseSela type hsela
    (SelaDialect.reads_parseType hlawful hsela hplain hwide hfits htypes hattrs)
  rwa [← hlawful.printSela type hsela] at this

/-- The identity is plain and an integer count is signless and has 64 bits. -/
abbrev SelaType.Spelled (type : SelaType) : Prop := type.identityPlain ∧ type.countWide

mutual

theorem SelaType.reads (hlawful : framework.Lawful) : ∀ type : SelaType, type.WellFormed →
    type.Everywhere SelaType.Spelled Attr.Fits → framework.ReadsType type
  | .vector shape scalable element, hform, h => by
    have hscalar : element.isScalar = true := hform
    have helement : framework.ReadsType element := by
      refine SelaType.reads hlawful element ?_ h.2
      cases element <;> simp [SelaType.isScalar] at hscalar <;> trivial
    exact hlawful.readsType _ rfl hform (by simpa [SelaType.inside] using helement)
  | .function inputs results, hform, h => by
    simp only [SelaType.Everywhere] at h
    refine hlawful.readsType _ rfl hform fun inner hinner => ?_
    rcases List.mem_append.mp hinner with hinner | hinner
    · exact typesReads hlawful inputs hform.1 h.2.1 inner hinner
    · exact typesReads hlawful results hform.2 h.2.2 inner hinner
  | .array element count, hform, h => by
    simp only [SelaType.Everywhere] at h
    refine hlawful.readsSela rfl h.1.1 h.1.2 ?_ ?_ ?_
    · rintro _ _ ⟨⟩
      exact h.2.2.self
    · simpa [SelaType.types] using SelaType.reads hlawful element hform.1 h.2.1
    · have hcount := Attr.reads hlawful count hform.2 h.2.2
      rcases count with _ | _ | _ | _ | _ | _ | _ | _ | (_ | _) <;>
        simp [SelaType.attributes, hcount]
  | .choice cases, hform, h => by
    simp only [SelaType.Everywhere] at h
    refine hlawful.readsSela rfl h.1.1 h.1.2 (by simp) (by simp [SelaType.types]) ?_
    simpa [SelaType.attributes] using Attr.reads hlawful cases hform h.2
  | .record identity packed fields, hform, h => by
    simp only [SelaType.Everywhere] at h
    exact hlawful.readsSela rfl h.1.1 h.1.2 (by simp) (typesReads hlawful fields hform h.2)
      (by simp [SelaType.attributes])
  | .overlap identity alternatives domains, hform, h => by
    simp only [SelaType.Everywhere] at h
    refine hlawful.readsSela rfl h.1.1 h.1.2 (by simp)
      (typesReads hlawful alternatives hform.1 h.2.1) ?_
    have := hlawful.readsAttribute (.array domains) hform.2 trivial (by simp [Attr.typesInside])
      (attrsReads hlawful domains hform.2 h.2.2)
    simpa [SelaType.attributes] using this
  | .integer width, hform, _ => hlawful.readsType _ rfl hform (by simp [SelaType.inside])
  | .f32, hform, _ => hlawful.readsType _ rfl hform (by simp [SelaType.inside])
  | .f64, hform, _ => hlawful.readsType _ rfl hform (by simp [SelaType.inside])
  | .foreign name, hform, _ => hlawful.readsType _ rfl hform (by simp [SelaType.inside])
  | .word, _, h => hlawful.readsSela rfl h.1 h.2 (by simp) (by simp [SelaType.types])
      (by simp [SelaType.attributes])
  | .ptr, _, h => hlawful.readsSela rfl h.1 h.2 (by simp) (by simp [SelaType.types])
      (by simp [SelaType.attributes])
  | .vaList, _, h => hlawful.readsSela rfl h.1 h.2 (by simp) (by simp [SelaType.types])
      (by simp [SelaType.attributes])
  | .vaListArgument, _, h => hlawful.readsSela rfl h.1 h.2 (by simp) (by simp [SelaType.types])
      (by simp [SelaType.attributes])

theorem typesReads (hlawful : framework.Lawful) : ∀ types : List SelaType,
    typesWellFormed types → typesEverywhere SelaType.Spelled Attr.Fits types →
    ∀ type ∈ types, framework.ReadsType type
  | [], _, _ => by simp
  | type :: types, hform, h => List.forall_mem_cons.mpr
      ⟨SelaType.reads hlawful type hform.1 h.1, typesReads hlawful types hform.2 h.2⟩

theorem Attr.reads (hlawful : framework.Lawful) : ∀ attr : Attr, attr.WellFormed →
    attr.Everywhere SelaType.Spelled Attr.Fits → framework.ReadsAttribute attr
  | .float scalar bits, hform, h => by
    simp only [Attr.Everywhere] at h
    refine hlawful.readsAttribute _ hform h.1 ?_ (by simp [Attr.inside])
    have hscalar : scalar.WellFormed := by
      cases scalar <;> simp [Attr.Fits] at h <;> trivial
    simpa [Attr.typesInside] using SelaType.reads hlawful scalar hscalar h.2
  | .type value, hform, h => by
    simp only [Attr.Everywhere] at h
    refine hlawful.readsAttribute _ hform h.1 ?_ (by simp [Attr.inside])
    simpa [Attr.typesInside] using SelaType.reads hlawful value hform h.2
  | .array elements, hform, h => by
    simp only [Attr.Everywhere] at h
    exact hlawful.readsAttribute _ hform h.1 (by simp [Attr.typesInside])
      (attrsReads hlawful elements hform h.2)
  | .dictionary entries, hform, h => by
    simp only [Attr.Everywhere] at h
    exact hlawful.readsAttribute _ hform h.1 (by simp [Attr.typesInside])
      (entriesReads hlawful entries hform.2 h.2)
  | .unit, hform, h => hlawful.readsAttribute _ hform h (by simp [Attr.typesInside])
      (by simp [Attr.inside])
  | .integer _ _, hform, h => hlawful.readsAttribute _ hform h (by simp [Attr.typesInside])
      (by simp [Attr.inside])
  | .string _, hform, h => hlawful.readsAttribute _ hform h (by simp [Attr.typesInside])
      (by simp [Attr.inside])
  | .denseI32 _, hform, h => hlawful.readsAttribute _ hform h (by simp [Attr.typesInside])
      (by simp [Attr.inside])
  | .foreign _, hform, h => hlawful.readsAttribute _ hform h (by simp [Attr.typesInside])
      (by simp [Attr.inside])

theorem attrsReads (hlawful : framework.Lawful) : ∀ elements : List Attr,
    attrsWellFormed elements → attrsEverywhere SelaType.Spelled Attr.Fits elements →
    ∀ element ∈ elements, framework.ReadsAttribute element
  | [], _, _ => by simp
  | element :: elements, hform, h => List.forall_mem_cons.mpr
      ⟨Attr.reads hlawful element hform.1 h.1, attrsReads hlawful elements hform.2 h.2⟩

theorem entriesReads (hlawful : framework.Lawful) : ∀ entries : List (String × Attr),
    entriesWellFormed entries → entriesEverywhere SelaType.Spelled Attr.Fits entries →
    ∀ value ∈ entries.map Prod.snd, framework.ReadsAttribute value
  | [], _, _ => by simp
  | (_, value) :: entries, hform, h => by
    rw [List.map_cons, List.forall_mem_cons]
    exact ⟨Attr.reads hlawful value hform.1 h.1, entriesReads hlawful entries hform.2 h.2⟩

end

end Reads

/-! ## What an integer count is read back as -/

/-- The count that is read back for an array. -/
def Attr.readCount (count widened : Attr) : Attr :=
  match count.number? with
  | some value => .integer 64 (value % 2 ^ 64)
  | none => widened

mutual

/-- The type with every integer count signless and of 64 bits. -/
def SelaType.widen : SelaType → SelaType
  | .vector shape scalable element => .vector shape scalable element.widen
  | .function inputs results => .function (typesWiden inputs) (typesWiden results)
  | .array element count => .array element.widen (count.readCount count.widen)
  | .choice cases => .choice cases.widen
  | .record identity packed fields => .record identity packed (typesWiden fields)
  | .overlap identity alternatives domains =>
    .overlap identity (typesWiden alternatives) (attrsWiden domains)
  | type => type

def typesWiden : List SelaType → List SelaType
  | [] => []
  | type :: types => type.widen :: typesWiden types

/-- The attribute with every integer count in its types signless and of 64 bits. -/
def Attr.widen : Attr → Attr
  | .float scalar bits => .float scalar.widen bits
  | .type value => .type value.widen
  | .array elements => .array (attrsWiden elements)
  | .dictionary entries => .dictionary (entriesWiden entries)
  | attr => attr

def attrsWiden : List Attr → List Attr
  | [] => []
  | element :: elements => element.widen :: attrsWiden elements

def entriesWiden : List (String × Attr) → List (String × Attr)
  | [] => []
  | (name, value) :: entries => (name, value.widen) :: entriesWiden entries

end

theorem typesWiden_eq : ∀ types : List SelaType, typesWiden types = types.map SelaType.widen
  | [] => rfl
  | type :: types => by rw [typesWiden, typesWiden_eq types, List.map_cons]

theorem attrsWiden_eq : ∀ elements : List Attr, attrsWiden elements = elements.map Attr.widen
  | [] => rfl
  | element :: elements => by rw [attrsWiden, attrsWiden_eq elements, List.map_cons]

theorem entriesWiden_eq : ∀ entries : List (String × Attr),
    entriesWiden entries = entries.map fun entry => (entry.1, entry.2.widen)
  | [] => rfl
  | (name, value) :: entries => by rw [entriesWiden, entriesWiden_eq entries, List.map_cons]

/-- Inside a type of the framework, the integer counts become so too. -/
theorem SelaType.widen_eq_mapInside {type : SelaType} (h : type.isSela = false) :
    type.widen = type.mapInside SelaType.widen := by
  cases type <;> simp_all [SelaType.isSela, SelaType.widen, SelaType.mapInside, typesWiden_eq]

theorem Attr.widen_eq_mapInside (attr : Attr) :
    attr.widen = attr.mapInside SelaType.widen Attr.widen := by
  cases attr <;> simp [Attr.widen, Attr.mapInside, attrsWiden_eq, entriesWiden_eq]

theorem SelaType.widen_isScalar {type : SelaType} (h : type.isScalar = true) :
    type.widen = type := by
  cases type <;> first | rfl | simp [SelaType.isScalar] at h

section Widen

variable {framework : TextFramework}

theorem Attr.number?_widen (attr : Attr) : attr.widen.number? = attr.number? := by
  cases attr <;> rfl

/-- An array and the array with the count that is read back have the same text. -/
theorem SelaDialect.printArray_readCount {element element' : SelaType} {count widened : Attr}
    (helement : framework.printType element' = framework.printType element)
    (hcount : framework.printAttribute widened = framework.printAttribute count)
    (hwidened : widened.number? = count.number?) :
    SelaDialect.printArray framework element' (count.readCount widened) =
      SelaDialect.printArray framework element count := by
  cases hnumber : count.number? with
  | some value =>
    rw [SelaDialect.printArray_of_number hnumber, ← helement]
    simp [Attr.readCount, hnumber, SelaDialect.printArray]
  | none =>
    have heq : count.readCount widened = widened := by rw [Attr.readCount, hnumber]
    rw [heq, SelaDialect.printArray_of_not_number hnumber,
      SelaDialect.printArray_of_not_number (hwidened.trans hnumber), helement, hcount]

mutual

theorem SelaType.printType_widen (hlawful : framework.Lawful) : ∀ type : SelaType,
    framework.printType type.widen = framework.printType type
  | .vector shape scalable element => by
    rw [SelaType.widen_eq_mapInside rfl]
    refine hlawful.printInside _ _ rfl ?_
    simpa [SelaType.inside] using SelaType.printType_widen hlawful element
  | .function inputs results => by
    rw [SelaType.widen_eq_mapInside rfl]
    refine hlawful.printInside _ _ rfl fun inner hinner => ?_
    rcases List.mem_append.mp hinner with hinner | hinner
    · exact printTypes_widen hlawful inputs inner hinner
    · exact printTypes_widen hlawful results inner hinner
  | .array element count => by
    rw [hlawful.printSela _ rfl, hlawful.printSela (.array element count) rfl]
    simp only [SelaType.widen, SelaDialect.printType]
    rw [SelaDialect.printArray_readCount (SelaType.printType_widen hlawful element)
      (Attr.printAttribute_widen hlawful count) count.number?_widen]
  | .choice cases => by
    rw [hlawful.printSela _ rfl, hlawful.printSela (.choice cases) rfl]
    simp only [SelaType.widen, SelaDialect.printType, Attr.printAttribute_widen hlawful cases]
  | .record identity packed fields => by
    have hfields : (typesWiden fields).map framework.printType =
        fields.map framework.printType := by
      simpa [typesWiden_eq] using printTypes_widen hlawful fields
    rw [hlawful.printSela _ rfl, hlawful.printSela (.record identity packed fields) rfl]
    simp only [SelaType.widen, SelaDialect.printType, hfields]
  | .overlap identity alternatives domains => by
    have halternatives : (typesWiden alternatives).map framework.printType =
        alternatives.map framework.printType := by
      simpa [typesWiden_eq] using printTypes_widen hlawful alternatives
    have hdomains : framework.printAttribute (.array (attrsWiden domains)) =
        framework.printAttribute (.array domains) := by
      have := hlawful.printAttributeInside (.array domains) SelaType.widen Attr.widen
        (by simp [Attr.typesInside]) (printAttributes_widen hlawful domains)
      rwa [Attr.mapInside, ← attrsWiden_eq] at this
    rw [hlawful.printSela _ rfl, hlawful.printSela (.overlap identity alternatives domains) rfl]
    simp only [SelaType.widen, SelaDialect.printType, halternatives, hdomains]
  | .integer _ | .f32 | .f64 | .foreign _ | .word | .ptr | .vaList | .vaListArgument => rfl

theorem printTypes_widen (hlawful : framework.Lawful) : ∀ types : List SelaType,
    ∀ type ∈ types, framework.printType type.widen = framework.printType type
  | [] => by simp
  | type :: types => List.forall_mem_cons.mpr
      ⟨SelaType.printType_widen hlawful type, printTypes_widen hlawful types⟩

theorem Attr.printAttribute_widen (hlawful : framework.Lawful) : ∀ attr : Attr,
    framework.printAttribute attr.widen = framework.printAttribute attr
  | .float scalar bits => by
    rw [Attr.widen_eq_mapInside]
    refine hlawful.printAttributeInside _ _ _ ?_ (by simp [Attr.inside])
    simpa [Attr.typesInside] using SelaType.printType_widen hlawful scalar
  | .type value => by
    rw [Attr.widen_eq_mapInside]
    refine hlawful.printAttributeInside _ _ _ ?_ (by simp [Attr.inside])
    simpa [Attr.typesInside] using SelaType.printType_widen hlawful value
  | .array elements => by
    rw [Attr.widen_eq_mapInside]
    exact hlawful.printAttributeInside _ _ _ (by simp [Attr.typesInside])
      (printAttributes_widen hlawful elements)
  | .dictionary entries => by
    rw [Attr.widen_eq_mapInside]
    exact hlawful.printAttributeInside _ _ _ (by simp [Attr.typesInside])
      (printEntries_widen hlawful entries)
  | .unit | .integer _ _ | .string _ | .denseI32 _ | .foreign _ => rfl

theorem printAttributes_widen (hlawful : framework.Lawful) : ∀ elements : List Attr,
    ∀ element ∈ elements, framework.printAttribute element.widen = framework.printAttribute element
  | [] => by simp
  | element :: elements => List.forall_mem_cons.mpr
      ⟨Attr.printAttribute_widen hlawful element, printAttributes_widen hlawful elements⟩

theorem printEntries_widen (hlawful : framework.Lawful) : ∀ entries : List (String × Attr),
    ∀ value ∈ entries.map Prod.snd,
      framework.printAttribute value.widen = framework.printAttribute value
  | [] => by simp
  | (_, value) :: entries => by
    rw [List.map_cons, List.forall_mem_cons]
    exact ⟨Attr.printAttribute_widen hlawful value, printEntries_widen hlawful entries⟩

end

mutual

/-- What is read back instead is a type of the framework, and reads back as itself. -/
theorem SelaType.widen_spelled : ∀ type : SelaType, type.WellFormed →
    type.Everywhere SelaType.identityPlain Attr.Fits →
    type.widen.WellFormed ∧ type.widen.Everywhere SelaType.Spelled Attr.Fits
  | .vector shape scalable element, hform, h => by
    have hscalar : element.isScalar = true := hform
    have hwiden := SelaType.widen_isScalar hscalar
    refine ⟨by simpa [SelaType.widen, SelaType.WellFormed, hwiden] using hscalar, ⟨trivial, trivial⟩, ?_⟩
    rw [hwiden]
    cases element <;> first | exact ⟨trivial, trivial⟩ | simp [SelaType.isScalar] at hscalar
  | .function inputs results, hform, h => by
    obtain ⟨hinputs, hinputs'⟩ := typesWiden_spelled inputs hform.1 h.2.1
    obtain ⟨hresults, hresults'⟩ := typesWiden_spelled results hform.2 h.2.2
    exact ⟨⟨hinputs, hresults⟩, ⟨trivial, trivial⟩, hinputs', hresults'⟩
  | .array element count, hform, h => by
    obtain ⟨helement, helement'⟩ := SelaType.widen_spelled element hform.1 h.2.1
    cases hnumber : count.number? with
    | some value =>
      have hfits : value % 2 ^ 64 < 2 ^ 64 := Nat.mod_lt _ (by decide)
      have hread : count.readCount count.widen = .integer 64 (value % 2 ^ 64) := by
        rw [Attr.readCount, hnumber]
      rw [SelaType.widen, hread]
      exact ⟨⟨helement, trivial⟩, ⟨trivial, rfl⟩, helement', hfits⟩
    | none =>
      obtain ⟨hcount, hcount'⟩ := Attr.widen_spelled count hform.2 h.2.2
      have hread : count.readCount count.widen = count.widen := by rw [Attr.readCount, hnumber]
      rw [SelaType.widen, hread]
      have hwide : (SelaType.array element.widen count.widen).countWide :=
        SelaType.countWide_of_not_number (count.number?_widen.trans hnumber)
      exact ⟨⟨helement, hcount⟩, ⟨trivial, hwide⟩, helement', hcount'⟩
  | .choice cases, hform, h => by
    obtain ⟨hcases, hcases'⟩ := Attr.widen_spelled cases hform h.2
    exact ⟨hcases, ⟨trivial, trivial⟩, hcases'⟩
  | .record identity packed fields, hform, h => by
    obtain ⟨hfields, hfields'⟩ := typesWiden_spelled fields hform h.2
    exact ⟨hfields, ⟨h.1, trivial⟩, hfields'⟩
  | .overlap identity alternatives domains, hform, h => by
    obtain ⟨halternatives, halternatives'⟩ := typesWiden_spelled alternatives hform.1 h.2.1
    obtain ⟨hdomains, hdomains'⟩ := attrsWiden_spelled domains hform.2 h.2.2
    exact ⟨⟨halternatives, hdomains⟩, ⟨h.1, trivial⟩, halternatives', hdomains'⟩
  | .integer _, _, _ | .f32, _, _ | .f64, _, _ | .foreign _, _, _ | .word, _, _ | .ptr, _, _
  | .vaList, _, _ | .vaListArgument, _, _ => ⟨trivial, trivial, trivial⟩

theorem typesWiden_spelled : ∀ types : List SelaType, typesWellFormed types →
    typesEverywhere SelaType.identityPlain Attr.Fits types →
    typesWellFormed (typesWiden types) ∧
      typesEverywhere SelaType.Spelled Attr.Fits (typesWiden types)
  | [], _, _ => ⟨trivial, trivial⟩
  | type :: types, hform, h => by
    obtain ⟨htype, htype'⟩ := SelaType.widen_spelled type hform.1 h.1
    obtain ⟨htypes, htypes'⟩ := typesWiden_spelled types hform.2 h.2
    exact ⟨⟨htype, htypes⟩, htype', htypes'⟩

theorem Attr.widen_spelled : ∀ attr : Attr, attr.WellFormed →
    attr.Everywhere SelaType.identityPlain Attr.Fits →
    attr.widen.WellFormed ∧ attr.widen.Everywhere SelaType.Spelled Attr.Fits
  | .float scalar bits, _, h => by
    have hwiden : scalar.widen = scalar := by
      cases scalar <;> first | rfl | exact absurd h.1 (by simp [Attr.Fits])
    refine ⟨trivial, ?_, ?_⟩
    · rw [hwiden]
      exact h.1
    · rw [hwiden]
      cases scalar <;> first | exact ⟨trivial, trivial⟩ | exact absurd h.1 (by simp [Attr.Fits])
  | .type value, hform, h => by
    obtain ⟨hvalue, hvalue'⟩ := SelaType.widen_spelled value hform h.2
    exact ⟨hvalue, trivial, hvalue'⟩
  | .array elements, hform, h => by
    obtain ⟨helements, helements'⟩ := attrsWiden_spelled elements hform h.2
    exact ⟨helements, trivial, helements'⟩
  | .dictionary entries, hform, h => by
    obtain ⟨hentries, hentries'⟩ := entriesWiden_spelled entries hform.2 h.2
    refine ⟨⟨?_, hentries⟩, trivial, hentries'⟩
    have hnames : (entriesWiden entries).map Prod.fst = entries.map Prod.fst := by
      simp [entriesWiden_eq, Function.comp_def]
    simpa only [Attributes.Sorted, hnames] using hform.1
  | .unit, _, _ | .string _, _, _ => ⟨trivial, trivial⟩
  | .integer _ _, _, h | .denseI32 _, _, h | .foreign _, _, h => ⟨trivial, h⟩

theorem attrsWiden_spelled : ∀ elements : List Attr, attrsWellFormed elements →
    attrsEverywhere SelaType.identityPlain Attr.Fits elements →
    attrsWellFormed (attrsWiden elements) ∧
      attrsEverywhere SelaType.Spelled Attr.Fits (attrsWiden elements)
  | [], _, _ => ⟨trivial, trivial⟩
  | element :: elements, hform, h => by
    obtain ⟨helement, helement'⟩ := Attr.widen_spelled element hform.1 h.1
    obtain ⟨helements, helements'⟩ := attrsWiden_spelled elements hform.2 h.2
    exact ⟨⟨helement, helements⟩, helement', helements'⟩

theorem entriesWiden_spelled : ∀ entries : List (String × Attr), entriesWellFormed entries →
    entriesEverywhere SelaType.identityPlain Attr.Fits entries →
    entriesWellFormed (entriesWiden entries) ∧
      entriesEverywhere SelaType.Spelled Attr.Fits (entriesWiden entries)
  | [], _, _ => ⟨trivial, trivial⟩
  | (_, value) :: entries, hform, h => by
    obtain ⟨hvalue, hvalue'⟩ := Attr.widen_spelled value hform.1 h.1
    obtain ⟨hentries, hentries'⟩ := entriesWiden_spelled entries hform.2 h.2
    exact ⟨⟨hvalue, hentries⟩, hvalue', hentries'⟩

end

/-- A type whose identities are plain reads back exactly when every integer count in it is
signless and has 64 bits. -/
theorem SelaType.reads_iff (hlawful : framework.Lawful) {type : SelaType}
    (hform : type.WellFormed) (hplain : type.Everywhere SelaType.identityPlain Attr.Fits) :
    framework.ReadsType type ↔ type.Everywhere SelaType.countWide fun _ => True := by
  obtain ⟨hform', hspelled⟩ := SelaType.widen_spelled type hform hplain
  constructor
  · intro hreads
    have hwiden : framework.ReadsType type.widen := SelaType.reads hlawful _ hform' hspelled
    have hsame : Reads framework.parseType (framework.printType type) type.widen := by
      rw [← SelaType.printType_widen hlawful type]
      exact hwiden
    rw [hreads.unique hsame]
    exact hspelled.imp (fun _ h => h.2) fun _ _ => trivial
  · intro hwide
    exact SelaType.reads hlawful _ hform ((hplain.and hwide).imp (fun _ h => h) fun _ h => h.1)

end Widen

/-! ## The types a module may have -/

/-- No identity inside the count of an array needs escapes in quotes. -/
def SelaType.countPlain : SelaType → Prop
  | .array _ count => count.Everywhere SelaType.identityPlain fun _ => True
  | _ => True

theorem isPlain_of_checkIdentity {identity : String} (h : checkIdentity identity = .ok ()) :
    isPlain identity.toList = true := by
  obtain ⟨hlength, -, hhead, htail⟩ := ensure_ok.mp h
  cases hchars : identity.toList with
  | nil => simp [hchars] at hhead
  | cons c chars =>
    obtain rfl : c = 'r' := by simpa [hchars] using hhead
    simp only [hchars, List.tail_cons, List.all_eq_true, decide_eq_true_eq] at htail
    simp only [isPlain, List.all_eq_true]
    refine List.forall_mem_cons.mpr ⟨by decide, fun d hd => ?_⟩
    have hlow : 48 ≤ d.toNat := UInt32.le_iff_toNat_le.mp (htail d hd).1
    have hhigh : d.toNat ≤ 57 := UInt32.le_iff_toNat_le.mp (htail d hd).2
    have hne : ∀ e : Char, 57 < e.toNat ∨ e.toNat < 48 → d ≠ e := by
      rintro e he rfl
      omega
    simp only [isBreak, Bool.and_eq_true, bne_iff_ne, ne_eq, Bool.not_eq_true', Bool.or_eq_false_iff,
      beq_eq_false_iff_ne]
    exact ⟨⟨hne _ (by decide), hne _ (by decide)⟩, ⟨hne _ (by decide), by omega⟩, by omega⟩

theorem everywhere_targetSet (ids : List String) :
    (targetSet ids).Everywhere SelaType.identityPlain fun _ => True := by
  refine ⟨trivial, attrsEverywhere_iff.mpr fun element helement => ?_⟩
  obtain ⟨id, -, rfl⟩ := List.mem_map.mp helement
  trivial

/-- What a dictionary of two entries holds. -/
theorem entries_of_two {entries : Attributes} {m n : String} {a b : Attr} (hlength : entries.length = 2)
    (hne : m ≠ n) (ha : entries.get m = some a) (hb : entries.get n = some b) :
    ∀ entry ∈ entries, entry.2 = a ∨ entry.2 = b := by
  have ha := Attributes.mem_of_get ha
  have hb := Attributes.mem_of_get hb
  obtain ⟨first, second, rfl⟩ := List.length_eq_two.mp hlength
  simp only [List.mem_cons, List.not_mem_nil, or_false] at ha hb ⊢
  rintro entry (rfl | rfl)
  · rcases ha with rfl | ha
    · exact .inl rfl
    · rcases hb with rfl | hb
      · exact .inr rfl
      · exact absurd (congrArg Prod.fst (ha.trans hb.symm)) hne
  · rcases ha with ha | rfl
    · rcases hb with hb | rfl
      · exact absurd (congrArg Prod.fst (ha.trans hb.symm)) hne
      · exact .inr rfl
    · exact .inl rfl

/-- The cases of an admitted choice hold admitted types, and target sets. -/
theorem everywhere_of_checkCaseTypes {check : SelaType → Checked Unit}
    (hcheck : ∀ type, type.WellFormed → check type = .ok () →
      type.Everywhere SelaType.countPlain (fun _ => True) →
      type.Everywhere SelaType.identityPlain fun _ => True) :
    ∀ {level depth : ℕ} {declared : List String} {cases : Attr}, cases.WellFormed →
      checkAttribute depth declared cases = .ok () → checkCaseTypes check level cases = .ok () →
      cases.Everywhere SelaType.countPlain (fun _ => True) →
      cases.Everywhere SelaType.identityPlain fun _ => True
  | 0, _, _, _, _, _, h, _ => by simp [checkCaseTypes] at h
  | _, 0, _, _, _, h, _, _ => by simp [checkAttribute] at h
  | level + 1, depth + 1, declared, .type value, hform, _, htypes, hcount =>
    ⟨trivial, hcheck value hform htypes hcount.2⟩
  | level + 1, depth + 1, declared, .dictionary entries, hform, hattr, htypes, hcount => by
    simp only [checkCaseTypes] at htypes
    split at htypes
    · simp at htypes
    · rename_i alternatives halternatives
      obtain ⟨raw, hraw, halternatives⟩ := Option.bind_eq_some_iff.mp halternatives
      obtain rfl : raw = .array alternatives := by simpa using halternatives
      simp only [checkAttribute, hraw, Attr.asArray?] at hattr
      obtain ⟨_, hinventory, hcases⟩ := bind_ok.mp hattr
      obtain ⟨entry, rfl⟩ := List.length_eq_one_iff.mp (ensure_ok.mp hinventory).1
      obtain rfl : entry = ("target_cases", .array alternatives) := by
        exact (List.mem_singleton.mp (Attributes.mem_of_get hraw)).symm
      refine ⟨trivial, ⟨trivial, attrsEverywhere_iff.mpr fun case hcase => ?_⟩, trivial⟩
      obtain ⟨inner, value, active, rfl, hlength, hvalue, hset, hnested⟩ :=
        checkCases_mem hcases case hcase
      obtain ⟨htargets, -⟩ := checkSet_ok hset
      have hformCase := attrsWellFormed_iff.mp hform.2.1 _ hcase
      have hcountCase := attrsEverywhere_iff.mp hcount.2.1.2 _ hcase
      have hnestedTypes := forM_ok.mp htypes _ hcase
      simp only [Attr.asDictionary?, Option.bind_some, hvalue, Option.getD_some] at hnestedTypes
      have hcountValue := entriesEverywhere_iff.mp hcountCase.2 _ (Attributes.mem_of_get hvalue)
      have hplain := everywhere_of_checkCaseTypes hcheck (hformCase.get hvalue) hnested
        hnestedTypes hcountValue
      refine ⟨trivial, entriesEverywhere_iff.mpr fun entry hentry => ?_⟩
      rcases entries_of_two hlength (by decide) hvalue htargets entry hentry with heq | heq
      · rwa [heq]
      · rw [heq]
        exact everywhere_targetSet active
  | _ + 1, _, _, .unit, _, _, htypes, _ | _ + 1, _, _, .integer _ _, _, _, htypes, _
  | _ + 1, _, _, .float _ _, _, _, htypes, _ | _ + 1, _, _, .string _, _, _, htypes, _
  | _ + 1, _, _, .array _, _, _, htypes, _ | _ + 1, _, _, .denseI32 _, _, _, htypes, _
  | _ + 1, _, _, .foreign _, _, _, htypes, _ => by simp [checkCaseTypes] at htypes

/-- The identities of an admitted type are plain, but for those inside the counts of arrays. -/
theorem everywhere_of_checkType {declared : List String} :
    ∀ {depth : ℕ} {type : SelaType}, type.WellFormed → checkType declared depth type = .ok () →
      type.Everywhere SelaType.countPlain (fun _ => True) →
      type.Everywhere SelaType.identityPlain fun _ => True
  | 0, _, _, h, _ => by simp [checkType] at h
  | depth + 1, type, hform, h, hcount => by
    have ih : ∀ {types : List SelaType}, typesWellFormed types →
        types.forM (fun field => checkType declared depth field) = .ok () →
        typesEverywhere SelaType.countPlain (fun _ => True) types →
        typesEverywhere SelaType.identityPlain (fun _ => True) types :=
      fun hform h hcount => typesEverywhere_iff.mpr fun field hfield =>
        everywhere_of_checkType (typesWellFormed_iff.mp hform field hfield)
          (forM_ok.mp h field hfield) (typesEverywhere_iff.mp hcount field hfield)
    cases type with
    | choice cases =>
      obtain ⟨_, hattr, htypes⟩ := bind_ok.mp h
      exact ⟨trivial, everywhere_of_checkCaseTypes (fun _ => everywhere_of_checkType) hform hattr
        htypes hcount.2⟩
    | array element count =>
      obtain ⟨_, -, helement⟩ := bind_ok.mp h
      exact ⟨trivial, everywhere_of_checkType hform.1 helement hcount.2.1, hcount.1⟩
    | record identity packed fields =>
      obtain ⟨hidentity, hfields⟩ := checkType_record.mp h
      refine ⟨?_, ih hform hfields hcount.2⟩
      rcases hidentity with rfl | hidentity
      · rfl
      · exact isPlain_of_checkIdentity hidentity
    | overlap identity alternatives domains =>
      obtain ⟨_, -, h⟩ := bind_ok.mp h
      obtain ⟨_, hdomains, h⟩ := bind_ok.mp h
      obtain ⟨_, hidentity, halternatives⟩ := bind_ok.mp h
      refine ⟨isPlain_of_checkIdentity hidentity, ih hform.1 halternatives hcount.2.1, ?_⟩
      refine attrsEverywhere_iff.mpr fun domain hdomain => ?_
      obtain ⟨ids, hset, -⟩ := bind_ok.mp (forM_ok.mp hdomains domain hdomain)
      obtain ⟨htargets, -⟩ := checkSet_ok hset
      exact Option.some.inj htargets ▸ everywhere_targetSet ids
    | function inputs results =>
      obtain ⟨_, -, h⟩ := bind_ok.mp h
      obtain ⟨_, hinputs, hresults⟩ := bind_ok.mp h
      exact ⟨trivial, ih hform.1 hinputs hcount.2.1, ih hform.2 hresults hcount.2.2⟩
    | vector shape scalable element =>
      refine ⟨trivial, ?_⟩
      have hscalar : element.isScalar = true := hform
      cases element <;> trivial
    | _ => trivial

/-- The types of the values of a definition, and those its attributes mention. -/
def Definition.types (definition : Definition) : List SelaType :=
  definition.regions.flatMap (fun region => region.blocks.flatMap fun block =>
    block.operations.flatMap fun operation =>
      operation.results.map Value.type ++ entriesMentioned operation.attributes) ++
    (definition.argumentTypes ++ entriesMentioned definition.attributes)

/-- The types of the values of a module, and those its attributes mention. -/
def Module.types (module : Module) : List SelaType :=
  module.body.flatMap Definition.types ++ entriesMentioned module.attributes

theorem checkType_of_checkOperation {declared active : List String} {attributes : Attributes}
    {types : List SelaType} (h : checkOperation declared active attributes types = .ok ()) :
    ∀ type ∈ types ++ entriesMentioned attributes, checkType declared 65 type = .ok () := by
  obtain ⟨_, -, h⟩ := bind_ok.mp h
  obtain ⟨_, -, h⟩ := bind_ok.mp h
  obtain ⟨_, htypes, hmentioned⟩ := bind_ok.mp h
  intro type htype
  exact (List.mem_append.mp htype).elim (forM_ok.mp htypes type) (forM_ok.mp hmentioned type)

theorem checkType_of_verifyDefinition {declared : List String} {definition : Definition}
    (h : verifyDefinition declared definition = .ok ()) :
    ∀ type ∈ definition.types, checkType declared 65 type = .ok () := by
  obtain ⟨hoperations, active, -, hself⟩ := verifyDefinition_ok.mp h
  intro type htype
  rcases List.mem_append.mp htype with htype | htype
  · obtain ⟨region, hregion, htype⟩ := List.mem_flatMap.mp htype
    obtain ⟨block, hblock, htype⟩ := List.mem_flatMap.mp htype
    obtain ⟨operation, hoperation, htype⟩ := List.mem_flatMap.mp htype
    obtain ⟨index, hindex⟩ := List.mem_iff_getElem?.mp hblock
    obtain ⟨_, -, hchecked⟩ := hoperations region hregion block index hindex operation hoperation
    exact checkType_of_checkOperation hchecked type htype
  · exact checkType_of_checkOperation hself type htype

/-- Every type of a verified module was checked. -/
theorem checkType_of_verifyTargetDomains {module : Module}
    (h : verifyTargetDomains module = .ok ()) :
    ∀ type ∈ module.types, ∃ declared, checkType declared 65 type = .ok () := by
  obtain ⟨declared, -, -, hbody, -, hself⟩ := verifyTargetDomains_ok.mp h
  intro type htype
  rcases List.mem_append.mp htype with htype | htype
  · obtain ⟨definition, hdefinition, htype⟩ := List.mem_flatMap.mp htype
    exact ⟨declared, checkType_of_verifyDefinition (hbody definition hdefinition) type htype⟩
  · exact ⟨declared, checkType_of_checkOperation hself type (by simpa using htype)⟩

/-- What the framework holds : dictionaries in order, vectors of scalars, numbers that fit. -/
def SelaType.Built (type : SelaType) : Prop :=
  type.WellFormed ∧ type.Everywhere (fun _ => True) Attr.Fits

/-- What the text of an admitted type needs : every integer count is signless and has 64 bits,
and no identity inside a count needs escapes. -/
def SelaType.KeepsText (type : SelaType) : Prop :=
  type.Everywhere SelaType.countPlain (fun _ => True) ∧
    type.Everywhere SelaType.countWide fun _ => True

/-- An admitted type whose counts mention only plain identities reads back exactly when its
integer counts are signless and have 64 bits. -/
theorem SelaType.reads_iff_of_checkType {framework : TextFramework} (hlawful : framework.Lawful)
    {declared : List String} {depth : ℕ} {type : SelaType} (hbuilt : type.Built)
    (hcheck : checkType declared depth type = .ok ())
    (hcount : type.Everywhere SelaType.countPlain fun _ => True) :
    framework.ReadsType type ↔ type.Everywhere SelaType.countWide fun _ => True := by
  have hplain := everywhere_of_checkType hbuilt.1 hcheck hcount
  refine SelaType.reads_iff hlawful hbuilt.1 ?_
  exact (hplain.and hbuilt.2).imp (fun _ h => h.1) fun _ h => h.2

/-- The types of a verified module survive their text exactly where the integer counts are
signless and have 64 bits, and types that do have texts of their own. -/
theorem types_roundTrip_iff {framework : TextFramework} (hlawful : framework.Lawful)
    {module : Module} (hverify : verifyTargetDomains module = .ok ())
    (hbuilt : ∀ type ∈ module.types, type.Built) :
    (∀ type ∈ module.types, type.Everywhere SelaType.countPlain (fun _ => True) →
      (framework.ReadsType type ↔ type.Everywhere SelaType.countWide fun _ => True)) ∧
    ∀ type ∈ module.types, ∀ type' ∈ module.types, type.KeepsText → type'.KeepsText →
      framework.printType type = framework.printType type' → type = type' := by
  have hiff : ∀ type ∈ module.types, type.Everywhere SelaType.countPlain (fun _ => True) →
      (framework.ReadsType type ↔ type.Everywhere SelaType.countWide fun _ => True) := by
    intro type htype hcount
    obtain ⟨declared, hcheck⟩ := checkType_of_verifyTargetDomains hverify type htype
    exact SelaType.reads_iff_of_checkType hlawful (hbuilt type htype) hcheck hcount
  refine ⟨hiff, fun type htype type' htype' hkeeps hkeeps' htext => ?_⟩
  have hreads := (hiff type htype hkeeps.1).mpr hkeeps.2
  have hreads' := (hiff type' htype' hkeeps'.1).mpr hkeeps'.2
  rw [TextFramework.ReadsType, ← htext] at hreads'
  exact hreads.unique hreads'

/-- A record of a word, a counted array and an array counted by its target. -/
def sampleRecord : SelaType :=
  .record "r0" false
    [.word, .array .ptr (.integer 64 4), .array (.integer 32) (.string "pointer_bytes")]

/-- A global of the type, for one target. -/
def moduleOfType (type : SelaType) : Module where
  attributes := [("sela.targets", targetSet ["x86_64"])]
  body := [⟨"sela.global", [("type", .type type)], []⟩]

theorem types_moduleOfType (type : SelaType) : (moduleOfType type).types = [type] := by
  simp [moduleOfType, Module.types, Definition.types, Definition.argumentTypes, entriesMentioned,
    Attr.mentioned, targetSet, attrsMentioned]

theorem sampleRecord_built : sampleRecord.Built := by
  simp [SelaType.Built, sampleRecord, SelaType.WellFormed, typesWellFormed, Attr.WellFormed,
    SelaType.Everywhere, typesEverywhere, Attr.Everywhere, Attr.Fits]

theorem sampleRecord_reads : PlainText.framework.ReadsType sampleRecord := by
  have := @types_roundTrip_iff _ PlainText.lawful (moduleOfType sampleRecord)
    (by decide +kernel) (by simpa [types_moduleOfType] using sampleRecord_built)
  refine (this.1 sampleRecord (by simp [types_moduleOfType]) ?_).mpr ?_
  · simp [sampleRecord, SelaType.Everywhere, typesEverywhere, Attr.Everywhere, SelaType.countPlain]
  · simp [sampleRecord, SelaType.Everywhere, typesEverywhere, Attr.Everywhere, SelaType.countWide]

/-- An array of four pointers, counted by a 32-bit integer. -/
def narrowArray : SelaType := .array .ptr (.integer 32 4)

/-- A verified module may hold the array; its text is that of the array with a 64-bit count, and
is not read back as itself. -/
theorem narrowArray_lost : verifyTargetDomains (moduleOfType narrowArray) = .ok () ∧
    narrowArray ∈ (moduleOfType narrowArray).types ∧ narrowArray.Built ∧
    PlainText.framework.printType narrowArray =
      PlainText.framework.printType (.array .ptr (.integer 64 4)) ∧
    ¬PlainText.framework.ReadsType narrowArray := by
  have hbuilt : narrowArray.Built := by
    simp [SelaType.Built, narrowArray, SelaType.WellFormed, Attr.WellFormed, SelaType.Everywhere,
      Attr.Everywhere, Attr.Fits]
  have hverify : verifyTargetDomains (moduleOfType narrowArray) = .ok () := by decide +kernel
  have hmem : narrowArray ∈ (moduleOfType narrowArray).types := by simp [types_moduleOfType]
  obtain ⟨declared, hcheck⟩ := checkType_of_verifyTargetDomains hverify _ hmem
  refine ⟨hverify, hmem, hbuilt, rfl, fun hreads => ?_⟩
  have hwide := (SelaType.reads_iff_of_checkType PlainText.lawful hbuilt hcheck ?_).mp hreads
  · simp [narrowArray, SelaType.Everywhere, SelaType.countWide] at hwide
  · simp [narrowArray, SelaType.Everywhere, Attr.Everywhere, SelaType.countPlain]

/-- So is the text of the array counted by an index. -/
example : PlainText.framework.printType (.array .ptr (.foreign (.number .index 4))) =
    PlainText.framework.printType (.array .ptr (.integer 64 4)) := rfl

end Sela
