import Sela.Type

/-!
# What holds everywhere inside a type

Types hold attributes and attributes hold types; `SelaType.Everywhere` says something of
all the types and of all the attributes inside a type, itself included.
-/

namespace Sela

variable (P : SelaType → Prop) (Q : Attr → Prop)

mutual

/-- `P` of the type and every type inside, `Q` of every attribute inside. -/
def SelaType.Everywhere : SelaType → Prop
  | .vector shape scalable element => P (.vector shape scalable element) ∧ element.Everywhere
  | .function inputs results =>
    P (.function inputs results) ∧ typesEverywhere inputs ∧ typesEverywhere results
  | .array element count => P (.array element count) ∧ element.Everywhere ∧ count.Everywhere
  | .choice cases => P (.choice cases) ∧ cases.Everywhere
  | .record identity packed fields => P (.record identity packed fields) ∧ typesEverywhere fields
  | .overlap identity alternatives domains =>
    P (.overlap identity alternatives domains) ∧ typesEverywhere alternatives ∧
      attrsEverywhere domains
  | type => P type

def typesEverywhere : List SelaType → Prop
  | [] => True
  | type :: types => type.Everywhere ∧ typesEverywhere types

/-- `Q` of the attribute and every attribute inside, `P` of every type inside. -/
def Attr.Everywhere : Attr → Prop
  | .float scalar bits => Q (.float scalar bits) ∧ scalar.Everywhere
  | .type value => Q (.type value) ∧ value.Everywhere
  | .array elements => Q (.array elements) ∧ attrsEverywhere elements
  | .dictionary entries => Q (.dictionary entries) ∧ entriesEverywhere entries
  | attr => Q attr

def attrsEverywhere : List Attr → Prop
  | [] => True
  | element :: elements => element.Everywhere ∧ attrsEverywhere elements

def entriesEverywhere : List (String × Attr) → Prop
  | [] => True
  | (_, value) :: entries => value.Everywhere ∧ entriesEverywhere entries

end

variable {P Q}

theorem typesEverywhere_iff : ∀ {types : List SelaType},
    typesEverywhere P Q types ↔ ∀ type ∈ types, type.Everywhere P Q
  | [] => by simp [typesEverywhere]
  | type :: types => by rw [typesEverywhere, typesEverywhere_iff, List.forall_mem_cons]

theorem attrsEverywhere_iff : ∀ {elements : List Attr},
    attrsEverywhere P Q elements ↔ ∀ element ∈ elements, element.Everywhere P Q
  | [] => by simp [attrsEverywhere]
  | element :: elements => by rw [attrsEverywhere, attrsEverywhere_iff, List.forall_mem_cons]

theorem entriesEverywhere_iff : ∀ {entries : List (String × Attr)},
    entriesEverywhere P Q entries ↔ ∀ entry ∈ entries, entry.2.Everywhere P Q
  | [] => by simp [entriesEverywhere]
  | (name, value) :: entries => by
    rw [entriesEverywhere, entriesEverywhere_iff, List.forall_mem_cons]

theorem Attr.Everywhere.self {attr : Attr} (h : attr.Everywhere P Q) : Q attr := by
  cases attr <;> simp only [Attr.Everywhere] at h <;> first | exact h.1 | exact h

variable {P' : SelaType → Prop} {Q' : Attr → Prop}

mutual

theorem SelaType.Everywhere.imp (hP : ∀ type, P type → P' type) (hQ : ∀ attr, Q attr → Q' attr) :
    ∀ {type : SelaType}, type.Everywhere P Q → type.Everywhere P' Q'
  | .vector _ _ _, h => ⟨hP _ h.1, SelaType.Everywhere.imp hP hQ h.2⟩
  | .function _ _, h => ⟨hP _ h.1, typesEverywhere_imp hP hQ h.2.1, typesEverywhere_imp hP hQ h.2.2⟩
  | .array _ _, h => ⟨hP _ h.1, SelaType.Everywhere.imp hP hQ h.2.1, Attr.Everywhere.imp hP hQ h.2.2⟩
  | .choice _, h => ⟨hP _ h.1, Attr.Everywhere.imp hP hQ h.2⟩
  | .record _ _ _, h => ⟨hP _ h.1, typesEverywhere_imp hP hQ h.2⟩
  | .overlap _ _ _, h =>
    ⟨hP _ h.1, typesEverywhere_imp hP hQ h.2.1, attrsEverywhere_imp hP hQ h.2.2⟩
  | .integer _, h | .f32, h | .f64, h | .foreign _, h | .word, h | .ptr, h | .vaList, h
  | .vaListArgument, h => hP _ h

theorem typesEverywhere_imp (hP : ∀ type, P type → P' type) (hQ : ∀ attr, Q attr → Q' attr) :
    ∀ {types : List SelaType}, typesEverywhere P Q types → typesEverywhere P' Q' types
  | [], _ => trivial
  | _ :: _, h => ⟨SelaType.Everywhere.imp hP hQ h.1, typesEverywhere_imp hP hQ h.2⟩

theorem Attr.Everywhere.imp (hP : ∀ type, P type → P' type) (hQ : ∀ attr, Q attr → Q' attr) :
    ∀ {attr : Attr}, attr.Everywhere P Q → attr.Everywhere P' Q'
  | .float _ _, h => ⟨hQ _ h.1, SelaType.Everywhere.imp hP hQ h.2⟩
  | .type _, h => ⟨hQ _ h.1, SelaType.Everywhere.imp hP hQ h.2⟩
  | .array _, h => ⟨hQ _ h.1, attrsEverywhere_imp hP hQ h.2⟩
  | .dictionary _, h => ⟨hQ _ h.1, entriesEverywhere_imp hP hQ h.2⟩
  | .unit, h | .integer _ _, h | .string _, h | .denseI32 _, h | .foreign _, h => hQ _ h

theorem attrsEverywhere_imp (hP : ∀ type, P type → P' type) (hQ : ∀ attr, Q attr → Q' attr) :
    ∀ {elements : List Attr}, attrsEverywhere P Q elements → attrsEverywhere P' Q' elements
  | [], _ => trivial
  | _ :: _, h => ⟨Attr.Everywhere.imp hP hQ h.1, attrsEverywhere_imp hP hQ h.2⟩

theorem entriesEverywhere_imp (hP : ∀ type, P type → P' type) (hQ : ∀ attr, Q attr → Q' attr) :
    ∀ {entries : List (String × Attr)},
      entriesEverywhere P Q entries → entriesEverywhere P' Q' entries
  | [], _ => trivial
  | _ :: _, h => ⟨Attr.Everywhere.imp hP hQ h.1, entriesEverywhere_imp hP hQ h.2⟩

end

mutual

theorem SelaType.Everywhere.and : ∀ {type : SelaType}, type.Everywhere P Q →
    type.Everywhere P' Q' →
    type.Everywhere (fun type => P type ∧ P' type) (fun attr => Q attr ∧ Q' attr)
  | .vector _ _ _, h, h' => ⟨⟨h.1, h'.1⟩, SelaType.Everywhere.and h.2 h'.2⟩
  | .function _ _, h, h' =>
    ⟨⟨h.1, h'.1⟩, typesEverywhere_and h.2.1 h'.2.1, typesEverywhere_and h.2.2 h'.2.2⟩
  | .array _ _, h, h' =>
    ⟨⟨h.1, h'.1⟩, SelaType.Everywhere.and h.2.1 h'.2.1, Attr.Everywhere.and h.2.2 h'.2.2⟩
  | .choice _, h, h' => ⟨⟨h.1, h'.1⟩, Attr.Everywhere.and h.2 h'.2⟩
  | .record _ _ _, h, h' => ⟨⟨h.1, h'.1⟩, typesEverywhere_and h.2 h'.2⟩
  | .overlap _ _ _, h, h' =>
    ⟨⟨h.1, h'.1⟩, typesEverywhere_and h.2.1 h'.2.1, attrsEverywhere_and h.2.2 h'.2.2⟩
  | .integer _, h, h' | .f32, h, h' | .f64, h, h' | .foreign _, h, h' | .word, h, h'
  | .ptr, h, h' | .vaList, h, h' | .vaListArgument, h, h' => ⟨h, h'⟩

theorem typesEverywhere_and : ∀ {types : List SelaType}, typesEverywhere P Q types →
    typesEverywhere P' Q' types →
    typesEverywhere (fun type => P type ∧ P' type) (fun attr => Q attr ∧ Q' attr) types
  | [], _, _ => trivial
  | _ :: _, h, h' => ⟨SelaType.Everywhere.and h.1 h'.1, typesEverywhere_and h.2 h'.2⟩

theorem Attr.Everywhere.and : ∀ {attr : Attr}, attr.Everywhere P Q → attr.Everywhere P' Q' →
    attr.Everywhere (fun type => P type ∧ P' type) (fun attr => Q attr ∧ Q' attr)
  | .float _ _, h, h' => ⟨⟨h.1, h'.1⟩, SelaType.Everywhere.and h.2 h'.2⟩
  | .type _, h, h' => ⟨⟨h.1, h'.1⟩, SelaType.Everywhere.and h.2 h'.2⟩
  | .array _, h, h' => ⟨⟨h.1, h'.1⟩, attrsEverywhere_and h.2 h'.2⟩
  | .dictionary _, h, h' => ⟨⟨h.1, h'.1⟩, entriesEverywhere_and h.2 h'.2⟩
  | .unit, h, h' | .integer _ _, h, h' | .string _, h, h' | .denseI32 _, h, h'
  | .foreign _, h, h' => ⟨h, h'⟩

theorem attrsEverywhere_and : ∀ {elements : List Attr}, attrsEverywhere P Q elements →
    attrsEverywhere P' Q' elements →
    attrsEverywhere (fun type => P type ∧ P' type) (fun attr => Q attr ∧ Q' attr) elements
  | [], _, _ => trivial
  | _ :: _, h, h' => ⟨Attr.Everywhere.and h.1 h'.1, attrsEverywhere_and h.2 h'.2⟩

theorem entriesEverywhere_and : ∀ {entries : List (String × Attr)},
    entriesEverywhere P Q entries → entriesEverywhere P' Q' entries →
    entriesEverywhere (fun type => P type ∧ P' type) (fun attr => Q attr ∧ Q' attr) entries
  | [], _, _ => trivial
  | _ :: _, h, h' => ⟨Attr.Everywhere.and h.1 h'.1, entriesEverywhere_and h.2 h'.2⟩

end

end Sela
