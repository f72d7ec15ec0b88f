import Mathlib.Data.List.Basic

/-!
# Normal paths

The lexical normal form of a path with `/` between its names : separators come once, a name
`.` goes with the separator after it, a name goes with a `..` after it. A path of ordinary
names is its own normal form (`lexicallyNormal_intercalate`).
-/

namespace Paths

/-- The names of a path, between its separators. -/
def names (path : List Char) : List (List Char) := path.splitOn '/'

def isAbsolute (path : List Char) : Bool := path.head? == some '/'

/-- The next name, after the normal form of the names before it, the last one first. -/
def push (absolute : Bool) (stack : List (List Char)) (name : List Char) : List (List Char) :=
  if name = [] ∨ name = ['.'] then stack
  else if name = ['.', '.'] then
    match stack with
    | [] => if absolute then [] else [name]
    | top :: below => if top = ['.', '.'] then name :: stack else below
  else name :: stack

/-- Whether the normal form ends in a separator : its last name is ordinary, and the path has
a separator or a name that vanishes after it. -/
def trailing (path : List Char) (stack : List (List Char)) : Bool :=
  (names path).getLast?.any (fun name => name = [] || name = ['.'] || name = ['.', '.']) &&
    stack.head?.any fun name => name ≠ ['.', '.']

/-- The lexical normal form of a path. -/
def lexicallyNormal (path : List Char) : List Char :=
  if path = [] then [] else
    let stack := (names path).foldl (push (isAbsolute path)) []
    let text := (if isAbsolute path then ['/'] else []) ++ ['/'].intercalate stack.reverse ++
      if trailing path stack then ['/'] else []
    if text = [] then ['.'] else text

/-- The elements of a path : its root, its names, and an empty one after a last separator. -/
def elements (path : List Char) : List (List Char) :=
  (if isAbsolute path then [['/']] else []) ++ (names path).filter (· ≠ []) ++
    if path.getLast? = some '/' ∧ (names path).any (· ≠ []) then [[]] else []

/-- What follows the elements two paths have in common. -/
def mismatch : List (List Char) → List (List Char) → List (List Char) × List (List Char)
  | a :: as, b :: bs => if a = b then mismatch as bs else (a :: as, b :: bs)
  | as, bs => (as, bs)

/-- Whether a path is a root or lies below it, by their names alone. -/
def inside (path root : List Char) : Bool :=
  let rest := mismatch (elements path) (elements root)
  let levels := rest.2.countP fun name => name ≠ [] ∧ name ≠ ['.'] ∧ name ≠ ['.', '.']
  isAbsolute path == isAbsolute root && levels == rest.2.count ['.', '.'] &&
    rest.1.head?.all fun name => name ≠ ['.', '.']

/-- A name in a directory. -/
def join (directory name : String) : String :=
  if directory.toList.getLast? = some '/' then directory ++ name else directory ++ "/" ++ name

/-- A name that stands for itself in a path. -/
structure Ordinary (name : List Char) : Prop where
  nonempty : name ≠ []
  ne_dot : name ≠ ['.']
  ne_parent : name ≠ ['.', '.']
  plain : '/' ∉ name

theorem ordinary_iff {name : List Char} :
    Ordinary name ↔ name ≠ [] ∧ name ≠ ['.'] ∧ name ≠ ['.', '.'] ∧ '/' ∉ name :=
  ⟨fun h => ⟨h.1, h.2, h.3, h.4⟩, fun h => ⟨h.1, h.2.1, h.2.2.1, h.2.2.2⟩⟩

instance : DecidablePred Ordinary := fun _ => decidable_of_iff _ ordinary_iff.symm

theorem Ordinary.push_eq {name : List Char} (h : Ordinary name) (absolute : Bool)
    (stack : List (List Char)) : push absolute stack name = name :: stack := by
  rw [push.eq_def, if_neg (by simp [h.nonempty, h.ne_dot]), if_neg h.ne_parent]

theorem foldl_push (absolute : Bool) {ordinary : List (List Char)}
    (h : ∀ name ∈ ordinary, Ordinary name) (stack : List (List Char)) :
    ordinary.foldl (push absolute) stack = ordinary.reverse ++ stack := by
  induction ordinary generalizing stack with
  | nil => rfl
  | cons name rest ih =>
    obtain ⟨hname, hrest⟩ := List.forall_mem_cons.mp h
    rw [List.foldl_cons, hname.push_eq, ih hrest, List.reverse_cons, List.append_assoc]
    rfl

section Join

variable {first : List Char} {rest : List (List Char)}

theorem intercalate_eq : ∃ more, ['/'].intercalate (first :: rest) = first ++ more := by
  cases rest with
  | nil => exact ⟨[], by simp⟩
  | cons next rest => exact ⟨['/'] ++ ['/'].intercalate (next :: rest), by simp⟩

theorem not_absolute (h : Ordinary first) :
    isAbsolute (['/'].intercalate (first :: rest)) = false := by
  obtain ⟨more, hmore⟩ := @intercalate_eq first rest
  match first, h with
  | c :: _, h =>
    have hc : c ≠ '/' := fun hc => h.plain (by simp [hc])
    simpa [hmore, isAbsolute] using hc

theorem intercalate_ne_nil (h : Ordinary first) : ['/'].intercalate (first :: rest) ≠ [] := by
  obtain ⟨more, hmore⟩ := @intercalate_eq first rest
  rw [hmore]
  simp [h.nonempty]

/-- A path of ordinary names is in normal form. -/
theorem lexicallyNormal_intercalate (h : ∀ name ∈ first :: rest, Ordinary name) :
    lexicallyNormal (['/'].intercalate (first :: rest)) = ['/'].intercalate (first :: rest) := by
  have hfirst : Ordinary first := h first (.head rest)
  have hnames : names (['/'].intercalate (first :: rest)) = first :: rest :=
    List.splitOn_intercalate '/' (fun name hname => (h name hname).plain) (List.cons_ne_nil _ _)
  have htrailing : ∀ stack, trailing (['/'].intercalate (first :: rest)) stack = false := by
    intro stack
    have hlast := h _ (List.getLast_mem (List.cons_ne_nil first rest))
    rw [trailing, hnames, List.getLast?_eq_getLast_of_ne_nil (List.cons_ne_nil first rest)]
    simp [hlast.nonempty, hlast.ne_dot, hlast.ne_parent]
  rw [lexicallyNormal, if_neg (intercalate_ne_nil hfirst)]
  simp only [hnames, not_absolute hfirst, htrailing, foldl_push _ h, List.append_nil,
    List.reverse_reverse, Bool.false_eq_true, if_false, List.nil_append]
  exact if_neg (intercalate_ne_nil hfirst)

end Join

example : inside "/build/lane/a.o".toList "/build/lane".toList = true := by decide

example : lexicallyNormal "a/.///b/../".toList = "a/".toList := by decide

end Paths
