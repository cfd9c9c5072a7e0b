/-
EntityQuery/Keyed.lean

Values filed under names, in the order in which the names first appeared.

A document, a table row, a map of variables and a set of tables are all of
this form.  Filing a value under a name that is already there replaces the
value and keeps the place, so a list read pair by pair (`Keyed.ofPairs`)
shows each name where it first stood with the value it was last given.
-/

namespace EntityQuery

/-- Values filed under names, in order of first appearance. -/
abbrev Keyed (α : Type) := List (String × α)

namespace Keyed

variable {α β : Type}

/-! ### Look-up -/

/-- The value filed under `name`, the first one if there are several. -/
def find? : Keyed α → String → Option α
  | [], _ => none
  | (other, value) :: m, name => if name = other then some value else find? m name

/-- Whether something is filed under `name`. -/
def contains (m : Keyed α) (name : String) : Bool :=
  (find? m name).isSome

/-- The names, in order. -/
def keys (m : Keyed α) : List String :=
  m.map Prod.fst

/-! ### Filing -/

/-- File `value` under `name`: in the place the name already has, else at
the end. -/
def put (name : String) (value : α) : Keyed α → Keyed α
  | [] => [(name, value)]
  | (other, old) :: rest =>
    if other = name then (name, value) :: rest else (other, old) :: put name value rest

/-- File a list of pairs one after another, starting from nothing. -/
def ofPairs (pairs : List (String × α)) : Keyed α :=
  pairs.foldl (fun m pair => put pair.1 pair.2 m) []

/-! ### What filing does to look-up -/

@[simp] theorem find?_nil (name : String) : find? ([] : Keyed α) name = none := rfl

theorem find?_cons (name other : String) (value : α) (m : Keyed α) :
    find? ((other, value) :: m) name = if name = other then some value else find? m name := by
  rfl

@[simp] theorem find?_put_self (name : String) (value : α) (m : Keyed α) :
    find? (put name value m) name = some value := by
  induction m with
  | nil => simp [put, find?_cons]
  | cons pair rest ih =>
    obtain ⟨other, old⟩ := pair
    by_cases h : other = name
    · simp [put, h, find?_cons]
    · have h' : ¬ name = other := fun e => h e.symm
      simp [put, h, find?_cons, h', ih]

theorem find?_put_of_ne {name other : String} (value : α) (m : Keyed α) (h : other ≠ name) :
    find? (put name value m) other = find? m other := by
  induction m with
  | nil => simp [put, find?_cons, h]
  | cons pair rest ih =>
    obtain ⟨first, old⟩ := pair
    by_cases e : first = name
    · subst e
      simp [put, find?_cons, h]
    · simp only [put, e, if_false, find?_cons, ih]

end Keyed

end EntityQuery
