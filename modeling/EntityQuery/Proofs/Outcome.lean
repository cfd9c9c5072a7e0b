/-
EntityQuery/Proofs/Outcome.lean

Computations that may fail.

A sequence of computations succeeds exactly if its parts do
(`Outcome.bind_eq_ok`), and a list is gone through with success exactly if
every element of it is (`Outcome.mapM_eq_ok`).
-/
import Mathlib.Data.List.Forall2

namespace EntityQuery.Outcome

variable {ε α β γ : Type}

theorem bind_eq_ok {x : Except ε α} {f : α → Except ε β} {b : β} :
    (x >>= f) = .ok b ↔ ∃ a, x = .ok a ∧ f a = .ok b := by
  cases x with
  | error e =>
    constructor
    · intro h
      cases h
    · rintro ⟨a, h, -⟩
      cases h
  | ok a =>
    constructor
    · intro h
      exact ⟨a, rfl, h⟩
    · rintro ⟨a', h, hf⟩
      cases h
      exact hf

@[simp] theorem pure_eq_ok {a b : α} : (pure a : Except ε α) = .ok b ↔ a = b := by
  show Except.ok a = .ok b ↔ a = b
  rw [Except.ok.injEq]

@[simp] theorem ok_bind (a : α) (f : α → Except ε β) : (Except.ok a >>= f) = f a := rfl

theorem map_eq_ok {f : α → β} {x : Except ε α} {b : β} :
    x.map f = .ok b ↔ ∃ a, x = .ok a ∧ f a = b := by
  cases x <;> simp [Except.map]

theorem mapError_eq_ok {ε' : Type} {f : ε → ε'} {x : Except ε α} {a : α} :
    x.mapError f = .ok a ↔ x = .ok a := by
  cases x <;> simp [Except.mapError]

theorem toOption_eq_some {x : Except ε α} {a : α} : x.toOption = some a ↔ x = .ok a := by
  cases x <;> simp [Except.toOption]

/-- Going through a list succeeds if it does so at every element. -/
theorem mapM_eq_ok {f : α → Except ε β} {xs : List α} {ys : List β} :
    xs.mapM f = .ok ys ↔ List.Forall₂ (fun x y => f x = .ok y) xs ys := by
  induction xs generalizing ys with
  | nil =>
    rw [List.mapM_nil, pure_eq_ok, List.forall₂_nil_left_iff]
    exact eq_comm
  | cons x xs ih =>
    rw [List.mapM_cons, bind_eq_ok, List.forall₂_cons_left_iff]
    constructor
    · rintro ⟨y, hy, h⟩
      obtain ⟨zs, hzs, e⟩ := bind_eq_ok.1 h
      exact ⟨y, zs, hy, ih.1 hzs, (pure_eq_ok.1 e).symm⟩
    · rintro ⟨y, zs, hy, hzs, rfl⟩
      exact ⟨y, hy, bind_eq_ok.2 ⟨zs, ih.2 hzs, rfl⟩⟩

/-- What is in a list that was computed was computed from an element. -/
theorem exists_of_mem_mapM {f : α → Except ε β} {xs : List α} {ys : List β} {y : β}
    (h : xs.mapM f = .ok ys) (hy : y ∈ ys) : ∃ x ∈ xs, f x = .ok y := by
  have pairs := mapM_eq_ok.1 h
  induction pairs with
  | nil => exact absurd hy List.not_mem_nil
  | @cons x z xs zs first rest ih =>
    rcases List.mem_cons.1 hy with rfl | hy
    · exact ⟨x, List.mem_cons_self, first⟩
    · obtain ⟨x', hx, found⟩ := ih (mapM_eq_ok.2 rest) hy
      exact ⟨x', List.mem_cons_of_mem _ hx, found⟩

/-- A list on whose elements a computation succeeds. -/
theorem mapM_ok {f : α → Except ε β} {g : α → β} {xs : List α}
    (h : ∀ x ∈ xs, f x = .ok (g x)) : xs.mapM f = .ok (xs.map g) := by
  rw [mapM_eq_ok, List.forall₂_map_right_iff, List.forall₂_same]
  exact h

/-- What succeeds on every element of a list succeeds on the list. -/
theorem mapM_total {f : α → Except ε β} {P : β → Prop} {xs : List α}
    (h : ∀ x ∈ xs, ∃ y, f x = .ok y ∧ P y) : ∃ ys, xs.mapM f = .ok ys ∧ ∀ y ∈ ys, P y := by
  induction xs with
  | nil => exact ⟨[], rfl, List.forall_mem_nil _⟩
  | cons x xs ih =>
    obtain ⟨⟨y, hy, good⟩, later⟩ := List.forall_mem_cons.1 h
    obtain ⟨ys, e, goods⟩ := ih later
    refine ⟨y :: ys, ?_, List.forall_mem_cons.2 ⟨good, goods⟩⟩
    rw [List.mapM_cons, hy, ok_bind, e]
    rfl

/-- A computation succeeds on a list exactly if it does on every element. -/
theorem mapM_iff {f : α → Except ε β} {xs : List α} :
    (∃ ys, xs.mapM f = .ok ys) ↔ ∀ x ∈ xs, ∃ y, f x = .ok y := by
  constructor
  · rintro ⟨ys, h⟩
    have pairs := mapM_eq_ok.1 h
    clear h
    induction pairs with
    | nil => exact List.forall_mem_nil _
    | cons first rest ih => exact List.forall_mem_cons.2 ⟨⟨_, first⟩, ih⟩
  · intro h
    obtain ⟨ys, ok, -⟩ := mapM_total fun x hx => (h x hx).imp fun y one => ⟨one, trivial⟩
    exact ⟨ys, ok⟩

/-- Computations that agree on the elements agree on the list. -/
theorem mapM_congr {f g : α → Except ε β} {xs : List α} (h : ∀ x ∈ xs, f x = g x) :
    xs.mapM f = xs.mapM g := by
  induction xs with
  | nil => rfl
  | cons x xs ih =>
    rw [List.mapM_cons, List.mapM_cons, h x List.mem_cons_self,
      ih fun y hy => h y (List.mem_cons_of_mem _ hy)]

theorem mapM_map {f : β → Except ε γ} {g : α → β} {xs : List α} :
    (xs.map g).mapM f = xs.mapM fun x => f (g x) := by
  induction xs with
  | nil => rfl
  | cons x xs ih => rw [List.map_cons, List.mapM_cons, List.mapM_cons, ih]

/-- Changing the values of a list that was computed. -/
theorem map_mapM {f : α → Except ε β} {g : β → γ} {xs : List α} :
    (xs.mapM f).map (List.map g) = xs.mapM fun x => (f x).map g := by
  induction xs with
  | nil => rfl
  | cons x xs ih =>
    rw [List.mapM_cons, List.mapM_cons, ← ih]
    cases f x with
    | error e => rfl
    | ok y => cases xs.mapM f <;> rfl

private theorem filterAuxM_ok {f : α → Except ε Bool} {p : α → Bool} {xs : List α}
    (h : ∀ x ∈ xs, f x = .ok (p x)) (kept : List α) :
    xs.filterAuxM f kept = .ok ((xs.filter p).reverse ++ kept) := by
  induction xs generalizing kept with
  | nil => rfl
  | cons x xs ih =>
    have later : ∀ y ∈ xs, f y = .ok (p y) := fun y hy => h y (List.mem_cons_of_mem _ hy)
    rw [List.filterAuxM, h x List.mem_cons_self, ok_bind, ih later, List.filter_cons]
    cases p x <;> simp

/-- A list on whose elements a test succeeds. -/
theorem filterM_ok {f : α → Except ε Bool} {p : α → Bool} {xs : List α}
    (h : ∀ x ∈ xs, f x = .ok (p x)) : xs.filterM f = .ok (xs.filter p) := by
  simp only [List.filterM]
  rw [filterAuxM_ok h, ok_bind]
  simp [pure, Except.pure]

end EntityQuery.Outcome
