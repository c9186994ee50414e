/-
Computations that can fail.

What the success or the failure of steps, made one after the other or over a list, says of
the single steps.
-/
import Mathlib.Data.List.Forall2

namespace GnLang

variable {ε α β : Type}

/-- Whether a computation has succeeded with a certain answer. -/
instance decidableEqOk [DecidableEq α] (r : Except ε α) (a : α) : Decidable (r = .ok a) :=
  match r with
  | .ok b => decidable_of_iff (b = a) ⟨congrArg Except.ok, Except.ok.inj⟩
  | .error _ => .isFalse fun h => by cases h

/-- A step after another succeeds exactly if both do. -/
theorem bind_ok_iff {x : Except ε α} {f : α → Except ε β} {b : β} :
    x >>= f = .ok b ↔ ∃ a, x = .ok a ∧ f a = .ok b := by
  cases x with
  | error e => simp [bind, Except.bind]
  | ok a => simp [bind, Except.bind]

variable {f : α → Except ε β}

/-- A list is made of a list exactly if each of its items is made of one. -/
theorem mapM_eq_ok {xs : List α} {ys : List β} :
    xs.mapM f = .ok ys ↔ List.Forall₂ (fun x y => f x = .ok y) xs ys := by
  induction xs generalizing ys with
  | nil => cases ys <;> simp [pure, Except.pure]
  | cons x xs ih =>
    rw [List.mapM_cons]
    cases hx : f x with
    | error e =>
      constructor
      · intro h
        cases h
      · rintro (_ | ⟨hy, -⟩)
        cases hx.symm.trans hy
    | ok y =>
      cases hxs : xs.mapM f with
      | error e =>
        constructor
        · intro h
          cases h
        · rintro (_ | ⟨-, hys⟩)
          cases hxs.symm.trans (ih.mpr hys)
      | ok ys' =>
        constructor
        · intro h
          cases h
          exact .cons hx (ih.mp hxs)
        · rintro (_ | ⟨hy, hys⟩)
          cases hx.symm.trans hy
          cases hxs.symm.trans (ih.mpr hys)
          rfl

/-- Where no list is made, one of the items is at fault. -/
theorem exists_of_mapM_eq_error {xs : List α} {e : ε} (h : xs.mapM f = .error e) :
    ∃ x ∈ xs, f x = .error e := by
  induction xs with
  | nil => cases h
  | cons x xs ih =>
    rw [List.mapM_cons] at h
    cases hx : f x with
    | error e' =>
      rw [hx] at h
      cases h
      exact ⟨x, List.mem_cons_self, hx⟩
    | ok y =>
      rw [hx] at h
      cases hxs : xs.mapM f with
      | error e' =>
        rw [hxs] at h
        cases h
        obtain ⟨z, hz, hfz⟩ := ih hxs
        exact ⟨z, List.mem_cons_of_mem x hz, hfz⟩
      | ok ys =>
        rw [hxs] at h
        cases h

/-- Where a fold stops, one of the steps is at fault. -/
theorem exists_of_foldlM_eq_error {f : β → α → Except ε β} {xs : List α} {y : β} {e : ε}
    (h : xs.foldlM f y = .error e) : ∃ x ∈ xs, ∃ y, f y x = .error e := by
  induction xs generalizing y with
  | nil => cases h
  | cons x xs ih =>
    rw [List.foldlM_cons] at h
    cases hx : f y x with
    | error e' =>
      rw [hx] at h
      cases h
      exact ⟨x, List.mem_cons_self, y, hx⟩
    | ok z =>
      rw [hx] at h
      obtain ⟨x', hx', z', hz'⟩ := ih h
      exact ⟨x', List.mem_cons_of_mem x hx', z', hz'⟩

end GnLang
