import Mathlib.Logic.Basic

/-!
# Functions that fail with an error

What is used of `Except`: the check that fails early, and what it means for a
sequence of steps to succeed.
-/

namespace KaspaPqv.Lib

variable {ε α β : Type}

/-- Fail with `e` unless the condition holds. -/
def ensure (c : Prop) [Decidable c] (e : ε) : Except ε Unit := if c then .ok () else .error e

/-- The error of a missing value. -/
def orFail (a : Option α) (e : ε) : Except ε α :=
  match a with
  | some a => .ok a
  | none => .error e

theorem bind_eq_ok {m : Except ε α} {k : α → Except ε β} {b : β} :
    (m >>= k) = .ok b ↔ ∃ a, m = .ok a ∧ k a = .ok b := by
  cases m with
  | error e => simp [bind, Except.bind]
  | ok a => simp [bind, Except.bind]

theorem ensure_eq_ok {c : Prop} [Decidable c] {e : ε} {u : Unit} : ensure c e = .ok u ↔ c := by
  by_cases h : c <;> simp [ensure, h]

/-- A check that is passed first. -/
theorem ensure_bind_eq_ok {c : Prop} [Decidable c] {e : ε} {k : Unit → Except ε β} {b : β} :
    (ensure c e >>= k) = .ok b ↔ c ∧ k () = .ok b := by
  rw [bind_eq_ok]
  constructor
  · rintro ⟨_, hc, hk⟩
    exact ⟨ensure_eq_ok.mp hc, hk⟩
  · rintro ⟨hc, hk⟩
    exact ⟨(), ensure_eq_ok.mpr hc, hk⟩

theorem orFail_eq_ok {a : Option α} {e : ε} {b : α} : orFail a e = .ok b ↔ a = some b := by
  cases a <;> simp [orFail]

theorem map_eq_ok {m : Except ε α} {f : α → β} {b : β} : m.map f = .ok b ↔ ∃ a, m = .ok a ∧ f a = b := by
  cases m <;> simp [Except.map]

theorem mapError_eq_ok {ε' : Type} {m : Except ε α} {f : ε → ε'} {a : α} : m.mapError f = .ok a ↔ m = .ok a := by
  cases m with
  | error e =>
    change (.error (f e) : Except ε' α) = .ok a ↔ (.error e : Except ε α) = .ok a
    simp
  | ok b =>
    change (.ok b : Except ε' α) = .ok a ↔ (.ok b : Except ε α) = .ok a
    simp

theorem toOption_eq_none {m : Except ε α} (h : ∀ a, m ≠ .ok a) : m.toOption = none := by
  cases m with
  | error e => rfl
  | ok a => exact absurd rfl (h a)

end KaspaPqv.Lib
