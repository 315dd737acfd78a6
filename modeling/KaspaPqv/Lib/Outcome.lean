import Mathlib.Data.List.Basic

/-!
# Functions that may panic

A call ends in one of three ways: it returns a value, it returns an error, or it panics.
The first two are results that the caller may look at; the third ends the caller as well.

## What is proved

* `bind_eq_ok`, `bind_eq_panic` — what it takes for two steps to return, and to panic.
* `foldlM_eq_ok`, `foldlM_eq_error` — a loop returns if every element is accepted; it returns
  an error if the first element that is not accepted is refused without a panic.
* `foldlM_eq_ofExcept` — a loop whose steps do not panic is one over results.
-/

namespace KaspaPqv.Lib

/-- How a call ends. -/
inductive Outcome (ε α : Type) where
  | ok (a : α)
  | error (e : ε)
  | panic
  deriving DecidableEq

namespace Outcome

variable {ε ε' α β : Type}

/-- Go on with the value; an error is returned at once, and a panic goes through. -/
def bind : Outcome ε α → (α → Outcome ε β) → Outcome ε β
  | ok a, k => k a
  | error e, _ => error e
  | panic, _ => panic

instance : Monad (Outcome ε) where
  pure := ok
  bind := bind

/-- A missing value is an error. -/
def ofOption (a : Option α) (e : ε) : Outcome ε α :=
  match a with
  | some a => ok a
  | none => error e

/-- A missing value is a panic. -/
def orPanic (a : Option α) : Outcome ε α :=
  match a with
  | some a => ok a
  | none => panic

/-- A result of a call that does not panic. -/
def ofExcept : Except ε α → Outcome ε α
  | .ok a => ok a
  | .error e => error e

def mapError (f : ε → ε') : Outcome ε α → Outcome ε' α
  | ok a => ok a
  | error e => error (f e)
  | panic => panic

section

variable {x : Outcome ε α} {k : α → Outcome ε β} {a : α} {b : β} {e : ε}

@[simp] theorem bind_ok : (ok a >>= k : Outcome ε β) = k a := rfl

@[simp] theorem bind_error : (error e >>= k : Outcome ε β) = error e := rfl

@[simp] theorem bind_panic : (panic >>= k : Outcome ε β) = panic := rfl

theorem bind_eq_ok : (x >>= k) = ok b ↔ ∃ a, x = ok a ∧ k a = ok b := by
  cases x with
  | ok a => simp
  | error e => simp
  | panic => simp

theorem bind_eq_panic : (x >>= k) = panic ↔ x = panic ∨ ∃ a, x = ok a ∧ k a = panic := by
  cases x with
  | ok a => simp
  | error e => simp
  | panic => simp

theorem ofOption_eq_ok {o : Option α} : ofOption o e = ok a ↔ o = some a := by
  cases o <;> simp [ofOption]

theorem ofOption_bind_eq_ok {o : Option α} : (ofOption o e >>= k) = ok b ↔ ∃ a, o = some a ∧ k a = ok b := by
  cases o <;> simp [ofOption]

theorem ofOption_bind_eq_panic {o : Option α} : (ofOption o e >>= k) = panic ↔ ∃ a, o = some a ∧ k a = panic := by
  cases o <;> simp [ofOption]

theorem orPanic_bind_eq_ok {o : Option α} : (orPanic o >>= k) = ok b ↔ ∃ a, o = some a ∧ k a = ok b := by
  cases o <;> simp [orPanic]

theorem ofExcept_eq_ok {r : Except ε α} : ofExcept r = ok a ↔ r = .ok a := by
  cases r <;> simp [ofExcept]

theorem ofExcept_bind_eq_ok {r : Except ε α} : (ofExcept r >>= k) = ok b ↔ ∃ a, r = .ok a ∧ k a = ok b := by
  cases r <;> simp [ofExcept]

theorem mapError_eq_ok {f : ε → ε'} : mapError f x = ok a ↔ x = ok a := by
  cases x <;> simp [mapError]

theorem mapError_eq_panic {f : ε → ε'} : mapError f x = panic ↔ x = panic := by
  cases x <;> simp [mapError]

end

/-! ### Loops -/

section

variable {step : β → α → Outcome ε β} {Accepts Panics : α → Prop}

/-- **A loop returns** if and only if every element is accepted. -/
theorem foldlM_eq_ok (hok : ∀ b a, (∃ b', step b a = ok b') ↔ Accepts a) (l : List α) (b : β) :
    (∃ b', l.foldlM step b = ok b') ↔ ∀ a ∈ l, Accepts a := by
  induction l generalizing b with
  | nil => simp [pure]
  | cons a l ih =>
    rw [List.foldlM_cons, List.forall_mem_cons, ← hok b]
    constructor
    · rintro ⟨b', h⟩
      obtain ⟨b₁, ha, hl⟩ := bind_eq_ok.mp h
      exact ⟨⟨b₁, ha⟩, (ih b₁).mp ⟨b', hl⟩⟩
    · rintro ⟨⟨b₁, ha⟩, hl⟩
      rw [ha, bind_ok]
      exact (ih b₁).mpr hl

/-- **A loop returns an error** if and only if the first element that is not accepted does not panic. -/
theorem foldlM_eq_error (hok : ∀ b a, (∃ b', step b a = ok b') ↔ Accepts a)
    (hpanic : ∀ b a, step b a = panic ↔ Panics a) (l : List α) (b : β) :
    (∃ e, l.foldlM step b = error e) ↔ ∃ before a after, l = before ++ a :: after ∧
      (∀ m ∈ before, Accepts m) ∧ ¬Accepts a ∧ ¬Panics a := by
  induction l generalizing b with
  | nil => simp [pure]
  | cons a l ih =>
    rw [List.foldlM_cons]
    rcases ha : step b a with b₁ | e | _
    · -- accepted: the loop goes on
      have haccepts : Accepts a := (hok b a).mp ⟨b₁, ha⟩
      rw [bind_ok, ih b₁]
      constructor
      · rintro ⟨before, m, after, rfl, hbefore, hm⟩
        exact ⟨a :: before, m, after, rfl, List.forall_mem_cons.mpr ⟨haccepts, hbefore⟩, hm⟩
      · rintro ⟨before, m, after, hl, hbefore, hm⟩
        cases before with
        | nil =>
          cases hl
          exact absurd haccepts hm.1
        | cons a' before =>
          cases hl
          exact ⟨before, m, after, rfl, (List.forall_mem_cons.mp hbefore).2, hm⟩
    · have hrefused : ¬Accepts a := fun h => by
        obtain ⟨b', hb'⟩ := (hok b a).mpr h
        cases ha.symm.trans hb'
      have hcalm : ¬Panics a := fun h => nomatch ha.symm.trans ((hpanic b a).mpr h)
      exact ⟨fun _ => ⟨[], a, l, rfl, by simp, hrefused, hcalm⟩, fun _ => ⟨e, rfl⟩⟩
    · have hrefused : ¬Accepts a := fun h => by
        obtain ⟨b', hb'⟩ := (hok b a).mpr h
        cases ha.symm.trans hb'
      constructor
      · rintro ⟨e, he⟩
        cases he
      · rintro ⟨before, m, after, hl, hbefore, hm⟩
        cases before with
        | nil =>
          cases hl
          exact absurd ((hpanic b a).mp ha) hm.2
        | cons a' before =>
          cases hl
          exact absurd (hbefore a (by simp)) hrefused

/-- **A loop whose steps are results**, panics apart, is the loop over these results, a panic apart. -/
theorem foldlM_eq_ofExcept {result : β → α → Except ε β}
    (h : ∀ b a, step b a = ofExcept (result b a) ∨ step b a = panic) (l : List α) (b : β) :
    l.foldlM step b = ofExcept (l.foldlM result b) ∨ l.foldlM step b = panic := by
  induction l generalizing b with
  | nil => exact .inl rfl
  | cons a l ih =>
    rw [List.foldlM_cons, List.foldlM_cons]
    rcases h b a with ha | ha
    · rw [ha]
      rcases result b a with e | b₁
      · exact .inl rfl
      · exact ih b₁
    · rw [ha]
      exact .inr rfl

/-- A loop that panics does so at one of its elements. -/
theorem exists_of_foldlM_panic (hpanic : ∀ b a, step b a = panic → Panics a) {l : List α} {b : β}
    (h : l.foldlM step b = panic) : ∃ a ∈ l, Panics a := by
  induction l generalizing b with
  | nil => cases h
  | cons a l ih =>
    rw [List.foldlM_cons] at h
    rcases bind_eq_panic.mp h with ha | ⟨b₁, -, hl⟩
    · exact ⟨a, List.mem_cons_self, hpanic b a ha⟩
    · obtain ⟨m, hm, hpanics⟩ := ih hl
      exact ⟨m, List.mem_cons_of_mem _ hm, hpanics⟩

end

end Outcome

end KaspaPqv.Lib
