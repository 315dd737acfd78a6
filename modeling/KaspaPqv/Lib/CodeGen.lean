import Mathlib.Data.List.Range
import Mathlib.Data.Option.Basic

/-!
# Programs that emit programs

A generator is a program that emits code for some machine: it runs in a state of
its own, may fail, and appends instructions to its output (`Gen`). What matters
about it is what the emitted code does on the machine, in step with what the
generator believes about it. `Triple` is a Hoare triple for that: its assertions
speak of the generator's state and the machine's state together, and it says that
the generator does not fail, that the code it emits runs without aborting, and that
the two end in states related as the postcondition says.

The machine is a `Backend`: how a list of instructions runs, and a property `inert`
of code, kept by concatenation, that all emitted code is to have.

## What is proved

* `Gen.forRange_apply`, `Gen.forRange_succ` — the code of a loop, and its last turn.
* `Gen.Succeeds.seq`, `Gen.Succeeds.forRange` — a generator whose parts do not fail.
* `Triple.bind`, `Triple.weaken` — the rules of sequencing and of consequence.
* `Triple.forRange` — a generator loop, from an invariant.
-/

namespace KaspaPqv.Lib

/-- A generator: from its state to an error, or to a result, its next state and the
instructions it emits. -/
def Gen (σ ι ε α : Type) : Type := σ → Except ε (α × σ × List ι)

namespace Gen

variable {σ ι ε α β : Type}

/-- The generator that emits nothing. -/
protected def pure (a : α) : Gen σ ι ε α := fun g => .ok (a, g, [])

/-- One generator after another; the second one's instructions follow the first one's. -/
protected def bind (m : Gen σ ι ε α) (k : α → Gen σ ι ε β) : Gen σ ι ε β := fun g =>
  match m g with
  | .error e => .error e
  | .ok (a, g₁, is₁) =>
    match k a g₁ with
    | .error e => .error e
    | .ok (b, g₂, is₂) => .ok (b, g₂, is₁ ++ is₂)

instance : Monad (Gen σ ι ε) where
  pure := Gen.pure
  bind := Gen.bind

theorem bind_ok {m : Gen σ ι ε α} {k : α → Gen σ ι ε β} {g g₁ g₂ : σ} {a : α} {b : β} {is₁ is₂ : List ι}
    (hm : m g = .ok (a, g₁, is₁)) (hk : k a g₁ = .ok (b, g₂, is₂)) :
    (m >>= k) g = .ok (b, g₂, is₁ ++ is₂) := by
  change Gen.bind m k g = _
  simp only [Gen.bind, hm, hk]

/-- A first part that emits nothing. -/
theorem bind_silent {m : Gen σ ι ε α} {k : α → Gen σ ι ε β} {g g₁ g₂ : σ} {a : α} {b : β} {is : List ι}
    (hm : m g = .ok (a, g₁, [])) (hk : k a g₁ = .ok (b, g₂, is)) : (m >>= k) g = .ok (b, g₂, is) :=
  bind_ok hm hk

/-- A second part that emits nothing. -/
theorem bind_then_silent {m : Gen σ ι ε α} {k : α → Gen σ ι ε β} {g g₁ g₂ : σ} {a : α} {b : β} {is : List ι}
    (hm : m g = .ok (a, g₁, is)) (hk : k a g₁ = .ok (b, g₂, [])) : (m >>= k) g = .ok (b, g₂, is) := by
  rw [bind_ok hm hk, List.append_nil]

/-- Sequencing is associative. -/
theorem bind_bind {γ : Type} (m : Gen σ ι ε α) (k : α → Gen σ ι ε β) (l : β → Gen σ ι ε γ) :
    (m >>= k) >>= l = m >>= fun a => k a >>= l := by
  funext g
  change Gen.bind (Gen.bind m k) l g = Gen.bind m (fun a => Gen.bind (k a) l) g
  unfold Gen.bind
  cases m g with
  | error e => rfl
  | ok r =>
    obtain ⟨a, g₁, is₁⟩ := r
    simp only
    cases k a g₁ with
    | error e => rfl
    | ok r =>
      obtain ⟨b, g₂, is₂⟩ := r
      simp only
      cases l b g₂ with
      | error e => rfl
      | ok r => simp only [List.append_assoc]

theorem pure_bind (a : α) (k : α → Gen σ ι ε β) : (pure a >>= k) = k a := by
  funext g
  change Gen.bind (Gen.pure a) k g = _
  simp only [Gen.bind, Gen.pure, List.nil_append]
  cases k a g with
  | error e => rfl
  | ok r => rfl

theorem bind_pure_unit (m : Gen σ ι ε Unit) : (m >>= fun _ => pure ()) = m := by
  funext g
  change Gen.bind m (fun _ => Gen.pure ()) g = _
  unfold Gen.bind
  cases m g with
  | error e => rfl
  | ok r => simp only [Gen.pure, List.append_nil]

/-- What a sequence emits is what its parts emit. -/
theorem bind_eq_ok {m : Gen σ ι ε α} {k : α → Gen σ ι ε β} {g g₂ : σ} {b : β} {is : List ι} :
    (m >>= k) g = .ok (b, g₂, is) ↔ ∃ a g₁ is₁ is₂, m g = .ok (a, g₁, is₁) ∧ k a g₁ = .ok (b, g₂, is₂) ∧
      is = is₁ ++ is₂ := by
  constructor
  · intro h
    change Gen.bind m k g = _ at h
    unfold Gen.bind at h
    split at h
    · cases h
    · rename_i a g₁ is₁ hm
      split at h
      · cases h
      · rename_i b' g₂' is₂ hk
        cases h
        exact ⟨a, g₁, is₁, is₂, hm, hk, rfl⟩
  · rintro ⟨a, g₁, is₁, is₂, hm, hk, rfl⟩
    exact bind_ok hm hk

/-- Emit instructions. -/
def emit (is : List ι) : Gen σ ι ε Unit := fun g => .ok ((), g, is)

/-- The generator's state. -/
def get : Gen σ ι ε σ := fun g => .ok (g, g, [])

/-- Change the generator's state. -/
def modify (f : σ → σ) : Gen σ ι ε Unit := fun g => .ok ((), f g, [])

/-- Fail. -/
def fail (e : ε) : Gen σ ι ε α := fun _ => .error e

/-- Fail unless the condition holds. -/
def ensure (c : Prop) [Decidable c] (e : ε) : Gen σ ι ε Unit := if c then pure () else fail e

/-- Run a generator only if the condition holds. -/
def onlyIf (c : Prop) [Decidable c] (m : Gen σ ι ε Unit) : Gen σ ι ε Unit := if c then m else pure ()

/-- `for i in 0..n`. -/
def forRange (n : ℕ) (body : ℕ → Gen σ ι ε Unit) : Gen σ ι ε Unit := (List.range n).forM body

/-- The code a generator emits from a given state. -/
def code (m : Gen σ ι ε α) (g : σ) : Except ε (List ι) := (m g).map fun r => r.2.2

theorem ensure_bind {c : Prop} [Decidable c] {e : ε} (k : Unit → Gen σ ι ε β) (hc : c) (g : σ) :
    (ensure c e >>= k) g = k () g := by
  rw [ensure, if_pos hc]
  change Gen.bind (pure ()) k g = _
  simp only [Gen.bind, pure, Gen.pure, List.nil_append]
  split <;> simp_all

theorem ensure_bind_error {c : Prop} [Decidable c] {e : ε} (k : Unit → Gen σ ι ε β) (hc : ¬c) (g : σ) :
    (ensure c e >>= k) g = .error e := by
  rw [ensure, if_neg hc]
  rfl

theorem code_eq_ok {m : Gen σ ι ε α} {g : σ} {is : List ι} : m.code g = .ok is ↔ ∃ a g', m g = .ok (a, g', is) := by
  unfold code
  cases m g with
  | error e => simp [Except.map]
  | ok r =>
    obtain ⟨a, g', is'⟩ := r
    simp [Except.map]

/-- A loop whose turns emit known code and leave the state alone. -/
theorem forRange_apply {f : ℕ → List ι} {body : ℕ → Gen σ ι ε Unit}
    (h : ∀ i g, body i g = .ok ((), g, f i)) (n : ℕ) (g : σ) :
    forRange n body g = .ok ((), g, (List.range n).flatMap f) := by
  unfold forRange
  induction List.range n with
  | nil => rfl
  | cons i is ih => exact bind_ok (h i g) ih

/-- The first turn of a loop. -/
theorem forRange_succ_first (n : ℕ) (body : ℕ → Gen σ ι ε Unit) :
    forRange (n + 1) body = body 0 >>= fun _ => forRange n fun i => body (i + 1) := by
  have hmap (is : List ℕ) : (is.map Nat.succ).forM body = is.forM fun i => body (i + 1) := by
    induction is with
    | nil => rfl
    | cons i is ih =>
      change (body (i + 1) >>= fun _ => (is.map Nat.succ).forM body) = body (i + 1) >>= fun _ => is.forM fun i => body (i + 1)
      rw [ih]
  rw [forRange, List.range_succ_eq_map]
  change (body 0 >>= fun _ => ((List.range n).map Nat.succ).forM body) = _
  rw [hmap]
  rfl

/-- The last turn of a loop. -/
theorem forRange_succ (n : ℕ) (body : ℕ → Gen σ ι ε Unit) :
    forRange (n + 1) body = forRange n body >>= fun _ => body n := by
  have happend (is : List ℕ) (i : ℕ) : (is ++ [i]).forM body = is.forM body >>= fun _ => body i := by
    induction is with
    | nil =>
      exact (bind_pure_unit _).trans (pure_bind () fun _ => body i).symm
    | cons j is ih =>
      change (body j >>= fun _ => (is ++ [i]).forM body) = (body j >>= fun _ => is.forM body) >>= fun _ => body i
      rw [ih, bind_bind]
  rw [forRange, List.range_succ, happend]
  rfl

/-- A generator that does not fail, whatever state it is in. -/
def Succeeds (m : Gen σ ι ε Unit) : Prop := ∀ g, ∃ g' is, m g = .ok ((), g', is)

namespace Succeeds

variable {m m' : Gen σ ι ε Unit}

theorem emit (is : List ι) : Succeeds (emit is : Gen σ ι ε Unit) := fun g => ⟨g, is, rfl⟩

theorem pure : Succeeds (pure () : Gen σ ι ε Unit) := fun g => ⟨g, [], rfl⟩

theorem seq (hm : Succeeds m) (hm' : Succeeds m') : Succeeds (m >>= fun _ => m') := by
  intro g
  obtain ⟨g₁, is₁, h₁⟩ := hm g
  obtain ⟨g₂, is₂, h₂⟩ := hm' g₁
  exact ⟨g₂, is₁ ++ is₂, bind_ok h₁ h₂⟩

theorem ensure {c : Prop} [Decidable c] {e : ε} (hc : c) : Succeeds (ensure c e : Gen σ ι ε Unit) := by
  rw [Gen.ensure, if_pos hc]
  exact pure

theorem onlyIf {c : Prop} [Decidable c] (hm : Succeeds m) : Succeeds (onlyIf c m) := by
  unfold Gen.onlyIf
  split_ifs
  · exact hm
  · exact pure

theorem forRange {n : ℕ} {body : ℕ → Gen σ ι ε Unit} (h : ∀ i < n, Succeeds (body i)) : Succeeds (forRange n body) := by
  induction n with
  | zero => exact pure
  | succ n ih =>
    rw [forRange_succ]
    exact (ih fun i hi => h i (hi.trans n.lt_succ_self)).seq (h n n.lt_succ_self)

/-- The code of a generator that does not fail. -/
theorem code (hm : Succeeds m) (g : σ) : ∃ is, m.code g = .ok is := by
  obtain ⟨g', is, h⟩ := hm g
  exact ⟨is, code_eq_ok.mpr ⟨(), g', h⟩⟩

end Succeeds

end Gen

/-- A machine that runs code. -/
structure Backend (ι μ : Type) where
  /-- Run a list of instructions; `none` is an abort. -/
  run : List ι → μ → Option μ
  run_nil : ∀ s, run [] s = some s
  run_append : ∀ is js s, run (is ++ js) s = (run is s).bind (run js)
  /-- A property that all emitted code is to have. -/
  inert : List ι → Prop
  inert_nil : inert []
  inert_append : ∀ {is js}, inert is → inert js → inert (is ++ js)

variable {σ ι ε μ α β : Type} (B : Backend ι μ)

/-- From states related by `P` the generator succeeds, its code runs to the end, and
the result and the two final states are related by `Q`. -/
def Triple (P : σ → μ → Prop) (m : Gen σ ι ε α) (Q : α → σ → μ → Prop) : Prop :=
  ∀ g s, P g s → ∃ a g' is s',
    m g = .ok (a, g', is) ∧ B.run is s = some s' ∧ Q a g' s' ∧ B.inert is

namespace Triple

variable {B} {P P' : σ → μ → Prop} {Q Q' : α → σ → μ → Prop} {R : β → σ → μ → Prop}

theorem pure {a : α} (h : ∀ g s, P g s → Q a g s) : Triple B P (pure a : Gen σ ι ε α) Q :=
  fun g s hP => ⟨a, g, [], s, rfl, B.run_nil s, h g s hP, B.inert_nil⟩

/-- **Sequencing.** -/
theorem bind {m : Gen σ ι ε α} {k : α → Gen σ ι ε β} (hm : Triple B P m Q)
    (hk : ∀ a, Triple B (Q a) (k a) R) : Triple B P (m >>= k) R := by
  intro g s hP
  obtain ⟨a, g₁, is₁, s₁, hm₁, hr₁, hQ, hi₁⟩ := hm g s hP
  obtain ⟨b, g₂, is₂, s₂, hm₂, hr₂, hR, hi₂⟩ := hk a g₁ s₁ hQ
  refine ⟨b, g₂, is₁ ++ is₂, s₂, Gen.bind_ok hm₁ hm₂, ?_, hR, B.inert_append hi₁ hi₂⟩
  rw [B.run_append, hr₁]
  exact hr₂

/-- **Consequence.** -/
theorem weaken {m : Gen σ ι ε α} (hm : Triple B P m Q) (hP : ∀ g s, P' g s → P g s)
    (hQ : ∀ a g s, Q a g s → Q' a g s) : Triple B P' m Q' := by
  intro g s h
  obtain ⟨a, g', is, s', hm', hr, h', hi⟩ := hm g s (hP g s h)
  exact ⟨a, g', is, s', hm', hr, hQ a g' s' h', hi⟩

/-- **A loop keeps its invariant**: if turn `i` takes `I i` to `I (i + 1)`, then `n`
turns take `I 0` to `I n`. -/
theorem forRange {I : ℕ → σ → μ → Prop} {n : ℕ} {body : ℕ → Gen σ ι ε Unit}
    (h : ∀ i < n, Triple B (I i) (body i) fun _ => I (i + 1)) :
    Triple B (I 0) (Gen.forRange n body) fun _ => I n := by
  suffices hgen : ∀ k i, i + k = n →
      Triple B (I i) ((List.range' i k).forM body) fun _ => I n by
    rw [Gen.forRange, List.range_eq_range']
    exact hgen n 0 (Nat.zero_add n)
  intro k
  induction k with
  | zero =>
    rintro i rfl
    exact pure fun _ _ hI => hI
  | succ k ih =>
    intro i hi
    rw [List.range'_succ]
    exact (h i (by omega)).bind fun _ => ih (i + 1) (by omega)

theorem onlyIf {c : Prop} [Decidable c] {m : Gen σ ι ε Unit} {Q : σ → μ → Prop}
    (hm : c → Triple B P m fun _ => Q) (hn : ¬c → ∀ g s, P g s → Q g s) :
    Triple B P (Gen.onlyIf c m) fun _ => Q := by
  unfold Gen.onlyIf
  split_ifs with hc
  · exact hm hc
  · exact pure (hn hc)

theorem ensure {c : Prop} [Decidable c] {e : ε} (hc : c) :
    Triple B P (Gen.ensure c e : Gen σ ι ε Unit) fun _ => P := by
  unfold Gen.ensure
  rw [if_pos hc]
  exact pure fun _ _ h => h

end Triple

end KaspaPqv.Lib
