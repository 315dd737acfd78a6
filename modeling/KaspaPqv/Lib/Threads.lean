import Mathlib.Data.List.Perm.Basic
import Mathlib.Logic.Function.Basic

/-!
# Threads over a shared state

Threads that each have a state of their own and share one. A turn of a thread acts on its own
state and the shared one, at once; a schedule says in which order the threads have their
turns, and what each turn is asked to do.

## What is proved

* `run_inv`, `run_forall` — what every turn keeps holds after every schedule.
* `run_alone` — a thread that nobody comes between runs on its own.
* `run_measure` — a thread whose turns lower a measure, which no other thread raises, comes to
  its end.
* `flatMap_update` — what the threads hold together after one of them adds something.
-/

namespace KaspaPqv.Lib

/-- The shared state, and the state of each thread. -/
structure Threads (ι σ τ : Type) where
  shared : σ
  thread : ι → τ

namespace Threads

variable {ι σ τ β : Type} [DecidableEq ι] (act : β → τ → σ → τ × σ)

/-- One turn of a thread. -/
def turn (S : Threads ι σ τ) (x : ι × β) : Threads ι σ τ where
  shared := (act x.2 (S.thread x.1) S.shared).2
  thread := Function.update S.thread x.1 (act x.2 (S.thread x.1) S.shared).1

/-- The turns of a schedule, in order. -/
def run (S : Threads ι σ τ) (schedule : List (ι × β)) : Threads ι σ τ := schedule.foldl (turn act) S

variable {act} {S : Threads ι σ τ}

theorem shared_turn (t : ι) (b : β) : (S.turn act (t, b)).shared = (act b (S.thread t) S.shared).2 := rfl

theorem thread_turn_self (t : ι) (b : β) : (S.turn act (t, b)).thread t = (act b (S.thread t) S.shared).1 :=
  Function.update_self t _ _

theorem thread_turn_of_ne {t : ι} {x : ι × β} (h : x.1 ≠ t) : (S.turn act x).thread t = S.thread t :=
  Function.update_of_ne h.symm _ _

/-- An invariant of the whole, under the turns of a schedule. -/
theorem run_inv {I : Threads ι σ τ → Prop} {schedule : List (ι × β)} (hturn : ∀ S, ∀ x ∈ schedule, I S → I (S.turn act x))
    (h : I S) : I (S.run act schedule) := by
  induction schedule generalizing S with
  | nil => exact h
  | cons x schedule ih =>
    exact ih (fun S y hy => hturn S y (List.mem_cons_of_mem x hy)) (hturn S x List.mem_cons_self h)

/-- An invariant of the shared state, and one of each thread's own. -/
theorem run_forall {I : σ → Prop} {J : τ → Prop} (hact : ∀ b a s, I s → J a → J (act b a s).1 ∧ I (act b a s).2)
    (hI : I S.shared) (hJ : ∀ t, J (S.thread t)) (schedule : List (ι × β)) :
    I (S.run act schedule).shared ∧ ∀ t, J ((S.run act schedule).thread t) := by
  refine run_inv (I := fun S => I S.shared ∧ ∀ t, J (S.thread t)) (fun S x _ h => ?_) ⟨hI, hJ⟩
  obtain ⟨u, b⟩ := x
  obtain ⟨hown, hshared⟩ := hact b (S.thread u) S.shared h.1 (h.2 u)
  refine ⟨hshared, fun t => ?_⟩
  by_cases ht : u = t
  · subst ht
    rwa [thread_turn_self]
  · rw [thread_turn_of_ne ht]
    exact h.2 t

/-- A thread that nobody comes between. -/
theorem run_alone (t : ι) (bs : List β) :
    ((S.run act (bs.map fun b => (t, b))).thread t, (S.run act (bs.map fun b => (t, b))).shared) =
      bs.foldl (fun x b => act b x.1 x.2) (S.thread t, S.shared) := by
  induction bs generalizing S with
  | nil => rfl
  | cons b bs ih =>
    refine (ih (S := S.turn act (t, b))).trans ?_
    rw [thread_turn_self, shared_turn, List.foldl_cons]

/-- **A thread comes to its end**: each of its turns lowers the measure, and no turn of another
thread raises it. -/
theorem run_measure {m : τ → σ → ℕ} {A : β → Prop} {t : ι}
    (hown : ∀ b a s, A b → m (act b a s).1 (act b a s).2 ≤ m a s - 1) (hother : ∀ b a a' s, m a (act b a' s).2 ≤ m a s)
    {schedule : List (ι × β)} (hA : ∀ x ∈ schedule, x.1 = t → A x.2) :
    m ((S.run act schedule).thread t) (S.run act schedule).shared ≤
      m (S.thread t) S.shared - schedule.countP (fun x => x.1 = t) := by
  induction schedule generalizing S with
  | nil => exact Nat.le_refl _
  | cons x schedule ih =>
    obtain ⟨u, b⟩ := x
    have hrest := ih (S := S.turn act (u, b)) fun x hx => hA x (List.mem_cons_of_mem _ hx)
    rw [shared_turn] at hrest
    rw [List.countP_cons]
    change m ((run act (S.turn act (u, b)) schedule).thread t) (run act (S.turn act (u, b)) schedule).shared ≤ _
    by_cases ht : u = t
    · subst ht
      have hturn := hown b (S.thread u) S.shared (hA (u, b) List.mem_cons_self rfl)
      rw [thread_turn_self] at hrest
      simp only [decide_true, if_true]
      omega
    · have hturn := hother b (S.thread t) (S.thread u) S.shared
      rw [thread_turn_of_ne ht] at hrest
      simp only [ht, decide_false, Bool.false_eq_true, if_false, Nat.add_zero]
      omega

/-- What the threads hold together, when one of them has something more. -/
theorem flatMap_update {α : Type} {f : ι → List α} {t : ι} (x : List α) {l : List ι} (hl : l.Nodup) (ht : t ∈ l) :
    (l.flatMap (Function.update f t (f t ++ x))).Perm (l.flatMap f ++ x) := by
  induction l with
  | nil => exact absurd ht List.not_mem_nil
  | cons u l ih =>
    obtain ⟨hu, hl⟩ := List.nodup_cons.mp hl
    rw [List.flatMap_cons, List.flatMap_cons]
    by_cases hut : u = t
    · subst hut
      have hsame : l.flatMap (Function.update f u (f u ++ x)) = l.flatMap f :=
        List.flatMap_congr fun v hv => Function.update_of_ne (show v ≠ u from fun h => hu (h ▸ hv)) _ _
      rw [Function.update_self, hsame, List.append_assoc, List.append_assoc]
      exact List.perm_append_comm.append_left (f u)
    · have hmem : t ∈ l := (List.mem_cons.mp ht).resolve_left (Ne.symm hut)
      rw [Function.update_of_ne hut, List.append_assoc]
      exact (ih hl hmem).append_left (f u)

end Threads

end KaspaPqv.Lib
