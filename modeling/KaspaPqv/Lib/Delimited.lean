import Mathlib.Data.List.Basic
import Mathlib.Logic.Function.Basic

/-!
# Self-delimiting encodings

An encoding is self-delimiting if, from an encoding followed by anything at all, both
the value and what follows can be told. Such encodings may be strung together without
separators and are then still injective.

## What is proved

* `Delimited.ofWidth` — encodings of one fixed length.
* `Delimited.append`, `Delimited.prefixed`, `Delimited.flatMap`, `Delimited.marked` — one encoding after
  another, a string behind its length, and a list of known length.
* `Delimited.injective` — a self-delimiting encoding is injective.
-/

namespace KaspaPqv.Lib

variable {α β γ ι : Type}

/-- On values satisfying `D`, `enc` is self-delimiting. -/
def Delimited (D : α → Prop) (enc : α → List ι) : Prop :=
  ∀ ⦃a b⦄, D a → D b → ∀ ⦃r s⦄, enc a ++ r = enc b ++ s → a = b ∧ r = s

namespace Delimited

variable {D : α → Prop} {E : β → Prop} {enc : α → List ι} {enc' : β → List ι}

theorem injective (h : Delimited D enc) {a b : α} (ha : D a) (hb : D b) (he : enc a = enc b) : a = b :=
  (h ha hb (r := []) (s := []) (by rw [he])).1

/-- **Encodings of one length** are self-delimiting if they are injective. -/
theorem ofWidth (w : ℕ) (hw : ∀ a, D a → (enc a).length = w)
    (hinj : ∀ a b, D a → D b → enc a = enc b → a = b) : Delimited D enc := by
  intro a b ha hb r s h
  obtain ⟨he, hr⟩ := List.append_inj h ((hw a ha).trans (hw b hb).symm)
  exact ⟨hinj a b ha hb he, hr⟩

/-- **One encoding after another**, of two parts of a value that determine it. -/
theorem append {f : γ → α} {g : γ → β} {F : γ → Prop} (h : Delimited D enc) (h' : Delimited E enc')
    (hf : ∀ c, F c → D (f c)) (hg : ∀ c, F c → E (g c))
    (hinj : ∀ c d, F c → F d → f c = f d → g c = g d → c = d) :
    Delimited F fun c => enc (f c) ++ enc' (g c) := by
  intro c d hc hd r s he
  simp only [List.append_assoc] at he
  obtain ⟨hfst, hrest⟩ := h (hf c hc) (hf d hd) he
  obtain ⟨hsnd, hr⟩ := h' (hg c hc) (hg d hd) hrest
  exact ⟨hinj c d hc hd hfst hsnd, hr⟩

/-- **A string behind its length.** -/
theorem prefixed {enc : ℕ → List ι} {D : ℕ → Prop} (h : Delimited D enc) :
    Delimited (fun xs : List ι => D xs.length) fun xs => enc xs.length ++ xs := by
  intro xs ys hx hy r s he
  simp only [List.append_assoc] at he
  obtain ⟨hlength, hrest⟩ := h hx hy he
  exact List.append_inj hrest hlength

/-- **Lists of one length**, element by element. -/
theorem flatMap (h : Delimited D enc) (n : ℕ) :
    Delimited (fun xs : List α => xs.length = n ∧ ∀ x ∈ xs, D x) fun xs => xs.flatMap enc := by
  induction n with
  | zero =>
    rintro xs ys ⟨hx, -⟩ ⟨hy, -⟩ r s he
    obtain rfl := List.eq_nil_of_length_eq_zero hx
    obtain rfl := List.eq_nil_of_length_eq_zero hy
    exact ⟨rfl, he⟩
  | succ n ih =>
    rintro xs ys ⟨hx, hxD⟩ ⟨hy, hyD⟩ r s he
    obtain ⟨x, xs, rfl⟩ := List.exists_cons_of_length_eq_add_one hx
    obtain ⟨y, ys, rfl⟩ := List.exists_cons_of_length_eq_add_one hy
    simp only [List.flatMap_cons, List.append_assoc] at he
    simp only [List.length_cons, Nat.add_right_cancel_iff] at hx hy
    obtain ⟨rfl, hrest⟩ := h (hxD x (by simp)) (hyD y (by simp)) he
    obtain ⟨rfl, hr⟩ := ih ⟨hx, fun z hz => hxD z (by simp [hz])⟩ ⟨hy, fun z hz => hyD z (by simp [hz])⟩ hrest
    exact ⟨rfl, hr⟩

/-- **Lists of any length**, up to a mark that no element begins with. -/
theorem marked (h : Delimited D enc) {mark : ι} (hmark : ∀ a, D a → ∃ x xs, enc a = x :: xs ∧ x ≠ mark) :
    Delimited (fun xs : List α => ∀ x ∈ xs, D x) fun xs => xs.flatMap enc ++ [mark] := by
  intro xs
  induction xs with
  | nil =>
    rintro (- | ⟨y, ys⟩) - hy r s he
    · exact ⟨rfl, List.append_cancel_left he⟩
    · obtain ⟨z, zs, hz, hne⟩ := hmark y (hy y List.mem_cons_self)
      simp only [List.flatMap_nil, List.flatMap_cons, hz, List.nil_append, List.cons_append] at he
      exact absurd (List.cons.inj he).1.symm hne
  | cons x xs ih =>
    rintro (- | ⟨y, ys⟩) hx hy r s he
    · obtain ⟨z, zs, hz, hne⟩ := hmark x (hx x List.mem_cons_self)
      simp only [List.flatMap_nil, List.flatMap_cons, hz, List.nil_append, List.cons_append] at he
      exact absurd (List.cons.inj he).1 hne
    · simp only [List.flatMap_cons, List.append_assoc] at he
      obtain ⟨rfl, hrest⟩ := h (hx x List.mem_cons_self) (hy y List.mem_cons_self) he
      simp only [← List.append_assoc] at hrest
      obtain ⟨rfl, hr⟩ := ih (fun z hz => hx z (List.mem_cons_of_mem _ hz))
        (fun z hz => hy z (List.mem_cons_of_mem _ hz)) hrest
      exact ⟨rfl, hr⟩

end Delimited

end KaspaPqv.Lib
