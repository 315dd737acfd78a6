import Mathlib.Data.List.Infix

/-!
# Append-only files and crashes

A file that is only appended to: what has been synced, and what was written since. After
a crash the file holds all that was synced and some prefix of the rest, which is still
not synced. A property of the contents is durable if it holds of whatever a crash may leave.

## What is proved

* `Durable.crash`, `Durable.sync`, `Durable.append` — how a durable property is kept, and
  `Durable.now` — it holds of the contents as they are.
-/

namespace KaspaPqv.Lib

variable {α : Type}

/-- A file that is only appended to. -/
structure AppendFile (α : Type) where
  /-- What no crash can take away. -/
  synced : List α
  /-- What was written since. -/
  unsynced : List α

namespace AppendFile

/-- The empty file. -/
def empty : AppendFile α := ⟨[], []⟩

/-- What the file holds. -/
def content (f : AppendFile α) : List α := f.synced ++ f.unsynced

/-- Write at the end. -/
def append (f : AppendFile α) (x : List α) : AppendFile α := { f with unsynced := f.unsynced ++ x }

/-- Make everything written durable. -/
def sync (f : AppendFile α) : AppendFile α := ⟨f.content, []⟩

/-- A crash after which the first `n` elements of what was not synced are still there. -/
def crash (f : AppendFile α) (n : ℕ) : AppendFile α := { f with unsynced := f.unsynced.take n }

@[simp] theorem content_append (f : AppendFile α) (x : List α) : (f.append x).content = f.content ++ x := by
  simp [content, append]

@[simp] theorem synced_append (f : AppendFile α) (x : List α) : (f.append x).synced = f.synced := rfl

@[simp] theorem content_sync (f : AppendFile α) : f.sync.content = f.content := by simp [content, sync]

@[simp] theorem synced_sync (f : AppendFile α) : f.sync.synced = f.content := rfl

@[simp] theorem synced_crash (f : AppendFile α) (n : ℕ) : (f.crash n).synced = f.synced := rfl

theorem content_crash_isPrefix (f : AppendFile α) (n : ℕ) : (f.crash n).content <+: f.content :=
  List.prefix_append_right_inj _ |>.mpr (List.take_prefix n f.unsynced)

theorem synced_isPrefix (f : AppendFile α) : f.synced <+: f.content := List.prefix_append _ _

/-- The property holds of whatever a crash may leave. -/
def Durable (P : List α → Prop) (f : AppendFile α) : Prop :=
  ∀ p, f.synced <+: p → p <+: f.content → P p

variable {P Q : List α → Prop} {f : AppendFile α}

theorem Durable.now (h : Durable P f) : P f.content := h _ f.synced_isPrefix (List.prefix_refl _)

theorem Durable.crash (h : Durable P f) (n : ℕ) : Durable P (f.crash n) := fun p hs hp =>
  h p hs (hp.trans (f.content_crash_isPrefix n))

theorem Durable.sync (h : Durable P f) : Durable P f.sync := by
  intro p hs hp
  rw [content_sync] at hp
  obtain rfl := hs.eq_of_length_le hp.length_le
  exact h.now

/-- **Writing** keeps a durable property if every piece of what is written keeps it. -/
theorem Durable.append (h : Durable P f) {x : List α} (hx : ∀ y, y <+: x → P (f.content ++ y)) :
    Durable P (f.append x) := by
  intro p hs hp
  rw [content_append] at hp
  rcases List.prefix_or_prefix_of_prefix hp (List.prefix_append f.content x) with hp' | ⟨y, rfl⟩
  · exact h p hs hp'
  · exact hx y ((List.prefix_append_right_inj f.content).mp hp)

end AppendFile

end KaspaPqv.Lib
