import KaspaPqv.Lib.Bytes
import Mathlib.Data.List.Basic

/-!
# Stack bookkeeping at generation time

An emitter never writes a literal depth: it names its stack slots, and the frame resolves
a name to the depth of the topmost slot that bears it, or fails. What has no name of its
own is a transient.

The frame is a list of names, top first. The source keeps it bottom first, and so do the
error messages. The names themselves are left open: all that is needed of them is that they
can be told apart and printed, and that one of them marks a transient.

## What is proved

* `find_eq_some`, `exists_find` — a named slot is found at the depth that the frame gives, and its
  value lies there.
* `Frame.of_pop`, `Frame.of_replace`, … — how large a frame is behind a change that succeeds.
-/

namespace KaspaPqv.SlhScript

open KaspaPqv.Lib

/-- What a slot may be called. -/
class SlotName (ν : Type) where
  /-- The name of values that exist only within one emitted expression. -/
  transient : ν
  /-- How messages print a name. -/
  text : ν → String

/-- The main data stack as the emitter believes it to be, top first. -/
abbrev Frame (ν : Type) := List ν

variable {ν : Type} [SlotName ν]

/-- How messages print a list of names, bottom first. -/
def Frame.shown (f : Frame ν) : String :=
  "[" ++ ", ".intercalate (f.reverse.map fun s => "\"" ++ SlotName.text s ++ "\"") ++ "]"

namespace Frame

/-- The depth of the topmost slot of a name, from the top. -/
def depth [DecidableEq ν] (f : Frame ν) (name : ν) : Except String ℕ :=
  match f.idxOf? name with
  | some k => .ok k
  | none =>
    let text := SlotName.text name
    let slots := f.shown
    .error s!"no stack slot named `{text}`; frame is {slots}"

def push (name : ν) (f : Frame ν) : Frame ν := name :: f

def pushTransient (f : Frame ν) : Frame ν := f.push SlotName.transient

def pop : Frame ν → Except String (Frame ν)
  | [] => .error "stack underflow in the emitter"
  | _ :: f => .ok f

/-- Pop `n` values and push one named result. -/
def replace (name : ν) : ℕ → Frame ν → Except String (Frame ν)
  | 0, f => .ok (f.push name)
  | n + 1, f => do
    let f ← f.pop
    replace name n f

def renameTop (name : ν) (f : Frame ν) : Except String (Frame ν) := do
  let f ← f.pop
  .ok (f.push name)

def swap (f : Frame ν) : Except String (Frame ν) :=
  match f with
  | a :: b :: f => .ok (b :: a :: f)
  | _ =>
    let slots := f.shown
    .error s!"swap needs two stack items, frame is {slots}"

/-- Move the item at a depth to the top. -/
def roll (depth : ℕ) (f : Frame ν) : Except String (Frame ν) :=
  match f[depth]? with
  | some item => .ok (item :: f.eraseIdx depth)
  | none =>
    let slots := f.shown
    .error s!"roll depth {depth} exceeds frame {slots}"

/-- Discard the second item. -/
def nip (f : Frame ν) : Except String (Frame ν) :=
  match f with
  | a :: _ :: f => .ok (a :: f)
  | _ =>
    let slots := f.shown
    .error s!"nip needs two stack items, frame is {slots}"

/-- Demand the exact contents of the top of the frame, given top first. -/
def expectTop [DecidableEq ν] (expected f : Frame ν) : Except String (Frame ν) :=
  let slots := f.shown
  let wanted := expected.shown
  let actual := Frame.shown (f.take expected.length)
  if f.length < expected.length then .error s!"frame {slots} is shorter than expected {wanted}"
  else if f.take expected.length = expected then .ok f
  else .error s!"frame top is {actual}, expected {wanted} (full frame {slots})"

end Frame

/-! ### Slots and their values -/

variable {vs : List (ν × Bytes)}

/-- The topmost slot of a name, in a stack whose slots have names and values: how deep it
lies, and its value. -/
def find [DecidableEq ν] (name : ν) : List (ν × Bytes) → Option (ℕ × Bytes)
  | [] => none
  | (s, x) :: vs =>
    if s = name then some (0, x)
    else
      match find name vs with
      | some (k, x) => some (k + 1, x)
      | none => none

/-- **What is found** lies at the depth that the frame gives. -/
theorem find_eq_some [DecidableEq ν] {name : ν} {k : ℕ} {x : Bytes} (h : find name vs = some (k, x)) :
    Frame.depth (vs.map Prod.fst) name = .ok k ∧ vs[k]? = some (name, x) := by
  suffices hidx : (vs.map Prod.fst).idxOf? name = some k ∧ vs[k]? = some (name, x) by
    rw [Frame.depth, hidx.1]
    exact ⟨rfl, hidx.2⟩
  induction vs generalizing k with
  | nil => cases h
  | cons v vs ih =>
    obtain ⟨s, y⟩ := v
    rw [find] at h
    rw [List.map_cons, List.idxOf?_cons]
    split_ifs at h with hs
    · cases h
      subst hs
      simp
    · split at h
      · rename_i k' x' hfind
        cases h
        obtain ⟨hidx, hget⟩ := ih hfind
        simp [hs, hidx, hget]
      · cases h

/-- **What the frame has a depth of** is found. -/
theorem exists_find [DecidableEq ν] {name : ν} {k : ℕ} (h : Frame.depth (vs.map Prod.fst) name = .ok k) :
    ∃ x, find name vs = some (k, x) := by
  have hidx : (vs.map Prod.fst).idxOf? name = some k := by
    unfold Frame.depth at h
    split at h
    · rename_i k' hk
      cases h
      exact hk
    · cases h
  clear h
  induction vs generalizing k with
  | nil => cases hidx
  | cons v vs ih =>
    obtain ⟨s, y⟩ := v
    rw [List.map_cons, List.idxOf?_cons] at hidx
    rw [find]
    by_cases hs : s = name
    · simp only [hs, beq_self_eq_true, if_true, Option.some.injEq] at hidx
      subst hidx
      exact ⟨y, if_pos hs⟩
    · simp only [beq_iff_eq, hs, if_false, Option.map_eq_some_iff] at hidx
      obtain ⟨k', hk', rfl⟩ := hidx
      obtain ⟨x, hx⟩ := ih hk'
      exact ⟨x, by rw [if_neg hs, hx]⟩

/-- At the depth of a name there is a slot of that name. -/
theorem Frame.getElem?_of_depth [DecidableEq ν] {f : Frame ν} {name : ν} {k : ℕ} (h : f.depth name = .ok k) :
    f[k]? = some name := by
  have hmap : (f.map fun s => (s, ([] : Bytes))).map Prod.fst = f := by simp [Function.comp_def]
  obtain ⟨x, hfind⟩ := exists_find (by rwa [hmap] : Frame.depth ((f.map fun s => (s, ([] : Bytes))).map Prod.fst) name = .ok k)
  have hget := (find_eq_some hfind).2
  rw [List.getElem?_map, Option.map_eq_some_iff] at hget
  obtain ⟨s, hs, heq⟩ := hget
  cases heq
  exact hs

omit [SlotName ν] in
theorem Frame.of_pop {f f' : Frame ν} (h : f.pop = .ok f') : f.length = f'.length + 1 := by
  cases f with
  | nil => cases h
  | cons s f =>
    cases h
    rfl

omit [SlotName ν] in
theorem Frame.of_replace {name : ν} {n : ℕ} {f f' : Frame ν} (h : f.replace name n = .ok f') :
    n ≤ f.length ∧ f'.length + n = f.length + 1 := by
  induction n generalizing f with
  | zero =>
    cases h
    exact ⟨Nat.zero_le _, rfl⟩
  | succ n ih =>
    cases f with
    | nil => cases h
    | cons s f =>
      obtain ⟨hle, hlen⟩ := ih (show Frame.replace name n f = .ok f' from h)
      rw [List.length_cons]
      omega

theorem Frame.of_swap {f f' : Frame ν} (h : f.swap = .ok f') : 2 ≤ f.length ∧ f'.length = f.length := by
  unfold Frame.swap at h
  split at h
  · cases h
    simp
  · cases h

theorem Frame.of_roll {k : ℕ} {f f' : Frame ν} (h : f.roll k = .ok f') :
    ∃ s, f[k]? = some s ∧ f' = s :: f.eraseIdx k := by
  unfold Frame.roll at h
  split at h
  · rename_i s hs
    cases h
    exact ⟨s, hs, rfl⟩
  · cases h

theorem Frame.roll_eq {k : ℕ} {s : ν} {f : Frame ν} (h : f[k]? = some s) :
    f.roll k = .ok (s :: f.eraseIdx k) := by
  rw [Frame.roll, h]

end KaspaPqv.SlhScript
