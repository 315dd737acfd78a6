import KaspaPqv.Lib.Bytes

/-!
# Buffers

A buffer of fixed length is written in place; a write that does not fit fails. A buffer
that is filled from the front is what was written so far and zeros behind it.

## What is proved

* `copyInto_zeros`, `copyInto_gap`, `copyAll_zeros` — writing behind what was written.
* `getElem?_copyInto` — what is in the buffer after a write, position by position.
-/

namespace KaspaPqv.Lib

variable {α : Type}

/-- Write into a buffer, which has to have the place. -/
def copyInto (buf : List α) (start : ℕ) (bs : List α) : Option (List α) :=
  if start + bs.length ≤ buf.length then some (buf.take start ++ bs ++ buf.drop (start + bs.length)) else none

/-- Write one string after the other, from a position on; the buffer, and the position after it. -/
def copyAll (buf : Bytes) (start : ℕ) (parts : List Bytes) : Option (Bytes × ℕ) :=
  parts.foldlM (fun s part => (copyInto s.1 s.2 part).map fun buf => (buf, s.2 + part.length)) (buf, start)

/-- Write behind what was written. -/
theorem copyInto_zeros (written bs : Bytes) {room : ℕ} (h : bs.length ≤ room) :
    copyInto (written ++ zeros room) written.length bs = some (written ++ bs ++ zeros (room - bs.length)) := by
  have hfit : written.length + bs.length ≤ (written ++ zeros room).length := by simpa using h
  have hrest : (zeros room).drop bs.length = zeros (room - bs.length) := List.drop_replicate
  rw [copyInto, if_pos hfit, List.take_left, ← List.drop_drop, List.drop_left, hrest]

/-- Write behind what was written, leaving zeros in between. -/
theorem copyInto_gap (written bs : Bytes) {gap room : ℕ} (h : gap + bs.length ≤ room) :
    copyInto (written ++ zeros room) (written.length + gap) bs =
      some (written ++ zeros gap ++ bs ++ zeros (room - (gap + bs.length))) := by
  have hsplit : zeros room = zeros gap ++ zeros (room - gap) := by
    rw [zeros, zeros, zeros, List.replicate_append_replicate, Nat.add_sub_cancel' (by omega)]
  have hlen : written.length + gap = (written ++ zeros gap).length := by rw [List.length_append, length_zeros]
  rw [hsplit, ← List.append_assoc, hlen, copyInto_zeros _ bs (by omega), Nat.sub_add_eq]

/-- Write all of a list behind what was written. -/
theorem copyAll_zeros (written : Bytes) (parts : List Bytes) {room : ℕ} (h : parts.flatten.length ≤ room) :
    copyAll (written ++ zeros room) written.length parts =
      some (written ++ parts.flatten ++ zeros (room - parts.flatten.length), (written ++ parts.flatten).length) := by
  induction parts generalizing written room with
  | nil => simp [copyAll]
  | cons part parts ih =>
    rw [List.flatten_cons, List.length_append] at h
    have hrest := ih (written ++ part) (show parts.flatten.length ≤ room - part.length by omega)
    rw [copyAll] at hrest
    rw [copyAll, List.foldlM_cons, copyInto_zeros written part (by omega), List.flatten_cons, List.length_append,
      Nat.sub_add_eq, ← List.append_assoc, ← hrest, List.length_append]
    rfl

/-- After a write. -/
theorem getElem?_copyInto {buf bs out : List α} {start : ℕ} (h : copyInto buf start bs = some out) (i : ℕ) :
    out[i]? = if start ≤ i ∧ i < start + bs.length then bs[i - start]? else buf[i]? := by
  unfold copyInto at h
  split_ifs at h with hfit
  cases h
  have hlen : (buf.take start).length = start := by
    rw [List.length_take]
    omega
  rcases Nat.lt_or_ge i start with hlt | hge
  · rw [if_neg (by omega), List.append_assoc, List.getElem?_append_left (by omega), List.getElem?_take_of_lt hlt]
  · rw [List.append_assoc, List.getElem?_append_right (by omega), hlen]
    rcases Nat.lt_or_ge i (start + bs.length) with hin | hout
    · rw [if_pos ⟨hge, hin⟩, List.getElem?_append_left (by omega)]
    · rw [if_neg (by omega), List.getElem?_append_right (by omega), List.getElem?_drop]
      congr 1
      omega

theorem length_copyInto {buf bs out : List α} {start : ℕ} (h : copyInto buf start bs = some out) :
    out.length = buf.length := by
  unfold copyInto at h
  split_ifs at h with hfit
  cases h
  simp only [List.length_append, List.length_take, List.length_drop]
  omega

end KaspaPqv.Lib
