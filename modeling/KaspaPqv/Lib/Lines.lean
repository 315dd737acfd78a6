import Mathlib.Data.List.Basic
import Mathlib.Data.List.Induction

/-!
# Terminated lines

A text is read as lines, each ended by a separator; what follows the last separator is
a line not finished yet. The reading is a fold, so that appending to the text is reading
on from where it stopped.

## What is proved

* `complete_append_line`, `complete_append_of_not_mem` — what appending a whole line, or
  a piece without a separator, does.
* `complete_append_of_pending` — texts that end in a separator are read one after the other.
* `prefix_line` — a prefix of one line is the whole of it or has no separator.
-/

namespace KaspaPqv.Lib

variable {α : Type} [DecidableEq α]

/-- Read one more element: the lines so far, and the line being read. -/
def scanStep (sep : α) (s : List (List α) × List α) (c : α) : List (List α) × List α :=
  if c = sep then (s.1 ++ [s.2], []) else (s.1, s.2 ++ [c])

/-- Read a text. -/
def scan (sep : α) (text : List α) : List (List α) × List α := text.foldl (scanStep sep) ([], [])

/-- The lines that were ended. -/
def complete (sep : α) (text : List α) : List (List α) := (scan sep text).1

/-- What follows the last separator. -/
def pending (sep : α) (text : List α) : List α := (scan sep text).2

variable {sep : α}

theorem foldl_scanStep_of_not_mem {x : List α} (hx : sep ∉ x) (s : List (List α) × List α) :
    x.foldl (scanStep sep) s = (s.1, s.2 ++ x) := by
  induction x generalizing s with
  | nil => simp
  | cons c x ih =>
    simp only [List.mem_cons, not_or] at hx
    rw [List.foldl_cons, ih hx.2, scanStep, if_neg (Ne.symm hx.1)]
    simp

/-- The lines read before are kept, and do not matter to what comes. -/
theorem foldl_scanStep (x : List α) (ls : List (List α)) (cur : List α) :
    x.foldl (scanStep sep) (ls, cur) =
      (ls ++ (x.foldl (scanStep sep) ([], cur)).1, (x.foldl (scanStep sep) ([], cur)).2) := by
  induction x generalizing ls cur with
  | nil => simp
  | cons c x ih =>
    rw [List.foldl_cons, List.foldl_cons]
    by_cases hc : c = sep
    · simp only [scanStep, if_pos hc]
      rw [ih, ih ([] ++ [cur])]
      simp
    · simp only [scanStep, if_neg hc]
      rw [ih]

theorem scan_append (a b : List α) : scan sep (a ++ b) = b.foldl (scanStep sep) (scan sep a) := by
  rw [scan, List.foldl_append, scan]

section append

variable {a x : List α}

theorem complete_append_of_not_mem (hx : sep ∉ x) : complete sep (a ++ x) = complete sep a := by
  rw [complete, scan_append, foldl_scanStep_of_not_mem hx, complete]

theorem pending_append_of_not_mem (hx : sep ∉ x) : pending sep (a ++ x) = pending sep a ++ x := by
  rw [pending, scan_append, foldl_scanStep_of_not_mem hx, pending]

/-- **A whole line** is put behind the line not finished yet, and ends it. -/
theorem complete_append_line (hx : sep ∉ x) :
    complete sep (a ++ (x ++ [sep])) = complete sep a ++ [pending sep a ++ x] := by
  rw [complete, scan_append, List.foldl_append, foldl_scanStep_of_not_mem hx]
  simp [scanStep, complete, pending]

theorem pending_append_line (hx : sep ∉ x) : pending sep (a ++ (x ++ [sep])) = [] := by
  rw [pending, scan_append, List.foldl_append, foldl_scanStep_of_not_mem hx]
  simp [scanStep]

/-- **Reading on** from the end of a line. -/
theorem complete_append_of_pending (ha : pending sep a = []) :
    complete sep (a ++ x) = complete sep a ++ complete sep x := by
  have hscan : scan sep a = (complete sep a, []) := Prod.ext rfl ha
  rw [complete, scan_append, hscan, foldl_scanStep]
  rfl

theorem complete_isPrefix (a x : List α) : complete sep a <+: complete sep (a ++ x) := by
  rw [complete, complete, scan_append, foldl_scanStep x (scan sep a).1]
  exact List.prefix_append _ _

end append

/-- Lines and what is pending consist of elements of the text, and of no separator. -/
theorem mem_scan {text : List α} :
    (∀ l ∈ complete sep text, ∀ c ∈ l, c ∈ text ∧ c ≠ sep) ∧ ∀ c ∈ pending sep text, c ∈ text ∧ c ≠ sep := by
  induction text using List.reverseRecOn with
  | nil => simp [complete, pending, scan]
  | append_singleton text d ih =>
    by_cases hd : d = sep
    · have hline : [d] = [] ++ [sep] := by rw [hd]; rfl
      rw [hline, complete_append_line (by simp), pending_append_line (by simp)]
      simp only [List.append_nil, List.mem_append, List.mem_singleton]
      refine ⟨?_, by simp⟩
      rintro l (hl | rfl) c hc
      · exact ⟨.inl (ih.1 l hl c hc).1, (ih.1 l hl c hc).2⟩
      · exact ⟨.inl (ih.2 c hc).1, (ih.2 c hc).2⟩
    · have hsep : sep ∉ [d] := by simpa using Ne.symm hd
      rw [complete_append_of_not_mem hsep, pending_append_of_not_mem hsep]
      simp only [List.mem_append, List.mem_singleton]
      refine ⟨fun l hl c hc => ⟨.inl (ih.1 l hl c hc).1, (ih.1 l hl c hc).2⟩, ?_⟩
      rintro c (hc | rfl)
      · exact ⟨.inl (ih.2 c hc).1, (ih.2 c hc).2⟩
      · exact ⟨.inr rfl, hd⟩

omit [DecidableEq α] in
/-- **A prefix of one line** is the whole of it, or has no separator. -/
theorem prefix_line {t x : List α} (ht : sep ∉ t) (hx : x <+: t ++ [sep]) :
    x = t ++ [sep] ∨ sep ∉ x := by
  rcases List.prefix_concat_iff.mp hx with h | h
  · exact .inl h
  · exact .inr fun hmem => ht (h.subset hmem)

/-- Fields consist of elements of the text. -/
theorem mem_of_mem_splitOn {text field : List α} (hfield : field ∈ text.splitOn sep) {c : α} (hc : c ∈ field) :
    c ∈ text := by
  induction text generalizing field with
  | nil =>
    obtain rfl : field = [] := by simpa using hfield
    exact hc
  | cons d text ih =>
    rw [List.splitOn_cons_eq_if_modifyHead] at hfield
    split_ifs at hfield with hd
    · rcases List.mem_cons.mp hfield with rfl | hfield
      · cases hc
      · exact List.mem_cons_of_mem _ (ih hfield hc)
    · cases hsplit : text.splitOn sep with
      | nil => exact absurd hsplit (List.splitOn_ne_nil sep text)
      | cons first rest =>
        rw [hsplit] at hfield
        rcases List.mem_cons.mp hfield with rfl | hfield
        · rcases List.mem_cons.mp hc with rfl | hc
          · exact List.mem_cons_self
          · exact List.mem_cons_of_mem _ (ih (hsplit ▸ List.mem_cons_self) hc)
        · exact List.mem_cons_of_mem _ (ih (hsplit ▸ List.mem_cons_of_mem _ hfield) hc)

/-- A text has one field more than separators. -/
theorem length_splitOn (text : List α) : (text.splitOn sep).length = text.count sep + 1 := by
  induction text with
  | nil => simp
  | cons c text ih =>
    rw [List.splitOn_cons_eq_if_modifyHead, List.count_cons]
    split_ifs with hc
    · rw [List.length_cons, ih]
    · rw [List.length_modifyHead, ih]

end KaspaPqv.Lib
