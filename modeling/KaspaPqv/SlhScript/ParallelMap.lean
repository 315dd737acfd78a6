import KaspaPqv.Lib.Buffer
import KaspaPqv.Lib.Threads
import KaspaPqv.SlhScript.Signer
import Mathlib.Data.List.FinRange

/-!
# The parallel map

The leaves of a tree are computed on all cores. The workers share a counter; each adds a chunk
to it, computes the values from where it was, and keeps them with their position, until the
counter is past the end. Which worker gets which chunk is up to the schedule. What they kept
is copied to its positions at the end.

A turn of a worker is one `fetch_add` and the work it hands out. The counter is a natural
number: a vector that can be allocated is too short for the machine's counter to overflow.

## What is proved

* `run_handed` — whatever the schedule, the chunks that were handed out are those below the
  counter, each kept once.
* `parallelMap_joins` — the workers end, and the copied values are those of the serial map.
-/

namespace KaspaPqv.SlhScript

open KaspaPqv.Lib

variable {α : Type}

/-- How many values a worker takes at a time. -/
def chunkSize : ℕ := 64

/-- A worker: what it has computed, and whether it has left its loop. -/
structure Worker (α : Type) where
  mine : List (ℕ × List α)
  done : Bool

/-- Where a chunk ends. -/
def chunkEnd (count start : ℕ) : ℕ := min (start + chunkSize) count

/-- The values from a position up to the end of its chunk. -/
def chunkAt (count : ℕ) (f : ℕ → α) (start : ℕ) : ℕ × List α :=
  (start, (List.range' start (chunkEnd count start - start)).map f)

/-- A turn of a worker: its own state and the counter. -/
def Worker.turn (count : ℕ) (f : ℕ → α) (_ : Unit) (w : Worker α) (next : ℕ) : Worker α × ℕ :=
  if w.done then (w, next)
  else
    let start := next
    let next := next + chunkSize
    if start ≥ count then ({ w with done := true }, next)
    else ({ w with mine := w.mine ++ [chunkAt count f start] }, next)

/-- The workers before their first turn. -/
def workers (n : ℕ) : Threads (Fin n) ℕ (Worker α) := { shared := 0, thread := fun _ => { mine := [], done := false } }

/-- The workers after a schedule. -/
def workersAfter {n : ℕ} (count : ℕ) (f : ℕ → α) (schedule : List (Fin n)) : Threads (Fin n) ℕ (Worker α) :=
  (workers n).run (Worker.turn count f) (schedule.map fun t => (t, ()))

/-- What was computed, copied to its positions. -/
def gather [Inhabited α] (count : ℕ) (parts : List (List (ℕ × List α))) : Option (List α) :=
  parts.foldlM (fun out part => part.foldlM (fun out piece => copyInto out piece.1 piece.2) out)
    (List.replicate count default)

/-- How many workers there are. -/
def threadsFor (available count : ℕ) : ℕ := min available (max count 1)

/-- The parallel map under a schedule; `none` if a worker has not returned by then. -/
def parallelMapOn [Inhabited α] (available count : ℕ) (f : ℕ → α) (schedule : List (Fin (threadsFor available count))) :
    Option (List α) :=
  if threadsFor available count ≤ 1 ∨ count < 1024 then some ((List.range count).map f)
  else
    let after := workersAfter count f schedule
    if ∀ t, (after.thread t).done then gather count ((List.finRange _).map fun t => (after.thread t).mine) else none

/-- The indices a worker has computed. -/
def Worker.computed (w : Worker α) : List ℕ := w.mine.flatMap fun piece => List.range' piece.1 piece.2.length

/-! ### What was handed out -/

/-- The chunks below the counter have been handed out, each once, and nobody leaves while there
is something left. -/
structure Handed {n : ℕ} (count : ℕ) (f : ℕ → α) (S : Threads (Fin n) ℕ (Worker α)) : Prop where
  pieces : ∃ k, S.shared = k * chunkSize ∧
    ((List.finRange n).flatMap fun t => (S.thread t).mine).Perm
      ((List.range (min k (divCeil count chunkSize))).map fun i => chunkAt count f (i * chunkSize))
  done : ∀ t, (S.thread t).done → count ≤ S.shared

theorem lt_divCeil {count k : ℕ} : k < divCeil count chunkSize ↔ k * chunkSize < count := by
  rw [divCeil, chunkSize]
  omega

/-- What a worker has kept, when its state is replaced. -/
theorem mine_update {n : ℕ} (thread : Fin n → Worker α) (t : Fin n) (w : Worker α) :
    (fun u => (Function.update thread t w u).mine) = Function.update (fun u => (thread u).mine) t w.mine := by
  funext u
  by_cases hu : u = t
  · subst hu
    rw [Function.update_self, Function.update_self]
  · rw [Function.update_of_ne hu, Function.update_of_ne hu]

/-- **One turn of a worker** hands out the next chunk, or ends the worker. -/
theorem Handed.turn {n count : ℕ} {f : ℕ → α} {S : Threads (Fin n) ℕ (Worker α)} (h : Handed count f S)
    (x : Fin n × Unit) : Handed count f (S.turn (Worker.turn count f) x) := by
  obtain ⟨t, u⟩ := x
  obtain ⟨⟨k, hnext, hpieces⟩, hdone⟩ := h
  have hdone_of {w : Worker α} {next : ℕ} (hle : S.shared ≤ next) (hw : w.done → count ≤ next) (v : Fin n) :
      (Function.update S.thread t w v).done → count ≤ next := by
    by_cases hv : v = t
    · subst hv
      rwa [Function.update_self]
    · rw [Function.update_of_ne hv]
      exact fun hv => (hdone v hv).trans hle
  have hmore : S.shared + chunkSize = (k + 1) * chunkSize := by rw [hnext, Nat.succ_mul]
  unfold Threads.turn
  by_cases hleft : (S.thread t).done
  · have hact : Worker.turn count f u (S.thread t) S.shared = (S.thread t, S.shared) := if_pos hleft
    rw [hact, Function.update_eq_self]
    exact ⟨⟨k, hnext, hpieces⟩, hdone⟩
  · by_cases hend : S.shared ≥ count
    · -- nothing is left: the counter moves on, past the last chunk
      have hact : Worker.turn count f u (S.thread t) S.shared = ({ S.thread t with done := true }, S.shared + chunkSize) :=
        (if_neg hleft).trans (if_pos hend)
      have hlast : ¬ k < divCeil count chunkSize := by rw [lt_divCeil, ← hnext]; omega
      have hpast : min (k + 1) (divCeil count chunkSize) = min k (divCeil count chunkSize) := by omega
      rw [hact]
      refine ⟨⟨k + 1, hmore, ?_⟩, hdone_of (Nat.le_add_right _ _) fun _ => hend.trans (Nat.le_add_right _ _)⟩
      rw [mine_update, hpast, Function.update_eq_self]
      exact hpieces
    · -- the chunk at the counter
      have hact : Worker.turn count f u (S.thread t) S.shared =
          ({ S.thread t with mine := (S.thread t).mine ++ [chunkAt count f S.shared] }, S.shared + chunkSize) :=
        (if_neg hleft).trans (if_neg hend)
      have hlast : k < divCeil count chunkSize := by rw [lt_divCeil, ← hnext]; omega
      have hbefore : min k (divCeil count chunkSize) = k := by omega
      have hafter : min (k + 1) (divCeil count chunkSize) = k + 1 := by omega
      rw [hact]
      refine ⟨⟨k + 1, hmore, ?_⟩, hdone_of (Nat.le_add_right _ _) fun hw => absurd hw hleft⟩
      rw [hbefore] at hpieces
      rw [mine_update, hafter, List.range_succ, List.map_append, List.map_singleton, ← hnext]
      exact (Threads.flatMap_update [chunkAt count f S.shared] (List.nodup_finRange n) (List.mem_finRange t)).trans
        (hpieces.append_right _)

/-- **Whatever the schedule.** -/
theorem run_handed {n : ℕ} (count : ℕ) (f : ℕ → α) (schedule : List (Fin n)) :
    Handed count f (workersAfter count f schedule) := by
  refine Threads.run_inv (fun S x _ h => h.turn x) ⟨⟨0, rfl, ?_⟩, fun t ht => nomatch ht⟩
  rw [Nat.zero_min, List.range_zero, List.map_nil, workers, List.flatMap_eq_nil_iff.mpr fun _ _ => rfl]

/-- The turns a worker may still have: what is left of the counter, and the turn that ends it. -/
def turnsLeft (count : ℕ) (w : Worker α) (next : ℕ) : ℕ :=
  if w.done then 0 else divCeil (count - next) chunkSize + 1

theorem divCeil_sub (a : ℕ) : divCeil (a - chunkSize) chunkSize = divCeil a chunkSize - 1 := by
  rw [divCeil, divCeil, chunkSize]
  omega

theorem turnsLeft_turn (count : ℕ) (f : ℕ → α) (u : Unit) (w : Worker α) (next : ℕ) :
    turnsLeft count (w.turn count f u next).1 (w.turn count f u next).2 ≤ turnsLeft count w next - 1 := by
  unfold Worker.turn
  by_cases hleft : w.done
  · simp [turnsLeft, hleft]
  · by_cases hend : next ≥ count
    · simp [turnsLeft, hleft, hend]
    · have hsub : count - (next + chunkSize) = count - next - chunkSize := by omega
      have hpos : 0 < divCeil (count - next) chunkSize := lt_divCeil.mpr (by omega)
      simp only [if_neg hleft, if_neg hend, turnsLeft, hsub, divCeil_sub]
      omega

theorem turnsLeft_other (count : ℕ) (f : ℕ → α) (u : Unit) (w v : Worker α) (next : ℕ) :
    turnsLeft count w (v.turn count f u next).2 ≤ turnsLeft count w next := by
  have hmono : next ≤ (v.turn count f u next).2 := by
    unfold Worker.turn
    simp only
    split_ifs <;> simp
  unfold turnsLeft
  split_ifs
  · exact le_rfl
  · refine Nat.succ_le_succ ?_
    unfold divCeil
    exact Nat.div_le_div_right (by omega)

/-- **A worker leaves its loop**, once it has had enough turns. -/
theorem worker_done {n : ℕ} (count : ℕ) (f : ℕ → α) {schedule : List (Fin n)} {t : Fin n}
    (ht : divCeil count chunkSize + 1 ≤ schedule.count t) : ((workersAfter count f schedule).thread t).done := by
  have hleft : turnsLeft count ((workersAfter count f schedule).thread t) (workersAfter count f schedule).shared ≤
      turnsLeft count ((workers n : Threads (Fin n) ℕ (Worker α)).thread t) 0 -
        (schedule.map fun t => (t, ())).countP (fun x => x.1 = t) :=
    Threads.run_measure (A := fun _ => True) (fun u w next _ => turnsLeft_turn count f u w next)
      (fun u w v next => turnsLeft_other count f u w v next) fun _ _ _ => trivial
  have hcount : (schedule.map fun t => (t, ())).countP (fun x => x.1 = t) = schedule.count t := by
    rw [List.countP_map, List.count_eq_countP]
    exact List.countP_congr fun u _ => by simp
  have hstart : turnsLeft count ((workers n : Threads (Fin n) ℕ (Worker α)).thread t) 0 = divCeil count chunkSize + 1 := rfl
  rw [hcount, hstart] at hleft
  by_contra hnot
  rw [turnsLeft, if_neg hnot] at hleft
  omega

/-! ### What was kept, at its positions -/

/-- The chunks one after the other. -/
theorem flatMap_chunks (count k : ℕ) :
    ((List.range k).flatMap fun i => List.range' (i * chunkSize) (chunkEnd count (i * chunkSize) - i * chunkSize)) =
      List.range (min (k * chunkSize) count) := by
  induction k with
  | zero => simp
  | succ k ih =>
    rw [List.range_succ, List.flatMap_append, List.flatMap_singleton, ih, chunkEnd, Nat.succ_mul, List.range_eq_range',
      List.range_eq_range']
    rcases Nat.le_total count (k * chunkSize) with hpast | hbefore
    · rw [Nat.min_eq_right hpast, Nat.min_eq_right (by omega), Nat.sub_eq_zero_of_le hpast, List.range'_zero, List.append_nil]
    · have hjoin := List.range'_append_1 (s := 0) (m := k * chunkSize)
        (n := min (k * chunkSize + chunkSize) count - k * chunkSize)
      rw [Nat.zero_add, Nat.add_sub_cancel' (by omega)] at hjoin
      rw [Nat.min_eq_left hbefore, hjoin]

/-- A chunk, copied to its position. -/
theorem copy_chunk {count start : ℕ} (f : ℕ → α) (hstart : start < count) {out : List α} (hout : out.length = count) :
    ∃ out', copyInto out start (chunkAt count f start).2 = some out' ∧ out'.length = count ∧
      ∀ i, (start ≤ i ∧ i < chunkEnd count start) ∨ out[i]? = some (f i) → out'[i]? = some (f i) := by
  have hend : start + (chunkAt count f start).2.length = chunkEnd count start := by
    simp only [chunkAt, List.length_map, List.length_range', chunkEnd]
    omega
  have hfits : start + (chunkAt count f start).2.length ≤ out.length := by
    rw [hend, hout]
    exact Nat.min_le_right _ _
  obtain ⟨out', hcopy⟩ : ∃ out', copyInto out start (chunkAt count f start).2 = some out' := ⟨_, if_pos hfits⟩
  refine ⟨out', hcopy, (length_copyInto hcopy).trans hout, fun i hi => ?_⟩
  rw [getElem?_copyInto hcopy, hend]
  split_ifs with hhere
  · have hin : i - start < chunkEnd count start - start := by omega
    rw [chunkAt, List.getElem?_map, List.getElem?_range' hin]
    simp [Nat.add_sub_cancel' hhere.1]
  · exact hi.resolve_left hhere

/-- Chunks copied to their positions, in any order. -/
theorem copy_pieces (count : ℕ) (f : ℕ → α) {pieces : List (ℕ × List α)}
    (hpieces : ∀ piece ∈ pieces, ∃ start < count, piece = chunkAt count f start) {out : List α} (hout : out.length = count) :
    ∃ out', pieces.foldlM (fun out piece => copyInto out piece.1 piece.2) out = some out' ∧ out'.length = count ∧
      ∀ i, (∃ piece ∈ pieces, piece.1 ≤ i ∧ i < chunkEnd count piece.1) ∨ out[i]? = some (f i) → out'[i]? = some (f i) := by
  induction pieces generalizing out with
  | nil => exact ⟨out, rfl, hout, fun i hi => hi.resolve_left fun ⟨_, hmem, _⟩ => nomatch hmem⟩
  | cons piece pieces ih =>
    obtain ⟨start, hstart, rfl⟩ := hpieces piece List.mem_cons_self
    obtain ⟨next, hnext, hnextlen, hnextat⟩ := copy_chunk f hstart hout
    obtain ⟨out', hrun, hlen, hat⟩ := ih (fun piece hp => hpieces piece (List.mem_cons_of_mem _ hp)) hnextlen
    refine ⟨out', ?_, hlen, fun i hi => hat i ?_⟩
    · rw [List.foldlM_cons]
      exact (congrArg (Option.bind · _) hnext).trans hrun
    · rcases hi with ⟨piece, hmem, hin⟩ | hold
      · rcases List.mem_cons.mp hmem with rfl | hmem
        · exact Or.inr (hnextat i (Or.inl hin))
        · exact Or.inl ⟨piece, hmem, hin⟩
      · exact Or.inr (hnextat i (Or.inr hold))

/-- **Gathering**: the pieces are the chunks, in whatever order and however divided. -/
theorem gather_eq [Inhabited α] {count : ℕ} {f : ℕ → α} {parts : List (List (ℕ × List α))}
    (h : parts.flatten.Perm ((List.range (divCeil count chunkSize)).map fun i => chunkAt count f (i * chunkSize))) :
    gather count parts = some ((List.range count).map f) := by
  have hchunks : ∀ piece ∈ parts.flatten, ∃ start < count, piece = chunkAt count f start := by
    intro piece hmem
    obtain ⟨i, hi, rfl⟩ := List.mem_map.mp (h.mem_iff.mp hmem)
    exact ⟨i * chunkSize, lt_divCeil.mp (List.mem_range.mp hi), rfl⟩
  obtain ⟨out, hrun, hlen, hat⟩ := copy_pieces count f hchunks (List.length_replicate (n := count) (a := (default : α)))
  rw [foldlM_flatten] at hrun
  refine hrun.trans (congrArg some (List.ext_getElem? fun i => ?_))
  rcases Nat.lt_or_ge i count with hi | hi
  · -- the chunk of an index
    have hbelow : i / chunkSize * chunkSize ≤ i := Nat.div_mul_le_self i chunkSize
    have habove : i < i / chunkSize * chunkSize + chunkSize := Nat.lt_div_mul_add (by decide)
    have hin : i < chunkEnd count (i / chunkSize * chunkSize) := lt_min habove hi
    have hmem : chunkAt count f (i / chunkSize * chunkSize) ∈ parts.flatten :=
      h.mem_iff.mpr (List.mem_map.mpr ⟨i / chunkSize, List.mem_range.mpr (lt_divCeil.mpr (hbelow.trans_lt hi)), rfl⟩)
    rw [hat i (Or.inl ⟨_, hmem, hbelow, hin⟩), getElem?_map_range hi]
  · rw [List.getElem?_eq_none (by omega), List.getElem?_eq_none (by simpa using hi)]

/-! ### The parallel map -/

/-- When every worker has left its loop, all chunks have been handed out. -/
theorem pieces_of_done {n count : ℕ} {f : ℕ → α} {S : Threads (Fin n) ℕ (Worker α)} (h : Handed count f S)
    (hn : 0 < n) (hdone : ∀ t, (S.thread t).done) :
    ((List.finRange n).flatMap fun t => (S.thread t).mine).Perm
      ((List.range (divCeil count chunkSize)).map fun i => chunkAt count f (i * chunkSize)) := by
  obtain ⟨⟨k, hnext, hpieces⟩, hleft⟩ := h
  have hpast := hleft ⟨0, hn⟩ (hdone _)
  have hall : ¬ k < divCeil count chunkSize := by rw [lt_divCeil, ← hnext]; omega
  rwa [Nat.min_eq_right (by omega)] at hpieces

/-- Every index below the count is in one chunk. -/
theorem computed_chunks (count : ℕ) (f : ℕ → α) :
    (((List.range (divCeil count chunkSize)).map fun i => chunkAt count f (i * chunkSize)).flatMap fun piece =>
      List.range' piece.1 piece.2.length) = List.range count := by
  have hlast : count ≤ divCeil count chunkSize * chunkSize := Nat.not_lt.mp fun h => lt_irrefl _ (lt_divCeil.mpr h)
  rw [List.flatMap_map]
  simp only [chunkAt, List.length_map, List.length_range']
  rw [flatMap_chunks, Nat.min_eq_right hlast]

/-- **The parallel map is the serial one**, for every count, any number of workers and every
schedule: each worker leaves its loop once it has had enough turns, and when all have, every
index was computed by one worker, once, and the result has each value at its position. -/
theorem parallelMap_joins [Inhabited α] (available count : ℕ) (f : ℕ → α) :
    (∀ (schedule : List (Fin (threadsFor available count))) (t : Fin (threadsFor available count)),
      divCeil count chunkSize + 1 ≤ schedule.count t → ((workersAfter count f schedule).thread t).done) ∧
    ∀ schedule : List (Fin (threadsFor available count)),
      (∀ t, ((workersAfter count f schedule).thread t).done) →
        parallelMapOn available count f schedule = some (parallelMap count f) ∧
          (0 < available → ((List.finRange _).flatMap fun t => ((workersAfter count f schedule).thread t).computed).Perm
            (List.range count)) := by
  refine ⟨fun schedule t ht => worker_done count f ht, fun schedule hdone => ?_⟩
  have hhanded := run_handed count f schedule
  refine ⟨?_, fun havailable => ?_⟩
  · unfold parallelMapOn
    split_ifs with hserial
    · rfl
    · have hpieces := pieces_of_done hhanded (by omega) hdone
      rw [List.flatMap_def] at hpieces
      simp only [hdone, implies_true, if_true]
      exact gather_eq hpieces
  · have hpos : 0 < threadsFor available count := lt_min havailable (Nat.lt_of_lt_of_le Nat.one_pos (Nat.le_max_right _ _))
    have hpieces := (pieces_of_done hhanded hpos hdone).flatMap_right fun piece => List.range' piece.1 piece.2.length
    rw [computed_chunks, List.flatMap_assoc] at hpieces
    exact hpieces

end KaspaPqv.SlhScript
