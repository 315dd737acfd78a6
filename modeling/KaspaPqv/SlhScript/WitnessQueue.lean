import KaspaPqv.SlhScript.EmitRules
import KaspaPqv.SlhScript.Reference
import Mathlib.Algebra.Order.BigOperators.Group.List

/-!
# The witness queue

The blobs wait on the alt stack, the first one needed on top. The emitter cuts a blob when
it needs its first element, from the back, and puts the elements on the alt stack, so that
they are taken off in the order of the signature. All that the cut checks is that the blob
is long enough, and a blob of one element is not cut at all: it is taken as it is.

## What is proved

* `Emits.sliceBlob` — what cutting a blob leaves, and when it aborts the script.
* `Emits.fetch` — the `n`-th fetch leaves the `n`-th element.
* `elementAt_eq` — the elements are those of the string that the blobs spell.
-/

namespace KaspaPqv.SlhScript

open KaspaPqv.Lib KaspaPqv.Script

/-- The blobs of a witness, each with the number of elements the plan gives it. -/
abbrev Pieces := List (ℕ × Bytes)

/-- Element `i` of a blob. A blob of one element is taken as it is. -/
def cutElement (count : ℕ) (blob : Bytes) (i : ℕ) : Bytes :=
  if count = 1 then blob else slice blob (i * N) ((i + 1) * N)

/-- What the cut demands of a blob. -/
def Cuttable (count : ℕ) (blob : Bytes) : Prop := count = 1 ∨ count * N ≤ blob.length

/-- What the elements of a blob need to be hash values. -/
def Whole (count : ℕ) (blob : Bytes) : Prop := if count = 1 then blob.length = N else count * N ≤ blob.length

theorem Whole.cuttable {count : ℕ} {blob : Bytes} (h : Whole count blob) : Cuttable count blob := by
  unfold Whole at h
  split_ifs at h with h1
  · exact .inl h1
  · exact .inr h

/-- The elements of a blob from `r` on. -/
def elementsFrom (count : ℕ) (blob : Bytes) (r : ℕ) : List Bytes :=
  (List.range' r (count - r)).map (cutElement count blob)

/-- Element `i` of the witness. -/
def elementAt : Pieces → ℕ → Bytes
  | [], _ => []
  | (count, blob) :: ps, i => if i < count then cutElement count blob i else elementAt ps (i - count)

/-- The alt stack when `n` elements have been consumed. -/
def altAt : Pieces → ℕ → List Bytes
  | [], _ => []
  | (count, blob) :: ps, n =>
    if n = 0 then blob :: ps.map Prod.snd
    else if n < count then elementsFrom count blob n ++ ps.map Prod.snd
    else altAt ps (n - count)

/-- How many elements wait then. -/
def pendingAt : Pieces → ℕ → ℕ
  | [], _ => 0
  | (count, _) :: ps, n => if n = 0 then 0 else if n < count then count - n else pendingAt ps (n - count)

/-- The first `n` elements are hash values. -/
def liveAt : Pieces → ℕ → Prop
  | [], _ => True
  | (count, blob) :: ps, n => (0 < n → Whole count blob) ∧ liveAt ps (n - count)

/-- Among the blobs of the first `n` elements, there is one that cannot be cut, and before it
all elements are hash values. -/
def deadAt : Pieces → ℕ → Prop
  | [], _ => False
  | (count, blob) :: ps, n => 0 < n ∧ (¬Cuttable count blob ∨ Whole count blob ∧ deadAt ps (n - count))

/-- The queue when `n` elements have been consumed. -/
def queueAt (ps : Pieces) (n : ℕ) : Queue := ⟨altAt ps n, n, pendingAt ps n, liveAt ps n, deadAt ps n⟩

/-- The number of elements of some blobs. -/
def Pieces.total (ps : Pieces) : ℕ := (ps.map Prod.fst).sum

/-! ### Where the queue stands -/

section split

variable {pre post : Pieces} {count : ℕ} {blob : Bytes}

/-- Every element is in one of the blobs. -/
theorem exists_split {ps : Pieces} {n : ℕ} (hn : n < Pieces.total ps) :
    ∃ pre count blob post r, ps = pre ++ (count, blob) :: post ∧ n = Pieces.total pre + r ∧ r < count := by
  induction ps generalizing n with
  | nil => exact absurd hn (Nat.not_lt_zero n)
  | cons piece ps ih =>
    obtain ⟨count, blob⟩ := piece
    simp only [Pieces.total, List.map_cons, List.sum_cons] at hn
    rcases Nat.lt_or_ge n count with hlt | hge
    · exact ⟨[], count, blob, ps, n, rfl, by simp [Pieces.total], hlt⟩
    · have hrest : n - count < Pieces.total ps := by
        simp only [Pieces.total]
        omega
      obtain ⟨pre, count', blob', post, r, rfl, hr, hlt⟩ := ih hrest
      refine ⟨(count, blob) :: pre, count', blob', post, r, rfl, ?_, hlt⟩
      simp only [Pieces.total, List.map_cons, List.sum_cons] at hr ⊢
      omega

theorem total_cons (ps : Pieces) : Pieces.total ((count, blob) :: ps) = count + Pieces.total ps := by
  simp [Pieces.total]

theorem elementAt_skip (ps : Pieces) (n : ℕ) : elementAt (pre ++ ps) (Pieces.total pre + n) = elementAt ps n := by
  induction pre with
  | nil => simp [Pieces.total]
  | cons piece pre ih =>
    obtain ⟨count, blob⟩ := piece
    rw [List.cons_append, total_cons, elementAt, if_neg (by omega), ← ih]
    congr 1
    omega

/-- What passes over one blob passes over any number of them. -/
theorem eq_skip {β : Type} {f : Pieces → ℕ → β}
    (hf : ∀ count blob ps n, 0 < count → f ((count, blob) :: ps) (count + n) = f ps n)
    (hpos : ∀ p ∈ pre, 0 < p.1) (ps : Pieces) (n : ℕ) : f (pre ++ ps) (Pieces.total pre + n) = f ps n := by
  induction pre with
  | nil => simp [Pieces.total]
  | cons piece pre ih =>
    obtain ⟨count, blob⟩ := piece
    have hcount : 0 < count := hpos _ List.mem_cons_self
    rw [List.cons_append, total_cons, Nat.add_assoc, hf _ _ _ _ hcount]
    exact ih fun p hp => hpos p (List.mem_cons_of_mem _ hp)

theorem altAt_skip (hpos : ∀ p ∈ pre, 0 < p.1) (ps : Pieces) (n : ℕ) :
    altAt (pre ++ ps) (Pieces.total pre + n) = altAt ps n := by
  apply eq_skip _ hpos
  intro count blob ps n hcount
  rw [altAt, if_neg (by omega), if_neg (by omega), Nat.add_sub_cancel_left]

theorem pendingAt_skip (hpos : ∀ p ∈ pre, 0 < p.1) (ps : Pieces) (n : ℕ) :
    pendingAt (pre ++ ps) (Pieces.total pre + n) = pendingAt ps n := by
  apply eq_skip _ hpos
  intro count blob ps n hcount
  rw [pendingAt, if_neg (by omega), if_neg (by omega), Nat.add_sub_cancel_left]

theorem liveAt_skip (hpos : ∀ p ∈ pre, 0 < p.1) (ps : Pieces) (n : ℕ) :
    liveAt (pre ++ ps) (Pieces.total pre + n) ↔ (∀ p ∈ pre, Whole p.1 p.2) ∧ liveAt ps n := by
  induction pre with
  | nil => simp [Pieces.total]
  | cons piece pre ih =>
    obtain ⟨count, blob⟩ := piece
    have hcount : 0 < count := hpos _ List.mem_cons_self
    have hsub : count + Pieces.total pre + n - count = Pieces.total pre + n := by omega
    rw [List.cons_append, total_cons, liveAt, hsub, ih fun p hp => hpos p (List.mem_cons_of_mem _ hp),
      List.forall_mem_cons, and_assoc]
    exact and_congr_left fun _ => ⟨fun h => h (by omega), fun h _ => h⟩

theorem deadAt_skip (hpos : ∀ p ∈ pre, 0 < p.1) (ps : Pieces) (n : ℕ) :
    deadAt (pre ++ ps) (Pieces.total pre + n) ↔
      deadAt pre (Pieces.total pre) ∨ (∀ p ∈ pre, Whole p.1 p.2) ∧ deadAt ps n := by
  induction pre with
  | nil => simp [Pieces.total, deadAt]
  | cons piece pre ih =>
    obtain ⟨count, blob⟩ := piece
    have hcount : 0 < count := hpos _ List.mem_cons_self
    have hsub : count + Pieces.total pre + n - count = Pieces.total pre + n := by omega
    have hstart : 0 < count + Pieces.total pre + n := by omega
    have hend : 0 < count + Pieces.total pre := by omega
    rw [List.cons_append, total_cons, deadAt, hsub, ih fun p hp => hpos p (List.mem_cons_of_mem _ hp), deadAt,
      Nat.add_sub_cancel_left, List.forall_mem_cons]
    simp only [hstart, hend, true_and]
    tauto

theorem locateFrom_skip (pre ps : Pieces) (n b seen : ℕ) :
    BlobPlan.locateFrom (seen + (Pieces.total pre + n)) ((pre ++ ps).map Prod.fst) b seen =
      BlobPlan.locateFrom (seen + Pieces.total pre + n) (ps.map Prod.fst) (b + pre.length) (seen + Pieces.total pre) := by
  induction pre generalizing b seen with
  | nil => simp [Pieces.total]
  | cons piece pre ih =>
    obtain ⟨count, blob⟩ := piece
    have hassoc : seen + (count + Pieces.total pre + n) = seen + count + (Pieces.total pre + n) := by omega
    rw [List.cons_append, List.map_cons, total_cons, BlobPlan.locateFrom, if_neg (by simp only; omega), hassoc, ih,
      List.length_cons]
    congr 1 <;> omega

/-- Before the first element of a blob is consumed, it waits uncut. -/
theorem altAt_zero (ps : Pieces) : altAt ps 0 = ps.map Prod.snd := by
  cases ps <;> rfl

theorem pendingAt_zero (ps : Pieces) : pendingAt ps 0 = 0 := by
  cases ps <;> rfl

theorem liveAt_zero (ps : Pieces) : liveAt ps 0 := by
  induction ps with
  | nil => trivial
  | cons piece ps ih => exact ⟨fun h => absurd h (lt_irrefl 0), by rwa [Nat.zero_sub]⟩

theorem deadAt_zero (ps : Pieces) : ¬deadAt ps 0 := by
  cases ps with
  | nil => exact id
  | cons piece ps => exact fun h => absurd h.1 (lt_irrefl 0)

/-- Within a blob, and at its end. -/
theorem altAt_within {n : ℕ} (hpos : 0 < n) (hn : n ≤ count) :
    altAt ((count, blob) :: post) n = elementsFrom count blob n ++ post.map Prod.snd := by
  rw [altAt, if_neg hpos.ne']
  split_ifs with hlt
  · rfl
  · obtain rfl : n = count := by omega
    rw [Nat.sub_self, altAt_zero, elementsFrom, Nat.sub_self]
    rfl

theorem pendingAt_within {n : ℕ} (hpos : 0 < n) (hn : n ≤ count) :
    pendingAt ((count, blob) :: post) n = count - n := by
  rw [pendingAt, if_neg hpos.ne']
  split_ifs with hlt
  · rfl
  · obtain rfl : n = count := by omega
    rw [Nat.sub_self, pendingAt_zero]

theorem liveAt_within {n : ℕ} (hpos : 0 < n) (hn : n ≤ count) :
    liveAt ((count, blob) :: post) n ↔ Whole count blob := by
  rw [liveAt, Nat.sub_eq_zero_of_le hn]
  exact ⟨fun h => h.1 hpos, fun h => ⟨fun _ => h, liveAt_zero post⟩⟩

theorem deadAt_within {n : ℕ} (hpos : 0 < n) (hn : n ≤ count) :
    deadAt ((count, blob) :: post) n ↔ ¬Cuttable count blob := by
  rw [deadAt, Nat.sub_eq_zero_of_le hn]
  exact ⟨fun h => h.2.resolve_right fun hw => deadAt_zero post hw.2, fun h => ⟨hpos, .inl h⟩⟩

theorem elementsFrom_cons {r : ℕ} (h : r < count) :
    elementsFrom count blob r = cutElement count blob r :: elementsFrom count blob (r + 1) := by
  have hsucc : count - r = count - (r + 1) + 1 := by omega
  rw [elementsFrom, hsucc, List.range'_succ, List.map_cons, elementsFrom]

/-- The queue at the start of a blob. -/
theorem queueAt_start (count : ℕ) (blob : Bytes) (post : Pieces) (hpos : ∀ p ∈ pre, 0 < p.1) :
    queueAt (pre ++ (count, blob) :: post) (Pieces.total pre) =
      ⟨blob :: post.map Prod.snd, Pieces.total pre, 0, ∀ p ∈ pre, Whole p.1 p.2, deadAt pre (Pieces.total pre)⟩ := by
  have halt := altAt_skip hpos ((count, blob) :: post) 0
  have hpending := pendingAt_skip hpos ((count, blob) :: post) 0
  have hlive := liveAt_skip hpos ((count, blob) :: post) 0
  have hdead := deadAt_skip hpos ((count, blob) :: post) 0
  rw [Nat.add_zero] at halt hpending hlive hdead
  rw [queueAt, halt, hpending, altAt_zero, pendingAt_zero, propext hlive, propext hdead,
    propext (and_iff_left (liveAt_zero ((count, blob) :: post))),
    propext (or_iff_left fun h => deadAt_zero ((count, blob) :: post) h.2), List.map_cons]

/-- The queue within a blob, and at its end. -/
theorem queueAt_within (blob : Bytes) (post : Pieces) (hpos : ∀ p ∈ pre, 0 < p.1) {r : ℕ} (hr : 0 < r) (hle : r ≤ count) :
    queueAt (pre ++ (count, blob) :: post) (Pieces.total pre + r) =
      ⟨elementsFrom count blob r ++ post.map Prod.snd, Pieces.total pre + r, count - r,
        (∀ p ∈ pre, Whole p.1 p.2) ∧ Whole count blob,
        deadAt pre (Pieces.total pre) ∨ (∀ p ∈ pre, Whole p.1 p.2) ∧ ¬Cuttable count blob⟩ := by
  rw [queueAt, altAt_skip hpos, pendingAt_skip hpos, propext (liveAt_skip hpos _ _), propext (deadAt_skip hpos _ _),
    altAt_within hr hle, pendingAt_within hr hle, propext (liveAt_within hr hle), propext (deadAt_within hr hle)]

/-- At the end nothing is pending. -/
theorem pendingAt_total {ps : Pieces} (hpos : ∀ p ∈ ps, 0 < p.1) : pendingAt ps (Pieces.total ps) = 0 := by
  have hskip := pendingAt_skip hpos [] 0
  rwa [List.append_nil, Nat.add_zero] at hskip

theorem liveAt_total {ps : Pieces} (hpos : ∀ p ∈ ps, 0 < p.1) :
    liveAt ps (Pieces.total ps) ↔ ∀ p ∈ ps, Whole p.1 p.2 := by
  have hskip := liveAt_skip hpos [] 0
  rw [List.append_nil, Nat.add_zero] at hskip
  exact hskip.trans (and_iff_left trivial)

theorem elementAt_within {r : ℕ} (hr : r < count) :
    elementAt (pre ++ (count, blob) :: post) (Pieces.total pre + r) = cutElement count blob r := by
  rw [elementAt_skip, elementAt, if_pos hr]

/-- Where the emitter believes an element to be. -/
theorem locate_within {plan : BlobPlan} (hblobs : plan.blobs = (pre ++ (count, blob) :: post).map Prod.fst) {r : ℕ}
    (hr : r < count) : plan.locate (Pieces.total pre + r) = some (pre.length, r) := by
  have hskip := locateFrom_skip pre ((count, blob) :: post) r 0 0
  rw [Nat.zero_add, Nat.zero_add, Nat.zero_add] at hskip
  rw [BlobPlan.locate, hblobs, hskip, List.map_cons, BlobPlan.locateFrom, if_pos (Nat.add_lt_add_left hr _),
    Nat.add_sub_cancel_left]

theorem getD_within {plan : BlobPlan} (hblobs : plan.blobs = (pre ++ (count, blob) :: post).map Prod.fst) :
    plan.blobs.getD pre.length 0 = count := by
  rw [hblobs, List.map_append, List.getD_append_right _ _ _ _ (by simp)]
  simp

end split

/-- The string that the blobs spell: of each as much as its elements are long. -/
def Pieces.joined (ps : Pieces) : Bytes := ps.flatMap fun p => p.2.take (p.1 * N)

theorem Pieces.joined_append (ps ps' : Pieces) : Pieces.joined (ps ++ ps') = ps.joined ++ ps'.joined :=
  List.flatMap_append

theorem Whole.le_length {count : ℕ} {blob : Bytes} (h : Whole count blob) : count * N ≤ blob.length := by
  unfold Whole at h
  split_ifs at h with h1
  · rw [h, h1, Nat.one_mul]
  · exact h

theorem length_joined {ps : Pieces} (h : ∀ p ∈ ps, Whole p.1 p.2) :
    (Pieces.joined ps).length = Pieces.total ps * N := by
  induction ps with
  | nil => simp [Pieces.joined, Pieces.total]
  | cons piece ps ih =>
    obtain ⟨count, blob⟩ := piece
    obtain ⟨hblob, hps⟩ := List.forall_mem_cons.mp h
    have hlen := ih hps
    simp only [Pieces.joined] at hlen
    rw [total_cons, Nat.add_mul, ← hlen]
    simp [Pieces.joined, Nat.min_eq_left hblob.le_length]

/-- **The elements of a witness** are those of the string that its blobs spell. -/
theorem elementAt_eq {ps : Pieces} (hpos : ∀ p ∈ ps, 0 < p.1) {n : ℕ} (hn : n < Pieces.total ps)
    (hlive : liveAt ps (n + 1)) : elementAt ps n = (element (Pieces.joined ps) n).bytes := by
  obtain ⟨pre, count, blob, post, r, rfl, rfl, hr⟩ := exists_split hn
  have hpre : ∀ p ∈ pre, 0 < p.1 := fun p hp => hpos p (List.mem_append_left _ hp)
  rw [Nat.add_assoc, liveAt_skip hpre, liveAt_within r.succ_pos hr] at hlive
  obtain ⟨hwhole, hblob⟩ := hlive
  have hlen := length_joined hwhole
  have hstop : (r + 1) * N ≤ count * N := Nat.mul_le_mul_right N hr
  have htake : (blob.take (count * N)).length = count * N := by rw [List.length_take, Nat.min_eq_left hblob.le_length]
  have hsplit : Pieces.joined (pre ++ (count, blob) :: post) =
      Pieces.joined pre ++ (blob.take (count * N) ++ Pieces.joined post) := by simp [Pieces.joined]
  have hfit : (Pieces.total pre + r + 1) * N ≤ (Pieces.joined (pre ++ (count, blob) :: post)).length := by
    rw [hsplit, List.length_append, List.length_append, hlen, htake, Nat.add_assoc, Nat.add_mul]
    omega
  rw [bytes_element hfit, elementAt_within hr, hsplit, Nat.add_assoc, Nat.add_mul, Nat.add_mul, ← hlen,
    slice_append_of_ge (Nat.le_add_right _ _), Nat.add_sub_cancel_left, Nat.add_sub_cancel_left,
    slice_append_of_le (hstop.trans htake.ge), cutElement]
  split_ifs with h1
  · obtain rfl : r = 0 := by omega
    rw [Whole, if_pos h1] at hblob
    rw [h1, Nat.zero_mul, slice_zero, List.take_take, List.take_of_length_le (by rw [hblob]; simp)]
  · rw [slice, slice, List.take_take, Nat.min_eq_left hstop]

/-- The witness pushes the blobs of a plan, and their elements are these, as far as they are
hash values. -/
structure Delivers (S : Setting) (plan : BlobPlan) (ps : Pieces) (element : ℕ → Hash) : Prop where
  blobs_eq : plan.blobs = ps.map Prod.fst
  elements_lt : plan.p.sigElements * N < 2 ^ 63
  cap_le : ∀ p ∈ ps, ps.length - 1 + p.1 + S.rest.length ≤ S.cap
  element_eq : ∀ n < plan.p.sigElements, liveAt ps (n + 1) → elementAt ps n = (element n).bytes

namespace Delivers

variable {S : Setting} {plan : BlobPlan} {ps : Pieces} {element : ℕ → Hash}

theorem total_eq (h : Delivers S plan ps element) : Pieces.total ps = plan.p.sigElements := by
  rw [Pieces.total, ← h.blobs_eq, plan.sum_blobs]

theorem pos_of_mem (h : Delivers S plan ps element) : ∀ p ∈ ps, 0 < p.1 := fun p hmem => plan.blobs_pos p.1 <| by
  rw [h.blobs_eq]
  exact List.mem_map_of_mem hmem

/-- The elements of any witness with the right number of blobs. -/
theorem of_blobs (hblobs : plan.blobs = ps.map Prod.fst) (hlt : plan.p.sigElements * N < 2 ^ 63)
    (hcap : ∀ p ∈ ps, ps.length - 1 + p.1 + S.rest.length ≤ S.cap) :
    Delivers S plan ps (SlhScript.element (Pieces.joined ps)) := by
  refine ⟨hblobs, hlt, hcap, fun n hn hlive => elementAt_eq (fun p hmem => ?_) ?_ hlive⟩
  · refine plan.blobs_pos p.1 ?_
    rw [hblobs]
    exact List.mem_map_of_mem hmem
  · rwa [Pieces.total, ← hblobs, plan.sum_blobs]

end Delivers

/-! ### Cutting a blob -/

namespace Emits

variable {ν : Type} [SlotName ν] {S : Setting} {vs : List (ν × Bytes)} {name s : ν} {x : Bytes}
  {alt : List Bytes} {n k : ℕ} {live dead : Prop}

omit [SlotName ν] in
/-- The top of the alt stack comes to the data stack, under a new name. -/
theorem fromAlt (name : ν) : Emits S (Emitter.op .OpFromAltStack >>= fun _ => Emitter.pushSlot name)
    ⟨vs, ⟨x :: alt, n, k, live, dead⟩⟩ ⟨(name, x) :: vs, ⟨alt, n, k, live, dead⟩⟩ := by
  refine instr_or (i := .op .OpFromAltStack) (by decide) (.pushSlot name) (fun h => ⟨h, rfl⟩) .inl ?_ ?_ rfl rfl
    (fun h => (Nat.add_le_add_right (Nat.le_succ _) _).trans h) nofun
  · simp [Instr.gain, Opcode.gain]
  · simp [Instr.altGain, Opcode.altGain]

omit [SlotName ν] in
/-- The top of the data stack goes to the alt stack. -/
theorem toAlt (hcap : alt.length + 1 + S.rest.length ≤ S.cap) :
    Emits S (Emitter.op .OpToAltStack >>= fun _ => Emitter.onFrame Frame.pop : Emitter.Emit ν Unit)
      ⟨(s, x) :: vs, ⟨alt, n, k, live, dead⟩⟩ ⟨vs, ⟨x :: alt, n, k, live, dead⟩⟩ := by
  refine instr_or (i := .op .OpToAltStack) (by decide) (.onFrame rfl) (fun h => ⟨h, rfl⟩) .inl ?_ ?_
    rfl rfl (fun _ => hcap) fun _ => by decide
  · simp [Instr.gain, Opcode.gain]
  · simp [Instr.altGain, Opcode.altGain]

variable (vs alt) in
/-- **One element is cut off the back of a blob**, if there are enough bytes. -/
theorem peel {j : ℕ} (hj : (j + 1) * N < 2 ^ 63) (hcap : alt.length + 1 + S.rest.length ≤ S.cap) {q : Queue}
    (halt : q.alt = alt) :
    Emits S (Emitter.peel j : Emitter.Emit ν Unit) ⟨(s, x) :: vs, q⟩
      ⟨tmp (slice x 0 (j * N)) :: vs,
        { q.demand ((j + 1) * N ≤ x.length) with alt := slice x (j * N) ((j + 1) * N) :: alt }⟩ := by
  obtain ⟨_, n, k, live, dead⟩ := q
  obtain rfl : _ = alt := halt
  have hsub : (j + 1) * N - N = j * N := by rw [Nat.succ_mul, Nat.add_sub_cancel]
  have hle : j * N ≤ (j + 1) * N := Nat.mul_le_mul_right N (Nat.le_succ j)
  unfold Emitter.peel
  simp only [hsub]
  exact .seq dup <| .seq (substr_or hle hj) <| .seq₂ (toAlt hcap) <|
    substr_live (Nat.zero_le _) (fun h => hle.trans h.2) (hle.trans_lt hj)

/-- What is left of a blob when `i` elements have been cut off its back. -/
def remainder (count : ℕ) (blob : Bytes) (i : ℕ) : Bytes := if i = 0 then blob else blob.take ((count - i) * N)

theorem slice_remainder {count i : ℕ} {blob : Bytes} {a b : ℕ} (hb : b ≤ (count - i) * N) :
    slice (remainder count blob i) a b = slice blob a b := by
  unfold remainder
  split_ifs
  · rfl
  · rw [slice, List.take_take, Nat.min_eq_left hb, slice]

/-- What is left is long enough for the next element, if the blob was for all. -/
theorem le_length_remainder {count i : ℕ} {blob : Bytes} (hne : count ≠ 1) :
    ((0 < i → Cuttable count blob) ∧ (count - i) * N ≤ (remainder count blob i).length) ↔
      (0 < i + 1 → Cuttable count blob) := by
  have hstop : (count - i) * N ≤ count * N := Nat.mul_le_mul_right N (Nat.sub_le _ _)
  constructor
  · intro h _
    rcases Nat.eq_zero_or_pos i with rfl | hi
    · exact .inr h.2
    · exact h.1 hi
  · intro h
    have hlong := (h i.succ_pos).resolve_left hne
    refine ⟨fun _ => .inr hlong, ?_⟩
    unfold remainder
    split_ifs with h0
    · exact hstop.trans hlong
    · rw [List.length_take, Nat.min_eq_left (hstop.trans hlong)]

/-- **Cutting a blob** puts its elements on the alt stack, if it is long enough. -/
theorem sliceBlob {count : ℕ} {blob : Bytes} (hpos : 0 < count) (hcount : count * N < 2 ^ 63)
    (hcap : alt.length + count + S.rest.length ≤ S.cap) :
    Emits S (Emitter.sliceBlob count : Emitter.Emit ν Unit) ⟨vs, ⟨blob :: alt, n, k, live, dead⟩⟩
      ⟨vs, Queue.demand ⟨elementsFrom count blob 0 ++ alt, n, count, live, dead⟩ (Cuttable count blob)⟩ := by
  set I : ℕ → Conf ν := fun i => ⟨tmp (remainder count blob i) :: vs,
    Queue.demand ⟨elementsFrom count blob (count - i) ++ alt, n, k, live, dead⟩ (0 < i → Cuttable count blob)⟩ with hI
  have hlen (r : ℕ) : (elementsFrom count blob r ++ alt).length = count - r + alt.length := by simp [elementsFrom]
  have hturn : ∀ i < count - 1, Emits S (Emitter.peel (count - 1 - i)) (I i) (I (i + 1)) := by
    intro i hi
    have hj : count - 1 - i + 1 = count - i := by omega
    have hne : count ≠ 1 := by omega
    have hstop : (count - i) * N ≤ count * N := Nat.mul_le_mul_right N (Nat.sub_le _ _)
    have hstart : (count - 1 - i) * N ≤ (count - i) * N := Nat.mul_le_mul_right N (by omega)
    have hrest : remainder count blob (i + 1) = slice (remainder count blob i) 0 ((count - 1 - i) * N) := by
      rw [slice_remainder hstart, remainder, if_neg (Nat.succ_ne_zero i), slice_zero, Nat.sub_succ', Nat.sub_right_comm]
    have helems : elementsFrom count blob (count - (i + 1)) =
        slice (remainder count blob i) ((count - 1 - i) * N) ((count - i) * N) :: elementsFrom count blob (count - i) := by
      rw [slice_remainder le_rfl, elementsFrom_cons (by omega), cutElement, if_neg hne,
        show count - (i + 1) = count - 1 - i by omega, hj]
    have hstack : elementsFrom count blob (count - (i + 1)) ++ alt =
        slice (remainder count blob i) ((count - 1 - i) * N) ((count - 1 - i + 1) * N) ::
          (elementsFrom count blob (count - i) ++ alt) := by
      rw [helems, hj, List.cons_append]
    have hdemand (q : Queue) : (q.demand (0 < i → Cuttable count blob)).demand
        ((count - 1 - i + 1) * N ≤ (remainder count blob i).length) = q.demand (0 < i + 1 → Cuttable count blob) := by
      rw [Queue.demand_demand, hj, propext (le_length_remainder hne)]
    have hpeel := peel vs (elementsFrom count blob (count - i) ++ alt) (s := (SlotName.transient : ν)) (S := S)
      (x := remainder count blob i) (j := count - 1 - i) (by rw [hj]; omega)
      (by rw [hlen]; omega)
      (q := Queue.demand ⟨elementsFrom count blob (count - i) ++ alt, n, k, live, dead⟩ (0 < i → Cuttable count blob)) rfl
    rw [hdemand] at hpeel
    simp only [hI]
    rw [hrest, hstack]
    exact hpeel
  have hloop := forRange I hturn
  have hfirst : remainder count blob (count - 1) = cutElement count blob 0 := by
    unfold remainder cutElement
    split_ifs with h0 h1
    · rfl
    · omega
    · omega
    · rw [show count - (count - 1) = 1 by omega, Nat.one_mul, Nat.zero_mul, slice_zero]
  have hdemand : (0 < count - 1 → Cuttable count blob) = Cuttable count blob := by
    refine propext ⟨fun h => ?_, fun h _ => h⟩
    rcases Nat.eq_zero_or_pos (count - 1) with h0 | h0
    · exact .inl (by omega)
    · exact h h0
  have hstart (q : Queue) : q.demand (0 < 0 → Cuttable count blob) = q :=
    Queue.demand_of fun _ h0 => absurd h0 (lt_irrefl 0)
  have hnone : elementsFrom count blob (count - 0) = [] := by simp [elementsFrom]
  simp only [hI, hstart, hdemand, hnone, hfirst, List.nil_append, show count - (count - 1) = 1 by omega] at hloop
  rw [elementsFrom_cons hpos]
  refine .seq₂ (fromAlt _) <| .seq hloop <| .seq₂ (toAlt ?_) <|
    account (fun _ => rfl) (fun _ => rfl) rfl rfl rfl (fun _ h => h) fun _ _ => rfl
  rw [hlen]
  omega

omit [SlotName ν] in
/-- An element comes off the queue. -/
theorem takeElement (name : ν) : Emits S (do
      Emitter.op .OpFromAltStack
      Emitter.pushSlot name
      Gen.modify fun g => { g with pending := g.pending - 1, nextElement := g.nextElement + 1 })
    ⟨vs, ⟨x :: alt, n, k + 1, live, dead⟩⟩ ⟨(name, x) :: vs, ⟨alt, n + 1, k, live, dead⟩⟩ :=
  .seq₂ (fromAlt name) <| account (fun _ => rfl) (fun _ => rfl) rfl rfl rfl (fun _ h => by rw [h]) fun _ h => by
    rw [h, Nat.add_sub_cancel]

/-- Cutting the blob that the next element is the first of. -/
theorem cutNext {plan : BlobPlan} {pre post : Pieces} {count : ℕ} {blob : Bytes} {element : ℕ → Hash}
    (h : Delivers S plan (pre ++ (count, blob) :: post) element) :
    Emits S (Emitter.cutNext plan : Emitter.Emit ν Unit)
      ⟨vs, ⟨blob :: post.map Prod.snd, Pieces.total pre, 0, live, dead⟩⟩
      ⟨vs, Queue.demand ⟨elementsFrom count blob 0 ++ post.map Prod.snd, Pieces.total pre, count, live, dead⟩
        (Cuttable count blob)⟩ := by
  have hmem : (count, blob) ∈ pre ++ (count, blob) :: post := by simp
  have hin : count ∈ plan.blobs := by
    rw [h.blobs_eq]
    exact List.mem_map_of_mem hmem
  have hpos : 0 < count := plan.blobs_pos count hin
  have hle : count ≤ plan.p.sigElements := plan.sum_blobs ▸ List.le_sum_of_mem hin
  have hlocate := locate_within h.blobs_eq hpos
  have hcap := h.cap_le _ hmem
  refine get fun g _ hnext _ => ?_
  have hnext' : g.nextElement = Pieces.total pre := hnext
  rw [hnext', ← Nat.add_zero (Pieces.total pre), hlocate]
  refine .seq (.ensure rfl) ?_
  rw [getD_within h.blobs_eq]
  refine sliceBlob hpos ((Nat.mul_le_mul_right N hle).trans_lt h.elements_lt) ?_
  simp only [List.length_append, List.length_cons, List.length_map] at hcap ⊢
  omega

section fetch

variable {plan : BlobPlan} {element : ℕ → Hash}

variable (vs) in
/-- The first element of a blob is fetched, as it is. -/
theorem fetchFirst {pre post : Pieces} {count : ℕ} {blob : Bytes}
    (h : Delivers S plan (pre ++ (count, blob) :: post) element) (name : ν) :
    Emits S (Emitter.fetch plan name) ⟨vs, queueAt (pre ++ (count, blob) :: post) (Pieces.total pre)⟩
      ⟨(name, cutElement count blob 0) :: vs, Queue.demand ⟨elementsFrom count blob 1 ++ post.map Prod.snd,
        Pieces.total pre + 1, count - 1, ∀ p ∈ pre, Whole p.1 p.2, deadAt pre (Pieces.total pre)⟩
        (Cuttable count blob)⟩ := by
  have hcount : 0 < count := h.pos_of_mem (count, blob) (by simp)
  have hpos : ∀ p ∈ pre, 0 < p.1 := fun p hp => h.pos_of_mem p (List.mem_append_left _ hp)
  refine get fun g _ _ hpending => ?_
  rw [queueAt_start count blob post hpos] at hpending ⊢
  refine .seq (t := ⟨vs, Queue.demand ⟨elementsFrom count blob 0 ++ post.map Prod.snd, Pieces.total pre, count - 1 + 1,
    ∀ p ∈ pre, Whole p.1 p.2, deadAt pre (Pieces.total pre)⟩ (Cuttable count blob)⟩)
    (.onlyIf (fun _ => ?_) fun h0 => absurd hpending h0) ?_
  · rw [Nat.sub_add_cancel hcount]
    exact cutNext h
  · rw [elementsFrom_cons hcount]
    exact takeElement name

variable (vs) in
/-- A further element of a blob is fetched. -/
theorem fetchNext {pre post : Pieces} {count r : ℕ} {blob : Bytes}
    (h : Delivers S plan (pre ++ (count, blob) :: post) element) (hr0 : 0 < r) (hr : r < count) (name : ν) :
    Emits S (Emitter.fetch plan name) ⟨vs, queueAt (pre ++ (count, blob) :: post) (Pieces.total pre + r)⟩
      ⟨(name, cutElement count blob r) :: vs,
        queueAt (pre ++ (count, blob) :: post) (Pieces.total pre + (r + 1))⟩ := by
  have hpos : ∀ p ∈ pre, 0 < p.1 := fun p hp => h.pos_of_mem p (List.mem_append_left _ hp)
  refine get fun g _ _ hpending => ?_
  rw [queueAt_within blob post hpos hr0 hr.le] at hpending ⊢
  rw [queueAt_within blob post hpos r.succ_pos hr]
  have hne : g.pending ≠ 0 := by
    rw [hpending]
    simp only
    omega
  refine .seq (.onlyIf (fun h0 => absurd h0 hne) fun _ => rfl) ?_
  rw [elementsFrom_cons hr, show count - r = count - (r + 1) + 1 by omega]
  exact takeElement name

/-- **The next element is fetched.** -/
theorem fetch {ps : Pieces} (h : Delivers S plan ps element) (hn : n < plan.p.sigElements) (name : ν) :
    Emits S (Emitter.fetch plan name) ⟨vs, queueAt ps n⟩ ⟨(name, (element n).bytes) :: vs, queueAt ps (n + 1)⟩ := by
  have htotal : n < Pieces.total ps := h.total_eq ▸ hn
  have hvalue := h.element_eq n hn
  obtain ⟨pre, count, blob, post, r, rfl, rfl, hr⟩ := exists_split htotal
  have hpos : ∀ p ∈ pre, 0 < p.1 := fun p hp => h.pos_of_mem p (List.mem_append_left _ hp)
  have hnext := queueAt_within blob post hpos r.succ_pos hr
  rw [Nat.add_assoc, elementAt_within hr, liveAt_skip hpos, liveAt_within r.succ_pos hr] at hvalue
  rw [Nat.add_assoc, hnext]
  rcases Nat.eq_zero_or_pos r with rfl | hr0
  · -- the blob has only now been cut, and whether its elements are hash values is asked afterwards
    refine forget (fetchFirst vs h name) rfl (fun hwhole => ⟨And.imp_right Whole.cuttable hwhole, ?_⟩) id rfl rfl rfl
    rw [List.map_cons, List.map_cons, hvalue hwhole]
  · have hraw := fetchNext vs h hr0 hr name
    rw [hnext] at hraw
    refine forget hraw rfl (fun hwhole => ⟨hwhole, ?_⟩) id rfl rfl rfl
    rw [List.map_cons, List.map_cons, hvalue hwhole]

end fetch

end Emits

end KaspaPqv.SlhScript
