import KaspaPqv.Script.Engine
import KaspaPqv.SlhScript.Params

/-!
# The witness in blobs

A signature has more elements than the stacks may hold items, so the witness pushes it as
a smaller number of blobs, each of several elements, and the script cuts them apart again.
A plan says how many elements each blob has.

## What is proved

* `cutInto_eq` — a plan made for `e` elements a blob has full blobs and a short last one.
* `witnessPushes_apply` — what the witness pushes.
-/

namespace KaspaPqv.SlhScript

open KaspaPqv.Lib KaspaPqv.Script

/-- The number of elements of a blob in the deployed plans. -/
def BLOB_ELEMS : ℕ := 4

/-- `while left > 0`: blobs of `elems` elements, and what is left in the last one. -/
def cutInto (elems left : ℕ) : List ℕ :=
  if _h : 0 < left ∧ 0 < elems then
    let take := min left elems
    take :: cutInto elems (left - take)
  else []
termination_by left

theorem cutInto_succ {elems left : ℕ} (he : 0 < elems) (hl : 0 < left) :
    cutInto elems left = min left elems :: cutInto elems (left - min left elems) := by
  rw [cutInto, dif_pos ⟨hl, he⟩]

theorem cutInto_zero (elems : ℕ) : cutInto elems 0 = [] := by
  rw [cutInto, dif_neg fun h => absurd h.1 (lt_irrefl 0)]

theorem sum_cutInto {elems : ℕ} (he : 0 < elems) (left : ℕ) : (cutInto elems left).sum = left := by
  induction left using Nat.strong_induction_on with
  | _ left ih =>
    rcases Nat.eq_zero_or_pos left with rfl | hl
    · rw [cutInto_zero, List.sum_nil]
    · rw [cutInto_succ he hl, List.sum_cons, ih _ (by omega)]
      omega

theorem cutInto_pos {elems left : ℕ} : ∀ count ∈ cutInto elems left, 0 < count := by
  induction left using Nat.strong_induction_on with
  | _ left ih =>
    rw [cutInto]
    split_ifs with h
    · intro count hmem
      rcases List.mem_cons.mp hmem with rfl | hmem
      · exact lt_min h.1 h.2
      · exact ih _ (by have := lt_min h.1 h.2; omega) count hmem
    · exact fun _ hmem => absurd hmem List.not_mem_nil

/-- **Full blobs, and what is left.** -/
theorem cutInto_eq {elems : ℕ} (he : 0 < elems) (left : ℕ) : cutInto elems left =
    List.replicate (left / elems) elems ++ if left % elems = 0 then [] else [left % elems] := by
  induction left using Nat.strong_induction_on with
  | _ left ih =>
    rcases Nat.eq_zero_or_pos left with rfl | hl
    · simp [cutInto_zero]
    · rw [cutInto_succ he hl]
      rcases Nat.lt_or_ge left elems with hlt | hge
      · rw [Nat.min_eq_left hlt.le, Nat.sub_self, cutInto_zero, Nat.div_eq_of_lt hlt, Nat.mod_eq_of_lt hlt,
          if_neg hl.ne', List.replicate_zero, List.nil_append]
      · rw [Nat.min_eq_right hge, ih _ (by omega), Nat.div_eq_sub_div he hge, List.replicate_succ, List.cons_append,
          Nat.mod_eq_sub_mod hge]

/-- How a signature is cut into blobs. -/
structure BlobPlan where
  /-- The parameter set, which the blobs are a plan for. -/
  p : Params
  /-- The number of elements of each blob, in the order they are consumed. -/
  blobs : List ℕ
  blobs_pos : ∀ count ∈ blobs, 0 < count
  sum_blobs : blobs.sum = p.sigElements
  deriving DecidableEq

namespace BlobPlan

/-- The plan that has `elems` elements in a blob. -/
def ofElems (p : Params) (elems : ℕ) (h : 0 < elems) : BlobPlan where
  p
  blobs := cutInto elems p.sigElements
  blobs_pos := cutInto_pos
  sum_blobs := sum_cutInto h _

/-- `BlobPlan::new`. -/
def new (p : Params) (elemsPerBlob : ℕ) : Except String BlobPlan :=
  if h : 0 < elemsPerBlob then .ok (ofElems p elemsPerBlob h) else .error "a blob must hold at least one element"

theorem new_eq (p : Params) {elems : ℕ} (h : 0 < elems) : new p elems = .ok (ofElems p elems h) := dif_pos h

/-- The deployed plan of a set. -/
def forParams (p : Params) : BlobPlan := ofElems p BLOB_ELEMS (by norm_num [BLOB_ELEMS])

variable (plan : BlobPlan)

def blobCount : ℕ := plan.blobs.length

/-- The loop of `locate`: `seen` elements are in the `b` blobs before. -/
def locateFrom (index : ℕ) : List ℕ → (b seen : ℕ) → Option (ℕ × ℕ)
  | [], _, _ => none
  | count :: blobs, b, seen =>
    if index < seen + count then some (b, index - seen) else locateFrom index blobs (b + 1) (seen + count)

/-- Which blob an element is in, and where in it; `none` is the panic of an element that
does not exist. -/
def locate (index : ℕ) : Option (ℕ × ℕ) := locateFrom index plan.blobs 0 0

/-- What the two stacks hold at most, beside a working frame of a given size. -/
def peakStackEstimate (workingFrame : ℕ) : ℕ :=
  let largest := plan.blobs.max?.getD 0
  plan.blobCount - 1 + largest + workingFrame

end BlobPlan

variable {σ : Type}

/-- The loop of `witness_pushes`, at an offset into the signature. -/
def pushBlobs (signature : Bytes) : List ℕ → ℕ → Gen σ Instr String Unit
  | [], _ => pure ()
  | count :: blobs, offset => do
    let bytes := count * N
    ScriptWriter.data (slice signature offset (offset + bytes))
    pushBlobs signature blobs (offset + bytes)

/-- The witness: every blob, pushed in the order the blobs are consumed. -/
def witnessPushes (plan : BlobPlan) (signature : Bytes) : Gen σ Instr String Unit := do
  Gen.ensure (signature.length = plan.p.sigLen)
    s!"{plan.p.name} signature must be {plan.p.sigLen} bytes, got {signature.length}"
  pushBlobs signature plan.blobs 0

/-- The blobs of a string, from an offset on. -/
def blobsOf (signature : Bytes) : List ℕ → ℕ → List Bytes
  | [], _ => []
  | count :: blobs, offset =>
    slice signature offset (offset + count * N) :: blobsOf signature blobs (offset + count * N)

@[simp] theorem length_blobsOf (signature : Bytes) (blobs : List ℕ) (offset : ℕ) :
    (blobsOf signature blobs offset).length = blobs.length := by
  induction blobs generalizing offset with
  | nil => rfl
  | cons count blobs ih => rw [blobsOf, List.length_cons, ih, List.length_cons]

theorem pushBlobs_apply (signature : Bytes) (blobs : List ℕ) (offset : ℕ) (g : σ) :
    pushBlobs signature blobs offset g = .ok ((), g, (blobsOf signature blobs offset).map .push) := by
  induction blobs generalizing offset with
  | nil => rfl
  | cons count blobs ih => exact Gen.bind_ok (ScriptWriter.data_apply _ _) (ih _)

/-- **What the witness pushes.** -/
theorem witnessPushes_apply {plan : BlobPlan} {signature : Bytes} (h : signature.length = plan.p.sigLen) (g : σ) :
    witnessPushes plan signature g = .ok ((), g, (blobsOf signature plan.blobs 0).map .push) := by
  rw [witnessPushes, Gen.ensure_bind _ h]
  exact pushBlobs_apply signature plan.blobs 0 g

end KaspaPqv.SlhScript
