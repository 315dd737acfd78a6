import KaspaPqv.SlhScript.Body

/-!
# Script and reference agree

A signature of the right length, pushed in blobs by the witness, is taken by the script
exactly if the reference takes it.

## What is proved

* `delivers_piecesOf` — the elements of a signature's blobs are the signature's.
* `verifyScript_agrees` — the script leaves what the reference says.
-/

namespace KaspaPqv.SlhScript

open KaspaPqv.Lib KaspaPqv.Script

/-- The blobs of a signature, each with its number of elements. -/
def piecesOf (plan : BlobPlan) (sig : Bytes) : Pieces := plan.blobs.zip (blobsOf sig plan.blobs 0)

theorem map_fst_piecesOf (plan : BlobPlan) (sig : Bytes) : (piecesOf plan sig).map Prod.fst = plan.blobs :=
  List.map_fst_zip (length_blobsOf _ _ _).ge

theorem map_snd_piecesOf (plan : BlobPlan) (sig : Bytes) :
    (piecesOf plan sig).map Prod.snd = blobsOf sig plan.blobs 0 := List.map_snd_zip (length_blobsOf _ _ _).le

theorem whole_blobsOf {sig : Bytes} {blobs : List ℕ} {offset : ℕ} (h : offset + blobs.sum * N ≤ sig.length) :
    ∀ p ∈ blobs.zip (blobsOf sig blobs offset), Whole p.1 p.2 := by
  induction blobs generalizing offset with
  | nil => exact fun _ hp => absurd hp List.not_mem_nil
  | cons count blobs ih =>
    rw [List.sum_cons, Nat.add_mul] at h
    rw [blobsOf, List.zip_cons_cons, List.forall_mem_cons]
    have hlen : (slice sig offset (offset + count * N)).length = count * N := by
      rw [length_slice, Nat.min_eq_left (by omega), Nat.add_sub_cancel_left]
    refine ⟨?_, ih (by omega)⟩
    unfold Whole
    split_ifs with h1
    · have hone : count = 1 := h1
      rw [hlen, hone, Nat.one_mul]
    · exact hlen.ge

theorem joined_blobsOf {sig : Bytes} {blobs : List ℕ} {offset : ℕ} (h : offset + blobs.sum * N ≤ sig.length) :
    Pieces.joined (blobs.zip (blobsOf sig blobs offset)) = slice sig offset (offset + blobs.sum * N) := by
  induction blobs generalizing offset with
  | nil => simp [blobsOf, Pieces.joined, slice]
  | cons count blobs ih =>
    rw [List.sum_cons, Nat.add_mul] at h ⊢
    have hrest := @ih (offset + count * N) (by omega)
    have hlen : (slice sig offset (offset + count * N)).length ≤ count * N := by
      rw [length_slice]
      omega
    simp only [Pieces.joined] at hrest
    rw [blobsOf, List.zip_cons_cons, Pieces.joined, List.flatMap_cons, hrest, List.take_of_length_le hlen,
      Nat.add_assoc, slice_append_slice (by omega) (by omega)]

section

variable {plan : BlobPlan} {sig : Bytes} {S : Setting}

theorem Params.Facts.sigLen_eq {p : Params} (hp : p.Facts) : p.sigLen = p.sigElements * N := by
  rw [Params.sigLen, hp.n_eq]

theorem whole_piecesOf (hp : plan.p.Facts) (hsig : sig.length = plan.p.sigLen) :
    ∀ p ∈ piecesOf plan sig, Whole p.1 p.2 := whole_blobsOf (by rw [plan.sum_blobs, hsig, hp.sigLen_eq, Nat.zero_add])

theorem joined_piecesOf (hp : plan.p.Facts) (hsig : sig.length = plan.p.sigLen) :
    Pieces.joined (piecesOf plan sig) = sig := by
  rw [piecesOf, joined_blobsOf (by rw [plan.sum_blobs, hsig, hp.sigLen_eq, Nat.zero_add]), plan.sum_blobs, Nat.zero_add,
    ← hp.sigLen_eq, ← hsig, slice_zero, List.take_length]

/-- **The elements of a signature's blobs** are the signature's. -/
theorem delivers_piecesOf (hp : Emittable plan.p) (hsig : sig.length = plan.p.sigLen)
    (hcap : ∀ p ∈ piecesOf plan sig, (piecesOf plan sig).length - 1 + p.1 + S.rest.length ≤ S.cap) :
    Delivers S plan (piecesOf plan sig) (element sig) := by
  have h := Delivers.of_blobs (map_fst_piecesOf plan sig).symm hp.elements_lt hcap
  rwa [joined_piecesOf hp.toFacts hsig] at h

variable (plan) in
/-- The witness puts the blobs above what is there, the last one on top. -/
theorem execute_witnessPushes (env : Env) (hsig : sig.length = plan.p.sigLen) :
    ∃ witness, (witnessPushes plan sig : Gen Unit Instr String Unit).code () = .ok witness ∧
      ∀ d, execute env witness d = some (((piecesOf plan sig).map Prod.snd).reverse ++ d) := by
  refine ⟨(blobsOf sig plan.blobs 0).map .push, ?_, fun d => ?_⟩
  · rw [Gen.code, witnessPushes_apply hsig]
    rfl
  · have hpushes : execute env ((blobsOf sig plan.blobs 0).map .push ++ []) d = _ := execute_pushes _ _ _
    rw [List.append_nil] at hpushes
    rw [hpushes, map_snd_piecesOf]
    rfl

end

/-- **Script and reference agree**: on every signature of the right length and every message,
for every key of every set and every size of the blobs. -/
theorem verifyScript_agrees {p : Params} (hp : p ∈ Params.ALL) (pk : PublicKey) {elemsPerBlob : ℕ}
    (helems : 1 ≤ elemsPerBlob) {sig : Bytes} (hsig : sig.length = p.sigLen) (sha256 : Bytes → Block 32)
    (tx : Option TxContext) (message : Bytes) :
    ∃ plan v witness items top s,
      BlobPlan.new p elemsPerBlob = .ok plan ∧ buildVerifyScript pk plan = .ok v ∧
      (witnessPushes plan sig : Gen Unit Instr String Unit).code () = .ok witness ∧
      execute ⟨sha256, tx⟩ witness [message] = some items ∧ execute ⟨sha256, tx⟩ v.script items = some [top] ∧
      Signature.fromBytes p sig = some (.ok s) ∧ verify sha256 pk s message = some (isTrue top) := by
  have hemit := emittable p hp
  set plan := BlobPlan.ofElems p elemsPerBlob helems with hplan
  obtain ⟨g, is, hgen, -⟩ := exists_body plan pk hemit
  obtain ⟨witness, hwitness, hitems⟩ := execute_witnessPushes plan ⟨sha256, tx⟩ hsig
  set S : Setting := ⟨⟨sha256, tx⟩, [], (piecesOf plan sig).length + plan.blobs.sum⟩ with hS
  have hdelivers : Delivers S plan (piecesOf plan sig) (element sig) := by
    refine delivers_piecesOf hemit hsig fun q hq => ?_
    have hmem : q.1 ∈ plan.blobs := map_fst_piecesOf plan sig ▸ List.mem_map_of_mem hq
    have hle := List.le_sum_of_mem hmem
    simp only [hS, List.length_nil]
    omega
  have hexec := execute_whole hdelivers hemit hgen (Nat.le_add_right _ _)
    (whole_piecesOf hemit.toFacts hsig) message
  have hparse := fromBytes_eq hemit.toFacts hsig
  obtain ⟨hset, hparts⟩ := has_of_fromBytes hemit.toFacts hsig hparse
  refine ⟨plan, _, witness, _, _, _, BlobPlan.new_eq p helems, buildVerifyScript_eq hgen, hwitness, hitems _, hexec,
    hparse, ?_⟩
  rw [verify_eq sha256 (by exact hemit.toFacts) hparts, isTrue_boolBytes]
  rfl

theorem verifyScript_agrees_zeros :
    ∃ plan v witness items top s, BlobPlan.new .SHA2_128_24_D2 5 = .ok plan ∧
      buildVerifyScript ⟨Block.zero N, Block.zero N⟩ plan = .ok v ∧
      (witnessPushes plan (zeros Params.SHA2_128_24_D2.sigLen) : Gen Unit Instr String Unit).code () = .ok witness ∧
      execute ⟨fun _ => Block.zero 32, none⟩ witness [zeros 32] = some items ∧
      execute ⟨fun _ => Block.zero 32, none⟩ v.script items = some [top] ∧
      Signature.fromBytes .SHA2_128_24_D2 (zeros Params.SHA2_128_24_D2.sigLen) = some (.ok s) ∧
      verify (fun _ => Block.zero 32) ⟨Block.zero N, Block.zero N⟩ s (zeros 32) = some (isTrue top) :=
  verifyScript_agrees (by decide) ⟨Block.zero N, Block.zero N⟩ (by decide) (length_zeros _) (fun _ => Block.zero 32) none
    (zeros 32)

end KaspaPqv.SlhScript
