import KaspaPqv.SlhScript.Correct

/-!
# The queue delivers the signature

What the emitter fetches, whatever it does in between: a fetch does not look at the frame or
at the stack below, so it delivers the next element of the signature to any stack, as long as
nothing else touches the queue.

## What is proved

* `fetch_apply` — a fetch generates, and what it generates does not depend on the frame.
* `witnessQueue_delivers` — for every set and every size of the blobs, the `i`-th fetch delivers
  element `i` of the signature, and the last one leaves the queue empty.
-/

namespace KaspaPqv.SlhScript

open KaspaPqv.Lib KaspaPqv.Script

/-! ### What a fetch generates -/

section generate

variable {ν : Type} [SlotName ν]

/-- The code that cuts the last element off a blob of `k + 1`. -/
def peelCode (k : ℕ) : List Instr :=
  let len := (k + 1) * N
  [.op .OpDup, .push (encodeNum ((len - N : ℕ) : ℤ)), .push (encodeNum (len : ℤ)), .op .OpSubstr, .op .OpToAltStack,
    .push (encodeNum ((0 : ℕ) : ℤ)), .push (encodeNum ((len - N : ℕ) : ℤ)), .op .OpSubstr]

/-- The code that cuts a blob into its elements. -/
def sliceBlobCode (count : ℕ) : List Instr :=
  [.op .OpFromAltStack] ++ ((List.range (count - 1)).flatMap (fun i => peelCode (count - 1 - i)) ++ [.op .OpToAltStack])

variable (f : Frame ν) (next pending peak : ℕ)

theorem peel_apply (k : ℕ) : ∃ peak', Emitter.peel k ⟨SlotName.transient :: f, next, pending, peak⟩ =
    .ok ((), ⟨SlotName.transient :: f, next, pending, peak'⟩, peelCode k) :=
  ⟨_, rfl⟩

/-- The loop that cuts the elements off. -/
theorem peels_apply (count n : ℕ) :
    ∃ peak', Gen.forRange n (fun i => Emitter.peel (count - 1 - i)) ⟨SlotName.transient :: f, next, pending, peak⟩ =
      .ok ((), ⟨SlotName.transient :: f, next, pending, peak'⟩, (List.range n).flatMap fun i => peelCode (count - 1 - i)) := by
  induction n with
  | zero => exact ⟨peak, rfl⟩
  | succ n ih =>
    obtain ⟨peak₁, hloop⟩ := ih
    obtain ⟨peak₂, hturn⟩ := peel_apply f next pending peak₁ (count - 1 - n)
    refine ⟨peak₂, ?_⟩
    rw [Gen.forRange_succ, List.range_succ, List.flatMap_append, List.flatMap_singleton]
    exact Gen.bind_ok hloop hturn

theorem sliceBlob_apply (count : ℕ) : ∃ peak', Emitter.sliceBlob count ⟨f, next, pending, peak⟩ =
    .ok ((), ⟨f, next, count, peak'⟩, sliceBlobCode count) := by
  obtain ⟨peak', hloop⟩ := peels_apply f next pending (max peak (f.length + 1)) count (count - 1)
  exact ⟨peak', Gen.bind_ok rfl <| Gen.bind_silent rfl <| Gen.bind_ok hloop rfl⟩

/-- The elements that a fetch has cut and that wait behind it, and its code: a blob is cut if
nothing waits. -/
def fetchCode (plan : BlobPlan) (next pending : ℕ) : Option (ℕ × List Instr) :=
  if pending = 0 then
    match plan.locate next with
    | some (b, 0) => some (plan.blobs.getD b 0 - 1, sliceBlobCode (plan.blobs.getD b 0) ++ [.op .OpFromAltStack])
    | _ => none
  else some (pending - 1, [.op .OpFromAltStack])

omit [SlotName ν] in
theorem takeElement_apply (name : ν) : (do
      Emitter.op .OpFromAltStack
      Emitter.pushSlot name
      Gen.modify fun g => { g with pending := g.pending - 1, nextElement := g.nextElement + 1 } : Emitter.Emit ν Unit)
      ⟨f, next, pending, peak⟩ =
    .ok ((), ⟨name :: f, next + 1, pending - 1, max peak (f.length + 1)⟩, [.op .OpFromAltStack]) := rfl

/-- **What a fetch generates** does not depend on the frame. -/
theorem fetch_apply (plan : BlobPlan) (name : ν) {waiting : ℕ} {is : List Instr}
    (h : fetchCode plan next pending = some (waiting, is)) :
    ∃ peak', Emitter.fetch plan name ⟨f, next, pending, peak⟩ = .ok ((), ⟨name :: f, next + 1, waiting, peak'⟩, is) := by
  unfold fetchCode at h
  by_cases hpending : pending = 0
  · rw [if_pos hpending] at h
    split at h
    · rename_i b hlocate
      cases h
      obtain ⟨peak₁, hslice⟩ := sliceBlob_apply f next pending peak (plan.blobs.getD b 0)
      have hcut : Gen.onlyIf (pending = 0) (Emitter.cutNext plan) ⟨f, next, pending, peak⟩ =
          .ok ((), ⟨f, next, plan.blobs.getD b 0, peak₁⟩, sliceBlobCode (plan.blobs.getD b 0)) := by
        rw [Gen.onlyIf, if_pos hpending]
        refine Gen.bind_silent rfl ?_
        rw [hlocate]
        exact Gen.bind_silent rfl hslice
      exact ⟨_, Gen.bind_silent rfl <| Gen.bind_ok hcut (takeElement_apply f next _ peak₁ name)⟩
    · cases h
  · rw [if_neg hpending] at h
    cases h
    have hskip : Gen.onlyIf (pending = 0) (Emitter.cutNext plan) ⟨f, next, pending, peak⟩ =
        .ok ((), ⟨f, next, pending, peak⟩, []) := by
      rw [Gen.onlyIf, if_neg hpending]
      rfl
    exact ⟨_, Gen.bind_silent rfl <| Gen.bind_silent hskip (takeElement_apply f next pending peak name)⟩

end generate

/-! ### What it delivers -/

/-- In a witness of hash values nothing aborts the script. -/
theorem not_deadAt {ps : Pieces} (h : ∀ p ∈ ps, Whole p.1 p.2) (n : ℕ) : ¬deadAt ps n := by
  induction ps generalizing n with
  | nil => exact id
  | cons piece ps ih =>
    obtain ⟨hpiece, hps⟩ := List.forall_mem_cons.mp h
    rintro ⟨-, hcut | ⟨-, hdead⟩⟩
    · exact hcut hpiece.cuttable
    · exact ih hps _ hdead

theorem liveAt_of_whole {ps : Pieces} (h : ∀ p ∈ ps, Whole p.1 p.2) (n : ℕ) : liveAt ps n := by
  induction ps generalizing n with
  | nil => trivial
  | cons piece ps ih =>
    obtain ⟨hpiece, hps⟩ := List.forall_mem_cons.mp h
    exact ⟨fun _ => hpiece, ih hps _⟩

theorem length_le_total {ps : Pieces} (hpos : ∀ p ∈ ps, 0 < p.1) : ps.length ≤ Pieces.total ps := by
  induction ps with
  | nil => exact le_rfl
  | cons piece ps ih =>
    obtain ⟨hpiece, hps⟩ := List.forall_mem_cons.mp hpos
    have hrest := ih hps
    rw [total_cons, List.length_cons]
    omega

/-- The alt stack never holds more than all elements. -/
theorem length_altAt_le {ps : Pieces} (hpos : ∀ p ∈ ps, 0 < p.1) (n : ℕ) : (altAt ps n).length ≤ Pieces.total ps := by
  induction ps generalizing n with
  | nil => exact le_rfl
  | cons piece ps ih =>
    obtain ⟨hpiece, hps⟩ := List.forall_mem_cons.mp hpos
    have hlen := length_le_total hps
    rw [total_cons, altAt]
    split_ifs
    · simp only [List.length_cons, List.length_map]
      omega
    · simp only [elementsFrom, List.length_append, List.length_map, List.length_range']
      omega
    · exact (ih hps _).trans (Nat.le_add_left _ _)

/-- At the end the queue is empty. -/
theorem altAt_total {ps : Pieces} (hpos : ∀ p ∈ ps, 0 < p.1) : altAt ps (Pieces.total ps) = [] := by
  have hskip := altAt_skip hpos [] 0
  rwa [List.append_nil, Nat.add_zero] at hskip

variable {S : Setting} {plan : BlobPlan} {ps : Pieces} {element : ℕ → Hash}

/-- The emitter finds the next element. -/
theorem exists_fetchCode (h : Delivers S plan ps element) {n : ℕ} (hn : n < plan.p.sigElements) :
    ∃ waiting is, fetchCode plan n (pendingAt ps n) = some (waiting, is) := by
  have htotal : n < Pieces.total ps := h.total_eq ▸ hn
  obtain ⟨pre, count, blob, post, r, rfl, rfl, hr⟩ := exists_split htotal
  have hpos : ∀ p ∈ pre, 0 < p.1 := fun p hp => h.pos_of_mem p (List.mem_append_left _ hp)
  rw [pendingAt_skip hpos]
  unfold fetchCode
  rcases Nat.eq_zero_or_pos r with rfl | hr0
  · rw [pendingAt_zero, if_pos rfl, locate_within h.blobs_eq hr]
    exact ⟨_, _, rfl⟩
  · rw [pendingAt_within hr0 hr.le, if_neg (by omega)]
    exact ⟨_, _, rfl⟩

/-- **A fetch delivers the next element** to any stack. -/
theorem fetchCode_run (h : Delivers S plan ps element) (hwhole : ∀ p ∈ ps, Whole p.1 p.2)
    (hcap : Pieces.total ps + S.rest.length ≤ S.cap) {n : ℕ} (hn : n < plan.p.sigElements) :
    ∃ is, fetchCode plan n (pendingAt ps n) = some (pendingAt ps (n + 1), is) ∧
      run S.env is ⟨⟨S.rest, altAt ps n⟩, []⟩ = some ⟨⟨(element n).bytes :: S.rest, altAt ps (n + 1)⟩, []⟩ := by
  obtain ⟨waiting, is, hcode⟩ := exists_fetchCode h hn
  obtain ⟨peak', hgen⟩ := fetch_apply ([] : Frame Slot) n (pendingAt ps n) 0 plan .r hcode
  have hemits : Emits S (Emitter.fetch plan Slot.r) ⟨[], queueAt ps n⟩ ⟨[(.r, (element n).bytes)], queueAt ps (n + 1)⟩ :=
    .fetch h hn Slot.r
  obtain ⟨g', is', hgen', -, -, hpending, hrun⟩ := hemits.run (not_deadAt hwhole n) (liveAt_of_whole hwhole (n + 1))
    ((Nat.add_le_add_right (length_altAt_le h.pos_of_mem n) _).trans hcap) (g := ⟨[], n, pendingAt ps n, 0⟩) rfl rfl rfl
    (Nat.zero_le _)
  rw [hgen] at hgen'
  cases hgen'
  obtain rfl : waiting = pendingAt ps (n + 1) := hpending
  exact ⟨is, hcode, hrun [] rfl⟩

/-! ### From the witness to the empty queue -/

section deliver

variable {sig : Bytes}

/-- The blobs of a signature, in a setting that has room for them. -/
theorem delivers_room (hp : Emittable plan.p) (hsig : sig.length = plan.p.sigLen) (env : Env) (d : List Bytes) :
    Delivers ⟨env, d, (piecesOf plan sig).length + Pieces.total (piecesOf plan sig) + d.length⟩ plan (piecesOf plan sig)
      (SlhScript.element sig) := by
  refine delivers_piecesOf hp hsig fun q hq => ?_
  have hle : q.1 ≤ Pieces.total (piecesOf plan sig) := List.le_sum_of_mem (List.mem_map_of_mem hq)
  simp only
  omega

variable (plan) in
/-- The witness and the prologue put the blobs on the alt stack, the first one on top. -/
theorem run_witness_prologue (env : Env) (hsig : sig.length = plan.p.sigLen) :
    ∃ witness, (witnessPushes plan sig : Gen Unit Instr String Unit).code () = .ok witness ∧ ∀ d,
      run env (witness ++ prologueCode plan.blobCount) ⟨⟨d, []⟩, []⟩ =
        some ⟨⟨d, altAt (piecesOf plan sig) 0⟩, []⟩ := by
  refine ⟨(blobsOf sig plan.blobs 0).map .push, ?_, fun d => ?_⟩
  · rw [Gen.code, witnessPushes_apply hsig]
    rfl
  · have hcount : plan.blobCount = (blobsOf sig plan.blobs 0).reverse.length := by
      rw [List.length_reverse, length_blobsOf, BlobPlan.blobCount]
    rw [run_append, run_pushes, Option.bind_some, run_plain (plain_prologueCode _) rfl, hcount, execAll_prologueCode,
      List.reverse_reverse, List.append_nil, altAt_zero, map_snd_piecesOf]
    rfl

end deliver

/-- **The queue delivers the signature in order**: for every set, every size of the blobs and every
string of a signature's length. The witness and the prologue build the queue; from then on, at
the `i`-th element and whatever the frame and the data stack are, a fetch generates, and leaves
bytes `16 i` to `16 i + 16` of the string on top of what was there. After the last element the
alt stack is empty. -/
theorem witnessQueue_delivers {p : Params} (hmem : p ∈ Params.ALL) {elemsPerBlob : ℕ} (helems : 1 ≤ elemsPerBlob)
    {sig : Bytes} (hsig : sig.length = p.sigLen) (env : Env) :
    ∃ plan witness prologue, ∃ (alt : ℕ → List Bytes) (pending : ℕ → ℕ),
      BlobPlan.new p elemsPerBlob = .ok plan ∧
      (witnessPushes plan sig : Gen Unit Instr String Unit).code () = .ok witness ∧
      (∀ g, Emitter.emitPrologue plan.blobCount g = .ok ((), g, prologue)) ∧
      (∀ d, run env (witness ++ prologue) ⟨⟨d, []⟩, []⟩ = some ⟨⟨d, alt 0⟩, []⟩) ∧ pending 0 = 0 ∧
      (∀ i < p.sigElements, ∃ is, ∀ (f : Frame Slot) (peak : ℕ) (name : Slot),
        (∃ peak', Emitter.fetch plan name ⟨f, i, pending i, peak⟩ = .ok ((), ⟨name :: f, i + 1, pending (i + 1), peak'⟩, is)) ∧
          ∀ d, run env is ⟨⟨d, alt i⟩, []⟩ = some ⟨⟨slice sig (16 * i) (16 * i + 16) :: d, alt (i + 1)⟩, []⟩) ∧
      alt p.sigElements = [] := by
  have hemit := emittable p hmem
  set plan := BlobPlan.ofElems p elemsPerBlob helems
  have hp : Emittable plan.p := hemit
  have hwhole := whole_piecesOf hp.toFacts hsig
  have hroom (d : List Bytes) := @delivers_room plan sig hp hsig env d
  obtain ⟨witness, hwitness, hstart⟩ := run_witness_prologue plan env hsig
  refine ⟨plan, witness, prologueCode plan.blobCount, altAt (piecesOf plan sig), pendingAt (piecesOf plan sig),
    BlobPlan.new_eq p helems, hwitness, emitPrologue_apply _, hstart, pendingAt_zero _, fun i hi => ?_, ?_⟩
  · obtain ⟨is, hcode, -⟩ := fetchCode_run (hroom []) hwhole (by simp) hi
    refine ⟨is, fun f peak name => ⟨fetch_apply f i _ peak plan name hcode, fun d => ?_⟩⟩
    obtain ⟨is', hcode', hrun⟩ := fetchCode_run (hroom d) hwhole (by simp only; omega) hi
    obtain rfl : is = is' := by
      rw [hcode] at hcode'
      exact (Prod.mk.inj (Option.some.inj hcode')).2
    have hfits : (i + 1) * N ≤ sig.length := by
      rw [hsig, hemit.toFacts.sigLen_eq]
      exact Nat.mul_le_mul_right N hi
    rw [bytes_element hfits, Nat.succ_mul, Nat.mul_comm] at hrun
    exact hrun
  · have hend := altAt_total (hroom []).pos_of_mem
    rwa [(hroom []).total_eq] at hend

/-- The zero string of a signature's length, in blobs of seven elements. -/
theorem witnessQueue_delivers_zeros :
    ∃ plan, BlobPlan.new .SHA2_128S 7 = .ok plan ∧ ∃ (alt : ℕ → List Bytes) (pending : ℕ → ℕ),
      (∀ i < Params.SHA2_128S.sigElements, ∃ is peak', Emitter.fetch plan .r ⟨([] : Frame Slot), i, pending i, 0⟩ =
          .ok ((), ⟨[.r], i + 1, pending (i + 1), peak'⟩, is) ∧
        run ⟨fun _ => Block.zero 32, none⟩ is ⟨⟨[], alt i⟩, []⟩ =
          some ⟨⟨[slice (zeros Params.SHA2_128S.sigLen) (16 * i) (16 * i + 16)], alt (i + 1)⟩, []⟩) ∧
      alt Params.SHA2_128S.sigElements = [] := by
  obtain ⟨plan, -, -, alt, pending, hplan, -, -, -, -, hfetch, hend⟩ :=
    witnessQueue_delivers (show Params.SHA2_128S ∈ Params.ALL by decide) (show 1 ≤ 7 by decide)
      (length_zeros Params.SHA2_128S.sigLen) ⟨fun _ => Block.zero 32, none⟩
  refine ⟨plan, hplan, alt, pending, fun i hi => ?_, hend⟩
  obtain ⟨is, his⟩ := hfetch i hi
  obtain ⟨⟨peak', hgen⟩, hrun⟩ := his [] 0 .r
  exact ⟨is, peak', hgen, hrun []⟩

end KaspaPqv.SlhScript
