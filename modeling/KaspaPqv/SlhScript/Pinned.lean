import KaspaPqv.LmsScript.Pinned
import KaspaPqv.Script.Encoding
import KaspaPqv.SlhScript.Body

/-!
# What a redeem script pins

All that an address is to commit to can be read off the instructions. The prologue is as long
as there are blobs, and ends where the binding digest begins; the code of the digest tells the
number of outputs. Then the first blob is cut, and the first opcodes of that say how many
elements it has. Of a plan the first blob tells all, once the set is known. The set is known
from the length of the message digest, which is pushed next, right behind the key.

## What is proved

* `body_inj` — the code of the verifier tells the set, the key and the blobs.
* `redeemScripts_differ` — redeem scripts are different where what they commit to is.
-/

namespace KaspaPqv.SlhScript

open KaspaPqv.Lib KaspaPqv.Script

/-! ### The plan -/

/-- A plan for larger blobs than there are elements has one blob. -/
theorem cutInto_min {elems left : ℕ} (he : 0 < elems) (hl : 0 < left) :
    cutInto (min left elems) left = cutInto elems left := by
  rcases Nat.le_total elems left with h | h
  · rw [Nat.min_eq_right h]
  · rw [Nat.min_eq_left h, cutInto_succ he hl, cutInto_succ hl hl, Nat.min_eq_left h, Nat.min_self, Nat.sub_self,
      cutInto_zero, cutInto_zero]

/-! ### The prologue -/

/-- The prologue ends where the code behind it begins. -/
theorem prologueCode_append_inj {i i' : Instr} (hi : i ≠ .op .OpToAltStack) (hi' : i' ≠ .op .OpToAltStack) {b b' : ℕ}
    {r r' : List Instr} (h : prologueCode b ++ i :: r = prologueCode b' ++ i' :: r') : i :: r = i' :: r' := by
  induction b generalizing b' with
  | zero =>
    cases b' with
    | zero => exact h
    | succ b' => exact absurd (List.cons.inj h).1 hi
  | succ b ih =>
    cases b' with
    | zero => exact absurd (List.cons.inj h).1.symm hi'
    | succ b' => exact ih (List.cons.inj h).2

/-! ### The first blob -/

section first

variable {g : EmitState Slot} {is : List Instr}

/-- A blob of one element is left as it is. -/
theorem sliceBlob_one (h : Emitter.sliceBlob 1 messageState = .ok ((), g, is)) :
    is = [.op .OpFromAltStack, .op .OpToAltStack] := by
  cases h
  rfl

/-- The last element of a larger blob is cut off first. -/
theorem sliceBlob_more {k : ℕ} (h : Emitter.sliceBlob (k + 2) messageState = .ok ((), g, is)) :
    ∃ rest, is = .op .OpFromAltStack :: .op .OpDup :: .push (encodeNum (((k + 2) * N - N : ℕ) : ℤ)) :: rest := by
  have hloop : Gen.forRange (k + 2 - 1) (fun i => (Emitter.peel (k + 2 - 1 - i) : Emitter.Emit Slot Unit)) =
      Emitter.peel (k + 1) >>= fun _ => Gen.forRange k fun i => Emitter.peel (k + 2 - 1 - (i + 1)) :=
    Gen.forRange_succ_first k _
  simp only [Emitter.sliceBlob, hloop, Gen.bind_bind] at h
  obtain ⟨⟨⟩, g₁, take, rest₁, htake, h₁, rfl⟩ := Gen.bind_eq_ok.mp h
  obtain ⟨⟨⟩, g₂, push, rest₂, hpush, h₂, rfl⟩ := Gen.bind_eq_ok.mp h₁
  obtain ⟨⟨⟩, g₃, cut, rest₃, hcut, -, rfl⟩ := Gen.bind_eq_ok.mp h₂
  obtain ⟨⟨⟩, g₄, copy, rest₄, hcopy, h₄, rfl⟩ := Gen.bind_eq_ok.mp hcut
  obtain ⟨⟨⟩, g₅, slice, rest₅, hslice, -, rfl⟩ := Gen.bind_eq_ok.mp h₄
  obtain ⟨⟨⟩, g₆, start, rest₆, hstart, -, rfl⟩ := Gen.bind_eq_ok.mp hslice
  cases htake
  cases hpush
  cases hcopy
  cases hstart
  exact ⟨_, rfl⟩

/-- **The code that cuts a blob** tells how many elements it has. -/
theorem sliceBlob_inj {c c' : ℕ} (hc : 0 < c) (hc' : 0 < c') {g' : EmitState Slot} {is' r r' : List Instr}
    (h : Emitter.sliceBlob c messageState = .ok ((), g, is))
    (h' : Emitter.sliceBlob c' messageState = .ok ((), g', is')) (hsame : is ++ r = is' ++ r') : c = c' ∧ r = r' := by
  have hcount : c = c' := by
    obtain _ | _ | k := c
    · exact absurd hc (lt_irrefl 0)
    · obtain rfl := sliceBlob_one h
      obtain _ | _ | k' := c'
      · exact absurd hc' (lt_irrefl 0)
      · rfl
      · obtain ⟨rest', rfl⟩ := sliceBlob_more h'
        simp at hsame
    · obtain ⟨rest, rfl⟩ := sliceBlob_more h
      obtain _ | _ | k' := c'
      · exact absurd hc' (lt_irrefl 0)
      · obtain rfl := sliceBlob_one h'
        simp at hsame
      · obtain ⟨rest', rfl⟩ := sliceBlob_more h'
        simp only [List.cons_append, List.cons.injEq, Instr.push.injEq, true_and] at hsame
        have hlast : (k + 2) * N - N = (k' + 2) * N - N := Int.ofNat_inj.mp (encodeNum_injective hsame.1)
        simp only [N] at hlast
        omega
  subst hcount
  rw [h] at h'
  cases h'
  exact ⟨rfl, List.append_cancel_left hsame⟩

/-- **The first fetch** cuts the first blob. -/
theorem fetch_code {plan : BlobPlan} {c : ℕ} {blobs : List ℕ} (hp : Emittable plan.p) (hblobs : plan.blobs = c :: blobs)
    (h : Emitter.fetch plan Slot.r messageState = .ok ((), g, is)) :
    g.f = [.r, .d] ∧ ∃ g₁ cut, Emitter.sliceBlob c messageState = .ok ((), g₁, cut) ∧ is = cut ++ [.op .OpFromAltStack] := by
  have hsum := plan.sum_blobs
  have hc : 0 < c := plan.blobs_pos c (by simp [hblobs])
  have hle : c ≤ plan.p.sigElements := List.le_sum_of_mem (by simp [hblobs] : c ∈ plan.blobs) |>.trans hsum.le
  have hreach : ∀ S ps element, Delivers S plan ps element →
      ∃ t : Conf Slot, Reaches S 0 (Emitter.fetch plan .r) ⟨[(.d, [])], queueAt ps 0⟩ t ∧
        t.vars.map Prod.fst = [.r, .d] := fun _ _ _ h => ⟨_, (Emits.fetch h (hc.trans_le hle) _).reaches_zero, rfl⟩
  obtain ⟨g', is', hgen, hframe, -⟩ := Reaches.generates hp hreach
  have hsame := h.symm.trans hgen
  refine ⟨by cases hsame; exact hframe, ?_⟩
  have hlocate : plan.locate 0 = some (0, 0) := by
    rw [BlobPlan.locate, hblobs, BlobPlan.locateFrom, if_pos (by omega)]
  obtain ⟨e, g₁, none₁, rest₁, hget, h₁, rfl⟩ := Gen.bind_eq_ok.mp h
  cases hget
  obtain ⟨⟨⟩, g₂, cut, rest₂, honly, h₂, rfl⟩ := Gen.bind_eq_ok.mp h₁
  cases h₂
  change Emitter.cutNext plan messageState = _ at honly
  obtain ⟨e, g₃, none₃, rest₃, hget, h₃, rfl⟩ := Gen.bind_eq_ok.mp honly
  cases hget
  have hmatch : Emitter.sliceBlob (plan.blobs.getD 0 0) messageState = .ok ((), g₂, rest₃) := by
    simp only [messageState, EmitState.new] at h₃ ⊢
    rw [hlocate] at h₃
    simpa only [Gen.ensure_bind _ rfl] using h₃
  rw [hblobs] at hmatch
  exact ⟨g₂, rest₃, hmatch, rfl⟩

end first

/-! ### The message digest -/

/-- What follows the fetch of the randomizer. -/
def digestCode (pk : PublicKey) (m : ℕ) : List Instr :=
  [.op .OpDup, .push (pk.seed.bytes ++ pk.root.bytes ++ [0, 0]), .op .OpCat, .push (encodeNum (2 : ℕ)), .op .OpRoll,
    .op .OpCat, .op .OpSHA256, .op .OpSwap, .push pk.seed.bytes, .op .OpCat, .op .OpSwap, .op .OpCat,
    .push (beBytes 4 0), .op .OpCat, .op .OpSHA256, .push (encodeNum (0 : ℕ)), .push (encodeNum m), .op .OpSubstr]

/-- **What the verifier begins with.** -/
theorem emitBody_code {plan : BlobPlan} {pk : PublicKey} {c : ℕ} {blobs : List ℕ} (hp : Emittable plan.p)
    (hblobs : plan.blobs = c :: blobs) {g : EmitState Slot} {is : List Instr}
    (h : Emitter.emitBody plan pk messageState = .ok ((), g, is)) :
    ∃ g₁ cut rest, Emitter.sliceBlob c messageState = .ok ((), g₁, cut) ∧
      is = cut ++ .op .OpFromAltStack :: (digestCode pk plan.p.m ++ rest) := by
  obtain ⟨⟨⟩, g₁, digest, rest, hdigest, -, rfl⟩ := Gen.bind_eq_ok.mp h
  obtain ⟨⟨⟩, ⟨f, next, pending, peak⟩, fetched, rest₁, hfetch, h₁, rfl⟩ := Gen.bind_eq_ok.mp hdigest
  obtain ⟨hframe, g₂, cut, hcut, rfl⟩ := fetch_code hp hblobs hfetch
  obtain rfl : f = [.r, .d] := hframe
  cases h₁
  refine ⟨g₂, cut, rest, hcut, ?_⟩
  rw [List.append_assoc, List.append_assoc]
  rfl

/-- **The code of the verifier** tells the set, the key and the blobs. -/
theorem body_inj {p p' : Params} (hp : p ∈ Params.ALL) (hp' : p' ∈ Params.ALL) {pk pk' : PublicKey} {e e' : ℕ}
    (he : 0 < e) (he' : 0 < e') {g g' : EmitState Slot} {is : List Instr}
    (h : Emitter.emitBody (.ofElems p e he) pk messageState = .ok ((), g, is))
    (h' : Emitter.emitBody (.ofElems p' e' he') pk' messageState = .ok ((), g', is)) :
    p = p' ∧ pk = pk' ∧ cutInto e p.sigElements = cutInto e' p'.sigElements := by
  have hposAll : ∀ p ∈ Params.ALL, 0 < p.sigElements := by decide
  have hpos := hposAll p hp
  have hpos' := hposAll p' hp'
  obtain ⟨g₁, cut, rest, hcut, rfl⟩ := emitBody_code (emittable p hp) (cutInto_succ he hpos) h
  obtain ⟨g₁', cut', rest', hcut', hsame⟩ := emitBody_code (emittable p' hp') (cutInto_succ he' hpos') h'
  obtain ⟨hfirst, htail⟩ := sliceBlob_inj (by omega) (by omega) hcut hcut' hsame
  simp only [digestCode, List.cons_append, List.cons.injEq, Instr.push.injEq, true_and] at htail
  obtain ⟨hkey, -, hm, -⟩ := htail
  have hset : p = p' :=
    (by decide : ∀ p ∈ Params.ALL, ∀ p' ∈ Params.ALL, p.m = p'.m → p = p') p hp p' hp'
      (Int.ofNat_inj.mp (encodeNum_injective hm))
  subst hset
  obtain ⟨hseed, hroot⟩ := List.append_inj (List.append_cancel_right hkey) (by simp)
  refine ⟨rfl, ?_, ?_⟩
  · obtain ⟨seed, root⟩ := pk
    obtain ⟨seed', root'⟩ := pk'
    obtain rfl : seed = seed' := Block.ext hseed
    obtain rfl : root = root' := Block.ext hroot
    rfl
  · rw [← cutInto_min he hpos, hfirst, cutInto_min he' hpos]

/-- **A redeem script tells all it was made for.** -/
theorem buildVaultScript_inj {p p' : Params} (hp : p ∈ Params.ALL) (hp' : p' ∈ Params.ALL) (pk pk' : PublicKey)
    {e e' n n' : ℕ} (he : 0 < e) (he' : 0 < e') (hn : 0 < n) (hn' : 0 < n') (hmax : n ≤ VaultCore.maxOutputCount)
    (hmax' : n' ≤ VaultCore.maxOutputCount) :
    ∃ v v', buildVaultScript pk (.ofElems p e he) n = .ok v ∧ buildVaultScript pk' (.ofElems p' e' he') n' = .ok v' ∧
      (v.script = v'.script →
        p = p' ∧ pk = pk' ∧ cutInto e p.sigElements = cutInto e' p'.sigElements ∧ n = n') := by
  obtain ⟨g, is, hgen, -⟩ := exists_body (.ofElems p e he) pk (emittable p hp)
  obtain ⟨g', is', hgen', -⟩ := exists_body (.ofElems p' e' he') pk' (emittable p' hp')
  refine ⟨_, _, buildVaultScript_eq hgen hn hmax, buildVaultScript_eq hgen' hn' hmax', fun hsame => ?_⟩
  have hbinding := prologueCode_append_inj (by simp) (by simp) hsame
  have hcode : VaultCore.bindingCode n ++ .op .OpSHA256 :: is = VaultCore.bindingCode n' ++ .op .OpSHA256 :: is' := by
    rw [List.append_cons, List.append_cons (VaultCore.bindingCode n')]
    exact hbinding
  obtain ⟨hcount, rfl⟩ := VaultCore.bindingCode_inj hcode
  obtain ⟨hset, hkey, hblobs⟩ := body_inj hp hp' he he' hgen hgen'
  exact ⟨hset, hkey, hblobs, hcount⟩

/-- **Redeem scripts are different** where the set, the key, the blobs or the number of outputs
are; and those for a tree of one-time keys, where the key, the leaf or the number of outputs are. -/
theorem redeemScripts_differ {build : List Instr → Bytes} (hbuild : Function.Injective build) :
    (∀ p ∈ Params.ALL, ∀ p' ∈ Params.ALL, ∀ (pk pk' : PublicKey) (e e' n n' : ℕ), 1 ≤ e → 1 ≤ e' → 1 ≤ n → n ≤ 127 →
      1 ≤ n' → n' ≤ 127 → ∃ plan plan' v v', BlobPlan.new p e = .ok plan ∧ BlobPlan.new p' e' = .ok plan' ∧
        buildVaultScript pk plan n = .ok v ∧ buildVaultScript pk' plan' n' = .ok v' ∧
        ((p, pk, plan.blobs, n) ≠ (p', pk', plan'.blobs, n') → build v.script ≠ build v'.script)) ∧
    (∀ P : LmsScript.LmsParams, P.h < 32 → ∀ (key key' : LmsScript.LmsPublicKey) (q q' n n' : ℕ) (is is' : List Instr),
      (LmsScript.emitVaultScript P key q n : Gen Unit Instr String Unit).code () = .ok is →
      (LmsScript.emitVaultScript P key' q' n' : Gen Unit Instr String Unit).code () = .ok is' →
      (key.id, key.root, q, n) ≠ (key'.id, key'.root, q', n') → build is ≠ build is') ∧
    ∀ P ∈ LmsScript.LmsParams.constants, ∀ (key : LmsScript.LmsPublicKey) (q n : ℕ), q < P.leafCount → 1 ≤ n → n ≤ 127 →
      ∃ is, (LmsScript.emitVaultScript P key q n : Gen Unit Instr String Unit).code () = .ok is := by
  refine ⟨?_, ?_, ?_⟩
  · intro p hp p' hp' pk pk' e e' n n' he he' hn hmax hn' hmax'
    obtain ⟨v, v', hv, hv', hinj⟩ := buildVaultScript_inj hp hp' pk pk' he he' hn hn' hmax hmax'
    refine ⟨_, _, v, v', BlobPlan.new_eq p he, BlobPlan.new_eq p' he', hv, hv', fun hne hsame => hne ?_⟩
    obtain ⟨rfl, rfl, hblobs, rfl⟩ := hinj (hbuild hsame)
    simpa [BlobPlan.ofElems] using hblobs
  · intro P hh key key' q q' n n' is is' hcode hcode' hne hsame
    have hleaves : P.leafCount ≤ 2 ^ 32 := Nat.pow_le_pow_right (by norm_num) hh.le
    obtain rfl := hbuild hsame
    obtain ⟨rfl, rfl, rfl⟩ := LmsScript.emitVaultScript_inj hleaves hcode hcode'
    exact hne rfl
  · intro P hP key q n hq hn hmax
    have hu : P.u ≤ P.p := (by decide : ∀ P ∈ LmsScript.LmsParams.constants, P.u ≤ P.p) P hP
    exact (LmsScript.succeeds_emitVaultScript hu hq hn hmax).code ()

theorem redeemScripts_differ_encoded :
    ∃ plan plan' v v', BlobPlan.new .SHA2_128S 4 = .ok plan ∧ BlobPlan.new .SHA2_128S 5 = .ok plan' ∧
      buildVaultScript ⟨Block.zero N, Block.zero N⟩ plan 2 = .ok v ∧
      buildVaultScript ⟨Block.zero N, Block.zero N⟩ plan' 2 = .ok v' ∧
      ((Params.SHA2_128S, (⟨Block.zero N, Block.zero N⟩ : PublicKey), plan.blobs, 2) ≠
        (Params.SHA2_128S, ⟨Block.zero N, Block.zero N⟩, plan'.blobs, 2) →
        encodeScript v.script ≠ encodeScript v'.script) :=
  (redeemScripts_differ encodeScript_injective).1 .SHA2_128S (by decide) .SHA2_128S (by decide) ⟨Block.zero N, Block.zero N⟩
    ⟨Block.zero N, Block.zero N⟩ 4 5 2 2 (by decide) (by decide) (by decide) (by decide) (by decide) (by decide)

end KaspaPqv.SlhScript
