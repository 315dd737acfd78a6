import KaspaPqv.SlhScript.Correct

/-!
# How high the stacks are

The emitter records the largest frame it has held. It does not see the prologue nor the code
of the binding digest, and the alt stack it knows by the plan only. The number it reports is
nevertheless not exceeded at any point of the script: cutting a blob makes the alt stack no
larger than the plan says, and what comes before the frame is no higher than four items above
the blobs.

## What is proved

* `peakRise_bindingCode` — the code of the binding digest rises by three items at most.
* `high_le_peakStack` — the mark of a script is not above the number that is reported.
* `height_le_peakStack` — nor is any point of a script, for a vault and for a bare verifier.
-/

namespace KaspaPqv.SlhScript

open KaspaPqv.Lib KaspaPqv.Script

variable {plan : BlobPlan} {pk : PublicKey} {env : Env} {g : EmitState Slot} {is : List Instr} {ps : Pieces}

/-! ### Before the frame -/

theorem totalRise_prologueCode (n : ℕ) : totalRise (prologueCode n) = 0 := by
  induction n with
  | zero => rfl
  | succ n ih =>
    rw [prologueCode, List.replicate_succ, ← List.singleton_append, totalRise_append, ← prologueCode, ih]
    rfl

theorem peakRise_prologueCode (n : ℕ) : peakRise (prologueCode n) = 0 := by
  induction n with
  | zero => rfl
  | succ n ih =>
    rw [prologueCode, List.replicate_succ, peakRise, ← prologueCode, ih]
    rfl

/-- **The code of the binding digest** rises by three items at most. -/
theorem peakRise_bindingCode (n : ℕ) : peakRise (VaultCore.bindingCode n) ≤ 3 := by
  have houtputs := peakRise_flatMap (b := 2) (by norm_num) (f := VaultCore.outputCode)
    (fun i => (rfl : peakRise (VaultCore.outputCode i) = 2).le) (fun i => (rfl : totalRise (VaultCore.outputCode i) = 0))
    (List.range n)
  have hheader : peakRise VaultCore.headerCode = 3 := rfl
  have htotal : totalRise VaultCore.headerCode = 1 := rfl
  rw [VaultCore.bindingCode, peakRise_append, hheader, htotal]
  omega

theorem totalRise_bindingCode (n : ℕ) : totalRise (VaultCore.bindingCode n) = 1 := by
  have houtputs : totalRise ((List.range n).flatMap VaultCore.outputCode) = 0 := by
    induction List.range n with
    | nil => rfl
    | cons i is ih =>
      rw [List.flatMap_cons, totalRise_append, ih]
      rfl
  rw [VaultCore.bindingCode, totalRise_append, houtputs]
  rfl

/-- What comes before the verifier in a redeem script. -/
theorem peakRise_lead (blobCount n : ℕ) :
    peakRise (prologueCode blobCount ++ (VaultCore.bindingCode n ++ [.op .OpSHA256])) ≤ 3 := by
  have hbinding := peakRise_bindingCode n
  have hhash : peakRise [.op .OpSHA256] = 0 := rfl
  rw [peakRise_append, peakRise_append, peakRise_prologueCode, totalRise_prologueCode, totalRise_bindingCode, hhash]
  omega

/-! ### The mark -/

/-- The largest blob of a plan. -/
def BlobPlan.largest (plan : BlobPlan) : ℕ := plan.blobs.max?.getD 0

theorem peakStackEstimate_eq (plan : BlobPlan) (frame : ℕ) :
    plan.peakStackEstimate frame = plan.blobCount - 1 + plan.largest + frame := rfl

theorem le_largest {count : ℕ} (h : count ∈ plan.blobs) : count ≤ plan.largest := by
  obtain ⟨largest, hmax⟩ := Option.isSome_iff_exists.mp (List.isSome_max?_of_mem h)
  rw [BlobPlan.largest, hmax]
  exact (List.max?_le_iff hmax).mp le_rfl count h

/-- A plan has a blob. -/
theorem exists_mem_blobs (plan : BlobPlan) (hp : plan.p.Facts) : ∃ count, count ∈ plan.blobs := by
  refine List.exists_mem_of_ne_nil _ fun hnil => ?_
  have hsum := plan.sum_blobs
  have helems := hp.sigElements_eq
  rw [hnil, List.sum_nil] at hsum
  omega

/-- **The mark of a script** is not above the number that is reported, whatever the blobs are. -/
theorem high_le_peakStack (hp : Emittable plan.p) (hgen : Emitter.emitBody plan pk messageState = .ok ((), g, is))
    (hblobs : plan.blobs = ps.map Prod.fst) {lead : List Instr} (hplain : ∀ i ∈ lead, i.Plain) {start : Stacks}
    (hlead : ∀ s, execAll env lead start = some s → ∃ message, s = ⟨[message], ps.map Prod.snd⟩)
    (hrise : (start.height : ℤ) + peakRise lead ≤ plan.peakStackEstimate g.peakFrame) :
    (watch env (lead ++ is) (.start ⟨start, []⟩)).high ≤ plan.peakStackEstimate g.peakFrame := by
  set S : Setting := ⟨env, [], plan.blobCount - 1 + plan.largest⟩ with hS
  have hcount : ps.length = plan.blobCount := by rw [BlobPlan.blobCount, hblobs, List.length_map]
  obtain ⟨first, hfirst⟩ := exists_mem_blobs plan hp.toFacts
  have hlargest : 0 < plan.largest := (plan.blobs_pos first hfirst).trans_le (le_largest hfirst)
  have hblobCount : 0 < plan.blobCount := List.length_pos_of_mem hfirst
  have hdelivers : Delivers S plan ps (element ps.joined) := by
    refine .of_blobs hblobs hp.elements_lt fun p hmem => ?_
    have hle : p.1 ≤ plan.largest := le_largest (hblobs ▸ List.mem_map_of_mem hmem)
    simp only [hS, List.length_nil]
    omega
  have hpeak := peakRise_nonneg lead
  have hhigh : (watch env lead (.start ⟨start, []⟩)).high ≤ plan.peakStackEstimate g.peakFrame :=
    high_watch_le hplain rfl (by simp only; omega) hrise
  have hmarked := (Watch.marked_start ⟨start, []⟩).watch env lead
  have hmachine : (watch env lead (.start ⟨start, []⟩)).machine = (execAll env lead start).map fun s => ⟨s, []⟩ :=
    (machine_watch _ _).trans (run_plain hplain rfl start)
  rw [watch_append]
  generalize watch env lead (.start ⟨start, []⟩) = w at hhigh hmarked hmachine ⊢
  obtain ⟨machine, high⟩ := w
  cases hexec : execAll env lead start with
  | none =>
    rw [hexec, Option.map_none] at hmachine
    obtain rfl : machine = none := hmachine
    rw [watch_none]
    exact hhigh
  | some s =>
    rw [hexec, Option.map_some] at hmachine
    obtain rfl : machine = _ := hmachine
    obtain ⟨message, rfl⟩ := hlead s hexec
    have hheight := hmarked _ rfl
    simp only [Stacks.height, List.length_map, List.length_singleton] at hheight
    have hholds := (emitBody_reaches pk hdelivers hp message).holds hgen (by simp only [hS, List.length_nil]; omega)
      hhigh (by simp only [hS, List.length_nil]; omega)
    exact hholds.high_le (by rw [peakStackEstimate_eq])

/-- The code of the binding digest leaves one item, if it does not abort. -/
theorem execAll_digest {n : ℕ} (hn : n < 2 ^ 63) {alt : List Bytes} {s : Stacks}
    (h : execAll env (VaultCore.bindingCode n ++ [.op .OpSHA256]) ⟨[], alt⟩ = some s) : ∃ message, s = ⟨[message], alt⟩ := by
  rw [execAll_append] at h
  obtain ⟨s₁, hbinding, hhash⟩ := Option.bind_eq_some_iff.mp h
  cases hc : env.tx with
  | none =>
    have habort : execAll env (VaultCore.bindingCode n) ⟨[], alt⟩ = none := by
      change (env.tx.bind _).bind _ = none
      rw [hc]
      rfl
    rw [habort] at hbinding
    cases hbinding
  | some c =>
    rw [VaultCore.execAll_bindingCode hc hn] at hbinding
    split_ifs at hbinding
    cases hbinding
    cases hhash
    exact ⟨_, rfl⟩

/-- **No point of a script** is higher than the number that is reported: for every set, every
size of the blobs, every witness of a signature's length, and every transaction or message. -/
theorem height_le_peakStack {p : Params} (hp : p ∈ Params.ALL) (pk : PublicKey) {elemsPerBlob : ℕ}
    (helems : 1 ≤ elemsPerBlob) {sig : Bytes} (hsig : sig.length = p.sigLen) (env : Env) :
    ∃ plan witness, BlobPlan.new p elemsPerBlob = .ok plan ∧
      (witnessPushes plan sig : Gen Unit Instr String Unit).code () = .ok witness ∧
      (∀ message, ∃ v items, buildVerifyScript pk plan = .ok v ∧ execute env witness [message] = some items ∧
        ∀ k m, run env (v.script.take k) ⟨⟨items, []⟩, []⟩ = some m → m.stack.height ≤ v.peakStack) ∧
      ∀ outputCount, 1 ≤ outputCount → outputCount ≤ 127 →
        ∃ v items, buildVaultScript pk plan outputCount = .ok v ∧ execute env witness [] = some items ∧
          ∀ k m, run env (v.script.take k) ⟨⟨items, []⟩, []⟩ = some m → m.stack.height ≤ v.peakStack := by
  have hemit := emittable p hp
  set plan := BlobPlan.ofElems p elemsPerBlob helems with hplan
  obtain ⟨g, is, hgen, hpeak⟩ := exists_body plan pk hemit
  obtain ⟨witness, hwitness, hitems⟩ := execute_witnessPushes plan env hsig
  obtain ⟨first, hfirst⟩ := exists_mem_blobs plan hemit.toFacts
  have hlargest : 0 < plan.largest := (plan.blobs_pos first hfirst).trans_le (le_largest hfirst)
  have hpos : 0 < plan.blobCount := List.length_pos_of_mem hfirst
  have hblobs := (map_fst_piecesOf plan sig).symm
  set blobs := (piecesOf plan sig).map Prod.snd with hblobsOf
  have hcount : plan.blobCount = blobs.reverse.length := by
    rw [BlobPlan.blobCount, hblobs, List.length_map, List.length_reverse, hblobsOf, List.length_map]
  have hprologue (rest : List Bytes) :
      execAll env (prologueCode plan.blobCount) ⟨blobs.reverse ++ rest, []⟩ = some ⟨rest, blobs⟩ := by
    rw [hcount, execAll_prologueCode, List.reverse_reverse, List.append_nil]
  refine ⟨plan, witness, BlobPlan.new_eq p helems, hwitness, fun message => ?_, fun n hn hn' => ?_⟩
  · refine ⟨_, _, buildVerifyScript_eq hgen, hitems [message], fun k m hrun => ?_⟩
    refine (height_le_high hrun).trans (high_le_peakStack hemit hgen hblobs (plain_prologueCode _) (fun s hs => ?_) ?_)
    · rw [hprologue] at hs
      exact ⟨message, (Option.some.inj hs).symm⟩
    · rw [peakRise_prologueCode, peakStackEstimate_eq]
      simp only [Stacks.height, List.length_append, ← hcount, List.length_singleton, List.length_nil]
      omega
  · refine ⟨_, _, buildVaultScript_eq hgen hn hn', hitems [], fun k m hrun => ?_⟩
    have hrise := peakRise_lead plan.blobCount n
    refine (height_le_high hrun).trans ?_
    rw [← List.append_assoc]
    refine high_le_peakStack hemit hgen hblobs ?_ (fun s hs => ?_) ?_
    · refine List.forall_mem_append.mpr ⟨plain_prologueCode _, List.forall_mem_append.mpr
        ⟨VaultCore.plain_bindingCode n, ?_⟩⟩
      simp [Instr.Plain]
    · rw [execAll_append, hprologue] at hs
      exact execAll_digest (by omega) hs
    · rw [peakStackEstimate_eq]
      simp only [Stacks.height, List.length_append, ← hcount, List.length_nil]
      omega

theorem height_le_peakStack_zeros :
    ∃ plan witness, BlobPlan.new .SHA2_128S 1 = .ok plan ∧
      (witnessPushes plan (zeros Params.SHA2_128S.sigLen) : Gen Unit Instr String Unit).code () = .ok witness ∧
      (∀ message, ∃ v items, buildVerifyScript ⟨Block.zero N, Block.zero N⟩ plan = .ok v ∧
        execute ⟨fun _ => Block.zero 32, none⟩ witness [message] = some items ∧
        ∀ k m, run ⟨fun _ => Block.zero 32, none⟩ (v.script.take k) ⟨⟨items, []⟩, []⟩ = some m →
          m.stack.height ≤ v.peakStack) ∧
      ∀ outputCount, 1 ≤ outputCount → outputCount ≤ 127 →
        ∃ v items, buildVaultScript ⟨Block.zero N, Block.zero N⟩ plan outputCount = .ok v ∧
          execute ⟨fun _ => Block.zero 32, none⟩ witness [] = some items ∧
          ∀ k m, run ⟨fun _ => Block.zero 32, none⟩ (v.script.take k) ⟨⟨items, []⟩, []⟩ = some m →
            m.stack.height ≤ v.peakStack :=
  height_le_peakStack (by decide) ⟨Block.zero N, Block.zero N⟩ (by decide) (length_zeros _) ⟨fun _ => Block.zero 32, none⟩

end KaspaPqv.SlhScript
