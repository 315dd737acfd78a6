import KaspaPqv.SlhScript.Binding
import KaspaPqv.SlhScript.Sound
import KaspaPqv.VaultCore.RebuiltDigest

/-!
# The redeem script of a vault

The redeem script is the bare verifier, run on the digest of the transaction that it rebuilds. So
what the verifier is to the reference, the redeem script is to the reference on the digest that
the wallet signs: it takes the signatures of that digest and, of any witness at all, nothing else.

## What is proved

* `execute_redeem` — the redeem script is the bare verifier behind the digest.
* `redeemScript_agrees` — on a signature of the right length it leaves what the reference says of
  the transaction's digest, and aborts if the transaction has none.
* `redeemScript_sound` — a run on any items that ends well tells of a transaction with a digest, of
  one blob for each of the plan's, and of a signature of the digest.
-/

namespace KaspaPqv.SlhScript

open KaspaPqv.Lib KaspaPqv.Script KaspaPqv.VaultCore

variable {plan : BlobPlan} {pk : PublicKey} {env : Env} {g : EmitState Slot} {is : List Instr} {n : ℕ}

/-- **The redeem script** puts the digest of the transaction below the blobs and is the bare verifier then. -/
theorem execute_redeem (hpos : 0 < n) (hn : n ≤ maxOutputCount) {d : List Bytes} (hd : d.length = plan.blobCount)
    (rest : List Bytes) :
    execute env (prologueCode plan.blobCount ++ (rebuildCode n ++ is)) (d ++ rest) =
      (rebuiltDigest env n).bind fun m => execute env (prologueCode plan.blobCount ++ is) (d ++ m.bytes :: rest) := by
  have hprologue (r : List Bytes) : execAll env (prologueCode plan.blobCount) ⟨d ++ r, []⟩ = some ⟨r, d.reverse⟩ := by
    rw [← hd, execAll_prologueCode, List.append_nil]
  have hrun (r : List Bytes) : run env (prologueCode plan.blobCount) ⟨⟨d ++ r, []⟩, []⟩ = some ⟨⟨r, d.reverse⟩, []⟩ := by
    rw [run_plain (plain_prologueCode _) rfl, hprologue]
    rfl
  have hdigest : run env (rebuildCode n) ⟨⟨rest, d.reverse⟩, []⟩ =
      (rebuiltDigest env n).map fun m => ⟨⟨m.bytes :: rest, d.reverse⟩, []⟩ := by
    rw [run_plain (plain_rebuildCode n) rfl, execAll_rebuildCode hpos hn, Option.map_map]
    rfl
  rw [execute, run_append, hrun, Option.bind_some, run_append, hdigest]
  cases rebuiltDigest env n with
  | none => rfl
  | some m =>
    rw [Option.map_some, Option.bind_some, Option.bind_some, execute, run_append, hrun, Option.bind_some]

/-- What a redeem script is made of. -/
theorem buildVaultScript_redeem (hgen : Emitter.emitBody plan pk messageState = .ok ((), g, is)) (hpos : 0 < n)
    (hn : n ≤ maxOutputCount) : buildVaultScript pk plan n =
      .ok ⟨prologueCode plan.blobCount ++ (rebuildCode n ++ is), plan, g.peakFrame⟩ :=
  buildVaultScript_eq hgen hpos hn

/-- The bare verifier on the blobs of a signature of the right length. -/
theorem execute_piecesOf (hp : Emittable plan.p) (hgen : Emitter.emitBody plan pk messageState = .ok ((), g, is))
    {sig : Bytes} (hsig : sig.length = plan.p.sigLen) (env : Env) :
    ∃ s, Signature.fromBytes plan.p sig = some (.ok s) ∧ ∀ message,
      execute env (prologueCode plan.blobCount ++ is) (((piecesOf plan sig).map Prod.snd).reverse ++ [message]) =
        (verify env.sha256 pk s message).map fun b => [boolBytes b] := by
  have hblobs := (map_fst_piecesOf plan sig).symm
  have hdelivers := delivers_settingOf env hp hblobs []
  rw [joined_piecesOf hp.toFacts hsig] at hdelivers
  have hcount : plan.blobs.length = (piecesOf plan sig).length := by rw [hblobs, List.length_map]
  have hparse := fromBytes_eq hp.toFacts hsig
  obtain ⟨hset, hparts⟩ := has_of_fromBytes hp.toFacts hsig hparse
  refine ⟨_, hparse, fun message => ?_⟩
  rw [verify_eq env.sha256 (by exact hp.toFacts) hparts]
  exact execute_whole hdelivers hp hgen (by simp only [settingOf]; omega) (whole_piecesOf hp.toFacts hsig) message

/-- The redeem script on the blobs of a signature of the right length. -/
theorem execute_redeem_piecesOf (hp : Emittable plan.p)
    (hgen : Emitter.emitBody plan pk messageState = .ok ((), g, is)) (hpos : 0 < n) (hn : n ≤ maxOutputCount)
    {sig : Bytes} (hsig : sig.length = plan.p.sigLen) (env : Env) :
    ∃ s, Signature.fromBytes plan.p sig = some (.ok s) ∧
      execute env (prologueCode plan.blobCount ++ (rebuildCode n ++ is)) ((piecesOf plan sig).map Prod.snd).reverse =
        (rebuiltDigest env n).bind fun m => (verify env.sha256 pk s m.bytes).map fun b => [boolBytes b] := by
  obtain ⟨s, hparse, hbare⟩ := execute_piecesOf hp hgen hsig env
  have hcount : (((piecesOf plan sig).map Prod.snd).reverse).length = plan.blobCount := by
    rw [List.length_reverse, List.length_map, BlobPlan.blobCount, ← map_fst_piecesOf plan sig, List.length_map]
  have hredeem := @execute_redeem plan env is n hpos hn _ hcount []
  rw [List.append_nil] at hredeem
  simp only [hbare] at hredeem
  exact ⟨s, hparse, hredeem⟩

/-- **Redeem script and reference agree**: for every set, every key, every size of the blobs and every
signature of the right length, in any transaction or none the script leaves what the reference says
of the digest that it rebuilds, and aborts if it rebuilds none; and what it rebuilds is the
digest that the wallet signs, if it was unrolled for the outputs that the transaction has. -/
theorem redeemScript_agrees {p : Params} (hp : p ∈ Params.ALL) (pk : PublicKey) {elemsPerBlob : ℕ}
    (helems : 1 ≤ elemsPerBlob) {sig : Bytes} (hsig : sig.length = p.sigLen) (env : Env) (hpos : 0 < n)
    (hn : n ≤ maxOutputCount) :
    ∃ plan v witness items s,
      BlobPlan.new p elemsPerBlob = .ok plan ∧ buildVaultScript pk plan n = .ok v ∧
      (witnessPushes plan sig : Gen Unit Instr String Unit).code () = .ok witness ∧
      execute env witness [] = some items ∧ Signature.fromBytes p sig = some (.ok s) ∧
      execute env v.script items =
        ((rebuiltDigest env n).bind fun m => (verify env.sha256 pk s m.bytes).map fun b => [boolBytes b]) ∧
      ∀ c, env.tx = some c → n = c.tx.outputs.length →
        rebuiltDigest env n = (bindingDigest env.sha256 (spendView c)).toOption := by
  have hemit := emittable p hp
  set plan := BlobPlan.ofElems p elemsPerBlob helems with hplan
  obtain ⟨g, is, hgen, -⟩ := exists_body plan pk hemit
  obtain ⟨witness, hwitness, hitems⟩ := execute_witnessPushes plan env hsig
  obtain ⟨s, hparse, hredeem⟩ := execute_redeem_piecesOf hemit hgen hpos hn hsig env
  refine ⟨plan, _, witness, _, s, BlobPlan.new_eq p helems, buildVaultScript_redeem hgen hpos hn, hwitness, hitems [],
    hparse, ?_, ?_⟩
  · rw [List.append_nil]
    exact hredeem
  · rintro c hc rfl
    exact rebuiltDigest_length hc hpos hn

/-- The canonical spend, under a hash function with one value. -/
def canonicalEnv : Env := ⟨fun _ => Block.zero 32, some canonicalSpend⟩

theorem redeemScript_agrees_zeros :
    ∃ plan v witness items s, BlobPlan.new .SHA2_128_24_D2 4 = .ok plan ∧
      buildVaultScript ⟨Block.zero N, Block.zero N⟩ plan 2 = .ok v ∧
      (witnessPushes plan (zeros Params.SHA2_128_24_D2.sigLen) : Gen Unit Instr String Unit).code () = .ok witness ∧
      execute canonicalEnv witness [] = some items ∧
      Signature.fromBytes .SHA2_128_24_D2 (zeros Params.SHA2_128_24_D2.sigLen) = some (.ok s) ∧
      execute canonicalEnv v.script items = ((rebuiltDigest canonicalEnv 2).bind fun m =>
        (verify canonicalEnv.sha256 ⟨Block.zero N, Block.zero N⟩ s m.bytes).map fun b => [boolBytes b]) ∧
      ∀ c, canonicalEnv.tx = some c → 2 = c.tx.outputs.length →
        rebuiltDigest canonicalEnv 2 = (bindingDigest canonicalEnv.sha256 (spendView c)).toOption :=
  redeemScript_agrees (by decide) ⟨Block.zero N, Block.zero N⟩ (by decide) (length_zeros _) canonicalEnv (by decide)
    (by decide)

/-- A redeem script is built for `1` to `127` outputs only. -/
theorem outputCount_of_build {v : VaultScript} (h : buildVaultScript pk plan n = .ok v) :
    0 < n ∧ n ≤ maxOutputCount := by
  obtain ⟨⟨⟨⟩, g, is⟩, hemit, -⟩ := map_eq_ok.mp h
  obtain ⟨⟨⟩, g₁, is₁, rest, -, hrest, -⟩ := Gen.bind_eq_ok.mp hemit
  obtain ⟨⟨⟩, g₂, is₂, rest', hdigest, -, -⟩ := Gen.bind_eq_ok.mp hrest
  exact outputCount_of_emit hdigest

/-- With one item for each blob, or with more, a redeem script that leaves one item had as many as that. -/
theorem pieces_of_redeem (hp : Emittable plan.p) (hgen : Emitter.emitBody plan pk messageState = .ok ((), g, is))
    (hone : ∀ count ∈ plan.blobs.dropLast, count ≠ 1) (hpos : 0 < n) (hn : n ≤ maxOutputCount) {items : List Bytes}
    (hle : plan.blobCount ≤ items.length) {item : Bytes}
    (hexec : execute env (prologueCode plan.blobCount ++ (rebuildCode n ++ is)) items = some [item]) :
    ∃ (m : Block 32) (ps : Pieces), rebuiltDigest env n = some m ∧ plan.blobs = ps.map Prod.fst ∧
      items = (ps.map Prod.snd).reverse ∧ (∀ q ∈ ps, Cuttable q.1 q.2) ∧
      execute env (prologueCode plan.blobCount ++ is) ((ps.map Prod.snd).reverse ++ [m.bytes]) = some [item] := by
  have hlen : (items.take plan.blobCount).length = plan.blobCount := by rw [List.length_take, Nat.min_eq_left hle]
  rw [← List.take_append_drop plan.blobCount items, execute_redeem hpos hn hlen] at hexec
  obtain ⟨m, hm, hbare⟩ := Option.bind_eq_some_iff.mp hexec
  obtain ⟨ps, message, hblobs, hitems, hcut⟩ := shape_of_execute hp hgen hone hbare
  have hcount : plan.blobCount = (ps.map Prod.snd).reverse.length := by
    rw [BlobPlan.blobCount, hblobs, List.length_map, List.length_reverse, List.length_map]
  obtain ⟨htake, hdrop⟩ := List.append_inj hitems (hlen.trans hcount)
  obtain ⟨rfl, hrest⟩ := List.cons.inj hdrop
  rw [hitems] at hbare
  refine ⟨m, ps, hm, hblobs, ?_, hcut, hbare⟩
  rw [← List.take_append_drop plan.blobCount items, htake, hrest, List.append_nil]

/-- A redeem script that leaves one item had one for each blob at least. -/
theorem blobCount_le_of_redeem (hp : Emittable plan.p) (hgen : Emitter.emitBody plan pk messageState = .ok ((), g, is))
    (hpos : 0 < n) (hn : n ≤ maxOutputCount) {items : List Bytes} {item : Bytes}
    (hexec : execute env (prologueCode plan.blobCount ++ (rebuildCode n ++ is)) items = some [item]) :
    plan.blobCount ≤ items.length := by
  by_contra! hlt
  -- with items below, up to the number of the blobs, the run leaves more than one
  have hbelow := execute_below hexec (List.replicate (plan.blobCount - items.length) [])
  have hlen : (items ++ List.replicate (plan.blobCount - items.length) ([] : Bytes)).length = plan.blobCount := by
    simp only [List.length_append, List.length_replicate]
    omega
  have hredeem := @execute_redeem plan env is n hpos hn _ hlen []
  rw [List.append_nil, hbelow] at hredeem
  obtain ⟨m, -, hbare⟩ := Option.bind_eq_some_iff.mp hredeem.symm
  have hleft := length_execute hp hgen (by rw [List.length_append, hlen]; exact Nat.lt_succ_self _) hbare
  simp only [List.length_append, List.length_singleton, List.length_replicate, hlen] at hleft
  omega

/-- **The redeem script is sound on any items**: for every plan that cuts its blobs, a run that leaves one
item, a true one, was made in a transaction with a digest, on one blob for each of the plan's, long
enough if it is cut; and if a blob that is not cut is a hash value, the blobs spell a signature of
the digest that the reference takes. -/
theorem redeemScript_sound {p : Params} (hp : p ∈ Params.ALL) (pk : PublicKey) {elemsPerBlob : ℕ}
    (helems : 2 ≤ elemsPerBlob) {plan : BlobPlan} (hplan : BlobPlan.new p elemsPerBlob = .ok plan) {v : VaultScript}
    (hv : buildVaultScript pk plan n = .ok v) {items : List Bytes} {item : Bytes}
    (hexec : execute env v.script items = some [item]) (htrue : isTrue item) :
    ∃ (m : Block 32) (ps : Pieces), rebuiltDigest env n = some m ∧ ps.map Prod.fst = plan.blobs ∧
      items = (ps.map Prod.snd).reverse ∧ (∀ q ∈ ps, q.1 ≠ 1 → q.1 * N ≤ q.2.length) ∧
      ((∀ q ∈ ps, q.1 = 1 → q.2.length = N) →
        ∃ s, Signature.fromBytes p ps.joined = some (.ok s) ∧ verify env.sha256 pk s m.bytes = some true) := by
  have hemit := emittable p hp
  have hpositive : 0 < elemsPerBlob := by omega
  obtain rfl := Except.ok.inj ((BlobPlan.new_eq p hpositive).symm.trans hplan)
  obtain ⟨hpos, hn⟩ := outputCount_of_build hv
  obtain ⟨g, is, hgen, -⟩ := exists_body (.ofElems p elemsPerBlob hpositive) pk hemit
  obtain rfl := Except.ok.inj ((buildVaultScript_redeem hgen hpos hn).symm.trans hv)
  have hone : ∀ count ∈ (BlobPlan.ofElems p elemsPerBlob hpositive).blobs.dropLast, count ≠ 1 := fun count hmem => by
    rw [eq_of_mem_dropLast_cutInto hpositive count hmem]
    omega
  have hle := blobCount_le_of_redeem hemit hgen hpos hn hexec
  obtain ⟨m, ps, hm, hblobs, hitems, hcut, hbare⟩ := pieces_of_redeem hemit hgen hone hpos hn hle hexec
  refine ⟨m, ps, hm, hblobs.symm, hitems, fun q hq hne => (hcut q hq).resolve_left hne, fun huncut => ?_⟩
  refine verify_of_execute hemit hgen hblobs (fun q hq => ?_) hbare htrue
  unfold Whole
  split_ifs with h1
  · exact huncut q hq h1
  · exact (hcut q hq).resolve_left h1

/-- The canonical spend has a digest. -/
theorem rebuiltDigest_canonical : rebuiltDigest canonicalEnv 2 = some (Block.zero 32) :=
  rebuiltDigest_eq_some.mpr ⟨canonicalSpend, rfl, by decide, by decide, rfl⟩

theorem redeemScript_sound_zeros :
    ∃ key plan v, SigningKey.generate (fun _ => Block.zero 32) .SHA2_128_24_D2 zeroSeeds = some key ∧
      BlobPlan.new .SHA2_128_24_D2 4 = .ok plan ∧ buildVaultScript key.publicKey plan 2 = .ok v ∧
      ∃ (items : List Bytes) (m : Block 32) (ps : Pieces), rebuiltDigest canonicalEnv 2 = some m ∧
        ps.map Prod.fst = plan.blobs ∧ items = (ps.map Prod.snd).reverse ∧ (∀ q ∈ ps, q.1 ≠ 1 → q.1 * N ≤ q.2.length) ∧
        ((∀ q ∈ ps, q.1 = 1 → q.2.length = N) → ∃ s, Signature.fromBytes .SHA2_128_24_D2 ps.joined = some (.ok s) ∧
          verify canonicalEnv.sha256 key.publicKey s m.bytes = some true) := by
  have hmem : Params.SHA2_128_24_D2 ∈ Params.ALL := by decide
  have hemit := emittable _ hmem
  obtain ⟨key, hgen, hsound⟩ := generate_sound (fun _ => Block.zero 32) hemit.toFacts zeroSeeds
  obtain ⟨g, is, hbody, -⟩ := exists_body (.ofElems .SHA2_128_24_D2 4 (by decide)) key.publicKey hemit
  have hset := hsound.p_eq
  have hfacts : key.p.Facts := hset ▸ hemit.toFacts
  have hverify := verify_signature canonicalEnv.sha256 hemit.toFacts hsound (Block.zero 32).bytes
  obtain ⟨hlen, hparse⟩ := fromBytes_signature canonicalEnv.sha256 hfacts (Block.zero 32).bytes
  rw [hset] at hlen hparse
  obtain ⟨s, hs, hexec⟩ := execute_redeem_piecesOf (n := 2) hemit hbody (by decide) (by decide) hlen canonicalEnv
  obtain rfl := Except.ok.inj (Option.some.inj (hparse.symm.trans hs))
  rw [rebuiltDigest_canonical, Option.bind_some, hverify, Option.map_some] at hexec
  have hbuild := buildVaultScript_redeem hbody (n := 2) (by decide) (by decide)
  exact ⟨key, _, _, hgen, BlobPlan.new_eq _ (by decide), hbuild, _, redeemScript_sound hmem key.publicKey (by decide)
    (BlobPlan.new_eq _ (by decide)) hbuild hexec (isTrue_boolBytes true)⟩

end KaspaPqv.SlhScript
