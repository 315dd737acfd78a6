import KaspaPqv.SlhScript.Sign

/-!
# Where signer and verifier hash

No two positions of hashes share an address (`Position.adrs_inj`). Here this is tied to the two
that hash: beside the digest of the message, and the signer's randomness, all they hash is hashed at
the address of a position in range. For the signer it is enough that its hasher hashes there; a
verifier cannot tell two hash functions apart that agree there.

## What is proved

* `Agree.trace_eq` — a verification depends on what is hashed at positions in range, and on the digest.
* `positions_separate` — no two positions share an address, and signer and verifier hash at positions.
-/

namespace KaspaPqv.SlhScript

open KaspaPqv.Lib

/-- Two hash functions that agree on every message at a position of a key, and on the digests of
messages. -/
structure Agree (p : Params) (pkSeed : Hash) (sha256 sha256' : Bytes → Block 32) : Prop where
  hash_eq : ∀ x : Position, x.InRange p → ∀ parts : List Bytes,
    hash sha256 pkSeed (x.adrs p) parts = hash sha256' pkSeed (x.adrs p) parts
  digest_eq : ∀ (r : Hash) (pk : PublicKey) (message : Bytes), hMsg sha256 p r pk message = hMsg sha256' p r pk message

variable {p : Params} {pkSeed : Hash} {sha256 sha256' : Bytes → Block 32} (h : Agree p pkSeed sha256 sha256')

/-! ### The values of a verification -/

section values

include h

section keyPair

variable {layer tree kp : ℕ} (hkp : Position.KeyPairInRange p layer tree kp)
include hkp

theorem Agree.chain_eq {i start steps : ℕ} (hi : i < p.len) (hend : start + steps ≤ p.w - 1) (v : Hash) :
    chain sha256 pkSeed ((wotsAdrs layer tree kp).setChainAddress i) v start steps =
      chain sha256' pkSeed ((wotsAdrs layer tree kp).setChainAddress i) v start steps := by
  rw [chain_adrs sha256 p, chain_adrs sha256' p]
  refine List.foldl_ext _ _ v fun v j hj => ?_
  have hj := List.mem_range'_1.mp hj
  exact h.hash_eq (.chainStep layer tree kp i j) ⟨hkp, hi, by omega⟩ _

theorem Agree.wotsPk_eq (sig : ℕ → Hash) (m : Hash) :
    wotsPk sha256 p pkSeed (wotsAdrs layer tree kp) (wotsEnd sha256 p pkSeed (wotsAdrs layer tree kp) sig m) =
      wotsPk sha256' p pkSeed (wotsAdrs layer tree kp) (wotsEnd sha256' p pkSeed (wotsAdrs layer tree kp) sig m) := by
  have hends : ∀ i ∈ List.range p.len, (wotsEnd sha256 p pkSeed (wotsAdrs layer tree kp) sig m i).bytes =
      (wotsEnd sha256' p pkSeed (wotsAdrs layer tree kp) sig m i).bytes := by
    intro i hi
    have hdigit := wotsDigit_le (p := p) m i
    exact congrArg Block.bytes (h.chain_eq hkp (List.mem_range.mp hi) (by omega) (sig i))
  rw [wotsPk_adrs, wotsPk_adrs, List.map_congr_left hends]
  exact h.hash_eq (.wotsPk layer tree kp) hkp _

theorem Agree.xmssRoot_eq (sig auth : ℕ → Hash) (m : Hash) :
    xmssRoot sha256 p pkSeed layer tree kp sig auth m = xmssRoot sha256' p pkSeed layer tree kp sig auth m := by
  rw [xmssRoot, xmssRoot, h.wotsPk_eq hkp]
  refine climb_congr_node _ _ fun j hj left right => ?_
  rw [xmssNode_adrs sha256 p, xmssNode_adrs sha256' p]
  exact h.hash_eq (.xmssNode layer tree (j + 1) (kp >>> (j + 1)))
    ⟨hkp.1, hkp.2.1, Nat.le_add_left 1 j, hj, ancestor_lt hkp.2.2 hj⟩ _

end keyPair

section fors

variable {t l : ℕ} (hkp : Position.KeyPairInRange p 0 t l)
include hkp

theorem Agree.forsRoot_eq {i idx : ℕ} (hi : i < p.k) (hidx : idx < 2 ^ p.a) (sk : Hash) (auth : ℕ → Hash) :
    forsRoot sha256 p pkSeed t l i idx sk auth = forsRoot sha256' p pkSeed t l i idx sk auth := by
  have hleaf : forsLeaf sha256 pkSeed t l (i <<< p.a + idx) sk = forsLeaf sha256' pkSeed t l (i <<< p.a + idx) sk := by
    rw [forsLeaf_adrs, forsLeaf_adrs]
    exact h.hash_eq (.forsNode t l i 0 idx) ⟨hkp, hi, Nat.zero_le _, hidx⟩ _
  rw [forsRoot, forsRoot, hleaf]
  refine climb_congr_node _ _ fun j hj left right => ?_
  rw [forsNode_adrs, forsNode_adrs]
  exact h.hash_eq (.forsNode t l i (j + 1) (idx >>> (j + 1))) ⟨hkp, hi, hj, ancestor_lt hidx hj⟩ _

theorem Agree.forsPk_eq {root root' : ℕ → Hash} (hroot : ∀ i < p.k, root i = root' i) :
    forsPk sha256 p pkSeed t l root = forsPk sha256' p pkSeed t l root' := by
  have hroots : ∀ i ∈ List.range p.k, (root i).bytes = (root' i).bytes := fun i hi => by
    rw [hroot i (List.mem_range.mp hi)]
  rw [forsPk_adrs, forsPk_adrs, List.map_congr_left hroots]
  exact h.hash_eq (.forsRoots t l) hkp _

end fors

theorem Agree.hypertreeNode_eq {t l : ℕ} (ht : t < 2 ^ (p.hp * (p.d - 1))) (hl : l < 2 ^ p.hp) (parts : SigParts) (m : Hash)
    {layer : ℕ} (hlayer : layer ≤ p.d) :
    hypertreeNode sha256 p pkSeed parts t l m layer = hypertreeNode sha256' p pkSeed parts t l m layer := by
  induction layer with
  | zero => rfl
  | succ layer ih =>
    rw [hypertreeNode, hypertreeNode, ih (Nat.le_of_succ_le hlayer)]
    exact h.xmssRoot_eq (Position.keyPairInRange_at ht hl hlayer) _ _ _

end values

/-- **A verification depends on what is hashed at positions in range**, and on the digest of its message. -/
theorem Agree.trace_eq {pk : PublicKey} (h : Agree p pk.seed sha256 sha256') (hp : p.Facts) (parts : SigParts)
    (message : Bytes) : trace sha256 p pk parts message = trace sha256' p pk parts message := by
  have hdigest : messageDigest sha256 p parts.randomness pk message = messageDigest sha256' p parts.randomness pk message := by
    have hmsg := h.digest_eq parts.randomness pk (contextPrefixed message)
    rw [hMsg_eq sha256 hp, hMsg_eq sha256' hp] at hmsg
    exact Option.some.inj hmsg
  rw [trace, trace, hdigest]
  generalize messageDigest sha256' p parts.randomness pk message = digest
  have ht := treeIndex_lt hp digest
  have hl := leafIndex_lt p digest
  have hkp : Position.KeyPairInRange p 0 (treeIndex p digest) (leafIndex p digest) :=
    Position.keyPairInRange_at ht hl hp.d_pos
  have hroot : ∀ i < p.k, forsRoot sha256 p pk.seed (treeIndex p digest) (leafIndex p digest) i
        (forsIndex p (digest.take p.mdLen) i) (parts.sk i) (parts.forsAuth i) =
      forsRoot sha256' p pk.seed (treeIndex p digest) (leafIndex p digest) i (forsIndex p (digest.take p.mdLen) i)
        (parts.sk i) (parts.forsAuth i) :=
    fun i hi => h.forsRoot_eq hkp hi (bitField_lt _ _ _) _ _
  have hpk := h.forsPk_eq hkp hroot
  have hnode {j : ℕ} (hj : j ≤ p.d) (m : Hash) := h.hypertreeNode_eq ht hl parts m hj
  simp only [hpk, Trace.mk.injEq, true_and, hnode le_rfl, and_true]
  refine ⟨List.map_congr_left fun i hi => hroot i (List.mem_range.mp hi), List.map_congr_left fun j hj => ?_,
    List.map_congr_left fun j hj => ?_⟩
  · rw [hnode (List.mem_range.mp hj).le]
  · rw [hnode (Nat.le_of_lt_succ (List.mem_range.mp hj))]

/-- **Hashes are kept apart by their positions.** For every set, no two positions in range have the
same compressed address. The signer hashes at these positions: a hasher that hashes there, and on messages of
up to `p.len` hash values, generates and signs as the hash itself. And the verifier hashes there, beside the digest
of the message: two hash functions that agree there verify every signature alike, in all intermediate values. -/
theorem positions_separate (hset : p ∈ Params.ALL) :
    (∀ x y : Position, x.InRange p → y.InRange p → (x.adrs p).asBytes = (y.adrs p).asBytes → x = y) ∧
    (∀ (sha256 : Bytes → Block 32) (seeds : SecretSeeds) (hasher : Hasher Option),
      Hashes sha256 p seeds.pkSeed hasher →
        Signer.generate hasher p seeds = SigningKey.generate sha256 p seeds ∧
        ∀ key : SigningKey, key.Reachable sha256 p seeds → ∀ message : Bytes,
          Signer.sign sha256 hasher key message = key.sign sha256 message) ∧
    ∀ (sha256 sha256' : Bytes → Block 32) (pk : PublicKey), Agree p pk.seed sha256 sha256' →
      ∀ (bytes : Bytes) (sig : Signature), Signature.fromBytes p bytes = some (.ok sig) → ∀ message : Bytes,
        verifyTraced sha256 pk sig message = verifyTraced sha256' pk sig message := by
  have hp := Params.facts p hset
  refine ⟨fun x y hx hy => Position.adrs_inj hset hx hy, fun sha256 seeds hasher h => ⟨?_, fun key hkey message => ?_⟩,
    fun sha256 sha256' pk h bytes sig hparse message => ?_⟩
  · exact (generate_eq sha256 h hp).trans (generate_eq sha256 (hashes_plain sha256 p _) hp).symm
  · have hsound := hkey.sound sha256 hp
    exact (sign_eq sha256 h hp hsound message).trans (sign_eq sha256 hsound.hashes_plain hp hsound message).symm
  · have hlen : bytes.length = p.sigLen := by
      by_contra hne
      rw [fromBytes_error hne] at hparse
      cases hparse
    obtain ⟨rfl, hhas⟩ := has_of_fromBytes hp hlen hparse
    rw [verifyTraced_eq sha256 hp hhas, verifyTraced_eq sha256' hp hhas, h.trace_eq hp]

/-- A hasher that panics at addresses of other types. -/
def ofTypes (pkSeed : Hash) : Hasher Option := fun adrs parts =>
  if adrs.type ≤ FORS_PRF then plain (fun _ => Block.zero 32) pkSeed adrs parts else none

theorem hashes_ofTypes (pkSeed : Hash) : Hashes (fun _ => Block.zero 32) p pkSeed (ofTypes pkSeed) := by
  intro x _ parts _
  have htype : (x.adrs p).type ≤ FORS_PRF := by cases x <;> exact Nat.le_of_ble_eq_true rfl
  exact if_pos htype

/-- A hash function that hashes only the empty message to something else than zeros. -/
def exceptEmpty (msg : Bytes) : Block 32 := if msg = [] then .ofBytes (List.replicate 32 1) rfl else Block.zero 32

theorem agree_exceptEmpty (pkSeed : Hash) : Agree p pkSeed (fun _ => Block.zero 32) exceptEmpty := by
  have hlong (v : Hash) (rest : Bytes) : exceptEmpty (v.bytes ++ rest) = Block.zero 32 := by
    refine if_neg fun hnil => ?_
    have hlen := congrArg List.length hnil
    rw [List.length_append, Block.length_bytes, N, List.length_nil] at hlen
    omega
  refine ⟨fun x _ parts => ?_, fun r pk message => ?_⟩
  · simp only [hash, hashPad, List.append_assoc, hlong]
  · simp only [hMsg, List.append_assoc, hlong]

/-- Two FORS trees of one key pair; a hasher that panics elsewhere; and two hash functions that differ
elsewhere, which verify a signature of zeros alike. -/
theorem positions_separate_128s :
    ((Position.forsNode 5 3 1 2 7).adrs .SHA2_128S).asBytes ≠ ((Position.forsNode 5 3 2 2 7).adrs .SHA2_128S).asBytes ∧
    Signer.generate (ofTypes default) .SHA2_128S ⟨default, default, default⟩ =
      SigningKey.generate (fun _ => Block.zero 32) .SHA2_128S ⟨default, default, default⟩ ∧
    ∃ sig, Signature.fromBytes .SHA2_128S (zeros Params.SHA2_128S.sigLen) = some (.ok sig) ∧
      verifyTraced (fun _ => Block.zero 32) ⟨default, default⟩ sig [7] =
        verifyTraced exceptEmpty ⟨default, default⟩ sig [7] := by
  have hmem : Params.SHA2_128S ∈ Params.ALL := by decide
  obtain ⟨hinj, hsigner, hverifier⟩ := positions_separate hmem
  have hparse := fromBytes_eq (Params.facts _ hmem) (length_zeros Params.SHA2_128S.sigLen)
  refine ⟨fun hsame => ?_, (hsigner _ ⟨default, default, default⟩ _ (hashes_ofTypes _)).1, _, hparse,
    hverifier _ _ ⟨default, default⟩ (agree_exceptEmpty _) _ _ hparse [7]⟩
  have hx : (Position.forsNode 5 3 1 2 7).InRange Params.SHA2_128S :=
    ⟨⟨by decide, by decide, by decide⟩, by decide, by decide, by decide⟩
  have hy : (Position.forsNode 5 3 2 2 7).InRange Params.SHA2_128S :=
    ⟨⟨by decide, by decide, by decide⟩, by decide, by decide, by decide⟩
  exact absurd (hinj _ _ hx hy hsame) (by decide)

end KaspaPqv.SlhScript
