import KaspaPqv.LmsWallet.Journal
import KaspaPqv.LmsWallet.Vault
import KaspaPqv.VaultCore.Fee

/-!
# Building a spend

`buildSpend` checks a spend, has its digest signed through `signOnce`, and puts together
the script that unlocks the coin. The record in the journal is that of the vault it is
given; the signature is made by the signing key it is given.

That a one-time key signs once does not hold for all arguments, as nothing ties the two to
each other. It does hold in every run in which calls with one key at one leaf are all
made for vaults of one identifier.

## What is proved

* `buildSpend_cases` — all that a call can do to the journal and the key.
* `oneDigest_of_sameVault` — in every such run a one-time key signs one digest.
* `not_oneDigest_uses` — and in a run of two vaults and one key, it signs two.
-/

namespace KaspaPqv.LmsWallet

open KaspaPqv.Lib KaspaPqv.Script KaspaPqv.VaultCore KaspaPqv.LmsScript

/-! ### The witness -/

/-- The length of a signature: its leaf, the one-time signature with its type, the type of
the key, and the path. -/
def signatureLen (P : LmsParams) : ℕ := 4 + (4 + 32 + P.p * 32) + 4 + P.h * 32

/-- Pieces of `n` bytes; what is left over is dropped. -/
def chunksExact (n : ℕ) (bs : Bytes) : List Bytes :=
  (List.range (bs.length / n)).map fun i => slice bs (i * n) ((i + 1) * n)

/-- The witness of a signature: `path[h-1] … path[0], y[p-1] … y[0], C`. -/
def witnessPushes (signature : Bytes) : Except String (List Instr) := do
  ensure (signature.length = signatureLen vaultParams) "unexpected signature length"
  let c := slice signature 8 40
  let yEnd := 40 + vaultParams.p * 32
  let y := chunksExact 32 (slice signature 40 yEnd)
  let path := chunksExact 32 (signature.drop (yEnd + 4))
  pure (path.reverse.map .push ++ y.reverse.map .push ++ [.push c])

/-! ### The signing key -/

/-- What the wallet uses of a signing key, whose state is a `K`. -/
structure LmsSigningKey (K : Type) where
  /-- The key identifier `I`. -/
  id : K → Block 16
  leafIndex : K → UInt32
  /-- Sign with the next one-time key; `none` if there is none. -/
  signInternal : K → Block 32 → Option Bytes × K

/-- One use of a one-time key. -/
structure Use where
  id : Block 16
  leaf : UInt32
  digest : Block 32
  deriving DecidableEq

/-- The same key, keeping a list of its uses. -/
def LmsSigningKey.logged {K : Type} (key : LmsSigningKey K) : LmsSigningKey (K × List Use) where
  id s := key.id s.1
  leafIndex s := key.leafIndex s.1
  signInternal s digest :=
    match key.signInternal s.1 digest with
    | (some signature, k) => (some signature, k, ⟨key.id s.1, key.leafIndex s.1, digest⟩ :: s.2)
    | (none, k) => (none, k, s.2)

/-! ### The spend -/

/-- The coin a leaf is spending. -/
structure VaultUtxo where
  txid : Block 32
  index : UInt32
  amount : UInt64
  /-- Whose address holds it. -/
  leaf : UInt32

/-- A signed spend. -/
structure SignedSpend where
  digest : Block 32
  signatureScript : Bytes
  redeemScript : Bytes
  reusedStoredSignature : Bool
  budget : LeafBudget
  changeTarget : ChangeTarget
  preflight : PreflightReport
  deriving DecidableEq

section

variable {Params : Type} (kaspa : Kaspa Params)

/-- The signature script of a spend, of its full size but filled with zeros. -/
def placeholderSignatureScript (vault : Vault) (leaf : UInt32) : Except String Bytes := do
  let redeemScript ← vault.redeemScript kaspa leaf
  let witness ← witnessPushes (zeros (signatureLen vaultParams))
  (kaspa.payToScriptHashSignatureScript redeemScript (kaspa.build witness)).mapError fun e =>
    s!"signature script assembly failed: {e}"

/-- The shape of a spend. -/
def shape (params : Params) (vault : Vault) (utxo : VaultUtxo) (txVersion : UInt16) (outputs : List OutputView)
    (budgetUnits : UInt16) : Except String (SpendShape Params) := do
  let signatureScript ← placeholderSignatureScript kaspa vault utxo.leaf
  let redeemScript ← vault.redeemScript kaspa utxo.leaf
  pure {
    params := params
    signatureScript := signatureScript
    utxoScriptPubkey := kaspa.payToScriptHashScript redeemScript
    utxoAmount := utxo.amount
    outpointTxid := utxo.txid
    outpointIndex := utxo.index
    txVersion := txVersion
    outputs := outputs
    expectedOutputCount := canonicalOutputCount
    budgetUnits := budgetUnits }

/-- Evaluate a spend without signing it. -/
def preflight (params : Params) (vault : Vault) (utxo : VaultUtxo) (txVersion : UInt16) (outputs : List OutputView)
    (budgetUnits : UInt16) : Except String PreflightReport := do
  let shape ← shape kaspa params vault utxo txVersion outputs budgetUnits
  (enforce kaspa shape).mapError fun e =>
    s!"{e}\n\nRaising the fee AFTER signing is impossible: the change would alter " ++
      "the binding digest and the one-time key cannot sign twice. Fix it now."

/-- The signature over the digest, if the key is at the leaf of the coin. -/
def signAt {K : Type} (key : LmsSigningKey K) (leaf : UInt32) (digest : Block 32) (signingKey : K) :
    Except String Bytes × K :=
  if key.leafIndex signingKey = leaf then
    match key.signInternal signingKey digest with
    | (some signature, k) => (.ok signature, k)
    | (none, k) => (.error "signing key is exhausted", k)
  else
    (.error s!"signing key is at leaf {key.leafIndex signingKey} but the UTXO is at leaf {leaf}", signingKey)

/-- The arguments of a call of `buildSpend`, the journal apart. -/
structure SpendCall (Params K : Type) where
  vault : Vault
  signingKey : K
  utxo : VaultUtxo
  keyIndex : UInt32
  txVersion : UInt16
  outputs : List OutputView
  params : Params
  budgetUnits : UInt16

/-- What a call computes before it signs: the report, and the digest. -/
def checkSpend {K : Type} (sha256 : Bytes → Block 32) (call : SpendCall Params K) :
    Except String (PreflightReport × Block 32) := do
  ensure (call.outputs.length = canonicalOutputCount)
    (s!"a vault spend must have exactly {canonicalOutputCount} outputs " ++
      "(destination and change); the redeem script is unrolled to that shape " ++
      "and a different count is a different address")
  ensure (call.utxo.leaf < call.vault.leafCount) s!"leaf {call.utxo.leaf} out of range"
  let report ← preflight kaspa call.params call.vault call.utxo call.txVersion call.outputs call.budgetUnits
  let digest ← bindingDigest sha256 ⟨call.txVersion, call.utxo.txid, call.utxo.index, call.outputs⟩
  pure (report, digest)

/-- What it puts together after. -/
def assembleSpend {K : Type} (call : SpendCall Params K) (report : PreflightReport) (digest : Block 32)
    (outcome : SignOutcome) : Except String SignedSpend := do
  let redeemScript ← call.vault.redeemScript kaspa call.utxo.leaf
  let witness ← witnessPushes outcome.record.signature
  let signatureScript ← (kaspa.payToScriptHashSignatureScript redeemScript (kaspa.build witness)).mapError fun e =>
    s!"signature script assembly failed: {e}"
  pure {
    digest := digest
    signatureScript := signatureScript
    redeemScript := redeemScript
    reusedStoredSignature := match outcome with
      | .signed _ => false
      | .alreadySigned _ => true
    budget := call.vault.budgetAfter call.utxo.leaf
    changeTarget := call.vault.changeTarget call.keyIndex call.utxo.leaf
    preflight := report }

/-- Build and sign a canonical vault spend. -/
def buildSpend {J K : Type} (sha256 : Bytes → Block 32) (S : SpendJournal J) (key : LmsSigningKey K) (journal : J)
    (call : SpendCall Params K) : Except String SignedSpend × J × K :=
  match checkSpend kaspa sha256 call with
  | .error e => (.error e, journal, call.signingKey)
  | .ok (report, digest) =>
    match signOnce S journal ⟨call.vault.publicKey.id, call.utxo.leaf⟩ digest (signAt key call.utxo.leaf digest)
      call.signingKey with
    | (.error e, journal, k) => (.error e, journal, k)
    | (.ok outcome, journal, k) => (assembleSpend kaspa call report digest outcome, journal, k)

end

/-! ### What a call does -/

section

variable {Params J K : Type} (kaspa : Kaspa Params) (sha256 : Bytes → Block 32) {S : SpendJournal J}
  (key : LmsSigningKey K)

/-- A key that signs is at the leaf, and the use is noted. -/
theorem signAt_logged (leaf : UInt32) (digest : Block 32) (k : K) (uses : List Use) :
    (∃ e k', signAt key.logged leaf digest (k, uses) = (.error e, k', uses)) ∨
    ∃ signature k', signAt key.logged leaf digest (k, uses) =
      (.ok signature, k', ⟨key.id k, leaf, digest⟩ :: uses) := by
  unfold signAt
  by_cases hleaf : key.logged.leafIndex (k, uses) = leaf
  · rw [if_pos hleaf]
    subst hleaf
    rcases hsign : key.signInternal k digest with ⟨_ | signature, k'⟩
    · exact .inl ⟨"signing key is exhausted", k', by simp only [LmsSigningKey.logged, hsign]⟩
    · exact .inr ⟨signature, k', by simp only [LmsSigningKey.logged, hsign]⟩
  · exact .inl ⟨_, k, if_neg hleaf⟩

/-- One call, the key keeping the list of its uses. -/
def spendStep (S : SpendJournal J) (s : J × List Use) (call : SpendCall Params K) : J × List Use :=
  let (_, journal, _, uses) :=
    buildSpend kaspa sha256 S key.logged s.1 { call with signingKey := (call.signingKey, s.2) }
  (journal, uses)

/-- **All that a call can do**: leave the journal and the uses alone, or sign with a leaf
that has no record, and put one. -/
theorem spendStep_cases (hS : S.Lawful) (journal : J) (uses : List Use) (call : SpendCall Params K) :
    spendStep kaspa sha256 key S (journal, uses) call = (journal, uses) ∨
    ∃ (r : SpendRecord) (journal' : J), r.leaf = ⟨call.vault.publicKey.id, call.utxo.leaf⟩ ∧
      S.get journal r.leaf = none ∧ S.put journal r = (.ok (), journal') ∧
      spendStep kaspa sha256 key S (journal, uses) call =
        (journal', ⟨key.id call.signingKey, call.utxo.leaf, r.digest⟩ :: uses) := by
  simp only [spendStep, buildSpend]
  rcases checkSpend kaspa sha256 { call with signingKey := (call.signingKey, uses) } with e | ⟨report, digest⟩
  · exact .inl rfl
  rcases signOnce_cases S journal ⟨call.vault.publicKey.id, call.utxo.leaf⟩ digest
      (signAt key.logged call.utxo.leaf digest) (call.signingKey, uses) with
    ⟨r, -, -, h⟩ | ⟨r, e, -, -, h⟩ | ⟨-, e, key', hsign, h⟩ | ⟨hnone, signature, key', hsign, h⟩
  · exact .inl (by simp only [h])
  · exact .inl (by simp only [h])
  · rcases signAt_logged key call.utxo.leaf digest call.signingKey uses with ⟨e', k', h'⟩ | ⟨s', k', h'⟩
    · cases h'.symm.trans hsign
      exact .inl (by simp only [h])
    · cases h'.symm.trans hsign
  · rcases signAt_logged key call.utxo.leaf digest call.signingKey uses with ⟨e', k', h'⟩ | ⟨s', k', h'⟩
    · cases h'.symm.trans hsign
    · cases h'.symm.trans hsign
      rcases h with ⟨e, journal', hput, -⟩ | ⟨journal', hput, h⟩
      · obtain ⟨_, hok⟩ := hS.put_ok journal ⟨⟨call.vault.publicKey.id, call.utxo.leaf⟩, digest, signature⟩
        cases hok.symm.trans hput
      · exact .inr ⟨_, journal', rfl, hnone, hput, by simp only [h]⟩

/-- A run: some calls one after the other, on one journal. -/
def spendRun (S : SpendJournal J) (journal : J) (calls : List (SpendCall Params K)) : J × List Use :=
  calls.foldl (spendStep kaspa sha256 key S) (journal, [])

/-- No one-time key was used for two digests. -/
def OneDigest (uses : List Use) : Prop :=
  ∀ u ∈ uses, ∀ u' ∈ uses, u.id = u'.id → u.leaf = u'.leaf → u.digest = u'.digest

/-- Calls with one key at one leaf are made for vaults of one identifier. -/
def SameVault (calls : List (SpendCall Params K)) : Prop :=
  ∀ c ∈ calls, ∀ c' ∈ calls, key.id c.signingKey = key.id c'.signingKey → c.utxo.leaf = c'.utxo.leaf →
    c.vault.publicKey.id = c'.vault.publicKey.id

/-- Every use has a record, under the vault of a call with that key and leaf. -/
def Recorded (S : SpendJournal J) (calls : List (SpendCall Params K)) (s : J × List Use) : Prop :=
  ∀ u ∈ s.2, ∃ c ∈ calls, key.id c.signingKey = u.id ∧ c.utxo.leaf = u.leaf ∧
    ∃ r, S.get s.1 ⟨c.vault.publicKey.id, u.leaf⟩ = some r

variable {key} {calls : List (SpendCall Params K)} {call : SpendCall Params K} {s : J × List Use}

/-- **A call for the same vault keeps the records**, and uses no key a second time. -/
theorem Recorded.step (hS : S.Lawful) (h : Recorded key S calls s) (hone : OneDigest s.2)
    (hsame : SameVault key (calls ++ [call])) :
    Recorded key S (calls ++ [call]) (spendStep kaspa sha256 key S s call) ∧
      OneDigest (spendStep kaspa sha256 key S s call).2 := by
  obtain ⟨journal, uses⟩ := s
  rcases spendStep_cases kaspa sha256 key hS journal uses call with heq | ⟨r, journal', hleaf, hnone, hput, heq⟩
  · rw [heq]
    refine ⟨fun u hu => ?_, hone⟩
    obtain ⟨c, hc, hrest⟩ := h u hu
    exact ⟨c, List.mem_append_left _ hc, hrest⟩
  · have hget := hS.get_put journal r journal'
    have hnew : ∀ u ∈ uses, u.id = key.id call.signingKey → u.leaf ≠ call.utxo.leaf := by
      intro u hu hid hul
      obtain ⟨c, hc, hcid, hcleaf, r', hr'⟩ := h u hu
      have hvault := hsame c (List.mem_append_left _ hc) call (by simp) (hcid.trans hid) (hcleaf.trans hul)
      rw [hvault, hul, ← hleaf, hnone] at hr'
      cases hr'
    rw [heq]
    refine ⟨?_, ?_⟩
    · intro u hu
      rcases List.mem_cons.mp hu with rfl | hu
      · refine ⟨call, by simp, rfl, rfl, r, ?_⟩
        rw [hget _ hput, if_pos hleaf.symm]
      · obtain ⟨c, hc, hcid, hcleaf, r', hr'⟩ := h u hu
        refine ⟨c, List.mem_append_left _ hc, hcid, hcleaf, ?_⟩
        rw [hget _ hput]
        split_ifs
        · exact ⟨r, rfl⟩
        · exact ⟨r', hr'⟩
    · intro u hu u' hu' hid hul
      rcases List.mem_cons.mp hu with rfl | hu <;> rcases List.mem_cons.mp hu' with rfl | hu'
      · rfl
      · exact absurd hul.symm (hnew u' hu' hid.symm)
      · exact absurd hul (hnew u hu hid)
      · exact hone u hu u' hu' hid hul

theorem recorded_spendRun (hS : S.Lawful) (journal : J) (hsame : SameVault key calls) :
    Recorded key S calls (spendRun kaspa sha256 key S journal calls) ∧
      OneDigest (spendRun kaspa sha256 key S journal calls).2 := by
  induction calls using List.reverseRecOn with
  | nil => exact ⟨(fun _ hu => nomatch hu), fun _ hu => nomatch hu⟩
  | append_singleton calls call ih =>
    obtain ⟨hrec, hone⟩ := ih fun c hc c' hc' =>
      hsame c (List.mem_append_left _ hc) c' (List.mem_append_left _ hc')
    rw [spendRun, List.foldl_append]
    exact hrec.step kaspa sha256 hS hone hsame

/-- **A one-time key signs one digest** in every run in which calls with one key at one
leaf are made for vaults of one identifier. -/
theorem oneDigest_of_sameVault (hS : S.Lawful) (journal : J) (hsame : SameVault key calls) :
    OneDigest (spendRun kaspa sha256 key S journal calls).2 :=
  (recorded_spendRun kaspa sha256 hS journal hsame).2

end

/-! ### One key and two vaults -/

/-- A node library with the sizes and the masses of a spend of two outputs. -/
def testKaspa : Kaspa Unit := { scriptHashKaspa with storageMass := fun _ _ _ => some 11222 }

/-- A key that is only its identifier and its leaf. -/
def testKey : LmsSigningKey (Block 16 × UInt32) where
  id k := k.1
  leafIndex k := k.2
  signInternal k _ := (some (zeros (signatureLen vaultParams)), k.1, k.2 + 1)

/-- A hash that keeps the last bytes of the amount of the destination. -/
def testHash (bs : Bytes) : Block 32 :=
  if h : (slice bs 39 71).length = 32 then .ofBytes _ h else Block.zero 32

/-- A call for the vault of an identifier, with the key of the same or another one. -/
def spendOf (vault key : UInt8) (amount : UInt64) : SpendCall Unit (Block 16 × UInt32) where
  vault := ⟨⟨blockOf 16 vault, Block.zero 32⟩⟩
  signingKey := (blockOf 16 key, 0)
  utxo := ⟨blockOf 32 vault, 0, 1000000000, 0⟩
  keyIndex := 0
  txVersion := 1
  outputs := [⟨amount, 0, scriptHashScript (List.replicate 32 0xaa)⟩,
    ⟨90000000, 0, scriptHashScript (List.replicate 32 0xbb)⟩]
  params := ()
  budgetUnits := 60

theorem oneDigest_two_vaults :
    (spendRun testKaspa testHash testKey memoryJournal (fun _ => none)
        [spendOf 1 1 900000000, spendOf 1 1 800000000, spendOf 2 2 900000000]).2.length = 2 ∧
      OneDigest (spendRun testKaspa testHash testKey memoryJournal (fun _ => none)
        [spendOf 1 1 900000000, spendOf 1 1 800000000, spendOf 2 2 900000000]).2 := by
  refine ⟨by decide +kernel, oneDigest_of_sameVault testKaspa testHash lawful_memoryJournal _ ?_⟩
  unfold SameVault
  decide +kernel

/-- One key signs for two vaults. -/
theorem uses_two_vaults : (spendRun testKaspa testHash testKey memoryJournal (fun _ => none)
      [spendOf 1 1 900000000, spendOf 2 1 800000000]).2.map (fun u => (u.id, u.leaf)) =
        [(blockOf 16 1, 0), (blockOf 16 1, 0)] ∧
    ((spendRun testKaspa testHash testKey memoryJournal (fun _ => none)
      [spendOf 1 1 900000000, spendOf 2 1 800000000]).2.map Use.digest).Nodup := by
  decide +kernel

/-- **Not in every run.** -/
theorem not_oneDigest_uses : ¬∀ (kaspa : Kaspa Unit) (sha256 : Bytes → Block 32)
    (key : LmsSigningKey (Block 16 × UInt32)) (calls : List (SpendCall Unit (Block 16 × UInt32))),
    OneDigest (spendRun kaspa sha256 key memoryJournal (fun _ => none) calls).2 := by
  intro h
  have hone := h testKaspa testHash testKey [spendOf 1 1 900000000, spendOf 2 1 800000000]
  obtain ⟨hkeys, hdigests⟩ := uses_two_vaults
  generalize (spendRun testKaspa testHash testKey memoryJournal (fun _ => none)
    [spendOf 1 1 900000000, spendOf 2 1 800000000]).2 = uses at hone hkeys hdigests
  obtain ⟨u, u', rfl⟩ := List.length_eq_two.mp (by simpa using congrArg List.length hkeys)
  simp only [List.map_cons, List.map_nil, List.cons.injEq, Prod.mk.injEq, and_true] at hkeys
  obtain ⟨⟨hid, hleaf⟩, hid', hleaf'⟩ := hkeys
  have hdigest := hone u (by simp) u' (by simp) (hid.trans hid'.symm) (hleaf.trans hleaf'.symm)
  simp [hdigest] at hdigests

end KaspaPqv.LmsWallet
