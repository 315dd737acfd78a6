import KaspaPqv.LmsWallet.Spend
import KaspaPqv.VaultCore.Fee

/-!
# What comes before signing

Signing cannot be taken back. So a spend is checked in full before the key is asked to sign,
and nothing that comes after may fail for a spend that was signed.

The amounts are added up in 64 bits, which could wrap. A total that did wrap is not signed
either: the digest takes no amount of `2 ^ 63` or more, and two smaller ones do not wrap.

## What is proved

* `checkSpend_checked` — what passes the checks has all the properties of `Checked`.
* `buildSpend_guarded` — the key is asked to sign only for such a spend; and a call that
  fails in any other way than by its `put` leaves the journal and the key's leaf as they were.
-/

namespace KaspaPqv.LmsWallet

open KaspaPqv.Lib KaspaPqv.Script KaspaPqv.VaultCore KaspaPqv.LmsScript

variable {Params J K : Type} (kaspa : Kaspa Params)

/-! ### What a spend is checked for -/

/-- An output with its script public key. -/
def outputOf (o : OutputView) : TransactionOutput := ⟨o.amount, ⟨o.spkVersion, o.script⟩⟩

/-- The mass the fee is reckoned on. -/
def feeMass (s : SpendShape Params) : UInt64 :=
  let nonContextual := kaspa.nonContextualMasses s.params s.tx
  max nonContextual.computeMass (kaspa.normalizedTransient s.params nonContextual)

/-- The unsigned shape pays the relay floor and fits into a block. -/
def RelaysAndFits (s : SpendShape Params) : Prop :=
  (minimumRelayFee (feeMass kaspa s)).toNat ≤ s.utxoAmount.toNat - outputsTotal s.outputs ∧
    ∃ storage, kaspa.storageMass s.params s.tx [s.utxoEntry] = some storage ∧
      kaspa.normalizedMax s.params (kaspa.nonContextualMasses s.params s.tx) storage ≤ kaspa.computeLimit s.params

/-- All that a spend has to be before it may be signed. -/
structure Checked (call : SpendCall Params K) : Prop where
  two_outputs : call.outputs.length = 2
  leaf_lt : call.utxo.leaf < call.vault.leafCount
  no_dust : ∀ o ∈ call.outputs, dustThreshold ≤ o.amount
  relayable : ∀ o ∈ call.outputs, Relayable kaspa (outputOf o)
  within : outputsTotal call.outputs ≤ call.utxo.amount.toNat
  shape_ok : ∃ s, shape kaspa call.params call.vault call.utxo call.txVersion call.outputs call.budgetUnits = .ok s ∧
    RelaysAndFits kaspa s

/-- Two amounts that fit the digest add up without wrapping. -/
theorem outputsTotal_lt {outputs : List OutputView} (hlen : outputs.length = 2) (hfits : ∀ o ∈ outputs, o.Fits) :
    outputsTotal outputs < 2 ^ 64 := by
  obtain ⟨a, b, rfl⟩ := List.length_eq_two.mp hlen
  have ha := (hfits a (by simp)).amount
  have hb := (hfits b (by simp)).amount
  simp only [outputsTotal, List.map_cons, List.map_nil, List.sum_cons, List.sum_nil]
  omega

/-- The shape that is sized is of the spend's own coin and outputs. -/
theorem shape_fields {params : Params} {vault : Vault} {utxo : VaultUtxo} {txVersion : UInt16}
    {outputs : List OutputView} {budgetUnits : UInt16} {s : SpendShape Params}
    (h : shape kaspa params vault utxo txVersion outputs budgetUnits = .ok s) :
    s.outputs = outputs ∧ s.utxoAmount = utxo.amount := by
  unfold shape at h
  obtain ⟨signatureScript, -, h⟩ := bind_eq_ok.mp h
  obtain ⟨redeemScript, -, h⟩ := bind_eq_ok.mp h
  cases h
  exact ⟨rfl, rfl⟩

/-- A spend that passes the preflight, whose amounts fit the digest. -/
theorem relaysAndFits_of_enforce {s : SpendShape Params} {r : PreflightReport} (hlen : s.outputs.length = 2)
    (hfits : ∀ o ∈ s.outputs, o.Fits) (h : enforce kaspa s = .ok r) :
    outputsTotal s.outputs ≤ s.utxoAmount.toNat ∧ RelaysAndFits kaspa s := by
  obtain ⟨hest, hfee, hmass⟩ := enforce_eq_ok.mp h
  obtain ⟨-, htotal, -, -, storage, hstorage, rfl⟩ := estimate_eq_ok.mp hest
  have hsum := toNat_totalOut_of_lt (outputsTotal_lt hlen hfits)
  have hle := UInt64.le_iff_toNat_le.mp htotal
  rw [hsum] at hle
  refine ⟨hle, ?_, storage, hstorage, hmass⟩
  have hfeeNat := UInt64.le_iff_toNat_le.mp hfee
  have hsub : (s.utxoAmount - totalOut s.outputs).toNat = s.utxoAmount.toNat - outputsTotal s.outputs := by
    rw [UInt64.toNat_sub_of_le _ _ htotal, hsum]
  rw [← hsub]
  exact hfeeNat

/-- **What passes the checks.** -/
theorem checkSpend_checked {sha256 : Bytes → Block 32} {call : SpendCall Params K} {report : PreflightReport}
    {digest : Block 32} (h : checkSpend kaspa sha256 call = .ok (report, digest)) : Checked kaspa call := by
  rw [checkSpend, ensure_bind_eq_ok, ensure_bind_eq_ok, bind_eq_ok] at h
  obtain ⟨hlen, hleaf, r, hpreflight, h⟩ := h
  obtain ⟨d, hdigest, -⟩ := bind_eq_ok.mp h
  obtain ⟨pre, hpre, -⟩ := map_eq_ok.mp hdigest
  obtain ⟨hfits, -⟩ := bindingPreimage_eq_ok.mp hpre
  obtain ⟨s, hs, henforce⟩ := bind_eq_ok.mp hpreflight
  obtain ⟨houtputs, hamount⟩ := shape_fields kaspa hs
  have hr := mapError_eq_ok.mp henforce
  obtain ⟨-, -, hdust, hrelay, -⟩ := estimate_eq_ok.mp (enforce_eq_ok.mp hr).1
  obtain ⟨hwithin, hshape⟩ := relaysAndFits_of_enforce kaspa (by rw [houtputs]; exact hlen)
    (by rw [houtputs]; exact hfits.outputs) hr
  rw [houtputs] at hdust hrelay hwithin
  refine ⟨hlen, hleaf, hdust, ?_, ?_, s, hs, hshape⟩
  · intro o ho
    exact hrelay (outputOf o) (List.mem_map_of_mem ho)
  · rwa [hamount] at hwithin

/-! ### Asking the key -/

/-- The same key, keeping a list of the digests it was asked to sign, also in vain. -/
def LmsSigningKey.asked (key : LmsSigningKey K) : LmsSigningKey (K × List (Block 32)) where
  id s := key.id s.1
  leafIndex s := key.leafIndex s.1
  signInternal s digest := ((key.signInternal s.1 digest).1, (key.signInternal s.1 digest).2, digest :: s.2)

/-- A key's signatures have their length, and a key that does not sign stays as it is. -/
def LmsSigningKey.Honest (key : LmsSigningKey K) : Prop :=
  ∀ k digest, match key.signInternal k digest with
    | (some signature, _) => signature.length = signatureLen vaultParams
    | (none, k') => k' = k

/-- Whether a signature script can be put together depends only on the lengths of its pushes. -/
def AssemblesByLength : Prop :=
  ∀ (redeemScript : Bytes) (xs ys : List Bytes), xs.map List.length = ys.map List.length →
    (∃ script, kaspa.payToScriptHashSignatureScript redeemScript (kaspa.build (xs.map .push)) = .ok script) →
    ∃ script, kaspa.payToScriptHashSignatureScript redeemScript (kaspa.build (ys.map .push)) = .ok script

/-! ### After signing -/

/-- What the witness of a signature pushes. -/
def signatureItems (signature : Bytes) : List Bytes :=
  (chunksExact 32 (signature.drop (40 + vaultParams.p * 32 + 4))).reverse ++
    (chunksExact 32 (slice signature 40 (40 + vaultParams.p * 32))).reverse ++ [slice signature 8 40]

theorem witnessPushes_eq_items {signature : Bytes} (h : signature.length = signatureLen vaultParams) :
    witnessPushes signature = .ok ((signatureItems signature).map .push) := by
  rw [witnessPushes, ensure_bind_eq_ok]
  refine ⟨h, ?_⟩
  simp [signatureItems, pure, Except.pure]

theorem length_chunksExact_congr (n : ℕ) {a b : Bytes} (h : a.length = b.length) :
    (chunksExact n a).map List.length = (chunksExact n b).map List.length := by
  simp [chunksExact, Function.comp_def, h]

theorem length_signatureItems_congr {a b : Bytes} (h : a.length = b.length) :
    (signatureItems a).map List.length = (signatureItems b).map List.length := by
  have hpath := length_chunksExact_congr 32 (a := a.drop (40 + vaultParams.p * 32 + 4))
    (b := b.drop (40 + vaultParams.p * 32 + 4)) (by simp [h])
  have hy := length_chunksExact_congr 32 (a := slice a 40 (40 + vaultParams.p * 32))
    (b := slice b 40 (40 + vaultParams.p * 32)) (by simp [h])
  simp [signatureItems, hpath, hy, h]

/-- **No step after signing fails** for a spend that passed the checks and a signature of the right length. -/
theorem assembleSpend_ok (hassembles : AssemblesByLength kaspa) {sha256 : Bytes → Block 32} {call : SpendCall Params K}
    {report : PreflightReport} {digest : Block 32} (h : checkSpend kaspa sha256 call = .ok (report, digest))
    {outcome : SignOutcome} (hlen : outcome.record.signature.length = signatureLen vaultParams) :
    ∃ spend, assembleSpend kaspa call report digest outcome = .ok spend := by
  obtain ⟨s, hs, -⟩ := (checkSpend_checked kaspa h).shape_ok
  obtain ⟨placeholder, hplaceholder, -⟩ := bind_eq_ok.mp hs
  obtain ⟨redeemScript, hredeem, hrest⟩ := bind_eq_ok.mp hplaceholder
  obtain ⟨witness, hwitness, hassembled⟩ := bind_eq_ok.mp hrest
  have hzeros := witnessPushes_eq_items (length_zeros (signatureLen vaultParams))
  obtain rfl := Except.ok.inj (hzeros.symm.trans hwitness)
  obtain ⟨script, hscript⟩ := hassembles redeemScript _ (signatureItems outcome.record.signature)
    (length_signatureItems_congr ((length_zeros _).trans hlen.symm)) ⟨placeholder, mapError_eq_ok.mp hassembled⟩
  simp only [assembleSpend, bind_eq_ok]
  exact ⟨_, redeemScript, hredeem, _, witnessPushes_eq_items hlen, script, mapError_eq_ok.mpr hscript, rfl⟩

/-! ### A call -/

/-- The call's `put` failed: the key had signed, and the journal would not take the record. -/
def PutFailed (sha256 : Bytes → Block 32) (S : SpendJournal J) (key : LmsSigningKey K) (journal : J)
    (call : SpendCall Params K) (e : String) (journal' : J) : Prop :=
  ∃ report digest signature k', checkSpend kaspa sha256 call = .ok (report, digest) ∧
    key.signInternal call.signingKey digest = (some signature, k') ∧
    S.put journal ⟨⟨call.vault.publicKey.id, call.utxo.leaf⟩, digest, signature⟩ = (.error e, journal')

/-- **Asking the key to sign** is left to spends that passed the checks. -/
theorem checked_of_asked (sha256 : Bytes → Block 32) (S : SpendJournal J) (key : LmsSigningKey K) (journal : J)
    (call : SpendCall Params K) (digests : List (Block 32))
    (h : (buildSpend kaspa sha256 S key.asked journal { call with signingKey := (call.signingKey, digests) }).2.2.2 ≠
      digests) : Checked kaspa call := by
  unfold buildSpend at h
  rcases hcheck : checkSpend kaspa sha256 { call with signingKey := (call.signingKey, digests) } with
    e | ⟨report, digest⟩
  · simp only [hcheck] at h
    exact absurd rfl h
  · have hchecked := checkSpend_checked kaspa hcheck
    exact ⟨hchecked.two_outputs, hchecked.leaf_lt, hchecked.no_dust, hchecked.relayable, hchecked.within,
      hchecked.shape_ok⟩

/-- What a call to sign does to an honest key. -/
theorem signAt_cases {key : LmsSigningKey K} (hkey : key.Honest) (leaf : UInt32) (digest : Block 32) (k : K) :
    (∃ e, signAt key leaf digest k = (.error e, k)) ∨
    ∃ signature k', key.signInternal k digest = (some signature, k') ∧
      signature.length = signatureLen vaultParams ∧ signAt key leaf digest k = (.ok signature, k') := by
  unfold signAt
  by_cases hleaf : key.leafIndex k = leaf
  · rw [if_pos hleaf]
    have hhonest := hkey k digest
    rcases hsign : key.signInternal k digest with ⟨_ | signature, k'⟩
    · rw [hsign] at hhonest
      obtain rfl : k' = k := hhonest
      exact .inl ⟨_, rfl⟩
    · rw [hsign] at hhonest
      exact .inr ⟨signature, k', rfl, hhonest, rfl⟩
  · rw [if_neg hleaf]
    exact .inl ⟨_, rfl⟩

/-- **A call that fails** left everything as it was, unless its `put` failed. -/
theorem unchanged_of_error (hassembles : AssemblesByLength kaspa) (sha256 : Bytes → Block 32) (S : SpendJournal J)
    {key : LmsSigningKey K} (hkey : key.Honest) {journal journal' : J} {call : SpendCall Params K} {e : String} {k' : K}
    (h : buildSpend kaspa sha256 S key journal call = (.error e, journal', k')) :
    PutFailed kaspa sha256 S key journal call e journal' ∨
      journal' = journal ∧ key.leafIndex k' = key.leafIndex call.signingKey := by
  unfold buildSpend at h
  rcases hcheck : checkSpend kaspa sha256 call with e₁ | ⟨report, digest⟩
  · simp only [hcheck] at h
    cases h
    exact .inr ⟨rfl, rfl⟩
  simp only [hcheck] at h
  rcases signOnce_cases S journal ⟨call.vault.publicKey.id, call.utxo.leaf⟩ digest
      (signAt key call.utxo.leaf digest) call.signingKey with
    ⟨r, -, -, hcall⟩ | ⟨r, e₁, -, -, hcall⟩ | ⟨-, e₁, key', hsign, hcall⟩ | ⟨hnone, signature, key', hsign, hcall⟩
  · simp only [hcall, Prod.mk.injEq] at h
    obtain ⟨-, rfl, rfl⟩ := h
    exact .inr ⟨rfl, rfl⟩
  · simp only [hcall, Prod.mk.injEq] at h
    obtain ⟨-, rfl, rfl⟩ := h
    exact .inr ⟨rfl, rfl⟩
  · simp only [hcall, Prod.mk.injEq] at h
    obtain ⟨-, rfl, rfl⟩ := h
    rcases signAt_cases hkey call.utxo.leaf digest call.signingKey with ⟨e₂, heq⟩ | ⟨s, k₂, -, -, heq⟩
    · cases heq.symm.trans hsign
      exact .inr ⟨rfl, rfl⟩
    · cases heq.symm.trans hsign
  · rcases signAt_cases hkey call.utxo.leaf digest call.signingKey with ⟨e₂, heq⟩ | ⟨s, k₂, hinternal, hlen, heq⟩
    · cases heq.symm.trans hsign
    · cases heq.symm.trans hsign
      rcases hcall with ⟨e₁, journal₁, hput, hcall⟩ | ⟨journal₁, hput, hcall⟩
      · simp only [hcall, Prod.mk.injEq] at h
        obtain ⟨he, rfl, rfl⟩ := h
        cases he
        exact .inl ⟨report, digest, signature, key', hcheck, hinternal, hput⟩
      · -- signed and recorded: nothing is left that could fail
        have hlen : (SignOutcome.signed ⟨⟨call.vault.publicKey.id, call.utxo.leaf⟩, digest, signature⟩).record.signature.length =
            signatureLen vaultParams := hlen
        obtain ⟨spend, hspend⟩ := assembleSpend_ok kaspa hassembles hcheck hlen
        simp only [hcall, hspend, Prod.mk.injEq] at h
        cases h.1

/-- **The one irreversible step** comes after every check, and nothing that can fail comes after it
but the journal's own `put`. -/
theorem buildSpend_guarded (hassembles : AssemblesByLength kaspa) (sha256 : Bytes → Block 32) (S : SpendJournal J)
    {key : LmsSigningKey K} (hkey : key.Honest) (journal : J) (call : SpendCall Params K) :
    (∀ digests : List (Block 32),
      (buildSpend kaspa sha256 S key.asked journal { call with signingKey := (call.signingKey, digests) }).2.2.2 ≠
        digests → Checked kaspa call) ∧
    ∀ e journal' k', buildSpend kaspa sha256 S key journal call = (.error e, journal', k') →
      PutFailed kaspa sha256 S key journal call e journal' ∨
        journal' = journal ∧ key.leafIndex k' = key.leafIndex call.signingKey :=
  ⟨fun digests => checked_of_asked kaspa sha256 S key journal call digests,
    fun _ _ _ => unchanged_of_error kaspa hassembles sha256 S hkey⟩

/-- The test key signs for a spend that passes, and a spend of a leaf it is not at is refused. -/
theorem buildSpend_guarded_test :
    Checked testKaspa (spendOf 1 1 900000000) ∧
      ∀ e journal' k', buildSpend testKaspa testHash memoryJournal testKey (fun _ => none) (spendOf 1 1 5) =
        (.error e, journal', k') →
        PutFailed testKaspa testHash memoryJournal testKey (fun _ => none) (spendOf 1 1 5) e journal' ∨
          journal' = (fun _ => none) ∧ testKey.leafIndex k' = 0 := by
  have hassembles : AssemblesByLength testKaspa := fun _ _ _ _ _ => ⟨_, rfl⟩
  have hkey : testKey.Honest := fun _ _ => length_zeros _
  refine ⟨(buildSpend_guarded testKaspa hassembles testHash memoryJournal hkey (fun _ => none) _).1 [] ?_,
    (buildSpend_guarded testKaspa hassembles testHash memoryJournal hkey (fun _ => none) _).2⟩
  decide +kernel

end KaspaPqv.LmsWallet
