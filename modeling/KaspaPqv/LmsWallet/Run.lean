import KaspaPqv.LmsWallet.Assemble
import KaspaPqv.LmsWallet.BeforeSigning
import KaspaPqv.LmsWallet.Funds

/-!
# The spend command

`run` finds the coin of a vault, decides on the fee, and shows what it is about to do
(`planSpend`); then it opens the journal, positions the signing key at the leaf, signs,
assembles the transaction and broadcasts it. The change goes to the next leaf.

## What is proved

* `planSpend_reckons`, `planSpend_ok` — what a plan spends, whom it pays, and how the change is
  reckoned.
* `run_cases` — all that a call can do: leave the journal alone or put one record into it;
  and what it broadcasts.
-/

namespace KaspaPqv.LmsWallet

open KaspaPqv.Lib KaspaPqv.Script KaspaPqv.VaultCore KaspaPqv.LmsScript

/-- The compute budget declared while sizing. -/
def sizingBudgetUnits : UInt16 := 60

/-- The fee margin over the relay minimum, in percent. -/
def feeMarginPercent : UInt64 := 20

namespace ChangeTarget

def keyIndex : ChangeTarget → UInt32
  | .nextLeaf keyIndex _ => keyIndex
  | .nextVault keyIndex _ => keyIndex

def leaf : ChangeTarget → UInt32
  | .nextLeaf _ leaf => leaf
  | .nextVault _ leaf => leaf

def isMigration : ChangeTarget → Bool
  | .nextLeaf _ _ => false
  | .nextVault _ _ => true

end ChangeTarget

/-- What is asked for. -/
structure SpendRequest (Params Prefix Address : Type) where
  vault : Vault
  xi : Block 32
  keyIndex : UInt32
  addressPrefix : Prefix
  params : Params
  destination : Address
  amount : UInt64
  fee : Option UInt64
  journalPath : String
  confirmed : Bool
  dryRun : Bool

/-! ### The signing key of a leaf -/

/-- What the wallet uses of the LMS library, and of the standard library's tables. -/
structure LmsLib (K : Type) where
  chars : CharTable
  /-- The known-answer tests, and whether each passes. -/
  kats : List (String × Bool)
  /-- The private key of a seed, as bytes. -/
  privateKey : Block 32 → Bytes
  /-- The signing key of the bytes of a private key. -/
  fromBytes : Bytes → Option K
  signingKey : LmsSigningKey K

/-- Run the known-answer tests; the first that fails is named. -/
def runSelfTests (chars : CharTable) (kats : List (String × Bool)) : Except String Unit :=
  kats.forM fun (name, passes) => ensure (passes = true)
    ("LMS known-answer test " ++ String.ofList (debugText chars name.toList) ++ " FAILED. Refusing to sign: the signing " ++
      "implementation on this machine does not reproduce its published " ++
      "vectors, so any signature it produced could be wrong — and a vault " ++
      "signature cannot be retried.")

/-- Where the leaf index stands in the bytes of a private key. -/
def indexOffset : ℕ := 32 + 16

/-- The signing key positioned at a leaf. -/
def signingKeyAt {K : Type} (lms : LmsLib K) (xi : Block 32) (leaf : UInt32) : Except String K := do
  ensure (leaf.toNat < vaultParams.leafCount) s!"leaf {leaf} out of range"
  runSelfTests lms.chars lms.kats
  let bytes := lms.privateKey xi
  let positioned := bytes.take indexOffset ++ beBytes 4 leaf.toNat ++ bytes.drop (indexOffset + 4)
  let key ← orFail (lms.fromBytes positioned) s!"could not rebuild the private key at leaf {leaf}"
  ensure (lms.signingKey.leafIndex key = leaf) s!"signing key did not land on leaf {leaf}"
  pure key

/-! ### Planning -/

/-- `u64::saturating_sub`. -/
def saturatingSub (a b : UInt64) : UInt64 := if b ≤ a then a - b else 0

variable {Params Prefix Address K : Type} (kaspa : Kaspa Params) (lib : AddressLib Prefix Address)

def toOutput (address : Address) (amount : UInt64) : OutputView :=
  let spk := lib.payToAddressScript address
  ⟨amount, spk.version, spk.script⟩

/-- The report of a spend that is not enforced. -/
def estimateSpend (params : Params) (vault : Vault) (utxo : VaultUtxo) (txVersion : UInt16)
    (outputs : List OutputView) (budgetUnits : UInt16) : Except String PreflightReport := do
  let shape ← shape kaspa params vault utxo txVersion outputs budgetUnits
  estimate kaspa shape

/-- The coin to spend and the outputs, up to where nothing can be taken back. -/
def planSpend (client : Client Address) (req : SpendRequest Params Prefix Address) :
    Except String (VaultUtxo × List OutputView) := do
  let (leaf, utxo) ← locateFunds kaspa lib client req.vault req.addressPrefix scanWindow
  let changeTarget := req.vault.changeTarget req.keyIndex leaf
  ensure (changeTarget.isMigration = false)
    ("this vault's last leaf is funded; use the migration path so change starts " ++
      s!"key index {changeTarget.keyIndex}")
  let changeAddress ← req.vault.address kaspa lib req.addressPrefix changeTarget.leaf
  let provisional := [toOutput lib req.destination req.amount,
    toOutput lib changeAddress (saturatingSub utxo.amount req.amount)]
  let probe ← estimateSpend kaspa req.params req.vault utxo 1 provisional sizingBudgetUnits
  let fee := req.fee.getD (probe.minimumFee * (100 + feeMarginPercent) / 100)
  ensure (req.amount + fee ≤ utxo.amount)
    s!"amount {req.amount} plus fee {fee} exceeds the {utxo.amount} available"
  let change := utxo.amount - req.amount - fee
  let outputs := [toOutput lib req.destination req.amount, toOutput lib changeAddress change]
  let _ ← estimateSpend kaspa req.params req.vault utxo 1 outputs sizingBudgetUnits
  let _ ← req.vault.address kaspa lib req.addressPrefix leaf
  ensure (req.confirmed = true)
    ("not confirmed. Re-run with --yes once the details above are correct. " ++
      s!"Signing burns one-time key {leaf} whether or not the transaction confirms, " ++
      "and the fee cannot be raised afterwards.")
  pure (utxo, outputs)

/-! ### Running -/

/-- What a call leaves. -/
structure RunOutcome where
  result : Except String Unit
  /-- The journal. -/
  file : AppendFile Char
  /-- What the node has taken. -/
  broadcast : Option MassTransaction

variable (engine : ScriptEngine) (sha256 : Bytes → Block 32) (lms : LmsLib K)

/-- The call of `buildSpend` that is made. -/
def SpendRequest.call (req : SpendRequest Params Prefix Address) (utxo : VaultUtxo) (outputs : List OutputView)
    (signingKey : K) : SpendCall Params K where
  vault := req.vault
  signingKey := signingKey
  utxo := utxo
  keyIndex := req.keyIndex
  txVersion := 1
  outputs := outputs
  params := req.params
  budgetUnits := sizingBudgetUnits

/-- What is done with a signed spend. -/
def broadcastSpend (client : Client Address) (req : SpendRequest Params Prefix Address) (utxo : VaultUtxo)
    (outputs : List OutputView) (signed : SignedSpend) : Except String (Option MassTransaction) := do
  let assembled ← assemble kaspa engine signed utxo 1 outputs
  if req.dryRun then pure none
  else do
    let _ ← (client.submitTransaction assembled.tx).mapError fun e => s!"submit_transaction rejected the spend: {e}"
    pure (some assembled.tx)

/-- The spend command, on the file of its journal. -/
def run (client : Client Address) (req : SpendRequest Params Prefix Address) (file : AppendFile Char) : RunOutcome :=
  match planSpend kaspa lib client req with
  | .error e => ⟨.error e, file, none⟩
  | .ok (utxo, outputs) =>
    match FileJournal.openJournal req.journalPath file.content with
    | .error e => ⟨.error s!"opening the spend journal: {e.text lms.chars}", file, none⟩
    | .ok entries =>
      match signingKeyAt lms req.xi utxo.leaf with
      | .error e => ⟨.error e, file, none⟩
      | .ok signingKey =>
        match buildSpend kaspa sha256 (fileJournal .nowhere) lms.signingKey (file, entries)
          (req.call utxo outputs signingKey) with
        | (.error e, (file, _), _) => ⟨.error e, file, none⟩
        | (.ok signed, (file, _), _) =>
          match broadcastSpend kaspa engine client req utxo outputs signed with
          | .error e => ⟨.error e, file, none⟩
          | .ok broadcast => ⟨.ok (), file, broadcast⟩

/-! ### What a plan is -/

variable {kaspa lib} {client : Client Address} {req : SpendRequest Params Prefix Address}

theorem leaf_of_locateFunds {vault : Vault} {addressPrefix : Prefix} {window leaf : UInt32} {utxo : VaultUtxo}
    (h : locateFunds kaspa lib client vault addressPrefix window = .ok (leaf, utxo)) : utxo.leaf = leaf := by
  obtain ⟨addresses, -, h₁⟩ := bind_eq_ok.mp h
  obtain ⟨utxos, -, h₂⟩ := bind_eq_ok.mp h₁
  obtain ⟨entry, -, rfl⟩ := theOneFunded_eq_ok.mp h₂
  rfl

theorem changeTarget_of_not_migration {vault : Vault} {keyIndex leaf : UInt32}
    (h : (vault.changeTarget keyIndex leaf).isMigration = false) :
    leaf + 1 < vault.leafCount ∧ (vault.changeTarget keyIndex leaf).leaf = leaf + 1 := by
  unfold Vault.changeTarget changeTarget at h ⊢
  split_ifs at h ⊢ with hlt
  · exact ⟨hlt, rfl⟩
  · cases h

/-- The fee asked for, or one a margin above the floor. -/
def SpendRequest.chosenFee (req : SpendRequest Params Prefix Address) (probe : PreflightReport) : UInt64 :=
  req.fee.getD (probe.minimumFee * (100 + feeMarginPercent) / 100)

/-- **How a plan comes about**: the change goes to the next leaf; the fee is chosen by an estimate
in which the change is all that the amount leaves; amount and fee are within the coin, and the
rest is the change; and the outputs are estimated again. All sums are those of 64 bits. -/
theorem planSpend_reckons {utxo : VaultUtxo} {outputs : List OutputView}
    (h : planSpend kaspa lib client req = .ok (utxo, outputs)) :
    locateFunds kaspa lib client req.vault req.addressPrefix scanWindow = .ok (utxo.leaf, utxo) ∧
      utxo.leaf + 1 < req.vault.leafCount ∧
      ∃ changeAddress probe report, req.vault.address kaspa lib req.addressPrefix (utxo.leaf + 1) = .ok changeAddress ∧
        estimateSpend kaspa req.params req.vault utxo 1 [toOutput lib req.destination req.amount,
          toOutput lib changeAddress (saturatingSub utxo.amount req.amount)] sizingBudgetUnits = .ok probe ∧
        req.amount + req.chosenFee probe ≤ utxo.amount ∧
        outputs = [toOutput lib req.destination req.amount,
          toOutput lib changeAddress (utxo.amount - req.amount - req.chosenFee probe)] ∧
        estimateSpend kaspa req.params req.vault utxo 1 outputs sizingBudgetUnits = .ok report := by
  obtain ⟨⟨leaf, utxo'⟩, hlocate, h₁⟩ := bind_eq_ok.mp h
  obtain ⟨hmigration, h₂⟩ := ensure_bind_eq_ok.mp h₁
  obtain ⟨changeAddress, hchange, h₃⟩ := bind_eq_ok.mp h₂
  obtain ⟨probe, hprobe, h₄⟩ := bind_eq_ok.mp h₃
  obtain ⟨hguard, h₅⟩ := ensure_bind_eq_ok.mp h₄
  obtain ⟨report, hreport, h₆⟩ := bind_eq_ok.mp h₅
  obtain ⟨_, -, h₇⟩ := bind_eq_ok.mp h₆
  obtain ⟨-, h₈⟩ := ensure_bind_eq_ok.mp h₇
  obtain ⟨rfl, rfl⟩ := Prod.mk.inj (Except.ok.inj h₈)
  obtain rfl := leaf_of_locateFunds hlocate
  obtain ⟨hlt, hleaf⟩ := changeTarget_of_not_migration hmigration
  rw [hleaf] at hchange
  exact ⟨hlocate, hlt, changeAddress, probe, report, hchange, hprobe, hguard, rfl, hreport⟩

/-- **What a plan spends, and whom it pays**: the destination, and the next leaf. -/
theorem planSpend_ok {utxo : VaultUtxo} {outputs : List OutputView}
    (h : planSpend kaspa lib client req = .ok (utxo, outputs)) :
    locateFunds kaspa lib client req.vault req.addressPrefix scanWindow = .ok (utxo.leaf, utxo) ∧
      utxo.leaf + 1 < req.vault.leafCount ∧
      ∃ changeAddress change, req.vault.address kaspa lib req.addressPrefix (utxo.leaf + 1) = .ok changeAddress ∧
        outputs = [toOutput lib req.destination req.amount, toOutput lib changeAddress change] := by
  obtain ⟨hlocate, hlt, changeAddress, probe, -, hchange, -, -, houtputs, -⟩ := planSpend_reckons h
  exact ⟨hlocate, hlt, changeAddress, _, hchange, houtputs⟩

/-! ### What a call does -/

variable {engine : ScriptEngine} {sha256 : Bytes → Block 32} {lms : LmsLib K}

/-- The leaf a call is for. -/
def SpendCall.leafId (call : SpendCall Params K) : LeafId := ⟨call.vault.publicKey.id, call.utxo.leaf⟩

/-- All that building a spend can do to the journal. -/
theorem buildSpend_journal {J : Type} (kaspa : Kaspa Params) (sha256 : Bytes → Block 32) (S : SpendJournal J)
    {key : LmsSigningKey K} (hkey : key.Honest) 
    (journal : J) (call : SpendCall Params K) :
    ((buildSpend kaspa sha256 S key journal call).2.1 = journal ∧
        ∀ signed, (buildSpend kaspa sha256 S key journal call).1 = .ok signed →
          ∃ r, S.get journal call.leafId = some r) ∨
      S.get journal call.leafId = none ∧ ∃ r : SpendRecord, r.leaf = call.leafId ∧
        r.signature.length = signatureLen vaultParams ∧
        (buildSpend kaspa sha256 S key journal call).2.1 = (S.put journal r).2 := by
  rcases hcheck : checkSpend kaspa sha256 call with e | ⟨report, digest⟩
  · have hcall : buildSpend kaspa sha256 S key journal call = (.error e, journal, call.signingKey) := by
      simp only [buildSpend, hcheck]
    rw [hcall]
    exact .inl ⟨rfl, fun _ h => by cases h⟩
  rcases signOnce_cases S journal ⟨call.vault.publicKey.id, call.utxo.leaf⟩ digest
      (signAt key call.utxo.leaf digest) call.signingKey with
    ⟨r, hr, -, h⟩ | ⟨r, e, -, -, h⟩ | ⟨-, e, key', -, h⟩ | ⟨hnone, signature, key', hsign, h⟩
  · have hcall : buildSpend kaspa sha256 S key journal call =
        (assembleSpend kaspa call report digest (.alreadySigned r), journal, call.signingKey) := by
      simp only [buildSpend, hcheck, h]
    rw [hcall]
    exact .inl ⟨rfl, fun _ _ => ⟨r, hr⟩⟩
  · have hcall : buildSpend kaspa sha256 S key journal call = (.error e, journal, call.signingKey) := by
      simp only [buildSpend, hcheck, h]
    rw [hcall]
    exact .inl ⟨rfl, fun _ h => by cases h⟩
  · have hcall : buildSpend kaspa sha256 S key journal call = (.error e, journal, key') := by
      simp only [buildSpend, hcheck, h]
    rw [hcall]
    exact .inl ⟨rfl, fun _ h => by cases h⟩
  · have hlen : signature.length = signatureLen vaultParams := by
      rcases signAt_cases hkey call.utxo.leaf digest call.signingKey with ⟨e₁, heq⟩ | ⟨s, k₁, -, hlen, heq⟩
      · cases heq.symm.trans hsign
      · cases heq.symm.trans hsign
        exact hlen
    have hput : (buildSpend kaspa sha256 S key journal call).2.1 =
        (S.put journal ⟨call.leafId, digest, signature⟩).2 := by
      rcases h with ⟨e, journal', hput, h⟩ | ⟨journal', hput, h⟩
      · simp only [buildSpend, hcheck, h, SpendCall.leafId, hput]
      · simp only [buildSpend, hcheck, h, SpendCall.leafId, hput]
    exact .inr ⟨hnone, ⟨call.leafId, digest, signature⟩, rfl, hlen, hput⟩

/-- What is broadcast is the spend that was planned. -/
theorem broadcastSpend_ok {utxo : VaultUtxo} {outputs : List OutputView} {signed : SignedSpend} {t : MassTransaction}
    (h : broadcastSpend kaspa engine client req utxo outputs signed = .ok (some t)) :
    t.inputs.map TransactionInput.previousOutpoint = [⟨utxo.txid, utxo.index⟩] ∧ t.outputs = toOutputs outputs := by
  obtain ⟨assembled, hassembled, h₁⟩ := bind_eq_ok.mp h
  split_ifs at h₁
  · cases Except.ok.inj h₁
  · obtain ⟨_, -, h₂⟩ := bind_eq_ok.mp h₁
    obtain rfl := Option.some.inj (Except.ok.inj h₂)
    have htx : assembled.tx = (buildTx kaspa signed utxo 1 outputs assembled.declaredBudgetUnits).1 :=
      congrArg Prod.fst (assemble_eq_ok kaspa engine hassembled).1
    rw [htx]
    exact ⟨rfl, rfl⟩

/-- A call all of whose steps succeed. -/
theorem run_eq_ok {file : AppendFile Char} {utxo : VaultUtxo} {outputs : List OutputView} {entries : Entries}
    {signingKey k : K} {signed : SignedSpend} {journal : AppendFile Char × Entries} {broadcast : Option MassTransaction}
    (hplan : planSpend kaspa lib client req = .ok (utxo, outputs))
    (hopen : FileJournal.openJournal req.journalPath file.content = .ok entries)
    (hposition : signingKeyAt lms req.xi utxo.leaf = .ok signingKey)
    (hbuild : buildSpend kaspa sha256 (fileJournal .nowhere) lms.signingKey (file, entries)
      (req.call utxo outputs signingKey) = (.ok signed, journal, k))
    (hcast : broadcastSpend kaspa engine client req utxo outputs signed = .ok broadcast) :
    run kaspa lib engine sha256 lms client req file = ⟨.ok (), journal.1, broadcast⟩ := by
  unfold run
  simp only [hplan, hopen, hposition, hbuild, hcast]

/-- **All that a call can do**: nothing; or, with a plan for a leaf, leave the journal as it is if
the leaf has a record, or put one; and broadcast what was planned. -/
theorem run_cases (kaspa : Kaspa Params) (lib : AddressLib Prefix Address) (engine : ScriptEngine)
    (sha256 : Bytes → Block 32) (hkey : lms.signingKey.Honest) (client : Client Address)
    (req : SpendRequest Params Prefix Address) (file : AppendFile Char) :
    (run kaspa lib engine sha256 lms client req file).file = file ∧
        (run kaspa lib engine sha256 lms client req file).broadcast = none ∨
      ∃ utxo outputs entries, planSpend kaspa lib client req = .ok (utxo, outputs) ∧
        FileJournal.openJournal req.journalPath file.content = .ok entries ∧
        ((run kaspa lib engine sha256 lms client req file).file = file ∧
            (∃ r, entries ⟨req.vault.publicKey.id, utxo.leaf⟩ = some r) ∨
          entries ⟨req.vault.publicKey.id, utxo.leaf⟩ = none ∧
            ∃ r : SpendRecord, r.leaf = ⟨req.vault.publicKey.id, utxo.leaf⟩ ∧
              r.signature.length = signatureLen vaultParams ∧
              (run kaspa lib engine sha256 lms client req file).file = (file.append (FileJournal.recordLine r)).sync) ∧
        ∀ t, (run kaspa lib engine sha256 lms client req file).broadcast = some t →
          t.inputs.map TransactionInput.previousOutpoint = [⟨utxo.txid, utxo.index⟩] ∧
            t.outputs = toOutputs outputs := by
  rcases hplan : planSpend kaspa lib client req with e | ⟨utxo, outputs⟩
  · have hrun : run kaspa lib engine sha256 lms client req file = ⟨.error e, file, none⟩ := by
      unfold run
      simp only [hplan]
    rw [hrun]
    exact .inl ⟨rfl, rfl⟩
  rcases hopen : FileJournal.openJournal req.journalPath file.content with e | entries
  · have hrun : run kaspa lib engine sha256 lms client req file =
        ⟨.error s!"opening the spend journal: {e.text lms.chars}", file, none⟩ := by
      unfold run
      simp only [hplan, hopen]
    rw [hrun]
    exact .inl ⟨rfl, rfl⟩
  rcases hposition : signingKeyAt lms req.xi utxo.leaf with e | signingKey
  · have hrun : run kaspa lib engine sha256 lms client req file = ⟨.error e, file, none⟩ := by
      unfold run
      simp only [hplan, hopen, hposition]
    rw [hrun]
    exact .inl ⟨rfl, rfl⟩
  have hbuild := buildSpend_journal kaspa sha256 (fileJournal .nowhere) hkey (file, entries)
    (req.call utxo outputs signingKey)
  rcases hspend : buildSpend kaspa sha256 (fileJournal .nowhere) lms.signingKey (file, entries)
      (req.call utxo outputs signingKey) with ⟨e | signed, ⟨file', entries'⟩, k'⟩
  · have hrun : run kaspa lib engine sha256 lms client req file = ⟨.error e, file', none⟩ := by
      unfold run
      simp only [hplan, hopen, hposition, hspend]
    rw [hspend] at hbuild
    rw [hrun]
    rcases hbuild with ⟨hfile, -⟩ | ⟨hnone, r, hleaf, hlen, hfile⟩
    · exact .inl ⟨congrArg Prod.fst hfile, rfl⟩
    · exact .inr ⟨utxo, outputs, entries, rfl, rfl, .inr ⟨hnone, r, hleaf, hlen, congrArg Prod.fst hfile⟩,
        fun _ h => nomatch h⟩
  · have hrun : ∃ result broadcast, run kaspa lib engine sha256 lms client req file = ⟨result, file', broadcast⟩ ∧
        ∀ t, broadcast = some t → broadcastSpend kaspa engine client req utxo outputs signed = .ok (some t) := by
      rcases hcast : broadcastSpend kaspa engine client req utxo outputs signed with e | broadcast
      · exact ⟨.error e, none, by unfold run; simp only [hplan, hopen, hposition, hspend, hcast], fun _ h => nomatch h⟩
      · refine ⟨.ok (), broadcast, by unfold run; simp only [hplan, hopen, hposition, hspend, hcast], fun t ht => ?_⟩
        rw [ht]
    obtain ⟨result, broadcast, hrun, hcast⟩ := hrun
    rw [hspend] at hbuild
    rw [hrun]
    refine .inr ⟨utxo, outputs, entries, rfl, rfl, ?_, fun t ht => broadcastSpend_ok (hcast t ht)⟩
    rcases hbuild with ⟨hfile, hrecord⟩ | ⟨hnone, r, hleaf, hlen, hfile⟩
    · exact .inl ⟨congrArg Prod.fst hfile, hrecord signed rfl⟩
    · exact .inr ⟨hnone, r, hleaf, hlen, congrArg Prod.fst hfile⟩

end KaspaPqv.LmsWallet
