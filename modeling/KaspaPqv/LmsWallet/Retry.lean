import KaspaPqv.LmsWallet.Backed

/-!
# Calling again

A call of `run` may come to a transaction and not get it broadcast: this was a dry run, or the
node has refused it. The leaf has signed all the same, and nothing else can ever be signed with
it. But the same call can be made again. It takes the signature from the journal, and comes to
the same transaction.

## What is proved

* `buildSpend_again` — a call with the record of an earlier one puts together what that one did.
* `run_again` — in every run, a call that is repeated while its coin is still the one that is
  found broadcasts the transaction it came to at first, and leaves the journal alone.
-/

namespace KaspaPqv.LmsWallet

open KaspaPqv.Lib KaspaPqv.Script KaspaPqv.VaultCore KaspaPqv.LmsScript FileJournal

section

variable {NodeParams J K : Type} {kaspa : Kaspa NodeParams} {engine : ScriptEngine} {sha256 : Bytes → Block 32}
  {call : SpendCall NodeParams K} {report : PreflightReport} {outcome : SignOutcome} {signed : SignedSpend}

/-- What is assembled comes of the two scripts of a spend. -/
theorem assemble_congr {signed' : SignedSpend} (hscript : signed.signatureScript = signed'.signatureScript)
    (hredeem : signed.redeemScript = signed'.redeemScript) (utxo : VaultUtxo) (txVersion : UInt16)
    (outputs : List OutputView) :
    assemble kaspa engine signed utxo txVersion outputs = assemble kaspa engine signed' utxo txVersion outputs := by
  have hbuilt : buildTx kaspa signed utxo txVersion outputs = buildTx kaspa signed' utxo txVersion outputs := by
    funext budgetUnits
    rw [buildTx, hscript, hredeem]
    rfl
  simp only [assemble, hbuilt]

/-- What is put together of a stored signature. -/
theorem assembleSpend_again {digest : Block 32} (h : assembleSpend kaspa call report digest outcome = .ok signed) :
    assembleSpend kaspa call report digest (.alreadySigned outcome.record) =
      .ok { signed with reusedStoredSignature := true } := by
  obtain ⟨redeemScript, hredeem, h⟩ := bind_eq_ok.mp h
  obtain ⟨witness, hwitness, h⟩ := bind_eq_ok.mp h
  obtain ⟨signatureScript, hscript, h⟩ := bind_eq_ok.mp h
  obtain rfl := Except.ok.inj h
  exact bind_eq_ok.mpr ⟨_, hredeem, bind_eq_ok.mpr ⟨_, hwitness, bind_eq_ok.mpr ⟨_, hscript, rfl⟩⟩⟩

/-- **A call that finds its own record** in a journal uses no key, and puts together the same. -/
theorem buildSpend_again {S : SpendJournal J} {journal : J} {key : LmsSigningKey K}
    (hcheck : checkSpend kaspa sha256 call = .ok (report, outcome.record.digest))
    (hassemble : assembleSpend kaspa call report outcome.record.digest outcome = .ok signed)
    (hget : S.get journal call.leafId = some outcome.record) :
    buildSpend kaspa sha256 S key journal call =
      (.ok { signed with reusedStoredSignature := true }, journal, call.signingKey) := by
  have honce : signOnce S journal ⟨call.vault.publicKey.id, call.utxo.leaf⟩ outcome.record.digest
      (signAt key call.utxo.leaf outcome.record.digest) call.signingKey =
        (.ok (.alreadySigned outcome.record), journal, call.signingKey) := by
    change S.get journal ⟨call.vault.publicKey.id, call.utxo.leaf⟩ = some outcome.record at hget
    rw [signOnce, hget]
    exact if_pos rfl
  simp only [buildSpend, hcheck, honce, assembleSpend_again hassemble]

end

/-! ### The record of a call -/

/-- The records of a file. -/
theorem flatMap_recordLine_inj {records records' : List SpendRecord} (hsig : ∀ r ∈ records, r.signature ≠ [])
    (hsig' : ∀ r ∈ records', r.signature ≠ []) (h : records.flatMap recordLine = records'.flatMap recordLine) :
    records = records' := by
  have hparsed {rs : List SpendRecord} (hrs : ∀ r ∈ rs, r.signature ≠ []) :
      (lines (rs.flatMap recordLine)).map parseLine = rs.map some := by
    rw [lines_flatMap_recordText, List.map_map]
    exact List.map_congr_left fun r hr => parseLine_recordText (hrs r hr)
  have hsome := (hparsed hsig).symm.trans ((congrArg (fun text => (lines text).map parseLine) h).trans (hparsed hsig'))
  exact List.map_injective_iff.mpr (Option.some_injective _) hsome

/-- The record of a leaf that has one. -/
theorem openJournal_of_mem (path : String) {records : List SpendRecord} (hsig : ∀ r ∈ records, r.signature ≠ [])
    (honce : (records.map SpendRecord.leaf).Nodup) {r : SpendRecord} (hr : r ∈ records) :
    ∃ entries, openJournal path (records.flatMap recordLine) = .ok entries ∧ entries r.leaf = some r := by
  obtain ⟨entries, hopen, hnone⟩ := openJournal_records path records hsig
  refine ⟨entries, hopen, ?_⟩
  rcases hentry : entries r.leaf with _ | r'
  · exact absurd rfl ((hnone r.leaf).mp hentry r hr)
  · obtain ⟨hr', hleaf⟩ := mem_of_openJournal hsig hopen hentry
    rw [List.inj_on_of_nodup_map honce hr' hr hleaf]

variable {NodeParams Prefix Address K : Type} {kaspa : Kaspa NodeParams} {lib : AddressLib Prefix Address}
  {engine : ScriptEngine} {sha256 : Bytes → Block 32} {lms : LmsLib K} {records : List SpendRecord}

/-- **A spend that is built** has its record in the file. -/
theorem record_of_buildSpend {key : LmsSigningKey K} (hkey : key.Honest) (hsig : ∀ r ∈ records, r.signature ≠ [])
    {path : String} {entries : Entries} (hopen : openJournal path (records.flatMap recordLine) = .ok entries)
    {call : SpendCall NodeParams K} {signed : SignedSpend} {journal' : AppendFile Char × Entries} {k' : K}
    (h : buildSpend kaspa sha256 (fileJournal .nowhere) key (⟨records.flatMap recordLine, []⟩, entries) call =
      (.ok signed, journal', k')) :
    ∃ (report : PreflightReport) (outcome : SignOutcome) (records' : List SpendRecord),
      checkSpend kaspa sha256 call = .ok (report, outcome.record.digest) ∧
      assembleSpend kaspa call report outcome.record.digest outcome = .ok signed ∧ outcome.record ∈ records' ∧
      outcome.record.leaf = call.leafId ∧ (∀ r ∈ records', r.signature ≠ []) ∧
      journal'.1 = ⟨records'.flatMap recordLine, []⟩ := by
  obtain ⟨report, outcome, hcheck, hrecord, hassemble⟩ := buildSpend_eq_ok h
  rcases hrecord with hold | ⟨-, hleaf, -, hput⟩
  · obtain ⟨hmem, hleaf⟩ := mem_of_openJournal hsig hopen hold
    have hjournal := buildSpend_journal kaspa sha256 (fileJournal .nowhere) hkey
      (⟨records.flatMap recordLine, []⟩, entries) call
    rw [h] at hjournal
    rcases hjournal with ⟨hsame, -⟩ | ⟨hnone, -⟩
    · exact ⟨report, outcome, records, hcheck, hassemble, hmem, hleaf, hsig, congrArg Prod.fst hsame⟩
    · cases hold.symm.trans hnone
  · obtain ⟨-, rfl⟩ := Prod.mk.inj hput
    refine ⟨report, outcome, records ++ [outcome.record], hcheck, hassemble, by simp, hleaf, fun r hr => ?_,
      World.file_record records outcome.record⟩
    rcases List.mem_append.mp hr with hr | hr
    · exact hsig r hr
    · obtain ⟨_, -, hwitness⟩ := bind_eq_ok.mp hassemble
      obtain ⟨_, hwitness, -⟩ := bind_eq_ok.mp hwitness
      rw [List.mem_singleton.mp hr]
      exact World.ne_nil_of_length (ensure_bind_eq_ok.mp hwitness).1

/-! ### Coming to a transaction -/

/-- The node, if it took whatever it is given. -/
def Client.taking (client : Client Address) : Client Address := { client with submitTransaction := fun _ => .ok "" }

variable (kaspa lib engine sha256 lms) in
/-- What a call comes to: the transaction it broadcasts, if it is no dry run and the node takes it. -/
def comesTo (client : Client Address) (req : SpendRequest NodeParams Prefix Address) (file : AppendFile Char) :
    Option MassTransaction :=
  (run kaspa lib engine sha256 lms client.taking { req with dryRun := false } file).broadcast

variable {client client' : Client Address} {req : SpendRequest NodeParams Prefix Address} {t : MassTransaction}

/-- A plan comes of the coin that is found. -/
theorem planSpend_congr (h : locateFunds kaspa lib client' req.vault req.addressPrefix scanWindow =
    locateFunds kaspa lib client req.vault req.addressPrefix scanWindow) :
    planSpend kaspa lib client' req = planSpend kaspa lib client req := by
  unfold planSpend
  rw [h]

/-- What is done with what was assembled. -/
theorem broadcastSpend_taken {utxo : VaultUtxo} {outputs : List OutputView} {signed : SignedSpend}
    {assembled : AssembledTransaction} {id : String}
    (hassembled : assemble kaspa engine signed utxo 1 outputs = .ok assembled)
    (htaken : client.submitTransaction assembled.tx = .ok id) :
    broadcastSpend kaspa engine client { req with dryRun := false } utxo outputs signed = .ok (some assembled.tx) :=
  bind_eq_ok.mpr ⟨assembled, hassembled, bind_eq_ok.mpr ⟨id, mapError_eq_ok.mpr htaken, rfl⟩⟩

/-- **Two calls**: of the file that the first leaves, the record is kept, and the second comes to the same. -/
theorem run_of_comesTo (hkey : lms.signingKey.Honest) (hsig : ∀ r ∈ records, r.signature ≠ [])
    (hfirst : comesTo kaspa lib engine sha256 lms client req ⟨records.flatMap recordLine, []⟩ = some t) :
    ∃ records₁, (run kaspa lib engine sha256 lms client req ⟨records.flatMap recordLine, []⟩).file =
        ⟨records₁.flatMap recordLine, []⟩ ∧ (∀ r ∈ records₁, r.signature ≠ []) ∧
      ∀ records₂, records₁ <+: records₂ → (∀ r ∈ records₂, r.signature ≠ []) →
        (records₂.map SpendRecord.leaf).Nodup → ∀ (client' : Client Address) (id : String),
        locateFunds kaspa lib client' req.vault req.addressPrefix scanWindow =
          locateFunds kaspa lib client req.vault req.addressPrefix scanWindow →
        client'.submitTransaction t = .ok id →
          run kaspa lib engine sha256 lms client' { req with dryRun := false } ⟨records₂.flatMap recordLine, []⟩ =
            ⟨.ok (), ⟨records₂.flatMap recordLine, []⟩, some t⟩ := by
  have hcontent (rs : List SpendRecord) :
      (⟨rs.flatMap recordLine, []⟩ : AppendFile Char).content = rs.flatMap recordLine := List.append_nil _
  obtain ⟨utxo, outputs, entries, signingKey, signed, journal, k, assembled, hplan, hopen, hposition, hbuild,
    hassembled, rfl⟩ := run_steps hfirst
  have hplan : planSpend kaspa lib client req = .ok (utxo, outputs) := hplan
  have hfile : (run kaspa lib engine sha256 lms client req ⟨records.flatMap recordLine, []⟩).file = journal.1 :=
    file_of_buildSpend hplan hopen hposition hbuild
  rw [hcontent] at hopen
  obtain ⟨report, outcome, records₁, hcheck, hassemble, hmem, hleaf, hsig₁, hjournal⟩ :=
    record_of_buildSpend hkey hsig hopen hbuild
  refine ⟨records₁, hfile.trans hjournal, hsig₁, fun records₂ hkept hsig₂ honce client' id hfound htaken => ?_⟩
  obtain ⟨entries', hopen', hentry⟩ := openJournal_of_mem req.journalPath hsig₂ honce (hkept.subset hmem)
  rw [hleaf] at hentry
  let reused : SignedSpend := { signed with reusedStoredSignature := true }
  have hbuild' : buildSpend kaspa sha256 (fileJournal .nowhere) lms.signingKey
      (⟨records₂.flatMap recordLine, []⟩, entries') (req.call utxo outputs signingKey) =
        (.ok reused, (⟨records₂.flatMap recordLine, []⟩, entries'), signingKey) :=
    buildSpend_again hcheck hassemble hentry
  have hassembled' : assemble kaspa engine reused utxo 1 outputs = .ok assembled :=
    (assemble_congr rfl rfl utxo 1 outputs).trans hassembled
  have hplan' : planSpend kaspa lib client' { req with dryRun := false } = .ok (utxo, outputs) :=
    (planSpend_congr hfound).trans hplan
  rw [← hcontent records₂] at hopen'
  exact run_eq_ok hplan' hopen' hposition hbuild' (broadcastSpend_taken hassembled' htaken)

/-- A dry run comes to the same. -/
theorem comesTo_dryRun (dryRun : Bool) (file : AppendFile Char) :
    comesTo kaspa lib engine sha256 lms client { req with dryRun := dryRun } file =
      comesTo kaspa lib engine sha256 lms client req file := rfl

/-- A transaction that is broadcast is the one the call comes to. -/
theorem comesTo_of_broadcast {file : AppendFile Char}
    (h : (run kaspa lib engine sha256 lms client req file).broadcast = some t) :
    comesTo kaspa lib engine sha256 lms client req file = some t := by
  obtain ⟨utxo, outputs, entries, signingKey, signed, journal, k, assembled, hplan, hopen, hposition, hbuild,
    hassembled, rfl⟩ := run_steps h
  have hplan' : planSpend kaspa lib client.taking { req with dryRun := false } = .ok (utxo, outputs) := hplan
  rw [comesTo, run_eq_ok hplan' hopen hposition hbuild (broadcastSpend_taken hassembled rfl)]

namespace World

variable {node : List Coin → Client Address} {s s' : World}

variable (lib engine lms node) in
/-- **A call may be repeated.** Whatever became of what it came to at first, whatever has happened since, and whatever
node is asked now: as long as the search finds the same coin, the call broadcasts that very transaction once
the node takes it, and leaves the journal as it is. -/
theorem run_again (h : Backed kaspa sha256 s records) (hkey : lms.signingKey.Honest)
    (hfirst : comesTo kaspa lib engine sha256 lms (node s.utxos) req s.file = some t)
    (events : List (Event NodeParams Prefix Address))
    (hs' : (.run req :: events).foldl (World.step kaspa lib engine sha256 lms node) s = s') (client' : Client Address)
    (hfound : locateFunds kaspa lib client' req.vault req.addressPrefix scanWindow =
      locateFunds kaspa lib (node s.utxos) req.vault req.addressPrefix scanWindow) {id : String}
    (htaken : client'.submitTransaction t = .ok id) :
    LmsWallet.run kaspa lib engine sha256 lms client' { req with dryRun := false } s'.file =
      ⟨.ok (), s'.file, some t⟩ := by
  rw [h.file] at hfirst
  obtain ⟨records₁, hfile, hsig₁, hagain⟩ := run_of_comesTo hkey h.signed hfirst
  obtain ⟨records', -, hbacked⟩ : ∃ records', records <+: records' ∧
      Backed kaspa sha256 (s.step kaspa lib engine sha256 lms node (.run req)) records' := h.step hkey (.run req)
  -- the records after the first call are those it has left
  have hstep : (s.step kaspa lib engine sha256 lms node (.run req)).file = ⟨records₁.flatMap recordLine, []⟩ := by
    rw [World.step, ← hfile, h.file]
  have hsame : records' = records₁ :=
    flatMap_recordLine_inj hbacked.signed hsig₁ (congrArg AppendFile.synced (hbacked.file.symm.trans hstep))
  obtain ⟨records₂, hkept, hafter⟩ := hbacked.run hkey events
  rw [hsame] at hkept
  rw [List.foldl_cons] at hs'
  rw [hs'] at hafter
  rw [hafter.file]
  exact hagain records₂ hkept hafter.signed hafter.once client' id hfound htaken

/-- A coin that is at no leaf. -/
def coinElsewhere : Coin := ⟨⟨blockOf 32 5, 0⟩, 300000000, ⟨0, testDestination⟩, 0⟩

/-- A dry run, a payment to somewhere else, and a call for another amount. -/
def beforeRetry : List (Event Unit Unit Bytes) :=
  [.run { TestSpend.first.request with dryRun := true }, .deposit coinElsewhere, .run TestSpend.second.request]

/-- Then the call of the dry run is made. -/
theorem run_again_between : ∃ (s' : World) (t : MassTransaction),
    beforeRetry.foldl (World.step scriptKaspa testLib testEngine testHash testLms testClient) (paidWorld 0) = s' ∧
      s'.utxos = [coinElsewhere, LmsWallet.coinAt 0] ∧
      LmsWallet.run scriptKaspa testLib testEngine testHash testLms (testClient s'.utxos) TestSpend.first.request s'.file =
        ⟨.ok (), s'.file, some t⟩ := by
  have hfunded : testVault.OnlyFunded scriptKaspa (paidWorld 0).utxos scanWindow 0 (LmsWallet.coinAt 0) :=
    utxos_paidWorld 0 ▸ onlyFunded_coinAt (by decide) fun _ hc => by cases hc
  have hstill : testVault.OnlyFunded scriptKaspa [coinElsewhere, LmsWallet.coinAt 0] scanWindow 0 (LmsWallet.coinAt 0) := by
    refine @onlyFunded_append 0 _ [coinElsewhere] [] (by decide) (leafScript_coinAt (by decide)) fun c hc l _ => ?_
    rw [List.append_nil, List.mem_singleton] at hc
    rw [hc]
    exact leafScript_ne_testDestination l
  obtain ⟨r, t, -, -, -, -, hrun⟩ :=
    TestSpend.first.run_eq testHash .empty (fun _ => none) hfunded rfl (by decide) rfl rfl
  obtain ⟨s', hs'⟩ : ∃ s', beforeRetry.foldl
    (World.step scriptKaspa testLib testEngine testHash testLms testClient) (paidWorld 0) = s' := ⟨_, rfl⟩
  have hutxos : s'.utxos = [coinElsewhere, LmsWallet.coinAt 0] := by
    obtain ⟨s₁, hs₁, hcoins, hspent⟩ : ∃ s₁, World.step scriptKaspa testLib testEngine testHash testLms testClient
        (paidWorld 0) (.run { TestSpend.first.request with dryRun := true }) = s₁ ∧ s₁.coins = [LmsWallet.coinAt 0] ∧
          s₁.spent = [] := ⟨_, rfl, rfl, rfl⟩
    have hnew : coinElsewhere.outpoint ∉ s₁.coins.map Coin.outpoint := by
      rw [hcoins]
      decide
    rw [← hs', beforeRetry, List.foldl_cons, List.foldl_cons, List.foldl_cons, List.foldl_nil, hs₁, utxos_step_run,
      World.step, if_neg hnew]
    simp [World.utxos, hcoins, hspent]
  have hbacked : Backed scriptKaspa testHash (paidWorld 0) [] := ⟨rfl, by simp, List.nodup_nil, fun t ht => by cases ht⟩
  obtain ⟨req, hreq⟩ : ∃ req, req = { TestSpend.first.request with dryRun := true } := ⟨_, rfl⟩
  have hfirst : comesTo scriptKaspa testLib testEngine testHash testLms (testClient (paidWorld 0).utxos) req
      (paidWorld 0).file = some t := by
    rw [hreq, comesTo_dryRun]
    exact comesTo_of_broadcast (congrArg RunOutcome.broadcast hrun)
  have hfound : locateFunds scriptKaspa testLib (testClient s'.utxos) req.vault req.addressPrefix scanWindow =
      locateFunds scriptKaspa testLib (testClient (paidWorld 0).utxos) req.vault req.addressPrefix scanWindow := by
    rw [hreq, hutxos]
    exact (locateFunds_testClient hstill).trans (locateFunds_testClient hfunded).symm
  rw [beforeRetry, ← hreq] at hs'
  have hagain := run_again testLib testEngine testLms testClient hbacked honest_testKey hfirst _ hs'
    (testClient s'.utxos) hfound rfl
  rw [hreq] at hagain
  exact ⟨s', t, by rw [beforeRetry, ← hreq, hs'], hutxos, hagain⟩

end World

end KaspaPqv.LmsWallet
