import KaspaPqv.LmsWallet.Run
import KaspaPqv.LmsWallet.Torn

/-!
# Where the change goes

The coins of a vault over time: anybody may pay to any leaf, `run` signs and broadcasts
spends, and a transaction that was broadcast may be included, if the coin it spends is
still there. The change of a spend goes to the next leaf. If that leaf has signed before,
the change can never be moved.

What keeps this from happening is that the coin of the last leaf that signed, or the change
of its spend, is still there, and that a spend is refused if two leaves have coins. This
needs the leaf with the change to be looked at. The change of leaf 63 is not.

## What is proved

* `Inv.confirm`, `Inv.run` — what inclusion and a call keep: the last leaf that signed has a
  coin, or its coin was spent and the next leaf has one.
* `everyStep_changeFresh` — as long as no coin of leaf 63 was spent, change goes to leaves
  without a record.
* `not_everyStep_changeFresh` — and after that it may not.
-/

namespace KaspaPqv.LmsWallet

open KaspaPqv.Lib KaspaPqv.Script KaspaPqv.VaultCore KaspaPqv.LmsScript FileJournal

/-! ### The chain and the journal -/

/-- The chain, and the journal of a wallet. -/
structure World where
  /-- Every coin there ever was. -/
  coins : List Coin
  spent : List Outpoint
  /-- The transactions that were broadcast. -/
  mempool : List MassTransaction
  file : AppendFile Char

/-- The coins a transaction makes. -/
def coinsOf (t : MassTransaction) (txid : Block 32) (blockDaaScore : UInt64) : List Coin :=
  t.outputs.zipIdx.map fun (o, i) => ⟨⟨txid, UInt32.ofNat i⟩, o.value, o.scriptPublicKey, blockDaaScore⟩

namespace World

/-- What may happen next. -/
inductive Event (Params Prefix Address : Type) where
  /-- Somebody pays. -/
  | deposit (coin : Coin)
  | run (req : SpendRequest Params Prefix Address)
  /-- A transaction is included. -/
  | confirm (t : MassTransaction) (txid : Block 32) (blockDaaScore : UInt64)

/-- The coins that have not been spent. -/
def utxos (s : World) : List Coin := s.coins.filter fun c => c.outpoint ∉ s.spent

/-- The record of a leaf, in the journal opened now. -/
def recordOf (s : World) (path : String) (leaf : LeafId) : Option SpendRecord :=
  match openJournal path s.file.content with
  | .ok entries => entries leaf
  | .error _ => none

variable {Params Prefix Address K : Type} (kaspa : Kaspa Params) (lib : AddressLib Prefix Address)
  (engine : ScriptEngine) (sha256 : Bytes → Block 32) (lms : LmsLib K) (node : List Coin → Client Address)

/-- One event. No outpoint is used twice, and a transaction is included only if its coins are
there. -/
def step (s : World) : Event Params Prefix Address → World
  | .deposit coin => if coin.outpoint ∈ s.coins.map Coin.outpoint then s else { s with coins := coin :: s.coins }
  | .run req =>
    let outcome := LmsWallet.run kaspa lib engine sha256 lms (node s.utxos) req s.file
    { s with file := outcome.file, mempool := s.mempool ++ outcome.broadcast.toList }
  | .confirm t txid blockDaaScore =>
    let inputs := t.inputs.map TransactionInput.previousOutpoint
    let coins := coinsOf t txid blockDaaScore ++ s.coins
    if t ∈ s.mempool ∧ (∀ o ∈ inputs, o ∈ s.utxos.map Coin.outpoint) ∧ (coins.map Coin.outpoint).Nodup then
      { s with coins := coins, spent := inputs ++ s.spent }
    else s

/-- A call leaves the coins where they are. -/
theorem utxos_step_run (s : World) (req : SpendRequest Params Prefix Address) :
    (s.step kaspa lib engine sha256 lms node (.run req)).utxos = s.utxos := rfl

/-- Something holds of every state of a run and the event that happens there. -/
def EveryStep (P : World → Event Params Prefix Address → Prop) (s : World) : List (Event Params Prefix Address) → Prop
  | [] => True
  | e :: es => P s e ∧ EveryStep P (s.step kaspa lib engine sha256 lms node e) es

/-- If the call signs with a leaf that had no record, the leaf that its change is paid to has none. -/
def ChangeFresh (s : World) : Event Params Prefix Address → Prop
  | .run req =>
    let s' := s.step kaspa lib engine sha256 lms node (.run req)
    ∀ utxo destination change leaf,
      planSpend kaspa lib (node s.utxos) req = .ok (utxo, [destination, change]) →
      s.recordOf req.journalPath ⟨req.vault.publicKey.id, utxo.leaf⟩ = none →
      s'.recordOf req.journalPath ⟨req.vault.publicKey.id, utxo.leaf⟩ ≠ none →
      req.vault.leafScript kaspa leaf = .ok ⟨change.spkVersion, change.script⟩ →
      s'.recordOf req.journalPath ⟨req.vault.publicKey.id, leaf⟩ = none
  | _ => True

/-- When `run` is called, no coin of the last leaf that is scanned has been spent. -/
def LastLeafUnspent (s : World) : Event Params Prefix Address → Prop
  | .run req => ∀ c ∈ s.coins, req.vault.leafScript kaspa (scanWindow - 1) = .ok c.scriptPublicKey →
      c.outpoint ∉ s.spent
  | _ => True

/-- Calls are for one vault on one network. -/
def ForVault (vault : Vault) (addressPrefix : Prefix) : Event Params Prefix Address → Prop
  | .run req => req.vault = vault ∧ req.addressPrefix = addressPrefix
  | _ => True

/-- Nothing has been signed for the vault yet, and nothing spent. -/
structure Initial (vault : Vault) (s : World) : Prop where
  file : ∃ records : List SpendRecord, s.file = ⟨records.flatMap recordLine, []⟩ ∧
    ∀ r ∈ records, r.signature ≠ [] ∧ r.leaf.vaultId ≠ vault.publicKey.id
  nodup : (s.coins.map Coin.outpoint).Nodup
  spent : s.spent = []
  mempool : s.mempool = []

/-! ### The invariant -/

section

variable {Params Prefix Address K : Type} {kaspa : Kaspa Params} {lib : AddressLib Prefix Address} {vault : Vault}
  {s : World} {records : List SpendRecord} {leaf : UInt32}

variable (vault) in
/-- A leaf of the vault has a record. -/
def HasSigned (records : List SpendRecord) (leaf : UInt32) : Prop :=
  ∃ r ∈ records, r.leaf = ⟨vault.publicKey.id, leaf⟩

variable (kaspa vault) in
/-- A leaf has a coin. -/
def Funded (s : World) (leaf : UInt32) : Prop :=
  ∃ c ∈ s.coins, c.outpoint ∉ s.spent ∧ vault.leafScript kaspa leaf = .ok c.scriptPublicKey

variable (kaspa vault) in
/-- A leaf has had a coin that was spent. -/
def SpentAt (s : World) (leaf : UInt32) : Prop :=
  ∃ c ∈ s.coins, c.outpoint ∈ s.spent ∧ vault.leafScript kaspa leaf = .ok c.scriptPublicKey

variable (kaspa vault) in
/-- A transaction spends a coin of a leaf that has signed, and pays its change to the next one. -/
def IsSpend (s : World) (records : List SpendRecord) (t : MassTransaction) : Prop :=
  ∃ leaf c destination change, HasSigned vault records leaf ∧ c ∈ s.coins ∧
    vault.leafScript kaspa leaf = .ok c.scriptPublicKey ∧
    t.inputs.map TransactionInput.previousOutpoint = [c.outpoint] ∧ t.outputs = [destination, change] ∧
    vault.leafScript kaspa (leaf + 1) = .ok change.scriptPublicKey

variable (kaspa vault) in
/-- What holds in every state, the journal's records being these. -/
structure Inv (s : World) (records : List SpendRecord) : Prop where
  file : s.file = ⟨records.flatMap recordLine, []⟩
  signed : ∀ r ∈ records, r.signature ≠ []
  nodup : (s.coins.map Coin.outpoint).Nodup
  spent : ∀ o ∈ s.spent, o ∈ s.coins.map Coin.outpoint
  mempool : ∀ t ∈ s.mempool, IsSpend kaspa vault s records t
  scanned : ∀ q, HasSigned vault records q → q < scanWindow
  /-- The last leaf that signed has a coin, or its coin was spent and the next leaf has one. -/
  latest : ∀ q, HasSigned vault records q → ∃ m, HasSigned vault records m ∧
    (∀ q', HasSigned vault records q' → q' ≤ m) ∧
    (Funded kaspa vault s m ∨ SpentAt kaspa vault s m ∧ Funded kaspa vault s (m + 1))

theorem Inv.init (kaspa : Kaspa Params) (h : World.Initial vault s) : ∃ records, Inv kaspa vault s records := by
  obtain ⟨records, hfile, hrecords⟩ := h.file
  have hnone (q : UInt32) : ¬HasSigned vault records q := by
    rintro ⟨r, hr, hleaf⟩
    exact (hrecords r hr).2 (by rw [hleaf])
  exact ⟨records, {
    file := hfile
    signed := fun r hr => (hrecords r hr).1
    nodup := h.nodup
    spent := by simp [h.spent]
    mempool := by simp [h.mempool]
    scanned := fun q hq => absurd hq (hnone q)
    latest := fun q hq => absurd hq (hnone q) }⟩

/-- A coin is told by its outpoint. -/
theorem Inv.coin_eq (h : Inv kaspa vault s records) {c c' : Coin} (hc : c ∈ s.coins) (hc' : c' ∈ s.coins)
    (ho : c.outpoint = c'.outpoint) : c = c' :=
  List.inj_on_of_nodup_map h.nodup hc hc' ho

theorem toNat_add_one {q : UInt32} (h : q < scanWindow) : (q + 1).toNat = q.toNat + 1 := by
  have hq : q.toNat < 64 := UInt32.lt_iff_toNat_lt.mp h
  rw [UInt32.toNat_add, UInt32.toNat_one]
  omega

theorem lt_add_one {q q' : UInt32} (h : q < scanWindow) (hle : q' ≤ q) : q' < q + 1 := by
  rw [UInt32.lt_iff_toNat_lt, toNat_add_one h]
  exact Nat.lt_succ_of_le (UInt32.le_iff_toNat_le.mp hle)

/-- The records of the journal, opened now. -/
theorem recordOf_eq_none (vault : Vault) (hfile : s.file = ⟨records.flatMap recordLine, []⟩)
    (hsigned : ∀ r ∈ records, r.signature ≠ [])
    (path : String) : s.recordOf path ⟨vault.publicKey.id, leaf⟩ = none ↔ ¬HasSigned vault records leaf := by
  obtain ⟨entries, hopen, hentries⟩ := openJournal_records path records hsigned
  have hcontent : s.file.content = records.flatMap recordLine := by
    rw [hfile, AppendFile.content, List.append_nil]
  rw [World.recordOf, hcontent, hopen, hentries, HasSigned]
  simp only [not_exists, not_and]

theorem hasSigned_append {r : SpendRecord} (hr : r.leaf = ⟨vault.publicKey.id, leaf⟩) {q : UInt32}
    (h : HasSigned vault (records ++ [r]) q) : HasSigned vault records q ∨ q = leaf := by
  obtain ⟨r', hr', hleaf⟩ := h
  rcases List.mem_append.mp hr' with hr' | hr'
  · exact .inl ⟨r', hr', hleaf⟩
  · rw [List.mem_singleton.mp hr', hr] at hleaf
    exact .inr (congrArg LeafId.leaf hleaf).symm

theorem mem_of_onlyFunded {window : UInt32} {c : Coin} (hc : vault.OnlyFunded kaspa s.utxos window leaf c) :
    c ∈ s.coins ∧ c.outpoint ∉ s.spent ∧ vault.leafScript kaspa leaf = .ok c.scriptPublicKey := by
  have hmem : c ∈ vault.coinsAt kaspa s.utxos leaf := by
    rw [hc.coin]
    exact List.mem_singleton_self c
  simp only [Vault.coinsAt, World.utxos, List.mem_filter, decide_eq_true_eq] at hmem
  exact ⟨hmem.1.1, hmem.1.2, hmem.2⟩

theorem funded_of_onlyFunded {window : UInt32} {c : Coin} (hc : vault.OnlyFunded kaspa s.utxos window leaf c) :
    Funded kaspa vault s leaf :=
  ⟨c, mem_of_onlyFunded hc⟩

/-- **A payment keeps the invariant.** -/
theorem Inv.deposit (h : Inv kaspa vault s records) {coin : Coin} (hnew : coin.outpoint ∉ s.coins.map Coin.outpoint) :
    Inv kaspa vault { s with coins := coin :: s.coins } records where
  file := h.file
  signed := h.signed
  nodup := List.nodup_cons.mpr ⟨hnew, h.nodup⟩
  spent o ho := List.mem_cons_of_mem _ (h.spent o ho)
  mempool t ht := by
    obtain ⟨q, c, destination, change, hq, hc, hrest⟩ := h.mempool t ht
    exact ⟨q, c, destination, change, hq, List.mem_cons_of_mem _ hc, hrest⟩
  scanned := h.scanned
  latest q hq := by
    obtain ⟨m, hm, hmax, hcoin⟩ := h.latest q hq
    refine ⟨m, hm, hmax, hcoin.imp ?_ (And.imp ?_ ?_)⟩
    all_goals exact fun ⟨c, hc, hrest⟩ => ⟨c, List.mem_cons_of_mem _ hc, hrest⟩

/-- **Inclusion keeps the invariant**: the coin of the last leaf that signed may move to the next. -/
theorem Inv.confirm (hbuild : Function.Injective kaspa.build) (hfree : vault.CollisionFree kaspa)
    (h : Inv kaspa vault s records) {t : MassTransaction} {txid : Block 32} {blockDaaScore : UInt64}
    (ht : t ∈ s.mempool)
    (hinputs : ∀ o ∈ t.inputs.map TransactionInput.previousOutpoint, o ∈ s.utxos.map Coin.outpoint)
    (hnodup : ((coinsOf t txid blockDaaScore ++ s.coins).map Coin.outpoint).Nodup) :
    Inv kaspa vault { s with
      coins := coinsOf t txid blockDaaScore ++ s.coins
      spent := t.inputs.map TransactionInput.previousOutpoint ++ s.spent } records := by
  obtain ⟨q, c, destination, change, hq, hc, hleaf, hin, hout, hnext⟩ := h.mempool t ht
  rw [hin] at hinputs ⊢
  have hspentNew : ∀ o ∈ [c.outpoint] ++ s.spent, o ∈ s.coins.map Coin.outpoint := by
    intro o ho
    rcases List.mem_append.mp ho with ho | ho
    · exact List.mem_map.mpr ⟨c, hc, (List.mem_singleton.mp ho).symm⟩
    · exact h.spent o ho
  -- the change is a coin of the next leaf, and not spent
  let paid : Coin := ⟨⟨txid, UInt32.ofNat 1⟩, change.value, change.scriptPublicKey, blockDaaScore⟩
  have hpaid : paid ∈ coinsOf t txid blockDaaScore := by simp [coinsOf, hout, paid]
  have hfresh : paid.outpoint ∉ [c.outpoint] ++ s.spent := by
    intro ho
    rw [List.map_append] at hnodup
    exact (List.nodup_append.mp hnodup).2.2 _ (List.mem_map_of_mem hpaid) _ (hspentNew _ ho) rfl
  refine ⟨h.file, h.signed, hnodup, fun o ho => ?_, fun t' ht' => ?_, h.scanned, fun q' hq' => ?_⟩
  · rw [List.map_append]
    exact List.mem_append_right _ (hspentNew o ho)
  · obtain ⟨q', c', destination', change', hq', hc', hrest⟩ := h.mempool t' ht'
    exact ⟨q', c', destination', change', hq', List.mem_append_right _ hc', hrest⟩
  · obtain ⟨m, hm, hmax, hcoin⟩ := h.latest q' hq'
    refine ⟨m, hm, hmax, ?_⟩
    rcases hcoin with ⟨c', hc', hunspent, hleaf'⟩ | ⟨⟨c₁, hc₁, hspent₁, hleaf₁⟩, c', hc', hunspent, hleaf'⟩
    · by_cases hsame : c'.outpoint = c.outpoint
      · -- it is the coin of the last leaf that is spent now
        obtain rfl := h.coin_eq hc' hc hsame
        obtain rfl := leafScript_inj hbuild hfree hleaf' hleaf
        exact .inr ⟨⟨c', List.mem_append_right _ hc', by simp, hleaf'⟩,
          paid, List.mem_append_left _ hpaid, hfresh, hnext⟩
      · exact .inl ⟨c', List.mem_append_right _ hc', by simp [hsame, hunspent], hleaf'⟩
    · have hne : c'.outpoint ≠ c.outpoint := by
        intro hsame
        obtain rfl := h.coin_eq hc' hc hsame
        have hqm := leafScript_inj hbuild hfree hleaf' hleaf
        exact absurd (hmax q hq) (UInt32.not_le.mpr (hqm ▸ lt_add_one (h.scanned m hm) UInt32.le_rfl))
      exact .inr ⟨⟨c₁, List.mem_append_right _ hc₁, by simp [hspent₁], hleaf₁⟩,
        c', List.mem_append_right _ hc', by simp [hne, hunspent], hleaf'⟩

/-- **Whoever signs anew comes after all who have signed**, if the last leaf that is scanned still has
its coins. -/
theorem Inv.lt_of_onlyFunded (h : Inv kaspa vault s records)
    (hlast : ∀ c ∈ s.coins, vault.leafScript kaspa (scanWindow - 1) = .ok c.scriptPublicKey → c.outpoint ∉ s.spent)
    {c : Coin} (hc : vault.OnlyFunded kaspa s.utxos scanWindow leaf c) (hnew : ¬HasSigned vault records leaf)
    {q : UInt32} (hq : HasSigned vault records q) : q < leaf := by
  have honly {l : UInt32} (hl : l < scanWindow) (hfunded : Funded kaspa vault s l) : l = leaf := by
    obtain ⟨c', hc', hunspent, hleaf⟩ := hfunded
    by_contra hne
    obtain ⟨script, hscript, -⟩ := map_eq_ok.mp hleaf
    have hnone := hc.others l hl (redeemScript_cases hscript).1 hne
    have hmem : c' ∈ vault.coinsAt kaspa s.utxos l := by
      simp [Vault.coinsAt, World.utxos, hc', hunspent, hleaf]
    rw [hnone] at hmem
    cases hmem
  obtain ⟨m, hm, hmax, hcoin⟩ := h.latest q hq
  rcases hcoin with hfunded | ⟨⟨c', hc', hspent, hleaf⟩, hfunded⟩
  · exact absurd (honly (h.scanned m hm) hfunded ▸ hm) hnew
  · have hne : m ≠ scanWindow - 1 := by
      rintro rfl
      exact hlast c' hc' hleaf hspent
    have hm' := h.scanned m hm
    have hnext : m + 1 < scanWindow := by
      have hlt : m.toNat < 64 := UInt32.lt_iff_toNat_lt.mp hm'
      have hne' : m.toNat ≠ 63 := fun heq => hne (UInt32.toNat_inj.mp heq)
      rw [UInt32.lt_iff_toNat_lt, toNat_add_one hm']
      change m.toNat + 1 < 64
      omega
    rw [← honly hnext hfunded]
    exact lt_add_one hm' (hmax q hq)

/-- A plan spends a coin of the only leaf in the window that has one, and pays its change to the next leaf. -/
theorem planSpend_spends (hlib : lib.Lawful kaspa) (hbuild : Function.Injective kaspa.build)
    (hfree : vault.CollisionFree kaspa) {client : Client Address} {req : SpendRequest Params Prefix Address}
    (hvault : req.vault = vault) (hserves : client.Serves lib req.addressPrefix s.utxos) {utxo : VaultUtxo}
    {outputs : List OutputView} (h : planSpend kaspa lib client req = .ok (utxo, outputs)) :
    ∃ c destination change, vault.OnlyFunded kaspa s.utxos scanWindow utxo.leaf c ∧
      c.outpoint = ⟨utxo.txid, utxo.index⟩ ∧ outputs = [destination, change] ∧
      vault.leafScript kaspa (utxo.leaf + 1) = .ok ⟨change.spkVersion, change.script⟩ := by
  subst hvault
  obtain ⟨hlocate, -, changeAddress, amount, hchange, rfl⟩ := planSpend_ok h
  obtain ⟨c, hc, hutxo⟩ := locateFunds_ok hlib hbuild hfree hserves hlocate
  obtain ⟨spk, hspk, hextract⟩ := address_eq_ok.mp hchange
  refine ⟨c, _, _, hc, by rw [hutxo]; rfl, rfl, ?_⟩
  rw [hspk, ← hlib.pay_of_extract _ _ _ hextract]
  rfl

variable (hlib : lib.Lawful kaspa) (hbuild : Function.Injective kaspa.build) (hfree : vault.CollisionFree kaspa)
  {engine : ScriptEngine} {sha256 : Bytes → Block 32} {lms : LmsLib K} (hkey : lms.signingKey.Honest)
  {node : List Coin → Client Address} {req : SpendRequest Params Prefix Address} (hvault : req.vault = vault)
  (hserves : ∀ coins, (node coins).Serves lib req.addressPrefix coins)

/-- What a plan broadcasts is a spend, once its leaf has a record. -/
theorem isSpend_of_onlyFunded {records' : List SpendRecord} {utxo : VaultUtxo} {c : Coin}
    {destination change : OutputView} (hc : vault.OnlyFunded kaspa s.utxos scanWindow utxo.leaf c)
    (hoc : c.outpoint = ⟨utxo.txid, utxo.index⟩)
    (hnext : vault.leafScript kaspa (utxo.leaf + 1) = .ok ⟨change.spkVersion, change.script⟩)
    (hsigned : HasSigned vault records' utxo.leaf) {t : MassTransaction}
    (hin : t.inputs.map TransactionInput.previousOutpoint = [⟨utxo.txid, utxo.index⟩])
    (hout : t.outputs = toOutputs [destination, change]) : IsSpend kaspa vault s records' t := by
  obtain ⟨hmem, -, hleaf⟩ := mem_of_onlyFunded hc
  exact ⟨utxo.leaf, c, _, _, hsigned, hmem, hleaf, hoc ▸ hin, hout, hnext⟩

/-- A spend that is broadcast. -/
theorem Inv.broadcast (h : Inv kaspa vault s records) (broadcast : Option MassTransaction)
    (ht : ∀ t, broadcast = some t → IsSpend kaspa vault s records t) :
    Inv kaspa vault { s with mempool := s.mempool ++ broadcast.toList } records where
  file := h.file
  signed := h.signed
  nodup := h.nodup
  spent := h.spent
  mempool t hmem := by
    rcases List.mem_append.mp hmem with hmem | hmem
    · exact h.mempool t hmem
    · exact ht t (Option.mem_toList.mp hmem)
  scanned := h.scanned
  latest := h.latest

/-- A record that is put, of a leaf that comes after all that have signed. -/
theorem Inv.record (h : Inv kaspa vault s records) {r : SpendRecord} (hr : r.leaf = ⟨vault.publicKey.id, leaf⟩)
    (hsigned : r.signature ≠ []) (hscanned : leaf < scanWindow) (hfunded : Funded kaspa vault s leaf)
    (hlast : ∀ q, HasSigned vault records q → q < leaf) :
    Inv kaspa vault { s with file := (s.file.append (recordLine r)).sync } (records ++ [r]) where
  file := by simp [h.file, AppendFile.append, AppendFile.sync, AppendFile.content]
  signed := by
    intro r' hr'
    rcases List.mem_append.mp hr' with hr' | hr'
    · exact h.signed r' hr'
    · exact List.mem_singleton.mp hr' ▸ hsigned
  nodup := h.nodup
  spent := h.spent
  mempool t ht := by
    obtain ⟨q, c, destination, change, ⟨r', hr', hleaf⟩, hrest⟩ := h.mempool t ht
    exact ⟨q, c, destination, change, ⟨r', List.mem_append_left _ hr', hleaf⟩, hrest⟩
  scanned q hq := by
    rcases hasSigned_append hr hq with hq | rfl
    · exact h.scanned q hq
    · exact hscanned
  latest _ _ := by
    refine ⟨leaf, ⟨r, by simp, hr⟩, fun q hq => ?_, .inl hfunded⟩
    rcases hasSigned_append hr hq with hq | rfl
    · exact UInt32.le_of_lt (hlast q hq)
    · exact UInt32.le_rfl

include hlib hbuild hfree hkey hvault hserves in
/-- **A call keeps the invariant**, and pays its change to a leaf without a record, if the last leaf
that is scanned still has its coins. -/
theorem Inv.run (h : Inv kaspa vault s records) (hlast : LastLeafUnspent kaspa s (.run req)) :
    (∃ records', Inv kaspa vault (s.step kaspa lib engine sha256 lms node (.run req)) records') ∧
      ChangeFresh kaspa lib engine sha256 lms node s (.run req) := by
  subst hvault
  generalize hs' : s.step kaspa lib engine sha256 lms node (.run req) = s'
  have hfresh : (∀ utxo destination change leaf,
      planSpend kaspa lib (node s.utxos) req = .ok (utxo, [destination, change]) →
      s.recordOf req.journalPath ⟨req.vault.publicKey.id, utxo.leaf⟩ = none →
      s'.recordOf req.journalPath ⟨req.vault.publicKey.id, utxo.leaf⟩ ≠ none →
      req.vault.leafScript kaspa leaf = .ok ⟨change.spkVersion, change.script⟩ →
      s'.recordOf req.journalPath ⟨req.vault.publicKey.id, leaf⟩ = none) →
      ChangeFresh kaspa lib engine sha256 lms node s (.run req) := fun hfresh => by
    subst hs'
    exact hfresh
  rcases run_cases kaspa lib engine sha256 hkey (node s.utxos) req s.file with
    ⟨hfile, hbroadcast⟩ | ⟨utxo, outputs, entries, hplan, hopen, hfile, hbroadcast⟩
  · -- nothing happened
    have hsame : s' = s := by
      rw [← hs', step]
      simp [hfile, hbroadcast]
    subst hsame
    exact ⟨⟨records, h⟩, hfresh fun _ _ _ _ _ hnone hsome => absurd hnone hsome⟩
  · obtain ⟨c, destination, change, hc, hoc, rfl, hnext⟩ :=
      planSpend_spends hlib hbuild hfree rfl (hserves _) hplan
    have hentries : s.recordOf req.journalPath ⟨req.vault.publicKey.id, utxo.leaf⟩ =
        entries ⟨req.vault.publicKey.id, utxo.leaf⟩ := by
      rw [World.recordOf, hopen]
    rcases hfile with ⟨hfile, r, hr⟩ | ⟨hnone, r, hleaf, hlen, hfile⟩
    · -- the leaf has signed before
      have hsigned : HasSigned req.vault records utxo.leaf := by
        by_contra hno
        rw [(recordOf_eq_none req.vault h.file h.signed req.journalPath).mpr hno, hr] at hentries
        cases hentries
      have heq : s' = { s with mempool := s.mempool ++ (LmsWallet.run kaspa lib engine sha256 lms (node s.utxos) req
          s.file).broadcast.toList } := by
        rw [← hs', step]
        simp only [hfile]
      refine ⟨⟨records, heq ▸ h.broadcast _ fun t ht => ?_⟩, hfresh ?_⟩
      · obtain ⟨hin, hout⟩ := hbroadcast t ht
        exact isSpend_of_onlyFunded hc hoc hnext hsigned hin hout
      · intro utxo' _ _ _ hplan' hnone
        obtain ⟨rfl, -⟩ := Prod.mk.inj (Except.ok.inj (hplan'.symm.trans hplan))
        exact absurd hsigned ((recordOf_eq_none req.vault h.file h.signed req.journalPath).mp hnone)
    · -- the leaf signs
      have hnew : ¬HasSigned req.vault records utxo.leaf :=
        (recordOf_eq_none req.vault h.file h.signed req.journalPath).mp (hentries.trans hnone)
      have hafter : ∀ q, HasSigned req.vault records q → q < utxo.leaf := fun q hq =>
        h.lt_of_onlyFunded hlast hc hnew hq
      have hne : r.signature ≠ [] := by
        intro hnil
        rw [hnil] at hlen
        exact absurd hlen (by decide)
      have hinv := (h.record hleaf hne hc.lt_window (funded_of_onlyFunded hc) hafter).broadcast
        (LmsWallet.run kaspa lib engine sha256 lms (node s.utxos) req s.file).broadcast fun t ht => by
          obtain ⟨hin, hout⟩ := hbroadcast t ht
          exact isSpend_of_onlyFunded hc hoc hnext ⟨r, by simp, hleaf⟩ hin hout
      have heq : s' = { s with
          file := (s.file.append (recordLine r)).sync
          mempool := s.mempool ++ (LmsWallet.run kaspa lib engine sha256 lms (node s.utxos) req
            s.file).broadcast.toList } := by
        rw [← hs', step]
        simp only [hfile]
      rw [heq]
      refine ⟨⟨_, hinv⟩, hfresh fun utxo' destination' change' leaf hplan' _ _ hscript => ?_⟩
      obtain ⟨rfl, houtputs⟩ := Prod.mk.inj (Except.ok.inj (hplan'.symm.trans hplan))
      simp only [List.cons.injEq, and_true] at houtputs
      obtain ⟨-, rfl⟩ := houtputs
      obtain rfl := leafScript_inj hbuild hfree hscript hnext
      rw [heq]
      refine (recordOf_eq_none req.vault hinv.file hinv.signed req.journalPath).mpr fun hsigned => ?_
      have hlt := lt_add_one hc.lt_window (UInt32.le_refl utxo'.leaf)
      rcases hasSigned_append hleaf hsigned with hsigned | heq'
      · exact absurd (hafter _ hsigned) (UInt32.not_lt.mpr (UInt32.le_of_lt hlt))
      · exact absurd heq' (UInt32.ne_of_lt hlt).symm

end

section

variable {Params Prefix Address K : Type} {kaspa : Kaspa Params} {lib : AddressLib Prefix Address} {vault : Vault}
  {engine : ScriptEngine} {sha256 : Bytes → Block 32} {lms : LmsLib K} {node : List Coin → Client Address}

/-- **One event keeps the invariant**, and the change of a call is fresh, under the condition. -/
theorem Inv.step (hlib : lib.Lawful kaspa) (hbuild : Function.Injective kaspa.build) (hfree : vault.CollisionFree kaspa)
    (hkey : lms.signingKey.Honest) {addressPrefix : Prefix} (hserves : ∀ coins, (node coins).Serves lib addressPrefix coins)
    {s : World} {records : List SpendRecord} (h : Inv kaspa vault s records) {e : Event Params Prefix Address}
    (hvault : ForVault vault addressPrefix e) (hlast : LastLeafUnspent kaspa s e) :
    (∃ records', Inv kaspa vault (s.step kaspa lib engine sha256 lms node e) records') ∧
      ChangeFresh kaspa lib engine sha256 lms node s e := by
  cases e with
  | deposit coin =>
    refine ⟨⟨records, ?_⟩, trivial⟩
    rw [World.step]
    split_ifs with hnew
    · exact h
    · exact h.deposit hnew
  | run req =>
    obtain ⟨hvault, rfl⟩ := hvault
    exact h.run hlib hbuild hfree hkey hvault hserves hlast
  | confirm t txid blockDaaScore =>
    refine ⟨⟨records, ?_⟩, trivial⟩
    rw [World.step]
    split_ifs with hincluded
    · exact h.confirm hbuild hfree hincluded.1 hincluded.2.1 hincluded.2.2
    · exact h

/-- **As long as no coin of the last leaf that is scanned was spent, change goes to fresh leaves**: in
every run all of whose calls are made in such a state. -/
theorem everyStep_changeFresh (hlib : lib.Lawful kaspa) (hbuild : Function.Injective kaspa.build)
    (hfree : vault.CollisionFree kaspa) (hkey : lms.signingKey.Honest) {addressPrefix : Prefix}
    (hserves : ∀ coins, (node coins).Serves lib addressPrefix coins) {s : World} (hinit : Initial vault s)
    {events : List (Event Params Prefix Address)} (hvault : ∀ e ∈ events, ForVault vault addressPrefix e)
    (hlast : EveryStep kaspa lib engine sha256 lms node (LastLeafUnspent kaspa) s events) :
    EveryStep kaspa lib engine sha256 lms node (ChangeFresh kaspa lib engine sha256 lms node) s events := by
  obtain ⟨records, h⟩ := Inv.init kaspa hinit
  clear hinit
  induction events generalizing s records with
  | nil => trivial
  | cons e events ih =>
    obtain ⟨he, hrest⟩ := hlast
    obtain ⟨⟨records', hnext⟩, hfresh⟩ := h.step hlib hbuild hfree hkey hserves (hvault e (by simp)) he
    exact ⟨hfresh, ih (fun e' he' => hvault e' (by simp [he'])) hrest records' hnext⟩

end

end World

/-! ### A test wallet -/

/-- An LMS library whose keys are only their leaf, which stands in the bytes of the private key. -/
def testLms : LmsLib (Block 16 × UInt32) where
  chars := ⟨fun _ => true, fun _ => false⟩
  kats := [("sha256_m32_h15", true)]
  privateKey _ := zeros 52
  fromBytes bytes := some (blockOf 16 1, UInt32.ofNat (beNat (slice bytes 48 52)))
  signingKey := testKey

/-- An engine that accepts. -/
def testEngine : ScriptEngine := ⟨fun _ _ => .ok 500000, fun _ _ _ => .ok 500000⟩

/-- What is paid out of a coin at a fee of 0.1 KAS, and what is left. -/
structure TestSpend where
  coin : UInt64
  amount : UInt64
  change : UInt64
  worth : coin.toNat = amount.toNat + change.toNat + 10000000
  small : coin.toNat < 2 ^ 63
  amount_dust : dustThreshold ≤ amount
  change_dust : dustThreshold ≤ change

/-- Where it is paid to. -/
def testDestination : Bytes := scriptHashScript (List.replicate 32 0xaa)

namespace TestSpend

/-- Half of a coin. -/
def first : TestSpend := ⟨1000000000, 500000000, 490000000, rfl, by decide, by decide, by decide⟩

/-- Some of its change. -/
def second : TestSpend := ⟨490000000, 200000000, 280000000, rfl, by decide, by decide, by decide⟩

/-- The call that asks for it. -/
def request (spend : TestSpend) : SpendRequest Unit Unit Bytes where
  vault := testVault
  xi := Block.zero 32
  keyIndex := 0
  addressPrefix := ()
  params := ()
  destination := testDestination
  amount := spend.amount
  fee := some 10000000
  journalPath := "journal"
  confirmed := true
  dryRun := false

/-- Its outputs, made from a leaf. -/
def outputs (spend : TestSpend) (leaf : UInt32) : List OutputView :=
  [⟨spend.amount, 0, testDestination⟩, ⟨spend.change, 0, leafOutputScript testVault (leaf + 1)⟩]

variable (spend : TestSpend)

theorem toNat_add : (spend.amount + spend.change).toNat = spend.amount.toNat + spend.change.toNat := by
  have hworth := spend.worth
  have hlt := spend.small
  rw [UInt64.toNat_add]
  omega

theorem amount_le : spend.amount ≤ spend.coin := by
  have hworth := spend.worth
  rw [UInt64.le_iff_toNat_le]
  omega

theorem add_le : spend.amount + spend.change ≤ spend.coin := by
  have hworth := spend.worth
  rw [UInt64.le_iff_toNat_le, spend.toNat_add]
  omega

/-- What the outputs leave is the fee. -/
theorem sub_add : spend.coin - (spend.amount + spend.change) = 10000000 := by
  have hworth := spend.worth
  rw [← UInt64.toNat_inj, UInt64.toNat_sub_of_le _ _ spend.add_le, spend.toNat_add]
  change _ = 10000000
  omega

theorem amount_fee_le : spend.amount + 10000000 ≤ spend.coin := by
  have hworth := spend.worth
  have hlt := spend.small
  rw [UInt64.le_iff_toNat_le, UInt64.toNat_add]
  change (spend.amount.toNat + 10000000) % _ ≤ _
  omega

/-- What the amount and the fee leave is the change. -/
theorem sub_sub : spend.coin - spend.amount - 10000000 = spend.change := by
  have hworth := spend.worth
  have hrest := UInt64.toNat_sub_of_le _ _ spend.amount_le
  rw [← UInt64.toNat_inj, UInt64.toNat_sub_of_le, hrest]
  · change _ - 10000000 = _
    omega
  · rw [UInt64.le_iff_toNat_le, hrest]
    change 10000000 ≤ _
    omega

/-- The change that a plan begins with. -/
theorem saturatingSub_eq : saturatingSub spend.coin spend.amount = spend.coin - spend.amount :=
  if_pos spend.amount_le

theorem add_sub_le : spend.amount + (spend.coin - spend.amount) ≤ spend.coin := by
  rw [UInt64.add_comm, UInt64.sub_add_cancel]
  exact UInt64.le_rfl

theorem sub_dust : dustThreshold ≤ spend.coin - spend.amount := by
  have hworth := spend.worth
  have hdust := UInt64.le_iff_toNat_le.mp spend.change_dust
  rw [UInt64.le_iff_toNat_le, UInt64.toNat_sub_of_le _ _ spend.amount_le]
  omega

end TestSpend

theorem honest_testKey : testKey.Honest := fun _ _ => length_zeros _

theorem signingKeyAt_testLms {leaf : UInt32} (h : leaf < testVault.leafCount) (xi : Block 32) :
    signingKeyAt testLms xi leaf = .ok (blockOf 16 1, leaf) := by
  have hleaf : leaf.toNat < vaultParams.leafCount := UInt32.lt_iff_toNat_lt.mp h
  have hindex : slice ((zeros 52).take indexOffset ++ beBytes 4 leaf.toNat ++ (zeros 52).drop (indexOffset + 4)) 48 52 =
      beBytes 4 leaf.toNat := by
    rw [List.append_assoc, slice_append_of_ge (by simp [indexOffset]), slice_append_of_le (by simp [indexOffset])]
    simp [indexOffset, slice]
  have hread : UInt32.ofNat (beNat (beBytes 4 leaf.toNat)) = leaf := by
    rw [beNat_beBytes, Nat.mod_eq_of_lt (leaf.toNat_lt.trans_eq (by norm_num)), UInt32.ofNat_toNat]
  rw [signingKeyAt, ensure_bind_eq_ok, bind_eq_ok]
  refine ⟨hleaf, (), rfl, ?_⟩
  rw [bind_eq_ok]
  refine ⟨(blockOf 16 1, leaf), ?_, ?_⟩
  · simp only [testLms, orFail, hindex, hread]
  · rw [ensure_bind_eq_ok]
    exact ⟨rfl, rfl⟩

variable {utxo : VaultUtxo} {outputs : List OutputView}

theorem shape_testVault (h : utxo.leaf < testVault.leafCount) (outputs : List OutputView) :
    ∃ s, shape scriptKaspa () testVault utxo 1 outputs sizingBudgetUnits = .ok s ∧ s.outputs = outputs ∧
      s.utxoAmount = utxo.amount ∧ s.expectedOutputCount = 2 := by
  obtain ⟨script, hscript⟩ := testVault.redeemScript_eq_ok scriptKaspa h
  obtain ⟨signatureScript, hplaceholder⟩ :
      ∃ signatureScript, placeholderSignatureScript scriptKaspa testVault utxo.leaf = .ok signatureScript := by
    simp only [placeholderSignatureScript, bind_eq_ok]
    exact ⟨_, script, hscript, _, witnessPushes_eq_items (length_zeros _), rfl⟩
  simp only [shape, bind_eq_ok]
  exact ⟨_, ⟨signatureScript, hplaceholder, script, hscript, rfl⟩, rfl, rfl, rfl⟩

/-- Two outputs within the coin, none of them dust, that pay to script hashes. -/
structure Sound (utxo : VaultUtxo) (outputs : List OutputView) : Prop where
  length : outputs.length = 2
  total : totalOut outputs ≤ utxo.amount
  dust : ∀ o ∈ outputs, dustThreshold ≤ o.amount
  relayable : ∀ o ∈ toOutputs outputs, Relayable scriptKaspa o

theorem relayable_leafOutputScript (amount : UInt64) (vault : Vault) (leaf : UInt32) :
    Relayable scriptKaspa ⟨amount, ⟨0, leafOutputScript vault leaf⟩⟩ :=
  relayable_scriptHashScript amount (by simp [length_hashPrefix])

theorem relayable_testDestination (amount : UInt64) : Relayable scriptKaspa ⟨amount, ⟨0, testDestination⟩⟩ :=
  relayable_scriptHashScript amount List.length_replicate

theorem sound_pair {amount change : UInt64} {leaf : UInt32} (htotal : amount + change ≤ utxo.amount)
    (hamount : dustThreshold ≤ amount) (hchange : dustThreshold ≤ change) :
    Sound utxo [⟨amount, 0, testDestination⟩, ⟨change, 0, leafOutputScript testVault leaf⟩] where
  length := rfl
  total := by simpa [totalOut] using htotal
  dust o ho := by
    rcases List.mem_pair.mp ho with rfl | rfl
    · exact hamount
    · exact hchange
  relayable o ho := by
    rcases List.mem_pair.mp ho with rfl | rfl
    · exact relayable_testDestination amount
    · exact relayable_leafOutputScript change testVault leaf

theorem estimateSpend_testVault (h : utxo.leaf < testVault.leafCount) (hsound : Sound utxo outputs) :
    ∃ s r, shape scriptKaspa () testVault utxo 1 outputs sizingBudgetUnits = .ok s ∧ estimate scriptKaspa s = .ok r ∧
      s.outputs = outputs ∧ s.utxoAmount = utxo.amount ∧
      estimateSpend scriptKaspa () testVault utxo 1 outputs sizingBudgetUnits = .ok r := by
  obtain ⟨s, hs, houtputs, hamount, hcount⟩ := shape_testVault h outputs
  have hest : estimate scriptKaspa s = .ok (s.report scriptKaspa 11222) := by
    refine estimate_eq_ok.mpr ⟨?_, ?_, ?_, ?_, 11222, rfl, rfl⟩
    · rw [houtputs, hcount, hsound.length]
    · rw [houtputs, hamount]
      exact hsound.total
    · rw [houtputs]
      exact hsound.dust
    · rw [houtputs]
      exact hsound.relayable
  refine ⟨s, _, hs, hest, houtputs, hamount, ?_⟩
  rw [estimateSpend, hs]
  exact hest

section

variable (spend : TestSpend) {leaf : UInt32} {c : Coin}

theorem TestSpend.sound (hamount : c.amount = spend.coin) (leaf : UInt32) :
    Sound (c.toVaultUtxo leaf) (spend.outputs leaf) :=
  sound_pair (by rw [show (c.toVaultUtxo leaf).amount = spend.coin from hamount]; exact spend.add_le) spend.amount_dust
    spend.change_dust

theorem TestSpend.totalOut_outputs (leaf : UInt32) : totalOut (spend.outputs leaf) = spend.amount + spend.change := by
  simp [totalOut, TestSpend.outputs]

theorem locateFunds_testClient {coins : List Coin} (hc : testVault.OnlyFunded scriptKaspa coins scanWindow leaf c) :
    locateFunds scriptKaspa testLib (testClient coins) testVault () scanWindow = .ok (leaf, c.toVaultUtxo leaf) :=
  (locateFunds_eq_ok lawful_testLib encodeScript_injective collisionFree_testVault (serves_testClient coins)
    fun _ => ⟨_, rfl⟩).mpr ⟨c, hc, rfl⟩

/-- The plan for a coin at a leaf. -/
theorem TestSpend.planSpend_eq {coins : List Coin} (hc : testVault.OnlyFunded scriptKaspa coins scanWindow leaf c)
    (hamount : c.amount = spend.coin) :
    planSpend scriptKaspa testLib (testClient coins) spend.request = .ok (c.toVaultUtxo leaf, spend.outputs leaf) := by
  have hleaf : leaf.toNat < 64 := UInt32.lt_iff_toNat_lt.mp hc.lt_window
  have hnext : leaf + 1 < testVault.leafCount := by
    rw [UInt32.lt_iff_toNat_lt, World.toNat_add_one hc.lt_window]
    change leaf.toNat + 1 < 32768
    omega
  have htarget : testVault.changeTarget 0 leaf = .nextLeaf 0 (leaf + 1) := if_pos hnext
  have hcoin : (c.toVaultUtxo leaf).amount = spend.coin := hamount
  -- the change is reckoned twice, first without a fee
  have hsound : Sound (c.toVaultUtxo leaf) [⟨spend.amount, 0, testDestination⟩,
      ⟨spend.coin - spend.amount, 0, leafOutputScript testVault (leaf + 1)⟩] :=
    sound_pair (hcoin ▸ spend.add_sub_le) spend.amount_dust spend.sub_dust
  obtain ⟨-, probe, -, -, -, -, hprobe⟩ := estimateSpend_testVault hc.lt_leafCount hsound
  obtain ⟨-, report, -, -, -, -, hreport⟩ := estimateSpend_testVault hc.lt_leafCount (spend.sound hamount leaf)
  have hchange : testVault.address scriptKaspa testLib () (testVault.changeTarget 0 leaf).leaf =
      .ok (leafOutputScript testVault (leaf + 1)) := by
    rw [htarget]
    exact address_scriptKaspa hnext
  refine bind_eq_ok.mpr ⟨_, locateFunds_testClient hc, ensure_bind_eq_ok.mpr ⟨congrArg ChangeTarget.isMigration htarget, ?_⟩⟩
  refine bind_eq_ok.mpr ⟨_, hchange, bind_eq_ok.mpr ⟨probe, ?_, ensure_bind_eq_ok.mpr ⟨?_, ?_⟩⟩⟩
  · rw [← spend.saturatingSub_eq, ← hcoin] at hprobe
    exact hprobe
  · rw [hcoin]
    exact spend.amount_fee_le
  · have hrest : (c.toVaultUtxo leaf).amount - spend.request.amount -
        spend.request.fee.getD (probe.minimumFee * (100 + feeMarginPercent) / 100) = spend.change := by
      rw [hcoin]
      exact spend.sub_sub
    rw [hrest]
    exact bind_eq_ok.mpr ⟨report, hreport, bind_eq_ok.mpr ⟨_, address_scriptKaspa hc.lt_leafCount,
      ensure_bind_eq_ok.mpr ⟨rfl, rfl⟩⟩⟩

/-- The call that is made of `buildSpend`. -/
theorem TestSpend.checkSpend_eq (sha256 : Bytes → Block 32) (hleaf : leaf < testVault.leafCount)
    (hamount : c.amount = spend.coin) (hindex : c.outpoint.index.toNat < 2 ^ 31) :
    ∃ report digest, checkSpend scriptKaspa sha256 (spend.request.call (c.toVaultUtxo leaf) (spend.outputs leaf)
      (blockOf 16 1, leaf)) = .ok (report, digest) := by
  have hfits : SpendView.Fits ⟨1, (c.toVaultUtxo leaf).txid, (c.toVaultUtxo leaf).index, spend.outputs leaf⟩ := by
    have hworth := spend.worth
    have hsmall := spend.small
    refine ⟨Nat.two_pos, (by decide : 2 < 2 ^ 7), (by decide : (1 : UInt16).toNat < 2 ^ 15), hindex, fun o ho => ?_⟩
    rcases List.mem_pair.mp ho with rfl | rfl
    · exact ⟨(by omega : spend.amount.toNat < 2 ^ 63), (by decide : (spkWireBytes 0 testDestination).length < 2 ^ 15)⟩
    · refine ⟨(by omega : spend.change.toNat < 2 ^ 63), ?_⟩
      simp [spkWireBytes, leafOutputScript, scriptHashScript, length_hashPrefix]
  obtain ⟨s, report, hs, hest, houtputs, hamount', -⟩ := estimateSpend_testVault hleaf (spend.sound hamount leaf)
  obtain ⟨-, -, -, -, storage, hstorage, rfl⟩ := estimate_eq_ok.mp hest
  obtain rfl : 11222 = storage := Option.some.inj hstorage
  have hfee : (s.report scriptKaspa 11222).fee = 10000000 := by
    change s.utxoAmount - totalOut s.outputs = 10000000
    rw [houtputs, hamount', spend.totalOut_outputs, show (c.toVaultUtxo leaf).amount = spend.coin from hamount,
      spend.sub_add]
  have henforce : enforce scriptKaspa s = .ok (s.report scriptKaspa 11222) := by
    refine enforce_eq_ok.mpr ⟨hest, ?_, ?_⟩
    · rw [hfee]
      exact (by decide : minimumRelayFee (max 30000 (99564 / 2)) ≤ 10000000)
    · exact (by decide : max (max (30000 : UInt64) (99564 / 2)) 11222 ≤ 500000)
  have hpreflight : preflight scriptKaspa () testVault (c.toVaultUtxo leaf) 1 (spend.outputs leaf) sizingBudgetUnits =
      .ok (s.report scriptKaspa 11222) := by
    rw [preflight, hs]
    exact mapError_eq_ok.mpr henforce
  have hdigest : bindingDigest sha256
      ⟨1, (c.toVaultUtxo leaf).txid, (c.toVaultUtxo leaf).index, spend.outputs leaf⟩ = .ok (sha256 (SpendView.layout _)) :=
    map_eq_ok.mpr ⟨_, bindingPreimage_eq_ok.mpr ⟨hfits, rfl⟩, rfl⟩
  exact ⟨_, _, ensure_bind_eq_ok.mpr ⟨rfl, ensure_bind_eq_ok.mpr ⟨hleaf,
    bind_eq_ok.mpr ⟨_, hpreflight, bind_eq_ok.mpr ⟨_, hdigest, rfl⟩⟩⟩⟩⟩

/-- **The test wallet signs**, from a leaf that has no record. -/
theorem TestSpend.buildSpend_eq (sha256 : Bytes → Block 32) (file : AppendFile Char) (entries : Entries)
    (hleaf : leaf < testVault.leafCount) (hamount : c.amount = spend.coin) (hindex : c.outpoint.index.toNat < 2 ^ 31)
    (hnone : entries ⟨testVault.publicKey.id, leaf⟩ = none) :
    ∃ (r : SpendRecord) (signed : SignedSpend), r.leaf = ⟨testVault.publicKey.id, leaf⟩ ∧ r.signature ≠ [] ∧
      buildSpend scriptKaspa sha256 (fileJournal .nowhere) testLms.signingKey (file, entries)
        (spend.request.call (c.toVaultUtxo leaf) (spend.outputs leaf) (blockOf 16 1, leaf)) = (.ok signed,
          ((file.append (recordLine r)).sync, Function.update entries r.leaf (some r)), blockOf 16 1, leaf + 1) := by
  obtain ⟨report, digest, hcheck⟩ := spend.checkSpend_eq sha256 hleaf hamount hindex
  let r : SpendRecord := ⟨⟨testVault.publicKey.id, leaf⟩, digest, zeros (signatureLen vaultParams)⟩
  have hsign : signAt testKey leaf digest (blockOf 16 1, leaf) =
      (.ok (zeros (signatureLen vaultParams)), blockOf 16 1, leaf + 1) := if_pos rfl
  let call := spend.request.call (c.toVaultUtxo leaf) (spend.outputs leaf) (blockOf 16 1, leaf)
  have honce : signOnce (fileJournal .nowhere) (file, entries) ⟨call.vault.publicKey.id, call.utxo.leaf⟩ digest
      (signAt testLms.signingKey call.utxo.leaf digest) call.signingKey = (.ok (.signed r),
        ((file.append (recordLine r)).sync, Function.update entries r.leaf (some r)), blockOf 16 1, leaf + 1) := by
    change signOnce (fileJournal .nowhere) (file, entries) ⟨testVault.publicKey.id, leaf⟩ digest
      (signAt testKey leaf digest) (blockOf 16 1, leaf) = _
    have hget : (fileJournal .nowhere).get (file, entries) ⟨testVault.publicKey.id, leaf⟩ = none := hnone
    simp only [signOnce, hget, hsign]
    rfl
  obtain ⟨script, hscript⟩ := testVault.redeemScript_eq_ok scriptKaspa hleaf
  have hassemble : ∃ signed, assembleSpend scriptKaspa (spend.request.call (c.toVaultUtxo leaf) (spend.outputs leaf)
      (blockOf 16 1, leaf)) report digest (.signed r) = .ok signed := by
    simp only [assembleSpend, bind_eq_ok]
    exact ⟨_, script, hscript, _, witnessPushes_eq_items (length_zeros _), _, rfl, rfl⟩
  obtain ⟨signed, hsigned⟩ := hassemble
  refine ⟨r, signed, rfl, (by decide : zeros (signatureLen vaultParams) ≠ []), ?_⟩
  simp only [buildSpend, hcheck, call, honce, hsigned]

/-- **And it broadcasts** what it signed. -/
theorem TestSpend.run_eq (sha256 : Bytes → Block 32) {coins : List Coin} (file : AppendFile Char) (entries : Entries)
    (hc : testVault.OnlyFunded scriptKaspa coins scanWindow leaf c) (hamount : c.amount = spend.coin)
    (hindex : c.outpoint.index.toNat < 2 ^ 31) (hopen : openJournal "journal" file.content = .ok entries)
    (hnone : entries ⟨testVault.publicKey.id, leaf⟩ = none) :
    ∃ (r : SpendRecord) (t : MassTransaction), r.leaf = ⟨testVault.publicKey.id, leaf⟩ ∧ r.signature ≠ [] ∧
      t.inputs.map TransactionInput.previousOutpoint = [c.outpoint] ∧ t.outputs = toOutputs (spend.outputs leaf) ∧
      run scriptKaspa testLib testEngine sha256 testLms (testClient coins) spend.request file =
        ⟨.ok (), (file.append (recordLine r)).sync, some t⟩ := by
  have hplan := spend.planSpend_eq hc hamount
  have hposition : signingKeyAt testLms spend.request.xi (c.toVaultUtxo leaf).leaf = .ok (blockOf 16 1, leaf) :=
    signingKeyAt_testLms hc.lt_leafCount spend.request.xi
  obtain ⟨r, signed, hleaf, hsignature, hbuild⟩ :=
    spend.buildSpend_eq sha256 file entries hc.lt_leafCount hamount hindex hnone
  have hcast : ∃ t : MassTransaction, t.inputs.map TransactionInput.previousOutpoint = [c.outpoint] ∧
      t.outputs = toOutputs (spend.outputs leaf) ∧ broadcastSpend scriptKaspa testEngine (testClient coins) spend.request
        (c.toVaultUtxo leaf) (spend.outputs leaf) signed = .ok (some t) := by
    refine ⟨(buildTx scriptKaspa signed (c.toVaultUtxo leaf) 1 (spend.outputs leaf) 52).1, rfl, rfl, ?_⟩
    have hassembled : assemble scriptKaspa testEngine signed (c.toVaultUtxo leaf) 1 (spend.outputs leaf) =
        .ok ⟨_, _, 500000, 52⟩ :=
      ensure_bind_eq_ok.mpr ⟨(spend.sound hamount leaf).total,
        bind_eq_ok.mpr ⟨500000, rfl, ensure_bind_eq_ok.mpr ⟨by decide, rfl⟩⟩⟩
    exact bind_eq_ok.mpr ⟨_, hassembled, rfl⟩
  obtain ⟨t, hin, hout, hcast⟩ := hcast
  exact ⟨r, t, hleaf, hsignature, hin, hout, run_eq_ok hplan hopen hposition hbuild hcast⟩

end

namespace World

/-- The test wallet with an empty journal, before anybody has paid. -/
def testWorld : World := ⟨[], [], [], .empty⟩

theorem initial_testWorld : Initial testVault testWorld where
  file := ⟨[], rfl, by simp⟩
  nodup := List.nodup_nil
  spent := rfl
  mempool := rfl

/-! ### Its coins -/

/-- A coin at a leaf, among coins that are at none. -/
theorem onlyFunded_append {leaf : UInt32} {c : Coin} {before after : List Coin} (h : leaf < scanWindow)
    (hc : testVault.leafScript scriptKaspa leaf = .ok c.scriptPublicKey)
    (hothers : ∀ c' ∈ before ++ after, ∀ l < scanWindow, testVault.leafScript scriptKaspa l ≠ .ok c'.scriptPublicKey) :
    testVault.OnlyFunded scriptKaspa (before ++ c :: after) scanWindow leaf c := by
  have hnone {coins : List Coin} (hsub : coins ⊆ before ++ after) (l : UInt32) (hl : l < scanWindow) :
      testVault.coinsAt scriptKaspa coins l = [] :=
    List.filter_eq_nil_iff.mpr fun c' hc' => by simpa using hothers c' (hsub hc') l hl
  have hsplit (l : UInt32) (hl : l < scanWindow) : testVault.coinsAt scriptKaspa (before ++ c :: after) l =
      testVault.coinsAt scriptKaspa [c] l := by
    have happend : testVault.coinsAt scriptKaspa (before ++ ([c] ++ after)) l = testVault.coinsAt scriptKaspa before l ++
        (testVault.coinsAt scriptKaspa [c] l ++ testVault.coinsAt scriptKaspa after l) := by
      simp only [Vault.coinsAt, List.filter_append]
    rw [← List.singleton_append, happend, hnone (List.subset_append_left _ _) l hl,
      hnone (List.subset_append_right _ _) l hl, List.nil_append, List.append_nil]
  refine ⟨h, UInt32.lt_trans h (by decide), ?_, fun l hl _ hne => ?_⟩
  · rw [hsplit leaf h]
    simp [Vault.coinsAt, hc]
  · rw [hsplit l hl]
    refine List.filter_eq_nil_iff.mpr fun c' hc' hl' => hne ?_
    rw [List.mem_singleton.mp hc', decide_eq_true_eq] at hl'
    exact leafScript_inj encodeScript_injective collisionFree_testVault hl' hc

theorem leafScript_coinAt {leaf : UInt32} (h : leaf < testVault.leafCount) :
    testVault.leafScript scriptKaspa leaf = .ok (coinAt leaf).scriptPublicKey := by
  simp [coinAt, leafScript_scriptKaspa h, Except.toOption]

theorem onlyFunded_coinAt {leaf : UInt32} (h : leaf < scanWindow) {others : List Coin}
    (hothers : ∀ c ∈ others, ∀ l < scanWindow, testVault.leafScript scriptKaspa l ≠ .ok c.scriptPublicKey) :
    testVault.OnlyFunded scriptKaspa (coinAt leaf :: others) scanWindow leaf (coinAt leaf) :=
  @onlyFunded_append leaf (coinAt leaf) [] others h (leafScript_coinAt (UInt32.lt_trans h (by decide))) hothers

/-- What is paid goes to no leaf. -/
theorem leafScript_ne_testDestination (leaf : UInt32) :
    testVault.leafScript scriptKaspa leaf ≠ .ok ⟨0, testDestination⟩ := by
  intro hleaf
  obtain ⟨script, hscript, -⟩ := map_eq_ok.mp hleaf
  have hspk := Except.ok.inj ((leafScript_scriptKaspa (redeemScript_cases hscript).1).symm.trans hleaf)
  have hlast := congrArg (fun spk => spk.script.drop 24) hspk
  simp [leafOutputScript, scriptHashScript, testDestination, length_hashPrefix] at hlast
  exact absurd hlast (by decide)

/-- The coins that a spend makes. -/
theorem coinsOf_eq {spend : TestSpend} {leaf : UInt32} {t : MassTransaction}
    (hout : t.outputs = toOutputs (spend.outputs leaf)) (txid : Block 32) : coinsOf t txid 0 =
      [⟨⟨txid, 0⟩, spend.amount, ⟨0, testDestination⟩, 0⟩,
        ⟨⟨txid, 1⟩, spend.change, ⟨0, leafOutputScript testVault (leaf + 1)⟩, 0⟩] := by
  rw [coinsOf, hout]
  rfl

theorem nodup_coinsOf {spend : TestSpend} {leaf : UInt32} {t : MassTransaction}
    (hout : t.outputs = toOutputs (spend.outputs leaf)) :
    ((coinsOf t (blockOf 32 9) 0 ++ [coinAt leaf]).map Coin.outpoint).Nodup := by
  have hne : blockOf 32 9 ≠ blockOf 32 7 := by decide
  simp [coinsOf_eq hout, coinAt, hne]

/-! ### What a call and inclusion do -/

/-- A call, from a leaf that has no record. -/
theorem step_run (spend : TestSpend) {s : World} {records : List SpendRecord} {leaf : UInt32} {c : Coin}
    (hfile : s.file = ⟨records.flatMap recordLine, []⟩) (hsigned : ∀ r ∈ records, r.signature ≠ [])
    (hc : testVault.OnlyFunded scriptKaspa s.utxos scanWindow leaf c) (hamount : c.amount = spend.coin)
    (hindex : c.outpoint.index.toNat < 2 ^ 31) (hnew : ¬HasSigned testVault records leaf) :
    ∃ (r : SpendRecord) (t : MassTransaction), r.leaf = ⟨testVault.publicKey.id, leaf⟩ ∧ r.signature ≠ [] ∧
      t.inputs.map TransactionInput.previousOutpoint = [c.outpoint] ∧ t.outputs = toOutputs (spend.outputs leaf) ∧
      World.step scriptKaspa testLib testEngine testHash testLms testClient s (.run spend.request) =
        { s with file := ⟨(records ++ [r]).flatMap recordLine, []⟩, mempool := s.mempool ++ [t] } := by
  obtain ⟨entries, hopen, hentries⟩ := openJournal_records "journal" records hsigned
  have hcontent : s.file.content = records.flatMap recordLine := by
    rw [hfile, AppendFile.content, List.append_nil]
  have hnone : entries ⟨testVault.publicKey.id, leaf⟩ = none :=
    (hentries _).mpr fun r hr hleaf => hnew ⟨r, hr, hleaf⟩
  obtain ⟨r, t, hleaf, hsig, hin, hout, hrun⟩ :=
    spend.run_eq testHash s.file entries hc hamount hindex (hcontent ▸ hopen) hnone
  refine ⟨r, t, hleaf, hsig, hin, hout, ?_⟩
  rw [World.step, hrun, hfile]
  simp [AppendFile.append, AppendFile.sync, AppendFile.content]

/-- Somebody has paid to a leaf. -/
def paidWorld (leaf : UInt32) : World := ⟨[coinAt leaf], [], [], .empty⟩

@[simp] theorem utxos_paidWorld (leaf : UInt32) : (paidWorld leaf).utxos = [coinAt leaf] := by
  simp [World.utxos, paidWorld]

/-- The spend of the coin has been included. -/
def includedWorld (leaf : UInt32) (r : SpendRecord) (t : MassTransaction) : World where
  coins := coinsOf t (blockOf 32 9) 0 ++ [coinAt leaf]
  spent := [(coinAt leaf).outpoint]
  mempool := [t]
  file := ⟨[r].flatMap recordLine, []⟩

/-- Half of the coin is spent. -/
theorem step_run_paidWorld (leaf : UInt32) (h : leaf < scanWindow) :
    ∃ (r : SpendRecord) (t : MassTransaction), r.leaf = ⟨testVault.publicKey.id, leaf⟩ ∧ r.signature ≠ [] ∧
      t.outputs = toOutputs (TestSpend.first.outputs leaf) ∧
      World.step scriptKaspa testLib testEngine testHash testLms testClient (paidWorld leaf)
        (.run TestSpend.first.request) = ⟨[coinAt leaf], [], [t], ⟨[r].flatMap recordLine, []⟩⟩ ∧
      World.step scriptKaspa testLib testEngine testHash testLms testClient
        ⟨[coinAt leaf], [], [t], ⟨[r].flatMap recordLine, []⟩⟩ (.confirm t (blockOf 32 9) 0) = includedWorld leaf r t := by
  have hfunded : testVault.OnlyFunded scriptKaspa (paidWorld leaf).utxos scanWindow leaf (coinAt leaf) :=
    utxos_paidWorld leaf ▸ onlyFunded_coinAt h fun _ hc => by cases hc
  have hindex : leaf.toNat < 2 ^ 31 := (UInt32.lt_iff_toNat_lt.mp h).trans (by decide)
  obtain ⟨r, t, hleaf, hsig, hin, hout, hstep⟩ :=
    step_run .first (s := paidWorld leaf) rfl (by simp : ∀ r ∈ ([] : List SpendRecord), r.signature ≠ []) hfunded rfl
      hindex (by simp [HasSigned])
  refine ⟨r, t, hleaf, hsig, hout, hstep, ?_⟩
  rw [World.step, if_pos, hin]
  · rfl
  · refine ⟨List.mem_singleton_self t, ?_, ?_⟩
    · rw [hin]
      intro o ho
      simpa [World.utxos] using ho
    · exact nodup_coinsOf hout

/-- The coins that are left. -/
theorem utxos_includedWorld {leaf : UInt32} {r : SpendRecord} {t : MassTransaction}
    (hout : t.outputs = toOutputs (TestSpend.first.outputs leaf)) :
    (includedWorld leaf r t).utxos = coinsOf t (blockOf 32 9) 0 := by
  have hne : blockOf 32 9 ≠ blockOf 32 7 := by decide
  simp [World.utxos, includedWorld, coinsOf_eq hout, coinAt, hne]

/-- A payment to leaf 0, a spend of it that is included, and a spend of its change. -/
def twoSpends (t : MassTransaction) : List (Event Unit Unit Bytes) :=
  [.deposit (coinAt 0), .run TestSpend.first.request, .confirm t (blockOf 32 9) 0, .run TestSpend.second.request]

/-- Both leaves sign, and the change of each spend goes to a leaf that has not. -/
theorem everyStep_changeFresh_twoSpends : ∃ t : MassTransaction,
    EveryStep scriptKaspa testLib testEngine testHash testLms testClient
      (ChangeFresh scriptKaspa testLib testEngine testHash testLms testClient) testWorld (twoSpends t) ∧
    ∃ records : List SpendRecord, records.map SpendRecord.leaf =
        [⟨testVault.publicKey.id, 0⟩, ⟨testVault.publicKey.id, 1⟩] ∧
      ((twoSpends t).foldl (World.step scriptKaspa testLib testEngine testHash testLms testClient) testWorld).file =
        ⟨records.flatMap recordLine, []⟩ := by
  obtain ⟨r, t, hleaf, hsig, hout, hrun, hconfirm⟩ := step_run_paidWorld 0 (by decide)
  have hdeposit : World.step scriptKaspa testLib testEngine testHash testLms testClient testWorld (.deposit (coinAt 0)) =
      paidWorld 0 := rfl
  have hutxos := utxos_includedWorld (r := r) hout
  rw [coinsOf_eq hout] at hutxos
  refine ⟨t, ?_, ?_⟩
  · have hvault : ∀ e ∈ twoSpends t, ForVault testVault () e := by simp [twoSpends, ForVault, TestSpend.request]
    refine everyStep_changeFresh lawful_testLib encodeScript_injective collisionFree_testVault honest_testKey
      serves_testClient initial_testWorld hvault ⟨trivial, ?_, trivial, ?_, trivial⟩
    · rw [hdeposit]
      exact fun c _ _ => List.not_mem_nil
    · -- of the coins that there were, the one that was spent is at leaf 0
      rw [hdeposit, hrun, hconfirm]
      intro c hc hlast hspent
      have hcoin : c = coinAt 0 :=
        List.inj_on_of_nodup_map (nodup_coinsOf hout) hc
          (List.mem_append_right _ (List.mem_singleton_self _)) (List.mem_singleton.mp hspent)
      rw [hcoin] at hlast
      have hzero := leafScript_inj encodeScript_injective collisionFree_testVault hlast (leafScript_coinAt (by decide))
      exact absurd hzero (by decide)
  · have hfunded : testVault.OnlyFunded scriptKaspa (includedWorld 0 r t).utxos scanWindow 1
        ⟨⟨blockOf 32 9, 1⟩, TestSpend.first.change, ⟨0, leafOutputScript testVault 1⟩, 0⟩ := by
      rw [hutxos]
      refine @onlyFunded_append 1 _ [_] [] (by decide) (leafScript_scriptKaspa (by decide)) fun c hc l _ => ?_
      rw [List.append_nil, List.mem_singleton] at hc
      rw [hc]
      exact leafScript_ne_testDestination l
    obtain ⟨r₂, t₂, hleaf₂, hsig₂, -, -, hstep⟩ := step_run .second (s := includedWorld 0 r t) rfl
      (by simpa using hsig : ∀ r' ∈ [r], r'.signature ≠ []) hfunded rfl (by decide) (by simp [HasSigned, hleaf])
    refine ⟨[r] ++ [r₂], by simp [hleaf, hleaf₂], ?_⟩
    simp only [twoSpends, List.foldl_cons, List.foldl_nil]
    rw [hdeposit, hrun, hconfirm, hstep]

/-! ### Two leaves with coins -/

/-- **Change may be paid to a leaf that has signed**: leaf 63 signs, and its spend is included; then
somebody pays to leaf 62, and the change of its spend goes to leaf 63. -/
theorem not_everyStep_changeFresh : ¬∀ (s : World) (events : List (Event Unit Unit Bytes)), Initial testVault s →
    (∀ e ∈ events, ForVault testVault () e) → EveryStep scriptKaspa testLib testEngine testHash testLms testClient
      (ChangeFresh scriptKaspa testLib testEngine testHash testLms testClient) s events := by
  intro h
  -- leaf 63 signs, its spend is included, and somebody pays to leaf 62
  obtain ⟨r, t, hleaf, hsig, hout, hrun, hconfirm⟩ := step_run_paidWorld 63 (by decide)
  have hsteps := h testWorld [.deposit (coinAt 63), .run TestSpend.first.request, .confirm t (blockOf 32 9) 0,
    .deposit (coinAt 62), .run TestSpend.first.request] initial_testWorld (by simp [ForVault, TestSpend.request])
  have hdeposit : World.step scriptKaspa testLib testEngine testHash testLms testClient (includedWorld 63 r t)
      (.deposit (coinAt 62)) = { includedWorld 63 r t with coins := coinAt 62 :: (includedWorld 63 r t).coins } := by
    rw [World.step, if_neg]
    simp only [includedWorld, coinsOf_eq hout]
    decide
  obtain ⟨-, -, -, -, hlast, -⟩ := hsteps
  rw [show World.step scriptKaspa testLib testEngine testHash testLms testClient testWorld (.deposit (coinAt 63)) =
    paidWorld 63 from rfl, hrun, hconfirm, hdeposit] at hlast
  set before : World := { includedWorld 63 r t with coins := coinAt 62 :: (includedWorld 63 r t).coins } with hbefore
  -- leaf 62 signs, and pays its change to leaf 63
  have hutxos : before.utxos = coinAt 62 :: coinsOf t (blockOf 32 9) 0 := by
    rw [← utxos_includedWorld (r := r) hout]
    rfl
  have hothers : ∀ c ∈ coinsOf t (blockOf 32 9) 0, ∀ l < scanWindow,
      testVault.leafScript scriptKaspa l ≠ .ok c.scriptPublicKey := by
    intro c hc l hl hscript
    rw [coinsOf_eq hout] at hc
    rcases List.mem_pair.mp hc with rfl | rfl
    · exact leafScript_ne_testDestination l hscript
    · obtain rfl := leafScript_inj encodeScript_injective collisionFree_testVault hscript
        (leafScript_scriptKaspa (by decide : (64 : UInt32) < testVault.leafCount))
      exact absurd hl (by decide)
  have hfunded : testVault.OnlyFunded scriptKaspa before.utxos scanWindow 62 (coinAt 62) := by
    rw [hutxos]
    exact onlyFunded_coinAt (by decide) hothers
  have hsigs : ∀ r' ∈ [r], r'.signature ≠ [] := by simpa using hsig
  have hnew : ¬HasSigned testVault [r] 62 := by simp [HasSigned, hleaf]
  obtain ⟨r₂, t₂, hleaf₂, hsig₂, -, -, hstep⟩ := step_run .first (s := before) rfl hsigs hfunded rfl (by decide) hnew
  have hsigs₂ : ∀ r' ∈ [r] ++ [r₂], r'.signature ≠ [] := by simpa using ⟨hsig, hsig₂⟩
  have hafter : (World.step scriptKaspa testLib testEngine testHash testLms testClient before
      (.run TestSpend.first.request)).file = ⟨([r] ++ [r₂]).flatMap recordLine, []⟩ := by
    rw [hstep]
  have hfresh := hlast _ _ _ 63 (TestSpend.first.planSpend_eq hfunded rfl)
    ((recordOf_eq_none testVault rfl hsigs "journal").mpr hnew)
    (fun hno => (recordOf_eq_none testVault hafter hsigs₂ "journal").mp hno ⟨r₂, by simp, hleaf₂⟩)
    (leafScript_scriptKaspa (by decide))
  exact (recordOf_eq_none testVault hafter hsigs₂ "journal").mp hfresh ⟨r, by simp, hleaf⟩

end World

end KaspaPqv.LmsWallet
