import KaspaPqv.Lib.Account
import KaspaPqv.LmsWallet.Unlock
import KaspaPqv.VaultCli.Conservation

/-!
# What both wallets hold, over time

Coins are paid in from outside, both commands make transactions of them, and the chain includes
some of these, in any order. Either command reckons in 64 bits that wrap, and asks the node what
its coins are worth. Over any run nothing is made and nothing is lost all the same: what has not
been spent, and what has gone to fees, is what was paid in.

A call conserves value where the coin is below `2 ^ 63`. This need not be supposed of later calls:
no output is worth more than the coin that pays it.

## What is proved

* `run_pays`, `cmdSpend_pays` — a transaction that is broadcast pays no more than its coin is worth.
* `Ledger.Sound.confirm` — what inclusion takes from the coins and gives to them and to the fees.
* `Ledger.value_conserved` — the equation, in every run.
-/

namespace KaspaPqv.VaultCli

open KaspaPqv.Lib KaspaPqv.Script KaspaPqv.VaultCore
open LmsWallet (AddressLib Client Coin LmsLib ScriptEngine World coinsOf)

/-! ### What the node answers -/

section

variable {NodeParams Prefix Address : Type}

/-- The node answers with coins there are, at their amounts. It may leave some out. -/
def Truthful (client : Client Address) (coins : List Coin) : Prop :=
  ∀ addresses entries, client.getUtxosByAddresses addresses = .ok entries →
    ∀ e ∈ entries, ∃ c ∈ coins, c.outpoint = e.outpoint ∧ c.amount = e.amount

/-- An entry that the wallet keeps is that of a coin. -/
def IsCoin (coins : List Coin) (txid : Block 32) (index : UInt32) (amount : UInt64) : Prop :=
  ∃ c ∈ coins, c.outpoint = ⟨txid, index⟩ ∧ c.amount = amount

variable {kaspa : Kaspa NodeParams} {lib : AddressLib Prefix Address} {client : Client Address} {coins : List Coin}

theorem isCoin_of_utxosFor (htruthful : Truthful client coins) {addresses : List Address} {utxos : LmsWallet.UtxoMap}
    (h : client.utxosFor lib addresses = .ok utxos) {key : String} {entries : List LmsWallet.VaultUtxoEntry}
    (hkey : utxos key = some entries) {e : LmsWallet.VaultUtxoEntry} (he : e ∈ entries) :
    IsCoin coins e.txid e.index e.amount := by
  unfold Client.utxosFor at h
  split_ifs at h
  · obtain rfl := Except.ok.inj h
    cases hkey
  · obtain ⟨answer, hanswer, hfold⟩ := bind_eq_ok.mp h
    obtain rfl := Except.ok.inj hfold
    rw [LmsWallet.foldl_noteEntry] at hkey
    split_ifs at hkey
    obtain rfl := Option.some.inj hkey
    obtain ⟨entry, hentry, rfl⟩ := List.mem_map.mp he
    obtain ⟨c, hc, houtpoint, hamount⟩ :=
      htruthful _ _ (mapError_eq_ok.mp hanswer) entry (List.mem_of_mem_filter hentry)
    exact ⟨c, hc, houtpoint, hamount⟩

/-- What the stateful wallet spends. -/
theorem isCoin_of_locateFunds (htruthful : Truthful client coins) {vault : LmsWallet.Vault} {addressPrefix : Prefix}
    {window leaf : UInt32} {utxo : LmsWallet.VaultUtxo}
    (h : LmsWallet.locateFunds kaspa lib client vault addressPrefix window = .ok (leaf, utxo)) :
    IsCoin coins utxo.txid utxo.index utxo.amount := by
  obtain ⟨addresses, -, h⟩ := bind_eq_ok.mp h
  obtain ⟨utxos, hutxos, h⟩ := bind_eq_ok.mp h
  obtain ⟨entry, hfound, rfl⟩ := LmsWallet.theOneFunded_eq_ok.mp h
  have hmem : (leaf, [entry]) ∈ LmsWallet.fundedLeaves lib utxos addresses := by
    rw [hfound]
    exact List.mem_singleton_self _
  obtain ⟨⟨address, l⟩, -, hentries⟩ := List.mem_filterMap.mp hmem
  cases hkey : utxos (lib.text address) with
  | none => simp [hkey] at hentries
  | some entries =>
    simp only [hkey] at hentries
    split_ifs at hentries
    obtain ⟨-, rfl⟩ := Prod.mk.inj (Option.some.inj hentries)
    exact isCoin_of_utxosFor htruthful hutxos hkey (List.mem_singleton_self _)

/-- What the stateless wallet chooses from. -/
theorem isCoin_of_vaultUtxos (htruthful : Truthful client coins) {address : Address} {utxos : List SlhWallet.VaultUtxo}
    (h : SlhWallet.vaultUtxos lib client address = .ok utxos) {utxo : SlhWallet.VaultUtxo} (hutxo : utxo ∈ utxos) :
    IsCoin coins utxo.txid utxo.index utxo.amount := by
  obtain ⟨found, hfound, h⟩ := bind_eq_ok.mp h
  obtain rfl := Except.ok.inj h
  obtain ⟨e, he, rfl⟩ := List.mem_map.mp (List.mem_mergeSort.mp hutxo)
  cases hkey : found (lib.text address) with
  | none =>
    rw [hkey] at he
    cases he
  | some entries =>
    rw [hkey] at he
    exact isCoin_of_utxosFor htruthful hfound hkey he

end

/-! ### What is broadcast -/

/-- The sum of what a transaction pays. -/
def paidOut (t : MassTransaction) : ℕ := (t.outputs.map fun o => o.value.toNat).sum

/-- A transaction spends one coin, of which there is more than dust in every output, and no more than the coin is
worth in all of them. -/
def Pays (coins : List Coin) (t : MassTransaction) : Prop :=
  ∃ c ∈ coins, t.inputs.map TransactionInput.previousOutpoint = [c.outpoint] ∧
    (∀ o ∈ t.outputs, dustThreshold ≤ o.value) ∧ paidOut t ≤ c.amount.toNat

theorem Pays.mono {coins coins' : List Coin} {t : MassTransaction} (h : Pays coins t) (hsub : ∀ c ∈ coins, c ∈ coins') :
    Pays coins' t := by
  obtain ⟨c, hc, hrest⟩ := h
  exact ⟨c, hsub c hc, hrest⟩

/-- Coins that leave room for a sum of two. -/
def Small (c : Coin) : Prop := c.amount.toNat < 2 ^ 63

/-- A transaction that pays an amount and a change, which with the fee are what its coin is worth. -/
theorem pays_of_conserved {coins : List Coin} {t : MassTransaction} {txid : Block 32} {index : UInt32}
    {coin amount change fee : UInt64} {a b : OutputView} (hcoin : IsCoin coins txid index coin)
    (hconserved : Conserved coin amount change fee)
    (hinputs : t.inputs.map TransactionInput.previousOutpoint = [⟨txid, index⟩]) (houtputs : t.outputs = toOutputs [a, b])
    (ha : a.amount = amount) (hb : b.amount = change) : Pays coins t := by
  obtain ⟨c, hc, houtpoint, hamount⟩ := hcoin
  have htotal := hconserved.total
  refine ⟨c, hc, by rw [hinputs, houtpoint], ?_, ?_⟩
  · rw [houtputs]
    intro o ho
    rcases List.mem_pair.mp ho with rfl | rfl
    · exact (congrArg (dustThreshold ≤ ·) ha).mpr hconserved.amount_ge
    · exact (congrArg (dustThreshold ≤ ·) hb).mpr hconserved.change_ge
  · have hsum : paidOut t = amount.toNat + change.toNat := by
      rw [paidOut, houtputs, ← ha, ← hb]
      rfl
    rw [hsum, hamount]
    omega

section

variable {NodeParams Prefix Address K Node ChildNumber : Type} {kaspa : Kaspa NodeParams}
  {sha256 : Bytes → Block 32} {engine : ScriptEngine} {coins : List Coin} {t : MassTransaction}

/-- **What `run` broadcasts** pays no more than its coin is worth. -/
theorem run_pays {lib : AddressLib Prefix Address} {lms : LmsLib K} {client : Client Address}
    {req : LmsWallet.SpendRequest NodeParams Prefix Address} {file : AppendFile Char}
    (htruthful : Truthful client coins) (hsmall : ∀ c ∈ coins, Small c)
    (h : (LmsWallet.run kaspa lib engine sha256 lms client req file).broadcast = some t) : Pays coins t := by
  obtain ⟨utxo, outputs, _, _, _, _, _, hplan, -, -, -, _, _, hbuilt⟩ := LmsWallet.run_broadcast h
  obtain ⟨hlocate, -, changeAddress, probe, report, -, hprobe, hguard, rfl, hreport⟩ :=
    LmsWallet.planSpend_reckons hplan
  have hcoin := isCoin_of_locateFunds htruthful hlocate
  obtain ⟨c, hc, -, hamount⟩ := id hcoin
  have hlt : utxo.amount.toNat < 2 ^ 63 := by
    rw [← hamount]
    exact hsmall c hc
  obtain ⟨htx, -⟩ := Prod.mk.inj hbuilt
  exact pays_of_conserved hcoin
    (conserved_of_estimated hlt (estimated_of_estimateSpend hprobe) saturatingSub_of_lt hguard
      (estimated_of_estimateSpend hreport)) (by rw [← htx]; rfl) (by rw [← htx]) rfl rfl

variable [DecidableEq Prefix] {B : Bip32 Node ChildNumber} {cli : SlhWallet.Surroundings NodeParams Prefix Address}
  {args : SlhWallet.Args} {resolved : SlhWallet.Resolved Node} {scheme : Scheme} {addressPrefix : Prefix}

/-- **And what `cmd_spend` broadcasts.** -/
theorem cmdSpend_pays
    (htruthful : ∀ network client, SlhWallet.connect cli network = .ok client → Truthful client coins)
    (hsmall : ∀ c ∈ coins, Small c)
    (h : SlhWallet.cmdSpend B kaspa sha256 engine cli args resolved scheme addressPrefix = .ok (some t)) :
    Pays coins t := by
  obtain ⟨plan, spend, hplan, hbuild, rfl⟩ := SlhWallet.cmdSpend_eq_ok h
  obtain ⟨-, address, utxos, -, -, -, -, -, -, hclient, hutxos, -, hchoose⟩ := SlhWallet.planSpend_eq_ok.mp hplan
  obtain ⟨redeemScript, probe, -, hprobe, hguard, houtputs⟩ := SlhWallet.chooseOutputs_eq_ok.mp hchoose
  obtain ⟨digest, signature, -, hcheck, -, hassemble⟩ := SlhWallet.buildSpend_eq_ok.mp hbuild
  obtain ⟨-, report, hreport, -⟩ := SlhWallet.checkSpend_eq_ok.mp hcheck
  obtain ⟨-, -, ⟨scripts, -, hbuilt⟩, -⟩ := SlhWallet.assembleSpend_eq_ok hassemble
  obtain ⟨htx, -⟩ := Prod.mk.inj hbuilt
  have hcoin := isCoin_of_vaultUtxos (htruthful _ _ hclient) hutxos (List.mem_cons_self)
  obtain ⟨c, hc, -, hamount⟩ := id hcoin
  have hlt : plan.utxo.amount.toNat < 2 ^ 63 := by
    rw [← hamount]
    exact hsmall c hc
  rw [← houtputs] at hreport htx
  have hrest (hlt : plan.utxo.amount < plan.amount) : LmsWallet.saturatingSub plan.utxo.amount plan.amount / 2 = 0 := by
    rw [saturatingSub_of_lt hlt]
    rfl
  exact pays_of_conserved hcoin
    (conserved_of_estimated hlt (estimated_of_preflight hprobe) hrest (UInt64.le_of_lt hguard)
      (estimated_of_preflight hreport)) (by rw [htx]; rfl) (by rw [htx]) rfl rfl

end

/-! ### The chain and both wallets -/

/-- What may happen next: a payment from outside, a call of either command, or the inclusion of a transaction. -/
inductive Event (NodeParams Prefix Address Node : Type) where
  | world (e : World.Event NodeParams Prefix Address)
  | cmdSpend (args : SlhWallet.Args) (resolved : SlhWallet.Resolved Node) (scheme : Scheme) (addressPrefix : Prefix)

/-- The chain, the transactions of both wallets and the journal of the stateful one; and an account of what was
paid in and what went to fees. -/
structure Ledger where
  world : World
  deposited : ℕ
  fees : ℕ

/-- What the coins are worth that have not been spent. -/
def Ledger.value (a : Ledger) : ℕ := held Coin.outpoint (fun c => c.amount.toNat) a.world.coins a.world.spent

/-- What the coin at an outpoint is worth, if it has not been spent. -/
def worthAt (s : World) (o : Outpoint) : ℕ :=
  ((s.utxos.find? fun c => c.outpoint = o).map fun c => c.amount.toNat).getD 0

/-- What an event pays in. -/
def paidIn {NodeParams Prefix Address : Type} (s : World) : World.Event NodeParams Prefix Address → ℕ
  | .deposit coin => if coin.outpoint ∈ s.coins.map Coin.outpoint then 0 else coin.amount.toNat
  | _ => 0

/-- What the inputs of a transaction are worth above its outputs, when it is included. -/
def feesOf {NodeParams Prefix Address : Type} (s : World) : World.Event NodeParams Prefix Address → ℕ
  | .confirm t txid blockDaaScore =>
    let inputs := t.inputs.map TransactionInput.previousOutpoint
    let coins := coinsOf t txid blockDaaScore ++ s.coins
    if t ∈ s.mempool ∧ (∀ o ∈ inputs, o ∈ s.utxos.map Coin.outpoint) ∧ (coins.map Coin.outpoint).Nodup then
      (inputs.map (worthAt s)).sum - paidOut t
    else 0
  | _ => 0

namespace Ledger

/-- Nothing has been spent or broadcast, and no coin is too large. -/
structure Opened (a : Ledger) : Prop where
  nodup : (a.world.coins.map Coin.outpoint).Nodup
  small : ∀ c ∈ a.world.coins, Small c
  spent : a.world.spent = []
  mempool : a.world.mempool = []
  deposited : a.deposited = (a.world.coins.map fun c => c.amount.toNat).sum
  fees : a.fees = 0

/-- What holds in every state. -/
structure Sound (a : Ledger) : Prop where
  nodup : (a.world.coins.map Coin.outpoint).Nodup
  small : ∀ c ∈ a.world.coins, Small c
  spent : ∀ o ∈ a.world.spent, o ∈ a.world.coins.map Coin.outpoint
  mempool : ∀ t ∈ a.world.mempool, Pays a.world.coins t
  /-- What is held and what went to fees is what was paid in. -/
  balance : a.value + a.fees = a.deposited

theorem Opened.sound {a : Ledger} (h : Opened a) : Sound a where
  nodup := h.nodup
  small := h.small
  spent := by simp [h.spent]
  mempool := by simp [h.mempool]
  balance := by simp [value, held, h.spent, h.deposited, h.fees]

section

variable {a : Ledger}

/-- A coin that has not been spent is found. -/
theorem Sound.worthAt_eq (h : Sound a) {c : Coin} (hc : c ∈ a.world.coins) (hunspent : c.outpoint ∉ a.world.spent) :
    worthAt a.world c.outpoint = c.amount.toNat := by
  have hmem : c ∈ a.world.utxos := List.mem_filter.mpr ⟨hc, by simpa using hunspent⟩
  obtain ⟨c', hfind⟩ := Option.isSome_iff_exists.mp
    (List.find?_isSome.mpr ⟨c, hmem, by simp⟩ : (a.world.utxos.find? fun x => x.outpoint = c.outpoint).isSome = true)
  have hc' := (List.mem_filter.mp (List.mem_of_find?_eq_some hfind)).1
  have houtpoint : c'.outpoint = c.outpoint := by simpa using List.find?_some hfind
  obtain rfl := List.inj_on_of_nodup_map h.nodup hc' hc houtpoint
  rw [worthAt, hfind]
  rfl

/-- What a transaction pays is what its coins are worth. -/
theorem sum_coinsOf (t : MassTransaction) (txid : Block 32) (blockDaaScore : UInt64) :
    ((coinsOf t txid blockDaaScore).map fun c => c.amount.toNat).sum = paidOut t := by
  have hmap : (coinsOf t txid blockDaaScore).map (fun c => c.amount.toNat) =
      (t.outputs.zipIdx.map Prod.fst).map fun o => o.value.toNat := by
    rw [coinsOf, List.map_map, List.map_map]
    rfl
  rw [hmap, List.zipIdx_map_fst, paidOut]

/-- **A payment keeps the account.** -/
theorem Sound.deposit (h : Sound a) {coin : Coin} (hsmall : Small coin)
    (hnew : coin.outpoint ∉ a.world.coins.map Coin.outpoint) :
    Sound ⟨{ a.world with coins := coin :: a.world.coins }, a.deposited + coin.amount.toNat, a.fees⟩ where
  nodup := List.nodup_cons.mpr ⟨hnew, h.nodup⟩
  small := List.forall_mem_cons.mpr ⟨hsmall, h.small⟩
  spent o ho := List.mem_cons_of_mem _ (h.spent o ho)
  mempool t ht := (h.mempool t ht).mono fun _ => List.mem_cons_of_mem _
  balance := by
    have hheld : held Coin.outpoint (fun c => c.amount.toNat) ([coin] ++ a.world.coins) a.world.spent =
        ([coin].map fun c => c.amount.toNat).sum + a.value := by
      refine held_append fun x hx hgone => ?_
      obtain rfl := List.mem_singleton.mp hx
      exact hnew (h.spent _ hgone)
    have hbalance := h.balance
    simp only [List.singleton_append, List.map_cons, List.map_nil, List.sum_cons, List.sum_nil] at hheld
    change held _ _ (coin :: a.world.coins) a.world.spent + a.fees = a.deposited + coin.amount.toNat
    omega

/-- **A transaction that is broadcast** waits to be included. -/
theorem Sound.broadcast (h : Sound a) {t : Option MassTransaction} (ht : ∀ t' ∈ t, Pays a.world.coins t')
    (file : AppendFile Char) :
    Sound ⟨{ a.world with file := file, mempool := a.world.mempool ++ t.toList }, a.deposited, a.fees⟩ where
  nodup := h.nodup
  small := h.small
  spent := h.spent
  mempool t' ht' := by
    rcases List.mem_append.mp ht' with hold | hnew
    · exact h.mempool t' hold
    · exact ht t' (Option.mem_toList.mp hnew)
  balance := h.balance

/-- **Inclusion keeps the account**: the coin is given for what the transaction pays, and the rest is the fee. -/
theorem Sound.confirm (h : Sound a) {t : MassTransaction} {txid : Block 32} {blockDaaScore : UInt64}
    (ht : t ∈ a.world.mempool)
    (hinputs : ∀ o ∈ t.inputs.map TransactionInput.previousOutpoint, o ∈ a.world.utxos.map Coin.outpoint)
    (hnodup : ((coinsOf t txid blockDaaScore ++ a.world.coins).map Coin.outpoint).Nodup) :
    Sound ⟨{ a.world with
      coins := coinsOf t txid blockDaaScore ++ a.world.coins
      spent := t.inputs.map TransactionInput.previousOutpoint ++ a.world.spent }, a.deposited,
      a.fees + (((t.inputs.map TransactionInput.previousOutpoint).map (worthAt a.world)).sum - paidOut t)⟩ := by
  obtain ⟨c, hc, hin, -, hpaid⟩ := h.mempool t ht
  rw [hin] at hinputs ⊢
  have hunspent : c.outpoint ∉ a.world.spent := by
    obtain ⟨c', hc', houtpoint⟩ := List.mem_map.mp (hinputs _ (List.mem_singleton_self _))
    have hc'' := (List.mem_filter.mp hc').2
    rw [houtpoint] at hc''
    simpa using hc''
  have hworth := h.worthAt_eq hc hunspent
  have hexchange := @held_exchange _ _ _ _ (fun c : Coin => c.amount.toNat) _ _ _ _ hnodup hc hunspent h.spent
  rw [sum_coinsOf] at hexchange
  refine ⟨hnodup, fun x hx => ?_, fun o ho => ?_, fun t' ht' => ?_, ?_⟩
  · rcases List.mem_append.mp hx with hnew | hold
    · -- an output is worth no more than the coin
      have hle : x.amount.toNat ≤ paidOut t := by
        rw [← sum_coinsOf t txid blockDaaScore]
        exact List.single_le_sum (fun _ _ => Nat.zero_le _) _ (List.mem_map_of_mem hnew)
      exact lt_of_le_of_lt (hle.trans hpaid) (h.small c hc)
    · exact h.small x hold
  · rw [List.map_append]
    refine List.mem_append_right _ ?_
    rcases List.mem_cons.mp ho with rfl | hold
    · exact List.mem_map_of_mem hc
    · exact h.spent o hold
  · exact (h.mempool t' ht').mono fun _ => List.mem_append_right _
  · have hbalance := h.balance
    change held _ _ _ (c.outpoint :: a.world.spent) + _ = a.deposited
    rw [value] at hbalance
    simp only [List.map_cons, List.map_nil, List.sum_cons, List.sum_nil, hworth]
    omega

end

variable {NodeParams Prefix Address K Node ChildNumber : Type} (kaspa : Kaspa NodeParams)
  (lib : AddressLib Prefix Address) (engine : ScriptEngine) (sha256 : Bytes → Block 32) (lms : LmsLib K)
  (node : List Coin → Client Address) (B : Bip32 Node ChildNumber)
  (cli : List Coin → SlhWallet.Surroundings NodeParams Prefix Address)

variable [DecidableEq Prefix]

/-- The transaction that `cmd_spend` broadcasts, if it broadcasts one. -/
def cmdSpendBroadcast (coins : List Coin) (args : SlhWallet.Args) (resolved : SlhWallet.Resolved Node) (scheme : Scheme)
    (addressPrefix : Prefix) : Option MassTransaction :=
  match SlhWallet.cmdSpend B kaspa sha256 engine (cli coins) args resolved scheme addressPrefix with
  | .ok t => t
  | _ => none

/-- One event. -/
def step (a : Ledger) : Event NodeParams Prefix Address Node → Ledger
  | .world e =>
    ⟨a.world.step kaspa lib engine sha256 lms node e, a.deposited + paidIn a.world e, a.fees + feesOf a.world e⟩
  | .cmdSpend args resolved scheme addressPrefix =>
    let t := cmdSpendBroadcast kaspa engine sha256 B cli a.world.utxos args resolved scheme addressPrefix
    ⟨{ a.world with mempool := a.world.mempool ++ t.toList }, a.deposited, a.fees⟩

/-- What is paid in is no coin that is too large. -/
def SmallDeposit : Event NodeParams Prefix Address Node → Prop
  | .world (.deposit coin) => Small coin
  | _ => True

variable {kaspa lib engine sha256 lms node B cli} {a : Ledger}

/-- What was broadcast stays so. -/
theorem mempool_step {t : MassTransaction} (h : t ∈ a.world.mempool) {e : Event NodeParams Prefix Address Node} :
    t ∈ (a.step kaspa lib engine sha256 lms node B cli e).world.mempool := by
  cases e with
  | cmdSpend args resolved scheme addressPrefix => exact List.mem_append_left _ h
  | world e =>
    cases e with
    | run req => exact List.mem_append_left _ h
    | deposit coin =>
      simp only [Ledger.step, World.step]
      split_ifs
      · exact h
      · exact h
    | confirm t' txid blockDaaScore =>
      simp only [Ledger.step, World.step]
      split_ifs
      · exact h
      · exact h

theorem mem_coins_of_utxos {c : Coin} (h : c ∈ a.world.utxos) : c ∈ a.world.coins := List.mem_of_mem_filter h

/-- **Every event keeps the account.** -/
theorem Sound.step (h : Sound a) (hnode : ∀ coins, Truthful (node coins) coins)
    (hcli : ∀ coins network client, SlhWallet.connect (cli coins) network = .ok client → Truthful client coins)
    {e : Event NodeParams Prefix Address Node} (hsmall : SmallDeposit e) :
    Sound (a.step kaspa lib engine sha256 lms node B cli e) := by
  have hutxos : ∀ c ∈ a.world.utxos, Small c := fun c hc => h.small c (mem_coins_of_utxos hc)
  cases e with
  | world e =>
    cases e with
    | deposit coin =>
      by_cases hold : coin.outpoint ∈ a.world.coins.map Coin.outpoint
      · simpa only [Ledger.step, World.step, paidIn, feesOf, if_pos hold, Nat.add_zero] using h
      · have hkeeps := h.deposit hsmall hold
        simpa only [Ledger.step, World.step, paidIn, feesOf, if_neg hold, Nat.add_zero] using hkeeps
    | run req =>
      refine h.broadcast (fun t ht => ?_) _
      exact (run_pays (hnode _) hutxos (Option.mem_def.mp ht)).mono fun _ => mem_coins_of_utxos
    | confirm t txid blockDaaScore =>
      by_cases hincluded : t ∈ a.world.mempool ∧
          (∀ o ∈ t.inputs.map TransactionInput.previousOutpoint, o ∈ a.world.utxos.map Coin.outpoint) ∧
          ((coinsOf t txid blockDaaScore ++ a.world.coins).map Coin.outpoint).Nodup
      · have hkeeps := h.confirm hincluded.1 hincluded.2.1 hincluded.2.2
        simpa only [Ledger.step, World.step, paidIn, feesOf, if_pos hincluded, Nat.add_zero] using hkeeps
      · simpa only [Ledger.step, World.step, paidIn, feesOf, if_neg hincluded, Nat.add_zero] using h
  | cmdSpend args resolved scheme addressPrefix =>
    refine h.broadcast (fun t ht => ?_) a.world.file
    have hsome := Option.mem_def.mp ht
    unfold cmdSpendBroadcast at hsome
    split at hsome
    · rename_i t' hcmd
      obtain rfl := hsome
      exact (cmdSpend_pays (hcli _) hutxos hcmd).mono fun _ => mem_coins_of_utxos
    · cases hsome

/-- **Nothing is made and nothing is lost**: after any deposits, calls of either command with any arguments, and
inclusions, in any order, the coins that have not been spent and the fees are what was paid in; and
no coin is too large for the sums of 64 bits. -/
theorem value_conserved (kaspa : Kaspa NodeParams) (lib : AddressLib Prefix Address) (engine : ScriptEngine)
    (sha256 : Bytes → Block 32) (lms : LmsLib K) {node : List Coin → Client Address} (B : Bip32 Node ChildNumber)
    {cli : List Coin → SlhWallet.Surroundings NodeParams Prefix Address}
    (hnode : ∀ coins, Truthful (node coins) coins)
    (hcli : ∀ coins network client, SlhWallet.connect (cli coins) network = .ok client → Truthful client coins)
    {a : Ledger} (hopened : Opened a) (es : List (Event NodeParams Prefix Address Node)) (hsmall : ∀ e ∈ es, SmallDeposit e) :
    let a' := es.foldl (Ledger.step kaspa lib engine sha256 lms node B cli) a
    a'.value + a'.fees = a'.deposited ∧ (∀ c ∈ a'.world.coins, c.amount.toNat < 2 ^ 63) ∧
      ∀ t ∈ a'.world.mempool, Pays a'.world.coins t := by
  have hsound : Sound (es.foldl (Ledger.step kaspa lib engine sha256 lms node B cli) a) := by
    have hstart := hopened.sound
    clear hopened
    induction es generalizing a with
    | nil => exact hstart
    | cons e es ih =>
      obtain ⟨he, hes⟩ := List.forall_mem_cons.mp hsmall
      exact ih hes (hstart.step hnode hcli he)
  exact ⟨hsound.balance, hsound.small, hsound.mempool⟩

end Ledger

/-! ### A run -/

theorem truthful_testClient (coins : List Coin) : Truthful (LmsWallet.testClient coins) coins := by
  intro addresses entries h e he
  obtain rfl := Except.ok.inj h
  obtain ⟨c, hc, rfl⟩ := List.mem_map.mp he
  exact ⟨c, List.mem_of_mem_filter hc, rfl, rfl⟩

/-- A node that knows the coins of the chain. -/
def testCliAt (coins : List Coin) : SlhWallet.Surroundings Unit Unit Bytes :=
  { testCli with newRpc := testRpc (LmsWallet.testClient coins) }

theorem truthful_testCliAt (coins : List Coin) {network : String} {client : Client Bytes}
    (h : SlhWallet.connect (testCliAt coins) network = .ok client) : Truthful client coins := by
  unfold SlhWallet.connect at h
  split_ifs at h
  · cases h
  · obtain rfl := Except.ok.inj h
    exact truthful_testClient coins

/-- A payment, a call of each command, and an inclusion. -/
def testRun (t : MassTransaction) : List (Event Unit Unit Bytes (List UInt32)) :=
  [.world (.deposit scriptHashCoin), .cmdSpend { testArgs with dryRun := false } testResolved .slhDsaSha2_128s (),
    .world (.run LmsWallet.TestSpend.first.request), .world (.confirm t (LmsWallet.blockOf 32 1) 0)]

/-- What both wallets hold after it. -/
def testLedger (t : MassTransaction) : Ledger :=
  (testRun t).foldl (Ledger.step scriptHashKaspa LmsWallet.testLib LmsWallet.testEngine LmsWallet.testHash
    LmsWallet.testLms LmsWallet.testClient pathTree testCliAt) ⟨⟨[], [], [], .empty⟩, 0, 0⟩

/-- The coin is paid in, and half of it spent. -/
theorem Ledger.value_conserved_test : ∃ t, t ∈ (testLedger t).world.mempool ∧
    (testLedger t).value + (testLedger t).fees = (testLedger t).deposited := by
  obtain ⟨keypair, xi, hsound, hplan⟩ := planSpend_testCli LmsWallet.testHash
  obtain ⟨spend, hspend⟩ := buildSpend_testCli hsound
  have hcmd : SlhWallet.cmdSpend pathTree scriptHashKaspa LmsWallet.testHash LmsWallet.testEngine
      (testCliAt [scriptHashCoin]) { testArgs with dryRun := false } testResolved .slhDsaSha2_128s () =
      .ok (some spend.tx) := by
    refine Outcome.bind_eq_ok.mpr ⟨_, hplan, Outcome.bind_eq_ok.mpr ⟨spend, Outcome.mapError_eq_ok.mpr hspend, ?_⟩⟩
    rfl
  have hsmall : ∀ e ∈ testRun spend.tx, Ledger.SmallDeposit e := by
    intro e he
    simp only [testRun, List.mem_cons, List.not_mem_nil, or_false] at he
    rcases he with rfl | rfl | rfl | rfl
    · exact (by decide : (1000000000 : UInt64).toNat < 2 ^ 63)
    · exact trivial
    · exact trivial
    · exact trivial
  obtain ⟨hbalance, -, -⟩ := Ledger.value_conserved scriptHashKaspa LmsWallet.testLib LmsWallet.testEngine
    LmsWallet.testHash LmsWallet.testLms pathTree truthful_testClient (fun coins _ _ => truthful_testCliAt coins)
    (a := ⟨⟨[], [], [], .empty⟩, 0, 0⟩) ⟨List.nodup_nil, by simp, rfl, rfl, rfl, rfl⟩ (testRun spend.tx) hsmall
  refine ⟨spend.tx, ?_, hbalance⟩
  have hbroadcast : Ledger.cmdSpendBroadcast scriptHashKaspa LmsWallet.testEngine LmsWallet.testHash pathTree testCliAt
      [scriptHashCoin] { testArgs with dryRun := false } testResolved .slhDsaSha2_128s () = some spend.tx := by
    rw [Ledger.cmdSpendBroadcast, hcmd]
  have hsecond : spend.tx ∈ (Ledger.step scriptHashKaspa LmsWallet.testLib LmsWallet.testEngine LmsWallet.testHash
      LmsWallet.testLms LmsWallet.testClient pathTree testCliAt ⟨⟨[scriptHashCoin], [], [], .empty⟩, 1000000000, 0⟩
      (.cmdSpend { testArgs with dryRun := false } testResolved .slhDsaSha2_128s ())).world.mempool := by
    change spend.tx ∈ [] ++ (Ledger.cmdSpendBroadcast scriptHashKaspa LmsWallet.testEngine LmsWallet.testHash pathTree
      testCliAt [scriptHashCoin] { testArgs with dryRun := false } testResolved .slhDsaSha2_128s ()).toList
    rw [hbroadcast]
    exact List.mem_singleton_self _
  have hfirst : Ledger.step scriptHashKaspa LmsWallet.testLib LmsWallet.testEngine LmsWallet.testHash LmsWallet.testLms
      LmsWallet.testClient pathTree testCliAt ⟨⟨[], [], [], .empty⟩, 0, 0⟩ (.world (.deposit scriptHashCoin)) =
      ⟨⟨[scriptHashCoin], [], [], .empty⟩, 1000000000, 0⟩ := by
    simp [Ledger.step, World.step, paidIn, feesOf, scriptHashCoin]
  rw [testLedger, testRun, List.foldl_cons, hfirst, List.foldl_cons, List.foldl_cons, List.foldl_cons, List.foldl_nil]
  exact Ledger.mempool_step (Ledger.mempool_step hsecond)

end KaspaPqv.VaultCli
