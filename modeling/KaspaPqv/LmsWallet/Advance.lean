import KaspaPqv.LmsWallet.Backed

/-!
# From leaf to leaf

A vault that is used as it is meant to be has one coin, and nobody pays to its leaves but
its own spends, which pay the change to the next leaf. Then the coin moves by one leaf with
every spend that is included, the journal says which leaves it has left, and the last spend
moves it to leaf 64, where no spend looks for it.

## What is proved

* `AtLeaf.step` — what every event keeps: the vault has one coin, the leaves before it have
  signed, and none after it has.
* `coin_advances` — the same of every run, and when the coin is found.
-/

namespace KaspaPqv.LmsWallet

open KaspaPqv.Lib KaspaPqv.Script KaspaPqv.VaultCore KaspaPqv.LmsScript FileJournal

namespace World

section

variable {Params Prefix Address K : Type} (kaspa : Kaspa Params) (lib : AddressLib Prefix Address) (vault : Vault)

/-- A script that is no leaf's. -/
def NoLeaf (spk : ScriptPublicKey) : Prop := ∀ leaf, vault.leafScript kaspa leaf ≠ .ok spk

/-- Nobody pays to a leaf: no one else, and no destination of a call. -/
def PaysElsewhere : Event Params Prefix Address → Prop
  | .deposit coin => NoLeaf kaspa vault coin.scriptPublicKey
  | .run req => NoLeaf kaspa vault (lib.payToAddressScript req.destination)
  | .confirm .. => True

/-- What holds in every state of a vault whose coin began at one leaf and is at another. -/
structure AtLeaf (first : UInt32) (s : World) (records : List SpendRecord) (leaf : UInt32) (c : Coin) : Prop where
  file : s.file = ⟨records.flatMap recordLine, []⟩
  signed : ∀ r ∈ records, r.signature ≠ []
  nodup : (s.coins.map Coin.outpoint).Nodup
  spent : ∀ o ∈ s.spent, o ∈ s.coins.map Coin.outpoint
  single : vault.SingleUtxo kaspa s.utxos leaf c
  count : leaf.toNat = first.toNat + s.spent.length
  mempool : ∀ t ∈ s.mempool, IsSpend kaspa vault s records t
  destination : ∀ t ∈ s.mempool, ∀ o, t.outputs.head? = some o → NoLeaf kaspa vault o.scriptPublicKey
  /-- Only the leaves so far have signed, and only such as are scanned. -/
  signers : ∀ q, HasSigned vault records q → first ≤ q ∧ q ≤ leaf ∧ q < scanWindow
  /-- And all but the last have. -/
  left : ∀ q, first ≤ q → q < leaf → HasSigned vault records q

end

/-! ### The coins of a leaf -/

section

variable {Params Prefix Address K : Type} {kaspa : Kaspa Params} {lib : AddressLib Prefix Address} {vault : Vault}
  {s : World} {records : List SpendRecord} {first leaf : UInt32} {c : Coin}

theorem coinsAt_append (coins coins' : List Coin) (l : UInt32) :
    vault.coinsAt kaspa (coins ++ coins') l = vault.coinsAt kaspa coins l ++ vault.coinsAt kaspa coins' l :=
  List.filter_append coins coins'

theorem coinsAt_noLeaf {c : Coin} (h : NoLeaf kaspa vault c.scriptPublicKey) (coins : List Coin) (l : UInt32) :
    vault.coinsAt kaspa (c :: coins) l = vault.coinsAt kaspa coins l :=
  List.filter_cons_of_neg (by simpa using h l)

/-- **A payment to no leaf** changes nothing about the leaves. -/
theorem AtLeaf.deposit (h : AtLeaf kaspa vault first s records leaf c) {coin : Coin}
    (hnew : coin.outpoint ∉ s.coins.map Coin.outpoint) (helse : NoLeaf kaspa vault coin.scriptPublicKey) :
    AtLeaf kaspa vault first { s with coins := coin :: s.coins } records leaf c where
  file := h.file
  signed := h.signed
  nodup := List.nodup_cons.mpr ⟨hnew, h.nodup⟩
  spent o ho := List.mem_cons_of_mem _ (h.spent o ho)
  single := by
    have hutxos : World.utxos { s with coins := coin :: s.coins } = coin :: s.utxos :=
      List.filter_cons_of_pos (by simpa using fun ho => hnew (h.spent _ ho))
    rw [hutxos]
    exact ⟨h.single.lt_leafCount, (coinsAt_noLeaf helse _ _).trans h.single.coin, fun l hl hne =>
      (coinsAt_noLeaf helse _ _).trans (h.single.others l hl hne)⟩
  count := h.count
  mempool t ht := by
    obtain ⟨q, c', destination, change, hq, hc', hrest⟩ := h.mempool t ht
    exact ⟨q, c', destination, change, hq, List.mem_cons_of_mem _ hc', hrest⟩
  destination := h.destination
  signers := h.signers
  left := h.left

/-- The one coin of the vault. -/
theorem AtLeaf.eq_of_mem (h : AtLeaf kaspa vault first s records leaf c) {c' : Coin} {l : UInt32}
    (hc' : c' ∈ s.utxos) (hl : vault.leafScript kaspa l = .ok c'.scriptPublicKey) : l = leaf ∧ c' = c := by
  have hcoin : c' ∈ vault.coinsAt kaspa s.utxos l := List.mem_filter.mpr ⟨hc', by simpa using hl⟩
  by_cases hsame : l = leaf
  · rw [hsame, h.single.coin] at hcoin
    exact ⟨hsame, List.mem_singleton.mp hcoin⟩
  · obtain ⟨script, hscript, -⟩ := map_eq_ok.mp hl
    rw [h.single.others l (redeemScript_cases hscript).1 hsame] at hcoin
    cases hcoin

/-- What is unspent once a coin was spent and others were made. -/
theorem utxos_spend {new : List Coin} {o : Outpoint} (hnew : ∀ p ∈ new, p.outpoint ∉ [o] ++ s.spent) :
    World.utxos { s with coins := new ++ s.coins, spent := [o] ++ s.spent } =
      new ++ s.utxos.filter fun p => p.outpoint ≠ o := by
  rw [World.utxos, List.filter_append, List.filter_eq_self.mpr fun p hp => by simpa using hnew p hp]
  simp [World.utxos, List.filter_filter]

/-- The one coin, once it was spent, and the change is at the next leaf. -/
theorem AtLeaf.single_next (hbuild : Function.Injective kaspa.build) (hfree : vault.CollisionFree kaspa)
    (h : AtLeaf kaspa vault first s records leaf c) {paidOut paid : Coin}
    (helse : NoLeaf kaspa vault paidOut.scriptPublicKey)
    (hnext : vault.leafScript kaspa (leaf + 1) = .ok paid.scriptPublicKey) :
    vault.SingleUtxo kaspa ([paidOut, paid] ++ s.utxos.filter fun p => p.outpoint ≠ c.outpoint) (leaf + 1) paid := by
  have hrest (l : UInt32) : vault.coinsAt kaspa (s.utxos.filter fun p => p.outpoint ≠ c.outpoint) l = [] := by
    refine List.filter_eq_nil_iff.mpr fun p hp hl => ?_
    obtain ⟨hp, hne⟩ := List.mem_filter.mp hp
    obtain ⟨-, rfl⟩ := h.eq_of_mem hp (by simpa using hl)
    exact absurd hne (by simp)
  have hnew (l : UInt32) : vault.coinsAt kaspa ([paidOut, paid] ++ s.utxos.filter fun p => p.outpoint ≠ c.outpoint) l =
      vault.coinsAt kaspa [paid] l := by
    rw [coinsAt_append, hrest, List.append_nil, coinsAt_noLeaf helse]
  obtain ⟨script, hscript, -⟩ := map_eq_ok.mp hnext
  refine ⟨(redeemScript_cases hscript).1, ?_, fun l hl hne => ?_⟩
  · rw [hnew]
    exact List.filter_eq_self.mpr fun p hp => by simpa [List.mem_singleton.mp hp] using hnext
  · rw [hnew]
    refine List.filter_eq_nil_iff.mpr fun p hp hl' => hne ?_
    rw [List.mem_singleton.mp hp, decide_eq_true_eq] at hl'
    exact leafScript_inj hbuild hfree hl' hnext

/-- **Inclusion moves the coin to the next leaf.** -/
theorem AtLeaf.confirm (hbuild : Function.Injective kaspa.build) (hfree : vault.CollisionFree kaspa)
    (h : AtLeaf kaspa vault first s records leaf c) {t : MassTransaction} {txid : Block 32} {blockDaaScore : UInt64}
    (ht : t ∈ s.mempool)
    (hinputs : ∀ o ∈ t.inputs.map TransactionInput.previousOutpoint, o ∈ s.utxos.map Coin.outpoint)
    (hnodup : ((coinsOf t txid blockDaaScore ++ s.coins).map Coin.outpoint).Nodup) :
    ∃ change, AtLeaf kaspa vault first { s with
      coins := coinsOf t txid blockDaaScore ++ s.coins
      spent := t.inputs.map TransactionInput.previousOutpoint ++ s.spent } records (leaf + 1) change := by
  obtain ⟨q, c', destination, change, hq, hc', hleaf, hin, hout, hnext⟩ := h.mempool t ht
  -- it is the coin there is that is spent
  obtain ⟨c'', hunspent, hsame⟩ := List.mem_map.mp (hinputs c'.outpoint (by simp [hin]))
  obtain rfl : c'' = c' := List.inj_on_of_nodup_map h.nodup (List.mem_of_mem_filter hunspent) hc' hsame
  obtain ⟨rfl, rfl⟩ := h.eq_of_mem hunspent hleaf
  have hscanned := (h.signers q hq).2.2
  have hcount := toNat_add_one hscanned
  let paidOut : Coin := ⟨⟨txid, UInt32.ofNat 0⟩, destination.value, destination.scriptPublicKey, blockDaaScore⟩
  let paid : Coin := ⟨⟨txid, UInt32.ofNat 1⟩, change.value, change.scriptPublicKey, blockDaaScore⟩
  have hcoins : coinsOf t txid blockDaaScore = [paidOut, paid] := by simp [coinsOf, hout, paidOut, paid]
  have hspent : ∀ o ∈ [c''.outpoint] ++ s.spent, o ∈ s.coins.map Coin.outpoint := by
    intro o ho
    rcases List.mem_append.mp ho with ho | ho
    · exact List.mem_map.mpr ⟨c'', hc', (List.mem_singleton.mp ho).symm⟩
    · exact h.spent o ho
  rw [hcoins] at hnodup ⊢
  have hfresh : ∀ p ∈ [paidOut, paid], p.outpoint ∉ [c''.outpoint] ++ s.spent := by
    intro p hp ho
    rw [List.map_append] at hnodup
    exact (List.nodup_append.mp hnodup).2.2 _ (List.mem_map_of_mem hp) _ (hspent _ ho) rfl
  rw [hin]
  refine ⟨paid, {
    file := h.file
    signed := h.signed
    nodup := hnodup
    spent := fun o ho => ?_
    single := ?_
    count := ?_
    mempool := fun t' ht' => ?_
    destination := h.destination
    signers := fun l hl => ?_
    left := fun l hfirst hl => ?_ }⟩
  · rw [List.map_append]
    exact List.mem_append_right _ (hspent o ho)
  · rw [utxos_spend hfresh]
    exact h.single_next hbuild hfree (h.destination t ht destination (by rw [hout]; rfl)) hnext
  · rw [hcount, h.count, List.length_append, List.length_singleton]
    omega
  · obtain ⟨q', c', destination', change', hq', hc', hrest⟩ := h.mempool t' ht'
    exact ⟨q', c', destination', change', hq', List.mem_append_right _ hc', hrest⟩
  · obtain ⟨hfirst, hle, hlt⟩ := h.signers l hl
    exact ⟨hfirst, UInt32.le_of_lt (lt_add_one hscanned hle), hlt⟩
  · by_cases hlast : l = q
    · exact hlast ▸ hq
    · refine h.left l hfirst (UInt32.lt_of_le_of_ne ?_ hlast)
      rw [UInt32.lt_iff_toNat_lt, hcount] at hl
      exact UInt32.le_iff_toNat_le.mpr (Nat.lt_succ_iff.mp hl)

/-- **The leaf of the coin signs.** -/
theorem AtLeaf.record (h : AtLeaf kaspa vault first s records leaf c) {r : SpendRecord}
    (hr : r.leaf = ⟨vault.publicKey.id, leaf⟩) (hsigned : r.signature ≠ []) (hscanned : leaf < scanWindow) :
    AtLeaf kaspa vault first { s with file := (s.file.append (recordLine r)).sync } (records ++ [r]) leaf c where
  file := by
    rw [h.file]
    exact file_record records r
  signed := by
    intro r' hr'
    rcases List.mem_append.mp hr' with hr' | hr'
    · exact h.signed r' hr'
    · exact List.mem_singleton.mp hr' ▸ hsigned
  nodup := h.nodup
  spent := h.spent
  single := h.single
  count := h.count
  mempool t ht := by
    obtain ⟨q, c', destination, change, ⟨r', hr', hleaf⟩, hrest⟩ := h.mempool t ht
    exact ⟨q, c', destination, change, ⟨r', List.mem_append_left _ hr', hleaf⟩, hrest⟩
  destination := h.destination
  signers q hq := by
    rcases hasSigned_append hr hq with hq | rfl
    · exact h.signers q hq
    · refine ⟨UInt32.le_iff_toNat_le.mpr ?_, UInt32.le_refl _, hscanned⟩
      rw [h.count]
      exact Nat.le_add_right _ _
  left q hfirst hq := by
    obtain ⟨r', hr', hleaf⟩ := h.left q hfirst hq
    exact ⟨r', List.mem_append_left _ hr', hleaf⟩

/-- A spend that is broadcast. -/
theorem AtLeaf.broadcast (h : AtLeaf kaspa vault first s records leaf c) (broadcast : Option MassTransaction)
    (ht : ∀ t, broadcast = some t → IsSpend kaspa vault s records t ∧
      ∀ o, t.outputs.head? = some o → NoLeaf kaspa vault o.scriptPublicKey) :
    AtLeaf kaspa vault first { s with mempool := s.mempool ++ broadcast.toList } records leaf c where
  file := h.file
  signed := h.signed
  nodup := h.nodup
  spent := h.spent
  single := h.single
  count := h.count
  mempool t hmem := by
    rcases List.mem_append.mp hmem with hmem | hmem
    · exact h.mempool t hmem
    · exact (ht t (Option.mem_toList.mp hmem)).1
  destination t hmem := by
    rcases List.mem_append.mp hmem with hmem | hmem
    · exact h.destination t hmem
    · exact (ht t (Option.mem_toList.mp hmem)).2
  signers := h.signers
  left := h.left

variable (hlib : lib.Lawful kaspa) (hbuild : Function.Injective kaspa.build) (hfree : vault.CollisionFree kaspa)
  {engine : ScriptEngine} {sha256 : Bytes → Block 32} {lms : LmsLib K} (hkey : lms.signingKey.Honest)
  {node : List Coin → Client Address}

include hlib hbuild hfree hkey in
/-- **A call** is for the leaf of the coin, if it is for any. -/
theorem AtLeaf.run (h : AtLeaf kaspa vault first s records leaf c) {req : SpendRequest Params Prefix Address}
    (hvault : req.vault = vault) (hserves : ∀ coins, (node coins).Serves lib req.addressPrefix coins)
    (helse : NoLeaf kaspa vault (lib.payToAddressScript req.destination)) :
    ∃ records', AtLeaf kaspa vault first (s.step kaspa lib engine sha256 lms node (.run req)) records' leaf c := by
  subst hvault
  rw [World.step]
  rcases run_cases kaspa lib engine sha256 hkey (node s.utxos) req s.file with
    ⟨hfile, hbroadcast⟩ | ⟨utxo, outputs, entries, hplan, hopen, hfile, hbroadcast⟩
  · simp only [hfile, hbroadcast]
    exact ⟨records, h.broadcast none fun _ ht => by cases ht⟩
  obtain ⟨c', destination, change, hc, hoc, houtputs, hnext⟩ := planSpend_spends hlib hbuild hfree rfl (hserves _) hplan
  obtain ⟨-, -, changeAddress, amount, -, rfl⟩ := planSpend_ok hplan
  obtain ⟨hmem, hunspent, hleaf⟩ := mem_of_onlyFunded hc
  obtain ⟨rfl, rfl⟩ := h.eq_of_mem (List.mem_filter.mpr ⟨hmem, by simpa using hunspent⟩) hleaf
  -- what is broadcast is a spend of the coin, once the leaf has signed
  have hspend {file' : AppendFile Char} {records' : List SpendRecord} (hsigned : HasSigned req.vault records' utxo.leaf)
      (t : MassTransaction)
      (ht : (LmsWallet.run kaspa lib engine sha256 lms (node s.utxos) req s.file).broadcast = some t) :
      IsSpend kaspa req.vault { s with file := file' } records' t ∧
        ∀ o, t.outputs.head? = some o → NoLeaf kaspa req.vault o.scriptPublicKey := by
    obtain ⟨hin, hout⟩ := hbroadcast t ht
    refine ⟨isSpend_of_onlyFunded (s := { s with file := file' }) hc hoc hnext hsigned hin (houtputs ▸ hout), ?_⟩
    rw [hout]
    rintro o ⟨⟩
    exact helse
  have hentries : s.recordOf req.journalPath ⟨req.vault.publicKey.id, utxo.leaf⟩ =
      entries ⟨req.vault.publicKey.id, utxo.leaf⟩ := by
    rw [World.recordOf, hopen]
  rcases hfile with ⟨hfile, r, hr⟩ | ⟨hnone, r, hleaf', hlen, hfile⟩
  · -- the leaf has signed before
    have hsigned : HasSigned req.vault records utxo.leaf := by
      by_contra hno
      rw [(recordOf_eq_none req.vault h.file h.signed req.journalPath).mpr hno, hr] at hentries
      cases hentries
    rw [hfile]
    exact ⟨records, h.broadcast _ (hspend hsigned)⟩
  · -- the leaf signs
    rw [hfile]
    exact ⟨records ++ [r], (h.record hleaf' (ne_nil_of_length hlen) hc.lt_window).broadcast _
      (hspend ⟨r, by simp, hleaf'⟩)⟩

include hlib hbuild hfree hkey in
/-- **Every event** leaves the coin where it is, or at the next leaf. -/
theorem AtLeaf.step (h : AtLeaf kaspa vault first s records leaf c) {addressPrefix : Prefix}
    (hserves : ∀ coins, (node coins).Serves lib addressPrefix coins) {e : Event Params Prefix Address}
    (hvault : ForVault vault addressPrefix e) (helse : PaysElsewhere kaspa lib vault e) :
    ∃ records' leaf' c', AtLeaf kaspa vault first (s.step kaspa lib engine sha256 lms node e) records' leaf' c' := by
  cases e with
  | deposit coin =>
    rw [World.step]
    split_ifs with hnew
    · exact ⟨records, leaf, c, h⟩
    · exact ⟨records, leaf, c, h.deposit hnew helse⟩
  | run req =>
    obtain ⟨hvault, rfl⟩ := hvault
    obtain ⟨records', h'⟩ := h.run hlib hbuild hfree hkey hvault hserves helse
    exact ⟨records', leaf, c, h'⟩
  | confirm t txid blockDaaScore =>
    rw [World.step]
    split_ifs with hincluded
    · obtain ⟨change, h'⟩ := h.confirm hbuild hfree hincluded.1 hincluded.2.1 hincluded.2.2
      exact ⟨records, leaf + 1, change, h'⟩
    · exact ⟨records, leaf, c, h⟩

/-- A vault with one coin, of which nothing was signed or spent. -/
theorem AtLeaf.init (hinit : Initial vault s) (hcoin : vault.SingleUtxo kaspa s.utxos first c) :
    ∃ records, AtLeaf kaspa vault first s records first c := by
  obtain ⟨records, hfile, hrecords⟩ := hinit.file
  have hnone (q : UInt32) : ¬HasSigned vault records q := by
    rintro ⟨r, hr, hleaf⟩
    exact (hrecords r hr).2 (by rw [hleaf])
  exact ⟨records, {
    file := hfile
    signed := fun r hr => (hrecords r hr).1
    nodup := hinit.nodup
    spent := by simp [hinit.spent]
    single := hcoin
    count := by simp [hinit.spent]
    mempool := by simp [hinit.mempool]
    destination := by simp [hinit.mempool]
    signers := fun q hq => absurd hq (hnone q)
    left := fun q hfirst hq => absurd hfirst (UInt32.not_le.mpr hq) }⟩

include hlib hbuild hfree hkey in
/-- **Every run** keeps to one coin. -/
theorem AtLeaf.steps {addressPrefix : Prefix} (hserves : ∀ coins, (node coins).Serves lib addressPrefix coins)
    {events : List (Event Params Prefix Address)} (hvault : ∀ e ∈ events, ForVault vault addressPrefix e)
    (helse : ∀ e ∈ events, PaysElsewhere kaspa lib vault e) (h : AtLeaf kaspa vault first s records leaf c) :
    ∃ records' leaf' c',
      AtLeaf kaspa vault first (events.foldl (World.step kaspa lib engine sha256 lms node) s) records' leaf' c' := by
  induction events generalizing s records leaf c with
  | nil => exact ⟨records, leaf, c, h⟩
  | cons e events ih =>
    obtain ⟨records', leaf', c', h'⟩ := h.step hlib hbuild hfree hkey hserves (hvault e (by simp)) (helse e (by simp))
    exact ih (fun e' he' => hvault e' (by simp [he'])) (fun e' he' => helse e' (by simp [he'])) h'

include hlib hbuild hfree in
/-- The coin is found while its leaf is scanned, and nothing else ever is. -/
theorem AtLeaf.locateFunds_iff (h : AtLeaf kaspa vault first s records leaf c) {client : Client Address}
    {addressPrefix : Prefix} (hserves : client.Serves lib addressPrefix s.utxos)
    (hanswers : ∀ addresses, ∃ entries, client.getUtxosByAddresses addresses = .ok entries)
    (found : UInt32 × VaultUtxo) : locateFunds kaspa lib client vault addressPrefix scanWindow = .ok found ↔
      leaf < scanWindow ∧ found = (leaf, c.toVaultUtxo leaf) := by
  constructor
  · intro hfound
    obtain ⟨c', hc, hutxo⟩ := (locateFunds_eq_ok hlib hbuild hfree hserves hanswers).mp hfound
    obtain ⟨hmem, hunspent, hleaf⟩ := mem_of_onlyFunded hc
    obtain ⟨hsame, rfl⟩ := h.eq_of_mem (List.mem_filter.mpr ⟨hmem, by simpa using hunspent⟩) hleaf
    exact ⟨hsame ▸ hc.lt_window, Prod.ext hsame (hutxo.trans (by rw [hsame]))⟩
  · rintro ⟨hscanned, rfl⟩
    exact (locateFunds_eq_ok hlib hbuild hfree hserves hanswers).mpr ⟨c, h.single.onlyFunded hscanned, rfl⟩

/-- The coin does not go further than one leaf past those that are scanned. -/
theorem AtLeaf.le_max (h : AtLeaf kaspa vault first s records leaf c) :
    leaf.toNat ≤ max first.toNat scanWindow.toNat := by
  by_contra hgt
  have hpos : 0 < leaf.toNat := Nat.zero_lt_of_lt (not_le.mp hgt)
  have hprev : (leaf - 1).toNat = leaf.toNat - 1 :=
    UInt32.toNat_sub_of_le leaf 1 (UInt32.le_iff_toNat_le.mpr hpos)
  obtain ⟨-, -, hscanned⟩ := h.signers (leaf - 1) (h.left (leaf - 1)
    (UInt32.le_iff_toNat_le.mpr (by omega)) (UInt32.lt_iff_toNat_lt.mpr (by omega)))
  rw [UInt32.lt_iff_toNat_lt] at hscanned
  omega

include hlib hbuild hfree hkey in
variable (engine sha256 lms node) in
/-- **The coin of a vault over time.** If nobody pays to the leaves but the vault's own spends, then after every run
the vault has one coin, at the first leaf and as many more as spends were included. A spend finds it up
to leaf 63, past which it moves by one leaf at most. All leaves it has left have signed, and no
leaf after it. -/
theorem coin_advances {addressPrefix : Prefix} (hserves : ∀ coins, (node coins).Serves lib addressPrefix coins)
    (hanswers : ∀ coins addresses, ∃ entries, (node coins).getUtxosByAddresses addresses = .ok entries)
    (hinit : Initial vault s) (hcoin : vault.SingleUtxo kaspa s.utxos first c)
    {events : List (Event Params Prefix Address)} (hvault : ∀ e ∈ events, ForVault vault addressPrefix e)
    (helse : ∀ e ∈ events, PaysElsewhere kaspa lib vault e) {s' : World}
    (hs' : events.foldl (World.step kaspa lib engine sha256 lms node) s = s') :
    ∃ leaf c', leaf.toNat = first.toNat + s'.spent.length ∧ leaf.toNat ≤ max first.toNat scanWindow.toNat ∧
      vault.SingleUtxo kaspa s'.utxos leaf c' ∧
      (∀ found, locateFunds kaspa lib (node s'.utxos) vault addressPrefix scanWindow = .ok found ↔
        leaf < scanWindow ∧ found = (leaf, c'.toVaultUtxo leaf)) ∧
      ∀ path q, (first ≤ q → q < leaf → s'.recordOf path ⟨vault.publicKey.id, q⟩ ≠ none) ∧
        (s'.recordOf path ⟨vault.publicKey.id, q⟩ ≠ none → first ≤ q ∧ q ≤ leaf ∧ q < scanWindow) := by
  obtain ⟨records, h⟩ := AtLeaf.init hinit hcoin
  obtain ⟨records', leaf, c', h'⟩ : ∃ records' leaf' c', AtLeaf kaspa vault first
      (events.foldl (World.step kaspa lib engine sha256 lms node) s) records' leaf' c' :=
    h.steps hlib hbuild hfree hkey hserves hvault helse
  rw [hs'] at h'
  refine ⟨leaf, c', h'.count, h'.le_max, h'.single, h'.locateFunds_iff hlib hbuild hfree (hserves _) (hanswers _),
    fun path q => ⟨fun hfirst hq hnone => ?_, fun hsome => ?_⟩⟩
  · exact (recordOf_eq_none vault h'.file h'.signed path).mp hnone (h'.left q hfirst hq)
  · by_contra hno
    exact hsome ((recordOf_eq_none vault h'.file h'.signed path).mpr fun hq => hno (h'.signers q hq))

end

/-- Once a spend of leaf 0 has been included, the coin is at leaf 1. -/
theorem coin_advances_one : ∃ (t : MassTransaction) (c : Coin), testVault.SingleUtxo scriptKaspa
    (([.run TestSpend.first.request, .confirm t (blockOf 32 9) 0] : List (Event Unit Unit Bytes)).foldl
      (World.step scriptKaspa testLib testEngine testHash testLms testClient) (paidWorld 0)).utxos 1 c := by
  obtain ⟨r, t, -, -, -, hrun, hconfirm⟩ := step_run_paidWorld 0 (by decide)
  have hinit : Initial testVault (paidWorld 0) := ⟨⟨[], rfl, by simp⟩, by simp [paidWorld], rfl, rfl⟩
  have helse : ∀ e ∈ [.run TestSpend.first.request, .confirm t (blockOf 32 9) 0],
      PaysElsewhere scriptKaspa testLib testVault e := by
    intro e he
    rcases List.mem_pair.mp he with rfl | rfl
    · exact leafScript_ne_testDestination
    · trivial
  have hcoin : testVault.SingleUtxo scriptKaspa (paidWorld 0).utxos 0 (LmsWallet.coinAt 0) := by
    rw [utxos_paidWorld]
    exact singleUtxo_coinAt (by decide)
  obtain ⟨s, hs⟩ : ∃ s, ([.run TestSpend.first.request, .confirm t (blockOf 32 9) 0] :
    List (Event Unit Unit Bytes)).foldl (World.step scriptKaspa testLib testEngine testHash testLms testClient)
      (paidWorld 0) = s := ⟨_, rfl⟩
  obtain ⟨leaf, c, hcount, -, hsingle, -⟩ := coin_advances lawful_testLib encodeScript_injective collisionFree_testVault
    testEngine testHash testLms honest_testKey testClient serves_testClient (fun _ _ => ⟨_, rfl⟩) hinit
    hcoin (by simp [ForVault, TestSpend.request]) helse hs
  rw [List.foldl_cons, List.foldl_cons, List.foldl_nil, hrun, hconfirm] at hs
  rw [← hs] at hcount
  obtain rfl : leaf = 1 := UInt32.toNat_inj.mp hcount
  refine ⟨t, c, ?_⟩
  rw [List.foldl_cons, List.foldl_cons, List.foldl_nil, hrun, hconfirm, hs]
  exact hsingle

end World

end KaspaPqv.LmsWallet
