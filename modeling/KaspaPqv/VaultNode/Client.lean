import KaspaPqv.LmsWallet.ChangeLeaf
import KaspaPqv.LmsWallet.LiveLeaf
import KaspaPqv.VaultNode.Connect
import Mathlib.Algebra.Order.BigOperators.Group.List

/-!
# The balances of a node

The wallet scans without asking anybody: balances are loaded before, into a cache, and read
from it. A load that fails leaves the cache alone; a later load of an address takes the
place of an earlier one. What was never loaded has no balance, so that a scan which succeeds
has not taken anything for empty that the node was not asked for.

## What is proved

* `afterLoads_eq` — a balance is what the last load of the address that succeeded was told.
* `scanRange_afterLoads` — what a scan finds after any loads, and when it fails.
* `told_of_serves` — what a load is told of an address is what its coins are worth.
* `scanFromHint_finds` — in every run of the wallet, a scan from the highest leaf that has signed
  finds the live leaf, which is that one or the next.
-/

namespace KaspaPqv.VaultNode

open KaspaPqv.Lib KaspaPqv.Script KaspaPqv.VaultCore KaspaPqv.LmsScript KaspaPqv.LmsWallet

/-! ### The cache -/

section

variable {NodeParams Prefix Address : Type} (kaspa : Kaspa NodeParams) (lib : AddressLib Prefix Address)

/-- What is held under a written address, in sompi. -/
def totalHeld (held : Option (List VaultUtxoEntry)) : UInt64 :=
  (held.map fun entries => (entries.map VaultUtxoEntry.amount).sum).getD 0

/-- One turn of the loop over the addresses. -/
def noteBalance (utxos : UtxoMap) (cache : BalanceCache) (address : Address) : BalanceCache :=
  let key := lib.text address
  Function.update cache key (some (totalHeld (utxos key)))

/-- Load the balances of some addresses. -/
def loadBalances (client : Client Address) (addresses : List Address) (cache : BalanceCache) :
    Except String Unit × BalanceCache :=
  match client.utxosFor lib addresses with
  | .error e => (.error e, cache)
  | .ok utxos => (.ok (), addresses.foldl (noteBalance lib utxos) cache)

/-- The balance of an address, from the cache. -/
def cachedBalances (cache : BalanceCache) : UtxoSource Address where
  balance address := orFail (cache (lib.text address))
    (s!"balance for {lib.text address} was not pre-loaded; call load_balances() for the " ++
      "address range before scanning")

/-- A load: of some addresses, from the node as it answers then. -/
structure Load (Address : Type) where
  client : Client Address
  addresses : List Address

/-- The cache after some loads. -/
def afterLoads (loads : List (Load Address)) : BalanceCache :=
  loads.foldl (fun cache load => (loadBalances lib load.client load.addresses cache).2) fun _ => none

/-- What a load notes under a written address. -/
def Load.told (load : Load Address) (key : String) : Option UInt64 :=
  match load.client.utxosFor lib load.addresses with
  | .error _ => none
  | .ok utxos => if key ∈ load.addresses.map lib.text then some (totalHeld (utxos key)) else none

/-- What the last load that noted something was told. -/
def lastTold (loads : List (Load Address)) (key : String) : Option UInt64 :=
  loads.reverse.findSome? fun load => load.told lib key

variable {lib}

theorem foldl_noteBalance (utxos : UtxoMap) (addresses : List Address) (cache : BalanceCache) (key : String) :
    addresses.foldl (noteBalance lib utxos) cache key =
      if key ∈ addresses.map lib.text then some (totalHeld (utxos key)) else cache key := by
  induction addresses generalizing cache with
  | nil => simp
  | cons a addresses ih =>
    rw [List.foldl_cons, ih, List.map_cons]
    by_cases hmem : key ∈ addresses.map lib.text
    · rw [if_pos hmem, if_pos (List.mem_cons_of_mem _ hmem)]
    · rw [if_neg hmem, noteBalance]
      by_cases hkey : key = lib.text a
      · subst hkey
        rw [Function.update_self, if_pos List.mem_cons_self]
      · rw [Function.update_of_ne hkey, if_neg (by simp only [List.mem_cons, not_or]; exact ⟨hkey, hmem⟩)]

/-- **One load**: what it notes takes the place of what was there. -/
theorem loadBalances_eq (load : Load Address) (cache : BalanceCache) (key : String) :
    (loadBalances lib load.client load.addresses cache).2 key = (load.told lib key).or (cache key) := by
  unfold loadBalances Load.told
  cases load.client.utxosFor lib load.addresses with
  | error e => rfl
  | ok utxos =>
    simp only [foldl_noteBalance]
    split_ifs
    · rfl
    · rfl

/-- **The cache after any loads** holds what the last one of an address that succeeded was told. -/
theorem afterLoads_eq (loads : List (Load Address)) (key : String) : afterLoads lib loads key = lastTold lib loads key := by
  induction loads using List.reverseRecOn with
  | nil => rfl
  | append_singleton loads load ih =>
    rw [afterLoads, List.foldl_append, List.foldl_cons, List.foldl_nil, loadBalances_eq, ← afterLoads, ih, lastTold,
      lastTold, List.reverse_concat, List.findSome?_cons]
    cases load.told lib key with
    | none => rfl
    | some amount => rfl

variable {kaspa} {vault : Vault} {addressPrefix : Prefix}

/-- **A scan of leaves that were all loaded** finds those that hold funds. -/
theorem scanRange_of_loaded (hextract : lib.ExtractsScriptHash kaspa) {loads : List (Load Address)} {first last : UInt32}
    (hall : ∀ leaf, first ≤ leaf → leaf < last → leaf < vault.leafCount → ∀ a,
      vault.address kaspa lib addressPrefix leaf = .ok a → (lastTold lib loads (lib.text a)).isSome) :
    scanRange kaspa lib (cachedBalances lib (afterLoads lib loads)) vault addressPrefix first last =
      .ok ⟨(leafRange first (min last vault.leafCount)).filterMap (leafBalance kaspa lib
        (fun a => (lastTold lib loads (lib.text a)).getD 0) vault addressPrefix)⟩ := by
  let source : UtxoSource Address := ⟨fun a => .ok ((lastTold lib loads (lib.text a)).getD 0)⟩
  have hanswer : ∀ a, source.balance a = .ok ((lastTold lib loads (lib.text a)).getD 0) := fun _ => rfl
  rw [← scanRange_eq_ok hextract hanswer vault addressPrefix first last]
  refine scanRange_congr fun leaf hfirst hlast hcount a ha => ?_
  obtain ⟨amount, hamount⟩ := Option.isSome_iff_exists.mp (hall leaf hfirst hlast hcount a ha)
  simp only [cachedBalances, afterLoads_eq, source, hamount]
  rfl

/-- **A scan after any loads** succeeds if and only if every leaf of the range was loaded, and finds the leaves that
hold funds, by what the last load of each was told. -/
theorem scanRange_afterLoads (hextract : lib.ExtractsScriptHash kaspa) (loads : List (Load Address)) (vault : Vault)
    (addressPrefix : Prefix) (first last : UInt32) (r : ScanResult Address) :
    scanRange kaspa lib (cachedBalances lib (afterLoads lib loads)) vault addressPrefix first last = .ok r ↔
      (∀ leaf, first ≤ leaf → leaf < last → leaf < vault.leafCount → ∀ a,
        vault.address kaspa lib addressPrefix leaf = .ok a → (lastTold lib loads (lib.text a)).isSome) ∧
      r = ⟨(leafRange first (min last vault.leafCount)).filterMap (leafBalance kaspa lib
        (fun a => (lastTold lib loads (lib.text a)).getD 0) vault addressPrefix)⟩ := by
  constructor
  · intro h
    have hall : ∀ leaf, first ≤ leaf → leaf < last → leaf < vault.leafCount → ∀ a,
        vault.address kaspa lib addressPrefix leaf = .ok a → (lastTold lib loads (lib.text a)).isSome := by
      intro leaf hfirst hlast hcount a ha
      obtain ⟨a', amount, ha', hbalance⟩ := scanRange_reads h hfirst hlast hcount
      obtain rfl := Except.ok.inj (ha.symm.trans ha')
      rw [← afterLoads_eq, orFail_eq_ok.mp hbalance]
      rfl
    exact ⟨hall, Except.ok.inj (h.symm.trans (scanRange_of_loaded hextract hall))⟩
  · rintro ⟨hall, rfl⟩
    exact scanRange_of_loaded hextract hall

/-! ### What the coins are worth -/

variable (lib) in
/-- What the coins of an address are worth, in 64 bits. -/
def heldAt (coins : List Coin) (a : Address) : UInt64 :=
  ((coins.filter fun c => c.scriptPublicKey = lib.payToAddressScript a).map Coin.amount).sum

/-- What is noted of an entry is what the coins of its address are worth. -/
theorem heldUnder_of_serves (hlib : lib.Lawful kaspa) {coins : List Coin} {addresses : List Address}
    {entries : List (RpcUtxosByAddressesEntry Address)}
    (hentries : entries.Perm ((coins.filter fun c => c.scriptPublicKey ∈ addresses.map lib.payToAddressScript).map
      (Coin.toEntry lib addressPrefix))) {a : Address} (ha : a ∈ addresses)
    (hextract : lib.extractScriptPubKeyAddress (lib.payToAddressScript a) addressPrefix = .ok a) :
    (heldUnder lib entries (lib.text a)).Perm
      ((coins.filter fun c => c.scriptPublicKey = lib.payToAddressScript a).map Coin.toVaultUtxoEntry) := by
  refine ((hentries.filter _).map _).trans (List.Perm.of_eq ?_)
  rw [List.filter_map, List.map_map, List.filter_filter]
  refine congrArg (List.map _) (List.filter_congr fun c _ => ?_)
  rw [Bool.eq_iff_iff]
  simp only [Function.comp_apply, Bool.and_eq_true, decide_eq_true_eq, List.mem_map]
  constructor
  · rintro ⟨hkey, -⟩
    cases hspk : lib.extractScriptPubKeyAddress c.scriptPublicKey addressPrefix with
    | error e =>
      simp only [Coin.toEntry, hspk, Except.toOption, Option.map_none] at hkey
      cases hkey
    | ok b =>
      simp only [Coin.toEntry, hspk, Except.toOption, Option.map_some, Option.some.injEq] at hkey
      rw [← hlib.pay_of_extract _ _ _ hspk, hlib.text_inj hkey]
  · intro hspk
    refine ⟨?_, a, ha, hspk.symm⟩
    rw [← hspk] at hextract
    simp [Coin.toEntry, hextract, Except.toOption]

/-- **What a load is told** of an address is what its coins are worth. -/
theorem told_of_serves (hlib : lib.Lawful kaspa) {load : Load Address} {coins : List Coin}
    (hserves : load.client.Serves lib addressPrefix coins) (hnodup : load.addresses.Nodup)
    (hanswers : ∃ entries, load.client.getUtxosByAddresses load.addresses = .ok entries) {a : Address}
    (ha : a ∈ load.addresses)
    (hextract : lib.extractScriptPubKeyAddress (lib.payToAddressScript a) addressPrefix = .ok a) :
    load.told lib (lib.text a) = some (heldAt lib coins a) := by
  have hutxos : ∃ utxos, load.client.utxosFor lib load.addresses = .ok utxos := by
    unfold Client.utxosFor
    split_ifs
    · exact ⟨_, rfl⟩
    · obtain ⟨entries, hentries⟩ := hanswers
      exact ⟨_, by rw [hentries]; rfl⟩
  obtain ⟨utxos, hutxos⟩ := hutxos
  obtain ⟨entries, hperm, hkeys⟩ := utxosFor_eq_ok hserves hnodup hutxos
  have hheld := heldUnder_of_serves hlib hperm ha hextract
  simp only [Load.told, hutxos, if_pos (List.mem_map_of_mem ha), hkeys]
  refine congrArg some ?_
  have hsum : ((heldUnder lib entries (lib.text a)).map VaultUtxoEntry.amount).sum = heldAt lib coins a := by
    rw [(hheld.map _).sum_eq, List.map_map]
    rfl
  rw [← hsum]
  split_ifs with hnil
  · rw [hnil]
    rfl
  · rfl

/-- Machine integers add up to the sum, less what is carried out of the 64 bits. -/
theorem toNat_sum (amounts : List UInt64) : amounts.sum.toNat = (amounts.map UInt64.toNat).sum % 2 ^ 64 := by
  induction amounts with
  | nil => rfl
  | cons amount amounts ih =>
    rw [List.sum_cons, List.map_cons, List.sum_cons, UInt64.toNat_add, ih]
    simp [Nat.add_mod]

/-- What coins are worth over unbounded integers. -/
def worth (coins : List Coin) : ℕ := (coins.map fun c => c.amount.toNat).sum

@[simp] theorem worth_cons (c : Coin) (coins : List Coin) : worth (c :: coins) = c.amount.toNat + worth coins := rfl

theorem worth_filter_le (p : Coin → Bool) (coins : List Coin) : worth (coins.filter p) ≤ worth coins :=
  List.Sublist.sum_le_sum (List.filter_sublist.map _) fun _ _ => Nat.zero_le _

/-- Coins of a leaf, of a supply that fits into 64 bits, are added up right. -/
theorem toNat_heldAt {coins : List Coin} (hsupply : worth coins < 2 ^ 64) {leaf : UInt32} {a : Address}
    (hleaf : vault.leafScript kaspa leaf = .ok (lib.payToAddressScript a)) :
    (heldAt lib coins a).toNat = worth (vault.coinsAt kaspa coins leaf) := by
  have hcoins : vault.coinsAt kaspa coins leaf = coins.filter fun c => c.scriptPublicKey = lib.payToAddressScript a := by
    refine List.filter_congr fun c _ => ?_
    rw [hleaf, decide_eq_decide]
    exact ⟨fun h => (Except.ok.inj h).symm, fun h => congrArg Except.ok h.symm⟩
  rw [hcoins, heldAt, toNat_sum, List.map_map]
  exact Nat.mod_eq_of_lt (Nat.lt_of_le_of_lt (worth_filter_le _ coins) hsupply)

theorem worth_pos {coins : List Coin} (hpositive : ∀ c ∈ coins, 0 < c.amount) : 0 < worth coins ↔ coins ≠ [] := by
  cases coins with
  | nil => simp [worth]
  | cons c coins =>
    have hc : 0 < c.amount.toNat := UInt64.lt_iff_toNat_lt.mp (hpositive c List.mem_cons_self)
    rw [worth_cons]
    exact iff_of_true (Nat.add_pos_left hc _) (List.cons_ne_nil _ _)

/-! ### Scanning from a hint -/

theorem coinsAt_ne_nil {s : World} {leaf : UInt32} :
    vault.coinsAt kaspa s.utxos leaf ≠ [] ↔ World.Funded kaspa vault s leaf := by
  simp only [Vault.coinsAt, World.utxos, ne_eq, List.filter_eq_nil_iff, List.mem_filter, decide_eq_true_eq, not_forall,
    not_not, World.Funded, and_assoc, exists_prop]

variable {K : Type} {engine : ScriptEngine} {sha256 : Bytes → Block 32} {lms : LmsLib K} {node : List Coin → Client Address}

/-- **A run** whose calls are all made while the coins of the last leaf are there keeps the invariant. -/
theorem inv_foldl (hlib : lib.Lawful kaspa) (hbuild : Function.Injective kaspa.build) (hfree : vault.CollisionFree kaspa)
    (hkey : lms.signingKey.Honest) (hserves : ∀ coins, (node coins).Serves lib addressPrefix coins) {s : World}
    {records : List SpendRecord} (h : World.Inv kaspa vault s records)
    {events : List (World.Event NodeParams Prefix Address)} (hvault : ∀ e ∈ events, World.ForVault vault addressPrefix e)
    (hlast : World.EveryStep kaspa lib engine sha256 lms node (World.LastLeafUnspent kaspa) s events) :
    ∃ records', World.Inv kaspa vault (events.foldl (World.step kaspa lib engine sha256 lms node) s) records' := by
  induction events generalizing s records with
  | nil => exact ⟨records, h⟩
  | cons e events ih =>
    obtain ⟨he, hrest⟩ := hlast
    obtain ⟨⟨records', hnext⟩, -⟩ :=
      h.step hlib hbuild hfree hkey hserves (hvault e List.mem_cons_self) he
    exact ih hnext (fun e' he' => hvault e' (List.mem_cons_of_mem _ he')) hrest

/-- What is found of a leaf is what its coins are worth. -/
theorem leafBalance_eq {balance : Address → UInt64} {leaf : UInt32} {a : Address}
    (ha : vault.address kaspa lib addressPrefix leaf = .ok a) :
    leafBalance kaspa lib balance vault addressPrefix leaf =
      if balance a > 0 then some ⟨leaf, a, balance a⟩ else none := by
  rw [leafBalance, ha]

/-- **From the highest leaf that has signed**, in any state of the invariant: a scan of a range that was loaded finds
a live leaf, which is this one or the next. -/
theorem scanFromHint_of_inv (hlib : lib.Lawful kaspa) {s : World} {records : List SpendRecord}
    (h : World.Inv kaspa vault s records) (hpositive : ∀ c ∈ s.utxos, 0 < c.amount) (hsupply : worth s.utxos < 2 ^ 64)
    {hint window : UInt32} (hwindow : 2 ≤ window) (hsigned : World.HasSigned vault records hint)
    (hmax : ∀ q, World.HasSigned vault records q → q ≤ hint) (loads : List (Load Address)) {load : Load Address}
    (hserves : load.client.Serves lib addressPrefix s.utxos) (hnodup : load.addresses.Nodup)
    (hanswers : ∃ entries, load.client.getUtxosByAddresses load.addresses = .ok entries)
    (hcovers : ∀ leaf, hint ≤ leaf → leaf < saturatingAdd32 hint window → leaf < vault.leafCount →
      ∃ a ∈ load.addresses, vault.address kaspa lib addressPrefix leaf = .ok a) :
    ∃ r b, scanFromHint kaspa lib (cachedBalances lib (afterLoads lib (loads ++ [load]))) vault addressPrefix hint window =
        .ok r ∧ r.liveLeaf = some b ∧ (b.leaf = hint ∨ b.leaf = hint + 1) ∧
      b.amount.toNat = worth (vault.coinsAt kaspa s.utxos b.leaf) := by
  have htold : ∀ leaf, hint ≤ leaf → leaf < saturatingAdd32 hint window → leaf < vault.leafCount → ∀ a,
      vault.address kaspa lib addressPrefix leaf = .ok a →
      lastTold lib (loads ++ [load]) (lib.text a) = some (heldAt lib s.utxos a) ∧
        (heldAt lib s.utxos a).toNat = worth (vault.coinsAt kaspa s.utxos leaf) := by
    intro leaf hfirst hlast hcount a ha
    obtain ⟨a', hmem, ha'⟩ := hcovers leaf hfirst hlast hcount
    obtain rfl := Except.ok.inj (ha.symm.trans ha')
    obtain ⟨spk, hspk, hextract⟩ := address_eq_ok.mp ha
    have hpay := hlib.pay_of_extract _ _ _ hextract
    rw [← hpay] at hspk hextract
    refine ⟨?_, toNat_heldAt hsupply hspk⟩
    rw [lastTold, List.reverse_concat, List.findSome?_cons, told_of_serves hlib hserves hnodup hanswers hmem hextract]
  have hscan := scanRange_of_loaded hlib.extract_scriptHash
    fun leaf hfirst hlast hcount a ha => Option.isSome_of_eq_some (htold leaf hfirst hlast hcount a ha).1
  have hend : scanWindow.toNat = 64 := rfl
  have hleaves : vault.leafCount.toNat = 32768 := rfl
  have hwin : (2 : UInt32).toNat ≤ window.toNat := UInt32.le_iff_toNat_le.mp hwindow
  have htwo : (2 : UInt32).toNat = 2 := rfl
  have hscanned := UInt32.lt_iff_toNat_lt.mp (h.scanned hint hsigned)
  have hnext := World.toNat_add_one (h.scanned hint hsigned)
  -- a leaf with a coin is found, and one without is not
  have hfound : ∀ leaf, hint ≤ leaf → leaf < saturatingAdd32 hint window → leaf < vault.leafCount → ∃ a,
      leafBalance kaspa lib (fun a => (lastTold lib (loads ++ [load]) (lib.text a)).getD 0) vault addressPrefix leaf =
        (if heldAt lib s.utxos a > 0 then some ⟨leaf, a, heldAt lib s.utxos a⟩ else none) ∧
      (heldAt lib s.utxos a > 0 ↔ World.Funded kaspa vault s leaf) ∧
      (heldAt lib s.utxos a).toNat = worth (vault.coinsAt kaspa s.utxos leaf) := by
    intro leaf hfirst hlast hcount
    obtain ⟨a, -, ha⟩ := hcovers leaf hfirst hlast hcount
    obtain ⟨hheld, hworth⟩ := htold leaf hfirst hlast hcount a ha
    refine ⟨a, ?_, ?_, hworth⟩
    · rw [leafBalance_eq ha]
      simp only [hheld, Option.getD_some]
    · have hpos : 0 < worth (vault.coinsAt kaspa s.utxos leaf) ↔ vault.coinsAt kaspa s.utxos leaf ≠ [] :=
        worth_pos fun c hc => hpositive c (List.mem_filter.mp hc).1
      rw [gt_iff_lt, UInt64.lt_iff_toNat_lt, UInt64.toNat_zero, hworth, hpos]
      exact coinsAt_ne_nil
  have hlt (leaf : UInt32) (hleaf : leaf.toNat ≤ hint.toNat + 1) :
      leaf < saturatingAdd32 hint window ∧ leaf < vault.leafCount := by
    refine ⟨lt_saturatingAdd32 (by omega) (by omega), UInt32.lt_iff_toNat_lt.mpr (by omega)⟩
  obtain ⟨hlast, hcount⟩ := hlt hint (Nat.le_succ _)
  obtain ⟨a, hbalance, hfunded, hamount⟩ := hfound hint UInt32.le_rfl hlast hcount
  by_cases hhere : World.Funded kaspa vault s hint
  · refine ⟨_, ⟨hint, a, heldAt lib s.utxos a⟩, hscan, liveLeaf_eq_some.mpr ⟨hint, UInt32.le_rfl,
      lt_min_uint32.mpr ⟨hlast, hcount⟩, ?_, fun l hl hl' => absurd hl (UInt32.not_le.mpr hl')⟩, .inl rfl, hamount⟩
    rw [hbalance, if_pos (hfunded.mpr hhere)]
  · -- the coin of the last leaf that signed was spent, and its change is at the next
    obtain ⟨m, hm, hmost, hcoin⟩ := h.latest hint hsigned
    obtain rfl := UInt32.le_antisymm (hmax m hm) (hmost hint hsigned)
    obtain ⟨-, hthere⟩ := hcoin.resolve_left hhere
    obtain ⟨hlast', hcount'⟩ := hlt (m + 1) (Nat.le_of_eq hnext)
    have hle : m ≤ m + 1 := UInt32.le_of_lt (World.lt_add_one (h.scanned m hm) UInt32.le_rfl)
    obtain ⟨a', hbalance', hfunded', hamount'⟩ := hfound (m + 1) hle hlast' hcount'
    refine ⟨_, ⟨m + 1, a', heldAt lib s.utxos a'⟩, hscan, liveLeaf_eq_some.mpr ⟨m + 1, hle,
      lt_min_uint32.mpr ⟨hlast', hcount'⟩, ?_, fun l hl hl' => ?_⟩, .inr rfl, hamount'⟩
    · rw [hbalance', if_pos (hfunded'.mpr hthere)]
    · have hlm : l = m := by
        rw [UInt32.lt_iff_toNat_lt, hnext] at hl'
        rw [UInt32.le_iff_toNat_le] at hl
        exact UInt32.toNat_inj.mp (by omega)
      rw [hlm, hbalance, if_neg fun hpos => hhere (hfunded.mp hpos)]

/-- **The live leaf is found from the journal**: in every run of the wallet whose calls are all made while the coins of
the last leaf that is scanned are there, whatever was loaded before, once the leaves from the highest one of the
journal on have been loaded, the scan finds a live leaf: this one, or the next. -/
theorem scanFromHint_finds (hlib : lib.Lawful kaspa) (hbuild : Function.Injective kaspa.build)
    (hfree : vault.CollisionFree kaspa) (hkey : lms.signingKey.Honest)
    (hserves : ∀ coins, (node coins).Serves lib addressPrefix coins)
    (hanswers : ∀ coins addresses, ∃ entries, (node coins).getUtxosByAddresses addresses = .ok entries)
    {s s' : World} (hinit : World.Initial vault s) {events : List (World.Event NodeParams Prefix Address)}
    (hvault : ∀ e ∈ events, World.ForVault vault addressPrefix e)
    (hlast : World.EveryStep kaspa lib engine sha256 lms node (World.LastLeafUnspent kaspa) s events)
    (hrun : events.foldl (World.step kaspa lib engine sha256 lms node) s = s')
    (hpositive : ∀ c ∈ s'.utxos, 0 < c.amount) (hsupply : worth s'.utxos < 2 ^ 64) {path : String}
    {hint window : UInt32} (hwindow : 2 ≤ window) (hsigned : s'.recordOf path ⟨vault.publicKey.id, hint⟩ ≠ none)
    (hmax : ∀ q, s'.recordOf path ⟨vault.publicKey.id, q⟩ ≠ none → q ≤ hint) (loads : List (Load Address))
    {addresses : List Address} (hnodup : addresses.Nodup)
    (hcovers : ∀ leaf, hint ≤ leaf → leaf < saturatingAdd32 hint window → leaf < vault.leafCount →
      ∃ a ∈ addresses, vault.address kaspa lib addressPrefix leaf = .ok a) :
    ∃ r b, scanFromHint kaspa lib (cachedBalances lib (afterLoads lib (loads ++ [⟨node s'.utxos, addresses⟩]))) vault
        addressPrefix hint window = .ok r ∧ r.liveLeaf = some b ∧ (b.leaf = hint ∨ b.leaf = hint + 1) ∧
      b.amount.toNat = worth (vault.coinsAt kaspa s'.utxos b.leaf) := by
  obtain ⟨records, h⟩ := World.Inv.init kaspa hinit
  obtain ⟨records', h'⟩ := inv_foldl hlib hbuild hfree hkey hserves h hvault hlast
  rw [hrun] at h'
  have hrecords (q : UInt32) : s'.recordOf path ⟨vault.publicKey.id, q⟩ ≠ none ↔ World.HasSigned vault records' q := by
    rw [ne_eq, World.recordOf_eq_none vault h'.file h'.signed path, not_not]
  exact scanFromHint_of_inv hlib h' hpositive hsupply hwindow ((hrecords hint).mp hsigned)
    (fun q hq => hmax q ((hrecords q).mpr hq)) loads (hserves _) hnodup (hanswers _ _) hcovers

end

/-- Leaf 0 before it was spent, and both leaves after that. -/
def reloads : List (Load Bytes) :=
  [⟨testClient [LmsWallet.coinAt 0], [leafOutputScript testVault 0]⟩,
    ⟨testClient [LmsWallet.coinAt 1], [leafOutputScript testVault 0, leafOutputScript testVault 1]⟩]

/-- The coin has moved on: leaf 0, which was loaded twice, is empty by then, and leaf 1 holds it. -/
theorem scanRange_afterLoads_reloads :
    scanRange scriptKaspa testLib (cachedBalances testLib (afterLoads testLib reloads)) testVault () 0 2 =
      .ok ⟨[⟨1, leafOutputScript testVault 1, 1000000000⟩]⟩ := by
  have hcount {leaf : UInt32} (h : leaf < 2) : leaf < testVault.leafCount := UInt32.lt_trans h (by decide)
  have hcoin : (LmsWallet.coinAt 1).scriptPublicKey = ⟨0, leafOutputScript testVault 1⟩ :=
    Except.ok.inj ((World.leafScript_coinAt (by decide)).symm.trans (leafScript_scriptKaspa (by decide)))
  have hempty : heldAt testLib [LmsWallet.coinAt 1] (leafOutputScript testVault 0) = 0 := by
    rw [heldAt, List.filter_singleton, hcoin]
    rfl
  have hheld : heldAt testLib [LmsWallet.coinAt 1] (leafOutputScript testVault 1) = 1000000000 := by
    rw [heldAt, List.filter_singleton, hcoin]
    rfl
  have htold {leaf : UInt32} (h : leaf < 2) : lastTold testLib reloads (testLib.text (leafOutputScript testVault leaf)) =
      some (heldAt testLib [LmsWallet.coinAt 1] (leafOutputScript testVault leaf)) := by
    have hmem : leafOutputScript testVault leaf ∈ [leafOutputScript testVault 0, leafOutputScript testVault 1] := by
      obtain rfl | rfl : leaf = 0 ∨ leaf = 1 := by
        rw [UInt32.lt_iff_toNat_lt] at h
        simp only [← UInt32.toNat_inj]
        change leaf.toNat < 2 at h
        change leaf.toNat = 0 ∨ leaf.toNat = 1
        omega
      · exact List.mem_cons_self
      · exact List.mem_cons_of_mem _ List.mem_cons_self
    have hserves : (Load.mk (testClient [LmsWallet.coinAt 1])
        [leafOutputScript testVault 0, leafOutputScript testVault 1]).client.Serves testLib () [LmsWallet.coinAt 1] :=
      serves_testClient _
    have hlast := told_of_serves lawful_testLib hserves
      (by decide : [leafOutputScript testVault 0, leafOutputScript testVault 1].Nodup) ⟨_, rfl⟩ hmem rfl
    rw [lastTold, reloads, List.reverse_cons, List.reverse_singleton, List.singleton_append, List.findSome?_cons, hlast]
  refine (scanRange_afterLoads lawful_testLib.extract_scriptHash reloads testVault () 0 2 _).mpr
    ⟨fun leaf _ hlt _ a ha => ?_, ?_⟩
  · obtain rfl := Except.ok.inj ((address_scriptKaspa (hcount hlt)).symm.trans ha)
    rw [htold hlt]
    rfl
  · have hrange : leafRange 0 (min 2 testVault.leafCount) = [0, 1] := by decide
    have hzero : (0 : UInt32) < 2 := by decide
    have hone : (1 : UInt32) < 2 := by decide
    simp only [hrange, List.filterMap_cons, List.filterMap_nil, leafBalance_eq (address_scriptKaspa (hcount hzero)),
      leafBalance_eq (address_scriptKaspa (hcount hone)), htold hzero, htold hone, hempty, hheld, Option.getD_some]
    rfl

/-- The change of a spend of leaf 0, once it was included. -/
theorem scanFromHint_finds_test : ∃ (coins : List Coin) (addresses : List Bytes) (r : ScanResult Bytes)
    (b : LeafBalance Bytes), coins.length = 2 ∧ scanFromHint scriptKaspa testLib
      (cachedBalances testLib (afterLoads testLib [⟨testClient coins, addresses⟩])) testVault () 0 64 = .ok r ∧
    r.liveLeaf = some b ∧ (b.leaf = 0 ∨ b.leaf = 0 + 1) ∧
    b.amount.toNat = worth (testVault.coinsAt scriptKaspa coins b.leaf) := by
  obtain ⟨record, t, hleaf, hsig, hout, hrun, hconfirm⟩ := World.step_run_paidWorld 0 (by decide)
  obtain ⟨s', hs'⟩ : ∃ s', s' = World.includedWorld 0 record t := ⟨_, rfl⟩
  have hstate : ([.deposit (LmsWallet.coinAt 0), .run TestSpend.first.request, .confirm t (blockOf 32 9) 0] :
      List (World.Event Unit Unit Bytes)).foldl (World.step scriptKaspa testLib testEngine testHash testLms testClient)
        World.testWorld = s' := by
    rw [List.foldl_cons, List.foldl_cons, List.foldl_cons, List.foldl_nil, hs', ← hconfirm, ← hrun]
    rfl
  have hutxos : s'.utxos = coinsOf t (blockOf 32 9) 0 := hs' ▸ World.utxos_includedWorld hout
  have hfile : s'.file = ⟨[record].flatMap FileJournal.recordLine, []⟩ := by
    rw [hs']
    rfl
  have hrecord (q : UInt32) : s'.recordOf "journal" ⟨testVault.publicKey.id, q⟩ ≠ none ↔ q = 0 := by
    rw [ne_eq, World.recordOf_eq_none testVault hfile (by simpa using hsig) "journal", not_not]
    constructor
    · rintro ⟨r', hr', hleaf'⟩
      rw [List.mem_singleton.mp hr', hleaf] at hleaf'
      exact (congrArg LeafId.leaf hleaf').symm
    · rintro rfl
      exact ⟨record, by simp, hleaf⟩
  obtain ⟨A, hA⟩ := exists_addresses lawful_testLib testVault () scanWindow
  have hscanned : testVault.scanned scanWindow = 64 := rfl
  rw [hscanned] at hA
  have hnodup : ((List.range 64).map A).Nodup := by
    refine List.Nodup.map_on (fun i hi j hj hij => ?_) List.nodup_range
    have hi := List.mem_range.mp hi
    have hj := List.mem_range.mp hj
    have hsame := leafScript_inj encodeScript_injective collisionFree_testVault (hA i hi).2 (hij ▸ (hA j hj).2)
    have hsize : UInt32.size = 2 ^ 32 := rfl
    have hnat := congrArg UInt32.toNat hsame
    rwa [UInt32.toNat_ofNat_of_lt' (by omega), UInt32.toNat_ofNat_of_lt' (by omega)] at hnat
  have hcovers : ∀ leaf : UInt32, 0 ≤ leaf → leaf < saturatingAdd32 0 64 → leaf < testVault.leafCount →
      ∃ a ∈ (List.range 64).map A, testVault.address scriptKaspa testLib () leaf = .ok a := by
    intro leaf _ hlt _
    have hlt' : leaf.toNat < 64 := UInt32.lt_iff_toNat_lt.mp hlt
    refine ⟨A leaf.toNat, List.mem_map_of_mem (List.mem_range.mpr hlt'), ?_⟩
    have haddress := (hA _ hlt').1
    rwa [UInt32.ofNat_toNat] at haddress
  have hlast : World.EveryStep scriptKaspa testLib testEngine testHash testLms testClient
      (World.LastLeafUnspent scriptKaspa) World.testWorld
        [.deposit (LmsWallet.coinAt 0), .run TestSpend.first.request, .confirm t (blockOf 32 9) 0] :=
    ⟨trivial, fun c _ _ => List.not_mem_nil, trivial, trivial⟩
  obtain ⟨r, b, hscan, hrest⟩ := scanFromHint_finds lawful_testLib encodeScript_injective collisionFree_testVault
    honest_testKey serves_testClient (fun _ _ => ⟨_, rfl⟩) World.initial_testWorld
    (by simp [World.ForVault, TestSpend.request]) hlast hstate
    (by
      intro c hc
      rw [hutxos, World.coinsOf_eq hout] at hc
      rcases List.mem_pair.mp hc with rfl | rfl
      · exact (by decide : (0 : UInt64) < 500000000)
      · exact (by decide : (0 : UInt64) < 490000000))
    (by
      rw [hutxos, World.coinsOf_eq hout]
      exact (by decide : 500000000 + (490000000 + 0) < 2 ^ 64))
    (by decide : (2 : UInt32) ≤ 64) ((hrecord 0).mpr rfl) (fun q hq => by rw [(hrecord q).mp hq]; exact UInt32.le_rfl) []
    hnodup hcovers
  exact ⟨_, _, r, b, by rw [hutxos, World.coinsOf_eq hout]; rfl, hscan, hrest⟩

end KaspaPqv.VaultNode
