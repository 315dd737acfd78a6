import KaspaPqv.LmsScript.Pinned
import KaspaPqv.LmsWallet.Spend
import KaspaPqv.Script.Encoding

/-!
# Finding the coins of a vault

Which leaf of a vault is to be spent is told by where its coin is. `locateFunds` asks a node
for the coins at the addresses of the first leaves, and takes the one leaf that holds one.
The node and the addresses are the node library's (`Client`, `AddressLib`).

The scan always starts at leaf 0 and ends after `scanWindow` leaves. A vault moves on by a
leaf with each spend, so after that many spends its coin is where nobody looks.

## What is proved

* `leafScript_inj` — the leaves of a vault have scripts of their own.
* `locateFunds_ok`, `locateFunds_eq_ok` — what is found: the only leaf in the window with
  coins, which has one.
* `locateFunds_single` — of a vault with a single coin it is found if and only if its leaf is
  below the window.
-/

namespace KaspaPqv.LmsWallet

open KaspaPqv.Lib KaspaPqv.Script KaspaPqv.VaultCore KaspaPqv.LmsScript

/-! ### Addresses and the node -/

/-- What the wallet uses of the address library. -/
structure AddressLib (Prefix Address : Type) where
  extractScriptPubKeyAddress : ScriptPublicKey → Prefix → Except String Address
  payToAddressScript : Address → ScriptPublicKey
  /-- How an address is written. -/
  text : Address → String

/-- An entry of the node's answer. -/
structure RpcUtxosByAddressesEntry (Address : Type) where
  address : Option Address
  outpoint : Outpoint
  amount : UInt64
  blockDaaScore : UInt64

/-- A coin as the wallet keeps it. -/
structure VaultUtxoEntry where
  txid : Block 32
  index : UInt32
  amount : UInt64
  blockDaaScore : UInt64
  deriving DecidableEq

/-- What the wallet uses of a node. -/
structure Client (Address : Type) where
  getUtxosByAddresses : List Address → Except String (List (RpcUtxosByAddressesEntry Address))
  /-- The identifier of the transaction, if the node takes it. -/
  submitTransaction : MassTransaction → Except String String

/-- A coin of the chain that has not been spent. -/
structure Coin where
  outpoint : Outpoint
  amount : UInt64
  scriptPublicKey : ScriptPublicKey
  blockDaaScore : UInt64
  deriving DecidableEq

variable {Params Prefix Address : Type} (kaspa : Kaspa Params) (lib : AddressLib Prefix Address)

/-- The address of one leaf. -/
def Vault.address (vault : Vault) (addressPrefix : Prefix) (leaf : UInt32) : Except String Address := do
  let script ← vault.redeemScript kaspa leaf
  let spk := kaspa.payToScriptHashScript script
  (lib.extractScriptPubKeyAddress spk addressPrefix).mapError fun e => s!"address extraction failed: {e}"

/-- A map from written addresses to coins. -/
abbrev UtxoMap := String → Option (List VaultUtxoEntry)

/-- An entry as the wallet keeps it. -/
def RpcUtxosByAddressesEntry.toVaultUtxo (entry : RpcUtxosByAddressesEntry Address) : VaultUtxoEntry :=
  ⟨entry.outpoint.transactionId, entry.outpoint.index, entry.amount, entry.blockDaaScore⟩

/-- One turn of the loop over the answer; an entry without an address is skipped. -/
def noteEntry (out : UtxoMap) (entry : RpcUtxosByAddressesEntry Address) : UtxoMap :=
  match entry.address with
  | none => out
  | some address =>
    let key := lib.text address
    Function.update out key (some ((out key).getD [] ++ [entry.toVaultUtxo]))

/-- Every coin held by the addresses, under the written address. -/
def Client.utxosFor (client : Client Address) (addresses : List Address) : Except String UtxoMap :=
  if addresses.isEmpty then .ok fun _ => none
  else do
    let entries ← (client.getUtxosByAddresses addresses).mapError fun e => s!"get_utxos_by_addresses failed: {e}"
    pure (entries.foldl (noteEntry lib) fun _ => none)

/-- The leaves with coins, each address being at its leaf's position. -/
def fundedLeaves (utxos : UtxoMap) (addresses : List Address) : List (UInt32 × List VaultUtxoEntry) :=
  addresses.zipIdx.filterMap fun (address, leaf) =>
    match utxos (lib.text address) with
    | some entries => if entries.isEmpty then none else some (UInt32.ofNat leaf, entries)
    | none => none

/-- The one leaf with coins, if it has one coin. -/
def theOneFunded (window : UInt32) : List (UInt32 × List VaultUtxoEntry) → Except String (UInt32 × VaultUtxo)
  | [] => .error s!"no funded leaf found in the first {window} addresses"
  | [(leaf, [entry])] => .ok (leaf, ⟨entry.txid, entry.index, entry.amount, leaf⟩)
  | [(leaf, entries)] =>
    .error s!"leaf {leaf} holds {entries.length} UTXOs; a vault spend consumes exactly one input"
  | found =>
    let leaves := found.map Prod.fst
    .error (s!"{found.length} funded leaves ({leaves}). A vault spends one leaf at a time; resolve this " ++
      "before spending, because a payment that arrived at an already-advanced " ++
      "address may sit on a one-time key that has already signed.")

/-- Find the funded leaf and the coin sitting on it. -/
def locateFunds (client : Client Address) (vault : Vault) (addressPrefix : Prefix) (window : UInt32) :
    Except String (UInt32 × VaultUtxo) := do
  let addresses ← (List.range (min window vault.leafCount).toNat).mapM fun leaf =>
    vault.address kaspa lib addressPrefix (UInt32.ofNat leaf)
  let utxos ← client.utxosFor lib addresses
  theOneFunded window (fundedLeaves lib utxos addresses)

/-- The window a spend is made with. -/
def scanWindow : UInt32 := 64

/-! ### The scripts of the leaves -/

/-- The script public key of one leaf. -/
def Vault.leafScript (vault : Vault) (leaf : UInt32) : Except String ScriptPublicKey :=
  (vault.redeemScript kaspa leaf).map kaspa.payToScriptHashScript

/-- The coins at one leaf. -/
def Vault.coinsAt (vault : Vault) (coins : List Coin) (leaf : UInt32) : List Coin :=
  coins.filter fun c => vault.leafScript kaspa leaf = .ok c.scriptPublicKey

/-- No two redeem scripts of the vault have one hash. -/
def Vault.CollisionFree (vault : Vault) : Prop :=
  ∀ leaf leaf' script script', vault.redeemScript kaspa leaf = .ok script →
    vault.redeemScript kaspa leaf' = .ok script' →
    kaspa.payToScriptHashScript script = kaspa.payToScriptHashScript script' → script = script'

variable {kaspa} {vault : Vault} {leaf leaf' : UInt32}

theorem redeemScript_cases {script : Bytes} (h : vault.redeemScript kaspa leaf = .ok script) :
    leaf < vault.leafCount ∧ ∃ is, (emitVaultScript vaultParams vault.publicKey leaf.toNat canonicalOutputCount :
      Gen Unit Instr String Unit).code () = .ok is ∧ kaspa.build is = script := by
  rw [Vault.redeemScript, Vault.redeemScriptForShape, ensure_bind_eq_ok] at h
  obtain ⟨hleaf, h⟩ := h
  obtain ⟨is, hcode, hbuild⟩ := bind_eq_ok.mp h
  exact ⟨hleaf, is, hcode, Except.ok.inj hbuild⟩

/-- Every leaf in range has a script. -/
theorem leafScript_eq_ok (kaspa : Kaspa Params) {vault : Vault} {leaf : UInt32} (h : leaf < vault.leafCount) :
    ∃ spk, vault.leafScript kaspa leaf = .ok spk := by
  obtain ⟨script, hscript⟩ := vault.redeemScript_eq_ok kaspa h
  exact ⟨_, map_eq_ok.mpr ⟨script, hscript, rfl⟩⟩

/-- **The leaves of a vault have scripts of their own.** -/
theorem leafScript_inj (hbuild : Function.Injective kaspa.build) (hfree : vault.CollisionFree kaspa)
    {spk : ScriptPublicKey} (h : vault.leafScript kaspa leaf = .ok spk)
    (h' : vault.leafScript kaspa leaf' = .ok spk) : leaf = leaf' := by
  obtain ⟨script, hscript, rfl⟩ := map_eq_ok.mp h
  obtain ⟨script', hscript', hspk⟩ := map_eq_ok.mp h'
  obtain rfl := hfree leaf leaf' script script' hscript hscript' hspk.symm
  obtain ⟨-, is, hcode, hbytes⟩ := redeemScript_cases hscript
  obtain ⟨-, is', hcode', hbytes'⟩ := redeemScript_cases hscript'
  obtain rfl := hbuild (hbytes.trans hbytes'.symm)
  exact UInt32.toNat_inj.mp (emitVaultScript_inj (by decide) hcode hcode').2.1

/-! ### What is found -/

/-- The coin as the node answers with it. -/
def Coin.toEntry (addressPrefix : Prefix) (c : Coin) : RpcUtxosByAddressesEntry Address where
  address := (lib.extractScriptPubKeyAddress c.scriptPublicKey addressPrefix).toOption
  outpoint := c.outpoint
  amount := c.amount
  blockDaaScore := c.blockDaaScore

/-- The coin as the wallet spends it. -/
def Coin.toVaultUtxo (c : Coin) (leaf : UInt32) : VaultUtxo :=
  ⟨c.outpoint.transactionId, c.outpoint.index, c.amount, leaf⟩

/-- The node, when it answers, answers with the coins of the addresses it is asked for. -/
def Client.Serves (client : Client Address) (addressPrefix : Prefix) (coins : List Coin) : Prop :=
  ∀ addresses entries, addresses.Nodup → client.getUtxosByAddresses addresses = .ok entries →
    entries.Perm ((coins.filter fun c => c.scriptPublicKey ∈ addresses.map lib.payToAddressScript).map
      (Coin.toEntry lib addressPrefix))

/-- What is relied on of addresses: a script hash has one, which pays to the script it was made
from, and which is not written like another. -/
structure AddressLib.Lawful (kaspa : Kaspa Params) (lib : AddressLib Prefix Address) : Prop where
  extract_scriptHash : ∀ script addressPrefix,
    ∃ a, lib.extractScriptPubKeyAddress (kaspa.payToScriptHashScript script) addressPrefix = .ok a
  pay_of_extract : ∀ spk addressPrefix a, lib.extractScriptPubKeyAddress spk addressPrefix = .ok a →
    lib.payToAddressScript a = spk
  text_inj : Function.Injective lib.text

/-- What was noted under a written address. -/
def heldUnder (entries : List (RpcUtxosByAddressesEntry Address)) (key : String) : List VaultUtxoEntry :=
  (entries.filter fun e => e.address.map lib.text = some key).map RpcUtxosByAddressesEntry.toVaultUtxo

theorem foldl_noteEntry (entries : List (RpcUtxosByAddressesEntry Address)) (key : String) :
    entries.foldl (noteEntry lib) (fun _ => none) key =
      if heldUnder lib entries key = [] then none else some (heldUnder lib entries key) := by
  induction entries using List.reverseRecOn with
  | nil => rfl
  | append_singleton entries e ih =>
    rw [List.foldl_append, List.foldl_cons, List.foldl_nil, noteEntry]
    rcases haddress : e.address with _ | a
    · have hskip : heldUnder lib (entries ++ [e]) key = heldUnder lib entries key := by
        simp [heldUnder, haddress]
      rw [hskip]
      exact ih
    · by_cases hkey : lib.text a = key
      · have hmore : heldUnder lib (entries ++ [e]) key = heldUnder lib entries key ++ [e.toVaultUtxo] := by
          simp [heldUnder, haddress, hkey]
        simp only [hkey, Function.update_self, ih, hmore]
        by_cases hnil : heldUnder lib entries key = [] <;> simp [hnil]
      · have hskip : heldUnder lib (entries ++ [e]) key = heldUnder lib entries key := by
          simp [heldUnder, haddress, hkey]
        rw [hskip, ← ih]
        exact Function.update_of_ne (Ne.symm hkey) _ _

variable {lib}

theorem address_eq_ok {addressPrefix : Prefix} {a : Address} :
    vault.address kaspa lib addressPrefix leaf = .ok a ↔
      ∃ spk, vault.leafScript kaspa leaf = .ok spk ∧ lib.extractScriptPubKeyAddress spk addressPrefix = .ok a := by
  simp only [Vault.address, Vault.leafScript, bind_eq_ok, mapError_eq_ok, map_eq_ok]
  constructor
  · rintro ⟨script, hscript, ha⟩
    exact ⟨_, ⟨script, hscript, rfl⟩, ha⟩
  · rintro ⟨_, ⟨script, hscript, rfl⟩, ha⟩
    exact ⟨script, hscript, ha⟩

/-- What the wallet keeps of a coin. -/
def Coin.toVaultUtxoEntry (c : Coin) : VaultUtxoEntry :=
  ⟨c.outpoint.transactionId, c.outpoint.index, c.amount, c.blockDaaScore⟩

/-- The leaves that are scanned. -/
def Vault.scanned (vault : Vault) (window : UInt32) : ℕ := (min window vault.leafCount).toNat

theorem scanned_eq (vault : Vault) (window : UInt32) :
    vault.scanned window = min window.toNat vault.leafCount.toNat := by
  change (if window ≤ vault.leafCount then window else vault.leafCount).toNat = _
  split_ifs with h
  · rw [Nat.min_eq_left (UInt32.le_iff_toNat_le.mp h)]
  · rw [Nat.min_eq_right (Nat.le_of_not_le fun hle => h (UInt32.le_iff_toNat_le.mpr hle))]

theorem scanned_le (vault : Vault) (window : UInt32) : vault.scanned window ≤ vault.leafCount.toNat := by
  rw [scanned_eq]
  exact Nat.min_le_right _ _

theorem ofNat_lt_leafCount {window : UInt32} {l : ℕ} (h : l < vault.scanned window) :
    UInt32.ofNat l < vault.leafCount ∧ (UInt32.ofNat l).toNat = l := by
  have hl : l < vault.leafCount.toNat := h.trans_le (scanned_le vault window)
  have hsize : l < 2 ^ 32 := hl.trans vault.leafCount.toNat_lt
  have htoNat := UInt32.toNat_ofNat_of_lt' hsize
  refine ⟨UInt32.lt_iff_toNat_lt.mpr ?_, htoNat⟩
  rw [htoNat]
  exact hl

section

variable (hlib : lib.Lawful kaspa) {client : Client Address} {addressPrefix : Prefix} {coins : List Coin} {window : UInt32}

include hlib in
/-- The addresses that are scanned. -/
theorem exists_addresses (vault : Vault) (addressPrefix : Prefix) (window : UInt32) :
    ∃ A : ℕ → Address, ∀ l < vault.scanned window,
      vault.address kaspa lib addressPrefix (UInt32.ofNat l) = .ok (A l) ∧
        vault.leafScript kaspa (UInt32.ofNat l) = .ok (lib.payToAddressScript (A l)) := by
  obtain ⟨a, -⟩ := hlib.extract_scriptHash [] addressPrefix
  have hleaf : ∀ l, ∃ b, l < vault.scanned window →
      vault.address kaspa lib addressPrefix (UInt32.ofNat l) = .ok b ∧
        vault.leafScript kaspa (UInt32.ofNat l) = .ok (lib.payToAddressScript b) := by
    intro l
    by_cases hl : l < vault.scanned window
    · obtain ⟨script, hscript⟩ := vault.redeemScript_eq_ok kaspa (ofNat_lt_leafCount hl).1
      have hspk : vault.leafScript kaspa (UInt32.ofNat l) = .ok (kaspa.payToScriptHashScript script) :=
        map_eq_ok.mpr ⟨script, hscript, rfl⟩
      obtain ⟨b, hb⟩ := hlib.extract_scriptHash script addressPrefix
      refine ⟨b, fun _ => ⟨address_eq_ok.mpr ⟨_, hspk, hb⟩, ?_⟩⟩
      rw [hspk, hlib.pay_of_extract _ _ _ hb]
    · exact ⟨a, fun h => absurd h hl⟩
  choose A hA using hleaf
  exact ⟨A, hA⟩

include hlib in
/-- Under the written address of a leaf is noted what the leaf holds. -/
theorem heldUnder_perm {A : ℕ → Address} {n : ℕ}
    (hA : ∀ l < n, vault.address kaspa lib addressPrefix (UInt32.ofNat l) = .ok (A l) ∧
      vault.leafScript kaspa (UInt32.ofNat l) = .ok (lib.payToAddressScript (A l)))
    {entries : List (RpcUtxosByAddressesEntry Address)}
    (hentries : entries.Perm ((coins.filter fun c =>
      c.scriptPublicKey ∈ ((List.range n).map A).map lib.payToAddressScript).map (Coin.toEntry lib addressPrefix)))
    {l : ℕ} (hl : l < n) :
    (heldUnder lib entries (lib.text (A l))).Perm
      ((vault.coinsAt kaspa coins (UInt32.ofNat l)).map Coin.toVaultUtxoEntry) := by
  refine ((hentries.filter _).map _).trans (List.Perm.of_eq ?_)
  rw [List.filter_map, List.map_map, List.filter_filter, Vault.coinsAt]
  refine congrArg (List.map _) (List.filter_congr fun c _ => ?_)
  rw [Bool.eq_iff_iff]
  simp only [Function.comp_apply, Bool.and_eq_true, decide_eq_true_eq, List.mem_map, List.mem_range]
  constructor
  · rintro ⟨hkey, a, ⟨j, hj, rfl⟩, hspk⟩
    -- the script is that of leaf `j`, and its address is written like that of leaf `l`
    obtain ⟨spk, hleaf, hextract⟩ := address_eq_ok.mp (hA j hj).1
    obtain rfl : spk = c.scriptPublicKey := by
      rw [← hspk, ← Except.ok.inj ((hA j hj).2.symm.trans hleaf)]
    simp only [Coin.toEntry, hextract, Except.toOption, Option.map_some, Option.some.injEq] at hkey
    rw [(hA l hl).2, ← hspk, hlib.text_inj hkey]
  · intro hspk
    obtain ⟨spk, hleaf, hextract⟩ := address_eq_ok.mp (hA l hl).1
    obtain rfl := Except.ok.inj (hspk.symm.trans hleaf)
    refine ⟨by simp [Coin.toEntry, hextract, Except.toOption], A l, ⟨l, hl, rfl⟩, ?_⟩
    exact Except.ok.inj ((hA l hl).2.symm.trans hspk)

/-- The leaves with coins, from what is noted under the address of each. -/
theorem fundedLeaves_map_range (utxos : UtxoMap) (A : ℕ → Address) (n : ℕ) :
    fundedLeaves lib utxos ((List.range n).map A) = (List.range n).filterMap fun l =>
      match utxos (lib.text (A l)) with
      | some entries => if entries.isEmpty then none else some (UInt32.ofNat l, entries)
      | none => none := by
  rw [fundedLeaves, zipIdx_map_range, List.filterMap_map]
  rfl

/-- **What is found** is the only scanned leaf with coins, and it has one. -/
theorem match_fundedLeaves {utxos : UtxoMap} {held : ℕ → List VaultUtxoEntry} {A : ℕ → Address} {n : ℕ}
    (hutxos : ∀ l < n, utxos (lib.text (A l)) = if held l = [] then none else some (held l)) {entry : VaultUtxoEntry} :
    fundedLeaves lib utxos ((List.range n).map A) = [(leaf, [entry])] ↔
      ∃ l < n, leaf = UInt32.ofNat l ∧ held l = [entry] ∧ ∀ j < n, j ≠ l → held j = [] := by
  rw [fundedLeaves_map_range, filterMap_eq_singleton List.nodup_range]
  simp only [List.mem_range]
  refine exists_congr fun l => and_congr_right fun hl => ?_
  have hfound : ∀ j < n, (match utxos (lib.text (A j)) with
      | some entries => if entries.isEmpty then none else some (UInt32.ofNat j, entries)
      | none => none) = if held j = [] then none else some (UInt32.ofNat j, held j) := by
    intro j hj
    rw [hutxos j hj]
    by_cases hheld : held j = [] <;> simp [hheld]
  rw [hfound l hl]
  constructor
  · rintro ⟨hsome, hothers⟩
    by_cases hheld : held l = []
    · simp [hheld] at hsome
    · rw [if_neg hheld] at hsome
      obtain ⟨hleaf, hentry⟩ := Prod.mk.inj (Option.some.inj hsome)
      refine ⟨hleaf.symm, hentry, fun j hj hne => ?_⟩
      have hnone := hothers j hj hne
      rw [hfound j hj] at hnone
      by_contra hj'
      simp [hj'] at hnone
  · rintro ⟨rfl, hheld, hothers⟩
    refine ⟨by simp [hheld], fun j hj hne => ?_⟩
    rw [hfound j hj, if_pos (hothers j hj hne)]

/-- What a node's answer is made into. -/
theorem utxosFor_eq_ok {addresses : List Address} {utxos : UtxoMap}
    (hserves : client.Serves lib addressPrefix coins) (hnodup : addresses.Nodup)
    (h : client.utxosFor lib addresses = .ok utxos) :
    ∃ entries : List (RpcUtxosByAddressesEntry Address),
      entries.Perm ((coins.filter fun c => c.scriptPublicKey ∈ addresses.map lib.payToAddressScript).map
        (Coin.toEntry lib addressPrefix)) ∧
      ∀ key, utxos key = if heldUnder lib entries key = [] then none else some (heldUnder lib entries key) := by
  unfold Client.utxosFor at h
  by_cases hempty : addresses = []
  · subst hempty
    cases h
    exact ⟨[], by simp, fun _ => rfl⟩
  · rw [if_neg (by simpa using hempty)] at h
    obtain ⟨entries, hentries, hfold⟩ := bind_eq_ok.mp h
    cases hfold
    exact ⟨entries, hserves _ _ hnodup (mapError_eq_ok.mp hentries), fun key => foldl_noteEntry lib entries key⟩

end

variable (kaspa) in
/-- Of the leaves in the window, this one holds one coin, and the others hold none. -/
structure Vault.OnlyFunded (vault : Vault) (coins : List Coin) (window leaf : UInt32) (c : Coin) : Prop where
  lt_window : leaf < window
  lt_leafCount : leaf < vault.leafCount
  coin : vault.coinsAt kaspa coins leaf = [c]
  others : ∀ l, l < window → l < vault.leafCount → l ≠ leaf → vault.coinsAt kaspa coins l = []

theorem theOneFunded_eq_ok {window : UInt32} {found : List (UInt32 × List VaultUtxoEntry)} {utxo : VaultUtxo} :
    theOneFunded window found = .ok (leaf, utxo) ↔
      ∃ entry : VaultUtxoEntry, found = [(leaf, [entry])] ∧ utxo = ⟨entry.txid, entry.index, entry.amount, leaf⟩ := by
  constructor
  · intro h
    unfold theOneFunded at h
    split at h
    · cases h
    · rename_i leaf' entry
      obtain ⟨rfl, rfl⟩ := Prod.mk.inj (Except.ok.inj h)
      exact ⟨entry, rfl, rfl⟩
    · cases h
    · cases h
  · rintro ⟨entry, rfl, rfl⟩
    rfl

section

variable (hlib : lib.Lawful kaspa) (hbuild : Function.Injective kaspa.build) (hfree : vault.CollisionFree kaspa)
  {client : Client Address} {addressPrefix : Prefix} {coins : List Coin} {window : UInt32}
  (hserves : client.Serves lib addressPrefix coins)

include hlib hbuild hfree hserves in
/-- The search, once the node has answered. -/
theorem locateFunds_answered {A : ℕ → Address}
    (hA : ∀ l < vault.scanned window, vault.address kaspa lib addressPrefix (UInt32.ofNat l) = .ok (A l) ∧
      vault.leafScript kaspa (UInt32.ofNat l) = .ok (lib.payToAddressScript (A l))) {utxos : UtxoMap}
    (hutxos : client.utxosFor lib ((List.range (vault.scanned window)).map A) = .ok utxos) {utxo : VaultUtxo} :
    locateFunds kaspa lib client vault addressPrefix window = .ok (leaf, utxo) ↔
      ∃ c, vault.OnlyFunded kaspa coins window leaf c ∧ utxo = c.toVaultUtxo leaf := by
  have hnodup : ((List.range (vault.scanned window)).map A).Nodup := by
    refine List.Nodup.map_on (fun i hi j hj hij => ?_) List.nodup_range
    have hi := List.mem_range.mp hi
    have hj := List.mem_range.mp hj
    have hsame := leafScript_inj hbuild hfree (hA i hi).2 (hij ▸ (hA j hj).2)
    rw [← (ofNat_lt_leafCount hi).2, hsame, (ofNat_lt_leafCount hj).2]
  obtain ⟨entries, hperm, hkey⟩ := utxosFor_eq_ok hserves hnodup hutxos
  have hheld : ∀ l < vault.scanned window, (heldUnder lib entries (lib.text (A l))).Perm
      ((vault.coinsAt kaspa coins (UInt32.ofNat l)).map Coin.toVaultUtxoEntry) := fun l hl =>
    heldUnder_perm hlib hA hperm hl
  have hmapM := mapM_eq_ok (l := List.range (vault.scanned window)) fun l hl => (hA l (List.mem_range.mp hl)).1
  have hlocate : locateFunds kaspa lib client vault addressPrefix window =
      theOneFunded window (fundedLeaves lib utxos ((List.range (vault.scanned window)).map A)) := by
    unfold locateFunds
    rw [show (min window vault.leafCount).toNat = vault.scanned window from rfl, hmapM]
    simp only [bind, Except.bind, hutxos]
  rw [hlocate, theOneFunded_eq_ok]
  constructor
  · rintro ⟨entry, hfunded, rfl⟩
    obtain ⟨l, hl, rfl, hentry, hothers⟩ := (match_fundedLeaves fun l _ => hkey (lib.text (A l))).mp hfunded
    have hcoin := hheld l hl
    rw [hentry, List.singleton_perm] at hcoin
    obtain ⟨c, hc, rfl⟩ := List.map_eq_singleton_iff.mp hcoin.symm
    obtain ⟨hcount, htoNat⟩ := ofNat_lt_leafCount hl
    refine ⟨c, ⟨?_, hcount, hc, fun j hj hj' hne => ?_⟩, rfl⟩
    · rw [UInt32.lt_iff_toNat_lt, htoNat]
      exact hl.trans_le (by rw [scanned_eq]; exact Nat.min_le_left _ _)
    · have hjn : j.toNat < vault.scanned window := by
        rw [scanned_eq]
        exact lt_min (UInt32.lt_iff_toNat_lt.mp hj) (UInt32.lt_iff_toNat_lt.mp hj')
      have hnone := hheld j.toNat hjn
      rw [hothers _ hjn fun h => hne (by rw [← h, UInt32.ofNat_toNat]), List.nil_perm, List.map_eq_nil_iff,
        UInt32.ofNat_toNat] at hnone
      exact hnone
  · rintro ⟨c, hc, rfl⟩
    have hl : leaf.toNat < vault.scanned window := by
      rw [scanned_eq]
      exact lt_min (UInt32.lt_iff_toNat_lt.mp hc.lt_window) (UInt32.lt_iff_toNat_lt.mp hc.lt_leafCount)
    refine ⟨c.toVaultUtxoEntry, (match_fundedLeaves fun l _ => hkey (lib.text (A l))).mpr
      ⟨leaf.toNat, hl, UInt32.ofNat_toNat.symm, ?_, fun j hj hne => ?_⟩, rfl⟩
    · have hcoin := hheld _ hl
      rw [UInt32.ofNat_toNat, hc.coin] at hcoin
      exact List.perm_singleton.mp hcoin
    · obtain ⟨hcount, htoNat⟩ := ofNat_lt_leafCount hj
      have hnone := hheld j hj
      rw [hc.others _ ?_ hcount ?_] at hnone
      · exact List.perm_nil.mp hnone
      · rw [UInt32.lt_iff_toNat_lt, htoNat]
        exact hj.trans_le (by rw [scanned_eq]; exact Nat.min_le_left _ _)
      · rintro rfl
        exact hne htoNat.symm

include hlib hbuild hfree hserves in
/-- **What a search that succeeds has found.** -/
theorem locateFunds_ok {utxo : VaultUtxo}
    (h : locateFunds kaspa lib client vault addressPrefix window = .ok (leaf, utxo)) :
    ∃ c, vault.OnlyFunded kaspa coins window leaf c ∧ utxo = c.toVaultUtxo leaf := by
  obtain ⟨A, hA⟩ := exists_addresses hlib vault addressPrefix window
  have hmapM := mapM_eq_ok (l := List.range (vault.scanned window)) fun l hl => (hA l (List.mem_range.mp hl)).1
  obtain ⟨addresses, haddresses, hrest⟩ := bind_eq_ok.mp h
  obtain rfl := Except.ok.inj (hmapM.symm.trans haddresses)
  obtain ⟨utxos, hutxos, -⟩ := bind_eq_ok.mp hrest
  exact (locateFunds_answered hlib hbuild hfree hserves hA hutxos).mp h

include hlib hbuild hfree hserves in
/-- **What is found** of a node that answers. -/
theorem locateFunds_eq_ok (hanswers : ∀ addresses, ∃ entries, client.getUtxosByAddresses addresses = .ok entries)
    {utxo : VaultUtxo} : locateFunds kaspa lib client vault addressPrefix window = .ok (leaf, utxo) ↔
      ∃ c, vault.OnlyFunded kaspa coins window leaf c ∧ utxo = c.toVaultUtxo leaf := by
  obtain ⟨A, hA⟩ := exists_addresses hlib vault addressPrefix window
  have hutxos : ∃ utxos, client.utxosFor lib ((List.range (vault.scanned window)).map A) = .ok utxos := by
    unfold Client.utxosFor
    split_ifs
    · exact ⟨_, rfl⟩
    · obtain ⟨entries, hentries⟩ := hanswers ((List.range (vault.scanned window)).map A)
      exact ⟨_, by rw [hentries]; rfl⟩
  obtain ⟨utxos, hutxos⟩ := hutxos
  exact locateFunds_answered hlib hbuild hfree hserves hA hutxos

end

variable (kaspa) in
/-- The vault has a single coin, and this leaf holds it. -/
structure Vault.SingleUtxo (vault : Vault) (coins : List Coin) (leaf : UInt32) (c : Coin) : Prop where
  lt_leafCount : leaf < vault.leafCount
  coin : vault.coinsAt kaspa coins leaf = [c]
  others : ∀ l, l < vault.leafCount → l ≠ leaf → vault.coinsAt kaspa coins l = []

/-- A single coin below the window is the only one of the leaves that are scanned. -/
theorem Vault.SingleUtxo.onlyFunded {coins : List Coin} {c : Coin} (hc : vault.SingleUtxo kaspa coins leaf c)
    {window : UInt32} (h : leaf < window) : vault.OnlyFunded kaspa coins window leaf c :=
  ⟨h, hc.lt_leafCount, hc.coin, fun l _ => hc.others l⟩

/-- **A single coin is found if and only if its leaf is below the window.** -/
theorem locateFunds_single (hlib : lib.Lawful kaspa) (hbuild : Function.Injective kaspa.build)
    (hfree : vault.CollisionFree kaspa) {client : Client Address} {addressPrefix : Prefix} {coins : List Coin}
    (hserves : client.Serves lib addressPrefix coins)
    (hanswers : ∀ addresses, ∃ entries, client.getUtxosByAddresses addresses = .ok entries) {c : Coin}
    (hc : vault.SingleUtxo kaspa coins leaf c) :
    locateFunds kaspa lib client vault addressPrefix scanWindow = .ok (leaf, c.toVaultUtxo leaf) ↔
      leaf < scanWindow := by
  rw [locateFunds_eq_ok hlib hbuild hfree hserves hanswers]
  constructor
  · rintro ⟨c', hfound, -⟩
    exact hfound.lt_window
  · exact fun h => ⟨c, hc.onlyFunded h, rfl⟩

/-! ### A test network -/

/-- Addresses that are the scripts themselves. -/
def testLib : AddressLib Unit Bytes where
  extractScriptPubKeyAddress spk _ := if spk.version = 0 then .ok spk.script else .error "nonstandard"
  payToAddressScript a := ⟨0, a⟩
  text a := String.ofList (toHex a)

/-- The code up to the first push behind the digest. -/
def digestCode : List Instr := bindingCode canonicalOutputCount ++ [.op .OpSHA256, .op .OpSwap]

/-- Where the string of that push begins. -/
def headOffset : ℕ := (encodeScript digestCode).length + 1

/-- The test library, with scripts that are told apart: the hash of a redeem script is what it pushes first. -/
def scriptKaspa : Kaspa Unit :=
  { testKaspa with
    payToScriptHashScript := fun script => ⟨0, scriptHashScript ((script.drop headOffset).take 22 ++ zeros 10)⟩ }

/-- Where script hashes are of the first version. -/
theorem lawful_of_version {Params : Type} {kaspa : Kaspa Params}
    (hversion : ∀ script, (kaspa.payToScriptHashScript script).version = 0) : testLib.Lawful kaspa where
  extract_scriptHash script _ := ⟨_, if_pos (hversion script)⟩
  pay_of_extract := by
    rintro ⟨version, script⟩ _ a h
    simp only [testLib] at h
    split_ifs at h with hversion
    obtain rfl := Except.ok.inj h
    obtain rfl : version = 0 := hversion
    rfl
  text_inj a a' h := by
    have hhex := hexPairs_toHex a
    rw [String.ofList_injective h, hexPairs_toHex] at hhex
    exact (Option.some.inj hhex).symm

theorem lawful_testLib : testLib.Lawful scriptKaspa := lawful_of_version fun _ => rfl

theorem lawful_scriptHashKaspa : testLib.Lawful scriptHashKaspa := lawful_of_version fun _ => rfl

/-- A node of a chain with these coins. -/
def testClient (coins : List Coin) : Client Bytes where
  getUtxosByAddresses addresses :=
    .ok ((coins.filter fun c => c.scriptPublicKey ∈ addresses.map testLib.payToAddressScript).map (Coin.toEntry testLib ()))
  submitTransaction _ := .ok "accepted"

theorem serves_testClient (coins : List Coin) : (testClient coins).Serves testLib () coins := by
  rintro addresses entries - ⟨⟩
  exact List.Perm.refl _

def testVault : Vault := ⟨⟨blockOf 16 1, Block.zero 32⟩⟩

/-- The script of a leaf on the test network. -/
def leafOutputScript (vault : Vault) (leaf : UInt32) : Bytes :=
  scriptHashScript (hashPrefix vault.publicKey.id leaf.toNat D_MESG ++ zeros 10)

theorem length_hashPrefix (id : Block 16) (q d : ℕ) : (hashPrefix id q d).length = 22 := by
  simp [hashPrefix]

theorem leafOutputScript_inj {vault vault' : Vault} {leaf leaf' : UInt32}
    (h : leafOutputScript vault leaf = leafOutputScript vault' leaf') :
    vault.publicKey.id = vault'.publicKey.id ∧ leaf = leaf' := by
  simp only [leafOutputScript, scriptHashScript, List.append_assoc] at h
  have hhead := (List.append_inj (List.append_cancel_left h) (by simp only [length_hashPrefix])).1
  obtain ⟨hid, hleaf⟩ := hashPrefix_inj leaf.toNat_lt leaf'.toNat_lt hhead
  exact ⟨hid, UInt32.toNat_inj.mp hleaf⟩

theorem payToScriptHashScript_scriptKaspa {vault : Vault} {leaf : UInt32} {script : Bytes}
    (h : vault.redeemScript scriptKaspa leaf = .ok script) :
    scriptKaspa.payToScriptHashScript script = ⟨0, leafOutputScript vault leaf⟩ := by
  obtain ⟨-, is, hcode, rfl⟩ := redeemScript_cases h
  obtain ⟨verify, g, hverify, rfl⟩ := emitVaultScript_split hcode
  obtain ⟨-, middle, rfl⟩ := emitVerify_code hverify
  have hhead := length_hashPrefix vault.publicKey.id leaf.toNat D_MESG
  have hpush : encodeInstr (.push (hashPrefix vault.publicKey.id leaf.toNat D_MESG)) =
      22 :: hashPrefix vault.publicKey.id leaf.toNat D_MESG := by
    rw [encodeInstr, shortestPush_of_le (by rw [hhead]; norm_num), hhead]
    rfl
  have hsplit : scriptKaspa.build (bindingCode canonicalOutputCount ++ .op .OpSHA256 :: .op .OpSwap ::
      .push (hashPrefix vault.publicKey.id leaf.toNat D_MESG) ::
        (middle ++ [.push vault.publicKey.root.bytes, .op .OpEqual])) =
      (encodeScript digestCode ++ [22]) ++ (hashPrefix vault.publicKey.id leaf.toNat D_MESG ++
        encodeScript (middle ++ [.push vault.publicKey.root.bytes, .op .OpEqual])) := by
    simp [scriptKaspa, testKaspa, scriptHashKaspa, encodeScript, digestCode, hpush]
  have hoffset : headOffset = (encodeScript digestCode ++ [22]).length := by
    rw [headOffset, List.length_append, List.length_singleton]
  rw [hsplit]
  simp only [scriptKaspa, hoffset, List.drop_left, List.take_left' hhead]
  rfl

/-- The script public key of a leaf on the test network. -/
theorem leafScript_scriptKaspa {vault : Vault} {leaf : UInt32} (h : leaf < vault.leafCount) :
    vault.leafScript scriptKaspa leaf = .ok ⟨0, leafOutputScript vault leaf⟩ := by
  obtain ⟨script, hscript⟩ := vault.redeemScript_eq_ok scriptKaspa h
  exact map_eq_ok.mpr ⟨script, hscript, payToScriptHashScript_scriptKaspa hscript⟩

theorem address_scriptKaspa {vault : Vault} {leaf : UInt32} (h : leaf < vault.leafCount) :
    vault.address scriptKaspa testLib () leaf = .ok (leafOutputScript vault leaf) :=
  address_eq_ok.mpr ⟨_, leafScript_scriptKaspa h, rfl⟩

theorem eq_leafOutputScript {vault : Vault} {leaf : UInt32} {a : Bytes}
    (h : vault.address scriptKaspa testLib () leaf = .ok a) : a = leafOutputScript vault leaf := by
  obtain ⟨spk, hspk, hextract⟩ := address_eq_ok.mp h
  obtain ⟨script, hscript, rfl⟩ := map_eq_ok.mp hspk
  rw [payToScriptHashScript_scriptKaspa hscript] at hextract
  exact (Except.ok.inj hextract).symm

theorem collisionFree_testVault : testVault.CollisionFree scriptKaspa := by
  intro leaf leaf' script script' h h' hspk
  rw [payToScriptHashScript_scriptKaspa h, payToScriptHashScript_scriptKaspa h', ScriptPublicKey.mk.injEq] at hspk
  obtain rfl := (leafOutputScript_inj hspk.2).2
  exact Except.ok.inj (h.symm.trans h')

/-- A coin at a leaf. -/
def coinAt (leaf : UInt32) : Coin where
  outpoint := ⟨blockOf 32 7, leaf⟩
  amount := 1000000000
  scriptPublicKey := ((testVault.leafScript scriptKaspa leaf).toOption.getD ⟨0, []⟩)
  blockDaaScore := 0

theorem singleUtxo_coinAt {leaf : UInt32} (h : leaf < testVault.leafCount) :
    testVault.SingleUtxo scriptKaspa [coinAt leaf] leaf (coinAt leaf) := by
  obtain ⟨spk, hspk⟩ := leafScript_eq_ok scriptKaspa h
  have hcoin : (coinAt leaf).scriptPublicKey = spk := by
    simp [coinAt, hspk, Except.toOption]
  refine ⟨h, by simp [Vault.coinsAt, hcoin, hspk], fun l hl hne => ?_⟩
  refine List.filter_eq_nil_iff.mpr fun c hc hl' => ?_
  rw [List.mem_singleton.mp hc, hcoin, decide_eq_true_eq] at hl'
  exact hne (leafScript_inj encodeScript_injective collisionFree_testVault hl' hspk)

/-- The coin at leaf 3 is found. -/
theorem locateFunds_single_three :
    locateFunds scriptKaspa testLib (testClient [coinAt 3]) testVault () scanWindow =
      .ok (3, (coinAt 3).toVaultUtxo 3) :=
  (locateFunds_single lawful_testLib encodeScript_injective collisionFree_testVault (serves_testClient _)
    (fun _ => ⟨_, rfl⟩) (singleUtxo_coinAt (by decide))).mpr (by decide)

/-- **Not at every leaf**: the coin at leaf 64 is not found. -/
theorem not_locateFunds_single : ¬∀ (leaf : UInt32) (coins : List Coin) (c : Coin),
    testVault.SingleUtxo scriptKaspa coins leaf c →
      locateFunds scriptKaspa testLib (testClient coins) testVault () scanWindow = .ok (leaf, c.toVaultUtxo leaf) := by
  intro h
  have hfound := h 64 [coinAt 64] (coinAt 64) (singleUtxo_coinAt (by decide))
  obtain ⟨c, hc, -⟩ := locateFunds_ok lawful_testLib encodeScript_injective collisionFree_testVault
    (serves_testClient _) hfound
  exact absurd hc.lt_window (by decide)

end KaspaPqv.LmsWallet
