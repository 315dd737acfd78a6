import KaspaPqv.Lib.GapWalk
import KaspaPqv.LmsWallet.Funds

/-!
# Scanning for the vaults of a seed

Which leaves of a vault hold funds is told by the balances of their addresses. The vaults of
a seed are walked through by their key indices, until a number of them in a row came back
empty.

Of every vault only a window of leaves is looked at, from leaf 0 on. A vault whose funds have
moved past the window comes back empty, and may end the walk before vaults that do not.

## What is proved

* `scanRange_eq_ok` — what a scan finds.
* `discoverVaults_exact` — the walk ends, and finds exactly the vaults with funds within the
  window, in order, if among these there is no gap, but one before the key index has wrapped and
  come to the first of them again.
* `discoverVaults_eq_none` — otherwise it does not end.
* `not_discoverVaults_exact` — it finds not those with funds at any leaf, nor does it always end.
-/

namespace KaspaPqv.LmsWallet

open KaspaPqv.Lib KaspaPqv.Script KaspaPqv.VaultCore KaspaPqv.LmsScript

/-! ### The scan -/

/-- Where balances come from. -/
structure UtxoSource (Address : Type) where
  /-- What is held at an address, in sompi. -/
  balance : Address → Except String UInt64

/-- One leaf and what it holds. -/
structure LeafBalance (Address : Type) where
  leaf : UInt32
  address : Address
  amount : UInt64

/-- What a scan found: the leaves with funds, in order. -/
structure ScanResult (Address : Type) where
  funded : List (LeafBalance Address)

/-- A vault that was found. -/
structure DiscoveredVault (Address : Type) where
  keyIndex : UInt32
  scan : ScanResult Address

variable {Params Prefix Address : Type} (kaspa : Kaspa Params) (lib : AddressLib Prefix Address)

/-- One turn of the loop over the leaves. -/
def scanLeaf (source : UtxoSource Address) (vault : Vault) (addressPrefix : Prefix)
    (funded : List (LeafBalance Address)) (leaf : UInt32) : Except String (List (LeafBalance Address)) := do
  let address ← vault.address kaspa lib addressPrefix leaf
  let amount ← source.balance address
  pure (if amount > 0 then funded ++ [⟨leaf, address, amount⟩] else funded)

/-- The leaves from one to another, which is left out. -/
def leafRange (first last : UInt32) : List UInt32 :=
  (List.range' first.toNat (last.toNat - first.toNat)).map UInt32.ofNat

/-- Scan a bounded range of leaves. -/
def scanRange (source : UtxoSource Address) (vault : Vault) (addressPrefix : Prefix) (first last : UInt32) :
    Except String (ScanResult Address) := do
  let funded ← (leafRange first (min last vault.leafCount)).foldlM (scanLeaf kaspa lib source vault addressPrefix) []
  pure ⟨funded⟩

/-! ### The walk -/

/-- The variables of the walk. -/
structure Discovery (Address : Type) where
  found : List (DiscoveredVault Address)
  consecutiveEmpty : UInt32
  keyIndex : UInt32

/-- One turn of the walk. -/
def discoverVault (source : UtxoSource Address) (addressPrefix : Prefix) (leafWindow : UInt32)
    (derive : UInt32 → Except String Vault) (s : Discovery Address) : Except String (Discovery Address) := do
  let vault ← derive s.keyIndex
  let scan ← scanRange kaspa lib source vault addressPrefix 0 leafWindow
  pure (if scan.funded.isEmpty then ⟨s.found, s.consecutiveEmpty + 1, s.keyIndex + 1⟩
    else ⟨s.found ++ [⟨s.keyIndex, scan⟩], 0, s.keyIndex + 1⟩)

/-- The walk, for a number of turns at most. -/
def discoverLoop (source : UtxoSource Address) (addressPrefix : Prefix) (gapLimit leafWindow : UInt32)
    (derive : UInt32 → Except String Vault) :
    ℕ → Discovery Address → Option (Except String (List (DiscoveredVault Address)))
  | 0, s => if s.consecutiveEmpty < gapLimit then none else some (.ok s.found)
  | fuel + 1, s =>
    if s.consecutiveEmpty < gapLimit then
      match discoverVault kaspa lib source addressPrefix leafWindow derive s with
      | .ok s => discoverLoop source addressPrefix gapLimit leafWindow derive fuel s
      | .error e => some (.error e)
    else some (.ok s.found)

/-- Walk key indices until `gapLimit` vaults in a row come back empty. -/
def discoverVaults (source : UtxoSource Address) (addressPrefix : Prefix) (gapLimit leafWindow : UInt32)
    (derive : UInt32 → Except String Vault) (fuel : ℕ) : Option (Except String (List (DiscoveredVault Address))) :=
  discoverLoop kaspa lib source addressPrefix gapLimit leafWindow derive fuel ⟨[], 0, 0⟩

/-! ### What a scan finds -/

/-- The address library has an address for every pay-to-script-hash script. -/
def AddressLib.ExtractsScriptHash (kaspa : Kaspa Params) (lib : AddressLib Prefix Address) : Prop :=
  ∀ script addressPrefix, ∃ a, lib.extractScriptPubKeyAddress (kaspa.payToScriptHashScript script) addressPrefix = .ok a

/-- A leaf holds funds. -/
def Vault.HoldsAt (balance : Address → UInt64) (vault : Vault) (addressPrefix : Prefix) (leaf : UInt32) : Prop :=
  ∃ address, vault.address kaspa lib addressPrefix leaf = .ok address ∧ 0 < balance address

/-- One of the leaves below `n` holds funds. -/
def Vault.HoldsBelow (balance : Address → UInt64) (vault : Vault) (addressPrefix : Prefix) (n : UInt32) : Prop :=
  ∃ leaf, leaf < n ∧ leaf < vault.leafCount ∧ vault.HoldsAt kaspa lib balance addressPrefix leaf

/-- What is noted of a leaf. -/
def leafBalance (balance : Address → UInt64) (vault : Vault) (addressPrefix : Prefix) (leaf : UInt32) :
    Option (LeafBalance Address) :=
  match vault.address kaspa lib addressPrefix leaf with
  | .ok address => if balance address > 0 then some ⟨leaf, address, balance address⟩ else none
  | .error _ => none

section

variable {kaspa lib} {source : UtxoSource Address} {balance : Address → UInt64} {vault : Vault}
  {addressPrefix : Prefix} {leaf first last : UInt32}

theorem mem_leafRange : leaf ∈ leafRange first last ↔ first ≤ leaf ∧ leaf < last := by
  have hlast := last.toNat_lt
  simp only [leafRange, List.mem_map, List.mem_range'_1, UInt32.le_iff_toNat_le, UInt32.lt_iff_toNat_lt]
  constructor
  · rintro ⟨n, hn, rfl⟩
    have hsize : UInt32.size = 2 ^ 32 := rfl
    rw [UInt32.toNat_ofNat_of_lt' (by omega)]
    omega
  · intro h
    exact ⟨leaf.toNat, by omega, UInt32.ofNat_toNat⟩

theorem lt_min_uint32 {a b c : UInt32} : a < min b c ↔ a < b ∧ a < c := by
  have hmin : min b c = if b ≤ c then b else c := rfl
  rw [hmin]
  split_ifs with h
  · simp only [UInt32.lt_iff_toNat_lt, UInt32.le_iff_toNat_le] at h ⊢
    omega
  · simp only [UInt32.lt_iff_toNat_lt, UInt32.le_iff_toNat_le] at h ⊢
    omega

/-- Every leaf in range has an address. -/
theorem address_ok (hextract : lib.ExtractsScriptHash kaspa) (h : leaf < vault.leafCount) :
    ∃ a, vault.address kaspa lib addressPrefix leaf = .ok a := by
  obtain ⟨script, hscript⟩ := vault.redeemScript_eq_ok kaspa h
  obtain ⟨a, ha⟩ := hextract script addressPrefix
  exact ⟨a, address_eq_ok.mpr ⟨_, map_eq_ok.mpr ⟨script, hscript, rfl⟩, ha⟩⟩

theorem leafBalance_isSome :
    (leafBalance kaspa lib balance vault addressPrefix leaf).isSome ↔ vault.HoldsAt kaspa lib balance addressPrefix leaf := by
  unfold leafBalance Vault.HoldsAt
  cases vault.address kaspa lib addressPrefix leaf with
  | error e => simp
  | ok a =>
    by_cases hpos : balance a > 0
    · simp [hpos]
    · simp [hpos]

/-- **What a scan finds**: the leaves in the range that hold funds, with what they hold. -/
theorem scanRange_eq_ok (hextract : lib.ExtractsScriptHash kaspa) (hbalance : ∀ a, source.balance a = .ok (balance a))
    (vault : Vault) (addressPrefix : Prefix) (first last : UInt32) :
    scanRange kaspa lib source vault addressPrefix first last = .ok ⟨(leafRange first (min last vault.leafCount)).filterMap
      (leafBalance kaspa lib balance vault addressPrefix)⟩ := by
  have hloop : ∀ (ls : List UInt32) (funded : List (LeafBalance Address)), (∀ l ∈ ls, l < vault.leafCount) →
      ls.foldlM (scanLeaf kaspa lib source vault addressPrefix) funded =
        .ok (funded ++ ls.filterMap (leafBalance kaspa lib balance vault addressPrefix)) := by
    intro ls
    induction ls with
    | nil =>
      intro funded _
      simp [pure, Except.pure]
    | cons l ls ih =>
      intro funded hls
      obtain ⟨hl, hls⟩ := List.forall_mem_cons.mp hls
      obtain ⟨a, ha⟩ : ∃ a, vault.address kaspa lib addressPrefix l = .ok a := address_ok hextract hl
      have hleaf : scanLeaf kaspa lib source vault addressPrefix funded l =
          .ok (if balance a > 0 then funded ++ [⟨l, a, balance a⟩] else funded) := by
        simp only [scanLeaf, ha, hbalance]
        rfl
      rw [List.foldlM_cons, hleaf]
      refine (ih _ hls).trans ?_
      by_cases hpos : balance a > 0
      · simp [leafBalance, ha, hpos]
      · simp [leafBalance, ha, hpos]
  rw [scanRange, hloop _ _ fun l hl => (lt_min_uint32.mp (mem_leafRange.mp hl).2).2]
  rfl

end

/-! ### What the walk finds -/

/-- Below each of some indices there are nowhere `gap` indices in a row without one of them. -/
def NoGap (holds : UInt32 → Prop) (gap : ℕ) : Prop :=
  ∀ (s : ℕ) (m : UInt32), holds m → s + gap ≤ m.toNat → ∃ i : UInt32, holds i ∧ s ≤ i.toNat ∧ i.toNat < s + gap

/-- The walk ends, with exactly some vaults, in order and each once. -/
def DiscoversExactly (source : UtxoSource Address) (addressPrefix : Prefix) (gapLimit leafWindow : UInt32)
    (derive : UInt32 → Except String Vault) (holds : UInt32 → Prop) : Prop :=
  ∃ n found, (∀ fuel ≥ n, discoverVaults kaspa lib source addressPrefix gapLimit leafWindow derive fuel =
      some (.ok found)) ∧
    (found.map DiscoveredVault.keyIndex).Pairwise (· < ·) ∧
    ∀ i, i ∈ found.map DiscoveredVault.keyIndex ↔ holds i

/-- What the walk notes of the vault in a turn, of those before `limit`. The key index of a turn is taken
modulo 2³². -/
def vaultItem (balance : Address → UInt64) (vaults : UInt32 → Vault) (addressPrefix : Prefix) (leafWindow : UInt32)
    (limit i : ℕ) : Option (DiscoveredVault Address) :=
  let vault := vaults (UInt32.ofNat i)
  let funded := (leafRange 0 (min leafWindow vault.leafCount)).filterMap
    (leafBalance kaspa lib balance vault addressPrefix)
  if i < limit ∧ funded.isEmpty = false then some ⟨UInt32.ofNat i, ⟨funded⟩⟩ else none

section

variable {kaspa lib} {source : UtxoSource Address} {balance : Address → UInt64} {vaults : UInt32 → Vault}
  {addressPrefix : Prefix} {gapLimit leafWindow : UInt32} {derive : UInt32 → Except String Vault}

theorem isEmpty_funded_iff {vault : Vault} : ((leafRange 0 (min leafWindow vault.leafCount)).filterMap
      (leafBalance kaspa lib balance vault addressPrefix)).isEmpty = false ↔
    vault.HoldsBelow kaspa lib balance addressPrefix leafWindow := by
  rw [← Bool.not_eq_true, List.isEmpty_iff, List.filterMap_eq_nil_iff, not_forall]
  constructor
  · rintro ⟨leaf, h⟩
    obtain ⟨hleaf, hsome⟩ := not_forall.mp h
    obtain ⟨hwindow, hcount⟩ := lt_min_uint32.mp (mem_leafRange.mp hleaf).2
    exact ⟨leaf, hwindow, hcount, leafBalance_isSome.mp (Option.isSome_iff_ne_none.mpr hsome)⟩
  · rintro ⟨leaf, hwindow, hcount, hholds⟩
    refine ⟨leaf, fun h => ?_⟩
    have hleaf : leaf ∈ leafRange 0 (min leafWindow vault.leafCount) :=
      mem_leafRange.mpr ⟨UInt32.zero_le, lt_min_uint32.mpr ⟨hwindow, hcount⟩⟩
    exact Option.isSome_iff_ne_none.mp (leafBalance_isSome.mpr hholds) (h hleaf)

theorem vaultItem_isSome {limit i : ℕ} :
    (vaultItem kaspa lib balance vaults addressPrefix leafWindow limit i).isSome ↔
      i < limit ∧ (vaults (UInt32.ofNat i)).HoldsBelow kaspa lib balance addressPrefix leafWindow := by
  rw [← isEmpty_funded_iff]
  unfold vaultItem
  simp only
  split_ifs with h
  · exact ⟨fun _ => h, fun _ => rfl⟩
  · exact ⟨fun hsome => (nomatch hsome), fun hc => absurd hc h⟩

theorem lt_of_vaultItem (limit i : ℕ) (d : DiscoveredVault Address)
    (h : vaultItem kaspa lib balance vaults addressPrefix leafWindow limit i = some d) : i < limit :=
  (vaultItem_isSome.mp (Option.isSome_of_eq_some h)).1

/-- What is noted of a vault is its key index and its scan. -/
theorem vaultItem_eq_some (hextract : lib.ExtractsScriptHash kaspa)
    (hbalance : ∀ a, source.balance a = .ok (balance a)) {limit i : ℕ} {d : DiscoveredVault Address}
    (h : vaultItem kaspa lib balance vaults addressPrefix leafWindow limit i = some d) :
    d.keyIndex = UInt32.ofNat i ∧
      scanRange kaspa lib source (vaults d.keyIndex) addressPrefix 0 leafWindow = .ok d.scan := by
  unfold vaultItem at h
  simp only at h
  split_ifs at h
  obtain rfl := Option.some.inj h
  exact ⟨rfl, scanRange_eq_ok hextract hbalance _ addressPrefix 0 leafWindow⟩

/-- Where the walk of the code and the walk over the natural numbers agree. -/
structure Discovery.Agrees (s : Discovery Address) (w : GapWalk (DiscoveredVault Address)) : Prop where
  found : s.found = w.found
  empties : s.consecutiveEmpty.toNat = w.empties
  next : s.keyIndex = UInt32.ofNat w.next

theorem Discovery.Agrees.guard {s : Discovery Address} {w : GapWalk (DiscoveredVault Address)} (h : s.Agrees w) :
    s.consecutiveEmpty < gapLimit ↔ w.empties < gapLimit.toNat := by
  rw [UInt32.lt_iff_toNat_lt, h.empties]

/-- **One turn** is a step of the walk over the natural numbers, if the vault comes before the limit or
holds nothing. -/
theorem discoverVault_agrees (limit : ℕ) (hextract : lib.ExtractsScriptHash kaspa)
    (hbalance : ∀ a, source.balance a = .ok (balance a)) (hderive : ∀ i, derive i = .ok (vaults i))
    {s : Discovery Address} {w : GapWalk (DiscoveredVault Address)} (h : s.Agrees w)
    (hnext : (vaults (UInt32.ofNat w.next)).HoldsBelow kaspa lib balance addressPrefix leafWindow → w.next < limit)
    (hempties : w.empties < gapLimit.toNat) :
    ∃ s', discoverVault kaspa lib source addressPrefix leafWindow derive s = .ok s' ∧
      s'.Agrees (w.step (vaultItem kaspa lib balance vaults addressPrefix leafWindow limit)) := by
  have hlimit := gapLimit.toNat_lt
  have hindex : s.keyIndex + 1 = UInt32.ofNat (w.next + 1) := by
    rw [h.next, UInt32.ofNat_add]
    rfl
  have hwithin := and_iff_right_of_imp (hnext ∘ isEmpty_funded_iff.mp)
  refine ⟨_, by simp only [discoverVault, hderive, scanRange_eq_ok hextract hbalance]; rfl, ?_⟩
  unfold GapWalk.step vaultItem
  simp only [hwithin]
  simp only [← h.next]
  split_ifs with hempty hfunded hfunded
  · rw [hempty] at hfunded
    cases hfunded
  · refine ⟨h.found, ?_, hindex⟩
    change (s.consecutiveEmpty + 1).toNat = w.empties + 1
    rw [UInt32.toNat_add, UInt32.toNat_one, h.empties]
    omega
  · exact ⟨by rw [h.found], rfl, hindex⟩
  · exact absurd (Bool.not_eq_true _ ▸ hempty) hfunded

/-- **The walk** ends with all there is before the limit, if nothing comes up to a gap behind it. -/
theorem discoverLoop_eq (limit : ℕ) (hextract : lib.ExtractsScriptHash kaspa)
    (hbalance : ∀ a, source.balance a = .ok (balance a)) (hderive : ∀ i, derive i = .ok (vaults i))
    (hbehind : ∀ n, (vaults (UInt32.ofNat n)).HoldsBelow kaspa lib balance addressPrefix leafWindow →
      n < limit + gapLimit.toNat → n < limit)
    (hgap : ∀ s m, (vaultItem kaspa lib balance vaults addressPrefix leafWindow limit m).isSome →
      s + gapLimit.toNat ≤ m →
        ∃ j < gapLimit.toNat, (vaultItem kaspa lib balance vaults addressPrefix leafWindow limit (s + j)).isSome)
    (fuel : ℕ) {s : Discovery Address} {w : GapWalk (DiscoveredVault Address)} (h : s.Agrees w)
    (hinv : w.Inv (vaultItem kaspa lib balance vaults addressPrefix leafWindow limit) limit gapLimit.toNat)
    (hfuel : limit + gapLimit.toNat ≤ fuel + w.next) :
    discoverLoop kaspa lib source addressPrefix gapLimit leafWindow derive fuel s = some (.ok
      ((List.range limit).filterMap (vaultItem kaspa lib balance vaults addressPrefix leafWindow limit))) := by
  induction fuel generalizing s w with
  | zero =>
    have hend : ¬w.empties < gapLimit.toNat := by
      intro hlt
      have := hinv.next_lt hlt
      omega
    rw [discoverLoop, if_neg (mt h.guard.mp hend), h.found,
      hinv.found_eq_bound (lt_of_vaultItem limit) (Nat.le_of_not_lt hend) hgap]
  | succ fuel ih =>
    rw [discoverLoop]
    by_cases hlt : w.empties < gapLimit.toNat
    · obtain ⟨s', hs', hagrees⟩ := discoverVault_agrees limit hextract hbalance hderive h
        (fun hholds => hbehind _ hholds (hinv.next_lt hlt)) hlt
      rw [if_pos (h.guard.mpr hlt), hs']
      exact ih hagrees (hinv.step (lt_of_vaultItem limit) hlt) (by rw [GapWalk.next_step]; omega)
    · rw [if_neg (mt h.guard.mp hlt), h.found,
        hinv.found_eq_bound (lt_of_vaultItem limit) (Nat.le_of_not_lt hlt) hgap]

/-- **The walk does not end** where it meets no gap, not even round the key indices. -/
theorem discoverLoop_eq_none (limit : ℕ) (hextract : lib.ExtractsScriptHash kaspa)
    (hbalance : ∀ a, source.balance a = .ok (balance a)) (hderive : ∀ i, derive i = .ok (vaults i))
    (hdense : ∀ s, ∃ j < gapLimit.toNat,
      (vaults (UInt32.ofNat (s + j))).HoldsBelow kaspa lib balance addressPrefix leafWindow)
    (fuel : ℕ) {s : Discovery Address} {w : GapWalk (DiscoveredVault Address)} (h : s.Agrees w)
    (hinv : w.Inv (vaultItem kaspa lib balance vaults addressPrefix leafWindow limit) limit gapLimit.toNat)
    (hfuel : fuel + w.next ≤ limit) :
    discoverLoop kaspa lib source addressPrefix gapLimit leafWindow derive fuel s = none := by
  have hsome : ∀ n, n + gapLimit.toNat ≤ limit → ∃ j < gapLimit.toNat,
      (vaultItem kaspa lib balance vaults addressPrefix leafWindow limit (n + j)).isSome := by
    intro n hn
    obtain ⟨j, hj, hholds⟩ := hdense n
    exact ⟨j, hj, vaultItem_isSome.mpr ⟨by omega, hholds⟩⟩
  induction fuel generalizing s w with
  | zero => rw [discoverLoop, if_pos (h.guard.mpr (hinv.empties_lt (by omega) hsome))]
  | succ fuel ih =>
    have hlt := hinv.empties_lt (by omega) hsome
    obtain ⟨s', hs', hagrees⟩ := discoverVault_agrees limit hextract hbalance hderive h
      (fun _ => by omega) hlt
    rw [discoverLoop, if_pos (h.guard.mpr hlt), hs']
    exact ih hagrees (hinv.step (lt_of_vaultItem limit) hlt) (by rw [GapWalk.next_step]; omega)

/-- The end of some key indices. -/
theorem exists_limit (holds : UInt32 → Prop) : ∃ limit ≤ 2 ^ 32, (∀ i, holds i → i.toNat < limit) ∧
    (0 < limit → ∃ i, holds i ∧ i.toNat + 1 = limit) := by
  classical
  by_cases hempty : ∃ i, holds i
  · obtain ⟨i, hi⟩ := hempty
    set P : ℕ → Prop := fun n => ∃ i, holds i ∧ i.toNat = n with hP
    obtain ⟨last, hlast, heq⟩ : P (Nat.findGreatest P (2 ^ 32)) :=
      Nat.findGreatest_spec (P := P) i.toNat_lt.le ⟨i, hi, rfl⟩
    refine ⟨last.toNat + 1, last.toNat_lt, fun j hj => Nat.lt_succ_of_le ?_, fun _ => ⟨last, hlast, rfl⟩⟩
    rw [heq]
    exact Nat.le_findGreatest j.toNat_lt.le ⟨j, hj, rfl⟩
  · exact ⟨0, Nat.zero_le _, fun i hi => absurd ⟨i, hi⟩ hempty, nofun⟩

/-- **The walk finds exactly the vaults with funds** within the window, in order and each once, with what
their scans found; it ends. No gap must be among these vaults, and there must be one before the key index
wraps and comes to the first of them again. -/
theorem discoverVaults_exact (kaspa : Kaspa Params) (lib : AddressLib Prefix Address) (source : UtxoSource Address)
    (balance : Address → UInt64) (vaults : UInt32 → Vault) (derive : UInt32 → Except String Vault)
    (addressPrefix : Prefix) (gapLimit leafWindow : UInt32) (hextract : lib.ExtractsScriptHash kaspa)
    (hbalance : ∀ a, source.balance a = .ok (balance a)) (hderive : ∀ i, derive i = .ok (vaults i))
    (hgap : NoGap (fun i => (vaults i).HoldsBelow kaspa lib balance addressPrefix leafWindow) gapLimit.toNat)
    (hwrap : ∀ i i', (vaults i).HoldsBelow kaspa lib balance addressPrefix leafWindow →
      (vaults i').HoldsBelow kaspa lib balance addressPrefix leafWindow →
      i.toNat + gapLimit.toNat < 2 ^ 32 + i'.toNat) :
    ∃ n found, (∀ fuel ≥ n, discoverVaults kaspa lib source addressPrefix gapLimit leafWindow derive fuel =
        some (.ok found)) ∧
      (found.map DiscoveredVault.keyIndex).Pairwise (· < ·) ∧
      (∀ i, i ∈ found.map DiscoveredVault.keyIndex ↔
        (vaults i).HoldsBelow kaspa lib balance addressPrefix leafWindow) ∧
      ∀ d ∈ found, scanRange kaspa lib source (vaults d.keyIndex) addressPrefix 0 leafWindow = .ok d.scan := by
  have hsmall := gapLimit.toNat_lt
  obtain ⟨limit, hle, hlast, hmax⟩ :=
    exists_limit fun i => (vaults i).HoldsBelow kaspa lib balance addressPrefix leafWindow
  have hbehind : ∀ n, (vaults (UInt32.ofNat n)).HoldsBelow kaspa lib balance addressPrefix leafWindow →
      n < limit + gapLimit.toNat → n < limit := by
    intro n hholds hn
    have hlt := hlast _ hholds
    obtain ⟨i, hi, rfl⟩ := hmax (Nat.zero_lt_of_lt hlt)
    have hagain := hwrap i _ hi hholds
    rw [UInt32.toNat_ofNat'] at hlt hagain
    omega
  have hholds_iff {i : UInt32} : (vaultItem kaspa lib balance vaults addressPrefix leafWindow limit i.toNat).isSome ↔
      (vaults i).HoldsBelow kaspa lib balance addressPrefix leafWindow := by
    rw [vaultItem_isSome, UInt32.ofNat_toNat]
    exact and_iff_right_of_imp (hlast i)
  have hnogap : ∀ s m, (vaultItem kaspa lib balance vaults addressPrefix leafWindow limit m).isSome →
      s + gapLimit.toNat ≤ m → ∃ j < gapLimit.toNat,
        (vaultItem kaspa lib balance vaults addressPrefix leafWindow limit (s + j)).isSome := by
    intro s m hm hle'
    obtain ⟨hlt, hholds⟩ := vaultItem_isSome.mp hm
    obtain ⟨i, hi, hfrom, hto⟩ := hgap s _ hholds (by rwa [UInt32.toNat_ofNat_of_lt' (hlt.trans_le hle)])
    exact ⟨i.toNat - s, by omega, by rwa [Nat.add_sub_cancel' hfrom, hholds_iff]⟩
  have hindex : ∀ i d, vaultItem kaspa lib balance vaults addressPrefix leafWindow limit i = some d →
      d.keyIndex.toNat = i := by
    intro i d hd
    rw [(vaultItem_eq_some hextract hbalance hd).1]
    exact UInt32.toNat_ofNat_of_lt' ((lt_of_vaultItem limit i d hd).trans_le hle)
  refine ⟨limit + gapLimit.toNat, (List.range limit).filterMap
    (vaultItem kaspa lib balance vaults addressPrefix leafWindow limit), fun fuel hfuel => ?_, ?_, fun i => ?_,
    fun d hd => ?_⟩
  · exact discoverLoop_eq limit hextract hbalance hderive hbehind hnogap fuel ⟨rfl, rfl, rfl⟩ (.start _ _ _) hfuel
  · have hpairwise := GapWalk.pairwise_found hindex limit
    rw [List.pairwise_map] at hpairwise ⊢
    exact hpairwise.imp fun h => UInt32.lt_iff_toNat_lt.mpr h
  · simp only [List.mem_map, List.mem_filterMap, List.mem_range]
    constructor
    · rintro ⟨d, ⟨n, -, hd⟩, rfl⟩
      rw [← hholds_iff, hindex n d hd, hd]
      rfl
    · intro hholds
      obtain ⟨d, hd⟩ := Option.isSome_iff_exists.mp (hholds_iff.mpr hholds)
      exact ⟨d, ⟨i.toNat, hlast i hholds, hd⟩, UInt32.toNat_inj.mp (hindex _ d hd)⟩
  · obtain ⟨n, -, hn⟩ := List.mem_filterMap.mp hd
    exact (vaultItem_eq_some hextract hbalance hn).2

/-- **The walk does not end** when it comes to the first vault again before it has met a gap. -/
theorem discoverVaults_eq_none (hextract : lib.ExtractsScriptHash kaspa)
    (hbalance : ∀ a, source.balance a = .ok (balance a)) (hderive : ∀ i, derive i = .ok (vaults i))
    (hgap : NoGap (fun i => (vaults i).HoldsBelow kaspa lib balance addressPrefix leafWindow) gapLimit.toNat)
    {i i' : UInt32} (hi : (vaults i).HoldsBelow kaspa lib balance addressPrefix leafWindow)
    (hi' : (vaults i').HoldsBelow kaspa lib balance addressPrefix leafWindow)
    (hwrap : 2 ^ 32 + i'.toNat ≤ i.toNat + gapLimit.toNat) (fuel : ℕ) :
    discoverVaults kaspa lib source addressPrefix gapLimit leafWindow derive fuel = none := by
  have hlt := i.toNat_lt
  have hlt' := i'.toNat_lt
  have hat {n : ℕ} {k : UInt32} (hk : (vaults k).HoldsBelow kaspa lib balance addressPrefix leafWindow)
      (hn : n % 2 ^ 32 = k.toNat) :
      (vaults (UInt32.ofNat n)).HoldsBelow kaspa lib balance addressPrefix leafWindow := by
    obtain rfl : UInt32.ofNat n = k := UInt32.toNat_inj.mp (UInt32.toNat_ofNat'.trans hn)
    exact hk
  refine discoverLoop_eq_none fuel hextract hbalance hderive (fun s => ?_) fuel ⟨rfl, rfl, rfl⟩ (.start _ _ _)
    (Nat.le_refl fuel)
  -- the next one on or after `s`, or else the first one again
  rcases Nat.lt_or_ge i.toNat (s % 2 ^ 32) with hpast | hbefore
  · exact ⟨2 ^ 32 + i'.toNat - s % 2 ^ 32, by omega, hat hi' (by omega)⟩
  · rcases Nat.lt_or_ge i.toNat (s % 2 ^ 32 + gapLimit.toNat) with hnear | hfar
    · exact ⟨i.toNat - s % 2 ^ 32, by omega, hat hi (by omega)⟩
    · obtain ⟨k, hk, hfrom, hto⟩ := hgap _ i hi hfar
      have hklt := k.toNat_lt
      exact ⟨k.toNat - s % 2 ^ 32, by omega, hat hk (by omega)⟩

end

/-! ### A seed with a few funded vaults -/

/-- The vaults of a seed, told apart by their identifiers. -/
def testVaults (i : UInt32) : Vault := ⟨⟨.ofBytes (leBytes 16 i.toNat) (length_leBytes 16 _), Block.zero 32⟩⟩

theorem testVaults_inj {i i' : UInt32} (h : (testVaults i).publicKey.id = (testVaults i').publicKey.id) : i = i' := by
  have hid : leBytes 16 i.toNat = leBytes 16 i'.toNat := congrArg Block.bytes h
  have hi := i.toNat_lt
  have hi' := i'.toNat_lt
  exact UInt32.toNat_inj.mp (leBytes_inj (by omega) (by omega) hid)

/-- Funds at some leaves of some of the vaults. -/
def fundsAt (held : List (UInt32 × UInt32)) (a : Bytes) : UInt64 :=
  if ∃ h ∈ held, (testVaults h.1).address scriptKaspa testLib () h.2 = .ok a then 1000 else 0

def testSource (held : List (UInt32 × UInt32)) : UtxoSource Bytes := ⟨fun a => .ok (fundsAt held a)⟩

theorem extractsScriptHash_testLib : testLib.ExtractsScriptHash scriptKaspa := fun _ _ => ⟨_, rfl⟩

variable {held : List (UInt32 × UInt32)} {i leaf l n : UInt32}

theorem holdsAt_testVaults (h : (testVaults i).HoldsAt scriptKaspa testLib (fundsAt held) () l) :
    (i, l) ∈ held := by
  obtain ⟨a, ha, hpos⟩ := h
  unfold fundsAt at hpos
  split_ifs at hpos with hfunded
  · obtain ⟨⟨i', l'⟩, hmem, hfunded⟩ := hfunded
    -- an address is made of the identifier and the leaf
    obtain ⟨hid, rfl⟩ := leafOutputScript_inj ((eq_leafOutputScript ha).symm.trans (eq_leafOutputScript hfunded))
    obtain rfl := testVaults_inj hid
    exact hmem
  · exact absurd hpos (by decide)

/-- The vault holds funds at the leaf. -/
theorem holdsBelow_testVaults (hmem : (i, leaf) ∈ held) (hn : leaf < n) (hleaf : leaf < (testVaults i).leafCount) :
    (testVaults i).HoldsBelow scriptKaspa testLib (fundsAt held) () n := by
  obtain ⟨a, ha⟩ : ∃ a, (testVaults i).address scriptKaspa testLib () leaf = .ok a :=
    address_ok extractsScriptHash_testLib hleaf
  refine ⟨leaf, hn, hleaf, a, ha, ?_⟩
  rw [fundsAt, if_pos ⟨(i, leaf), hmem, ha⟩]
  decide

/-- Where only the first vault holds funds, there is no gap. -/
theorem noGap_testVaults (leaf n : UInt32) :
    NoGap (fun i => (testVaults i).HoldsBelow scriptKaspa testLib (fundsAt [(0, leaf)]) () n) 1 := by
  rintro s m ⟨l, -, -, hholds⟩ hle
  obtain ⟨rfl, -⟩ := Prod.ext_iff.mp (List.mem_singleton.mp (holdsAt_testVaults hholds))
  change s + 1 ≤ 0 at hle
  omega

/-- Funds at leaf 3 of the first vault and at leaf 1 of the third one: with a gap of two, the empty vault
between them does not end the walk. -/
theorem discoverVaults_exact_two :
    ∃ n found, (∀ fuel ≥ n, discoverVaults scriptKaspa testLib (testSource [(0, 3), (2, 1)]) () 2 64
        (fun i => .ok (testVaults i)) fuel = some (.ok found)) ∧
      found.map DiscoveredVault.keyIndex = [0, 2] ∧
      ∀ d ∈ found, scanRange scriptKaspa testLib (testSource [(0, 3), (2, 1)]) (testVaults d.keyIndex) () 0 64 =
        .ok d.scan := by
  have hholds : ∀ i, (testVaults i).HoldsBelow scriptKaspa testLib (fundsAt [(0, 3), (2, 1)]) () 64 ↔
      i = 0 ∨ i = 2 := by
    intro i
    constructor
    · rintro ⟨l, -, -, hl⟩
      have hmem := holdsAt_testVaults hl
      simp only [List.mem_cons, List.not_mem_nil, or_false, Prod.mk.injEq] at hmem
      exact hmem.imp And.left And.left
    · rintro (rfl | rfl)
      · exact holdsBelow_testVaults List.mem_cons_self (by decide) (by decide)
      · exact holdsBelow_testVaults (List.mem_cons_of_mem _ List.mem_cons_self) (by decide) (by decide)
  have hgap : NoGap (fun i => (testVaults i).HoldsBelow scriptKaspa testLib (fundsAt [(0, 3), (2, 1)]) () 64)
      (2 : UInt32).toNat := by
    intro s m hm hle
    rcases (hholds m).mp hm with rfl | rfl
    · exact absurd hle (by simp)
    · refine ⟨0, (hholds 0).mpr (.inl rfl), ?_, ?_⟩
      · exact Nat.le_of_add_le_add_right hle
      · exact Nat.lt_add_left s (by decide)
  obtain ⟨n, found, hwalk, hsorted, hfound, hscan⟩ := discoverVaults_exact scriptKaspa testLib
    (testSource [(0, 3), (2, 1)]) (fundsAt [(0, 3), (2, 1)]) testVaults _ () 2 64
    extractsScriptHash_testLib (fun _ => rfl) (fun _ => rfl) hgap (by
      intro i i' hi _
      rcases (hholds i).mp hi with rfl | rfl
      · exact Nat.lt_add_right _ (by decide)
      · exact Nat.lt_add_right _ (by decide))
  refine ⟨n, found, hwalk, hsorted.eq_of_mem_iff (by decide) fun i => ?_, hscan⟩
  rw [hfound i, hholds i]
  simp

/-- The same sum at every address. -/
def richSource : UtxoSource Bytes := ⟨fun _ => .ok 1000⟩

/-- Every vault then holds funds. -/
theorem holdsBelow_rich (i : UInt32) :
    (testVaults i).HoldsBelow scriptKaspa testLib (fun _ => 1000) () 32768 := by
  have hcount : (0 : UInt32) < 32768 := by decide
  obtain ⟨a, ha⟩ : ∃ a, (testVaults i).address scriptKaspa testLib () 0 = .ok a :=
    address_ok extractsScriptHash_testLib hcount
  have hpos : (0 : UInt64) < 1000 := by decide
  exact ⟨0, hcount, hcount, a, ha, hpos⟩

theorem noGap_rich :
    NoGap (fun i => (testVaults i).HoldsBelow scriptKaspa testLib (fun _ => 1000) () 32768) 1 := by
  intro s m _ hle
  have hm := m.toNat_lt
  refine ⟨UInt32.ofNat s, holdsBelow_rich _, ?_⟩
  rw [UInt32.toNat_ofNat']
  omega

/-- **Not the vaults with funds at any leaf**: with a window of one leaf, funds at leaf 1 are not found. **And
not always an end** where every leaf is within the window: when all key indices have funds, the key index
wraps and the walk goes on. -/
theorem not_discoverVaults_exact :
    (¬∀ (kaspa : Kaspa Unit) (lib : AddressLib Unit Bytes) (source : UtxoSource Bytes) (balance : Bytes → UInt64)
      (vaults : UInt32 → Vault) (derive : UInt32 → Except String Vault) (gapLimit leafWindow : UInt32),
      lib.ExtractsScriptHash kaspa → (∀ a, source.balance a = .ok (balance a)) → (∀ i, derive i = .ok (vaults i)) →
      1 ≤ gapLimit → 1 ≤ leafWindow →
      NoGap (fun i => (vaults i).HoldsBelow kaspa lib balance () (vaults i).leafCount) gapLimit.toNat →
      DiscoversExactly kaspa lib source () gapLimit leafWindow derive fun i =>
        (vaults i).HoldsBelow kaspa lib balance () (vaults i).leafCount) ∧
    ¬∀ (kaspa : Kaspa Unit) (lib : AddressLib Unit Bytes) (source : UtxoSource Bytes) (balance : Bytes → UInt64)
      (vaults : UInt32 → Vault) (derive : UInt32 → Except String Vault) (gapLimit leafWindow : UInt32),
      lib.ExtractsScriptHash kaspa → (∀ a, source.balance a = .ok (balance a)) → (∀ i, derive i = .ok (vaults i)) →
      1 ≤ gapLimit → (∀ i, (vaults i).leafCount = leafWindow) →
      NoGap (fun i => (vaults i).HoldsBelow kaspa lib balance () (vaults i).leafCount) gapLimit.toNat →
      DiscoversExactly kaspa lib source () gapLimit leafWindow derive fun i =>
        (vaults i).HoldsBelow kaspa lib balance () (vaults i).leafCount := by
  constructor
  · intro h
    obtain ⟨n, found, hwalk, -, hfound⟩ := h scriptKaspa testLib (testSource [(0, 1)]) (fundsAt [(0, 1)]) testVaults
      (fun i => .ok (testVaults i)) 1 1 extractsScriptHash_testLib (fun _ => rfl) (fun _ => rfl) (by decide) (by decide)
      (noGap_testVaults 1 _)
    -- within the window no vault holds anything
    have hnone : ∀ i, ¬(testVaults i).HoldsBelow scriptKaspa testLib (fundsAt [(0, 1)]) () 1 := by
      rintro i ⟨l, hl, -, hholds⟩
      obtain ⟨-, rfl⟩ := Prod.ext_iff.mp (List.mem_singleton.mp (holdsAt_testVaults hholds))
      exact absurd hl (by decide)
    have hloop : discoverVaults scriptKaspa testLib (testSource [(0, 1)]) () 1 1 (fun i => .ok (testVaults i))
        (n + 1) = some (.ok []) :=
      discoverLoop_eq 0 extractsScriptHash_testLib (fun _ => rfl) (fun _ => rfl)
        (fun i hi => absurd hi (hnone _)) (fun _ m hm => absurd (vaultItem_isSome.mp hm).2 (hnone _)) (n + 1)
        ⟨rfl, rfl, rfl⟩ (.start _ _ _) (by change 0 + 1 ≤ n + 1 + 0; omega)
    have hall := (hwalk (n + 1) (Nat.le_succ n)).symm.trans hloop
    have hzero := (hfound 0).mpr (holdsBelow_testVaults List.mem_cons_self (by decide) (by decide))
    rw [Except.ok.inj (Option.some.inj hall)] at hzero
    exact absurd hzero (by simp)
  · intro h
    obtain ⟨n, found, hwalk, -⟩ := h scriptKaspa testLib richSource (fun _ => 1000) testVaults
      (fun i => .ok (testVaults i)) 1 32768 extractsScriptHash_testLib (fun _ => rfl) (fun _ => rfl) (by decide)
      (fun _ => rfl) noGap_rich
    have hnever : discoverVaults scriptKaspa testLib richSource () 1 32768 (fun i => .ok (testVaults i)) n =
        none :=
      discoverVaults_eq_none extractsScriptHash_testLib (fun _ => rfl) (fun _ => rfl) noGap_rich
        (holdsBelow_rich 0xFFFFFFFF) (holdsBelow_rich 0) (by decide) n
    cases (hwalk n (Nat.le_refl n)).symm.trans hnever

end KaspaPqv.LmsWallet
