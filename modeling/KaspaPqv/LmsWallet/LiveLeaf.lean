import KaspaPqv.LmsWallet.Scan
import Mathlib.Data.UInt

/-!
# The live leaf

Every spend moves the coin of a vault on by a leaf. A scan may therefore start at the highest leaf
that has signed, instead of at leaf 0, and look at a few leaves from there on. The leaf to spend
from is the lowest one with funds; if there are more, somebody has paid to a leaf that the
vault has moved past.

## What is proved

* `scanRange_append` — a scan in pieces is the scan of the whole, with its errors.
* `scanRange_reads` — what a scan reads that succeeds: all of its leaves, and no others.
* `liveLeaf_eq_some` — the live leaf is the first one that holds funds.
-/

namespace KaspaPqv.LmsWallet

open KaspaPqv.Lib KaspaPqv.Script KaspaPqv.VaultCore KaspaPqv.LmsScript

/-- How many leaves past the hint are checked. -/
def defaultScanWindow : UInt32 := 64

namespace ScanResult

variable {Address : Type}

/-- The leaf a spend should come from. -/
def liveLeaf (r : ScanResult Address) : Option (LeafBalance Address) := r.funded.head?

/-- More than one leaf holds funds. -/
def isAmbiguous (r : ScanResult Address) : Bool := 1 < r.funded.length

def total (r : ScanResult Address) : UInt64 := (r.funded.map LeafBalance.amount).sum

end ScanResult

/-- `u32::saturating_add`. -/
def saturatingAdd32 (a b : UInt32) : UInt32 := UInt32.ofNat (min (a.toNat + b.toNat) (2 ^ 32 - 1))

variable {NodeParams Prefix Address : Type} (kaspa : Kaspa NodeParams) (lib : AddressLib Prefix Address)

/-- Scan forward from a hint. -/
def scanFromHint (source : UtxoSource Address) (vault : Vault) (addressPrefix : Prefix) (hint window : UInt32) :
    Except String (ScanResult Address) :=
  scanRange kaspa lib source vault addressPrefix hint (saturatingAdd32 hint window)

/-- Scan every leaf. -/
def scanVault (source : UtxoSource Address) (vault : Vault) (addressPrefix : Prefix) :
    Except String (ScanResult Address) :=
  scanRange kaspa lib source vault addressPrefix 0 vault.leafCount

/-! ### The range -/

theorem toNat_saturatingAdd32 (a b : UInt32) : (saturatingAdd32 a b).toNat = min (a.toNat + b.toNat) (2 ^ 32 - 1) := by
  have hlt : min (a.toNat + b.toNat) (2 ^ 32 - 1) < 2 ^ 32 := Nat.lt_of_le_of_lt (Nat.min_le_right _ _) (by decide)
  exact UInt32.toNat_ofNat_of_lt' hlt

/-- The leaves from `hint` on are those up to the window, or to the end of the numbers. -/
theorem lt_saturatingAdd32 {hint window leaf : UInt32} (h : leaf.toNat < hint.toNat + window.toNat)
    (hend : leaf.toNat < 2 ^ 32 - 1) : leaf < saturatingAdd32 hint window := by
  rw [UInt32.lt_iff_toNat_lt, toNat_saturatingAdd32]
  exact lt_min h hend

theorem toNat_min_uint32 (a b : UInt32) : (min a b).toNat = min a.toNat b.toNat := by
  change (if a ≤ b then a else b).toNat = _
  split_ifs with h
  · rw [Nat.min_eq_left (UInt32.le_iff_toNat_le.mp h)]
  · rw [Nat.min_eq_right (Nat.le_of_not_le fun hle => h (UInt32.le_iff_toNat_le.mpr hle))]

/-- **A range in two pieces**, each cut off at the number of leaves. -/
theorem leafRange_append {first mid last n : UInt32} (hfirst : first ≤ mid) (hmid : mid ≤ last) :
    leafRange first (min last n) = leafRange first (min mid n) ++ leafRange mid (min last n) := by
  rw [UInt32.le_iff_toNat_le] at hfirst hmid
  unfold leafRange
  rw [← List.map_append, toNat_min_uint32, toNat_min_uint32]
  congr 1
  by_cases hn : mid.toNat ≤ n.toNat
  · have hlen : min last.toNat n.toNat - first.toNat =
        (mid.toNat - first.toNat) + (min last.toNat n.toNat - mid.toNat) := by omega
    rw [Nat.min_eq_left hn, hlen, ← List.range'_append_1, Nat.add_sub_cancel' hfirst]
  · have hnone : min last.toNat n.toNat - mid.toNat = 0 := by omega
    have hsame : min last.toNat n.toNat = min mid.toNat n.toNat := by omega
    rw [hnone, List.range'_zero, List.append_nil, hsame]

/-! ### The scan -/

section

variable {kaspa lib} {source source' : UtxoSource Address} {vault : Vault} {addressPrefix : Prefix}

/-- What was found before does not matter to the loop. -/
theorem foldlM_scanLeaf (leaves : List UInt32) (funded : List (LeafBalance Address)) :
    leaves.foldlM (scanLeaf kaspa lib source vault addressPrefix) funded =
      (leaves.foldlM (scanLeaf kaspa lib source vault addressPrefix) []).map (funded ++ ·) := by
  induction leaves generalizing funded with
  | nil => simp [pure, Except.pure, Except.map]
  | cons leaf leaves ih =>
    rw [List.foldlM_cons, List.foldlM_cons]
    simp only [scanLeaf]
    cases vault.address kaspa lib addressPrefix leaf with
    | error e => rfl
    | ok address =>
      simp only [bind, Except.bind]
      cases source.balance address with
      | error e => rfl
      | ok amount =>
        simp only [pure, Except.pure]
        rw [ih]
        conv_rhs => rw [ih]
        split_ifs
        · cases leaves.foldlM (scanLeaf kaspa lib source vault addressPrefix) [] with
          | error e => rfl
          | ok rest => simp [Except.map]
        · cases leaves.foldlM (scanLeaf kaspa lib source vault addressPrefix) [] with
          | error e => rfl
          | ok rest => simp [Except.map]

/-- **A scan in pieces** is the scan of the whole: with what each of them finds, or the first error. -/
theorem scanRange_append {first mid last : UInt32} (hfirst : first ≤ mid) (hmid : mid ≤ last) :
    scanRange kaspa lib source vault addressPrefix first last = (do
      let a ← scanRange kaspa lib source vault addressPrefix first mid
      let b ← scanRange kaspa lib source vault addressPrefix mid last
      pure ⟨a.funded ++ b.funded⟩) := by
  unfold scanRange
  rw [leafRange_append hfirst hmid, List.foldlM_append]
  cases (leafRange first (min mid vault.leafCount)).foldlM (scanLeaf kaspa lib source vault addressPrefix) [] with
  | error e => rfl
  | ok funded =>
    simp only [bind, Except.bind]
    rw [foldlM_scanLeaf]
    cases (leafRange mid (min last vault.leafCount)).foldlM (scanLeaf kaspa lib source vault addressPrefix) [] with
    | error e => rfl
    | ok rest => rfl

/-- Two leaves with funds, one after the other. -/
theorem scanRange_append_two :
    scanRange scriptKaspa testLib ⟨fun _ => .ok 5⟩ testVault () 0 2 = (do
      let a ← scanRange scriptKaspa testLib ⟨fun _ => .ok 5⟩ testVault () 0 1
      let b ← scanRange scriptKaspa testLib ⟨fun _ => .ok 5⟩ testVault () 1 2
      pure ⟨a.funded ++ b.funded⟩) := scanRange_append (by decide) (by decide)

/-- A scan looks at the balances of its leaves only. -/
theorem scanRange_congr {first last : UInt32} (h : ∀ leaf, first ≤ leaf → leaf < last → leaf < vault.leafCount →
      ∀ a, vault.address kaspa lib addressPrefix leaf = .ok a → source.balance a = source'.balance a) :
    scanRange kaspa lib source vault addressPrefix first last =
      scanRange kaspa lib source' vault addressPrefix first last := by
  have hloop : ∀ (leaves : List UInt32) (funded : List (LeafBalance Address)),
      (∀ leaf ∈ leaves, ∀ a, vault.address kaspa lib addressPrefix leaf = .ok a → source.balance a = source'.balance a) →
      leaves.foldlM (scanLeaf kaspa lib source vault addressPrefix) funded =
        leaves.foldlM (scanLeaf kaspa lib source' vault addressPrefix) funded := by
    intro leaves
    induction leaves with
    | nil =>
      intro funded _
      rfl
    | cons leaf leaves ih =>
      intro funded hleaves
      obtain ⟨hleaf, hleaves⟩ := List.forall_mem_cons.mp hleaves
      have hscan : scanLeaf kaspa lib source vault addressPrefix funded leaf =
          scanLeaf kaspa lib source' vault addressPrefix funded leaf := by
        unfold scanLeaf
        cases haddress : vault.address kaspa lib addressPrefix leaf with
        | error e => rfl
        | ok a =>
          simp only [bind, Except.bind]
          rw [hleaf a haddress]
      rw [List.foldlM_cons, List.foldlM_cons, hscan]
      exact congrArg _ (funext fun funded' => ih funded' hleaves)
  unfold scanRange
  rw [hloop _ _ fun leaf hleaf => ?_]
  obtain ⟨hge, hlt⟩ := mem_leafRange.mp hleaf
  obtain ⟨hlast, hcount⟩ := lt_min_uint32.mp hlt
  exact h leaf hge hlast hcount

/-- **What a scan reads** that succeeds: of each of its leaves the balance. -/
theorem scanRange_reads {first last : UInt32} {r : ScanResult Address}
    (h : scanRange kaspa lib source vault addressPrefix first last = .ok r) {leaf : UInt32} (hfirst : first ≤ leaf)
    (hlast : leaf < last) (hcount : leaf < vault.leafCount) :
    ∃ a amount, vault.address kaspa lib addressPrefix leaf = .ok a ∧ source.balance a = .ok amount := by
  have hloop : ∀ (leaves : List UInt32) (funded found : List (LeafBalance Address)), leaf ∈ leaves →
      leaves.foldlM (scanLeaf kaspa lib source vault addressPrefix) funded = .ok found →
      ∃ a amount, vault.address kaspa lib addressPrefix leaf = .ok a ∧ source.balance a = .ok amount := by
    intro leaves
    induction leaves with
    | nil =>
      intro funded found hmem
      cases hmem
    | cons l leaves ih =>
      intro funded found hmem hfold
      rw [List.foldlM_cons, bind_eq_ok] at hfold
      obtain ⟨funded', hscan, hrest⟩ := hfold
      rcases List.mem_cons.mp hmem with rfl | hmem
      · obtain ⟨a, ha, hscan⟩ := bind_eq_ok.mp hscan
        obtain ⟨amount, hamount, -⟩ := bind_eq_ok.mp hscan
        exact ⟨a, amount, ha, hamount⟩
      · exact ih funded' found hmem hrest
  obtain ⟨found, hfold, -⟩ := bind_eq_ok.mp h
  exact hloop _ _ _ (mem_leafRange.mpr ⟨hfirst, lt_min_uint32.mpr ⟨hlast, hcount⟩⟩) hfold

end

/-! ### The live leaf -/

theorem pairwise_leafRange (first last : UInt32) : (leafRange first last).Pairwise (· < ·) := by
  have hlast := last.toNat_lt
  refine List.pairwise_map.mpr ((List.pairwise_lt_range' (s := first.toNat)).imp_of_mem ?_)
  intro a b ha hb hab
  have hsize : UInt32.size = 2 ^ 32 := rfl
  have ha' := List.mem_range'_1.mp ha
  have hb' := List.mem_range'_1.mp hb
  rw [UInt32.lt_iff_toNat_lt, UInt32.toNat_ofNat_of_lt' (by omega), UInt32.toNat_ofNat_of_lt' (by omega)]
  exact hab

/-- **The live leaf** is the first one of the range that holds funds. -/
theorem liveLeaf_eq_some {Address : Type} {found : UInt32 → Option (LeafBalance Address)} {first last : UInt32}
    {b : LeafBalance Address} : (⟨(leafRange first last).filterMap found⟩ : ScanResult Address).liveLeaf = some b ↔
      ∃ leaf, first ≤ leaf ∧ leaf < last ∧ found leaf = some b ∧ ∀ l, first ≤ l → l < leaf → found l = none := by
  rw [ScanResult.liveLeaf, List.head?_filterMap, List.findSome?_eq_some_iff]
  have hsorted := pairwise_leafRange first last
  constructor
  · rintro ⟨before, leaf, after, hsplit, hfound, hnone⟩
    rw [hsplit, List.pairwise_append] at hsorted
    obtain ⟨hfirst, hlast⟩ := mem_leafRange.mp (hsplit ▸ List.mem_append_right before List.mem_cons_self)
    refine ⟨leaf, hfirst, hlast, hfound, fun l hl hlt => hnone l ?_⟩
    have hmem : l ∈ leafRange first last := mem_leafRange.mpr ⟨hl, UInt32.lt_trans hlt hlast⟩
    rw [hsplit] at hmem
    rcases List.mem_append.mp hmem with hmem | hmem
    · exact hmem
    · rcases List.mem_cons.mp hmem with rfl | hmem
      · exact absurd hlt (UInt32.lt_irrefl l)
      · exact absurd hlt (UInt32.not_lt.mpr (UInt32.le_of_lt ((List.pairwise_cons.mp hsorted.2.1).1 l hmem)))
  · rintro ⟨leaf, hfirst, hlast, hfound, hnone⟩
    obtain ⟨before, after, hsplit⟩ := List.append_of_mem (mem_leafRange.mpr ⟨hfirst, hlast⟩)
    refine ⟨before, leaf, after, hsplit, hfound, fun l hl => ?_⟩
    rw [hsplit, List.pairwise_append] at hsorted
    exact hnone l (mem_leafRange.mp (hsplit ▸ List.mem_append_left _ hl)).1 (hsorted.2.2 l hl leaf List.mem_cons_self)

end KaspaPqv.LmsWallet
