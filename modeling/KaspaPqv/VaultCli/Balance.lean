import KaspaPqv.VaultNode.Client

/-!
# The balance command

`cmdBalance` asks a node for the coins of the first leaves, and shows what each of them holds. It
does not go through the cache that a scan reads, nor through the search that a spend begins
with, but adds up the answer itself.

## What is proved

* `cmdBalance_agrees` — what it shows is what a scan finds after the same answer; and if a spend
  would find a coin, it shows that one and no other.
-/

namespace KaspaPqv.VaultCli

open KaspaPqv.Lib KaspaPqv.Script KaspaPqv.VaultCore KaspaPqv.LmsScript KaspaPqv.LmsWallet KaspaPqv.VaultNode

/-- What is shown. -/
structure BalanceReport (Address : Type) where
  /-- Each leaf, its address, and what it holds. -/
  lines : List (ℕ × Address × UInt64)
  total : UInt64
  funded : List UInt32

/-- What is said at the end. -/
inductive Verdict where
  | noFundedLeaf
  | liveLeaf (leaf : UInt32)
  /-- A warning. -/
  | fundedLeaves (leaves : List UInt32)
  deriving DecidableEq

def BalanceReport.verdict {Address : Type} (report : BalanceReport Address) : Verdict :=
  match report.funded with
  | [] => .noFundedLeaf
  | [leaf] => .liveLeaf leaf
  | leaves => .fundedLeaves leaves

variable {NodeParams Prefix Address : Type} (kaspa : Kaspa NodeParams) (lib : AddressLib Prefix Address)

/-- One turn of the loop over the leaves. -/
def noteLeaf (utxos : UtxoMap) (report : BalanceReport Address) (line : Address × ℕ) : BalanceReport Address :=
  let (address, leaf) := line
  let held := totalHeld (utxos (lib.text address))
  { lines := report.lines ++ [(leaf, address, held)]
    total := report.total + held
    funded := if held > 0 then report.funded ++ [UInt32.ofNat leaf] else report.funded }

/-- Show what the first leaves hold. -/
def cmdBalance (client : Client Address) (vault : Vault) (addressPrefix : Prefix) (count : UInt32) :
    Except String (BalanceReport Address) := do
  let addresses ← (List.range (min count vault.leafCount).toNat).mapM fun leaf =>
    vault.address kaspa lib addressPrefix (UInt32.ofNat leaf)
  let utxos ← client.utxosFor lib addresses
  pure (addresses.zipIdx.foldl (noteLeaf lib utxos) ⟨[], 0, []⟩)

variable {kaspa lib} {client : Client Address} {vault : Vault} {addressPrefix : Prefix} {count : UInt32}

variable (lib) in
/-- What the loop has added up. -/
theorem foldl_noteLeaf (utxos : UtxoMap) (A : ℕ → Address) (n : ℕ) :
    ((((List.range n).map A).zipIdx.foldl (noteLeaf lib utxos) ⟨[], 0, []⟩).funded =
      (List.range n).filterMap fun l =>
        if totalHeld (utxos (lib.text (A l))) > 0 then some (UInt32.ofNat l) else none) ∧
    (((List.range n).map A).zipIdx.foldl (noteLeaf lib utxos) ⟨[], 0, []⟩).total =
      ((List.range n).map fun l => totalHeld (utxos (lib.text (A l)))).sum := by
  rw [zipIdx_map_range]
  induction n with
  | zero => exact ⟨rfl, rfl⟩
  | succ n ih =>
    obtain ⟨hfunded, htotal⟩ := ih
    rw [List.range_succ, List.map_append, List.foldl_append, List.filterMap_append, List.map_append, List.sum_append,
      ← hfunded, ← htotal]
    refine ⟨?_, ?_⟩
    · simp only [List.map_cons, List.map_nil, List.foldl_cons, List.foldl_nil, noteLeaf, List.filterMap_cons,
        List.filterMap_nil]
      split_ifs <;> simp
    · simp [noteLeaf]

/-- **How a report comes about.** -/
theorem cmdBalance_eq_ok (hlib : lib.Lawful kaspa) {report : BalanceReport Address}
    (h : cmdBalance kaspa lib client vault addressPrefix count = .ok report) :
    ∃ (A : ℕ → Address) (utxos : UtxoMap), (∀ l < vault.scanned count,
        vault.address kaspa lib addressPrefix (UInt32.ofNat l) = .ok (A l)) ∧
      client.utxosFor lib ((List.range (vault.scanned count)).map A) = .ok utxos ∧
      report = ((List.range (vault.scanned count)).map A).zipIdx.foldl (noteLeaf lib utxos) ⟨[], 0, []⟩ := by
  obtain ⟨A, hA⟩ := exists_addresses hlib vault addressPrefix count
  have hmapM := mapM_eq_ok (l := List.range (vault.scanned count)) fun l hl => (hA l (List.mem_range.mp hl)).1
  obtain ⟨addresses, haddresses, hrest⟩ := bind_eq_ok.mp h
  obtain rfl := Except.ok.inj (hmapM.symm.trans haddresses)
  obtain ⟨utxos, hutxos, hpure⟩ := bind_eq_ok.mp hrest
  exact ⟨A, utxos, fun l hl => (hA l hl).1, hutxos, (Except.ok.inj hpure).symm⟩

/-- Nothing is added by leaves that hold nothing. -/
theorem sum_held (held : ℕ → UInt64) (leaves : List ℕ) :
    (leaves.map held).sum = (leaves.filterMap fun l => if held l > 0 then some (held l) else none).sum := by
  induction leaves with
  | nil => rfl
  | cons l leaves ih =>
    rw [List.map_cons, List.sum_cons, ih, List.filterMap_cons]
    by_cases hpos : held l > 0
    · simp only [if_pos hpos, List.sum_cons]
    · have hzero : held l = 0 := UInt64.le_antisymm (UInt64.not_lt.mp hpos) UInt64.zero_le
      simp only [hzero, gt_iff_lt, UInt64.lt_irrefl, if_false, zero_add]

theorem leafRange_zero (n : UInt32) : leafRange 0 n = (List.range n.toNat).map UInt32.ofNat := by
  rw [leafRange, List.range_eq_range']
  rfl

/-- **A scan after the same answer** finds what the leaves hold, as the report has it. -/
theorem scanRange_of_utxos (hlib : lib.Lawful kaspa) {A : ℕ → Address} {utxos : UtxoMap}
    (hA : ∀ l < vault.scanned count, vault.address kaspa lib addressPrefix (UInt32.ofNat l) = .ok (A l))
    (hutxos : client.utxosFor lib ((List.range (vault.scanned count)).map A) = .ok utxos) (loads : List (Load Address)) :
    scanRange kaspa lib (cachedBalances lib (afterLoads lib (loads ++ [⟨client, (List.range (vault.scanned count)).map A⟩])))
        vault addressPrefix 0 count =
      .ok ⟨(List.range (vault.scanned count)).filterMap fun l => if totalHeld (utxos (lib.text (A l))) > 0 then
        some ⟨UInt32.ofNat l, A l, totalHeld (utxos (lib.text (A l)))⟩ else none⟩ := by
  have htold (l : ℕ) (hl : l < vault.scanned count) :
      lastTold lib (loads ++ [⟨client, (List.range (vault.scanned count)).map A⟩]) (lib.text (A l)) =
        some (totalHeld (utxos (lib.text (A l)))) := by
    have hmem : lib.text (A l) ∈ ((List.range (vault.scanned count)).map A).map lib.text :=
      List.mem_map_of_mem (List.mem_map_of_mem (List.mem_range.mpr hl))
    rw [lastTold, List.reverse_concat, List.findSome?_cons, Load.told]
    simp only [hutxos, if_pos hmem]
  rw [scanRange_of_loaded hlib.extract_scriptHash fun leaf _ hlast hcount a ha => ?_]
  · rw [leafRange_zero, List.filterMap_map]
    refine congrArg (Except.ok ∘ ScanResult.mk) (List.filterMap_congr fun l hl => ?_)
    have hl' := List.mem_range.mp hl
    rw [Function.comp_apply, leafBalance_eq (hA l hl')]
    simp only [htold l hl', Option.getD_some]
  · have hl : leaf.toNat < vault.scanned count := by
      rw [scanned_eq]
      exact lt_min (UInt32.lt_iff_toNat_lt.mp hlast) (UInt32.lt_iff_toNat_lt.mp hcount)
    have haddress := hA _ hl
    rw [UInt32.ofNat_toNat, ha] at haddress
    rw [Except.ok.inj haddress, htold _ hl]
    rfl

/-- The last line is about the live leaf. -/
theorem verdict_eq {report : BalanceReport Address} {r : ScanResult Address}
    (h : report.funded = r.funded.map LeafBalance.leaf) : (report.verdict = .noFundedLeaf ↔ r.liveLeaf = none) ∧
      ∀ leaf, report.verdict = .liveLeaf leaf ↔ r.liveLeaf.map LeafBalance.leaf = some leaf ∧ r.isAmbiguous = false := by
  obtain ⟨funded⟩ := r
  rw [BalanceReport.verdict, h]
  cases funded with
  | nil => simp [ScanResult.liveLeaf, ScanResult.isAmbiguous]
  | cons b funded =>
    cases funded with
    | nil => simp [ScanResult.liveLeaf, ScanResult.isAmbiguous]
    | cons b' funded => simp [ScanResult.liveLeaf, ScanResult.isAmbiguous]

/-- Of the leaves with coins, this is the only one, and it has one coin. -/
theorem held_of_fundedLeaves {A : ℕ → Address} {n : ℕ} {utxos : UtxoMap} {leaf : UInt32} {entry : VaultUtxoEntry}
    (h : fundedLeaves lib utxos ((List.range n).map A) = [(leaf, [entry])]) :
    ∃ l < n, UInt32.ofNat l = leaf ∧ totalHeld (utxos (lib.text (A l))) = entry.amount ∧
      ∀ j < n, j ≠ l → totalHeld (utxos (lib.text (A j))) = 0 := by
  rw [fundedLeaves_map_range, filterMap_eq_singleton List.nodup_range] at h
  obtain ⟨l, hl, hentry, hothers⟩ := h
  refine ⟨l, List.mem_range.mp hl, ?_⟩
  cases hheld : utxos (lib.text (A l)) with
  | none =>
    rw [hheld] at hentry
    cases hentry
  | some entries =>
    simp only [hheld] at hentry
    split_ifs at hentry
    obtain ⟨hleaf, rfl⟩ := Prod.mk.inj (Option.some.inj hentry)
    refine ⟨hleaf, by simp [totalHeld], fun j hj hne => ?_⟩
    have hnone := hothers j (List.mem_range.mpr hj) hne
    cases hheld' : utxos (lib.text (A j)) with
    | none => rfl
    | some entries' =>
      simp only [hheld'] at hnone
      split_ifs at hnone with hempty
      rw [List.isEmpty_iff.mp hempty]
      rfl

/-- **What is shown is what is there for a scan and for a spend.** A scan that reads the same answer, whatever was
loaded before, finds the same leaves and the same total. And if a spend finds its coin in the same answer, one
that is worth something, that leaf is the only one shown, with what the coin is worth. -/
theorem cmdBalance_agrees (hlib : lib.Lawful kaspa) {report : BalanceReport Address}
    (h : cmdBalance kaspa lib client vault addressPrefix count = .ok report) :
    (∃ addresses r, (List.range (vault.scanned count)).mapM (fun leaf =>
        vault.address kaspa lib addressPrefix (UInt32.ofNat leaf)) = .ok addresses ∧
      (∀ loads, scanRange kaspa lib (cachedBalances lib (afterLoads lib (loads ++ [⟨client, addresses⟩]))) vault
        addressPrefix 0 count = .ok r) ∧
      report.funded = r.funded.map LeafBalance.leaf ∧ report.total = r.total ∧
      (report.verdict = .noFundedLeaf ↔ r.liveLeaf = none) ∧
      ∀ leaf, report.verdict = .liveLeaf leaf ↔ r.liveLeaf.map LeafBalance.leaf = some leaf ∧ r.isAmbiguous = false) ∧
    ∀ leaf utxo, locateFunds kaspa lib client vault addressPrefix count = .ok (leaf, utxo) → 0 < utxo.amount →
      report.verdict = .liveLeaf leaf ∧ report.total = utxo.amount := by
  obtain ⟨A, utxos, hA, hutxos, hreport⟩ := cmdBalance_eq_ok hlib h
  obtain ⟨hfunded, htotal⟩ := foldl_noteLeaf lib utxos A (vault.scanned count)
  rw [← hreport] at hfunded htotal
  have hmapM := mapM_eq_ok (l := List.range (vault.scanned count)) fun l hl => hA l (List.mem_range.mp hl)
  let held : ℕ → UInt64 := fun l => totalHeld (utxos (lib.text (A l)))
  let r : ScanResult Address := ⟨(List.range (vault.scanned count)).filterMap fun l =>
    if held l > 0 then some ⟨UInt32.ofNat l, A l, held l⟩ else none⟩
  have hleaves : report.funded = r.funded.map LeafBalance.leaf := by
    rw [List.map_filterMap]
    refine hfunded.trans (List.filterMap_congr fun l _ => ?_)
    split_ifs <;> rfl
  refine ⟨⟨_, r, hmapM, scanRange_of_utxos hlib hA hutxos, hleaves, ?_, verdict_eq hleaves⟩,
    fun leaf utxo hlocate hpositive => ?_⟩
  · rw [htotal, sum_held, ScanResult.total, List.map_filterMap]
    refine congrArg List.sum (List.filterMap_congr fun l _ => ?_)
    split_ifs <;> rfl
  · obtain ⟨addresses, haddresses, hrest⟩ := bind_eq_ok.mp hlocate
    obtain rfl := Except.ok.inj (hmapM.symm.trans haddresses)
    obtain ⟨utxos', hutxos', hone⟩ := bind_eq_ok.mp hrest
    obtain rfl := Except.ok.inj (hutxos.symm.trans hutxos')
    obtain ⟨entry, hentry, rfl⟩ := theOneFunded_eq_ok.mp hone
    obtain ⟨l, hl, hleaf, hamount, hothers⟩ := held_of_fundedLeaves hentry
    have hpos : held l > 0 := by
      change totalHeld (utxos (lib.text (A l))) > 0
      rw [hamount]
      exact hpositive
    have hsingle {β : Type} (f : ℕ → β) :
        ((List.range (vault.scanned count)).filterMap fun l => if held l > 0 then some (f l) else none) = [f l] := by
      refine (filterMap_eq_singleton List.nodup_range).mpr ⟨l, List.mem_range.mpr hl, if_pos hpos, fun j hj hne => ?_⟩
      have hzero : held j = 0 := hothers j (List.mem_range.mp hj) hne
      rw [hzero, if_neg (UInt64.lt_irrefl 0)]
    refine ⟨?_, ?_⟩
    · rw [BalanceReport.verdict, hfunded, hsingle, hleaf]
    · rw [htotal, sum_held, hsingle, List.sum_singleton]
      exact hamount

/-- The coin at leaf 3. -/
theorem cmdBalance_agrees_test : ∃ report : BalanceReport Bytes,
    cmdBalance scriptKaspa testLib (testClient [LmsWallet.coinAt 3]) testVault () scanWindow = .ok report ∧
      report.verdict = .liveLeaf 3 ∧ report.total = 1000000000 := by
  obtain ⟨A, hA⟩ := exists_addresses lawful_testLib testVault () scanWindow
  have hmapM := mapM_eq_ok (l := List.range (testVault.scanned scanWindow)) fun l hl => (hA l (List.mem_range.mp hl)).1
  have hutxos : ∃ utxos, (testClient [LmsWallet.coinAt 3]).utxosFor testLib ((List.range (testVault.scanned scanWindow)).map A) =
      .ok utxos := by
    unfold Client.utxosFor
    split_ifs
    · exact ⟨_, rfl⟩
    · exact ⟨_, rfl⟩
  obtain ⟨utxos, hutxos⟩ := hutxos
  have hok : cmdBalance scriptKaspa testLib (testClient [LmsWallet.coinAt 3]) testVault () scanWindow =
      .ok (((List.range (testVault.scanned scanWindow)).map A).zipIdx.foldl (noteLeaf testLib utxos) ⟨[], 0, []⟩) :=
    bind_eq_ok.mpr ⟨_, hmapM, bind_eq_ok.mpr ⟨utxos, hutxos, rfl⟩⟩
  obtain ⟨-, hspend⟩ := cmdBalance_agrees lawful_testLib hok
  have hlocate : locateFunds scriptKaspa testLib (testClient [LmsWallet.coinAt 3]) testVault () scanWindow =
      .ok (3, (LmsWallet.coinAt 3).toVaultUtxo 3) :=
    (locateFunds_eq_ok lawful_testLib encodeScript_injective collisionFree_testVault (serves_testClient _)
      fun _ => ⟨_, rfl⟩).mpr ⟨_, (singleUtxo_coinAt (by decide)).onlyFunded (by decide), rfl⟩
  obtain ⟨hverdict, htotal⟩ := hspend 3 _ hlocate (by decide : (0 : UInt64) < 1000000000)
  exact ⟨_, hok, hverdict, htotal⟩

end KaspaPqv.VaultCli
