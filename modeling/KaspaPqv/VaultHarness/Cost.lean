import KaspaPqv.SlhWallet.Spend
import Mathlib.Order.Bounds.Basic

/-!
# The compute budget of a cost

What a script uses is counted in script units, a hundred to the gram, and paid for in budget
units of a hundred grams. The wallets and the harness that measures scripts both turn script
units into budget units. The wallets round up twice; the harness rounds the grams down first.

## What is proved

* `isLeast_neededUnits` — the wallets come to the least budget whose allowance covers the units.
* `budgets_cover_iff` — the harness comes to the same, unless less than a gram is used of a
  further budget unit.
* `not_budgets_cover` — of one script unit it says that it needs no budget.
-/

namespace KaspaPqv.VaultHarness

open KaspaPqv.Lib KaspaPqv.VaultCore
open LmsWallet (ScriptEngine divCeil neededUnits)

/-- What a script cost when executed. -/
structure Cost where
  scriptBytes : ℕ
  scriptUnits : UInt64

/-- Runtime cost in grams. -/
def Cost.grams (c : Cost) : UInt64 := c.scriptUnits / 100

/-- Budget units an input must declare to afford this, rounded up. -/
def Cost.computeBudgetUnits (c : Cost) : UInt64 := divCeil c.grams 100

/-! ### What is needed -/

/-- The script units that a budget allows. -/
def allowance (units : ℕ) : ℕ := 10000 * units

/-- The budgets that cover a number of script units. -/
def covering (m : ℕ) : Set ℕ := {n | m ≤ allowance n}

theorem toNat_divCeil (a : UInt64) : (divCeil a 100).toNat = (a.toNat + 99) / 100 := by
  have ha := a.toNat_lt
  have hzero : a % 100 = 0 ↔ a.toNat % 100 = 0 := by
    rw [← UInt64.toNat_inj, UInt64.toNat_mod]
    rfl
  have hdiv : (a / 100).toNat = a.toNat / 100 := UInt64.toNat_div a 100
  unfold divCeil
  split_ifs with h
  · rw [hzero] at h
    omega
  · rw [hzero] at h
    rw [UInt64.toNat_add, hdiv, UInt64.toNat_one]
    omega

/-- **The wallets** come to the least budget that covers what was measured. -/
theorem isLeast_neededUnits (m : UInt64) : IsLeast (covering m.toNat) (neededUnits m).toNat := by
  have h : (neededUnits m).toNat = ((m.toNat + 99) / 100 + 99) / 100 := by
    rw [neededUnits, toNat_divCeil, toNat_divCeil]
  constructor
  · rw [h, covering, Set.mem_ofPred_eq, allowance]
    omega
  · intro n hn
    rw [covering, Set.mem_ofPred_eq, allowance] at hn
    rw [h]
    omega

/-- **The harness** does so too, unless less than a gram is used of the last unit. -/
theorem isLeast_computeBudgetUnits_iff (c : Cost) :
    IsLeast (covering c.scriptUnits.toNat) c.computeBudgetUnits.toNat ↔
      c.scriptUnits.toNat % 10000 = 0 ∨ 100 ≤ c.scriptUnits.toNat % 10000 := by
  have hdiv : c.grams.toNat = c.scriptUnits.toNat / 100 := UInt64.toNat_div _ 100
  have h : c.computeBudgetUnits.toNat = (c.scriptUnits.toNat / 100 + 99) / 100 := by
    rw [Cost.computeBudgetUnits, toNat_divCeil, hdiv]
  constructor
  · rintro ⟨hmem, -⟩
    rw [covering, Set.mem_ofPred_eq, allowance, h] at hmem
    omega
  · intro hrest
    constructor
    · rw [covering, Set.mem_ofPred_eq, allowance, h]
      omega
    · intro n hn
      rw [covering, Set.mem_ofPred_eq, allowance] at hn
      rw [h]
      omega

/-! ### What is declared -/

/-- The first wallet adds its margin as far as the budget goes. -/
theorem toNat_saturatingAdd_margin {n : ℕ} (h : n < 2 ^ 16) :
    (LmsWallet.saturatingAdd (UInt16.ofNat n) LmsWallet.budgetMarginUnits).toNat = min (n + 2) 65535 := by
  have hmin : min (n + 2) 65535 < UInt16.size := by
    change min (n + 2) 65535 < 65536
    omega
  rw [LmsWallet.saturatingAdd, UInt16.toNat_ofNat_of_lt' h]
  exact UInt16.toNat_ofNat_of_lt' hmin

/-- The other one refuses what is beyond. -/
theorem declaredBudget_eq_ok {measured : UInt64} {declared : UInt16}
    (h : SlhWallet.declaredBudget measured = .ok declared) :
    declared.toNat = (neededUnits measured).toNat + 2 := by
  obtain ⟨hfits, h⟩ := ensure_bind_eq_ok.mp h
  have hneeded : (neededUnits measured).toNat < 2 ^ 16 := hfits
  have hadd := orFail_eq_ok.mp h
  unfold SlhWallet.checkedAdd at hadd
  split_ifs at hadd with hlt
  obtain rfl := Option.some.inj hadd
  change (UInt16.ofNat (neededUnits measured).toNat + 2).toNat = _
  change (UInt16.ofNat (neededUnits measured).toNat).toNat + 2 < 2 ^ 16 at hlt
  rw [UInt16.toNat_ofNat_of_lt' hneeded] at hlt
  rw [UInt16.toNat_add, UInt16.toNat_ofNat_of_lt' hneeded]
  exact Nat.mod_eq_of_lt hlt

/-! ### Three computations -/

/-- Of what was measured, all computations find the least budget that covers it, and both wallets declare
one that covers it. -/
structure BudgetsCover (m : UInt64) : Prop where
  wallets : IsLeast (covering m.toNat) (neededUnits m).toNat
  harness : ∀ scriptBytes, IsLeast (covering m.toNat) (Cost.mk scriptBytes m).computeBudgetUnits.toNat
  assembled : ∀ {NodeParams : Type} (kaspa : Kaspa NodeParams) engine signed utxo txVersion outputs assembled,
    LmsWallet.assemble kaspa engine signed utxo txVersion outputs = .ok assembled →
    assembled.measuredScriptUnits = m → assembled.declaredBudgetUnits.toNat ∈ covering m.toNat
  spent : ∀ {NodeParams : Type} (kaspa : Kaspa NodeParams) engine params vault keypair utxo txVersion outputs digest
    signature spend,
    SlhWallet.assembleSpend kaspa engine params vault keypair utxo txVersion outputs digest signature = .ok spend →
    spend.measuredScriptUnits = m → spend.declaredBudgetUnits.toNat ∈ covering m.toNat

theorem mem_covering_of_le {m n n' : ℕ} (h : n ∈ covering m) (hle : n ≤ n') : n' ∈ covering m :=
  h.trans (Nat.mul_le_mul_left 10000 hle)

/-- **The three computations agree**, unless less than a gram is used of the last unit: the harness does not
count it. -/
theorem budgets_cover_iff (m : UInt64) :
    BudgetsCover m ↔ m.toNat % 10000 = 0 ∨ 100 ≤ m.toNat % 10000 := by
  constructor
  · exact fun h => (isLeast_computeBudgetUnits_iff ⟨0, m⟩).mp (h.harness 0)
  · intro hrest
    have hneeded := isLeast_neededUnits m
    refine ⟨hneeded, fun scriptBytes => (isLeast_computeBudgetUnits_iff ⟨scriptBytes, m⟩).mpr hrest, ?_, ?_⟩
    · rintro NodeParams kaspa engine signed utxo txVersion outputs assembled h rfl
      obtain ⟨-, hfits, hdeclared⟩ := LmsWallet.assemble_eq_ok kaspa engine h
      refine mem_covering_of_le hneeded.1 ?_
      rw [hdeclared, toNat_saturatingAdd_margin hfits]
      omega
    · rintro NodeParams kaspa engine params vault keypair utxo txVersion outputs digest signature spend h rfl
      obtain ⟨-, -, -, hbudget, -⟩ := SlhWallet.assembleSpend_eq_ok h
      have hdeclared := declaredBudget_eq_ok hbudget
      refine mem_covering_of_le hneeded.1 ?_
      rw [hdeclared]
      exact Nat.le_add_right _ _

/-- **One script unit** is covered by one budget unit, and the harness says that none is needed. -/
theorem not_budgets_cover : ¬∀ m : UInt64, m.toNat ≤ allowance 65535 → BudgetsCover m := by
  intro h
  have hcovered : (Cost.mk 0 1).computeBudgetUnits.toNat ∈ covering 1 := ((h 1 (by decide)).harness 0).1
  exact absurd hcovered (by change ¬1 ≤ 10000 * (Cost.mk 0 1).computeBudgetUnits.toNat; decide)

end KaspaPqv.VaultHarness
