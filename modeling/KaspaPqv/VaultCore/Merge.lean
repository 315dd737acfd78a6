import KaspaPqv.VaultCore.BindingScript
import Mathlib.Algebra.BigOperators.Group.Finset.Basic
import Mathlib.Algebra.Order.BigOperators.Group.List
import Mathlib.Data.Fintype.Basic

/-!
# Several signed spends in one transaction

Each redeem script checks its own input only: the digest leaves out the other inputs
and how many there are. The owner has signed some views, each for one coin; signatures
are ideal, so an input is accepted only if the script for it rebuilds the preimage of
a signed view. All views accepted in one transaction have its outputs, and each of them
counts these outputs as paid from its own coin alone.

## What is proved

* `merge_value` — what the accepted coins are worth beyond the outputs is the sum of
  the fees signed, and the outputs once more for every accepted input after the first.

## Honest scope

A vault spend is meant to have exactly one vault input. With one, the fee signed is all
that is lost; with more, the excess is paid to nobody a view names.
-/

namespace KaspaPqv.VaultCore

open KaspaPqv.Lib KaspaPqv.Script

/-- Input `c` is accepted on the strength of the signed view `V`: the script for some
number of outputs rebuilds its preimage. -/
def AcceptedBy (sha256 : Bytes → Block 32) (V : SpendView) (c : TxContext) : Prop :=
  ∃ n pre, bindingPreimage V = .ok pre ∧ rebuiltPreimage ⟨sha256, some c⟩ n = some pre

/-- What a view's outputs pay in total. -/
def SpendView.paid (V : SpendView) : ℤ := (V.outputs.map fun o => (o.amount.toNat : ℤ)).sum

/-- What a transaction's outputs pay in total. -/
def totalOutput (T : Transaction) : ℤ := (T.outputs.map fun o => (o.value.toNat : ℤ)).sum

/-- What the coins of some inputs are worth, given the worth of every outpoint. -/
def inputValue (coin : Outpoint → UInt64) (T : Transaction) (I : Finset (Fin T.inputs.length)) : ℤ :=
  ∑ i ∈ I, ((coin (T.inputs.get i)).toNat : ℤ)

/-- The fee of a view: its coin less its outputs. -/
def SpendView.fee (coin : Outpoint → UInt64) (V : SpendView) : ℤ :=
  (coin ⟨V.outpointTxid, V.outpointIndex⟩).toNat - V.paid

variable {sha256 : Bytes → Block 32} {coin : Outpoint → UInt64} {T : Transaction}

/-- The view an input is accepted by is that of the transaction. -/
theorem AcceptedBy.spendView_eq {V : SpendView} {c : TxContext} (h : AcceptedBy sha256 V c) :
    spendView c = V := by
  obtain ⟨_, _, hV, hT⟩ := h
  exact (rebuiltPreimage_inj hV hT).2

theorem acceptedBy_spendView {c : TxContext} (hpos : 0 < c.tx.outputs.length)
    (hfits : RebuildFits c c.tx.outputs.length) : AcceptedBy sha256 (spendView c) c := by
  have hmax : c.tx.outputs.length ≤ maxOutputCount := Nat.le_of_lt_succ hfits.1.2.2
  refine ⟨c.tx.outputs.length, (spendView c).layout, ?_, ?_⟩
  · exact bindingPreimage_eq_ok.mpr ⟨spendView_fits_iff.mpr ⟨hpos, hfits⟩, rfl⟩
  · exact (rebuiltPreimage_eq_some rfl).mpr ⟨⟨hpos, hmax⟩, hfits, (rebuildLayout_length c).symm⟩

theorem spendView_paid (c : TxContext) : (spendView c).paid = totalOutput c.tx := by
  simp [SpendView.paid, spendView, totalOutput, outputView, Function.comp_def]

theorem AcceptedBy.fee_eq {V : SpendView} {i : Fin T.inputs.length} (h : AcceptedBy sha256 V ⟨T, i⟩) :
    V.fee coin = (coin (T.inputs.get i)).toNat - totalOutput T := by
  have hV := h.spendView_eq
  subst hV
  rw [SpendView.fee, spendView_paid]
  rfl

/-- Each accepted input counts all the outputs as its own. -/
theorem sum_fee {I : Finset (Fin T.inputs.length)} {signed : Fin T.inputs.length → SpendView}
    (h : ∀ i ∈ I, AcceptedBy sha256 (signed i) ⟨T, i⟩) :
    ∑ i ∈ I, (signed i).fee coin = inputValue coin T I - I.card * totalOutput T := by
  calc ∑ i ∈ I, (signed i).fee coin
      = ∑ i ∈ I, (((coin (T.inputs.get i)).toNat : ℤ) - totalOutput T) :=
        Finset.sum_congr rfl fun i hi => (h i hi).fee_eq
    _ = inputValue coin T I - I.card * totalOutput T := by
        rw [Finset.sum_sub_distrib, Finset.sum_const, nsmul_eq_mul, inputValue]

theorem totalOutput_nonneg (T : Transaction) : 0 ≤ totalOutput T := List.sum_nonneg (by simp)

/-- **Merging signed spends**: for any transaction and any set of its inputs accepted by
signed views, the coins are worth the outputs, the fees signed, and the outputs once more
for every accepted input after the first. So no more than the fees signed is lost exactly
if at most one input is accepted, or the outputs pay nothing. -/
theorem merge_value (sha256 : Bytes → Block 32) (coin : Outpoint → UInt64) (T : Transaction)
    (S : Finset SpendView) (I : Finset (Fin T.inputs.length)) (signed : Fin T.inputs.length → SpendView)
    (h : ∀ i ∈ I, signed i ∈ S ∧ AcceptedBy sha256 (signed i) ⟨T, i⟩) :
    inputValue coin T I - totalOutput T =
        ∑ i ∈ I, (signed i).fee coin + (I.card - 1) * totalOutput T ∧
      (inputValue coin T I - totalOutput T ≤ ∑ i ∈ I, (signed i).fee coin ↔
        I.card ≤ 1 ∨ totalOutput T = 0) := by
  have hvalue : inputValue coin T I - totalOutput T =
      ∑ i ∈ I, (signed i).fee coin + (I.card - 1) * totalOutput T := by
    rw [sum_fee fun i hi => (h i hi).2]
    ring
  refine ⟨hvalue, ?_⟩
  rw [hvalue, add_le_iff_nonpos_right]
  have htotal := totalOutput_nonneg T
  constructor
  · intro hle
    by_contra! hne
    have hpos : 0 < totalOutput T := lt_of_le_of_ne htotal hne.2.symm
    have hcard : (0 : ℤ) < I.card - 1 := by omega
    exact absurd hle (not_le.mpr (mul_pos hcard hpos))
  · rintro (hcard | hzero)
    · exact mul_nonpos_of_nonpos_of_nonneg (by omega) htotal
    · rw [hzero, mul_zero]

/-- A coin of one transaction. -/
def coinAt (index : UInt32) : Outpoint := ⟨canonicalView.outpointTxid, index⟩

/-- A spend of one of two coins, to one and the same output. -/
def spendOf (index : UInt32) : SpendView :=
  { canonicalView with outpointIndex := index, outputs := [⟨999000000, 0, List.replicate 35 0xaa⟩] }

/-- A transaction that takes both coins and pays the output once. -/
def mergedSpend : Transaction where
  version := 1
  inputs := [coinAt 0, coinAt 1]
  outputs := [⟨999000000, 0, List.replicate 35 0xaa⟩]
  inputs_bound := by decide

theorem spendOf_mem : ∀ i : Fin 2,
    spendOf (mergedSpend.inputs.get i).index ∈ ({spendOf 0, spendOf 1} : Finset SpendView) :=
  Fin.forall_fin_two.mpr ⟨by decide, by decide⟩

theorem mergedSpend_accepted (sha256 : Bytes → Block 32) : ∀ i : Fin 2,
    AcceptedBy sha256 (spendOf (mergedSpend.inputs.get i).index) ⟨mergedSpend, i⟩ :=
  Fin.forall_fin_two.mpr ⟨acceptedBy_spendView (c := ⟨mergedSpend, (0 : Fin 2)⟩) (by decide) (by decide),
    acceptedBy_spendView (c := ⟨mergedSpend, (1 : Fin 2)⟩) (by decide) (by decide)⟩

/-- Both inputs are accepted: the coins lose the two fees of `1000000` and the one output
once more. -/
theorem merge_value_two_coins :
    inputValue (fun _ => 1000000000) mergedSpend (Finset.univ : Finset (Fin 2)) - totalOutput mergedSpend =
        1000000 + 1000000 + 999000000 ∧
      ¬(inputValue (fun _ => 1000000000) mergedSpend (Finset.univ : Finset (Fin 2)) -
          totalOutput mergedSpend ≤ 1000000 + 1000000) := by
  have haccepted : ∀ i ∈ (Finset.univ : Finset (Fin 2)), spendOf (mergedSpend.inputs.get i).index ∈
      ({spendOf 0, spendOf 1} : Finset SpendView) ∧ AcceptedBy (fun _ => Block.zero 32)
        (spendOf (mergedSpend.inputs.get i).index) ⟨mergedSpend, i⟩ :=
    fun i _ => ⟨spendOf_mem i, mergedSpend_accepted _ i⟩
  have hmerge := merge_value (fun _ => Block.zero 32) (fun _ => 1000000000) mergedSpend
    {spendOf 0, spendOf 1} Finset.univ (fun i => spendOf (mergedSpend.inputs.get i).index) haccepted
  refine ⟨hmerge.1.trans (by decide), fun hle => ?_⟩
  rcases hmerge.2.mp (hle.trans (by decide)) with hcard | hzero
  · exact absurd hcard (by decide)
  · exact absurd hzero (by decide)

/-- Two coins of `1000000000`, each spent to the same output of `999000000` by a view of
its own, lose `1001000000` where `2000000` were signed for. -/
theorem merge_exceeds_fees :
    ¬∀ (sha256 : Bytes → Block 32) (coin : Outpoint → UInt64) (T : Transaction) (S : Finset SpendView)
      (I : Finset (Fin T.inputs.length)) (signed : Fin T.inputs.length → SpendView),
      (∀ i ∈ I, signed i ∈ S ∧ AcceptedBy sha256 (signed i) ⟨T, i⟩) →
        inputValue coin T I - totalOutput T ≤ ∑ i ∈ I, (signed i).fee coin := by
  intro h
  have hbound := h (fun _ => Block.zero 32) (fun _ => 1000000000) mergedSpend {spendOf 0, spendOf 1}
    Finset.univ (fun i => spendOf (mergedSpend.inputs.get i).index)
    fun i _ => ⟨spendOf_mem i, mergedSpend_accepted _ i⟩
  exact absurd hbound (by decide)

end KaspaPqv.VaultCore
