import KaspaPqv.VaultCore.Preflight

/-!
# What a spend is sized by

A spend is sized before it is signed, under a signature script of zeros. That is the transaction
signed later but for the bytes of this one script, and what only asks how many they are
(a mass, a size, a fee floor) gives the same for both.

How many they are could depend on what they are: the script builder of the node has opcodes of
their own for some strings of no byte or of one.

## What is proved

* `SpendShape.Sizes.eq` — what depends on sizes alone is the same before and after signing.
* `signatureScript_congr` — signature scripts of pushes that are as long are as long.
-/

namespace KaspaPqv.VaultCore

open KaspaPqv.Lib KaspaPqv.Script

/-! ### Transactions of one size -/

/-- The same input, but for the bytes of its signature script. -/
structure TransactionInput.SameSize (i j : TransactionInput) : Prop where
  previousOutpoint_eq : i.previousOutpoint = j.previousOutpoint
  length_eq : i.signatureScript.length = j.signatureScript.length
  sequence_eq : i.sequence = j.sequence
  computeBudget_eq : i.computeBudget = j.computeBudget

/-- The same transaction, but for the bytes of its signature scripts. -/
structure MassTransaction.SameSize (t u : MassTransaction) : Prop where
  version_eq : t.version = u.version
  inputs : List.Forall₂ TransactionInput.SameSize t.inputs u.inputs
  outputs_eq : t.outputs = u.outputs
  lockTime_eq : t.lockTime = u.lockTime
  gas_eq : t.gas = u.gas
  payload_eq : t.payload = u.payload

/-- What is told of a transaction and its coin by lengths, amounts and budgets, without reading
the signature scripts. -/
def SizeOnly {β : Type} (f : MassTransaction → UtxoEntry → β) : Prop :=
  ∀ t u entry, MassTransaction.SameSize t u → f t entry = f u entry

variable {Params : Type}

/-- A transaction and its coin are those that were sized, but for the bytes of the signature script. -/
structure SpendShape.Sizes (shape : SpendShape Params) (built : MassTransaction × UtxoEntry) : Prop where
  tx : built.1.SameSize shape.tx
  entry : built.2 = shape.utxoEntry

/-- **What depends on sizes alone** is the same before and after signing. -/
theorem SpendShape.Sizes.eq {shape : SpendShape Params} {built : MassTransaction × UtxoEntry} (h : shape.Sizes built)
    {β : Type} {f : MassTransaction → UtxoEntry → β} (hf : SizeOnly f) :
    f built.1 built.2 = f shape.tx shape.utxoEntry := by
  rw [h.entry]
  exact hf _ _ _ h.tx

/-! ### Signature scripts of one length -/

/-- A push of two bytes or more is a header that tells how many, and the bytes. -/
def Kaspa.PushesPlainly (kaspa : Kaspa Params) : Prop :=
  ∃ header : ℕ → Bytes, ∀ xs : List Bytes, (∀ x ∈ xs, 2 ≤ x.length) →
    kaspa.build (xs.map .push) = xs.flatMap fun x => header x.length ++ x

/-- A signature script is the witness and a push of the redeem script, which is what may be refused. -/
def Kaspa.AppendsRedeemScript (kaspa : Kaspa Params) : Prop :=
  ∀ redeemScript, (∃ e, ∀ witness, kaspa.payToScriptHashSignatureScript redeemScript witness = .error e) ∨
    ∃ push, ∀ witness, kaspa.payToScriptHashSignatureScript redeemScript witness = .ok (witness ++ push)

variable {kaspa : Kaspa Params}

theorem length_build_congr (hpush : kaspa.PushesPlainly) {xs ys : List Bytes} (hlong : ∀ x ∈ xs, 2 ≤ x.length)
    (hlen : xs.map List.length = ys.map List.length) :
    (kaspa.build (xs.map .push)).length = (kaspa.build (ys.map .push)).length := by
  obtain ⟨header, hbuild⟩ := hpush
  have hlong' : ∀ y ∈ ys, 2 ≤ y.length := by
    intro y hy
    obtain ⟨x, hx, heq⟩ := List.mem_map.mp (hlen ▸ List.mem_map_of_mem hy : y.length ∈ xs.map List.length)
    rw [← heq]
    exact hlong x hx
  have hsum (zs : List Bytes) : (zs.flatMap fun z => header z.length ++ z).length =
      ((zs.map List.length).map fun n => (header n).length + n).sum := by
    simp [List.length_flatMap, Function.comp_def]
  rw [hbuild xs hlong, hbuild ys hlong', hsum, hsum, hlen]

/-- **Signature scripts of pushes that are as long** are as long, or are both refused. -/
theorem signatureScript_congr (hpush : kaspa.PushesPlainly) (happend : kaspa.AppendsRedeemScript)
    (redeemScript : Bytes) {xs ys : List Bytes} (hlong : ∀ x ∈ xs, 2 ≤ x.length)
    (hlen : xs.map List.length = ys.map List.length) :
    (∃ e, kaspa.payToScriptHashSignatureScript redeemScript (kaspa.build (xs.map .push)) = .error e ∧
      kaspa.payToScriptHashSignatureScript redeemScript (kaspa.build (ys.map .push)) = .error e) ∨
    ∃ script script', kaspa.payToScriptHashSignatureScript redeemScript (kaspa.build (xs.map .push)) = .ok script ∧
      kaspa.payToScriptHashSignatureScript redeemScript (kaspa.build (ys.map .push)) = .ok script' ∧
      script.length = script'.length := by
  rcases happend redeemScript with ⟨e, herror⟩ | ⟨push, hok⟩
  · exact .inl ⟨e, herror _, herror _⟩
  · refine .inr ⟨_, _, hok _, hok _, ?_⟩
    rw [List.length_append, List.length_append, length_build_congr hpush hlong hlen]

end KaspaPqv.VaultCore
