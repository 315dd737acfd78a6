import KaspaPqv.VaultCore.BindingScript

/-!
# The digest that a redeem script verifies

Every redeem script begins with the opcodes of the binding digest, unrolled for a number of
outputs, and goes on to verify a signature of what they leave. What that is, for any transaction
or none, is one value (`rebuiltDigest`), and the rest of a redeem script is run on it.

## What is proved

* `execAll_rebuildCode` — the opcodes leave the digest, or abort if there is none.
* `rebuiltDigest_length` — for the transaction's own number of outputs it is the digest that is
  signed off-chain.
-/

namespace KaspaPqv.VaultCore

open KaspaPqv.Lib KaspaPqv.Script

/-- The digest that the script for `n` outputs rebuilds. -/
def rebuiltDigest (env : Env) (n : ℕ) : Option (Block 32) := (rebuiltPreimage env n).map env.sha256

/-- The opcodes of the digest. -/
def rebuildCode (n : ℕ) : List Instr := bindingCode n ++ [.op .OpSHA256]

variable {env : Env} {c : TxContext} {n : ℕ} {d alt : List Bytes}

theorem plain_rebuildCode (n : ℕ) : ∀ i ∈ rebuildCode n, i.Plain :=
  List.forall_mem_append.mpr ⟨plain_bindingCode n, by simp [Instr.Plain]⟩

/-- The opcodes are emitted for `1` to `127` outputs only. -/
theorem outputCount_of_emit {σ : Type} {g g' : σ} {is : List Instr}
    (h : (emitBindingDigest n : Gen σ Instr String Unit) g = .ok ((), g', is)) : 0 < n ∧ n ≤ maxOutputCount := by
  rw [emitBindingDigest] at h
  by_cases hpos : 0 < n
  · by_cases hn : n ≤ maxOutputCount
    · exact ⟨hpos, hn⟩
    · rw [Gen.ensure_bind _ hpos, Gen.ensure_bind_error _ hn] at h
      cases h
  · rw [Gen.ensure_bind_error _ hpos] at h
    cases h

/-- Without a transaction there is nothing to rebuild. -/
theorem execAll_bindingCode_noTx (hc : env.tx = none) (n : ℕ) : execAll env (bindingCode n) ⟨d, alt⟩ = none := by
  have hversion : Instr.exec env (.op .OpTxVersion) ⟨d, alt⟩ = none := by
    change env.tx.bind _ = none
    rw [hc, Option.bind_none]
  rw [bindingCode, headerCode, List.cons_append, execAll_cons, hversion, Option.bind_none]

theorem rebuiltPreimage_noTx (hc : env.tx = none) (n : ℕ) : rebuiltPreimage env n = none := by
  by_cases hn : 0 < n ∧ n ≤ maxOutputCount
  · rw [rebuiltPreimage, emitBindingDigest_code hn.1 hn.2]
    simp only [List.dropLast_concat, execute_plain (plain_bindingCode n), execAll_bindingCode_noTx hc]
    rfl
  · obtain ⟨e, he⟩ := emitBindingDigest_error hn
    rw [rebuiltPreimage, he]

/-- What the opcodes rebuild in a transaction. -/
theorem rebuiltPreimage_of_tx (hc : env.tx = some c) (hpos : 0 < n) (hn : n ≤ maxOutputCount) :
    rebuiltPreimage env n = if RebuildFits c n then some (rebuildLayout c n) else none := by
  split_ifs with hfits
  · exact (rebuiltPreimage_eq_some hc).mpr ⟨⟨hpos, hn⟩, hfits, rfl⟩
  · refine Option.eq_none_iff_forall_ne_some.mpr fun pre hpre => hfits ?_
    exact ((rebuiltPreimage_eq_some hc).mp hpre).2.1

/-- **The opcodes of the digest** leave it, or abort if there is none. -/
theorem execAll_rebuildCode (hpos : 0 < n) (hn : n ≤ maxOutputCount) :
    execAll env (rebuildCode n) ⟨d, alt⟩ = (rebuiltDigest env n).map fun m => ⟨m.bytes :: d, alt⟩ := by
  rw [rebuildCode, execAll_append, rebuiltDigest]
  cases hc : env.tx with
  | none =>
    rw [execAll_bindingCode_noTx hc, rebuiltPreimage_noTx hc]
    rfl
  | some c =>
    rw [execAll_bindingCode hc (hn.trans_lt (by decide)), rebuiltPreimage_of_tx hc hpos hn]
    split_ifs <;> rfl

/-- **The digest of a spend**: for its own number of outputs a transaction has the digest that is
signed off-chain, or none if that is refused. -/
theorem rebuiltDigest_length (hc : env.tx = some c) (hpos : 0 < c.tx.outputs.length)
    (hn : c.tx.outputs.length ≤ maxOutputCount) :
    rebuiltDigest env c.tx.outputs.length = (bindingDigest env.sha256 (spendView c)).toOption := by
  have hmap : (bindingDigest env.sha256 (spendView c)).toOption =
      (bindingPreimage (spendView c)).toOption.map env.sha256 := by
    rw [bindingDigest]
    cases bindingPreimage (spendView c) <;> rfl
  rw [hmap, toOption_bindingPreimage hpos, rebuiltDigest, rebuiltPreimage_of_tx hc hpos hn]

/-- A digest that is rebuilt is that of a transaction whose fields fit. -/
theorem rebuiltDigest_eq_some {m : Block 32} : rebuiltDigest env n = some m ↔
    ∃ c, env.tx = some c ∧ (0 < n ∧ n ≤ maxOutputCount) ∧ RebuildFits c n ∧ m = env.sha256 (rebuildLayout c n) := by
  rw [rebuiltDigest, Option.map_eq_some_iff]
  constructor
  · rintro ⟨pre, hpre, rfl⟩
    cases hc : env.tx with
    | none =>
      rw [rebuiltPreimage_noTx hc] at hpre
      cases hpre
    | some c =>
      obtain ⟨hn, hfits, rfl⟩ := (rebuiltPreimage_eq_some hc).mp hpre
      exact ⟨c, rfl, hn, hfits, rfl⟩
  · rintro ⟨c, hc, hn, hfits, rfl⟩
    exact ⟨_, (rebuiltPreimage_eq_some hc).mpr ⟨hn, hfits, rfl⟩, rfl⟩

theorem outputView_injective : Function.Injective outputView := by
  rintro ⟨value, version, script⟩ ⟨value', version', script'⟩ h
  cases h
  rfl

/-- **Transactions of one digest** are alike in all that the script reads of them: the coin, the version,
how many outputs there are, and the outputs that the script was unrolled for. -/
theorem rebuildLayout_inj {c c' : TxContext} {n : ℕ} (hfits : RebuildFits c n) (hfits' : RebuildFits c' n)
    (h : rebuildLayout c n = rebuildLayout c' n) :
    c.tx.version = c'.tx.version ∧ c.outpoint = c'.outpoint ∧ c.tx.outputs.length = c'.tx.outputs.length ∧
      c.tx.outputs.take n = c'.tx.outputs.take n := by
  obtain ⟨⟨-, -, hcount⟩, hn, houts⟩ := hfits
  obtain ⟨⟨-, -, hcount'⟩, hn', houts'⟩ := hfits'
  obtain ⟨⟨hversion, htxid, hindex, hlen⟩, hrest⟩ :=
    headerLayout_inj (hcount.trans (by norm_num)) (hcount'.trans (by norm_num)) h
  have hviews (outputs : List TransactionOutput) (hle : n ≤ outputs.length) (hall : ∀ o ∈ outputs.take n, (outputView o).Fits) :
      ((outputs.take n).map outputView).length = n ∧ ∀ o ∈ (outputs.take n).map outputView, o.Fits := by
    refine ⟨by simpa using hle, ?_⟩
    rwa [List.forall_mem_map]
  have hprefix := delimited_outputLayout.flatMap n (a := (c.tx.outputs.take n).map outputView)
    (b := (c'.tx.outputs.take n).map outputView) (r := []) (s := []) (hviews _ hn houts) (hviews _ hn' houts')
    (by simpa only [List.flatMap_map, List.append_nil] using hrest)
  have houtpoint : c.outpoint = c'.outpoint := by
    rcases hc : c.outpoint with ⟨txid, index⟩
    rcases hc' : c'.outpoint with ⟨txid', index'⟩
    rw [hc, hc'] at htxid hindex
    obtain rfl : txid = txid' := htxid
    obtain rfl : index = index' := hindex
    rfl
  exact ⟨hversion, houtpoint, hlen, List.map_injective_iff.mpr outputView_injective hprefix.1⟩

end KaspaPqv.VaultCore
