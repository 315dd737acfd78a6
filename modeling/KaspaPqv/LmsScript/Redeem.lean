import KaspaPqv.LmsScript.Witness
import KaspaPqv.VaultCore.RebuiltDigest

/-!
# The redeem script of a leaf

The redeem script of a leaf is the verifier for the leaf behind the digest of the transaction. The
verifier never aborts on as many items as a signature has, and asks for nothing about them; so
what unlocks a coin of the leaf is known exactly, whatever is put on the stack.

## What is proved

* `execute_vaultScript` — the redeem script is the verifier behind the digest.
* `vaultScript_accepts_iff` — which items unlock a coin in which transaction: those that the RFC
  accepts as a signature of the transaction's digest.
-/

namespace KaspaPqv.LmsScript

open KaspaPqv.Lib KaspaPqv.Script KaspaPqv.VaultCore

variable {P : LmsParams} {key : LmsPublicKey} {q n : ℕ} {env : Env} {is : List Instr}

/-- What a redeem script is made of. -/
theorem vaultScript_code (h : (emitVaultScript P key q n : Gen Unit Instr String Unit).code () = .ok is) :
    (0 < n ∧ n ≤ maxOutputCount) ∧ ∃ is', (emitVerify P key q : Gen Unit Instr String Unit).code () = .ok is' ∧
      is = rebuildCode n ++ is' := by
  obtain ⟨⟨⟩, ⟨⟩, hemit⟩ := Gen.code_eq_ok.mp h
  obtain ⟨⟨⟩, ⟨⟩, digest, is', hdigest, hverify, rfl⟩ := Gen.bind_eq_ok.mp hemit
  have hn := outputCount_of_emit hdigest
  rw [emitBindingDigest_apply hn.1 hn.2] at hdigest
  cases hdigest
  exact ⟨hn, is', Gen.code_eq_ok.mpr ⟨_, _, hverify⟩, rfl⟩

/-- **The redeem script** puts the digest of the transaction on the items and is the verifier then. -/
theorem execute_vaultScript (hn : 0 < n ∧ n ≤ maxOutputCount) (items : List Bytes) :
    execute env (rebuildCode n ++ is) items = (rebuiltDigest env n).bind fun m => execute env is (m.bytes :: items) := by
  have hdigest : run env (rebuildCode n) ⟨⟨items, []⟩, []⟩ =
      (rebuiltDigest env n).map fun m => ⟨⟨m.bytes :: items, []⟩, []⟩ := by
    rw [run_plain (plain_rebuildCode n) rfl, execAll_rebuildCode hn.1 hn.2, Option.map_map]
    rfl
  rw [execute, run_append, hdigest]
  cases rebuiltDigest env n with
  | none => rfl
  | some m => rfl

section leaf

variable (hmem : P ∈ LmsParams.constants) (hw : P.w = 2 ∨ P.w = 4) (hq : q < 2 ^ P.h)
include hmem hw hq

/-- The verifier on the digest and a whole signature. -/
theorem execute_signature (hverify : (emitVerify P key q : Gen Unit Instr String Unit).code () = .ok is) (env : Env)
    (m C : Bytes) (y path : ℕ → Bytes) : execute env is (m :: witnessItems P C y path) =
      some [boolBytes (Rfc8554.candidateRoot env.sha256 P.w P.h key.id.bytes q C y path m = key.root.bytes)] := by
  have hrun := execute_witnessItems hmem hw hq env m C y path [] hverify
  rwa [List.append_nil] at hrun

/-- **The redeem script on a whole signature** compares the RFC's candidate root of the digest with the key's. -/
theorem execute_leaf (hcode : (emitVaultScript P key q n : Gen Unit Instr String Unit).code () = .ok is) (env : Env)
    (C : Bytes) (y path : ℕ → Bytes) : execute env is (witnessItems P C y path) = (rebuiltDigest env n).map fun m =>
      [boolBytes (Rfc8554.candidateRoot env.sha256 P.w P.h key.id.bytes q C y path m.bytes = key.root.bytes)] := by
  obtain ⟨hn, is', hverify, rfl⟩ := vaultScript_code hcode
  rw [execute_vaultScript hn]
  cases rebuiltDigest env n with
  | none => rfl
  | some m => exact execute_signature hmem hw hq hverify env m.bytes C y path

/-- **What unlocked a coin of a leaf** was a signature of the digest. -/
theorem accepts_of_execute (hcode : (emitVaultScript P key q n : Gen Unit Instr String Unit).code () = .ok is)
    {items : List Bytes} {item : Bytes} (hexec : execute env is items = some [item]) (htrue : isTrue item) :
    ∃ (m : Block 32) (C : Bytes) (y path : ℕ → Bytes), rebuiltDigest env n = some m ∧
      items = witnessItems P C y path ∧
      Rfc8554.Accepts env.sha256 P.w P.h key.id.bytes key.root.bytes q C y path m.bytes := by
  obtain ⟨hn, is', hverify, rfl⟩ := vaultScript_code hcode
  rw [execute_vaultScript hn] at hexec
  obtain ⟨m, hm, hbare⟩ := Option.bind_eq_some_iff.mp hexec
  obtain ⟨C, y, path, rfl⟩ := exists_witnessItems P _ (length_of_execute hmem hw hq hverify hbare)
  rw [execute_signature hmem hw hq hverify] at hbare
  obtain ⟨rfl, -⟩ := List.cons.inj (Option.some.inj hbare)
  have hroot : Rfc8554.candidateRoot env.sha256 P.w P.h key.id.bytes q C y path m.bytes = key.root.bytes :=
    isTrue_decide.mp htrue
  exact ⟨m, C, y, path, hm, rfl, hroot⟩

/-- **What unlocks a coin of a leaf**: for every parameter set of depth `2` or `4`, every key, every leaf
and every number of outputs, in any transaction or none, the redeem script ends with one item, a
true one, exactly if there is a digest, and the items are as many as a signature has and the RFC
accepts them as one of the digest. -/
theorem vaultScript_accepts_iff (hcode : (emitVaultScript P key q n : Gen Unit Instr String Unit).code () = .ok is)
    (env : Env) (items : List Bytes) :
    (∃ item, execute env is items = some [item] ∧ isTrue item) ↔
      ∃ (m : Block 32) (C : Bytes) (y path : ℕ → Bytes), rebuiltDigest env n = some m ∧
        items = witnessItems P C y path ∧
        Rfc8554.Accepts env.sha256 P.w P.h key.id.bytes key.root.bytes q C y path m.bytes := by
  constructor
  · rintro ⟨item, hexec, htrue⟩
    exact accepts_of_execute hmem hw hq hcode hexec htrue
  · rintro ⟨m, C, y, path, hm, rfl, haccepts⟩
    have hroot : Rfc8554.candidateRoot env.sha256 P.w P.h key.id.bytes q C y path m.bytes = key.root.bytes := haccepts
    refine ⟨_, ?_, isTrue_decide.mpr hroot⟩
    rw [execute_leaf hmem hw hq hcode, hm, Option.map_some]

end leaf

/-- The canonical spend, under a hash function with one value. -/
theorem vaultScript_accepts_iff_canonical :
    ∃ is, (emitVaultScript .sha256H15W2 ⟨Block.zero 16, Block.zero 32⟩ 3 2 : Gen Unit Instr String Unit).code () =
        .ok is ∧
      ∀ items, (∃ item, execute ⟨fun _ => Block.zero 32, some canonicalSpend⟩ is items = some [item] ∧ isTrue item) ↔
        ∃ (m : Block 32) (C : Bytes) (y path : ℕ → Bytes),
          rebuiltDigest ⟨fun _ => Block.zero 32, some canonicalSpend⟩ 2 = some m ∧
          items = witnessItems .sha256H15W2 C y path ∧ Rfc8554.Accepts (fun _ => Block.zero 32) 2 15
            (Block.zero 16).bytes (Block.zero 32).bytes 3 C y path m.bytes := by
  obtain ⟨is, hcode⟩ := emitVaultScript_code (P := .sha256H15W2) (by decide) (.inl rfl) ⟨Block.zero 16, Block.zero 32⟩
    (q := 3) (by decide) (n := 2) (by decide) (by decide)
  exact ⟨is, hcode, vaultScript_accepts_iff (by decide) (.inl rfl) (by decide) hcode _⟩

end KaspaPqv.LmsScript
