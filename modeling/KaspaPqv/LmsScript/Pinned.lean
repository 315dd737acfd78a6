import KaspaPqv.LmsScript.Verify

/-!
# What a redeem script pins

A vault's address is the hash of its redeem script. All that an address is to commit to can
be read off the instructions: the number of outputs off the code of the binding digest, the
identifier and the leaf off the first prefix that is pushed, and the root off the end.

## What is proved

* `succeeds_emitVaultScript` — there is a script for every leaf.
* `emitVaultScript_inj` — the script tells the key, the leaf and the number of outputs.
-/

namespace KaspaPqv.LmsScript

open KaspaPqv.Lib KaspaPqv.Script

variable {P : LmsParams} {key key' : LmsPublicKey} {q q' : ℕ}

/-! ### There is a script -/

section succeeds

variable {σ : Type}

theorem succeeds_emitCoefficient {i : ℕ} (hi : i < P.p) : (emitCoefficient P i : Gen σ Instr String Unit).Succeeds :=
  .seq (.ensure hi) <| .seq (.emit _) <| .seq (.emit _) <| .seq (.emit _) <| .seq (.emit _) <| .seq (.emit _) <|
    .seq (.emit _) <| .seq (.emit _) <| .seq (.onlyIf (.seq (.emit _) (.emit _))) <| .seq (.emit _) (.emit _)

theorem succeeds_emitChecksumAndV (hu : P.u ≤ P.p) : (emitChecksumAndV P : Gen σ Instr String Unit).Succeeds := by
  have hterm (i : ℕ) (hi : i < P.u) : (emitChecksumTerm P i : Gen σ Instr String Unit).Succeeds :=
    .seq (succeeds_emitCoefficient (hi.trans_le hu)) fun g => ⟨g, _, rfl⟩
  exact .seq (.emit _) <| .seq (.emit _) <| .seq (.forRange hterm) fun g => ⟨g, _, rfl⟩

theorem succeeds_emitChains : (emitChains P key q : Gen σ Instr String Unit).Succeeds := by
  have hstep (i j : ℕ) : (emitChainStep key q i j : Gen σ Instr String Unit).Succeeds := fun g => ⟨g, _, rfl⟩
  refine .forRange fun i hi => .seq (succeeds_emitCoefficient hi) <| .seq (.emit _) <| .seq (.emit _) <|
    .seq (.forRange fun j _ => hstep i j) fun g => ⟨g, _, rfl⟩

theorem succeeds_emitCandidateKey : (emitCandidateKey P key q : Gen σ Instr String Unit).Succeeds :=
  .seq (.emit _) <| .seq (.forRange fun _ _ => .emit _) <| .seq (.emit _) <| .seq (.emit _) <| .seq (.emit _) <|
    .seq (.forRange fun _ _ => .seq (.emit _) (.emit _)) (.emit _)

theorem succeeds_emitMerkleLoop (node : ℕ) : (emitMerkleLoop key node : Gen σ Instr String Unit).Succeeds := by
  induction node using Nat.strong_induction_on with
  | _ node ih =>
    rw [emitMerkleLoop]
    split_ifs with h
    · have hpair : (emitMerklePair key node : Gen σ Instr String Unit).Succeeds := by
        unfold emitMerklePair
        split_ifs <;> exact fun g => ⟨g, _, rfl⟩
      exact .seq (.seq hpair (.emit _)) (ih (node / 2) (by omega))
    · exact .pure

/-- **There is a script** for every leaf and every number of outputs. -/
theorem succeeds_emitVaultScript (hu : P.u ≤ P.p) (hq : q < P.leafCount) {n : ℕ} (hpos : 0 < n)
    (hn : n ≤ VaultCore.maxOutputCount) : (emitVaultScript P key q n : Gen σ Instr String Unit).Succeeds := by
  have hdigest : (emitMessageDigest key q : Gen σ Instr String Unit).Succeeds := fun g => ⟨g, _, rfl⟩
  refine .seq (fun g => ⟨g, _, VaultCore.emitBindingDigest_apply hpos hn g⟩) <| .seq (.ensure hq) <| .seq hdigest <|
    .seq (succeeds_emitChecksumAndV hu) <| .seq succeeds_emitChains <| .seq succeeds_emitCandidateKey <|
    .seq (.seq (.emit _) <| .seq (.emit _) <| .seq (.emit _) <| .seq (.emit _) (succeeds_emitMerkleLoop _)) <|
    .seq (.emit _) (.emit _)

end succeeds

/-! ### It tells what it was made for -/

theorem hashPrefix_inj {id id' : Block 16} {idx idx' domain : ℕ} (hidx : idx < 2 ^ 32) (hidx' : idx' < 2 ^ 32)
    (h : hashPrefix id idx domain = hashPrefix id' idx' domain) : id = id' ∧ idx = idx' := by
  unfold hashPrefix at h
  obtain ⟨hid, hrest⟩ := List.append_inj (List.append_cancel_right h) (by simp)
  exact ⟨Block.ext hid, beBytes_inj hidx hidx' hrest⟩

/-- The first two instructions of the verifier. -/
theorem emitMessageDigest_code {is : List Instr} {g : Unit}
    (h : (emitMessageDigest key q : Gen Unit Instr String Unit) () = .ok ((), g, is)) :
    ∃ rest, is = .op .OpSwap :: .push (hashPrefix key.id q D_MESG) :: rest := by
  cases h
  exact ⟨_, rfl⟩

/-- What the verifier begins and ends with. -/
theorem emitVerify_code {is : List Instr} {g : Unit}
    (h : (emitVerify P key q : Gen Unit Instr String Unit) () = .ok ((), g, is)) :
    q < P.leafCount ∧ ∃ middle,
      is = .op .OpSwap :: .push (hashPrefix key.id q D_MESG) :: (middle ++ [.push key.root.bytes, .op .OpEqual]) := by
  by_cases hq : q < P.leafCount
  · rw [emitVerify, Gen.ensure_bind _ hq] at h
    obtain ⟨⟨⟩, g₁, digest, rest, hdigest, hrest, rfl⟩ := Gen.bind_eq_ok.mp h
    obtain ⟨after, rfl⟩ := emitMessageDigest_code hdigest
    obtain ⟨⟨⟩, g₂, checksum, rest₂, -, hrest₂, rfl⟩ := Gen.bind_eq_ok.mp hrest
    obtain ⟨⟨⟩, g₃, chains, rest₃, -, hrest₃, rfl⟩ := Gen.bind_eq_ok.mp hrest₂
    obtain ⟨⟨⟩, g₄, candidate, rest₄, -, hrest₄, rfl⟩ := Gen.bind_eq_ok.mp hrest₃
    obtain ⟨⟨⟩, g₅, path, rest₅, -, hrest₅, rfl⟩ := Gen.bind_eq_ok.mp hrest₄
    cases hrest₅
    exact ⟨hq, after ++ checksum ++ chains ++ candidate ++ path, by simp⟩
  · rw [emitVerify, Gen.ensure_bind_error _ hq] at h
    cases h

/-- The code of a redeem script: that of the digest, and that of the verifier. -/
theorem emitVaultScript_split {n : ℕ} {is : List Instr}
    (h : (emitVaultScript P key q n : Gen Unit Instr String Unit).code () = .ok is) :
    ∃ verify g, (emitVerify P key q : Gen Unit Instr String Unit) () = .ok ((), g, verify) ∧
      is = VaultCore.bindingCode n ++ .op .OpSHA256 :: verify := by
  obtain ⟨⟨⟩, g, hgen⟩ := Gen.code_eq_ok.mp h
  obtain ⟨⟨⟩, g₁, digest, verify, hdigest, hverify, rfl⟩ := Gen.bind_eq_ok.mp hgen
  by_cases hpos : n > 0
  · by_cases hn : n ≤ VaultCore.maxOutputCount
    · rw [VaultCore.emitBindingDigest_apply hpos hn] at hdigest
      cases hdigest
      exact ⟨verify, g, hverify, by simp⟩
    · rw [VaultCore.emitBindingDigest, Gen.ensure_bind _ hpos, Gen.ensure_bind_error _ hn] at hdigest
      cases hdigest
  · rw [VaultCore.emitBindingDigest, Gen.ensure_bind_error _ hpos] at hdigest
    cases hdigest

/-- **A redeem script tells all it was made for.** -/
theorem emitVaultScript_inj {n n' : ℕ} (hP : P.leafCount ≤ 2 ^ 32) {is : List Instr}
    (h : (emitVaultScript P key q n : Gen Unit Instr String Unit).code () = .ok is)
    (h' : (emitVaultScript P key' q' n' : Gen Unit Instr String Unit).code () = .ok is) :
    key = key' ∧ q = q' ∧ n = n' := by
  obtain ⟨verify, g, hverify, rfl⟩ := emitVaultScript_split h
  obtain ⟨verify', g', hverify', hsplit⟩ := emitVaultScript_split h'
  obtain ⟨rfl, rfl⟩ := VaultCore.bindingCode_inj hsplit
  obtain ⟨hq, middle, rfl⟩ := emitVerify_code hverify
  obtain ⟨hq', middle', hsame⟩ := emitVerify_code hverify'
  simp only [List.cons.injEq, Instr.push.injEq, true_and] at hsame
  obtain ⟨hpfx, htail⟩ := hsame
  obtain ⟨hid, rfl⟩ := hashPrefix_inj (hq.trans_le hP) (hq'.trans_le hP) hpfx
  obtain ⟨-, hroot⟩ := List.append_inj' htail rfl
  simp only [List.cons.injEq, Instr.push.injEq, and_true] at hroot
  obtain ⟨id, root⟩ := key
  obtain ⟨id', root'⟩ := key'
  obtain rfl : id = id' := hid
  obtain rfl : root = root' := Block.ext hroot
  exact ⟨rfl, rfl, rfl⟩

end KaspaPqv.LmsScript
