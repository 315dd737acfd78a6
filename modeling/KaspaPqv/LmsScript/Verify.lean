import KaspaPqv.LmsScript.Ots
import KaspaPqv.LmsScript.Rfc8554
import KaspaPqv.VaultCore.BindingScript

/-!
# LMS verification in script

The verifier for one leaf, unrolled: the message digest, its checksum, the Winternitz
chains, the candidate for the one-time key, and the Merkle path. The leaf index is a
constant of the script, so which sibling is on the left is settled when it is emitted;
how far a chain is walked is not, and every step of it is gated on the coefficient.

Each phase is one generator, and one lemma that says what its code does to the stacks.

## What is proved

* `runs_emitVerify` — for every parameter set with a depth of `2` or `4`, what the
  script leaves is the comparison of the RFC's candidate root with the key's.
* `emitVerify_rfc8554` — run on a witness, it never aborts and leaves one item, which is
  true exactly if the RFC accepts.
-/

namespace KaspaPqv.LmsScript

open KaspaPqv.Lib KaspaPqv.Script

/-- The domain separators. -/
def D_PBLC : ℕ := 0x8080
def D_MESG : ℕ := 0x8181
def D_LEAF : ℕ := 0x8282
def D_INTR : ℕ := 0x8383

/-- A public key, as it is pinned into a redeem script. -/
structure LmsPublicKey where
  /-- The key identifier `I`. -/
  id : Block 16
  /-- The Merkle root `T[1]`. -/
  root : Block 32

/-- What a hash input starts with: the identifier, an index and a domain. -/
def hashPrefix (id : Block 16) (idx domain : ℕ) : Bytes := id.bytes ++ beBytes 4 idx ++ beBytes 2 domain

variable {σ : Type}

/-! ### The script -/

/-- The message digest `Q`: `[…, C, message]` to `[…, Q]`. -/
def emitMessageDigest (key : LmsPublicKey) (q : ℕ) : Gen σ Instr String Unit := do
  ScriptWriter.op .OpSwap
  ScriptWriter.data (hashPrefix key.id q D_MESG)
  ScriptWriter.op .OpSwap
  ScriptWriter.op .OpCat
  ScriptWriter.op .OpSwap
  ScriptWriter.op .OpCat
  ScriptWriter.op .OpSHA256

/-- One turn of the loop that sums up the checksum. -/
def emitChecksumTerm (P : LmsParams) (i : ℕ) : Gen σ Instr String Unit := do
  emitCoefficient P i
  ScriptWriter.num P.maxCoef
  ScriptWriter.op .OpSwap
  ScriptWriter.op .OpSub
  ScriptWriter.op .OpFromAltStack
  ScriptWriter.op .OpAdd
  ScriptWriter.op .OpToAltStack

/-- The digest and its checksum: `[…, Q]` to `[…, V]`. -/
def emitChecksumAndV (P : LmsParams) : Gen σ Instr String Unit := do
  ScriptWriter.num 0
  ScriptWriter.op .OpToAltStack
  Gen.forRange P.u (emitChecksumTerm P)
  ScriptWriter.op .OpFromAltStack
  ScriptWriter.num (2 ^ P.ls : ℕ)
  ScriptWriter.op .OpMul
  -- two bytes, little-endian, and then swapped
  ScriptWriter.num 2
  ScriptWriter.op .OpNum2Bin
  ScriptWriter.op .OpDup
  ScriptWriter.num 1
  ScriptWriter.num 2
  ScriptWriter.op .OpSubstr
  ScriptWriter.op .OpSwap
  ScriptWriter.num 0
  ScriptWriter.num 1
  ScriptWriter.op .OpSubstr
  ScriptWriter.op .OpCat
  ScriptWriter.op .OpCat

/-- The hash of one step of a chain. -/
def emitChainHash (key : LmsPublicKey) (q i j : ℕ) : Gen σ Instr String Unit := do
  ScriptWriter.data (hashPrefix key.id q i ++ [UInt8.ofNat j])
  ScriptWriter.op .OpSwap
  ScriptWriter.op .OpCat
  ScriptWriter.op .OpSHA256

/-- One step of a chain, gated on the coefficient on the alt stack. -/
def emitChainStep (key : LmsPublicKey) (q i j : ℕ) : Gen σ Instr String Unit := do
  ScriptWriter.op .OpFromAltStack
  ScriptWriter.op .OpDup
  ScriptWriter.op .OpToAltStack
  ScriptWriter.num j
  ScriptWriter.op .OpSwap
  ScriptWriter.op .OpGreaterThanOrEqual
  ScriptWriter.op .OpIf
  emitChainHash key q i j
  ScriptWriter.op .OpEndIf

/-- One chain: `[…, y[i], V]` to `[…, V]`, its end going to the alt stack. -/
def emitChain (P : LmsParams) (key : LmsPublicKey) (q i : ℕ) : Gen σ Instr String Unit := do
  emitCoefficient P i
  ScriptWriter.op .OpToAltStack
  ScriptWriter.op .OpSwap
  Gen.forRange P.maxCoef (emitChainStep key q i)
  ScriptWriter.op .OpFromAltStack
  ScriptWriter.op .OpDrop
  ScriptWriter.op .OpToAltStack

/-- The chains. -/
def emitChains (P : LmsParams) (key : LmsPublicKey) (q : ℕ) : Gen σ Instr String Unit :=
  Gen.forRange P.p (emitChain P key q)

/-- The candidate for the one-time key, from the ends of the chains on the alt stack. -/
def emitCandidateKey (P : LmsParams) (key : LmsPublicKey) (q : ℕ) : Gen σ Instr String Unit := do
  ScriptWriter.op .OpDrop
  Gen.forRange P.p fun _ => ScriptWriter.op .OpFromAltStack
  ScriptWriter.data (hashPrefix key.id q D_PBLC)
  ScriptWriter.op .OpSwap
  ScriptWriter.op .OpCat
  Gen.forRange (P.p - 1) fun _ => do
    ScriptWriter.op .OpSwap
    ScriptWriter.op .OpCat
  ScriptWriter.op .OpSHA256

/-- The input of the hash of a node's parent, the sibling on the left if `node` is odd. -/
def emitMerklePair (key : LmsPublicKey) (node : ℕ) : Gen σ Instr String Unit :=
  if node % 2 = 1 then do
    ScriptWriter.op .OpSwap
    ScriptWriter.data (hashPrefix key.id (node / 2) D_INTR)
    ScriptWriter.op .OpSwap
    ScriptWriter.op .OpCat
    ScriptWriter.op .OpSwap
    ScriptWriter.op .OpCat
  else do
    ScriptWriter.data (hashPrefix key.id (node / 2) D_INTR)
    ScriptWriter.op .OpSwap
    ScriptWriter.op .OpCat
    ScriptWriter.op .OpSwap
    ScriptWriter.op .OpCat

/-- One level of the Merkle path: `[…, path[i], tmp]` to the parent of `node`. -/
def emitMerkleLevel (key : LmsPublicKey) (node : ℕ) : Gen σ Instr String Unit := do
  emitMerklePair key node
  ScriptWriter.op .OpSHA256

/-- `while node > 1`. -/
def emitMerkleLoop (key : LmsPublicKey) (node : ℕ) : Gen σ Instr String Unit :=
  if _h : 1 < node then do
    emitMerkleLevel key node
    emitMerkleLoop key (node / 2)
  else pure ()
termination_by node

/-- The Merkle path from the leaf to the root. -/
def emitMerklePath (P : LmsParams) (key : LmsPublicKey) (q : ℕ) : Gen σ Instr String Unit := do
  let node := P.leafCount + q
  ScriptWriter.data (hashPrefix key.id node D_LEAF)
  ScriptWriter.op .OpSwap
  ScriptWriter.op .OpCat
  ScriptWriter.op .OpSHA256
  emitMerkleLoop key node

/-- The complete verifier for leaf `q`. -/
def emitVerify (P : LmsParams) (key : LmsPublicKey) (q : ℕ) : Gen σ Instr String Unit := do
  Gen.ensure (q < P.leafCount) s!"leaf {q} out of range for h = {P.h}"
  emitMessageDigest key q
  emitChecksumAndV P
  emitChains P key q
  emitCandidateKey P key q
  emitMerklePath P key q
  ScriptWriter.data key.root.bytes
  ScriptWriter.op .OpEqual

/-- The redeem script of a vault: the digest of the transaction, and its signature. -/
def emitVaultScript (P : LmsParams) (key : LmsPublicKey) (q outputCount : ℕ) : Gen σ Instr String Unit := do
  VaultCore.emitBindingDigest outputCount
  emitVerify P key q

/-! ### What the phases do -/

section phases

variable {env : Env} {P : LmsParams} {key : LmsPublicKey} {q : ℕ} {d alt : List Bytes}

theorem runs_emitMessageDigest (C m : Bytes) :
    Runs env (emitMessageDigest key q : Gen σ Instr String Unit) ⟨m :: C :: d, alt⟩
      ⟨(env.sha256 (hashPrefix key.id q D_MESG ++ C ++ m)).bytes :: d, alt⟩ :=
  .seq (.op rfl) <| .seq (.data _) <| .seq (.op rfl) <| .seq (.op rfl) <| .seq (.op rfl) <|
    .seq (.op rfl) (.op rfl)

/-- The sum over the first `k` coefficients that the checksum is made of. -/
def checksumSum (P : LmsParams) (Q : Bytes) (k : ℕ) : ℕ :=
  (List.range k).foldl (fun sum i => sum + (P.maxCoef - coef Q i P.w)) 0

theorem checksumSum_succ (Q : Bytes) (k : ℕ) :
    checksumSum P Q (k + 1) = checksumSum P Q k + (P.maxCoef - coef Q k P.w) := by
  simp [checksumSum, List.range_succ]

theorem checksumSum_le (Q : Bytes) (k : ℕ) : checksumSum P Q k ≤ k * P.maxCoef := by
  induction k with
  | zero => simp [checksumSum]
  | succ k ih =>
    rw [checksumSum_succ, Nat.succ_mul]
    omega

/-- The sign bit of the two bytes of the checksum is free. -/
theorem checksum_lt (hP : P.Facts) (Q : Bytes) : checksumSum P Q P.u * 2 ^ P.ls < 2 ^ 15 :=
  (Nat.mul_le_mul_right _ (checksumSum_le Q P.u)).trans_lt hP.checksum_lt

theorem cksm_eq (hP : P.Facts) (Q : Bytes) : cksm Q P = checksumSum P Q P.u * 2 ^ P.ls := by
  rw [cksm, Nat.shiftLeft_eq]
  exact Nat.mod_eq_of_lt ((checksum_lt hP Q).trans (by norm_num))

/-- What reading the digest takes of a parameter set, whatever its checksum. -/
structure LmsParams.CoversDigest (P : LmsParams) : Prop where
  w_dvd : P.w ∣ 8
  w_pos : 0 < P.w
  u_mul : P.u * P.w = 8 * 32
  u_le : P.u ≤ P.p
  maxCoef_lt : P.maxCoef < 256

theorem LmsParams.Facts.coversDigest (hP : P.Facts) : P.CoversDigest :=
  ⟨hP.w_dvd, hP.w_pos, hP.u_mul, hP.u_le, hP.maxCoef_lt⟩

theorem checksumSum_lt (hP : P.CoversDigest) (Q : Bytes) {k : ℕ} (hk : k ≤ P.u) : checksumSum P Q k < 2 ^ 62 := by
  have hu : P.u ≤ 256 := by
    have := hP.u_mul
    have := Nat.le_mul_of_pos_right P.u hP.w_pos
    omega
  calc checksumSum P Q k ≤ k * P.maxCoef := checksumSum_le Q k
    _ ≤ 256 * 255 := Nat.mul_le_mul (hk.trans hu) (Nat.le_of_lt_succ hP.maxCoef_lt)
    _ < 2 ^ 62 := by norm_num

theorem runs_emitChecksumTerm (hP : P.CoversDigest) {Q : Bytes} (hQ : Q.length = 32) {i : ℕ} (hi : i < P.u) :
    Runs env (emitChecksumTerm P i : Gen σ Instr String Unit)
      ⟨Q :: d, encodeNum (checksumSum P Q i) :: alt⟩ ⟨Q :: d, encodeNum (checksumSum P Q (i + 1)) :: alt⟩ := by
  have hbit : i * P.w / 8 < 32 := by
    have := hP.u_mul
    have := Nat.mul_lt_mul_of_pos_right hi hP.w_pos
    omega
  have hmax := hP.maxCoef_lt
  have hcoef : coef Q i P.w ≤ P.maxCoef := coef_le Q i P.w
  have hsum : checksumSum P Q i < 2 ^ 62 := checksumSum_lt hP Q hi.le
  rw [checksumSum_succ, Nat.add_comm]
  refine .seq (runs_emitCoefficient (Nat.le_of_dvd (by norm_num) hP.w_dvd) (hi.trans_le hP.u_le)
    (by omega) (by omega)) <| .seq (.num P.maxCoef) <| .seq (.op rfl) <| .seq (.op (exec_sub hcoef (by omega))) <|
    .seq (.op rfl) <| .seq (.op (exec_add (by omega))) ?_
  rw [Nat.add_comm]
  exact .op rfl

/-- The sum is on the alt stack. -/
theorem runs_emitChecksumTerms (hP : P.CoversDigest) (Q : Block 32) :
    Runs env (Gen.forRange P.u (emitChecksumTerm P) : Gen σ Instr String Unit)
      ⟨Q.bytes :: d, encodeNum (0 : ℕ) :: alt⟩ ⟨Q.bytes :: d, encodeNum (checksumSum P Q.bytes P.u) :: alt⟩ :=
  .forRange (fun k => ⟨Q.bytes :: d, encodeNum (checksumSum P Q.bytes k) :: alt⟩)
    fun _ hi => runs_emitChecksumTerm hP Q.2 hi

/-- **The checksum phase** leaves the string the coefficients are read from, if the checksum
leaves the sign bit of its two bytes free. -/
theorem runs_emitChecksumAndV (hP : P.CoversDigest) (hls : P.ls ≤ 16) (Q : Block 32)
    (hlt : checksumSum P Q.bytes P.u * 2 ^ P.ls < 2 ^ 15) :
    Runs env (emitChecksumAndV P : Gen σ Instr String Unit) ⟨Q.bytes :: d, alt⟩
      ⟨coefficientSource Q P :: d, alt⟩ := by
  have hsum := checksumSum_lt hP Q.bytes le_rfl
  have hpow : 2 ^ P.ls < 2 ^ 63 := Nat.pow_lt_pow_right (by norm_num) (hls.trans_lt (by norm_num))
  have hswap (c : ℕ) : slice (leBytes 2 c) 1 2 ++ slice (leBytes 2 c) 0 1 = beBytes 2 c := rfl
  have hcksm : cksm Q.bytes P = checksumSum P Q.bytes P.u * 2 ^ P.ls := by
    rw [cksm, Nat.shiftLeft_eq]
    exact Nat.mod_eq_of_lt (hlt.trans (by norm_num))
  rw [coefficientSource, hcksm, ← hswap]
  refine .seq (.num 0) <| .seq (.op rfl) <| .seq (runs_emitChecksumTerms hP Q) <| .seq (.op rfl) <|
    .seq (.num (2 ^ P.ls)) <| .seq (.op (exec_mul (by omega) hpow (by omega))) <| .seq (.num 2) <|
    .seq (.op (exec_num2Bin (by norm_num) hlt)) <| .seq (.op rfl) <| .seq (.num 1) <| .seq (.num 2) <|
    .seq (.op (exec_substr (by norm_num) (by simp) (by norm_num))) <| .seq (.op rfl) <| .seq (.num 0) <|
    .seq (.num 1) <| .seq (.op (exec_substr (by norm_num) (by simp) (by norm_num))) <| .seq (.op rfl) (.op rfl)

/-- The hash prefix is the RFC's. -/
theorem hashPrefix_eq (id : Block 16) (idx domain : ℕ) :
    hashPrefix id idx domain = id.bytes ++ Rfc8554.u32str idx ++ Rfc8554.u16str domain := rfl

theorem runs_emitChainHash (i j : ℕ) (tmp : Bytes) :
    Runs env (emitChainHash key q i j : Gen σ Instr String Unit) ⟨tmp :: d, alt⟩
      ⟨(env.sha256 (key.id.bytes ++ Rfc8554.u32str q ++ Rfc8554.u16str i ++ Rfc8554.u8str j ++ tmp)).bytes :: d,
        alt⟩ :=
  .seq (.data _) <| .seq (.op rfl) <| .seq (.op rfl) (.op rfl)

/-- **A step of a chain**: hashed if the coefficient is reached, left alone before. -/
theorem runs_emitChainStep {a : ℕ} (ha : a < 2 ^ 63) (i : ℕ) {j : ℕ} (hj : j < 2 ^ 63) (y : Bytes) :
    Runs env (emitChainStep key q i j : Gen σ Instr String Unit)
      ⟨Rfc8554.chain env.sha256 key.id.bytes q i a j y :: d, encodeNum a :: alt⟩
      ⟨Rfc8554.chain env.sha256 key.id.bytes q i a (j + 1) y :: d, encodeNum a :: alt⟩ := by
  refine .seq (.op rfl) <| .seq (.op rfl) <| .seq (.op rfl) <| .seq (.num j) <| .seq (.op rfl) <|
    .seq (.op (exec_greaterThanOrEqual hj ha)) <| .block (runs_emitChainHash i j _) ?_ ?_
  · intro h
    rw [Rfc8554.chain_succ _ _ _ (by simpa using h)]
  · intro h
    have hlt : j < a := by simpa using h
    rw [Rfc8554.chain_self _ _ _ _ hlt, Rfc8554.chain_self _ _ _ _ hlt.le]

/-- **One chain**, from its coefficient to its end. -/
theorem runs_emitChain (hP : P.Facts) {V : Bytes} (hV : V.length = 34) {i : ℕ} (hi : i < P.p) (y : Bytes) :
    Runs env (emitChain P key q i : Gen σ Instr String Unit) ⟨V :: y :: d, alt⟩
      ⟨V :: d, Rfc8554.chain env.sha256 key.id.bytes q i (coef V i P.w) P.maxCoef y :: alt⟩ := by
  have hmax := hP.maxCoef_lt
  have hcoef : coef V i P.w ≤ P.maxCoef := coef_le V i P.w
  have hbit : i * P.w / 8 < 34 := by
    have := hP.p_le
    have := Nat.mul_lt_mul_of_pos_right hi hP.w_pos
    omega
  have hloop : Runs env (Gen.forRange P.maxCoef (emitChainStep key q i) : Gen σ Instr String Unit)
      ⟨y :: V :: d, encodeNum (coef V i P.w) :: alt⟩
      ⟨Rfc8554.chain env.sha256 key.id.bytes q i (coef V i P.w) P.maxCoef y :: V :: d,
        encodeNum (coef V i P.w) :: alt⟩ := by
    have hstart : Rfc8554.chain env.sha256 key.id.bytes q i (coef V i P.w) 0 y = y :=
      Rfc8554.chain_self _ _ _ _ (Nat.zero_le _) y
    have hrun : Runs env (Gen.forRange P.maxCoef (emitChainStep key q i) : Gen σ Instr String Unit) _ _ :=
      .forRange (fun j => ⟨Rfc8554.chain env.sha256 key.id.bytes q i (coef V i P.w) j y :: V :: d,
        encodeNum (coef V i P.w) :: alt⟩) fun j hj => runs_emitChainStep (by omega) i (by omega) y
    simpa only [hstart] using hrun
  exact .seq (runs_emitCoefficient (Nat.le_of_dvd (by norm_num) hP.w_dvd) hi (by omega) (by omega)) <|
    .seq (.op rfl) <| .seq (.op rfl) <| .seq hloop <| .seq (.op rfl) <| .seq (.op rfl) (.op rfl)

theorem range'_cons {k n : ℕ} (h : k < n) : List.range' k (n - k) = k :: List.range' (k + 1) (n - (k + 1)) := by
  rw [← List.range'_succ]
  congr 1
  omega

/-- **The chains**: their ends are on the alt stack, the last one on top. -/
theorem runs_emitChains (hP : P.Facts) {V : Bytes} (hV : V.length = 34) (y : ℕ → Bytes) :
    Runs env (emitChains P key q : Gen σ Instr String Unit) ⟨V :: ((List.range P.p).map y ++ d), alt⟩
      ⟨V :: d, ((List.range P.p).map fun i =>
        Rfc8554.chain env.sha256 key.id.bytes q i (coef V i P.w) P.maxCoef (y i)).reverse ++ alt⟩ := by
  set z := fun i => Rfc8554.chain env.sha256 key.id.bytes q i (coef V i P.w) P.maxCoef (y i) with hz
  have hrun : Runs env (emitChains P key q : Gen σ Instr String Unit) _ _ :=
    .forRange (fun k => ⟨V :: ((List.range' k (P.p - k)).map y ++ d), ((List.range k).map z).reverse ++ alt⟩)
      fun k hk => by
        rw [range'_cons hk, List.range_succ, List.map_append, List.reverse_append]
        exact runs_emitChain hP hV hk (y k)
  simpa [List.range_eq_range'] using hrun

/-- Taking all the ends back turns them over: the first one is on top. -/
theorem runs_popChains (n : ℕ) (z : ℕ → Bytes) :
    Runs env (Gen.forRange n fun _ => ScriptWriter.op .OpFromAltStack : Gen σ Instr String Unit)
      ⟨d, ((List.range n).map z).reverse ++ alt⟩ ⟨(List.range n).map z ++ d, alt⟩ := by
  have hrun : Runs env (Gen.forRange n fun _ => ScriptWriter.op .OpFromAltStack : Gen σ Instr String Unit) _ _ :=
    .forRange (fun k => ⟨(List.range' (n - k) k).map z ++ d, ((List.range (n - k)).map z).reverse ++ alt⟩)
      fun k hk => by
        have hfirst : n - k = n - (k + 1) + 1 := by omega
        rw [hfirst, List.range_succ, List.map_append, List.reverse_append, List.range'_succ]
        exact .op rfl
  simpa [List.range_eq_range'] using hrun

/-- The ends are appended in order. -/
theorem runs_foldChains (n : ℕ) (z : ℕ → Bytes) (acc : Bytes) :
    Runs env (Gen.forRange n fun _ => do
        ScriptWriter.op .OpSwap
        ScriptWriter.op .OpCat : Gen σ Instr String Unit)
      ⟨acc :: ((List.range n).map z ++ d), alt⟩ ⟨(acc ++ (List.range n).flatMap z) :: d, alt⟩ := by
  have hrun : Runs env (Gen.forRange n fun _ => do
        ScriptWriter.op .OpSwap
        ScriptWriter.op .OpCat : Gen σ Instr String Unit) _ _ :=
    .forRange (fun k => ⟨(acc ++ (List.range k).flatMap z) :: ((List.range' k (n - k)).map z ++ d), alt⟩)
      fun k hk => by
        rw [range'_cons hk, List.range_succ, List.flatMap_append, ← List.append_assoc]
        exact .seq (.op rfl) (.op (by rw [exec_cat, List.append_assoc]; simp))
  simpa [List.range_eq_range'] using hrun

/-- **The candidate for the one-time key.** -/
theorem runs_emitCandidateKey (hp : 0 < P.p) (V : Bytes) (z : ℕ → Bytes) :
    Runs env (emitCandidateKey P key q : Gen σ Instr String Unit)
      ⟨V :: d, ((List.range P.p).map z).reverse ++ alt⟩
      ⟨(env.sha256 (hashPrefix key.id q D_PBLC ++ (List.range P.p).flatMap z)).bytes :: d, alt⟩ := by
  obtain ⟨n, hn⟩ : ∃ n, P.p = n + 1 := ⟨P.p - 1, by omega⟩
  have hmap : (List.range (n + 1)).map z = z 0 :: (List.range n).map fun i => z (i + 1) := by
    simp [List.range_succ_eq_map, Function.comp_def]
  have hflat : (List.range (n + 1)).flatMap z = z 0 ++ (List.range n).flatMap fun i => z (i + 1) := by
    simp [List.range_succ_eq_map, List.flatMap_map]
  unfold emitCandidateKey
  rw [hn, hflat, ← List.append_assoc, Nat.add_sub_cancel]
  refine .seq (.op rfl) <| .seq (runs_popChains (n + 1) z) ?_
  rw [hmap]
  exact .seq (.data _) <| .seq (.op rfl) <| .seq (.op rfl) <| .seq (runs_foldChains n _ _) (.op rfl)

/-- One level of the path. -/
theorem runs_emitMerkleLevel (node : ℕ) (sibling tmp : Bytes) :
    Runs env (emitMerkleLevel key node : Gen σ Instr String Unit) ⟨tmp :: sibling :: d, alt⟩
      ⟨(env.sha256 (hashPrefix key.id (node / 2) D_INTR ++
        if node % 2 = 1 then sibling ++ tmp else tmp ++ sibling)).bytes :: d, alt⟩ := by
  refine .seq (t := ⟨(hashPrefix key.id (node / 2) D_INTR ++
    if node % 2 = 1 then sibling ++ tmp else tmp ++ sibling) :: d, alt⟩) ?_ (.op rfl)
  unfold emitMerklePair
  split_ifs
  · refine .seq (.op rfl) <| .seq (.data _) <| .seq (.op rfl) <| .seq (.op rfl) <| .seq (.op rfl) <| .op ?_
    rw [exec_cat, List.append_assoc]
  · refine .seq (.data _) <| .seq (.op rfl) <| .seq (.op rfl) <| .seq (.op rfl) <| .op ?_
    rw [exec_cat, List.append_assoc]

/-- **The Merkle path**, from a node with `r` levels above it. -/
theorem runs_emitMerkleLoop (path : ℕ → Bytes) (r : ℕ) : ∀ (node i : ℕ) (tmp : Bytes),
    2 ^ r ≤ node → node < 2 ^ (r + 1) →
      Runs env (emitMerkleLoop key node : Gen σ Instr String Unit)
        ⟨tmp :: ((List.range' i r).map path ++ d), alt⟩
        ⟨Rfc8554.climb env.sha256 key.id.bytes path node i tmp :: d, alt⟩ := by
  induction r with
  | zero =>
    intro node i tmp hlo hhi
    rw [emitMerkleLoop, dif_neg (by omega), Rfc8554.climb, dif_neg (by omega)]
    exact .refl
  | succ r ih =>
    intro node i tmp hlo hhi
    rw [pow_succ] at hlo hhi
    have hnode : 1 < node := by
      have := Nat.two_pow_pos r
      omega
    rw [emitMerkleLoop, dif_pos hnode, Rfc8554.climb, dif_pos hnode, List.range'_succ]
    refine .seq (runs_emitMerkleLevel node (path i) tmp) ?_
    have hrest := ih (node / 2) (i + 1)
    split_ifs with hodd
    · simpa [hashPrefix_eq, hodd, D_INTR, Rfc8554.D_INTR] using hrest _ (by omega) (by omega)
    · simpa [hashPrefix_eq, hodd, D_INTR, Rfc8554.D_INTR] using hrest _ (by omega) (by omega)

theorem runs_emitMerklePath (hq : q < P.leafCount) (path : ℕ → Bytes) (Kc : Bytes) :
    Runs env (emitMerklePath P key q : Gen σ Instr String Unit) ⟨Kc :: ((List.range P.h).map path ++ d), alt⟩
      ⟨Rfc8554.climb env.sha256 key.id.bytes path (2 ^ P.h + q) 0
        (env.sha256 (key.id.bytes ++ Rfc8554.u32str (2 ^ P.h + q) ++ Rfc8554.u16str D_LEAF ++ Kc)).bytes :: d,
        alt⟩ := by
  have hnode : 2 ^ P.h + q < 2 ^ (P.h + 1) := by
    rw [LmsParams.leafCount] at hq
    rw [pow_succ]
    omega
  rw [List.range_eq_range']
  refine .seq (.data _) <| .seq (.op rfl) <| .seq (.op rfl) <| .seq (.op rfl) ?_
  exact runs_emitMerkleLoop path P.h _ 0 _ (Nat.le_add_right _ _) hnode

end phases

/-! ### The whole script -/

/-- The parameter sets are those the RFC derives from the Winternitz depth. -/
theorem LmsParams.rfc8554 : ∀ P ∈ LmsParams.constants,
    P.u = Rfc8554.u P.w ∧ P.v = Rfc8554.v P.w ∧ P.ls = Rfc8554.ls P.w ∧ P.p = Rfc8554.p P.w := by
  decide

theorem coef_rfc8554 (S : Bytes) (i : ℕ) {w : ℕ} (hw : w ∣ 8) : Rfc8554.coef S i w = coef S i w := by
  have hshift : w * (i % (8 / w)) = i * w % 8 := by
    rw [← Nat.mul_mod_mul_left, Nat.mul_div_cancel' hw, Nat.mul_comm]
  rw [Rfc8554.coef, coef, hshift, Nat.and_comm, Nat.one_shiftLeft, Nat.sub_sub, Nat.add_comm w]

theorem cksm_rfc8554 {P : LmsParams} (hP : P.Facts) (hu : P.u = Rfc8554.u P.w) (hls : P.ls = Rfc8554.ls P.w)
    (Q : Bytes) : Rfc8554.cksm Q P.w = cksm Q P := by
  have hterm (i : ℕ) : (2 ^ P.w - 1) - Rfc8554.coef Q i P.w = P.maxCoef - coef Q i P.w := by
    rw [coef_rfc8554 Q i hP.w_dvd, LmsParams.maxCoef]
  rw [cksm_eq hP, Rfc8554.cksm, ← hu, ← hls, Nat.shiftLeft_eq, checksumSum, List.sum_eq_foldl, List.foldl_map]
  simp only [hterm]

/-- **The verifier** leaves the comparison of the RFC's candidate root with the key's. -/
theorem runs_emitVerify {env : Env} {P : LmsParams} (hmem : P ∈ LmsParams.constants) (hw : P.w = 2 ∨ P.w = 4)
    (key : LmsPublicKey) {q : ℕ} (hq : q < P.leafCount) (C m : Bytes) (y path : ℕ → Bytes) {d alt : List Bytes} :
    Runs env (emitVerify P key q : Gen σ Instr String Unit)
      ⟨m :: C :: ((List.range P.p).map y ++ ((List.range P.h).map path ++ d)), alt⟩
      ⟨boolBytes (Rfc8554.candidateRoot env.sha256 P.w P.h key.id.bytes q C y path m = key.root.bytes) :: d,
        alt⟩ := by
  have hP := LmsParams.facts P hmem hw
  obtain ⟨hu, -, hls, hp⟩ := LmsParams.rfc8554 P hmem
  set Q := env.sha256 (hashPrefix key.id q D_MESG ++ C ++ m) with hQ
  have hV : (coefficientSource Q P).length = 34 := by simp [coefficientSource]
  have hkey : Rfc8554.candidateKey env.sha256 P.w key.id.bytes q C y m =
      (env.sha256 (hashPrefix key.id q D_PBLC ++ (List.range P.p).flatMap fun i =>
        Rfc8554.chain env.sha256 key.id.bytes q i (coef (coefficientSource Q P) i P.w) P.maxCoef (y i))).bytes := by
    simp only [Rfc8554.candidateKey, ← hp, coef_rfc8554 _ _ hP.w_dvd, cksm_rfc8554 hP hu hls]
    rfl
  rw [Rfc8554.candidateRoot, hkey]
  refine .seq (.ensure hq) <| .seq (runs_emitMessageDigest C m) <|
    .seq (runs_emitChecksumAndV hP.coversDigest hP.ls_le Q (checksum_lt hP Q.bytes)) <|
    .seq (runs_emitChains hP hV y) <| .seq (runs_emitCandidateKey hP.p_pos _ _) <|
    .seq (runs_emitMerklePath hq path _) <| .seq (.data _) (.op ?_)
  rfl

/-- The redeem script of a leaf in range can always be written. -/
theorem emitVaultScript_code {P : LmsParams} (hmem : P ∈ LmsParams.constants) (hw : P.w = 2 ∨ P.w = 4)
    (key : LmsPublicKey) {q : ℕ} (hq : q < P.leafCount) {n : ℕ} (hpos : 0 < n) (hn : n ≤ VaultCore.maxOutputCount) :
    ∃ is, (emitVaultScript P key q n : Gen Unit Instr String Unit).code () = .ok is := by
  have hruns : Runs ⟨fun _ => Block.zero 32, none⟩ (emitVerify P key q : Gen Unit Instr String Unit) _ ⟨_ :: [], []⟩ :=
    runs_emitVerify hmem hw key hq [] [] (fun _ => []) fun _ => []
  obtain ⟨is, hgen, -⟩ := hruns.code () (c := []) rfl
  exact ⟨_, by rw [Gen.code, emitVaultScript, Gen.bind_ok (VaultCore.emitBindingDigest_apply hpos hn ()) hgen]; rfl⟩

/-- The pushes of a witness: `path[h-1] … path[0], y[p-1] … y[0], C`. -/
def witnessPushes (P : LmsParams) (C : Block 32) (y path : ℕ → Block 32) : List Instr :=
  (((List.range P.h).map path).reverse ++ ((List.range P.p).map y).reverse ++ [C]).map fun b => .push b.bytes

/-- **The emitted script verifies LMS signatures**: on any witness and any message it
never aborts and ends with one item, which is true exactly if the RFC accepts. -/
theorem emitVerify_rfc8554 {P : LmsParams} (hmem : P ∈ LmsParams.constants) (hw : P.w = 2 ∨ P.w = 4)
    (key : LmsPublicKey) {q : ℕ} (hq : q < 2 ^ P.h) (sha256 : Bytes → Block 32) (tx : Option TxContext)
    (C m : Block 32) (y path : ℕ → Block 32) :
    ∃ is, (emitVerify P key q : Gen Unit Instr String Unit).code () = .ok is ∧
      ∃ item, execute ⟨sha256, tx⟩ (witnessPushes P C y path ++ .push m.bytes :: is) [] = some [item] ∧
        (isTrue item ↔ Rfc8554.Accepts sha256 P.w P.h key.id.bytes key.root.bytes q C.bytes
          (fun i => (y i).bytes) (fun i => (path i).bytes) m.bytes) := by
  have hruns : Runs ⟨sha256, tx⟩ (emitVerify P key q : Gen Unit Instr String Unit) _ ⟨_ :: [], []⟩ :=
    runs_emitVerify hmem hw key hq C.bytes m.bytes (fun i => (y i).bytes) fun i => (path i).bytes
  obtain ⟨is, hcode, hexec⟩ := hruns.execute
  refine ⟨is, hcode, boolBytes (Rfc8554.candidateRoot sha256 P.w P.h key.id.bytes q C.bytes
    (fun i => (y i).bytes) (fun i => (path i).bytes) m.bytes = key.root.bytes), ?_, isTrue_decide⟩
  have hpushes : witnessPushes P C y path ++ .push m.bytes :: is =
      (((List.range P.h).map fun i => (path i).bytes).reverse ++
        ((List.range P.p).map fun i => (y i).bytes).reverse ++ [C.bytes, m.bytes]).map Instr.push ++ is := by
    simp [witnessPushes, Function.comp_def]
  rw [hpushes, execute_pushes]
  simpa using hexec

theorem emitVerify_rfc8554_h5 :
    ∃ is, (emitVerify .sha256H5W2 ⟨Block.zero 16, Block.zero 32⟩ 3 : Gen Unit Instr String Unit).code () =
        .ok is ∧
      ∃ item, execute ⟨fun _ => Block.zero 32, none⟩ (witnessPushes .sha256H5W2 (Block.zero 32)
          (fun _ => Block.zero 32) (fun _ => Block.zero 32) ++ .push (Block.zero 32).bytes :: is) [] =
            some [item] ∧
        (isTrue item ↔ Rfc8554.Accepts (fun _ => Block.zero 32) 2 5 (Block.zero 16).bytes (Block.zero 32).bytes 3
          (Block.zero 32).bytes (fun _ => (Block.zero 32).bytes) (fun _ => (Block.zero 32).bytes)
          (Block.zero 32).bytes) :=
  emitVerify_rfc8554 (by decide) (.inl rfl) _ (by decide) _ none _ _ _ _

end KaspaPqv.LmsScript
