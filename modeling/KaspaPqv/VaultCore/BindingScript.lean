import KaspaPqv.Script.Rules
import KaspaPqv.VaultCore.Binding

/-!
# The digest rebuilt in script

The opcodes of `emitBindingDigest`, run for one input of a transaction, against the
serializer. The script is unrolled for one number of outputs while `OpTxOutputCount`
reports the transaction's own, so the two meet only where these agree.

## What is proved

* `execAll_bindingCode` — what the opcodes leave on the stack, for any transaction and
  any number of outputs the script is unrolled for, and when they abort.
* `emitBindingDigest_agrees` — for the transaction's own number of outputs they succeed
  exactly if the serializer does, and leave what it writes.
* `rebuiltPreimage_inj`, `bindingPreimage_pins_spend` — the preimage of a signed view is
  rebuilt from no other transaction, whatever the number of its outputs.
-/

namespace KaspaPqv.VaultCore

open KaspaPqv.Lib KaspaPqv.Script

/-! ### The view of a transaction -/

/-- An output of a transaction, as the digest sees it. -/
def outputView (o : TransactionOutput) : OutputView where
  amount := o.value
  spkVersion := o.scriptPublicKey.version
  script := o.scriptPublicKey.script

/-- A transaction as the digest of one of its inputs sees it. -/
def spendView (c : TxContext) : SpendView where
  txVersion := c.tx.version
  outpointTxid := c.outpoint.transactionId
  outpointIndex := c.outpoint.index
  outputs := c.tx.outputs.map outputView

/-! ### The code -/

/-- The opcodes in front of the outputs. -/
def headerCode : List Instr :=
  [.op .OpTxVersion, .push (encodeNum (2 : ℕ)), .op .OpNum2Bin,
    .op .OpTxInputIndex, .op .OpOutpointTxId, .op .OpCat,
    .op .OpTxInputIndex, .op .OpOutpointIndex, .push (encodeNum (4 : ℕ)), .op .OpNum2Bin, .op .OpCat,
    .op .OpTxOutputCount, .push (encodeNum (1 : ℕ)), .op .OpNum2Bin, .op .OpCat]

/-- The opcodes of output `i`. -/
def outputCode (i : ℕ) : List Instr :=
  [.push (encodeNum i), .op .OpTxOutputAmount, .push (encodeNum (8 : ℕ)), .op .OpNum2Bin, .op .OpCat,
    .push (encodeNum i), .op .OpTxOutputSpkLen, .push (encodeNum (2 : ℕ)), .op .OpNum2Bin, .op .OpCat,
    .push (encodeNum i), .op .OpTxOutputSpk, .op .OpCat]

/-- The opcodes up to the final hash. -/
def bindingCode (n : ℕ) : List Instr := headerCode ++ (List.range n).flatMap outputCode

theorem emitHeader_apply {σ : Type} (g : σ) : emitHeader g = .ok ((), g, headerCode) := rfl

theorem emitOutput_apply {σ : Type} (i : ℕ) (g : σ) : emitOutput i g = .ok ((), g, outputCode i) := rfl

theorem emitBindingDigest_apply {σ : Type} {n : ℕ} (hpos : 0 < n) (hn : n ≤ maxOutputCount) (g : σ) :
    emitBindingDigest n g = .ok ((), g, bindingCode n ++ [.op .OpSHA256]) := by
  rw [bindingCode, List.append_assoc]
  rw [emitBindingDigest, Gen.ensure_bind _ hpos, Gen.ensure_bind _ hn]
  refine Gen.bind_ok (emitHeader_apply g) ?_
  exact Gen.bind_ok (Gen.forRange_apply emitOutput_apply n g) (ScriptWriter.op_apply _ g)

/-- The code for the digest ends where it does, and tells the number of outputs. -/
theorem bindingCode_inj {n n' : ℕ} {r r' : List Instr}
    (h : bindingCode n ++ .op .OpSHA256 :: r = bindingCode n' ++ .op .OpSHA256 :: r') : n = n' ∧ r = r' := by
  rw [bindingCode, bindingCode, List.append_assoc, List.append_assoc] at h
  exact flatMap_range_append_inj (fun i => ⟨_, _, rfl, by simp⟩) (List.append_cancel_left h)

/-! ### Running it -/

section run

variable {env : Env} {c : TxContext} {d alt : List Bytes}

/-- A number laid out on `w` bytes, or an abort if its sign bit is needed. -/
theorem execAll_num2Bin {w v : ℕ} (hw : w ≤ 8) (is : List Instr) :
    (pushNum v ⟨d, alt⟩).bind (execAll env (.push (encodeNum w) :: .op .OpNum2Bin :: is)) =
      if v < 2 ^ (8 * w - 1) then execAll env is ⟨leBytes w v :: d, alt⟩ else none := by
  by_cases hv : v < 2 ^ (8 * w - 1)
  · have hv' : v < 2 ^ 63 := hv.trans_le (Nat.pow_le_pow_right (by norm_num) (by omega))
    rw [pushNum_natCast hv', if_pos hv, Option.bind_some, execAll_cons]
    change (Opcode.exec env .OpNum2Bin ⟨encodeNum w :: encodeNum v :: d, alt⟩).bind _ = _
    rw [exec_num2Bin hw hv]
    rfl
  · rw [if_neg hv]
    by_cases hv' : v < 2 ^ 63
    · rw [pushNum_natCast hv', Option.bind_some, execAll_cons]
      change (Opcode.exec env .OpNum2Bin ⟨encodeNum w :: encodeNum v :: d, alt⟩).bind _ = _
      rw [exec_num2Bin_eq_none (by omega) hv, Option.bind_none]
    · rw [pushNum_natCast_eq_none hv', Option.bind_none]

theorem exec_txVersion (hc : env.tx = some c) (s : Stacks) :
    Instr.exec env (.op .OpTxVersion) s = pushNum c.tx.version.toNat s := by
  change env.tx.bind (fun c => pushNum c.tx.version.toNat s) = _
  rw [hc, Option.bind_some]

theorem exec_txOutputCount (hc : env.tx = some c) (s : Stacks) :
    Instr.exec env (.op .OpTxOutputCount) s = pushNum c.tx.outputs.length s := by
  change env.tx.bind (fun c => pushNum c.tx.outputs.length s) = _
  rw [hc, Option.bind_some]

theorem exec_txInputIndex (hc : env.tx = some c) :
    Instr.exec env (.op .OpTxInputIndex) ⟨d, alt⟩ = some ⟨encodeNum (c.input : ℕ) :: d, alt⟩ := by
  have hlt : (c.input : ℕ) < 2 ^ 63 := c.input.2.trans c.tx.inputs_bound
  change env.tx.bind (fun c => pushNum (c.input : ℕ) ⟨d, alt⟩) = _
  rw [hc, Option.bind_some, pushNum_natCast hlt]

theorem decodeIndex_input (c : TxContext) : decodeIndex (encodeNum (c.input : ℕ)) = some (c.input : ℕ) :=
  decodeIndex_natCast (c.input.2.trans c.tx.inputs_bound)

theorem outpointTxId_eq (s : Stacks) : Instr.exec env (.op .OpOutpointTxId) s =
    outpointOp env (fun o s => some { s with data := o.transactionId.bytes :: s.data }) s := rfl

theorem outpointIndex_eq (s : Stacks) : Instr.exec env (.op .OpOutpointIndex) s =
    outpointOp env (fun o s => pushNum o.index.toNat s) s := rfl

theorem txOutputSpk_eq (s : Stacks) : Instr.exec env (.op .OpTxOutputSpk) s =
    outputOp env (fun o s => some { s with data := o.scriptPublicKey.wire :: s.data }) s := rfl

theorem exec_outpointTxId (hc : env.tx = some c) :
    Instr.exec env (.op .OpOutpointTxId) ⟨encodeNum (c.input : ℕ) :: d, alt⟩ =
      some ⟨c.outpoint.transactionId.bytes :: d, alt⟩ := by
  rw [outpointTxId_eq]
  simp [outpointOp, hc, decodeIndex_input, TxContext.outpoint]

theorem exec_outpointIndex (hc : env.tx = some c) :
    Instr.exec env (.op .OpOutpointIndex) ⟨encodeNum (c.input : ℕ) :: d, alt⟩ =
      pushNum c.outpoint.index.toNat ⟨d, alt⟩ := by
  rw [outpointIndex_eq]
  simp [outpointOp, hc, decodeIndex_input, TxContext.outpoint]

theorem exec_push (bs : Bytes) : Instr.exec env (.push bs) ⟨d, alt⟩ = some ⟨bs :: d, alt⟩ := rfl

theorem exec_opCat (x y : Bytes) :
    Instr.exec env (.op .OpCat) ⟨y :: x :: d, alt⟩ = some ⟨(x ++ y) :: d, alt⟩ := rfl

/-- The fields in front of the outputs fit their widths. -/
def HeaderFits (c : TxContext) : Prop :=
  c.tx.version.toNat < 2 ^ 15 ∧ c.outpoint.index.toNat < 2 ^ 31 ∧ c.tx.outputs.length < 2 ^ 7

instance (c : TxContext) : Decidable (HeaderFits c) := inferInstanceAs (Decidable (_ ∧ _))

/-- The bytes in front of the outputs of a transaction. -/
def headerOf (c : TxContext) : Bytes :=
  headerLayout c.tx.version c.outpoint.transactionId c.outpoint.index c.tx.outputs.length

/-- **The header**: its code leaves the header's bytes, and aborts if a field does not fit. -/
theorem execAll_headerCode (hc : env.tx = some c) :
    execAll env headerCode ⟨d, alt⟩ = if HeaderFits c then some ⟨headerOf c :: d, alt⟩ else none := by
  simp only [headerCode, execAll_cons, exec_txVersion hc, exec_txInputIndex hc, exec_outpointTxId hc,
    exec_outpointIndex hc, exec_txOutputCount hc, exec_opCat, execAll_num2Bin, execAll_nil, Option.bind_some,
    show 2 ≤ 8 by norm_num, show 4 ≤ 8 by norm_num, show 1 ≤ 8 by norm_num]
  simp [HeaderFits, headerOf, headerLayout, ite_and]

theorem exec_outputOp {push : TransactionOutput → Stacks → Option Stacks} (hc : env.tx = some c) {i : ℕ}
    (hi : i < 2 ^ 63) :
    outputOp env push ⟨encodeNum i :: d, alt⟩ = c.tx.outputs[i]?.bind fun o => push o ⟨d, alt⟩ := by
  simp [outputOp, hc, decodeIndex_natCast hi, bind]

/-- **One output**: its code appends the output's bytes, and aborts if there is no such
output or a field does not fit. -/
theorem execAll_outputCode (hc : env.tx = some c) {i : ℕ} (hi : i < 2 ^ 63) (acc : Bytes) :
    execAll env (outputCode i) ⟨acc :: d, alt⟩ = c.tx.outputs[i]?.bind fun o =>
      if (outputView o).Fits then some ⟨(acc ++ (outputView o).layout) :: d, alt⟩ else none := by
  have hamount (d : List Bytes) : Instr.exec env (.op .OpTxOutputAmount) ⟨encodeNum i :: d, alt⟩ =
      c.tx.outputs[i]?.bind fun o => pushNum o.value.toNat ⟨d, alt⟩ := exec_outputOp hc hi
  have hlen (d : List Bytes) : Instr.exec env (.op .OpTxOutputSpkLen) ⟨encodeNum i :: d, alt⟩ =
      c.tx.outputs[i]?.bind fun o => pushNum o.scriptPublicKey.wire.length ⟨d, alt⟩ := exec_outputOp hc hi
  have hspk (d : List Bytes) : Instr.exec env (.op .OpTxOutputSpk) ⟨encodeNum i :: d, alt⟩ =
      c.tx.outputs[i]?.bind fun o => some ⟨o.scriptPublicKey.wire :: d, alt⟩ := by
    rw [txOutputSpk_eq, exec_outputOp hc hi]
  cases ho : c.tx.outputs[i]? with
  | none => simp [outputCode, exec_push, hamount, ho]
  | some o =>
    simp only [ho, Option.bind_some] at hamount hlen hspk
    simp only [outputCode, execAll_cons, exec_push, hamount, hlen, hspk, exec_opCat, execAll_num2Bin,
      execAll_nil, Option.bind_some, show 2 ≤ 8 by norm_num, show 8 ≤ 8 by norm_num]
    simp [OutputView.fits_iff, outputView, OutputView.layout, amountBytes, spkBytes, spkWireBytes,
      ScriptPublicKey.wire, ite_and]

/-- **The outputs**: the unrolled loop appends the bytes of the first `n` outputs, and
aborts if there are fewer or a field of one of them does not fit. -/
theorem execAll_outputsCode (hc : env.tx = some c) {n : ℕ} (hn : n < 2 ^ 63) (acc : Bytes) :
    execAll env ((List.range n).flatMap outputCode) ⟨acc :: d, alt⟩ =
      if n ≤ c.tx.outputs.length ∧ ∀ o ∈ c.tx.outputs.take n, (outputView o).Fits then
        some ⟨(acc ++ (c.tx.outputs.take n).flatMap fun o => (outputView o).layout) :: d, alt⟩
      else none := by
  induction n with
  | zero => simp
  | succ n ih =>
    rw [List.range_succ, List.flatMap_append, execAll_append, ih (by omega), List.flatMap_singleton]
    by_cases hlt : n < c.tx.outputs.length
    · have htake : c.tx.outputs.take (n + 1) = c.tx.outputs.take n ++ [c.tx.outputs[n]] := by
        rw [List.take_add_one, List.getElem?_eq_getElem hlt]
        rfl
      have hcode (acc : Bytes) : execAll env (outputCode n) ⟨acc :: d, alt⟩ =
          if (outputView c.tx.outputs[n]).Fits then
            some ⟨(acc ++ (outputView c.tx.outputs[n]).layout) :: d, alt⟩ else none := by
        rw [execAll_outputCode hc (by omega), List.getElem?_eq_getElem hlt, Option.bind_some]
      have hall : (∀ o ∈ c.tx.outputs.take (n + 1), (outputView o).Fits) ↔
          (∀ o ∈ c.tx.outputs.take n, (outputView o).Fits) ∧ (outputView c.tx.outputs[n]).Fits := by
        rw [htake, List.forall_mem_append, List.forall_mem_singleton]
      by_cases hfits : ∀ o ∈ c.tx.outputs.take n, (outputView o).Fits
      · rw [if_pos ⟨hlt.le, hfits⟩, Option.bind_some, hcode, List.append_assoc, htake, List.flatMap_append,
          List.flatMap_singleton, ← htake]
        exact if_congr ⟨fun h => ⟨hlt, hall.mpr ⟨hfits, h⟩⟩, fun h => (hall.mp h.2).2⟩ rfl rfl
      · rw [if_neg fun h => hfits h.2]
        exact (if_neg fun h => hfits (hall.mp h.2).1).symm
    · have hnone : c.tx.outputs[n]? = none := List.getElem?_eq_none (by omega)
      have hbad : ¬(n + 1 ≤ c.tx.outputs.length ∧
          ∀ o ∈ c.tx.outputs.take (n + 1), (outputView o).Fits) := fun h => hlt h.1
      rw [if_neg hbad]
      split_ifs
      · rw [Option.bind_some, execAll_outputCode hc (by omega), hnone]
        rfl
      · rfl

end run

/-- What the script emitted for `n` outputs needs of a transaction not to abort. -/
def RebuildFits (c : TxContext) (n : ℕ) : Prop :=
  HeaderFits c ∧ n ≤ c.tx.outputs.length ∧ ∀ o ∈ c.tx.outputs.take n, (outputView o).Fits

instance (c : TxContext) (n : ℕ) : Decidable (RebuildFits c n) := inferInstanceAs (Decidable (_ ∧ _ ∧ _))

/-- What it rebuilds then: the header of the whole transaction, and its first `n` outputs. -/
def rebuildLayout (c : TxContext) (n : ℕ) : Bytes :=
  headerOf c ++ (c.tx.outputs.take n).flatMap fun o => (outputView o).layout

theorem plain_outputCode (i : ℕ) : ∀ is ∈ outputCode i, is.Plain := by
  simp [outputCode, Instr.Plain]

theorem plain_bindingCode (n : ℕ) : ∀ i ∈ bindingCode n, i.Plain := by
  intro i hi
  rcases List.mem_append.mp hi with h | h
  · exact (show ∀ i ∈ headerCode, i.Plain by simp [headerCode, Instr.Plain]) i h
  · obtain ⟨k, -, hk⟩ := List.mem_flatMap.mp h
    exact plain_outputCode k i hk

/-- **The opcodes up to the final hash**, for any transaction and any number of outputs
they are unrolled for. -/
theorem execAll_bindingCode {env : Env} {c : TxContext} (hc : env.tx = some c) {n : ℕ} (hn : n < 2 ^ 63)
    (d alt : List Bytes) : execAll env (bindingCode n) ⟨d, alt⟩ =
      if RebuildFits c n then some ⟨rebuildLayout c n :: d, alt⟩ else none := by
  rw [bindingCode, execAll_append, execAll_headerCode hc]
  by_cases hheader : HeaderFits c
  · rw [if_pos hheader, Option.bind_some, execAll_outputsCode hc hn]
    exact if_congr ⟨fun h => ⟨hheader, h⟩, fun h => h.2⟩ rfl rfl
  · rw [if_neg hheader]
    exact (if_neg fun h => hheader h.1).symm

/-- The preimage that the script emitted for `n` outputs hands to its final `OpSHA256`. -/
def rebuiltPreimage (env : Env) (n : ℕ) : Option Bytes :=
  match (emitBindingDigest n : Gen Unit Instr String Unit).code () with
  | .ok is => (execute env is.dropLast []).bind List.head?
  | .error _ => none

theorem emitBindingDigest_code {n : ℕ} (hpos : 0 < n) (hn : n ≤ maxOutputCount) :
    (emitBindingDigest n : Gen Unit Instr String Unit).code () = .ok (bindingCode n ++ [.op .OpSHA256]) := by
  rw [Gen.code, emitBindingDigest_apply hpos hn]
  rfl

theorem emitBindingDigest_error {n : ℕ} (hn : ¬(0 < n ∧ n ≤ maxOutputCount)) :
    ∃ e, (emitBindingDigest n : Gen Unit Instr String Unit).code () = .error e := by
  simp only [Gen.code, emitBindingDigest]
  by_cases hpos : 0 < n
  · rw [Gen.ensure_bind _ hpos, Gen.ensure_bind_error _ fun h => hn ⟨hpos, h⟩]
    exact ⟨_, rfl⟩
  · rw [Gen.ensure_bind_error _ hpos]
    exact ⟨_, rfl⟩

/-- **What the script hashes.** -/
theorem rebuiltPreimage_eq_some {env : Env} {c : TxContext} (hc : env.tx = some c) {n : ℕ} {pre : Bytes} :
    rebuiltPreimage env n = some pre ↔
      (0 < n ∧ n ≤ maxOutputCount) ∧ RebuildFits c n ∧ pre = rebuildLayout c n := by
  by_cases hn : 0 < n ∧ n ≤ maxOutputCount
  · have hlt : n < 2 ^ 63 := hn.2.trans_lt (by decide)
    rw [rebuiltPreimage, emitBindingDigest_code hn.1 hn.2]
    simp only [List.dropLast_concat, execute_plain (plain_bindingCode n), execAll_bindingCode hc hlt, hn,
      true_and]
    split_ifs with h <;> simp [h, eq_comm]
  · obtain ⟨e, he⟩ := emitBindingDigest_error hn
    simp [rebuiltPreimage, he, hn]

/-! ### The two constructions -/

theorem spendView_fits_iff {c : TxContext} :
    (spendView c).Fits ↔ 0 < c.tx.outputs.length ∧ RebuildFits c c.tx.outputs.length := by
  constructor
  · intro ⟨hpos, hcount, hversion, hindex, houts⟩
    simp only [spendView, List.length_map, List.forall_mem_map] at hpos hcount houts
    exact ⟨hpos, ⟨hversion, hindex, hcount⟩, le_rfl, by rwa [List.take_length]⟩
  · rintro ⟨hpos, ⟨hversion, hindex, hcount⟩, -, houts⟩
    rw [List.take_length] at houts
    exact ⟨by simpa [spendView] using hpos, by simpa [spendView] using hcount, hversion, hindex,
      by simpa [spendView] using houts⟩

theorem rebuildLayout_length (c : TxContext) :
    rebuildLayout c c.tx.outputs.length = (spendView c).layout := by
  simp [rebuildLayout, headerOf, SpendView.layout, spendView, List.flatMap_map]

theorem toOption_bindingPreimage {c : TxContext} (hpos : 0 < c.tx.outputs.length) :
    (bindingPreimage (spendView c)).toOption =
      if RebuildFits c c.tx.outputs.length then some (rebuildLayout c c.tx.outputs.length) else none := by
  split_ifs with h
  · rw [bindingPreimage_eq_ok.mpr ⟨spendView_fits_iff.mpr ⟨hpos, h⟩, rebuildLayout_length c⟩]
    rfl
  · exact toOption_eq_none fun pre hok => h (spendView_fits_iff.mp (bindingPreimage_eq_ok.mp hok).1).2

/-- The canonical spend: one input, destination and change. -/
def canonicalView : SpendView where
  txVersion := 1
  outpointTxid := .ofBytes ((List.range 32).map UInt8.ofNat) rfl
  outpointIndex := 0
  outputs := [⟨100000000, 0, List.replicate 35 0xaa⟩, ⟨899000000, 0, List.replicate 35 0xbb⟩]

/-- A transaction that makes the canonical spend. -/
def canonicalSpend : TxContext where
  tx :=
    { version := 1
      inputs := [⟨canonicalView.outpointTxid, 0⟩]
      outputs := [⟨100000000, 0, List.replicate 35 0xaa⟩, ⟨899000000, 0, List.replicate 35 0xbb⟩]
      inputs_bound := by decide }
  input := ⟨0, by decide⟩

/-- **The two constructions agree**: for any transaction with `1` to `127` outputs and
any of its inputs, the emitted opcodes succeed exactly if the serializer does, and what
reaches the final `OpSHA256` is what the serializer writes. -/
theorem emitBindingDigest_agrees (sha256 : Bytes → Block 32) (c : TxContext) (items : List Bytes)
    (hpos : 1 ≤ c.tx.outputs.length) (hmax : c.tx.outputs.length ≤ 127) :
    ∃ is, (emitBindingDigest c.tx.outputs.length : Gen Unit Instr String Unit).code () =
        .ok (is ++ [.op .OpSHA256]) ∧
      execute ⟨sha256, some c⟩ is items =
        (bindingPreimage (spendView c)).toOption.map (fun pre => pre :: items) ∧
      execute ⟨sha256, some c⟩ (is ++ [.op .OpSHA256]) items =
        (bindingPreimage (spendView c)).toOption.map (fun pre => (sha256 pre).bytes :: items) := by
  have hc : (⟨sha256, some c⟩ : Env).tx = some c := rfl
  have hexec := execAll_bindingCode hc (hmax.trans_lt (by norm_num)) items []
  have hplain : ∀ i ∈ bindingCode c.tx.outputs.length ++ [.op .OpSHA256], i.Plain :=
    List.forall_mem_append.mpr ⟨plain_bindingCode _, by simp [Instr.Plain]⟩
  refine ⟨bindingCode c.tx.outputs.length, emitBindingDigest_code hpos hmax, ?_, ?_⟩
  · rw [execute_plain (plain_bindingCode _), hexec, toOption_bindingPreimage hpos]
    split_ifs <;> rfl
  · rw [execute_plain hplain, execAll_append, hexec, toOption_bindingPreimage hpos]
    split_ifs <;> rfl

theorem emitBindingDigest_agrees_canonical :
    ∃ is, (emitBindingDigest 2 : Gen Unit Instr String Unit).code () = .ok (is ++ [.op .OpSHA256]) ∧
      execute ⟨fun _ => Block.zero 32, some canonicalSpend⟩ is [] =
        (bindingPreimage canonicalView).toOption.map (fun pre => pre :: []) ∧
      execute ⟨fun _ => Block.zero 32, some canonicalSpend⟩ (is ++ [.op .OpSHA256]) [] =
        (bindingPreimage canonicalView).toOption.map (fun _ => (Block.zero 32).bytes :: []) :=
  emitBindingDigest_agrees (fun _ => Block.zero 32) canonicalSpend [] (by decide) (by decide)

theorem layout_ne_nil (o : OutputView) : o.layout ≠ [] := by
  intro h
  have := congrArg List.length h
  simp [OutputView.layout, amountBytes] at this

/-- **A preimage rebuilt in script is the preimage of one spend only**, and only by the
script for its number of outputs. -/
theorem rebuiltPreimage_inj {sha256 : Bytes → Block 32} {c : TxContext} {n : ℕ} {V : SpendView} {pre : Bytes}
    (hV : bindingPreimage V = .ok pre) (hT : rebuiltPreimage ⟨sha256, some c⟩ n = some pre) :
    n = V.outputs.length ∧ spendView c = V := by
  obtain ⟨hfits, rfl⟩ := bindingPreimage_eq_ok.mp hV
  obtain ⟨⟨hpos, hmax⟩, ⟨⟨hversion, hindex, hcount⟩, hn, houts⟩, hpre⟩ :=
    (rebuiltPreimage_eq_some rfl).mp hT
  obtain ⟨⟨hv, ht, hi, hlen⟩, hrest⟩ :=
    headerLayout_inj (hfits.count.trans (by norm_num)) (hcount.trans (by norm_num)) hpre
  -- the script's outputs are a prefix of the view's, which is not longer than the transaction's
  have hsplit : V.outputs.flatMap OutputView.layout = (V.outputs.take n).flatMap OutputView.layout ++
      (V.outputs.drop n).flatMap OutputView.layout := by
    rw [← List.flatMap_append, List.take_append_drop]
  have hprefix := delimited_outputLayout.flatMap n (a := V.outputs.take n)
    (b := (spendView c).outputs.take n) (r := (V.outputs.drop n).flatMap OutputView.layout) (s := [])
    ⟨by simp; omega, fun o ho => hfits.outputs o (List.mem_of_mem_take ho)⟩
    ⟨by simp [spendView, hn], by simpa [spendView, ← List.map_take] using houts⟩
    (by simp only [← hsplit, hrest, spendView, ← List.map_take, List.flatMap_map, List.append_nil])
  obtain ⟨hfirst, hdrop⟩ := hprefix
  have hle : V.outputs.length ≤ n := by
    rw [← List.drop_eq_nil_iff]
    refine List.eq_nil_iff_forall_not_mem.mpr fun o ho => layout_ne_nil o ?_
    exact List.flatMap_eq_nil_iff.mp hdrop o ho
  have hlength : n = V.outputs.length := by omega
  rw [hlength, List.take_length, show V.outputs.length = (spendView c).outputs.length by simp [spendView, hlen],
    List.take_length] at hfirst
  refine ⟨hlength, ?_⟩
  obtain ⟨v, t, i, os⟩ := V
  simp only at hv ht hi hfirst
  subst hv ht hi hfirst
  rfl

/-- **A signed view pins the whole spend**: a transaction from which the script rebuilds
the preimage of a view agrees with the view in its version, the outpoint of the input and
every output, and has no further ones; and no other view has that preimage. -/
theorem bindingPreimage_pins_spend {V : SpendView} {pre : Bytes} (hV : bindingPreimage V = .ok pre) :
    (∀ (sha256 : Bytes → Block 32) (c : TxContext),
      rebuiltPreimage ⟨sha256, some c⟩ V.outputs.length = some pre →
        c.tx.version = V.txVersion ∧ c.outpoint.transactionId = V.outpointTxid ∧
        c.outpoint.index = V.outpointIndex ∧ c.tx.outputs.length = V.outputs.length ∧
        ∀ (i : ℕ) (h : i < c.tx.outputs.length) (h' : i < V.outputs.length),
          c.tx.outputs[i].value = V.outputs[i].amount ∧
          c.tx.outputs[i].scriptPublicKey.version = V.outputs[i].spkVersion ∧
          c.tx.outputs[i].scriptPublicKey.script = V.outputs[i].script) ∧
    ∀ W : SpendView, bindingPreimage W = .ok pre → W = V := by
  constructor
  · intro sha256 c hT
    obtain ⟨-, rfl⟩ := rebuiltPreimage_inj hV hT
    simp [spendView, outputView]
  · intro W hW
    obtain ⟨hfitsV, rfl⟩ := bindingPreimage_eq_ok.mp hV
    obtain ⟨hfitsW, hpre⟩ := bindingPreimage_eq_ok.mp hW
    exact (delimited_layout.injective hfitsV hfitsW hpre).symm

theorem bindingPreimage_pins_spend_canonical :
    rebuiltPreimage ⟨fun _ => Block.zero 32, some canonicalSpend⟩ 2 = some canonicalView.layout ∧
      canonicalSpend.tx.version = canonicalView.txVersion ∧
      ∀ W : SpendView, bindingPreimage W = .ok canonicalView.layout → W = canonicalView := by
  have hV : bindingPreimage canonicalView = .ok canonicalView.layout := by rfl
  have hT : rebuiltPreimage ⟨fun _ => Block.zero 32, some canonicalSpend⟩ 2 = some canonicalView.layout :=
    (rebuiltPreimage_eq_some rfl).mpr ⟨by decide, by decide, by rfl⟩
  exact ⟨hT, ((bindingPreimage_pins_spend hV).1 _ canonicalSpend hT).1, (bindingPreimage_pins_spend hV).2⟩

end KaspaPqv.VaultCore
