import KaspaPqv.Lib.Delimited
import KaspaPqv.Lib.Fallible
import KaspaPqv.Script.Engine

/-!
# The binding digest

What a vault signature commits to: the transaction's version, the outpoint of the
input it spends, and every output's amount and script public key. The serializer here
(`bindingPreimage`) runs off-chain, where a spend is signed; the redeem script rebuilds
the same bytes from introspection opcodes (`emitBindingDigest`).

All integers are little-endian at the width `OpNum2Bin` gives them, except the version
of a script public key, which is big-endian on the wire.

## What is proved

* `bindingPreimage_eq_ok` — when the serializer succeeds, and what it writes.
* `delimited_layout` — what it writes determines the spend.
-/

namespace KaspaPqv.VaultCore

open KaspaPqv.Lib KaspaPqv.Script

/-! ### What the digest covers -/

/-- One output, as the digest sees it. -/
structure OutputView where
  amount : UInt64
  /-- Big-endian on the wire. -/
  spkVersion : UInt16
  /-- The script itself, without the version. -/
  script : Bytes
  deriving DecidableEq

/-- The transaction fields the digest commits to. -/
structure SpendView where
  txVersion : UInt16
  outpointTxid : Block 32
  outpointIndex : UInt32
  outputs : List OutputView
  deriving DecidableEq

/-- The longest script public key the two-byte length can express. -/
def maxSpkLen : ℕ := 0x7FFF

/-- The largest amount the eight-byte field can express. -/
def maxAmount : ℕ := 2 ^ 63 - 1

/-- The largest transaction version the two-byte field can express. -/
def maxTxVersion : ℕ := 0x7FFF

/-- The largest outpoint index the four-byte field can express. -/
def maxOutpointIndex : ℕ := 2 ^ 31 - 1

/-- The largest number of outputs the one-byte field can express. -/
def maxOutputCount : ℕ := 0x7F

/-! ### The serializer -/

/-- The wire encoding of a script public key, as `OpTxOutputSpk` pushes it. -/
def spkWireBytes (version : UInt16) (script : Bytes) : Bytes := beBytes 2 version.toNat ++ script

/-- One turn of the serializer's loop over the outputs. -/
def pushOutput (out : Bytes) (output : OutputView) : Except String Bytes := do
  ensure (output.amount.toNat ≤ maxAmount) s!"amount {output.amount} exceeds 2^63-1"
  let spk := spkWireBytes output.spkVersion output.script
  ensure (spk.length ≤ maxSpkLen) s!"spk of {spk.length} bytes exceeds the 2-byte prefix"
  pure (out ++ leBytes 8 output.amount.toNat ++ leBytes 2 spk.length ++ spk)

/-- Build the canonical preimage. -/
def bindingPreimage (view : SpendView) : Except String Bytes := do
  ensure (view.outputs ≠ []) "a spend must have at least one output"
  ensure (view.outputs.length ≤ maxOutputCount)
    s!"output count {view.outputs.length} exceeds {maxOutputCount}"
  ensure (view.txVersion.toNat ≤ maxTxVersion) s!"tx version {view.txVersion} exceeds {maxTxVersion}"
  ensure (view.outpointIndex.toNat ≤ maxOutpointIndex)
    s!"outpoint index {view.outpointIndex} exceeds {maxOutpointIndex}"
  view.outputs.foldlM pushOutput
    (leBytes 2 view.txVersion.toNat ++ view.outpointTxid.bytes ++
      leBytes 4 view.outpointIndex.toNat ++ [UInt8.ofNat view.outputs.length])

/-- The digest: the hash of the preimage. -/
def bindingDigest (sha256 : Bytes → Block 32) (view : SpendView) : Except String (Block 32) :=
  (bindingPreimage view).map sha256

/-! ### The script -/

/-- The opcodes for the fields in front of the outputs. -/
def emitHeader {σ : Type} : Gen σ Instr String Unit := do
  ScriptWriter.op .OpTxVersion
  ScriptWriter.num 2
  ScriptWriter.op .OpNum2Bin
  -- both outpoint opcodes pop the index of an input: the one being verified
  ScriptWriter.op .OpTxInputIndex
  ScriptWriter.op .OpOutpointTxId
  ScriptWriter.op .OpCat
  ScriptWriter.op .OpTxInputIndex
  ScriptWriter.op .OpOutpointIndex
  ScriptWriter.num 4
  ScriptWriter.op .OpNum2Bin
  ScriptWriter.op .OpCat
  ScriptWriter.op .OpTxOutputCount
  ScriptWriter.num 1
  ScriptWriter.op .OpNum2Bin
  ScriptWriter.op .OpCat

/-- The opcodes for output `i`: its amount, the length of its script public key and the
script public key itself, each appended to what is on top of the stack. -/
def emitOutput {σ : Type} (i : ℕ) : Gen σ Instr String Unit := do
  ScriptWriter.num i
  ScriptWriter.op .OpTxOutputAmount
  ScriptWriter.num 8
  ScriptWriter.op .OpNum2Bin
  ScriptWriter.op .OpCat
  ScriptWriter.num i
  ScriptWriter.op .OpTxOutputSpkLen
  ScriptWriter.num 2
  ScriptWriter.op .OpNum2Bin
  ScriptWriter.op .OpCat
  ScriptWriter.num i
  ScriptWriter.op .OpTxOutputSpk
  ScriptWriter.op .OpCat

/-- Emit the in-script reconstruction of the digest, for one number of outputs. -/
def emitBindingDigest {σ : Type} (outputCount : ℕ) : Gen σ Instr String Unit := do
  Gen.ensure (outputCount > 0) "a spend must have at least one output"
  Gen.ensure (outputCount ≤ maxOutputCount) "output count must fit the 1-byte field"
  emitHeader
  Gen.forRange outputCount emitOutput
  ScriptWriter.op .OpSHA256

/-! ### When the serializer succeeds, and what it writes -/

/-- The fields of an output fit their widths. -/
structure OutputView.Fits (o : OutputView) : Prop where
  amount : o.amount.toNat < 2 ^ 63
  spkLen : (spkWireBytes o.spkVersion o.script).length < 2 ^ 15

theorem OutputView.fits_iff (o : OutputView) : o.Fits ↔
    o.amount.toNat < 2 ^ 63 ∧ (spkWireBytes o.spkVersion o.script).length < 2 ^ 15 :=
  ⟨fun h => ⟨h.amount, h.spkLen⟩, fun h => ⟨h.1, h.2⟩⟩

instance (o : OutputView) : Decidable o.Fits := decidable_of_iff' _ o.fits_iff

/-- The fields of a spend fit their widths. -/
structure SpendView.Fits (v : SpendView) : Prop where
  count_pos : 0 < v.outputs.length
  count : v.outputs.length < 2 ^ 7
  txVersion : v.txVersion.toNat < 2 ^ 15
  outpointIndex : v.outpointIndex.toNat < 2 ^ 31
  outputs : ∀ o ∈ v.outputs, o.Fits

/-- The bytes of the amount. -/
def amountBytes (v : UInt64) : Bytes := leBytes 8 v.toNat

/-- A script public key behind its length. -/
def spkBytes (spk : Bytes) : Bytes := leBytes 2 spk.length ++ spk

/-- The bytes of one output. -/
def OutputView.layout (o : OutputView) : Bytes :=
  amountBytes o.amount ++ spkBytes (spkWireBytes o.spkVersion o.script)

/-- The bytes in front of the outputs, for a spend with `count` of them. -/
def headerLayout (version : UInt16) (txid : Block 32) (index : UInt32) (count : ℕ) : Bytes :=
  leBytes 2 version.toNat ++ txid.bytes ++ leBytes 4 index.toNat ++ leBytes 1 count

/-- The bytes of a spend. -/
def SpendView.layout (v : SpendView) : Bytes :=
  headerLayout v.txVersion v.outpointTxid v.outpointIndex v.outputs.length ++
    v.outputs.flatMap OutputView.layout

theorem pushOutput_eq_ok {out out' : Bytes} {o : OutputView} :
    pushOutput out o = .ok out' ↔ o.Fits ∧ out' = out ++ o.layout := by
  have hfits : o.Fits ↔ o.amount.toNat ≤ maxAmount ∧
      (spkWireBytes o.spkVersion o.script).length ≤ maxSpkLen := by
    rw [o.fits_iff, maxAmount, maxSpkLen]
    omega
  rw [pushOutput, ensure_bind_eq_ok, ensure_bind_eq_ok, hfits, and_assoc]
  simp only [OutputView.layout, amountBytes, spkBytes, List.append_assoc]
  exact and_congr_right fun _ => and_congr_right fun _ => ⟨fun h => (Except.ok.inj h).symm, fun h => h ▸ rfl⟩

theorem foldlM_pushOutput_eq_ok {outputs : List OutputView} {out out' : Bytes} :
    outputs.foldlM pushOutput out = .ok out' ↔
      (∀ o ∈ outputs, o.Fits) ∧ out' = out ++ outputs.flatMap OutputView.layout := by
  induction outputs generalizing out with
  | nil => simp [pure, Except.pure, eq_comm]
  | cons o outputs ih =>
    rw [List.foldlM_cons, bind_eq_ok]
    constructor
    · rintro ⟨out₁, hpush, hrest⟩
      obtain ⟨ho, rfl⟩ := pushOutput_eq_ok.mp hpush
      obtain ⟨hos, rfl⟩ := ih.mp hrest
      exact ⟨by simpa using ⟨ho, hos⟩, by simp⟩
    · rintro ⟨hfits, rfl⟩
      refine ⟨out ++ o.layout, pushOutput_eq_ok.mpr ⟨hfits o (by simp), rfl⟩, ih.mpr ⟨?_, by simp⟩⟩
      exact fun o' ho' => hfits o' (by simp [ho'])

/-- **When the serializer succeeds**, and what it writes. -/
theorem bindingPreimage_eq_ok {v : SpendView} {pre : Bytes} :
    bindingPreimage v = .ok pre ↔ v.Fits ∧ pre = v.layout := by
  rw [bindingPreimage, ensure_bind_eq_ok, ensure_bind_eq_ok, ensure_bind_eq_ok, ensure_bind_eq_ok,
    foldlM_pushOutput_eq_ok, maxOutputCount, maxTxVersion, maxOutpointIndex]
  constructor
  · rintro ⟨hne, hcount, hversion, hindex, houts, rfl⟩
    exact ⟨⟨List.length_pos_of_ne_nil hne, by omega, by omega, by omega, houts⟩, rfl⟩
  · rintro ⟨⟨hpos, hcount, hversion, hindex, houts⟩, rfl⟩
    exact ⟨List.ne_nil_of_length_pos hpos, by omega, by omega, by omega, houts, rfl⟩

/-! ### What is written determines the spend -/

theorem spkWireBytes_inj {v v' : UInt16} {s s' : Bytes} (h : spkWireBytes v s = spkWireBytes v' s') :
    v = v' ∧ s = s' := by
  obtain ⟨hv, hs⟩ := List.append_inj h (by simp)
  exact ⟨UInt16.toNat_inj.mp (beBytes_inj v.toNat_lt v'.toNat_lt hv), hs⟩

theorem delimited_amountBytes : Delimited (fun _ => True) amountBytes :=
  .ofWidth 8 (fun _ _ => length_leBytes _ _) fun a b _ _ h =>
    UInt64.toNat_inj.mp (leBytes_inj a.toNat_lt b.toNat_lt h)

theorem delimited_leBytes (w : ℕ) : Delimited (· < 256 ^ w) (leBytes w) :=
  .ofWidth w (fun _ _ => length_leBytes _ _) fun _ _ => leBytes_inj

theorem delimited_spkBytes : Delimited (fun spk : Bytes => spk.length < 256 ^ 2) spkBytes :=
  .prefixed (delimited_leBytes 2)

theorem delimited_outputLayout : Delimited OutputView.Fits OutputView.layout := by
  refine .append (f := OutputView.amount) (g := fun o => spkWireBytes o.spkVersion o.script)
    delimited_amountBytes delimited_spkBytes (fun _ _ => trivial)
    (fun o ho => ho.spkLen.trans (by norm_num)) ?_
  rintro ⟨a, v, s⟩ ⟨a', v', s'⟩ - - rfl hspk
  obtain ⟨rfl, rfl⟩ := spkWireBytes_inj hspk
  rfl

/-- **The header**: what is in front of the outputs determines the version, the outpoint
and how many outputs there are. -/
theorem headerLayout_inj {v v' : UInt16} {t t' : Block 32} {i i' : UInt32} {n n' : ℕ} {r r' : Bytes}
    (hn : n < 256) (hn' : n' < 256)
    (h : headerLayout v t i n ++ r = headerLayout v' t' i' n' ++ r') :
    (v = v' ∧ t = t' ∧ i = i' ∧ n = n') ∧ r = r' := by
  simp only [headerLayout, List.append_assoc] at h
  obtain ⟨hv, h⟩ := delimited_leBytes 2 (a := v.toNat) (b := v'.toNat) v.toNat_lt v'.toNat_lt h
  obtain ⟨ht, h⟩ := List.append_inj h (by simp)
  obtain ⟨hi, h⟩ := delimited_leBytes 4 (a := i.toNat) (b := i'.toNat) i.toNat_lt i'.toNat_lt h
  obtain ⟨hn, hr⟩ := delimited_leBytes 1 (a := n) (b := n') hn hn' h
  exact ⟨⟨UInt16.toNat_inj.mp hv, Block.ext ht, UInt32.toNat_inj.mp hi, hn⟩, hr⟩

/-- **The layout determines the spend.** -/
theorem delimited_layout : Delimited SpendView.Fits SpendView.layout := by
  rintro ⟨v, t, i, os⟩ ⟨v', t', i', os'⟩ h h' r r' he
  simp only [SpendView.layout, List.append_assoc] at he
  obtain ⟨⟨rfl, rfl, rfl, hn⟩, hrest⟩ :=
    headerLayout_inj (h.count.trans (by norm_num)) (h'.count.trans (by norm_num)) he
  obtain ⟨rfl, hr⟩ := delimited_outputLayout.flatMap os'.length ⟨hn, h.outputs⟩ ⟨rfl, h'.outputs⟩ hrest
  exact ⟨rfl, hr⟩

end KaspaPqv.VaultCore
