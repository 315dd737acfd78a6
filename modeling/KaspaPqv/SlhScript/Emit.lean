import KaspaPqv.SlhScript.Emitter
import KaspaPqv.SlhScript.Reference
import KaspaPqv.VaultCore.BindingScript

/-!
# The emitted verifier

The verifier of SLH-DSA, unrolled for one parameter set, one public key and one plan of
blobs. Chain lengths and the order of Merkle siblings depend on the message, so every step
of a chain is emitted behind a condition, and every Merkle step has a conditional swap.
-/

namespace KaspaPqv.SlhScript

open KaspaPqv.Lib KaspaPqv.Script

/-- The names of the stack slots. -/
inductive Slot where
  | transient
  | d | r | digest | tree | leaf
  | hcf | racc | idx | lx | sk | node | auth | pfx
  | ltree | lleaf | hcb | kp4 | hcw | hcp | hct
  | csum | acc | hcwi | x | wpk
  deriving DecidableEq

/-- The name of a slot, as the source has it. -/
def Slot.text : Slot → String
  | .transient => "_"
  | .d => "d" | .r => "r" | .digest => "digest" | .tree => "tree" | .leaf => "leaf"
  | .hcf => "hcf" | .racc => "racc" | .idx => "idx" | .lx => "lx" | .sk => "sk" | .node => "node"
  | .auth => "auth" | .pfx => "pfx"
  | .ltree => "ltree" | .lleaf => "lleaf" | .hcb => "hcb" | .kp4 => "kp4" | .hcw => "hcw" | .hcp => "hcp"
  | .hct => "hct"
  | .csum => "csum" | .acc => "acc" | .hcwi => "hcwi" | .x => "x" | .wpk => "wpk"

instance : SlotName Slot := ⟨.transient, Slot.text⟩

namespace Emitter

variable (plan : BlobPlan) (pk : PublicKey)

/-- `H_msg`: `[…, d]` to `[…, digest]`. -/
def emitHMsg : Emit Slot Unit := do
  fetch plan .r
  dup
  data (pk.seed.bytes ++ pk.root.bytes ++ [0, 0])
  cat
  roll .d
  cat
  sha256
  swap
  data pk.seed.bytes
  cat
  swap
  cat
  -- the counter of the mask generation
  data (beBytes 4 0)
  cat
  sha256
  substr 0 plan.p.m
  nameTop .digest

/-- The tree index of the digest. -/
def emitTreeIndex (p : Params) : Emit Slot Unit :=
  if p.idxTreeBits = 0 then num 0
  else do
    emitBeIntFrom .digest p.mdLen p.idxTreeLen
    modulo (1 <<< p.idxTreeBits)

/-- The position in the hypertree. -/
def emitIndices (p : Params) : Emit Slot Unit := do
  emitTreeIndex p
  nameTop .tree
  emitBeIntFrom .digest (p.mdLen + p.idxTreeLen) p.idxLeafLen
  modulo (1 <<< p.hp)
  nameTop .leaf

/-- The padded seed and the layer. -/
def hashBase (layer : ℕ) : Bytes := hashPad pk.seed ++ [UInt8.ofNat layer]

/-- The four bytes of the key pair, or zeros. -/
def emitKeyPair : Option Slot → Emit Slot Unit
  | some slot => do
    pick slot
    emitBeBytes 4
  | none => data (zeros 4)

/-- What the hashes of one context start with. -/
def emitHashContext (p : Params) (layer ty : ℕ) (kp : Option Slot) (trailingZeroWords : ℕ) : Emit Slot Unit := do
  Gen.ensure (layer < 256) "layer < d"
  data (hashBase pk layer)
  emitTreeBytes p .tree
  cat
  data [UInt8.ofNat ty]
  cat
  emitKeyPair kp
  cat
  Gen.forRange trailingZeroWords fun _ => do
    data (zeros 4)
    cat

/-- The bit of a slot, as a condition. -/
def emitBit (bitSlot : Slot) (bit : ℕ) : Emit Slot Unit := do
  pick bitSlot
  Gen.onlyIf (bit > 0) (divPow bit)
  modulo 2

/-- One Merkle step: `[…, node, …, auth, prefix]` to the new node. -/
def emitMerkleStep (bitSlot : Slot) (bit : ℕ) : Emit Slot Unit := do
  nameTop .pfx
  roll .node
  roll .auth
  emitBit bitSlot bit
  ifBlock swap
  cat
  cat
  sha256
  substr 0 N
  nameTop .node

/-- The words of an address behind a context: a height, and the high bytes of an index of `width` bytes. -/
def heightTail (height width : ℕ) : Bytes := beBytes 4 height ++ zeros (4 - width)

/-- A level of an authentication path: the sibling is fetched, the index above it is that of
`indexSlot`, the context is that of `contextSlot`. -/
def emitPathLevel (indexSlot contextSlot bitSlot : Slot) (width j : ℕ) : Emit Slot Unit := do
  fetch plan .auth
  pick indexSlot
  divPow (j + 1)
  emitBeBytes width
  pick contextSlot
  data (heightTail (j + 1) width)
  cat
  swap
  cat
  emitMerkleStep bitSlot j

/-- How many bytes the window of FORS index `i` has. -/
def forsFieldBytes (p : Params) (i : ℕ) : ℕ := max 3 (divCeil (p.a + i * p.a % 8) 8)

/-- FORS index `i`, a field of the digest. -/
def emitForsIndex (p : Params) (i : ℕ) : Emit Slot Unit := do
  let bit := i * p.a
  let byte0 := bit / 8
  let fieldBytes := forsFieldBytes p i
  Gen.ensure (byte0 + fieldBytes ≤ p.m) s!"FORS index {i} reads past the {p.m}-byte digest"
  let shift := fieldBytes * 8 - p.a - bit % 8
  emitBeIntFrom .digest byte0 fieldBytes
  Gen.onlyIf (shift > 0) (divPow shift)
  modulo (1 <<< p.a)
  nameTop .idx

/-- The leaf of FORS tree `i` that is opened. -/
def emitForsLeaf (i : ℕ) : Emit Slot Unit := do
  pick .idx
  num (i <<< plan.p.a : ℕ)
  binaryNumOp .OpAdd
  nameTop .lx
  fetch plan .sk
  pick .hcf
  data (zeros (4 + (4 - plan.p.forsIndexWidth)))
  cat
  pick .lx
  emitBeBytes plan.p.forsIndexWidth
  cat
  finishHash
  nameTop .node

/-- FORS tree `i`: its root is appended to `racc`. -/
def emitForsTree (i : ℕ) : Emit Slot Unit := do
  emitForsIndex plan.p i
  emitForsLeaf plan i
  Gen.forRange plan.p.a (emitPathLevel plan .lx .hcf .idx plan.p.forsIndexWidth)
  roll .racc
  swap
  cat
  nameTop .racc
  discard .lx
  discard .idx

/-- FORS: the public key from the trees. -/
def emitFors : Emit Slot Unit := do
  emitHashContext pk plan.p 0 FORS_TREE (some .leaf) 0
  nameTop .hcf
  emitHashContext pk plan.p 0 FORS_ROOTS (some .leaf) 2
  nameTop .racc
  Gen.forRange plan.p.k (emitForsTree plan)
  roll .racc
  sha256
  substr 0 N
  nameTop .node
  discard .hcf
  discard .digest

/-- The tree and the leaf of a layer. -/
def emitLayerPosition (p : Params) (layer : ℕ) : Emit Slot Unit :=
  if layer = 0 then do
    pick .tree
    nameTop .ltree
    pick .leaf
    nameTop .lleaf
  else do
    pick .tree
    divPow (p.hp * layer)
    nameTop .ltree
    pick .tree
    divPow (p.hp * (layer - 1))
    modulo (1 <<< p.hp)
    nameTop .lleaf

/-- The three contexts of a layer. -/
def emitLayerContexts (p : Params) (layer : ℕ) : Emit Slot Unit := do
  Gen.ensure (layer < 256) "layer < d"
  data (hashBase pk layer)
  emitTreeBytes p .ltree
  cat
  nameTop .hcb
  pick .lleaf
  emitBeBytes 4
  nameTop .kp4
  pick .hcb
  data [UInt8.ofNat WOTS_HASH]
  cat
  pick .kp4
  cat
  nameTop .hcw
  pick .hcb
  data [UInt8.ofNat WOTS_PK]
  cat
  pick .kp4
  cat
  data (zeros 8)
  cat
  nameTop .hcp
  pick .hcb
  data [UInt8.ofNat TREE]
  cat
  data (zeros 4)
  cat
  nameTop .hct
  discard .hcb
  discard .kp4

/-- One turn of the loop that sums up the checksum. -/
def emitChecksumTerm (p : Params) (i : ℕ) : Emit Slot Unit := do
  emitDigitOf p .node i
  num ((p.w : ℤ) - 1)
  swap
  binaryNumOp .OpSub
  binaryNumOp .OpAdd
  nameTop .csum

/-- Digit `j` of the checksum. -/
def emitChecksumDigit (p : Params) (j : ℕ) : Emit Slot Unit := do
  let shift := p.csumBits - p.lgw * (j + 1)
  pick .csum
  Gen.onlyIf (shift > 0) (divPow shift)
  Gen.onlyIf (j > 0) (modulo p.w)

/-- The digit of chain `i`. -/
def emitChainDigit (p : Params) (i : ℕ) : Emit Slot Unit :=
  if i < p.len1 then emitDigitOf p .node i else emitChecksumDigit p (i - p.len1)

/-- One step of a chain, taken if the digit has been reached. -/
def emitChainStep (step : ℕ) : Emit Slot Unit := do
  «over»
  num step
  binaryNumOp .OpLessThanOrEqual
  ifBlock do
    pick .hcwi
    Gen.ensure (step < 256) "step < w <= 16"
    data [UInt8.ofNat step]
    cat
    finishHash
    nameTop .x

/-- One chain: its end is appended to `acc`. -/
def emitChain (i : ℕ) : Emit Slot Unit := do
  emitChainDigit plan.p i
  nameTop .d
  pick .hcw
  data (beBytes 4 i ++ zeros 3)
  cat
  nameTop .hcwi
  roll .d
  fetch plan .x
  Gen.forRange (plan.p.w - 1) emitChainStep
  discard .d
  discard .hcwi
  roll .acc
  swap
  cat
  nameTop .acc

/-- The one-time public key that the signature leads to, in place of the node it signs. -/
def emitWots : Emit Slot Unit := do
  num 0
  nameTop .csum
  Gen.forRange plan.p.len1 (emitChecksumTerm plan.p)
  pick .hcp
  nameTop .acc
  Gen.forRange plan.p.len (emitChain plan)
  roll .acc
  sha256
  substr 0 N
  nameTop .wpk
  discard .node
  discard .csum
  discard .hcw
  discard .hcp
  nameTop .node

/-- One layer of the hypertree. -/
def emitLayer (layer : ℕ) : Emit Slot Unit := do
  emitLayerPosition plan.p layer
  emitLayerContexts pk plan.p layer
  emitWots plan
  Gen.forRange plan.p.hp (emitPathLevel plan .lleaf .hct .lleaf plan.p.xmssIndexWidth)
  discard .hct
  discard .ltree
  discard .lleaf

/-- The blobs go to the alt stack, which turns them over: the first one needed is on top. -/
def emitPrologue (blobCount : ℕ) : Emit Slot Unit := Gen.forRange blobCount fun _ => op .OpToAltStack

/-- The account is settled: everything is consumed, and one node is left. -/
def checkConsumed (p : Params) : Emit Slot Unit := do
  let e ← Gen.get
  let elements := p.sigElements
  Gen.ensure (e.nextElement = elements) s!"verifier consumed {e.nextElement} of {elements} signature elements"
  Gen.ensure (e.pending = 0) s!"{e.pending} sliced elements were never consumed"
  onFrame (Frame.expectTop [.node])
  Gen.ensure (e.f.length = 1) s!"verifier left {e.f.length - 1} stray stack items"

/-- The verifier, for a message on top of the stack. -/
def emitBody : Emit Slot Unit := do
  emitHMsg plan pk
  emitIndices plan.p
  emitFors plan pk
  Gen.forRange plan.p.d (emitLayer plan pk)
  discard .tree
  discard .leaf
  checkConsumed plan.p
  data pk.root.bytes
  op .OpEqual
  onFrame (Frame.replace SlotName.transient 2)

/-- The message is on the stack; the frame learns of it. -/
def pushMessage : Emit Slot Unit := onFrame fun f => .ok (f.push .d)

/-- The redeem script of a vault: the message is the digest of the transaction. -/
def emitVaultScript (outputCount : ℕ) : Emit Slot Unit := do
  emitPrologue plan.blobCount
  VaultCore.emitBindingDigest outputCount
  pushMessage
  emitBody plan pk

/-- A bare verifier, which takes its message from the witness. -/
def emitVerify : Emit Slot Unit := do
  emitPrologue plan.blobCount
  pushMessage
  emitBody plan pk

end Emitter

/-- A script and what it was made with. -/
structure VaultScript where
  script : List Instr
  plan : BlobPlan
  /-- The largest frame the emitter has held. -/
  peakFrame : ℕ

/-- The most items the two stacks hold together. -/
def VaultScript.peakStack (s : VaultScript) : ℕ := s.plan.peakStackEstimate s.peakFrame

/-- The script that a new emitter writes. -/
def buildWith (plan : BlobPlan) (m : Emitter.Emit Slot Unit) : Except String VaultScript :=
  (m (EmitState.new Slot)).map fun r => ⟨r.2.2, plan, r.2.1.peakFrame⟩

/-- Build a bare verifier. -/
def buildVerifyScript (pk : PublicKey) (plan : BlobPlan) : Except String VaultScript :=
  buildWith plan (Emitter.emitVerify plan pk)

/-- Build the redeem script of a vault. -/
def buildVaultScript (pk : PublicKey) (plan : BlobPlan) (outputCount : ℕ) : Except String VaultScript :=
  buildWith plan (Emitter.emitVaultScript plan pk outputCount)

end KaspaPqv.SlhScript
