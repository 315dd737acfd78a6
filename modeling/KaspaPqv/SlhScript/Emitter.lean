import KaspaPqv.Script.Engine
import KaspaPqv.SlhScript.Frame
import KaspaPqv.SlhScript.Witness

/-!
# The emitter

The emitter writes opcodes and keeps the frame in step with them. Its primitives write an
opcode or two and change the frame as the opcodes change the stack; what is longer is put
together from them. The signature comes from a queue of blobs on the alt stack, of which the
emitter knows only how many elements it has consumed and how many are cut and waiting.

A panic of the generator is an error here, as it leaves no script either.
-/

namespace KaspaPqv.SlhScript

open KaspaPqv.Lib KaspaPqv.Script

/-- What an emitter keeps account of. -/
structure EmitState (ν : Type) where
  /-- The data stack. -/
  f : Frame ν
  /-- The next element of the signature to consume. -/
  nextElement : ℕ
  /-- Elements that are cut and not yet consumed. -/
  pending : ℕ
  /-- The largest frame there has been. -/
  peakFrame : ℕ

/-- The state of a new emitter. -/
def EmitState.new (ν : Type) : EmitState ν := ⟨[], 0, 0, 0⟩

namespace Emitter

variable {ν : Type} [SlotName ν] [DecidableEq ν]

/-- The generators of the verifier. -/
abbrev Emit (ν : Type) := Gen (EmitState ν) Instr String

/-! ### Primitives -/

/-- Change the frame, or fail. -/
def onFrame (u : Frame ν → Except String (Frame ν)) : Emit ν Unit := fun g =>
  match u g.f with
  | .ok f => .ok ((), { g with f }, [])
  | .error e => .error e

def notePeak : Emit ν Unit := Gen.modify fun g => { g with peakFrame := max g.peakFrame g.f.length }

/-- A new slot, and a note of how large the frame is now. -/
def pushSlot (name : ν) : Emit ν Unit := do
  onFrame fun f => .ok (f.push name)
  notePeak

def pushTransient : Emit ν Unit := pushSlot SlotName.transient

def op (code : Opcode) : Emit ν Unit := ScriptWriter.op code

def data (bytes : Bytes) : Emit ν Unit := do
  ScriptWriter.data bytes
  pushTransient

def num (value : ℤ) : Emit ν Unit := do
  ScriptWriter.num value
  pushTransient

def cat : Emit ν Unit := do
  op .OpCat
  onFrame (Frame.replace SlotName.transient 2)

def sha256 : Emit ν Unit := do
  op .OpSHA256
  onFrame (Frame.replace SlotName.transient 1)

def swap : Emit ν Unit := do
  op .OpSwap
  onFrame Frame.swap

def dup : Emit ν Unit := do
  op .OpDup
  pushTransient

def «over» : Emit ν Unit := do
  op .OpOver
  pushTransient

def dropTop : Emit ν Unit := do
  op .OpDrop
  onFrame Frame.pop

def binaryNumOp (code : Opcode) : Emit ν Unit := do
  op code
  onFrame (Frame.replace SlotName.transient 2)

/-- The depth of a named slot. -/
def depthOf (name : ν) : Emit ν ℕ := fun g =>
  match g.f.depth name with
  | .ok depth => .ok (depth, g, [])
  | .error e => .error e

/-- Copy a named slot to the top of the stack. -/
def pick (name : ν) : Emit ν Unit := do
  let depth ← depthOf name
  num depth
  op .OpPick
  onFrame Frame.pop
  pushTransient

/-- `OpRoll` by a literal depth. -/
def rollDepth (depth : ℕ) : Emit ν Unit := do
  num depth
  op .OpRoll
  onFrame Frame.pop
  onFrame (Frame.roll depth)

/-- Move a named slot to the top of the stack. -/
def roll (name : ν) : Emit ν Unit := do
  let depth ← depthOf name
  rollDepth depth

def nameTop (name : ν) : Emit ν Unit := onFrame (Frame.renameTop name)

def discard (name : ν) : Emit ν Unit := do
  roll name
  dropTop

def substr (start stop : ℕ) : Emit ν Unit := do
  num start
  num stop
  op .OpSubstr
  onFrame (Frame.replace SlotName.transient 3)

/-- A block that runs if the condition on top is true; the frame takes it to be run. -/
def ifBlock (body : Emit ν Unit) : Emit ν Unit := do
  op .OpIf
  onFrame Frame.pop
  body
  op .OpEndIf

/-! ### What is put together from them -/

/-- One turn of the reversal: byte `k` of the little-endian string goes behind the rest. -/
def reverseByte (k : ℕ) : Emit ν Unit := do
  swap
  dup
  substr k (k + 1)
  rollDepth 2
  swap
  cat

/-- Rewrite the number on top of the stack as `width` big-endian bytes. -/
def emitBeBytes (width : ℕ) : Emit ν Unit := do
  Gen.ensure (1 ≤ width ∧ width ≤ 8) s!"OpNum2Bin handles 1..=8 bytes, not {width}"
  num width
  op .OpNum2Bin
  onFrame (Frame.replace SlotName.transient 2)
  Gen.onlyIf (width ≠ 1) do
    dup
    substr (width - 1) width
    -- `for k in (0..width - 1).rev()`
    Gen.forRange (width - 1) fun i => reverseByte (width - 2 - i)
    op .OpNip
    onFrame Frame.nip

/-- One byte of a slot, as a number: a zero byte on top clears the sign bit. -/
def emitByte (name : ν) (i : ℕ) : Emit ν Unit := do
  pick name
  substr i (i + 1)
  data [0]
  cat
  op .OpBin2Num
  onFrame (Frame.replace SlotName.transient 1)

/-- Read bytes `start` to `start + len` of a named slot as a big-endian integer. -/
def emitBeIntFrom (name : ν) (start len : ℕ) : Emit ν Unit := do
  Gen.ensure (len > 0 ∧ len ≤ 7) s!"big-endian field of {len} bytes will not fit an i64"
  num 0
  Gen.forRange len fun i => do
    num 256
    binaryNumOp .OpMul
    emitByte name (start + i)
    binaryNumOp .OpAdd

/-- Divide the number on top by a power of two. -/
def divPow (k : ℕ) : Emit ν Unit := do
  num (1 <<< k : ℕ)
  binaryNumOp .OpDiv

/-- The remainder of the number on top. -/
def modulo (modulus : ℕ) : Emit ν Unit := do
  num modulus
  binaryNumOp .OpMod

/-- The `i`-th digit of a named 16-byte slot. -/
def emitDigitOf (p : Params) (name : ν) (i : ℕ) : Emit ν Unit := do
  let perByte := 8 / p.lgw
  let byte := i / perByte
  let pos := i % perByte
  let shift := 8 - p.lgw * (pos + 1)
  emitByte name byte
  Gen.onlyIf (shift > 0) (divPow shift)
  -- the first digit of a byte is below `w` already
  Gen.onlyIf (pos > 0) (modulo p.w)

/-- The 8-byte tree address; a hypertree of one layer has only tree zero. -/
def emitTreeBytes (p : Params) (slot : ν) : Emit ν Unit :=
  if p.idxTreeBits = 0 then data (zeros 8)
  else do
    pick slot
    emitBeBytes 8

/-! ### The witness queue -/

/-- Cut the last element off the blob on top, which has `k + 1` elements. -/
def peel (k : ℕ) : Emit ν Unit := do
  let len := (k + 1) * N
  dup
  substr (len - N) len
  op .OpToAltStack
  onFrame Frame.pop
  substr 0 (len - N)

/-- Cut one blob into `count` elements, the first of them on top of the alt stack. -/
def sliceBlob (count : ℕ) : Emit ν Unit := do
  op .OpFromAltStack
  pushTransient
  -- `for k in (1..count).rev()`
  Gen.forRange (count - 1) fun i => peel (count - 1 - i)
  op .OpToAltStack
  onFrame Frame.pop
  Gen.modify fun g => { g with pending := count }

/-- Cut the blob that the next element is the first of. -/
def cutNext (plan : BlobPlan) : Emit ν Unit := do
  let g ← Gen.get
  match plan.locate g.nextElement with
  | none => Gen.fail s!"element {g.nextElement} is past the end of the signature"
  | some (blob, pos) => do
    Gen.ensure (pos = 0) s!"blob {blob} was entered at element {pos}, not its start"
    sliceBlob (plan.blobs.getD blob 0)

/-- Fetch the next element of the signature onto the top of the stack. -/
def fetch (plan : BlobPlan) (name : ν) : Emit ν Unit := do
  let g ← Gen.get
  Gen.onlyIf (g.pending = 0) (cutNext plan)
  op .OpFromAltStack
  pushSlot name
  Gen.modify fun g => { g with pending := g.pending - 1, nextElement := g.nextElement + 1 }

/-! ### Hashing -/

/-- The hash of a prefix on top and a message beneath it. -/
def finishHash : Emit ν Unit := do
  swap
  cat
  sha256
  substr 0 N

end Emitter

end KaspaPqv.SlhScript
