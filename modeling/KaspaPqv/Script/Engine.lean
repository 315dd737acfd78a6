import KaspaPqv.Lib.CodeGen
import KaspaPqv.Lib.SignMagnitude

/-!
# The Kaspa script engine

The opcodes the emitters use, with the semantics their documentation gives, and the
engine that runs a script on two stacks of byte strings. A number is an item that is
the minimal sign-magnitude encoding of its value; a boolean is the empty string or a
single byte `1`. A script is a flat list: `OpIf` and `OpEndIf` push and pop a stack
of conditions, and an instruction other than those two is skipped unless the
innermost condition is true.

## The model

* `Opcode.exec` is one opcode on the two stacks; `none` aborts the script.
* `step` adds the conditions, `run` is a whole script, `execute` starts from given
  items and demands that every `OpIf` was closed.
* Only the opcodes the repository emits are here. Limits on the number of items,
  the length of an item, the number of opcodes and the script units are not modelled.
-/

namespace KaspaPqv.Script

open KaspaPqv.Lib

/-! ### Transactions -/

/-- Where a coin comes from. -/
structure Outpoint where
  /-- The transaction. -/
  transactionId : Block 32
  /-- Which of its outputs. -/
  index : UInt32
  deriving DecidableEq

/-- A script public key. -/
structure ScriptPublicKey where
  version : UInt16
  script : Bytes
  deriving DecidableEq

/-- One output of a transaction. -/
structure TransactionOutput where
  value : UInt64
  scriptPublicKey : ScriptPublicKey
  deriving DecidableEq

/-- What the introspection opcodes see of a transaction. The bound is that of a Rust
vector's length. -/
structure Transaction where
  version : UInt16
  inputs : List Outpoint
  outputs : List TransactionOutput
  inputs_bound : inputs.length < 2 ^ 63

/-- The transaction a script runs in, and the input it runs for. -/
structure TxContext where
  tx : Transaction
  /-- The input the script unlocks. -/
  input : Fin tx.inputs.length

/-- The outpoint of the input the script runs for. -/
def TxContext.outpoint (c : TxContext) : Outpoint := c.tx.inputs.get c.input

/-- What a script runs in: the hash function, and the transaction if there is one. -/
structure Env where
  sha256 : Bytes → Block 32
  tx : Option TxContext

/-! ### Opcodes -/

/-- The opcodes the emitters use. -/
inductive Opcode where
  | OpIf | OpEndIf
  | OpToAltStack | OpFromAltStack
  | OpSwap | OpDup | OpOver | OpDrop | OpNip | OpPick | OpRoll
  | OpCat | OpSubstr | OpNum2Bin | OpBin2Num
  | OpAdd | OpSub | OpMul | OpDiv | OpMod
  | OpLessThanOrEqual | OpGreaterThanOrEqual | OpEqual
  | OpSHA256
  | OpTxVersion | OpTxInputIndex | OpOutpointTxId | OpOutpointIndex
  | OpTxOutputCount | OpTxOutputAmount | OpTxOutputSpkLen | OpTxOutputSpk
  deriving DecidableEq

/-- An instruction: a push of bytes, or an opcode. -/
inductive Instr where
  | push (bytes : Bytes)
  | op (code : Opcode)
  deriving DecidableEq

/-- The two stacks, top first. -/
structure Stacks where
  data : List Bytes
  alt : List Bytes

/-- The item a boolean is. -/
def boolBytes (b : Bool) : Bytes := if b then [1] else []

/-- An item taken as a condition: `OpIf` accepts only the two booleans. -/
def condition : Bytes → Option Bool
  | [] => some false
  | [1] => some true
  | _ => none

/-- Whether an item counts as true: some byte is set, a lone sign bit on top apart. -/
def isTrue (bs : Bytes) : Bool := bs.dropLast.any (· ≠ 0) || (bs.getLast?.any fun b => b ≠ 0 && b ≠ 0x80)

/-- Push a number; it must fit eight bytes. -/
def pushNum (v : ℤ) (s : Stacks) : Option Stacks :=
  if v.natAbs < 2 ^ 63 then some { s with data := encodeNum v :: s.data } else none

/-- An operand that is an index or a length. -/
def decodeIndex (bs : Bytes) : Option ℕ :=
  (decodeNum bs).bind fun v => if 0 ≤ v then some v.toNat else none

/-- An opcode that takes two numbers and pushes one. -/
def numericOp (f : ℤ → ℤ → Option ℤ) : Stacks → Option Stacks
  | ⟨y :: x :: d, alt⟩ => do
    let b ← decodeNum y
    let a ← decodeNum x
    let v ← f a b
    pushNum v ⟨d, alt⟩
  | _ => none

/-- An opcode that compares two numbers. -/
def compareOp (f : ℤ → ℤ → Bool) : Stacks → Option Stacks
  | ⟨y :: x :: d, alt⟩ => do
    let b ← decodeNum y
    let a ← decodeNum x
    some ⟨boolBytes (f a b) :: d, alt⟩
  | _ => none

/-- An opcode that pushes a field of an output it is given the index of. -/
def outputOp (env : Env) (push : TransactionOutput → Stacks → Option Stacks) : Stacks → Option Stacks
  | ⟨i :: d, alt⟩ => do
    let c ← env.tx
    let k ← decodeIndex i
    let o ← c.tx.outputs[k]?
    push o ⟨d, alt⟩
  | _ => none

/-- An opcode that pushes a field of the outpoint of an input it is given the index of. -/
def outpointOp (env : Env) (push : Outpoint → Stacks → Option Stacks) : Stacks → Option Stacks
  | ⟨i :: d, alt⟩ => do
    let c ← env.tx
    let k ← decodeIndex i
    let o ← c.tx.inputs[k]?
    push o ⟨d, alt⟩
  | _ => none

/-- What `OpTxOutputSpk` pushes: the version, big-endian, and the script. -/
def ScriptPublicKey.wire (spk : ScriptPublicKey) : Bytes := beBytes 2 spk.version.toNat ++ spk.script

/-- One opcode on the stacks. `OpIf` and `OpEndIf` are the engine's own (`step`). -/
def Opcode.exec (env : Env) : Opcode → Stacks → Option Stacks
  | .OpIf, _ => none
  | .OpEndIf, _ => none
  | .OpToAltStack, ⟨x :: d, alt⟩ => some ⟨d, x :: alt⟩
  | .OpFromAltStack, ⟨d, x :: alt⟩ => some ⟨x :: d, alt⟩
  | .OpSwap, ⟨y :: x :: d, alt⟩ => some ⟨x :: y :: d, alt⟩
  | .OpDup, ⟨x :: d, alt⟩ => some ⟨x :: x :: d, alt⟩
  | .OpOver, ⟨y :: x :: d, alt⟩ => some ⟨x :: y :: x :: d, alt⟩
  | .OpDrop, ⟨_ :: d, alt⟩ => some ⟨d, alt⟩
  | .OpNip, ⟨y :: _ :: d, alt⟩ => some ⟨y :: d, alt⟩
  | .OpPick, ⟨n :: d, alt⟩ => do
    let k ← decodeIndex n
    let x ← d[k]?
    some ⟨x :: d, alt⟩
  | .OpRoll, ⟨n :: d, alt⟩ => do
    let k ← decodeIndex n
    let x ← d[k]?
    some ⟨x :: d.eraseIdx k, alt⟩
  | .OpCat, ⟨y :: x :: d, alt⟩ => some ⟨(x ++ y) :: d, alt⟩
  | .OpSubstr, ⟨stop :: start :: x :: d, alt⟩ => do
    let j ← decodeIndex stop
    let i ← decodeIndex start
    if i ≤ j ∧ j ≤ x.length then some ⟨slice x i j :: d, alt⟩ else none
  | .OpNum2Bin, ⟨size :: x :: d, alt⟩ => do
    let w ← decodeIndex size
    let v ← decodeNum x
    if w ≤ 8 ∧ v.natAbs < 2 ^ (8 * w - 1) then some ⟨signMagnitude w v :: d, alt⟩ else none
  | .OpBin2Num, ⟨x :: d, alt⟩ => pushNum (numValue x) ⟨d, alt⟩
  | .OpAdd, s => numericOp (fun a b => some (a + b)) s
  | .OpSub, s => numericOp (fun a b => some (a - b)) s
  | .OpMul, s => numericOp (fun a b => some (a * b)) s
  | .OpDiv, s => numericOp (fun a b => if b = 0 then none else some (a.tdiv b)) s
  | .OpMod, s => numericOp (fun a b => if b = 0 then none else some (a.tmod b)) s
  | .OpLessThanOrEqual, s => compareOp (fun a b => a ≤ b) s
  | .OpGreaterThanOrEqual, s => compareOp (fun a b => a ≥ b) s
  | .OpEqual, ⟨y :: x :: d, alt⟩ => some ⟨boolBytes (x = y) :: d, alt⟩
  | .OpSHA256, ⟨x :: d, alt⟩ => some ⟨(env.sha256 x).bytes :: d, alt⟩
  | .OpTxVersion, s => env.tx.bind fun c => pushNum c.tx.version.toNat s
  | .OpTxInputIndex, s => env.tx.bind fun c => pushNum (c.input : ℕ) s
  | .OpOutpointTxId, s =>
    outpointOp env (fun o s => some { s with data := o.transactionId.bytes :: s.data }) s
  | .OpOutpointIndex, s => outpointOp env (fun o s => pushNum o.index.toNat s) s
  | .OpTxOutputCount, s => env.tx.bind fun c => pushNum c.tx.outputs.length s
  | .OpTxOutputAmount, s => outputOp env (fun o s => pushNum o.value.toNat s) s
  | .OpTxOutputSpkLen, s => outputOp env (fun o s => pushNum o.scriptPublicKey.wire.length s) s
  | .OpTxOutputSpk, s =>
    outputOp env (fun o s => some { s with data := o.scriptPublicKey.wire :: s.data }) s
  | _, _ => none

/-! ### Running a script -/

/-- What an open `OpIf` found: a true or a false condition, or that it was itself skipped. -/
inductive OpCond where
  | yes | no | skip
  deriving DecidableEq

/-- The engine: the stacks, and the open conditions, innermost first. -/
structure Machine where
  stack : Stacks
  cond : List OpCond

/-- Whether instructions are being executed. -/
def executing : List OpCond → Bool
  | [] => true
  | c :: _ => c = .yes

/-- `OpIf`: take a condition, or note that the block is skipped. -/
def openIf (m : Machine) : Option Machine :=
  if executing m.cond then
    match m.stack with
    | ⟨x :: d, alt⟩ => (condition x).map fun b => ⟨⟨d, alt⟩, (if b then .yes else .no) :: m.cond⟩
    | _ => none
  else some { m with cond := .skip :: m.cond }

/-- `OpEndIf`: close the innermost `OpIf`. -/
def closeIf (m : Machine) : Option Machine :=
  match m.cond with
  | [] => none
  | _ :: cs => some { m with cond := cs }

/-- One instruction on the stacks. -/
def Instr.exec (env : Env) : Instr → Stacks → Option Stacks
  | .push bs, s => some { s with data := bs :: s.data }
  | .op c, s => c.exec env s

/-- One instruction. -/
def step (env : Env) (m : Machine) (i : Instr) : Option Machine :=
  if i = .op .OpIf then openIf m
  else if i = .op .OpEndIf then closeIf m
  else if executing m.cond then (i.exec env m.stack).map fun s => { m with stack := s }
  else some m

/-- A list of instructions. -/
def run (env : Env) (is : List Instr) (m : Machine) : Option Machine := is.foldlM (step env) m

/-- Execute a script from the given data stack, top first: the data stack it ends with. -/
def execute (env : Env) (is : List Instr) (items : List Bytes) : Option (List Bytes) :=
  (run env is ⟨⟨items, []⟩, []⟩).bind fun m => if m.cond = [] then some m.stack.data else none

theorem run_nil (env : Env) (m : Machine) : run env [] m = some m := rfl

theorem run_append (env : Env) (is js : List Instr) (m : Machine) :
    run env (is ++ js) m = (run env is m).bind (run env js) := by
  simp [run, List.foldlM_append]
  rfl

theorem run_cons (env : Env) (i : Instr) (is : List Instr) (m : Machine) :
    run env (i :: is) m = (step env m i).bind (run env is) := rfl

/-- Code that does nothing where instructions are skipped. -/
def Skipped (env : Env) (is : List Instr) : Prop :=
  ∀ m : Machine, executing m.cond = false → run env is m = some m

/-- The engine as a target of code generation. -/
def engine (env : Env) : Backend Instr Machine where
  run := run env
  run_nil := run_nil env
  run_append := run_append env
  inert := Skipped env
  inert_nil := fun m _ => run_nil env m
  inert_append := fun hi hj m hm => by rw [run_append, hi m hm]; exact hj m hm

/-! ### Writing a script -/

namespace ScriptWriter

variable {σ : Type}

/-- Append an opcode. -/
def op (code : Opcode) : Gen σ Instr String Unit := .emit [.op code]

theorem op_apply (code : Opcode) (g : σ) :
    (op code : Gen σ Instr String Unit) g = .ok ((), g, [.op code]) := rfl

/-- Append a push of the given bytes. -/
def data (bytes : Bytes) : Gen σ Instr String Unit := .emit [.push bytes]

theorem data_apply (bytes : Bytes) (g : σ) :
    (data bytes : Gen σ Instr String Unit) g = .ok ((), g, [.push bytes]) := rfl

/-- Append a push of a number. -/
def num (value : ℤ) : Gen σ Instr String Unit := .emit [.push (encodeNum value)]

end ScriptWriter

end KaspaPqv.Script
