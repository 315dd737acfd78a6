import KaspaPqv.Script.Engine
import Mathlib.Tactic.SplitIfs

/-!
# Rules for the opcodes

What each opcode does on items of the expected shape, and the rules by which the
emitted code of a whole generator is followed: `Runs env m s s'` says that `m`
generates, that its code takes the stacks `s` to `s'`, and that the code does nothing
where it is skipped.

## What is proved

* `exec_add`, `exec_substr`, … — one equation for each opcode with operands.
* `Runs.seq`, `Runs.forRange`, `Runs.block` — sequencing, loops of the generator, and
  a block between `OpIf` and `OpEndIf`.
-/

namespace KaspaPqv.Script

open KaspaPqv.Lib

variable {σ : Type} {env : Env}

/-! ### Operands -/

theorem decodeNum_natCast {n : ℕ} (h : n < 2 ^ 63) : decodeNum (encodeNum n) = some (n : ℤ) :=
  decodeNum_encodeNum (by simpa using h)

theorem decodeIndex_natCast {n : ℕ} (h : n < 2 ^ 63) : decodeIndex (encodeNum n) = some n := by
  simp [decodeIndex, decodeNum_natCast h]

theorem pushNum_natCast {n : ℕ} (h : n < 2 ^ 63) (s : Stacks) :
    pushNum n s = some { s with data := encodeNum n :: s.data } := by
  rw [pushNum, if_pos (by simpa using h)]

theorem pushNum_natCast_eq_none {n : ℕ} (h : ¬n < 2 ^ 63) (s : Stacks) : pushNum n s = none := by
  rw [pushNum, if_neg (by simpa using h)]

@[simp] theorem isTrue_boolBytes (b : Bool) : isTrue (boolBytes b) = b := by cases b <;> rfl

theorem isTrue_decide {p : Prop} [Decidable p] : isTrue (boolBytes p) = true ↔ p := by
  rw [isTrue_boolBytes, decide_eq_true_iff]

@[simp] theorem condition_boolBytes (b : Bool) : condition (boolBytes b) = some b := by
  cases b <;> rfl

theorem boolBytes_inj {b b' : Bool} (h : boolBytes b = boolBytes b') : b = b' :=
  Option.some.inj (by rw [← condition_boolBytes, h, condition_boolBytes])

theorem eq_boolBytes_of_condition {x : Bytes} {b : Bool} (h : condition x = some b) : x = boolBytes b := by
  unfold condition at h
  split at h
  · cases h; rfl
  · cases h; rfl
  · cases h

/-- The remainder modulo two, as a condition. -/
theorem encodeNum_mod_two (n : ℕ) : encodeNum ((n % 2 : ℕ) : ℤ) = boolBytes (n % 2 = 1) := by
  rcases Nat.mod_two_eq_zero_or_one n with h | h <;> rw [h] <;> rfl

/-! ### What an opcode is -/

section equations

variable {d alt : List Bytes}

theorem add_eq (s : Stacks) : Opcode.exec env .OpAdd s = numericOp (fun a b => some (a + b)) s := rfl

theorem sub_eq (s : Stacks) : Opcode.exec env .OpSub s = numericOp (fun a b => some (a - b)) s := rfl

theorem mul_eq (s : Stacks) : Opcode.exec env .OpMul s = numericOp (fun a b => some (a * b)) s := rfl

theorem div_eq (s : Stacks) : Opcode.exec env .OpDiv s =
    numericOp (fun a b => if b = 0 then none else some (a.tdiv b)) s := rfl

theorem mod_eq (s : Stacks) : Opcode.exec env .OpMod s =
    numericOp (fun a b => if b = 0 then none else some (a.tmod b)) s := rfl

theorem lessThanOrEqual_eq (s : Stacks) :
    Opcode.exec env .OpLessThanOrEqual s = compareOp (fun a b => a ≤ b) s := rfl

theorem greaterThanOrEqual_eq (s : Stacks) :
    Opcode.exec env .OpGreaterThanOrEqual s = compareOp (fun a b => a ≥ b) s := rfl

theorem exec_cat (x y : Bytes) : Opcode.exec env .OpCat ⟨y :: x :: d, alt⟩ = some ⟨(x ++ y) :: d, alt⟩ := rfl

theorem pick_eq (n : Bytes) : Opcode.exec env .OpPick ⟨n :: d, alt⟩ =
    (decodeIndex n).bind fun k => d[k]?.bind fun x => some ⟨x :: d, alt⟩ := rfl

theorem roll_eq (n : Bytes) : Opcode.exec env .OpRoll ⟨n :: d, alt⟩ =
    (decodeIndex n).bind fun k => d[k]?.bind fun x => some ⟨x :: d.eraseIdx k, alt⟩ := rfl

theorem substr_eq (stop start x : Bytes) : Opcode.exec env .OpSubstr ⟨stop :: start :: x :: d, alt⟩ =
    (decodeIndex stop).bind fun j => (decodeIndex start).bind fun i =>
      if i ≤ j ∧ j ≤ x.length then some ⟨slice x i j :: d, alt⟩ else none := rfl

theorem num2Bin_eq (x size : Bytes) : Opcode.exec env .OpNum2Bin ⟨size :: x :: d, alt⟩ =
    (decodeIndex size).bind fun w => (decodeNum x).bind fun v =>
      if w ≤ 8 ∧ v.natAbs < 2 ^ (8 * w - 1) then some ⟨signMagnitude w v :: d, alt⟩ else none := rfl

end equations

/-! ### Opcodes -/

section exec

variable {a b : ℕ} {d alt : List Bytes}

theorem exec_add (h : a + b < 2 ^ 63) : Opcode.exec env .OpAdd ⟨encodeNum b :: encodeNum a :: d, alt⟩ =
    some ⟨encodeNum ((a + b : ℕ) : ℤ) :: d, alt⟩ := by
  simp only [add_eq, numericOp, decodeNum_natCast (show b < 2 ^ 63 by omega), decodeNum_natCast (show a < 2 ^ 63 by omega)]
  exact pushNum_natCast h _

theorem exec_sub (h : b ≤ a) (ha : a < 2 ^ 63) :
    Opcode.exec env .OpSub ⟨encodeNum b :: encodeNum a :: d, alt⟩ =
      some ⟨encodeNum ((a - b : ℕ) : ℤ) :: d, alt⟩ := by
  simp only [sub_eq, numericOp, decodeNum_natCast (show b < 2 ^ 63 by omega), decodeNum_natCast ha]
  have hsub : (a : ℤ) - b = ((a - b : ℕ) : ℤ) := by omega
  change pushNum ((a : ℤ) - b) _ = _
  rw [hsub, pushNum_natCast (by omega)]

theorem exec_mul (ha : a < 2 ^ 63) (hb : b < 2 ^ 63) (h : a * b < 2 ^ 63) :
    Opcode.exec env .OpMul ⟨encodeNum b :: encodeNum a :: d, alt⟩ =
      some ⟨encodeNum ((a * b : ℕ) : ℤ) :: d, alt⟩ := by
  simp only [mul_eq, numericOp, decodeNum_natCast hb, decodeNum_natCast ha]
  change pushNum ((a : ℤ) * b) _ = _
  rw [← Nat.cast_mul, pushNum_natCast h]

theorem exec_div (ha : a < 2 ^ 63) (hb : 0 < b) (hb' : b < 2 ^ 63) :
    Opcode.exec env .OpDiv ⟨encodeNum b :: encodeNum a :: d, alt⟩ =
      some ⟨encodeNum ((a / b : ℕ) : ℤ) :: d, alt⟩ := by
  simp only [div_eq, numericOp, decodeNum_natCast hb', decodeNum_natCast ha]
  have hne : ¬(b : ℤ) = 0 := by omega
  have hlt : a / b < 2 ^ 63 := (Nat.div_le_self a b).trans_lt ha
  change (if (b : ℤ) = 0 then none else some ((a : ℤ).tdiv b)).bind (pushNum · _) = _
  rw [if_neg hne, Option.bind_some, ← Int.ofNat_tdiv, pushNum_natCast hlt]

theorem exec_mod (ha : a < 2 ^ 63) (hb : 0 < b) (hb' : b < 2 ^ 63) :
    Opcode.exec env .OpMod ⟨encodeNum b :: encodeNum a :: d, alt⟩ =
      some ⟨encodeNum ((a % b : ℕ) : ℤ) :: d, alt⟩ := by
  simp only [mod_eq, numericOp, decodeNum_natCast hb', decodeNum_natCast ha]
  have hne : ¬(b : ℤ) = 0 := by omega
  have hlt : a % b < 2 ^ 63 := (Nat.mod_le a b).trans_lt ha
  change (if (b : ℤ) = 0 then none else some ((a : ℤ).tmod b)).bind (pushNum · _) = _
  rw [if_neg hne, Option.bind_some, ← Int.ofNat_tmod, pushNum_natCast hlt]

theorem exec_lessThanOrEqual (ha : a < 2 ^ 63) (hb : b < 2 ^ 63) :
    Opcode.exec env .OpLessThanOrEqual ⟨encodeNum b :: encodeNum a :: d, alt⟩ =
      some ⟨boolBytes (a ≤ b) :: d, alt⟩ := by
  simp [lessThanOrEqual_eq, compareOp, decodeNum_natCast hb, decodeNum_natCast ha]

theorem exec_greaterThanOrEqual (ha : a < 2 ^ 63) (hb : b < 2 ^ 63) :
    Opcode.exec env .OpGreaterThanOrEqual ⟨encodeNum b :: encodeNum a :: d, alt⟩ =
      some ⟨boolBytes (b ≤ a) :: d, alt⟩ := by
  simp [greaterThanOrEqual_eq, compareOp, decodeNum_natCast hb, decodeNum_natCast ha]

theorem exec_pick {k : ℕ} {x : Bytes} (hk : k < 2 ^ 63) (hx : d[k]? = some x) :
    Opcode.exec env .OpPick ⟨encodeNum k :: d, alt⟩ = some ⟨x :: d, alt⟩ := by
  rw [pick_eq, decodeIndex_natCast hk, Option.bind_some, hx, Option.bind_some]

theorem exec_roll {k : ℕ} {x : Bytes} (hk : k < 2 ^ 63) (hx : d[k]? = some x) :
    Opcode.exec env .OpRoll ⟨encodeNum k :: d, alt⟩ = some ⟨x :: d.eraseIdx k, alt⟩ := by
  rw [roll_eq, decodeIndex_natCast hk, Option.bind_some, hx, Option.bind_some]

theorem exec_substr {x : Bytes} {i j : ℕ} (hij : i ≤ j) (hj : j ≤ x.length) (hb : j < 2 ^ 63) :
    Opcode.exec env .OpSubstr ⟨encodeNum j :: encodeNum i :: x :: d, alt⟩ =
      some ⟨slice x i j :: d, alt⟩ := by
  rw [substr_eq, decodeIndex_natCast hb, Option.bind_some, decodeIndex_natCast (hij.trans_lt hb), Option.bind_some,
    if_pos ⟨hij, hj⟩]

theorem exec_num2Bin {w v : ℕ} (hw : w ≤ 8) (hv : v < 2 ^ (8 * w - 1)) :
    Opcode.exec env .OpNum2Bin ⟨encodeNum w :: encodeNum v :: d, alt⟩ =
      some ⟨leBytes w v :: d, alt⟩ := by
  have hv' : v < 2 ^ 63 := hv.trans_le (Nat.pow_le_pow_right (by norm_num) (by omega))
  rw [num2Bin_eq, decodeIndex_natCast (by omega), decodeNum_natCast hv']
  simp [hw, hv, signMagnitude_natCast]

/-- A number the width has no room for aborts the script. -/
theorem exec_num2Bin_eq_none {w v : ℕ} (hw : w < 2 ^ 63) (hv : ¬v < 2 ^ (8 * w - 1)) :
    Opcode.exec env .OpNum2Bin ⟨encodeNum w :: encodeNum v :: d, alt⟩ = none := by
  rw [num2Bin_eq, decodeIndex_natCast hw]
  rcases hdec : decodeNum (encodeNum v) with _ | z
  · rfl
  · have hz : z = v := by
      unfold decodeNum at hdec
      split_ifs at hdec
      rw [numValue_encodeNum] at hdec
      exact (Option.some.inj hdec).symm
    simp [hz, hv]

/-- A zero byte in front of the sign makes a string of up to seven bytes the number it spells. -/
theorem exec_bin2Num_pad {x : Bytes} (hx : leNat x < 2 ^ 63) :
    Opcode.exec env .OpBin2Num ⟨(x ++ [0]) :: d, alt⟩ = some ⟨encodeNum (leNat x) :: d, alt⟩ := by
  change pushNum (numValue (x ++ [0])) ⟨d, alt⟩ = _
  rw [numValue_pad]
  exact pushNum_natCast hx _

end exec

/-! ### Plain code -/

/-- An instruction that opens and closes no block. -/
def Instr.Plain (i : Instr) : Prop := i ≠ .op .OpIf ∧ i ≠ .op .OpEndIf

instance (i : Instr) : Decidable i.Plain := inferInstanceAs (Decidable (_ ∧ _))

/-- An opcode that does something to the stacks is plain. -/
theorem plain_of_exec {code : Opcode} {s s' : Stacks} (h : code.exec env s = some s') : (Instr.op code).Plain := by
  refine ⟨fun hif => ?_, fun hif => ?_⟩ <;> cases hif <;> cases h

/-- A list of plain instructions on the stacks. -/
def execAll (env : Env) (is : List Instr) (s : Stacks) : Option Stacks :=
  is.foldlM (fun s i => i.exec env s) s

@[simp] theorem execAll_nil (s : Stacks) : execAll env [] s = some s := rfl

@[simp] theorem execAll_cons (i : Instr) (is : List Instr) (s : Stacks) :
    execAll env (i :: is) s = (i.exec env s).bind (execAll env is) := rfl

theorem execAll_append (is js : List Instr) (s : Stacks) :
    execAll env (is ++ js) s = (execAll env is s).bind (execAll env js) := by
  simp [execAll, List.foldlM_append]
  rfl

theorem step_plain {i : Instr} (hi : i.Plain) {c : List OpCond} (hc : executing c = true) (s : Stacks) :
    step env ⟨s, c⟩ i = (i.exec env s).map fun s' => ⟨s', c⟩ := by
  rw [step, if_neg hi.1, if_neg hi.2, if_pos hc]

theorem run_plain {is : List Instr} (his : ∀ i ∈ is, i.Plain) {c : List OpCond}
    (hc : executing c = true) (s : Stacks) :
    run env is ⟨s, c⟩ = (execAll env is s).map fun s' => ⟨s', c⟩ := by
  induction is generalizing s with
  | nil => rfl
  | cons i is ih =>
    rw [run_cons, step_plain (his i (by simp)) hc, execAll_cons]
    cases i.exec env s with
    | none => rfl
    | some s₁ => exact ih (fun j hj => his j (by simp [hj])) s₁

theorem execute_plain {is : List Instr} (his : ∀ i ∈ is, i.Plain) (items : List Bytes) :
    execute env is items = (execAll env is ⟨items, []⟩).map Stacks.data := by
  rw [execute, run_plain his rfl]
  cases execAll env is ⟨items, []⟩ <;> rfl

theorem skipped_plain {is : List Instr} (his : ∀ i ∈ is, i.Plain) : Skipped env is := by
  intro m hm
  induction is with
  | nil => rfl
  | cons i is ih =>
    have hi := his i (by simp)
    rw [run_cons, step, if_neg hi.1, if_neg hi.2, hm]
    exact ih fun j hj => his j (by simp [hj])

/-! ### A block between `OpIf` and `OpEndIf` -/

/-- The instructions of a block. -/
def block (is : List Instr) : List Instr := .op .OpIf :: (is ++ [.op .OpEndIf])

/-- **A block runs its body if its condition is true**, and nothing else happens. -/
theorem run_block {is : List Instr} {b : Bool} {d alt : List Bytes} {s' : Stacks} {c : List OpCond}
    (hc : executing c = true) (hskip : Skipped env is)
    (hrun : b = true → run env is ⟨⟨d, alt⟩, .yes :: c⟩ = some ⟨s', .yes :: c⟩)
    (hskipped : b = false → s' = ⟨d, alt⟩) :
    run env (block is) ⟨⟨boolBytes b :: d, alt⟩, c⟩ = some ⟨s', c⟩ := by
  have hopen : step env ⟨⟨boolBytes b :: d, alt⟩, c⟩ (.op .OpIf) =
      some ⟨⟨d, alt⟩, (if b then .yes else .no) :: c⟩ := by
    simp [step, openIf, hc]
  rw [block, run_cons, hopen, Option.bind_some, run_append]
  cases b with
  | true => rw [if_pos rfl, hrun rfl]; rfl
  | false =>
    rw [if_neg Bool.false_ne_true, hskip _ rfl, hskipped rfl]
    rfl

theorem skipped_block {is : List Instr} (hskip : Skipped env is) : Skipped env (block is) := by
  intro m hm
  have hopen : step env m (.op .OpIf) = some { m with cond := .skip :: m.cond } := by
    simp [step, openIf, hm]
  rw [block, run_cons, hopen, Option.bind_some, run_append, hskip _ rfl]
  rfl

/-! ### Following a generator -/

/-- `m` generates code that takes the stacks `s` to `s'` and does nothing where it is
skipped; the generator's own state stays as it is. -/
def Runs (env : Env) (m : Gen σ Instr String Unit) (s s' : Stacks) : Prop :=
  ∀ g c, executing c = true → Triple (engine env) (fun g' M => g' = g ∧ M = ⟨s, c⟩) m
    fun _ g' M => g' = g ∧ M = ⟨s', c⟩

namespace Runs

variable {m m' : Gen σ Instr String Unit} {s t s' : Stacks}

theorem seq (hm : Runs env m s t) (hm' : Runs env m' t s') : Runs env (m >>= fun _ => m') s s' :=
  fun g c hc => (hm g c hc).bind fun _ => hm' g c hc

theorem refl : Runs env (pure () : Gen σ Instr String Unit) s s := fun _ _ _ =>
  .pure fun _ _ h => h

theorem forRange {n : ℕ} {body : ℕ → Gen σ Instr String Unit} (I : ℕ → Stacks)
    (h : ∀ i < n, Runs env (body i) (I i) (I (i + 1))) :
    Runs env (Gen.forRange n body) (I 0) (I n) := fun g c hc =>
  Triple.forRange (I := fun i g' (M : Machine) => g' = g ∧ M = ⟨I i, c⟩) fun i hi => h i hi g c hc

theorem onlyIf {p : Prop} [Decidable p] (hm : p → Runs env m s s') (hn : ¬p → s = s') :
    Runs env (Gen.onlyIf p m) s s' := fun g c hc =>
  .onlyIf (fun hp => hm hp g c hc) fun hp _ _ h => by rw [← hn hp]; exact h

theorem ensure {p : Prop} [Decidable p] {e : String} (hp : p) :
    Runs env (Gen.ensure p e : Gen σ Instr String Unit) s s := fun _ _ _ => .ensure hp

/-- Plain code, by running it. -/
theorem emit {is : List Instr} (his : ∀ i ∈ is, i.Plain) (h : execAll env is s = some s') :
    Runs env (Gen.emit is : Gen σ Instr String Unit) s s' := by
  rintro g c hc _ _ ⟨rfl, rfl⟩
  refine ⟨(), _, is, ⟨s', c⟩, rfl, ?_, ⟨rfl, rfl⟩, skipped_plain his⟩
  exact (run_plain his hc s).trans (by rw [h]; rfl)

theorem op {code : Opcode} (h : code.exec env s = some s') :
    Runs env (ScriptWriter.op code : Gen σ Instr String Unit) s s' :=
  emit (by simpa using plain_of_exec h) (by simp [Instr.exec, h])

theorem data (bs : Bytes) : Runs env (ScriptWriter.data bs : Gen σ Instr String Unit) s
    { s with data := bs :: s.data } :=
  emit (by simp [Instr.Plain]) rfl

theorem num (n : ℕ) : Runs env (ScriptWriter.num n : Gen σ Instr String Unit) s
    { s with data := encodeNum n :: s.data } :=
  emit (by simp [Instr.Plain]) rfl

/-- **A block**: its body's effect if the condition is true, none if it is false. -/
theorem block {b : Bool} {d alt : List Bytes} (hm : Runs env m ⟨d, alt⟩ t)
    (htrue : b = true → t = s') (hfalse : b = false → s' = ⟨d, alt⟩) :
    Runs env (do ScriptWriter.op .OpIf; m; ScriptWriter.op .OpEndIf) ⟨boolBytes b :: d, alt⟩ s' := by
  rintro g c hc g' _ ⟨hg, rfl⟩
  obtain ⟨_, _, is, _, hgen, hrun, ⟨rfl, rfl⟩, hskip⟩ := hm g' (.yes :: c) rfl g' _ ⟨rfl, rfl⟩
  refine ⟨(), _, Script.block is, ⟨s', c⟩, ?_, ?_, ⟨hg, rfl⟩, skipped_block hskip⟩
  · exact Gen.bind_ok (ScriptWriter.op_apply _ _) (Gen.bind_ok hgen (ScriptWriter.op_apply _ _))
  · exact run_block hc hskip (fun hb => htrue hb ▸ hrun) hfalse

/-- The code generated, and what it does. -/
theorem code (hm : Runs env m s s') (g : σ) {c : List OpCond} (hc : executing c = true) :
    ∃ is, m g = .ok ((), g, is) ∧ run env is ⟨s, c⟩ = some ⟨s', c⟩ := by
  obtain ⟨_, _, is, _, hgen, hrun, ⟨rfl, rfl⟩, -⟩ := hm g c hc g _ ⟨rfl, rfl⟩
  exact ⟨is, hgen, hrun⟩

/-- A whole script. -/
theorem execute {items items' alt : List Bytes} {m : Gen Unit Instr String Unit}
    (hm : Runs env m ⟨items, []⟩ ⟨items', alt⟩) :
    ∃ is, m.code () = .ok is ∧ Script.execute env is items = some items' := by
  obtain ⟨is, hgen, hrun⟩ := hm.code () (c := []) rfl
  exact ⟨is, by rw [Gen.code, hgen]; rfl, by rw [Script.execute, hrun]; rfl⟩

end Runs

/-! ### Aborting -/

/-- `m` generates code that aborts on the stacks `s`. -/
def Aborts (env : Env) (m : Gen σ Instr String Unit) (s : Stacks) : Prop :=
  ∀ g c, executing c = true → ∃ g' is, m g = .ok ((), g', is) ∧ run env is ⟨s, c⟩ = none

namespace Aborts

variable {m m' : Gen σ Instr String Unit} {s t : Stacks}

/-- What comes behind does not matter. -/
theorem seq (hm : Aborts env m s) (hm' : m'.Succeeds) : Aborts env (m >>= fun _ => m') s := by
  intro g c hc
  obtain ⟨g₁, is₁, hgen, hrun⟩ := hm g c hc
  obtain ⟨g₂, is₂, hgen'⟩ := hm' g₁
  refine ⟨g₂, is₁ ++ is₂, Gen.bind_ok hgen hgen', ?_⟩
  rw [run_append, hrun]
  rfl

/-- What comes before leads to it. -/
theorem after (hm : Runs env m s t) (hm' : Aborts env m' t) : Aborts env (m >>= fun _ => m') s := by
  intro g c hc
  obtain ⟨is₁, hgen, hrun⟩ := hm.code g hc
  obtain ⟨g₂, is₂, hgen', hrun'⟩ := hm' g c hc
  refine ⟨g₂, is₁ ++ is₂, Gen.bind_ok hgen hgen', ?_⟩
  rw [run_append, hrun]
  exact hrun'

theorem op {code : Opcode} (hplain : (Instr.op code).Plain) (h : code.exec env s = none) :
    Aborts env (ScriptWriter.op code : Gen σ Instr String Unit) s := by
  intro g c hc
  refine ⟨g, [.op code], rfl, ?_⟩
  have his : ∀ i ∈ [Instr.op code], i.Plain := by simpa using hplain
  rw [run_plain his hc]
  simp [Instr.exec, h]

end Aborts

/-- Pushes put their items on the stack, the last one on top. -/
theorem run_pushes (items d alt : List Bytes) :
    run env (items.map Instr.push) ⟨⟨d, alt⟩, []⟩ = some ⟨⟨items.reverse ++ d, alt⟩, []⟩ := by
  induction items generalizing d with
  | nil => rfl
  | cons x items ih =>
    rw [List.reverse_cons, List.append_assoc]
    exact ih (x :: d)

/-- Pushes in front of a script. -/
theorem execute_pushes (items : List Bytes) (is : List Instr) (d : List Bytes) :
    execute env (items.map Instr.push ++ is) d = execute env is (items.reverse ++ d) := by
  rw [execute, run_append, run_pushes]
  rfl

end KaspaPqv.Script
