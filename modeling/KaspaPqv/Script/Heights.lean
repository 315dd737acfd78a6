import KaspaPqv.Script.Watch

/-!
# How the stacks grow

By how many items an opcode makes a stack grow does not depend on what the items are. So how
many there are can be told of any point of a script without knowing them, as long as it has
not aborted.

## What is proved

* `exec_gain` — the effect of an instruction on the heights of the two stacks.
* `high_watch_le` — how high the stacks are at most in code without conditions.
-/

namespace KaspaPqv.Script

open KaspaPqv.Lib

/-- By how many items an opcode makes the data stack grow. -/
def Opcode.gain : Opcode → ℤ
  | .OpDup | .OpOver | .OpFromAltStack => 1
  | .OpTxVersion | .OpTxInputIndex | .OpTxOutputCount => 1
  | .OpEndIf | .OpSwap | .OpPick | .OpBin2Num | .OpSHA256 => 0
  | .OpOutpointTxId | .OpOutpointIndex | .OpTxOutputAmount | .OpTxOutputSpkLen | .OpTxOutputSpk => 0
  | .OpIf | .OpToAltStack | .OpDrop | .OpNip | .OpRoll | .OpCat | .OpNum2Bin => -1
  | .OpAdd | .OpSub | .OpMul | .OpDiv | .OpMod => -1
  | .OpLessThanOrEqual | .OpGreaterThanOrEqual | .OpEqual => -1
  | .OpSubstr => -2

/-- By how many items an opcode makes the alt stack grow. -/
def Opcode.altGain : Opcode → ℤ
  | .OpToAltStack => 1
  | .OpFromAltStack => -1
  | _ => 0

def Instr.gain : Instr → ℤ
  | .push _ => 1
  | .op code => code.gain

def Instr.altGain : Instr → ℤ
  | .push _ => 0
  | .op code => code.altGain

/-- From `s` to `s'` the stacks grow by `a` and `b` items. -/
def Stacks.Grows (s s' : Stacks) (a b : ℤ) : Prop :=
  (s'.data.length : ℤ) = s.data.length + a ∧ (s'.alt.length : ℤ) = s.alt.length + b

namespace Stacks.Grows

variable {s t s' : Stacks} {a b a' b' : ℤ}

theorem refl (s : Stacks) : s.Grows s 0 0 := ⟨(Int.add_zero _).symm, (Int.add_zero _).symm⟩

theorem trans (h : s.Grows t a b) (h' : t.Grows s' a' b') : s.Grows s' (a + a') (b + b') := by
  obtain ⟨hd, halt⟩ := h
  obtain ⟨hd', halt'⟩ := h'
  constructor <;> omega

end Stacks.Grows

variable {env : Env} {d alt : List Bytes} {s s' : Stacks}

/-! ### One instruction -/

theorem pushNum_grows {v : ℤ} (h : pushNum v s = some s') : s.Grows s' 1 0 := by
  unfold pushNum at h
  split_ifs at h
  cases h
  exact ⟨by simp, by simp⟩

theorem numericOp_grows {f : ℤ → ℤ → Option ℤ} (h : numericOp f s = some s') : s.Grows s' (-1) 0 := by
  obtain ⟨_ | ⟨y, _ | ⟨x, d⟩⟩, alt⟩ := s
  · cases h
  · cases h
  · simp only [numericOp, Option.bind_eq_bind, Option.bind_eq_some_iff] at h
    obtain ⟨b, -, a, -, v, -, hpush⟩ := h
    obtain ⟨hd, halt⟩ := pushNum_grows hpush
    simp only at hd halt
    constructor <;> simp only [List.length_cons] <;> omega

theorem compareOp_grows {f : ℤ → ℤ → Bool} (h : compareOp f s = some s') : s.Grows s' (-1) 0 := by
  obtain ⟨_ | ⟨y, _ | ⟨x, d⟩⟩, alt⟩ := s
  · cases h
  · cases h
  · simp only [compareOp, Option.bind_eq_bind, Option.bind_eq_some_iff] at h
    obtain ⟨b, -, a, -, hs⟩ := h
    cases hs
    constructor <;> simp only [List.length_cons] <;> omega

theorem outputOp_grows {f : TransactionOutput → Stacks → Option Stacks}
    (hpush : ∀ o s s', f o s = some s' → s.Grows s' 1 0) (h : outputOp env f s = some s') : s.Grows s' 0 0 := by
  obtain ⟨_ | ⟨i, d⟩, alt⟩ := s
  · cases h
  · simp only [outputOp, Option.bind_eq_bind, Option.bind_eq_some_iff] at h
    obtain ⟨c, -, k, -, o, -, hs⟩ := h
    obtain ⟨hd, halt⟩ := hpush o _ _ hs
    simp only at hd halt
    constructor <;> simp only [List.length_cons] <;> omega

theorem outpointOp_grows {f : Outpoint → Stacks → Option Stacks}
    (hpush : ∀ o s s', f o s = some s' → s.Grows s' 1 0) (h : outpointOp env f s = some s') : s.Grows s' 0 0 := by
  obtain ⟨_ | ⟨i, d⟩, alt⟩ := s
  · cases h
  · simp only [outpointOp, Option.bind_eq_bind, Option.bind_eq_some_iff] at h
    obtain ⟨c, -, k, -, o, -, hs⟩ := h
    obtain ⟨hd, halt⟩ := hpush o _ _ hs
    simp only at hd halt
    constructor <;> simp only [List.length_cons] <;> omega

theorem txOp_grows {push : TxContext → ℤ} (h : (env.tx.bind fun c => pushNum (push c) s) = some s') :
    s.Grows s' 1 0 := by
  obtain ⟨c, -, hpush⟩ := Option.bind_eq_some_iff.mp h
  exact pushNum_grows hpush

theorem pick_grows {n : Bytes} (h : Opcode.exec env .OpPick ⟨n :: d, alt⟩ = some s') :
    Stacks.Grows ⟨n :: d, alt⟩ s' 0 0 := by
  rw [pick_eq] at h
  obtain ⟨k, -, hx⟩ := Option.bind_eq_some_iff.mp h
  obtain ⟨x, -, hs⟩ := Option.bind_eq_some_iff.mp hx
  cases hs
  exact ⟨by simp, by simp⟩

theorem roll_grows {n : Bytes} (h : Opcode.exec env .OpRoll ⟨n :: d, alt⟩ = some s') :
    Stacks.Grows ⟨n :: d, alt⟩ s' (-1) 0 := by
  rw [roll_eq] at h
  obtain ⟨k, -, hx⟩ := Option.bind_eq_some_iff.mp h
  obtain ⟨x, hget, hs⟩ := Option.bind_eq_some_iff.mp hx
  obtain ⟨hlt, -⟩ := List.getElem?_eq_some_iff.mp hget
  cases hs
  constructor
  · simp only [List.length_cons, List.length_eraseIdx_of_lt hlt]
    omega
  · simp

theorem substr_grows {stop start x : Bytes} (h : Opcode.exec env .OpSubstr ⟨stop :: start :: x :: d, alt⟩ = some s') :
    Stacks.Grows ⟨stop :: start :: x :: d, alt⟩ s' (-2) 0 := by
  rw [substr_eq] at h
  obtain ⟨j, -, hi⟩ := Option.bind_eq_some_iff.mp h
  obtain ⟨i, -, hs⟩ := Option.bind_eq_some_iff.mp hi
  split_ifs at hs
  cases hs
  constructor <;> simp only [List.length_cons] <;> omega

theorem num2Bin_grows {size x : Bytes} (h : Opcode.exec env .OpNum2Bin ⟨size :: x :: d, alt⟩ = some s') :
    Stacks.Grows ⟨size :: x :: d, alt⟩ s' (-1) 0 := by
  rw [num2Bin_eq] at h
  obtain ⟨w, -, hv⟩ := Option.bind_eq_some_iff.mp h
  obtain ⟨v, -, hs⟩ := Option.bind_eq_some_iff.mp hv
  split_ifs at hs
  cases hs
  constructor <;> simp only [List.length_cons] <;> omega

theorem opcode_gain {code : Opcode} (h : code.exec env s = some s') : s.Grows s' code.gain code.altGain := by
  obtain ⟨d, alt⟩ := s
  cases code with
  | OpIf => cases h
  | OpEndIf => cases h
  | OpToAltStack | OpDup | OpDrop | OpSHA256 =>
    rcases d with _ | ⟨x, d⟩
    · cases h
    · cases h
      constructor <;> simp only [Opcode.gain, Opcode.altGain, List.length_cons] <;> omega
  | OpFromAltStack =>
    rcases alt with _ | ⟨x, alt⟩
    · cases h
    · cases h
      constructor <;> simp only [Opcode.gain, Opcode.altGain, List.length_cons] <;> omega
  | OpSwap | OpOver | OpNip | OpCat | OpEqual =>
    rcases d with _ | ⟨y, _ | ⟨x, d⟩⟩
    · cases h
    · cases h
    · cases h
      constructor <;> simp only [Opcode.gain, Opcode.altGain, List.length_cons] <;> omega
  | OpPick =>
    rcases d with _ | ⟨n, d⟩
    · cases h
    · exact pick_grows h
  | OpRoll =>
    rcases d with _ | ⟨n, d⟩
    · cases h
    · exact roll_grows h
  | OpSubstr =>
    rcases d with _ | ⟨stop, _ | ⟨start, _ | ⟨x, d⟩⟩⟩
    · cases h
    · cases h
    · cases h
    · exact substr_grows h
  | OpNum2Bin =>
    rcases d with _ | ⟨size, _ | ⟨x, d⟩⟩
    · cases h
    · cases h
    · exact num2Bin_grows h
  | OpBin2Num =>
    rcases d with _ | ⟨x, d⟩
    · cases h
    · obtain ⟨hd, halt⟩ := pushNum_grows (s := ⟨d, alt⟩) h
      simp only at hd halt
      constructor <;> simp only [Opcode.gain, Opcode.altGain, List.length_cons] <;> omega
  | OpAdd | OpSub | OpMul | OpDiv | OpMod => exact numericOp_grows h
  | OpLessThanOrEqual | OpGreaterThanOrEqual => exact compareOp_grows h
  | OpTxVersion | OpTxInputIndex | OpTxOutputCount => exact txOp_grows h
  | OpOutpointTxId =>
    exact outpointOp_grows (f := fun o s => some { s with data := o.transactionId.bytes :: s.data })
      (fun _ _ _ h => by cases h; exact ⟨by simp, by simp⟩) h
  | OpOutpointIndex => exact outpointOp_grows (fun _ _ _ h => pushNum_grows h) h
  | OpTxOutputAmount | OpTxOutputSpkLen => exact outputOp_grows (fun _ _ _ h => pushNum_grows h) h
  | OpTxOutputSpk =>
    exact outputOp_grows (f := fun o s => some { s with data := o.scriptPublicKey.wire :: s.data })
      (fun _ _ _ h => by cases h; exact ⟨by simp, by simp⟩) h

/-- **What an instruction does to the heights** does not depend on the items. -/
theorem exec_gain {i : Instr} (h : i.exec env s = some s') : s.Grows s' i.gain i.altGain := by
  cases i with
  | push bytes =>
    cases h
    exact ⟨by simp [Instr.gain], by simp [Instr.altGain]⟩
  | op code => exact opcode_gain h

/-! ### Code without conditions -/

/-- By how many items an instruction makes the two stacks grow together. -/
def Instr.rise (i : Instr) : ℤ := i.gain + i.altGain

theorem height_exec {i : Instr} (h : i.exec env s = some s') : (s'.height : ℤ) = s.height + i.rise := by
  obtain ⟨hd, halt⟩ := exec_gain h
  simp only [Stacks.height, Instr.rise, Nat.cast_add]
  omega

/-- By how many items the two stacks are higher at the end. -/
def totalRise (is : List Instr) : ℤ := (is.map Instr.rise).sum

/-- By how many items the two stacks are higher at the highest point. -/
def peakRise : List Instr → ℤ
  | [] => 0
  | i :: is => max 0 (i.rise + peakRise is)

theorem peakRise_nonneg (is : List Instr) : 0 ≤ peakRise is := by
  cases is with
  | nil => exact le_rfl
  | cons i is => exact le_max_left _ _

theorem totalRise_append (is js : List Instr) : totalRise (is ++ js) = totalRise is + totalRise js := by
  simp [totalRise]

theorem peakRise_append (is js : List Instr) : peakRise (is ++ js) = max (peakRise is) (totalRise is + peakRise js) := by
  induction is with
  | nil =>
    have := peakRise_nonneg js
    simp [peakRise, totalRise, this]
  | cons i is ih =>
    rw [List.cons_append, peakRise, ih, peakRise]
    simp only [totalRise, List.map_cons, List.sum_cons]
    omega

/-- Code that repeats without rising in the end is no higher than a part of it. -/
theorem peakRise_flatMap {α : Type} {f : α → List Instr} {b : ℤ} (hb : 0 ≤ b) (hpeak : ∀ a, peakRise (f a) ≤ b)
    (htotal : ∀ a, totalRise (f a) = 0) (as : List α) : peakRise (as.flatMap f) ≤ b := by
  induction as with
  | nil => exact hb
  | cons a as ih =>
    rw [List.flatMap_cons, peakRise_append, htotal, Int.zero_add]
    exact max_le (hpeak a) ih

/-- **The mark behind code without conditions.** -/
theorem high_watch_le {is : List Instr} (his : ∀ i ∈ is, i.Plain) {c : List OpCond} (hc : executing c = true)
    {high limit : ℕ} (hhigh : high ≤ limit) (hs : (s.height : ℤ) + peakRise is ≤ limit) :
    (watch env is ⟨some ⟨s, c⟩, high⟩).high ≤ limit := by
  induction is generalizing s high with
  | nil => exact hhigh
  | cons i is ih =>
    obtain ⟨hi, his⟩ := List.forall_mem_cons.mp his
    rw [peakRise] at hs
    rw [watch_cons]
    cases hexec : i.exec env s with
    | none =>
      rw [watchStep_abort hi hc hexec, watch_none]
      exact hhigh
    | some s' =>
      have hheight := height_exec hexec
      have hpeak := peakRise_nonneg is
      rw [watchStep_plain hi hc hexec]
      exact ih his (max_le hhigh (by omega)) (by omega)

end KaspaPqv.Script
