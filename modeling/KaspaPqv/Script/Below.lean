import KaspaPqv.Script.Rules

/-!
# What lies below

No opcode looks below the items it takes. So a script that runs to the end on some items
runs in the same way with anything below them, and leaves it there.

## What is proved

* `exec_below`, `run_below` — the frame rule, for an opcode and for a script.
* `execute_below` — for a script from start to end.
-/

namespace KaspaPqv.Script

open KaspaPqv.Lib

/-- The stacks with more items below the data. -/
def Stacks.above (s : Stacks) (r : List Bytes) : Stacks := ⟨s.data ++ r, s.alt⟩

variable {env : Env} {r : List Bytes}

theorem pushNum_below {v : ℤ} {s s' : Stacks} (h : pushNum v s = some s') :
    pushNum v (s.above r) = some (s'.above r) := by
  unfold pushNum at h ⊢
  split_ifs at h ⊢
  cases h
  rfl

theorem numericOp_below {f : ℤ → ℤ → Option ℤ} {s s' : Stacks} (h : numericOp f s = some s') :
    numericOp f (s.above r) = some (s'.above r) := by
  obtain ⟨_ | ⟨y, _ | ⟨x, d⟩⟩, alt⟩ := s
  · cases h
  · cases h
  · simp only [numericOp, Option.bind_eq_bind, Option.bind_eq_some_iff] at h
    obtain ⟨b, hb, a, ha, v, hv, hpush⟩ := h
    simp only [Stacks.above, List.cons_append, numericOp, hb, ha, hv, Option.bind_eq_bind, Option.bind_some]
    exact pushNum_below hpush

theorem compareOp_below {f : ℤ → ℤ → Bool} {s s' : Stacks} (h : compareOp f s = some s') :
    compareOp f (s.above r) = some (s'.above r) := by
  obtain ⟨_ | ⟨y, _ | ⟨x, d⟩⟩, alt⟩ := s
  · cases h
  · cases h
  · simp only [compareOp, Option.bind_eq_bind, Option.bind_eq_some_iff] at h
    obtain ⟨b, hb, a, ha, hs⟩ := h
    simp only [Stacks.above, List.cons_append, compareOp, hb, ha, Option.bind_eq_bind, Option.bind_some]
    cases hs
    rfl

theorem outputOp_below {f : TransactionOutput → Stacks → Option Stacks}
    (hpush : ∀ o s s', f o s = some s' → f o (s.above r) = some (s'.above r)) {s s' : Stacks}
    (h : outputOp env f s = some s') : outputOp env f (s.above r) = some (s'.above r) := by
  obtain ⟨_ | ⟨i, d⟩, alt⟩ := s
  · cases h
  · simp only [outputOp, Option.bind_eq_bind, Option.bind_eq_some_iff] at h
    obtain ⟨c, hc, k, hk, o, ho, hs⟩ := h
    simp only [Stacks.above, List.cons_append, outputOp, hc, hk, ho, Option.bind_eq_bind, Option.bind_some]
    exact hpush o _ _ hs

theorem outpointOp_below {f : Outpoint → Stacks → Option Stacks}
    (hpush : ∀ o s s', f o s = some s' → f o (s.above r) = some (s'.above r)) {s s' : Stacks}
    (h : outpointOp env f s = some s') : outpointOp env f (s.above r) = some (s'.above r) := by
  obtain ⟨_ | ⟨i, d⟩, alt⟩ := s
  · cases h
  · simp only [outpointOp, Option.bind_eq_bind, Option.bind_eq_some_iff] at h
    obtain ⟨c, hc, k, hk, o, ho, hs⟩ := h
    simp only [Stacks.above, List.cons_append, outpointOp, hc, hk, ho, Option.bind_eq_bind, Option.bind_some]
    exact hpush o _ _ hs

theorem txOp_below {push : TxContext → ℤ} {s s' : Stacks} (h : (env.tx.bind fun c => pushNum (push c) s) = some s') :
    (env.tx.bind fun c => pushNum (push c) (s.above r)) = some (s'.above r) := by
  obtain ⟨c, hc, hpush⟩ := Option.bind_eq_some_iff.mp h
  rw [hc]
  exact pushNum_below hpush

theorem pick_below {d alt : List Bytes} {n : Bytes} {s' : Stacks}
    (h : Opcode.exec env .OpPick ⟨n :: d, alt⟩ = some s') :
    Opcode.exec env .OpPick ⟨n :: (d ++ r), alt⟩ = some (s'.above r) := by
  rw [pick_eq] at h ⊢
  obtain ⟨k, hk, hx⟩ := Option.bind_eq_some_iff.mp h
  obtain ⟨x, hget, hs⟩ := Option.bind_eq_some_iff.mp hx
  obtain ⟨hlt, -⟩ := List.getElem?_eq_some_iff.mp hget
  rw [hk, Option.bind_some, List.getElem?_append_left hlt, hget]
  cases hs
  rfl

theorem roll_below {d alt : List Bytes} {n : Bytes} {s' : Stacks}
    (h : Opcode.exec env .OpRoll ⟨n :: d, alt⟩ = some s') :
    Opcode.exec env .OpRoll ⟨n :: (d ++ r), alt⟩ = some (s'.above r) := by
  rw [roll_eq] at h ⊢
  obtain ⟨k, hk, hx⟩ := Option.bind_eq_some_iff.mp h
  obtain ⟨x, hget, hs⟩ := Option.bind_eq_some_iff.mp hx
  obtain ⟨hlt, -⟩ := List.getElem?_eq_some_iff.mp hget
  rw [hk, Option.bind_some, List.getElem?_append_left hlt, hget]
  cases hs
  rw [Option.bind_some, List.eraseIdx_append_of_lt_length hlt]
  rfl

theorem substr_below {d alt : List Bytes} {stop start x : Bytes} {s' : Stacks}
    (h : Opcode.exec env .OpSubstr ⟨stop :: start :: x :: d, alt⟩ = some s') :
    Opcode.exec env .OpSubstr ⟨stop :: start :: x :: (d ++ r), alt⟩ = some (s'.above r) := by
  rw [substr_eq] at h ⊢
  obtain ⟨j, hj, hi⟩ := Option.bind_eq_some_iff.mp h
  obtain ⟨i, hi, hs⟩ := Option.bind_eq_some_iff.mp hi
  rw [hj, Option.bind_some, hi, Option.bind_some]
  split_ifs at hs ⊢
  cases hs
  rfl

theorem num2Bin_below {d alt : List Bytes} {size x : Bytes} {s' : Stacks}
    (h : Opcode.exec env .OpNum2Bin ⟨size :: x :: d, alt⟩ = some s') :
    Opcode.exec env .OpNum2Bin ⟨size :: x :: (d ++ r), alt⟩ = some (s'.above r) := by
  rw [num2Bin_eq] at h ⊢
  obtain ⟨w, hw, hv⟩ := Option.bind_eq_some_iff.mp h
  obtain ⟨v, hv, hs⟩ := Option.bind_eq_some_iff.mp hv
  rw [hw, Option.bind_some, hv, Option.bind_some]
  split_ifs at hs ⊢
  cases hs
  rfl

/-- **No opcode looks below the items it takes.** -/
theorem exec_below {code : Opcode} {s s' : Stacks} (h : code.exec env s = some s') :
    code.exec env (s.above r) = some (s'.above r) := by
  obtain ⟨d, alt⟩ := s
  cases code with
  | OpIf => cases h
  | OpEndIf => cases h
  | OpToAltStack | OpDup | OpDrop | OpSHA256 =>
    rcases d with _ | ⟨x, d⟩
    · cases h
    · cases h; rfl
  | OpFromAltStack =>
    rcases alt with _ | ⟨x, alt⟩
    · cases h
    · cases h; rfl
  | OpSwap | OpOver | OpNip | OpCat | OpEqual =>
    rcases d with _ | ⟨y, _ | ⟨x, d⟩⟩
    · cases h
    · cases h
    · cases h; rfl
  | OpPick =>
    rcases d with _ | ⟨n, d⟩
    · cases h
    · exact pick_below h
  | OpRoll =>
    rcases d with _ | ⟨n, d⟩
    · cases h
    · exact roll_below h
  | OpSubstr =>
    rcases d with _ | ⟨stop, _ | ⟨start, _ | ⟨x, d⟩⟩⟩
    · cases h
    · cases h
    · cases h
    · exact substr_below h
  | OpNum2Bin =>
    rcases d with _ | ⟨size, _ | ⟨x, d⟩⟩
    · cases h
    · cases h
    · exact num2Bin_below h
  | OpBin2Num =>
    rcases d with _ | ⟨x, d⟩
    · cases h
    · exact pushNum_below (s := ⟨d, alt⟩) h
  | OpAdd | OpSub | OpMul | OpDiv | OpMod => exact numericOp_below h
  | OpLessThanOrEqual | OpGreaterThanOrEqual => exact compareOp_below h
  | OpTxVersion | OpTxInputIndex | OpTxOutputCount => exact txOp_below h
  | OpOutpointTxId =>
    exact outpointOp_below (f := fun o s => some { s with data := o.transactionId.bytes :: s.data })
      (fun _ _ _ h => by cases h; rfl) h
  | OpOutpointIndex => exact outpointOp_below (fun _ _ _ h => pushNum_below h) h
  | OpTxOutputAmount | OpTxOutputSpkLen => exact outputOp_below (fun _ _ _ h => pushNum_below h) h
  | OpTxOutputSpk =>
    exact outputOp_below (f := fun o s => some { s with data := o.scriptPublicKey.wire :: s.data })
      (fun _ _ _ h => by cases h; rfl) h

/-- The machine with more items below its data. -/
def Machine.above (m : Machine) (r : List Bytes) : Machine := { m with stack := m.stack.above r }

theorem openIf_below {m m' : Machine} (h : openIf m = some m') : openIf (m.above r) = some (m'.above r) := by
  obtain ⟨⟨d, alt⟩, cond⟩ := m
  by_cases hcond : executing cond = true
  · rw [openIf, if_pos hcond] at h
    rcases d with _ | ⟨x, d⟩
    · cases h
    · obtain ⟨b, hb, rfl⟩ := Option.map_eq_some_iff.mp h
      exact (if_pos hcond).trans (Option.map_eq_some_iff.mpr ⟨b, hb, rfl⟩)
  · rw [openIf, if_neg hcond] at h
    cases h
    exact if_neg hcond

theorem closeIf_below {m m' : Machine} (h : closeIf m = some m') : closeIf (m.above r) = some (m'.above r) := by
  obtain ⟨⟨d, alt⟩, _ | ⟨c, cond⟩⟩ := m
  · cases h
  · cases h
    rfl

theorem instr_below {i : Instr} {s s' : Stacks} (h : i.exec env s = some s') :
    i.exec env (s.above r) = some (s'.above r) := by
  cases i with
  | push bytes =>
    cases h
    rfl
  | op code => exact exec_below h

theorem step_below {m m' : Machine} {i : Instr} (h : step env m i = some m') :
    step env (m.above r) i = some (m'.above r) := by
  have hcond : executing (m.above r).cond = executing m.cond := rfl
  rw [step, hcond]
  rw [step] at h
  split_ifs at h ⊢
  · exact openIf_below h
  · exact closeIf_below h
  · obtain ⟨s, hs, rfl⟩ := Option.map_eq_some_iff.mp h
    exact Option.map_eq_some_iff.mpr ⟨s.above r, instr_below hs, rfl⟩
  · cases h
    rfl

/-- **A script runs in the same way with anything below.** -/
theorem run_below {is : List Instr} {m m' : Machine} (h : run env is m = some m') :
    run env is (m.above r) = some (m'.above r) := by
  induction is generalizing m with
  | nil =>
    cases h
    rfl
  | cons i is ih =>
    rw [run_cons] at h ⊢
    obtain ⟨m₁, hstep, hrun⟩ := Option.bind_eq_some_iff.mp h
    rw [step_below hstep]
    exact ih hrun

theorem execute_below {is : List Instr} {items items' : List Bytes} (h : execute env is items = some items') (r : List Bytes) :
    execute env is (items ++ r) = some (items' ++ r) := by
  obtain ⟨m, hrun, hend⟩ := Option.bind_eq_some_iff.mp h
  split_ifs at hend with hcond
  cases hend
  have hbelow := run_below (r := r) hrun
  rw [execute]
  change (run env is (Machine.above ⟨⟨items, []⟩, []⟩ r)).bind _ = _
  rw [hbelow, Option.bind_some]
  exact if_pos hcond

end KaspaPqv.Script
