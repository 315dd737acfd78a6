import KaspaPqv.Script.Rules

/-!
# A script under watch

The node limits how many items the two stacks may hold together, at every opcode. So a run
is watched: it goes on from an aborted state, which stays aborted, and keeps the largest
number of items that the stacks have had.

## What is proved

* `machine_watch` — the watched run is the run.
* `height_le_high` — at every point of a run the stacks are no higher than the mark.
* `watch_block_true`, `watch_block_false` — a block between `OpIf` and `OpEndIf`.
-/

namespace KaspaPqv.Script

open KaspaPqv.Lib

/-- The number of items on both stacks. -/
def Stacks.height (s : Stacks) : ℕ := s.data.length + s.alt.length

/-- A machine, if it has not aborted, and how high its stacks have been. -/
structure Watch where
  machine : Option Machine
  high : ℕ

/-- Watch a machine. -/
def Watch.start (m : Machine) : Watch := ⟨some m, m.stack.height⟩

/-- The mark is at least the present height. -/
def Watch.Marked (w : Watch) : Prop := ∀ m, w.machine = some m → m.stack.height ≤ w.high

variable {env : Env}

/-- One instruction. -/
def watchStep (env : Env) (w : Watch) (i : Instr) : Watch :=
  match w.machine.bind fun m => step env m i with
  | none => { w with machine := none }
  | some m => ⟨some m, max w.high m.stack.height⟩

/-- A list of instructions. -/
def watch (env : Env) (is : List Instr) (w : Watch) : Watch := is.foldl (watchStep env) w

theorem watch_append (is js : List Instr) (w : Watch) : watch env (is ++ js) w = watch env js (watch env is w) :=
  List.foldl_append

theorem watch_cons (i : Instr) (is : List Instr) (w : Watch) :
    watch env (i :: is) w = watch env is (watchStep env w i) := rfl

theorem watch_singleton (i : Instr) (w : Watch) : watch env [i] w = watchStep env w i := rfl

theorem machine_watchStep (w : Watch) (i : Instr) :
    (watchStep env w i).machine = w.machine.bind fun m => step env m i := by
  unfold watchStep
  cases w.machine.bind fun m => step env m i <;> rfl

theorem high_watchStep (w : Watch) (i : Instr) : w.high ≤ (watchStep env w i).high := by
  unfold watchStep
  cases w.machine.bind fun m => step env m i with
  | none => exact le_rfl
  | some m => exact le_max_left _ _

/-- **The watched run is the run.** -/
theorem machine_watch (is : List Instr) (w : Watch) : (watch env is w).machine = w.machine.bind (run env is) := by
  induction is generalizing w with
  | nil => cases hm : w.machine <;> simp [watch, run_nil, hm]
  | cons i is ih =>
    rw [watch_cons, ih, machine_watchStep]
    cases w.machine <;> rfl

theorem high_watch (env : Env) (is : List Instr) (w : Watch) : w.high ≤ (watch env is w).high := by
  induction is generalizing w with
  | nil => exact le_rfl
  | cons i is ih => exact (high_watchStep w i).trans (ih _)

theorem Watch.Marked.step {w : Watch} (i : Instr) : (watchStep env w i).Marked := by
  intro m hm
  rw [machine_watchStep] at hm
  rw [watchStep, hm]
  exact le_max_right _ _

theorem Watch.Marked.watch {w : Watch} (hw : w.Marked) (env : Env) (is : List Instr) : (watch env is w).Marked := by
  induction is generalizing w with
  | nil => exact hw
  | cons i is ih => exact ih (Marked.step i)

theorem Watch.marked_start (m : Machine) : (Watch.start m).Marked := by
  intro m' h
  cases h
  exact le_rfl

/-- **At every point of a run** the stacks are no higher than the mark at its end. -/
theorem height_le_high {is : List Instr} {m m' : Machine} {k : ℕ} (h : run env (is.take k) m = some m') :
    m'.stack.height ≤ (watch env is (.start m)).high := by
  have hmachine : (watch env (is.take k) (.start m)).machine = some m' := (machine_watch _ _).trans h
  have hmark := (Watch.marked_start m).watch env (is.take k) m' hmachine
  have hmono := high_watch env (is.drop k) (watch env (is.take k) (.start m))
  rw [← watch_append, List.take_append_drop] at hmono
  exact hmark.trans hmono

theorem watch_none (is : List Instr) (h : ℕ) : watch env is ⟨none, h⟩ = ⟨none, h⟩ := by
  induction is with
  | nil => rfl
  | cons i is ih => exact ih

/-- One instruction that is executed. -/
theorem watchStep_plain {i : Instr} (hi : i.Plain) {c : List OpCond} (hc : executing c = true) {s s' : Stacks}
    (h : i.exec env s = some s') (high : ℕ) :
    watchStep env ⟨some ⟨s, c⟩, high⟩ i = ⟨some ⟨s', c⟩, max high s'.height⟩ := by
  have hstep : step env ⟨s, c⟩ i = some ⟨s', c⟩ := by rw [step_plain hi hc, h, Option.map_some]
  rw [watchStep, Option.bind_some, hstep]

/-- One instruction that aborts. -/
theorem watchStep_abort {i : Instr} (hi : i.Plain) {c : List OpCond} (hc : executing c = true) {s : Stacks}
    (h : i.exec env s = none) (high : ℕ) : watchStep env ⟨some ⟨s, c⟩, high⟩ i = ⟨none, high⟩ := by
  have hstep : step env ⟨s, c⟩ i = none := by rw [step_plain hi hc, h, Option.map_none]
  rw [watchStep, Option.bind_some, hstep]

/-! ### Code that is skipped -/

/-- Code that changes nothing, at no point of it, where instructions are skipped. -/
def Unseen (env : Env) (is : List Instr) : Prop :=
  ∀ (m : Machine) (high : ℕ), executing m.cond = false → m.stack.height ≤ high →
    watch env is ⟨some m, high⟩ = ⟨some m, high⟩

theorem Unseen.append {is js : List Instr} (hi : Unseen env is) (hj : Unseen env js) : Unseen env (is ++ js) := by
  intro m high hm hh
  rw [watch_append, hi m high hm hh, hj m high hm hh]

theorem unseen_plain {i : Instr} (hi : i.Plain) : Unseen env [i] := by
  intro m high hm hh
  have hstep : step env m i = some m := by
    rw [step, if_neg hi.1, if_neg hi.2, hm]
    rfl
  rw [watch_singleton, watchStep, Option.bind_some, hstep]
  simp only [max_eq_left hh]

/-- Opening and closing a block. -/
theorem watchStep_openIf {c : List OpCond} (hc : executing c = true) (b : Bool) (d alt : List Bytes) {high : ℕ}
    (hh : (Stacks.mk (boolBytes b :: d) alt).height ≤ high) :
    watchStep env ⟨some ⟨⟨boolBytes b :: d, alt⟩, c⟩, high⟩ (.op .OpIf) =
      ⟨some ⟨⟨d, alt⟩, (if b then .yes else .no) :: c⟩, high⟩ := by
  have hstep : step env ⟨⟨boolBytes b :: d, alt⟩, c⟩ (.op .OpIf) =
      some ⟨⟨d, alt⟩, (if b then .yes else .no) :: c⟩ := by
    simp [step, openIf, hc]
  have hle : (Stacks.mk d alt).height ≤ high := by
    simp only [Stacks.height, List.length_cons] at hh ⊢
    omega
  rw [watchStep, Option.bind_some, hstep]
  simp only [max_eq_left hle]

theorem watchStep_closeIf (s : Stacks) (o : OpCond) (c : List OpCond) {high : ℕ} (hh : s.height ≤ high) :
    watchStep env ⟨some ⟨s, o :: c⟩, high⟩ (.op .OpEndIf) = ⟨some ⟨s, c⟩, high⟩ := by
  change (⟨some ⟨s, c⟩, max high s.height⟩ : Watch) = _
  rw [max_eq_left hh]

/-- A block whose condition is true runs its body. -/
theorem watch_block_true (env : Env) (is : List Instr) {d alt : List Bytes} {c : List OpCond} {high : ℕ} (hc : executing c = true)
    (hh : (Stacks.mk (boolBytes true :: d) alt).height ≤ high) :
    watch env (block is) ⟨some ⟨⟨boolBytes true :: d, alt⟩, c⟩, high⟩ =
      watchStep env (watch env is ⟨some ⟨⟨d, alt⟩, .yes :: c⟩, high⟩) (.op .OpEndIf) := by
  rw [block, watch_cons, watchStep_openIf hc true d alt hh, if_pos rfl, watch_append, watch_singleton]

/-- A block whose condition is false does nothing. -/
theorem watch_block_false {is : List Instr} {d alt : List Bytes} {c : List OpCond} {high : ℕ} (hc : executing c = true)
    (hh : (Stacks.mk (boolBytes false :: d) alt).height ≤ high) (hskip : Unseen env is) :
    watch env (block is) ⟨some ⟨⟨boolBytes false :: d, alt⟩, c⟩, high⟩ = ⟨some ⟨⟨d, alt⟩, c⟩, high⟩ := by
  have hle : (Stacks.mk d alt).height ≤ high := by
    simp only [Stacks.height, List.length_cons] at hh ⊢
    omega
  rw [block, watch_cons, watchStep_openIf hc false d alt hh, if_neg Bool.false_ne_true, watch_append, hskip _ _ rfl hle,
    watch_singleton, watchStep_closeIf _ _ _ hle]

/-- A block whose condition is no boolean aborts the script. -/
theorem watch_block_abort {is : List Instr} {x : Bytes} {d alt : List Bytes} {c : List OpCond} {high : ℕ}
    (hc : executing c = true) (hx : condition x = none) :
    watch env (block is) ⟨some ⟨⟨x :: d, alt⟩, c⟩, high⟩ = ⟨none, high⟩ := by
  have hstep : step env ⟨⟨x :: d, alt⟩, c⟩ (.op .OpIf) = none := by simp [step, openIf, hc, hx]
  rw [block, watch_cons, watchStep, Option.bind_some, hstep, watch_none]

theorem unseen_block {is : List Instr} (hskip : Unseen env is) : Unseen env (block is) := by
  intro m high hm hh
  have hopen : watchStep env ⟨some m, high⟩ (.op .OpIf) = ⟨some { m with cond := .skip :: m.cond }, high⟩ := by
    have hstep : step env m (.op .OpIf) = some { m with cond := .skip :: m.cond } := by simp [step, openIf, hm]
    rw [watchStep, Option.bind_some, hstep]
    simp only [max_eq_left hh]
  rw [block, watch_cons, hopen, watch_append, hskip { m with cond := .skip :: m.cond } high rfl hh, watch_singleton,
    watchStep_closeIf m.stack _ _ hh]

/-- The engine under watch, as a target of code generation. -/
def watched (env : Env) : Backend Instr Watch where
  run is w := some (watch env is w)
  run_nil _ := rfl
  run_append is js w := by rw [watch_append, Option.bind_some]
  inert := Unseen env
  inert_nil _ _ _ _ := rfl
  inert_append := Unseen.append

end KaspaPqv.Script
