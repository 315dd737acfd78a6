import KaspaPqv.Script.Heights

/-!
# Code that never underflows

An opcode may abort the script over what the items are, or because there are too few of them.
To tell the second apart, the items are left open: whatever an opcode makes of the items it has,
it may make anything of as many, and an `OpIf` may go either way (`MayStep`). The engine takes
steps of this kind only. So code that underflows in none of these runs does not underflow in the
engine, and no abort for another reason hides an underflow behind it.

## What is proved

* `mayStep_of_step`, `mayRun_of_run` — the engine does only what may be done.
* `Takes.append`, `Takes.op`, `Takes.pick`, `Takes.roll`, `Takes.block` — from how many items code
  leads to how many, and when it never underflows.
-/

namespace KaspaPqv.Script

open KaspaPqv.Lib

/-- How many items of the data stack an opcode takes or looks at. -/
def Opcode.needs : Opcode → ℕ
  | .OpEndIf | .OpFromAltStack | .OpTxVersion | .OpTxInputIndex | .OpTxOutputCount => 0
  | .OpIf | .OpToAltStack | .OpDup | .OpDrop | .OpPick | .OpRoll | .OpBin2Num | .OpSHA256 => 1
  | .OpOutpointTxId | .OpOutpointIndex | .OpTxOutputAmount | .OpTxOutputSpkLen | .OpTxOutputSpk => 1
  | .OpSwap | .OpOver | .OpNip | .OpCat | .OpNum2Bin => 2
  | .OpAdd | .OpSub | .OpMul | .OpDiv | .OpMod => 2
  | .OpLessThanOrEqual | .OpGreaterThanOrEqual | .OpEqual => 2
  | .OpSubstr => 3

def Instr.needs : Instr → ℕ
  | .push _ => 0
  | .op code => code.needs

/-- An instruction asks for an item that is not there. -/
inductive Underflow : Instr → Stacks → Prop
  | items {i s} : s.data.length < i.needs → Underflow i s
  | fromAlt {d} : Underflow (.op .OpFromAltStack) ⟨d, []⟩
  | pick {n d alt k} : decodeIndex n = some k → d.length ≤ k → Underflow (.op .OpPick) ⟨n :: d, alt⟩
  | roll {n d alt k} : decodeIndex n = some k → d.length ≤ k → Underflow (.op .OpRoll) ⟨n :: d, alt⟩

/-- An opcode that looks at no depth and not at the alt stack. It underflows only if there are too
few items for it. -/
def Opcode.Counts (code : Opcode) : Prop :=
  (Instr.op code).Plain ∧ code.altGain = 0 ∧ code ≠ .OpPick ∧ code ≠ .OpRoll

instance : DecidablePred Opcode.Counts := fun _ => inferInstanceAs (Decidable (_ ∧ _))

/-! ### What may be done -/

/-- What an instruction may do. It is as in the engine, but an opcode that has its items may leave
any others, and an `OpIf` may go either way. -/
inductive MayStep : Machine → Instr → Machine → Prop
  | push {bytes d alt c} : executing c = true → MayStep ⟨⟨d, alt⟩, c⟩ (.push bytes) ⟨⟨bytes :: d, alt⟩, c⟩
  | op {code s s' c} : (Instr.op code).Plain → executing c = true → ¬Underflow (.op code) s →
      s.Grows s' code.gain code.altGain → MayStep ⟨s, c⟩ (.op code) ⟨s', c⟩
  | skip {i s c} : i.Plain → executing c = false → MayStep ⟨s, c⟩ i ⟨s, c⟩
  | openIf {x d alt c} (b : Bool) : executing c = true →
      MayStep ⟨⟨x :: d, alt⟩, c⟩ (.op .OpIf) ⟨⟨d, alt⟩, (if b then .yes else .no) :: c⟩
  | skipIf {s c} : executing c = false → MayStep ⟨s, c⟩ (.op .OpIf) ⟨s, .skip :: c⟩
  | closeIf {s o c} : MayStep ⟨s, o :: c⟩ (.op .OpEndIf) ⟨s, c⟩

/-- What code may do. -/
inductive MayRun : List Instr → Machine → Machine → Prop
  | nil {m} : MayRun [] m m
  | cons {i is m t m'} : MayStep m i t → MayRun is t m' → MayRun (i :: is) m m'

/-- Code that never underflows, whatever it does on the way. -/
def Safe : List Instr → Machine → Prop
  | [], _ => True
  | i :: is, m => (executing m.cond = true → ¬Underflow i m.stack) ∧ ∀ t, MayStep m i t → Safe is t

variable {env : Env} {i : Instr} {is js : List Instr} {s s' : Stacks} {c : List OpCond} {m m' t : Machine}

/-! ### What the engine does -/

/-- An underflow aborts the script. -/
theorem exec_of_underflow (h : Underflow i s) : i.exec env s = none := by
  cases h with
  | items h =>
    cases i with
    | push bytes => exact absurd h (Nat.not_lt_zero _)
    | op code =>
      obtain ⟨_ | ⟨x, _ | ⟨y, _ | ⟨z, d⟩⟩⟩, _ | ⟨a, alt⟩⟩ := s <;> cases code <;>
        first
        | rfl
        | exact absurd h (by simp [Instr.needs, Opcode.needs])
  | fromAlt => rfl
  | pick hn hk =>
    rw [Instr.exec, pick_eq, hn, Option.bind_some, List.getElem?_eq_none hk]
    rfl
  | roll hn hk =>
    rw [Instr.exec, roll_eq, hn, Option.bind_some, List.getElem?_eq_none hk]
    rfl

/-- **The engine does what may be done.** -/
theorem mayStep_of_step (h : step env m i = some m') : MayStep m i m' := by
  obtain ⟨s, c⟩ := m
  by_cases hopen : i = .op .OpIf
  · subst hopen
    change openIf ⟨s, c⟩ = some m' at h
    unfold openIf at h
    cases hc : executing c with
    | false =>
      simp only [hc, Bool.false_eq_true, if_false, Option.some.injEq] at h
      subst h
      exact .skipIf hc
    | true =>
      obtain ⟨_ | ⟨x, d⟩, alt⟩ := s
      · simp [hc] at h
      · simp only [hc, if_true, Option.map_eq_some_iff] at h
        obtain ⟨b, -, rfl⟩ := h
        exact .openIf b hc
  by_cases hclose : i = .op .OpEndIf
  · subst hclose
    change closeIf ⟨s, c⟩ = some m' at h
    cases c with
    | nil => cases h
    | cons o c =>
      cases h
      exact .closeIf
  have hi : i.Plain := ⟨hopen, hclose⟩
  cases hc : executing c with
  | false =>
    rw [step, if_neg hopen, if_neg hclose, hc] at h
    cases h
    exact .skip hi hc
  | true =>
    rw [step_plain hi hc, Option.map_eq_some_iff] at h
    obtain ⟨s', hexec, rfl⟩ := h
    cases i with
    | push bytes =>
      cases hexec
      exact .push hc
    | op code =>
      refine .op hi hc (fun hunder => ?_) (exec_gain hexec)
      rw [exec_of_underflow hunder] at hexec
      cases hexec

theorem mayRun_of_run (h : run env is m = some m') : MayRun is m m' := by
  induction is generalizing m with
  | nil =>
    cases h
    exact .nil
  | cons i is ih =>
    rw [run_cons, Option.bind_eq_some_iff] at h
    obtain ⟨t, hstep, hrun⟩ := h
    exact .cons (mayStep_of_step hstep) (ih hrun)

theorem mayRun_cons : MayRun (i :: is) m m' ↔ ∃ t, MayStep m i t ∧ MayRun is t m' := by
  constructor
  · intro h
    cases h with
    | cons hstep hrun => exact ⟨_, hstep, hrun⟩
  · rintro ⟨t, hstep, hrun⟩
    exact .cons hstep hrun

theorem mayRun_append : MayRun (is ++ js) m m' ↔ ∃ t, MayRun is m t ∧ MayRun js t m' := by
  induction is generalizing m with
  | nil =>
    constructor
    · intro h
      exact ⟨m, .nil, h⟩
    · rintro ⟨t, hnil, h⟩
      cases hnil
      exact h
  | cons i is ih =>
    constructor
    · intro h
      obtain ⟨u, hstep, hrun⟩ := mayRun_cons.mp h
      obtain ⟨t, hfirst, hrest⟩ := ih.mp hrun
      exact ⟨t, .cons hstep hfirst, hrest⟩
    · rintro ⟨t, hfirst, hrest⟩
      obtain ⟨u, hstep, hrun⟩ := mayRun_cons.mp hfirst
      exact .cons hstep (ih.mpr ⟨t, hrun, hrest⟩)

theorem safe_append : Safe (is ++ js) m ↔ Safe is m ∧ ∀ t, MayRun is m t → Safe js t := by
  induction is generalizing m with
  | nil =>
    constructor
    · intro h
      refine ⟨trivial, fun t hnil => ?_⟩
      cases hnil
      exact h
    · intro h
      exact h.2 m .nil
  | cons i is ih =>
    constructor
    · rintro ⟨hnow, hnext⟩
      refine ⟨⟨hnow, fun t hstep => (ih.mp (hnext t hstep)).1⟩, fun m' hrun => ?_⟩
      obtain ⟨t, hstep, hrest⟩ := mayRun_cons.mp hrun
      exact (ih.mp (hnext t hstep)).2 m' hrest
    · rintro ⟨⟨hnow, hnext⟩, hthen⟩
      exact ⟨hnow, fun t hstep => ih.mpr ⟨hnext t hstep, fun m' hrun => hthen m' (.cons hstep hrun)⟩⟩

/-- **Safe code does not underflow in the engine**, at no point of a run. -/
theorem Safe.not_underflow (h : Safe (is ++ i :: js) m) (hrun : run env is m = some t)
    (hc : executing t.cond = true) : ¬Underflow i t.stack :=
  ((safe_append.mp h).2 t (mayRun_of_run hrun)).1 hc

/-! ### One instruction -/

section single

variable {code : Opcode} {bytes : Bytes}

theorem executing_elim {p : Prop} (hc : executing c = false) (hc' : executing c = true) : p :=
  absurd (hc.symm.trans hc') Bool.false_ne_true

theorem mayStep_skip (hi : i.Plain) (hc : executing m.cond = false) : MayStep m i m' ↔ m' = m := by
  constructor
  · intro h
    cases h with
    | push hc' | op _ hc' => exact executing_elim hc hc'
    | skip => rfl
    | openIf | skipIf => exact absurd rfl hi.1
    | closeIf => exact absurd rfl hi.2
  · rintro rfl
    exact .skip hi hc

theorem mayStep_push (hc : executing m.cond = true) :
    MayStep m (.push bytes) m' ↔ m' = ⟨⟨bytes :: m.stack.data, m.stack.alt⟩, m.cond⟩ := by
  constructor
  · intro h
    cases h with
    | push => rfl
    | skip _ hc' => exact executing_elim hc' hc
  · rintro rfl
    exact .push hc

theorem mayStep_op (hplain : (Instr.op code).Plain) (hc : executing m.cond = true) :
    MayStep m (.op code) m' ↔
      ¬Underflow (.op code) m.stack ∧ m.stack.Grows m'.stack code.gain code.altGain ∧ m'.cond = m.cond := by
  constructor
  · intro h
    cases h with
    | op _ _ hunder hgrows => exact ⟨hunder, hgrows, rfl⟩
    | skip _ hc' => exact executing_elim hc' hc
    | openIf | skipIf => exact absurd rfl hplain.1
    | closeIf => exact absurd rfl hplain.2
  · obtain ⟨s', c'⟩ := m'
    rintro ⟨hunder, hgrows, rfl⟩
    exact .op hplain hc hunder hgrows

theorem mayStep_openIf (hc : executing m.cond = true) :
    MayStep m (.op .OpIf) m' ↔ ∃ x d, ∃ b : Bool, m.stack.data = x :: d ∧
      m' = ⟨⟨d, m.stack.alt⟩, (if b then .yes else .no) :: m.cond⟩ := by
  constructor
  · intro h
    cases h with
    | openIf b => exact ⟨_, _, b, rfl, rfl⟩
    | op hplain => exact absurd rfl hplain.1
    | skip hplain => exact absurd rfl hplain.1
    | skipIf hc' => exact executing_elim hc' hc
  · obtain ⟨⟨data, alt⟩, c⟩ := m
    rintro ⟨x, d, b, rfl, rfl⟩
    exact .openIf b hc

theorem mayStep_skipIf (hc : executing m.cond = false) :
    MayStep m (.op .OpIf) m' ↔ m' = ⟨m.stack, .skip :: m.cond⟩ := by
  constructor
  · intro h
    cases h with
    | openIf _ hc' => exact executing_elim hc hc'
    | op hplain => exact absurd rfl hplain.1
    | skip hplain => exact absurd rfl hplain.1
    | skipIf => rfl
  · rintro rfl
    exact .skipIf hc

theorem mayStep_closeIf {o : OpCond} : MayStep ⟨s, o :: c⟩ (.op .OpEndIf) m' ↔ m' = ⟨s, c⟩ := by
  constructor
  · intro h
    cases h with
    | closeIf => rfl
    | op hplain => exact absurd rfl hplain.2
    | skip hplain => exact absurd rfl hplain.2
  · rintro rfl
    exact .closeIf

theorem mayRun_singleton : MayRun [i] m m' ↔ MayStep m i m' := by
  constructor
  · intro h
    obtain ⟨t, hstep, hnil⟩ := mayRun_cons.mp h
    cases hnil
    exact hstep
  · intro h
    exact .cons h .nil

theorem safe_singleton : Safe [i] m ↔ (executing m.cond = true → ¬Underflow i m.stack) :=
  and_iff_left fun _ _ => trivial

/-- Code without blocks, where it is skipped. -/
theorem safe_skip (his : ∀ i ∈ is, i.Plain) (hc : executing m.cond = false) : Safe is m := by
  induction is with
  | nil => trivial
  | cons i is ih =>
    obtain ⟨hi, his⟩ := List.forall_mem_cons.mp his
    refine ⟨fun hc' => executing_elim hc hc', fun t hstep => ?_⟩
    rw [(mayStep_skip hi hc).mp hstep]
    exact ih his

theorem mayRun_skip (his : ∀ i ∈ is, i.Plain) (hc : executing m.cond = false) : MayRun is m m' ↔ m' = m := by
  induction is with
  | nil =>
    constructor
    · intro h
      cases h
      rfl
    · rintro rfl
      exact .nil
  | cons i is ih =>
    obtain ⟨hi, his⟩ := List.forall_mem_cons.mp his
    constructor
    · intro h
      obtain ⟨t, hstep, hrest⟩ := mayRun_cons.mp h
      rw [(mayStep_skip hi hc).mp hstep] at hrest
      exact (ih his).mp hrest
    · intro h
      exact .cons ((mayStep_skip hi hc).mpr rfl) ((ih his).mpr h)

theorem underflow_op_iff (hcode : code.Counts) : Underflow (.op code) s ↔ s.data.length < code.needs := by
  obtain ⟨-, halt, hpick, hroll⟩ := hcode
  constructor
  · intro h
    cases h with
    | items h => exact h
    | fromAlt => exact absurd halt (by decide)
    | pick => exact absurd rfl hpick
    | roll => exact absurd rfl hroll
  · intro h
    exact .items h

theorem eq_of_decodeIndex_encodeNum {j k : ℕ} (h : decodeIndex (encodeNum j) = some k) : k = j := by
  unfold decodeIndex decodeNum at h
  rw [numValue_encodeNum] at h
  split_ifs at h
  · rw [Option.bind_some, if_pos (Int.natCast_nonneg j), Int.toNat_natCast] at h
    exact (Option.some.inj h).symm
  · cases h

end single

/-! ### From how many items to how many -/

/-- From `n` items on the data stack, code leads to `k`, in the same blocks, and it never
underflows if and only if `G`. Where it is skipped it changes nothing. -/
structure Takes (is : List Instr) (n k : ℕ) (G : Prop) : Prop where
  safe_iff : ∀ m, executing m.cond = true → m.stack.data.length = n → (Safe is m ↔ G)
  goes : ∀ m, executing m.cond = true → m.stack.data.length = n → G → ∃ m', MayRun is m m'
  ends : ∀ m m', executing m.cond = true → m.stack.data.length = n → MayRun is m m' →
    m'.cond = m.cond ∧ m'.stack.data.length = k
  skips_safe : ∀ m, executing m.cond = false → Safe is m
  skips : ∀ m m', executing m.cond = false → (MayRun is m m' ↔ m' = m)

namespace Takes

variable {n k l : ℕ} {G G' : Prop}

theorem nil : Takes [] n n True where
  safe_iff _ _ _ := Iff.rfl
  goes m _ _ _ := ⟨m, .nil⟩
  ends m m' _ hlen hrun := by
    cases hrun
    exact ⟨rfl, hlen⟩
  skips_safe m hc := safe_skip (List.forall_mem_nil _) hc
  skips m m' hc := mayRun_skip (List.forall_mem_nil _) hc

theorem congr (h : Takes is n k G) (hG : G ↔ G') : Takes is n k G' := propext hG ▸ h

/-- **Sequencing.** -/
theorem append (h : Takes is n k G) (h' : Takes js k l G') : Takes (is ++ js) n l (G ∧ G') where
  safe_iff m hc hlen := by
    rw [safe_append, h.safe_iff m hc hlen]
    refine and_congr_right fun hG => ⟨fun hsafe => ?_, fun hG' t hrun => ?_⟩
    · obtain ⟨t, hrun⟩ := h.goes m hc hlen hG
      obtain ⟨hcond, hlen'⟩ := h.ends m t hc hlen hrun
      exact (h'.safe_iff t (hcond ▸ hc) hlen').mp (hsafe t hrun)
    · obtain ⟨hcond, hlen'⟩ := h.ends m t hc hlen hrun
      exact (h'.safe_iff t (hcond ▸ hc) hlen').mpr hG'
  goes m hc hlen hG := by
    obtain ⟨t, hrun⟩ := h.goes m hc hlen hG.1
    obtain ⟨hcond, hlen'⟩ := h.ends m t hc hlen hrun
    obtain ⟨m', hrun'⟩ := h'.goes t (hcond ▸ hc) hlen' hG.2
    exact ⟨m', mayRun_append.mpr ⟨t, hrun, hrun'⟩⟩
  ends m m' hc hlen hrun := by
    obtain ⟨t, hrun, hrun'⟩ := mayRun_append.mp hrun
    obtain ⟨hcond, hlen'⟩ := h.ends m t hc hlen hrun
    obtain ⟨hcond', hlen''⟩ := h'.ends t m' (hcond ▸ hc) hlen' hrun'
    exact ⟨hcond'.trans hcond, hlen''⟩
  skips_safe m hc := by
    refine safe_append.mpr ⟨h.skips_safe m hc, fun t hrun => ?_⟩
    rw [(h.skips m t hc).mp hrun]
    exact h'.skips_safe m hc
  skips m m' hc := by
    rw [mayRun_append]
    constructor
    · rintro ⟨t, hrun, hrun'⟩
      rw [(h.skips m t hc).mp hrun] at hrun'
      exact (h'.skips m m' hc).mp hrun'
    · intro heq
      exact ⟨m, (h.skips m m hc).mpr rfl, (h'.skips m m' hc).mpr heq⟩

/-- An instruction of no block. -/
theorem single (hi : i.Plain)
    (hsafe : ∀ s, s.data.length = n → (¬Underflow i s ↔ G))
    (hgoes : ∀ m, executing m.cond = true → m.stack.data.length = n → G → ∃ m', MayStep m i m')
    (hends : ∀ m m', executing m.cond = true → m.stack.data.length = n → MayStep m i m' →
      m'.cond = m.cond ∧ m'.stack.data.length = k) : Takes [i] n k G where
  safe_iff m hc hlen := by rw [safe_singleton, imp_iff_right hc, hsafe m.stack hlen]
  goes m hc hlen hG := by
    obtain ⟨m', hstep⟩ := hgoes m hc hlen hG
    exact ⟨m', mayRun_singleton.mpr hstep⟩
  ends m m' hc hlen hrun := hends m m' hc hlen (mayRun_singleton.mp hrun)
  skips_safe m hc := safe_skip (List.forall_mem_singleton.mpr hi) hc
  skips m m' hc := mayRun_skip (List.forall_mem_singleton.mpr hi) hc

/-- A push never underflows. -/
theorem push (bytes : Bytes) : Takes [.push bytes] n (n + 1) True := by
  have hplain : (Instr.push bytes).Plain := ⟨nofun, nofun⟩
  refine single hplain (fun s _ => ?_) (fun m hc _ _ => ?_) fun m m' hc hlen hstep => ?_
  · refine iff_of_true (fun hunder => ?_) trivial
    cases hunder with
    | items h => exact Nat.not_lt_zero _ h
  · exact ⟨_, (mayStep_push hc).mpr rfl⟩
  · obtain rfl := (mayStep_push hc).mp hstep
    exact ⟨rfl, congrArg (· + 1) hlen⟩

section op

variable {code : Opcode}

/-- An opcode that has its items may leave as many as it should. -/
theorem exists_mayStep (hplain : (Instr.op code).Plain) (halt : code.altGain = 0) (hk : (k : ℤ) = n + code.gain)
    (hc : executing m.cond = true) (hlen : m.stack.data.length = n) (hunder : ¬Underflow (.op code) m.stack) :
    ∃ m', MayStep m (.op code) m' := by
  refine ⟨⟨⟨List.replicate k [], m.stack.alt⟩, m.cond⟩, (mayStep_op hplain hc).mpr ⟨hunder, ⟨?_, ?_⟩, rfl⟩⟩
  · rw [List.length_replicate, hlen, hk]
  · rw [halt, Int.add_zero]

theorem ends_op (hplain : (Instr.op code).Plain) (hk : (k : ℤ) = n + code.gain) (hc : executing m.cond = true)
    (hlen : m.stack.data.length = n) (hstep : MayStep m (.op code) m') :
    m'.cond = m.cond ∧ m'.stack.data.length = k := by
  obtain ⟨-, ⟨hdata, -⟩, hcond⟩ := (mayStep_op hplain hc).mp hstep
  refine ⟨hcond, ?_⟩
  omega

/-- An opcode that counts its items. -/
theorem op (hcode : code.Counts) (hk : (k : ℤ) = n + code.gain) : Takes [.op code] n k (code.needs ≤ n) := by
  have hunder {s : Stacks} (hlen : s.data.length = n) : ¬Underflow (.op code) s ↔ code.needs ≤ n := by
    rw [underflow_op_iff hcode, hlen, not_lt]
  obtain ⟨hplain, halt, -⟩ := hcode
  refine single hplain (fun s hlen => hunder hlen) (fun m hc hlen henough => ?_) fun m m' hc hlen hstep => ?_
  · exact exists_mayStep hplain halt hk hc hlen ((hunder hlen).mpr henough)
  · exact ends_op hplain hk hc hlen hstep

/-- An opcode and the operand pushed for it. -/
theorem pushOp {bytes : Bytes} (hplain : (Instr.op code).Plain) (halt : code.altGain = 0)
    (hk : (k : ℤ) = n + 1 + code.gain) (hsafe : ∀ d alt, d.length = n → ¬Underflow (.op code) ⟨bytes :: d, alt⟩) :
    Takes [.push bytes, .op code] n k True := by
  have hpush : Takes [.push bytes] n (n + 1) True := push bytes
  have hk' : (k : ℤ) = (n + 1 : ℕ) + code.gain := by rwa [Nat.cast_succ]
  have hplains : ∀ i ∈ [Instr.push bytes, .op code], i.Plain :=
    List.forall_mem_cons.mpr ⟨⟨nofun, nofun⟩, List.forall_mem_singleton.mpr hplain⟩
  constructor
  · intro m hc hlen
    have hfirst := safe_singleton.mp ((hpush.safe_iff m hc hlen).mpr trivial)
    refine iff_of_true ⟨hfirst, fun t hstep => ?_⟩ trivial
    rw [(mayStep_push hc).mp hstep]
    exact safe_singleton.mpr fun _ => hsafe _ _ hlen
  · intro m hc hlen _
    obtain ⟨t, hstep⟩ := exists_mayStep (m := ⟨⟨bytes :: m.stack.data, m.stack.alt⟩, m.cond⟩) hplain halt hk' hc
      (congrArg (· + 1) hlen) (hsafe _ _ hlen)
    exact ⟨t, .cons ((mayStep_push hc).mpr rfl) (mayRun_singleton.mpr hstep)⟩
  · intro m m' hc hlen hrun
    obtain ⟨t, hfirst, hrest⟩ := mayRun_cons.mp hrun
    obtain rfl := (mayStep_push hc).mp hfirst
    have hlen' : (bytes :: m.stack.data).length = n + 1 := congrArg (· + 1) hlen
    have hstep := mayRun_singleton.mp hrest
    exact ends_op (m := ⟨⟨bytes :: m.stack.data, m.stack.alt⟩, m.cond⟩) hplain hk' hc hlen' hstep
  · intro m hc
    exact safe_skip hplains hc
  · intro m m' hc
    exact mayRun_skip hplains hc

/-- A copy of the item at a depth that is there. -/
theorem pick {depth : ℕ} (h : depth < n) : Takes [.push (encodeNum depth), .op .OpPick] n (n + 1) True := by
  refine pushOp (by decide) rfl (by simp [Opcode.gain]) fun d alt hlen hunder => ?_
  cases hunder with
  | items h => exact absurd h (by simp [Instr.needs, Opcode.needs])
  | pick hn hk =>
    rw [eq_of_decodeIndex_encodeNum hn] at hk
    omega

/-- The item at a depth that is there, moved to the top. -/
theorem roll {depth : ℕ} (h : depth < n) : Takes [.push (encodeNum depth), .op .OpRoll] n n True := by
  refine pushOp (by decide) rfl (by simp [Opcode.gain]) fun d alt hlen hunder => ?_
  cases hunder with
  | items h => exact absurd h (by simp [Instr.needs, Opcode.needs])
  | roll hn hk =>
    rw [eq_of_decodeIndex_encodeNum hn] at hk
    omega

end op

section block

variable {d alt : List Bytes} {o : OpCond}

/-- Either way of a condition, the body ends in the block and with as many items. -/
theorem branch (h : Takes is n n G) {b : Bool} (hlen : d.length = n)
    (hrun : MayRun is ⟨⟨d, alt⟩, (if b then .yes else .no) :: c⟩ t) :
    ∃ s', t = ⟨s', (if b then .yes else .no) :: c⟩ ∧ s'.data.length = n := by
  obtain ⟨s', c'⟩ := t
  cases b with
  | false => exact ⟨⟨d, alt⟩, (h.skips _ _ rfl).mp hrun, hlen⟩
  | true =>
    obtain ⟨rfl, hlen'⟩ := h.ends _ _ rfl hlen hrun
    exact ⟨s', rfl, hlen'⟩

theorem safe_closeIf : Safe [.op .OpEndIf] ⟨s, o :: c⟩ := by
  refine safe_singleton.mpr fun _ hunder => ?_
  cases hunder with
  | items h => exact Nat.not_lt_zero _ h

/-- **A block** that leaves as many items as it finds. -/
theorem block (h : Takes is n n G) : Takes (block is) (n + 1) n G := by
  constructor
  · intro m hc hlen
    obtain ⟨⟨_ | ⟨x, d⟩, alt⟩, c⟩ := m
    · exact absurd hlen (by simp)
    have hlen' : d.length = n := Nat.succ.inj hlen
    constructor
    · rintro ⟨-, hnext⟩
      have hbody := hnext _ (.openIf true hc)
      exact (h.safe_iff _ rfl hlen').mp (safe_append.mp hbody).1
    · intro hG
      refine ⟨fun _ hunder => ?_, fun t hstep => ?_⟩
      · cases hunder with
        | items h => exact absurd h (by simp [Instr.needs, Opcode.needs])
      · obtain ⟨x', d', b, hdata, rfl⟩ := (mayStep_openIf hc).mp hstep
        cases hdata
        refine safe_append.mpr ⟨?_, fun u hrun => ?_⟩
        · cases b with
          | false => exact h.skips_safe _ rfl
          | true => exact (h.safe_iff _ rfl hlen').mpr hG
        · obtain ⟨s', rfl, -⟩ := h.branch hlen' hrun
          exact safe_closeIf
  · intro m hc hlen _
    obtain ⟨⟨_ | ⟨x, d⟩, alt⟩, c⟩ := m
    · exact absurd hlen (by simp)
    have hbody : MayRun is ⟨⟨d, alt⟩, .no :: c⟩ ⟨⟨d, alt⟩, .no :: c⟩ := (h.skips _ _ rfl).mpr rfl
    exact ⟨⟨⟨d, alt⟩, c⟩, .cons (.openIf false hc) (mayRun_append.mpr ⟨_, hbody, mayRun_singleton.mpr .closeIf⟩)⟩
  · intro m m' hc hlen hrun
    obtain ⟨t, hopen, hrest⟩ := mayRun_cons.mp hrun
    obtain ⟨x, d, b, hdata, rfl⟩ := (mayStep_openIf hc).mp hopen
    obtain ⟨u, hbody, hclose⟩ := mayRun_append.mp hrest
    rw [hdata] at hlen
    obtain ⟨s', rfl, hlen'⟩ := h.branch (Nat.succ.inj hlen) hbody
    obtain rfl := mayStep_closeIf.mp (mayRun_singleton.mp hclose)
    exact ⟨rfl, hlen'⟩
  · intro m hc
    refine ⟨fun hc' => executing_elim hc hc', fun t hstep => ?_⟩
    rw [(mayStep_skipIf hc).mp hstep]
    refine safe_append.mpr ⟨h.skips_safe _ rfl, fun u hu => ?_⟩
    rw [(h.skips _ u rfl).mp hu]
    exact safe_closeIf
  · intro m m' hc
    constructor
    · intro hrun
      obtain ⟨t, hopen, hrest⟩ := mayRun_cons.mp hrun
      obtain ⟨u, hbody, hclose⟩ := mayRun_append.mp hrest
      rw [(mayStep_skipIf hc).mp hopen] at hbody
      rw [(h.skips _ u rfl).mp hbody] at hclose
      exact mayStep_closeIf.mp (mayRun_singleton.mp hclose)
    · rintro rfl
      exact .cons (.skipIf hc) (mayRun_append.mpr ⟨_, (h.skips _ _ rfl).mpr rfl, mayRun_singleton.mpr .closeIf⟩)

end block

end Takes

end KaspaPqv.Script
