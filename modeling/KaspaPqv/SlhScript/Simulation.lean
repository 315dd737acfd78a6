import KaspaPqv.Script.Heights
import KaspaPqv.SlhScript.Emitter

/-!
# The emitter and its code, side by side

A configuration says what the emitter believes and what the engine holds: the slots of the
data stack with their names and their values, the alt stack, how many elements of the
signature have been consumed and how many wait. `Emits S m c c'` says that from a state of
the emitter as `c` says, the generator `m` succeeds and leaves it as `c'` says, and that
its code takes the engine from `c` to `c'`. Generation does not know what the witness is.
In a configuration that is not live, the values are not known, and only the heights of the
stacks are; in one that is dead, the script has aborted.

A second account is kept along the way: as long as the alt stack stays within a given number
of items, the stacks never hold more than that number and the emitter's peak together.

## What is proved

* `Emits.seq`, `Emits.forRange`, `Emits.onlyIf`, `Emits.ifBlock` — the rules for putting
  generators together.
* `Emits.instr` — an instruction together with its change of the frame.
* `Emits.run` — from the account of both, what the code does to the engine.
* `Emits.reaches` — a frame that has been held is not above the peak.
-/

namespace KaspaPqv.SlhScript

open KaspaPqv.Lib KaspaPqv.Script

/-- What a script runs in. -/
structure Setting where
  env : Env
  /-- The items below those that the frame speaks of. -/
  rest : List Bytes
  /-- What the items below and the alt stack hold together at most. -/
  cap : ℕ

/-- The witness queue. -/
structure Queue where
  /-- The alt stack, top first. -/
  alt : List Bytes
  /-- How many elements have been consumed. -/
  next : ℕ
  /-- How many are cut and wait on the alt stack. -/
  pending : ℕ
  /-- The items are those of the configuration, unless the script has aborted. -/
  live : Prop
  /-- The script has aborted. -/
  dead : Prop

/-- What is left of a queue behind a demand that aborts the script if it is not met. -/
def Queue.demand (q : Queue) (p : Prop) : Queue := { q with live := q.live ∧ p, dead := q.dead ∨ q.live ∧ ¬p }

theorem Queue.demand_demand (q : Queue) (p p' : Prop) : (q.demand p).demand p' = q.demand (p ∧ p') := by
  have hlive : ((q.live ∧ p) ∧ p') = (q.live ∧ p ∧ p') := propext and_assoc
  have hdead : ((q.dead ∨ q.live ∧ ¬p) ∨ (q.live ∧ p) ∧ ¬p') = (q.dead ∨ q.live ∧ ¬(p ∧ p')) := by
    refine propext ?_
    tauto
  simp only [demand, hlive, hdead]

/-- A demand that is met. -/
theorem Queue.demand_of {q : Queue} {p : Prop} (h : q.live → p) : q.demand p = q := by
  have hlive : (q.live ∧ p) = q.live := propext ⟨And.left, fun hq => ⟨hq, h hq⟩⟩
  have hdead : (q.dead ∨ q.live ∧ ¬p) = q.dead := propext (or_iff_left fun hq => hq.2 (h hq.1))
  simp only [demand, hlive, hdead]

/-- A configuration: the slots, top first, with their names and values, and the queue. -/
structure Conf (ν : Type) where
  vars : List (ν × Bytes)
  q : Queue

variable {ν : Type}

/-- The stacks of a configuration. -/
def Conf.stacks (S : Setting) (c : Conf ν) : Stacks := ⟨c.vars.map Prod.snd ++ S.rest, c.q.alt⟩

/-- The machine has the heights of a configuration, and is within the mark. -/
structure Conf.Shapes (S : Setting) (cond : List OpCond) (c : Conf ν) (high : ℕ) (m : Machine) : Prop where
  cond_eq : m.cond = cond
  data_len : m.stack.data.length = c.vars.length + S.rest.length
  alt_len : m.stack.alt.length = c.q.alt.length
  height_le : m.stack.height ≤ high

theorem Conf.Shapes.congr {S : Setting} {cond : List OpCond} {c c' : Conf ν} {high : ℕ} {m : Machine}
    (h : c.Shapes S cond high m) (hvars : c'.vars.length = c.vars.length) (halt : c'.q.alt = c.q.alt) :
    c'.Shapes S cond high m :=
  ⟨h.cond_eq, h.data_len.trans (congrArg (· + S.rest.length) hvars.symm),
    h.alt_len.trans (congrArg List.length halt.symm), h.height_le⟩

/-- The emitter and the engine are as a configuration says. `low` is a peak that has been
reached, `limit` a bound for the items on both stacks. -/
structure Conf.Holds (S : Setting) (cond : List OpCond) (low limit : ℕ) (c : Conf ν) (g : EmitState ν) (w : Watch) :
    Prop where
  frame : g.f = c.vars.map Prod.fst
  next : g.nextElement = c.q.next
  pending : g.pending = c.q.pending
  running : c.q.live → w.machine = some ⟨c.stacks S, cond⟩
  aborted : c.q.dead → w.machine = none
  shapes : ∀ m, w.machine = some m → c.Shapes S cond w.high m
  low_le : low ≤ g.peakFrame
  frame_le : c.vars.length ≤ g.peakFrame + 1
  alt_le : c.q.alt.length + S.rest.length ≤ S.cap
  high_le : S.cap + g.peakFrame ≤ limit → w.high ≤ limit

/-- Of a script that has aborted nothing is asked. -/
theorem Conf.shapes_none {S : Setting} {cond : List OpCond} {c : Conf ν} {high : ℕ} :
    ∀ m, none = some m → c.Shapes S cond high m := by
  intro m hm
  cases hm

section holds

variable {S : Setting} {cond : List OpCond} {low limit high : ℕ} {c : Conf ν} {g : EmitState ν} {m : Machine}

theorem Conf.Holds.not_live (h : c.Holds S cond low limit g ⟨none, high⟩) : ¬c.q.live := by
  intro hlive
  cases h.running hlive

theorem Conf.Holds.not_dead (h : c.Holds S cond low limit g ⟨some m, high⟩) : ¬c.q.dead := by
  intro hdead
  cases h.aborted hdead

end holds

/-- From `c`, the generator succeeds and its code leads to `c'`. -/
def Emits (S : Setting) (m : Emitter.Emit ν Unit) (c c' : Conf ν) : Prop :=
  ∀ cond, executing cond = true → ∀ low limit,
    Triple (watched S.env) (c.Holds S cond low limit) m fun _ => c'.Holds S cond low limit

/-- A generator that emits nothing, and takes one frame to another; whether it notes the peak. -/
def Reframes (m : Emitter.Emit ν Unit) (f f' : Frame ν) (noted : Bool) : Prop :=
  ∀ g : EmitState ν, g.f = f →
    m g = .ok ((), { g with f := f', peakFrame := if noted then max g.peakFrame f'.length else g.peakFrame }, [])

namespace Reframes

variable {m m' : Emitter.Emit ν Unit} {f f₁ f' : Frame ν} {noted : Bool}

theorem onFrame {u : Frame ν → Except String (Frame ν)} (h : u f = .ok f') : Reframes (Emitter.onFrame u) f f' false := by
  rintro g rfl
  rw [Emitter.onFrame, h]
  rfl

theorem pushSlot (name : ν) : Reframes (Emitter.pushSlot name) f (name :: f) true := by
  rintro g rfl
  rfl

theorem seq (hm : Reframes m f f₁ false) (hm' : Reframes m' f₁ f' noted) :
    Reframes (m >>= fun _ => m') f f' noted := by
  intro g hg
  exact Gen.bind_silent (hm g hg) (hm' _ rfl)

end Reframes

namespace Emits

variable {S : Setting} {m m' : Emitter.Emit ν Unit} {c t c' : Conf ν} {vs vs' : List (ν × Bytes)} {q q' : Queue}

/-! ### Putting generators together -/

theorem seq (hm : Emits S m c t) (hm' : Emits S m' t c') : Emits S (m >>= fun _ => m') c c' :=
  fun cond hc low limit => (hm cond hc low limit).bind fun _ => hm' cond hc low limit

/-- A sequence whose first two parts belong together. -/
theorem seq₂ {k : Emitter.Emit ν Unit} (hm : Emits S (m >>= fun _ => k) c t) (hm' : Emits S m' t c') :
    Emits S (m >>= fun _ => k >>= fun _ => m') c c' := by
  rw [← Gen.bind_bind]
  exact hm.seq hm'

theorem refl : Emits S (pure () : Emitter.Emit ν Unit) c c := fun _ _ _ _ => .pure fun _ _ h => h

theorem forRange {n : ℕ} {body : ℕ → Emitter.Emit ν Unit} (I : ℕ → Conf ν)
    (h : ∀ i < n, Emits S (body i) (I i) (I (i + 1))) : Emits S (Gen.forRange n body) (I 0) (I n) :=
  fun cond hc low limit => Triple.forRange fun i hi => h i hi cond hc low limit

theorem onlyIf {p : Prop} [Decidable p] (hm : p → Emits S m c c') (hn : ¬p → c = c') :
    Emits S (Gen.onlyIf p m) c c' := fun cond hc low limit =>
  .onlyIf (fun hp => hm hp cond hc low limit) fun hp _ _ h => hn hp ▸ h

theorem ensure {p : Prop} [Decidable p] {e : String} (hp : p) :
    Emits S (Gen.ensure p e : Emitter.Emit ν Unit) c c := fun _ _ _ _ => .ensure hp

/-- Reading the emitter's state. -/
theorem get {k : EmitState ν → Emitter.Emit ν Unit}
    (h : ∀ g : EmitState ν, g.f = c.vars.map Prod.fst → g.nextElement = c.q.next → g.pending = c.q.pending →
      Emits S (k g) c c') : Emits S (Gen.get >>= k) c c' := by
  intro cond hc low limit g w hg
  obtain ⟨a, g', is, w', hgen, hrun, hend, hinert⟩ := h g hg.frame hg.next hg.pending cond hc low limit g w hg
  exact ⟨a, g', is, w', Gen.bind_silent rfl hgen, hrun, hend, hinert⟩

/-- Resolving the depth of a named slot. -/
theorem depthOf [SlotName ν] [DecidableEq ν] {name : ν} {k : ℕ} {x : Bytes} {cont : ℕ → Emitter.Emit ν Unit}
    (h : find name vs = some (k, x)) (hcont : Emits S (cont k) ⟨vs, q⟩ c') :
    Emits S (Emitter.depthOf name >>= cont) ⟨vs, q⟩ c' := by
  intro cond hc low limit g w hg
  obtain ⟨a, g', is, w', hgen, hrun, hend, hinert⟩ := hcont cond hc low limit g w hg
  refine ⟨a, g', is, w', Gen.bind_silent ?_ hgen, hrun, hend, hinert⟩
  rw [Emitter.depthOf, hg.frame, (find_eq_some h).1]

/-! ### Instructions -/

/-- **One instruction**, which may abort the script, and the change of the frame that goes
with it. Either the peak is noted, or the stacks do not grow. -/
theorem instr_or {i : Instr} {k : Emitter.Emit ν Unit} {noted : Bool} (hi : i.Plain)
    (hk : Reframes k (c.vars.map Prod.fst) (c'.vars.map Prod.fst) noted)
    (hrun : c'.q.live → c.q.live ∧ i.exec S.env (c.stacks S) = some (c'.stacks S))
    (habort : c'.q.dead → c.q.dead ∨ c.q.live ∧ i.exec S.env (c.stacks S) = none)
    (hgain : (c'.vars.length : ℤ) = c.vars.length + i.gain)
    (haltGain : (c'.q.alt.length : ℤ) = c.q.alt.length + i.altGain)
    (hnext : c'.q.next = c.q.next) (hpending : c'.q.pending = c.q.pending)
    (halt : c.q.alt.length + S.rest.length ≤ S.cap → c'.q.alt.length + S.rest.length ≤ S.cap)
    (hgrow : noted = false → i.gain ≤ 0 ∧ i.gain + i.altGain ≤ 0) :
    Emits S (Gen.emit [i] >>= fun _ => k) c c' := by
  intro cond hc low limit g w hg
  set g' : EmitState ν := { g with
    f := c'.vars.map Prod.fst, peakFrame := if noted then max g.peakFrame (c'.vars.map Prod.fst).length else g.peakFrame }
    with hg'
  have hgen : (Gen.emit [i] >>= fun _ => k) g = .ok ((), g', [i]) := Gen.bind_then_silent rfl (hk g hg.frame)
  have hpeak : g.peakFrame ≤ g'.peakFrame := by
    simp only [hg']
    split_ifs
    · exact le_max_left _ _
    · exact le_rfl
  have hframe' : c'.vars.length ≤ g'.peakFrame + 1 := by
    have hframe := hg.frame_le
    simp only [hg', List.length_map]
    cases noted with
    | true => exact (le_max_right _ _).trans (Nat.le_succ _)
    | false =>
      have hle := (hgrow rfl).1
      rw [if_neg Bool.false_ne_true]
      omega
  have halt' := halt hg.alt_le
  have hlow := hg.low_le.trans hpeak
  have hhigh (hlimit : S.cap + g'.peakFrame ≤ limit) : w.high ≤ limit :=
    hg.high_le ((Nat.add_le_add_left hpeak _).trans hlimit)
  obtain ⟨_ | m, high⟩ := w
  · -- a script that has aborted stays so
    exact ⟨(), g', [i], ⟨none, high⟩, hgen, rfl, ⟨rfl, hg.next.trans hnext.symm, hg.pending.trans hpending.symm,
      fun h => absurd (hrun h).1 hg.not_live, fun _ => rfl, Conf.shapes_none, hlow, hframe', halt', hhigh⟩,
      unseen_plain hi⟩
  · have hm := hg.shapes m rfl
    obtain ⟨s, cond'⟩ := m
    obtain rfl : cond' = cond := hm.cond_eq
    have halive : ¬c.q.dead := hg.not_dead
    have hstacks (h : c.q.live) : s = c.stacks S := congrArg Machine.stack (Option.some.inj (hg.running h))
    cases hexec : i.exec S.env s with
    | none =>
      refine ⟨(), g', [i], ⟨none, high⟩, hgen, congrArg some (watchStep_abort hi hc hexec high), ?_, unseen_plain hi⟩
      refine ⟨rfl, hg.next.trans hnext.symm, hg.pending.trans hpending.symm, fun h => ?_, fun _ => rfl,
        Conf.shapes_none, hlow, hframe', halt', hhigh⟩
      obtain ⟨hlive, hsome⟩ := hrun h
      rw [hstacks hlive, hsome] at hexec
      cases hexec
    | some s' =>
      obtain ⟨hd, ha⟩ := exec_gain hexec
      have hdata := hm.data_len
      have haltLen := hm.alt_len
      simp only at hdata haltLen
      have hdata' : s'.data.length = c'.vars.length + S.rest.length := by omega
      have haltLen' : s'.alt.length = c'.q.alt.length := by omega
      refine ⟨(), g', [i], ⟨some ⟨s', cond'⟩, max high s'.height⟩, hgen,
        congrArg some (watchStep_plain hi hc hexec high), ?_, unseen_plain hi⟩
      refine ⟨rfl, hg.next.trans hnext.symm, hg.pending.trans hpending.symm, fun h => ?_, fun h => ?_, ?_, hlow, hframe',
        halt', fun hlimit => max_le (hhigh hlimit) ?_⟩
      · obtain ⟨hlive, hsome⟩ := hrun h
        rw [hstacks hlive, hsome] at hexec
        rw [Option.some.inj hexec]
      · rcases habort h with hdead | ⟨hlive, hnone⟩
        · exact absurd hdead halive
        · rw [hstacks hlive, hnone] at hexec
          cases hexec
      · intro m hm'
        cases hm'
        exact ⟨rfl, hdata', haltLen', le_max_right _ _⟩
      · have hh := hhigh hlimit
        have hle := hm.height_le
        simp only [Stacks.height] at hle hh ⊢
        cases hn : noted with
        | false =>
          have := (hgrow hn).2
          omega
        | true =>
          have hpeak' : c'.vars.length ≤ g'.peakFrame := by
            simp only [hg', hn, List.length_map]
            exact le_max_right _ _
          omega

/-- **One instruction** that touches neither the alt stack nor the queue. -/
theorem instr {i : Instr} {k : Emitter.Emit ν Unit} {noted : Bool} (hi : i.Plain)
    (hk : Reframes k (vs.map Prod.fst) (vs'.map Prod.fst) noted)
    (hexec : i.exec S.env ⟨vs.map Prod.snd ++ S.rest, q.alt⟩ = some ⟨vs'.map Prod.snd ++ S.rest, q.alt⟩)
    (hgrow : noted = false → vs'.length ≤ vs.length) :
    Emits S (Gen.emit [i] >>= fun _ => k) ⟨vs, q⟩ ⟨vs', q⟩ := by
  obtain ⟨hd, ha⟩ := exec_gain hexec
  simp only [List.length_append, List.length_map] at hd ha
  refine instr_or hi hk (fun h => ⟨h, hexec⟩) .inl ?_ ha rfl rfl id fun hn => ?_
  · simp only
    omega
  · have := hgrow hn
    omega

/-- A change of the frame alone. -/
theorem reframe {k : Emitter.Emit ν Unit} {noted : Bool} (hk : Reframes k (vs.map Prod.fst) (vs'.map Prod.fst) noted)
    (hvals : vs'.map Prod.snd = vs.map Prod.snd) : Emits S k ⟨vs, q⟩ ⟨vs', q⟩ := by
  intro cond hc low limit g w hg
  have hlen : vs'.length = vs.length := by simpa using congrArg List.length hvals
  have hstacks : Conf.stacks S ⟨vs', q⟩ = Conf.stacks S ⟨vs, q⟩ := by simp only [Conf.stacks, hvals]
  refine ⟨(), _, [], w, hk g hg.frame, rfl, ?_, (watched S.env).inert_nil⟩
  have hpeak : g.peakFrame ≤ if noted then max g.peakFrame (vs'.map Prod.fst).length else g.peakFrame := by
    split_ifs
    · exact le_max_left _ _
    · exact le_rfl
  exact ⟨rfl, hg.next, hg.pending, fun h => by rw [hstacks]; exact hg.running h, hg.aborted,
    fun m hm => (hg.shapes m hm).congr hlen rfl, hg.low_le.trans hpeak,
    (hlen.le.trans hg.frame_le).trans (Nat.succ_le_succ hpeak), hg.alt_le,
    fun h => hg.high_le ((Nat.add_le_add_left hpeak _).trans h)⟩

/-- Where the values are not known, they do not matter. -/
theorem forget (hm : Emits S m c ⟨vs, q⟩) (hnames : vs'.map Prod.fst = vs.map Prod.fst)
    (hlive : q'.live → q.live ∧ vs'.map Prod.snd = vs.map Prod.snd) (hdead : q'.dead → q.dead)
    (halt : q'.alt = q.alt) (hnext : q'.next = q.next) (hpending : q'.pending = q.pending) :
    Emits S m c ⟨vs', q'⟩ := by
  intro cond hc low limit
  refine (hm cond hc low limit).weaken (fun _ _ h => h) fun _ g w hend => ?_
  have hlen : vs'.length = vs.length := by simpa using congrArg List.length hnames
  refine ⟨hend.frame.trans hnames.symm, hend.next.trans hnext.symm, hend.pending.trans hpending.symm, fun h => ?_,
    fun h => hend.aborted (hdead h), fun m hm => (hend.shapes m hm).congr hlen halt, hend.low_le,
    hlen.le.trans hend.frame_le, by rw [halt]; exact hend.alt_le, hend.high_le⟩
  obtain ⟨hlive', hvals⟩ := hlive h
  rw [hend.running hlive']
  simp only [Conf.stacks, hvals, halt]

/-- The emitter's own account of the queue. -/
theorem account {k : EmitState ν → EmitState ν} {q' : Queue} (hf : ∀ g, (k g).f = g.f)
    (hpeak : ∀ g, (k g).peakFrame = g.peakFrame) (halt : q'.alt = q.alt) (hlive : q'.live = q.live)
    (hdead : q'.dead = q.dead) (hnext : ∀ g : EmitState ν, g.nextElement = q.next → (k g).nextElement = q'.next)
    (hpending : ∀ g : EmitState ν, g.pending = q.pending → (k g).pending = q'.pending) :
    Emits S (Gen.modify k) ⟨vs, q⟩ ⟨vs, q'⟩ := by
  intro cond hc low limit g w hg
  obtain ⟨alt', next', pending', live', dead'⟩ := q'
  obtain rfl : alt' = q.alt := halt
  obtain rfl : live' = q.live := hlive
  obtain rfl : dead' = q.dead := hdead
  exact ⟨(), k g, [], w, rfl, rfl, ⟨(hf g).trans hg.frame, hnext g hg.next, hpending g hg.pending, hg.running,
    hg.aborted, fun m hm => (hg.shapes m hm).congr rfl rfl, hg.low_le.trans (hpeak g).ge,
    hg.frame_le.trans (Nat.succ_le_succ (hpeak g).ge), hg.alt_le, fun h => hg.high_le (by rwa [hpeak g] at h)⟩,
    (watched S.env).inert_nil⟩

/-- **A block**: its body's effect if the condition is true, none if it is false. The frame
takes it to be run, so the names are those behind the body. -/
theorem ifBlock {b : Bool} {s : ν} {vs₁ : List (ν × Bytes)} (hm : Emits S m ⟨vs, q⟩ ⟨vs₁, q⟩)
    (hlen : vs₁.length = vs.length) (hnames : vs'.map Prod.fst = vs₁.map Prod.fst)
    (htrue : b = true → vs'.map Prod.snd = vs₁.map Prod.snd) (hfalse : b = false → vs'.map Prod.snd = vs.map Prod.snd) :
    Emits S (Emitter.ifBlock m) ⟨(s, boolBytes b) :: vs, q⟩ ⟨vs', q⟩ := by
  intro cond hc low limit g w hg
  set g₁ : EmitState ν := { g with f := vs.map Prod.fst } with hg₁
  have hpop : (Emitter.onFrame Frame.pop : Emitter.Emit ν Unit) g = .ok ((), g₁, []) := by
    rw [Emitter.onFrame, hg.frame]
    rfl
  have hcode {g' is} (hgen : m g₁ = .ok ((), g', is)) : Emitter.ifBlock m g = .ok ((), g', block is) :=
    Gen.bind_ok (ScriptWriter.op_apply _ _) <| Gen.bind_silent hpop <| Gen.bind_ok hgen (ScriptWriter.op_apply _ _)
  have hlen' : vs'.length = vs₁.length := by simpa using congrArg List.length hnames
  have hlow : vs.length ≤ g₁.peakFrame + 1 := (Nat.le_succ _).trans hg.frame_le
  obtain ⟨_ | machine, high⟩ := w
  · have hlive : ¬q.live := hg.not_live
    obtain ⟨⟨⟩, g', is, w', hgen, -, hend, hunseen⟩ := hm (.yes :: cond) rfl g.peakFrame limit g₁ ⟨none, high⟩
      ⟨rfl, hg.next, hg.pending, fun h => absurd h hlive, fun _ => rfl, Conf.shapes_none, le_rfl, hlow,
        hg.alt_le, hg.high_le⟩
    have hpeak : g.peakFrame ≤ g'.peakFrame := hend.low_le
    exact ⟨(), g', block is, ⟨none, high⟩, hcode hgen, congrArg some (watch_none _ _),
      ⟨hend.frame.trans hnames.symm, hend.next, hend.pending, fun h => absurd h hlive, fun _ => rfl,
        Conf.shapes_none, hg.low_le.trans hpeak, hlen'.le.trans hend.frame_le, hg.alt_le,
        fun h => hg.high_le ((Nat.add_le_add_left hpeak _).trans h)⟩, unseen_block hunseen⟩
  · have hshape := hg.shapes machine rfl
    have halive : ¬q.dead := hg.not_dead
    obtain ⟨⟨data, alt⟩, cond'⟩ := machine
    obtain rfl : cond' = cond := hshape.cond_eq
    have hdata : data.length = vs.length + S.rest.length + 1 := hshape.data_len.trans (Nat.succ_add _ _)
    obtain ⟨x, d, rfl⟩ := List.exists_cons_of_length_eq_add_one hdata
    rw [List.length_cons, Nat.add_right_cancel_iff] at hdata
    have hitems (h : q.live) : x = boolBytes b ∧ (⟨d, alt⟩ : Stacks) = Conf.stacks S ⟨vs, q⟩ := by
      have hstack := congrArg Machine.stack (Option.some.inj (hg.running h))
      simp only [Conf.stacks, List.map_cons, List.cons_append, Stacks.mk.injEq, List.cons.injEq] at hstack ⊢
      exact ⟨hstack.1.1, hstack.1.2, hstack.2⟩
    have hheight : (Stacks.mk (x :: d) alt).height ≤ high := hshape.height_le
    have hheight' : (Stacks.mk d alt).height ≤ high := by
      simp only [Stacks.height, List.length_cons] at hheight ⊢
      omega
    obtain ⟨⟨⟩, g', is, w', hgen, hrun, hend, hunseen⟩ := hm (.yes :: cond') rfl g.peakFrame limit g₁
      ⟨some ⟨⟨d, alt⟩, .yes :: cond'⟩, high⟩
      ⟨rfl, hg.next, hg.pending, fun h => by rw [(hitems h).2], fun h => absurd h halive,
        fun m hm => by cases hm; exact ⟨rfl, hdata, hshape.alt_len, hheight'⟩, le_rfl, hlow, hg.alt_le, hg.high_le⟩
    have hpeak : g.peakFrame ≤ g'.peakFrame := hend.low_le
    have hhigh (h : S.cap + g'.peakFrame ≤ limit) : high ≤ limit := hg.high_le ((Nat.add_le_add_left hpeak _).trans h)
    -- what is left to say is how the block runs
    suffices hblock : ∃ w'', watch S.env (block is) ⟨some ⟨⟨x :: d, alt⟩, cond'⟩, high⟩ = w'' ∧
        (q.live → w''.machine = some ⟨Conf.stacks S ⟨vs', q⟩, cond'⟩) ∧
        (∀ m, w''.machine = some m → Conf.Shapes S cond' ⟨vs', q⟩ w''.high m) ∧
        (S.cap + g'.peakFrame ≤ limit → w''.high ≤ limit) by
      obtain ⟨w'', hwatch, hlive, hshapes, hlimit⟩ := hblock
      exact ⟨(), g', block is, w'', hcode hgen, congrArg some hwatch,
        ⟨hend.frame.trans hnames.symm, hend.next, hend.pending, hlive, fun h => absurd h halive, hshapes,
          hg.low_le.trans hpeak, hlen'.le.trans hend.frame_le, hg.alt_le, hlimit⟩, unseen_block hunseen⟩
    cases hx : condition x with
    | none =>
      refine ⟨_, watch_block_abort hc hx, fun h => ?_, Conf.shapes_none, hhigh⟩
      rw [(hitems h).1, condition_boolBytes] at hx
      cases hx
    | some b' =>
      obtain rfl := eq_boolBytes_of_condition hx
      have hbit (h : q.live) : b' = b := boolBytes_inj (hitems h).1
      cases b' with
      | false =>
        refine ⟨_, watch_block_false hc hheight hunseen, fun h => ?_, fun m hm => ?_, hhigh⟩
        · rw [(hitems h).2]
          simp only [Conf.stacks, hfalse (hbit h).symm]
        · cases hm
          exact ⟨rfl, hdata.trans (by simp only [hlen', hlen]), hshape.alt_len, hheight'⟩
      | true =>
        have hwatch := watch_block_true S.env is hc hheight
        rw [Option.some.inj hrun] at hwatch
        obtain ⟨_ | machine', high'⟩ := w'
        · exact ⟨_, hwatch, fun h => absurd h hend.not_live, Conf.shapes_none, hend.high_le⟩
        · obtain ⟨stack', cond''⟩ := machine'
          have hshape' := hend.shapes _ rfl
          obtain rfl : cond'' = .yes :: cond' := hshape'.cond_eq
          rw [watchStep_closeIf _ _ _ hshape'.height_le] at hwatch
          refine ⟨_, hwatch, fun h => ?_, fun m hm => ?_, hend.high_le⟩
          · have hstack := congrArg Machine.stack (Option.some.inj (hend.running h))
            simp only at hstack
            rw [hstack]
            simp only [Conf.stacks, htrue (hbit h).symm]
          · cases hm
            exact ⟨rfl, hshape'.data_len.trans (by simp only [hlen']), hshape'.alt_len, hshape'.height_le⟩

/-- **What a generator's code does to the engine**, of a queue that is not dead and items that are
known. It is the same code whatever blocks it runs in. -/
theorem run (hm : Emits S m c c') (hdead : ¬c.q.dead) (hlive : c'.q.live)
    (hcap : c.q.alt.length + S.rest.length ≤ S.cap) {g : EmitState ν} (hframe : g.f = c.vars.map Prod.fst)
    (hnext : g.nextElement = c.q.next) (hpending : g.pending = c.q.pending) (hpeak : c.vars.length ≤ g.peakFrame + 1) :
    ∃ g' is, m g = .ok ((), g', is) ∧ g'.f = c'.vars.map Prod.fst ∧ g'.nextElement = c'.q.next ∧
      g'.pending = c'.q.pending ∧
      ∀ cond, executing cond = true → Script.run S.env is ⟨c.stacks S, cond⟩ = some ⟨c'.stacks S, cond⟩ := by
  have hstart (cond : List OpCond) :
      c.Holds S cond 0 (c.stacks S).height g ⟨some ⟨c.stacks S, cond⟩, (c.stacks S).height⟩ := by
    refine ⟨hframe, hnext, hpending, fun _ => rfl, fun h => absurd h hdead, fun m hm => ?_, Nat.zero_le _, hpeak, hcap,
      fun _ => le_rfl⟩
    cases hm
    exact ⟨rfl, by simp [Conf.stacks], rfl, le_rfl⟩
  obtain ⟨⟨⟩, g', is, w, hgen, hrun, hend, -⟩ := hm [] rfl 0 _ g _ (hstart [])
  refine ⟨g', is, hgen, hend.frame, hend.next, hend.pending, fun cond hc => ?_⟩
  obtain ⟨_, g'', is', w', hgen', hrun', hend', -⟩ := hm cond hc 0 _ g _ (hstart cond)
  rw [hgen] at hgen'
  cases hgen'
  have hmachine := hend'.running hlive
  rwa [← Option.some.inj hrun', machine_watch] at hmachine

end Emits

/-! ### The peak from below -/

/-- From `c`, the generator succeeds and its code leads to `c'`, and there has been a frame of
`n` slots. -/
def Reaches (S : Setting) (n : ℕ) (m : Emitter.Emit ν Unit) (c c' : Conf ν) : Prop :=
  ∀ cond, executing cond = true → ∀ low limit,
    Triple (watched S.env) (c.Holds S cond low limit) m fun _ => c'.Holds S cond (max low n) limit

/-- A generator that passes through a configuration has had a frame as large. -/
theorem Emits.reaches {S : Setting} {m m' : Emitter.Emit ν Unit} {c t c' : Conf ν} {n : ℕ} (hm : Emits S m c t)
    (hm' : Emits S m' t c') (hn : n + 1 ≤ t.vars.length) : Reaches S n (m >>= fun _ => m') c c' := by
  intro cond hc low limit
  refine (hm cond hc low limit).bind fun _ => (hm' cond hc (max low n) limit).weaken (fun g w hg => ?_) fun _ _ _ h => h
  exact { hg with low_le := max_le hg.low_le (Nat.le_of_succ_le_succ (hn.trans hg.frame_le)) }

/-- Of a generator whose frames are of no interest. -/
theorem Emits.reaches_zero {S : Setting} {m : Emitter.Emit ν Unit} {c c' : Conf ν} (hm : Emits S m c c') :
    Reaches S 0 m c c' := by
  intro cond hc low limit
  rw [Nat.max_zero]
  exact hm cond hc low limit

namespace Reaches

variable {S : Setting} {m m' : Emitter.Emit ν Unit} {c t c' : Conf ν} {n : ℕ}

theorem after (hm : Emits S m c t) (hm' : Reaches S n m' t c') : Reaches S n (m >>= fun _ => m') c c' :=
  fun cond hc low limit => (hm cond hc low limit).bind fun _ => hm' cond hc low limit

theorem seq (hm : Reaches S n m c t) (hm' : Emits S m' t c') : Reaches S n (m >>= fun _ => m') c c' :=
  fun cond hc low limit => (hm cond hc low limit).bind fun _ => hm' cond hc (max low n) limit

end Reaches

end KaspaPqv.SlhScript
