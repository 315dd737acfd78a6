import KaspaPqv.Script.Underflow
import KaspaPqv.SlhScript.Emit

/-!
# Sequences of primitives

The frame is a model of the data stack that the emitter keeps while it writes. Here it is set
against the stack itself, for whatever is put together from the primitives and from blocks that
leave as many items as they find.

All primitives but two look into the frame before they write, and fail if it has no slot that
they ask for. `dup` and `over` do not, so a sequence with one of them may generate from a frame
that is too small for it, and its code then underflows.

## What is proved

* `KeepsPace.seq`, `KeepsPace.ifBlock` — putting generators together.
* `Prims.keepsPace` — the frame and the stack grow alike, over any sequence.
* `followsFrame_iff` — a sequence does what the frame says if and only if its `dup`s and `over`s
  find the slots that they copy.
-/

namespace KaspaPqv.SlhScript

open KaspaPqv.Lib KaspaPqv.Script

variable {ν : Type}

/-! ### Sequences -/

/-- An opcode that takes two numbers and leaves one. -/
abbrev BinaryNumOp :=
  { code : Opcode //
    code ∈ [.OpAdd, .OpSub, .OpMul, .OpDiv, .OpMod, .OpLessThanOrEqual, .OpGreaterThanOrEqual] }

/-- The emitter's primitives, blocks apart. -/
inductive Prim (ν : Type) where
  | data (bytes : Bytes)
  | num (value : ℤ)
  | cat | sha256 | swap | dup | «over» | dropTop
  | binaryNumOp (code : BinaryNumOp)
  | pick (name : ν)
  | roll (name : ν)
  | rollDepth (depth : ℕ)
  | nameTop (name : ν)
  | discard (name : ν)
  | substr (start stop : ℕ)

namespace Prim

/-- What a primitive writes. -/
def emit [SlotName ν] [DecidableEq ν] : Prim ν → Emitter.Emit ν Unit
  | .data bytes => Emitter.data bytes
  | .num value => Emitter.num value
  | .cat => Emitter.cat
  | .sha256 => Emitter.sha256
  | .swap => Emitter.swap
  | .dup => Emitter.dup
  | .over => Emitter.over
  | .dropTop => Emitter.dropTop
  | .binaryNumOp code => Emitter.binaryNumOp code
  | .pick name => Emitter.pick name
  | .roll name => Emitter.roll name
  | .rollDepth depth => Emitter.rollDepth depth
  | .nameTop name => Emitter.nameTop name
  | .discard name => Emitter.discard name
  | .substr start stop => Emitter.substr start stop

/-- By how many slots the frame grows. -/
def gain : Prim ν → ℤ
  | .data _ | .num _ | .dup | .over | .pick _ => 1
  | .sha256 | .swap | .roll _ | .rollDepth _ | .nameTop _ | .substr _ _ => 0
  | .cat | .dropTop | .binaryNumOp _ | .discard _ => -1

/-- The slot that is copied is there, in a frame of `h` slots. -/
def Guarded : Prim ν → ℤ → Prop
  | .dup, h => 1 ≤ h
  | .over, h => 2 ≤ h
  | _, _ => True

end Prim

/-- Sequences of primitives and blocks by which the frame grows by a number of slots. The body of
a block is one by which it does not grow. -/
inductive Prims (ν : Type) : ℤ → Type
  | nil : Prims ν 0
  | cons {n : ℤ} (p : Prim ν) (ps : Prims ν n) : Prims ν (p.gain + n)
  | ifBlock {n : ℤ} (body : Prims ν 0) (ps : Prims ν n) : Prims ν (-1 + n)

namespace Prims

/-- What a sequence writes. -/
def emit [SlotName ν] [DecidableEq ν] : {n : ℤ} → Prims ν n → Emitter.Emit ν Unit
  | _, .nil => pure ()
  | _, .cons p ps => do
    p.emit
    ps.emit
  | _, .ifBlock body ps => do
    Emitter.ifBlock body.emit
    ps.emit

/-- Every `dup` and every `over`, in the bodies of blocks too, finds the slot that it copies, if
the frame has `h` slots at the start. -/
def Guarded : {n : ℤ} → Prims ν n → ℤ → Prop
  | _, .nil, _ => True
  | _, .cons p ps, h => p.Guarded h ∧ ps.Guarded (h + p.gain)
  | _, .ifBlock body ps, h => body.Guarded (h + -1) ∧ ps.Guarded (h + -1)

end Prims

/-! ### Keeping pace -/

/-- What a generator writes, whenever it succeeds, makes the stack grow as the frame grows, by
`a` items. From a frame of `h` slots it never underflows if and only if `G h`. -/
def KeepsPace (m : Emitter.Emit ν Unit) (a : ℤ) (G : ℤ → Prop) : Prop :=
  ∀ g g' is, m g = .ok ((), g', is) →
    (g'.f.length : ℤ) = g.f.length + a ∧ Takes is g.f.length g'.f.length (G g.f.length)

namespace KeepsPace

variable {m m' : Emitter.Emit ν Unit} {a b : ℤ} {G G' : ℤ → Prop} {code : Opcode}

theorem pure : KeepsPace (pure () : Emitter.Emit ν Unit) 0 fun _ => True := by
  intro g g' is h
  cases h
  exact ⟨(Int.add_zero _).symm, .nil⟩

/-- **Sequencing.** -/
theorem seq (hm : KeepsPace m a G) (hm' : KeepsPace m' b G') :
    KeepsPace (m >>= fun _ => m') (a + b) fun h => G h ∧ G' (h + a) := by
  intro g g' is h
  obtain ⟨⟨⟩, g₁, is₁, is₂, hfirst, hrest, rfl⟩ := Gen.bind_eq_ok.mp h
  obtain ⟨hlen, htakes⟩ := hm g g₁ is₁ hfirst
  obtain ⟨hlen', htakes'⟩ := hm' g₁ g' is₂ hrest
  rw [hlen] at htakes'
  exact ⟨by omega, htakes.append htakes'⟩

theorem congr (hm : KeepsPace m a G) (hG : ∀ h, G h ↔ G' h) : KeepsPace m a G' :=
  fun g g' is h => ⟨(hm g g' is h).1, (hm g g' is h).2.congr (hG _)⟩

end KeepsPace

section rules

variable {m : Emitter.Emit ν Unit} {G : ℤ → Prop} {code : Opcode} {u : Frame ν → Except String (Frame ν)}

theorem onFrame_eq_ok {g g' : EmitState ν} {is : List Instr} (h : Emitter.onFrame u g = .ok ((), g', is)) :
    u g.f = .ok g'.f ∧ is = [] := by
  unfold Emitter.onFrame at h
  split at h
  · rename_i f hu
    cases h
    exact ⟨hu, rfl⟩
  · cases h

namespace KeepsPace

/-- An opcode, and a change of the frame that fails if the frame is too small for it. -/
theorem opThen (hcode : code.Counts)
    (hu : ∀ f f', u f = .ok f' → code.needs ≤ f.length ∧ (f'.length : ℤ) = f.length + code.gain) :
    KeepsPace (Emitter.op code >>= fun _ => Emitter.onFrame u) code.gain fun _ => True := by
  intro g g' is h
  obtain ⟨⟨⟩, g₁, is₁, is₂, hop, hframe, rfl⟩ := Gen.bind_eq_ok.mp h
  cases hop
  obtain ⟨hok, rfl⟩ := onFrame_eq_ok hframe
  obtain ⟨hneeds, hlen⟩ := hu _ _ hok
  exact ⟨hlen, (Takes.op hcode hlen).congr (iff_true_intro hneeds)⟩

/-- An opcode that copies a slot. The frame is not asked whether the slot is there. -/
theorem copy [SlotName ν] (hcode : code.Counts) (hgain : code.gain = 1) :
    KeepsPace (Emitter.op code >>= fun _ => Emitter.pushTransient : Emitter.Emit ν Unit) 1
      fun h => (code.needs : ℤ) ≤ h := by
  intro g g' is h
  cases h
  have hlen : ((SlotName.transient :: g.f : Frame ν).length : ℤ) = g.f.length + code.gain := by rw [hgain]; rfl
  exact ⟨rfl, (Takes.op hcode hlen).congr Int.ofNat_le.symm⟩

/-- A change of the frame alone. -/
theorem onFrame (hu : ∀ f f', u f = .ok f' → f'.length = f.length) :
    KeepsPace (Emitter.onFrame u) 0 fun _ => True := by
  intro g g' is h
  obtain ⟨hok, rfl⟩ := onFrame_eq_ok h
  rw [hu _ _ hok]
  exact ⟨(Int.add_zero _).symm, .nil⟩

theorem data [SlotName ν] (bytes : Bytes) : KeepsPace (Emitter.data bytes : Emitter.Emit ν Unit) 1 fun _ => True := by
  intro g g' is h
  cases h
  exact ⟨rfl, .push bytes⟩

theorem num [SlotName ν] (value : ℤ) : KeepsPace (Emitter.num value : Emitter.Emit ν Unit) 1 fun _ => True := by
  intro g g' is h
  cases h
  exact ⟨rfl, .push (encodeNum value)⟩

/-- **A block** whose body leaves as many items as it finds. -/
theorem ifBlock (hm : KeepsPace m 0 G) : KeepsPace (Emitter.ifBlock m) (-1) fun h => G (h + -1) := by
  intro g g' is h
  obtain ⟨⟨⟩, g₁, is₁, is₂, hopen, hrest, rfl⟩ := Gen.bind_eq_ok.mp h
  cases hopen
  obtain ⟨⟨⟩, g₂, is₃, is₄, hpop, hrest', rfl⟩ := Gen.bind_eq_ok.mp hrest
  obtain ⟨hok, rfl⟩ := onFrame_eq_ok hpop
  obtain ⟨⟨⟩, g₃, is₅, is₆, hbody, hclose, rfl⟩ :=
    Gen.bind_eq_ok.mp (show (m >>= fun _ => Emitter.op .OpEndIf) g₂ = .ok ((), g', is₄) from hrest')
  cases hclose
  have hlen := Frame.of_pop hok
  obtain ⟨hkeep, htakes⟩ := hm g₂ g' is₅ hbody
  have hsame : g'.f.length = g₂.f.length := by omega
  rw [hsame] at htakes
  have hh : (g.f.length : ℤ) + -1 = g₂.f.length := by omega
  refine ⟨by omega, ?_⟩
  change Takes (block is₅) _ _ (G (g.f.length + -1))
  rw [hh, hsame, hlen]
  exact htakes.block

end KeepsPace

end rules

/-! ### Depths -/

section depths

variable [SlotName ν]

theorem rollDepth_eq_ok {depth : ℕ} {g g' : EmitState ν} {is : List Instr}
    (h : Emitter.rollDepth depth g = .ok ((), g', is)) :
    ∃ s, g.f[depth]? = some s ∧ g'.f = s :: g.f.eraseIdx depth ∧ is = [.push (encodeNum depth), .op .OpRoll] := by
  obtain ⟨⟨⟩, g₁, is₁, is₂, hnum, hrest, rfl⟩ := Gen.bind_eq_ok.mp h
  cases hnum
  obtain ⟨⟨⟩, g₂, is₃, is₄, hop, hrest', rfl⟩ := Gen.bind_eq_ok.mp hrest
  cases hop
  obtain ⟨⟨⟩, g₃, is₅, is₆, hpop, hroll, rfl⟩ := Gen.bind_eq_ok.mp hrest'
  cases hpop
  obtain ⟨hok, rfl⟩ := onFrame_eq_ok hroll
  obtain ⟨s, hs, hframe⟩ := Frame.of_roll hok
  exact ⟨s, hs, hframe, rfl⟩

section named

variable [DecidableEq ν] {name : ν} {g g' : EmitState ν} {is : List Instr}

theorem depthOf_bind_eq_ok {k : ℕ → Emitter.Emit ν Unit} (h : (Emitter.depthOf name >>= k) g = .ok ((), g', is)) :
    ∃ depth, g.f.depth name = .ok depth ∧ k depth g = .ok ((), g', is) := by
  obtain ⟨depth, g₁, is₁, is₂, hdepth, hrest, rfl⟩ := Gen.bind_eq_ok.mp h
  unfold Emitter.depthOf at hdepth
  split at hdepth
  · rename_i depth' hd
    cases hdepth
    exact ⟨depth, hd, hrest⟩
  · cases hdepth

theorem pick_eq_ok (h : Emitter.pick name g = .ok ((), g', is)) :
    ∃ depth, g.f.depth name = .ok depth ∧ g'.f = SlotName.transient :: g.f ∧
      is = [.push (encodeNum depth), .op .OpPick] := by
  obtain ⟨depth, hdepth, hrest⟩ := depthOf_bind_eq_ok h
  cases hrest
  exact ⟨depth, hdepth, rfl, rfl⟩

theorem roll_eq_ok (h : Emitter.roll name g = .ok ((), g', is)) :
    ∃ depth, g.f.depth name = .ok depth ∧ g'.f = name :: g.f.eraseIdx depth ∧
      is = [.push (encodeNum depth), .op .OpRoll] := by
  obtain ⟨depth, hdepth, hrest⟩ := depthOf_bind_eq_ok h
  obtain ⟨s, hs, hframe, his⟩ := rollDepth_eq_ok hrest
  obtain rfl : name = s := Option.some.inj ((Frame.getElem?_of_depth hdepth).symm.trans hs)
  exact ⟨depth, hdepth, hframe, his⟩

end named

namespace KeepsPace

theorem rollDepth (depth : ℕ) : KeepsPace (Emitter.rollDepth depth : Emitter.Emit ν Unit) 0 fun _ => True := by
  intro g g' is h
  obtain ⟨s, hs, hframe, rfl⟩ := rollDepth_eq_ok h
  have hlt : depth < g.f.length := (List.getElem?_eq_some_iff.mp hs).1
  have hlen : g'.f.length = g.f.length := by
    rw [hframe, List.length_cons, List.length_eraseIdx_of_lt hlt]
    omega
  rw [hlen]
  exact ⟨(Int.add_zero _).symm, .roll hlt⟩

variable [DecidableEq ν]

theorem pick (name : ν) : KeepsPace (Emitter.pick name) 1 fun _ => True := by
  intro g g' is h
  obtain ⟨depth, hdepth, hframe, rfl⟩ := pick_eq_ok h
  have hlt : depth < g.f.length := (List.getElem?_eq_some_iff.mp (Frame.getElem?_of_depth hdepth)).1
  rw [hframe]
  exact ⟨rfl, .pick hlt⟩

theorem roll (name : ν) : KeepsPace (Emitter.roll name) 0 fun _ => True := by
  intro g g' is h
  obtain ⟨depth, -, hrest⟩ := depthOf_bind_eq_ok h
  exact rollDepth depth g g' is hrest

end KeepsPace

end depths

/-! ### Every sequence keeps pace -/

variable [SlotName ν] [DecidableEq ν]

theorem BinaryNumOp.spec (code : BinaryNumOp) : code.1.Counts ∧ code.1.needs = 2 ∧ code.1.gain = -1 :=
  (by decide : ∀ code ∈ [Opcode.OpAdd, .OpSub, .OpMul, .OpDiv, .OpMod, .OpLessThanOrEqual, .OpGreaterThanOrEqual],
    code.Counts ∧ code.needs = 2 ∧ code.gain = -1) code.1 code.2

/-- **Every primitive keeps pace**, and only `dup` and `over` underflow. -/
theorem Prim.keepsPace (p : Prim ν) : KeepsPace p.emit p.gain p.Guarded := by
  have hreplace {name : ν} {n : ℕ} (f f' : Frame ν) (h : f.replace name n = .ok f') :
      n ≤ f.length ∧ (f'.length : ℤ) = f.length + (1 - n) := by
    have := Frame.of_replace h
    omega
  have hdrop : KeepsPace (Emitter.dropTop : Emitter.Emit ν Unit) (-1) fun _ => True := by
    refine .opThen (by decide) fun f f' h => ?_
    have hlen := Frame.of_pop h
    simp only [Opcode.needs, Opcode.gain]
    omega
  cases p with
  | data bytes => exact .data bytes
  | num value => exact .num value
  | cat => exact .opThen (by decide) hreplace
  | sha256 => exact .opThen (by decide) hreplace
  | swap =>
    refine .opThen (by decide) fun f f' h => ?_
    obtain ⟨hle, hlen⟩ := Frame.of_swap h
    exact ⟨hle, by rw [hlen]; exact (Int.add_zero _).symm⟩
  | dup => exact .copy (by decide) rfl
  | «over» => exact .copy (by decide) rfl
  | dropTop => exact hdrop
  | binaryNumOp code =>
    obtain ⟨hcounts, hneeds, hgain⟩ := code.spec
    have hop := KeepsPace.opThen (u := Frame.replace (SlotName.transient : ν) 2) hcounts fun f f' h => by
      rw [hneeds, hgain]
      exact hreplace f f' h
    rw [hgain] at hop
    exact hop
  | pick name => exact .pick name
  | roll name => exact .roll name
  | rollDepth depth => exact .rollDepth depth
  | nameTop name =>
    refine .onFrame fun f f' h => ?_
    cases f with
    | nil => cases h
    | cons s f =>
      cases h
      rfl
  | discard name => exact ((KeepsPace.roll name).seq hdrop).congr fun h => and_self_iff
  | substr start stop =>
    have hop : KeepsPace (Emitter.op .OpSubstr >>= fun _ => Emitter.onFrame (Frame.replace (SlotName.transient : ν) 3))
        (-2) fun _ => True := .opThen (by decide) hreplace
    exact ((KeepsPace.num start).seq ((KeepsPace.num stop).seq hop)).congr fun h => by simp [Prim.Guarded]

/-- **Every sequence keeps pace.** -/
theorem Prims.keepsPace {n : ℤ} (ps : Prims ν n) : KeepsPace ps.emit n ps.Guarded := by
  induction ps with
  | nil => exact .pure
  | cons p ps ih => exact p.keepsPace.seq ih
  | ifBlock body ps ihbody ih => exact ihbody.ifBlock.seq ih

/-! ### The blocks of the verifier -/

/-- A Merkle step from the bit on. -/
def merkleFold : Prims Slot (-3) :=
  .cons (.num 2) <| .cons (.binaryNumOp ⟨.OpMod, by decide⟩) <| .ifBlock (.cons .swap .nil) <| .cons .cat <|
    .cons .cat <| .cons .sha256 <| .cons (.substr 0 N) <| .cons (.nameTop .node) .nil

/-- A Merkle step, as a sequence. -/
def merkleStep (bitSlot : Slot) : ℕ → Prims Slot (-2)
  | 0 => .cons (.nameTop .pfx) <| .cons (.roll .node) <| .cons (.roll .auth) <| .cons (.pick bitSlot) merkleFold
  | bit + 1 => .cons (.nameTop .pfx) <| .cons (.roll .node) <| .cons (.roll .auth) <| .cons (.pick bitSlot) <|
    .cons (.num (1 <<< (bit + 1) : ℕ)) <| .cons (.binaryNumOp ⟨.OpDiv, by decide⟩) merkleFold

/-- A step of a chain, as a sequence. -/
def chainStep (step : ℕ) : Prims Slot 0 :=
  .cons .over <| .cons (.num step) <| .cons (.binaryNumOp ⟨.OpLessThanOrEqual, by decide⟩) <|
    .ifBlock (.cons (.pick .hcwi) <| .cons (.data [UInt8.ofNat step]) <| .cons .cat <| .cons .swap <| .cons .cat <|
      .cons .sha256 <| .cons (.substr 0 N) <| .cons (.nameTop .x) .nil) .nil

theorem emitMerkleStep_eq (bitSlot : Slot) (bit : ℕ) :
    Emitter.emitMerkleStep bitSlot bit = (merkleStep bitSlot bit).emit := by
  unfold Emitter.emitMerkleStep Emitter.emitBit Emitter.modulo
  cases bit with
  | zero =>
    simp only [merkleStep, merkleFold, Gen.onlyIf, gt_iff_lt, lt_irrefl, if_false, Prims.emit, Prim.emit, Gen.bind_bind,
      Gen.pure_bind, Gen.bind_pure_unit]
    rfl
  | succ bit =>
    simp only [merkleStep, merkleFold, Gen.onlyIf, gt_iff_lt, Nat.succ_pos, if_true, Emitter.divPow, Prims.emit, Prim.emit,
      Gen.bind_bind, Gen.bind_pure_unit]
    rfl

theorem emitChainStep_eq {step : ℕ} (h : step < 256) : Emitter.emitChainStep step = (chainStep step).emit := by
  unfold Emitter.emitChainStep Emitter.finishHash chainStep
  simp only [Gen.ensure, if_pos h, Prims.emit, Prim.emit, Gen.bind_bind, Gen.pure_bind, Gen.bind_pure_unit]

/-! ### The frame and the stack -/

/-- From `g` to `g'`, code does what the frame says, on stacks of as many items as the frame has
slots. It never underflows. Whichever way its conditions go it ends outside of blocks, with as many
items as the frame has then. And a name still stands for the value of its topmost slot: what the
emitter writes to copy or to move it does so, in the engine, and leaves the rest alone. -/
structure FollowsFrame (g g' : EmitState ν) (is : List Instr) : Prop where
  safe : ∀ s : Stacks, s.data.length = g.f.length → Safe is ⟨s, []⟩
  height : ∀ (s : Stacks) m, s.data.length = g.f.length → MayRun is ⟨s, []⟩ m →
    m.cond = [] ∧ m.stack.data.length = g'.f.length
  pick : ∀ name g'' js, Emitter.pick name g' = .ok ((), g'', js) → ∀ env d alt, d.length = g'.f.length →
    ∃ k x, find name (g'.f.zip d) = some (k, x) ∧ g''.f = SlotName.transient :: g'.f ∧
      run env js ⟨⟨d, alt⟩, []⟩ = some ⟨⟨x :: d, alt⟩, []⟩
  roll : ∀ name g'' js, Emitter.roll name g' = .ok ((), g'', js) → ∀ env d alt, d.length = g'.f.length →
    ∃ k x, find name (g'.f.zip d) = some (k, x) ∧ g''.f = name :: g'.f.eraseIdx k ∧
      run env js ⟨⟨d, alt⟩, []⟩ = some ⟨⟨x :: d.eraseIdx k, alt⟩, []⟩

/-- The slot of a name, with the item at its place. -/
theorem find_zip {f : Frame ν} {d : List Bytes} {name : ν} {k : ℕ} (hlen : d.length = f.length)
    (h : f.depth name = .ok k) : ∃ x, find name (f.zip d) = some (k, x) ∧ d[k]? = some x := by
  have hnames : (f.zip d).map Prod.fst = f := List.map_fst_zip hlen.ge
  have hdepth : Frame.depth ((f.zip d).map Prod.fst) name = .ok k := by rwa [hnames]
  obtain ⟨x, hfind⟩ := exists_find hdepth
  have hget := (find_eq_some hfind).2
  rw [List.getElem?_zip_eq_some] at hget
  exact ⟨x, hfind, hget.2⟩

/-- An opcode behind the operand pushed for it. -/
theorem run_pushOp {env : Env} {bytes : Bytes} {code : Opcode} {d alt : List Bytes} {s : Stacks}
    (h : code.exec env ⟨bytes :: d, alt⟩ = some s) :
    run env [.push bytes, .op code] ⟨⟨d, alt⟩, []⟩ = some ⟨s, []⟩ := by
  have hplain : ∀ i ∈ [Instr.push bytes, .op code], i.Plain :=
    List.forall_mem_cons.mpr ⟨⟨nofun, nofun⟩, List.forall_mem_singleton.mpr (plain_of_exec h)⟩
  have hexec : execAll env [.push bytes, .op code] ⟨d, alt⟩ = some s := by
    rw [execAll_cons, Instr.exec, Option.bind_some, execAll_cons, Instr.exec, h]
    rfl
  rw [run_plain hplain rfl, hexec, Option.map_some]

/-- What follows the frame does so in the engine, at every point of a run. -/
theorem FollowsFrame.run {g g' : EmitState ν} {is : List Instr} (h : FollowsFrame g g' is) (env : Env) {s : Stacks}
    (hs : s.data.length = g.f.length) :
    (∀ pre i post m, is = pre ++ i :: post → Script.run env pre ⟨s, []⟩ = some m → executing m.cond = true →
      ¬Underflow i m.stack) ∧
    ∀ m, Script.run env is ⟨s, []⟩ = some m → m.cond = [] ∧ m.stack.data.length = g'.f.length := by
  refine ⟨fun pre i post m his hrun hc => ?_, fun m hrun => h.height s m hs (mayRun_of_run hrun)⟩
  subst his
  exact (h.safe s hs).not_underflow hrun hc

/-- **The frame simulates the stack**, of every sequence of primitives and of blocks that leave as
many items as they find, from whatever frame it generates: if and only if every `dup` finds a slot
to copy and every `over` finds two. The frame is a vector of strings and so has fewer than `2 ^ 63`
slots. -/
theorem followsFrame_iff {n : ℤ} (ps : Prims ν n) {g g' : EmitState ν} {is : List Instr}
    (hgen : ps.emit g = .ok ((), g', is)) (hvec : g'.f.length < 2 ^ 63) :
    (FollowsFrame g g' is ↔ ps.Guarded g.f.length) ∧
      (ps.Guarded g.f.length → ∀ env (s : Stacks), s.data.length = g.f.length →
        (∀ pre i post m, is = pre ++ i :: post → run env pre ⟨s, []⟩ = some m → executing m.cond = true →
          ¬Underflow i m.stack) ∧
        ∀ m, run env is ⟨s, []⟩ = some m → m.cond = [] ∧ m.stack.data.length = g'.f.length) := by
  obtain ⟨-, htakes⟩ := ps.keepsPace g g' is hgen
  have hiff : FollowsFrame g g' is ↔ ps.Guarded g.f.length := by
    constructor
    · intro h
      have hlen : (List.replicate g.f.length ([] : Bytes)).length = g.f.length := List.length_replicate
      exact (htakes.safe_iff ⟨⟨_, []⟩, []⟩ rfl hlen).mp (h.safe ⟨_, []⟩ hlen)
    · intro hguard
      have hsmall {name : ν} {k : ℕ} (hdepth : g'.f.depth name = .ok k) : k < 2 ^ 63 :=
        (List.getElem?_eq_some_iff.mp (Frame.getElem?_of_depth hdepth)).1.trans hvec
      refine ⟨fun s hs => (htakes.safe_iff ⟨s, []⟩ rfl hs).mpr hguard, fun s m hs hrun => htakes.ends _ m rfl hs hrun,
        fun name g'' js hpick env d alt hd => ?_, fun name g'' js hroll env d alt hd => ?_⟩
      · obtain ⟨k, hdepth, hframe, rfl⟩ := pick_eq_ok hpick
        obtain ⟨x, hfind, hx⟩ := find_zip hd hdepth
        exact ⟨k, x, hfind, hframe, run_pushOp (exec_pick (hsmall hdepth) hx)⟩
      · obtain ⟨k, hdepth, hframe, rfl⟩ := roll_eq_ok hroll
        obtain ⟨x, hfind, hx⟩ := find_zip hd hdepth
        exact ⟨k, x, hfind, hframe, run_pushOp (exec_roll (hsmall hdepth) hx)⟩
  exact ⟨hiff, fun hguard env s hs => (hiff.mpr hguard).run env hs⟩

/-- A `dup` from an empty frame generates, and its code underflows. -/
theorem not_followsFrame : ¬∀ (n : ℤ) (ps : Prims Slot n) (g g' : EmitState Slot) (is : List Instr),
    ps.emit g = .ok ((), g', is) → ∀ env (s : Stacks), s.data.length = g.f.length → ∀ pre i post m,
      is = pre ++ i :: post → run env pre ⟨s, []⟩ = some m → executing m.cond = true → ¬Underflow i m.stack := by
  intro h
  have hdup := h _ (.cons .dup .nil) (.new Slot) ⟨[.transient], 0, 0, 1⟩ [.op .OpDup] rfl
  exact hdup ⟨fun _ => Block.zero 32, none⟩ ⟨[], []⟩ rfl [] (.op .OpDup) [] _ rfl rfl rfl (.items (by decide))

/-- A step of a chain and a Merkle step, from the frames in which the verifier writes them. -/
theorem followsFrame_iff_steps :
    (∃ g' is, Emitter.emitChainStep 7 ⟨[.x, .d, .hcwi], 0, 0, 3⟩ = .ok ((), g', is) ∧
      FollowsFrame ⟨[.x, .d, .hcwi], 0, 0, 3⟩ g' is) ∧
    ∃ g' is, Emitter.emitMerkleStep .lleaf 3 ⟨[.transient, .auth, .node, .lleaf], 0, 0, 4⟩ = .ok ((), g', is) ∧
      FollowsFrame ⟨[.transient, .auth, .node, .lleaf], 0, 0, 4⟩ g' is := by
  constructor
  · obtain ⟨g', is, hgen, hvec⟩ : ∃ g' is, Emitter.emitChainStep 7 ⟨[.x, .d, .hcwi], 0, 0, 3⟩ = .ok ((), g', is) ∧
        g'.f.length < 2 ^ 63 := ⟨_, _, rfl, by decide⟩
    refine ⟨g', is, hgen, ?_⟩
    rw [emitChainStep_eq (by decide)] at hgen
    refine (followsFrame_iff (chainStep 7) hgen hvec).1.mpr ?_
    simp [chainStep, Prims.Guarded, Prim.Guarded]
  · obtain ⟨g', is, hgen, hvec⟩ : ∃ g' is,
        Emitter.emitMerkleStep .lleaf 3 ⟨[.transient, .auth, .node, .lleaf], 0, 0, 4⟩ = .ok ((), g', is) ∧
        g'.f.length < 2 ^ 63 := ⟨_, _, rfl, by decide⟩
    refine ⟨g', is, hgen, ?_⟩
    rw [emitMerkleStep_eq] at hgen
    refine (followsFrame_iff (merkleStep .lleaf 3) hgen hvec).1.mpr ?_
    simp [merkleStep, merkleFold, Prims.Guarded, Prim.Guarded]

end KaspaPqv.SlhScript
