import KaspaPqv.SlhScript.Phases
import KaspaPqv.SlhScript.Reference
import KaspaPqv.VaultCore.BindingScript

/-!
# What the verifier computes

The phases one after the other, from the message to one item that says whether the root is
the key's; and the whole script, whose prologue turns the blobs of the witness over.

## What is proved

* `emitBody_reaches` — the verifier leaves whether the candidate root is the key's.
* `exists_body` — it can be generated for every set and every plan.
* `Reaches.holds` — what its code does to any witness with the right number of blobs.
* `buildVerifyScript_eq`, `buildVaultScript_eq` — what the two scripts are made of.
-/

namespace KaspaPqv.SlhScript

open KaspaPqv.Lib KaspaPqv.Script

variable {S : Setting} {plan : BlobPlan} {pk : PublicKey} {ps : Pieces} {element : ℕ → Hash}

/-! ### The verifier -/

namespace Emits

variable (pk) in
/-- **The first layers of the hypertree**: the roots of their trees, from the node that enters. -/
theorem emitLayers (h : Delivers S plan ps element) (hp : plan.p.Facts) {t l j : ℕ}
    (hzero : plan.p.idxTreeBits = 0 → t = 0) (ht : t < 2 ^ 63) (hl : l < 2 ^ plan.p.hp) (hj : j ≤ plan.p.d) (pkFors : Hash) :
    Emits S (Gen.forRange j (Emitter.emitLayer plan pk))
      ⟨[(.node, pkFors.bytes), (.leaf, encodeNum l), (.tree, encodeNum t)],
        queueAt ps (1 + plan.p.k * (1 + plan.p.a))⟩
      ⟨[(.node, (hypertreeNode S.env.sha256 plan.p pk.seed (.ofElements plan.p element) t l pkFors j).bytes),
        (.leaf, encodeNum l), (.tree, encodeNum t)],
        queueAt ps (1 + plan.p.k * (1 + plan.p.a) + j * (plan.p.len + plan.p.hp))⟩ := by
  set start := 1 + plan.p.k * (1 + plan.p.a) with hstart
  set node := hypertreeNode S.env.sha256 plan.p pk.seed (.ofElements plan.p element) t l pkFors with hnode
  set I : ℕ → Conf Slot := fun layer => ⟨[(.node, (node layer).bytes), (.leaf, encodeNum l), (.tree, encodeNum t)],
    queueAt ps (start + layer * (plan.p.len + plan.p.hp))⟩ with hI
  have hturn : ∀ layer < j, Emits S (Emitter.emitLayer plan pk layer) (I layer) (I (layer + 1)) := by
    intro layer hlayer
    have hmul := Nat.mul_le_mul_right (plan.p.len + plan.p.hp) (hlayer.trans_le hj)
    have hfit : start + layer * (plan.p.len + plan.p.hp) + (plan.p.len + plan.p.hp) ≤ plan.p.sigElements := by
      rw [hp.sigElements_eq]
      rw [Nat.succ_mul] at hmul
      omega
    have hemits := emitLayer pk [] h hp (hlayer.trans_le hj) hzero ht hl hfit (node layer)
    simp only [Nat.add_assoc start] at hemits
    simp only [hI, Nat.succ_mul]
    exact hemits
  have hloop := forRange I hturn
  simp only [hI, Nat.zero_mul, Nat.add_zero] at hloop
  exact hloop

/-- The account is settled. -/
theorem checkConsumed {q : Queue} (hnext : q.next = plan.p.sigElements) (hpending : q.pending = 0) (x : Bytes) :
    Emits S (Emitter.checkConsumed plan.p) ⟨[(.node, x)], q⟩ ⟨[(.node, x)], q⟩ := by
  refine get fun g hf hg hg' => .seq (.ensure (hg.trans hnext)) <| .seq (.ensure (hg'.trans hpending)) <|
    .seq (.reframe (.onFrame rfl) rfl) <| .ensure ?_
  rw [hf]
  rfl

end Emits

section body

variable {D : Bytes}

theorem treeIndex_lt_63 {p : Params} (hp : p.Facts) (D : Bytes) : treeIndex p D < 2 ^ 63 := by
  refine (treeIndex_lt hp D).trans_le (Nat.pow_le_pow_right (by norm_num) ?_)
  have := hp.idxTreeBits_eq
  have := hp.idxTreeBits_le
  have := hp.idxTreeLen_le
  omega

theorem treeIndex_eq_zero {p : Params} (D : Bytes) (h : p.idxTreeBits = 0) : treeIndex p D = 0 := by
  rw [treeIndex, h, bitField, pow_zero, Nat.mod_one]

/-- The FORS public key that the elements of a witness lead to. -/
def forsPkOf (sha256 : Bytes → Block 32) (p : Params) (pkSeed : Hash) (element : ℕ → Hash) (D : Bytes) : Hash :=
  forsPk sha256 p pkSeed (treeIndex p D) (leafIndex p D) fun i =>
    forsRoot sha256 p pkSeed (treeIndex p D) (leafIndex p D) i (forsIndex p (D.take p.mdLen) i)
      (element (1 + i * (1 + p.a))) fun j => element (1 + i * (1 + p.a) + 1 + j)

/-- **The verifier**, but for the hypertree: what the hypertree comes to is compared with the
key's root. -/
theorem emitBody_of_layers (h : Delivers S plan ps element) (hp : Emittable plan.p) (message : Bytes) {x : Bytes} {q : Queue}
    (hD : D = messageDigest S.env.sha256 plan.p (element 0) pk message)
    (hlayers : Emits S (Gen.forRange plan.p.d (Emitter.emitLayer plan pk))
      ⟨[(.node, (forsPkOf S.env.sha256 plan.p pk.seed element D).bytes), (.leaf, encodeNum (leafIndex plan.p D)),
        (.tree, encodeNum (treeIndex plan.p D))], queueAt ps (1 + plan.p.k * (1 + plan.p.a))⟩
      ⟨[(.node, x), (.leaf, encodeNum (leafIndex plan.p D)), (.tree, encodeNum (treeIndex plan.p D))], q⟩)
    (hnext : q.next = plan.p.sigElements) (hpending : q.pending = 0) :
    Reaches S 3 (Emitter.emitBody plan pk) ⟨[(.d, message)], queueAt ps 0⟩
      ⟨[Emits.tmp (boolBytes (x = pk.root.bytes))], q⟩ := by
  have hfacts := hp.toFacts
  have hhp := hfacts.hp_le
  have hlen : D.length = plan.p.m := hD ▸ length_messageDigest _ hfacts (element 0) pk message
  have hleaf31 : leafIndex plan.p D < 2 ^ 31 :=
    (leafIndex_lt plan.p D).trans_le (Nat.pow_le_pow_right (by norm_num) (by omega))
  have hsum := hfacts.sigElements_eq
  have hfors := Emits.emitFors pk [] 1 h hp hlen (treeIndex_eq_zero D) (treeIndex_lt_63 hfacts D)
    hleaf31 (by omega)
  have hdigest := Emits.emitHMsg pk [] h hfacts (by omega) message
  rw [← hD] at hdigest
  exact .seq hdigest <| .seq (Emits.emitIndices hfacts hlen) <| .seq hfors <| .seq hlayers <|
    .seq (Emits.discard (k := 2) rfl (by decide)) <| .seq (Emits.discard (k := 1) rfl (by decide)) <|
    .seq (Emits.checkConsumed hnext hpending _) <| .seq (Emits.data _) <|
    Emits.opThen (.onFrame rfl) rfl fun _ => Nat.le_succ _

variable (pk) in
/-- **The verifier** leaves whether the candidate root is the key's. -/
theorem emitBody_reaches (h : Delivers S plan ps element) (hp : Emittable plan.p) (message : Bytes) :
    Reaches S 3 (Emitter.emitBody plan pk) ⟨[(.d, message)], queueAt ps 0⟩
      ⟨[Emits.tmp (boolBytes ((trace S.env.sha256 plan.p pk (.ofElements plan.p element) message).root = pk.root))],
        queueAt ps plan.p.sigElements⟩ := by
  have hfacts := hp.toFacts
  set D := messageDigest S.env.sha256 plan.p (element 0) pk message with hD
  set root := (trace S.env.sha256 plan.p pk (.ofElements plan.p element) message).root with hroot
  have hvalue : hypertreeNode S.env.sha256 plan.p pk.seed (.ofElements plan.p element) (treeIndex plan.p D)
      (leafIndex plan.p D) (forsPkOf S.env.sha256 plan.p pk.seed element D) plan.p.d = root := by
    simp only [hroot, trace, forsPkOf, SigParts.ofElements, Nat.add_assoc]
    rfl
  have hsame : decide (root.bytes = pk.root.bytes) = decide (root = pk.root) :=
    decide_eq_decide.mpr ⟨Block.ext, congrArg Block.bytes⟩
  have hlayers := Emits.emitLayers pk h hfacts (treeIndex_eq_zero D) (treeIndex_lt_63 hfacts D)
    (leafIndex_lt plan.p D) le_rfl (forsPkOf S.env.sha256 plan.p pk.seed element D)
  rw [← hfacts.sigElements_eq, hvalue] at hlayers
  rw [← hsame]
  refine emitBody_of_layers h hp message hD hlayers rfl ?_
  rw [← h.total_eq]
  exact pendingAt_total h.pos_of_mem

variable (pk) in
/-- **The verifier on a witness whose last blob is not cut**: whatever that blob is, the key's
root is compared with a hash. -/
theorem emitBody_uncut {blob : Bytes} (h : Delivers S plan (ps ++ [(1, blob)]) element) (hp : Emittable plan.p)
    (message : Bytes) :
    ∃ y, Reaches S 3 (Emitter.emitBody plan pk) ⟨[(.d, message)], queueAt (ps ++ [(1, blob)]) 0⟩
      ⟨[Emits.tmp (boolBytes ((truncN (S.env.sha256 y)).bytes = pk.root.bytes))],
        ⟨[], plan.p.sigElements, 0, (∀ p ∈ ps, Whole p.1 p.2) ∧ Cuttable 1 blob,
          deadAt ps (Pieces.total ps) ∨ (∀ p ∈ ps, Whole p.1 p.2) ∧ ¬Cuttable 1 blob⟩⟩ := by
  have hfacts := hp.toFacts
  set D := messageDigest S.env.sha256 plan.p (element 0) pk message with hD
  obtain ⟨j, hj⟩ : ∃ j, plan.p.d = j + 1 := ⟨plan.p.d - 1, by have := hfacts.d_pos; omega⟩
  have hsum := hfacts.sigElements_eq
  rw [hj, Nat.succ_mul, ← Nat.add_assoc] at hsum
  have hlayers := Emits.emitLayers pk h hfacts (treeIndex_eq_zero D) (treeIndex_lt_63 hfacts D)
    (leafIndex_lt plan.p D) (show j ≤ plan.p.d by omega) (forsPkOf S.env.sha256 plan.p pk.seed element D)
  obtain ⟨y, hlast⟩ := Emits.emitLayer_uncut pk [] h hfacts (show j < plan.p.d by omega)
    (treeIndex_eq_zero D) (treeIndex_lt_63 hfacts D) (leafIndex_lt plan.p D) hsum.symm
    (hypertreeNode S.env.sha256 plan.p pk.seed (.ofElements plan.p element) (treeIndex plan.p D) (leafIndex plan.p D)
      (forsPkOf S.env.sha256 plan.p pk.seed element D) j)
  have hall := hlayers.seq hlast
  rw [← Gen.forRange_succ, ← hj] at hall
  exact ⟨y, emitBody_of_layers h hp message hD hall rfl rfl⟩

end body

/-- The emitter when the message is on the stack. -/
def messageState : EmitState Slot := { EmitState.new Slot with f := [.d] }

/-- The emitter and the engine in front of the verifier. -/
theorem holds_message (message : Bytes) (halt : ps.length + S.rest.length ≤ S.cap) {high limit : ℕ} (hhigh : high ≤ limit)
    (hheight : 1 + S.rest.length + ps.length ≤ high) :
    Conf.Holds S [] 0 limit ⟨[(.d, message)], queueAt ps 0⟩ messageState
      ⟨some ⟨⟨message :: S.rest, ps.map Prod.snd⟩, []⟩, high⟩ := by
  refine ⟨rfl, rfl, (pendingAt_zero ps).symm, fun _ => by simp [Conf.stacks, queueAt, altAt_zero],
    fun hdead => absurd hdead (deadAt_zero ps), fun m hm => ?_, le_rfl, le_rfl,
    by simpa [queueAt, altAt_zero] using halt, fun _ => hhigh⟩
  cases hm
  refine ⟨rfl, ?_, by simp [queueAt, altAt_zero], ?_⟩
  · simp only [List.length_cons, List.length_nil]
    omega
  · simp only [Stacks.height, List.length_cons, List.length_map]
    omega

/-- The setting of a run on any witness: nothing is asked of the height. -/
def settingOf (env : Env) (plan : BlobPlan) (rest : List Bytes) : Setting :=
  ⟨env, rest, plan.blobs.length + plan.blobs.sum + rest.length⟩

theorem delivers_settingOf (env : Env) (hp : Emittable plan.p) (hblobs : plan.blobs = ps.map Prod.fst)
    (rest : List Bytes) : Delivers (settingOf env plan rest) plan ps (SlhScript.element ps.joined) := by
  refine .of_blobs hblobs hp.elements_lt fun p hmem => ?_
  have hle : p.1 ≤ plan.blobs.sum := List.le_sum_of_mem (hblobs ▸ List.mem_map_of_mem hmem)
  have hlen : plan.blobs.length = ps.length := by rw [hblobs, List.length_map]
  simp only [settingOf]
  omega

/-- What a generator does in front of the verifier, from what it reaches on every witness: here
on one of empty blobs. -/
theorem Reaches.generates {m : Emitter.Emit Slot Unit} {n : ℕ} {names : List Slot} (hp : Emittable plan.p)
    (hm : ∀ S ps element, Delivers S plan ps element →
      ∃ c, Reaches S n m ⟨[(.d, [])], queueAt ps 0⟩ c ∧ c.vars.map Prod.fst = names) :
    ∃ g is, m messageState = .ok ((), g, is) ∧ g.f = names ∧ n ≤ g.peakFrame := by
  set ps : Pieces := plan.blobs.map fun count => (count, []) with hps
  have hblobs : plan.blobs = ps.map Prod.fst := by simp [hps, Function.comp_def]
  have hcount : ps.length = plan.blobs.length := by simp [hps]
  have h := delivers_settingOf ⟨fun _ => Block.zero 32, none⟩ hp hblobs []
  obtain ⟨c, hreach, hnames⟩ := hm _ ps _ h
  obtain ⟨⟨⟩, g, is, w, hgen, -, hend, -⟩ := hreach [] rfl 0 (1 + ps.length) messageState _
    (holds_message [] (by simp only [settingOf, List.length_nil]; omega) le_rfl (by simp [settingOf]))
  exact ⟨g, is, hgen, hend.frame.trans (by simpa using hnames), (le_max_right 0 n).trans hend.low_le⟩

/-- **The verifier can be generated**, for every set and every plan. -/
theorem exists_body (plan : BlobPlan) (pk : PublicKey) (hp : Emittable plan.p) :
    ∃ g is, Emitter.emitBody plan pk messageState = .ok ((), g, is) ∧ 3 ≤ g.peakFrame := by
  have hreach : ∀ S ps element, Delivers S plan ps element →
      ∃ c, Reaches S 3 (Emitter.emitBody plan pk) ⟨[(.d, [])], queueAt ps 0⟩ c ∧ c.vars.map Prod.fst = [.transient] :=
    fun _ _ _ h => ⟨_, emitBody_reaches pk h hp [], rfl⟩
  obtain ⟨g, is, hgen, -, hpeak⟩ := Reaches.generates hp hreach
  exact ⟨g, is, hgen, hpeak⟩

/-- **What the code of the verifier does to a witness**, from what its generator reaches. -/
theorem Reaches.holds {c : Conf Slot} {message : Bytes}
    (hbody : Reaches S 3 (Emitter.emitBody plan pk) ⟨[(.d, message)], queueAt ps 0⟩ c) {g : EmitState Slot}
    {is : List Instr} (hgen : Emitter.emitBody plan pk messageState = .ok ((), g, is))
    (halt : ps.length + S.rest.length ≤ S.cap) {high limit : ℕ} (hhigh : high ≤ limit)
    (hheight : 1 + S.rest.length + ps.length ≤ high) :
    c.Holds S [] 3 limit g (watch S.env is ⟨some ⟨⟨message :: S.rest, ps.map Prod.snd⟩, []⟩, high⟩) := by
  obtain ⟨⟨⟩, g', is', w, hgen', hrun, hend, -⟩ := hbody [] rfl 0 limit messageState _
    (holds_message message halt hhigh hheight)
  rw [hgen] at hgen'
  cases hgen'
  obtain rfl : _ = w := Option.some.inj hrun
  exact hend

/-! ### The scripts -/

/-- The code of the prologue. -/
def prologueCode (blobCount : ℕ) : List Instr := List.replicate blobCount (.op .OpToAltStack)

theorem plain_prologueCode (n : ℕ) : ∀ i ∈ prologueCode n, i.Plain := by
  intro i hi
  rw [List.eq_of_mem_replicate hi]
  decide

theorem emitPrologue_apply (n : ℕ) (g : EmitState Slot) :
    Emitter.emitPrologue n g = .ok ((), g, prologueCode n) := by
  have hcode : (List.range n).flatMap (fun _ => [Instr.op .OpToAltStack]) = prologueCode n := by
    rw [prologueCode, ← List.map_eq_flatMap, List.map_const', List.length_range]
  rw [← hcode]
  exact Gen.forRange_apply (fun _ _ => rfl) n g

/-- **The prologue** turns the items over onto the alt stack. -/
theorem execAll_prologueCode (env : Env) (d rest alt : List Bytes) :
    execAll env (prologueCode d.length) ⟨d ++ rest, alt⟩ = some ⟨rest, d.reverse ++ alt⟩ := by
  induction d generalizing alt with
  | nil => rfl
  | cons x d ih =>
    rw [List.length_cons, prologueCode, List.replicate_succ, execAll_cons, List.reverse_cons, List.append_assoc]
    exact ih (x :: alt)

theorem pushMessage_apply : Emitter.pushMessage (EmitState.new Slot) = .ok ((), messageState, []) := rfl

variable {g : EmitState Slot} {is : List Instr}

/-- **A bare verifier.** -/
theorem buildVerifyScript_eq (hgen : Emitter.emitBody plan pk messageState = .ok ((), g, is)) :
    buildVerifyScript pk plan = .ok ⟨prologueCode plan.blobCount ++ is, plan, g.peakFrame⟩ := by
  have hemit : Emitter.emitVerify plan pk (EmitState.new Slot) = .ok ((), g, prologueCode plan.blobCount ++ is) :=
    Gen.bind_ok (emitPrologue_apply _ _) <| Gen.bind_silent pushMessage_apply hgen
  rw [buildVerifyScript, buildWith, hemit]
  rfl

/-- **A redeem script.** -/
theorem buildVaultScript_eq (hgen : Emitter.emitBody plan pk messageState = .ok ((), g, is)) {n : ℕ} (hpos : 0 < n)
    (hn : n ≤ VaultCore.maxOutputCount) :
    buildVaultScript pk plan n =
      .ok ⟨prologueCode plan.blobCount ++ (VaultCore.bindingCode n ++ [.op .OpSHA256] ++ is), plan, g.peakFrame⟩ := by
  have hemit : Emitter.emitVaultScript plan pk n (EmitState.new Slot) =
      .ok ((), g, prologueCode plan.blobCount ++ (VaultCore.bindingCode n ++ [.op .OpSHA256] ++ is)) :=
    Gen.bind_ok (emitPrologue_apply _ _) <| Gen.bind_ok (VaultCore.emitBindingDigest_apply hpos hn _) <|
      Gen.bind_silent pushMessage_apply hgen
  rw [buildVaultScript, buildWith, hemit]
  rfl

/-! ### A bare verifier on a witness -/

/-- What a bare verifier is run as: the prologue, then the verifier on the message and the
queue. -/
theorem execute_prologue {env : Env} (hblobs : plan.blobs = ps.map Prod.fst) (message : Bytes) (rest : List Bytes) (high : ℕ) :
    execute env (prologueCode plan.blobCount ++ is) ((ps.map Prod.snd).reverse ++ message :: rest) =
      (watch env is ⟨some ⟨⟨message :: rest, ps.map Prod.snd⟩, []⟩, high⟩).machine.bind fun m =>
        if m.cond = [] then some m.stack.data else none := by
  have hcount : plan.blobCount = (ps.map Prod.snd).reverse.length := by
    rw [BlobPlan.blobCount, hblobs, List.length_map, List.length_reverse, List.length_map]
  have hprologue := execAll_prologueCode env (ps.map Prod.snd).reverse (message :: rest) []
  rw [List.reverse_reverse, List.append_nil] at hprologue
  rw [execute, hcount, run_append, run_plain (plain_prologueCode _) rfl, hprologue, machine_watch]
  rfl

/-- **A witness whose elements are hash values**: the script leaves whether the candidate root
is the key's. -/
theorem execute_whole (h : Delivers S plan ps element) (hp : Emittable plan.p)
    (hgen : Emitter.emitBody plan pk messageState = .ok ((), g, is)) (halt : ps.length + S.rest.length ≤ S.cap)
    (hwhole : ∀ p ∈ ps, Whole p.1 p.2) (message : Bytes) :
    execute S.env (prologueCode plan.blobCount ++ is) ((ps.map Prod.snd).reverse ++ message :: S.rest) =
      some (boolBytes ((trace S.env.sha256 plan.p pk (.ofElements plan.p element) message).root = pk.root) :: S.rest) := by
  have hholds := (emitBody_reaches pk h hp message).holds hgen halt le_rfl le_rfl
  have hlive : liveAt ps plan.p.sigElements := by
    rw [← h.total_eq]
    exact (liveAt_total h.pos_of_mem).mpr hwhole
  rw [execute_prologue h.blobs_eq, hholds.running hlive]
  rfl

/-- **Any witness with the right number of blobs**: the script leaves one item, and does not
run to the end if a blob that is cut is too short. -/
theorem execute_shape (h : Delivers S plan ps element) (hp : Emittable plan.p)
    (hgen : Emitter.emitBody plan pk messageState = .ok ((), g, is)) (halt : ps.length + S.rest.length ≤ S.cap)
    {message : Bytes} {items : List Bytes}
    (hexec : execute S.env (prologueCode plan.blobCount ++ is) ((ps.map Prod.snd).reverse ++ message :: S.rest) =
      some items) : items.length = 1 + S.rest.length ∧ ¬deadAt ps plan.p.sigElements := by
  have hholds := (emitBody_reaches pk h hp message).holds hgen halt le_rfl le_rfl
  rw [execute_prologue h.blobs_eq] at hexec
  obtain ⟨m, hm, hitems⟩ := Option.bind_eq_some_iff.mp hexec
  have hshape := hholds.shapes m hm
  split_ifs at hitems
  obtain rfl := Option.some.inj hitems
  refine ⟨hshape.data_len, fun hdead => ?_⟩
  rw [hholds.aborted hdead] at hm
  cases hm

/-- **A witness whose last blob is not cut**: the key's root is compared with a hash. -/
theorem execute_uncut {blob : Bytes} (h : Delivers S plan (ps ++ [(1, blob)]) element) (hp : Emittable plan.p)
    (hgen : Emitter.emitBody plan pk messageState = .ok ((), g, is)) (halt : ps.length + 1 + S.rest.length ≤ S.cap)
    (hwhole : ∀ p ∈ ps, Whole p.1 p.2) (message : Bytes) :
    ∃ y, execute S.env (prologueCode plan.blobCount ++ is)
        (((ps ++ [(1, blob)]).map Prod.snd).reverse ++ message :: S.rest) =
      some (boolBytes ((truncN (S.env.sha256 y)).bytes = pk.root.bytes) :: S.rest) := by
  obtain ⟨y, hbody⟩ := emitBody_uncut pk h hp message
  have hholds := hbody.holds hgen (by simpa using halt) le_rfl le_rfl
  refine ⟨y, ?_⟩
  rw [execute_prologue h.blobs_eq, hholds.running ⟨hwhole, .inl rfl⟩]
  rfl

end KaspaPqv.SlhScript
