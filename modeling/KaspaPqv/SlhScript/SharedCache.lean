import KaspaPqv.Lib.Threads
import KaspaPqv.SlhScript.Sign

/-!
# A key that several threads sign with

Signing takes the key by reference, so several threads may sign with one key. What they share
is the leaf layer that the key keeps, behind a lock. A thread takes the lock at most twice in a
layer of the hypertree: to look whether the layer it needs is kept, and, if it had to build
the layer, to keep it instead. Between the two anything may happen to what is kept.

A turn of a thread goes up to where it gives the lock back; what it computes without the lock
depends on nothing shared.

## What is proved

* `act_ok` — a turn keeps the invariant: what is kept is the leaf layer it is said to be, and
  each thread is where its message says.
* `alone_sign` — a thread that nobody comes between signs as `SigningKey.sign` does.
* `leafCache_transparent` — whatever the calls and their order, a signature is what a fresh key
  without a cache signs.
-/

namespace KaspaPqv.SlhScript

open KaspaPqv.Lib

variable (sha256 : Bytes → Block 32)

/-! ### A layer, divided where the lock is taken -/

/-- What a thread has of its signature before a layer. -/
structure Progress where
  out : Bytes
  tree : ℕ
  leaf : ℕ
  node : Hash

/-- The state of a signer that nobody comes between. -/
def Progress.state (s : Progress) (leaves : LeafCache) (calls : List WotsCall) : SignState :=
  { out := s.out, tree := s.tree, leaf := s.leaf, node := s.node, leaves, calls }

/-- The tree of the next layer. -/
def Progress.nextTree (p : Params) (layer : ℕ) (s : Progress) : ℕ := (nextPosition p layer s.tree s.leaf).1

/-- A layer of the signature, once its leaves are there. -/
def finishLayer (p : Params) (seeds : SecretSeeds) (s : Progress) (layer : ℕ) (leaves : List Hash) : Option Progress := do
  let (tree, leaf) := nextPosition p layer s.tree s.leaf
  let wots ← Signer.wotsSign (plain sha256 seeds.pkSeed) p seeds s.node layer tree leaf
  let (root, auth) ← Signer.treeOver (plain sha256 seeds.pkSeed) p layer tree leaf leaves
  some { out := s.out ++ wots.flatMap Block.bytes ++ auth.flatMap Block.bytes, tree, leaf, node := root }

variable {p : Params} {seeds : SecretSeeds}

/-- A layer of a signer that nobody comes between. -/
theorem signLayer_eq_finish (s : Progress) (layer : ℕ) (cache : LeafCache) (calls : List WotsCall) :
    Signer.signLayer (plain sha256 seeds.pkSeed) p seeds (s.state cache calls) layer =
      (Signer.leafLayer (plain sha256 seeds.pkSeed) p seeds layer (s.nextTree p layer) cache).bind fun (leaves, cache) =>
        (finishLayer sha256 p seeds s layer leaves).map fun s' =>
          s'.state cache (calls ++ [⟨layer, s.nextTree p layer, (nextPosition p layer s.tree s.leaf).2, s.node⟩]) := by
  unfold Signer.signLayer finishLayer Signer.xmssTree Progress.nextTree
  simp only [Progress.state, Option.bind_eq_bind, Option.map_bind, Option.bind_assoc]
  -- the one-time signature and the leaves do not depend on each other
  rw [Option.bind_comm]
  refine Option.bind_congr fun built _ => Option.bind_congr fun wots _ => ?_
  simp only [Function.comp_apply, Option.map_bind, Option.bind_some]
  rfl

/-! ### The threads -/

/-- Where a thread is with its calls. -/
inductive SignerThread
  | idle
  /-- Before it looks whether the leaf layer it needs is kept. -/
  | looks (message : Bytes) (layer : ℕ) (s : Progress)
  /-- Before it keeps the leaf layer it has built. -/
  | keeps (message : Bytes) (layer : ℕ) (s : Progress) (leaves : List Hash)
  | returned (message signature : Bytes)
  | panicked

/-- What a thread is asked to do in a turn. -/
inductive SignerTurn
  /-- Call `sign`. -/
  | call (message : Bytes)
  /-- Go on, up to where the lock is given back. -/
  | go
  deriving DecidableEq

section act

variable (key : SigningKey)

/-- The signer up to its loop. -/
def startSigning (message : Bytes) : Option Progress :=
  (Signer.startState sha256 (plain sha256 key.seeds.pkSeed) key message).map fun s =>
    { out := s.out, tree := s.tree, leaf := s.leaf, node := s.node }

/-- The head of the loop over the layers, and what comes after it. -/
def SignerThread.enter (message : Bytes) (layer : ℕ) (s : Progress) : SignerThread :=
  if layer < key.p.d then .looks message layer s
  -- `debug_assert_eq!(out.len(), p.sig_len())`
  else if s.out.length = key.p.sigLen then .returned message s.out
  else .panicked

/-- The end of a layer. -/
def SignerThread.finish (message : Bytes) (layer : ℕ) (s : Progress) (leaves : List Hash) : SignerThread :=
  match finishLayer sha256 key.p key.seeds s layer leaves with
  | some s => enter key message (layer + 1) s
  | none => .panicked

/-- The beginning of a call. -/
def SignerThread.start (message : Bytes) : SignerThread :=
  match startSigning sha256 key message with
  | some s => enter key message 0 s
  | none => .panicked

/-- A turn of a thread: its own state and what is kept. A thread in a call cannot call. -/
def SignerThread.act : SignerTurn → SignerThread → LeafCache → SignerThread × LeafCache
  | .call message, .idle, cache => (start sha256 key message, cache)
  | .call message, .returned _ _, cache => (start sha256 key message, cache)
  | .go, .looks message layer s, cache =>
    match cache.held layer (s.nextTree key.p layer) with
    | some leaves => (finish sha256 key message layer s leaves, cache)
    | none =>
      match Signer.buildLayer (plain sha256 key.seeds.pkSeed) key.seeds key.p layer (s.nextTree key.p layer) with
      | some leaves => (.keeps message layer s leaves, cache)
      | none => (.panicked, cache)
  | .go, .keeps message layer s leaves, cache =>
    (finish sha256 key message layer s leaves, cache.keep key.p layer (s.nextTree key.p layer) leaves)
  | _, thread, cache => (thread, cache)

/-- A key, and threads that have not called yet. -/
def shareKey (ι : Type) : Threads ι LeafCache SignerThread := { shared := key.leaves, thread := fun _ => .idle }

/-- The threads after a schedule. -/
def threadsAfter {ι : Type} [DecidableEq ι] (S : Threads ι LeafCache SignerThread) (schedule : List (ι × SignerTurn)) :
    Threads ι LeafCache SignerThread :=
  S.run (fun turn thread cache => thread.act sha256 key turn cache) schedule

end act

theorem threadsAfter_append {ι : Type} [DecidableEq ι] (key : SigningKey) (S : Threads ι LeafCache SignerThread)
    (before later : List (ι × SignerTurn)) :
    threadsAfter sha256 key S (before ++ later) = threadsAfter sha256 key (threadsAfter sha256 key S before) later :=
  List.foldl_append

/-! ### The invariant -/

/-- What a thread has before a layer is what its message says. -/
def Progress.At (key : SigningKey) (message : Bytes) (layer : ℕ) (s : Progress) : Prop :=
  (s.state none ((List.range layer).map (key.call sha256 message))).At sha256 key message layer

/-- Where a thread can be. -/
def SignerThread.Ok (key : SigningKey) : SignerThread → Prop
  | .idle => True
  | .looks message layer s => layer < key.p.d ∧ s.At sha256 key message layer
  | .keeps message layer s leaves => layer < key.p.d ∧ s.At sha256 key message layer ∧
      leaves = buildLayer sha256 key.p key.seeds layer (s.nextTree key.p layer)
  | .returned message signature => signature = (key.signature sha256 message).toBytes
  | .panicked => False

variable {key : SigningKey}

theorem nextTree_eq (hp : key.p.Facts) {message : Bytes} {layer : ℕ} {s : Progress} (h : s.At sha256 key message layer) :
    s.nextTree key.p layer = key.tree sha256 message layer := by
  have htree : s.tree = key.tree sha256 message (layer - 1) := h.tree_eq
  have hleaf : s.leaf = key.leaf sha256 message (layer - 1) := h.leaf_eq
  rw [Progress.nextTree, htree, hleaf]
  exact congrArg Prod.fst (nextPosition_eq hp _ _ layer)

section layer

variable (hp : key.p.Facts) {message : Bytes} {layer : ℕ} (hlayer : layer < key.p.d) {s : Progress}
  (h : s.At sha256 key message layer)
include hp hlayer h

/-- The leaves of a layer are built. -/
theorem buildLayer_at :
    Signer.buildLayer (plain sha256 key.seeds.pkSeed) key.seeds key.p layer (s.nextTree key.p layer) =
      some (buildLayer sha256 key.p key.seeds layer (s.nextTree key.p layer)) := by
  rw [nextTree_eq sha256 hp h]
  exact Signer.buildLayer_eq (hashes_plain sha256 _ _) hp hlayer (keyPair_inRange sha256 hp message hlayer).2.1

/-- **One layer**, with its leaves from wherever they came. -/
theorem finishLayer_at :
    ∃ s', finishLayer sha256 key.p key.seeds s layer
        (buildLayer sha256 key.p key.seeds layer (s.nextTree key.p layer)) = some s' ∧
      s'.At sha256 key message (layer + 1) := by
  have hrun := signLayer_eq sha256 (hashes_plain sha256 _ _) hp hlayer h
  rw [signLayer_eq_finish, Signer.leafLayer, show LeafCache.held none layer (s.nextTree key.p layer) = none from rfl] at hrun
  simp only [Option.bind_eq_bind, buildLayer_at sha256 hp hlayer h, Option.bind_some] at hrun
  obtain ⟨s', hfinish, hs'⟩ := Option.map_eq_some_iff.mp hrun
  have hnext := h.next
  rw [← hs'] at hnext
  exact ⟨s', hfinish, ⟨hnext.out_eq, hnext.tree_eq, hnext.leaf_eq, hnext.node_eq, LeafCache.sound_none sha256, rfl⟩⟩

end layer

/-- The head of the loop. -/
theorem enter_ok (hp : key.p.Facts) {message : Bytes} {layer : ℕ} {s : Progress} (hle : layer ≤ key.p.d)
    (h : s.At sha256 key message layer) : (SignerThread.enter key message layer s).Ok sha256 key := by
  unfold SignerThread.enter
  split_ifs with hlt hlen
  · exact ⟨hlt, h⟩
  · obtain rfl : layer = key.p.d := by omega
    exact SignState.At.out_signature sha256 h
  · obtain rfl : layer = key.p.d := by omega
    have hout := SignState.At.out_signature sha256 h
    exact hlen ((congrArg List.length hout).trans (length_signature sha256 hp message))

theorem finish_ok (hp : key.p.Facts) {message : Bytes} {layer : ℕ} {s : Progress} (hlt : layer < key.p.d)
    (h : s.At sha256 key message layer) :
    (SignerThread.finish sha256 key message layer s
      (buildLayer sha256 key.p key.seeds layer (s.nextTree key.p layer))).Ok sha256 key := by
  obtain ⟨s', hfinish, h'⟩ := finishLayer_at sha256 hp hlt h
  rw [SignerThread.finish, hfinish]
  exact enter_ok sha256 hp hlt h'

/-- The beginning of a call. -/
theorem startSigning_at (hp : key.p.Facts) (message : Bytes) :
    ∃ s, startSigning sha256 key message = some s ∧ s.At sha256 key message 0 := by
  rw [startSigning, startState_eq sha256 (hashes_plain sha256 _ _) hp, Option.map_some]
  exact ⟨_, rfl, ⟨by simp [SigningKey.first, Progress.state], rfl, rfl, rfl, LeafCache.sound_none sha256, rfl⟩⟩

theorem start_ok (hp : key.p.Facts) (message : Bytes) : (SignerThread.start sha256 key message).Ok sha256 key := by
  obtain ⟨s, hstart, h⟩ := startSigning_at sha256 hp message
  rw [SignerThread.start, hstart]
  exact enter_ok sha256 hp (Nat.zero_le _) h

section turns

variable (message : Bytes) (layer : ℕ) (s : Progress) {cache : LeafCache}

/-- The layer a thread needs is kept. -/
theorem act_hit {leaves : List Hash} (h : cache.held layer (s.nextTree key.p layer) = some leaves) :
    (SignerThread.looks message layer s).act sha256 key .go cache =
      (SignerThread.finish sha256 key message layer s leaves, cache) := by
  simp only [SignerThread.act, h]

/-- It is not, and is built. -/
theorem act_miss {leaves : List Hash} (h : cache.held layer (s.nextTree key.p layer) = none)
    (hbuild : Signer.buildLayer (plain sha256 key.seeds.pkSeed) key.seeds key.p layer (s.nextTree key.p layer) = some leaves) :
    (SignerThread.looks message layer s).act sha256 key .go cache = (.keeps message layer s leaves, cache) := by
  simp only [SignerThread.act, h, hbuild]

/-- Building it panics. -/
theorem act_panics (h : cache.held layer (s.nextTree key.p layer) = none)
    (hbuild : Signer.buildLayer (plain sha256 key.seeds.pkSeed) key.seeds key.p layer (s.nextTree key.p layer) = none) :
    (SignerThread.looks message layer s).act sha256 key .go cache = (.panicked, cache) := by
  simp only [SignerThread.act, h, hbuild]

end turns

/-- **One turn of a thread** keeps the invariant. -/
theorem act_ok (hp : key.p.Facts) (turn : SignerTurn) (thread : SignerThread) (cache : LeafCache)
    (hc : cache.Sound sha256 key.p key.seeds) (hthread : thread.Ok sha256 key) :
    (thread.act sha256 key turn cache).1.Ok sha256 key ∧
      (thread.act sha256 key turn cache).2.Sound sha256 key.p key.seeds := by
  cases turn with
  | call message =>
    cases thread with
    | idle => exact ⟨start_ok sha256 hp message, hc⟩
    | returned message' signature => exact ⟨start_ok sha256 hp message, hc⟩
    | looks message' layer s => exact ⟨hthread, hc⟩
    | keeps message' layer s leaves => exact ⟨hthread, hc⟩
    | panicked => exact ⟨hthread, hc⟩
  | go =>
    cases thread with
    | idle => exact ⟨hthread, hc⟩
    | returned message signature => exact ⟨hthread, hc⟩
    | panicked => exact ⟨hthread, hc⟩
    | looks message layer s =>
      obtain ⟨hlt, hs⟩ := hthread
      cases hheld : cache.held layer (s.nextTree key.p layer) with
      | none =>
        rw [act_miss sha256 message layer s hheld (buildLayer_at sha256 hp hlt hs)]
        exact ⟨⟨hlt, hs, rfl⟩, hc⟩
      | some leaves =>
        obtain rfl := hc.held sha256 hheld
        rw [act_hit sha256 message layer s hheld]
        exact ⟨finish_ok sha256 hp hlt hs, hc⟩
    | keeps message layer s leaves =>
      obtain ⟨hlt, hs, rfl⟩ := hthread
      exact ⟨finish_ok sha256 hp hlt hs, hc.keep sha256 layer _⟩

/-! ### A call ends -/

/-- The turns a thread may still need for the call it is in. -/
def SignerThread.turnsLeft (d : ℕ) : SignerThread → ℕ
  | .looks _ layer _ => 2 * (d - layer)
  | .keeps _ layer _ _ => 2 * (d - layer) - 1
  | _ => 0

theorem turnsLeft_le (d : ℕ) (thread : SignerThread) : thread.turnsLeft d ≤ 2 * d := by
  cases thread <;> simp only [SignerThread.turnsLeft] <;> omega

/-- The message of the call a thread is in, or has returned from. -/
def SignerThread.message? : SignerThread → Option Bytes
  | .looks message _ _ | .keeps message _ _ _ | .returned message _ => some message
  | _ => none

/-- A thread that can call: it has not called yet, or its call has returned. -/
def SignerThread.MayCall : SignerThread → Prop
  | .idle | .returned _ _ => True
  | _ => False

theorem turnsLeft_enter (message : Bytes) (layer : ℕ) (s : Progress) :
    (SignerThread.enter key message layer s).turnsLeft key.p.d ≤ 2 * (key.p.d - layer) := by
  unfold SignerThread.enter
  split_ifs
  · exact le_rfl
  · exact Nat.zero_le _
  · exact Nat.zero_le _

theorem turnsLeft_finish (message : Bytes) (layer : ℕ) (s : Progress) (leaves : List Hash) :
    (SignerThread.finish sha256 key message layer s leaves).turnsLeft key.p.d ≤ 2 * (key.p.d - layer) - 2 := by
  unfold SignerThread.finish
  split
  · exact (turnsLeft_enter _ _ _).trans (by omega)
  · exact Nat.zero_le _

/-- **A turn in a call** brings it nearer to its end. -/
theorem turnsLeft_go (thread : SignerThread) (cache : LeafCache) :
    (thread.act sha256 key .go cache).1.turnsLeft key.p.d ≤ thread.turnsLeft key.p.d - 1 := by
  cases thread with
  | idle => exact Nat.zero_le _
  | returned message signature => exact Nat.zero_le _
  | panicked => exact Nat.zero_le _
  | looks message layer s =>
    cases hheld : cache.held layer (s.nextTree key.p layer) with
    | none =>
      cases hbuild : Signer.buildLayer (plain sha256 key.seeds.pkSeed) key.seeds key.p layer (s.nextTree key.p layer) with
      | none =>
        rw [act_panics sha256 message layer s hheld hbuild]
        exact Nat.zero_le _
      | some leaves =>
        rw [act_miss sha256 message layer s hheld hbuild]
        exact le_rfl
    | some leaves =>
      rw [act_hit sha256 message layer s hheld]
      exact (turnsLeft_finish sha256 _ _ _ _).trans (by rw [SignerThread.turnsLeft]; omega)
  | keeps message layer s leaves => exact (turnsLeft_finish sha256 _ _ _ _).trans (by rw [SignerThread.turnsLeft]; omega)

theorem message_enter {message : Bytes} {layer : ℕ} {s : Progress}
    (hok : (SignerThread.enter key message layer s).Ok sha256 key) :
    (SignerThread.enter key message layer s).message? = some message := by
  unfold SignerThread.enter at hok ⊢
  split_ifs at hok ⊢
  · rfl
  · rfl
  · exact hok.elim

theorem message_finish {message : Bytes} {layer : ℕ} {s : Progress} {leaves : List Hash}
    (hok : (SignerThread.finish sha256 key message layer s leaves).Ok sha256 key) :
    (SignerThread.finish sha256 key message layer s leaves).message? = some message := by
  unfold SignerThread.finish at hok ⊢
  cases hfinish : finishLayer sha256 key.p key.seeds s layer leaves with
  | none =>
    rw [hfinish] at hok
    exact hok.elim
  | some s' =>
    rw [hfinish] at hok
    exact message_enter sha256 hok

/-- **A thread that can call is in the call** once it is asked for it. -/
theorem message_call (hp : key.p.Facts) (message : Bytes)
    {thread : SignerThread} (hmay : thread.MayCall) (cache : LeafCache) :
    (thread.act sha256 key (.call message) cache).1.message? = some message := by
  have hstart : (SignerThread.start sha256 key message).message? = some message := by
    obtain ⟨s, hbegin, hs⟩ := startSigning_at sha256 hp message
    rw [SignerThread.start, hbegin]
    exact message_enter sha256 (enter_ok sha256 hp (Nat.zero_le _) hs)
  cases thread with
  | idle => exact hstart
  | returned message' signature => exact hstart
  | looks message' layer s => exact hmay.elim
  | keeps message' layer s leaves => exact hmay.elim
  | panicked => exact hmay.elim

/-- A turn in a call stays in the call. -/
theorem message_go {thread : SignerThread} {cache : LeafCache} (hok : (thread.act sha256 key .go cache).1.Ok sha256 key) :
    (thread.act sha256 key .go cache).1.message? = thread.message? := by
  cases thread with
  | idle => rfl
  | returned message signature => rfl
  | panicked => rfl
  | looks message layer s =>
    cases hheld : cache.held layer (s.nextTree key.p layer) with
    | none =>
      cases hbuild : Signer.buildLayer (plain sha256 key.seeds.pkSeed) key.seeds key.p layer (s.nextTree key.p layer) with
      | none =>
        rw [act_panics sha256 message layer s hheld hbuild] at hok
        exact hok.elim
      | some leaves =>
        rw [act_miss sha256 message layer s hheld hbuild]
        rfl
    | some leaves =>
      rw [act_hit sha256 message layer s hheld] at hok ⊢
      exact message_finish sha256 hok
  | keeps message layer s leaves => exact message_finish sha256 hok

/-- A call that needs no more turns has returned its signature. -/
theorem returned_of_turnsLeft {thread : SignerThread} {message : Bytes} (hok : thread.Ok sha256 key)
    (hmessage : thread.message? = some message) (hleft : thread.turnsLeft key.p.d = 0) :
    thread = .returned message (key.signature sha256 message).toBytes := by
  cases thread with
  | idle => cases hmessage
  | panicked => exact hok.elim
  | returned message' signature =>
    cases hmessage
    rw [show signature = _ from hok]
  | looks message' layer s =>
    have hlt := hok.1
    rw [SignerThread.turnsLeft] at hleft
    omega
  | keeps message' layer s leaves =>
    have hlt := hok.1
    rw [SignerThread.turnsLeft] at hleft
    omega

section schedules

variable {ι : Type} [DecidableEq ι] {S : Threads ι LeafCache SignerThread} (hp : key.p.Facts)
  (hshared : S.shared.Sound sha256 key.p key.seeds)
  (hthreads : ∀ t, (S.thread t).Ok sha256 key)
include hp hshared hthreads

/-- **The invariant after any schedule.** -/
theorem threadsAfter_ok (schedule : List (ι × SignerTurn)) :
    (threadsAfter sha256 key S schedule).shared.Sound sha256 key.p key.seeds ∧
      ∀ t, ((threadsAfter sha256 key S schedule).thread t).Ok sha256 key :=
  Threads.run_forall (fun turn thread cache hc hok => act_ok sha256 hp turn thread cache hc hok) hshared hthreads
    schedule

/-- A thread that only goes on stays in its call. -/
theorem threadsAfter_message {t : ι} {schedule : List (ι × SignerTurn)} (hgo : ∀ x ∈ schedule, x.1 = t → x.2 = .go) :
    ((threadsAfter sha256 key S schedule).thread t).message? = (S.thread t).message? := by
  induction schedule generalizing S with
  | nil => rfl
  | cons x schedule ih =>
    obtain ⟨u, turn⟩ := x
    obtain ⟨hshared₁, hthreads₁⟩ := threadsAfter_ok sha256 hp hshared hthreads [(u, turn)]
    refine (ih hshared₁ hthreads₁ fun x hx => hgo x (List.mem_cons_of_mem _ hx)).trans ?_
    have hok := hthreads₁ t
    change ((S.turn _ (u, turn)).thread t).Ok sha256 key at hok
    change ((S.turn _ (u, turn)).thread t).message? = _
    by_cases ht : u = t
    · subst ht
      obtain rfl : turn = .go := hgo _ List.mem_cons_self rfl
      rw [Threads.thread_turn_self] at hok ⊢
      exact message_go sha256 hok
    · rw [Threads.thread_turn_of_ne ht]

/-- **A call ends**, once its thread has had two turns for each layer. -/
theorem call_returns {t : ι} {message : Bytes} (hmessage : (S.thread t).message? = some message)
    {schedule : List (ι × SignerTurn)} (hgo : ∀ x ∈ schedule, x.1 = t → x.2 = .go)
    (hturns : 2 * key.p.d ≤ schedule.countP (fun x => x.1 = t)) :
    (threadsAfter sha256 key S schedule).thread t = .returned message (key.signature sha256 message).toBytes := by
  have hok := (threadsAfter_ok sha256 hp hshared hthreads schedule).2 t
  have hstays := (threadsAfter_message sha256 hp hshared hthreads hgo).trans hmessage
  have hleft : ((threadsAfter sha256 key S schedule).thread t).turnsLeft key.p.d ≤
      (S.thread t).turnsLeft key.p.d - schedule.countP (fun x => x.1 = t) := by
    refine Threads.run_measure (m := fun (thread : SignerThread) _ => thread.turnsLeft key.p.d)
      (A := fun turn => turn = SignerTurn.go)
      (fun turn thread cache hturn => ?_) (fun _ _ _ _ => le_rfl) hgo
    subst hturn
    exact turnsLeft_go sha256 thread cache
  have hstart := turnsLeft_le key.p.d (S.thread t)
  exact returned_of_turnsLeft sha256 hok hstays (by omega)

end schedules

/-! ### A thread that nobody comes between -/

/-- What is kept does not matter to the beginning of a call. -/
theorem startSigning_congr (key : SigningKey) (cache : LeafCache) (message : Bytes) :
    startSigning sha256 { key with leaves := cache } message = startSigning sha256 key message := by
  unfold startSigning Signer.startState
  simp only [Option.bind_eq_bind, Option.map_bind, Function.comp_def, Option.map_some]

/-- Turns of one thread. -/
def alone (key : SigningKey) (turns : List SignerTurn) (x : SignerThread × LeafCache) : SignerThread × LeafCache :=
  turns.foldl (fun x turn => x.1.act sha256 key turn x.2) x

theorem threadsAfter_alone {ι : Type} [DecidableEq ι] (key : SigningKey) (S : Threads ι LeafCache SignerThread) (t : ι)
    (turns : List SignerTurn) :
    ((threadsAfter sha256 key S (turns.map fun turn => (t, turn))).thread t,
        (threadsAfter sha256 key S (turns.map fun turn => (t, turn))).shared) =
      alone sha256 key turns (S.thread t, S.shared) :=
  Threads.run_alone t turns

theorem alone_append (key : SigningKey) (a b : List SignerTurn) (x : SignerThread × LeafCache) :
    alone sha256 key (a ++ b) x = alone sha256 key b (alone sha256 key a x) :=
  List.foldl_append

/-- One layer takes one turn or two. -/
theorem alone_layer (message : Bytes) {layer : ℕ} {s : Progress} {cache : LeafCache} {calls : List WotsCall} {st : SignState}
    (hlt : layer < key.p.d)
    (h : Signer.signLayer (plain sha256 key.seeds.pkSeed) key.p key.seeds (s.state cache calls) layer = some st) :
    ∃ s' calls' turns, st = s'.state st.leaves calls' ∧
      alone sha256 key turns (SignerThread.enter key message layer s, cache) =
        (SignerThread.enter key message (layer + 1) s', st.leaves) := by
  rw [signLayer_eq_finish] at h
  obtain ⟨⟨leaves, cache'⟩, hleaves, hmap⟩ := Option.bind_eq_some_iff.mp h
  obtain ⟨s', hfinish, rfl⟩ := Option.map_eq_some_iff.mp hmap
  have henter : SignerThread.enter key message layer s = .looks message layer s := if_pos hlt
  unfold Signer.leafLayer at hleaves
  cases hheld : cache.held layer (s.nextTree key.p layer) with
  | none =>
    simp only [hheld, Option.bind_eq_bind, Option.bind_eq_some_iff] at hleaves
    obtain ⟨built, hbuild, hkeep⟩ := hleaves
    cases hkeep
    refine ⟨s', _, [.go, .go], rfl, ?_⟩
    rw [henter, alone, List.foldl_cons, List.foldl_cons, List.foldl_nil, act_miss sha256 message layer s hheld hbuild]
    simp only [SignerThread.act, SignerThread.finish, hfinish]
    rfl
  | some kept =>
    simp only [hheld] at hleaves
    cases hleaves
    refine ⟨s', _, [.go], rfl, ?_⟩
    rw [henter, alone, List.foldl_cons, List.foldl_nil, act_hit sha256 message layer s hheld]
    simp only [SignerThread.finish, hfinish]
    rfl

/-- The layers, one after the other. -/
theorem alone_layers (message : Bytes) (n : ℕ) {layer : ℕ} {s : Progress} {cache : LeafCache} {calls : List WotsCall}
    {st : SignState} (hd : layer + n = key.p.d)
    (h : (List.range' layer n).foldlM (Signer.signLayer (plain sha256 key.seeds.pkSeed) key.p key.seeds)
      (s.state cache calls) = some st) :
    ∃ s' calls' turns, st = s'.state st.leaves calls' ∧
      alone sha256 key turns (SignerThread.enter key message layer s, cache) =
        (SignerThread.enter key message key.p.d s', st.leaves) := by
  induction n generalizing layer s cache calls with
  | zero =>
    cases h
    exact ⟨s, calls, [], rfl, by rw [← hd]; rfl⟩
  | succ n ih =>
    rw [List.range'_succ, List.foldlM_cons] at h
    obtain ⟨st₁, hlayer, hrest⟩ := Option.bind_eq_some_iff.mp h
    obtain ⟨s₁, calls₁, turns₁, hst, hturns⟩ := alone_layer sha256 message (by omega) hlayer
    rw [hst] at hrest
    obtain ⟨s', calls', turns, hst', hturns'⟩ := ih (by omega) hrest
    exact ⟨s', calls', turns₁ ++ turns, hst', by rw [alone_append, hturns, hturns']⟩

/-- The beginning of a call does not touch what is kept. -/
theorem startState_leaves {hasher : Hasher Option} {key : SigningKey} {message : Bytes} {s : SignState}
    (h : Signer.startState sha256 hasher key message = some s) : s.leaves = key.leaves := by
  unfold Signer.startState at h
  simp only [Option.bind_eq_bind, Option.bind_eq_some_iff] at h
  obtain ⟨digest, -, parts, -, forsSig, -, roots, -, hs⟩ := h
  cases hs
  rfl

/-- **A thread that nobody comes between signs as `SigningKey.sign` does**: the same signature,
and the same leaf layer kept. -/
theorem alone_sign {ι : Type} [DecidableEq ι] {S : Threads ι LeafCache SignerThread} {t : ι} (hidle : S.thread t = .idle)
    {key key' : SigningKey} {message signature : Bytes}
    (h : ({ key with leaves := S.shared }).sign sha256 message = some (signature, key')) :
    ∃ turns : List SignerTurn, let after := threadsAfter sha256 key S ((.call message :: turns).map fun turn => (t, turn))
      after.thread t = .returned message signature ∧ after.shared = key'.leaves := by
  obtain ⟨st, hrun, hst⟩ := Option.map_eq_some_iff.mp h
  simp only [Signer.signRun, Option.bind_eq_bind, Option.bind_eq_some_iff] at hrun
  obtain ⟨s₀, hstart, s₁, hlayers, hlen⟩ := hrun
  have hleaves : s₀.leaves = S.shared := startState_leaves sha256 hstart
  have hbegin : startSigning sha256 key message =
      some { out := s₀.out, tree := s₀.tree, leaf := s₀.leaf, node := s₀.node } := by
    rw [← startSigning_congr sha256 key S.shared, startSigning, hstart, Option.map_some]
  let s : Progress := { out := s₀.out, tree := s₀.tree, leaf := s₀.leaf, node := s₀.node }
  have hfold : (List.range' 0 key.p.d).foldlM (Signer.signLayer (plain sha256 key.seeds.pkSeed) key.p key.seeds)
      (s.state S.shared s₀.calls) = some s₁ := by
    rw [← List.range_eq_range', ← hleaves]
    exact hlayers
  obtain ⟨s', calls', turns, hs', hturns⟩ := alone_layers sha256 message key.p.d (Nat.zero_add _) hfold
  split_ifs at hlen with hsig
  cases hlen
  cases hst
  have hout : s'.out = st.out := (congrArg SignState.out hs').symm
  have hend : SignerThread.enter key message key.p.d s' = .returned message st.out := by
    rw [SignerThread.enter, if_neg (Nat.lt_irrefl _), hout]
    exact if_pos hsig
  rw [hend] at hturns
  have hcall : alone sha256 key (.call message :: turns) (.idle, S.shared) = (.returned message st.out, st.leaves) := by
    rw [alone, List.foldl_cons]
    simp only [SignerThread.act, SignerThread.start, hbegin]
    exact hturns
  have hrun := threadsAfter_alone sha256 key S t (.call message :: turns)
  rw [hidle, hcall] at hrun
  exact ⟨turns, congrArg Prod.fst hrun, congrArg Prod.snd hrun⟩

/-! ### Signing is the same as from a fresh key -/

/-- What two keys with the same secrets sign. -/
theorem signature_eq {key key' : SigningKey} (h : key.Sound sha256 p seeds) (h' : key'.Sound sha256 p seeds)
    (message : Bytes) : key.signature sha256 message = key'.signature sha256 message := by
  have hkey : key' = { key with leaves := key'.leaves } := by
    cases key'
    rw [SigningKey.mk.injEq]
    exact ⟨h'.p_eq.trans h.p_eq.symm, h'.seeds_eq.trans h.seeds_eq.symm, h'.publicKey_eq.trans h.publicKey_eq.symm, rfl⟩
  rw [hkey]
  rfl

/-- **The leaf layer that is kept cannot be seen.** For every set and all secrets: a key that was
used any number of times keeps a leaf layer that is what it is said to be, and signs what the
fresh key without it signs. The same holds when any number of threads call it in any order of
their turns; none of them panics, a thread that is not in a call is in one when it calls, and a
call ends after two turns for each layer. -/
theorem leafCache_transparent {p : Params} (hmem : p ∈ Params.ALL) (seeds : SecretSeeds) :
    ∃ fresh, SigningKey.generate sha256 p seeds = some fresh ∧ ∀ key : SigningKey, key.Reachable sha256 p seeds →
      key.leaves.Sound sha256 p seeds ∧
      (∀ message, ∃ signature key' fresh', key.sign sha256 message = some (signature, key') ∧
        ({ fresh with leaves := none }).sign sha256 message = some (signature, fresh')) ∧
      ∀ (ι : Type) [DecidableEq ι] (schedule : List (ι × SignerTurn)),
        let after := threadsAfter sha256 key (shareKey key ι) schedule
        after.shared.Sound sha256 p seeds ∧
        ∀ t : ι, after.thread t ≠ .panicked ∧
          (∀ message signature, after.thread t = .returned message signature →
            ∃ fresh', ({ fresh with leaves := none }).sign sha256 message = some (signature, fresh')) ∧
          (∀ message, (after.thread t).MayCall →
            ((threadsAfter sha256 key after [(t, .call message)]).thread t).message? = some message) ∧
          ∀ message, (after.thread t).message? = some message →
            ∀ later : List (ι × SignerTurn), (∀ x ∈ later, x.1 = t → x.2 = .go) →
              2 * p.d ≤ later.countP (fun x => x.1 = t) →
              ∃ signature, (threadsAfter sha256 key after later).thread t = .returned message signature := by
  have hp := Params.facts p hmem
  obtain ⟨fresh, hgen, hfresh⟩ := generate_sound sha256 hp seeds
  have hempty : ({ fresh with leaves := none } : SigningKey).Sound sha256 p seeds :=
    ⟨hfresh.p_eq, hfresh.seeds_eq, hfresh.publicKey_eq, LeafCache.sound_none sha256⟩
  refine ⟨fresh, hgen, fun key hreach => ?_⟩
  have hkey := hreach.sound sha256 hp
  have hsame (message : Bytes) : ∃ fresh', ({ fresh with leaves := none } : SigningKey).sign sha256 message =
      some ((key.signature sha256 message).toBytes, fresh') := by
    obtain ⟨fresh', hsign, -⟩ := sign_sound sha256 hp hempty message
    exact ⟨fresh', by rw [hsign, signature_eq sha256 hempty hkey]⟩
  refine ⟨hkey.leaves, fun message => ?_, fun ι _ schedule => ?_⟩
  · obtain ⟨key', hsign, -⟩ := sign_sound sha256 hp hkey message
    obtain ⟨fresh', hfresh'⟩ := hsame message
    exact ⟨_, key', fresh', hsign, hfresh'⟩
  · obtain ⟨rfl, rfl, hpub, hleaves⟩ := hkey
    obtain ⟨hshared, hthreads⟩ := threadsAfter_ok sha256 (S := shareKey key ι) hp hleaves (fun _ => trivial) schedule
    refine ⟨hshared, fun t => ⟨fun hpanic => ?_, fun message signature hret => ?_, fun message hmay => ?_,
      fun message hmessage later hgo hturns => ?_⟩⟩
    · have hok := hthreads t
      rw [hpanic] at hok
      exact hok
    · have hok := hthreads t
      rw [hret] at hok
      rw [show signature = _ from hok]
      exact hsame message
    · refine (congrArg SignerThread.message? (Threads.thread_turn_self t (SignerTurn.call message))).trans ?_
      exact message_call sha256 hp message hmay _
    · exact ⟨_, call_returns sha256 hp hshared hthreads hmessage hgo hturns⟩

/-- Two threads call, and then take turns. -/
def bothCall : List (Bool × SignerTurn) :=
  [(true, .call [1]), (false, .call [2])] ++ (List.replicate 4 [(true, .go), (false, .go)]).flatten

/-- A hash function whose digests are zero: both threads return what the fresh key signs. -/
theorem leafCache_transparent_zeros :
    ∃ fresh, SigningKey.generate (fun _ => Block.zero 32) Params.SHA2_128_24_D2 ⟨default, default, default⟩ = some fresh ∧
      ∀ t : Bool, ∃ message signature fresh',
        (threadsAfter (fun _ => Block.zero 32) fresh (shareKey fresh Bool) bothCall).thread t =
            .returned message signature ∧
          ({ fresh with leaves := none }).sign (fun _ => Block.zero 32) message = some (signature, fresh') := by
  obtain ⟨fresh, hgen, hkeys⟩ := leafCache_transparent (fun _ => Block.zero 32)
    (show Params.SHA2_128_24_D2 ∈ Params.ALL by decide) ⟨default, default, default⟩
  have hthreads := (hkeys fresh (.generate hgen)).2.2 Bool
  refine ⟨fresh, hgen, fun t => ?_⟩
  obtain ⟨message, before, later, hsplit, hidle, hgo, hturns⟩ : ∃ message before later,
      bothCall = before ++ [(t, .call message)] ++ later ∧
      (threadsAfter (fun _ => Block.zero 32) fresh (shareKey fresh Bool) before).thread t = .idle ∧
      (∀ x ∈ later, x.1 = t → x.2 = .go) ∧ 2 * Params.SHA2_128_24_D2.d ≤ later.countP (fun x => x.1 = t) := by
    cases t with
    | true => exact ⟨[1], [], _, rfl, rfl, by decide, by decide⟩
    | false => exact ⟨[2], [(true, .call [1])], _, rfl, Threads.thread_turn_of_ne (by decide), by decide, by decide⟩
  obtain ⟨-, -, hcall, -⟩ := (hthreads before).2 t
  have hmessage := hcall message (by rw [hidle]; trivial)
  rw [← threadsAfter_append] at hmessage
  obtain ⟨signature, hreturned⟩ := ((hthreads (before ++ [(t, .call message)])).2 t).2.2.2 message hmessage later hgo hturns
  rw [← threadsAfter_append, ← hsplit] at hreturned
  obtain ⟨fresh', hsign⟩ := ((hthreads bothCall).2 t).2.1 message signature hreturned
  exact ⟨message, signature, fresh', hreturned, hsign⟩

end KaspaPqv.SlhScript
