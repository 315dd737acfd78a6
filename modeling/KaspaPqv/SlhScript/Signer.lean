import KaspaPqv.SlhScript.Positions
import KaspaPqv.SlhScript.Treehash

/-!
# The signer

Key generation and signing, over the hasher that they call, which may panic: in the source it is
the midstate of the key. `SigningKey.generate` and `SigningKey.sign` are those over the hash itself.

A key carries the leaf layer it built last; it is the state that one signature leaves to the
next. The leaves that the source computes on all cores are computed one after the other.

Beside the signature, `signRun` records what each one-time key was given to sign
(`WotsCall`); nothing reads this record.

## What is proved

* `Signer.wotsSign_eq`, `Signer.forsSign_eq`, `Signer.xmssTree_eq` — what the parts of a signature are,
  position by position, over every hasher that hashes as `hash` does at the positions that a key
  has.
-/

namespace KaspaPqv.SlhScript

open KaspaPqv.Lib

/-- The three secrets of a key. -/
structure SecretSeeds where
  skSeed : Hash
  skPrf : Hash
  pkSeed : Hash
  deriving DecidableEq

/-- How large a leaf layer may be kept, in bytes. -/
def LEAF_CACHE_BYTES : ℕ := 128 <<< 20

/-- The leaf layer that is kept: its layer, its tree, its leaves. -/
abbrev LeafCache := Option (ℕ × ℕ × List Hash)

/-- A key pair. -/
structure SigningKey where
  p : Params
  seeds : SecretSeeds
  publicKey : PublicKey
  leaves : LeafCache

/-- What a one-time key is given to sign, and where in the hypertree the key is. -/
structure WotsCall where
  layer : ℕ
  tree : ℕ
  keyPair : ℕ
  message : Hash
  deriving DecidableEq

/-! ### The algorithms -/

/-- HMAC-SHA-256. -/
def hmacSha256 (sha256 : Bytes → Block 32) (key message : Bytes) : Block 32 :=
  let padded := if key.length > 64 then (sha256 key).bytes ++ zeros 32 else key ++ zeros (64 - key.length)
  let inner := sha256 (padded.map (· ^^^ 0x36) ++ message)
  sha256 (padded.map (· ^^^ 0x5c) ++ inner.bytes)

/-- The values of a function below `count`, in order. -/
def parallelMap {α : Type} (count : ℕ) (f : ℕ → α) : List α := (List.range count).map f

/-- Look whether a leaf layer is kept. -/
def LeafCache.held (cache : LeafCache) (layer tree : ℕ) : Option (List Hash) :=
  match cache with
  | some (l, t, cached) => if l = layer ∧ t = tree then some cached else none
  | none => none

/-- Keep a leaf layer, unless it is too large. -/
def LeafCache.keep (p : Params) (cache : LeafCache) (layer tree : ℕ) (leaves : List Hash) : LeafCache :=
  if p.leavesPerTree * N ≤ LEAF_CACHE_BYTES then some (layer, tree, leaves) else cache

/-- What hashes a message at an address. What may happen beside is told by `m`. -/
abbrev Hasher (m : Type → Type) := Adrs → List Bytes → m Hash

namespace Signer

section keys

variable {m : Type → Type} [Monad m] (hasher : Hasher m) (seeds : SecretSeeds)

/-- The secret value of chain `i`. -/
def wotsSk (layer tree kp i : ℕ) : m Hash :=
  let adrs := (((layerAdrs layer tree).setTypeAndClear WOTS_PRF).setKeyPairAddress kp).setChainAddress i
  hasher adrs [seeds.skSeed.bytes]

/-- Steps of a chain. -/
def chain (adrs : Adrs) (x : Hash) (start steps : ℕ) : m Hash :=
  (List.range' start steps).foldlM (fun tmp j => hasher (adrs.setHashAddress j) [tmp.bytes]) x

/-- A one-time public key: a leaf of a tree of the hypertree. -/
def wotsPkGen (p : Params) (layer tree kp : ℕ) : m Hash := do
  let adrs := wotsAdrs layer tree kp
  let tmp ← (List.range p.len).mapM fun i => do
    let sk ← wotsSk hasher seeds layer tree kp i
    chain hasher (adrs.setChainAddress i) sk 0 (p.w - 1)
  hasher ((adrs.setTypeAndClear WOTS_PK).setKeyPairAddress kp) (tmp.map Block.bytes)

/-- A secret value of FORS. -/
def forsSk (adrs : Adrs) (index : ℕ) : m Hash :=
  let skAdrs := ((adrs.setTypeAndClear FORS_PRF).setKeyPairAddress adrs.keyPairAddress).setTreeIndex index
  hasher skAdrs [seeds.skSeed.bytes]

/-- The leaves of a tree of the hypertree. -/
def buildLayer (p : Params) (layer tree : ℕ) : m (List Hash) :=
  (parallelMap p.leavesPerTree (wotsPkGen hasher seeds p layer tree)).mapM id

end keys

section algorithms

variable (hasher : Hasher Option) (p : Params) (seeds : SecretSeeds)

/-- A one-time signature. -/
def wotsSign (m : Hash) (layer tree kp : ℕ) : Option (List Hash) := do
  let msg ← wotsMessage p m
  let adrs := wotsAdrs layer tree kp
  msg.zipIdx.mapM fun (digit, i) => do
    let sk ← wotsSk hasher seeds layer tree kp i
    chain hasher (adrs.setChainAddress i) sk 0 digit

/-- The group of one FORS tree: the opened value, and its path. -/
def forsTree (adrs : Adrs) (i idx : ℕ) : Option (List Hash) := do
  let (_, auth) ← treehashAuth p.a idx
    (fun j => do
      let global := i <<< p.a + j
      let sk ← forsSk hasher seeds adrs global
      hasher ((adrs.setTreeHeight 0).setTreeIndex global) [sk.bytes])
    (fun height index left right =>
      let global := i <<< (p.a - height) + index
      hasher ((adrs.setTreeHeight height).setTreeIndex global) [left.bytes, right.bytes])
  let sk ← forsSk hasher seeds adrs (i <<< p.a + idx)
  some (sk :: auth)

/-- A FORS signature. -/
def forsSign (adrs : Adrs) (md : Bytes) : Option (List Hash) := do
  let indices ← base2b md p.a p.k
  let groups ← indices.zipIdx.mapM fun (idx, i) => forsTree hasher p seeds adrs i idx
  some groups.flatten

/-- The leaves of a tree of the hypertree, and the cache afterwards. -/
def leafLayer (layer tree : ℕ) (cache : LeafCache) : Option (List Hash × LeafCache) :=
  match cache.held layer tree with
  | some leaves => some (leaves, cache)
  | none => do
    let leaves ← buildLayer hasher seeds p layer tree
    some (leaves, cache.keep p layer tree leaves)

/-- The root of a tree of the hypertree over its leaves, and the path that opens one of them. -/
def treeOver (layer tree target : ℕ) (leaves : List Hash) : Option (Hash × List Hash) :=
  treehashAuth p.hp target (fun i => leaves[i]?) fun height index left right =>
    let adrs := (((layerAdrs layer tree).setTypeAndClear TREE).setTreeHeight height).setTreeIndex index
    hasher adrs [left.bytes, right.bytes]

/-- The root of a tree of the hypertree, the path that opens a leaf, and the cache afterwards. -/
def xmssTree (layer tree target : ℕ) (cache : LeafCache) : Option (Hash × List Hash × LeafCache) := do
  let (leaves, cache) ← leafLayer hasher p seeds layer tree cache
  let (root, auth) ← treeOver hasher p layer tree target leaves
  some (root, auth, cache)

/-- Generate a key from its secrets. The public key is the root of the top layer's only tree. -/
def generate : Option SigningKey := do
  let (root, _, leaves) ← xmssTree hasher p seeds (p.d - 1) 0 0 none
  some { p, seeds, publicKey := { seed := seeds.pkSeed, root }, leaves }

end algorithms

end Signer

/-- The loop of the signer over the layers. -/
structure SignState where
  out : Bytes
  tree : ℕ
  leaf : ℕ
  node : Hash
  leaves : LeafCache
  /-- What each one-time key was given to sign. -/
  calls : List WotsCall

namespace Signer

/-- One layer of the hypertree. -/
def signLayer (hasher : Hasher Option) (p : Params) (seeds : SecretSeeds) (s : SignState) (layer : ℕ) :
    Option SignState := do
  let (tree, leaf) := nextPosition p layer s.tree s.leaf
  let wots ← wotsSign hasher p seeds s.node layer tree leaf
  let (root, auth, leaves) ← xmssTree hasher p seeds layer tree leaf s.leaves
  some
    { out := s.out ++ wots.flatMap Block.bytes ++ auth.flatMap Block.bytes
      tree, leaf, node := root, leaves
      calls := s.calls ++ [⟨layer, tree, leaf, s.node⟩] }

variable (sha256 : Bytes → Block 32) (hasher : Hasher Option)

/-- The signer up to its loop. -/
def startState (key : SigningKey) (message : Bytes) : Option SignState := do
  let p := key.p
  let seeds := key.seeds
  let mPrime := contextPrefixed message
  let randomness := truncN (hmacSha256 sha256 seeds.skPrf.bytes (seeds.pkSeed.bytes ++ mPrime))
  let digest ← hMsg sha256 p randomness key.publicKey mPrime
  let (md, idxTree, idxLeaf) ← splitDigest p digest
  let adrs := forsAdrs idxTree idxLeaf
  let forsSig ← forsSign hasher p seeds adrs md
  let (_, _, pkFors) ← forsPkFromSig sha256 p seeds.pkSeed adrs forsSig md
  some
    { out := randomness.bytes ++ forsSig.flatMap Block.bytes
      tree := idxTree, leaf := idxLeaf, node := pkFors, leaves := key.leaves, calls := [] }

/-- A run of the signer. -/
def signRun (key : SigningKey) (message : Bytes) : Option SignState := do
  let s ← startState sha256 hasher key message
  let s ← (List.range key.p.d).foldlM (signLayer hasher key.p key.seeds) s
  -- `debug_assert_eq!(out.len(), p.sig_len())`
  if s.out.length = key.p.sigLen then some s else none

/-- Sign: the signature, and the key with its cache. -/
def sign (key : SigningKey) (message : Bytes) : Option (Bytes × SigningKey) :=
  (signRun sha256 hasher key message).map fun s => (s.out, { key with leaves := s.leaves })

/-- A key that can exist: generated, and used to sign any number of times. -/
inductive Reachable (p : Params) (seeds : SecretSeeds) : SigningKey → Prop
  | generate {key : SigningKey} : generate hasher p seeds = some key → Reachable p seeds key
  | sign {key key' : SigningKey} {message signature : Bytes} :
      Reachable p seeds key → sign sha256 hasher key message = some (signature, key') → Reachable p seeds key'

end Signer

/-! ### Over the hash itself -/

variable (sha256 : Bytes → Block 32)

/-- The hash, which does not panic. -/
def plain (pkSeed : Hash) : Hasher Option := fun adrs parts => some (hash sha256 pkSeed adrs parts)

/-- The secret value of chain `i`. -/
def wotsSk (seeds : SecretSeeds) (layer tree kp i : ℕ) : Hash :=
  @Signer.wotsSk Id (hash sha256 seeds.pkSeed) seeds layer tree kp i

/-- A one-time public key. -/
def wotsPkGen (p : Params) (seeds : SecretSeeds) (layer tree kp : ℕ) : Hash :=
  @Signer.wotsPkGen Id _ (hash sha256 seeds.pkSeed) seeds p layer tree kp

/-- A secret value of FORS. -/
def forsSk (seeds : SecretSeeds) (adrs : Adrs) (index : ℕ) : Hash :=
  @Signer.forsSk Id (hash sha256 seeds.pkSeed) seeds adrs index

/-- The leaves of a tree of the hypertree. -/
def buildLayer (p : Params) (seeds : SecretSeeds) (layer tree : ℕ) : List Hash :=
  @Signer.buildLayer Id _ (hash sha256 seeds.pkSeed) seeds p layer tree

/-- Generate a key. -/
def SigningKey.generate (p : Params) (seeds : SecretSeeds) : Option SigningKey :=
  Signer.generate (plain sha256 seeds.pkSeed) p seeds

/-- A run of the signer. -/
def SigningKey.signRun (key : SigningKey) (message : Bytes) : Option SignState :=
  Signer.signRun sha256 (plain sha256 key.seeds.pkSeed) key message

/-- Sign. -/
def SigningKey.sign (key : SigningKey) (message : Bytes) : Option (Bytes × SigningKey) :=
  Signer.sign sha256 (plain sha256 key.seeds.pkSeed) key message

/-- A key that can exist. -/
abbrev SigningKey.Reachable (p : Params) (seeds : SecretSeeds) : SigningKey → Prop :=
  Signer.Reachable sha256 (plain sha256 seeds.pkSeed) p seeds

/-! ### What the parts of a signature are -/

section values

variable (p : Params) (seeds : SecretSeeds)

/-- The value of a chain that a signature of `m` shows. -/
def wotsAt (m : Hash) (layer tree kp i : ℕ) : Hash :=
  chain sha256 seeds.pkSeed ((wotsAdrs layer tree kp).setChainAddress i) (wotsSk sha256 seeds layer tree kp i) 0
    (wotsDigit p m i)

/-- The root of a tree of the hypertree. -/
def treeRoot (layer tree : ℕ) : Hash :=
  nodeAt (wotsPkGen sha256 p seeds layer tree) (xmssNode sha256 seeds.pkSeed layer tree) p.hp 0

/-- The path that opens a leaf of a tree of the hypertree. -/
def treePath (layer tree leaf : ℕ) : ℕ → Hash :=
  authPath (wotsPkGen sha256 p seeds layer tree) (xmssNode sha256 seeds.pkSeed layer tree) leaf

/-- A leaf of FORS tree `i` at a position of the hypertree. -/
def forsLeafGen (t l i j : ℕ) : Hash :=
  forsLeaf sha256 seeds.pkSeed t l (i <<< p.a + j) (forsSk sha256 seeds (forsAdrs t l) (i <<< p.a + j))

/-- The path that opens a leaf of FORS tree `i`. -/
def forsPath (t l i leaf : ℕ) : ℕ → Hash :=
  authPath (forsLeafGen sha256 p seeds t l i) (forsNode sha256 p seeds.pkSeed t l i) leaf

/-- The FORS public key at a position of the hypertree. -/
def forsPkGen (t l : ℕ) : Hash :=
  forsPk sha256 p seeds.pkSeed t l fun i =>
    nodeAt (forsLeafGen sha256 p seeds t l i) (forsNode sha256 p seeds.pkSeed t l i) p.a 0

/-- What the one-time key at a position of the hypertree signs: the FORS public key there, or
the root of the tree below. -/
def signedAt : (layer tree kp : ℕ) → Hash
  | 0, tree, kp => forsPkGen sha256 p seeds tree kp
  | layer + 1, tree, kp => treeRoot sha256 p seeds layer (tree * 2 ^ p.hp + kp)

/-- The group of FORS tree `i`, opened at `idx`. -/
def forsGroup (t l i idx : ℕ) : List Hash :=
  forsSk sha256 seeds (forsAdrs t l) (i <<< p.a + idx) :: (List.range p.a).map (forsPath sha256 p seeds t l i idx)

/-- What a layer adds to a signature that it makes of `m`. -/
def layerElements (m : Hash) (layer tree leaf : ℕ) : List Hash :=
  (List.range p.len).map (wotsAt sha256 p seeds m layer tree leaf) ++
    (List.range p.hp).map (treePath sha256 p seeds layer tree leaf)

/-- The cache after a leaf layer was needed. -/
def LeafCache.after (cache : LeafCache) (layer tree : ℕ) : LeafCache :=
  match cache.held layer tree with
  | some _ => cache
  | none => cache.keep p layer tree (buildLayer sha256 p seeds layer tree)

/-- What is kept is the leaf layer it is said to be. -/
def LeafCache.Sound (cache : LeafCache) : Prop :=
  ∀ layer tree leaves, cache = some (layer, tree, leaves) →
    leaves = (List.range (2 ^ p.hp)).map (wotsPkGen sha256 p seeds layer tree)

end values

variable {p : Params} {seeds : SecretSeeds}

/-- A one-time public key is compressed from the ends of its chains. -/
theorem wotsPkGen_eq_wotsPk (layer tree kp : ℕ) :
    wotsPkGen sha256 p seeds layer tree kp = wotsPk sha256 p seeds.pkSeed (wotsAdrs layer tree kp) fun i =>
      chain sha256 seeds.pkSeed ((wotsAdrs layer tree kp).setChainAddress i) (wotsSk sha256 seeds layer tree kp i) 0
        (p.w - 1) := by
  have hends := @List.idRun_mapM _ _ (List.range p.len) fun i =>
    @Signer.chain Id _ (hash sha256 seeds.pkSeed) ((wotsAdrs layer tree kp).setChainAddress i)
      (wotsSk sha256 seeds layer tree kp i) 0 (p.w - 1)
  have hkey := congrArg (fun tmp : List Hash => hash sha256 seeds.pkSeed
    (((wotsAdrs layer tree kp).setTypeAndClear WOTS_PK).setKeyPairAddress kp) (tmp.map Block.bytes)) hends
  rw [List.map_map] at hkey
  refine hkey.trans ?_
  rw [wotsPk]
  refine congrArg (hash sha256 _ _) (List.map_congr_left fun i _ => congrArg Block.bytes ?_)
  exact List.idRun_foldlM

theorem buildLayer_eq (layer tree : ℕ) :
    buildLayer sha256 p seeds layer tree = (List.range (2 ^ p.hp)).map (wotsPkGen sha256 p seeds layer tree) := by
  rw [← Params.leavesPerTree_eq, ← List.map_id ((List.range p.leavesPerTree).map _)]
  exact List.idRun_mapM

/-- If nothing is kept. -/
theorem LeafCache.sound_none : LeafCache.Sound sha256 p seeds none := fun _ _ _ hkept => nomatch hkept

/-- What is kept of a leaf layer is the leaf layer. -/
theorem LeafCache.Sound.held {cache : LeafCache} (hc : cache.Sound sha256 p seeds) {layer tree : ℕ} {leaves : List Hash}
    (h : cache.held layer tree = some leaves) : leaves = buildLayer sha256 p seeds layer tree := by
  unfold LeafCache.held at h
  cases cache with
  | none => cases h
  | some kept =>
    obtain ⟨l, t, cached⟩ := kept
    by_cases hhit : l = layer ∧ t = tree
    · obtain ⟨rfl, rfl⟩ := hhit
      simp only [and_self, if_true, Option.some.injEq] at h
      rw [← h, hc l t cached rfl, buildLayer_eq]
    · simp only [if_neg hhit] at h
      cases h

/-- A leaf layer that was built may be kept. -/
theorem LeafCache.Sound.keep {cache : LeafCache} (hc : cache.Sound sha256 p seeds) (layer tree : ℕ) :
    (cache.keep p layer tree (buildLayer sha256 p seeds layer tree)).Sound sha256 p seeds := by
  unfold LeafCache.keep
  split_ifs
  · intro l t leaves h
    cases h
    exact buildLayer_eq sha256 layer tree
  · exact hc

theorem LeafCache.Sound.after {cache : LeafCache} (hc : cache.Sound sha256 p seeds) (layer tree : ℕ) :
    (cache.after sha256 p seeds layer tree).Sound sha256 p seeds := by
  unfold LeafCache.after
  split
  · exact hc
  · exact hc.keep sha256 layer tree

/-- **The chains of a signature lead to the one-time public key.** -/
theorem wotsPk_wotsAt (m : Hash) (layer tree kp : ℕ) :
    wotsPk sha256 p seeds.pkSeed (wotsAdrs layer tree kp)
        (wotsEnd sha256 p seeds.pkSeed (wotsAdrs layer tree kp) (wotsAt sha256 p seeds m layer tree kp) m) =
      wotsPkGen sha256 p seeds layer tree kp := by
  have hend (i : ℕ) : wotsEnd sha256 p seeds.pkSeed (wotsAdrs layer tree kp) (wotsAt sha256 p seeds m layer tree kp) m i =
      chain sha256 seeds.pkSeed ((wotsAdrs layer tree kp).setChainAddress i) (wotsSk sha256 seeds layer tree kp i) 0
        (p.w - 1) := by
    have hjoin := chain_chain sha256 seeds.pkSeed ((wotsAdrs layer tree kp).setChainAddress i)
      (wotsSk sha256 seeds layer tree kp i) 0 (wotsDigit p m i) (p.w - 1 - wotsDigit p m i)
    rwa [Nat.zero_add, Nat.add_sub_cancel' (wotsDigit_le m i)] at hjoin
  rw [wotsPkGen_eq_wotsPk, wotsPk, wotsPk]
  simp only [hend]

/-- **A layer of the verifier comes to the root of the signer's tree.** -/
theorem xmssRoot_eq (m : Hash) (layer tree : ℕ) {leaf : ℕ} (hl : leaf < 2 ^ p.hp) :
    xmssRoot sha256 p seeds.pkSeed layer tree leaf (wotsAt sha256 p seeds m layer tree leaf)
        (treePath sha256 p seeds layer tree leaf) m = treeRoot sha256 p seeds layer tree := by
  rw [xmssRoot, wotsPk_wotsAt sha256, treeRoot]
  exact climb_root _ hl fun _ _ => rfl

/-- **A FORS tree of the verifier comes to the root of the signer's**, whichever leaf is opened. -/
theorem forsRoot_eq (t l i : ℕ) {idx : ℕ} (hidx : idx < 2 ^ p.a) :
    forsRoot sha256 p seeds.pkSeed t l i idx (forsSk sha256 seeds (forsAdrs t l) (i <<< p.a + idx))
        (forsPath sha256 p seeds t l i idx) =
      nodeAt (forsLeafGen sha256 p seeds t l i) (forsNode sha256 p seeds.pkSeed t l i) p.a 0 := by
  rw [forsRoot]
  exact climb_root (forsLeafGen sha256 p seeds t l i) hidx fun _ _ => rfl

theorem length_forsGroup (p : Params) (seeds : SecretSeeds) (t l i idx : ℕ) :
    (forsGroup sha256 p seeds t l i idx).length = 1 + p.a := by
  simp [forsGroup, Nat.add_comm]

theorem length_layerElements (p : Params) (seeds : SecretSeeds) (m : Hash) (layer tree leaf : ℕ) :
    (layerElements sha256 p seeds m layer tree leaf).length = p.len + p.hp := by
  simp [layerElements]

/-- The groups are where the verifier looks for them. -/
theorem forsHas_flatMap (t l : ℕ) (idx : ℕ → ℕ) :
    ForsHas p ((List.range p.k).flatMap fun i => forsGroup sha256 p seeds t l i (idx i))
      (fun i => forsSk sha256 seeds (forsAdrs t l) (i <<< p.a + idx i)) fun i => forsPath sha256 p seeds t l i (idx i) := by
  have hlen := length_flatMap_range (fun i => length_forsGroup sha256 p seeds t l i (idx i)) p.k
  have hgroup {i : ℕ} (hi : i < p.k) := slice_flatMap_range
    (fun i => length_forsGroup sha256 p seeds t l i (idx i)) hi
  refine ⟨fun i hi => ?_, fun i hi => ?_⟩
  · have hget := congrArg (·[0]?) (hgroup hi)
    simp only [Nat.succ_mul] at hget
    rw [getElem?_slice (by omega), Nat.add_zero] at hget
    rw [hget]
    rfl
  · have hle := mul_add_le (b := 1 + p.a) hi le_rfl
    have hpart := congrArg (slice · 1 (1 + p.a)) (hgroup hi)
    simp only [Nat.succ_mul] at hpart
    rw [slice_slice le_rfl] at hpart
    rw [sub?_eq (by omega) (by omega), Nat.add_assoc, hpart, forsGroup, slice, Nat.add_comm 1, List.take_succ_cons,
      List.drop_succ_cons, List.drop_zero, List.take_of_length_le (by simp)]

/-- The layers are where the verifier looks for them. -/
theorem htLayer_flatMap {sig : Signature} {m : ℕ → Hash} {tree leaf : ℕ → ℕ}
    (hht : sig.ht = (List.range sig.p.d).flatMap fun j => layerElements sha256 sig.p seeds (m j) j (tree j) (leaf j))
    {j : ℕ} (hj : j < sig.p.d) :
    sig.htLayer j = some
      ((List.range sig.p.len).map (wotsAt sha256 sig.p seeds (m j) j (tree j) (leaf j)),
        (List.range sig.p.hp).map (treePath sha256 sig.p seeds j (tree j) (leaf j))) := by
  have hel (j : ℕ) := length_layerElements sha256 sig.p seeds (m j) j (tree j) (leaf j)
  have hlen : sig.ht.length = sig.p.d * (sig.p.len + sig.p.hp) := by rw [hht, length_flatMap_range hel]
  have hlayer := slice_flatMap_range hel hj
  rw [← hht, Nat.succ_mul] at hlayer
  have hle := mul_add_le (b := sig.p.len + sig.p.hp) hj le_rfl
  have hwots := congrArg (slice · 0 sig.p.len) hlayer
  have hauth := congrArg (slice · sig.p.len (sig.p.len + sig.p.hp)) hlayer
  rw [slice_slice (by omega), Nat.add_zero] at hwots
  rw [slice_slice le_rfl] at hauth
  simp only [Signature.htLayer, Option.bind_eq_bind]
  rw [sub?_eq (by omega) (by omega), Option.bind_some, sub?_eq (by omega) (by omega), Option.bind_some, Nat.add_assoc,
    hwots, hauth, layerElements, slice_zero, List.take_left' (by simp), slice, List.take_of_length_le (by simp),
    List.drop_left' (by simp)]

/-! ### What a hasher has to hash -/

/-- The hasher hashes what a signer asks of it: at the positions of a key, messages of up to `p.len`
hash values. -/
def Hashes (p : Params) (pkSeed : Hash) (hasher : Hasher Option) : Prop :=
  ∀ x : Position, x.InRange p → ∀ parts : List Bytes, parts.flatten.length ≤ p.len * N →
    hasher (x.adrs p) parts = some (hash sha256 pkSeed (x.adrs p) parts)

theorem hashes_plain (p : Params) (pkSeed : Hash) : Hashes sha256 p pkSeed (plain sha256 pkSeed) := fun _ _ _ _ => rfl

theorem Params.Facts.two_le_len (hp : p.Facts) : 2 ≤ p.len := by
  have hle : 8 * N ≤ p.len1 * 4 := hp.len1_mul.symm.le.trans (Nat.mul_le_mul_left _ hp.lgw_le)
  rw [N] at hle
  rw [Params.len]
  omega

namespace Signer

variable {sha256} {hasher : Hasher Option} (h : Hashes sha256 p seeds.pkSeed hasher) (hp : p.Facts)
include h

theorem hash_list {x : Position} (hx : x.InRange p) (tmp : List Hash) (htmp : tmp.length ≤ p.len) :
    hasher (x.adrs p) (tmp.map Block.bytes) = some (hash sha256 seeds.pkSeed (x.adrs p) (tmp.map Block.bytes)) := by
  refine h x hx _ ?_
  rw [← List.flatMap_def, length_flatMap_bytes]
  exact Nat.mul_le_mul_right N htmp

include hp

theorem hash_one {x : Position} (hx : x.InRange p) (v : Hash) :
    hasher (x.adrs p) [v.bytes] = some (hash sha256 seeds.pkSeed (x.adrs p) [v.bytes]) :=
  hash_list h hx [v] (Nat.le_of_lt hp.two_le_len)

theorem hash_two {x : Position} (hx : x.InRange p) (v v' : Hash) :
    hasher (x.adrs p) [v.bytes, v'.bytes] = some (hash sha256 seeds.pkSeed (x.adrs p) [v.bytes, v'.bytes]) :=
  hash_list h hx [v, v'] hp.two_le_len

section keyPair

variable {layer tree kp : ℕ} (hkp : Position.KeyPairInRange p layer tree kp)
include hkp

theorem wotsSk_eq {i : ℕ} (hi : i < p.len) :
    wotsSk hasher seeds layer tree kp i = some (SlhScript.wotsSk sha256 seeds layer tree kp i) :=
  hash_one (x := .wotsSecret layer tree kp i) h hp ⟨hkp, hi⟩ seeds.skSeed

theorem chain_eq {i : ℕ} (hi : i < p.len) (v : Hash) {start steps : ℕ} (hend : start + steps ≤ p.w - 1) :
    chain hasher ((wotsAdrs layer tree kp).setChainAddress i) v start steps =
      some (SlhScript.chain sha256 seeds.pkSeed ((wotsAdrs layer tree kp).setChainAddress i) v start steps) := by
  refine foldlM_eq_some (fun v j hj => ?_) v
  have hj := List.mem_range'_1.mp hj
  exact hash_one (x := .chainStep layer tree kp i j) h hp ⟨hkp, hi, by omega⟩ v

/-- **One leaf of the hypertree.** -/
theorem wotsPkGen_eq : wotsPkGen hasher seeds p layer tree kp = some (SlhScript.wotsPkGen sha256 p seeds layer tree kp) := by
  have hends := mapM_eq_some (l := List.range p.len)
    (f := fun i => (wotsSk hasher seeds layer tree kp i).bind fun sk =>
      chain hasher ((wotsAdrs layer tree kp).setChainAddress i) sk 0 (p.w - 1))
    (g := fun i => SlhScript.chain sha256 seeds.pkSeed ((wotsAdrs layer tree kp).setChainAddress i)
      (SlhScript.wotsSk sha256 seeds layer tree kp i) 0 (p.w - 1))
    fun i hi => by
      have hi := List.mem_range.mp hi
      rw [wotsSk_eq h hp hkp hi, Option.bind_some, chain_eq h hp hkp hi _ (Nat.zero_add _).le]
  have hkey := hash_list (x := .wotsPk layer tree kp) h hkp
    ((List.range p.len).map fun i => SlhScript.chain sha256 seeds.pkSeed ((wotsAdrs layer tree kp).setChainAddress i)
      (SlhScript.wotsSk sha256 seeds layer tree kp i) 0 (p.w - 1)) (by rw [List.length_map, List.length_range])
  rw [wotsPkGen]
  simp only [Option.bind_eq_bind]
  rw [hends, Option.bind_some]
  refine hkey.trans ?_
  rw [wotsPkGen_eq_wotsPk, List.map_map]
  rfl

/-- **A one-time signature.** -/
theorem wotsSign_eq (m : Hash) :
    wotsSign hasher p seeds m layer tree kp = some ((List.range p.len).map (wotsAt sha256 p seeds m layer tree kp)) := by
  rw [wotsSign, wotsMessage_eq hp]
  simp only [Option.bind_eq_bind, Option.bind_some, zipIdx_map_range]
  rw [mapM_eq_some (g := fun x : ℕ × ℕ => wotsAt sha256 p seeds m layer tree kp x.2), List.map_map]
  · rfl
  · intro x hx
    obtain ⟨i, hi, rfl⟩ := List.mem_map.mp hx
    have hi := List.mem_range.mp hi
    rw [wotsSk_eq h hp hkp hi, Option.bind_some]
    exact chain_eq h hp hkp hi _ ((Nat.zero_add _).le.trans (wotsDigit_le m i))

end keyPair

section fors

variable {t l : ℕ} (hkp : Position.KeyPairInRange p 0 t l)
include hkp

theorem forsSk_eq {i j : ℕ} (hi : i < p.k) (hj : j < 2 ^ p.a) :
    forsSk hasher seeds (forsAdrs t l) (i <<< p.a + j) = some (SlhScript.forsSk sha256 seeds (forsAdrs t l) (i <<< p.a + j)) :=
  hash_one (x := .forsSecret t l i j) h hp ⟨hkp, hi, hj⟩ seeds.skSeed

theorem forsTree_eq {i idx : ℕ} (hi : i < p.k) (hidx : idx < 2 ^ p.a) :
    forsTree hasher p seeds (forsAdrs t l) i idx = some (forsGroup sha256 p seeds t l i idx) := by
  have htree := @treehashAuth_eq _ _ p.a idx hidx
    (fun j => (forsSk hasher seeds (forsAdrs t l) (i <<< p.a + j)).bind fun sk =>
      hasher (((forsAdrs t l).setTreeHeight 0).setTreeIndex (i <<< p.a + j)) [sk.bytes])
    (forsLeafGen sha256 p seeds t l i) (fun j hj => by
      rw [forsSk_eq h hp hkp hi hj, Option.bind_some]
      exact hash_one (x := .forsNode t l i 0 j) h hp ⟨hkp, hi, Nat.zero_le _, hj⟩ _)
    (fun height index left right =>
      hasher (((forsAdrs t l).setTreeHeight height).setTreeIndex (i <<< (p.a - height) + index)) [left.bytes, right.bytes])
    (forsNode sha256 p seeds.pkSeed t l i)
    (fun height hheight index hindex left right =>
      hash_two (x := .forsNode t l i (height + 1) index) h hp ⟨hkp, hi, hheight, hindex⟩ left right)
  rw [forsTree]
  simp only [Option.bind_eq_bind]
  rw [htree, Option.bind_some, forsSk_eq h hp hkp hi hidx, Option.bind_some, forsGroup]
  rfl

/-- **A FORS signature**, group by group. -/
theorem forsSign_eq {md : Bytes} (hmd : md.length = p.mdLen) :
    forsSign hasher p seeds (forsAdrs t l) md =
      some ((List.range p.k).flatMap fun i => forsGroup sha256 p seeds t l i (forsIndex p md i)) := by
  rw [forsSign, base2b_forsIndex hp hmd]
  simp only [Option.bind_eq_bind, Option.bind_some, zipIdx_map_range]
  rw [mapM_eq_some (g := fun x => forsGroup sha256 p seeds t l x.2 x.1)]
  · rw [Option.bind_some, List.map_map]
    rfl
  · intro x hx
    obtain ⟨i, hi, rfl⟩ := List.mem_map.mp hx
    exact forsTree_eq h hp hkp (List.mem_range.mp hi) (bitField_lt _ _ _)

end fors

section trees

variable {layer tree : ℕ} (hlayer : layer < p.d) (htree : tree < 2 ^ (p.hp * (p.d - 1 - layer)))
include hlayer htree

theorem buildLayer_eq : buildLayer hasher seeds p layer tree = some (SlhScript.buildLayer sha256 p seeds layer tree) := by
  rw [buildLayer, parallelMap, List.mapM_map, Params.leavesPerTree_eq, SlhScript.buildLayer_eq]
  exact mapM_eq_some fun kp hkp => wotsPkGen_eq h hp ⟨hlayer, htree, List.mem_range.mp hkp⟩

/-- **The leaves of a tree**, and what is kept afterwards. -/
theorem leafLayer_eq {cache : LeafCache} (hc : cache.Sound sha256 p seeds) :
    leafLayer hasher p seeds layer tree cache =
      some (SlhScript.buildLayer sha256 p seeds layer tree, cache.after sha256 p seeds layer tree) := by
  rw [leafLayer, LeafCache.after]
  cases hheld : cache.held layer tree with
  | none =>
    simp only [Option.bind_eq_bind]
    rw [buildLayer_eq h hp hlayer htree, Option.bind_some]
  | some leaves => rw [hc.held sha256 hheld]

theorem treeOver_eq {target : ℕ} (ht : target < 2 ^ p.hp) :
    treeOver hasher p layer tree target (SlhScript.buildLayer sha256 p seeds layer tree) =
      some (treeRoot sha256 p seeds layer tree, (List.range p.hp).map (treePath sha256 p seeds layer tree target)) := by
  rw [SlhScript.buildLayer_eq]
  refine treehashAuth_eq ht (fun i hi => getElem?_map_range hi _) fun height hheight index hindex left right => ?_
  exact hash_two (x := .xmssNode layer tree (height + 1) index) h hp
    ⟨hlayer, htree, Nat.le_add_left 1 height, hheight, hindex⟩ left right

/-- **A tree of the hypertree**, whatever is in the cache. -/
theorem xmssTree_eq {cache : LeafCache} (hc : cache.Sound sha256 p seeds) {target : ℕ} (ht : target < 2 ^ p.hp) :
    xmssTree hasher p seeds layer tree target cache =
      some (treeRoot sha256 p seeds layer tree, (List.range p.hp).map (treePath sha256 p seeds layer tree target),
        cache.after sha256 p seeds layer tree) := by
  rw [xmssTree, leafLayer_eq h hp hlayer htree hc]
  simp only [Option.bind_eq_bind, Option.bind_some]
  rw [treeOver_eq h hp hlayer htree ht, Option.bind_some]

end trees

end Signer

end KaspaPqv.SlhScript
