import KaspaPqv.Lib.PerfectTree
import KaspaPqv.SlhScript.Adrs
import KaspaPqv.SlhScript.Digits

/-!
# The reference verifier

SLH-DSA verification as the host computes it, with every intermediate value: FORS, then
one one-time signature and one Merkle path for each layer of the hypertree. A panic of the
source, such as an index behind the end of a slice, is `none`.

Below the translation, each function is given a value without loops and without panics:
the parts of a signature are functions of their position (`SigParts`), and what is
computed from them is `forsPk`, `xmssRoot` and `candidateRoot`.

## What is proved

* `wotsPkFromSig_eq`, `xmssPkFromSig_eq`, `forsPkFromSig_eq`, `verifyTraced_eq` — the
  functions of the source compute these values.
* `fromBytes_eq` — every string of the right length is a signature.
-/

namespace KaspaPqv.SlhScript

open KaspaPqv.Lib

/-! ### Keys and signatures -/

/-- A public key. -/
structure PublicKey where
  seed : Hash
  root : Hash
  deriving DecidableEq

/-- A signature, split into elements. -/
structure Signature where
  p : Params
  randomness : Hash
  /-- `k` groups of a secret value and its path. -/
  fors : List Hash
  /-- `d` groups of a one-time signature and a path. -/
  ht : List Hash

/-- The elements of a string; what is left over at its end is dropped. -/
def chunksExact (bytes : Bytes) : List Hash :=
  List.ofFn fun i : Fin (bytes.length / N) =>
    .ofBytes (slice bytes (i * N) ((i + 1) * N)) <| by
      have hstop : (i + 1) * N ≤ bytes.length := (Nat.mul_le_mul_right N i.isLt).trans (Nat.div_mul_le_self _ _)
      rw [length_slice, Nat.min_eq_left hstop, Nat.succ_mul, Nat.add_sub_cancel_left]

/-- The error of a string of the wrong length. -/
def signatureLengthError (p : Params) (bytes : Bytes) : String :=
  s!"{p.name} signature must be {p.sigLen} bytes, got {bytes.length}"

/-- Parse a signature. -/
def Signature.fromBytes (p : Params) (bytes : Bytes) : Option (Except String Signature) :=
  if bytes.length = p.sigLen then do
    let elems := chunksExact bytes
    let forsCount := p.k * (1 + p.a)
    let randomness ← elems[0]?
    let fors ← sub? elems 1 (1 + forsCount)
    let ht ← sub? elems (1 + forsCount) elems.length
    some (.ok { p, randomness, fors, ht })
  else some (.error (signatureLengthError p bytes))

/-- Serialise back to the wire format. -/
def Signature.toBytes (sig : Signature) : Bytes := sig.randomness.bytes ++ (sig.fors ++ sig.ht).flatMap Block.bytes

/-- The one-time signature and the path of a layer. -/
def Signature.htLayer (sig : Signature) (j : ℕ) : Option (List Hash × List Hash) := do
  let base := j * (sig.p.len + sig.p.hp)
  let wots ← sub? sig.ht base (base + sig.p.len)
  let auth ← sub? sig.ht (base + sig.p.len) (base + sig.p.len + sig.p.hp)
  some (wots, auth)

/-- Every intermediate value of a verification. -/
structure Trace where
  p : Params
  digest : Bytes
  idxTree : ℕ
  idxLeaf : ℕ
  forsIndices : List ℕ
  forsRoots : List Hash
  pkFors : Hash
  /-- The tree and the key pair of each layer. -/
  layerAddresses : List (ℕ × ℕ)
  wotsMessages : List (List ℕ)
  /-- The node that enters each layer, and the root. -/
  nodes : List Hash
  root : Hash

/-! ### The algorithms -/

variable (sha256 : Bytes → Block 32)

/-- The message digest: an inner hash, and one block of MGF1. -/
def hMsg (p : Params) (r : Hash) (pk : PublicKey) (message : Bytes) : Option Bytes :=
  let digest1 := sha256 (r.bytes ++ pk.seed.bytes ++ pk.root.bytes ++ message)
  let block := sha256 (r.bytes ++ pk.seed.bytes ++ digest1.bytes ++ beBytes 4 0)
  sub? block.bytes 0 p.m

/-- The message behind the prefix of an empty context. -/
def contextPrefixed (message : Bytes) : Bytes := [0, 0] ++ message

/-- `s` steps of a chain, from step `i`. -/
def chain (pkSeed : Hash) (adrs : Adrs) (x : Hash) (i s : ℕ) : Hash :=
  (List.range' i s).foldl (fun tmp j => hash sha256 pkSeed (adrs.setHashAddress j) [tmp.bytes]) x

/-- The one-time public key that a signature of `m` leads to, and the digits of `m`. -/
def wotsPkFromSig (p : Params) (pkSeed : Hash) (adrs : Adrs) (sig : List Hash) (m : Hash) :
    Option (Hash × List ℕ) := do
  let msg ← wotsMessage p m
  let tmp ← msg.zipIdx.mapM fun (digit, i) => do
    let x ← sig[i]?
    some (chain sha256 pkSeed (adrs.setChainAddress i) x digit (p.w - 1 - digit))
  let pkAdrs := (adrs.setTypeAndClear WOTS_PK).setKeyPairAddress adrs.keyPairAddress
  some (hash sha256 pkSeed pkAdrs (tmp.map Block.bytes), msg)

/-- The root of a tree of the hypertree that a one-time signature and a path lead to. -/
def xmssPkFromSig (p : Params) (pkSeed : Hash) (adrs : Adrs) (idx : ℕ) (wotsSig auth : List Hash) (m : Hash) :
    Option (Hash × List ℕ) := do
  let adrs := (adrs.setTypeAndClear WOTS_HASH).setKeyPairAddress idx
  let (node, msg) ← wotsPkFromSig sha256 p pkSeed adrs wotsSig m
  let adrs := (adrs.setTypeAndClear TREE).setTreeIndex idx
  let root := auth.zipIdx.foldl (fun node (sibling, k) =>
    let adrs := (adrs.setTreeHeight (k + 1)).setTreeIndex (idx >>> (k + 1))
    if (idx >>> k) &&& 1 = 0 then hash sha256 pkSeed adrs [node.bytes, sibling.bytes]
    else hash sha256 pkSeed adrs [sibling.bytes, node.bytes]) node
  some (root, msg)

/-- One FORS tree: from the opened value and its path to the root. -/
def forsRootFromSig (p : Params) (pkSeed : Hash) (adrs : Adrs) (fors : List Hash) (i idx : ℕ) : Option Hash := do
  let group := i * (1 + p.a)
  let sk ← fors[group]?
  let auth ← sub? fors (group + 1) (group + 1 + p.a)
  let leafIndex := i <<< p.a + idx
  let node := hash sha256 pkSeed ((adrs.setTreeHeight 0).setTreeIndex leafIndex) [sk.bytes]
  some <| auth.zipIdx.foldl (fun node (sibling, j) =>
    let adrs := (adrs.setTreeHeight (j + 1)).setTreeIndex (leafIndex >>> (j + 1))
    if (idx >>> j) &&& 1 = 0 then hash sha256 pkSeed adrs [node.bytes, sibling.bytes]
    else hash sha256 pkSeed adrs [sibling.bytes, node.bytes]) node

/-- The FORS public key that the opened values lead to, behind the indices and the roots. -/
def forsPkFromSig (p : Params) (pkSeed : Hash) (adrs : Adrs) (fors : List Hash) (md : Bytes) :
    Option (List ℕ × List Hash × Hash) := do
  let indices ← base2b md p.a p.k
  let forsRoots ← indices.zipIdx.mapM fun (idx, i) => forsRootFromSig sha256 p pkSeed adrs fors i idx
  let rootsAdrs := (adrs.setTypeAndClear FORS_ROOTS).setKeyPairAddress adrs.keyPairAddress
  some (indices, forsRoots, hash sha256 pkSeed rootsAdrs (forsRoots.map Block.bytes))

/-- The address of a tree of the hypertree. -/
def layerAdrs (layer tree : ℕ) : Adrs := (Adrs.new.setLayer layer).setTreeAddress tree

/-- The address of the FORS trees below a position of the hypertree. -/
def forsAdrs (idxTree idxLeaf : ℕ) : Adrs :=
  ((Adrs.new.setTreeAddress idxTree).setTypeAndClear FORS_TREE).setKeyPairAddress idxLeaf

/-- The tree and the leaf of a layer, from those of the layer below it. -/
def nextPosition (p : Params) (layer tree leaf : ℕ) : ℕ × ℕ :=
  if layer > 0 then (tree >>> p.hp, (tree &&& (1 <<< p.hp - 1)) % 2 ^ 32) else (tree, leaf)

/-- The loop of the verifier over the layers. -/
structure Climb where
  tree : ℕ
  leaf : ℕ
  node : Hash
  layerAddresses : List (ℕ × ℕ)
  wotsMessages : List (List ℕ)
  nodes : List Hash

/-- One layer of the hypertree. -/
def verifyLayer (pk : PublicKey) (sig : Signature) (s : Climb) (layer : ℕ) : Option Climb := do
  let (tree, leaf) := nextPosition sig.p layer s.tree s.leaf
  let (wotsSig, auth) ← sig.htLayer layer
  let (next, msg) ← xmssPkFromSig sha256 sig.p pk.seed (layerAdrs layer tree) leaf wotsSig auth s.node
  some
    { tree, leaf, node := next
      layerAddresses := s.layerAddresses ++ [(tree, leaf)]
      wotsMessages := s.wotsMessages ++ [msg]
      nodes := s.nodes ++ [next] }

/-- Verify, with every intermediate value. -/
def verifyTraced (pk : PublicKey) (sig : Signature) (message : Bytes) : Option Trace := do
  let p := sig.p
  let digest ← hMsg sha256 p sig.randomness pk (contextPrefixed message)
  let (md, idxTree, idxLeaf) ← splitDigest p digest
  let (forsIndices, forsRoots, pkFors) ←
    forsPkFromSig sha256 p pk.seed (forsAdrs idxTree idxLeaf) sig.fors md
  let s ← (List.range p.d).foldlM (verifyLayer sha256 pk sig)
    { tree := idxTree, leaf := idxLeaf, node := pkFors, layerAddresses := [], wotsMessages := [], nodes := [pkFors] }
  some
    { p, digest, idxTree, idxLeaf, forsIndices, forsRoots, pkFors
      layerAddresses := s.layerAddresses, wotsMessages := s.wotsMessages, nodes := s.nodes, root := s.node }

/-- Verify. -/
def verify (pk : PublicKey) (sig : Signature) (message : Bytes) : Option Bool :=
  (verifyTraced sha256 pk sig message).map fun trace => trace.root = pk.root

/-! ### What is computed -/

/-- The parts of a signature, by their positions. -/
structure SigParts where
  randomness : Hash
  /-- The opened value of each FORS tree. -/
  sk : ℕ → Hash
  forsAuth : ℕ → ℕ → Hash
  /-- The one-time signature of each layer. -/
  wots : ℕ → ℕ → Hash
  auth : ℕ → ℕ → Hash

/-- The parts of a signature, from its elements in the order they are stored. -/
def SigParts.ofElements (p : Params) (element : ℕ → Hash) : SigParts where
  randomness := element 0
  sk i := element (1 + i * (1 + p.a))
  forsAuth i j := element (1 + (i * (1 + p.a) + 1 + j))
  wots layer i := element (1 + p.k * (1 + p.a) + (layer * (p.len + p.hp) + i))
  auth layer i := element (1 + p.k * (1 + p.a) + (layer * (p.len + p.hp) + p.len + i))

/-- The groups of a FORS signature. -/
structure ForsHas (p : Params) (fors : List Hash) (sk : ℕ → Hash) (auth : ℕ → ℕ → Hash) : Prop where
  sk_eq : ∀ i < p.k, fors[i * (1 + p.a)]? = some (sk i)
  auth_eq : ∀ i < p.k, sub? fors (i * (1 + p.a) + 1) (i * (1 + p.a) + 1 + p.a) = some ((List.range p.a).map (auth i))

/-- The parts of a signature are these. -/
structure Signature.Has (sig : Signature) (parts : SigParts) : Prop where
  randomness_eq : sig.randomness = parts.randomness
  fors : ForsHas sig.p sig.fors parts.sk parts.forsAuth
  layer_eq : ∀ j < sig.p.d,
    sig.htLayer j = some ((List.range sig.p.len).map (parts.wots j), (List.range sig.p.hp).map (parts.auth j))

section values

variable (p : Params) (pkSeed : Hash)

/-- A one-time public key, from the ends of its chains. -/
def wotsPk (adrs : Adrs) (z : ℕ → Hash) : Hash :=
  hash sha256 pkSeed ((adrs.setTypeAndClear WOTS_PK).setKeyPairAddress adrs.keyPairAddress)
    ((List.range p.len).map fun i => (z i).bytes)

/-- The end of chain `i`, from a signature of `m`. -/
def wotsEnd (adrs : Adrs) (sig : ℕ → Hash) (m : Hash) (i : ℕ) : Hash :=
  chain sha256 pkSeed (adrs.setChainAddress i) (sig i) (wotsDigit p m i) (p.w - 1 - wotsDigit p m i)

/-- The address of a one-time key. -/
def wotsAdrs (layer tree kp : ℕ) : Adrs := ((layerAdrs layer tree).setTypeAndClear WOTS_HASH).setKeyPairAddress kp

/-- The node above two nodes of a tree of the hypertree. -/
def xmssNode (layer tree height index : ℕ) (left right : Hash) : Hash :=
  hash sha256 pkSeed ((((layerAdrs layer tree).setTypeAndClear TREE).setTreeHeight height).setTreeIndex index)
    [left.bytes, right.bytes]

/-- The root of a tree of the hypertree that a signature of `m` leads to. -/
def xmssRoot (layer tree idx : ℕ) (sig auth : ℕ → Hash) (m : Hash) : Hash :=
  climb (xmssNode sha256 pkSeed layer tree) idx auth
    (wotsPk sha256 p pkSeed (wotsAdrs layer tree idx) (wotsEnd sha256 p pkSeed (wotsAdrs layer tree idx) sig m)) p.hp

/-- The node above two nodes of FORS tree `i`, whose indices go on from tree to tree. -/
def forsNode (idxTree idxLeaf i height index : ℕ) (left right : Hash) : Hash :=
  hash sha256 pkSeed (((forsAdrs idxTree idxLeaf).setTreeHeight height).setTreeIndex (i <<< (p.a - height) + index))
    [left.bytes, right.bytes]

/-- A leaf of a FORS tree. -/
def forsLeaf (idxTree idxLeaf index : ℕ) (sk : Hash) : Hash :=
  hash sha256 pkSeed (((forsAdrs idxTree idxLeaf).setTreeHeight 0).setTreeIndex index) [sk.bytes]

/-- Which leaf of FORS tree `i` is opened. -/
def forsIndex (md : Bytes) (i : ℕ) : ℕ := bitField md (p.a * i) p.a

/-- The root of FORS tree `i`, opened at `idx`. -/
def forsRoot (idxTree idxLeaf i idx : ℕ) (sk : Hash) (auth : ℕ → Hash) : Hash :=
  climb (forsNode sha256 p pkSeed idxTree idxLeaf i) idx auth
    (forsLeaf sha256 pkSeed idxTree idxLeaf (i <<< p.a + idx) sk) p.a

/-- The FORS public key, from the roots. -/
def forsPk (idxTree idxLeaf : ℕ) (root : ℕ → Hash) : Hash :=
  hash sha256 pkSeed (((forsAdrs idxTree idxLeaf).setTypeAndClear FORS_ROOTS).setKeyPairAddress idxLeaf)
    ((List.range p.k).map fun i => (root i).bytes)

/-- The tree of a layer. -/
def treeAt (idxTree : ℕ) : ℕ → ℕ
  | 0 => idxTree
  | layer + 1 => idxTree / 2 ^ (p.hp * (layer + 1))

/-- The leaf of a layer. -/
def leafAt (idxTree idxLeaf : ℕ) : ℕ → ℕ
  | 0 => idxLeaf
  | layer + 1 => treeAt p idxTree layer % 2 ^ p.hp

/-- The node that enters a layer, given the one that enters the hypertree. -/
def hypertreeNode (parts : SigParts) (idxTree idxLeaf : ℕ) (pkFors : Hash) : ℕ → Hash
  | 0 => pkFors
  | layer + 1 => xmssRoot sha256 p pkSeed layer (treeAt p idxTree layer) (leafAt p idxTree idxLeaf layer)
      (parts.wots layer) (parts.auth layer) (hypertreeNode parts idxTree idxLeaf pkFors layer)

end values

/-- The message digest. -/
def messageDigest (p : Params) (r : Hash) (pk : PublicKey) (message : Bytes) : Bytes :=
  (sha256 (r.bytes ++ pk.seed.bytes ++
    (sha256 (r.bytes ++ pk.seed.bytes ++ pk.root.bytes ++ contextPrefixed message)).bytes ++ beBytes 4 0)).bytes.take p.m

/-- The intermediate values of a verification. -/
def trace (p : Params) (pk : PublicKey) (parts : SigParts) (message : Bytes) : Trace :=
  let digest := messageDigest sha256 p parts.randomness pk message
  let t := treeIndex p digest
  let l := leafIndex p digest
  let idx := forsIndex p (digest.take p.mdLen)
  let root i := forsRoot sha256 p pk.seed t l i (idx i) (parts.sk i) (parts.forsAuth i)
  let pkFors := forsPk sha256 p pk.seed t l root
  let node := hypertreeNode sha256 p pk.seed parts t l pkFors
  { p, digest, idxTree := t, idxLeaf := l
    forsIndices := (List.range p.k).map idx
    forsRoots := (List.range p.k).map root
    pkFors
    layerAddresses := (List.range p.d).map fun j => (treeAt p t j, leafAt p t l j)
    wotsMessages := (List.range p.d).map fun j => (List.range p.len).map (wotsDigit p (node j))
    nodes := (List.range (p.d + 1)).map node
    root := node p.d }

/-! ### Parsing -/

variable {p : Params}

theorem length_chunksExact (bytes : Bytes) : (chunksExact bytes).length = bytes.length / N := by simp [chunksExact]

/-- The `i`-th element of a string. -/
def element (bytes : Bytes) (i : ℕ) : Hash := (chunksExact bytes).getD i default

theorem bytes_element {bytes : Bytes} {i : ℕ} (h : (i + 1) * N ≤ bytes.length) :
    (element bytes i).bytes = slice bytes (i * N) ((i + 1) * N) := by
  have hi : i < bytes.length / N := (Nat.le_div_iff_mul_le (by norm_num [N])).mpr h
  rw [element, List.getD_eq_getElem _ _ (by rwa [length_chunksExact])]
  simp [chunksExact]

theorem length_flatMap_bytes (elems : List Hash) : (elems.flatMap Block.bytes).length = elems.length * N := by
  simp [List.length_flatMap]

/-- Elements put together are taken apart again. -/
theorem chunksExact_flatMap (elems : List Hash) : chunksExact (elems.flatMap Block.bytes) = elems := by
  have hlen := length_flatMap_bytes elems
  have hmap : elems.flatMap Block.bytes = (List.range elems.length).flatMap fun i => (elems.getD i default).bytes := by
    conv_lhs => rw [eq_map_range elems, List.flatMap_map]
  refine List.ext_getElem ?_ fun i hi hi' => ?_
  · rw [length_chunksExact, hlen, Nat.mul_div_cancel _ (by norm_num [N])]
  · have hel : (element (elems.flatMap Block.bytes) i).bytes = elems[i].bytes := by
      rw [bytes_element (by rw [hlen]; exact Nat.mul_le_mul_right N hi'), hmap,
        slice_flatMap_range (fun _ => Block.length_bytes _) hi', List.getD_eq_getElem _ _ hi']
    rw [← Block.ext hel, element, List.getD_eq_getElem _ _ hi]

theorem Params.Facts.sigElements_eq (hp : p.Facts) :
    p.sigElements = 1 + p.k * (1 + p.a) + p.d * (p.len + p.hp) := by
  rw [Params.sigElements, hp.h_eq]
  ring

theorem Params.Facts.sigLen_div (hp : p.Facts) : p.sigLen / N = p.sigElements := by
  rw [Params.sigLen, hp.n_eq, Nat.mul_div_cancel _ (by norm_num [N])]

/-- **A string of the right length is a signature**: its elements, cut in three. -/
theorem fromBytes_eq (hp : p.Facts) {bytes : Bytes} (hlen : bytes.length = p.sigLen) :
    Signature.fromBytes p bytes = some (.ok
      { p
        randomness := element bytes 0
        fors := slice (chunksExact bytes) 1 (1 + p.k * (1 + p.a))
        ht := slice (chunksExact bytes) (1 + p.k * (1 + p.a)) p.sigElements }) := by
  have hcount : (chunksExact bytes).length = p.sigElements := by rw [length_chunksExact, hlen, hp.sigLen_div]
  have hsplit := hp.sigElements_eq
  have hpos : 0 < (chunksExact bytes).length := by omega
  have hfirst : (chunksExact bytes)[0]? = some (element bytes 0) := by
    rw [element, List.getD_eq_getElem _ _ hpos, List.getElem?_eq_getElem hpos]
  rw [Signature.fromBytes, if_pos hlen]
  simp only [Option.bind_eq_bind]
  rw [hfirst, Option.bind_some, sub?_eq (by omega) (by omega), Option.bind_some, sub?_eq (by omega) le_rfl,
    Option.bind_some, hcount]

theorem fromBytes_error {bytes : Bytes} (hlen : bytes.length ≠ p.sigLen) :
    Signature.fromBytes p bytes = some (.error (signatureLengthError p bytes)) := if_neg hlen

/-- **Serialising and parsing.** -/
theorem fromBytes_toBytes {sig : Signature} (hp : sig.p.Facts) (hfors : sig.fors.length = sig.p.k * (1 + sig.p.a))
    (hht : sig.ht.length = sig.p.d * (sig.p.len + sig.p.hp)) :
    sig.toBytes.length = sig.p.sigLen ∧ Signature.fromBytes sig.p sig.toBytes = some (.ok sig) := by
  have hbytes : sig.toBytes = (sig.randomness :: (sig.fors ++ sig.ht)).flatMap Block.bytes := by
    rw [Signature.toBytes, List.flatMap_cons]
  have hchunks : chunksExact sig.toBytes = sig.randomness :: (sig.fors ++ sig.ht) := by rw [hbytes, chunksExact_flatMap]
  have hlen : sig.toBytes.length = sig.p.sigLen := by
    rw [hbytes, length_flatMap_bytes, List.length_cons, List.length_append, hfors, hht, Params.sigLen,
      hp.sigElements_eq, hp.n_eq]
    ring
  refine ⟨hlen, ?_⟩
  rw [fromBytes_eq hp hlen, element, hchunks]
  have hcut : slice (sig.randomness :: (sig.fors ++ sig.ht)) 1 (1 + sig.p.k * (1 + sig.p.a)) = sig.fors := by
    rw [slice, Nat.add_comm 1, List.take_succ_cons, List.drop_succ_cons, List.drop_zero, ← hfors, List.take_left]
  have hrest : slice (sig.randomness :: (sig.fors ++ sig.ht)) (1 + sig.p.k * (1 + sig.p.a)) sig.p.sigElements =
      sig.ht := by
    rw [slice, List.take_of_length_le, Nat.add_comm 1, List.drop_succ_cons, ← hfors, List.drop_left]
    rw [List.length_cons, List.length_append, hfors, hht, hp.sigElements_eq]
    omega
  rw [hcut, hrest]
  rfl

theorem mul_add_le {i n b r : ℕ} (hi : i < n) (hr : r ≤ b) : i * b + r ≤ n * b := by
  have := Nat.mul_le_mul_right b hi
  rw [Nat.succ_mul] at this
  omega

/-- The groups of a FORS signature that is given element by element. -/
theorem forsHas_map_range (f : ℕ → Hash) :
    ForsHas p ((List.range (p.k * (1 + p.a))).map f) (fun i => f (i * (1 + p.a)))
      fun i j => f (i * (1 + p.a) + 1 + j) := by
  refine ⟨fun i hi => ?_, fun i hi => ?_⟩
  · have := mul_add_le (b := 1 + p.a) hi le_rfl
    exact getElem?_map_range (by omega) f
  · have := mul_add_le (b := 1 + p.a) hi le_rfl
    rw [sub?_eq (by omega) (by rw [List.length_map, List.length_range]; omega), slice_map_range (by omega),
      Nat.add_sub_cancel_left]

/-- The layers of a hypertree signature that is given element by element. -/
theorem htLayer_map_range {sig : Signature} {f : ℕ → Hash}
    (hht : sig.ht = (List.range (sig.p.d * (sig.p.len + sig.p.hp))).map f) {j : ℕ} (hj : j < sig.p.d) :
    sig.htLayer j = some
      ((List.range sig.p.len).map fun i => f (j * (sig.p.len + sig.p.hp) + i),
        (List.range sig.p.hp).map fun i => f (j * (sig.p.len + sig.p.hp) + sig.p.len + i)) := by
  have hle := mul_add_le (b := sig.p.len + sig.p.hp) hj le_rfl
  have hlen : sig.ht.length = sig.p.d * (sig.p.len + sig.p.hp) := by rw [hht, List.length_map, List.length_range]
  simp only [Signature.htLayer, Option.bind_eq_bind]
  rw [sub?_eq (by omega) (by omega), Option.bind_some, sub?_eq (by omega) (by omega), Option.bind_some, hht,
    slice_map_range (by omega), slice_map_range (by omega), Nat.add_sub_cancel_left, Nat.add_sub_cancel_left]

/-- **The parts of a parsed signature** are its elements, in the order they are stored. -/
theorem has_of_fromBytes (hp : p.Facts) {bytes : Bytes} (hlen : bytes.length = p.sigLen) {sig : Signature}
    (h : Signature.fromBytes p bytes = some (.ok sig)) : sig.p = p ∧ sig.Has (.ofElements p (element bytes)) := by
  rw [fromBytes_eq hp hlen] at h
  cases h
  have hcount : (chunksExact bytes).length = p.sigElements := by rw [length_chunksExact, hlen, hp.sigLen_div]
  have hsplit := hp.sigElements_eq
  have helems : chunksExact bytes = (List.range p.sigElements).map (element bytes) := by
    conv_lhs => rw [eq_map_range (chunksExact bytes), hcount]
    rfl
  refine ⟨rfl, rfl, ?_, fun j hj => ?_⟩
  · rw [helems, slice_map_range (by omega), Nat.add_sub_cancel_left]
    exact forsHas_map_range fun i => element bytes (1 + i)
  · refine htLayer_map_range (f := fun i => element bytes (1 + p.k * (1 + p.a) + i)) ?_ hj
    rw [helems, slice_map_range le_rfl, hsplit, Nat.add_sub_cancel_left]

/-! ### The functions compute these values -/

theorem length_messageDigest (hp : p.Facts) (r : Hash) (pk : PublicKey) (message : Bytes) :
    (messageDigest sha256 p r pk message).length = p.m := by
  rw [messageDigest, List.length_take, Block.length_bytes, Nat.min_eq_left hp.m_le]

theorem hMsg_eq (hp : p.Facts) (r : Hash) (pk : PublicKey) (message : Bytes) :
    hMsg sha256 p r pk (contextPrefixed message) = some (messageDigest sha256 p r pk message) := by
  rw [hMsg, sub?_eq (Nat.zero_le _) (by rw [Block.length_bytes]; exact hp.m_le), slice_zero, messageDigest]

section chain

variable (pkSeed : Hash) (adrs : Adrs) (x : Hash)

@[simp] theorem chain_zero (i : ℕ) : chain sha256 pkSeed adrs x i 0 = x := rfl

theorem chain_succ (i s : ℕ) : chain sha256 pkSeed adrs x i (s + 1) =
    hash sha256 pkSeed (adrs.setHashAddress (i + s)) [(chain sha256 pkSeed adrs x i s).bytes] := by
  rw [chain, List.range'_concat, List.foldl_append, Nat.one_mul]
  rfl

/-- A chain is walked in parts. -/
theorem chain_chain (i s t : ℕ) :
    chain sha256 pkSeed adrs (chain sha256 pkSeed adrs x i s) (i + s) t = chain sha256 pkSeed adrs x i (s + t) := by
  rw [chain, chain, chain, ← List.foldl_append]
  congr 1
  exact List.range'_append_1

end chain

/-- A loop over a path is a climb. -/
theorem foldl_climb (node : ℕ → ℕ → Hash → Hash → Hash) (t : ℕ) {n : ℕ} {auth : ℕ → Hash} {f : Hash → Hash × ℕ → Hash}
    (hf : ∀ j < n, ∀ v, f v (auth j, j) =
      if (t >>> j) % 2 = 0 then node (j + 1) (t >>> (j + 1)) v (auth j) else node (j + 1) (t >>> (j + 1)) (auth j) v)
    (x : Hash) : ((List.range n).map auth).zipIdx.foldl f x = climb node t auth x n := by
  rw [zipIdx_map_range, List.foldl_map]
  exact foldl_range_eq (climb node t auth x) fun j hj => hf j hj _

theorem wotsPkFromSig_eq (hp : p.Facts) (pkSeed : Hash) (adrs : Adrs) (sig : ℕ → Hash) (m : Hash) :
    wotsPkFromSig sha256 p pkSeed adrs ((List.range p.len).map sig) m =
      some (wotsPk sha256 p pkSeed adrs (wotsEnd sha256 p pkSeed adrs sig m), (List.range p.len).map (wotsDigit p m)) := by
  have hends : ((List.range p.len).map fun i => (wotsDigit p m i, i)).mapM (fun (digit, i) => do
      let x ← ((List.range p.len).map sig)[i]?
      some (chain sha256 pkSeed (adrs.setChainAddress i) x digit (p.w - 1 - digit))) =
        some ((List.range p.len).map (wotsEnd sha256 p pkSeed adrs sig m)) := by
    rw [mapM_eq_some (g := fun x => wotsEnd sha256 p pkSeed adrs sig m x.2), List.map_map]
    · rfl
    · intro x hx
      obtain ⟨i, hi, rfl⟩ := List.mem_map.mp hx
      change (((List.range p.len).map sig)[i]?).bind _ = _
      rw [getElem?_map_range (List.mem_range.mp hi)]
      rfl
  rw [wotsPkFromSig, wotsMessage_eq hp]
  simp only [Option.bind_eq_bind, Option.bind_some, zipIdx_map_range] at hends ⊢
  rw [hends, Option.bind_some, List.map_map]
  rfl

theorem xmssPkFromSig_eq (hp : p.Facts) (pkSeed : Hash) (layer tree idx : ℕ) (sig auth : ℕ → Hash) (m : Hash) :
    xmssPkFromSig sha256 p pkSeed (layerAdrs layer tree) idx ((List.range p.len).map sig)
        ((List.range p.hp).map auth) m =
      some (xmssRoot sha256 p pkSeed layer tree idx sig auth m, (List.range p.len).map (wotsDigit p m)) := by
  rw [xmssPkFromSig, wotsPkFromSig_eq sha256 hp]
  simp only [Option.bind_eq_bind, Option.bind_some]
  rw [foldl_climb (xmssNode sha256 pkSeed layer tree) idx]
  · rfl
  · intro j _ v
    rw [Nat.and_one_is_mod]
    rfl

/-- The index of the node above a leaf of a FORS tree: over all trees, and in its own. -/
theorem forsIndex_shiftRight {a j : ℕ} (hj : j < a) (i idx : ℕ) :
    (i <<< a + idx) / 2 ^ (j + 1) = i <<< (a - (j + 1)) + idx >>> (j + 1) := by
  obtain ⟨r, rfl⟩ : ∃ r, a = r + (j + 1) := ⟨a - (j + 1), by omega⟩
  rw [Nat.add_sub_cancel, Nat.shiftLeft_eq, Nat.shiftLeft_eq, pow_add, ← Nat.mul_assoc, Nat.shiftRight_eq_div_pow,
    Nat.add_comm, Nat.add_mul_div_right _ _ (Nat.two_pow_pos _), Nat.add_comm]

theorem forsRootFromSig_eq (pkSeed : Hash) (idxTree idxLeaf idx : ℕ) {fors : List Hash} {sk : ℕ → Hash}
    {auth : ℕ → ℕ → Hash} (h : ForsHas p fors sk auth) {i : ℕ} (hi : i < p.k) :
    forsRootFromSig sha256 p pkSeed (forsAdrs idxTree idxLeaf) fors i idx =
      some (forsRoot sha256 p pkSeed idxTree idxLeaf i idx (sk i) (auth i)) := by
  rw [forsRootFromSig, h.sk_eq i hi, h.auth_eq i hi]
  simp only [Option.bind_eq_bind, Option.bind_some]
  rw [foldl_climb (forsNode sha256 p pkSeed idxTree idxLeaf i) idx]
  · rfl
  · intro j hj v
    rw [Nat.and_one_is_mod, Nat.shiftRight_eq_div_pow (i <<< p.a + idx), forsIndex_shiftRight hj]
    rfl

/-- The leaves that a digest opens. -/
theorem base2b_forsIndex (hp : p.Facts) {md : Bytes} (hmd : md.length = p.mdLen) :
    base2b md p.a p.k = some ((List.range p.k).map (forsIndex p md)) := by
  refine base2b_eq (hp.a_le.trans (by norm_num)) ?_
  rw [hmd, Nat.mul_comm]
  exact hp.fors_bits

theorem forsPkFromSig_eq (hp : p.Facts) (pkSeed : Hash) (idxTree idxLeaf : ℕ) {fors : List Hash} {sk : ℕ → Hash}
    {auth : ℕ → ℕ → Hash} (h : ForsHas p fors sk auth) {md : Bytes} (hmd : md.length = p.mdLen) :
    forsPkFromSig sha256 p pkSeed (forsAdrs idxTree idxLeaf) fors md =
      some ((List.range p.k).map (forsIndex p md),
        (List.range p.k).map fun i =>
          forsRoot sha256 p pkSeed idxTree idxLeaf i (forsIndex p md i) (sk i) (auth i),
        forsPk sha256 p pkSeed idxTree idxLeaf fun i =>
          forsRoot sha256 p pkSeed idxTree idxLeaf i (forsIndex p md i) (sk i) (auth i)) := by
  rw [forsPkFromSig, base2b_forsIndex hp hmd]
  simp only [Option.bind_eq_bind, Option.bind_some, zipIdx_map_range]
  rw [mapM_eq_some (g := fun x => forsRoot sha256 p pkSeed idxTree idxLeaf x.2 x.1 (sk x.2) (auth x.2))]
  · rw [Option.bind_some, List.map_map, List.map_map]
    rfl
  · intro x hx
    obtain ⟨i, hi, rfl⟩ := List.mem_map.mp hx
    exact forsRootFromSig_eq sha256 pkSeed idxTree idxLeaf _ h (List.mem_range.mp hi)

theorem treeAt_eq (idxTree layer : ℕ) : treeAt p idxTree layer = idxTree / 2 ^ (p.hp * layer) := by
  cases layer with
  | zero => rw [Nat.mul_zero, pow_zero, Nat.div_one, treeAt]
  | succ layer => rfl

theorem treeAt_succ (idxTree layer : ℕ) : treeAt p idxTree (layer + 1) = treeAt p idxTree layer / 2 ^ p.hp := by
  rw [treeAt_eq, treeAt_eq, Nat.mul_succ, pow_add, Nat.div_div_eq_div_mul]

/-- The position of the next layer. -/
theorem nextPosition_eq (hp : p.Facts) (idxTree idxLeaf layer : ℕ) :
    nextPosition p layer (treeAt p idxTree (layer - 1)) (leafAt p idxTree idxLeaf (layer - 1)) =
      (treeAt p idxTree layer, leafAt p idxTree idxLeaf layer) := by
  have hsmall : 2 ^ p.hp ≤ 2 ^ 32 := Nat.pow_le_pow_right (by norm_num) (hp.hp_le.trans (by norm_num))
  unfold nextPosition
  cases layer with
  | zero => rfl
  | succ layer =>
    rw [if_pos layer.succ_pos, Nat.add_sub_cancel, Nat.one_shiftLeft, Nat.and_two_pow_sub_one_eq_mod,
      Nat.mod_eq_of_lt ((Nat.mod_lt _ (Nat.two_pow_pos _)).trans_le hsmall), treeAt_succ, leafAt,
      Nat.shiftRight_eq_div_pow]

/-- **The trace of a verification.** -/
theorem verifyTraced_eq {sig : Signature} (hp : sig.p.Facts) {parts : SigParts} (h : sig.Has parts) (pk : PublicKey)
    (message : Bytes) : verifyTraced sha256 pk sig message = some (trace sha256 sig.p pk parts message) := by
  set digest := messageDigest sha256 sig.p sig.randomness pk message with hdigest
  have hlen : digest.length = sig.p.m := length_messageDigest sha256 hp _ _ _
  have hmd : (digest.take sig.p.mdLen).length = sig.p.mdLen := by
    have := hp.m_eq
    rw [List.length_take, hlen]
    omega
  set t := treeIndex sig.p digest
  set l := leafIndex sig.p digest
  set pkFors := forsPk sha256 sig.p pk.seed t l fun i => forsRoot sha256 sig.p pk.seed t l i
    (forsIndex sig.p (digest.take sig.p.mdLen) i) (parts.sk i) (parts.forsAuth i) with hpkFors
  set node := hypertreeNode sha256 sig.p pk.seed parts t l pkFors with hnode
  have hlayers : (List.range sig.p.d).foldlM (verifyLayer sha256 pk sig)
      { tree := t, leaf := l, node := pkFors, layerAddresses := [], wotsMessages := [], nodes := [pkFors] } = some
        { tree := treeAt sig.p t (sig.p.d - 1), leaf := leafAt sig.p t l (sig.p.d - 1), node := node sig.p.d
          layerAddresses := (List.range sig.p.d).map fun j => (treeAt sig.p t j, leafAt sig.p t l j)
          wotsMessages := (List.range sig.p.d).map fun j => (List.range sig.p.len).map (wotsDigit sig.p (node j))
          nodes := (List.range (sig.p.d + 1)).map node } := by
    have hfold := foldlM_range_eq_some (n := sig.p.d) (f := verifyLayer sha256 pk sig) (fun j =>
      { tree := treeAt sig.p t (j - 1), leaf := leafAt sig.p t l (j - 1), node := node j
        layerAddresses := (List.range j).map fun j => (treeAt sig.p t j, leafAt sig.p t l j)
        wotsMessages := (List.range j).map fun j => (List.range sig.p.len).map (wotsDigit sig.p (node j))
        nodes := (List.range (j + 1)).map node }) fun j hj => by
      rw [verifyLayer, nextPosition_eq hp, h.layer_eq j hj]
      simp only [Option.bind_eq_bind, Option.bind_some]
      rw [xmssPkFromSig_eq sha256 hp]
      simp only [Option.bind_some, List.range_succ, List.map_append, List.map_cons, List.map_nil, Nat.add_sub_cancel]
      rfl
    simpa [treeAt, leafAt, hnode, hypertreeNode] using hfold
  rw [verifyTraced, hMsg_eq sha256 hp, ← hdigest]
  simp only [Option.bind_eq_bind, Option.bind_some, splitDigest_eq hp hlen, forsPkFromSig_eq sha256 hp _ _ _ h.fors hmd]
  rw [hlayers, Option.bind_some, trace, ← h.randomness_eq]

/-- **Whether a signature is accepted.** -/
theorem verify_eq {sig : Signature} (hp : sig.p.Facts) {parts : SigParts} (h : sig.Has parts) (pk : PublicKey)
    (message : Bytes) :
    verify sha256 pk sig message = some (decide ((trace sha256 sig.p pk parts message).root = pk.root)) := by
  rw [verify, verifyTraced_eq sha256 hp h, Option.map_some]

end KaspaPqv.SlhScript
