import KaspaPqv.SlhScript.Reference

/-!
# Positions of hashes

Where a hash of SLH-DSA can sit: on a step of a chain, above the chains of a one-time key,
at a node of a tree of the hypertree, at a leaf or a node of a FORS tree, above the FORS
roots, or at one of the two kinds of secret values. Each kind has its own coordinates, and
`Position.adrs` is the address that signer and verifier build from them.

## What is proved

* `Position.adrs_inj` — no two positions have the same compressed address.
* `wotsPk_adrs`, `xmssNode_adrs`, ... — the values of a verification are hashes at the addresses of
  these positions.
* `keyPairInRange_at` — the key pairs on the way up from a position of the hypertree are in range.
-/

namespace KaspaPqv.SlhScript

open KaspaPqv.Lib

/-- A position of a hash. -/
inductive Position where
  /-- Step `j` of chain `i` of a one-time key. -/
  | chainStep (layer tree kp i j : ℕ)
  /-- The public key of a one-time key. -/
  | wotsPk (layer tree kp : ℕ)
  /-- A node of a tree of the hypertree. -/
  | xmssNode (layer tree height index : ℕ)
  /-- A node of FORS tree `i`, at height 0 a leaf. -/
  | forsNode (tree kp i height index : ℕ)
  | forsRoots (tree kp : ℕ)
  /-- The secret value of chain `i`. -/
  | wotsSecret (layer tree kp i : ℕ)
  /-- The secret value of a leaf of FORS tree `i`. -/
  | forsSecret (tree kp i leaf : ℕ)
  deriving DecidableEq

namespace Position

/-- The address of a position, as signer and verifier set it. -/
def adrs (p : Params) : Position → Adrs
  | chainStep layer tree kp i j => ((wotsAdrs layer tree kp).setChainAddress i).setHashAddress j
  | wotsPk layer tree kp => ((wotsAdrs layer tree kp).setTypeAndClear WOTS_PK).setKeyPairAddress kp
  | xmssNode layer tree height index =>
    (((layerAdrs layer tree).setTypeAndClear TREE).setTreeHeight height).setTreeIndex index
  | forsNode tree kp i height index =>
    ((forsAdrs tree kp).setTreeHeight height).setTreeIndex (i <<< (p.a - height) + index)
  | forsRoots tree kp => ((forsAdrs tree kp).setTypeAndClear FORS_ROOTS).setKeyPairAddress kp
  | wotsSecret layer tree kp i =>
    (((layerAdrs layer tree).setTypeAndClear WOTS_PRF).setKeyPairAddress kp).setChainAddress i
  | forsSecret tree kp i leaf =>
    (((forsAdrs tree kp).setTypeAndClear FORS_PRF).setKeyPairAddress kp).setTreeIndex (i <<< p.a + leaf)

theorem adrs_chainStep (p : Params) (layer tree kp i j : ℕ) :
    adrs p (chainStep layer tree kp i j) = ⟨layer, tree, WOTS_HASH, kp, i, j⟩ := rfl

theorem adrs_wotsPk (p : Params) (layer tree kp : ℕ) :
    adrs p (wotsPk layer tree kp) = ⟨layer, tree, WOTS_PK, kp, 0, 0⟩ := rfl

theorem adrs_xmssNode (p : Params) (layer tree height index : ℕ) :
    adrs p (xmssNode layer tree height index) = ⟨layer, tree, TREE, 0, height, index⟩ := rfl

theorem adrs_forsNode (p : Params) (tree kp i height index : ℕ) :
    adrs p (forsNode tree kp i height index) = ⟨0, tree, FORS_TREE, kp, height, i <<< (p.a - height) + index⟩ := rfl

theorem adrs_forsRoots (p : Params) (tree kp : ℕ) : adrs p (forsRoots tree kp) = ⟨0, tree, FORS_ROOTS, kp, 0, 0⟩ := rfl

theorem adrs_wotsSecret (p : Params) (layer tree kp i : ℕ) :
    adrs p (wotsSecret layer tree kp i) = ⟨layer, tree, WOTS_PRF, kp, i, 0⟩ := rfl

theorem adrs_forsSecret (p : Params) (tree kp i leaf : ℕ) :
    adrs p (forsSecret tree kp i leaf) = ⟨0, tree, FORS_PRF, kp, 0, i <<< p.a + leaf⟩ := rfl

/-- A key pair of the hypertree: each layer has `2 ^ hp` times fewer trees than the one below. -/
def KeyPairInRange (p : Params) (layer tree kp : ℕ) : Prop :=
  layer < p.d ∧ tree < 2 ^ (p.hp * (p.d - 1 - layer)) ∧ kp < 2 ^ p.hp

/-- The positions that a key has. -/
def InRange (p : Params) : Position → Prop
  | chainStep layer tree kp i j => KeyPairInRange p layer tree kp ∧ i < p.len ∧ j < p.w - 1
  | wotsPk layer tree kp => KeyPairInRange p layer tree kp
  | xmssNode layer tree height index =>
    layer < p.d ∧ tree < 2 ^ (p.hp * (p.d - 1 - layer)) ∧ 1 ≤ height ∧ height ≤ p.hp ∧ index < 2 ^ (p.hp - height)
  | forsNode tree kp i height index =>
    KeyPairInRange p 0 tree kp ∧ i < p.k ∧ height ≤ p.a ∧ index < 2 ^ (p.a - height)
  | forsRoots tree kp => KeyPairInRange p 0 tree kp
  | wotsSecret layer tree kp i => KeyPairInRange p layer tree kp ∧ i < p.len
  | forsSecret tree kp i leaf => KeyPairInRange p 0 tree kp ∧ i < p.k ∧ leaf < 2 ^ p.a

end Position

/-! ### Addresses that fit -/

/-- Every field fits its bytes. -/
structure Adrs.Fits (a : Adrs) : Prop where
  layer : a.layer < 256 ^ 1
  tree : a.tree < 256 ^ 8
  type : a.type < 256 ^ 1
  word1 : a.word1 < 256 ^ 4
  word2 : a.word2 < 256 ^ 4
  word3 : a.word3 < 256 ^ 4

theorem Adrs.Fits.mk' {layer tree type word1 word2 word3 : ℕ} (hlayer : layer < 256 ^ 1) (htree : tree < 256 ^ 8)
    (htype : type < 256 ^ 1) (h1 : word1 < 256 ^ 4) (h2 : word2 < 256 ^ 4) (h3 : word3 < 256 ^ 4) :
    Adrs.Fits ⟨layer, tree, type, word1, word2, word3⟩ :=
  ⟨hlayer, htree, htype, h1, h2, h3⟩

/-- Addresses that fit are laid out alike only if they are the same. -/
theorem Adrs.asBytes_inj {a b : Adrs} (ha : a.Fits) (hb : b.Fits) (h : a.asBytes = b.asBytes) : a = b := by
  unfold Adrs.asBytes at h
  obtain ⟨h, hword3⟩ := List.append_inj h (by simp)
  obtain ⟨h, hword2⟩ := List.append_inj h (by simp)
  obtain ⟨h, hword1⟩ := List.append_inj h (by simp)
  obtain ⟨h, htype⟩ := List.append_inj h (by simp)
  obtain ⟨hlayer, htree⟩ := List.append_inj h (by simp)
  cases a
  cases b
  congr
  · exact beBytes_inj ha.layer hb.layer hlayer
  · exact beBytes_inj ha.tree hb.tree htree
  · exact beBytes_inj ha.type hb.type htype
  · exact beBytes_inj ha.word1 hb.word1 hword1
  · exact beBytes_inj ha.word2 hb.word2 hword2
  · exact beBytes_inj ha.word3 hb.word3 hword3

/-! ### Positions in range -/

/-- A tree's number and an index inside the tree are read back from the index over all trees. -/
theorem shiftLeft_add_inj {i i' b j j' : ℕ} (hj : j < 2 ^ b) (hj' : j' < 2 ^ b) (h : i <<< b + j = i' <<< b + j') :
    i = i' ∧ j = j' := by
  rw [Nat.shiftLeft_eq, Nat.shiftLeft_eq] at h
  have hdiv := congrArg (· / 2 ^ b) h
  simp only [Nat.add_comm _ j, Nat.add_comm _ j', Nat.add_mul_div_right _ _ (Nat.two_pow_pos b), Nat.div_eq_of_lt hj,
    Nat.div_eq_of_lt hj', Nat.zero_add] at hdiv
  subst hdiv
  exact ⟨rfl, Nat.add_left_cancel h⟩

namespace Position

variable {p : Params}

theorem tree_lt (hp : p.Facts) {tree layer : ℕ} (h : tree < 2 ^ (p.hp * (p.d - 1 - layer))) : tree < 256 ^ 8 := by
  have hbits : p.hp * (p.d - 1 - layer) ≤ 64 :=
    calc
      p.hp * (p.d - 1 - layer) ≤ p.hp * (p.d - 1) := Nat.mul_le_mul_left _ (Nat.sub_le _ _)
      _ = p.idxTreeBits := hp.idxTreeBits_eq.symm
      _ ≤ 8 * p.idxTreeLen := hp.idxTreeBits_le
      _ ≤ 64 := by have := hp.idxTreeLen_le; omega
  exact h.trans_le (Nat.pow_le_pow_right (n := 2) (by norm_num) hbits)

theorem index_lt (hp : p.Facts) {index bits : ℕ} (h : index < 2 ^ bits) (hb : bits ≤ p.hp) : index < 256 ^ 4 :=
  h.trans_le (Nat.pow_le_pow_right (n := 2) (by norm_num) (hb.trans (hp.hp_le.trans (by norm_num : 22 ≤ 32))))

/-- The index over all FORS trees fits its word at every height. -/
theorem forsIndex_lt (hp : p.Facts) (height : ℕ) {i index : ℕ} (hi : i < p.k) (hj : index < 2 ^ (p.a - height)) :
    i <<< (p.a - height) + index < 256 ^ 4 := by
  have hwidth : 2 ^ (8 * p.forsIndexWidth - 1) ≤ 2 ^ 32 :=
    Nat.pow_le_pow_right (by norm_num) (by have := hp.forsIndexWidth_le; omega)
  calc
    i <<< (p.a - height) + index < (i + 1) * 2 ^ (p.a - height) := by
      rw [Nat.shiftLeft_eq, Nat.succ_mul]
      omega
    _ ≤ p.k * 2 ^ p.a := Nat.mul_le_mul hi (Nat.pow_le_pow_right (by norm_num) (Nat.sub_le _ _))
    _ = p.k <<< p.a := (Nat.shiftLeft_eq _ _).symm
    _ ≤ 256 ^ 4 := hp.forsIndex_lt.le.trans hwidth

/-- **The addresses of positions fit**: no cast on the way to the bytes drops anything. -/
theorem adrs_fits (hp : p.Facts) {x : Position} (hx : x.InRange p) : (x.adrs p).Fits := by
  have hlayer {layer : ℕ} (h : layer < p.d) : layer < 256 ^ 1 := h.trans hp.d_lt
  have hlen := hp.len_lt
  cases x with
  | chainStep layer tree kp i j =>
    obtain ⟨⟨hl, ht, hkp⟩, hi, hj⟩ := hx
    have hw := hp.w_le
    rw [adrs_chainStep]
    exact .mk' (hlayer hl) (tree_lt hp ht) (by decide) (index_lt hp hkp le_rfl) (hi.trans (by omega)) (hj.trans (by omega))
  | wotsPk layer tree kp =>
    obtain ⟨hl, ht, hkp⟩ := hx
    rw [adrs_wotsPk]
    exact .mk' (hlayer hl) (tree_lt hp ht) (by decide) (index_lt hp hkp le_rfl) (by decide) (by decide)
  | xmssNode layer tree height index =>
    obtain ⟨hl, ht, -, hheight, hindex⟩ := hx
    have hle := hp.hp_le
    rw [adrs_xmssNode]
    exact .mk' (hlayer hl) (tree_lt hp ht) (by decide) (by decide) (hheight.trans_lt (by omega))
      (index_lt hp hindex (Nat.sub_le _ _))
  | forsNode tree kp i height index =>
    obtain ⟨⟨-, ht, hkp⟩, hi, hheight, hindex⟩ := hx
    have hle := hp.a_le
    rw [adrs_forsNode]
    exact .mk' (by decide) (tree_lt hp ht) (by decide) (index_lt hp hkp le_rfl) (hheight.trans_lt (by omega))
      (forsIndex_lt hp _ hi hindex)
  | forsRoots tree kp =>
    obtain ⟨-, ht, hkp⟩ := hx
    rw [adrs_forsRoots]
    exact .mk' (by decide) (tree_lt hp ht) (by decide) (index_lt hp hkp le_rfl) (by decide) (by decide)
  | wotsSecret layer tree kp i =>
    obtain ⟨⟨hl, ht, hkp⟩, hi⟩ := hx
    rw [adrs_wotsSecret]
    exact .mk' (hlayer hl) (tree_lt hp ht) (by decide) (index_lt hp hkp le_rfl) (hi.trans (by omega)) (by decide)
  | forsSecret tree kp i leaf =>
    obtain ⟨⟨-, ht, hkp⟩, hi, hleaf⟩ := hx
    rw [adrs_forsSecret]
    exact .mk' (by decide) (tree_lt hp ht) (by decide) (index_lt hp hkp le_rfl) (by decide)
      (forsIndex_lt hp 0 hi hleaf)

/-- **No two positions share an address**: the bytes of its address tell which kind of position
it is, and all its coordinates. -/
theorem adrs_inj (hset : p ∈ Params.ALL) {x y : Position} (hx : x.InRange p) (hy : y.InRange p)
    (h : (x.adrs p).asBytes = (y.adrs p).asBytes) : x = y := by
  have hp := Params.facts p hset
  have heq := Adrs.asBytes_inj (adrs_fits hp hx) (adrs_fits hp hy) h
  -- positions of two kinds have addresses of two types, so only the diagonal cases are left
  cases x with
  | chainStep layer tree kp i j =>
    cases y with
    | chainStep layer' tree' kp' i' j' => cases heq; rfl
    | _ => nomatch congrArg Adrs.type heq
  | wotsPk layer tree kp =>
    cases y with
    | wotsPk layer' tree' kp' => cases heq; rfl
    | _ => nomatch congrArg Adrs.type heq
  | xmssNode layer tree height index =>
    cases y with
    | xmssNode layer' tree' height' index' => cases heq; rfl
    | _ => nomatch congrArg Adrs.type heq
  | forsNode tree kp i height index =>
    cases y with
    | forsNode tree' kp' i' height' index' =>
      obtain ⟨-, -, -, hindex⟩ := hx
      obtain ⟨-, -, -, hindex'⟩ := hy
      rw [adrs_forsNode, adrs_forsNode, Adrs.mk.injEq] at heq
      obtain ⟨-, rfl, -, rfl, rfl, hglobal⟩ := heq
      obtain ⟨rfl, rfl⟩ := shiftLeft_add_inj hindex hindex' hglobal
      rfl
    | _ => nomatch congrArg Adrs.type heq
  | forsRoots tree kp =>
    cases y with
    | forsRoots tree' kp' => cases heq; rfl
    | _ => nomatch congrArg Adrs.type heq
  | wotsSecret layer tree kp i =>
    cases y with
    | wotsSecret layer' tree' kp' i' => cases heq; rfl
    | _ => nomatch congrArg Adrs.type heq
  | forsSecret tree kp i leaf =>
    cases y with
    | forsSecret tree' kp' i' leaf' =>
      obtain ⟨-, -, hleaf⟩ := hx
      obtain ⟨-, -, hleaf'⟩ := hy
      rw [adrs_forsSecret, adrs_forsSecret, Adrs.mk.injEq] at heq
      obtain ⟨-, rfl, -, rfl, -, hglobal⟩ := heq
      obtain ⟨rfl, rfl⟩ := shiftLeft_add_inj hleaf hleaf' hglobal
      rfl
    | _ => nomatch congrArg Adrs.type heq

/-- The key pairs that a signature visits on its way up are in range. -/
theorem keyPairInRange_at {t l : ℕ} (ht : t < 2 ^ (p.hp * (p.d - 1))) (hl : l < 2 ^ p.hp) {layer : ℕ} (hlayer : layer < p.d) :
    KeyPairInRange p layer (treeAt p t layer) (leafAt p t l layer) := by
  cases layer with
  | zero => exact ⟨hlayer, ht, hl⟩
  | succ layer =>
    refine ⟨hlayer, ?_, Nat.mod_lt _ (Nat.two_pow_pos _)⟩
    rw [treeAt, Nat.div_lt_iff_lt_mul (Nat.two_pow_pos _), ← pow_add, ← Nat.mul_add]
    rwa [Nat.sub_add_cancel (by omega)]

end Position

/-! ### Where the verifier hashes -/

section uses

variable (sha256 : Bytes → Block 32) (p : Params) (pkSeed : Hash)

theorem chain_adrs (layer tree kp i start steps : ℕ) (x : Hash) :
    chain sha256 pkSeed ((wotsAdrs layer tree kp).setChainAddress i) x start steps =
      (List.range' start steps).foldl
        (fun tmp j => hash sha256 pkSeed ((Position.chainStep layer tree kp i j).adrs p) [tmp.bytes]) x := rfl

theorem wotsPk_adrs (layer tree kp : ℕ) (z : ℕ → Hash) :
    wotsPk sha256 p pkSeed (wotsAdrs layer tree kp) z =
      hash sha256 pkSeed ((Position.wotsPk layer tree kp).adrs p) ((List.range p.len).map fun i => (z i).bytes) := rfl

theorem xmssNode_adrs (layer tree height index : ℕ) (left right : Hash) :
    xmssNode sha256 pkSeed layer tree height index left right =
      hash sha256 pkSeed ((Position.xmssNode layer tree height index).adrs p) [left.bytes, right.bytes] := rfl

theorem forsNode_adrs (tree kp i height index : ℕ) (left right : Hash) :
    forsNode sha256 p pkSeed tree kp i height index left right =
      hash sha256 pkSeed ((Position.forsNode tree kp i height index).adrs p) [left.bytes, right.bytes] := rfl

theorem forsLeaf_adrs (tree kp i leaf : ℕ) (sk : Hash) :
    forsLeaf sha256 pkSeed tree kp (i <<< p.a + leaf) sk =
      hash sha256 pkSeed ((Position.forsNode tree kp i 0 leaf).adrs p) [sk.bytes] := rfl

theorem forsPk_adrs (tree kp : ℕ) (root : ℕ → Hash) :
    forsPk sha256 p pkSeed tree kp root =
      hash sha256 pkSeed ((Position.forsRoots tree kp).adrs p) ((List.range p.k).map fun i => (root i).bytes) := rfl

end uses

end KaspaPqv.SlhScript
