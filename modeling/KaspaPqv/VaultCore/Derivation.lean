import KaspaPqv.Lib.Bytes
import KaspaPqv.Lib.Fallible
import Mathlib.Data.Nat.Digits.Lemmas

/-!
# Seeds of vaults

The seed of a vault, from one of three kinds of key material. A mnemonic's seed and an
extended key are taken down five hardened levels, one of which is the signature scheme; a
bare key has no chain code and is hashed with the two indices.

The scheme is not hashed with a bare key. So there, and only there, vaults of two schemes
have one seed.

BIP32 is a library (`Bip32`), of which only this is assumed: that five hardened levels down
two different paths there are two different keys (`PathsApart`).

## What is proved

* `levels_inj` — the levels tell the scheme, the account and the index.
* `xiApart_iff` — exactly when two vaults under one key have different seeds.
* `not_xiApart` — under a bare key, two schemes share one.
-/

namespace KaspaPqv.VaultCore

open KaspaPqv.Lib

/-! ### Paths -/

/-- The BIP43 purpose. -/
def PURPOSE : UInt32 := 101110

/-- Kaspa's coin type. -/
def COIN_TYPE : UInt32 := 111111

/-- The bytes of an ASCII text. -/
def ascii (s : String) : Bytes := s.toList.map fun c => UInt8.ofNat c.toNat

/-- The domain separator of the seeds that are derived along a path. -/
def XI_DOMAIN : Bytes := ascii "KaspaPQV-v1"

/-- The domain separator of the seeds of bare keys. -/
def XI_DOMAIN_RAW : Bytes := ascii "KaspaPQV-v1-rawkey"

/-- A signature scheme. -/
inductive Scheme where
  | lmsSha256
  | slhDsaSha2_128s
  | slhDsaSha2_128_24
  | slhDsaSha2_128_24D2
  deriving DecidableEq

/-- Its level of the path. -/
def Scheme.index : Scheme → UInt32
  | lmsSha256 => 1
  | slhDsaSha2_128s => 2
  | slhDsaSha2_128_24 => 3
  | slhDsaSha2_128_24D2 => 4

/-- What reports and errors call it. -/
def Scheme.label : Scheme → String
  | lmsSha256 => "LMS-SHA256"
  | slhDsaSha2_128s => "SLH-DSA-SHA2-128s"
  | slhDsaSha2_128_24 => "SLH-DSA-SHA2-128-24"
  | slhDsaSha2_128_24D2 => "SLH-DSA-SHA2-128-24d2"

/-- The branch a vault lives under. -/
structure Derivation where
  purpose : UInt32
  coinType : UInt32
  scheme : Scheme
  deriving DecidableEq

namespace Derivation

/-- The canonical branch. -/
def DEFAULT : Derivation := { purpose := PURPOSE, coinType := COIN_TYPE, scheme := .lmsSha256 }

/-- The five hardened levels, in order. -/
def levels (d : Derivation) (account keyIndex : UInt32) : List UInt32 :=
  [d.purpose, d.coinType, d.scheme.index, account, keyIndex]

end Derivation

/-! ### The library and the material -/

/-- What is used of BIP32. -/
structure Bip32 (Node ChildNumber : Type) where
  /-- The node of a seed. -/
  newNode : Bytes → Except String Node
  /-- A child's number, hardened or not. -/
  childNumber : UInt32 → Bool → Except String ChildNumber
  deriveChild : Node → ChildNumber → Except String Node
  privateKey : Node → Block 32

/-- A source of key material. -/
inductive KeyMaterial (Node : Type) where
  | bip39Seed (seed : Bytes)
  | extended (xprv : Node)
  | raw (key : Block 32)

section

variable {Node ChildNumber : Type} (B : Bip32 Node ChildNumber)

/-- One hardened level. -/
def Bip32.deriveLevel (key : Node) (index : UInt32) : Except String Node := do
  let child ← (B.childNumber index true).mapError fun e => s!"bad child index {index}: {e}"
  (B.deriveChild key child).mapError fun _ => "hardened derivation failed"

/-- Some levels, one after the other. -/
def Bip32.derivePath (node : Node) (path : List UInt32) : Except String Node := path.foldlM B.deriveLevel node

namespace Derivation

variable (d : Derivation) (account keyIndex : UInt32)

/-- What is hashed for a vault below a node. -/
def xiInputOfNode (node : Node) : Except String Bytes := do
  let key ← B.derivePath node (d.levels account keyIndex)
  pure (XI_DOMAIN ++ (B.privateKey key).bytes)

/-- What is hashed for a vault of a seed. -/
def xiInputOfSeed (seed : Bytes) : Except String Bytes := do
  let root ← (B.newNode seed).mapError fun e => s!"invalid BIP39 seed: {e}"
  let key ← B.derivePath root (d.levels account keyIndex)
  pure (XI_DOMAIN ++ (B.privateKey key).bytes)

/-- What is hashed for a vault of any material. -/
def xiInput (material : KeyMaterial Node) : Except String Bytes :=
  match material with
  | .bip39Seed seed => d.xiInputOfSeed B account keyIndex seed
  | .extended xprv => d.xiInputOfNode B account keyIndex xprv
  | .raw key => .ok (XI_DOMAIN_RAW ++ leBytes 4 account.toNat ++ leBytes 4 keyIndex.toNat ++ key.bytes)

/-- The seed of a vault. -/
def xiFrom (sha256 : Bytes → Block 32) (material : KeyMaterial Node) : Except String (Block 32) :=
  (d.xiInput B account keyIndex material).map sha256

end Derivation

/-- Hardened derivation along two different paths of five levels gives two different keys. -/
def Bip32.PathsApart : Prop :=
  ∀ (node : Node) (path path' : List UInt32), path.length = 5 → path'.length = 5 → path ≠ path' →
    ∀ key key', B.derivePath node path = .ok key → B.derivePath node path' = .ok key' →
      B.privateKey key ≠ B.privateKey key'

end

/-! ### Vaults under one key -/

/-- A vault under a key. -/
structure VaultPath where
  scheme : Scheme
  account : UInt32
  keyIndex : UInt32
  deriving DecidableEq

namespace VaultPath

/-- Its branch. -/
def derivation (v : VaultPath) : Derivation := { Derivation.DEFAULT with scheme := v.scheme }

end VaultPath

theorem Scheme.index_inj {s s' : Scheme} (h : s.index = s'.index) : s = s' := by
  cases s <;> cases s' <;> first | rfl | exact absurd h (by decide)

/-- **The levels tell the vault.** -/
theorem levels_inj {v v' : VaultPath}
    (h : v.derivation.levels v.account v.keyIndex = v'.derivation.levels v'.account v'.keyIndex) : v = v' := by
  obtain ⟨s, a, k⟩ := v
  obtain ⟨s', a', k'⟩ := v'
  simp only [Derivation.levels, VaultPath.derivation, List.cons.injEq, and_true, true_and] at h
  obtain ⟨hscheme, rfl, rfl⟩ := h
  rw [Scheme.index_inj hscheme]

section

variable {Node ChildNumber : Type} {B : Bip32 Node ChildNumber}

/-- Two vaults are given different strings to hash. -/
def XiApart (B : Bip32 Node ChildNumber) (material : KeyMaterial Node) (v v' : VaultPath) : Prop :=
  ∀ bytes bytes', v.derivation.xiInput B v.account v.keyIndex material = .ok bytes →
    v'.derivation.xiInput B v'.account v'.keyIndex material = .ok bytes' → bytes ≠ bytes'

/-- Below one node. -/
theorem xiInputOfNode_apart (hB : B.PathsApart) {v v' : VaultPath} (hne : v ≠ v') {node : Node} {bytes bytes' : Bytes}
    (h : v.derivation.xiInputOfNode B v.account v.keyIndex node = .ok bytes)
    (h' : v'.derivation.xiInputOfNode B v'.account v'.keyIndex node = .ok bytes') : bytes ≠ bytes' := by
  obtain ⟨key, hkey, hbytes⟩ := bind_eq_ok.mp h
  obtain ⟨key', hkey', hbytes'⟩ := bind_eq_ok.mp h'
  cases hbytes
  cases hbytes'
  intro heq
  exact hB node _ _ rfl rfl (fun hlevels => hne (levels_inj hlevels)) key key' hkey hkey'
    (Block.ext (List.append_cancel_left heq))

/-- A seed's vaults are those below its node. -/
theorem xiInputOfSeed_eq_ok {d : Derivation} {account keyIndex : UInt32} {seed bytes : Bytes} :
    d.xiInputOfSeed B account keyIndex seed = .ok bytes ↔
      ∃ root, B.newNode seed = .ok root ∧ d.xiInputOfNode B account keyIndex root = .ok bytes := by
  rw [Derivation.xiInputOfSeed, bind_eq_ok]
  simp only [mapError_eq_ok]
  rfl

/-- The string of a bare key tells the key and both indices, and nothing else. -/
theorem rawInput_inj {a a' k k' : UInt32} {key : Block 32}
    (h : XI_DOMAIN_RAW ++ leBytes 4 a.toNat ++ leBytes 4 k.toNat ++ key.bytes =
      XI_DOMAIN_RAW ++ leBytes 4 a'.toNat ++ leBytes 4 k'.toNat ++ key.bytes) : a = a' ∧ k = k' := by
  have hfields := List.append_cancel_right h
  obtain ⟨haccount, hindex⟩ := List.append_inj hfields (by simp)
  have haccount := List.append_cancel_left haccount
  exact ⟨UInt32.toNat_inj.mp (leBytes_inj a.toNat_lt a'.toNat_lt haccount),
    UInt32.toNat_inj.mp (leBytes_inj k.toNat_lt k'.toNat_lt hindex)⟩

/-- **Two vaults under one key have different seeds** exactly if the key is not a bare one, or
their accounts or indices differ. -/
theorem xiApart_iff (hB : B.PathsApart) (material : KeyMaterial Node) {v v' : VaultPath} (hne : v ≠ v') :
    XiApart B material v v' ↔
      ((∀ key, material ≠ .raw key) ∨ v.account ≠ v'.account ∨ v.keyIndex ≠ v'.keyIndex) := by
  cases material with
  | bip39Seed seed =>
    refine ⟨fun _ => .inl fun _ => nofun, fun _ bytes bytes' h h' => ?_⟩
    obtain ⟨root, hroot, hnode⟩ := xiInputOfSeed_eq_ok.mp h
    obtain ⟨root', hroot', hnode'⟩ := xiInputOfSeed_eq_ok.mp h'
    cases hroot.symm.trans hroot'
    exact xiInputOfNode_apart hB hne hnode hnode'
  | extended xprv =>
    refine ⟨fun _ => .inl fun _ => nofun, fun _ bytes bytes' h h' => ?_⟩
    exact xiInputOfNode_apart hB hne h h'
  | raw key =>
    constructor
    · intro hapart
      by_contra hsame
      push Not at hsame
      obtain ⟨-, haccount, hindex⟩ := hsame
      refine hapart _ _ rfl rfl ?_
      rw [haccount, hindex]
    · rintro hdiffer bytes bytes' h h' rfl
      cases h
      obtain ⟨haccount, hindex⟩ := rawInput_inj (Except.ok.inj h').symm
      rcases hdiffer with hraw | hdiffer | hdiffer
      · exact hraw key rfl
      · exact hdiffer haccount
      · exact hdiffer hindex

end

/-! ### A library to try it with -/

/-- A tree whose nodes are their paths, and whose keys spell the last five levels. -/
def pathTree : Bip32 (List UInt32) UInt32 where
  newNode _ := .ok []
  childNumber index _ := if index.toNat < 2 ^ 31 then .ok index else .error "invalid child number"
  deriveChild path index := .ok (path ++ [index])
  privateKey path :=
    .ofBytes (leBytes 32 (Nat.ofDigits (2 ^ 32) ((path.drop (path.length - 5)).map UInt32.toNat))) (length_leBytes _ _)

theorem pathTree_derivePath {node key path : List UInt32} (h : pathTree.derivePath node path = .ok key) :
    key = node ++ path := by
  induction path generalizing node with
  | nil =>
    cases h
    rw [List.append_nil]
  | cons index path ih =>
    rw [Bip32.derivePath, List.foldlM_cons, bind_eq_ok] at h
    obtain ⟨child, hchild, hrest⟩ := h
    obtain ⟨number, hnumber, hderive⟩ := bind_eq_ok.mp hchild
    have hnumber := mapError_eq_ok.mp hnumber
    have hderive := mapError_eq_ok.mp hderive
    simp only [pathTree] at hnumber hderive
    split_ifs at hnumber
    cases hnumber
    cases hderive
    rw [ih hrest, List.append_assoc, List.singleton_append]

theorem pathTree_pathsApart : pathTree.PathsApart := by
  intro node path path' hlen hlen' hne key key' hkey hkey' heq
  rw [pathTree_derivePath hkey, pathTree_derivePath hkey'] at heq
  have hlast {p : List UInt32} (hp : p.length = 5) : (node ++ p).drop ((node ++ p).length - 5) = p := by
    rw [List.length_append, hp, Nat.add_sub_cancel, List.drop_left]
  have hdigit (p : List UInt32) : ∀ l ∈ p.map UInt32.toNat, l < 2 ^ 32 := by
    intro l hl
    obtain ⟨i, -, rfl⟩ := List.mem_map.mp hl
    exact i.toNat_lt
  have hspell {p : List UInt32} (hp : p.length = 5) : Nat.ofDigits (2 ^ 32) (p.map UInt32.toNat) < 256 ^ 32 := by
    have hlt := Nat.ofDigits_lt_base_pow_length (by norm_num : 1 < 2 ^ 32) (hdigit p)
    rw [List.length_map, hp] at hlt
    exact hlt.trans (by norm_num)
  have hkeys := congrArg Block.bytes heq
  simp only [pathTree, Block.bytes_ofBytes, hlast hlen, hlast hlen'] at hkeys
  have hdigits := leBytes_inj (hspell hlen) (hspell hlen') hkeys
  have hmap := Nat.ofDigits_inj_of_len_eq (by norm_num : 1 < 2 ^ 32) (by simp [hlen, hlen']) (hdigit path) (hdigit path')
    hdigits
  exact hne (List.map_injective_iff.mpr (fun _ _ => UInt32.toNat_inj.mp) hmap)

/-- Two schemes below an extended key, and two accounts of one scheme under a bare key. -/
theorem xiApart_accounts : XiApart pathTree (.extended [7]) ⟨.lmsSha256, 0, 0⟩ ⟨.slhDsaSha2_128s, 0, 0⟩ ∧
    XiApart pathTree (.raw (Block.zero 32)) ⟨.lmsSha256, 0, 0⟩ ⟨.lmsSha256, 1, 0⟩ :=
  ⟨(xiApart_iff pathTree_pathsApart (.extended [7]) (by decide)).mpr (.inl (by simp)),
    (xiApart_iff pathTree_pathsApart (.raw (Block.zero 32)) (by decide)).mpr (.inr (.inl (by decide)))⟩

/-- **Two schemes share a seed** under a bare key. -/
theorem not_xiApart : ¬∀ (material : KeyMaterial (List UInt32)) (v v' : VaultPath), v ≠ v' →
    v.account.toNat < 2 ^ 31 → v.keyIndex.toNat < 2 ^ 31 → v'.account.toNat < 2 ^ 31 → v'.keyIndex.toNat < 2 ^ 31 →
    XiApart pathTree material v v' := by
  intro h
  exact h (.raw (Block.zero 32)) ⟨.lmsSha256, 0, 0⟩ ⟨.slhDsaSha2_128s, 0, 0⟩ (by decide) (by decide) (by decide)
    (by decide) (by decide) _ _ rfl rfl rfl

end KaspaPqv.VaultCore
