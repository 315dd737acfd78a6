import KaspaPqv.SlhScript.Params

/-!
# Hash addresses

Every hash of SLH-DSA is over the public seed, padded to a block, a compressed address
that says where in the hypertree the hash sits, and the message. The address is laid out
on 22 bytes: the layer, the tree, the type, and three words that mean different things
for different types.

Machine integers are natural numbers here; what does not fit its field is dropped when
the address is laid out, as the source's casts drop it.
-/

namespace KaspaPqv.SlhScript

open KaspaPqv.Lib

/-- The length of a compressed address. -/
def ADRS_LEN : ℕ := 22

/-- A compressed address. -/
structure Adrs where
  layer : ℕ
  tree : ℕ
  type : ℕ
  /-- The key pair. -/
  word1 : ℕ
  /-- The chain, or the height in a tree. -/
  word2 : ℕ
  /-- The step in a chain, or the index in a tree. -/
  word3 : ℕ
  deriving DecidableEq

namespace Adrs

/-- The bytes that are hashed. -/
def asBytes (a : Adrs) : Bytes :=
  beBytes 1 a.layer ++ beBytes 8 a.tree ++ beBytes 1 a.type ++ beBytes 4 a.word1 ++ beBytes 4 a.word2 ++
    beBytes 4 a.word3

@[simp] theorem length_asBytes (a : Adrs) : a.asBytes.length = ADRS_LEN := by simp [asBytes, ADRS_LEN]

/-- The zero address. -/
def new : Adrs := ⟨0, 0, 0, 0, 0, 0⟩

def setLayer (a : Adrs) (layer : ℕ) : Adrs := { a with layer }

def setTreeAddress (a : Adrs) (tree : ℕ) : Adrs := { a with tree }

/-- Set the type, and zero all three words. -/
def setTypeAndClear (a : Adrs) (ty : ℕ) : Adrs := { a with type := ty, word1 := 0, word2 := 0, word3 := 0 }

def setKeyPairAddress (a : Adrs) (kp : ℕ) : Adrs := { a with word1 := kp }

def keyPairAddress (a : Adrs) : ℕ := a.word1

def setChainAddress (a : Adrs) (i : ℕ) : Adrs := { a with word2 := i }

def setHashAddress (a : Adrs) (j : ℕ) : Adrs := { a with word3 := j }

def setTreeHeight (a : Adrs) (z : ℕ) : Adrs := { a with word2 := z }

def setTreeIndex (a : Adrs) (i : ℕ) : Adrs := { a with word3 := i }

/-- Where the tree is laid out. -/
theorem slice_asBytes_tree (a : Adrs) : slice a.asBytes 1 9 = beBytes 8 a.tree := by
  simp only [asBytes, List.append_assoc]
  rw [slice_append_of_ge (by simp), slice_append_of_le (by simp), slice]
  simp

/-- Where the index in a tree is laid out. -/
theorem slice_asBytes_word3 (a : Adrs) : slice a.asBytes 18 22 = beBytes 4 a.word3 := by
  rw [asBytes, slice_append_of_ge (by simp), slice]
  simp

end Adrs

/-- What every hash starts with: `PK.seed` and the padding. -/
def hashPad (pkSeed : Hash) : Bytes := pkSeed.bytes ++ zeros PAD_LEN

/-- The first `N` bytes of a SHA-256 digest. -/
def truncN (digest : Block 32) : Hash := .ofBytes (digest.bytes.take N) (by simp [N])

/-- The hash of a message at an address. -/
def hash (sha256 : Bytes → Block 32) (pkSeed : Hash) (adrs : Adrs) (message : List Bytes) : Hash :=
  truncN (sha256 (hashPad pkSeed ++ adrs.asBytes ++ message.flatten))

end KaspaPqv.SlhScript
