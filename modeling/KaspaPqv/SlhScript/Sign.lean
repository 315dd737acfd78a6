import KaspaPqv.SlhScript.Signer

/-!
# Signing and verifying

Signer and verifier walk the hypertree from opposite ends. What a one-time key signs is a
function of the key's position alone (`signedAt`), and the two sides agree on it layer by
layer: the signer's loop records it, and the verifier's climb comes to it.

## What is proved

* `signRun_eq` — a run of the signer, from any key whose cache is sound: the signature, and
  what each one-time key signed.
* `sign_verifies` — for every set, every secrets and every message the signature is accepted.
* `sign_sameMessage` — in any two runs on one key, a one-time key that is used in both signs
  the same value.
-/

namespace KaspaPqv.SlhScript

open KaspaPqv.Lib

variable (sha256 : Bytes → Block 32)

/-! ### What a run of the signer is -/

section values

variable (key : SigningKey) (message : Bytes)

/-- The randomness of a signature: a function of the message. -/
def SigningKey.randomness : Hash :=
  truncN (hmacSha256 sha256 key.seeds.skPrf.bytes (key.seeds.pkSeed.bytes ++ contextPrefixed message))

/-- The digest that is signed. -/
def SigningKey.digest : Bytes := messageDigest sha256 key.p (key.randomness sha256 message) key.publicKey message

/-- The tree of a layer that is signed in. -/
def SigningKey.tree (layer : ℕ) : ℕ := treeAt key.p (treeIndex key.p (key.digest sha256 message)) layer

/-- The leaf of a layer that is signed with. -/
def SigningKey.leaf (layer : ℕ) : ℕ :=
  leafAt key.p (treeIndex key.p (key.digest sha256 message)) (leafIndex key.p (key.digest sha256 message)) layer

/-- What is signed in a layer. -/
def SigningKey.signed (layer : ℕ) : Hash :=
  signedAt sha256 key.p key.seeds layer (key.tree sha256 message layer) (key.leaf sha256 message layer)

/-- The opened leaf of FORS tree `i`. -/
def SigningKey.opened (i : ℕ) : ℕ := forsIndex key.p ((key.digest sha256 message).take key.p.mdLen) i

/-- The signature. -/
def SigningKey.signature : Signature where
  p := key.p
  randomness := key.randomness sha256 message
  fors := (List.range key.p.k).flatMap fun i =>
    forsGroup sha256 key.p key.seeds (key.tree sha256 message 0) (key.leaf sha256 message 0) i
      (key.opened sha256 message i)
  ht := (List.range key.p.d).flatMap fun j =>
    layerElements sha256 key.p key.seeds (key.signed sha256 message j) j (key.tree sha256 message j)
      (key.leaf sha256 message j)

/-- Its parts. -/
def SigningKey.parts : SigParts where
  randomness := key.randomness sha256 message
  sk i := forsSk sha256 key.seeds (forsAdrs (key.tree sha256 message 0) (key.leaf sha256 message 0))
    (i <<< key.p.a + key.opened sha256 message i)
  forsAuth i := forsPath sha256 key.p key.seeds (key.tree sha256 message 0) (key.leaf sha256 message 0) i
    (key.opened sha256 message i)
  wots j := wotsAt sha256 key.p key.seeds (key.signed sha256 message j) j (key.tree sha256 message j)
    (key.leaf sha256 message j)
  auth j := treePath sha256 key.p key.seeds j (key.tree sha256 message j) (key.leaf sha256 message j)

/-- The call of the one-time key of a layer. -/
def SigningKey.call (layer : ℕ) : WotsCall :=
  ⟨layer, key.tree sha256 message layer, key.leaf sha256 message layer, key.signed sha256 message layer⟩

end values

variable {p : Params} {seeds : SecretSeeds} {key : SigningKey}

/-! ### A run of the signer -/

theorem leafAt_lt (digest : Bytes) (t layer : ℕ) : leafAt p t (leafIndex p digest) layer < 2 ^ p.hp := by
  cases layer with
  | zero => exact leafIndex_lt p digest
  | succ layer => exact Nat.mod_lt _ (Nat.two_pow_pos _)

/-- A position tells which tree is below it. -/
theorem treeAt_of_position (t l layer : ℕ) :
    treeAt p t (layer + 1) * 2 ^ p.hp + leafAt p t l (layer + 1) = treeAt p t layer := by
  rw [treeAt_succ, leafAt]
  exact Nat.div_add_mod' _ _

/-- What a layer signs is the root of the layer below. -/
theorem signed_succ (key : SigningKey) (message : Bytes) (layer : ℕ) :
    key.signed sha256 message (layer + 1) =
      treeRoot sha256 key.p key.seeds layer (key.tree sha256 message layer) := by
  rw [SigningKey.signed, signedAt, SigningKey.tree, SigningKey.leaf, treeAt_of_position]
  rfl

theorem length_digest (hp : key.p.Facts) (message : Bytes) : (key.digest sha256 message).length = key.p.m :=
  length_messageDigest sha256 hp _ _ _

theorem length_md (hp : key.p.Facts) (message : Bytes) :
    ((key.digest sha256 message).take key.p.mdLen).length = key.p.mdLen := by
  have := hp.m_eq
  rw [List.length_take, length_digest sha256 hp]
  omega

/-- The FORS public key, as both sides recover it from the opened values. -/
theorem forsPk_opened (key : SigningKey) (message : Bytes) :
    (forsPk sha256 key.p key.seeds.pkSeed (key.tree sha256 message 0) (key.leaf sha256 message 0) fun i =>
      forsRoot sha256 key.p key.seeds.pkSeed (key.tree sha256 message 0) (key.leaf sha256 message 0) i
        (key.opened sha256 message i) ((key.parts sha256 message).sk i) ((key.parts sha256 message).forsAuth i)) =
      key.signed sha256 message 0 := by
  rw [SigningKey.signed, signedAt, forsPkGen]
  congr 1
  funext i
  exact forsRoot_eq sha256 _ _ i (bitField_lt _ _ _)

/-- The parts are where the verifier looks for them. -/
theorem has_parts (key : SigningKey) (message : Bytes) :
    (key.signature sha256 message).Has (key.parts sha256 message) where
  randomness_eq := rfl
  fors := forsHas_flatMap sha256 _ _ _
  layer_eq _ hj := htLayer_flatMap sha256 rfl hj

theorem length_fors (key : SigningKey) (message : Bytes) :
    (key.signature sha256 message).fors.length = key.p.k * (1 + key.p.a) :=
  length_flatMap_range (fun _ => length_forsGroup sha256 _ _ _ _ _ _) _

theorem length_ht (key : SigningKey) (message : Bytes) :
    (key.signature sha256 message).ht.length = key.p.d * (key.p.len + key.p.hp) :=
  length_flatMap_range (fun _ => length_layerElements sha256 _ _ _ _ _ _) _

/-- A signature has its length, and is read back. -/
theorem fromBytes_signature (hp : key.p.Facts) (message : Bytes) :
    (key.signature sha256 message).toBytes.length = key.p.sigLen ∧
      Signature.fromBytes key.p (key.signature sha256 message).toBytes = some (.ok (key.signature sha256 message)) :=
  fromBytes_toBytes (show (key.signature sha256 message).p.Facts from hp) (length_fors sha256 key message)
    (length_ht sha256 key message)

theorem length_signature (hp : key.p.Facts) (message : Bytes) :
    (key.signature sha256 message).toBytes.length = key.p.sigLen :=
  (fromBytes_signature sha256 hp message).1

/-- The key pair that a run uses in a layer is in range. -/
theorem keyPair_inRange (hp : key.p.Facts) (message : Bytes) {layer : ℕ} (hlayer : layer < key.p.d) :
    Position.KeyPairInRange key.p layer (key.tree sha256 message layer) (key.leaf sha256 message layer) :=
  Position.keyPairInRange_at (treeIndex_lt hp _) (leafIndex_lt _ _) hlayer

/-- The state of the signer's loop before a layer. -/
structure SignState.At (key : SigningKey) (message : Bytes) (layer : ℕ) (s : SignState) : Prop where
  out_eq : s.out = (key.randomness sha256 message).bytes ++ ((key.signature sha256 message).fors ++
    (List.range layer).flatMap fun j => layerElements sha256 key.p key.seeds (key.signed sha256 message j) j
      (key.tree sha256 message j) (key.leaf sha256 message j)).flatMap Block.bytes
  tree_eq : s.tree = key.tree sha256 message (layer - 1)
  leaf_eq : s.leaf = key.leaf sha256 message (layer - 1)
  node_eq : s.node = key.signed sha256 message layer
  leaves : s.leaves.Sound sha256 key.p key.seeds
  calls_eq : s.calls = (List.range layer).map (key.call sha256 message)

/-- The state before the loop. -/
def SigningKey.first (key : SigningKey) (message : Bytes) : SignState where
  out := (key.randomness sha256 message).bytes ++ (key.signature sha256 message).fors.flatMap Block.bytes
  tree := key.tree sha256 message 0
  leaf := key.leaf sha256 message 0
  node := key.signed sha256 message 0
  leaves := key.leaves
  calls := []

/-- The state after a layer. -/
def SigningKey.next (key : SigningKey) (message : Bytes) (layer : ℕ) (s : SignState) : SignState where
  out := s.out ++ ((List.range key.p.len).map (wotsAt sha256 key.p key.seeds (key.signed sha256 message layer) layer
      (key.tree sha256 message layer) (key.leaf sha256 message layer))).flatMap Block.bytes ++
    ((List.range key.p.hp).map (treePath sha256 key.p key.seeds layer (key.tree sha256 message layer)
      (key.leaf sha256 message layer))).flatMap Block.bytes
  tree := key.tree sha256 message layer
  leaf := key.leaf sha256 message layer
  node := key.signed sha256 message (layer + 1)
  leaves := s.leaves.after sha256 key.p key.seeds layer (key.tree sha256 message layer)
  calls := s.calls ++ [key.call sha256 message layer]

/-- The state before each layer. -/
def SigningKey.stateAt (key : SigningKey) (message : Bytes) : ℕ → SignState
  | 0 => key.first sha256 message
  | layer + 1 => key.next sha256 message layer (key.stateAt message layer)

/-- The start of a run is where the loop's invariant begins. -/
theorem first_at (hc : key.leaves.Sound sha256 key.p key.seeds) (message : Bytes) :
    (key.first sha256 message).At sha256 key message 0 :=
  ⟨by simp [SigningKey.first], rfl, rfl, rfl, hc, rfl⟩

theorem SignState.At.next {message : Bytes} {layer : ℕ} {s : SignState} (h : s.At sha256 key message layer) :
    (key.next sha256 message layer s).At sha256 key message (layer + 1) := by
  refine ⟨?_, rfl, rfl, rfl, h.leaves.after sha256 layer _, ?_⟩
  · rw [SigningKey.next]
    simp only [h.out_eq, List.range_succ, List.flatMap_append, List.flatMap_singleton, layerElements, List.append_assoc]
  · rw [SigningKey.next, List.range_succ, List.map_append, ← h.calls_eq]
    rfl

theorem stateAt_at (hc : key.leaves.Sound sha256 key.p key.seeds) (message : Bytes) (layer : ℕ) :
    (key.stateAt sha256 message layer).At sha256 key message layer := by
  induction layer with
  | zero => exact first_at sha256 hc message
  | succ layer ih => exact ih.next

/-- At the end of the loop the output is the signature. -/
theorem SignState.At.out_signature {message : Bytes} {s : SignState} (h : s.At sha256 key message key.p.d) :
    s.out = (key.signature sha256 message).toBytes :=
  h.out_eq

section hashes

variable {hasher : Hasher Option} (h : Hashes sha256 key.p key.seeds.pkSeed hasher) (hp : key.p.Facts)
include h hp

/-- **One layer of the signer.** -/
theorem signLayer_eq {message : Bytes} {layer : ℕ} (hlayer : layer < key.p.d) {s : SignState}
    (hs : s.At sha256 key message layer) :
    Signer.signLayer hasher key.p key.seeds s layer = some (key.next sha256 message layer s) := by
  have hpos : nextPosition key.p layer s.tree s.leaf = (key.tree sha256 message layer, key.leaf sha256 message layer) := by
    rw [hs.tree_eq, hs.leaf_eq]
    exact nextPosition_eq hp _ _ layer
  have hkp := keyPair_inRange sha256 hp message hlayer
  have hwots := Signer.wotsSign_eq h hp hkp (key.signed sha256 message layer)
  have htree := Signer.xmssTree_eq h hp hlayer hkp.2.1 hs.leaves hkp.2.2
  rw [Signer.signLayer, hpos]
  simp only [Option.bind_eq_bind]
  rw [hs.node_eq, hwots, Option.bind_some, htree, Option.bind_some, SigningKey.next, signed_succ]
  rfl

/-- **The start of a run.** -/
theorem startState_eq (message : Bytes) :
    Signer.startState sha256 hasher key message = some (key.first sha256 message) := by
  have hfors := Signer.forsSign_eq h hp (keyPair_inRange sha256 hp message hp.d_pos) (length_md sha256 hp message)
  have hpk := forsPkFromSig_eq sha256 hp key.seeds.pkSeed (key.tree sha256 message 0) (key.leaf sha256 message 0)
    (has_parts sha256 key message).fors (length_md sha256 hp message)
  have hsigned := forsPk_opened sha256 key message
  unfold SigningKey.opened at hsigned
  rw [hsigned] at hpk
  unfold Signer.startState
  simp only [Option.bind_eq_bind]
  change (hMsg sha256 key.p (key.randomness sha256 message) key.publicKey (contextPrefixed message)).bind _ = _
  rw [hMsg_eq sha256 hp, Option.bind_some]
  change (splitDigest key.p (key.digest sha256 message)).bind _ = _
  rw [splitDigest_eq hp (length_digest sha256 hp message), Option.bind_some]
  change (Signer.forsSign hasher key.p key.seeds (forsAdrs (key.tree sha256 message 0) (key.leaf sha256 message 0))
    ((key.digest sha256 message).take key.p.mdLen)).bind _ = _
  rw [hfors, Option.bind_some]
  change (forsPkFromSig sha256 key.p key.seeds.pkSeed
    (forsAdrs (key.tree sha256 message 0) (key.leaf sha256 message 0)) (key.signature sha256 message).fors
    ((key.digest sha256 message).take key.p.mdLen)).bind _ = _
  rw [hpk, Option.bind_some]
  rfl

/-- **A run of the signer**, layer by layer. -/
theorem signRun_eq_stateAt (hc : key.leaves.Sound sha256 key.p key.seeds) (message : Bytes) :
    Signer.signRun sha256 hasher key message = some (key.stateAt sha256 message key.p.d) := by
  have hfold := foldlM_range_eq_some (key.stateAt sha256 message) fun layer hlayer =>
    signLayer_eq sha256 h hp hlayer (stateAt_at sha256 hc message layer)
  have hout : (key.stateAt sha256 message key.p.d).out.length = key.p.sigLen :=
    (congrArg List.length (stateAt_at sha256 hc message key.p.d).out_signature).trans (length_signature sha256 hp message)
  rw [Signer.signRun, startState_eq sha256 h hp]
  simp only [Option.bind_eq_bind, Option.bind_some]
  rw [show key.first sha256 message = key.stateAt sha256 message 0 from rfl, hfold, Option.bind_some, if_pos hout]

/-- Signing leaves the key what it is, but for its cache. -/
theorem sign_eq_stateAt (hc : key.leaves.Sound sha256 key.p key.seeds) (message : Bytes) :
    Signer.sign sha256 hasher key message =
      some ((key.signature sha256 message).toBytes, { key with leaves := (key.stateAt sha256 message key.p.d).leaves }) := by
  rw [Signer.sign, signRun_eq_stateAt sha256 h hp hc, Option.map_some, (stateAt_at sha256 hc message key.p.d).out_signature]

end hashes

/-- **A run of the signer**: it succeeds, its output is the signature, and each layer's
one-time key signs what its position says. -/
theorem signRun_eq (hp : key.p.Facts) (hc : key.leaves.Sound sha256 key.p key.seeds) (message : Bytes) :
    ∃ s, key.signRun sha256 message = some s ∧ s.out = (key.signature sha256 message).toBytes ∧
      s.leaves.Sound sha256 key.p key.seeds ∧ s.calls = (List.range key.p.d).map (key.call sha256 message) :=
  have hend := stateAt_at sha256 hc message key.p.d
  ⟨_, signRun_eq_stateAt sha256 (hashes_plain sha256 _ _) hp hc message, hend.out_signature, hend.leaves, hend.calls_eq⟩

/-! ### Signatures verify -/

/-- The verifier's climb comes to what the signer signed, layer by layer. -/
theorem hypertreeNode_eq (key : SigningKey) (message : Bytes) (layer : ℕ) :
    hypertreeNode sha256 key.p key.seeds.pkSeed (key.parts sha256 message) (key.tree sha256 message 0)
        (key.leaf sha256 message 0) (key.signed sha256 message 0) layer =
      key.signed sha256 message layer := by
  induction layer with
  | zero => rfl
  | succ layer ih =>
    rw [hypertreeNode, ih, signed_succ]
    exact xmssRoot_eq sha256 _ layer _ (leafAt_lt _ _ layer)

/-- The top layer has one tree. -/
theorem tree_top (hp : key.p.Facts) (message : Bytes) : key.tree sha256 message (key.p.d - 1) = 0 := by
  rw [SigningKey.tree, treeAt_eq]
  exact Nat.div_eq_of_lt (treeIndex_lt hp _)

/-- What a key has once it is generated, and keeps. -/
structure SigningKey.Sound (p : Params) (seeds : SecretSeeds) (key : SigningKey) : Prop where
  p_eq : key.p = p
  seeds_eq : key.seeds = seeds
  publicKey_eq : key.publicKey = { seed := seeds.pkSeed, root := treeRoot sha256 p seeds (p.d - 1) 0 }
  leaves : key.leaves.Sound sha256 p seeds

/-- The hash over a sound key's public seed. -/
theorem SigningKey.Sound.hashes_plain (hkey : key.Sound sha256 p seeds) :
    Hashes sha256 p seeds.pkSeed (plain sha256 key.seeds.pkSeed) :=
  hkey.seeds_eq ▸ SlhScript.hashes_plain sha256 p _

section hashes

variable {hasher : Hasher Option} (h : Hashes sha256 p seeds.pkSeed hasher) (hp : p.Facts)
include h hp

/-- **Key generation**, over any hasher that hashes what it is asked. -/
theorem generate_eq : Signer.generate hasher p seeds = some
    { p, seeds, publicKey := { seed := seeds.pkSeed, root := treeRoot sha256 p seeds (p.d - 1) 0 }
      leaves := LeafCache.after sha256 p seeds none (p.d - 1) 0 } := by
  rw [Signer.generate, Signer.xmssTree_eq h hp (Nat.sub_lt hp.d_pos Nat.one_pos) (Nat.two_pow_pos _)
    (LeafCache.sound_none sha256) (Nat.two_pow_pos _)]
  rfl

/-- **Signing**, over any hasher that hashes what it is asked. -/
theorem sign_eq (hkey : key.Sound sha256 p seeds) (message : Bytes) :
    Signer.sign sha256 hasher key message =
      some ((key.signature sha256 message).toBytes, { key with leaves := (key.stateAt sha256 message p.d).leaves }) := by
  obtain ⟨rfl, rfl, -, hleaves⟩ := hkey
  exact sign_eq_stateAt sha256 h hp hleaves message

end hashes

/-- Signing keeps the key what it is. -/
theorem SigningKey.Sound.next (hkey : key.Sound sha256 p seeds) (message : Bytes) (layer : ℕ) :
    SigningKey.Sound sha256 p seeds { key with leaves := (key.stateAt sha256 message layer).leaves } := by
  obtain ⟨rfl, rfl, hpub, hleaves⟩ := hkey
  exact ⟨rfl, rfl, hpub, (stateAt_at sha256 hleaves message layer).leaves⟩

/-- **Every key that can exist is sound.** -/
theorem Signer.Reachable.sound {hasher : Hasher Option} (h : Hashes sha256 p seeds.pkSeed hasher) (hp : p.Facts)
    (hkey : Signer.Reachable sha256 hasher p seeds key) : key.Sound sha256 p seeds := by
  induction hkey with
  | generate hgen =>
    rw [generate_eq sha256 h hp] at hgen
    cases hgen
    exact ⟨rfl, rfl, rfl, (LeafCache.sound_none sha256).after sha256 _ _⟩
  | sign _ hsign ih =>
    rw [sign_eq sha256 h hp ih] at hsign
    cases hsign
    exact ih.next sha256 _ _

theorem SigningKey.Reachable.sound (hp : p.Facts) (hkey : key.Reachable sha256 p seeds) : key.Sound sha256 p seeds :=
  Signer.Reachable.sound sha256 (hashes_plain sha256 _ _) hp hkey

/-- Key generation succeeds. -/
theorem generate_sound (hp : p.Facts) (seeds : SecretSeeds) :
    ∃ key, SigningKey.generate sha256 p seeds = some key ∧ key.Sound sha256 p seeds :=
  have hgen := generate_eq sha256 (hashes_plain sha256 p seeds.pkSeed) hp
  ⟨_, hgen, SigningKey.Reachable.sound sha256 hp (.generate hgen)⟩

/-- Signing succeeds. -/
theorem sign_sound (hp : p.Facts) (hkey : key.Sound sha256 p seeds) (message : Bytes) :
    ∃ key', key.sign sha256 message = some ((key.signature sha256 message).toBytes, key') ∧
      key'.Sound sha256 p seeds :=
  ⟨_, sign_eq sha256 hkey.hashes_plain hp hkey message, hkey.next sha256 message p.d⟩

/-- **A signature of a sound key is accepted.** -/
theorem verify_signature (hp : p.Facts) (hkey : key.Sound sha256 p seeds) (message : Bytes) :
    verify sha256 key.publicKey (key.signature sha256 message) message = some true := by
  obtain ⟨rfl, rfl, hpub, -⟩ := hkey
  have hseed : key.publicKey.seed = key.seeds.pkSeed := by rw [hpub]
  have hd := hp.d_pos
  have hroot : (trace sha256 key.p key.publicKey (key.parts sha256 message) message).root = key.publicKey.root := by
    have hfors := forsPk_opened sha256 key message
    have hclimb := hypertreeNode_eq sha256 key message key.p.d
    rw [← hfors, ← hseed] at hclimb
    rw [trace]
    refine hclimb.trans ?_
    obtain ⟨d, hd'⟩ : ∃ d, key.p.d = d + 1 := ⟨key.p.d - 1, by omega⟩
    have htop := tree_top sha256 hp message
    rw [hpub]
    rw [hd', Nat.add_sub_cancel] at htop ⊢
    rw [signed_succ, htop]
  rw [verify_eq sha256 (show (key.signature sha256 message).p.Facts from hp) (has_parts sha256 key message)]
  exact congrArg some (decide_eq_true hroot)

/-- **Signatures verify**: for every set, all secrets and every message, generating a key and
signing gives a string of the right length that parses and is accepted. -/
theorem sign_verifies (hp : p ∈ Params.ALL) (seeds : SecretSeeds) (message : Bytes) :
    ∃ key key' signature, SigningKey.generate sha256 p seeds = some key ∧
      key.sign sha256 message = some (signature, key') ∧ signature.length = p.sigLen ∧
        ∃ sig, Signature.fromBytes p signature = some (.ok sig) ∧ verify sha256 key.publicKey sig message = some true := by
  have hfacts := Params.facts p hp
  obtain ⟨key, hgen, hkey⟩ := generate_sound sha256 hfacts seeds
  obtain ⟨key', hsign, -⟩ := sign_sound sha256 hfacts hkey message
  have hverify := verify_signature sha256 hfacts hkey message
  obtain ⟨rfl, -⟩ := hkey
  obtain ⟨hlen, hparse⟩ := fromBytes_signature sha256 hfacts message
  exact ⟨key, key', _, hgen, hsign, hlen, _, hparse, hverify⟩

theorem sign_verifies_128s :
    ∃ key key' signature, SigningKey.generate (fun _ => Block.zero 32) .SHA2_128S
        ⟨Block.zero 16, Block.zero 16, Block.zero 16⟩ = some key ∧
      key.sign (fun _ => Block.zero 32) [7] = some (signature, key') ∧ signature.length = Params.SHA2_128S.sigLen ∧
        ∃ sig, Signature.fromBytes .SHA2_128S signature = some (.ok sig) ∧
          verify (fun _ => Block.zero 32) key.publicKey sig [7] = some true :=
  sign_verifies _ (by decide) _ [7]

/-! ### What a one-time key signs -/

/-- The calls of a run are what its output was made from: there is one for each layer, and the one-time
signature of that layer in the output is what `wotsSign` makes of the call. -/
def SignState.Records (p : Params) (seeds : SecretSeeds) (s : SignState) : Prop :=
  s.calls.map WotsCall.layer = List.range p.d ∧
    ∃ sig, Signature.fromBytes p s.out = some (.ok sig) ∧
      ∀ c ∈ s.calls, ∃ wots auth, sig.htLayer c.layer = some (wots, auth) ∧
        Signer.wotsSign (plain sha256 seeds.pkSeed) p seeds c.message c.layer c.tree c.keyPair = some wots

/-- What a run leaves: its calls are what its output was made from, and what a one-time key is given to
sign is a function of its position. -/
theorem calls_signedAt (hp : p.Facts) (hkey : key.Sound sha256 p seeds) (message : Bytes) :
    ∃ s, key.signRun sha256 message = some s ∧ s.Records sha256 p seeds ∧
      ∀ c ∈ s.calls, c.message = signedAt sha256 p seeds c.layer c.tree c.keyPair := by
  obtain ⟨rfl, rfl, -, hleaves⟩ := hkey
  obtain ⟨s, hrun, hout, -, hcalls⟩ := signRun_eq sha256 hp hleaves message
  have hparse := (fromBytes_signature sha256 hp message).2
  rw [← hout] at hparse
  refine ⟨s, hrun, ⟨?_, key.signature sha256 message, hparse, fun c hc => ?_⟩, fun c hc => ?_⟩
  · rw [hcalls, List.map_map]
    exact List.map_id _
  · rw [hcalls] at hc
    obtain ⟨layer, hlayer, rfl⟩ := List.mem_map.mp hc
    have hlayer := List.mem_range.mp hlayer
    exact ⟨_, _, (has_parts sha256 key message).layer_eq layer hlayer,
      Signer.wotsSign_eq (hashes_plain sha256 _ _) hp (keyPair_inRange sha256 hp message hlayer) _⟩
  · rw [hcalls] at hc
    obtain ⟨layer, -, rfl⟩ := List.mem_map.mp hc
    rfl

/-- **One-time keys sign once**: whatever two messages a key signs, before and after whatever
else it signed, a one-time key that both signatures use is given the same value in both. -/
theorem sign_sameMessage (hp : p ∈ Params.ALL) {key₁ key₂ : SigningKey} (h₁ : key₁.Reachable sha256 p seeds)
    (h₂ : key₂.Reachable sha256 p seeds) (m₁ m₂ : Bytes) :
    ∃ s₁ s₂, key₁.signRun sha256 m₁ = some s₁ ∧ key₂.signRun sha256 m₂ = some s₂ ∧
      s₁.Records sha256 p seeds ∧ s₂.Records sha256 p seeds ∧
      ∀ c₁ ∈ s₁.calls, ∀ c₂ ∈ s₂.calls, c₁.layer = c₂.layer → c₁.tree = c₂.tree → c₁.keyPair = c₂.keyPair →
        c₁.message = c₂.message := by
  have hfacts := Params.facts p hp
  obtain ⟨s₁, hrun₁, hrecords₁, hcalls₁⟩ := calls_signedAt sha256 hfacts (h₁.sound sha256 hfacts) m₁
  obtain ⟨s₂, hrun₂, hrecords₂, hcalls₂⟩ := calls_signedAt sha256 hfacts (h₂.sound sha256 hfacts) m₂
  refine ⟨s₁, s₂, hrun₁, hrun₂, hrecords₁, hrecords₂, fun c₁ hc₁ c₂ hc₂ hlayer htree hkp => ?_⟩
  rw [hcalls₁ c₁ hc₁, hcalls₂ c₂ hc₂, hlayer, htree, hkp]

theorem sign_sameMessage_generated :
    ∃ key, SigningKey.generate (fun _ => Block.zero 32) .SHA2_128S ⟨Block.zero 16, Block.zero 16, Block.zero 16⟩ =
        some key ∧
      ∃ s₁ s₂, key.signRun (fun _ => Block.zero 32) [1] = some s₁ ∧ key.signRun (fun _ => Block.zero 32) [2] = some s₂ ∧
        ∀ c₁ ∈ s₁.calls, ∀ c₂ ∈ s₂.calls, c₁.layer = c₂.layer → c₁.tree = c₂.tree → c₁.keyPair = c₂.keyPair →
          c₁.message = c₂.message := by
  obtain ⟨key, hgen, -⟩ := generate_sound (fun _ => Block.zero 32) (Params.facts .SHA2_128S (by decide))
    ⟨Block.zero 16, Block.zero 16, Block.zero 16⟩
  obtain ⟨s₁, s₂, hrun₁, hrun₂, -, -, hsame⟩ := sign_sameMessage (fun _ => Block.zero 32)
    (show Params.SHA2_128S ∈ Params.ALL by decide) (.generate hgen) (.generate hgen) [1] [2]
  exact ⟨key, hgen, s₁, s₂, hrun₁, hrun₂, hsame⟩

end KaspaPqv.SlhScript
