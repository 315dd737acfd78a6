import KaspaPqv.Lib.Binding
import KaspaPqv.SlhScript.Sign
import KaspaPqv.SlhScript.WotsCode

/-!
# What an accepted signature shows

The root of a key binds all the trees below it. A signature that is accepted for a message is,
layer by layer from the root down, the one that the key would have made: each one-time signature
is walked from the key's own chain values, each path is the key's, and the FORS values that are
opened are the key's secrets. There are two ways out, and both are named by where they happen.
The verifier hashed something else than the key's trees have at that place, and got what they
have (`Strays`); or a one-time key is shown to have signed something else than it ever signs, and
then a chain value before the one that the key gives away is in the signature (`Forges`).

The randomness is not bound: it is hashed into the digest, and nothing tells where it is from.

## What is proved

* `wots_binds`, `xmss_binds`, `fors_binds` — what each part of the verifier binds.
* `accepted_binds` — an accepted signature is the key's own, or strays, or forges.
-/

namespace KaspaPqv.SlhScript

open KaspaPqv.Lib

variable (sha256 : Bytes → Block 32) (p : Params) (seeds : SecretSeeds)

/-! ### The key's own values -/

/-- The value of a chain of a one-time key. -/
def chainAt (layer tree kp i j : ℕ) : Hash :=
  chain sha256 seeds.pkSeed ((wotsAdrs layer tree kp).setChainAddress i) (wotsSk sha256 seeds layer tree kp i) 0 j

/-- The root of FORS tree `i` at a position of the hypertree. -/
def forsRootGen (t l i : ℕ) : Hash :=
  nodeAt (forsLeafGen sha256 p seeds t l i) (forsNode sha256 p seeds.pkSeed t l i) p.a 0

/-! ### Where a verification strays -/

/-- A one-time signature `sig` of `m` leads to the key at a position by another way than the key's own. -/
inductive WotsStrays (layer tree kp : ℕ) (sig : ℕ → Hash) (m : Hash) : Prop
  /-- A step of a chain takes another value to the key's. -/
  | chain (i k : ℕ) (hi : i < p.len) (hk : wotsDigit p m i + k < p.w - 1)
      (hne : SlhScript.chain sha256 seeds.pkSeed ((wotsAdrs layer tree kp).setChainAddress i) (sig i) (wotsDigit p m i) k ≠
        chainAt sha256 seeds layer tree kp i (wotsDigit p m i + k))
      (heq : SlhScript.chain sha256 seeds.pkSeed ((wotsAdrs layer tree kp).setChainAddress i) (sig i) (wotsDigit p m i)
          (k + 1) = chainAt sha256 seeds layer tree kp i (wotsDigit p m i + k + 1))
  /-- Other ends of chains are hashed to the key. -/
  | key (i : ℕ) (hi : i < p.len)
      (hne : wotsEnd sha256 p seeds.pkSeed (wotsAdrs layer tree kp) sig m i ≠
        chainAt sha256 seeds layer tree kp i (p.w - 1))
      (heq : wotsPk sha256 p seeds.pkSeed (wotsAdrs layer tree kp)
          (wotsEnd sha256 p seeds.pkSeed (wotsAdrs layer tree kp) sig m) = wotsPkGen sha256 p seeds layer tree kp)

/-- A climb from a leaf of a tree meets a node of the tree with other children. -/
def ClimbStrays (leaf : ℕ → Hash) (node : ℕ → ℕ → Hash → Hash → Hash) (t : ℕ) (path : ℕ → Hash) (x : Hash) (z : ℕ) : Prop :=
  ∃ h < z, climbPair node t path x h ≠ childPair leaf node h (t >>> (h + 1)) ∧
    climb node t path x (h + 1) = nodeAt leaf node (h + 1) (t >>> (h + 1))

/-- The opened FORS values lead to the FORS key at a position by another way than the key's own. -/
inductive ForsStrays (t l : ℕ) (idx : ℕ → ℕ) (sk : ℕ → Hash) (auth : ℕ → ℕ → Hash) : Prop
  /-- Another value is hashed to a leaf. -/
  | secret (i : ℕ) (hi : i < p.k) (hne : sk i ≠ forsSk sha256 seeds (forsAdrs t l) (i <<< p.a + idx i))
      (heq : forsLeaf sha256 seeds.pkSeed t l (i <<< p.a + idx i) (sk i) = forsLeafGen sha256 p seeds t l i (idx i))
  /-- A path meets a node with other children. -/
  | path (i : ℕ) (hi : i < p.k) (h : ClimbStrays (forsLeafGen sha256 p seeds t l i)
      (forsNode sha256 p seeds.pkSeed t l i) (idx i) (auth i)
      (forsLeaf sha256 seeds.pkSeed t l (i <<< p.a + idx i) (sk i)) p.a)
  /-- Other roots are hashed to the FORS key. -/
  | roots (i : ℕ) (hi : i < p.k)
      (hne : forsRoot sha256 p seeds.pkSeed t l i (idx i) (sk i) (auth i) ≠ forsRootGen sha256 p seeds t l i)
      (heq : (forsPk sha256 p seeds.pkSeed t l fun i => forsRoot sha256 p seeds.pkSeed t l i (idx i) (sk i) (auth i)) =
        forsPkGen sha256 p seeds t l)

/-! ### What each part binds -/

variable {sha256 p seeds}

/-- **A one-time signature** that leads to the key is made of the key's chain values. -/
theorem wots_binds {layer tree kp : ℕ} {sig : ℕ → Hash} {m : Hash}
    (h : wotsPk sha256 p seeds.pkSeed (wotsAdrs layer tree kp)
      (wotsEnd sha256 p seeds.pkSeed (wotsAdrs layer tree kp) sig m) = wotsPkGen sha256 p seeds layer tree kp) :
    (∀ i < p.len, sig i = wotsAt sha256 p seeds m layer tree kp i) ∨ WotsStrays sha256 p seeds layer tree kp sig m := by
  by_cases hends : ∀ i < p.len, wotsEnd sha256 p seeds.pkSeed (wotsAdrs layer tree kp) sig m i =
      chainAt sha256 seeds layer tree kp i (p.w - 1)
  · by_cases hstray : WotsStrays sha256 p seeds layer tree kp sig m
    · exact .inr hstray
    · refine .inl fun i hi => ?_
      set adrs := (wotsAdrs layer tree kp).setChainAddress i with hadrs
      set f : ℕ → Hash → Hash := fun j x => hash sha256 seeds.pkSeed (adrs.setHashAddress j) [x.bytes] with hf
      have hdigit : wotsDigit p m i ≤ p.w - 1 := wotsDigit_le m i
      have hown (k : ℕ) : walk f (wotsDigit p m i) k (chainAt sha256 seeds layer tree kp i (wotsDigit p m i)) =
          chainAt sha256 seeds layer tree kp i (wotsDigit p m i + k) := by
        have hjoin := walk_walk f 0 (wotsDigit p m i) k (wotsSk sha256 seeds layer tree kp i)
        rwa [Nat.zero_add] at hjoin
      have hend : walk f (wotsDigit p m i) (p.w - 1 - wotsDigit p m i) (sig i) =
          walk f (wotsDigit p m i) (p.w - 1 - wotsDigit p m i)
            (chainAt sha256 seeds layer tree kp i (wotsDigit p m i)) := by
        rw [hown, Nat.add_sub_cancel' hdigit]
        exact hends i hi
      rcases walk_binds hend with hsame | ⟨k, hk, hne, heq⟩
      · exact hsame
      · rw [hown] at hne
        rw [hown, ← Nat.add_assoc] at heq
        exact absurd (.chain i k hi (by omega) hne heq) hstray
  · push Not at hends
    obtain ⟨i, hi, hne⟩ := hends
    exact .inr (.key i hi hne h)

/-- **A layer** that leads to the root of the key's tree has the key's one-time signature and path. -/
theorem xmss_binds {layer tree leaf : ℕ} (hleaf : leaf < 2 ^ p.hp) {sig auth : ℕ → Hash} {m : Hash}
    (h : xmssRoot sha256 p seeds.pkSeed layer tree leaf sig auth m = treeRoot sha256 p seeds layer tree) :
    ((∀ i < p.len, sig i = wotsAt sha256 p seeds m layer tree leaf i) ∧
        ∀ j < p.hp, auth j = treePath sha256 p seeds layer tree leaf j) ∨
      WotsStrays sha256 p seeds layer tree leaf sig m ∨
      ClimbStrays (wotsPkGen sha256 p seeds layer tree) (xmssNode sha256 seeds.pkSeed layer tree) leaf auth
        (wotsPk sha256 p seeds.pkSeed (wotsAdrs layer tree leaf)
          (wotsEnd sha256 p seeds.pkSeed (wotsAdrs layer tree leaf) sig m)) p.hp := by
  have htop : leaf >>> p.hp = 0 := by rw [Nat.shiftRight_eq_div_pow, Nat.div_eq_of_lt hleaf]
  rw [treeRoot, ← htop] at h
  rcases climb_binds h with ⟨hkey, hpath⟩ | hstray
  · rcases wots_binds hkey with hsig | hstray
    · exact .inl ⟨hsig, hpath⟩
    · exact .inr (.inl hstray)
  · exact .inr (.inr hstray)

/-- **The FORS signature** that leads to the key's FORS public key opens the key's secrets. -/
theorem fors_binds {t l : ℕ} {idx : ℕ → ℕ} (hidx : ∀ i, idx i < 2 ^ p.a) {sk : ℕ → Hash} {auth : ℕ → ℕ → Hash}
    (h : (forsPk sha256 p seeds.pkSeed t l fun i => forsRoot sha256 p seeds.pkSeed t l i (idx i) (sk i) (auth i)) =
      forsPkGen sha256 p seeds t l) :
    (∀ i < p.k, sk i = forsSk sha256 seeds (forsAdrs t l) (i <<< p.a + idx i) ∧
        ∀ j < p.a, auth i j = forsPath sha256 p seeds t l i (idx i) j) ∨
      ForsStrays sha256 p seeds t l idx sk auth := by
  by_cases hroots : ∀ i < p.k, forsRoot sha256 p seeds.pkSeed t l i (idx i) (sk i) (auth i) = forsRootGen sha256 p seeds t l i
  · by_cases hstray : ForsStrays sha256 p seeds t l idx sk auth
    · exact .inr hstray
    · refine .inl fun i hi => ?_
      have htop : idx i >>> p.a = 0 := by rw [Nat.shiftRight_eq_div_pow, Nat.div_eq_of_lt (hidx i)]
      have hroot := hroots i hi
      rw [forsRoot, forsRootGen, ← htop] at hroot
      rcases climb_binds hroot with ⟨hleaf, hpath⟩ | hclimb
      · refine ⟨?_, hpath⟩
        by_contra hne
        exact hstray (.secret i hi hne hleaf)
      · exact absurd (.path i hi hclimb) hstray
  · push Not at hroots
    obtain ⟨i, hi, hne⟩ := hroots
    exact .inr (.roots i hi hne h)

/-- Of two messages the second one has a digit below the first one's. -/
theorem exists_wotsDigit_lt (hp : p.Facts) {m m' : Hash} (hne : m ≠ m') :
    ∃ i < p.len, wotsDigit p m' i < wotsDigit p m i := by
  have hdiffer : ∃ i < p.len1, messageDigit p m i ≠ messageDigit p m' i := by
    by_contra hall
    push Not at hall
    exact hne (eq_of_messageDigit_eq hp hall)
  have hlack : lack p.w p.len1 (messageDigit p m) < p.w ^ p.len2 := by
    rw [← checksum_eq_lack, ← Params.two_pow_csumBits]
    exact checksum_lt hp m le_rfl
  obtain ⟨i, hi, hlt⟩ := exists_checksummed_lt (fun i _ => messageDigit_lt p m' i) hlack hdiffer
  rw [← wotsDigit_eq, ← wotsDigit_eq] at hlt
  exact ⟨i, hi, hlt⟩

/-! ### A whole signature -/

section positions

variable (p : Params) (D : Bytes)

/-- The tree of a layer that a digest leads to. -/
def treeOf (layer : ℕ) : ℕ := treeAt p (treeIndex p D) layer

/-- The leaf of a layer that a digest leads to. -/
def leafOf (layer : ℕ) : ℕ := leafAt p (treeIndex p D) (leafIndex p D) layer

/-- The leaf of a FORS tree that a digest opens. -/
def openedOf (i : ℕ) : ℕ := forsIndex p (D.take p.mdLen) i

end positions

section parts

variable (sha256) (p) (seeds) (parts : SigParts) (D : Bytes)

/-- What the one-time key of a layer signs, whatever the digest is that led there. -/
def ownAt (layer : ℕ) : Hash := signedAt sha256 p seeds layer (treeOf p D layer) (leafOf p D layer)

/-- The FORS public key that a signature leads to. -/
def SigParts.pkFors : Hash :=
  forsPk sha256 p seeds.pkSeed (treeOf p D 0) (leafOf p D 0) fun i =>
    forsRoot sha256 p seeds.pkSeed (treeOf p D 0) (leafOf p D 0) i (openedOf p D i) (parts.sk i) (parts.forsAuth i)

/-- The node that enters a layer of the verifier. -/
def SigParts.node (layer : ℕ) : Hash :=
  hypertreeNode sha256 p seeds.pkSeed parts (treeIndex p D) (leafIndex p D) (parts.pkFors sha256 p seeds D) layer

/-- The signature is the one that the key makes of the digest. -/
structure SigParts.Own : Prop where
  sk_eq : ∀ i < p.k, parts.sk i =
    forsSk sha256 seeds (forsAdrs (treeOf p D 0) (leafOf p D 0)) (i <<< p.a + openedOf p D i)
  forsAuth_eq : ∀ i < p.k, ∀ j < p.a, parts.forsAuth i j =
    forsPath sha256 p seeds (treeOf p D 0) (leafOf p D 0) i (openedOf p D i) j
  wots_eq : ∀ layer < p.d, ∀ i < p.len, parts.wots layer i =
    wotsAt sha256 p seeds (ownAt sha256 p seeds D layer) layer (treeOf p D layer) (leafOf p D layer) i
  auth_eq : ∀ layer < p.d, ∀ j < p.hp, parts.auth layer j =
    treePath sha256 p seeds layer (treeOf p D layer) (leafOf p D layer) j

/-- Somewhere the verifier hashes something else than the key's trees have there, and gets what they have. -/
inductive SigParts.Strays : Prop
  | fors (h : ForsStrays sha256 p seeds (treeOf p D 0) (leafOf p D 0) (openedOf p D) parts.sk parts.forsAuth)
  | wots (layer : ℕ) (hlayer : layer < p.d)
      (h : WotsStrays sha256 p seeds layer (treeOf p D layer) (leafOf p D layer) (parts.wots layer)
        (parts.node sha256 p seeds D layer))
  | path (layer : ℕ) (hlayer : layer < p.d)
      (h : ClimbStrays (wotsPkGen sha256 p seeds layer (treeOf p D layer))
        (xmssNode sha256 seeds.pkSeed layer (treeOf p D layer)) (leafOf p D layer) (parts.auth layer)
        (wotsPk sha256 p seeds.pkSeed (wotsAdrs layer (treeOf p D layer) (leafOf p D layer))
          (wotsEnd sha256 p seeds.pkSeed (wotsAdrs layer (treeOf p D layer) (leafOf p D layer)) (parts.wots layer)
            (parts.node sha256 p seeds D layer))) p.hp)

/-- The signature shows a value of one of the key's chains that comes before the one that the key gives away. -/
def SigParts.Forges : Prop :=
  ∃ layer < p.d, ∃ i < p.len, ∃ j < wotsDigit p (ownAt sha256 p seeds D layer) i,
    parts.wots layer i = chainAt sha256 seeds layer (treeOf p D layer) (leafOf p D layer) i j

end parts

section binds

variable {parts : SigParts} {D : Bytes}

theorem openedOf_lt (p : Params) (D : Bytes) (i : ℕ) : openedOf p D i < 2 ^ p.a := bitField_lt _ _ _

theorem leafOf_lt (p : Params) (D : Bytes) (layer : ℕ) : leafOf p D layer < 2 ^ p.hp := leafAt_lt D _ layer

/-- What is signed in a layer is the root of the tree below. -/
theorem ownAt_succ (D : Bytes) (layer : ℕ) :
    ownAt sha256 p seeds D (layer + 1) = treeRoot sha256 p seeds layer (treeOf p D layer) := by
  rw [ownAt, signedAt, treeOf, leafOf, treeAt_of_position, treeOf]

/-- The one-time signature and the path of a layer are the key's. -/
def SigParts.OwnLayer (sha256 : Bytes → Block 32) (p : Params) (seeds : SecretSeeds) (parts : SigParts) (D : Bytes)
    (layer : ℕ) : Prop :=
  (∀ i < p.len, parts.wots layer i =
      wotsAt sha256 p seeds (ownAt sha256 p seeds D layer) layer (treeOf p D layer) (leafOf p D layer) i) ∧
    ∀ j < p.hp, parts.auth layer j = treePath sha256 p seeds layer (treeOf p D layer) (leafOf p D layer) j

/-- **One layer**: if it comes to the root of the key's tree, then it is the key's and so is the node
that enters it, or the signature strays or forges there. -/
theorem layer_binds (hp : p.Facts) {layer : ℕ} (hlayer : layer < p.d)
    (h : parts.node sha256 p seeds D (layer + 1) = ownAt sha256 p seeds D (layer + 1)) :
    (parts.OwnLayer sha256 p seeds D layer ∧ parts.node sha256 p seeds D layer = ownAt sha256 p seeds D layer) ∨
      parts.Strays sha256 p seeds D ∨ parts.Forges sha256 p seeds D := by
  rw [ownAt_succ] at h
  rcases xmss_binds (leafOf_lt p D layer) h with ⟨hwots, hauth⟩ | hstray | hstray
  · by_cases hnode : parts.node sha256 p seeds D layer = ownAt sha256 p seeds D layer
    · refine .inl ⟨⟨fun i hi => ?_, hauth⟩, hnode⟩
      rw [← hnode]
      exact hwots i hi
    · -- the one-time key is shown to have signed another node, which has a smaller digit
      obtain ⟨i, hi, hlt⟩ := exists_wotsDigit_lt hp (Ne.symm hnode)
      exact .inr (.inr ⟨layer, hlayer, i, hi, _, hlt, hwots i hi⟩)
  · exact .inr (.inl (.wots layer hlayer hstray))
  · exact .inr (.inl (.path layer hlayer hstray))

/-- **All the layers below a node of the key**, from the root down. -/
theorem layers_bind (hp : p.Facts) {n : ℕ} (hn : n ≤ p.d)
    (h : parts.node sha256 p seeds D n = ownAt sha256 p seeds D n)
    (hupper : ∀ layer, n ≤ layer → layer < p.d → parts.OwnLayer sha256 p seeds D layer) :
    parts.Own sha256 p seeds D ∨ parts.Strays sha256 p seeds D ∨ parts.Forges sha256 p seeds D := by
  induction n with
  | zero =>
    rcases fors_binds (openedOf_lt p D) h with hfors | hstray
    · exact .inl ⟨fun i hi => (hfors i hi).1, fun i hi => (hfors i hi).2,
        fun layer hlayer => (hupper layer layer.zero_le hlayer).1, fun layer hlayer => (hupper layer layer.zero_le hlayer).2⟩
    · exact .inr (.inl (.fors hstray))
  | succ n ih =>
    rcases layer_binds hp hn h with ⟨hown, hnode⟩ | hout
    · refine ih (Nat.le_of_succ_le hn) hnode fun layer hle hlt => ?_
      rcases Nat.eq_or_lt_of_le hle with rfl | hlt'
      · exact hown
      · exact hupper layer hlt' hlt
    · exact .inr hout

theorem node_succ (parts : SigParts) (D : Bytes) (layer : ℕ) : parts.node sha256 p seeds D (layer + 1) =
    xmssRoot sha256 p seeds.pkSeed layer (treeOf p D layer) (leafOf p D layer) (parts.wots layer) (parts.auth layer)
      (parts.node sha256 p seeds D layer) := rfl

/-- Only the chains and the levels that there are matter. -/
theorem xmssRoot_congr {layer tree leaf : ℕ} {sig sig' auth auth' : ℕ → Hash} {m : Hash}
    (hsig : ∀ i < p.len, sig i = sig' i) (hauth : ∀ j < p.hp, auth j = auth' j) :
    xmssRoot sha256 p seeds.pkSeed layer tree leaf sig auth m =
      xmssRoot sha256 p seeds.pkSeed layer tree leaf sig' auth' m := by
  have hends : ∀ i ∈ List.range p.len, (wotsEnd sha256 p seeds.pkSeed (wotsAdrs layer tree leaf) sig m i).bytes =
      (wotsEnd sha256 p seeds.pkSeed (wotsAdrs layer tree leaf) sig' m i).bytes := by
    intro i hi
    rw [wotsEnd, wotsEnd, hsig i (List.mem_range.mp hi)]
  rw [xmssRoot, xmssRoot, wotsPk, wotsPk, List.map_congr_left hends]
  exact climb_congr _ hauth

/-- The verifier comes to the key's own nodes from the key's own signature. -/
theorem SigParts.Own.node_eq (h : parts.Own sha256 p seeds D) {layer : ℕ} (hlayer : layer ≤ p.d) :
    parts.node sha256 p seeds D layer = ownAt sha256 p seeds D layer := by
  induction layer with
  | zero =>
    have hroots : ∀ i ∈ List.range p.k, (forsRoot sha256 p seeds.pkSeed (treeOf p D 0) (leafOf p D 0) i
        (openedOf p D i) (parts.sk i) (parts.forsAuth i)).bytes =
          (forsRootGen sha256 p seeds (treeOf p D 0) (leafOf p D 0) i).bytes := by
      intro i hi
      have hi := List.mem_range.mp hi
      rw [h.sk_eq i hi, forsRootGen, ← forsRoot_eq sha256 _ _ i (openedOf_lt p D i), forsRoot, forsRoot,
        climb_congr _ (h.forsAuth_eq i hi)]
    change hash _ _ _ _ = hash _ _ _ _
    rw [List.map_congr_left hroots]
    rfl
  | succ layer ih =>
    rw [node_succ, ih (Nat.le_of_succ_le hlayer), ownAt_succ, xmssRoot_congr (h.wots_eq layer hlayer) (h.auth_eq layer hlayer)]
    exact xmssRoot_eq sha256 _ layer _ (leafOf_lt p D layer)

/-- The verifier's last node is the root it compares with the key's. -/
theorem root_eq_node {pk : PublicKey} (hseed : pk.seed = seeds.pkSeed) (message : Bytes)
    (hD : D = messageDigest sha256 p parts.randomness pk message) :
    (trace sha256 p pk parts message).root = parts.node sha256 p seeds D p.d := by
  rw [trace, hseed, hD]
  rfl

/-- The key's root is what the layer above the last one would sign. -/
theorem ownAt_d (hp : p.Facts) (D : Bytes) : ownAt sha256 p seeds D p.d = treeRoot sha256 p seeds (p.d - 1) 0 := by
  obtain ⟨d, hd⟩ : ∃ d, p.d = d + 1 := ⟨p.d - 1, by have := hp.d_pos; omega⟩
  have htop : treeOf p D d = 0 := by
    rw [treeOf, treeAt_eq, show d = p.d - 1 by omega]
    exact Nat.div_eq_of_lt (treeIndex_lt hp D)
  rw [hd, ownAt_succ, htop, Nat.add_sub_cancel]

/-- **An accepted signature is the key's own**, or it strays, or it forges: for every key that can
exist, every message and every signature. And the key's own signature is accepted, whatever its
randomness. -/
theorem accepted_binds (hp : p ∈ Params.ALL) {key : SigningKey} (hkey : key.Reachable sha256 p seeds) {sig : Signature}
    (hset : sig.p = p) (hparts : sig.Has parts) (message : Bytes)
    (hD : D = messageDigest sha256 p sig.randomness key.publicKey message) :
    (verify sha256 key.publicKey sig message = some true →
        parts.Own sha256 p seeds D ∨ parts.Strays sha256 p seeds D ∨ parts.Forges sha256 p seeds D) ∧
      (parts.Own sha256 p seeds D → verify sha256 key.publicKey sig message = some true) := by
  subst hset
  have hfacts := Params.facts sig.p hp
  have hpublic := (hkey.sound sha256 hfacts).publicKey_eq
  have hseed : key.publicKey.seed = seeds.pkSeed := by rw [hpublic]
  have hown : ownAt sha256 sig.p seeds D sig.p.d = key.publicKey.root := by rw [ownAt_d hfacts, hpublic]
  rw [hparts.randomness_eq] at hD
  rw [verify_eq sha256 hfacts hparts, root_eq_node hseed message hD]
  constructor
  · intro hverify
    have hroot := of_decide_eq_true (Option.some.inj hverify)
    refine layers_bind hfacts le_rfl (hroot.trans hown.symm) fun layer hle hlt => ?_
    exact absurd hlt (Nat.not_lt_of_le hle)
  · intro h
    exact congrArg some (decide_eq_true ((h.node_eq le_rfl).trans hown))

/-- The secrets of zeros. -/
def zeroSeeds : SecretSeeds := ⟨Block.zero N, Block.zero N, Block.zero N⟩

theorem accepted_binds_zeros :
    ∃ key, SigningKey.generate (fun _ => Block.zero 32) .SHA2_128_24_D2 zeroSeeds = some key ∧
      ∃ (parts : SigParts) (D : Bytes), parts.Own (fun _ => Block.zero 32) .SHA2_128_24_D2 zeroSeeds D ∨
        parts.Strays (fun _ => Block.zero 32) .SHA2_128_24_D2 zeroSeeds D ∨
        parts.Forges (fun _ => Block.zero 32) .SHA2_128_24_D2 zeroSeeds D := by
  obtain ⟨key, hgen, hsound⟩ := generate_sound (fun _ => Block.zero 32)
    (Params.facts .SHA2_128_24_D2 (by decide)) zeroSeeds
  have hverify := verify_signature (fun _ => Block.zero 32) (Params.facts _ (by decide)) hsound []
  exact ⟨key, hgen, _, _, (accepted_binds (by decide) (.generate hgen) hsound.p_eq
    (has_parts (fun _ => Block.zero 32) key []) [] rfl).1 hverify⟩

end binds

end KaspaPqv.SlhScript
