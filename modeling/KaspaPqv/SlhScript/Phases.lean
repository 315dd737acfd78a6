import KaspaPqv.SlhScript.Emit
import KaspaPqv.SlhScript.WitnessQueue

/-!
# What the phases of the verifier compute

Each phase of the emitted verifier, against the function of the reference that it unrolls.
The slots are written out as the phases find them; what lies below them is left open.

## What is proved

* `Emits.emitHMsg`, `Emits.emitIndices` — the message digest, and the position it names.
* `Emits.emitPath` — an authentication path is a climb.
* `Emits.emitFors` — the FORS public key.
* `Emits.emitWots`, `Emits.emitLayer` — a one-time key, and a layer of the hypertree.
-/

namespace KaspaPqv.SlhScript

open KaspaPqv.Lib KaspaPqv.Script

/-- What the hashes of one context start with: the address up to its first word. -/
def contextBytes (pkSeed : Hash) (layer tree ty kp : ℕ) : Bytes :=
  hashPad pkSeed ++ [UInt8.ofNat layer] ++ beBytes 8 tree ++ [UInt8.ofNat ty] ++ beBytes 4 kp

/-- A hash, from its context. -/
theorem hash_context (sha256 : Bytes → Block 32) (pkSeed : Hash) (layer tree ty kp w₂ w₃ : ℕ) (message : List Bytes) :
    hash sha256 pkSeed ⟨layer, tree, ty, kp, w₂, w₃⟩ message =
      truncN (sha256 (contextBytes pkSeed layer tree ty kp ++ beBytes 4 w₂ ++ beBytes 4 w₃ ++ message.flatten)) := by
  simp only [hash, Adrs.asBytes, contextBytes, List.append_assoc]
  rfl

/-- The words of an index of which only the low bytes are laid out. -/
theorem heightTail_append {height width index : ℕ} (hw : width ≤ 4) (h : index < 256 ^ width) :
    Emitter.heightTail height width ++ beBytes width index = beBytes 4 height ++ beBytes 4 index := by
  have hsplit : 4 = 4 - width + width := by omega
  conv_rhs => rw [hsplit, beBytes_add h]
  rw [Emitter.heightTail, List.append_assoc, Nat.sub_add_cancel hw]

theorem two_pow_le_256 {w : ℕ} : 2 ^ (8 * w - 1) ≤ 256 ^ w := by
  rw [pow_256]
  exact Nat.pow_le_pow_right (by norm_num) (Nat.sub_le _ _)

/-- What the emitter needs of a set beside what signer and verifier need. -/
structure Emittable (p : Params) : Prop extends p.Facts where
  window : ∀ i < p.k, i * p.a / 8 + Emitter.forsFieldBytes p i ≤ p.m
  elements_lt : p.sigElements * N < 2 ^ 63

theorem emittable : ∀ p ∈ Params.ALL, Emittable p := fun p hp =>
  ⟨Params.facts p hp, (by decide : ∀ p ∈ Params.ALL, ∀ i < p.k, i * p.a / 8 + Emitter.forsFieldBytes p i ≤ p.m) p hp,
    (by decide : ∀ p ∈ Params.ALL, p.sigElements * N < 2 ^ 63) p hp⟩

namespace Emits

variable {S : Setting} {plan : BlobPlan} {pk : PublicKey} {ps : Pieces} {element : ℕ → Hash} {q : Queue}
  {vs : List (Slot × Bytes)} {k n : ℕ}

/-! ### Contexts -/

theorem emitHashContext {p : Params} {layer ty kp tree k' : ℕ} {slot : Slot} (hlayer : layer < 256)
    (htree : ∀ b, find Slot.tree (tmp b :: vs) = some (k, encodeNum tree)) (hk : k < 2 ^ 63)
    (hkp : ∀ b, find slot (tmp b :: vs) = some (k', encodeNum kp)) (hk' : k' < 2 ^ 63)
    (hzero : p.idxTreeBits = 0 → tree = 0) (htree_lt : tree < 2 ^ 63) (hkp_lt : kp < 2 ^ 31) (words : ℕ) :
    Emits S (Emitter.emitHashContext pk p layer ty (some slot) words) ⟨vs, q⟩
      ⟨tmp (contextBytes pk.seed layer tree ty kp ++ zeros (4 * words)) :: vs, q⟩ := by
  refine .seq (.ensure hlayer) <| .seq (data _) <| .seq (emitTreeBytes (htree _) hk hzero htree_lt) <| .seq cat <|
    .seq (data _) <| .seq cat <| .seq (.seq (pick (hkp _) hk') (emitBeBytes (by norm_num) (by norm_num) hkp_lt)) <|
    .seq cat ?_
  set I : ℕ → Conf Slot := fun i => ⟨tmp (contextBytes pk.seed layer tree ty kp ++ zeros (4 * i)) :: vs, q⟩ with hI
  have hturn : ∀ i < words, Emits S (do
      Emitter.data (zeros 4)
      Emitter.cat) (I i) (I (i + 1)) := by
    intro i _
    have hword : zeros (4 * (i + 1)) = zeros (4 * i) ++ zeros 4 := by
      rw [zeros, zeros, zeros, Nat.mul_succ, List.replicate_add]
    simp only [hI]
    rw [hword, ← List.append_assoc]
    exact .seq (data _) cat
  have hstart : I 0 = ⟨tmp (contextBytes pk.seed layer tree ty kp) :: vs, q⟩ := by simp [hI, zeros]
  exact hstart ▸ forRange I hturn

/-! ### Merkle steps -/

/-- The bit of a slot, as a condition. -/
theorem emitBit {bitSlot : Slot} {bit t : ℕ} (h : find bitSlot vs = some (k, encodeNum t)) (hk : k < 2 ^ 63)
    (ht : t < 2 ^ 63) (hbit : bit < 63) :
    Emits S (Emitter.emitBit bitSlot bit) ⟨vs, q⟩ ⟨tmp (boolBytes (t >>> bit % 2 = 1)) :: vs, q⟩ := by
  rw [← encodeNum_mod_two, Nat.shiftRight_eq_div_pow]
  exact .seq (pick h hk) <| .seq (divPow_onlyIf ht hbit) <|
    modulo ((Nat.div_le_self _ _).trans_lt ht) (by norm_num) (by norm_num)

/-- **A Merkle step**: the bit says on which side the sibling is. -/
theorem emitMerkleStep {bitSlot : Slot} {bit t : ℕ} {y a x : Bytes} {s : Slot}
    (h : find bitSlot ((.auth, a) :: (.node, x) :: (.pfx, y) :: vs) = some (k, encodeNum t)) (hk : k < 2 ^ 63)
    (ht : t < 2 ^ 63) (hbit : bit < 63) :
    Emits S (Emitter.emitMerkleStep bitSlot bit) ⟨(s, y) :: (.auth, a) :: (.node, x) :: vs, q⟩
      ⟨(.node, (truncN (S.env.sha256 (y ++ if t >>> bit % 2 = 0 then x ++ a else a ++ x))).bytes) :: vs, q⟩ := by
  have hswap : Emits S (Emitter.ifBlock Emitter.swap)
      ⟨tmp (boolBytes (t >>> bit % 2 = 1)) :: (.auth, a) :: (.node, x) :: (.pfx, y) :: vs, q⟩
      ⟨(.node, if t >>> bit % 2 = 0 then a else x) :: (.auth, if t >>> bit % 2 = 0 then x else a) :: (.pfx, y) :: vs, q⟩ := by
    refine ifBlock swap rfl rfl (fun hb => ?_) fun hb => ?_
    · have hodd : t >>> bit % 2 = 1 := of_decide_eq_true hb
      have hne : ¬t >>> bit % 2 = 0 := by omega
      simp only [if_neg hne, List.map_cons]
    · have hodd : ¬t >>> bit % 2 = 1 := of_decide_eq_false hb
      have heven : t >>> bit % 2 = 0 := by omega
      simp only [if_pos heven, List.map_cons]
  have hvalue : (if t >>> bit % 2 = 0 then x else a) ++ (if t >>> bit % 2 = 0 then a else x) =
      if t >>> bit % 2 = 0 then x ++ a else a ++ x := by
    split_ifs <;> rfl
  rw [← hvalue]
  exact .seq (nameTop _) <| .seq (roll rfl (by decide)) <| .seq (roll rfl (by decide)) <|
    .seq (emitBit h hk ht hbit) <| .seq hswap <| .seq cat <| .seq cat <| .seq sha256 <|
    .seq (substr (Nat.zero_le _) (by simp [N]) (by norm_num [N])) (nameTop _)

/-- What a path needs of the slots below the node: where its index, its context and its bits are. -/
structure PathSlots (vs : List (Slot × Bytes)) (indexSlot contextSlot bitSlot : Slot) (v : ℕ) (context : Bytes) (t : ℕ) :
    Prop where
  index : ∀ a x, ∃ k < 2 ^ 63, find indexSlot ((.auth, a) :: (.node, x) :: vs) = some (k, encodeNum v)
  context : ∀ b a x, ∃ k < 2 ^ 63, find contextSlot (tmp b :: (.auth, a) :: (.node, x) :: vs) = some (k, context)
  bit : ∀ a x y, ∃ k < 2 ^ 63, find bitSlot ((.auth, a) :: (.node, x) :: (.pfx, y) :: vs) = some (k, encodeNum t)

/-- **A level of a path**, from the sibling that is fetched. -/
theorem emitPathLevel {indexSlot contextSlot bitSlot : Slot} {v t w j : ℕ} {context x a : Bytes} {q' : Queue}
    (hfetch : Emits S (Emitter.fetch plan Slot.auth) ⟨(.node, x) :: vs, q⟩ ⟨(.auth, a) :: (.node, x) :: vs, q'⟩)
    (hslots : PathSlots vs indexSlot contextSlot bitSlot v context t) (hpos : 1 ≤ w) (hw : w ≤ 4)
    (hv : v < 2 ^ (8 * w - 1)) (ht : t < 2 ^ 63) (hj : j < 62) :
    Emits S (Emitter.emitPathLevel plan indexSlot contextSlot bitSlot w j) ⟨(.node, x) :: vs, q⟩
      ⟨(.node, (truncN (S.env.sha256 (context ++ beBytes 4 (j + 1) ++ beBytes 4 (v / 2 ^ (j + 1)) ++
        if t >>> j % 2 = 0 then x ++ a else a ++ x))).bytes) :: vs, q'⟩ := by
  have hv63 : v < 2 ^ 63 := hv.trans_le (Nat.pow_le_pow_right (by norm_num) (by omega))
  have hhalf : v / 2 ^ (j + 1) < 2 ^ (8 * w - 1) := (Nat.div_le_self _ _).trans_lt hv
  obtain ⟨k₁, hk₁, hindex⟩ := hslots.index a x
  obtain ⟨k₂, hk₂, hcontext⟩ := hslots.context (beBytes w (v / 2 ^ (j + 1))) a x
  have htail : context ++ beBytes 4 (j + 1) ++ beBytes 4 (v / 2 ^ (j + 1)) =
      context ++ Emitter.heightTail (j + 1) w ++ beBytes w (v / 2 ^ (j + 1)) := by
    rw [List.append_assoc, List.append_assoc, heightTail_append hw (hhalf.trans_le two_pow_le_256)]
  rw [htail]
  obtain ⟨k₃, hk₃, hbit⟩ := hslots.bit a x
    (context ++ Emitter.heightTail (j + 1) w ++ beBytes w (v / 2 ^ (j + 1)))
  exact .seq hfetch <| .seq (pick hindex hk₁) <| .seq (divPow hv63 (by omega)) <|
    .seq (emitBeBytes hpos (by omega) hhalf) <| .seq (pick hcontext hk₂) <| .seq (data _) <| .seq cat <| .seq swap <|
    .seq cat <| emitMerkleStep hbit hk₃ ht (by omega)

/-- **A path** is a climb. -/
theorem emitPath (h : Delivers S plan ps element) {indexSlot contextSlot bitSlot : Slot} {v t w height : ℕ}
    {context : Bytes} (hslots : PathSlots vs indexSlot contextSlot bitSlot v context t) (hpos : 1 ≤ w) (hw : w ≤ 4)
    (hv : v < 2 ^ (8 * w - 1)) (ht : t < 2 ^ 63) (hheight : height ≤ 62) (hn : n + height ≤ plan.p.sigElements)
    {node : ℕ → ℕ → Hash → Hash → Hash} (hnode : ∀ j < height, ∀ l r, node (j + 1) (t >>> (j + 1)) l r =
      truncN (S.env.sha256 (context ++ beBytes 4 (j + 1) ++ beBytes 4 (v / 2 ^ (j + 1)) ++ (l.bytes ++ r.bytes))))
    (x : Hash) :
    Emits S (Gen.forRange height (Emitter.emitPathLevel plan indexSlot contextSlot bitSlot w))
      ⟨(.node, x.bytes) :: vs, queueAt ps n⟩
      ⟨(.node, (climb node t (fun j => element (n + j)) x height).bytes) :: vs, queueAt ps (n + height)⟩ := by
  refine forRange (fun j => ⟨(.node, (climb node t (fun j => element (n + j)) x j).bytes) :: vs, queueAt ps (n + j)⟩)
    fun j hj => ?_
  have hlevel := emitPathLevel (fetch h (show n + j < plan.p.sigElements by omega) Slot.auth) hslots hpos hw hv ht
    (show j < 62 by omega) (x := (climb node t (fun j => element (n + j)) x j).bytes)
  have hvalue : (climb node t (fun j => element (n + j)) x (j + 1)).bytes =
      (truncN (S.env.sha256 (context ++ beBytes 4 (j + 1) ++ beBytes 4 (v / 2 ^ (j + 1)) ++
        if t >>> j % 2 = 0 then (climb node t (fun j => element (n + j)) x j).bytes ++ (element (n + j)).bytes
        else (element (n + j)).bytes ++ (climb node t (fun j => element (n + j)) x j).bytes))).bytes := by
    rw [climb]
    split_ifs
    · rw [hnode j hj]
    · rw [hnode j hj]
  rw [hvalue]
  exact hlevel

/-! ### The message digest -/

variable (pk vs) in
/-- **The message digest.** On the way there are four slots. -/
theorem emitHMsg (h : Delivers S plan ps element) (hp : plan.p.Facts) (hn : 0 < plan.p.sigElements) (message : Bytes) :
    Reaches S 3 (Emitter.emitHMsg plan pk) ⟨(.d, message) :: vs, queueAt ps 0⟩
      ⟨(.digest, messageDigest S.env.sha256 plan.p (element 0) pk message) :: vs, queueAt ps 1⟩ := by
  have hm : plan.p.m ≤ 32 := hp.m_le
  have hinner : (element 0).bytes ++ (pk.seed.bytes ++ pk.root.bytes ++ [0, 0]) ++ message =
      (element 0).bytes ++ pk.seed.bytes ++ pk.root.bytes ++ contextPrefixed message := by
    simp only [contextPrefixed, List.append_assoc]
  have hvalue : messageDigest S.env.sha256 plan.p (element 0) pk message =
      slice (S.env.sha256 ((element 0).bytes ++ pk.seed.bytes ++ (S.env.sha256 ((element 0).bytes ++
        (pk.seed.bytes ++ pk.root.bytes ++ [0, 0]) ++ message)).bytes ++ beBytes 4 0)).bytes 0 plan.p.m := by
    rw [hinner, slice_zero, messageDigest]
  rw [hvalue]
  refine .after (fetch h hn Slot.r) <| .after dup <| reaches (data _) ?_ (by simp)
  exact .seq cat <| .seq (roll rfl (by decide)) <| .seq cat <| .seq sha256 <| .seq swap <| .seq (data _) <| .seq cat <|
    .seq swap <| .seq cat <| .seq (data _) <| .seq cat <| .seq sha256 <|
    .seq (substr (Nat.zero_le _) (by rw [Block.length_bytes]; exact hm) (by omega)) (nameTop _)

theorem beNat_slice_lt {D : Bytes} {i len : ℕ} (hlen : len ≤ 7) : beNat (slice D i (i + len)) < 2 ^ 63 := by
  have hlt := beNat_lt_two_pow (slice D i (i + len))
  refine hlt.trans_le (Nat.pow_le_pow_right (by norm_num) ?_)
  rw [length_slice]
  omega

/-- **The position in the hypertree.** -/
theorem emitIndices {p : Params} (hp : p.Facts) {D : Bytes} (hD : D.length = p.m) :
    Emits S (Emitter.emitIndices p) ⟨(.digest, D) :: vs, q⟩
      ⟨(.leaf, encodeNum (leafIndex p D)) :: (.tree, encodeNum (treeIndex p D)) :: (.digest, D) :: vs, q⟩ := by
  have hm := hp.m_eq
  have hm32 := hp.m_le
  have htreeLen := hp.idxTreeLen_le
  have hleafLen := hp.idxLeafLen_le
  have hleafBits := hp.hp_le_bits
  have hhp := hp.hp_pos
  have htree : Emits S (Emitter.emitTreeIndex p) ⟨(.digest, D) :: vs, q⟩
      ⟨tmp (encodeNum (treeIndex p D)) :: (.digest, D) :: vs, q⟩ := by
    have hbits := hp.idxTreeBits_le
    unfold Emitter.emitTreeIndex
    split_ifs with h0
    · have hzero : treeIndex p D = 0 := by rw [treeIndex, h0, bitField, pow_zero, Nat.mod_one]
      rw [hzero]
      exact num (0 : ℕ)
    · have hvalue : beNat (slice D p.mdLen (p.mdLen + p.idxTreeLen)) % 2 ^ p.idxTreeBits = treeIndex p D :=
        beNat_slice_mod (Nat.le_add_right _ _) (by omega) (by omega)
      rw [← hvalue, Nat.one_shiftLeft]
      exact .seq (emitBeIntFrom (by decide) rfl (by decide) (by omega) htreeLen (by omega) (by omega)) <|
        modulo (beNat_slice_lt htreeLen) (Nat.two_pow_pos _) (Nat.pow_lt_pow_right (by norm_num) (by omega))
  have hleaf : beNat (slice D (p.mdLen + p.idxTreeLen) (p.mdLen + p.idxTreeLen + p.idxLeafLen)) % 2 ^ p.hp =
      leafIndex p D := by
    rw [beNat_slice_mod (Nat.le_add_right _ _) (by omega) (by omega), hm, leafIndex]
  rw [← hleaf]
  unfold Emitter.emitIndices
  rw [Nat.one_shiftLeft]
  exact .seq htree <| .seq (nameTop _) <|
    .seq (emitBeIntFrom (by decide) rfl (by decide) (by omega) hleafLen (by omega) (by omega)) <|
    .seq (modulo (beNat_slice_lt hleafLen) (Nat.two_pow_pos _) (Nat.pow_lt_pow_right (by norm_num) (by omega)))
      (nameTop _)

/-! ### FORS -/

/-- **A FORS index** is a field of the digest. -/
theorem emitForsIndex {p : Params} (hp : Emittable p) {D : Bytes} (hD : D.length = p.m) {i : ℕ} (hi : i < p.k)
    (hfind : find Slot.digest vs = some (k, D)) (hk : k + 1 < 2 ^ 63) :
    Emits S (Emitter.emitForsIndex p i) ⟨vs, q⟩ ⟨(.idx, encodeNum (forsIndex p (D.take p.mdLen) i)) :: vs, q⟩ := by
  have hwindow := hp.window i hi
  have ha := hp.a_le
  have hm := hp.m_eq
  have hm32 := hp.m_le
  set fb := Emitter.forsFieldBytes p i with hfb
  have hceil : p.a + i * p.a % 8 ≤ 8 * fb := by
    rw [hfb, Emitter.forsFieldBytes, divCeil]
    omega
  have hfb7 : fb ≤ 7 := by
    rw [hfb, Emitter.forsFieldBytes, divCeil]
    omega
  have hfb0 : 0 < fb := by
    rw [hfb, Emitter.forsFieldBytes]
    omega
  have hbits : p.a * i + p.a ≤ 8 * p.mdLen := by
    have := Nat.mul_le_mul_right p.a hi
    have := hp.fors_bits
    rw [Nat.succ_mul] at *
    rw [Nat.mul_comm p.a i]
    omega
  have hvalue : beNat (slice D (i * p.a / 8) (i * p.a / 8 + fb)) / 2 ^ (fb * 8 - p.a - i * p.a % 8) % 2 ^ p.a =
      forsIndex p (D.take p.mdLen) i := by
    rw [forsIndex, bitField_take (by omega) hbits, beNat_slice (Nat.le_add_right _ _) (by omega),
      Nat.add_sub_cancel_left, show fb * 8 - p.a - i * p.a % 8 = 8 * fb - (i * p.a % 8 + p.a) by omega,
      bitField_sub (by omega) (by omega), Nat.div_add_mod, Nat.mul_comm]
  rw [← hvalue]
  unfold Emitter.emitForsIndex
  rw [Nat.one_shiftLeft]
  exact .seq (.ensure hwindow) <| .seq (emitBeIntFrom (by decide) hfind hk hfb0 hfb7 (by omega) (by omega)) <|
    .seq (divPow_onlyIf (beNat_slice_lt hfb7) (by omega)) <|
    .seq (modulo ((Nat.div_le_self _ _).trans_lt (beNat_slice_lt hfb7)) (Nat.two_pow_pos _)
      (Nat.pow_lt_pow_right (by norm_num) (by omega))) (nameTop _)

/-- An index over all FORS trees fits its width. -/
theorem forsIndex_fits {p : Params} (hp : p.Facts) {i idx : ℕ} (hi : i < p.k) (hidx : idx < 2 ^ p.a) :
    idx + i <<< p.a < 2 ^ (8 * p.forsIndexWidth - 1) := by
  have hlt := hp.forsIndex_lt
  have hmul := Nat.mul_le_mul_right (2 ^ p.a) hi
  rw [Nat.shiftLeft_eq] at hlt ⊢
  rw [Nat.succ_mul] at hmul
  omega

section fors

variable {t l : ℕ} {D acc : Bytes}

/-- **A FORS leaf.** -/
theorem emitForsLeaf (h : Delivers S plan ps element) (hp : plan.p.Facts) {i idx : ℕ} (hi : i < plan.p.k)
    (hidx : idx < 2 ^ plan.p.a) (hn : n < plan.p.sigElements) :
    Emits S (Emitter.emitForsLeaf plan i)
      ⟨(.idx, encodeNum idx) :: (.racc, acc) :: (.hcf, contextBytes pk.seed 0 t FORS_TREE l) :: vs, queueAt ps n⟩
      ⟨(.node, (forsLeaf S.env.sha256 pk.seed t l (i <<< plan.p.a + idx) (element n)).bytes) ::
        (.lx, encodeNum ((idx + i <<< plan.p.a : ℕ) : ℤ)) :: (.idx, encodeNum idx) :: (.racc, acc) ::
        (.hcf, contextBytes pk.seed 0 t FORS_TREE l) :: vs, queueAt ps (n + 1)⟩ := by
  have hfits := forsIndex_fits hp hi hidx
  have hw := hp.forsIndexWidth_le
  have hsmall : idx + i <<< plan.p.a < 2 ^ 63 := hfits.trans_le (Nat.pow_le_pow_right (by norm_num) (by omega))
  have hzeros : zeros (4 + (4 - plan.p.forsIndexWidth)) = Emitter.heightTail 0 plan.p.forsIndexWidth := by
    rw [Emitter.heightTail, zeros, List.replicate_add]
    rfl
  have hvalue : (forsLeaf S.env.sha256 pk.seed t l (i <<< plan.p.a + idx) (element n)).bytes =
      (truncN (S.env.sha256 (contextBytes pk.seed 0 t FORS_TREE l ++ Emitter.heightTail 0 plan.p.forsIndexWidth ++
        beBytes plan.p.forsIndexWidth (idx + i <<< plan.p.a) ++ (element n).bytes))).bytes := by
    rw [List.append_assoc (contextBytes _ _ _ _ _), heightTail_append hw (hfits.trans_le two_pow_le_256),
      ← List.append_assoc, Nat.add_comm idx]
    refine congrArg Block.bytes ((hash_context S.env.sha256 pk.seed 0 t FORS_TREE l 0 _ _).trans ?_)
    rw [List.flatten_singleton]
  rw [hvalue]
  unfold Emitter.emitForsLeaf
  rw [hzeros]
  exact .seq (pick rfl (by decide)) <| .seq (num (i <<< plan.p.a : ℕ)) <| .seq (add hsmall) <| .seq (nameTop _) <|
    .seq (fetch h hn Slot.sk) <| .seq (pick rfl (by decide)) <| .seq (data _) <| .seq cat <|
    .seq (pick rfl (by decide)) <| .seq (emitBeBytes hp.forsIndexWidth_pos (by omega) hfits) <| .seq cat <|
    .seq finishHash (nameTop _)

/-- **A FORS tree**: its root goes behind those of the trees before it. -/
theorem emitForsTree (h : Delivers S plan ps element) (hp : Emittable plan.p) (hD : D.length = plan.p.m) {i : ℕ}
    (hi : i < plan.p.k) (hn : n + (1 + plan.p.a) ≤ plan.p.sigElements) {leaf tree : Bytes} :
    Emits S (Emitter.emitForsTree plan i)
      ⟨(.racc, acc) :: (.hcf, contextBytes pk.seed 0 t FORS_TREE l) :: (.leaf, leaf) :: (.tree, tree) :: (.digest, D) ::
        vs, queueAt ps n⟩
      ⟨(.racc, acc ++ (forsRoot S.env.sha256 plan.p pk.seed t l i (forsIndex plan.p (D.take plan.p.mdLen) i) (element n)
        fun j => element (n + 1 + j)).bytes) :: (.hcf, contextBytes pk.seed 0 t FORS_TREE l) :: (.leaf, leaf) ::
        (.tree, tree) :: (.digest, D) :: vs, queueAt ps (n + (1 + plan.p.a))⟩ := by
  set idx := forsIndex plan.p (D.take plan.p.mdLen) i with hidx
  have hidx_lt : idx < 2 ^ plan.p.a := bitField_lt _ _ _
  have hfits := forsIndex_fits hp.toFacts hi hidx_lt
  have ha := hp.a_le
  have hw := hp.forsIndexWidth_le
  have hslots : PathSlots ((.lx, encodeNum ((idx + i <<< plan.p.a : ℕ) : ℤ)) :: (.idx, encodeNum idx) :: (.racc, acc) ::
      (.hcf, contextBytes pk.seed 0 t FORS_TREE l) :: (.leaf, leaf) :: (.tree, tree) :: (.digest, D) :: vs)
      .lx .hcf .idx (idx + i <<< plan.p.a) (contextBytes pk.seed 0 t FORS_TREE l) idx :=
    ⟨fun _ _ => ⟨2, by decide, rfl⟩, fun _ _ _ => ⟨6, by decide, rfl⟩, fun _ _ _ => ⟨4, by decide, rfl⟩⟩
  have hnode : ∀ j < plan.p.a, ∀ left right,
      forsNode S.env.sha256 plan.p pk.seed t l i (j + 1) (idx >>> (j + 1)) left right =
        truncN (S.env.sha256 (contextBytes pk.seed 0 t FORS_TREE l ++ beBytes 4 (j + 1) ++
          beBytes 4 ((idx + i <<< plan.p.a) / 2 ^ (j + 1)) ++ (left.bytes ++ right.bytes))) := by
    intro j hj left right
    rw [Nat.add_comm idx, forsIndex_shiftRight hj]
    refine (hash_context S.env.sha256 pk.seed 0 t FORS_TREE l (j + 1) _ _).trans ?_
    rw [List.flatten_cons, List.flatten_singleton]
  have hpath := emitPath h hslots hp.forsIndexWidth_pos hw hfits
    (hidx_lt.trans_le (Nat.pow_le_pow_right (by norm_num) (by omega))) (by omega)
    (show n + 1 + plan.p.a ≤ plan.p.sigElements by omega) hnode
    (forsLeaf S.env.sha256 pk.seed t l (i <<< plan.p.a + idx) (element n))
  have hsum : n + (1 + plan.p.a) = n + 1 + plan.p.a := (Nat.add_assoc _ _ _).symm
  rw [hsum]
  exact .seq (emitForsIndex hp hD hi rfl (by decide)) <|
    .seq (emitForsLeaf h hp.toFacts hi hidx_lt (by omega)) <| .seq hpath <| .seq (roll rfl (by decide)) <|
    .seq swap <| .seq cat <| .seq (nameTop _) <| .seq (discard rfl (by decide)) (discard (k := 1) rfl (by decide))

/-- The roots of the first FORS trees, one behind the other. -/
def forsRoots (f : ℕ → Hash) (i : ℕ) : Bytes := ((List.range i).map fun j => (f j).bytes).flatten

theorem forsRoots_succ (f : ℕ → Hash) (i : ℕ) : forsRoots f (i + 1) = forsRoots f i ++ (f i).bytes := by
  simp [forsRoots, List.range_succ]

variable (pk vs n) in
/-- **FORS**: from the digest and the position to the FORS public key. -/
theorem emitFors (h : Delivers S plan ps element) (hp : Emittable plan.p) (hD : D.length = plan.p.m)
    (hzero : plan.p.idxTreeBits = 0 → t = 0) (ht : t < 2 ^ 63) (hl : l < 2 ^ 31)
    (hn : n + plan.p.k * (1 + plan.p.a) ≤ plan.p.sigElements) :
    Emits S (Emitter.emitFors plan pk)
      ⟨(.leaf, encodeNum l) :: (.tree, encodeNum t) :: (.digest, D) :: vs, queueAt ps n⟩
      ⟨(.node, (forsPk S.env.sha256 plan.p pk.seed t l fun i =>
          forsRoot S.env.sha256 plan.p pk.seed t l i (forsIndex plan.p (D.take plan.p.mdLen) i)
            (element (n + i * (1 + plan.p.a))) fun j => element (n + i * (1 + plan.p.a) + 1 + j)).bytes) ::
        (.leaf, encodeNum l) :: (.tree, encodeNum t) :: vs, queueAt ps (n + plan.p.k * (1 + plan.p.a))⟩ := by
  set root : ℕ → Hash := fun i => forsRoot S.env.sha256 plan.p pk.seed t l i (forsIndex plan.p (D.take plan.p.mdLen) i)
    (element (n + i * (1 + plan.p.a))) fun j => element (n + i * (1 + plan.p.a) + 1 + j) with hroot
  set start := contextBytes pk.seed 0 t FORS_ROOTS l ++ zeros (4 * 2) with hstart
  set I : ℕ → Conf Slot := fun i => ⟨(.racc, start ++ forsRoots root i) :: (.hcf, contextBytes pk.seed 0 t FORS_TREE l) ::
    (.leaf, encodeNum l) :: (.tree, encodeNum t) :: (.digest, D) :: vs, queueAt ps (n + i * (1 + plan.p.a))⟩ with hI
  have hturn : ∀ i < plan.p.k, Emits S (Emitter.emitForsTree plan i) (I i) (I (i + 1)) := by
    intro i hi
    have hmul := Nat.mul_le_mul_right (1 + plan.p.a) hi
    rw [Nat.succ_mul] at hmul
    simp only [hI]
    rw [forsRoots_succ, ← List.append_assoc, Nat.succ_mul, ← Nat.add_assoc n]
    exact emitForsTree h hp hD hi (by omega)
  have hfirst : I 0 = ⟨(.racc, start) :: (.hcf, contextBytes pk.seed 0 t FORS_TREE l) ::
      (.leaf, encodeNum l) :: (.tree, encodeNum t) :: (.digest, D) :: vs, queueAt ps n⟩ := by
    simp [hI, forsRoots]
  have hvalue : (forsPk S.env.sha256 plan.p pk.seed t l root).bytes =
      (truncN (S.env.sha256 (start ++ forsRoots root plan.p.k))).bytes := by
    refine congrArg Block.bytes ((hash_context S.env.sha256 pk.seed 0 t FORS_ROOTS l 0 0 _).trans ?_)
    rw [hstart, forsRoots, List.append_assoc (contextBytes _ _ _ _ _)]
    rfl
  have htreeContext : Emits S (Emitter.emitHashContext pk plan.p 0 FORS_TREE (some .leaf) 0)
      ⟨(.leaf, encodeNum l) :: (.tree, encodeNum t) :: (.digest, D) :: vs, queueAt ps n⟩
      ⟨tmp (contextBytes pk.seed 0 t FORS_TREE l) :: (.leaf, encodeNum l) :: (.tree, encodeNum t) :: (.digest, D) :: vs,
        queueAt ps n⟩ := by
    rw [← List.append_nil (contextBytes pk.seed 0 t FORS_TREE l)]
    exact emitHashContext (by norm_num) (fun _ => rfl) (by decide) (fun _ => rfl) (by decide) hzero ht hl 0
  have hrootContext : Emits S (Emitter.emitHashContext pk plan.p 0 FORS_ROOTS (some .leaf) 2)
      ⟨(.hcf, contextBytes pk.seed 0 t FORS_TREE l) :: (.leaf, encodeNum l) :: (.tree, encodeNum t) :: (.digest, D) :: vs,
        queueAt ps n⟩
      ⟨tmp start :: (.hcf, contextBytes pk.seed 0 t FORS_TREE l) :: (.leaf, encodeNum l) :: (.tree, encodeNum t) ::
        (.digest, D) :: vs, queueAt ps n⟩ :=
    emitHashContext (by norm_num) (fun _ => rfl) (by decide) (fun _ => rfl) (by decide) hzero ht hl 2
  have hloop := forRange I hturn
  rw [hfirst] at hloop
  rw [hvalue]
  exact .seq htreeContext <| .seq (nameTop _) <| .seq hrootContext <| .seq (nameTop _) <| .seq hloop <|
    .seq (roll rfl (by decide)) <| .seq sha256 <|
    .seq (substr (Nat.zero_le _) (by simp [N]) (by norm_num [N])) <| .seq (nameTop _) <|
    .seq (discard rfl (by decide)) (discard (k := 3) rfl (by decide))

end fors

/-! ### One layer of the hypertree -/

section layer

variable {t l layer : ℕ}

/-- **The position of a layer.** -/
theorem emitLayerPosition {p : Params} (hp : p.Facts) (hlayer : layer < p.d) (ht : t < 2 ^ 63) {x : Bytes} :
    Emits S (Emitter.emitLayerPosition p layer) ⟨(.node, x) :: (.leaf, encodeNum l) :: (.tree, encodeNum t) :: vs, q⟩
      ⟨(.lleaf, encodeNum (leafAt p t l layer)) :: (.ltree, encodeNum (treeAt p t layer)) :: (.node, x) ::
        (.leaf, encodeNum l) :: (.tree, encodeNum t) :: vs, q⟩ := by
  have hbits := hp.idxTreeBits_eq
  have hbits_le := hp.idxTreeBits_le
  have hlen := hp.idxTreeLen_le
  have hhp := hp.hp_le
  unfold Emitter.emitLayerPosition
  cases layer with
  | zero =>
    rw [if_pos rfl]
    exact .seq (pick rfl (by decide)) <| .seq (nameTop _) <| .seq (pick rfl (by decide)) (nameTop _)
  | succ j =>
    have hle : p.hp * (j + 1) ≤ p.hp * (p.d - 1) := Nat.mul_le_mul_left _ (by omega)
    have hj : p.hp * j ≤ p.hp * (j + 1) := Nat.mul_le_mul_left _ (Nat.le_succ j)
    rw [if_neg (Nat.succ_ne_zero j), leafAt, treeAt_eq, treeAt_eq, Nat.one_shiftLeft, Nat.add_sub_cancel]
    exact .seq (pick rfl (by decide)) <| .seq (divPow ht (by omega)) <| .seq (nameTop _) <|
      .seq (pick rfl (by decide)) <| .seq (divPow ht (by omega)) <|
      .seq (modulo ((Nat.div_le_self _ _).trans_lt ht) (Nat.two_pow_pos _)
        (Nat.pow_lt_pow_right (by norm_num) (by omega))) (nameTop _)

/-- **The contexts of a layer.** -/
theorem emitLayerContexts {p : Params} (hlayer : layer < 256) (hzero : p.idxTreeBits = 0 → t = 0) (ht : t < 2 ^ 63)
    (hl : l < 2 ^ 31) :
    Emits S (Emitter.emitLayerContexts pk p layer) ⟨(.lleaf, encodeNum l) :: (.ltree, encodeNum t) :: vs, q⟩
      ⟨(.hct, contextBytes pk.seed layer t TREE 0) :: (.hcp, contextBytes pk.seed layer t WOTS_PK l ++ zeros 8) ::
        (.hcw, contextBytes pk.seed layer t WOTS_HASH l) :: (.lleaf, encodeNum l) :: (.ltree, encodeNum t) :: vs, q⟩ :=
  .seq (.ensure hlayer) <| .seq (data _) <| .seq (emitTreeBytes rfl (by decide) hzero ht) <| .seq cat <|
    .seq (nameTop _) <| .seq (pick rfl (by decide)) <| .seq (emitBeBytes (by norm_num) (by norm_num) hl) <|
    .seq (nameTop _) <|
    .seq (pick rfl (by decide)) <| .seq (data _) <| .seq cat <| .seq (pick rfl (by decide)) <| .seq cat <|
    .seq (nameTop _) <|
    .seq (pick rfl (by decide)) <| .seq (data _) <| .seq cat <| .seq (pick rfl (by decide)) <| .seq cat <|
    .seq (data _) <| .seq cat <| .seq (nameTop _) <|
    .seq (pick rfl (by decide)) <| .seq (data _) <| .seq cat <| .seq (data _) <| .seq cat <| .seq (nameTop _) <|
    .seq (discard (k := 4) rfl (by decide)) (discard (k := 3) rfl (by decide))

end layer

/-! ### One-time signatures -/

section wots

variable {m : Hash}

/-- One term of the checksum. -/
theorem emitChecksumTerm {p : Params} (hp : p.Facts) {i : ℕ} (hi : i < p.len1)
    (hnode : ∀ c, find Slot.node ((.csum, c) :: vs) = some (k, m.bytes)) (hk : k < 2 ^ 63) :
    Emits S (Emitter.emitChecksumTerm p i) ⟨(.csum, encodeNum (checksum p m i)) :: vs, q⟩
      ⟨(.csum, encodeNum (checksum p m (i + 1))) :: vs, q⟩ := by
  have hw := Params.w_pos (p := p)
  have hw16 := hp.w_le
  have hdigit : bitField m.bytes (p.lgw * i) p.lgw ≤ p.w - 1 := by
    have hlt := bitField_lt m.bytes (p.lgw * i) p.lgw
    rw [← Params.w_eq] at hlt
    omega
  have hsum : checksum p m (i + 1) < 2 ^ 63 :=
    (checksum_lt hp m hi).trans_le (Nat.pow_le_pow_right (by norm_num) (by
      have := hp.csum_bits
      have := hp.csumWidth_le
      omega))
  have hpred : (p.w : ℤ) - 1 = ((p.w - 1 : ℕ) : ℤ) := by omega
  rw [checksum_succ] at hsum ⊢
  unfold Emitter.emitChecksumTerm
  rw [hpred]
  exact .seq (emitDigitOf hp (hnode _) hk (Block.length_bytes m) hi) <| .seq (num (p.w - 1 : ℕ)) <| .seq swap <|
    .seq (sub hdigit (by omega)) <| .seq (add hsum) (nameTop _)

/-- **The digit of a chain.** -/
theorem emitChainDigit {p : Params} (hp : p.Facts) {i : ℕ}
    (hnode : find Slot.node vs = some (k, m.bytes)) (hk : k < 2 ^ 63) {j : ℕ}
    (hcsum : find Slot.csum vs = some (j, encodeNum (checksum p m p.len1))) (hj : j < 2 ^ 63) :
    Emits S (Emitter.emitChainDigit p i) ⟨vs, q⟩ ⟨tmp (encodeNum (wotsDigit p m i)) :: vs, q⟩ := by
  unfold wotsDigit Emitter.emitChainDigit
  split_ifs with hlt
  · exact emitDigitOf hp hnode hk (Block.length_bytes m) hlt
  · have hbits : p.csumBits ≤ 16 := by
      have := hp.csum_bits
      have := hp.csumWidth_le
      omega
    have hsum := checksum_lt hp m le_rfl
    have hsum63 : checksum p m p.len1 < 2 ^ 63 := hsum.trans_le (Nat.pow_le_pow_right (by norm_num) (by omega))
    have hw := Params.w_pos (p := p)
    have hw16 := hp.w_le
    refine .seq (pick hcsum hj) <| .seq (divPow_onlyIf hsum63 (by omega)) <|
      .onlyIf (fun _ => modulo ((Nat.div_le_self _ _).trans_lt hsum63) hw (by omega)) fun hfirst => ?_
    have hi0 : i - p.len1 = 0 := Nat.eq_zero_of_not_pos hfirst
    have hsmall : checksum p m p.len1 / 2 ^ (p.csumBits - p.lgw * (i - p.len1 + 1)) < p.w := by
      have hfit : p.lgw ≤ p.csumBits := Nat.le_mul_of_pos_left _ (Nat.succ_pos _)
      rw [hi0, Nat.zero_add, Nat.mul_one, Nat.div_lt_iff_lt_mul (Nat.two_pow_pos _), Params.w_eq, ← pow_add,
        Nat.add_sub_cancel' hfit]
      exact hsum
    rw [Nat.mod_eq_of_lt hsmall]

/-- The bytes of a hash address are zeros and the step. -/
theorem zeros_append_step {step : ℕ} (h : step < 256) : zeros 3 ++ [UInt8.ofNat step] = beBytes 4 step :=
  (beBytes_add (w := 1) (v := step) (by rwa [pow_one]) 3).symm

/-- The address of a chain, and what its hashes start with. -/
theorem hash_chain (sha256 : Bytes → Block 32) (pkSeed : Hash) (layer tree kp i : ℕ) {step : ℕ} (h : step < 256)
    (y : Hash) : hash sha256 pkSeed (((wotsAdrs layer tree kp).setChainAddress i).setHashAddress step) [y.bytes] =
      truncN (sha256 (contextBytes pkSeed layer tree WOTS_HASH kp ++ (beBytes 4 i ++ zeros 3) ++ [UInt8.ofNat step] ++
        y.bytes)) := by
  refine (hash_context sha256 pkSeed layer tree WOTS_HASH kp i step _).trans ?_
  rw [List.flatten_singleton, ← zeros_append_step h]
  simp only [List.append_assoc]

/-- **A step of a chain**: hashed if the digit has been reached, left alone before. -/
theorem emitChainStep {pkSeed : Hash} {layer tree kp i digit step : ℕ} (hdigit : digit < 2 ^ 63) (hstep : step < 256)
    (y : Hash) :
    Emits S (Emitter.emitChainStep step)
      ⟨(.x, (chain S.env.sha256 pkSeed ((wotsAdrs layer tree kp).setChainAddress i) y digit (step - digit)).bytes) ::
        (.d, encodeNum digit) ::
        (.hcwi, contextBytes pkSeed layer tree WOTS_HASH kp ++ (beBytes 4 i ++ zeros 3)) :: vs, q⟩
      ⟨(.x, (chain S.env.sha256 pkSeed ((wotsAdrs layer tree kp).setChainAddress i) y digit (step + 1 - digit)).bytes) ::
        (.d, encodeNum digit) ::
        (.hcwi, contextBytes pkSeed layer tree WOTS_HASH kp ++ (beBytes 4 i ++ zeros 3)) :: vs, q⟩ := by
  refine .seq «over» <| .seq (num (step : ℕ)) <| .seq (lessThanOrEqual hdigit (by omega)) <| ifBlock
    (.seq (pick rfl (by decide)) <| .seq (.ensure hstep) <| .seq (data _) <| .seq cat <| .seq finishHash (nameTop _)) rfl
    rfl (fun hb => ?_) fun hb => ?_
  · have hle : digit ≤ step := of_decide_eq_true hb
    rw [Nat.succ_sub hle, chain_succ, Nat.add_sub_cancel' hle, hash_chain S.env.sha256 pkSeed layer tree kp i hstep]
  · have hlt : ¬digit ≤ step := of_decide_eq_false hb
    rw [show step + 1 - digit = step - digit by omega]

/-- The ends of the first chains, one behind the other. -/
def chainEnds (z : ℕ → Hash) (i : ℕ) : Bytes := ((List.range i).map fun j => (z j).bytes).flatten

theorem chainEnds_succ (z : ℕ → Hash) (i : ℕ) : chainEnds z (i + 1) = chainEnds z i ++ (z i).bytes := by
  simp [chainEnds, List.range_succ]

/-- **A chain**, from its digit to its end. -/
theorem emitChain (h : Delivers S plan ps element) (hp : plan.p.Facts) {layer tree kp i : ℕ}
    (hn : n < plan.p.sigElements) {acc hct hcp lleaf ltree : Bytes} :
    Emits S (Emitter.emitChain plan i)
      ⟨(.acc, acc) :: (.csum, encodeNum (checksum plan.p m plan.p.len1)) :: (.hct, hct) :: (.hcp, hcp) ::
        (.hcw, contextBytes pk.seed layer tree WOTS_HASH kp) :: (.lleaf, lleaf) :: (.ltree, ltree) ::
        (.node, m.bytes) :: vs, queueAt ps n⟩
      ⟨(.acc, acc ++ (chain S.env.sha256 pk.seed ((wotsAdrs layer tree kp).setChainAddress i) (element n)
          (wotsDigit plan.p m i) (plan.p.w - 1 - wotsDigit plan.p m i)).bytes) ::
        (.csum, encodeNum (checksum plan.p m plan.p.len1)) :: (.hct, hct) :: (.hcp, hcp) ::
        (.hcw, contextBytes pk.seed layer tree WOTS_HASH kp) :: (.lleaf, lleaf) :: (.ltree, ltree) ::
        (.node, m.bytes) :: vs, queueAt ps (n + 1)⟩ := by
  have hw16 := hp.w_le
  have hdigit := wotsDigit_le (p := plan.p) m i
  set digit := wotsDigit plan.p m i with hd
  set below := (Slot.acc, acc) :: (Slot.csum, encodeNum (checksum plan.p m plan.p.len1)) :: (Slot.hct, hct) ::
    (Slot.hcp, hcp) :: (Slot.hcw, contextBytes pk.seed layer tree WOTS_HASH kp) :: (Slot.lleaf, lleaf) ::
    (Slot.ltree, ltree) :: (Slot.node, m.bytes) :: vs with hbelow
  set I : ℕ → Conf Slot := fun step =>
    ⟨(.x, (chain S.env.sha256 pk.seed ((wotsAdrs layer tree kp).setChainAddress i) (element n) digit (step - digit)).bytes) ::
      (.d, encodeNum digit) :: (.hcwi, contextBytes pk.seed layer tree WOTS_HASH kp ++ (beBytes 4 i ++ zeros 3)) :: below,
      queueAt ps (n + 1)⟩ with hI
  have hloop : Emits S (Gen.forRange (plan.p.w - 1) Emitter.emitChainStep) (I 0) (I (plan.p.w - 1)) :=
    forRange I fun step hstep => emitChainStep (by omega) (by omega) _
  have hstart : I 0 = ⟨(.x, (element n).bytes) :: (.d, encodeNum digit) ::
      (.hcwi, contextBytes pk.seed layer tree WOTS_HASH kp ++ (beBytes 4 i ++ zeros 3)) :: below, queueAt ps (n + 1)⟩ := by
    simp only [hI, Nat.zero_sub, chain_zero]
  rw [hstart] at hloop
  exact .seq (emitChainDigit hp (k := 7) rfl (by decide) (j := 1) rfl (by decide)) <| .seq (nameTop _) <|
    .seq (pick rfl (by decide)) <| .seq (data _) <| .seq cat <| .seq (nameTop _) <| .seq (roll rfl (by decide)) <|
    .seq (fetch h hn Slot.x) <| .seq hloop <| .seq (discard rfl (by decide)) <| .seq (discard rfl (by decide)) <|
    .seq (roll rfl (by decide)) <| .seq swap <| .seq cat (nameTop _)

/-- **A one-time signature**: its public key takes the place of the node that is signed. -/
theorem emitWots (h : Delivers S plan ps element) (hp : plan.p.Facts) {layer tree kp : ℕ}
    (hn : n + plan.p.len ≤ plan.p.sigElements) {hct lleaf ltree : Bytes} :
    Emits S (Emitter.emitWots plan)
      ⟨(.hct, hct) :: (.hcp, contextBytes pk.seed layer tree WOTS_PK kp ++ zeros 8) ::
        (.hcw, contextBytes pk.seed layer tree WOTS_HASH kp) :: (.lleaf, lleaf) :: (.ltree, ltree) ::
        (.node, m.bytes) :: vs, queueAt ps n⟩
      ⟨(.node, (wotsPk S.env.sha256 plan.p pk.seed (wotsAdrs layer tree kp)
          (wotsEnd S.env.sha256 plan.p pk.seed (wotsAdrs layer tree kp) (fun i => element (n + i)) m)).bytes) ::
        (.hct, hct) :: (.lleaf, lleaf) :: (.ltree, ltree) :: vs, queueAt ps (n + plan.p.len)⟩ := by
  set z := wotsEnd S.env.sha256 plan.p pk.seed (wotsAdrs layer tree kp) (fun i => element (n + i)) m with hz
  set start := contextBytes pk.seed layer tree WOTS_PK kp ++ zeros 8 with hstart
  set below := (Slot.hct, hct) :: (Slot.hcp, start) :: (Slot.hcw, contextBytes pk.seed layer tree WOTS_HASH kp) ::
    (Slot.lleaf, lleaf) :: (Slot.ltree, ltree) :: (Slot.node, m.bytes) :: vs with hbelow
  have hsum : Emits S (Gen.forRange plan.p.len1 (Emitter.emitChecksumTerm plan.p))
      ⟨(.csum, encodeNum (checksum plan.p m 0)) :: below, queueAt ps n⟩
      ⟨(.csum, encodeNum (checksum plan.p m plan.p.len1)) :: below, queueAt ps n⟩ :=
    forRange (fun i => ⟨(.csum, encodeNum (checksum plan.p m i)) :: below, queueAt ps n⟩)
      fun i hi => emitChecksumTerm hp hi (k := 6) (fun _ => rfl) (by decide)
  set I : ℕ → Conf Slot := fun i => ⟨(.acc, start ++ chainEnds z i) ::
    (.csum, encodeNum (checksum plan.p m plan.p.len1)) :: below, queueAt ps (n + i)⟩ with hI
  have hchains : Emits S (Gen.forRange plan.p.len (Emitter.emitChain plan)) (I 0) (I plan.p.len) := by
    refine forRange I fun i hi => ?_
    simp only [hI]
    rw [chainEnds_succ, ← List.append_assoc]
    exact emitChain h hp (by omega)
  have hfirst : I 0 = ⟨(.acc, start) :: (.csum, encodeNum (checksum plan.p m plan.p.len1)) :: below, queueAt ps n⟩ := by
    simp [hI, chainEnds]
  have hvalue : (wotsPk S.env.sha256 plan.p pk.seed (wotsAdrs layer tree kp) z).bytes =
      (truncN (S.env.sha256 (start ++ chainEnds z plan.p.len))).bytes := by
    refine congrArg Block.bytes ((hash_context S.env.sha256 pk.seed layer tree WOTS_PK kp 0 0 _).trans ?_)
    rw [hstart, chainEnds, List.append_assoc (contextBytes _ _ _ _ _)]
    rfl
  rw [hfirst] at hchains
  rw [hvalue]
  exact .seq (num (0 : ℕ)) <| .seq (nameTop _) <| .seq hsum <| .seq (pick rfl (by decide)) <| .seq (nameTop _) <|
    .seq hchains <| .seq (roll rfl (by decide)) <| .seq sha256 <|
    .seq (substr (Nat.zero_le _) (by simp [N]) (by norm_num [N])) <| .seq (nameTop _) <|
    .seq (discard rfl (by decide)) <| .seq (discard rfl (by decide)) <| .seq (discard rfl (by decide)) <|
    .seq (discard rfl (by decide)) (nameTop _)

end wots

/-! ### A layer as a whole -/

/-- The slots of a layer, below its node, while the path is climbed. -/
def layerSlots (p : Params) (pkSeed : Hash) (t l layer : ℕ) (vs : List (Slot × Bytes)) : List (Slot × Bytes) :=
  (.hct, contextBytes pkSeed layer (treeAt p t layer) TREE 0) :: (.lleaf, encodeNum (leafAt p t l layer)) ::
    (.ltree, encodeNum (treeAt p t layer)) :: (.leaf, encodeNum l) :: (.tree, encodeNum t) :: vs

theorem pathSlots_layerSlots (p : Params) (pkSeed : Hash) (t l layer : ℕ) (vs : List (Slot × Bytes)) :
    PathSlots (layerSlots p pkSeed t l layer vs) .lleaf .hct .lleaf (leafAt p t l layer)
      (contextBytes pkSeed layer (treeAt p t layer) TREE 0) (leafAt p t l layer) :=
  ⟨fun _ _ => ⟨3, by decide, rfl⟩, fun _ _ _ => ⟨3, by decide, rfl⟩, fun _ _ _ => ⟨4, by decide, rfl⟩⟩

section layer

variable {t l layer : ℕ}

theorem leafAt_lt {p : Params} (hl : l < 2 ^ p.hp) : leafAt p t l layer < 2 ^ p.hp := by
  cases layer with
  | zero => exact hl
  | succ j => exact Nat.mod_lt _ (Nat.two_pow_pos _)

theorem leafAt_lt_31 {p : Params} (hp : p.Facts) (hl : l < 2 ^ p.hp) : leafAt p t l layer < 2 ^ 31 := by
  have hhp := hp.hp_le
  exact (leafAt_lt hl).trans_le (Nat.pow_le_pow_right (by norm_num) (by omega))

variable (pk vs layer) in
/-- **The first `j` levels of the path** of a layer. -/
theorem emitLayerPath (h : Delivers S plan ps element) (hp : plan.p.Facts) (hl : l < 2 ^ plan.p.hp) {j : ℕ}
    (hj : j ≤ plan.p.hp) (hn : n + j ≤ plan.p.sigElements) (x : Hash) :
    Emits S (Gen.forRange j (Emitter.emitPathLevel plan .lleaf .hct .lleaf plan.p.xmssIndexWidth))
      ⟨(.node, x.bytes) :: layerSlots plan.p pk.seed t l layer vs, queueAt ps n⟩
      ⟨(.node, (climb (xmssNode S.env.sha256 pk.seed layer (treeAt plan.p t layer)) (leafAt plan.p t l layer)
          (fun i => element (n + i)) x j).bytes) :: layerSlots plan.p pk.seed t l layer vs, queueAt ps (n + j)⟩ := by
  have hhp := hp.hp_le
  refine emitPath h (pathSlots_layerSlots plan.p pk.seed t l layer vs) hp.xmssIndexWidth_pos hp.xmssIndexWidth_le
    ((leafAt_lt hl).trans_le hp.xmssIndex_le) ((leafAt_lt_31 hp hl).trans (by norm_num)) (by omega) hn
    (fun i _ left right => ?_) x
  rw [← Nat.shiftRight_eq_div_pow]
  refine (hash_context S.env.sha256 pk.seed layer (treeAt plan.p t layer) TREE 0 (i + 1) _ _).trans ?_
  rw [List.flatten_cons, List.flatten_singleton]

/-- **A layer**, up to the path: what the path comes to takes the place of the node that enters. -/
theorem emitLayer_of_path (h : Delivers S plan ps element) (hp : plan.p.Facts) (hlayer : layer < plan.p.d)
    (hzero : plan.p.idxTreeBits = 0 → t = 0) (ht : t < 2 ^ 63) (hl : l < 2 ^ plan.p.hp)
    (hn : n + plan.p.len ≤ plan.p.sigElements) (m : Hash) {x : Bytes} {q' : Queue}
    (hpath : Emits S (Gen.forRange plan.p.hp (Emitter.emitPathLevel plan .lleaf .hct .lleaf plan.p.xmssIndexWidth))
      ⟨(.node, (wotsPk S.env.sha256 plan.p pk.seed (wotsAdrs layer (treeAt plan.p t layer) (leafAt plan.p t l layer))
          (wotsEnd S.env.sha256 plan.p pk.seed (wotsAdrs layer (treeAt plan.p t layer) (leafAt plan.p t l layer))
            (fun i => element (n + i)) m)).bytes) :: layerSlots plan.p pk.seed t l layer vs,
        queueAt ps (n + plan.p.len)⟩
      ⟨(.node, x) :: layerSlots plan.p pk.seed t l layer vs, q'⟩) :
    Emits S (Emitter.emitLayer plan pk layer)
      ⟨(.node, m.bytes) :: (.leaf, encodeNum l) :: (.tree, encodeNum t) :: vs, queueAt ps n⟩
      ⟨(.node, x) :: (.leaf, encodeNum l) :: (.tree, encodeNum t) :: vs, q'⟩ := by
  have htree : treeAt plan.p t layer < 2 ^ 63 := by
    rw [treeAt_eq]
    exact (Nat.div_le_self _ _).trans_lt ht
  have htreeZero : plan.p.idxTreeBits = 0 → treeAt plan.p t layer = 0 := by
    intro h0
    rw [treeAt_eq, hzero h0, Nat.zero_div]
  exact .seq (emitLayerPosition hp hlayer ht) <|
    .seq (emitLayerContexts (hlayer.trans hp.d_lt) htreeZero htree (leafAt_lt_31 hp hl)) <|
    .seq (emitWots h hp hn) <| .seq hpath <| .seq (discard (k := 1) rfl (by decide)) <|
    .seq (discard (k := 2) rfl (by decide)) (discard (k := 1) rfl (by decide))

variable (pk vs) in
/-- **A layer of the hypertree**: the root of its tree takes the place of the node that enters it. -/
theorem emitLayer (h : Delivers S plan ps element) (hp : plan.p.Facts) (hlayer : layer < plan.p.d)
    (hzero : plan.p.idxTreeBits = 0 → t = 0) (ht : t < 2 ^ 63) (hl : l < 2 ^ plan.p.hp)
    (hn : n + (plan.p.len + plan.p.hp) ≤ plan.p.sigElements) (m : Hash) :
    Emits S (Emitter.emitLayer plan pk layer)
      ⟨(.node, m.bytes) :: (.leaf, encodeNum l) :: (.tree, encodeNum t) :: vs, queueAt ps n⟩
      ⟨(.node, (xmssRoot S.env.sha256 plan.p pk.seed layer (treeAt plan.p t layer) (leafAt plan.p t l layer)
          (fun i => element (n + i)) (fun i => element (n + plan.p.len + i)) m).bytes) ::
        (.leaf, encodeNum l) :: (.tree, encodeNum t) :: vs, queueAt ps (n + (plan.p.len + plan.p.hp))⟩ := by
  rw [← Nat.add_assoc]
  exact emitLayer_of_path h hp hlayer hzero ht hl (by omega) m (emitLayerPath pk vs layer h hp hl le_rfl (by omega) _)

variable (pk vs) in
/-- **A last layer** whose last sibling is a blob that is not cut: whatever the blob is, the
layer comes to a hash. -/
theorem emitLayer_uncut {blob : Bytes} (h : Delivers S plan (ps ++ [(1, blob)]) element) (hp : plan.p.Facts)
    (hlayer : layer < plan.p.d) (hzero : plan.p.idxTreeBits = 0 → t = 0) (ht : t < 2 ^ 63) (hl : l < 2 ^ plan.p.hp)
    (hn : n + (plan.p.len + plan.p.hp) = plan.p.sigElements) (m : Hash) :
    ∃ y, Emits S (Emitter.emitLayer plan pk layer)
      ⟨(.node, m.bytes) :: (.leaf, encodeNum l) :: (.tree, encodeNum t) :: vs, queueAt (ps ++ [(1, blob)]) n⟩
      ⟨(.node, (truncN (S.env.sha256 y)).bytes) :: (.leaf, encodeNum l) :: (.tree, encodeNum t) :: vs,
        ⟨[], plan.p.sigElements, 0, (∀ p ∈ ps, Whole p.1 p.2) ∧ Cuttable 1 blob,
          deadAt ps (Pieces.total ps) ∨ (∀ p ∈ ps, Whole p.1 p.2) ∧ ¬Cuttable 1 blob⟩⟩ := by
  have htotal : Pieces.total ps + 1 = plan.p.sigElements := by
    rw [← h.total_eq]
    simp [Pieces.total]
  obtain ⟨r, hr⟩ : ∃ r, plan.p.hp = r + 1 := ⟨plan.p.hp - 1, by have := hp.hp_pos; omega⟩
  have hlast : n + plan.p.len + r = Pieces.total ps := by omega
  have hfetch (x : Bytes) := fetchFirst ((.node, x) :: layerSlots plan.p pk.seed t l layer vs) h Slot.auth
  have hlevel (x : Bytes) := emitPathLevel (hfetch x) (pathSlots_layerSlots plan.p pk.seed t l layer vs)
    hp.xmssIndexWidth_pos hp.xmssIndexWidth_le ((leafAt_lt hl).trans_le hp.xmssIndex_le)
    ((leafAt_lt_31 hp hl).trans (by norm_num)) (show r < 62 by have := hp.hp_le; omega)
  have hpath (x : Hash) := emitLayerPath pk vs layer (t := t) (n := n + plan.p.len) h hp hl
    (show r ≤ plan.p.hp by omega) (by omega) x
  rw [hlast] at hpath
  have hturns (x : Hash) := (hpath x).seq (hlevel _)
  rw [← Gen.forRange_succ, ← hr] at hturns
  rw [← htotal]
  exact ⟨_, emitLayer_of_path h hp hlayer hzero ht hl (by omega) m (hturns _)⟩

end layer

end Emits

end KaspaPqv.SlhScript
