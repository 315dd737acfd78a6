import KaspaPqv.Lib.Binding
import KaspaPqv.LmsScript.OtsCode
import KaspaPqv.LmsScript.Redeem

/-!
# Two signatures by one leaf

A leaf signs once because of what two signatures by it tell. Both are hashed up to one root, so
unless two of the strings that are hashed on the way collide, they come to the same ends of the
same chains; and then they are one and the same signature, or each of them shows a value of some
chain that comes before the one that the other shows.

## What is proved

* `climb_binds`, `chain_binds` — what equal roots and equal ends of chains tell.
* `accepts_twice` — of two accepted signatures by one leaf.
* `unlocked_twice` — of two transactions in which coins of one leaf are unlocked.
-/

namespace KaspaPqv.Rfc8554

open KaspaPqv.Lib

/-! ### The strings that are hashed -/

variable (sha256 : Bytes → Block 32)

/-- The string that the parent of a node is the hash of. -/
def nodeInput (I : Bytes) (nodeNum : ℕ) (sibling tmp : Bytes) : Bytes :=
  I ++ u32str (nodeNum / 2) ++ u16str D_INTR ++ if nodeNum % 2 = 1 then sibling ++ tmp else tmp ++ sibling

/-- The strings that are hashed on the way up. -/
def climbInputs (I : Bytes) (path : ℕ → Bytes) (nodeNum i : ℕ) (tmp : Bytes) : List Bytes :=
  if _h : 1 < nodeNum then
    nodeInput I nodeNum (path i) tmp ::
      climbInputs I path (nodeNum / 2) (i + 1) (sha256 (nodeInput I nodeNum (path i) tmp)).bytes
  else []
termination_by nodeNum

section signature

variable (w h : ℕ) (I : Bytes) (q : ℕ) (C : Bytes) (y path : ℕ → Bytes) (message : Bytes)

/-- The string that the message digest is the hash of. -/
def messageInput : Bytes := I ++ u32str q ++ u16str D_MESG ++ C ++ message

/-- The message digest. -/
def digest : Block 32 := sha256 (messageInput I q C message)

/-- How far chain `i` was walked by the signer. -/
def coefAt (i : ℕ) : ℕ :=
  coef ((digest sha256 I q C message).bytes ++ u16str (cksm (digest sha256 I q C message).bytes w)) i w

/-- The string that step `j` of chain `i` hashes. -/
def chainInput (i j : ℕ) : Bytes :=
  I ++ u32str q ++ u16str i ++ u8str j ++ chain sha256 I q i (coefAt sha256 w I q C message i) j (y i)

/-- The end of chain `i`. -/
def chainEnd (i : ℕ) : Bytes := chain sha256 I q i (coefAt sha256 w I q C message i) (2 ^ w - 1) (y i)

/-- The string that the candidate key is the hash of. -/
def keyInput : Bytes :=
  I ++ u32str q ++ u16str D_PBLC ++ (List.range (p w)).flatMap (chainEnd sha256 w I q C y message)

/-- The string that the leaf of the tree is the hash of. -/
def leafInput : Bytes :=
  I ++ u32str (2 ^ h + q) ++ u16str D_LEAF ++ (sha256 (keyInput sha256 w I q C y message)).bytes

/-- **All the strings that a verification hashes.** -/
def hashed : List Bytes :=
  messageInput I q C message :: keyInput sha256 w I q C y message :: leafInput sha256 w h I q C y message ::
    ((List.range (p w)).flatMap fun i =>
      (List.range' (coefAt sha256 w I q C message i) (2 ^ w - 1 - coefAt sha256 w I q C message i)).map
        (chainInput sha256 w I q C y message i)) ++
    climbInputs sha256 I path (2 ^ h + q) 0 (sha256 (leafInput sha256 w h I q C y message)).bytes

end signature

/-- Two different strings, one of each list, with one hash. -/
def Collide (xs ys : List Bytes) : Prop := ∃ x ∈ xs, ∃ y ∈ ys, x ≠ y ∧ sha256 x = sha256 y

/-- The second signature shows a value of some chain that comes before the one that the first one shows. -/
def ShowsEarlier (w : ℕ) (I : Bytes) (q : ℕ) (C : Bytes) (y : ℕ → Bytes) (message C' : Bytes) (y' : ℕ → Bytes)
    (message' : Bytes) : Prop :=
  ∃ i < p w, coefAt sha256 w I q C' message' i < coefAt sha256 w I q C message i ∧
    chain sha256 I q i (coefAt sha256 w I q C' message' i) (coefAt sha256 w I q C message i) (y' i) = y i

variable {sha256}

theorem Collide.mono {xs xs' ys ys' : List Bytes} (h : Collide sha256 xs ys) (hx : xs ⊆ xs') (hy : ys ⊆ ys') :
    Collide sha256 xs' ys' := by
  obtain ⟨x, hxs, y, hys, hne, heq⟩ := h
  exact ⟨x, hx hxs, y, hy hys, hne, heq⟩

theorem Collide.symm {xs ys : List Bytes} (h : Collide sha256 xs ys) : Collide sha256 ys xs := by
  obtain ⟨x, hx, y, hy, hne, heq⟩ := h
  exact ⟨y, hy, x, hx, hne.symm, heq.symm⟩

/-- Strings with one hash are one string, or collide. -/
theorem eq_or_collide {xs ys : List Bytes} {x y : Bytes} (hx : x ∈ xs) (hy : y ∈ ys)
    (h : (sha256 x).bytes = (sha256 y).bytes) : x = y ∨ Collide sha256 xs ys := by
  by_cases hxy : x = y
  · exact .inl hxy
  · exact .inr ⟨x, hx, y, hy, hxy, Block.ext h⟩

/-! ### What equal values tell -/

theorem climb_eq (I : Bytes) (path : ℕ → Bytes) {nodeNum : ℕ} (hnode : 1 < nodeNum) (i : ℕ) (tmp : Bytes) :
    climb sha256 I path nodeNum i tmp =
      climb sha256 I path (nodeNum / 2) (i + 1) (sha256 (nodeInput I nodeNum (path i) tmp)).bytes := by
  rw [climb, dif_pos hnode, nodeInput]
  split_ifs
  · simp only [List.append_assoc]
  · simp only [List.append_assoc]

theorem climbInputs_eq (I : Bytes) (path : ℕ → Bytes) {nodeNum : ℕ} (hnode : 1 < nodeNum) (i : ℕ) (tmp : Bytes) :
    climbInputs sha256 I path nodeNum i tmp = nodeInput I nodeNum (path i) tmp ::
      climbInputs sha256 I path (nodeNum / 2) (i + 1) (sha256 (nodeInput I nodeNum (path i) tmp)).bytes := by
  rw [climbInputs, dif_pos hnode]

/-- The children can be told from the string, as the one that was climbed from has its length. -/
theorem nodeInput_inj {I : Bytes} {nodeNum : ℕ} {sibling sibling' tmp tmp' : Bytes} (hlen : tmp.length = tmp'.length)
    (h : nodeInput I nodeNum sibling tmp = nodeInput I nodeNum sibling' tmp') : tmp = tmp' ∧ sibling = sibling' := by
  have hpair := List.append_cancel_left h
  split_ifs at hpair with hodd
  · exact (List.append_inj' hpair hlen).symm
  · exact List.append_inj hpair hlen

/-- **Climbs to one root** were made from one node by one path, or hashed two strings to one value. -/
theorem climb_binds (I : Bytes) (path path' : ℕ → Bytes) (r : ℕ) : ∀ (nodeNum i : ℕ) (tmp tmp' : Bytes),
    2 ^ r ≤ nodeNum → nodeNum < 2 ^ (r + 1) → tmp.length = tmp'.length →
    climb sha256 I path nodeNum i tmp = climb sha256 I path' nodeNum i tmp' →
      (tmp = tmp' ∧ ∀ k < r, path (i + k) = path' (i + k)) ∨
        Collide sha256 (climbInputs sha256 I path nodeNum i tmp) (climbInputs sha256 I path' nodeNum i tmp') := by
  induction r with
  | zero =>
    intro nodeNum i tmp tmp' hlo hhi _ h
    rw [climb, dif_neg (by omega), climb, dif_neg (by omega)] at h
    exact .inl ⟨h, fun k hk => absurd hk k.not_lt_zero⟩
  | succ r ih =>
    intro nodeNum i tmp tmp' hlo hhi hlen h
    rw [pow_succ] at hlo hhi
    have hnode : 1 < nodeNum := by
      have := Nat.two_pow_pos r
      omega
    rw [climb_eq I path hnode, climb_eq I path' hnode] at h
    rw [climbInputs_eq I path hnode, climbInputs_eq I path' hnode]
    rcases ih _ _ _ _ (by omega) (by omega) (by simp) h with ⟨hparent, hrest⟩ | hcollide
    · rcases eq_or_collide (List.mem_cons_self ..) (List.mem_cons_self ..) hparent with hinput | hcollide
      · obtain ⟨htmp, hsibling⟩ := nodeInput_inj hlen hinput
        refine .inl ⟨htmp, fun k hk => ?_⟩
        cases k with
        | zero => exact hsibling
        | succ k =>
          have hk := hrest k (by omega)
          rwa [Nat.add_assoc, Nat.add_comm 1] at hk
      · exact .inr hcollide
    · exact .inr (hcollide.mono (List.subset_cons_self ..) (List.subset_cons_self ..))

/-- A chain is a walk. -/
theorem chain_eq_walk (I : Bytes) (q i start stop : ℕ) (tmp : Bytes) : chain sha256 I q i start stop tmp =
    walk (fun j tmp => (sha256 (I ++ u32str q ++ u16str i ++ u8str j ++ tmp)).bytes) start (stop - start) tmp := rfl

theorem chain_chain (I : Bytes) (q i : ℕ) {a b c : ℕ} (hab : a ≤ b) (hbc : b ≤ c) (tmp : Bytes) :
    chain sha256 I q i b c (chain sha256 I q i a b tmp) = chain sha256 I q i a c tmp := by
  have hjoin := walk_walk (fun j tmp => (sha256 (I ++ u32str q ++ u16str i ++ u8str j ++ tmp)).bytes) a (b - a) (c - b) tmp
  rw [Nat.add_sub_cancel' hab, show b - a + (c - b) = c - a by omega] at hjoin
  exact hjoin

/-- **Chains with one end** that were walked from two of its places: the earlier one leads to the later one, or two
strings that are hashed behind both collide. -/
theorem chain_binds (I : Bytes) (q i : ℕ) {a b stop : ℕ} (hab : a ≤ b) (hb : b ≤ stop) {tmp tmp' : Bytes}
    (h : chain sha256 I q i a stop tmp = chain sha256 I q i b stop tmp') :
    chain sha256 I q i a b tmp = tmp' ∨ ∃ j, b ≤ j ∧ j < stop ∧
      I ++ u32str q ++ u16str i ++ u8str j ++ chain sha256 I q i a j tmp ≠
        I ++ u32str q ++ u16str i ++ u8str j ++ chain sha256 I q i b j tmp' ∧
      sha256 (I ++ u32str q ++ u16str i ++ u8str j ++ chain sha256 I q i a j tmp) =
        sha256 (I ++ u32str q ++ u16str i ++ u8str j ++ chain sha256 I q i b j tmp') := by
  set f : ℕ → Bytes → Bytes := fun j tmp => (sha256 (I ++ u32str q ++ u16str i ++ u8str j ++ tmp)).bytes with hf
  have hwalk (k : ℕ) (tmp : Bytes) : chain sha256 I q i b (b + k) tmp = walk f b k tmp := by
    rw [chain_eq_walk, Nat.add_sub_cancel_left]
  rw [← chain_chain I q i hab hb, ← Nat.add_sub_cancel' hb, hwalk, hwalk] at h
  rcases walk_binds h with hsame | ⟨k, hk, hne, heq⟩
  · exact .inl hsame
  · rw [walk_succ, walk_succ] at heq
    rw [← hwalk, ← hwalk] at hne heq
    rw [chain_chain I q i hab (Nat.le_add_right b k)] at hne heq
    exact .inr ⟨b + k, by omega, by omega, fun hinput => hne (List.append_cancel_left hinput), Block.ext heq⟩

end KaspaPqv.Rfc8554

namespace KaspaPqv.LmsScript

open KaspaPqv.Lib KaspaPqv.Script KaspaPqv.VaultCore

variable {sha256 : Bytes → Block 32} {P : LmsParams} {I T1 : Bytes} {q : ℕ} {C C' m m' : Bytes} {y y' path path' : ℕ → Bytes}

/-! ### The strings of a verification -/

theorem messageInput_mem : Rfc8554.messageInput I q C m ∈ Rfc8554.hashed sha256 P.w P.h I q C y path m :=
  List.mem_cons_self ..

theorem keyInput_mem : Rfc8554.keyInput sha256 P.w I q C y m ∈ Rfc8554.hashed sha256 P.w P.h I q C y path m :=
  List.mem_cons_of_mem _ (List.mem_cons_self ..)

theorem leafInput_mem : Rfc8554.leafInput sha256 P.w P.h I q C y m ∈ Rfc8554.hashed sha256 P.w P.h I q C y path m :=
  List.mem_cons_of_mem _ (List.mem_cons_of_mem _ (List.mem_cons_self ..))

theorem climbInputs_subset : Rfc8554.climbInputs sha256 I path (2 ^ P.h + q) 0
    (sha256 (Rfc8554.leafInput sha256 P.w P.h I q C y m)).bytes ⊆ Rfc8554.hashed sha256 P.w P.h I q C y path m := by
  intro x hx
  iterate 3 apply List.mem_cons_of_mem
  exact List.mem_append_right _ hx

theorem chainInput_mem {i j : ℕ} (hi : i < Rfc8554.p P.w) (hlo : Rfc8554.coefAt sha256 P.w I q C m i ≤ j)
    (hhi : j < 2 ^ P.w - 1) :
    Rfc8554.chainInput sha256 P.w I q C y m i j ∈ Rfc8554.hashed sha256 P.w P.h I q C y path m := by
  iterate 3 apply List.mem_cons_of_mem
  apply List.mem_append_left
  refine List.mem_flatMap.mpr ⟨i, List.mem_range.mpr hi, List.mem_map.mpr ⟨j, ?_, rfl⟩⟩
  rw [List.mem_range'_1]
  omega

/-! ### One leaf, two signatures -/

theorem coefAt_eq (hmem : P ∈ LmsParams.constants) (hw : P.w = 2 ∨ P.w = 4) (C m : Bytes) (i : ℕ) :
    Rfc8554.coefAt sha256 P.w I q C m i =
      coef (coefficientSource (Rfc8554.digest sha256 I q C m) P) i P.w := by
  have hP := LmsParams.facts P hmem hw
  obtain ⟨hu, -, hls, -⟩ := LmsParams.rfc8554 P hmem
  rw [Rfc8554.coefAt, coef_rfc8554 _ _ hP.w_dvd, cksm_rfc8554 hP hu hls]
  rfl

theorem coefAt_le (hmem : P ∈ LmsParams.constants) (hw : P.w = 2 ∨ P.w = 4) (C m : Bytes) (i : ℕ) :
    Rfc8554.coefAt sha256 P.w I q C m i ≤ 2 ^ P.w - 1 := by
  rw [coefAt_eq hmem hw]
  exact coef_le _ _ _

/-- **Of two digests** the second one has a chain that was walked less far than for the first one. -/
theorem exists_coefAt_lt (hmem : P ∈ LmsParams.constants) (hw : P.w = 2 ∨ P.w = 4)
    (hne : Rfc8554.digest sha256 I q C m ≠ Rfc8554.digest sha256 I q C' m') :
    ∃ i < P.p, Rfc8554.coefAt sha256 P.w I q C' m' i < Rfc8554.coefAt sha256 P.w I q C m i := by
  have hsizes := LmsParams.sizes P hmem
  set Q := Rfc8554.digest sha256 I q C m with hQ
  set Q' := Rfc8554.digest sha256 I q C' m' with hQ'
  have hdiffer : ∃ i < P.u, coef Q.bytes i P.w ≠ coef Q'.bytes i P.w := by
    by_contra hall
    push Not at hall
    exact hne (eq_of_coef_eq hsizes hall)
  have hlack : lack (2 ^ P.w) P.u (fun i => coef Q.bytes i P.w) < (2 ^ P.w) ^ P.v := by
    rw [← checksumSum_eq_lack, ← pow_mul, Nat.mul_comm]
    exact (checksumSum_le Q.bytes P.u).trans_lt hsizes.checksum_lt
  obtain ⟨i, hi, hlt⟩ := exists_checksummed_lt (fun i _ => coef_lt Q'.bytes i P.w) hlack hdiffer
  rw [← hsizes.p_eq] at hi
  rw [← coef_coefficientSource hsizes Q hi, ← coef_coefficientSource hsizes Q' hi] at hlt
  refine ⟨i, hi, ?_⟩
  rw [coefAt_eq hmem hw, coefAt_eq hmem hw]
  exact hlt

/-- **Two signatures under one root** lead to one candidate for the key by one path, or collide. -/
theorem keyInput_binds (hq : q < 2 ^ P.h) (h : Rfc8554.Accepts sha256 P.w P.h I T1 q C y path m)
    (h' : Rfc8554.Accepts sha256 P.w P.h I T1 q C' y' path' m') :
    (Rfc8554.keyInput sha256 P.w I q C y m = Rfc8554.keyInput sha256 P.w I q C' y' m' ∧
        ∀ j < P.h, path j = path' j) ∨
      Rfc8554.Collide sha256 (Rfc8554.hashed sha256 P.w P.h I q C y path m)
        (Rfc8554.hashed sha256 P.w P.h I q C' y' path' m') := by
  have hclimb : Rfc8554.climb sha256 I path (2 ^ P.h + q) 0 (sha256 (Rfc8554.leafInput sha256 P.w P.h I q C y m)).bytes =
      Rfc8554.climb sha256 I path' (2 ^ P.h + q) 0
        (sha256 (Rfc8554.leafInput sha256 P.w P.h I q C' y' m')).bytes := h.trans h'.symm
  have hhi : 2 ^ P.h + q < 2 ^ (P.h + 1) := by
    rw [pow_succ]
    omega
  rcases Rfc8554.climb_binds I path path' P.h _ 0 _ _ (Nat.le_add_right _ _) hhi (by simp) hclimb with
    ⟨hleaf, hpath⟩ | hcollide
  · rcases Rfc8554.eq_or_collide leafInput_mem leafInput_mem hleaf with hinput | hcollide
    · rcases Rfc8554.eq_or_collide keyInput_mem keyInput_mem (List.append_cancel_left hinput) with hkey | hcollide
      · refine .inl ⟨hkey, fun j hj => ?_⟩
        have hj := hpath j hj
        rwa [Nat.zero_add] at hj
      · exact .inr hcollide
    · exact .inr hcollide
  · exact .inr (hcollide.mono climbInputs_subset climbInputs_subset)

theorem length_chain (I : Bytes) (q i a b : ℕ) {tmp : Bytes} (h : tmp.length = 32) :
    (Rfc8554.chain sha256 I q i a b tmp).length = 32 := by
  by_cases hb : b ≤ a
  · rwa [Rfc8554.chain_self I q i a hb]
  · obtain ⟨b, rfl⟩ := Nat.exists_eq_add_one_of_ne_zero (show b ≠ 0 by omega)
    rw [Rfc8554.chain_succ I q i (by omega)]
    exact Block.length_bytes _

/-- **One end of a chain** that two signatures come to: the one that was walked less far by its signer leads to the
other one, or the two collide. -/
theorem chainEnd_binds (hmem : P ∈ LmsParams.constants) (hw : P.w = 2 ∨ P.w = 4) {i : ℕ} (hi : i < Rfc8554.p P.w)
    (hle : Rfc8554.coefAt sha256 P.w I q C m i ≤ Rfc8554.coefAt sha256 P.w I q C' m' i)
    (h : Rfc8554.chainEnd sha256 P.w I q C y m i = Rfc8554.chainEnd sha256 P.w I q C' y' m' i) :
    Rfc8554.chain sha256 I q i (Rfc8554.coefAt sha256 P.w I q C m i) (Rfc8554.coefAt sha256 P.w I q C' m' i) (y i) = y' i ∨
      Rfc8554.Collide sha256 (Rfc8554.hashed sha256 P.w P.h I q C y path m)
        (Rfc8554.hashed sha256 P.w P.h I q C' y' path' m') := by
  rcases Rfc8554.chain_binds I q i hle (coefAt_le hmem hw C' m' i) h with hsame | ⟨j, hlo, hhi, hne, heq⟩
  · exact .inl hsame
  · exact .inr ⟨_, chainInput_mem hi (hle.trans hlo) hhi, _, chainInput_mem hi hlo hhi, hne, heq⟩

/-- Of two signatures that come to the same ends by different digests, the second one shows an earlier value. -/
theorem showsEarlier_of_ne (hmem : P ∈ LmsParams.constants) (hw : P.w = 2 ∨ P.w = 4)
    (hends : ∀ i < P.p, Rfc8554.chainEnd sha256 P.w I q C y m i = Rfc8554.chainEnd sha256 P.w I q C' y' m' i)
    (hne : Rfc8554.digest sha256 I q C m ≠ Rfc8554.digest sha256 I q C' m') :
    Rfc8554.ShowsEarlier sha256 P.w I q C y m C' y' m' ∨
      Rfc8554.Collide sha256 (Rfc8554.hashed sha256 P.w P.h I q C y path m)
        (Rfc8554.hashed sha256 P.w P.h I q C' y' path' m') := by
  obtain ⟨-, -, -, hp⟩ := LmsParams.rfc8554 P hmem
  obtain ⟨i, hi, hlt⟩ := exists_coefAt_lt hmem hw hne
  have hi' : i < Rfc8554.p P.w := hp ▸ hi
  rcases chainEnd_binds hmem hw hi' hlt.le (hends i hi).symm with hearlier | hcollide
  · exact .inl ⟨i, hi', hlt, hearlier⟩
  · exact .inr hcollide.symm

/-- **Two signatures by one leaf** with values of the RFC's length, of messages of one length: they are one
signature of one message, or two of the strings that are hashed for them collide, or each of them
shows a value of a chain that comes before the one that the other shows. -/
theorem accepts_twice (hmem : P ∈ LmsParams.constants) (hw : P.w = 2 ∨ P.w = 4) (hq : q < 2 ^ P.h)
    (hm : m.length = m'.length) (hy : ∀ i < P.p, (y i).length = 32) (hy' : ∀ i < P.p, (y' i).length = 32)
    (h : Rfc8554.Accepts sha256 P.w P.h I T1 q C y path m) (h' : Rfc8554.Accepts sha256 P.w P.h I T1 q C' y' path' m') :
    ((m = m' ∧ C = C' ∧ (∀ i < P.p, y i = y' i) ∧ ∀ j < P.h, path j = path' j) ∨
        Rfc8554.ShowsEarlier sha256 P.w I q C y m C' y' m' ∧ Rfc8554.ShowsEarlier sha256 P.w I q C' y' m' C y m) ∨
      Rfc8554.Collide sha256 (Rfc8554.hashed sha256 P.w P.h I q C y path m)
        (Rfc8554.hashed sha256 P.w P.h I q C' y' path' m') := by
  obtain ⟨-, -, -, hp⟩ := LmsParams.rfc8554 P hmem
  by_cases hcollide : Rfc8554.Collide sha256 (Rfc8554.hashed sha256 P.w P.h I q C y path m)
      (Rfc8554.hashed sha256 P.w P.h I q C' y' path' m')
  · exact .inr hcollide
  obtain ⟨hkey, hpath⟩ := (keyInput_binds hq h h').resolve_right hcollide
  have hends : ∀ i < P.p, Rfc8554.chainEnd sha256 P.w I q C y m i = Rfc8554.chainEnd sha256 P.w I q C' y' m' i := by
    rw [hp]
    exact flatMap_range_inj (fun i hi => length_chain I q i _ _ (hy i (hp ▸ hi)))
      (fun i hi => length_chain I q i _ _ (hy' i (hp ▸ hi))) (List.append_cancel_left hkey)
  left
  by_cases hdigest : Rfc8554.digest sha256 I q C m = Rfc8554.digest sha256 I q C' m'
  · have hinput := (Rfc8554.eq_or_collide messageInput_mem messageInput_mem (congrArg Block.bytes hdigest)).resolve_right
      hcollide
    obtain ⟨hhead, rfl⟩ := List.append_inj' hinput hm
    obtain rfl := List.append_cancel_left hhead
    refine .inl ⟨rfl, rfl, fun i hi => ?_, hpath⟩
    have hvalue := (chainEnd_binds hmem hw (hp ▸ hi) le_rfl (hends i hi)).resolve_right hcollide
    rwa [Rfc8554.chain_self I q i _ le_rfl] at hvalue
  · refine .inr ⟨(showsEarlier_of_ne hmem hw hends hdigest).resolve_right hcollide, ?_⟩
    exact (showsEarlier_of_ne hmem hw (fun i hi => (hends i hi).symm) (Ne.symm hdigest)).resolve_right
      fun hback => hcollide hback.symm

/-! ### One leaf, two spends -/

/-- The strings that are hashed to unlock a coin. -/
def unlockInputs (sha256 : Bytes → Block 32) (P : LmsParams) (I : Bytes) (q n : ℕ) (c : TxContext) (C : Bytes)
    (y path : ℕ → Bytes) : List Bytes :=
  rebuildLayout c n :: Rfc8554.hashed sha256 P.w P.h I q C y path (sha256 (rebuildLayout c n)).bytes

/-- **Two spends by one leaf**: if items of the length of a hash unlock a coin of a leaf, and others a
coin of the same leaf, then two of the strings that are hashed for that collide; or the items are the
same, the coin is, and so is everything that the script reads of the transaction; or of some chain
each of them shows an earlier value than the other. -/
theorem unlocked_twice (hmem : P ∈ LmsParams.constants) (hw : P.w = 2 ∨ P.w = 4) (hq : q < 2 ^ P.h)
    {key : LmsPublicKey} {n : ℕ} {is : List Instr}
    (hcode : (emitVaultScript P key q n : Gen Unit Instr String Unit).code () = .ok is) {c c' : TxContext}
    {items items' : List Bytes} (hlen : ∀ b ∈ items, b.length = 32) (hlen' : ∀ b ∈ items', b.length = 32)
    {item item' : Bytes} (h : execute ⟨sha256, some c⟩ is items = some [item]) (htrue : isTrue item)
    (h' : execute ⟨sha256, some c'⟩ is items' = some [item']) (htrue' : isTrue item') :
    ∃ (C : Bytes) (y path : ℕ → Bytes) (C' : Bytes) (y' path' : ℕ → Bytes),
      items = witnessItems P C y path ∧ items' = witnessItems P C' y' path' ∧
      (((items = items' ∧ c.outpoint = c'.outpoint ∧ c.tx.version = c'.tx.version ∧
            c.tx.outputs.length = c'.tx.outputs.length ∧ c.tx.outputs.take n = c'.tx.outputs.take n) ∨
          Rfc8554.ShowsEarlier sha256 P.w key.id.bytes q C y (sha256 (rebuildLayout c n)).bytes
              C' y' (sha256 (rebuildLayout c' n)).bytes ∧
            Rfc8554.ShowsEarlier sha256 P.w key.id.bytes q C' y' (sha256 (rebuildLayout c' n)).bytes
              C y (sha256 (rebuildLayout c n)).bytes) ∨
        Rfc8554.Collide sha256 (unlockInputs sha256 P key.id.bytes q n c C y path)
          (unlockInputs sha256 P key.id.bytes q n c' C' y' path')) := by
  obtain ⟨m, C, y, path, hm, rfl, haccepts⟩ := accepts_of_execute hmem hw hq hcode h htrue
  obtain ⟨m', C', y', path', hm', rfl, haccepts'⟩ := accepts_of_execute hmem hw hq hcode h' htrue'
  obtain ⟨_, hc, -, hfits, rfl⟩ := rebuiltDigest_eq_some.mp hm
  obtain ⟨_, hc', -, hfits', rfl⟩ := rebuiltDigest_eq_some.mp hm'
  obtain rfl := Option.some.inj hc
  obtain rfl := Option.some.inj hc'
  have hvalue {C : Bytes} {y path : ℕ → Bytes} (hlen : ∀ b ∈ witnessItems P C y path, b.length = 32) :
      ∀ i < P.p, (y i).length = 32 := by
    intro i hi
    apply hlen
    apply List.mem_cons_of_mem
    exact List.mem_append_left _ (List.mem_map.mpr ⟨i, List.mem_range.mpr hi, rfl⟩)
  refine ⟨C, y, path, C', y', path', rfl, rfl, ?_⟩
  rcases accepts_twice hmem hw hq (by simp) (hvalue hlen) (hvalue hlen') haccepts haccepts' with
    (⟨hdigest, rfl, hy, hpath⟩ | hshows) | hcollide
  · rcases Rfc8554.eq_or_collide (List.mem_cons_self ..) (List.mem_cons_self ..) hdigest with hlayout | hcollide
    · obtain ⟨hversion, hcoin, hcount, houts⟩ := rebuildLayout_inj hfits hfits' hlayout
      refine .inl (.inl ⟨?_, hcoin, hversion, hcount, houts⟩)
      have hys : (List.range P.p).map y = (List.range P.p).map y' :=
        List.map_congr_left fun i hi => hy i (List.mem_range.mp hi)
      have hpaths : (List.range P.h).map path = (List.range P.h).map path' :=
        List.map_congr_left fun i hi => hpath i (List.mem_range.mp hi)
      rw [witnessItems, witnessItems, hys, hpaths]
    · exact .inr hcollide
  · exact .inl (.inr hshows)
  · exact .inr (hcollide.mono (List.subset_cons_self ..) (List.subset_cons_self ..))

/-- A signature of zeros, but for the randomness. -/
def zeroItems (C : Bytes) : List Bytes :=
  witnessItems .sha256H15W2 C (fun _ => (Block.zero 32).bytes) fun _ => (Block.zero 32).bytes

theorem length_zeroItems {C : Bytes} (hC : C.length = 32) : ∀ b ∈ zeroItems C, b.length = 32 := by
  intro b hb
  rcases List.mem_cons.mp hb with rfl | hb
  · exact hC
  · rcases List.mem_append.mp hb with hb | hb
    · obtain ⟨i, -, rfl⟩ := List.mem_map.mp hb
      exact Block.length_bytes _
    · obtain ⟨i, -, rfl⟩ := List.mem_map.mp hb
      exact Block.length_bytes _

/-- It unlocks any coin of the leaf, under a hash function with one value. -/
theorem execute_zeroItems {is : List Instr} {c : TxContext} (C : Bytes)
    (hcode : (emitVaultScript .sha256H15W2 ⟨Block.zero 16, Block.zero 32⟩ 3 2 : Gen Unit Instr String Unit).code () =
      .ok is) (hfits : RebuildFits c 2) :
    execute ⟨fun _ => Block.zero 32, some c⟩ is (zeroItems C) = some [boolBytes true] := by
  have hdigest : rebuiltDigest ⟨fun _ => Block.zero 32, some c⟩ 2 = some (Block.zero 32) :=
    rebuiltDigest_eq_some.mpr ⟨c, rfl, by decide, hfits, rfl⟩
  have hroot : Rfc8554.candidateRoot (fun _ => Block.zero 32) 2 15 (Block.zero 16).bytes 3 C
      (fun _ => (Block.zero 32).bytes) (fun _ => (Block.zero 32).bytes) (Block.zero 32).bytes =
        (Block.zero 32).bytes := climb_const ..
  rw [zeroItems, execute_leaf (by decide) (.inl rfl) (by decide) hcode, hdigest, Option.map_some]
  exact congrArg (fun b => some [boolBytes b]) (decide_eq_true hroot)

/-- A spend of another coin of the leaf, to other outputs. -/
def otherSpend : TxContext where
  tx :=
    { version := 1
      inputs := [⟨canonicalView.outpointTxid, 1⟩]
      outputs := [⟨100000000, 0, List.replicate 35 0xaa⟩, ⟨499000000, 0, List.replicate 35 0xcc⟩]
      inputs_bound := by decide }
  input := ⟨0, by decide⟩

/-- Two coins of leaf 3, spent by two transactions with two signatures. Under a hash function with one value
both are taken, and neither shows a value before the other's: what it comes to is that strings collide. -/
theorem unlocked_twice_zeros :
    ∃ (C : Bytes) (y path : ℕ → Bytes) (C' : Bytes) (y' path' : ℕ → Bytes),
      zeroItems (zeros 32) = witnessItems .sha256H15W2 C y path ∧
      zeroItems (List.replicate 32 1) = witnessItems .sha256H15W2 C' y' path' ∧
      Rfc8554.Collide (fun _ => Block.zero 32)
        (unlockInputs (fun _ => Block.zero 32) .sha256H15W2 (Block.zero 16).bytes 3 2 canonicalSpend C y path)
        (unlockInputs (fun _ => Block.zero 32) .sha256H15W2 (Block.zero 16).bytes 3 2 otherSpend C' y' path') := by
  have hmem : LmsParams.sha256H15W2 ∈ LmsParams.constants := by decide
  obtain ⟨is, hcode⟩ := emitVaultScript_code hmem (.inl rfl) ⟨Block.zero 16, Block.zero 32⟩ (q := 3) (by decide)
    (n := 2) (by decide) (by decide)
  have hexec := execute_zeroItems (c := canonicalSpend) (zeros 32) hcode (by decide)
  have hexec' := execute_zeroItems (c := otherSpend) (List.replicate 32 1) hcode (by decide)
  obtain ⟨C, y, path, C', y', path', hitems, hitems', (⟨-, hcoin, -⟩ | ⟨⟨i, -, hlt, -⟩, -⟩) | hcollide⟩ :=
    unlocked_twice hmem (.inl rfl) (by decide) hcode (length_zeroItems rfl) (length_zeroItems List.length_replicate)
      hexec (isTrue_boolBytes true) hexec' (isTrue_boolBytes true)
  · exact absurd hcoin (by decide)
  · exact absurd hlt (Nat.lt_irrefl _)
  · exact ⟨C, y, path, C', y', path', hitems, hitems', hcollide⟩

end KaspaPqv.LmsScript
