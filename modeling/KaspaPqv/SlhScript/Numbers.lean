import KaspaPqv.SlhScript.Phases

/-!
# Numbers in the script

The verifier reads the position and the digits of a signature out of the digest with a byte
window, a divisor and a modulus for each, and lays indices out on big-endian bytes again. The
engine aborts at a result that does not fit an `i64`, at a slice that leaves its string and at
a number that does not fit its width, so that code which runs to its end does none of this.

## What is proved

* `computes_of_emits` — the rules of the emitter, told of the engine alone.
* `fields_match_reference` — the fields that the script reads are those of the reference.
* `emitBeBytes_lays_out` — the bytes that the script writes into an address are the address's own.
-/

namespace KaspaPqv.SlhScript

open KaspaPqv.Lib KaspaPqv.Script Emits

variable {ν : Type}

/-- The generator computes `vs'` from the slots `vs`. In an emitter that has held its frame it
generates, and leaves the account of the queue alone. Its code runs to its end on every stack
that has the values of `vs` on top, in whatever blocks, and leaves those of `vs'` in their place. -/
def Computes (env : Env) (m : Emitter.Emit ν Unit) (vs vs' : List (ν × Bytes)) : Prop :=
  ∀ g : EmitState ν, g.f = vs.map Prod.fst → g.f.length ≤ g.peakFrame + 1 →
    ∃ g' is, m g = .ok ((), g', is) ∧ g'.f = vs'.map Prod.fst ∧ g'.nextElement = g.nextElement ∧ g'.pending = g.pending ∧
      ∀ rest alt cond, executing cond = true →
        run env is ⟨⟨vs.map Prod.snd ++ rest, alt⟩, cond⟩ = some ⟨⟨vs'.map Prod.snd ++ rest, alt⟩, cond⟩

/-- **A rule of the emitter**, whatever lies below the slots and on the alt stack. -/
theorem computes_of_emits {env : Env} {m : Emitter.Emit ν Unit} {vs vs' : List (ν × Bytes)}
    (h : ∀ rest cap q, Emits ⟨env, rest, cap⟩ m ⟨vs, q⟩ ⟨vs', q⟩) : Computes env m vs vs' := by
  intro g hframe hpeak
  have hpeak' : vs.length ≤ g.peakFrame + 1 := by simpa [hframe] using hpeak
  have hrun (rest alt : List Bytes) :=
    (h rest (alt.length + rest.length) ⟨alt, g.nextElement, g.pending, True, False⟩).run id trivial le_rfl hframe rfl rfl
      hpeak'
  obtain ⟨g', is, hgen, hframe', hnext, hpending, -⟩ := hrun [] []
  refine ⟨g', is, hgen, hframe', hnext, hpending, fun rest alt cond hc => ?_⟩
  obtain ⟨g'', is', hgen', -, -, -, hcode⟩ := hrun rest alt
  rw [hgen] at hgen'
  cases hgen'
  exact hcode cond hc

/-! ### Bit fields -/

/-- **The script reads the fields that the reference reads**, of every set. Of a digest of `m`
bytes it leaves the indices of `splitDigest` and, for every FORS tree, the number that `base2b`
has there; of a hash value it leaves the digits of `base2b`. The named slot may lie anywhere in
the frame, which is a vector of strings and so has fewer than `2 ^ 62` slots. -/
theorem fields_match_reference {p : Params} (hmem : p ∈ Params.ALL) (env : Env) :
    (∀ D : Bytes, D.length = p.m → ∃ md idxTree idxLeaf indices,
      splitDigest p D = some (md, idxTree, idxLeaf) ∧ base2b md p.a p.k = some indices ∧
      (∀ vs, Computes env (Emitter.emitIndices p) ((.digest, D) :: vs)
        ((.leaf, encodeNum idxLeaf) :: (.tree, encodeNum idxTree) :: (.digest, D) :: vs)) ∧
      ∀ i < p.k, ∃ index, indices[i]? = some index ∧ ∀ depth < 2 ^ 62, ∀ vs, find .digest vs = some (depth, D) →
        Computes env (Emitter.emitForsIndex p i) vs ((.idx, encodeNum index) :: vs)) ∧
    ∀ node : Bytes, node.length = N → ∃ digits, base2b node p.lgw p.len1 = some digits ∧
      ∀ i < p.len1, ∃ digit, digits[i]? = some digit ∧
        ∀ (name : Slot), ∀ depth < 2 ^ 62, ∀ vs, find name vs = some (depth, node) →
          Computes env (Emitter.emitDigitOf p name i) vs (tmp (encodeNum digit) :: vs) := by
  have hp := emittable p hmem
  have hfacts := hp.toFacts
  refine ⟨fun D hD => ?_, fun node hnode => ?_⟩
  · have hmd : (D.take p.mdLen).length = p.mdLen := by
      have hm := hp.m_eq
      rw [List.length_take, Nat.min_eq_left (by omega)]
    refine ⟨_, _, _, _, splitDigest_eq hfacts hD, base2b_forsIndex hfacts hmd, fun vs => ?_, fun i hi => ?_⟩
    · exact computes_of_emits fun _ _ _ => emitIndices hfacts hD
    · refine ⟨forsIndex p (D.take p.mdLen) i, by simp [hi], fun depth hdepth vs hfind => ?_⟩
      exact computes_of_emits fun _ _ _ => emitForsIndex hp hD hi hfind (by omega)
  · refine ⟨_, base2b_hash hfacts hnode, fun i hi => ?_⟩
    refine ⟨bitField node (p.lgw * i) p.lgw, by simp [hi], fun name depth hdepth vs hfind => ?_⟩
    exact computes_of_emits fun _ _ _ => emitDigitOf hfacts hfind (by omega) hnode hi

/-- A digest of ones, whose tree index takes 54 bits. -/
theorem fields_match_reference_ones :
    Computes ⟨fun _ => Block.zero 32, none⟩ (Emitter.emitIndices .SHA2_128S) [(.digest, List.replicate 30 0xff)]
      [(.leaf, encodeNum 511), (.tree, encodeNum (2 ^ 54 - 1 : ℕ)), (.digest, List.replicate 30 0xff)] := by
  obtain ⟨md, idxTree, idxLeaf, indices, hsplit, -, hindices, -⟩ :=
    (fields_match_reference (show Params.SHA2_128S ∈ Params.ALL by decide) ⟨fun _ => Block.zero 32, none⟩).1
      (List.replicate 30 0xff) rfl
  have hones : splitDigest .SHA2_128S (List.replicate 30 0xff) = some (List.replicate 21 0xff, 2 ^ 54 - 1, 511) := by decide
  rw [hones] at hsplit
  cases hsplit
  exact hindices []

/-! ### Big-endian bytes -/

/-- An index of `width` bytes, at a height of its tree: the emitter divides it down, and lays it
out. Behind the zeros that the emitter writes by itself, that is the word of the address. -/
structure LaysOutIndex (env : Env) (width height index : ℕ) : Prop where
  bytes : ∀ vs : List (Slot × Bytes), Computes env
    (Gen.onlyIf (height > 0) (Emitter.divPow height) >>= fun _ => Emitter.emitBeBytes width)
    (tmp (encodeNum index) :: vs) (tmp (beBytes width (index / 2 ^ height)) :: vs)
  word : ∀ a : Adrs, zeros (4 - width) ++ beBytes width (index / 2 ^ height) =
    slice (a.setTreeIndex (index / 2 ^ height)).asBytes 18 22

theorem laysOutIndex (env : Env) {width height index : ℕ} (hpos : 1 ≤ width) (hw : width ≤ 4) (hheight : height < 63)
    (h : index < 2 ^ (8 * width - 1)) : LaysOutIndex env width height index := by
  have hsmall : index < 2 ^ 63 := h.trans_le (Nat.pow_le_pow_right (by norm_num) (by omega))
  have hdiv : index / 2 ^ height < 2 ^ (8 * width - 1) := (Nat.div_le_self _ _).trans_lt h
  constructor
  · intro vs
    exact computes_of_emits fun _ _ _ => .seq (divPow_onlyIf hsmall hheight) (emitBeBytes hpos (by omega) hdiv)
  · intro a
    rw [Adrs.slice_asBytes_word3, Adrs.setTreeIndex, ← beBytes_add (hdiv.trans_le two_pow_le_256), Nat.sub_add_cancel hw]

/-- **Indices are laid out as the addresses have them.** With the width that `wordWidthFor` gives
for `max`, every value up to `max` is laid out on big-endian bytes. So every index that a FORS or
an XMSS tree can have at any height, with the zeros in front of it, is what `setTreeIndex` writes,
and the bytes of a tree's address are those of `setTreeAddress`. -/
theorem emitBeBytes_lays_out (env : Env) :
    (∀ max v : ℕ, max < 2 ^ 63 → v ≤ max → ∀ (s : Slot) vs,
      Computes env (Emitter.emitBeBytes (Params.wordWidthFor max)) ((s, encodeNum v) :: vs)
        (tmp (beBytes (Params.wordWidthFor max) v) :: vs)) ∧
    ∀ p ∈ Params.ALL,
      (∀ i < p.k, ∀ idx < 2 ^ p.a, ∀ height ≤ p.a, LaysOutIndex env p.forsIndexWidth height (idx + i <<< p.a)) ∧
      (∀ leaf < 2 ^ p.hp, ∀ height ≤ p.hp, LaysOutIndex env p.xmssIndexWidth height leaf) ∧
      ∀ tree : ℕ, tree < 2 ^ p.idxTreeBits → ∀ (slot : Slot), ∀ depth < 2 ^ 62, ∀ vs,
        find slot vs = some (depth, encodeNum tree) → ∀ a : Adrs,
          Computes env (Emitter.emitTreeBytes p slot) vs (tmp (slice (a.setTreeAddress tree).asBytes 1 9) :: vs) := by
  refine ⟨fun max v hmax hv s vs => ?_, fun p hmem => ⟨fun i hi idx hidx height hheight => ?_,
    fun leaf hleaf height hheight => ?_, fun tree htree slot depth hdepth vs hfind a => ?_⟩⟩
  · exact computes_of_emits fun _ _ _ =>
      emitBeBytes Params.wordWidthFor_pos Params.wordWidthFor_le (hv.trans_lt (Params.lt_wordWidthFor hmax))
  · have hp := Params.facts p hmem
    have ha := hp.a_le
    exact laysOutIndex env hp.forsIndexWidth_pos hp.forsIndexWidth_le (by omega) (forsIndex_fits hp hi hidx)
  · have hp := Params.facts p hmem
    have hle := hp.hp_le
    exact laysOutIndex env hp.xmssIndexWidth_pos hp.xmssIndexWidth_le (by omega) (hleaf.trans_le hp.xmssIndex_le)
  · have hp := Params.facts p hmem
    have hlen := hp.idxTreeLen_le
    have hbits := hp.idxTreeBits_le
    have hsmall : tree < 2 ^ 63 := htree.trans_le (Nat.pow_le_pow_right (by norm_num) (by omega))
    have hzero : p.idxTreeBits = 0 → tree = 0 := fun h0 => by
      rw [h0, pow_zero] at htree
      exact Nat.lt_one_iff.mp htree
    rw [Adrs.slice_asBytes_tree, Adrs.setTreeAddress]
    exact computes_of_emits fun _ _ _ => emitTreeBytes hfind (by omega) hzero hsmall

end KaspaPqv.SlhScript
