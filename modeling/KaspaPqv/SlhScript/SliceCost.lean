import KaspaPqv.Lib.Packing
import KaspaPqv.SlhScript.Delivery
import Mathlib.Algebra.BigOperators.Ring.List

/-!
# What slicing costs

The size of the blobs is chosen by an estimate. An opcode is charged for the bytes that it
produces by a copy or a cut, and moves between the two stacks are free; a cut consumes its operand,
so that what is left of a blob is copied for every element that is taken from it. Large blobs cost
more to slice, and small ones take more of the stack.

## What is proved

* `sliceUnits_add` — the estimate in closed form.
* `ofElems_extremal` — of all plans with blobs of at most `e` elements, that of equal blobs has the
  fewest, and is the most expensive to slice.
* `estimatedSliceUnits_exact` — what the emitted code is charged is what was estimated.
-/

namespace KaspaPqv.SlhScript

open KaspaPqv.Lib KaspaPqv.Script

/-! ### The estimate -/

/-- What a blob of some elements costs: all but the last one are cut off, each from a copy of what is left. -/
def sliceUnits (e : ℕ) : ℕ := ((List.range' 1 (e - 1)).map fun k => 2 * (N * (e - k + 1))).sum

/-- `estimated_slice_units`. -/
def BlobPlan.estimatedSliceUnits (plan : BlobPlan) : ℕ := (plan.blobs.map sliceUnits).sum

/-- A blob with one more element costs two copies of it more. -/
theorem sliceUnits_succ (e : ℕ) : sliceUnits (e + 2) = sliceUnits (e + 1) + 2 * N * (e + 2) := by
  have hshift : ((List.range' 2 e).map fun k => 2 * (N * (e + 2 - k + 1))) =
      (List.range' 1 e).map fun k => 2 * (N * (e + 1 - k + 1)) := by
    rw [List.range'_eq_map_range, List.range'_eq_map_range, List.map_map, List.map_map]
    refine List.map_congr_left fun i _ => ?_
    simp only [Function.comp_apply]
    rw [show e + 2 - (2 + i) = e + 1 - (1 + i) by omega]
  simp only [sliceUnits, Nat.add_sub_cancel, show e + 2 - 1 = e + 1 from rfl, List.range'_succ, List.map_cons, List.sum_cons,
    hshift]
  rw [Nat.add_comm, Nat.mul_assoc]

/-- **The estimate of a blob** in closed form. -/
theorem sliceUnits_add {e : ℕ} (he : 0 < e) : sliceUnits e + 2 * N = N * (e * (e + 1)) := by
  induction e with
  | zero => exact absurd he (lt_irrefl 0)
  | succ e ih =>
    cases e with
    | zero => rfl
    | succ e =>
      have hih := ih e.succ_pos
      rw [sliceUnits_succ]
      simp only [N] at hih ⊢
      linarith

/-- The same over the integers, and for no elements. -/
theorem sliceUnits_eq (e : ℕ) : (sliceUnits e : ℤ) = if e = 0 then 0 else N * ((e : ℤ) * (e + 1)) - 2 * N := by
  split_ifs with h0
  · rw [h0]
    rfl
  · have hunits : ((sliceUnits e + 2 * N : ℕ) : ℤ) = (N * (e * (e + 1)) : ℕ) :=
      congrArg Nat.cast (sliceUnits_add (Nat.pos_of_ne_zero h0))
    push_cast at hunits
    linarith

/-- It costs no less to take elements from one blob and put them into a larger one. -/
theorem uneven_sliceUnits : Uneven fun e => (sliceUnits e : ℤ) where
  zero := rfl
  exchange a b m ha hb hm := by
    obtain ⟨x, rfl⟩ := Nat.exists_eq_add_of_le ha
    obtain ⟨y, hy⟩ := Nat.exists_eq_add_of_le hm
    have hrest : a + b - (a + x) = y := by omega
    obtain rfl : b = x + y := by omega
    have hya : (y : ℤ) ≤ a := by exact_mod_cast (by omega : y ≤ a)
    have hx : (0 : ℤ) ≤ x := Int.natCast_nonneg x
    have hy : (0 : ℤ) ≤ y := Int.natCast_nonneg y
    have hprod : 0 ≤ (x : ℤ) * (a - y) := mul_nonneg hx (by linarith)
    rw [hrest]
    simp only [sliceUnits_eq, N]
    push_cast
    by_cases hy0 : y = 0
    · subst hy0
      by_cases ha0 : a = 0
      · simp [ha0]
      · by_cases hx0 : x = 0
        · simp [hx0]
        · have hprod' : (0 : ℤ) ≤ a * x := by positivity
          simp only [ha0, hx0, if_false, if_true, Nat.add_eq_zero_iff, false_and, Nat.cast_zero, add_zero]
          nlinarith
    · have ha0 : a ≠ 0 := by omega
      simp only [ha0, hy0, if_false, Nat.add_eq_zero_iff, false_and, and_false]
      nlinarith

/-! ### Plans compared -/

/-- The price of having a blob, with its sign changed. -/
def blobPrice (e : ℕ) : ℤ := if e = 0 then 0 else -1

theorem uneven_blobPrice : Uneven blobPrice where
  zero := rfl
  exchange a b m ha hb hm := by
    unfold blobPrice
    split_ifs <;> omega

/-- A plan of equal blobs has full ones, and what is left. -/
theorem sum_map_cutInto {price : ℕ → ℤ} (h : Uneven price) {e : ℕ} (he : 0 < e) (left : ℕ) :
    ((cutInto e left).map price).sum = packed price e left := by
  rw [cutInto_eq he, List.map_append, List.sum_append, List.map_replicate, List.sum_replicate, nsmul_eq_mul, packed]
  by_cases hrest : left % e = 0
  · simp [hrest, h.zero]
  · simp [hrest]

theorem cast_estimatedSliceUnits (plan : BlobPlan) :
    (plan.estimatedSliceUnits : ℤ) = (plan.blobs.map fun e => (sliceUnits e : ℤ)).sum := by
  unfold BlobPlan.estimatedSliceUnits
  induction plan.blobs with
  | nil => rfl
  | cons e blobs ih => rw [List.map_cons, List.map_cons, List.sum_cons, List.sum_cons, ← ih, Nat.cast_add]

theorem neg_blobCount (plan : BlobPlan) : -(plan.blobCount : ℤ) = (plan.blobs.map blobPrice).sum := by
  have hprice : plan.blobs.map blobPrice = plan.blobs.map fun _ => (-1 : ℤ) :=
    List.map_congr_left fun e he => if_neg (plan.blobs_pos e he).ne'
  rw [hprice, List.map_const', List.sum_replicate, BlobPlan.blobCount]
  simp

/-- Two copies less for each blob than the formula of the module says. -/
theorem sum_sliceUnits_add {blobs : List ℕ} (hpos : ∀ count ∈ blobs, 0 < count) :
    (blobs.map sliceUnits).sum + 2 * N * blobs.length = N * (blobs.map fun e => e * (e + 1)).sum := by
  induction blobs with
  | nil => rfl
  | cons e blobs ih =>
    obtain ⟨he, hblobs⟩ := List.forall_mem_cons.mp hpos
    have hunits := sliceUnits_add he
    have hih := ih hblobs
    simp only [List.map_cons, List.sum_cons, List.length_cons, N] at hunits hih ⊢
    linarith

/-- **Plans compared**: of all plans for a set with blobs of at most `e` elements, that of equal blobs has the fewest
blobs and is the most expensive to slice; and none is more expensive than `16 * E * (e + 1)` script units, less two
copies of an element for each blob. -/
theorem BlobPlan.ofElems_extremal (plan : BlobPlan) {e : ℕ} (he : 0 < e) (h : ∀ count ∈ plan.blobs, count ≤ e) :
    (ofElems plan.p e he).blobCount ≤ plan.blobCount ∧
      plan.estimatedSliceUnits ≤ (ofElems plan.p e he).estimatedSliceUnits ∧
      plan.estimatedSliceUnits + 2 * N * plan.blobCount ≤ N * (plan.p.sigElements * (e + 1)) := by
  refine ⟨?_, ?_, ?_⟩
  · have hcount := sum_le_packed uneven_blobPrice he h
    rw [← neg_blobCount, plan.sum_blobs, ← sum_map_cutInto uneven_blobPrice he] at hcount
    have hequal := neg_blobCount (ofElems plan.p e he)
    change -_ = ((cutInto e plan.p.sigElements).map blobPrice).sum at hequal
    omega
  · have hunits := sum_le_packed uneven_sliceUnits he h
    rw [← cast_estimatedSliceUnits, plan.sum_blobs, ← sum_map_cutInto uneven_sliceUnits he] at hunits
    have hequal := cast_estimatedSliceUnits (ofElems plan.p e he)
    change _ = ((cutInto e plan.p.sigElements).map fun e => (sliceUnits e : ℤ)).sum at hequal
    omega
  · have hlong : (plan.blobs.map fun count => count * (count + 1)).sum ≤ (plan.blobs.map fun count => count * (e + 1)).sum :=
      List.sum_le_sum fun count hcount => Nat.mul_le_mul_left count (Nat.succ_le_succ (h count hcount))
    rw [List.sum_map_mul_right, List.map_id', plan.sum_blobs] at hlong
    rw [BlobPlan.estimatedSliceUnits, BlobPlan.blobCount, sum_sliceUnits_add plan.blobs_pos]
    exact Nat.mul_le_mul_left N hlong

/-- The deployed plan, and that of blobs twice as large. -/
theorem BlobPlan.ofElems_extremal_double :
    (ofElems .SHA2_128S 8 (by decide)).blobCount ≤ (forParams .SHA2_128S).blobCount ∧
      (forParams .SHA2_128S).estimatedSliceUnits ≤ (ofElems .SHA2_128S 8 (by decide)).estimatedSliceUnits ∧
      (forParams .SHA2_128S).estimatedSliceUnits + 2 * N * (forParams .SHA2_128S).blobCount ≤
        N * (Params.SHA2_128S.sigElements * (8 + 1)) := by
  refine (forParams .SHA2_128S).ofElems_extremal (by decide) fun count hcount => ?_
  have hblobs : (forParams .SHA2_128S).blobs = cutInto 4 Params.SHA2_128S.sigElements := rfl
  rw [hblobs, cutInto_eq (by decide), List.mem_append, List.mem_replicate] at hcount
  rcases hcount with ⟨-, rfl⟩ | hrest
  · decide
  · split at hrest
    · exact absurd hrest List.not_mem_nil
    · have hlt := Nat.mod_lt Params.SHA2_128S.sigElements (show 0 < 4 by decide)
      rw [List.mem_singleton.mp hrest]
      exact le_trans hlt.le (by decide)

/-! ### What is charged -/

/-- What an instruction is charged, by the stacks behind it: the bytes of a copy or a cut. The pushes of the two ends of
a cut are not in the estimate. -/
def charge : Instr → Stacks → ℕ
  | .op .OpDup, ⟨x :: _, _⟩ => x.length
  | .op .OpSubstr, ⟨x :: _, _⟩ => x.length
  | _, _ => 0

/-- What a list of plain instructions is charged, as far as it runs. -/
def meter (env : Env) : List Instr → Stacks → ℕ
  | [], _ => 0
  | i :: is, s =>
    match i.exec env s with
    | some s' => charge i s' + meter env is s'
    | none => 0

variable {env : Env}

theorem meter_cons {i : Instr} {is : List Instr} {s s' : Stacks} (h : i.exec env s = some s') :
    meter env (i :: is) s = charge i s' + meter env is s' := by rw [meter, h]

theorem meter_append {is js : List Instr} {s s' : Stacks} (h : execAll env is s = some s') :
    meter env (is ++ js) s = meter env is s + meter env js s' := by
  induction is generalizing s with
  | nil =>
    obtain rfl := Option.some.inj h
    rw [List.nil_append, meter, Nat.zero_add]
  | cons i is ih =>
    rw [execAll_cons] at h
    obtain ⟨s₁, hi, his⟩ := Option.bind_eq_some_iff.mp h
    rw [List.cons_append, meter_cons hi, meter_cons hi, ih his, Nat.add_assoc]

/-- A move is free. -/
theorem meter_fromAlt (s : Stacks) : meter env [.op .OpFromAltStack] s = 0 := by
  rw [meter]
  split
  · rfl
  · rfl

/-- **One element is cut off** a blob of `k + 1`: the blob is copied, and the copy and the blob are cut, so that twice
the blob is charged. -/
theorem meter_peelCode {k : ℕ} (hk : (k + 1) * N < 2 ^ 63) {blob : Bytes} (hblob : blob.length = (k + 1) * N)
    (d alt : List Bytes) :
    execAll env (peelCode k) ⟨blob :: d, alt⟩ =
        some ⟨slice blob 0 (k * N) :: d, slice blob (k * N) ((k + 1) * N) :: alt⟩ ∧
      meter env (peelCode k) ⟨blob :: d, alt⟩ = 2 * (N * (k + 1)) := by
  have hsub : (k + 1) * N - N = k * N := by rw [Nat.succ_mul, Nat.add_sub_cancel]
  have hle : k * N ≤ (k + 1) * N := Nat.mul_le_mul_right N (Nat.le_succ k)
  have hlast : Instr.exec env (.op .OpSubstr)
      ⟨encodeNum (((k + 1) * N : ℕ) : ℤ) :: encodeNum ((k * N : ℕ) : ℤ) :: blob :: blob :: d, alt⟩ =
        some ⟨slice blob (k * N) ((k + 1) * N) :: blob :: d, alt⟩ :=
    @exec_substr env _ _ _ _ _ hle hblob.ge hk
  have hrest : Instr.exec env (.op .OpSubstr)
      ⟨encodeNum ((k * N : ℕ) : ℤ) :: encodeNum ((0 : ℕ) : ℤ) :: blob :: d, slice blob (k * N) ((k + 1) * N) :: alt⟩ =
        some ⟨slice blob 0 (k * N) :: d, slice blob (k * N) ((k + 1) * N) :: alt⟩ :=
    @exec_substr env _ _ _ _ _ (Nat.zero_le _) (hblob ▸ hle) (lt_of_le_of_lt hle hk)
  simp only [peelCode, hsub]
  constructor
  · simp only [execAll_cons, execAll_nil]
    change (Instr.exec env (.op .OpSubstr) _).bind _ = _
    rw [hlast, Option.bind_some]
    change (Instr.exec env (.op .OpSubstr) _).bind _ = _
    rw [hrest]
    rfl
  · rw [meter_cons rfl, meter_cons rfl, meter_cons rfl, meter_cons hlast, meter_cons rfl, meter_cons rfl, meter_cons rfl,
      meter_cons hrest]
    simp only [charge, meter, length_slice, hblob, N]
    omega

/-- The loop that cuts the elements off. -/
theorem meter_peels {count : ℕ} (hcount : count * N < 2 ^ 63) {blob : Bytes} (hblob : blob.length = count * N)
    (d alt : List Bytes) {n : ℕ} (hn : n ≤ count - 1) : ∃ cut,
      execAll env ((List.range n).flatMap fun i => peelCode (count - 1 - i)) ⟨blob :: d, alt⟩ =
        some ⟨blob.take ((count - n) * N) :: d, cut⟩ ∧
      meter env ((List.range n).flatMap fun i => peelCode (count - 1 - i)) ⟨blob :: d, alt⟩ =
        ((List.range n).map fun i => 2 * (N * (count - i))).sum := by
  induction n with
  | zero =>
    refine ⟨alt, ?_, rfl⟩
    rw [Nat.sub_zero, List.take_of_length_le hblob.le]
    rfl
  | succ n ih =>
    obtain ⟨cut, hexec, hmeter⟩ := ih (by omega)
    have hleft : count - 1 - n + 1 = count - n := by omega
    have hle : (count - n) * N ≤ count * N := Nat.mul_le_mul_right N (Nat.sub_le _ _)
    have hrest : (blob.take ((count - n) * N)).length = (count - 1 - n + 1) * N := by
      rw [List.length_take, hblob, Nat.min_eq_left hle, hleft]
    obtain ⟨hpeel, hcharge⟩ := @meter_peelCode env _ (by rw [hleft]; omega) _ hrest d cut
    refine ⟨slice (blob.take ((count - n) * N)) ((count - 1 - n) * N) ((count - 1 - n + 1) * N) :: cut, ?_, ?_⟩
    · rw [List.range_succ, List.flatMap_append, List.flatMap_singleton, execAll_append, hexec, Option.bind_some, hpeel,
        slice_zero, List.take_take, Nat.min_eq_left (Nat.mul_le_mul_right N (by omega)),
        show count - 1 - n = count - (n + 1) by omega]
    · rw [List.range_succ, List.flatMap_append, List.flatMap_singleton, meter_append hexec, hmeter, hcharge, hleft,
        List.map_append, List.sum_append, List.map_singleton, List.sum_singleton]

/-- **Cutting a blob** is charged as estimated. -/
theorem meter_sliceBlobCode {count : ℕ} (hcount : count * N < 2 ^ 63) {blob : Bytes} (hblob : blob.length = count * N)
    (d alt : List Bytes) (rest : List Instr) (hrest : ∀ s, meter env rest s = 0) :
    meter env (sliceBlobCode count ++ rest) ⟨d, blob :: alt⟩ = sliceUnits count := by
  obtain ⟨cut, hexec, hmeter⟩ := @meter_peels env _ hcount _ hblob d alt _ (le_refl (count - 1))
  have hestimate : ((List.range (count - 1)).map fun i => 2 * (N * (count - i))).sum = sliceUnits count := by
    rw [sliceUnits, List.range'_eq_map_range, List.map_map]
    refine congrArg List.sum (List.map_congr_left fun i hi => ?_)
    have hi := List.mem_range.mp hi
    simp only [Function.comp_apply]
    rw [show count - (1 + i) + 1 = count - i by omega]
  have hmove {x : Bytes} {d alt : List Bytes} :
      Instr.exec env (.op .OpToAltStack) ⟨x :: d, alt⟩ = some ⟨d, x :: alt⟩ := rfl
  rw [sliceBlobCode, List.append_assoc, List.append_assoc, List.singleton_append, meter_cons rfl, meter_append hexec,
    hmeter, hestimate, List.singleton_append, meter_cons hmove, hrest]
  simp [charge]

/-! ### What fetching all elements is charged -/

/-- The blobs of a signature have just the bytes of their elements. -/
theorem length_of_mem_blobsOf {sig : Bytes} {blobs : List ℕ} {offset : ℕ} (h : offset + blobs.sum * N ≤ sig.length) :
    ∀ q ∈ blobs.zip (blobsOf sig blobs offset), q.2.length = q.1 * N := by
  induction blobs generalizing offset with
  | nil => exact fun _ hq => absurd hq List.not_mem_nil
  | cons count blobs ih =>
    rw [List.sum_cons, Nat.add_mul] at h
    rw [blobsOf, List.zip_cons_cons, List.forall_mem_cons]
    refine ⟨?_, ih (by omega)⟩
    rw [length_slice, Nat.min_eq_left (by omega), Nat.add_sub_cancel_left]

/-- A sum over all elements, of what is paid at the first one of each blob. -/
theorem sum_range_total {f : ℕ → ℕ} {price : ℕ → ℕ} {ps : Pieces} (hpos : ∀ q ∈ ps, 0 < q.1)
    (h : ∀ pre count blob post r, ps = pre ++ (count, blob) :: post → r < count →
      f (Pieces.total pre + r) = if r = 0 then price count else 0) :
    ((List.range (Pieces.total ps)).map f).sum = (ps.map fun q => price q.1).sum := by
  induction ps generalizing f with
  | nil => rfl
  | cons piece ps ih =>
    obtain ⟨count, blob⟩ := piece
    obtain ⟨hcount, hps⟩ := List.forall_mem_cons.mp hpos
    have hfirst : ((List.range count).map f).sum = price count := by
      have hblob : ∀ r < count, f r = if r = 0 then price count else 0 := by
        intro r hr
        have hr' := h [] count blob ps r rfl hr
        rwa [Pieces.total, List.map_nil, List.sum_nil, Nat.zero_add] at hr'
      obtain ⟨k, rfl⟩ := Nat.exists_eq_succ_of_ne_zero hcount.ne'
      have hothers : ((List.range k).map fun r => f (r + 1)).sum = 0 := by
        refine List.sum_eq_zero fun x hx => ?_
        obtain ⟨r, hr, rfl⟩ := List.mem_map.mp hx
        rw [hblob (r + 1) (Nat.succ_lt_succ (List.mem_range.mp hr)), if_neg r.succ_ne_zero]
      rw [List.range_succ_eq_map, List.map_cons, List.sum_cons, List.map_map, hblob 0 k.succ_pos, if_pos rfl]
      exact congrArg (price (k + 1) + ·) hothers
    have hrest : ((List.range (Pieces.total ps)).map fun i => f (count + i)).sum = (ps.map fun q => price q.1).sum := by
      refine ih hps fun pre count' blob' post r hsplit hr => ?_
      have hr' := h ((count, blob) :: pre) count' blob' post r (by rw [hsplit]; rfl) hr
      rwa [total_cons, Nat.add_assoc] at hr'
    rw [total_cons, List.range_add, List.map_append, List.sum_append, List.map_map, hfirst, List.map_cons, List.sum_cons]
    exact congrArg (price count + ·) hrest

section

variable {plan : BlobPlan} {sig : Bytes}

/-- The code of a fetch. -/
def codeAt (plan : BlobPlan) (sig : Bytes) (i : ℕ) : List Instr :=
  ((fetchCode plan i (pendingAt (piecesOf plan sig) i)).map Prod.snd).getD []

/-- The first fetch from a blob is charged for the blob, and the others are free. -/
theorem meter_codeAt (hp : Emittable plan.p) (hsig : sig.length = plan.p.sigLen) (env : Env) (d : List Bytes)
    {pre post : Pieces} {count : ℕ} {blob : Bytes} {r : ℕ} (hsplit : piecesOf plan sig = pre ++ (count, blob) :: post)
    (hr : r < count) :
    meter env (codeAt plan sig (Pieces.total pre + r)) ⟨d, altAt (piecesOf plan sig) (Pieces.total pre + r)⟩ =
      if r = 0 then sliceUnits count else 0 := by
  have hpos := (delivers_room hp hsig env []).pos_of_mem
  have hblobs : plan.blobs = (pre ++ (count, blob) :: post).map Prod.fst := by rw [← hsplit, map_fst_piecesOf]
  have hpiece : (count, blob) ∈ piecesOf plan sig := by
    rw [hsplit]
    exact List.mem_append_right _ List.mem_cons_self
  have hpre : ∀ q ∈ pre, 0 < q.1 := fun q hq => hpos q (by rw [hsplit]; exact List.mem_append_left _ hq)
  have hlength : blob.length = count * N :=
    length_of_mem_blobsOf (by rw [plan.sum_blobs, hsig, hp.toFacts.sigLen_eq, Nat.zero_add]) _ hpiece
  have hcount : count * N < 2 ^ 63 := by
    have hin : count ∈ plan.blobs := map_fst_piecesOf plan sig ▸ List.mem_map_of_mem hpiece
    have hle : count ≤ plan.p.sigElements := plan.sum_blobs ▸ List.le_sum_of_mem hin
    exact lt_of_le_of_lt (Nat.mul_le_mul_right N hle) hp.elements_lt
  rw [codeAt, hsplit, pendingAt_skip hpre, altAt_skip hpre, fetchCode]
  by_cases hr0 : r = 0
  · subst hr0
    rw [pendingAt_zero, if_pos rfl, locate_within hblobs hr, altAt_zero, if_pos rfl]
    simp only [Option.map_some, Option.getD_some, getD_within hblobs]
    exact meter_sliceBlobCode hcount hlength _ _ _ meter_fromAlt
  · rw [pendingAt_within (Nat.pos_of_ne_zero hr0) hr.le, if_neg (by omega), if_neg hr0]
    exact meter_fromAlt _

end

/-- **The estimate is exact**: for every set, every plan, every string of a signature's length and whatever the frames
and the data stacks are that the elements are fetched to, what the code of the fetches is charged in copies and cuts is
what was estimated. -/
theorem estimatedSliceUnits_exact {plan : BlobPlan} (hmem : plan.p ∈ Params.ALL) {sig : Bytes}
    (hsig : sig.length = plan.p.sigLen) (env : Env) :
    (∀ i < plan.p.sigElements, ∀ (f : Frame Slot) (peak : ℕ) (name : Slot), ∃ peak',
      Emitter.fetch plan name ⟨f, i, pendingAt (piecesOf plan sig) i, peak⟩ =
        .ok ((), ⟨name :: f, i + 1, pendingAt (piecesOf plan sig) (i + 1), peak'⟩, codeAt plan sig i)) ∧
    ∀ d : ℕ → List Bytes, ((List.range plan.p.sigElements).map fun i =>
      meter env (codeAt plan sig i) ⟨d i, altAt (piecesOf plan sig) i⟩).sum = plan.estimatedSliceUnits := by
  have hp := emittable plan.p hmem
  have hdelivers := delivers_room hp hsig env []
  constructor
  · intro i hi f peak name
    obtain ⟨is, hcode, -⟩ := fetchCode_run hdelivers (whole_piecesOf hp.toFacts hsig) (by simp) hi
    have hat : codeAt plan sig i = is := by rw [codeAt, hcode, Option.map_some, Option.getD_some]
    rw [hat]
    exact fetch_apply f i _ peak plan name hcode
  · intro d
    rw [← hdelivers.total_eq, BlobPlan.estimatedSliceUnits, ← map_fst_piecesOf plan sig, List.map_map]
    exact sum_range_total hdelivers.pos_of_mem fun pre count blob post r hsplit hr => meter_codeAt hp hsig env _ hsplit hr

/-- The zero string in the deployed blobs. -/
theorem estimatedSliceUnits_exact_zeros :
    ((List.range Params.SHA2_128S.sigElements).map fun i =>
      meter ⟨fun _ => Block.zero 32, none⟩ (codeAt (.forParams .SHA2_128S) (zeros Params.SHA2_128S.sigLen) i)
        ⟨[], altAt (piecesOf (.forParams .SHA2_128S) (zeros Params.SHA2_128S.sigLen)) i⟩).sum =
      (BlobPlan.forParams .SHA2_128S).estimatedSliceUnits :=
  (@estimatedSliceUnits_exact (.forParams .SHA2_128S) (by decide) _ (length_zeros _) ⟨fun _ => Block.zero 32, none⟩).2
    fun _ => []

end KaspaPqv.SlhScript
