import KaspaPqv.Script.Below
import KaspaPqv.SlhScript.Correct

/-!
# Witnesses of any shape

Whoever spends may put any items below the script. It counts them by taking them, and cutting
a blob asks for its length, so a run that ends well tells that there was one blob for each of
the plan's, and that those that are cut were long enough. What is too long is cut off. But a
blob of one element is not cut, and nothing asks how long it is. The last blob of one of the
deployed plans is such a blob.

## What is proved

* `shape_of_execute` — what a run that leaves one item tells of the items it began with.
* `verifyScript_sound` — and of the string its blobs spell, if that item is true.
* `not_verifyScript_sound` — a blob that is not cut may have any length.
-/

namespace KaspaPqv.SlhScript

open KaspaPqv.Lib KaspaPqv.Script

variable {plan : BlobPlan} {pk : PublicKey} {env : Env} {g : EmitState Slot} {is : List Instr}

/-- Items as the blobs of a plan. -/
theorem exists_pieces (plan : BlobPlan) {d : List Bytes} (hd : d.length = plan.blobCount) :
    ∃ ps : Pieces, plan.blobs = ps.map Prod.fst ∧ (ps.map Prod.snd).reverse = d := by
  refine ⟨plan.blobs.zip d.reverse, ?_, ?_⟩
  · rw [List.map_fst_zip (by rw [List.length_reverse, hd, BlobPlan.blobCount])]
  · rw [List.map_snd_zip (by rw [List.length_reverse, hd, BlobPlan.blobCount]), List.reverse_reverse]

/-- With enough items, all but the blobs and the message are left. -/
theorem length_execute (hp : Emittable plan.p) (hgen : Emitter.emitBody plan pk messageState = .ok ((), g, is))
    {items items' : List Bytes} (hlen : plan.blobCount < items.length)
    (hexec : execute env (prologueCode plan.blobCount ++ is) items = some items') :
    items'.length + plan.blobCount = items.length := by
  obtain ⟨ps, hblobs, hps⟩ := exists_pieces plan (d := items.take plan.blobCount) (by simp; omega)
  obtain ⟨message, rest, hrest⟩ : ∃ message rest, items.drop plan.blobCount = message :: rest :=
    List.exists_cons_of_length_pos (by simp; omega)
  have hitems : items = (ps.map Prod.snd).reverse ++ message :: rest := by
    rw [hps, ← hrest, List.take_append_drop]
  have hdelivers := delivers_settingOf env hp hblobs rest
  have hcount : plan.blobs.length = ps.length := by rw [hblobs, List.length_map]
  rw [hitems] at hexec
  obtain ⟨hshape, -⟩ := execute_shape hdelivers hp hgen (by simp only [settingOf]; omega) hexec
  have hlen' : items.length = plan.blobCount + (rest.length + 1) := by
    rw [← List.take_append_drop plan.blobCount items, hrest, List.length_append, List.length_take,
      Nat.min_eq_left hlen.le, List.length_cons]
  rw [hshape, hlen']
  simp only [settingOf]
  omega

/-- In a witness that does not abort the script, all blobs can be cut, if none but the last is
not cut. -/
theorem cuttable_of_not_deadAt {ps : Pieces} (hpos : ∀ p ∈ ps, 0 < p.1) (hone : ∀ p ∈ ps.dropLast, p.1 ≠ 1)
    (h : ¬deadAt ps (Pieces.total ps)) : ∀ p ∈ ps, Cuttable p.1 p.2 := by
  induction ps with
  | nil => exact fun _ hp => absurd hp List.not_mem_nil
  | cons piece ps ih =>
    obtain ⟨count, blob⟩ := piece
    obtain ⟨hcount, hpos⟩ := List.forall_mem_cons.mp hpos
    simp only at hcount
    rw [total_cons, deadAt, Nat.add_sub_cancel_left] at h
    have hcut : Cuttable count blob := by_contra fun hn => h ⟨by omega, .inl hn⟩
    refine List.forall_mem_cons.mpr ⟨hcut, ?_⟩
    cases ps with
    | nil => exact fun _ hp => absurd hp List.not_mem_nil
    | cons next ps =>
      rw [List.dropLast_cons_cons, List.forall_mem_cons] at hone
      have hwhole : Whole count blob := by
        rw [Whole, if_neg hone.1]
        exact hcut.resolve_left hone.1
      exact ih hpos hone.2 fun hdead => h ⟨by omega, .inr ⟨hwhole, hdead⟩⟩

/-- **A run that leaves one item** began with a message and one blob for each of the plan's,
long enough if it is cut. -/
theorem shape_of_execute (hp : Emittable plan.p) (hgen : Emitter.emitBody plan pk messageState = .ok ((), g, is))
    (hone : ∀ count ∈ plan.blobs.dropLast, count ≠ 1) {items : List Bytes} {item : Bytes}
    (hexec : execute env (prologueCode plan.blobCount ++ is) items = some [item]) :
    ∃ (ps : Pieces) (message : Bytes), plan.blobs = ps.map Prod.fst ∧ items = (ps.map Prod.snd).reverse ++ [message] ∧
      ∀ p ∈ ps, Cuttable p.1 p.2 := by
  have hlen : items.length = plan.blobCount + 1 := by
    rcases Nat.lt_or_ge plan.blobCount items.length with hlt | hge
    · have hleft := length_execute hp hgen hlt hexec
      rw [List.length_singleton] at hleft
      omega
    · -- with as many items below as it takes, the run leaves more than one
      have hbelow := execute_below hexec (List.replicate (plan.blobCount + 1 - items.length) [])
      have hleft := length_execute hp hgen (by simp; omega) hbelow
      simp only [List.length_append, List.length_singleton, List.length_replicate] at hleft
      omega
  obtain ⟨ps, hblobs, hps⟩ := exists_pieces plan (d := items.take plan.blobCount) (by simp; omega)
  obtain ⟨message, hmessage⟩ := List.length_eq_one_iff.mp (show (items.drop plan.blobCount).length = 1 by simp; omega)
  have hitems : items = (ps.map Prod.snd).reverse ++ [message] := by rw [hps, ← hmessage, List.take_append_drop]
  have hdelivers := delivers_settingOf env hp hblobs []
  have hcount : plan.blobs.length = ps.length := by rw [hblobs, List.length_map]
  rw [hitems] at hexec
  obtain ⟨-, halive⟩ := execute_shape hdelivers hp hgen (by simp only [settingOf]; omega) hexec
  refine ⟨ps, message, hblobs, hitems, cuttable_of_not_deadAt hdelivers.pos_of_mem (fun p hmem => ?_) ?_⟩
  · refine hone p.1 ?_
    rw [hblobs, ← List.map_dropLast]
    exact List.mem_map_of_mem hmem
  · rwa [hdelivers.total_eq]

/-- **What the string of the blobs is** if the script accepts and all elements are hash values. -/
theorem verify_of_execute (hp : Emittable plan.p) (hgen : Emitter.emitBody plan pk messageState = .ok ((), g, is))
    {ps : Pieces} (hblobs : plan.blobs = ps.map Prod.fst) (hwhole : ∀ p ∈ ps, Whole p.1 p.2) {message item : Bytes}
    (hexec : execute env (prologueCode plan.blobCount ++ is) ((ps.map Prod.snd).reverse ++ [message]) = some [item])
    (htrue : isTrue item) :
    ∃ s, Signature.fromBytes plan.p ps.joined = some (.ok s) ∧ verify env.sha256 pk s message = some true := by
  have hdelivers := delivers_settingOf env hp hblobs []
  have hcount : plan.blobs.length = ps.length := by rw [hblobs, List.length_map]
  have hrun := execute_whole hdelivers hp hgen (by simp only [settingOf]; omega) hwhole message
  have hitem := hexec.symm.trans hrun
  obtain ⟨rfl, -⟩ := List.cons.inj (Option.some.inj hitem)
  have hsig : (Pieces.joined ps).length = plan.p.sigLen := by
    rw [length_joined hwhole, hdelivers.total_eq, hp.toFacts.sigLen_eq]
  have hparse := fromBytes_eq hp.toFacts hsig
  obtain ⟨-, hparts⟩ := has_of_fromBytes hp.toFacts hsig hparse
  refine ⟨_, hparse, ?_⟩
  have hroot := isTrue_decide.mp htrue
  rw [verify_eq env.sha256 (by exact hp.toFacts) hparts]
  exact congrArg some (decide_eq_true hroot)

/-! ### The deployed plans -/

theorem eq_of_mem_dropLast_cutInto {elems left : ℕ} (he : 0 < elems) :
    ∀ count ∈ (cutInto elems left).dropLast, count = elems := by
  intro count hmem
  rw [cutInto_eq he] at hmem
  split_ifs at hmem
  · rw [List.append_nil] at hmem
    exact List.eq_of_mem_replicate (List.dropLast_subset _ hmem)
  · rw [List.dropLast_concat] at hmem
    exact List.eq_of_mem_replicate hmem

/-- Of the deployed plans, only one has a blob that is not cut. -/
theorem ne_one_of_mem_forParams {p : Params} (hp : p ∈ Params.ALL) (hne : p ≠ .SHA2_128_24) :
    ∀ count ∈ (BlobPlan.forParams p).blobs, count ≠ 1 := by
  have hmod : p.sigElements % BLOB_ELEMS ≠ 1 :=
    (by decide : ∀ p ∈ Params.ALL, p ≠ .SHA2_128_24 → p.sigElements % BLOB_ELEMS ≠ 1) p hp hne
  intro count hmem
  have hsplit : (BlobPlan.forParams p).blobs = _ := cutInto_eq (by decide) p.sigElements
  rw [hsplit, List.mem_append] at hmem
  rcases hmem with hmem | hmem
  · rw [List.eq_of_mem_replicate hmem]
    decide
  · split_ifs at hmem
    · exact absurd hmem List.not_mem_nil
    · rwa [List.mem_singleton.mp hmem]

/-- **The script is sound on any witness**, if the one blob that is not cut is a hash value. -/
theorem verifyScript_sound {p : Params} (hp : p ∈ Params.ALL) (pk : PublicKey) (sha256 : Bytes → Block 32)
    (tx : Option TxContext) {v : VaultScript} (hv : buildVerifyScript pk (BlobPlan.forParams p) = .ok v)
    {items : List Bytes} {item : Bytes} (hexec : execute ⟨sha256, tx⟩ v.script items = some [item])
    (htrue : isTrue item) :
    ∃ (ps : Pieces) (message : Bytes),
      ps.map Prod.fst = (BlobPlan.forParams p).blobs ∧ items = (ps.map Prod.snd).reverse ++ [message] ∧
      (∀ q ∈ ps, q.1 ≠ 1 → q.1 * N ≤ q.2.length) ∧
      ((p = .SHA2_128_24 → ∀ q ∈ ps.getLast?, q.2.length = N) →
        ∃ s, Signature.fromBytes p ps.joined = some (.ok s) ∧ verify sha256 pk s message = some true) := by
  have hemit := emittable p hp
  obtain ⟨g, is, hgen, -⟩ := exists_body (BlobPlan.forParams p) pk hemit
  obtain rfl := Except.ok.inj ((buildVerifyScript_eq hgen).symm.trans hv)
  have hone : ∀ count ∈ (BlobPlan.forParams p).blobs.dropLast, count ≠ 1 := fun count hmem => by
    rw [eq_of_mem_dropLast_cutInto (by decide) count hmem]
    decide
  obtain ⟨ps, message, hblobs, rfl, hcut⟩ := shape_of_execute hemit hgen hone hexec
  refine ⟨ps, message, hblobs.symm, rfl, fun q hmem hne => (hcut q hmem).resolve_left hne, fun hlast => ?_⟩
  refine verify_of_execute hemit hgen hblobs (fun q hmem => ?_) hexec htrue
  unfold Whole
  split_ifs with h1
  · -- a blob of one element is the last one of the one plan that has such a blob
    have hset : p = .SHA2_128_24 := by_contra fun hne =>
      ne_one_of_mem_forParams hp hne q.1 (hblobs ▸ List.mem_map_of_mem hmem) h1
    refine hlast hset q ?_
    rcases List.eq_nil_or_concat ps with rfl | ⟨init, last, rfl⟩
    · exact absurd hmem List.not_mem_nil
    · rw [List.concat_eq_append] at hmem hblobs ⊢
      rcases List.mem_append.mp hmem with hinit | hq
      · rw [hblobs, List.map_append, List.map_singleton, List.dropLast_concat] at hone
        exact absurd h1 (hone q.1 (List.mem_map_of_mem hinit))
      · rw [List.mem_singleton.mp hq]
        exact List.getLast?_concat
  · exact (hcut q hmem).resolve_left h1

/-- The blobs of a witness of zeros, but for the last one. -/
def zeroPieces (blob : Bytes) : Pieces := List.replicate 60 (4, zeros (4 * N)) ++ [(1, blob)]

theorem whole_zeros : ∀ p ∈ List.replicate 60 (4, zeros (4 * N)), Whole p.1 p.2 := by
  intro p hmem
  rw [List.eq_of_mem_replicate hmem]
  exact (if_neg (by decide)).mpr (length_zeros _).ge

theorem zeroPieces_blobs (blob : Bytes) : (BlobPlan.forParams .SHA2_128_24).blobs = (zeroPieces blob).map Prod.fst := by
  have hsplit : (BlobPlan.forParams .SHA2_128_24).blobs = _ := cutInto_eq (by decide) Params.SHA2_128_24.sigElements
  rw [hsplit, zeroPieces, List.map_append, List.map_replicate]
  rfl

/-- A key whose root is the one value of a hash function. -/
def zeroKey : PublicKey := ⟨Block.zero N, truncN (Block.zero 32)⟩

/-- Under a hash function whose only value is the root, the script takes any last blob. -/
theorem execute_zeroPieces (blob message : Bytes) :
    ∃ v, buildVerifyScript zeroKey (BlobPlan.forParams .SHA2_128_24) = .ok v ∧
      execute ⟨fun _ => Block.zero 32, none⟩ v.script (((zeroPieces blob).map Prod.snd).reverse ++ [message]) =
        some [boolBytes true] := by
  have hemit := emittable .SHA2_128_24 (by decide)
  obtain ⟨g, is, hgen, -⟩ := exists_body (BlobPlan.forParams .SHA2_128_24) zeroKey hemit
  have hblobs := zeroPieces_blobs blob
  have hdelivers := delivers_settingOf ⟨fun _ => Block.zero 32, none⟩ hemit hblobs []
  have hcount : (BlobPlan.forParams .SHA2_128_24).blobs.length = 61 := by
    rw [hblobs, List.length_map, zeroPieces, List.length_append, List.length_replicate, List.length_singleton]
  obtain ⟨y, hexec⟩ := execute_uncut hdelivers hemit hgen
    (by rw [List.length_replicate]; simp only [settingOf, hcount]; omega) whole_zeros message
  exact ⟨_, buildVerifyScript_eq hgen,
    hexec.trans (congrArg (fun b => some [boolBytes b]) (decide_eq_true rfl))⟩

/-- A run on zeros. -/
theorem verifyScript_sound_zeros :
    ∃ v, buildVerifyScript zeroKey (BlobPlan.forParams .SHA2_128_24) = .ok v ∧
      ∃ (ps : Pieces) (message : Bytes),
        ps.map Prod.fst = (BlobPlan.forParams .SHA2_128_24).blobs ∧
        ((zeroPieces (zeros N)).map Prod.snd).reverse ++ [zeros 32] = (ps.map Prod.snd).reverse ++ [message] ∧
        (∀ q ∈ ps, q.1 ≠ 1 → q.1 * N ≤ q.2.length) ∧
        ((Params.SHA2_128_24 = .SHA2_128_24 → ∀ q ∈ ps.getLast?, q.2.length = N) →
          ∃ s, Signature.fromBytes .SHA2_128_24 ps.joined = some (.ok s) ∧
            verify (fun _ => Block.zero 32) zeroKey s message = some true) := by
  obtain ⟨v, hv, hexec⟩ := execute_zeroPieces (zeros N) (zeros 32)
  exact ⟨v, hv, verifyScript_sound (by decide) zeroKey (fun _ => Block.zero 32) none hv hexec (isTrue_boolBytes true)⟩

/-- **A blob that is not cut may have any length**: the script accepts a witness whose last
blob is empty, and its blobs do not spell a signature. -/
theorem not_verifyScript_sound :
    ¬∀ (pk : PublicKey) (sha256 : Bytes → Block 32) (v : VaultScript) (items : List Bytes) (item : Bytes),
      buildVerifyScript pk (BlobPlan.forParams .SHA2_128_24) = .ok v →
      execute ⟨sha256, none⟩ v.script items = some [item] → isTrue item →
      ∃ (ps : Pieces) (message : Bytes),
        ps.map Prod.fst = (BlobPlan.forParams .SHA2_128_24).blobs ∧ items = (ps.map Prod.snd).reverse ++ [message] ∧
        ∃ s, Signature.fromBytes .SHA2_128_24 ps.joined = some (.ok s) ∧ verify sha256 pk s message = some true := by
  intro h
  obtain ⟨v, hv, hexec⟩ := execute_zeroPieces [] (zeros 32)
  obtain ⟨ps, message, hblobs, hitems, s, hparse, -⟩ := h _ _ v _ _ hv hexec (isTrue_boolBytes true)
  have hrev := List.reverse_injective (List.append_inj' hitems rfl).1
  have hps : zeroPieces [] = ps :=
    (List.zip_of_prod (zeroPieces_blobs []).symm hrev).trans (List.zip_of_prod hblobs rfl).symm
  have hlen : (Pieces.joined (zeroPieces [])).length ≠ Params.SHA2_128_24.sigLen := by
    have hempty : Pieces.joined [(1, [])] = [] := rfl
    rw [zeroPieces, Pieces.joined_append, hempty, List.append_nil, length_joined whole_zeros, Pieces.total,
      List.map_replicate, List.sum_replicate]
    decide
  rw [← hps, fromBytes_error hlen] at hparse
  cases hparse

end KaspaPqv.SlhScript
