import KaspaPqv.SlhScript.Digits
import KaspaPqv.SlhScript.Adrs
import KaspaPqv.SlhScript.Simulation
import Mathlib.Data.List.InsertIdx

/-!
# Rules for the emitter's primitives

What each primitive does to the slots, on slots of the expected shape. The values are byte
strings; a number is its encoding.

## What is proved

* `Emits.pick`, `Emits.roll` — a named slot is copied, or moved, to the top.
* `Emits.cat`, `Emits.substr`, … — one rule for each primitive.
* `Emits.emitBeBytes` — a number laid out on big-endian bytes.
* `Emits.emitBeIntFrom`, `Emits.emitDigitOf` — the fields of a slot.
-/

namespace KaspaPqv.SlhScript.Emits

open KaspaPqv.Lib KaspaPqv.Script

variable {ν : Type} [SlotName ν] {S : Setting} {vs : List (ν × Bytes)} {q : Queue}
  {s s₁ s₂ s₃ name : ν} {x y z : Bytes}

/-- A transient value on top of the others. -/
abbrev tmp {ν : Type} [SlotName ν] (x : Bytes) : ν × Bytes := (SlotName.transient, x)

omit [SlotName ν] in
/-- An opcode together with its change of the frame. -/
theorem opThen {code : Opcode} {k : Emitter.Emit ν Unit} {noted : Bool} {vs' : List (ν × Bytes)}
    (hk : Reframes k (vs.map Prod.fst) (vs'.map Prod.fst) noted)
    (hexec : code.exec S.env ⟨vs.map Prod.snd ++ S.rest, q.alt⟩ = some ⟨vs'.map Prod.snd ++ S.rest, q.alt⟩)
    (hgrow : noted = false → vs'.length ≤ vs.length) :
    Emits S (Emitter.op code >>= fun _ => k) ⟨vs, q⟩ ⟨vs', q⟩ :=
  instr (plain_of_exec hexec) hk hexec hgrow

/-! ### Pushes -/

theorem data (bytes : Bytes) : Emits S (Emitter.data bytes : Emitter.Emit ν Unit) ⟨vs, q⟩ ⟨tmp bytes :: vs, q⟩ :=
  instr (i := .push bytes) ⟨nofun, nofun⟩ (.pushSlot _) rfl nofun

theorem num (value : ℤ) :
    Emits S (Emitter.num value : Emitter.Emit ν Unit) ⟨vs, q⟩ ⟨tmp (encodeNum value) :: vs, q⟩ :=
  instr (i := .push (encodeNum value)) ⟨nofun, nofun⟩ (.pushSlot _) rfl nofun

/-! ### Stack manipulation -/

theorem cat : Emits S (Emitter.cat : Emitter.Emit ν Unit) ⟨(s₁, y) :: (s₂, x) :: vs, q⟩ ⟨tmp (x ++ y) :: vs, q⟩ :=
  opThen (.onFrame rfl) rfl fun _ => Nat.le_succ _

theorem sha256 : Emits S (Emitter.sha256 : Emitter.Emit ν Unit) ⟨(s, x) :: vs, q⟩
    ⟨tmp (S.env.sha256 x).bytes :: vs, q⟩ :=
  opThen (.onFrame rfl) rfl fun _ => le_rfl

theorem swap : Emits S (Emitter.swap : Emitter.Emit ν Unit) ⟨(s₁, y) :: (s₂, x) :: vs, q⟩
    ⟨(s₂, x) :: (s₁, y) :: vs, q⟩ :=
  opThen (.onFrame rfl) rfl fun _ => le_rfl

theorem dup : Emits S (Emitter.dup : Emitter.Emit ν Unit) ⟨(s, x) :: vs, q⟩ ⟨tmp x :: (s, x) :: vs, q⟩ :=
  opThen (.pushSlot _) rfl nofun

theorem «over» : Emits S (Emitter.over : Emitter.Emit ν Unit) ⟨(s₁, y) :: (s₂, x) :: vs, q⟩
    ⟨tmp x :: (s₁, y) :: (s₂, x) :: vs, q⟩ :=
  opThen (.pushSlot _) rfl nofun

omit [SlotName ν] in
theorem dropTop : Emits S (Emitter.dropTop : Emitter.Emit ν Unit) ⟨(s, x) :: vs, q⟩ ⟨vs, q⟩ :=
  opThen (.onFrame rfl) rfl fun _ => Nat.le_succ _

omit [SlotName ν] in
theorem nameTop (name : ν) : Emits S (Emitter.nameTop name) ⟨(s, x) :: vs, q⟩ ⟨(name, x) :: vs, q⟩ :=
  reframe (.onFrame rfl) rfl

/-- The slot at a depth is moved to the top. -/
theorem rollDepth {k : ℕ} {v : ν × Bytes} (h : vs[k]? = some v) (hk : k < 2 ^ 63) :
    Emits S (Emitter.rollDepth k) ⟨vs, q⟩ ⟨v :: vs.eraseIdx k, q⟩ := by
  have hlt : k < vs.length := (List.getElem?_eq_some_iff.mp h).1
  have hval : (vs.map Prod.snd ++ S.rest)[k]? = some v.2 := by
    rw [List.getElem?_append_left (by simpa using hlt), List.getElem?_map, h]
    rfl
  have hname : (vs.map Prod.fst)[k]? = some v.1 := by
    rw [List.getElem?_map, h]
    rfl
  refine .seq (.num k) <| opThen (.seq (.onFrame rfl) (.onFrame ?_)) ?_ fun _ => ?_
  · rw [Frame.roll_eq hname, List.eraseIdx_map]
    rfl
  · refine (exec_roll hk hval).trans ?_
    rw [List.eraseIdx_append_of_lt_length (by simpa using hlt), List.eraseIdx_map]
    rfl
  · rw [List.length_cons, List.length_cons, List.length_eraseIdx_of_lt hlt]
    omega

section named

variable [DecidableEq ν]

/-- **A named slot is copied to the top.** -/
theorem pick {k : ℕ} (h : find name vs = some (k, x)) (hk : k < 2 ^ 63) :
    Emits S (Emitter.pick name) ⟨vs, q⟩ ⟨tmp x :: vs, q⟩ := by
  have hget := (find_eq_some h).2
  have hval : (vs.map Prod.snd ++ S.rest)[k]? = some x := by
    rw [List.getElem?_append_left (by simpa using (List.getElem?_eq_some_iff.mp hget).1), List.getElem?_map, hget]
    rfl
  exact depthOf h <| .seq (.num k) <| opThen (.seq (.onFrame rfl) (.pushSlot _)) (exec_pick hk hval) nofun

/-- **A named slot is moved to the top.** -/
theorem roll {k : ℕ} (h : find name vs = some (k, x)) (hk : k < 2 ^ 63) :
    Emits S (Emitter.roll name) ⟨vs, q⟩ ⟨(name, x) :: vs.eraseIdx k, q⟩ :=
  depthOf h (rollDepth (find_eq_some h).2 hk)

theorem discard {k : ℕ} (h : find name vs = some (k, x)) (hk : k < 2 ^ 63) :
    Emits S (Emitter.discard name) ⟨vs, q⟩ ⟨vs.eraseIdx k, q⟩ := .seq (roll h hk) dropTop

end named

/-! ### Strings and numbers -/

theorem substr {i j : ℕ} (hij : i ≤ j) (hj : j ≤ x.length) (hb : j < 2 ^ 63) :
    Emits S (Emitter.substr i j : Emitter.Emit ν Unit) ⟨(s, x) :: vs, q⟩ ⟨tmp (slice x i j) :: vs, q⟩ :=
  .seq (.num i) <| .seq (.num j) <| opThen (.onFrame rfl) (exec_substr hij hj hb) fun _ => by simp

/-- A slice that aborts the script if it does not lie within the string. -/
theorem substr_or {i j : ℕ} (hij : i ≤ j) (hb : j < 2 ^ 63) :
    Emits S (Emitter.substr i j : Emitter.Emit ν Unit) ⟨(s, x) :: vs, q⟩
      ⟨tmp (slice x i j) :: vs, q.demand (j ≤ x.length)⟩ := by
  have hexec (d : List Bytes) (h : j ≤ x.length) : Opcode.exec S.env .OpSubstr
      ⟨encodeNum j :: encodeNum i :: x :: d, q.alt⟩ = some ⟨slice x i j :: d, q.alt⟩ := exec_substr hij h hb
  have habort (d : List Bytes) (h : ¬j ≤ x.length) : Opcode.exec S.env .OpSubstr
      ⟨encodeNum j :: encodeNum i :: x :: d, q.alt⟩ = none := by
    rw [substr_eq, decodeIndex_natCast hb, Option.bind_some, decodeIndex_natCast (hij.trans_lt hb), Option.bind_some,
      if_neg fun hfit => h hfit.2]
  refine .seq (.num i) <| .seq (.num j) <|
    instr_or (i := .op .OpSubstr) (by decide) (.onFrame rfl) (fun h => ⟨h.1, hexec _ h.2⟩)
      (Or.imp_right fun h => ⟨h.1, habort _ h.2⟩) ?_ (Int.add_zero _).symm rfl rfl id fun _ => by decide
  simp only [List.length_cons, Instr.gain, Opcode.gain]
  omega

/-- A slice that lies within the string where the values are known. -/
theorem substr_live {i j : ℕ} (hij : i ≤ j) (hj : q.live → j ≤ x.length) (hb : j < 2 ^ 63) :
    Emits S (Emitter.substr i j : Emitter.Emit ν Unit) ⟨(s, x) :: vs, q⟩ ⟨tmp (slice x i j) :: vs, q⟩ := by
  have h : Emits S (Emitter.substr i j : Emitter.Emit ν Unit) ⟨(s, x) :: vs, q⟩ _ := substr_or hij hb
  rwa [Queue.demand_of hj] at h

theorem binaryNumOp {code : Opcode}
    (h : ∀ d alt, code.exec S.env ⟨y :: x :: d, alt⟩ = some ⟨z :: d, alt⟩) :
    Emits S (Emitter.binaryNumOp code : Emitter.Emit ν Unit) ⟨(s₁, y) :: (s₂, x) :: vs, q⟩ ⟨tmp z :: vs, q⟩ :=
  opThen (.onFrame rfl) (h _ _) fun _ => Nat.le_succ _

section arithmetic

variable {a b : ℕ}

theorem add (h : a + b < 2 ^ 63) : Emits S (Emitter.binaryNumOp .OpAdd : Emitter.Emit ν Unit)
    ⟨(s₁, encodeNum b) :: (s₂, encodeNum a) :: vs, q⟩ ⟨tmp (encodeNum ((a + b : ℕ) : ℤ)) :: vs, q⟩ :=
  binaryNumOp fun _ _ => exec_add h

theorem sub (h : b ≤ a) (ha : a < 2 ^ 63) : Emits S (Emitter.binaryNumOp .OpSub : Emitter.Emit ν Unit)
    ⟨(s₁, encodeNum b) :: (s₂, encodeNum a) :: vs, q⟩ ⟨tmp (encodeNum ((a - b : ℕ) : ℤ)) :: vs, q⟩ :=
  binaryNumOp fun _ _ => exec_sub h ha

theorem lessThanOrEqual (ha : a < 2 ^ 63) (hb : b < 2 ^ 63) :
    Emits S (Emitter.binaryNumOp .OpLessThanOrEqual : Emitter.Emit ν Unit)
      ⟨(s₁, encodeNum b) :: (s₂, encodeNum a) :: vs, q⟩ ⟨tmp (boolBytes (a ≤ b)) :: vs, q⟩ :=
  binaryNumOp fun _ _ => exec_lessThanOrEqual ha hb

theorem divPow {k : ℕ} (ha : a < 2 ^ 63) (hk : k < 63) : Emits S (Emitter.divPow k : Emitter.Emit ν Unit)
    ⟨(s, encodeNum a) :: vs, q⟩ ⟨tmp (encodeNum ((a / 2 ^ k : ℕ) : ℤ)) :: vs, q⟩ := by
  have hpow : 2 ^ k < 2 ^ 63 := Nat.pow_lt_pow_right (by norm_num) hk
  rw [Emitter.divPow, Nat.one_shiftLeft]
  exact .seq (.num _) (binaryNumOp fun _ _ => exec_div ha (Nat.two_pow_pos k) hpow)

/-- A shift that may be none. -/
theorem divPow_onlyIf {k : ℕ} (ha : a < 2 ^ 63) (hk : k < 63) :
    Emits S (Gen.onlyIf (k > 0) (Emitter.divPow k) : Emitter.Emit ν Unit)
      ⟨tmp (encodeNum a) :: vs, q⟩ ⟨tmp (encodeNum ((a / 2 ^ k : ℕ) : ℤ)) :: vs, q⟩ := by
  refine onlyIf (fun _ => divPow ha hk) fun h => ?_
  rw [Nat.eq_zero_of_not_pos h, pow_zero, Nat.div_one]

theorem modulo {m : ℕ} (ha : a < 2 ^ 63) (hm : 0 < m) (hm' : m < 2 ^ 63) :
    Emits S (Emitter.modulo m : Emitter.Emit ν Unit)
      ⟨(s, encodeNum a) :: vs, q⟩ ⟨tmp (encodeNum ((a % m : ℕ) : ℤ)) :: vs, q⟩ :=
  .seq (.num _) (binaryNumOp fun _ _ => exec_mod ha hm hm')

end arithmetic

/-! ### Big-endian bytes -/

/-- One turn of the reversal. -/
theorem reverseByte {le acc : Bytes} {k : ℕ} (hk : k < le.length) (hlen : le.length ≤ 8) :
    Emits S (Emitter.reverseByte k : Emitter.Emit ν Unit) ⟨tmp acc :: (s, le) :: vs, q⟩
      ⟨tmp (acc ++ [le[k]]) :: (s, le) :: vs, q⟩ := by
  rw [← slice_succ hk]
  exact .seq swap <| .seq dup <| .seq (substr (by omega) (by omega) (by omega)) <| .seq (rollDepth rfl (by decide)) <|
    .seq swap cat

/-- The last `i` bytes of a string, turned over. -/
theorem reverse_drop_succ {le : Bytes} {k : ℕ} (hk : k < le.length) :
    (le.drop (k + 1)).reverse ++ [le[k]] = (le.drop k).reverse := by
  rw [List.drop_eq_getElem_cons hk, List.reverse_cons]

/-- **A number on big-endian bytes.** -/
theorem emitBeBytes {w v : ℕ} (hpos : 1 ≤ w) (hw : w ≤ 8) (hv : v < 2 ^ (8 * w - 1)) :
    Emits S (Emitter.emitBeBytes w : Emitter.Emit ν Unit) ⟨(s, encodeNum v) :: vs, q⟩ ⟨tmp (beBytes w v) :: vs, q⟩ := by
  have hlen : (leBytes w v).length = w := length_leBytes w v
  refine .seq (.ensure ⟨hpos, hw⟩) <| .seq (.num w) <| .seq₂ (binaryNumOp fun _ _ => exec_num2Bin hw hv) <|
    onlyIf (fun hne => ?_) fun heq => ?_
  · have hlast : w - 1 < (leBytes w v).length := by omega
    have hslice : slice (leBytes w v) (w - 1) w = ((leBytes w v).drop (w - 1)).reverse := by
      have hsucc := slice_succ hlast
      rw [Nat.sub_add_cancel hpos] at hsucc
      rw [hsucc, ← reverse_drop_succ hlast, Nat.sub_add_cancel hpos, List.drop_of_length_le hlen.le]
      rfl
    refine .seq dup <| .seq (substr (by omega) (by omega) (by omega)) <|
      .seq (t := ⟨tmp (beBytes w v) :: tmp (leBytes w v) :: vs, q⟩) ?_ <| opThen (.onFrame rfl) rfl fun _ => Nat.le_succ _
    set I : ℕ → Conf ν := fun i => ⟨tmp ((leBytes w v).drop (w - 1 - i)).reverse :: tmp (leBytes w v) :: vs, q⟩ with hI
    have hturn : ∀ i < w - 1, Emits S (Emitter.reverseByte (w - 2 - i)) (I i) (I (i + 1)) := by
      intro i hi
      have hk : w - 2 - i < (leBytes w v).length := by omega
      simp only [hI]
      rw [show w - 1 - (i + 1) = w - 2 - i by omega, show w - 1 - i = w - 2 - i + 1 by omega, ← reverse_drop_succ hk]
      exact reverseByte hk (by omega)
    have hloop := forRange I hturn
    simp only [hI, Nat.sub_zero, Nat.sub_self, List.drop_zero] at hloop
    rw [hslice]
    exact hloop
  · obtain rfl : w = 1 := by_contra heq
    rfl

/-! ### Fields of a slot -/

variable [DecidableEq ν]

theorem find_tmp {k : ℕ} (hname : SlotName.transient ≠ name) (h : find name vs = some (k, x)) (y : Bytes) :
    find name (tmp y :: vs) = some (k + 1, x) := by
  rw [find, if_neg hname, h]

/-- One byte, as a number. -/
theorem emitByte {i k : ℕ} (h : find name vs = some (k, x)) (hk : k < 2 ^ 63) (hi : i < x.length)
    (hlen : x.length < 2 ^ 63) :
    Emits S (Emitter.emitByte name i) ⟨vs, q⟩ ⟨tmp (encodeNum ((x[i].toNat : ℕ) : ℤ)) :: vs, q⟩ := by
  have hbyte : leNat (slice x i (i + 1)) = x[i].toNat := by simp [slice_succ hi, leNat]
  have hlt : x[i].toNat < 2 ^ 63 := x[i].toNat_lt.trans (by norm_num)
  refine .seq (pick h hk) <| .seq (substr (by omega) (by omega) (by omega)) <| .seq (data [0]) <| .seq cat <|
    opThen (.onFrame rfl) ?_ fun _ => le_rfl
  rw [← hbyte]
  exact exec_bin2Num_pad (by rwa [hbyte])

theorem beNat_slice_succ {start j : ℕ} (h : start + j < x.length) :
    beNat (slice x start (start + j)) * 256 + x[start + j].toNat = beNat (slice x start (start + j + 1)) := by
  have hsplit : slice x start (start + j + 1) = slice x start (start + j) ++ [x[start + j]] := by
    rw [slice, slice, List.take_succ_eq_append_getElem h, List.drop_append_of_le_length]
    rw [List.length_take, Nat.min_eq_left h.le]
    exact Nat.le_add_right _ _
  rw [hsplit, beNat_append, beNat_singleton, List.length_singleton, pow_one]

/-- **A big-endian field of a slot.** -/
theorem emitBeIntFrom {start len k : ℕ} (hname : SlotName.transient ≠ name) (h : find name vs = some (k, x))
    (hk : k + 1 < 2 ^ 63) (hpos : 0 < len) (hle : len ≤ 7) (hfit : start + len ≤ x.length) (hlen : x.length < 2 ^ 63) :
    Emits S (Emitter.emitBeIntFrom name start len) ⟨vs, q⟩
      ⟨tmp (encodeNum ((beNat (slice x start (start + len)) : ℕ) : ℤ)) :: vs, q⟩ := by
  set acc : ℕ → ℕ := fun j => beNat (slice x start (start + j)) with hacc
  have hbound : ∀ j ≤ 7, start + j ≤ x.length → acc j < 2 ^ 56 := by
    intro j hj hx
    have hlt := beNat_lt_two_pow (slice x start (start + j))
    rw [length_slice, Nat.min_eq_left hx, Nat.add_sub_cancel_left] at hlt
    exact hlt.trans_le (Nat.pow_le_pow_right (by norm_num) (by omega))
  have hturn : ∀ j < len, Emits S (do
      Emitter.num 256
      Emitter.binaryNumOp .OpMul
      Emitter.emitByte name (start + j)
      Emitter.binaryNumOp .OpAdd) ⟨tmp (encodeNum ((acc j : ℕ) : ℤ)) :: vs, q⟩
        ⟨tmp (encodeNum ((acc (j + 1) : ℕ) : ℤ)) :: vs, q⟩ := by
    intro j hj
    have hj' : start + j < x.length := by omega
    have hsmall : acc (j + 1) < 2 ^ 56 := hbound (j + 1) (by omega) (by omega)
    have hstep : acc j * 256 + x[start + j].toNat = acc (j + 1) := beNat_slice_succ hj'
    have hsum : acc j * 256 + x[start + j].toNat < 2 ^ 63 := by
      rw [hstep]
      exact hsmall.trans (by norm_num)
    have hmul : acc j * 256 < 2 ^ 63 := (Nat.le_add_right _ _).trans_lt hsum
    have hacc' : acc j < 2 ^ 63 := (Nat.le_mul_of_pos_right _ (by norm_num)).trans_lt hmul
    rw [← hstep]
    exact .seq (num (256 : ℕ)) <| .seq (binaryNumOp fun _ _ => exec_mul hacc' (by norm_num) hmul) <|
      .seq (emitByte (find_tmp hname h _) hk hj' hlen) <| add hsum
  have hloop := forRange (fun j => ⟨tmp (encodeNum ((acc j : ℕ) : ℤ)) :: vs, q⟩) hturn
  have hzero : acc 0 = 0 := by simp [hacc, slice]
  rw [hzero] at hloop
  exact .seq (.ensure ⟨hpos, hle⟩) <| .seq (num (0 : ℕ)) hloop

/-- **A digit of a hash value.** -/
theorem emitDigitOf {p : Params} (hp : p.Facts) {i k : ℕ} (h : find name vs = some (k, x)) (hk : k < 2 ^ 63)
    (hlen : x.length = N) (hi : i < p.len1) :
    Emits S (Emitter.emitDigitOf p name i) ⟨vs, q⟩
      ⟨tmp (encodeNum ((bitField x (p.lgw * i) p.lgw : ℕ) : ℤ)) :: vs, q⟩ := by
  set perByte := 8 / p.lgw with hper
  set byte := i / perByte with hbyte
  set pos := i % perByte with hposition
  have hmul : p.lgw * perByte = 8 := Nat.mul_div_cancel' hp.lgw_dvd
  have hperpos : 0 < perByte := Nat.pos_of_ne_zero fun h0 => by simp [h0] at hmul
  have hsplit : p.lgw * i = 8 * byte + p.lgw * pos := by
    conv_lhs => rw [← Nat.div_add_mod i perByte, Nat.mul_add, ← Nat.mul_assoc, hmul]
  have hposlt : p.lgw * (pos + 1) ≤ 8 := by
    rw [← hmul]
    exact Nat.mul_le_mul_left _ (Nat.mod_lt _ hperpos)
  have hfit : p.lgw * (i + 1) ≤ 8 * N := by
    rw [Nat.mul_comm]
    exact hp.len1_lt hi
  have hlgw := hp.lgw_pos
  have hbytelt : byte < x.length := by
    rw [hlen]
    rw [Nat.mul_succ] at hfit
    omega
  have hval : x[byte].toNat = bitField x (8 * byte) 8 := by
    rw [← beNat_singleton x[byte], ← slice_succ hbytelt, beNat_slice (Nat.le_succ _) hbytelt]
    congr 1
    omega
  have hlt : x[byte].toNat < 2 ^ 63 := x[byte].toNat_lt.trans (by norm_num)
  have hpow : p.w < 2 ^ 63 := hp.w_le.trans_lt (by norm_num)
  refine .seq (emitByte h hk hbytelt (by rw [hlen]; norm_num [N])) <|
    .seq (divPow_onlyIf hlt (by omega)) <| onlyIf (fun hpos => ?_) fun hpos => ?_
  · have hfield : x[byte].toNat / 2 ^ (8 - p.lgw * (pos + 1)) % p.w = bitField x (p.lgw * i) p.lgw := by
      rw [hval, Params.w_eq, Nat.mul_succ, bitField_sub (by rwa [Nat.mul_succ] at hposlt) (by omega), hsplit]
    rw [← hfield]
    exact modulo ((Nat.div_le_self _ _).trans_lt hlt) Params.w_pos hpow
  · have hzero : pos = 0 := Nat.eq_zero_of_not_pos hpos
    have hfield : x[byte].toNat / 2 ^ (8 - p.lgw * (pos + 1)) = bitField x (p.lgw * i) p.lgw := by
      rw [hval, hsplit, hzero, Nat.mul_zero, Nat.add_zero, Nat.mul_one]
      exact bitField_sub_zero (by rw [hzero] at hposlt; omega) (by omega)
    rw [hfield]

/-! ### Hashes and addresses -/

/-- The eight bytes of a tree address. -/
theorem emitTreeBytes {p : Params} {k t : ℕ} (h : find name vs = some (k, encodeNum t)) (hk : k < 2 ^ 63)
    (hzero : p.idxTreeBits = 0 → t = 0) (ht : t < 2 ^ 63) :
    Emits S (Emitter.emitTreeBytes p name) ⟨vs, q⟩ ⟨tmp (beBytes 8 t) :: vs, q⟩ := by
  unfold Emitter.emitTreeBytes
  split_ifs with hbits
  · rw [hzero hbits]
    exact data _
  · exact .seq (pick h hk) (emitBeBytes (by norm_num) le_rfl ht)

omit [DecidableEq ν] in
/-- The hash of a prefix and what lies beneath it. -/
theorem finishHash : Emits S (Emitter.finishHash : Emitter.Emit ν Unit) ⟨(s₁, y) :: (s₂, x) :: vs, q⟩
    ⟨tmp (truncN (S.env.sha256 (y ++ x))).bytes :: vs, q⟩ :=
  .seq swap <| .seq cat <| .seq sha256 <| substr (Nat.zero_le _) (by simp [N]) (by norm_num [N])

end KaspaPqv.SlhScript.Emits
