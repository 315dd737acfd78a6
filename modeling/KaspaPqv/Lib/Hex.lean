import KaspaPqv.Lib.Bytes
import KaspaPqv.Lib.Text
import Mathlib.Tactic.IntervalCases

/-!
# Bytes as hex digits

A byte is written as two hex digits. Read back, the text is cut into pieces of two bytes,
and each is read as a number in base sixteen, the way the standard library reads one: a plus
sign may stand in front. So a pair may be a plus sign and one digit; and a text that holds
wider characters may be cut through one of them.

## What is proved

* `hexPairs_toHex` — what is written is read back.
* `hexBytes_eq_ok`, `hexBytes_eq_panic` — exactly which texts are read, as what, and at which
  ones the reading panics.
* `reads_iff_spells` — without a plus sign, the text is hex digits and the bytes are what
  they spell.
-/

namespace KaspaPqv.Lib

/-! ### Writing -/

/-- Two hex digits a byte. -/
def toHex (bytes : Bytes) : List Char :=
  bytes.flatMap fun b => [Nat.digitChar (b.toNat / 16), Nat.digitChar (b.toNat % 16)]

/-! ### Reading -/

/-- The value of a hex digit, of either case. -/
def hexValue (c : Char) : Option ℕ :=
  if '0' ≤ c ∧ c ≤ '9' then some (c.toNat - '0'.toNat)
  else if 'a' ≤ c ∧ c ≤ 'f' then some (c.toNat - 'a'.toNat + 10)
  else if 'A' ≤ c ∧ c ≤ 'F' then some (c.toNat - 'A'.toNat + 10)
  else none

/-- A number without the plus sign in front of it. -/
def stripPlus : List Char → List Char
  | '+' :: digits => digits
  | digits => digits

/-- `u8::from_str_radix` in base sixteen. -/
def u8FromHex (s : List Char) : Option UInt8 :=
  match (stripPlus s).mapM hexValue with
  | some digits =>
    let value := digits.foldl (fun n d => 16 * n + d) 0
    if digits ≠ [] ∧ value < 256 then some (UInt8.ofNat value) else none
  | none => none

/-- The bytes of the `n` pieces of two bytes from the `i`-th on; an unreadable one is the error `e`. -/
def hexBytesFrom {ε : Type} (e : ε) (s : List Char) : ℕ → ℕ → Outcome ε Bytes
  | _, 0 => pure []
  | i, n + 1 => do
    let piece ← byteSlice s (2 * i) (2 * i + 2)
    let b ← Outcome.ofOption (u8FromHex piece) e
    let bs ← hexBytesFrom e s (i + 1) n
    pure (b :: bs)

/-- The bytes of a text, cut into pieces of two bytes. -/
def hexBytes {ε : Type} (e : ε) (s : List Char) : Outcome ε Bytes := hexBytesFrom e s 0 (byteLen s / 2)

/-- A piece of two characters: the first may be a plus sign. -/
def byteOfHex (a b : Char) : Option UInt8 :=
  if a = '+' then (hexValue b).map UInt8.ofNat
  else do
    let x ← hexValue a
    let y ← hexValue b
    some (UInt8.ofNat (16 * x + y))

/-- The bytes of pairs of characters. -/
def hexPairs : List Char → Option Bytes
  | [] => some []
  | [_] => none
  | a :: b :: s => do
    let x ← byteOfHex a b
    let bs ← hexPairs s
    some (x :: bs)

/-- `char::is_ascii_hexdigit`. -/
def isAsciiHexdigit (c : Char) : Bool := c.isDigit || ('a' ≤ c && c ≤ 'f') || ('A' ≤ c && c ≤ 'F')

/-- Hex digits, and the bytes they spell. -/
inductive Spells : List Char → Bytes → Prop where
  | nil : Spells [] []
  | pair {a b : Char} {x y : ℕ} {s : List Char} {bs : Bytes} : hexValue a = some x → hexValue b = some y →
      Spells s bs → Spells (a :: b :: s) (UInt8.ofNat (16 * x + y) :: bs)

/-- Hex digits, where a plus sign may stand in place of the first one of a pair. -/
inductive Reads : List Char → Bytes → Prop where
  | nil : Reads [] []
  | pair {a b : Char} {x : UInt8} {s : List Char} {bs : Bytes} : byteOfHex a b = some x →
      Reads s bs → Reads (a :: b :: s) (x :: bs)

/-- Pairs that can be read, and then a character that a piece of two bytes cuts: one that takes more than
two bytes, or more than one and stands behind one that takes one. -/
inductive Cuts : List Char → Prop where
  | wide {c : Char} {s : List Char} : 2 < c.utf8Size → Cuts (c :: s)
  | second {a b : Char} {s : List Char} : a.utf8Size = 1 → 1 < b.utf8Size → Cuts (a :: b :: s)
  | pair {a b : Char} {x : UInt8} {s : List Char} : byteOfHex a b = some x → Cuts s → Cuts (a :: b :: s)

/-! ### Digits -/

theorem hexValue_digitChar {n : ℕ} (h : n < 16) : hexValue (Nat.digitChar n) = some n := by
  interval_cases n <;> rfl

theorem digitChar_mem {n : ℕ} (h : n < 16) : Nat.digitChar n ∈ "0123456789abcdef".toList := by
  interval_cases n <;> decide

theorem char_le_iff {a b : Char} : a ≤ b ↔ a.toNat ≤ b.toNat := UInt32.le_iff_toNat_le

theorem utf8Size_eq_one {c : Char} (h : c.toNat < 128) : c.utf8Size = 1 :=
  Char.utf8Size_eq_one_iff.mpr (UInt32.le_iff_toNat_le.mpr (Nat.le_of_lt_succ h))

/-- What a digit is worth, and that it takes one byte. -/
theorem hexValue_bounds {c : Char} {x : ℕ} (h : hexValue c = some x) : x < 16 ∧ c.toNat < 128 := by
  unfold hexValue at h
  simp only [char_le_iff] at h
  have h0 : '0'.toNat = 48 := rfl
  have h9 : '9'.toNat = 57 := rfl
  have ha : 'a'.toNat = 97 := rfl
  have hf : 'f'.toNat = 102 := rfl
  have hA : 'A'.toNat = 65 := rfl
  have hF : 'F'.toNat = 70 := rfl
  split_ifs at h with hdigit hlower hupper
  · obtain rfl := Option.some.inj h
    omega
  · obtain rfl := Option.some.inj h
    omega
  · obtain rfl := Option.some.inj h
    omega

theorem isSome_hexValue (c : Char) : (hexValue c).isSome = isAsciiHexdigit c := by
  have hdigit : c.isDigit = true ↔ '0' ≤ c ∧ c ≤ '9' := by
    simp [Char.isDigit, Char.le_def]
  unfold hexValue isAsciiHexdigit
  by_cases h : '0' ≤ c ∧ c ≤ '9'
  · rw [if_pos h, hdigit.mpr h]
    rfl
  · have hnot : c.isDigit = false := by
      rw [← Bool.not_eq_true, hdigit]
      exact h
    rw [if_neg h, hnot]
    split_ifs with hlower hupper
    · simp [hlower]
    · simp [hupper]
    · simp only [not_and, Char.not_le] at hlower hupper
      simpa using ⟨hlower, hupper⟩

/-- The characters of a pair take one byte each. -/
theorem utf8Size_of_byteOfHex {a b : Char} {x : UInt8} (h : byteOfHex a b = some x) :
    a.utf8Size = 1 ∧ b.utf8Size = 1 := by
  unfold byteOfHex at h
  split_ifs at h with hplus
  · obtain ⟨y, hy, -⟩ := Option.map_eq_some_iff.mp h
    exact ⟨by rw [hplus]; rfl, utf8Size_eq_one (hexValue_bounds hy).2⟩
  · simp only [Option.bind_eq_bind, Option.bind_eq_some_iff] at h
    obtain ⟨x, hx, y, hy, -⟩ := h
    exact ⟨utf8Size_eq_one (hexValue_bounds hx).2, utf8Size_eq_one (hexValue_bounds hy).2⟩

theorem hexPairs_toHex (bytes : Bytes) : hexPairs (toHex bytes) = some bytes := by
  induction bytes with
  | nil => rfl
  | cons b bytes ih =>
    have hb := b.toNat_lt
    have hplus : Nat.digitChar (b.toNat / 16) ≠ '+' := fun h =>
      absurd (h ▸ digitChar_mem (show b.toNat / 16 < 16 by omega)) (by decide)
    have hval : 16 * (b.toNat / 16) + b.toNat % 16 = b.toNat := by omega
    have hbyte : byteOfHex (Nat.digitChar (b.toNat / 16)) (Nat.digitChar (b.toNat % 16)) = some b := by
      rw [byteOfHex, if_neg hplus, hexValue_digitChar (by omega), hexValue_digitChar (by omega)]
      simp only [Option.bind_eq_bind, Option.bind_some, hval, UInt8.ofNat_toNat]
    rw [toHex] at ih ⊢
    rw [List.flatMap_cons]
    simp only [List.cons_append, List.nil_append, hexPairs, hbyte, ih]
    rfl

@[simp] theorem length_toHex (bytes : Bytes) : (toHex bytes).length = 2 * bytes.length := by
  induction bytes with
  | nil => rfl
  | cons b bytes ih =>
    rw [toHex, List.flatMap_cons, List.length_append, ← toHex, ih, List.length_cons]
    simp
    omega

theorem mem_toHex {bytes : Bytes} {c : Char} (hc : c ∈ toHex bytes) : c ∈ "0123456789abcdef".toList := by
  obtain ⟨b, -, hb⟩ := List.mem_flatMap.mp hc
  have := b.toNat_lt
  simp only [List.mem_cons, List.not_mem_nil, or_false] at hb
  rcases hb with rfl | rfl
  · exact digitChar_mem (by omega)
  · exact digitChar_mem (by omega)

/-! ### Pieces -/

theorem stripPlus_of_ne {c : Char} (h : c ≠ '+') (s : List Char) : stripPlus (c :: s) = c :: s := by
  unfold stripPlus
  split
  · rename_i hc
    exact absurd (List.cons.inj hc).1 h
  · rfl

theorem stripPlus_of_not_mem {s : List Char} (h : '+' ∉ s) : stripPlus s = s := by
  cases s with
  | nil => rfl
  | cons c s => exact stripPlus_of_ne (fun hc => h (hc ▸ List.mem_cons_self)) s

/-- **Two characters** are read as a pair. -/
theorem u8FromHex_pair (a b : Char) : u8FromHex [a, b] = byteOfHex a b := by
  unfold u8FromHex byteOfHex
  by_cases hplus : a = '+'
  · subst hplus
    rw [if_pos rfl]
    change (match [b].mapM hexValue with | some digits => _ | none => none) = _
    cases hb : hexValue b with
    | none => simp [hb]
    | some y =>
      have hy := (hexValue_bounds hb).1
      have hlt : y < 256 := by omega
      simp [hb, hlt]
  · rw [if_neg hplus, stripPlus_of_ne hplus]
    cases ha : hexValue a with
    | none => simp [ha]
    | some x =>
      cases hb : hexValue b with
      | none => simp [ha, hb]
      | some y =>
        have hx := (hexValue_bounds ha).1
        have hy := (hexValue_bounds hb).1
        have hlt : 16 * x + y < 256 := by omega
        simp [ha, hb, hlt]

/-- A character of two bytes is none. -/
theorem u8FromHex_wide {c : Char} (h : c.utf8Size = 2) : u8FromHex [c] = none := by
  have hplus : c ≠ '+' := by
    rintro rfl
    exact absurd h (by decide)
  have hvalue : hexValue c = none := by
    cases hc : hexValue c with
    | none => rfl
    | some x => exact absurd (utf8Size_eq_one (hexValue_bounds hc).2) (by omega)
  rw [u8FromHex, stripPlus_of_ne hplus]
  simp [hvalue]

/-- **What the next piece gives**, of a text of an even number of bytes. -/
theorem nextPiece_cases (ε : Type) {t : List Char} {n : ℕ} (ht : byteLen t = 2 * (n + 1)) :
    (∃ a b x s, t = a :: b :: s ∧ byteOfHex a b = some x ∧ byteLen s = 2 * n ∧
        (byteSlice t 0 2 : Outcome ε (List Char)) = .ok [a, b]) ∨
      (∃ piece, (byteSlice t 0 2 : Outcome ε (List Char)) = .ok piece ∧ u8FromHex piece = none ∧
        (∀ bs, ¬Reads t bs) ∧ ¬Cuts t) ∨
      (byteSlice t 0 2 : Outcome ε (List Char)) = .panic ∧ (∀ bs, ¬Reads t bs) ∧ Cuts t := by
  cases t with
  | nil => exact absurd ht (by rw [byteLen_nil]; omega)
  | cons c s =>
    rw [byteSlice_two]
    by_cases htwo : c.utf8Size = 2
    · refine .inr (.inl ⟨[c], if_pos htwo, u8FromHex_wide htwo, ?_, ?_⟩)
      · rintro bs (_ | ⟨hx, -⟩)
        exact absurd (utf8Size_of_byteOfHex hx).1 (by omega)
      · rintro (h | ⟨h, -⟩ | ⟨hx, -⟩)
        · omega
        · omega
        · exact absurd (utf8Size_of_byteOfHex hx).1 (by omega)
    rw [if_neg htwo]
    by_cases hone : c.utf8Size = 1
    · rw [if_pos hone]
      cases s with
      | nil =>
        rw [byteLen_cons, byteLen_nil] at ht
        omega
      | cons d s =>
        by_cases hd : d.utf8Size = 1
        · simp only [if_pos hd]
          cases hpair : byteOfHex c d with
          | some x =>
            rw [byteLen_cons, byteLen_cons] at ht
            exact .inl ⟨c, d, x, s, rfl, hpair, by omega, rfl⟩
          | none =>
            refine .inr (.inl ⟨[c, d], rfl, (u8FromHex_pair c d).trans hpair, ?_, ?_⟩)
            · rintro bs (_ | ⟨hx, -⟩)
              cases hpair.symm.trans hx
            · rintro (h | ⟨-, h⟩ | ⟨hx, -⟩)
              · omega
              · omega
              · cases hpair.symm.trans hx
        · simp only [if_neg hd]
          have hpos := d.utf8Size_pos
          refine .inr (.inr ⟨trivial, ?_, .second hone (by omega)⟩)
          rintro bs (_ | ⟨hx, -⟩)
          exact hd (utf8Size_of_byteOfHex hx).2
    · rw [if_neg hone]
      have hpos := c.utf8Size_pos
      refine .inr (.inr ⟨rfl, ?_, .wide (by omega)⟩)
      rintro bs (_ | ⟨hx, -⟩)
      exact hone (utf8Size_of_byteOfHex hx).1

/-- The pieces behind some that were read. -/
theorem hexBytesFrom_spec {ε : Type} (e : ε) {n : ℕ} : ∀ {a t : List Char} {i : ℕ}, byteLen a = 2 * i →
    byteLen t = 2 * n → (∀ bs, hexBytesFrom e (a ++ t) i n = .ok bs ↔ Reads t bs) ∧
      (hexBytesFrom e (a ++ t) i n = .panic ↔ Cuts t) := by
  induction n with
  | zero =>
    intro a t i ha ht
    obtain rfl := byteLen_eq_zero.mp ht
    refine ⟨fun bs => ?_, ?_⟩
    · constructor
      · intro h
        cases h
        exact .nil
      · rintro ⟨⟩
        rfl
    · constructor
      · intro h
        cases h
      · rintro ⟨⟩
  | succ n ih =>
    intro a t i ha ht
    have hslice : (byteSlice (a ++ t) (2 * i) (2 * i + 2) : Outcome ε (List Char)) = byteSlice t 0 2 := by
      rw [← ha]
      exact byteSlice_append a t 0 2
    simp only [hexBytesFrom, hslice]
    rcases nextPiece_cases ε ht with
      ⟨c, d, x, s, rfl, hpair, hs, hpiece⟩ | ⟨piece, hpiece, hnone, hreads, hcuts⟩ | ⟨hpiece, hreads, hcuts⟩
    · have hread : u8FromHex [c, d] = some x := (u8FromHex_pair c d).trans hpair
      obtain ⟨hc, hd⟩ := utf8Size_of_byteOfHex hpair
      have hlen : byteLen (a ++ [c, d]) = 2 * (i + 1) := by
        rw [byteLen_append, byteLen_cons, byteLen_cons, byteLen_nil, hc, hd]
        omega
      obtain ⟨hok, hpanic⟩ := ih hlen hs
      have happ : a ++ c :: d :: s = a ++ [c, d] ++ s := by simp
      simp only [hpiece, Outcome.bind_ok, hread, Outcome.ofOption, happ, Outcome.bind_eq_ok, Outcome.bind_eq_panic, hok,
        hpanic]
      refine ⟨fun bs => ?_, ?_⟩
      · constructor
        · rintro ⟨bs', hs', h⟩
          cases h
          exact .pair hpair hs'
        · rintro (_ | ⟨hx, hs'⟩)
          cases hpair.symm.trans hx
          exact ⟨_, hs', rfl⟩
      · constructor
        · rintro (h | ⟨bs', -, h⟩)
          · exact .pair hpair h
          · cases h
        · rintro (h | ⟨-, h⟩ | ⟨-, h⟩)
          · omega
          · omega
          · exact .inl h
    · simp only [hpiece, Outcome.bind_ok, hnone, Outcome.ofOption, Outcome.bind_error]
      refine ⟨fun bs => ⟨fun h => ?_, fun h => absurd h (hreads bs)⟩, fun h => ?_, fun h => absurd h hcuts⟩
      · cases h
      · cases h
    · simp only [hpiece, Outcome.bind_panic]
      refine ⟨fun bs => ⟨fun h => ?_, fun h => absurd h (hreads bs)⟩, fun _ => hcuts, fun _ => trivial⟩
      cases h

/-! ### Which texts are read -/

theorem length_of_reads {s : List Char} {bs : Bytes} (h : Reads s bs) : s.length = 2 * bs.length := by
  induction h with
  | nil => rfl
  | pair _ _ ih =>
    simp only [List.length_cons, ih]
    omega

/-- What is read takes one byte a character. -/
theorem byteLen_of_reads {s : List Char} {bs : Bytes} (h : Reads s bs) : byteLen s = s.length := by
  induction h with
  | nil => rfl
  | pair hx _ ih =>
    obtain ⟨ha, hb⟩ := utf8Size_of_byteOfHex hx
    simp only [byteLen_cons, List.length_cons, ha, hb, ih]
    omega

theorem hexPairs_eq_some {s : List Char} {bs : Bytes} : hexPairs s = some bs ↔ Reads s bs := by
  induction s using hexPairs.induct generalizing bs with
  | case1 =>
    constructor
    · rintro ⟨⟩
      exact .nil
    · rintro ⟨⟩
      rfl
  | case2 =>
    constructor
    · rintro ⟨⟩
    · rintro ⟨⟩
  | case3 a b s ih =>
    simp only [hexPairs, Option.bind_eq_bind, Option.bind_eq_some_iff, ih]
    constructor
    · rintro ⟨x, hx, bs', hs, h⟩
      cases h
      exact .pair hx hs
    · rintro (_ | ⟨hx, hs⟩)
      exact ⟨_, hx, _, hs, rfl⟩

theorem not_cuts_of_ascii {s : List Char} (h : ∀ c ∈ s, c.utf8Size = 1) : ¬Cuts s := by
  intro hcuts
  induction hcuts with
  | wide hc => exact absurd (h _ List.mem_cons_self) (by omega)
  | second _ hb => exact absurd (h _ (List.mem_cons_of_mem _ List.mem_cons_self)) (by omega)
  | pair _ _ ih => exact ih fun c hc => h c (List.mem_cons_of_mem _ (List.mem_cons_of_mem _ hc))

theorem byteOfHex_of_hexValue {a b : Char} {x y : ℕ} (ha : hexValue a = some x) (hb : hexValue b = some y) :
    byteOfHex a b = some (UInt8.ofNat (16 * x + y)) := by
  have hplus : a ≠ '+' := by
    rintro rfl
    cases ha
  rw [byteOfHex, if_neg hplus, ha, hb]
  rfl

theorem Spells.reads {s : List Char} {bs : Bytes} (h : Spells s bs) : Reads s bs := by
  induction h with
  | nil => exact .nil
  | pair ha hb _ ih => exact .pair (byteOfHex_of_hexValue ha hb) ih

/-- **Without a plus sign** the text is hex digits, and the bytes are what they spell. -/
theorem reads_iff_spells {s : List Char} {bs : Bytes} (h : '+' ∉ s) : Reads s bs ↔ Spells s bs := by
  refine ⟨fun hreads => ?_, Spells.reads⟩
  induction hreads with
  | nil => exact .nil
  | @pair a b x s bs hx hs ih =>
    simp only [List.mem_cons, not_or] at h
    rw [byteOfHex, if_neg (Ne.symm h.1)] at hx
    simp only [Option.bind_eq_bind, Option.bind_eq_some_iff] at hx
    obtain ⟨x, ha, y, hb, hx⟩ := hx
    cases hx
    exact .pair ha hb (ih h.2.2)

/-- Hex digits, an even number of them, spell some bytes; and nothing else does. -/
theorem exists_spells_iff {s : List Char} :
    (∃ bs, Spells s bs) ↔ s.length % 2 = 0 ∧ ∀ c ∈ s, isAsciiHexdigit c = true := by
  constructor
  · rintro ⟨bs, h⟩
    induction h with
    | nil => simp
    | pair ha hb _ ih =>
      refine ⟨by rw [List.length_cons, List.length_cons]; omega, ?_⟩
      simp only [List.forall_mem_cons, ← isSome_hexValue, ha, hb, Option.isSome_some, true_and]
      simpa only [isSome_hexValue] using ih.2
  · induction s using hexPairs.induct with
    | case1 => exact fun _ => ⟨[], .nil⟩
    | case2 => exact fun h => absurd h.1 (by simp)
    | case3 a b s ih =>
      rintro ⟨hlen, hdigits⟩
      simp only [List.forall_mem_cons, ← isSome_hexValue, Option.isSome_iff_exists] at hdigits
      obtain ⟨⟨x, ha⟩, ⟨y, hb⟩, hrest⟩ := hdigits
      rw [List.length_cons, List.length_cons] at hlen
      obtain ⟨bs, hs⟩ := ih ⟨by omega, fun c hc => by
        rw [← isSome_hexValue, Option.isSome_iff_exists]
        exact hrest c hc⟩
      exact ⟨_, .pair ha hb hs⟩

section

variable {ε : Type} {e : ε} {s : List Char} {bs : Bytes}

/-- **Which texts are read.** -/
theorem hexBytes_eq_ok (hs : byteLen s % 2 = 0) : hexBytes e s = .ok bs ↔ Reads s bs :=
  (hexBytesFrom_spec e (n := byteLen s / 2) (a := []) (i := 0) rfl (by omega)).1 bs

/-- **Where the reading panics.** -/
theorem hexBytes_eq_panic (hs : byteLen s % 2 = 0) : hexBytes e s = .panic ↔ Cuts s :=
  (hexBytesFrom_spec e (n := byteLen s / 2) (a := []) (i := 0) rfl (by omega)).2

end

end KaspaPqv.Lib
