import KaspaPqv.Lib.Hex
import KaspaPqv.VaultCore.Derivation

/-!
# Key material as text

A key is told by its text: an extended key, if it is more than four ASCII letters and digits
and not all hex digits; a seed, if it takes 128 bytes; a bare key, if it takes 64. The latter
two are read as hex, in pieces of two bytes, which takes a plus sign in place of the first
digit of a piece, and panics at a character of more than one byte that a piece cuts.

Extended keys are the library's (`parseXprv`).

## What is proved

* `parse_cases` — what is returned for any text.
* `parse_detects_iff` — exactly for which texts there is no panic and the kind of the key is told
  by its hex digits.
* `not_parse_detects` — a text of plus signs that makes a bare key.
-/

namespace KaspaPqv.VaultCore

open KaspaPqv.Lib

namespace KeyMaterial

/-! ### Parsing -/

/-- `char::is_ascii_alphanumeric`. -/
def isAsciiAlphanumeric (c : Char) : Bool := c.isDigit || ('a' ≤ c && c ≤ 'z') || ('A' ≤ c && c ≤ 'Z')

/-- Some hex digits, and nothing else. -/
def isHex (s : List Char) : Bool := s ≠ [] && s.all isAsciiHexdigit

/-- Read hex digits. -/
def hexDecode (s : List Char) : Outcome String Bytes :=
  let s := trim s
  if byteLen s % 2 ≠ 0 then .error "hex string has an odd length" else hexBytes "invalid hex digit" s

/-- The bytes of a bare key, of which there must be 32. -/
def rawKey {Node : Type} (bytes : Bytes) : Outcome String (KeyMaterial Node) :=
  if h : bytes.length = 32 then .ok (.raw (.ofBytes bytes h)) else .panic

/-- Parse a key, told by its length and its characters. -/
def parse {Node : Type} (parseXprv : List Char → Except String Node) (input : List Char) :
    Outcome String (KeyMaterial Node) :=
  let text := trim input
  if byteLen text > 4 ∧ text.all isAsciiAlphanumeric = true ∧ isHex text = false then
    match parseXprv text with
    | .ok xprv => .ok (.extended xprv)
    | .error e => .error s!"not a valid extended private key: {e}"
  else
    match byteLen text with
    | 128 => do
      let seed ← (hexDecode text).mapError fun _ => "seed is not valid hex"
      pure (.bip39Seed seed)
    | 64 => do
      let bytes ← (hexDecode text).mapError fun _ => "key is not valid hex"
      rawKey bytes
    | other => .error (s!"unrecognised key format ({other} characters). Expected an extended " ++
        "private key (xprv…/kprv…), a 128-character BIP39 seed, or a " ++ "64-character private key.")

/-! ### The kinds of texts -/

/-- `n` hex digits, and nothing else. -/
def HexDigits (n : ℕ) (s : List Char) : Prop := s.length = n ∧ ∀ c ∈ s, isAsciiHexdigit c = true

/-- The kind of the key is told by the hex digits of its text, and the bytes are what they spell;
every other text is an extended key that the library takes, or an error. -/
structure Detects {Node : Type} (parseXprv : List Char → Except String Node) (input : List Char) : Prop where
  no_panic : parse parseXprv input ≠ .panic
  raw_iff : (∃ key, parse parseXprv input = .ok (.raw key)) ↔ HexDigits 64 (trim input)
  seed_iff : (∃ seed, parse parseXprv input = .ok (.bip39Seed seed)) ↔ HexDigits 128 (trim input)
  raw_spells : ∀ key, parse parseXprv input = .ok (.raw key) → Spells (trim input) key.bytes
  seed_spells : ∀ seed, parse parseXprv input = .ok (.bip39Seed seed) → Spells (trim input) seed
  extended : ∀ xprv, parse parseXprv input = .ok (.extended xprv) → parseXprv (trim input) = .ok xprv

/-- A text of the length of a bare key or of a seed that is cut, or read with a plus sign. -/
def Misread (s : List Char) : Prop :=
  (byteLen s = 64 ∨ byteLen s = 128) ∧ (Cuts s ∨ (∃ bs, Reads s bs) ∧ '+' ∈ s)

theorem hexDigits_of_spells {n : ℕ} {s : List Char} {bs : Bytes} (h : Spells s bs) (hlen : byteLen s = n) :
    HexDigits n s := by
  obtain ⟨-, hdigits⟩ := exists_spells_iff.mp ⟨bs, h⟩
  exact ⟨(byteLen_of_reads h.reads).symm.trans hlen, hdigits⟩

theorem HexDigits.exists_spells {n : ℕ} {s : List Char} (h : HexDigits n s) (hn : n % 2 = 0) :
    ∃ bs, Spells s bs ∧ byteLen s = n := by
  obtain ⟨bs, hbs⟩ := exists_spells_iff.mpr ⟨by rw [h.1]; exact hn, h.2⟩
  exact ⟨bs, hbs, (byteLen_of_reads hbs.reads).trans h.1⟩

theorem HexDigits.plus_not_mem {n : ℕ} {s : List Char} (h : HexDigits n s) : '+' ∉ s := fun hmem =>
  absurd (h.2 _ hmem) (by decide)

/-! ### What is returned -/

theorem utf8Size_of_isAsciiAlphanumeric {c : Char} (h : isAsciiAlphanumeric c = true) : c.utf8Size = 1 := by
  simp only [isAsciiAlphanumeric, Char.isDigit, Bool.or_eq_true, Bool.and_eq_true, decide_eq_true_eq, char_le_iff,
    ge_iff_le, UInt32.le_iff_toNat_le] at h
  have h9 : '9'.val.toNat = 57 := rfl
  have hz : 'z'.toNat = 122 := rfl
  have hZ : 'Z'.toNat = 90 := rfl
  refine utf8Size_eq_one ?_
  rcases h with (h | h) | h
  · have hval : c.val.toNat = c.toNat := rfl
    omega
  · omega
  · omega

/-- The text of an extended key is not cut, and not read as hex. -/
theorem not_reads_of_extended {s : List Char} (halnum : s.all isAsciiAlphanumeric = true) (hhex : isHex s = false)
    (hlen : 4 < byteLen s) : ¬Cuts s ∧ ∀ bs, ¬Reads s bs := by
  rw [List.all_eq_true] at halnum
  refine ⟨not_cuts_of_ascii fun c hc => utf8Size_of_isAsciiAlphanumeric (halnum c hc), fun bs hreads => ?_⟩
  have hplus : '+' ∉ s := fun hmem => absurd (halnum _ hmem) (by decide)
  have hdigits := (exists_spells_iff.mp ⟨bs, (reads_iff_spells hplus).mp hreads⟩).2
  have hne : s ≠ [] := by
    rintro rfl
    exact absurd hlen (by simp)
  rw [isHex, decide_eq_true hne, Bool.true_and, List.all_eq_true.mpr hdigits] at hhex
  cases hhex

/-- A trimmed text of an even number of bytes. -/
theorem hexDecode_trim {s : List Char} (h : byteLen (trim s) % 2 = 0) :
    hexDecode (trim s) = hexBytes "invalid hex digit" (trim s) := by
  rw [hexDecode, trim_trim, if_neg (by omega)]

theorem rawKey_eq_ok {Node : Type} {bytes : Bytes} {m : KeyMaterial Node} :
    rawKey bytes = .ok m ↔ ∃ key : Block 32, m = .raw key ∧ key.bytes = bytes := by
  unfold rawKey
  constructor
  · intro h
    split_ifs at h with hlen
    cases h
    exact ⟨_, rfl, rfl⟩
  · rintro ⟨key, rfl, rfl⟩
    rw [dif_pos key.length_bytes]
    rfl

section

variable {Node : Type} {parseXprv : List Char → Except String Node} {input : List Char}

/-- **All that a text may be**: given to the library, read as a seed or as a bare key, or refused. -/
theorem parse_cases (parseXprv : List Char → Except String Node) (input : List Char) :
    ((¬Cuts (trim input) ∧ ∀ bs, ¬Reads (trim input) bs) ∧
      ((∃ xprv, parseXprv (trim input) = .ok xprv ∧ parse parseXprv input = .ok (.extended xprv)) ∨
        ∃ e, parse parseXprv input = .error e)) ∨
    (byteLen (trim input) = 128 ∧ parse parseXprv input =
      (hexDecode (trim input)).mapError (fun _ => "seed is not valid hex") >>= fun seed => .ok (.bip39Seed seed)) ∨
    (byteLen (trim input) = 64 ∧ parse parseXprv input =
      (hexDecode (trim input)).mapError (fun _ => "key is not valid hex") >>= rawKey) ∨
    (byteLen (trim input) ≠ 128 ∧ byteLen (trim input) ≠ 64 ∧ ∃ e, parse parseXprv input = .error e) := by
  unfold parse
  by_cases hextended : byteLen (trim input) > 4 ∧ (trim input).all isAsciiAlphanumeric = true ∧ isHex (trim input) = false
  · simp only [if_pos hextended]
    refine .inl ⟨not_reads_of_extended hextended.2.1 hextended.2.2 hextended.1, ?_⟩
    cases hxprv : parseXprv (trim input) with
    | ok xprv => exact .inl ⟨xprv, rfl, rfl⟩
    | error e => exact .inr ⟨_, rfl⟩
  · simp only [if_neg hextended]
    right
    split
    · rename_i hlen
      exact .inl ⟨hlen, rfl⟩
    · rename_i hlen
      exact .inr (.inl ⟨hlen, rfl⟩)
    · rename_i h128 h64
      exact .inr (.inr ⟨h128, h64, _, rfl⟩)

/-- **A bare key** is read from 64 bytes. -/
theorem parse_eq_raw {key : Block 32} :
    parse parseXprv input = .ok (.raw key) ↔ byteLen (trim input) = 64 ∧ Reads (trim input) key.bytes := by
  rcases parse_cases parseXprv input with
    ⟨⟨-, hreads⟩, ⟨xprv, -, h⟩ | ⟨e, h⟩⟩ | ⟨hlen, h⟩ | ⟨hlen, h⟩ | ⟨-, hlen, e, h⟩
  · simp [h, hreads]
  · simp [h, hreads]
  · rw [h, Outcome.bind_eq_ok, hlen]
    simp
  · rw [h, Outcome.bind_eq_ok, hexDecode_trim (by omega)]
    simp only [Outcome.mapError_eq_ok, hexBytes_eq_ok (show byteLen (trim input) % 2 = 0 by omega), rawKey_eq_ok]
    constructor
    · rintro ⟨bs, hbs, key', hkey, rfl⟩
      cases hkey
      exact ⟨hlen, hbs⟩
    · exact fun ⟨_, hkey⟩ => ⟨_, hkey, key, rfl, rfl⟩
  · simp [h, hlen]

/-- **A seed** is read from 128 bytes. -/
theorem parse_eq_seed {seed : Bytes} :
    parse parseXprv input = .ok (.bip39Seed seed) ↔ byteLen (trim input) = 128 ∧ Reads (trim input) seed := by
  rcases parse_cases parseXprv input with
    ⟨⟨-, hreads⟩, ⟨xprv, -, h⟩ | ⟨e, h⟩⟩ | ⟨hlen, h⟩ | ⟨hlen, h⟩ | ⟨hlen, -, e, h⟩
  · simp [h, hreads]
  · simp [h, hreads]
  · rw [h, Outcome.bind_eq_ok, hexDecode_trim (by omega)]
    simp only [Outcome.mapError_eq_ok, hexBytes_eq_ok (show byteLen (trim input) % 2 = 0 by omega)]
    constructor
    · rintro ⟨bs, hbs, hseed⟩
      cases hseed
      exact ⟨hlen, hbs⟩
    · exact fun ⟨_, hseed⟩ => ⟨_, hseed, rfl⟩
  · rw [h, Outcome.bind_eq_ok, hlen]
    simp only [rawKey_eq_ok]
    constructor
    · rintro ⟨bs, -, key, hkey, -⟩
      cases hkey
    · exact fun hlen => absurd hlen.1 (by norm_num)
  · simp [h, hlen]

/-- **The panics** are at texts of either length that are cut. -/
theorem parse_eq_panic : parse parseXprv input = .panic ↔
    (byteLen (trim input) = 64 ∨ byteLen (trim input) = 128) ∧ Cuts (trim input) := by
  rcases parse_cases parseXprv input with
    ⟨⟨hcuts, -⟩, ⟨xprv, -, h⟩ | ⟨e, h⟩⟩ | ⟨hlen, h⟩ | ⟨hlen, h⟩ | ⟨hlen, hlen', e, h⟩
  · simp [h, hcuts]
  · simp [h, hcuts]
  · rw [h, Outcome.bind_eq_panic, hexDecode_trim (by omega)]
    simp [Outcome.mapError_eq_panic, hexBytes_eq_panic (show byteLen (trim input) % 2 = 0 by omega), hlen]
  · rw [h, Outcome.bind_eq_panic, hexDecode_trim (by omega)]
    simp only [Outcome.mapError_eq_panic, Outcome.mapError_eq_ok,
      hexBytes_eq_panic (show byteLen (trim input) % 2 = 0 by omega),
      hexBytes_eq_ok (show byteLen (trim input) % 2 = 0 by omega)]
    constructor
    · rintro (hcuts | ⟨bs, hbs, hpanic⟩)
      · exact ⟨.inl hlen, hcuts⟩
      · -- 64 characters are 32 bytes, so the length is right
        have hbytes := length_of_reads hbs
        rw [← byteLen_of_reads hbs, hlen] at hbytes
        rw [rawKey, dif_pos (by omega)] at hpanic
        cases hpanic
    · exact fun hcuts => .inl hcuts.2
  · simp [h, hlen, hlen']

theorem parse_eq_extended {xprv : Node} (h : parse parseXprv input = .ok (.extended xprv)) :
    parseXprv (trim input) = .ok xprv := by
  rcases parse_cases parseXprv input with
    ⟨-, ⟨xprv', hxprv, h'⟩ | ⟨e, h'⟩⟩ | ⟨-, h'⟩ | ⟨-, h'⟩ | ⟨-, -, e, h'⟩
  · cases h'.symm.trans h
    exact hxprv
  · cases h'.symm.trans h
  · obtain ⟨seed, -, hseed⟩ := Outcome.bind_eq_ok.mp (h'.symm.trans h)
    cases hseed
  · obtain ⟨bytes, -, hkey⟩ := Outcome.bind_eq_ok.mp (h'.symm.trans h)
    obtain ⟨key, hraw, -⟩ := rawKey_eq_ok.mp hkey
    cases hraw
  · cases h'.symm.trans h

/-- **The kind of a key** is told by its hex digits, for every text but those that are misread. -/
theorem parse_detects_iff (parseXprv : List Char → Except String Node) (input : List Char) :
    Detects parseXprv input ↔ ¬Misread (trim input) := by
  constructor
  · rintro h ⟨hlen, hcuts | ⟨⟨bs, hbs⟩, hplus⟩⟩
    · exact h.no_panic (parse_eq_panic.mpr ⟨hlen, hcuts⟩)
    · rcases hlen with hlen | hlen
      · have hbytes := length_of_reads hbs
        rw [← byteLen_of_reads hbs, hlen] at hbytes
        exact (h.raw_iff.mp ⟨.ofBytes bs (by omega), parse_eq_raw.mpr ⟨hlen, hbs⟩⟩).plus_not_mem hplus
      · exact (h.seed_iff.mp ⟨bs, parse_eq_seed.mpr ⟨hlen, hbs⟩⟩).plus_not_mem hplus
  · intro h
    -- what is read has no plus sign
    have hspells : ∀ {n : ℕ} {bs : Bytes}, n = 64 ∨ n = 128 → byteLen (trim input) = n → Reads (trim input) bs →
        Spells (trim input) bs := by
      intro n bs hn hlen hbs
      refine (reads_iff_spells fun hplus => h ⟨?_, .inr ⟨⟨bs, hbs⟩, hplus⟩⟩).mp hbs
      rwa [hlen]
    refine ⟨?_, ?_, ?_, ?_, ?_, fun xprv => parse_eq_extended⟩
    · intro hpanic
      obtain ⟨hlen, hcuts⟩ := parse_eq_panic.mp hpanic
      exact h ⟨hlen, .inl hcuts⟩
    · constructor
      · rintro ⟨key, hkey⟩
        obtain ⟨hlen, hbs⟩ := parse_eq_raw.mp hkey
        exact hexDigits_of_spells (hspells (.inl rfl) hlen hbs) hlen
      · intro hdigits
        obtain ⟨bs, hbs, hlen⟩ := hdigits.exists_spells (by norm_num)
        have hbytes := length_of_reads hbs.reads
        rw [← byteLen_of_reads hbs.reads, hlen] at hbytes
        exact ⟨.ofBytes bs (by omega), parse_eq_raw.mpr ⟨hlen, hbs.reads⟩⟩
    · constructor
      · rintro ⟨seed, hseed⟩
        obtain ⟨hlen, hbs⟩ := parse_eq_seed.mp hseed
        exact hexDigits_of_spells (hspells (.inr rfl) hlen hbs) hlen
      · intro hdigits
        obtain ⟨bs, hbs, hlen⟩ := hdigits.exists_spells (by norm_num)
        exact ⟨bs, parse_eq_seed.mpr ⟨hlen, hbs.reads⟩⟩
    · intro key hkey
      obtain ⟨hlen, hbs⟩ := parse_eq_raw.mp hkey
      exact hspells (.inl rfl) hlen hbs
    · intro seed hseed
      obtain ⟨hlen, hbs⟩ := parse_eq_seed.mp hseed
      exact hspells (.inr rfl) hlen hbs

end

/-- A plus sign and a digit, 32 times. -/
def plusText : List Char := (List.replicate 32 ['+', '1']).flatten

theorem reads_plusText : Reads plusText (List.replicate 32 1) := hexPairs_eq_some.mp rfl

theorem trim_plusText : trim plusText = plusText := by
  refine trim_eq_self fun c hc => ?_
  obtain ⟨pair, hpair, hc⟩ := List.mem_flatten.mp hc
  rw [List.eq_of_mem_replicate hpair] at hc
  rcases List.mem_pair.mp hc with rfl | rfl
  · decide
  · decide

theorem plus_mem_plusText : '+' ∈ plusText :=
  List.mem_flatten.mpr ⟨['+', '1'], List.mem_replicate.mpr ⟨by norm_num, rfl⟩, List.mem_cons_self⟩

/-- **Not for every text**: this one is taken for a bare key. -/
theorem not_parse_detects :
    ¬∀ (parseXprv : List Char → Except String Unit) (input : List Char), Detects parseXprv input := by
  intro h
  have hraw := (h (fun _ => .error "") plusText).raw_iff
  rw [trim_plusText] at hraw
  have hdigits := hraw.mp ⟨.ofBytes (List.replicate 32 1) List.length_replicate,
    parse_eq_raw.mpr (by rw [trim_plusText]; exact ⟨rfl, reads_plusText⟩)⟩
  exact hdigits.plus_not_mem plus_mem_plusText

end KeyMaterial

end KaspaPqv.VaultCore
