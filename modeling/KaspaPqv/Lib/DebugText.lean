import KaspaPqv.Lib.Delimited
import Mathlib.Tactic.NormNum

/-!
# Texts for the eye

How a text is shown between quotation marks: a few characters have a letter behind a backslash,
others that would not be seen are shown by their numbers, and all the rest stand for themselves.

Which characters beyond ASCII are seen is told by the tables of the Unicode version that the
standard library was made for (`CharTable`). The tables are not asked about ASCII.

## What is proved

* `delimited_escapeDebug` — what is shown of a character tells it, and ends by itself.
* `debugText_inj`, `message_inj` — what is shown of a text tells the text.
* `debugText_of_ascii` — what is shown of an ASCII text does not depend on the tables.
-/

namespace KaspaPqv.Lib

/-- The tables of characters. -/
structure CharTable where
  /-- Neither a control, a format character or a separator, nor unassigned or for private use. -/
  isPrintable : Char → Bool
  /-- The property `Grapheme_Extend`. -/
  isGraphemeExtended : Char → Bool

def doubleQuote : Char := Char.ofNat 34

/-- The letters behind a backslash. -/
def ESCAPES : List (Char × Char) :=
  [(Char.ofNat 0, '0'), ('\t', 't'), ('\r', 'r'), ('\n', 'n'), ('\\', '\\'), (doubleQuote, doubleQuote)]

/-- A character by its number: `u`, and the number in hex between braces. -/
def escapeUnicode (c : Char) : List Char :=
  '\\' :: 'u' :: Char.ofNat 0x7b :: (Nat.toDigits 16 c.toNat ++ [Char.ofNat 0x7d])

/-- Whether a character stands for itself, if it is none of the above. -/
def CharTable.shows (t : CharTable) (c : Char) : Bool :=
  if c.toNat < 128 then 32 ≤ c.toNat && c.toNat < 127
  else !t.isGraphemeExtended c && t.isPrintable c

/-- `char::escape_debug`, as it is used for a text. -/
def escapeDebug (t : CharTable) (c : Char) : List Char :=
  match ESCAPES.lookup c with
  | some letter => ['\\', letter]
  | none => if t.shows c then [c] else escapeUnicode c

/-- A text between quotation marks, as `{:?}` writes it. -/
def debugText (t : CharTable) (s : List Char) : List Char :=
  doubleQuote :: (s.flatMap (escapeDebug t) ++ [doubleQuote])

/-! ### Numbers in hex -/

theorem digitChar_inj : ∀ a < 16, ∀ b < 16, Nat.digitChar a = Nat.digitChar b → a = b := by decide

/-- The last digit, and the others. -/
theorem toDigits_sixteen {n : ℕ} (h : 16 ≤ n) : Nat.toDigits 16 n = Nat.toDigits 16 (n / 16) ++ [Nat.digitChar (n % 16)] :=
  Nat.toDigits_of_base_le (by norm_num) h

theorem exists_digit {n : ℕ} {c : Char} (hc : c ∈ Nat.toDigits 16 n) : ∃ d < 16, Nat.digitChar d = c := by
  induction n using Nat.strongRecOn with
  | ind n ih =>
    rcases Nat.lt_or_ge n 16 with hlt | hge
    · rw [Nat.toDigits_of_lt_base hlt, List.mem_singleton] at hc
      exact ⟨n, hlt, hc.symm⟩
    · rw [toDigits_sixteen hge, List.mem_append, List.mem_singleton] at hc
      rcases hc with hc | rfl
      · exact ih (n / 16) (by omega) hc
      · exact ⟨n % 16, Nat.mod_lt _ (by norm_num), rfl⟩

theorem toDigits_inj {m n : ℕ} (h : Nat.toDigits 16 m = Nat.toDigits 16 n) : m = n := by
  induction m using Nat.strongRecOn generalizing n with
  | ind m ih =>
    rcases Nat.lt_or_ge m 16 with hm | hm
    · rw [Nat.toDigits_of_lt_base hm] at h
      rcases Nat.lt_or_ge n 16 with hn | hn
      · rw [Nat.toDigits_of_lt_base hn] at h
        exact digitChar_inj m hm n hn (List.cons.inj h).1
      · rw [toDigits_sixteen hn] at h
        exact absurd (List.append_eq_singleton_iff.mp h.symm) (by simp)
    · rw [toDigits_sixteen hm] at h
      rcases Nat.lt_or_ge n 16 with hn | hn
      · rw [Nat.toDigits_of_lt_base hn] at h
        exact absurd (List.append_eq_singleton_iff.mp h) (by simp)
      · rw [toDigits_sixteen hn] at h
        obtain ⟨hrest, hlast⟩ := List.append_inj' h rfl
        have hdiv := ih (m / 16) (by omega) hrest
        have hmod := digitChar_inj _ (Nat.mod_lt m (by norm_num)) _ (Nat.mod_lt n (by norm_num)) (List.cons.inj hlast).1
        omega

theorem brace_not_mem_toDigits (n : ℕ) : ∀ c ∈ Nat.toDigits 16 n, c ≠ Char.ofNat 0x7d := by
  intro c hc
  obtain ⟨d, hd, rfl⟩ := exists_digit hc
  exact (by decide : ∀ d < 16, Nat.digitChar d ≠ Char.ofNat 0x7d) d hd

/-! ### What is shown tells the text -/

variable {t t' : CharTable} {c c' : Char} {s s' : List Char}

/-- **What is shown of a character.** -/
theorem escapeDebug_cases (t : CharTable) (c : Char) :
    (∃ letter, (c, letter) ∈ ESCAPES ∧ escapeDebug t c = ['\\', letter]) ∨
      (c ≠ '\\' ∧ c ≠ doubleQuote ∧ escapeDebug t c = [c]) ∨ escapeDebug t c = escapeUnicode c := by
  unfold escapeDebug
  cases hlookup : ESCAPES.lookup c with
  | some letter =>
    obtain ⟨before, after, htable, -⟩ := List.lookup_eq_some_iff.mp hlookup
    exact .inl ⟨letter, by rw [htable]; simp, rfl⟩
  | none =>
    have hnone := List.lookup_eq_none_iff.mp hlookup
    simp only [bne_iff_ne, ne_eq] at hnone
    by_cases hshows : t.shows c = true
    · refine .inr (.inl ⟨hnone ('\\', '\\') (by decide), hnone (doubleQuote, doubleQuote) (by decide), ?_⟩)
      simp [hshows]
    · exact .inr (.inr (by simp [hshows]))

theorem escapeUnicode_inj {r r' : List Char} (h : escapeUnicode c ++ r = escapeUnicode c' ++ r') : c = c' ∧ r = r' := by
  have hmarked : Delimited (fun xs : List Char => ∀ x ∈ xs, x ≠ Char.ofNat 0x7d)
      fun xs => xs.flatMap (fun x => [x]) ++ [Char.ofNat 0x7d] := by
    refine Delimited.marked (fun x y _ _ r r' h => ?_) fun x hx => ⟨x, [], rfl, hx⟩
    exact List.cons.inj h
  simp only [escapeUnicode, List.cons_append, List.cons.injEq, true_and] at h
  simp only [List.flatMap_singleton'] at hmarked
  obtain ⟨hdigits, hrest⟩ := hmarked (brace_not_mem_toDigits _) (brace_not_mem_toDigits _) h
  exact ⟨Char.toNat_inj.mp (toDigits_inj hdigits), hrest⟩

/-- **What is shown of a character** tells it, and where the next one begins. -/
theorem delimited_escapeDebug (t : CharTable) : Delimited (fun _ => True) (escapeDebug t) := by
  intro c c' _ _ r r' h
  have hletters : ∀ p ∈ ESCAPES, ∀ q ∈ ESCAPES, p.2 = q.2 → p.1 = q.1 := by decide
  have hunicode : ∀ p ∈ ESCAPES, p.2 ≠ 'u' := by decide
  rcases escapeDebug_cases t c with ⟨l, hl, hc⟩ | ⟨hc, -, hplain⟩ | hc
  · rcases escapeDebug_cases t c' with ⟨l', hl', hc'⟩ | ⟨hc', -, hplain'⟩ | hc'
    · rw [hc, hc'] at h
      simp only [List.cons_append, List.nil_append, List.cons.injEq, true_and] at h
      exact ⟨hletters _ hl _ hl' h.1, h.2⟩
    · rw [hc, hplain'] at h
      exact absurd (List.cons.inj h).1.symm hc'
    · rw [hc, hc'] at h
      exact absurd (List.cons.inj (List.cons.inj h).2).1 (hunicode _ hl)
  · rcases escapeDebug_cases t c' with ⟨l', hl', hc'⟩ | ⟨hc', -, hplain'⟩ | hc'
    · rw [hplain, hc'] at h
      exact absurd (List.cons.inj h).1 hc
    · rw [hplain, hplain'] at h
      exact List.cons.inj h
    · rw [hplain, hc'] at h
      exact absurd (List.cons.inj h).1 hc
  · rcases escapeDebug_cases t c' with ⟨l', hl', hc'⟩ | ⟨hc', -, hplain'⟩ | hc'
    · rw [hc, hc'] at h
      exact absurd (List.cons.inj (List.cons.inj h).2).1.symm (hunicode _ hl')
    · rw [hc, hplain'] at h
      exact absurd (List.cons.inj h).1.symm hc'
    · rw [hc, hc'] at h
      exact escapeUnicode_inj h

/-- **What is shown of a text tells the text.** -/
theorem debugText_inj (h : debugText t s = debugText t s') : s = s' := by
  have hmarked : Delimited (fun xs : List Char => ∀ c ∈ xs, True)
      fun xs => xs.flatMap (escapeDebug t) ++ [doubleQuote] := by
    refine (delimited_escapeDebug t).marked fun c _ => ?_
    rcases escapeDebug_cases t c with ⟨l, -, hc⟩ | ⟨-, hne, hc⟩ | hc
    · exact ⟨_, _, hc, by decide⟩
    · exact ⟨_, _, hc, hne⟩
    · exact ⟨_, _, hc, by decide⟩
  exact hmarked.injective (fun _ _ => trivial) (fun _ _ => trivial) (List.cons.inj h).2

/-- A message that ends in what is shown of a text tells the text. -/
theorem message_inj {message : String}
    (h : message ++ String.ofList (debugText t s) = message ++ String.ofList (debugText t s')) : s = s' := by
  have htext := congrArg String.toList h
  simp only [String.toList_append, String.toList_ofList] at htext
  exact debugText_inj (List.append_cancel_left htext)

/-- **Of an ASCII text** the tables are not asked. -/
theorem debugText_of_ascii (h : ∀ c ∈ s, c.toNat < 128) : debugText t s = debugText t' s := by
  have hchar : ∀ c ∈ s, escapeDebug t c = escapeDebug t' c := by
    intro c hc
    simp only [escapeDebug, CharTable.shows, if_pos (h c hc)]
  rw [debugText, debugText, List.flatMap_congr hchar]

/-- A carriage return and a delete are seen. -/
example (t : CharTable) : debugText t ['a', '\r', Char.ofNat 127] =
    [doubleQuote, 'a', '\\', 'r', '\\', 'u', Char.ofNat 0x7b, '7', 'f', Char.ofNat 0x7d, doubleQuote] := by
  have hascii : ∀ c ∈ ['a', '\r', Char.ofNat 127], c.toNat < 128 := by
    intro c hc
    simp only [List.mem_cons, List.not_mem_nil, or_false] at hc
    rcases hc with rfl | rfl | rfl <;> decide
  rw [@debugText_of_ascii t ⟨fun _ => true, fun _ => false⟩ _ hascii]
  rfl

end KaspaPqv.Lib
