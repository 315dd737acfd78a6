import KaspaPqv.Lib.Fallible
import Mathlib.Data.List.Basic

/-!
# Command lines

A command line is a list of words. A flag is a word that is a setting by itself, or that is one together
with the word behind it, whatever that is. Settings are noted one after the other, so that of two
settings of one thing the later one counts.

## What is proved

* `parseFlags_eq_ok` — which lines are accepted, and what they say.
* `parseFlags_eq_error` — what is reported of any other line: the first flag that is refused.
* `foldl_note` — the last setting of a thing counts.
-/

namespace KaspaPqv.Lib

/-- What a flag is. -/
inductive Flag (ε α : Type) where
  /-- A setting. -/
  | switch (a : α)
  /-- A setting together with the next word. -/
  | valued (read : String → Except ε α)

/-- The flags that are known, and what is said of a word that is not accepted. -/
structure Flags (ε α : Type) where
  flag : String → Option (Flag ε α)
  unrecognised : String → ε
  needsValue : String → ε

variable {ε α β σ : Type} (flags : Flags ε α) (note : σ → α → σ)

/-- The loop over the words. -/
def parseFlags (parsed : σ) : List String → Except ε σ
  | [] => .ok parsed
  | word :: words =>
    match flags.flag word with
    | none => .error (flags.unrecognised word)
    | some (.switch a) => parseFlags (note parsed a) words
    | some (.valued read) =>
      match words with
      | [] => .error (flags.needsValue word)
      | value :: words =>
        match read value with
        | .error e => .error e
        | .ok a => parseFlags (note parsed a) words

/-- The settings that a line says. -/
inductive Says : List String → List α → Prop where
  | nil : Says [] []
  | switch {word : String} {words : List String} {a : α} {as : List α} (h : flags.flag word = some (.switch a)) :
    Says words as → Says (word :: words) (a :: as)
  | valued {word value : String} {words : List String} {read : String → Except ε α} {a : α} {as : List α}
    (h : flags.flag word = some (.valued read)) (hread : read value = .ok a) :
    Says words as → Says (word :: value :: words) (a :: as)

/-- The first flag of a line is refused. -/
inductive Refused : List String → ε → Prop where
  | unrecognised {word : String} {words : List String} (h : flags.flag word = none) :
    Refused (word :: words) (flags.unrecognised word)
  | needsValue {word : String} {read : String → Except ε α} (h : flags.flag word = some (.valued read)) :
    Refused [word] (flags.needsValue word)
  | unreadable {word value : String} {words : List String} {read : String → Except ε α} {e : ε}
    (h : flags.flag word = some (.valued read)) (hread : read value = .error e) : Refused (word :: value :: words) e

variable {flags}

theorem Says.append {words words' : List String} {as as' : List α} (h : Says flags words as)
    (h' : Says flags words' as') : Says flags (words ++ words') (as ++ as') := by
  induction h with
  | nil => exact h'
  | switch hflag _ ih => exact .switch hflag ih
  | valued hflag hread _ ih => exact .valued hflag hread ih

/-- A line is accepted up to where it says something. -/
theorem Says.parseFlags_append {words : List String} {as : List α} (h : Says flags words as) (rest : List String)
    (parsed : σ) : parseFlags flags note parsed (words ++ rest) = parseFlags flags note (as.foldl note parsed) rest := by
  induction h generalizing parsed with
  | nil => rfl
  | switch hflag _ ih =>
    rw [List.cons_append, parseFlags, hflag]
    exact ih _
  | valued hflag hread _ ih =>
    rw [List.cons_append, List.cons_append, parseFlags, hflag]
    simp only [hread]
    exact ih _

theorem Refused.parseFlags_eq {words : List String} {e : ε} (h : Refused flags words e) (parsed : σ) :
    parseFlags flags note parsed words = .error e := by
  cases h with
  | unrecognised hflag => rw [parseFlags, hflag]
  | needsValue hflag => rw [parseFlags, hflag]
  | unreadable hflag hread =>
    rw [parseFlags, hflag]
    simp only [hread]

variable (flags) in
/-- **A line says something**, up to its end or to a flag that is refused. -/
theorem says_or_refused (words : List String) : (∃ as, Says flags words as) ∨
    ∃ said as rest e, words = said ++ rest ∧ Says flags said as ∧ Refused flags rest e := by
  -- a flag with a value takes two words at a time
  induction hn : words.length using Nat.strongRecOn generalizing words with
  | ind n ih =>
    cases words with
    | nil => exact .inl ⟨[], .nil⟩
    | cons word words =>
      cases hflag : flags.flag word with
      | none => exact .inr ⟨[], [], _, _, rfl, .nil, .unrecognised hflag⟩
      | some f =>
        cases f with
        | switch a =>
          rcases ih words.length (hn ▸ Nat.lt_succ_self _) words rfl with ⟨as, has⟩ | ⟨said, as, rest, e, rfl, has, he⟩
          · exact .inl ⟨a :: as, .switch hflag has⟩
          · exact .inr ⟨word :: said, a :: as, rest, e, rfl, .switch hflag has, he⟩
        | valued read =>
          cases words with
          | nil => exact .inr ⟨[], [], _, _, rfl, .nil, .needsValue hflag⟩
          | cons value words =>
            cases hread : read value with
            | error e => exact .inr ⟨[], [], _, e, rfl, .nil, .unreadable hflag hread⟩
            | ok a =>
              have hlt : words.length < n := by
                rw [← hn, List.length_cons, List.length_cons]
                omega
              rcases ih words.length hlt words rfl with ⟨as, has⟩ | ⟨said, as, rest, e, rfl, has, he⟩
              · exact .inl ⟨a :: as, .valued hflag hread has⟩
              · exact .inr ⟨word :: value :: said, a :: as, rest, e, rfl, .valued hflag hread has, he⟩

theorem Says.parseFlags_eq {words : List String} {as : List α} (h : Says flags words as) (parsed : σ) :
    parseFlags flags note parsed words = .ok (as.foldl note parsed) := by
  have hall := h.parseFlags_append note [] parsed
  rwa [List.append_nil, parseFlags] at hall

/-- **Which lines are accepted**: those that say something to their end. -/
theorem parseFlags_eq_ok {parsed s : σ} {words : List String} : parseFlags flags note parsed words = .ok s ↔
    ∃ as, Says flags words as ∧ s = as.foldl note parsed := by
  constructor
  · intro h
    rcases says_or_refused flags words with ⟨as, has⟩ | ⟨said, as, rest, e, rfl, has, he⟩
    · exact ⟨as, has, Except.ok.inj (h.symm.trans (has.parseFlags_eq note parsed))⟩
    · rw [has.parseFlags_append, he.parseFlags_eq] at h
      cases h
  · rintro ⟨as, has, rfl⟩
    exact has.parseFlags_eq note parsed

/-- **What is reported of a line**: the first flag that is refused. -/
theorem parseFlags_eq_error {parsed : σ} {words : List String} {e : ε} : parseFlags flags note parsed words = .error e ↔
    ∃ said as rest, words = said ++ rest ∧ Says flags said as ∧ Refused flags rest e := by
  constructor
  · intro h
    rcases says_or_refused flags words with ⟨as, has⟩ | ⟨said, as, rest, e', rfl, has, he⟩
    · rw [has.parseFlags_eq] at h
      cases h
    · rw [has.parseFlags_append, he.parseFlags_eq] at h
      exact ⟨said, as, rest, rfl, has, Except.error.inj h ▸ he⟩
  · rintro ⟨said, as, rest, rfl, has, he⟩
    rw [has.parseFlags_append, he.parseFlags_eq]

/-! ### Later settings -/

/-- What the last setting of a thing says of it. -/
def lastSaid (said : α → Option β) (as : List α) : Option β := as.reverse.findSome? said

theorem lastSaid_cons (said : α → Option β) (a : α) (as : List α) :
    lastSaid said (a :: as) = (lastSaid said as).or (said a) := by
  rw [lastSaid, List.reverse_cons, List.findSome?_append]
  simp [lastSaid]

variable {note} in
/-- **The last setting counts**, and if there is none, what was there before. -/
theorem foldl_note {get : σ → Option β} {said : α → Option β} (h : ∀ s a, get (note s a) = (said a).or (get s))
    (as : List α) (s : σ) : get (as.foldl note s) = (lastSaid said as).or (get s) := by
  induction as generalizing s with
  | nil => rfl
  | cons a as ih => rw [List.foldl_cons, ih, h, lastSaid_cons, Option.or_assoc]

variable {note} in
/-- The same of a thing that there always is. -/
theorem foldl_note_getD {get : σ → β} {said : α → Option β} (h : ∀ s a, get (note s a) = (said a).getD (get s))
    (as : List α) (s : σ) : get (as.foldl note s) = (lastSaid said as).getD (get s) := by
  induction as generalizing s with
  | nil => rfl
  | cons a as ih =>
    rw [List.foldl_cons, ih, h, lastSaid_cons]
    cases lastSaid said as <;> rfl

end KaspaPqv.Lib
