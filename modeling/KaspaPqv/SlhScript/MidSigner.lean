import KaspaPqv.SlhScript.Midstate
import KaspaPqv.SlhScript.Sign

/-!
# The signer over its midstate

The hasher of a signer is the midstate of its key, with an assertion on the length of a message.
What a signer does with a hasher that panics on long messages says which messages it hashes.

## What is proved

* `midstate_hashes` — the midstate hashes what its buffer holds as the hash itself does, and this is all
  that a signer asks of it; so the signer over it is the signer.
-/

namespace KaspaPqv.SlhScript.MidSigner

open KaspaPqv.Lib

/-- The hasher on messages up to a length; it panics on longer ones. -/
def upTo (hasher : Hasher Option) (limit : ℕ) : Hasher Option := fun adrs parts =>
  if parts.flatten.length ≤ limit then hasher adrs parts else none

variable {sha256 : Bytes → Block 32} {p : Params} {pkSeed : Hash}

theorem hashes_upTo {hasher : Hasher Option} (h : Hashes sha256 p pkSeed hasher) {limit : ℕ} (hlimit : p.len * N ≤ limit) :
    Hashes sha256 p pkSeed (upTo hasher limit) := by
  intro x hx parts hlen
  rw [upTo, if_pos (hlen.trans hlimit), h x hx parts hlen]

/-- The longest message of a signer fits the buffer. -/
theorem len_le : ∀ p ∈ Params.ALL, p.len * N ≤ 1186 := by decide

variable (compress256 : Words → Bytes → Words)

/-- The midstate of a key. -/
def midOf (pkSeed : Hash) : Midstate := ⟨iterate compress256 64 SHA256_IV (hashPad pkSeed)⟩

theorem hashes_midOf (hlen : p.len * N ≤ 1186) (pkSeed : Hash) :
    Hashes (sha256Of compress256) p pkSeed ((midOf compress256 pkSeed).hash compress256) := by
  intro x _ parts hparts
  have hhash := hash_eq compress256 pkSeed (x.adrs p) (hparts.trans hlen)
  rwa [new_eq, Option.bind_some] at hhash

/-- **The midstate is the plain hasher**: on every message of at most 1186 bytes it hashes
without panicking and as the plain hasher does; and a key of any set, generated and used to
sign any number of times, is generated and signs over its midstate as over the plain hasher,
also if the midstate is cut down to messages of 1186 bytes. -/
theorem midstate_hashes :
    (∀ (pkSeed : Hash) (adrs : Adrs) (parts : List Bytes), parts.flatten.length ≤ 1186 →
      ((Midstate.new compress256 pkSeed).bind fun mid => mid.hash compress256 adrs parts) =
        some (hash (sha256Of compress256) pkSeed adrs parts)) ∧
    ∀ p ∈ Params.ALL, ∀ seeds : SecretSeeds, ∃ mid, Midstate.new compress256 seeds.pkSeed = some mid ∧
      (∃ key, SigningKey.generate (sha256Of compress256) p seeds = some key ∧
        Signer.generate (mid.hash compress256) p seeds = some key ∧
        Signer.generate (upTo (mid.hash compress256) 1186) p seeds = some key) ∧
      ∀ key, Signer.Reachable (sha256Of compress256) (mid.hash compress256) p seeds key → ∀ message : Bytes,
        ∃ signed, key.sign (sha256Of compress256) message = some signed ∧
          Signer.sign (sha256Of compress256) (mid.hash compress256) key message = some signed ∧
          Signer.sign (sha256Of compress256) (upTo (mid.hash compress256) 1186) key message = some signed := by
  refine ⟨fun pkSeed adrs parts hlen => hash_eq compress256 pkSeed adrs hlen, fun p hmem seeds => ?_⟩
  have hp := Params.facts p hmem
  have hmid := hashes_midOf compress256 (len_le p hmem) seeds.pkSeed
  have hcut := hashes_upTo hmid (len_le p hmem)
  refine ⟨midOf compress256 seeds.pkSeed, new_eq compress256 _, ?_, fun key hkey message => ?_⟩
  · exact ⟨_, generate_eq _ (hashes_plain _ p seeds.pkSeed) hp, generate_eq _ hmid hp, generate_eq _ hcut hp⟩
  · have hsound := hkey.sound (sha256Of compress256) hmid hp
    exact ⟨_, sign_eq _ hsound.hashes_plain hp hsound message, sign_eq _ hmid hp hsound message,
      sign_eq _ hcut hp hsound message⟩

end KaspaPqv.SlhScript.MidSigner
