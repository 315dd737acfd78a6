import KaspaPqv.Lib.Decimal
import KaspaPqv.Lib.Options
import KaspaPqv.SlhWallet.Command

/-!
# The arguments

The words behind the name of the program are a command and flags, most of which take a value. A flag may
be given more than once; a value may be any word, and so also one that looks like a flag.

## What is proved

* `parseArgs_words` — settings that are written, in any order and number, are read back, and the last one
  of a kind counts.
* `parseArgs_eq_ok`, `parseArgs_eq_error` — what is read of any words, and what is reported.
-/

namespace KaspaPqv.VaultCli.CommandLine

open KaspaPqv.Lib

/-- The number of addresses that are shown. -/
def DEFAULT_ADDRESS_COUNT : UInt32 := 8

/-- What is said on the command line. -/
structure Args extends SlhWallet.Args where
  command : String
  set : Option String
  mnemonic : Option String
  key : Option String
  keyIndex : Option UInt32
  count : UInt32
  network : Option String
  envFile : Option String
  journal : Option String

/-- What a flag says. -/
inductive Setting where
  | set (name : String)
  | mnemonic (words : String)
  | key (text : String)
  | keyIndex (index : UInt32)
  | count (count : UInt32)
  | network (name : String)
  | envFile (path : String)
  | «to» (address : String)
  | amount (amount : UInt64)
  | fee (fee : UInt64)
  | journal (path : String)
  | yes
  | dryRun

/-- A flag with a number. -/
def numberFlag (word : String) (bound : ℕ) (setting : ℕ → Setting) : Flag String Setting :=
  .valued fun value => ((parseDecimal bound value.toList).mapError fun e => s!"{word}: {e}").map setting

/-- The flag that a word is. -/
def flagOf : String → Option (Flag String Setting)
  | "--set" => some (.valued fun value => .ok (.set value))
  | "--mnemonic" => some (.valued fun value => .ok (.mnemonic value))
  | "--key" => some (.valued fun value => .ok (.key value))
  | "--key-index" => some (numberFlag "--key-index" (2 ^ 32) fun n => .keyIndex (.ofNat n))
  | "--count" => some (numberFlag "--count" (2 ^ 32) fun n => .count (.ofNat n))
  | "--network" => some (.valued fun value => .ok (.network value))
  | "--env-file" => some (.valued fun value => .ok (.envFile value))
  | "--to" => some (.valued fun value => .ok (.«to» value))
  | "--amount" => some (numberFlag "--amount" (2 ^ 64) fun n => .amount (.ofNat n))
  | "--fee" => some (numberFlag "--fee" (2 ^ 64) fun n => .fee (.ofNat n))
  | "--journal" => some (.valued fun value => .ok (.journal value))
  | "--yes" => some (.switch .yes)
  | "--dry-run" => some (.switch .dryRun)
  | _ => none

def flags : Flags String Setting where
  flag := flagOf
  unrecognised other := s!"unrecognised flag: {other}"
  needsValue flag := s!"{flag} needs a value"

/-- Where a setting is noted. -/
def Args.note (parsed : Args) : Setting → Args
  | .set name => { parsed with set := some name }
  | .mnemonic words => { parsed with mnemonic := some words }
  | .key text => { parsed with key := some text }
  | .keyIndex index => { parsed with keyIndex := some index }
  | .count count => { parsed with count }
  | .network name => { parsed with network := some name }
  | .envFile path => { parsed with envFile := some path }
  | .«to» address => { parsed with «to» := some address }
  | .amount amount => { parsed with amount := some amount }
  | .fee fee => { parsed with fee := some fee }
  | .journal path => { parsed with journal := some path }
  | .yes => { parsed with yes := true }
  | .dryRun => { parsed with dryRun := true }

/-- A command with no flags. -/
def Args.plain (command : String) : Args where
  command
  set := none
  mnemonic := none
  key := none
  keyIndex := none
  count := DEFAULT_ADDRESS_COUNT
  network := none
  envFile := none
  «to» := none
  amount := none
  fee := none
  journal := none
  yes := false
  dryRun := false

/-- Read the words behind the name of the program: the command, and flags. -/
def parseArgs (argv : List String) : Except String Args :=
  parseFlags flags Args.note (.plain (argv.head?.getD "help")) argv.tail

/-! ### Lines that are written -/

/-- A number in decimal digits. -/
def decimal (n : ℕ) : String := String.ofList (Nat.toDigits 10 n)

/-- How a setting is written. -/
def Setting.words : Setting → List String
  | .set name => ["--set", name]
  | .mnemonic words => ["--mnemonic", words]
  | .key text => ["--key", text]
  | .keyIndex index => ["--key-index", decimal index.toNat]
  | .count n => ["--count", decimal n.toNat]
  | .network name => ["--network", name]
  | .envFile path => ["--env-file", path]
  | .«to» address => ["--to", address]
  | .amount n => ["--amount", decimal n.toNat]
  | .fee n => ["--fee", decimal n.toNat]
  | .journal path => ["--journal", path]
  | .yes => ["--yes"]
  | .dryRun => ["--dry-run"]

/-- A number that is written. -/
theorem says_number {word : String} {bound : ℕ} {setting : ℕ → Setting}
    (h : flagOf word = some (numberFlag word bound setting)) {n : ℕ} (hn : n < bound) :
    Says flags [word, decimal n] [setting n] := by
  refine .valued h ?_ .nil
  rw [decimal, String.toList_ofList, parseDecimal_toDigits hn]
  rfl

/-- A setting that is written is what its words say. -/
theorem says_setting (setting : Setting) : Says flags setting.words [setting] := by
  cases setting with
  | keyIndex index =>
    have hsays := @says_number "--key-index" _ _ rfl _ index.toNat_lt
    rwa [UInt32.ofNat_toNat] at hsays
  | count n =>
    have hsays := @says_number "--count" _ _ rfl _ n.toNat_lt
    rwa [UInt32.ofNat_toNat] at hsays
  | amount n =>
    have hsays := @says_number "--amount" _ _ rfl _ n.toNat_lt
    rwa [UInt64.ofNat_toNat] at hsays
  | fee n =>
    have hsays := @says_number "--fee" _ _ rfl _ n.toNat_lt
    rwa [UInt64.ofNat_toNat] at hsays
  | set name => exact .valued rfl rfl .nil
  | mnemonic words => exact .valued rfl rfl .nil
  | key text => exact .valued rfl rfl .nil
  | network name => exact .valued rfl rfl .nil
  | envFile path => exact .valued rfl rfl .nil
  | «to» address => exact .valued rfl rfl .nil
  | journal path => exact .valued rfl rfl .nil
  | yes => exact .switch rfl .nil
  | dryRun => exact .switch rfl .nil

/-- **Settings that are written** are what the line says. -/
theorem says_words (settings : List Setting) : Says flags (settings.flatMap Setting.words) settings := by
  induction settings with
  | nil => exact .nil
  | cons setting settings ih => exact (says_setting setting).append ih

/-! ### What the line has said -/

def saidSet : Setting → Option String
  | .set name => some name
  | _ => none

def saidMnemonic : Setting → Option String
  | .mnemonic words => some words
  | _ => none

def saidKey : Setting → Option String
  | .key text => some text
  | _ => none

def saidKeyIndex : Setting → Option UInt32
  | .keyIndex index => some index
  | _ => none

def saidCount : Setting → Option UInt32
  | .count n => some n
  | _ => none

def saidNetwork : Setting → Option String
  | .network name => some name
  | _ => none

def saidEnvFile : Setting → Option String
  | .envFile path => some path
  | _ => none

def saidTo : Setting → Option String
  | .«to» address => some address
  | _ => none

def saidAmount : Setting → Option UInt64
  | .amount n => some n
  | _ => none

def saidFee : Setting → Option UInt64
  | .fee n => some n
  | _ => none

def saidJournal : Setting → Option String
  | .journal path => some path
  | _ => none

def saidYes : Setting → Option Bool
  | .yes => some true
  | _ => none

def saidDryRun : Setting → Option Bool
  | .dryRun => some true
  | _ => none

/-- Every argument is what the last setting of its kind says. -/
structure Args.Told (args : Args) (command : String) (settings : List Setting) : Prop where
  command_eq : args.command = command
  set_eq : args.set = lastSaid saidSet settings
  mnemonic_eq : args.mnemonic = lastSaid saidMnemonic settings
  key_eq : args.key = lastSaid saidKey settings
  keyIndex_eq : args.keyIndex = lastSaid saidKeyIndex settings
  count_eq : args.count = (lastSaid saidCount settings).getD DEFAULT_ADDRESS_COUNT
  network_eq : args.network = lastSaid saidNetwork settings
  envFile_eq : args.envFile = lastSaid saidEnvFile settings
  to_eq : args.«to» = lastSaid saidTo settings
  amount_eq : args.amount = lastSaid saidAmount settings
  fee_eq : args.fee = lastSaid saidFee settings
  journal_eq : args.journal = lastSaid saidJournal settings
  yes_eq : args.yes = (lastSaid saidYes settings).getD false
  dryRun_eq : args.dryRun = (lastSaid saidDryRun settings).getD false

theorem command_foldl (settings : List Setting) (args : Args) :
    (settings.foldl Args.note args).command = args.command := by
  induction settings generalizing args with
  | nil => rfl
  | cons setting settings ih =>
    rw [List.foldl_cons, ih]
    cases setting <;> rfl

/-- An argument that need not be given. -/
theorem foldl_eq_lastSaid {β : Type} (get : Args → Option β) {said : Setting → Option β}
    (h : ∀ args setting, get (args.note setting) = (said setting).or (get args)) {command : String}
    (hplain : get (.plain command) = none) (settings : List Setting) :
    get (settings.foldl Args.note (.plain command)) = lastSaid said settings := by
  rw [foldl_note h, hplain, Option.or_none]

/-- **What all settings leave.** -/
theorem told_foldl (command : String) (settings : List Setting) :
    (settings.foldl Args.note (.plain command)).Told command settings where
  command_eq := command_foldl settings _
  set_eq := foldl_eq_lastSaid Args.set (fun _ setting => by cases setting <;> rfl) rfl settings
  mnemonic_eq := foldl_eq_lastSaid Args.mnemonic (fun _ setting => by cases setting <;> rfl) rfl settings
  key_eq := foldl_eq_lastSaid Args.key (fun _ setting => by cases setting <;> rfl) rfl settings
  keyIndex_eq := foldl_eq_lastSaid Args.keyIndex (fun _ setting => by cases setting <;> rfl) rfl settings
  count_eq := @foldl_note_getD _ _ _ _ Args.count _ (fun _ setting => by cases setting <;> rfl) settings _
  network_eq := foldl_eq_lastSaid Args.network (fun _ setting => by cases setting <;> rfl) rfl settings
  envFile_eq := foldl_eq_lastSaid Args.envFile (fun _ setting => by cases setting <;> rfl) rfl settings
  to_eq := foldl_eq_lastSaid (fun args => args.«to») (fun _ setting => by cases setting <;> rfl) rfl settings
  amount_eq := foldl_eq_lastSaid (fun args => args.amount) (fun _ setting => by cases setting <;> rfl) rfl settings
  fee_eq := foldl_eq_lastSaid (fun args => args.fee) (fun _ setting => by cases setting <;> rfl) rfl settings
  journal_eq := foldl_eq_lastSaid Args.journal (fun _ setting => by cases setting <;> rfl) rfl settings
  yes_eq :=
    @foldl_note_getD _ _ _ _ (fun args : Args => args.yes) _ (fun _ setting => by cases setting <;> rfl) settings _
  dryRun_eq :=
    @foldl_note_getD _ _ _ _ (fun args : Args => args.dryRun) _ (fun _ setting => by cases setting <;> rfl) settings _

/-- **What is written is read back**: any settings, in any order, and the last one of each kind counts. -/
theorem parseArgs_words (command : String) (settings : List Setting) :
    ∃ args, parseArgs (command :: settings.flatMap Setting.words) = .ok args ∧ args.Told command settings :=
  ⟨_, (says_words settings).parseFlags_eq Args.note (.plain command), told_foldl command settings⟩

/-- **What is read**, of any words. -/
theorem parseArgs_eq_ok {argv : List String} {args : Args} (h : parseArgs argv = .ok args) :
    ∃ settings, Says flags argv.tail settings ∧ args.Told (argv.head?.getD "help") settings := by
  obtain ⟨settings, hsays, rfl⟩ := (parseFlags_eq_ok Args.note).mp h
  exact ⟨settings, hsays, told_foldl _ settings⟩

/-- **What is reported** of words that are not accepted: the first flag that is refused. -/
theorem parseArgs_eq_error {argv : List String} {e : String} : parseArgs argv = .error e ↔
    ∃ said settings rest, argv.tail = said ++ rest ∧ Says flags said settings ∧ Refused flags rest e :=
  parseFlags_eq_error Args.note

end KaspaPqv.VaultCli.CommandLine
