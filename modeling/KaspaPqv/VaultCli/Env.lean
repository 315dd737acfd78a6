import KaspaPqv.Lib.DebugText
import KaspaPqv.LmsWallet.Journal

/-!
# The settings file

A file of lines `NAME=value`. Blank lines and comments are skipped; any other line that is no
assignment is an error, and not passed over, since a slip in a file that holds a key should be
reported. Of several assignments to a name the last one counts. A value may stand in quotation
marks, which are taken off; there is no escaping, so a quoted value may hold quotation marks.

A variable that is set in the process, and not empty, comes before the file.

## What is proved

* `parse_eq_ok`, `parse_eq_error` — which texts are read, as what, and which line is reported.
* `parse_render` — what is written in quotation marks is read back.
* `get_eq_some` — where a value comes from.
-/

namespace KaspaPqv.VaultCli

open KaspaPqv.Lib
open LmsWallet (lines stripCr)

/-! ### Pieces of text -/

/-- `str::split_once` at a character. -/
def splitOnce (sep : Char) : List Char → Option (List Char × List Char)
  | [] => none
  | c :: s => if c = sep then some ([], s) else (splitOnce sep s).map fun p => (c :: p.1, p.2)

/-- `str::trim_start_matches`: the pattern is taken off as often as it is there. -/
def trimStartMatches (pattern s : List Char) : List Char :=
  if pattern ≠ [] ∧ pattern <+: s then trimStartMatches pattern (s.drop pattern.length) else s
termination_by s.length
decreasing_by
  rename_i h
  have hpos := List.length_pos_of_ne_nil h.1
  have hle := h.2.length_le
  rw [List.length_drop]
  omega

/-- `strip_prefix` and then `strip_suffix` of one character. -/
def stripBoth (mark : Char) : List Char → Option (List Char)
  | [] => none
  | c :: s => if c = mark ∧ s.getLast? = some mark then some s.dropLast else none

def singleQuote : Char := Char.ofNat 39

/-- A value without its quotation marks. -/
def unquote (value : List Char) : List Char :=
  ((stripBoth doubleQuote value).or (stripBoth singleQuote value)).getD value

theorem splitOnce_append {sep : Char} {a : List Char} (h : sep ∉ a) (s : List Char) :
    splitOnce sep (a ++ sep :: s) = some (a, s) := by
  induction a with
  | nil => simp [splitOnce]
  | cons c a ih =>
    simp only [List.mem_cons, not_or] at h
    rw [List.cons_append, splitOnce, if_neg (Ne.symm h.1), ih h.2]
    rfl

theorem trimStartMatches_of_not_prefix {pattern s : List Char} (h : ¬pattern <+: s) : trimStartMatches pattern s = s := by
  rw [trimStartMatches, if_neg fun hs => h hs.2]

/-- A quoted value is what stands between the quotation marks, whatever it is. -/
theorem unquote_quoted (value : List Char) : unquote (doubleQuote :: value ++ [doubleQuote]) = value := by
  simp [unquote, stripBoth]

/-- A text that begins and ends with no white space is not trimmed. -/
theorem trim_of_ends {c d : Char} {s : List Char} (hc : isWhitespace c = false) (hd : isWhitespace d = false) :
    trim (c :: s ++ [d]) = c :: s ++ [d] := by
  rw [trim, List.cons_append, List.dropWhile_cons_of_neg (by simp [hc]), ← List.cons_append,
    List.rdropWhile_concat_neg _ _ _ (by simp [hd])]

/-! ### The lines -/

/-- What a line says. -/
inductive Reading where
  /-- Nothing, or a comment. -/
  | skip
  | assign (name value : List Char)
  | notAssignment
  | emptyName

/-- Read a line. -/
def readLine (raw : List Char) : Reading :=
  let line := trim raw
  if line = [] ∨ line.head? = some '#' then .skip
  else match splitOnce '=' line with
    | none => .notAssignment
    | some (name, value) =>
      let name := trim (trimStartMatches "export ".toList (trim name))
      if name = [] then .emptyName else .assign name (unquote (trim value))

/-- The values of the file, under their names. -/
abbrev EnvValues := List Char → Option (List Char)

/-- The complaint about a line that is no assignment. -/
def expectedAssignment (chars : CharTable) (path : String) (number : ℕ) (raw : List Char) : String :=
  s!"{path}:{number}: expected NAME=value, found " ++ String.ofList (debugText chars raw)

/-- The complaint about an assignment to nothing. -/
def emptyVariableName (path : String) (number : ℕ) : String := s!"{path}:{number}: empty variable name"

/-- One turn of the loop over the lines, which are counted from zero, and reported from one. -/
def noteLine (chars : CharTable) (path : String) (values : EnvValues) (line : List Char × ℕ) :
    Except String EnvValues :=
  let (raw, number) := line
  match readLine raw with
  | .skip => .ok values
  | .assign name value => .ok (Function.update values name (some value))
  | .notAssignment => .error (expectedAssignment chars path (number + 1) raw)
  | .emptyName => .error (emptyVariableName path (number + 1))

/-- Read the text of a file. -/
def parse (chars : CharTable) (text : List Char) (path : String) : Except String EnvValues :=
  (lines text).zipIdx.foldlM (noteLine chars path) fun _ => none

/-- A line that is read. -/
def Readable (raw : List Char) : Prop := readLine raw ≠ .notAssignment ∧ readLine raw ≠ .emptyName

variable {chars : CharTable}

/-- What a line assigns to a name. -/
def assigned (name raw : List Char) : Option (List Char) :=
  match readLine raw with
  | .assign name' value => if name = name' then some value else none
  | _ => none

/-- What the last line that assigns something to a name assigns to it. -/
def lastAssigned (name : List Char) (ls : List (List Char)) : Option (List Char) :=
  ls.reverse.findSome? (assigned name)

theorem lastAssigned_cons (name raw : List Char) (ls : List (List Char)) :
    lastAssigned name (raw :: ls) = (lastAssigned name ls).or (assigned name raw) := by
  rw [lastAssigned, List.reverse_cons, List.findSome?_append]
  simp [lastAssigned]

/-- **One line** that is read: what it assigns takes the place of what was there. -/
theorem noteLine_eq_ok {path : String} {values values' : EnvValues} {raw : List Char} {number : ℕ} :
    noteLine chars path values (raw, number) = .ok values' ↔
      Readable raw ∧ values' = fun name => (assigned name raw).or (values name) := by
  cases hread : readLine raw with
  | skip => simp [noteLine, Readable, assigned, hread, eq_comm]
  | notAssignment => simp [noteLine, Readable, hread]
  | emptyName => simp [noteLine, Readable, hread]
  | assign name value =>
    have hupdate : Function.update values name (some value) =
        fun n => (if n = name then some value else none).or (values n) := by
      funext n
      by_cases hn : n = name
      · subst hn
        simp
      · simp [hn]
    simp [noteLine, Readable, assigned, hread, hupdate, eq_comm]

/-- The loop, from any line and any values. -/
theorem foldlM_noteLine_eq_ok {path : String} (ls : List (List Char)) (number : ℕ) {values values' : EnvValues} :
    (ls.zipIdx number).foldlM (noteLine chars path) values = .ok values' ↔
      (∀ raw ∈ ls, Readable raw) ∧ values' = fun name => (lastAssigned name ls).or (values name) := by
  induction ls generalizing number values with
  | nil => simp [lastAssigned, pure, Except.pure, eq_comm]
  | cons raw ls ih =>
    rw [List.zipIdx_cons, List.foldlM_cons, bind_eq_ok, List.forall_mem_cons]
    simp only [noteLine_eq_ok, ih, lastAssigned_cons]
    constructor
    · rintro ⟨values₁, ⟨hraw, rfl⟩, hls, rfl⟩
      exact ⟨⟨hraw, hls⟩, funext fun name => Option.or_assoc.symm⟩
    · rintro ⟨⟨hraw, hls⟩, rfl⟩
      exact ⟨_, ⟨hraw, rfl⟩, hls, funext fun name => Option.or_assoc⟩

/-- **Which texts are read, and as what.** -/
theorem parse_eq_ok {text : List Char} {path : String} {values : EnvValues} :
    parse chars text path = .ok values ↔
      (∀ raw ∈ lines text, Readable raw) ∧ values = fun name => lastAssigned name (lines text) := by
  rw [parse, foldlM_noteLine_eq_ok]
  simp only [Option.or_none]

/-- What is said of a line that is not read. -/
def complaint (chars : CharTable) (path : String) (number : ℕ) (raw : List Char) : String :=
  match readLine raw with
  | .emptyName => emptyVariableName path number
  | _ => expectedAssignment chars path number raw

/-- The complaint shows the line. -/
theorem expectedAssignment_inj {path : String} {number : ℕ} {raw raw' : List Char}
    (h : expectedAssignment chars path number raw = expectedAssignment chars path number raw') : raw = raw' := by
  unfold expectedAssignment at h
  exact message_inj h

theorem noteLine_of_not_readable (path : String) (values : EnvValues) {raw : List Char} (number : ℕ)
    (h : ¬Readable raw) : noteLine chars path values (raw, number) = .error (complaint chars path (number + 1) raw) := by
  unfold Readable at h
  cases hread : readLine raw with
  | skip => simp [hread] at h
  | assign name value => simp [hread] at h
  | notAssignment => simp [noteLine, complaint, hread]
  | emptyName => simp [noteLine, complaint, hread]

/-- The loop fails at the first line that is not read. -/
theorem foldlM_noteLine_eq_error {path : String} (ls : List (List Char)) (number : ℕ) (values : EnvValues) {e : String} :
    (ls.zipIdx number).foldlM (noteLine chars path) values = .error e ↔
      ∃ before raw after, ls = before ++ raw :: after ∧ (∀ l ∈ before, Readable l) ∧ ¬Readable raw ∧
        e = complaint chars path (number + before.length + 1) raw := by
  induction ls generalizing number values with
  | nil => simp [pure, Except.pure]
  | cons l ls ih =>
    rw [List.zipIdx_cons, List.foldlM_cons]
    by_cases hl : Readable l
    · obtain ⟨values', hok⟩ : ∃ values', noteLine chars path values (l, number) = .ok values' :=
        ⟨_, noteLine_eq_ok.mpr ⟨hl, rfl⟩⟩
      have hrest : (noteLine chars path values (l, number) >>= fun s => (ls.zipIdx (number + 1)).foldlM (noteLine chars path) s) =
          (ls.zipIdx (number + 1)).foldlM (noteLine chars path) values' := by
        rw [hok]
        rfl
      have hcount (before : List (List Char)) : number + (before.length + 1) = number + 1 + before.length := by omega
      rw [hrest, ih]
      constructor
      · rintro ⟨before, raw, after, rfl, hbefore, hraw, rfl⟩
        refine ⟨l :: before, raw, after, rfl, List.forall_mem_cons.mpr ⟨hl, hbefore⟩, hraw, ?_⟩
        rw [List.length_cons, hcount]
      · rintro ⟨before, raw, after, hsplit, hbefore, hraw, rfl⟩
        cases before with
        | nil =>
          obtain ⟨rfl, -⟩ := List.cons.inj hsplit
          exact absurd hl hraw
        | cons l' before =>
          obtain ⟨rfl, rfl⟩ := List.cons.inj hsplit
          refine ⟨before, raw, after, rfl, (List.forall_mem_cons.mp hbefore).2, hraw, ?_⟩
          rw [List.length_cons, hcount]
    · have hfail : (noteLine chars path values (l, number) >>= fun s => (ls.zipIdx (number + 1)).foldlM (noteLine chars path) s) =
          .error (complaint chars path (number + 1) l) := by
        rw [noteLine_of_not_readable path values number hl]
        rfl
      rw [hfail]
      constructor
      · intro he
        exact ⟨[], l, ls, rfl, by simp, hl, (Except.error.inj he).symm⟩
      · rintro ⟨before, raw, after, hsplit, hbefore, hraw, rfl⟩
        cases before with
        | nil =>
          obtain ⟨rfl, -⟩ := List.cons.inj hsplit
          rfl
        | cons l' before =>
          obtain ⟨rfl, -⟩ := List.cons.inj hsplit
          exact absurd ((List.forall_mem_cons.mp hbefore).1) hl

/-- **Which line is reported**: the first one that is not read, counted from one. -/
theorem parse_eq_error {text : List Char} {path e : String} : parse chars text path = .error e ↔
    ∃ before raw after, lines text = before ++ raw :: after ∧ (∀ l ∈ before, Readable l) ∧ ¬Readable raw ∧
      e = complaint chars path (before.length + 1) raw := by
  rw [parse, foldlM_noteLine_eq_error]
  simp only [Nat.zero_add]

/-- A line with a carriage return in it. -/
example (chars : CharTable) : parse chars ['a', '\r', 'b'] ".env" =
    .error (".env:1: expected NAME=value, found " ++ String.ofList [doubleQuote, 'a', '\\', 'r', 'b', doubleQuote]) := rfl

/-! ### Writing -/

/-- An assignment, with the value in quotation marks. -/
def assignment (name value : List Char) : List Char := name ++ '=' :: (doubleQuote :: value ++ [doubleQuote])

/-- A file of assignments, one to a line. -/
def render (assignments : List (List Char × List Char)) : List Char :=
  (assignments.map fun p => assignment p.1 p.2).flatMap (· ++ ['\n'])

/-- A name that is read as itself. -/
structure PlainName (name : List Char) : Prop where
  ne_nil : name ≠ []
  trimmed : trim name = name
  no_equals : '=' ∉ name
  no_newline : '\n' ∉ name
  no_comment : name.head? ≠ some '#'
  no_export : ¬"export ".toList <+: name

theorem isWhitespace_head {c : Char} {s : List Char} (h : trim (c :: s) = c :: s) : isWhitespace c = false := by
  have hdrop := dropWhile_trim (c :: s)
  rw [h] at hdrop
  by_contra hc
  rw [List.dropWhile_cons_of_pos (by simpa using hc)] at hdrop
  have hlen := congrArg List.length hdrop
  have hle := (List.dropWhile_sublist isWhitespace (l := s)).length_le
  rw [List.length_cons] at hlen
  omega

/-- **An assignment is read** as what was written, whatever the value. -/
theorem readLine_assignment {name : List Char} (h : PlainName name) (value : List Char) :
    readLine (assignment name value) = .assign name value := by
  have hquote : isWhitespace doubleQuote = false := by decide
  have hvalue : trim (doubleQuote :: value ++ [doubleQuote]) = doubleQuote :: value ++ [doubleQuote] :=
    trim_of_ends hquote hquote
  have hline : trim (assignment name value) = assignment name value := by
    obtain ⟨c, s, hname⟩ := List.exists_cons_of_ne_nil h.ne_nil
    have hc : isWhitespace c = false := isWhitespace_head (hname ▸ h.trimmed)
    have hsplit : assignment name value = c :: (s ++ '=' :: doubleQuote :: value) ++ [doubleQuote] := by
      rw [assignment, hname]
      simp
    rw [hsplit]
    exact trim_of_ends hc hquote
  have hsome : ¬(assignment name value = [] ∨ (assignment name value).head? = some '#') := by
    rintro (hnil | hcomment)
    · exact h.ne_nil (List.append_eq_nil_iff.mp hnil).1
    · rw [assignment, List.head?_append_of_ne_nil _ h.ne_nil] at hcomment
      exact h.no_comment hcomment
  unfold readLine
  simp only [hline, if_neg hsome]
  simp only [assignment, splitOnce_append h.no_equals, h.trimmed, trimStartMatches_of_not_prefix h.no_export,
    if_neg h.ne_nil, hvalue, unquote_quoted]

/-- Lines that are written are read. -/
theorem lines_flatMap {ls : List (List Char)} (h : ∀ l ∈ ls, '\n' ∉ l ∧ l.getLast? ≠ some '\r') :
    lines (ls.flatMap (· ++ ['\n'])) = ls := by
  have hread : complete '\n' (ls.flatMap (· ++ ['\n'])) = ls ∧ pending '\n' (ls.flatMap (· ++ ['\n'])) = [] := by
    induction ls using List.reverseRecOn with
    | nil => exact ⟨rfl, rfl⟩
    | append_singleton ls l ih =>
      obtain ⟨hcomplete, hpending⟩ := ih fun l' hl' => h l' (List.mem_append_left _ hl')
      have hl := (h l (by simp)).1
      rw [List.flatMap_append, List.flatMap_singleton, complete_append_line hl, pending_append_line hl, hcomplete,
        hpending]
      exact ⟨rfl, rfl⟩
  rw [lines, hread.1, hread.2, if_pos rfl, List.append_nil]
  exact (List.map_congr_left fun l hl => if_neg (h l hl).2).trans (List.map_id' ls)

theorem findSome?_eq {α β : Type} {f : α → Option β} {p : α → Prop} [DecidablePred p] {g : α → β} {l : List α}
    (h : ∀ x ∈ l, f x = if p x then some (g x) else none) :
    l.findSome? f = (l.find? fun x => p x).map g := by
  induction l with
  | nil => rfl
  | cons x l ih =>
    obtain ⟨hx, hl⟩ := List.forall_mem_cons.mp h
    rw [List.findSome?_cons, List.find?_cons, hx]
    by_cases hp : p x
    · simp [hp]
    · simp [hp, ih hl]

/-- **What is written is read back**: of each name the last value. -/
theorem parse_render {assignments : List (List Char × List Char)}
    (h : ∀ p ∈ assignments, PlainName p.1 ∧ '\n' ∉ p.2) (path : String) :
    parse chars (render assignments) path =
      .ok fun name => (assignments.reverse.find? fun p => name = p.1).map Prod.snd := by
  have hlines : lines (render assignments) = assignments.map fun p => assignment p.1 p.2 := by
    refine lines_flatMap fun l hl => ?_
    obtain ⟨p, hp, rfl⟩ := List.mem_map.mp hl
    obtain ⟨hname, hvalue⟩ := h p hp
    have hquote : '\n' ≠ doubleQuote := by decide
    refine ⟨?_, ?_⟩
    · simp [assignment, hname.no_newline, hvalue, hquote]
    · have hsplit : assignment p.1 p.2 = (p.1 ++ '=' :: doubleQuote :: p.2) ++ [doubleQuote] := by simp [assignment]
      rw [hsplit, List.getLast?_concat]
      decide
  refine parse_eq_ok.mpr ⟨?_, ?_⟩
  · rw [hlines]
    intro raw hraw
    obtain ⟨p, hp, rfl⟩ := List.mem_map.mp hraw
    rw [Readable, readLine_assignment (h p hp).1]
    exact ⟨by simp, by simp⟩
  · funext name
    rw [hlines, lastAssigned, ← List.map_reverse, List.findSome?_map]
    refine (findSome?_eq fun p hp => ?_).symm
    rw [Function.comp_apply, assigned, readLine_assignment (h p (List.mem_reverse.mp hp)).1]

/-- A name written twice. -/
theorem parse_render_twice :
    parse ⟨fun _ => true, fun _ => false⟩ (render [(['K'], ['a', '=', ' ']), (['K'], [doubleQuote])]) ".env" =
      .ok fun name => ([(['K'], [doubleQuote]), (['K'], ['a', '=', ' '])].find? fun p => name = p.1).map Prod.snd := by
  have hname : PlainName ['K'] :=
    ⟨by simp, by decide, by decide, by decide, by decide, by decide⟩
  refine parse_render (fun p hp => ?_) ".env"
  rcases List.mem_pair.mp hp with rfl | rfl
  · exact ⟨hname, by decide⟩
  · exact ⟨hname, by decide⟩

/-! ### The template -/

/-- The lines of the file to begin with. -/
def ENV_TEMPLATE_LINES : List String :=
  ["# kaspa-vault configuration.",
    "#",
    "# This file holds key material in PLAINTEXT. Keep it out of version control,",
    "# out of backups you do not control, and readable only by you (chmod 600).",
    "#",
    "# Supply exactly one of KASPA_VAULT_MNEMONIC or KASPA_VAULT_KEY.",
    "",
    "# BIP39 mnemonic phrase.",
    "#KASPA_VAULT_MNEMONIC=\"abandon abandon ... about\"",
    "",
    "# Or a key: extended private key (xprv.../kprv...), a 128-character BIP39",
    "# seed, or a 64-character private key. Note that a bare private key cannot be",
    "# hardened-isolated -- see the warning kaspa-vault prints when you use one.",
    "#KASPA_VAULT_KEY=",
    "",
    "# Defaults, both optional.",
    "#KASPA_VAULT_NETWORK=tn10",
    "#KASPA_VAULT_KEY_INDEX=0"]

def ENV_TEMPLATE : List Char := (ENV_TEMPLATE_LINES.map String.toList).flatMap (· ++ ['\n'])

theorem readLine_comment (s : List Char) : readLine ('#' :: s) = .skip := by
  have hhash : isWhitespace '#' = false := by decide
  have hdrop : ('#' :: s).dropWhile isWhitespace = '#' :: s := List.dropWhile_cons_of_neg (by simp [hhash])
  have hprefix : trim ('#' :: s) <+: '#' :: s := by
    rw [trim, hdrop]
    exact List.rdropWhile_prefix isWhitespace _
  have hhead : trim ('#' :: s) = [] ∨ (trim ('#' :: s)).head? = some '#' := by
    cases htrim : trim ('#' :: s) with
    | nil => exact .inl rfl
    | cons c t =>
      rw [htrim] at hprefix
      obtain ⟨u, hu⟩ := hprefix
      exact .inr (congrArg some (List.cons.inj hu).1)
  rw [readLine, if_pos hhead]

/-- **The template is read**, and says nothing. -/
theorem parse_template (path : String) : parse chars ENV_TEMPLATE path = .ok fun _ => none := by
  have hlines : lines ENV_TEMPLATE = ENV_TEMPLATE_LINES.map String.toList := lines_flatMap (by decide)
  have hskip : ∀ raw ∈ ENV_TEMPLATE_LINES.map String.toList, readLine raw = .skip := by
    have hkind : ∀ raw ∈ ENV_TEMPLATE_LINES.map String.toList, raw = [] ∨ raw.head? = some '#' := by decide
    intro raw hraw
    rcases hkind raw hraw with rfl | hhead
    · rfl
    · obtain ⟨s, rfl⟩ := List.head?_eq_some_iff.mp hhead
      exact readLine_comment s
  refine parse_eq_ok.mpr ⟨?_, ?_⟩
  · rw [hlines]
    intro raw hraw
    rw [Readable, hskip raw hraw]
    exact ⟨by simp, by simp⟩
  · funext name
    rw [hlines]
    refine (List.findSome?_eq_none_iff.mpr fun raw hraw => ?_).symm
    rw [assigned, hskip raw (List.mem_reverse.mp hraw)]

/-! ### The file -/

/-- What is asked of the file system. -/
structure FileSystem where
  pathExists : String → Bool
  /-- The permission bits. -/
  mode : String → Except String ℕ
  readToString : String → Except String (List Char)
  canonicalize : String → Option String

/-- The settings that were loaded, if there was a file. -/
structure EnvFile where
  path : Option String
  values : EnvValues

/-- Refuse a file that others can read. -/
def checkPermissions (fs : FileSystem) (path : String) : Except String Unit := do
  let mode ← (fs.mode path).mapError fun e => s!"reading permissions of {path}: {e}"
  let octal := String.ofList (Nat.toDigits 8 (mode &&& 0o777))
  ensure (mode &&& 0o077 = 0)
    (s!"{path} is readable by other users (mode {octal}). It holds key material that " ++
      s!"controls funds. Fix it with:\n\n    chmod 600 {path}\n")

namespace EnvFile

/-- The file that is asked for, which must be there, or `.env`, which need not. -/
def load (chars : CharTable) (fs : FileSystem) (path : Option String) : Except String EnvFile :=
  let required := path.isSome
  let path := path.getD ".env"
  if fs.pathExists path = true then do
    checkPermissions fs path
    let text ← (fs.readToString path).mapError fun e => s!"reading {path}: {e}"
    let values ← parse chars text path
    pure ⟨some ((fs.canonicalize path).getD path), values⟩
  else if required = true then .error s!"{path} does not exist"
  else .ok ⟨none, fun _ => none⟩

variable (process : List Char → Option (List Char)) (env : EnvFile) (name : List Char)

/-- What is set in the process, if it is not empty. -/
def inProcess : Option (List Char) := (process name).filter fun v => v ≠ []

/-- The value of a variable: the process first, then the file. -/
def get : Option (List Char) := (inProcess process name).or (env.values name)

/-- Where the value comes from. -/
def sourceOf : Option String :=
  if (inProcess process name).isSome then some "environment"
  else if (env.values name).isSome then some ".env file"
  else none

variable {process env name}

/-- **Where a value comes from**, as the user is told. -/
theorem get_eq_some {v : List Char} : get process env name = some v ↔
    (sourceOf process env name = some "environment" ∧ process name = some v ∧ v ≠ []) ∨
      sourceOf process env name = some ".env file" ∧ env.values name = some v := by
  unfold get sourceOf inProcess
  cases hfilter : (process name).filter fun v => v ≠ [] with
  | some w =>
    obtain ⟨hw, hne⟩ := Option.filter_eq_some_iff.mp hfilter
    have hne' : w ≠ [] := by simpa using hne
    simp only [Option.some_or, Option.some.injEq, Option.isSome_some, if_true, hw, true_and]
    constructor
    · rintro rfl
      exact .inl ⟨rfl, hne'⟩
    · rintro (⟨rfl, -⟩ | ⟨hsource, -⟩)
      · rfl
      · simp at hsource
  | none =>
    cases hvalue : env.values name with
    | none => simp
    | some w => simp

/-- **A file that is loaded** is there and is the user's own, and is read as it says; none is loaded if none was
asked for and `.env` is not there. -/
theorem load_eq_ok {fs : FileSystem} {path : Option String} {env : EnvFile} : load chars fs path = .ok env ↔
    (fs.pathExists (path.getD ".env") ≠ true ∧ path = none ∧ env = ⟨none, fun _ => none⟩) ∨
      fs.pathExists (path.getD ".env") = true ∧ ∃ mode text, fs.mode (path.getD ".env") = .ok mode ∧
        mode &&& 0o077 = 0 ∧ fs.readToString (path.getD ".env") = .ok text ∧ (∀ raw ∈ lines text, Readable raw) ∧
        env = ⟨some ((fs.canonicalize (path.getD ".env")).getD (path.getD ".env")),
          fun name => lastAssigned name (lines text)⟩ := by
  by_cases hexists : fs.pathExists (path.getD ".env") = true
  · rw [load, if_pos hexists]
    simp only [hexists, ne_eq, not_true, false_and, false_or, true_and, checkPermissions, bind_eq_ok, mapError_eq_ok,
      ensure_eq_ok, parse_eq_ok]
    constructor
    · rintro ⟨⟨⟩, ⟨mode, hmode, hprivate⟩, text, htext, values, ⟨hlines, rfl⟩, hpure⟩
      exact ⟨mode, text, hmode, hprivate, htext, hlines, (Except.ok.inj hpure).symm⟩
    · rintro ⟨mode, text, hmode, hprivate, htext, hlines, rfl⟩
      exact ⟨(), ⟨mode, hmode, hprivate⟩, text, htext, _, ⟨hlines, rfl⟩, rfl⟩
  · rw [load, if_neg hexists]
    cases path with
    | none =>
      rw [Option.isSome_none, if_neg Bool.false_ne_true]
      constructor
      · intro h
        exact .inl ⟨hexists, rfl, (Except.ok.inj h).symm⟩
      · rintro (⟨-, -, rfl⟩ | ⟨h, -⟩)
        · rfl
        · exact absurd h hexists
    | some path =>
      rw [Option.isSome_some, if_pos rfl]
      constructor
      · intro h
        cases h
      · rintro (⟨-, h, -⟩ | ⟨h, -⟩)
        · cases h
        · exact absurd h hexists

end EnvFile

end KaspaPqv.VaultCli
