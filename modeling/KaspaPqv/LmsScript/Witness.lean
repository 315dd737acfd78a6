import KaspaPqv.LmsScript.Verify
import KaspaPqv.Script.Below

/-!
# Witnesses of any shape

Whoever spends may put any items below the message, as many as they like and of any lengths.
The script counts them by taking them: with too few it aborts, and what is too many is left
at the end. It never asks for the length of one. So a run that ends well tells how many items
there were, and that the RFC's algorithm comes to the root on them, but not that they have the
length that the RFC's signatures have.

## What is proved

* `emitVerify_sound` — what a run that leaves one item, a true one, tells of its witness.
* `not_emitVerify_lengths` — the lengths are not among it.
-/

namespace KaspaPqv.LmsScript

open KaspaPqv.Lib KaspaPqv.Script

/-- The items of a witness, the last one pushed first. -/
def witnessItems (P : LmsParams) (C : Bytes) (y path : ℕ → Bytes) : List Bytes :=
  C :: ((List.range P.p).map y ++ (List.range P.h).map path)

@[simp] theorem length_witnessItems (P : LmsParams) (C : Bytes) (y path : ℕ → Bytes) :
    (witnessItems P C y path).length = P.p + P.h + 1 := by
  simp [witnessItems]

/-- Any items of the right number are a witness. -/
theorem exists_witnessItems (P : LmsParams) (items : List Bytes) (h : items.length = P.p + P.h + 1) :
    ∃ C y path, items = witnessItems P C y path := by
  obtain ⟨C, rest, rfl⟩ := List.exists_cons_of_length_eq_add_one h
  rw [List.length_cons, Nat.add_right_cancel_iff] at h
  refine ⟨C, fun i => rest.getD i default, fun i => rest.getD (P.p + i) default, ?_⟩
  have hy := slice_map_range (n := rest.length) (i := 0) (by omega : P.p ≤ rest.length) fun i => rest.getD i default
  have hpath := slice_map_range (n := rest.length) (i := P.p) le_rfl fun i => rest.getD i default
  rw [← eq_map_range] at hy hpath
  rw [slice_zero, Nat.sub_zero] at hy
  rw [slice, List.take_length, h, Nat.add_sub_cancel_left] at hpath
  simp only [Nat.zero_add] at hy
  rw [witnessItems, ← hy, ← hpath, List.take_append_drop]

section

variable {P : LmsParams} {key : LmsPublicKey} {q : ℕ}

/-- A witness, with anything below it. -/
theorem execute_witnessItems (hmem : P ∈ LmsParams.constants) (hw : P.w = 2 ∨ P.w = 4) (hq : q < P.leafCount)
    (env : Env) (m C : Bytes) (y path : ℕ → Bytes) (d : List Bytes) {is : List Instr}
    (hcode : (emitVerify P key q : Gen Unit Instr String Unit).code () = .ok is) :
    execute env is (m :: (witnessItems P C y path ++ d)) = some
      (boolBytes (Rfc8554.candidateRoot env.sha256 P.w P.h key.id.bytes q C y path m = key.root.bytes) :: d) := by
  have hruns : Runs env (emitVerify P key q : Gen Unit Instr String Unit) ⟨_, []⟩ ⟨_, []⟩ :=
    runs_emitVerify hmem hw key hq C m y path (d := d)
  obtain ⟨is', hcode', hexec⟩ := hruns.execute
  obtain rfl : is' = is := Except.ok.inj (hcode'.symm.trans hcode)
  rw [witnessItems, List.cons_append, List.append_assoc]
  exact hexec

/-- **A run that leaves one item had a whole witness, and nothing below it.** -/
theorem length_of_execute (hmem : P ∈ LmsParams.constants) (hw : P.w = 2 ∨ P.w = 4) (hq : q < P.leafCount)
    {env : Env} {m : Bytes} {items : List Bytes} {is : List Instr}
    (hcode : (emitVerify P key q : Gen Unit Instr String Unit).code () = .ok is) {item : Bytes}
    (hexec : execute env is (m :: items) = some [item]) : items.length = P.p + P.h + 1 := by
  rcases Nat.lt_or_ge items.length (P.p + P.h + 1) with hlt | hge
  · -- with empty items below, up to the number of a witness, the run leaves one item more for each of them
    set pad := List.replicate (P.p + P.h + 1 - items.length) ([] : Bytes) with hpad
    obtain ⟨C, y, path, hitems⟩ := exists_witnessItems P (items ++ pad) (by simp [hpad]; omega)
    have hrun := execute_witnessItems hmem hw hq env m C y path [] hcode
    have hbelow := execute_below hexec pad
    rw [List.append_nil, ← hitems, ← List.cons_append, hbelow] at hrun
    have hlen := congrArg List.length (Option.some.inj hrun)
    simp [hpad] at hlen
    omega
  · obtain ⟨C, y, path, hitems⟩ := exists_witnessItems P (items.take (P.p + P.h + 1)) (by simp; omega)
    have hrun := execute_witnessItems hmem hw hq env m C y path (items.drop (P.p + P.h + 1)) hcode
    rw [← hitems, List.take_append_drop, hexec] at hrun
    have hlen := congrArg List.length (Option.some.inj hrun)
    simp at hlen
    omega

/-- **The script is sound on any witness** as far as the number of its items and the RFC's
algorithm are concerned. -/
theorem emitVerify_sound (hmem : P ∈ LmsParams.constants) (hw : P.w = 2 ∨ P.w = 4) (key : LmsPublicKey)
    (hq : q < 2 ^ P.h) (sha256 : Bytes → Block 32) (tx : Option TxContext) (m : Block 32) (items : List Bytes)
    {is : List Instr} (hcode : (emitVerify P key q : Gen Unit Instr String Unit).code () = .ok is) {item : Bytes}
    (hexec : execute ⟨sha256, tx⟩ is (m.bytes :: items) = some [item]) (htrue : isTrue item) :
    ∃ C y path, items = witnessItems P C y path ∧
      Rfc8554.Accepts sha256 P.w P.h key.id.bytes key.root.bytes q C y path m.bytes := by
  obtain ⟨C, y, path, rfl⟩ := exists_witnessItems P _ (length_of_execute hmem hw hq hcode hexec)
  refine ⟨C, y, path, rfl, ?_⟩
  have hrun := execute_witnessItems hmem hw hq ⟨sha256, tx⟩ m.bytes C y path [] hcode
  rw [List.append_nil, hexec] at hrun
  obtain ⟨rfl, -⟩ := List.cons.inj (Option.some.inj hrun)
  have haccepts : Rfc8554.candidateRoot sha256 P.w P.h key.id.bytes q C y path m.bytes = key.root.bytes :=
    isTrue_decide.mp htrue
  exact haccepts

end

/-! ### A witness of empty items -/

/-- A hash function with one value comes to it on any path. -/
theorem climb_const {root : Block 32} (I : Bytes) (path : ℕ → Bytes) (nodeNum i : ℕ) :
    Rfc8554.climb (fun _ => root) I path nodeNum i root.bytes = root.bytes := by
  induction nodeNum using Nat.strong_induction_on generalizing i with
  | _ nodeNum ih =>
    rw [Rfc8554.climb]
    split_ifs with hnode hodd
    · exact ih _ (Nat.div_lt_self (by omega) (by norm_num)) _
    · exact ih _ (Nat.div_lt_self (by omega) (by norm_num)) _
    · rfl

/-- Under a hash function whose only value is the root, the script takes any witness. -/
theorem execute_const {P : LmsParams} (hmem : P ∈ LmsParams.constants) (hw : P.w = 2 ∨ P.w = 4) (key : LmsPublicKey)
    {q : ℕ} (hq : q < P.leafCount) (m C : Bytes) (y path : ℕ → Bytes) :
    ∃ is, (emitVerify P key q : Gen Unit Instr String Unit).code () = .ok is ∧
      execute ⟨fun _ => key.root, none⟩ is (m :: witnessItems P C y path) = some [boolBytes true] := by
  have hruns : Runs ⟨fun _ => key.root, none⟩ (emitVerify P key q : Gen Unit Instr String Unit) ⟨_, []⟩ ⟨_, []⟩ :=
    runs_emitVerify hmem hw key hq C m y path (d := [])
  obtain ⟨is, hcode, -⟩ := hruns.execute
  have hexec := execute_witnessItems hmem hw hq ⟨fun _ => key.root, none⟩ m C y path [] hcode
  have hroot : Rfc8554.candidateRoot (fun _ => key.root) P.w P.h key.id.bytes q C y path m = key.root.bytes :=
    climb_const ..
  rw [List.append_nil, decide_eq_true hroot] at hexec
  exact ⟨is, hcode, hexec⟩

/-- A run on a witness of empty items. -/
theorem emitVerify_sound_const :
    ∃ is, (emitVerify .sha256H15W2 ⟨Block.zero 16, Block.zero 32⟩ 3 : Gen Unit Instr String Unit).code () = .ok is ∧
      ∃ C y path, witnessItems .sha256H15W2 [] (fun _ => []) (fun _ => []) = witnessItems .sha256H15W2 C y path ∧
        Rfc8554.Accepts (fun _ => Block.zero 32) 2 15 (Block.zero 16).bytes (Block.zero 32).bytes 3 C y path
          (Block.zero 32).bytes := by
  obtain ⟨is, hcode, hexec⟩ := execute_const (P := .sha256H15W2) (by decide) (.inl rfl) ⟨Block.zero 16, Block.zero 32⟩
    (q := 3) (by decide) (Block.zero 32).bytes [] (fun _ => []) fun _ => []
  exact ⟨is, hcode, emitVerify_sound (by decide) (.inl rfl) ⟨Block.zero 16, Block.zero 32⟩ (by decide)
    (fun _ => Block.zero 32) none (Block.zero 32) _ hcode hexec (isTrue_boolBytes true)⟩

/-- **Nothing forces the lengths**: the script accepts a witness of items that are all empty. -/
theorem not_emitVerify_lengths :
    ¬∀ (key : LmsPublicKey) (q : ℕ) (sha256 : Bytes → Block 32) (m : Block 32) (items : List Bytes) (is : List Instr)
        (item : Bytes), q < 2 ^ 15 →
      (emitVerify .sha256H15W2 key q : Gen Unit Instr String Unit).code () = .ok is →
      execute ⟨sha256, none⟩ is (m.bytes :: items) = some [item] → isTrue item →
      ∃ (C : Block 32) (y path : ℕ → Block 32),
        items = witnessItems .sha256H15W2 C.bytes (fun i => (y i).bytes) (fun i => (path i).bytes) ∧
          Rfc8554.Accepts sha256 2 15 key.id.bytes key.root.bytes q C.bytes (fun i => (y i).bytes)
            (fun i => (path i).bytes) m.bytes := by
  intro h
  obtain ⟨is, hcode, hexec⟩ := execute_const (P := .sha256H15W2) (by decide) (.inl rfl) ⟨Block.zero 16, Block.zero 32⟩
    (q := 3) (by decide) (Block.zero 32).bytes [] (fun _ => []) fun _ => []
  obtain ⟨C, y, path, hitems, -⟩ := h _ 3 _ _ _ is _ (by decide) hcode hexec (isTrue_boolBytes true)
  have hlen := congrArg List.length (List.cons.inj hitems).1
  rw [Block.length_bytes] at hlen
  exact absurd hlen (by decide)

end KaspaPqv.LmsScript
