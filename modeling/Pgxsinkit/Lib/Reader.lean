/-
Readers of a byte string that may throw, and readers that are exact for a writer.

`Exact read write valid` says that `read` accepts exactly the byte strings that start
with what `write` makes of a valid value, returns that value and consumes that much.
One such lemma a reader gives both directions of a round trip: what is written is read
back, and what is read is written back to the same bytes.
-/
import Pgxsinkit.Lib.Bytes
import Pgxsinkit.Lib.Checked

open Bytes Checked

/-- A reader returns a value and the bytes it did not consume. -/
abbrev Reader (ε α : Type) := StateT (List UInt8) (Except ε) α

namespace Reader

variable {ε α β : Type}

theorem bind_eq_ok {read : Reader ε α} {next : α → Reader ε β} {bytes rest : List UInt8} {b : β} :
    (read >>= next) bytes = .ok (b, rest) ↔
      ∃ a mid, read bytes = .ok (a, mid) ∧ next a mid = .ok (b, rest) := by
  show (read bytes >>= fun p => next p.1 p.2) = .ok (b, rest) ↔ _
  rw [Checked.bind_eq_ok, Prod.exists]

theorem pure_eq_ok {a b : α} {bytes rest : List UInt8} :
    (pure a : Reader ε α) bytes = .ok (b, rest) ↔ a = b ∧ rest = bytes := by
  show (Except.ok (a, bytes) : Except ε _) = .ok (b, rest) ↔ _
  rw [Except.ok.injEq, Prod.mk.injEq, eq_comm (a := bytes)]

/-- A check inside a reader consumes nothing. -/
theorem lift_eq_ok {check : Except ε α} {a : α} {bytes rest : List UInt8} :
    (liftM check : Reader ε α) bytes = .ok (a, rest) ↔ check = .ok a ∧ rest = bytes := by
  show (check >>= fun a => pure (a, bytes)) = .ok (a, rest) ↔ _
  rw [Checked.bind_eq_ok]
  simp only [Checked.pure_eq_ok, Prod.mk.injEq]
  constructor
  · rintro ⟨a', hcheck, rfl, rfl⟩
    exact ⟨hcheck, rfl⟩
  · rintro ⟨hcheck, rfl⟩
    exact ⟨a, hcheck, rfl, rfl⟩

theorem throw_ne_ok {e : ε} {a : α} {bytes rest : List UInt8} :
    (throw e : Reader ε α) bytes ≠ .ok (a, rest) := by
  intro h
  cases h

/-- `if (c) throw e;` -/
def rejectIf (c : Prop) [Decidable c] (e : ε) : Reader ε Unit := liftM (throwIf c e)

theorem rejectIf_eq_ok {c : Prop} [Decidable c] {e : ε} {u : Unit} {bytes rest : List UInt8} :
    rejectIf c e bytes = .ok (u, rest) ↔ ¬ c ∧ rest = bytes := by
  rw [rejectIf, lift_eq_ok, throwIf_eq_ok]

/-- `this.raw(length)`: the next bytes, or the given error when there are too few. -/
def raw (length : Nat) (truncated : ε) : Reader ε (List UInt8) := fun bytes =>
  if length ≤ bytes.length then .ok (bytes.take length, bytes.drop length) else .error truncated

/-- The next `width` bytes as a little-endian number. -/
def number (width : Nat) (truncated : ε) : Reader ε Nat := do
  let bytes ← raw width truncated
  return leNat bytes

/-- A loop that reads a given number of times and carries an accumulator. -/
def fold (step : α → Reader ε α) : Nat → α → Reader ε α
  | 0, acc => pure acc
  | n + 1, acc => do
    let acc ← step acc
    fold step n acc

/-! ### Exact readers -/

/-- The reader accepts what the writer makes of a valid value, and nothing else. -/
def Exact (read : Reader ε α) (write : α → List UInt8) (valid : α → Prop) : Prop :=
  ∀ bytes a rest, read bytes = .ok (a, rest) ↔ valid a ∧ bytes = write a ++ rest

theorem raw_eq_ok {length : Nat} {truncated : ε} {bytes a rest : List UInt8} :
    raw length truncated bytes = .ok (a, rest) ↔ a.length = length ∧ bytes = a ++ rest := by
  unfold raw
  split
  · rename_i hle
    rw [Except.ok.injEq, Prod.mk.injEq]
    constructor
    · rintro ⟨rfl, rfl⟩
      exact ⟨by rw [List.length_take]; omega, (List.take_append_drop _ _).symm⟩
    · rintro ⟨rfl, rfl⟩
      exact ⟨List.take_left' rfl, List.drop_left' rfl⟩
  · rename_i hlt
    refine ⟨fun h => (by cases h), ?_⟩
    rintro ⟨rfl, rfl⟩
    rw [List.length_append] at hlt
    omega

theorem exact_raw (length : Nat) (truncated : ε) :
    Exact (raw length truncated) id fun bytes => bytes.length = length :=
  fun _ _ _ => raw_eq_ok

theorem exact_number (width : Nat) (truncated : ε) :
    Exact (number width truncated) (leBytes width) fun n => n < 256 ^ width := by
  intro bytes n rest
  unfold number
  rw [bind_eq_ok]
  simp only [raw_eq_ok, pure_eq_ok]
  constructor
  · rintro ⟨field, _, ⟨hlen, rfl⟩, rfl, rfl⟩
    rw [← hlen]
    exact ⟨leNat_lt field, by rw [leBytes_leNat]⟩
  · rintro ⟨hn, rfl⟩
    exact ⟨leBytes width n, rest, ⟨length_leBytes width n, rfl⟩, leNat_leBytes hn, rfl⟩

namespace Exact

variable {read : Reader ε α} {write : α → List UInt8} {valid : α → Prop}

/-- What is written is read back. -/
theorem read_write (h : Exact read write valid) {a : α} (ha : valid a) (rest : List UInt8) :
    read (write a ++ rest) = .ok (a, rest) := (h _ _ _).mpr ⟨ha, rfl⟩

/-- What is read is written back. -/
theorem write_read (h : Exact read write valid) {bytes rest : List UInt8} {a : α}
    (hread : read bytes = .ok (a, rest)) : bytes = write a ++ rest := ((h _ _ _).mp hread).2

/-- Reading two values one after the other. -/
theorem bind {next : α → Reader ε β} {write' : β → List UInt8} {valid' : β → Prop} {first : β → α}
    (h : Exact read write valid)
    (hnext : ∀ a bytes b rest, next a bytes = .ok (b, rest) ↔
      first b = a ∧ valid' b ∧ bytes = write' b ++ rest) :
    Exact (read >>= next) (fun b => write (first b) ++ write' b)
      fun b => valid (first b) ∧ valid' b := by
  intro bytes b rest
  rw [bind_eq_ok]
  constructor
  · rintro ⟨a, mid, hread, hmid⟩
    obtain ⟨rfl, hvalid', rfl⟩ := (hnext _ _ _ _).mp hmid
    obtain ⟨hvalid, rfl⟩ := (h _ _ _).mp hread
    exact ⟨⟨hvalid, hvalid'⟩, by rw [List.append_assoc]⟩
  · rintro ⟨⟨hvalid, hvalid'⟩, rfl⟩
    rw [List.append_assoc]
    exact ⟨first b, _, h.read_write hvalid _, (hnext _ _ _ _).mpr ⟨rfl, hvalid', rfl⟩⟩

end Exact

/-- A loop over an exact reader reads a list of that many values.  `push` adds the read
value to the accumulator when `fits` allows it. -/
theorem fold_eq_ok {read : Reader ε β} {write : β → List UInt8} {valid : β → Prop}
    (h : Exact read write valid) {step : α → Reader ε α} {push : α → β → α} {fits : α → β → Prop}
    (hstep : ∀ acc bytes acc' rest, step acc bytes = .ok (acc', rest) ↔
      ∃ b, read bytes = .ok (b, rest) ∧ fits acc b ∧ acc' = push acc b)
    {n : Nat} {acc acc' : α} {bytes rest : List UInt8} :
    fold step n acc bytes = .ok (acc', rest) ↔
      ∃ values : List β, values.length = n ∧ (∀ b ∈ values, valid b) ∧
        (∀ before b after, values = before ++ b :: after → fits (before.foldl push acc) b) ∧
        bytes = values.flatMap write ++ rest ∧ acc' = values.foldl push acc := by
  induction n generalizing acc bytes with
  | zero =>
    rw [fold, pure_eq_ok]
    constructor
    · rintro ⟨rfl, rfl⟩
      exact ⟨[], rfl, by simp, by simp, rfl, rfl⟩
    · rintro ⟨values, hlen, -, -, rfl, rfl⟩
      rw [List.length_eq_zero_iff.mp hlen]
      exact ⟨rfl, rfl⟩
  | succ n ih =>
    rw [fold, bind_eq_ok]
    constructor
    · rintro ⟨_, mid, hfirst, hrest⟩
      obtain ⟨b, hread, hfits, rfl⟩ := (hstep _ _ _ _).mp hfirst
      obtain ⟨hvalid, rfl⟩ := (h _ _ _).mp hread
      obtain ⟨values, hlen, hall, hfit, rfl, rfl⟩ := ih.mp hrest
      refine ⟨b :: values, by rw [List.length_cons, hlen], List.forall_mem_cons.mpr ⟨hvalid, hall⟩,
        ?_, by rw [List.flatMap_cons, List.append_assoc], rfl⟩
      intro before b' after heq
      cases before with
      | nil =>
        rw [List.nil_append, List.cons.injEq] at heq
        exact heq.1 ▸ hfits
      | cons x before =>
        rw [List.cons_append, List.cons.injEq] at heq
        rw [List.foldl_cons, ← heq.1]
        exact hfit before b' after heq.2
    · rintro ⟨values, hlen, hall, hfit, rfl, rfl⟩
      cases values with
      | nil => cases hlen
      | cons b values =>
        rw [List.forall_mem_cons] at hall
        refine ⟨push acc b, values.flatMap write ++ rest, (hstep _ _ _ _).mpr ⟨b, ?_,
          hfit [] b values rfl, rfl⟩, ih.mpr ⟨values, Nat.succ.inj hlen, hall.2, ?_, rfl, rfl⟩⟩
        · rw [List.flatMap_cons, List.append_assoc]
          exact h.read_write hall.1 _
        · intro before b' after heq
          exact hfit (b :: before) b' after (by rw [heq, List.cons_append])

end Reader
