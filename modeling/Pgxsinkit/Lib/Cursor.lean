/-
Readers that advance an offset into a buffer, as a `DataView` is read.

A reader sees the whole buffer, so what it makes of a field must not depend on the bytes around it:
`Reads` says that a reader which stands before given bytes returns a value and stands behind them, in
any buffer.  `Yields` leaves open where it stands afterwards.
-/
import Pgxsinkit.Lib.Layout

open Bytes

/-- A reader over a buffer, with the offset as its state. -/
abbrev Cursor (ε α : Type) : Type := ReaderT (List UInt8) (StateT ℤ (Except ε)) α

namespace Cursor

variable {ε α β : Type}

/-! ### What a reader makes of given bytes -/

def Reads (read : Cursor ε α) (content : List UInt8) (a : α) : Prop :=
  ∀ before after : List UInt8,
    read (before ++ content ++ after) before.length = .ok (a, (before ++ content).length)

def Yields (read : Cursor ε α) (content : List UInt8) (a : α) : Prop :=
  ∀ before after : List UInt8,
    ∃ offset, read (before ++ content ++ after) before.length = .ok (a, offset)

variable {read : Cursor ε α} {next : α → Cursor ε β} {content content' : List UInt8} {a : α} {b : β}

theorem reads_pure (a : α) : Reads (pure a : Cursor ε α) [] a := by
  intro before after
  rw [List.append_nil]
  rfl

/-- What is left unread does not matter. -/
theorem yields_pure (a : α) (content : List UInt8) : Yields (pure a : Cursor ε α) content a :=
  fun _ _ => ⟨_, rfl⟩

theorem Reads.yields (h : Reads read content a) : Yields read content a :=
  fun before after => ⟨_, h before after⟩

theorem bind_ok {bytes : List UInt8} {offset offset' : ℤ} (h : read bytes offset = .ok (a, offset')) :
    (read >>= next) bytes offset = next a bytes offset' := by
  show (read bytes offset >>= fun p => next p.1 bytes p.2) = _
  rw [h]
  rfl

theorem Reads.bind (h : Reads read content a) (h' : Reads (next a) content' b) :
    Reads (read >>= next) (content ++ content') b := by
  intro before after
  have hrest := h' (before ++ content) after
  have hread := h before (content' ++ after)
  rw [← List.append_assoc] at hread
  rw [← List.append_assoc before, bind_ok hread]
  exact hrest

theorem Reads.bind_yields (h : Reads read content a) (h' : Yields (next a) content' b) :
    Yields (read >>= next) (content ++ content') b := by
  intro before after
  obtain ⟨offset, hrest⟩ := h' (before ++ content) after
  have hread := h before (content' ++ after)
  rw [← List.append_assoc] at hread
  exact ⟨offset, by rw [← List.append_assoc before, bind_ok hread]; exact hrest⟩

theorem Reads.map (h : Reads read content a) (f : α → β) :
    Reads (read >>= fun a => pure (f a)) content (f a) := by
  have hbind : Reads (read >>= fun a => (pure (f a) : Cursor ε β)) (content ++ []) (f a) :=
    h.bind (reads_pure (f a))
  rwa [List.append_nil] at hbind

theorem Yields.map (h : Yields read content a) (f : α → β) :
    Yields (read >>= fun a => pure (f a)) content (f a) := by
  intro before after
  obtain ⟨offset, hread⟩ := h before after
  exact ⟨offset, bind_ok hread⟩

/-- `for (let i = 0; i < n; i++) list.push(read());` -/
def times (read : Cursor ε α) : ℕ → Cursor ε (List α)
  | 0 => pure []
  | n + 1 => do
    let a ← read
    let rest ← times read n
    return a :: rest

/-- One field after the other. -/
theorem reads_times {γ : Type} {write : γ → List UInt8} {value : γ → α} {fields : List γ}
    (h : ∀ field ∈ fields, Reads read (write field) (value field)) :
    Reads (times read fields.length) (fields.flatMap write) (fields.map value) := by
  induction fields with
  | nil => exact reads_pure []
  | cons field fields ih =>
    rw [List.forall_mem_cons] at h
    exact h.1.bind ((ih h.2).map (value field :: ·))

/-- A loop in which every round reads a byte or throws: a round for each byte of the buffer and one more
are enough. -/
def rounds (loop : ℕ → Cursor ε α) : Cursor ε α := do
  let buffer ← MonadReader.read
  loop (buffer.length + 1)

theorem yields_rounds {loop : ℕ → Cursor ε α}
    (h : ∀ n, content.length < n → Yields (loop n) content a) : Yields (rounds loop) content a := by
  intro before after
  have hlength : content.length < (before ++ content ++ after).length + 1 := by
    simp only [List.length_append]
    omega
  exact h _ hlength before after

theorem reads_rounds {loop : ℕ → Cursor ε α}
    (h : ∀ n, content.length < n → Reads (loop n) content a) : Reads (rounds loop) content a := by
  intro before after
  have hlength : content.length < (before ++ content ++ after).length + 1 := by
    simp only [List.length_append]
    omega
  exact h _ hlength before after

/-! ### Bytes at an offset -/

/-- `view.getUint8(offset)`, which throws outside of the buffer. -/
def byteAt (outside : ε) (bytes : List UInt8) (offset : ℤ) : Except ε UInt8 :=
  if offset < 0 then .error outside
  else
    match bytes[offset.toNat]? with
    | some b => .ok b
    | none => .error outside

theorem byteAt_append (outside : ε) (before : List UInt8) (b : UInt8) (after : List UInt8) :
    byteAt outside (before ++ b :: after) before.length = .ok b := by
  rw [byteAt, if_neg (by omega), Int.toNat_natCast, List.getElem?_append_right le_rfl, Nat.sub_self]
  rfl

/-- `getUint8(offset++)` -/
def byte (outside : ε) : Cursor ε UInt8 := fun bytes offset =>
  match byteAt outside bytes offset with
  | .ok b => .ok (b, offset + 1)
  | .error e => .error e

theorem reads_byte (outside : ε) (b : UInt8) : Reads (byte outside) [b] b := by
  intro before after
  rw [byte, List.append_assoc]
  show (match byteAt outside (before ++ b :: after) before.length with
    | .ok b => Except.ok (b, (before.length : ℤ) + 1)
    | .error e => .error e) = _
  rw [byteAt_append, List.length_append]
  push_cast
  rfl

/-- The number that bytes spell, highest first. -/
def beNat (bytes : List UInt8) : ℕ := leNat bytes.reverse

/-- The lowest `width` bytes of a number, highest first. -/
def beBytes (width n : ℕ) : List UInt8 := (leBytes width n).reverse

@[simp] theorem length_beBytes (width n : ℕ) : (beBytes width n).length = width := by
  rw [beBytes, List.length_reverse, length_leBytes]

theorem beNat_beBytes {width n : ℕ} (h : n < 256 ^ width) : beNat (beBytes width n) = n := by
  rw [beNat, beBytes, List.reverse_reverse, leNat_leBytes h]

/-- `getUint8`, `getUint16` or `getUint32`, as bytes: a read that goes past the end throws. -/
def unsigned (outside : ε) (width : ℕ) : Cursor ε ℕ := do
  let bytes ← times (byte outside) width
  return beNat bytes

theorem reads_unsigned (outside : ε) {width n : ℕ} (h : n < 256 ^ width) :
    Reads (unsigned outside width) (beBytes width n) n := by
  have hbytes : Reads (times (byte outside) (beBytes width n).length) (beBytes width n)
      (beBytes width n) := by
    have htimes : Reads (times (byte outside) (beBytes width n).length)
        ((beBytes width n).flatMap fun b => [b]) ((beBytes width n).map id) :=
      reads_times fun b _ => reads_byte outside b
    rw [List.map_id, List.flatMap_singleton'] at htimes
    exact htimes
  rw [length_beBytes] at hbytes
  have hmap := hbytes.map beNat
  rwa [beNat_beBytes h] at hmap

/-- `getInt16` or `getInt32` -/
def signed (outside : ε) (width : ℕ) : Cursor ε ℤ := do
  let n ← unsigned outside width
  return (BitVec.ofNat (8 * width) n).toInt

theorem reads_signed (outside : ε) {width : ℕ} (v : BitVec (8 * width)) :
    Reads (signed outside width) (beBytes width v.toNat) v.toInt := by
  have hv : v.toNat < 256 ^ width := by
    have hlt := v.isLt
    rwa [Nat.pow_mul, show 2 ^ 8 = 256 from rfl] at hlt
  have hmap := (reads_unsigned outside hv).map fun n => (BitVec.ofNat (8 * width) n).toInt
  rwa [BitVec.ofNat_toNat, BitVec.setWidth_eq] at hmap

/-! ### Slices at an offset -/

/-- A bound of `slice`: a negative one counts from the end. -/
def sliceBound (length : ℕ) (bound : ℤ) : ℕ :=
  if bound < 0 then (bound + length).toNat else min bound.toNat length

/-- `buffer.slice(start, end)` -/
def sliceFrom (bytes : List UInt8) (start stop : ℤ) : List UInt8 :=
  slice bytes (sliceBound bytes.length start) (sliceBound bytes.length stop - sliceBound bytes.length start)

theorem sliceBound_natCast {length n : ℕ} (h : n ≤ length) : sliceBound length n = n := by
  rw [sliceBound, if_neg (by omega), Int.toNat_natCast, min_eq_left h]

theorem sliceFrom_append (before content after : List UInt8) :
    sliceFrom (before ++ content ++ after) before.length (before.length + content.length) = content := by
  have hstart : sliceBound (before ++ content ++ after).length before.length = before.length :=
    sliceBound_natCast (by simp only [List.length_append]; omega)
  have hstop : sliceBound (before ++ content ++ after).length
      ((before.length : ℤ) + content.length) = before.length + content.length := by
    rw [← Nat.cast_add]
    exact sliceBound_natCast (by simp only [List.length_append]; omega)
  rw [sliceFrom, hstart, hstop, Nat.add_sub_cancel_left, List.append_assoc,
    slice_append_right le_rfl, Nat.sub_self, slice_append_left (by omega), slice_all]

/-- The bytes of a slice, and the offset moved by its length. -/
def raw (length : ℤ) : Cursor ε (List UInt8) := fun bytes offset =>
  .ok (sliceFrom bytes offset (offset + length), offset + length)

theorem reads_raw (content : List UInt8) :
    Reads (raw content.length : Cursor ε (List UInt8)) content content := by
  intro before after
  rw [raw, sliceFrom_append, List.length_append]
  push_cast
  rfl

/-! ### Terminated bytes -/

/-- How many bytes there are up to and with the first zero. -/
def terminator : List UInt8 → Option ℕ
  | [] => none
  | b :: bytes => if b = 0 then some 1 else (terminator bytes).map (· + 1)

theorem terminator_append {content : List UInt8} (h : 0 ∉ content) (after : List UInt8) :
    terminator (content ++ 0 :: after) = some (content.length + 1) := by
  induction content with
  | nil => rfl
  | cons b content ih =>
    rw [List.mem_cons, not_or] at h
    rw [List.cons_append, terminator, if_neg (Ne.symm h.1), ih h.2, List.length_cons]
    rfl

/-- The bytes before the next zero; a search that runs past the end throws. -/
def terminated (outside : ε) : Cursor ε (List UInt8) := fun bytes offset =>
  if offset < 0 then .error outside
  else
    match terminator (bytes.drop offset.toNat) with
    | none => .error outside
    | some length => .ok (sliceFrom bytes offset (offset + (length - 1 : ℕ)), offset + length)

theorem reads_terminated (outside : ε) {content : List UInt8} (h : 0 ∉ content) :
    Reads (terminated outside) (content ++ [0]) content := by
  intro before after
  have hdrop : (before ++ (content ++ [0]) ++ after).drop before.length = content ++ 0 :: after := by
    rw [List.append_assoc, List.drop_left, List.append_assoc]
    rfl
  have hslice : sliceFrom (before ++ (content ++ [0]) ++ after) before.length
      (before.length + content.length) = content := by
    have happend := sliceFrom_append before content (0 :: after)
    rw [List.append_assoc] at happend ⊢
    rw [List.append_assoc]
    exact happend
  rw [terminated, if_neg (by omega), Int.toNat_natCast, hdrop, terminator_append h]
  dsimp only
  rw [Nat.add_sub_cancel, hslice, List.length_append, List.length_append, List.length_singleton]
  push_cast
  rfl

end Cursor
