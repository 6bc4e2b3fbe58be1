/-
`new TextDecoder().decode(bytes)`: the UTF-8 decoder that never refuses.

An ill-formed sequence reads as U+FFFD, and the byte that broke it off is read again.  One leading
byte order mark is dropped.  Well-formed text comes through as it is (`lossy_utf8`).
-/
import Pgxsinkit.Lib.Unicode

namespace Unicode

/-- U+FFFD -/
def replacement : Char := Char.ofNat 0xfffd

/-- A sequence that has begun: the scalar value so far, the bytes it still needs, and the bounds of
the next one. -/
structure Begun where
  codePoint : ℕ
  needed : ℕ
  lower : ℕ := 0x80
  upper : ℕ := 0xbf

/-- The first byte of a sequence. -/
def lead (byte : ℕ) : Char ⊕ Begun :=
  if byte ≤ 0x7f then .inl (Char.ofNat byte)
  else if 0xc2 ≤ byte ∧ byte ≤ 0xdf then
    .inr { codePoint := byte - 0xc0, needed := 1 }
  else if 0xe0 ≤ byte ∧ byte ≤ 0xef then
    .inr { codePoint := byte - 0xe0, needed := 2
           lower := if byte = 0xe0 then 0xa0 else 0x80
           upper := if byte = 0xed then 0x9f else 0xbf }
  else if 0xf0 ≤ byte ∧ byte ≤ 0xf4 then
    .inr { codePoint := byte - 0xf0, needed := 3
           lower := if byte = 0xf0 then 0x90 else 0x80
           upper := if byte = 0xf4 then 0x8f else 0xbf }
  else .inl replacement

/-- A later byte of a sequence, which lies in its bounds. -/
def Begun.next (begun : Begun) (byte : ℕ) : Char ⊕ Begun :=
  let codePoint := begun.codePoint * 0x40 + (byte - 0x80)
  if begun.needed = 1 then .inl (Char.ofNat codePoint)
  else .inr { codePoint, needed := begun.needed - 1 }

/-- What the decoder makes of the bytes from a state on. -/
def decodeFrom : Option Begun → List UInt8 → List Char
  | none, [] => []
  | some _, [] => [replacement]
  | none, byte :: bytes =>
    match lead byte.toNat with
    | .inl c => c :: decodeFrom none bytes
    | .inr begun => decodeFrom (some begun) bytes
  | some begun, byte :: bytes =>
    if begun.lower ≤ byte.toNat ∧ byte.toNat ≤ begun.upper then
      match begun.next byte.toNat with
      | .inl c => c :: decodeFrom none bytes
      | .inr begun => decodeFrom (some begun) bytes
    else
      -- the byte is prepended to the stream again
      replacement ::
        match lead byte.toNat with
        | .inl c => c :: decodeFrom none bytes
        | .inr begun => decodeFrom (some begun) bytes

def lossy (bytes : List UInt8) : List Char := decodeFrom none bytes

/-- `new TextDecoder().decode(bytes)` -/
def lossyDecode (bytes : List UInt8) : List UInt16 := ofChars (dropBom (lossy bytes))

/-! ### Well-formed text -/

theorem decodeFrom_lead {byte : UInt8} {begun : Begun} (h : lead byte.toNat = .inr begun)
    (bytes : List UInt8) : decodeFrom none (byte :: bytes) = decodeFrom (some begun) bytes := by
  rw [decodeFrom, h]

theorem decodeFrom_next {byte : UInt8} {begun : Begun} (begun' : Begun)
    (hb : begun.lower ≤ byte.toNat ∧ byte.toNat ≤ begun.upper)
    (h : begun.next byte.toNat = .inr begun') (bytes : List UInt8) :
    decodeFrom (some begun) (byte :: bytes) = decodeFrom (some begun') bytes := by
  rw [decodeFrom, if_pos hb, h]

theorem decodeFrom_last {byte : UInt8} {begun : Begun} {c : Char}
    (hb : begun.lower ≤ byte.toNat ∧ byte.toNat ≤ begun.upper)
    (h : begun.next byte.toNat = .inl c) (bytes : List UInt8) :
    decodeFrom (some begun) (byte :: bytes) = c :: decodeFrom none bytes := by
  rw [decodeFrom, if_pos hb, h]

theorem Begun.next_inner {begun : Begun} {six n : ℕ} (hneeded : begun.needed ≠ 1)
    (h : begun.codePoint * 0x40 + six = n) :
    begun.next (six + 0x80) = .inr { codePoint := n, needed := begun.needed - 1 } := by
  rw [Begun.next, if_neg hneeded, Nat.add_sub_cancel, h]

theorem Begun.next_last {begun : Begun} {six n : ℕ} (hneeded : begun.needed = 1)
    (h : begun.codePoint * 0x40 + six = n) : begun.next (six + 0x80) = .inl (Char.ofNat n) := by
  rw [Begun.next, if_pos hneeded, Nat.add_sub_cancel, h]

theorem toNat_byte {n : ℕ} (h : n < 256) : (UInt8.ofNat n).toNat = n := by
  rw [UInt8.toNat_ofNat']
  exact Nat.mod_eq_of_lt h

/-- The encoding of a scalar value, byte by byte. -/
theorem utf8EncodeChar_eq (c : Char) : String.utf8EncodeChar c =
    if c.toNat ≤ 0x7f then [UInt8.ofNat c.toNat]
    else if c.toNat ≤ 0x7ff then
      [UInt8.ofNat (c.toNat / 0x40 + 0xc0), UInt8.ofNat (c.toNat % 0x40 + 0x80)]
    else if c.toNat ≤ 0xffff then
      [UInt8.ofNat (c.toNat / 0x1000 + 0xe0), UInt8.ofNat (c.toNat / 0x40 % 0x40 + 0x80),
        UInt8.ofNat (c.toNat % 0x40 + 0x80)]
    else
      [UInt8.ofNat (c.toNat / 0x40000 + 0xf0), UInt8.ofNat (c.toNat / 0x1000 % 0x40 + 0x80),
        UInt8.ofNat (c.toNat / 0x40 % 0x40 + 0x80), UInt8.ofNat (c.toNat % 0x40 + 0x80)] := by
  obtain ⟨hmax, -⟩ := char_bounds c
  have hn : c.val.toNat = c.toNat := rfl
  unfold String.utf8EncodeChar
  simp only [hn]
  split_ifs with h1 h2 h3
  · rfl
  · rw [Nat.mod_eq_of_lt (show c.toNat / 64 < 0x20 by omega)]
  · rw [Nat.mod_eq_of_lt (show c.toNat / 4096 < 0x10 by omega)]
  · rw [Nat.mod_eq_of_lt (show c.toNat / 262144 < 0x08 by omega)]

theorem decodeFrom_two {n : ℕ} (hlow : ¬ n ≤ 0x7f) (h : n ≤ 0x7ff) (bytes : List UInt8) :
    decodeFrom none (UInt8.ofNat (n / 0x40 + 0xc0) :: UInt8.ofNat (n % 0x40 + 0x80) :: bytes) =
      Char.ofNat n :: decodeFrom none bytes := by
  have h0 := toNat_byte (show n / 0x40 + 0xc0 < 256 by omega)
  have h1 := toNat_byte (show n % 0x40 + 0x80 < 256 by omega)
  have hlead : lead (n / 0x40 + 0xc0) = .inr { codePoint := n / 0x40, needed := 1 } := by
    rw [lead, if_neg (by omega), if_pos (by omega), Nat.add_sub_cancel]
  rw [decodeFrom_lead (by rw [h0]; exact hlead)]
  refine decodeFrom_last ?_ ?_ bytes
  · rw [h1]
    show 0x80 ≤ n % 0x40 + 0x80 ∧ n % 0x40 + 0x80 ≤ 0xbf
    omega
  · rw [h1]
    exact Begun.next_last rfl (Nat.div_add_mod' n 0x40)

theorem decodeFrom_three {n : ℕ} (hlow : ¬ n ≤ 0x7ff) (h : n ≤ 0xffff)
    (hs : ¬ (0xd800 ≤ n ∧ n ≤ 0xdfff)) (bytes : List UInt8) :
    decodeFrom none (UInt8.ofNat (n / 0x1000 + 0xe0) :: UInt8.ofNat (n / 0x40 % 0x40 + 0x80) ::
      UInt8.ofNat (n % 0x40 + 0x80) :: bytes) = Char.ofNat n :: decodeFrom none bytes := by
  have h0 := toNat_byte (show n / 0x1000 + 0xe0 < 256 by omega)
  have h1 := toNat_byte (show n / 0x40 % 0x40 + 0x80 < 256 by omega)
  have h2 := toNat_byte (show n % 0x40 + 0x80 < 256 by omega)
  have hlead : lead (n / 0x1000 + 0xe0) =
      .inr { codePoint := n / 0x1000, needed := 2
             lower := if n / 0x1000 + 0xe0 = 0xe0 then 0xa0 else 0x80
             upper := if n / 0x1000 + 0xe0 = 0xed then 0x9f else 0xbf } := by
    rw [lead, if_neg (by omega), if_neg (by omega), if_pos (by omega), Nat.add_sub_cancel]
  rw [decodeFrom_lead (by rw [h0]; exact hlead)]
  rw [decodeFrom_next { codePoint := n / 0x40, needed := 1 } ?bounds ?next]
  case bounds =>
    -- neither an overlong form nor a surrogate
    rw [h1]
    show (if n / 0x1000 + 0xe0 = 0xe0 then 0xa0 else 0x80) ≤ n / 0x40 % 0x40 + 0x80 ∧
      n / 0x40 % 0x40 + 0x80 ≤ (if n / 0x1000 + 0xe0 = 0xed then 0x9f else 0xbf)
    split_ifs <;> omega
  case next =>
    rw [h1]
    exact Begun.next_inner (Nat.succ_succ_ne_one _)
      (show n / 0x1000 * 0x40 + n / 0x40 % 0x40 = n / 0x40 by omega)
  refine decodeFrom_last ?_ ?_ bytes
  · rw [h2]
    show 0x80 ≤ n % 0x40 + 0x80 ∧ n % 0x40 + 0x80 ≤ 0xbf
    omega
  · rw [h2]
    exact Begun.next_last rfl (Nat.div_add_mod' n 0x40)

theorem decodeFrom_four {n : ℕ} (hlow : ¬ n ≤ 0xffff) (h : n < 0x110000) (bytes : List UInt8) :
    decodeFrom none (UInt8.ofNat (n / 0x40000 + 0xf0) :: UInt8.ofNat (n / 0x1000 % 0x40 + 0x80) ::
      UInt8.ofNat (n / 0x40 % 0x40 + 0x80) :: UInt8.ofNat (n % 0x40 + 0x80) :: bytes) =
        Char.ofNat n :: decodeFrom none bytes := by
  have h0 := toNat_byte (show n / 0x40000 + 0xf0 < 256 by omega)
  have h1 := toNat_byte (show n / 0x1000 % 0x40 + 0x80 < 256 by omega)
  have h2 := toNat_byte (show n / 0x40 % 0x40 + 0x80 < 256 by omega)
  have h3 := toNat_byte (show n % 0x40 + 0x80 < 256 by omega)
  have hlead : lead (n / 0x40000 + 0xf0) =
      .inr { codePoint := n / 0x40000, needed := 3
             lower := if n / 0x40000 + 0xf0 = 0xf0 then 0x90 else 0x80
             upper := if n / 0x40000 + 0xf0 = 0xf4 then 0x8f else 0xbf } := by
    rw [lead, if_neg (by omega), if_neg (by omega), if_neg (by omega), if_pos (by omega),
      Nat.add_sub_cancel]
  rw [decodeFrom_lead (by rw [h0]; exact hlead)]
  rw [decodeFrom_next { codePoint := n / 0x1000, needed := 2 } ?bounds ?next]
  case bounds =>
    rw [h1]
    show (if n / 0x40000 + 0xf0 = 0xf0 then 0x90 else 0x80) ≤ n / 0x1000 % 0x40 + 0x80 ∧
      n / 0x1000 % 0x40 + 0x80 ≤ (if n / 0x40000 + 0xf0 = 0xf4 then 0x8f else 0xbf)
    split_ifs <;> omega
  case next =>
    rw [h1]
    exact Begun.next_inner (Nat.succ_succ_ne_one _)
      (show n / 0x40000 * 0x40 + n / 0x1000 % 0x40 = n / 0x1000 by omega)
  rw [decodeFrom_next { codePoint := n / 0x40, needed := 1 } ?bounds ?next]
  case bounds =>
    rw [h2]
    show 0x80 ≤ n / 0x40 % 0x40 + 0x80 ∧ n / 0x40 % 0x40 + 0x80 ≤ 0xbf
    omega
  case next =>
    rw [h2]
    exact Begun.next_inner (Nat.succ_succ_ne_one _)
      (show n / 0x1000 * 0x40 + n / 0x40 % 0x40 = n / 0x40 by omega)
  refine decodeFrom_last ?_ ?_ bytes
  · rw [h3]
    show 0x80 ≤ n % 0x40 + 0x80 ∧ n % 0x40 + 0x80 ≤ 0xbf
    omega
  · rw [h3]
    exact Begun.next_last rfl (Nat.div_add_mod' n 0x40)

/-- A well-formed sequence is its scalar value, whatever follows. -/
theorem lossy_utf8EncodeChar (c : Char) (bytes : List UInt8) :
    lossy (String.utf8EncodeChar c ++ bytes) = c :: lossy bytes := by
  obtain ⟨hmax, hs⟩ := char_bounds c
  have hc : Char.ofNat c.toNat = c := Char.ofNat_toNat c
  rw [utf8EncodeChar_eq, lossy, lossy]
  split_ifs with h1 h2 h3
  · have h0 := toNat_byte (show c.toNat < 256 by omega)
    rw [List.singleton_append, decodeFrom, h0, lead, if_pos h1, hc]
  · show decodeFrom none (_ :: _ :: bytes) = _
    rw [decodeFrom_two h1 h2, hc]
  · show decodeFrom none (_ :: _ :: _ :: bytes) = _
    rw [decodeFrom_three h2 h3 hs, hc]
  · show decodeFrom none (_ :: _ :: _ :: _ :: bytes) = _
    rw [decodeFrom_four h3 hmax, hc]

@[simp] theorem lossy_utf8 (cs : List Char) : lossy (utf8 cs) = cs := by
  induction cs with
  | nil => rfl
  | cons c cs ih => rw [utf8_cons, lossy_utf8EncodeChar, ih]

@[simp] theorem lossyDecode_utf8 (cs : List Char) :
    lossyDecode (utf8 cs) = ofChars (dropBom cs) := by
  rw [lossyDecode, lossy_utf8]

end Unicode
