/-
UTF-16 strings and their UTF-8 encoding, as the WHATWG Encoding Standard has them.

A string is the list of its UTF-16 code units.  `textEncode` is `TextEncoder.encode`: an
unpaired surrogate becomes U+FFFD.  `textDecode` is `TextDecoder("utf-8", {fatal: true})
.decode`: anything but well-formed UTF-8 is an error, and one leading byte order mark is
dropped (`ignoreBOM` is off).  The byte level of UTF-8 is that of the standard library.
-/
import Mathlib

namespace Unicode

/-! ### UTF-16 -/

def isHigh (u : UInt16) : Bool := 0xd800 ≤ u && u ≤ 0xdbff
def isLow (u : UInt16) : Bool := 0xdc00 ≤ u && u ≤ 0xdfff

/-- The code units of a scalar value. -/
def units (c : Char) : List UInt16 :=
  if c.toNat < 0x10000 then [UInt16.ofNat c.toNat]
  else [UInt16.ofNat (0xd800 + (c.toNat - 0x10000) / 0x400),
    UInt16.ofNat (0xdc00 + (c.toNat - 0x10000) % 0x400)]

def ofChars (cs : List Char) : List UInt16 := cs.flatMap units

/-- The scalar values of a string; an unpaired surrogate reads as U+FFFD. -/
def toChars : List UInt16 → List Char
  | [] => []
  | u :: rest =>
    if isHigh u then
      match rest with
      | [] => [Char.ofNat 0xfffd]
      | v :: rest' =>
        if isLow v then
          Char.ofNat (0x10000 + (u.toNat - 0xd800) * 0x400 + (v.toNat - 0xdc00)) :: toChars rest'
        else Char.ofNat 0xfffd :: toChars (v :: rest')
    else if isLow u then Char.ofNat 0xfffd :: toChars rest
    else Char.ofNat u.toNat :: toChars rest

theorem isHigh_iff {u : UInt16} : isHigh u = true ↔ 0xd800 ≤ u.toNat ∧ u.toNat ≤ 0xdbff := by
  simp [isHigh, UInt16.le_iff_toNat_le]

theorem isLow_iff {u : UInt16} : isLow u = true ↔ 0xdc00 ≤ u.toNat ∧ u.toNat ≤ 0xdfff := by
  simp [isLow, UInt16.le_iff_toNat_le]

theorem toNat_ofNat_of_lt {n : Nat} (h : n < 0x10000) : (UInt16.ofNat n).toNat = n := by
  rw [UInt16.toNat_ofNat']
  exact Nat.mod_eq_of_lt h

theorem char_bounds (c : Char) :
    c.toNat < 0x110000 ∧ ¬ (0xd800 ≤ c.toNat ∧ c.toNat ≤ 0xdfff) := by
  have hv := c.valid
  have hn : c.toNat = c.val.toNat := rfl
  unfold UInt32.isValidChar Nat.isValidChar at hv
  omega

theorem toNat_char_ofNat {n : Nat} (h : n < 0x110000) (hs : ¬ (0xd800 ≤ n ∧ n ≤ 0xdfff)) :
    (Char.ofNat n).toNat = n := by
  have hv : n.isValidChar := by
    unfold Nat.isValidChar
    omega
  rw [Char.ofNat, dif_pos hv]
  rfl

theorem toChars_one {u : UInt16} (hhigh : isHigh u = false) (hlow : isLow u = false)
    (rest : List UInt16) : toChars (u :: rest) = Char.ofNat u.toNat :: toChars rest := by
  cases rest <;> simp [toChars, hhigh, hlow]

theorem toChars_pair {u v : UInt16} (hhigh : isHigh u = true) (hlow : isLow v = true)
    (rest : List UInt16) : toChars (u :: v :: rest) =
      Char.ofNat (0x10000 + (u.toNat - 0xd800) * 0x400 + (v.toNat - 0xdc00)) :: toChars rest := by
  rw [toChars, if_pos hhigh, if_pos hlow]

theorem toChars_units (c : Char) (rest : List UInt16) :
    toChars (units c ++ rest) = c :: toChars rest := by
  obtain ⟨hmax, hs⟩ := char_bounds c
  unfold units
  split
  · rename_i hlt
    have hn := toNat_ofNat_of_lt hlt
    have hhigh : isHigh (UInt16.ofNat c.toNat) = false := by
      rw [Bool.eq_false_iff, Ne, isHigh_iff]
      omega
    have hlow : isLow (UInt16.ofNat c.toNat) = false := by
      rw [Bool.eq_false_iff, Ne, isLow_iff]
      omega
    rw [List.singleton_append, toChars_one hhigh hlow, hn, Char.ofNat_toNat]
  · rename_i hge
    have hu : (UInt16.ofNat (0xd800 + (c.toNat - 0x10000) / 0x400)).toNat =
        0xd800 + (c.toNat - 0x10000) / 0x400 := toNat_ofNat_of_lt (by omega)
    have hv : (UInt16.ofNat (0xdc00 + (c.toNat - 0x10000) % 0x400)).toNat =
        0xdc00 + (c.toNat - 0x10000) % 0x400 := toNat_ofNat_of_lt (by omega)
    have hhigh : isHigh (UInt16.ofNat (0xd800 + (c.toNat - 0x10000) / 0x400)) = true := by
      rw [isHigh_iff]
      omega
    have hlow : isLow (UInt16.ofNat (0xdc00 + (c.toNat - 0x10000) % 0x400)) = true := by
      rw [isLow_iff]
      omega
    have hchar : 0x10000 + (0xd800 + (c.toNat - 0x10000) / 0x400 - 0xd800) * 0x400 +
        (0xdc00 + (c.toNat - 0x10000) % 0x400 - 0xdc00) = c.toNat := by omega
    rw [List.cons_append, List.singleton_append, toChars_pair hhigh hlow, hu, hv, hchar,
      Char.ofNat_toNat]

@[simp] theorem toChars_ofChars (cs : List Char) : toChars (ofChars cs) = cs := by
  induction cs with
  | nil => rfl
  | cons c cs ih =>
    show toChars (units c ++ ofChars cs) = c :: cs
    rw [toChars_units, ih]

theorem ofChars_injective {cs cs' : List Char} (h : ofChars cs = ofChars cs') : cs = cs' := by
  rw [← toChars_ofChars cs, h, toChars_ofChars]

theorem units_one {u : UInt16} (hhigh : isHigh u = false) (hlow : isLow u = false) :
    units (Char.ofNat u.toNat) = [u] := by
  have hlt : u.toNat < 0x10000 := u.toNat_lt
  rw [Bool.eq_false_iff, Ne, isHigh_iff] at hhigh
  rw [Bool.eq_false_iff, Ne, isLow_iff] at hlow
  rw [units, toNat_char_ofNat (by omega) (by omega), if_pos hlt, UInt16.ofNat_toNat]

theorem units_pair {u v : UInt16} (hhigh : isHigh u = true) (hlow : isLow v = true) :
    units (Char.ofNat (0x10000 + (u.toNat - 0xd800) * 0x400 + (v.toNat - 0xdc00))) = [u, v] := by
  rw [isHigh_iff] at hhigh
  rw [isLow_iff] at hlow
  have hu : 0xd800 + ((u.toNat - 0xd800) * 0x400 + (v.toNat - 0xdc00)) / 0x400 = u.toNat := by
    omega
  have hv : 0xdc00 + ((u.toNat - 0xd800) * 0x400 + (v.toNat - 0xdc00)) % 0x400 = v.toNat := by
    omega
  rw [units, toNat_char_ofNat (by omega) (by omega), if_neg (by omega), Nat.add_assoc,
    Nat.add_sub_cancel_left, hu, hv, UInt16.ofNat_toNat, UInt16.ofNat_toNat]

/-! ### UTF-8 -/

def utf8 (cs : List Char) : List UInt8 := cs.flatMap String.utf8EncodeChar

/-- The scalar values that well-formed UTF-8 spells. -/
def decodeUtf8 (bytes : List UInt8) : Option (List Char) :=
  (ByteArray.mk bytes.toArray).utf8Decode?.map Array.toList

theorem utf8Encode_toList (cs : List Char) : cs.utf8Encode.data.toList = utf8 cs := by
  simp [List.utf8Encode, utf8]

/-- A byte string decodes to the scalar values whose encoding it is. -/
theorem decodeUtf8_eq_some {bytes : List UInt8} {cs : List Char} :
    decodeUtf8 bytes = some cs ↔ bytes = utf8 cs := by
  unfold decodeUtf8
  rw [Option.map_eq_some_iff]
  constructor
  · rintro ⟨chars, hdecode, rfl⟩
    have hsome : (ByteArray.mk bytes.toArray).utf8Decode?.isSome := by rw [hdecode]; rfl
    have hencode := @ByteArray.utf8Encode_get_utf8Decode? (ByteArray.mk bytes.toArray) hsome
    simp only [hdecode, Option.get_some] at hencode
    rw [← utf8Encode_toList, hencode]
  · rintro rfl
    have hbytes : ByteArray.mk (utf8 cs).toArray = cs.utf8Encode := by
      rw [← utf8Encode_toList]
    rw [hbytes, List.utf8Decode?_utf8Encode]
    exact ⟨cs.toArray, rfl, rfl⟩

@[simp] theorem utf8_append (cs cs' : List Char) : utf8 (cs ++ cs') = utf8 cs ++ utf8 cs' :=
  List.flatMap_append

@[simp] theorem utf8_cons (c : Char) (cs : List Char) :
    utf8 (c :: cs) = String.utf8EncodeChar c ++ utf8 cs := rfl

theorem utf8_injective {cs cs' : List Char} (h : utf8 cs = utf8 cs') : cs = cs' := by
  have h1 := decodeUtf8_eq_some.mpr (Eq.refl (utf8 cs))
  rw [h, decodeUtf8_eq_some.mpr rfl] at h1
  exact (Option.some.inj h1).symm

/-! ### The encoder and the decoder -/

/-- The byte order mark. -/
def bom : Char := Char.ofNat 0xfeff

/-- `new TextEncoder().encode(value)` -/
def textEncode (value : List UInt16) : List UInt8 := utf8 (toChars value)

/-- Drop one byte order mark. -/
def dropBom : List Char → List Char
  | [] => []
  | c :: cs => if c = bom then cs else c :: cs

/-- `new TextDecoder("utf-8", { fatal: true }).decode(bytes)`, `none` where it throws. -/
def textDecode (bytes : List UInt8) : Option (List UInt16) :=
  (decodeUtf8 bytes).map fun cs => ofChars (dropBom cs)

@[simp] theorem textEncode_ofChars (cs : List Char) : textEncode (ofChars cs) = utf8 cs := by
  rw [textEncode, toChars_ofChars]

/-- A decoded string encodes to as many bytes as it was decoded from only when there was no
byte order mark, and then to the same bytes. -/
theorem textDecode_exact {bytes : List UInt8} {value : List UInt16} :
    textDecode bytes = some value ∧ (textEncode value).length = bytes.length ↔
      ∃ cs, cs.head? ≠ some bom ∧ value = ofChars cs ∧ bytes = utf8 cs := by
  unfold textDecode
  simp only [Option.map_eq_some_iff, decodeUtf8_eq_some]
  constructor
  · rintro ⟨⟨cs, rfl, rfl⟩, hlen⟩
    rw [textEncode_ofChars] at hlen
    cases cs with
    | nil => exact ⟨[], by simp, rfl, rfl⟩
    | cons c cs =>
      by_cases hc : c = bom
      · -- the mark was dropped, so its bytes are missing
        rw [dropBom, if_pos hc, utf8_cons, List.length_append, String.length_utf8EncodeChar] at hlen
        have hpos := c.utf8Size_pos
        omega
      · refine ⟨c :: cs, ?_, by rw [dropBom, if_neg hc], rfl⟩
        rw [List.head?_cons]
        exact fun h => hc (Option.some.inj h)
  · rintro ⟨cs, hbom, rfl, rfl⟩
    rw [textEncode_ofChars]
    refine ⟨⟨cs, rfl, ?_⟩, rfl⟩
    cases cs with
    | nil => rfl
    | cons c cs =>
      rw [dropBom, if_neg (fun hc => hbom (by rw [hc, List.head?_cons]))]

end Unicode
