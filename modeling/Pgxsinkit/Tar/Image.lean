/-
What `writeTar` writes: a header, the payload and its padding for each entry, and two zero records.

`Stored` is what an accepted entry puts into its header, and `writeTar_eq_ok` says that the archive
is the row of the records of its entries.
-/
import Pgxsinkit.Tar.Codec

namespace Tar

open Bytes Checked Unicode

/-! ### Octal numbers -/

/-- The octal digits of a number, zeros in front up to a width. -/
def octalChars (width n : ℕ) : List Char :=
  List.replicate (width - (Nat.toDigits 8 n).length) '0' ++ Nat.toDigits 8 n

def octalDigits (width n : ℕ) : List UInt8 := utf8 (octalChars width n)

theorem digit_bounds {n : ℕ} {c : Char} (h : c ∈ Nat.toDigits 8 n) :
    0x30 ≤ c.toNat ∧ c.toNat ≤ 0x37 := by
  induction n using Nat.strong_induction_on with
  | _ n ih =>
    rw [Nat.toDigits_eq_if (by omega)] at h
    have hdigit : ∀ d, d < 8 → 0x30 ≤ d.digitChar.toNat ∧ d.digitChar.toNat ≤ 0x37 := by decide
    split at h
    · rename_i hlt
      rw [List.mem_singleton] at h
      exact h ▸ hdigit n hlt
    · rw [List.mem_append, List.mem_singleton] at h
      rcases h with h | rfl
      · exact ih (n / 8) (by omega) h
      · exact hdigit (n % 8) (by omega)

theorem octalChars_bounds {width n : ℕ} {c : Char} (h : c ∈ octalChars width n) :
    0x30 ≤ c.toNat ∧ c.toNat ≤ 0x37 := by
  rw [octalChars, List.mem_append] at h
  rcases h with h | h
  · rw [List.eq_of_mem_replicate h]
    decide
  · exact digit_bounds h

theorem length_octalChars {width n : ℕ} (hwidth : 0 < width) (h : n < 8 ^ width) :
    (octalChars width n).length = width := by
  have hlen := (Nat.length_toDigits_le_iff (by omega) hwidth).mpr h
  rw [octalChars, List.length_append, List.length_replicate]
  omega

theorem octalChars_value (width n : ℕ) : Nat.ofDigitChars 8 (octalChars width n) 0 = n := by
  rw [octalChars, Nat.ofDigitChars_append, Nat.ofDigitChars_replicate_zero, Nat.mul_zero,
    Nat.ofDigitChars_toDigits (by omega) (by omega)]

/-- A character of one byte is one code unit. -/
theorem units_ascii {c : Char} (h : c.toNat < 0x80) : units c = [UInt16.ofNat c.toNat] := by
  rw [units, if_pos (by omega)]

theorem ofChars_ascii {cs : List Char} (h : ∀ c ∈ cs, c.toNat < 0x80) :
    ofChars cs = cs.map fun c => UInt16.ofNat c.toNat := by
  induction cs with
  | nil => rfl
  | cons c cs ih =>
    rw [List.forall_mem_cons] at h
    show units c ++ ofChars cs = _
    rw [units_ascii h.1, ih h.2]
    rfl

theorem utf8_ascii {cs : List Char} (h : ∀ c ∈ cs, c.toNat < 0x80) :
    utf8 cs = cs.map fun c => UInt8.ofNat c.toNat := by
  induction cs with
  | nil => rfl
  | cons c cs ih =>
    rw [List.forall_mem_cons] at h
    rw [utf8_cons, utf8EncodeChar_eq, if_pos (by omega), ih h.2]
    rfl

theorem length_octal (n : ℕ) : (octal n).length = (Nat.toDigits 8 n).length := by
  rw [octal, ofChars_ascii (fun c hc => by have := digit_bounds hc; omega), List.length_map]

theorem padStart_octal (width n : ℕ) :
    padStart width (octal n) = ofChars (octalChars width n) := by
  have hzeros : ∀ k, ofChars (List.replicate k '0') = List.replicate k 0x30 := by
    intro k
    rw [ofChars_ascii (fun c hc => by rw [List.eq_of_mem_replicate hc]; decide),
      List.map_replicate]
    rfl
  rw [padStart, length_octal, octalChars, ofChars, List.flatMap_append, ← ofChars, ← ofChars,
    hzeros, octal]

theorem textEncode_padStart (width n : ℕ) :
    textEncode (padStart width (octal n)) = octalDigits width n := by
  rw [padStart_octal, textEncode_ofChars, octalDigits]

theorem length_octalDigits {width n : ℕ} (hwidth : 0 < width) (h : n < 8 ^ width) :
    (octalDigits width n).length = width := by
  rw [octalDigits, utf8_ascii (fun c hc => by have := octalChars_bounds hc; omega),
    List.length_map, length_octalChars hwidth h]

/-! ### Single writes -/

theorem writeString_eq_ok {archive archive' : List UInt8} {start length : ℕ} {value : Text}
    {terminate : Bool} : writeString archive start length value terminate = .ok archive' ↔
      (textEncode value).length ≤ (if terminate then length - 1 else length) ∧
        overwrite archive start (textEncode value) = archive' := by
  simp only [writeString, bind_eq_ok, throwIf_eq_ok, Nat.not_lt, pure_eq_ok]
  constructor
  · rintro ⟨-, hlen, harchive⟩
    exact ⟨hlen, harchive⟩
  · rintro ⟨hlen, harchive⟩
    exact ⟨(), hlen, harchive⟩

/-- A number is written when it is a natural number that has the room. -/
theorem writeOctal_eq_ok {archive archive' : List UInt8} {start length : ℕ} {value : JsNumber}
    (hlength : 1 < length) : writeOctal archive start length value = .ok archive' ↔
      ∃ n : ℕ, value.safeInteger? = some (n : ℤ) ∧ n < 8 ^ (length - 1) ∧
        overwrite archive start (octalDigits (length - 1) n) = archive' := by
  unfold writeOctal
  split
  · rename_i n hn
    have hroom : (octal n).length ≤ length - 1 ↔ n < 8 ^ (length - 1) := by
      rw [length_octal, Nat.length_toDigits_le_iff (by omega) (by omega)]
    simp only [bind_eq_ok, throwIf_eq_ok, Nat.not_lt, hroom, writeString_eq_ok,
      textEncode_padStart]
    constructor
    · rintro ⟨-, hlt, -, harchive⟩
      exact ⟨n, hn, hlt, harchive⟩
    · rintro ⟨n', hn', hlt, harchive⟩
      have hsame : n' = n := by
        rw [hn, Option.some.injEq] at hn'
        exact (Int.ofNat.inj hn').symm
      subst hsame
      refine ⟨(), hlt, ?_, harchive⟩
      rw [if_pos trivial, length_octalDigits (by omega) hlt]
  · rename_i hnone
    constructor
    · intro h
      cases h
    · rintro ⟨n, hn, -⟩
      exact absurd hn (hnone n)

/-! ### Names -/

/-- Both parts of a split name fit their fields. -/
theorem splitName_fits {name before rest : Text} (h : splitName name = .ok (before, rest)) :
    (textEncode before).length < PREFIX_LENGTH ∧ (textEncode rest).length < NAME_LENGTH := by
  unfold splitName at h
  split at h
  · rename_i hshort
    cases h
    exact ⟨by decide, hshort⟩
  · have hfits := List.find?_some (orThrow_eq_ok.mp h)
    exact of_decide_eq_true hfits

/-! ### Headers -/

/-- A value at the start of a field of zeros. -/
def field (width : ℕ) (value : List UInt8) : List UInt8 := value ++ zeros (width - value.length)

theorem length_field {width : ℕ} {value : List UInt8} (h : value.length ≤ width) :
    (field width value).length = width := by
  rw [field, List.length_append, length_zeros]
  omega

/-- What goes into a header. -/
structure Stored where
  before : Text
  rest : Text
  mode : ℕ
  size : ℕ
  mtime : ℕ
  type : EntryType

structure Stored.Fits (stored : Stored) : Prop where
  before : (textEncode stored.before).length < PREFIX_LENGTH
  rest : (textEncode stored.rest).length < NAME_LENGTH
  mode : stored.mode < 8 ^ 7
  size : stored.size < 8 ^ 11
  mtime : stored.mtime < 8 ^ 11

def headerWidths : List ℕ := [100, 8, 8, 8, 12, 12, 8, 1, 100, 6, 2, 80, 155, 12]

/-- The fields of a header. -/
def Stored.fields (stored : Stored) (checksum : List UInt8) : List (List UInt8) :=
  [field 100 (textEncode stored.rest), field 8 (octalDigits 7 stored.mode),
    field 8 (octalDigits 7 0), field 8 (octalDigits 7 0), field 12 (octalDigits 11 stored.size),
    field 12 (octalDigits 11 stored.mtime), checksum, [stored.type.flag], zeros 100,
    field 6 (textEncode (text "ustar")), field 2 (textEncode (text "00")), zeros 80,
    field 155 (textEncode stored.before), zeros 12]

def blank : List UInt8 := List.replicate 8 0x20

/-- The sum of the bytes of a header, its checksum read as spaces. -/
def Stored.sum (stored : Stored) : ℕ := byteSum (stored.fields blank).flatten

def Stored.header (stored : Stored) : List UInt8 :=
  (stored.fields (octalDigits 6 stored.sum ++ [0, 0x20])).flatten

theorem length_ustar : (textEncode (text "ustar")).length = 5 := by decide
theorem length_version : (textEncode (text "00")).length = 2 := by decide

theorem Stored.Fits.widths {stored : Stored} (h : stored.Fits) {checksum : List UInt8}
    (hlen : checksum.length = 8) :
    (stored.fields checksum).map List.length = headerWidths := by
  have hrest := h.rest
  have hbefore := h.before
  have hzero : (octalDigits 7 0).length = 7 := length_octalDigits (by omega) (by omega)
  simp only [NAME_LENGTH, PREFIX_LENGTH] at hrest hbefore
  simp only [Stored.fields, List.map_cons, List.map_nil, length_zeros, hlen, List.length_singleton]
  rw [length_field (by omega), length_field (by rw [length_octalDigits (by omega) h.mode]; omega),
    length_field (by omega), length_field (by rw [length_octalDigits (by omega) h.size]; omega),
    length_field (by rw [length_octalDigits (by omega) h.mtime]; omega),
    length_field (by rw [length_ustar]; omega), length_field (by rw [length_version]),
    length_field (by omega)]
  rfl

theorem length_flatten_of_widths {fields : List (List UInt8)}
    (h : fields.map List.length = headerWidths) : fields.flatten.length = RECORD := by
  rw [List.length_flatten, h]
  rfl

theorem byteSum_le (bytes : List UInt8) : byteSum bytes ≤ 255 * bytes.length := by
  induction bytes with
  | nil => exact Nat.le_refl 0
  | cons byte bytes ih =>
    have hbyte : byte.toNat < 256 := byte.toNat_lt
    show byte.toNat + byteSum bytes ≤ 255 * (bytes.length + 1)
    omega

theorem Stored.Fits.sum_lt {stored : Stored} (h : stored.Fits) : stored.sum < 8 ^ 6 := by
  have hle := byteSum_le (stored.fields blank).flatten
  rw [length_flatten_of_widths (h.widths rfl), RECORD] at hle
  rw [Stored.sum]
  omega

theorem Stored.Fits.length_checksum {stored : Stored} (h : stored.Fits) :
    (octalDigits 6 stored.sum ++ [0, 0x20]).length = 8 := by
  rw [List.length_append, length_octalDigits (by omega) h.sum_lt]
  rfl

theorem Stored.Fits.length_header {stored : Stored} (h : stored.Fits) :
    stored.header.length = RECORD :=
  length_flatten_of_widths (h.widths h.length_checksum)

variable {left right : List UInt8}

/-- A write into a zeroed field of a header. -/
theorem overwrite_row {fields : List (List UInt8)} {value : List UInt8} {width : ℕ}
    (hw : fields.map List.length = headerWidths) (i : ℕ) (hzero : fields[i]? = some (zeros width))
    (hlen : value.length ≤ width) :
    overwrite (left ++ (fields.flatten ++ right)) (left.length + (headerWidths.take i).sum) value =
        left ++ ((fields.set i (field width value)).flatten ++ right) ∧
      (fields.set i (field width value)).map List.length = headerWidths := by
  obtain ⟨hi, hget⟩ := List.getElem?_eq_some_iff.mp hzero
  have hwidth : (fields.map List.length)[i]? = some width := by
    rw [List.getElem?_map, hzero, Option.map_some, length_zeros]
  have hroom : (headerWidths.take i).sum + value.length ≤ fields.flatten.length := by
    have hsplit := congrArg List.length (flatten_split hi)
    have hbefore : (fields.take i).flatten.length = (headerWidths.take i).sum := by
      rw [List.length_flatten, List.map_take, hw]
    rw [List.length_append, List.length_append, hget, length_zeros] at hsplit
    omega
  have hwrite := @overwrite_flatten fields value i (headerWidths.take i).sum 0 hi (by rw [hw])
    (by rw [hget, length_zeros]; omega)
  rw [Nat.add_zero, hget, overwrite_zeros] at hwrite
  constructor
  · rw [overwrite_part hroom, hwrite, field]
  · obtain ⟨hi', hget'⟩ := List.getElem?_eq_some_iff.mp hwidth
    rw [List.map_set, length_field hlen, ← hw, ← hget', List.set_getElem_self]

/-- The fields of a header written at an offset, the checksum as spaces. -/
def filled (archive : List UInt8) (offset : ℕ) (stored : Stored) : List UInt8 :=
  let archive := overwrite archive (offset + 0) (textEncode stored.rest)
  let archive := overwrite archive (offset + 100) (octalDigits 7 stored.mode)
  let archive := overwrite archive (offset + 108) (octalDigits 7 0)
  let archive := overwrite archive (offset + 116) (octalDigits 7 0)
  let archive := overwrite archive (offset + 124) (octalDigits 11 stored.size)
  let archive := overwrite archive (offset + 136) (octalDigits 11 stored.mtime)
  let archive := overwrite archive (offset + 156) [stored.type.flag]
  let archive := overwrite archive (offset + 257) (textEncode (text "ustar"))
  let archive := overwrite archive (offset + 263) (textEncode (text "00"))
  let archive := overwrite archive (offset + 345) (textEncode stored.before)
  overwrite archive (offset + 148) blank

theorem filled_eq {stored : Stored} (h : stored.Fits) :
    filled (left ++ (zeros RECORD ++ right)) left.length stored =
      left ++ ((stored.fields blank).flatten ++ right) := by
  have hrest := h.rest
  have hbefore := h.before
  have hzero : (octalDigits 7 0).length = 7 := length_octalDigits (by omega) (by omega)
  have hmode := length_octalDigits (show 0 < 7 by omega) h.mode
  have hsize := length_octalDigits (show 0 < 11 by omega) h.size
  have hmtime := length_octalDigits (show 0 < 11 by omega) h.mtime
  simp only [NAME_LENGTH, PREFIX_LENGTH] at hrest hbefore
  have hw0 : (headerWidths.map zeros).map List.length = headerWidths := by decide
  have hstart : zeros RECORD = (headerWidths.map zeros).flatten := zeros_sum headerWidths
  obtain ⟨e0, hw1⟩ := @overwrite_row left right _ (textEncode stored.rest) 100 hw0 0 rfl (by omega)
  obtain ⟨e1, hw2⟩ := @overwrite_row left right _ (octalDigits 7 stored.mode) 8 hw1 1 rfl (by omega)
  obtain ⟨e2, hw3⟩ := @overwrite_row left right _ (octalDigits 7 0) 8 hw2 2 rfl (by omega)
  obtain ⟨e3, hw4⟩ := @overwrite_row left right _ (octalDigits 7 0) 8 hw3 3 rfl (by omega)
  obtain ⟨e4, hw5⟩ := @overwrite_row left right _ (octalDigits 11 stored.size) 12 hw4 4 rfl (by omega)
  obtain ⟨e5, hw6⟩ := @overwrite_row left right _ (octalDigits 11 stored.mtime) 12 hw5 5 rfl (by omega)
  obtain ⟨e6, hw7⟩ := @overwrite_row left right _ [stored.type.flag] 1 hw6 7 rfl (Nat.le_refl 1)
  obtain ⟨e7, hw8⟩ := @overwrite_row left right _ (textEncode (text "ustar")) 6 hw7 9 rfl
    (by rw [length_ustar]; omega)
  obtain ⟨e8, hw9⟩ := @overwrite_row left right _ (textEncode (text "00")) 2 hw8 10 rfl
    (by rw [length_version])
  obtain ⟨e9, hw10⟩ := @overwrite_row left right _ (textEncode stored.before) 155 hw9 12 rfl (by omega)
  obtain ⟨e10, -⟩ := @overwrite_row left right _ blank 8 hw10 6 rfl (Nat.le_refl 8)
  rw [hstart]
  show overwrite (overwrite (overwrite (overwrite (overwrite (overwrite (overwrite (overwrite
    (overwrite (overwrite (overwrite _ (left.length + (headerWidths.take 0).sum) _)
    (left.length + (headerWidths.take 1).sum) _) (left.length + (headerWidths.take 2).sum) _)
    (left.length + (headerWidths.take 3).sum) _) (left.length + (headerWidths.take 4).sum) _)
    (left.length + (headerWidths.take 5).sum) _) (left.length + (headerWidths.take 7).sum) _)
    (left.length + (headerWidths.take 9).sum) _) (left.length + (headerWidths.take 10).sum) _)
    (left.length + (headerWidths.take 12).sum) _) (left.length + (headerWidths.take 6).sum) _ = _
  rw [e0, e1, e2, e3, e4, e5, e6, e7, e8, e9, e10]
  rfl

/-- A write into the checksum of a header. -/
theorem overwrite_checksum {stored : Stored} {checksum value : List UInt8} {k : ℕ}
    (h : stored.Fits) (hlen : checksum.length = 8) (hk : k + value.length ≤ 8) :
    overwrite (left ++ ((stored.fields checksum).flatten ++ right)) (left.length + (148 + k)) value =
      left ++ ((stored.fields (overwrite checksum k value)).flatten ++ right) := by
  have hw := h.widths hlen
  have hwrite := @overwrite_flatten (stored.fields checksum) value 6 148 k
    (by show 6 < 14; omega) (by rw [hw]; rfl) (by show k + value.length ≤ checksum.length; omega)
  rw [overwrite_part (by rw [length_flatten_of_widths hw, RECORD]; omega), hwrite]
  rfl

/-- The checksum is stored in its field. -/
theorem checksum_eq {stored : Stored} (h : stored.Fits) :
    overwrite (overwrite (left ++ ((stored.fields blank).flatten ++ right)) (left.length + (148 + 0))
        (octalDigits 6 stored.sum)) (left.length + (148 + 6)) [0] =
      left ++ (stored.header ++ right) := by
  have hsum := length_octalDigits (show 0 < 6 by omega) h.sum_lt
  have hdigits : overwrite blank 0 (octalDigits 6 stored.sum) =
      octalDigits 6 stored.sum ++ [0x20, 0x20] := by
    rw [overwrite, hsum]
    rfl
  have hnul : overwrite (octalDigits 6 stored.sum ++ [0x20, 0x20]) 6 [0] =
      octalDigits 6 stored.sum ++ [0, 0x20] :=
    @overwrite_append (octalDigits 6 stored.sum) [0x20] [0x20] [0] 6 hsum rfl
  have hlen : (octalDigits 6 stored.sum ++ [0x20, 0x20]).length = 8 := by
    rw [List.length_append, hsum]
    rfl
  rw [overwrite_checksum h rfl (by omega), hdigits, overwrite_checksum h hlen (by decide), hnul,
    Stored.header]

/-- What an entry puts into its header. -/
structure IsStored (entry : TarEntry) (size : ℕ) (stored : Stored) : Prop where
  name : splitName entry.name = .ok (stored.before, stored.rest)
  mode : stored.mode = permissionBits entry.mode
  size : stored.size = size ∧ size < 8 ^ 11
  mtime : (storedTime entry.mtimeSeconds).safeInteger? = some (stored.mtime : ℤ) ∧
    stored.mtime < 8 ^ 11
  type : stored.type = entry.type

theorem permissionBits_lt (mode : JsNumber) : permissionBits mode < 8 ^ 7 := by
  have hle : permissionBits mode ≤ 4095 := by
    rw [permissionBits, BitVec.toNat_and]
    exact Nat.and_le_right
  omega

theorem IsStored.fits {entry : TarEntry} {size : ℕ} {stored : Stored}
    (h : IsStored entry size stored) : stored.Fits where
  before := (splitName_fits h.name).1
  rest := (splitName_fits h.name).2
  mode := h.mode ▸ permissionBits_lt entry.mode
  size := h.size.1 ▸ h.size.2
  mtime := h.mtime.2

/-- The checksum of the header at an offset, put in its place. -/
def checked (archive : List UInt8) (offset : ℕ) : List UInt8 :=
  let sum := byteSum (slice archive offset RECORD)
  overwrite (overwrite archive (offset + 148) (octalDigits 6 sum)) (offset + 154) [0]

theorem checked_filled {stored : Stored} (h : stored.Fits) :
    checked (filled (left ++ (zeros RECORD ++ right)) left.length stored) left.length =
      left ++ (stored.header ++ right) := by
  have hlen := length_flatten_of_widths (h.widths (show blank.length = 8 from rfl))
  have hrow : slice (left ++ ((stored.fields blank).flatten ++ right)) left.length RECORD =
      (stored.fields blank).flatten := by
    rw [slice_append_right (Nat.le_refl _), Nat.sub_self, ← hlen,
      slice_append_left (Nat.zero_add _).le, slice_all]
  rw [filled_eq h, checked, hrow]
  exact checksum_eq h

theorem writeHeader_eq_ok {archive : List UInt8} {entry : TarEntry} {size : ℕ} :
    writeHeader (left ++ (zeros RECORD ++ right)) left.length entry size = .ok archive ↔
      ∃ stored, IsStored entry size stored ∧ archive = left ++ (stored.header ++ right) := by
  simp only [writeHeader, bind_eq_ok, writeString_eq_ok, pure_eq_ok, Prod.exists,
    @writeOctal_eq_ok _ _ _ 8 _ (by decide), @writeOctal_eq_ok _ _ _ 12 _ (by decide)]
  constructor
  · rintro ⟨before, rest, hname, _, ⟨-, rfl⟩, _, ⟨mode, hm, -, rfl⟩, _, ⟨uid, hu, -, rfl⟩,
      _, ⟨gid, hg, -, rfl⟩, _, ⟨size', hs, hsize, rfl⟩, _, ⟨mtime, ht, hmtime, rfl⟩,
      _, ⟨-, rfl⟩, _, ⟨-, rfl⟩, _, ⟨-, rfl⟩, rfl⟩
    obtain ⟨rfl, -⟩ := JsNumber.safeInteger?_ofNat.mp hm
    obtain ⟨rfl, -⟩ := JsNumber.safeInteger?_ofNat.mp hu
    obtain ⟨rfl, -⟩ := JsNumber.safeInteger?_ofNat.mp hg
    obtain ⟨rfl, -⟩ := JsNumber.safeInteger?_ofNat.mp hs
    have hstored : IsStored entry size
        ⟨before, rest, permissionBits entry.mode, size, mtime, entry.type⟩ :=
      ⟨hname, rfl, ⟨rfl, hsize⟩, ⟨ht, hmtime⟩, rfl⟩
    refine ⟨_, hstored, ?_⟩
    rw [← checked_filled hstored.fits, checked, textEncode_padStart]
    rfl
  · rintro ⟨stored, h, rfl⟩
    have hfits := h.fits
    have hrest := hfits.rest
    have hbefore := hfits.before
    simp only [NAME_LENGTH, PREFIX_LENGTH] at hrest hbefore
    refine ⟨stored.before, stored.rest, h.name, _, ⟨?_, rfl⟩, _, ⟨stored.mode, ?_, hfits.mode, rfl⟩,
      _, ⟨0, ?_, by decide, rfl⟩, _, ⟨0, ?_, by decide, rfl⟩, _, ⟨stored.size, ?_, hfits.size, rfl⟩,
      _, ⟨stored.mtime, h.mtime.1, h.mtime.2, rfl⟩, _, ⟨?_, rfl⟩, _, ⟨?_, rfl⟩, _, ⟨?_, rfl⟩, ?_⟩
    · show (textEncode stored.rest).length ≤ 99
      omega
    · rw [h.mode]
      exact JsNumber.safeInteger?_ofNat.mpr ⟨rfl, by have := permissionBits_lt entry.mode; omega⟩
    · exact JsNumber.safeInteger?_ofNat.mpr ⟨rfl, by decide⟩
    · exact JsNumber.safeInteger?_ofNat.mpr ⟨rfl, by decide⟩
    · rw [h.size.1]
      exact JsNumber.safeInteger?_ofNat.mpr ⟨rfl, by have := h.size.2; omega⟩
    · rw [length_ustar]
      decide
    · rw [length_version]
      decide
    · show (textEncode stored.before).length ≤ 154
      omega
    · rw [← checked_filled hfits, ← h.type, checked, textEncode_padStart]
      rfl

/-! ### Archives -/

/-- The padding behind a payload. -/
def padding (size : ℕ) : List UInt8 := zeros (padded size - size)

theorem le_padded (size : ℕ) : size ≤ padded size := by
  rw [padded, RECORD]
  omega

/-- An entry in the archive. -/
def record (stored : Stored) (entry : TarEntry) : List UInt8 :=
  stored.header ++ (entry.payload ++ padding entry.payload.length)

theorem length_record {entry : TarEntry} {stored : Stored} (h : stored.Fits) :
    (record stored entry).length = RECORD + padded entry.payload.length := by
  have hle := le_padded entry.payload.length
  rw [record, List.length_append, List.length_append, padding, length_zeros, h.length_header]
  omega

theorem payload_eq_data {entry : TarEntry} (h : 0 < entry.payload.length) :
    entry.payload = entry.data := by
  unfold TarEntry.payload at *
  split at h
  · rfl
  · exact absurd h (Nat.lt_irrefl 0)

theorem writeEntry_eq_ok {entry : TarEntry} {state' : List UInt8 × ℕ} :
    writeEntry (left ++ (zeros (RECORD + padded entry.payload.length) ++ right), left.length) entry =
        .ok state' ↔
      ∃ stored, IsStored entry entry.payload.length stored ∧
        state' = (left ++ record stored entry ++ right,
          (left ++ record stored entry).length) := by
  have hle := le_padded entry.payload.length
  have hzeros : zeros (RECORD + padded entry.payload.length) =
      zeros RECORD ++ (zeros entry.payload.length ++ padding entry.payload.length) := by
    rw [padding, ← zeros_add, ← zeros_add]
    congr 1
    omega
  have hassoc : left ++ (zeros (RECORD + padded entry.payload.length) ++ right) =
      left ++ (zeros RECORD ++ (zeros entry.payload.length ++
        (padding entry.payload.length ++ right))) := by
    rw [hzeros]
    simp only [List.append_assoc]
  rw [hassoc]
  simp only [writeEntry, bind_eq_ok, writeHeader_eq_ok, pure_eq_ok]
  have hpayload : ∀ stored : Stored, stored.Fits →
      (if 0 < entry.payload.length then overwrite (left ++ (stored.header ++
          (zeros entry.payload.length ++ (padding entry.payload.length ++ right))))
          (left.length + RECORD) entry.data
        else left ++ (stored.header ++
          (zeros entry.payload.length ++ (padding entry.payload.length ++ right)))) =
        left ++ record stored entry ++ right := by
    intro stored hfits
    have hrow : ∀ payload : List UInt8, left ++ (stored.header ++ (payload ++
        (padding entry.payload.length ++ right))) = left ++ stored.header ++ (payload ++
          (padding entry.payload.length ++ right)) := by
      intro payload
      rw [List.append_assoc]
    have hdone : left ++ record stored entry ++ right = left ++ stored.header ++ (entry.payload ++
        (padding entry.payload.length ++ right)) := by
      rw [record]
      simp only [List.append_assoc]
    rw [hdone]
    split
    · rename_i hpos
      rw [hrow, ← payload_eq_data hpos]
      exact overwrite_append (by rw [List.length_append, hfits.length_header]) (length_zeros _)
    · rename_i hzero
      have hnil : entry.payload = [] := List.length_eq_zero_iff.mp (by omega)
      rw [hrow, hnil]
      rfl
  constructor
  · rintro ⟨_, ⟨stored, hstored, rfl⟩, rfl⟩
    refine ⟨stored, hstored, ?_⟩
    rw [hpayload stored hstored.fits, List.length_append, length_record hstored.fits, Nat.add_assoc]
  · rintro ⟨stored, hstored, rfl⟩
    refine ⟨_, ⟨stored, hstored, rfl⟩, ?_⟩
    rw [hpayload stored hstored.fits, List.length_append, length_record hstored.fits, Nat.add_assoc]

/-- What the entries of an archive put into their headers. -/
abbrev AllStored : List TarEntry → List Stored → Prop :=
  List.Forall₂ fun entry stored => IsStored entry entry.payload.length stored

/-- The records of the entries of an archive. -/
def records (entries : List TarEntry) (stored : List Stored) : List UInt8 :=
  (List.zipWith record stored entries).flatten

theorem records_cons (entry : TarEntry) (entries : List TarEntry) (s : Stored) (ss : List Stored) :
    records (entry :: entries) (s :: ss) = record s entry ++ records entries ss := rfl

def recordLengths (entries : List TarEntry) : ℕ :=
  (entries.map fun entry => RECORD + padded entry.payload.length).sum

theorem foldChecked_writeEntry {entries : List TarEntry} {state' : List UInt8 × ℕ} :
    foldChecked writeEntry (left ++ (zeros (recordLengths entries) ++ right), left.length) entries =
        .ok state' ↔
      ∃ stored, AllStored entries stored ∧ state' = (left ++ records entries stored ++ right,
        (left ++ records entries stored).length) := by
  induction entries generalizing left with
  | nil =>
    have hnil : left ++ (zeros (recordLengths []) ++ right) = left ++ right := rfl
    rw [hnil, foldChecked_nil, Except.ok.injEq]
    constructor
    · rintro rfl
      refine ⟨[], .nil, ?_⟩
      rw [records, List.zipWith_nil_left, List.flatten_nil, List.append_nil]
    · rintro ⟨_, hnone, rfl⟩
      cases hnone
      rw [records, List.zipWith_nil_left, List.flatten_nil, List.append_nil]
  | cons entry entries ih =>
    have hzeros : left ++ (zeros (recordLengths (entry :: entries)) ++ right) = left ++
        (zeros (RECORD + padded entry.payload.length) ++ (zeros (recordLengths entries) ++ right)) := by
      rw [recordLengths, List.map_cons, List.sum_cons, zeros_add, List.append_assoc, recordLengths]
    rw [hzeros, foldChecked_cons, bind_eq_ok]
    constructor
    · rintro ⟨mid, hentry, hrest⟩
      obtain ⟨s, hs, rfl⟩ := writeEntry_eq_ok.mp hentry
      rw [ih] at hrest
      obtain ⟨ss, hss, rfl⟩ := hrest
      refine ⟨s :: ss, .cons hs hss, ?_⟩
      rw [records_cons, ← List.append_assoc left]
    · rintro ⟨_, hall, rfl⟩
      obtain ⟨s, ss, hs, hss, rfl⟩ := List.forall₂_cons_left_iff.mp hall
      refine ⟨_, writeEntry_eq_ok.mpr ⟨s, hs, rfl⟩, ih.mpr ⟨ss, hss, ?_⟩⟩
      rw [records_cons, ← List.append_assoc left]

theorem totalLength_eq (entries : List TarEntry) :
    totalLength entries = recordLengths entries + RECORD * 2 := by
  have hfold : ∀ (entries : List TarEntry) (total : ℕ), entries.foldl (fun total entry =>
      total + (RECORD + padded entry.payload.length)) total = recordLengths entries + total := by
    intro entries
    induction entries with
    | nil => exact fun total => (Nat.zero_add total).symm
    | cons entry entries ih =>
      intro total
      rw [List.foldl_cons, ih, recordLengths, recordLengths, List.map_cons, List.sum_cons]
      omega
  exact hfold entries (RECORD * 2)

/-- The two zero records at the end. -/
def endRecords : List UInt8 := zeros (RECORD * 2)

/-- `writeTar` writes the records of its entries and the end records. -/
theorem writeTar_eq_ok {entries : List TarEntry} {archive : List UInt8} :
    writeTar entries = .ok archive ↔
      ∃ stored, AllStored entries stored ∧ archive = records entries stored ++ endRecords := by
  have hstart : zeros (totalLength entries) = zeros (recordLengths entries) ++ endRecords := by
    rw [totalLength_eq, zeros_add, endRecords]
  have hloop := @foldChecked_writeEntry [] endRecords entries
  simp only [List.nil_append, List.length_nil, ← hstart] at hloop
  simp only [writeTar, bind_eq_ok, hloop, pure_eq_ok]
  constructor
  · rintro ⟨_, ⟨stored, hstored, rfl⟩, rfl⟩
    exact ⟨stored, hstored, rfl⟩
  · rintro ⟨stored, hstored, rfl⟩
    exact ⟨_, ⟨stored, hstored, rfl⟩, rfl⟩

end Tar
