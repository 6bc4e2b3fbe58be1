/-
`readTar` reads a written archive back, all of it or nothing.

A written header reads as what went into it, except that a name stops at its first NUL, that the
decoder drops a byte order mark at the start of either part of a split name, and that an empty first
part loses its slash.  `Kept` says of a name that none of this happens to it, and
`readsBack_iff` that an archive reads back exactly when all of its names are kept.  Every shorter
archive is refused.
-/
import Pgxsinkit.Tar.Image

namespace Tar

open Bytes Checked Unicode

/-! ### Strings -/

def nul : Char := Char.ofNat 0

/-- What is read of the characters of a string field. -/
def cString (cs : List Char) : Text := ofChars (dropBom (cs.takeWhile (· ≠ nul)))

theorem byte_ne_zero {c : Char} {b : UInt8} (hc : c ≠ nul)
    (hb : b ∈ String.utf8EncodeChar c) : b ≠ 0 := by
  obtain ⟨hmax, -⟩ := char_bounds c
  have hpos : 0 < c.toNat := by
    rcases Nat.eq_zero_or_pos c.toNat with h | h
    · exact absurd (by rw [nul, ← h, Char.ofNat_toNat]) hc
    · exact h
  intro hzero
  have hnat := congrArg UInt8.toNat hzero
  rw [utf8EncodeChar_eq] at hb
  split_ifs at hb with h1 h2 h3
  all_goals
    simp only [List.mem_cons, List.not_mem_nil, or_false] at hb
  · subst hb
    rw [toNat_byte (by omega), UInt8.toNat_zero] at hnat
    omega
  · rcases hb with rfl | rfl
    all_goals
      rw [toNat_byte (by omega), UInt8.toNat_zero] at hnat
      omega
  · rcases hb with rfl | rfl | rfl
    all_goals
      rw [toNat_byte (by omega), UInt8.toNat_zero] at hnat
      omega
  · rcases hb with rfl | rfl | rfl | rfl
    all_goals
      rw [toNat_byte (by omega), UInt8.toNat_zero] at hnat
      omega

/-- The bytes up to the first zero are the characters up to the first NUL. -/
theorem takeWhile_utf8 (cs : List Char) {tail : List UInt8} (h : ∀ b ∈ tail.head?, b = 0) :
    (utf8 cs ++ tail).takeWhile (· ≠ 0) = utf8 (cs.takeWhile (· ≠ nul)) := by
  induction cs with
  | nil =>
    cases tail with
    | nil => rfl
    | cons b tail =>
      have hb : b = 0 := h b rfl
      rw [hb]
      rfl
  | cons c cs ih =>
    rw [utf8_cons, List.append_assoc]
    by_cases hc : c = nul
    · rw [hc]
      rfl
    · have htake : (c :: cs).takeWhile (· ≠ nul) = c :: cs.takeWhile (· ≠ nul) :=
        List.takeWhile_cons_of_pos (decide_eq_true hc)
      rw [List.takeWhile_append_of_pos fun b hb => decide_eq_true (byte_ne_zero hc hb), ih, htake,
        utf8_cons]

theorem readCString_eq {header tail : List UInt8} {start width : ℕ} {cs : List Char}
    (hfield : slice header start width = utf8 cs ++ tail) (htail : ∀ b ∈ tail.head?, b = 0) :
    readCString header start width = cString cs := by
  rw [readCString, hfield, takeWhile_utf8 cs htail, lossyDecode_utf8, cString]

theorem head?_zeros {b : UInt8} {k : ℕ} (h : b ∈ (zeros k).head?) : b = 0 :=
  List.eq_of_mem_replicate (List.mem_of_mem_head? h)

/-! ### Octal numbers -/

theorem cString_octal (width n : ℕ) : cString (octalChars width n) = ofChars (octalChars width n) := by
  have hall : (octalChars width n).takeWhile (· ≠ nul) = octalChars width n := by
    rw [List.takeWhile_eq_self_iff]
    intro c hc
    have hbounds := octalChars_bounds hc
    refine decide_eq_true fun h => ?_
    rw [h] at hbounds
    exact absurd hbounds (by decide)
  rw [cString, hall]
  cases hcs : octalChars width n with
  | nil => rfl
  | cons c cs =>
    have hbounds := octalChars_bounds (show c ∈ octalChars width n by rw [hcs]; exact List.mem_cons_self)
    have hbom : c ≠ bom := by
      rintro rfl
      exact absurd hbounds (by decide)
    rw [dropBom, if_neg hbom]

theorem isSpace_digit {unit : UInt16} (h : 0x30 ≤ unit.toNat ∧ unit.toNat ≤ 0x37) :
    JsNumber.isSpace unit = false := by
  have hmem : ∀ n : Fin 8, JsNumber.isSpace (UInt16.ofNat (0x30 + n)) = false := by decide
  have hunit : unit = UInt16.ofNat (0x30 + (unit.toNat - 0x30)) := by
    rw [Nat.add_sub_cancel' h.1, UInt16.ofNat_toNat]
  rw [hunit]
  exact hmem ⟨unit.toNat - 0x30, by omega⟩

theorem trim_eq_self {value : Text} (h : ∀ unit ∈ value, JsNumber.isSpace unit = false) :
    JsNumber.trim value = value := by
  have hdrop : ∀ value : Text, (∀ unit ∈ value, JsNumber.isSpace unit = false) →
      value.dropWhile JsNumber.isSpace = value := by
    intro value hvalue
    cases value with
    | nil => rfl
    | cons unit rest =>
      rw [List.dropWhile_cons_of_neg]
      rw [hvalue unit List.mem_cons_self]
      exact Bool.false_ne_true
  rw [JsNumber.trim, hdrop value h, hdrop value.reverse (fun unit hunit =>
    h unit (List.mem_reverse.mp hunit)), List.reverse_reverse]

theorem ofDigits_octal (cs : List Char) (h : ∀ c ∈ cs, 0x30 ≤ c.toNat ∧ c.toNat ≤ 0x37) (n : ℕ) :
    ((cs.map fun c => UInt16.ofNat c.toNat).map fun unit => unit.toNat - 0x30).foldl
        (fun n d => 8 * n + d) n = Nat.ofDigitChars 8 cs n := by
  induction cs generalizing n with
  | nil => rfl
  | cons c cs ih =>
    rw [List.forall_mem_cons] at h
    have hunit : (UInt16.ofNat c.toNat).toNat = c.toNat := toNat_ofNat_of_lt (by omega)
    rw [List.map_cons, List.map_cons, List.foldl_cons, ih h.2, hunit, Nat.ofDigitChars_cons]
    rfl

theorem readOctal_eq {header tail : List UInt8} {start length width n offset : ℕ} (hwidth : 0 < width)
    (hn : n < 8 ^ width) (hfield : slice header start length = octalDigits width n ++ tail)
    (htail : ∀ b ∈ tail.head?, b = 0) : readOctal header start length offset = .ok n := by
  have hascii : ∀ c ∈ octalChars width n, c.toNat < 0x80 := by
    intro c hc
    have hbounds := octalChars_bounds hc
    omega
  have hlen := length_octalChars hwidth hn
  have hunits := ofChars_ascii hascii
  have hbounds : ∀ unit ∈ ofChars (octalChars width n), 0x30 ≤ unit.toNat ∧ unit.toNat ≤ 0x37 := by
    intro unit hunit
    rw [hunits] at hunit
    obtain ⟨c, hc, rfl⟩ := List.mem_map.mp hunit
    have hcb := octalChars_bounds hc
    rw [toNat_ofNat_of_lt (by omega)]
    exact hcb
  -- the first byte is a digit, and so not the mark of a base-256 number
  have hfirst : header.getD start 0 &&& 0x80 = 0 := by
    cases hcs : octalChars width n with
    | nil =>
      rw [hcs] at hlen
      exact absurd hlen (Nat.ne_of_lt hwidth)
    | cons c cs =>
      have hc := octalChars_bounds (show c ∈ octalChars width n by rw [hcs]; exact List.mem_cons_self)
      have hhead : (slice header start length).head? = some (UInt8.ofNat c.toNat) := by
        rw [hfield, octalDigits, utf8_ascii hascii, hcs]
        rfl
      have hget : header[start]? = some (UInt8.ofNat c.toNat) := by
        rw [slice, List.head?_take] at hhead
        split at hhead
        · cases hhead
        · rwa [List.head?_drop] at hhead
      have hdigit : ∀ k : Fin 8, UInt8.ofNat (0x30 + k) &&& 0x80 = 0 := by decide
      have hsame : c.toNat = 0x30 + (c.toNat - 0x30) := (Nat.add_sub_cancel' hc.1).symm
      rw [List.getD_eq_getElem?_getD, hget, Option.getD_some, hsame]
      exact hdigit ⟨c.toNat - 0x30, by omega⟩
  have hread : readCString header start length = ofChars (octalChars width n) := by
    rw [readCString_eq hfield htail, cString_octal]
  have htrim : JsNumber.trim (ofChars (octalChars width n)) = ofChars (octalChars width n) :=
    trim_eq_self fun unit hunit => isSpace_digit (hbounds unit hunit)
  have hne : ofChars (octalChars width n) ≠ [] := by
    intro hnil
    rw [hunits, List.map_eq_nil_iff] at hnil
    rw [hnil] at hlen
    exact absurd hlen (Nat.ne_of_lt hwidth)
  have hdigits : (ofChars (octalChars width n)).all (fun unit => 0x30 ≤ unit && unit ≤ 0x37) = true := by
    rw [List.all_eq_true]
    intro unit hunit
    simpa [UInt16.le_iff_toNat_le] using hbounds unit hunit
  have hvalue : JsNumber.ofDigits 8 ((ofChars (octalChars width n)).map fun unit =>
      unit.toNat - 0x30) = n := by
    rw [hunits, JsNumber.ofDigits, ofDigits_octal _ (fun c hc => octalChars_bounds hc),
      octalChars_value]
  rw [readOctal, hfirst, hread, htrim]
  simp only [throwIf, ne_eq, not_true_eq_false, if_false, ok_bind, if_neg hne, hdigits, hvalue]
  rfl

/-! ### Headers -/

section header

variable {stored : Stored} (h : stored.Fits)
include h

/-- A field of a header stands at its offset. -/
theorem slice_header (i : ℕ) {offset width : ℕ} {value : List UInt8}
    (hvalue : (stored.fields (octalDigits 6 stored.sum ++ [0, 0x20]))[i]? = some value)
    (hoffset : (headerWidths.take i).sum = offset) (hwidth : headerWidths[i]? = some width) :
    slice stored.header offset width = value := by
  have hw := h.widths h.length_checksum
  obtain ⟨hi, hget⟩ := List.getElem?_eq_some_iff.mp hvalue
  have hlen : value.length = width := by
    rw [← hw, List.getElem?_map, hvalue, Option.map_some, Option.some.injEq] at hwidth
    exact hwidth
  rw [Stored.header, slice_flatten hi (by rw [hw, hoffset]) (by rw [hget, hlen]), hget]

theorem readOctal_mode (offset : ℕ) : readOctal stored.header 100 8 offset = .ok stored.mode :=
  readOctal_eq (by decide) h.mode (slice_header h 1 rfl rfl rfl) fun _ hb => head?_zeros hb

theorem readOctal_size (offset : ℕ) : readOctal stored.header 124 12 offset = .ok stored.size :=
  readOctal_eq (by decide) h.size (slice_header h 4 rfl rfl rfl) fun _ hb => head?_zeros hb

theorem readOctal_mtime (offset : ℕ) : readOctal stored.header 136 12 offset = .ok stored.mtime :=
  readOctal_eq (by decide) h.mtime (slice_header h 5 rfl rfl rfl) fun _ hb => head?_zeros hb

/-- A written header passes its checksum. -/
theorem verifyChecksum_header (offset : ℕ) : verifyChecksum stored.header offset = .ok () := by
  have hstored : readOctal stored.header 148 8 offset = .ok stored.sum :=
    readOctal_eq (by decide) h.sum_lt (slice_header h 6 rfl rfl rfl) fun b hb => by
      rw [List.head?_cons, Option.mem_some_iff] at hb
      exact hb.symm
  have hblank : overwrite stored.header 148 (List.replicate 8 0x20) = (stored.fields blank).flatten := by
    have hwrite := @overwrite_checksum [] [] stored _ blank 0 h h.length_checksum (Nat.le_refl 8)
    rw [overwrite_all (by rw [h.length_checksum]; rfl)] at hwrite
    rw [List.nil_append, List.append_nil, List.nil_append, List.append_nil] at hwrite
    exact hwrite
  rw [verifyChecksum, hstored, ok_bind, hblank, throwIf_eq_ok, not_not, Stored.sum]

theorem getD_header : stored.header.getD 156 0 = stored.type.flag := by
  have hslice : slice stored.header 156 1 = [stored.type.flag] := slice_header h 7 rfl rfl rfl
  have hhead := congrArg List.head? hslice
  rw [slice, List.head?_take, if_neg (by decide), List.head?_drop, List.head?_cons] at hhead
  rw [List.getD_eq_getElem?_getD, hhead, Option.getD_some]

theorem isZeroRecord_header : isZeroRecord stored.header = false := by
  have hslice : slice stored.header 156 1 = [stored.type.flag] := slice_header h 7 rfl rfl rfl
  have hin : stored.type.flag ∈ slice stored.header 156 1 := by
    rw [hslice]
    exact List.mem_singleton_self _
  have hmem : stored.type.flag ∈ stored.header := List.mem_of_mem_drop (List.mem_of_mem_take hin)
  have hflag : stored.type.flag ≠ 0 := by cases stored.type <;> decide
  rw [isZeroRecord, List.all_eq_false]
  exact ⟨_, hmem, by rwa [decide_eq_true_eq]⟩

/-- The name that is read from a written header. -/
theorem joinPrefix_header : joinPrefix stored.header =
    if cString (toChars stored.before) = [] then cString (toChars stored.rest)
    else cString (toChars stored.before) ++ slash :: cString (toChars stored.rest) := by
  have hname : readCString stored.header 0 NAME_LENGTH = cString (toChars stored.rest) :=
    readCString_eq (slice_header h 0 rfl rfl rfl) fun _ hb => head?_zeros hb
  have hmagic : readCString stored.header 257 6 = text "ustar" := by
    have hread : readCString stored.header 257 6 = cString (toChars (text "ustar")) :=
      readCString_eq (slice_header h 9 rfl rfl rfl) fun _ hb => head?_zeros hb
    rw [hread]
    decide
  have hbefore : readCString stored.header 345 PREFIX_LENGTH = cString (toChars stored.before) :=
    readCString_eq (slice_header h 12 rfl rfl rfl) fun _ hb => head?_zeros hb
  rw [joinPrefix, hname, hmagic, hbefore, if_neg (not_not.mpr rfl)]

end header

/-- What is read of a stored entry. -/
def readBack (stored : Stored) (entry : TarEntry) : TarEntry where
  name := if cString (toChars stored.before) = [] then cString (toChars stored.rest)
    else cString (toChars stored.before) ++ slash :: cString (toChars stored.rest)
  type := entry.type
  mode := .ofNat stored.mode
  mtimeSeconds := .ofNat stored.mtime
  data := entry.payload

theorem permissionBits_and (mode : JsNumber) :
    permissionBits mode &&& 0o7777 = permissionBits mode := by
  show (mode.toInt32 &&& 0o7777#32).toNat &&& (0o7777#32).toNat = (mode.toInt32 &&& 0o7777#32).toNat
  rw [← BitVec.toNat_and, BitVec.and_assoc, BitVec.and_self]

theorem readMember_header {entry : TarEntry} {stored : Stored} {size : ℕ}
    (hs : IsStored entry size stored) (data : List UInt8) (name : Text) (offset : ℕ) :
    readMember stored.header data name [stored.type.flag.toUInt16] offset =
      .ok { name, type := entry.type, mode := .ofNat stored.mode, mtimeSeconds := .ofNat stored.mtime
            data := match entry.type with | .file => data | .directory => [] } := by
  have hf := hs.fits
  rw [readMember, readOctal_mode hf, readOctal_mtime hf, ok_bind, ok_bind, hs.mode,
    permissionBits_and, hs.type]
  cases entry.type with
  | file => rw [if_pos (by decide)]; rfl
  | directory => rw [if_neg (by decide), if_pos (by decide)]; rfl

theorem flag_ne {type : EntryType} {flag : Text} (h : flag ∉ [text "0", text "5"]) :
    ([type.flag.toUInt16] : Text) ≠ flag := by
  rintro rfl
  cases type with
  | file => exact h (by decide)
  | directory => exact h (by decide)

/-- One member is read, or the archive ends before its payload does. -/
theorem readFrom_member {archive : List UInt8} {offset : ℕ} {entry : TarEntry} {stored : Stored}
    {entries : List TarEntry} (hs : IsStored entry entry.payload.length stored)
    (hlen : offset + RECORD ≤ archive.length) (hheader : slice archive offset RECORD = stored.header) :
    readFrom archive offset none none entries =
      (throwIf (archive.length < offset + RECORD + padded entry.payload.length)
          (.runsPastEnd offset)) >>= fun _ =>
        readFrom archive (offset + RECORD + padded entry.payload.length) none none
          (entries ++ [{ readBack stored entry with
            data := slice archive (offset + RECORD) entry.payload.length }]) := by
  have hf := hs.fits
  have hrecord : RECORD = 512 := rfl
  rw [readFrom, if_neg (by omega), if_neg (by omega), hheader]
  simp only [isZeroRecord_header hf, verifyChecksum_header hf, readOctal_size hf, hs.size.1, ok_bind,
    getD_header hf, Option.getD_none, Bool.false_eq_true, if_false,
    if_neg (@flag_ne stored.type (text "x") (by decide)),
    if_neg (@flag_ne stored.type (text "g") (by decide)),
    if_neg (@flag_ne stored.type (text "L") (by decide)),
    readMember_header hs, joinPrefix_header hf]
  have hdata : (match entry.type with
      | .file => slice archive (offset + RECORD) entry.payload.length
      | .directory => []) = slice archive (offset + RECORD) entry.payload.length := by
    rw [TarEntry.payload]
    cases entry.type with
    | file => rfl
    | directory => rfl
  rw [hdata]
  rfl

/-! ### Archives -/

theorem isZeroRecord_zeros (k : ℕ) : isZeroRecord (zeros k) = true := by
  rw [isZeroRecord, List.all_eq_true]
  exact fun b hb => decide_eq_true (List.eq_of_mem_replicate hb)

variable {left tail archive : List UInt8} {acc : List TarEntry}

/-- A whole record is read as its entry. -/
theorem readFrom_record {entry : TarEntry} {stored : Stored}
    (hs : IsStored entry entry.payload.length stored) :
    readFrom (left ++ (record stored entry ++ tail)) left.length none none acc =
      readFrom (left ++ (record stored entry ++ tail)) (left ++ record stored entry).length none none
        (acc ++ [readBack stored entry]) := by
  have hf := hs.fits
  have hlen := @length_record entry stored hf
  have hheader : slice (left ++ (record stored entry ++ tail)) left.length RECORD = stored.header := by
    rw [slice_append_right (Nat.le_refl _), Nat.sub_self, record, List.append_assoc,
      slice_append_left (by rw [hf.length_header]; omega), ← hf.length_header, slice_all]
  have hdata : slice (left ++ (record stored entry ++ tail)) (left.length + RECORD)
      entry.payload.length = entry.payload := by
    rw [slice_append_right (Nat.le_add_right _ _), Nat.add_sub_cancel_left, record,
      List.append_assoc, slice_append_right (by rw [hf.length_header]), hf.length_header,
      Nat.sub_self, List.append_assoc, slice_append_left (Nat.zero_add _).le, slice_all]
  rw [readFrom_member hs (by simp only [List.length_append]; omega) hheader, hdata,
    throwIf, if_neg (by simp only [List.length_append]; omega), ok_bind, List.length_append, hlen,
    Nat.add_assoc]
  rfl

theorem readFrom_records {entries : List TarEntry} {stored : List Stored}
    (h : AllStored entries stored) :
    readFrom (left ++ (records entries stored ++ tail)) left.length none none acc =
      readFrom (left ++ (records entries stored ++ tail)) (left ++ records entries stored).length
        none none (acc ++ List.zipWith readBack stored entries) := by
  induction h generalizing left acc with
  | nil =>
    rw [List.zipWith_nil_left, List.append_nil, records, List.zipWith_nil_left, List.flatten_nil,
      List.append_nil]
  | @cons entry s entries ss hs hss ih =>
    have hassoc : left ++ (records (entry :: entries) (s :: ss) ++ tail) =
        left ++ (record s entry ++ (records entries ss ++ tail)) := by
      rw [records_cons, List.append_assoc]
    have hassoc' : left ++ (record s entry ++ (records entries ss ++ tail)) =
        left ++ record s entry ++ (records entries ss ++ tail) := (List.append_assoc _ _ _).symm
    rw [hassoc, readFrom_record hs, hassoc', ih]
    simp only [records_cons, List.zipWith_cons_cons, List.append_assoc, List.singleton_append]

theorem readFrom_end :
    readFrom (left ++ endRecords) left.length none none acc = .ok acc := by
  have hlen : endRecords.length = RECORD * 2 := length_zeros _
  have hrecord : RECORD = 512 := rfl
  have hrow : ∀ k, k + RECORD ≤ RECORD * 2 →
      slice (left ++ endRecords) (left.length + k) RECORD = zeros RECORD := by
    intro k hk
    have hdrop : RECORD ≤ RECORD * 2 - k := by omega
    rw [slice_append_right (Nat.le_add_right _ _), Nat.add_sub_cancel_left, slice, endRecords, zeros,
      List.drop_replicate, List.take_replicate, Nat.min_eq_left hdrop, zeros]
  rw [readFrom, if_neg (by rw [List.length_append]; omega),
    if_neg (by rw [List.length_append]; omega), hrow RECORD (by omega)]
  have hfirst := hrow 0 (by omega)
  rw [Nat.add_zero] at hfirst
  simp only [hfirst, isZeroRecord_zeros, length_zeros, if_true, Nat.lt_irrefl, not_true_eq_false,
    or_self, throwIf, if_false, ok_bind, Option.isSome_none, Bool.false_eq_true]
  rfl

/-- A written archive is read to its end. -/
theorem readTar_written {entries : List TarEntry} {stored : List Stored}
    (h : AllStored entries stored) :
    readTar (records entries stored ++ endRecords) = .ok (List.zipWith readBack stored entries) := by
  have hrun := @readFrom_records [] endRecords [] entries stored h
  rw [List.nil_append, List.nil_append, List.nil_append] at hrun
  exact hrun.trans readFrom_end

/-! ### Truncated archives -/

/-- Fewer bytes than a header are no member and no end. -/
theorem readFrom_short (h : tail.length < RECORD) :
    ∃ e, readFrom (left ++ tail) left.length none none acc = .error e := by
  have hlen : (left ++ tail).length = left.length + tail.length := List.length_append
  rw [readFrom]
  split
  · exact ⟨_, rfl⟩
  · rw [if_pos (by omega)]
    exact ⟨_, rfl⟩

theorem readFrom_cutRecord {entry : TarEntry} {stored : Stored}
    (hs : IsStored entry entry.payload.length stored) {n : ℕ}
    (hn : n < (record stored entry).length) :
    ∃ e, readFrom (left ++ (record stored entry).take n) left.length none none acc = .error e := by
  have hf := hs.fits
  have hlen : ((record stored entry).take n).length = n := by
    rw [List.length_take]
    omega
  rw [length_record hf] at hn
  by_cases hshort : n < RECORD
  · exact readFrom_short (by rw [hlen]; exact hshort)
  · have hheader : slice (left ++ (record stored entry).take n) left.length RECORD =
        stored.header := by
      rw [slice_append_right (Nat.le_refl _), Nat.sub_self, slice, List.drop_zero, List.take_take,
        Nat.min_eq_left (by omega), ← hf.length_header, record, List.take_left']
      rfl
    rw [readFrom_member hs (by rw [List.length_append, hlen]; omega) hheader, throwIf,
      if_pos (by rw [List.length_append, hlen]; omega)]
    exact ⟨_, rfl⟩

theorem readFrom_cutEnd {n : ℕ} (hn : n < endRecords.length) :
    ∃ e, readFrom (left ++ endRecords.take n) left.length none none acc = .error e := by
  have hend : endRecords.length = RECORD * 2 := length_zeros _
  have hrecord : RECORD = 512 := rfl
  have htake : endRecords.take n = zeros n := by
    rw [endRecords, zeros, List.take_replicate, Nat.min_eq_left (by omega), zeros]
  rw [htake]
  by_cases hshort : n < RECORD
  · exact readFrom_short (by rw [length_zeros]; exact hshort)
  · have hlen : (left ++ zeros n).length = left.length + n := by
      rw [List.length_append, length_zeros]
    have hfirst : slice (left ++ zeros n) left.length RECORD = zeros RECORD := by
      rw [slice_append_right (Nat.le_refl _), Nat.sub_self, slice, zeros, List.drop_zero,
        List.take_replicate, Nat.min_eq_left (by omega), zeros]
    have hsecond : (slice (left ++ zeros n) (left.length + RECORD) RECORD).length < RECORD := by
      rw [slice, List.length_take, List.length_drop]
      omega
    rw [readFrom, if_neg (by omega), if_neg (by omega)]
    simp only [hfirst, isZeroRecord_zeros, if_true, hsecond, true_or, throwIf, error_bind]
    exact ⟨_, rfl⟩

theorem readFrom_cut {entries : List TarEntry} {stored : List Stored} (h : AllStored entries stored)
    {n : ℕ} (hn : n < (records entries stored ++ endRecords).length) :
    ∃ e, readFrom (left ++ (records entries stored ++ endRecords).take n) left.length none none acc =
      .error e := by
  induction h generalizing left acc n with
  | nil => exact readFrom_cutEnd hn
  | @cons entry s entries ss hs hss ih =>
    rw [records_cons, List.append_assoc] at hn ⊢
    by_cases hcut : n < (record s entry).length
    · rw [List.take_append_of_le_length (by omega)]
      exact readFrom_cutRecord hs hcut
    · rw [List.take_append, List.take_of_length_le (by omega), readFrom_record hs,
        ← List.append_assoc left]
      rw [List.length_append] at hn
      exact ih (by omega)

/-- A written archive that stops short is refused. -/
theorem readTar_truncated {entries : List TarEntry} (h : writeTar entries = .ok archive) {n : ℕ}
    (hn : n < archive.length) : ∃ e, readTar (archive.take n) = .error e := by
  obtain ⟨stored, hstored, rfl⟩ := writeTar_eq_ok.mp h
  exact @readFrom_cut [] [] entries stored hstored n hn

end Tar
