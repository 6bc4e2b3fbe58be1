/-
The binary writer and reader of the codec (`core/codec.ts`).

`BinaryWriter` fills a buffer of a length fixed in advance and throws when a field does
not fit or the buffer is not full at the end.  `Writes write out` says that a sequence of
calls appends `out` to any writer with room for it; the readers are exact for the same
bytes, up to the byte order mark that `TextDecoder` swallows.
-/
import Pgxsinkit.Lib.Reader
import Pgxsinkit.Opfs.Text
import Pgxsinkit.Opfs.ValidateSpec

namespace Opfs

open Bytes Checked Unicode

/-! ### The writer -/

structure BinaryWriter where
  length : Nat
  /-- The bytes before the write offset. -/
  bytes : List UInt8

namespace BinaryWriter

def create (length initialOffset : Nat) : Except StoreError BinaryWriter := do
  throwIf (initialOffset > length) (.storeLimit "binary output length is invalid")
  return ⟨length, List.replicate initialOffset 0⟩

def requireRoom (w : BinaryWriter) (length : Nat) : Except StoreError Unit :=
  throwIf (w.bytes.length + length > w.length)
    (.storeLimit "binary encoder exceeded its preflighted size")

def append (w : BinaryWriter) (value : List UInt8) : BinaryWriter :=
  { w with bytes := w.bytes ++ value }

def u8 (value : Nat) (w : BinaryWriter) : Except StoreError BinaryWriter := do
  w.requireRoom 1
  throwIf (value > 0xff) (.storeLimit "unsigned 8-bit value is out of range")
  return w.append (leBytes 1 value)

def u16 (value : Nat) (w : BinaryWriter) : Except StoreError BinaryWriter := do
  w.requireRoom 2
  throwIf (value > 0xffff) (.storeLimit "unsigned 16-bit value is out of range")
  return w.append (leBytes 2 value)

def u32 (value : Nat) (w : BinaryWriter) : Except StoreError BinaryWriter := do
  w.requireRoom 4
  throwIf (value > 0xffffffff) (.storeLimit "unsigned 32-bit value is out of range")
  return w.append (leBytes 4 value)

def u64 (value : Nat) (w : BinaryWriter) : Except StoreError BinaryWriter := do
  w.requireRoom 8
  let value ← checkedU64 value "encoded integer"
  return w.append (leBytes 8 value)

/-- `setBigUint64` keeps the low 64 bits. -/
def validatedU64 (value : Nat) (w : BinaryWriter) : Except StoreError BinaryWriter := do
  w.requireRoom 8
  return w.append (leBytes 8 value)

def raw (value : List UInt8) (w : BinaryWriter) : Except StoreError BinaryWriter := do
  w.requireRoom value.length
  return w.append value

def validatedString (encoded : List UInt8) (w : BinaryWriter) : Except StoreError BinaryWriter := do
  let w ← w.u16 encoded.length
  w.raw encoded

def string (value : JsString) (w : BinaryWriter) : Except StoreError BinaryWriter := do
  let _ ← validatePathComponent value
  w.validatedString (textEncode value)

/-- A symbolic link's target: a whole PATH, so it is bounded by `maxPathBytes`, not by a name. -/
def symlinkTarget (value : JsString) (w : BinaryWriter) : Except StoreError BinaryWriter := do
  let _ ← validateSymlinkTarget value
  w.validatedString (textEncode value)

def finish (w : BinaryWriter) : Except StoreError (List UInt8) := do
  throwIf (w.bytes.length ≠ w.length)
    (.storeLimit s!"binary encoder wrote {w.bytes.length} bytes into a {w.length}-byte output")
  return w.bytes

end BinaryWriter

/-- `for (const value of values) write(value);` -/
def writeAll {α : Type} (write : α → BinaryWriter → Except StoreError BinaryWriter)
    (values : List α) (w : BinaryWriter) : Except StoreError BinaryWriter :=
  foldChecked (fun w value => write value w) w values

/-! ### The reader -/

abbrev BinaryReader (α : Type) := Reader StoreError α

namespace BinaryReader

def truncated : StoreError := .corruptStore "binary value is truncated"

def u8 : BinaryReader Nat := Reader.number 1 truncated
def u16 : BinaryReader Nat := Reader.number 2 truncated
def u32 : BinaryReader Nat := Reader.number 4 truncated
def u64 : BinaryReader Nat := Reader.number 8 truncated

/-- The checks the reader makes on the bytes of a string, with its two validators. -/
def decodeText (kind : String) (validate : JsString → Except StoreError Nat) (bytes : List UInt8) :
    Except StoreError JsString := do
  let value ← orThrow (textDecode bytes) (.corruptStore s!"encoded {kind} is not valid UTF-8")
  throwIf ((textEncode value).length ≠ bytes.length)
    (.corruptStore s!"encoded {kind} is not canonical UTF-8")
  match validate value with
  | .error cause => .error (.corruptStore s!"encoded {kind} is invalid: {cause.describe}")
  | .ok _ => return value

/-- A length-prefixed string; the source's `try` also covers the read of its bytes. -/
def text (kind : String) (maximum : Nat) (validate : JsString → Except StoreError Nat) :
    BinaryReader JsString := do
  let length ← u16
  Reader.rejectIf (length = 0 ∨ length > maximum)
    (.corruptStore s!"encoded {kind} length is invalid")
  let bytes ← Reader.raw length (.corruptStore s!"encoded {kind} is not valid UTF-8")
  liftM (decodeText kind validate bytes)

def string : BinaryReader JsString :=
  text "path component" maxComponentBytes validatePathComponent

/-- The reader half of `BinaryWriter.symlinkTarget`. -/
def symlinkTarget : BinaryReader JsString :=
  text "symlink target" maxPathBytes validateSymlinkTarget

/-- Read a whole byte string, with `reader.end()` after the reads. -/
def readAll {α : Type} (read : BinaryReader α) (bytes : List UInt8) : Except StoreError α := do
  let (value, rest) ← read bytes
  throwIf (rest.length ≠ 0) (.corruptStore "binary value has trailing bytes")
  return value

end BinaryReader

/-! ### What the calls write -/

/-- The calls append `out` to any writer that has room for it. -/
def Writes (write : BinaryWriter → Except StoreError BinaryWriter) (out : List UInt8) : Prop :=
  ∀ w : BinaryWriter, w.bytes.length + out.length ≤ w.length → write w = .ok (w.append out)

theorem BinaryWriter.append_append (w : BinaryWriter) (out out' : List UInt8) :
    (w.append out).append out' = w.append (out ++ out') := by
  simp only [BinaryWriter.append, List.append_assoc]

theorem BinaryWriter.requireRoom_eq_ok {w : BinaryWriter} {length : Nat} {u : Unit} :
    w.requireRoom length = .ok u ↔ w.bytes.length + length ≤ w.length := by
  rw [BinaryWriter.requireRoom, throwIf_eq_ok]
  omega

namespace Writes

variable {write write' : BinaryWriter → Except StoreError BinaryWriter} {out out' : List UInt8}

theorem nil : Writes pure [] := by
  intro w _
  show Except.ok w = _
  rw [BinaryWriter.append, List.append_nil]

theorem comp (h : Writes write out) (h' : Writes write' out') :
    Writes (write >=> write') (out ++ out') := by
  intro w hroom
  rw [List.length_append] at hroom
  show write w >>= write' = _
  rw [h w (by omega), Checked.ok_bind, h' _ ?_, BinaryWriter.append_append]
  show (w.bytes ++ out).length + out'.length ≤ w.length
  rw [List.length_append]
  omega

/-- A field that only needs room for its bytes. -/
theorem field (h : ∀ w, write w = do w.requireRoom out.length; return w.append out) :
    Writes write out := by
  intro w hroom
  rw [h w, bind_eq_ok]
  exact ⟨(), BinaryWriter.requireRoom_eq_ok.mpr hroom, rfl⟩

theorem raw (value : List UInt8) : Writes (BinaryWriter.raw value) value :=
  field fun _ => rfl

theorem validatedU64 (value : Nat) : Writes (BinaryWriter.validatedU64 value) (leBytes 8 value) :=
  field fun w => by rw [length_leBytes]; rfl

theorem u8 {value : Nat} (h : value ≤ 0xff) :
    Writes (BinaryWriter.u8 value) (leBytes 1 value) := by
  refine field fun w => ?_
  rw [length_leBytes, BinaryWriter.u8, throwIf, if_neg (by omega)]
  rfl

theorem u16 {value : Nat} (h : value ≤ 0xffff) :
    Writes (BinaryWriter.u16 value) (leBytes 2 value) := by
  refine field fun w => ?_
  rw [length_leBytes, BinaryWriter.u16, throwIf, if_neg (by omega)]
  rfl

theorem u32 {value : Nat} (h : value ≤ maxU32) :
    Writes (BinaryWriter.u32 value) (leBytes 4 value) := by
  unfold maxU32 at h
  refine field fun w => ?_
  rw [length_leBytes, BinaryWriter.u32, throwIf, if_neg (by omega)]
  rfl

theorem u64 {value : Nat} (h : value ≤ maxU64) :
    Writes (BinaryWriter.u64 value) (leBytes 8 value) := by
  refine field fun w => ?_
  rw [length_leBytes, BinaryWriter.u64, checkedU64_nat.mpr ⟨rfl, h⟩]
  rfl

/-- What a length-prefixed string is written as. -/
def stringBytes (value : JsString) : List UInt8 :=
  leBytes 2 (textEncode value).length ++ textEncode value

theorem validatedString {value : JsString} (h : (textEncode value).length ≤ 0xffff) :
    Writes (BinaryWriter.validatedString (textEncode value)) (stringBytes value) :=
  (u16 h).comp (raw _)

theorem all {α : Type} {write : α → BinaryWriter → Except StoreError BinaryWriter}
    {out : α → List UInt8} {values : List α} (h : ∀ value ∈ values, Writes (write value) (out value)) :
    Writes (writeAll write values) (values.flatMap out) := by
  induction values with
  | nil => exact nil
  | cons value values ih =>
    rw [List.forall_mem_cons] at h
    exact (h.1.comp (ih h.2))

/-- A buffer that is exactly as long as the calls need is full at the end. -/
theorem finish (h : Writes write out) {length initialOffset : Nat}
    (hlen : length = initialOffset + out.length) :
    (BinaryWriter.create length initialOffset >>= write >>= BinaryWriter.finish) =
      .ok (List.replicate initialOffset 0 ++ out) := by
  have hcreate : BinaryWriter.create length initialOffset =
      .ok ⟨length, List.replicate initialOffset 0⟩ := by
    rw [BinaryWriter.create, throwIf, if_neg (by omega)]
    rfl
  have hroom : (List.replicate initialOffset (0 : UInt8)).length + out.length ≤ length := by
    rw [List.length_replicate]
    omega
  rw [hcreate, Checked.ok_bind, h _ hroom, Checked.ok_bind, BinaryWriter.finish, throwIf, if_neg]
  · rfl
  · rw [BinaryWriter.append, List.length_append, List.length_replicate, not_not]
    exact hlen.symm

end Writes

/-! ### Strings -/

namespace BinaryReader

theorem exact_le {width maximum : Nat} (h : 256 ^ width = maximum + 1) :
    Reader.Exact (Reader.number width truncated) (leBytes width) fun n => n ≤ maximum := by
  intro bytes n rest
  refine (Reader.exact_number width truncated bytes n rest).trans ?_
  show n < 256 ^ width ∧ _ ↔ n ≤ maximum ∧ _
  rw [h, Nat.lt_succ_iff]

theorem exact_u8 : Reader.Exact u8 (leBytes 1) fun n => n ≤ 0xff := exact_le rfl
theorem exact_u16 : Reader.Exact u16 (leBytes 2) fun n => n ≤ 0xffff := exact_le rfl
theorem exact_u32 : Reader.Exact u32 (leBytes 4) fun n => n ≤ maxU32 := exact_le rfl
theorem exact_u64 : Reader.Exact u64 (leBytes 8) fun n => n ≤ maxU64 := exact_le rfl

theorem decodeText_eq_ok {kind : String} {validate : JsString → Except StoreError Nat}
    (hunits : ∀ value n, validate value = .ok n → utf8Units value = some n)
    {bytes : List UInt8} {value : JsString} :
    decodeText kind validate bytes = .ok value ↔
      ((∃ n, validate value = .ok n) ∧ NoMark value) ∧ bytes = textEncode value := by
  have hcheck : decodeText kind validate bytes = .ok value ↔
      (textDecode bytes = some value ∧ (textEncode value).length = bytes.length) ∧
        ∃ n, validate value = .ok n := by
    simp only [decodeText, bind_eq_ok, orThrow_eq_ok, throwIf_eq_ok, exists_const, not_not]
    constructor
    · rintro ⟨value', hdecode, hlen, h⟩
      cases hv : validate value' with
      | error cause => rw [hv] at h; cases h
      | ok n =>
        rw [hv] at h
        cases h
        exact ⟨⟨hdecode, hlen⟩, n, hv⟩
    · rintro ⟨⟨hdecode, hlen⟩, n, hv⟩
      exact ⟨value, hdecode, hlen, by rw [hv]; rfl⟩
  rw [hcheck, textDecode_eq_some]
  constructor
  · rintro ⟨⟨-, hmark, hbytes⟩, hvalid⟩
    exact ⟨⟨hvalid, hmark⟩, hbytes⟩
  · rintro ⟨⟨⟨n, hn⟩, hmark⟩, hbytes⟩
    exact ⟨⟨by rw [hunits _ _ hn]; rfl, hmark, hbytes⟩, n, hn⟩

/-- The reader of a string is exact for the strings its validator accepts, without a
leading mark. -/
theorem exact_text {kind : String} {maximum : Nat} {validate : JsString → Except StoreError Nat}
    (hunits : ∀ value n, validate value = .ok n → utf8Units value = some n)
    (hbound : ∀ value n, validate value = .ok n → 0 < n ∧ n ≤ maximum)
    (hmax : maximum ≤ 0xffff) :
    Reader.Exact (text kind maximum validate) Writes.stringBytes fun value =>
      (∃ n, validate value = .ok n) ∧ NoMark value := by
  intro bytes value rest
  simp only [text, Reader.bind_eq_ok, Reader.rejectIf_eq_ok, Reader.raw_eq_ok, Reader.lift_eq_ok,
    decodeText_eq_ok hunits, exact_u16 _ _ _, Writes.stringBytes, List.append_assoc]
  constructor
  · rintro ⟨length, _, ⟨-, rfl⟩, _, _, ⟨-, rfl⟩, _, _, ⟨rfl, rfl⟩, ⟨hvalid, rfl⟩, rfl⟩
    exact ⟨hvalid, rfl⟩
  · rintro ⟨⟨⟨n, hn⟩, hmark⟩, rfl⟩
    have hlen := length_textEncode (hunits _ _ hn)
    have hn' := hbound _ _ hn
    refine ⟨_, _, ⟨by omega, rfl⟩, (), _, ⟨by omega, rfl⟩, _, _, ⟨rfl, rfl⟩,
      ⟨⟨⟨n, hn⟩, hmark⟩, rfl⟩, rfl⟩

end BinaryReader

theorem utf8Bytes_eq {value : JsString} {n : Nat} (h : utf8Units value = some n) :
    utf8Bytes value = n := by
  rw [utf8Bytes, h, Option.getD_some]

theorem ValidComponent.length_textEncode {name : JsString} (h : ValidComponent name) :
    (textEncode name).length = utf8Bytes name := Opfs.length_textEncode h.units

theorem ValidTarget.units {target : JsString} (h : ValidTarget target) :
    utf8Units target = some (utf8Bytes target) ∧ 0 < utf8Bytes target ∧
      utf8Bytes target ≤ maxPathBytes := by
  obtain ⟨n, hn⟩ := h
  simp only [validateSymlinkTarget, bind_eq_ok, utf8Length_eq_ok, throwIf_eq_ok] at hn
  obtain ⟨_, ⟨hunits, rfl⟩, _, hbound, -⟩ := hn
  exact ⟨hunits, by omega, by omega⟩

/-- A target begins with a slash. -/
theorem ValidTarget.noMark {target : JsString} (h : ValidTarget target) : NoMark target := by
  obtain ⟨n, hn⟩ := h
  simp only [validateSymlinkTarget, bind_eq_ok] at hn
  obtain ⟨_, -, _, -, components, hparse, -⟩ := hn
  have hhead : target.head? = some slash := by
    obtain ⟨-, -, ⟨-, rfl⟩ | ⟨hne, rfl⟩⟩ := parsePath_eq_ok hparse
    · rfl
    · cases components with
      | nil => exact absurd rfl hne
      | cons c cs => rfl
  rw [NoMark, hhead]
  decide

namespace BinaryReader

theorem exact_string :
    Reader.Exact string Writes.stringBytes fun name => ValidComponent name ∧ NoMark name := by
  intro bytes name rest
  refine (exact_text (fun value n h => ?_) (fun value n h => ?_) (by decide) bytes name rest).trans ?_
  · obtain ⟨hvalid, rfl⟩ := validatePathComponent_eq_ok.mp h
    exact hvalid.units
  · obtain ⟨hvalid, rfl⟩ := validatePathComponent_eq_ok.mp h
    exact ⟨utf8Units_pos hvalid.units hvalid.ne_nil, hvalid.bound⟩
  · simp only [validatePathComponent_eq_ok, exists_and_left, exists_eq', and_true]

theorem exact_symlinkTarget : Reader.Exact symlinkTarget Writes.stringBytes ValidTarget := by
  intro bytes target rest
  refine (exact_text (fun value n h => ?_) (fun value n h => ?_) (by decide) bytes target rest).trans
    ?_
  · obtain ⟨hvalid, rfl⟩ := validateSymlinkTarget_eq_ok.mp h
    exact hvalid.units.1
  · obtain ⟨hvalid, rfl⟩ := validateSymlinkTarget_eq_ok.mp h
    exact hvalid.units.2
  · constructor
    · rintro ⟨⟨hvalid, -⟩, hbytes⟩
      exact ⟨hvalid, hbytes⟩
    · rintro ⟨hvalid, hbytes⟩
      exact ⟨⟨hvalid, hvalid.noMark⟩, hbytes⟩

theorem readAll_eq_ok {α : Type} {read : BinaryReader α} {write : α → List UInt8}
    {valid : α → Prop} (h : Reader.Exact read write valid) {bytes : List UInt8} {a : α} :
    readAll read bytes = .ok a ↔ valid a ∧ bytes = write a := by
  simp only [readAll, bind_eq_ok, Prod.exists, throwIf_eq_ok, pure_eq_ok, exists_const, not_not,
    List.length_eq_zero_iff, h _ _ _]
  constructor
  · rintro ⟨_, _, ⟨hvalid, rfl⟩, rfl, rfl⟩
    exact ⟨hvalid, List.append_nil _⟩
  · rintro ⟨hvalid, rfl⟩
    exact ⟨a, [], ⟨hvalid, (List.append_nil _).symm⟩, rfl, rfl⟩

end BinaryReader

theorem ValidComponent.writes {name : JsString} (h : ValidComponent name) :
    Writes (BinaryWriter.string name) (Writes.stringBytes name) := by
  have hlen := h.length_textEncode
  have hbound := h.bound
  unfold maxComponentBytes at hbound
  intro w hroom
  rw [BinaryWriter.string, validatePathComponent_eq_ok.mpr ⟨h, rfl⟩, Checked.ok_bind]
  exact Writes.validatedString (by omega) w hroom

theorem ValidTarget.writes {target : JsString} (h : ValidTarget target) :
    Writes (BinaryWriter.symlinkTarget target) (Writes.stringBytes target) := by
  obtain ⟨hunits, -, hbound⟩ := h.units
  have hlen := length_textEncode hunits
  unfold maxPathBytes at hbound
  intro w hroom
  rw [BinaryWriter.symlinkTarget, validateSymlinkTarget_eq_ok.mpr ⟨h, rfl⟩, Checked.ok_bind]
  exact Writes.validatedString (by omega) w hroom

end Opfs
