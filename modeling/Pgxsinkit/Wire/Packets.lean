/-
What `handlePacket` makes of the body of a packet: the object that the packet becomes under the parser's
reading, whatever lies around the body in the buffer.
-/
import Pgxsinkit.Wire.Parser

namespace Wire

open Bytes Cursor Unicode BufferReader

/-! ### Integers and texts -/

theorem reads_int16 (v : BitVec 16) : Reads int16 (int16Bytes v) v.toInt :=
  @reads_signed ParseError .rangeError 2 v

theorem reads_int32 (v : BitVec 32) : Reads int32 (int32Bytes v) v.toInt :=
  @reads_signed ParseError .rangeError 4 v

theorem reads_string (bytes : List UInt8) :
    Reads (string bytes.length) bytes (lossyDecode bytes) :=
  (reads_raw bytes).map lossyDecode

theorem reads_text (chars : List Char) :
    Reads (string (utf8 chars).length) (utf8 chars) (parsed.text chars) := by
  have h := reads_string (utf8 chars)
  rwa [lossyDecode_utf8] at h

/-- Only U+0000 is encoded with a zero byte. -/
theorem zero_notMem_utf8 {chars : List Char} (h : Char.ofNat 0 ∉ chars) : 0 ∉ utf8 chars := by
  intro hmem
  obtain ⟨c, hc, hzero⟩ := List.mem_flatMap.mp hmem
  have hpos : c.toNat ≠ 0 := by
    intro heq
    refine h ?_
    rwa [← heq, Char.ofNat_toNat]
  obtain ⟨hmax, -⟩ := char_bounds c
  have hbyte : ∀ n, 0 < n → n < 256 → (0 : UInt8) ≠ UInt8.ofNat n := by
    intro n hn hlt heq
    have hnat := congrArg UInt8.toNat heq
    rw [toNat_byte hlt] at hnat
    exact hn.ne hnat
  rw [utf8EncodeChar_eq] at hzero
  split_ifs at hzero with h1 h2 h3 <;>
    simp only [List.mem_cons, List.not_mem_nil, or_false] at hzero
  · exact hbyte _ (by omega) (by omega) hzero
  · rcases hzero with hzero | hzero <;> exact hbyte _ (by omega) (by omega) hzero
  · rcases hzero with hzero | hzero | hzero <;> exact hbyte _ (by omega) (by omega) hzero
  · rcases hzero with hzero | hzero | hzero | hzero <;> exact hbyte _ (by omega) (by omega) hzero

theorem reads_cstring (value : CString) : Reads cstring value.bytes (parsed.text value.chars) := by
  have h := (reads_terminated ParseError.rangeError (zero_notMem_utf8 value.nonzero)).map lossyDecode
  rwa [lossyDecode_utf8] at h

/-! ### Counted lists -/

/-- The signed count is never more than the length. -/
theorem parsed_count_le (n : ℕ) : parsed.count n ≤ n := by
  have hle : (BitVec.ofNat 16 n).toInt ≤ (n : ℤ) := by
    rw [BitVec.toInt_eq_toNat_cond, BitVec.toNat_ofNat]
    split <;> omega
  show (BitVec.ofNat 16 n).toInt.toNat ≤ n
  omega

/-- A count and as many items as it says; what a wrong count leaves unread does not matter. -/
theorem yields_counted {α β : Type} {item : Cursor ParseError α} {write : β → List UInt8} {value : β → α}
    (list : Counted β) (h : ∀ b ∈ list.items, Reads item (write b) (value b))
    (make : List α → BackendMessage) :
    Yields (do
      let count ← int16
      let items ← times item count.toNat
      return make items) (list.bytes write) (make ((parsed.items list).map value)) := by
  have hcount := reads_int16 (BitVec.ofNat 16 list.items.length)
  refine hcount.bind_yields ?_
  have htake : (list.items.take (parsed.count list.items.length)).length =
      parsed.count list.items.length := by
    rw [List.length_take]
    exact min_eq_left (parsed_count_le _)
  have hitems : Reads (times item (parsed.count list.items.length))
      ((parsed.items list).flatMap write) ((parsed.items list).map value) := by
    have htimes : Reads (times item (parsed.items list).length) ((parsed.items list).flatMap write)
        ((parsed.items list).map value) :=
      reads_times fun b hb => h b (List.mem_of_mem_take hb)
    rwa [show (parsed.items list).length = _ from htake] at htimes
  have hrest : list.items.flatMap write = (parsed.items list).flatMap write ++
      (list.items.drop (parsed.count list.items.length)).flatMap write := by
    rw [← List.flatMap_append, Reading.items, List.take_append_drop]
  rw [hrest]
  exact hitems.bind_yields (yields_pure _ _)

/-! ### Rows and columns -/

theorem reads_mode (mode : Mode) :
    Reads (int16 >>= fun n => pure (if n = 0 then Mode.text else Mode.binary)) mode.bytes mode := by
  cases mode with
  | text => exact (reads_int16 0).map fun n => if n = 0 then Mode.text else Mode.binary
  | binary => exact (reads_int16 1).map fun n => if n = 0 then Mode.text else Mode.binary

theorem reads_field (field : FieldDescription) : Reads parseField field.bytes (parsed.field field) := by
  have hmode := (reads_mode field.format).map fun mode => (⟨parsed.text field.name.chars,
    field.tableID.toInt, field.columnID.toInt, field.dataTypeID.toInt, field.dataTypeSize.toInt,
    field.dataTypeModifier.toInt, mode⟩ : Field)
  rw [bind_assoc] at hmode
  exact (reads_cstring field.name).bind ((reads_int32 field.tableID).bind
    ((reads_int16 field.columnID).bind ((reads_int32 field.dataTypeID).bind
      ((reads_int16 field.dataTypeSize).bind ((reads_int32 field.dataTypeModifier).bind hmode)))))

theorem toInt_ofNat_of_lt {n : ℕ} (h : n < 2 ^ 31) : (BitVec.ofNat 32 n).toInt = n := by
  rw [BitVec.toInt_eq_toNat_cond, BitVec.toNat_ofNat]
  split <;> omega

theorem reads_length {n : ℕ} (h : n < 2 ^ 31) : Reads int32 (beBytes 4 n) (n : ℤ) := by
  have hread := reads_int32 (BitVec.ofNat 32 n)
  rw [toInt_ofNat_of_lt h, int32Bytes, BitVec.toNat_ofNat, Nat.mod_eq_of_lt (by omega)] at hread
  exact hread

theorem reads_value {value : Option (List Char)} (h : (valueBytes value).length < 2 ^ 31) :
    Reads parseValue (valueBytes value) (value.map parsed.text) := by
  cases value with
  | none =>
    have hnull : Reads parseValue (int32Bytes (BitVec.ofInt 32 (-1)) ++ []) none := by
      refine (reads_int32 (BitVec.ofInt 32 (-1))).bind ?_
      rw [if_pos (by decide)]
      exact reads_pure none
    rwa [List.append_nil] at hnull
  | some chars =>
    have hlength : (utf8 chars).length < 2 ^ 31 := by
      rw [valueBytes, List.length_append] at h
      omega
    refine (reads_length hlength).bind ?_
    rw [if_neg (by omega)]
    exact (reads_text chars).map some

/-! ### Mechanisms and errors -/

/-- One byte as text. -/
theorem lossyDecode_byte (b : UInt8) :
    lossyDecode [b] = if b.toNat ≤ 0x7f then [b.toUInt16] else [0xfffd] := by
  have hall : ∀ n : Fin 256, lossyDecode [UInt8.ofNat n.val] =
      if (UInt8.ofNat n.val).toNat ≤ 0x7f then [(UInt8.ofNat n.val).toUInt16] else [0xfffd] := by
    decide +kernel
  have hb := hall ⟨b.toNat, b.toNat_lt⟩
  rwa [UInt8.ofNat_toNat] at hb

theorem toUInt16_inj {b c : UInt8} (h : b.toUInt16 = c.toUInt16) : b = c := by
  have hnat := congrArg UInt16.toNat h
  rw [UInt8.toNat_toUInt16, UInt8.toNat_toUInt16] at hnat
  exact UInt8.toNat.inj hnat

/-- A byte of a seven-bit code is told from every other byte. -/
theorem lossyDecode_byte_eq_iff {b c : UInt8} (hc : c.toNat ≤ 0x7f) :
    lossyDecode [b] = [c.toUInt16] ↔ b = c := by
  rw [lossyDecode_byte]
  split_ifs with hb
  · exact ⟨fun h => toUInt16_inj (List.singleton_injective h), fun h => by rw [h]⟩
  · refine ⟨fun h => absurd (congrArg UInt16.toNat (List.singleton_injective h)) ?_, fun h => ?_⟩
    · rw [UInt8.toNat_toUInt16]
      show ¬ 0xfffd = c.toNat
      omega
    · rw [h] at hb
      exact absurd hc hb

theorem reads_byteText (b : UInt8) : Reads (string 1) [b] (lossyDecode [b]) := reads_string [b]

theorem names_cons (name : Text) (names : List Text) :
    parsed.names (name :: names) = if name = [] then [] else name :: parsed.names names := by
  simp only [parsed]
  rw [List.takeWhile_cons]
  by_cases h : name = [] <;> simp [h]

/-- The names up to one that reads as empty. -/
theorem yields_mechanisms {mechanisms : List CString} {rounds : ℕ} (h : mechanisms.length < rounds)
    (found : List Text) :
    Yields (mechanismsLoop rounds found) (mechanisms.flatMap CString.bytes ++ [0])
      (found ++ parsed.names (mechanisms.map fun mechanism => parsed.text mechanism.chars)) := by
  induction mechanisms generalizing rounds found with
  | nil =>
    obtain ⟨rounds, rfl⟩ := Nat.exists_eq_succ_of_ne_zero (by omega : rounds ≠ 0)
    have hempty := reads_cstring ⟨[], List.not_mem_nil⟩
    rw [show found ++ parsed.names (([] : List CString).map fun mechanism => parsed.text mechanism.chars) =
      found from List.append_nil found]
    exact (hempty.bind (reads_pure found)).yields
  | cons mechanism mechanisms ih =>
    obtain ⟨rounds, rfl⟩ := Nat.exists_eq_succ_of_ne_zero (by omega : rounds ≠ 0)
    rw [List.length_cons] at h
    rw [List.flatMap_cons, List.append_assoc, List.map_cons]
    refine (reads_cstring mechanism).bind_yields ?_
    rw [names_cons]
    by_cases hname : parsed.text mechanism.chars = []
    · -- a name of nothing but a byte order mark ends the list
      rw [if_pos hname, if_pos hname, List.append_nil]
      exact yields_pure found _
    · have hlt : mechanisms.length < rounds := by omega
      have hrest := ih hlt (found ++ [parsed.text mechanism.chars])
      rw [if_neg hname, if_neg hname]
      rwa [List.append_assoc, List.singleton_append] at hrest

theorem reads_fields {items : List (UInt8 × CString)} (hnonzero : ∀ item ∈ items, item.1 ≠ 0)
    {rounds : ℕ} (h : items.length < rounds) (fields : OrdMap Text Text) :
    Reads (fieldsLoop rounds fields) ((items.flatMap fun item => item.1 :: item.2.bytes) ++ [0])
      (items.foldl (fun fields item => fields.set (lossyDecode [item.1]) (parsed.text item.2.chars)) fields) := by
  have hzero : ∀ b : UInt8, lossyDecode [b] = [0] ↔ b = 0 := fun b =>
    lossyDecode_byte_eq_iff (show (0 : UInt8).toNat ≤ 0x7f by decide)
  induction items generalizing rounds fields with
  | nil =>
    obtain ⟨rounds, rfl⟩ := Nat.exists_eq_succ_of_ne_zero (by omega : rounds ≠ 0)
    have hend : Reads (fieldsLoop (rounds + 1) fields) ([0] ++ []) fields := by
      refine (reads_byteText 0).bind ?_
      rw [if_pos ((hzero 0).mpr rfl)]
      exact reads_pure fields
    exact hend
  | cons item items ih =>
    rw [List.forall_mem_cons] at hnonzero
    rw [List.length_cons] at h
    obtain ⟨rounds, rfl⟩ := Nat.exists_eq_succ_of_ne_zero (by omega : rounds ≠ 0)
    have hlt : items.length < rounds := by omega
    have hitem : Reads (fieldsLoop (rounds + 1) fields)
        ([item.1] ++ (item.2.bytes ++ ((items.flatMap fun item => item.1 :: item.2.bytes) ++ [0])))
        (items.foldl (fun fields item => fields.set (lossyDecode [item.1]) (parsed.text item.2.chars))
          (fields.set (lossyDecode [item.1]) (parsed.text item.2.chars))) := by
      refine (reads_byteText item.1).bind ?_
      rw [if_neg (mt (hzero item.1).mp hnonzero.1)]
      exact (reads_cstring item.2).bind (ih hnonzero.2 hlt _)
    rw [List.flatMap_cons, List.append_assoc, List.cons_append, List.foldl_cons]
    exact hitem

/-- The text of a field of a seven-bit code. -/
theorem get?_fields {items : List (UInt8 × CString)} (hdistinct : (items.map Prod.fst).Nodup) {code : UInt8}
    (hcode : code.toNat ≤ 0x7f) (fields : OrdMap Text Text) :
    (items.foldl (fun fields item => fields.set (lossyDecode [item.1]) (parsed.text item.2.chars))
      fields).get? [code.toUInt16] =
      ((items.lookup code).map fun value => parsed.text value.chars).or (fields.get? [code.toUInt16]) := by
  induction items generalizing fields with
  | nil => rfl
  | cons item items ih =>
    obtain ⟨itemCode, value⟩ := item
    rw [List.map_cons, List.nodup_cons] at hdistinct
    rw [List.foldl_cons, ih hdistinct.2, OrdMap.get?_set, OrdMap.lookup_cons_if]
    by_cases hsame : code = itemCode
    · have hnone : items.lookup code = none := by
        rw [List.lookup_eq_none_iff]
        intro entry hentry
        have hne : code ≠ entry.1 := fun heq =>
          hdistinct.1 (List.mem_map.mpr ⟨entry, hentry, heq.symm.trans hsame⟩)
        simpa using hne
      rw [hnone, if_pos ((lossyDecode_byte_eq_iff hcode).mpr hsame.symm).symm, if_pos hsame]
      rfl
    · rw [if_neg (fun heq => hsame ((lossyDecode_byte_eq_iff hcode).mp heq.symm).symm), if_neg hsame]

/-! ### Whole packets -/

theorem length_le_flatMap {α : Type} {write : α → List UInt8} (h : ∀ a, 0 < (write a).length) (list : List α) :
    list.length ≤ (list.flatMap write).length := by
  induction list with
  | nil => exact le_rfl
  | cons a list ih =>
    have ha := h a
    rw [List.flatMap_cons, List.length_append, List.length_cons]
    omega

theorem ofCodes_congr {f g : UInt8 → Option Text} (h : ∀ code : UInt8, code.toNat ≤ 0x7f → f code = g code) :
    NoticeOrError.ofCodes f = NoticeOrError.ofCodes g := by
  simp only [NoticeOrError.ofCodes, NoticeOrError.mk.injEq]
  refine ⟨?_, ?_, ?_, ?_, ?_, ?_, ?_, ?_, ?_, ?_, ?_, ?_, ?_, ?_, ?_, ?_⟩ <;> exact h _ (by decide)

theorem yields_error (fields : ErrorFields) (length : ℕ) (name : MessageName) :
    Yields (parseErrorMessage length name) fields.bytes
      (if name = .notice then
        .notice length (parsed.errorText fields 0x4d) (.ofCodes (parsed.errorText fields))
      else .databaseError ((parsed.errorText fields 0x4d).getD []) length name
        (.ofCodes (parsed.errorText fields))) := by
  have hget : ∀ code : UInt8, code.toNat ≤ 0x7f →
      (fields.items.foldl (fun found item => found.set (lossyDecode [item.1]) (parsed.text item.2.chars))
        OrdMap.empty).get? [code.toUInt16] = parsed.errorText fields code := by
    intro code hcode
    rw [get?_fields fields.distinct hcode]
    exact Option.or_none
  have hread : Reads (rounds fun n => fieldsLoop n .empty) fields.bytes
      (fields.items.foldl (fun found item => found.set (lossyDecode [item.1]) (parsed.text item.2.chars))
        .empty) := by
    refine reads_rounds fun n hn => ?_
    have hpos : ∀ item : UInt8 × CString, 0 < (item.1 :: item.2.bytes).length := fun item =>
      Nat.succ_pos _
    have hle := length_le_flatMap hpos fields.items
    rw [ErrorFields.bytes, List.length_append] at hn
    exact reads_fields fields.nonzero (by omega) .empty
  rw [← List.append_nil fields.bytes]
  refine hread.bind_yields ?_
  have hmessage := hget 0x4d (by decide)
  dsimp only
  rw [ofCodes_congr hget, show [(0x4d : UInt16)] = [(0x4d : UInt8).toUInt16] from rfl, hmessage]
  by_cases hname : name = .notice
  · rw [if_pos hname, if_pos hname]
    exact yields_pure _ _
  · rw [if_neg hname, if_neg hname]
    exact yields_pure _ _

/-- The first four bytes of an authentication message say which one it is. -/
theorem yields_authentication (v : BitVec 32) {next : ℤ → Cursor ParseError BackendMessage}
    {rest : List UInt8} {message : BackendMessage} (h : Yields (next v.toInt) rest message) :
    Yields (int32 >>= next) (int32Bytes v ++ rest) message :=
  (reads_int32 v).bind_yields h

theorem length_int32Bytes (v : BitVec 32) : (int32Bytes v).length = 4 := length_beBytes 4 _

/-- The text that the rest of an authentication message is. -/
theorem reads_data {v : BitVec 32} {data : List Char} {length : ℕ}
    (h : length = (int32Bytes v ++ utf8 data).length + 4) :
    Reads (string ((length : ℤ) - 8)) (utf8 data) (parsed.text data) := by
  have hlength : (length : ℤ) - 8 = (utf8 data).length := by
    rw [h, List.length_append, length_int32Bytes]
    push_cast
    ring
  rw [hlength]
  exact reads_text data

theorem yields_copy (binary : Bool) (columnTypes : Counted (BitVec 16)) (length : ℕ) (name : MessageName) :
    Yields (parseCopyMessage length name) (copyBytes binary columnTypes)
      (.copyResponse length name binary ((parsed.items columnTypes).map BitVec.toInt)) := by
  have hbinary : ∀ flag : Bool, decide ((if flag then (1 : UInt8) else 0) ≠ 0) = flag := by decide
  have hrest := yields_counted columnTypes (fun v _ => reads_int16 v) fun types =>
    .copyResponse length name (decide ((if binary then (1 : UInt8) else 0) ≠ 0)) types
  have hcopy : Yields (parseCopyMessage length name) (copyBytes binary columnTypes)
      (.copyResponse length name (decide ((if binary then (1 : UInt8) else 0) ≠ 0))
        ((parsed.items columnTypes).map BitVec.toInt)) :=
    (reads_byte ParseError.rangeError (if binary then 1 else 0)).bind_yields hrest
  rwa [hbinary] at hcopy

/-- What is called back with for a packet is the packet under the parser's reading. -/
theorem yields_handlePacket (message : Message) :
    Yields (handlePacket message.packet.code message.packet.length) message.packet.body
      (message.packet.seen parsed) := by
  obtain ⟨packet, hfits⟩ := message
  cases packet with
  | parseComplete => exact yields_pure _ _
  | bindComplete => exact yields_pure _ _
  | closeComplete => exact yields_pure _ _
  | noData => exact yields_pure _ _
  | portalSuspended => exact yields_pure _ _
  | emptyQuery => exact yields_pure _ _
  | copyDone => exact yields_pure _ _
  | copyBoth binary columnTypes => exact yields_pure _ _
  | copyIn binary columnTypes => exact yields_copy binary columnTypes _ _
  | copyOut binary columnTypes => exact yields_copy binary columnTypes _ _
  | copyData chunk =>
    have hlength : (((Packet.copyData chunk).length : ℕ) : ℤ) - 4 = chunk.length := by
      show ((chunk.length + 4 : ℕ) : ℤ) - 4 = chunk.length
      push_cast
      ring
    show Yields (parseCopyData (Packet.copyData chunk).length) chunk _
    rw [parseCopyData, hlength]
    exact ((reads_raw chunk).map _).yields
  | dataRow fields =>
    refine yields_counted fields (fun value hvalue => reads_value ?_) _
    have hle : (valueBytes value).length ≤ (fields.items.flatMap valueBytes).length := by
      rw [List.flatMap_def]
      exact (List.sublist_flatten_of_mem (List.mem_map_of_mem hvalue)).length_le
    have hbody : (Packet.dataRow fields).length = (fields.bytes valueBytes).length + 4 := rfl
    rw [hbody, Counted.bytes, List.length_append] at hfits
    show (valueBytes value).length < 2 ^ 31
    omega
  | rowDescription fields => exact yields_counted fields (fun field _ => reads_field field) _
  | parameterDescription dataTypeIDs => exact yields_counted dataTypeIDs (fun v _ => reads_int32 v) _
  | parameterStatus name value =>
    exact ((reads_cstring name).bind ((reads_cstring value).map _)).yields
  | backendKeyData processID secretKey =>
    exact ((reads_int32 processID).bind ((reads_int32 secretKey).map _)).yields
  | notification processId channel payload =>
    exact ((reads_int32 processId).bind ((reads_cstring channel).bind
      ((reads_cstring payload).map _))).yields
  | readyForQuery status =>
    have hstatus : ∀ status : TransactionStatus, lossyDecode [status.byte] = [status.byte.toUInt16] := by
      intro status
      rw [lossyDecode_byte, if_pos (by cases status <;> decide)]
    have hread := (reads_byteText status.byte).map (BackendMessage.readyForQuery
      (Packet.readyForQuery status).length)
    rw [hstatus] at hread
    exact hread.yields
  | commandComplete tag => exact ((reads_cstring tag).map _).yields
  | authenticationOk =>
    have hread : Yields (parseAuthenticationResponse Packet.authenticationOk.length) (int32Bytes 0 ++ [])
        (.plain .authenticationOk Packet.authenticationOk.length) :=
      yields_authentication 0 (yields_pure _ _)
    rwa [List.append_nil] at hread
  | authenticationCleartextPassword =>
    have hread : Yields (parseAuthenticationResponse Packet.authenticationCleartextPassword.length)
        (int32Bytes 3 ++ [])
        (.plain .authenticationCleartextPassword Packet.authenticationCleartextPassword.length) :=
      yields_authentication 3 (yields_pure _ _)
    rwa [List.append_nil] at hread
  | authenticationMD5Password salt =>
    have hsalt := reads_raw (ε := ParseError) salt.toList
    rw [Vector.length_toList] at hsalt
    exact yields_authentication 5 (hsalt.map _).yields
  | authenticationSASL mechanisms =>
    have hloop : Yields (rounds fun n => mechanismsLoop n [])
        ((mechanisms.flatMap fun mechanism => mechanism.1.bytes) ++ [0])
        (parsed.names (mechanisms.map fun mechanism => parsed.text mechanism.1.chars)) := by
      refine yields_rounds fun n hn => ?_
      have hpos : ∀ mechanism : { mechanism : CString // mechanism.chars ≠ [] },
          0 < mechanism.1.bytes.length := fun mechanism => by
        rw [CString.bytes, List.length_append]
        exact Nat.succ_pos _
      have hle := length_le_flatMap hpos mechanisms
      rw [List.length_append] at hn
      have hloop := yields_mechanisms (show (mechanisms.map Subtype.val).length < n by
        rw [List.length_map]; omega) []
      rwa [List.flatMap_map, List.map_map, List.nil_append] at hloop
    exact yields_authentication 10 (hloop.map _)
  | authenticationSASLContinue data =>
    refine yields_authentication 11 ?_
    exact ((reads_data rfl).map _).yields
  | authenticationSASLFinal data =>
    refine yields_authentication 12 ?_
    exact ((reads_data rfl).map _).yields
  | error fields => exact yields_error fields _ .error
  | notice fields => exact yields_error fields _ .notice

end Wire
