/-
When the messages that are called back are the messages that were sent.

The parser's reading differs from the protocol's in four places: a text that begins with U+FEFF, an object id
from 2^31 on, a count from 2^15 on, and the objects that the parser keeps ready, which carry a length of their
own.  `ReadsBack` is the absence of the first three, `KeepsLength` of the last.
-/
import Pgxsinkit.Wire.Stream

namespace Wire

open Bytes Cursor Unicode

/-- The same object with another length. -/
def BackendMessage.withLength (length : ℕ) : BackendMessage → BackendMessage
  | plain name _ => plain name length
  | authenticationMD5Password _ salt => authenticationMD5Password length salt
  | authenticationSASL _ mechanisms => authenticationSASL length mechanisms
  | authenticationSASLContinue _ data => authenticationSASLContinue length data
  | authenticationSASLFinal _ data => authenticationSASLFinal length data
  | databaseError message _ name fields => databaseError message length name fields
  | copyData _ chunk => copyData length chunk
  | copyResponse _ name binary columnTypes => copyResponse length name binary columnTypes
  | rowDescription _ fields => rowDescription length fields
  | parameterDescription _ dataTypeIDs => parameterDescription length dataTypeIDs
  | parameterStatus _ name value => parameterStatus length name value
  | backendKeyData _ processID secretKey => backendKeyData length processID secretKey
  | notification _ processId channel payload => notification length processId channel payload
  | readyForQuery _ status => readyForQuery length status
  | commandComplete _ text => commandComplete length text
  | dataRow _ fields => dataRow length fields
  | notice _ message fields => notice length message fields

/-- The codes that the objects of errors and notices show: the message, and `NoticeOrError.ofCodes`. -/
def errorCodes : List UInt8 :=
  [0x4d, 0x53, 0x43, 0x44, 0x48, 0x50, 0x70, 0x71, 0x57, 0x73, 0x74, 0x63, 0x64, 0x6e, 0x46, 0x4c, 0x52]

def ErrorFields.texts (fields : ErrorFields) : List (List Char) :=
  errorCodes.filterMap fun code => (fields.items.lookup code).map CString.chars

namespace Packet

/-- The texts that the object of a packet shows. -/
def texts : Packet → List (List Char)
  | dataRow fields => fields.items.filterMap id
  | rowDescription fields => fields.items.map fun field => field.name.chars
  | parameterStatus name value => [name.chars, value.chars]
  | notification _ channel payload => [channel.chars, payload.chars]
  | commandComplete tag => [tag.chars]
  | authenticationSASL mechanisms => mechanisms.map fun mechanism => mechanism.1.chars
  | authenticationSASLContinue data | authenticationSASLFinal data => [data]
  | error fields | notice fields => fields.texts
  | _ => []

def oids : Packet → List (BitVec 32)
  | rowDescription fields => fields.items.flatMap fun field => [field.tableID, field.dataTypeID]
  | parameterDescription dataTypeIDs => dataTypeIDs.items
  | _ => []

def counts : Packet → List ℕ
  | copyIn _ columnTypes | copyOut _ columnTypes => [columnTypes.items.length]
  | dataRow fields => [fields.items.length]
  | rowDescription fields => [fields.items.length]
  | parameterDescription dataTypeIDs => [dataTypeIDs.items.length]
  | _ => []

structure ReadsBack (packet : Packet) : Prop where
  texts : ∀ chars ∈ packet.texts, chars.head? ≠ some bom
  oids : ∀ oid ∈ packet.oids, oid.toNat < 2 ^ 31
  counts : ∀ count ∈ packet.counts, count < 2 ^ 15

/-- Not one of the objects that the parser keeps ready with a length that no header of theirs declares. -/
def KeepsLength : Packet → Prop
  | parseComplete | bindComplete | closeComplete | noData | portalSuspended | copyBoth _ _ => False
  | _ => True

end Packet

/-! ### Texts, object ids and counts -/

theorem dropBom_eq_iff {chars : List Char} : dropBom chars = chars ↔ chars.head? ≠ some bom := by
  cases chars with
  | nil => simp [dropBom]
  | cons c chars =>
    rw [dropBom, List.head?_cons]
    split_ifs with h
    · refine ⟨fun heq => absurd (congrArg List.length heq) ?_, fun hne => absurd (congrArg some h) hne⟩
      rw [List.length_cons]
      omega
    · simpa using h

theorem text_eq_iff {chars : List Char} :
    parsed.text chars = declared.text chars ↔ chars.head? ≠ some bom := by
  rw [← dropBom_eq_iff]
  exact ⟨fun h => ofChars_injective h, fun h => congrArg ofChars h⟩

theorem oid_eq_iff {v : BitVec 32} : parsed.oid v = declared.oid v ↔ v.toNat < 2 ^ 31 := by
  show v.toInt = (v.toNat : ℤ) ↔ _
  rw [BitVec.toInt_eq_toNat_cond]
  have hlt := v.isLt
  split <;> omega

theorem parsed_count_eq {n : ℕ} (h : n < 2 ^ 15) : parsed.count n = n := by
  show (BitVec.ofNat 16 n).toInt.toNat = n
  rw [BitVec.toInt_eq_toNat_cond, BitVec.toNat_ofNat]
  split <;> omega

theorem parsed_count_zero {n : ℕ} (h : 2 ^ 15 ≤ n) (hn : n < 2 ^ 16) : parsed.count n = 0 := by
  show (BitVec.ofNat 16 n).toInt.toNat = 0
  rw [BitVec.toInt_eq_toNat_cond, BitVec.toNat_ofNat]
  split <;> omega

/-- A counted list comes out as it was when its count is read right, and its items are. -/
theorem items_eq_iff {α β : Type} {list : Counted α} {f g : α → β} :
    (parsed.items list).map f = (declared.items list).map g ↔
      list.items.length < 2 ^ 15 ∧ ∀ a ∈ list.items, f a = g a := by
  have hdeclared : declared.items list = list.items := List.take_length
  rw [hdeclared, Reading.items]
  by_cases h : list.items.length < 2 ^ 15
  · rw [parsed_count_eq h, List.take_length, List.map_inj_left]
    exact ⟨fun hall => ⟨h, hall⟩, And.right⟩
  · rw [parsed_count_zero (not_lt.mp h) list.fits, List.take_zero, List.map_nil]
    refine ⟨fun hnil => absurd (congrArg List.length hnil) ?_, fun hall => absurd hall.1 h⟩
    rw [List.length_nil, List.length_map]
    omega

theorem names_eq_iff {α : Type} {list : List α} {f g : α → Text} (hg : ∀ a ∈ list, g a ≠ []) :
    parsed.names (list.map f) = list.map g ↔ ∀ a ∈ list, f a = g a := by
  rw [← List.map_inj_left]
  constructor
  · intro h
    have hlength := congrArg List.length h
    rw [List.length_map] at hlength
    have htake : parsed.names (list.map f) <+: list.map f := List.takeWhile_prefix _
    have hall := htake.eq_of_length (by rw [hlength, List.length_map])
    rw [← hall, h]
  · intro h
    rw [h]
    refine List.takeWhile_eq_self_iff.mpr fun name hname => ?_
    obtain ⟨a, ha, rfl⟩ := List.mem_map.mp hname
    simpa using hg a ha

theorem field_eq_iff {field : FieldDescription} :
    parsed.field field = declared.field field ↔
      field.name.chars.head? ≠ some bom ∧ field.tableID.toNat < 2 ^ 31 ∧ field.dataTypeID.toNat < 2 ^ 31 := by
  rw [← text_eq_iff, ← oid_eq_iff, ← oid_eq_iff]
  simp only [Reading.field, Field.mk.injEq, and_true, true_and]

theorem value_eq_iff {value : Option (List Char)} :
    value.map parsed.text = value.map declared.text ↔ ∀ chars ∈ value, chars.head? ≠ some bom := by
  cases value with
  | none => simp
  | some chars => simp only [Option.map_some, Option.some.injEq, text_eq_iff, Option.mem_def, forall_eq']

theorem errorText_eq_iff {fields : ErrorFields} {code : UInt8} :
    parsed.errorText fields code = declared.errorText fields code ↔
      ∀ chars ∈ (fields.items.lookup code).map CString.chars, chars.head? ≠ some bom := by
  rw [← value_eq_iff, Option.map_map, Option.map_map]
  rfl

theorem ofCodes_eq_iff {f g : UInt8 → Option Text} :
    NoticeOrError.ofCodes f = NoticeOrError.ofCodes g ↔ ∀ code ∈ errorCodes.tail, f code = g code := by
  simp only [NoticeOrError.ofCodes, NoticeOrError.mk.injEq, errorCodes, List.tail_cons, List.forall_mem_cons,
    List.not_mem_nil, false_implies, implies_true, and_true]

/-- The object of an error shows the texts of the codes that it has a field for. -/
theorem error_eq_iff {fields : ErrorFields} :
    (parsed.errorText fields 0x4d = declared.errorText fields 0x4d ∧
      NoticeOrError.ofCodes (parsed.errorText fields) = .ofCodes (declared.errorText fields)) ↔
      ∀ chars ∈ fields.texts, chars.head? ≠ some bom := by
  have hall : (∀ chars ∈ fields.texts, chars.head? ≠ some bom) ↔
      ∀ code ∈ errorCodes, parsed.errorText fields code = declared.errorText fields code := by
    simp only [errorText_eq_iff, ErrorFields.texts, List.mem_filterMap, Option.mem_def]
    exact ⟨fun h code hcode chars hchars => h chars ⟨code, hcode, hchars⟩,
      fun h chars ⟨code, hcode, hchars⟩ => h code hcode chars hchars⟩
  rw [hall, ofCodes_eq_iff]
  show _ ↔ ∀ code ∈ 0x4d :: errorCodes.tail, _
  rw [List.forall_mem_cons]

/-- The message of an error is always there. -/
theorem message_eq_iff {fields : ErrorFields} :
    (parsed.errorText fields 0x4d).getD [] = (declared.errorText fields 0x4d).getD [] ↔
      parsed.errorText fields 0x4d = declared.errorText fields 0x4d := by
  obtain ⟨item, hitem, hcode⟩ := List.mem_map.mp fields.message
  have hlookup : fields.items.lookup 0x4d = some item.2 :=
    (OrdMap.lookup_eq_some_iff fields.distinct).mpr (hcode ▸ hitem)
  rw [Reading.errorText, Reading.errorText, hlookup]
  simp only [Option.map_some, Option.getD_some, Option.some.injEq]

/-! ### Packets -/

/-- The reading is right but for lengths exactly when texts, object ids and counts are. -/
theorem withLength_eq_iff (packet : Packet) :
    (packet.seen parsed).withLength 0 = (packet.seen declared).withLength 0 ↔ packet.ReadsBack := by
  have hback : packet.ReadsBack ↔ (∀ chars ∈ packet.texts, chars.head? ≠ some bom) ∧
      (∀ oid ∈ packet.oids, oid.toNat < 2 ^ 31) ∧ ∀ count ∈ packet.counts, count < 2 ^ 15 :=
    ⟨fun h => ⟨h.texts, h.oids, h.counts⟩, fun h => ⟨h.1, h.2.1, h.2.2⟩⟩
  rw [hback]
  cases packet with
  | dataRow fields =>
    simp only [Packet.seen, BackendMessage.withLength, BackendMessage.dataRow.injEq, true_and, items_eq_iff,
      value_eq_iff, Packet.texts, Packet.oids, Packet.counts, List.mem_singleton, forall_eq, List.not_mem_nil,
      false_implies, implies_true, List.mem_filterMap, id_eq, Option.mem_def]
    exact ⟨fun ⟨hcount, htexts⟩ => ⟨fun chars ⟨value, hvalue, hchars⟩ => htexts value hvalue chars hchars, hcount⟩,
      fun ⟨htexts, hcount⟩ => ⟨hcount, fun value hvalue chars hchars => htexts chars ⟨value, hvalue, hchars⟩⟩⟩
  | rowDescription fields =>
    simp only [Packet.seen, BackendMessage.withLength, BackendMessage.rowDescription.injEq, true_and,
      items_eq_iff, field_eq_iff, Packet.texts, Packet.oids, Packet.counts, List.mem_singleton, forall_eq,
      List.forall_mem_map, List.mem_flatMap]
    constructor
    · rintro ⟨hcount, hfields⟩
      refine ⟨fun field hfield => (hfields field hfield).1, ?_, hcount⟩
      rintro oid ⟨field, hfield, hoid⟩
      rcases List.mem_pair.mp hoid with rfl | rfl
      · exact (hfields field hfield).2.1
      · exact (hfields field hfield).2.2
    · rintro ⟨htexts, hoids, hcount⟩
      exact ⟨hcount, fun field hfield => ⟨htexts field hfield,
        hoids _ ⟨field, hfield, List.mem_cons_self⟩,
        hoids _ ⟨field, hfield, List.mem_cons_of_mem _ (List.mem_singleton_self _)⟩⟩⟩
  | parameterDescription dataTypeIDs =>
    simp only [Packet.seen, BackendMessage.withLength, BackendMessage.parameterDescription.injEq, true_and,
      items_eq_iff, oid_eq_iff, Packet.texts, Packet.oids, Packet.counts, List.mem_singleton, forall_eq,
      List.not_mem_nil, false_implies, implies_true]
    exact and_comm
  | authenticationSASL mechanisms =>
    have hnames : ∀ mechanism ∈ mechanisms, declared.text mechanism.1.chars ≠ [] := fun mechanism _ h =>
      mechanism.2 (ofChars_injective h)
    have hiff := names_eq_iff (f := fun mechanism => parsed.text mechanism.1.chars) hnames
    simp only [text_eq_iff] at hiff
    simp only [Packet.seen, BackendMessage.withLength, BackendMessage.authenticationSASL.injEq, true_and,
      Packet.texts, Packet.oids, Packet.counts, List.not_mem_nil, false_implies, implies_true, and_true,
      List.forall_mem_map]
    exact hiff
  | error fields =>
    simp only [Packet.seen, BackendMessage.withLength, BackendMessage.databaseError.injEq, true_and,
      message_eq_iff, error_eq_iff, Packet.texts, Packet.oids, Packet.counts, List.not_mem_nil, false_implies,
      implies_true, and_true]
  | notice fields =>
    simp only [Packet.seen, BackendMessage.withLength, BackendMessage.notice.injEq, true_and,
      error_eq_iff, Packet.texts, Packet.oids, Packet.counts, List.not_mem_nil, false_implies,
      implies_true, and_true]
  | copyIn binary columnTypes =>
    simp [Packet.seen, BackendMessage.withLength, items_eq_iff, Packet.texts, Packet.oids, Packet.counts]
  | copyOut binary columnTypes =>
    simp [Packet.seen, BackendMessage.withLength, items_eq_iff, Packet.texts, Packet.oids, Packet.counts]
  | _ => simp [Packet.seen, BackendMessage.withLength, text_eq_iff, Packet.texts, Packet.oids, Packet.counts]

/-- The lengths agree as well unless the object is one that the parser keeps ready. -/
theorem seen_eq_iff (packet : Packet) :
    packet.seen parsed = packet.seen declared ↔ packet.ReadsBack ∧ packet.KeepsLength := by
  rw [← withLength_eq_iff]
  cases packet with
  | copyBoth binary columnTypes =>
    have hlength : (Packet.copyBoth binary columnTypes).length ≠ 4 := by
      show (copyBytes binary columnTypes).length + 4 ≠ 4
      rw [copyBytes, List.length_cons]
      omega
    simpa [Packet.seen, Packet.KeepsLength, parsed, declared] using Ne.symm hlength
  | _ =>
    simp [Packet.seen, Packet.KeepsLength, BackendMessage.withLength, parsed, declared, Packet.length,
      Packet.body]

/-- Cut anywhere into views of larger buffers, the encoding of any messages is called back as exactly these
messages, with nothing left in the buffer, if and only if each of them reads back and keeps its length; but for
lengths, if and only if each reads back. -/
theorem parseAll_iff (messages : List Message) (chunks : List BufferView)
    (h : chunks.flatMap BufferView.bytes = messages.flatMap Message.encode) :
    (Parser.new.parseAll chunks =
        (messages.map fun message => message.packet.seen declared, [], .new) ↔
      ∀ message ∈ messages, message.packet.ReadsBack ∧ message.packet.KeepsLength) ∧
    ((Parser.new.parseAll chunks).2 = ([], .new) ∧
        (Parser.new.parseAll chunks).1.map (BackendMessage.withLength 0) =
          messages.map (fun message => (message.packet.seen declared).withLength 0) ↔
      ∀ message ∈ messages, message.packet.ReadsBack) := by
  have hparse := parseAll_spec Parser.fits_new (fun _ => rfl) (show Parser.new.pending ++ _ = _ from h)
  rw [hparse]
  constructor
  · rw [Prod.mk.injEq, List.map_inj_left]
    simp only [seen_eq_iff, and_true]
  · rw [List.map_map, List.map_inj_left]
    simp only [Function.comp_apply, withLength_eq_iff, true_and]

/-- The tag of a CommandComplete, U+FEFF, is called back as the empty text. -/
theorem parseAll_mark :
    (⟨[0x43, 0, 0, 0, 8, 0xef, 0xbb, 0xbf, 0], 0, 9, by decide⟩ : BufferView).bytes =
        (⟨.commandComplete ⟨[bom], by decide⟩, by decide⟩ : Message).encode ∧
      Parser.new.parseAll [⟨[0x43, 0, 0, 0, 8, 0xef, 0xbb, 0xbf, 0], 0, 9, by decide⟩] =
        ([.commandComplete 8 []], [], .new) ∧
      (Packet.commandComplete ⟨[bom], by decide⟩).seen declared = .commandComplete 8 [0xfeff] := by
  decide

/-- A ReadyForQuery and a DataRow with a NULL in two chunks, which cut the header of the second. -/
theorem parseAll_iff_cut :
    Parser.new.parseAll
        [⟨[0xff, 0x5a, 0, 0, 0, 5, 0x49, 0x44, 0], 1, 8, by decide⟩,
          ⟨[0, 0, 10, 0, 1, 0xff, 0xff, 0xff, 0xff], 0, 9, by decide⟩] =
      ([.readyForQuery 5 [0x49], .dataRow 10 [none]], [], .new) := by
  have h := (parseAll_iff
    [⟨.readyForQuery .idle, by decide⟩, ⟨.dataRow ⟨[none], by decide⟩, by decide⟩]
    [⟨[0xff, 0x5a, 0, 0, 0, 5, 0x49, 0x44, 0], 1, 8, by decide⟩,
      ⟨[0, 0, 10, 0, 1, 0xff, 0xff, 0xff, 0xff], 0, 9, by decide⟩] (by decide)).1.mpr
  refine (h ?_).trans (by decide)
  rw [List.forall_mem_cons, List.forall_mem_singleton]
  refine ⟨⟨⟨?_, ?_, ?_⟩, trivial⟩, ⟨⟨?_, ?_, ?_⟩, trivial⟩⟩ <;>
    simp [Packet.texts, Packet.oids, Packet.counts]

end Wire
