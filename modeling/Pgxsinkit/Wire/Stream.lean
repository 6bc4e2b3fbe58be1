/-
A stream of backend messages, cut into chunks anywhere.

The bytes that wait in the buffer and the bytes still to come are the encoding of the messages still to
come; `mergeBuffer` appends to the former and the loop of `parse` takes whole messages off their front.
-/
import Pgxsinkit.Wire.Packets

namespace Wire

open Bytes Cursor Unicode

/-! ### The bytes that wait -/

namespace Parser

variable {parser : Parser} {chunk : List UInt8}

def pending (parser : Parser) : List UInt8 := slice parser.buffer parser.offset parser.remaining

def Fits (parser : Parser) : Prop := parser.offset + parser.remaining ≤ parser.buffer.length

theorem fits_new : Parser.new.Fits := le_rfl

/-- Doubling goes past any length that enough rounds reach. -/
theorem lt_doubled {newLength rounds newBufferLength : ℕ} (h : newLength < newBufferLength * 2 ^ rounds) :
    newLength < doubled newLength rounds newBufferLength := by
  induction rounds generalizing newBufferLength with
  | zero =>
    rw [Nat.pow_zero, Nat.mul_one] at h
    exact h
  | succ rounds ih =>
    rw [doubled]
    split_ifs with hsmall
    · refine ih ?_
      rwa [Nat.pow_succ', ← Nat.mul_assoc] at h
    · omega

/-- A write behind a slice, read together with it. -/
theorem slice_overwrite_end {bytes value : List UInt8} {offset length : ℕ}
    (h : offset + length + value.length ≤ bytes.length) :
    slice (overwrite bytes (offset + length) value) offset (length + value.length) =
      slice bytes offset length ++ value := by
  have hslice : ((bytes.take (offset + length)).drop offset).length = length := by
    rw [List.length_drop, List.length_take]
    omega
  rw [overwrite, List.append_assoc, slice, List.drop_append_of_le_length (by rw [List.length_take]; omega),
    List.take_append, hslice, Nat.add_sub_cancel_left, List.take_of_length_le (by omega),
    List.take_left, slice, List.drop_take, Nat.add_sub_cancel_left]

/-- Room for the pending bytes and more, with the pending bytes in it. -/
theorem makeRoom_spec (h : parser.Fits) (hremaining : 0 < parser.remaining) {newLength : ℕ}
    (hnew : parser.remaining ≤ newLength) :
    (parser.makeRoom newLength).2 + newLength ≤ (parser.makeRoom newLength).1.length ∧
      slice (parser.makeRoom newLength).1 (parser.makeRoom newLength).2 parser.remaining =
        parser.pending := by
  rw [Fits] at h
  have hpending : (slice parser.buffer parser.offset parser.remaining).length = parser.remaining :=
    length_slice h
  rw [makeRoom]
  split_ifs with hfull hplace
  · have hroom : newLength ≤ (overwrite parser.buffer 0
        (slice parser.buffer parser.offset parser.remaining)).length := by
      rw [length_overwrite (by omega)]
      exact hplace.1
    have hself : slice (overwrite parser.buffer 0 (slice parser.buffer parser.offset parser.remaining)) 0
        (slice parser.buffer parser.offset parser.remaining).length = parser.pending :=
      slice_overwrite_self (by omega)
    rw [hpending] at hself
    exact ⟨by rwa [Nat.zero_add], hself⟩
  · have hdoubled : newLength < doubled newLength newLength (parser.buffer.length * 2) := by
      refine lt_doubled ?_
      have hpow : newLength < 2 ^ newLength := Nat.lt_two_pow_self
      nlinarith
    generalize doubled newLength newLength (parser.buffer.length * 2) = size at hdoubled
    have hlength := length_zeros size
    have hsize : parser.remaining ≤ size := hnew.trans hdoubled.le
    have hroom : newLength ≤ (overwrite (zeros size) 0
        (slice parser.buffer parser.offset parser.remaining)).length := by
      rw [length_overwrite (by omega)]
      omega
    have hself : slice (overwrite (zeros size) 0 (slice parser.buffer parser.offset parser.remaining)) 0
        (slice parser.buffer parser.offset parser.remaining).length = parser.pending :=
      slice_overwrite_self (by omega)
    rw [hpending] at hself
    exact ⟨by rwa [Nat.zero_add], hself⟩
  · refine ⟨?_, rfl⟩
    show parser.offset + newLength ≤ parser.buffer.length
    omega

theorem mergeBuffer_spec (h : parser.Fits) (chunk : List UInt8) :
    (parser.mergeBuffer chunk).Fits ∧ (parser.mergeBuffer chunk).pending = parser.pending ++ chunk := by
  by_cases hremaining : 0 < parser.remaining
  · have hmerged : parser.mergeBuffer chunk =
        ⟨overwrite (parser.makeRoom (parser.remaining + chunk.length)).1
          ((parser.makeRoom (parser.remaining + chunk.length)).2 + parser.remaining) chunk,
          parser.remaining + chunk.length, (parser.makeRoom (parser.remaining + chunk.length)).2⟩ := by
      rw [mergeBuffer, if_pos hremaining]
    obtain ⟨hroom, hslice⟩ := makeRoom_spec h hremaining (Nat.le_add_right _ chunk.length)
    rw [hmerged]
    refine ⟨?_, ?_⟩
    · show _ + (parser.remaining + chunk.length) ≤ (overwrite _ _ chunk).length
      rw [length_overwrite (by omega)]
      exact hroom
    · show slice (overwrite _ _ chunk) _ (parser.remaining + chunk.length) = _
      rw [slice_overwrite_end (by omega), hslice]
  · have hzero : parser.remaining = 0 := by omega
    rw [mergeBuffer, if_neg hremaining]
    refine ⟨(Nat.zero_add _).le, ?_⟩
    show slice chunk 0 chunk.length = slice parser.buffer parser.offset parser.remaining ++ chunk
    rw [slice_all, hzero, slice, List.take_zero, List.nil_append]

end Parser

/-! ### Whole messages off the front -/

namespace Message

variable (message : Message)

def head : List UInt8 := message.packet.code :: beBytes 4 message.packet.length

theorem encode_eq : message.encode = message.head ++ message.packet.body := rfl

theorem length_head : message.head.length = 5 := by
  rw [head, List.length_cons, length_beBytes]

theorem length_encode : message.encode.length = 1 + message.packet.length := by
  rw [encode_eq, List.length_append, length_head, Packet.length]
  omega

theorem reads_header : Reads header message.head (message.packet.code, message.packet.length) := by
  have hlength : message.packet.length < 256 ^ 4 := message.fits.trans (by norm_num)
  exact (reads_byte ParseError.rangeError message.packet.code).bind
    ((reads_unsigned ParseError.rangeError hlength).map _)

end Message

/-- Two readings of one byte string: a prefix that is no longer than the other one's is a prefix of it. -/
theorem append_eq_of_le {bytes future first rest : List UInt8} (h : bytes ++ future = first ++ rest)
    (hle : first.length ≤ bytes.length) : ∃ tail, bytes = first ++ tail ∧ tail ++ future = rest := by
  obtain ⟨tail, htail, hrest⟩ | ⟨tail, htail, hrest⟩ := List.append_eq_append_iff.mp h
  · have hnil : tail = [] := by
      rw [htail, List.length_append] at hle
      exact List.eq_nil_of_length_eq_zero (by omega)
    subst hnil
    exact ⟨[], by rw [htail, List.append_nil, List.append_nil], by rw [List.nil_append, hrest, List.nil_append]⟩
  · exact ⟨tail, htail, hrest.symm⟩

/-- The buffer around the bytes that wait. -/
theorem buffer_eq {buffer : List UInt8} {offset fullLength : ℕ} (h : offset ≤ fullLength) :
    buffer = buffer.take offset ++ slice buffer offset (fullLength - offset) ++ buffer.drop fullLength := by
  have hdrop := slice_append_drop buffer offset (fullLength - offset)
  rw [show offset + (fullLength - offset) = fullLength by omega] at hdrop
  rw [List.append_assoc, hdrop, List.take_append_drop]

theorem slice_tail {buffer first tail : List UInt8} {offset fullLength : ℕ}
    (h : slice buffer offset (fullLength - offset) = first ++ tail) :
    slice buffer (offset + first.length) (fullLength - (offset + first.length)) = tail := by
  have hdrop : (slice buffer offset (fullLength - offset)).drop first.length = tail := by
    rw [h, List.drop_left]
  rw [← hdrop, slice, slice, List.drop_take, List.drop_drop]
  congr 1
  omega

theorem parseLoop_spec {buffer : List UInt8} {fullLength : ℕ} (hfull : fullLength ≤ buffer.length)
    (future : List UInt8) (messages : List Message) {rounds offset : ℕ} (hoffset : offset ≤ fullLength)
    (hrounds : fullLength - offset < rounds)
    (hbytes : slice buffer offset (fullLength - offset) ++ future = messages.flatMap Message.encode) :
    ∃ done rest offset', messages = done ++ rest ∧ offset' ≤ fullLength ∧
      parseLoop buffer fullLength rounds offset =
        (done.map fun message => message.packet.seen parsed, .waits offset') ∧
      slice buffer offset' (fullLength - offset') ++ future = rest.flatMap Message.encode ∧
      (future = [] → rest = []) := by
  induction messages generalizing rounds offset with
  | nil =>
    have hnil : slice buffer offset (fullLength - offset) = [] := (List.append_eq_nil_iff.mp hbytes).1
    have hlength := congrArg List.length hnil
    rw [length_slice (by omega), List.length_nil] at hlength
    obtain ⟨rounds, rfl⟩ := Nat.exists_eq_succ_of_ne_zero (by omega : rounds ≠ 0)
    exact ⟨[], [], offset, rfl, hoffset, by rw [parseLoop, if_neg (by omega)]; rfl, hbytes, fun _ => rfl⟩
  | cons message messages ih =>
    obtain ⟨rounds, rfl⟩ := Nat.exists_eq_succ_of_ne_zero (by omega : rounds ≠ 0)
    have hlength : (slice buffer offset (fullLength - offset)).length = fullLength - offset :=
      length_slice (by omega)
    have hbefore : (buffer.take offset).length = offset := by
      rw [List.length_take]
      omega
    rw [List.flatMap_cons, message.encode_eq, List.append_assoc] at hbytes
    by_cases hhead : offset + 5 ≤ fullLength
    · -- the header is there, and says how long the message is
      obtain ⟨tail, htail, hrest⟩ := append_eq_of_le hbytes (by rw [message.length_head]; omega)
      have hbuffer : buffer = buffer.take offset ++ message.head ++ (tail ++ buffer.drop fullLength) := by
        have heq := @buffer_eq buffer offset fullLength hoffset
        rwa [htail, ← List.append_assoc, List.append_assoc (_ ++ message.head)] at heq
      have hheader := message.reads_header (buffer.take offset) (tail ++ buffer.drop fullLength)
      rw [← hbuffer, hbefore] at hheader
      by_cases hwhole : 1 + message.packet.length + offset ≤ fullLength
      · have hpacket : message.packet.length = message.packet.body.length + 4 := rfl
        have htailLength : fullLength - offset = 5 + tail.length := by
          rw [← hlength, htail, List.length_append, message.length_head]
        obtain ⟨later, hlater, hfuture⟩ := append_eq_of_le hrest (by omega)
        have hslice : slice buffer offset (fullLength - offset) = message.encode ++ later := by
          rw [htail, hlater, message.encode_eq, List.append_assoc]
        obtain ⟨position, hread⟩ := yields_handlePacket message (buffer.take offset ++ message.head)
          (later ++ buffer.drop fullLength)
        have hposition : ((buffer.take offset ++ message.head).length : ℤ) = offset + 5 := by
          rw [List.length_append, hbefore, message.length_head]
          push_cast
          rfl
        rw [hlater, List.append_assoc message.packet.body, ← List.append_assoc] at hbuffer
        rw [← hbuffer, hposition] at hread
        have hnext := slice_tail hslice
        rw [message.length_encode] at hnext
        obtain ⟨done, rest, offset', hsplit, hend, hloop, hwaits, hlast⟩ :=
          @ih rounds (offset + (1 + message.packet.length)) (by omega) (by omega)
            (by rw [hnext]; exact hfuture)
        refine ⟨message :: done, rest, offset', by rw [hsplit]; rfl, hend, ?_, hwaits, hlast⟩
        rw [parseLoop, if_pos hhead, hheader]
        dsimp only
        rw [if_pos ⟨hwhole, by omega⟩, hread]
        dsimp only
        rw [hloop]
        rfl
      · refine ⟨[], message :: messages, offset, rfl, hoffset, ?_, ?_, ?_⟩
        · rw [parseLoop, if_pos hhead, hheader]
          dsimp only
          rw [if_neg (fun h => hwhole h.1)]
          rfl
        · rw [List.flatMap_cons, message.encode_eq, List.append_assoc]
          exact hbytes
        · intro hfuture
          have hlengths := congrArg List.length hbytes
          rw [hfuture, List.append_nil, hlength, List.length_append, message.length_head,
            List.length_append] at hlengths
          have hpacket : message.packet.length = message.packet.body.length + 4 := rfl
          omega
    · refine ⟨[], message :: messages, offset, rfl, hoffset, by rw [parseLoop, if_neg hhead]; rfl, ?_, ?_⟩
      · rw [List.flatMap_cons, message.encode_eq, List.append_assoc]
        exact hbytes
      · intro hfuture
        have hlengths := congrArg List.length hbytes
        rw [hfuture, List.append_nil, hlength, List.length_append, message.length_head] at hlengths
        omega

/-- One call of `parse` takes whole messages off the front, and leaves nothing behind when nothing is to
come. -/
theorem parse_spec {parser : Parser} (h : parser.Fits) {chunk future : List UInt8} {messages : List Message}
    (hbytes : parser.pending ++ (chunk ++ future) = messages.flatMap Message.encode) :
    ∃ done rest next, messages = done ++ rest ∧
      parser.parse chunk = (done.map fun message => message.packet.seen parsed, none, next) ∧
      next.Fits ∧ next.pending ++ future = rest.flatMap Message.encode ∧ (future = [] → next = .new) := by
  obtain ⟨hfits, hpending⟩ := parser.mergeBuffer_spec h chunk
  rw [Parser.parse]
  generalize parser.mergeBuffer chunk = merged at hfits hpending
  rw [← List.append_assoc, ← hpending] at hbytes
  have hfull : merged.offset + merged.remaining - merged.offset = merged.remaining :=
    Nat.add_sub_cancel_left _ _
  obtain ⟨done, rest, offset, hsplit, hend, hloop, hwaits, hlast⟩ := parseLoop_spec hfits future messages
    (Nat.le_add_right _ merged.remaining) (by omega : _ < merged.offset + merged.remaining + 1)
    (by rw [hfull]; exact hbytes)
  rw [hloop]
  dsimp only
  by_cases hdone : offset = merged.offset + merged.remaining
  · rw [if_pos hdone]
    rw [hdone, Nat.sub_self] at hwaits
    exact ⟨done, rest, .new, hsplit, rfl, Parser.fits_new, hwaits, fun _ => rfl⟩
  · rw [if_neg hdone]
    refine ⟨done, rest, _, hsplit, rfl, ?_, hwaits, fun hfuture => absurd ?_ hdone⟩
    · rw [Parser.Fits] at hfits ⊢
      show offset + (merged.offset + merged.remaining - offset) ≤ merged.buffer.length
      omega
    · rw [hlast hfuture, hfuture, List.append_nil] at hwaits
      have hlength := congrArg List.length hwaits
      rw [Parser.Fits] at hfits
      rw [length_slice (by omega), List.flatMap_nil, List.length_nil] at hlength
      omega

/-- Every message, once and in order, whatever the chunks. -/
theorem parseAll_spec {parser : Parser} (h : parser.Fits) {chunks : List BufferView}
    (hlast : chunks = [] → parser = .new) {messages : List Message}
    (hbytes : parser.pending ++ chunks.flatMap BufferView.bytes = messages.flatMap Message.encode) :
    parser.parseAll chunks = (messages.map fun message => message.packet.seen parsed, [], .new) := by
  induction chunks generalizing parser messages with
  | nil =>
    rw [hlast rfl] at hbytes ⊢
    cases messages with
    | nil => rfl
    | cons message messages =>
      have hlength : 0 = (message.encode ++ messages.flatMap Message.encode).length :=
        congrArg List.length hbytes
      rw [List.length_append, message.length_encode] at hlength
      omega
  | cons chunk chunks ih =>
    rw [List.flatMap_cons] at hbytes
    obtain ⟨done, rest, next, hsplit, hparse, hfits, hwaits, hnew⟩ := parse_spec h hbytes
    have hrest := ih hfits (fun hnil => hnew (by rw [hnil]; rfl)) hwaits
    rw [Parser.parseAll, hparse, hsplit]
    dsimp only
    rw [hrest, List.map_append]
    rfl

end Wire
