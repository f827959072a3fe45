import Mathlib.Data.List.TakeWhile
import Nobify.Lib.LittleEndian

/-!
# Requests with arguments

The packets of the test daemon: a header of fixed size and a payload, each packet one message of a
sequenced socket. The payload of a run or watch request is the number of arguments and then the
arguments, each up to and with its terminating NUL.

The decoder computes with the machine words of the source. Its reads of the payload are checked
here: a read behind the last byte has no result, and the caller's outputs are left as they are.
Words are written as on a little-endian machine.
-/

namespace Nobify.Daemon

open Lib (wordBytes wordValue)
open List Option
open Option (bind_eq_bind bind_some getD_some)

variable {payloadLen : UInt32} {offset : UInt64}

/-! ## Strings -/

/-- A C string: the bytes before its terminating NUL. -/
structure CString where
  bytes : List UInt8
  nulFree : 0 ∉ bytes

namespace CString

/-- The memory that holds the string. -/
def terminated (text : CString) : List UInt8 := text.bytes ++ [0]

/-- The string that starts at a place in memory. -/
def ofMemory (memory : List UInt8) : CString where
  bytes := memory.takeWhile (· ≠ 0)
  nulFree listed := by
    have other := mem_takeWhile_imp listed
    exact of_decide_eq_true other rfl

theorem bytes_ofMemory_zero (rest : List UInt8) : (ofMemory (0 :: rest)).bytes = [] := by
  simp [ofMemory]

theorem bytes_ofMemory_cons {byte : UInt8} (other : byte ≠ 0) (rest : List UInt8) :
    (ofMemory (byte :: rest)).bytes = byte :: (ofMemory rest).bytes := by
  simp [ofMemory, other]

/-- Memory with a NUL starts with a terminated string. -/
theorem terminated_ofMemory {memory : List UInt8} (closed : 0 ∈ memory) :
    ∃ rest, memory = (ofMemory memory).terminated ++ rest := by
  induction memory with
  | nil => simp at closed
  | cons byte rest ih =>
    by_cases stops : byte = 0
    · subst stops
      exact ⟨rest, by rw [terminated, bytes_ofMemory_zero]; rfl⟩
    · have later : 0 ∈ rest := by
        rcases mem_cons.mp closed with here | later
        · exact absurd here.symm stops
        · exact later
      obtain ⟨after, whole⟩ := ih later
      refine ⟨after, ?_⟩
      rw [terminated, bytes_ofMemory_cons stops, cons_append, cons_append]
      exact congrArg (byte :: ·) whole

/-- Without a NUL everything is read. -/
theorem bytes_ofMemory {memory : List UInt8} (unclosed : 0 ∉ memory) :
    (ofMemory memory).bytes = memory := by
  apply takeWhile_eq_self_iff.mpr
  intro byte listed
  exact decide_eq_true fun same => unclosed (same ▸ listed)

/-- A terminated string is read back, whatever follows it. -/
theorem ofMemory_terminated (text : CString) (rest : List UInt8) :
    ofMemory (text.terminated ++ rest) = text := by
  have before : ∀ byte ∈ text.bytes, decide (byte ≠ 0) = true := by
    intro byte listed
    exact decide_eq_true fun same => text.nulFree (same ▸ listed)
  have bytesRead : (text.terminated ++ rest).takeWhile (· ≠ 0) = text.bytes := by
    rw [terminated, append_assoc, takeWhile_append_of_pos before]
    simp
  cases text
  simp only [ofMemory, CString.mk.injEq]
  exact bytesRead

end CString

/-! ## Packets -/

/-- `Test_Daemon_Message_Type`, from one on. -/
inductive MessageType where
  | hello
  | runRequest
  | watchRequest
  | controlRequest
  | ack
  | stdout
  | stderr
  | info
  | result
  | error

/-- The value of an enumerator. -/
def MessageType.code : MessageType → UInt16
  | .hello => 1
  | .runRequest => 2
  | .watchRequest => 3
  | .controlRequest => 4
  | .ack => 5
  | .stdout => 6
  | .stderr => 7
  | .info => 8
  | .result => 9
  | .error => 10

/-- `TEST_DAEMON_PROTOCOL_MAGIC`. -/
def protocolMagic : UInt32 := 0x3144544e

/-- `TEST_DAEMON_PROTOCOL_VERSION`. -/
def protocolVersion : UInt16 := 1

/-- `TEST_DAEMON_MAX_PACKET_SIZE`. -/
def maxPacketSize : Nat := 65536

/-- `Test_Daemon_Message_Header`. -/
structure MessageHeader where
  magic : UInt32
  version : UInt16
  type : UInt16
  requestId : UInt64
  payloadLen : UInt32
  reserved : UInt32 := 0

/-- The size of a header. -/
def headerSize : Nat := 24

/-- The bytes of a header. -/
def MessageHeader.toBytes (header : MessageHeader) : List UInt8 :=
  wordBytes 4 header.magic.toNat ++ wordBytes 2 header.version.toNat ++
    wordBytes 2 header.type.toNat ++ wordBytes 8 header.requestId.toNat ++
    wordBytes 4 header.payloadLen.toNat ++ wordBytes 4 header.reserved.toNat

/-- The header that the first bytes of a packet are. -/
def MessageHeader.ofBytes (bytes : List UInt8) : MessageHeader where
  magic := UInt32.ofNat (wordValue (bytes.take 4))
  version := UInt16.ofNat (wordValue ((bytes.drop 4).take 2))
  type := UInt16.ofNat (wordValue ((bytes.drop 6).take 2))
  requestId := UInt64.ofNat (wordValue ((bytes.drop 8).take 8))
  payloadLen := UInt32.ofNat (wordValue ((bytes.drop 16).take 4))
  reserved := UInt32.ofNat (wordValue ((bytes.drop 20).take 4))

theorem MessageHeader.length_toBytes (header : MessageHeader) :
    header.toBytes.length = headerSize := by
  simp [MessageHeader.toBytes, headerSize]

theorem MessageHeader.ofBytes_toBytes (header : MessageHeader) (rest : List UInt8) :
    MessageHeader.ofBytes (header.toBytes ++ rest) = header := by
  simp only [MessageHeader.ofBytes, MessageHeader.toBytes]
  simp [drop_append, Lib.drop_wordBytes, Lib.wordValue_wordBytes]

/-- `Test_Daemon_Message`; what was received has the length that its header gives. -/
structure ReceivedMessage where
  header : MessageHeader
  payload : List UInt8
  sized : payload.length = header.payloadLen.toNat

/-- `test_daemon_send_message`: the packet that is sent. -/
def sendMessage (type : MessageType) (requestId : UInt64) (payload : List UInt8)
    (payloadLen : UInt32) : Option (List UInt8) :=
  if maxPacketSize - headerSize < payloadLen.toNat then none
  else
    let header : MessageHeader :=
      { magic := protocolMagic, version := protocolVersion, type := type.code, requestId,
        payloadLen }
    some (header.toBytes ++ payload.take payloadLen.toNat)

/-- `test_daemon_recv_message`. A packet is cut to the size of the buffer. -/
def recvMessage (packet : List UInt8) : Option ReceivedMessage :=
  let buffer := packet.take maxPacketSize
  if buffer.length < headerSize then none
  else
    let header := MessageHeader.ofBytes buffer
    if header.magic ≠ protocolMagic ∨ header.version ≠ protocolVersion then none
    else if sized : buffer.length = headerSize + header.payloadLen.toNat then
      some ⟨header, buffer.drop headerSize, by rw [length_drop, sized]; omega⟩
    else none

/-- A packet that is sent is received as the message it was made of. -/
theorem recvMessage_of_sendMessage (type : MessageType) (requestId : UInt64)
    {payload : List UInt8} (fits : payload.length ≤ maxPacketSize - headerSize) :
    ∃ packet message, sendMessage type requestId payload (UInt32.ofNat payload.length) =
        some packet ∧ recvMessage packet = some message ∧
      message.header.type = type.code ∧ message.header.requestId = requestId ∧
      message.payload = payload := by
  have small : payload.length < 2 ^ 32 := by
    unfold maxPacketSize headerSize at fits
    omega
  have length : (UInt32.ofNat payload.length).toNat = payload.length := by
    rw [UInt32.toNat_ofNat']
    exact Nat.mod_eq_of_lt small
  let header : MessageHeader :=
    { magic := protocolMagic, version := protocolVersion, type := type.code, requestId,
      payloadLen := UInt32.ofNat payload.length }
  have headerLength : header.toBytes.length = headerSize := header.length_toBytes
  have sent : sendMessage type requestId payload (UInt32.ofNat payload.length) =
      some (header.toBytes ++ payload) := by
    rw [sendMessage, if_neg (by omega), length, take_length]
  have buffer : (header.toBytes ++ payload).take maxPacketSize = header.toBytes ++ payload := by
    apply take_of_length_le
    rw [length_append, headerLength]
    unfold maxPacketSize headerSize at *
    omega
  have read : MessageHeader.ofBytes (header.toBytes ++ payload) = header :=
    MessageHeader.ofBytes_toBytes header payload
  have sized : (header.toBytes ++ payload).length = headerSize + header.payloadLen.toNat := by
    rw [length_append, headerLength, length]
  refine ⟨_, ⟨header, payload, length.symm⟩, sent, ?_, rfl, rfl, rfl⟩
  have rest : (header.toBytes ++ payload).drop headerSize = payload :=
    drop_left' headerLength
  unfold recvMessage
  simp only [buffer, read, rest]
  have genuine : ¬ (header.magic ≠ protocolMagic ∨ header.version ≠ protocolVersion) := by
    simp [header]
  rw [if_neg (by omega), if_neg genuine, dif_pos sized]

/-! ## Requests -/

/-- The payload of a request: the number of arguments and the arguments. -/
def argvPayload (argv : List CString) : List UInt8 :=
  wordBytes 4 argv.length ++ argv.flatMap CString.terminated

/-- `test_daemon_send_argv_request`: the packet that is sent. -/
def sendArgvRequest (type : MessageType) (requestId : UInt64) (argv : List CString) :
    Option (List UInt8) :=
  let payloadLen := 4 + (argv.map fun arg => arg.bytes.length + 1).sum
  if maxPacketSize - headerSize < payloadLen then none
  else sendMessage type requestId (argvPayload argv) (UInt32.ofNat payloadLen)

/-- What the caller of the decoder passes to be written. -/
structure ArgvOutputs where
  argc : Int32
  argv : Option (List CString)

section Decoder

variable (payload : List UInt8)

/-- A read of `count` bytes at `offset`. -/
def readBytes (offset count : Nat) : Option (List UInt8) :=
  if offset + count ≤ payload.length then some ((payload.drop offset).take count) else none

/-- The loop that looks for the end of an argument, with the bytes that are left to look at. -/
def entryLength (offset : Nat) : Nat → Nat → Option Nat
  | 0, len => some len
  | left + 1, len => do
    let byte ← payload[offset + len]?
    if byte = 0 then some len else entryLength offset left (len + 1)

/-- The loop over the arguments, with the number of those that are left to read. The result is
`none` where the source reads outside of the payload, and `some none` where it gives up. -/
def decodeEntries (payloadLen : UInt32) :
    Nat → UInt64 → List CString → Option (Option (List CString))
  | 0, _, argv => some (some argv)
  | left + 1, offset, argv =>
    let remaining := payloadLen.toUInt64 - offset
    if payloadLen.toUInt64 ≤ offset then some none
    else do
      let len ← entryLength payload offset.toNat remaining.toNat 0
      if len = remaining.toNat then some none
      else
        let copy ← readBytes payload offset.toNat (len + 1)
        decodeEntries payloadLen left (offset + UInt64.ofNat (len + 1))
          (argv ++ [CString.ofMemory copy])

end Decoder

section Decoder

variable {payload : List UInt8}

/-- The search stops at the first NUL, or where there is nothing left. It never looks further. -/
theorem entryLength_eq (offset left len : Nat) (inside : offset + len + left = payload.length) :
    entryLength payload offset left len =
      some (len + (CString.ofMemory (payload.drop (offset + len))).bytes.length) := by
  induction left generalizing len with
  | zero =>
    have nothing : payload.drop (offset + len) = [] := drop_eq_nil_of_le (by omega)
    rw [entryLength, nothing]
    rfl
  | succ left ih =>
    have within : offset + len < payload.length := by omega
    have here : payload[offset + len]? = some payload[offset + len] :=
      List.getElem?_eq_getElem within
    have memory : payload.drop (offset + len) =
        payload[offset + len] :: payload.drop (offset + len + 1) :=
      drop_eq_getElem_cons within
    rw [entryLength, here]
    by_cases stops : payload[offset + len] = 0
    · rw [memory, stops, CString.bytes_ofMemory_zero]
      rfl
    · have later := ih (len + 1) (by omega)
      rw [memory, CString.bytes_ofMemory_cons stops, length_cons]
      have shifted : offset + (len + 1) = offset + len + 1 := by omega
      rw [shifted] at later
      simp only [bind_eq_bind, bind_some, if_neg stops, later, some.injEq]
      omega

variable (sized : payload.length = payloadLen.toNat)

include sized

/-- What is left to look at is the memory up to the end of the payload. -/
theorem remaining_eq (before : ¬ payloadLen.toUInt64 ≤ offset) :
    (payloadLen.toUInt64 - offset).toNat = payload.length - offset.toNat ∧
      offset.toNat < payload.length := by
  have wide : payloadLen.toUInt64.toNat = payloadLen.toNat := by simp
  have reached : ¬ payloadLen.toUInt64.toNat ≤ offset.toNat :=
    fun reached => before (UInt64.le_iff_toNat_le.mpr reached)
  have inside : offset ≤ payloadLen.toUInt64 := by
    apply UInt64.le_iff_toNat_le.mpr
    omega
  rw [UInt64.toNat_sub_of_le _ _ inside]
  omega

/-- A round without a terminator ahead gives up, at the end of the payload or before it. -/
theorem decodeEntries_unclosed (unclosed : 0 ∉ payload.drop offset.toNat) (left : Nat)
    (argv : List CString) :
    decodeEntries payload payloadLen (left + 1) offset argv = some none := by
  rw [decodeEntries]
  by_cases atEnd : payloadLen.toUInt64 ≤ offset
  · exact if_pos atEnd
  · obtain ⟨remaining, inside⟩ := remaining_eq sized atEnd
    have length : (payload.drop offset.toNat).length = payload.length - offset.toNat :=
      length_drop
    have found := @entryLength_eq payload offset.toNat (payloadLen.toUInt64 - offset).toNat 0
      (by omega)
    rw [Nat.add_zero, Nat.zero_add, CString.bytes_ofMemory unclosed] at found
    simp only [if_neg atEnd, found, bind_eq_bind, bind_some]
    exact if_pos (by omega)

/-- A round with a terminated string ahead reads it and goes on behind it. -/
theorem decodeEntries_read {text : CString} {after : List UInt8}
    (front : payload.drop offset.toNat = text.terminated ++ after) (left : Nat)
    (argv : List CString) :
    ∃ next : UInt64, next.toNat ≤ payload.length ∧ payload.drop next.toNat = after ∧
      decodeEntries payload payloadLen (left + 1) offset argv =
        decodeEntries payload payloadLen left next (argv ++ [text]) := by
  have bound := payloadLen.toNat_lt
  have size : text.terminated.length = text.bytes.length + 1 := by simp [CString.terminated]
  have length : (payload.drop offset.toNat).length = payload.length - offset.toNat :=
    length_drop
  have room := congrArg List.length front
  rw [length_append, size, length] at room
  have before : ¬ payloadLen.toUInt64 ≤ offset := by
    intro atEnd
    have reached := UInt64.le_iff_toNat_le.mp atEnd
    have wide : payloadLen.toUInt64.toNat = payloadLen.toNat := by simp
    omega
  obtain ⟨remaining, inside⟩ := remaining_eq sized before
  have found := @entryLength_eq payload offset.toNat (payloadLen.toUInt64 - offset).toNat 0
    (by omega)
  have first : CString.ofMemory (payload.drop offset.toNat) = text := by
    rw [front, CString.ofMemory_terminated]
  rw [Nat.add_zero, Nat.zero_add, first] at found
  have copied : readBytes payload offset.toNat (text.bytes.length + 1) = some text.terminated := by
    rw [readBytes, if_pos (by omega), front, ← size, take_left]
  have read : CString.ofMemory text.terminated = text := by
    have alone := CString.ofMemory_terminated text []
    rwa [append_nil] at alone
  have moved : (offset + UInt64.ofNat (text.bytes.length + 1)).toNat =
      offset.toNat + text.terminated.length := by
    rw [UInt64.toNat_add, UInt64.toNat_ofNat', size]
    omega
  refine ⟨offset + UInt64.ofNat (text.bytes.length + 1), by omega, ?_, ?_⟩
  · rw [moved, ← drop_drop, front, drop_left]
  · rw [decodeEntries]
    simp only [if_neg before, found, bind_eq_bind, bind_some, copied, read]
    exact if_neg (by omega)

/-- The loop reads as many terminated strings as it is asked for, gives up when there are not
enough, and reads nothing outside of the payload. -/
theorem decodeEntries_spec (left : Nat) (offset : UInt64) (argv : List CString)
    (inside : offset.toNat ≤ payload.length) :
    ∃ entries, decodeEntries payload payloadLen left offset argv = some entries ∧
      ∀ found, entries = some found ↔ ∃ read rest, read.length = left ∧
        payload.drop offset.toNat = read.flatMap CString.terminated ++ rest ∧
        found = argv ++ read := by
  induction left generalizing offset argv with
  | zero =>
    refine ⟨some argv, rfl, fun found => ?_⟩
    simp [eq_comm]
  | succ left ih =>
    by_cases closed : 0 ∈ payload.drop offset.toNat
    · obtain ⟨after, front⟩ := CString.terminated_ofMemory closed
      obtain ⟨next, within, behind, step⟩ := decodeEntries_read sized front left argv
      obtain ⟨entries, went, result⟩ := ih next _ within
      refine ⟨entries, step.trans went, fun found => ?_⟩
      rw [result found, behind]
      constructor
      · intro ⟨others, rest, count, whole, same⟩
        refine ⟨CString.ofMemory (payload.drop offset.toNat) :: others, rest, ?_, ?_, ?_⟩
        · rw [length_cons, count]
        · rw [flatMap_cons, append_assoc, ← whole]
          exact front
        · rw [same, append_assoc]
          rfl
      · intro ⟨read, rest, count, whole, same⟩
        cases read with
        | nil => simp at count
        | cons one others =>
          rw [flatMap_cons, append_assoc] at whole
          have here : one = CString.ofMemory (payload.drop offset.toNat) := by
            rw [whole, CString.ofMemory_terminated]
          rw [here] at whole same
          refine ⟨others, rest, by simpa using count, ?_, ?_⟩
          · exact append_cancel_left (front.symm.trans whole)
          · rw [same, append_assoc]
            rfl
    · refine ⟨none, decodeEntries_unclosed sized closed left argv, fun found => ?_⟩
      constructor
      · intro same
        cases same
      · intro ⟨read, rest, count, whole, _⟩
        cases read with
        | nil => simp at count
        | cons one others =>
          rw [whole] at closed
          simp [CString.terminated] at closed

end Decoder

/-- `test_daemon_decode_argv_request`: whether it succeeds, and what it writes. -/
def decodeArgvRequest (message : ReceivedMessage) (expectedType : MessageType) (_ : ArgvOutputs) :
    Option (Bool × ArgvOutputs) :=
  let out : ArgvOutputs := ⟨0, none⟩
  if message.header.type ≠ expectedType.code ∨ message.header.payloadLen < 4 then
    some (false, out)
  else do
    let word ← readBytes message.payload 0 4
    let argc := UInt32.ofNat (wordValue word)
    let entries ← decodeEntries message.payload message.header.payloadLen argc.toNat 4 []
    match entries with
    | none => some (false, out)
    | some argv => some (true, ⟨argc.toInt32, some argv⟩)

/-! ## What is decoded -/

theorem length_argvPayload (argv : List CString) :
    (argvPayload argv).length = 4 + (argv.map fun arg => arg.bytes.length + 1).sum := by
  simp [argvPayload, CString.terminated, length_flatMap]

/-- A string needs at least its terminator. -/
theorem length_le_length_argvPayload (argv : List CString) :
    4 + argv.length ≤ (argvPayload argv).length := by
  rw [length_argvPayload]
  induction argv with
  | nil => simp
  | cons arg rest ih =>
    simp only [map_cons, sum_cons, length_cons]
    omega

/-- A payload is the one of these arguments, with anything behind it, when its first word counts
them and they stand behind that word. -/
theorem argvPayload_append {payload rest : List UInt8} {argv : List CString}
    (small : payload.length < 2 ^ 32) (long : 4 ≤ payload.length) :
    payload = argvPayload argv ++ rest ↔ argv.length = wordValue (payload.take 4) ∧
        payload.drop 4 = argv.flatMap CString.terminated ++ rest := by
  constructor
  · intro whole
    have size := congrArg List.length whole
    have least := length_le_length_argvPayload argv
    rw [length_append] at size
    have fits : argv.length < 256 ^ 4 := by omega
    have word : (wordBytes 4 argv.length).length = 4 := Lib.length_wordBytes 4 argv.length
    rw [whole, argvPayload, append_assoc, take_left' word, drop_left' word,
      Lib.wordValue_wordBytes_of_lt fits]
    exact ⟨rfl, rfl⟩
  · intro ⟨count, behind⟩
    have word : (payload.take 4).length = 4 := length_take_of_le long
    have bytes := Lib.wordBytes_wordValue (payload.take 4)
    rw [word] at bytes
    rw [argvPayload, count, bytes, append_assoc, ← behind, take_append_drop]

/-- The decoder reads only the payload. It gives the arguments of a message of the type that it is
asked for whose payload is a count and at least that many terminated strings, and otherwise fails
and leaves none. -/
theorem decodeArgvRequest_spec (message : ReceivedMessage) (expectedType : MessageType)
    (out : ArgvOutputs) :
    ∃ entries : Option (List CString), decodeArgvRequest message expectedType out =
        some (entries.isSome, ⟨Int32.ofNat (entries.getD []).length, entries⟩) ∧
      ∀ argv, entries = some argv ↔ message.header.type = expectedType.code ∧
        ∃ rest, message.payload = argvPayload argv ++ rest := by
  have four : (4 : UInt32).toNat = 4 := rfl
  have small := message.header.payloadLen.toNat_lt
  rw [← message.sized] at small
  by_cases refused : message.header.type ≠ expectedType.code ∨ message.header.payloadLen < 4
  · refine ⟨none, by rw [decodeArgvRequest, if_pos refused]; rfl, fun argv => ?_⟩
    constructor
    · intro same
      cases same
    · intro ⟨type, rest, whole⟩
      have size := congrArg List.length whole
      have least := length_le_length_argvPayload argv
      rw [length_append, message.sized] at size
      rcases refused with other | short
      · exact absurd type other
      · have := UInt32.lt_iff_toNat_lt.mp short
        omega
  · have type : message.header.type = expectedType.code :=
      Classical.not_not.mp fun other => refused (.inl other)
    have long : 4 ≤ message.payload.length := by
      have least : ¬ message.header.payloadLen.toNat < 4 := fun short =>
        refused (.inr (UInt32.lt_iff_toNat_lt.mpr short))
      rw [message.sized]
      omega
    have word : readBytes message.payload 0 4 = some (message.payload.take 4) := by
      rw [readBytes, if_pos (by omega), drop_zero]
    have bound := Lib.wordValue_lt (message.payload.take 4)
    rw [length_take_of_le long] at bound
    generalize count : wordValue (message.payload.take 4) = argc at bound
    have argcValue : (UInt32.ofNat argc).toNat = argc := by
      rw [UInt32.toNat_ofNat']
      omega
    obtain ⟨entries, went, result⟩ := decodeEntries_spec message.sized argc 4 [] long
    have found (argv : List CString) : entries = some argv ↔
        ∃ rest, message.payload = argvPayload argv ++ rest := by
      rw [result argv]
      constructor
      · intro ⟨read, rest, length, behind, same⟩
        rw [nil_append] at same
        subst same
        exact ⟨rest, (argvPayload_append small long).mpr ⟨length.trans count.symm, behind⟩⟩
      · intro ⟨rest, whole⟩
        obtain ⟨length, behind⟩ := (argvPayload_append small long).mp whole
        exact ⟨argv, rest, length.trans count, behind, rfl⟩
    refine ⟨entries, ?_, fun argv => (found argv).trans ⟨fun some => ⟨type, some⟩, And.right⟩⟩
    rw [decodeArgvRequest, if_neg refused]
    simp only [word, bind_eq_bind, bind_some, count, argcValue, went]
    cases entries with
    | none => rfl
    | some argv =>
      obtain ⟨read, rest, length, behind, same⟩ := (result argv).mp rfl
      rw [nil_append] at same
      subst same
      rw [getD_some, length]
      rfl

/-- Arguments that fit in a packet are decoded as they were sent. The decoder reads only the
payload of any message that was received; it succeeds exactly on a message of the type that it is
asked for whose payload is a count and at least that many terminated strings, and where it fails
it leaves no arguments. -/
theorem argvRequest_exact :
    (∀ (type : MessageType) (requestId : UInt64) (argv : List CString) (out : ArgvOutputs),
      (argvPayload argv).length ≤ maxPacketSize - headerSize →
      ∃ packet message argc, sendArgvRequest type requestId argv = some packet ∧
        recvMessage packet = some message ∧
        decodeArgvRequest message type out = some (true, ⟨argc, some argv⟩) ∧
        argc.toInt = argv.length) ∧
    ∀ (message : ReceivedMessage) (expectedType : MessageType) (out : ArgvOutputs),
      ∃ ok after, decodeArgvRequest message expectedType out = some (ok, after) ∧
        (ok = true ↔ message.header.type = expectedType.code ∧
          ∃ argv rest, message.payload = argvPayload argv ++ rest) ∧
        (ok = false → after = ⟨0, none⟩) := by
  constructor
  · intro type requestId argv out fits
    obtain ⟨packet, message, sent, received, sameType, _, payload⟩ :=
      recvMessage_of_sendMessage type requestId fits
    obtain ⟨entries, decoded, found⟩ := decodeArgvRequest_spec message type out
    have all : entries = some argv := (found argv).mpr ⟨sameType, [], by simp [payload]⟩
    subst all
    have length := length_argvPayload argv
    have least := length_le_length_argvPayload argv
    refine ⟨packet, message, _, ?_, received, decoded, ?_⟩
    · rw [sendArgvRequest, ← length, if_neg (by omega)]
      exact sent
    · unfold maxPacketSize headerSize at fits
      rw [getD_some, Int32.toInt_ofNat_of_lt (by omega)]
  · intro message expectedType out
    obtain ⟨entries, decoded, found⟩ := decodeArgvRequest_spec message expectedType out
    refine ⟨_, _, decoded, ?_, ?_⟩
    · constructor
      · intro some
        obtain ⟨argv, listed⟩ := isSome_iff_exists.mp some
        obtain ⟨type, rest, whole⟩ := (found argv).mp listed
        exact ⟨type, argv, rest, whole⟩
      · intro ⟨type, argv, rest, whole⟩
        rw [(found argv).mpr ⟨type, rest, whole⟩]
        rfl
    · intro failed
      rw [isSome_eq_false_iff, isNone_iff_eq_none] at failed
      rw [failed]
      rfl

/-- Two arguments, one of them empty, sent and decoded. -/
theorem argvRequest_exact_pair : ∃ packet message argc,
    sendArgvRequest .runRequest 7 [⟨[97, 98], by decide⟩, ⟨[], by decide⟩] = some packet ∧
      recvMessage packet = some message ∧
      decodeArgvRequest message .runRequest ⟨1, none⟩ =
        some (true, ⟨argc, some [⟨[97, 98], by decide⟩, ⟨[], by decide⟩]⟩) ∧
      argc.toInt = 2 :=
  (argvRequest_exact).1 .runRequest 7 [⟨[97, 98], by decide⟩, ⟨[], by decide⟩] ⟨1, none⟩ (by decide)

end Nobify.Daemon
