import Mathlib.Algebra.Group.Nat.Defs
import Mathlib.Data.List.Basic

/-!
# MQTT 3.1.1 messages

`mqtt_msg.c` builds each message in one buffer, behind five bytes kept free for the fixed
header. A payload that does not fit is cut, and the offset of its data and the length of
the whole message stay in the connection for the sender. These two fields outlive the
message they belong to.
-/

namespace IndustrialIot.Edge.Mqtt

/-- What a C pointer sees: the bytes from it on, and those before it, the nearest first. -/
structure Memory where
  bytes : List UInt8
  before : List UInt8
  deriving DecidableEq, Repr

/-- The byte at an offset; memory beyond the given bytes is zero. -/
def Memory.read (m : Memory) : Int → UInt8
  | .ofNat n => m.bytes.getD n 0
  | .negSucc n => m.before.getD n 0

/-- `n` bytes from an offset on, as `memcpy` reads them. -/
def Memory.slice (m : Memory) (offset : Int) (n : Nat) : List UInt8 :=
  (List.range n).map fun k : Nat => m.read (offset + (k : Int))

/-- `strlen` -/
def Memory.strlen (m : Memory) : Nat := (m.bytes.takeWhile fun b => b != 0).length

/-- The control packet types of the messages a client sends, and of those it looks up. -/
inductive MsgType where
  | connect
  | publish
  | puback
  | pubrec
  | pubrel
  | pubcomp
  | subscribe
  | unsubscribe
  | pingreq
  deriving DecidableEq, Repr

/-- `MQTT_MSG_TYPE_*` -/
def MsgType.code : MsgType → Nat
  | .connect => 1
  | .publish => 3
  | .puback => 4
  | .pubrec => 5
  | .pubrel => 6
  | .pubcomp => 7
  | .subscribe => 8
  | .unsubscribe => 10
  | .pingreq => 12

/-- `mqtt_message_t`. The length is that of `data`. -/
structure OutboundMessage where
  data : List UInt8
  fragmentedMsgTotalLength : Nat
  /-- A `size_t` of the 32-bit target. -/
  fragmentedMsgDataOffset : UInt32
  deriving DecidableEq, Repr

/-- `mqtt_connect_info_t` without a will, which the node never sets. Empty means unset. -/
structure ConnectInfo where
  clientId : List UInt8
  username : List UInt8
  password : List UInt8
  keepalive : Nat
  cleanSession : Bool
  deriving DecidableEq, Repr

/-- `mqtt_connection_t` -/
structure Connection where
  outboundMessage : OutboundMessage
  information : ConnectInfo
  deriving DecidableEq, Repr

/-- `MQTT_MAX_FIXED_HEADER_SIZE` -/
def maxFixedHeaderSize : Nat := 5

/-- The `buffer_length` of a connection, which the node leaves at its default. -/
def bufferLength : Nat := 1024

/-- `append_string`, on what the buffer holds behind the fixed header. -/
def appendString (body string : List UInt8) : Option (List UInt8) :=
  let len := string.length
  if bufferLength < maxFixedHeaderSize + body.length + len + 2 then none
  else some (body ++ [UInt8.ofNat (len / 256), UInt8.ofNat len] ++ string)

/-- `append_message_id`. `random` is the first draw that is not zero. -/
def appendMessageId (body : List UInt8) (messageId random : UInt16) :
    Option (List UInt8 × UInt16) :=
  let messageId := if messageId = 0 then random else messageId
  if bufferLength < maxFixedHeaderSize + body.length + 2 then none
  else some (body ++ [UInt8.ofNat (messageId.toNat / 256), UInt8.ofNat messageId.toNat], messageId)

/-- `fail_message` -/
def failMessage (connection : Connection) : Connection :=
  { connection with outboundMessage := { connection.outboundMessage with data := [] } }

/-- The length loop of `fini_message`. It is given five rounds: after five the message fails. -/
def encodedLens : Nat → Nat → List UInt8
  | 0, _ => []
  | rounds + 1, totalLength =>
    if 0 < totalLength / 128 then
      UInt8.ofNat (totalLength % 128 ||| 0x80) :: encodedLens rounds (totalLength / 128)
    else [UInt8.ofNat (totalLength % 128)]

/-- The first byte of a message. -/
def typeByte (type dup qos retain : Nat) : UInt8 :=
  UInt8.ofNat (((type &&& 0x0f) <<< 4) ||| ((dup &&& 1) <<< 3) ||| ((qos &&& 3) <<< 1) |||
    (retain &&& 1))

/-- The `total_length` of `fini_message`. -/
def totalLength (message : OutboundMessage) (body : List UInt8) : Nat :=
  if message.fragmentedMsgTotalLength ≠ 0 then
    message.fragmentedMsgTotalLength - maxFixedHeaderSize
  else body.length

/-- `fini_message`. The header ends where the body begins, so the offset moves with its length. -/
def finiMessage (connection : Connection) (body : List UInt8) (type dup qos retain : Nat) :
    Connection :=
  let message := connection.outboundMessage
  let lens := encodedLens maxFixedHeaderSize (totalLength message body)
  if maxFixedHeaderSize < lens.length + 1 then failMessage connection
  else
    let offs := maxFixedHeaderSize - 1 - lens.length
    { connection with outboundMessage := { message with
      data := typeByte type dup qos retain :: lens ++ body
      fragmentedMsgDataOffset := message.fragmentedMsgDataOffset - UInt32.ofNat offs } }

/-- The flags byte of a CONNECT message. -/
def connectFlags (info : ConnectInfo) : UInt8 :=
  UInt8.ofNat ((if info.cleanSession then 1 <<< 1 else 0) |||
    (if info.username ≠ [] ∨ info.password ≠ [] then 1 <<< 7 else 0) |||
    (if info.password ≠ [] then 1 <<< 6 else 0))

/-- The variable header and the payload of a CONNECT message. -/
def connectBody (info : ConnectInfo) : Option (List UInt8) := do
  let header : List UInt8 := [0, 4, 0x4D, 0x51, 0x54, 0x54, 4, connectFlags info,
    UInt8.ofNat (info.keepalive / 256), UInt8.ofNat info.keepalive]
  if bufferLength < maxFixedHeaderSize + header.length then none
  let body ← appendString header info.clientId
  let body ← if info.username ≠ [] then appendString body info.username
    else if info.password ≠ [] then appendString body []
    else some body
  if info.password ≠ [] then appendString body info.password else some body

/-- `mqtt_msg_connect`, for protocol version 3.1.1. -/
def mqttMsgConnect (connection : Connection) : Connection :=
  match connectBody connection.information with
  | none => failMessage connection
  | some body => finiMessage connection body MsgType.connect.code 0 0 0

/-- The variable header of a PUBLISH message and the message id in it. -/
def publishHeader (topic : List UInt8) (data : Option Memory) (dataLength qos : Nat)
    (random : UInt16) : Option (List UInt8 × UInt16) :=
  if topic = [] then none
  else (appendString [] topic).bind fun body =>
    if data = none ∧ 0 < dataLength then none
    else if 0 < qos then appendMessageId body 0 random
    else some (body, 0)

/-- The body of a PUBLISH message, or as much as the buffer takes, and what the connection
notes of it. -/
def publishBody (connection : Connection) (header : List UInt8) (data : Option Memory)
    (dataLength : Nat) : Connection × List UInt8 :=
  match data with
  | none => (connection, header)
  | some memory =>
    let length := maxFixedHeaderSize + header.length
    if bufferLength < length + dataLength then
      -- Not enough room in the buffer: the message is fragmented.
      ({ connection with outboundMessage := { connection.outboundMessage with
          fragmentedMsgDataOffset := UInt32.ofNat length
          fragmentedMsgTotalLength := dataLength + length } },
        header ++ memory.slice 0 (bufferLength - length))
    else
      ({ connection with outboundMessage := { connection.outboundMessage with
          fragmentedMsgTotalLength := 0 } },
        header ++ memory.slice 0 dataLength)

/-- `mqtt_msg_publish` and the message id it stores. -/
def mqttMsgPublish (connection : Connection) (topic : List UInt8) (data : Option Memory)
    (dataLength qos retain : Nat) (random : UInt16) : Connection × UInt16 :=
  match publishHeader topic data dataLength qos random with
  | none => (failMessage connection, 0)
  | some (header, messageId) =>
    let (connection, body) := publishBody connection header data dataLength
    (finiMessage connection body MsgType.publish.code 0 qos retain, messageId)

/-- The messages whose body is a message id. -/
def ackMessage (type : MsgType) (qos : Nat) (connection : Connection)
    (messageId random : UInt16) : Connection :=
  match appendMessageId [] messageId random with
  | none => failMessage connection
  | some (body, _) => finiMessage connection body type.code 0 qos 0

/-- `mqtt_msg_puback` -/
def mqttMsgPuback := ackMessage .puback 0

/-- `mqtt_msg_pubrec` -/
def mqttMsgPubrec := ackMessage .pubrec 0

/-- `mqtt_msg_pubrel` -/
def mqttMsgPubrel := ackMessage .pubrel 1

/-- `mqtt_msg_pubcomp` -/
def mqttMsgPubcomp := ackMessage .pubcomp 0

/-- `mqtt_msg_pingreq` -/
def mqttMsgPingreq (connection : Connection) : Connection :=
  finiMessage connection [] MsgType.pingreq.code 0 0 0

/-- `mqtt_get_type` -/
def mqttGetType (buffer : List UInt8) : Nat := ((buffer.headD 0) &&& 0xf0).toNat >>> 4

/-- `mqtt_set_dup` -/
def mqttSetDup : List UInt8 → List UInt8
  | [] => []
  | first :: rest => (first ||| 0x08) :: rest

/-! ## Which messages can be built -/

@[simp] theorem Memory.length_slice (m : Memory) (offset : Int) (n : Nat) :
    (m.slice offset n).length = n := by
  simp [Memory.slice]

/-- A copy is the copy of a first part and of the rest. -/
theorem Memory.slice_add (m : Memory) (offset : Int) (a b : Nat) :
    m.slice offset (a + b) = m.slice offset a ++ m.slice (offset + a) b := by
  unfold Memory.slice
  rw [List.range_add, List.map_append, List.map_map]
  congr 1
  apply List.map_congr_left
  intro k _
  rw [Function.comp_apply, Int.natCast_add, Int.add_assoc]

private theorem length_encodedLens_pos (rounds n : Nat) :
    0 < (encodedLens (rounds + 1) n).length := by
  unfold encodedLens
  split <;> simp

/-- A number takes at most as many bytes as it has base-128 digits. -/
theorem length_encodedLens_le {rounds n : Nat} :
    (encodedLens (rounds + 2) n).length ≤ rounds + 1 ↔ n < 128 ^ (rounds + 1) := by
  induction rounds generalizing n with
  | zero =>
    have hpos : 0 < (encodedLens 1 (n / 128)).length := length_encodedLens_pos 0 (n / 128)
    rw [encodedLens, Nat.zero_add, Nat.pow_one]
    split
    · rw [List.length_cons]
      constructor <;> intro <;> omega
    · rw [List.length_singleton]
      constructor <;> intro <;> omega
  | succ rounds ih =>
    rw [encodedLens]
    split
    · rw [List.length_cons, Nat.add_le_add_iff_right, ih, Nat.div_lt_iff_lt_mul (by decide),
        ← Nat.pow_succ]
    · rename_i hsmall
      have hpow : 128 ≤ 128 ^ (rounds + 1 + 1) := Nat.le_self_pow (by omega) 128
      rw [List.length_singleton]
      omega

/-- A message is built exactly when its remaining length fits. -/
theorem finiMessage_data_eq_nil {connection : Connection} {body : List UInt8}
    {type dup qos retain : Nat} :
    (finiMessage connection body type dup qos retain).outboundMessage.data = [] ↔
      128 ^ 4 ≤ totalLength connection.outboundMessage body := by
  have hlens : (encodedLens 5 (totalLength connection.outboundMessage body)).length ≤ 4 ↔
      totalLength connection.outboundMessage body < 128 ^ 4 := length_encodedLens_le
  unfold finiMessage failMessage maxFixedHeaderSize
  simp only
  split
  · simp only [true_iff]
    omega
  · simp only [List.cons_append, reduceCtorEq, false_iff]
    omega

/-- The first byte of a built message gives its type back. -/
theorem mqttGetType_finiMessage {connection : Connection} {body : List UInt8}
    {type dup qos retain : Nat}
    (h : (finiMessage connection body type dup qos retain).outboundMessage.data ≠ []) :
    mqttGetType (finiMessage connection body type dup qos retain).outboundMessage.data =
      ((typeByte type dup qos retain) &&& 0xf0).toNat >>> 4 := by
  unfold finiMessage failMessage at h ⊢
  simp only at h ⊢
  split at h
  · exact absurd rfl h
  · rename_i hlens
    rw [if_neg hlens]
    rfl

/-- The remaining length that the header of a QoS 1 PUBLISH states. -/
def publishLength (connection : Connection) (topic : List UInt8) (data : Option Memory)
    (dataLength : Nat) : Nat :=
  let total := connection.outboundMessage.fragmentedMsgTotalLength
  if data = none ∧ total ≠ 0 then total - maxFixedHeaderSize else topic.length + 4 + dataLength

/-- The topic fits the buffer, there is data where it has a length, and the remaining length
fits its four bytes. -/
def PublishFits (connection : Connection) (topic : List UInt8) (data : Option Memory)
    (dataLength : Nat) : Prop :=
  (topic ≠ [] ∧ topic.length + 9 ≤ bufferLength ∧ (data = none → dataLength = 0)) ∧
    publishLength connection topic data dataLength < 128 ^ 4

instance (connection : Connection) (topic : List UInt8) (data : Option Memory)
    (dataLength : Nat) : Decidable (PublishFits connection topic data dataLength) :=
  inferInstanceAs (Decidable ((_ ∧ _ ∧ (_ → _)) ∧ _))

theorem appendString_eq_some {body string result : List UInt8} :
    appendString body string = some result ↔
      body.length + string.length + 7 ≤ bufferLength ∧
        body ++ [UInt8.ofNat (string.length / 256), UInt8.ofNat string.length] ++ string =
          result := by
  unfold appendString maxFixedHeaderSize
  simp only [Option.ite_none_left_eq_some, Option.some.injEq]
  constructor <;> rintro ⟨hlen, h⟩ <;> exact ⟨by omega, h⟩

theorem appendMessageId_zero_eq_some {body result : List UInt8} {random messageId : UInt16} :
    appendMessageId body 0 random = some (result, messageId) ↔
      body.length + 7 ≤ bufferLength ∧
        body ++ [UInt8.ofNat (random.toNat / 256), UInt8.ofNat random.toNat] = result ∧
        random = messageId := by
  unfold appendMessageId maxFixedHeaderSize
  simp only [if_true, Option.ite_none_left_eq_some, Option.some.injEq, Prod.mk.injEq]
  constructor <;> rintro ⟨hlen, h⟩ <;> exact ⟨by omega, h⟩

/-- The header of a QoS 1 PUBLISH carries the drawn id. -/
theorem publishHeader_eq_some {topic : List UInt8} {data : Option Memory} {dataLength : Nat}
    {random : UInt16} {header : List UInt8} {messageId : UInt16}
    (h : publishHeader topic data dataLength 1 random = some (header, messageId)) :
    (topic ≠ [] ∧ topic.length + 9 ≤ bufferLength ∧ (data = none → dataLength = 0)) ∧
      header.length = topic.length + 4 ∧ messageId = random := by
  unfold publishHeader at h
  rw [Option.ite_none_left_eq_some] at h
  obtain ⟨htopic, h⟩ := h
  obtain ⟨body, hbody, h⟩ := Option.bind_eq_some_iff.mp h
  rw [if_pos Nat.one_pos, Option.ite_none_left_eq_some] at h
  obtain ⟨_, rfl⟩ := appendString_eq_some.mp hbody
  obtain ⟨hdata, h⟩ := h
  obtain ⟨hfit, rfl, rfl⟩ := appendMessageId_zero_eq_some.mp h
  simp only [List.nil_append, List.length_append, List.length_cons, List.length_nil] at hfit ⊢
  refine ⟨⟨htopic, by omega, fun hnone => ?_⟩, by omega, trivial⟩
  by_contra hpos
  exact hdata ⟨hnone, Nat.pos_of_ne_zero hpos⟩

theorem publishHeader_isSome {topic : List UInt8} {data : Option Memory} {dataLength : Nat}
    {random : UInt16} (htopic : topic ≠ []) (hfit : topic.length + 9 ≤ bufferLength)
    (hdata : data = none → dataLength = 0) :
    (publishHeader topic data dataLength 1 random).isSome = true := by
  have hnone : ¬ (data = none ∧ 0 < dataLength) := fun h => by
    have := hdata h.1
    omega
  have hstring := appendString_eq_some.mpr
    ⟨(by simp only [List.length_nil]; omega : [].length + topic.length + 7 ≤ bufferLength), rfl⟩
  unfold publishHeader
  rw [if_neg htopic, hstring, Option.bind_some, if_neg hnone, if_pos Nat.one_pos,
    appendMessageId_zero_eq_some.mpr ⟨by simp; omega, rfl, rfl⟩]
  rfl

/-- The stated length of a PUBLISH body. -/
theorem totalLength_publishBody (connection : Connection) (header : List UInt8)
    {topic : List UInt8} (hheader : header.length = topic.length + 4) {data : Option Memory}
    {dataLength : Nat} (hdata : data = none → dataLength = 0) :
    totalLength (publishBody connection header data dataLength).1.outboundMessage
      (publishBody connection header data dataLength).2 =
        publishLength connection topic data dataLength := by
  unfold publishBody publishLength totalLength maxFixedHeaderSize
  cases data with
  | none =>
    simp only [true_and, hheader, hdata rfl, Nat.add_zero]
  | some memory =>
    simp only [reduceCtorEq, false_and, if_false]
    split
    · rw [if_pos (by simp only; omega)]
      simp only
      omega
    · simp only [ne_eq, not_true_eq_false, if_false, List.length_append, Memory.length_slice]
      omega

/-- A QoS 1 PUBLISH is built exactly when it fits, and then carries the drawn id. -/
theorem mqttMsgPublish_cases (connection : Connection) (topic : List UInt8)
    (data : Option Memory) (dataLength : Nat) (random : UInt16) :
    (¬ PublishFits connection topic data dataLength ∧
      (mqttMsgPublish connection topic data dataLength 1 0 random).1.outboundMessage.data = []) ∨
    (PublishFits connection topic data dataLength ∧
      (mqttMsgPublish connection topic data dataLength 1 0 random).1.outboundMessage.data ≠ [] ∧
      mqttGetType
        (mqttMsgPublish connection topic data dataLength 1 0 random).1.outboundMessage.data =
          MsgType.publish.code ∧
      (mqttMsgPublish connection topic data dataLength 1 0 random).2 = random) := by
  unfold mqttMsgPublish
  cases hheader : publishHeader topic data dataLength 1 random with
  | none =>
    refine Or.inl ⟨?_, rfl⟩
    intro hfits
    have hsome : (publishHeader topic data dataLength 1 random).isSome = true :=
      publishHeader_isSome hfits.1.1 hfits.1.2.1 hfits.1.2.2
    simp [hheader] at hsome
  | some made =>
    obtain ⟨header, messageId⟩ := made
    obtain ⟨hshape, hlength, rfl⟩ := publishHeader_eq_some hheader
    have htotal := totalLength_publishBody connection header hlength hshape.2.2
    simp only
    by_cases hbig : 128 ^ 4 ≤ publishLength connection topic data dataLength
    · refine Or.inl ⟨fun hfits => absurd hfits.2 (by omega), ?_⟩
      exact finiMessage_data_eq_nil.mpr (htotal ▸ hbig)
    · have hbuilt : (finiMessage (publishBody connection header data dataLength).1
          (publishBody connection header data dataLength).2 MsgType.publish.code 0 1
          0).outboundMessage.data ≠ [] := mt finiMessage_data_eq_nil.mp (htotal ▸ hbig)
      exact Or.inr ⟨⟨hshape, by omega⟩, hbuilt, mqttGetType_finiMessage hbuilt, trivial⟩

end IndustrialIot.Edge.Mqtt
