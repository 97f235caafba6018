import IndustrialIot.Edge.Mqtt.Client
import IndustrialIot.Edge.Mqtt.Inbound

/-!
# Receiving

`mqtt_client.c` reads packets from the transport with short, non-blocking reads. What has
been read of a packet stays in the input buffer, and the next round goes on behind it. A
PUBLISH that does not fit the buffer is handed on in parts, which are read on the spot.

How many bytes a read finds is input, as is what the broker sends. A read that is asked for
more than the buffer has room for has no result, and neither has a look behind the buffer.
-/

namespace IndustrialIot.Edge.Mqtt

/-- What one read of the transport meets. -/
inductive Reading where
  | timeout
  /-- The transport fails or has been closed. -/
  | failure
  /-- So many bytes have arrived. -/
  | arrived (count : Nat)
  deriving DecidableEq, Repr

/-- `mqtt_state_t`, as far as it receives, and the bytes that nobody has read yet. -/
structure Receiver (size : Nat) where
  inBuffer : List UInt8
  length_inBuffer : inBuffer.length = size
  inBufferReadLen : Nat
  messageLength : Nat
  incoming : List UInt8
  deriving DecidableEq, Repr

section Reading

variable {size : Nat}

/-- Put bytes into the buffer. -/
def Receiver.overwrite (r : Receiver size) (offset : Nat) (bytes : List UInt8)
    (h : offset + bytes.length ≤ size) : Receiver size :=
  { r with
    inBuffer := r.inBuffer.take offset ++ bytes ++ r.inBuffer.drop (offset + bytes.length)
    length_inBuffer := by
      have hlength := r.length_inBuffer
      simp only [List.length_append, List.length_take, List.length_drop]
      omega }

/-- `esp_transport_read` into the buffer. The result is the number of bytes, 0 after a timeout
and -1 after a failure. -/
def espTransportRead (r : Receiver size) (offset len : Nat) (reading : Reading) :
    Option (Int × Receiver size) :=
  if h : size < offset + len then none
  else match reading with
    | .timeout => some (0, r)
    | .failure => some (-1, r)
    | .arrived count =>
      let bytes := r.incoming.take (min count len)
      have hroom : offset + bytes.length ≤ size := by
        have hle : bytes.length ≤ min count len := List.length_take_le _ _
        omega
      some (bytes.length,
        { r.overwrite offset bytes hroom with incoming := r.incoming.drop (min count len) })

/-- What `mqtt_message_receive` returns. -/
inductive Receipt where
  /-- -2 -/
  | failure
  /-- -1 -/
  | stalled
  /-- 0 -/
  | nothing
  /-- 1 -/
  | message
  deriving DecidableEq, Repr

/-- `esp_mqtt_handle_transport_read_error` -/
def handleTransportReadError (err : Int) (midMessage : Bool) : Receipt :=
  if err = 0 then if midMessage then .stalled else .nothing else .failure

/-- `in_buffer_read_len += read_len` -/
def Receiver.advance (r : Receiver size) (readLen : Int) : Receiver size :=
  { r with inBufferReadLen := r.inBufferReadLen + readLen.toNat }

/-- A result of `mqtt_message_receive`, and the readings it has left. -/
abbrev Reception (size : Nat) := Receipt × Receiver size × List Reading

/-- A `size_t` that is taken for an `int`. -/
def asInt (n : Nat) : Int := (UInt32.ofNat n).toInt32.toInt

theorem asInt_of_lt {n : Nat} (h : n < 2 ^ 31) : asInt n = n := by
  rw [asInt, UInt32.toInt32_ofNat', Int32.toInt_ofNat_of_lt h]

theorem asInt_neg_iff {n : Nat} (h : n < 2 ^ 32) : asInt n < 0 ↔ 2 ^ 31 ≤ n := by
  have hbmod : asInt n = (n : Int).bmod (2 ^ 32) := by
    rw [asInt, UInt32.toInt32_ofNat', Int32.toInt_ofNat']
    rfl
  constructor
  · intro hneg
    by_contra hsmall
    rw [asInt_of_lt (Nat.not_le.mp hsmall)] at hneg
    omega
  · intro hbig
    rw [hbmod, Int.bmod_neg _ _ (by omega)]
    omega

/-- The end of `mqtt_message_receive`: the rest of the message. Here the `int` `total_len` is
compared and subtracted as a `size_t`, so that a negative one is a large number. -/
def readRest (r : Receiver size) (totalLen : Nat) (readings : List Reading) :
    Option (Reception size) :=
  if r.inBufferReadLen < totalLen then
    (espTransportRead r r.inBufferReadLen (totalLen - r.inBufferReadLen)
      (readings.headD .timeout)).map fun (readLen, r) =>
        if readLen ≤ 0 then (handleTransportReadError readLen true, r, readings.tail)
        else
          let r := r.advance readLen
          (if r.inBufferReadLen < totalLen then .nothing else .message, r, readings.tail)
  else some (.message, r, readings)

/-- Once the topic length of a large PUBLISH is there: fill the buffer, if the topic fits it. -/
def readTopic (r : Receiver size) (fixedHeaderLen : Nat) (readings : List Reading) :
    Option (Reception size) :=
  let topicLen := wordAt r.inBuffer fixedHeaderLen
  let totalLen := fixedHeaderLen + topicLen + if 0 < mqttGetQos r.inBuffer then 2 else 0
  if size < totalLen then some (.failure, r, readings)
  else readRest r size readings

/-- A message that does not fit the buffer, which only a PUBLISH may be. -/
def readLarge (r : Receiver size) (fixedHeaderLen : Nat) (readings : List Reading) :
    Option (Reception size) :=
  if mqttGetType r.inBuffer = MsgType.publish.code then
    if r.inBufferReadLen < fixedHeaderLen + 2 then
      (espTransportRead r r.inBufferReadLen (r.inBufferReadLen - fixedHeaderLen + 2)
        (readings.headD .timeout)).bind fun (readLen, r) =>
          if readLen ≤ 0 then
            some (handleTransportReadError readLen true, r, readings.tail)
          else
            let r := r.advance readLen
            if r.inBufferReadLen < fixedHeaderLen + 2 then some (.nothing, r, readings.tail)
            else readTopic r fixedHeaderLen readings.tail
    else readTopic r fixedHeaderLen readings
  else some (.failure, r, readings)

/-- What follows once the length bytes are there. -/
def readBody (r : Receiver size) (readings : List Reading) : Option (Reception size) :=
  let (totalLen, fixedHeaderLen) := mqttGetTotalLength r.inBuffer r.inBufferReadLen
  let r := { r with messageLength := totalLen }
  -- `in_buffer_length` is an `int` as well: a negative length passes.
  if (size : Int) < asInt totalLen then readLarge r fixedHeaderLen readings
  else readRest r totalLen readings

/-- Whether the loop over the length bytes goes on. -/
def Receiver.continues (r : Receiver size) : Bool :=
  decide (r.inBufferReadLen < 6 ∧ byteAt r.inBuffer (r.inBufferReadLen - 1) &&& 0x80 ≠ 0)

/-- The loop over the length bytes, which has at most five rounds. -/
def readLengthBytes : Nat → Receiver size → List Reading → Option (Reception size)
  | 0, r, readings => readBody r readings
  | rounds + 1, r, readings =>
    (espTransportRead r r.inBufferReadLen 1 (readings.headD .timeout)).bind fun (readLen, r) =>
      if readLen ≤ 0 then some (handleTransportReadError readLen true, r, readings.tail)
      else
        let r := r.advance 1
        if r.continues then readLengthBytes rounds r readings.tail else readBody r readings.tail

/-- `mqtt_message_receive` behind the first byte. -/
def readHeader (r : Receiver size) (readings : List Reading) : Option (Reception size) :=
  if r.inBufferReadLen = 1 ∨ r.continues = true then readLengthBytes 5 r readings
  else readBody r readings

/-- `mqtt_message_receive` -/
def mqttMessageReceive (r : Receiver size) (readings : List Reading) : Option (Reception size) :=
  let r := { r with messageLength := 0 }
  if r.inBufferReadLen = 0 then
    (espTransportRead r 0 1 (readings.headD .timeout)).bind fun (readLen, r) =>
      if readLen ≤ 0 then some (handleTransportReadError readLen false, r, readings.tail)
      else if mqttHasValidMsgHdr r.inBuffer then readHeader (r.advance 1) readings.tail
      else some (.failure, r, readings.tail)
  else readHeader r readings

/-! ## Handing on -/

/-- A `MQTT_EVENT_DATA`. -/
structure DataEvent where
  /-- Only the first event of a message has the topic. -/
  topic : Option (List UInt8)
  data : List UInt8
  currentDataOffset : Nat
  totalDataLen : Int
  msgId : UInt16
  qos : Nat
  dup : Nat
  retain : Nat
  deriving DecidableEq, Repr

/-- The loop of `deliver_publish` behind its first event: whether it returns ESP_OK, which it
does after a timeout as well, and the events. -/
def deliverRest (event : DataEvent) (total : Nat) :
    Receiver size → Nat → Nat → List Reading → Option (Bool × List DataEvent × Receiver size)
  | r, readLen, _, [] =>
    if readLen < total then
      (espTransportRead r 0 (min (total - readLen) size) .timeout).map fun (_, r) =>
        (true, [], r)
    else some (true, [], r)
  | r, readLen, offset, reading :: readings =>
    if readLen < total then
      (espTransportRead r 0 (min (total - readLen) size) reading).bind
        fun (ret, r) =>
          if ret ≤ 0 then some (handleTransportReadError ret false == .nothing, [], r)
          else
            let data := r.inBuffer.take ret.toNat
            let event := { event with topic := none, data := data, currentDataOffset := offset }
            (deliverRest event total r (readLen + data.length) (offset + data.length)
              readings).map fun (ok, events, r) => (ok, event :: events, r)
    else some (true, [], r)

/-- The first event of a message. -/
def firstEvent (r : Receiver size) (topic data : List UInt8) (msgId : UInt16) : DataEvent where
  topic := some topic
  data := data
  currentDataOffset := 0
  totalDataLen := data.length + r.messageLength - r.inBufferReadLen
  msgId := msgId
  qos := mqttGetQos r.inBuffer
  dup := mqttGetDup r.inBuffer
  retain := mqttGetRetain r.inBuffer

/-- `deliver_publish` -/
def deliverPublish (r : Receiver size) (readings : List Reading) :
    Option (Bool × List DataEvent × Receiver size) :=
  match mqttGetPublishTopic r.inBuffer r.inBufferReadLen with
  | none => some (false, [], r)
  | some topic =>
    let data := (mqttGetPublishData r.inBuffer r.inBufferReadLen).getD []
    (mqttGetId r.inBuffer r.inBufferReadLen).bind fun msgId =>
      let event := firstEvent r topic data msgId
      (deliverRest event r.messageLength r r.inBufferReadLen data.length readings).map
        fun (ok, events, r) => (ok, event :: events, r)

/-- What one round makes of a message. -/
def received (r : Receiver size) (readings : List Reading) :
    Option (Received × List DataEvent × Receiver size) :=
  -- The length is that of the message, which may be larger than the buffer.
  (mqttGetId r.inBuffer r.messageLength).bind fun msgId =>
    let msgQos := mqttGetQos r.inBuffer
    match mqttGetType r.inBuffer with
    | 3 => (deliverPublish r readings).map fun (delivered, events, r) =>
        (.publish msgId msgQos delivered, events, r)
    | 4 => some (.puback msgId, [], r)
    | 5 => some (.pubrec msgId, [], r)
    | 6 => some (.pubrel msgId, [], r)
    | 7 => some (.pubcomp msgId, [], r)
    | 9 => some (.suback msgId (mqttGetSubackData r.inBuffer r.inBufferReadLen).isSome, [], r)
    | 11 => some (.unsuback msgId, [], r)
    | 13 => some (.pingresp, [], r)
    | _ => some (.other, [], r)

/-- What `mqtt_process_receive` receives with non-blocking reads. -/
def mqttReceive (r : Receiver size) (readings : List Reading) :
    Option (Received × List DataEvent × Receiver size) :=
  (mqttMessageReceive r readings).bind fun (receipt, r', readings) =>
    match receipt with
    | .nothing => some (.nothing, [], r')
    | .stalled =>
      some (if r.inBufferReadLen = r'.inBufferReadLen then .failure else .nothing, [], r')
    | .failure => some (.failure, [], r')
    | .message => received r' readings

end Reading

end IndustrialIot.Edge.Mqtt
