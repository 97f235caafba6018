import IndustrialIot.Core.PublishPacket
import IndustrialIot.Edge.Mqtt.Manager
import IndustrialIot.Edge.Mqtt.Publish

/-!
# The packet of a publish

A publish stores one copy of its packet and sends another. The copy is the message in the
buffer and the data behind its first fragment; the sending loop counts what it has sent
from the offset in the connection, which only a fragmented message sets. Both are
compared with the packet that the standard describes.
-/

namespace IndustrialIot.Edge.Mqtt

/-! ## The message in the buffer -/

/-- The length loop writes a varint. -/
theorem encodedLens_eq_encode {rounds n : Nat} (h : n < 128 ^ rounds) (hrounds : 0 < rounds) :
    encodedLens rounds n = Varint.encode n := by
  induction rounds generalizing n with
  | zero => exact absurd hrounds (Nat.lt_irrefl 0)
  | succ rounds ih =>
    rw [encodedLens]
    split
    · rename_i hmore
      have hdiv : n / 128 < 128 ^ rounds := by
        rw [Nat.div_lt_iff_lt_mul (by decide), ← Nat.pow_succ]
        exact h
      have hpos : 0 < rounds := by
        apply Nat.pos_of_ne_zero
        rintro rfl
        rw [Nat.pow_zero] at hdiv
        omega
      have hor : n % 128 ||| 0x80 = n % 128 + 128 := by
        have hlow : n % 128 < 2 ^ 7 := Nat.mod_lt n (by decide)
        rw [Nat.or_comm, Nat.add_comm]
        exact (Nat.two_pow_add_eq_or_of_lt hlow 1).symm
      rw [ih hdiv hpos, hor, Varint.encode_of_le (n := n) (by omega)]
    · rename_i hlast
      rw [Varint.encode_of_lt (by omega), Nat.mod_eq_of_lt (by omega)]

/-- The header of a QoS 1 PUBLISH is that of the standard, with the drawn id. -/
theorem publishHeader_eq {topic header : List UInt8} {data : Option Memory} {dataLength : Nat}
    {random messageId : UInt16}
    (h : publishHeader topic data dataLength 1 random = some (header, messageId)) :
    header = PublishPacket.header topic random := by
  unfold publishHeader at h
  obtain ⟨_, h⟩ := Option.ite_none_left_eq_some.mp h
  obtain ⟨body, hbody, h⟩ := Option.bind_eq_some_iff.mp h
  rw [if_pos Nat.one_pos, Option.ite_none_left_eq_some] at h
  obtain ⟨_, hstring⟩ := appendString_eq_some.mp hbody
  obtain ⟨_, hid, _⟩ := appendMessageId_zero_eq_some.mp h.2
  rw [← hid, ← hstring]
  rfl

/-- A finished message, where its remaining length fits. -/
theorem finiMessage_eq {connection : Connection} {body : List UInt8} {type dup qos retain : Nat}
    (h : totalLength connection.outboundMessage body < 128 ^ 4) :
    (finiMessage connection body type dup qos retain).outboundMessage =
      { connection.outboundMessage with
        data := typeByte type dup qos retain ::
          Varint.encode (totalLength connection.outboundMessage body) ++ body
        fragmentedMsgDataOffset := connection.outboundMessage.fragmentedMsgDataOffset -
          UInt32.ofNat (4 - (Varint.encode
            (totalLength connection.outboundMessage body)).length) } := by
  have hlens : encodedLens maxFixedHeaderSize (totalLength connection.outboundMessage body) =
      Varint.encode (totalLength connection.outboundMessage body) :=
    encodedLens_eq_encode (Nat.lt_trans h (by decide)) (by decide)
  have hfour := Varint.length_encode_le h
  unfold finiMessage
  simp only [hlens]
  rw [if_neg (by unfold maxFixedHeaderSize; omega)]
  rfl

/-- What stands in front of the payload. -/
def packetHead (topic : List UInt8) (id : UInt16) (remaining : Nat) : List UInt8 :=
  PublishPacket.firstByte false false :: Varint.encode remaining ++
    PublishPacket.header topic id

/-- The payload that a message carries. -/
def payloadBytes (data : Option Memory) (len : Nat) : List UInt8 :=
  match data with
  | none => []
  | some memory => memory.slice 0 len

/-- The messages that `mqtt_msg_publish` builds: one that fits the buffer, one that is cut,
and one without data, which leaves the total of an earlier message in place. -/
inductive Built (connection : Connection) (topic : List UInt8) (random : UInt16) :
    Option Memory → Nat → OutboundMessage → Prop where
  | whole (memory : Memory) (len : Nat) (offset : UInt32)
      (hroom : topic.length + 9 + len ≤ bufferLength)
      (hsent : dataInMessage ⟨packetHead topic random (topic.length + 4 + len) ++
        memory.slice 0 len, 0, offset⟩ = (UInt32.ofNat (topic.length + 9 + len) -
          connection.outboundMessage.fragmentedMsgDataOffset).toInt32.toInt) :
      Built connection topic random (some memory) len
        ⟨packetHead topic random (topic.length + 4 + len) ++ memory.slice 0 len, 0, offset⟩
  | cut (memory : Memory) (len total : Nat) (offset : UInt32)
      (hroom : bufferLength < topic.length + 9 + len) (htotal : total ≠ 0)
      (hsent : dataInMessage ⟨packetHead topic random (topic.length + 4 + len) ++
        memory.slice 0 (bufferLength - (topic.length + 9)), total, offset⟩ =
          (bufferLength - (topic.length + 9) : Nat)) :
      Built connection topic random (some memory) len
        ⟨packetHead topic random (topic.length + 4 + len) ++
          memory.slice 0 (bufferLength - (topic.length + 9)), total, offset⟩
  | empty (offset : UInt32) :
      Built connection topic random none 0
        ⟨packetHead topic random (publishLength connection topic none 0),
          connection.outboundMessage.fragmentedMsgTotalLength, offset⟩

theorem length_packetHead (topic : List UInt8) (id : UInt16) (remaining : Nat) :
    (packetHead topic id remaining).length =
      1 + (Varint.encode remaining).length + (topic.length + 4) := by
  simp only [packetHead, List.length_append, List.length_cons, PublishPacket.length_header]
  omega

/-- Where the header starts and where the data starts move together. -/
theorem dataInMessage_whole {topic contents : List UInt8} {id : UInt16} {remaining total : Nat}
    {offset : UInt32} (hfour : (Varint.encode remaining).length ≤ 4) :
    dataInMessage ⟨packetHead topic id remaining ++ contents, total,
        offset - UInt32.ofNat (4 - (Varint.encode remaining).length)⟩ =
      (UInt32.ofNat (topic.length + 9 + contents.length) - offset).toInt32.toInt := by
  have hlength : topic.length + 9 + contents.length =
      (packetHead topic id remaining ++ contents).length +
        (4 - (Varint.encode remaining).length) := by
    rw [List.length_append, length_packetHead]
    omega
  have hmove : ∀ a b c : UInt32, a - (c - b) = a + b - c := by
    intro a b c
    grind
  rw [dataInMessage, hlength, UInt32.ofNat_add, hmove]

/-- Where the header of a publish that fits was made. -/
theorem publishHeader_of_fits {connection : Connection} {topic : List UInt8}
    {data : Option Memory} {len : Nat} (hfits : PublishFits connection topic data len)
    (random : UInt16) :
    publishHeader topic data len 1 random = some (PublishPacket.header topic random, random) := by
  have hsome : (publishHeader topic data len 1 random).isSome = true :=
    publishHeader_isSome hfits.1.1 hfits.1.2.1 hfits.1.2.2
  obtain ⟨⟨header, messageId⟩, hheader⟩ := Option.isSome_iff_exists.mp hsome
  obtain ⟨_, _, rfl⟩ := publishHeader_eq_some hheader
  rw [hheader, publishHeader_eq hheader]

/-- Every message that fits is built in one of the three ways. -/
theorem built {connection : Connection} {topic : List UInt8} {data : Option Memory} {len : Nat}
    (hfits : PublishFits connection topic data len) (random : UInt16) :
    Built connection topic random data len
      (mqttMsgPublish connection topic data len 1 0 random).1.outboundMessage := by
  have hheader := publishHeader_of_fits hfits random
  have hlength := PublishPacket.length_header topic random
  have htotal := totalLength_publishBody connection _ hlength hfits.1.2.2
  have hsmall := hfits.2
  have hfour := Varint.length_encode_le hsmall
  rw [← htotal] at hsmall
  unfold mqttMsgPublish
  simp only [hheader]
  rw [finiMessage_eq hsmall, htotal]
  have hfirst : typeByte MsgType.publish.code 0 1 0 = PublishPacket.firstByte false false := by
    decide
  rw [hfirst]
  cases data with
  | none =>
    obtain rfl := hfits.1.2.2 rfl
    exact .empty _
  | some memory =>
    have hstated : publishLength connection topic (some memory) len = topic.length + 4 + len := rfl
    have hroom : maxFixedHeaderSize + (PublishPacket.header topic random).length =
        topic.length + 9 := by
      rw [hlength, maxFixedHeaderSize]
      omega
    rw [hstated] at hfour ⊢
    simp only [publishBody, hroom]
    by_cases hcut : bufferLength < topic.length + 9 + len
    · simp only [hcut, if_true, ← List.append_assoc]
      refine .cut memory len _ _ hcut (by omega) ?_
      rw [dataInMessage_whole hfour, Memory.length_slice, Nat.add_comm, UInt32.ofNat_add,
        UInt32.add_sub_cancel, UInt32.toInt32_ofNat',
        Int32.toInt_ofNat_of_lt (Nat.lt_of_le_of_lt (Nat.sub_le ..) (by decide))]
    · simp only [hcut, if_false, ← List.append_assoc]
      refine .whole memory len _ (Nat.not_lt.mp hcut) ?_
      rw [dataInMessage_whole hfour, Memory.length_slice]

/-! ## The stored copy -/

/-- The packet that a publish stores. -/
def storedPacket (connection : Connection) (topic : List UInt8) (random : UInt16)
    (data : Option Memory) (len : Nat) : List UInt8 :=
  packetHead topic random (publishLength connection topic data len) ++ payloadBytes data len

/-- The fragment in the buffer and the data behind it make up the packet. -/
theorem Built.storedPacket_eq {connection : Connection} {topic : List UInt8} {random : UInt16}
    {data : Option Memory} {len : Nat} {message : OutboundMessage} {remaining : List UInt8}
    (h : Built connection topic random data len message)
    (hremaining : (message.fragmentedMsgTotalLength = 0 ∧ remaining = []) ∨
      (message.fragmentedMsgTotalLength ≠ 0 ∧
        remainingData data len (dataInMessage message) = some remaining)) :
    message.data ++ remaining = storedPacket connection topic random data len := by
  cases h with
  | whole memory len offset hroom hsent =>
    rcases hremaining with ⟨_, rfl⟩ | ⟨htotal, _⟩
    · exact List.append_nil _
    · exact absurd rfl htotal
  | cut memory len total offset hroom htotal hsent =>
    have hrest := (hremaining.resolve_left fun hzero => htotal hzero.1).2
    rw [hsent, remainingData, if_pos ⟨by omega, by omega⟩] at hrest
    obtain rfl := Option.some.inj hrest
    have hlen : len = (bufferLength - (topic.length + 9)) +
        ((len : Int) - (bufferLength - (topic.length + 9) : Nat)).toNat := by omega
    have hslice := memory.slice_add 0 (bufferLength - (topic.length + 9))
      ((len : Int) - (bufferLength - (topic.length + 9) : Nat)).toNat
    rw [← hlen, Int.zero_add] at hslice
    rw [storedPacket, payloadBytes, hslice, List.append_assoc]
    rfl
  | empty offset =>
    have hnil : remaining = [] := by
      rcases hremaining with ⟨_, hnil⟩ | ⟨_, hrest⟩
      · exact hnil
      · obtain ⟨_, hnil⟩ := Option.ite_none_right_eq_some.mp hrest
        exact (Option.some.inj hnil).symm
    rw [hnil, storedPacket, payloadBytes]

/-- What storing leaves behind: the packet in the outbox, and the message without its total. -/
theorem enqueuePublish_built {c c' : Client} {topic : List UInt8} {data : Option Memory}
    {len record : Nat} {random messageId : UInt16} {alloc : Bool}
    (h : mqttClientEnqueuePublish c topic data len 1 0 false record random alloc =
      some (c', some messageId)) :
    PublishFits c.connection topic data len ∧
      ∃ message connection, Built c.connection topic random data len message ∧
        connection.outboundMessage = { message with fragmentedMsgTotalLength := 0 } ∧
        c' = (c.withMessage connection random MsgType.publish.code 1).store
          (publishItem (storedPacket c.connection topic random data len) random record c.now) := by
  rcases mqttMsgPublish_cases c.connection topic data len random with
    ⟨_, hnil⟩ | ⟨hfits, hdata, htype, hid⟩
  · simp [mqttClientEnqueuePublish, makePublish, hnil] at h
  · have hbuilt := built hfits random
    simp only [mqttClientEnqueuePublish, makePublish, hdata, if_false, hid, Nat.one_pos,
      true_or, if_true, htype] at h
    generalize (mqttMsgPublish c.connection topic data len 1 0 random).1 = connection at h hbuilt
    cases alloc with
    | false =>
      simp only [mqttEnqueue_false] at h
      split at h <;> simp at h
    | true =>
      split at h
      · rename_i htotal
        cases h
        rw [← hbuilt.storedPacket_eq (.inl ⟨htotal, rfl⟩)]
        exact ⟨hfits, connection.outboundMessage, connection, hbuilt, by rw [← htotal], rfl⟩
      · rename_i htotal
        split at h
        · exact absurd h (by simp)
        · rename_i hsome
          obtain ⟨remaining, hremaining⟩ := Option.ne_none_iff_exists'.mp
            fun hnone => hsome ⟨rfl, hnone⟩
          rw [hremaining] at h
          cases h
          rw [← hbuilt.storedPacket_eq (.inr ⟨htotal, hremaining⟩)]
          exact ⟨hfits, connection.outboundMessage,
            (c.withMessage connection random 0 0).clearTotal.connection, hbuilt, rfl, rfl⟩

/-- The bytes are one QoS 1 PUBLISH, of a topic with an id and a payload. -/
def IsPublishOf (bytes topic : List UInt8) (id : UInt16) (payload : List UInt8) : Prop :=
  ∃ p, PublishPacket.decode bytes = some p ∧ p.dup = false ∧ p.retain = false ∧
    p.topic = topic ∧ p.id = id ∧ p.payload = payload

@[simp] theorem length_payloadBytes (memory : Memory) (len : Nat) :
    (payloadBytes (some memory) len).length = len := Memory.length_slice ..

/-- The stored packet is the PUBLISH of what it carries, exactly when its remaining length is
that of its body. -/
theorem isPublishOf_storedPacket_iff {connection : Connection} {topic : List UInt8}
    {random : UInt16} {data : Option Memory} {len : Nat} {payload : List UInt8}
    (hfits : PublishFits connection topic data len) (hid : random ≠ 0) :
    IsPublishOf (storedPacket connection topic random data len) topic random payload ↔
      publishLength connection topic data len =
        topic.length + 4 + (payloadBytes data len).length ∧ payloadBytes data len = payload := by
  have hpacket : storedPacket connection topic random data len =
      PublishPacket.firstByte false false ::
        Varint.encode (publishLength connection topic data len) ++
          (PublishPacket.header topic random ++ payloadBytes data len) := by
    rw [storedPacket, packetHead, List.append_assoc]
  have hbody : (PublishPacket.header topic random ++ payloadBytes data len).length =
      topic.length + 4 + (payloadBytes data len).length := by
    rw [List.length_append, PublishPacket.length_header]
  obtain ⟨⟨htopic, hroom, _⟩, hsmall⟩ := hfits
  by_cases hstated : publishLength connection topic data len =
      topic.length + 4 + (payloadBytes data len).length
  · have htopicLt : topic.length < 2 ^ 16 := by
      unfold bufferLength at hroom
      omega
    let packet : PublishPacket.Packet := ⟨false, false, topic, random, payloadBytes data len,
      htopic, htopicLt, hid, hstated ▸ hsmall⟩
    have hencode : PublishPacket.encode packet = storedPacket connection topic random data len := by
      rw [hpacket, hstated]
      rfl
    have hdecode := PublishPacket.decode_encode packet
    rw [hencode] at hdecode
    constructor
    · rintro ⟨p, hp, _, _, _, _, rfl⟩
      cases hp.symm.trans hdecode
      exact ⟨hstated, rfl⟩
    · rintro ⟨_, rfl⟩
      exact ⟨_, hdecode, rfl, rfl, rfl, rfl, rfl⟩
  · have hne : (PublishPacket.header topic random ++ payloadBytes data len).length ≠
        publishLength connection topic data len := fun h => hstated (h.symm.trans hbody)
    have hdecode := PublishPacket.decode_of_length_ne false false hsmall hne
    rw [← hpacket] at hdecode
    constructor
    · rintro ⟨p, hp, _⟩
      rw [hdecode] at hp
      exact absurd hp (by simp)
    · exact fun h => absurd h.1 hstated

/-! ## The direct transmission -/

/-- The offset that earlier messages have left in the connection lies in front of the data of a
message that fits the buffer, and not so far that the difference overflows. -/
def OffsetBeforeData (connection : Connection) (topic : List UInt8) (data : Option Memory)
    (len : Nat) : Prop :=
  let offset := connection.outboundMessage.fragmentedMsgDataOffset.toInt32.toInt
  data ≠ none → topic.length + 9 + len ≤ bufferLength →
    offset ≤ (topic.length + 9 : Nat) ∧ (topic.length + 9 + len : Nat) < offset + 2 ^ 31

instance (connection : Connection) (topic : List UInt8) (data : Option Memory) (len : Nat) :
    Decidable (OffsetBeforeData connection topic data len) :=
  inferInstanceAs (Decidable (_ → _ → _ ∧ _))

/-- The count of what was sent covers the data exactly when the offset lies in front of it. -/
theorem le_sent_iff {start len : Nat} (hroom : start + len ≤ bufferLength) (offset : UInt32) :
    (len : Int) ≤ (UInt32.ofNat (start + len) - offset).toInt32.toInt ↔
      offset.toInt32.toInt ≤ start ∧ (start + len : Nat) < offset.toInt32.toInt + 2 ^ 31 := by
  have hlow := Int32.le_toInt offset.toInt32
  have hhigh := Int32.toInt_lt offset.toInt32
  have hsmall : start + len ≤ 1024 := hroom
  have hsum : (UInt32.ofNat (start + len)).toInt32.toInt = (start + len : Nat) := by
    rw [UInt32.toInt32_ofNat', Int32.toInt_ofNat_of_lt (by omega)]
  rw [UInt32.toInt32_sub, Int32.toInt_sub, hsum, Int.bmod_def]
  split <;> omega

/-- A transmission without data is that of the message alone. -/
theorem written_of_sending_none {scripts : List (List Int)} {connection : Connection}
    {remainingLen currentData : Int} {transfer : Transfer}
    (h : sending none scripts connection remainingLen currentData = some transfer)
    (hok : transfer.ok = true) : transfer.written = connection.outboundMessage.data := by
  cases scripts with
  | nil =>
    cases h
    exact absurd hok (by simp)
  | cons results scripts =>
    rw [sending] at h
    simp only at h
    split at h
    · rename_i hwrite
      split at h
      · exact absurd h (by simp)
      · cases h
        rw [espMqttWrite_of_ok hwrite, List.take_length]
    · cases h
      exact absurd hok (by simp)

/-- A completed transmission is the stored packet exactly when the sending loop stops behind
it. -/
theorem Built.written_eq_iff {connection sender : Connection} {topic : List UInt8}
    {random : UInt16} {data : Option Memory} {len : Nat} {message : OutboundMessage}
    {scripts : List (List Int)} {transfer : Transfer}
    (h : Built connection topic random data len message)
    (hsender : sender.outboundMessage = { message with fragmentedMsgTotalLength := 0 })
    (hsending : sending data scripts sender len 0 = some transfer) (hok : transfer.ok = true) :
    transfer.written = storedPacket connection topic random data len ↔
      OffsetBeforeData connection topic data len := by
  have hdata : dataInMessage sender.outboundMessage = dataInMessage message := by
    rw [hsender]
    rfl
  have hbuilt := h
  cases h with
  | whole memory len offset hroom hsent =>
    obtain ⟨rest, hwritten, hrest⟩ := written_of_sending hsending hok
    have hrest := hrest memory rfl
    rw [hdata, hsent] at hrest
    have hcopy : sender.outboundMessage.data =
        storedPacket connection topic random (some memory) len := by
      rw [hsender]
      rfl
    have hbefore := le_sent_iff hroom connection.outboundMessage.fragmentedMsgDataOffset
    have hstop : ∀ sent : Int, (len - sent).toNat = 0 ↔ len ≤ sent := by
      intro sent
      omega
    rw [hwritten, hcopy, List.append_right_eq_self, hrest, ← List.length_eq_zero_iff,
      Memory.length_slice, hstop, hbefore]
    exact ⟨fun hoffset _ _ => hoffset, fun hoffset => hoffset (by simp) hroom⟩
  | cut memory len total offset hroom htotal hsent =>
    obtain ⟨rest, hwritten, hrest⟩ := written_of_sending hsending hok
    have hrest := hrest memory rfl
    rw [hdata, hsent] at hrest
    have hremaining : remainingData (some memory) len (dataInMessage ⟨packetHead topic random
        (topic.length + 4 + len) ++ memory.slice 0 (bufferLength - (topic.length + 9)), total,
        offset⟩) = some rest := by
      rw [hsent, remainingData, if_pos ⟨by omega, by omega⟩, hrest, Int.zero_add]
    have hcopy := hbuilt.storedPacket_eq (.inr ⟨htotal, hremaining⟩)
    rw [hwritten, hsender]
    exact ⟨fun _ _ hfit => absurd hfit (Nat.not_le.mpr hroom), fun _ => hcopy⟩
  | empty offset =>
    have hwritten := written_of_sending_none hsending hok
    have hcopy : sender.outboundMessage.data = storedPacket connection topic random none 0 := by
      rw [hsender]
      exact (List.append_nil _).symm
    exact ⟨fun _ hnone => absurd rfl hnone, fun _ => hwritten.trans hcopy⟩

end IndustrialIot.Edge.Mqtt
