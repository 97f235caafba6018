import IndustrialIot.Core.Machine
import IndustrialIot.Edge.Mqtt.Reassembly

/-!
# What arrives

The messages that the rounds of the MQTT task are given, against the messages that the
broker sent on the connection.
-/

namespace IndustrialIot.Edge.Mqtt

open ControlPacket (Packet Publish Message AckType encodeAll)

variable {size : Nat}

/-! ## The parts of a PUBLISH -/

/-- An event with a part of a PUBLISH. -/
structure PartOf (p : Publish) (topic : Option (List UInt8)) (offset : Nat) (e : DataEvent) :
    Prop where
  topic_eq : e.topic = topic
  offset_eq : e.currentDataOffset = offset
  total_eq : e.totalDataLen = p.payload.length
  msgId_eq : e.msgId = if 0 < p.qos then p.id else 0
  qos_eq : e.qos = p.qos
  dup_eq : e.dup = p.dup.toNat
  retain_eq : e.retain = p.retain.toNat

/-- Events with consecutive parts of a PUBLISH from an offset on; the first has the topic. -/
def Parts (p : Publish) : Option (List UInt8) → Nat → List DataEvent → Prop
  | _, _, [] => True
  | topic, offset, e :: events =>
    PartOf p topic offset e ∧ Parts p none (offset + e.data.length) events

/-- The data of events, one after the other. -/
def dataOf (events : List DataEvent) : List UInt8 := events.flatMap DataEvent.data

/-- The events hand on all of a PUBLISH. -/
def Conveys (p : Publish) (events : List DataEvent) : Prop :=
  events ≠ [] ∧ Parts p (some p.topic) 0 events ∧ dataOf events = p.payload

/-- The loop of `deliver_publish` reads on in the packet. -/
theorem deliverRest_spec {p : Publish} {event : DataEvent} {topic : Option (List UInt8)}
    {start total : Nat} (readLen offset : Nat) {r : Receiver size} {todo more : List UInt8}
    (hevent : PartOf p topic start event) (hincoming : r.incoming = todo ++ more)
    (htodo : readLen + todo.length = total) (readings : List Reading) :
    ∃ ok events r', deliverRest event total r readLen offset readings = some (ok, events, r') ∧
      (ok = false → Reading.failure ∈ readings) ∧ Parts p none offset events ∧
      ∃ left, todo = dataOf events ++ left ∧ r'.incoming = left ++ more := by
  induction readings generalizing r readLen offset todo event topic start with
  | nil =>
    have hroom : ¬ size < 0 + min (total - readLen) size := by omega
    refine ⟨true, [], r, ?_, by simp, trivial, todo, rfl, hincoming⟩
    rw [deliverRest, espTransportRead, dif_neg hroom]
    split <;> rfl
  | cons reading readings ih =>
    rw [deliverRest]
    by_cases hlt : readLen < total
    · obtain ⟨n, r', hr', hspec⟩ := espTransportRead_spec (r := r) 0
        (min (total - readLen) size) reading (by omega)
      rw [if_pos hlt, hr', Option.bind_some]
      simp only
      cases hspec with
      | away _ hle hfailure =>
        rw [if_pos hle]
        refine ⟨_, [], r, rfl, ?_, trivial, todo, rfl, hincoming⟩
        intro hnot
        by_cases hn : n = 0
        · subst hn
          exact absurd hnot (by decide)
        · rw [hfailure hn]
          exact List.mem_cons_self
      | bytes bytes rest hne hlen hroom hsplit =>
        have hpos : 0 < bytes.length := List.length_pos_iff.mpr hne
        have hdata : (r.overwrite 0 bytes hroom).inBuffer.take (bytes.length : Int).toNat =
            bytes := by
          simp [Receiver.overwrite]
        obtain ⟨todo', rfl, rfl⟩ : ∃ todo', todo = bytes ++ todo' ∧ rest = todo' ++ more := by
          have hpre : bytes <+: todo ++ more := ⟨rest, hincoming ▸ hsplit.symm⟩
          obtain ⟨todo', rfl⟩ :=
            List.prefix_of_prefix_length_le hpre (List.prefix_append todo more) (by omega)
          rw [hsplit, List.append_assoc] at hincoming
          exact ⟨todo', rfl, List.append_cancel_left hincoming⟩
        rw [if_neg (by omega)]
        simp only [hdata]
        rw [List.length_append] at htodo
        have hpart : PartOf p none offset
            { event with topic := none, data := bytes, currentDataOffset := offset } :=
          ⟨rfl, rfl, hevent.total_eq, hevent.msgId_eq, hevent.qos_eq, hevent.dup_eq,
            hevent.retain_eq⟩
        obtain ⟨ok, events, r'', hrest, hfailure, hparts, left, hleft, hincoming'⟩ :=
          ih (r := { r.overwrite 0 bytes hroom with incoming := todo' ++ more })
            (readLen + bytes.length) (offset + bytes.length) hpart rfl (by omega)
        rw [hrest]
        refine ⟨ok, _ :: events, r'', rfl, ?_, ⟨hpart, hparts⟩, left, ?_, hincoming'⟩
        · intro hnot
          exact List.mem_cons_of_mem _ (hfailure hnot)
        · rw [hleft]
          simp [dataOf]
    · have hnil : todo = [] := List.length_eq_zero_iff.mp (by omega)
      rw [if_neg hlt]
      exact ⟨true, [], r, rfl, by simp, trivial, [], by rw [hnil]; rfl, by rw [hincoming, hnil]⟩

/-- What the buffer holds of a PUBLISH that is handed on, and what is still to come. -/
theorem Within.publish_split {p : Publish} {more : List UInt8} {r : Receiver size}
    (h : Within p.packet more r) (hheader : p.header.length ≤ r.inBufferReadLen) :
    ∃ stale, r.inBuffer =
        p.header ++ (p.payload.take (r.inBufferReadLen - p.header.length) ++ stale) ∧
      r.incoming = p.payload.drop (r.inBufferReadLen - p.header.length) ++ more := by
  have hheld : r.held =
      p.header ++ p.payload.take (r.inBufferReadLen - p.header.length) := by
    rw [h.held_eq, p.encode_packet, List.take_append, List.take_of_length_le hheader]
  refine ⟨r.inBuffer.drop r.inBufferReadLen, ?_, ?_⟩
  · rw [← List.append_assoc, ← hheld]
    exact (List.take_append_drop _ _).symm
  · have hstream := h.stream
    rw [hheld, p.encode_packet, List.append_assoc, List.append_assoc] at hstream
    have hpayload := List.append_cancel_left hstream
    refine (List.append_right_inj (p.payload.take (r.inBufferReadLen - p.header.length))).mp ?_
    rw [hpayload, ← List.append_assoc, List.take_append_drop]

/-- `deliver_publish` hands on the payload from its start, in consecutive parts. -/
theorem Within.deliverPublish {p : Publish} {more : List UInt8} {r : Receiver size}
    (h : Within p.packet more r) (hheader : p.header.length ≤ size)
    (hall : r.inBufferReadLen = extent p.packet size)
    (htotal : r.messageLength = p.packet.encode.length) (readings : List Reading) :
    ∃ ok events r', deliverPublish r readings = some (ok, events, r') ∧
      (ok = false → Reading.failure ∈ readings) ∧ events ≠ [] ∧
      Parts p (some p.topic) 0 events ∧
      ∃ left, p.payload = dataOf events ++ left ∧ r'.incoming = left ++ more := by
  have hlength := p.length_packet
  have hread : p.header.length ≤ r.inBufferReadLen := by
    rw [hall, extent]
    omega
  have hmin : min p.packet.encode.length r.inBufferReadLen = r.inBufferReadLen := by
    rw [hall, extent]
    omega
  have hle : r.inBufferReadLen - p.header.length ≤ p.payload.length := by omega
  obtain ⟨stale, hbuffer, hincoming⟩ := h.publish_split hread
  have hdata : (mqttGetPublishData r.inBuffer r.inBufferReadLen).getD [] =
      p.payload.take (r.inBufferReadLen - p.header.length) := by
    rw [hbuffer, mqttGetPublishData_header hread, hmin]
    apply List.take_left'
    rw [List.length_take]
    omega
  have htopic : mqttGetPublishTopic r.inBuffer r.inBufferReadLen = some p.topic := by
    rw [hbuffer]
    exact mqttGetPublishTopic_header hread
  have hid : mqttGetId r.inBuffer r.inBufferReadLen = some (if 0 < p.qos then p.id else 0) := by
    rw [hbuffer]
    exact mqttGetId_header hread
  obtain ⟨⟨_, hqos⟩, hdup, hretain⟩ :=
    publishFirst_flags p (p.packet.lens ++ p.variable ++
      (p.payload.take (r.inBufferReadLen - p.header.length) ++ stale))
  have hcons : r.inBuffer = p.packet.first :: (p.packet.lens ++ p.variable ++
      (p.payload.take (r.inBufferReadLen - p.header.length) ++ stale)) := by
    rw [hbuffer]
    simp [Publish.header]
  rw [← hcons] at hqos hdup hretain
  unfold Mqtt.deliverPublish firstEvent
  simp only [htopic, hdata, hid, Option.bind_some, hqos, hdup, hretain]
  have hpart : PartOf p (some p.topic) 0 {
      topic := some p.topic
      data := p.payload.take (r.inBufferReadLen - p.header.length)
      currentDataOffset := 0
      totalDataLen := ((p.payload.take (r.inBufferReadLen - p.header.length)).length : Int) +
        r.messageLength - r.inBufferReadLen
      msgId := if 0 < p.qos then p.id else 0
      qos := p.qos
      dup := p.dup.toNat
      retain := p.retain.toNat } := by
    refine ⟨rfl, rfl, ?_, rfl, rfl, rfl, rfl⟩
    simp only [List.length_take, htotal]
    omega
  have htodo : r.inBufferReadLen +
      (p.payload.drop (r.inBufferReadLen - p.header.length)).length = r.messageLength := by
    rw [List.length_drop]
    omega
  obtain ⟨ok, events, r', hrest, hfailure, hparts, left, hleft, hincoming'⟩ :=
    deliverRest_spec _ (p.payload.take (r.inBufferReadLen - p.header.length)).length hpart
      hincoming htodo readings
  rw [hrest]
  refine ⟨ok, _ :: events, r', rfl, hfailure, List.cons_ne_nil _ _, ⟨hpart, ?_⟩,
    left, ?_, hincoming'⟩
  · rw [Nat.zero_add]
    exact hparts
  · rw [dataOf, List.flatMap_cons, List.append_assoc, ← dataOf, ← hleft,
      List.take_append_drop]

/-! ## Messages -/

/-- What the client is told of an answer. -/
def answer (id : UInt16) : AckType → Received
  | .puback => .puback id
  | .pubrec => .pubrec id
  | .pubrel => .pubrel id
  | .pubcomp => .pubcomp id
  | .unsuback => .unsuback id

/-- The type of an answer. -/
def answerCode : AckType → Nat
  | .puback => 4
  | .pubrec => 5
  | .pubrel => 6
  | .pubcomp => 7
  | .unsuback => 11

theorem mqttGetType_first (type : AckType) : mqttGetType [type.first] = answerCode type := by
  cases type <;> decide

/-- A round was given a message. -/
def Tells : Message → Received → List DataEvent → Prop
  | .connack _ _, received, events => received = .other ∧ events = []
  | .publish p, received, events =>
    received = .publish (if 0 < p.qos then p.id else 0) p.qos true ∧ Conveys p events
  | .ack type id, received, events => received = answer id type ∧ events = []
  | .suback id _ _, received, events => received = .suback id true ∧ events = []
  | .pingresp, received, events => received = .pingresp ∧ events = []

/-- The events end before the end of their message. -/
def Partial (events : List DataEvent) : Prop :=
  ∃ e ∈ events, ((dataOf events).length : Int) < e.totalDataLen

instance (events : List DataEvent) : Decidable (Partial events) :=
  inferInstanceAs (Decidable (∃ e ∈ events, _))

/-- What handing on a message comes to. -/
inductive Handed (m : Message) (more : List UInt8) (readings : List Reading) :
    Received → List DataEvent → Receiver size → Prop
  | told (received : Received) (events : List DataEvent) (r : Receiver size)
      (h : Tells m received events) (hincoming : r.incoming = more) :
      Handed m more readings received events r
  | failed (id : UInt16) (qos : Nat) (events : List DataEvent) (r : Receiver size)
      (h : Reading.failure ∈ readings) :
      Handed m more readings (.publish id qos false) events r
  | cut (id : UInt16) (qos : Nat) (events : List DataEvent) (r : Receiver size)
      (h : Partial events) :
      Handed m more readings (.publish id qos true) events r

section Received

variable {more : List UInt8} {r : Receiver size}

/-- A message that fits the buffer is in it, and only what follows is still to come. -/
theorem Within.whole {p : Packet} (h : Within p more r) (hfits : p.encode.length ≤ size)
    (hall : r.inBufferReadLen = extent p size) :
    r.inBufferReadLen = p.encode.length ∧
      (∃ stale, r.inBuffer = p.encode ++ stale) ∧ r.incoming = more := by
  have hlen : r.inBufferReadLen = p.encode.length := hall.trans (Nat.min_eq_left hfits)
  have hheld : r.held = p.encode := by
    rw [h.held_eq, hlen, List.take_length]
  have hstream := h.stream
  rw [hheld] at hstream
  refine ⟨hlen, ⟨r.inBuffer.drop r.inBufferReadLen, ?_⟩, List.append_cancel_left hstream⟩
  rw [← hheld]
  exact (List.take_append_drop _ _).symm

/-- A PUBLISH is what the client takes it for. -/
theorem Within.received_publish {p : Publish} (h : Within p.packet more r)
    (hheader : p.header.length ≤ r.inBufferReadLen)
    (htotal : r.messageLength = p.packet.encode.length) (readings : List Reading) :
    received r readings = (Mqtt.deliverPublish r readings).map fun (delivered, events, r) =>
      (.publish (if 0 < p.qos then p.id else 0) p.qos delivered, events, r) := by
  have hlength := p.length_packet
  obtain ⟨stale, hbuffer, _⟩ := h.publish_split hheader
  have hcons : r.inBuffer = p.packet.first :: (p.packet.lens ++ p.variable ++
      (p.payload.take (r.inBufferReadLen - p.header.length) ++ stale)) := by
    rw [hbuffer]
    simp [Publish.header]
  have hid : mqttGetId r.inBuffer r.messageLength = some (if 0 < p.qos then p.id else 0) := by
    rw [hbuffer]
    exact mqttGetId_header (by omega)
  obtain ⟨⟨htype, hqos⟩, _⟩ := publishFirst_flags p (p.packet.lens ++ p.variable ++
    (p.payload.take (r.inBufferReadLen - p.header.length) ++ stale))
  rw [← hcons] at htype hqos
  unfold received
  simp only [htype, hqos, hid, Option.bind_some]

theorem Handed.publish {p : Publish} (h : Within p.packet more r)
    (hheader : p.header.length ≤ size) (hall : r.inBufferReadLen = extent p.packet size)
    (htotal : r.messageLength = p.packet.encode.length) (readings : List Reading) :
    ∃ received' events r', received r readings = some (received', events, r') ∧
      Handed (.publish p) more readings received' events r' := by
  have hlength := p.length_packet
  have hread : p.header.length ≤ r.inBufferReadLen := by
    rw [hall, extent]
    omega
  obtain ⟨ok, events, r', hdeliver, hfailure, hne, hparts, left, hleft, hincoming⟩ :=
    h.deliverPublish hheader hall htotal readings
  rw [h.received_publish hread htotal, hdeliver, Option.map_some]
  refine ⟨_, _, _, rfl, ?_⟩
  cases ok with
  | false => exact .failed _ _ _ _ (hfailure rfl)
  | true =>
    cases left with
    | nil =>
      rw [List.append_nil] at hleft
      exact .told _ _ _ ⟨rfl, hne, hparts, hleft.symm⟩ hincoming
    | cons byte left =>
      refine .cut _ _ _ _ ?_
      cases events with
      | nil => exact absurd rfl hne
      | cons e events =>
        refine ⟨e, List.mem_cons_self, ?_⟩
        rw [hparts.1.total_eq, hleft, List.length_append, List.length_cons]
        omega

/-- The identifier and the type of a message whose body begins with an identifier. -/
theorem Within.identified {p : Packet} (id : UInt16) (codes : List UInt8) {stale : List UInt8}
    (hbuffer : r.inBuffer = p.encode ++ stale)
    (hbody : p.body = PublishPacket.beBytes id.toNat ++ codes)
    (htype : 4 ≤ mqttGetType [p.first] ∧ mqttGetType [p.first] ≤ 11)
    (hshort : p.body.length < 128) :
    mqttGetId r.inBuffer p.encode.length = some id ∧
      mqttGetType r.inBuffer = mqttGetType [p.first] := by
  have hfixed := p.fixed_bounds
  have hlength := p.length_encode
  have hlong : 4 ≤ p.encode.length := by
    rw [hlength, hbody, List.length_append]
    change 4 ≤ p.fixed + (2 + codes.length)
    omega
  have hid := mqttGetId_identified (n := p.body.length) id (codes ++ stale) htype hshort hlong
  have hencode : p.encode ++ stale = p.first :: Varint.encode p.body.length ++
      (PublishPacket.beBytes id.toNat ++ (codes ++ stale)) := by
    rw [Packet.encode, List.append_assoc, hbody, List.append_assoc, Packet.lens, hbody]
  rw [hbuffer]
  exact ⟨hencode ▸ hid, rfl⟩

/-- Every acceptable message that is in the buffer is handed on. -/
theorem Handed.of_within {m : Message} (h : Within m.packet more r)
    (hm : Acceptable size m) (hall : r.inBufferReadLen = extent m.packet size)
    (htotal : r.messageLength = m.packet.encode.length) (readings : List Reading) :
    ∃ received' events r', received r readings = some (received', events, r') ∧
      Handed m more readings received' events r' := by
  cases m with
  | connack sessionPresent code =>
    obtain ⟨_, ⟨stale, hbuffer⟩, hincoming⟩ := h.whole hm hall
    have htype : mqttGetType r.inBuffer = mqttGetType [0x20] := by
      rw [hbuffer]
      rfl
    have hcode : mqttGetType r.inBuffer = 2 := htype.trans (by decide)
    unfold received
    simp only [mqttGetId_other hcode (by decide), Option.bind_some, hcode]
    exact ⟨_, _, _, rfl, .told _ _ _ ⟨rfl, rfl⟩ hincoming⟩
  | publish p => exact Handed.publish h hm hall htotal readings
  | ack type id =>
    obtain ⟨_, ⟨stale, hbuffer⟩, hincoming⟩ := h.whole hm hall
    obtain ⟨hid, htype⟩ := Within.identified id [] hbuffer
      (List.append_nil _).symm
      (by
        change 4 ≤ mqttGetType [type.first] ∧ mqttGetType [type.first] ≤ 11
        cases type <;> decide)
      (by
        change 2 < 128
        decide)
    have hcode : mqttGetType r.inBuffer = answerCode type := htype.trans (mqttGetType_first type)
    unfold received
    simp only [htotal, hid, Option.bind_some, hcode]
    cases type <;> exact ⟨_, _, _, rfl, .told _ _ _ ⟨rfl, rfl⟩ hincoming⟩
  | suback id codes hcodes =>
    obtain ⟨hfits, hne, hshort⟩ := hm
    obtain ⟨hlen, ⟨stale, hbuffer⟩, hincoming⟩ := h.whole hfits hall
    have hpos : 0 < codes.length := List.length_pos_iff.mpr hne
    have hbody : (Message.suback id codes hcodes).packet.body.length = codes.length + 2 := by
      change (PublishPacket.beBytes id.toNat ++ codes).length = codes.length + 2
      rw [List.length_append, Nat.add_comm]
      rfl
    have hlong : 4 < (Message.suback id codes hcodes).packet.encode.length := by
      have hfixed := (Message.suback id codes hcodes).packet.fixed_bounds
      rw [Packet.length_encode]
      omega
    obtain ⟨hid, htype⟩ := Within.identified id codes hbuffer rfl
      (by
        change 4 ≤ mqttGetType [0x90] ∧ mqttGetType [0x90] ≤ 11
        decide)
      (by omega)
    have hcode : mqttGetType r.inBuffer = 9 := htype.trans (by decide : mqttGetType [0x90] = 9)
    have hdata : (mqttGetSubackData r.inBuffer r.inBufferReadLen).isSome = true := by
      rw [mqttGetSubackData, if_pos (by omega)]
      rfl
    unfold received
    simp only [htotal, hid, Option.bind_some, hcode, hdata]
    exact ⟨_, _, _, rfl, .told _ _ _ ⟨rfl, rfl⟩ hincoming⟩
  | pingresp =>
    obtain ⟨_, ⟨stale, hbuffer⟩, hincoming⟩ := h.whole hm hall
    have htype : mqttGetType r.inBuffer = mqttGetType [0xD0] := by
      rw [hbuffer]
      rfl
    have hcode : mqttGetType r.inBuffer = 13 := htype.trans (by decide)
    unfold received
    simp only [mqttGetId_other hcode (by decide), Option.bind_some, hcode]
    exact ⟨_, _, _, rfl, .told _ _ _ ⟨rfl, rfl⟩ hincoming⟩

end Received

/-! ## Rounds -/

/-- What the receiver holds and what is still to come are the given messages. -/
def Aligned : List Message → Receiver size → Prop
  | [], r => r.inBufferReadLen = 0 ∧ r.incoming = []
  | m :: ms, r => Within m.packet (encodeAll (ms.map Message.packet)) r ∧
    r.inBufferReadLen < extent m.packet size

/-- An empty receiver in front of messages. -/
theorem aligned_of_readLen {ms : List Message} {r : Receiver size} (hsize : 0 < size)
    (hread : r.inBufferReadLen = 0)
    (hincoming : r.incoming = encodeAll (ms.map Message.packet)) : Aligned ms r := by
  cases ms with
  | nil => exact ⟨hread, hincoming⟩
  | cons m ms =>
    have hpos : 0 < m.packet.encode.length := List.length_pos_iff.mpr m.packet.encode_ne_nil
    have hextent : 0 < extent m.packet size := by
      unfold extent
      omega
    refine ⟨⟨by omega, ?_⟩, by omega⟩
    rw [Receiver.held, hread, List.take_zero, List.nil_append, hincoming]
    rfl

/-- The bytes of the messages. -/
theorem Aligned.stream {ms : List Message} {r : Receiver size} (h : Aligned ms r) :
    r.held ++ r.incoming = encodeAll (ms.map Message.packet) := by
  cases ms with
  | nil =>
    obtain ⟨hread, hincoming⟩ := h
    rw [Receiver.held, hread, hincoming]
    rfl
  | cons m ms => exact h.1.stream

/-- What the receiving part of a round comes to. -/
inductive Arrival (ms : List Message) (r : Receiver size) (readings : List Reading) :
    Received → List DataEvent → Receiver size → Prop
  | nothing (r' : Receiver size) (h : Aligned ms r') : Arrival ms r readings .nothing [] r'
  | stalled (r' : Receiver size) (h : r'.inBufferReadLen = r.inBufferReadLen) :
      Arrival ms r readings .failure [] r'
  | failed (received : Received) (events : List DataEvent) (r' : Receiver size)
      (hreceived : received = .failure ∨ ∃ id qos, received = .publish id qos false)
      (h : Reading.failure ∈ readings) : Arrival ms r readings received events r'
  | told (m : Message) (rest : List Message) (hms : ms = m :: rest) (received : Received)
      (events : List DataEvent) (r' : Receiver size) (h : Tells m received events)
      (hrest : Aligned rest { r' with inBufferReadLen := 0 }) :
      Arrival ms r readings received events r'
  | cut (id : UInt16) (qos : Nat) (events : List DataEvent) (r' : Receiver size)
      (h : Partial events) :
      Arrival ms r readings (.publish id qos true) events r'

/-- The receiver between two streams. -/
theorem mqttMessageReceive_idle {r : Receiver size} (h : Aligned [] r)
    (hsize : 0 < size) (readings : List Reading) :
    ∃ receipt r' left, mqttMessageReceive r readings = some (receipt, r', left) ∧
      (receipt = .nothing ∧ Aligned [] r' ∨
        receipt = .failure ∧ Reading.failure ∈ readings) := by
  obtain ⟨hread, hincoming⟩ := h
  obtain ⟨n, r', hr', hspec⟩ := espTransportRead_spec (r := { r with messageLength := 0 })
    r.inBufferReadLen 1 (readings.headD .timeout) (by omega)
  rw [mqttMessageReceive_of_zero hread, hr', Option.bind_some]
  simp only [hincoming] at hspec ⊢
  cases hspec with
  | away _ hle hfailure =>
    simp only [if_pos hle]
    refine ⟨_, _, _, rfl, ?_⟩
    unfold handleTransportReadError
    by_cases hn : n = 0
    · rw [if_pos hn]
      exact .inl ⟨rfl, hread, rfl⟩
    · rw [if_neg hn]
      exact .inr ⟨rfl, failure_mem (hfailure hn)⟩
  | bytes bytes rest hne _ _ hsplit =>
    exact absurd (List.append_eq_nil_iff.mp hsplit.symm).1 hne

/-- A round reads on in the stream, and is given the next message when all of it is there. -/
theorem mqttReceive_spec {ms : List Message} {r : Receiver size} (h : Aligned ms r)
    (hsize : 10 ≤ size) (hms : ∀ m ∈ ms, Acceptable size m) (hover : ¬ Overruns r)
    (readings : List Reading) :
    ∃ received events r', mqttReceive r readings = some (received, events, r') ∧
      Arrival ms r readings received events r' := by
  unfold mqttReceive
  cases ms with
  | nil =>
    obtain ⟨receipt, r', left, hr', hresult⟩ := mqttMessageReceive_idle h (by omega) readings
    rw [hr', Option.bind_some]
    rcases hresult with ⟨rfl, halign⟩ | ⟨rfl, hfailure⟩
    · exact ⟨_, _, _, rfl, .nothing r' halign⟩
    · exact ⟨_, _, _, rfl, .failed _ _ _ (.inl rfl) hfailure⟩
  | cons m rest =>
    have hm := hms m List.mem_cons_self
    obtain ⟨result, hresult, houtcome⟩ := h.1.mqttMessageReceive hsize hm.taken h.2 hover readings
    rw [hresult, Option.bind_some]
    cases houtcome with
    | failure r' left hfailure => exact ⟨_, _, _, rfl, .failed _ _ _ (.inl rfl) hfailure⟩
    | cut receipt r' left hreceipt hwithin hlt =>
      rcases hreceipt with rfl | rfl
      · by_cases hstall : r.inBufferReadLen = r'.inBufferReadLen
        · simp only [if_pos hstall]
          exact ⟨_, _, _, rfl, .stalled r' hstall.symm⟩
        · simp only [if_neg hstall]
          exact ⟨_, _, _, rfl, .nothing r' ⟨hwithin, hlt⟩⟩
      · exact ⟨_, _, _, rfl, .nothing r' ⟨hwithin, hlt⟩⟩
    | message r' left hwithin hall htotal hleft =>
      obtain ⟨received', events, r'', hr'', hhanded⟩ :=
        Handed.of_within hwithin hm hall htotal left
      simp only [hr'']
      refine ⟨_, _, _, rfl, ?_⟩
      cases hhanded with
      | told _ _ _ htells hincoming =>
        exact .told m rest rfl _ _ _ htells (aligned_of_readLen (by omega) rfl hincoming)
      | failed id qos _ _ hfailure =>
        exact .failed _ _ _ (.inr ⟨id, qos, rfl⟩) (hleft hfailure)
      | cut id qos _ _ hpartial => exact .cut id qos _ _ hpartial

end IndustrialIot.Edge.Mqtt
