import IndustrialIot.Edge.Mqtt.Client

/-!
# What a publish does

The outcomes of a QoS 1 publish, said once: it is rejected without a trace, stored for
later, stored and written, or stored and cut off by a failed write. A publish that reports
success over a connection has written all of the packet it stored.
-/

namespace IndustrialIot.Edge.Mqtt

/-! ## The bytes of a direct transmission -/

/-- A complete write took every byte. -/
theorem espMqttWrite_of_ok {results : List Int} {len : Nat}
    (h : (espMqttWrite results len).1 = true) : (espMqttWrite results len).2 = len := by
  induction results generalizing len with
  | nil =>
    cases len with
    | zero => rfl
    | succ n => simp [espMqttWrite] at h
  | cons wlen results ih =>
    cases len with
    | zero => rfl
    | succ n =>
      rw [espMqttWrite] at h ⊢
      split
      · rename_i hneg
        simp [hneg] at h
      · rename_i hpos
        simp only [hpos, if_false] at h
        have hrest := ih h
        simp only at hrest ⊢
        omega

/-- Without an offset all bytes of a message are data. -/
theorem dataInMessage_of_offset_zero {data : List UInt8} {total : Nat}
    (hlen : data.length < 2 ^ 31) : dataInMessage ⟨data, total, 0⟩ = data.length := by
  rw [dataInMessage, UInt32.sub_zero, UInt32.toInt32_ofNat', Int32.toInt_ofNat_of_lt hlen]

/-- A completed transmission is the message in the buffer and the rest of the data. -/
theorem written_of_sending {data : Option Memory} {scripts : List (List Int)}
    {connection : Connection} {remainingLen currentData : Int} {transfer : Transfer}
    (h : sending data scripts connection remainingLen currentData = some transfer)
    (hok : transfer.ok = true) :
    ∃ rest, transfer.written = connection.outboundMessage.data ++ rest ∧
      ∀ memory, data = some memory →
        rest = memory.slice (currentData + dataInMessage connection.outboundMessage)
          (remainingLen - dataInMessage connection.outboundMessage).toNat := by
  induction scripts generalizing connection remainingLen currentData transfer with
  | nil =>
    cases h
    exact absurd hok (by simp)
  | cons results scripts ih =>
    rw [sending] at h
    simp only at h
    split at h
    · rename_i hwrite
      have hall : connection.outboundMessage.data.take
          (espMqttWrite results connection.outboundMessage.data.length).2 =
            connection.outboundMessage.data := by
        rw [espMqttWrite_of_ok hwrite, List.take_length]
      rw [hall] at h
      split at h
      · rename_i hmore
        cases data with
        | none => exact absurd h (by simp)
        | some memory =>
          obtain ⟨rest, hrest, rfl⟩ := Option.map_eq_some_iff.mp h
          obtain ⟨more, hwritten, hslice⟩ := ih hrest hok
          have hslice := hslice memory rfl
          refine ⟨rest.written, rfl, ?_⟩
          intro m hm
          cases hm
          -- The next turn sends whole bytes of data, so the rest continues where it ends.
          have hcut : min (remainingLen - dataInMessage connection.outboundMessage).toNat
              bufferLength ≤ bufferLength := Nat.min_le_right ..
          have hsmall : (memory.slice (currentData + dataInMessage connection.outboundMessage)
              (min (remainingLen - dataInMessage connection.outboundMessage).toNat
                bufferLength)).length < 2 ^ 31 := by
            rw [Memory.length_slice]
            exact Nat.lt_of_le_of_lt hcut (by decide)
          rw [dataInMessage_of_offset_zero hsmall, Memory.length_slice] at hslice
          simp only at hwritten ⊢
          rw [hwritten, hslice, ← Memory.slice_add]
          congr 1
          omega
      · rename_i hdone
        cases h
        refine ⟨[], (List.append_nil _).symm, ?_⟩
        intro memory _
        rw [Int.toNat_of_nonpos (by omega)]
        rfl
    · cases h
      exact absurd hok (by simp)

/-- A finished message, where it could be built. -/
theorem finiMessage_of_ne_nil {connection : Connection} {body : List UInt8}
    {type dup qos retain : Nat}
    (h : (finiMessage connection body type dup qos retain).outboundMessage.data ≠ []) :
    ∃ lens : List UInt8, lens.length ≤ 4 ∧
      (finiMessage connection body type dup qos retain).outboundMessage =
        { connection.outboundMessage with
          data := typeByte type dup qos retain :: lens ++ body
          fragmentedMsgDataOffset := connection.outboundMessage.fragmentedMsgDataOffset -
            UInt32.ofNat (4 - lens.length) } := by
  unfold finiMessage failMessage maxFixedHeaderSize at h ⊢
  simp only at h ⊢
  split at h
  · exact absurd rfl h
  · rename_i hlens
    rw [if_neg hlens]
    exact ⟨_, by omega, rfl⟩

/-- In a message that was cut the offset tells how much of the data is in the buffer. -/
theorem dataInMessage_cut {connection : Connection} {header : List UInt8} {memory : Memory}
    {dataLength : Nat} (hheader : header.length + maxFixedHeaderSize ≤ bufferLength)
    (hcut : bufferLength < maxFixedHeaderSize + header.length + dataLength)
    (hbuilt : (finiMessage (publishBody connection header (some memory) dataLength).1
      (publishBody connection header (some memory) dataLength).2 MsgType.publish.code 0 1
      0).outboundMessage.data ≠ []) :
    dataInMessage (finiMessage (publishBody connection header (some memory) dataLength).1
      (publishBody connection header (some memory) dataLength).2 MsgType.publish.code 0 1
      0).outboundMessage = (bufferLength - (maxFixedHeaderSize + header.length) : Nat) := by
  obtain ⟨lens, hlens, hmessage⟩ := finiMessage_of_ne_nil hbuilt
  have hsmall : bufferLength < 2 ^ 31 := by decide
  rw [hmessage, dataInMessage]
  simp only [publishBody, hcut, if_true, List.length_append, List.length_cons,
    Memory.length_slice]
  -- Both the end of the message and the offset lie the same distance before the buffer's.
  have hlength : 1 + lens.length + (header.length +
      (bufferLength - (maxFixedHeaderSize + header.length))) =
        (bufferLength - (maxFixedHeaderSize + header.length)) +
          (maxFixedHeaderSize + header.length - (4 - lens.length)) := by
    unfold maxFixedHeaderSize at *
    omega
  have hoffset : 4 - lens.length ≤ maxFixedHeaderSize + header.length := by
    unfold maxFixedHeaderSize
    omega
  rw [Nat.add_comm lens.length 1, hlength, ← UInt32.ofNat_sub hoffset, UInt32.ofNat_add,
    UInt32.add_sub_cancel, UInt32.toInt32_ofNat', Int32.toInt_ofNat_of_lt (by omega)]

/-- A PUBLISH of given data is whole, or its first fragment lies within the data. -/
theorem mqttMsgPublish_fragment {connection : Connection} {topic : List UInt8} {memory : Memory}
    {len : Nat} {random : UInt16}
    (hbuilt : (mqttMsgPublish connection topic (some memory) len 1 0
      random).1.outboundMessage.data ≠ []) :
    let message := (mqttMsgPublish connection topic (some memory) len 1 0 random).1.outboundMessage
    message.fragmentedMsgTotalLength = 0 ∨
      0 ≤ dataInMessage message ∧ dataInMessage message ≤ len := by
  unfold mqttMsgPublish at hbuilt ⊢
  cases hheader : publishHeader topic (some memory) len 1 random with
  | none => simp [hheader, failMessage] at hbuilt
  | some made =>
    obtain ⟨header, messageId⟩ := made
    obtain ⟨hshape, hlength, _⟩ := publishHeader_eq_some hheader
    simp only [hheader] at hbuilt ⊢
    by_cases hcut : bufferLength < maxFixedHeaderSize + header.length + len
    · right
      rw [dataInMessage_cut (by unfold maxFixedHeaderSize; omega) hcut hbuilt]
      omega
    · left
      obtain ⟨_, _, hmessage⟩ := finiMessage_of_ne_nil hbuilt
      rw [hmessage]
      simp only [publishBody, hcut, if_false]

/-- A publish never copies memory beyond the data it was given. -/
theorem enqueuePublish_isSome (c : Client) (topic : List UInt8) (memory : Memory)
    (len record : Nat) (random : UInt16) (alloc : Bool) :
    (mqttClientEnqueuePublish c topic (some memory) len 1 0 false record random alloc).isSome =
      true := by
  unfold mqttClientEnqueuePublish makePublish
  by_cases hnil : (mqttMsgPublish c.connection topic (some memory) len 1 0
      random).1.outboundMessage.data = []
  · simp only [hnil, if_true]
    rfl
  · simp only [hnil, if_false, Nat.one_pos, true_or, if_true]
    split
    · split <;> rfl
    · rename_i htotal
      have hwithin := (mqttMsgPublish_fragment hnil).resolve_left htotal
      have hremaining : remainingData (some memory) len (dataInMessage (mqttMsgPublish c.connection
          topic (some memory) len 1 0 random).1.outboundMessage) ≠ none := by
        simp [remainingData, hwithin]
      rw [if_neg fun h => hremaining h.2]
      split <;> rfl

/-! ## The outcomes of storing -/

/-- What the buffer and the data make up the stored packet of. -/
def Carries (message : OutboundMessage) (data : Option Memory) (len : Nat)
    (buffer : List UInt8) : Prop :=
  buffer = message.data ∨
    ∃ memory, data = some memory ∧ 0 ≤ dataInMessage message ∧ dataInMessage message ≤ len ∧
      buffer = message.data ++
        memory.slice (dataInMessage message) (len - dataInMessage message).toNat

/-- The item that a publish stores. -/
def publishItem (buffer : List UInt8) (random : UInt16) (record tick : Nat) : OutboxItem where
  buffer := buffer
  msgId := random
  msgType := MsgType.publish.code
  msgQos := 1
  tick := tick
  pending := .queued
  record := record

/-- The client with a new message in its connection. -/
def Client.withMessage (c : Client) (connection : Connection) (msgId : UInt16)
    (type qos : Nat) : Client :=
  { c with
    connection := connection
    pendingMsgId := msgId
    pendingMsgType := type
    pendingPublishQos := qos }

/-- The client with a new item at the end of its outbox. -/
def Client.store (c : Client) (item : OutboxItem) : Client :=
  { c with
    outbox := c.outbox ++ [item]
    journal := { c.journal with stored := c.journal.stored ++ [item.record] } }

@[simp] theorem mqttEnqueue_false (c : Client) (remaining : List UInt8) (record : Nat) :
    mqttEnqueue c remaining record false = none := rfl

/-- The data behind the first fragment is a part of the payload. -/
theorem carries_of_remainingData {message : OutboundMessage} {data : Option Memory} {len : Nat}
    {remaining : List UInt8} (h : remainingData data len (dataInMessage message) = some remaining) :
    Carries message data len (message.data ++ remaining) := by
  cases data with
  | none =>
    obtain ⟨_, h⟩ := Option.ite_none_right_eq_some.mp h
    cases h
    exact Or.inl (List.append_nil _)
  | some memory =>
    obtain ⟨⟨hlow, hhigh⟩, h⟩ := Option.ite_none_right_eq_some.mp h
    cases h
    exact Or.inr ⟨memory, rfl, hlow, hhigh, rfl⟩

/-- A QoS 1 message is stored with the drawn id, or nothing is. -/
theorem enqueuePublish_cases {c c' : Client} {topic : List UInt8} {data : Option Memory}
    {len record : Nat} {random : UInt16} {alloc : Bool} {made : Option UInt16}
    (h : mqttClientEnqueuePublish c topic data len 1 0 false record random alloc =
      some (c', made)) :
    (made = none ∧ (¬ PublishFits c.connection topic data len ∨ alloc = false) ∧
      ∃ connection msgId type qos, c' = c.withMessage connection msgId type qos) ∨
    (made = some random ∧ PublishFits c.connection topic data len ∧ alloc = true ∧
      ∃ connection buffer, Carries connection.outboundMessage data len buffer ∧
        c' = (c.withMessage connection random MsgType.publish.code 1).store
          (publishItem buffer random record c.now)) := by
  rcases mqttMsgPublish_cases c.connection topic data len random with
    ⟨hfits, hnil⟩ | ⟨hfits, hbuilt, htype, hid⟩
  · simp only [mqttClientEnqueuePublish, makePublish, hnil, if_true, Option.some.injEq,
      Prod.mk.injEq] at h
    obtain ⟨rfl, rfl⟩ := h
    exact Or.inl ⟨rfl, Or.inl hfits, _, _, _, _, rfl⟩
  · simp only [mqttClientEnqueuePublish, makePublish, hbuilt, if_false, hid, Nat.one_pos,
      true_or, if_true, htype] at h
    generalize (mqttMsgPublish c.connection topic data len 1 0 random).1 = connection at h
    cases alloc with
    | false =>
      have hnone : made = none ∧
          c' = c.withMessage connection random MsgType.publish.code 1 := by
        simp only [mqttEnqueue_false] at h
        split at h <;> simp_all [Client.withMessage]
      exact Or.inl ⟨hnone.1, Or.inr rfl, _, _, _, _, hnone.2⟩
    | true =>
      split at h
      · cases h
        exact Or.inr ⟨rfl, hfits, rfl, connection, _, Or.inl (List.append_nil _), rfl⟩
      · split at h
        · exact absurd h (by simp)
        · rename_i hsome
          obtain ⟨remaining, hremaining⟩ := Option.ne_none_iff_exists'.mp
            fun hnone => hsome ⟨rfl, hnone⟩
          rw [hremaining] at h
          cases h
          exact Or.inr ⟨rfl, hfits, rfl,
            (c.withMessage connection random 0 0).clearTotal.connection, _,
            carries_of_remainingData hremaining, rfl⟩

/-! ## The outcomes of a publish -/

/-- The client right after a publish has stored its item. -/
def Client.storePublish (c : Client) (connection : Connection) (buffer : List UInt8)
    (record : Nat) (input : PublishInput) : Client :=
  (c.withMessage connection input.random MsgType.publish.code 1).store
    (publishItem buffer input.random record c.now)

/-- The client after the direct transmission, of a whole packet or not. -/
def Client.afterSending (c : Client) (whole : Bool) (record : Nat) (input : PublishInput) :
    Client :=
  { c.advance input.elapsed with
    journal := if whole then c.journal.transmit input.random record else c.journal }

/-- The client after the outbox has noted the transmission. -/
def Client.markTransmitted (c : Client) (msgId : UInt16) : Client :=
  { c with outbox := outboxSetPending (outboxSetTick c.outbox msgId c.now) msgId .transmitted }

/-- What a QoS 1 publish leaves behind and returns. -/
inductive Published (c : Client) (fits : Prop) (record : Nat) (input : PublishInput) :
    Client → Option UInt16 → Prop where
  | rejected (hrejected : ¬ (fits ∧ input.alloc = true)) (connection : Connection)
      (msgId : UInt16) (type qos : Nat) :
      Published c fits record input (c.withMessage connection msgId type qos) none
  | offline (hstored : fits ∧ input.alloc = true) (hstate : c.state ≠ .connected)
      (connection : Connection) (buffer : List UInt8) :
      Published c fits record input (c.storePublish connection buffer record input)
        (some input.random)
  | cutOff (hstored : fits ∧ input.alloc = true) (hstate : c.state = .connected)
      (connection : Connection) (buffer : List UInt8) (whole : Bool) :
      Published c fits record input
        (espMqttAbortConnection
          ((c.storePublish connection buffer record input).afterSending whole record input)) none
  | sent (hstored : fits ∧ input.alloc = true) (hstate : c.state = .connected)
      (connection : Connection) (buffer : List UInt8) :
      Published c fits record input
        (((c.storePublish connection buffer record input).afterSending true record
          input).markTransmitted input.random) (some input.random)

/-- The journal note of a transmission of the item just stored. -/
theorem noteSending_storePublish (c : Client) (connection connection' : Connection)
    (buffer : List UInt8) (record : Nat) (input : PublishInput) (written : List UInt8) :
    Client.noteSending (Client.advance
        { c.storePublish connection buffer record input with connection := connection' }
        input.elapsed) written =
      (c.storePublish connection' buffer record input).afterSending
        (decide (buffer <+: written)) record input := by
  have hlast : (c.outbox ++ [publishItem buffer input.random record c.now]).getLast? =
      some (publishItem buffer input.random record c.now) := by simp
  unfold Client.noteSending
  simp only [Client.advance, Client.storePublish, Client.store, Client.withMessage, hlast]
  by_cases hwhole : buffer <+: written
  · simp [publishItem, hwhole, Client.afterSending, Client.advance]
  · simp [publishItem, hwhole, Client.afterSending, Client.advance]

/-- A completed transmission contains the packet that was stored. -/
theorem prefix_of_sending {connection : Connection} {data : Option Memory} {len : Nat}
    {buffer : List UInt8} {scripts : List (List Int)} {transfer : Transfer}
    (hcarries : Carries connection.outboundMessage data len buffer)
    (h : sending data scripts connection len 0 = some transfer) (hok : transfer.ok = true) :
    buffer <+: transfer.written := by
  obtain ⟨rest, hwritten, hrest⟩ := written_of_sending h hok
  rcases hcarries with rfl | ⟨memory, hmemory, _, _, rfl⟩
  · exact ⟨rest, hwritten.symm⟩
  · have hwhole := hrest memory hmemory
    rw [Int.zero_add] at hwhole
    exact ⟨[], by rw [List.append_nil, hwritten, hwhole]⟩

/-- Every QoS 1 publish has one of the four outcomes. -/
theorem published {c c' : Client} {topic : List UInt8} {data : Option Memory} {len record : Nat}
    {input : PublishInput} {result : Option UInt16}
    (h : espMqttClientPublish c topic data len 1 0 record input = some (c', result)) :
    Published c (PublishFits c.connection topic data (payloadLength data len)) record input
      c' result := by
  unfold espMqttClientPublish at h
  simp only at h
  cases henqueue : mqttClientEnqueuePublish c topic data (payloadLength data len) 1 0 false record
      input.random input.alloc with
  | none => simp [henqueue] at h
  | some stored =>
    obtain ⟨d, made⟩ := stored
    rcases enqueuePublish_cases henqueue with ⟨rfl, hwhy, connection, msgId, type, qos, rfl⟩ |
      ⟨rfl, hfits, halloc, connection, buffer, hcarries, rfl⟩
    · simp only [henqueue, Option.some.injEq, Prod.mk.injEq] at h
      obtain ⟨rfl, rfl⟩ := h
      refine .rejected ?_ connection msgId type qos
      intro hstored
      rcases hwhy with hwhy | hwhy
      · exact hwhy hstored.1
      · exact absurd hstored.2 (by simp [hwhy])
    · simp only [henqueue] at h
      change (if c.state ≠ .connected then _ else _) = _ at h
      split at h
      · rename_i hstate
        cases h
        exact .offline ⟨hfits, halloc⟩ hstate
          (c.withMessage connection 0 0 0).clearTotal.connection buffer
      · rename_i hstate
        obtain ⟨transfer, hsending, htransfer⟩ := Option.map_eq_some_iff.mp h
        simp only [Nat.one_pos, if_true] at htransfer
        have hnote := noteSending_storePublish c connection transfer.connection buffer record input
          transfer.written
        simp only [Client.storePublish] at hnote
        rw [hnote] at htransfer
        by_cases hok : transfer.ok = true
        · rw [if_pos hok, decide_eq_true (prefix_of_sending hcarries hsending hok)] at htransfer
          cases htransfer
          exact .sent ⟨hfits, halloc⟩ (not_not.mp hstate) transfer.connection buffer
        · rw [if_neg hok] at htransfer
          cases htransfer
          exact .cutOff ⟨hfits, halloc⟩ (not_not.mp hstate)
            (c.withMessage transfer.connection 0 0 0).clearTotal.connection buffer _

end IndustrialIot.Edge.Mqtt
