import IndustrialIot.Edge.Mqtt.Message
import IndustrialIot.Edge.Mqtt.Outbox

/-!
# The MQTT client

The state of `mqtt_client.c` under the configuration of the node, and the pieces of code
that run under the client's API lock: a publish, and one round of the MQTT task. What the
transport, the allocator, the clock and the broker do is input. Every call of
`esp_mqtt_write` gets the list of results of its transport writes; past the end of the list
the transport times out.

The journal records what an observer of the line and of the outbox would see. It is not read
by the code.
-/

namespace IndustrialIot.Edge.Mqtt

open StoreForward (Expiry)

/-- `mqtt_client_state_t` -/
inductive ClientState where
  | init
  | disconnected
  | connected
  | waitReconnect
  deriving DecidableEq, Repr

/-- What was seen on the line and at the outbox, by record. -/
structure Journal where
  /-- The records stored in the outbox. -/
  stored : List Nat
  /-- The records whose packet was completely written, once for each time. -/
  sent : List Nat
  /-- The packets the broker has on this connection and has not answered. -/
  onWire : List (UInt16 × Nat)
  /-- The records of the packets the broker answered with PUBACK. -/
  acked : List Nat
  expired : List Expiry
  /-- The records deleted when the task ended. -/
  wiped : List Nat
  /-- The records deleted by a reply that did not answer a packet with that record. -/
  misanswered : List Nat
  deriving DecidableEq, Repr

/-- `esp_mqtt_client`, the flag of its manager and the local of its task. -/
structure Client where
  /-- `platform_tick_get_ms()` -/
  now : Nat
  state : ClientState
  run : Bool
  connection : Connection
  pendingMsgId : UInt16
  pendingMsgType : Nat
  pendingPublishQos : Nat
  outbox : Outbox
  keepaliveTick : Nat
  reconnectTick : Nat
  waitTimeoutMs : Nat
  waitForPingResp : Bool
  /-- `last_retransmit` of `esp_mqtt_task`. -/
  lastRetransmit : Nat
  /-- `MqttManager::is_connected_`, which the event handler sets within the dispatch. -/
  isConnected : Bool
  journal : Journal
  deriving DecidableEq, Repr

/-- `OUTBOX_EXPIRED_TIMEOUT_MS` -/
def outboxExpiredTimeoutMs : Nat := 30 * 1000

/-- `MQTT_DEFAULT_RETRANSMIT_TIMEOUT_MS` -/
def messageRetransmitTimeout : Nat := 1000

/-- `MQTT_RECON_DEFAULT_MS` -/
def reconnectTimeoutMs : Nat := 10 * 1000

/-- `has_timed_out` -/
def hasTimedOut (now lastTick timeout : Nat) : Bool := decide (lastTick + timeout ≤ now)

/-- `esp_mqtt_write`: whether everything was written, and how many bytes were. -/
def espMqttWrite : List Int → Nat → Bool × Nat
  | _, 0 => (true, 0)
  | [], _ + 1 => (false, 0)
  | wlen :: results, len + 1 =>
    if wlen ≤ 0 then (false, 0)
    else
      let (ok, more) := espMqttWrite results (len + 1 - wlen.toNat)
      (ok, min wlen.toNat (len + 1) + more)

/-- `esp_mqtt_abort_connection`, with the handling of the event it dispatches. -/
def espMqttAbortConnection (c : Client) : Client :=
  { c with
    waitTimeoutMs := reconnectTimeoutMs
    reconnectTick := c.now
    state := .waitReconnect
    waitForPingResp := false
    isConnected := false }

/-- Let time pass. -/
def Client.advance (c : Client) (ms : Nat) : Client := { c with now := c.now + ms }

/-! ## Publishing -/

/-- `mqtt_enqueue` -/
def mqttEnqueue (c : Client) (remaining : List UInt8) (record : Nat) (alloc : Bool) :
    Option Client :=
  let message : OutboxMessage := {
    data := c.connection.outboundMessage.data
    msgId := c.pendingMsgId
    msgQos := c.pendingPublishQos
    msgType := c.pendingMsgType
    remaining := remaining
    record := record }
  (outboxEnqueue c.outbox message c.now alloc).map fun outbox =>
    { c with outbox := outbox
             journal := { c.journal with stored := c.journal.stored ++ [record] } }

/-- `make_publish`. No id stands for -1. -/
def makePublish (c : Client) (topic : List UInt8) (data : Option Memory) (len qos retain : Nat)
    (random : UInt16) : Client × Option UInt16 :=
  let (connection, messageId) := mqttMsgPublish c.connection topic data len qos retain random
  ({ c with connection := connection },
    if connection.outboundMessage.data = [] then none else some messageId)

/-- `length - fragmented_msg_data_offset`, a `size_t` difference kept in an `int`. -/
def dataInMessage (message : OutboundMessage) : Int :=
  (UInt32.ofNat message.data.length - message.fragmentedMsgDataOffset).toInt32.toInt

/-- The `remaining_data` that `outbox_enqueue` copies; none when it lies outside the data. -/
def remainingData (data : Option Memory) (len : Nat) (firstFragment : Int) :
    Option (List UInt8) :=
  match data with
  | some memory =>
    if 0 ≤ firstFragment ∧ firstFragment ≤ len then
      some (memory.slice firstFragment (len - firstFragment).toNat)
    else none
  | none => if firstFragment = 0 then some [] else none

/-- `fragmented_msg_total_length = 0` -/
def Client.clearTotal (c : Client) : Client :=
  { c with connection := { c.connection with outboundMessage :=
    { c.connection.outboundMessage with fragmentedMsgTotalLength := 0 } } }

/-- `mqtt_client_enqueue_publish`. No id stands for -1, and no result for a copy of memory
that the call does not own. -/
def mqttClientEnqueuePublish (c : Client) (topic : List UInt8) (data : Option Memory)
    (len qos retain : Nat) (store : Bool) (record : Nat) (random : UInt16) (alloc : Bool) :
    Option (Client × Option UInt16) :=
  let (c, made) := makePublish c topic data len qos retain random
  match made with
  | none => some (c, none)
  | some pendingMsgId =>
    if 0 < qos ∨ store then
      let message := c.connection.outboundMessage
      let c := { c with
        pendingMsgType := mqttGetType message.data
        pendingMsgId := pendingMsgId
        pendingPublishQos := qos }
      if message.fragmentedMsgTotalLength = 0 then
        match mqttEnqueue c [] record alloc with
        | none => some (c, none)
        | some c => some (c, some pendingMsgId)
      else
        let remaining := remainingData data len (dataInMessage message)
        if alloc ∧ remaining = none then none
        else match mqttEnqueue c (remaining.getD []) record alloc with
        | none => some (c, none)
        | some c => some (c.clearTotal, some pendingMsgId)
    else some (c, some pendingMsgId)

/-- What the sending loop did. -/
structure Transfer where
  ok : Bool
  /-- The bytes the transport took. -/
  written : List UInt8
  connection : Connection
  deriving DecidableEq, Repr

/-- The sending loop of `esp_mqtt_client_publish`, a list of transport results for each turn.
No result stands for a copy from the null pointer. -/
def sending (data : Option Memory) : List (List Int) → Connection → Int → Int → Option Transfer
  | [], connection, _, _ => some ⟨false, [], connection⟩
  | results :: scripts, connection, remainingLen, currentData =>
    let message := connection.outboundMessage
    let (ok, count) := espMqttWrite results message.data.length
    let written := message.data.take count
    if ok then
      let dataSent := dataInMessage message
      let remainingLen := remainingLen - dataSent
      let currentData := currentData + dataSent
      let message := { message with fragmentedMsgDataOffset := 0, fragmentedMsgTotalLength := 0 }
      if 0 < remainingLen then
        match data with
        | none => none
        | some memory =>
          let writeLen := min remainingLen.toNat bufferLength
          let message := { message with data := memory.slice currentData writeLen }
          (sending data scripts { connection with outboundMessage := message } remainingLen
            currentData).map fun rest => { rest with written := written ++ rest.written }
      else some ⟨true, written, { connection with outboundMessage := message }⟩
    else some ⟨false, written, connection⟩

/-- What the outside decides about one publish. -/
structure PublishInput where
  /-- The first random message id that is not zero. -/
  random : UInt16
  alloc : Bool
  writes : List (List Int)
  /-- How long the sending takes. -/
  elapsed : Nat
  deriving DecidableEq, Repr

/-- A packet with an id and a record was completely written. -/
def Journal.transmit (j : Journal) (msgId : UInt16) (record : Nat) : Journal :=
  { j with sent := j.sent ++ [record], onWire := j.onWire ++ [(msgId, record)] }

/-- Note the direct transmission of the item stored last, when all of it was written. -/
def Client.noteSending (c : Client) (written : List UInt8) : Client :=
  match c.outbox.getLast? with
  | none => c
  | some item =>
    if item.buffer <+: written then { c with journal := c.journal.transmit item.msgId item.record }
    else c

/-- The length a publish works with: that of the C string where none is given. -/
def payloadLength (data : Option Memory) (len : Nat) : Nat :=
  match data with
  | some memory => if len = 0 then memory.strlen else len
  | none => len

/-- `esp_mqtt_client_publish`. No id stands for -1. The outbox has no limit. -/
def espMqttClientPublish (c : Client) (topic : List UInt8) (data : Option Memory)
    (len qos retain record : Nat) (input : PublishInput) : Option (Client × Option UInt16) :=
  let len := payloadLength data len
  match mqttClientEnqueuePublish c topic data len qos retain false record input.random
      input.alloc with
  | none => none
  | some (c, none) => some (c, none)
  | some (c, some pendingMsgId) =>
    if c.state ≠ .connected then
      some (c.clearTotal, if 0 < qos then some pendingMsgId else none)
    else
      (sending data input.writes c.connection len 0).map fun transfer =>
        let c := { c with connection := transfer.connection }.advance input.elapsed
        let c := if 0 < qos then c.noteSending transfer.written else c
        if transfer.ok then
          let outbox := outboxSetPending (outboxSetTick c.outbox pendingMsgId c.now) pendingMsgId
            .transmitted
          (if 0 < qos then { c with outbox := outbox } else c, some pendingMsgId)
        else ((espMqttAbortConnection c).clearTotal, none)

/-! ## The MQTT task -/

/-- What one attempt to receive yields. -/
inductive Received where
  | nothing
  | failure
  | suback (msgId : UInt16) (delivered : Bool)
  | unsuback (msgId : UInt16)
  | publish (msgId : UInt16) (qos : Nat) (delivered : Bool)
  | puback (msgId : UInt16)
  | pubrec (msgId : UInt16)
  | pubrel (msgId : UInt16)
  | pubcomp (msgId : UInt16)
  | pingresp
  | other
  deriving DecidableEq, Repr

/-- What the outside decides about one round of the task. -/
structure RoundInput where
  /-- Whether a transport could be created. -/
  transportCreated : Bool
  transportConnected : Bool
  connectWrites : List Int
  /-- Whether the broker accepted the connection in time. -/
  connack : Bool
  connectTime : Nat
  received : Received
  receiveTime : Nat
  /-- A random message id, should a reply have to be given one. -/
  random : UInt16
  replyWrites : List Int
  resendWrites : List Int
  resendTime : Nat
  pubrelWrites : List Int
  pingWrites : List Int
  deriving DecidableEq, Repr

/-- `mqtt_delete_expired_messages` -/
def mqttDeleteExpiredMessages (c : Client) : Client :=
  let expired := (outboxExpired c.outbox c.now outboxExpiredTimeoutMs).map
    fun item => (⟨item.record, item.tick, c.now⟩ : Expiry)
  { c with
    outbox := outboxDeleteExpired c.outbox c.now outboxExpiredTimeoutMs
    journal := { c.journal with expired := c.journal.expired ++ expired } }

/-- Write the message the connection holds. -/
def Client.write (c : Client) (results : List Int) : Bool :=
  (espMqttWrite results c.connection.outboundMessage.data.length).1

/-- `esp_mqtt_connect`. A CONNECT message carries no id. -/
def espMqttConnect (c : Client) (input : RoundInput) : Bool × Client :=
  let c := { c with waitForPingResp := false, connection := mqttMsgConnect c.connection }
  let message := c.connection.outboundMessage
  if message.data = [] then (false, c)
  else
    let c := { c with pendingMsgType := mqttGetType message.data, pendingMsgId := 0 }
    (c.write input.connectWrites && input.connack, c)

/-- `remove_initiator_message` -/
def removeInitiatorMessage (c : Client) (type : MsgType) (msgId : UInt16) : Bool × Client :=
  let (found, outbox) := outboxDelete c.outbox msgId type.code
  (found, { c with outbox := outbox })

/-- Note a PUBACK: the first packet with its id that waits for an answer has one. -/
def Client.noteAnswer (c : Client) (msgId : UInt16) : Client :=
  let answered := StoreForward.answered msgId c.journal.onWire
  let matched := StoreForward.matched msgId c.outbox.entries
  { c with journal := { c.journal with
    onWire := c.journal.onWire.eraseP (fun w => decide (w.1 = msgId))
    acked := c.journal.acked ++ answered.toList
    misanswered := c.journal.misanswered ++
      if matched = answered then [] else matched.toList } }

/-- Note a PUBCOMP, which answers no packet of the node. -/
def Client.noteCompletion (c : Client) (msgId : UInt16) : Client :=
  { c with journal := { c.journal with
    misanswered := c.journal.misanswered ++
      (StoreForward.matched msgId c.outbox.entries).toList } }

/-- Send a reply; a failed write matters only where it is `checked`. -/
def Client.reply (c : Client) (build : Connection → UInt16 → UInt16 → Connection)
    (msgId : UInt16) (checked : Bool) (input : RoundInput) : Bool × Client :=
  let c := { c with connection := build c.connection msgId input.random }
  if c.connection.outboundMessage.data = [] then (false, c)
  else (!checked || c.write input.replyWrites, c)

/-- `mqtt_process_receive` -/
def mqttProcessReceive (c : Client) (input : RoundInput) : Bool × Client :=
  match input.received with
  | .nothing | .other => (true, c)
  | .failure => (false, c)
  | .suback msgId delivered =>
    let (found, c) := removeInitiatorMessage c .subscribe msgId
    (!found || delivered, c)
  | .unsuback msgId => (true, (removeInitiatorMessage c .unsubscribe msgId).2)
  | .publish msgId qos delivered =>
    if delivered then
      if qos = 1 then c.reply mqttMsgPuback msgId true input
      else if qos = 2 then c.reply mqttMsgPubrec msgId true input
      else (true, c)
    else (false, c)
  | .puback msgId => (true, (removeInitiatorMessage (c.noteAnswer msgId) .publish msgId).2)
  | .pubrec msgId =>
    let (ok, c) := c.reply mqttMsgPubrel msgId false input
    (ok, if ok then { c with outbox := outboxSetPending c.outbox msgId .acknowledged } else c)
  | .pubrel msgId => c.reply mqttMsgPubcomp msgId false input
  | .pubcomp msgId => (true, (removeInitiatorMessage (c.noteCompletion msgId) .publish msgId).2)
  | .pingresp => (true, { c with waitForPingResp := false, keepaliveTick := c.now })

/-- `mqtt_resend_queued`, for the item behind a handle. -/
def mqttResendQueued (c : Client) (item : OutboxItem) (handle : Nat) (input : RoundInput) :
    Bool × Client :=
  let duplicate := item.msgType = MsgType.publish.code ∧ 0 < item.msgQos ∧
    item.pending = .transmitted
  let buffer := if duplicate then mqttSetDup item.buffer else item.buffer
  let marked := c.outbox.modify handle fun item => { item with buffer := mqttSetDup item.buffer }
  let c := { c with
    pendingMsgId := item.msgId
    pendingMsgType := item.msgType
    pendingPublishQos := item.msgQos
    outbox := if duplicate then marked else c.outbox
    connection := { c.connection with
      outboundMessage := { c.connection.outboundMessage with data := buffer } } }
  let ok := c.write input.resendWrites
  let c := c.advance input.resendTime
  if ok then (true, { c with journal := c.journal.transmit item.msgId item.record })
  else (false, espMqttAbortConnection c)

/-- `mqtt_resend_pubrel` -/
def mqttResendPubrel (c : Client) (item : OutboxItem) (input : RoundInput) : Bool × Client :=
  let c := { c with
    pendingMsgId := item.msgId
    pendingMsgType := item.msgType
    pendingPublishQos := item.msgQos
    connection := mqttMsgPubrel c.connection item.msgId input.random }
  if c.connection.outboundMessage.data = [] then (false, c)
  else if c.write input.pubrelWrites then (true, c)
  else (false, espMqttAbortConnection c)

/-- Resend the first queued item, and mark the first item with its id. -/
def resendFirstQueued (c : Client) (item : OutboxItem) (handle : Nat) (input : RoundInput) :
    Client :=
  let (ok, c) := mqttResendQueued c item handle input
  if ok then
    let c := if c.pendingMsgType = MsgType.publish.code ∧ c.pendingPublishQos = 0 then
      { c with outbox := outboxDeleteItem c.outbox handle } else c
    if 0 < c.pendingPublishQos then
      { c with outbox := outboxSetPending c.outbox c.pendingMsgId .transmitted }
    else c
  else c

/-- Resend the first transmitted item, if it is due. -/
def retransmitFirst (c : Client) (input : RoundInput) : Client :=
  match outboxDequeue c.outbox .transmitted with
  | some (item, handle) =>
    if messageRetransmitTimeout < c.lastRetransmit - item.tick then
      (mqttResendQueued c item handle input).2
    else c
  | none => c

/-- Resend the PUBREL of the first acknowledged item, if it is due. -/
def retransmitPubrel (c : Client) (input : RoundInput) : Client :=
  match outboxDequeue c.outbox .acknowledged with
  | some (item, _) =>
    if messageRetransmitTimeout < c.lastRetransmit - item.tick then
      (mqttResendPubrel c item input).2
    else c
  | none => c

/-- The part of the connected state that sends from the outbox. -/
def resend (c : Client) (input : RoundInput) : Client :=
  match outboxDequeue c.outbox .queued with
  | some (item, handle) => resendFirstQueued c item handle input
  | none =>
    if hasTimedOut c.now c.lastRetransmit messageRetransmitTimeout then
      retransmitPubrel (retransmitFirst { c with lastRetransmit := c.now } input) input
    else c

/-- `process_keepalive`, with `esp_mqtt_client_ping`. -/
def processKeepalive (c : Client) (input : RoundInput) : Client :=
  let keepaliveMs := c.connection.information.keepalive * 1000
  if c.connection.information.keepalive = 0 then c
  else if c.waitForPingResp then
    if hasTimedOut c.now c.keepaliveTick keepaliveMs then espMqttAbortConnection c else c
  else if hasTimedOut c.now c.keepaliveTick (keepaliveMs / 2) then
    let c := { c with connection := mqttMsgPingreq c.connection }
    if c.connection.outboundMessage.data ≠ [] ∧ c.write input.pingWrites then
      { c with waitForPingResp := true }
    else espMqttAbortConnection c
  else c

/-- `MQTT_STATE_INIT`: connect, or end the task when there is no transport. -/
def initRound (c : Client) (input : RoundInput) : Client :=
  if input.transportCreated then
    let c := c.advance input.connectTime
    if input.transportConnected then
      let (ok, c) := espMqttConnect c input
      if ok then
        { c with
          state := .connected
          isConnected := true
          keepaliveTick := c.now
          journal := { c.journal with onWire := [] } }
      else espMqttAbortConnection c
    else espMqttAbortConnection c
  else { c with run := false }

/-- `MQTT_STATE_CONNECTED`. Nobody asks for a disconnect, and the connection is not refreshed. -/
def connectedRound (c : Client) (input : RoundInput) : Client :=
  let (ok, c) := mqttProcessReceive (c.advance input.receiveTime) input
  if ok then
    let c := if c.lastRetransmit = 0 then { c with lastRetransmit := c.now } else c
    processKeepalive (resend c input) input
  else espMqttAbortConnection c

/-- One round of the loop of `esp_mqtt_task`, and whether it goes on to the poll. -/
def espMqttTaskRound (c : Client) (input : RoundInput) : Client × Bool :=
  let c := mqttDeleteExpiredMessages c
  match c.state with
  | .disconnected => (c, true)
  | .init => (initRound c input, true)
  | .connected => (connectedRound c input, true)
  | .waitReconnect =>
    if c.waitTimeoutMs < c.now - c.reconnectTick then
      ({ c with state := .init, reconnectTick := c.now }, true)
    else (c, false)

/-- What `esp_mqtt_task` does after its loop. -/
def espMqttTaskExit (c : Client) : Client :=
  { c with
    outbox := []
    state := .disconnected
    journal := { c.journal with wiped := c.journal.wiped ++ c.outbox.records } }

end IndustrialIot.Edge.Mqtt
