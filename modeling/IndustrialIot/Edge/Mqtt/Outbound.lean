import IndustrialIot.Core.ControlPacket
import IndustrialIot.Edge.Mqtt.Connect
import IndustrialIot.Edge.Mqtt.Moves

/-!
# The writes of a round

What a round of the task hands to `esp_mqtt_write`, in the order of the calls: the CONNECT, or a
reply, a resent packet and a ping. Each of them is one whole packet. A failed write ends the
connection; only for PUBREL and PUBCOMP nobody looks at the result.
-/

namespace IndustrialIot.Edge.Mqtt

open ControlPacket (Packet AckType encodeAll)
open PublishPacket (beBytes)

/-! ## Writes -/

/-- A call of `esp_mqtt_write`. -/
structure Attempt where
  data : List UInt8
  results : List Int
  /-- Whether the caller looks at the result. -/
  checked : Bool
  deriving DecidableEq, Repr

def Attempt.ok (a : Attempt) : Bool := (espMqttWrite a.results a.data.length).1

/-- The bytes that the transport takes. -/
def Attempt.taken (a : Attempt) : List UInt8 :=
  a.data.take (espMqttWrite a.results a.data.length).2

/-- The bytes of writes one after the other. The transport is closed after a failure that is
noticed. -/
def onLine : List Attempt → List UInt8
  | [] => []
  | a :: attempts => a.taken ++ if a.ok || !a.checked then onLine attempts else []

/-- The write of the message that the connection holds, if there is one. -/
def Client.attempt (c : Client) (results : List Int) (checked : Bool) : List Attempt :=
  if c.connection.outboundMessage.data = [] then []
  else [⟨c.connection.outboundMessage.data, results, checked⟩]

/-! ## The writes of a round -/

/-- The write of `esp_mqtt_connect`. -/
def connectAttempts (c : Client) (input : RoundInput) : List Attempt :=
  if input.transportCreated = true ∧ input.transportConnected = true then
    ({ c with connection := mqttMsgConnect c.connection } : Client).attempt input.connectWrites true
  else []

/-- The write of a reply. -/
def replyAttempts (c : Client) (build : Connection → UInt16 → UInt16 → Connection)
    (msgId : UInt16) (checked : Bool) (input : RoundInput) : List Attempt :=
  ({ c with connection := build c.connection msgId input.random } : Client).attempt
    input.replyWrites checked

/-- The writes of `mqtt_process_receive`. -/
def receiveAttempts (c : Client) (input : RoundInput) : List Attempt :=
  match input.received with
  | .publish msgId qos delivered =>
    if delivered then
      if qos = 1 then replyAttempts c mqttMsgPuback msgId true input
      else if qos = 2 then replyAttempts c mqttMsgPubrec msgId true input
      else []
    else []
  | .pubrec msgId => replyAttempts c mqttMsgPubrel msgId false input
  | .pubrel msgId => replyAttempts c mqttMsgPubcomp msgId false input
  | _ => []

/-- The write of `mqtt_resend_queued`. -/
def queuedAttempt (item : OutboxItem) (input : RoundInput) : Attempt where
  data :=
    if item.msgType = MsgType.publish.code ∧ 0 < item.msgQos ∧ item.pending = .transmitted then
      mqttSetDup item.buffer
    else item.buffer
  results := input.resendWrites
  checked := true

/-- The write for the first transmitted item. -/
def retransmitAttempts (c : Client) (input : RoundInput) : List Attempt :=
  match outboxDequeue c.outbox .transmitted with
  | some (item, _) =>
    if messageRetransmitTimeout < c.lastRetransmit - item.tick then [queuedAttempt item input]
    else []
  | none => []

/-- The write for the first acknowledged item. -/
def pubrelAttempts (c : Client) (input : RoundInput) : List Attempt :=
  match outboxDequeue c.outbox .acknowledged with
  | some (item, _) =>
    if messageRetransmitTimeout < c.lastRetransmit - item.tick then
      ({ c with connection := mqttMsgPubrel c.connection item.msgId input.random } : Client).attempt
        input.pubrelWrites true
    else []
  | none => []

/-- The writes that send from the outbox. -/
def resendAttempts (c : Client) (input : RoundInput) : List Attempt :=
  match outboxDequeue c.outbox .queued with
  | some (item, _) => [queuedAttempt item input]
  | none =>
    if hasTimedOut c.now c.lastRetransmit messageRetransmitTimeout then
      let c := { c with lastRetransmit := c.now }
      retransmitAttempts c input ++ pubrelAttempts (retransmitFirst c input) input
    else []

/-- The write of `process_keepalive`. -/
def keepaliveAttempts (c : Client) (input : RoundInput) : List Attempt :=
  let keepaliveMs := c.connection.information.keepalive * 1000
  if c.connection.information.keepalive = 0 ∨ c.waitForPingResp = true then []
  else if hasTimedOut c.now c.keepaliveTick (keepaliveMs / 2) then
    ({ c with connection := mqttMsgPingreq c.connection } : Client).attempt input.pingWrites true
  else []

/-- The client once a round has received. -/
def Client.beginResend (c : Client) : Client :=
  if c.lastRetransmit = 0 then { c with lastRetransmit := c.now } else c

/-- The writes of a connected round. -/
def connectedAttempts (c : Client) (input : RoundInput) : List Attempt :=
  let c := c.advance input.receiveTime
  let (ok, c') := mqttProcessReceive c input
  receiveAttempts c input ++
    if ok then
      resendAttempts c'.beginResend input ++ keepaliveAttempts (resend c'.beginResend input) input
    else []

/-- The writes of a round. -/
def roundAttempts (c : Client) (input : RoundInput) : List Attempt :=
  let c := mqttDeleteExpiredMessages c
  match c.state with
  | .init => connectAttempts (c.advance input.connectTime) input
  | .connected => connectedAttempts c input
  | .disconnected | .waitReconnect => []

/-! ## Whole packets -/

/-- The packets that the client sends behind a CONNECT: a PUBLISH of QoS 1 whose id, topic and
payload are allowed, an answer, or a ping. -/
inductive Request (Q : UInt16 → List UInt8 → List UInt8 → Prop) : Packet → Prop
  | publish (p : PublishPacket.Packet) (h : Q p.id p.topic p.payload) (packet : Packet)
    (hencode : packet.encode = PublishPacket.encode p) : Request Q packet
  | ack (type : AckType) (id : UInt16) : Request Q (ControlPacket.Message.ack type id).packet
  | pingreq : Request Q ⟨0xC0, [], by decide⟩

/-- The beginning of a sequence of packets, and all of it where the line is intact. -/
def Whole (P : Packet → Prop) (bytes : List UInt8) (intact : Prop) : Prop :=
  ∃ ps, (∀ p ∈ ps, P p) ∧ bytes <+: encodeAll ps ∧ (intact → bytes = encodeAll ps)

theorem Attempt.taken_prefix (a : Attempt) : a.taken <+: a.data := List.take_prefix _ _

theorem Attempt.taken_of_ok {a : Attempt} (h : a.ok = true) : a.taken = a.data := by
  rw [Attempt.taken, espMqttWrite_of_ok h, List.take_length]

/-- Writes of whole packets put whole packets on the line, up to the one that fails. -/
theorem whole_onLine {P : Packet → Prop} {attempts : List Attempt}
    (hpackets : ∀ a ∈ attempts, ∃ p, P p ∧ a.data = p.encode)
    (hunchecked : ∀ a ∈ attempts, a.checked = false → a.ok = true) :
    Whole P (onLine attempts) (∀ a ∈ attempts, a.ok = true) := by
  induction attempts with
  | nil => exact ⟨[], by simp, List.prefix_rfl, fun _ => rfl⟩
  | cons a attempts ih =>
    obtain ⟨p, hp, hdata⟩ := hpackets a List.mem_cons_self
    obtain ⟨ps, hps, hpre, hintact⟩ :=
      ih (fun b hb => hpackets b (List.mem_cons_of_mem a hb))
        (fun b hb => hunchecked b (List.mem_cons_of_mem a hb))
    by_cases hok : a.ok = true
    · have hline : onLine (a :: attempts) = p.encode ++ onLine attempts := by
        rw [onLine, Attempt.taken_of_ok hok, hok, Bool.true_or, if_pos rfl, hdata]
      refine ⟨p :: ps, List.forall_mem_cons.mpr ⟨hp, hps⟩, ?_, fun hall => ?_⟩
      · rw [hline, ControlPacket.encodeAll_cons]
        exact (List.prefix_append_right_inj _).mpr hpre
      · rw [hline, ControlPacket.encodeAll_cons,
          hintact fun b hb => hall b (List.mem_cons_of_mem a hb)]
    · have hchecked : a.checked = true := by
        by_contra hnot
        exact hok (hunchecked a List.mem_cons_self (Bool.eq_false_iff.mpr hnot))
      have hline : onLine (a :: attempts) = a.taken := by
        rw [onLine, Bool.eq_false_iff.mpr hok, hchecked]
        simp
      refine ⟨[p], by simpa using hp, ?_, fun hall => absurd (hall a List.mem_cons_self) hok⟩
      rw [hline, ControlPacket.encodeAll_cons, ControlPacket.encodeAll_nil, List.append_nil,
        ← hdata]
      exact a.taken_prefix

/-! ## The messages are packets -/

theorem ackMessage_data {connection : Connection} {type : MsgType} {qos : Nat} {answer : AckType}
    (htotal : connection.outboundMessage.fragmentedMsgTotalLength = 0)
    (hfirst : typeByte type.code 0 qos 0 = answer.first) (messageId random : UInt16) :
    (ackMessage type qos connection messageId random).outboundMessage.data =
      (ControlPacket.Message.ack answer
        (if messageId = 0 then random else messageId)).packet.encode := by
  unfold ackMessage appendMessageId
  simp only [List.length_nil, Nat.add_zero]
  rw [if_neg (by decide)]
  simp only [List.nil_append]
  generalize (if messageId = 0 then random else messageId) = id
  have hlength : (beBytes id.toNat).length < 128 ^ 4 := show 2 < 128 ^ 4 by decide
  change (finiMessage connection (beBytes id.toNat) type.code 0 qos 0).outboundMessage.data = _
  rw [finiMessage_data htotal hlength, hfirst]
  rfl

/-- A first byte says QoS 1 and PUBLISH also when it says that it is a duplicate. -/
theorem mqttSetDup_encode (p : PublishPacket.Packet) :
    mqttSetDup (PublishPacket.encode p) = PublishPacket.encode { p with dup := true } := by
  have hfirst : PublishPacket.firstByte p.dup p.retain ||| 0x08 =
      PublishPacket.firstByte true p.retain := by
    cases p.dup <;> cases p.retain <;> decide
  rw [PublishPacket.encode, List.cons_append, mqttSetDup, hfirst]
  rfl

/-- A PUBLISH as a packet among others. -/
def packetOf (p : PublishPacket.Packet) : Packet where
  first := PublishPacket.firstByte p.dup p.retain
  body := PublishPacket.header p.topic p.id ++ p.payload
  body_lt := by
    rw [List.length_append, PublishPacket.length_header]
    exact p.body_lt

theorem encode_packetOf (p : PublishPacket.Packet) :
    (packetOf p).encode = PublishPacket.encode p := by
  rw [Packet.encode, Packet.lens, packetOf, List.length_append, PublishPacket.length_header]
  rfl

/-! ## The writes are packets -/

section Sends

variable {Q : UInt16 → List UInt8 → List UInt8 → Prop} {c : Client} {input : RoundInput}

/-- The bytes of a PUBLISH that is allowed. -/
def Stored (Q : UInt16 → List UInt8 → List UInt8 → Prop) (buffer : List UInt8) : Prop :=
  ∃ p : PublishPacket.Packet, Q p.id p.topic p.payload ∧ buffer = PublishPacket.encode p

theorem Stored.setDup {buffer : List UInt8} (h : Stored Q buffer) :
    Stored Q (mqttSetDup buffer) := by
  obtain ⟨p, hp, rfl⟩ := h
  exact ⟨{ p with dup := true }, hp, mqttSetDup_encode p⟩

theorem Stored.request {buffer : List UInt8} (h : Stored Q buffer) :
    ∃ p, Request Q p ∧ buffer = p.encode := by
  obtain ⟨p, hp, rfl⟩ := h
  exact ⟨packetOf p, .publish p hp _ (encode_packetOf p), (encode_packetOf p).symm⟩

/-- A client that inherits no length and stores allowed packets only. -/
structure Fit (Q : UInt16 → List UInt8 → List UInt8 → Prop) (c : Client) : Prop where
  total : c.total = 0
  items : ∀ buffer ∈ c.outbox.map OutboxItem.buffer, Stored Q buffer

section

variable {Q' : UInt16 → List UInt8 → List UInt8 → Prop}

theorem Request.imp {p : Packet}
    (himp : ∀ id topic payload, Q id topic payload → Q' id topic payload)
    (h : Request Q p) : Request Q' p := by
  cases h with
  | publish p hq packet hencode => exact .publish p (himp _ _ _ hq) _ hencode
  | ack type id => exact .ack type id
  | pingreq => exact .pingreq

theorem Fit.imp (himp : ∀ id topic payload, Q id topic payload → Q' id topic payload)
    (h : Fit Q c) : Fit Q' c := by
  refine ⟨h.total, fun buffer hbuffer => ?_⟩
  obtain ⟨p, hp, heq⟩ := h.items buffer hbuffer
  exact ⟨p, himp _ _ _ hp, heq⟩

end

/-- The writes are of packets that may follow a CONNECT. -/
def Sends (Q : UInt16 → List UInt8 → List UInt8 → Prop) (attempts : List Attempt) : Prop :=
  ∀ a ∈ attempts, ∃ p, Request Q p ∧ a.data = p.encode

theorem sends_nil : Sends Q [] := fun _ h => absurd h List.not_mem_nil

theorem Sends.append {attempts more : List Attempt} (h : Sends Q attempts) (h' : Sends Q more) :
    Sends Q (attempts ++ more) := by
  intro a ha
  rcases List.mem_append.mp ha with hfirst | hmore
  · exact h a hfirst
  · exact h' a hmore

theorem sends_attempt {results : List Int} {checked : Bool}
    (h : ∃ p, Request Q p ∧ c.connection.outboundMessage.data = p.encode) :
    Sends Q (c.attempt results checked) := by
  intro a ha
  unfold Client.attempt at ha
  split at ha
  · exact absurd ha List.not_mem_nil
  · obtain rfl := List.mem_singleton.mp ha
    exact h

theorem sends_replyAttempts (h : c.total = 0) (type : MsgType) (qos : Nat) (answer : AckType)
    (hfirst : typeByte type.code 0 qos 0 = answer.first) (msgId : UInt16) (checked : Bool) :
    Sends Q (replyAttempts c (ackMessage type qos) msgId checked input) :=
  sends_attempt ⟨_, .ack answer _, ackMessage_data h hfirst msgId input.random⟩

theorem sends_receiveAttempts (h : c.total = 0) : Sends Q (receiveAttempts c input) := by
  unfold receiveAttempts
  split
  · split
    · split
      · exact sends_replyAttempts h .puback 0 .puback (by decide) _ _
      · split
        · exact sends_replyAttempts h .pubrec 0 .pubrec (by decide) _ _
        · exact sends_nil
    · exact sends_nil
  · exact sends_replyAttempts h .pubrel 1 .pubrel (by decide) _ _
  · exact sends_replyAttempts h .pubcomp 0 .pubcomp (by decide) _ _
  · exact sends_nil

theorem Fit.queuedAttempt (h : Fit Q c) {item : OutboxItem} (hitem : item ∈ c.outbox) :
    Sends Q [queuedAttempt item input] := by
  have hstored := h.items _ (List.mem_map_of_mem hitem)
  intro a ha
  obtain rfl := List.mem_singleton.mp ha
  unfold Mqtt.queuedAttempt
  simp only
  split
  · exact hstored.setDup.request
  · exact hstored.request

theorem Fit.retransmitAttempts (h : Fit Q c) : Sends Q (retransmitAttempts c input) := by
  unfold Mqtt.retransmitAttempts
  split
  · rename_i item handle hitem
    split
    · exact h.queuedAttempt (mem_of_outboxDequeue hitem).1
    · exact sends_nil
  · exact sends_nil

theorem sends_pubrelAttempts (h : c.total = 0) : Sends Q (pubrelAttempts c input) := by
  unfold pubrelAttempts
  split
  · split
    · exact sends_attempt ⟨_, .ack .pubrel _, ackMessage_data h (by decide) ..⟩
    · exact sends_nil
  · exact sends_nil

theorem sends_keepaliveAttempts (h : c.total = 0) : Sends Q (keepaliveAttempts c input) := by
  unfold keepaliveAttempts
  simp only
  split
  · exact sends_nil
  · split
    · exact sends_attempt ⟨_, .pingreq, finiMessage_data h (by decide)⟩
    · exact sends_nil

/-! ## What a round keeps -/

theorem Fit.of_sublist {c' : Client} (h : Fit Q c) (htotal : c'.total = c.total)
    (hitems : List.Sublist (c'.outbox.map OutboxItem.buffer) (c.outbox.map OutboxItem.buffer)) :
    Fit Q c' :=
  ⟨htotal.trans h.total, fun buffer hbuffer => h.items buffer (hitems.subset hbuffer)⟩

theorem buffers_outboxSetPending (outbox : Outbox) (msgId : UInt16) (pending : PendingState) :
    (outboxSetPending outbox msgId pending).map OutboxItem.buffer =
      outbox.map OutboxItem.buffer :=
  map_outboxUpdate msgId (fun item => { item with pending := pending }) OutboxItem.buffer
    (fun _ => rfl) outbox

theorem Fit.deleteExpired (h : Fit Q c) : Fit Q (mqttDeleteExpiredMessages c) :=
  h.of_sublist rfl (List.filter_sublist.map _)

theorem Fit.advance (h : Fit Q c) (ms : Nat) : Fit Q (c.advance ms) := ⟨h.total, h.items⟩

theorem Fit.beginResend (h : Fit Q c) : Fit Q c.beginResend := by
  unfold Client.beginResend
  split
  · exact ⟨h.total, h.items⟩
  · exact h

theorem buffers_mqttProcessReceive (c : Client) (input : RoundInput) :
    List.Sublist ((mqttProcessReceive c input).2.outbox.map OutboxItem.buffer)
      (c.outbox.map OutboxItem.buffer) := by
  have hreply : ∀ build msgId checked, List.Sublist
      ((c.reply build msgId checked input).2.outbox.map OutboxItem.buffer)
      (c.outbox.map OutboxItem.buffer) := by
    intro build msgId checked
    rw [(reply_outbox c build msgId checked input).1]
  have hremove : ∀ (d : Client) type msgId, d.outbox = c.outbox → List.Sublist
      ((removeInitiatorMessage d type msgId).2.outbox.map OutboxItem.buffer)
      (c.outbox.map OutboxItem.buffer) := by
    intro d type msgId hd
    rw [← hd]
    exact List.eraseP_sublist.map _
  unfold mqttProcessReceive
  split
  · exact .refl _
  · exact .refl _
  · exact .refl _
  · exact hremove c .subscribe _ rfl
  · exact hremove c .unsubscribe _ rfl
  · split
    · split
      · exact hreply ..
      · split
        · exact hreply ..
        · exact .refl _
    · exact .refl _
  · exact hremove _ .publish _ rfl
  · simp only
    split
    · simp only [buffers_outboxSetPending]
      exact hreply ..
    · exact hreply ..
  · exact hreply ..
  · exact hremove _ .publish _ rfl
  · exact .refl _

theorem Fit.mqttProcessReceive (h : Fit Q c) : Fit Q (mqttProcessReceive c input).2 :=
  h.of_sublist (total_mqttProcessReceive c input) (buffers_mqttProcessReceive c input)

theorem Fit.mqttResendQueued (h : Fit Q c) (item : OutboxItem) (handle : Nat) :
    Fit Q (mqttResendQueued c item handle input).2 := by
  refine ⟨(total_mqttResendQueued c item handle input).trans h.total, ?_⟩
  have hmarked : ∀ buffer ∈ (c.outbox.modify handle fun item =>
      { item with buffer := mqttSetDup item.buffer }).map OutboxItem.buffer, Stored Q buffer := by
    intro buffer hbuffer
    obtain ⟨changed, hchanged, rfl⟩ := List.mem_map.mp hbuffer
    obtain ⟨k, hk⟩ := List.mem_iff_getElem?.mp hchanged
    rw [List.getElem?_modify] at hk
    obtain ⟨old, hold, hold'⟩ := Option.map_eq_some_iff.mp hk
    have hstored := h.items _ (List.mem_map_of_mem (List.mem_of_getElem? hold))
    split at hold'
    · rw [← hold']
      exact hstored.setDup
    · rw [← hold']
      exact hstored
  unfold Mqtt.mqttResendQueued
  simp only
  split
  · split <;> exact hmarked
  · split <;> exact h.items

theorem Fit.resendFirstQueued (h : Fit Q c) (item : OutboxItem) (handle : Nat) :
    Fit Q (resendFirstQueued c item handle input) := by
  have hresend : Fit Q (Mqtt.mqttResendQueued c item handle input).2 :=
    h.mqttResendQueued item handle
  unfold Mqtt.resendFirstQueued
  generalize Mqtt.mqttResendQueued c item handle input = result at hresend
  obtain ⟨ok, d⟩ := result
  simp only
  have herase : Fit Q { d with outbox := outboxDeleteItem d.outbox handle } :=
    hresend.of_sublist rfl ((List.eraseIdx_sublist ..).map _)
  have hmark : ∀ e : Client, Fit Q e → Fit Q
      { e with outbox := outboxSetPending e.outbox e.pendingMsgId .transmitted } := by
    intro e he
    refine he.of_sublist rfl ?_
    simp only [buffers_outboxSetPending]
    exact .refl _
  split
  · split
    · split
      · exact hmark _ herase
      · exact herase
    · split
      · exact hmark _ hresend
      · exact hresend
  · exact hresend

theorem Fit.retransmitFirst (h : Fit Q c) : Fit Q (retransmitFirst c input) := by
  unfold Mqtt.retransmitFirst
  split
  · split
    · exact h.mqttResendQueued ..
    · exact h
  · exact h

theorem Fit.resendAttempts (h : Fit Q c) : Sends Q (resendAttempts c input) := by
  unfold Mqtt.resendAttempts
  split
  · rename_i item handle hitem
    exact h.queuedAttempt (mem_of_outboxDequeue hitem).1
  · split
    · have hclock : Fit Q { c with lastRetransmit := c.now } := ⟨h.total, h.items⟩
      exact hclock.retransmitAttempts.append (sends_pubrelAttempts hclock.retransmitFirst.total)
    · exact sends_nil

/-- Every packet of a connected round may follow a CONNECT. -/
theorem Fit.connectedAttempts (h : Fit Q c) : Sends Q (connectedAttempts c input) := by
  have hadvance := h.advance input.receiveTime
  have hbegin : Fit Q (Mqtt.mqttProcessReceive (c.advance input.receiveTime) input).2.beginResend :=
    hadvance.mqttProcessReceive.beginResend
  unfold Mqtt.connectedAttempts
  simp only
  refine (sends_receiveAttempts hadvance.total).append ?_
  split
  · exact hbegin.resendAttempts.append
      (sends_keepaliveAttempts ((total_resend _ input).trans hbegin.total))
  · exact sends_nil

end Sends

/-! ## Failed writes -/

section Failed

variable {c : Client} {input : RoundInput}

/-- Every write whose result is looked at has succeeded. -/
def AllWritten (attempts : List Attempt) : Prop := ∀ a ∈ attempts, a.checked = true → a.ok = true

theorem allWritten_nil : AllWritten [] := fun _ h => absurd h List.not_mem_nil

theorem AllWritten.append {attempts more : List Attempt} (h : AllWritten attempts)
    (h' : AllWritten more) : AllWritten (attempts ++ more) := by
  intro a ha
  rcases List.mem_append.mp ha with hfirst | hmore
  · exact h a hfirst
  · exact h' a hmore

theorem allWritten_singleton {a : Attempt} (h : a.ok = true) : AllWritten [a] := by
  intro b hb _
  exact List.mem_singleton.mp hb ▸ h

theorem allWritten_attempt {results : List Int} {checked : Bool}
    (h : checked = true → c.connection.outboundMessage.data ≠ [] → c.write results = true) :
    AllWritten (c.attempt results checked) := by
  intro a ha hchecked
  unfold Client.attempt at ha
  split at ha
  · exact absurd ha List.not_mem_nil
  · rename_i hne
    obtain rfl := List.mem_singleton.mp ha
    exact h hchecked hne

theorem allWritten_replyAttempts {build : Connection → UInt16 → UInt16 → Connection}
    {msgId : UInt16} {checked : Bool} (h : (c.reply build msgId checked input).1 = true) :
    AllWritten (replyAttempts c build msgId checked input) := by
  refine allWritten_attempt fun hchecked hne => ?_
  unfold Client.reply at h
  simp only at h
  rw [if_neg hne, hchecked] at h
  exact h

theorem allWritten_receiveAttempts (h : (mqttProcessReceive c input).1 = true) :
    AllWritten (receiveAttempts c input) := by
  unfold mqttProcessReceive at h
  unfold receiveAttempts
  cases hreceived : input.received with
  | publish msgId qos delivered =>
    simp only [hreceived] at h ⊢
    split at h
    · rename_i hdelivered
      rw [if_pos hdelivered]
      split at h
      · rename_i hqos
        rw [if_pos hqos]
        exact allWritten_replyAttempts h
      · rename_i hone
        rw [if_neg hone]
        split at h
        · rename_i htwo
          rw [if_pos htwo]
          exact allWritten_replyAttempts h
        · rename_i htwo
          rw [if_neg htwo]
          exact allWritten_nil
    · cases h
  | pubrec msgId => exact allWritten_attempt fun hfalse => absurd hfalse (by decide)
  | pubrel msgId => exact allWritten_attempt fun hfalse => absurd hfalse (by decide)
  | nothing | failure | suback | unsuback | puback | pubcomp | pingresp | other =>
    exact allWritten_nil

/-- A resent packet that is not written ends the connection. -/
theorem mqttResendQueued_connected {item : OutboxItem} {handle : Nat}
    (h : (mqttResendQueued c item handle input).2.state = .connected) :
    (queuedAttempt item input).ok = true ∧ (mqttResendQueued c item handle input).1 = true ∧
      c.state = .connected := by
  unfold mqttResendQueued at h ⊢
  unfold queuedAttempt Attempt.ok
  by_cases hdup : item.msgType = MsgType.publish.code ∧ 0 < item.msgQos ∧
    item.pending = .transmitted
  · simp only [if_pos hdup] at h ⊢
    split at h
    · rename_i hok
      rw [if_pos hok]
      exact ⟨hok, rfl, h⟩
    · cases h
  · simp only [if_neg hdup] at h ⊢
    split at h
    · rename_i hok
      rw [if_pos hok]
      exact ⟨hok, rfl, h⟩
    · cases h

theorem retransmitFirst_connected (h : (retransmitFirst c input).state = .connected) :
    AllWritten (retransmitAttempts c input) ∧ c.state = .connected := by
  unfold retransmitFirst at h
  unfold retransmitAttempts
  cases hfound : outboxDequeue c.outbox .transmitted with
  | none =>
    rw [hfound] at h
    exact ⟨allWritten_nil, h⟩
  | some found =>
    obtain ⟨item, handle⟩ := found
    rw [hfound] at h
    simp only at h ⊢
    by_cases hdue : messageRetransmitTimeout < c.lastRetransmit - item.tick
    · rw [if_pos hdue] at h ⊢
      obtain ⟨hok, _, hstate⟩ := mqttResendQueued_connected h
      exact ⟨allWritten_singleton hok, hstate⟩
    · rw [if_neg hdue] at h ⊢
      exact ⟨allWritten_nil, h⟩

theorem retransmitPubrel_connected (h : (retransmitPubrel c input).state = .connected) :
    AllWritten (pubrelAttempts c input) ∧ c.state = .connected := by
  unfold retransmitPubrel at h
  unfold pubrelAttempts
  cases hfound : outboxDequeue c.outbox .acknowledged with
  | none =>
    rw [hfound] at h
    exact ⟨allWritten_nil, h⟩
  | some found =>
    obtain ⟨item, handle⟩ := found
    rw [hfound] at h
    simp only at h ⊢
    by_cases hdue : messageRetransmitTimeout < c.lastRetransmit - item.tick
    · rw [if_pos hdue] at h ⊢
      unfold mqttResendPubrel at h
      simp only at h
      split at h
      · rename_i hnil
        refine ⟨allWritten_attempt fun _ hne => absurd hnil hne, h⟩
      · split at h
        · rename_i hwrite
          exact ⟨allWritten_attempt fun _ _ => hwrite, h⟩
        · cases h
    · rw [if_neg hdue] at h ⊢
      exact ⟨allWritten_nil, h⟩

theorem resend_connected (h : (resend c input).state = .connected) :
    AllWritten (resendAttempts c input) ∧ c.state = .connected := by
  unfold resend at h
  unfold resendAttempts
  cases hfound : outboxDequeue c.outbox .queued with
  | none =>
    rw [hfound] at h
    simp only at h ⊢
    by_cases hdue : hasTimedOut c.now c.lastRetransmit messageRetransmitTimeout = true
    · rw [if_pos hdue] at h ⊢
      obtain ⟨hpubrel, hfirst⟩ := retransmitPubrel_connected h
      obtain ⟨hretransmit, hstate⟩ := retransmitFirst_connected hfirst
      exact ⟨hretransmit.append hpubrel, hstate⟩
    · rw [if_neg hdue] at h ⊢
      exact ⟨allWritten_nil, h⟩
  | some found =>
    obtain ⟨item, handle⟩ := found
    rw [hfound] at h
    simp only at h ⊢
    have hresend : (mqttResendQueued c item handle input).2.state = .connected := by
      unfold resendFirstQueued at h
      generalize mqttResendQueued c item handle input = result at h ⊢
      obtain ⟨ok, d⟩ := result
      simp only at h ⊢
      split at h
      · split at h
        · split at h <;> exact h
        · split at h <;> exact h
      · exact h
    obtain ⟨hok, _, hstate⟩ := mqttResendQueued_connected hresend
    exact ⟨allWritten_singleton hok, hstate⟩

theorem processKeepalive_connected (h : (processKeepalive c input).state = .connected) :
    AllWritten (keepaliveAttempts c input) ∧ c.state = .connected := by
  unfold processKeepalive at h
  unfold keepaliveAttempts
  simp only at h ⊢
  split at h
  · rename_i hzero
    rw [if_pos (.inl hzero)]
    exact ⟨allWritten_nil, h⟩
  · rename_i hzero
    split at h
    · rename_i hwait
      rw [if_pos (.inr hwait)]
      split at h
      · cases h
      · exact ⟨allWritten_nil, h⟩
    · rename_i hwait
      rw [if_neg (fun hor => hor.elim hzero hwait)]
      split at h
      · rename_i hdue
        rw [if_pos hdue]
        split at h
        · rename_i hping
          exact ⟨allWritten_attempt fun _ _ => hping.2, h⟩
        · cases h
      · rename_i hdue
        rw [if_neg hdue]
        exact ⟨allWritten_nil, h⟩

/-- After a round that leaves the client connected, all its packets are on the line. -/
theorem connectedRound_allWritten (h : (connectedRound c input).state = .connected) :
    AllWritten (connectedAttempts c input) := by
  have hok := connectedRound_connected h
  unfold connectedRound at h
  unfold connectedAttempts
  simp only at h ⊢
  rw [if_pos hok] at h ⊢
  obtain ⟨hkeepalive, hresend⟩ := processKeepalive_connected h
  exact (allWritten_receiveAttempts hok).append
    ((resend_connected hresend).1.append hkeepalive)

end Failed

/-! ## Rounds -/

section Round

variable {Q : UInt16 → List UInt8 → List UInt8 → Prop} {c : Client} {input : RoundInput}

theorem Fit.of_outbox_eq {c' : Client} (h : Fit Q c) (htotal : c'.total = c.total)
    (houtbox : c'.outbox = c.outbox) : Fit Q c' := by
  refine h.of_sublist htotal ?_
  rw [houtbox]

theorem Fit.resend (h : Fit Q c) : Fit Q (resend c input) := by
  unfold Mqtt.resend
  split
  · exact h.resendFirstQueued ..
  · split
    · have hclock : Fit Q { c with lastRetransmit := c.now } := ⟨h.total, h.items⟩
      exact hclock.retransmitFirst.of_outbox_eq (total_retransmitPubrel ..)
        (retransmitPubrel_eq ..).1
    · exact h

theorem Fit.connectedRound (h : Fit Q c) : Fit Q (connectedRound c input) := by
  have hreceive : Fit Q (Mqtt.mqttProcessReceive (c.advance input.receiveTime) input).2 :=
    (h.advance input.receiveTime).mqttProcessReceive
  unfold Mqtt.connectedRound
  simp only
  split
  · exact (Fit.resend hreceive.beginResend).of_outbox_eq (total_processKeepalive ..)
      (processKeepalive_eq ..).1
  · exact ⟨hreceive.total, hreceive.items⟩

theorem Fit.initRound (h : Fit Q c) : Fit Q (initRound c input) := by
  refine h.of_outbox_eq (total_initRound c input) ?_
  unfold Mqtt.initRound
  simp only
  split
  · split
    · split <;> exact (espMqttConnect_eq ..).1
    · rfl
  · rfl

theorem Fit.espMqttTaskRound (h : Fit Q c) : Fit Q (espMqttTaskRound c input).1 := by
  unfold Mqtt.espMqttTaskRound
  simp only
  split
  · exact h.deleteExpired
  · exact h.deleteExpired.initRound
  · exact h.deleteExpired.connectedRound
  · split
    · exact ⟨h.total, h.deleteExpired.items⟩
    · exact h.deleteExpired

/-- The CONNECT that a round writes. -/
theorem connectAttempts_packet (input : RoundInput) (htotal : c.total = 0) :
    ∀ a ∈ connectAttempts c input, ∃ p, Opening c.information p ∧ a.data = p.encode := by
  intro a ha
  unfold connectAttempts at ha
  split at ha
  · unfold Client.attempt at ha
    split at ha
    · exact absurd ha List.not_mem_nil
    · rename_i hne
      obtain rfl := List.mem_singleton.mp ha
      exact mqttMsgConnect_opening htotal hne
  · exact absurd ha List.not_mem_nil

/-- A round that connects has written its CONNECT. -/
theorem initRound_allWritten (input : RoundInput) (hc : c.state = .init)
    (h : (initRound c input).state = .connected) :
    connectAttempts (c.advance input.connectTime) input ≠ [] ∧
      ∀ a ∈ connectAttempts (c.advance input.connectTime) input, a.ok = true := by
  obtain ⟨hcreated, htransport, _⟩ := initRound_connected hc h
  unfold initRound at h
  unfold connectAttempts Client.attempt
  rw [if_pos ⟨hcreated, htransport⟩]
  simp only [hcreated, htransport, if_true] at h
  split at h
  · rename_i hok
    unfold espMqttConnect at hok
    simp only at hok
    split at hok
    · cases hok
    · rename_i hne
      rw [if_neg hne]
      refine ⟨List.cons_ne_nil _ _, ?_⟩
      intro a ha
      obtain rfl := List.mem_singleton.mp ha
      exact (Bool.and_eq_true_iff.mp hok).1
  · cases h

end Round

end IndustrialIot.Edge.Mqtt
