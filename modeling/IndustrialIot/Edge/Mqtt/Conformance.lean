import IndustrialIot.Edge.Mqtt.Delivery
import IndustrialIot.Edge.Mqtt.Packet
import Mathlib.Data.List.TakeWhile

/-!
# What the calls of a node store and send

The connection carries two fields from one message to the next: the total length of a
message that was cut and the offset of its data. The first is cleared or belongs to a cut
message in every reachable state. When a call's copy and its direct transmission are the
packet of its topic and its payload depends on both.
-/

namespace IndustrialIot.Edge.Mqtt

/-! ## The total that is left over -/

/-- The total length that the connection still states. -/
def Client.total (c : Client) : Nat := c.connection.outboundMessage.fragmentedMsgTotalLength

/-- A total is stated only for a message that did not fit the buffer. -/
def Connection.TotalOfCut (connection : Connection) : Prop :=
  connection.outboundMessage.fragmentedMsgTotalLength = 0 ∨
    bufferLength < connection.outboundMessage.fragmentedMsgTotalLength

theorem Connection.TotalOfCut.of_total_eq {c c' : Client} (h : c.connection.TotalOfCut)
    (htotal : c'.total = c.total) : c'.connection.TotalOfCut := by
  unfold Connection.TotalOfCut at h ⊢
  unfold Client.total at htotal
  rw [htotal]
  exact h

@[simp] theorem total_failMessage (connection : Connection) :
    (failMessage connection).outboundMessage.fragmentedMsgTotalLength =
      connection.outboundMessage.fragmentedMsgTotalLength := rfl

@[simp] theorem total_finiMessage (connection : Connection) (body : List UInt8)
    (type dup qos retain : Nat) :
    (finiMessage connection body type dup qos
      retain).outboundMessage.fragmentedMsgTotalLength =
        connection.outboundMessage.fragmentedMsgTotalLength := by
  unfold finiMessage
  simp only
  split <;> rfl

@[simp] theorem total_mqttMsgConnect (connection : Connection) :
    (mqttMsgConnect connection).outboundMessage.fragmentedMsgTotalLength =
      connection.outboundMessage.fragmentedMsgTotalLength := by
  unfold mqttMsgConnect
  split
  · exact total_failMessage connection
  · exact total_finiMessage ..

@[simp] theorem total_ackMessage (type : MsgType) (qos : Nat) (connection : Connection)
    (messageId random : UInt16) :
    (ackMessage type qos connection messageId random).outboundMessage.fragmentedMsgTotalLength =
      connection.outboundMessage.fragmentedMsgTotalLength := by
  unfold ackMessage
  split
  · exact total_failMessage connection
  · exact total_finiMessage ..

theorem totalOfCut_mqttMsgPublish {connection : Connection} (h : connection.TotalOfCut)
    (topic : List UInt8) (data : Option Memory) (len : Nat) (random : UInt16) :
    (mqttMsgPublish connection topic data len 1 0 random).1.TotalOfCut := by
  unfold Connection.TotalOfCut mqttMsgPublish at *
  split
  · exact h
  · simp only [total_finiMessage, publishBody]
    split
    · exact h
    · split
      · right
        simp only
        omega
      · left
        rfl

/-- The sending loop leaves the total as it is, or clears it. -/
theorem totalOfCut_of_sending {data : Option Memory} {scripts : List (List Int)}
    {connection : Connection} {remainingLen currentData : Int} {transfer : Transfer}
    (h : sending data scripts connection remainingLen currentData = some transfer)
    (htotal : connection.TotalOfCut) : transfer.connection.TotalOfCut := by
  induction scripts generalizing connection remainingLen currentData transfer with
  | nil =>
    cases h
    exact htotal
  | cons results scripts ih =>
    rw [sending] at h
    simp only at h
    split at h
    · split at h
      · cases data with
        | none => exact absurd h (by simp)
        | some memory =>
          obtain ⟨rest, hrest, rfl⟩ := Option.map_eq_some_iff.mp h
          apply ih hrest
          left
          rfl
      · cases h
        left
        rfl
    · cases h
      exact htotal

/-! The rounds of the task build messages that fit, which leave the total alone. -/

theorem total_reply (c : Client) {build : Connection → UInt16 → UInt16 → Connection}
    (hbuild : ∀ connection msgId random,
      (build connection msgId random).outboundMessage.fragmentedMsgTotalLength =
        connection.outboundMessage.fragmentedMsgTotalLength)
    (msgId : UInt16) (checked : Bool) (input : RoundInput) :
    (c.reply build msgId checked input).2.total = c.total := by
  unfold Client.reply
  simp only
  split <;> exact hbuild ..

theorem total_mqttProcessReceive (c : Client) (input : RoundInput) :
    (mqttProcessReceive c input).2.total = c.total := by
  unfold mqttProcessReceive
  cases input.received with
  | nothing | other | failure | suback | unsuback | puback | pubcomp | pingresp => rfl
  | publish msgId qos delivered =>
    simp only
    split
    · split
      · exact total_reply c (total_ackMessage _ _) ..
      · split
        · exact total_reply c (total_ackMessage _ _) ..
        · rfl
    · rfl
  | pubrec msgId =>
    have hreply := total_reply c (total_ackMessage .pubrel 1) msgId false input
    simp only
    split <;> exact hreply
  | pubrel msgId => exact total_reply c (total_ackMessage _ _) ..

theorem total_mqttResendQueued (c : Client) (item : OutboxItem) (handle : Nat)
    (input : RoundInput) : (mqttResendQueued c item handle input).2.total = c.total := by
  unfold mqttResendQueued
  simp only
  split
  · split <;> rfl
  · split <;> rfl

theorem total_resendFirstQueued (c : Client) (item : OutboxItem) (handle : Nat)
    (input : RoundInput) : (resendFirstQueued c item handle input).total = c.total := by
  have hresend := total_mqttResendQueued c item handle input
  unfold resendFirstQueued
  simp only
  split
  · split <;> split <;> exact hresend
  · exact hresend

theorem total_retransmitFirst (c : Client) (input : RoundInput) :
    (retransmitFirst c input).total = c.total := by
  unfold retransmitFirst
  split
  · split
    · exact total_mqttResendQueued ..
    · rfl
  · rfl

theorem total_retransmitPubrel (c : Client) (input : RoundInput) :
    (retransmitPubrel c input).total = c.total := by
  unfold retransmitPubrel mqttResendPubrel
  split
  · split
    · simp only
      split
      · exact total_ackMessage ..
      · split <;> exact total_ackMessage ..
    · rfl
  · rfl

theorem total_resend (c : Client) (input : RoundInput) : (resend c input).total = c.total := by
  unfold resend
  split
  · exact total_resendFirstQueued ..
  · split
    · rw [total_retransmitPubrel, total_retransmitFirst]
      rfl
    · rfl

theorem total_processKeepalive (c : Client) (input : RoundInput) :
    (processKeepalive c input).total = c.total := by
  unfold processKeepalive mqttMsgPingreq
  simp only
  split
  · rfl
  · split
    · split <;> rfl
    · split
      · split <;> exact total_finiMessage ..
      · rfl

theorem total_connectedRound (c : Client) (input : RoundInput) :
    (connectedRound c input).total = c.total := by
  have hreceive := total_mqttProcessReceive (c.advance input.receiveTime) input
  unfold connectedRound
  simp only
  split
  · rw [total_processKeepalive, total_resend]
    split <;> exact hreceive
  · exact hreceive

theorem total_espMqttConnect (c : Client) (input : RoundInput) :
    (espMqttConnect c input).2.total = c.total := by
  unfold espMqttConnect
  simp only
  split <;> exact total_mqttMsgConnect _

theorem total_initRound (c : Client) (input : RoundInput) :
    (initRound c input).total = c.total := by
  have hconnect := total_espMqttConnect (c.advance input.connectTime) input
  unfold initRound
  simp only
  split
  · split
    · split <;> exact hconnect
    · rfl
  · rfl

theorem total_espMqttTaskRound (c : Client) (input : RoundInput) :
    (espMqttTaskRound c input).1.total = c.total := by
  unfold espMqttTaskRound
  simp only
  split
  · rfl
  · exact total_initRound ..
  · exact total_connectedRound ..
  · split <;> rfl

theorem totalOfCut_of_enqueuePublish {c c' : Client} {topic : List UInt8} {data : Option Memory}
    {len record : Nat} {random : UInt16} {alloc : Bool} {made : Option UInt16}
    (h : mqttClientEnqueuePublish c topic data len 1 0 false record random alloc =
      some (c', made))
    (htotal : c.connection.TotalOfCut) : c'.connection.TotalOfCut := by
  have hmade := totalOfCut_mqttMsgPublish htotal topic data len random
  unfold mqttClientEnqueuePublish makePublish at h
  generalize mqttMsgPublish c.connection topic data len 1 0 random = d at h hmade
  obtain ⟨connection, messageId⟩ := d
  simp only [Nat.one_pos, true_or, if_true] at h
  by_cases hnil : connection.outboundMessage.data = []
  · simp only [hnil, if_true] at h
    cases h
    exact hmade
  · simp only [hnil, if_false] at h
    cases alloc with
    | false =>
      simp only [mqttEnqueue_false, Bool.false_eq_true, false_and, if_false] at h
      split at h <;> cases h <;> exact hmade
    | true =>
      split at h
      · cases h
        exact hmade
      · split at h
        · exact absurd h (by simp)
        · cases h
          exact .inl rfl

theorem noteSending_eq (c : Client) (written : List UInt8) :
    (c.noteSending written).connection = c.connection ∧
      (c.noteSending written).outbox = c.outbox := by
  unfold Client.noteSending
  split
  · exact ⟨rfl, rfl⟩
  · split <;> exact ⟨rfl, rfl⟩

/-- A publish states a total only for a message it has cut. -/
theorem totalOfCut_of_publish {c c' : Client} {topic : List UInt8} {data : Option Memory}
    {len record : Nat} {input : PublishInput} {result : Option UInt16}
    (h : espMqttClientPublish c topic data len 1 0 record input = some (c', result))
    (htotal : c.connection.TotalOfCut) : c'.connection.TotalOfCut := by
  unfold espMqttClientPublish at h
  simp only at h
  cases henqueue : mqttClientEnqueuePublish c topic data (payloadLength data len) 1 0 false record
      input.random input.alloc with
  | none => simp [henqueue] at h
  | some stored =>
    obtain ⟨d, made⟩ := stored
    have hd : d.connection.TotalOfCut := totalOfCut_of_enqueuePublish henqueue htotal
    cases made with
    | none =>
      simp only [henqueue] at h
      cases h
      exact hd
    | some messageId =>
      simp only [henqueue] at h
      split at h
      · cases h
        exact .inl rfl
      · obtain ⟨transfer, hsending, htransfer⟩ := Option.map_eq_some_iff.mp h
        have hsent := totalOfCut_of_sending hsending hd
        simp only [Nat.one_pos, if_true] at htransfer
        split at htransfer
        · cases htransfer
          exact (noteSending_eq ..).1.symm ▸ hsent
        · cases htransfer
          exact .inl rfl

theorem totalOfCut_of_step {n n' : Node} {a : Action} (hstep : step n a = some n')
    (htotal : n.client.connection.TotalOfCut) : n'.client.connection.TotalOfCut := by
  cases step_spec hstep with
  | publish input call client result hid hcall hpublish =>
    exact totalOfCut_of_publish hpublish htotal
  | round input htask hrun hid =>
    exact htotal.of_total_eq (total_espMqttTaskRound n.client input)
  | called | refused | begin | poll | abort | exit | advance => exact htotal

/-- In every reachable state a total belongs to a message that was cut. -/
theorem totalOfCut_of_reachable {information : ConnectInfo} {now : Nat} {n : Node}
    (h : (node information now).Reachable n) : n.client.connection.TotalOfCut :=
  h.invariant (P := fun n => n.client.connection.TotalOfCut) (.inl rfl)
    fun _ _ _ _ htotal hstep => totalOfCut_of_step hstep htotal

/-! ## What a call stores and sends -/

/-- The item that a call stores and the direct transmission it goes on to. -/
structure Publication where
  stored : Option OutboxItem
  transfer : Option Transfer
  deriving DecidableEq, Repr

/-- The parts of `esp_mqtt_client_publish` that store and send, for the call of
`MqttManager::publish`. -/
def publication (c : Client) (call : Call) (input : PublishInput) : Option Publication :=
  let data := call.args.data
  let len := payloadLength data call.args.payload.length
  match mqttClientEnqueuePublish c call.args.cTopic data len 1 0 false call.record input.random
      input.alloc with
  | none => none
  | some (_, none) => some ⟨none, none⟩
  | some (c, some _) =>
    if c.state ≠ .connected then some ⟨c.outbox.getLast?, none⟩
    else (sending data input.writes c.connection len 0).map fun transfer =>
      ⟨c.outbox.getLast?, some transfer⟩

/-- Marking an item as transmitted keeps the buffers. -/
theorem map_buffer_mark (outbox : Outbox) (msgId : UInt16) (tick : Nat) :
    (outboxSetPending (outboxSetTick outbox msgId tick) msgId .transmitted).map
      OutboxItem.buffer = outbox.map OutboxItem.buffer := by
  rw [outboxSetPending, outboxSetTick,
    map_outboxUpdate msgId (fun item => { item with pending := .transmitted }) OutboxItem.buffer
      fun _ => rfl,
    map_outboxUpdate msgId (fun item => { item with tick := tick }) OutboxItem.buffer fun _ => rfl]

@[simp] theorem getLast?_store (c : Client) (item : OutboxItem) :
    (c.store item).outbox.getLast? = some item := List.getLast?_concat

/-- A call changes the buffers of the outbox by what it stores, and over a connection it reports
whether its transmission was completed. -/
theorem publication_of_publish {c c' : Client} {call : Call} {input : PublishInput}
    {result : Option UInt16}
    (h : espMqttClientPublish c call.args.cTopic call.args.data call.args.payload.length 1 0
      call.record input = some (c', result)) :
    ∃ p, publication c call input = some p ∧
      c'.outbox.map OutboxItem.buffer =
        c.outbox.map OutboxItem.buffer ++ p.stored.toList.map OutboxItem.buffer ∧
      ∀ transfer ∈ p.transfer, transfer.ok = result.isSome := by
  unfold espMqttClientPublish at h
  unfold publication
  simp only at h ⊢
  cases henqueue : mqttClientEnqueuePublish c call.args.cTopic call.args.data
      (payloadLength call.args.data call.args.payload.length) 1 0 false call.record input.random
      input.alloc with
  | none => simp [henqueue] at h
  | some stored =>
    obtain ⟨d, made⟩ := stored
    cases made with
    | none =>
      rcases enqueuePublish_cases henqueue with
        ⟨_, _, connection, msgId, type, qos, rfl⟩ | ⟨hmade, _⟩
      · simp only [henqueue] at h
        cases h
        exact ⟨⟨none, none⟩, rfl, (List.append_nil _).symm, by simp⟩
      · exact absurd hmade (by simp)
    | some messageId =>
      obtain ⟨_, message, connection, hbuilt, hconnection, rfl⟩ := enqueuePublish_built henqueue
      simp only [henqueue] at h ⊢
      split at h
      · rename_i hstate
        cases h
        rw [if_pos hstate, getLast?_store]
        exact ⟨_, rfl, List.map_append, by simp⟩
      · rename_i hstate
        obtain ⟨transfer, hsending, htransfer⟩ := Option.map_eq_some_iff.mp h
        rw [if_neg hstate, hsending, getLast?_store]
        simp only [Nat.one_pos, if_true] at htransfer
        refine ⟨_, rfl, ?_, ?_⟩
        · split at htransfer <;> cases htransfer
          · rw [map_buffer_mark, (noteSending_eq ..).2]
            exact List.map_append
          · exact (congrArg _ (noteSending_eq ..).2).trans List.map_append
        · intro sent hsent
          obtain rfl := Option.some.inj hsent
          split at htransfer <;> rename_i hok <;> cases htransfer
          · exact hok
          · exact Bool.eq_false_iff.mpr hok

/-! ## When both are the packet of the call -/

/-- The length that a call works with. -/
def PublishArgs.len (args : PublishArgs) : Nat := payloadLength args.data args.payload.length

/-- The payload is not empty; or it is null and no total is left over; or it is an empty C
string. -/
def TakenAsGiven (connection : Connection) (args : PublishArgs) : Prop :=
  args.payload = [] →
    (args.data = none → connection.outboundMessage.fragmentedMsgTotalLength = 0) ∧
      ∀ memory ∈ args.data, memory.strlen = 0

instance (connection : Connection) (args : PublishArgs) :
    Decidable (TakenAsGiven connection args) :=
  inferInstanceAs (Decidable (_ → (_ → _) ∧ ∀ memory ∈ args.data, _))

/-- A copy of the given bytes is the given bytes. -/
theorem Memory.slice_prefix (bytes beyond before : List UInt8) :
    Memory.slice ⟨bytes ++ beyond, before⟩ 0 bytes.length = bytes := by
  apply List.ext_getElem
  · exact Memory.length_slice ..
  · intro k hk hlt
    simp [Memory.slice, Memory.read, List.getElem?_append_left hlt, hlt]

/-- What a call carries is its payload, under the right remaining length, exactly when the
payload is taken as it was given. -/
theorem carries_iff_takenAsGiven {connection : Connection} {args : PublishArgs}
    (hfits : PublishFits connection args.cTopic args.data args.len)
    (htotal : connection.TotalOfCut) :
    (publishLength connection args.cTopic args.data args.len =
        args.cTopic.length + 4 + (payloadBytes args.data args.len).length ∧
      payloadBytes args.data args.len = args.payload) ↔ TakenAsGiven connection args := by
  have hroom := hfits.1.2.1
  unfold TakenAsGiven
  by_cases hempty : args.payload = []
  · cases hdata : args.data with
    | none =>
      have hlen : args.len = 0 := hfits.1.2.2 hdata
      rw [hlen, hempty, publishLength, payloadBytes]
      unfold Connection.TotalOfCut at htotal
      unfold bufferLength at htotal hroom
      unfold maxFixedHeaderSize
      simp only [true_and, ne_eq, ite_not, List.length_nil, Nat.add_zero, and_true, true_implies,
        Option.mem_def, reduceCtorEq, false_implies, implies_true]
      -- A total of a cut message is larger than any header.
      split <;> omega
    | some memory =>
      have hlen : args.len = memory.strlen := by
        simp [PublishArgs.len, payloadLength, hdata, hempty]
      rw [hlen, hempty, publishLength, ← List.length_eq_zero_iff, length_payloadBytes]
      simp
  · have hdata : args.data = some ⟨args.payload ++ args.beyond, args.before⟩ :=
      if_neg fun h => hempty h.1
    have hlen : args.len = args.payload.length := by
      simp [PublishArgs.len, payloadLength, hdata, hempty]
    have hslice := Memory.slice_prefix args.payload args.beyond args.before
    rw [hdata, hlen, payloadBytes, hslice, publishLength]
    simp [hempty]

/-- What a call stores, and when a completed transmission is a second copy of it. -/
theorem publication_spec {c : Client} {call : Call} {input : PublishInput} {p : Publication}
    (h : publication c call input = some p) {item : OutboxItem} (hitem : item ∈ p.stored) :
    PublishFits c.connection call.args.cTopic call.args.data call.args.len ∧
      item = publishItem (storedPacket c.connection call.args.cTopic input.random call.args.data
        call.args.len) input.random call.record c.now ∧
      ∀ transfer ∈ p.transfer, transfer.ok = true →
        (transfer.written = item.buffer ↔
          OffsetBeforeData c.connection call.args.cTopic call.args.data call.args.len) := by
  unfold publication at h
  simp only at h
  split at h
  · exact absurd h (by simp)
  · cases h
    exact absurd hitem (by simp)
  · rename_i d messageId henqueue
    obtain ⟨hfits, message, connection, hbuilt, hconnection, rfl⟩ := enqueuePublish_built henqueue
    rw [getLast?_store] at h
    split at h
    · cases h
      obtain rfl := Option.some.inj hitem
      exact ⟨hfits, rfl, by simp⟩
    · obtain ⟨transfer, hsending, rfl⟩ := Option.map_eq_some_iff.mp h
      obtain rfl := Option.some.inj hitem
      refine ⟨hfits, rfl, ?_⟩
      intro sent hsent hok
      obtain rfl := Option.some.inj hsent
      exact hbuilt.written_eq_iff hconnection hsending hok

/-- In every run, the item that a call stores is the PUBLISH of its topic and its payload exactly
when the payload is taken as it was given, and what a completed direct transmission wrote is
that item exactly when the offset lies in front of the data. -/
theorem publish_conforms_iff {information : ConnectInfo} {now : Nat} {as : List Action}
    {n n' : Node} {call : Call} {input : PublishInput}
    (hrun : (node information now).exec (node information now).init as = some n)
    (hcall : n.calling = some call) (hnul : 0 ∉ call.args.topic)
    (hstep : step n (.publish input) = some n') :
    ∃ p, publication n.client call input = some p ∧
      n'.client.outbox.map OutboxItem.buffer =
        n.client.outbox.map OutboxItem.buffer ++ p.stored.toList.map OutboxItem.buffer ∧
      ∀ item ∈ p.stored,
        (IsPublishOf item.buffer call.args.topic item.msgId call.args.payload ↔
          TakenAsGiven n.client.connection call.args) ∧
        ∀ transfer ∈ p.transfer, transfer.ok = true →
          (transfer.written = item.buffer ↔
            OffsetBeforeData n.client.connection call.args.topic call.args.data
              call.args.len) := by
  have htotal := totalOfCut_of_reachable ⟨as, hrun⟩
  have htopic : call.args.cTopic = call.args.topic := by
    apply List.takeWhile_eq_self_iff.mpr
    intro b hb
    exact bne_iff_ne.mpr fun hzero => hnul (hzero ▸ hb)
  cases step_spec hstep with
  | publish input call' client result hid hcalling hpublish =>
    cases hcall.symm.trans hcalling
    obtain ⟨p, hp, houtbox, _⟩ := publication_of_publish hpublish
    refine ⟨p, hp, houtbox, ?_⟩
    intro item hitem
    obtain ⟨hfits, rfl, hsent⟩ := publication_spec hp hitem
    have hid : input.random ≠ 0 := fun hzero => absurd hid.1 (by simp [hzero])
    have hpacket : IsPublishOf _ _ _ call.args.payload ↔ _ :=
      isPublishOf_storedPacket_iff hfits hid
    rw [carries_iff_takenAsGiven hfits htotal] at hpacket
    rw [htopic] at hpacket hsent ⊢
    exact ⟨hpacket, hsent⟩

/-- More bytes than the buffer takes. -/
def tooLong (topic : List UInt8) : PublishArgs where
  topic := topic
  payload := List.replicate 1020 0
  null := false
  beyond := []
  before := []

/-- No bytes, in front of others. -/
def noBytes (null : Bool) : PublishArgs where
  topic := [0x74]
  payload := []
  null := null
  beyond := [0x41, 0x42]
  before := []

/-- A connected node whose application calls `publish`. -/
def called (args : PublishArgs) : List Action :=
  [.begin, .round quietRound, .poll true, .call args]

/-- A publish whose packet the transport takes in two writes. -/
def twoWrites : PublishInput := ⟨7, true, [[2000], [2000]], 0⟩

/-- A payload that does not fit the buffer is stored and sent as one packet. -/
theorem publish_conforms_iff_tooLong :
    ∃ n n' p item transfer,
      (node information 0).exec (node information 0).init (called (tooLong [0x74])) = some n ∧
      step n (.publish twoWrites) = some n' ∧
      n'.client.outbox.map OutboxItem.buffer = [item.buffer] ∧
      publication n.client ⟨0, tooLong [0x74]⟩ twoWrites = some p ∧
      p.stored = some item ∧ p.transfer = some transfer ∧ transfer.ok = true ∧
      IsPublishOf item.buffer [0x74] item.msgId (List.replicate 1020 0) ∧
      transfer.written = item.buffer := by
  have hrun : ((node information 0).exec (node information 0).init
      (called (tooLong [0x74]))).bind (fun n => (step n (.publish twoWrites)).bind fun _ =>
        (publication n.client ⟨0, tooLong [0x74]⟩ twoWrites).map fun p =>
          (n.calling, n.client.outbox, p.stored.isSome, p.transfer.map Transfer.ok,
            decide (TakenAsGiven n.client.connection (tooLong [0x74])),
            decide (OffsetBeforeData n.client.connection [0x74] (tooLong [0x74]).data
              (tooLong [0x74]).len))) =
        some (some ⟨0, tooLong [0x74]⟩, [], true, some true, true, true) := by decide +kernel
  obtain ⟨n, hn, hrun⟩ := Option.bind_eq_some_iff.mp hrun
  obtain ⟨n', hstep, hrun⟩ := Option.bind_eq_some_iff.mp hrun
  obtain ⟨p, hp, hfacts⟩ := Option.map_eq_some_iff.mp hrun
  simp only [Prod.mk.injEq, decide_eq_true_eq, Option.isSome_iff_exists,
    Option.map_eq_some_iff] at hfacts
  obtain ⟨hcall, hempty, ⟨item, hitem⟩, ⟨transfer, htransfer, hok⟩, htaken, hoffset⟩ := hfacts
  obtain ⟨p', hp', houtbox, hconforms⟩ :=
    publish_conforms_iff hn hcall (by decide) hstep
  cases hp.symm.trans hp'
  obtain ⟨hpacket, hsent⟩ := hconforms item hitem
  refine ⟨n, n', p, item, transfer, hn, hstep, ?_, hp, hitem, htransfer, hok,
    hpacket.mpr htaken, (hsent transfer htransfer hok).mpr hoffset⟩
  rw [houtbox, hempty, hitem]
  rfl

/-- What is seen of the call that a run ends with: the payload it was given, and what it stores
and sends. -/
def observed (as : List Action) (input : PublishInput) :
    Option (List UInt8 × Publication) := do
  let n ← (node information 0).exec (node information 0).init as
  let call ← n.calling
  let _ ← step n (.publish input)
  let p ← publication n.client call input
  some (call.args.payload, p)

/-- The bytes that a call stores and those that it sends. -/
def Publication.bytes (p : Publication) : Option (List UInt8) × Option (List UInt8) :=
  (p.stored.map OutboxItem.buffer, p.transfer.map Transfer.written)

/-- Without a length of its own a payload is read up to a null byte; the offset of a message
that was cut off makes the sending loop go on behind a shorter one; and the total of a message
that was not stored becomes the length of an empty one. -/
theorem publish_deviates :
    (observed (called (noBytes false)) ⟨7, true, [[100]], 0⟩).map
        (fun o => (o.1, o.2.bytes.1.bind fun bytes =>
          (PublishPacket.decode bytes).map PublishPacket.Packet.payload)) =
      some ([], some [0x41, 0x42]) ∧
    (observed (called (tooLong (List.replicate 8 0x61)) ++ .publish ⟨7, true, [[-1]], 0⟩ ::
        reconnected ++ [.call oneByte]) ⟨8, true, [[100], [100]], 0⟩).map
        (fun o => (o.1, o.2.bytes)) =
      some ([0x08], some [0x32, 6, 0, 1, 0x74, 0, 8, 0x08],
        some ([0x32, 6, 0, 1, 0x74, 0, 8, 0x08] ++ [0, 0x08])) ∧
    (observed (called (tooLong (List.replicate 3 0x61)) ++ [.publish ⟨7, false, [], 0⟩,
        .call (noBytes true)]) ⟨8, true, [[100]], 0⟩).map
        (fun o => (o.1, o.2.bytes.1.map fun bytes =>
          (bytes, (PublishPacket.decode bytes).isSome))) =
      some ([], some ([0x32, 0x83, 8, 0, 1, 0x74, 0, 8], false)) := by
  refine ⟨?_, ?_, ?_⟩
  · decide +kernel
  · decide +kernel
  · decide +kernel

end IndustrialIot.Edge.Mqtt
