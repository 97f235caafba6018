import IndustrialIot.Edge.Mqtt.Connected
import Mathlib.Logic.Relation

/-!
# What a step does to a client

A round and a publish consist of a few kinds of moves: work on messages and on the outbox, the
passing of time, the abort of the connection, and what concerns pings and connecting. What every
move of some kinds keeps is kept by every step that is made of them.
-/

namespace IndustrialIot.Edge.Mqtt

/-! ## The configuration -/

/-- What the connection of a client was configured with. -/
def Client.information (c : Client) : ConnectInfo := c.connection.information

@[simp] theorem information_finiMessage (connection : Connection) (body : List UInt8)
    (type dup qos retain : Nat) :
    (finiMessage connection body type dup qos retain).information = connection.information := by
  unfold finiMessage
  simp only
  split <;> rfl

@[simp] theorem information_mqttMsgConnect (connection : Connection) :
    (mqttMsgConnect connection).information = connection.information := by
  unfold mqttMsgConnect
  split
  · rfl
  · exact information_finiMessage ..

@[simp] theorem information_ackMessage (type : MsgType) (qos : Nat) (connection : Connection)
    (messageId random : UInt16) :
    (ackMessage type qos connection messageId random).information = connection.information := by
  unfold ackMessage
  split
  · rfl
  · exact information_finiMessage ..

@[simp] theorem information_publishBody (connection : Connection) (header : List UInt8)
    (data : Option Memory) (len : Nat) :
    (publishBody connection header data len).1.information = connection.information := by
  unfold publishBody
  split
  · rfl
  · simp only
    split <;> rfl

@[simp] theorem information_mqttMsgPublish (connection : Connection) (topic : List UInt8)
    (data : Option Memory) (len qos retain : Nat) (random : UInt16) :
    (mqttMsgPublish connection topic data len qos retain random).1.information =
      connection.information := by
  unfold mqttMsgPublish
  split
  · rfl
  · simp

theorem information_sending {data : Option Memory} {scripts : List (List Int)}
    {connection : Connection} {remainingLen currentData : Int} {transfer : Transfer}
    (h : sending data scripts connection remainingLen currentData = some transfer) :
    transfer.connection.information = connection.information := by
  induction scripts generalizing connection remainingLen currentData transfer with
  | nil =>
    cases h
    rfl
  | cons results scripts ih =>
    rw [sending] at h
    simp only at h
    split at h
    · split at h
      · cases data with
        | none => cases h
        | some memory =>
          obtain ⟨rest, hrest, rfl⟩ := Option.map_eq_some_iff.mp h
          have hinformation := ih hrest
          exact hinformation
      · cases h
        rfl
    · cases h
      rfl

theorem information_noteSending (c : Client) (written : List UInt8) :
    (c.noteSending written).information = c.information := by
  unfold Client.noteSending
  split
  · rfl
  · split <;> rfl

theorem information_enqueuePublish {c c' : Client} {topic : List UInt8} {data : Option Memory}
    {len record : Nat} {random : UInt16} {alloc : Bool} {made : Option UInt16}
    (h : mqttClientEnqueuePublish c topic data len 1 0 false record random alloc =
      some (c', made)) : c'.information = c.information := by
  have hmade := information_mqttMsgPublish c.connection topic data len 1 0 random
  unfold mqttClientEnqueuePublish makePublish at h
  generalize mqttMsgPublish c.connection topic data len 1 0 random = d at h hmade
  obtain ⟨connection, messageId⟩ := d
  simp only [Nat.one_pos, true_or, if_true] at h
  by_cases hnil : connection.outboundMessage.data = []
  · simp only [hnil, if_true] at h
    cases h
    exact hmade
  · simp only [hnil, if_false, mqttEnqueue] at h
    split at h
    · split at h <;> cases h
      · exact hmade
      · rename_i hstore
        obtain ⟨outbox, _, rfl⟩ := Option.map_eq_some_iff.mp hstore
        exact hmade
    · split at h
      · cases h
      · split at h <;> cases h
        · exact hmade
        · rename_i hstore
          obtain ⟨outbox, _, rfl⟩ := Option.map_eq_some_iff.mp hstore
          exact hmade

theorem information_espMqttClientPublish {c c' : Client} {topic : List UInt8}
    {data : Option Memory} {len record : Nat} {input : PublishInput} {result : Option UInt16}
    (h : espMqttClientPublish c topic data len 1 0 record input = some (c', result)) :
    c'.information = c.information := by
  unfold espMqttClientPublish at h
  simp only at h
  cases henqueue : mqttClientEnqueuePublish c topic data (payloadLength data len) 1 0 false record
      input.random input.alloc with
  | none => simp [henqueue] at h
  | some stored =>
    obtain ⟨d, made⟩ := stored
    have hd : d.information = c.information := information_enqueuePublish henqueue
    cases made with
    | none =>
      simp only [henqueue] at h
      cases h
      exact hd
    | some messageId =>
      simp only [henqueue] at h
      split at h
      · cases h
        exact hd
      · obtain ⟨transfer, hsending, htransfer⟩ := Option.map_eq_some_iff.mp h
        have hsent : transfer.connection.information = c.information :=
          (information_sending hsending).trans hd
        simp only [Nat.one_pos, if_true] at htransfer
        split at htransfer
        · cases htransfer
          exact (information_noteSending ..).trans hsent
        · cases htransfer
          exact (information_noteSending ..).trans hsent

/-! ## Moves -/

/-- Two clients that differ at most in their message, their outbox and the notes on both. -/
structure Client.Same (c c' : Client) : Prop where
  now : c'.now = c.now
  state : c'.state = c.state
  run : c'.run = c.run
  keepaliveTick : c'.keepaliveTick = c.keepaliveTick
  reconnectTick : c'.reconnectTick = c.reconnectTick
  waitTimeoutMs : c'.waitTimeoutMs = c.waitTimeoutMs
  waitForPingResp : c'.waitForPingResp = c.waitForPingResp
  isConnected : c'.isConnected = c.isConnected
  information : c'.information = c.information

/-- The kinds of moves. -/
inductive Kind where
  | work
  | time
  | abort
  /-- A ping is sent. -/
  | ping
  /-- A ping is answered. -/
  | pong
  | connect
  /-- There is no transport. -/
  | stop
  /-- The wait for the next attempt to connect is over. -/
  | retry
  deriving DecidableEq

/-- A move of a client. -/
inductive Move : Kind → Client → Client → Prop
  | work {c c' : Client} (h : c.Same c') : Move .work c c'
  | time (c : Client) (ms : Nat) : Move .time c (c.advance ms)
  | abort (c : Client) : Move .abort c (espMqttAbortConnection c)
  | ping (c : Client) : Move .ping c { c with waitForPingResp := true }
  | pong (c : Client) : Move .pong c { c with waitForPingResp := false, keepaliveTick := c.now }
  | connect (c : Client) :
      Move .connect c
        { c with
          state := .connected
          isConnected := true
          keepaliveTick := c.now
          waitForPingResp := false }
  | stop (c : Client) : Move .stop c { c with run := false }
  | retry (c : Client) (hstate : c.state = .waitReconnect)
      (hdue : c.waitTimeoutMs < c.now - c.reconnectTick) :
      Move .retry c { c with state := .init, reconnectTick := c.now }

/-- Moves of some kinds, one after the other. -/
def Moves (kinds : List Kind) : Client → Client → Prop :=
  Relation.ReflTransGen fun c c' => ∃ k ∈ kinds, Move k c c'

section

variable {kinds : List Kind} {c c' c'' : Client} {input : RoundInput}

theorem Moves.refl : Moves kinds c c := Relation.ReflTransGen.refl

theorem Moves.trans (h : Moves kinds c c') (h' : Moves kinds c' c'') : Moves kinds c c'' :=
  Relation.ReflTransGen.trans h h'

theorem Move.moves {k : Kind} (h : Move k c c') (hk : k ∈ kinds) : Moves kinds c c' :=
  .single ⟨k, hk, h⟩

theorem Client.Same.moves (h : c.Same c') (hk : .work ∈ kinds) : Moves kinds c c' :=
  (Move.work h).moves hk

theorem Moves.mono {more : List Kind} (h : Moves kinds c c') (hsub : kinds ⊆ more) :
    Moves more c c' :=
  Relation.ReflTransGen.mono (fun _ _ ⟨k, hk, hmove⟩ => ⟨k, hsub hk, hmove⟩) _ _ h

/-- What every move keeps is kept. -/
theorem Moves.induct {P : Client → Prop} (h : Moves kinds c c')
    (hstep : ∀ k ∈ kinds, ∀ d d', Move k d d' → P d → P d') (hc : P c) : P c' := by
  induction h with
  | refl => exact hc
  | tail _ hmove ih =>
    obtain ⟨k, hk, hmove⟩ := hmove
    exact hstep k hk _ _ hmove ih

/-! ## The rounds of the task -/

theorem same_reply {build : Connection → UInt16 → UInt16 → Connection}
    (hbuild : ∀ connection msgId random,
      (build connection msgId random).information = connection.information)
    (msgId : UInt16) (checked : Bool) : c.Same (c.reply build msgId checked input).2 := by
  unfold Client.reply
  simp only
  split <;> exact ⟨rfl, rfl, rfl, rfl, rfl, rfl, rfl, rfl, hbuild ..⟩

/-- Receiving is work on messages and on the outbox, unless a ping is answered. -/
theorem same_mqttProcessReceive (h : input.received ≠ .pingresp) :
    c.Same (mqttProcessReceive c input).2 := by
  have hreply : ∀ (type : MsgType) qos msgId checked,
      c.Same (c.reply (ackMessage type qos) msgId checked input).2 :=
    fun type qos msgId checked => same_reply (information_ackMessage type qos) msgId checked
  unfold mqttProcessReceive
  cases hreceived : input.received with
  | nothing | other | failure | suback | unsuback | puback | pubcomp =>
    exact ⟨rfl, rfl, rfl, rfl, rfl, rfl, rfl, rfl, rfl⟩
  | pingresp => exact absurd hreceived h
  | publish msgId qos delivered =>
    simp only
    split
    · split
      · exact hreply ..
      · split
        · exact hreply ..
        · exact ⟨rfl, rfl, rfl, rfl, rfl, rfl, rfl, rfl, rfl⟩
    · exact ⟨rfl, rfl, rfl, rfl, rfl, rfl, rfl, rfl, rfl⟩
  | pubrec msgId =>
    obtain ⟨hnow, hstate, hrun, hkeepalive, hreconnect, htimeout, hping, hflag, hinformation⟩ :=
      hreply .pubrel 1 msgId false
    simp only
    split <;> exact ⟨hnow, hstate, hrun, hkeepalive, hreconnect, htimeout, hping, hflag,
      hinformation⟩
  | pubrel msgId => exact hreply ..

theorem moves_mqttProcessReceive : Moves [.work, .pong] c (mqttProcessReceive c input).2 := by
  by_cases hpong : input.received = .pingresp
  · unfold mqttProcessReceive
    rw [hpong]
    exact (Move.pong c).moves (by decide)
  · exact (same_mqttProcessReceive hpong).moves (by decide)

theorem moves_mqttResendQueued (item : OutboxItem) (handle : Nat) :
    Moves [.work, .time, .abort] c (mqttResendQueued c item handle input).2 := by
  have hwork : ∀ d : Client, c.Same d → ∀ e : Client, (d.advance input.resendTime).Same e →
      Moves [.work, .time, .abort] c e := fun d hd e he =>
    (hd.moves (by decide)).trans (((Move.time d _).moves (by decide)).trans
      (he.moves (by decide)))
  unfold mqttResendQueued
  simp only
  generalize hd : ({ c with
    pendingMsgId := item.msgId
    pendingMsgType := item.msgType
    pendingPublishQos := item.msgQos
    outbox := _
    connection := _ } : Client) = d
  have hsame : c.Same d := by
    rw [← hd]
    exact ⟨rfl, rfl, rfl, rfl, rfl, rfl, rfl, rfl, rfl⟩
  split
  · exact hwork d hsame _ ⟨rfl, rfl, rfl, rfl, rfl, rfl, rfl, rfl, rfl⟩
  · exact (hwork d hsame _ ⟨rfl, rfl, rfl, rfl, rfl, rfl, rfl, rfl, rfl⟩).trans
      ((Move.abort _).moves (by decide))

theorem moves_resendFirstQueued (item : OutboxItem) (handle : Nat) :
    Moves [.work, .time, .abort] c (resendFirstQueued c item handle input) := by
  have hresend : Moves [.work, .time, .abort] c (mqttResendQueued c item handle input).2 :=
    moves_mqttResendQueued item handle
  have hwork : ∀ d : Client, (mqttResendQueued c item handle input).2.Same d →
      Moves [.work, .time, .abort] c d := fun d hd =>
    hresend.trans (hd.moves (by decide))
  unfold resendFirstQueued
  simp only
  split
  · split <;> split <;> exact hwork _ ⟨rfl, rfl, rfl, rfl, rfl, rfl, rfl, rfl, rfl⟩
  · exact hresend

theorem moves_retransmitFirst : Moves [.work, .time, .abort] c (retransmitFirst c input) := by
  unfold retransmitFirst
  split
  · split
    · exact moves_mqttResendQueued ..
    · exact .refl
  · exact .refl

theorem moves_retransmitPubrel : Moves [.work, .time, .abort] c (retransmitPubrel c input) := by
  unfold retransmitPubrel mqttResendPubrel
  split
  · rename_i item handle hitem
    split
    · have hwork : c.Same { c with
          pendingMsgId := item.msgId
          pendingMsgType := item.msgType
          pendingPublishQos := item.msgQos
          connection := mqttMsgPubrel c.connection item.msgId input.random } :=
        ⟨rfl, rfl, rfl, rfl, rfl, rfl, rfl, rfl, information_ackMessage ..⟩
      simp only
      split
      · exact hwork.moves (by decide)
      · split
        · exact hwork.moves (by decide)
        · exact (hwork.moves (by decide)).trans ((Move.abort _).moves (by decide))
    · exact .refl
  · exact .refl

theorem moves_resend : Moves [.work, .time, .abort] c (resend c input) := by
  unfold resend
  split
  · exact moves_resendFirstQueued ..
  · split
    · have hclock : c.Same { c with lastRetransmit := c.now } :=
        ⟨rfl, rfl, rfl, rfl, rfl, rfl, rfl, rfl, rfl⟩
      exact (hclock.moves (by decide)).trans
        (moves_retransmitFirst.trans moves_retransmitPubrel)
    · exact .refl

theorem moves_processKeepalive : Moves [.work, .abort, .ping] c (processKeepalive c input) := by
  have hwork : c.Same { c with connection := mqttMsgPingreq c.connection } :=
    ⟨rfl, rfl, rfl, rfl, rfl, rfl, rfl, rfl, information_finiMessage ..⟩
  unfold processKeepalive
  simp only
  split
  · exact .refl
  · split
    · split
      · exact (Move.abort c).moves (by decide)
      · exact .refl
    · split
      · split
        · exact (hwork.moves (by decide)).trans ((Move.ping _).moves (by decide))
        · exact (hwork.moves (by decide)).trans ((Move.abort _).moves (by decide))
      · exact .refl

/-- A round of a connected client. -/
theorem moves_connectedRound :
    Moves [.work, .time, .abort, .ping, .pong] c (connectedRound c input) := by
  have hreceive : Moves [.work, .time, .abort, .ping, .pong] c
      (mqttProcessReceive (c.advance input.receiveTime) input).2 :=
    ((Move.time c _).moves (by decide)).trans (moves_mqttProcessReceive.mono (by decide))
  unfold connectedRound
  simp only
  split
  · refine hreceive.trans (Moves.trans ?_ (moves_processKeepalive.mono (by decide)))
    refine Moves.trans ?_ (moves_resend.mono (by decide))
    split
    · exact Client.Same.moves ⟨rfl, rfl, rfl, rfl, rfl, rfl, rfl, rfl, rfl⟩ (by decide)
    · exact .refl
  · exact hreceive.trans ((Move.abort _).moves (by decide))

/-- A round that connects the transport ends connected or with an abort. -/
theorem moves_initRound_created (h : input.transportCreated = true) :
    ∃ d, Moves [.work, .time] c d ∧
      (Move .connect d (initRound c input) ∨ Move .abort d (initRound c input)) := by
  have htime : Moves [.work, .time] c (c.advance input.connectTime) :=
    (Move.time c _).moves (by decide)
  have hwork : ∀ d : Client, (c.advance input.connectTime).Same d → Moves [.work, .time] c d :=
    fun d hd => htime.trans (hd.moves (by decide))
  have hinformation := information_mqttMsgConnect c.connection
  unfold initRound espMqttConnect
  rw [if_pos h]
  simp only
  split
  · by_cases hnil : (mqttMsgConnect
        (c.advance input.connectTime).connection).outboundMessage.data = []
    · simp only [if_pos hnil, Bool.false_eq_true, if_false]
      exact ⟨{ c.advance input.connectTime with connection := mqttMsgConnect c.connection },
        hwork _ ⟨rfl, rfl, rfl, rfl, rfl, rfl, rfl, rfl, hinformation⟩, .inr (.abort _)⟩
    · simp only [if_neg hnil]
      split
      · exact ⟨{ c.advance input.connectTime with
            connection := mqttMsgConnect c.connection
            pendingMsgType := mqttGetType (mqttMsgConnect c.connection).outboundMessage.data
            pendingMsgId := 0
            journal := { c.journal with onWire := [] } },
          hwork _ ⟨rfl, rfl, rfl, rfl, rfl, rfl, rfl, rfl, hinformation⟩, .inl (.connect _)⟩
      · exact ⟨{ c.advance input.connectTime with
            connection := mqttMsgConnect c.connection
            pendingMsgType := mqttGetType (mqttMsgConnect c.connection).outboundMessage.data
            pendingMsgId := 0 },
          hwork _ ⟨rfl, rfl, rfl, rfl, rfl, rfl, rfl, rfl, hinformation⟩, .inr (.abort _)⟩
  · exact ⟨_, htime, .inr (.abort _)⟩

theorem moves_initRound : Moves [.work, .time, .abort, .connect, .stop] c (initRound c input) := by
  by_cases hcreated : input.transportCreated = true
  · obtain ⟨d, hd, hlast⟩ := moves_initRound_created (c := c) hcreated
    refine (hd.mono (by decide)).trans ?_
    rcases hlast with hconnect | habort
    · exact hconnect.moves (by decide)
    · exact habort.moves (by decide)
  · rw [initRound, if_neg hcreated]
    exact (Move.stop c).moves (by decide)

theorem same_mqttDeleteExpiredMessages : c.Same (mqttDeleteExpiredMessages c) :=
  ⟨rfl, rfl, rfl, rfl, rfl, rfl, rfl, rfl, rfl⟩

/-- A round of the task. -/
theorem moves_espMqttTaskRound :
    Moves [.work, .time, .abort, .ping, .pong, .connect, .stop, .retry] c
      (espMqttTaskRound c input).1 := by
  have hexpire : Moves [.work, .time, .abort, .ping, .pong, .connect, .stop, .retry] c
      (mqttDeleteExpiredMessages c) := same_mqttDeleteExpiredMessages.moves (by decide)
  unfold espMqttTaskRound
  simp only
  cases hstate : (mqttDeleteExpiredMessages c).state with
  | disconnected => exact hexpire
  | init => exact hexpire.trans (moves_initRound.mono (by decide))
  | connected => exact hexpire.trans (moves_connectedRound.mono (by decide))
  | waitReconnect =>
    simp only
    split
    · rename_i hdue
      exact hexpire.trans ((Move.retry _ hstate hdue).moves (by decide))
    · exact hexpire

end

/-! ## Publishing -/

/-- A publish works on messages and on the outbox, and a failed one aborts the connection. -/
theorem Published.moves {c c' : Client} {fits : Prop} {record : Nat} {input : PublishInput}
    {result : Option UInt16} (h : Published c fits record input c' result)
    (hinformation : c'.information = c.information) : Moves [.work, .time, .abort] c c' := by
  cases h with
  | rejected | offline =>
    exact Client.Same.moves ⟨rfl, rfl, rfl, rfl, rfl, rfl, rfl, rfl, hinformation⟩ (by decide)
  | cutOff hstored hstate connection buffer whole =>
    have hstore : c.Same (c.storePublish connection buffer record input) :=
      ⟨rfl, rfl, rfl, rfl, rfl, rfl, rfl, rfl, hinformation⟩
    have hnote : ((c.storePublish connection buffer record input).advance input.elapsed).Same
        ((c.storePublish connection buffer record input).afterSending whole record input) :=
      ⟨rfl, rfl, rfl, rfl, rfl, rfl, rfl, rfl, rfl⟩
    exact (hstore.moves (by decide)).trans (((Move.time _ _).moves (by decide)).trans
      ((hnote.moves (by decide)).trans ((Move.abort _).moves (by decide))))
  | sent hstored hstate connection buffer =>
    have hstore : c.Same (c.storePublish connection buffer record input) :=
      ⟨rfl, rfl, rfl, rfl, rfl, rfl, rfl, rfl, hinformation⟩
    exact (hstore.moves (by decide)).trans (((Move.time _ input.elapsed).moves (by decide)).trans
      (Client.Same.moves ⟨rfl, rfl, rfl, rfl, rfl, rfl, rfl, rfl, rfl⟩ (by decide)))

/-! ## What every move keeps -/

theorem Move.now_le {k : Kind} {c c' : Client} (h : Move k c c') : c.now ≤ c'.now := by
  cases h with
  | work h => exact Nat.le_of_eq h.now.symm
  | time => exact Nat.le_add_right ..
  | abort | ping | pong | connect | stop | retry => exact Nat.le_refl _

theorem Move.information {k : Kind} {c c' : Client} (h : Move k c c') :
    c'.information = c.information := by
  cases h with
  | work h => exact h.information
  | time | abort | ping | pong | connect | stop | retry => rfl

theorem Moves.now_le {kinds : List Kind} {c c' : Client} (h : Moves kinds c c') : c.now ≤ c'.now :=
  h.induct (P := fun d => c.now ≤ d.now)
    (fun _ _ _ _ hmove hd => Nat.le_trans hd hmove.now_le) (Nat.le_refl _)

theorem Moves.information {kinds : List Kind} {c c' : Client} (h : Moves kinds c c') :
    c'.information = c.information :=
  h.induct (P := fun d => d.information = c.information)
    (fun _ _ _ _ hmove hd => hmove.information.trans hd) rfl

/-- Time does not go back. -/
theorem now_le_step {n n' : Node} {a : Action} (h : step n a = some n') :
    n.client.now ≤ n'.client.now := by
  cases step_spec h with
  | publish input call client result hid hcall hpublish =>
    exact ((published hpublish).moves (information_espMqttClientPublish hpublish)).now_le
  | round input htask hrun hid => exact moves_espMqttTaskRound.now_le
  | advance ms => exact Nat.le_add_right ..
  | called | refused | begin | poll | abort | exit => exact Nat.le_refl _

/-- A step leaves the configuration alone. -/
theorem information_step {n n' : Node} {a : Action} (h : step n a = some n') :
    n'.client.information = n.client.information := by
  cases step_spec h with
  | publish input call client result hid hcall hpublish =>
    exact information_espMqttClientPublish hpublish
  | round input htask hrun hid => exact moves_espMqttTaskRound.information
  | called | refused | begin | poll | abort | exit | advance => rfl

end IndustrialIot.Edge.Mqtt
