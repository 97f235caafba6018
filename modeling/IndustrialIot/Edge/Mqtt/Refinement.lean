import IndustrialIot.Edge.Mqtt.Manager
import IndustrialIot.Edge.Mqtt.Publish

/-!
# The client is a store and forward

The outbox and the journal of a client are the state of a store of numbered records, and
whatever runs under the lock is a run of the store. The conditions of the store's results
are carried along: a condition on the store's actions becomes one on the node's steps.
-/

namespace IndustrialIot.Edge.Mqtt

/-- The store that a client is. -/
def Client.view (c : Client) : StoreForward.State UInt16 where
  entries := c.outbox.entries
  submitted := c.journal.stored
  sent := c.journal.sent
  onWire := c.journal.onWire
  acked := c.journal.acked
  expired := c.journal.expired
  wiped := c.journal.wiped
  misanswered := c.journal.misanswered

/-- The packet type and the quality of service of an item. -/
def OutboxItem.kind (item : OutboxItem) : Nat × Nat := (item.msgType, item.msgQos)

/-- All items are QoS 1 PUBLISH packets. -/
def Outbox.PublishOnly (outbox : Outbox) : Prop :=
  ∀ kind ∈ outbox.map OutboxItem.kind, kind = (MsgType.publish.code, 1)

theorem Outbox.PublishOnly.item {outbox : Outbox} (h : outbox.PublishOnly) {item : OutboxItem}
    (hitem : item ∈ outbox) : item.msgType = MsgType.publish.code ∧ item.msgQos = 1 :=
  Prod.mk.inj (h item.kind (List.mem_map_of_mem hitem))

/-- Fewer items are still PUBLISH packets. -/
theorem Outbox.PublishOnly.sublist {outbox fewer : Outbox} (h : outbox.PublishOnly)
    (hfewer : fewer.Sublist outbox) : fewer.PublishOnly :=
  fun kind hkind => h kind ((hfewer.map _).subset hkind)

theorem Outbox.PublishOnly.setPending {outbox : Outbox} (h : outbox.PublishOnly)
    (msgId : UInt16) (pending : PendingState) :
    (outboxSetPending outbox msgId pending).PublishOnly := by
  rw [Outbox.PublishOnly, outboxSetPending,
    map_outboxUpdate msgId (fun item => { item with pending := pending }) OutboxItem.kind
      fun _ => rfl]
  exact h

theorem Outbox.PublishOnly.setTick {outbox : Outbox} (h : outbox.PublishOnly) (msgId : UInt16)
    (tick : Nat) : (outboxSetTick outbox msgId tick).PublishOnly := by
  rw [Outbox.PublishOnly, outboxSetTick,
    map_outboxUpdate msgId (fun item => { item with tick := tick }) OutboxItem.kind fun _ => rfl]
  exact h

/-- The conditions on the store's actions that its own steps never break. -/
structure Admits (Q : StoreForward.State UInt16 → StoreForward.Action UInt16 → Prop) : Prop where
  mark : ∀ {s t key record stamp}, Q s (.submitSent key record stamp) →
    StoreForward.step s (.submitSent key record stamp) = some t → ∀ time, Q t (.mark key time)
  resend : ∀ s, Q s .resend
  retransmit : ∀ s, Q s .retransmit
  expire : ∀ s now, Q s (.expire now outboxExpiredTimeoutMs)
  link : ∀ s, Q s .link

theorem admits_true : Admits fun _ _ => True where
  mark _ _ _ := trivial
  resend _ := trivial
  retransmit _ := trivial
  expire _ _ := trivial
  link _ := trivial

/-- Between two clients lies a run of the store whose steps meet a condition. -/
structure Refines (Q : StoreForward.State UInt16 → StoreForward.Action UInt16 → Prop)
    (c c' : Client) : Prop where
  items : c'.outbox.PublishOnly
  run : ∃ as, (StoreForward.machine UInt16).exec c.view as = some c'.view ∧
    (StoreForward.machine UInt16).StepsMeet Q c.view as

section

variable {Q : StoreForward.State UInt16 → StoreForward.Action UInt16 → Prop} {c c' c'' : Client}

/-- What changes neither the outbox nor the journal is no step of the store. -/
theorem Refines.of_eq (hitems : c.outbox.PublishOnly) (houtbox : c'.outbox = c.outbox)
    (hjournal : c'.journal = c.journal) : Refines Q c c' where
  items := houtbox ▸ hitems
  run := ⟨[], by simp [Client.view, houtbox, hjournal], trivial⟩

theorem Refines.single {a : StoreForward.Action UInt16} (hitems : c'.outbox.PublishOnly)
    (hstep : StoreForward.step c.view a = some c'.view) (hq : Q c.view a) : Refines Q c c' where
  items := hitems
  run := ⟨[a], (Machine.exec_singleton _ _ _).trans hstep, hq, fun _ _ => trivial⟩

theorem Refines.trans (h : Refines Q c c') (h' : Refines Q c' c'') : Refines Q c c'' where
  items := h'.items
  run := by
    obtain ⟨as, has, hq⟩ := h.run
    obtain ⟨bs, hbs, hq'⟩ := h'.run
    refine ⟨as ++ bs, (Machine.exec_append_eq_some _).mpr ⟨_, has, hbs⟩,
      Machine.stepsMeet_append.mpr ⟨hq, ?_⟩⟩
    intro t ht
    rw [has] at ht
    cases ht
    exact hq'

/-! ## Publishing -/

/-- A publish with its four outcomes, where each record is larger than those before it. -/
theorem Published.refines {fits : Prop} {record : Nat} {input : PublishInput}
    {result : Option UInt16} (h : Published c fits record input c' result) (hQ : Admits Q)
    (hitems : c.outbox.PublishOnly) (hnew : ∀ r ∈ c.journal.stored, r < record)
    (hsubmit : ∀ stamp, Q c.view (.submit input.random record stamp))
    (hsent : record ∈ c'.journal.sent →
      ∀ stamp, Q c.view (.submitSent input.random record stamp)) : Refines Q c c' := by
  have hstored : ∀ buffer, Outbox.PublishOnly
      (c.outbox ++ [publishItem buffer input.random record c.now]) := by
    intro buffer kind hkind
    rw [List.map_append, List.mem_append] at hkind
    rcases hkind with hkind | hkind
    · exact hitems kind hkind
    · exact List.mem_singleton.mp hkind
  have hentries : ∀ buffer,
      Outbox.entries (c.outbox ++ [publishItem buffer input.random record c.now]) =
        c.outbox.entries ++ [⟨input.random, record, .queued, c.now⟩] := by
    intro buffer
    simp [Outbox.entries, OutboxItem.entry, publishItem, PendingState.phase]
  cases h with
  | rejected hrejected connection msgId type qos => exact .of_eq hitems rfl rfl
  | offline hfits hstate connection buffer =>
    refine .single (hstored buffer) ?_ (hsubmit c.now)
    rw [StoreForward.step_submit hnew]
    simp only [Client.view, Client.storePublish, Client.store, Client.withMessage, hentries]
    rfl
  | cutOff hfits hstate connection buffer whole =>
    cases whole with
    | false =>
      refine .single (hstored buffer) ?_ (hsubmit c.now)
      rw [StoreForward.step_submit hnew]
      simp only [Client.view, espMqttAbortConnection, Client.afterSending, Client.advance,
        Client.storePublish, Client.store, Client.withMessage, hentries]
      rfl
    | true =>
      refine .single (hstored buffer) ?_ (hsent (by simp [espMqttAbortConnection,
        Client.afterSending, Journal.transmit]) c.now)
      rw [StoreForward.step_submitSent hnew]
      simp only [Client.view, espMqttAbortConnection, Client.afterSending, Client.advance,
        Client.storePublish, Client.store, Client.withMessage, hentries]
      rfl
  | sent hfits hstate connection buffer =>
    have hq := hsent (by simp [Client.markTransmitted, Client.afterSending, Journal.transmit])
      c.now
    have hstep : StoreForward.step c.view (.submitSent input.random record c.now) =
        some ((c.storePublish connection buffer record input).afterSending true record
          input).view := by
      rw [StoreForward.step_submitSent hnew]
      simp only [Client.view, Client.afterSending, Client.advance, Client.storePublish,
        Client.store, Client.withMessage, hentries]
      rfl
    refine (Refines.single (hstored buffer) hstep hq).trans
      (.single ?_ ?_ (hQ.mark hq hstep (c.now + input.elapsed)))
    · exact ((hstored buffer).setTick _ _).setPending _ _
    · simp only [StoreForward.step, Client.view, Client.markTransmitted,
        entries_setTick_setPending]
      rfl

/-! ## The rounds of the task -/

/-- Expiry. -/
theorem deleteExpired_refines (hQ : Admits Q) (hitems : c.outbox.PublishOnly) :
    Refines Q c (mqttDeleteExpiredMessages c) := by
  refine .single (hitems.sublist List.filter_sublist) ?_ (hQ.expire c.view c.now)
  have hexpired : (outboxExpired c.outbox c.now outboxExpiredTimeoutMs).map
      (fun item => (⟨item.record, item.tick, c.now⟩ : StoreForward.Expiry)) =
        (Outbox.entries (outboxExpired c.outbox c.now outboxExpiredTimeoutMs)).map
          fun e => ⟨e.record, e.stamp, c.now⟩ := by
    rw [Outbox.entries, List.map_map]
    rfl
  simp only [StoreForward.step, Client.view, mqttDeleteExpiredMessages, hexpired,
    entries_outboxDeleteExpired, entries_outboxExpired]

/-- The action of the store that a received packet asks for. -/
def Received.action : Received → Option (StoreForward.Action UInt16)
  | .puback msgId => some (.answer msgId)
  | .pubrec msgId => some (.release msgId)
  | .pubcomp msgId => some (.discard msgId)
  | _ => none

/-- A reply changes only the connection. -/
theorem reply_outbox (c : Client) (build : Connection → UInt16 → UInt16 → Connection)
    (msgId : UInt16) (checked : Bool) (input : RoundInput) :
    (c.reply build msgId checked input).2.outbox = c.outbox ∧
      (c.reply build msgId checked input).2.journal = c.journal := by
  unfold Client.reply
  simp only
  split <;> exact ⟨rfl, rfl⟩

/-- Acknowledgements of packets the node never sends find nothing. -/
theorem removeInitiatorMessage_of_ne (hitems : c.outbox.PublishOnly) {type : MsgType}
    (htype : type ≠ .publish) (msgId : UInt16) :
    removeInitiatorMessage c type msgId = (false, c) := by
  have hnone : ∀ item ∈ c.outbox, item.msgType % 256 ≠ type.code := by
    intro item hitem
    rw [(hitems.item hitem).1]
    cases type <;> simp_all [MsgType.code]
  rw [removeInitiatorMessage, outboxDelete_of_type_ne hnone]

/-- Deleting a PUBLISH deletes the first entry with its id. -/
theorem entries_removeInitiatorMessage (hitems : c.outbox.PublishOnly) (msgId : UInt16) :
    (removeInitiatorMessage c .publish msgId).2.outbox.entries =
      StoreForward.removeFirst msgId c.outbox.entries :=
  entries_outboxDelete (fun item hitem => by rw [(hitems.item hitem).1]; rfl) msgId

theorem removeInitiatorMessage_items (hitems : c.outbox.PublishOnly) (type : MsgType)
    (msgId : UInt16) : (removeInitiatorMessage c type msgId).2.outbox.PublishOnly :=
  hitems.sublist List.eraseP_sublist

/-- Receiving. -/
theorem processReceive_refines (hitems : c.outbox.PublishOnly) (input : RoundInput)
    (hreceived : ∀ a ∈ input.received.action, Q c.view a) :
    Refines Q c (mqttProcessReceive c input).2 := by
  have hreply : ∀ build msgId checked, Refines Q c (c.reply build msgId checked input).2 :=
    fun build msgId checked => .of_eq hitems (reply_outbox ..).1 (reply_outbox ..).2
  unfold mqttProcessReceive
  cases hr : input.received with
  | nothing | other | failure => exact .of_eq hitems rfl rfl
  | suback msgId delivered =>
    simp only [removeInitiatorMessage_of_ne hitems (by decide : MsgType.subscribe ≠ .publish)]
    exact .of_eq hitems rfl rfl
  | unsuback msgId =>
    simp only [removeInitiatorMessage_of_ne hitems (by decide : MsgType.unsubscribe ≠ .publish)]
    exact .of_eq hitems rfl rfl
  | publish msgId qos delivered =>
    simp only
    split
    · split
      · exact hreply ..
      · split
        · exact hreply ..
        · exact .of_eq hitems rfl rfl
    · exact .of_eq hitems rfl rfl
  | puback msgId =>
    have hnoted : (c.noteAnswer msgId).outbox.PublishOnly := hitems
    refine .single (removeInitiatorMessage_items hnoted _ _) ?_
      (hreceived (.answer msgId) (by simp [hr, Received.action]))
    simp only [StoreForward.step, Client.view, entries_removeInitiatorMessage hnoted]
    rfl
  | pubrec msgId =>
    obtain ⟨houtbox, hjournal⟩ := reply_outbox c mqttMsgPubrel msgId false input
    simp only
    split
    · refine .single ?_ ?_ (hreceived (.release msgId) (by simp [hr, Received.action]))
      · exact (houtbox ▸ hitems : Outbox.PublishOnly _).setPending _ _
      · simp only [StoreForward.step, Client.view, entries_outboxSetPending, houtbox, hjournal]
        rfl
    · exact .of_eq hitems houtbox hjournal
  | pubrel msgId => exact hreply ..
  | pubcomp msgId =>
    have hnoted : (c.noteCompletion msgId).outbox.PublishOnly := hitems
    refine .single (removeInitiatorMessage_items hnoted _ _) ?_
      (hreceived (.discard msgId) (by simp [hr, Received.action]))
    simp only [StoreForward.step, Client.view, entries_removeInitiatorMessage hnoted]
    rfl
  | pingresp => exact .of_eq hitems rfl rfl

/-- What an attempt to resend an item leaves behind. -/
theorem resendQueued_spec (c : Client) (item : OutboxItem) (handle : Nat) (input : RoundInput) :
    let d := mqttResendQueued c item handle input
    d.2.outbox.entries = c.outbox.entries ∧
      d.2.outbox.map OutboxItem.kind = c.outbox.map OutboxItem.kind ∧
      d.2.pendingMsgId = item.msgId ∧ d.2.pendingMsgType = item.msgType ∧
      d.2.pendingPublishQos = item.msgQos ∧
      d.2.journal =
        if d.1 then c.journal.transmit item.msgId item.record else c.journal := by
  have hmap : ∀ {β : Type} (g : OutboxItem → β),
      (∀ item buffer, g { item with buffer := buffer } = g item) →
      (c.outbox.modify handle fun item => { item with buffer := mqttSetDup item.buffer }).map g =
        c.outbox.map g :=
    fun g hg => map_modify_buffer g hg c.outbox handle mqttSetDup
  unfold mqttResendQueued
  simp only
  split
  · split <;> exact ⟨hmap OutboxItem.entry fun _ _ => rfl, hmap OutboxItem.kind fun _ _ => rfl,
      rfl, rfl, rfl, rfl⟩
  · split <;> exact ⟨rfl, rfl, rfl, rfl, rfl, rfl⟩

theorem resendQueued_items (hitems : c.outbox.PublishOnly) (item : OutboxItem) (handle : Nat)
    (input : RoundInput) : (mqttResendQueued c item handle input).2.outbox.PublishOnly := by
  rw [Outbox.PublishOnly, (resendQueued_spec c item handle input).2.1]
  exact hitems

/-- An attempt that fails is no step of the store. -/
theorem resendQueued_refines_of_failed (hitems : c.outbox.PublishOnly) (item : OutboxItem)
    (handle : Nat) (input : RoundInput)
    (hfailed : (mqttResendQueued c item handle input).1 = false) :
    Refines Q c (mqttResendQueued c item handle input).2 := by
  obtain ⟨hentries, _, _, _, _, hjournal⟩ := resendQueued_spec c item handle input
  refine ⟨resendQueued_items hitems item handle input, [], ?_, trivial⟩
  simp [Client.view, hentries, hjournal, hfailed]

/-- Resending the first queued item. -/
theorem resendFirstQueued_refines (hQ : Admits Q) (hitems : c.outbox.PublishOnly)
    {item : OutboxItem} {handle : Nat}
    (hitem : outboxDequeue c.outbox .queued = some (item, handle)) (input : RoundInput) :
    Refines Q c (resendFirstQueued c item handle input) := by
  obtain ⟨hentries, _, hid, _, hqos, hjournal⟩ := resendQueued_spec c item handle input
  have hitems' := resendQueued_items hitems item handle input
  have hfailed := resendQueued_refines_of_failed (Q := Q) hitems item handle input
  have hkind := hitems.item (mem_of_outboxDequeue hitem).1
  have hfirst := firstIn_of_outboxDequeue (fun p => PendingState.phase_eq_queued (p := p)) c.outbox
  unfold resendFirstQueued
  generalize mqttResendQueued c item handle input = d at *
  obtain ⟨ok, d⟩ := d
  cases ok with
  | false => exact hfailed rfl
  | true =>
    simp only [if_true] at hentries hid hqos hjournal hitems'
    simp only [hqos, hkind, hid, Nat.one_ne_zero, and_false, if_false, Nat.one_pos, if_true]
    refine .single (hitems'.setPending _ _) ?_ (hQ.resend _)
    simp only [StoreForward.step, Client.view, hfirst, hitem, Option.map_some,
      entries_outboxSetPending, hentries, hjournal]
    rfl

/-- Resending the first transmitted item. -/
theorem retransmitFirst_refines (hQ : Admits Q) (hitems : c.outbox.PublishOnly)
    (input : RoundInput) : Refines Q c (retransmitFirst c input) := by
  unfold retransmitFirst
  split
  · rename_i item handle hitem
    split
    · obtain ⟨hentries, _, _, _, _, hjournal⟩ := resendQueued_spec c item handle input
      have hitems' := resendQueued_items hitems item handle input
      have hfailed := resendQueued_refines_of_failed (Q := Q) hitems item handle input
      have hfirst := firstIn_of_outboxDequeue (fun p => PendingState.phase_eq_transmitted (p := p))
        c.outbox
      generalize mqttResendQueued c item handle input = d at *
      obtain ⟨ok, d⟩ := d
      cases ok with
      | false => exact hfailed rfl
      | true =>
        simp only [if_true] at hentries hjournal hitems'
        refine .single hitems' ?_ (hQ.retransmit _)
        simp only [StoreForward.step, Client.view, hfirst, hitem, Option.map_some, hentries,
          hjournal]
        rfl
    · exact .of_eq hitems rfl rfl
  · exact .of_eq hitems rfl rfl

/-- A PUBREL is no step of the store. -/
theorem retransmitPubrel_eq (c : Client) (input : RoundInput) :
    (retransmitPubrel c input).outbox = c.outbox ∧
      (retransmitPubrel c input).journal = c.journal := by
  unfold retransmitPubrel mqttResendPubrel
  split
  · split
    · simp only
      split
      · exact ⟨rfl, rfl⟩
      · split <;> exact ⟨rfl, rfl⟩
    · exact ⟨rfl, rfl⟩
  · exact ⟨rfl, rfl⟩

/-- Sending from the outbox. -/
theorem resend_refines (hQ : Admits Q) (hitems : c.outbox.PublishOnly) (input : RoundInput) :
    Refines Q c (resend c input) := by
  unfold resend
  split
  · rename_i item handle hitem
    exact resendFirstQueued_refines hQ hitems hitem input
  · split
    · have hclock : Refines Q c { c with lastRetransmit := c.now } := .of_eq hitems rfl rfl
      have hfirst := hclock.trans (retransmitFirst_refines hQ hclock.items input)
      exact hfirst.trans (.of_eq hfirst.items (retransmitPubrel_eq ..).1 (retransmitPubrel_eq ..).2)
    · exact .of_eq hitems rfl rfl

/-- The keepalive is no step of the store. -/
theorem processKeepalive_eq (c : Client) (input : RoundInput) :
    (processKeepalive c input).outbox = c.outbox ∧
      (processKeepalive c input).journal = c.journal := by
  unfold processKeepalive
  simp only
  split
  · exact ⟨rfl, rfl⟩
  · split
    · split <;> exact ⟨rfl, rfl⟩
    · split
      · split <;> exact ⟨rfl, rfl⟩
      · exact ⟨rfl, rfl⟩

/-- A round of the connected client. -/
theorem connectedRound_refines (hQ : Admits Q) (hitems : c.outbox.PublishOnly)
    (input : RoundInput) (hreceived : ∀ a ∈ input.received.action, Q c.view a) :
    Refines Q c (connectedRound c input) := by
  have hadvance : Refines Q c (c.advance input.receiveTime) := .of_eq hitems rfl rfl
  have hreceive := hadvance.trans (processReceive_refines hadvance.items input hreceived)
  unfold connectedRound
  generalize mqttProcessReceive (c.advance input.receiveTime) input = d at *
  obtain ⟨ok, d⟩ := d
  cases ok with
  | false => exact hreceive.trans (.of_eq hreceive.items rfl rfl)
  | true =>
    have hretransmit : Refines Q d
        (if d.lastRetransmit = 0 then { d with lastRetransmit := d.now } else d) := by
      split <;> exact .of_eq hreceive.items rfl rfl
    have hresend := (hreceive.trans hretransmit).trans
      (resend_refines hQ hretransmit.items input)
    exact hresend.trans
      (.of_eq hresend.items (processKeepalive_eq ..).1 (processKeepalive_eq ..).2)

/-- A CONNECT is no step of the store. -/
theorem espMqttConnect_eq (c : Client) (input : RoundInput) :
    (espMqttConnect c input).2.outbox = c.outbox ∧
      (espMqttConnect c input).2.journal = c.journal := by
  unfold espMqttConnect
  simp only
  split <;> exact ⟨rfl, rfl⟩

/-- A round that connects. -/
theorem initRound_refines (hQ : Admits Q) (hitems : c.outbox.PublishOnly) (input : RoundInput) :
    Refines Q c (initRound c input) := by
  unfold initRound
  simp only
  split
  · split
    · obtain ⟨houtbox, hjournal⟩ := espMqttConnect_eq (c.advance input.connectTime) input
      split
      · refine .single (houtbox ▸ hitems) ?_ (hQ.link _)
        simp only [StoreForward.step, Client.view, houtbox, hjournal]
        rfl
      · exact .of_eq hitems houtbox hjournal
    · exact .of_eq hitems rfl rfl
  · exact .of_eq hitems rfl rfl

/-- A whole round. A packet is received only in the connected state. -/
theorem espMqttTaskRound_refines (hQ : Admits Q) (hitems : c.outbox.PublishOnly)
    (input : RoundInput) (hreceived : c.state = .connected →
      ∀ a ∈ input.received.action, Q (mqttDeleteExpiredMessages c).view a) :
    Refines Q c (espMqttTaskRound c input).1 := by
  have hexpire := deleteExpired_refines hQ hitems
  unfold espMqttTaskRound
  simp only
  split
  · exact hexpire
  · exact hexpire.trans (initRound_refines hQ hexpire.items input)
  · rename_i hstate
    exact hexpire.trans (connectedRound_refines hQ hexpire.items input (hreceived hstate))
  · split
    · exact hexpire.trans (.of_eq hexpire.items rfl rfl)
    · exact hexpire

/-- The end of the task. -/
theorem espMqttTaskExit_refines (hwipe : Q c.view .wipe) : Refines Q c (espMqttTaskExit c) := by
  refine .single (fun kind hkind => absurd hkind (by simp [espMqttTaskExit])) ?_ hwipe
  simp only [StoreForward.step, Client.view, espMqttTaskExit, map_record_entries]
  rfl

end

/-! ## Runs of the node -/

/-- What a node keeps: the packet kinds, and the order of the records. -/
structure Inv (n : Node) : Prop where
  items : n.client.outbox.PublishOnly
  stored : ∀ r ∈ n.client.journal.stored, r < n.calls
  calling : ∀ call ∈ n.calling,
    call.record < n.calls ∧ ∀ r ∈ n.client.journal.stored, r < call.record
  accepted : ∀ r, (r, true) ∈ n.results → r ∈ n.client.journal.stored

/-- A condition on the store's actions, as one on the steps of a node. -/
def Demands (Q : StoreForward.State UInt16 → StoreForward.Action UInt16 → Prop) (n : Node) :
    Action → Prop
  | .publish input => ∀ call ∈ n.calling,
    (∀ stamp, Q n.client.view (.submit input.random call.record stamp)) ∧
      ∀ n', step n (.publish input) = some n' → call.record ∈ n'.client.journal.sent →
        ∀ stamp, Q n.client.view (.submitSent input.random call.record stamp)
  | .round input => n.client.state = .connected →
    ∀ a ∈ input.received.action, Q (mqttDeleteExpiredMessages n.client).view a
  | .exit => Q n.client.view .wipe
  | _ => True

/-- What is demanded of the steps that are not a publish, for a condition that allows replies
and the end of the task. -/
theorem demands_of_publish {Q : StoreForward.State UInt16 → StoreForward.Action UInt16 → Prop}
    {n : Node} {a : Action} (hpublish : ∀ input, a = .publish input → Demands Q n a)
    (hreceived : ∀ received : Received, ∀ a ∈ received.action, ∀ s, Q s a)
    (hwipe : ∀ s, Q s .wipe) : Demands Q n a := by
  cases a with
  | publish input => exact hpublish input rfl
  | round input =>
    intro _ a ha
    exact hreceived input.received a ha _
  | exit => exact hwipe _
  | call | begin | poll | abort | advance => trivial

theorem demands_true (n : Node) (a : Action) : Demands (fun _ _ => True) n a := by
  refine demands_of_publish ?_ (fun _ _ _ _ => trivial) fun _ => trivial
  intro input ha
  subst ha
  intro _ _
  exact ⟨fun _ => trivial, fun _ _ _ _ => trivial⟩

/-- A publish stores its record, or it fails. -/
theorem Published.stored {c c' : Client} {fits : Prop} {record : Nat} {input : PublishInput}
    {result : Option UInt16} (h : Published c fits record input c' result) :
    (result = none ∧ c'.journal.stored = c.journal.stored) ∨
      c'.journal.stored = c.journal.stored ++ [record] := by
  cases h with
  | rejected => exact Or.inl ⟨rfl, rfl⟩
  | offline | sent => exact Or.inr rfl
  | cutOff _ _ _ _ whole => cases whole <;> exact Or.inr rfl

/-- A publish sends its record, or nothing. -/
theorem Published.sent_eq {c c' : Client} {fits : Prop} {record : Nat} {input : PublishInput}
    {result : Option UInt16} (h : Published c fits record input c' result) :
    c'.journal.sent = c.journal.sent ∨ c'.journal.sent = c.journal.sent ++ [record] := by
  cases h with
  | rejected | offline => exact Or.inl rfl
  | sent => exact Or.inr rfl
  | cutOff _ _ _ _ whole =>
    cases whole with
    | false => exact Or.inl rfl
    | true => exact Or.inr rfl

/-- An action that keeps a part of the store. -/
def Keeps {β : Type} (f : StoreForward.State UInt16 → β) (s : StoreForward.State UInt16)
    (a : StoreForward.Action UInt16) : Prop :=
  ∀ t, StoreForward.step s a = some t → f t = f s

/-- A part of the store that sending, answers and expiry do not touch. -/
def Settled {β : Type} (f : StoreForward.State UInt16 → β) : Prop :=
  ∀ (s : StoreForward.State UInt16) entries sent onWire acked expired misanswered,
    f { s with
      entries := entries
      sent := sent
      onWire := onWire
      acked := acked
      expired := expired
      misanswered := misanswered } = f s

theorem settled_submitted : Settled StoreForward.State.submitted := fun _ _ _ _ _ _ _ => rfl

theorem settled_wiped : Settled StoreForward.State.wiped := fun _ _ _ _ _ _ _ => rfl

theorem Settled.admits {β : Type} {f : StoreForward.State UInt16 → β} (hf : Settled f) :
    Admits (Keeps f) where
  mark {s} _ _ _ _ _ hstep time t ht := by
    cases ht
    exact hf _ _ _ _ _ _ _
  resend s t ht := by
    cases StoreForward.step_spec ht
    exact hf s _ _ _ _ _ _
  retransmit s t ht := by
    cases StoreForward.step_spec ht
    exact hf s _ _ _ _ _ _
  expire s now t ht := by
    cases ht
    exact hf s _ _ _ _ _ _
  link s t ht := by
    cases ht
    exact hf s _ _ _ _ _ _

theorem Settled.action {β : Type} {f : StoreForward.State UInt16 → β} (hf : Settled f)
    {received : Received} {a : StoreForward.Action UInt16} (ha : a ∈ received.action)
    (s : StoreForward.State UInt16) : Keeps f s a := by
  intro t ht
  cases received <;> cases ha <;> cases ht <;> exact hf s _ _ _ _ _ _

/-- A run that keeps a part leaves it as it was. -/
theorem Refines.keeps {β : Type} {f : StoreForward.State UInt16 → β} {c c' : Client}
    (h : Refines (Keeps f) c c') : f c'.view = f c.view := by
  obtain ⟨as, has, hq⟩ := h.run
  exact Machine.exec_invariant_of_stepsMeet (P := fun s => f s = f c.view)
    (fun s a t hs hq ht => (hq t ht).trans hs) rfl hq has

private theorem Inv.of_stored_eq {n n' : Node} (h : Inv n)
    (hitems : n'.client.outbox.PublishOnly)
    (hstored : n'.client.journal.stored = n.client.journal.stored) (hcalls : n'.calls = n.calls)
    (hcalling : n'.calling = n.calling) (hresults : n'.results = n.results) : Inv n' where
  items := hitems
  stored := by rw [hstored, hcalls]; exact h.stored
  calling := by rw [hstored, hcalls, hcalling]; exact h.calling
  accepted := by rw [hstored, hresults]; exact h.accepted

/-- Every step of a node is a run of the store, whose steps meet a condition if the step of
the node does. -/
theorem refines_of_step {Q : StoreForward.State UInt16 → StoreForward.Action UInt16 → Prop}
    {n n' : Node} {a : Action} (hQ : Admits Q) (h : Inv n) (hq : Demands Q n a)
    (hstep : step n a = some n') : Refines Q n.client n'.client := by
  cases step_spec hstep with
  | publish input call client result hid hcall hpublish =>
    obtain ⟨hsubmit, hsent⟩ := hq call hcall
    exact (published hpublish).refines hQ h.items (h.calling call hcall).2 hsubmit
      (hsent _ hstep)
  | round input => exact espMqttTaskRound_refines hQ h.items input hq
  | exit => exact espMqttTaskExit_refines hq
  | called | refused | begin | poll | abort | advance => exact .of_eq h.items rfl rfl

/-- What was sent stays sent, and first transmissions stay where they are. -/
theorem sent_prefix_of_step {n n' : Node} {a : Action} (h : Inv n)
    (hstep : step n a = some n') : n.client.journal.sent <+: n'.client.journal.sent := by
  obtain ⟨as, has, _⟩ := (refines_of_step admits_true h (demands_true n a) hstep).run
  exact StoreForward.sent_prefix_of_exec has

/-- Nothing is stored by a step that is not a publish. -/
theorem stored_of_ne_publish {n n' : Node} {a : Action} (h : Inv n)
    (ha : ∀ input, a ≠ .publish input) (hstep : step n a = some n') :
    n'.client.outbox.PublishOnly ∧ n'.client.journal.stored = n.client.journal.stored := by
  have hdemands : Demands (Keeps StoreForward.State.submitted) n a :=
    demands_of_publish (fun input he => absurd he (ha input))
      (fun _ _ => settled_submitted.action) fun s t ht => by cases ht; rfl
  have hclient := refines_of_step settled_submitted.admits h hdemands hstep
  exact ⟨hclient.items, hclient.keeps⟩

/-- Every step keeps the invariant. -/
theorem Inv.step {n n' : Node} {a : Action} (h : Inv n) (hstep : Mqtt.step n a = some n') :
    Inv n' := by
  cases step_spec hstep with
  | called args hidle hflag =>
    refine ⟨h.items, fun r hr => Nat.lt_succ_of_lt (h.stored r hr), ?_,
      h.accepted⟩
    intro call hcall
    cases hcall
    exact ⟨Nat.lt_succ_self _, h.stored⟩
  | refused args hidle hflag =>
    refine ⟨h.items, fun r hr => Nat.lt_succ_of_lt (h.stored r hr), ?_,
      ?_⟩
    · intro call hcall
      simp [hidle] at hcall
    · intro r hr
      exact h.accepted r (by simpa using hr)
  | publish input call client result hid hcall hpublish =>
    obtain ⟨hlt, hnew⟩ := h.calling call hcall
    have hpublished := published hpublish
    have hitems := (hpublished.refines admits_true h.items hnew (fun _ => trivial)
      fun _ _ => trivial).items
    refine ⟨hitems, ?_, fun call hcall => absurd hcall (by simp), ?_⟩
    · intro r hr
      rcases hpublished.stored with ⟨_, hsame⟩ | hmore
      · exact h.stored r (hsame ▸ hr)
      · rw [hmore, List.mem_append, List.mem_singleton] at hr
        exact hr.elim (h.stored r) fun he => he ▸ hlt
    · intro r hr
      simp only [List.mem_append, List.mem_singleton, Prod.mk.injEq] at hr
      rcases hpublished.stored with ⟨rfl, hsame⟩ | hmore
      · rw [hsame]
        exact hr.elim (h.accepted r) fun he => absurd he.2 (by simp)
      · rw [hmore, List.mem_append, List.mem_singleton]
        exact hr.imp (h.accepted r) And.left
  | begin | round | poll | abort | exit | advance =>
    obtain ⟨hitems, hstored⟩ := stored_of_ne_publish h (by simp) hstep
    exact h.of_stored_eq hitems hstored rfl rfl rfl

theorem inv_init (information : ConnectInfo) (now : Nat) : Inv (node information now).init where
  items kind hkind := absurd hkind (by simp [node, constructed])
  stored r hr := absurd hr (by simp [node, constructed])
  calling call hcall := absurd hcall (by simp [node])
  accepted r hr := absurd hr (by simp [node])

theorem inv_of_reachable {information : ConnectInfo} {now : Nat} {n : Node}
    (h : (node information now).Reachable n) : Inv n :=
  h.invariant (inv_init information now) fun _ _ _ _ hs ht => hs.step ht

/-- A run of the node whose steps meet the demands of a condition is a run of the store whose
steps meet the condition. -/
theorem run_of_stepsMeet {Q : StoreForward.State UInt16 → StoreForward.Action UInt16 → Prop}
    (hQ : Admits Q) {information : ConnectInfo} {now : Nat} {as : List Action} {n : Node}
    (hq : (node information now).StepsMeet (Demands Q) (node information now).init as)
    (hn : (node information now).exec (node information now).init as = some n) :
    ∃ bs, (StoreForward.machine UInt16).exec StoreForward.start bs = some n.client.view ∧
      (StoreForward.machine UInt16).StepsMeet Q StoreForward.start bs := by
  have hall := Machine.exec_invariant_of_stepsMeet
    (P := fun n : Node => Inv n ∧
      ∃ bs, (StoreForward.machine UInt16).exec StoreForward.start bs = some n.client.view ∧
        (StoreForward.machine UInt16).StepsMeet Q StoreForward.start bs)
    (fun s a t hs hq ht => ?_) ⟨inv_init information now, [], rfl, trivial⟩ hq hn
  · exact hall.2
  · obtain ⟨hinv, bs, hbs, hmeet⟩ := hs
    obtain ⟨cs, hcs, hmeet'⟩ := (refines_of_step hQ hinv hq ht).run
    refine ⟨hinv.step ht, bs ++ cs, (Machine.exec_append_eq_some _).mpr ⟨_, hbs, hcs⟩,
      Machine.stepsMeet_append.mpr ⟨hmeet, ?_⟩⟩
    intro t ht
    rw [hbs] at ht
    cases ht
    exact hmeet'

/-- Every run of the node is a run of the store. -/
theorem run_of_exec {information : ConnectInfo} {now : Nat} {as : List Action} {n : Node}
    (hn : (node information now).exec (node information now).init as = some n) :
    ∃ bs, (StoreForward.machine UInt16).exec StoreForward.start bs = some n.client.view := by
  obtain ⟨bs, hbs, _⟩ := run_of_stepsMeet admits_true
    (Machine.stepsMeet_of_forall demands_true _ _) hn
  exact ⟨bs, hbs⟩

end IndustrialIot.Edge.Mqtt
