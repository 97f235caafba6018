import IndustrialIot.Edge.Mqtt.Acknowledged
import IndustrialIot.Edge.Mqtt.Keepalive

/-!
# Progress on a standing connection

A round sends at most one stored item: the first that is queued, or else, a second after the last
time, the first that was transmitted. Where the broker answers what it received, the number of
stored items that were not published on the connection goes down with every round that finds
something to send.
-/

namespace IndustrialIot.Edge.Mqtt

open ControlPacket (Packet encodeAll)
open StoreForward (waiting Drains)

/-! ## What a round publishes -/

/-- Whole packets add what they say. -/
theorem publications_onLine {bytes : List UInt8} {ps : List Packet} {attempts : List Attempt}
    (hbytes : bytes = encodeAll ps)
    (hpackets : ∀ a ∈ attempts, ∃ p : Packet, a.data = p.encode)
    (hall : ∀ a ∈ attempts, a.ok = true) :
    publications (bytes ++ onLine attempts) =
      publications bytes ++ attempts.filterMap fun a => said a.data := by
  induction attempts generalizing bytes ps with
  | nil => simp [onLine]
  | cons a attempts ih =>
    obtain ⟨p, hp⟩ := hpackets a List.mem_cons_self
    have hok := hall a List.mem_cons_self
    have hline : onLine (a :: attempts) = p.encode ++ onLine attempts := by
      rw [onLine, Attempt.taken_of_ok hok, hok, Bool.true_or, if_pos rfl, hp]
    have hmore : bytes ++ p.encode = encodeAll (ps ++ [p]) := by simp [hbytes]
    have hrest := ih hmore (fun b hb => hpackets b (List.mem_cons_of_mem a hb))
      (fun b hb => hall b (List.mem_cons_of_mem a hb))
    have hfirst : publications (bytes ++ p.encode) =
        publications bytes ++ (said p.encode).toList := by
      rw [hbytes]
      exact publications_snoc ps p
    rw [hline, ← List.append_assoc, hrest, hfirst, List.append_assoc]
    cases hsaid : said p.encode <;> simp [hp, hsaid]

section Round

variable {c : Client} {input : RoundInput}

/-- Answers and pings say nothing. -/
theorem said_of_sends {attempts : List Attempt} (h : Sends (fun _ _ _ => False) attempts) :
    (attempts.filterMap fun a => said a.data) = [] := by
  rw [List.filterMap_eq_nil_iff]
  intro a ha
  obtain ⟨p, hp, hdata⟩ := h a ha
  rw [hdata]
  by_contra hsome
  obtain ⟨s, hs⟩ := Option.ne_none_iff_exists'.mp hsome
  exact hp.allowed hs

/-- The item that a round sends from the outbox. -/
def Client.resends (c : Client) : Option OutboxItem :=
  match outboxDequeue c.outbox .queued with
  | some (item, _) => some item
  | none =>
    if hasTimedOut c.now c.lastRetransmit messageRetransmitTimeout then
      (outboxDequeue c.outbox .transmitted).bind fun (item, _) =>
        if messageRetransmitTimeout < c.now - item.tick then some item else none
    else none

/-- The client of a round before it resends. -/
def Client.heard (c : Client) (input : RoundInput) : Client :=
  (mqttProcessReceive (c.advance input.receiveTime) input).2.beginResend

theorem said_queuedAttempt (item : OutboxItem) :
    said (queuedAttempt item input).data = said item.buffer := by
  unfold queuedAttempt
  simp only
  split
  · exact said_mqttSetDup item.buffer
  · rfl

theorem said_singleton (item : OutboxItem) :
    ([queuedAttempt item input].filterMap fun a => said a.data) =
      [item].filterMap fun item => said item.buffer := by
  rw [List.filterMap_cons, List.filterMap_cons, said_queuedAttempt]
  cases said item.buffer <;> rfl

theorem said_resendAttempts (htotal : c.total = 0) :
    ((resendAttempts c input).filterMap fun a => said a.data) =
      c.resends.toList.filterMap fun item => said item.buffer := by
  unfold resendAttempts Client.resends
  cases hqueued : outboxDequeue c.outbox .queued with
  | some found => exact said_singleton found.1
  | none =>
    by_cases hdue : hasTimedOut c.now c.lastRetransmit messageRetransmitTimeout = true
    · have hpubrel : ((pubrelAttempts (retransmitFirst { c with lastRetransmit := c.now } input)
          input).filterMap fun a => said a.data) = [] :=
        said_of_sends (sends_pubrelAttempts ((total_retransmitFirst ..).trans htotal))
      simp only [if_pos hdue]
      rw [List.filterMap_append, hpubrel, List.append_nil]
      unfold retransmitAttempts
      simp only
      cases hfound : outboxDequeue c.outbox .transmitted with
      | none => rfl
      | some found =>
        by_cases hage : messageRetransmitTimeout < c.now - found.1.tick
        · simp only [if_pos hage, Option.bind_some]
          exact said_singleton found.1
        · simp [hage]
    · simp [hdue]

theorem total_heard (htotal : c.total = 0) : (c.heard input).total = 0 := by
  have hreceive : (mqttProcessReceive (c.advance input.receiveTime) input).2.total = 0 :=
    (total_mqttProcessReceive ..).trans htotal
  unfold Client.heard Client.beginResend
  split <;> exact hreceive

/-- A round publishes the item that it sends from the outbox. -/
theorem said_connectedAttempts (htotal : c.total = 0)
    (hok : (mqttProcessReceive (c.advance input.receiveTime) input).1 = true) :
    ((connectedAttempts c input).filterMap fun a => said a.data) =
      (c.heard input).resends.toList.filterMap fun item => said item.buffer := by
  have hheard : (c.heard input).total = 0 := total_heard htotal
  have hreceive : ((receiveAttempts (c.advance input.receiveTime) input).filterMap fun a =>
      said a.data) = [] := said_of_sends (sends_receiveAttempts htotal)
  have hkeepalive : ((keepaliveAttempts (resend (c.heard input) input) input).filterMap fun a =>
      said a.data) = [] :=
    said_of_sends (sends_keepaliveAttempts ((total_resend ..).trans hheard))
  unfold connectedAttempts
  simp only
  rw [if_pos hok, List.filterMap_append, List.filterMap_append, hreceive]
  change [] ++ (((resendAttempts (c.heard input) input).filterMap _) ++
    (keepaliveAttempts (resend (c.heard input) input) input).filterMap _) = _
  rw [hkeepalive, said_resendAttempts hheard, List.append_nil, List.nil_append]

/-! ## What a round does to the items -/

theorem admits_drains : Admits Drains where
  mark h := h.elim
  resend _ := trivial
  retransmit _ := trivial
  expire _ _ := trivial
  link _ := trivial

/-- Where nothing is stored and nothing released, no more items wait for their transmission. -/
theorem Refines.drains {c c' : Client} (h : Refines Drains c c') :
    waiting c'.outbox.entries ⊆ waiting c.outbox.entries ∧
      ((∀ e ∈ c.outbox.entries, e.phase ≠ .released) →
        ∀ e ∈ c'.outbox.entries, e.phase ≠ .released) := by
  obtain ⟨as, hrun, hmeet⟩ := h.run
  exact StoreForward.drains_of_stepsMeet hmeet hrun

theorem drains_action {received : Received} (h : ∀ id, received ≠ .pubrec id)
    {a : StoreForward.Action UInt16} (ha : a ∈ received.action)
    (s : StoreForward.State UInt16) : Drains s a := by
  cases received with
  | pubrec id => exact absurd rfl (h id)
  | puback id | pubcomp id =>
    obtain rfl := Option.some.inj ha
    trivial
  | nothing | failure | suback | unsuback | publish | pubrel | pingresp | other => cases ha

theorem outbox_heard :
    (c.heard input).outbox = (mqttProcessReceive (c.advance input.receiveTime) input).2.outbox := by
  unfold Client.heard Client.beginResend
  split <;> rfl

/-- Receiving is a run of the store in which nothing is stored. -/
theorem refines_heard (hitems : c.outbox.PublishOnly) (h : ∀ id, input.received ≠ .pubrec id) :
    Refines Drains c (c.heard input) := by
  have hadvance : Refines Drains c (c.advance input.receiveTime) := .of_eq hitems rfl rfl
  have hreceive := hadvance.trans (processReceive_refines hadvance.items input
    fun a ha => drains_action h ha _)
  refine hreceive.trans (.of_eq hreceive.items outbox_heard ?_)
  unfold Client.heard Client.beginResend
  split <;> rfl

theorem keys_entries (outbox : Outbox) :
    outbox.entries.map StoreForward.Entry.key = outbox.labels.map Prod.fst := by
  rw [Outbox.entries, Outbox.labels, List.map_map, List.map_map]
  rfl

/-- No two entries have one key. -/
theorem Named.keys {outbox : Outbox} (h : Named outbox.labels) :
    (outbox.entries.map StoreForward.Entry.key).Nodup := by
  rw [keys_entries]
  exact h.nodup

theorem mem_outbox_of_resends {item : OutboxItem} (h : c.resends = some item) :
    item ∈ c.outbox := by
  unfold Client.resends at h
  split at h
  · rename_i found handle hfound
    cases h
    exact (mem_of_outboxDequeue hfound).1
  · obtain ⟨_, h⟩ := Option.ite_none_right_eq_some.mp h
    obtain ⟨⟨found, handle⟩, hfound, h⟩ := Option.bind_eq_some_iff.mp h
    obtain ⟨_, h⟩ := Option.ite_none_right_eq_some.mp h
    cases h
    exact (mem_of_outboxDequeue hfound).1

/-- Where no item is dequeued as queued, none waits. -/
theorem waiting_of_outboxDequeue {outbox : Outbox} (h : outboxDequeue outbox .queued = none) :
    waiting outbox.entries = [] := by
  have hfirst := firstIn_of_outboxDequeue (fun p => PendingState.phase_eq_queued (p := p)) outbox
  rw [h] at hfirst
  rw [List.eq_nil_iff_forall_not_mem]
  intro id hid
  obtain ⟨e, he, hphase, _⟩ := StoreForward.mem_waiting.mp hid
  exact absurd (decide_eq_true hphase) (List.find?_eq_none.mp hfirst e he)

/-- A queued item that is sent is marked as transmitted. -/
theorem entries_resendFirstQueued (hitems : c.outbox.PublishOnly) {item : OutboxItem}
    {handle : Nat} (hitem : outboxDequeue c.outbox .queued = some (item, handle))
    (hok : (mqttResendQueued c item handle input).1 = true) :
    (resendFirstQueued c item handle input).outbox.entries =
      StoreForward.setPhase item.msgId .transmitted c.outbox.entries := by
  obtain ⟨hentries, _, hid, _, hqos, _⟩ := resendQueued_spec c item handle input
  have hkind := hitems.item (mem_of_outboxDequeue hitem).1
  unfold resendFirstQueued
  generalize mqttResendQueued c item handle input = d at *
  obtain ⟨ok, d⟩ := d
  simp only at hok hentries hid hqos ⊢
  simp only [hok, if_true, hqos, hkind, hid, Nat.one_ne_zero, and_false, if_false, Nat.one_pos]
  rw [entries_outboxSetPending, hentries]
  rfl

/-- What was sent in a round does not wait after it. -/
theorem not_mem_waiting_resend (hitems : c.outbox.PublishOnly) (hnamed : Named c.outbox.labels)
    (hstate : (resend c input).state = .connected) {item : OutboxItem}
    (hitem : c.resends = some item) :
    item.msgId ∉ waiting (resend c input).outbox.entries := by
  have hkeys := hnamed.keys
  have hrefines := (resend_refines admits_drains hitems input).drains.1
  cases hqueued : outboxDequeue c.outbox .queued with
  | none =>
    intro hmem
    have hnil := hrefines hmem
    rw [waiting_of_outboxDequeue hqueued] at hnil
    exact List.not_mem_nil hnil
  | some found =>
    obtain ⟨first, handle⟩ := found
    have hfirst : first = item := by
      unfold Client.resends at hitem
      rw [hqueued] at hitem
      exact Option.some.inj hitem
    have hresend : resend c input = resendFirstQueued c first handle input := by
      unfold resend
      rw [hqueued]
    have hok : (mqttResendQueued c first handle input).1 = true := by
      rw [hresend] at hstate
      unfold resendFirstQueued at hstate
      by_contra hfailed
      simp only [hfailed] at hstate
      exact hfailed (mqttResendQueued_connected hstate).2.1
    rw [hresend, entries_resendFirstQueued hitems hqueued hok, hfirst]
    exact StoreForward.not_mem_waiting_updateFirst (fun e => by simp) hkeys

end Round

/-! ## Steps of the line -/

section Runs

variable {Q : List UInt8 → List UInt8 → Prop} {information : ConnectInfo} {l l' : Line}
  {input : RoundInput}

/-- The client of a round on a connection before it resends. -/
def Line.heard (l : Line) (input : RoundInput) : Client :=
  (mqttDeleteExpiredMessages l.node.client).heard input

/-- A round that leaves the connection standing publishes the item that it sends, and nothing
else. -/
theorem LineInv.publications_round (h : LineInv Q information l)
    (hstate : l.node.client.state = .connected)
    (hstand : (connectedRound (mqttDeleteExpiredMessages l.node.client) input).state = .connected)
    (horderly : Orderly Q l (.round input)) :
    publications (l.bytes ++ emitted l.node (.round input)) =
      publications l.bytes ++
        (l.heard input).resends.toList.filterMap fun item => said item.buffer := by
  have hkeep : (mqttDeleteExpiredMessages l.node.client).state = .connected := hstate
  have hround : roundAttempts l.node.client input =
      connectedAttempts (mqttDeleteExpiredMessages l.node.client) input := by
    unfold roundAttempts
    simp only [hkeep]
  have hall : ∀ a ∈ connectedAttempts (mqttDeleteExpiredMessages l.node.client) input,
      a.ok = true := by
    intro a ha
    cases hchecked : a.checked with
    | true => exact connectedRound_allWritten hstand a ha hchecked
    | false => exact horderly a (hround ▸ ha) hchecked
  obtain ⟨ps, _, _, hbytes⟩ := h.begun
  have hfit := h.fit.deleteExpired
  have hsaid := publications_onLine (hbytes hstate).2
    (fun a ha => (hfit.connectedAttempts a ha).imp fun _ => And.right) hall
  change publications (l.bytes ++ onLine (roundAttempts l.node.client input)) = _
  rw [hround, hsaid, said_connectedAttempts hfit.total (connectedRound_connected hstand)]
  rfl

/-- The items before a round resends are stored items. -/
theorem labels_heard (hitems : l.node.client.outbox.PublishOnly) :
    ((l.heard input).outbox.labels).Sublist l.node.client.outbox.labels := by
  have hreceive := (labels_mqttProcessReceive
    (c := (mqttDeleteExpiredMessages l.node.client).advance input.receiveTime) input
    (hitems.sublist List.filter_sublist)).2.1
  rw [Line.heard, outbox_heard]
  exact hreceive.trans (List.filter_sublist.map _)

theorem refines_line_heard (hitems : l.node.client.outbox.PublishOnly)
    (h : ∀ id, input.received ≠ .pubrec id) : Refines Drains l.node.client (l.heard input) := by
  have hexpire := deleteExpired_refines admits_drains hitems
  exact hexpire.trans (refines_heard hexpire.items h)

/-- The outbox after a round that leaves the connection standing. -/
theorem outbox_connectedRound {c : Client} (h : (connectedRound c input).state = .connected) :
    (connectedRound c input).outbox = (resend (c.heard input) input).outbox ∧
      (resend (c.heard input) input).state = .connected := by
  have hok := connectedRound_connected h
  rw [connectedRound_eq hok] at h ⊢
  exact ⟨(processKeepalive_eq ..).1, (processKeepalive_connected h).2⟩

/-- What an item that is sent says has the item's id. -/
theorem Named.said_resends (h : Named l.node.client.outbox.labels)
    (hitems : l.node.client.outbox.PublishOnly) {item : OutboxItem}
    (hitem : (l.heard input).resends = some item) :
    item.label ∈ l.node.client.outbox.labels ∧
      ∃ topic payload, said item.buffer = some (item.msgId, topic, payload) := by
  have hmem : item.label ∈ l.node.client.outbox.labels :=
    (labels_heard hitems).subset (List.mem_map_of_mem (mem_outbox_of_resends hitem))
  exact ⟨hmem, h.own item.label hmem⟩

/-- What a broker may send: answers to what was published on the connection, and none as for
QoS 2. -/
def Received.Expected (published : List UInt16) : Received → Prop
  | .puback id | .pubcomp id => id ∈ published
  | .pubrec _ => False
  | .nothing | .failure | .suback .. | .unsuback _ | .publish .. | .pubrel _ | .pingresp
  | .other => True

instance (published : List UInt16) : (received : Received) →
    Decidable (received.Expected published)
  | .puback _ | .pubcomp _ => inferInstanceAs (Decidable (_ ∈ published))
  | .pubrec _ => inferInstanceAs (Decidable False)
  | .nothing | .failure | .suback .. | .unsuback _ | .publish .. | .pubrel _ | .pingresp
  | .other => inferInstanceAs (Decidable True)

theorem Received.Expected.not_pubrec {published : List UInt16} {received : Received}
    (h : received.Expected published) (id : UInt16) : received ≠ .pubrec id := by
  rintro rfl
  exact h

/-- The broker answers what was published on the connection, as for QoS 1. -/
def Replies (l : Line) : Action → Prop
  | .round input => input.received.Expected ((publications l.bytes).map Prod.fst)
  | _ => True

instance (l : Line) : (a : Action) → Decidable (Replies l a)
  | .round _ => inferInstanceAs (Decidable (Received.Expected _ _))
  | .call _ | .publish _ | .begin | .poll _ | .abort | .exit | .advance _ =>
    inferInstanceAs (Decidable True)

theorem answers_of_replies (h : Replies l (.round input)) : Answers l input := by
  intro id hid
  change input.received.Expected _ at h
  rcases hid with hpuback | hpubcomp
  · rw [hpuback] at h
    exact h
  · rw [hpubcomp] at h
    exact h

/-- No stored item is released, and what waits for its transmission was not published on the
connection. -/
structure Forthcoming (l : Line) : Prop where
  unreleased : ∀ e ∈ l.node.client.outbox.entries, e.phase ≠ .released
  unwritten : l.node.client.state = .connected →
    ∀ id ∈ waiting l.node.client.outbox.entries, id ∉ (publications l.bytes).map Prod.fst

/-- What a publish does to the entries. -/
theorem Published.entries {c c' : Client} {fits : Prop} {record : Nat} {input : PublishInput}
    {result : Option UInt16} (h : Published c fits record input c' result) :
    c'.outbox.entries = c.outbox.entries ∨
      ∃ stored : List (StoreForward.Entry UInt16),
        stored = c.outbox.entries ++ [⟨input.random, record, .queued, c.now⟩] ∧
        (c'.outbox.entries = stored ∧ c'.state ≠ .connected ∨
          ∃ stamp, c'.outbox.entries = StoreForward.markSent input.random stamp stored) := by
  have hstored : ∀ buffer,
      Outbox.entries (c.outbox ++ [publishItem buffer input.random record c.now]) =
        c.outbox.entries ++ [⟨input.random, record, .queued, c.now⟩] := by
    intro buffer
    simp [Outbox.entries, OutboxItem.entry, publishItem, PendingState.phase]
  cases h with
  | rejected => exact .inl rfl
  | offline hfits hstate connection buffer =>
    exact .inr ⟨_, rfl, .inl ⟨hstored buffer, hstate⟩⟩
  | cutOff hfits hstate connection buffer whole =>
    exact .inr ⟨_, rfl, .inl ⟨hstored buffer, by simp [espMqttAbortConnection]⟩⟩
  | sent hfits hstate connection buffer =>
    refine .inr ⟨_, rfl, .inr ⟨c.now + input.elapsed, ?_⟩⟩
    rw [← hstored buffer]
    exact entries_setTick_setPending _ input.random _

/-- What waits after a publish on a connection has waited before. -/
theorem Published.waits {c c' : Client} {fits : Prop} {record : Nat} {input : PublishInput}
    {result : Option UInt16} (h : Published c fits record input c' result)
    (hkeys : (c.outbox.entries.map StoreForward.Entry.key).Nodup)
    (hfresh : input.random ∉ c.outbox.entries.map StoreForward.Entry.key)
    (hstate : c'.state = .connected) :
    ∀ id ∈ waiting c'.outbox.entries, id ∈ waiting c.outbox.entries ∧ id ≠ input.random := by
  intro id hid
  rcases h.entries with hsame | ⟨stored, hstored, ⟨_, hlost⟩ | ⟨stamp, hentries⟩⟩
  · rw [hsame] at hid
    refine ⟨hid, ?_⟩
    rintro rfl
    obtain ⟨e, he, _, hkey⟩ := StoreForward.mem_waiting.mp hid
    exact hfresh (List.mem_map.mpr ⟨e, he, hkey⟩)
  · exact absurd hstate hlost
  · have hnodup : (stored.map StoreForward.Entry.key).Nodup := by
      rw [hstored, List.map_append, List.map_singleton]
      refine List.nodup_append.mpr ⟨hkeys, List.nodup_singleton _, fun id hid id' hid' heq => ?_⟩
      have hrandom : id = input.random := heq.trans (List.mem_singleton.mp hid')
      exact hfresh (hrandom ▸ hid)
    rw [hentries] at hid
    have hne : id ≠ input.random := by
      rintro rfl
      exact StoreForward.not_mem_waiting_updateFirst (fun e => by simp) hnodup hid
    have hmem := StoreForward.waiting_updateFirst_subset (fun e => by simp) stored hid
    obtain ⟨e, he, hphase, hkey⟩ := StoreForward.mem_waiting.mp hmem
    rw [hstored] at he
    rcases List.mem_append.mp he with hbefore | hnew
    · exact ⟨StoreForward.mem_waiting.mpr ⟨e, hbefore, hphase, hkey⟩, hne⟩
    · obtain rfl := List.mem_singleton.mp hnew
      exact absurd hkey.symm hne

/-- An id that no stored item has is none of the keys. -/
theorem Unused.fresh {input : PublishInput} (h : Unused l (.publish input)) :
    input.random ∉ l.node.client.outbox.entries.map StoreForward.Entry.key := by
  rw [keys_entries]
  intro hmem
  obtain ⟨x, hx, hkey⟩ := List.mem_map.mp hmem
  obtain ⟨old, hold, rfl⟩ := List.mem_map.mp hx
  exact h old hold hkey

/-- Where nothing is stored or sent. -/
theorem Forthcoming.quiet (h : Forthcoming l)
    (hentries : l'.node.client.outbox.entries.Sublist l.node.client.outbox.entries)
    (hstate : l'.node.client.state = .connected →
      l.node.client.state = .connected ∧ l'.bytes = l.bytes) : Forthcoming l' := by
  refine ⟨fun e he => h.unreleased e (hentries.subset he), fun hconnected id hid => ?_⟩
  obtain ⟨hbefore, hbytes⟩ := hstate hconnected
  rw [hbytes]
  exact h.unwritten hbefore id (StoreForward.waiting_sublist hentries hid)

/-- What is published directly does not wait. -/
theorem Forthcoming.publish (h : Forthcoming l) (hmatched : Matched Q information False l)
    {call : Call} {input : PublishInput} {client : Client} {result : Option UInt16}
    (hid : input.random ≠ 0) (hcall : l.node.calling = some call)
    (hpublish : espMqttClientPublish l.node.client call.args.cTopic call.args.data
      call.args.payload.length 1 0 call.record input = some (client, result))
    (horderly : Orderly Q l (.publish input)) (hunused : Unused l (.publish input))
    (hclient : l'.node.client = client)
    (hbytes : l'.bytes = l.bytes ++ emitted l.node (.publish input)) : Forthcoming l' := by
  have hpublished := published hpublish
  have hkeys := hmatched.named.keys
  have hunreleased : ∀ e ∈ client.outbox.entries, e.phase ≠ .released := by
    rcases hpublished.entries with hsame | ⟨stored, hstored, hcases⟩
    · rw [hsame]
      exact h.unreleased
    · have hall : ∀ e ∈ stored, e.phase ≠ .released := by
        intro e he
        rw [hstored] at he
        rcases List.mem_append.mp he with hbefore | hnew
        · exact h.unreleased e hbefore
        · obtain rfl := List.mem_singleton.mp hnew
          simp
      rcases hcases with ⟨hentries, _⟩ | ⟨stamp, hentries⟩
      · rw [hentries]
        exact hall
      · rw [hentries]
        intro e he
        rcases StoreForward.mem_updateFirst he with hbefore | ⟨e₀, _, rfl⟩
        · exact hall e hbefore
        · simp
  subst hclient
  refine ⟨hunreleased, fun hconnected id hid' => ?_⟩
  obtain ⟨hwaits, hne⟩ := hpublished.waits hkeys hunused.fresh hconnected id hid'
  have hbefore := h.unwritten (hpublished.connected hconnected) id hwaits
  rw [hbytes]
  rcases hmatched.line.publish_labels hid hcall hpublish horderly with
    ⟨_, hnothing⟩ | ⟨topic, payload, _, hsaid⟩
  · rw [hnothing hconnected, List.append_nil]
    exact hbefore
  · rw [hsaid hconnected, List.map_append, List.mem_append]
    rintro (hold | hnew)
    · exact hbefore hold
    · exact hne (List.mem_singleton.mp hnew)

/-- What is sent in a round does not wait after it. -/
theorem Forthcoming.round (h : Forthcoming l) (hmatched : Matched Q information False l)
    (horderly : Orderly Q l (.round input)) (hreplies : Replies l (.round input))
    (hclient : l'.node.client = (espMqttTaskRound l.node.client input).1)
    (hbytes : l'.bytes = if l.opens (.round input) then emitted l.node (.round input)
      else l.bytes ++ emitted l.node (.round input)) : Forthcoming l' := by
  have hitems := hmatched.inv.items
  have hdrains := (espMqttTaskRound_refines admits_drains hitems input
    fun _ a ha => drains_action hreplies.not_pubrec ha _).drains
  rw [← hclient] at hdrains
  refine ⟨hdrains.2 h.unreleased, fun hconnected id hid => ?_⟩
  have hkeep : (mqttDeleteExpiredMessages l.node.client).state = l.node.client.state := rfl
  rw [hclient] at hconnected
  unfold espMqttTaskRound at hconnected hclient
  simp only [hkeep] at hconnected hclient
  rw [hbytes]
  cases hstate : l.node.client.state with
  | init =>
    simp only [hstate] at hconnected
    obtain ⟨hcreated, htransport, _⟩ := initRound_connected (hkeep.trans hstate) hconnected
    have hround : roundAttempts l.node.client input = connectAttempts
        ((mqttDeleteExpiredMessages l.node.client).advance input.connectTime) input := by
      unfold roundAttempts
      simp only [hkeep, hstate]
    have hnothing := publications_connectAttempts
      (hmatched.line.fit.deleteExpired.advance input.connectTime).total
      (initRound_allWritten input (hkeep.trans hstate) hconnected)
    rw [if_pos ⟨hstate, hcreated, htransport⟩]
    change id ∉ (publications (onLine (roundAttempts l.node.client input))).map Prod.fst
    rw [hround, hnothing]
    exact List.not_mem_nil
  | connected =>
    simp only [hstate] at hconnected hclient
    have hopens : ¬ l.opens (.round input) := fun hopens =>
      absurd (hstate.symm.trans hopens.1) (by decide)
    rw [if_neg hopens, hmatched.line.publications_round hstate hconnected horderly,
      List.map_append, List.mem_append]
    rintro (hold | hnew)
    · exact h.unwritten hstate id (hdrains.1 hid) hold
    · obtain ⟨s, hs, rfl⟩ := List.mem_map.mp hnew
      obtain ⟨item, hitem, hsaid⟩ := List.mem_filterMap.mp hs
      have hresends := Option.mem_toList.mp hitem
      obtain ⟨_, topic, payload, hown⟩ := hmatched.named.said_resends hitems hresends
      obtain rfl := Option.some.inj (hown.symm.trans hsaid)
      obtain ⟨houtbox, hstands⟩ := outbox_connectedRound hconnected
      rw [hclient, houtbox] at hid
      exact not_mem_waiting_resend (refines_line_heard hitems hreplies.not_pubrec).items
        (hmatched.named.sublist (labels_heard hitems)) hstands hresends hid
  | disconnected =>
    simp only [hstate] at hconnected
    cases hconnected.symm.trans (hkeep.trans hstate)
  | waitReconnect =>
    simp only [hstate] at hconnected
    split at hconnected
    · cases hconnected
    · cases hconnected.symm.trans (hkeep.trans hstate)

theorem Forthcoming.step {a : Action} (h : Forthcoming l) (hmatched : Matched Q information False l)
    (horderly : Orderly Q l a) (hunused : Unused l a) (hreplies : Replies l a)
    (hstep : lineStep l a = some l') : Forthcoming l' := by
  obtain ⟨node, hnode, rfl⟩ := Option.map_eq_some_iff.mp hstep
  cases step_spec hnode with
  | called | refused | poll | advance =>
    exact h.quiet (.refl _) fun hconnected => ⟨hconnected, List.append_nil _⟩
  | publish input call client result hid hcall hpublish =>
    have hne : input.random ≠ 0 := fun hzero => by
      rw [hzero] at hid
      exact absurd hid.1 (by decide)
    exact h.publish hmatched hne hcall hpublish horderly hunused rfl rfl
  | begin | abort => exact h.quiet (.refl _) fun hfalse => by cases hfalse
  | round input htask hrun hid => exact h.round hmatched horderly hreplies rfl rfl
  | exit => exact h.quiet (List.nil_sublist _) fun hfalse => by cases hfalse

theorem forthcoming_init (information : ConnectInfo) (now : Nat) :
    Forthcoming (line information now).init :=
  ⟨fun _ he => absurd he List.not_mem_nil, fun hfalse => by cases hfalse⟩

/-! ## Progress -/

/-- How many stored items were not published on the connection. -/
def Line.unsaid (l : Line) : Nat :=
  l.node.client.outbox.labels.countP fun x => decide (x.2 ∉ (publications l.bytes).map some)

/-- The broker has answered all that is still stored and was published on the connection. -/
def Line.Answered (l : Line) : Prop :=
  ∀ x ∈ l.node.client.outbox.labels, x.1 ∉ (publications l.bytes).map Prod.fst

instance (l : Line) : Decidable l.Answered :=
  inferInstanceAs (Decidable (∀ x ∈ l.node.client.outbox.labels, _ ∉ _))

/-- A round that finds something to send: an item is queued, or all publications are answered
and a second is over since the last look and since the items were stored or sent. -/
def Due (l : Line) : Action → Prop
  | .round _ =>
    (∃ item ∈ l.node.client.outbox, item.pending = .queued) ∨
      l.Answered ∧ l.node.client.lastRetransmit ≠ 0 ∧
        l.node.client.lastRetransmit + messageRetransmitTimeout ≤ l.node.client.now ∧
        ∀ item ∈ l.node.client.outbox, item.tick + messageRetransmitTimeout < l.node.client.now
  | _ => False

instance (l : Line) : (a : Action) → Decidable (Due l a)
  | .round _ => inferInstanceAs (Decidable ((∃ item ∈ l.node.client.outbox, _) ∨ _))
  | .call _ | .publish _ | .begin | .poll _ | .abort | .exit | .advance _ =>
    inferInstanceAs (Decidable False)

/-- A smaller part of fewer elements, one of which has left the part or the list. -/
private theorem countP_lt {α : Type*} {xs ys : List α} {p q : α → Bool} (hsub : ys.Sublist xs)
    (himp : ∀ x, q x = true → p x = true) {y : α} (hy : y ∈ xs) (hp : p y = true)
    (hq : y ∈ ys → q y = false) : ys.countP q < xs.countP p := by
  rw [List.countP_eq_length_filter, List.countP_eq_length_filter]
  have hle : (ys.filter q).Sublist (xs.filter p) :=
    (hsub.filter q).trans (List.monotone_filter_right xs himp)
  refine Nat.lt_of_le_of_ne hle.length_le fun heq => ?_
  have hmem : y ∈ ys.filter q := by
    rw [hle.eq_of_length heq]
    exact List.mem_filter.mpr ⟨hy, hp⟩
  obtain ⟨hys, hqy⟩ := List.mem_filter.mp hmem
  rw [hq hys] at hqy
  cases hqy

/-- Where fewer items are stored and more is published, no more items are unsaid. -/
theorem unsaid_le (hsub : (l'.node.client.outbox.labels).Sublist l.node.client.outbox.labels)
    (hmore : publications l.bytes ⊆ publications l'.bytes) : l'.unsaid ≤ l.unsaid := by
  refine hsub.countP_le.trans (List.countP_mono_left fun x _ hx => ?_)
  simp only [decide_eq_true_eq] at hx ⊢
  exact fun hmem => hx (List.map_subset some hmore hmem)

/-- And fewer, where one of them is not stored any more, or is published. -/
theorem unsaid_lt (hsub : (l'.node.client.outbox.labels).Sublist l.node.client.outbox.labels)
    (hmore : publications l.bytes ⊆ publications l'.bytes)
    {x : UInt16 × Option (UInt16 × List UInt8 × List UInt8)}
    (hx : x ∈ l.node.client.outbox.labels) (hunsaid : x.2 ∉ (publications l.bytes).map some)
    (hdone : x ∈ l'.node.client.outbox.labels → x.2 ∈ (publications l'.bytes).map some) :
    l'.unsaid < l.unsaid := by
  refine countP_lt hsub (fun y hy => ?_) hx (decide_eq_true hunsaid) fun hmem => ?_
  · simp only [decide_eq_true_eq] at hy ⊢
    exact fun hmem => hy (List.map_subset some hmore hmem)
  · simpa using hdone hmem

/-- An item whose id was not published is unsaid. -/
theorem Named.unsaid_of_id {labels : List (UInt16 × Option (UInt16 × List UInt8 × List UInt8))}
    (h : Named labels) {x : UInt16 × Option (UInt16 × List UInt8 × List UInt8)} (hx : x ∈ labels)
    {published : List (UInt16 × List UInt8 × List UInt8)}
    (hid : x.1 ∉ published.map Prod.fst) : x.2 ∉ published.map some := by
  intro hmem
  obtain ⟨s, hs, hsaid⟩ := List.mem_map.mp hmem
  obtain ⟨topic, payload, hown⟩ := h.own x hx
  rw [hown] at hsaid
  obtain rfl := Option.some.inj hsaid
  exact hid (List.mem_map_of_mem hs)

/-- Receiving leaves the items whose ids were not published. -/
theorem mem_heard (hitems : l.node.client.outbox.PublishOnly) (hreplies : Replies l (.round input))
    {x : UInt16 × Option (UInt16 × List UInt8 × List UInt8)}
    (hx : x ∈ (mqttDeleteExpiredMessages l.node.client).outbox.labels)
    (hid : x.1 ∉ (publications l.bytes).map Prod.fst) : x ∈ (l.heard input).outbox.labels := by
  by_contra hgone
  rw [Line.heard, outbox_heard] at hgone
  have hreceived := (labels_mqttProcessReceive
    (c := (mqttDeleteExpiredMessages l.node.client).advance input.receiveTime) input
    (hitems.sublist List.filter_sublist)).2.2 x hx hgone
  exact hid (answers_of_replies hreplies x.1 hreceived)

/-- Where an item has a phase, one is dequeued in it. -/
theorem exists_outboxDequeue {pending : PendingState} {phase : StoreForward.Phase}
    (hphase : ∀ p : PendingState, p.phase = phase ↔ p = pending) {outbox : Outbox}
    {item : OutboxItem} (hitem : item ∈ outbox) (hpending : item.pending = pending) :
    ∃ first handle, outboxDequeue outbox pending = some (first, handle) := by
  have hfirst := firstIn_of_outboxDequeue hphase outbox
  cases hfound : outboxDequeue outbox pending with
  | some found => exact ⟨found.1, found.2, rfl⟩
  | none =>
    rw [hfound] at hfirst
    have hentry : item.entry ∈ outbox.entries := List.mem_map_of_mem hitem
    exact absurd (decide_eq_true ((hphase item.pending).mpr hpending))
      (List.find?_eq_none.mp hfirst item.entry hentry)

/-- What receiving keeps where nothing is released. -/
theorem mqttProcessReceive_keeps (c : Client) (h : ∀ id, input.received ≠ .pubrec id) :
    (mqttProcessReceive c input).2.outbox.Sublist c.outbox ∧
      (mqttProcessReceive c input).2.now = c.now ∧
      (mqttProcessReceive c input).2.lastRetransmit = c.lastRetransmit := by
  have hreply : ∀ build msgId checked, (c.reply build msgId checked input).2.outbox.Sublist
      c.outbox ∧ (c.reply build msgId checked input).2.now = c.now ∧
      (c.reply build msgId checked input).2.lastRetransmit = c.lastRetransmit := by
    intro build msgId checked
    unfold Client.reply
    simp only
    split <;> exact ⟨.refl _, rfl, rfl⟩
  unfold mqttProcessReceive
  cases hreceived : input.received with
  | nothing | other | failure | pingresp => exact ⟨.refl _, rfl, rfl⟩
  | suback | unsuback | puback | pubcomp => exact ⟨List.eraseP_sublist, rfl, rfl⟩
  | publish msgId qos delivered =>
    simp only
    split
    · split
      · exact hreply ..
      · split
        · exact hreply ..
        · exact ⟨.refl _, rfl, rfl⟩
    · exact ⟨.refl _, rfl, rfl⟩
  | pubrec msgId => exact absurd hreceived (h msgId)
  | pubrel msgId => exact hreply ..

/-- Before a round resends it has kept some of the items as they were, and the time of the last
look, if there was one. -/
theorem heard_keeps (h : ∀ id, input.received ≠ .pubrec id) :
    (l.heard input).outbox.Sublist l.node.client.outbox ∧
      l.node.client.now ≤ (l.heard input).now ∧
      (l.node.client.lastRetransmit ≠ 0 →
        (l.heard input).lastRetransmit = l.node.client.lastRetransmit) := by
  obtain ⟨houtbox, hnow, hlast⟩ := mqttProcessReceive_keeps
    ((mqttDeleteExpiredMessages l.node.client).advance input.receiveTime) h
  have hadvance : l.node.client.now ≤
      ((mqttDeleteExpiredMessages l.node.client).advance input.receiveTime).now :=
    Nat.le_add_right _ _
  have hnow' : (l.heard input).now = (mqttProcessReceive
      ((mqttDeleteExpiredMessages l.node.client).advance input.receiveTime) input).2.now := by
    unfold Line.heard Client.heard Client.beginResend
    split <;> rfl
  refine ⟨?_, hnow'.trans hnow ▸ hadvance, fun hne => ?_⟩
  · rw [Line.heard, outbox_heard]
    exact houtbox.trans List.filter_sublist
  · unfold Line.heard Client.heard Client.beginResend
    rw [if_neg (by rw [hlast]; exact hne), hlast]
    rfl

/-- A queued item that is still there is sent, or another one before it. -/
theorem resends_of_queued (hf : Forthcoming l) (hstate : l.node.client.state = .connected)
    (hreplies : Replies l (.round input)) {item : OutboxItem}
    (hitem : item ∈ (l.heard input).outbox) (hqueued : item.pending = .queued) :
    ∃ first, (l.heard input).resends = some first ∧
      first.msgId ∉ (publications l.bytes).map Prod.fst := by
  obtain ⟨first, handle, hfirst⟩ := exists_outboxDequeue
    (fun p => PendingState.phase_eq_queued (p := p)) hitem hqueued
  obtain ⟨hmem, hpending⟩ := mem_of_outboxDequeue hfirst
  refine ⟨first, ?_, hf.unwritten hstate first.msgId ?_⟩
  · unfold Client.resends
    rw [hfirst]
  · have hstored := (heard_keeps hreplies.not_pubrec).1.subset hmem
    exact StoreForward.mem_waiting.mpr ⟨first.entry, List.mem_map_of_mem hstored,
      PendingState.phase_eq_queued.mpr hpending, rfl⟩

/-- Where all publications are answered, an item that is due is sent, or another one before it. -/
theorem resends_of_answered (hf : Forthcoming l) (hstate : l.node.client.state = .connected)
    (hreplies : Replies l (.round input)) (hanswered : l.Answered)
    (hlast : l.node.client.lastRetransmit ≠ 0)
    (hlook : l.node.client.lastRetransmit + messageRetransmitTimeout ≤ l.node.client.now)
    (hage : ∀ item ∈ l.node.client.outbox,
      item.tick + messageRetransmitTimeout < l.node.client.now)
    {item : OutboxItem} (hitem : item ∈ (l.heard input).outbox) :
    ∃ first, (l.heard input).resends = some first ∧
      first.msgId ∉ (publications l.bytes).map Prod.fst := by
  obtain ⟨hsub, hnow, hsame⟩ := heard_keeps (l := l) hreplies.not_pubrec
  by_cases hqueued : item.pending = .queued
  · exact resends_of_queued hf hstate hreplies hitem hqueued
  · cases hnone : outboxDequeue (l.heard input).outbox .queued with
    | some found =>
      obtain ⟨hmem, hpending⟩ := mem_of_outboxDequeue hnone
      exact resends_of_queued hf hstate hreplies hmem hpending
    | none =>
      have htransmitted : item.pending = .transmitted := by
        have hphase := hf.unreleased item.entry (List.mem_map_of_mem (hsub.subset hitem))
        cases hpending : item.pending with
        | queued => exact absurd hpending hqueued
        | transmitted => rfl
        | acknowledged | confirmed =>
          refine absurd ?_ hphase
          change item.pending.phase = .released
          rw [hpending]
          rfl
      obtain ⟨first, handle, hfirst⟩ := exists_outboxDequeue
        (fun p => PendingState.phase_eq_transmitted (p := p)) hitem htransmitted
      have hstored := hsub.subset (mem_of_outboxDequeue hfirst).1
      have hdue : hasTimedOut (l.heard input).now (l.heard input).lastRetransmit
          messageRetransmitTimeout = true := by
        rw [hsame hlast]
        exact decide_eq_true (hlook.trans hnow)
      have hold : messageRetransmitTimeout < (l.heard input).now - first.tick := by
        have := hage first hstored
        omega
      refine ⟨first, ?_, hanswered first.label (List.mem_map_of_mem hstored)⟩
      unfold Client.resends
      rw [hnone]
      simp only
      rw [if_pos hdue, hfirst, Option.bind_some]
      simp only
      rw [if_pos hold]

/-- A round on a standing connection leaves no more items unsaid, and fewer where it is due. -/
theorem unsaid_round (h : Matched Q information False l) (hf : Forthcoming l)
    (hstate : l.node.client.state = .connected) (horderly : Orderly Q l (.round input))
    (hreplies : Replies l (.round input))
    (hclient : l'.node.client = connectedRound (mqttDeleteExpiredMessages l.node.client) input)
    (hstand : l'.node.client.state = .connected)
    (hbytes : l'.bytes = l.bytes ++ emitted l.node (.round input)) :
    l'.unsaid ≤ l.unsaid ∧ (Due l (.round input) → l.unsaid ≠ 0 → l'.unsaid < l.unsaid) := by
  have hitems := h.inv.items
  have hkept : (l'.node.client.outbox.labels).Sublist
      (mqttDeleteExpiredMessages l.node.client).outbox.labels := by
    rw [hclient]
    exact (labels_connectedRound input (hitems.sublist List.filter_sublist)).1
  have hsub := hkept.trans (List.filter_sublist.map OutboxItem.label)
  rw [hclient] at hstand
  have hsaid := h.line.publications_round hstate hstand horderly
  rw [← hbytes] at hsaid
  have hmore : publications l.bytes ⊆ publications l'.bytes := by
    rw [hsaid]
    exact List.subset_append_left _ _
  have hsent : ∀ first, (l.heard input).resends = some first →
      first.msgId ∉ (publications l.bytes).map Prod.fst → l'.unsaid < l.unsaid := by
    intro first hfirst hid
    obtain ⟨hmem, topic, payload, hown⟩ := h.named.said_resends hitems hfirst
    refine unsaid_lt hsub hmore hmem (h.named.unsaid_of_id hmem hid) fun _ => ?_
    rw [hsaid, hfirst]
    refine List.mem_map.mpr ⟨(first.msgId, topic, payload), ?_, hown.symm⟩
    exact List.mem_append_right _ (List.mem_filterMap.mpr ⟨first, List.mem_singleton_self _, hown⟩)
  -- An item that is over its age is not unsaid any more either.
  have hexpired : ∀ x ∈ l.node.client.outbox.labels,
      x.1 ∉ (publications l.bytes).map Prod.fst →
      x ∉ (mqttDeleteExpiredMessages l.node.client).outbox.labels → l'.unsaid < l.unsaid :=
    fun x hx hid hgone => unsaid_lt hsub hmore hx (h.named.unsaid_of_id hx hid)
      fun hmem => absurd (hkept.subset hmem) hgone
  refine ⟨unsaid_le hsub hmore, fun hdue hpos => ?_⟩
  rcases hdue with ⟨item, hitem, hqueued⟩ | ⟨hanswered, hlast, hlook, hage⟩
  · have hlabel : item.label ∈ l.node.client.outbox.labels := List.mem_map_of_mem hitem
    have hid : item.msgId ∉ (publications l.bytes).map Prod.fst :=
      hf.unwritten hstate item.msgId (StoreForward.mem_waiting.mpr ⟨item.entry,
        List.mem_map_of_mem hitem, PendingState.phase_eq_queued.mpr hqueued, rfl⟩)
    by_cases hyoung : item.label ∈ (mqttDeleteExpiredMessages l.node.client).outbox.labels
    · obtain ⟨other, hother, heq⟩ := List.mem_map.mp (mem_heard hitems hreplies hyoung hid)
      have hsame : other = item := by
        have hnodup := h.named.nodup
        rw [Outbox.labels, List.map_map] at hnodup
        exact List.inj_on_of_nodup_map hnodup
          ((heard_keeps hreplies.not_pubrec).1.subset hother) hitem (congrArg Prod.fst heq)
      obtain ⟨first, hfirst, hnew⟩ :=
        resends_of_queued hf hstate hreplies (hsame ▸ hother) hqueued
      exact hsent first hfirst hnew
    · exact hexpired item.label hlabel hid hyoung
  · obtain ⟨x, hx, _⟩ := List.countP_pos_iff.mp (Nat.pos_of_ne_zero hpos)
    have hid := hanswered x hx
    by_cases hyoung : x ∈ (mqttDeleteExpiredMessages l.node.client).outbox.labels
    · obtain ⟨item, hitem, _⟩ := List.mem_map.mp (mem_heard hitems hreplies hyoung hid)
      obtain ⟨first, hfirst, hnew⟩ :=
        resends_of_answered hf hstate hreplies hanswered hlast hlook hage hitem
      exact hsent first hfirst hnew
    · exact hexpired x hx hid hyoung

/-- What is published directly is stored and said. -/
theorem unsaid_publish (h : Matched Q information False l) {call : Call} {input : PublishInput}
    {client : Client} {result : Option UInt16} (hid : input.random ≠ 0)
    (hcall : l.node.calling = some call)
    (hpublish : espMqttClientPublish l.node.client call.args.cTopic call.args.data
      call.args.payload.length 1 0 call.record input = some (client, result))
    (horderly : Orderly Q l (.publish input)) (hclient : l'.node.client = client)
    (hstand : client.state = .connected)
    (hbytes : l'.bytes = l.bytes ++ emitted l.node (.publish input)) :
    l'.unsaid ≤ l.unsaid := by
  subst hclient
  rcases h.line.publish_labels hid hcall hpublish horderly with
    ⟨houtbox, hnothing⟩ | ⟨topic, payload, hlabels, hsaid⟩
  · rw [hnothing hstand, List.append_nil] at hbytes
    refine unsaid_le ?_ ?_
    · rw [houtbox]
    · rw [hbytes]
      exact List.Subset.refl _
  · rw [← hbytes] at hsaid
    unfold Line.unsaid
    rw [hlabels, hsaid hstand, List.countP_append]
    have hnew : List.countP (fun x : UInt16 × Option (UInt16 × List UInt8 × List UInt8) =>
        decide (x.2 ∉ (publications l.bytes ++ [(input.random, topic, payload)]).map some))
        [(input.random, some (input.random, topic, payload))] = 0 := by
      simp
    rw [hnew, Nat.add_zero]
    refine List.countP_mono_left fun x _ hx => ?_
    simp only [decide_eq_true_eq] at hx ⊢
    exact fun hmem => hx (List.map_subset some (List.subset_append_left _ _) hmem)

theorem unsaid_step {a : Action} (h : Matched Q information False l) (hf : Forthcoming l)
    (hstate : l.node.client.state = .connected) (horderly : Orderly Q l a)
    (hreplies : Replies l a) (hstep : lineStep l a = some l')
    (hstand : l'.node.client.state = .connected) :
    l'.unsaid ≤ l.unsaid ∧ (Due l a → l.unsaid ≠ 0 → l'.unsaid < l.unsaid) := by
  obtain ⟨node, hnode, rfl⟩ := Option.map_eq_some_iff.mp hstep
  have hquiet : ∀ {l'' : Line}, l''.node.client.outbox = l.node.client.outbox →
      l''.bytes = l.bytes → l''.unsaid ≤ l.unsaid := by
    intro l'' houtbox hbytes
    unfold Line.unsaid
    rw [houtbox, hbytes]
  cases step_spec hnode with
  | called | refused | poll | advance =>
    exact ⟨hquiet rfl (List.append_nil _), fun hfalse => hfalse.elim⟩
  | publish input call client result hid hcall hpublish =>
    have hne : input.random ≠ 0 := fun hzero => by
      rw [hzero] at hid
      exact absurd hid.1 (by decide)
    exact ⟨unsaid_publish h hne hcall hpublish horderly rfl hstand rfl, fun hfalse => hfalse.elim⟩
  | begin | abort | exit => cases hstand
  | round input htask hrun hid =>
    have hopens : ¬ l.opens (.round input) := fun hopens =>
      absurd (hstate.symm.trans hopens.1) (by decide)
    exact unsaid_round h hf hstate horderly hreplies (round_of_connected hstate hnode) hstand
      (if_neg hopens)

instance (n : Node) (a : Action) : Decidable (Stands n a) :=
  match h : step n a with
  | none => isTrue fun _ hn' => nomatch h.symm.trans hn'
  | some m => decidable_of_iff (m.client.state = .connected)
      ⟨fun hm _ hn' => Option.some.inj (h.symm.trans hn') ▸ hm, fun hstands => hstands m h⟩

/-- On a connection that stands, after as many due rounds as there were stored items that were
not published on it, every stored item is published on it; and where the broker has answered all
publications of stored items, none is stored. -/
theorem stored_is_published {information : ConnectInfo} {now : Nat} {as bs : List Action}
    (hrun : (line information now).exec (line information now).init as = some l)
    (hmeet : (line information now).StepsMeet
      (fun l a => Orderly Q l a ∧ Unused l a ∧ Replies l a) (line information now).init as)
    (hconnected : l.node.client.state = .connected)
    (hcontinued : (line information now).exec l bs = some l')
    (hstands : (line information now).StepsMeet
      (fun l a => (Orderly Q l a ∧ Unused l a ∧ Replies l a) ∧ Stands l.node a) l bs)
    (hdue : l.unsaid ≤ (line information now).count Due l bs) :
    (∀ x ∈ l'.node.client.outbox.labels, ∃ s ∈ publications l'.bytes, x.2 = some s) ∧
      (l'.Answered → l'.node.client.outbox = []) := by
  have hstart : Matched Q information False l ∧ Forthcoming l :=
    Machine.exec_invariant_of_stepsMeet (M := line information now)
      (P := fun l => Matched Q information False l ∧ Forthcoming l)
      (fun _ _ _ h hq hstep => ⟨h.1.step hq.1 hq.2.1 False.elim hstep,
        h.2.step h.1 hq.1 hq.2.1 hq.2.2 hstep⟩)
      ⟨matched_init Q information False now, forthcoming_init information now⟩ hmeet hrun
  obtain ⟨⟨⟨hmatched, _⟩, _⟩, hrank⟩ := Machine.rank_of_exec (M := line information now) (Q := Due)
    (P := fun l => (Matched Q information False l ∧ Forthcoming l) ∧
      l.node.client.state = .connected) Line.unsaid
    (fun l a l'' h hq hstep => by
      obtain ⟨node, hnode, hline⟩ := Option.map_eq_some_iff.mp hstep
      have hstate : l''.node.client.state = .connected := hline ▸ hq.2 node hnode
      exact ⟨⟨⟨h.1.1.step hq.1.1 hq.1.2.1 False.elim hstep,
        h.1.2.step h.1.1 hq.1.1 hq.1.2.1 hq.1.2.2 hstep⟩, hstate⟩,
        unsaid_step h.1.1 h.1.2 h.2 hq.1.1 hq.1.2.2 hstep hstate⟩)
    ⟨hstart, hconnected⟩ hstands hcontinued
  have hnone : l'.unsaid = 0 := by omega
  have hall : ∀ x ∈ l'.node.client.outbox.labels, ∃ s ∈ publications l'.bytes, x.2 = some s := by
    intro x hx
    have hmem : x.2 ∈ (publications l'.bytes).map some := by
      by_contra hnot
      exact List.countP_eq_zero.mp hnone x hx (decide_eq_true hnot)
    obtain ⟨s, hs, heq⟩ := List.mem_map.mp hmem
    exact ⟨s, hs, heq.symm⟩
  refine ⟨hall, fun hanswered => List.eq_nil_iff_forall_not_mem.mpr fun item hitem => ?_⟩
  have hlabel : item.label ∈ l'.node.client.outbox.labels := List.mem_map_of_mem hitem
  obtain ⟨s, hs, hsaid⟩ := hall item.label hlabel
  obtain ⟨topic, payload, hown⟩ := hmatched.named.own item.label hlabel
  obtain rfl := Option.some.inj (hsaid.symm.trans hown)
  exact hanswered item.label hlabel (List.mem_map_of_mem hs)

/-- The item that was cut off is sent again on the next connection, and answered there. -/
def sentAgain : List Action :=
  [.poll true, .round quietRound, .poll true, .round { quietRound with received := .puback 7 }]

theorem stored_is_published_sentAgain :
    ∃ l l', (line Mqtt.information 0).exec (line Mqtt.information 0).init (resent.take 9) = some l ∧
      (line Mqtt.information 0).exec l sentAgain = some l' ∧ l.unsaid = 1 ∧
      (∀ x ∈ l'.node.client.outbox.labels, ∃ s ∈ publications l'.bytes, x.2 = some s) ∧
      (l'.Answered → l'.node.client.outbox = []) := by
  have hrun : ((line Mqtt.information 0).exec (line Mqtt.information 0).init
      (resent.take 9)).bind (fun l => ((line Mqtt.information 0).exec l sentAgain).map fun _ =>
        decide ((l.unsaid = 1 ∧ l.node.client.state = .connected) ∧
          (line Mqtt.information 0).StepsMeet (fun l a =>
            (Orderly (fun topic payload => topic = [0x74] ∧ payload = [0x08]) l a ∧ Unused l a ∧
              Replies l a) ∧ Stands l.node a) l sentAgain ∧
          l.unsaid ≤ (line Mqtt.information 0).count Due l sentAgain)) = some true := by
    decide +kernel
  obtain ⟨l, hl, hrun⟩ := Option.bind_eq_some_iff.mp hrun
  obtain ⟨l', hl', hfacts⟩ := Option.map_eq_some_iff.mp hrun
  obtain ⟨⟨hunsaid, hstate⟩, hstands, hdue⟩ := of_decide_eq_true hfacts
  have hmeet : (line Mqtt.information 0).StepsMeet (fun l a =>
      Orderly (fun topic payload => topic = [0x74] ∧ payload = [0x08]) l a ∧ Unused l a ∧
        Replies l a) (line Mqtt.information 0).init (resent.take 9) := by
    decide +kernel
  exact ⟨l, l', hl, hl', hunsaid, stored_is_published hl hmeet hstate hl' hstands hdue⟩

end Runs

end IndustrialIot.Edge.Mqtt
