import IndustrialIot.Edge.Mqtt.Session

/-!
# Acknowledged publications

The broker answers a publication by its id alone, and the outbox deletes the item it finds first.
Where ids are not drawn again while they are in use, the deleted item is one whose packet the
transport took whole on the same connection.
-/

namespace IndustrialIot.Edge.Mqtt

open ControlPacket (Packet encodeAll packets)

/-! ## What is published on a line -/

/-- What a PUBLISH says with its id, topic and payload, for the first time or again. -/
def said (bytes : List UInt8) : Option (UInt16 × List UInt8 × List UInt8) :=
  (PublishPacket.decode bytes).map fun p => (p.id, p.topic, p.payload)

/-- The publications among the packets that have arrived whole. -/
def publications (bytes : List UInt8) : List (UInt16 × List UInt8 × List UInt8) :=
  (packets bytes).filterMap fun p => said p.encode

/-- An item by its id and what its packet says. -/
def OutboxItem.label (item : OutboxItem) : UInt16 × Option (UInt16 × List UInt8 × List UInt8) :=
  (item.msgId, said item.buffer)

/-- The labels of the items. -/
def Outbox.labels (outbox : Outbox) : List (UInt16 × Option (UInt16 × List UInt8 × List UInt8)) :=
  outbox.map OutboxItem.label

theorem said_encode (p : PublishPacket.Packet) :
    said (PublishPacket.encode p) = some (p.id, p.topic, p.payload) := by
  rw [said, PublishPacket.decode_encode]
  rfl

/-- A packet of another type says nothing. -/
theorem said_of_first {p : Packet} (h : p.first.toNat / 16 ≠ 3) : said p.encode = none := by
  rw [said, Packet.encode, List.cons_append, PublishPacket.decode, if_neg fun hp => h hp.1]
  rfl

/-- The bit of a repeated PUBLISH does not change what it says. -/
theorem said_mqttSetDup (bytes : List UInt8) : said (mqttSetDup bytes) = said bytes := by
  cases bytes with
  | nil => rfl
  | cons first rest =>
    have hall : ∀ b : Fin 256, (b.val ||| 8) / 16 = b.val / 16 ∧
        (b.val ||| 8) / 2 % 4 = b.val / 2 % 4 := by
      decide +kernel
    obtain ⟨htype, hqos⟩ := hall ⟨first.toNat, first.toNat_lt⟩
    have hfirst : (first ||| 0x08).toNat = first.toNat ||| 8 := UInt8.toNat_or ..
    have hbody : ∀ dup retain dup' retain' body,
        (PublishPacket.readBody dup retain body).map (fun p => (p.id, p.topic, p.payload)) =
          (PublishPacket.readBody dup' retain' body).map fun p => (p.id, p.topic, p.payload) := by
      intro dup retain dup' retain' body
      unfold PublishPacket.readBody
      cases PublishPacket.readString body with
      | none => rfl
      | some topic =>
        simp only [Option.bind_some]
        cases PublishPacket.readBe topic.2 with
        | none => rfl
        | some id =>
          simp only [Option.bind_some]
          split <;> rfl
    rw [mqttSetDup, said, said, PublishPacket.decode, PublishPacket.decode, hfirst]
    simp only at htype hqos
    rw [htype, hqos]
    split
    · cases Varint.decode 4 rest with
      | none => rfl
      | some found =>
        simp only [Option.bind_some]
        split
        · exact hbody ..
        · rfl
    · rfl

section

variable {Q : UInt16 → List UInt8 → List UInt8 → Prop}

/-- A request that says something is an allowed publication. -/
theorem Request.allowed {p : Packet} (h : Request Q p)
    {s : UInt16 × List UInt8 × List UInt8} (hs : said p.encode = some s) : Q s.1 s.2.1 s.2.2 := by
  cases h with
  | publish q hq packet hencode =>
    rw [hencode, said_encode] at hs
    cases hs
    exact hq
  | ack type id =>
    have hfirst : type.first.toNat / 16 ≠ 3 := by cases type <;> decide
    rw [said_of_first (p := (ControlPacket.Message.ack type id).packet) hfirst] at hs
    cases hs
  | pingreq =>
    rw [said_of_first (by decide)] at hs
    cases hs

theorem Opening.said {information : ConnectInfo} {p : Packet} (h : Opening information p) :
    said p.encode = none :=
  said_of_first (by rw [h.1]; decide)

theorem publications_encodeAll (ps : List Packet) :
    publications (encodeAll ps) = ps.filterMap fun p => said p.encode := by
  rw [publications, ControlPacket.packets_encodeAll]

theorem publications_snoc (ps : List Packet) (p : Packet) :
    publications (encodeAll ps ++ p.encode) =
      publications (encodeAll ps) ++ (said p.encode).toList := by
  have hsnoc : encodeAll ps ++ p.encode = encodeAll (ps ++ [p]) := by simp
  rw [hsnoc, publications_encodeAll, publications_encodeAll, List.filterMap_append]
  cases hsaid : Mqtt.said p.encode <;> simp [hsaid]

/-- Requests behind whole packets add what they say. -/
theorem publications_append {bytes more : List UInt8} {ps : List Packet}
    (hbytes : bytes = encodeAll ps) (hmore : Whole (Request Q) more True) :
    ∃ new, publications (bytes ++ more) = publications bytes ++ new ∧
      ∀ s ∈ new, Q s.1 s.2.1 s.2.2 := by
  obtain ⟨qs, hqs, _, hwhole⟩ := hmore
  obtain rfl := hwhole trivial
  refine ⟨qs.filterMap fun p => Mqtt.said p.encode, ?_, ?_⟩
  · rw [hbytes, ← ControlPacket.encodeAll_append, publications_encodeAll, publications_encodeAll,
      List.filterMap_append]
  · intro s hs
    obtain ⟨q, hq, hsaid⟩ := List.mem_filterMap.mp hs
    exact (hqs q hq).allowed hsaid

end

theorem publications_mono {bytes bytes' : List UInt8} (h : bytes <+: bytes') :
    publications bytes ⊆ publications bytes' :=
  List.filterMap_subset _ (ControlPacket.packets_mono h).subset

/-! ## Items and publications -/

/-- Where the id of an item has been published, the item has been published; in the strict case
each publication with its id is one of the item. -/
def Covers (strict : Prop) (labels : List (UInt16 × Option (UInt16 × List UInt8 × List UInt8)))
    (published : List (UInt16 × List UInt8 × List UInt8)) : Prop :=
  ∀ x ∈ labels, ∀ s ∈ published, s.1 = x.1 →
    (∃ s' ∈ published, x.2 = some s') ∧ (strict → x.2 = some s)

/-- Each item has its own id, which is that of its packet. -/
structure Named (labels : List (UInt16 × Option (UInt16 × List UInt8 × List UInt8))) : Prop where
  nodup : (labels.map Prod.fst).Nodup
  own : ∀ x ∈ labels, ∃ topic payload, x.2 = some (x.1, topic, payload)

section

variable {strict : Prop}
  {labels labels' : List (UInt16 × Option (UInt16 × List UInt8 × List UInt8))}
  {published more : List (UInt16 × List UInt8 × List UInt8)}

theorem Named.sublist (h : Named labels) (hsub : labels'.Sublist labels) : Named labels' :=
  ⟨h.nodup.sublist (hsub.map _), fun x hx => h.own x (hsub.subset hx)⟩

theorem Named.store (h : Named labels) {s : UInt16 × List UInt8 × List UInt8}
    (hfresh : ∀ x ∈ labels, x.1 ≠ s.1) : Named (labels ++ [(s.1, some s)]) := by
  constructor
  · rw [List.map_append, List.nodup_append]
    refine ⟨h.nodup, List.nodup_singleton _, ?_⟩
    intro id hid id' hid' heq
    obtain ⟨x, hx, rfl⟩ := List.mem_map.mp hid
    obtain rfl := List.mem_singleton.mp hid'
    exact hfresh x hx heq
  · intro x hx
    rcases List.mem_append.mp hx with hold | hnew
    · exact h.own x hold
    · obtain rfl := List.mem_singleton.mp hnew
      exact ⟨s.2.1, s.2.2, rfl⟩

/-- Items that are sent again are covered. -/
theorem Covers.append (h : Covers strict labels published) (hnamed : Named labels)
    (hmore : ∀ s ∈ more, ∃ x ∈ labels, x.2 = some s) :
    Covers strict labels (published ++ more) := by
  intro x hx s hs hid
  rcases List.mem_append.mp hs with hold | hnew
  · obtain ⟨⟨s', hs', hlabel⟩, hsame⟩ := h x hx s hold hid
    exact ⟨⟨s', List.mem_append_left _ hs', hlabel⟩, hsame⟩
  · obtain ⟨y, hy, hlabel⟩ := hmore s hnew
    obtain ⟨topic, payload, hown⟩ := hnamed.own y hy
    have hsame : y = x := by
      refine List.inj_on_of_nodup_map hnamed.nodup hy hx ?_
      rw [← hid, ← Option.some.inj (hown.symm.trans hlabel)]
    exact ⟨⟨s, hs, hsame ▸ hlabel⟩, fun _ => hsame ▸ hlabel⟩

theorem Covers.sublist (h : Covers strict labels published) (hsub : labels'.Sublist labels) :
    Covers strict labels' published := fun x hx => h x (hsub.subset hx)

/-- An item that is stored and sent under an unused id is covered. -/
theorem Covers.store (h : Covers strict labels published) {s : UInt16 × List UInt8 × List UInt8}
    (hfresh : ∀ x ∈ labels, x.1 ≠ s.1) (hunsent : strict → s.1 ∉ published.map Prod.fst) :
    Covers strict (labels ++ [(s.1, some s)]) (published ++ [s]) := by
  intro x hx t ht hid
  rcases List.mem_append.mp hx with hold | hnew
  · rcases List.mem_append.mp ht with hbefore | hlast
    · obtain ⟨⟨s', hs', hlabel⟩, hsame⟩ := h x hold t hbefore hid
      exact ⟨⟨s', List.mem_append_left _ hs', hlabel⟩, hsame⟩
    · obtain rfl := List.mem_singleton.mp hlast
      exact absurd hid.symm (hfresh x hold)
  · obtain rfl := List.mem_singleton.mp hnew
    refine ⟨⟨s, by simp, rfl⟩, fun hstrict => ?_⟩
    rcases List.mem_append.mp ht with hbefore | hlast
    · exact absurd (List.mem_map.mpr ⟨t, hbefore, hid⟩) (hunsent hstrict)
    · obtain rfl := List.mem_singleton.mp hlast
      rfl

end

/-! ## What the steps do to the labels -/

section

variable {c : Client} {input : RoundInput}

theorem labels_outboxSetPending (outbox : Outbox) (msgId : UInt16) (pending : PendingState) :
    (outboxSetPending outbox msgId pending).labels = outbox.labels :=
  map_outboxUpdate msgId (fun item => { item with pending := pending }) OutboxItem.label
    (fun _ => rfl) outbox

theorem labels_outboxSetTick (outbox : Outbox) (msgId : UInt16) (tick : Nat) :
    (outboxSetTick outbox msgId tick).labels = outbox.labels :=
  map_outboxUpdate msgId (fun item => { item with tick := tick }) OutboxItem.label
    (fun _ => rfl) outbox

theorem labels_modify (outbox : Outbox) (handle : Nat) :
    Outbox.labels (outbox.modify handle fun item =>
      { item with buffer := mqttSetDup item.buffer }) = outbox.labels := by
  unfold Outbox.labels
  induction outbox generalizing handle with
  | nil => cases handle <;> rfl
  | cons item rest ih =>
    cases handle with
    | zero => simp [OutboxItem.label, said_mqttSetDup]
    | succ k => simpa using ih k

theorem labels_mqttResendQueued (item : OutboxItem) (handle : Nat) :
    (mqttResendQueued c item handle input).2.outbox.labels = c.outbox.labels := by
  unfold mqttResendQueued
  simp only
  split
  · split <;> exact labels_modify c.outbox handle
  · split <;> rfl

/-- Nothing that is stored with QoS 1 is deleted when it is sent. -/
theorem labels_resendFirstQueued {item : OutboxItem} (hqos : item.msgQos = 1) (handle : Nat) :
    (resendFirstQueued c item handle input).outbox.labels = c.outbox.labels := by
  have hresend : (mqttResendQueued c item handle input).2.outbox.labels = c.outbox.labels :=
    labels_mqttResendQueued item handle
  have hpending : (mqttResendQueued c item handle input).2.pendingPublishQos = 1 := by
    unfold mqttResendQueued
    simp only
    split <;> split <;> exact hqos
  unfold resendFirstQueued
  generalize mqttResendQueued c item handle input = result at hresend hpending
  obtain ⟨ok, d⟩ := result
  simp only at hresend hpending ⊢
  split
  · have hkeep : ¬ (d.pendingMsgType = MsgType.publish.code ∧ d.pendingPublishQos = 0) := by
      rw [hpending]
      exact fun h => absurd h.2 (by decide)
    simp only [if_neg hkeep]
    rw [if_pos (hpending ▸ Nat.one_pos)]
    exact (labels_outboxSetPending ..).trans hresend
  · exact hresend

theorem labels_resend (hitems : c.outbox.PublishOnly) :
    (resend c input).outbox.labels = c.outbox.labels := by
  unfold resend
  split
  · rename_i item handle hitem
    exact labels_resendFirstQueued (hitems.item (mem_of_outboxDequeue hitem).1).2 handle
  · split
    · rw [(retransmitPubrel_eq ..).1]
      unfold retransmitFirst
      split
      · split
        · exact labels_mqttResendQueued ..
        · rfl
      · rfl
    · rfl

variable (input)

/-- Receiving deletes at most the items with the id of an answer. -/
theorem labels_mqttProcessReceive (hitems : c.outbox.PublishOnly) :
    (mqttProcessReceive c input).2.outbox.PublishOnly ∧
      ((mqttProcessReceive c input).2.outbox.labels).Sublist c.outbox.labels ∧
      ∀ x ∈ c.outbox.labels, x ∉ (mqttProcessReceive c input).2.outbox.labels →
        input.received = .puback x.1 ∨ input.received = .pubcomp x.1 := by
  have hsame : ∀ d : Client, d.outbox = c.outbox → d.outbox.PublishOnly ∧
      (d.outbox.labels).Sublist c.outbox.labels ∧
      ∀ x ∈ c.outbox.labels, x ∉ d.outbox.labels →
        input.received = .puback x.1 ∨ input.received = .pubcomp x.1 := by
    intro d hd
    rw [hd]
    exact ⟨hitems, .refl _, fun x hx hgone => absurd hx hgone⟩
  have hreply : ∀ build msgId checked, (c.reply build msgId checked input).2.outbox = c.outbox :=
    fun build msgId checked => (reply_outbox ..).1
  have hremove : ∀ (d : Client) msgId, d.outbox = c.outbox →
      (removeInitiatorMessage d .publish msgId).2.outbox.PublishOnly ∧
      ((removeInitiatorMessage d .publish msgId).2.outbox.labels).Sublist c.outbox.labels ∧
      ∀ x ∈ c.outbox.labels,
        x ∉ (removeInitiatorMessage d .publish msgId).2.outbox.labels → x.1 = msgId := by
    intro d msgId hd
    refine ⟨removeInitiatorMessage_items (hd ▸ hitems) _ _, ?_, ?_⟩
    · rw [← hd]
      exact List.eraseP_sublist.map _
    · intro x hx hgone
      obtain ⟨item, hitem, rfl⟩ := List.mem_map.mp hx
      by_contra hne
      refine hgone (List.mem_map_of_mem ?_)
      rw [← hd] at hitem
      refine (List.mem_eraseP_of_neg ?_).mpr hitem
      simp only [decide_eq_true_eq]
      exact fun h => hne h.1
  unfold mqttProcessReceive
  generalize input.received = received at hsame ⊢
  cases received with
  | nothing | other | failure | pingresp => exact hsame _ rfl
  | suback msgId delivered =>
    simp only [removeInitiatorMessage_of_ne hitems (by decide : MsgType.subscribe ≠ .publish)]
    exact hsame _ rfl
  | unsuback msgId =>
    simp only [removeInitiatorMessage_of_ne hitems (by decide : MsgType.unsubscribe ≠ .publish)]
    exact hsame _ rfl
  | publish msgId qos delivered =>
    simp only
    split
    · split
      · exact hsame _ (hreply ..)
      · split
        · exact hsame _ (hreply ..)
        · exact hsame _ rfl
    · exact hsame _ rfl
  | puback msgId =>
    obtain ⟨honly, hsub, hgone⟩ := hremove (c.noteAnswer msgId) msgId rfl
    exact ⟨honly, hsub, fun x hx hnot => .inl (congrArg Received.puback (hgone x hx hnot).symm)⟩
  | pubrec msgId =>
    simp only
    split
    · have hlabels := labels_outboxSetPending
        (c.reply mqttMsgPubrel msgId false input).2.outbox msgId .acknowledged
      obtain ⟨honly, hsub, hgone⟩ := hsame _ (hreply mqttMsgPubrel msgId false)
      refine ⟨honly.setPending _ _, ?_, ?_⟩
      · simp only [hlabels]
        exact hsub
      · simp only [hlabels]
        exact hgone
    · exact hsame _ (hreply ..)
  | pubrel msgId => exact hsame _ (hreply ..)
  | pubcomp msgId =>
    obtain ⟨honly, hsub, hgone⟩ := hremove (c.noteCompletion msgId) msgId rfl
    exact ⟨honly, hsub, fun x hx hnot => .inr (congrArg Received.pubcomp (hgone x hx hnot).symm)⟩

/-- A connected round deletes at most the items with the id of an answer. -/
theorem labels_connectedRound (hitems : c.outbox.PublishOnly) :
    ((connectedRound c input).outbox.labels).Sublist c.outbox.labels ∧
      ∀ x ∈ c.outbox.labels, x ∉ (connectedRound c input).outbox.labels →
        input.received = .puback x.1 ∨ input.received = .pubcomp x.1 := by
  obtain ⟨honly, hsub, hgone⟩ := labels_mqttProcessReceive (c := c.advance input.receiveTime) input
    hitems
  have hlabels : (connectedRound c input).outbox.labels =
      (mqttProcessReceive (c.advance input.receiveTime) input).2.outbox.labels := by
    have hbegin : ∀ d : Client, d.beginResend.outbox = d.outbox := by
      intro d
      unfold Client.beginResend
      split <;> rfl
    unfold connectedRound
    simp only
    split
    · change (processKeepalive (resend (mqttProcessReceive _ input).2.beginResend input)
        input).outbox.labels = _
      rw [(processKeepalive_eq ..).1, labels_resend (by rw [hbegin]; exact honly), hbegin]
    · rfl
  rw [hlabels]
  exact ⟨hsub, hgone⟩

/-- What a round does to the items that are not over their age. -/
theorem labels_espMqttTaskRound (hitems : c.outbox.PublishOnly) :
    ((espMqttTaskRound c input).1.outbox.labels).Sublist
        (mqttDeleteExpiredMessages c).outbox.labels ∧
      ∀ x ∈ (mqttDeleteExpiredMessages c).outbox.labels,
        x ∉ (espMqttTaskRound c input).1.outbox.labels → c.state = .connected ∧
          (input.received = .puback x.1 ∨ input.received = .pubcomp x.1) := by
  have hkept : (mqttDeleteExpiredMessages c).outbox.PublishOnly :=
    hitems.sublist List.filter_sublist
  have hsame : ∀ d : Client, d.outbox = (mqttDeleteExpiredMessages c).outbox →
      (d.outbox.labels).Sublist (mqttDeleteExpiredMessages c).outbox.labels ∧
      ∀ x ∈ (mqttDeleteExpiredMessages c).outbox.labels, x ∉ d.outbox.labels →
        c.state = .connected ∧
          (input.received = .puback x.1 ∨ input.received = .pubcomp x.1) := by
    intro d hd
    rw [hd]
    exact ⟨.refl _, fun x hx hgone => absurd hx hgone⟩
  have hstate : (mqttDeleteExpiredMessages c).state = c.state := rfl
  unfold espMqttTaskRound
  simp only [hstate]
  split
  · exact hsame _ rfl
  · refine hsame _ ?_
    unfold initRound
    simp only
    split
    · split
      · split <;> exact (espMqttConnect_eq ..).1
      · rfl
    · rfl
  · rename_i hconnected
    obtain ⟨hsub, hgone⟩ := labels_connectedRound input hkept
    exact ⟨hsub, fun x hx hnot => ⟨hconnected, hgone x hx hnot⟩⟩
  · split <;> exact hsame _ rfl

/-- What a publish stores, by its labels and its bytes. -/
theorem Published.labels {c c' : Client} {fits : Prop} {record : Nat} {input : PublishInput}
    {result : Option UInt16} (h : Published c fits record input c' result) :
    c'.outbox = c.outbox ∨ ∃ buffer,
      c'.outbox.labels = c.outbox.labels ++ [(input.random, said buffer)] ∧
      c'.outbox.map OutboxItem.buffer = c.outbox.map OutboxItem.buffer ++ [buffer] := by
  have hstore : ∀ connection buffer,
      (c.storePublish connection buffer record input).outbox.labels =
        c.outbox.labels ++ [(input.random, said buffer)] ∧
      (c.storePublish connection buffer record input).outbox.map OutboxItem.buffer =
        c.outbox.map OutboxItem.buffer ++ [buffer] :=
    fun _ _ => ⟨List.map_append, List.map_append⟩
  cases h with
  | rejected => exact .inl rfl
  | offline hstored hstate connection buffer => exact .inr ⟨buffer, hstore connection buffer⟩
  | cutOff hstored hstate connection buffer whole =>
    exact .inr ⟨buffer, hstore connection buffer⟩
  | sent hstored hstate connection buffer =>
    refine .inr ⟨buffer, ?_, ?_⟩
    · exact ((labels_outboxSetPending ..).trans (labels_outboxSetTick ..)).trans
        (hstore connection buffer).1
    · exact (map_buffer_mark ..).trans (hstore connection buffer).2

/-- Over a connection a call sends what it stores, and nothing else. -/
theorem publication_transfer {c : Client} {call : Call} {input : PublishInput} {p : Publication}
    (h : publication c call input = some p) (hstate : c.state = .connected) :
    p.transfer.isSome = p.stored.isSome := by
  unfold publication at h
  simp only at h
  cases henqueue : mqttClientEnqueuePublish c call.args.cTopic call.args.data
      (payloadLength call.args.data call.args.payload.length) 1 0 false call.record input.random
      input.alloc with
  | none => simp [henqueue] at h
  | some stored =>
    obtain ⟨d, made⟩ := stored
    cases made with
    | none =>
      simp only [henqueue] at h
      cases h
      rfl
    | some messageId =>
      rcases enqueuePublish_cases henqueue with ⟨hnone, _⟩ |
        ⟨_, _, _, connection, buffer, _, rfl⟩
      · cases hnone
      · simp only [henqueue, getLast?_store] at h
        change (if c.state ≠ .connected then _ else _) = _ at h
        rw [if_neg (not_not.mpr hstate)] at h
        obtain ⟨transfer, _, rfl⟩ := Option.map_eq_some_iff.mp h
        rfl

end

/-! ## Runs -/

section Runs

variable {Q : List UInt8 → List UInt8 → Prop} {information : ConnectInfo} {strict : Prop}
  {l l' : Line}

/-- A publication draws an id that no stored item has. -/
def Unused (l : Line) : Action → Prop
  | .publish input => ∀ item ∈ l.node.client.outbox, item.msgId ≠ input.random
  | _ => True

instance (l : Line) : (a : Action) → Decidable (Unused l a)
  | .publish _ => inferInstanceAs (Decidable (∀ item ∈ l.node.client.outbox, _ ≠ _))
  | .call _ | .begin | .round _ | .poll _ | .abort | .exit | .advance _ =>
    inferInstanceAs (Decidable True)

/-- A publication draws an id that was not published on the present connection. -/
def Unsent (l : Line) : Action → Prop
  | .publish input => input.random ∉ (publications l.bytes).map Prod.fst
  | _ => True

instance (l : Line) : (a : Action) → Decidable (Unsent l a)
  | .publish _ => inferInstanceAs (Decidable (_ ∉ _))
  | .call _ | .begin | .round _ | .poll _ | .abort | .exit | .advance _ =>
    inferInstanceAs (Decidable True)

/-- What holds of the stored items and the line. -/
structure Matched (Q : List UInt8 → List UInt8 → Prop) (information : ConnectInfo)
    (strict : Prop) (l : Line) : Prop where
  line : LineInv Q information l
  inv : Inv l.node
  named : Named l.node.client.outbox.labels
  covers : l.node.client.state = .connected →
    Covers strict l.node.client.outbox.labels (publications l.bytes)

/-- Every stored packet says what its label says. -/
theorem Fit.labels {c : Client} {Q : UInt16 → List UInt8 → List UInt8 → Prop} (h : Fit Q c) :
    Fit (fun id topic payload => ∃ x ∈ c.outbox.labels, x.2 = some (id, topic, payload)) c := by
  refine ⟨h.total, fun buffer hbuffer => ?_⟩
  obtain ⟨item, hitem, rfl⟩ := List.mem_map.mp hbuffer
  obtain ⟨p, _, hp⟩ := h.items item.buffer hbuffer
  exact ⟨p, ⟨item.label, List.mem_map_of_mem hitem, by rw [OutboxItem.label, hp, said_encode]⟩, hp⟩

/-- A step that writes nothing and stores nothing. -/
theorem Matched.quiet (h : Matched Q information strict l) (hline : LineInv Q information l')
    (hinv : Inv l'.node)
    (hsub : (l'.node.client.outbox.labels).Sublist l.node.client.outbox.labels)
    (hstate : l'.node.client.state = .connected →
      l.node.client.state = .connected ∧ l'.bytes = l.bytes) : Matched Q information strict l' := by
  refine ⟨hline, hinv, h.named.sublist hsub, fun hconnected => ?_⟩
  obtain ⟨hbefore, hbytes⟩ := hstate hconnected
  rw [hbytes]
  exact (h.covers hbefore).sublist hsub

/-- Behind the CONNECT nothing is published yet. -/
theorem publications_connectAttempts {c : Client} {input : RoundInput} (htotal : c.total = 0)
    (hwritten : connectAttempts c input ≠ [] ∧ ∀ a ∈ connectAttempts c input, a.ok = true) :
    publications (onLine (connectAttempts c input)) = [] := by
  obtain ⟨ps, hps, _, hwhole⟩ := begun_connectAttempts (Q := fun _ _ => False) input htotal
  rw [(hwhole hwritten).2, publications_encodeAll, List.filterMap_eq_nil_iff]
  intro p hp
  cases ps with
  | nil => exact absurd hp List.not_mem_nil
  | cons first requests =>
    rcases List.mem_cons.mp hp with rfl | hp
    · exact hps.1.said
    · by_contra hsome
      obtain ⟨s, hs⟩ := Option.ne_none_iff_exists'.mp hsome
      exact (hps.2 p hp).allowed hs

/-- A round covers what it leaves. -/
theorem Matched.round (h : Matched Q information strict l) {input : RoundInput}
    (horderly : Orderly Q l (.round input))
    (hconnected : (espMqttTaskRound l.node.client input).1.state = .connected) :
    Covers strict (espMqttTaskRound l.node.client input).1.outbox.labels
      (publications (if l.opens (.round input) then onLine (roundAttempts l.node.client input)
        else l.bytes ++ onLine (roundAttempts l.node.client input))) := by
  have hfit := h.line.fit.deleteExpired
  have hkeep : (mqttDeleteExpiredMessages l.node.client).state = l.node.client.state := rfl
  have hlabels := (labels_espMqttTaskRound input h.inv.items).1
  have hexpired : ((mqttDeleteExpiredMessages l.node.client).outbox.labels).Sublist
      l.node.client.outbox.labels := List.filter_sublist.map _
  refine Covers.sublist ?_ hlabels
  unfold Orderly roundAttempts at horderly
  unfold espMqttTaskRound at hconnected
  unfold roundAttempts
  simp only [hkeep] at horderly hconnected ⊢
  cases hstate : l.node.client.state with
  | init =>
    simp only [hstate] at horderly hconnected ⊢
    obtain ⟨hcreated, htransport, _⟩ := initRound_connected (hkeep.trans hstate) hconnected
    rw [if_pos ⟨hstate, hcreated, htransport⟩]
    have hround := initRound_allWritten input (hkeep.trans hstate) hconnected
    rw [publications_connectAttempts (hfit.advance input.connectTime).total hround]
    exact fun x _ s hs => absurd hs List.not_mem_nil
  | connected =>
    simp only [hstate] at horderly hconnected ⊢
    have hopens : ¬ l.opens (.round input) := fun hopens =>
      absurd (hstate.symm.trans hopens.1) (by decide)
    rw [if_neg hopens]
    obtain ⟨ps, hps, hpre, hintact⟩ := whole_onLine hfit.labels.connectedAttempts horderly
    have hall : ∀ a ∈ connectedAttempts (mqttDeleteExpiredMessages l.node.client) input,
        a.ok = true := by
      intro a ha
      cases hchecked : a.checked with
      | true => exact connectedRound_allWritten hconnected a ha hchecked
      | false => exact horderly a ha hchecked
    obtain ⟨qs, _, _, hbytes⟩ := h.line.begun
    obtain ⟨more, hmore, hagain⟩ := publications_append (hbytes hstate).2
      ⟨ps, hps, hpre, fun _ => hintact hall⟩
    rw [hmore]
    exact ((h.covers hstate).sublist hexpired).append (h.named.sublist hexpired) hagain
  | disconnected =>
    simp only [hstate] at hconnected
    cases hkeep.symm.trans hconnected |>.symm.trans hstate
  | waitReconnect =>
    simp only [hstate] at hconnected
    split at hconnected
    · cases hconnected
    · cases hkeep.symm.trans hconnected |>.symm.trans hstate

/-- An allowed call stores nothing and sends nothing, or it stores what is labelled as its packet
and has sent all of it when the client is still connected. -/
theorem LineInv.publish_labels (h : LineInv Q information l) {call : Call} {input : PublishInput}
    {client : Client} {result : Option UInt16} (hid : input.random ≠ 0)
    (hcall : l.node.calling = some call)
    (hpublish : espMqttClientPublish l.node.client call.args.cTopic call.args.data
      call.args.payload.length 1 0 call.record input = some (client, result))
    (horderly : Orderly Q l (.publish input)) :
    (client.outbox = l.node.client.outbox ∧
      (client.state = .connected → emitted l.node (.publish input) = [])) ∨
    ∃ topic payload,
      client.outbox.labels =
        l.node.client.outbox.labels ++ [(input.random, some (input.random, topic, payload))] ∧
      (client.state = .connected →
        publications (l.bytes ++ emitted l.node (.publish input)) =
          publications l.bytes ++ [(input.random, topic, payload)]) := by
  have hargs := h.calling call hcall
  obtain ⟨p, hp, hbuffers, _⟩ := publication_of_publish hpublish
  obtain ⟨_, q, hq, htransfer⟩ := h.fit.publish hpublish hargs hid (horderly call hcall)
  obtain rfl : p = q := Option.some.inj (hp.symm.trans hq)
  have hemitted : emitted l.node (.publish input) = p.transfer.elim [] Transfer.written := by
    unfold emitted
    simp only [hcall, Option.bind_some, hp]
    obtain ⟨stored, transfer⟩ := p
    cases transfer <;> rfl
  rcases (published hpublish).labels with houtbox | ⟨buffer, hlabels, hstored⟩
  · -- Nothing was stored, so nothing was sent.
    have hnone : p.stored = none := by
      rw [houtbox] at hbuffers
      have hlength := congrArg List.length hbuffers
      cases hsome : p.stored with
      | none => rfl
      | some item =>
        rw [hsome] at hlength
        simp at hlength
    refine .inl ⟨houtbox, fun hconnected => ?_⟩
    have hsome := publication_transfer hp ((published hpublish).connected hconnected)
    have hempty : p.transfer = none := by
      rw [hnone] at hsome
      exact Option.isNone_iff_eq_none.mp (by simpa using hsome)
    rw [hemitted, hempty]
    rfl
  · obtain ⟨item, hitem⟩ : ∃ item, p.stored = some item := by
      rw [hstored] at hbuffers
      have hmore := List.append_cancel_left hbuffers
      cases hsome : p.stored with
      | none =>
        rw [hsome] at hmore
        cases hmore
      | some item => exact ⟨item, rfl⟩
    obtain ⟨hfits, hpublished, hwritten⟩ := publication_spec hp hitem
    rw [PublishArgs.len, hargs.length_eq] at hfits hpublished hwritten
    obtain ⟨packet, hrandom, _, hpacket⟩ :=
      hargs.storedPacket_eq l.node.client.connection hfits.1.1 hid
    have hbuffer : buffer = item.buffer := by
      rw [hstored, hitem] at hbuffers
      exact List.singleton_injective (List.append_cancel_left hbuffers)
    have hencode : item.buffer = PublishPacket.encode packet := by
      rw [hpublished, ← hpacket]
      rfl
    refine .inr ⟨packet.topic, packet.payload, ?_, fun hconnected => ?_⟩
    · rw [hlabels, hbuffer, hencode, said_encode, hrandom]
    · have hstate := (published hpublish).connected hconnected
      obtain ⟨transfer, hsent⟩ : ∃ transfer, p.transfer = some transfer := by
        have hsome := publication_transfer hp hstate
        rw [hitem] at hsome
        exact Option.isSome_iff_exists.mp hsome
      have hok := (htransfer transfer hsent).2.1 hconnected
      have hall := (hwritten transfer hsent hok).mpr (horderly call hcall)
      obtain ⟨ps, _, _, hbytes⟩ := h.begun
      have hline : emitted l.node (.publish input) = PublishPacket.encode packet := by
        rw [hemitted, hsent, ← hencode, ← hall]
        rfl
      rw [hline, (hbytes hstate).2, ← encode_packetOf, publications_snoc, encode_packetOf,
        said_encode, hrandom]
      rfl

/-- What an allowed call stores has its own id, and is covered when the client is still
connected. -/
theorem Matched.publish (h : Matched Q information strict l) {call : Call} {input : PublishInput}
    {client : Client} {result : Option UInt16} (hid : input.random ≠ 0)
    (hcall : l.node.calling = some call)
    (hpublish : espMqttClientPublish l.node.client call.args.cTopic call.args.data
      call.args.payload.length 1 0 call.record input = some (client, result))
    (horderly : Orderly Q l (.publish input)) (hunused : Unused l (.publish input))
    (hunsent : strict → Unsent l (.publish input)) :
    Named client.outbox.labels ∧ (client.state = .connected →
      Covers strict client.outbox.labels
        (publications (l.bytes ++ emitted l.node (.publish input)))) := by
  have hstate := fun hconnected => (published hpublish).connected hconnected
  rcases h.line.publish_labels hid hcall hpublish horderly with
    ⟨houtbox, hnothing⟩ | ⟨topic, payload, hlabels, hsaid⟩
  · rw [houtbox]
    refine ⟨h.named, fun hconnected => ?_⟩
    rw [hnothing hconnected, List.append_nil]
    exact h.covers (hstate hconnected)
  · have hfresh : ∀ x ∈ l.node.client.outbox.labels, x.1 ≠ input.random := by
      intro x hx
      obtain ⟨old, hold, rfl⟩ := List.mem_map.mp hx
      exact hunused old hold
    rw [hlabels]
    refine ⟨h.named.store (s := (input.random, topic, payload)) hfresh, fun hconnected => ?_⟩
    rw [hsaid hconnected]
    exact (h.covers (hstate hconnected)).store (s := (input.random, topic, payload)) hfresh
      hunsent

theorem Matched.step {a : Action} (h : Matched Q information strict l) (horderly : Orderly Q l a)
    (hunused : Unused l a) (hunsent : strict → Unsent l a) (hstep : lineStep l a = some l') :
    Matched Q information strict l' := by
  have hline := h.line.step horderly hstep
  obtain ⟨node, hnode, rfl⟩ := Option.map_eq_some_iff.mp hstep
  have hinv := h.inv.step hnode
  have hquiet := fun hsub hstate => h.quiet hline hinv hsub hstate
  cases step_spec hnode with
  | called | refused => exact hquiet (.refl _) fun hconnected => ⟨hconnected, List.append_nil _⟩
  | publish input call client result hid hcall hpublish =>
    have hne : input.random ≠ 0 := fun hzero => by
      rw [hzero] at hid
      exact absurd hid.1 (by decide)
    obtain ⟨hnamed, hcovers⟩ := h.publish hne hcall hpublish horderly hunused hunsent
    exact ⟨hline, hinv, hnamed, hcovers⟩
  | begin => exact hquiet (.refl _) fun hfalse => by cases hfalse
  | round input htask hrun hid =>
    have hsub := (labels_espMqttTaskRound input h.inv.items).1
    exact ⟨hline, hinv, h.named.sublist (hsub.trans (List.filter_sublist.map _)),
      h.round horderly⟩
  | poll => exact hquiet (.refl _) fun hconnected => ⟨hconnected, List.append_nil _⟩
  | abort => exact hquiet (.refl _) fun hfalse => by cases hfalse
  | exit => exact hquiet (List.nil_sublist _) fun hfalse => by cases hfalse
  | advance => exact hquiet (.refl _) fun hconnected => ⟨hconnected, List.append_nil _⟩

theorem matched_init (Q : List UInt8 → List UInt8 → Prop) (information : ConnectInfo)
    (strict : Prop) (now : Nat) : Matched Q information strict (line information now).init :=
  ⟨lineInv_init Q information now, inv_init information now, ⟨List.nodup_nil, by
    intro x hx
    cases hx⟩, fun hfalse => by cases hfalse⟩

theorem Matched.imp {Q' : List UInt8 → List UInt8 → Prop}
    (himp : ∀ topic payload, Q topic payload → Q' topic payload)
    (h : Matched Q information strict l) : Matched Q' information strict l :=
  ⟨h.line.imp himp, h.inv, h.named, h.covers⟩

/-- A round drops an item for its age or because of an answer to its id. -/
theorem Inv.dropped {l l' : Line} (h : Inv l.node) {input : RoundInput}
    (hstep : lineStep l (.round input) = some l') {item : OutboxItem}
    (hitem : item ∈ l.node.client.outbox)
    (hgone : item.msgId ∉ l'.node.client.outbox.map OutboxItem.msgId) :
    outboxExpiredTimeoutMs < l.node.client.now - item.tick ∨
      l.node.client.state = .connected ∧
        (input.received = .puback item.msgId ∨ input.received = .pubcomp item.msgId) := by
  obtain ⟨node, hnode, rfl⟩ := Option.map_eq_some_iff.mp hstep
  cases step_spec hnode with
  | round input htask hrun hid =>
    rw [or_iff_not_imp_left]
    intro hyoung
    have hkept : item.label ∈ (mqttDeleteExpiredMessages l.node.client).outbox.labels :=
      List.mem_map_of_mem (List.mem_filter.mpr ⟨hitem, by simpa using hyoung⟩)
    have hnot : item.label ∉ (espMqttTaskRound l.node.client input).1.outbox.labels := by
      intro hmem
      obtain ⟨other, hother, heq⟩ := List.mem_map.mp hmem
      exact hgone (List.mem_map.mpr ⟨other, hother, congrArg Prod.fst heq⟩)
    exact (labels_espMqttTaskRound _ h.items).2 _ hkept hnot

/-- The broker answers publications that were written on the connection. -/
def Answers (l : Line) (input : RoundInput) : Prop :=
  ∀ id, input.received = .puback id ∨ input.received = .pubcomp id →
    id ∈ (publications l.bytes).map Prod.fst

end Runs

end IndustrialIot.Edge.Mqtt
