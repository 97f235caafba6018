import IndustrialIot.Edge.Mqtt.Outbound

/-!
# The outbound line

What the transport takes of a connection's packets: the CONNECT first, then direct transmissions,
resent packets, replies and pings, as the two tasks happen to write them. A failed write leaves a
part of a packet on the line and ends the connection.
-/

namespace IndustrialIot.Edge.Mqtt

open ControlPacket (Packet encodeAll)

/-! ## The line of a connection -/

/-- A node and the bytes that its transport took since it last connected. -/
structure Line where
  node : Node
  bytes : List UInt8
  deriving DecidableEq, Repr

/-- Whether a step connects the transport. -/
def Line.opens (l : Line) : Action → Prop
  | .round input => l.node.client.state = .init ∧ input.transportCreated = true ∧
    input.transportConnected = true
  | _ => False

instance (l : Line) : (a : Action) → Decidable (l.opens a)
  | .round _ => inferInstanceAs (Decidable (_ ∧ _ ∧ _))
  | .call _ | .publish _ | .begin | .poll _ | .abort | .exit | .advance _ =>
    inferInstanceAs (Decidable False)

/-- The bytes that the transport takes in a step. -/
def emitted (n : Node) : Action → List UInt8
  | .publish input => match n.calling.bind fun call => publication n.client call input with
    | some ⟨_, some transfer⟩ => transfer.written
    | _ => []
  | .round input => onLine (roundAttempts n.client input)
  | .call _ | .begin | .poll _ | .abort | .exit | .advance _ => []

/-- A step of the node, and what it puts on the line. -/
def lineStep (l : Line) (a : Action) : Option Line :=
  (step l.node a).map fun node =>
    ⟨node, if l.opens a then emitted l.node a else l.bytes ++ emitted l.node a⟩

/-- All runs of a node with its line. -/
def line (information : ConnectInfo) (now : Nat) : Machine Line Action where
  init := ⟨(node information now).init, []⟩
  step := lineStep

/-! ## Publishing -/

section Publishing

variable {Q : List UInt8 → List UInt8 → Prop}

/-- The arguments of a call that has something to send, which is allowed and fits the buffer. -/
structure Admissible (Q : List UInt8 → List UInt8 → Prop) (args : PublishArgs) : Prop where
  allowed : Q args.cTopic args.payload
  ne_nil : args.payload ≠ []
  room : args.cTopic.length + 9 + args.payload.length ≤ bufferLength

section

variable {args : PublishArgs}

theorem Admissible.data_eq (h : Admissible Q args) :
    args.data = some ⟨args.payload ++ args.beyond, args.before⟩ :=
  if_neg fun hnil => h.ne_nil hnil.1

theorem Admissible.length_eq (h : Admissible Q args) :
    payloadLength args.data args.payload.length = args.payload.length := by
  simp [payloadLength, h.data_eq, h.ne_nil]

instance [∀ topic payload, Decidable (Q topic payload)] : Decidable (Admissible Q args) :=
  decidable_of_iff (Q args.cTopic args.payload ∧ args.payload ≠ [] ∧
      args.cTopic.length + 9 + args.payload.length ≤ bufferLength)
    ⟨fun h => ⟨h.1, h.2.1, h.2.2⟩, fun h => ⟨h.allowed, h.ne_nil, h.room⟩⟩

/-- What is stored for such a call is the packet of its topic and payload under the drawn id. -/
theorem Admissible.storedPacket_eq (h : Admissible Q args) (connection : Connection)
    (htopic : args.cTopic ≠ []) {random : UInt16} (hid : random ≠ 0) :
    ∃ p : PublishPacket.Packet, p.id = random ∧ Q p.topic p.payload ∧
      storedPacket connection args.cTopic random args.data args.payload.length =
        PublishPacket.encode p := by
  have hroom := h.room
  unfold bufferLength at hroom
  refine ⟨⟨false, false, args.cTopic, random, args.payload, htopic, by omega, hid, by omega⟩,
    rfl, h.allowed, ?_⟩
  have hbytes := Memory.slice_prefix args.payload args.beyond args.before
  rw [storedPacket, packetHead, h.data_eq, payloadBytes, hbytes, List.append_assoc]
  rfl

end

/-- A publish that fits the buffer leaves no total. -/
theorem total_mqttMsgPublish {connection : Connection} {topic : List UInt8} (memory : Memory)
    {len : Nat} (random : UInt16) (hroom : topic.length + 9 + len ≤ bufferLength)
    (htotal : connection.outboundMessage.fragmentedMsgTotalLength = 0) :
    (mqttMsgPublish connection topic (some memory) len 1 0
      random).1.outboundMessage.fragmentedMsgTotalLength = 0 := by
  unfold mqttMsgPublish
  split
  · exact htotal
  · rename_i header messageId hheader
    obtain ⟨_, hlength, _⟩ := publishHeader_eq_some hheader
    have hfits : ¬ bufferLength < maxFixedHeaderSize + header.length + len := by
      unfold maxFixedHeaderSize
      omega
    simp only [total_finiMessage, publishBody]
    rw [if_neg hfits]

theorem total_enqueuePublish {c c' : Client} {topic : List UInt8} {memory : Memory}
    {len record : Nat} {random : UInt16} {alloc : Bool} {made : Option UInt16}
    (h : mqttClientEnqueuePublish c topic (some memory) len 1 0 false record random alloc =
      some (c', made))
    (hroom : topic.length + 9 + len ≤ bufferLength) (htotal : c.total = 0) : c'.total = 0 := by
  have hmade := total_mqttMsgPublish memory random hroom htotal
  unfold mqttClientEnqueuePublish makePublish at h
  generalize mqttMsgPublish c.connection topic (some memory) len 1 0 random = d at h hmade
  obtain ⟨connection, messageId⟩ := d
  simp only [Nat.one_pos, true_or, if_true] at h
  by_cases hnil : connection.outboundMessage.data = []
  · simp only [hnil, if_true] at h
    cases h
    exact hmade
  · simp only [hnil, if_false] at h
    rw [if_pos hmade] at h
    cases alloc with
    | false =>
      cases h
      exact hmade
    | true =>
      cases h
      exact hmade

/-- A message that covers all the data is written at once. -/
theorem sending_covered {data : Option Memory} {scripts : List (List Int)}
    {connection : Connection} {remainingLen currentData : Int} {transfer : Transfer}
    (h : sending data scripts connection remainingLen currentData = some transfer)
    (hcovered : remainingLen ≤ dataInMessage connection.outboundMessage) :
    transfer.written <+: connection.outboundMessage.data ∧
      (transfer.ok = true → transfer.written = connection.outboundMessage.data) ∧
      (connection.outboundMessage.fragmentedMsgTotalLength = 0 →
        transfer.connection.outboundMessage.fragmentedMsgTotalLength = 0) := by
  cases scripts with
  | nil =>
    cases h
    exact ⟨List.nil_prefix, fun hok => absurd hok (by simp), id⟩
  | cons results scripts =>
    rw [sending] at h
    simp only at h
    split at h
    · rename_i hwrite
      rw [if_neg (by omega)] at h
      cases h
      simp only [espMqttWrite_of_ok hwrite, List.take_length]
      exact ⟨List.prefix_rfl, fun _ => trivial, fun _ => trivial⟩
    · cases h
      exact ⟨List.take_prefix _ _, fun hok => absurd hok (by simp), id⟩

/-- The direct transmission of an allowed call is that of its packet, and a call that does not
complete it ends the connection. -/
theorem Admissible.transfer {c c' : Client} {call : Call} {input : PublishInput}
    {result : Option UInt16} {p : Publication} (hargs : Admissible Q call.args)
    (h : espMqttClientPublish c call.args.cTopic call.args.data call.args.payload.length 1 0
      call.record input = some (c', result))
    (hp : publication c call input = some p) (htotal : c.total = 0) (hid : input.random ≠ 0)
    (hoffset : OffsetBeforeData c.connection call.args.cTopic call.args.data
      call.args.payload.length) :
    c'.total = 0 ∧ ∀ transfer ∈ p.transfer, c.state = .connected ∧
      (c'.state = .connected → transfer.ok = true) ∧
      ∃ packet, Request (fun _ => Q) packet ∧ transfer.written <+: packet.encode ∧
        (transfer.ok = true → transfer.written = packet.encode) := by
  unfold espMqttClientPublish at h
  unfold publication at hp
  simp only [hargs.length_eq] at h hp
  cases henqueue : mqttClientEnqueuePublish c call.args.cTopic call.args.data
      call.args.payload.length 1 0 false call.record input.random input.alloc with
  | none => simp [henqueue] at h
  | some stored =>
    obtain ⟨d, made⟩ := stored
    have hd : d.total = 0 := by
      rw [hargs.data_eq] at henqueue
      exact total_enqueuePublish henqueue hargs.room htotal
    cases made with
    | none =>
      simp only [henqueue] at h hp
      cases h
      cases hp
      exact ⟨hd, by simp⟩
    | some messageId =>
      obtain ⟨hfits, message, connection, hbuilt, hconnection, rfl⟩ :=
        enqueuePublish_built henqueue
      simp only [henqueue] at h hp
      split at h
      · rename_i hstate
        rw [if_pos hstate] at hp
        cases h
        cases hp
        exact ⟨rfl, by simp⟩
      · rename_i hstate
        rw [if_neg hstate] at hp
        obtain ⟨transfer, hsending, htransfer⟩ := Option.map_eq_some_iff.mp h
        rw [hsending] at hp
        cases hp
        obtain ⟨packet, _, hq, hpacket⟩ := hargs.storedPacket_eq c.connection
          hfits.1.1 hid
        have hmessage : connection.outboundMessage.data = PublishPacket.encode packet ∧
            (call.args.payload.length : Int) ≤ dataInMessage connection.outboundMessage := by
          rw [hargs.data_eq] at hbuilt hpacket
          have hroom := hargs.room
          have hcopy := fun hzero : message.fragmentedMsgTotalLength = 0 =>
            hbuilt.storedPacket_eq (.inl ⟨hzero, rfl⟩)
          cases hbuilt with
          | whole _ _ offset _ hsent =>
            refine ⟨?_, ?_⟩
            · rw [hconnection, ← hpacket, ← hcopy rfl, List.append_nil]
            · rw [hconnection, hsent]
              exact (le_sent_iff hargs.room _).mpr (hoffset (by simp [hargs.data_eq]) hargs.room)
          | cut _ _ total offset hcut _ _ => omega
        change sending _ _ connection _ _ = some transfer at hsending
        obtain ⟨hpre, hall, hcleared⟩ := sending_covered hsending hmessage.2
        rw [hmessage.1, ← encode_packetOf] at hpre hall
        have hsent : transfer.connection.outboundMessage.fragmentedMsgTotalLength = 0 :=
          hcleared (congrArg OutboundMessage.fragmentedMsgTotalLength hconnection)
        have hrequest : Request (fun _ => Q) (packetOf packet) :=
          .publish packet hq _ (encode_packetOf packet)
        refine ⟨?_, ?_⟩
        · simp only [Nat.one_pos, if_true] at htransfer
          split at htransfer
          · cases htransfer
            exact (congrArg (fun connection : Connection =>
              connection.outboundMessage.fragmentedMsgTotalLength)
              (noteSending_eq ..).1).trans hsent
          · cases htransfer
            rfl
        · intro sent hmem
          obtain rfl := Option.some.inj hmem
          refine ⟨not_not.mp hstate, ?_, packetOf packet, hrequest, hpre, hall⟩
          intro hconnected
          split at htransfer
          · assumption
          · cases htransfer
            cases hconnected

/-- What an allowed call leaves behind, and puts on the line. -/
theorem Fit.publish {c c' : Client} {call : Call} {input : PublishInput} {result : Option UInt16}
    (h : espMqttClientPublish c call.args.cTopic call.args.data call.args.payload.length 1 0
      call.record input = some (c', result))
    (hfit : Fit (fun _ => Q) c) (hargs : Admissible Q call.args) (hid : input.random ≠ 0)
    (hoffset : OffsetBeforeData c.connection call.args.cTopic call.args.data
      call.args.payload.length) :
    Fit (fun _ => Q) c' ∧ ∃ p, publication c call input = some p ∧ ∀ transfer ∈ p.transfer,
      c.state = .connected ∧ (c'.state = .connected → transfer.ok = true) ∧
      ∃ packet, Request (fun _ => Q) packet ∧ transfer.written <+: packet.encode ∧
        (transfer.ok = true → transfer.written = packet.encode) := by
  obtain ⟨p, hp, houtbox, _⟩ := publication_of_publish h
  obtain ⟨htotal, htransfer⟩ := hargs.transfer h hp hfit.total hid hoffset
  refine ⟨⟨htotal, ?_⟩, p, hp, htransfer⟩
  intro buffer hbuffer
  rw [houtbox] at hbuffer
  rcases List.mem_append.mp hbuffer with hold | hnew
  · exact hfit.items buffer hold
  · obtain ⟨item, hitem, rfl⟩ := List.mem_map.mp hnew
    obtain ⟨hfits, rfl, _⟩ := publication_spec hp (Option.mem_toList.mp hitem)
    rw [PublishArgs.len, hargs.length_eq] at hfits ⊢
    obtain ⟨packet, _, hstored⟩ := hargs.storedPacket_eq c.connection hfits.1.1 hid
    exact ⟨packet, hstored⟩

end Publishing

/-! ## Runs -/

section Runs

variable {Q : List UInt8 → List UInt8 → Prop} {information : ConnectInfo}

/-- The packets of a connection: a CONNECT, and requests behind it. -/
def Session (Q : List UInt8 → List UInt8 → Prop) (information : ConnectInfo) :
    List Packet → Prop
  | [] => True
  | first :: requests => Opening information first ∧ ∀ p ∈ requests, Request (fun _ => Q) p

/-- The beginning of a session, and all of it, with its CONNECT, where the line is intact. -/
def Begun (Q : List UInt8 → List UInt8 → Prop) (information : ConnectInfo) (bytes : List UInt8)
    (intact : Prop) : Prop :=
  ∃ ps, Session Q information ps ∧ bytes <+: encodeAll ps ∧
    (intact → ps ≠ [] ∧ bytes = encodeAll ps)

theorem Begun.mono {bytes : List UInt8} {intact intact' : Prop}
    (h : Begun Q information bytes intact) (himp : intact' → intact) :
    Begun Q information bytes intact' := by
  obtain ⟨ps, hps, hpre, hintact⟩ := h
  exact ⟨ps, hps, hpre, fun h' => hintact (himp h')⟩

/-- Requests continue the session of an intact line. -/
theorem Begun.append {bytes more : List UInt8} {intact whole : Prop}
    (h : Begun Q information bytes intact) (hintact : intact)
    (hmore : Whole (Request fun _ => Q) more whole) :
    Begun Q information (bytes ++ more) whole := by
  obtain ⟨ps, hps, _, hall⟩ := h
  obtain ⟨hne, rfl⟩ := hall hintact
  obtain ⟨qs, hqs, hpre, hwhole⟩ := hmore
  obtain ⟨first, requests, rfl⟩ := List.exists_cons_of_ne_nil hne
  refine ⟨first :: requests ++ qs, ⟨hps.1, ?_⟩, ?_, fun h' => ⟨by simp, ?_⟩⟩
  · intro p hp
    rcases List.mem_append.mp hp with hold | hnew
    · exact hps.2 p hold
    · exact hqs p hnew
  · rw [ControlPacket.encodeAll_append]
    exact (List.prefix_append_right_inj _).mpr hpre
  · rw [ControlPacket.encodeAll_append, hwhole h']

/-- The CONNECT begins the session of a new line. -/
theorem begun_connectAttempts {c : Client} (input : RoundInput) (htotal : c.total = 0) :
    Begun Q c.information (onLine (connectAttempts c input))
      (connectAttempts c input ≠ [] ∧ ∀ a ∈ connectAttempts c input, a.ok = true) := by
  have hpackets := connectAttempts_packet input htotal
  have hsingle : connectAttempts c input = [] ∨ ∃ a, connectAttempts c input = [a] := by
    unfold connectAttempts Client.attempt
    split
    · split
      · exact .inl rfl
      · exact .inr ⟨_, rfl⟩
    · exact .inl rfl
  rcases hsingle with hnil | ⟨a, ha⟩
  · rw [hnil]
    exact ⟨[], trivial, List.prefix_rfl, fun h => absurd rfl h.1⟩
  · obtain ⟨p, hp, hdata⟩ := hpackets a (by simp [ha])
    have hline : onLine [a] = a.taken := by
      rw [onLine, onLine]
      simp
    have hencode : encodeAll [p] = p.encode := by simp
    rw [ha, hline]
    refine ⟨[p], ⟨hp, by simp⟩, ?_, fun h => ⟨by simp, ?_⟩⟩
    · rw [hencode, ← hdata]
      exact a.taken_prefix
    · rw [hencode, ← hdata]
      exact Attempt.taken_of_ok (h.2 a List.mem_cons_self)

/-- A step under which packets stay whole: what is to be published is allowed and fits the
buffer, the offset that earlier messages left lies in front of the data, and the replies whose
result nobody looks at are written. -/
def Orderly (Q : List UInt8 → List UInt8 → Prop) (l : Line) : Action → Prop
  | .call args => Admissible Q args
  | .publish _ => ∀ call ∈ l.node.calling, OffsetBeforeData l.node.client.connection
      call.args.cTopic call.args.data call.args.payload.length
  | .round input => ∀ a ∈ roundAttempts l.node.client input, a.checked = false → a.ok = true
  | .begin | .poll _ | .abort | .exit | .advance _ => True

instance [∀ topic payload, Decidable (Q topic payload)] (l : Line) :
    (a : Action) → Decidable (Orderly Q l a)
  | .call args => inferInstanceAs (Decidable (Admissible Q args))
  | .publish _ => inferInstanceAs (Decidable (∀ call ∈ l.node.calling, OffsetBeforeData _ _ _ _))
  | .round _ => inferInstanceAs (Decidable (∀ a ∈ roundAttempts _ _, _ → _))
  | .begin | .poll _ | .abort | .exit | .advance _ => inferInstanceAs (Decidable True)

/-- What holds of every line. -/
structure LineInv (Q : List UInt8 → List UInt8 → Prop) (information : ConnectInfo) (l : Line) :
    Prop where
  fit : Fit (fun _ => Q) l.node.client
  configured : l.node.client.information = information
  calling : ∀ call ∈ l.node.calling, Admissible Q call.args
  begun : Begun Q information l.bytes (l.node.client.state = .connected)

/-- Where more is allowed, what was built before is still allowed. -/
theorem LineInv.imp {Q' : List UInt8 → List UInt8 → Prop} {l : Line}
    (himp : ∀ topic payload, Q topic payload → Q' topic payload)
    (h : LineInv Q information l) : LineInv Q' information l := by
  obtain ⟨ps, hps, hbytes⟩ := h.begun
  refine ⟨h.fit.imp fun _ => himp, h.configured, fun call hcall => ?_, ps, ?_, hbytes⟩
  · obtain ⟨hallowed, hne, hroom⟩ := h.calling call hcall
    exact ⟨himp _ _ hallowed, hne, hroom⟩
  · cases ps with
    | nil => trivial
    | cons first requests => exact ⟨hps.1, fun p hp => (hps.2 p hp).imp fun _ => himp⟩

/-- A step of the node that writes nothing. -/
theorem LineInv.quiet {l : Line} (h : LineInv Q information l) {node : Node}
    (hfit : Fit (fun _ => Q) node.client) (hinformation : node.client.information = information)
    (hcalling : ∀ call ∈ node.calling, Admissible Q call.args)
    (hstate : node.client.state = .connected → l.node.client.state = .connected) :
    LineInv Q information ⟨node, l.bytes ++ []⟩ :=
  ⟨hfit, hinformation, hcalling, by
    rw [List.append_nil]
    exact h.begun.mono hstate⟩

/-- A round leaves the session of its line whole. -/
theorem LineInv.round {l : Line} (h : LineInv Q information l) {input : RoundInput}
    (horderly : Orderly Q l (.round input)) :
    Begun Q information
      (if l.opens (.round input) then onLine (roundAttempts l.node.client input)
        else l.bytes ++ onLine (roundAttempts l.node.client input))
      ((espMqttTaskRound l.node.client input).1.state = .connected) := by
  have hfit := h.fit.deleteExpired
  have hkeep : (mqttDeleteExpiredMessages l.node.client).state = l.node.client.state := rfl
  unfold Orderly roundAttempts at horderly
  unfold espMqttTaskRound roundAttempts
  simp only [hkeep] at horderly ⊢
  cases hstate : l.node.client.state with
  | init =>
    simp only [hstate] at horderly ⊢
    have hround := initRound_allWritten input (hkeep.trans hstate)
    have hbegun := begun_connectAttempts (Q := Q) input
      (hfit.advance input.connectTime).total
    have hinformation : ((mqttDeleteExpiredMessages l.node.client).advance
        input.connectTime).information = information := h.configured
    rw [hinformation] at hbegun
    by_cases hopens : l.opens (.round input)
    · rw [if_pos hopens]
      exact hbegun.mono hround
    · rw [if_neg hopens]
      have hnone : connectAttempts ((mqttDeleteExpiredMessages l.node.client).advance
          input.connectTime) input = [] := if_neg fun hcreated => hopens ⟨hstate, hcreated⟩
      rw [hnone]
      rw [onLine, List.append_nil]
      exact h.begun.mono fun hconnected => absurd hnone (hround hconnected).1
  | connected =>
    simp only [hstate] at horderly ⊢
    have hopens : ¬ l.opens (.round input) := fun hopens =>
      absurd (hstate.symm.trans hopens.1) (by decide)
    rw [if_neg hopens]
    obtain ⟨ps, hps, hpre, hintact⟩ := whole_onLine hfit.connectedAttempts horderly
    refine h.begun.append hstate ⟨ps, hps, hpre, fun hconnected => hintact fun a ha => ?_⟩
    cases hchecked : a.checked with
    | true => exact connectedRound_allWritten hconnected a ha hchecked
    | false => exact horderly a ha hchecked
  | disconnected =>
    have hopens : ¬ l.opens (.round input) := fun hopens =>
      absurd (hstate.symm.trans hopens.1) (by decide)
    simp only
    rw [if_neg hopens, onLine, List.append_nil]
    exact h.begun.mono fun hconnected => absurd (hstate.symm.trans hconnected) (by decide)
  | waitReconnect =>
    have hopens : ¬ l.opens (.round input) := fun hopens =>
      absurd (hstate.symm.trans hopens.1) (by decide)
    simp only
    rw [if_neg hopens, onLine, List.append_nil]
    refine h.begun.mono fun hconnected => ?_
    split at hconnected
    · cases hconnected
    · exact hconnected

/-- A publish puts its packet behind the others. -/
theorem LineInv.publish {l : Line} (h : LineInv Q information l) {call : Call}
    {input : PublishInput} {client : Client} {result : Option UInt16}
    (hid : input.random ≠ 0) (hcall : l.node.calling = some call)
    (hpublish : espMqttClientPublish l.node.client call.args.cTopic call.args.data
      call.args.payload.length 1 0 call.record input = some (client, result))
    (horderly : Orderly Q l (.publish input)) :
    Fit (fun _ => Q) client ∧
      Begun Q information (l.bytes ++ emitted l.node (.publish input))
        (client.state = .connected) := by
  obtain ⟨hfit, p, hp, htransfer⟩ :=
    h.fit.publish hpublish (h.calling call hcall) hid (horderly call hcall)
  refine ⟨hfit, ?_⟩
  have hconnected := (published hpublish).connected
  unfold emitted
  simp only [hcall, Option.bind_some, hp]
  split
  · rename_i stored transfer hsome
    cases hsome
    obtain ⟨hstate, hok, packet, hrequest, hpre, hall⟩ := htransfer transfer rfl
    have hencode : encodeAll [packet] = packet.encode := by simp
    refine h.begun.append hstate ⟨[packet], by simpa using hrequest, ?_, fun hafter => ?_⟩
    · rw [hencode]
      exact hpre
    · rw [hencode]
      exact hall (hok hafter)
  · rw [List.append_nil]
    exact h.begun.mono hconnected

/-- An orderly step keeps what holds of a line. -/
theorem LineInv.step {l l' : Line} {a : Action} (h : LineInv Q information l)
    (horderly : Orderly Q l a) (hstep : lineStep l a = some l') : LineInv Q information l' := by
  obtain ⟨node, hnode, rfl⟩ := Option.map_eq_some_iff.mp hstep
  have hinformation := (information_step hnode).trans h.configured
  cases step_spec hnode with
  | called args hidle hflag =>
    refine h.quiet h.fit hinformation (fun call hcall => ?_) id
    cases hcall
    exact horderly
  | refused args hidle hflag => exact h.quiet h.fit hinformation h.calling id
  | publish input call client result hid hcall hpublish =>
    have hne : input.random ≠ 0 := fun hzero => by
      rw [hzero] at hid
      exact absurd hid.1 (by decide)
    obtain ⟨hfit, hbegun⟩ := h.publish hne hcall hpublish horderly
    exact ⟨hfit, hinformation, fun _ hnone => absurd hnone (by simp), hbegun⟩
  | begin htask => exact h.quiet ⟨h.fit.total, h.fit.items⟩ hinformation h.calling (by simp)
  | round input htask hrun hid =>
    exact ⟨h.fit.espMqttTaskRound, hinformation, h.calling, h.round horderly⟩
  | poll ok htask => exact h.quiet h.fit hinformation h.calling id
  | abort htask =>
    exact h.quiet ⟨h.fit.total, h.fit.items⟩ hinformation h.calling fun hfalse => by cases hfalse
  | exit htask hrun =>
    refine h.quiet ⟨h.fit.total, ?_⟩ hinformation h.calling fun hfalse => by cases hfalse
    exact fun buffer hbuffer => absurd hbuffer List.not_mem_nil
  | advance ms => exact h.quiet (h.fit.advance ms) hinformation h.calling id

theorem lineInv_init (Q : List UInt8 → List UInt8 → Prop) (information : ConnectInfo) (now : Nat) :
    LineInv Q information (line information now).init :=
  ⟨⟨rfl, fun _ hbuffer => absurd hbuffer List.not_mem_nil⟩, rfl,
    fun _ hnone => absurd hnone (by simp [line, node]),
    ⟨[], trivial, List.nil_prefix, fun hfalse => by cases hfalse⟩⟩

/-- What is on the line of a connection is the beginning of a session, a CONNECT with the
configuration and behind it only publications of what was to be published, answers and pings.
As long as the client is connected it is a whole session. -/
theorem line_is_session {information : ConnectInfo} {now : Nat} {as : List Action} {l : Line}
    (hrun : (line information now).exec (line information now).init as = some l)
    (horderly : (line information now).StepsMeet (Orderly Q) (line information now).init as) :
    ∃ ps, Session Q information ps ∧ l.bytes <+: encodeAll ps ∧
      (l.node.client.state = .connected → ps ≠ [] ∧ l.bytes = encodeAll ps) := by
  have hinit := lineInv_init Q information now
  exact (Machine.exec_invariant_of_stepsMeet (M := line information now)
    (P := LineInv Q information)
    (fun _ _ _ h hmeet hstep => h.step hmeet hstep) hinit horderly hrun).begun

/-- A publication is cut off after three bytes, and resent on the next connection. -/
def resent : List Action :=
  [.begin, .round quietRound, .call oneByte, .publish ⟨7, true, [[3]], 0⟩, .poll true,
    .advance 11000, .round quietRound, .poll true, .round quietRound, .poll true,
    .round quietRound]

theorem line_is_session_resent :
    ∃ l, (line Mqtt.information 0).exec (line Mqtt.information 0).init resent = some l ∧
      (l.node.client.state, l.bytes) = (.connected, [0x10, 13, 0, 4, 0x4D, 0x51, 0x54, 0x54, 4, 2,
        0, 120, 0, 1, 0x45, 0x32, 6, 0, 1, 0x74, 0, 7, 0x08]) ∧
      ∃ ps, Session (fun topic payload => topic = [0x74] ∧ payload = [0x08]) Mqtt.information ps ∧
        l.bytes <+: encodeAll ps ∧
        (l.node.client.state = .connected → ps ≠ [] ∧ l.bytes = encodeAll ps) := by
  have hrun : ((line Mqtt.information 0).exec (line Mqtt.information 0).init resent).map
      (fun l => (l.node.client.state, l.bytes)) =
        some (.connected, [0x10, 13, 0, 4, 0x4D, 0x51, 0x54, 0x54, 4, 2, 0, 120, 0, 1, 0x45,
          0x32, 6, 0, 1, 0x74, 0, 7, 0x08]) := by
    decide +kernel
  obtain ⟨l, hl, hfacts⟩ := Option.map_eq_some_iff.mp hrun
  exact ⟨l, hl, hfacts, line_is_session hl (by decide +kernel)⟩

end Runs

end IndustrialIot.Edge.Mqtt
