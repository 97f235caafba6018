import IndustrialIot.Edge.Mqtt.Connected
import IndustrialIot.Edge.Mqtt.Delivery
import IndustrialIot.Edge.Mqtt.Inbox

/-!
# The node on the wire

A node whose rounds are given what the bytes of the broker say. The stream of a connection is
chosen when the transport connects; the reads cut it as they like. Everything else is the node
as before, so what holds of all its runs holds here.
-/

namespace IndustrialIot.Edge.Mqtt

open ControlPacket (Message Publish encodeAll)

section Connack

variable {size : Nat}

/-- The loop of `esp_mqtt_connect` that waits for the broker, with the readings of each call. At
their end the time is up. -/
def awaitConnack (r : Receiver size) : List (List Reading) → Option (Receipt × Receiver size)
  | [] => some (.nothing, r)
  | readings :: attempts =>
    (mqttMessageReceive r readings).bind fun (receipt, r, _) =>
      if receipt = .nothing then awaitConnack r attempts else some (receipt, r)

/-- The part of `esp_mqtt_connect` behind the write: whether the broker accepts. -/
def readConnack (r : Receiver size) (attempts : List (List Reading)) :
    Option (Bool × Receiver size) :=
  (awaitConnack { r with inBufferReadLen := 0, messageLength := 0 } attempts).map
    fun (receipt, r) =>
      if receipt = .message ∧ mqttGetType r.inBuffer = 2 then
        (byteAt r.inBuffer 3 == 0, { r with inBufferReadLen := 0 })
      else (false, r)

end Connack

/-- A node, its receiver and its connection. -/
structure Wire where
  node : Node
  receiver : Receiver bufferLength
  /-- All that the broker sends on the connection. -/
  stream : List UInt8
  /-- What the rounds were given on the connection. -/
  inbox : List (Received × List DataEvent)

/-- What can happen to a node on the wire. -/
inductive WireAction where
  /-- A step that reads nothing. -/
  | action (a : Action)
  /-- A round of a connected client. -/
  | receive (input : RoundInput) (readings : List Reading)
  /-- A round that connects. -/
  | connect (input : RoundInput) (stream : List UInt8) (attempts : List (List Reading))

/-- Whether a round would connect. -/
def Wire.connects (w : Wire) (input : RoundInput) : Prop :=
  w.node.client.state = .init ∧ input.transportCreated = true ∧ input.transportConnected = true

instance (w : Wire) (input : RoundInput) : Decidable (w.connects input) :=
  inferInstanceAs (Decidable (_ ∧ _ ∧ _))

/-- Whether a step of the node reads. -/
def Wire.reads (w : Wire) : Action → Prop
  | .round input => w.node.client.state = .connected ∨ w.connects input
  | _ => False

instance (w : Wire) : (a : Action) → Decidable (w.reads a)
  | .round _ => inferInstanceAs (Decidable (_ ∨ _))
  | .call _ | .publish _ | .begin | .poll _ | .abort | .exit | .advance _ =>
    inferInstanceAs (Decidable False)

/-- Whether `mqtt_process_receive` returns ESP_OK. -/
def Wire.processes (w : Wire) (input : RoundInput) : Bool :=
  (mqttProcessReceive ((mqttDeleteExpiredMessages w.node.client).advance input.receiveTime)
    input).1

/-- The receiver after a round: `in_buffer_read_len` is reset behind a message, unless
`mqtt_process_receive` fails. -/
def Wire.settle (w : Wire) (input : RoundInput) (r : Receiver bufferLength) :
    Receiver bufferLength :=
  if input.received ≠ .nothing ∧ w.processes input = true then { r with inBufferReadLen := 0 }
  else r

/-- The steps of a node on the wire. -/
def wireStep (w : Wire) : WireAction → Option Wire
  | .action a =>
    if w.reads a then none else (step w.node a).map fun node => { w with node := node }
  | .receive input readings =>
    if w.node.client.state = .connected then
      (mqttReceive w.receiver readings).bind fun (received, events, r) =>
        let input := { input with received := received }
        (step w.node (.round input)).map fun node =>
          { w with
            node := node
            receiver := w.settle input r
            inbox := if received = .nothing then w.inbox else w.inbox ++ [(received, events)] }
    else none
  | .connect input stream attempts =>
    if w.connects input then
      (readConnack { w.receiver with incoming := stream } attempts).bind fun (accepted, r) =>
        (step w.node (.round { input with connack := accepted })).map fun node =>
          ⟨node, r, stream, []⟩
    else none

/-- All runs of a node on the wire. What the input buffer holds at first is never read. -/
def wire (information : ConnectInfo) (now : Nat) : Machine Wire WireAction where
  init :=
    ⟨(node information now).init,
      ⟨List.replicate bufferLength 0, List.length_replicate, 0, 0, []⟩, [], []⟩
  step := wireStep

/-! ## Connecting -/

theorem encode_connack (present : Bool) (code : UInt8) :
    (Message.connack present code).packet.encode = [0x20, 2, if present then 1 else 0, code] := by
  change 0x20 :: Varint.encode 2 ++ [if present then 1 else 0, code] = _
  rw [Varint.encode_of_lt (by decide)]
  rfl

/-- The flags of a CONNACK keep the loop over the length bytes from being taken up again. -/
theorem not_overruns_connack {present : Bool} {code : UInt8} {more : List UInt8} {size : Nat}
    {r : Receiver size} (h : Within (Message.connack present code).packet more r) :
    ¬ Overruns r := by
  rintro ⟨⟨hthree, hlt, _⟩, hbytes⟩
  have hbyte : byteAt r.inBuffer 1 = 2 := by
    rw [h.byteAt_eq (i := 1) (by omega), encode_connack]
    rfl
  rw [hbyte] at hlt
  have hread : r.inBufferReadLen = 3 := by omega
  have hflag := hbytes (if present then 1 else 0) (by
    rw [hbyte, h.stream, hread, encode_connack]
    exact List.mem_cons_self)
  cases present <;> exact absurd hflag (by decide)

theorem acceptable_connack {present : Bool} {code : UInt8} {size : Nat} (hsize : 10 ≤ size) :
    Acceptable size (.connack present code) := by
  change (Message.connack present code).packet.encode.length ≤ size
  rw [encode_connack]
  exact Nat.le_trans (show 4 ≤ 10 by decide) hsize

/-- The wait ends with a message only when all of the CONNACK is in the buffer. -/
theorem awaitConnack_message {present : Bool} {code : UInt8} {ms : List Message} {size : Nat}
    (hsize : 10 ≤ size) {r r' : Receiver size} {attempts : List (List Reading)}
    (h : Aligned (.connack present code :: ms) r)
    (hawait : awaitConnack r attempts = some (.message, r')) :
    Within (Message.connack present code).packet (encodeAll (ms.map Message.packet)) r' ∧
      r'.inBufferReadLen = extent (Message.connack present code).packet size := by
  induction attempts generalizing r with
  | nil => exact absurd hawait (by simp [awaitConnack])
  | cons readings attempts ih =>
    obtain ⟨result, hresult, houtcome⟩ := h.1.mqttMessageReceive hsize
      (acceptable_connack hsize).taken h.2 (not_overruns_connack h.1) readings
    rw [awaitConnack, hresult, Option.bind_some] at hawait
    cases houtcome with
    | failure r'' left hfailure => exact absurd hawait (by simp)
    | cut receipt r'' left hreceipt hwithin hlt =>
      rcases hreceipt with rfl | rfl
      · exact absurd hawait (by simp)
      · exact ih ⟨hwithin, hlt⟩ hawait
    | message r'' left hwithin hall htotal hleft =>
      cases hawait
      exact ⟨hwithin, hall⟩

/-- A connection is accepted only by a CONNACK that says so, and no byte behind it is lost. -/
theorem readConnack_spec {present : Bool} {code : UInt8} {ms : List Message} {size : Nat}
    (hsize : 10 ≤ size) {r r' : Receiver size} {attempts : List (List Reading)}
    (hincoming : r.incoming =
      encodeAll ((Message.connack present code :: ms).map Message.packet))
    (h : readConnack r attempts = some (true, r')) : code = 0 ∧ Aligned ms r' := by
  obtain ⟨⟨receipt, r''⟩, hawait, hresult⟩ := Option.map_eq_some_iff.mp h
  simp only at hresult
  split at hresult
  · rename_i hmessage
    obtain ⟨rfl, _⟩ := hmessage
    obtain ⟨hcode, rfl⟩ := Prod.mk.inj hresult
    have halign : Aligned (.connack present code :: ms)
        { r with inBufferReadLen := 0, messageLength := 0 } :=
      aligned_of_readLen (by omega) rfl hincoming
    obtain ⟨hwithin, hall⟩ := awaitConnack_message hsize halign hawait
    obtain ⟨_, ⟨stale, hstale⟩, hrest⟩ := hwithin.whole (acceptable_connack hsize) hall
    have hbyte : byteAt r''.inBuffer 3 = code.toNat := by
      rw [hstale, encode_connack]
      rfl
    rw [hbyte, beq_iff_eq] at hcode
    refine ⟨UInt8.toNat_inj.mp hcode, aligned_of_readLen (by omega) rfl hrest⟩
  · cases hresult

/-! ## The steps -/

/-- A round after which a connected client still is has processed what it received. -/
theorem processes_of_round {w : Wire} {input : RoundInput} {n : Node}
    (hstep : Mqtt.step w.node (.round input) = some n)
    (hstate : w.node.client.state = .connected) (hn : n.client.state = .connected) :
    w.processes input = true := by
  obtain ⟨_, h⟩ := Option.ite_none_right_eq_some.mp hstep
  cases h
  have hkeep : (mqttDeleteExpiredMessages w.node.client).state = .connected := hstate
  change (espMqttTaskRound w.node.client input).1.state = .connected at hn
  unfold espMqttTaskRound at hn
  simp only [hkeep] at hn
  exact connectedRound_connected hn

/-! ## Runs on the wire -/

/-- The steps of a node on the wire, one constructor for each kind. -/
inductive WireStep (w : Wire) : WireAction → Wire → Prop
  | action (a : Action) (n : Node) (hreads : ¬ w.reads a) (hstep : Mqtt.step w.node a = some n) :
    WireStep w (.action a) { w with node := n }
  | receive (input : RoundInput) (readings : List Reading) (received : Received)
    (events : List DataEvent) (r : Receiver bufferLength) (n : Node)
    (hstate : w.node.client.state = .connected)
    (hreceive : mqttReceive w.receiver readings = some (received, events, r))
    (hstep : Mqtt.step w.node (.round { input with received := received }) = some n) :
    WireStep w (.receive input readings)
      { w with
        node := n
        receiver := w.settle { input with received := received } r
        inbox := if received = .nothing then w.inbox else w.inbox ++ [(received, events)] }
  | connect (input : RoundInput) (stream : List UInt8) (attempts : List (List Reading))
    (accepted : Bool) (r : Receiver bufferLength) (n : Node) (hconnects : w.connects input)
    (hread : readConnack { w.receiver with incoming := stream } attempts = some (accepted, r))
    (hstep : Mqtt.step w.node (.round { input with connack := accepted }) = some n) :
    WireStep w (.connect input stream attempts) ⟨n, r, stream, []⟩

theorem wireStep_spec {w w' : Wire} {a : WireAction} (h : wireStep w a = some w') :
    WireStep w a w' := by
  cases a with
  | action a =>
    obtain ⟨hreads, h⟩ := Option.ite_none_left_eq_some.mp h
    obtain ⟨n, hstep, rfl⟩ := Option.map_eq_some_iff.mp h
    exact .action a n hreads hstep
  | receive input readings =>
    obtain ⟨hstate, h⟩ := Option.ite_none_right_eq_some.mp h
    obtain ⟨⟨received, events, r⟩, hreceive, h⟩ := Option.bind_eq_some_iff.mp h
    obtain ⟨n, hstep, rfl⟩ := Option.map_eq_some_iff.mp h
    exact .receive input readings received events r n hstate hreceive hstep
  | connect input stream attempts =>
    obtain ⟨hconnects, h⟩ := Option.ite_none_right_eq_some.mp h
    obtain ⟨⟨accepted, r⟩, hread, h⟩ := Option.bind_eq_some_iff.mp h
    obtain ⟨n, hstep, rfl⟩ := Option.map_eq_some_iff.mp h
    exact .connect input stream attempts accepted r n hconnects hread hstep

/-- Every run on the wire is a run of the node. -/
theorem wire_simulates (information : ConnectInfo) (now : Nat) :
    (wire information now).Simulation (node information now) Wire.node where
  init := rfl
  step := by
    intro w a w' _ h
    cases wireStep_spec h with
    | action a n hreads hnode => exact ⟨[a], (Machine.exec_singleton ..).trans hnode⟩
    | receive input readings received events r n hstate hreceive hnode =>
      exact ⟨[.round { input with received := received }],
        (Machine.exec_singleton ..).trans hnode⟩
    | connect input stream attempts accepted r n hconnects hread hnode =>
      exact ⟨[.round { input with connack := accepted }],
        (Machine.exec_singleton ..).trans hnode⟩

/-- The bytes of a connection on which the broker speaks MQTT: a CONNACK, and messages that the
client can take. -/
def Speaks (stream : List UInt8) (code : UInt8) (ms : List Message) : Prop :=
  (∃ present, stream = encodeAll ((Message.connack present code :: ms).map Message.packet)) ∧
    ∀ m ∈ ms, Acceptable bufferLength m

/-- A connected client has accepted the connection, has been told the first messages, and has
the others before it. -/
def InStep (w : Wire) : Prop :=
  w.node.client.state = .connected → ∀ code ms, Speaks w.stream code ms →
    code = 0 ∧ ∃ done rest, ms = done ++ rest ∧
      List.Forall₂ (fun m told => Tells m told.1 told.2) done w.inbox ∧ Aligned rest w.receiver

/-- A step whose reading takes up no foreign byte as a length, and hands on no PUBLISH in part. -/
def Clean (w : Wire) : WireAction → Prop
  | .receive _ readings => ¬ Overruns w.receiver ∧
    ∀ result ∈ mqttReceive w.receiver readings, ¬ Partial result.2.1
  | .action _ | .connect .. => True

instance (w : Wire) : (a : WireAction) → Decidable (Clean w a)
  | .receive _ _ => inferInstanceAs (Decidable (_ ∧ _))
  | .action _ | .connect .. => inferInstanceAs (Decidable True)

theorem InStep.step {w w' : Wire} {a : WireAction} (h : InStep w) (hclean : Clean w a)
    (hstep : wireStep w a = some w') : InStep w' := by
  intro hconnected code ms hspeaks
  cases wireStep_spec hstep with
  | action a n hreads hnode =>
    rcases connected_of_step hnode hconnected with hstate |
      ⟨input, rfl, hinit, hcreated, htransport, _⟩
    · exact h hstate code ms hspeaks
    · exact absurd (.inr ⟨hinit, hcreated, htransport⟩) hreads
  | connect input stream attempts accepted r n hconnects hread hnode =>
    have haccepted : accepted = true := by
      rcases connected_of_step hnode hconnected with hstate | ⟨_, ha, _, _, _, hconnack⟩
      · exact absurd (hconnects.1.symm.trans hstate) (by decide)
      · cases ha
        exact hconnack
    subst haccepted
    obtain ⟨⟨present, hstream⟩, _⟩ := hspeaks
    obtain ⟨hcode, halign⟩ := readConnack_spec (by decide) hstream hread
    exact ⟨hcode, [], ms, rfl, .nil, halign⟩
  | receive input readings received events r n hstate hreceive hnode =>
    have hprocesses := processes_of_round hnode hstate hconnected
    obtain ⟨hcode, done, rest, rfl, htold, halign⟩ := h hstate code ms hspeaks
    have hrest : ∀ m ∈ rest, Acceptable bufferLength m := by
      intro m hm
      exact hspeaks.2 m (List.mem_append_right done hm)
    obtain ⟨_, _, _, hreceive', harrival⟩ :=
      mqttReceive_spec halign (by decide) hrest hclean.1 readings
    cases hreceive.symm.trans hreceive'
    refine ⟨hcode, ?_⟩
    cases harrival with
    | nothing _ hnothing => exact ⟨done, rest, rfl, htold, hnothing⟩
    | stalled _ hread => cases hprocesses
    | failed _ _ _ hreceived hfailure =>
      rcases hreceived with rfl | ⟨id, qos, rfl⟩ <;> cases hprocesses
    | told m rest' hms _ _ _ htells halign' =>
      have hsome : received ≠ .nothing := by
        rintro rfl
        cases m with
        | connack present code => cases htells.1
        | publish p => cases htells.1
        | ack type id => cases type <;> cases htells.1
        | suback id codes hcodes => cases htells.1
        | pingresp => cases htells.1
      subst hms
      refine ⟨done ++ [m], rest', by simp, ?_, ?_⟩
      · rw [if_neg hsome]
        exact List.rel_append htold (.cons htells .nil)
      · rw [Wire.settle, if_pos ⟨hsome, hprocesses⟩]
        exact halign'
    | cut id qos _ _ hpartial => exact absurd hpartial (hclean.2 _ hreceive)

/-- A connected client has been told exactly the first messages that the broker sent, in their
order, and the bytes of the others are still to be read. -/
theorem told_in_order {information : ConnectInfo} {now : Nat} {as : List WireAction} {w : Wire}
    (h : (wire information now).exec (wire information now).init as = some w)
    (hclean : (wire information now).StepsMeet Clean (wire information now).init as)
    (hconnected : w.node.client.state = .connected) {code : UInt8} {ms : List Message}
    (hspeaks : Speaks w.stream code ms) :
    code = 0 ∧ ∃ done rest, ms = done ++ rest ∧
      List.Forall₂ (fun m told => Tells m told.1 told.2) done w.inbox ∧
      w.receiver.held ++ w.receiver.incoming = encodeAll (rest.map Message.packet) := by
  have hinit : InStep (wire information now).init := by
    intro hstate
    cases hstate
  have hstep : InStep w := Machine.exec_invariant_of_stepsMeet
    (fun _ _ _ hs hq ht => hs.step hq ht) hinit hclean h
  obtain ⟨hcode, done, rest, hms, htold, halign⟩ := hstep hconnected code ms hspeaks
  exact ⟨hcode, done, rest, hms, htold, halign.stream⟩

/-- A PUBLISH of QoS 1 with two bytes for the topic `t`. -/
def twoBytes : Publish where
  dup := false
  retain := false
  qos := 1
  topic := [0x74]
  id := 9
  payload := [0x08, 0x01]
  qos_lt := by decide
  dup_of_qos := by decide
  topic_ne_nil := by decide
  topic_lt := by decide
  body_lt := by decide

/-- The broker accepts, and sends a PUBACK and a PUBLISH. -/
def accepting : List Message := [.ack .puback 7, .publish twoBytes]

/-- The PUBACK comes in two pieces, and a round later all of the PUBLISH. -/
def pieces : List WireAction :=
  [.action .begin,
    .connect quietRound (encodeAll ((Message.connack false 0 :: accepting).map Message.packet))
      [[.timeout], List.replicate 3 (.arrived 9)],
    .action (.poll true),
    .receive quietRound [.arrived 9, .arrived 9, .arrived 1],
    .action (.poll true),
    .receive quietRound [.arrived 9],
    .action (.poll true),
    .receive quietRound (List.replicate 4 (.arrived 9))]

theorem speaks_accepting :
    Speaks (encodeAll ((Message.connack false 0 :: accepting).map Message.packet)) 0 accepting := by
  refine ⟨⟨false, rfl⟩, ?_⟩
  intro m hm
  rcases List.mem_pair.mp hm with rfl | rfl
  · change (Message.ack .puback 7).packet.encode.length ≤ bufferLength
    decide +kernel
  · change twoBytes.header.length ≤ bufferLength
    decide +kernel

theorem told_in_order_pieces :
    ∃ w, (wire information 0).exec (wire information 0).init pieces = some w ∧
      w.inbox.map Prod.fst = [.puback 7, .publish 9 1 true] ∧
      ∃ done rest, accepting = done ++ rest ∧
        List.Forall₂ (fun m told => Tells m told.1 told.2) done w.inbox ∧
        w.receiver.held ++ w.receiver.incoming = encodeAll (rest.map Message.packet) := by
  have hrun : ((wire information 0).exec (wire information 0).init pieces).map
      (fun w => (w.node.client.state, w.inbox.map Prod.fst, w.stream)) =
        some (.connected, [.puback 7, .publish 9 1 true],
          encodeAll ((Message.connack false 0 :: accepting).map Message.packet)) := by
    decide +kernel
  obtain ⟨w, hw, hfacts⟩ := Option.map_eq_some_iff.mp hrun
  simp only [Prod.mk.injEq] at hfacts
  obtain ⟨hconnected, hinbox, hstream⟩ := hfacts
  exact ⟨w, hw, hinbox, (told_in_order hw (by decide +kernel) hconnected
    (hstream ▸ speaks_accepting)).2⟩

end IndustrialIot.Edge.Mqtt
