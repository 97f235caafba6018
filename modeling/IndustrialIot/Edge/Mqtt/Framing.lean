import IndustrialIot.Edge.Mqtt.Wire

/-!
# Where the framing is lost

Two ways in which the client leaves the packets of a broker that made no mistake. The loop over
the length bytes is entered again for the last byte read of a short packet that was cut, and
takes the next packet's first byte. And a PUBLISH larger than the buffer has to be read in one
go: a read that times out ends it, and what is left of it is taken for packets.
-/

namespace IndustrialIot.Edge.Mqtt

open ControlPacket (Packet Publish Message AckType encodeAll)
open PublishPacket (beBytes)

variable {size : Nat}

/-! ## A cut answer -/

/-- What a receiver holds, and what is still to come. -/
structure Holds (xs rest : List UInt8) (r : Receiver size) : Prop where
  readLen_eq : r.inBufferReadLen = xs.length
  held_eq : r.held = xs
  incoming_eq : r.incoming = rest

section Holds

variable {r : Receiver size} {xs rest : List UInt8} {byte : UInt8}

theorem Holds.byteAt_eq (h : Holds xs rest r) {i : Nat} (hi : i < xs.length) :
    byteAt r.inBuffer i = byteAt xs i := by
  have hheld : r.held = xs.take r.inBufferReadLen := by
    rw [h.held_eq, h.readLen_eq, List.take_length]
  exact r.byteAt_eq hheld (h.readLen_eq ▸ hi)

theorem Holds.mqttGetTotalLength (h : Holds xs rest r) :
    mqttGetTotalLength r.inBuffer r.inBufferReadLen = Mqtt.mqttGetTotalLength xs xs.length := by
  have hheader : fixedHeader r.inBuffer r.inBufferReadLen = fixedHeader xs xs.length := by
    rw [fixedHeader, fixedHeader, List.take_length]
    exact congrArg (fun ys => lengthBytes (ys.drop 1) 1 0) h.held_eq
  rw [Mqtt.mqttGetTotalLength, Mqtt.mqttGetTotalLength, hheader]

/-- A read of one byte that has arrived. -/
theorem Holds.read (h : Holds xs (byte :: rest) r) (hroom : xs.length < size) (count : Nat) :
    ∃ r', espTransportRead r r.inBufferReadLen 1 (.arrived (count + 1)) = some (1, r') ∧
      Holds (xs ++ [byte]) rest (r'.advance 1) := by
  have hlen := h.readLen_eq
  have hheld := h.held_eq
  have hroom' : r.inBufferReadLen + [byte].length ≤ size := by
    rw [hlen]
    exact hroom
  refine ⟨{ r.overwrite r.inBufferReadLen [byte] hroom' with incoming := rest }, ?_, ?_⟩
  · rw [espTransportRead, dif_neg (by rw [hlen]; omega)]
    simp only [Nat.min_eq_right (Nat.le_add_left 1 count), h.incoming_eq, List.take_succ_cons,
      List.take_zero, List.drop_succ_cons, List.drop_zero]
    rfl
  · refine ⟨?_, ?_, rfl⟩
    · simp [Receiver.advance, Receiver.overwrite, hlen]
    · change (r.held ++ [byte] ++ _).take (r.inBufferReadLen + 1) = _
      rw [hheld]
      exact List.take_left' (by rw [List.length_append, hlen]; rfl)

theorem Holds.setMessageLength (h : Holds xs rest r) (n : Nat) :
    Holds xs rest { r with messageLength := n } := ⟨h.readLen_eq, h.held_eq, h.incoming_eq⟩

theorem Holds.continues_iff (xs : List UInt8) (h : Holds (xs ++ [byte]) rest r) :
    r.continues = true ↔ xs.length + 1 < 6 ∧ 0x80 ≤ byte.toNat := by
  have hlen := h.readLen_eq
  rw [List.length_append] at hlen
  have hbyte : byteAt r.inBuffer (r.inBufferReadLen - 1) = byte.toNat := by
    rw [h.byteAt_eq (by rw [List.length_append, hlen]; exact Nat.lt_succ_self _), hlen]
    have hlast := byteAt_append xs [byte] 0
    exact hlast
  rw [Receiver.continues, decide_eq_true_iff, hbyte, ← Nat.not_lt, ← (and_groups byte).1, hlen]
  rfl

/-- A round at the first byte of a packet that no packet begins with. -/
theorem Holds.invalid (h : Holds [] (byte :: rest) r) (hsize : 0 < size)
    (hbyte : mqttHasValidMsgHdr [byte] = false) (count : Nat) (readings : List Reading) :
    ∃ r', mqttReceive r (.arrived (count + 1) :: readings) = some (.failure, [], r') := by
  obtain ⟨r', hr', hholds⟩ := (h.setMessageLength 0).read hsize count
  have hvalid : mqttHasValidMsgHdr r'.inBuffer = false := by
    rw [← hbyte]
    exact mqttHasValidMsgHdr_congr (hholds.byteAt_eq (i := 0) Nat.one_pos)
  refine ⟨r', ?_⟩
  rw [mqttReceive, mqttMessageReceive_of_zero h.readLen_eq, List.headD_cons, hr',
    Option.bind_some]
  simp only
  rw [if_neg (by decide), hvalid]
  rfl

/-- An answer whose identifier has the bit of a length byte in both bytes, cut between the two:
the first byte of the next packet is read with it. -/
theorem Holds.cut_answer {type : AckType} {id : UInt16}
    (h : Holds [type.first, 2, UInt8.ofNat (id.toNat / 256)]
      (UInt8.ofNat id.toNat :: byte :: rest) r) (hsize : 10 ≤ size)
    (hid : ∀ b ∈ beBytes id.toNat, 0x80 ≤ b.toNat) (hbyte : byte.toNat < 0x80)
    (count count' : Nat) (readings : List Reading) :
    ∃ r', mqttReceive r (.arrived (count + 1) :: .arrived (count' + 1) :: readings) =
        some (answer id type, [], r') ∧ r'.incoming = rest := by
  obtain ⟨hhigh, hlow⟩ := List.forall_mem_cons.mp hid
  replace hlow := List.forall_mem_singleton.mp hlow
  have hzero := h.setMessageLength 0
  obtain ⟨r₁, hr₁, hholds₁⟩ := hzero.read (show 3 < size by omega) count
  obtain ⟨r₂, hr₂, hholds₂⟩ := hholds₁.read (show 4 < size by omega) count'
  have hthree : r.inBufferReadLen = 3 := h.readLen_eq
  have hfive : (r₂.advance 1).inBufferReadLen = 5 := hholds₂.readLen_eq
  have hloop := (Holds.continues_iff [type.first, 2] hzero).mpr ⟨show 3 < 6 by decide, hhigh⟩
  have hloop₁ := (Holds.continues_iff _ hholds₁).mpr ⟨show 4 < 6 by decide, hlow⟩
  have hloop₂ : ¬ (r₂.advance 1).continues = true := by
    rw [Holds.continues_iff _ hholds₂]
    omega
  have hlength : Mqtt.mqttGetTotalLength (r₂.advance 1).inBuffer (r₂.advance 1).inBufferReadLen =
      (4, 2) := hholds₂.mqttGetTotalLength.trans rfl
  have hbuffer : (r₂.advance 1).inBuffer = type.first :: Varint.encode 2 ++
      (beBytes id.toNat ++ (byte :: (r₂.advance 1).inBuffer.drop 5)) := by
    have hheld := hholds₂.held_eq
    rw [Receiver.held, hfive] at hheld
    rw [Varint.encode_of_lt (by decide), ← List.take_append_drop 5 (r₂.advance 1).inBuffer, hheld]
    rfl
  refine ⟨{ r₂.advance 1 with messageLength := 4 }, ?_, hholds₂.incoming_eq⟩
  have hreceive : mqttMessageReceive r
      (.arrived (count + 1) :: .arrived (count' + 1) :: readings) =
        some (.message, { r₂.advance 1 with messageLength := 4 }, readings) := by
    rw [mqttMessageReceive_of_pos (by omega), readHeader, if_pos (.inr hloop), readLengthBytes,
      List.headD_cons, hr₁, Option.bind_some]
    simp only
    rw [if_neg (by decide), if_pos hloop₁, List.tail_cons, readLengthBytes, List.headD_cons, hr₂,
      Option.bind_some]
    simp only
    rw [if_neg (by decide), if_neg hloop₂, List.tail_cons, readBody, hlength]
    simp only
    rw [asInt_of_lt (by decide), if_neg (by omega), readRest]
    simp only
    rw [if_neg (by omega)]
  have htype : mqttGetType (r₂.advance 1).inBuffer = answerCode type := by
    rw [hbuffer]
    exact mqttGetType_first type
  have hid : mqttGetId (r₂.advance 1).inBuffer 4 = some id := by
    rw [hbuffer]
    refine mqttGetId_identified id _ ?_ (by decide) (by decide)
    rw [mqttGetType_first]
    cases type <;> decide
  rw [mqttReceive, hreceive, Option.bind_some]
  simp only
  rw [received]
  simp only [hid, Option.bind_some, htype]
  cases type <;> rfl

end Holds

/-- A round that fails to receive ends the connection. -/
theorem waitReconnect_of_failure {n n' : Node} {input : RoundInput}
    (h : step n (.round { input with received := .failure }) = some n')
    (hstate : n.client.state = .connected) : n'.client.state = .waitReconnect := by
  obtain ⟨_, h⟩ := Option.ite_none_right_eq_some.mp h
  cases h
  have hkeep : (mqttDeleteExpiredMessages n.client).state = .connected := hstate
  change (espMqttTaskRound n.client _).1.state = .waitReconnect
  unfold espMqttTaskRound
  simp only [hkeep]
  rfl

/-- Steps that read nothing leave the receiver, and connect nobody. -/
theorem exec_actions {information : ConnectInfo} {now : Nat} {w w' : Wire} {as : List Action}
    (h : (wire information now).exec w (as.map .action) = some w') :
    w'.receiver = w.receiver ∧
      (w'.node.client.state = .connected → w.node.client.state = .connected) := by
  induction as generalizing w with
  | nil =>
    cases h
    exact ⟨rfl, id⟩
  | cons a as ih =>
    obtain ⟨v, hv, hrest⟩ := ((wire information now).exec_cons_eq_some).mp h
    obtain ⟨hreceiver, hconnected⟩ := ih hrest
    have hstep : wireStep w (.action a) = some v := hv
    cases wireStep_spec hstep with
    | action _ n hreads hnode =>
      refine ⟨hreceiver, fun hw' => ?_⟩
      rcases connected_of_step hnode (hconnected hw') with hstate |
        ⟨input, rfl, hinit, hcreated, htransport, _⟩
      · exact hstate
      · exact absurd (.inr ⟨hinit, hcreated, htransport⟩) hreads

/-- An answer that is cut between the bytes of such an identifier ends the connection when a
packet follows whose first byte ends the loop and whose length is below 16, although the broker
has sent nothing wrong: the length byte is taken for the first byte of a packet. -/
theorem cut_answer_ends_connection {information : ConnectInfo} {now : Nat} {type : AckType}
    {id : UInt16} {m : Message} {more : List UInt8} {w w' v v' : Wire} {as : List Action}
    {input input' : RoundInput} {count count' count'' : Nat} {readings readings' : List Reading}
    (h : Within (Message.ack type id).packet (m.packet.encode ++ more) w.receiver)
    (hread : w.receiver.inBufferReadLen = 3) (hid : ∀ b ∈ beBytes id.toNat, 0x80 ≤ b.toNat)
    (hfirst : m.packet.first.toNat < 0x80) (hshort : m.packet.body.length < 16)
    (hanswer : wireStep w (.receive input
      (.arrived (count + 1) :: .arrived (count' + 1) :: readings)) = some w')
    (hbetween : (wire information now).exec w' (as.map .action) = some v)
    (hnext : wireStep v (.receive input' (.arrived (count'' + 1) :: readings')) = some v') :
    w'.inbox = w.inbox ++ [(answer id type, [])] ∧ v'.node.client.state = .waitReconnect := by
  have hencode : (Message.ack type id).packet.encode =
      [type.first, 2, UInt8.ofNat (id.toNat / 256), UInt8.ofNat id.toNat] := by
    change type.first :: Varint.encode 2 ++ beBytes id.toNat = _
    rw [Varint.encode_of_lt (by decide)]
    rfl
  have hlens : m.packet.encode =
      m.packet.first :: UInt8.ofNat m.packet.body.length :: m.packet.body := by
    rw [Packet.encode, Packet.lens, Varint.encode_of_lt (by omega)]
    rfl
  have hheld : w.receiver.held = [type.first, 2, UInt8.ofNat (id.toNat / 256)] := by
    rw [h.held_eq, hread, hencode]
    rfl
  have hholds : Holds [type.first, 2, UInt8.ofNat (id.toNat / 256)]
      (UInt8.ofNat id.toNat :: m.packet.first :: UInt8.ofNat m.packet.body.length ::
        (m.packet.body ++ more)) w.receiver := by
    refine ⟨hread, hheld, ?_⟩
    have hstream := h.stream
    rw [hheld, hencode, hlens] at hstream
    exact List.append_cancel_left hstream
  obtain ⟨r', hr', hincoming⟩ := hholds.cut_answer (by decide) hid hfirst count count' readings
  have hsome : answer id type ≠ .nothing := by cases type <;> simp [answer]
  cases wireStep_spec hanswer with
  | receive _ _ received events r n hstate hreceive hnode =>
    cases hreceive.symm.trans hr'
    refine ⟨if_neg hsome, ?_⟩
    obtain ⟨hreceiver, hconnected⟩ := exec_actions hbetween
    cases wireStep_spec hnext with
    | receive _ _ received events r n' hstate' hreceive' hnode' =>
      have hprocesses := processes_of_round hnode hstate (hconnected hstate')
      have hsettle : v.receiver = { r' with inBufferReadLen := 0 } := by
        rw [hreceiver]
        exact if_pos ⟨hsome, hprocesses⟩
      have hinvalid : ∀ n : Fin 16, mqttHasValidMsgHdr [UInt8.ofNat n] = false := by decide
      have hempty : Holds [] (UInt8.ofNat m.packet.body.length :: (m.packet.body ++ more))
          v.receiver := by
        rw [hsettle]
        exact ⟨rfl, rfl, hincoming⟩
      obtain ⟨r'', hr''⟩ := hempty.invalid (by decide) (hinvalid ⟨_, hshort⟩) count'' readings'
      cases hreceive'.symm.trans hr''
      exact waitReconnect_of_failure hnode' hstate'

/-- Two answers on a new connection, the first of them read up to its first identifier byte. -/
def cutAnswer : List WireAction :=
  [.action .begin,
    .connect quietRound (encodeAll ([.connack false 0, .ack .puback 0x8080, .ack .puback 1].map
      Message.packet)) [List.replicate 3 (.arrived 9)],
    .action (.poll true),
    .receive quietRound [.arrived 9, .arrived 9, .arrived 1],
    .action (.poll true)]

theorem cut_answer_ends_connection_cutAnswer :
    ∃ w w' v v', (wire information 0).exec (wire information 0).init cutAnswer = some w ∧
      wireStep w (.receive quietRound [.arrived 1, .arrived 1]) = some w' ∧
      (wire information 0).exec w' [.action (.poll true)] = some v ∧
      wireStep v (.receive quietRound [.arrived 1]) = some v' ∧
      w'.inbox = w.inbox ++ [(.puback 0x8080, [])] ∧
      v'.node.client.state = .waitReconnect := by
  have hrun : (((wire information 0).exec (wire information 0).init cutAnswer).bind fun w =>
      (wireStep w (.receive quietRound [.arrived 1, .arrived 1])).bind fun w' =>
        ((wire information 0).exec w' [.action (.poll true)]).bind fun v =>
          (wireStep v (.receive quietRound [.arrived 1])).map fun _ =>
            (w.receiver.inBufferReadLen, w.receiver.held, w.receiver.incoming)) =
      some (3, [0x40, 2, 0x80], [0x80, 0x40, 2, 0, 1]) := by
    decide +kernel
  obtain ⟨w, hw, hrun⟩ := Option.bind_eq_some_iff.mp hrun
  obtain ⟨w', hw', hrun⟩ := Option.bind_eq_some_iff.mp hrun
  obtain ⟨v, hv, hrun⟩ := Option.bind_eq_some_iff.mp hrun
  obtain ⟨v', hv', hfacts⟩ := Option.map_eq_some_iff.mp hrun
  simp only [Prod.mk.injEq] at hfacts
  obtain ⟨hread, hheld, hincoming⟩ := hfacts
  have hwithin : Within (Message.ack .puback 0x8080).packet
      ((Message.ack .puback 1).packet.encode ++ []) w.receiver := by
    refine ⟨?_, ?_⟩
    · rw [hread]
      decide +kernel
    · rw [hheld, hincoming]
      decide +kernel
  have hpoll : (wire information 0).exec w' ([Action.poll true].map .action) = some v := hv
  exact ⟨w, w', v, v', hw, hw', hv, hv', cut_answer_ends_connection hwithin hread
    (by decide +kernel) (by decide) (by decide) hw' hpoll hv'⟩

/-! ## A PUBLISH in parts -/

/-- How many bytes have arrived. -/
def Reading.count : Reading → Nat
  | .timeout | .failure => 0
  | .arrived count => count

/-- How much of the data that is still to come the reads of a round leave. -/
def missing (size : Nat) : Nat → List Reading → Nat
  | todo, [] => todo
  | todo, reading :: readings =>
    if min reading.count (min todo size) = 0 then todo
    else missing size (todo - min reading.count (min todo size)) readings

theorem missing_le (size todo : Nat) (readings : List Reading) :
    missing size todo readings ≤ todo := by
  induction readings generalizing todo with
  | nil => exact Nat.le_refl _
  | cons reading readings ih =>
    rw [missing]
    split
    · exact Nat.le_refl _
    · exact Nat.le_trans (ih _) (Nat.sub_le _ _)

/-- A read to the start of the buffer brings what has arrived. -/
theorem espTransportRead_count {r : Receiver size} {todo more : List UInt8}
    (hincoming : r.incoming = todo ++ more) (len : Nat) (hlen : len ≤ todo.length)
    (hroom : len ≤ size) (reading : Reading) :
    ∃ n r', espTransportRead r 0 len reading = some (n, r') ∧
      (n ≤ 0 ↔ min reading.count len = 0) ∧ n.toNat = min reading.count len ∧
      r'.inBuffer.take n.toNat = todo.take n.toNat ∧ r'.incoming = todo.drop n.toNat ++ more := by
  rw [espTransportRead, dif_neg (by omega)]
  cases reading with
  | timeout => exact ⟨_, _, rfl, by simp [Reading.count], by simp [Reading.count], rfl, hincoming⟩
  | failure => exact ⟨_, _, rfl, by simp [Reading.count], by simp [Reading.count], rfl, hincoming⟩
  | arrived count =>
    have hle : min count len ≤ len := Nat.min_le_right _ _
    have hbytes : r.incoming.take (min count len) = todo.take (min count len) := by
      rw [hincoming, List.take_append_of_le_length (by omega)]
    have hlength : (r.incoming.take (min count len)).length = min count len := by
      rw [hbytes, List.length_take]
      omega
    refine ⟨_, _, rfl, ?_, ?_, ?_, ?_⟩
    · rw [hlength, Reading.count]
      omega
    · rw [hlength, Reading.count, Int.toNat_natCast]
    · rw [Int.toNat_natCast]
      simp only [Receiver.overwrite, List.take_zero, List.nil_append]
      rw [List.take_left, hlength, hbytes]
    · rw [Int.toNat_natCast, hlength, ← List.drop_append_of_le_length (by omega)]
      exact congrArg (List.drop (min count len)) hincoming

/-- The loop of `deliver_publish` hands on what the reads bring. -/
theorem deliverRest_missing (total : Nat) (event : DataEvent) (readLen offset : Nat)
    {r : Receiver size} {todo more : List UInt8} (hincoming : r.incoming = todo ++ more)
    (htodo : readLen + todo.length = total) (readings : List Reading) :
    ∃ ok events r', deliverRest event total r readLen offset readings = some (ok, events, r') ∧
      dataOf events = todo.take (todo.length - missing size todo.length readings) ∧
      r'.incoming = todo.drop (todo.length - missing size todo.length readings) ++ more := by
  induction readings generalizing r readLen offset todo event with
  | nil =>
    have hmissing : todo.length - missing size todo.length [] = 0 := Nat.sub_self _
    rw [hmissing]
    refine ⟨true, [], r, ?_, rfl, hincoming⟩
    rw [deliverRest, espTransportRead, dif_neg (by omega)]
    split <;> rfl
  | cons reading readings ih =>
    rw [deliverRest, missing]
    by_cases hlt : readLen < total
    · obtain ⟨n, r', hr', hzero, hn, hbuffer, hrest⟩ := espTransportRead_count hincoming
        (min (total - readLen) size) (by omega) (Nat.min_le_right _ _) reading
      have htotal : total - readLen = todo.length := by omega
      rw [htotal] at hr' hzero hn ⊢
      rw [if_pos hlt, hr', Option.bind_some]
      simp only
      by_cases hnone : min reading.count (min todo.length size) = 0
      · have hmissing : todo.length - todo.length = 0 := Nat.sub_self _
        rw [if_pos (hzero.mpr hnone), if_pos hnone, hmissing]
        rw [hn, hnone] at hrest
        exact ⟨_, [], r', rfl, rfl, hrest⟩
      · rw [if_neg (fun hle => hnone (hzero.mp hle)), if_neg hnone, hbuffer, ← hn]
        have hle : n.toNat ≤ todo.length := by omega
        have hdata : (todo.take n.toNat).length = n.toNat := by
          rw [List.length_take]
          omega
        have hmore := missing_le size (todo.length - n.toNat) readings
        obtain ⟨ok, events, r'', hrest', hevents, hincoming'⟩ :=
          ih { event with topic := none, data := todo.take n.toNat, currentDataOffset := offset }
            (readLen + (todo.take n.toNat).length) (offset + (todo.take n.toNat).length) hrest
            (by rw [List.length_drop]; omega)
        rw [hrest']
        rw [List.length_drop] at hevents hincoming'
        refine ⟨ok, _ :: events, r'', rfl, ?_, ?_⟩
        · rw [dataOf, List.flatMap_cons, ← dataOf, hevents]
          simp only
          rw [← List.take_add]
          congr 1
          omega
        · rw [hincoming', List.drop_drop]
          congr 2
          omega
    · have hnil : todo = [] := List.length_eq_zero_iff.mp (by omega)
      have hmin : min reading.count (min todo.length size) = 0 := by
        rw [hnil, List.length_nil]
        omega
      rw [if_neg hlt, if_pos hmin, hnil]
      exact ⟨true, [], r, rfl, rfl, hincoming.trans (by rw [hnil]; rfl)⟩

/-- A PUBLISH larger than the buffer is handed on whole exactly when the reads of the same round
bring all the rest of it. Otherwise, unless the transport fails, it still counts as delivered, and
what is missing stands where the client looks for the next packet. -/
theorem large_publish_whole_iff {p : Publish} {more : List UInt8} {r : Receiver size}
    (h : Within p.packet more r) (hheader : p.header.length ≤ size)
    (hlarge : size < p.packet.encode.length) (hall : r.inBufferReadLen = size)
    (htotal : r.messageLength = p.packet.encode.length) (readings : List Reading) :
    let lost := missing size (p.packet.encode.length - size) readings
    ∃ delivered events r',
      received r readings = some
        (.publish (if 0 < p.qos then p.id else 0) p.qos delivered, events, r') ∧
      (delivered = false → .failure ∈ readings) ∧
      (Conveys p events ↔ lost = 0) ∧
      dataOf events = p.payload.take (p.payload.length - lost) ∧
      r'.incoming = p.payload.drop (p.payload.length - lost) ++ more := by
  intro lost
  have hlength := p.length_packet
  have hextent : r.inBufferReadLen = extent p.packet size := by
    rw [hall, extent]
    omega
  have hread : p.header.length ≤ r.inBufferReadLen := by
    rw [hall]
    exact hheader
  obtain ⟨ok, events, r', hdeliver, hfailure, hne, hparts, left, hleft, hincoming⟩ :=
    h.deliverPublish hheader hextent htotal readings
  -- What the loop leaves is what is missing.
  have hlost : left.length = lost := by
    obtain ⟨_, _, hrest⟩ := h.publish_split hread
    have htodo : (p.payload.drop (r.inBufferReadLen - p.header.length)).length =
        p.packet.encode.length - size := by
      rw [List.length_drop]
      omega
    have hdeliver' := hdeliver
    unfold deliverPublish at hdeliver'
    split at hdeliver'
    · cases hdeliver'
      exact absurd rfl hne
    · obtain ⟨_, _, hdeliver'⟩ := Option.bind_eq_some_iff.mp hdeliver'
      obtain ⟨⟨_, _, _⟩, hresult, heq⟩ := Option.map_eq_some_iff.mp hdeliver'
      cases heq
      obtain ⟨_, _, _, hresult', _, hincoming'⟩ := deliverRest_missing r.messageLength
        _ r.inBufferReadLen _ hrest (by omega) readings
      cases hresult.symm.trans hresult'
      have hsame := List.append_cancel_right (hincoming.symm.trans hincoming')
      have hle := missing_le size (p.packet.encode.length - size) readings
      rw [hsame, htodo, List.length_drop, htodo]
      omega
  have htake : p.payload.length - lost = (dataOf events).length := by
    rw [hleft, List.length_append, hlost]
    omega
  rw [h.received_publish hread htotal, hdeliver, Option.map_some]
  refine ⟨ok, events, r', rfl, hfailure, ?_, ?_, ?_⟩
  · rw [← hlost, List.length_eq_zero_iff]
    constructor
    · intro hconveys
      have hwhole := hconveys.2.2
      rw [hleft] at hwhole
      exact List.self_eq_append_right.mp hwhole
    · intro hnil
      rw [hnil, List.append_nil] at hleft
      exact ⟨hne, hparts, hleft.symm⟩
  · rw [htake]
    conv_rhs => rw [hleft]
    exact List.take_left.symm
  · rw [htake, hincoming]
    conv_rhs => rw [hleft]
    rw [List.drop_left]

/-- A PUBLISH with twenty bytes. -/
def twentyBytes : Publish :=
  { twoBytes with
    payload := List.replicate 20 0x08
    body_lt := by decide }

/-- A buffer of 16 bytes that is full of it. -/
def fullReceiver : Receiver 16 where
  inBuffer := twentyBytes.packet.encode.take 16
  length_inBuffer := by decide +kernel
  inBufferReadLen := 16
  messageLength := 27
  incoming := twentyBytes.packet.encode.drop 16

/-- Nothing more arrives in the round, and the message counts as delivered. -/
theorem large_publish_whole_iff_fullReceiver :
    ∃ events r', received fullReceiver [] = some (.publish 9 1 true, events, r') ∧
      ¬ Conveys twentyBytes events ∧ dataOf events = List.replicate 9 0x08 ∧
      r'.incoming = List.replicate 11 0x08 := by
  have hwithin : Within twentyBytes.packet [] fullReceiver := by
    refine ⟨?_, ?_⟩
    · change 16 ≤ min twentyBytes.packet.encode.length 16
      decide +kernel
    · decide +kernel
  obtain ⟨delivered, events, r', hreceived, hfailure, hwhole, hdata, hincoming⟩ :=
    large_publish_whole_iff hwithin (by decide +kernel) (by decide +kernel) rfl
      (by decide +kernel) []
  cases delivered with
  | false => exact absurd (hfailure rfl) List.not_mem_nil
  | true =>
    have hlost : missing 16 (twentyBytes.packet.encode.length - 16) [] = 11 := by decide +kernel
    rw [hlost] at hwhole hdata hincoming
    exact ⟨events, r', hreceived, fun h => absurd (hwhole.mp h) (by decide), hdata, hincoming⟩

end IndustrialIot.Edge.Mqtt
