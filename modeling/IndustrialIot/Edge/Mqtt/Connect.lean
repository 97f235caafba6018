import IndustrialIot.Core.ConnectPacket
import IndustrialIot.Core.ControlPacket
import IndustrialIot.Edge.Mqtt.Conformance

/-!
# CONNECT packets

`mqtt_msg_connect` appends field after field to the buffer and gives up when one does not fit.
What it builds is one packet that says what the configuration says, unless the total of a PUBLISH
that was cut and not stored is left over: then that is the length it states.
-/

namespace IndustrialIot.Edge.Mqtt

open ControlPacket (Packet)
open ConnectPacket (Connect)

/-- Whether a user name is announced: also for a password alone. -/
def ConnectInfo.named (information : ConnectInfo) : Prop :=
  information.username ≠ [] ∨ information.password ≠ []

instance (information : ConnectInfo) : Decidable information.named :=
  inferInstanceAs (Decidable (_ ∨ _))

/-- The user name that is sent, which is empty for a password alone. -/
def ConnectInfo.sentUsername (information : ConnectInfo) : Option (List UInt8) :=
  if information.named then some information.username else none

/-- The password that is sent. -/
def ConnectInfo.sentPassword (information : ConnectInfo) : Option (List UInt8) :=
  if information.password ≠ [] then some information.password else none

/-- The room that the fields of a CONNECT take in the buffer. -/
def ConnectInfo.room (information : ConnectInfo) : Nat :=
  17 + information.clientId.length +
    (if information.named then 2 + information.username.length else 0) +
    if information.password ≠ [] then 2 + information.password.length else 0

/-- What a CONNECT says of a configuration whose fields fit the buffer. The keepalive time has
two bytes. -/
def ConnectInfo.connect (information : ConnectInfo) (h : information.room ≤ bufferLength) :
    Connect where
  cleanSession := information.cleanSession
  keepalive := information.keepalive % 2 ^ 16
  clientId := information.clientId
  username := information.sentUsername
  password := information.sentPassword
  keepalive_lt := Nat.mod_lt _ (by decide)
  clientId_lt := by
    unfold room bufferLength at h
    omega
  username_lt := by
    intro name hname
    obtain ⟨hnamed, heq⟩ := Option.ite_none_right_eq_some.mp hname
    cases heq
    unfold room bufferLength at h
    rw [if_pos hnamed] at h
    omega
  password_lt := by
    intro word hword
    obtain ⟨hpassword, heq⟩ := Option.ite_none_right_eq_some.mp hword
    cases heq
    unfold room bufferLength at h
    rw [if_pos hpassword] at h
    omega
  username_of_password := by
    intro hsome
    obtain ⟨word, hword⟩ := Option.isSome_iff_exists.mp hsome
    have hpassword := (Option.ite_none_right_eq_some.mp hword).1
    rw [sentUsername, if_pos (.inr hpassword)]
    rfl

/-- The flags of the source and those of the packet. -/
theorem connectFlags_eq (information : ConnectInfo) :
    connectFlags information = ConnectPacket.flags information.cleanSession
      information.sentUsername.isSome information.sentPassword.isSome := by
  unfold connectFlags ConnectInfo.sentUsername ConnectInfo.sentPassword ConnectInfo.named
  by_cases husername : information.username = [] <;>
    by_cases hpassword : information.password = [] <;>
      cases hclean : information.cleanSession <;> simp [husername, hpassword] <;> decide

/-- The two bytes of a number show no more than its last two bytes. -/
theorem beBytes_mod (n : Nat) : PublishPacket.beBytes (n % 2 ^ 16) = PublishPacket.beBytes n := by
  have hhigh : UInt8.ofNat (n % 2 ^ 16 / 256) = UInt8.ofNat (n / 256) := by
    apply UInt8.toNat_inj.mp
    rw [UInt8.toNat_ofNat', UInt8.toNat_ofNat']
    omega
  have hlow : UInt8.ofNat (n % 2 ^ 16) = UInt8.ofNat n := by
    apply UInt8.toNat_inj.mp
    rw [UInt8.toNat_ofNat', UInt8.toNat_ofNat']
    omega
  rw [PublishPacket.beBytes, hhigh, hlow]
  rfl

/-- The fixed part of the body. -/
def connectHeader (information : ConnectInfo) : List UInt8 :=
  [0, 4, 0x4D, 0x51, 0x54, 0x54, 4, connectFlags information,
    UInt8.ofNat (information.keepalive / 256), UInt8.ofNat information.keepalive]

theorem length_field (string : List UInt8) :
    (ConnectPacket.field string).length = 2 + string.length := by
  rw [ConnectPacket.field, List.length_append]
  rfl

/-- Appending a field, where there is room for it. -/
theorem appendString_eq (body string : List UInt8) :
    appendString body string =
      if body.length + (ConnectPacket.field string).length + 5 ≤ bufferLength then
        some (body ++ ConnectPacket.field string)
      else none := by
  rw [length_field, appendString, ConnectPacket.field, List.append_assoc]
  unfold maxFixedHeaderSize
  split
  · rw [if_neg (by omega)]
  · rw [if_pos (by omega)]
    rfl

/-- Appending a field that may be missing. -/
theorem appendOptional_eq {body : List UInt8} (hbody : body.length + 5 ≤ bufferLength)
    (sent : Option (List UInt8)) :
    sent.elim (some body) (appendString body) =
      if body.length + (ConnectPacket.optional sent).length + 5 ≤ bufferLength then
        some (body ++ ConnectPacket.optional sent)
      else none := by
  cases sent with
  | none => simp [ConnectPacket.optional, hbody]
  | some string => exact appendString_eq body string

/-- The body is built field after field. -/
theorem connectBody_fields (information : ConnectInfo) :
    connectBody information =
      (appendString (connectHeader information) information.clientId).bind fun body =>
        (information.sentUsername.elim (some body) (appendString body)).bind fun body =>
          information.sentPassword.elim (some body) (appendString body) := by
  unfold connectBody ConnectInfo.sentUsername ConnectInfo.sentPassword ConnectInfo.named
  simp only [Option.bind_eq_bind]
  rw [if_neg (by simp [bufferLength, maxFixedHeaderSize])]
  by_cases husername : information.username = [] <;>
    by_cases hpassword : information.password = [] <;>
      simp [husername, hpassword, connectHeader]

/-- The room of the fields, by what is sent. -/
theorem ConnectInfo.room_eq (information : ConnectInfo) :
    information.room = 15 + (ConnectPacket.field information.clientId).length +
      (ConnectPacket.optional information.sentUsername).length +
      (ConnectPacket.optional information.sentPassword).length := by
  unfold room sentUsername sentPassword
  split <;> split <;> simp [ConnectPacket.optional, length_field] <;> omega

/-- The header and the fields are the body of the packet. -/
theorem encode_connect (information : ConnectInfo) (h : information.room ≤ bufferLength) :
    ConnectPacket.encode (information.connect h) =
      connectHeader information ++ ConnectPacket.field information.clientId ++
        ConnectPacket.optional information.sentUsername ++
        ConnectPacket.optional information.sentPassword := by
  rw [ConnectPacket.encode, ConnectInfo.connect, ← connectFlags_eq, beBytes_mod]
  rfl

/-- The body is built when its fields have room in the buffer, and is that of the packet. -/
theorem connectBody_eq (information : ConnectInfo) :
    connectBody information =
      if h : information.room ≤ bufferLength then
        some (ConnectPacket.encode (information.connect h))
      else none := by
  have hroom := information.room_eq
  have hheader : (connectHeader information).length = 10 := rfl
  rw [connectBody_fields, appendString_eq]
  by_cases hclient : 15 + (ConnectPacket.field information.clientId).length ≤ bufferLength
  · rw [if_pos (by omega), Option.bind_some,
      appendOptional_eq (by rw [List.length_append]; omega)]
    by_cases husername : 15 + (ConnectPacket.field information.clientId).length +
        (ConnectPacket.optional information.sentUsername).length ≤ bufferLength
    · rw [if_pos (by rw [List.length_append]; omega), Option.bind_some,
        appendOptional_eq (by rw [List.length_append, List.length_append]; omega)]
      simp only [List.length_append]
      split
      · rw [dif_pos (by omega), encode_connect]
      · rw [dif_neg (by omega)]
    · rw [if_neg (by rw [List.length_append]; omega), dif_neg (by omega)]
      rfl
  · rw [if_neg (by omega), dif_neg (by omega)]
    rfl

/-- The bytes of a message that does not inherit a length. -/
theorem finiMessage_data {connection : Connection} {body : List UInt8} {type dup qos retain : Nat}
    (htotal : connection.outboundMessage.fragmentedMsgTotalLength = 0)
    (hbody : body.length < 128 ^ 4) :
    (finiMessage connection body type dup qos retain).outboundMessage.data =
      (⟨typeByte type dup qos retain, body, hbody⟩ : Packet).encode := by
  have hlength : totalLength connection.outboundMessage body = body.length := by
    rw [totalLength, if_neg (fun hne => hne htotal)]
  rw [finiMessage_eq (hlength ▸ hbody), hlength]
  rfl

/-- The body of a CONNECT that fits the buffer has a length that four bytes can state. -/
theorem length_encode_connect (information : ConnectInfo) (h : information.room ≤ bufferLength) :
    (ConnectPacket.encode (information.connect h)).length < 128 ^ 4 := by
  have hheader : (connectHeader information).length = 10 := rfl
  have hroom := information.room_eq
  have hbound : (ConnectPacket.encode (information.connect h)).length ≤ bufferLength := by
    rw [encode_connect]
    simp only [List.length_append]
    omega
  exact Nat.lt_of_le_of_lt hbound (by decide)

/-- The packet that a connection begins with: a CONNECT that says the configuration. -/
def Opening (information : ConnectInfo) (p : Packet) : Prop :=
  p.first = 0x10 ∧ ∃ h : information.room ≤ bufferLength,
    ConnectPacket.decode p.body = some (information.connect h)

/-- A CONNECT whose fields fit the buffer. -/
def connectPacket (information : ConnectInfo) (h : information.room ≤ bufferLength) : Packet where
  first := 0x10
  body := ConnectPacket.encode (information.connect h)
  body_lt := length_encode_connect information h

theorem opening_connectPacket (information : ConnectInfo) (h : information.room ≤ bufferLength) :
    Opening information (connectPacket information h) :=
  ⟨rfl, h, ConnectPacket.decode_encode _⟩

theorem mqttMsgConnect_eq {connection : Connection}
    (htotal : connection.outboundMessage.fragmentedMsgTotalLength = 0)
    (h : connection.information.room ≤ bufferLength) :
    (mqttMsgConnect connection).outboundMessage.data =
      (connectPacket connection.information h).encode := by
  have hbody := connectBody_eq connection.information
  rw [dif_pos h] at hbody
  unfold mqttMsgConnect
  rw [hbody]
  exact finiMessage_data htotal (length_encode_connect connection.information h)

theorem mqttMsgConnect_of_not_room {connection : Connection}
    (h : ¬ connection.information.room ≤ bufferLength) :
    (mqttMsgConnect connection).outboundMessage.data = [] := by
  have hbody := connectBody_eq connection.information
  rw [dif_neg h] at hbody
  unfold mqttMsgConnect
  rw [hbody]
  rfl

/-- What is built, where no total is left over. -/
theorem mqttMsgConnect_opening {connection : Connection}
    (htotal : connection.outboundMessage.fragmentedMsgTotalLength = 0)
    (h : (mqttMsgConnect connection).outboundMessage.data ≠ []) :
    ∃ p, Opening connection.information p ∧
      (mqttMsgConnect connection).outboundMessage.data = p.encode := by
  by_cases hroom : connection.information.room ≤ bufferLength
  · exact ⟨_, opening_connectPacket _ hroom, mqttMsgConnect_eq htotal hroom⟩
  · exact absurd (mqttMsgConnect_of_not_room hroom) h

/-- What is built, where a total is left over. -/
theorem mqttMsgConnect_of_total {connection : Connection}
    (htotal : connection.outboundMessage.fragmentedMsgTotalLength ≠ 0)
    (h : connection.information.room ≤ bufferLength) :
    (mqttMsgConnect connection).outboundMessage.data =
      if connection.outboundMessage.fragmentedMsgTotalLength - 5 < 128 ^ 4 then
        0x10 :: Varint.encode (connection.outboundMessage.fragmentedMsgTotalLength - 5) ++
          ConnectPacket.encode (connection.information.connect h)
      else [] := by
  have hbody := connectBody_eq connection.information
  rw [dif_pos h] at hbody
  unfold mqttMsgConnect
  rw [hbody]
  have hlength : totalLength connection.outboundMessage
      (ConnectPacket.encode (connection.information.connect h)) =
        connection.outboundMessage.fragmentedMsgTotalLength - 5 := if_pos htotal
  simp only
  split
  · rename_i hsmall
    rw [finiMessage_eq (hlength ▸ hsmall), hlength]
    rfl
  · rename_i hlarge
    exact finiMessage_data_eq_nil.mpr (hlength ▸ Nat.not_lt.mp hlarge)

/-- The length that a message states is not that of a CONNECT, if it is over the buffer's. -/
theorem encode_ne_of_total {information : ConnectInfo} (h : information.room ≤ bufferLength)
    {total : Nat} (hcut : bufferLength < total) (hsmall : total - 5 < 128 ^ 4) (p : Packet) :
    0x10 :: Varint.encode (total - 5) ++ ConnectPacket.encode (information.connect h) ≠
      p.encode := by
  intro heq
  have hbody : (ConnectPacket.encode (information.connect h)).length ≤ bufferLength - 5 := by
    have hheader : (connectHeader information).length = 10 := rfl
    have hroom := information.room_eq
    rw [encode_connect]
    simp only [List.length_append]
    omega
  rw [Packet.encode, List.cons_append, List.cons_append] at heq
  have htail := (List.cons.inj heq).2
  have hdecode := Varint.decode_encode (k := 3)
    (ConnectPacket.encode (information.connect h)) hsmall
  rw [htail, Packet.lens, Varint.decode_encode (k := 3) p.body p.body_lt] at hdecode
  obtain ⟨hlength, hsame⟩ := Prod.mk.inj (Option.some.inj hdecode)
  have hbuffer : bufferLength = 1024 := rfl
  rw [← hsame] at hbody
  omega

/-- In every reachable state a CONNECT is built when its fields have room in the buffer and four
bytes can state its length. It is one packet that is decoded to the configuration exactly when no
total is left over; otherwise the length that it states is not its own. -/
theorem mqttMsgConnect_decodes {information : ConnectInfo} {now : Nat} {n : Node}
    (h : (node information now).Reachable n) :
    let connection := n.client.connection
    let total := connection.outboundMessage.fragmentedMsgTotalLength
    let data := (mqttMsgConnect connection).outboundMessage.data
    (data ≠ [] ↔ connection.information.room ≤ bufferLength ∧ total < 128 ^ 4 + 5) ∧
      (data ≠ [] → ∃ p, Opening connection.information p ∧
        data = p.first :: Varint.encode (if total = 0 then p.body.length else total - 5) ++
          p.body) ∧
      ((∃ p, Opening connection.information p ∧ data = p.encode) ↔
        connection.information.room ≤ bufferLength ∧ total = 0) := by
  intro connection total data
  by_cases hroom : connection.information.room ≤ bufferLength
  · rcases totalOfCut_of_reachable h with hzero | hcut
    · have hzero : total = 0 := hzero
      have hdata : data = _ := mqttMsgConnect_eq hzero hroom
      have hopening := opening_connectPacket _ hroom
      refine ⟨⟨fun _ => ⟨hroom, by omega⟩, fun _ => ?_⟩, fun _ => ⟨_, hopening, ?_⟩,
        fun _ => ⟨hroom, hzero⟩, fun _ => ⟨_, hopening, hdata⟩⟩
      · rw [hdata]
        exact Packet.encode_ne_nil _
      · rw [hdata, if_pos hzero]
        rfl
    · have hcut : bufferLength < total := hcut
      have hne : total ≠ 0 := by omega
      have hdata : data = _ := mqttMsgConnect_of_total hne hroom
      have hopening := opening_connectPacket _ hroom
      by_cases hsmall : total - 5 < 128 ^ 4
      · rw [if_pos hsmall] at hdata
        refine ⟨⟨fun _ => ⟨hroom, by omega⟩, fun _ => ?_⟩, fun _ => ⟨_, hopening, ?_⟩, ?_, ?_⟩
        · rw [hdata]
          exact List.cons_ne_nil _ _
        · rw [hdata, if_neg hne]
          rfl
        · rintro ⟨p, _, hp⟩
          exact absurd (hdata.symm.trans hp) (encode_ne_of_total hroom hcut hsmall p)
        · exact fun hzero => absurd hzero.2 hne
      · rw [if_neg hsmall] at hdata
        refine ⟨⟨fun hsome => absurd hdata hsome, fun hlt => absurd hlt.2 (by omega)⟩,
          fun hsome => absurd hdata hsome, ?_, fun hzero => absurd hzero.2 hne⟩
        rintro ⟨p, _, hp⟩
        exact absurd (hp.symm.trans hdata) (Packet.encode_ne_nil p)
  · have hnil : data = [] := mqttMsgConnect_of_not_room hroom
    refine ⟨⟨fun hsome => absurd hnil hsome, fun hfits => absurd hfits.1 hroom⟩,
      fun hsome => absurd hnil hsome, ?_, fun hfits => absurd hfits.1 hroom⟩
    rintro ⟨p, _, hp⟩
    exact absurd (hp.symm.trans hnil) (Packet.encode_ne_nil p)

/-- A payload of 1020 bytes is cut and finds no memory, and the connection fails. The next round
connects again. -/
def leftOver : List Action :=
  called (tooLong [0x74]) ++ [.publish ⟨7, false, [], 0⟩,
    .round { quietRound with received := .failure }, .poll true, .advance 10001,
    .round quietRound]

theorem mqttMsgConnect_decodes_leftOver :
    ∃ n, (node information 0).exec (node information 0).init leftOver = some n ∧
      n.client.state = .init ∧ (mqttMsgConnect n.client.connection).outboundMessage.data ≠ [] ∧
      ¬ ∃ p, Opening n.client.connection.information p ∧
        (mqttMsgConnect n.client.connection).outboundMessage.data = p.encode := by
  have hrun : ((node information 0).exec (node information 0).init leftOver).map
      (fun n => (n.client.state, n.client.connection.outboundMessage.fragmentedMsgTotalLength,
        decide (n.client.connection.information.room ≤ bufferLength))) =
      some (.init, 1030, true) := by decide +kernel
  obtain ⟨n, hn, hfacts⟩ := Option.map_eq_some_iff.mp hrun
  simp only [Prod.mk.injEq, decide_eq_true_eq] at hfacts
  obtain ⟨hstate, htotal, hroom⟩ := hfacts
  obtain ⟨hbuilt, _, hdecodes⟩ := mqttMsgConnect_decodes ⟨leftOver, hn⟩
  refine ⟨n, hn, hstate, hbuilt.mpr ⟨hroom, ?_⟩, fun hp => ?_⟩
  · rw [htotal]
    decide
  · rw [(hdecodes.mp hp).2] at htotal
    cases htotal

end IndustrialIot.Edge.Mqtt
