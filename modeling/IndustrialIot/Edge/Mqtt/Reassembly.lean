import IndustrialIot.Edge.Mqtt.Receive

/-!
# Reassembly

A broker sends packets without a mark between them, and the reads of the client cut the
stream anywhere. The receiver is followed through one packet at a time: what it holds and
what is still to come are always that packet and what follows it.
-/

namespace IndustrialIot.Edge.Mqtt

open ControlPacket (Packet Publish Message AckType encodeAll)

variable {size : Nat}

/-- What has been read of the current packet. -/
def Receiver.held (r : Receiver size) : List UInt8 := r.inBuffer.take r.inBufferReadLen

/-! ## One read -/

/-- What a read that the buffer has room for does. -/
inductive ReadSpec (r : Receiver size) (offset len : Nat) (reading : Reading) :
    Int → Receiver size → Prop
  | away (err : Int) (hle : err ≤ 0) (hfailure : err ≠ 0 → reading = .failure) :
      ReadSpec r offset len reading err r
  | bytes (bytes rest : List UInt8) (hne : bytes ≠ []) (hlen : bytes.length ≤ len)
      (hroom : offset + bytes.length ≤ size) (hsplit : r.incoming = bytes ++ rest) :
      ReadSpec r offset len reading bytes.length
        { r.overwrite offset bytes hroom with incoming := rest }

theorem espTransportRead_spec {r : Receiver size} (offset len : Nat) (reading : Reading)
    (h : offset + len ≤ size) :
    ∃ n r', espTransportRead r offset len reading = some (n, r') ∧
      ReadSpec r offset len reading n r' := by
  unfold espTransportRead
  rw [dif_neg (Nat.not_lt.mpr h)]
  cases reading with
  | timeout => exact ⟨_, _, rfl, .away 0 (by decide) (by simp)⟩
  | failure => exact ⟨_, _, rfl, .away (-1) (by decide) (fun _ => rfl)⟩
  | arrived count =>
    have hlen : (r.incoming.take (min count len)).length ≤ min count len :=
      List.length_take_le _ _
    by_cases hne : r.incoming.take (min count len) = []
    · have hincoming : r.incoming.drop (min count len) = r.incoming := by
        rcases List.take_eq_nil_iff.mp hne with hzero | hnil
        · rw [hzero, List.drop_zero]
        · rw [hnil, List.drop_nil]
      have hsame : ∀ hroom : offset + (r.incoming.take (min count len)).length ≤ size,
          { r.overwrite offset (r.incoming.take (min count len)) hroom with
            incoming := r.incoming.drop (min count len) } = r := by
        simp [Receiver.overwrite, hne, hincoming]
      refine ⟨_, _, rfl, ?_⟩
      rw [hsame, hne]
      exact .away 0 (by decide) (by simp)
    · exact ⟨_, _, rfl, .bytes _ _ hne (by omega) (by omega) (List.take_append_drop _ _).symm⟩

theorem espTransportRead_of_room {r : Receiver size} {offset len : Nat}
    (h : offset + len ≤ size) (reading : Reading) :
    ∃ result, espTransportRead r offset len reading = some result := by
  obtain ⟨n, r', hread, _⟩ := espTransportRead_spec (r := r) offset len reading h
  exact ⟨_, hread⟩

/-- The buffer begins with what has been read. -/
theorem Receiver.byteAt_eq {r : Receiver size} {xs : List UInt8}
    (h : r.held = xs.take r.inBufferReadLen) {i : Nat} (hi : i < r.inBufferReadLen) :
    byteAt r.inBuffer i = byteAt xs i := by
  have hget := congrArg (fun ys : List UInt8 => ys[i]?) h
  simp only [Receiver.held, List.getElem?_take_of_lt hi] at hget
  rw [byteAt, byteAt, List.getD_eq_getElem?_getD, List.getD_eq_getElem?_getD, hget]

/-! ## Within some bytes -/

/-- The buffer holds the first of the bytes, and the others come next. -/
structure Amid (bytes : List UInt8) (r : Receiver size) : Prop where
  readLen_le : r.inBufferReadLen ≤ size
  stream : r.held ++ r.incoming = bytes

section Amid

variable {bytes : List UInt8} {r : Receiver size}

theorem Amid.length_held (h : Amid bytes r) : r.held.length = r.inBufferReadLen := by
  have hle := h.readLen_le
  rw [Receiver.held, List.length_take, r.length_inBuffer]
  omega

theorem Amid.held_eq (h : Amid bytes r) : r.held = bytes.take r.inBufferReadLen := by
  rw [← h.stream, List.take_left' h.length_held]

theorem Amid.byteAt_eq (h : Amid bytes r) {i : Nat} (hi : i < r.inBufferReadLen) :
    byteAt r.inBuffer i = byteAt bytes i := r.byteAt_eq h.held_eq hi

theorem Amid.setMessageLength (h : Amid bytes r) (n : Nat) :
    Amid bytes { r with messageLength := n } := ⟨h.readLen_le, h.stream⟩

/-- A read behind what has been read. -/
theorem Amid.read {len : Nat} {reading : Reading} (h : Amid bytes r) {n : Int}
    {r' : Receiver size} (hread : espTransportRead r r.inBufferReadLen len reading = some (n, r')) :
    n ≤ 0 ∧ r' = r ∧ (n ≠ 0 → reading = .failure) ∨
      0 < n ∧ n ≤ len ∧ r'.inBufferReadLen = r.inBufferReadLen ∧
        r'.messageLength = r.messageLength ∧ Amid bytes (r'.advance n) := by
  have hroom : r.inBufferReadLen + len ≤ size := by
    by_contra hout
    rw [espTransportRead, dif_pos (Nat.not_le.mp hout)] at hread
    cases hread
  obtain ⟨_, _, hresult, hspec⟩ := espTransportRead_spec (r := r) r.inBufferReadLen len reading
    hroom
  cases hread.symm.trans hresult
  cases hspec with
  | away _ hle hfailure => exact .inl ⟨hle, rfl, hfailure⟩
  | bytes bytes rest hne hlen hroom hsplit =>
    have hpos : 0 < bytes.length := List.length_pos_iff.mpr hne
    refine .inr ⟨by omega, by omega, rfl, rfl, hroom, ?_⟩
    rw [← h.stream, hsplit, ← List.append_assoc]
    congr 1
    apply List.take_left'
    rw [List.length_append]
    exact congrArg (· + bytes.length) h.length_held

end Amid

/-! ## Within a packet -/

/-- The number of bytes after which a packet is handed on. -/
def extent (p : Packet) (size : Nat) : Nat := min p.encode.length size

/-- The buffer holds a part of the packet `p`, and the rest of it comes next, in front of
`more`. -/
structure Within (p : Packet) (more : List UInt8) (r : Receiver size) : Prop where
  readLen_le : r.inBufferReadLen ≤ extent p size
  stream : r.held ++ r.incoming = p.encode ++ more

section Within

variable {p : Packet} {more : List UInt8} {r : Receiver size}

theorem Within.amid (h : Within p more r) : Amid (p.encode ++ more) r :=
  ⟨Nat.le_trans h.readLen_le (Nat.min_le_right _ _), h.stream⟩

/-- The buffer holds the first bytes of the packet. -/
theorem Within.held_eq (h : Within p more r) :
    r.held = p.encode.take r.inBufferReadLen := by
  rw [h.amid.held_eq, List.take_append_of_le_length]
  exact Nat.le_trans h.readLen_le (Nat.min_le_left _ _)

theorem Within.byteAt_eq (h : Within p more r) {i : Nat} (hi : i < r.inBufferReadLen) :
    byteAt r.inBuffer i = byteAt p.encode i := r.byteAt_eq h.held_eq hi

/-- A read that does not reach behind the packet. -/
theorem Within.read (h : Within p more r) (len : Nat) (reading : Reading)
    (hlen : r.inBufferReadLen + len ≤ extent p size) :
    ∃ n r', espTransportRead r r.inBufferReadLen len reading = some (n, r') ∧
      (n ≤ 0 ∧ r' = r ∧ (n ≠ 0 → reading = .failure) ∨
        0 < n ∧ n ≤ len ∧ r'.inBufferReadLen = r.inBufferReadLen ∧
          r'.messageLength = r.messageLength ∧ Within p more (r'.advance n)) := by
  obtain ⟨⟨n, r'⟩, hread⟩ := espTransportRead_of_room (r := r)
    (Nat.le_trans hlen (Nat.min_le_right _ _)) reading
  refine ⟨n, r', hread, (h.amid.read hread).imp_right ?_⟩
  rintro ⟨hpos, hn, hsame, hmessage, hamid⟩
  refine ⟨hpos, hn, hsame, hmessage, ?_, hamid.stream⟩
  change r'.inBufferReadLen + n.toNat ≤ extent p size
  omega

/-- What a call of `mqtt_message_receive` comes to within a packet. -/
inductive Outcome (p : Packet) (more : List UInt8) (readings : List Reading) :
    Reception size → Prop
  | failure (r : Receiver size) (left : List Reading) (h : Reading.failure ∈ readings) :
      Outcome p more readings (.failure, r, left)
  | cut (receipt : Receipt) (r : Receiver size) (left : List Reading)
      (hreceipt : receipt = .stalled ∨ receipt = .nothing) (h : Within p more r)
      (hlt : r.inBufferReadLen < extent p size) :
      Outcome p more readings (receipt, r, left)
  | message (r : Receiver size) (left : List Reading) (h : Within p more r)
      (hall : r.inBufferReadLen = extent p size) (htotal : r.messageLength = p.encode.length)
      (hleft : left ⊆ readings) : Outcome p more readings (.message, r, left)

theorem failure_mem {readings : List Reading} (h : readings.headD .timeout = .failure) :
    Reading.failure ∈ readings := by
  cases readings with
  | nil => exact absurd h (by decide)
  | cons reading readings =>
    rw [List.headD_cons] at h
    exact h ▸ List.mem_cons_self

/-- What was possible with the later readings is possible with all of them. -/
theorem Outcome.of_tail {readings : List Reading} {result : Reception size}
    (h : Outcome p more readings.tail result) : Outcome p more readings result := by
  cases h with
  | failure r left h => exact .failure r left (List.mem_of_mem_tail h)
  | cut receipt r left hreceipt h hlt => exact .cut receipt r left hreceipt h hlt
  | message r left h hall htotal hleft =>
    exact .message r left h hall htotal fun _ hmem => List.mem_of_mem_tail (hleft hmem)

/-- A read that brings nothing ends the call within the packet. -/
theorem Within.away (h : Within p more r) (hlt : r.inBufferReadLen < extent p size)
    {readings : List Reading} {n : Int} (hfailure : n ≠ 0 → readings.headD .timeout = .failure)
    (midMessage : Bool) (left : List Reading) :
    Outcome p more readings (handleTransportReadError n midMessage, r, left) := by
  unfold handleTransportReadError
  by_cases hn : n = 0
  · rw [if_pos hn]
    refine .cut _ r left ?_ h hlt
    cases midMessage <;> simp
  · rw [if_neg hn]
    exact .failure r left (failure_mem (hfailure hn))

/-- The rest of a message is read. -/
theorem Within.readRest (h : Within p more r) (htotal : r.messageLength = p.encode.length)
    (readings : List Reading) :
    ∃ result, readRest r (extent p size) readings = some result ∧
      Outcome p more readings result := by
  unfold Mqtt.readRest
  by_cases hlt : r.inBufferReadLen < extent p size
  · obtain ⟨n, r', hread, hresult⟩ := h.read (extent p size - r.inBufferReadLen)
      (readings.headD .timeout) (by omega)
    rw [if_pos hlt, hread]
    refine ⟨_, rfl, ?_⟩
    rcases hresult with ⟨hle, rfl, hfailure⟩ | ⟨hpos, hn, hreadLen, hmessage, hwithin⟩
    · simp only [if_pos hle]
      exact h.away hlt hfailure true _
    · simp only [if_neg (Int.not_le.mpr hpos)]
      split
      · rename_i hcut
        exact .cut _ _ _ (.inr rfl) hwithin hcut
      · rename_i hall
        exact .message _ _ hwithin (Nat.le_antisymm hwithin.readLen_le (Nat.not_lt.mp hall))
          (hmessage.trans htotal) (fun _ => List.mem_of_mem_tail)
  · rw [if_neg hlt]
    exact ⟨_, rfl, .message r readings h
      (Nat.le_antisymm h.readLen_le (Nat.not_lt.mp hlt)) htotal (List.Subset.refl _)⟩

end Within

/-! ## One message -/

/-- What a buffer of that size can receive: of a PUBLISH everything in front of the payload,
of the other messages all; and the length of a SUBACK takes one byte. -/
def Acceptable (size : Nat) : Message → Prop
  | .publish p => p.header.length ≤ size
  | .suback id codes h =>
    (Message.suback id codes h).packet.encode.length ≤ size ∧ codes ≠ [] ∧ codes.length + 2 < 128
  | m => m.packet.encode.length ≤ size

/-- What `mqtt_message_receive` takes: a message that is larger than the buffer is a PUBLISH, and
all of its header but two bytes, which the check leaves out, fits. -/
def Taken (size : Nat) (m : Message) : Prop :=
  size < m.packet.encode.length → ∃ p, m = .publish p ∧ p.header.length ≤ size + 2

theorem Acceptable.taken {size : Nat} {m : Message} (h : Acceptable size m) : Taken size m := by
  intro hlarge
  cases m with
  | publish p => exact ⟨p, rfl, Nat.le_add_right_of_le h⟩
  | suback id codes hcodes => exact absurd h.1 (Nat.not_le.mpr hlarge)
  | connack sessionPresent code => exact absurd h (Nat.not_le.mpr hlarge)
  | ack type id => exact absurd h (Nat.not_le.mpr hlarge)
  | pingresp => exact absurd h (Nat.not_le.mpr hlarge)

theorem mqttGetType_congr {a b : List UInt8} (h : byteAt a 0 = byteAt b 0) :
    mqttGetType a = mqttGetType b := by
  have hhead : ∀ xs : List UInt8, xs.headD 0 = xs.getD 0 0 := by
    intro xs
    cases xs <;> rfl
  rw [mqttGetType, mqttGetType, hhead, hhead, UInt8.toNat_inj.mp h]

section Message

variable {p : Packet} {more : List UInt8} {r : Receiver size}

/-- The stated length is found once the length bytes have been read. -/
theorem Within.mqttGetTotalLength (h : Within p more r) (hfixed : p.fixed ≤ r.inBufferReadLen) :
    mqttGetTotalLength r.inBuffer r.inBufferReadLen = (p.encode.length, p.fixed) := by
  have hbuffer : fixedHeader r.inBuffer r.inBufferReadLen =
      fixedHeader p.encode r.inBufferReadLen :=
    congrArg (fun xs => lengthBytes (List.drop 1 xs) 1 0) h.held_eq
  have hlt := p.body_lt
  have hle := p.fixed_bounds
  have hlength := p.length_encode
  have hheader : fixedHeader p.encode r.inBufferReadLen = (p.body.length, p.fixed) :=
    fixedHeader_eq p _ rfl hfixed
  rw [Mqtt.mqttGetTotalLength, hbuffer, hheader]
  exact Prod.ext (show (_ + _) % _ = _ by omega) rfl

theorem Within.setMessageLength (h : Within p more r) (n : Nat) :
    Within p more { r with messageLength := n } := ⟨h.readLen_le, h.stream⟩

end Message

section Publish

variable {p : Publish} {more : List UInt8} {r : Receiver size}

/-- What the first bytes of a PUBLISH say, up to its topic length. -/
theorem Within.publish_fields (h : Within p.packet more r)
    (hread : p.packet.fixed + 2 ≤ r.inBufferReadLen) :
    mqttGetType r.inBuffer = 3 ∧ mqttGetQos r.inBuffer = p.qos ∧
      wordAt r.inBuffer p.packet.fixed = p.topic.length := by
  have hfirst := h.byteAt_eq (i := 0) (by omega)
  refine ⟨?_, ?_, ?_⟩
  · rw [mqttGetType_congr hfirst]
    exact (publishFirst_flags p _).1.1
  · rw [mqttGetQos, hfirst]
    exact (publishFirst_flags p _).1.2
  · rw [wordAt, h.byteAt_eq (by omega), h.byteAt_eq (by omega), p.encode_packet]
    exact wordAt_topic

/-- Behind the topic length of a large PUBLISH the buffer is filled. -/
theorem Within.readTopic (h : Within p.packet more r) (hheader : p.header.length ≤ size + 2)
    (hlarge : size < p.packet.encode.length) (hread : p.packet.fixed + 2 ≤ r.inBufferReadLen)
    (htotal : r.messageLength = p.packet.encode.length) (readings : List Reading) :
    ∃ result, readTopic r p.packet.fixed readings = some result ∧
      Outcome p.packet more readings result := by
  have hlength := p.length_header
  obtain ⟨_, hqos, htopic⟩ := h.publish_fields hread
  have hextent : extent p.packet size = size := Nat.min_eq_right (Nat.le_of_lt hlarge)
  unfold Mqtt.readTopic
  simp only [htopic, hqos]
  have hrest := h.readRest htotal readings
  rw [hextent] at hrest
  rwa [if_neg (by omega)]

/-- A PUBLISH that is larger than the buffer. -/
theorem Within.readLarge (h : Within p.packet more r) (hsize : 10 ≤ size)
    (hheader : p.header.length ≤ size + 2) (hlarge : size < p.packet.encode.length)
    (hread : p.packet.fixed ≤ r.inBufferReadLen)
    (htotal : r.messageLength = p.packet.encode.length) (readings : List Reading) :
    ∃ result, readLarge r p.packet.fixed readings = some result ∧
      Outcome p.packet more readings result := by
  have hfixed := p.packet.fixed_bounds
  have hextent : extent p.packet size = size := Nat.min_eq_right (Nat.le_of_lt hlarge)
  have htype : mqttGetType r.inBuffer = MsgType.publish.code := by
    rw [mqttGetType_congr (h.byteAt_eq (by omega))]
    exact (publishFirst_flags p _).1.1
  unfold Mqtt.readLarge
  rw [if_pos htype]
  by_cases hshort : r.inBufferReadLen < p.packet.fixed + 2
  · obtain ⟨n, r', hr', hresult⟩ := h.read (r.inBufferReadLen - p.packet.fixed + 2)
      (readings.headD .timeout) (by omega)
    rw [if_pos hshort, hr', Option.bind_some]
    simp only
    rcases hresult with ⟨hle, rfl, hfailure⟩ | ⟨hpos, hn, hreadLen, hmessage, hwithin⟩
    · rw [if_pos hle]
      exact ⟨_, rfl, h.away (by omega) hfailure true _⟩
    · rw [if_neg (Int.not_le.mpr hpos)]
      split
      · rename_i hcut
        exact ⟨_, rfl, .cut _ _ _ (.inr rfl) hwithin (by omega)⟩
      · rename_i hthere
        obtain ⟨result, hresult, houtcome⟩ := hwithin.readTopic hheader hlarge
          (Nat.not_lt.mp hthere) (hmessage.trans htotal) readings.tail
        exact ⟨result, hresult, houtcome.of_tail⟩
  · rw [if_neg hshort]
    exact h.readTopic hheader hlarge (Nat.not_lt.mp hshort) htotal readings

end Publish

/-- What follows the length bytes. -/
theorem Within.readBody {m : Message} {more : List UInt8} {r : Receiver size}
    (h : Within m.packet more r) (hsize : 10 ≤ size) (hm : Taken size m)
    (hfixed : m.packet.fixed ≤ r.inBufferReadLen) (readings : List Reading) :
    ∃ result, readBody r readings = some result ∧
      Outcome m.packet more readings result := by
  have hwithin := h.setMessageLength m.packet.encode.length
  have hint : asInt m.packet.encode.length = m.packet.encode.length := by
    have hlt := m.packet.body_lt
    have hle := m.packet.fixed_bounds
    have hlength := m.packet.length_encode
    exact asInt_of_lt (by omega)
  unfold Mqtt.readBody
  simp only [h.mqttGetTotalLength hfixed, hint, Int.ofNat_lt]
  by_cases hlarge : size < m.packet.encode.length
  · obtain ⟨p, rfl, hheader⟩ := hm hlarge
    rw [if_pos hlarge]
    exact hwithin.readLarge hsize hheader hlarge hfixed rfl readings
  · have hextent : extent m.packet size = m.packet.encode.length :=
      Nat.min_eq_left (Nat.not_lt.mp hlarge)
    rw [if_neg hlarge]
    have hrest := hwithin.readRest rfl readings
    rwa [hextent] at hrest

/-- Every length byte but the last one says that another follows. -/
theorem continues_iff_lens (p : Packet) {j : Nat} (hpos : 1 ≤ j) (hj : j < p.fixed) :
    0x80 ≤ byteAt p.encode j ↔ j + 1 < p.fixed := by
  obtain ⟨k, rfl⟩ := Nat.exists_eq_add_of_le' hpos
  unfold Packet.fixed at hj ⊢
  have hk : k < p.lens.length := by omega
  have hbyte : byteAt p.encode (k + 1) = (p.lens.getD k 0).toNat := by
    rw [byteAt, Packet.encode, List.cons_append, List.getD_cons_succ,
      List.getD_eq_getElem?_getD, List.getD_eq_getElem?_getD, List.getElem?_append_left hk]
  rw [hbyte, Packet.lens, Varint.continues_iff hk]
  omega

section Header

variable {m : Message} {more : List UInt8} {r : Receiver size}

theorem continues_advance (h : Within m.packet more (r.advance 1)) :
    (r.advance 1).continues = true ↔
      r.inBufferReadLen + 1 < 6 ∧ 0x80 ≤ byteAt m.packet.encode r.inBufferReadLen := by
  have hbyte : byteAt (r.advance 1).inBuffer r.inBufferReadLen =
      byteAt m.packet.encode r.inBufferReadLen :=
    h.byteAt_eq (show r.inBufferReadLen < r.inBufferReadLen + 1 by omega)
  have hbit : byteAt (r.advance 1).inBuffer r.inBufferReadLen &&& 0x80 ≠ 0 ↔
      0x80 ≤ byteAt (r.advance 1).inBuffer r.inBufferReadLen := by
    rw [Ne, byteAt, (and_groups _).1, Nat.not_lt]
  rw [← hbyte, ← hbit]
  exact decide_eq_true_iff

/-- The loop over the length bytes ends in front of the body or, where it was entered behind
the length bytes, at some byte `j` of the packet. -/
theorem Within.readLengthBytes (h : Within m.packet more r) (hsize : 10 ≤ size)
    (hm : Taken size m) (hpos : 1 ≤ r.inBufferReadLen) {j rounds : Nat}
    (hj : r.inBufferReadLen ≤ j) (hlt : j < extent m.packet size)
    (hstop : 5 ≤ j ∨ byteAt m.packet.encode j < 0x80) (hrounds : j < r.inBufferReadLen + rounds)
    (readings : List Reading) :
    ∃ result, readLengthBytes rounds r readings = some result ∧
      Outcome m.packet more readings result := by
  induction rounds generalizing r readings with
  | zero => omega
  | succ rounds ih =>
    obtain ⟨n, r', hr', hresult⟩ := h.read 1 (readings.headD .timeout) (by omega)
    rw [Mqtt.readLengthBytes, hr', Option.bind_some]
    simp only
    rcases hresult with ⟨hle, rfl, hfailure⟩ | ⟨hnpos, hn, hreadLen, _, hwithin⟩
    · rw [if_pos hle]
      exact ⟨_, rfl, h.away (by omega) hfailure true _⟩
    · obtain rfl : n = 1 := by omega
      have hcontinues := continues_advance hwithin
      have hadvance : (r'.advance 1).inBufferReadLen = r'.inBufferReadLen + 1 := rfl
      rw [hreadLen] at hcontinues
      rw [if_neg (Int.not_le.mpr hnpos)]
      split
      · rename_i hgoes
        obtain ⟨hsix, hbyte⟩ := hcontinues.mp hgoes
        have hne : r.inBufferReadLen ≠ j := by
          rintro rfl
          omega
        obtain ⟨result, hresult, houtcome⟩ := ih hwithin (by omega) (by omega) (by omega)
          readings.tail
        exact ⟨result, hresult, houtcome.of_tail⟩
      · rename_i hends
        have hfixed := m.packet.fixed_bounds
        have hthere : m.packet.fixed ≤ r.inBufferReadLen + 1 := by
          by_contra hshort
          have hbyte := (continues_iff_lens m.packet hpos (by omega)).mpr (Nat.not_le.mp hshort)
          exact hends (hcontinues.mpr ⟨by omega, hbyte⟩)
        obtain ⟨result, hresult, houtcome⟩ := hwithin.readBody hsize hm (by omega) readings.tail
        exact ⟨result, hresult, houtcome.of_tail⟩

/-- The reads stopped within the body of a packet of at most five bytes, behind a byte with the
bit of a length byte that says that another follows, and the rest of the packet has it as well.
The loop over the length bytes will be taken up again, and go on behind the packet. -/
def Overruns (r : Receiver size) : Prop :=
  (3 ≤ r.inBufferReadLen ∧ r.inBufferReadLen < 2 + byteAt r.inBuffer 1 ∧
    2 + byteAt r.inBuffer 1 < 6) ∧
    ∀ byte ∈ ((r.held ++ r.incoming).take (2 + byteAt r.inBuffer 1)).drop (r.inBufferReadLen - 1),
      0x80 ≤ byte.toNat

instance (r : Receiver size) : Decidable (Overruns r) := inferInstanceAs (Decidable (_ ∧ _))

/-- A short packet has one length byte. -/
theorem fixed_of_short (p : Packet) (h : p.body.length < 128) :
    p.fixed = 2 ∧ byteAt p.encode 1 = p.body.length := by
  have hlens : p.lens = [UInt8.ofNat p.body.length] := Varint.encode_of_lt h
  refine ⟨?_, ?_⟩
  · rw [Packet.fixed, hlens]
    rfl
  · rw [Packet.encode, hlens]
    change (UInt8.ofNat p.body.length).toNat = _
    rw [UInt8.toNat_ofNat']
    omega

/-- A short packet that is not overrun has a byte that ends the loop in time. -/
theorem Within.exists_stop (h : Within m.packet more r) (hover : ¬ Overruns r)
    (hshort : m.packet.encode.length < 6) (hfixed : m.packet.fixed ≤ r.inBufferReadLen)
    (hbyte : 0x80 ≤ byteAt m.packet.encode (r.inBufferReadLen - 1))
    (hlt : r.inBufferReadLen < m.packet.encode.length) :
    ∃ j, r.inBufferReadLen ≤ j ∧ j < m.packet.encode.length ∧ byteAt m.packet.encode j < 0x80 := by
  have hlength := m.packet.length_encode
  have hle := m.packet.fixed_bounds
  obtain ⟨htwo, hone⟩ := fixed_of_short m.packet (by omega)
  have htotal : 2 + byteAt r.inBuffer 1 = m.packet.encode.length := by
    rw [h.byteAt_eq (by omega), hone]
    omega
  have hthree : r.inBufferReadLen ≠ 2 := by
    intro heq
    rw [heq, hone] at hbyte
    omega
  obtain ⟨byte, hmem, hsmall⟩ : ∃ byte ∈ ((r.held ++ r.incoming).take
      (2 + byteAt r.inBuffer 1)).drop (r.inBufferReadLen - 1), ¬ 0x80 ≤ byte.toNat := by
    by_contra hnone
    refine hover ⟨by omega, ?_⟩
    intro byte hmem
    by_contra hsmall
    exact hnone ⟨byte, hmem, hsmall⟩
  obtain ⟨k, hk⟩ := List.mem_iff_getElem?.mp hmem
  rw [htotal, List.getElem?_drop, h.stream, List.take_left] at hk
  have hj : byteAt m.packet.encode (r.inBufferReadLen - 1 + k) = byte.toNat := by
    rw [byteAt, List.getD_eq_getElem?_getD, hk, Option.getD_some]
  have hne : k ≠ 0 := by
    rintro rfl
    rw [Nat.add_zero] at hj
    omega
  exact ⟨r.inBufferReadLen - 1 + k, by omega, (List.getElem?_eq_some_iff.mp hk).1, by omega⟩

/-- Everything behind the first byte. -/
theorem Within.readHeader (h : Within m.packet more r) (hsize : 10 ≤ size)
    (hm : Taken size m) (hpos : 1 ≤ r.inBufferReadLen)
    (hlt : r.inBufferReadLen < extent m.packet size) (hover : ¬ Overruns r)
    (readings : List Reading) :
    ∃ result, readHeader r readings = some result ∧
      Outcome m.packet more readings result := by
  have hfixed := m.packet.fixed_bounds
  have hlength := m.packet.length_encode
  have hcontinues : r.continues = true ↔ r.inBufferReadLen < 6 ∧
      0x80 ≤ byteAt m.packet.encode (r.inBufferReadLen - 1) := by
    rw [← h.byteAt_eq (by omega), byteAt, ← Nat.not_lt, ← (and_groups _).1]
    exact decide_eq_true_iff
  unfold Mqtt.readHeader
  by_cases hshort : r.inBufferReadLen < m.packet.fixed
  · have hloop : r.inBufferReadLen = 1 ∨ r.continues = true := by
      by_cases hone : r.inBufferReadLen = 1
      · exact .inl hone
      · refine .inr (hcontinues.mpr ⟨by omega, ?_⟩)
        exact (continues_iff_lens m.packet (by omega) (by omega)).mpr (by omega)
    have hlast : byteAt m.packet.encode (m.packet.fixed - 1) < 0x80 := by
      have hiff := continues_iff_lens m.packet (j := m.packet.fixed - 1) (by omega) (by omega)
      omega
    rw [if_pos hloop]
    unfold extent at hlt
    exact h.readLengthBytes hsize hm hpos (j := m.packet.fixed - 1) (by omega)
      (by unfold extent; omega) (.inr hlast) (by omega) readings
  · by_cases hloop : r.inBufferReadLen = 1 ∨ r.continues = true
    · obtain ⟨hsix, hbyte⟩ := hcontinues.mp (hloop.resolve_left (by omega))
      rw [if_pos hloop]
      by_cases htotal : m.packet.encode.length < 6
      · unfold extent at hlt
        obtain ⟨j, hj, hjlt, hstop⟩ := h.exists_stop hover htotal (Nat.not_lt.mp hshort) hbyte
          (by omega)
        exact h.readLengthBytes hsize hm hpos hj (by unfold extent; omega) (.inr hstop) (by omega)
          readings
      · exact h.readLengthBytes hsize hm hpos (j := 5) (by omega) (by unfold extent; omega)
          (.inl (Nat.le_refl 5)) (by omega) readings
    · rw [if_neg hloop]
      exact h.readBody hsize hm (Nat.not_lt.mp hshort) readings

/-- The first byte is read to where the reading stands, as the bytes behind it are. -/
theorem mqttMessageReceive_of_zero {r : Receiver size} (hzero : r.inBufferReadLen = 0)
    (readings : List Reading) :
    mqttMessageReceive r readings =
      (espTransportRead { r with messageLength := 0 } r.inBufferReadLen 1
        (readings.headD .timeout)).bind fun (readLen, r) =>
          if readLen ≤ 0 then
            some (handleTransportReadError readLen false, r, readings.tail)
          else if mqttHasValidMsgHdr r.inBuffer then readHeader (r.advance 1) readings.tail
          else some (.failure, r, readings.tail) := by
  unfold mqttMessageReceive
  simp only
  rw [if_pos hzero, hzero]

theorem mqttMessageReceive_of_pos {r : Receiver size} (hpos : 0 < r.inBufferReadLen)
    (readings : List Reading) :
    mqttMessageReceive r readings = readHeader { r with messageLength := 0 } readings :=
  if_neg (Nat.ne_of_gt hpos)

/-- No length byte is read behind the sixth byte of a message. -/
theorem mqttMessageReceive_of_six {r : Receiver size} (hsix : 6 ≤ r.inBufferReadLen)
    (readings : List Reading) :
    mqttMessageReceive r readings = readBody { r with messageLength := 0 } readings := by
  have hloop : ¬ (r.inBufferReadLen = 1 ∨
      ({ r with messageLength := 0 } : Receiver size).continues = true) := by
    rintro (hone | hcontinues)
    · omega
    · exact absurd (decide_eq_true_iff.mp hcontinues).1 (Nat.not_lt.mpr hsix)
  rw [mqttMessageReceive_of_pos (by omega), readHeader, if_neg hloop]

theorem mqttHasValidMsgHdr_congr {a b : List UInt8} (h : byteAt a 0 = byteAt b 0) :
    mqttHasValidMsgHdr a = mqttHasValidMsgHdr b := by
  unfold mqttHasValidMsgHdr mqttGetQos mqttGetDup
  rw [mqttGetType_congr h, h]

/-- The first byte of every message is valid. -/
theorem mqttHasValidMsgHdr_packet (m : Message) : mqttHasValidMsgHdr m.packet.encode = true := by
  have hpublish : ∀ dup retain : Bool, ∀ qos : Fin 3, (qos = 0 → dup = false) →
      mqttHasValidMsgHdr [ControlPacket.publishFirst dup retain qos] = true := by
    decide
  have hack : ∀ type : AckType, mqttHasValidMsgHdr [type.first] = true := by
    intro type
    cases type <;> decide
  have hfirst : byteAt m.packet.encode 0 = byteAt [m.packet.first] 0 := rfl
  rw [mqttHasValidMsgHdr_congr hfirst]
  cases m with
  | publish p =>
    exact hpublish p.dup p.retain ⟨p.qos, p.qos_lt⟩ fun hzero =>
      p.dup_of_qos (congrArg Fin.val hzero)
  | connack sessionPresent code => exact (by decide : mqttHasValidMsgHdr [0x20] = true)
  | ack type id => exact hack type
  | suback id codes h => exact (by decide : mqttHasValidMsgHdr [0x90] = true)
  | pingresp => decide

/-- A call that begins in front of or within a packet reads on in it, and hands it on when it is
there. -/
theorem Within.mqttMessageReceive (h : Within m.packet more r) (hsize : 10 ≤ size)
    (hm : Taken size m) (hlt : r.inBufferReadLen < extent m.packet size)
    (hover : ¬ Overruns r) (readings : List Reading) :
    ∃ result, mqttMessageReceive r readings = some result ∧
      Outcome m.packet more readings result := by
  have hfixed := m.packet.fixed_bounds
  have hlength := m.packet.length_encode
  have hzero := h.setMessageLength 0
  by_cases hfirst : r.inBufferReadLen = 0
  · obtain ⟨n, r', hr', hresult⟩ := hzero.read 1 (readings.headD .timeout)
      (show r.inBufferReadLen + 1 ≤ _ by omega)
    rw [mqttMessageReceive_of_zero hfirst, hr', Option.bind_some]
    simp only
    rcases hresult with ⟨hle, rfl, hfailure⟩ | ⟨hpos, hn, hreadLen, _, hwithin⟩
    · rw [if_pos hle]
      exact ⟨_, rfl, hzero.away hlt hfailure false _⟩
    · obtain rfl : n = 1 := by omega
      have hone : (r'.advance 1).inBufferReadLen = 1 := by
        change r'.inBufferReadLen = r.inBufferReadLen at hreadLen
        change r'.inBufferReadLen + 1 = 1
        omega
      have hbyte : byteAt r'.inBuffer 0 = byteAt m.packet.encode 0 :=
        hwithin.byteAt_eq (by omega)
      have hvalid : mqttHasValidMsgHdr r'.inBuffer = true := by
        rw [mqttHasValidMsgHdr_congr hbyte, mqttHasValidMsgHdr_packet m]
      rw [if_neg (Int.not_le.mpr hpos), if_pos hvalid]
      obtain ⟨result, hresult, houtcome⟩ := hwithin.readHeader hsize hm (by omega)
        (by unfold extent; omega) (fun hover => absurd hover.1.1 (by omega)) readings.tail
      exact ⟨result, hresult, houtcome.of_tail⟩
  · rw [mqttMessageReceive_of_pos (Nat.pos_of_ne_zero hfirst)]
    exact hzero.readHeader hsize hm (Nat.pos_of_ne_zero hfirst) hlt hover readings

end Header

end IndustrialIot.Edge.Mqtt
