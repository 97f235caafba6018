import IndustrialIot.Core.ControlPacket
import IndustrialIot.Edge.Mqtt.Message

/-!
# Reading received packets

The readers of `mqtt_msg.c` look at a buffer and a number of bytes that were read into it.
Each of them walks over the length bytes again. What they return for a pointer is here the
bytes behind it.
-/

namespace IndustrialIot.Edge.Mqtt

open ControlPacket (Packet Publish Message)
open PublishPacket (beBytes)

/-- `buffer[i]` -/
def byteAt (buffer : List UInt8) (i : Nat) : Nat := (buffer.getD i 0).toNat

/-- The loop over the length bytes of a fixed header, `buffer[i]` being the first of the given
bytes: the sum of their groups, and the index behind them. -/
def lengthBytes : List UInt8 → Nat → Nat → Nat × Nat
  | [], i, totlen => (totlen, i)
  | byte :: bytes, i, totlen =>
    let totlen := totlen + (byte.toNat &&& 0x7f) <<< (7 * (i - 1))
    if byte.toNat &&& 0x80 = 0 then (totlen, i + 1) else lengthBytes bytes (i + 1) totlen

/-- The loop on the first `length` bytes of a buffer. -/
def fixedHeader (buffer : List UInt8) (length : Nat) : Nat × Nat :=
  lengthBytes ((buffer.take length).drop 1) 1 0

/-- `mqtt_get_total_length` and its `fixed_size_len` -/
def mqttGetTotalLength (buffer : List UInt8) (length : Nat) : Nat × Nat :=
  let (totlen, i) := fixedHeader buffer length
  ((totlen + i) % 2 ^ 32, i)

/-- `mqtt_get_dup` -/
def mqttGetDup (buffer : List UInt8) : Nat := (byteAt buffer 0 &&& 0x08) >>> 3

/-- `mqtt_get_qos` -/
def mqttGetQos (buffer : List UInt8) : Nat := (byteAt buffer 0 &&& 0x06) >>> 1

/-- `mqtt_get_retain` -/
def mqttGetRetain (buffer : List UInt8) : Nat := byteAt buffer 0 &&& 0x01

/-- Two bytes, the most significant one first. -/
def wordAt (buffer : List UInt8) (i : Nat) : Nat :=
  byteAt buffer i <<< 8 ||| byteAt buffer (i + 1)

/-- `mqtt_get_publish_topic` -/
def mqttGetPublishTopic (buffer : List UInt8) (length : Nat) : Option (List UInt8) :=
  let i := (fixedHeader buffer length).2
  if length ≤ i + 2 then none
  else
    let topiclen := wordAt buffer i
    let i := i + 2
    if length < i + topiclen then none else some ((buffer.drop i).take topiclen)

/-- `mqtt_get_publish_data`. Where it returns no pointer the length is 0. -/
def mqttGetPublishData (buffer : List UInt8) (blength : Nat) : Option (List UInt8) :=
  let (totlen, i) := fixedHeader buffer blength
  let totlen := (UInt32.ofNat (totlen + i)).toInt32.toInt
  if blength ≤ i + 2 then none
  else
    let topiclen := wordAt buffer i
    let i := i + 2
    if blength ≤ i + topiclen then none
    else
      let i := i + topiclen
      if 0 < mqttGetQos buffer ∧ blength ≤ i + 2 then none
      else
        let i := if 0 < mqttGetQos buffer then i + 2 else i
        if totlen < i then none
        else if totlen ≤ blength then some ((buffer.drop i).take (totlen.toNat - i))
        else some ((buffer.drop i).take (blength - i))

/-- `mqtt_get_suback_data` -/
def mqttGetSubackData (buffer : List UInt8) (length : Nat) : Option (List UInt8) :=
  if 4 < length then some ((buffer.drop 4).take (length - 4)) else none

/-- Two bytes, where the buffer has them. -/
def readWord (buffer : List UInt8) (i : Nat) : Option Nat :=
  if i + 2 ≤ buffer.length then some (wordAt buffer i) else none

/-- The part of `mqtt_get_id` for PUBLISH. -/
def publishId (buffer : List UInt8) (length : Nat) : Option UInt16 :=
  -- The loop over the length bytes would go on behind the buffer.
  if buffer.length < length ∧ (buffer.drop 1).all (fun byte => byte.toNat &&& 0x80 != 0) then none
  else
    let i := (fixedHeader buffer length).2
    if length ≤ i + 2 then some 0
    else (readWord buffer i).bind fun topiclen =>
      let i := i + 2
      if length < i + topiclen then some 0
      else
        let i := i + topiclen
        if 0 < mqttGetQos buffer ∧ i + 2 ≤ length then (readWord buffer i).map UInt16.ofNat
        else some 0

/-- `mqtt_get_id`, which looks at no more than `length` bytes; these can be more than the buffer
has, and a read behind it has no result. The types that carry an identifier are PUBLISH (3) and
those from PUBACK (4) to UNSUBACK (11). -/
def mqttGetId (buffer : List UInt8) (length : Nat) : Option UInt16 :=
  if length < 1 then some 0
  else if mqttGetType buffer = 3 then publishId buffer length
  else if 4 ≤ mqttGetType buffer ∧ mqttGetType buffer ≤ 11 then
    if 4 ≤ length ∧ byteAt buffer 1 &&& 0x80 = 0 then (readWord buffer 2).map UInt16.ofNat
    else some 0
  else some 0

/-- `mqtt_has_valid_msg_hdr`, for a buffer that holds the first byte. -/
def mqttHasValidMsgHdr (buffer : List UInt8) : Bool :=
  match mqttGetType buffer with
  | 1 | 2 | 4 | 5 | 7 | 9 | 11 | 12 | 13 | 14 => byteAt buffer 0 &&& 0x0f == 0
  | 6 | 8 | 10 => byteAt buffer 0 &&& 0x0f == 0x02
  | 3 => decide (mqttGetQos buffer < 3 ∧ (0 < mqttGetQos buffer ∨ mqttGetDup buffer = 0))
  | _ => false

/-! ## What the readers find in a packet -/

/-- The continuation bit of a length byte, and its group. -/
theorem and_groups (b : UInt8) :
    (b.toNat &&& 0x80 = 0 ↔ b.toNat < 128) ∧ b.toNat &&& 0x7f = b.toNat % 128 := by
  have hall : ∀ b : Fin 256, (b.val &&& 0x80 = 0 ↔ b.val < 128) ∧ b.val &&& 0x7f = b.val % 128 := by
    decide +kernel
  exact hall ⟨b.toNat, b.toNat_lt⟩

/-- The loop reads the length bytes that a number is written with. -/
theorem lengthBytes_encode {n i : Nat} (hi : 1 ≤ i) (totlen : Nat) (rest : List UInt8) :
    lengthBytes (Varint.encode n ++ rest) i totlen =
      (totlen + n <<< (7 * (i - 1)), i + (Varint.encode n).length) := by
  induction n using Nat.strongRecOn generalizing i totlen with
  | ind n ih =>
    by_cases hn : n < 128
    · have hbyte : (UInt8.ofNat n).toNat = n := by
        rw [UInt8.toNat_ofNat']
        omega
      obtain ⟨hlast, hgroup⟩ := and_groups (UInt8.ofNat n)
      rw [hbyte] at hlast hgroup
      rw [Varint.encode_of_lt hn, List.cons_append, lengthBytes, hbyte, hgroup,
        if_pos (hlast.mpr hn), Nat.mod_eq_of_lt hn]
      rfl
    · have hbyte : (UInt8.ofNat (n % 128 + 128)).toNat = n % 128 + 128 := by
        rw [UInt8.toNat_ofNat']
        omega
      obtain ⟨hlast, hgroup⟩ := and_groups (UInt8.ofNat (n % 128 + 128))
      rw [hbyte] at hlast hgroup
      have hrest := ih (n / 128) (Nat.div_lt_self (by omega) (by decide)) (i := i + 1) (by omega)
        (totlen + (n % 128) <<< (7 * (i - 1)))
      rw [Varint.encode_of_le (Nat.not_lt.mp hn), List.cons_append, lengthBytes, hbyte, hgroup,
        if_neg (fun h => absurd (hlast.mp h) (by omega)), Nat.add_mod_right,
        Nat.mod_eq_of_lt (Nat.mod_lt n (by decide)), hrest, List.length_cons, Prod.mk.injEq]
      refine ⟨?_, by omega⟩
      obtain ⟨k, rfl⟩ := Nat.exists_eq_add_of_le' hi
      have hsplit : n = n % 128 + 128 * (n / 128) := by omega
      simp only [Nat.add_sub_cancel, Nat.shiftLeft_eq, Nat.mul_add, Nat.pow_add]
      conv_rhs => rw [hsplit]
      ring

/-- The loop goes through bytes that each say that another follows. -/
theorem lengthBytes_open {bytes : List UInt8} (h : ∀ byte ∈ bytes, byte.toNat &&& 0x80 ≠ 0)
    (i totlen : Nat) : (lengthBytes bytes i totlen).2 = i + bytes.length := by
  induction bytes generalizing i totlen with
  | nil => rfl
  | cons byte bytes ih =>
    obtain ⟨hbyte, hbytes⟩ := List.forall_mem_cons.mp h
    rw [lengthBytes, if_neg hbyte, ih hbytes, List.length_cons]
    omega

theorem fixedHeader_eq (p : Packet) (tail : List UInt8) {buffer : List UInt8} {length : Nat}
    (hbuffer : buffer = p.first :: p.lens ++ tail) (hlength : p.fixed ≤ length) :
    fixedHeader buffer length = (p.body.length, p.fixed) := by
  obtain ⟨k, rfl⟩ := Nat.exists_eq_add_of_le hlength
  have htake : (buffer.take (p.fixed + k)).drop 1 = p.lens ++ tail.take k := by
    rw [hbuffer, Packet.fixed, Nat.add_assoc, Nat.add_comm 1, List.cons_append,
      List.take_succ_cons, List.drop_one, List.tail_cons, List.take_length_add_append]
  rw [fixedHeader, htake, Packet.lens, lengthBytes_encode (Nat.le_refl 1), Packet.fixed,
    Packet.lens, Nat.zero_add]
  simp

theorem byteAt_append (xs ys : List UInt8) (k : Nat) :
    byteAt (xs ++ ys) (xs.length + k) = byteAt ys k := by
  rw [byteAt, byteAt, List.getD_eq_getElem?_getD, List.getD_eq_getElem?_getD,
    List.getElem?_append_right (Nat.le_add_right _ _), Nat.add_sub_cancel_left]

theorem wordAt_beBytes {n : Nat} (h : n < 2 ^ 16) (xs ys : List UInt8) :
    wordAt (xs ++ (beBytes n ++ ys)) xs.length = n := by
  have hhigh : byteAt (xs ++ (beBytes n ++ ys)) xs.length = n / 256 := by
    have hbyte := byteAt_append xs (beBytes n ++ ys) 0
    rw [Nat.add_zero] at hbyte
    rw [hbyte]
    simp only [byteAt, beBytes, List.cons_append, List.getD_cons_zero, UInt8.toNat_ofNat']
    omega
  have hlow : byteAt (xs ++ (beBytes n ++ ys)) (xs.length + 1) = n % 256 := by
    rw [byteAt_append]
    simp only [byteAt, beBytes, List.cons_append, List.getD_cons_succ, List.getD_cons_zero,
      UInt8.toNat_ofNat']
  rw [wordAt, hhigh, hlow, ← Nat.shiftLeft_add_eq_or_of_lt (Nat.mod_lt n (by decide)),
    Nat.shiftLeft_eq]
  omega

/-- What the first byte of a PUBLISH says. -/
theorem publishFirst_flags (p : Publish) (tail : List UInt8) :
    (mqttGetType (p.packet.first :: tail) = 3 ∧ mqttGetQos (p.packet.first :: tail) = p.qos) ∧
      mqttGetDup (p.packet.first :: tail) = p.dup.toNat ∧
      mqttGetRetain (p.packet.first :: tail) = p.retain.toNat := by
  have hall : ∀ dup retain : Bool, ∀ qos : Fin 3,
      (mqttGetType [ControlPacket.publishFirst dup retain qos] = 3 ∧
        mqttGetQos [ControlPacket.publishFirst dup retain qos] = qos) ∧
      mqttGetDup [ControlPacket.publishFirst dup retain qos] = dup.toNat ∧
      mqttGetRetain [ControlPacket.publishFirst dup retain qos] = retain.toNat := by
    decide
  exact hall p.dup p.retain ⟨p.qos, p.qos_lt⟩

section Publish

variable {p : Publish} {tail : List UInt8} {length : Nat}

/-- The loop stops in front of the topic. -/
theorem fixedHeader_header (h : p.header.length ≤ length) :
    fixedHeader (p.header ++ tail) length = (p.packet.body.length, p.packet.fixed) := by
  have hle := p.length_header
  apply fixedHeader_eq p.packet (p.variable ++ tail)
  · simp [Publish.header]
  · omega

theorem wordAt_topic : wordAt (p.header ++ tail) p.packet.fixed = p.topic.length := by
  have hword := wordAt_beBytes p.topic_lt (p.packet.first :: p.packet.lens)
    (p.topic ++ p.idBytes ++ tail)
  rw [List.length_cons, Nat.add_comm] at hword
  simpa [Publish.header, Publish.variable, Packet.fixed] using hword

theorem drop_topic :
    (p.header ++ tail).drop (p.packet.fixed + 2) = p.topic ++ (p.idBytes ++ tail) := by
  have hsplit : p.header ++ tail =
      (p.packet.first :: p.packet.lens ++ beBytes p.topic.length) ++
        (p.topic ++ (p.idBytes ++ tail)) := by
    simp [Publish.header, Publish.variable]
  have hlength : (p.packet.first :: p.packet.lens ++ beBytes p.topic.length).length =
      p.packet.fixed + 2 := by
    simp only [List.cons_append, List.length_cons, List.length_append, beBytes, List.length_nil,
      Packet.fixed]
    omega
  rw [hsplit, ← hlength, List.drop_left]

/-- The topic is found. -/
theorem mqttGetPublishTopic_header (h : p.header.length ≤ length) :
    mqttGetPublishTopic (p.header ++ tail) length = some p.topic := by
  have hlength := p.length_header
  have htopic : 0 < p.topic.length := List.length_pos_iff.mpr p.topic_ne_nil
  unfold mqttGetPublishTopic
  simp only [fixedHeader_header h, wordAt_topic, drop_topic]
  rw [if_neg (by omega), if_neg (by omega), List.take_left]

/-- The data are what stands behind the header, up to the end of the packet or of what was
read. -/
theorem mqttGetPublishData_header (h : p.header.length ≤ length) :
    (mqttGetPublishData (p.header ++ tail) length).getD [] =
      tail.take (min p.packet.encode.length length - p.header.length) := by
  have hheader := p.length_header
  have htopic : 0 < p.topic.length := List.length_pos_iff.mpr p.topic_ne_nil
  have htotal : p.packet.encode.length = p.packet.body.length + p.packet.fixed := by
    rw [Packet.length_encode, Nat.add_comm]
  have hpacket := p.length_packet
  have hint : (UInt32.ofNat (p.packet.body.length + p.packet.fixed)).toInt32.toInt =
      (p.packet.encode.length : Int) := by
    have hfixed := p.packet.fixed_bounds
    have hlt := p.packet.body_lt
    rw [UInt32.toInt32_ofNat', Int32.toInt_ofNat_of_lt (by omega), htotal]
  have hqos : mqttGetQos (p.header ++ tail) = p.qos := (publishFirst_flags p _).1.2
  have hindex : (if 0 < p.qos then p.packet.fixed + 2 + p.topic.length + 2
      else p.packet.fixed + 2 + p.topic.length) = p.header.length := by
    rw [hheader]
    split <;> rfl
  unfold mqttGetPublishData
  simp only [fixedHeader_header h, hint, wordAt_topic, hqos, hindex, List.drop_left]
  split_ifs with hshort htopiconly hidonly hnegative hwhole
  · omega
  · rw [show min p.packet.encode.length length - p.header.length = 0 by split at hheader <;> omega]
    rfl
  · rw [if_pos hidonly.1] at hheader
    rw [show min p.packet.encode.length length - p.header.length = 0 by omega]
    rfl
  · omega
  · rw [Option.getD_some, Int.toNat_natCast, Nat.min_eq_left (by omega)]
  · rw [Option.getD_some, Nat.min_eq_right (by omega)]

/-- The loop over the length bytes of a PUBLISH ends in its buffer. -/
theorem not_open_header (p : Publish) (tail : List UInt8) :
    ¬ ((p.header ++ tail).drop 1).all (fun byte => byte.toNat &&& 0x80 != 0) = true := by
  intro hopen
  simp only [List.all_eq_true, bne_iff_ne] at hopen
  have hfixed : fixedHeader (p.header ++ tail) (p.header ++ tail).length = _ :=
    fixedHeader_header (by simp)
  have hlength := p.length_header
  rw [fixedHeader, List.take_length] at hfixed
  have hend := congrArg Prod.snd hfixed
  rw [lengthBytes_open hopen, List.length_drop, List.length_append] at hend
  simp only at hend
  omega

/-- The identifier is found, where the header is in the buffer. -/
theorem mqttGetId_header (h : p.header.length ≤ length) :
    mqttGetId (p.header ++ tail) length = some (if 0 < p.qos then p.id else 0) := by
  have hheader := p.length_header
  have htopic : 0 < p.topic.length := List.length_pos_iff.mpr p.topic_ne_nil
  have hbuffer : p.header.length ≤ (p.header ++ tail).length := by simp
  obtain ⟨htype, hqos⟩ := (publishFirst_flags p (p.packet.lens ++ p.variable ++ tail)).1
  have hcons : p.header ++ tail = p.packet.first :: (p.packet.lens ++ p.variable ++ tail) := by
    simp [Publish.header]
  rw [← hcons] at htype hqos
  unfold mqttGetId
  rw [if_neg (by omega), if_pos htype, publishId,
    if_neg fun hopen => not_open_header p tail hopen.2]
  simp only [fixedHeader_header h, hqos]
  rw [if_neg (by omega), readWord, if_pos (by omega), Option.bind_some, wordAt_topic,
    if_neg (by omega)]
  by_cases hpos : 0 < p.qos
  · rw [if_pos hpos] at hheader ⊢
    rw [if_pos ⟨hpos, by omega⟩, readWord, if_pos (by omega), Option.map_some]
    have hword := wordAt_beBytes p.id.toNat_lt
      (p.packet.first :: p.packet.lens ++ (beBytes p.topic.length ++ p.topic)) tail
    have hlength : (p.packet.first :: p.packet.lens ++ (beBytes p.topic.length ++
        p.topic)).length = p.packet.fixed + 2 + p.topic.length := by
      simp only [List.cons_append, List.length_cons, List.length_append, beBytes,
        List.length_nil, Packet.fixed]
      omega
    have hsplit : p.header ++ tail = p.packet.first :: p.packet.lens ++
        (beBytes p.topic.length ++ p.topic) ++ (beBytes p.id.toNat ++ tail) := by
      simp [Publish.header, Publish.variable, Publish.idBytes, hpos]
    rw [hlength, ← hsplit] at hword
    rw [hword, UInt16.ofNat_toNat]
  · rw [if_neg hpos, if_neg (fun hand => hpos hand.1)]

end Publish

/-- Nothing behind the buffer is looked at, where no more bytes are than it has. -/
theorem exists_mqttGetId {buffer : List UInt8} {length : Nat} (h : length ≤ buffer.length) :
    ∃ id, mqttGetId buffer length = some id := by
  unfold mqttGetId
  split
  · exact ⟨_, rfl⟩
  · split
    · rw [publishId, if_neg fun hopen => absurd hopen.1 (Nat.not_lt.mpr h)]
      simp only
      split
      · exact ⟨_, rfl⟩
      · rw [readWord, if_pos (by omega), Option.bind_some]
        split
        · exact ⟨_, rfl⟩
        · split
          · rename_i hid
            rw [readWord, if_pos (by omega)]
            exact ⟨_, rfl⟩
          · exact ⟨_, rfl⟩
    · split
      · split
        · rename_i hlong
          rw [readWord, if_pos (by omega)]
          exact ⟨_, rfl⟩
        · exact ⟨_, rfl⟩
      · exact ⟨_, rfl⟩

/-- The other messages have none. -/
theorem mqttGetId_other {buffer : List UInt8} {code : Nat} (htype : mqttGetType buffer = code)
    (hcode : code < 3 ∨ 11 < code) (length : Nat) : mqttGetId buffer length = some 0 := by
  unfold mqttGetId
  rw [htype, if_neg (show ¬ code = 3 by omega), if_neg (show ¬ (4 ≤ code ∧ code ≤ 11) by omega),
    ite_self]

/-- The identifier that a body begins with is found, if its length takes one byte. -/
theorem mqttGetId_identified {first : UInt8} {n length : Nat} (id : UInt16) (tail : List UInt8)
    (htype : 4 ≤ mqttGetType [first] ∧ mqttGetType [first] ≤ 11) (hn : n < 128)
    (h : 4 ≤ length) :
    mqttGetId (first :: Varint.encode n ++ (beBytes id.toNat ++ tail)) length = some id := by
  have hword := wordAt_beBytes id.toNat_lt [first, UInt8.ofNat n] tail
  have hbyte : (UInt8.ofNat n).toNat = n := by
    rw [UInt8.toNat_ofNat']
    omega
  have hshort : byteAt (first :: UInt8.ofNat n :: (beBytes id.toNat ++ tail)) 1 &&& 0x80 = 0 := by
    change (UInt8.ofNat n).toNat &&& 0x80 = 0
    rw [(and_groups _).1, hbyte]
    exact hn
  have hsame : mqttGetType (first :: UInt8.ofNat n :: (beBytes id.toNat ++ tail)) =
      mqttGetType [first] := rfl
  have hroom : 2 + 2 ≤ (first :: UInt8.ofNat n :: (beBytes id.toNat ++ tail)).length := by
    simp only [List.length_cons, List.length_append, beBytes]
    omega
  rw [Varint.encode_of_lt hn]
  unfold mqttGetId
  rw [if_neg (by omega)]
  simp only [List.cons_append, List.nil_append] at hword ⊢
  rw [if_neg (by omega), if_pos (by omega), if_pos ⟨h, hshort⟩, readWord, if_pos hroom,
    Option.map_some]
  exact congrArg some ((congrArg UInt16.ofNat hword).trans UInt16.ofNat_toNat)

end IndustrialIot.Edge.Mqtt
