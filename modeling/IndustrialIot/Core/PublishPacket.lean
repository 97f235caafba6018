import IndustrialIot.Core.Varint

/-!
# PUBLISH packets of MQTT 3.1.1

A QoS 1 PUBLISH is a first byte with the type and its flags, the remaining length as a
varint of at most four bytes, and a body of that length: the topic behind its own length,
the packet identifier and the payload. Topics are byte strings here.
-/

namespace IndustrialIot.PublishPacket

/-- What a QoS 1 PUBLISH says. -/
structure Packet where
  dup : Bool
  retain : Bool
  topic : List UInt8
  id : UInt16
  payload : List UInt8
  topic_ne_nil : topic ≠ []
  topic_lt : topic.length < 2 ^ 16
  id_ne_zero : id ≠ 0
  body_lt : topic.length + 4 + payload.length < 128 ^ 4
  deriving DecidableEq

/-! ## Writing -/

/-- The first byte. -/
def firstByte (dup retain : Bool) : UInt8 :=
  UInt8.ofNat (0x32 + (if dup then 8 else 0) + if retain then 1 else 0)

/-- Two bytes, the most significant one first. -/
def beBytes (n : Nat) : List UInt8 := [UInt8.ofNat (n / 256), UInt8.ofNat n]

/-- The topic behind its length, and the identifier. -/
def header (topic : List UInt8) (id : UInt16) : List UInt8 :=
  beBytes topic.length ++ topic ++ beBytes id.toNat

/-- The bytes of a packet. -/
def encode (p : Packet) : List UInt8 :=
  firstByte p.dup p.retain :: Varint.encode (p.topic.length + 4 + p.payload.length) ++
    (header p.topic p.id ++ p.payload)

/-! ## Reading -/

/-- Two bytes, the most significant one first, and what follows them. -/
def readBe : List UInt8 → Option (Nat × List UInt8)
  | high :: low :: rest => some (high.toNat * 256 + low.toNat, rest)
  | _ => none

/-- A byte string behind its length, and what follows it. -/
def readString (bytes : List UInt8) : Option (List UInt8 × List UInt8) :=
  (readBe bytes).bind fun (n, rest) =>
    if rest.length < n then none else some (rest.take n, rest.drop n)

/-- Read a body to its end. -/
def readBody (dup retain : Bool) (body : List UInt8) : Option Packet :=
  (readString body).bind fun (topic, rest) =>
    (readBe rest).bind fun (id, payload) =>
      if h : topic ≠ [] ∧ topic.length < 2 ^ 16 ∧ UInt16.ofNat id ≠ 0 ∧
          topic.length + 4 + payload.length < 128 ^ 4 then
        some ⟨dup, retain, topic, UInt16.ofNat id, payload, h.1, h.2.1, h.2.2.1, h.2.2.2⟩
      else none

/-- Read a packet: the type is PUBLISH, the QoS is 1, and the remaining length is that of
what remains. -/
def decode : List UInt8 → Option Packet
  | [] => none
  | first :: rest =>
    if first.toNat / 16 = 3 ∧ first.toNat / 2 % 4 = 1 then
      (Varint.decode 4 rest).bind fun (n, body) =>
        if body.length = n then
          readBody (decide (first.toNat / 8 % 2 = 1)) (decide (first.toNat % 2 = 1)) body
        else none
    else none

/-! ## Round trip -/

theorem length_header (topic : List UInt8) (id : UInt16) :
    (header topic id).length = topic.length + 4 := by
  simp only [header, beBytes, List.length_append, List.length_cons, List.length_nil]
  omega

theorem readBe_beBytes {n : Nat} (h : n < 2 ^ 16) (rest : List UInt8) :
    readBe (beBytes n ++ rest) = some (n, rest) := by
  simp only [beBytes, List.cons_append, List.nil_append, readBe, UInt8.toNat_ofNat',
    Option.some.injEq, Prod.mk.injEq, and_true]
  omega

theorem readString_beBytes {string : List UInt8} (h : string.length < 2 ^ 16)
    (rest : List UInt8) :
    readString (beBytes string.length ++ string ++ rest) = some (string, rest) := by
  have hlong : ¬ (string ++ rest).length < string.length := by
    rw [List.length_append]
    omega
  simp only [readString, List.append_assoc, readBe_beBytes h, Option.bind_some]
  rw [if_neg hlong, List.take_left, List.drop_left]

/-- A body is read back. -/
theorem readBody_header (p : Packet) :
    readBody p.dup p.retain (header p.topic p.id ++ p.payload) = some p := by
  have hid : UInt16.ofNat p.id.toNat = p.id := UInt16.ofNat_toNat
  have htopic := readString_beBytes p.topic_lt (beBytes p.id.toNat ++ p.payload)
  have hnumber := readBe_beBytes p.id.toNat_lt p.payload
  simp only [readBody, header, List.append_assoc] at htopic ⊢
  simp only [htopic, Option.bind_some, hnumber, hid]
  exact dif_pos ⟨p.topic_ne_nil, p.topic_lt, p.id_ne_zero, p.body_lt⟩

theorem firstByte_flags (dup retain : Bool) :
    ((firstByte dup retain).toNat / 16 = 3 ∧ (firstByte dup retain).toNat / 2 % 4 = 1) ∧
      decide ((firstByte dup retain).toNat / 8 % 2 = 1) = dup ∧
      decide ((firstByte dup retain).toNat % 2 = 1) = retain := by
  cases dup <;> cases retain <;> decide

/-- What stands behind a first byte is read by the remaining length it states. -/
theorem decode_firstByte {dup retain : Bool} {n : Nat} (hn : n < 128 ^ 4) (body : List UInt8) :
    decode (firstByte dup retain :: Varint.encode n ++ body) =
      if body.length = n then readBody dup retain body else none := by
  obtain ⟨htype, hdup, hretain⟩ := firstByte_flags dup retain
  rw [List.cons_append, decode, if_pos htype, Varint.decode_encode body hn, Option.bind_some,
    hdup, hretain]

/-- Every packet is read back from its bytes. -/
theorem decode_encode (p : Packet) : decode (encode p) = some p := by
  have hlength : (header p.topic p.id ++ p.payload).length =
      p.topic.length + 4 + p.payload.length := by
    rw [List.length_append, length_header]
  rw [encode, decode_firstByte p.body_lt, if_pos hlength, readBody_header]

/-- A remaining length that is not that of the body is refused. -/
theorem decode_of_length_ne (dup retain : Bool) {n : Nat} (hn : n < 128 ^ 4)
    {body : List UInt8} (h : body.length ≠ n) :
    decode (firstByte dup retain :: Varint.encode n ++ body) = none := by
  rw [decode_firstByte hn, if_neg h]

end IndustrialIot.PublishPacket
