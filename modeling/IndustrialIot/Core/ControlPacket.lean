import IndustrialIot.Core.PublishPacket

/-!
# Control packets of MQTT 3.1.1

A control packet is a first byte with its type and flags, the remaining length as a varint
of at most four bytes, and a body of that length. Packets follow each other on a connection
without a mark between them, so a reader finds the next one only by the lengths.
-/

namespace IndustrialIot.ControlPacket

open PublishPacket (beBytes)

/-- A packet by its parts. -/
structure Packet where
  first : UInt8
  body : List UInt8
  body_lt : body.length < 128 ^ 4
  deriving DecidableEq

/-- The bytes of the remaining length. -/
def Packet.lens (p : Packet) : List UInt8 := Varint.encode p.body.length

/-- The bytes of a packet. -/
def Packet.encode (p : Packet) : List UInt8 := p.first :: p.lens ++ p.body

/-- The number of bytes in front of the body. -/
def Packet.fixed (p : Packet) : Nat := 1 + p.lens.length

/-- The bytes of packets that follow each other. -/
def encodeAll (ps : List Packet) : List UInt8 := ps.flatMap Packet.encode

@[simp] theorem encodeAll_nil : encodeAll [] = [] := rfl

@[simp] theorem encodeAll_cons (p : Packet) (ps : List Packet) :
    encodeAll (p :: ps) = p.encode ++ encodeAll ps := rfl

@[simp] theorem encodeAll_append (ps qs : List Packet) :
    encodeAll (ps ++ qs) = encodeAll ps ++ encodeAll qs := List.flatMap_append

theorem Packet.length_encode (p : Packet) : p.encode.length = p.fixed + p.body.length := by
  simp only [Packet.encode, Packet.fixed, List.cons_append, List.length_cons, List.length_append]
  omega

theorem Packet.fixed_bounds (p : Packet) : 2 ≤ p.fixed ∧ p.fixed ≤ 5 := by
  have hpos : 0 < p.lens.length := List.length_pos_iff.mpr (Varint.encode_ne_nil _)
  have hle : p.lens.length ≤ 4 := Varint.length_encode_le p.body_lt
  unfold Packet.fixed
  omega

theorem Packet.encode_ne_nil (p : Packet) : p.encode ≠ [] := List.cons_ne_nil _ _

/-- Read the packet that a byte string begins with, and what follows it. -/
def next : List UInt8 → Option (Packet × List UInt8)
  | [] => none
  | first :: rest => (Varint.decode 4 rest).bind fun (n, rest) =>
    if h : n ≤ rest.length ∧ n < 128 ^ 4 then
      some (⟨first, rest.take n, (List.length_take_le _ _).trans_lt h.2⟩, rest.drop n)
    else none

/-- A packet is read back, whatever follows it. -/
theorem next_encode (p : Packet) (rest : List UInt8) :
    next (p.encode ++ rest) = some (p, rest) := by
  have hdecode := Varint.decode_encode (p.body ++ rest) p.body_lt
  have hfits : p.body.length ≤ (p.body ++ rest).length ∧ p.body.length < 128 ^ 4 := by
    rw [List.length_append]
    exact ⟨Nat.le_add_right _ _, p.body_lt⟩
  simp only [Packet.encode, Packet.lens, List.cons_append, List.append_assoc, next, hdecode,
    Option.bind_some, dif_pos hfits, List.take_left, List.drop_left]

/-! ## What a server sends -/

/-- A PUBLISH of any quality of service. -/
structure Publish where
  dup : Bool
  retain : Bool
  qos : Nat
  topic : List UInt8
  /-- Sent only where the quality of service asks for an answer. -/
  id : UInt16
  payload : List UInt8
  qos_lt : qos < 3
  dup_of_qos : qos = 0 → dup = false
  topic_ne_nil : topic ≠ []
  topic_lt : topic.length < 2 ^ 16
  body_lt : topic.length + 4 + payload.length < 128 ^ 4

/-- The identifier bytes of a PUBLISH. -/
def Publish.idBytes (p : Publish) : List UInt8 :=
  if 0 < p.qos then beBytes p.id.toNat else []

/-- The body up to the payload. -/
def Publish.variable (p : Publish) : List UInt8 := beBytes p.topic.length ++ p.topic ++ p.idBytes

theorem Publish.length_idBytes (p : Publish) :
    p.idBytes.length = if 0 < p.qos then 2 else 0 := by
  unfold Publish.idBytes
  split <;> rfl

theorem Publish.length_variable (p : Publish) :
    p.variable.length = 2 + p.topic.length + if 0 < p.qos then 2 else 0 := by
  simp only [Publish.variable, List.length_append, p.length_idBytes, beBytes, List.length_cons,
    List.length_nil]

/-- The first byte of a PUBLISH. -/
def publishFirst (dup retain : Bool) (qos : Nat) : UInt8 :=
  UInt8.ofNat (0x30 + (if dup then 8 else 0) + 2 * qos + if retain then 1 else 0)

/-- The packet of a PUBLISH. -/
def Publish.packet (p : Publish) : Packet where
  first := publishFirst p.dup p.retain p.qos
  body := p.variable ++ p.payload
  body_lt := by
    have hbody := p.body_lt
    rw [List.length_append, p.length_variable]
    split <;> omega

/-- Everything in front of the payload. -/
def Publish.header (p : Publish) : List UInt8 := p.packet.first :: p.packet.lens ++ p.variable

theorem Publish.encode_packet (p : Publish) : p.packet.encode = p.header ++ p.payload := by
  simp [Packet.encode, Publish.header, Publish.packet]

theorem Publish.length_packet (p : Publish) :
    p.packet.encode.length = p.header.length + p.payload.length := by
  rw [p.encode_packet, List.length_append]

theorem Publish.length_header (p : Publish) :
    p.header.length = p.packet.fixed + 2 + p.topic.length + if 0 < p.qos then 2 else 0 := by
  simp only [Publish.header, List.cons_append, List.length_cons, List.length_append,
    p.length_variable, Packet.fixed]
  omega

/-- The packets whose body is an identifier. -/
inductive AckType where
  | puback
  | pubrec
  | pubrel
  | pubcomp
  | unsuback
  deriving DecidableEq

/-- The first byte of such a packet. -/
def AckType.first : AckType → UInt8
  | .puback => 0x40
  | .pubrec => 0x50
  | .pubrel => 0x62
  | .pubcomp => 0x70
  | .unsuback => 0xB0

/-- What a server sends. -/
inductive Message where
  | connack (sessionPresent : Bool) (code : UInt8)
  | publish (p : Publish)
  | ack (type : AckType) (id : UInt16)
  | suback (id : UInt16) (codes : List UInt8) (h : codes.length + 2 < 128 ^ 4)
  | pingresp

/-- The packet of a message. -/
def Message.packet : Message → Packet
  | .connack sessionPresent code =>
    ⟨0x20, [if sessionPresent then 1 else 0, code], by
      change 2 < 128 ^ 4
      decide⟩
  | .publish p => p.packet
  | .ack type id => ⟨type.first, beBytes id.toNat, by
      change 2 < 128 ^ 4
      decide⟩
  | .suback id codes h => ⟨0x90, beBytes id.toNat ++ codes, by
      rw [List.length_append, Nat.add_comm]
      exact h⟩
  | .pingresp => ⟨0xD0, [], by decide⟩

/-! ## Streams of packets -/

/-- What is read does not depend on what follows it. -/
theorem next_append {bytes rest : List UInt8} {p : Packet} (h : next bytes = some (p, rest))
    (more : List UInt8) : next (bytes ++ more) = some (p, rest ++ more) := by
  cases bytes with
  | nil => cases h
  | cons first bytes =>
    rw [next] at h
    obtain ⟨⟨n, body⟩, hdecode, h⟩ := Option.bind_eq_some_iff.mp h
    by_cases hfits : n ≤ body.length ∧ n < 128 ^ 4
    · simp only [dif_pos hfits] at h
      cases h
      have hmore : n ≤ (body ++ more).length ∧ n < 128 ^ 4 := by
        rw [List.length_append]
        exact ⟨Nat.le_add_right_of_le hfits.1, hfits.2⟩
      simp only [List.cons_append, next, Varint.decode_append hdecode more, Option.bind_some,
        dif_pos hmore, List.take_append_of_le_length hfits.1,
        List.drop_append_of_le_length hfits.1]
    · simp only [dif_neg hfits] at h
      cases h

/-- As many packets as asked for, as far as they have arrived. -/
def readUpTo : Nat → List UInt8 → List Packet
  | 0, _ => []
  | k + 1, bytes =>
    match next bytes with
    | none => []
    | some (p, rest) => p :: readUpTo k rest

/-- The packets that have arrived whole. -/
def packets (bytes : List UInt8) : List Packet := readUpTo bytes.length bytes

theorem readUpTo_prefix (k : Nat) {bytes more : List UInt8} {ps : List Packet}
    (h : bytes ++ more = encodeAll ps) : readUpTo k bytes <+: ps := by
  induction k generalizing bytes ps with
  | zero => exact List.nil_prefix
  | succ k ih =>
    rw [readUpTo]
    cases hnext : next bytes with
    | none => exact List.nil_prefix
    | some found =>
      obtain ⟨q, rest⟩ := found
      have hread := next_append hnext more
      rw [h] at hread
      cases ps with
      | nil => cases hread
      | cons p ps =>
        rw [encodeAll_cons, next_encode] at hread
        obtain ⟨rfl, hrest⟩ := Prod.mk.inj (Option.some.inj hread)
        exact (List.prefix_cons_inj p).mpr (ih hrest.symm)

/-- Of a stream that is cut off somewhere, the first packets arrive. -/
theorem packets_prefix {bytes : List UInt8} {ps : List Packet} (h : bytes <+: encodeAll ps) :
    packets bytes <+: ps := by
  obtain ⟨more, hmore⟩ := h
  exact readUpTo_prefix _ hmore

theorem readUpTo_append {k k' : Nat} (hk : k ≤ k') (bytes more : List UInt8) :
    readUpTo k bytes <+: readUpTo k' (bytes ++ more) := by
  induction k generalizing k' bytes with
  | zero => exact List.nil_prefix
  | succ k ih =>
    obtain ⟨k', rfl⟩ := Nat.exists_eq_succ_of_ne_zero (Nat.ne_of_gt (Nat.lt_of_lt_of_le
      (Nat.succ_pos _) hk))
    rw [readUpTo, readUpTo]
    cases hnext : next bytes with
    | none => exact List.nil_prefix
    | some found =>
      obtain ⟨p, rest⟩ := found
      rw [next_append hnext more]
      exact (List.prefix_cons_inj p).mpr (ih (Nat.le_of_succ_le_succ hk) rest)

/-- What has arrived stays what it is when more arrives. -/
theorem packets_mono {bytes bytes' : List UInt8} (h : bytes <+: bytes') :
    packets bytes <+: packets bytes' := by
  obtain ⟨more, rfl⟩ := h
  exact readUpTo_append (by rw [List.length_append]; exact Nat.le_add_right ..) bytes more

theorem readUpTo_encodeAll {k : Nat} {ps : List Packet} (h : ps.length ≤ k) :
    readUpTo k (encodeAll ps) = ps := by
  induction ps generalizing k with
  | nil => cases k <;> rfl
  | cons p ps ih =>
    obtain ⟨k, rfl⟩ := Nat.exists_eq_succ_of_ne_zero (Nat.ne_of_gt (Nat.lt_of_lt_of_le
      (Nat.succ_pos _) h))
    rw [encodeAll_cons, readUpTo, next_encode]
    simp only
    rw [ih (Nat.le_of_succ_le_succ h)]

theorem length_le_length_encodeAll (ps : List Packet) : ps.length ≤ (encodeAll ps).length := by
  induction ps with
  | nil => exact Nat.le_refl _
  | cons p ps ih =>
    have hpos : 0 < p.encode.length := List.length_pos_iff.mpr p.encode_ne_nil
    rw [encodeAll_cons, List.length_append, List.length_cons]
    omega

/-- Of a whole stream all packets arrive. -/
@[simp] theorem packets_encodeAll (ps : List Packet) : packets (encodeAll ps) = ps :=
  readUpTo_encodeAll (length_le_length_encodeAll ps)

end IndustrialIot.ControlPacket
