import IndustrialIot.Edge.Nanopb
import IndustrialIot.Gateway.SensorData

/-!
# From the sensor to the gateway's record

`ProtobufSerializer::serialize_sensor_data` copies the id into a 32-byte member,
so at most 31 bytes of it survive, and leaves out every field whose stored bytes
are zero. What it produces is read back by the gateway unless the copy has cut a
character in two.
-/

namespace IndustrialIot.Edge

open Nanopb (PbField PbOstream pbEncode pbOstreamFromBuffer pbCheckProto3DefaultValue)
open Gateway (SensorData)

/-- `industrial_SensorData`, generated with `max_size:32` for the id. -/
structure SensorMessage where
  /-- `char device_id[32]` -/
  deviceId : List UInt8
  size : deviceId.length = 32
  temperature : UInt32
  humidity : UInt32
  uptimeMs : UInt32

/-- `industrial_SensorData_init_default` -/
def SensorMessage.initDefault : SensorMessage := ⟨List.replicate 32 0, rfl, 0, 0, 0⟩

/-- `snprintf(dst, sizeof(dst), "%s", s)`: the string up to its first NUL, cut to
leave room for the terminator. The bytes behind the terminator stay. -/
def snprintf (dst s : List UInt8) : List UInt8 :=
  let out := (s.takeWhile (· != 0)).take (dst.length - 1) ++ [0]
  out ++ dst.drop out.length

theorem length_snprintf {dst : List UInt8} (s : List UInt8) (h : dst ≠ []) :
    (snprintf dst s).length = dst.length := by
  have := List.length_pos_iff.mpr h
  simp only [snprintf, List.length_append, List.length_drop, List.length_take,
    List.length_cons, List.length_nil]
  omega

/-- The filled message. -/
def SensorMessage.fill (id : List UInt8) (temp hum uptime : UInt32) : SensorMessage where
  deviceId := snprintf initDefault.deviceId id
  size := length_snprintf id (by decide)
  temperature := temp
  humidity := hum
  uptimeMs := uptime

/-- The bytes of a 32-bit member. -/
def member32 (n : UInt32) : List UInt8 := Wire.leBytes 4 n.toNat

/-- `industrial_SensorData_fields` on a message. -/
def SensorMessage.fields (message : SensorMessage) : List PbField :=
  [⟨1, .string, message.deviceId⟩, ⟨2, .fixed32, member32 message.temperature⟩,
    ⟨3, .fixed32, member32 message.humidity⟩, ⟨4, .uvarint, member32 message.uptimeMs⟩]

/-- The call of `pb_encode` on the 128-byte buffer. -/
def encodeSensorData (id : List UInt8) (temp hum uptime : UInt32) : Except String PbOstream :=
  pbEncode (pbOstreamFromBuffer 128) (SensorMessage.fill id temp hum uptime).fields

/-- `ProtobufSerializer::serialize_sensor_data` -/
def serializeSensorData (id : List UInt8) (temp hum uptime : UInt32) : List UInt8 :=
  match encodeSensorData id temp hum uptime with
  | .ok stream => stream.written
  | .error _ => []

/-- What the message keeps of an id: its first 31 bytes up to a NUL. -/
def storedId (id : List UInt8) : List UInt8 := (id.takeWhile (· != 0)).take 31

/-! ## The fields on the wire -/

theorem fill_deviceId (id : List UInt8) (temp hum uptime : UInt32) :
    (SensorMessage.fill id temp hum uptime).deviceId =
      storedId id ++ 0 :: List.replicate (31 - (storedId id).length) 0 := by
  have hlen : (storedId id).length ≤ 31 := List.length_take_le ..
  simp only [SensorMessage.fill, snprintf, SensorMessage.initDefault, List.length_replicate,
    List.drop_replicate, storedId, List.length_append, List.length_cons, List.length_nil,
    List.append_assoc, List.singleton_append, Nat.reduceSub] at hlen ⊢
  congr 3
  omega

private theorem ne_zero_of_mem_storedId {id : List UInt8} {b : UInt8} (h : b ∈ storedId id) :
    (b != 0) = true := by
  have hall := List.all_takeWhile (p := (· != 0)) (l := id)
  exact List.all_eq_true.mp hall b (List.mem_of_mem_take h)

/-- The string member reads back as the stored id. -/
theorem takeWhile_deviceId (id : List UInt8) (temp hum uptime : UInt32) :
    (SensorMessage.fill id temp hum uptime).deviceId.takeWhile (· != 0) = storedId id := by
  rw [fill_deviceId, List.takeWhile_append_of_pos fun b => ne_zero_of_mem_storedId]
  simp

theorem leValue_member32 (n : UInt32) : Wire.leValue (member32 n) = n.toNat :=
  Wire.leValue_leBytes n.toNat_lt

theorem member32_all_zero (n : UInt32) : (member32 n).all (· == 0) = decide (n = 0) := by
  rw [Bool.eq_iff_iff, ← Wire.leValue_eq_zero, leValue_member32, decide_eq_true_iff,
    ← UInt32.toNat_inj]
  rfl

/-- The items of a record: each field unless its stored value is zero. -/
def sensorItems (d : List UInt8) (temp hum uptime : UInt32) : List Wire.Item :=
  (if d = [] then [] else [⟨1, .len d⟩]) ++
  (if temp = 0 then [] else [⟨2, .fixed32 temp.toNat⟩]) ++
  (if hum = 0 then [] else [⟨3, .fixed32 hum.toNat⟩]) ++
  (if uptime = 0 then [] else [⟨4, .varint uptime.toNat⟩])

/-- The descriptor fits the message type. -/
theorem fields_wellFormed (message : SensorMessage) (h : 0 ∈ message.deviceId) :
    ∀ field ∈ message.fields, field.WellFormed := by
  have hlen := message.size
  intro field hf
  simp only [SensorMessage.fields, List.mem_cons, List.not_mem_nil, or_false] at hf
  rcases hf with rfl | rfl | rfl | rfl
  · exact ⟨by simp, by simp, by simp [hlen], h⟩
  · exact ⟨by simp, by simp, by simp [member32], by simp [member32]⟩
  · exact ⟨by simp, by simp, by simp [member32], by simp [member32]⟩
  · exact ⟨by simp, by simp, by simp [member32],
      by simp [member32, Nanopb.integerSizes]⟩

/-- What the filled message contributes to the wire. -/
theorem items_fill (id : List UInt8) (temp hum uptime : UInt32) :
    (SensorMessage.fill id temp hum uptime).fields.flatMap PbField.items =
      sensorItems (storedId id) temp hum uptime := by
  have hhead : (SensorMessage.fill id temp hum uptime).deviceId.head? = some 0 ↔
      storedId id = [] := by
    rw [fill_deviceId]
    cases hs : storedId id with
    | nil => simp
    | cons b bs =>
      have hmem : b ∈ storedId id := hs ▸ List.mem_cons_self
      have : b ≠ 0 := by simpa using ne_zero_of_mem_storedId hmem
      simpa using this
  have hid := takeWhile_deviceId id temp hum uptime
  have hmembers : (SensorMessage.fill id temp hum uptime).temperature = temp ∧
      (SensorMessage.fill id temp hum uptime).humidity = hum ∧
      (SensorMessage.fill id temp hum uptime).uptimeMs = uptime := ⟨rfl, rfl, rfl⟩
  simp only [SensorMessage.fields, List.flatMap_cons, List.flatMap_nil, List.append_nil,
    PbField.items, pbCheckProto3DefaultValue, Nanopb.Ltype.packable, PbField.payload,
    member32_all_zero, leValue_member32, hid, hmembers, hhead, sensorItems, List.append_assoc,
    Bool.false_eq_true, ite_false, ite_true, decide_eq_true_eq, beq_iff_eq]

private theorem fill_wellFormed (id : List UInt8) (temp hum uptime : UInt32) :
    ∀ field ∈ (SensorMessage.fill id temp hum uptime).fields, field.WellFormed := by
  apply fields_wellFormed
  rw [fill_deviceId]
  simp

private theorem plain_sensorItems (id : List UInt8) (temp hum uptime : UInt32) :
    ∀ item ∈ sensorItems (storedId id) temp hum uptime, item.Plain := by
  intro item hi
  rw [← items_fill, List.mem_flatMap] at hi
  obtain ⟨field, hf, hi⟩ := hi
  exact Nanopb.plain_of_wellFormed (fill_wellFormed id temp hum uptime field hf) item hi

/-- The encoding of a record, field by field. -/
theorem length_sensorItems {d : List UInt8} (hd : d.length ≤ 31) (temp hum uptime : UInt32) :
    (Wire.encode (sensorItems d temp hum uptime)).length =
      (if d = [] then 0 else 2 + d.length) + (if temp = 0 then 0 else 5) +
      (if hum = 0 then 0 else 5) +
      (if uptime = 0 then 0 else 1 + (Varint.encode uptime.toNat).length) := by
  have htag : ∀ n, n < 128 → (Varint.encode n).length = 1 := fun n hn => by
    rw [Varint.encode_of_lt hn]
    rfl
  have hlen := htag d.length (by omega)
  simp only [sensorItems, Wire.encode, List.flatMap_append, List.length_append]
  congr 1
  congr 1
  congr 1
  all_goals
    split <;> simp [Wire.Item.encode, Wire.Payload.bytes, Wire.Payload.wireType, htag, hlen]
  omega

/-- The 128-byte buffer is large enough for every record. -/
theorem encodeSensorData_eq (id : List UInt8) (temp hum uptime : UInt32) :
    encodeSensorData id temp hum uptime =
      .ok ⟨Wire.encode (sensorItems (storedId id) temp hum uptime), 128⟩ := by
  have hd : (storedId id).length ≤ 31 := List.length_take_le ..
  have hu : (Varint.encode uptime.toNat).length ≤ 4 + 1 :=
    Varint.length_encode_le (by have := uptime.toNat_lt; omega)
  have hfit : (pbOstreamFromBuffer 128).Fits
      (Wire.encode (sensorItems (storedId id) temp hum uptime)) := by
    have hcap : (pbOstreamFromBuffer 128).maxSize.toNat = 128 := rfl
    rw [PbOstream.Fits, length_sensorItems hd, hcap]
    simp only [pbOstreamFromBuffer, List.length_nil]
    split <;> split <;> split <;> split <;> omega
  rw [← items_fill] at hfit ⊢
  exact Nanopb.pbEncode_eq (fill_wellFormed id temp hum uptime) hfit

theorem serializeSensorData_eq (id : List UInt8) (temp hum uptime : UInt32) :
    serializeSensorData id temp hum uptime =
      Wire.encode (sensorItems (storedId id) temp hum uptime) := by
  rw [serializeSensorData, encodeSensorData_eq]

/-- The stored id is the longest start of the id that is free of NULs and has at most 31
bytes. -/
theorem storedId_longest (id : List UInt8) :
    storedId id <+: id ∧ 0 ∉ storedId id ∧ (storedId id).length ≤ 31 ∧
      ∀ d, d <+: id → 0 ∉ d → d.length ≤ 31 → d <+: storedId id := by
  refine ⟨(List.take_prefix _ _).trans (List.takeWhile_prefix _), ?_, List.length_take_le .., ?_⟩
  · intro hmem
    simpa using ne_zero_of_mem_storedId hmem
  · rintro d ⟨rest, rfl⟩ hfree hlen
    have hd : ∀ b ∈ d, (b != 0) = true := by
      intro b hb
      have : b ≠ 0 := fun h => hfree (h ▸ hb)
      simpa using this
    rw [storedId, List.takeWhile_append_of_pos hd, List.take_append,
      List.take_of_length_le hlen]
    exact List.prefix_append ..

/-- The number of bytes of a record whose stored id is `d`. -/
def sensorDataLength (d : List UInt8) (temp hum uptime : UInt32) : Nat :=
  (if d = [] then 0 else 2 + d.length) + (if temp = 0 then 0 else 5) +
    (if hum = 0 then 0 else 5) +
    (if uptime = 0 then 0 else 1 + (Nat.digits 128 uptime.toNat).length)

private theorem toNat_pos {n : UInt32} (h : n ≠ 0) : 0 < n.toNat := by
  apply Nat.pos_of_ne_zero
  intro hn
  exact h (UInt32.toNat_inj.mp hn)

private theorem length_storedId_le (id : List UInt8) : (storedId id).length ≤ 31 :=
  List.length_take_le ..

theorem length_serializeSensorData (id : List UInt8) (temp hum uptime : UInt32) :
    (serializeSensorData id temp hum uptime).length =
      sensorDataLength (storedId id) temp hum uptime := by
  rw [serializeSensorData_eq, length_sensorItems (length_storedId_le id), sensorDataLength]
  congr 1
  by_cases hu : uptime = 0
  · rw [if_pos hu, if_pos hu]
  · rw [if_neg hu, if_neg hu, Varint.length_encode (toNat_pos hu)]

/-- No record has more than 49 bytes, and only the default record has none. -/
theorem sensorDataLength_bounds {d : List UInt8} (hd : d.length ≤ 31) (temp hum uptime : UInt32) :
    sensorDataLength d temp hum uptime ≤ 49 ∧
      (sensorDataLength d temp hum uptime = 0 ↔ d = [] ∧ temp = 0 ∧ hum = 0 ∧ uptime = 0) := by
  have hfloat : ∀ n : UInt32, (if n = 0 then 0 else 5) ≤ 5 := by
    intro n
    split <;> omega
  have hdigits : (if uptime = 0 then 0 else 1 + (Nat.digits 128 uptime.toNat).length) ≤ 6 := by
    split
    · omega
    · rename_i hu
      have hlt := uptime.toNat_lt
      have hlength : (Varint.encode uptime.toNat).length ≤ 5 := Varint.length_encode_le (by omega)
      rw [Varint.length_encode (toNat_pos hu)] at hlength
      omega
  have hid : (if d = [] then 0 else 2 + d.length) ≤ 33 := by
    split <;> omega
  have htemp := hfloat temp
  have hhum := hfloat hum
  rw [sensorDataLength]
  constructor
  · omega
  · by_cases hid : d = [] <;> by_cases ht : temp = 0 <;> by_cases hh : hum = 0 <;>
      by_cases hu : uptime = 0 <;> simp [hid, ht, hh, hu]

/-- Serialization cannot fail: the encoder succeeds on every record, with exactly the bytes
the fields ask for, at most 49 of the 128, and none only for the default record. -/
theorem serialization_total (id : List UInt8) (temp hum uptime : UInt32) :
    (∃ stream, encodeSensorData id temp hum uptime = .ok stream ∧
      serializeSensorData id temp hum uptime = stream.written) ∧
      (serializeSensorData id temp hum uptime).length =
        (if storedId id = [] then 0 else 2 + (storedId id).length) +
        (if temp = 0 then 0 else 5) + (if hum = 0 then 0 else 5) +
        (if uptime = 0 then 0 else 1 + (Nat.digits 128 uptime.toNat).length) ∧
      (serializeSensorData id temp hum uptime).length ≤ 49 ∧
      (serializeSensorData id temp hum uptime = [] ↔
        storedId id = [] ∧ temp = 0 ∧ hum = 0 ∧ uptime = 0) := by
  have hlength := length_serializeSensorData id temp hum uptime
  obtain ⟨hle, hzero⟩ :=
    sensorDataLength_bounds (length_storedId_le id) temp hum uptime
  refine ⟨⟨_, encodeSensorData_eq id temp hum uptime, serializeSensorData_eq id temp hum uptime⟩,
    hlength, ?_, ?_⟩
  · rwa [hlength]
  · rw [← List.length_eq_zero_iff, hlength]
    exact hzero

/-! ## The gateway reads it back -/

/-- Storing the fields of a record one after another fills exactly their members. -/
private theorem foldlM_merge_sensorItems (d : List UInt8) (temp hum uptime : UInt32) :
    (sensorItems d temp hum uptime).foldlM SensorData.merge SensorData.empty =
      if h : Utf8.Valid d then some ⟨d, h, temp, hum, uptime⟩ else none := by
  have hid : (if d = [] then [] else [(⟨1, .len d⟩ : Wire.Item)]).foldlM
      SensorData.merge SensorData.empty =
      if h : Utf8.Valid d then some ⟨d, h, 0, 0, 0⟩ else none := by
    by_cases hd : d = []
    · subst hd
      simp [SensorData.empty, Utf8.valid_nil]
    · simp [hd, SensorData.merge, SensorData.empty]
  simp only [sensorItems, List.foldlM_append, hid]
  by_cases h : Utf8.Valid d
  · have htemp : (if temp = 0 then [] else [(⟨2, .fixed32 temp.toNat⟩ : Wire.Item)]).foldlM
        SensorData.merge ⟨d, h, 0, 0, 0⟩ = some ⟨d, h, temp, 0, 0⟩ := by
      split <;> simp_all [SensorData.merge]
    have hhum : (if hum = 0 then [] else [(⟨3, .fixed32 hum.toNat⟩ : Wire.Item)]).foldlM
        SensorData.merge ⟨d, h, temp, 0, 0⟩ = some ⟨d, h, temp, hum, 0⟩ := by
      split <;> simp_all [SensorData.merge]
    have huptime : (if uptime = 0 then [] else [(⟨4, .varint uptime.toNat⟩ : Wire.Item)]).foldlM
        SensorData.merge ⟨d, h, temp, hum, 0⟩ = some ⟨d, h, temp, hum, uptime⟩ := by
      split <;> simp_all [SensorData.merge]
    simp [h, htemp, hhum, huptime]
  · simp [h]

/-- The gateway accepts a serialized record exactly when the stored id is UTF-8,
and then reads back what was stored. -/
theorem parse_serializeSensorData (id : List UInt8) (temp hum uptime : UInt32) :
    SensorData.parseFromString (serializeSensorData id temp hum uptime) =
      if h : Utf8.Valid (storedId id) then some ⟨storedId id, h, temp, hum, uptime⟩
      else none := by
  rw [SensorData.parseFromString, serializeSensorData_eq,
    Wire.parse_encode (plain_sensorItems id temp hum uptime), Option.bind_some,
    foldlM_merge_sensorItems]

/-- The round trip between the two schemas: whenever the stored id is UTF-8 the
encoder succeeds and the gateway decodes the same id, the same two bit patterns
and the same uptime. -/
theorem roundTrip (id : List UInt8) (temp hum uptime : UInt32)
    (h : Utf8.Valid (storedId id)) :
    ∃ stream, encodeSensorData id temp hum uptime = .ok stream ∧
      serializeSensorData id temp hum uptime = stream.written ∧
      SensorData.parseFromString stream.written =
        some ⟨storedId id, h, temp, hum, uptime⟩ := by
  refine ⟨_, encodeSensorData_eq id temp hum uptime,
    serializeSensorData_eq id temp hum uptime, ?_⟩
  have hparse := parse_serializeSensorData id temp hum uptime
  rwa [dif_pos h, serializeSensorData_eq] at hparse

/-- Negative zero, a NaN and the largest uptime under a short id. -/
theorem roundTrip_node :
    ∃ stream, encodeSensorData [0x6E, 0x31] 0x80000000 0x7FC00001 0xFFFFFFFF = .ok stream ∧
      serializeSensorData [0x6E, 0x31] 0x80000000 0x7FC00001 0xFFFFFFFF = stream.written ∧
      SensorData.parseFromString stream.written =
        some ⟨[0x6E, 0x31], by decide, 0x80000000, 0x7FC00001, 0xFFFFFFFF⟩ :=
  roundTrip [0x6E, 0x31] 0x80000000 0x7FC00001 0xFFFFFFFF (by decide)

/-- The 31-byte cut of an id falls between two of its characters. -/
def CutsBetweenCharacters (id : List UInt8) : Prop :=
  ∀ h : 31 < (id.takeWhile (· != 0)).length, (id.takeWhile (· != 0))[31].IsUTF8FirstByte

instance (id : List UInt8) : Decidable (CutsBetweenCharacters id) :=
  inferInstanceAs (Decidable (∀ _ : _ < _, _))

/-- A legal id is stored as UTF-8 exactly when the cut does not fall inside a character. -/
theorem valid_storedId_iff {id : List UInt8} (h : Utf8.Valid id) :
    Utf8.Valid (storedId id) ↔ CutsBetweenCharacters id := by
  have hprefix := Utf8.valid_takeWhile h
  unfold storedId CutsBetweenCharacters
  by_cases hlen : 31 < (id.takeWhile (· != 0)).length
  · rw [Utf8.valid_take_iff hprefix hlen]
    exact ⟨fun hf _ => hf, fun hf => hf hlen⟩
  · rw [List.take_of_length_le (Nat.not_lt.mp hlen)]
    exact ⟨fun _ hlt => absurd hlt hlen, fun _ => hprefix⟩

/-- Exactly when the gateway accepts the record of a node with a legal id. -/
theorem accepted_iff (id : List UInt8) (temp hum uptime : UInt32) (h : Utf8.Valid id) :
    (SensorData.parseFromString (serializeSensorData id temp hum uptime)).isSome = true ↔
      CutsBetweenCharacters id := by
  rw [parse_serializeSensorData, ← valid_storedId_iff h]
  split <;> simp_all

/-- Thirty-one letters, which the member keeps, and a two-byte character. -/
def longId : List UInt8 := List.replicate 31 0x61 ++ [0xC3, 0xA9]

theorem accepted_iff_longId :
    (SensorData.parseFromString (serializeSensorData longId 1 2 3)).isSome = true :=
  (accepted_iff longId 1 2 3 (by decide)).mpr (by decide)

/-- Thirty letters and a two-byte character, of which the member keeps the first byte. -/
def cutId : List UInt8 := List.replicate 30 0x61 ++ [0xC3, 0xA9]

/-- The record of a node with a legal 32-byte id, rejected by the gateway. -/
theorem cutId_rejected :
    Utf8.Valid cutId ∧
      SensorData.parseFromString (serializeSensorData cutId 1 2 3) = none := by
  refine ⟨by decide, ?_⟩
  rw [parse_serializeSensorData, dif_neg (by decide)]

end IndustrialIot.Edge
