import IndustrialIot.Core.Wire

/-!
# The nanopb encoder

The part of `pb_encode.c` that runs for a proto3 message of singular scalar,
string and fixed-length fields with static allocation, on a buffer stream. A
field carries the bytes of its struct member, little-endian as on the target. An
error is the message the stream would keep.

What a field contributes to the wire is said once, as an item of the wire
format; the encoder writes exactly these items, or runs out of buffer.
-/

namespace IndustrialIot.Edge.Nanopb

/-- A buffer stream. -/
structure PbOstream where
  /-- The bytes written so far; their number is `bytes_written`. -/
  written : List UInt8
  /-- `max_size`, a `size_t` of the 32-bit target. -/
  maxSize : UInt32
  deriving DecidableEq, Repr

/-- The `LTYPE` part of a field type. -/
inductive Ltype where
  | bool
  | varint
  | uvarint
  | svarint
  | fixed32
  | fixed64
  | string
  | fixedLengthBytes
  deriving DecidableEq, Repr

/-- `PB_LTYPE(type) <= PB_LTYPE_LAST_PACKABLE` -/
def Ltype.packable : Ltype → Bool
  | bool | varint | uvarint | svarint | fixed32 | fixed64 => true
  | string | fixedLengthBytes => false

/-- A field as the field iterator presents it. -/
structure PbField where
  tag : Nat
  ltype : Ltype
  /-- The bytes at `pData`; their number is `data_size`. -/
  data : List UInt8
  deriving DecidableEq, Repr

/-- `pb_ostream_from_buffer` -/
def pbOstreamFromBuffer (bufsize : UInt32) : PbOstream := ⟨[], bufsize⟩

/-- `pb_write`. The sum is computed in `size_t`. -/
def pbWrite (stream : PbOstream) (buf : List UInt8) : Except String PbOstream :=
  let count := buf.length
  let total := (stream.written.length + count) % 2 ^ 32
  if 0 < count ∧ (total < stream.written.length ∨ stream.maxSize.toNat < total) then
    .error "stream full"
  else .ok { stream with written := stream.written ++ buf }

/-- The first loop of `pb_encode_varint_32`: the bytes it stores and the byte it
ends with. The first argument is `4 - i`. -/
def varintLow : Nat → Nat → Nat → Nat → List UInt8 × Nat
  | 0, _, _, byte => ([], byte)
  | k + 1, low, high, byte =>
    if low ≠ 0 ∨ high ≠ 0 then
      let (buffer, last) := varintLow k (low >>> 7) high (low &&& 0x7F)
      (UInt8.ofNat (byte ||| 0x80) :: buffer, last)
    else ([], byte)

/-- The second loop of `pb_encode_varint_32` with the store after it. Five rounds
consume the 29 bits that are left. -/
def varintHigh : Nat → Nat → Nat → List UInt8
  | 0, _, byte => [UInt8.ofNat byte]
  | k + 1, high, byte =>
    if high ≠ 0 then UInt8.ofNat (byte ||| 0x80) :: varintHigh k (high >>> 7) (high &&& 0x7F)
    else [UInt8.ofNat byte]

/-- The buffer `pb_encode_varint_32` fills. -/
def varint32 (low high : Nat) : List UInt8 :=
  let (buffer, byte) := varintLow 4 (low >>> 7) high (low &&& 0x7F)
  buffer ++
    if high ≠ 0 then varintHigh 5 (high >>> 3) (byte ||| ((high &&& 0x07) <<< 4))
    else [UInt8.ofNat byte]

/-- `pb_encode_varint_32` -/
def pbEncodeVarint32 (stream : PbOstream) (low high : Nat) : Except String PbOstream :=
  pbWrite stream (varint32 low high)

/-- `pb_encode_varint`, with its fast path for a single byte. -/
def pbEncodeVarint (stream : PbOstream) (value : Nat) : Except String PbOstream :=
  if value ≤ 0x7F then pbWrite stream [UInt8.ofNat value]
  else pbEncodeVarint32 stream (value % 2 ^ 32) (value >>> 32)

/-- The zigzag code of `pb_encode_svarint`, on the 64-bit pattern of a signed value. -/
def zigzag (value : UInt64) : UInt64 :=
  if value &&& 0x8000000000000000 ≠ 0 then ~~~((value &&& 0x7FFFFFFFFFFFFFFF) <<< 1)
  else value <<< 1

/-- `pb_encode_svarint` -/
def pbEncodeSvarint (stream : PbOstream) (value : UInt64) : Except String PbOstream :=
  pbEncodeVarint stream (zigzag value).toNat

/-- The wire type `pb_encode_tag_for_field` chooses. -/
def wireType : Ltype → Nat
  | .bool | .varint | .uvarint | .svarint => 0
  | .fixed32 => 5
  | .fixed64 => 1
  | .string | .fixedLengthBytes => 2

/-- `pb_encode_tag` -/
def pbEncodeTag (stream : PbOstream) (wiretype fieldNumber : Nat) : Except String PbOstream :=
  pbEncodeVarint stream ((fieldNumber <<< 3) ||| wiretype)

/-- `pb_encode_tag_for_field` -/
def pbEncodeTagForField (stream : PbOstream) (field : PbField) : Except String PbOstream :=
  pbEncodeTag stream (wireType field.ltype) field.tag

/-- `pb_encode_string` -/
def pbEncodeString (stream : PbOstream) (buffer : List UInt8) : Except String PbOstream := do
  let stream ← pbEncodeVarint stream buffer.length
  pbWrite stream buffer

/-- `pb_enc_bool` -/
def pbEncBool (stream : PbOstream) (field : PbField) : Except String PbOstream :=
  pbEncodeVarint stream (if field.data.all (· == 0) then 0 else 1)

/-- The sizes of the integer types `pb_enc_varint` knows. -/
def integerSizes : List Nat := [1, 2, 4, 8]

/-- Sign extension of a stored integer to 64 bits. -/
def signExtend (data : List UInt8) : UInt64 :=
  let value := Wire.leValue data
  if 2 ^ (8 * data.length - 1) ≤ value then
    UInt64.ofNat (value + 2 ^ 64 - 2 ^ (8 * data.length))
  else UInt64.ofNat value

/-- `pb_enc_varint` -/
def pbEncVarint (stream : PbOstream) (field : PbField) : Except String PbOstream :=
  if field.data.length ∈ integerSizes then
    match field.ltype with
    | .uvarint => pbEncodeVarint stream (Wire.leValue field.data)
    | .svarint => pbEncodeSvarint stream (signExtend field.data)
    | _ => pbEncodeVarint stream (signExtend field.data).toNat
  else .error "invalid data_size"

/-- `pb_enc_fixed`. On a little-endian target the stored bytes are the encoding. -/
def pbEncFixed (stream : PbOstream) (field : PbField) : Except String PbOstream :=
  if field.data.length = 4 ∨ field.data.length = 8 then pbWrite stream field.data
  else .error "invalid data_size"

/-- The loop of `pb_enc_string`: the bytes before the first NUL, at most as many as given. -/
def stringSize : Nat → List UInt8 → Nat
  | k + 1, b :: bs => if b ≠ 0 then stringSize k bs + 1 else 0
  | _, _ => 0

/-- `pb_enc_string` for a static field -/
def pbEncString (stream : PbOstream) (field : PbField) : Except String PbOstream :=
  if field.data.length = 0 then .error "zero-length string"
  else
    let size := stringSize (field.data.length - 1) field.data
    if field.data[size]? = some 0 then pbEncodeString stream (field.data.take size)
    else .error "unterminated string"

/-- `pb_enc_fixed_length_bytes` -/
def pbEncFixedLengthBytes (stream : PbOstream) (field : PbField) : Except String PbOstream :=
  pbEncodeString stream field.data

/-- `pb_check_proto3_default_value` for a static singular field without a default value -/
def pbCheckProto3DefaultValue (field : PbField) : Bool :=
  if field.ltype.packable then field.data.all (· == 0)
  else
    match field.ltype with
    | .string => field.data.head? == some 0
    | _ => field.data.length == 0

/-- The switch of `encode_basic_field`. -/
def encodeValue (stream : PbOstream) (field : PbField) : Except String PbOstream :=
  match field.ltype with
  | .bool => pbEncBool stream field
  | .varint | .uvarint | .svarint => pbEncVarint stream field
  | .fixed32 | .fixed64 => pbEncFixed stream field
  | .string => pbEncString stream field
  | .fixedLengthBytes => pbEncFixedLengthBytes stream field

/-- `encode_basic_field` -/
def encodeBasicField (stream : PbOstream) (field : PbField) : Except String PbOstream := do
  let stream ← pbEncodeTagForField stream field
  encodeValue stream field

/-- `encode_field` for a static proto3 singular field -/
def encodeField (stream : PbOstream) (field : PbField) : Except String PbOstream :=
  if pbCheckProto3DefaultValue field then .ok stream else encodeBasicField stream field

/-- `pb_encode`: all fields in descriptor order. -/
def pbEncode (stream : PbOstream) (fields : List PbField) : Except String PbOstream :=
  fields.foldlM encodeField stream

/-! ## What a field means on the wire -/

/-- The payload a stored value stands for. -/
def PbField.payload (field : PbField) : Wire.Payload :=
  match field.ltype with
  | .bool => .varint (if field.data.all (· == 0) then 0 else 1)
  | .varint => .varint (signExtend field.data).toNat
  | .uvarint => .varint (Wire.leValue field.data)
  | .svarint => .varint (zigzag (signExtend field.data)).toNat
  | .fixed32 => .fixed32 (Wire.leValue field.data)
  | .fixed64 => .fixed64 (Wire.leValue field.data)
  | .string => .len (field.data.takeWhile (· != 0))
  | .fixedLengthBytes => .len field.data

/-- The item of a field that is not at its default. -/
def PbField.items (field : PbField) : List Wire.Item :=
  if pbCheckProto3DefaultValue field then [] else [⟨field.tag, field.payload⟩]

/-- The descriptor gives the member the size of its type, and a string is terminated. -/
def PbField.WellFormed (field : PbField) : Prop :=
  0 < field.tag ∧ field.tag < 2 ^ 29 ∧ field.data.length < 2 ^ 31 ∧
    match field.ltype with
    | .bool | .fixedLengthBytes => True
    | .varint | .uvarint | .svarint => field.data.length ∈ integerSizes
    | .fixed32 => field.data.length = 4
    | .fixed64 => field.data.length = 8
    | .string => 0 ∈ field.data

/-! ## The encoder writes the items -/

/-- The stream after a write. -/
def PbOstream.append (stream : PbOstream) (buf : List UInt8) : PbOstream :=
  { stream with written := stream.written ++ buf }

@[simp] theorem append_append (stream : PbOstream) (xs ys : List UInt8) :
    (stream.append xs).append ys = stream.append (xs ++ ys) := by
  simp [PbOstream.append]

/-- There is room for the bytes. -/
def PbOstream.Fits (stream : PbOstream) (buf : List UInt8) : Prop :=
  stream.written.length + buf.length ≤ stream.maxSize.toNat

theorem fits_append {stream : PbOstream} {xs ys : List UInt8} :
    stream.Fits (xs ++ ys) ↔ stream.Fits xs ∧ (stream.append xs).Fits ys := by
  simp only [PbOstream.Fits, PbOstream.append, List.length_append]
  omega

/-- A write succeeds when there is room. -/
theorem pbWrite_eq {stream : PbOstream} {buf : List UInt8} (h : stream.Fits buf) :
    pbWrite stream buf = .ok (stream.append buf) := by
  have hlt := stream.maxSize.toNat_lt
  have hmod : (stream.written.length + buf.length) % 2 ^ 32 =
      stream.written.length + buf.length := Nat.mod_eq_of_lt (lt_of_le_of_lt h hlt)
  have hok : ¬ (0 < buf.length ∧ (stream.written.length + buf.length < stream.written.length ∨
      stream.maxSize.toNat < stream.written.length + buf.length)) := by
    rintro ⟨_, hover | hfull⟩
    · omega
    · exact absurd h (Nat.not_le.mpr hfull)
  simp only [pbWrite, hmod, if_neg hok, PbOstream.append]

private theorem and_low (n : Nat) : n &&& 0x7F = n % 128 :=
  Nat.and_two_pow_sub_one_eq_mod n 7

private theorem and_low_lt (n : Nat) : n &&& 0x7F < 128 := by
  rw [and_low]
  exact Nat.mod_lt n (by decide)

private theorem shift_low (n : Nat) : n >>> 7 = n / 128 := Nat.shiftRight_eq_div_pow n 7

private theorem or_continue {byte : Nat} (h : byte < 128) : byte ||| 0x80 = byte + 128 := by
  have hor := Nat.two_pow_add_eq_or_of_lt (i := 7) h 1
  rw [Nat.or_comm, Nat.add_comm]
  exact hor.symm

private theorem varintHigh_eq {k high byte : Nat} (hb : byte < 128) (hh : high < 128 ^ k) :
    varintHigh k high byte = Varint.encode (byte + 128 * high) := by
  induction k generalizing high byte with
  | zero =>
    have : high = 0 := by simpa using hh
    rw [this, varintHigh, Nat.mul_zero, Nat.add_zero, Varint.encode_of_lt hb]
  | succ k ih =>
    rw [varintHigh]
    split
    · rename_i hne
      have hdiv : high / 128 < 128 ^ k := by
        rw [Nat.div_lt_iff_lt_mul (by decide), ← Nat.pow_succ]
        exact hh
      have hsplit : high % 128 + 128 * (high / 128) = high := Nat.mod_add_div high 128
      rw [and_low, shift_low, or_continue hb, ih (Nat.mod_lt _ (by decide)) hdiv, hsplit,
        Varint.encode_add hb (Nat.pos_of_ne_zero hne)]
    · rename_i hzero
      rw [not_not.mp hzero, Nat.mul_zero, Nat.add_zero, Varint.encode_of_lt hb]

private theorem or_high {byte high : Nat} (hb : byte < 16) :
    byte ||| ((high &&& 0x07) <<< 4) = byte + 16 * (high % 8) := by
  have hand : high &&& 0x07 = high % 8 := Nat.and_two_pow_sub_one_eq_mod high 3
  have hor := Nat.two_pow_add_eq_or_of_lt (i := 4) hb (high % 8)
  rw [hand, Nat.shiftLeft_eq, Nat.or_comm, Nat.mul_comm, Nat.add_comm]
  exact hor.symm

/-- The end of the buffer, after the first loop has stored its bytes. -/
def varintEnd (high byte : Nat) : List UInt8 :=
  if high ≠ 0 then varintHigh 5 (high >>> 3) (byte ||| ((high &&& 0x07) <<< 4))
  else [UInt8.ofNat byte]

/-- With `k` rounds to go, `byte` and `low` hold the last `7 * k + 4` bits below `high`. -/
private theorem varintLow_eq (k low : Nat) {high byte : Nat} (hb : byte < 128)
    (hl : byte + 128 * low < 2 ^ (7 * k + 4)) (hh : high < 2 ^ 32) :
    (varintLow k low high byte).1 ++ varintEnd high (varintLow k low high byte).2 =
      Varint.encode (byte + 128 * low + 2 ^ (7 * k + 4) * high) := by
  induction k generalizing low byte with
  | zero =>
    have hlow : low = 0 := by omega
    have hbyte : byte < 16 := by omega
    simp only [varintLow, varintEnd, List.nil_append, hlow]
    split
    · have hshift : high >>> 3 = high / 8 := Nat.shiftRight_eq_div_pow high 3
      rw [or_high hbyte, hshift, varintHigh_eq (by omega) (by omega)]
      congr 1
      omega
    · rename_i hzero
      rw [not_not.mp hzero, ← Varint.encode_of_lt hb]
      simp
  | succ k ih =>
    have hpow : 2 ^ (7 * (k + 1) + 4) = 128 * 2 ^ (7 * k + 4) := by ring
    have hpos : 0 < 2 ^ (7 * k + 4) := Nat.two_pow_pos _
    rw [hpow] at hl ⊢
    rw [varintLow]
    split
    · rename_i hne
      have hsplit : low % 128 + 128 * (low / 128) = low := Nat.mod_add_div low 128
      have hrest := ih (low >>> 7) (and_low_lt low)
        (by rw [and_low, shift_low, hsplit]; omega)
      have hmore : 0 < low + 2 ^ (7 * k + 4) * high := by
        rcases hne with hlow | hhigh
        · omega
        · have := Nat.mul_pos hpos (Nat.pos_of_ne_zero hhigh)
          omega
      have hsum : byte + 128 * low + 128 * 2 ^ (7 * k + 4) * high =
          byte + 128 * (low + 2 ^ (7 * k + 4) * high) := by ring
      rw [and_low, shift_low, hsplit] at hrest
      simp only [List.cons_append]
      rw [and_low, shift_low, hrest, or_continue hb, hsum, Varint.encode_add hb hmore]
    · rename_i hzero
      obtain ⟨hlow, hhigh⟩ := not_or.mp hzero
      rw [not_not.mp hlow, not_not.mp hhigh]
      simp [varintEnd, Varint.encode_of_lt hb]

/-- The two loops on the two halves write the varint of the whole. -/
theorem varint32_eq {low high : Nat} (hl : low < 2 ^ 32) (hh : high < 2 ^ 32) :
    varint32 low high = Varint.encode (low + 2 ^ 32 * high) := by
  have hsplit : low % 128 + 128 * (low / 128) = low := Nat.mod_add_div low 128
  have hloop := varintLow_eq 4 (low >>> 7) (and_low_lt low)
    (by rw [and_low, shift_low, hsplit]; exact hl) hh
  rw [and_low, shift_low, hsplit] at hloop
  rw [← hloop, varint32, and_low, shift_low]
  rfl

/-- Both paths of `pb_encode_varint` write the varint of a 64-bit value. -/
theorem pbEncodeVarint_eq (stream : PbOstream) {value : Nat} (h : value < 2 ^ 64) :
    pbEncodeVarint stream value = pbWrite stream (Varint.encode value) := by
  rw [pbEncodeVarint]
  split
  · rw [Varint.encode_of_lt (by omega)]
  · have hhigh : value >>> 32 = value / 2 ^ 32 := Nat.shiftRight_eq_div_pow value 32
    have hsum : value % 2 ^ 32 + 2 ^ 32 * (value / 2 ^ 32) = value := Nat.mod_add_div ..
    rw [pbEncodeVarint32, hhigh, varint32_eq (Nat.mod_lt _ (by decide)) (by omega), hsum]

private theorem pbEncodeString_eq {stream : PbOstream} {buf : List UInt8}
    (hlen : buf.length < 2 ^ 31) (h : stream.Fits (Varint.encode buf.length ++ buf)) :
    pbEncodeString stream buf = .ok (stream.append (Varint.encode buf.length ++ buf)) := by
  obtain ⟨hsize, hbuf⟩ := fits_append.mp h
  rw [pbEncodeString, pbEncodeVarint_eq stream (by omega), pbWrite_eq hsize]
  exact (pbWrite_eq hbuf).trans (congrArg _ (append_append ..))

/-- The loop of `pb_enc_string` stops at the first NUL, which a terminated string has
before the last byte of its buffer or there. -/
private theorem stringSize_eq {data : List UInt8} {k : Nat} (h0 : 0 ∈ data)
    (hk : data.length ≤ k + 1) :
    stringSize k data = (data.takeWhile (· != 0)).length ∧
      data[stringSize k data]? = some 0 := by
  induction data generalizing k with
  | nil => simp at h0
  | cons b bs ih =>
    by_cases hb : b = 0
    · subst hb
      cases k <;> simp [stringSize]
    · have hbs : 0 ∈ bs := by simpa [Ne.symm hb] using h0
      have hpos := List.length_pos_of_mem hbs
      cases k with
      | zero =>
        simp only [List.length_cons] at hk
        omega
      | succ k =>
        obtain ⟨hsize, hget⟩ := ih hbs (k := k) (by simpa using hk)
        simp [stringSize, hb, hsize]
        rw [← hsize]
        exact hget

private theorem leValue_lt_of_integerSizes {data : List UInt8}
    (h : data.length ∈ integerSizes) : Wire.leValue data < 2 ^ 64 := by
  have hsize : data.length ≤ 8 := by
    simp only [integerSizes, List.mem_cons, List.not_mem_nil, or_false] at h
    omega
  exact lt_of_lt_of_le (Wire.leValue_lt data) (Nat.pow_le_pow_right (by decide) hsize)

/-- The switch writes the bytes of the payload. -/
private theorem encodeValue_eq {stream : PbOstream} {field : PbField} (hw : field.WellFormed)
    (h : stream.Fits field.payload.bytes) :
    encodeValue stream field = .ok (stream.append field.payload.bytes) := by
  obtain ⟨tag, ltype, data⟩ := field
  obtain ⟨_, _, hlen, htype⟩ := hw
  simp only at hlen
  cases ltype with
  | bool =>
    rw [← pbWrite_eq h]
    exact pbEncodeVarint_eq stream (by split <;> decide)
  | varint =>
    rw [← pbWrite_eq h]
    exact (if_pos htype).trans (pbEncodeVarint_eq stream (UInt64.toNat_lt _))
  | uvarint =>
    rw [← pbWrite_eq h]
    exact (if_pos htype).trans (pbEncodeVarint_eq stream (leValue_lt_of_integerSizes htype))
  | svarint =>
    rw [← pbWrite_eq h]
    exact (if_pos htype).trans (pbEncodeVarint_eq stream (UInt64.toNat_lt _))
  | fixed32 =>
    have hbytes : Wire.leBytes 4 (Wire.leValue data) = data := by
      rw [← htype, Wire.leBytes_leValue]
    simp only [PbField.payload, Wire.Payload.bytes, hbytes] at h ⊢
    rw [← pbWrite_eq h]
    exact if_pos (Or.inl htype)
  | fixed64 =>
    have hbytes : Wire.leBytes 8 (Wire.leValue data) = data := by
      rw [← htype, Wire.leBytes_leValue]
    simp only [PbField.payload, Wire.Payload.bytes, hbytes] at h ⊢
    rw [← pbWrite_eq h]
    exact if_pos (Or.inr htype)
  | string =>
    have hmem : 0 ∈ data := htype
    have hpos : data.length ≠ 0 := (List.length_pos_of_mem hmem).ne'
    obtain ⟨hsize, hget⟩ := stringSize_eq (k := data.length - 1) hmem (by omega)
    have htake : data.take (stringSize (data.length - 1) data) = data.takeWhile (· != 0) := by
      rw [hsize]
      exact (List.prefix_iff_eq_take.mp (List.takeWhile_prefix _)).symm
    simp only [encodeValue, pbEncString, if_neg hpos, if_pos hget, htake]
    refine pbEncodeString_eq (lt_of_le_of_lt ?_ hlen) h
    exact (List.takeWhile_sublist _).length_le
  | fixedLengthBytes => exact pbEncodeString_eq hlen h

private theorem wireType_payload (field : PbField) :
    field.payload.wireType = wireType field.ltype := by
  obtain ⟨tag, ltype, data⟩ := field
  cases ltype <;> rfl

private theorem pbEncodeTagForField_eq {field : PbField} (hw : field.WellFormed)
    (stream : PbOstream) :
    pbEncodeTagForField stream field =
      pbWrite stream (Varint.encode (8 * field.tag + field.payload.wireType)) := by
  have hlt : wireType field.ltype < 2 ^ 3 := by cases field.ltype <;> decide
  have hor := Nat.two_pow_add_eq_or_of_lt hlt field.tag
  have htag := hw.2.1
  rw [pbEncodeTagForField, pbEncodeTag, wireType_payload, Nat.shiftLeft_eq, Nat.mul_comm, ← hor]
  exact pbEncodeVarint_eq stream (by omega)

/-- A field that is not at its default writes its item. -/
private theorem encodeBasicField_eq {stream : PbOstream} {field : PbField}
    (hw : field.WellFormed) (h : stream.Fits (Wire.Item.encode ⟨field.tag, field.payload⟩)) :
    encodeBasicField stream field =
      .ok (stream.append (Wire.Item.encode ⟨field.tag, field.payload⟩)) := by
  obtain ⟨htag, hvalue⟩ := fits_append.mp h
  rw [encodeBasicField, pbEncodeTagForField_eq hw, pbWrite_eq htag]
  exact (encodeValue_eq hw hvalue).trans (congrArg _ (append_append ..))

private theorem encodeField_eq {stream : PbOstream} {field : PbField} (hw : field.WellFormed)
    (h : stream.Fits (Wire.encode field.items)) :
    encodeField stream field = .ok (stream.append (Wire.encode field.items)) := by
  rw [encodeField]
  cases hd : pbCheckProto3DefaultValue field with
  | true => simp [PbField.items, hd, Wire.encode, PbOstream.append]
  | false =>
    have hitems : Wire.encode field.items = Wire.Item.encode ⟨field.tag, field.payload⟩ := by
      simp [PbField.items, hd, Wire.encode]
    rw [hitems] at h ⊢
    exact encodeBasicField_eq hw h

/-- The encoder writes the items of all fields in order, if the buffer has room for them. -/
theorem pbEncode_eq {stream : PbOstream} {fields : List PbField}
    (hw : ∀ field ∈ fields, field.WellFormed)
    (h : stream.Fits (Wire.encode (fields.flatMap PbField.items))) :
    pbEncode stream fields =
      .ok (stream.append (Wire.encode (fields.flatMap PbField.items))) := by
  induction fields generalizing stream with
  | nil => simp [pbEncode, Wire.encode, PbOstream.append, pure, Except.pure]
  | cons field fields ih =>
    have hsplit : Wire.encode ((field :: fields).flatMap PbField.items) =
        Wire.encode field.items ++ Wire.encode (fields.flatMap PbField.items) := by
      simp [Wire.encode]
    rw [hsplit] at h ⊢
    obtain ⟨hfield, hrest⟩ := fits_append.mp h
    have hnext := ih (fun f hf => hw f (List.mem_cons_of_mem field hf)) hrest
    rw [pbEncode, List.foldlM_cons, encodeField_eq (hw field List.mem_cons_self) hfield]
    exact hnext.trans (congrArg _ (append_append ..))

/-- The items of a well-formed field are plain, so any parser of the format reads them back. -/
theorem plain_of_wellFormed {field : PbField} (hw : field.WellFormed) :
    ∀ item ∈ field.items, item.Plain := by
  intro item hi
  have he : item = ⟨field.tag, field.payload⟩ := by
    rw [PbField.items] at hi
    split at hi
    · cases hi
    · exact List.mem_singleton.mp hi
  obtain ⟨tag, ltype, data⟩ := field
  obtain ⟨hpos, hlt, hlen, htype⟩ := hw
  rw [he]
  refine ⟨hpos, hlt, ?_⟩
  have hvalue := Wire.leValue_lt data
  cases ltype with
  | bool =>
    show (if data.all (· == 0) then 0 else 1) < 2 ^ 64
    split <;> decide
  | varint => exact UInt64.toNat_lt _
  | uvarint => exact leValue_lt_of_integerSizes htype
  | svarint => exact UInt64.toNat_lt _
  | fixed32 =>
    rw [show data.length = 4 from htype] at hvalue
    exact hvalue
  | fixed64 =>
    rw [show data.length = 8 from htype] at hvalue
    exact hvalue
  | string => exact lt_of_le_of_lt (List.takeWhile_sublist _).length_le hlen
  | fixedLengthBytes => exact hlen

end IndustrialIot.Edge.Nanopb
