import IndustrialIot.Core.Varint

/-!
# The protobuf wire format

A message is a sequence of items, each a field number with a payload. Groups
appear as their start and end markers; a second pass checks that they nest and
keeps the items outside them. The writer covers the payloads that stand for
themselves.
-/

namespace IndustrialIot.Wire

/-- What follows a tag, one constructor for each wire type. -/
inductive Payload where
  | varint (n : Nat)
  | fixed64 (n : Nat)
  | len (bytes : List UInt8)
  | startGroup
  | endGroup
  | fixed32 (n : Nat)
  deriving DecidableEq, Repr

/-- A field number with its payload. -/
structure Item where
  number : Nat
  payload : Payload
  deriving DecidableEq, Repr

/-! ## Little-endian integers -/

/-- The low bytes of a number, least significant first. -/
def leBytes : Nat → Nat → List UInt8
  | 0, _ => []
  | k + 1, n => UInt8.ofNat n :: leBytes k (n / 256)

/-- The number with the given bytes, least significant first. -/
def leValue : List UInt8 → Nat
  | [] => 0
  | b :: bs => b.toNat + 256 * leValue bs

@[simp] theorem length_leBytes (k n : Nat) : (leBytes k n).length = k := by
  induction k generalizing n with
  | zero => rfl
  | succ k ih => rw [leBytes, List.length_cons, ih]

theorem leValue_leBytes {k n : Nat} (h : n < 256 ^ k) : leValue (leBytes k n) = n := by
  induction k generalizing n with
  | zero =>
    have : n = 0 := by simpa using h
    rw [this]
    rfl
  | succ k ih =>
    have hdiv : n / 256 < 256 ^ k := by
      rw [Nat.div_lt_iff_lt_mul (by decide), ← Nat.pow_succ]
      exact h
    rw [leBytes, leValue, ih hdiv, UInt8.toNat_ofNat']
    omega

theorem leValue_lt (bs : List UInt8) : leValue bs < 256 ^ bs.length := by
  induction bs with
  | nil => exact Nat.one_pos
  | cons b bs ih =>
    have hb := b.toNat_lt
    rw [leValue, List.length_cons, Nat.pow_succ]
    omega

theorem leValue_eq_zero {bs : List UInt8} : leValue bs = 0 ↔ bs.all (· == 0) = true := by
  induction bs with
  | nil => simp [leValue]
  | cons b bs ih =>
    have hb : b.toNat = 0 ↔ b = 0 := by simp [← UInt8.toNat_inj]
    simp [leValue, ← hb, ih]

theorem leBytes_leValue (bs : List UInt8) : leBytes bs.length (leValue bs) = bs := by
  induction bs with
  | nil => rfl
  | cons b bs ih =>
    have hb := b.toNat_lt
    have hdiv : (b.toNat + 256 * leValue bs) / 256 = leValue bs := by omega
    have hmod : UInt8.ofNat (b.toNat + 256 * leValue bs) = b := by
      apply UInt8.toNat_inj.mp
      rw [UInt8.toNat_ofNat']
      omega
    rw [List.length_cons, leValue, leBytes, hdiv, hmod, ih]

/-! ## Reading -/

/-- Read what follows a tag of the given wire type. A length is bounded by what is left. -/
def readPayload : Nat → List UInt8 → Option (Payload × List UInt8)
  | 0, bs => (Varint.decode 10 bs).map fun (n, rest) => (.varint (n % 2 ^ 64), rest)
  | 1, bs =>
    if bs.length < 8 then none else some (.fixed64 (leValue (bs.take 8)), bs.drop 8)
  | 2, bs =>
    (Varint.decode 5 bs).bind fun (n, rest) =>
      if rest.length < n then none else some (.len (rest.take n), rest.drop n)
  | 3, bs => some (.startGroup, bs)
  | 4, bs => some (.endGroup, bs)
  | 5, bs =>
    if bs.length < 4 then none else some (.fixed32 (leValue (bs.take 4)), bs.drop 4)
  | _, _ => none

/-- Read one item. A tag is a varint of at most 32 bits with a field number above zero. -/
def next (bs : List UInt8) : Option (Item × List UInt8) :=
  (Varint.decode 5 bs).bind fun (tag, rest) =>
    if 2 ^ 32 ≤ tag ∨ tag / 8 = 0 then none
    else (readPayload (tag % 8) rest).map fun (payload, rest) => (⟨tag / 8, payload⟩, rest)

/-- Read items until no byte is left. Every item takes at least one byte, so the
length of the input is enough fuel. -/
def items : Nat → List UInt8 → Option (List Item)
  | _, [] => some []
  | 0, _ :: _ => none
  | k + 1, b :: bs => do
    let (item, rest) ← next (b :: bs)
    let more ← items k rest
    some (item :: more)

private theorem length_of_readPayload {w : Nat} {bs rest : List UInt8} {payload : Payload}
    (h : readPayload w bs = some (payload, rest)) : rest.length ≤ bs.length := by
  unfold readPayload at h
  split at h
  case h_1 =>
    obtain ⟨⟨n, rest'⟩, hn, he⟩ := Option.map_eq_some_iff.mp h
    cases he
    exact (Varint.length_of_decode hn).le
  case h_3 =>
    obtain ⟨⟨n, rest'⟩, hn, he⟩ := Option.bind_eq_some_iff.mp h
    have := Varint.length_of_decode hn
    simp only [Option.ite_none_left_eq_some, Option.some.injEq, Prod.mk.injEq] at he
    rw [← he.2.2, List.length_drop]
    omega
  case h_2 | h_6 =>
    simp only [Option.ite_none_left_eq_some, Option.some.injEq, Prod.mk.injEq] at h
    rw [← h.2.2, List.length_drop]
    exact Nat.sub_le ..
  case h_4 | h_5 =>
    cases h
    exact le_rfl
  case h_7 => cases h

/-- Reading an item takes at least its tag. -/
theorem length_of_next {bs rest : List UInt8} {item : Item} (h : next bs = some (item, rest)) :
    rest.length < bs.length := by
  obtain ⟨⟨tag, after⟩, htag, h⟩ := Option.bind_eq_some_iff.mp h
  have hlt := Varint.length_of_decode htag
  simp only [Option.ite_none_left_eq_some, Option.map_eq_some_iff, Prod.mk.injEq] at h
  obtain ⟨_, ⟨payload, rest'⟩, hp, _, rfl⟩ := h
  exact (length_of_readPayload hp).trans_lt hlt

/-- More fuel than bytes changes nothing, so `none` always means malformed bytes. -/
theorem items_of_length_le {k : Nat} {bs : List UInt8} (h : bs.length ≤ k) :
    items k bs = items bs.length bs := by
  induction k using Nat.strongRecOn generalizing bs with
  | ind k ih =>
    cases bs with
    | nil => cases k <;> rfl
    | cons b bs =>
      obtain ⟨k, rfl⟩ : ∃ j, k = j + 1 := ⟨k - 1, by simp at h; omega⟩
      simp only [List.length_cons, items]
      cases hn : next (b :: bs) with
      | none => rfl
      | some r =>
        obtain ⟨item, rest⟩ := r
        have hlt := length_of_next hn
        simp only [List.length_cons] at h hlt
        simp only [Option.bind_eq_bind, Option.bind_some]
        rw [ih k (by omega) (by omega), ih bs.length (by omega) (by omega)]

/-- Check the nesting of groups and keep the items outside them. The stack holds
the numbers of the open groups. -/
def ungrouped : List Nat → List Item → Option (List Item)
  | [], [] => some []
  | _ :: _, [] => none
  | stack, ⟨n, .startGroup⟩ :: more => ungrouped (n :: stack) more
  | [], ⟨_, .endGroup⟩ :: _ => none
  | m :: stack, ⟨n, .endGroup⟩ :: more => if m = n then ungrouped stack more else none
  | [], item :: more => (ungrouped [] more).map (item :: ·)
  | m :: stack, _ :: more => ungrouped (m :: stack) more

/-- The top-level fields of a message, absent when the bytes are malformed. -/
def parse (bs : List UInt8) : Option (List Item) :=
  (items bs.length bs).bind (ungrouped [])

/-! ## Writing -/

/-- The wire type of a payload. -/
def Payload.wireType : Payload → Nat
  | varint _ => 0
  | fixed64 _ => 1
  | len _ => 2
  | startGroup => 3
  | endGroup => 4
  | fixed32 _ => 5

/-- The bytes after the tag. -/
def Payload.bytes : Payload → List UInt8
  | varint n => Varint.encode n
  | fixed64 n => leBytes 8 n
  | len bs => Varint.encode bs.length ++ bs
  | startGroup | endGroup => []
  | fixed32 n => leBytes 4 n

/-- The encoding of one item. -/
def Item.encode (item : Item) : List UInt8 :=
  Varint.encode (8 * item.number + item.payload.wireType) ++ item.payload.bytes

/-- The encoding of a message. -/
def encode (fields : List Item) : List UInt8 := fields.flatMap Item.encode

/-- The payload is in the range of its wire type and no group marker. -/
def Payload.Plain : Payload → Prop
  | varint n => n < 2 ^ 64
  | fixed64 n => n < 2 ^ 64
  | len bs => bs.length < 2 ^ 31
  | startGroup | endGroup => False
  | fixed32 n => n < 2 ^ 32

/-- An item a writer may put on the wire by itself. -/
structure Item.Plain (item : Item) : Prop where
  number_pos : 0 < item.number
  number_lt : item.number < 2 ^ 29
  payload : item.payload.Plain

/-- Reading back one plain payload, whatever follows it. -/
theorem readPayload_bytes {payload : Payload} (h : payload.Plain) (rest : List UInt8) :
    readPayload payload.wireType (payload.bytes ++ rest) = some (payload, rest) := by
  cases payload with
  | varint n =>
    have hn : n < 2 ^ 64 := h
    have hread := Varint.decode_encode (k := 9) rest (n := n) (by omega)
    simpa [readPayload, Payload.wireType, Payload.bytes, hread] using hn
  | fixed64 n =>
    have hn : n < 2 ^ 64 := h
    have hlen : (leBytes 8 n).length = 8 := length_leBytes 8 n
    simp only [readPayload, Payload.wireType, Payload.bytes]
    rw [if_neg (by simp), List.take_left' hlen, List.drop_left' hlen, leValue_leBytes (by omega)]
  | len bs =>
    have hn : bs.length < 2 ^ 31 := h
    have hread := Varint.decode_encode (k := 4) (bs ++ rest) (n := bs.length) (by omega)
    simp [readPayload, Payload.wireType, Payload.bytes, hread]
  | startGroup => exact h.elim
  | endGroup => exact h.elim
  | fixed32 n =>
    have hn : n < 2 ^ 32 := h
    have hlen : (leBytes 4 n).length = 4 := length_leBytes 4 n
    simp only [readPayload, Payload.wireType, Payload.bytes]
    rw [if_neg (by simp), List.take_left' hlen, List.drop_left' hlen, leValue_leBytes (by omega)]

/-- Reading back one plain item, whatever follows it. -/
theorem next_encode {item : Item} (h : item.Plain) (rest : List UInt8) :
    next (item.encode ++ rest) = some (item, rest) := by
  obtain ⟨number, payload⟩ := item
  obtain ⟨hpos, hlt, hp⟩ := h
  simp only at hpos hlt
  have htype : payload.wireType < 8 := by cases payload <;> simp [Payload.wireType]
  have hdiv : (8 * number + payload.wireType) / 8 = number := by omega
  have hmod : (8 * number + payload.wireType) % 8 = payload.wireType := by omega
  have htag := Varint.decode_encode (k := 4) (n := 8 * number + payload.wireType)
    (payload.bytes ++ rest) (by omega)
  rw [next, Item.encode, List.append_assoc, htag]
  simp only [Option.bind_some]
  rw [if_neg (by omega), hdiv, hmod, readPayload_bytes hp, Option.map_some]

theorem Item.encode_ne_nil (item : Item) : item.encode ≠ [] := by
  simp [Item.encode, Varint.encode_ne_nil]

/-- Any fuel from the length of the message on reads all its items. -/
private theorem items_encode {fields : List Item} (h : ∀ item ∈ fields, item.Plain) {k : Nat}
    (hk : (encode fields).length ≤ k) : items k (encode fields) = some fields := by
  induction fields generalizing k with
  | nil => cases k <;> rfl
  | cons item fields ih =>
    have hsplit : encode (item :: fields) = item.encode ++ encode fields := rfl
    have hpos := List.length_pos_iff.mpr item.encode_ne_nil
    rw [hsplit, List.length_append] at hk
    obtain ⟨b, bs, hbs⟩ := List.exists_cons_of_ne_nil
      (List.append_ne_nil_of_left_ne_nil item.encode_ne_nil (encode fields))
    cases k with
    | zero => omega
    | succ k =>
      have hrest := ih (fun i hi => h i (List.mem_cons_of_mem item hi)) (k := k) (by omega)
      have hnext := next_encode (h item List.mem_cons_self) (encode fields)
      rw [hsplit, hbs]
      rw [hbs] at hnext
      simp [items, hnext, hrest]

private theorem ungrouped_plain {fields : List Item} (h : ∀ item ∈ fields, item.Plain) :
    ungrouped [] fields = some fields := by
  induction fields with
  | nil => rfl
  | cons item fields ih =>
    have hrest := ih fun i hi => h i (List.mem_cons_of_mem item hi)
    obtain ⟨number, payload⟩ := item
    have hp := (h ⟨number, payload⟩ List.mem_cons_self).payload
    cases payload with
    | startGroup => exact hp.elim
    | endGroup => exact hp.elim
    | _ => simp [ungrouped, hrest]

/-- The parser accepts what the writer wrote, to the last byte, and reads it back. -/
theorem parse_encode {fields : List Item} (h : ∀ item ∈ fields, item.Plain) :
    parse (encode fields) = some fields := by
  rw [parse, items_encode h le_rfl, Option.bind_some, ungrouped_plain h]

end IndustrialIot.Wire
