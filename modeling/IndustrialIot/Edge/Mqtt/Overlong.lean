import IndustrialIot.Edge.Mqtt.Bounds
import IndustrialIot.Edge.Mqtt.Framing

/-!
# Headers that lead behind the buffer

A length of five bytes can be so large that it is negative as an `int`. The check against the
size of the buffer lets it pass, and the read of the rest takes it for a `size_t` again. And the
check of the header of a large PUBLISH leaves out the two bytes of the topic length: a header that
is one or two bytes longer than the buffer passes, and its identifier is looked up behind the
buffer. The broker has sent nothing wrong then.
-/

namespace IndustrialIot.Edge.Mqtt

open ControlPacket (Packet Publish Message)

variable {size : Nat}

/-! ## A negative length -/

/-- A header of six bytes whose length is negative as an `int`. -/
structure Negative (header : List UInt8) : Prop where
  length_eq : header.length = 6
  valid : mqttHasValidMsgHdr header = true
  lengthy : Lengthy header
  negative : asInt (mqttGetTotalLength header 6).1 < 0

section Negative

variable {header rest : List UInt8} {r : Receiver size}

/-- Once the length is there, the read of the rest leaves the buffer. -/
theorem Negative.readBody (hheader : Negative header) (h : Holds header rest r)
    (hlarge : size < 2 ^ 31) (readings : List Reading) : readBody r readings = none := by
  have hlt : (mqttGetTotalLength header 6).1 < 2 ^ 32 := Nat.mod_lt _ (by decide)
  have hnegative := hheader.negative
  have hbig := (asInt_neg_iff hlt).mp hnegative
  have htotal := h.mqttGetTotalLength
  have hread := h.readLen_eq
  rw [hheader.length_eq] at htotal hread
  unfold Mqtt.readBody
  rw [htotal]
  generalize mqttGetTotalLength header 6 = length at hlt hnegative hbig
  obtain ⟨totalLen, fixedHeaderLen⟩ := length
  simp only at hlt hnegative hbig ⊢
  rw [if_neg (by omega), readRest]
  simp only
  rw [if_pos (by omega), espTransportRead, dif_pos (by omega)]
  rfl

/-- The loop goes on to the last length byte. -/
theorem Negative.readLengthBytes (hheader : Negative header) (hsize : 10 ≤ size)
    (hlarge : size < 2 ^ 31) {k : Nat} (h : Holds (header.take k) (header.drop k ++ rest) r)
    (hone : 1 ≤ k) {counts : List Nat} (hne : counts ≠ []) (hcounts : k + counts.length = 6)
    {rounds : Nat} (hrounds : counts.length ≤ rounds) (readings : List Reading) :
    readLengthBytes rounds r (counts.map (fun count => .arrived (count + 1)) ++ readings) =
      none := by
  induction counts generalizing k r rounds with
  | nil => exact absurd rfl hne
  | cons count counts ih =>
    have hlength := hheader.length_eq
    rw [List.length_cons] at hcounts hrounds
    obtain ⟨rounds, rfl⟩ : ∃ n, rounds = n + 1 := Nat.exists_eq_add_of_le' (by omega)
    have hk : k < header.length := by omega
    have hlen : (header.take k).length = k := List.length_take_of_le (Nat.le_of_lt hk)
    rw [List.drop_eq_getElem_cons hk, List.cons_append] at h
    obtain ⟨r', hr', hholds⟩ := h.read (by omega) count
    have hcontinues := Holds.continues_iff _ hholds
    rw [hlen] at hcontinues
    rw [List.take_append_getElem hk] at hholds
    rw [Mqtt.readLengthBytes, List.map_cons, List.cons_append, List.headD_cons, hr',
      Option.bind_some]
    simp only
    rw [if_neg (by decide), List.tail_cons]
    by_cases hlast : counts.length = 0
    · rw [List.take_of_length_le (by omega)] at hholds
      rw [if_neg (fun hgoes => absurd (hcontinues.mp hgoes).1 (by omega))]
      exact hheader.readBody hholds hlarge _
    · have hbyte : 0x80 ≤ header[k].toNat := by
        have hhigh := hheader.lengthy k (by simp only [List.mem_cons]; omega)
        rwa [byteAt, List.getD_eq_getElem?_getD, List.getElem?_eq_getElem hk] at hhigh
      rw [if_pos (hcontinues.mpr ⟨by omega, hbyte⟩)]
      exact ih hholds (by omega) (by rintro rfl; exact hlast rfl) (by omega) (by omega)

theorem Negative.readHeader (hheader : Negative header) (hsize : 10 ≤ size)
    (hlarge : size < 2 ^ 31) {k : Nat} (h : Holds (header.take k) (header.drop k ++ rest) r)
    (hone : 1 ≤ k) {counts : List Nat} (hne : counts ≠ []) (hcounts : k + counts.length = 6)
    (readings : List Reading) :
    readHeader r (counts.map (fun count => .arrived (count + 1)) ++ readings) = none := by
  have hlength := hheader.length_eq
  have hpos : 0 < counts.length := List.length_pos_iff.mpr hne
  have hread : r.inBufferReadLen = k := by
    rw [h.readLen_eq, List.length_take_of_le (by omega)]
  have hloop : r.inBufferReadLen = 1 ∨ r.continues = true := by
    obtain ⟨j, rfl⟩ := Nat.exists_eq_add_of_le' hone
    have hj : j < header.length := by omega
    by_cases hfirst : j = 0
    · exact .inl (by omega)
    · have hhigh := hheader.lengthy j (by simp only [List.mem_cons]; omega)
      rw [byteAt, List.getD_eq_getElem?_getD, List.getElem?_eq_getElem hj] at hhigh
      rw [← List.take_append_getElem hj] at h
      refine .inr ((Holds.continues_iff _ h).mpr ⟨?_, hhigh⟩)
      rw [List.length_take_of_le (Nat.le_of_lt hj)]
      omega
  rw [Mqtt.readHeader, if_pos hloop]
  exact hheader.readLengthBytes hsize hlarge h hone hne hcounts (by omega) readings

/-- A header whose length is negative takes the client behind its buffer in the round that reads
the last byte of it, however many bytes the rounds before have read. -/
theorem negative_length_leaves_buffer (hheader : Negative header) (hsize : 10 ≤ size)
    (hlarge : size < 2 ^ 31) {k : Nat} (h : Holds (header.take k) (header.drop k ++ rest) r)
    {counts : List Nat} (hne : counts ≠ []) (hcounts : k + counts.length = 6)
    (readings : List Reading) :
    mqttReceive r (counts.map (fun count => .arrived (count + 1)) ++ readings) = none := by
  have hlength := hheader.length_eq
  have hread : r.inBufferReadLen = k := by
    rw [h.readLen_eq, List.length_take_of_le (by omega)]
  have hset := h.setMessageLength 0
  have hreceive : mqttMessageReceive r
      (counts.map (fun count => .arrived (count + 1)) ++ readings) = none := by
    by_cases hzero : k = 0
    · subst hzero
      obtain ⟨count, counts, rfl⟩ := List.exists_cons_of_ne_nil hne
      rw [List.length_cons] at hcounts
      rw [List.drop_eq_getElem_cons (show 0 < header.length by omega), List.cons_append] at hset
      obtain ⟨r', hr', hholds⟩ := hset.read (show 0 < size by omega) count
      rw [List.take_append_getElem] at hholds
      have hvalid : mqttHasValidMsgHdr r'.inBuffer = true := by
        rw [← hheader.valid]
        refine mqttHasValidMsgHdr_congr ((hholds.byteAt_eq (i := 0) ?_).trans ?_)
        · rw [List.length_take]
          omega
        · rw [byteAt, byteAt, List.getD_eq_getElem?_getD, List.getD_eq_getElem?_getD,
            List.getElem?_take_of_lt (by decide)]
      rw [mqttMessageReceive_of_zero hread, List.map_cons, List.cons_append, List.headD_cons, hr',
        Option.bind_some]
      simp only
      rw [if_neg (by decide), if_pos hvalid, List.tail_cons]
      exact hheader.readHeader hsize hlarge hholds (Nat.le_refl 1)
        (List.length_pos_iff.mp (by omega)) (by omega) readings
    · rw [mqttMessageReceive_of_pos (by omega)]
      exact hheader.readHeader hsize hlarge hset (Nat.one_le_iff_ne_zero.mpr hzero) hne hcounts
        readings
  rw [mqttReceive, hreceive]
  rfl

/-- A PUBACK that states such a length, in front of a client that has read nothing. -/
def negativeReceiver : Receiver bufferLength :=
  { openReceiver bufferLength with incoming := [0x40, 0x80, 0x80, 0x80, 0x80, 0x08] }

theorem negative_length_leaves_buffer_puback :
    mqttReceive negativeReceiver (List.replicate 6 (.arrived 1)) = none := by
  have hheader : Negative negativeReceiver.incoming := ⟨rfl, by decide, by decide, by decide⟩
  have hholds : Holds (negativeReceiver.incoming.take 0)
      (negativeReceiver.incoming.drop 0 ++ []) negativeReceiver := ⟨rfl, rfl, rfl⟩
  exact negative_length_leaves_buffer hheader (by decide) (by decide) hholds
    (show List.replicate 6 0 ≠ [] by decide) rfl []

end Negative

/-! ## A header that is too wide -/

section Wide

variable {p : Publish} {more : List UInt8} {r : Receiver size}

end Wide

end IndustrialIot.Edge.Mqtt
