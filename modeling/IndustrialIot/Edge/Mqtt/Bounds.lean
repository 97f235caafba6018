import IndustrialIot.Edge.Mqtt.Wire

/-!
# The bounds of the input buffer

The broker may send anything here. Three kinds of headers take the client behind its buffer: one
whose length bytes never end, one whose length is negative as an `int`, and that of a PUBLISH
which is one or two bytes too long for the buffer. The first two have more than four length
bytes, which no MQTT packet has; the third is a valid one.
-/

namespace IndustrialIot.Edge.Mqtt

open ControlPacket (Packet Publish Message encodeAll)

variable {size : Nat}

/-! ## Headers -/

/-- The header of a message has more than four length bytes. -/
def Lengthy (bytes : List UInt8) : Prop := ∀ i ∈ [1, 2, 3, 4], 0x80 ≤ byteAt bytes i

instance (bytes : List UInt8) : Decidable (Lengthy bytes) :=
  inferInstanceAs (Decidable (∀ i ∈ [1, 2, 3, 4], _))

/-- A PUBLISH with an identifier that is larger than the buffer, and so is its header, by one or
two bytes. -/
def Wide (size : Nat) (bytes : List UInt8) : Prop :=
  let (totalLen, fixedHeaderLen) := mqttGetTotalLength bytes 5
  let headerLen := fixedHeaderLen + 2 + wordAt bytes fixedHeaderLen + 2
  (mqttGetType bytes = MsgType.publish.code ∧ 0 < mqttGetQos bytes) ∧ size < totalLen ∧
    size < headerLen ∧ headerLen ≤ size + 2

instance (size : Nat) (bytes : List UInt8) : Decidable (Wide size bytes) :=
  inferInstanceAs (Decidable (_ ∧ _ ∧ _ ∧ _))

/-- One of the first four length bytes has been read and is the last one. -/
def Ended (bytes : List UInt8) (readLen : Nat) : Prop :=
  ∃ i, 1 ≤ i ∧ i ≤ 4 ∧ i < readLen ∧ byteAt bytes i < 0x80

/-- The loop does not see what stands behind the last length byte. -/
theorem lengthBytes_append {bytes : List UInt8} (h : ∃ byte ∈ bytes, byte.toNat < 0x80)
    (more : List UInt8) (i totlen : Nat) :
    lengthBytes (bytes ++ more) i totlen = lengthBytes bytes i totlen := by
  induction bytes generalizing i totlen with
  | nil =>
    obtain ⟨byte, hbyte, _⟩ := h
    exact absurd hbyte List.not_mem_nil
  | cons byte bytes ih =>
    rw [List.cons_append, lengthBytes, lengthBytes]
    split
    · rfl
    · rename_i hcontinues
      rw [(and_groups byte).1, Nat.not_lt] at hcontinues
      obtain ⟨last, hlast, hlow⟩ := h
      rcases List.mem_cons.mp hlast with rfl | hlast
      · omega
      · exact ih ⟨last, hlast, hlow⟩ _ _

/-- The loop stops behind the bytes it is given. -/
theorem lengthBytes_le (bytes : List UInt8) (i totlen : Nat) :
    (lengthBytes bytes i totlen).2 ≤ i + bytes.length := by
  induction bytes generalizing i totlen with
  | nil => exact Nat.le_refl _
  | cons byte bytes ih =>
    rw [lengthBytes, List.length_cons]
    split
    · simp only
      omega
    · have hrest := ih (i + 1) (totlen + (byte.toNat &&& 0x7f) <<< (7 * (i - 1)))
      omega

/-- Each byte adds a digit of base 128. -/
theorem lengthBytes_lt (bytes : List UInt8) (i totlen : Nat) (h : totlen < 128 ^ i) :
    (lengthBytes bytes (i + 1) totlen).1 < 128 ^ (i + bytes.length) := by
  induction bytes generalizing i totlen with
  | nil => exact h
  | cons byte bytes ih =>
    have hgroup : byte.toNat &&& 0x7f < 128 := by
      rw [(and_groups byte).2]
      exact Nat.mod_lt _ (by decide)
    have hmore : totlen + (byte.toNat &&& 0x7f) <<< (7 * (i + 1 - 1)) < 128 ^ (i + 1) := by
      rw [Nat.add_sub_cancel, Nat.shiftLeft_eq, Nat.pow_mul, Nat.pow_succ]
      change totlen + (byte.toNat &&& 0x7f) * 128 ^ i < 128 ^ i * 128
      have hmul := Nat.mul_le_mul_right (128 ^ i) (Nat.le_of_lt_succ hgroup)
      omega
    rw [lengthBytes, List.length_cons]
    split
    · exact Nat.lt_of_lt_of_le hmore (Nat.pow_le_pow_right (by decide) (by omega))
    · have hrest := ih (i + 1) _ hmore
      rw [show i + 1 + bytes.length = i + (bytes.length + 1) by omega] at hrest
      exact hrest

section Ended

variable {bytes : List UInt8} {readLen : Nat}

/-- What the loop finds does not depend on how much more has been read. -/
theorem Ended.fixedHeader_eq (h : Ended bytes readLen) :
    fixedHeader bytes readLen = fixedHeader bytes 5 := by
  obtain ⟨i, hpos, hfour, hlt, hlow⟩ := h
  have hpart : ∀ length, i < length → fixedHeader bytes length = fixedHeader bytes (i + 1) := by
    intro length hlength
    by_cases hi : i < bytes.length
    · have hsplit : (bytes.take length).drop 1 =
          (bytes.take (i + 1)).drop 1 ++ (bytes.take length).drop (i + 1) := by
        rw [← List.take_append_drop i ((bytes.take length).drop 1), List.drop_drop,
          List.take_drop, List.take_take, Nat.min_eq_left (by omega), Nat.add_comm 1 i]
      have hmem : ∃ byte ∈ (bytes.take (i + 1)).drop 1, byte.toNat < 0x80 := by
        refine ⟨bytes[i], List.mem_iff_getElem?.mpr ⟨i - 1, ?_⟩, ?_⟩
        · rw [List.getElem?_drop, Nat.add_sub_cancel' hpos, List.getElem?_take_of_lt (by omega),
            List.getElem?_eq_getElem hi]
        · rwa [byteAt, List.getD_eq_getElem?_getD, List.getElem?_eq_getElem hi] at hlow
      rw [fixedHeader, hsplit, lengthBytes_append hmem]
      rfl
    · rw [fixedHeader, fixedHeader, List.take_of_length_le (by omega),
        List.take_of_length_le (by omega)]
  rw [hpart readLen hlt, hpart 5 (by omega)]

theorem fixedHeader_lt (bytes : List UInt8) :
    (fixedHeader bytes 5).1 < 128 ^ 4 ∧ (fixedHeader bytes 5).2 ≤ 5 := by
  have hlength : ((bytes.take 5).drop 1).length ≤ 4 := by
    rw [List.length_drop, List.length_take]
    omega
  have hlt := lengthBytes_lt ((bytes.take 5).drop 1) 0 0 (by decide)
  have hle := lengthBytes_le ((bytes.take 5).drop 1) 1 0
  have hpow : 128 ^ (0 + ((bytes.take 5).drop 1).length) ≤ 128 ^ 4 :=
    Nat.pow_le_pow_right (by decide) (by omega)
  exact ⟨Nat.lt_of_lt_of_le hlt hpow, Nat.le_trans hle (by omega)⟩

theorem mqttGetTotalLength_lt (bytes : List UInt8) :
    (mqttGetTotalLength bytes 5).1 < 2 ^ 31 ∧ (mqttGetTotalLength bytes 5).2 ≤ 5 := by
  obtain ⟨hlt, hle⟩ := fixedHeader_lt bytes
  refine ⟨?_, hle⟩
  change ((fixedHeader bytes 5).1 + (fixedHeader bytes 5).2) % 2 ^ 32 < 2 ^ 31
  omega

end Ended

/-! ## A call within some bytes -/

/-- The identifier of a message is looked up within the buffer. -/
def Handable (r : Receiver size) : Prop := ∃ id, mqttGetId r.inBuffer r.messageLength = some id

/-- What a call within some bytes comes to: it goes on in them, and leaves the buffer only where
the header of a message does not end, or does not fit. -/
structure Stays (bytes : List UInt8) (result : Option (Reception size)) : Prop where
  amid : ∀ reception ∈ result, reception.1 ≠ .failure → Amid bytes reception.2.1
  ends : ¬ Lengthy bytes → ∃ reception, result = some reception ∧
    (reception.1 = .message → ¬ Wide size bytes → Handable reception.2.1)

section Amid

variable {bytes : List UInt8} {r : Receiver size}

theorem Amid.fixedHeader_eq (h : Amid bytes r) :
    fixedHeader r.inBuffer r.inBufferReadLen = fixedHeader bytes r.inBufferReadLen :=
  congrArg (fun xs => lengthBytes (List.drop 1 xs) 1 0) h.held_eq

theorem Amid.mqttGetTotalLength (h : Amid bytes r) (hended : Ended bytes r.inBufferReadLen) :
    mqttGetTotalLength r.inBuffer r.inBufferReadLen = mqttGetTotalLength bytes 5 := by
  rw [Mqtt.mqttGetTotalLength, h.fixedHeader_eq, hended.fixedHeader_eq]
  rfl

/-- A read brings what has arrived of what it is asked for. -/
theorem espTransportRead_arrived {offset len count : Nat} {n : Int} {r' : Receiver size}
    (h : espTransportRead r offset len (.arrived count) = some (n, r')) :
    n = (min (min count len) r.incoming.length : Nat) := by
  unfold espTransportRead at h
  split at h
  · cases h
  · rw [← (Prod.mk.inj (Option.some.inj h)).1, List.length_take]

theorem Stays.of_some {reception : Reception size} (hamid : Amid bytes reception.2.1)
    (hmessage : reception.1 ≠ .message) : Stays bytes (some reception) where
  amid := by
    rintro _ ⟨⟩ _
    exact hamid
  ends _ := ⟨_, rfl, fun h => absurd h hmessage⟩

theorem Stays.failure (r : Receiver size) (left : List Reading) :
    Stays bytes (some (.failure, r, left)) where
  amid := by
    rintro _ ⟨⟩ h
    exact absurd rfl h
  ends _ := ⟨_, rfl, fun h => nomatch h⟩

/-- A read, and what is made of it. -/
theorem Stays.bind {result : Option (Int × Receiver size)}
    {next : Int × Receiver size → Option (Reception size)}
    (hroom : ¬ Lengthy bytes → ∃ read, result = some read)
    (hnext : ∀ read ∈ result, Stays bytes (next read)) : Stays bytes (result.bind next) where
  amid := by
    intro reception hreception
    obtain ⟨read, hread, hreception⟩ := Option.bind_eq_some_iff.mp hreception
    exact (hnext read hread).amid reception hreception
  ends hlengthy := by
    obtain ⟨read, rfl⟩ := hroom hlengthy
    exact (hnext read rfl).ends hlengthy

theorem handleTransportReadError_ne_message (err : Int) (midMessage : Bool) :
    handleTransportReadError err midMessage ≠ .message := by
  unfold handleTransportReadError
  split
  · cases midMessage <;> simp
  · simp

end Amid

section Stays

variable {bytes : List UInt8} {r : Receiver size}

/-- The rest of a message, where it is looked up within the buffer once it is there. -/
theorem stays_readRest (h : Amid bytes r) {totalLen : Nat}
    (hroom : ¬ Lengthy bytes → totalLen ≤ size)
    (hmessage : ¬ Lengthy bytes → ¬ Wide size bytes → ∀ r' : Receiver size, Amid bytes r' →
      r'.messageLength = r.messageLength → totalLen ≤ r'.inBufferReadLen → Handable r')
    (readings : List Reading) : Stays bytes (readRest r totalLen readings) := by
  have hdone : ∀ (r' : Receiver size) (left : List Reading), Amid bytes r' →
      r'.messageLength = r.messageLength → totalLen ≤ r'.inBufferReadLen →
      Stays bytes (some (.message, r', left)) := by
    intro r' left hamid hsame hall
    refine ⟨?_, fun hlengthy => ⟨_, rfl, fun _ hwide => ?_⟩⟩
    · rintro _ ⟨⟩ _
      exact hamid
    · exact hmessage hlengthy hwide r' hamid hsame hall
  unfold readRest
  split
  · rename_i hlt
    rw [Option.map_eq_bind]
    refine .bind (fun hlengthy => ?_) ?_
    · have hfits := hroom hlengthy
      exact espTransportRead_of_room (by omega) _
    · rintro ⟨n, r'⟩ hread
      rcases h.read hread with ⟨hle, rfl, _⟩ | ⟨hpos, _, _, hsame, hamid⟩
      · simp only [Function.comp_apply, if_pos hle]
        exact .of_some h (handleTransportReadError_ne_message _ _)
      · simp only [Function.comp_apply, if_neg (Int.not_le.mpr hpos)]
        split
        · exact .of_some hamid (by simp)
        · rename_i hall
          exact hdone _ _ hamid hsame (Nat.not_lt.mp hall)
  · rename_i hall
    exact hdone _ _ h rfl (Nat.not_lt.mp hall)

/-- What has been read of a message that fits is in the buffer. -/
theorem handable_of_fits (h : r.messageLength ≤ size) : Handable r :=
  exists_mqttGetId (by rw [r.length_inBuffer]; exact h)

/-- The identifier of a PUBLISH that fills the buffer is in it, unless the header is too wide. -/
theorem Amid.handable_of_full (h : Amid bytes r) (hsize : 10 ≤ size)
    (hfull : size ≤ r.inBufferReadLen) {readLen fixedHeaderLen : Nat} (hended : Ended bytes readLen)
    (hheader : Mqtt.mqttGetTotalLength bytes 5 = (r.messageLength, fixedHeaderLen))
    (hlarge : size < r.messageLength) (htype : mqttGetType bytes = MsgType.publish.code)
    (hcheck : fixedHeaderLen + wordAt bytes fixedHeaderLen +
      (if 0 < mqttGetQos bytes then 2 else 0) ≤ size)
    (hwide : ¬ Wide size bytes) : Handable r := by
  have hfixed : fixedHeaderLen ≤ 5 := by
    have hle := (mqttGetTotalLength_lt bytes).2
    rwa [hheader] at hle
  have hread : r.inBufferReadLen = size := Nat.le_antisymm h.readLen_le hfull
  have hbuffer : r.inBuffer = bytes.take size := by
    have hheld := h.held_eq
    rwa [Receiver.held, hread, List.take_of_length_le (Nat.le_of_eq r.length_inBuffer)] at hheld
  have hbyte : ∀ i, i < size → byteAt r.inBuffer i = byteAt bytes i :=
    fun i hi => h.byteAt_eq (by omega)
  have hlength := r.length_inBuffer
  obtain ⟨i, hpos, hfour, _, hlow⟩ := hended
  -- The loop finds the header again, however many bytes it may look at.
  have hagain : (fixedHeader r.inBuffer r.messageLength).2 = fixedHeaderLen := by
    have hended : Ended bytes size := ⟨i, hpos, hfour, by omega, hlow⟩
    rw [fixedHeader, List.take_of_length_le (by omega), hbuffer]
    exact (congrArg Prod.snd hended.fixedHeader_eq).trans (congrArg Prod.snd hheader)
  have hclosed : ¬ (r.inBuffer.length < r.messageLength ∧
      (r.inBuffer.drop 1).all (fun byte => byte.toNat &&& 0x80 != 0) = true) := by
    rintro ⟨_, hopen⟩
    simp only [List.all_eq_true, bne_iff_ne] at hopen
    have hi : i < r.inBuffer.length := by omega
    rw [← hbyte i (by omega), byteAt, List.getD_eq_getElem?_getD,
      List.getElem?_eq_getElem hi] at hlow
    refine hopen r.inBuffer[i] (List.mem_iff_getElem?.mpr ⟨i - 1, ?_⟩) ((and_groups _).1.mpr hlow)
    rw [List.getElem?_drop, Nat.add_sub_cancel' hpos, List.getElem?_eq_getElem hi]
  have htype' : mqttGetType r.inBuffer = 3 := by
    rw [mqttGetType_congr (hbyte 0 (by omega)), htype]
    rfl
  have hqos : mqttGetQos r.inBuffer = mqttGetQos bytes := by
    rw [mqttGetQos, hbyte 0 (by omega), mqttGetQos]
  have hword : wordAt r.inBuffer fixedHeaderLen = wordAt bytes fixedHeaderLen := by
    rw [wordAt, hbyte _ (by omega), hbyte _ (by omega), wordAt]
  unfold Handable mqttGetId
  rw [if_neg (by omega), if_pos htype', publishId, if_neg hclosed]
  simp only [hagain, hqos]
  rw [if_neg (by omega), readWord, if_pos (by omega), Option.bind_some, hword]
  split
  · exact ⟨_, rfl⟩
  · split
    · rename_i hid
      rw [if_pos hid.1] at hcheck
      have hfits : fixedHeaderLen + 2 + wordAt bytes fixedHeaderLen + 2 ≤ size := by
        by_contra hout
        refine hwide ?_
        unfold Wide
        rw [hheader]
        exact ⟨⟨htype, hid.1⟩, hlarge, Nat.not_le.mp hout, by omega⟩
      rw [readWord, if_pos (by omega), Option.map_some]
      exact ⟨_, rfl⟩
    · exact ⟨_, rfl⟩

/-- What a large PUBLISH says of itself is known, unless its length bytes do not end. -/
def KnowsLarge (bytes : List UInt8) (r : Receiver size) (fixedHeaderLen : Nat) : Prop :=
  ¬ Lengthy bytes → (∃ readLen, Ended bytes readLen) ∧
    mqttGetTotalLength bytes 5 = (r.messageLength, fixedHeaderLen) ∧ size < r.messageLength ∧
    mqttGetType bytes = MsgType.publish.code

theorem stays_readTopic (h : Amid bytes r) (hsize : 10 ≤ size) {fixedHeaderLen : Nat}
    (hknows : KnowsLarge bytes r fixedHeaderLen) (hthere : fixedHeaderLen + 2 ≤ r.inBufferReadLen)
    (readings : List Reading) : Stays bytes (readTopic r fixedHeaderLen readings) := by
  have hword : wordAt r.inBuffer fixedHeaderLen = wordAt bytes fixedHeaderLen := by
    rw [wordAt, h.byteAt_eq (by omega), h.byteAt_eq (by omega), wordAt]
  have hqos : mqttGetQos r.inBuffer = mqttGetQos bytes := by
    rw [mqttGetQos, h.byteAt_eq (by omega), mqttGetQos]
  unfold readTopic
  simp only [hword, hqos]
  by_cases hcheck : size < fixedHeaderLen + wordAt bytes fixedHeaderLen +
      (if 0 < mqttGetQos bytes then 2 else 0)
  · rw [if_pos hcheck]
    exact .failure ..
  · rw [if_neg hcheck]
    refine stays_readRest h (fun _ => Nat.le_refl size) ?_ readings
    intro hlengthy hwide r' hamid hsame hfull
    obtain ⟨⟨readLen, hended⟩, hheader, hlarge, htype⟩ := hknows hlengthy
    exact hamid.handable_of_full hsize hfull hended (hsame.symm ▸ hheader) (hsame.symm ▸ hlarge)
      htype (Nat.not_lt.mp hcheck) hwide

theorem stays_readLarge (h : Amid bytes r) (hsize : 10 ≤ size) {fixedHeaderLen : Nat}
    (hknows : mqttGetType r.inBuffer = MsgType.publish.code → KnowsLarge bytes r fixedHeaderLen)
    (readings : List Reading) : Stays bytes (readLarge r fixedHeaderLen readings) := by
  unfold readLarge
  by_cases htype : mqttGetType r.inBuffer = MsgType.publish.code
  · replace hknows := hknows htype
    rw [if_pos htype]
    by_cases hshort : r.inBufferReadLen < fixedHeaderLen + 2
    · rw [if_pos hshort]
      refine .bind (fun hlengthy => ?_) ?_
      · have hfixed := (mqttGetTotalLength_lt bytes).2
        rw [(hknows hlengthy).2.1] at hfixed
        exact espTransportRead_of_room (by omega) _
      · rintro ⟨n, r'⟩ hread
        rcases h.read hread with ⟨hle, rfl, _⟩ | ⟨hpos, _, _, hsame, hamid⟩
        · simp only [if_pos hle]
          exact .of_some h (handleTransportReadError_ne_message _ _)
        · simp only [if_neg (Int.not_le.mpr hpos)]
          split
          · exact .of_some hamid (by simp)
          · rename_i hthere
            refine stays_readTopic hamid hsize ?_ (Nat.not_lt.mp hthere) readings.tail
            intro hlengthy
            exact hsame ▸ hknows hlengthy
    · rw [if_neg hshort]
      exact stays_readTopic h hsize hknows (Nat.not_lt.mp hshort) readings
  · rw [if_neg htype]
    exact .failure ..

/-- Behind the last length byte. -/
theorem stays_readBody (h : Amid bytes r) (hsize : 10 ≤ size) (hone : 1 ≤ r.inBufferReadLen)
    (hended : ¬ Lengthy bytes → Ended bytes r.inBufferReadLen) (readings : List Reading) :
    Stays bytes (readBody r readings) := by
  rcases hlength : mqttGetTotalLength r.inBuffer r.inBufferReadLen with ⟨totalLen, fixedHeaderLen⟩
  have hset := h.setMessageLength totalLen
  have hheader : ¬ Lengthy bytes →
      mqttGetTotalLength bytes 5 = (totalLen, fixedHeaderLen) ∧ asInt totalLen = totalLen := by
    intro hlengthy
    have hsame := h.mqttGetTotalLength (hended hlengthy)
    have hlt := (mqttGetTotalLength_lt bytes).1
    rw [← hsame, hlength] at hlt
    exact ⟨hsame.symm.trans hlength, asInt_of_lt hlt⟩
  unfold readBody
  rw [hlength]
  simp only
  by_cases hlarge : (size : Int) < asInt totalLen
  · rw [if_pos hlarge]
    refine stays_readLarge hset hsize ?_ readings
    intro htype hlengthy
    obtain ⟨hheader, hint⟩ := hheader hlengthy
    rw [hint] at hlarge
    exact ⟨⟨_, hended hlengthy⟩, hheader, Int.ofNat_lt.mp hlarge,
      (mqttGetType_congr (h.byteAt_eq (by omega))).symm.trans htype⟩
  · rw [if_neg hlarge]
    have hfits : ¬ Lengthy bytes → totalLen ≤ size := by
      intro hlengthy
      rw [(hheader hlengthy).2] at hlarge
      exact Int.ofNat_le.mp (Int.not_lt.mp hlarge)
    refine stays_readRest hset hfits ?_ readings
    intro hlengthy _ r' _ hsame _
    exact handable_of_fits (hsame ▸ hfits hlengthy)

/-- Where the loop over the length bytes is not taken up, one of them is the last. -/
theorem Amid.ended (h : Amid bytes r) (htwo : 2 ≤ r.inBufferReadLen)
    (hcontinues : ¬ r.continues = true) (hlengthy : ¬ Lengthy bytes) :
    Ended bytes r.inBufferReadLen := by
  by_cases hsix : 6 ≤ r.inBufferReadLen
  · rw [Lengthy, not_forall] at hlengthy
    obtain ⟨i, hi⟩ := hlengthy
    obtain ⟨hmem, hlow⟩ := Classical.not_imp.mp hi
    have hrange : 1 ≤ i ∧ i ≤ 4 := by
      simp only [List.mem_cons, List.not_mem_nil, or_false] at hmem
      omega
    exact ⟨i, hrange.1, hrange.2, by omega, Nat.not_le.mp hlow⟩
  · refine ⟨r.inBufferReadLen - 1, by omega, by omega, by omega, ?_⟩
    rw [← h.byteAt_eq (by omega)]
    have hlast : byteAt r.inBuffer (r.inBufferReadLen - 1) &&& 0x80 = 0 := by
      by_contra hne
      exact hcontinues (decide_eq_true_iff.mpr ⟨by omega, hne⟩)
    exact (and_groups (r.inBuffer.getD (r.inBufferReadLen - 1) 0)).1.mp hlast

theorem stays_readLengthBytes (h : Amid bytes r) (hsize : 10 ≤ size)
    (hone : 1 ≤ r.inBufferReadLen) (hfive : r.inBufferReadLen ≤ 5) {rounds : Nat}
    (hrounds : 6 ≤ r.inBufferReadLen + rounds) (readings : List Reading) :
    Stays bytes (readLengthBytes rounds r readings) := by
  induction rounds generalizing r readings with
  | zero => omega
  | succ rounds ih =>
    rw [readLengthBytes]
    refine .bind (fun _ => espTransportRead_of_room (by omega) _) ?_
    rintro ⟨n, r'⟩ hread
    rcases h.read hread with ⟨hle, rfl, _⟩ | ⟨hpos, hn, hsame, _, hamid⟩
    · simp only [if_pos hle]
      exact .of_some h (handleTransportReadError_ne_message _ _)
    · obtain rfl : n = 1 := by omega
      have hadvance : (r'.advance 1).inBufferReadLen = r.inBufferReadLen + 1 :=
        congrArg (· + 1) hsame
      simp only [if_neg (Int.not_le.mpr hpos)]
      split
      · rename_i hcontinues
        have hlt := (decide_eq_true_iff.mp hcontinues).1
        exact ih hamid (by omega) (by omega) (by omega) readings.tail
      · rename_i hcontinues
        exact stays_readBody hamid hsize (by omega) (hamid.ended (by omega) hcontinues)
          readings.tail

theorem stays_readHeader (h : Amid bytes r) (hsize : 10 ≤ size) (hone : 1 ≤ r.inBufferReadLen)
    (readings : List Reading) : Stays bytes (readHeader r readings) := by
  unfold readHeader
  split
  · rename_i hloop
    have hfive : r.inBufferReadLen ≤ 5 := by
      rcases hloop with hone | hcontinues
      · omega
      · have hlt := (decide_eq_true_iff.mp hcontinues).1
        omega
    exact stays_readLengthBytes h hsize hone hfive (by omega) readings
  · rename_i hloop
    obtain ⟨hne, hcontinues⟩ := not_or.mp hloop
    exact stays_readBody h hsize hone (h.ended (by omega) hcontinues) readings

/-- A call of `mqtt_message_receive` leaves the buffer only where the length bytes do not end. -/
theorem stays_mqttMessageReceive (h : Amid bytes r) (hsize : 10 ≤ size)
    (readings : List Reading) : Stays bytes (mqttMessageReceive r readings) := by
  have hset := h.setMessageLength 0
  by_cases hzero : r.inBufferReadLen = 0
  · rw [mqttMessageReceive_of_zero hzero]
    refine .bind (fun _ => espTransportRead_of_room (show r.inBufferReadLen + 1 ≤ size by omega) _)
      ?_
    rintro ⟨n, r'⟩ hread
    rcases hset.read hread with ⟨hle, rfl, _⟩ | ⟨hpos, hn, hsame, _, hamid⟩
    · simp only [if_pos hle]
      exact .of_some hset (handleTransportReadError_ne_message _ _)
    · obtain rfl : n = 1 := by omega
      simp only [if_neg (Int.not_le.mpr hpos)]
      split
      · exact stays_readHeader hamid hsize (Nat.le_add_left 1 _) readings.tail
      · exact .failure ..
  · rw [mqttMessageReceive_of_pos (Nat.pos_of_ne_zero hzero)]
    exact stays_readHeader hset hsize (Nat.one_le_iff_ne_zero.mpr hzero) readings

end Stays

/-! ## Handing on -/

section Handing

variable {bytes : List UInt8} {r : Receiver size}

/-- Handing on reads into the buffer from its start. -/
theorem exists_deliverRest (event : DataEvent) (total readLen offset : Nat)
    (readings : List Reading) :
    ∃ result, deliverRest event total r readLen offset readings = some result := by
  have hroom : ∀ readLen, 0 + min (total - readLen) size ≤ size := by omega
  induction readings generalizing r event readLen offset with
  | nil =>
    obtain ⟨_, hread⟩ := espTransportRead_of_room (r := r) (hroom readLen) .timeout
    rw [deliverRest, hread]
    split <;> exact ⟨_, rfl⟩
  | cons reading readings ih =>
    rw [deliverRest]
    split
    · obtain ⟨⟨n, r'⟩, hread⟩ := espTransportRead_of_room (r := r) (hroom readLen) reading
      rw [hread, Option.bind_some]
      simp only
      split
      · exact ⟨_, rfl⟩
      · generalize List.take n.toNat r'.inBuffer = data
        obtain ⟨_, hrest⟩ := ih (r := r')
          { event with topic := none, data := data, currentDataOffset := offset }
          (readLen + data.length) (offset + data.length)
        rw [hrest]
        exact ⟨_, rfl⟩
    · exact ⟨_, rfl⟩

theorem exists_received (h : Handable r) (hr : r.inBufferReadLen ≤ size)
    (readings : List Reading) : ∃ result, received r readings = some result := by
  obtain ⟨msgId, hmsgId⟩ := h
  unfold received
  rw [hmsgId, Option.bind_some]
  simp only
  split
  · unfold deliverPublish
    cases mqttGetPublishTopic r.inBuffer r.inBufferReadLen with
    | none => exact ⟨_, rfl⟩
    | some topic =>
      obtain ⟨id, hid⟩ := exists_mqttGetId (Nat.le_trans hr r.length_inBuffer.ge)
      simp only [hid, Option.bind_some]
      generalize (mqttGetPublishData r.inBuffer r.inBufferReadLen).getD [] = data
      obtain ⟨_, hrest⟩ := exists_deliverRest (r := r) (firstEvent r topic data id)
        r.messageLength r.inBufferReadLen data.length readings
      rw [hrest]
      exact ⟨_, rfl⟩
  all_goals exact ⟨_, rfl⟩

theorem received_ne_nothing {readings : List Reading} :
    ∀ result ∈ received r readings, result.1 ≠ .nothing := by
  intro result hresult
  obtain ⟨msgId, _, hresult⟩ := Option.bind_eq_some_iff.mp hresult
  simp only at hresult
  split at hresult
  · obtain ⟨_, _, rfl⟩ := Option.map_eq_some_iff.mp hresult
    simp
  all_goals
    cases hresult
    simp

/-- A round leaves the buffer only where the header of a message does not end, or does not
fit. -/
theorem Amid.mqttReceive (h : Amid bytes r) (hsize : 10 ≤ size) (hlengthy : ¬ Lengthy bytes)
    (hwide : ¬ Wide size bytes) (readings : List Reading) : mqttReceive r readings ≠ none := by
  have hstays := stays_mqttMessageReceive h hsize readings
  obtain ⟨⟨receipt, r', left⟩, hresult, hhandable⟩ := hstays.ends hlengthy
  unfold Mqtt.mqttReceive
  rw [hresult, Option.bind_some]
  cases receipt with
  | failure | nothing | stalled => simp
  | message =>
    obtain ⟨_, hreceived⟩ := exists_received (hhandable rfl hwide)
      (hstays.amid _ hresult (by simp)).readLen_le left
    simp [hreceived]

/-- A round that ends within a message leaves what it has read in the buffer. -/
theorem Amid.of_nothing (h : Amid bytes r) (hsize : 10 ≤ size) {readings : List Reading}
    {events : List DataEvent} {r' : Receiver size}
    (hreceive : Mqtt.mqttReceive r readings = some (.nothing, events, r')) : Amid bytes r' := by
  have hstays := stays_mqttMessageReceive h hsize readings
  obtain ⟨⟨receipt, r'', left⟩, hresult, hreceive⟩ := Option.bind_eq_some_iff.mp hreceive
  cases receipt with
  | failure => cases hreceive
  | nothing =>
    cases hreceive
    exact hstays.amid _ hresult (by simp)
  | stalled =>
    have hsame := (Prod.mk.inj (Prod.mk.inj (Option.some.inj hreceive)).2).2
    subst hsame
    exact hstays.amid _ hresult (by simp)
  | message => exact absurd rfl (received_ne_nothing _ hreceive)

/-- The wait for a CONNACK, which looks for no identifier. -/
theorem awaitConnack_ne_none (h : Amid bytes r) (hsize : 10 ≤ size) (hlengthy : ¬ Lengthy bytes)
    (attempts : List (List Reading)) : awaitConnack r attempts ≠ none := by
  induction attempts generalizing r with
  | nil => simp [awaitConnack]
  | cons readings attempts ih =>
    have hstays := stays_mqttMessageReceive h hsize readings
    obtain ⟨⟨receipt, r', left⟩, hresult, _⟩ := hstays.ends hlengthy
    rw [awaitConnack, hresult, Option.bind_some]
    simp only
    split
    · rename_i hnothing
      exact ih (hstays.amid _ hresult (by simp [hnothing]))
    · simp

end Handing

/-! ## The headers of messages -/

section Message

variable {m : Message} {more : List UInt8}

theorem byteAt_encode_append (p : Packet) (more : List UInt8) {i : Nat}
    (hi : i < p.encode.length) : byteAt (p.encode ++ more) i = byteAt p.encode i := by
  rw [byteAt, byteAt, List.getD_eq_getElem?_getD, List.getD_eq_getElem?_getD,
    List.getElem?_append_left hi]

/-- The length of a packet has four bytes at most. -/
theorem not_lengthy_encode (p : Packet) (more : List UInt8) : ¬ Lengthy (p.encode ++ more) := by
  intro hlengthy
  have hfixed := p.fixed_bounds
  have hlength := p.length_encode
  have hlast := hlengthy (p.fixed - 1) (by simp only [List.mem_cons]; omega)
  rw [byteAt_encode_append p more (by omega), continues_iff_lens p (by omega) (by omega)] at hlast
  omega

/-- When a PUBLISH is wide. -/
theorem wide_publish_iff (p : Publish) (more : List UInt8) :
    Wide size (p.packet.encode ++ more) ↔
      0 < p.qos ∧ size < p.header.length ∧ p.header.length ≤ size + 2 := by
  have hfixed := p.packet.fixed_bounds
  have hlt := p.packet.body_lt
  have hlength := p.packet.length_encode
  have hheader := p.length_header
  have hsplit : p.packet.encode ++ more = p.header ++ (p.payload ++ more) := by
    rw [p.encode_packet, List.append_assoc]
  have hpacket := p.length_packet
  have htotal : mqttGetTotalLength (p.packet.encode ++ more) 5 =
      (p.packet.encode.length, p.packet.fixed) := by
    have hfound : fixedHeader (p.packet.encode ++ more) 5 = _ :=
      fixedHeader_eq p.packet (p.packet.body ++ more) (by simp [Packet.encode]) hfixed.2
    rw [mqttGetTotalLength, hfound]
    exact Prod.ext (show (_ + _) % _ = _ by omega) rfl
  obtain ⟨htype, hqos⟩ := (publishFirst_flags p (p.packet.lens ++ p.packet.body ++ more)).1
  have hcons : p.packet.encode ++ more =
      p.packet.first :: (p.packet.lens ++ p.packet.body ++ more) := by
    simp [Packet.encode]
  rw [← hcons] at htype hqos
  unfold Wide
  rw [htotal, htype, hqos, hsplit]
  simp only [wordAt_topic]
  constructor
  · rintro ⟨⟨_, hpos⟩, _, hover, hfits⟩
    rw [if_pos hpos] at hheader
    exact ⟨hpos, by omega, by omega⟩
  · rintro ⟨hpos, hover, hfits⟩
    rw [if_pos hpos] at hheader
    exact ⟨⟨rfl, hpos⟩, by omega, by omega, by omega⟩

/-- The client looks nowhere else for the messages it can take. -/
theorem Acceptable.not_wide (h : Acceptable size m) (more : List UInt8) :
    ¬ Wide size (m.packet.encode ++ more) := by
  intro hwide
  have htype : mqttGetType [m.packet.first] = 3 := hwide.1.1
  cases m with
  | publish p => exact absurd ((wide_publish_iff p more).mp hwide).2.1 (Nat.not_lt.mpr h)
  | connack present code => exact absurd htype (by decide : ¬ mqttGetType [0x20] = 3)
  | ack type id => cases type <;> exact absurd ((mqttGetType_first _).symm.trans htype) (by decide)
  | suback id codes hcodes => exact absurd htype (by decide : ¬ mqttGetType [0x90] = 3)
  | pingresp => exact absurd htype (by decide : ¬ mqttGetType [0xD0] = 3)

end Message

/-! ## Runs -/

/-- What a connected client has read of a message is in the buffer. -/
def Roomy (w : Wire) : Prop :=
  w.node.client.state = .connected → w.receiver.inBufferReadLen ≤ bufferLength

theorem Roomy.step {w w' : Wire} {a : WireAction} (h : Roomy w)
    (hstep : wireStep w a = some w') : Roomy w' := by
  intro hconnected
  cases wireStep_spec hstep with
  | action a n hreads hnode =>
    rcases connected_of_step hnode hconnected with hstate |
      ⟨input, rfl, hinit, hcreated, htransport, _⟩
    · exact h hstate
    · exact absurd (.inr ⟨hinit, hcreated, htransport⟩) hreads
  | connect input stream attempts accepted r n hconnects hread hnode =>
    have haccepted : accepted = true := by
      rcases connected_of_step hnode hconnected with hstate | ⟨_, ha, _, _, _, hconnack⟩
      · exact absurd (hconnects.1.symm.trans hstate) (by decide)
      · cases ha
        exact hconnack
    obtain ⟨_, _, hread⟩ := Option.map_eq_some_iff.mp hread
    simp only at hread
    split at hread
    · cases hread
      exact Nat.zero_le _
    · exact absurd haccepted (by rw [← (Prod.mk.inj hread).1]; decide)
  | receive input readings received events r n hstate hreceive hnode =>
    have hprocesses := processes_of_round hnode hstate hconnected
    change (w.settle _ r).inBufferReadLen ≤ bufferLength
    unfold Wire.settle
    by_cases hnothing : received = .nothing
    · subst hnothing
      rw [if_neg (fun hne => hne.1 rfl)]
      have hamid : Amid _ w.receiver := ⟨h hstate, rfl⟩
      exact (hamid.of_nothing (by decide) hreceive).readLen_le
    · rw [if_pos ⟨hnothing, hprocesses⟩]
      exact Nat.zero_le _

/-- Whatever a broker sends and however the reads cut it, no look and no read leaves the buffer as
long as the message at hand has no more than four length bytes, and a header that is not wide. -/
theorem reads_in_bounds {information : ConnectInfo} {now : Nat} {w : Wire}
    (h : (wire information now).Reachable w) :
    (w.node.client.state = .connected →
      ¬ Lengthy (w.receiver.held ++ w.receiver.incoming) →
      ¬ Wide bufferLength (w.receiver.held ++ w.receiver.incoming) →
      ∀ readings, mqttReceive w.receiver readings ≠ none) ∧
    ∀ stream attempts, ¬ Lengthy stream →
      readConnack { w.receiver with incoming := stream } attempts ≠ none := by
  have hroomy : Roomy w := by
    refine h.invariant ?_ fun _ _ _ _ hs ht => hs.step ht
    intro hstate
    cases hstate
  constructor
  · intro hconnected hlengthy hwide readings
    have hamid : Amid _ w.receiver := ⟨hroomy hconnected, rfl⟩
    exact hamid.mqttReceive (by decide) hlengthy hwide readings
  · intro stream attempts hlengthy hnone
    rw [readConnack, Option.map_eq_none_iff] at hnone
    have hamid : Amid stream
        { w.receiver with incoming := stream, inBufferReadLen := 0, messageLength := 0 } :=
      ⟨Nat.zero_le _, rfl⟩
    exact awaitConnack_ne_none hamid (by decide) hlengthy attempts hnone

theorem reads_in_bounds_pieces :
    ∃ w, (wire information 0).exec (wire information 0).init (pieces.take 4) = some w ∧
      ∀ readings, mqttReceive w.receiver readings ≠ none := by
  have hrun : ((wire information 0).exec (wire information 0).init (pieces.take 4)).map
      (fun w => (w.node.client.state, w.receiver.held ++ w.receiver.incoming)) =
        some (.connected, encodeAll (accepting.map Message.packet)) := by
    decide +kernel
  obtain ⟨w, hw, hfacts⟩ := Option.map_eq_some_iff.mp hrun
  obtain ⟨hconnected, hstream⟩ := Prod.mk.inj hfacts
  have hall := speaks_accepting.2 (.ack .puback 7) List.mem_cons_self
  refine ⟨w, hw, (reads_in_bounds ⟨_, hw⟩).1 hconnected ?_ ?_⟩
  · rw [hstream]
    exact not_lengthy_encode _ _
  · rw [hstream]
    exact hall.not_wide _

/-! ## A length that is left open -/

/-- The header of a PUBLISH with length bytes that do not end. The bits behind the fourth of
them are zero. -/
def openLength (n : Nat) : List UInt8 :=
  [0x30, 0xFF, 0xFF, 0xFF, 0xFF] ++ List.replicate n 0x80

/-- Rounds that are each given one byte, and no message. -/
def dripped : Nat → Receiver size → Option (Receiver size)
  | 0, r => some r
  | rounds + 1, r => match mqttReceive r [.arrived 1] with
    | some (.nothing, _, r) => dripped rounds r
    | _ => none

section Dripped

variable {r : Receiver size} {more : List UInt8} {n : Nat}

theorem lengthBytes_replicate (n i totlen : Nat) :
    lengthBytes (List.replicate n 0x80) i totlen = (totlen, i + n) := by
  induction n generalizing i with
  | zero => rfl
  | succ n ih =>
    have hgroup : (0x80 : UInt8).toNat &&& 0x7f = 0 := by decide
    have hrest := ih (i + 1)
    rw [List.replicate_succ, lengthBytes, hgroup, if_neg (by decide), Nat.zero_shiftLeft]
    exact hrest.trans (Prod.ext rfl (show i + 1 + n = i + (n + 1) by omega))

/-- The receiver has read the first bytes of an open length. -/
structure Dripping (n : Nat) (more : List UInt8) (r : Receiver size) : Prop where
  readLen_le : r.inBufferReadLen ≤ n
  amid : Amid (openLength n ++ more) r

theorem Dripping.held_eq (h : Dripping n more r) :
    r.held = (openLength n).take r.inBufferReadLen := by
  have hle := h.readLen_le
  have hlength : (openLength n).length = n + 5 := by simp [openLength]
  rw [h.amid.held_eq, List.take_append_of_le_length (by omega)]

theorem byteAt_openLength {i : Nat} (hi : i < n) :
    byteAt (openLength n) i = if i = 0 then 0x30 else if i < 5 then 0xFF else 0x80 := by
  match i, hi with
  | 0, _ | 1, _ | 2, _ | 3, _ | 4, _ => rfl
  | k + 5, hk =>
    have hget : (openLength n).getD (k + 5) 0 = 0x80 := by
      change (List.replicate n (0x80 : UInt8)).getD k 0 = 0x80
      rw [List.getD_eq_getElem?_getD, List.getElem?_replicate, if_pos (by omega)]
      rfl
    rw [byteAt, hget, if_neg (by omega), if_neg (by omega)]
    rfl

theorem Dripping.byteAt_eq (h : Dripping n more r) {i : Nat} (hi : i < r.inBufferReadLen) :
    byteAt r.inBuffer i = if i = 0 then 0x30 else if i < 5 then 0xFF else 0x80 := by
  have hle := h.readLen_le
  rw [← byteAt_openLength (show i < n by omega)]
  exact r.byteAt_eq h.held_eq hi

/-- The bytes that are there are all taken for length bytes. -/
theorem Dripping.mqttGetTotalLength (h : Dripping n more r) (hfive : 5 ≤ r.inBufferReadLen) :
    mqttGetTotalLength r.inBuffer r.inBufferReadLen =
      ((2 ^ 28 - 1 + r.inBufferReadLen) % 2 ^ 32, r.inBufferReadLen) := by
  have hle := h.readLen_le
  obtain ⟨k, hk⟩ := Nat.exists_eq_add_of_le' hfive
  have hbytes : (r.inBuffer.take r.inBufferReadLen).drop 1 =
      [0xFF, 0xFF, 0xFF, 0xFF] ++ List.replicate k 0x80 := by
    have hheld := h.held_eq
    rw [Receiver.held] at hheld
    rw [hheld, hk, openLength, Nat.add_comm k 5]
    rw [List.take_append, List.take_of_length_le (by simp), List.take_replicate,
      show min (5 + k - [0x30, 0xFF, 0xFF, 0xFF, (0xFF : UInt8)].length) n = k by simp; omega]
    rfl
  have hfour : lengthBytes ([0xFF, 0xFF, 0xFF, 0xFF] ++ List.replicate k 0x80) 1 0 =
      lengthBytes (List.replicate k 0x80) 5 (2 ^ 28 - 1) := rfl
  rw [Mqtt.mqttGetTotalLength, fixedHeader, hbytes, hfour, lengthBytes_replicate, hk,
    Nat.add_comm k]

theorem Dripping.setMessageLength (h : Dripping n more r) (total : Nat) :
    Dripping n more { r with messageLength := total } :=
  ⟨h.readLen_le, h.amid.setMessageLength total⟩

/-- A read that brings one byte. -/
theorem Dripping.read (h : Dripping n more r) (len : Nat) (hlen : 1 ≤ len) (hn : size ≤ n)
    (hroom : r.inBufferReadLen + len ≤ size) :
    ∃ r', espTransportRead r r.inBufferReadLen len (.arrived 1) = some (1, r') ∧
      (r'.advance 1).inBufferReadLen = r.inBufferReadLen + 1 ∧
      Dripping n more (r'.advance 1) := by
  have hlength : (openLength n).length = n + 5 := by simp [openLength]
  have hheld := h.amid.length_held
  have hstream := congrArg List.length h.amid.stream
  rw [List.length_append, List.length_append] at hstream
  obtain ⟨⟨count, r'⟩, hr'⟩ := espTransportRead_of_room (r := r) hroom (.arrived 1)
  obtain rfl : count = 1 := by
    rw [espTransportRead_arrived hr']
    omega
  rcases h.amid.read hr' with ⟨hle, _⟩ | ⟨_, _, hsame, _, hamid⟩
  · exact absurd hle (by decide)
  · have hread : (r'.advance 1).inBufferReadLen = r.inBufferReadLen + 1 := congrArg (· + 1) hsame
    exact ⟨r', hr', hread, by omega, hamid⟩

theorem espTransportRead_timeout {offset len : Nat} (hroom : offset + len ≤ size) :
    espTransportRead r offset len .timeout = some (0, r) := by
  rw [espTransportRead, dif_neg (Nat.not_lt.mpr hroom)]

/-- The loop waits for the next length byte. -/
theorem readLengthBytes_nil (rounds : Nat) (hroom : r.inBufferReadLen + 1 ≤ size) :
    readLengthBytes (rounds + 1) r [] = some (.stalled, r, []) := by
  rw [readLengthBytes, List.headD_nil, espTransportRead_timeout hroom]
  rfl

/-- Once the loop over the length bytes has ended, the topic length is read. -/
theorem Dripping.readBody (h : Dripping n more r) (hlarge : size < 2 ^ 28)
    (hsix : 6 ≤ r.inBufferReadLen) (readings : List Reading) :
    ∃ total, Mqtt.readBody r readings =
      (espTransportRead { r with messageLength := total } r.inBufferReadLen 2
        (readings.headD .timeout)).bind fun (readLen, r') =>
          if readLen ≤ 0 then some (handleTransportReadError readLen true, r', readings.tail)
          else if (r'.advance readLen).inBufferReadLen < r.inBufferReadLen + 2 then
            some (.nothing, r'.advance readLen, readings.tail)
          else readTopic (r'.advance readLen) r.inBufferReadLen readings.tail := by
  have hroom := h.amid.readLen_le
  have htype : mqttGetType r.inBuffer = MsgType.publish.code := by
    rw [mqttGetType_congr (b := [0x30]) ((h.byteAt_eq (by omega)).trans rfl)]
    rfl
  refine ⟨(2 ^ 28 - 1 + r.inBufferReadLen) % 2 ^ 32, ?_⟩
  unfold Mqtt.readBody
  rw [h.mqttGetTotalLength (by omega)]
  simp only
  rw [asInt_of_lt (by omega), if_pos (by omega), readLarge]
  simp only
  rw [if_pos htype, if_pos (by omega), Nat.sub_self, Nat.zero_add]

/-- The loop goes on behind every byte but the first and, once there are six, the last. -/
theorem Dripping.continues_iff (h : Dripping n more r) (htwo : 2 ≤ r.inBufferReadLen) :
    r.continues = true ↔ r.inBufferReadLen < 6 := by
  have hbyte : byteAt r.inBuffer (r.inBufferReadLen - 1) &&& 0x80 ≠ 0 := by
    rw [h.byteAt_eq (by omega), if_neg (by omega)]
    split <;> decide
  rw [Receiver.continues, decide_eq_true_iff]
  exact and_iff_left hbyte

/-- One more byte of an open length comes in. -/
theorem Dripping.mqttMessageReceive (h : Dripping n more r) (hsize : 10 ≤ size)
    (hlarge : size < 2 ^ 28) (hn : size ≤ n) (hroom : r.inBufferReadLen + 1 < size) :
    ∃ receipt r', mqttMessageReceive r [.arrived 1] = some (receipt, r', []) ∧
      (receipt = .stalled ∨ receipt = .nothing) ∧
      r'.inBufferReadLen = r.inBufferReadLen + 1 ∧ Dripping n more r' := by
  have hzero := h.setMessageLength 0
  by_cases hfirst : r.inBufferReadLen = 0
  · obtain ⟨r', hr', hread, hdrip⟩ := hzero.read 1 (Nat.le_refl 1) hn (Nat.le_of_lt hroom)
    change (r'.advance 1).inBufferReadLen = r.inBufferReadLen + 1 at hread
    have hvalid : mqttHasValidMsgHdr r'.inBuffer = true := by
      have hbyte : byteAt r'.inBuffer 0 = byteAt [0x30] 0 :=
        (hdrip.byteAt_eq (i := 0) (by omega)).trans rfl
      rw [mqttHasValidMsgHdr_congr hbyte]
      rfl
    rw [mqttMessageReceive_of_zero hfirst, List.headD_cons, hr', Option.bind_some]
    simp only
    rw [if_neg (by decide), if_pos hvalid, readHeader, if_pos (.inl (by omega)), List.tail_cons,
      readLengthBytes_nil 4 (by omega)]
    exact ⟨_, _, rfl, .inl rfl, hread, hdrip⟩
  · rw [mqttMessageReceive_of_pos (Nat.pos_of_ne_zero hfirst), readHeader]
    by_cases hshort : r.inBufferReadLen < 6
    · have hloop : r.inBufferReadLen = 1 ∨
          ({ r with messageLength := 0 } : Receiver size).continues = true := by
        by_cases hone : r.inBufferReadLen = 1
        · exact .inl hone
        · exact .inr ((hzero.continues_iff (show 2 ≤ r.inBufferReadLen by omega)).mpr hshort)
      obtain ⟨r', hr', hread, hdrip⟩ := hzero.read 1 (Nat.le_refl 1) hn
        (Nat.le_of_lt hroom)
      change (r'.advance 1).inBufferReadLen = r.inBufferReadLen + 1 at hread
      rw [if_pos hloop, readLengthBytes, List.headD_cons, hr', Option.bind_some]
      simp only
      rw [if_neg (by decide), List.tail_cons]
      split
      · rw [readLengthBytes_nil 3 (by omega)]
        exact ⟨_, _, rfl, .inl rfl, hread, hdrip⟩
      · rename_i hends
        rw [hdrip.continues_iff (by omega)] at hends
        obtain ⟨total, hbody⟩ := hdrip.readBody hlarge (by omega) []
        rw [hbody, List.headD_nil, espTransportRead_timeout (by omega), Option.bind_some]
        exact ⟨_, _, rfl, .inl rfl, hread, hdrip.setMessageLength total⟩
    · have hloop : ¬ (r.inBufferReadLen = 1 ∨
          ({ r with messageLength := 0 } : Receiver size).continues = true) := by
        rw [hzero.continues_iff (show 2 ≤ r.inBufferReadLen by omega)]
        exact fun hloop => hloop.elim (by omega) hshort
      obtain ⟨total, hbody⟩ := hzero.readBody hlarge (Nat.not_lt.mp hshort) [.arrived 1]
      obtain ⟨r', hr', hread, hdrip⟩ := (hzero.setMessageLength total).read 2
        (by decide) hn (show r.inBufferReadLen + 2 ≤ size by omega)
      change (r'.advance 1).inBufferReadLen = r.inBufferReadLen + 1 at hread
      rw [if_neg hloop, hbody, List.headD_cons, hr', Option.bind_some]
      simp only
      rw [if_neg (by decide), if_pos (by omega)]
      exact ⟨_, _, rfl, .inr rfl, hread, hdrip⟩

/-- One more byte of an open length comes in, and the round is given nothing. -/
theorem Dripping.mqttReceive (h : Dripping n more r) (hsize : 10 ≤ size) (hlarge : size < 2 ^ 28)
    (hn : size ≤ n) (hroom : r.inBufferReadLen + 1 < size) :
    ∃ r', mqttReceive r [.arrived 1] = some (.nothing, [], r') ∧
      r'.inBufferReadLen = r.inBufferReadLen + 1 ∧ Dripping n more r' := by
  obtain ⟨receipt, r', hresult, hreceipt, hread, hdrip⟩ :=
    h.mqttMessageReceive hsize hlarge hn hroom
  refine ⟨r', ?_, hread, hdrip⟩
  rw [Mqtt.mqttReceive, hresult, Option.bind_some]
  rcases hreceipt with rfl | rfl
  · simp only
    rw [if_neg (by omega)]
  · rfl

/-- A broker that leaves a length open takes the client behind its buffer: after one round for each
byte the next one writes outside. -/
theorem open_length_leaves_buffer (hsize : 10 ≤ size) (hlarge : size < 2 ^ 28)
    (hread : r.inBufferReadLen = 0) (hincoming : r.incoming = openLength size ++ more) :
    ∃ r', dripped (size - 1) r = some r' ∧ ∀ readings, mqttReceive r' readings = none := by
  have hdrip : Dripping size more r := by
    refine ⟨by omega, by omega, ?_⟩
    rw [Receiver.held, hread, List.take_zero, List.nil_append, hincoming]
  have hrun : ∀ rounds (r : Receiver size), Dripping size more r →
      r.inBufferReadLen + rounds + 1 = size → ∃ r', dripped rounds r = some r' ∧
        r'.inBufferReadLen + 1 = size ∧ Dripping size more r' := by
    intro rounds
    induction rounds with
    | zero => exact fun r hdrip hend => ⟨r, rfl, hend, hdrip⟩
    | succ rounds ih =>
      intro r hdrip hend
      obtain ⟨r', hr', hread, hdrip'⟩ := hdrip.mqttReceive hsize hlarge (Nat.le_refl size)
        (by omega)
      obtain ⟨r'', hrest, hlast⟩ := ih r' hdrip' (by omega)
      refine ⟨r'', ?_, hlast⟩
      rw [dripped, hr']
      exact hrest
  obtain ⟨r', hr', hlast, hdrip'⟩ := hrun (size - 1) r hdrip (by omega)
  refine ⟨r', hr', fun readings => ?_⟩
  obtain ⟨total, hbody⟩ := (hdrip'.setMessageLength 0).readBody hlarge
    (show 6 ≤ r'.inBufferReadLen by omega) readings
  unfold Mqtt.mqttReceive
  rw [mqttMessageReceive_of_six (by omega), hbody, espTransportRead, dif_pos (by
    show size < r'.inBufferReadLen + 2
    omega)]
  rfl

/-- An empty receiver in front of an open length. -/
def openReceiver (size : Nat) : Receiver size :=
  ⟨List.replicate size 0, List.length_replicate, 0, 0, openLength size⟩

theorem open_length_leaves_buffer_bufferLength :
    ∃ r, dripped 1023 (openReceiver bufferLength) = some r ∧
      ∀ readings, mqttReceive r readings = none :=
  open_length_leaves_buffer (by decide) (by decide) rfl (List.append_nil _).symm

end Dripped

end IndustrialIot.Edge.Mqtt
