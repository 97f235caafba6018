import IndustrialIot.Core.PublishPacket

/-!
# The body of a CONNECT packet of MQTT 3.1.1

The protocol name and level, the flags, the keepalive time and the fields that the flags
announce, each behind its length. A will is not part of it here.
-/

namespace IndustrialIot.ConnectPacket

open PublishPacket (beBytes readBe readString readBe_beBytes readString_beBytes)

/-- What a CONNECT says. A password does not come without a user name. -/
structure Connect where
  cleanSession : Bool
  keepalive : Nat
  clientId : List UInt8
  username : Option (List UInt8)
  password : Option (List UInt8)
  keepalive_lt : keepalive < 2 ^ 16
  clientId_lt : clientId.length < 2 ^ 16
  username_lt : ∀ name ∈ username, name.length < 2 ^ 16
  password_lt : ∀ word ∈ password, word.length < 2 ^ 16
  username_of_password : password.isSome = true → username.isSome = true

/-- The flags byte. -/
def flags (cleanSession username password : Bool) : UInt8 :=
  UInt8.ofNat ((if cleanSession then 2 else 0) + (if username then 128 else 0) +
    if password then 64 else 0)

/-- The length prefix, the name and the level of the protocol. -/
def protocol : List UInt8 := [0, 4, 0x4D, 0x51, 0x54, 0x54, 4]

/-- A byte string behind its length. -/
def field (string : List UInt8) : List UInt8 := beBytes string.length ++ string

/-- A field that may be missing. -/
def optional : Option (List UInt8) → List UInt8
  | none => []
  | some string => field string

/-- The bytes of a body. -/
def encode (c : Connect) : List UInt8 :=
  protocol ++ flags c.cleanSession c.username.isSome c.password.isSome :: beBytes c.keepalive ++
    field c.clientId ++ optional c.username ++ optional c.password

/-- Read a field that a flag announces, and what follows it. -/
def readOptional (announced : Bool) (bytes : List UInt8) :
    Option (Option (List UInt8) × List UInt8) :=
  if announced then (readString bytes).map fun (string, rest) => (some string, rest)
  else some (none, bytes)

/-- Read a body to its end. -/
def decode (bytes : List UInt8) : Option Connect :=
  if bytes.take 7 ≠ protocol then none
  else match bytes.drop 7 with
  | [] => none
  | flags :: rest =>
    (readBe rest).bind fun (keepalive, rest) =>
      (readString rest).bind fun (clientId, rest) =>
        (readOptional (decide (128 ≤ flags.toNat)) rest).bind fun (username, rest) =>
          (readOptional (decide (64 ≤ flags.toNat % 128)) rest).bind fun (password, rest) =>
            if h : rest = [] ∧ keepalive < 2 ^ 16 ∧ clientId.length < 2 ^ 16 ∧
                (∀ name ∈ username, name.length < 2 ^ 16) ∧
                (∀ word ∈ password, word.length < 2 ^ 16) ∧
                (password.isSome = true → username.isSome = true) then
              some ⟨decide (flags.toNat / 2 % 2 = 1), keepalive, clientId, username, password,
                h.2.1, h.2.2.1, h.2.2.2.1, h.2.2.2.2.1, h.2.2.2.2.2⟩
            else none

theorem flags_spec (cleanSession username password : Bool) :
    decide (128 ≤ (flags cleanSession username password).toNat) = username ∧
      decide (64 ≤ (flags cleanSession username password).toNat % 128) = password ∧
      decide ((flags cleanSession username password).toNat / 2 % 2 = 1) = cleanSession := by
  cases cleanSession <;> cases username <;> cases password <;> decide

theorem readOptional_optional {value : Option (List UInt8)}
    (h : ∀ string ∈ value, string.length < 2 ^ 16) (rest : List UInt8) :
    readOptional value.isSome (optional value ++ rest) = some (value, rest) := by
  cases value with
  | none => rfl
  | some string =>
    have hread := readString_beBytes (h string rfl) rest
    rw [readOptional, optional, field, Option.isSome_some, if_pos rfl, hread]
    rfl

/-- Every body is read back. -/
theorem decode_encode (c : Connect) : decode (encode c) = some c := by
  obtain ⟨husername, hpassword, hclean⟩ :=
    flags_spec c.cleanSession c.username.isSome c.password.isSome
  have hfront : (encode c).take 7 = protocol := rfl
  have hrest : (encode c).drop 7 =
      flags c.cleanSession c.username.isSome c.password.isSome :: (beBytes c.keepalive ++
        (field c.clientId ++ (optional c.username ++ (optional c.password ++ [])))) := by
    simp [encode, protocol]
  have hkeepalive := readBe_beBytes c.keepalive_lt
    (field c.clientId ++ (optional c.username ++ (optional c.password ++ [])))
  have hclientId := readString_beBytes c.clientId_lt
    (optional c.username ++ (optional c.password ++ []))
  rw [decode, if_neg (not_not.mpr hfront), hrest]
  simp only [hkeepalive, Option.bind_some]
  rw [field, hclientId, Option.bind_some]
  simp only [husername, hpassword, hclean]
  rw [readOptional_optional c.username_lt, Option.bind_some]
  simp only
  rw [readOptional_optional c.password_lt, Option.bind_some]
  exact dif_pos ⟨rfl, c.keepalive_lt, c.clientId_lt, c.username_lt, c.password_lt,
    c.username_of_password⟩

end IndustrialIot.ConnectPacket
