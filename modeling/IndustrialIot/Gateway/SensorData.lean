import IndustrialIot.Core.Utf8
import IndustrialIot.Core.Wire
import Mathlib.Logic.Basic

/-!
# The gateway's view of a telemetry record

`SensorData` of `sensor_data.proto` and the standard proto3 parser for it: a
later occurrence of a field replaces an earlier one, a field number or wire type
that the schema does not know is skipped, and a `string` has to be UTF-8.
-/

namespace IndustrialIot.Gateway

/-- A parsed record. The floats are kept as their bit patterns. -/
structure SensorData where
  deviceId : List UInt8
  /-- A proto3 `string` is UTF-8. -/
  valid : Utf8.Valid deviceId
  temperature : UInt32
  humidity : UInt32
  uptimeMs : UInt32
  deriving DecidableEq

namespace SensorData

/-- The record with every field absent. -/
def empty : SensorData := ⟨[], Utf8.valid_nil, 0, 0, 0⟩

/-- Store one field of the wire. -/
def merge (msg : SensorData) : Wire.Item → Option SensorData
  | ⟨1, .len bs⟩ => if h : Utf8.Valid bs then some { msg with deviceId := bs, valid := h } else none
  | ⟨2, .fixed32 n⟩ => some { msg with temperature := UInt32.ofNat n }
  | ⟨3, .fixed32 n⟩ => some { msg with humidity := UInt32.ofNat n }
  | ⟨4, .varint n⟩ => some { msg with uptimeMs := UInt32.ofNat n }
  | _ => some msg

/-- `SensorData::ParseFromString` -/
def parseFromString (bs : List UInt8) : Option SensorData :=
  (Wire.parse bs).bind fun fields => fields.foldlM merge empty

end SensorData

end IndustrialIot.Gateway
