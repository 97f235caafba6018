import IndustrialIot.Core.EventGroup
import IndustrialIot.Core.Machine
import IndustrialIot.Core.Monitor
import IndustrialIot.Core.Wakeup
import IndustrialIot.Core.Varint
import IndustrialIot.Core.Wire
import IndustrialIot.Core.PublishPacket
import IndustrialIot.Core.Utf8
import IndustrialIot.Core.StoreForward
import IndustrialIot.Gateway.SafeQueue
import IndustrialIot.Gateway.Service
import IndustrialIot.Gateway.Shutdown
import IndustrialIot.Gateway.Connection
import IndustrialIot.Edge.Nanopb
import IndustrialIot.Gateway.SensorData
import IndustrialIot.Edge.Serializer
import IndustrialIot.Edge.Wifi
import IndustrialIot.Edge.Mqtt.Outbox
import IndustrialIot.Edge.Mqtt.Message
import IndustrialIot.Edge.Mqtt.Bounds
import IndustrialIot.Edge.Mqtt.Client
import IndustrialIot.Edge.Mqtt.Publish
import IndustrialIot.Edge.Mqtt.Manager
import IndustrialIot.Edge.Mqtt.Refinement
import IndustrialIot.Edge.Mqtt.Delivery
import IndustrialIot.Edge.Mqtt.Packet
import IndustrialIot.Edge.Mqtt.Conformance
import IndustrialIot.Edge.Mqtt.Lifecycle
import IndustrialIot.Edge.Mqtt.Flag
import IndustrialIot.Edge.Mqtt.Teardown
import IndustrialIot.Core.ControlPacket
import IndustrialIot.Edge.Mqtt.Inbound
import IndustrialIot.Edge.Mqtt.Receive
import IndustrialIot.Edge.Mqtt.Reassembly
import IndustrialIot.Edge.Mqtt.Inbox
import IndustrialIot.Edge.Mqtt.Wire
import IndustrialIot.Edge.Mqtt.Framing
import IndustrialIot.Edge.Mqtt.Overlong
import IndustrialIot.Edge.Mqtt.Outbound
import IndustrialIot.Edge.Mqtt.Session
import IndustrialIot.Edge.Mqtt.Keepalive
import IndustrialIot.Edge.Mqtt.Connected
import IndustrialIot.Edge.Mqtt.Reconnect
import IndustrialIot.Edge.Mqtt.Moves
import IndustrialIot.Core.ConnectPacket
import IndustrialIot.Edge.Mqtt.Connect
import IndustrialIot.Core.Spacing
import IndustrialIot.Edge.Telemetry
import IndustrialIot.Edge.Backlog
import IndustrialIot.Edge.Mqtt.Acknowledged
import IndustrialIot.Ingestion
import IndustrialIot.Edge.Mqtt.Progress
import IndustrialIot.Edge.Mqtt.HeadOfLine
