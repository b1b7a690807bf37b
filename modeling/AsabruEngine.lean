import AsabruEngine.Library.Base128
import AsabruEngine.Library.ByteMemory
import AsabruEngine.Library.Framing
import AsabruEngine.Library.Runs
import AsabruEngine.Library.Census
import AsabruEngine.Library.Resources
import AsabruEngine.Library.Lending
import AsabruEngine.Library.NodeMap
import AsabruEngine.Library.CriticalSections
import AsabruEngine.Wire.Packets
import AsabruEngine.Wire.ReadBuffer
import AsabruEngine.Wire.ReadSpec
import AsabruEngine.Wire.WriteBuffer
import AsabruEngine.Wire.WrittenForm
import AsabruEngine.Wire.Fields
import AsabruEngine.Wire.Codec
import AsabruEngine.Wire.ClientHello
import AsabruEngine.Wire.ServerHello
import AsabruEngine.Wire.AcceptedReads
import AsabruEngine.Wire.Canonical
import AsabruEngine.Wire.Layout
import AsabruEngine.Wire.Bounds
import AsabruEngine.Wire.Varint
import AsabruEngine.Wire.Dispatch
import AsabruEngine.Wire.Verdicts
import AsabruEngine.Pool.ConnectionPool
import AsabruEngine.Pool.Refinement
import AsabruEngine.Pool.WorkingConnections
import AsabruEngine.Pool.World
import AsabruEngine.Pool.Conservation
import AsabruEngine.Pool.Raii
import AsabruEngine.Pool.Exclusive
import AsabruEngine.Pool.Stranded
import AsabruEngine.Pool.Search
import AsabruEngine.Pool.Locking
import AsabruEngine.Pool.Threads
import AsabruEngine.Pool.Serializable
import AsabruEngine.Pool.Progress
import AsabruEngine.Pool.ThreadedRaii
import AsabruEngine.Socket.Receive
import AsabruEngine.Relay.Loop
import AsabruEngine.Relay.Lossless
import AsabruEngine.Relay.Independence
import AsabruEngine.Relay.Calls
import AsabruEngine.Relay.Leaving
import AsabruEngine.Socket.Objects
import AsabruEngine.Socket.RefCount
import AsabruEngine.Socket.Miscounts
import AsabruEngine.Socket.Derived
import AsabruEngine.Socket.Descriptors
import AsabruEngine.Socket.ClosedOnce
import AsabruEngine.Socket.RecvBlocking
import AsabruEngine.Socket.ReceiveBytes
import AsabruEngine.Socket.ReceiveLine
import AsabruEngine.Socket.LineStream
import AsabruEngine.Socket.HostRecords
import AsabruEngine.Pool.TcpPool
import AsabruEngine.Pool.TcpDescriptors
import AsabruEngine.Server.Listener
import AsabruEngine.Server.Sessions
import AsabruEngine.Server.ProtocolThread
import AsabruEngine.Server.Configuration
import AsabruEngine.Tls.SslSocket
import AsabruEngine.Tls.LifeCycle
