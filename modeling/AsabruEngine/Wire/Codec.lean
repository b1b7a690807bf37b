import AsabruEngine.Wire.ReadBuffer
import AsabruEngine.Wire.WriteBuffer

/-! # Packet decoder and encoder

`CProtocolPacketDecoder` owns one read buffer and `CProtocolPacketEncoder` one write buffer, and
their methods are sequences of reads and writes on it. A decoding method that fills a local struct
returns the struct beside its result. What the methods print is left out.

The decoder has `getPacketType`, `decidePacketType` and one method for each packet; `writeHello` is
the part of `encodeHelloPacket` behind the record that it fills with constants, `helloInfo`. What
the methods do is stated where it is needed: for the hello packets that are written, for the bounds
of the buffer, and for the results. -/

namespace AsabruEngine

/-- `CProtocolPacketDecoder`: its only member is the read buffer. -/
abbrev CProtocolPacketDecoder := ClickReadProtoBuffer

namespace CProtocolPacketDecoder

/-- `GetPacketType`: a failed read is the code `-1`, as a `uint64_t`. -/
def getPacketType (d : CProtocolPacketDecoder) : UInt64 × CProtocolPacketDecoder :=
  let packetType := d.readVarint64
  if !packetType.1.1 then (-1, packetType.2) else (packetType.1.2, packetType.2)

/-- `DecidePacketType`: both exits return `false`, the second one as `0`. -/
def decidePacketType (d : CProtocolPacketDecoder) : Bool × CProtocolPacketDecoder :=
  let packetType := d.readVarint64
  if !packetType.1.1 then (false, packetType.2) else (false, packetType.2)

/-- `DecodeQueryPacket`: the reads after the query id are not tested, and the last exit is
`return 0`. -/
def decodeQueryPacket (d : CProtocolPacketDecoder) : Bool × CProtocolPacketDecoder :=
  let packetType := d.readVarint64
  if !packetType.1.1 then (false, packetType.2)
  else
    let queryId := packetType.2.readString []
    if !queryId.1.1 then (false, queryId.2)
    else
      -- the client info between the two is commented out in the source
      let stage := queryId.2.readVarint64
      let compression := stage.2.readVarint64
      let temp := compression.2.readString []
      (false, temp.2)

/-- `DecodeClientHelloPacket`: no read is tested. -/
def decodeClientHelloPacket (d : CProtocolPacketDecoder) :
    (Bool × ClientHelloPacket) × CProtocolPacketDecoder :=
  let clientName := d.readString []
  let versionMajor := clientName.2.readVarint64
  let versionMinor := versionMajor.2.readVarint64
  let protocolVersion := versionMinor.2.readVarint64
  let database := protocolVersion.2.readString []
  let username := database.2.readString []
  let password := username.2.readString []
  ((true,
    { clientName := clientName.1.2
      versionMajor := versionMajor.1.2
      versionMinor := versionMinor.1.2
      protocolVersion := protocolVersion.1.2
      database := database.1.2
      username := username.1.2
      password := password.1.2 }), password.2)

/-- `DecodeClientPacket`: the struct filled, if the type is that of a hello packet. -/
def decodeClientPacket (packetType : UInt64) (d : CProtocolPacketDecoder) :
    Option ClientHelloPacket × CProtocolPacketDecoder :=
  if packetType = 0 then
    let hello := d.decodeClientHelloPacket
    (some hello.1.2, hello.2)
  -- any other type is reported and nothing is read
  else (none, d)

/-- `DecodeHelloPacket`. -/
def decodeHelloPacket (d : CProtocolPacketDecoder) : Bool × CProtocolPacketDecoder :=
  let packetType := d.readVarint64
  if !packetType.1.1 then (false, packetType.2)
  else if packetType.1.2 ≠ ClientCodes.hello then (false, packetType.2)
  else
    let clientName := packetType.2.readString []
    if !clientName.1.1 then (false, clientName.2) else (true, clientName.2)

/-- `DecodeServerHelloPacket`: no read is tested. -/
def decodeServerHelloPacket (d : CProtocolPacketDecoder) :
    (Bool × ServerHelloPacket) × CProtocolPacketDecoder :=
  let name := d.readString []
  let versionMajor := name.2.readVarint64
  let versionMinor := versionMajor.2.readVarint64
  let revision := versionMinor.2.readVarint64
  let tz := revision.2.readString []
  let displayName := tz.2.readString []
  let versionPatch := displayName.2.readVarint64
  ((true,
    { name := name.1.2
      versionMajor := versionMajor.1.2
      versionMinor := versionMinor.1.2
      revision := revision.1.2
      tz := tz.1.2
      displayName := displayName.1.2
      versionPatch := versionPatch.1.2 }), versionPatch.2)

/-- `DecodeServerPackets`: the struct filled, if the type is that of a hello packet. -/
def decodeServerPackets (packetType : UInt64) (d : CProtocolPacketDecoder) :
    Option ServerHelloPacket × CProtocolPacketDecoder :=
  if packetType = 0 then
    let hello := d.decodeServerHelloPacket
    (some hello.1.2, hello.2)
  else (none, d)

end CProtocolPacketDecoder

/-- `CProtocolPacketEncoder`: its only member is the write buffer. -/
abbrev CProtocolPacketEncoder := ClickWriteProtoBuffer

namespace CProtocolPacketEncoder

/-- The writes of `EncodeHelloPacket` for the server described by `info`. -/
def writeHello (info : ServerInfo) (e : CProtocolPacketEncoder) : CProtocolPacketEncoder :=
  -- "Write Hello": the fields of every revision
  let e := e.writeVarint64 ServerCodes.hello
  let e := e.writeString info.name
  let e := e.writeUInt64 info.versionMajor
  let e := e.writeUInt64 info.versionMinor
  let e := e.writeUInt64 info.revision
  -- the fields that came with later revisions
  let e := if info.revision ≥ minRevisionWithServerTimezone then
    e.writeString info.timezone else e
  let e := if info.revision ≥ minRevisionWithServerDisplayName then
    e.writeString info.displayName else e
  if info.revision ≥ minRevisionWithVersionPatch then e.writeUInt64 info.versionPatch else e

/-- The server `EncodeHelloPacket` describes: "ClickHouse server", "Israel", "Server version 22.9",
with the major version in both version numbers. -/
def helloInfo : ServerInfo where
  name := "ClickHouse server".toUTF8.toList
  timezone := "Israel".toUTF8.toList
  displayName := "Server version 22.9".toUTF8.toList
  versionMajor := dbmsVersionMajor
  versionMinor := dbmsVersionMajor
  versionPatch := 1
  revision := revision

/-- `EncodeHelloPacket`. -/
def encodeHelloPacket (e : CProtocolPacketEncoder) : Bool × CProtocolPacketEncoder :=
  (true, writeHello helloInfo e)

end CProtocolPacketEncoder

end AsabruEngine
