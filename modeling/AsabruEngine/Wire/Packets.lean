import AsabruEngine.Library.ByteMemory

/-! # Wire protocol data (`ClickHouse_Wire.h`)

The packet codes, the revision thresholds and the records the encoder and the decoder exchange. A
`std::string` is its list of bytes.

`ClientHelloPacket` and `ServerHelloPacket` are what the decoder fills in, `ServerInfo` is what the
encoder is given. A `CharArray` is a block passed with its length, which is an `int`; that the
length fits is a field of the structure. `maxVarintBytes` and `maxStringBytes` are the two limits
that the reads compare with. -/

namespace AsabruEngine

/-- `ServerCodes::Hello`. -/
def ServerCodes.hello : UInt64 := 0

/-- `ClientCodes::Hello`. -/
def ClientCodes.hello : UInt64 := 0

/-- `MAX_VARINT_BYTES`. -/
def maxVarintBytes : ℕ := 10

/-- The longest string `ReadString` accepts. -/
def maxStringBytes : UInt64 := 0x00FFFFFF

/-- `DBMS_VERSION_MAJOR`. -/
def dbmsVersionMajor : UInt64 := 2

/-- `DBMS_MIN_REVISION_WITH_SERVER_TIMEZONE`. -/
def minRevisionWithServerTimezone : UInt64 := 54058

/-- `DBMS_MIN_REVISION_WITH_SERVER_DISPLAY_NAME`. -/
def minRevisionWithServerDisplayName : UInt64 := 54372

/-- `DBMS_MIN_REVISION_WITH_VERSION_PATCH`. -/
def minRevisionWithVersionPatch : UInt64 := 54401

/-- `REVISION`, that is `DBMS_MIN_REVISION_WITH_LOW_CARDINALITY_TYPE`. -/
def revision : UInt64 := 54405

/-- `ServerInfo`. -/
structure ServerInfo where
  name : Bytes
  timezone : Bytes
  displayName : Bytes
  versionMajor : UInt64
  versionMinor : UInt64
  versionPatch : UInt64
  revision : UInt64
  deriving DecidableEq, Repr

/-- `ClientHelloPacket`. -/
structure ClientHelloPacket where
  clientName : Bytes
  versionMajor : UInt64
  versionMinor : UInt64
  protocolVersion : UInt64
  database : Bytes
  username : Bytes
  password : Bytes
  deriving DecidableEq, Repr

/-- `ServerHelloPacket`. -/
structure ServerHelloPacket where
  name : Bytes
  versionMajor : UInt64
  versionMinor : UInt64
  revision : UInt64
  tz : Bytes
  displayName : Bytes
  versionPatch : UInt64
  deriving DecidableEq, Repr

/-- The argument pair `(void *buffer, int len)` of a buffer constructor: `len` bytes, where `len` is
a non-negative `int`. -/
structure CharArray where
  bytes : Bytes
  length_le : (bytes.length : ℤ) ≤ int32Max

theorem CharArray.length_nonneg (buffer : CharArray) : (0 : ℤ) ≤ buffer.bytes.length :=
  Int.natCast_nonneg _

end AsabruEngine
