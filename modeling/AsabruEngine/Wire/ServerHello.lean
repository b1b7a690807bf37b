import AsabruEngine.Wire.ClientHello

/-! # Server hello packets, encoded and decoded

The encoder writes the time zone, the display name and the patch version only from certain revisions
on; the decoder reads all seven fields whatever the revision. The two agree when all fields are
written and the patch version, the last of them, has no bits to lose.

* `ServerInfo.packet` lists the fields that are written at a revision, and
  `writeHello_eq_performAll` finds them in the code of the encoder.
* `decodeServerHello_of_all` is decoding where all fields were written, and
  `decodeServerHello_of_missing` where some were not: there the reads leave the buffer.
* `ServerHelloAgrees` is the round trip, and `serverHello_agrees_iff` says when it succeeds. -/

namespace AsabruEngine

open ClickReadProtoBuffer CProtocolPacketDecoder CProtocolPacketEncoder

/-! ## The encoder's fields -/

namespace ServerInfo

/-- The fields written for every revision, after the type code. -/
def commonFields (info : ServerInfo) : List Field :=
  [.string info.name, .varint info.versionMajor, .varint info.versionMinor,
    .varint info.revision]

/-- A field that is written when a condition holds. -/
def optional (c : Prop) [Decidable c] (f : Field) : List Field := if c then [f] else []

/-- The fields after the type code. -/
def fields (info : ServerInfo) : List Field :=
  info.commonFields ++
    optional (info.revision ≥ minRevisionWithServerTimezone) (.string info.timezone) ++
    optional (info.revision ≥ minRevisionWithServerDisplayName) (.string info.displayName) ++
    optional (info.revision ≥ minRevisionWithVersionPatch) (.varint info.versionPatch)

/-- The fields before the patch version, where the revision makes the encoder write them all. -/
def fieldsBeforePatch (info : ServerInfo) : List Field :=
  info.commonFields ++ [.string info.timezone, .string info.displayName]

/-- The packet on the wire: its type code and its fields. -/
def packet (info : ServerInfo) : List Field := .varint ServerCodes.hello :: info.fields

/-- No string is longer than `ReadString` accepts. -/
structure Legal (info : ServerInfo) : Prop where
  name : info.name.length ≤ maxStringBytes.toNat
  timezone : info.timezone.length ≤ maxStringBytes.toNat
  displayName : info.displayName.length ≤ maxStringBytes.toNat

/-- The packet `DecodeServerPackets` has to return: the fields the encoder leaves out are empty. -/
def expected (info : ServerInfo) : ServerHelloPacket where
  name := info.name
  versionMajor := info.versionMajor
  versionMinor := info.versionMinor
  revision := info.revision
  tz := if info.revision ≥ minRevisionWithServerTimezone then info.timezone else []
  displayName := if info.revision ≥ minRevisionWithServerDisplayName then info.displayName else []
  versionPatch := if info.revision ≥ minRevisionWithVersionPatch then info.versionPatch else 0

theorem Legal.field {info : ServerInfo} (h : info.Legal) : ∀ f ∈ info.packet, f.Legal := by
  have hoptional {c : Prop} [Decidable c] {f g : Field} (hg : g.Legal)
      (hf : f ∈ optional c g) : f.Legal := by
    rw [optional] at hf
    split at hf
    · rw [List.mem_singleton.mp hf]
      exact hg
    · exact absurd hf List.not_mem_nil
  -- the code, the common fields, and the three optional ones
  intro f hf
  rw [packet, fields, List.mem_cons, List.mem_append, List.mem_append, List.mem_append] at hf
  rcases hf with rfl | ((hf | hf) | hf) | hf
  · trivial
  · simp only [commonFields, List.mem_cons, List.not_mem_nil, or_false] at hf
    rcases hf with rfl | rfl | rfl | rfl
    · exact h.name
    · trivial
    · trivial
    · trivial
  · exact hoptional (g := .string info.timezone) h.timezone hf
  · exact hoptional (g := .string info.displayName) h.displayName hf
  · exact hoptional (g := .varint info.versionPatch) trivial hf

end ServerInfo

/-- The encoder writes the fields of the packet in order. -/
theorem writeHello_eq_performAll (info : ServerInfo) (e : CProtocolPacketEncoder) :
    writeHello info e = WriteCall.performAll e (info.packet.map Field.call) := by
  simp only [writeHello, ServerInfo.packet, ServerInfo.fields, ServerInfo.commonFields,
    ServerInfo.optional, WriteCall.performAll]
  split <;> split <;> split <;> rfl

/-- What `GetBuffer` returns after the encoder wrote a hello packet into a buffer with room. -/
theorem getBuffer_writeHello (heap : Memory) {buffer : CharArray} {info : ServerInfo}
    (hfits : (info.packet.flatMap Field.encoded).length ≤ buffer.bytes.length) :
    (writeHello info (ClickWriteProtoBuffer.new heap buffer)).getBuffer.1 =
      info.packet.flatMap Field.encoded := by
  have h := writtenBy_fields heap hfits
  rw [writtenBy, ← writeHello_eq_performAll] at h
  rw [h]

/-! ## The decoder's fields -/

/-- The kinds `DecodeServerHelloPacket` reads, in order. -/
def serverHelloKinds : List FieldKind :=
  [.string, .varint, .varint, .varint, .string, .string, .varint]

namespace ServerHelloPacket

/-- The seven fields in the order they are read. -/
def fields (p : ServerHelloPacket) : List Field :=
  [.string p.name, .varint p.versionMajor, .varint p.versionMinor, .varint p.revision,
    .string p.tz, .string p.displayName, .varint p.versionPatch]

theorem fields_injective : Function.Injective fields := by
  rintro ⟨n, a, b, c, t, d, v⟩ ⟨n', a', b', c', t', d', v'⟩ h
  simp only [fields, List.cons.injEq, Field.string.injEq, Field.varint.injEq, and_true] at h
  obtain ⟨rfl, rfl, rfl, rfl, rfl, rfl, rfl⟩ := h
  rfl

end ServerHelloPacket

namespace CProtocolPacketDecoder

/-- The struct filled holds what its seven reads store. -/
theorem decodeServerHelloPacket_fields (d : CProtocolPacketDecoder) :
    d.decodeServerHelloPacket.1.2.fields = (d.readFields serverHelloKinds).1.map Prod.snd := by
  simp only [decodeServerHelloPacket, ServerHelloPacket.fields, serverHelloKinds, readFields,
    readField, List.map_cons, List.map_nil]

theorem decodeServerHelloPacket_snd (d : CProtocolPacketDecoder) :
    d.decodeServerHelloPacket.2 = (d.readFields serverHelloKinds).2 := by
  simp only [decodeServerHelloPacket, serverHelloKinds, readFields, readField]

end CProtocolPacketDecoder

/-! ## Agreement -/

/-- `GetPacketType` and `DecodeServerPackets` on `frame` return the type `0` and the packet the
encoder was given, and read no byte outside the frame. -/
def ServerHelloAgrees (heap : Memory) (frame : CharArray) (info : ServerInfo) : Prop :=
  let packetType := CProtocolPacketDecoder.getPacketType (ClickReadProtoBuffer.new heap frame)
  let hello := packetType.2.decodeServerPackets packetType.1
  packetType.1 = 0 ∧ hello.1 = some info.expected ∧
    ∀ i ∈ hello.2.accessed, 0 ≤ i ∧ i < frame.bytes.length

instance (heap : Memory) (frame : CharArray) (info : ServerInfo) :
    Decidable (ServerHelloAgrees heap frame info) :=
  inferInstanceAs (Decidable (_ ∧ _ ∧ _))

/-- A number loses no bits with its last group exactly if it is zero. -/
theorem announcedInit_eq_iff (v : UInt64) : Field.lastSeen.announcedInit v = v ↔ v = 0 := by
  constructor
  · intro h
    by_contra hv
    have hpos : 0 < v.toNat := by
      rw [Nat.pos_iff_ne_zero]
      intro h0
      exact hv (UInt64.toNat_inj.mp h0)
    obtain ⟨init, last, heq, -, -⟩ := (Base128.terminated_encode v.toNat).exists_init_last
    have hlt := Base128.value_init_encode_lt hpos heq
    have hval := congrArg UInt64.toNat h
    rw [Field.lastSeen.announcedInit, heq, List.dropLast_concat, UInt64.toNat_ofNat',
      Nat.mod_eq_of_lt (hlt.trans v.toNat_lt)] at hval
    omega
  · rintro rfl
    rw [Field.lastSeen.announcedInit, UInt64.toNat_zero, Base128.encode_of_lt (by decide)]
    rfl

/-- The reads of `DecodeServerHelloPacket` where the revision made the encoder write every field:
the patch version has lost its last group. -/
theorem decodeServerHello_of_all {d : CProtocolPacketDecoder} (h : d.InRange) {info : ServerInfo}
    (hinfo : info.Legal) (hrev : info.revision ≥ minRevisionWithVersionPatch)
    (hrem : d.remaining = info.fields.flatMap Field.encoded) :
    d.decodeServerHelloPacket.1.2 =
        { info.expected with versionPatch := Field.lastSeen.announcedInit info.versionPatch } ∧
      d.decodeServerHelloPacket.2.InRange ∧ d.decodeServerHelloPacket.2.mLen = d.mLen := by
  have hdisplay : info.revision ≥ minRevisionWithServerDisplayName :=
    UInt64.le_trans (by decide) hrev
  have htz : info.revision ≥ minRevisionWithServerTimezone := UInt64.le_trans (by decide) hdisplay
  have hfields : info.fields = info.fieldsBeforePatch ++ [.varint info.versionPatch] := by
    simp only [ServerInfo.fields, ServerInfo.fieldsBeforePatch, ServerInfo.optional, if_pos hrev,
      if_pos hdisplay, if_pos htz, List.append_assoc, List.cons_append, List.nil_append]
  have hlegal : ∀ f ∈ info.fields, f.Legal := fun f hf => hinfo.field f (List.mem_cons_of_mem _ hf)
  rw [hfields] at hrem hlegal
  -- the patch version ends the packet, so its read fails
  have hread := readFields_last h hlegal hrem
  have hle : ((info.fieldsBeforePatch ++ [Field.varint info.versionPatch]).flatMap
      Field.encoded).length ≤ d.remaining.length := by
    rw [hrem]
  rw [decodeServerHelloPacket_snd]
  have hkinds : (info.fieldsBeforePatch ++ [Field.varint info.versionPatch]).map Field.kind =
      serverHelloKinds := rfl
  rw [hkinds] at hread
  refine ⟨ServerHelloPacket.fields_injective ?_, ?_, ?_⟩
  · rw [decodeServerHelloPacket_fields, hread]
    simp [ServerInfo.fieldsBeforePatch, ServerInfo.commonFields, ServerHelloPacket.fields,
      ServerInfo.expected, if_pos hdisplay, if_pos htz, Field.lastSeen]
  · rw [hread]
    exact h.advance hle
  · rw [hread]
    rfl

/-- Where the revision made the encoder leave a field out, the decoder reads past the packet. -/
theorem decodeServerHello_of_missing {d : CProtocolPacketDecoder} (h : d.InRange)
    {info : ServerInfo} (hinfo : info.Legal)
    (hrev : ¬ info.revision ≥ minRevisionWithVersionPatch)
    (hrem : d.remaining = info.fields.flatMap Field.encoded) :
    ¬ d.decodeServerHelloPacket.2.AccessedInside := by
  have hlegal : ∀ f ∈ info.fields, f.Legal := fun f hf => hinfo.field f (List.mem_cons_of_mem _ hf)
  rw [decodeServerHelloPacket_snd]
  rw [ServerInfo.fields, ServerInfo.optional, ServerInfo.optional, ServerInfo.optional,
    if_neg hrev, List.append_nil] at hrem hlegal
  by_cases hdisplay : info.revision ≥ minRevisionWithServerDisplayName
  · -- the patch version is missing
    have htz : info.revision ≥ minRevisionWithServerTimezone :=
      UInt64.le_trans (by decide) hdisplay
    rw [if_pos hdisplay, if_pos htz] at hrem hlegal
    exact readFields_short h hlegal hrem .varint []
  · rw [if_neg hdisplay, List.append_nil] at hrem hlegal
    by_cases htz : info.revision ≥ minRevisionWithServerTimezone
    · -- the display name is missing
      rw [if_pos htz] at hrem hlegal
      exact readFields_short h hlegal hrem .string [.varint]
    · -- the time zone is missing
      rw [if_neg htz, List.append_nil] at hrem hlegal
      exact @readFields_short _ h [.string info.name, .varint info.versionMajor,
        .varint info.versionMinor] (.varint info.revision) hlegal hrem .string [.string, .varint]

/-- **When the server hello encoder and decoder agree.** On the frame of a server description with
legal strings, encoded into a buffer with room for it, decoding returns the type `0` and the packet
with exactly the fields written, without reading outside the frame, exactly when the revision makes
the encoder write every field and the patch version is `0`. -/
theorem serverHello_agrees_iff (writeHeap readHeap : Memory) (buffer frame : CharArray)
    (info : ServerInfo) (hinfo : info.Legal)
    (hfits : (info.packet.flatMap Field.encoded).length ≤ buffer.bytes.length)
    (hframe : frame.bytes =
      (writeHello info (ClickWriteProtoBuffer.new writeHeap buffer)).getBuffer.1) :
    ServerHelloAgrees readHeap frame info ↔
      info.revision ≥ minRevisionWithVersionPatch ∧ info.versionPatch = 0 := by
  rw [getBuffer_writeHello writeHeap hfits, ServerInfo.packet, List.flatMap_cons] at hframe
  have hnew := ClickReadProtoBuffer.inRange_new readHeap frame
  have hrem := (ClickReadProtoBuffer.remaining_new readHeap frame).trans hframe
  have hbody : info.fields.flatMap Field.encoded ≠ [] := by
    rw [ServerInfo.fields, ServerInfo.commonFields, List.append_assoc, List.append_assoc,
      List.cons_append, List.flatMap_cons]
    exact List.append_ne_nil_of_left_ne_nil (Field.encoded_ne_nil _) _
  have htype := getPacketType_of_packet hnew hbody hrem
  have hrem' : ((ClickReadProtoBuffer.new readHeap frame).advance
      (Field.varint 0).encoded.length).remaining = info.fields.flatMap Field.encoded :=
    remaining_advance_append hrem
  have hrange : ((ClickReadProtoBuffer.new readHeap frame).advance
      (Field.varint 0).encoded.length).InRange := hnew.advance (length_le_remaining hrem)
  simp only [ServerHelloAgrees, htype, decodeServerPackets, if_true, true_and,
    Option.some.injEq]
  by_cases hrev : info.revision ≥ minRevisionWithVersionPatch
  · obtain ⟨hstruct, hin, hlen⟩ := decodeServerHello_of_all hrange hinfo hrev hrem'
    have hinside : ∀ i ∈ (decodeServerHelloPacket ((ClickReadProtoBuffer.new readHeap frame).advance
        (Field.varint 0).encoded.length)).2.accessed, 0 ≤ i ∧ i < (frame.bytes.length : ℤ) := by
      have hall := hin.inside
      rw [AccessedInside, hlen] at hall
      exact hall
    rw [hstruct]
    simp only [ServerInfo.expected, hrev, if_true, ServerHelloPacket.mk.injEq, true_and,
      announcedInit_eq_iff]
    exact ⟨fun h => h.1, fun h => ⟨h, hinside⟩⟩
  · -- a field is missing, so the decoder leaves the frame whatever the memory beside it holds
    have hout := decodeServerHello_of_missing hrange hinfo hrev hrem'
    have hlen := (extends_readFields serverHelloKinds
      ((ClickReadProtoBuffer.new readHeap frame).advance (Field.varint 0).encoded.length)).mLen_eq
    rw [← decodeServerHelloPacket_snd] at hlen
    refine ⟨fun h => absurd ?_ hout, fun h => absurd h.1 hrev⟩
    rw [AccessedInside, hlen]
    exact h.2

/-- A server of the current revision with patch version `0` is decoded as encoded. -/
theorem serverHello_agrees_patch_zero :
    ServerHelloAgrees (fun _ => 0) ⟨[0, 1, 83, 2, 1, 0x85, 0xA9, 3, 1, 84, 1, 68, 0], by decide⟩
      ⟨[83], [84], [68], 2, 1, 0, 54405⟩ :=
  (serverHello_agrees_iff (fun _ => 0) (fun _ => 0) ⟨List.replicate 13 0, by decide⟩
    ⟨[0, 1, 83, 2, 1, 0x85, 0xA9, 3, 1, 84, 1, 68, 0], by decide⟩
    ⟨[83], [84], [68], 2, 1, 0, 54405⟩ ⟨by decide, by decide, by decide⟩
    (by simp [ServerInfo.packet, ServerInfo.fields, ServerInfo.commonFields, ServerInfo.optional,
      Base128.encode, ServerCodes.hello, minRevisionWithServerTimezone,
      minRevisionWithServerDisplayName, minRevisionWithVersionPatch])
    (by decide +kernel)).mpr (by decide)

/-- The frame `EncodeHelloPacket` leaves in a buffer of 100 bytes. -/
def helloFrame : CharArray where
  bytes := (encodeHelloPacket (ClickWriteProtoBuffer.new (fun _ => 0)
    ⟨List.replicate 100 0, by decide⟩)).2.getBuffer.1
  length_le := by decide +kernel

/-- The packet `EncodeHelloPacket` itself sends is not decoded as encoded: its patch version `1` is
read as `0`. -/
theorem not_serverHello_agrees_helloInfo :
    helloInfo.Legal ∧ ¬ ServerHelloAgrees (fun _ => 0) helloFrame helloInfo := by
  refine ⟨⟨by decide +kernel, by decide +kernel, by decide +kernel⟩, ?_⟩
  decide +kernel

end AsabruEngine
