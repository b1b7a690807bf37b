import AsabruEngine.Wire.Codec
import AsabruEngine.Wire.Fields

/-! # Client hello packets, written and decoded

A client hello packet is the type code `0` and seven fields. A stream of such packets, written one
after the other, is decoded packet by packet, up to the last byte of the buffer: the last field is a
string, and a string is stored whole even where its read reports false.

* `ClientHelloPacket.packet` is the list of fields, and `Legal` says that no string is longer than
  the reader allows.
* `decode_clientHello` decodes one packet from any place of a buffer, and
  `decodeClientPackets_stream` a stream of them, by induction on the packets.
* `clientHello_stream_decodes_back` starts both sides fresh. -/

namespace AsabruEngine

open ClickReadProtoBuffer CProtocolPacketDecoder

namespace ClientHelloPacket

/-- The seven fields in wire order. -/
def fields (p : ClientHelloPacket) : List Field :=
  [.string p.clientName, .varint p.versionMajor, .varint p.versionMinor,
    .varint p.protocolVersion, .string p.database, .string p.username, .string p.password]

/-- The packet on the wire: its type code and its fields. -/
def packet (p : ClientHelloPacket) : List Field := .varint 0 :: p.fields

/-- No string is longer than `ReadString` accepts. -/
def Legal (p : ClientHelloPacket) : Prop :=
  p.clientName.length ≤ maxStringBytes.toNat ∧ p.database.length ≤ maxStringBytes.toNat ∧
    p.username.length ≤ maxStringBytes.toNat ∧ p.password.length ≤ maxStringBytes.toNat

/-- The length of the packet on the wire. -/
def size (p : ClientHelloPacket) : ℕ := (p.packet.flatMap Field.encoded).length

theorem fields_injective : Function.Injective fields := by
  rintro ⟨n, a, b, c, d, u, w⟩ ⟨n', a', b', c', d', u', w'⟩ h
  simp only [fields, List.cons.injEq, Field.string.injEq, Field.varint.injEq, and_true] at h
  obtain ⟨rfl, rfl, rfl, rfl, rfl, rfl, rfl⟩ := h
  rfl

theorem Legal.field {p : ClientHelloPacket} (h : p.Legal) : ∀ f ∈ p.packet, f.Legal := by
  obtain ⟨hname, hdatabase, husername, hpassword⟩ := h
  simp [packet, fields, Field.Legal, hname, hdatabase, husername, hpassword]

end ClientHelloPacket

/-- The kinds `DecodeClientHelloPacket` reads, in order. -/
def clientHelloKinds : List FieldKind :=
  [.string, .varint, .varint, .varint, .string, .string, .string]

namespace CProtocolPacketDecoder

/-- The struct filled holds what its seven reads store. -/
theorem decodeClientHelloPacket_fields (d : CProtocolPacketDecoder) :
    d.decodeClientHelloPacket.1.2.fields = (d.readFields clientHelloKinds).1.map Prod.snd := by
  simp only [decodeClientHelloPacket, ClientHelloPacket.fields, clientHelloKinds, readFields,
    readField, List.map_cons, List.map_nil]

theorem decodeClientHelloPacket_snd (d : CProtocolPacketDecoder) :
    d.decodeClientHelloPacket.2 = (d.readFields clientHelloKinds).2 := by
  simp only [decodeClientHelloPacket, clientHelloKinds, readFields, readField]

/-- `GetPacketType` on a type code followed by a packet body. -/
theorem getPacketType_of_packet {d : CProtocolPacketDecoder} (h : d.InRange) {rest : Bytes}
    (hrest : rest ≠ []) (hrem : d.remaining = (Field.varint 0).encoded ++ rest) :
    d.getPacketType = (0, d.advance (Field.varint 0).encoded.length) := by
  have hread := readField_encoded h (f := .varint 0) trivial hrest hrem
  rw [Field.kind, readField, Prod.mk.injEq, Prod.mk.injEq, Field.varint.injEq] at hread
  obtain ⟨⟨hflag, hvalue⟩, hnext⟩ := hread
  rw [getPacketType, hflag, hvalue, hnext]
  rfl

/-- `DecodeClientHelloPacket` on the fields of a packet fills the struct with them. -/
theorem decodeClientPacket_of_fields {d : CProtocolPacketDecoder} (h : d.InRange)
    {p : ClientHelloPacket} (hp : p.Legal) {rest : Bytes}
    (hrem : d.remaining = p.fields.flatMap Field.encoded ++ rest) :
    d.decodeClientPacket 0 = (some p, d.advance (p.fields.flatMap Field.encoded).length) := by
  obtain ⟨hstored, hnext⟩ := @readFields_stored _ h
    [.string p.clientName, .varint p.versionMajor, .varint p.versionMinor,
      .varint p.protocolVersion, .string p.database, .string p.username]
    (.string p.password) _ (fun f hf => hp.field f (List.mem_cons_of_mem _ hf)) rfl hrem
  have hstruct : d.decodeClientHelloPacket.1.2 = p :=
    ClientHelloPacket.fields_injective ((decodeClientHelloPacket_fields d).trans hstored)
  rw [decodeClientPacket, if_pos rfl]
  exact Prod.ext (congrArg some hstruct) ((decodeClientHelloPacket_snd d).trans hnext)

/-- `GetPacketType` and then `DecodeClientPacket` with its result, `n` times: the type, the struct
filled and the cursor after each packet. -/
def decodeClientPackets : ℕ → CProtocolPacketDecoder →
    List (UInt64 × Option ClientHelloPacket × ℤ) × CProtocolPacketDecoder
  | 0, d => ([], d)
  | n + 1, d =>
      let packetType := d.getPacketType
      let hello := packetType.2.decodeClientPacket packetType.1
      let later := decodeClientPackets n hello.2
      ((packetType.1, hello.1, hello.2.mIndex) :: later.1, later.2)

/-- One packet of a stream is decoded, with the cursor at its end. -/
theorem decode_clientHello {d : CProtocolPacketDecoder} (h : d.InRange) {p : ClientHelloPacket}
    (hp : p.Legal) {rest : Bytes} (hrem : d.remaining = p.packet.flatMap Field.encoded ++ rest) :
    d.getPacketType.1 = 0 ∧
      d.getPacketType.2.decodeClientPacket 0 = (some p, d.advance p.size) := by
  rw [ClientHelloPacket.packet, List.flatMap_cons, List.append_assoc] at hrem
  have hbody : p.fields.flatMap Field.encoded ++ rest ≠ [] := by
    rw [ClientHelloPacket.fields, List.flatMap_cons, List.append_assoc]
    exact List.append_ne_nil_of_left_ne_nil (Field.encoded_ne_nil _) _
  have hnext := decodeClientPacket_of_fields (h.advance (length_le_remaining hrem)) hp
    (remaining_advance_append hrem)
  rw [getPacketType_of_packet h hbody hrem]
  refine ⟨rfl, hnext.trans ?_⟩
  rw [advance_advance, ClientHelloPacket.size, ClientHelloPacket.packet, List.flatMap_cons,
    List.length_append]

end CProtocolPacketDecoder

/-- The offsets at which the packets of a stream that starts at `start` end. -/
def packetEnds : ℤ → List ClientHelloPacket → List ℤ
  | _, [] => []
  | start, p :: ps => (start + p.size) :: packetEnds (start + p.size) ps

/-- A stream of packets is decoded packet by packet, with the cursor at the packets' ends. -/
theorem decodeClientPackets_stream {d : CProtocolPacketDecoder} (h : d.InRange)
    {packets : List ClientHelloPacket} (hlegal : ∀ p ∈ packets, p.Legal)
    (hrem : d.remaining = (packets.flatMap ClientHelloPacket.packet).flatMap Field.encoded) :
    (decodeClientPackets packets.length d).1 =
        (packets.zip (packetEnds d.mIndex packets)).map (fun pe => (0, some pe.1, pe.2)) ∧
      (decodeClientPackets packets.length d).2.InRange ∧
      (decodeClientPackets packets.length d).2.mIndex = d.mLen ∧
      (decodeClientPackets packets.length d).2.mLen = d.mLen := by
  induction packets generalizing d with
  | nil =>
      have hend := h.index_add_length
      rw [hrem] at hend
      exact ⟨rfl, h, by simpa [decodeClientPackets] using hend, rfl⟩
  | cons p ps ih =>
      rw [List.flatMap_cons, List.flatMap_append] at hrem
      obtain ⟨htype, hhello⟩ := decode_clientHello h (hlegal p List.mem_cons_self) hrem
      -- the stream after the packet is before the cursor after it
      obtain ⟨hlater, hrange, hindex, hlen⟩ := ih (h.advance (length_le_remaining hrem))
        (fun q hq => hlegal q (List.mem_cons_of_mem p hq)) (remaining_advance_append hrem)
      rw [← ClientHelloPacket.size] at hlater hrange hindex hlen
      rw [List.length_cons, decodeClientPackets]
      simp only [htype, hhello]
      refine ⟨?_, hrange, hindex, hlen⟩
      rw [hlater, packetEnds, List.zip_cons_cons, List.map_cons, advance_mIndex]

/-- **A client hello stream decodes back.** For packets with legal strings, written into a buffer
with room for them, the decoder over exactly that output returns the type `0` and the packet for
each of them, with the cursor at the packet's end; it ends at the end of the buffer and has read no
byte outside it. -/
theorem clientHello_stream_decodes_back (writeHeap readHeap : Memory) (buffer frame : CharArray)
    (packets : List ClientHelloPacket) (hlegal : ∀ p ∈ packets, p.Legal)
    (hfits : ((packets.flatMap ClientHelloPacket.packet).flatMap Field.encoded).length
      ≤ buffer.bytes.length)
    (hframe : frame.bytes = (writtenBy writeHeap buffer
      ((packets.flatMap ClientHelloPacket.packet).map Field.call)).1) :
    let decoded := decodeClientPackets packets.length (ClickReadProtoBuffer.new readHeap frame)
    decoded.1 = (packets.zip (packetEnds 0 packets)).map (fun pe => (0, some pe.1, pe.2)) ∧
      decoded.2.mIndex = decoded.2.mLen ∧
      ∀ i ∈ decoded.2.accessed, 0 ≤ i ∧ i < frame.bytes.length := by
  rw [writtenBy_fields writeHeap hfits] at hframe
  obtain ⟨hpackets, hrange, hindex, hlen⟩ := decodeClientPackets_stream
    (ClickReadProtoBuffer.inRange_new readHeap frame) hlegal
    ((ClickReadProtoBuffer.remaining_new readHeap frame).trans hframe)
  refine ⟨hpackets, hindex.trans hlen.symm, ?_⟩
  have hinside := hrange.inside
  rw [AccessedInside, hlen] at hinside
  exact hinside

/-- Two packets, the last with an empty password, decode back. -/
theorem clientHello_two_packets_decode_back :
    let packets : List ClientHelloPacket :=
      [⟨[65], 1, 300, 3, [], [66], [67, 68]⟩, ⟨[], 0, 0, 54405, [9], [], []⟩]
    (decodeClientPackets 2 (ClickReadProtoBuffer.new (fun _ => 0)
        ⟨[0, 1, 65, 1, 0xAC, 2, 3, 0, 1, 66, 2, 67, 68, 0, 0, 0, 0, 0x85, 0xA9, 3, 1, 9, 0, 0],
          by decide⟩)).1 =
      (packets.zip (packetEnds 0 packets)).map (fun pe => (0, some pe.1, pe.2)) :=
  (clientHello_stream_decodes_back (fun _ => 0) (fun _ => 0)
    ⟨List.replicate 24 0, by decide⟩
    ⟨[0, 1, 65, 1, 0xAC, 2, 3, 0, 1, 66, 2, 67, 68, 0, 0, 0, 0, 0x85, 0xA9, 3, 1, 9, 0, 0],
      by decide⟩
    [⟨[65], 1, 300, 3, [], [66], [67, 68]⟩, ⟨[], 0, 0, 54405, [9], [], []⟩]
    (by simp [ClientHelloPacket.Legal]; decide)
    (by simp [ClientHelloPacket.packet, ClientHelloPacket.fields, Base128.encode])
    (by decide +kernel)).1

end AsabruEngine
