import AsabruEngine.Wire.Layout
import AsabruEngine.Wire.ServerHello

/-! # Reads outside the received bytes

Which sequences of decoder calls stay inside the buffer. Each call is a list of field reads, which
the layout of the bytes before the cursor determines as long as the reads stay inside; the first
read that does not stay inside is recorded for good.

* A `DecoderCall` names a method, and `kinds` the fields it reads from given bytes:
  `decodeHelloPacket` and `decodeQueryPacket` look at what they have read and may stop early.
* `performs_layout` says of one call that it follows the layout of its kinds, and
  `accessedInside_performAll_iff` of a list of calls that it stays inside exactly if `CallsFit`.
* `reads_inside_iff` starts from a received buffer. -/

namespace AsabruEngine

open ClickReadProtoBuffer CProtocolPacketDecoder Layout

/-- A call of a decoding method. -/
inductive DecoderCall where
  | getPacketType
  | decidePacketType
  | decodeHelloPacket
  | decodeClientPacket (packetType : UInt64)
  | decodeServerPackets (packetType : UInt64)
  | decodeQueryPacket
  deriving DecidableEq, Repr

namespace DecoderCall

/-- The decoder after a call. -/
def perform (d : CProtocolPacketDecoder) : DecoderCall → CProtocolPacketDecoder
  | getPacketType => d.getPacketType.2
  | decidePacketType => d.decidePacketType.2
  | decodeHelloPacket => d.decodeHelloPacket.2
  | decodeClientPacket packetType => (d.decodeClientPacket packetType).2
  | decodeServerPackets packetType => (d.decodeServerPackets packetType).2
  | decodeQueryPacket => d.decodeQueryPacket.2

/-- The decoder after calls in order. -/
def performAll (d : CProtocolPacketDecoder) (calls : List DecoderCall) : CProtocolPacketDecoder :=
  calls.foldl perform d

/-- The kinds of fields a call reads from `stream`. -/
def kinds : DecoderCall → Bytes → List FieldKind
  | getPacketType, _ => [.varint]
  | decidePacketType, _ => [.varint]
  | decodeHelloPacket, stream =>
      -- the name is read after the code of a hello packet only
      if VarintRead stream ∧ announced (groups stream) = ClientCodes.hello then [.varint, .string]
      else [.varint]
  | decodeClientPacket packetType, _ => if packetType = 0 then clientHelloKinds else []
  | decodeServerPackets packetType, _ => if packetType = 0 then serverHelloKinds else []
  | decodeQueryPacket, stream =>
      -- the first two reads are tested, the three after them are not
      if FieldRead .varint stream then
        if FieldRead .string (afterVarint stream) then [.varint, .string, .varint, .varint, .string]
        else [.varint, .string]
      else [.varint]

end DecoderCall

/-- Every field the calls read from `stream`, in order, starts before the end, and every legal
string length among them is at most the number of bytes left. -/
def CallsFit : List DecoderCall → Bytes → Prop
  | [], _ => True
  | call :: calls, stream =>
      FieldsFit (call.kinds stream) stream ∧ CallsFit calls (afterFields (call.kinds stream) stream)

namespace CProtocolPacketDecoder

/-! ## Calls as field reads -/

theorem getPacketType_snd (d : CProtocolPacketDecoder) :
    d.getPacketType.2 = (d.readFields [.varint]).2 := by
  rw [getPacketType]
  split <;> rfl

theorem decidePacketType_snd (d : CProtocolPacketDecoder) :
    d.decidePacketType.2 = (d.readFields [.varint]).2 := by
  rw [decidePacketType]
  split <;> rfl

theorem decodeClientPacket_snd (d : CProtocolPacketDecoder) (packetType : UInt64) :
    (d.decodeClientPacket packetType).2 =
      (d.readFields (if packetType = 0 then clientHelloKinds else [])).2 := by
  by_cases htype : packetType = 0
  · rw [decodeClientPacket, if_pos htype, if_pos htype]
    exact decodeClientHelloPacket_snd d
  · rw [decodeClientPacket, if_neg htype, if_neg htype]
    rfl

theorem decodeServerPackets_snd (d : CProtocolPacketDecoder) (packetType : UInt64) :
    (d.decodeServerPackets packetType).2 =
      (d.readFields (if packetType = 0 then serverHelloKinds else [])).2 := by
  by_cases htype : packetType = 0
  · rw [decodeServerPackets, if_pos htype, if_pos htype]
    exact decodeServerHelloPacket_snd d
  · rw [decodeServerPackets, if_neg htype, if_neg htype]
    rfl

/-- `DecodeHelloPacket` reads the name where its tests on the code succeed. -/
theorem decodeHelloPacket_snd (d : CProtocolPacketDecoder) :
    d.decodeHelloPacket.2 =
      if d.readVarint64.1.1 = true ∧ d.readVarint64.1.2 = ClientCodes.hello then
        (d.readFields [.varint, .string]).2
      else (d.readFields [.varint]).2 := by
  cases hflag : d.readVarint64.1.1 with
  | false =>
      simp only [decodeHelloPacket, hflag, Bool.not_false, if_true, Bool.false_eq_true, false_and,
        if_false, readFields, readField]
  | true =>
      by_cases htype : d.readVarint64.1.2 = ClientCodes.hello
      · simp only [decodeHelloPacket, hflag, htype, Bool.not_true, Bool.false_eq_true, if_false,
          ne_eq, not_true_eq_false, and_self, if_true, readFields, readField]
        split <;> rfl
      · simp only [decodeHelloPacket, hflag, htype, Bool.not_true, Bool.false_eq_true, if_false,
          ne_eq, not_false_eq_true, and_false, if_true, readFields, readField]

/-- `DecodeQueryPacket` goes on where its two tests succeed. -/
theorem decodeQueryPacket_snd (d : CProtocolPacketDecoder) :
    d.decodeQueryPacket.2 =
      if d.readVarint64.1.1 = true then
        if (d.readVarint64.2.readString []).1.1 = true then
          (d.readFields [.varint, .string, .varint, .varint, .string]).2
        else (d.readFields [.varint, .string]).2
      else (d.readFields [.varint]).2 := by
  cases hflag : d.readVarint64.1.1 with
  | false =>
      simp only [decodeQueryPacket, hflag, Bool.not_false, if_true, Bool.false_eq_true, if_false,
        readFields, readField]
  | true =>
      cases hquery : (d.readVarint64.2.readString []).1.1 with
      | false =>
          simp only [decodeQueryPacket, hflag, hquery, Bool.not_true, Bool.not_false,
            Bool.false_eq_true, if_false, if_true, readFields, readField]
      | true =>
          simp only [decodeQueryPacket, hflag, hquery, Bool.not_true, Bool.false_eq_true, if_false,
            if_true, readFields, readField]

/-- Reading more fields keeps the record of the first one. -/
theorem extends_readFields_varint (d : CProtocolPacketDecoder) (kinds : List FieldKind) :
    Extends (d.readFields [.varint]).2 (d.readFields (.varint :: kinds)).2 := by
  rw [readFields, readFields, readFields]
  exact extends_readFields kinds _

theorem extends_decodeHelloPacket (d : CProtocolPacketDecoder) :
    Extends (d.readFields [.varint]).2 d.decodeHelloPacket.2 := by
  rw [decodeHelloPacket_snd]
  split
  · exact extends_readFields_varint d [.string]
  · exact Extends.refl _

theorem extends_decodeQueryPacket (d : CProtocolPacketDecoder) :
    Extends (d.readFields [.varint]).2 d.decodeQueryPacket.2 := by
  rw [decodeQueryPacket_snd]
  split
  · split
    · exact extends_readFields_varint d [.string, .varint, .varint, .string]
    · exact extends_readFields_varint d [.string]
  · exact Extends.refl _

/-! ## Calls and their layout -/

/-- A decoder `d'` reached from `d` by the reads of the kinds, and as long as these stay inside by
nothing more. -/
structure Performs (kinds : List FieldKind) (d d' : CProtocolPacketDecoder) : Prop where
  does : Extends (d.readFields kinds).2 d'
  only : FieldsFit kinds d.remaining → d' = (d.readFields kinds).2

theorem performs_of_eq {kinds : List FieldKind} {d d' : CProtocolPacketDecoder}
    (h : d' = (d.readFields kinds).2) : Performs kinds d d' :=
  ⟨h ▸ Extends.refl _, fun _ => h⟩

/-- A call that starts with a number does nothing to be told from the bytes at the end of them: the
number is read beside the buffer, and whatever follows depends on what lies there. -/
theorem performs_of_nil {d d' : CProtocolPacketDecoder} (hnil : d.remaining = [])
    (h : Extends (d.readFields [.varint]).2 d') : Performs [.varint] d d' :=
  ⟨h, fun hfits => absurd hnil hfits.1⟩

/-- `DecodeHelloPacket` performs the reads of its layout. -/
theorem performs_decodeHelloPacket {d : CProtocolPacketDecoder} (h : d.InRange) :
    Performs (DecoderCall.decodeHelloPacket.kinds d.remaining) d d.decodeHelloPacket.2 := by
  rw [DecoderCall.kinds]
  by_cases hne : d.remaining = []
  · rw [if_neg (fun hall => by rw [hne] at hall; exact absurd hall.1.2 (Nat.not_lt_zero _))]
    exact performs_of_nil hne (extends_decodeHelloPacket d)
  · obtain ⟨hfollows, hvalue⟩ := follows_varint h hne
    -- the tests on the code come out as the layout says
    have htest : (d.readVarint64.1.1 = true ∧ d.readVarint64.1.2 = ClientCodes.hello) ↔
        VarintRead d.remaining ∧ announced (groups d.remaining) = ClientCodes.hello := by
      constructor
      · rintro ⟨hflag, htype⟩
        have hread := hfollows.flag.mp hflag
        exact ⟨hread, (hvalue hread).symm.trans htype⟩
      · rintro ⟨hread, htype⟩
        exact ⟨hfollows.flag.mpr hread, (hvalue hread).trans htype⟩
    refine performs_of_eq ?_
    rw [decodeHelloPacket_snd]
    by_cases hall : VarintRead d.remaining ∧ announced (groups d.remaining) = ClientCodes.hello
    · rw [if_pos (htest.mpr hall), if_pos hall]
    · rw [if_neg (fun hcode => hall (htest.mp hcode)), if_neg hall]

/-- `DecodeQueryPacket` performs the reads of its layout. -/
theorem performs_decodeQueryPacket {d : CProtocolPacketDecoder} (h : d.InRange) :
    Performs (DecoderCall.decodeQueryPacket.kinds d.remaining) d d.decodeQueryPacket.2 := by
  rw [DecoderCall.kinds]
  by_cases hne : d.remaining = []
  · rw [if_neg (fun hread => by rw [hne] at hread; exact absurd hread.2 (Nat.not_lt_zero _))]
    exact performs_of_nil hne (extends_decodeQueryPacket d)
  obtain ⟨hfollows, -⟩ := follows_varint h hne
  by_cases hcode : FieldRead .varint d.remaining
  · have hflag : d.readVarint64.1.1 = true := hfollows.flag.mpr hcode
    have hrem : d.readVarint64.2.remaining = afterVarint d.remaining := hfollows.remaining
    obtain ⟨hstring, -⟩ := readField_layout hfollows.inRange .string
    rw [hfollows.remaining] at hstring
    rw [if_pos hcode]
    by_cases hfits : FieldFits .string (afterVarint d.remaining)
    · have hquery : (d.readVarint64.2.readString []).1.1 = true ↔
          FieldRead .string (afterVarint d.remaining) := by
        rw [← hrem]
        exact (hstring hfits).flag
      refine performs_of_eq ?_
      rw [decodeQueryPacket_snd, if_pos hflag]
      by_cases hread : FieldRead .string (afterVarint d.remaining)
      · rw [if_pos (hquery.mpr hread), if_pos hread]
      · rw [if_neg (fun hq => hread (hquery.mp hq)), if_neg hread]
    · -- the query id is read beside the buffer
      rw [if_neg fun hread : FieldRead .string (afterVarint d.remaining) => hfits hread.fits]
      refine ⟨?_, fun hall => absurd hall.2.1 hfits⟩
      rw [decodeQueryPacket_snd, if_pos hflag]
      split
      · rw [readFields, readFields, readFields, readFields, readFields]
        exact extends_readFields [.varint, .varint, .string] _
      · exact Extends.refl _
  · have hflag : ¬ d.readVarint64.1.1 = true := fun hf => hcode (hfollows.flag.mp hf)
    refine performs_of_eq ?_
    rw [decodeQueryPacket_snd, if_neg hflag, if_neg hcode]

/-- **Every call performs the reads of its layout.** -/
theorem performs_layout {d : CProtocolPacketDecoder} (h : d.InRange) (call : DecoderCall) :
    Performs (call.kinds d.remaining) d (call.perform d) := by
  cases call with
  | getPacketType => exact performs_of_eq (getPacketType_snd d)
  | decidePacketType => exact performs_of_eq (decidePacketType_snd d)
  | decodeHelloPacket => exact performs_decodeHelloPacket h
  | decodeClientPacket packetType => exact performs_of_eq (decodeClientPacket_snd d packetType)
  | decodeServerPackets packetType => exact performs_of_eq (decodeServerPackets_snd d packetType)
  | decodeQueryPacket => exact performs_decodeQueryPacket h

/-- Every call keeps the record of the offsets read before it. -/
theorem extends_perform (d : CProtocolPacketDecoder) (call : DecoderCall) :
    Extends d (call.perform d) := by
  cases call with
  | getPacketType =>
      rw [DecoderCall.perform, getPacketType_snd]
      exact extends_readFields _ _
  | decidePacketType =>
      rw [DecoderCall.perform, decidePacketType_snd]
      exact extends_readFields _ _
  | decodeHelloPacket => exact (extends_readFields _ d).trans (extends_decodeHelloPacket d)
  | decodeClientPacket packetType =>
      rw [DecoderCall.perform, decodeClientPacket_snd]
      exact extends_readFields _ _
  | decodeServerPackets packetType =>
      rw [DecoderCall.perform, decodeServerPackets_snd]
      exact extends_readFields _ _
  | decodeQueryPacket => exact (extends_readFields _ d).trans (extends_decodeQueryPacket d)

/-- Calls in order keep the record of the offsets read before them. -/
theorem extends_performAll (d : CProtocolPacketDecoder) (calls : List DecoderCall) :
    Extends d (DecoderCall.performAll d calls) := by
  induction calls generalizing d with
  | nil => exact Extends.refl d
  | cons call calls ih => exact (extends_perform d call).trans (ih _)

/-! ## Runs of calls -/

/-- Calls on a decoder in range stay inside exactly if they fit the bytes before the cursor. -/
theorem accessedInside_performAll_iff {d : CProtocolPacketDecoder} (h : d.InRange)
    (calls : List DecoderCall) :
    (DecoderCall.performAll d calls).AccessedInside ↔ CallsFit calls d.remaining := by
  induction calls generalizing d with
  | nil => exact iff_of_true h.inside trivial
  | cons call calls ih =>
      obtain ⟨hdoes, honly⟩ := performs_layout h call
      obtain ⟨hstays, hleaves⟩ := readFields_layout h (call.kinds d.remaining)
      rw [DecoderCall.performAll, List.foldl_cons]
      -- a first call that stays inside leaves the bytes its layout says to the others; one that
      -- does not has recorded an offset that no later call takes back
      by_cases hfits : FieldsFit (call.kinds d.remaining) d.remaining
      · obtain ⟨hrange, hrem⟩ := hstays hfits
        rw [honly hfits]
        refine (ih hrange).trans ?_
        rw [hrem]
        exact (and_iff_right hfits).symm
      · refine iff_of_false (fun hinside => hleaves hfits ?_) fun hall => hfits hall.1
        exact (hdoes.trans (extends_performAll _ calls)).inside hinside

end CProtocolPacketDecoder

/-- **When no read leaves the received bytes.** For every buffer and every sequence of decoder
calls on it, all bytes read lie in the buffer exactly if every field the calls read starts before
the end and every legal string length found is at most the number of bytes left. -/
theorem reads_inside_iff (heap : Memory) (buffer : CharArray) (calls : List DecoderCall) :
    (∀ i ∈ (DecoderCall.performAll (ClickReadProtoBuffer.new heap buffer) calls).accessed,
      0 ≤ i ∧ i < buffer.bytes.length) ↔ CallsFit calls buffer.bytes := by
  have h := accessedInside_performAll_iff (ClickReadProtoBuffer.inRange_new heap buffer) calls
  rw [AccessedInside, (extends_performAll _ calls).mLen_eq,
    ClickReadProtoBuffer.remaining_new] at h
  exact h

/-- `GetPacketType` on an empty buffer reads the byte beside it, and `DecodeClientPacket` on a
truncated hello packet copies nine bytes from a buffer of two. -/
theorem reads_outside_truncated_packet :
    (¬ ∀ i ∈ (DecoderCall.performAll (ClickReadProtoBuffer.new (fun _ => 0) ⟨[], by decide⟩)
        [.getPacketType]).accessed, 0 ≤ i ∧ i < (([] : Bytes).length : ℤ)) ∧
      ¬ ∀ i ∈ (DecoderCall.performAll (ClickReadProtoBuffer.new (fun _ => 0) ⟨[9, 65], by decide⟩)
        [.decodeClientPacket 0]).accessed, 0 ≤ i ∧ i < (([9, 65] : Bytes).length : ℤ) := by
  constructor
  · decide
  · intro hinside
    have hnew := ClickReadProtoBuffer.inRange_new (fun _ => 0) ⟨[9, 65], by decide⟩
    have hfits := (accessedInside_performAll_iff hnew [.decodeClientPacket 0]).mp hinside
    rw [ClickReadProtoBuffer.remaining_new] at hfits
    -- the length 9 is read and legal, and one byte is left
    have hbody := hfits.1.1.2 (by decide)
    revert hbody
    decide

end AsabruEngine
