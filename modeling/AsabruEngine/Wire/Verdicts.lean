import AsabruEngine.Wire.Canonical
import AsabruEngine.Wire.Layout
import AsabruEngine.Wire.ServerHello

/-! # Packet formats and the decoders' verdicts

A packet format is a list of field kinds, and bytes are in the format when they are complete fields
of those kinds. `skipFields` decides this from the bytes, and the `bool` results of the decoding
methods are compared with it.

* `CompleteField` and `CompleteSequence` are the format; `CompleteSequence.exists_wellFormed` gives
  the fields that such bytes denote.
* `skipFields_eq_some_iff` and `startsWith_iff`: skipping finds exactly the complete sequences.
* `helloVerdicts_right_iff` and `queryVerdict_right_iff` say when the results are the right ones. -/

namespace AsabruEngine

open Base128 ClickReadProtoBuffer CProtocolPacketDecoder Layout

/-! ## Formats -/

/-- `bytes` is a complete field of the kind. -/
inductive CompleteField : FieldKind → Bytes → Prop
  /-- One to ten bytes, ended by the first one without the top bit. -/
  | varint {groups : Bytes} (complete : Terminated groups)
      (short : groups.length ≤ maxVarintBytes) : CompleteField .varint groups
  /-- A legal length, and that many bytes. -/
  | string {groups body : Bytes} (complete : Terminated groups)
      (short : groups.length ≤ maxVarintBytes) (legal : value groups ≤ maxStringBytes.toNat)
      (whole : body.length = value groups) : CompleteField .string (groups ++ body)

/-- `bytes` is a sequence of complete fields of the kinds. -/
inductive CompleteSequence : List FieldKind → Bytes → Prop
  /-- No field. -/
  | nil : CompleteSequence [] []
  /-- A field and the sequence after it. -/
  | cons {kind : FieldKind} {kinds : List FieldKind} {bytes rest : Bytes}
      (head : CompleteField kind bytes) (tail : CompleteSequence kinds rest) :
      CompleteSequence (kind :: kinds) (bytes ++ rest)

/-- The stream starts with a complete sequence of fields of the kinds. -/
def StartsWith (kinds : List FieldKind) (stream : Bytes) : Prop :=
  ∃ bytes rest, stream = bytes ++ rest ∧ CompleteSequence kinds bytes

/-! ## Deciding a format -/

/-- The number a stream starts with and the bytes after it, if the number is complete and has at
most ten bytes. -/
def skipVarint (stream : Bytes) : Option (ℕ × Bytes) :=
  if lead stream < maxVarintBytes ∧ lead stream < stream.length then
    some (value (groups stream), stream.drop (lead stream + 1))
  else none

/-- The bytes after the field of the kind that a stream starts with. -/
def skipField : FieldKind → Bytes → Option Bytes
  | .varint, stream => (skipVarint stream).map Prod.snd
  | .string, stream => (skipVarint stream).bind fun number =>
      if number.1 ≤ maxStringBytes.toNat ∧ number.1 ≤ number.2.length then
        some (number.2.drop number.1)
      else none

/-- The bytes after the fields of the kinds that a stream starts with. -/
def skipFields : List FieldKind → Bytes → Option Bytes
  | [], stream => some stream
  | kind :: kinds, stream => (skipField kind stream).bind (skipFields kinds)

theorem skipVarint_eq_some_iff {stream rest : Bytes} {n : ℕ} :
    skipVarint stream = some (n, rest) ↔
      ∃ g, stream = g ++ rest ∧ Terminated g ∧ g.length ≤ maxVarintBytes ∧ value g = n := by
  unfold skipVarint
  constructor
  · intro h
    split at h
    · next hlead =>
        obtain ⟨rfl, rfl⟩ : value (groups stream) = n ∧ stream.drop (lead stream + 1) = rest := by
          simpa using h
        refine ⟨groups stream, ?_, terminated_take_lead hlead.2, ?_, rfl⟩
        · exact (List.take_append_drop _ _).symm
        · rw [groups, List.length_take]
          omega
    · cases h
  · rintro ⟨g, rfl, complete, short, rfl⟩
    have hlead := complete.lead_append rest
    have hdrop : (g ++ rest).drop (lead (g ++ rest) + 1) = rest := by
      rw [hlead, List.drop_left]
    rw [if_pos ⟨by omega, by rw [List.length_append]; omega⟩, groups_append complete, hdrop]

/-- **Skipping a field is splitting a complete field off.** -/
theorem skipField_eq_some_iff {kind : FieldKind} {stream rest : Bytes} :
    skipField kind stream = some rest ↔
      ∃ bytes, stream = bytes ++ rest ∧ CompleteField kind bytes := by
  cases kind with
  | varint =>
      simp only [skipField, Option.map_eq_some_iff, Prod.exists, exists_eq_right,
        skipVarint_eq_some_iff]
      constructor
      · rintro ⟨n, g, rfl, complete, short, -⟩
        exact ⟨g, rfl, .varint complete short⟩
      · rintro ⟨bytes, rfl, hfield⟩
        cases hfield with
        | varint complete short => exact ⟨_, bytes, rfl, complete, short, rfl⟩
  | string =>
      simp only [skipField, Option.bind_eq_some_iff, Prod.exists, skipVarint_eq_some_iff]
      constructor
      · rintro ⟨n, after, ⟨g, rfl, complete, short, rfl⟩, hbody⟩
        split at hbody
        · next hlegal =>
            obtain rfl : after.drop (value g) = rest := by simpa using hbody
            refine ⟨g ++ after.take (value g), ?_, .string complete short hlegal.1 ?_⟩
            · rw [List.append_assoc, List.take_append_drop]
            · rw [List.length_take]
              omega
        · cases hbody
      · rintro ⟨bytes, rfl, hfield⟩
        cases hfield with
        | @string g body complete short legal whole =>
            refine ⟨value g, body ++ rest, ⟨g, List.append_assoc _ _ _, complete, short, rfl⟩, ?_⟩
            rw [if_pos ⟨legal, by rw [List.length_append]; omega⟩, ← whole, List.drop_left]

theorem skipFields_eq_some_iff {kinds : List FieldKind} {stream rest : Bytes} :
    skipFields kinds stream = some rest ↔
      ∃ bytes, stream = bytes ++ rest ∧ CompleteSequence kinds bytes := by
  induction kinds generalizing stream with
  | nil =>
      constructor
      · intro h
        exact ⟨[], by simpa [skipFields] using h, .nil⟩
      · rintro ⟨bytes, rfl, hseq⟩
        cases hseq
        rfl
  | cons kind kinds ih =>
      simp only [skipFields, Option.bind_eq_some_iff, skipField_eq_some_iff, ih]
      constructor
      · rintro ⟨_, ⟨bytes, rfl, head⟩, bytes', rfl, tail⟩
        exact ⟨bytes ++ bytes', (List.append_assoc _ _ _).symm, .cons head tail⟩
      · rintro ⟨_, rfl, hseq⟩
        cases hseq with
        | @cons _ _ bytes bytes' head tail =>
            exact ⟨bytes' ++ rest, ⟨bytes, List.append_assoc _ _ _, head⟩, bytes', rfl, tail⟩

/-- **The format is decided by skipping the fields.** -/
theorem startsWith_iff (kinds : List FieldKind) (stream : Bytes) :
    StartsWith kinds stream ↔ (skipFields kinds stream).isSome := by
  rw [Option.isSome_iff_exists]
  simp only [skipFields_eq_some_iff]
  exact exists_comm

/-! ## Written packets are in their format -/

/-- A legal field is written as a complete one. -/
theorem completeField_encoded {f : Field} (hf : f.Legal) : CompleteField f.kind f.encoded := by
  cases f with
  | varint v => exact .varint (terminated_encode v.toNat) (length_encode_toNat_le v)
  | string s =>
      have hvalue := value_encode s.length
      exact .string (terminated_encode s.length) (length_encode_length_le hf)
        (by rw [hvalue]; exact hf) hvalue.symm

/-- Legal fields are written as a complete sequence. -/
theorem completeSequence_encoded {fields : List Field} (hlegal : ∀ f ∈ fields, f.Legal) :
    CompleteSequence (fields.map Field.kind) (fields.flatMap Field.encoded) := by
  induction fields with
  | nil => exact .nil
  | cons f fields ih =>
      rw [List.map_cons, List.flatMap_cons]
      exact .cons (completeField_encoded (hlegal f List.mem_cons_self))
        (ih fun g hg => hlegal g (List.mem_cons_of_mem f hg))

/-- What a writer with room leaves, with any bytes after it, starts with the fields written. -/
theorem startsWith_writtenBy (heap : Memory) {buffer : CharArray} {fields : List Field}
    (hlegal : ∀ f ∈ fields, f.Legal)
    (hfits : (fields.flatMap Field.encoded).length ≤ buffer.bytes.length) (suffix : Bytes) :
    StartsWith (fields.map Field.kind)
      ((writtenBy heap buffer (fields.map Field.call)).1 ++ suffix) := by
  rw [writtenBy_fields heap hfits]
  exact ⟨_, suffix, rfl, completeSequence_encoded hlegal⟩

/-! ## Complete packets are read -/

/-- A complete field denotes one: a legal length is below `2 ^ 64`, so that a reader takes it as it
is. -/
theorem CompleteField.exists_wellFormed {kind : FieldKind} {bytes : Bytes}
    (h : CompleteField kind bytes) : ∃ f, WellFormedField kind bytes f := by
  cases h with
  | varint complete short => exact ⟨_, .varint complete short⟩
  | @string g body complete short legal whole =>
      have hannounced : (announced g).toNat = value g := by
        have hlt : maxStringBytes.toNat < 2 ^ 64 := maxStringBytes.toNat_lt
        rw [announced, UInt64.toNat_ofNat', Nat.mod_eq_of_lt (by omega)]
      refine ⟨.string body, .string complete short ?_ ?_⟩
      · rw [UInt64.le_iff_toNat_le, hannounced]
        exact legal
      · rw [hannounced]
        exact whole

/-- A complete sequence denotes a message. -/
theorem CompleteSequence.exists_wellFormed {kinds : List FieldKind} {bytes : Bytes}
    (h : CompleteSequence kinds bytes) : ∃ fields, WellFormedMessage kinds bytes fields := by
  induction h with
  | nil => exact ⟨[], .nil⟩
  | cons head tail ih =>
      obtain ⟨f, hf⟩ := head.exists_wellFormed
      obtain ⟨fields, hfields⟩ := ih
      exact ⟨f :: fields, .cons hf hfields⟩

/-- **Every read of a complete packet reports true**, if a byte follows it: the results that the
hello decoders ignore tell the format. -/
theorem CompleteSequence.reads {kinds : List FieldKind} {bytes rest : Bytes}
    (hseq : CompleteSequence kinds bytes) (hmore : rest ≠ []) {r : ClickReadProtoBuffer}
    (h : r.InRange) (hrem : r.remaining = bytes ++ rest) :
    (∀ result ∈ (r.readFields kinds).1, result.1 = true) ∧
      (r.readFields kinds).2.remaining = rest := by
  obtain ⟨fields, hmessage⟩ := hseq.exists_wellFormed
  rw [readFields_wellFormed h hmessage hmore hrem]
  refine ⟨fun result hresult => ?_, remaining_advance_append hrem⟩
  obtain ⟨f, -, rfl⟩ := List.mem_map.mp hresult
  rfl

/-! ## The verdicts -/

/-- The fields of a query packet: packet type, query id, stage, compression, query text. -/
def queryFields (packetType : UInt64) (queryId : Bytes) (stage compression : UInt64)
    (queryText : Bytes) : List Field :=
  [.varint packetType, .string queryId, .varint stage, .varint compression, .string queryText]

/-- The kinds `DecodeQueryPacket` reads, in order. -/
def queryKinds : List FieldKind := [.varint, .string, .varint, .varint, .string]

namespace CProtocolPacketDecoder

/-- Every exit of `DecodeQueryPacket` returns false. -/
theorem decodeQueryPacket_fst (d : CProtocolPacketDecoder) : d.decodeQueryPacket.1 = false := by
  unfold decodeQueryPacket
  simp only
  split
  · rfl
  · split
    · rfl
    · rfl

end CProtocolPacketDecoder

/-- **When the hello decoders judge a packet rightly.** For every decoder, whatever its cursor: that
`DecodeClientHelloPacket`, and that `DecodeServerHelloPacket`, returns true if and only if the bytes
left start with a complete packet of its format, holds exactly if skipping the fields succeeds. -/
theorem helloVerdicts_right_iff (d : CProtocolPacketDecoder) :
    (((decodeClientHelloPacket d).1.1 = true ↔ StartsWith clientHelloKinds d.remaining) ↔
        (skipFields clientHelloKinds d.remaining).isSome) ∧
      (((decodeServerHelloPacket d).1.1 = true ↔ StartsWith serverHelloKinds d.remaining) ↔
        (skipFields serverHelloKinds d.remaining).isSome) := by
  -- both decoders return true whatever they have read
  have hclient : (decodeClientHelloPacket d).1.1 = true := rfl
  have hserver : (decodeServerHelloPacket d).1.1 = true := rfl
  constructor
  · rw [startsWith_iff]
    exact ⟨fun h => h.mp hclient, fun h => iff_of_true hclient h⟩
  · rw [startsWith_iff]
    exact ⟨fun h => h.mp hserver, fun h => iff_of_true hserver h⟩

/-- A packet whose first string announces nine bytes and has one is decoded by both. -/
theorem helloVerdicts_truncated :
    let d := ClickReadProtoBuffer.new (fun _ => 0) ⟨[9, 65], by decide⟩
    ((decodeClientHelloPacket d).1.1 = true ∧ ¬ StartsWith clientHelloKinds d.remaining) ∧
      ((decodeServerHelloPacket d).1.1 = true ∧ ¬ StartsWith serverHelloKinds d.remaining) := by
  intro d
  refine ⟨⟨rfl, ?_⟩, ⟨rfl, ?_⟩⟩
  · rw [startsWith_iff]
    decide +kernel
  · rw [startsWith_iff]
    decide +kernel

/-- **When the query decoder judges a packet rightly.** For every buffer, that a fresh decoder's
`DecodeQueryPacket` returns true if and only if the buffer starts with a complete query packet holds
exactly if skipping the fields fails. -/
theorem queryVerdict_right_iff (heap : Memory) (buffer : CharArray) :
    ((decodeQueryPacket (.new heap buffer)).1 = true ↔ StartsWith queryKinds buffer.bytes) ↔
      skipFields queryKinds buffer.bytes = none := by
  have hfalse := decodeQueryPacket_fst (.new heap buffer)
  rw [hfalse, startsWith_iff, Option.isSome_iff_ne_none]
  simp

/-- Every query packet written field by field is in the format, and is reported as not decoded. -/
theorem decodeQueryPacket_written (writeHeap readHeap : Memory) {room buffer : CharArray}
    {packetType stage compression : UInt64} {queryId queryText suffix : Bytes}
    (hid : queryId.length ≤ maxStringBytes.toNat) (htext : queryText.length ≤ maxStringBytes.toNat)
    (hfits : ((queryFields packetType queryId stage compression queryText).flatMap
      Field.encoded).length ≤ room.bytes.length)
    (hbuffer : buffer.bytes = (writtenBy writeHeap room
      ((queryFields packetType queryId stage compression queryText).map Field.call)).1 ++ suffix) :
    StartsWith queryKinds buffer.bytes ∧ (decodeQueryPacket (.new readHeap buffer)).1 = false := by
  have hlegal : ∀ f ∈ queryFields packetType queryId stage compression queryText, f.Legal := by
    simp [queryFields, Field.Legal, hid, htext]
  rw [hbuffer]
  exact ⟨startsWith_writtenBy writeHeap hlegal hfits suffix, decodeQueryPacket_fst _⟩

/-- A query packet written field by field, with a byte after it, is reported as not decoded. -/
theorem queryVerdict_written_select :
    let buffer : CharArray := ⟨(writtenBy (fun _ => 0) ⟨List.replicate 16 0, by decide⟩
      ((queryFields 1 [113] 2 0 [83, 69, 76]).map Field.call)).1 ++ [0], by decide +kernel⟩
    StartsWith queryKinds buffer.bytes ∧
      ¬ (decodeQueryPacket (.new (fun _ => 0) buffer)).1 = true := by
  intro buffer
  constructor
  · rw [startsWith_iff]
    decide +kernel
  · rw [decodeQueryPacket_fst]
    decide

end AsabruEngine
