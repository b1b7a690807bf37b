import AsabruEngine.Wire.AcceptedReads

/-! # Accepted messages, and written again

The reader accepts the byte strings that start with a complete message and go on behind it, so what
it accepts it accepts also when more bytes have come. It accepts more than the writer produces: a
number may end in groups of zeros, or exceed 64 bits. Writing again the fields of an accepted
message gives a message that is no longer and that the reader accepts with the same fields.

* `readField_wellFormed` and `readFields_wellFormed` are the way back: a well-formed message with
  bytes behind it is accepted.
* `accepted_reads_iff` says with them what is accepted.
* `WellFormedMessage.length_encoded_le` bounds the message written again, and
  `accepted_reads_rewritten` is the round trip from bytes to fields to bytes. -/

namespace AsabruEngine

open Base128 ClickReadProtoBuffer

/-! ## Accepted bytes and the wire form of what they denote -/

/-- The 64-bit number of complete groups is written in no more groups. -/
theorem length_encode_value_le {groups : Bytes} (complete : Terminated groups) :
    (encode (UInt64.ofNat (value groups)).toNat).length ≤ groups.length := by
  refine (isLeast_length_encode _).2 ⟨List.length_pos_iff_ne_nil.mpr complete.ne_nil, ?_⟩
  calc (UInt64.ofNat (value groups)).toNat
      = value groups % 2 ^ 64 := UInt64.toNat_ofNat'
    _ ≤ value groups := Nat.mod_le _ _
    _ < 128 ^ groups.length := value_lt groups

namespace WellFormedField

variable {kind : FieldKind} {bytes : Bytes} {f : Field}

theorem kind_eq (h : WellFormedField kind bytes f) : f.kind = kind := by
  cases h with
  | varint complete short => rfl
  | string complete short legal whole => rfl

/-- A string that was accepted is short enough to be accepted again. -/
theorem legal (h : WellFormedField kind bytes f) : f.Legal := by
  cases h with
  | varint => trivial
  | string complete short legal whole =>
      show _ ≤ maxStringBytes.toNat
      rw [whole]
      exact UInt64.le_iff_toNat_le.mp legal

/-- The writer needs no more bytes for a field than the reader took for it. -/
theorem length_encoded_le (h : WellFormedField kind bytes f) :
    f.encoded.length ≤ bytes.length := by
  cases h with
  | varint complete short => exact length_encode_value_le complete
  | string complete short legal whole =>
      -- the body is the same, and the length is written as the number it was read as
      rw [Field.encoded_string, List.length_append, List.length_append, whole]
      exact Nat.add_le_add_right (length_encode_value_le complete) _

end WellFormedField

namespace WellFormedMessage

variable {kinds : List FieldKind} {bytes : Bytes} {fields : List Field}

theorem map_kind (h : WellFormedMessage kinds bytes fields) : fields.map Field.kind = kinds := by
  induction h with
  | nil => rfl
  | cons head tail ih => rw [List.map_cons, head.kind_eq, ih]

theorem legal (h : WellFormedMessage kinds bytes fields) : ∀ f ∈ fields, f.Legal := by
  induction h with
  | nil => exact fun f hf => absurd hf List.not_mem_nil
  | cons head tail ih => exact List.forall_mem_cons.mpr ⟨head.legal, ih⟩

theorem length_encoded_le (h : WellFormedMessage kinds bytes fields) :
    (fields.flatMap Field.encoded).length ≤ bytes.length := by
  induction h with
  | nil => exact le_rfl
  | cons head tail ih =>
      rw [List.flatMap_cons, List.length_append, List.length_append]
      exact Nat.add_le_add head.length_encoded_le ih

end WellFormedMessage

/-! ## What the reader accepts -/

namespace ClickReadProtoBuffer

/-- A complete field with bytes after it is read. -/
theorem readField_wellFormed {r : ClickReadProtoBuffer} (h : r.InRange) {kind : FieldKind}
    {bytes rest : Bytes} {f : Field} (hfield : WellFormedField kind bytes f) (hrest : rest ≠ [])
    (hrem : r.remaining = bytes ++ rest) :
    r.readField kind = ((true, f), r.advance bytes.length) := by
  cases hfield with
  | varint complete short =>
      rw [readField, readVarint64_terminated h complete short hrest hrem]
  | @string groups body complete short legal whole =>
      rw [List.append_assoc] at hrem
      have hpos := List.length_pos_iff_ne_nil.mpr hrest
      have hmore : (announced groups).toNat < (body ++ rest).length := by
        rw [List.length_append]
        omega
      rw [readField, readString_accepted h [] complete short
        (List.append_ne_nil_of_right_ne_nil body hrest) hrem legal (le_of_lt hmore),
        decide_eq_true hmore, ← whole, List.take_left, List.length_append]

/-- A complete message with bytes after it is read. -/
theorem readFields_wellFormed {r : ClickReadProtoBuffer} (h : r.InRange) {kinds : List FieldKind}
    {bytes rest : Bytes} {fields : List Field} (hmessage : WellFormedMessage kinds bytes fields)
    (hrest : rest ≠ []) (hrem : r.remaining = bytes ++ rest) :
    r.readFields kinds = (fields.map (fun f => (true, f)), r.advance bytes.length) := by
  induction hmessage generalizing r with
  | nil => rw [readFields, List.map_nil, List.length_nil, advance_zero]
  | cons head tail ih =>
      rw [List.append_assoc] at hrem
      have hread := readField_wellFormed h head (List.append_ne_nil_of_right_ne_nil _ hrest) hrem
      have htail := ih (h.advance (length_le_remaining hrem)) (remaining_advance_append hrem)
      rw [readFields, hread, htail, List.map_cons, advance_advance, List.length_append]

end ClickReadProtoBuffer

/-- What a fresh reader accepts starts with a complete message and goes on behind it. -/
theorem exists_accepted (heap : Memory) {buffer : CharArray}
    (hlen : buffer.bytes.length ≤ maxUnwrappedBytes) {kinds : List FieldKind} (hne : kinds ≠ [])
    (hok : ∀ result ∈ ((ClickReadProtoBuffer.new heap buffer).readFields kinds).1,
      result.1 = true) :
    ∃ bytes rest, buffer.bytes = bytes ++ rest ∧ rest ≠ [] ∧
      WellFormedMessage kinds bytes
        (((ClickReadProtoBuffer.new heap buffer).readFields kinds).1.map Prod.snd) ∧
      ((ClickReadProtoBuffer.new heap buffer).readFields kinds).2.mIndex = bytes.length := by
  have hnew := ClickReadProtoBuffer.inRange_new heap buffer
  have hmax : (ClickReadProtoBuffer.new heap buffer).mLen ≤ maxUnwrappedBytes :=
    Int.ofNat_le.mpr hlen
  obtain ⟨kind, more, rfl⟩ := List.exists_cons_of_ne_nil hne
  -- the first read is true, so there was a byte to read
  obtain ⟨first, left, hfirst, hleft, -, -⟩ :=
    readField_true hnew hmax kind (hok _ List.mem_cons_self)
  have hbytes : (ClickReadProtoBuffer.new heap buffer).remaining ≠ [] := by
    rw [hfirst]
    exact List.append_ne_nil_of_right_ne_nil _ hleft
  obtain ⟨bytes, rest, hsplit, hrest, hmessage, hend⟩ :=
    readFields_true hnew hmax hbytes (kind :: more) hok
  rw [ClickReadProtoBuffer.remaining_new] at hsplit
  refine ⟨bytes, rest, hsplit, hrest, hmessage, ?_⟩
  rw [hend]
  exact zero_add _

/-- **What the reader accepts.** On a buffer of at most `2 ^ 31 - 2 ^ 24` bytes, the calls of a
non-empty sequence of `ReadVarint64` and `ReadString` on a fresh reader all return true, and return
the fields with the cursor at `stop`, exactly if the buffer is a complete message of `stop` bytes
that denotes the fields, with at least one byte behind it. -/
theorem accepted_reads_iff (heap : Memory) (buffer : CharArray)
    (hlen : buffer.bytes.length ≤ maxUnwrappedBytes) (kinds : List FieldKind) (hne : kinds ≠ [])
    (fields : List Field) (stop : ℤ) :
    ((ClickReadProtoBuffer.new heap buffer).readFields kinds).1 =
          fields.map (fun f => (true, f)) ∧
        ((ClickReadProtoBuffer.new heap buffer).readFields kinds).2.mIndex = stop ↔
      ∃ bytes rest, buffer.bytes = bytes ++ rest ∧ rest ≠ [] ∧
        WellFormedMessage kinds bytes fields ∧ stop = bytes.length := by
  constructor
  · rintro ⟨hresults, rfl⟩
    have hok : ∀ result ∈ ((ClickReadProtoBuffer.new heap buffer).readFields kinds).1,
        result.1 = true := by
      rw [hresults]
      intro result hresult
      obtain ⟨f, -, rfl⟩ := List.mem_map.mp hresult
      rfl
    obtain ⟨bytes, rest, hsplit, hrest, hmessage, hindex⟩ := exists_accepted heap hlen hne hok
    have hfields : (fields.map (fun f => (true, f))).map Prod.snd = fields := by
      rw [List.map_map]
      exact List.map_id _
    rw [hresults, hfields] at hmessage
    exact ⟨bytes, rest, hsplit, hrest, hmessage, hindex⟩
  · rintro ⟨bytes, rest, hsplit, hrest, hmessage, rfl⟩
    rw [readFields_wellFormed (ClickReadProtoBuffer.inRange_new heap buffer) hmessage hrest
      ((ClickReadProtoBuffer.remaining_new heap buffer).trans hsplit)]
    exact ⟨rfl, zero_add _⟩

/-- The number three in four groups and a string of two bytes are accepted. -/
theorem accepted_padded_number :
    let reads := (ClickReadProtoBuffer.new (fun _ => 0)
      ⟨[0x83, 0x80, 0x80, 0, 2, 65, 66, 9], by decide⟩).readFields [.varint, .string]
    reads.1 = [(true, .varint 3), (true, .string [65, 66])] ∧ reads.2.mIndex = 7 := by
  have hnumber : WellFormedField .varint [0x83, 0x80, 0x80, 0] (.varint 3) :=
    .varint (by simp [Terminated, Continues]) (by decide)
  have hstring : WellFormedField .string ([2] ++ [65, 66]) (.string [65, 66]) :=
    .string (by simp [Terminated, Continues]) (by decide) (by decide) (by decide)
  exact (accepted_reads_iff (fun _ => 0) ⟨[0x83, 0x80, 0x80, 0, 2, 65, 66, 9], by decide⟩
    (by decide) [.varint, .string] (by decide) [.varint 3, .string [65, 66]] 7).mpr
      ⟨_, [9], rfl, by decide, .cons hnumber (.cons hstring .nil), rfl⟩

/-! ## Reading, writing and reading again -/

/-- **An accepted message, rewritten.** On a buffer of at most `2 ^ 31 - 2 ^ 24` bytes, let every
call of a sequence of `ReadVarint64` and `ReadString` calls on a fresh reader return true. Writing
what they returned, in the same order, into a buffer of as many bytes as were passed yields a
message no longer than those bytes; and a reader of that message, with any bytes after it, reads the
same fields again, each with true and with the cursor at the end of the message. -/
theorem accepted_reads_rewritten (heap writeHeap readHeap : Memory)
    (buffer out message : CharArray) (kinds : List FieldKind) (suffix : Bytes)
    (hlen : buffer.bytes.length ≤ maxUnwrappedBytes)
    (hok : ∀ result ∈ ((ClickReadProtoBuffer.new heap buffer).readFields kinds).1,
      result.1 = true)
    (hroom : ((ClickReadProtoBuffer.new heap buffer).readFields kinds).2.mIndex ≤
      out.bytes.length)
    (hsuffix : suffix ≠ [])
    (hmessage : message.bytes =
      (writtenBy writeHeap out (((ClickReadProtoBuffer.new heap buffer).readFields kinds).1.map
        fun result => result.2.call)).1 ++ suffix) :
    let reads := (ClickReadProtoBuffer.new heap buffer).readFields kinds
    let written := writtenBy writeHeap out (reads.1.map fun result => result.2.call)
    written.2 = written.1.length ∧ written.2 ≤ reads.2.mIndex ∧
      ((ClickReadProtoBuffer.new readHeap message).readFields kinds).1 = reads.1 ∧
      ((ClickReadProtoBuffer.new readHeap message).readFields kinds).2.mIndex = written.2 := by
  intro reads written
  obtain ⟨bytes, hwell, hindex⟩ : ∃ bytes,
      WellFormedMessage kinds bytes (reads.1.map Prod.snd) ∧ reads.2.mIndex = bytes.length := by
    by_cases hne : kinds = []
    · subst hne
      exact ⟨[], .nil, rfl⟩
    · obtain ⟨bytes, -, -, -, hwell, hindex⟩ := exists_accepted heap hlen hne hok
      exact ⟨bytes, hwell, hindex⟩
  rw [hindex] at hroom
  set fields := reads.1.map Prod.snd with hfields
  have hle : (fields.flatMap Field.encoded).length ≤ bytes.length := hwell.length_encoded_le
  have hfits : (fields.flatMap Field.encoded).length ≤ out.bytes.length := by omega
  have hcalls : (reads.1.map fun result => result.2.call) = fields.map Field.call := by
    rw [hfields, List.map_map]
    rfl
  have hwritten : written =
      (fields.flatMap Field.encoded, ((fields.flatMap Field.encoded).length : ℤ)) := by
    rw [show written = writtenBy writeHeap out (fields.map Field.call) by rw [← hcalls],
      writtenBy_fields writeHeap hfits]
  -- every read reported true, so the fields say all there is to say of the results
  have hresults : fields.map (fun f => (true, f)) = reads.1 := by
    rw [hfields, List.map_map]
    conv_rhs => rw [← List.map_id reads.1]
    exact List.map_congr_left fun result hresult => by
      rw [Function.comp_apply, ← hok result hresult]
      rfl
  have hback : ReadsBack readHeap message fields (fields.flatMap Field.encoded).length :=
    (readsBack_iff readHeap hwell.legal (hmessage.trans
      (congrArg (·.1 ++ suffix) hwritten))).mpr (Or.inr hsuffix)
  rw [ReadsBack, hwell.map_kind, hresults] at hback
  rw [hwritten, hindex]
  exact ⟨rfl, Int.ofNat_le.mpr hle, hback⟩

/-- The number three in four groups and a string are written again, the number in one group, and
read as before. -/
theorem rewritten_padded_number :
    let kinds : List FieldKind := [.varint, .string]
    let reads := (ClickReadProtoBuffer.new (fun _ => 0)
      ⟨[0x83, 0x80, 0x80, 0, 2, 65, 66, 9], by decide⟩).readFields kinds
    let written := writtenBy (fun _ => 0) ⟨[0, 0, 0, 0, 0, 0, 0], by decide⟩
      (reads.1.map fun result => result.2.call)
    let again := (ClickReadProtoBuffer.new (fun _ => 0)
      ⟨[3, 2, 65, 66, 7], by decide⟩).readFields kinds
    written.2 = written.1.length ∧ written.2 ≤ reads.2.mIndex ∧ again.1 = reads.1 ∧
      again.2.mIndex = written.2 :=
  accepted_reads_rewritten (fun _ => 0) (fun _ => 0) (fun _ => 0)
    ⟨[0x83, 0x80, 0x80, 0, 2, 65, 66, 9], by decide⟩ ⟨[0, 0, 0, 0, 0, 0, 0], by decide⟩
    ⟨[3, 2, 65, 66, 7], by decide⟩ [.varint, .string] [7] (by decide) (by decide +kernel)
    (by decide +kernel) (by decide) (by decide +kernel)

end AsabruEngine
