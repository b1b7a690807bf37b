import AsabruEngine.Wire.Fields

/-! # Accepted reads are sound

A read that reports true has read a well-formed field inside the block and left bytes after it. For
`ReadString` this needs a buffer short enough that the cursor cannot wrap: its body is copied, and
the cursor moved, before the comparison.

`WellFormedField` and `WellFormedMessage` say which bytes denote which fields, padded and
overflowing numbers included. `readField_true` and `readFields_true` find them in the bytes of reads
that report true, one field and then a list, and `accepted_reads_sound` does so for a fresh reader.
`maxUnwrappedBytes` is the length up to which no cursor wraps. -/

namespace AsabruEngine

open Base128 ClickReadProtoBuffer

/-- The largest buffer on which a legal string length cannot wrap the cursor. -/
def maxUnwrappedBytes : ℕ := 2 ^ 31 - 2 ^ 24

/-- `bytes` is a complete field of the kind, and `f` is the field it denotes. -/
inductive WellFormedField : FieldKind → Bytes → Field → Prop
  /-- One to ten bytes, ended by the first one without the top bit, denoting a number modulo
  `2 ^ 64`. -/
  | varint {groups : Bytes} (complete : Terminated groups)
      (short : groups.length ≤ maxVarintBytes) :
      WellFormedField .varint groups (.varint (UInt64.ofNat (value groups)))
  /-- A legal length, and that many bytes. -/
  | string {groups body : Bytes} (complete : Terminated groups)
      (short : groups.length ≤ maxVarintBytes) (legal : announced groups ≤ maxStringBytes)
      (whole : body.length = (announced groups).toNat) :
      WellFormedField .string (groups ++ body) (.string body)

/-- `bytes` is the concatenation of complete fields of the kinds, denoting `fields`. -/
inductive WellFormedMessage : List FieldKind → Bytes → List Field → Prop
  /-- No field. -/
  | nil : WellFormedMessage [] [] []
  /-- A field and the message after it. -/
  | cons {kind : FieldKind} {kinds : List FieldKind} {bytes rest : Bytes} {f : Field}
      {fields : List Field} (head : WellFormedField kind bytes f)
      (tail : WellFormedMessage kinds rest fields) :
      WellFormedMessage (kind :: kinds) (bytes ++ rest) (f :: fields)

namespace ClickReadProtoBuffer

/-- `ReadVarint64` at the end of the block reports false, as long as the cursor does not wrap. -/
theorem readVarint64_end {r : ClickReadProtoBuffer} (h : r.InRange) (hmax : r.mLen < int32Max)
    (hrem : r.remaining = []) : r.readVarint64.1.1 = false := by
  have hend := h.index_add_length
  have hlo := h.index_nonneg
  rw [hrem, List.length_nil, Nat.cast_zero, add_zero] at hend
  have hwrap : toInt32 (r.mIndex + 1) = r.mIndex + 1 := toInt32_of_fits (by omega) (by omega)
  have hflag : r.readByte.1.1 = false := by
    simp only [readByte, hwrap, decide_eq_false_iff_not]
    omega
  rw [readVarint64, maxVarintBytes, readVarint64Loop]
  simp only [hflag, Bool.not_false, if_true]

/-- **A true `ReadVarint64`** has read a complete number with bytes after it. -/
theorem readVarint64_true {r : ClickReadProtoBuffer} (h : r.InRange) (hmax : r.mLen < int32Max)
    (hok : r.readVarint64.1.1 = true) :
    ∃ groups rest, r.remaining = groups ++ rest ∧ Terminated groups ∧
      groups.length ≤ maxVarintBytes ∧ rest ≠ [] := by
  by_cases hnil : r.remaining = []
  · rw [readVarint64_end h hmax hnil] at hok
    cases hok
  · generalize hrem : r.remaining = stream at hnil
    -- of the three ways a stream starts only the complete number is reported true
    cases scan maxVarintBytes hnil with
    | terminated groups rest complete short more =>
        exact ⟨groups, rest, rfl, complete, short, more⟩
    | cutOff groups last continuing short =>
        rw [readVarint64_cutOff h continuing short hrem] at hok
        cases hok
    | overlong groups rest continuing full more =>
        rw [readVarint64_overlong h continuing full more hrem] at hok
        cases hok

/-- A legal string body longer than what is left makes `ReadBuffer` report false, as long as the
cursor does not wrap. -/
theorem readBuffer_overrun {r : ClickReadProtoBuffer} (h : r.InRange) {n : ℕ}
    (hmax : r.mLen + n ≤ int32Max) (hn : r.remaining.length < n) :
    (r.readBuffer n).1.1 = false := by
  have hlo := h.index_nonneg
  have hend := h.index_add_length
  have hwrap : toInt32 (r.mIndex + n) = r.mIndex + n := toInt32_of_fits (by omega) (by omega)
  simp only [readBuffer, hwrap, decide_eq_false_iff_not]
  omega

/-- **A true `ReadString`** has read a legal length and a whole body with bytes after it. -/
theorem readString_true {r : ClickReadProtoBuffer} (h : r.InRange)
    (hmax : r.mLen ≤ maxUnwrappedBytes) (value : Bytes)
    (hok : (r.readString value).1.1 = true) :
    ∃ groups body rest, r.remaining = groups ++ (body ++ rest) ∧ Terminated groups ∧
      groups.length ≤ maxVarintBytes ∧ announced groups ≤ maxStringBytes ∧
      body.length = (announced groups).toNat ∧ rest ≠ [] := by
  rw [maxUnwrappedBytes] at hmax
  have hmax' : r.mLen < int32Max := by
    rw [int32Max]
    omega
  -- `ReadString` reports true only after the read of the length has
  have hlen : r.readVarint64.1.1 = true := by
    by_contra hfalse
    rw [Bool.not_eq_true] at hfalse
    have hread : r.readVarint64 = ((false, r.readVarint64.1.2), r.readVarint64.2) :=
      Prod.ext (Prod.ext hfalse rfl) rfl
    rw [readString_of_readVarint64_false value hread] at hok
    cases hok
  obtain ⟨groups, rest, hrem, complete, short, more⟩ := readVarint64_true h hmax' hlen
  by_cases hlegal : announced groups ≤ maxStringBytes
  · have hle := length_le_remaining hrem
    have hrem' := remaining_advance_append hrem
    have hsize : (announced groups).toNat ≤ 0x00FFFFFF := UInt64.le_iff_toNat_le.mp hlegal
    rw [readString_legal h value complete short more hrem hlegal] at hok
    -- a body that does not fit strictly is reported false, before or at the end of the block
    have hfit : (announced groups).toNat < rest.length := by
      by_contra hbody
      rcases Nat.lt_or_eq_of_le (Nat.not_lt.mp hbody) with hlt | heq
      · have hover := readBuffer_overrun (h.advance hle) (n := (announced groups).toNat)
          (by rw [advance_mLen, int32Max]; omega) (by rw [hrem']; exact hlt)
        rw [hover] at hok
        cases hok
      · rw [readBuffer_of_le (h.advance hle) (by rw [hrem', heq]), hrem', heq,
          decide_eq_false (Nat.lt_irrefl _)] at hok
        cases hok
    refine ⟨groups, rest.take (announced groups).toNat, rest.drop (announced groups).toNat,
      ?_, complete, short, hlegal, ?_, ?_⟩
    · rw [List.take_append_drop]
      exact hrem
    · rw [List.length_take]
      omega
    · rw [ne_eq, List.drop_eq_nil_iff]
      omega
  · rw [readString_refused h value complete short more hrem (UInt64.not_le.mp hlegal)] at hok
    cases hok

/-- **A true read of a field**: the bytes it passed are a complete field denoting what it stored,
and bytes are left. -/
theorem readField_true {r : ClickReadProtoBuffer} (h : r.InRange)
    (hmax : r.mLen ≤ maxUnwrappedBytes) (kind : FieldKind)
    (hok : (r.readField kind).1.1 = true) :
    ∃ bytes rest, r.remaining = bytes ++ rest ∧ rest ≠ [] ∧
      WellFormedField kind bytes (r.readField kind).1.2 ∧
      (r.readField kind).2 = r.advance bytes.length := by
  cases kind with
  | varint =>
      have hmax' : r.mLen < int32Max := by
        rw [maxUnwrappedBytes] at hmax
        rw [int32Max]
        omega
      obtain ⟨groups, rest, hrem, complete, short, more⟩ := readVarint64_true h hmax' hok
      rw [readField, readVarint64_terminated h complete short more hrem]
      exact ⟨groups, rest, hrem, more, .varint complete short, rfl⟩
  | string =>
      obtain ⟨groups, body, rest, hrem, complete, short, hlegal, hbody, more⟩ :=
        readString_true h hmax [] hok
      have hread := readString_accepted h [] complete short
        (List.append_ne_nil_of_right_ne_nil body more) hrem hlegal
        (by rw [List.length_append]; omega)
      rw [readField, hread, ← hbody, List.take_left, ← List.length_append]
      rw [← List.append_assoc] at hrem
      exact ⟨groups ++ body, rest, hrem, more, .string complete short hlegal hbody, rfl⟩

/-- True reads of fields: the bytes passed are a message denoting what was stored. -/
theorem readFields_true {r : ClickReadProtoBuffer} (h : r.InRange)
    (hmax : r.mLen ≤ maxUnwrappedBytes) (hne : r.remaining ≠ []) (kinds : List FieldKind)
    (hok : ∀ result ∈ (r.readFields kinds).1, result.1 = true) :
    ∃ bytes rest, r.remaining = bytes ++ rest ∧ rest ≠ [] ∧
      WellFormedMessage kinds bytes ((r.readFields kinds).1.map Prod.snd) ∧
      (r.readFields kinds).2 = r.advance bytes.length := by
  induction kinds generalizing r with
  | nil => exact ⟨[], r.remaining, rfl, hne, .nil, (advance_zero r).symm⟩
  | cons kind kinds ih =>
      rw [readFields] at hok ⊢
      obtain ⟨bytes, rest, hrem, more, hfield, hnext⟩ :=
        readField_true h hmax kind (hok _ List.mem_cons_self)
      have hrem' := remaining_advance_append hrem
      have htail := ih (h.advance (length_le_remaining hrem)) hmax (by rw [hrem']; exact more)
        (fun result hresult =>
          hok result (List.mem_cons_of_mem _ (by rw [hnext]; exact hresult)))
      obtain ⟨bytes', rest', hrest, more', hmessage, hend⟩ := htail
      rw [hnext]
      refine ⟨bytes ++ bytes', rest', ?_, more', .cons hfield hmessage, ?_⟩
      · rw [hrem, ← hrem', hrest, List.append_assoc]
      · rw [hend, advance_advance, List.length_append]

end ClickReadProtoBuffer

/-- **Accepted reads are sound.** On a buffer of at most `2 ^ 31 - 2 ^ 24` bytes, if every call of a
non-empty sequence of `ReadVarint64` and `ReadString` calls on a fresh reader returned true, then no
byte outside the buffer was read, the bytes before the cursor are complete fields of those kinds
denoting exactly what was returned, and the cursor is before the end of the buffer. -/
theorem accepted_reads_sound (heap : Memory) (buffer : CharArray)
    (hlen : buffer.bytes.length ≤ maxUnwrappedBytes) (kinds : List FieldKind) (hne : kinds ≠ [])
    (hok : ∀ result ∈ ((ClickReadProtoBuffer.new heap buffer).readFields kinds).1,
      result.1 = true) :
    let reads := (ClickReadProtoBuffer.new heap buffer).readFields kinds
    (∀ i ∈ reads.2.accessed, 0 ≤ i ∧ i < buffer.bytes.length) ∧
      WellFormedMessage kinds (buffer.bytes.take reads.2.mIndex.toNat)
        (reads.1.map Prod.snd) ∧
      0 ≤ reads.2.mIndex ∧ reads.2.mIndex < buffer.bytes.length := by
  have hnew := ClickReadProtoBuffer.inRange_new heap buffer
  have hmax : (ClickReadProtoBuffer.new heap buffer).mLen ≤ maxUnwrappedBytes :=
    Int.ofNat_le.mpr hlen
  have hrem := ClickReadProtoBuffer.remaining_new heap buffer
  -- the first read is true, so the buffer is not empty
  have hbytes : (ClickReadProtoBuffer.new heap buffer).remaining ≠ [] := by
    obtain ⟨kind, more, rfl⟩ := List.exists_cons_of_ne_nil hne
    obtain ⟨bytes, rest, hsplit, hrest, -, -⟩ :=
      readField_true hnew hmax kind (hok _ List.mem_cons_self)
    rw [hsplit]
    exact List.append_ne_nil_of_right_ne_nil _ hrest
  obtain ⟨bytes, rest, hsplit, hrest, hmessage, hend⟩ :=
    readFields_true hnew hmax hbytes kinds hok
  have hinside := (hnew.advance (length_le_remaining hsplit)).inside
  have hindex : ((ClickReadProtoBuffer.new heap buffer).advance bytes.length).mIndex =
      bytes.length := zero_add _
  have hpos := List.length_pos_iff_ne_nil.mpr hrest
  have htotal : buffer.bytes.length = bytes.length + rest.length := by
    rw [← hrem, hsplit, List.length_append]
  simp only [hend]
  refine ⟨hinside, ?_, ?_, ?_⟩
  · rw [hindex, Int.toNat_natCast, ← hrem, hsplit, List.take_left]
    exact hmessage
  · rw [hindex]
    exact Int.natCast_nonneg _
  · rw [hindex, htotal]
    omega

/-- A number and a string read from a seven-byte buffer. -/
theorem accepted_reads_number_and_string :
    let reads := (ClickReadProtoBuffer.new (fun _ => 0)
      ⟨[0xAC, 2, 2, 65, 66, 0, 0], by decide⟩).readFields [.varint, .string]
    (∀ i ∈ reads.2.accessed, 0 ≤ i ∧ i < 7) ∧
      WellFormedMessage [.varint, .string]
        (([0xAC, 2, 2, 65, 66, 0, 0] : Bytes).take reads.2.mIndex.toNat)
        (reads.1.map Prod.snd) ∧
      0 ≤ reads.2.mIndex ∧ reads.2.mIndex < 7 :=
  accepted_reads_sound (fun _ => 0) ⟨[0xAC, 2, 2, 65, 66, 0, 0], by decide⟩ (by decide)
    [.varint, .string] (by decide) (by decide +kernel)

end AsabruEngine
