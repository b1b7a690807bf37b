import AsabruEngine.Wire.ReadSpec
import AsabruEngine.Wire.WrittenForm

/-! # Fields written and read back

A message is a list of fields, each a varint or a string. The reader gets every field back, with
true, as long as a byte follows it; on the field that ends the buffer it reports false, and of a
varint it has then stored all groups but the last.

* A `Field` is written by its `call` and read by `readField` at its `FieldKind`. `readFields` makes
  one read after the other, each from where the one before it has left the cursor.
* `readField_encoded` and `readField_last` are the two cases of one field, and `readFields_encoded`
  and `readFields_last` those of a message, by induction on its fields.
* `ReadsBack` is the round trip, and `readsBack_written_iff` says when it succeeds. -/

namespace AsabruEngine

open Base128

/-- A field of a message. -/
inductive Field where
  /-- A 64-bit number. -/
  | varint (value : UInt64)
  /-- A byte string. -/
  | string (value : Bytes)
  deriving DecidableEq, Repr

/-- The kind of a field: which of the two reads it takes. -/
inductive FieldKind where
  | varint
  | string
  deriving DecidableEq, Repr

namespace Field

/-- The kind of a field. -/
def kind : Field → FieldKind
  | varint _ => .varint
  | string _ => .string

/-- The call that writes a field. -/
def call : Field → WriteCall
  | varint value => .writeVarint64 value
  | string value => .writeString value

/-- A string field is no longer than `ReadString` accepts. -/
def Legal : Field → Prop
  | varint _ => True
  | string value => value.length ≤ maxStringBytes.toNat

/-- The wire form of a field. -/
def encoded (f : Field) : Bytes := f.call.encoded

/-- What a read stores of a field that ends the buffer: a varint loses its last group. -/
def lastSeen : Field → Field
  | varint value => .varint (announcedInit value)
  | string value => .string value
where
  /-- The groups of a number but the last. -/
  announcedInit (value : UInt64) : UInt64 :=
    UInt64.ofNat (Base128.value (encode value.toNat).dropLast)

@[simp] theorem encoded_varint (v : UInt64) : (varint v).encoded = encode v.toNat := rfl

@[simp] theorem encoded_string (s : Bytes) : (string s).encoded = encode s.length ++ s := rfl

theorem encoded_ne_nil (f : Field) : f.encoded ≠ [] := by
  cases f with
  | varint v => exact encode_ne_nil _
  | string s => exact List.append_ne_nil_of_left_ne_nil (encode_ne_nil _) _

/-- Writing fields appends their wire forms. -/
theorem flatMap_encoded_call (fields : List Field) :
    (fields.map call).flatMap WriteCall.encoded = fields.flatMap encoded := by
  rw [List.flatMap_map]
  rfl

end Field

namespace ClickReadProtoBuffer

/-- Read a field of the given kind, a string into an empty `std::string`. -/
def readField (kind : FieldKind) (r : ClickReadProtoBuffer) :
    (Bool × Field) × ClickReadProtoBuffer :=
  match kind with
  | .varint => ((r.readVarint64.1.1, .varint r.readVarint64.1.2), r.readVarint64.2)
  | .string => (((r.readString []).1.1, .string (r.readString []).1.2), (r.readString []).2)

/-- Read fields of the given kinds in order, whatever the reads report. -/
def readFields : List FieldKind → ClickReadProtoBuffer → List (Bool × Field) × ClickReadProtoBuffer
  | [], r => ([], r)
  | kind :: kinds, r =>
      ((r.readField kind).1 :: (readFields kinds (r.readField kind).2).1,
        (readFields kinds (r.readField kind).2).2)

/-! ## Numbers and strings as the encoder writes them -/

/-- A 64-bit number takes at most ten groups. -/
theorem length_encode_toNat_le (v : UInt64) : (encode v.toNat).length ≤ maxVarintBytes :=
  length_encode_le 9 (lt_of_lt_of_le v.toNat_lt (by decide))

/-- The length of a legal string as `ReadString` gets it. -/
theorem announced_encode_length {s : Bytes} (hs : s.length ≤ maxStringBytes.toNat) :
    (announced (encode s.length)).toNat = s.length := by
  rw [announced, value_encode, UInt64.toNat_ofNat']
  have : maxStringBytes.toNat < 2 ^ 64 := maxStringBytes.toNat_lt
  exact Nat.mod_eq_of_lt (by omega)

theorem announced_encode_length_le {s : Bytes} (hs : s.length ≤ maxStringBytes.toNat) :
    announced (encode s.length) ≤ maxStringBytes := by
  rw [UInt64.le_iff_toNat_le, announced_encode_length hs]
  exact hs

theorem length_encode_length_le {s : Bytes} (hs : s.length ≤ maxStringBytes.toNat) :
    (encode s.length).length ≤ maxVarintBytes := by
  have hlt : maxStringBytes.toNat < 128 ^ (9 + 1) := by decide
  exact length_encode_le 9 (lt_of_le_of_lt hs hlt)

/-- **A field with bytes after it is read back**: true, the field, and the cursor after it. -/
theorem readField_encoded {r : ClickReadProtoBuffer} (h : r.InRange) {f : Field} (hf : f.Legal)
    {rest : Bytes} (hrest : rest ≠ []) (hrem : r.remaining = f.encoded ++ rest) :
    r.readField f.kind = ((true, f), r.advance f.encoded.length) := by
  cases f with
  | varint v =>
      rw [Field.kind, readField,
        readVarint64_terminated h (terminated_encode _) (length_encode_toNat_le v) hrest hrem,
        value_encode, UInt64.ofNat_toNat]
      rfl
  | string s =>
      -- the body follows the length, so bytes follow the length in any case
      rw [Field.encoded_string, List.append_assoc] at hrem
      have hn := announced_encode_length hf
      rw [Field.kind, readField,
        readString_accepted h [] (terminated_encode _) (length_encode_length_le hf)
          (List.append_ne_nil_of_right_ne_nil _ hrest) hrem (announced_encode_length_le hf)
          (by rw [hn, List.length_append]; omega), hn]
      have hpos := List.length_pos_iff_ne_nil.mpr hrest
      have hmore : s.length < (s ++ rest).length := by
        rw [List.length_append]
        omega
      rw [decide_eq_true hmore, List.take_left, Field.encoded_string, List.length_append]

/-- A number that ends the buffer is cut off before its last group. -/
theorem readVarint64_last {r : ClickReadProtoBuffer} (h : r.InRange) {v : UInt64}
    (hrem : r.remaining = encode v.toNat) :
    r.readVarint64 =
      ((false, Field.lastSeen.announcedInit v), r.advance (encode v.toNat).length) := by
  obtain ⟨init, last, heq, hinit, -⟩ := (terminated_encode v.toNat).exists_init_last
  have hshort := length_encode_toNat_le v
  rw [heq, List.length_append, List.length_singleton] at hshort
  rw [Field.lastSeen.announcedInit, heq, List.dropLast_concat, List.length_append,
    List.length_singleton]
  rw [heq] at hrem
  exact readVarint64_cutOff h hinit (by omega) hrem

/-- A string that ends the buffer is stored whole, with false. -/
theorem readString_last {r : ClickReadProtoBuffer} (h : r.InRange) {s : Bytes}
    (hs : s.length ≤ maxStringBytes.toNat) (hrem : r.remaining = encode s.length ++ s) :
    r.readString [] = ((false, s), r.advance (encode s.length ++ s).length) := by
  by_cases hnil : s = []
  · -- the length is the last byte, and the read of the length fails
    subst hnil
    rw [List.append_nil] at hrem ⊢
    exact readString_of_readVarint64_false [] (readVarint64_last h (v := 0) hrem)
  · have hn := announced_encode_length hs
    rw [readString_accepted h [] (terminated_encode _) (length_encode_length_le hs) hnil hrem
      (announced_encode_length_le hs) (by rw [hn]), hn, List.take_length, List.length_append,
      decide_eq_false (Nat.lt_irrefl _)]

/-- **A field that ends the buffer** is reported false and stored as `lastSeen`, with the cursor at
the end. -/
theorem readField_last {r : ClickReadProtoBuffer} (h : r.InRange) {f : Field} (hf : f.Legal)
    (hrem : r.remaining = f.encoded) :
    r.readField f.kind = ((false, f.lastSeen), r.advance f.encoded.length) := by
  cases f with
  | varint v =>
      rw [Field.kind, readField, readVarint64_last h hrem]
      rfl
  | string s =>
      rw [Field.kind, readField, readString_last h hf hrem]
      rfl

/-! ## Lists of fields -/

theorem readFields_append (ks ks' : List FieldKind) (r : ClickReadProtoBuffer) :
    r.readFields (ks ++ ks') =
      ((r.readFields ks).1 ++ ((r.readFields ks).2.readFields ks').1,
        ((r.readFields ks).2.readFields ks').2) := by
  induction ks generalizing r with
  | nil => rfl
  | cons k ks ih => simp only [List.cons_append, readFields, ih]

/-- Fields with bytes after them are all read back. -/
theorem readFields_encoded {r : ClickReadProtoBuffer} (h : r.InRange) {fields : List Field}
    (hlegal : ∀ f ∈ fields, f.Legal) {rest : Bytes} (hrest : rest ≠ [])
    (hrem : r.remaining = fields.flatMap Field.encoded ++ rest) :
    r.readFields (fields.map Field.kind) =
      (fields.map (fun f => (true, f)), r.advance (fields.flatMap Field.encoded).length) := by
  induction fields generalizing r with
  | nil => simp [readFields]
  | cons f fields ih =>
      rw [List.flatMap_cons, List.append_assoc] at hrem
      have hread := readField_encoded h (hlegal f List.mem_cons_self)
        (List.append_ne_nil_of_right_ne_nil _ hrest) hrem
      have htail := ih (h.advance (length_le_remaining hrem))
        (fun g hg => hlegal g (List.mem_cons_of_mem f hg)) (remaining_advance_append hrem)
      rw [List.map_cons, readFields, hread, htail, List.map_cons, List.flatMap_cons,
        List.length_append, advance_advance]

/-- Of fields that end the buffer the last one is reported false. -/
theorem readFields_last {r : ClickReadProtoBuffer} (h : r.InRange) {fields : List Field}
    {last : Field} (hlegal : ∀ f ∈ fields ++ [last], f.Legal)
    (hrem : r.remaining = (fields ++ [last]).flatMap Field.encoded) :
    r.readFields ((fields ++ [last]).map Field.kind) =
      (fields.map (fun f => (true, f)) ++ [(false, last.lastSeen)],
        r.advance ((fields ++ [last]).flatMap Field.encoded).length) := by
  rw [List.flatMap_append, List.flatMap_singleton] at hrem ⊢
  have hread := readFields_encoded h (fun f hf => hlegal f (List.mem_append_left _ hf))
    last.encoded_ne_nil hrem
  have hlast := readField_last (h.advance (length_le_remaining hrem))
    (hlegal last (List.mem_append_right _ (List.mem_singleton_self _)))
    (remaining_advance_append hrem)
  rw [List.map_append, List.map_singleton, readFields_append, hread, readFields, readFields,
    hlast, List.length_append, advance_advance]

/-- **Fields are stored as written** also where they end the buffer, if the last of them is one that
is stored whole there. -/
theorem readFields_stored {r : ClickReadProtoBuffer} (h : r.InRange) {fields : List Field}
    {last : Field} {rest : Bytes} (hlegal : ∀ f ∈ fields ++ [last], f.Legal)
    (hlast : last.lastSeen = last)
    (hrem : r.remaining = (fields ++ [last]).flatMap Field.encoded ++ rest) :
    (r.readFields ((fields ++ [last]).map Field.kind)).1.map Prod.snd = fields ++ [last] ∧
      (r.readFields ((fields ++ [last]).map Field.kind)).2 =
        r.advance ((fields ++ [last]).flatMap Field.encoded).length := by
  -- only the flag of the last read depends on whether bytes follow
  by_cases hrest : rest = []
  · rw [hrest, List.append_nil] at hrem
    rw [readFields_last h hlegal hrem, hlast]
    simp [List.map_append, Function.comp_def]
  · rw [readFields_encoded h hlegal hrest hrem]
    simp [Function.comp_def]

theorem extends_readField (kind : FieldKind) (r : ClickReadProtoBuffer) :
    Extends r (r.readField kind).2 := by
  cases kind with
  | varint => exact extends_readVarint64 r
  | string => exact extends_readString [] r

theorem extends_readFields (kinds : List FieldKind) (r : ClickReadProtoBuffer) :
    Extends r (r.readFields kinds).2 := by
  induction kinds generalizing r with
  | nil => exact Extends.refl r
  | cons kind kinds ih => exact (extends_readField kind r).trans (ih _)

/-- Any field read at the end of the block reads beside it. -/
theorem readField_overrun {r : ClickReadProtoBuffer} (h : r.InRange) (kind : FieldKind)
    (hrem : r.remaining = []) : ¬ (r.readField kind).2.AccessedInside := by
  cases kind with
  | varint => exact readVarint64_overrun h hrem
  | string => exact readString_overrun h [] hrem

/-- Reading more fields than the buffer holds reads beside the block. -/
theorem readFields_short {r : ClickReadProtoBuffer} (h : r.InRange) {fields : List Field}
    {last : Field} (hlegal : ∀ f ∈ fields ++ [last], f.Legal)
    (hrem : r.remaining = (fields ++ [last]).flatMap Field.encoded) (kind : FieldKind)
    (more : List FieldKind) :
    ¬ (r.readFields ((fields ++ [last]).map Field.kind ++ kind :: more)).2.AccessedInside := by
  rw [readFields_append, readFields_last h hlegal hrem]
  intro hinside
  have hle : ((fields ++ [last]).flatMap Field.encoded).length ≤ r.remaining.length := by
    rw [hrem]
  refine readField_overrun (h.advance hle) kind ?_ ((extends_readFields more _).inside hinside)
  rw [remaining_advance hle, hrem, List.drop_length]

end ClickReadProtoBuffer

/-! ## Message round trip -/

/-- Reading back, in the same order of kinds, the fields at the start of `buffer`: every read
reports true and yields the field, and the cursor stops at offset `stop`. -/
def ReadsBack (heap : Memory) (buffer : CharArray) (fields : List Field) (stop : ℤ) : Prop :=
  ((ClickReadProtoBuffer.new heap buffer).readFields (fields.map Field.kind)).1 =
      fields.map (fun f => (true, f)) ∧
    ((ClickReadProtoBuffer.new heap buffer).readFields (fields.map Field.kind)).2.mIndex = stop

instance (heap : Memory) (buffer : CharArray) (fields : List Field) (stop : ℤ) :
    Decidable (ReadsBack heap buffer fields stop) :=
  inferInstanceAs (Decidable (_ ∧ _))

/-- Fields whose wire forms start the buffer are read back exactly when none is there to read or
bytes follow them. -/
theorem readsBack_iff (heap : Memory) {buffer : CharArray} {fields : List Field} {suffix : Bytes}
    (hlegal : ∀ f ∈ fields, f.Legal)
    (hbytes : buffer.bytes = fields.flatMap Field.encoded ++ suffix) :
    ReadsBack heap buffer fields (fields.flatMap Field.encoded).length ↔
      fields = [] ∨ suffix ≠ [] := by
  have hrange := ClickReadProtoBuffer.inRange_new heap buffer
  have hrem := (ClickReadProtoBuffer.remaining_new heap buffer).trans hbytes
  by_cases hsuffix : suffix = []
  · subst hsuffix
    rw [List.append_nil] at hrem
    rcases List.eq_nil_or_concat' fields with rfl | ⟨init, last, rfl⟩
    · exact ⟨fun _ => Or.inl rfl, fun _ => ⟨rfl, rfl⟩⟩
    · -- the last field is reported false
      rw [ReadsBack, ClickReadProtoBuffer.readFields_last hrange hlegal hrem]
      simp
  · have hread := ClickReadProtoBuffer.readFields_encoded hrange hlegal hsuffix hrem
    rw [ReadsBack, hread]
    simp [hsuffix, ClickReadProtoBuffer.new]

/-- The fields written on a fresh writer with room for them. -/
theorem writtenBy_fields (heap : Memory) {buffer : CharArray} {fields : List Field}
    (hfits : (fields.flatMap Field.encoded).length ≤ buffer.bytes.length) :
    writtenBy heap buffer (fields.map Field.call) =
      (fields.flatMap Field.encoded, ((fields.flatMap Field.encoded).length : ℤ)) := by
  have hfits' : ((fields.map Field.call).flatMap WriteCall.encoded).length ≤
      buffer.bytes.length := by
    rw [Field.flatMap_encoded_call]
    exact hfits
  have h := WriteCall.getBuffer_performAll_new heap hfits'
  rw [Field.flatMap_encoded_call] at h
  exact h

/-- **When a written message is read back.** Legal fields written into a buffer with room for them
and followed by `suffix` are read back, each with true and with the cursor at the start of the
suffix at the end, exactly when there is no field or the suffix is not empty. -/
theorem readsBack_written_iff (writeHeap readHeap : Memory) (buffer message : CharArray)
    (fields : List Field) (suffix : Bytes) (hlegal : ∀ f ∈ fields, f.Legal)
    (hfits : (fields.flatMap Field.encoded).length ≤ buffer.bytes.length)
    (hmessage : message.bytes = (writtenBy writeHeap buffer (fields.map Field.call)).1 ++ suffix) :
    ReadsBack readHeap message fields (writtenBy writeHeap buffer (fields.map Field.call)).2 ↔
      fields = [] ∨ suffix ≠ [] := by
  rw [writtenBy_fields writeHeap hfits] at hmessage ⊢
  exact readsBack_iff readHeap hlegal hmessage

/-- A code followed by a byte is read back. -/
theorem readsBack_written_code :
    ReadsBack (fun _ => 0) ⟨[0xAC, 0x02, 7], by decide⟩ [.varint 300]
      (writtenBy (fun _ => 0) ⟨[0, 0], by decide⟩ ([Field.varint 300].map Field.call)).2 :=
  (readsBack_written_iff (fun _ => 0) (fun _ => 0) ⟨[0, 0], by decide⟩
    ⟨[0xAC, 0x02, 7], by decide⟩ [.varint 300] [7] (by simp [Field.Legal]) (by simp [encode])
    (by decide +kernel)).mpr (Or.inr (by decide))

/-- A packet that is only the type code `0`, written and read with nothing after it, is reported as
a failed read. -/
theorem not_readsBack_packet_type :
    writtenBy (fun _ => 0) ⟨[0], by decide⟩ ([Field.varint 0].map Field.call) = ([0], 1) ∧
      ¬ ReadsBack (fun _ => 0) ⟨[0], by decide⟩ [.varint 0] 1 := by
  decide +kernel

end AsabruEngine
