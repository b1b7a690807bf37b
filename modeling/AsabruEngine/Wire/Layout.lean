import AsabruEngine.Wire.Fields

/-! # The layout of the bytes before the cursor

What a read does, told from the bytes alone. A read leaves the buffer in two ways: it starts at the
end, or it is the read of a string whose legal length is larger than what is left. The layout
functions say, of the bytes before the cursor, whether a read stays inside, whether it reports true
and which bytes it leaves; the reads follow them as long as they stay inside.

* `FieldFits`, `FieldRead` and `afterField` are the layout of one field, `FieldsFit` and
  `afterFields` that of a list.
* `Follows kind r` says that the read of a field of that kind in `r` does what the layout says.
* `readField_layout` and `readFields_layout`: a read follows the layout if it fits, and leaves the
  buffer if it does not. -/

namespace AsabruEngine

open Base128 ClickReadProtoBuffer

namespace Layout

/-! ## Layout functions -/

/-- The groups of the number `stream` starts with. -/
def groups (stream : Bytes) : Bytes := stream.take (lead stream + 1)

/-- A number of at most ten groups that ends before the last byte: `ReadVarint64` reports true. -/
def VarintRead (stream : Bytes) : Prop :=
  lead stream < maxVarintBytes ∧ lead stream + 1 < stream.length

/-- The bytes `ReadVarint64` leaves. -/
def afterVarint (stream : Bytes) : Bytes := stream.drop (min (lead stream + 1) maxVarintBytes)

/-- The length of a string is read, and is legal. -/
def LengthRead (stream : Bytes) : Prop :=
  VarintRead stream ∧ announced (groups stream) ≤ maxStringBytes

/-- A read of the kind stays inside: it starts before the end, and the string it may find is not
longer than what is left. -/
def FieldFits : FieldKind → Bytes → Prop
  | .varint, stream => stream ≠ []
  | .string, stream => stream ≠ [] ∧
      (LengthRead stream → (announced (groups stream)).toNat ≤ (afterVarint stream).length)

/-- A read of the kind that stays inside reports true: bytes are left after the field. -/
def FieldRead : FieldKind → Bytes → Prop
  | .varint, stream => VarintRead stream
  | .string, stream => LengthRead stream ∧
      (announced (groups stream)).toNat < (afterVarint stream).length

instance (stream : Bytes) : Decidable (VarintRead stream) := inferInstanceAs (Decidable (_ ∧ _))

instance (stream : Bytes) : Decidable (LengthRead stream) := inferInstanceAs (Decidable (_ ∧ _))

instance (kind : FieldKind) (stream : Bytes) : Decidable (FieldRead kind stream) :=
  match kind with
  | .varint => inferInstanceAs (Decidable (VarintRead stream))
  | .string => inferInstanceAs (Decidable (_ ∧ _))

/-- What is reported true was inside. -/
theorem FieldRead.fits {kind : FieldKind} {stream : Bytes} (h : FieldRead kind stream) :
    FieldFits kind stream := by
  have hne {s : Bytes} (hs : VarintRead s) : s ≠ [] := by
    rintro rfl
    exact absurd hs.2 (Nat.not_lt_zero _)
  cases kind with
  | varint => exact hne h
  | string => exact ⟨hne h.1.1, fun _ => h.2.le⟩

/-- The bytes a read of the kind leaves. -/
def afterField : FieldKind → Bytes → Bytes
  | .varint, stream => afterVarint stream
  | .string, stream =>
      if LengthRead stream then (afterVarint stream).drop (announced (groups stream)).toNat
      else afterVarint stream

/-- Reads of the kinds, whatever they report, stay inside. -/
def FieldsFit : List FieldKind → Bytes → Prop
  | [], _ => True
  | kind :: kinds, stream => FieldFits kind stream ∧ FieldsFit kinds (afterField kind stream)

/-- The bytes reads of the kinds leave. -/
def afterFields : List FieldKind → Bytes → Bytes
  | [], stream => stream
  | kind :: kinds, stream => afterFields kinds (afterField kind stream)

/-! ### The three starts of a stream -/

theorem groups_append {g : Bytes} (h : Terminated g) (rest : Bytes) : groups (g ++ rest) = g := by
  rw [groups, h.lead_append, List.take_left]

theorem varintRead_append {g rest : Bytes} (h : Terminated g) (hshort : g.length ≤ maxVarintBytes)
    (hrest : rest ≠ []) : VarintRead (g ++ rest) := by
  have hlead := h.lead_append rest
  have hpos := List.length_pos_iff_ne_nil.mpr hrest
  rw [VarintRead, List.length_append]
  omega

theorem afterVarint_append {g : Bytes} (h : Terminated g) (hshort : g.length ≤ maxVarintBytes)
    (rest : Bytes) : afterVarint (g ++ rest) = rest := by
  rw [afterVarint, h.lead_append, min_eq_left hshort, List.drop_left]

theorem not_varintRead_cutOff {g : Bytes} (h : Continuing g) (last : UInt8) :
    ¬ VarintRead (g ++ [last]) := by
  rw [VarintRead, lead_append h, List.length_append, List.length_singleton]
  omega

theorem afterVarint_cutOff {g : Bytes} (h : Continuing g) (hshort : g.length < maxVarintBytes)
    (last : UInt8) : afterVarint (g ++ [last]) = [] := by
  rw [afterVarint, lead_append h, List.drop_eq_nil_iff, List.length_append, List.length_singleton]
  omega

theorem not_varintRead_overlong {g : Bytes} (h : Continuing g) (hfull : g.length = maxVarintBytes)
    (rest : Bytes) : ¬ VarintRead (g ++ rest) := by
  rw [VarintRead, lead_append h]
  omega

theorem afterVarint_overlong {g : Bytes} (h : Continuing g) (hfull : g.length = maxVarintBytes)
    (rest : Bytes) : afterVarint (g ++ rest) = rest := by
  rw [afterVarint, lead_append h, min_eq_right (by omega), ← hfull, List.drop_left]

end Layout

/-! ## The reads follow the layout -/

namespace ClickReadProtoBuffer

open Layout

/-- What a read that stays inside does, told by the layout of the bytes before the cursor. -/
structure Follows (kind : FieldKind) (r : ClickReadProtoBuffer) : Prop where
  inRange : (r.readField kind).2.InRange
  remaining : (r.readField kind).2.remaining = afterField kind r.remaining
  flag : (r.readField kind).1.1 = true ↔ FieldRead kind r.remaining

theorem follows_of_advance {kind : FieldKind} {r : ClickReadProtoBuffer} (h : r.InRange)
    {b : Bool} {f : Field} {n : ℕ} (hn : n ≤ r.remaining.length)
    (hread : r.readField kind = ((b, f), r.advance n))
    (hafter : r.remaining.drop n = afterField kind r.remaining)
    (hflag : b = true ↔ FieldRead kind r.remaining) : Follows kind r := by
  refine ⟨?_, ?_, ?_⟩ <;> rw [hread]
  · exact h.advance hn
  · exact (remaining_advance hn).trans hafter
  · exact hflag

/-- `ReadVarint64` before the end follows the layout, and where it reports true its value is the
number the stream starts with. -/
theorem follows_varint {r : ClickReadProtoBuffer} (h : r.InRange) (hne : r.remaining ≠ []) :
    Follows .varint r ∧
      (VarintRead r.remaining → r.readVarint64.1.2 = announced (groups r.remaining)) := by
  generalize hrem : r.remaining = stream at hne
  cases scan maxVarintBytes hne with
  | terminated g rest complete short more =>
      have hread := readVarint64_terminated h complete short more hrem
      refine ⟨follows_of_advance h (n := g.length) (f := .varint _) (b := true) ?_
        (by rw [readField, hread]) ?_ ?_, fun _ => ?_⟩
      · rw [hrem, List.length_append]
        omega
      · rw [hrem, List.drop_left]
        exact (afterVarint_append complete short rest).symm
      · rw [hrem]
        exact iff_of_true rfl (varintRead_append complete short more)
      · rw [hread, groups_append complete]
        rfl
  | cutOff g last continuing short =>
      have hread := readVarint64_cutOff h continuing short hrem
      have hnot := not_varintRead_cutOff continuing last
      refine ⟨follows_of_advance h (n := g.length + 1) (f := .varint _) (b := false) ?_
        (by rw [readField, hread]) ?_ ?_, fun hvarint => absurd hvarint hnot⟩
      · rw [hrem, List.length_append, List.length_singleton]
      · rw [hrem, afterField, afterVarint_cutOff continuing short, List.drop_eq_nil_iff,
          List.length_append, List.length_singleton]
      · rw [hrem]
        exact iff_of_false Bool.false_ne_true hnot
  | overlong g rest continuing full more =>
      have hread := readVarint64_overlong h continuing full more hrem
      have hnot := not_varintRead_overlong continuing full rest
      refine ⟨follows_of_advance h (n := g.length) (f := .varint _) (b := false) ?_
        (by rw [readField, hread]) ?_ ?_, fun hvarint => absurd hvarint hnot⟩
      · rw [hrem, List.length_append]
        omega
      · rw [hrem, List.drop_left]
        exact (afterVarint_overlong continuing full rest).symm
      · rw [hrem]
        exact iff_of_false Bool.false_ne_true hnot

/-- `ReadString` whose length is not read follows the layout of the length alone. -/
theorem follows_string_of_not_varintRead {r : ClickReadProtoBuffer} (h : r.InRange)
    (hne : r.remaining ≠ []) (hnot : ¬ VarintRead r.remaining) : Follows .string r := by
  obtain ⟨hvarint, -⟩ := follows_varint h hne
  have hfalse : r.readVarint64.1.1 = false := by
    rw [← Bool.not_eq_true]
    exact fun htrue => hnot (hvarint.flag.mp htrue)
  have hlengthRead : r.readVarint64 = ((false, r.readVarint64.1.2), r.readVarint64.2) :=
    Prod.ext (Prod.ext hfalse rfl) rfl
  have hread := readString_of_readVarint64_false [] hlengthRead
  have hlength : ¬ LengthRead r.remaining := fun hlen => hnot hlen.1
  refine ⟨?_, ?_, ?_⟩
  · rw [readField, hread]
    exact hvarint.inRange
  · rw [readField, hread, afterField, if_neg hlength]
    exact hvarint.remaining
  · rw [readField, hread, FieldRead]
    exact iff_of_false Bool.false_ne_true fun hall => hlength hall.1

/-- A string whose length is a complete number: the length is refused, or the body is copied. -/
theorem string_layout_of_terminated {r : ClickReadProtoBuffer} (h : r.InRange) {g rest : Bytes}
    (complete : Terminated g) (short : g.length ≤ maxVarintBytes) (more : rest ≠ [])
    (hvarint : VarintRead (g ++ rest)) (hrem : r.remaining = g ++ rest) :
    (FieldFits .string r.remaining → Follows .string r) ∧
      (¬ FieldFits .string r.remaining → ¬ (r.readField .string).2.AccessedInside) := by
  have hgroups := groups_append complete rest
  have hafter := afterVarint_append complete short rest
  have hlength : LengthRead (g ++ rest) ↔ announced g ≤ maxStringBytes := by
    rw [LengthRead, hgroups]
    exact and_iff_right hvarint
  have hfits : FieldFits .string r.remaining ↔
      (announced g ≤ maxStringBytes → (announced g).toNat ≤ rest.length) := by
    rw [hrem, FieldFits, hlength, hgroups, hafter]
    exact and_iff_right (List.append_ne_nil_of_right_ne_nil g more)
  rw [hfits]
  by_cases hlegal : announced g ≤ maxStringBytes
  · refine ⟨fun hbody => ?_, fun hbody => ?_⟩
    · have hread := readString_accepted h [] complete short more hrem hlegal (hbody hlegal)
      refine follows_of_advance h (f := .string _) ?_ (by rw [readField, hread]) ?_ ?_
      · rw [hrem, List.length_append]
        have := hbody hlegal
        omega
      · rw [hrem, afterField, if_pos (hlength.mpr hlegal), hgroups, hafter, ← List.drop_drop,
          List.drop_left]
      · rw [hrem, FieldRead, hlength, hgroups, hafter, decide_eq_true_iff]
        exact (and_iff_right hlegal).symm
    · rw [Classical.not_imp, Nat.not_le] at hbody
      exact readString_body_overrun h [] complete short more hrem hlegal hbody.2
  · have hread := readString_refused h [] complete short more hrem (UInt64.not_le.mp hlegal)
    refine ⟨fun _ => ?_, fun hbody => absurd (fun hl => absurd hl hlegal) hbody⟩
    refine follows_of_advance h (f := .string _) (length_le_remaining hrem)
      (by rw [readField, hread]) ?_ ?_
    · rw [hrem, afterField, if_neg (fun hl => hlegal (hlength.mp hl)), hafter, List.drop_left]
    · rw [hrem, FieldRead, hlength]
      exact iff_of_false Bool.false_ne_true fun hall => hlegal hall.1

/-- **Every read follows the layout** as long as the layout says that it stays inside, and leaves
the buffer otherwise. -/
theorem readField_layout {r : ClickReadProtoBuffer} (h : r.InRange) (kind : FieldKind) :
    (FieldFits kind r.remaining → Follows kind r) ∧
      (¬ FieldFits kind r.remaining → ¬ (r.readField kind).2.AccessedInside) := by
  cases kind with
  | varint =>
      refine ⟨fun hfits => (follows_varint h hfits).1, fun hnot => ?_⟩
      exact readField_overrun h .varint (not_not.mp hnot)
  | string =>
      by_cases hne : r.remaining = []
      · exact ⟨fun hfits => absurd hne hfits.1, fun _ => readField_overrun h .string hne⟩
      by_cases hvarint : VarintRead r.remaining
      · generalize hrem : r.remaining = stream at hne hvarint
        rw [← hrem]
        cases scan maxVarintBytes hne with
        | terminated g rest complete short more =>
            exact string_layout_of_terminated h complete short more hvarint hrem
        | cutOff g last continuing short =>
            exact absurd hvarint (not_varintRead_cutOff continuing last)
        | overlong g rest continuing full more =>
            exact absurd hvarint (not_varintRead_overlong continuing full rest)
      · have hfits : FieldFits .string r.remaining := ⟨hne, fun hlen => absurd hlen.1 hvarint⟩
        exact ⟨fun _ => follows_string_of_not_varintRead h hne hvarint,
          fun hnot => absurd hfits hnot⟩

/-- A list of reads follows the layout, or leaves the buffer. -/
theorem readFields_layout {r : ClickReadProtoBuffer} (h : r.InRange) (kinds : List FieldKind) :
    (FieldsFit kinds r.remaining → (r.readFields kinds).2.InRange ∧
        (r.readFields kinds).2.remaining = afterFields kinds r.remaining) ∧
      (¬ FieldsFit kinds r.remaining → ¬ (r.readFields kinds).2.AccessedInside) := by
  induction kinds generalizing r with
  | nil => exact ⟨fun _ => ⟨h, rfl⟩, fun hnot => absurd trivial hnot⟩
  | cons kind kinds ih =>
      obtain ⟨hfollows, hleaves⟩ := readField_layout h kind
      by_cases hfits : FieldFits kind r.remaining
      · have hnext := hfollows hfits
        obtain ⟨hrest, hrestleaves⟩ := ih hnext.inRange
        rw [hnext.remaining] at hrest hrestleaves
        exact ⟨fun hall => hrest hall.2,
          fun hnot => hrestleaves fun hall => hnot ⟨hfits, hall⟩⟩
      · exact ⟨fun hall => absurd hall.1 hfits,
          fun _ hinside => hleaves hfits ((extends_readFields kinds _).inside hinside)⟩

end ClickReadProtoBuffer

end AsabruEngine
