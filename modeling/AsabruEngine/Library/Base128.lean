import Mathlib.Algebra.BigOperators.Ring.Finset
import Mathlib.Data.Nat.Digits.Defs
import Mathlib.Tactic.Ring

/-! # Base-128 groups

Naturals written as a list of bytes, least significant group first: seven payload bits a byte, and
the top bit set on every byte but the last. `value` reads any list of groups, `Terminated` says
where a number ends, `encode` is the shortest list that denotes a number, and `Scan` lists what a
reader with a bound on the number of groups can meet.

* `value_append` and `Terminated.append_inj` take groups apart: a terminated prefix of a stream is
  determined by the stream.
* `value_encode` reads back what was encoded, and `isLeast_length_encode` says that no list of
  groups denotes the number with fewer of them.
* `scan` puts every stream into one of the cases of `Scan`: a number that ends within the bound, one
  that the stream cuts off, and one that goes on for too long. -/

namespace AsabruEngine.Base128

/-! ## Groups and the number they denote -/

/-- The seven payload bits of a group. -/
def payload (b : UInt8) : ℕ := b.toNat % 128

/-- The top bit of a group: another group follows. -/
def Continues (b : UInt8) : Prop := 128 ≤ b.toNat

instance (b : UInt8) : Decidable (Continues b) := inferInstanceAs (Decidable (128 ≤ b.toNat))

/-- The natural a list of groups denotes, least significant group first. -/
def value (groups : List UInt8) : ℕ := Nat.ofDigits 128 (groups.map payload)

theorem payload_lt (b : UInt8) : payload b < 128 := Nat.mod_lt _ (by decide)

/-- The payload bits, as a mask reads them. -/
theorem payload_eq_and (b : UInt8) : payload b = (b &&& 0x7F).toNat := by
  rw [UInt8.toNat_and, payload]
  exact (Nat.and_two_pow_sub_one_eq_mod b.toNat 7).symm

@[simp] theorem value_nil : value [] = 0 := rfl

@[simp] theorem value_cons (b : UInt8) (bs : List UInt8) :
    value (b :: bs) = payload b + 128 * value bs := by
  simp [value, Nat.ofDigits_cons]

/-- Later groups weigh `128` to the number of groups before them. -/
theorem value_append (xs ys : List UInt8) :
    value (xs ++ ys) = value xs + 128 ^ xs.length * value ys := by
  simp [value, Nat.ofDigits_append]

/-- `k` groups denote a number below `128 ^ k`. -/
theorem value_lt (bs : List UInt8) : value bs < 128 ^ bs.length := by
  have h := Nat.ofDigits_lt_base_pow_length (b := 128) (l := bs.map payload) (by decide)
    (by simp only [List.mem_map]; rintro x ⟨b, -, rfl⟩; exact payload_lt b)
  rwa [List.length_map] at h

/-- The number as the sum of its groups at their weights. -/
theorem value_eq_sum (groups : List UInt8) :
    value groups = ∑ i ∈ Finset.range groups.length, payload (groups.getD i 0) * 128 ^ i := by
  induction groups with
  | nil => simp
  | cons b bs ih =>
      rw [value_cons, List.length_cons, Finset.sum_range_succ', ih, Finset.mul_sum, add_comm]
      simp only [List.getD_cons_zero, List.getD_cons_succ, pow_zero, mul_one, add_left_inj]
      exact Finset.sum_congr rfl fun i _ => by ring

/-! ## Where a number ends -/

/-- Every group announces another one. -/
def Continuing (groups : List UInt8) : Prop := ∀ b ∈ groups, Continues b

/-- A complete number: the first group without the top bit is the last one. -/
def Terminated : List UInt8 → Prop
  | [] => False
  | b :: bs => if Continues b then Terminated bs else bs = []

@[simp] theorem not_terminated_nil : ¬ Terminated [] := id

theorem terminated_cons_of_continues {b : UInt8} (hb : Continues b) (bs : List UInt8) :
    Terminated (b :: bs) ↔ Terminated bs := by
  rw [Terminated, if_pos hb]

theorem terminated_cons_of_not_continues {b : UInt8} (hb : ¬ Continues b) (bs : List UInt8) :
    Terminated (b :: bs) ↔ bs = [] := by
  rw [Terminated, if_neg hb]

@[simp] theorem continuing_nil : Continuing [] := by
  simp [Continuing]

@[simp] theorem continuing_cons (b : UInt8) (bs : List UInt8) :
    Continuing (b :: bs) ↔ Continues b ∧ Continuing bs := by
  simp [Continuing]

theorem Terminated.ne_nil {groups : List UInt8} (h : Terminated groups) : groups ≠ [] := by
  rintro rfl
  exact h

/-- A complete number splits into its continuing groups and its last group. -/
theorem Terminated.exists_init_last {groups : List UInt8} (h : Terminated groups) :
    ∃ init last, groups = init ++ [last] ∧ Continuing init ∧ ¬ Continues last := by
  induction groups with
  | nil => exact absurd h not_terminated_nil
  | cons b bs ih =>
      by_cases hb : Continues b
      · rw [terminated_cons_of_continues hb] at h
        obtain ⟨init, last, rfl, hinit, hlast⟩ := ih h
        exact ⟨b :: init, last, rfl, by simp [hb, hinit], hlast⟩
      · rw [terminated_cons_of_not_continues hb] at h
        exact ⟨[], b, by simp [h], by simp, hb⟩

/-- **Complete numbers are self-delimiting**: in one byte stream a complete number ends in one
place only, so two complete numbers that start it are the same groups with the same rest. -/
theorem Terminated.append_inj {g h x y : List UInt8} (hg : Terminated g) (hh : Terminated h)
    (heq : g ++ x = h ++ y) : g = h ∧ x = y := by
  induction g generalizing h with
  | nil => exact absurd hg not_terminated_nil
  | cons b bs ih =>
      cases h with
      | nil => exact absurd hh not_terminated_nil
      | cons c cs =>
          rw [List.cons_append, List.cons_append, List.cons.injEq] at heq
          obtain ⟨rfl, heq⟩ := heq
          -- the shared first group decides for both numbers whether they go on
          by_cases hb : Continues b
          · rw [terminated_cons_of_continues hb] at hg hh
            obtain ⟨rfl, hxy⟩ := ih hg hh heq
            exact ⟨rfl, hxy⟩
          · rw [terminated_cons_of_not_continues hb] at hg hh
            subst hg hh
            exact ⟨rfl, heq⟩

/-! ## The shortest encoding -/

/-- The shortest complete list of groups that denotes `n`. -/
def encode (n : ℕ) : List UInt8 :=
  if n < 128 then [UInt8.ofNat n] else UInt8.ofNat (n % 128 + 128) :: encode (n / 128)
termination_by n
decreasing_by omega

theorem encode_of_lt {n : ℕ} (h : n < 128) : encode n = [UInt8.ofNat n] := by
  rw [encode, if_pos h]

theorem encode_of_le {n : ℕ} (h : 128 ≤ n) :
    encode n = UInt8.ofNat (n % 128 + 128) :: encode (n / 128) := by
  rw [encode, if_neg (Nat.not_lt.mpr h)]

theorem toNat_ofNat_of_lt {n : ℕ} (h : n < 256) : (UInt8.ofNat n).toNat = n := by
  rw [UInt8.toNat_ofNat']
  exact Nat.mod_eq_of_lt h

theorem payload_ofNat_of_lt {n : ℕ} (h : n < 128) : payload (UInt8.ofNat n) = n := by
  rw [payload, toNat_ofNat_of_lt (by omega), Nat.mod_eq_of_lt h]

theorem payload_ofNat_add {n : ℕ} (h : n < 128) : payload (UInt8.ofNat (n + 128)) = n := by
  rw [payload, toNat_ofNat_of_lt (by omega), Nat.add_mod_right, Nat.mod_eq_of_lt h]

theorem not_continues_ofNat_of_lt {n : ℕ} (h : n < 128) : ¬ Continues (UInt8.ofNat n) := by
  rw [Continues, toNat_ofNat_of_lt (by omega)]
  omega

theorem continues_ofNat_add {n : ℕ} (h : n < 128) : Continues (UInt8.ofNat (n + 128)) := by
  rw [Continues, toNat_ofNat_of_lt (by omega)]
  omega

/-- Reading an encoding gives the number back. -/
@[simp] theorem value_encode (n : ℕ) : value (encode n) = n := by
  induction n using encode.induct with
  | case1 n h =>
      rw [encode_of_lt h, value_cons, value_nil, payload_ofNat_of_lt h, mul_zero, add_zero]
  | case2 n h ih =>
      -- the first group is the remainder, the groups after it denote the quotient
      rw [encode_of_le (Nat.not_lt.mp h), value_cons, ih,
        payload_ofNat_add (Nat.mod_lt _ (by decide))]
      omega

/-- An encoding is a complete number. -/
theorem terminated_encode (n : ℕ) : Terminated (encode n) := by
  induction n using encode.induct with
  | case1 n h =>
      rw [encode_of_lt h]
      exact (terminated_cons_of_not_continues (not_continues_ofNat_of_lt h) _).mpr rfl
  | case2 n h ih =>
      rw [encode_of_le (Nat.not_lt.mp h),
        terminated_cons_of_continues (continues_ofNat_add (Nat.mod_lt _ (by decide)))]
      exact ih

theorem encode_ne_nil (n : ℕ) : encode n ≠ [] := (terminated_encode n).ne_nil

/-- Encodings are self-delimiting. -/
theorem encode_append_inj (m n : ℕ) (x y : List UInt8) (h : encode m ++ x = encode n ++ y) :
    m = n ∧ x = y := by
  obtain ⟨hgroups, hrest⟩ := (terminated_encode m).append_inj (terminated_encode n) h
  have hvalue := congrArg value hgroups
  rw [value_encode, value_encode] at hvalue
  exact ⟨hvalue, hrest⟩

/-- A number below `128 ^ (k + 1)` takes at most `k + 1` groups. -/
theorem length_encode_le {n : ℕ} (k : ℕ) (h : n < 128 ^ (k + 1)) :
    (encode n).length ≤ k + 1 := by
  induction k generalizing n with
  | zero => rw [encode_of_lt (by simpa using h)]; rfl
  | succ k ih =>
      by_cases hn : n < 128
      · rw [encode_of_lt hn, List.length_singleton]
        omega
      · rw [encode_of_le (Nat.not_lt.mp hn), List.length_cons]
        -- one group off the number is one off the exponent
        have hdiv : n / 128 < 128 ^ (k + 1) := by
          rw [Nat.div_lt_iff_lt_mul (by decide), ← Nat.pow_succ]
          exact h
        have := ih hdiv
        omega

/-- **The encoding is the shortest**: its length is the least number of groups, and at least one,
whose numbers reach `n`. -/
theorem isLeast_length_encode (n : ℕ) : IsLeast {k | 1 ≤ k ∧ n < 128 ^ k} (encode n).length := by
  have hvalue := value_lt (encode n)
  rw [value_encode] at hvalue
  refine ⟨⟨List.length_pos_iff_ne_nil.mpr (encode_ne_nil n), hvalue⟩, ?_⟩
  rintro k ⟨hk, hn⟩
  obtain ⟨k, rfl⟩ := Nat.exists_eq_add_of_le' hk
  exact length_encode_le k hn

/-- The shortest encoding wastes no group: its last group is zero for the number `0` only. -/
theorem payload_last_encode_pos {n : ℕ} (hn : 0 < n) {init : List UInt8} {last : UInt8}
    (h : encode n = init ++ [last]) : 0 < payload last := by
  induction n using encode.induct generalizing init with
  | case1 n hlt =>
      rw [encode_of_lt hlt] at h
      obtain ⟨-, hlast⟩ := List.append_inj' (show [] ++ [UInt8.ofNat n] = _ from h) rfl
      rw [List.singleton_inj] at hlast
      rw [← hlast, payload_ofNat_of_lt hlt]
      exact hn
  | case2 n hlt ih =>
      rw [encode_of_le (Nat.not_lt.mp hlt)] at h
      cases init with
      | nil =>
          rw [List.nil_append, List.cons.injEq] at h
          exact absurd h.2 (encode_ne_nil _)
      | cons b bs =>
          rw [List.cons_append, List.cons.injEq] at h
          -- the last group is that of the quotient, which is positive as `n` has two groups
          exact ih (by omega) h.2

/-- Without its last group the encoding of a positive number denotes a smaller number. -/
theorem value_init_encode_lt {n : ℕ} (hn : 0 < n) {init : List UInt8} {last : UInt8}
    (h : encode n = init ++ [last]) : value init < n := by
  have hval : value (init ++ [last]) = n := by rw [← h, value_encode]
  rw [value_append, value_cons, value_nil] at hval
  have hpos : 0 < 128 ^ init.length * (payload last + 128 * 0) := by
    have := payload_last_encode_pos hn h
    positivity
  omega

/-! ## Leading continuing groups -/

/-- The number of continuing groups a stream starts with. -/
def lead (stream : List UInt8) : ℕ := (stream.takeWhile fun b => decide (Continues b)).length

theorem lead_append {groups : List UInt8} (h : Continuing groups) (rest : List UInt8) :
    lead (groups ++ rest) = groups.length + lead rest := by
  rw [lead, List.takeWhile_append_of_pos (fun b hb => decide_eq_true (h b hb)),
    List.length_append, lead]

theorem lead_cons_of_not_continues {b : UInt8} (h : ¬ Continues b) (rest : List UInt8) :
    lead (b :: rest) = 0 := by
  rw [lead, List.takeWhile_cons_of_neg (by simpa using h), List.length_nil]

/-- A complete number has one group more than it has continuing ones. -/
theorem Terminated.lead_append {groups : List UInt8} (h : Terminated groups)
    (rest : List UInt8) : lead (groups ++ rest) + 1 = groups.length := by
  obtain ⟨init, last, rfl, hinit, hlast⟩ := h.exists_init_last
  rw [List.append_assoc, Base128.lead_append hinit, List.singleton_append,
    lead_cons_of_not_continues hlast, List.length_append, List.length_singleton]

/-- A stream that does not only continue starts with a complete number. -/
theorem terminated_take_lead {stream : List UInt8} (h : lead stream < stream.length) :
    Terminated (stream.take (lead stream + 1)) := by
  induction stream with
  | nil => exact absurd h (Nat.lt_irrefl 0)
  | cons b bs ih =>
      by_cases hb : Continues b
      · have hlead : lead (b :: bs) = lead bs + 1 := by simp [lead, hb]
        rw [hlead, List.length_cons] at h
        rw [hlead, List.take_succ_cons, terminated_cons_of_continues hb]
        exact ih (by omega)
      · rw [lead_cons_of_not_continues hb, List.take_succ_cons,
          terminated_cons_of_not_continues hb, List.take_zero]

/-! ## What a bounded reader meets -/

/-- The ways a non-empty stream can start for a reader of at most `limit` groups: a complete
number with bytes after it, continuing groups up to the stream's last byte, or `limit`
continuing groups with bytes after them. -/
inductive Scan (limit : ℕ) : List UInt8 → Prop
  /-- A complete number of at most `limit` groups, not at the end of the stream. -/
  | terminated (groups rest : List UInt8) (complete : Terminated groups)
      (short : groups.length ≤ limit) (more : rest ≠ []) : Scan limit (groups ++ rest)
  /-- Only continuing groups before the last byte of the stream. -/
  | cutOff (groups : List UInt8) (last : UInt8) (continuing : Continuing groups)
      (short : groups.length < limit) : Scan limit (groups ++ [last])
  /-- `limit` continuing groups, with bytes after them. -/
  | overlong (groups rest : List UInt8) (continuing : Continuing groups)
      (full : groups.length = limit) (more : rest ≠ []) : Scan limit (groups ++ rest)

/-- Every non-empty stream starts in one of the three ways. -/
theorem scan (limit : ℕ) {stream : List UInt8} (h : stream ≠ []) : Scan limit stream := by
  induction limit generalizing stream with
  | zero => exact .overlong [] stream continuing_nil rfl h
  | succ limit ih =>
      cases stream with
      | nil => exact absurd rfl h
      | cons b bs =>
          by_cases hbs : bs = []
          · -- the stream ends with this byte, whichever it is
            subst hbs
            exact .cutOff [] b continuing_nil (Nat.succ_pos limit)
          by_cases hb : Continues b
          · -- the first group is read and the shorter stream scanned with one group less
            cases ih hbs with
            | terminated groups rest complete short more =>
                exact .terminated (b :: groups) rest
                  ((terminated_cons_of_continues hb groups).mpr complete)
                  (Nat.succ_le_succ short) more
            | cutOff groups last continuing short =>
                exact .cutOff (b :: groups) last
                  ((continuing_cons b groups).mpr ⟨hb, continuing⟩) (Nat.succ_lt_succ short)
            | overlong groups rest continuing full more =>
                exact .overlong (b :: groups) rest
                  ((continuing_cons b groups).mpr ⟨hb, continuing⟩)
                  (congrArg Nat.succ full) more
          · exact .terminated [b] bs ((terminated_cons_of_not_continues hb []).mpr rfl)
              (Nat.succ_le_succ (Nat.zero_le limit)) hbs

end AsabruEngine.Base128
