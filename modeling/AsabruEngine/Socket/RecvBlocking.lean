import AsabruEngine.Library.ByteMemory
import AsabruEngine.Library.Runs

/-! # Filling a buffer from a socket

`Socket::RecvBlocking` and `SSLSocket::RecvBlocking`, one call of `recv` or `SSL_read` at a time.
The two differ in the size they ask for only. The signed result of the call is kept in a `size_t`,
which drives the remaining count and the pointer; the memory around the buffer is part of the model.

* `Contract` is what is to hold between the calls, `StopsOn` when the function is to return, and
  `Fills` puts the two together for a run. `Unfailing` is the condition on a call.
* `Filling` is the invariant while no call fails, and `filling_step` keeps it.
* `fills_iff` is for any size asked for that fits, and `recvBlocking_fills_iff` instantiates it for
  both classes. -/

namespace AsabruEngine

/-- How one `recv` or `SSL_read` ends. -/
inductive ReadOutcome
  /-- A positive count, with the bytes stored. -/
  | bytes (first : UInt8) (more : Bytes)
  /-- `0`. -/
  | zero
  /-- `-1`. -/
  | minusOne
  deriving DecidableEq, Repr

namespace ReadOutcome

/-- What the call returns. -/
def result : ReadOutcome → ℤ
  | bytes _ more => more.length + 1
  | zero => 0
  | minusOne => -1

/-- The bytes the call stores. -/
def data : ReadOutcome → Bytes
  | bytes first more => first :: more
  | zero => []
  | minusOne => []

/-- A positive count is at most what was asked for, and a value of the signed result type. -/
def Possible (requested : ℤ) : ReadOutcome → Prop
  | bytes _ more => (more.length : ℤ) + 1 ≤ requested ∧ more.length + 1 < 2 ^ 63
  | zero => True
  | minusOne => True

instance (requested : ℤ) (o : ReadOutcome) : Decidable (o.Possible requested) :=
  match o with
  | bytes _ _ => inferInstanceAs (Decidable (_ ∧ _))
  | zero => .isTrue trivial
  | minusOne => .isTrue trivial

end ReadOutcome

/-- `RecvBlocking` before a call: the remaining count, the offset of the pointer from where it
started, the memory, the offsets stored to and the bytes received so far, and what the function has
returned, if it has. -/
structure RecvBlocking where
  recvRemaining : UInt64
  buffer : ℤ
  memory : Memory
  stored : List ℤ
  received : Bytes
  returned : Option ℤ

namespace RecvBlocking

/-- `RecvBlocking(buffer, length)` before its first call. What `ioctl` reports is not used. -/
def start (memory : Memory) (length : UInt64) : RecvBlocking where
  recvRemaining := length
  buffer := 0
  memory := memory
  stored := []
  received := []
  returned := none

/-- The body of the loop, with how its call ended. -/
def iterate (length : UInt64) (s : RecvBlocking) (o : ReadOutcome) : RecvBlocking :=
  -- the signed result becomes a `size_t`
  let recvThis := UInt64.ofNat (o.result % 2 ^ 64).toNat
  let s := { s with
    memory := s.memory.store s.buffer o.data
    stored := s.stored ++ Memory.offsets s.buffer o.data.length
    received := s.received ++ o.data }
  -- an unsigned value is `<= 0` where it is `0` only
  if recvThis ≤ 0 then { s with returned := some (toInt32 recvThis.toNat) }
  else
    let recvRemaining := s.recvRemaining - recvThis
    { s with
      recvRemaining := recvRemaining
      -- adding `2 ^ 64 - 1` to a pointer takes one off it
      buffer := s.buffer + Int.bmod recvThis.toNat (2 ^ 64)
      returned := if recvRemaining > 0 then none else some (toInt32 length.toNat) }

/-- One call, asked for `request` of the remaining count, if the function has not returned. -/
def step (request : UInt64 → ℤ) (length : UInt64) (s : RecvBlocking) (o : ReadOutcome) :
    Option RecvBlocking :=
  if s.returned = none ∧ o.Possible (request s.recvRemaining) then some (s.iterate length o)
  else none

end RecvBlocking

/-- The size that `Socket::RecvBlocking` asks `recv` for. -/
def Socket.recvRequest (recvRemaining : UInt64) : ℤ := recvRemaining.toNat

/-- The size that `SSLSocket::RecvBlocking` asks `SSL_read` for, narrowed to its `int` parameter. -/
def SSLSocket.recvRequest (recvRemaining : UInt64) : ℤ := toInt32 recvRemaining.toNat

namespace RecvBlocking

variable {request : UInt64 → ℤ} {length : UInt64} {s s' : RecvBlocking} {o : ReadOutcome}

theorem step_eq_some :
    step request length s o = some s' ↔
      s.returned = none ∧ o.Possible (request s.recvRemaining) ∧ s' = s.iterate length o := by
  unfold step
  split
  · next h =>
      rw [Option.some.injEq]
      exact ⟨fun heq => ⟨h.1, h.2, heq.symm⟩, fun heq => heq.2.2.symm⟩
  · next h => exact ⟨fun heq => (by cases heq), fun heq => absurd ⟨heq.1, heq.2.1⟩ h⟩

/-! ## One call -/

theorem iterate_zero (length : UInt64) (s : RecvBlocking) :
    s.iterate length .zero = { s with returned := some 0 } := by
  have hnarrow : toInt32 0 = 0 := by decide
  simp [iterate, ReadOutcome.result, ReadOutcome.data, hnarrow, Memory.offsets]

/-- A failed call counts as `2 ^ 64 - 1` bytes. -/
theorem iterate_minusOne (length : UInt64) (s : RecvBlocking) :
    s.iterate length .minusOne = { s with
      recvRemaining := s.recvRemaining + 1
      buffer := s.buffer - 1
      returned := if s.recvRemaining + 1 > 0 then none else some (toInt32 length.toNat) } := by
  have hresult : UInt64.ofNat ((-1 : ℤ) % 2 ^ 64).toNat = -1 := by decide +kernel
  have hle : ¬ (-1 : UInt64) ≤ 0 := by decide
  have hsub : s.recvRemaining - -1 = s.recvRemaining + 1 := by
    rw [UInt64.sub_eq_add_neg, UInt64.neg_neg]
  have hback : Int.bmod ((-1 : UInt64).toNat : ℤ) (2 ^ 64) = -1 := by decide +kernel
  simp only [iterate, ReadOutcome.result, ReadOutcome.data, hresult, if_neg hle, hsub, hback,
    Memory.store_nil, List.length_nil, Memory.offsets, List.range_zero, List.map_nil,
    List.append_nil]
  rfl

/-- A failed call at the largest count wraps it to `0`, and the exit of the loop returns `-1`. -/
theorem iterate_minusOne_wraps (hmax : s.recvRemaining = 0xFFFFFFFFFFFFFFFF)
    (hlength : length = 0xFFFFFFFFFFFFFFFF) :
    s.iterate length .minusOne =
      { s with recvRemaining := 0, buffer := s.buffer - 1, returned := some (-1) } := by
  have hwrap : s.recvRemaining + 1 = 0 := by rw [hmax]; rfl
  have hnarrow : toInt32 ((0xFFFFFFFFFFFFFFFF : UInt64).toNat : ℤ) = -1 := by decide +kernel
  rw [iterate_minusOne, hwrap, hlength, hnarrow]
  rfl

/-- A positive count is taken off the remaining count and added to the pointer. -/
theorem iterate_bytes (length : UInt64) (s : RecvBlocking) {first : UInt8} {more : Bytes}
    (hcount : more.length + 1 < 2 ^ 63) :
    s.iterate length (.bytes first more) = { s with
      recvRemaining := s.recvRemaining - UInt64.ofNat (more.length + 1)
      buffer := s.buffer + (more.length + 1 : ℕ)
      memory := s.memory.store s.buffer (first :: more)
      stored := s.stored ++ Memory.offsets s.buffer (more.length + 1)
      received := s.received ++ first :: more
      returned := if s.recvRemaining - UInt64.ofNat (more.length + 1) > 0 then none
        else some (toInt32 length.toNat) } := by
  have hresult : ((more.length : ℤ) + 1) % 2 ^ 64 = (more.length + 1 : ℕ) := by omega
  have htoNat : (UInt64.ofNat (more.length + 1)).toNat = more.length + 1 := by
    rw [UInt64.toNat_ofNat']
    omega
  have hle : ¬ UInt64.ofNat (more.length + 1) ≤ 0 := by
    rw [UInt64.le_iff_toNat_le, htoNat]
    exact Nat.not_succ_le_zero _
  have hforth : Int.bmod ((more.length + 1 : ℕ) : ℤ) (2 ^ 64) = (more.length + 1 : ℕ) := by
    rw [Int.bmod_def]
    omega
  simp only [iterate, ReadOutcome.result, ReadOutcome.data, hresult, Int.toNat_natCast, if_neg hle,
    htoNat, hforth, List.length_cons]

/-! ## The contract -/

/-- What has to hold between the calls of `RecvBlocking(buffer, length)`: nothing was stored outside
the requested range, the next call asks for no more than what remains of it, and where `length` was
returned, the range holds the bytes received in their order, all of them stored one after the
other. -/
structure Contract (request : UInt64 → ℤ) (length : UInt64) (s : RecvBlocking) : Prop where
  inside : ∀ i ∈ s.stored, 0 ≤ i ∧ i < length.toNat
  asks : s.returned = none → request s.recvRemaining ≤ length.toNat - s.received.length
  full : s.returned = some (length.toNat : ℤ) → s.received.length = length.toNat ∧
    s.stored = Memory.offsets 0 length.toNat ∧ s.memory.slice 0 length.toNat = s.received

/-- After a call that ended with `0` or `-1` the function has returned, and not a positive value. -/
def StopsOn (request : UInt64 → ℤ) (length : UInt64) (s : RecvBlocking) (o : ReadOutcome) : Prop :=
  o.result ≤ 0 → ∀ s', step request length s o = some s' → ∃ v, s'.returned = some v ∧ v ≤ 0

/-- The calls of `RecvBlocking(buffer, length)` that end with the outcomes keep the contract, stop
at the first `0` or `-1`, and are no more than the bytes asked for as long as the function has not
returned. -/
structure Fills (request : UInt64 → ℤ) (memory : Memory) (length : UInt64)
    (outcomes : List ReadOutcome) : Prop where
  contract : Runs.Always (step request length) (Contract request length) (start memory length)
    outcomes
  stops : Runs.Along (step request length) (StopsOn request length) (start memory length) outcomes
  ends : ∀ s, Runs.run (step request length) (start memory length) outcomes = some s →
    s.returned = none → outcomes.length ≤ length.toNat

/-- The call does not fail, or the counter is at its largest value, where it wraps to `0`. -/
def Unfailing (s : RecvBlocking) (o : ReadOutcome) : Prop :=
  o = .minusOne → s.recvRemaining = 0xFFFFFFFFFFFFFFFF

/-! ## While no call fails -/

/-- The bytes received lie at the start of the range, in order, and while the function runs the
counter and the pointer say how many there are. -/
structure Filling (length : UInt64) (s : RecvBlocking) : Prop where
  received_le : s.received.length ≤ length.toNat
  stored : s.stored = Memory.offsets 0 s.received.length
  memory : s.memory.slice 0 s.received.length = s.received
  buffer : s.returned = none → s.buffer = s.received.length
  remaining : s.returned = none → s.recvRemaining.toNat + s.received.length = length.toNat
  full : s.returned = some (length.toNat : ℤ) → s.received.length = length.toNat

theorem filling_start (memory : Memory) (length : UInt64) : Filling length (start memory length) :=
  ⟨Nat.zero_le _, rfl, rfl, fun _ => rfl, fun _ => rfl, fun h => (by cases h)⟩

theorem Filling.contract (h : Filling length s) (hrequest : ∀ n, request n ≤ n.toNat) :
    Contract request length s := by
  refine ⟨fun i hi => ?_, fun hgoing => ?_, fun hfull => ?_⟩
  · have hle := h.received_le
    rw [h.stored, Memory.mem_offsets] at hi
    omega
  · have hasked := hrequest s.recvRemaining
    have hremaining := h.remaining hgoing
    omega
  · have hlength := h.full hfull
    have hstored := h.stored
    have hmemory := h.memory
    rw [hlength] at hstored hmemory
    exact ⟨hlength, hstored, hmemory⟩

/-- Returning a value that is not the length keeps what was filled. -/
theorem Filling.returns (h : Filling length s) {n : UInt64} {b v : ℤ}
    (hv : v = length.toNat → s.received.length = length.toNat) :
    Filling length { s with recvRemaining := n, buffer := b, returned := some v } :=
  ⟨h.received_le, h.stored, h.memory, fun hnone => (by cases hnone), fun hnone => (by cases hnone),
    fun hfull => hv (Option.some.inj hfull)⟩

/-- Bytes that are stored extend what was filled. -/
theorem Filling.bytes (h : Filling length s) (hgoing : s.returned = none)
    {first : UInt8} {more : Bytes} (hfits : more.length + 1 ≤ s.recvRemaining.toNat)
    (hcount : more.length + 1 < 2 ^ 63) :
    Filling length (s.iterate length (.bytes first more)) := by
  have hremaining := h.remaining hgoing
  have hbuffer := h.buffer hgoing
  have hsub : (s.recvRemaining - UInt64.ofNat (more.length + 1)).toNat =
      s.recvRemaining.toNat - (more.length + 1) := by
    have htoNat : (UInt64.ofNat (more.length + 1)).toNat = more.length + 1 := by
      rw [UInt64.toNat_ofNat']
      omega
    rw [UInt64.toNat_sub_of_le _ _ (by rw [UInt64.le_iff_toNat_le, htoNat]; exact hfits), htoNat]
  rw [iterate_bytes length s hcount]
  refine ⟨?_, ?_, ?_, fun _ => ?_, fun _ => ?_, ?_⟩
  · simp only [List.length_append, List.length_cons]
    omega
  · rw [h.stored, hbuffer, List.length_append, List.length_cons,
      Memory.offsets_add 0 s.received.length (more.length + 1), zero_add]
  · rw [List.length_append, Memory.slice_add, zero_add]
    congr 1
    · rw [Memory.slice_store_of_le _ (by omega), h.memory]
    · rw [← hbuffer]
      exact Memory.slice_store s.memory s.buffer (first :: more)
  · simp only [List.length_append, List.length_cons]
    omega
  · simp only [List.length_append, List.length_cons]
    omega
  · -- a length returned is returned by the exit of the loop, with nothing remaining
    intro hreturned
    simp only [List.length_append, List.length_cons]
    by_cases hmore : s.recvRemaining - UInt64.ofNat (more.length + 1) > 0
    · simp only [if_pos hmore] at hreturned
      cases hreturned
    · have hzero : (s.recvRemaining - UInt64.ofNat (more.length + 1)).toNat = 0 := by
        rw [gt_iff_lt, UInt64.lt_iff_toNat_lt] at hmore
        exact Nat.eq_zero_of_not_pos hmore
      omega

/-- A failed call leaves the function running, unless the counter wraps to `0`. -/
theorem returned_iterate_minusOne (length : UInt64) (s : RecvBlocking) :
    (s.iterate length .minusOne).returned =
      if s.recvRemaining = 0xFFFFFFFFFFFFFFFF then some (toInt32 length.toNat) else none := by
  have hwrap : s.recvRemaining + 1 > 0 ↔ ¬ s.recvRemaining = 0xFFFFFFFFFFFFFFFF := by
    have hlt := s.recvRemaining.toNat_lt
    rw [gt_iff_lt, UInt64.lt_iff_toNat_lt, UInt64.toNat_add, ← UInt64.toNat_inj]
    simp only [UInt64.toNat_zero, UInt64.reduceToNat]
    omega
  rw [iterate_minusOne]
  simp only [hwrap, ite_not]

/-- **One call that does not fail** keeps what was filled, stops the function if it is a `0`, and
brings a byte if the function goes on. -/
theorem filling_step (hrequest : ∀ n, request n ≤ n.toNat) (h : Filling length s)
    (hC : Unfailing s o) (hstep : step request length s o = some s') :
    Filling length s' ∧ StopsOn request length s o ∧
      (s'.returned = none → s.received.length < s'.received.length) := by
  obtain ⟨hgoing, hpossible, rfl⟩ := step_eq_some.mp hstep
  have hremaining := h.remaining hgoing
  have hle := h.received_le
  cases o with
  | bytes first more =>
      have hasked := hrequest s.recvRemaining
      obtain ⟨hfits, hcount⟩ := hpossible
      refine ⟨h.bytes hgoing (by omega) hcount, fun hstop => ?_, fun _ => ?_⟩
      · simp only [ReadOutcome.result] at hstop
        omega
      · rw [iterate_bytes length s hcount, List.length_append, List.length_cons]
        omega
  | zero =>
      rw [iterate_zero]
      refine ⟨h.returns fun hv => by omega, fun _ s'' hs'' => ?_, fun hnone => (by cases hnone)⟩
      obtain ⟨-, -, rfl⟩ := step_eq_some.mp hs''
      rw [iterate_zero]
      exact ⟨0, rfl, le_rfl⟩
  | minusOne =>
      -- nothing was received yet, as the counter is at its largest value
      have hmax := hC rfl
      have hlength : length = 0xFFFFFFFFFFFFFFFF := by
        have hlt := length.toNat_lt
        rw [hmax] at hremaining
        apply UInt64.toNat_inj.mp
        simp only [UInt64.reduceToNat] at hremaining ⊢
        omega
      have hiterate := iterate_minusOne_wraps hmax hlength
      rw [hiterate]
      refine ⟨h.returns fun hv => ?_, fun _ s'' hs'' => ?_, fun hnone => (by cases hnone)⟩
      · omega
      · obtain ⟨-, -, rfl⟩ := step_eq_some.mp hs''
        rw [hiterate]
        exact ⟨-1, rfl, by decide⟩

/-- While no call fails, the function runs for no more calls than bytes are received. -/
theorem length_le_of_run (hrequest : ∀ n, request n ≤ n.toNat) {outcomes : List ReadOutcome}
    (h : Filling length s) (hC : Runs.Along (step request length) Unfailing s outcomes)
    (hrun : Runs.run (step request length) s outcomes = some s') (hgoing : s'.returned = none) :
    outcomes.length + s.received.length ≤ s'.received.length ∧ Filling length s' := by
  induction outcomes generalizing s with
  | nil =>
      rw [Runs.run_nil, Option.some.injEq] at hrun
      subst hrun
      exact ⟨by simp, h⟩
  | cons o outcomes ih =>
      rw [Runs.run_cons, Option.bind_eq_some_iff] at hrun
      obtain ⟨t, ht, hrun⟩ := hrun
      obtain ⟨hCo, hC⟩ := hC t ht
      obtain ⟨hfilling, -, hmore⟩ := filling_step hrequest h hCo ht
      obtain ⟨hlength, hlast⟩ := ih hfilling hC hrun
      refine ⟨?_, hlast⟩
      -- the function went on after the call, as it goes on at the end
      have hgoes : t.returned = none := by
        cases outcomes with
        | nil =>
            rw [Runs.run_nil, Option.some.injEq] at hrun
            exact hrun ▸ hgoing
        | cons o' outcomes =>
            rw [Runs.run_cons, Option.bind_eq_some_iff] at hrun
            obtain ⟨u, hu, -⟩ := hrun
            exact (step_eq_some.mp hu).1
      have := hmore hgoes
      rw [List.length_cons]
      omega

/-- A failed call does not stop the function, unless the counter wraps to `0`. -/
theorem not_stopsOn_of_failed (hC : ¬ Unfailing s o) (hstep : step request length s o = some s') :
    ¬ StopsOn request length s o := by
  intro hstops
  simp only [Unfailing, Classical.not_imp] at hC
  obtain ⟨rfl, hmax⟩ := hC
  obtain ⟨v, hv, -⟩ := hstops (by decide) s' hstep
  obtain ⟨-, -, rfl⟩ := step_eq_some.mp hstep
  rw [returned_iterate_minusOne, if_neg hmax] at hv
  cases hv

/-- The contract is kept and failures are noticed exactly while no call fails. -/
theorem contract_and_stops_iff (hrequest : ∀ n, request n ≤ n.toNat) (memory : Memory)
    (length : UInt64) (outcomes : List ReadOutcome) :
    Runs.Always (step request length) (Contract request length) (start memory length) outcomes ∧
        Runs.Along (step request length) (StopsOn request length) (start memory length) outcomes ↔
      Runs.Along (step request length) Unfailing (start memory length) outcomes := by
  refine Runs.always_and_along_iff (step request length) (I := Filling length)
    (fun _ h => h.contract hrequest) ?_ ?_ (filling_start memory length)
  · intro o _ s s' h hC hstep
    obtain ⟨hfilling, hstops, -⟩ := filling_step hrequest h hC hstep
    exact ⟨hfilling, hstops⟩
  · exact fun o _ s s' _ hC hstep hstops => absurd hstops (not_stopsOn_of_failed hC hstep)

/-- **When `RecvBlocking` fills the range.** For a size asked for of at most the remaining count. -/
theorem fills_iff (hrequest : ∀ n, request n ≤ n.toNat) (memory : Memory) (length : UInt64)
    (outcomes : List ReadOutcome) :
    Fills request memory length outcomes ↔
      Runs.Along (step request length) Unfailing (start memory length) outcomes := by
  have hrule := contract_and_stops_iff hrequest memory length outcomes
  constructor
  · exact fun h => hrule.mp ⟨h.contract, h.stops⟩
  · intro hC
    obtain ⟨hcontract, hstops⟩ := hrule.mpr hC
    refine ⟨hcontract, hstops, fun s hrun hgoing => ?_⟩
    obtain ⟨hlength, hlast⟩ :=
      length_le_of_run hrequest (filling_start memory length) hC hrun hgoing
    have hle := hlast.received_le
    show outcomes.length ≤ length.toNat
    have hnil : (start memory length).received.length = 0 := rfl
    omega

/-- A store outside the range breaks the contract. -/
theorem not_fills_of_stored {memory : Memory} {outcomes : List ReadOutcome} {i : ℤ}
    (hrun : Runs.run (step request length) (start memory length) outcomes = some s)
    (hi : i ∈ s.stored) (houtside : ¬ (0 ≤ i ∧ i < length.toNat)) :
    ¬ Fills request memory length outcomes := fun h =>
  houtside ((h.contract.of_run _ hrun).inside i hi)

end RecvBlocking

theorem Socket.recvRequest_le (n : UInt64) : Socket.recvRequest n ≤ n.toNat := le_rfl

/-- The narrowing never asks for more than remains. -/
theorem SSLSocket.recvRequest_le (n : UInt64) : SSLSocket.recvRequest n ≤ n.toNat := by
  unfold SSLSocket.recvRequest toInt32
  rw [Int.bmod_def]
  split <;> omega

open RecvBlocking in
/-- **When a range is filled or a failure reported.** For every length and every sequence of
outcomes of the calls: `Socket::RecvBlocking` and `SSLSocket::RecvBlocking` keep their contract
between all calls, stop at the first `0` or `-1` with a value of at most `0` and go on for no more
calls than bytes, exactly if no call made returns `-1`, or one does with the counter at its largest
value. -/
theorem recvBlocking_fills_iff (memory : Memory) (length : UInt64)
    (outcomes : List ReadOutcome) :
    (Fills Socket.recvRequest memory length outcomes ↔
      Runs.Along (step Socket.recvRequest length) Unfailing (start memory length) outcomes) ∧
    (Fills SSLSocket.recvRequest memory length outcomes ↔
      Runs.Along (step SSLSocket.recvRequest length) Unfailing (start memory length) outcomes) :=
  ⟨fills_iff Socket.recvRequest_le memory length outcomes,
    fills_iff SSLSocket.recvRequest_le memory length outcomes⟩

open RecvBlocking in
/-- Asked for four bytes, neither function stops at a first call that fails: of the five bytes asked
for next, the first is stored before the buffer, and `4` is returned. -/
theorem not_recvBlocking_fills_failed_first :
    ¬ Fills Socket.recvRequest (fun _ => 0) 4 [.minusOne, .bytes 1 [2, 3, 4, 5]] ∧
      ¬ Fills SSLSocket.recvRequest (fun _ => 0) 4 [.minusOne, .bytes 1 [2, 3, 4, 5]] :=
  ⟨not_fills_of_stored (i := -1) rfl (by decide +kernel) (by decide),
    not_fills_of_stored (i := -1) rfl (by decide +kernel) (by decide)⟩

end AsabruEngine
