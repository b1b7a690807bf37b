import AsabruEngine.Library.ByteMemory
import AsabruEngine.Library.Runs

/-! # Reading lines from a socket

`Socket::ReceiveLine` and `SSLSocket::ReceiveLine`, one byte read at a time over any number of
calls. The line read so far is a local string of the call; its bytes are gone from the socket.

* `lineTurn` is the body of the loop, and `ReceiveLine.step` takes one `ByteOutcome` in a stream of
  calls, a new call beginning where one has returned.
* `LosesNothing` is what is to hold, and `Unbroken` the condition: no read fails behind a byte of an
  unfinished line.
* `Reading` is the invariant, `reading_step` keeps it while no read fails within a line, and
  `receiveLine_losesNothing_iff` has both directions for both classes. -/

namespace AsabruEngine

/-- How a `recv` or an `SSL_read` of one byte ends. -/
inductive ByteOutcome
  | byte (r : UInt8)
  /-- `0`: the stream has ended. -/
  | zero
  /-- `-1`: the read was interrupted, timed out or failed. -/
  | minusOne
  deriving DecidableEq, Repr

/-- The bytes an outcome takes from the socket. -/
def ByteOutcome.bytes : ByteOutcome → Bytes
  | byte r => [r]
  | zero => []
  | minusOne => []

/-- What a turn of the loop does: it returns a string, or goes on with `ret`. -/
inductive LineTurn
  | returns (line : Bytes)
  | goesOn (ret : Bytes)
  deriving DecidableEq, Repr

/-- `'\n'`. -/
def newline : UInt8 := 10

/-- The body of the loop of `ReceiveLine`, with how its read ended. -/
def lineTurn (ret : Bytes) : ByteOutcome → LineTurn
  -- the last line might not end in a newline
  | .zero => .returns ret
  | .minusOne => .returns []
  | .byte r =>
      let ret := ret ++ [r]
      if r = newline then .returns ret else .goesOn ret

/-- `Socket::ReceiveLine`, which reads by `recv`. -/
def Socket.receiveLine : Bytes → ByteOutcome → LineTurn := lineTurn

/-- `SSLSocket::ReceiveLine`, which reads by `SSL_read`. -/
def SSLSocket.receiveLine : Bytes → ByteOutcome → LineTurn := lineTurn

/-- A call of `ReceiveLine` that has returned: the bytes it took from the socket, how its last read
ended, and the string it returned. -/
structure LineCall where
  consumed : Bytes
  last : ByteOutcome
  ret : Bytes
  deriving DecidableEq, Repr

/-- Calls of `ReceiveLine` before a read: the string and the bytes taken so far in the call under
way, and the calls before it. -/
structure ReceiveLine where
  ret : Bytes
  consumed : Bytes
  calls : List LineCall
  deriving DecidableEq, Repr

namespace ReceiveLine

/-- Before the first read of the first call. -/
def start : ReceiveLine := ⟨[], [], []⟩

/-- One read. Where the call returns, the next one starts with an empty string. -/
def step (receiveLine : Bytes → ByteOutcome → LineTurn) (s : ReceiveLine) (o : ByteOutcome) :
    Option ReceiveLine :=
  let consumed := s.consumed ++ o.bytes
  match receiveLine s.ret o with
  | .returns line => some { start with calls := s.calls ++ [⟨consumed, o, line⟩] }
  | .goesOn ret => some { s with ret, consumed }

/-- What has to hold of the calls that have returned. -/
structure LosesNothing (s : ReceiveLine) : Prop where
  /-- The strings are the bytes taken from the socket. -/
  whole : s.calls.flatMap LineCall.ret = s.calls.flatMap LineCall.consumed
  /-- A newline is the last character of its string. -/
  lines : ∀ call ∈ s.calls, newline ∉ call.ret.dropLast
  /-- A string without one ends the stream, or its call took nothing. -/
  ends : ∀ call ∈ s.calls, call.ret.getLast? ≠ some newline →
    call.last = .zero ∨ call.consumed = []

/-- No read fails directly behind a byte other than a newline. -/
def Unbroken (outcomes : List ByteOutcome) : Prop :=
  outcomes.IsChain fun o o' => o' = .minusOne → ∀ r, o = .byte r → r = newline

/-- The read does not fail, or there is no line yet. -/
def Whole (s : ReceiveLine) (o : ByteOutcome) : Prop := o = .minusOne → s.ret = []

/-! ## One read -/

variable {s s' : ReceiveLine} {o : ByteOutcome}

theorem step_zero : step lineTurn s .zero =
    some { start with calls := s.calls ++ [⟨s.consumed, .zero, s.ret⟩] } := by
  rw [step, ByteOutcome.bytes, List.append_nil]
  rfl

theorem step_minusOne : step lineTurn s .minusOne =
    some { start with calls := s.calls ++ [⟨s.consumed, .minusOne, []⟩] } := by
  rw [step, ByteOutcome.bytes, List.append_nil]
  rfl

theorem step_newline : step lineTurn s (.byte newline) =
    some { start with calls := s.calls ++
      [⟨s.consumed ++ [newline], .byte newline, s.ret ++ [newline]⟩] } := rfl

theorem step_byte {r : UInt8} (hr : r ≠ newline) : step lineTurn s (.byte r) =
    some { s with ret := s.ret ++ [r], consumed := s.consumed ++ [r] } := by
  simp [step, lineTurn, hr, ByteOutcome.bytes]

/-! ## While no read fails within a line -/

/-- The string under way is what was taken in its call, and has no newline. -/
structure Reading (s : ReceiveLine) : Prop where
  losesNothing : LosesNothing s
  ret : s.ret = s.consumed
  line : newline ∉ s.ret

theorem reading_start : Reading start where
  losesNothing := ⟨rfl, by simp [start], by simp [start]⟩
  ret := rfl
  line := by simp [start]

/-- A call that returns what it took loses nothing. -/
theorem Reading.returns (h : Reading s) {call : LineCall} (hret : call.ret = call.consumed)
    (hline : newline ∉ call.ret.dropLast)
    (hends : call.ret.getLast? ≠ some newline → call.last = .zero ∨ call.consumed = []) :
    Reading { start with calls := s.calls ++ [call] } := by
  refine ⟨⟨?_, fun call' hcall' => ?_, fun call' hcall' => ?_⟩, rfl, by simp [start]⟩
  · rw [List.flatMap_append, List.flatMap_append, h.losesNothing.whole]
    simp [hret]
  · rcases List.mem_append.mp hcall' with hcall' | hcall'
    · exact h.losesNothing.lines call' hcall'
    · obtain rfl := List.mem_singleton.mp hcall'
      exact hline
  · rcases List.mem_append.mp hcall' with hcall' | hcall'
    · exact h.losesNothing.ends call' hcall'
    · obtain rfl := List.mem_singleton.mp hcall'
      exact hends

/-- A string without a newline has none before its last character. -/
theorem not_mem_dropLast {ret : Bytes} (h : newline ∉ ret) : newline ∉ ret.dropLast :=
  fun hmem => h (List.dropLast_subset _ hmem)

/-- **One read** that does not fail within a line keeps the string under way and loses nothing. -/
theorem reading_step (h : Reading s) (hC : Whole s o) (hstep : step lineTurn s o = some s') :
    Reading s' := by
  cases o with
  | zero =>
      rw [step_zero] at hstep
      cases hstep
      exact h.returns h.ret (not_mem_dropLast h.line) fun _ => Or.inl rfl
  | minusOne =>
      rw [step_minusOne] at hstep
      cases hstep
      have hnil : s.consumed = [] := h.ret.symm.trans (hC rfl)
      exact h.returns hnil.symm (by simp) fun _ => Or.inr hnil
  | byte r =>
      by_cases hr : r = newline
      · subst hr
        rw [step_newline] at hstep
        cases hstep
        refine h.returns (by rw [h.ret]) ?_ fun hlast => absurd (by simp) hlast
        rw [List.dropLast_concat]
        exact h.line
      · rw [step_byte hr] at hstep
        cases hstep
        refine ⟨⟨h.losesNothing.whole, h.losesNothing.lines, h.losesNothing.ends⟩, ?_, ?_⟩
        · rw [h.ret]
        · rw [List.mem_append, List.mem_singleton, not_or]
          exact ⟨h.line, fun heq => hr heq.symm⟩

/-- A read that fails within a line loses what was read of it. -/
theorem not_losesNothing_of_failed (h : Reading s) (hC : ¬ Whole s o)
    (hstep : step lineTurn s o = some s') : ¬ LosesNothing s' := by
  intro hnothing
  simp only [Whole, Classical.not_imp] at hC
  obtain ⟨rfl, hne⟩ := hC
  rw [step_minusOne] at hstep
  cases hstep
  have hwhole := hnothing.whole
  -- the calls before it lost nothing, and this one took bytes and returned none
  rw [List.flatMap_append, List.flatMap_append, h.losesNothing.whole] at hwhole
  have hnil := List.append_cancel_left hwhole
  rw [List.flatMap_singleton, List.flatMap_singleton, ← h.ret] at hnil
  exact hne hnil.symm

/-- Behind a read there is a line under way exactly if it took a byte other than a newline. -/
theorem whole_iff_of_step (hstep : step lineTurn s o = some s') (o' : ByteOutcome) :
    Whole s' o' ↔ (o' = .minusOne → ∀ r, o = .byte r → r = newline) := by
  refine imp_congr_right fun _ => ?_
  cases o with
  | zero =>
      rw [step_zero] at hstep
      cases hstep
      simp [start]
  | minusOne =>
      rw [step_minusOne] at hstep
      cases hstep
      simp [start]
  | byte r =>
      by_cases hr : r = newline
      · subst hr
        rw [step_newline] at hstep
        cases hstep
        simp [start]
      · rw [step_byte hr] at hstep
        cases hstep
        simp [hr]

theorem exists_step (s : ReceiveLine) (o : ByteOutcome) : ∃ s', step lineTurn s o = some s' := by
  rw [step]
  split
  · exact ⟨_, rfl⟩
  · exact ⟨_, rfl⟩

/-- Nothing is lost exactly while no read fails within a line. -/
theorem losesNothing_iff (outcomes : List ByteOutcome) :
    Runs.Always (step lineTurn) LosesNothing start outcomes ↔ Unbroken outcomes := by
  have hrule := Runs.always_iff_along (step lineTurn) (I := Reading) (fun _ h => h.losesNothing)
    (fun _ _ _ h hC hstep => reading_step h hC hstep)
    (fun _ _ _ h hC hstep => not_losesNothing_of_failed h hC hstep) reading_start outcomes
  rw [hrule, Runs.along_iff_isChain (step lineTurn) exists_step
    fun _ _ _ hstep o' => whole_iff_of_step hstep o']
  -- there is no line under way before the first read
  exact and_iff_right fun _ _ _ => rfl

end ReceiveLine

open ReceiveLine in
/-- **When `ReceiveLine` loses nothing.** For every sequence of reads: the strings returned by the
calls so far are the bytes they took, each has a newline at its end only, and lacks one only at the
end of the stream or where its call took nothing, exactly if no read fails directly behind a byte
other than a newline. -/
theorem receiveLine_losesNothing_iff (outcomes : List ByteOutcome) :
    (Runs.Always (step Socket.receiveLine) LosesNothing start outcomes ↔ Unbroken outcomes) ∧
      (Runs.Always (step SSLSocket.receiveLine) LosesNothing start outcomes ↔ Unbroken outcomes) :=
  ⟨losesNothing_iff outcomes, losesNothing_iff outcomes⟩

open ReceiveLine in
/-- A line that is cut by a read that times out: the `a` is taken from the socket, and returned by
no call. -/
theorem not_receiveLine_losesNothing_timeout :
    ¬ Runs.Always (step Socket.receiveLine) LosesNothing start
      [.byte 97, .minusOne, .byte 98, .byte newline] := by
  intro h
  have hlast := Runs.Always.of_run _ h rfl
  exact absurd hlast.whole (by decide)

end AsabruEngine
