import AsabruEngine.Library.Runs
import AsabruEngine.Socket.Derived

/-! # Host records

Who frees what `Resolve` leaves in `m_HostPointer`, over any calls of `Connect` and `Reconnect`.
`gethostbyname` gives out the record in its static storage, `create_hostent` a new one on the heap,
which the caller frees.

* `HostRecords.step` is a call of `Connect` or `Reconnect` on the socket, and `FreedOnce` what is to
  hold after it; `Frees` is the condition on a call.
* `effect_step` finds one `Effect` in every call. `settled_of_effect` keeps the ledger of the
  records under those that meet the condition, `not_freedOnce_of_effect` is the other direction.
* `hostRecords_freedOnce_iff` has both for any sequence of calls. -/

namespace AsabruEngine

open Resources

/-- A host record: the one of the library, or the `n`-th that `create_hostent` has allocated. -/
inductive Hostent
  | library
  | created (n : ℕ)
  deriving DecidableEq, Repr

/-- `m_HostPointer` of a client socket, how many records `create_hostent` has allocated for it, and
what has happened to them. -/
structure HostRecords where
  mHostPointer : Option Hostent
  created : ℕ
  log : Log Hostent
  deriving DecidableEq, Repr

/-- A call on a client socket; `s` is the descriptor that `CreateSocket` is given. -/
inductive HostCall
  | connect (answers : ConnectAnswers)
  | reconnect (s : SOCKET) (answers : ConnectAnswers)
  deriving DecidableEq, Repr

namespace HostRecords

/-- Before the first call; `m_HostPointer` is not initialised. -/
def start (mHostPointer : Option Hostent) : HostRecords := ⟨mHostPointer, 0, []⟩

/-- `m_HostPointer = create_hostent(host)`. -/
def createHostent (records : HostRecords) : HostRecords :=
  let record := Hostent.created records.created
  { mHostPointer := some record
    created := records.created + 1
    log := records.log ++ [.acquired record] }

/-- `free(m_HostPointer)`. -/
def free (records : HostRecords) : HostRecords :=
  match records.mHostPointer with
  | some record => { records with log := records.log ++ [.released record] }
  | none => records

/-- `Resolve`, and whether it returns. -/
def resolve (records : HostRecords) (host : String) (resolves : Bool) : Bool × HostRecords :=
  if CClientSocket.isName host then
    -- the null pointer is stored before it is tested
    if resolves then (true, { records with mHostPointer := some .library })
    else (false, { records with mHostPointer := none })
  else if resolves then (true, records.createHostent) else (false, records)

/-- `Connect`, and whether it returns. -/
def connect (records : HostRecords) (host : String) (answers : ConnectAnswers) :
    Bool × HostRecords :=
  match records.resolve host answers.resolves with
  | (false, records) => (false, records)
  | (true, records) => if answers.connects then (true, records.free) else (false, records)

/-- `Reconnect`, and whether it returns. An exception of `CreateSocket` comes before `Connect`. -/
def reconnect (records : HostRecords) (host : String) (s : SOCKET) (answers : ConnectAnswers) :
    Bool × HostRecords :=
  if s = none then (false, records) else records.connect host answers

/-- One call. -/
def step (host : String) (records : HostRecords) : HostCall → Option HostRecords
  | .connect answers => some (records.connect host answers).2
  | .reconnect s answers => some (records.reconnect host s answers).2

/-- No record of the library has been freed, and every record that `create_hostent` returned has
been freed once. -/
structure FreedOnce (records : HostRecords) : Prop where
  library : .released .library ∉ records.log
  once : ∀ n, .acquired (.created n) ∈ records.log → releases records.log (.created n) = 1

end HostRecords

/-- `Connect` reaches its `free` with the record of a `create_hostent`, and ends before it with that
of the library. -/
def ConnectAnswers.Frees (host : String) (answers : ConnectAnswers) : Prop :=
  answers.resolves = true → (answers.connects = true ↔ ¬ CClientSocket.isName host = true)

/-- The call does not come to `Connect`, or that frees what it has to. -/
def HostCall.Frees (host : String) : HostCall → Prop
  | connect answers => answers.Frees host
  | reconnect s answers => s ≠ none → answers.Frees host

namespace HostRecords

variable {host : String} {records records' : HostRecords} {answers : ConnectAnswers}

/-! ## One call -/

/-- What a call of `Connect` does to the records. -/
inductive Effect (host : String) (records records' : HostRecords) (C : Prop) : Prop
  /-- None is allocated, and none freed. -/
  | untouched (condition : C) (created : records'.created = records.created)
      (log : records'.log = records.log)
  /-- A record is allocated and freed. -/
  | freed (condition : C) (created : records'.created = records.created + 1)
      (log : records'.log = records.log ++
        [.acquired (.created records.created), .released (.created records.created)])
  /-- A record is allocated, and `Connect` throws in front of its `free`. -/
  | leaked (condition : ¬ C) (created : records'.created = records.created + 1)
      (log : records'.log = records.log ++ [.acquired (.created records.created)])
  /-- The record of the library is freed. -/
  | foreign (condition : ¬ C) (created : records'.created = records.created)
      (log : records'.log = records.log ++ [.released .library])

theorem effect_connect (host : String) (records : HostRecords) (answers : ConnectAnswers) :
    Effect host records (records.connect host answers).2 (answers.Frees host) := by
  rcases answers with ⟨resolves, connects⟩
  cases resolves with
  | false =>
      have hnone : ConnectAnswers.Frees host ⟨false, connects⟩ := fun h => by cases h
      by_cases hname : CClientSocket.isName host = true
      · simp only [connect, resolve, if_pos hname, Bool.false_eq_true, if_false]
        exact .untouched hnone rfl rfl
      · simp only [connect, resolve, if_neg hname, Bool.false_eq_true, if_false]
        exact .untouched hnone rfl rfl
  | true =>
      have hfrees : ConnectAnswers.Frees host ⟨true, connects⟩ ↔
          (connects = true ↔ ¬ CClientSocket.isName host = true) := by
        simp [ConnectAnswers.Frees]
      rw [hfrees]
      by_cases hname : CClientSocket.isName host = true
      · simp only [connect, resolve, if_pos hname, if_true]
        cases connects with
        | false => exact .untouched (by simp [hname]) rfl rfl
        | true => exact .foreign (by simp [hname]) rfl rfl
      · simp only [connect, resolve, if_neg hname, if_true]
        cases connects with
        | false => exact .leaked (by simp [hname]) rfl rfl
        | true => exact .freed (by simp [hname]) rfl (List.append_assoc _ _ _)

/-- A call has the effect of its `Connect`, or none. -/
theorem effect_step {call : HostCall} (h : step host records call = some records') :
    Effect host records records' (call.Frees host) := by
  cases call with
  | connect answers =>
      cases h
      exact effect_connect host records answers
  | reconnect s answers =>
      cases h
      by_cases hs : s = none
      · rw [reconnect, if_pos hs]
        exact .untouched (fun h => absurd hs h) rfl rfl
      · have hfrees : (HostCall.reconnect s answers).Frees host ↔ answers.Frees host := by
          simp [HostCall.Frees, hs]
        rw [reconnect, if_neg hs, hfrees]
        exact effect_connect host records answers

/-! ## The calls of a client socket -/

/-- Who a record belongs to. -/
def owner : Hostent → HostRecord
  | .library => .library
  | .created _ => .heap

/-- The owner of the record that an event frees. -/
def freedOf : Event Hostent → Option HostRecord
  | .released record => some (owner record)
  | .acquired _ => none
  | .used _ => none

/-- The owner of the record that an event allocates. -/
def allocatedOf : Event Hostent → Option HostRecord
  | .acquired record => some (owner record)
  | .released _ => none
  | .used _ => none

/-- `CClientSocket.connect` returns where `connect` does, obtains what that allocates and frees what
that frees. -/
theorem connect_agrees (this : CClientSocket) (records : HostRecords) (answers : ConnectAnswers) :
    (records.connect this.mServerName answers).1 = (this.connect answers).returns ∧
      ∃ events, (records.connect this.mServerName answers).2.log = records.log ++ events ∧
        events.filterMap allocatedOf = (this.connect answers).obtained.filter (· = .heap) ∧
        events.filterMap freedOf = (this.connect answers).freed := by
  rcases answers with ⟨resolves, connects⟩
  by_cases hname : CClientSocket.isName this.mServerName = true
  · cases resolves with
    | false =>
        simp only [connect, resolve, CClientSocket.connect, CClientSocket.resolve, if_pos hname,
          Bool.false_eq_true, if_false]
        exact ⟨trivial, [], (List.append_nil _).symm, rfl, rfl⟩
    | true =>
        simp only [connect, resolve, CClientSocket.connect, CClientSocket.resolve, if_pos hname,
          if_true]
        cases connects with
        | false => exact ⟨rfl, [], (List.append_nil _).symm, rfl, rfl⟩
        | true => exact ⟨rfl, [.released .library], rfl, rfl, rfl⟩
  · cases resolves with
    | false =>
        simp only [connect, resolve, CClientSocket.connect, CClientSocket.resolve, if_neg hname,
          Bool.false_eq_true, if_false]
        exact ⟨trivial, [], (List.append_nil _).symm, rfl, rfl⟩
    | true =>
        simp only [connect, resolve, CClientSocket.connect, CClientSocket.resolve, if_neg hname,
          if_true]
        cases connects with
        | false => exact ⟨rfl, [.acquired (.created records.created)], rfl, rfl, rfl⟩
        | true =>
            exact ⟨rfl, [.acquired (.created records.created),
              .released (.created records.created)], List.append_assoc _ _ _, rfl, rfl⟩

/-- `CClientSocket.reconnect` returns where `reconnect` does. -/
theorem reconnect_agrees (this : CClientSocket) (process : Process) (records : HostRecords)
    (s : SOCKET) (answers : ConnectAnswers) :
    (records.reconnect this.mServerName s answers).1 = (this.reconnect process s answers).2.1 := by
  by_cases hs : s = none
  · simp [reconnect, CClientSocket.reconnect, hs]
  · simp only [reconnect, CClientSocket.reconnect, if_neg hs]
    exact (connect_agrees { this with s := s } records answers).1

/-! ## While every record is freed -/

/-- All records that were allocated have been freed, and no other. -/
structure Settled (records : HostRecords) : Prop where
  ledger : Ledger (fun _ => False) records.log
  library : .acquired .library ∉ records.log
  created : ∀ n, .acquired (.created n) ∈ records.log → n < records.created

theorem settled_start (mHostPointer : Option Hostent) : Settled (start mHostPointer) :=
  ⟨Ledger.nil, by simp [start], by simp [start]⟩

theorem Settled.freedOnce (h : Settled records) : FreedOnce records where
  library hreleased := h.library (h.ledger.acquired_of_released _ hreleased)
  once _ hn := h.ledger.settled _ hn not_false

/-- The next record is new. -/
theorem Settled.new (h : Settled records) : .acquired (.created records.created) ∉ records.log :=
  fun hacquired => Nat.lt_irrefl _ (h.created _ hacquired)

/-- **One call** that frees what it has to leaves nothing to free. -/
theorem settled_of_effect {C : Prop} (h : Settled records) (hC : C)
    (heffect : Effect host records records' C) : Settled records' := by
  cases heffect with
  | untouched _ created log => exact ⟨log ▸ h.ledger, log ▸ h.library, log ▸ created ▸ h.created⟩
  | freed _ created log =>
      refine ⟨?_, ?_, ?_⟩
      · rw [log]
        exact h.ledger.acquire_release h.new
      · simpa [log] using h.library
      · intro n hn
        rw [created]
        simp only [log, List.mem_append, List.mem_cons, Event.acquired.injEq, Hostent.created.injEq,
          reduceCtorEq, List.not_mem_nil, or_false] at hn
        rcases hn with hn | rfl
        · exact Nat.lt_succ_of_lt (h.created n hn)
        · exact Nat.lt_succ_self _
  | leaked condition _ _ => exact absurd hC condition
  | foreign condition _ _ => exact absurd hC condition

/-- A call that does not leaves a record unfreed, or has freed the one of the library. -/
theorem not_freedOnce_of_effect {C : Prop} (h : Settled records) (hC : ¬ C)
    (heffect : Effect host records records' C) : ¬ FreedOnce records' := by
  intro hfreed
  cases heffect with
  | untouched condition _ _ => exact hC condition
  | freed condition _ _ => exact hC condition
  | leaked _ _ log =>
      have honce := hfreed.once records.created (by simp [log])
      have hnone : releases records.log (.created records.created) = 0 :=
        releases_eq_zero_iff.mpr fun hreleased => h.new (h.ledger.acquired_of_released _ hreleased)
      rw [log, releases_append, hnone] at honce
      simp at honce
  | foreign _ _ log => exact hfreed.library (by simp [log])

theorem exists_step (host : String) (records : HostRecords) (call : HostCall) :
    ∃ records', step host records call = some records' := by
  cases call with
  | connect answers => exact ⟨_, rfl⟩
  | reconnect s answers => exact ⟨_, rfl⟩

end HostRecords

open HostRecords in
/-- **When host records are freed once.** For every host and every sequence of calls of `Connect`
and `Reconnect`: behind each call no record of the library has been freed, and every record of
`create_hostent` has been freed once, exactly if among the calls that resolve the host those connect
that do so by `create_hostent`, and no others. -/
theorem hostRecords_freedOnce_iff (host : String) (mHostPointer : Option Hostent)
    (calls : List HostCall) :
    Runs.Always (step host) FreedOnce (start mHostPointer) calls ↔
      ∀ call ∈ calls, call.Frees host := by
  rw [← Runs.along_iff_forall_mem (step host) (exists_step host) (start mHostPointer)]
  exact Runs.always_iff_along (step host) (I := Settled) (fun _ h => h.freedOnce)
    (fun _ _ _ h hC hstep => settled_of_effect h hC (effect_step hstep))
    (fun _ _ _ h hC hstep => not_freedOnce_of_effect h hC (effect_step hstep))
    (settled_start mHostPointer) calls

open HostRecords in
/-- A host given by its name whose record, the one of the library, is freed behind a `connect` that
works; and one given by its address whose record is not freed where `connect` fails. -/
theorem not_hostRecords_freedOnce_connect :
    ¬ Runs.Always (step "localhost") FreedOnce (start none) [.connect ⟨true, true⟩] ∧
      ¬ Runs.Always (step "127.0.0.1") FreedOnce (start none) [.connect ⟨true, false⟩] := by
  constructor
  · intro h
    have hlast := Runs.Always.of_run _ h rfl
    exact hlast.library (by decide)
  · intro h
    have hlast := Runs.Always.of_run _ h rfl
    exact absurd (hlast.once 0 (by decide)) (by decide)

end AsabruEngine
