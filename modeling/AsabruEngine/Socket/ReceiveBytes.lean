import AsabruEngine.Library.Runs
import AsabruEngine.Socket.Receive

/-! # What a call of `ReceiveBytes` consumes

`Socket::ReceiveBytes` one call of `recv` at a time: the retry on an interruption, the buffer that
the chunk is copied from, and the size of the next request, which comes from `ioctl`.

* `ReceiveBytes.step` takes one `RecvOutcome`, the end of a `recv` with what `FIONREAD` reports
  behind it. `nextRequest` is the size asked for next, told from the outcomes so far, and `Possible`
  says that the call gets no chunk larger than that.
* `going_run` follows the call as long as every outcome leads on, and `receiveBytes_of_run` finds
  the same turns in the loop of `receiveBytes`.
* `receiveBytes_exact` is the result: the call goes on up to the first outcome that does not lead
  on, and returns there the bytes delivered. -/

namespace AsabruEngine

/-- How a `recv` ends, and behind a chunk what `ioctl` reports: a number of bytes, or `none` where
it fails. -/
inductive RecvOutcome
  | chunk (first : UInt8) (more : Bytes) (ioctl : Option ℕ)
  /-- `0`. -/
  | zero
  /-- `-1`. -/
  | minusOne (errno : Errno)
  deriving DecidableEq, Repr

/-- `IsSerialDataAvailable`. -/
def Socket.isSerialDataAvailable (ioctl : Option ℕ) : ℕ :=
  match ioctl with
  | some arg => arg
  | none => 0

namespace RecvOutcome

/-- The outcome as an answer of `receiveBytes`. -/
def answer : RecvOutcome → RecvAnswer
  | chunk first more ioctl => .data first more (Socket.isSerialDataAvailable ioctl)
  | zero => .closed
  | minusOne errno => .failed errno

/-- The bytes delivered. -/
def bytes (o : RecvOutcome) : Bytes := o.answer.bytes

/-- What `FIONREAD` reports available, if it is asked and answers. -/
def reported : RecvOutcome → Option ℕ
  | chunk _ _ ioctl => ioctl
  | zero => none
  | minusOne _ => none

/-- `recv` is called once more behind the outcome. -/
def GoesOn : RecvOutcome → Prop
  | chunk _ _ ioctl => ∃ available ∈ ioctl, 0 < available
  | zero => False
  | minusOne errno => errno = .eintr

instance : DecidablePred GoesOn
  | chunk _ _ ioctl => inferInstanceAs (Decidable (∃ available ∈ ioctl, 0 < available))
  | zero => inferInstanceAs (Decidable False)
  | minusOne errno => inferInstanceAs (Decidable (errno = .eintr))

/-- The bytes delivered by a list of outcomes, in order. -/
def delivered (outcomes : List RecvOutcome) : Bytes := outcomes.flatMap bytes

/-- The first outcome that is no interruption. -/
def first (outcomes : List RecvOutcome) : Option RecvOutcome :=
  outcomes.find? (· ≠ .minusOne .eintr)

/-- The number that `FIONREAD` last reported. -/
def lastReported (outcomes : List RecvOutcome) : Option ℕ :=
  (outcomes.filterMap reported).getLast?

/-- The size of the request behind the outcomes: what was last reported, and no more than fits the
buffer. -/
def nextRequest (outcomes : List RecvOutcome) : ℕ :=
  match lastReported outcomes with
  | some n => min n Socket.readBuffer
  | none => Socket.readBuffer

/-- The sizes of the requests that end with the outcomes. -/
def requestSizes (outcomes : List RecvOutcome) : List ℕ :=
  (List.range outcomes.length).map fun i => nextRequest (outcomes.take i)

/-- As far as the call goes on, no chunk is larger than what `recv` was asked for. -/
def Possible (outcomes : List RecvOutcome) : Prop :=
  ∀ i, (h : i < outcomes.length) → (∀ o ∈ outcomes.take i, o.GoesOn) →
    outcomes[i].bytes.length ≤ nextRequest (outcomes.take i)

instance (outcomes : List RecvOutcome) : Decidable (Possible outcomes) :=
  inferInstanceAs (Decidable (∀ i, (_ : i < outcomes.length) → (∀ o ∈ outcomes.take i, _) → _))

end RecvOutcome

open RecvOutcome Socket

/-- `ReceiveBytes` before a call of `recv`: the size it asks for, the buffer, the string so far and
the one returned, if one is. The sizes asked for so far are kept beside them. -/
structure ReceiveBytes where
  arg : ℕ
  buf : Memory
  ret : Bytes
  returned : Option Bytes
  requests : List ℕ

namespace ReceiveBytes

/-- `ReceiveBytes()` before its first call; the buffer is not initialised. -/
def start (buf : Memory) : ReceiveBytes where
  arg := readBuffer
  buf := buf
  ret := []
  returned := none
  requests := []

/-- One turn of the loops, with how `recv` ended and what `ioctl` reported behind it. -/
def iterate (s : ReceiveBytes) (o : RecvOutcome) : ReceiveBytes :=
  let s := { s with buf := s.buf.store 0 o.bytes, requests := s.requests ++ [s.arg] }
  match o with
  | .minusOne errno =>
      -- `while (bytesRead == -1 && errno == EINTR)`
      if errno = .eintr then s else { s with returned := some s.ret }
  | .zero => { s with returned := some s.ret }
  | .chunk _ more ioctl =>
      -- `t.assign(buf, bytesRead)`
      let ret := s.ret ++ s.buf.slice 0 (more.length + 1)
      let arg := isSerialDataAvailable ioctl
      if arg = 0 then { s with ret, arg, returned := some ret }
      else if arg > readBuffer then { s with ret, arg := readBuffer }
      else { s with ret, arg }

/-- One turn, if the function has not returned. A chunk is at most what was asked for. -/
def step (s : ReceiveBytes) (o : RecvOutcome) : Option ReceiveBytes :=
  if s.returned = none ∧ o.bytes.length ≤ s.arg then some (s.iterate o) else none

/-- A call of `ReceiveBytes` that is answered with the outcomes. -/
structure Exact (buf : Memory) (outcomes : List RecvOutcome) : Prop where
  /-- As long as every outcome leads on, there is one request for each, and the call goes on. -/
  goes : (∀ o ∈ outcomes, o.GoesOn) →
    ∃ s, Runs.run step (start buf) outcomes = some s ∧ s.returned = none ∧
      s.requests = requestSizes outcomes
  /-- Each request is for a byte at least, fits the buffer, and is for no more than was last
  reported. -/
  asks : ∀ before o rest, outcomes = before ++ o :: rest → (∀ o' ∈ before, o'.GoesOn) →
    1 ≤ nextRequest before ∧ nextRequest before ≤ readBuffer ∧
      ∀ n ∈ lastReported before, nextRequest before ≤ n
  /-- Behind the first outcome that does not lead on the call returns the bytes delivered, and so
  does `receiveBytes`, which leaves the other answers alone. -/
  returns : ∀ before last rest, outcomes = before ++ last :: rest → (∀ o ∈ before, o.GoesOn) →
    ¬ last.GoesOn →
    ∃ s, Runs.run step (start buf) (before ++ [last]) = some s ∧
      s.returned = some (delivered (before ++ [last])) ∧
      s.requests = requestSizes (before ++ [last]) ∧
      receiveBytes (outcomes.map answer) =
        some ⟨delivered (before ++ [last]), s.requests, rest.map answer⟩
  /-- That is nothing exactly where the first outcome that counts is the end or an error. -/
  empty : ∀ before last rest, outcomes = before ++ last :: rest → (∀ o ∈ before, o.GoesOn) →
    ¬ last.GoesOn →
    (delivered (before ++ [last]) = [] ↔
      first outcomes = some .zero ∨ ∃ errno, first outcomes = some (.minusOne errno))

end ReceiveBytes

/-! ## Lists of outcomes -/

namespace RecvOutcome

@[simp] theorem bytes_chunk (b : UInt8) (more : Bytes) (ioctl : Option ℕ) :
    (chunk b more ioctl).bytes = b :: more := rfl

@[simp] theorem bytes_zero : zero.bytes = [] := rfl

@[simp] theorem bytes_minusOne (errno : Errno) : (minusOne errno).bytes = [] := rfl

/-- The loops end behind a chunk where nothing is available. -/
theorem goesOn_chunk_iff {b : UInt8} {more : Bytes} {ioctl : Option ℕ} :
    (chunk b more ioctl).GoesOn ↔ isSerialDataAvailable ioctl ≠ 0 := by
  cases ioctl with
  | none => simp [GoesOn, isSerialDataAvailable]
  | some n => simp [GoesOn, isSerialDataAvailable, Nat.pos_iff_ne_zero]

theorem delivered_append (outcomes outcomes' : List RecvOutcome) :
    delivered (outcomes ++ outcomes') = delivered outcomes ++ delivered outcomes' :=
  List.flatMap_append

theorem delivered_cons (o : RecvOutcome) (outcomes : List RecvOutcome) :
    delivered (o :: outcomes) = o.bytes ++ delivered outcomes :=
  List.flatMap_cons

/-- The last chunk is what `FIONREAD` was last asked behind. -/
theorem nextRequest_append_chunk (outcomes : List RecvOutcome) (b : UInt8) (more : Bytes) (n : ℕ) :
    nextRequest (outcomes ++ [chunk b more (some n)]) = min n readBuffer := by
  simp [nextRequest, lastReported, reported]

theorem nextRequest_append_minusOne (outcomes : List RecvOutcome) (errno : Errno) :
    nextRequest (outcomes ++ [minusOne errno]) = nextRequest outcomes := by
  simp [nextRequest, lastReported, reported]

theorem requestSizes_append (outcomes : List RecvOutcome) (o : RecvOutcome) :
    requestSizes (outcomes ++ [o]) = requestSizes outcomes ++ [nextRequest outcomes] := by
  rw [requestSizes, requestSizes, List.length_append, List.length_singleton, List.range_succ,
    List.map_append, List.map_singleton, List.take_left]
  congr 1
  refine List.map_congr_left fun i hi => ?_
  rw [List.take_append_of_le_length (Nat.le_of_lt (List.mem_range.mp hi))]

/-- What is reported behind outcomes that lead on is not nothing. -/
theorem pos_of_mem_lastReported {outcomes : List RecvOutcome} (hgoes : ∀ o ∈ outcomes, o.GoesOn)
    {n : ℕ} (hn : n ∈ lastReported outcomes) : 0 < n := by
  obtain ⟨o, ho, hreported⟩ := List.mem_filterMap.mp (List.mem_of_getLast? hn)
  have hgoes := hgoes o ho
  cases o with
  | chunk b more ioctl =>
      obtain ⟨available, havailable, hpos⟩ := hgoes
      obtain rfl : available = n := Option.some.inj (havailable.symm.trans hreported)
      exact hpos
  | zero => cases hreported
  | minusOne errno => cases hreported

/-- Behind outcomes that lead on, the next request is for a byte at least. -/
theorem one_le_nextRequest {outcomes : List RecvOutcome} (hgoes : ∀ o ∈ outcomes, o.GoesOn) :
    1 ≤ nextRequest outcomes := by
  rw [nextRequest]
  split
  · rename_i n hn
    exact Nat.le_min.mpr ⟨pos_of_mem_lastReported hgoes hn, by decide⟩
  · decide

theorem nextRequest_le_readBuffer (outcomes : List RecvOutcome) :
    nextRequest outcomes ≤ readBuffer := by
  rw [nextRequest]
  split
  · exact Nat.min_le_right _ _
  · exact le_rfl

theorem nextRequest_le_of_mem_lastReported {outcomes : List RecvOutcome} {n : ℕ}
    (hn : n ∈ lastReported outcomes) : nextRequest outcomes ≤ n := by
  rw [nextRequest, Option.mem_def.mp hn]
  exact Nat.min_le_left _ _

/-- The first outcomes of a possible list are possible. -/
theorem Possible.of_append {outcomes rest : List RecvOutcome} (h : Possible (outcomes ++ rest)) :
    Possible outcomes := by
  intro i hi
  have hfits := h i (by rw [List.length_append]; omega)
  rwa [List.getElem_append_left hi, List.take_append_of_le_length hi.le] at hfits

/-- The outcome behind others that lead on fits the request that they lead to. -/
theorem Possible.next {outcomes rest : List RecvOutcome} {o : RecvOutcome}
    (h : Possible (outcomes ++ o :: rest)) (hgoes : ∀ o' ∈ outcomes, o'.GoesOn) :
    o.bytes.length ≤ nextRequest outcomes := by
  have hfits := h outcomes.length (by simp)
  rw [List.take_left] at hfits
  simpa using hfits hgoes

/-- Outcomes of which only the last ends the loops deliver nothing exactly if the first of them that
is no interruption is the end of the stream or an error. -/
theorem delivered_eq_nil_iff {before rest : List RecvOutcome} {last : RecvOutcome}
    (hbefore : ∀ o ∈ before, o.GoesOn) (hlast : ¬ last.GoesOn) :
    delivered (before ++ [last]) = [] ↔ first (before ++ last :: rest) = some .zero ∨
      ∃ errno, first (before ++ last :: rest) = some (.minusOne errno) := by
  induction before with
  | nil =>
      cases last with
      | chunk b more ioctl => simp [delivered_cons, first]
      | zero => simp [delivered, first]
      | minusOne errno =>
          have hne : errno ≠ .eintr := hlast
          simp [delivered, first, hne]
  | cons o before ih =>
      have hrest := ih fun o' ho' => hbefore o' (List.mem_cons_of_mem o ho')
      have ho := hbefore o List.mem_cons_self
      rw [List.cons_append, delivered_cons]
      cases o with
      | chunk b more ioctl => simp [first]
      | zero => exact ho.elim
      | minusOne errno =>
          -- an interruption delivers nothing and does not count
          obtain rfl : errno = .eintr := ho
          simpa [first] using hrest

end RecvOutcome

namespace ReceiveBytes

variable {s s' : ReceiveBytes} {o : RecvOutcome}

/-! ## One turn -/

/-- What a turn does to the request and to the result. -/
inductive Turn (s : ReceiveBytes) (o : RecvOutcome) (s' : ReceiveBytes) : Prop
  /-- The call is interrupted, and repeated. -/
  | again (interrupted : o = .minusOne .eintr) (same : s'.arg = s.arg)
      (running : s'.returned = none)
  /-- A chunk behind which more is available. -/
  | more (b : UInt8) (rest : Bytes) (n : ℕ) (chunk : o = .chunk b rest (some n)) (pos : 0 < n)
      (next : s'.arg = min n readBuffer) (running : s'.returned = none)
  /-- The function returns what it has. -/
  | last (ends : ¬ o.GoesOn) (returned : s'.returned = some s'.ret)

/-- A turn receives the bytes of its outcome. -/
structure Received (s : ReceiveBytes) (o : RecvOutcome) (s' : ReceiveBytes) : Prop where
  running : s.returned = none
  fits : o.bytes.length ≤ s.arg
  ret : s'.ret = s.ret ++ o.bytes
  requests : s'.requests = s.requests ++ [s.arg]
  turn : Turn s o s'

theorem step_eq_some :
    step s o = some s' ↔ s.returned = none ∧ o.bytes.length ≤ s.arg ∧ s' = s.iterate o := by
  rw [step, Option.ite_none_right_eq_some, Option.some.injEq, and_assoc]
  exact and_congr_right fun _ => and_congr_right fun _ => eq_comm

/-- **One turn**: the chunk is copied from the buffer to the end of the string. -/
theorem received_of_step (h : step s o = some s') : Received s o s' := by
  obtain ⟨hrunning, hfits, rfl⟩ := step_eq_some.mp h
  cases o with
  | zero =>
      exact ⟨hrunning, hfits, (List.append_nil _).symm, rfl, .last (fun h => h) rfl⟩
  | minusOne errno =>
      by_cases hintr : errno = .eintr
      · subst hintr
        exact ⟨hrunning, hfits, (List.append_nil _).symm, rfl, .again rfl rfl hrunning⟩
      · simp only [iterate, if_neg hintr]
        exact ⟨hrunning, hfits, (List.append_nil _).symm, rfl, .last hintr rfl⟩
  | chunk b rest ioctl =>
      have hbuf := Memory.slice_store s.buf 0 (b :: rest)
      rw [List.length_cons] at hbuf
      simp only [iterate, bytes_chunk, hbuf]
      by_cases hzero : isSerialDataAvailable ioctl = 0
      · rw [if_pos hzero]
        exact ⟨hrunning, hfits, rfl, rfl, .last (fun h => goesOn_chunk_iff.mp h hzero) rfl⟩
      · rw [if_neg hzero]
        cases ioctl with
        | none => exact absurd rfl hzero
        | some n =>
            have hpos : 0 < n := Nat.pos_of_ne_zero hzero
            by_cases hlarge : n > readBuffer
            · rw [isSerialDataAvailable, if_pos hlarge]
              refine ⟨hrunning, hfits, rfl, rfl, .more b rest n rfl hpos ?_ hrunning⟩
              exact (Nat.min_eq_right (Nat.le_of_lt hlarge)).symm
            · rw [isSerialDataAvailable, if_neg hlarge]
              refine ⟨hrunning, hfits, rfl, rfl, .more b rest n rfl hpos ?_ hrunning⟩
              exact (Nat.min_eq_left (Nat.le_of_not_lt hlarge)).symm

/-! ## Up to the last outcome -/

/-- The call goes on behind the outcomes: the string is what they delivered. -/
structure Going (outcomes : List RecvOutcome) (s : ReceiveBytes) : Prop where
  running : s.returned = none
  arg : s.arg = nextRequest outcomes
  ret : s.ret = delivered outcomes
  requests : s.requests = requestSizes outcomes

theorem going_start (buf : Memory) : Going [] (start buf) := ⟨rfl, rfl, rfl, rfl⟩

variable {outcomes : List RecvOutcome}

/-- An outcome that fits the request is received. -/
theorem Going.received (h : Going outcomes s) (hfits : o.bytes.length ≤ nextRequest outcomes) :
    step s o = some (s.iterate o) ∧ Received s o (s.iterate o) := by
  rw [← h.arg] at hfits
  have hstep := step_eq_some.mpr ⟨h.running, hfits, rfl⟩
  exact ⟨hstep, received_of_step hstep⟩

theorem Going.ret_of_received (h : Going outcomes s) (hreceived : Received s o s') :
    s'.ret = delivered (outcomes ++ [o]) := by
  rw [hreceived.ret, h.ret, delivered_append, delivered_cons]
  simp [delivered]

theorem Going.requests_of_received (h : Going outcomes s) (hreceived : Received s o s') :
    s'.requests = requestSizes (outcomes ++ [o]) := by
  rw [hreceived.requests, h.requests, h.arg, requestSizes_append]

/-- Behind an outcome that leads on, the call goes on. -/
theorem Going.goOn (h : Going outcomes s) (hreceived : Received s o s') (hgoes : o.GoesOn) :
    Going (outcomes ++ [o]) s' := by
  have hret := h.ret_of_received hreceived
  have hrequests := h.requests_of_received hreceived
  cases hreceived.turn with
  | again hintr hsame hrunning =>
      subst hintr
      exact ⟨hrunning, by rw [hsame, h.arg, nextRequest_append_minusOne], hret, hrequests⟩
  | more b rest n hchunk hpos hnext hrunning =>
      subst hchunk
      exact ⟨hrunning, by rw [hnext, nextRequest_append_chunk], hret, hrequests⟩
  | last hends hreturned => exact absurd hgoes hends

/-- Behind one that does not, it returns what was delivered. -/
theorem Going.finish (h : Going outcomes s) (hreceived : Received s o s') (hends : ¬ o.GoesOn) :
    s'.returned = some (delivered (outcomes ++ [o])) := by
  rw [← h.ret_of_received hreceived]
  cases hreceived.turn with
  | again hintr hsame hrunning =>
      subst hintr
      exact absurd rfl hends
  | more b rest n hchunk hpos hnext hrunning =>
      subst hchunk
      exact absurd ⟨n, rfl, hpos⟩ hends
  | last hends hreturned => exact hreturned

/-- **As long as every outcome leads on**, the call takes them all. -/
theorem going_run (buf : Memory) (hpossible : Possible outcomes)
    (hgoes : ∀ o ∈ outcomes, o.GoesOn) :
    ∃ s, Runs.run step (start buf) outcomes = some s ∧ Going outcomes s := by
  induction outcomes using List.reverseRecOn with
  | nil => exact ⟨_, rfl, going_start buf⟩
  | append_singleton outcomes o ih =>
      have ho := hgoes o (List.mem_append_right outcomes List.mem_cons_self)
      have hbefore : ∀ o' ∈ outcomes, o'.GoesOn := fun o' ho' =>
        hgoes o' (List.mem_append_left [o] ho')
      obtain ⟨s, hrun, h⟩ := ih hpossible.of_append hbefore
      obtain ⟨hstep, hreceived⟩ := h.received (hpossible.next hbefore)
      refine ⟨s.iterate o, ?_, h.goOn hreceived ho⟩
      rw [Runs.run_append, hrun, Option.bind_some, Runs.run_singleton, hstep]

/-! ## The turns of the loop -/

/-- A turn of the loop of `receiveBytes` is a step. -/
theorem receiveBytesLoop_cons (hs : s.returned = none) (o : RecvOutcome)
    (answers : List RecvAnswer) :
    receiveBytesLoop (o.answer :: answers) s.arg s.ret s.requests =
      (step s o).bind fun s' =>
        match s'.returned with
        | some ret => some ⟨ret, s'.requests, answers⟩
        | none => receiveBytesLoop answers s'.arg s'.ret s'.requests := by
  cases o with
  | zero => simp [answer, receiveBytesLoop, step, iterate, hs]
  | minusOne errno =>
      by_cases hintr : errno = .eintr
      · simp [answer, receiveBytesLoop, step, iterate, hs, hintr]
      · simp [answer, receiveBytesLoop, step, iterate, hs, hintr]
  | chunk b more ioctl =>
      have hbuf := Memory.slice_store s.buf 0 (b :: more)
      rw [List.length_cons] at hbuf
      simp only [answer, receiveBytesLoop, step, iterate, bytes_chunk, hbuf, hs, true_and,
        List.length_cons]
      by_cases hfits : more.length + 1 ≤ s.arg
      · rw [if_pos hfits, if_pos hfits, Option.bind_some]
        by_cases hzero : isSerialDataAvailable ioctl = 0
        · simp [hzero]
        · by_cases hlarge : isSerialDataAvailable ioctl > readBuffer
          · simp [hzero, hlarge, Nat.min_eq_right (Nat.le_of_lt hlarge)]
          · simp [hzero, hlarge, Nat.min_eq_left (Nat.le_of_not_lt hlarge)]
      · rw [if_neg hfits, if_neg hfits, Option.bind_none]

/-- Nothing is called once the function has returned. -/
theorem step_eq_none_of_returned {ret : Bytes} (h : s.returned = some ret) (o : RecvOutcome) :
    step s o = none := by
  simp [step, h]

/-- The loop returns what a run of steps returns. -/
theorem receiveBytesLoop_of_run {consumed : List RecvOutcome} {ret : Bytes}
    (hs : s.returned = none) (hrun : Runs.run step s consumed = some s')
    (hret : s'.returned = some ret) (rest : List RecvOutcome) :
    receiveBytesLoop ((consumed ++ rest).map answer) s.arg s.ret s.requests =
      some ⟨ret, s'.requests, rest.map answer⟩ := by
  induction consumed generalizing s with
  | nil =>
      rw [Runs.run_nil, Option.some.injEq] at hrun
      subst hrun
      rw [hs] at hret
      cases hret
  | cons o consumed ih =>
      rw [Runs.run_cons, Option.bind_eq_some_iff] at hrun
      obtain ⟨t, ht, hrun⟩ := hrun
      rw [List.cons_append, List.map_cons, receiveBytesLoop_cons hs, ht, Option.bind_some]
      cases hreturned : t.returned with
      | none => exact ih hreturned hrun
      | some ret' =>
          -- the function has returned, and takes no further step
          cases consumed with
          | nil =>
              rw [Runs.run_nil, Option.some.injEq] at hrun
              subst hrun
              obtain rfl : ret' = ret := Option.some.inj (hreturned.symm.trans hret)
              rfl
          | cons o' consumed =>
              rw [Runs.run_cons, step_eq_none_of_returned hreturned, Option.bind_none] at hrun
              cases hrun

/-- What the call returns behind the outcomes it takes, `receiveBytes` returns. -/
theorem receiveBytes_of_run {buf : Memory} {consumed : List RecvOutcome} {ret : Bytes}
    (hrun : Runs.run step (start buf) consumed = some s) (hret : s.returned = some ret)
    (rest : List RecvOutcome) :
    receiveBytes ((consumed ++ rest).map answer) = some ⟨ret, s.requests, rest.map answer⟩ :=
  receiveBytesLoop_of_run rfl hrun hret rest

end ReceiveBytes

open ReceiveBytes in
/-- **`ReceiveBytes` returns what it consumed.** For every sequence of outcomes of `recv` and of
reports of `FIONREAD` in which the call gets no chunk that is larger than what it asked for. -/
theorem receiveBytes_exact (buf : Memory) {outcomes : List RecvOutcome}
    (hpossible : Possible outcomes) : Exact buf outcomes where
  goes hgoes := by
    obtain ⟨s, hrun, h⟩ := going_run buf hpossible hgoes
    exact ⟨s, hrun, h.running, h.requests⟩
  asks before o rest _ hbefore :=
    ⟨one_le_nextRequest hbefore, nextRequest_le_readBuffer before,
      fun _ => nextRequest_le_of_mem_lastReported⟩
  returns := by
    rintro before last rest rfl hbefore hlast
    obtain ⟨s, hrun, h⟩ := going_run buf hpossible.of_append hbefore
    obtain ⟨hstep, hreceived⟩ := h.received (hpossible.next hbefore)
    have hreturned := h.finish hreceived hlast
    have hall : Runs.run step (start buf) (before ++ [last]) = some (s.iterate last) := by
      rw [Runs.run_append, hrun, Option.bind_some, Runs.run_singleton, hstep]
    refine ⟨_, hall, hreturned, h.requests_of_received hreceived, ?_⟩
    rw [List.append_cons]
    exact receiveBytes_of_run hall hreturned rest
  empty := by
    rintro before last rest rfl hbefore hlast
    exact delivered_eq_nil_iff hbefore hlast

open ReceiveBytes in
/-- A call that is interrupted, gets three bytes, asks for the two that are available, and returns,
as nothing is available behind them. What comes later stays where it is. -/
theorem receiveBytes_exact_two_chunks :
    let outcomes : List RecvOutcome :=
      [.minusOne .eintr, .chunk 1 [2, 3] (some 2), .chunk 4 [5] (some 0), .chunk 6 [7, 8] none]
    Exact (fun _ => 0) outcomes ∧
      receiveBytes (outcomes.map answer) =
        some ⟨[1, 2, 3, 4, 5], [1024, 1024, 2], [.data 6 [7, 8] 0]⟩ := by
  intro outcomes
  have hexact : Exact (fun _ => 0) outcomes := receiveBytes_exact _ (by decide)
  obtain ⟨s, -, -, hrequests, hreturns⟩ :=
    hexact.returns [.minusOne .eintr, .chunk 1 [2, 3] (some 2)] (.chunk 4 [5] (some 0))
      [.chunk 6 [7, 8] none] rfl (by simp [GoesOn]) (by simp [GoesOn])
  rw [hrequests] at hreturns
  exact ⟨hexact, hreturns⟩

end AsabruEngine
