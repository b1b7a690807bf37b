import AsabruEngine.Library.Resources
import Mathlib.Data.Int.Basic

/-! # Socket objects

`Socket` objects point to reference counters on the heap, and `nofSockets_` counts all of them. The
constructors, the destructor and the two copies are functions on the `Process` they share.

* A `Socket` is a descriptor and the address of its counter. `new` and `ofDescriptor` construct one,
  `destructor`, `copy` and `assign` are the others.
* `Process` has the counters, `nofSockets_`, and the log of the descriptors opened and closed. The
  lemmas say of each function which counters it changes and what it adds to the log.
* The counters are `int`s in the source and integers here. The two are the same in every run with
  fewer than `2 ^ 31` constructions, copies and assignments, throwing constructions included. -/

namespace AsabruEngine

open Resources

/-- A `SOCKET`: a descriptor, or `none` for `INVALID_SOCKET`. -/
abbrev SOCKET := Option ℕ

/-- What all `Socket` objects share: the counters on the heap by their addresses, the address of the
next one, `nofSockets_`, and what `socket` and `CloseSocket` have been called for. -/
structure Process where
  counters : ℕ → ℤ
  nextCounter : ℕ
  nofSockets : ℤ
  log : Log ℕ

namespace Process

/-- No `Socket` object yet. -/
def empty : Process := ⟨fun _ => 0, 0, 0, []⟩

/-- `socket`, where it answers `s`. -/
def socket (process : Process) (s : SOCKET) : Process :=
  { process with log := process.log ++ s.toList.map .acquired }

/-- `CloseSocket`. -/
def closeSocket (process : Process) (s : SOCKET) : Process :=
  { process with log := process.log ++ s.toList.map .released }

/-- Add to the counter at an address. -/
def addToCounter (process : Process) (refCounter : ℕ) (n : ℤ) : Process :=
  { process with
    counters := Function.update process.counters refCounter (process.counters refCounter + n) }

@[simp] theorem socket_counters (process : Process) (s : SOCKET) :
    (process.socket s).counters = process.counters := rfl

@[simp] theorem socket_nextCounter (process : Process) (s : SOCKET) :
    (process.socket s).nextCounter = process.nextCounter := rfl

@[simp] theorem socket_nofSockets (process : Process) (s : SOCKET) :
    (process.socket s).nofSockets = process.nofSockets := rfl

@[simp] theorem releases_socket (process : Process) (s : SOCKET) (fd : ℕ) :
    releases (process.socket s).log fd = releases process.log fd := by
  cases s with
  | none => simp [socket]
  | some fd' => simp [socket]

@[simp] theorem closeSocket_counters (process : Process) (s : SOCKET) :
    (process.closeSocket s).counters = process.counters := rfl

@[simp] theorem closeSocket_nextCounter (process : Process) (s : SOCKET) :
    (process.closeSocket s).nextCounter = process.nextCounter := rfl

@[simp] theorem closeSocket_nofSockets (process : Process) (s : SOCKET) :
    (process.closeSocket s).nofSockets = process.nofSockets := rfl

@[simp] theorem releases_closeSocket (process : Process) (s : SOCKET) (fd : ℕ) :
    releases (process.closeSocket s).log fd =
      releases process.log fd + if s = some fd then 1 else 0 := by
  cases s with
  | none => simp [closeSocket]
  | some fd' => simp [closeSocket]

@[simp] theorem closeSocket_none (process : Process) : process.closeSocket none = process := by
  simp [closeSocket]

theorem acquired_mem_closeSocket {process : Process} {fd : ℕ} (h : .acquired fd ∈ process.log)
    (s : SOCKET) : .acquired fd ∈ (process.closeSocket s).log :=
  List.mem_append_left _ h

theorem addToCounter_counters (process : Process) (refCounter a : ℕ) (n : ℤ) :
    (process.addToCounter refCounter n).counters a =
      process.counters a + if refCounter = a then n else 0 := by
  by_cases h : a = refCounter
  · subst h
    simp [addToCounter]
  · simp [addToCounter, h, Ne.symm h]

end Process

/-- A `Socket` object; `refCounter_` is an address. -/
structure Socket where
  s : SOCKET
  refCounter : ℕ
  deriving DecidableEq, Repr

namespace Socket

/-- `Start`. -/
def start (process : Process) : Process :=
  { process with nofSockets := process.nofSockets + 1 }

/-- `refCounter_ = new int(1)`, for an object on `s`. -/
def withNewCounter (process : Process) (s : SOCKET) : Socket × Process :=
  (⟨s, process.nextCounter⟩,
    { process with
      counters := Function.update process.counters process.nextCounter 1
      nextCounter := process.nextCounter + 1 })

/-- `Socket()`, where `socket` answers `s`. The exception of `CreateSocket` leaves no object. -/
def new (process : Process) (s : SOCKET) : Option Socket × Process :=
  let process := (start process).socket s
  if s = none then (none, process)
  else
    let (object, process) := withNewCounter process s
    (some object, process)

/-- `Socket(SOCKET s)`. -/
def ofDescriptor (process : Process) (s : SOCKET) : Socket × Process :=
  withNewCounter (start process) s

/-- `Close`. -/
def close (this : Socket) (process : Process) : Process := process.closeSocket this.s

/-- `~Socket`. The counter that is deleted stays at zero, and `End` does nothing. -/
def destructor (this : Socket) (process : Process) : Process :=
  let process := process.addToCounter this.refCounter (-1)
  let process := if process.counters this.refCounter = 0 then this.close process else process
  { process with nofSockets := process.nofSockets - 1 }

theorem destructor_counters (this : Socket) (process : Process) (a : ℕ) :
    (this.destructor process).counters a =
      process.counters a - if this.refCounter = a then 1 else 0 := by
  have hadd := process.addToCounter_counters this.refCounter a (-1)
  rw [destructor]
  split
  · rw [close, Process.closeSocket_counters, hadd]
    split
    · rfl
    · simp
  · rw [hadd]
    split
    · rfl
    · simp

@[simp] theorem destructor_nextCounter (this : Socket) (process : Process) :
    (this.destructor process).nextCounter = process.nextCounter := by
  rw [destructor]
  split
  · rfl
  · rfl

@[simp] theorem destructor_nofSockets (this : Socket) (process : Process) :
    (this.destructor process).nofSockets = process.nofSockets - 1 := by
  rw [destructor]
  split
  · rfl
  · rfl

/-- The destructor closes the descriptor where the counter goes down to zero. -/
theorem destructor_log (this : Socket) (process : Process) :
    (this.destructor process).log =
      if process.counters this.refCounter = 1 then (this.close process).log else process.log := by
  have hzero : (process.addToCounter this.refCounter (-1)).counters this.refCounter = 0 ↔
      process.counters this.refCounter = 1 := by
    rw [Process.addToCounter_counters, if_pos rfl]
    omega
  rw [destructor]
  simp only [hzero]
  split
  · rfl
  · rfl

/-- An object without a descriptor closes none. -/
theorem close_of_invalid {this : Socket} (h : this.s = none) (process : Process) :
    this.close process = process := by
  rw [close, h, Process.closeSocket_none]

theorem destructor_log_of_invalid {this : Socket} (h : this.s = none) (process : Process) :
    (this.destructor process).log = process.log := by
  rw [destructor_log, close_of_invalid h, ite_self]

theorem acquired_mem_destructor (this : Socket) {process : Process} {fd : ℕ}
    (h : .acquired fd ∈ process.log) : .acquired fd ∈ (this.destructor process).log := by
  rw [destructor_log]
  split
  · exact Process.acquired_mem_closeSocket h this.s
  · exact h

theorem releases_destructor (this : Socket) (process : Process) (fd : ℕ) :
    releases (this.destructor process).log fd = releases process.log fd +
      if process.counters this.refCounter = 1 ∧ this.s = some fd then 1 else 0 := by
  rw [destructor_log]
  by_cases hlast : process.counters this.refCounter = 1
  · simp [hlast, close]
  · simp [hlast]

/-- `Socket(const Socket &o)`. -/
def copy (o : Socket) (process : Process) : Socket × Process :=
  let process := process.addToCounter o.refCounter 1
  (⟨o.s, o.refCounter⟩, { process with nofSockets := process.nofSockets + 1 })

/-- `operator=(const Socket &o)`. -/
def assign (this o : Socket) (process : Process) : Socket × Process :=
  let process := process.addToCounter o.refCounter 1
  ({ this with refCounter := o.refCounter, s := o.s },
    { process with nofSockets := process.nofSockets + 1 })

end Socket

end AsabruEngine
