import AsabruEngine.Library.Runs
import AsabruEngine.Socket.Derived
import AsabruEngine.Socket.Receive

/-! # The listening thread

`CServerSocket::ListenThreadProc` accepts connections for ever, and pushes a task for each of them.
`Accept` answers a failed `accept` with a null pointer or an exception, and the loop is ready for
neither.

`ListenThread.step` is one turn of the loop, and `Serves` what is to hold: the thread is in its loop
and has pushed one task for each descriptor. `step_descriptor` is the turn with a descriptor,
`step_failed` the one without, and `serves_iff_descriptors` says that the loop survives exactly the
turns of the first kind. -/

namespace AsabruEngine

/-- How one `accept` on the listening socket ends. -/
inductive AcceptAnswer
  | descriptor (fd : ℕ)
  | failed (errno : Errno)
  deriving DecidableEq, Repr

/-- The descriptor that is accepted, if one is. -/
def AcceptAnswer.accepted : AcceptAnswer → SOCKET
  | descriptor fd => some fd
  | failed _ => none

/-- What `Accept` gives its caller. -/
inductive Accepted
  /-- A pointer to a new object. -/
  | socket (object : Socket)
  /-- The null pointer. -/
  | null
  /-- An exception. -/
  | threw
  deriving DecidableEq, Repr

/-- `accept`, where it gives a descriptor. -/
def Process.accept (process : Process) (fd : ℕ) : Process :=
  { process with log := process.log ++ [.acquired fd] }

/-- `Accept`. -/
def CServerSocket.accept (process : Process) : AcceptAnswer → Accepted × Process
  | .descriptor fd =>
      let (object, process) := Socket.ofDescriptor (process.accept fd) (some fd)
      (.socket object, process)
  | .failed errno => if errno = .eagain then (.null, process) else (.threw, process)

/-- `NODE_INFO`: what the thread is started with. -/
structure NodeInfo where
  nodeInfo : Bytes
  mode : ℤ
  ptrToInstance : CServerSocket
  deriving DecidableEq, Repr

/-- `CLIENT_DATA`: what a task is pushed with. -/
structure ClientData where
  clientPort : SOCKET
  ptrToInstance : CServerSocket
  nodeInfo : Bytes
  mode : ℤ
  clientSocket : Socket
  deriving DecidableEq, Repr

/-- Where the listening thread is. -/
inductive ThreadStatus
  | inLoop
  /-- It has called a function on the null pointer. -/
  | dereferencedNull
  /-- An exception has left its function. -/
  | threw
  deriving DecidableEq, Repr

/-- The listening thread between two calls of `Accept`: the objects it has got from `Accept`, and
the tasks it has pushed. -/
structure ListenThread where
  process : Process
  accepted : List Socket
  tasks : List ClientData
  status : ThreadStatus

namespace ListenThread

/-- The loop is entered. -/
def start (process : Process) : ListenThread := ⟨process, [], [], .inLoop⟩

/-- One turn of the loop, if the thread is in it. -/
def step (info : NodeInfo) (thread : ListenThread) (answer : AcceptAnswer) :
    Option ListenThread :=
  if thread.status = .inLoop then
    match CServerSocket.accept thread.process answer with
    | (.socket newSock, process) =>
        let clientData : ClientData :=
          ⟨newSock.s, info.ptrToInstance, info.nodeInfo, info.mode, newSock⟩
        some ⟨process, thread.accepted ++ [newSock], thread.tasks ++ [clientData], .inLoop⟩
    -- `new_sock->GetSocket()`
    | (.null, process) => some { thread with process := process, status := .dereferencedNull }
    | (.threw, process) => some { thread with process := process, status := .threw }
  else none

/-- A turn with a descriptor pushes a task with it. -/
theorem step_descriptor {info : NodeInfo} {thread thread' : ListenThread} {fd : ℕ}
    (hstep : step info thread (.descriptor fd) = some thread') :
    ∃ clientData : ClientData, clientData.clientPort = some fd ∧
      thread'.tasks = thread.tasks ++ [clientData] ∧
      thread'.process.log = thread.process.log ++ [.acquired fd] := by
  rw [step] at hstep
  split at hstep
  · cases hstep
    exact ⟨_, rfl, rfl, rfl⟩
  · cases hstep

/-- A turn with a failure takes the thread out of its loop, and pushes nothing. -/
theorem step_failed {info : NodeInfo} {thread thread' : ListenThread} {errno : Errno}
    (hstep : step info thread (.failed errno) = some thread') :
    thread'.status ≠ .inLoop ∧ thread'.tasks = thread.tasks ∧
      thread'.process.log = thread.process.log := by
  rw [step] at hstep
  split at hstep
  · rw [CServerSocket.accept] at hstep
    by_cases heagain : errno = .eagain
    · rw [if_pos heagain] at hstep
      cases hstep
      exact ⟨ThreadStatus.noConfusion, rfl, rfl⟩
    · rw [if_neg heagain] at hstep
      cases hstep
      exact ⟨ThreadStatus.noConfusion, rfl, rfl⟩
  · cases hstep

/-- The thread is in its loop, and has pushed a task for each accepted descriptor, in order, with
the descriptor and with the object that `Accept` gave for it. -/
structure Serves (thread : ListenThread) (descriptors : List ℕ) : Prop where
  inLoop : thread.status = .inLoop
  sockets : thread.tasks.map (·.clientSocket) = thread.accepted
  ports : thread.tasks.map (·.clientPort) = descriptors.map some
  objects : thread.accepted.map (·.s) = descriptors.map some

theorem serves_start (process : Process) : (start process).Serves [] := ⟨rfl, rfl, rfl, rfl⟩

/-- A successful `accept` keeps the thread in its loop, with one task more. -/
theorem Serves.exists_step {thread : ListenThread} {descriptors : List ℕ}
    (h : thread.Serves descriptors) (info : NodeInfo) (fd : ℕ) :
    ∃ thread', step info thread (.descriptor fd) = some thread' ∧
      thread'.Serves (descriptors ++ [fd]) := by
  obtain ⟨hloop, hsockets, hports, hobjects⟩ := h
  refine ⟨_, if_pos hloop, rfl, ?_, ?_, ?_⟩
  · simp [hsockets]
  · simp [hports]
  · simp [hobjects]

/-- Out of its loop, the thread consumes no further answer. -/
theorem eq_nil_of_run {info : NodeInfo} {thread thread' : ListenThread}
    {answers : List AcceptAnswer} (hstatus : thread.status ≠ .inLoop)
    (hrun : Runs.run (step info) thread answers = some thread') : answers = [] := by
  cases answers with
  | nil => rfl
  | cons answer answers => simp [Runs.run_cons, step, hstatus] at hrun

/-- From a thread that serves, the answers lead to one that serves exactly if all are
descriptors. -/
theorem Serves.run_iff {thread : ListenThread} {descriptors : List ℕ}
    (h : thread.Serves descriptors) (info : NodeInfo) (answers : List AcceptAnswer) :
    (∃ thread', Runs.run (step info) thread answers = some thread' ∧
        thread'.Serves (descriptors ++ answers.filterMap (·.accepted))) ↔
      ∀ answer ∈ answers, ∃ fd, answer = .descriptor fd := by
  induction answers generalizing thread descriptors with
  | nil => simpa using h
  | cons answer answers ih =>
      cases answer with
      | descriptor fd =>
          obtain ⟨next, hnext, hserves⟩ := h.exists_step info fd
          have hrest := ih hserves
          rw [List.append_assoc, List.singleton_append] at hrest
          simp only [Runs.run_cons, hnext, Option.bind_some, List.forall_mem_cons, ← hrest]
          simp [AcceptAnswer.accepted]
      | failed errno =>
          refine iff_of_false ?_ ?_
          · rintro ⟨last, hrun, hserves⟩
            rw [Runs.run_cons, Option.bind_eq_some_iff] at hrun
            obtain ⟨next, hnext, hrun⟩ := hrun
            have hout := (step_failed hnext).1
            obtain rfl := eq_nil_of_run hout hrun
            cases hrun
            exact hout hserves.inLoop
          · intro hall
            obtain ⟨fd, hfd⟩ := hall _ List.mem_cons_self
            cases hfd

/-- **When the listener survives.** After a list of outcomes of `accept` the thread is in its loop,
and has pushed one task for each descriptor, in order, with that descriptor and its socket, exactly
when every outcome is a descriptor. -/
theorem serves_iff_descriptors (info : NodeInfo) (process : Process)
    (answers : List AcceptAnswer) :
    (∃ thread, Runs.run (step info) (start process) answers = some thread ∧
        thread.Serves (answers.filterMap (·.accepted))) ↔
      ∀ answer ∈ answers, ∃ fd, answer = .descriptor fd :=
  (serves_start process).run_iff info answers

/-- One connection is accepted, and then `accept` is interrupted: the exception leaves the
thread. -/
theorem not_serves_interrupted :
    let info : NodeInfo := ⟨[], 1, ⟨⟨some 3, 0⟩, 3500, 10⟩⟩
    let answers : List AcceptAnswer := [.descriptor 4, .failed .eintr]
    ¬ ∃ thread, Runs.run (step info) (start .empty) answers = some thread ∧
      thread.Serves (answers.filterMap (·.accepted)) := by
  rintro info answers ⟨thread, hrun, hserves⟩
  cases hrun
  cases hserves.inLoop

end ListenThread

end AsabruEngine
