import AsabruEngine.Relay.Loop
import AsabruEngine.Server.Listener

/-! # What sessions give back

The listening thread accepts connections, and tasks on the pool run `CProxySocket::ThreadHandler`
for them, interleaved in any way. A session owns the accepted socket, the socket to its target and a
`SocketSelect` for each iteration, and deletes none of them: neither at the end of the function nor
where an exception leaves it, and `ClientThreadProc` deletes only the `CLIENT_DATA`.

* `threadHandler` is a task up to the loop, and `Server.step` lets a connection come in, starts a
  task or makes one iteration of one.
* `GivesBack` is what is to hold, and `Unfinished` the condition on what happens.
* `OpenInv` is the invariant of the runs in which no task comes to an end; `openInv_step` and
  `not_givesBack_step` are the two directions for one step, and `givesBack_iff_unfinished` for
  runs. -/

namespace AsabruEngine

open Resources

/-- What `requestServer` resolves: the target of a session. -/
structure ResolvedService where
  ipaddress : String
  port : ℤ
  deriving DecidableEq, Repr

/-- Where the task for an accepted connection is. -/
inductive Task
  /-- Pushed to the pool. -/
  | queued
  /-- In the relay loop, with the number of `SocketSelect` objects made in it. -/
  | relaying (targetSocket : CClientSocket) (session : Session) (selects : ℕ)
  /-- `ThreadHandler` is left; the target socket is there if it was made. -/
  | finished (targetSocket : Option CClientSocket)

namespace Task

/-- `ClientThreadProc` and `ThreadHandler` up to the loop. What `CClientSocket` throws is caught in
`ClientThreadProc`. -/
def threadHandler (process : Process) (handlerSet : Bool) (service : ResolvedService) (s : SOCKET)
    (answers : ConnectAnswers) : Task × Process :=
  if handlerSet then
    match CClientSocket.new process service.ipaddress service.port s answers with
    | (none, process) => (.finished none, process)
    | (some targetSocket, process) => (.relaying targetSocket Session.start 0, process)
  else (.finished none, process)

/-- One iteration of the loop, and the end of `ThreadHandler` behind the last one. -/
def iterate (it : Iteration) : Task → Option Task
  | relaying targetSocket session selects =>
      (session.step it).map fun session =>
        if session.running then relaying targetSocket session (selects + 1)
        else finished (some targetSocket)
  | _ => none

/-- The descriptors of a task that has not finished. -/
def descriptors (clientData : ClientData) : Task → List ℕ
  | queued => clientData.clientPort.toList
  | relaying targetSocket _ _ => clientData.clientPort.toList ++ targetSocket.s.toList
  | finished _ => []

end Task

/-- The listening thread, and where the task for each connection is, by its number. -/
structure Server where
  listener : ListenThread
  tasks : ℕ → Task

namespace Server

/-- What has been opened and closed. -/
def log (server : Server) : Log ℕ := server.listener.process.log

/-- What happens in a server. -/
inductive Op
  | accept (answer : AcceptAnswer)
  | startTask (k : ℕ) (handlerSet : Bool) (service : ResolvedService) (s : SOCKET)
      (answers : ConnectAnswers)
  | iterate (k : ℕ) (it : Iteration)

/-- The descriptors that `accept` and `socket` give. -/
def Op.descriptors : Op → List ℕ
  | accept answer => answer.accepted.toList
  | startTask _ _ _ s _ => s.toList
  | iterate _ _ => []

/-- The listener is set up, and nothing accepted yet. -/
def start (opened : Process) : Server := ⟨ListenThread.start opened, fun _ => .queued⟩

/-- One thing that happens, to a task that has been pushed where it happens to one. -/
def perform (info : NodeInfo) (server : Server) : Op → Option Server
  | .accept answer =>
      (server.listener.step info answer).map fun listener => { server with listener := listener }
  | .startTask k handlerSet service s answers =>
      match server.listener.tasks[k]?, server.tasks k with
      | some _, .queued =>
          let (task, process) :=
            Task.threadHandler server.listener.process handlerSet service s answers
          some ⟨{ server.listener with process := process }, Function.update server.tasks k task⟩
      | _, _ => none
  | .iterate k it =>
      ((server.tasks k).iterate it).map fun task =>
        { server with tasks := Function.update server.tasks k task }

/-- One thing that happens; the descriptors given in it are new. -/
def step (info : NodeInfo) (server : Server) (op : Op) : Option Server :=
  if ∀ fd ∈ op.descriptors, New server.log fd then server.perform info op else none

/-- What sessions have opened is closed when they finish, no session has two `SocketSelect` objects,
and what is open is what was open before the listener started and what belongs to a session that has
not finished. -/
structure GivesBack (opened : Process) (server : Server) : Prop where
  client : ∀ k clientData targetSocket fd, server.listener.tasks[k]? = some clientData →
    server.tasks k = .finished targetSocket → clientData.clientPort = some fd →
    ¬ Outstanding server.log fd
  target : ∀ k clientData targetSocket fd, server.listener.tasks[k]? = some clientData →
    server.tasks k = .finished (some targetSocket) → targetSocket.s = some fd →
    ¬ Outstanding server.log fd
  selects : ∀ k targetSocket session selects,
    server.tasks k = .relaying targetSocket session selects → selects ≤ 1
  outstanding : ∀ fd, Outstanding server.log fd ↔ Outstanding opened.log fd ∨
    ∃ k clientData, server.listener.tasks[k]? = some clientData ∧
      fd ∈ (server.tasks k).descriptors clientData

/-- The condition on what happens: no task finishes, and no session iterates twice. -/
def Unfinished (server : Server) : Op → Prop
  | .accept _ => True
  | .startTask _ handlerSet _ s answers =>
      handlerSet = true ∧ s ≠ none ∧ answers.resolves = true ∧ answers.connects = true
  | .iterate k it => (∀ peer, ¬ Session.Disconnects it peer) ∧
      ∀ targetSocket session selects, server.tasks k = .relaying targetSocket session selects →
        selects = 0

end Server

/-! ## One task -/

namespace Task

/-- A task enters the loop with a target socket of its own. -/
theorem threadHandler_of_succeeds (process : Process) {handlerSet : Bool}
    (service : ResolvedService) {s : SOCKET} {answers : ConnectAnswers}
    (h : handlerSet = true ∧ s ≠ none ∧ answers.resolves = true ∧ answers.connects = true) :
    ∃ targetSocket fd, s = some fd ∧ targetSocket.s = some fd ∧
      (threadHandler process handlerSet service s answers).1 =
        .relaying targetSocket Session.start 0 ∧
      (threadHandler process handlerSet service s answers).2.log =
        process.log ++ [.acquired fd] := by
  obtain ⟨hhandler, hmade⟩ := h
  rw [← CClientSocket.new_isSome_iff process service.ipaddress service.port,
    Option.isSome_iff_exists] at hmade
  obtain ⟨targetSocket, htarget⟩ := hmade
  have hopens := CClientSocket.opens_new process service.ipaddress service.port s answers
  rw [htarget] at hopens
  rcases hnew : CClientSocket.new process service.ipaddress service.port s answers with ⟨made, left⟩
  rw [hnew] at hopens htarget
  dsimp only at htarget
  subst htarget
  cases hopens with
  | refused _ noObject _ => cases noObject
  | kept fd valid made log _ _ =>
      have hs : targetSocket.toSocket = ⟨s, process.nextCounter⟩ := Option.some.inj made
      refine ⟨targetSocket, fd, valid, ?_, ?_, ?_⟩
      · rw [hs, valid]
      · simp [threadHandler, hhandler, hnew]
      · simpa [threadHandler, hhandler, hnew] using log
  | closed fd _ noObject _ => cases noObject

/-- A task that does not enter the loop leaves nothing new open. -/
theorem threadHandler_of_fails (process : Process) {handlerSet : Bool} (service : ResolvedService)
    {s : SOCKET} {answers : ConnectAnswers} (hnew : ∀ fd, s = some fd → New process.log fd)
    (h : ¬ (handlerSet = true ∧ s ≠ none ∧ answers.resolves = true ∧ answers.connects = true)) :
    (threadHandler process handlerSet service s answers).1 = .finished none ∧
      ∀ fd, Outstanding (threadHandler process handlerSet service s answers).2.log fd ↔
        Outstanding process.log fd := by
  cases handlerSet with
  | false => exact ⟨rfl, fun _ => Iff.rfl⟩
  | true =>
      rw [← CClientSocket.new_isSome_iff process service.ipaddress service.port] at h
      have hopens := CClientSocket.opens_new process service.ipaddress service.port s answers
      rcases hmade : CClientSocket.new process service.ipaddress service.port s answers with
        ⟨_ | targetSocket, left⟩
      · rw [hmade] at hopens
        refine ⟨by simp [threadHandler, hmade], fun fd => ?_⟩
        simp only [threadHandler, if_true, hmade]
        cases hopens with
        | refused _ _ log => rw [log]
        | kept fd _ made _ _ _ => cases made
        | closed fd' valid _ log =>
            rw [log]
            exact outstanding_acquire_release (hnew fd' valid) fd
      · simp [hmade] at h

/-- An iteration of a task. -/
theorem iterate_eq_some {it : Iteration} {task task' : Task} (h : task.iterate it = some task') :
    ∃ targetSocket session selects, task = .relaying targetSocket session selects ∧
      ((∃ peer, Session.Disconnects it peer) ∧ task' = .finished (some targetSocket) ∨
        (∀ peer, ¬ Session.Disconnects it peer) ∧
          ∃ session', task' = .relaying targetSocket session' (selects + 1)) := by
  cases task with
  | queued => cases h
  | relaying targetSocket session selects =>
      refine ⟨targetSocket, session, selects, rfl, ?_⟩
      obtain ⟨session', hstep, rfl⟩ := Option.map_eq_some_iff.mp h
      obtain ⟨-, -, hrunning⟩ := Session.step_eq_some hstep
      by_cases hleft : ∃ peer, Session.Disconnects it peer
      · refine Or.inl ⟨hleft, if_neg ?_⟩
        rw [hrunning]
        exact not_forall_not.mpr hleft
      · rw [not_exists] at hleft
        exact Or.inr ⟨hleft, session', if_pos (hrunning.mpr hleft)⟩
  | finished targetSocket => cases h

theorem mem_descriptors_of_clientPort {clientData : ClientData} {task : Task} {fd : ℕ}
    (h : ∀ targetSocket, task ≠ .finished targetSocket) (hfd : clientData.clientPort = some fd) :
    fd ∈ task.descriptors clientData := by
  cases task with
  | queued => simp [descriptors, hfd]
  | relaying targetSocket session selects => simp [descriptors, hfd]
  | finished targetSocket => exact absurd rfl (h targetSocket)

end Task

/-! ## The runs -/

namespace Server

/-- What a server keeps while no task finishes and no session iterates twice. -/
structure OpenInv (opened : Process) (server : Server) : Prop where
  unfinished : ∀ k targetSocket, server.tasks k ≠ .finished targetSocket
  selects : ∀ k targetSocket session selects,
    server.tasks k = .relaying targetSocket session selects →
      selects ≤ 1 ∧ ∃ clientData, server.listener.tasks[k]? = some clientData
  /-- The client descriptor of every task is open. -/
  client : ∀ (k : ℕ) (clientData : ClientData), server.listener.tasks[k]? = some clientData →
    ∃ fd, clientData.clientPort = some fd ∧ Outstanding server.log fd
  outstanding : ∀ fd, Outstanding server.log fd ↔ Outstanding opened.log fd ∨
    ∃ k clientData, server.listener.tasks[k]? = some clientData ∧
      fd ∈ (server.tasks k).descriptors clientData

theorem openInv_start (opened : Process) : (start opened).OpenInv opened :=
  ⟨nofun, nofun, fun k clientData h => by simp [start, ListenThread.start] at h,
    fun fd => by simp [start, ListenThread.start, log]⟩

theorem OpenInv.givesBack {opened : Process} {server : Server} (h : server.OpenInv opened) :
    server.GivesBack opened :=
  ⟨fun k _ targetSocket _ _ hfinished => absurd hfinished (h.unfinished k targetSocket),
    fun k _ targetSocket _ _ hfinished => absurd hfinished (h.unfinished k targetSocket),
    fun k targetSocket session selects hk => (h.selects k targetSocket session selects hk).1,
    h.outstanding⟩

/-- No task runs that has not been pushed. -/
theorem OpenInv.queued {opened : Process} {server : Server} (h : server.OpenInv opened) {k : ℕ}
    (hk : server.listener.tasks.length ≤ k) : server.tasks k = .queued := by
  cases htask : server.tasks k with
  | queued => rfl
  | relaying targetSocket session selects =>
      obtain ⟨-, clientData, hpushed⟩ := h.selects k targetSocket session selects htask
      rw [List.getElem?_eq_none hk] at hpushed
      cases hpushed
  | finished targetSocket => exact absurd htask (h.unfinished k targetSocket)

/-- What is in a queue behind a push. -/
theorem getElem?_push {tasks : List ClientData} {pushed clientData : ClientData} {k : ℕ} :
    (tasks ++ [pushed])[k]? = some clientData ↔
      tasks[k]? = some clientData ∨ k = tasks.length ∧ clientData = pushed := by
  rw [List.getElem?_append]
  split
  · rename_i hlt
    exact (or_iff_left fun h => hlt.ne h.1).symm
  · rename_i hle
    rw [List.getElem?_eq_none (not_lt.mp hle), List.getElem?_singleton]
    constructor
    · intro h
      split at h
      · cases h
        exact Or.inr ⟨by omega, rfl⟩
      · cases h
    · rintro (h | ⟨rfl, rfl⟩)
      · cases h
      · rw [if_pos (Nat.sub_self _)]

/-- A task is pushed for a connection whose descriptor has just been given. -/
theorem openInv_push {opened : Process} {server : Server} (h : server.OpenInv opened)
    {clientData : ClientData} {fd : ℕ} (hport : clientData.clientPort = some fd)
    (hnew : New server.log fd) {listener : ListenThread}
    (htasks : listener.tasks = server.listener.tasks ++ [clientData])
    (hlog : listener.process.log = server.log ++ [.acquired fd]) :
    OpenInv opened ⟨listener, server.tasks⟩ := by
  have htask : ∀ (k : ℕ) (data : ClientData), listener.tasks[k]? = some data ↔
      server.listener.tasks[k]? = some data ∨
        k = server.listener.tasks.length ∧ data = clientData := by
    intro k data
    rw [htasks]
    exact getElem?_push
  have houtstanding : ∀ fd', Outstanding (log ⟨listener, server.tasks⟩) fd' ↔
      fd' = fd ∨ Outstanding server.log fd' := by
    intro fd'
    rw [log, hlog]
    exact outstanding_acquire hnew fd'
  refine ⟨h.unfinished, ?_, ?_, ?_⟩
  · intro k targetSocket session selects hk
    obtain ⟨hle, data, hdata⟩ := h.selects k targetSocket session selects hk
    exact ⟨hle, data, (htask k data).mpr (Or.inl hdata)⟩
  · intro k data hk
    rcases (htask k data).mp hk with hk | ⟨-, rfl⟩
    · obtain ⟨fd', hport', hopen⟩ := h.client k data hk
      exact ⟨fd', hport', (houtstanding fd').mpr (Or.inr hopen)⟩
    · exact ⟨fd, hport, (houtstanding fd).mpr (Or.inl rfl)⟩
  · intro fd'
    rw [houtstanding, h.outstanding]
    constructor
    · rintro (rfl | hopened | ⟨k, data, hk, hfd⟩)
      · refine Or.inr ⟨_, clientData, (htask _ _).mpr (Or.inr ⟨rfl, rfl⟩), ?_⟩
        exact Task.mem_descriptors_of_clientPort (h.unfinished _) hport
      · exact Or.inl hopened
      · exact Or.inr ⟨k, data, (htask k data).mpr (Or.inl hk), hfd⟩
    · rintro (hopened | ⟨k, data, hk, hfd⟩)
      · exact Or.inr (Or.inl hopened)
      · rcases (htask k data).mp hk with hk | ⟨rfl, rfl⟩
        · exact Or.inr (Or.inr ⟨k, data, hk, hfd⟩)
        · -- nothing has been done for the task that has just been pushed
          dsimp only at hfd
          rw [h.queued le_rfl, Task.descriptors, hport] at hfd
          exact Or.inl (List.mem_singleton.mp hfd)

/-- A connection is accepted, or none. -/
theorem openInv_accept {opened : Process} {info : NodeInfo} {server : Server}
    (h : server.OpenInv opened) {answer : AcceptAnswer} {listener : ListenThread}
    (hnew : ∀ fd ∈ answer.accepted.toList, New server.log fd)
    (hstep : server.listener.step info answer = some listener) :
    OpenInv opened ⟨listener, server.tasks⟩ := by
  cases answer with
  | failed errno =>
      obtain ⟨-, htasks, hlog⟩ := ListenThread.step_failed hstep
      refine ⟨h.unfinished, ?_, ?_, ?_⟩
      · simpa only [htasks] using h.selects
      · simpa only [htasks, log, hlog] using h.client
      · simpa only [htasks, log, hlog] using h.outstanding
  | descriptor fd =>
      obtain ⟨clientData, hport, htasks, hlog⟩ := ListenThread.step_descriptor hstep
      exact openInv_push h hport (hnew fd (by simp [AcceptAnswer.accepted])) htasks hlog

/-- The descriptors of all tasks, where the task at `k` gets those that meet `P`. -/
theorem mem_descriptors_update {tasks : ℕ → Task} {queue : List ClientData} {k : ℕ}
    {clientData : ClientData} (hk : queue[k]? = some clientData) {task : Task} {fd : ℕ} {P : Prop}
    (htask : ∀ data, fd ∈ task.descriptors data ↔ fd ∈ (tasks k).descriptors data ∨ P) :
    (∃ j data, queue[j]? = some data ∧ fd ∈ (Function.update tasks k task j).descriptors data) ↔
      P ∨ ∃ j data, queue[j]? = some data ∧ fd ∈ (tasks j).descriptors data := by
  constructor
  · rintro ⟨j, data, hj, hmem⟩
    by_cases hjk : j = k
    · subst hjk
      rw [Function.update_self] at hmem
      rcases (htask data).mp hmem with hmem | hP
      · exact Or.inr ⟨j, data, hj, hmem⟩
      · exact Or.inl hP
    · rw [Function.update_of_ne hjk] at hmem
      exact Or.inr ⟨j, data, hj, hmem⟩
  · rintro (hP | ⟨j, data, hj, hmem⟩)
    · refine ⟨k, clientData, hk, ?_⟩
      rw [Function.update_self]
      exact (htask clientData).mpr (Or.inr hP)
    · refine ⟨j, data, hj, ?_⟩
      by_cases hjk : j = k
      · subst hjk
        rw [Function.update_self]
        exact (htask data).mpr (Or.inl hmem)
      · rw [Function.update_of_ne hjk]
        exact hmem

/-- A task is in the loop afterwards, with one `SocketSelect` at most; what was open stays open, and
nothing is opened but its target. -/
theorem openInv_relaying {opened : Process} {server : Server} (h : server.OpenInv opened) {k : ℕ}
    {clientData : ClientData} (hk : server.listener.tasks[k]? = some clientData)
    {targetSocket : CClientSocket} {session : Session} {selects : ℕ} (hselects : selects ≤ 1)
    (hkeeps : ∀ data fd, fd ∈ (Task.relaying targetSocket session selects).descriptors data ↔
      fd ∈ (server.tasks k).descriptors data ∨ targetSocket.s = some fd)
    {process : Process} (hopen : ∀ fd, Outstanding process.log fd ↔
      targetSocket.s = some fd ∨ Outstanding server.log fd) :
    OpenInv opened ⟨{ server.listener with process := process },
      Function.update server.tasks k (.relaying targetSocket session selects)⟩ := by
  refine ⟨?_, ?_, ?_, ?_⟩
  · intro j target hj
    dsimp only at hj
    rw [Function.update_apply] at hj
    split at hj
    · cases hj
    · exact h.unfinished j target hj
  · intro j target session' selects' hj
    dsimp only at hj
    rw [Function.update_apply] at hj
    split at hj
    · rename_i hjk
      subst hjk
      cases hj
      exact ⟨hselects, clientData, hk⟩
    · exact h.selects j target session' selects' hj
  · intro j data hj
    obtain ⟨fd, hport, hfd⟩ := h.client j data hj
    exact ⟨fd, hport, (hopen fd).mpr (Or.inr hfd)⟩
  · intro fd
    rw [log, hopen, h.outstanding]
    dsimp only
    rw [mem_descriptors_update hk fun data => hkeeps data fd]
    exact or_left_comm

theorem openInv_step {opened : Process} {info : NodeInfo} {server server' : Server} {op : Op}
    (h : server.OpenInv opened) (hC : server.Unfinished op)
    (hstep : server.step info op = some server') : server'.OpenInv opened := by
  rw [step, Option.ite_none_right_eq_some] at hstep
  obtain ⟨hnew, hstep⟩ := hstep
  cases op with
  | accept answer =>
      obtain ⟨listener, haccept, rfl⟩ := Option.map_eq_some_iff.mp hstep
      exact openInv_accept h hnew haccept
  | startTask k handlerSet service s answers =>
      rw [perform] at hstep
      split at hstep
      · rename_i clientData hk hqueued
        obtain ⟨targetSocket, fd, rfl, hfd, htask, hlog⟩ :=
          Task.threadHandler_of_succeeds server.listener.process service hC
        rcases hstart : Task.threadHandler server.listener.process handlerSet service (some fd)
            answers with ⟨task, process⟩
        rw [hstart] at hstep htask hlog
        cases hstep
        dsimp only at htask
        subst htask
        have houtstanding : ∀ fd', Outstanding process.log fd' ↔
            fd' = fd ∨ Outstanding server.log fd' := by
          intro fd'
          rw [hlog]
          exact outstanding_acquire (hnew fd (by simp [Op.descriptors])) fd'
        refine openInv_relaying h hk (Nat.zero_le 1) ?_ ?_
        · intro data fd'
          rw [hqueued]
          simp [Task.descriptors]
        · intro fd'
          rw [houtstanding, hfd, Option.some.injEq, eq_comm]
      · cases hstep
  | iterate k it =>
      obtain ⟨task, hiterate, rfl⟩ := Option.map_eq_some_iff.mp hstep
      obtain ⟨targetSocket, session, selects, hk, hleft | ⟨-, session', rfl⟩⟩ :=
        Task.iterate_eq_some hiterate
      · obtain ⟨peer, hpeer⟩ := hleft.1
        exact absurd hpeer (hC.1 peer)
      · obtain rfl := hC.2 targetSocket session selects hk
        obtain ⟨-, clientData, hpushed⟩ := h.selects k targetSocket session 0 hk
        refine openInv_relaying h hpushed (le_refl 1) ?_ ?_
        · intro data fd
          rw [hk]
          simp [Task.descriptors]
        · intro fd
          refine (or_iff_right_of_imp fun hs => ?_).symm
          refine (h.outstanding fd).mpr (Or.inr ⟨k, clientData, hpushed, ?_⟩)
          rw [hk]
          simp [Task.descriptors, hs]

/-- A task that finishes leaves the descriptor of its client open, and a second iteration a second
`SocketSelect`. -/
theorem not_givesBack_step {opened : Process} {info : NodeInfo} {server server' : Server} {op : Op}
    (h : server.OpenInv opened) (hC : ¬ server.Unfinished op)
    (hstep : server.step info op = some server') : ¬ server'.GivesBack opened := by
  intro hback
  rw [step, Option.ite_none_right_eq_some] at hstep
  obtain ⟨hnew, hstep⟩ := hstep
  cases op with
  | accept answer => exact hC trivial
  | startTask k handlerSet service s answers =>
      rw [perform] at hstep
      split at hstep
      · rename_i clientData hk hqueued
        obtain ⟨htask, hopen⟩ := Task.threadHandler_of_fails server.listener.process service
          (fun fd hs => hnew fd (by simp [Op.descriptors, hs])) hC
        obtain ⟨fd, hport, hfd⟩ := h.client k clientData hk
        rcases hstart : Task.threadHandler server.listener.process handlerSet service s answers with
          ⟨task, process⟩
        rw [hstart] at hstep htask hopen
        cases hstep
        dsimp only at htask
        subst htask
        exact hback.client k clientData none fd hk (Function.update_self _ _ _) hport
          ((hopen fd).mpr hfd)
      · cases hstep
  | iterate k it =>
      obtain ⟨task, hiterate, rfl⟩ := Option.map_eq_some_iff.mp hstep
      obtain ⟨targetSocket, session, selects, hk, ⟨-, rfl⟩ | ⟨hstays, session', rfl⟩⟩ :=
        Task.iterate_eq_some hiterate
      · obtain ⟨-, clientData, hpushed⟩ := h.selects k targetSocket session selects hk
        obtain ⟨fd, hport, hfd⟩ := h.client k clientData hpushed
        exact hback.client k clientData (some targetSocket) fd hpushed (Function.update_self _ _ _)
          hport hfd
      · have hone := hback.selects k targetSocket session' (selects + 1)
          (Function.update_self _ _ _)
        refine hC ⟨hstays, fun target' session'' selects' hk' => ?_⟩
        rw [hk] at hk'
        cases hk'
        omega

/-- **When sessions give back what they opened.** In a run of a server the sessions that have
finished have their descriptors closed, no session has two `SocketSelect` objects and nothing else
is open, in every state, exactly when no task finishes and no session iterates twice. -/
theorem givesBack_iff_unfinished (info : NodeInfo) (opened : Process) (ops : List Op) :
    Runs.Always (step info) (GivesBack opened) (start opened) ops ↔
      Runs.Along (step info) Unfinished (start opened) ops :=
  Runs.always_iff_along (step info) (I := OpenInv opened) (fun _ h => h.givesBack)
    (fun _ _ _ h hC hstep => openInv_step h hC hstep)
    (fun _ _ _ h hC hstep => not_givesBack_step h hC hstep) (openInv_start opened) ops

/-- One connection, for which the target cannot be reached: the exception is caught, and the
descriptor of the client stays open. -/
theorem not_givesBack_target_unreachable :
    ¬ Runs.Always (step ⟨[], 1, ⟨⟨some 3, 0⟩, 3500, 10⟩⟩) (GivesBack .empty) (start .empty)
      [.accept (.descriptor 4), .startTask 0 true ⟨"127.0.0.1", 9000⟩ (some 5) ⟨true, false⟩] := by
  intro h
  have hlast := Runs.Always.of_run _ h rfl
  refine hlast.client 0 _ none 4 rfl rfl rfl ?_
  exact ⟨by decide, by decide⟩

end Server

end AsabruEngine
