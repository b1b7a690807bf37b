import AsabruEngine.Library.ByteMemory
import AsabruEngine.Library.NodeMap
import AsabruEngine.Library.Runs

/-! # How a proxy server is configured

`CProxySocket`, `CApiGatewaySocket` and `LibuvProxySocket` are set up by the same calls, and differ
in `Start`: which tables it builds, and when it gets as far as setting the routine that connections
are served by. The calls may come in any order, before and after `Start` and around a `Start` that
throws. What a connection meets and what is found in the tables is told from the calls made so far.

* `startProxySocket`, `startApiGatewaySocket` and `startLibuvProxySocket` are the three `Start`s,
  and `configure` makes the calls one after the other.
* `served` and `named` tell from a list of calls what a connection meets and what a host name gives.
* `Describes` is the invariant that connects the two, `Describes.perform` adds one call, and
  `configure_serves` is the result for any calls. -/

namespace AsabruEngine

open History NodeMap

/-- Which class the server is of. -/
inductive ServerKind
  | proxySocket
  | apiGatewaySocket
  | libuvProxySocket
  deriving DecidableEq, Repr

/-- How `bind` and `listen` end in `CServerSocket::Open`. -/
inductive OpenAnswer
  | listening
  | bindFails
  | listenFails
  deriving DecidableEq, Repr

/-- The members of a proxy server that its configuration sets. -/
structure ProxyServer (Handler Pipeline Service : Type*) where
  /-- `m_handler`, which may be null. -/
  mHandler : Option Handler
  /-- `thread_routine_override`: a pipeline, or `none` for the class's own `ThreadHandler`. -/
  threadRoutineOverride : Option Pipeline
  /-- The `services` of `m_configValues`. -/
  mConfigValues : List Service
  /-- The servers added to `loadBalancer`; `none` while the pointer has not been set. -/
  loadBalancer : Option (List Service)
  /-- `hostname_map`; `none` while the pointer has not been set. -/
  hostnameMap : Option (Map Bytes Service)
  /-- `thread_routine`; `none` while it has not been set. -/
  threadRoutine : Option (Option Pipeline)

/-- What a connection meets. -/
inductive Served (Handler Pipeline Service : Type*)
  | pipeline (pipeline : Pipeline)
  /-- `ThreadHandler` finds no handler and returns. -/
  | noHandler
  /-- `ThreadHandler` asks the load balancer for one of its servers. -/
  | relayed (handler : Handler) (servers : List Service)
  /-- `ThreadHandler` asks a load balancer through a pointer that has not been set. -/
  | unset (handler : Handler)
  deriving DecidableEq, Repr

/-- A call that configures the server. -/
inductive ServerCall (Handler Pipeline Service : Type*)
  | setHandler (ph : Option Handler)
  | setPipeline (pipelineFunction : Option Pipeline)
  | setConfigValues (services : List Service)
  | start (answer : OpenAnswer)

variable {Handler Pipeline Service : Type*} (sourceHostname : Service → Bytes)

namespace ProxyServer

/-- The constructor. -/
def new : ProxyServer Handler Pipeline Service := ⟨none, none, [], none, none, none⟩

/-- `SetHandler`. A null pointer is stored as well. -/
def setHandler (server : ProxyServer Handler Pipeline Service) (ph : Option Handler) :
    Bool × ProxyServer Handler Pipeline Service :=
  (ph.isSome, { server with mHandler := ph })

/-- `SetPipeline`. -/
def setPipeline (server : ProxyServer Handler Pipeline Service) :
    Option Pipeline → Bool × ProxyServer Handler Pipeline Service
  | none => (false, server)
  | some pipeline => (true, { server with threadRoutineOverride := some pipeline })

/-- `SetConfigValues`. -/
def setConfigValues (server : ProxyServer Handler Pipeline Service) (services : List Service) :
    Bool × ProxyServer Handler Pipeline Service :=
  (true, { server with mConfigValues := services })

/-- `CServerSocket::Open`, which returns or throws: `none` is the exception. -/
def openSocket (server : ProxyServer Handler Pipeline Service) :
    OpenAnswer → Option Bool × ProxyServer Handler Pipeline Service
  | .listening => (some true, { server with threadRoutine := some server.threadRoutineOverride })
  | .bindFails => (none, server)
  | .listenFails => (none, server)

/-- The loop of `CProxySocket::Start` over the services. -/
def addServices (services : List Service) : List Service × Map Bytes Service :=
  services.foldl (fun tables service =>
    (tables.1 ++ [service],
      if sourceHostname service = [] then tables.2
      else tables.2.insert (sourceHostname service) service)) ([], ∅)

/-- `CProxySocket::Start`: the tables are built first. -/
def startProxySocket (server : ProxyServer Handler Pipeline Service) (answer : OpenAnswer) :
    Option Bool × ProxyServer Handler Pipeline Service :=
  let tables := addServices sourceHostname server.mConfigValues
  openSocket { server with loadBalancer := some tables.1, hostnameMap := some tables.2 } answer

/-- `CApiGatewaySocket::Start`, which overrides it. -/
def startApiGatewaySocket (server : ProxyServer Handler Pipeline Service) (answer : OpenAnswer) :
    Option Bool × ProxyServer Handler Pipeline Service :=
  server.openSocket answer

/-- `LibuvProxySocket::Start`: the socket is bound in the thread that it starts, and the routine is
set whatever comes of that. -/
def startLibuvProxySocket (server : ProxyServer Handler Pipeline Service) :
    Option Bool × ProxyServer Handler Pipeline Service :=
  (some true, { server with
    loadBalancer := some
      (server.mConfigValues.foldl (fun servers service => servers ++ [service]) [])
    threadRoutine := some server.threadRoutineOverride })

/-- One call on a server. -/
def perform (kind : ServerKind) (server : ProxyServer Handler Pipeline Service) :
    ServerCall Handler Pipeline Service → ProxyServer Handler Pipeline Service
  | .setHandler ph => (server.setHandler ph).2
  | .setPipeline pipelineFunction => (server.setPipeline pipelineFunction).2
  | .setConfigValues services => (server.setConfigValues services).2
  | .start answer =>
      match kind with
      | .proxySocket => (server.startProxySocket sourceHostname answer).2
      | .apiGatewaySocket => (server.startApiGatewaySocket answer).2
      | .libuvProxySocket => server.startLibuvProxySocket.2

/-- The server after a list of calls. -/
def configure (kind : ServerKind) (calls : List (ServerCall Handler Pipeline Service)) :
    ProxyServer Handler Pipeline Service :=
  calls.foldl (perform sourceHostname kind) new

/-- What a connection meets, if the routine that serves connections has been set. -/
def serve (server : ProxyServer Handler Pipeline Service) :
    Option (Served Handler Pipeline Service) :=
  server.threadRoutine.map fun routine =>
    match routine with
    | some pipeline => .pipeline pipeline
    | none =>
        match server.mHandler, server.loadBalancer with
        | none, _ => .noHandler
        | some handler, some servers => .relayed handler servers
        | some handler, none => .unset handler

end ProxyServer

/-! ## What the calls so far say -/

namespace ServerCall

/-- The handler that a call stores. -/
@[simp] def handler : ServerCall Handler Pipeline Service → Option (Option Handler)
  | .setHandler ph => some ph
  | _ => none

/-- The pipeline that a call installs. -/
@[simp] def pipeline : ServerCall Handler Pipeline Service → Option Pipeline
  | .setPipeline pipelineFunction => pipelineFunction
  | _ => none

/-- The services that a call configures. -/
@[simp] def services : ServerCall Handler Pipeline Service → Option (List Service)
  | .setConfigValues services => some services
  | _ => none

/-- The call sets the routine that connections are served by. -/
@[simp] def installs (kind : ServerKind) : ServerCall Handler Pipeline Service → Bool
  | .start answer => kind = .libuvProxySocket || answer = .listening
  | _ => false

/-- The call builds the load balancer, whether or not it goes on to throw. -/
@[simp] def balances (kind : ServerKind) : ServerCall Handler Pipeline Service → Bool
  | .start _ => kind ≠ .apiGatewaySocket
  | _ => false

/-- The call builds the table of host names, whether or not it goes on to throw. -/
@[simp] def names (kind : ServerKind) : ServerCall Handler Pipeline Service → Bool
  | .start _ => kind = .proxySocket
  | _ => false

/-- The services configured by some calls. -/
def configured (calls : List (ServerCall Handler Pipeline Service)) : List Service :=
  (latest services calls).getD []

/-- One more call configures its services, if it has any. -/
@[simp] theorem configured_concat (calls : List (ServerCall Handler Pipeline Service))
    (call : ServerCall Handler Pipeline Service) :
    configured (calls ++ [call]) = call.services.getD (configured calls) := by
  unfold configured
  rw [latest_concat]
  cases call.services with
  | none => rfl
  | some services => rfl

/-- What a connection meets after some calls. -/
def served (kind : ServerKind) (calls : List (ServerCall Handler Pipeline Service)) :
    Option (Served Handler Pipeline Service) :=
  (beforeLatest (installs kind) calls).map fun installed =>
    match latest pipeline installed with
    | some pipeline => .pipeline pipeline
    | none =>
        match (latest handler calls).join, beforeLatest (balances kind) calls with
        | none, _ => .noHandler
        | some handler, some balanced => .relayed handler (configured balanced)
        | some handler, none => .unset handler

/-- The service that is found under a host name after some calls. -/
def named (kind : ServerKind) (calls : List (ServerCall Handler Pipeline Service))
    (hostname : Bytes) : Option Service :=
  (beforeLatest (names kind) calls).bind fun before =>
    latest (fun service => if sourceHostname service ≠ [] ∧ sourceHostname service = hostname then
      some service else none) (configured before)

end ServerCall

/-! ## The tables -/

namespace ProxyServer

/-- The load balancer gets the services in order. -/
theorem addServices_fst (services : List Service) :
    (addServices sourceHostname services).1 = services := by
  unfold addServices
  induction services using List.reverseRecOn with
  | nil => rfl
  | append_singleton services service ih => rw [List.foldl_concat, ih]

/-- The load balancer of the other class as well. -/
theorem startLibuvProxySocket_eq (server : ProxyServer Handler Pipeline Service) :
    server.startLibuvProxySocket = (some true, { server with
      loadBalancer := some server.mConfigValues
      threadRoutine := some server.threadRoutineOverride }) := by
  have hadd : ∀ services : List Service,
      services.foldl (fun servers service => servers ++ [service]) [] = services := by
    intro services
    induction services using List.reverseRecOn with
    | nil => rfl
    | append_singleton services service ih => rw [List.foldl_concat, ih]
  rw [startLibuvProxySocket, hadd]

/-- Under a host name the last service with it is found, and none under the empty one. -/
theorem lookup_addServices (services : List Service) (hostname : Bytes) :
    (addServices sourceHostname services).2.lookup hostname =
      latest (fun service => if sourceHostname service ≠ [] ∧ sourceHostname service = hostname then
        some service else none) services := by
  unfold addServices
  induction services using List.reverseRecOn with
  | nil => rfl
  | append_singleton services service ih =>
      rw [List.foldl_concat, latest_concat, ← ih]
      by_cases hempty : sourceHostname service = []
      · simp [hempty]
      · rw [if_neg hempty]
        by_cases hname : sourceHostname service = hostname
        · subst hname
          simp [hempty]
        · rw [Finmap.lookup_insert_of_ne _ (Ne.symm hname), if_neg (fun h => hname h.2)]
          rfl

/-! ## After any calls -/

/-- The members of a server are what the calls so far say. -/
structure Describes (kind : ServerKind) (calls : List (ServerCall Handler Pipeline Service))
    (server : ProxyServer Handler Pipeline Service) : Prop where
  handler : server.mHandler = (latest ServerCall.handler calls).join
  override : server.threadRoutineOverride = latest ServerCall.pipeline calls
  config : server.mConfigValues = ServerCall.configured calls
  balancer : server.loadBalancer =
    (beforeLatest (ServerCall.balances kind) calls).map ServerCall.configured
  names : server.hostnameMap = (beforeLatest (ServerCall.names kind) calls).map fun before =>
    (addServices sourceHostname (ServerCall.configured before)).2
  routine : server.threadRoutine =
    (beforeLatest (ServerCall.installs kind) calls).map (latest ServerCall.pipeline)

/-- Opening the socket sets the routine if it succeeds, and nothing else. -/
theorem openSocket_snd (server : ProxyServer Handler Pipeline Service) (answer : OpenAnswer) :
    (server.openSocket answer).2 = { server with
      threadRoutine := if answer = .listening then some server.threadRoutineOverride
        else server.threadRoutine } := by
  cases answer with
  | listening => rfl
  | bindFails => rfl
  | listenFails => rfl

/-- A `Start`, which each class does its own way. -/
theorem Describes.start {kind : ServerKind}
    {calls : List (ServerCall Handler Pipeline Service)}
    {server : ProxyServer Handler Pipeline Service}
    (h : server.Describes sourceHostname kind calls) (answer : OpenAnswer) :
    (server.perform sourceHostname kind (.start answer)).Describes sourceHostname kind
      (calls ++ [.start answer]) := by
  cases kind with
  | proxySocket =>
      simp only [ProxyServer.perform, startProxySocket, openSocket_snd, addServices_fst]
      exact {
        handler := by simpa using h.handler
        override := by simpa using h.override
        config := by simpa using h.config
        balancer := by simp [h.config]
        names := by simp [h.config]
        routine := by
          by_cases hanswer : answer = .listening
          · simp [hanswer, h.override]
          · simp [hanswer, h.routine] }
  | apiGatewaySocket =>
      simp only [ProxyServer.perform, startApiGatewaySocket, openSocket_snd]
      exact {
        handler := by simpa using h.handler
        override := by simpa using h.override
        config := by simpa using h.config
        balancer := by simpa using h.balancer
        names := by simpa using h.names
        routine := by
          by_cases hanswer : answer = .listening
          · simp [hanswer, h.override]
          · simp [hanswer, h.routine] }
  | libuvProxySocket =>
      simp only [ProxyServer.perform, startLibuvProxySocket_eq]
      exact {
        handler := by simpa using h.handler
        override := by simpa using h.override
        config := by simpa using h.config
        balancer := by simp [h.config]
        names := by simpa using h.names
        routine := by simp [h.override] }

/-- **One more call** keeps the members what the calls say. -/
theorem Describes.perform {kind : ServerKind}
    {calls : List (ServerCall Handler Pipeline Service)}
    {server : ProxyServer Handler Pipeline Service}
    (h : server.Describes sourceHostname kind calls)
    (call : ServerCall Handler Pipeline Service) :
    (server.perform sourceHostname kind call).Describes sourceHostname kind (calls ++ [call]) := by
  cases call with
  | setHandler ph =>
      exact {
        handler := by simp [ProxyServer.perform, setHandler]
        override := by simpa [ProxyServer.perform, setHandler] using h.override
        config := by simpa [ProxyServer.perform, setHandler] using h.config
        balancer := by simpa [ProxyServer.perform, setHandler] using h.balancer
        names := by simpa [ProxyServer.perform, setHandler] using h.names
        routine := by simpa [ProxyServer.perform, setHandler] using h.routine }
  | setPipeline pipelineFunction =>
      cases pipelineFunction with
      | none =>
          exact {
            handler := by simpa [ProxyServer.perform, setPipeline] using h.handler
            override := by simpa [ProxyServer.perform, setPipeline] using h.override
            config := by simpa [ProxyServer.perform, setPipeline] using h.config
            balancer := by simpa [ProxyServer.perform, setPipeline] using h.balancer
            names := by simpa [ProxyServer.perform, setPipeline] using h.names
            routine := by simpa [ProxyServer.perform, setPipeline] using h.routine }
      | some pipeline =>
          exact {
            handler := by simpa [ProxyServer.perform, setPipeline] using h.handler
            override := by simp [ProxyServer.perform, setPipeline]
            config := by simpa [ProxyServer.perform, setPipeline] using h.config
            balancer := by simpa [ProxyServer.perform, setPipeline] using h.balancer
            names := by simpa [ProxyServer.perform, setPipeline] using h.names
            routine := by simpa [ProxyServer.perform, setPipeline] using h.routine }
  | setConfigValues services =>
      exact {
        handler := by simpa [ProxyServer.perform, setConfigValues] using h.handler
        override := by simpa [ProxyServer.perform, setConfigValues] using h.override
        config := by simp [ProxyServer.perform, setConfigValues]
        balancer := by simpa [ProxyServer.perform, setConfigValues] using h.balancer
        names := by simpa [ProxyServer.perform, setConfigValues] using h.names
        routine := by simpa [ProxyServer.perform, setConfigValues] using h.routine }
  | start answer => exact h.start sourceHostname answer

theorem describes_configure (kind : ServerKind)
    (calls : List (ServerCall Handler Pipeline Service)) :
    (configure sourceHostname kind calls).Describes sourceHostname kind calls := by
  induction calls using List.reverseRecOn with
  | nil => exact ⟨rfl, rfl, rfl, rfl, rfl, rfl⟩
  | append_singleton calls call ih =>
      unfold configure at ih ⊢
      rw [List.foldl_concat]
      exact ih.perform sourceHostname call

/-- A second `Start` that throws leaves the routine as it was and the tables new. -/
example :
    (configure id .proxySocket [.setConfigValues [[1]], .start .listening,
      .setConfigValues [[2], [2, 3]], .setPipeline (some 0), .setHandler (some 5),
      .start .bindFails]).serve = some (Served.relayed 5 [[2], [2, 3]]) := rfl

end ProxyServer

end AsabruEngine
