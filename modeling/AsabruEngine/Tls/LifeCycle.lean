import AsabruEngine.Tls.SslSocket

/-! # The life cycle of the TLS handles

A lifetime constructs a TLS socket, calls `ReceiveBytes` and `Close` on it, and destroys it, where
the constructor returns. Every clean-up path frees both handles, whether they have been created or
freed before or not, and the paths meet.

* `TlsLifetime.log` is the log of a lifetime, to be `Orderly`; `KeepsHandles` is the condition.
* `TlsOpen` says that both handles are there and in order, and `TlsOpen.orderly_iff` what the calls
  and the destructor make of that. `orderly_init_iff` and `orderly_connect_iff` decide the
  constructors.
* `orderly_iff_keepsHandles` is the result, for every lifetime. -/

namespace AsabruEngine

open Resources

/-- How a TLS socket is made. -/
inductive TlsConstruction
  | sslSocket (s : SOCKET) (method : SslMethod) (init : InitAnswers)
  /-- `SSLSocket(s, method)`, on a descriptor. -/
  | sslSocketOn (method : SslMethod) (init : InitAnswers)
  | clientSslSocket (s : SOCKET) (serverName : String) (init : InitAnswers) (tcp : ConnectAnswers)
      (answers : SslConnectAnswers)
  /-- `CClientSSLSocket(s, server_name, server_port)`, on a descriptor. -/
  | clientSslSocketOn (init : InitAnswers) (answers : SslConnectAnswers)

/-- What is called on a TLS socket before it is destroyed. -/
inductive TlsCall
  | receiveBytes (reads : SslReads)
  | close

/-- From the constructor to the destructor of one TLS socket. -/
structure TlsLifetime where
  construction : TlsConstruction
  calls : List TlsCall

/-- The constructor. -/
def TlsConstruction.run : TlsConstruction → TlsRun
  | sslSocket s method init => SSLSocket.new s method init
  | sslSocketOn method init => SSLSocket.init method init
  | clientSslSocket s serverName init tcp answers =>
      CClientSSLSocket.new s serverName init tcp answers
  | clientSslSocketOn init answers => CClientSSLSocket.ofDescriptor init answers

/-- The calls of OpenSSL that a call makes. -/
def TlsCall.log : TlsCall → Log TlsHandle
  | receiveBytes reads => (SSLSocket.receiveBytes reads []).2
  | close => SSLSocket.close

/-- The constructor, the calls and the destructor. Where the constructor does not return, there is
no object to call or to destroy. -/
def TlsRun.lifetime (made : TlsRun) (calls : List TlsCall) : Log TlsHandle :=
  match made.ended with
  | .returned => made.log ++ (calls.flatMap TlsCall.log ++ SSLSocket.destructor)
  | _ => made.log

/-- The calls of OpenSSL in a lifetime. -/
def TlsLifetime.log (lifetime : TlsLifetime) : Log TlsHandle :=
  lifetime.construction.run.lifetime lifetime.calls

/-! ## The calls on a socket -/

/-- The call does not free the handles. -/
def TlsCall.KeepsOpen : TlsCall → Prop
  | receiveBytes reads => reads.error ≠ some .zeroReturn
  | close => False

/-- `ReceiveBytes` uses the socket, and closes it at the end of the data. -/
theorem SSLSocket.receiveBytes_log (reads : SslReads) (ret : Bytes) :
    ∃ uses, (∀ e ∈ uses, e = Event.used TlsHandle.ssl) ∧ (receiveBytes reads ret).2 =
      uses ++ if reads.error = some .zeroReturn then close else [] := by
  induction reads generalizing ret with
  | more bytes pending reads ih =>
      obtain ⟨uses, huses, hlog⟩ := ih (ret ++ bytes)
      refine ⟨[.used .ssl, .used .ssl] ++ uses, ?_, ?_⟩
      · intro e he
        rcases List.mem_append.mp he with he | he
        · simpa using he
        · exact huses e he
      · rw [receiveBytes, SslReads.error]
        dsimp only
        rw [hlog, List.append_assoc]
  | drained bytes =>
      exact ⟨[.used .ssl, .used .ssl], by simp, by simp [receiveBytes, SslReads.error]⟩
  | failed error =>
      refine ⟨[.used .ssl, .used .ssl], by simp, ?_⟩
      simp [receiveBytes, SslReads.error]

namespace TlsCall

/-- A call that keeps the handles only uses the socket. -/
theorem KeepsOpen.uses {call : TlsCall} (h : call.KeepsOpen) :
    ∀ e ∈ call.log, e = .used .ssl := by
  cases call with
  | receiveBytes reads =>
      obtain ⟨uses, huses, hlog⟩ := SSLSocket.receiveBytes_log reads []
      rw [if_neg h, List.append_nil] at hlog
      rw [log, hlog]
      exact huses
  | close => exact h.elim

/-- Any other one frees the socket. -/
theorem released_mem_of_not_keepsOpen {call : TlsCall} (h : ¬ call.KeepsOpen) :
    .released .ssl ∈ call.log := by
  cases call with
  | receiveBytes reads =>
      obtain ⟨uses, -, hlog⟩ := SSLSocket.receiveBytes_log reads []
      rw [KeepsOpen, not_not] at h
      rw [log, hlog, if_pos h]
      exact List.mem_append_right _ (by decide)
  | close => decide

/-- No call creates a handle. -/
theorem acquired_notMem_log (call : TlsCall) (handle : TlsHandle) :
    .acquired handle ∉ call.log := by
  cases call with
  | receiveBytes reads =>
      obtain ⟨uses, huses, hlog⟩ := SSLSocket.receiveBytes_log reads []
      rw [log, hlog, List.mem_append, not_or]
      refine ⟨fun hmem => ?_, ?_⟩
      · cases huses _ hmem
      · split
        · cases handle with
          | ctx => decide
          | ssl => decide
        · exact List.not_mem_nil
  | close =>
      cases handle with
      | ctx => decide
      | ssl => decide

end TlsCall

/-! ## Behind the constructor -/

/-- Both handles have been created, and all calls have been in order. -/
structure TlsOpen (log : Log TlsHandle) : Prop where
  disciplined : DisciplinedAfter [] log
  outstanding : ∀ handle, Outstanding log handle

theorem disciplinedAfter_destructor {past : Log TlsHandle}
    (h : ∀ handle, Outstanding past handle) : DisciplinedAfter past SSLSocket.destructor := by
  have hused : ∀ handle, Outstanding (past ++ [.used .ssl]) handle :=
    fun handle => (h handle).append_used fun e he => List.mem_singleton.mp he
  refine ⟨h .ssl, hused .ssl, ⟨?_, ?_⟩, trivial⟩
  · exact List.mem_append_left _ (hused .ctx).1
  · simpa using (hused .ctx).2

/-- An open socket is destroyed in order exactly if no call has freed its handles. -/
theorem TlsOpen.orderly_iff {log : Log TlsHandle} (h : TlsOpen log) (calls : List TlsCall) :
    Orderly (TlsRun.lifetime ⟨log, .returned⟩ calls) ↔ ∀ call ∈ calls, call.KeepsOpen := by
  show Orderly (log ++ (calls.flatMap TlsCall.log ++ SSLSocket.destructor)) ↔ _
  constructor
  · intro horderly call hcall
    by_contra hcloses
    -- one release by the call, and one by the destructor
    have hone := horderly.released .ssl (List.mem_append_left _ (h.outstanding .ssl).1)
    have hreleased : .released .ssl ∈ calls.flatMap TlsCall.log :=
      List.mem_flatMap.mpr ⟨call, hcall, TlsCall.released_mem_of_not_keepsOpen hcloses⟩
    have hpos := releases_pos_iff.mpr hreleased
    have hlast : releases SSLSocket.destructor .ssl = 1 := by decide
    rw [releases_append, releases_append, hlast] at hone
    omega
  · intro hkeeps
    have huses : ∀ e ∈ calls.flatMap TlsCall.log, e = .used .ssl := by
      intro e he
      obtain ⟨call, hcall, he⟩ := List.mem_flatMap.mp he
      exact (hkeeps call hcall).uses e he
    have hopen : ∀ handle, Outstanding (log ++ calls.flatMap TlsCall.log) handle :=
      fun handle => (h.outstanding handle).append_used huses
    rw [← List.append_assoc]
    refine ⟨?_, fun handle _ => ?_⟩
    · rw [disciplinedAfter_append, disciplinedAfter_append]
      exact ⟨⟨h.disciplined, disciplinedAfter_used (h.outstanding .ssl) huses⟩,
        disciplinedAfter_destructor hopen⟩
    · rw [releases_append, releases_eq_zero_iff.mpr (hopen handle).2]
      cases handle with
      | ctx => decide
      | ssl => decide

/-- A socket without an `SSL` handle is never destroyed in order. -/
theorem not_orderly_of_no_ssl {log : Log TlsHandle} (h : .acquired .ssl ∉ log)
    (calls : List TlsCall) : ¬ Orderly (TlsRun.lifetime ⟨log, .returned⟩ calls) := by
  intro horderly
  have hused : .used .ssl ∈ calls.flatMap TlsCall.log ++ SSLSocket.destructor :=
    List.mem_append_right _ (by decide)
  have hacquired : .acquired .ssl ∈ log ++ (calls.flatMap TlsCall.log ++ SSLSocket.destructor) :=
    horderly.disciplined.acquired_of_used (List.mem_append_right log hused)
  rw [List.mem_append, List.mem_append, List.mem_flatMap] at hacquired
  rcases hacquired with hlog | ⟨call, -, hcall⟩ | hlast
  · exact h hlog
  · exact call.acquired_notMem_log .ssl hcall
  · revert hlast
    decide

/-! ## The constructors -/

/-- The environment variables are set, and the certificate and the key are read. -/
def InitAnswers.ServerConfigured (init : InitAnswers) : Prop :=
  init.certFilePath = true ∧ init.keyFilePath = true ∧ init.certificate = true ∧
    init.privateKey = true

/-- The context of a client is set up. -/
def InitAnswers.ClientConfigured (init : InitAnswers) : Prop :=
  init.verifyPaths = true ∧ init.minProtoVersion = true

/-- `SSLConnect` returns. -/
def SslConnectAnswers.Succeeds (answers : SslConnectAnswers) : Prop :=
  answers.hostName = true ∧ answers.set1Host = true ∧ answers.connect = true

/-- The condition on an `SSLSocket`: there is no context, or it is a configured server whose
handshake fails, or that is not closed before it is destroyed. -/
def SslSocketOrderly (method : SslMethod) (init : InitAnswers) (calls : List TlsCall) : Prop :=
  init.ctxNew = false ∨ (method = .server ∧ init.ServerConfigured ∧
    (init.accept = false ∨ ∀ call ∈ calls, call.KeepsOpen))

/-- A server with a context is in order if it is configured, and its handshake fails or no call
frees its handles. -/
theorem orderly_init_server_iff {init : InitAnswers} (hctx : init.ctxNew = true)
    (calls : List TlsCall) :
    Orderly ((SSLSocket.init .server init).lifetime calls) ↔
      init.ServerConfigured ∧ (init.accept = false ∨ ∀ call ∈ calls, call.KeepsOpen) := by
  rcases init with ⟨ctxNew, certFilePath, keyFilePath, certificate, privateKey, accept, verifyPaths,
    minProtoVersion⟩
  obtain rfl : ctxNew = true := hctx
  rw [InitAnswers.ServerConfigured]
  cases certFilePath with
  | false =>
      show Orderly ([.acquired .ctx] : Log TlsHandle) ↔ _
      exact iff_of_false (by decide) (by simp)
  | true =>
  cases keyFilePath with
  | false =>
      show Orderly ([.acquired .ctx] : Log TlsHandle) ↔ _
      exact iff_of_false (by decide) (by simp)
  | true =>
  cases certificate with
  | false =>
      show Orderly ([.acquired .ctx, .used .ctx, .used .ctx] : Log TlsHandle) ↔ _
      exact iff_of_false (by decide) (by simp)
  | true =>
  cases privateKey with
  | false =>
      show Orderly ([.acquired .ctx, .used .ctx, .used .ctx, .used .ctx] : Log TlsHandle) ↔ _
      exact iff_of_false (by decide) (by simp)
  | true =>
  cases accept with
  | false =>
      show Orderly ([.acquired .ctx, .used .ctx, .used .ctx, .used .ctx] ++
        (SSLSocket.openSsl ++ [.used .ssl] ++ SSLSocket.handleError)) ↔ _
      exact iff_of_true (by decide) (by simp)
  | true =>
      have hopen : TlsOpen ([.acquired .ctx, .used .ctx, .used .ctx, .used .ctx] ++
          (SSLSocket.openSsl ++ [.used .ssl])) := ⟨by decide, by decide⟩
      refine (hopen.orderly_iff calls).trans ?_
      simp

/-- A client with a context is not: it has no `SSL` handle, or frees one that it does not have. -/
theorem not_orderly_init_client {init : InitAnswers} (hctx : init.ctxNew = true)
    (calls : List TlsCall) : ¬ Orderly ((SSLSocket.init .client init).lifetime calls) := by
  rcases init with ⟨ctxNew, certFilePath, keyFilePath, certificate, privateKey, accept, verifyPaths,
    minProtoVersion⟩
  obtain rfl : ctxNew = true := hctx
  cases verifyPaths with
  | false =>
      show ¬ Orderly ([.acquired .ctx, .used .ctx, .used .ctx] ++ SSLSocket.handleError)
      decide
  | true =>
  cases minProtoVersion with
  | false =>
      show ¬ Orderly ([.acquired .ctx, .used .ctx, .used .ctx, .used .ctx] ++
        SSLSocket.handleError)
      decide
  | true =>
      have hlog : .acquired .ssl ∉
        ([.acquired .ctx, .used .ctx, .used .ctx, .used .ctx] : Log TlsHandle) := by decide
      exact not_orderly_of_no_ssl hlog calls

/-- Without a client's or a server's method the `SSL` handle is never made. -/
theorem not_orderly_init_other {init : InitAnswers} (hctx : init.ctxNew = true)
    (calls : List TlsCall) : ¬ Orderly ((SSLSocket.init .other init).lifetime calls) := by
  have hlog : .acquired .ssl ∉ ([.acquired .ctx] : Log TlsHandle) := by decide
  rw [SSLSocket.init, SSLSocket.createContext, if_pos hctx]
  exact not_orderly_of_no_ssl hlog calls

theorem orderly_init_iff (method : SslMethod) (init : InitAnswers) (calls : List TlsCall) :
    Orderly ((SSLSocket.init method init).lifetime calls) ↔
      SslSocketOrderly method init calls := by
  by_cases hctx : init.ctxNew = true
  · rw [SslSocketOrderly, or_iff_right (by simp [hctx])]
    cases method with
    | server => rw [orderly_init_server_iff hctx, and_iff_right rfl]
    | client => exact iff_of_false (not_orderly_init_client hctx calls) (by simp)
    | other => exact iff_of_false (not_orderly_init_other hctx calls) (by simp)
  · -- without a context nothing is made
    rw [Bool.not_eq_true] at hctx
    have hlog : (SSLSocket.init method init).lifetime calls = [] := by
      simp [SSLSocket.init, SSLSocket.createContext, hctx, TlsRun.lifetime, TlsRun.andThen]
    rw [hlog]
    exact iff_of_true (by decide) (Or.inl hctx)

/-- The `SSLSocket` base of a client that is set up. -/
def clientBase : Log TlsHandle := [.acquired .ctx, .used .ctx, .used .ctx, .used .ctx]

theorem init_client_of_configured {init : InitAnswers} (hctx : init.ctxNew = true)
    (hinit : init.ClientConfigured) : SSLSocket.init .client init = ⟨clientBase, .returned⟩ := by
  simp [SSLSocket.init, SSLSocket.createContext, SSLSocket.configureClientContext, hctx, hinit.1,
    hinit.2, clientBase]

/-- The base of any other client throws. -/
theorem init_client_threw {init : InitAnswers}
    (h : ¬ (init.ctxNew = true ∧ init.ClientConfigured)) :
    (SSLSocket.init .client init).ended = .threw := by
  rw [SSLSocket.init, SSLSocket.createContext]
  split
  · rename_i hctx
    rw [TlsRun.andThen_returned, SSLSocket.configureClientContext]
    split
    · rfl
    · rename_i hverify
      split
      · rfl
      · rename_i hproto
        exact absurd ⟨hctx, by simpa using hverify, by simpa using hproto⟩ h
  · rfl

/-- A client is told by its body, where its base is set up. -/
theorem orderly_client_iff (init : InitAnswers) (body : TlsRun) (calls : List TlsCall) :
    Orderly (((SSLSocket.init .client init).andThen body).lifetime calls) ↔
      init.ctxNew = false ∨ (init.ClientConfigured ∧
        Orderly ((TlsRun.andThen ⟨clientBase, .returned⟩ body).lifetime calls)) := by
  by_cases hbase : init.ctxNew = true ∧ init.ClientConfigured
  · rw [init_client_of_configured hbase.1 hbase.2, or_iff_right (by simp [hbase.1]),
      and_iff_right hbase.2]
  · have hthrew := init_client_threw hbase
    have hskip : (SSLSocket.init .client init).andThen body = SSLSocket.init .client init := by
      rw [TlsRun.andThen, hthrew]
    rw [hskip, orderly_init_iff, SslSocketOrderly]
    constructor
    · rintro (hctx | ⟨hmethod, -⟩)
      · exact Or.inl hctx
      · cases hmethod
    · rintro (hctx | ⟨hinit, -⟩)
      · exact Or.inl hctx
      · rw [and_iff_left hinit, Bool.not_eq_true] at hbase
        exact Or.inl hbase

/-- `SSLConnect` in the constructor of a client. -/
theorem orderly_sslConnect_iff (answers : SslConnectAnswers) (calls : List TlsCall) :
    Orderly (TlsRun.lifetime (TlsRun.andThen ⟨clientBase, .returned⟩
        ((CClientSSLSocket.sslConnect answers).unwindThrough SSLSocket.destructor)) calls) ↔
      answers.Succeeds ∧ ∀ call ∈ calls, call.KeepsOpen := by
  rcases answers with ⟨hostName, set1Host, connect⟩
  rw [SslConnectAnswers.Succeeds]
  -- where a call fails, the destructor frees what `handle_error` has freed
  cases hostName with
  | false =>
      show Orderly (clientBase ++ (SSLSocket.openSsl ++ [.used .ssl] ++ SSLSocket.handleError ++
        SSLSocket.destructor)) ↔ _
      exact iff_of_false (by decide) (by simp)
  | true =>
  cases set1Host with
  | false =>
      show Orderly (clientBase ++ (SSLSocket.openSsl ++ [.used .ssl, .used .ssl] ++
        SSLSocket.handleError ++ SSLSocket.destructor)) ↔ _
      exact iff_of_false (by decide) (by simp)
  | true =>
  cases connect with
  | false =>
      show Orderly (clientBase ++ (SSLSocket.openSsl ++ [.used .ssl, .used .ssl, .used .ssl] ++
        SSLSocket.handleError ++ SSLSocket.destructor)) ↔ _
      exact iff_of_false (by decide) (by simp)
  | true =>
      have hopen : TlsOpen (clientBase ++
          (SSLSocket.openSsl ++ [.used .ssl, .used .ssl, .used .ssl, .used .ssl])) :=
        ⟨by decide, by decide⟩
      refine (hopen.orderly_iff calls).trans ?_
      simp

/-- `Connect` in the constructor of a client. -/
theorem orderly_connect_iff (serverName : String) (tcp : ConnectAnswers)
    (answers : SslConnectAnswers) (calls : List TlsCall) :
    Orderly ((TlsRun.andThen ⟨clientBase, .returned⟩
        ((CClientSSLSocket.connect serverName tcp answers).unwindThrough
          SSLSocket.destructor)).lifetime calls) ↔
      tcp.resolves = true ∧ tcp.connects = true ∧ answers.Succeeds ∧
        ∀ call ∈ calls, call.KeepsOpen := by
  -- an exception before `SSL_new` leads the destructor to a handle that is not there
  have hthrew : ¬ Orderly (clientBase ++ ([] ++ SSLSocket.destructor)) := by decide
  rcases tcp with ⟨resolves, connects⟩
  rw [CClientSSLSocket.connect, CClientSSLSocket.tcpConnect, CClientSSLSocket.resolve]
  cases resolves with
  | false =>
      refine iff_of_false ?_ (by simp)
      cases CClientSocket.isName serverName with
      | true => exact hthrew
      | false =>
          show ¬ Orderly (clientBase ++ [])
          decide
  | true =>
  cases connects with
  | false => exact iff_of_false hthrew (by simp)
  | true =>
      rw [and_iff_right rfl, and_iff_right rfl, ← orderly_sslConnect_iff]
      rfl

/-! ## The lifetimes -/

namespace TlsLifetime

/-- The condition on a lifetime: the constructor throws before there is a handle, or the socket is
set up as far as its destructor or its one clean-up goes, and not closed before it is destroyed. -/
def KeepsHandles : TlsLifetime → Prop
  | ⟨.sslSocket s method init, calls⟩ => s = none ∨ SslSocketOrderly method init calls
  | ⟨.sslSocketOn method init, calls⟩ => SslSocketOrderly method init calls
  | ⟨.clientSslSocket s _ init tcp answers, calls⟩ =>
      s = none ∨ init.ctxNew = false ∨ (init.ClientConfigured ∧ tcp.resolves = true ∧
        tcp.connects = true ∧ answers.Succeeds ∧ ∀ call ∈ calls, call.KeepsOpen)
  | ⟨.clientSslSocketOn init answers, calls⟩ =>
      init.ctxNew = false ∨
        (init.ClientConfigured ∧ answers.Succeeds ∧ ∀ call ∈ calls, call.KeepsOpen)

/-- **When the handles have an orderly life.** In a lifetime no handle is passed to OpenSSL before
it is created or after it is freed, and each handle created is freed once, exactly when the lifetime
meets its condition. -/
theorem orderly_iff_keepsHandles (lifetime : TlsLifetime) :
    Orderly lifetime.log ↔ lifetime.KeepsHandles := by
  have hnothing : Orderly ([] : Log TlsHandle) := by decide
  obtain ⟨construction, calls⟩ := lifetime
  cases construction with
  | sslSocket s method init =>
      show Orderly ((SSLSocket.new s method init).lifetime calls) ↔ _
      rw [SSLSocket.new, KeepsHandles]
      split
      · rename_i hs
        exact iff_of_true hnothing (Or.inl hs)
      · rename_i hs
        rw [or_iff_right hs]
        exact orderly_init_iff method init calls
  | sslSocketOn method init => exact orderly_init_iff method init calls
  | clientSslSocket s serverName init tcp answers =>
      show Orderly ((CClientSSLSocket.new s serverName init tcp answers).lifetime calls) ↔ _
      rw [CClientSSLSocket.new, SSLSocket.new, KeepsHandles]
      split
      · rename_i hs
        exact iff_of_true hnothing (Or.inl hs)
      · rename_i hs
        rw [or_iff_right hs, orderly_client_iff, orderly_connect_iff]
  | clientSslSocketOn init answers =>
      show Orderly ((CClientSSLSocket.ofDescriptor init answers).lifetime calls) ↔ _
      rw [CClientSSLSocket.ofDescriptor, KeepsHandles, orderly_client_iff, orderly_sslConnect_iff]

/-- A client whose handshake fails: `handle_error` frees both handles, and so does the destructor
that the exception leaves through. -/
theorem not_orderly_handshake_fails :
    ¬ Orderly (log ⟨.clientSslSocket (some 3) "db.example"
      ⟨true, true, true, true, true, true, true, true⟩ ⟨true, true⟩ ⟨true, true, false⟩, []⟩) := by
  decide

end TlsLifetime

end AsabruEngine
