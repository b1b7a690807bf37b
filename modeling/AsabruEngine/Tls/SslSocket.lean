import AsabruEngine.Library.ByteMemory
import AsabruEngine.Library.Resources
import AsabruEngine.Socket.Derived
import Mathlib.Data.Fintype.Basic

/-! # TLS sockets

`SSLSocket` and `CClientSSLSocket` keep two pointers, `ssl` and `ctx`, and pass them to OpenSSL. A
function here is the log of these calls, on what OpenSSL and the system answer: a pointer that is
passed before it has been set shows as a use or a release of a handle that has not been acquired.

* `TlsRun` is such a log with how the function ended; `andThen` and `unwindThrough` put functions
  together, where they return and where an exception passes.
* `SSLSocket.init`, `SSLSocket.new`, `SSLSocket.receiveBytes`, `SSLSocket.close` and
  `SSLSocket.destructor` are the functions of the base.
* `CClientSSLSocket.connect` does what `Resolve`, `TcpConnect` and `SSLConnect` do, and
  `CClientSSLSocket.new` and `CClientSSLSocket.ofDescriptor` are the constructors over it. -/

namespace AsabruEngine

open Resources

/-- The handles in the pointers `ctx` and `ssl` of one object. -/
inductive TlsHandle
  | ctx
  | ssl
  deriving DecidableEq, Repr

theorem TlsHandle.mem_handles (handle : TlsHandle) :
    handle ∈ ({.ctx, .ssl} : Finset TlsHandle) := by
  cases handle with
  | ctx => decide
  | ssl => decide

instance : Fintype TlsHandle := ⟨{.ctx, .ssl}, TlsHandle.mem_handles⟩

/-- How a call ends. -/
inductive Ended
  | returned
  /-- With an exception. -/
  | threw
  /-- The process ends in it: by `exit`, or on a null pointer. -/
  | died
  deriving DecidableEq, Repr

/-- The calls of OpenSSL that a function makes, and how it ends. -/
structure TlsRun where
  log : Log TlsHandle
  ended : Ended
  deriving DecidableEq, Repr

namespace TlsRun

/-- What comes behind a call that returns. -/
def andThen (first next : TlsRun) : TlsRun :=
  match first.ended with
  | .returned => ⟨first.log ++ next.log, next.ended⟩
  | _ => first

/-- The clean-up that an exception leaves through. -/
def unwindThrough (body : TlsRun) (cleanup : Log TlsHandle) : TlsRun :=
  match body.ended with
  | .threw => ⟨body.log ++ cleanup, .threw⟩
  | _ => body

@[simp] theorem andThen_returned (log : Log TlsHandle) (next : TlsRun) :
    andThen ⟨log, .returned⟩ next = ⟨log ++ next.log, next.ended⟩ := rfl

@[simp] theorem andThen_threw (log : Log TlsHandle) (next : TlsRun) :
    andThen ⟨log, .threw⟩ next = ⟨log, .threw⟩ := rfl

@[simp] theorem andThen_died (log : Log TlsHandle) (next : TlsRun) :
    andThen ⟨log, .died⟩ next = ⟨log, .died⟩ := rfl

@[simp] theorem unwindThrough_returned (log cleanup : Log TlsHandle) :
    unwindThrough ⟨log, .returned⟩ cleanup = ⟨log, .returned⟩ := rfl

@[simp] theorem unwindThrough_threw (log cleanup : Log TlsHandle) :
    unwindThrough ⟨log, .threw⟩ cleanup = ⟨log ++ cleanup, .threw⟩ := rfl

@[simp] theorem unwindThrough_died (log cleanup : Log TlsHandle) :
    unwindThrough ⟨log, .died⟩ cleanup = ⟨log, .died⟩ := rfl

end TlsRun

/-! ## `SSLSocket` -/

/-- The `SSL_METHOD` of a socket, as far as `Init` tells methods apart. -/
inductive SslMethod
  /-- `TLS_server_method()`. -/
  | server
  /-- `TLS_client_method()`. -/
  | client
  | other
  deriving DecidableEq, Repr

/-- What `Init` is answered: whether each call succeeds, and whether the environment variables for
the certificate and the key are set. -/
structure InitAnswers where
  ctxNew : Bool
  certFilePath : Bool
  keyFilePath : Bool
  certificate : Bool
  privateKey : Bool
  accept : Bool
  verifyPaths : Bool
  minProtoVersion : Bool
  deriving DecidableEq, Repr

/-- `SSL_get_error`, as far as `ReceiveBytes` tells errors apart. -/
inductive SslError
  | zeroReturn
  | wantRead
  | wantWrite
  | other
  deriving DecidableEq, Repr

/-- What the loop of one `ReceiveBytes` is answered. -/
inductive SslReads
  /-- `SSL_read` gives bytes or none, and `SSL_pending` reports `pending + 1` more. -/
  | more (bytes : Bytes) (pending : ℕ) (reads : SslReads)
  /-- `SSL_read` gives bytes or none, and `SSL_pending` reports no more. -/
  | drained (bytes : Bytes)
  /-- `SSL_read` gives a negative number. -/
  | failed (error : SslError)
  deriving Repr

/-- The error that ends the loop, if one does. -/
def SslReads.error : SslReads → Option SslError
  | more _ _ reads => reads.error
  | drained _ => none
  | failed error => some error

namespace SSLSocket

/-- `create_context`. -/
def createContext (answers : InitAnswers) : TlsRun :=
  if answers.ctxNew then ⟨[.acquired .ctx], .returned⟩ else ⟨[], .threw⟩

/-- `handle_error`: `SSL_free` and `SSL_CTX_free`. -/
def handleError : Log TlsHandle := [.released .ssl, .released .ctx]

/-- `configure_client_context`: `SSL_CTX_set_verify`, `SSL_CTX_set_default_verify_paths` and
`SSL_CTX_set_min_proto_version`. -/
def configureClientContext (answers : InitAnswers) : TlsRun :=
  if answers.verifyPaths = false then ⟨[.used .ctx, .used .ctx] ++ handleError, .threw⟩
  else if answers.minProtoVersion = false then
    ⟨[.used .ctx, .used .ctx, .used .ctx] ++ handleError, .threw⟩
  else ⟨[.used .ctx, .used .ctx, .used .ctx], .returned⟩

/-- `configure_server_context`: `SSL_CTX_set_default_passwd_cb_userdata`,
`SSL_CTX_use_certificate_file` and `SSL_CTX_use_PrivateKey_file`. -/
def configureServerContext (answers : InitAnswers) : TlsRun :=
  if answers.certFilePath = false then ⟨[], .threw⟩
  else if answers.keyFilePath = false then ⟨[], .threw⟩
  -- `exit(EXIT_FAILURE)`
  else if answers.certificate = false then ⟨[.used .ctx, .used .ctx], .died⟩
  else if answers.privateKey = false then ⟨[.used .ctx, .used .ctx, .used .ctx], .died⟩
  else ⟨[.used .ctx, .used .ctx, .used .ctx], .returned⟩

/-- `SSL_new` and `SSL_set_fd`. -/
def openSsl : Log TlsHandle := [.used .ctx, .acquired .ssl, .used .ssl]

/-- `Init`. -/
def init (method : SslMethod) (answers : InitAnswers) : TlsRun :=
  (createContext answers).andThen <|
    match method with
    | .server =>
        (configureServerContext answers).andThen <|
          if answers.accept then ⟨openSsl ++ [.used .ssl], .returned⟩
          else ⟨openSsl ++ [.used .ssl] ++ handleError, .threw⟩
    | .client => configureClientContext answers
    -- neither branch is taken, and `ssl` is not set
    | .other => ⟨[], .returned⟩

/-- `SSLSocket(method)`, where `socket` answers `s` to `Socket()`. -/
def new (s : SOCKET) (method : SslMethod) (answers : InitAnswers) : TlsRun :=
  if s = none then ⟨[], .threw⟩ else init method answers

/-- `Close`: `SSL_shutdown`, `SSL_free` and `SSL_CTX_free`. -/
def close : Log TlsHandle := [.used .ssl, .released .ssl, .released .ctx]

/-- `~SSLSocket`. -/
def destructor : Log TlsHandle := close

/-- `ReceiveBytes`, with `ret` received so far: the string that is returned, and the calls. -/
def receiveBytes : SslReads → Bytes → Bytes × Log TlsHandle
  | .more bytes _ reads, ret =>
      let (ret, log) := receiveBytes reads (ret ++ bytes)
      (ret, [.used .ssl, .used .ssl] ++ log)
  | .drained bytes, ret => (ret ++ bytes, [.used .ssl, .used .ssl])
  | .failed error, ret =>
      -- `SSL_read` and `SSL_get_error`
      (ret, [.used .ssl, .used .ssl] ++ if error = .zeroReturn then close else [])

end SSLSocket

/-! ## `CClientSSLSocket` -/

/-- What `SSLConnect` is answered. -/
structure SslConnectAnswers where
  hostName : Bool
  set1Host : Bool
  connect : Bool
  deriving DecidableEq, Repr

namespace CClientSSLSocket

/-- `Resolve`. The result of `gethostbyaddr` is not looked at before it is used. -/
def resolve (host : String) (resolves : Bool) : Ended :=
  if resolves then .returned else if CClientSocket.isName host then .threw else .died

/-- `TcpConnect`. -/
def tcpConnect (serverName : String) (answers : ConnectAnswers) : TlsRun :=
  match resolve serverName answers.resolves with
  | .returned => if answers.connects then ⟨[], .returned⟩ else ⟨[], .threw⟩
  | ended => ⟨[], ended⟩

/-- `SSLConnect`: `SSL_set_tlsext_host_name`, `SSL_set1_host`, `SSL_connect` and `SSL_get_cipher`
on a new handle. -/
def sslConnect (answers : SslConnectAnswers) : TlsRun :=
  if answers.hostName = false then
    ⟨SSLSocket.openSsl ++ [.used .ssl] ++ SSLSocket.handleError, .threw⟩
  else if answers.set1Host = false then
    ⟨SSLSocket.openSsl ++ [.used .ssl, .used .ssl] ++ SSLSocket.handleError, .threw⟩
  else if answers.connect then
    ⟨SSLSocket.openSsl ++ [.used .ssl, .used .ssl, .used .ssl, .used .ssl], .returned⟩
  else
    ⟨SSLSocket.openSsl ++ [.used .ssl, .used .ssl, .used .ssl] ++ SSLSocket.handleError, .threw⟩

/-- `Connect`. -/
def connect (serverName : String) (tcp : ConnectAnswers) (answers : SslConnectAnswers) : TlsRun :=
  (tcpConnect serverName tcp).andThen (sslConnect answers)

/-- `CClientSSLSocket(server_name, client_port)`. An exception of the body leaves through
`~SSLSocket`, one of the base does not. -/
def new (s : SOCKET) (serverName : String) (init : InitAnswers) (tcp : ConnectAnswers)
    (answers : SslConnectAnswers) : TlsRun :=
  (SSLSocket.new s .client init).andThen
    ((connect serverName tcp answers).unwindThrough SSLSocket.destructor)

/-- `CClientSSLSocket(s, server_name, server_port)`. -/
def ofDescriptor (init : InitAnswers) (answers : SslConnectAnswers) : TlsRun :=
  (SSLSocket.init .client init).andThen
    ((sslConnect answers).unwindThrough SSLSocket.destructor)

end CClientSSLSocket

end AsabruEngine
