import AsabruEngine.Pool.Conservation
import AsabruEngine.Pool.Locking

/-! # Threads on a family of pools

Threads call the members of the pools and of the proxies at the same time. A call reads its proxy,
waits for the mutex of its pool where it needs it, takes its turns under it, and returns when it
unlocks it.

A proxy has no mutex: while a call on it is under way no other thread touches it. For calls that
write to the proxy this is the rule of the language for every object without a mutex. It is asked of
all calls here, which is more than the rule: two calls of `valid`, or two of `release_connection`,
only read the pointers of the proxy and may overlap.

* `Request` is what a thread calls, `UnderWay` a call that has not returned, and `Slot` where a
  proxy is meanwhile. `Threads.step` takes one `ThreadStep`.
* The calls that have returned, in the order of their returns, are calls on a `World`, where every
  call is one step; `completes` reads them off the threads' steps. -/

namespace AsabruEngine

open NodeMap CriticalSections

variable {ι π τ Conn : Type*}

/-! ## The calls -/

/-- A call of a member of a proxy, or of the pool with a proxy. -/
inductive ProxyCall (ι : Type*)
  | releaseConnection (pool : ι)
  | destroy
  | valid

/-- A call of a member of a pool that no proxy takes part in. -/
inductive PoolCall
  | heartBeat
  | size
  | sizeIdle
  | sizeBusy

/-- What a thread calls. -/
inductive Request (ι π : Type*)
  | getConnection (pool : ι) (dst : π)
  | onProxy (proxy : π) (call : ProxyCall ι)
  | onPool (pool : ι) (call : PoolCall)

/-- The mutex a call on a proxy waits for, and what it does under it; `none` where it returns
without locking, as nothing is to be released or asked. -/
def ProxyCall.locks (proxy : ConnectionProxy ι Conn) : ProxyCall ι → Option (ι × Member Conn)
  | .releaseConnection pool => proxy.mConnection.map fun c => (pool, .releaseConnection c)
  | .destroy =>
      proxy.mPool.bind fun pool => proxy.mConnection.map fun c => (pool, .releaseConnection c)
  | .valid => proxy.mPool.bind fun pool => proxy.mConnection.map fun c => (pool, .valid c)

/-- The member a call on a pool runs. -/
def PoolCall.member : PoolCall → Member Conn
  | .heartBeat => .heartBeat
  | .size => .size
  | .sizeIdle => .sizeIdle
  | .sizeBusy => .sizeBusy

/-! ## The threads -/

/-- Where a proxy may be: nowhere, alive, or in the hands of a call that is under way, with what it
was before the call. -/
inductive Slot (ι τ Conn : Type*)
  | free
  | alive (proxy : ConnectionProxy ι Conn)
  | inCall (thread : τ) (content : Option (ConnectionProxy ι Conn))

/-- The proxy alive in a slot, as those see it who do not take part in the call on it. -/
def Slot.content : Slot ι τ Conn → Option (ConnectionProxy ι Conn)
  | .free => none
  | .alive proxy => some proxy
  | .inCall _ content => content

/-- A slot that no call works on. -/
def Slot.holding : Option (ConnectionProxy ι Conn) → Slot ι τ Conn
  | none => .free
  | some proxy => .alive proxy

@[simp] theorem Slot.content_holding (content : Option (ConnectionProxy ι Conn)) :
    (holding content : Slot ι τ Conn).content = content := by
  cases content with
  | none => rfl
  | some proxy => rfl

/-- A call under way: what was called, the pool whose mutex it needs, and what it does under it. -/
structure UnderWay (ι π Conn : Type*) where
  request : Request ι π
  pool : ι
  member : Member Conn

/-- The pools with their mutexes, the proxies, and the calls under way. -/
structure Threads (ι π τ Conn : Type*) where
  sections : Sections ι τ (LockedCall ι Conn) (ConnectionPool Conn) (Position ι Conn)
  slots : π → Slot ι τ Conn
  underWay : τ → Option (UnderWay ι π Conn)

/-- A step of a thread. -/
inductive ThreadStep (ι π τ Conn : Type*)
  | call (thread : τ) (request : Request ι π)
  | lock (thread : τ) (answers : Answers Conn) (order : List (Σ _ : Conn, Conn))
  | turn (thread : τ)
  /-- Unlock the mutex and return. -/
  | unlock (thread : τ)
  | moveConstruct (src dst : π)
  | moveAssign (src dst : π)

namespace ProxyCall

/-- The proxy that is alive after a call on it. -/
def leaves (proxy : ConnectionProxy ι Conn) : ProxyCall ι → Option (ConnectionProxy ι Conn)
  | .destroy => none
  | _ => some proxy

/-- What a call returns that locks nothing. -/
def unlocked : ProxyCall ι → Returned ι Conn
  | .valid => .valid false
  | _ => .nothing

end ProxyCall

namespace Threads

variable [DecidableEq ι] [DecidableEq π] [DecidableEq τ] [DecidableEq Conn]

/-- New pools, no proxies, and no calls. -/
def start (vectors : ι → ConnectionVector Conn) : Threads ι π τ Conn :=
  ⟨.start fun i => .new (vectors i), fun _ => .free, fun _ => none⟩

/-- A thread that is in no call makes one. -/
def call (z : Threads ι π τ Conn) (t : τ) : Request ι π → Option (Threads ι π τ Conn)
  | .getConnection pool dst =>
      match z.slots dst with
      | .free =>
          some ⟨z.sections, Function.update z.slots dst (.inCall t none),
            Function.update z.underWay t (some ⟨.getConnection pool dst, pool, .getConnection⟩)⟩
      | _ => none
  | .onProxy p call =>
      match z.slots p with
      | .alive proxy =>
          match call.locks proxy with
          | some (pool, member) =>
              some ⟨z.sections, Function.update z.slots p (.inCall t (some proxy)),
                Function.update z.underWay t (some ⟨.onProxy p call, pool, member⟩)⟩
          | none => some ⟨z.sections, Function.update z.slots p (.holding (call.leaves proxy)),
              z.underWay⟩
      | _ => none
  | .onPool pool call =>
      some ⟨z.sections, z.slots,
        Function.update z.underWay t (some ⟨.onPool pool call, pool, call.member⟩)⟩

/-- The slots after a call has returned. -/
def returnTo (slots : π → Slot ι τ Conn) (result : Returned ι Conn) :
    Request ι π → π → Slot ι τ Conn
  | .getConnection _ dst =>
      match result with
      | .proxy proxy _ => Function.update slots dst (.alive proxy)
      | _ => slots
  | .onProxy p call =>
      match (slots p).content with
      | some proxy => Function.update slots p (.holding (call.leaves proxy))
      | none => slots
  | .onPool _ _ => slots

/-- One step of one thread. -/
def step (z : Threads ι π τ Conn) : ThreadStep ι π τ Conn → Option (Threads ι π τ Conn)
  | .call t request => if (z.underWay t).isNone then z.call t request else none
  | .lock t answers order =>
      (z.underWay t).bind fun call =>
        (z.sections.step ConnectionPool.code
          (.lock t call.pool ⟨call.pool, call.member, answers, order⟩)).map fun sections =>
            ⟨sections, z.slots, z.underWay⟩
  | .turn t =>
      (z.sections.step ConnectionPool.code (.turn t)).map fun sections =>
        ⟨sections, z.slots, z.underWay⟩
  | .unlock t =>
      (z.underWay t).bind fun call =>
        (z.sections.result ConnectionPool.code t).bind fun result =>
          (z.sections.step ConnectionPool.code (.unlock t)).map fun sections =>
            ⟨sections, returnTo z.slots result call.request, Function.update z.underWay t none⟩
  | .moveConstruct src dst =>
      match z.slots src, z.slots dst with
      | .alive other, .free =>
          some ⟨z.sections, Function.update (Function.update z.slots src (.alive other.moveFrom.2))
            dst (.alive other.moveFrom.1), z.underWay⟩
      | _, _ => none
  | .moveAssign src dst =>
      match z.slots src, z.slots dst with
      | .alive other, .alive _ =>
          -- `if (this == &other)`: prevent self-assignment
          if src = dst then some z
          else
            some ⟨z.sections,
              Function.update (Function.update z.slots src (.alive other.moveFrom.2)) dst
                (.alive other.moveFrom.1), z.underWay⟩
      | _, _ => none

variable {z z' : Threads ι π τ Conn} {t : τ}

theorem step_lock {answers : Answers Conn} {order : List (Σ _ : Conn, Conn)} :
    z.step (.lock t answers order) = some z' ↔
      ∃ call sections, z.underWay t = some call ∧
        z.sections.step ConnectionPool.code
          (.lock t call.pool ⟨call.pool, call.member, answers, order⟩) = some sections ∧
        z' = ⟨sections, z.slots, z.underWay⟩ := by
  simp only [step, Option.bind_eq_some_iff, Option.map_eq_some_iff]
  exact ⟨fun ⟨call, ht, sections, hsections, heq⟩ => ⟨call, sections, ht, hsections, heq.symm⟩,
    fun ⟨call, sections, ht, hsections, heq⟩ => ⟨call, ht, sections, hsections, heq.symm⟩⟩

theorem step_turn :
    z.step (.turn t) = some z' ↔
      ∃ sections, z.sections.step ConnectionPool.code (.turn t) = some sections ∧
        z' = ⟨sections, z.slots, z.underWay⟩ := by
  simp only [step, Option.map_eq_some_iff, eq_comm (a := z')]

theorem step_unlock :
    z.step (.unlock t) = some z' ↔
      ∃ call result sections, z.underWay t = some call ∧
        z.sections.result ConnectionPool.code t = some result ∧
        z.sections.step ConnectionPool.code (.unlock t) = some sections ∧
        z' = ⟨sections, returnTo z.slots result call.request,
          Function.update z.underWay t none⟩ := by
  simp only [step, Option.bind_eq_some_iff, Option.map_eq_some_iff]
  constructor
  · rintro ⟨call, ht, result, hresult, sections, hsections, rfl⟩
    exact ⟨call, result, sections, ht, hresult, hsections, rfl⟩
  · rintro ⟨call, result, sections, ht, hresult, hsections, rfl⟩
    exact ⟨call, ht, result, hresult, sections, hsections, rfl⟩

end Threads

/-! ## The calls one after the other -/

/-- A call made on a `World`, atomic. -/
inductive Serial (ι π Conn : Type*)
  | op (op : Op ι π Conn)
  | size (pool : ι)
  | sizeIdle (pool : ι)
  | sizeBusy (pool : ι)
  | valid (proxy : π)

namespace World

variable [DecidableEq ι] [DecidableEq π] [DecidableEq Conn]

/-- What a call returns. -/
def returns (w : World ι π Conn) : Serial ι π Conn → Returned ι Conn
  | .op (.getConnection pool _ answers order) =>
      let handOut := (w.pools pool).getConnection pool answers order
      .proxy handOut.proxy handOut.calls
  | .op (.heartBeat pool answers order) => .beaten ((w.pools pool).heartBeat answers order).2
  | .op _ => .nothing
  | .size pool => .size (w.pools pool).size
  | .sizeIdle pool => .size (w.pools pool).sizeIdle
  | .sizeBusy pool => .size (w.pools pool).sizeBusy
  | .valid p => .valid ((w.proxies p).elim false fun proxy => proxy.valid w.pools)

/-- One call that is to return a given result. -/
def serve (w : World ι π Conn) (call : Serial ι π Conn × Returned ι Conn) :
    Option (World ι π Conn) :=
  if w.returns call.1 = call.2 then
    match call.1 with
    | .op op => w.step op
    | .valid p => (w.proxies p).map fun _ => w
    | _ => some w
  else none

end World

/-- The call of a request, as one on a `World`. -/
def ProxyCall.serial (p : π) : ProxyCall ι → Serial ι π Conn
  | .releaseConnection pool => .op (.releaseConnection pool p)
  | .destroy => .op (.destroy p)
  | .valid => .valid p

/-- The call of a request, with what the connections answered and the order of the iteration. -/
def Request.serial (answers : Answers Conn) (order : List (Σ _ : Conn, Conn)) :
    Request ι π → Serial ι π Conn
  | .getConnection pool dst => .op (.getConnection pool dst answers order)
  | .onProxy p call => call.serial p
  | .onPool pool .heartBeat => .op (.heartBeat pool answers order)
  | .onPool pool .size => .size pool
  | .onPool pool .sizeIdle => .sizeIdle pool
  | .onPool pool .sizeBusy => .sizeBusy pool

namespace Threads

variable [DecidableEq ι] [DecidableEq π] [DecidableEq τ] [DecidableEq Conn]

/-- The call that a step completes, with its result. -/
def completes (z : Threads ι π τ Conn) :
    ThreadStep ι π τ Conn → Option (Serial ι π Conn × Returned ι Conn)
  | .call _ (.onProxy p call) =>
      match z.slots p with
      | .alive proxy =>
          if (call.locks proxy).isNone then some (call.serial p, call.unlocked) else none
      | _ => none
  | .unlock t =>
      (z.underWay t).bind fun call => (z.sections.inside t).bind fun here =>
        (z.sections.result ConnectionPool.code t).map fun result =>
          (call.request.serial here.call.answers here.call.order, result)
  | .moveConstruct src dst => some (.op (.moveConstruct src dst), .nothing)
  | .moveAssign src dst => some (.op (.moveAssign src dst), .nothing)
  | _ => none

end Threads

end AsabruEngine
