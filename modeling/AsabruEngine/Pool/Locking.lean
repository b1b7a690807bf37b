import AsabruEngine.Library.CriticalSections
import AsabruEngine.Pool.Refinement

/-! # The code under the mutex of a pool

Every member of the pool that touches its maps does so between locking and unlocking the mutex of
the pool. Here that code is taken apart: one turn is one virtual call on a connection, one step of a
loop, one `find`, one `extract`, one `insert` or one `size()`. Between two turns the other threads
do what they like, short of locking the same mutex.

* `code` is the code of a `LockedCall`, with a `Position` for each place it may have come to, and
  `atomic` is the member as one function. `computes` connects the two.
* `Goes` lists the turns that go on, and `goes_of_turn` finds one of them in every turn. What turns
  keep is read off there: `advances_turn`, `ahead_turn` and `busy_turn`.
* `Between` is the invariant over a section, and `Between.accounts` says that a pool in the middle
  of a section `Accounts` for its connections, the node at hand included. -/

namespace AsabruEngine

open NodeMap CriticalSections

variable {ι Conn : Type*}

/-- What a member of the pool does under the mutex. -/
inductive Member (Conn : Type*)
  | getConnection
  /-- The private `release_connection`, of a pointer that is not null. -/
  | releaseConnection (connection : Conn)
  | heartBeat
  | size
  | sizeIdle
  | sizeBusy
  /-- The rest of `valid`, where the two pointers are not null. -/
  | valid (connection : Conn)
  deriving DecidableEq

/-- A member run on the pool `this`, with what the connections answer meanwhile and the order in
which the idle map is iterated. -/
structure LockedCall (ι Conn : Type*) where
  this : ι
  member : Member Conn
  answers : Answers Conn
  order : List (Σ _ : Conn, Conn)

/-- What a member of the pool returns, with the virtual calls it made on connections. -/
inductive Returned (ι Conn : Type*)
  | proxy (proxy : ConnectionProxy ι Conn) (calls : List (Call Conn))
  | nothing
  | beaten (calls : List (Call Conn))
  | size (n : ℕ)
  | valid (b : Bool)
  deriving DecidableEq

/-- How far the code of a member has come, with its local variables. -/
inductive Position (ι Conn : Type*)
  /-- At the head of the loop of `get_connection`. -/
  | search (this : ι) (answers : Answers Conn) (items : List (Σ _ : Conn, Conn))
      (calls : List (Call Conn))
  /-- In `check_connect`, after a connection has said that it is not healthy. -/
  | unhealthy (this : ι) (answers : Answers Conn) (item : Σ _ : Conn, Conn)
      (items : List (Σ _ : Conn, Conn)) (calls : List (Call Conn))
  /-- `check_connect` returned true, and the proxy is built. -/
  | found (this : ι) (key : Conn) (calls : List (Call Conn))
  /-- With the node extracted from the idle map at hand. -/
  | extracted (this : ι) (key : Conn) (node : Node Conn Conn) (calls : List (Call Conn))
  /-- Before `m_connections_busy.find(connection)`. -/
  | release (connection : Conn)
  /-- The connection was found. -/
  | releasing (connection : Conn)
  /-- With the node extracted from the busy map at hand. -/
  | released (node : Node Conn Conn)
  /-- At the head of the loop of `heart_beat`. -/
  | beating (answers : Answers Conn) (items : List (Σ _ : Conn, Conn)) (calls : List (Call Conn))
  | size
  /-- After `m_connections_busy.size()`. -/
  | sizePlus (busy : ℕ)
  | sizeIdle
  | sizeBusy
  | valid (connection : Conn)
  | done (result : Returned ι Conn)

namespace ConnectionPool

variable [DecidableEq Conn]

/-- The loops iterate over the idle map as it is when the mutex is locked. -/
def admits (pool : ConnectionPool Conn) (c : LockedCall ι Conn) : Bool :=
  match c.member with
  | .getConnection => decide (Iterates c.order pool.mConnectionsIdle)
  | .heartBeat => decide (Iterates c.order pool.mConnectionsIdle)
  | _ => true

/-- The first thing done under the mutex. -/
def enter (pool : ConnectionPool Conn) (c : LockedCall ι Conn) : Position ι Conn :=
  match c.member with
  | .getConnection =>
      -- `m_connections_idle.empty()`
      if pool.mConnectionsIdle = ∅ then .done (.proxy .null [])
      else .search c.this c.answers c.order []
  | .releaseConnection connection => .release connection
  | .heartBeat => .beating c.answers c.order []
  | .size => .size
  | .sizeIdle => .sizeIdle
  | .sizeBusy => .sizeBusy
  | .valid connection => .valid connection

/-- One turn of the code. -/
def turn (pool : ConnectionPool Conn) :
    Position ι Conn → Turn (ConnectionPool Conn) (Position ι Conn) (Returned ι Conn)
  | .search _ _ [] calls => .finished (.proxy .null calls)
  | .search this answers (item :: items) calls =>
      match answers.isHealthy item.2 with
      | .returned false =>
          .more (.unhealthy this answers item items
            (calls ++ [.isHealthy item.2 (.returned false)])) pool
      | outcome => .more (.found this item.1 (calls ++ [.isHealthy item.2 outcome])) pool
  | .unhealthy this answers item items calls =>
      match answers.connect item.2 with
      -- `continue`
      | .returned false =>
          .more (.search this answers items (calls ++ [.connect item.2 (.returned false)])) pool
      | outcome => .more (.found this item.1 (calls ++ [.connect item.2 outcome])) pool
  | .found this key calls =>
      .more (.extracted this key (extract pool.mConnectionsIdle key).1 calls)
        ⟨(extract pool.mConnectionsIdle key).2, pool.mConnectionsBusy, pool.destroyed⟩
  | .extracted this key node calls =>
      .more (.done (.proxy ⟨some this, some key⟩ calls))
        ⟨pool.mConnectionsIdle, (insertNode pool.mConnectionsBusy node).1,
          pool.destroyed ++ dropped (insertNode pool.mConnectionsBusy node).2⟩
  | .release connection =>
      if connection ∈ pool.mConnectionsBusy then .more (.releasing connection) pool
      else .finished .nothing
  | .releasing connection =>
      .more (.released (extract pool.mConnectionsBusy connection).1)
        ⟨pool.mConnectionsIdle, (extract pool.mConnectionsBusy connection).2, pool.destroyed⟩
  | .released node =>
      .more (.done .nothing)
        ⟨(insertNode pool.mConnectionsIdle node).1, pool.mConnectionsBusy,
          pool.destroyed ++ dropped (insertNode pool.mConnectionsIdle node).2⟩
  | .beating _ [] calls => .finished (.beaten calls)
  | .beating answers (item :: items) calls =>
      match answers.heartBeat item.2 with
      -- the exception leaves the loop, and unwinding unlocks the mutex
      | .threw => .more (.done (.beaten (calls ++ [.heartBeat item.2 .threw]))) pool
      | .returned result =>
          .more (.beating answers items (calls ++ [.heartBeat item.2 (.returned result)])) pool
  | .size => .more (.sizePlus pool.mConnectionsBusy.entries.card) pool
  | .sizePlus busy => .finished (.size (busy + pool.mConnectionsIdle.entries.card))
  | .sizeIdle => .finished (.size pool.mConnectionsIdle.entries.card)
  | .sizeBusy => .finished (.size pool.mConnectionsBusy.entries.card)
  | .valid connection => .finished (.valid (decide (connection ∈ pool.mConnectionsBusy)))
  | .done result => .finished result

/-- The code of the members. -/
def code : Code (LockedCall ι Conn) (ConnectionPool Conn) (Position ι Conn) (Returned ι Conn) where
  admits c pool := pool.admits c
  enter c pool := pool.enter c
  turn l pool := pool.turn l

/-- The members as operations on the pool. -/
def atomic (pool : ConnectionPool Conn) (c : LockedCall ι Conn) :
    Returned ι Conn × ConnectionPool Conn :=
  match c.member with
  | .getConnection =>
      let handOut := pool.getConnection c.this c.answers c.order
      (.proxy handOut.proxy handOut.calls, handOut.pool)
  | .releaseConnection connection => (.nothing, pool.releaseConnection (some connection))
  | .heartBeat =>
      (.beaten (pool.heartBeat c.answers c.order).2, (pool.heartBeat c.answers c.order).1)
  | .size => (.size pool.size, pool)
  | .sizeIdle => (.size pool.sizeIdle, pool)
  | .sizeBusy => (.size pool.sizeBusy, pool)
  | .valid connection => (.valid (decide (connection ∈ pool.mConnectionsBusy)), pool)

/-! ## What is left to do -/

/-- What the code still does from a position on, as one operation. -/
def pending (pool : ConnectionPool Conn) :
    Position ι Conn → Returned ι Conn × ConnectionPool Conn
  | .search this answers items calls =>
      let later := getConnectionLoop this pool answers items
      (.proxy later.proxy (calls ++ later.calls), later.pool)
  | .unhealthy this answers item items calls =>
      match answers.connect item.2 with
      | .returned false =>
          let later := getConnectionLoop this pool answers items
          (.proxy later.proxy (calls ++ .connect item.2 (.returned false) :: later.calls),
            later.pool)
      | outcome =>
          (.proxy ⟨some this, some item.1⟩ (calls ++ [.connect item.2 outcome]),
            pool.idleToBusy item.1)
  | .found this key calls => (.proxy ⟨some this, some key⟩ calls, pool.idleToBusy key)
  | .extracted this key node calls =>
      (.proxy ⟨some this, some key⟩ calls,
        ⟨pool.mConnectionsIdle, (insertNode pool.mConnectionsBusy node).1,
          pool.destroyed ++ dropped (insertNode pool.mConnectionsBusy node).2⟩)
  | .release connection => (.nothing, pool.releaseConnection (some connection))
  | .releasing connection => (.nothing, pool.busyToIdle connection)
  | .released node =>
      (.nothing,
        ⟨(insertNode pool.mConnectionsIdle node).1, pool.mConnectionsBusy,
          pool.destroyed ++ dropped (insertNode pool.mConnectionsIdle node).2⟩)
  | .beating answers items calls => (.beaten (calls ++ heartBeatLoop answers items), pool)
  | .size => (.size pool.size, pool)
  | .sizePlus busy => (.size (busy + pool.sizeIdle), pool)
  | .sizeIdle => (.size pool.sizeIdle, pool)
  | .sizeBusy => (.size pool.sizeBusy, pool)
  | .valid connection => (.valid (decide (connection ∈ pool.mConnectionsBusy)), pool)
  | .done result => (result, pool)

/-- Where the code starts, the whole operation is left to do. -/
theorem pending_enter (pool : ConnectionPool Conn) (c : LockedCall ι Conn) :
    pool.pending (pool.enter c) = pool.atomic c := by
  obtain ⟨this, member, answers, order⟩ := c
  cases member with
  | getConnection =>
      simp only [enter, atomic, getConnection]
      split
      · rfl
      · simp [pending]
  | releaseConnection connection => rfl
  | heartBeat => simp [enter, atomic, pending, heartBeat]
  | size => rfl
  | sizeIdle => rfl
  | sizeBusy => rfl
  | valid connection => rfl

/-- A bound on the turns still to take. -/
def rank : Position ι Conn → ℕ
  | .search _ _ items _ => 2 * items.length + 3
  | .unhealthy _ _ _ items _ => 2 * items.length + 4
  | .found .. => 2
  | .extracted .. => 1
  | .release _ => 3
  | .releasing _ => 2
  | .released _ => 1
  | .beating _ items _ => items.length + 1
  | .size => 1
  | _ => 0

/-- The node that is in neither map at a position. -/
def atHand : Position ι Conn → Node Conn Conn
  | .extracted _ _ node _ => node
  | .released node => node
  | _ => none

/-- The code may have changed the pool before it comes to these positions. -/
def Changed : Position ι Conn → Prop
  | .extracted .. => True
  | .released _ => True
  | .done _ => True
  | _ => False

/-- The connections that the code may still call a virtual member of. -/
def ahead : Position ι Conn → List Conn
  | .search _ _ items _ => items.map Sigma.snd
  | .unhealthy _ _ item items _ => item.2 :: items.map Sigma.snd
  | .beating _ items _ => items.map Sigma.snd
  | _ => []

/-- The connection that the code may still take out of the busy map. -/
def removes : Position ι Conn → Option Conn
  | .release connection => some connection
  | .releasing connection => some connection
  | _ => none

/-- The turns that go on: `Goes pool l l' pool'` is one turn from the position `l` on `pool` to the
position `l'`, with the pool then `pool'`. -/
inductive Goes (pool : ConnectionPool Conn) :
    Position ι Conn → Position ι Conn → ConnectionPool Conn → Prop
  /-- A connection of the search is not healthy. -/
  | unhealthy {this : ι} {answers : Answers Conn} {item : Σ _ : Conn, Conn}
      {items : List (Σ _ : Conn, Conn)} {calls : List (Call Conn)}
      (answered : answers.isHealthy item.2 = .returned false) :
      Goes pool (.search this answers (item :: items) calls)
        (.unhealthy this answers item items (calls ++ [.isHealthy item.2 (.returned false)])) pool
  /-- It is healthy, or its check throws. -/
  | healthy {this : ι} {answers : Answers Conn} {item : Σ _ : Conn, Conn}
      {items : List (Σ _ : Conn, Conn)} {calls : List (Call Conn)} {outcome : Outcome}
      (answered : answers.isHealthy item.2 = outcome) (passed : outcome ≠ .returned false) :
      Goes pool (.search this answers (item :: items) calls)
        (.found this item.1 (calls ++ [.isHealthy item.2 outcome])) pool
  /-- A connection that is not healthy does not connect. -/
  | refused {this : ι} {answers : Answers Conn} {item : Σ _ : Conn, Conn}
      {items : List (Σ _ : Conn, Conn)} {calls : List (Call Conn)}
      (answered : answers.connect item.2 = .returned false) :
      Goes pool (.unhealthy this answers item items calls)
        (.search this answers items (calls ++ [.connect item.2 (.returned false)])) pool
  /-- It connects, or `connect` throws. -/
  | connected {this : ι} {answers : Answers Conn} {item : Σ _ : Conn, Conn}
      {items : List (Σ _ : Conn, Conn)} {calls : List (Call Conn)} {outcome : Outcome}
      (answered : answers.connect item.2 = outcome) (passed : outcome ≠ .returned false) :
      Goes pool (.unhealthy this answers item items calls)
        (.found this item.1 (calls ++ [.connect item.2 outcome])) pool
  /-- The node of the connection found is extracted from the idle map. -/
  | extracted {this : ι} {key : Conn} {calls : List (Call Conn)} :
      Goes pool (.found this key calls)
        (.extracted this key (extract pool.mConnectionsIdle key).1 calls)
        ⟨(extract pool.mConnectionsIdle key).2, pool.mConnectionsBusy, pool.destroyed⟩
  /-- It is inserted into the busy map. -/
  | handedOut {this : ι} {key : Conn} {node : Node Conn Conn} {calls : List (Call Conn)} :
      Goes pool (.extracted this key node calls) (.done (.proxy ⟨some this, some key⟩ calls))
        ⟨pool.mConnectionsIdle, (insertNode pool.mConnectionsBusy node).1,
          pool.destroyed ++ dropped (insertNode pool.mConnectionsBusy node).2⟩
  /-- A connection to be released is busy. -/
  | busy {connection : Conn} (found : connection ∈ pool.mConnectionsBusy) :
      Goes pool (.release connection) (.releasing connection) pool
  /-- Its node is extracted from the busy map. -/
  | released {connection : Conn} :
      Goes pool (.releasing connection) (.released (extract pool.mConnectionsBusy connection).1)
        ⟨pool.mConnectionsIdle, (extract pool.mConnectionsBusy connection).2, pool.destroyed⟩
  /-- It is inserted into the idle map. -/
  | takenBack {node : Node Conn Conn} :
      Goes pool (.released node) (.done .nothing)
        ⟨(insertNode pool.mConnectionsIdle node).1, pool.mConnectionsBusy,
          pool.destroyed ++ dropped (insertNode pool.mConnectionsIdle node).2⟩
  /-- A heart beat returns. -/
  | beat {answers : Answers Conn} {item : Σ _ : Conn, Conn} {items : List (Σ _ : Conn, Conn)}
      {calls : List (Call Conn)} {b : Bool}
      (answered : answers.heartBeat item.2 = .returned b) :
      Goes pool (.beating answers (item :: items) calls)
        (.beating answers items (calls ++ [.heartBeat item.2 (.returned b)])) pool
  /-- A heart beat throws. -/
  | threw {answers : Answers Conn} {item : Σ _ : Conn, Conn} {items : List (Σ _ : Conn, Conn)}
      {calls : List (Call Conn)} (answered : answers.heartBeat item.2 = .threw) :
      Goes pool (.beating answers (item :: items) calls)
        (.done (.beaten (calls ++ [.heartBeat item.2 .threw]))) pool
  /-- The busy connections are counted. -/
  | counted : Goes pool .size (.sizePlus pool.mConnectionsBusy.entries.card) pool

/-- **One turn that goes on** is one of these. -/
theorem goes_of_turn {pool pool' : ConnectionPool Conn} {l l' : Position ι Conn}
    (h : pool.turn l = .more l' pool') : Goes pool l l' pool' := by
  cases l with
  | search this answers items calls =>
      cases items with
      | nil => cases h
      | cons item items =>
          rcases hhealthy : answers.isHealthy item.2 with (_ | _) | _
          · simp only [turn, hhealthy, Turn.more.injEq] at h
            obtain ⟨rfl, rfl⟩ := h
            exact .unhealthy hhealthy
          · simp only [turn, hhealthy, Turn.more.injEq] at h
            obtain ⟨rfl, rfl⟩ := h
            exact .healthy hhealthy (by simp)
          · simp only [turn, hhealthy, Turn.more.injEq] at h
            obtain ⟨rfl, rfl⟩ := h
            exact .healthy hhealthy (by simp)
  | unhealthy this answers item items calls =>
      rcases hconnect : answers.connect item.2 with (_ | _) | _
      · simp only [turn, hconnect, Turn.more.injEq] at h
        obtain ⟨rfl, rfl⟩ := h
        exact .refused hconnect
      · simp only [turn, hconnect, Turn.more.injEq] at h
        obtain ⟨rfl, rfl⟩ := h
        exact .connected hconnect (by simp)
      · simp only [turn, hconnect, Turn.more.injEq] at h
        obtain ⟨rfl, rfl⟩ := h
        exact .connected hconnect (by simp)
  | found this key calls =>
      cases h
      exact .extracted
  | extracted this key node calls =>
      cases h
      exact .handedOut
  | release connection =>
      simp only [turn] at h
      split at h
      · rename_i hbusy
        cases h
        exact .busy hbusy
      · cases h
  | releasing connection =>
      cases h
      exact .released
  | released node =>
      cases h
      exact .takenBack
  | beating answers items calls =>
      cases items with
      | nil => cases h
      | cons item items =>
          rcases hbeat : answers.heartBeat item.2 with result | _
          · simp only [turn, hbeat, Turn.more.injEq] at h
            obtain ⟨rfl, rfl⟩ := h
            exact .beat hbeat
          · simp only [turn, hbeat, Turn.more.injEq] at h
            obtain ⟨rfl, rfl⟩ := h
            exact .threw hbeat
  | size =>
      cases h
      exact .counted
  | sizePlus busy => cases h
  | sizeIdle => cases h
  | sizeBusy => cases h
  | valid connection => cases h
  | done result => cases h

/-- What a turn does: what is left to do stays the same, the pool changes only on the way to the
positions that allow it, and there are fewer turns to come. -/
structure Advances (l : Position ι Conn) (pool : ConnectionPool Conn) (l' : Position ι Conn)
    (pool' : ConnectionPool Conn) : Prop where
  pending_eq : pool'.pending l' = pool.pending l
  unchanged : ¬ Changed l' → pool' = pool ∧ ¬ Changed l
  rank_lt : rank l' < rank l

/-- **Every turn advances.** -/
theorem advances_turn {pool pool' : ConnectionPool Conn} {l l' : Position ι Conn}
    (h : pool.turn l = .more l' pool') : Advances l pool l' pool' := by
  cases goes_of_turn h with
  | @unhealthy this answers item items calls hhealthy =>
      refine ⟨?_, fun _ => ⟨rfl, id⟩, ?_⟩
      · rcases hconnect : answers.connect item.2 with (_ | _) | _
        · simp [pending, getConnectionLoop, checkConnect, hhealthy, hconnect]
        · simp [pending, getConnectionLoop, checkConnect, hhealthy, hconnect]
        · simp [pending, getConnectionLoop, checkConnect, hhealthy, hconnect]
      · rw [rank, rank, List.length_cons]
        omega
  | @healthy this answers item items calls outcome hhealthy hpassed =>
      refine ⟨?_, fun _ => ⟨rfl, id⟩, ?_⟩
      · have hcheck : checkConnect answers item.2 = (true, [.isHealthy item.2 outcome]) := by
          rw [checkConnect, hhealthy]
          rcases outcome with (_ | _) | _
          · exact absurd rfl hpassed
          · rfl
          · rfl
        simp [pending, getConnectionLoop, hcheck]
      · rw [rank, rank]
        omega
  | refused hconnect =>
      refine ⟨?_, fun _ => ⟨rfl, id⟩, ?_⟩
      · simp [pending, hconnect]
      · exact Nat.lt_succ_self _
  | @connected this answers item items calls outcome hconnect hpassed =>
      refine ⟨?_, fun _ => ⟨rfl, id⟩, ?_⟩
      · rcases outcome with (_ | _) | _
        · exact absurd rfl hpassed
        · simp [pending, hconnect]
        · simp [pending, hconnect]
      · rw [rank, rank]
        omega
  | extracted => exact ⟨rfl, fun hsame => absurd trivial hsame, Nat.lt_succ_self 1⟩
  | handedOut => exact ⟨rfl, fun hsame => absurd trivial hsame, Nat.zero_lt_one⟩
  | busy hbusy =>
      refine ⟨?_, fun _ => ⟨rfl, id⟩, Nat.lt_succ_self 2⟩
      simp only [pending, releaseConnection, if_pos hbusy]
  | released => exact ⟨rfl, fun hsame => absurd trivial hsame, Nat.lt_succ_self 1⟩
  | takenBack => exact ⟨rfl, fun hsame => absurd trivial hsame, Nat.zero_lt_one⟩
  | beat hbeat =>
      refine ⟨?_, fun _ => ⟨rfl, id⟩, Nat.lt_succ_self _⟩
      simp [pending, heartBeatLoop, hbeat]
  | threw hbeat =>
      refine ⟨?_, fun hsame => absurd trivial hsame, Nat.succ_pos _⟩
      simp [pending, heartBeatLoop, hbeat]
  | counted => exact ⟨rfl, fun _ => ⟨rfl, id⟩, Nat.zero_lt_one⟩

/-- No turn brings back a connection that the code is done with. -/
theorem ahead_turn {pool pool' : ConnectionPool Conn} {l l' : Position ι Conn}
    (h : pool.turn l = .more l' pool') : ahead l' ⊆ ahead l := by
  cases goes_of_turn h with
  | unhealthy _ => exact List.Subset.refl _
  | healthy _ _ => exact List.nil_subset _
  | refused _ => exact List.subset_cons_self _ _
  | connected _ _ => exact List.nil_subset _
  | extracted => exact List.Subset.refl _
  | handedOut => exact List.Subset.refl _
  | busy _ => exact List.Subset.refl _
  | released => exact List.Subset.refl _
  | takenBack => exact List.Subset.refl _
  | beat _ => exact List.subset_cons_self _ _
  | threw _ => exact List.nil_subset _
  | counted => exact List.Subset.refl _

/-- A turn takes no connection out of the busy map but the one it is to release, and nothing else is
to be released afterwards. -/
theorem busy_turn {pool pool' : ConnectionPool Conn} {l l' : Position ι Conn}
    (h : pool.turn l = .more l' pool') {c : Conn} (hc : removes l ≠ some c) :
    removes l' ≠ some c ∧ (c ∈ pool.mConnectionsBusy → c ∈ pool'.mConnectionsBusy) := by
  cases goes_of_turn h with
  | unhealthy _ => exact ⟨hc, id⟩
  | healthy _ _ => exact ⟨hc, id⟩
  | refused _ => exact ⟨hc, id⟩
  | connected _ _ => exact ⟨hc, id⟩
  | extracted => exact ⟨hc, id⟩
  | @handedOut this key node calls => exact ⟨hc, mem_insertNode_of_mem node⟩
  | busy _ => exact ⟨hc, id⟩
  | @released connection =>
      refine ⟨by simp [removes], fun hbusy => ?_⟩
      -- the node of another connection is taken out
      have hne : c ≠ connection := by
        rintro rfl
        exact hc rfl
      exact (mem_extract_of_ne hne).mpr hbusy
  | takenBack => exact ⟨hc, id⟩
  | beat _ => exact ⟨hc, id⟩
  | threw _ => exact ⟨hc, id⟩
  | counted => exact ⟨hc, id⟩

/-- At the end nothing is left to do but to return. -/
theorem pending_of_finished {pool : ConnectionPool Conn} {l : Position ι Conn}
    {result : Returned ι Conn} (h : pool.turn l = .finished result) :
    pool.pending l = (result, pool) := by
  cases l with
  | search this answers items calls =>
      cases items with
      | nil =>
          simp only [turn, Turn.finished.injEq] at h
          subst h
          simp [pending, getConnectionLoop]
      | cons item items =>
          rcases hhealthy : answers.isHealthy item.2 with (_ | _) | _
          · simp [turn, hhealthy] at h
          · simp [turn, hhealthy] at h
          · simp [turn, hhealthy] at h
  | unhealthy this answers item items calls =>
      rcases hconnect : answers.connect item.2 with (_ | _) | _
      · simp [turn, hconnect] at h
      · simp [turn, hconnect] at h
      · simp [turn, hconnect] at h
  | found this key calls => cases h
  | extracted this key node calls => cases h
  | release connection =>
      simp only [turn] at h
      split at h
      · cases h
      · rename_i hbusy
        rw [Turn.finished.injEq] at h
        subst h
        simp only [pending, releaseConnection, if_neg hbusy]
  | releasing connection => cases h
  | released node => cases h
  | beating answers items calls =>
      cases items with
      | nil =>
          simp only [turn, Turn.finished.injEq] at h
          subst h
          simp [pending, heartBeatLoop]
      | cons item items =>
          rcases hbeat : answers.heartBeat item.2 with result | _
          · simp [turn, hbeat] at h
          · simp [turn, hbeat] at h
  | size => cases h
  | sizePlus busy =>
      cases h
      rfl
  | sizeIdle =>
      cases h
      rfl
  | sizeBusy =>
      cases h
      rfl
  | valid connection =>
      cases h
      rfl
  | done result =>
      cases h
      rfl

/-! ## The members are atomic -/

/-- The turns of a section are bounded by the idle connections it has found. -/
theorem rank_enter_le {pool : ConnectionPool Conn} {c : LockedCall ι Conn}
    (hadmits : pool.admits c) : rank (pool.enter c) ≤ 2 * pool.sizeIdle + 3 := by
  obtain ⟨this, member, answers, order⟩ := c
  cases member with
  | getConnection =>
      have horder : Iterates order pool.mConnectionsIdle := of_decide_eq_true hadmits
      simp only [enter]
      split
      · exact Nat.zero_le _
      · rw [rank, horder.length_eq, sizeIdle]
  | heartBeat =>
      have horder : Iterates order pool.mConnectionsIdle := of_decide_eq_true hadmits
      simp only [enter, rank, horder.length_eq, sizeIdle]
      omega
  | releaseConnection connection => exact Nat.le_add_left 3 _
  | size =>
      simp only [enter, rank]
      omega
  | sizeIdle => exact Nat.zero_le _
  | sizeBusy => exact Nat.zero_le _
  | valid connection => exact Nat.zero_le _

/-- The code starts with the idle connections of the pool ahead of it. -/
theorem lookup_of_mem_ahead_enter {pool : ConnectionPool Conn} {c : LockedCall ι Conn}
    (hadmits : pool.admits c) {connection : Conn} (hahead : connection ∈ ahead (pool.enter c)) :
    ∃ key, pool.mConnectionsIdle.lookup key = some connection := by
  obtain ⟨this, member, answers, order⟩ := c
  have hmet : Iterates order pool.mConnectionsIdle → connection ∈ order.map Sigma.snd →
      ∃ key, pool.mConnectionsIdle.lookup key = some connection := by
    intro horder hmem
    obtain ⟨item, hitem, rfl⟩ := List.mem_map.mp hmem
    exact ⟨item.1, horder.lookup hitem⟩
  cases member with
  | getConnection =>
      simp only [enter] at hahead
      split at hahead
      · cases hahead
      · exact hmet (of_decide_eq_true hadmits) hahead
  | heartBeat => exact hmet (of_decide_eq_true hadmits) hahead
  | releaseConnection connection => cases hahead
  | size => cases hahead
  | sizeIdle => cases hahead
  | sizeBusy => cases hahead
  | valid connection => cases hahead

/-- Only the connection a member is to release may be taken out of the busy map. -/
theorem removes_enter {pool : ConnectionPool Conn} {c : LockedCall ι Conn} {connection : Conn}
    (h : removes (pool.enter c) = some connection) : c.member = .releaseConnection connection := by
  obtain ⟨this, member, answers, order⟩ := c
  cases member with
  | getConnection =>
      simp only [enter] at h
      split at h
      · cases h
      · cases h
  | releaseConnection connection =>
      cases h
      rfl
  | heartBeat => cases h
  | size => cases h
  | sizeIdle => cases h
  | sizeBusy => cases h
  | valid connection => cases h

/-- What holds while the code of `c` is under way on a pool that it found as `before`: what is left
to do leads to the result of the whole operation, until a node is extracted the pool is as it was,
the turns to come are bounded, the connections still ahead were idle, and what was busy is so unless
the code is to release it. -/
structure Between (c : LockedCall ι Conn) (before : ConnectionPool Conn) (l : Position ι Conn)
    (pool : ConnectionPool Conn) : Prop where
  pending_eq : pool.pending l = before.atomic c
  unchanged : ¬ Changed l → pool = before
  rank_le : rank l ≤ 2 * before.sizeIdle + 3
  ahead_idle : ∀ connection ∈ ahead l,
    ∃ key, before.mConnectionsIdle.lookup key = some connection
  busy_kept : ∀ connection, c.member ≠ .releaseConnection connection →
    removes l ≠ some connection ∧
      (connection ∈ before.mConnectionsBusy → connection ∈ pool.mConnectionsBusy)

/-- **The code of every member computes it as one operation.** -/
theorem computes :
    Computes (code : Code (LockedCall ι Conn) (ConnectionPool Conn) _ _) Between
      (fun c pool => pool.atomic c) where
  enter := fun {c pool} hadmits =>
    ⟨pending_enter pool c, fun _ => rfl, rank_enter_le hadmits,
      fun _ => lookup_of_mem_ahead_enter hadmits,
      fun _ hmember => ⟨fun hremoves => hmember (removes_enter hremoves), id⟩⟩
  more := fun h hturn => by
    have hadvances := advances_turn hturn
    refine ⟨hadvances.pending_eq.trans h.pending_eq, fun hl' => ?_,
      hadvances.rank_lt.le.trans h.rank_le,
      fun connection hahead => h.ahead_idle connection (ahead_turn hturn hahead),
      fun connection hmember => ?_⟩
    · obtain ⟨heq, hl⟩ := hadvances.unchanged hl'
      exact heq.trans (h.unchanged hl)
    · obtain ⟨hremoves, hbusy⟩ := h.busy_kept connection hmember
      obtain ⟨hremoves', hbusy'⟩ := busy_turn hturn hremoves
      exact ⟨hremoves', fun hbefore => hbusy' (hbusy hbefore)⟩
  finished := fun h hturn => h.pending_eq.symm.trans (pending_of_finished hturn)

/-! ## Nothing is lost on the way -/

/-- The connections of a pool while a node is at hand: each is idle, busy or at hand, and nothing
else is, every one owned under its own address, and none is destroyed. -/
structure Accounts (pool : ConnectionPool Conn) (hand : Node Conn Conn) (stock : Finset Conn) :
    Prop where
  idle_busy : Disjoint pool.mConnectionsIdle.keys pool.mConnectionsBusy.keys
  hand_out : ∀ node, hand = some node →
    node.2 = node.1 ∧ node.1 ∉ pool.mConnectionsIdle ∧ node.1 ∉ pool.mConnectionsBusy
  union : pool.mConnectionsIdle.keys ∪ pool.mConnectionsBusy.keys ∪
    (hand.map Prod.fst).toFinset = stock
  idle_owns : OwnKeyed pool.mConnectionsIdle
  busy_owns : OwnKeyed pool.mConnectionsBusy
  kept : pool.destroyed = []

/-- With no node at hand, a pool that stands for a lending accounts for its stock. -/
theorem Represents.accounts {pool : ConnectionPool Conn} {l : Lending Conn}
    (h : pool.Represents l) : pool.Accounts none l.stock := by
  refine ⟨?_, ?_, ?_, h.idle_owns, h.busy_owns, h.kept⟩
  · rw [h.idle, h.busy]
    exact Finset.sdiff_disjoint
  · intro node hnone
    cases hnone
  · rw [h.idle, h.busy]
    simp [Lending.free, Finset.sdiff_union_of_subset l.out_subset]

/-- Every member keeps the stock. -/
theorem Represents.atomic {pool : ConnectionPool Conn} {l : Lending Conn}
    (h : pool.Represents l) {c : LockedCall ι Conn} (hadmits : pool.admits c) :
    ∃ l' : Lending Conn, l'.stock = l.stock ∧ (pool.atomic c).2.Represents l' := by
  obtain ⟨this, member, answers, order⟩ := c
  cases member with
  | getConnection =>
      have horder : Iterates order pool.mConnectionsIdle := of_decide_eq_true hadmits
      rcases h.getConnection this answers horder with ⟨-, heq, -⟩ | ⟨c, hc, -, hlent⟩
      · exact ⟨l, rfl, by simpa only [ConnectionPool.atomic, heq] using h⟩
      · exact ⟨l.lend c hc, rfl, hlent⟩
  | releaseConnection connection => exact ⟨l.giveBack connection, rfl, h.releaseConnection _⟩
  | heartBeat => exact ⟨l, rfl, h⟩
  | size => exact ⟨l, rfl, h⟩
  | sizeIdle => exact ⟨l, rfl, h⟩
  | sizeBusy => exact ⟨l, rfl, h⟩
  | valid connection => exact ⟨l, rfl, h⟩

/-- What is accounted for does not depend on which map is which. -/
theorem Accounts.swap {pool : ConnectionPool Conn} {hand : Node Conn Conn} {stock : Finset Conn}
    (h : pool.Accounts hand stock) :
    Accounts ⟨pool.mConnectionsBusy, pool.mConnectionsIdle, pool.destroyed⟩ hand stock := by
  refine ⟨h.idle_busy.symm, fun node hnode => ?_, ?_, h.busy_owns, h.idle_owns, h.kept⟩
  · obtain ⟨howns, hidle, hbusy⟩ := h.hand_out node hnode
    exact ⟨howns, hbusy, hidle⟩
  · rw [← h.union, Finset.union_comm pool.mConnectionsIdle.keys]

/-- A node on its way into the busy map, where it is linked without loss, is accounted for. -/
theorem Accounts.of_insertNode_busy {pool : ConnectionPool Conn} {node : Node Conn Conn}
    {stock : Finset Conn}
    (h : Accounts ⟨pool.mConnectionsIdle, (insertNode pool.mConnectionsBusy node).1,
      pool.destroyed ++ dropped (insertNode pool.mConnectionsBusy node).2⟩ none stock) :
    pool.Accounts node stock := by
  obtain ⟨hkept, hdropped⟩ := List.append_eq_nil_iff.mp h.kept
  cases node with
  | none =>
      refine ⟨h.idle_busy, ?_, h.union, h.idle_owns, h.busy_owns, hkept⟩
      intro node hnone
      cases hnone
  | some node =>
      obtain ⟨k, v⟩ := node
      -- a node left over would have been destroyed
      have hlinked : (insertNode pool.mConnectionsBusy (some (k, v))).2 = none := by
        cases hrest : (insertNode pool.mConnectionsBusy (some (k, v))).2 with
        | none => rfl
        | some rest => simp [hrest, dropped] at hdropped
      obtain ⟨hbusy, heq⟩ := insertNode_of_linked hlinked
      have howns := h.busy_owns
      have hdisjoint := h.idle_busy
      have hunion := h.union
      dsimp only at howns hdisjoint hunion
      rw [heq] at howns hdisjoint hunion
      rw [keys_insert] at hdisjoint hunion
      rw [Finset.disjoint_insert_right, Finmap.mem_keys] at hdisjoint
      obtain ⟨hbusyOwns, rfl⟩ := howns.of_insert hbusy
      refine ⟨hdisjoint.2, ?_, ?_, h.idle_owns, hbusyOwns, hkept⟩
      · rintro _ ⟨⟩
        exact ⟨rfl, hdisjoint.1, hbusy⟩
      · rw [← hunion]
        ext c
        simp

/-- A node on its way into the idle map, where it is linked without loss, is accounted for. -/
theorem Accounts.of_insertNode_idle {pool : ConnectionPool Conn} {node : Node Conn Conn}
    {stock : Finset Conn}
    (h : Accounts ⟨(insertNode pool.mConnectionsIdle node).1, pool.mConnectionsBusy,
      pool.destroyed ++ dropped (insertNode pool.mConnectionsIdle node).2⟩ none stock) :
    pool.Accounts node stock := by
  have hswapped : Accounts ⟨pool.mConnectionsBusy, pool.mConnectionsIdle, pool.destroyed⟩ node
      stock := Accounts.of_insertNode_busy h.swap
  exact hswapped.swap

/-- **At every position of the code of a member** the pool accounts for its connections, together
with the node at hand. -/
theorem Between.accounts {c : LockedCall ι Conn} {before pool : ConnectionPool Conn}
    {position : Position ι Conn} (h : Between c before position pool) {l : Lending Conn}
    (hbefore : before.Represents l) (hadmits : before.admits c) :
    pool.Accounts (atHand position) l.stock := by
  obtain ⟨l', hstock, hafter⟩ := hbefore.atomic hadmits
  rw [← h.pending_eq] at hafter
  have hafter := hafter.accounts
  rw [hstock] at hafter
  have hsame : ¬ Changed position → pool.Accounts none l.stock := by
    intro hposition
    rw [h.unchanged hposition]
    exact hbefore.accounts
  cases position with
  | extracted this key node calls => exact Accounts.of_insertNode_busy hafter
  | released node => exact Accounts.of_insertNode_idle hafter
  | done result => exact hafter
  | search => exact hsame id
  | unhealthy => exact hsame id
  | found => exact hsame id
  | release => exact hsame id
  | releasing => exact hsame id
  | beating => exact hsame id
  | size => exact hsame id
  | sizePlus => exact hsame id
  | sizeIdle => exact hsame id
  | sizeBusy => exact hsame id
  | valid => exact hsame id

end ConnectionPool

end AsabruEngine
