import AsabruEngine.Pool.Raii
import AsabruEngine.Pool.Serializable

/-! # Proxies as owners among threads

Threads that release connections only by destroying proxies have what a proxy promises: as long as
no call works on a proxy, its connection is busy, no other proxy has it, and no thread inside the
pool calls anything on it, whatever the other threads are in the middle of.

`HasToItself` is what such a proxy has. `RaiiStep` singles out the steps that are allowed;
`raiiCall_serial` says that what completes is then an allowed call on the `World`, so that the
correspondence proved there holds (`raiiInv_step`). `threads_own` reads it off, for the states in
the middle of calls and for a pool whose mutex is free. -/

namespace AsabruEngine

open NodeMap CriticalSections

variable {ι π τ Conn : Type*} [DecidableEq ι] [DecidableEq π] [DecidableEq τ] [DecidableEq Conn]

namespace Threads

variable {z z' : Threads ι π τ Conn} {w w' : World ι π Conn}

/-- The steps of RAII use: nobody calls `release_connection`, and no proxy that points to a pool is
assigned over. -/
def RaiiStep (z : Threads ι π τ Conn) : ThreadStep ι π τ Conn → Prop
  | .call _ (.onProxy _ (.releaseConnection _)) => False
  | .moveAssign src dst => src = dst ∨ ∀ proxy, z.slots dst = .alive proxy → proxy.mPool = none
  | _ => True

/-- A request to release a connection by hand. -/
def ReleasesByHand : Request ι π → Prop
  | .onProxy _ (.releaseConnection _) => True
  | _ => False

/-- What RAII use by threads keeps: they are on the way of a run of RAII calls, and no release by
hand is under way. -/
structure RaiiInv (vectors : ι → ConnectionVector Conn) (z : Threads ι π τ Conn)
    (w : World ι π Conn) : Prop where
  refines : z.Refines w
  world : World.RaiiInv vectors w
  request : ∀ t call, z.underWay t = some call → ¬ ReleasesByHand call.request

/-! ## One step -/

omit [DecidableEq ι] [DecidableEq π] [DecidableEq Conn] in
/-- The requests under way after a thread's call has begun or ended. -/
theorem not_releasesByHand_update {underWay : τ → Option (UnderWay ι π Conn)} {t : τ}
    {now : Option (UnderWay ι π Conn)}
    (h : ∀ u call, underWay u = some call → ¬ ReleasesByHand call.request)
    (hnow : ∀ call, now = some call → ¬ ReleasesByHand call.request) (u : τ)
    (call : UnderWay ι π Conn) (hu : Function.update underWay t now u = some call) :
    ¬ ReleasesByHand call.request := by
  rw [Function.update_apply] at hu
  split at hu
  · exact hnow call hu
  · exact h u call hu

omit [DecidableEq ι] [DecidableEq Conn] in
/-- A call that is not a release by hand brings none under way. -/
theorem not_releasesByHand_call {t : τ} {request : Request ι π}
    (h : ∀ u call, z.underWay u = some call → ¬ ReleasesByHand call.request)
    (hrequest : ¬ ReleasesByHand request) (hcall : z.call t request = some z') (u : τ)
    (call : UnderWay ι π Conn) (hu : z'.underWay u = some call) :
    ¬ ReleasesByHand call.request := by
  have hnow : ∀ pool member (call : UnderWay ι π Conn),
      some (UnderWay.mk request pool member) = some call → ¬ ReleasesByHand call.request := by
    rintro pool member _ ⟨⟩
    exact hrequest
  cases request with
  | getConnection pool dst =>
      simp only [Threads.call] at hcall
      split at hcall
      · cases hcall
        exact not_releasesByHand_update h (hnow _ _) u call hu
      · cases hcall
  | onProxy p request =>
      simp only [Threads.call] at hcall
      split at hcall
      · split at hcall
        · cases hcall
          exact not_releasesByHand_update h (hnow _ _) u call hu
        · cases hcall
          exact h u call hu
      · cases hcall
  | onPool pool request =>
      cases hcall
      exact not_releasesByHand_update h (hnow _ _) u call hu

/-- A step of RAII use brings no release by hand under way. -/
theorem not_releasesByHand_step {e : ThreadStep ι π τ Conn}
    (h : ∀ u call, z.underWay u = some call → ¬ ReleasesByHand call.request)
    (hraii : z.RaiiStep e) (hstep : z.step e = some z') (u : τ) (call : UnderWay ι π Conn)
    (hu : z'.underWay u = some call) : ¬ ReleasesByHand call.request := by
  cases e with
  | call t request =>
      simp only [step] at hstep
      split at hstep
      · refine not_releasesByHand_call h ?_ hstep u call hu
        intro hrequest
        cases request with
        | getConnection pool dst => exact hrequest
        | onProxy p request =>
            cases request with
            | releaseConnection pool => exact hraii
            | destroy => exact hrequest
            | valid => exact hrequest
        | onPool pool request => exact hrequest
      · cases hstep
  | lock t answers order =>
      obtain ⟨_, _, -, -, rfl⟩ := step_lock.mp hstep
      exact h u call hu
  | turn t =>
      obtain ⟨_, -, rfl⟩ := step_turn.mp hstep
      exact h u call hu
  | unlock t =>
      obtain ⟨_, _, _, -, -, -, rfl⟩ := step_unlock.mp hstep
      exact not_releasesByHand_update h (by simp) u call hu
  | moveConstruct src dst =>
      simp only [step] at hstep
      split at hstep
      · cases hstep
        exact h u call hu
      · cases hstep
  | moveAssign src dst =>
      simp only [step] at hstep
      split at hstep
      · split at hstep
        · cases hstep
          exact h u call hu
        · cases hstep
          exact h u call hu
      · cases hstep

omit [DecidableEq ι] [DecidableEq π] [DecidableEq τ] [DecidableEq Conn] in
/-- A request that is no release by hand is a RAII call, if it is a call that changes anything. -/
theorem raiiCall_serial {request : Request ι π} (hrequest : ¬ ReleasesByHand request)
    {answers : Answers Conn} {order : List (Σ _ : Conn, Conn)} {op : Op ι π Conn}
    (hop : request.serial answers order = .op op) : w.RaiiCall op := by
  cases request with
  | getConnection pool dst =>
      cases hop
      exact trivial
  | onProxy p request =>
      cases request with
      | releaseConnection pool => exact absurd trivial hrequest
      | destroy =>
          cases hop
          exact trivial
      | valid => cases hop
  | onPool pool request =>
      cases request with
      | heartBeat =>
          cases hop
          exact trivial
      | size => cases hop
      | sizeIdle => cases hop
      | sizeBusy => cases hop

/-- What a step of RAII use completes is a RAII call. -/
theorem RaiiInv.raiiCall {vectors : ι → ConnectionVector Conn} (h : z.RaiiInv vectors w)
    {e : ThreadStep ι π τ Conn} (hraii : z.RaiiStep e) (hstep : z.step e = some z')
    {op : Op ι π Conn} {result : Returned ι Conn}
    (hcompletes : z.completes e = some (.op op, result)) : w.RaiiCall op := by
  cases e with
  | call t request =>
      cases request with
      | getConnection pool dst => cases hcompletes
      | onProxy p request =>
          simp only [completes] at hcompletes
          split at hcompletes
          · split at hcompletes
            · rw [Option.some.injEq, Prod.mk.injEq] at hcompletes
              cases request with
              | releaseConnection pool => exact hraii.elim
              | destroy =>
                  cases hcompletes.1
                  exact trivial
              | valid => cases hcompletes.1
            · cases hcompletes
          · cases hcompletes
      | onPool pool request => cases hcompletes
  | lock t answers order => cases hcompletes
  | turn t => cases hcompletes
  | unlock t =>
      simp only [completes, Option.bind_eq_some_iff, Option.map_eq_some_iff,
        Prod.mk.injEq] at hcompletes
      obtain ⟨call, ht, here, -, -, -, hop, -⟩ := hcompletes
      exact raiiCall_serial (h.request t call ht) hop
  | moveConstruct src dst =>
      cases hcompletes
      exact trivial
  | moveAssign src dst =>
      cases hcompletes
      refine hraii.imp_right fun hempty proxy hproxy => hempty proxy ?_
      -- the step is possible, so the slot assigned over is in no call
      simp only [step] at hstep
      split at hstep
      · rename_i hdst
        rw [h.refines.content, hdst] at hproxy
        rw [hdst]
        exact congrArg _ (Option.some.inj hproxy)
      · cases hstep

/-- Serving a RAII call keeps what RAII use keeps. -/
theorem raiiInv_serve {vectors : ι → ConnectionVector Conn}
    {call : Serial ι π Conn × Returned ι Conn} (h : World.RaiiInv vectors w)
    (hraii : ∀ op, call.1 = .op op → w.RaiiCall op)
    (hserve : w.serve call = some w') : World.RaiiInv vectors w' := by
  obtain ⟨serial, result⟩ := call
  simp only [World.serve] at hserve
  split at hserve
  · cases serial with
    | op op => exact World.raiiInv_step h (hraii op rfl) hserve
    | valid p =>
        rw [Option.map_eq_some_iff] at hserve
        obtain ⟨proxy, -, rfl⟩ := hserve
        exact h
    | size pool => exact Option.some.inj hserve ▸ h
    | sizeIdle pool => exact Option.some.inj hserve ▸ h
    | sizeBusy pool => exact Option.some.inj hserve ▸ h
  · cases hserve

/-- **A step of RAII use keeps the invariant**, on the way of the call it completes. -/
theorem raiiInv_step {vectors : ι → ConnectionVector Conn} {e : ThreadStep ι π τ Conn}
    (h : z.RaiiInv vectors w) (hraii : z.RaiiStep e) (hstep : z.step e = some z') :
    ∃ w', z'.RaiiInv vectors w' := by
  obtain ⟨w', hrun, hrefines⟩ := refines_step h.refines hstep
  refine ⟨w', hrefines, ?_, not_releasesByHand_step h.request hraii hstep⟩
  cases hcompletes : z.completes e with
  | none =>
      rw [hcompletes] at hrun
      cases hrun
      exact h.world
  | some call =>
      rw [hcompletes, Option.toList_some, Runs.run_singleton] at hrun
      obtain ⟨serial, result⟩ := call
      refine raiiInv_serve h.world (fun op hop => ?_) hrun
      obtain rfl : serial = .op op := hop
      exact h.raiiCall hraii hstep hcompletes

/-- RAII use by threads is always on the way of a run of RAII calls. -/
theorem exists_raiiInv {vectors : ι → ConnectionVector Conn}
    {steps : List (ThreadStep ι π τ Conn)}
    (hraii : Runs.Along step RaiiStep (start vectors) steps)
    (hrun : Runs.run step (start vectors) steps = some z) : ∃ w, z.RaiiInv vectors w := by
  refine Runs.run_invariant step (I := fun z => ∃ w, z.RaiiInv vectors w) ?_ ?_ hraii hrun
  · rintro z e z' ⟨w, h⟩ hstep hz'
    exact raiiInv_step h hstep hz'
  · refine ⟨.start vectors, refines_start vectors, World.raiiInv_start vectors, ?_⟩
    intro t call hnone
    cases hnone

/-! ## What a proxy that no call works on has -/

/-- The proxy in a slot has a connection of a pool to itself. -/
structure HasToItself (z : Threads ι π τ Conn) (i : ι) (p : π) (c : Conn) : Prop where
  /-- The pool has the connection among the busy ones. -/
  busy : c ∈ (z.sections.objects i).mConnectionsBusy
  /-- No other proxy has it. -/
  once : ∀ q proxy, (z.slots q).content = some proxy → proxy.mPool = some i →
    proxy.mConnection = some c → q = p
  /-- No thread inside the pool is to call a member of it. -/
  untouched : ∀ t here, z.sections.inside t = some here → here.object = i →
    c ∉ ConnectionPool.ahead here.position

omit [DecidableEq π] [DecidableEq τ] in
/-- What the proxy in a slot has from a pool is held there. -/
theorem Refines.held_eq_some_iff (h : z.Refines w) {i : ι} {p : π} {c : Conn} :
    w.held i p = some c ↔
      ∃ proxy, (z.slots p).content = some proxy ∧ proxy.mPool = some i ∧
        proxy.mConnection = some c := by
  rw [World.held, h.content, Option.bind_eq_some_iff]
  refine exists_congr fun proxy => and_congr_right fun _ => ?_
  rw [ConnectionProxy.heldFrom, Option.ite_none_right_eq_some]

omit [DecidableEq π] [DecidableEq τ] in
/-- A thread inside a pool does not release the connection of a proxy that no call works on. -/
theorem RaiiInv.member_ne {vectors : ι → ConnectionVector Conn} (h : z.RaiiInv vectors w) {p : π}
    {proxy : ConnectionProxy ι Conn} (hp : z.slots p = .alive proxy) {c : Conn} {t : τ}
    {here : Inside ι (LockedCall ι Conn) (Position ι Conn)}
    (hinside : z.sections.inside t = some here) (hheld : w.held here.object p = some c) :
    here.call.member ≠ .releaseConnection c := by
  intro hmember
  obtain ⟨call, ht⟩ : ∃ call, z.underWay t = some call := by
    rw [← Option.ne_none_iff_exists']
    intro hnone
    rw [h.refines.outside t hnone] at hinside
    cases hinside
  obtain ⟨hobject, -, hsame⟩ := h.refines.inside t call here ht hinside
  have hholds := h.refines.holds t call ht
  have hrequest := h.request t call ht
  rw [hmember] at hsame
  rw [hobject] at hheld
  obtain ⟨request, pool, member⟩ := call
  dsimp only at hsame hheld
  subst hsame
  cases request with
  | getConnection pool' dst => cases hholds.2.1
  | onPool pool' request =>
      cases request with
      | heartBeat => cases hholds.2
      | size => cases hholds.2
      | sizeIdle => cases hholds.2
      | sizeBusy => cases hholds.2
  | onProxy q request =>
      obtain ⟨other, hslot, hlocks⟩ := hholds
      cases request with
      | releaseConnection pool' => exact hrequest trivial
      | valid =>
          rw [ProxyCall.locks, Option.bind_eq_some_iff] at hlocks
          obtain ⟨_, -, hlocks⟩ := hlocks
          rw [Option.map_eq_some_iff] at hlocks
          obtain ⟨_, -, hvalid⟩ := hlocks
          cases hvalid
      | destroy =>
          simp only [ProxyCall.locks, Option.bind_eq_some_iff, Option.map_eq_some_iff,
            Prod.mk.injEq, Member.releaseConnection.injEq] at hlocks
          obtain ⟨_, hmPool, _, hmConnection, rfl, rfl⟩ := hlocks
          -- the proxy being destroyed would have the same connection
          have hother := h.refines.held_eq_some_iff.mpr
            ⟨other, congrArg Slot.content hslot, hmPool, hmConnection⟩
          have heq := (h.world.custody _).once hother hheld
          rw [heq, hp] at hslot
          cases hslot

omit [DecidableEq π] [DecidableEq τ] in
/-- A proxy that no call works on has its connection to itself. -/
theorem RaiiInv.hasToItself {vectors : ι → ConnectionVector Conn} (h : z.RaiiInv vectors w) {p : π}
    {proxy : ConnectionProxy ι Conn} (hp : z.slots p = .alive proxy) {i : ι}
    (hmPool : proxy.mPool = some i) {c : Conn} (hmConnection : proxy.mConnection = some c) :
    z.HasToItself i p c := by
  have hheld := h.refines.held_eq_some_iff.mpr
    ⟨proxy, congrArg Slot.content hp, hmPool, hmConnection⟩
  have hbusy : c ∈ (w.pools i).mConnectionsBusy :=
    Finmap.mem_keys.mp ((h.world.custody i).mem_iff.mpr ⟨p, hheld⟩)
  refine ⟨?_, fun q other hq hpool hconnection => ?_, ?_⟩
  · cases howner : z.sections.owner i with
    | none =>
        rw [h.refines.guarded.free i howner]
        exact hbusy
    | some t =>
        obtain ⟨here, hinside, rfl⟩ := (h.refines.guarded.owned i t).mp howner
        have hmember := h.member_ne hp hinside hheld
        exact ((h.refines.guarded.held t here hinside).busy_kept c hmember).2 hbusy
  · have hother := h.refines.held_eq_some_iff.mpr ⟨other, hq, hpool, hconnection⟩
    exact (h.world.custody i).once hother hheld
  · rintro t here hinside rfl hahead
    -- what is ahead was idle when the mutex was locked
    obtain ⟨key, hkey⟩ := (h.refines.guarded.held t here hinside).ahead_idle c hahead
    obtain ⟨l, -, hpool⟩ := h.world.sound here.object
    obtain rfl := hpool.idle_owns key c hkey
    have hfree := hpool.mem_idle.mp (Finmap.mem_of_lookup_eq_some hkey)
    exact Lending.not_mem_out_of_mem_free hfree (hpool.mem_busy.mp hbusy)

/-- **Proxies own their connections among threads.** In every state that threads can bring a family
of new pools to while they release connections only by destroying proxies: a proxy that no call
works on has its connection to itself, even while other threads are in the middle of calls on the
same pool; and while the mutex of a pool is free, its busy connections are those that a proxy
has. -/
theorem threads_own (vectors : ι → ConnectionVector Conn) (steps : List (ThreadStep ι π τ Conn))
    (z : Threads ι π τ Conn) (hraii : Runs.Along step RaiiStep (start vectors) steps)
    (hrun : Runs.run step (start vectors) steps = some z) (i : ι) :
    (∀ p proxy c, z.slots p = .alive proxy → proxy.mPool = some i → proxy.mConnection = some c →
        z.HasToItself i p c) ∧
      (z.sections.owner i = none → ∀ c, c ∈ (z.sections.objects i).mConnectionsBusy ↔
        ∃ p proxy, (z.slots p).content = some proxy ∧ proxy.mPool = some i ∧
          proxy.mConnection = some c) := by
  obtain ⟨w, h⟩ := exists_raiiInv hraii hrun
  refine ⟨fun p proxy c hp hmPool hmConnection => h.hasToItself hp hmPool hmConnection,
    fun howner c => ?_⟩
  rw [h.refines.guarded.free i howner, ← Finmap.mem_keys, (h.world.custody i).mem_iff]
  exact exists_congr fun p => h.refines.held_eq_some_iff

/-- The first thread's proxy has its connection while the second thread has the next node at
hand. -/
theorem threads_own_twoSearches :
    let z := (Runs.run step (start fun _ => ⟨[7, 8], by decide⟩) twoSearches).get (by decide)
    z.HasToItself () 0 7 := by
  refine (threads_own (fun _ => ⟨[7, 8], by decide⟩) twoSearches _ ?_ (Option.some_get _).symm
    ()).1 0 ⟨some (), some 7⟩ 7 rfl rfl rfl
  refine Runs.along_of_forall_mem step ?_ _
  simp [twoSearches, RaiiStep]

end Threads

end AsabruEngine
