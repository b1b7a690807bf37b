import AsabruEngine.Pool.Threads

/-! # Every interleaving is a run of atomic calls

The threads of a family of pools and a `World` of atomic calls are related step by step: the pools
whose mutex is free are those of the `World`, the others are on the way to what the call inside
makes of them, and a call counts when it returns. So what holds of the runs of atomic calls holds of
every interleaving, and in the middle of a call nothing is missing but the node at hand.

* `Refines` is the relation. `Refines.call`, `Refines.lock`, `Refines.turn` and `Refines.unlock`
  keep it, one lemma for each kind of step, and `refines_step` and `refines_run` put them together.
* `threads_serializable` is the run of atomic calls behind an interleaving.
* `threads_account` says what the pools have at any moment, from `Sound` of that run. -/

namespace AsabruEngine

open NodeMap CriticalSections

variable {ι π τ Conn : Type*}

/-! ## What the threads keep -/

/-- A call under way has the slot it works on to itself, and locks what its request asks for. -/
def UnderWay.Holds (call : UnderWay ι π Conn) (t : τ) (slots : π → Slot ι τ Conn) : Prop :=
  match call.request with
  | .getConnection pool dst =>
      call.pool = pool ∧ call.member = .getConnection ∧ slots dst = .inCall t none
  | .onProxy p request =>
      ∃ proxy, slots p = .inCall t (some proxy) ∧
        request.locks proxy = some (call.pool, call.member)
  | .onPool pool request => call.pool = pool ∧ call.member = request.member

namespace Threads

variable [DecidableEq ι] [DecidableEq π] [DecidableEq τ] [DecidableEq Conn]

/-- The threads are on the way to where a run of atomic calls has got to. -/
structure Refines (z : Threads ι π τ Conn) (w : World ι π Conn) : Prop where
  guarded : z.sections.Guarded ConnectionPool.code ConnectionPool.Between w.pools
  content : ∀ p, w.proxies p = (z.slots p).content
  outside : ∀ t, z.underWay t = none → z.sections.inside t = none
  inside : ∀ t call here, z.underWay t = some call → z.sections.inside t = some here →
    here.object = call.pool ∧ here.call.this = call.pool ∧ here.call.member = call.member
  holds : ∀ t call, z.underWay t = some call → call.Holds t z.slots

end Threads

/-! ## The calls on a proxy -/

section Proxies

variable [DecidableEq ι] [DecidableEq π] [DecidableEq Conn]

omit [DecidableEq ι] [DecidableEq Conn] in
/-- Putting the proxy that is in a slot there changes nothing. -/
theorem update_proxies_self {w : World ι π Conn} {p : π} {proxy : ConnectionProxy ι Conn}
    (hp : w.proxies p = some proxy) : Function.update w.proxies p (some proxy) = w.proxies := by
  rw [← hp]
  exact Function.update_eq_self p w.proxies

/-- A call on a proxy that locks nothing returns what the atomic call returns, and leaves the same
behind. -/
theorem ProxyCall.serve_of_locks_none (call : ProxyCall ι) {w : World ι π Conn} {p : π}
    {proxy : ConnectionProxy ι Conn} (hp : w.proxies p = some proxy)
    (hlocks : call.locks proxy = none) :
    w.serve (call.serial p, call.unlocked) =
      some ⟨w.pools, Function.update w.proxies p (call.leaves proxy)⟩ := by
  cases call with
  | releaseConnection pool =>
      rw [locks, Option.map_eq_none_iff] at hlocks
      simp only [World.serve, serial, World.returns, unlocked, if_true]
      rw [World.step_releaseConnection]
      refine ⟨proxy, hp, ?_⟩
      rw [hlocks, ConnectionPool.releaseConnection, Function.update_eq_self]
      exact congrArg _ (update_proxies_self hp)
  | destroy =>
      simp only [World.serve, serial, World.returns, unlocked, if_true]
      rw [World.step_destroy]
      refine ⟨proxy, hp, ?_⟩
      have hpools : proxy.destructor w.pools = w.pools := by
        cases hmPool : proxy.mPool with
        | none => exact ConnectionProxy.destructor_of_mPool_none hmPool w.pools
        | some i =>
            rw [locks, hmPool, Option.bind_some, Option.map_eq_none_iff] at hlocks
            rw [ConnectionProxy.destructor_of_mPool_some hmPool, hlocks,
              ConnectionPool.releaseConnection, Function.update_eq_self]
      rw [hpools]
      rfl
  | valid =>
      have hvalid : proxy.valid w.pools = false := by
        unfold ConnectionProxy.valid
        split
        · rename_i hmPool hmConnection
          simp [locks, hmPool, hmConnection] at hlocks
        · rfl
      simp only [World.serve, serial, World.returns, unlocked, hp, Option.elim_some, hvalid,
        if_true, Option.map_some]
      exact congrArg some (congrArg (World.mk w.pools) (update_proxies_self hp).symm)

/-- A call on a proxy returns what the member it runs under the mutex returns, and leaves the pool
as that member does. -/
theorem ProxyCall.serve_of_locks_some (call : ProxyCall ι) {w : World ι π Conn} {p : π}
    {proxy : ConnectionProxy ι Conn} (hp : w.proxies p = some proxy)
    {c : LockedCall ι Conn} {i : ι} (hlocks : call.locks proxy = some (i, c.member)) :
    w.serve (call.serial p, ((w.pools i).atomic c).1) =
      some ⟨Function.update w.pools i ((w.pools i).atomic c).2,
        Function.update w.proxies p (call.leaves proxy)⟩ := by
  cases call with
  | releaseConnection pool =>
      rw [locks, Option.map_eq_some_iff] at hlocks
      obtain ⟨connection, hconnection, heq⟩ := hlocks
      rw [Prod.mk.injEq] at heq
      obtain ⟨rfl, hmember⟩ := heq
      simp only [World.serve, serial, World.returns, ConnectionPool.atomic, ← hmember, if_true]
      rw [World.step_releaseConnection]
      refine ⟨proxy, hp, ?_⟩
      rw [hconnection]
      exact congrArg _ (update_proxies_self hp)
  | destroy =>
      rw [locks, Option.bind_eq_some_iff] at hlocks
      obtain ⟨pool, hmPool, hlocks⟩ := hlocks
      rw [Option.map_eq_some_iff] at hlocks
      obtain ⟨connection, hconnection, heq⟩ := hlocks
      rw [Prod.mk.injEq] at heq
      obtain ⟨rfl, hmember⟩ := heq
      simp only [World.serve, serial, World.returns, ConnectionPool.atomic, ← hmember, if_true]
      rw [World.step_destroy]
      refine ⟨proxy, hp, ?_⟩
      rw [ConnectionProxy.destructor_of_mPool_some hmPool, hconnection]
      rfl
  | valid =>
      rw [locks, Option.bind_eq_some_iff] at hlocks
      obtain ⟨pool, hmPool, hlocks⟩ := hlocks
      rw [Option.map_eq_some_iff] at hlocks
      obtain ⟨connection, hconnection, heq⟩ := hlocks
      rw [Prod.mk.injEq] at heq
      obtain ⟨rfl, hmember⟩ := heq
      simp only [World.serve, serial, World.returns, ConnectionPool.atomic, ← hmember, hp,
        Option.elim_some, ConnectionProxy.valid, hmPool, hconnection, if_true, Option.map_some,
        Function.update_eq_self]
      exact congrArg some (congrArg (World.mk w.pools) (update_proxies_self hp).symm)

/-- A call on a pool returns what the member returns, and leaves the pools as they are. -/
theorem PoolCall.serve (call : PoolCall) {w : World ι π Conn} {c : LockedCall ι Conn} {i : ι}
    (hmember : c.member = call.member) (hadmits : (w.pools i).admits c) :
    w.serve ((Request.onPool i call).serial c.answers c.order, ((w.pools i).atomic c).1) = some w ∧
      ((w.pools i).atomic c).2 = w.pools i := by
  cases call with
  | heartBeat =>
      have horder : Iterates c.order (w.pools i).mConnectionsIdle := by
        rw [ConnectionPool.admits, hmember] at hadmits
        exact of_decide_eq_true hadmits
      simp only [World.serve, Request.serial, World.returns, ConnectionPool.atomic, hmember,
        PoolCall.member, if_true]
      rw [World.step_heartBeat]
      exact ⟨⟨horder, rfl⟩, rfl⟩
  | size =>
      simp [World.serve, Request.serial, World.returns, ConnectionPool.atomic, hmember, member]
  | sizeIdle =>
      simp [World.serve, Request.serial, World.returns, ConnectionPool.atomic, hmember, member]
  | sizeBusy =>
      simp [World.serve, Request.serial, World.returns, ConnectionPool.atomic, hmember, member]

end Proxies

/-! ## One step of one thread -/

/-- A slot that no call of a thread has may change without the thread noticing. -/
theorem UnderWay.Holds.update [DecidableEq π] {call : UnderWay ι π Conn} {t : τ}
    {slots : π → Slot ι τ Conn} (h : call.Holds t slots) {p : π}
    (hp : ∀ content, slots p ≠ .inCall t content) (slot : Slot ι τ Conn) :
    call.Holds t (Function.update slots p slot) := by
  have hother : ∀ {q : π} {content}, slots q = .inCall t content →
      Function.update slots p slot q = .inCall t content := by
    intro q content hq
    rw [Function.update_of_ne, hq]
    rintro rfl
    exact hp content hq
  obtain ⟨request, pool, member⟩ := call
  cases request with
  | getConnection pool' dst =>
      obtain ⟨hpool, hmember, hslot⟩ := h
      exact ⟨hpool, hmember, hother hslot⟩
  | onProxy q request =>
      obtain ⟨proxy, hslot, hlocks⟩ := h
      exact ⟨proxy, hother hslot, hlocks⟩
  | onPool pool' request => exact h

namespace Threads

variable [DecidableEq ι] [DecidableEq π] [DecidableEq τ] [DecidableEq Conn]
  {z z' : Threads ι π τ Conn} {w : World ι π Conn} {t : τ}

omit [DecidableEq ι] [DecidableEq π] [DecidableEq τ] in
theorem refines_start (vectors : ι → ConnectionVector Conn) :
    (start vectors : Threads ι π τ Conn).Refines (.start vectors) := by
  refine ⟨Sections.guarded_start _, fun _ => rfl, fun _ _ => rfl, ?_, ?_⟩
  · intro t call here hnone
    cases hnone
  · intro t call hnone
    cases hnone

omit [DecidableEq ι] [DecidableEq τ] in
/-- A slot that is in no call under way changes, with the proxy in it. -/
theorem Refines.update_slot (h : z.Refines w) {p : π}
    (hp : ∀ u call content, z.underWay u = some call → z.slots p ≠ .inCall u content)
    (slot : Slot ι τ Conn) :
    Refines ⟨z.sections, Function.update z.slots p slot, z.underWay⟩
      ⟨w.pools, Function.update w.proxies p slot.content⟩ := by
  refine ⟨h.guarded, fun q => ?_, h.outside, h.inside, fun u call hu => ?_⟩
  · dsimp only
    rw [Function.update_apply, Function.update_apply]
    split
    · rfl
    · exact h.content q
  · exact (h.holds u call hu).update (fun content => hp u call content hu) slot

omit [DecidableEq ι] [DecidableEq π] in
/-- A thread that is in no call starts one. -/
theorem Refines.start_call (h : z.Refines w) (ht : z.underWay t = none)
    {call : UnderWay ι π Conn} (hcall : call.Holds t z.slots) :
    Refines ⟨z.sections, z.slots, Function.update z.underWay t (some call)⟩ w := by
  refine ⟨h.guarded, h.content, fun u hu => ?_, fun u call' here hu hinside => ?_,
    fun u call' hu => ?_⟩
  · dsimp only at hu
    rw [Function.update_apply] at hu
    split at hu
    · cases hu
    · exact h.outside u hu
  · dsimp only at hu hinside
    have hut : u ≠ t := by
      rintro rfl
      rw [h.outside u ht] at hinside
      cases hinside
    rw [Function.update_of_ne hut] at hu
    exact h.inside u call' here hu hinside
  · dsimp only at hu
    rw [Function.update_apply] at hu
    split at hu
    · rename_i hut
      rw [Option.some.injEq] at hu
      rw [← hu, hut]
      exact hcall
    · exact h.holds u call' hu

omit [DecidableEq ι] [DecidableEq τ] in
/-- A call takes a slot that is in no call for itself. -/
theorem Refines.take_slot (h : z.Refines w) {p : π} {slot : Slot ι τ Conn}
    (hp : z.slots p = slot) (hslot : ∀ u content, slot ≠ .inCall u content) (t : τ) :
    Refines ⟨z.sections, Function.update z.slots p (.inCall t slot.content), z.underWay⟩ w := by
  have htaken := h.update_slot (fun u _ content _ => hp ▸ hslot u content)
    (.inCall t slot.content)
  have hsame : Function.update w.proxies p (Slot.inCall t slot.content : Slot ι τ Conn).content =
      w.proxies := by
    change Function.update w.proxies p slot.content = w.proxies
    rw [← hp, ← h.content p, Function.update_eq_self]
  rw [hsame] at htaken
  exact htaken

/-- **Making a call** completes it if there is nothing to lock, and changes nothing otherwise. -/
theorem Refines.call (h : z.Refines w) (ht : z.underWay t = none) {request : Request ι π}
    (hcall : z.call t request = some z') :
    ∃ w', Runs.run World.serve w (z.completes (.call t request)).toList = some w' ∧
      z'.Refines w' := by
  cases request with
  | getConnection pool dst =>
      simp only [Threads.call] at hcall
      split at hcall
      · rename_i hdst
        rw [Option.some.injEq] at hcall
        subst hcall
        refine ⟨w, rfl, ?_⟩
        have htaken := h.take_slot hdst (by simp) t
        exact htaken.start_call ht ⟨rfl, rfl, Function.update_self ..⟩
      · cases hcall
  | onProxy p request =>
      simp only [Threads.call] at hcall
      split at hcall
      · rename_i proxy hp
        have hproxy : w.proxies p = some proxy := (h.content p).trans (congrArg _ hp)
        split at hcall
        · rename_i pool member hlocks
          rw [Option.some.injEq] at hcall
          subst hcall
          refine ⟨w, by simp [completes, hp, hlocks], ?_⟩
          have htaken := h.take_slot hp (by simp) t
          exact htaken.start_call ht ⟨proxy, Function.update_self .., hlocks⟩
        · rename_i hlocks
          rw [Option.some.injEq] at hcall
          subst hcall
          have hleft := h.update_slot (p := p) (by simp [hp]) (.holding (request.leaves proxy))
          rw [Slot.content_holding] at hleft
          refine ⟨_, ?_, hleft⟩
          simp only [completes, hp, hlocks, Option.isNone_none, if_true, Option.toList_some,
            Runs.run_singleton]
          exact request.serve_of_locks_none hproxy hlocks
      · cases hcall
  | onPool pool request =>
      simp only [Threads.call, Option.some.injEq] at hcall
      subst hcall
      exact ⟨w, rfl, h.start_call ht ⟨rfl, rfl⟩⟩

/-- **Locking a mutex** completes nothing. -/
theorem Refines.lock (h : z.Refines w) {answers : Answers Conn} {order : List (Σ _ : Conn, Conn)}
    (hstep : z.step (.lock t answers order) = some z') : z'.Refines w := by
  obtain ⟨call, sections, ht, hsections, rfl⟩ := step_lock.mp hstep
  have hguarded := h.guarded.lock ConnectionPool.computes hsections
  obtain ⟨-, -, -, rfl⟩ := Sections.step_lock.mp hsections
  refine ⟨hguarded, h.content, fun u hu => ?_, fun u call' here hu hinside => ?_, h.holds⟩
  · dsimp only at hu ⊢
    rw [Function.update_of_ne, h.outside u hu]
    rintro rfl
    rw [ht] at hu
    cases hu
  · dsimp only at hu hinside
    rw [Function.update_apply] at hinside
    split at hinside
    · rename_i hut
      rw [Option.some.injEq] at hinside
      rw [hut, ht, Option.some.injEq] at hu
      rw [← hinside, ← hu]
      exact ⟨rfl, rfl, rfl⟩
    · exact h.inside u call' here hu hinside

/-- **A turn** completes nothing. -/
theorem Refines.turn (h : z.Refines w) (hstep : z.step (.turn t) = some z') : z'.Refines w := by
  obtain ⟨sections, hsections, rfl⟩ := step_turn.mp hstep
  have hguarded := h.guarded.turn ConnectionPool.computes hsections
  obtain ⟨here, l, pool, ht, -, rfl⟩ := Sections.step_turn.mp hsections
  refine ⟨hguarded, h.content, fun u hu => ?_, fun u call here' hu hinside => ?_, h.holds⟩
  · dsimp only at hu ⊢
    rw [Function.update_of_ne, h.outside u hu]
    rintro rfl
    rw [h.outside u hu] at ht
    cases ht
  · dsimp only at hu hinside
    rw [Function.update_apply] at hinside
    split at hinside
    · rename_i hut
      rw [Option.some.injEq] at hinside
      rw [← hinside]
      exact h.inside t call here (hut ▸ hu) ht
    · exact h.inside u call here' hu hinside

omit [DecidableEq π] in
/-- Unlocking ends the call of the thread and completes what it did under the mutex. -/
theorem Refines.finish (h : z.Refines w)
    {sections : Sections ι τ (LockedCall ι Conn) (ConnectionPool Conn) (Position ι Conn)}
    (hsections : z.sections.step ConnectionPool.code (.unlock t) = some sections)
    {here : Inside ι (LockedCall ι Conn) (Position ι Conn)}
    (hinside : z.sections.inside t = some here) :
    Refines ⟨sections, z.slots, Function.update z.underWay t none⟩
      ⟨Function.update w.pools here.object ((w.pools here.object).atomic here.call).2,
        w.proxies⟩ := by
  have hguarded := h.guarded.unlock ConnectionPool.computes hsections hinside
  obtain ⟨here', result, hinside', -, rfl⟩ := Sections.step_unlock.mp hsections
  refine ⟨hguarded, h.content, fun u hu => ?_, fun u call here hu hinside => ?_,
    fun u call hu => ?_⟩
  · dsimp only at hu ⊢
    rw [Function.update_apply] at hu ⊢
    split at hu
    · rename_i hut
      rw [if_pos hut]
    · rename_i hut
      rw [if_neg hut]
      exact h.outside u hu
  · dsimp only at hu hinside
    rw [Function.update_apply] at hu hinside
    split at hu
    · cases hu
    · rename_i hut
      rw [if_neg hut] at hinside
      exact h.inside u call here hu hinside
  · dsimp only at hu
    rw [Function.update_apply] at hu
    split at hu
    · cases hu
    · exact h.holds u call hu

/-- **Unlocking a mutex** completes the call: it returns what the atomic call returns, and leaves
the pools and the proxies as that call does. -/
theorem Refines.unlock (h : z.Refines w) (hstep : z.step (.unlock t) = some z') :
    ∃ w', Runs.run World.serve w (z.completes (.unlock t)).toList = some w' ∧ z'.Refines w' := by
  obtain ⟨call, result, sections, ht, hresult, hsections, rfl⟩ := step_unlock.mp hstep
  obtain ⟨here, -, hinside, -⟩ := Sections.step_unlock.mp hsections
  have hfinished := h.finish hsections hinside
  have hcompletes : z.completes (.unlock t) =
      some (call.request.serial here.call.answers here.call.order, result) := by
    simp [completes, ht, hinside, hresult]
  rw [Sections.result_eq_some_iff] at hresult
  obtain ⟨here', hinside', hturn⟩ := hresult
  obtain rfl : here = here' := Option.some.inj (hinside.symm.trans hinside')
  have hadmits := h.guarded.admitted t here hinside
  have hatomic := h.guarded.result_eq ConnectionPool.computes hinside hturn
  obtain ⟨hobject, hthis, hmember⟩ := h.inside t call here ht hinside
  have hholds := h.holds t call ht
  rw [hobject] at hfinished hadmits hatomic
  rw [hcompletes, Option.toList_some, Runs.run_singleton]
  -- no call under way has the slot of a call that has returned
  have hleft : ∀ {p : π} {content}, z.slots p = .inCall t content → ∀ u call' content',
      Function.update z.underWay t none u = some call' → z.slots p ≠ .inCall u content' := by
    intro p content hp u call' content' hu heq
    rw [hp, Slot.inCall.injEq] at heq
    rw [← heq.1, Function.update_self] at hu
    cases hu
  obtain ⟨request, pool, member⟩ := call
  cases request with
  | getConnection pool' dst =>
      obtain ⟨hpool, hget, hslot⟩ := hholds
      dsimp only at hpool hget hmember hthis hobject hatomic hadmits hfinished ⊢
      subst hpool
      rw [hget] at hmember
      have hdst : w.proxies dst = none := (h.content dst).trans (congrArg _ hslot)
      have horder : Iterates here.call.order (w.pools pool).mConnectionsIdle := by
        change (w.pools pool).admits here.call = true at hadmits
        rw [ConnectionPool.admits, hmember] at hadmits
        exact of_decide_eq_true hadmits
      simp only [ConnectionPool.atomic, hmember, hthis] at hatomic hfinished
      subst hatomic
      refine ⟨_, ?_, hfinished.update_slot (hleft hslot) _⟩
      simp only [World.serve, Request.serial, World.returns, if_true]
      rw [World.step_getConnection]
      exact ⟨hdst, horder, rfl⟩
  | onProxy p request =>
      obtain ⟨proxy, hslot, hlocks⟩ := hholds
      dsimp only at hlocks hmember hatomic hfinished ⊢
      have hp : w.proxies p = some proxy := (h.content p).trans (congrArg _ hslot)
      rw [← hmember] at hlocks
      have hreturned := hfinished.update_slot (hleft hslot) (.holding (request.leaves proxy))
      rw [Slot.content_holding] at hreturned
      rw [hatomic]
      refine ⟨_, request.serve_of_locks_some hp hlocks, ?_⟩
      simp only [returnTo, hslot, Slot.content]
      exact hreturned
  | onPool pool' request =>
      obtain ⟨hpool, hrequest⟩ := hholds
      dsimp only at hpool hrequest hmember hatomic hadmits hfinished ⊢
      subst hpool
      obtain ⟨hserve, hsame⟩ := request.serve (hmember.trans hrequest) hadmits
      rw [hatomic]
      refine ⟨_, hserve, ?_⟩
      rw [hsame, Function.update_eq_self] at hfinished
      exact hfinished

omit [DecidableEq ι] [DecidableEq τ] in
/-- **Moving a proxy** needs no mutex. -/
theorem Refines.moved (h : z.Refines w) {src dst : π} {proxy : ConnectionProxy ι Conn}
    (hsrc : z.slots src = .alive proxy) (hdst : ∀ u content, z.slots dst ≠ .inCall u content)
    (hne : dst ≠ src) :
    Refines ⟨z.sections, Function.update (Function.update z.slots src (.alive .null)) dst
        (.alive proxy), z.underWay⟩
      ⟨w.pools, Function.update (Function.update w.proxies src (some .null)) dst (some proxy)⟩ := by
  have hleft := h.update_slot (p := src) (by simp [hsrc]) (.alive .null)
  refine hleft.update_slot (fun u _ content _ => ?_) (.alive proxy)
  dsimp only
  rw [Function.update_of_ne hne]
  exact hdst u content

/-- **Every step** of a thread completes the calls of a run of the atomic ones. -/
theorem refines_step {e : ThreadStep ι π τ Conn} (h : z.Refines w) (hstep : z.step e = some z') :
    ∃ w', Runs.run World.serve w (z.completes e).toList = some w' ∧ z'.Refines w' := by
  cases e with
  | call t request =>
      simp only [step] at hstep
      split at hstep
      · rename_i ht
        exact h.call (Option.isNone_iff_eq_none.mp ht) hstep
      · cases hstep
  | lock t answers order => exact ⟨w, rfl, h.lock hstep⟩
  | turn t => exact ⟨w, rfl, h.turn hstep⟩
  | unlock t => exact h.unlock hstep
  | moveConstruct src dst =>
      simp only [step] at hstep
      split at hstep
      · rename_i proxy hsrc hdst
        rw [Option.some.injEq] at hstep
        subst hstep
        have hne : dst ≠ src := by
          rintro rfl
          rw [hsrc] at hdst
          cases hdst
        refine ⟨_, ?_, h.moved hsrc (by simp [hdst]) hne⟩
        simp only [completes, Option.toList_some, Runs.run_singleton, World.serve, World.returns,
          if_true]
        rw [World.step_moveConstruct]
        exact ⟨proxy, (h.content src).trans (congrArg _ hsrc),
          (h.content dst).trans (congrArg _ hdst), rfl⟩
      · cases hstep
  | moveAssign src dst =>
      simp only [step] at hstep
      split at hstep
      · rename_i proxy old hsrc hdst
        have hproxy : w.proxies src = some proxy := (h.content src).trans (congrArg _ hsrc)
        have hold : w.proxies dst = some old := (h.content dst).trans (congrArg _ hdst)
        simp only [completes, Option.toList_some, Runs.run_singleton, World.serve, World.returns,
          if_true]
        split at hstep
        · rename_i hself
          rw [Option.some.injEq] at hstep
          subst hstep
          refine ⟨w, ?_, h⟩
          rw [World.step_moveAssign]
          exact ⟨proxy, old, hproxy, hold, Or.inl ⟨hself, rfl⟩⟩
        · rename_i hne
          rw [Option.some.injEq] at hstep
          subst hstep
          refine ⟨_, ?_, h.moved hsrc (by simp [hdst]) (Ne.symm hne)⟩
          rw [World.step_moveAssign]
          exact ⟨proxy, old, hproxy, hold, Or.inr ⟨hne, rfl⟩⟩
      · cases hstep

/-- Every run of the threads is on the way of a run of the calls it completes. -/
theorem refines_run {vectors : ι → ConnectionVector Conn} {steps : List (ThreadStep ι π τ Conn)}
    (hrun : Runs.run step (start vectors) steps = some z) :
    ∃ w, Runs.run World.serve (.start vectors)
        (Runs.emitted step completes (start vectors) steps) = some w ∧ z.Refines w :=
  Runs.run_simulates step World.serve completes (fun _ _ _ _ h hstep => refines_step h hstep)
    (refines_start vectors) hrun

/-! ## What every interleaving does -/

/-- **Every interleaving is a run of atomic calls.** Whatever the threads call on a family of new
pools and in whatever order they take their turns, the calls that have returned, in the order of
their returns, are a run of the calls one after the other, each with the result it has there. That
run leads to the proxies there are, and to every pool whose mutex is free. -/
theorem threads_serializable (vectors : ι → ConnectionVector Conn)
    (steps : List (ThreadStep ι π τ Conn)) (z : Threads ι π τ Conn)
    (hrun : Runs.run step (start vectors) steps = some z) :
    ∃ w, Runs.run World.serve (.start vectors)
        (Runs.emitted step completes (start vectors) steps) = some w ∧
      (∀ p, w.proxies p = (z.slots p).content) ∧
      ∀ i, z.sections.owner i = none → z.sections.objects i = w.pools i := by
  obtain ⟨w, hserve, h⟩ := refines_run hrun
  exact ⟨w, hserve, h.content, h.guarded.free⟩

/-- Two threads search one pool, the second one waiting for the mutex meanwhile. -/
def twoSearches : List (ThreadStep Unit ℕ ℕ ℕ) :=
  [.call 0 (.getConnection () 0), .call 1 (.getConnection () 1),
    .lock 0 ⟨fun _ => .threw, fun _ => .returned true, fun _ => .threw⟩ [⟨7, 7⟩, ⟨8, 8⟩],
    .turn 0, .turn 0, .turn 0, .unlock 0,
    .lock 1 ⟨fun _ => .threw, fun _ => .threw, fun _ => .threw⟩ [⟨8, 8⟩], .turn 1, .turn 1]

/-- The second thread is stopped with the node of the second connection at hand. -/
theorem threads_serializable_twoSearches :
    let z := (Runs.run step (start fun _ => ⟨[7, 8], by decide⟩) twoSearches).get (by decide)
    ∃ w, Runs.run World.serve (.start fun _ => ⟨[7, 8], by decide⟩)
        (Runs.emitted step completes (start fun _ => ⟨[7, 8], by decide⟩) twoSearches) = some w ∧
      (∀ p, w.proxies p = (z.slots p).content) ∧
      ∀ i, z.sections.owner i = none → z.sections.objects i = w.pools i :=
  threads_serializable _ _ _ (Option.some_get _).symm

omit [DecidableEq τ] in
/-- A call that is served keeps every pool sound. -/
theorem sound_serve {vectors : ι → ConnectionVector Conn} {w w' : World ι π Conn}
    {call : Serial ι π Conn × Returned ι Conn} (h : World.Sound vectors w)
    (hserve : w.serve call = some w') : World.Sound vectors w' := by
  obtain ⟨serial, result⟩ := call
  simp only [World.serve] at hserve
  split at hserve
  · cases serial with
    | op op => exact World.sound_step h hserve
    | valid p =>
        rw [Option.map_eq_some_iff] at hserve
        obtain ⟨proxy, -, rfl⟩ := hserve
        exact h
    | size pool => exact Option.some.inj hserve ▸ h
    | sizeIdle pool => exact Option.some.inj hserve ▸ h
    | sizeBusy pool => exact Option.some.inj hserve ▸ h
  · cases hserve

/-- Every state that threads come to is on the way to sound pools. -/
theorem exists_refines_sound {vectors : ι → ConnectionVector Conn}
    {steps : List (ThreadStep ι π τ Conn)}
    (hrun : Runs.run step (start vectors) steps = some z) :
    ∃ w, z.Refines w ∧ World.Sound vectors w := by
  obtain ⟨w, hserve, h⟩ := refines_run hrun
  have hsound : Runs.Always World.serve (World.Sound vectors) (.start vectors)
      (Runs.emitted step completes (start vectors) steps) :=
    Runs.always_of_invariant World.serve (fun _ h => h)
      (fun _ _ _ h hserve => sound_serve h hserve) (World.sound_start vectors) _
  exact ⟨w, h, hsound.of_run World.serve hserve⟩

/-- The node that the thread inside a pool has at hand. -/
def hand (z : Threads ι π τ Conn) (i : ι) : Node Conn Conn :=
  (z.sections.owner i).bind fun t =>
    (z.sections.inside t).bind fun here => ConnectionPool.atHand here.position

/-- **No interleaving loses a connection.** In every state that threads can bring a family of new
pools to, in the middle of calls as well, each connection a pool was built from is idle, busy or in
the node that the one thread inside the pool has at hand, and nothing else is; every connection is
owned under its own address, and none was destroyed. -/
theorem threads_account (vectors : ι → ConnectionVector Conn)
    (steps : List (ThreadStep ι π τ Conn)) (z : Threads ι π τ Conn)
    (hrun : Runs.run step (start vectors) steps = some z) (i : ι) :
    (z.sections.objects i).Accounts (z.hand i) (vectors i).connections.toFinset := by
  obtain ⟨w, h, hsound⟩ := exists_refines_sound hrun
  obtain ⟨l, hstock, hpool⟩ := hsound i
  rw [← hstock]
  cases howner : z.sections.owner i with
  | none =>
      rw [hand, howner, h.guarded.free i howner]
      exact hpool.accounts
  | some t =>
      obtain ⟨here, hinside, rfl⟩ := (h.guarded.owned i t).mp howner
      rw [hand, howner, Option.bind_some, hinside]
      exact (h.guarded.held t here hinside).accounts hpool (h.guarded.admitted t here hinside)

/-- The connection of the node at hand is accounted for. -/
theorem threads_account_twoSearches :
    let z := (Runs.run step (start fun _ => ⟨[7, 8], by decide⟩) twoSearches).get (by decide)
    z.hand () = some (8, 8) ∧
      (z.sections.objects ()).Accounts (z.hand ()) (ConnectionVector.mk [7, 8]
        (by decide)).connections.toFinset :=
  ⟨by decide, threads_account _ _ _ (Option.some_get _).symm ()⟩

end Threads

end AsabruEngine
