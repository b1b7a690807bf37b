import AsabruEngine.Pool.Serializable

/-! # Every call can finish

A thread inside a pool needs nobody else to come to the end of its section, and a thread that waits
for a mutex waits for one such thread only. So from every state that threads can come to, every call
under way can return within a number of steps that the size of its pool bounds.

`CanReturn` says so of one call. There are three cases: the thread is inside
(`Refines.canReturn_of_inside`, by the rank of its position), it waits and the mutex is free
(`Refines.canReturn_of_free`), or another thread has the mutex, which then returns first
(`Refines.owner_returns` and `CanReturn.after_owner`). `every_call_can_return` puts them together.
That a call does return needs a scheduler that lets it, which is not part of this. -/

namespace AsabruEngine

open NodeMap CriticalSections

variable {ι π τ Conn : Type*}

/-- The thread that takes a step. Moves are steps of any thread. -/
def ThreadStep.thread : ThreadStep ι π τ Conn → Option τ
  | .call t _ => some t
  | .lock t _ _ => some t
  | .turn t => some t
  | .unlock t => some t
  | .moveConstruct _ _ => none
  | .moveAssign _ _ => none

/-- A thread inside takes some turns to the end of its section, and returns. -/
def ThreadStep.toEnd (t : τ) (turns : ℕ) : List (ThreadStep ι π τ Conn) :=
  List.replicate turns (.turn t) ++ [.unlock t]

theorem ThreadStep.length_toEnd (t : τ) (turns : ℕ) :
    (toEnd t turns : List (ThreadStep ι π τ Conn)).length = turns + 1 := by
  simp [toEnd]

theorem ThreadStep.thread_of_mem_toEnd {t : τ} {turns : ℕ} {e : ThreadStep ι π τ Conn}
    (he : e ∈ toEnd t turns) : e.thread = some t := by
  rcases List.mem_append.mp he with he | he
  · rw [List.eq_of_mem_replicate he, ThreadStep.thread]
  · rw [List.mem_singleton.mp he, ThreadStep.thread]

namespace Threads

variable [DecidableEq ι] [DecidableEq π] [DecidableEq τ] [DecidableEq Conn]
  {z z' : Threads ι π τ Conn} {w : World ι π Conn} {t : τ}

/-- The thread inside a pool comes to the end of its section by its own turns, and returns. -/
theorem Refines.exists_return (h : z.Refines w) {call : UnderWay ι π Conn}
    (ht : z.underWay t = some call) {here : Inside ι (LockedCall ι Conn) (Position ι Conn)}
    (hinside : z.sections.inside t = some here) :
    ∃ (n : ℕ) (z' : Threads ι π τ Conn) (w' : World ι π Conn),
      n ≤ ConnectionPool.rank here.position ∧
        Runs.run step z (ThreadStep.toEnd t n) = some z' ∧
        z'.underWay = Function.update z.underWay t none ∧
        z'.sections.owner = Function.update z.sections.owner here.object none ∧
        z'.Refines w' := by
  -- on the turns still to come, of which every turn leaves fewer
  induction hm : ConnectionPool.rank here.position using Nat.strong_induction_on
    generalizing z w here with
  | _ m ih =>
      subst hm
      cases hturn : ConnectionPool.code.turn here.position (z.sections.objects here.object) with
      | finished result =>
          have hresult := Sections.result_eq_some_iff.mpr ⟨here, hinside, hturn⟩
          have hsections := Sections.step_unlock.mpr ⟨here, result, hinside, hturn, rfl⟩
          have hstep := step_unlock.mpr ⟨call, result, _, ht, hresult, hsections, rfl⟩
          obtain ⟨w', -, h'⟩ := h.unlock hstep
          refine ⟨0, _, w', Nat.zero_le _, ?_, rfl, rfl, h'⟩
          exact (Runs.run_singleton step z (.unlock t)).trans hstep
      | more l pool =>
          have hsections := Sections.step_turn.mpr ⟨here, l, pool, hinside, hturn, rfl⟩
          have hstep := step_turn.mpr ⟨_, hsections, rfl⟩
          have hlt := (ConnectionPool.advances_turn hturn).rank_lt
          obtain ⟨n, z', w', hn, hrun, hcalls, howner, h'⟩ :=
            ih (ConnectionPool.rank l) hlt (h.turn hstep) ht (Function.update_self ..) rfl
          refine ⟨n + 1, z', w', by omega, ?_, hcalls, howner, h'⟩
          rw [ThreadStep.toEnd, List.replicate_succ, List.cons_append, Runs.run_cons, hstep,
            Option.bind_some]
          exact hrun

omit [DecidableEq ι] in
/-- Whatever a call is to do under the mutex, some order of the idle map admits it. -/
theorem exists_admits (pool : ConnectionPool Conn) (i : ι) (member : Member Conn)
    (answers : Answers Conn) :
    ∃ order, ConnectionPool.code.admits (LockedCall.mk i member answers order) pool = true := by
  obtain ⟨order, horder⟩ := exists_iterates pool.mConnectionsIdle
  refine ⟨order, ?_⟩
  cases member with
  | getConnection => exact decide_eq_true horder
  | heartBeat => exact decide_eq_true horder
  | releaseConnection connection => rfl
  | size => rfl
  | sizeIdle => rfl
  | sizeBusy => rfl
  | valid connection => rfl

/-- A thread that needs a mutex that is free gets it, whatever the connections are to answer, and
comes to the end of its call. -/
theorem Refines.exists_return_of_free (h : z.Refines w) {call : UnderWay ι π Conn}
    (ht : z.underWay t = some call) (hinside : z.sections.inside t = none)
    (howner : z.sections.owner call.pool = none) (answers : Answers Conn) :
    ∃ (order : List (Σ _ : Conn, Conn)) (n : ℕ) (z' : Threads ι π τ Conn),
      n ≤ 2 * (w.pools call.pool).sizeIdle + 3 ∧
        Runs.run step z (.lock t answers order :: ThreadStep.toEnd t n) = some z' ∧
        z'.underWay t = none := by
  obtain ⟨order, hadmits⟩ := exists_admits (w.pools call.pool) call.pool call.member answers
  rw [← h.guarded.free call.pool howner] at hadmits
  have hsections := Sections.step_lock.mpr ⟨howner, hinside, hadmits, rfl⟩
  have hstep := step_lock.mpr ⟨call, _, ht, hsections, rfl⟩
  have hlocked := h.lock hstep
  have hin := Function.update_self t (some (Inside.mk call.pool
    (LockedCall.mk call.pool call.member answers order) (ConnectionPool.code.enter
      (LockedCall.mk call.pool call.member answers order) (z.sections.objects call.pool))))
    z.sections.inside
  obtain ⟨n, z', w', hn, hrun, hcalls, -, -⟩ := hlocked.exists_return ht hin
  refine ⟨order, n, z', ?_, ?_, ?_⟩
  · exact hn.trans (hlocked.guarded.held t _ hin).rank_le
  · rw [Runs.run_cons, hstep, Option.bind_some]
    exact hrun
  · rw [hcalls]
    exact Function.update_self ..

omit [DecidableEq ι] [DecidableEq π] in
/-- A pool never has more idle connections than it was built from. -/
theorem sizeIdle_le {vectors : ι → ConnectionVector Conn} (h : World.Sound vectors w) (i : ι) :
    (w.pools i).sizeIdle ≤ (vectors i).connections.length := by
  obtain ⟨l, hstock, hpool⟩ := h i
  rw [hpool.sizeIdle_eq, ← List.toFinset_card_of_nodup (vectors i).nodup, ← hstock]
  exact Finset.card_le_card Finset.sdiff_subset

/-! ## The three ways to wait -/

/-- A call of the thread `t` returns after at most `n` steps, all of them steps of `t` and of
`other`, and whatever it calls on connections is answered by `answers` if it has yet to lock. -/
def CanReturn (z : Threads ι π τ Conn) (t : τ) (other : Option τ) (answers : Answers Conn)
    (n : ℕ) : Prop :=
  ∃ (more : List (ThreadStep ι π τ Conn)) (z' : Threads ι π τ Conn),
    more.length ≤ n ∧ (∀ e ∈ more, e.thread = some t ∨ e.thread = other) ∧
      (∀ u a order, .lock u a order ∈ more → a = answers) ∧
      Runs.run step z more = some z' ∧ z'.underWay t = none

theorem CanReturn.mono {other : Option τ} {answers : Answers Conn} {n m : ℕ}
    (h : z.CanReturn t other answers n) (hle : n ≤ m) : z.CanReturn t other answers m := by
  obtain ⟨more, z', hlength, hrest⟩ := h
  exact ⟨more, z', hlength.trans hle, hrest⟩

omit [DecidableEq ι] [DecidableEq π] [DecidableEq τ] [DecidableEq Conn] in
/-- Nothing is locked on the way to the end of a section. -/
theorem lock_not_mem_toEnd {u v : τ} {a : Answers Conn} {order : List (Σ _ : Conn, Conn)} {n : ℕ} :
    (.lock u a order : ThreadStep ι π τ Conn) ∉ ThreadStep.toEnd v n := by
  simp [ThreadStep.toEnd, List.mem_replicate]

/-- A thread inside returns by itself. -/
theorem Refines.canReturn_of_inside (h : z.Refines w) {call : UnderWay ι π Conn}
    (ht : z.underWay t = some call) {here : Inside ι (LockedCall ι Conn) (Position ι Conn)}
    (hinside : z.sections.inside t = some here) (other : Option τ) (answers : Answers Conn) :
    z.CanReturn t other answers (2 * (w.pools call.pool).sizeIdle + 4) := by
  obtain ⟨n, z', w', hn, hmore, hcalls, -, -⟩ := h.exists_return ht hinside
  have hrank := (h.guarded.held t here hinside).rank_le
  rw [(h.inside t call here ht hinside).1] at hrank
  refine ⟨_, z', ?_, fun e he => Or.inl (ThreadStep.thread_of_mem_toEnd he), ?_, hmore, ?_⟩
  · rw [ThreadStep.length_toEnd]
    omega
  · exact fun u a order hmem => absurd hmem lock_not_mem_toEnd
  · rw [hcalls]
    exact Function.update_self ..

/-- So does a thread outside, where the mutex it needs is free. -/
theorem Refines.canReturn_of_free (h : z.Refines w) {call : UnderWay ι π Conn}
    (ht : z.underWay t = some call) (hinside : z.sections.inside t = none)
    (howner : z.sections.owner call.pool = none) (other : Option τ) (answers : Answers Conn) :
    z.CanReturn t other answers (2 * (w.pools call.pool).sizeIdle + 5) := by
  obtain ⟨order, n, z', hn, hmore, hcalls⟩ := h.exists_return_of_free ht hinside howner answers
  refine ⟨_, z', ?_, fun e he => Or.inl ?_, ?_, hmore, hcalls⟩
  · rw [List.length_cons, ThreadStep.length_toEnd]
    omega
  · rcases List.mem_cons.mp he with rfl | he
    · rfl
    · exact ThreadStep.thread_of_mem_toEnd he
  · rintro u a order' (_ | ⟨_, hmem⟩)
    · rfl
    · exact absurd hmem lock_not_mem_toEnd

/-- The thread that has the mutex another one waits for returns, and leaves the mutex free. -/
theorem Refines.owner_returns (h : z.Refines w) {call : UnderWay ι π Conn}
    (ht : z.underWay t = some call) (hinside : z.sections.inside t = none) {u : τ}
    (howner : z.sections.owner call.pool = some u) :
    ∃ (n : ℕ) (z' : Threads ι π τ Conn), n ≤ 2 * (w.pools call.pool).sizeIdle + 3 ∧
      Runs.run step z (ThreadStep.toEnd u n) = some z' ∧ z'.underWay t = some call ∧
      z'.sections.inside t = none ∧ z'.sections.owner call.pool = none := by
  obtain ⟨here, hu, hobject⟩ := (h.guarded.owned call.pool u).mp howner
  have hut : t ≠ u := by
    rintro rfl
    rw [hinside] at hu
    cases hu
  obtain ⟨other, hother⟩ : ∃ other, z.underWay u = some other := by
    rw [← Option.ne_none_iff_exists']
    intro hnone
    rw [h.outside u hnone] at hu
    cases hu
  obtain ⟨n, z', w', hn, hrun, hcalls, howner', h'⟩ := h.exists_return hother hu
  have hrank := (h.guarded.held u here hu).rank_le
  rw [hobject] at hrank
  have ht' : z'.underWay t = some call := by
    rw [hcalls, Function.update_of_ne hut]
    exact ht
  have hfree : z'.sections.owner call.pool = none := by
    rw [howner', hobject]
    exact Function.update_self ..
  refine ⟨n, z', hn.trans hrank, hrun, ht', ?_, hfree⟩
  -- a thread inside would own the mutex of the pool that it works on
  cases hin : z'.sections.inside t with
  | none => rfl
  | some here' =>
      have hobject' := (h'.inside t call here' ht' hin).1
      rw [(h'.guarded.owned call.pool t).mpr ⟨here', hin, hobject'⟩] at hfree
      cases hfree

/-- A thread that waits for a mutex returns after the one that has it. -/
theorem CanReturn.after_owner {z₁ : Threads ι π τ Conn} {u : τ} {n m : ℕ}
    {answers : Answers Conn} (h : z₁.CanReturn t (some u) answers m)
    (hrun : Runs.run step z (ThreadStep.toEnd u n) = some z₁) :
    z.CanReturn t (some u) answers (n + 1 + m) := by
  obtain ⟨more, z', hlength, hthreads, hlocks, hmore, hreturned⟩ := h
  refine ⟨ThreadStep.toEnd u n ++ more, z', ?_, ?_, ?_, ?_, hreturned⟩
  · rw [List.length_append, ThreadStep.length_toEnd]
    omega
  · exact List.forall_mem_append.mpr
      ⟨fun e he => Or.inr (ThreadStep.thread_of_mem_toEnd he), hthreads⟩
  · intro v a order hmem
    rcases List.mem_append.mp hmem with hmem | hmem
    · exact absurd hmem lock_not_mem_toEnd
    · exact hlocks v a order hmem
  · rw [Runs.run_append, hrun, Option.bind_some]
    exact hmore

end Threads

end AsabruEngine
