import AsabruEngine.Socket.Descriptors

/-! # When each descriptor is closed once

The invariant of the runs that close each descriptor once is a ledger: what is held has been opened,
and what is not held has been closed. The counters of the live objects stay at one, so that every
destructor closes what it is called for.

`OwnCounters` says so of the counters, and `ClosedInv` is the invariant. `ledger_of_effect` keeps
the ledger under an effect that meets the condition, `not_closedOnce_of_effect` says what goes wrong
under one that does not, and `closedOnce_iff_closesUnclosed` has both directions for runs. -/

namespace AsabruEngine

open Resources

variable {π : Type*} [DecidableEq π]

namespace Endpoints

/-- Every live object has a counter of its own, at one. -/
structure OwnCounters (w : Endpoints π) : Prop where
  one : ∀ p this, w.sockets p = some this → w.process.counters this.refCounter = 1
  allocated : ∀ p this, w.sockets p = some this → this.refCounter < w.process.nextCounter
  own : ∀ p q this that, w.sockets p = some this → w.sockets q = some that →
    this.refCounter = that.refCounter → p = q

/-- A change at one name that leaves the other counters alone. -/
theorem OwnCounters.update {w w' : Endpoints π} (h : w.OwnCounters) {p : π} {v : Option Socket}
    (hafter : w'.sockets = Function.update w.sockets p v)
    (hnext : w.process.nextCounter ≤ w'.process.nextCounter)
    (hothers : ∀ q that, q ≠ p → w.sockets q = some that →
      w'.process.counters that.refCounter = w.process.counters that.refCounter)
    (hv : ∀ this, v = some this → w'.process.counters this.refCounter = 1 ∧
      this.refCounter < w'.process.nextCounter ∧
      ∀ q that, q ≠ p → w.sockets q = some that → that.refCounter ≠ this.refCounter) :
    w'.OwnCounters := by
  have hcases : ∀ q that, w'.sockets q = some that →
      (q = p ∧ v = some that) ∨ (q ≠ p ∧ w.sockets q = some that) := by
    intro q that hq
    rw [hafter] at hq
    exact update_eq_some_iff.mp hq
  refine ⟨?_, ?_, ?_⟩
  · intro q that hq
    rcases hcases q that hq with ⟨-, hthat⟩ | ⟨hqp, hthat⟩
    · exact (hv that hthat).1
    · rw [hothers q that hqp hthat]
      exact h.one q that hthat
  · intro q that hq
    rcases hcases q that hq with ⟨-, hthat⟩ | ⟨hqp, hthat⟩
    · exact (hv that hthat).2.1
    · exact lt_of_lt_of_le (h.allocated q that hthat) hnext
  · intro q r this that hq hr hsame
    rcases hcases q this hq with ⟨rfl, hthis⟩ | ⟨hqp, hthis⟩
    · rcases hcases r that hr with ⟨rfl, -⟩ | ⟨hrp, hthat⟩
      · rfl
      · exact absurd hsame.symm ((hv this hthis).2.2 r that hrp hthat)
    · rcases hcases r that hr with ⟨rfl, hthat⟩ | ⟨-, hthat⟩
      · exact absurd hsame ((hv that hthat).2.2 q this hqp hthis)
      · exact h.own q r this that hthis hthat hsame

omit [DecidableEq π] in
theorem OwnCounters.congr {w w' : Endpoints π} (h : w.OwnCounters)
    (hafter : w'.sockets = w.sockets) (hcounters : w'.process.counters = w.process.counters)
    (hnext : w'.process.nextCounter = w.process.nextCounter) : w'.OwnCounters := by
  refine ⟨?_, ?_, ?_⟩
  · rw [hafter, hcounters]
    exact h.one
  · rw [hafter, hnext]
    exact h.allocated
  · rw [hafter]
    exact h.own

/-- The counters stay of their own. -/
theorem OwnCounters.of_effect {w w' : Endpoints π} {C : Prop} (h : w.OwnCounters) (hC : C)
    (heffect : Effect w w' C) : w'.OwnCounters := by
  cases heffect with
  | opened dst s object _ free fresh after opens keeps =>
      refine h.update after keeps.nextCounter_le (fun q that _ hq => ?_) fun this hthis => ?_
      · exact keeps.counters_eq _ (h.allocated q that hq)
      · cases opens with
        | refused _ noObject _ =>
            rw [noObject] at hthis
            cases hthis
        | kept fd _ made _ counter allocated =>
            rw [made] at hthis
            cases hthis
            exact ⟨counter, allocated, fun q that _ hq => (h.allocated q that hq).ne⟩
        | closed fd _ noObject _ =>
            rw [noObject] at hthis
            cases hthis
  | lost dst fd object condition => exact absurd hC condition
  | reconnected p this s _ before fresh after process =>
      refine h.update after (by rw [process]; exact le_refl _)
        (fun _ _ _ _ => by rw [process]; rfl) ?_
      intro that hthat
      cases hthat
      rw [process]
      refine ⟨h.one p this before, h.allocated p this before, fun q that hqp hq hsame => ?_⟩
      exact hqp (h.own q p that this hq before hsame)
  | closed p this _ before after process =>
      exact h.congr after (by rw [process]; rfl) (by rw [process]; rfl)
  | destroyed p this _ before after process =>
      -- the calls of `Close` before the destructor count nothing
      obtain ⟨closed, hdestroyed, hcounters, hnext⟩ : ∃ closed,
          w'.process = this.destructor closed ∧ closed.counters = w.process.counters ∧
            closed.nextCounter = w.process.nextCounter := by
        rcases process with process | process
        · exact ⟨_, process, rfl, rfl⟩
        · exact ⟨_, process, rfl, rfl⟩
      rw [← Socket.destructor_nextCounter this closed, ← hdestroyed] at hnext
      refine h.update after hnext.ge (fun q that hqp hq => ?_) nofun
      have hother : this.refCounter ≠ that.refCounter := fun hsame =>
        hqp (h.own q p that this hq before hsame.symm)
      rw [hdestroyed, Socket.destructor_counters, if_neg hother, sub_zero, hcounters]
  | nothing _ after process => exact h.congr after (by rw [process]) (by rw [process])

/-! ## The ledger -/

/-- Who holds a descriptor after a change at one name. -/
theorem holds_of_after {w w' : Endpoints π} {p : π} {v : Option Socket}
    (hafter : w'.sockets = Function.update w.sockets p v) (fd : ℕ) :
    w'.Holds fd ↔ (∃ this, v = some this ∧ this.s = some fd) ∨
      ∃ q that, q ≠ p ∧ w.sockets q = some that ∧ that.s = some fd := by
  rw [Holds, hafter, nonempty_holders_update]
  simp [holders]

omit [DecidableEq π] in
/-- An unclosed descriptor is closed, or none is. -/
theorem ledger_close {w : Endpoints π} (h : Ledger w.Holds w.process.log) {p : π} {this : Socket}
    (hp : w.sockets p = some this)
    (hopen : ∀ fd, this.s = some fd → .released fd ∉ w.process.log) :
    Ledger w.Holds (this.close w.process).log := by
  rw [Socket.close]
  cases hs : this.s with
  | none =>
      rw [Process.closeSocket_none]
      exact h
  | some fd => exact h.release ⟨p, this, hp, hs⟩ (hopen fd hs)

/-- What `socket` gives is held. -/
theorem ledger_socket {held : ℕ → Prop} {process : Process} (h : Ledger held process.log)
    {s : SOCKET} (hfresh : ∀ fd, s = some fd → .acquired fd ∉ process.log) :
    Ledger (fun fd => s = some fd ∨ held fd) (process.socket s).log := by
  cases s with
  | none =>
      have hlog : (process.socket none).log = process.log := List.append_nil _
      rw [hlog]
      exact h.congr fun fd => by simp
  | some fd => exact (h.acquire (hfresh fd rfl)).congr fun fd' => by simp [eq_comm]

omit [DecidableEq π] in
/-- Without the object at one name. -/
theorem ledger_others {w : Endpoints π} {log : Log ℕ} (h : Ledger w.Holds log) {p : π}
    {this : Socket} (hp : w.sockets p = some this)
    (hclosed : ∀ fd, this.s = some fd → releases log fd = 1) :
    Ledger (fun fd => ∃ q that, q ≠ p ∧ w.sockets q = some that ∧ that.s = some fd) log := by
  refine h.drop ?_ ?_
  · rintro fd ⟨q, that, -, hq, hs⟩
    exact ⟨q, that, hq, hs⟩
  · rintro fd ⟨q, that, hq, hs⟩ hnone
    by_cases hqp : q = p
    · subst hqp
      rw [hp, Option.some.injEq] at hq
      exact hclosed fd (hq ▸ hs)
    · exact absurd ⟨q, that, hqp, hq, hs⟩ hnone

/-- What a constructor leaves open is held by its object. -/
theorem ledger_opened {w w' : Endpoints π} (h : Ledger w.Holds w.process.log) {dst : π} {s : SOCKET}
    {object : Option Socket} (hfree : w.sockets dst = none)
    (hfresh : ∀ fd, s = some fd → .acquired fd ∉ w.process.log)
    (hafter : w'.sockets = Function.update w.sockets dst object)
    (hopens : Opens w.process s object w'.process) : Ledger w'.Holds w'.process.log := by
  have hothers : ∀ fd, w.Holds fd ↔
      ∃ q that, q ≠ dst ∧ w.sockets q = some that ∧ that.s = some fd := by
    intro fd
    constructor
    · rintro ⟨q, that, hq, hs⟩
      refine ⟨q, that, ?_, hq, hs⟩
      rintro rfl
      rw [hfree] at hq
      cases hq
    · rintro ⟨q, that, -, hq, hs⟩
      exact ⟨q, that, hq, hs⟩
  cases hopens with
  | refused _ noObject log =>
      rw [log]
      refine h.congr fun fd => ?_
      rw [holds_of_after hafter, noObject, hothers]
      simp
  | kept fd valid made log _ _ =>
      rw [log]
      refine (h.acquire (hfresh fd valid)).congr fun fd' => ?_
      rw [holds_of_after hafter, made, hothers, valid]
      simp [eq_comm]
  | closed fd valid noObject log =>
      rw [log]
      refine (h.acquire_release (hfresh fd valid)).congr fun fd' => ?_
      rw [holds_of_after hafter, noObject, hothers]
      simp

/-- The ledger stays right. -/
theorem ledger_of_effect {w w' : Endpoints π} {C : Prop} (h : Ledger w.Holds w.process.log)
    (hC : C) (heffect : Effect w w' C) : Ledger w'.Holds w'.process.log := by
  cases heffect with
  | opened dst s object _ free fresh after opens keeps =>
      exact ledger_opened h free fresh after opens
  | lost dst fd object condition => exact absurd hC condition
  | reconnected p this s condition before fresh after process =>
      have hopen := condition.mp hC
      have hclosed := ledger_close h before hopen
      have hrest := ledger_others hclosed before fun fd hs => by
        rw [Socket.close, Process.releases_closeSocket, if_pos hs,
          releases_eq_zero_iff.mpr (hopen fd hs)]
      have hfresh : ∀ fd, s = some fd → .acquired fd ∉ (this.close w.process).log := by
        intro fd hs
        simpa [Socket.close, Process.closeSocket] using fresh fd hs
      rw [process]
      refine (ledger_socket hrest hfresh).congr fun fd => ?_
      rw [holds_of_after after]
      simp
  | closed p this condition before after process =>
      have hclosed := ledger_close h before (condition.mp hC)
      rw [process]
      refine hclosed.congr fun fd => ?_
      rw [Holds, Holds, after]
  | destroyed p this condition before after process =>
      have hnone := condition.mp hC
      have hlog : w'.process.log = w.process.log := by
        rcases process with process | process
        · rw [process, Socket.destructor_log_of_invalid hnone, Socket.close_of_invalid hnone]
        · rw [process, Socket.destructor_log_of_invalid hnone, Socket.close_of_invalid hnone,
            Socket.close_of_invalid hnone]
      have hrest := ledger_others h before fun fd hs => by
        rw [hnone] at hs
        cases hs
      rw [hlog]
      refine hrest.congr fun fd => ?_
      rw [holds_of_after after]
      simp
  | nothing _ after process =>
      rw [process]
      refine h.congr fun fd => ?_
      rw [Holds, Holds, after]

/-! ## What goes wrong -/

omit [DecidableEq π] in
/-- A descriptor closed twice. -/
theorem not_closedOnce_of_two {w : Endpoints π} {fd : ℕ} (hgiven : .acquired fd ∈ w.process.log)
    (htwo : 1 < releases w.process.log fd) : ¬ w.ClosedOnce := by
  intro h
  exact absurd (h fd hgiven).1 (not_le.mpr htwo)

omit [DecidableEq π] in
/-- Closing what is closed already. -/
theorem two_of_close {w : Endpoints π} (h : Ledger w.Holds w.process.log) {p : π} {this : Socket}
    (hp : w.sockets p = some this)
    (hclosed : ¬ ∀ fd, this.s = some fd → .released fd ∉ w.process.log) :
    ∃ fd, .acquired fd ∈ (this.close w.process).log ∧
      1 < releases (this.close w.process).log fd := by
  simp only [not_forall, not_not, exists_prop] at hclosed
  obtain ⟨fd, hs, hreleased⟩ := hclosed
  have hpos := releases_pos_iff.mpr hreleased
  refine ⟨fd, ?_, ?_⟩
  · exact Process.acquired_mem_closeSocket (h.acquired_of_held fd ⟨p, this, hp, hs⟩) _
  · rw [Socket.close, Process.releases_closeSocket, if_pos hs]
    omega

/-- A destructor behind a `Close`, where it is the last one of its counter. -/
theorem two_of_destructor {this : Socket} {process : Process} {fd : ℕ}
    (hgiven : .acquired fd ∈ process.log) (hs : this.s = some fd)
    (hlast : process.counters this.refCounter = 1) :
    .acquired fd ∈ (this.destructor (this.close process)).log ∧
      1 < releases (this.destructor (this.close process)).log fd := by
  refine ⟨?_, ?_⟩
  · exact Socket.acquired_mem_destructor _ (Process.acquired_mem_closeSocket hgiven _)
  · rw [Socket.releases_destructor, Socket.close, Process.releases_closeSocket, if_pos hs,
      Process.closeSocket_counters, if_pos ⟨hlast, hs⟩]
    omega

/-- An operation that misses its condition closes a descriptor twice, or leaves one open that no
object has. -/
theorem not_closedOnce_of_effect {w w' : Endpoints π} {C : Prop}
    (h : Ledger w.Holds w.process.log) (hcounters : w.OwnCounters) (hC : ¬ C)
    (heffect : Effect w w' C) : ¬ w'.ClosedOnce := by
  cases heffect with
  | opened dst s object condition => exact absurd condition hC
  | lost dst fd object _ fresh after other given open_ =>
      intro hclosed
      have hnone : releases w.process.log fd = 0 :=
        releases_eq_zero_iff.mpr fun hreleased => fresh (h.acquired_of_released fd hreleased)
      have hholds : ¬ w'.Holds fd := by
        rw [holds_of_after after, not_or]
        refine ⟨?_, ?_⟩
        · rintro ⟨this, hthis, hs⟩
          exact other this hthis hs
        · rintro ⟨q, that, -, hq, hs⟩
          exact fresh (h.acquired_of_held fd ⟨q, that, hq, hs⟩)
      have hone := (hclosed fd given).2 hholds
      omega
  | reconnected p this s condition before fresh after process =>
      rw [condition] at hC
      obtain ⟨fd, hgiven, htwo⟩ := two_of_close h before hC
      refine @not_closedOnce_of_two _ _ fd ?_ ?_
      · rw [process]
        exact List.mem_append_left _ hgiven
      · rw [process, Process.releases_socket]
        exact htwo
  | closed p this condition before after process =>
      rw [condition] at hC
      obtain ⟨fd, hgiven, htwo⟩ := two_of_close h before hC
      rw [← process] at hgiven htwo
      exact not_closedOnce_of_two hgiven htwo
  | destroyed p this condition before after process =>
      rw [condition] at hC
      obtain ⟨fd, hs⟩ := Option.ne_none_iff_exists'.mp hC
      have hgiven := h.acquired_of_held fd ⟨p, this, before, hs⟩
      have hone := hcounters.one p this before
      -- the destructor of the base closes what has been closed before it
      rcases process with process | process
      · obtain ⟨hafter, htwo⟩ := two_of_destructor hgiven hs hone
        rw [← process] at hafter htwo
        exact not_closedOnce_of_two hafter htwo
      · obtain ⟨hafter, htwo⟩ :=
          two_of_destructor (Process.acquired_mem_closeSocket hgiven this.s) hs hone
        rw [← Socket.close, ← process] at hafter htwo
        exact not_closedOnce_of_two hafter htwo
  | nothing condition => exact absurd condition hC

/-! ## The runs -/

theorem noServer_update {w : Endpoints π} (h : w.NoServer) {p : π} {v : Option Owner}
    (hv : ∀ this, v ≠ some (.server this)) (process : Process) :
    NoServer ⟨Function.update w.owners p v, process⟩ := by
  intro q this hq
  rcases update_eq_some_iff.mp hq with ⟨-, hnew⟩ | ⟨-, hold⟩
  · exact hv this hnew
  · exact h q this hold

/-- Under the condition no server socket is ever made. -/
theorem noServer_step {w w' : Endpoints π} {op : Op π} (h : w.NoServer)
    (hC : w.ClosesUnclosed op) (hstep : w.step op = some w') : w'.NoServer := by
  rw [step, Option.ite_none_right_eq_some] at hstep
  obtain ⟨-, hstep⟩ := hstep
  cases op with
  | newClient dst serverName clientPort s answers =>
      simp only [perform, Option.ite_none_right_eq_some, Option.some.injEq] at hstep
      obtain ⟨-, rfl⟩ := hstep
      exact noServer_update h (by simp) _
  | newServer dst port numOfConnections type answers =>
      have hbase : answers.base = none := hC
      simp only [perform, Option.ite_none_right_eq_some, Option.some.injEq] at hstep
      obtain ⟨-, rfl⟩ := hstep
      refine noServer_update h (fun this => ?_) _
      simp [CServerSocket.new, Socket.new, hbase]
  | newConnection dst connectionId serverName serverPort s answers =>
      simp only [perform, Option.ite_none_right_eq_some, Option.some.injEq] at hstep
      obtain ⟨-, rfl⟩ := hstep
      exact noServer_update h (by simp) _
  | reconnect p s answers =>
      rw [perform] at hstep
      split at hstep
      · obtain rfl := Option.some.inj hstep
        exact noServer_update h (by simp) _
      · obtain ⟨clientSocket, -, rfl⟩ := Option.map_eq_some_iff.mp hstep
        exact noServer_update h (by simp) _
      · cases hstep
  | connect p s answers =>
      rw [perform] at hstep
      split at hstep
      · obtain ⟨made, -, rfl⟩ := Option.map_eq_some_iff.mp hstep
        exact noServer_update h (by simp) _
      · cases hstep
  | close p =>
      obtain ⟨this, -, rfl⟩ := Option.map_eq_some_iff.mp hstep
      exact h
  | disconnect p =>
      rw [perform] at hstep
      split at hstep
      · obtain rfl := Option.some.inj hstep
        exact noServer_update h (by simp) _
      · cases hstep
  | destroy p =>
      obtain ⟨owner, -, rfl⟩ := Option.map_eq_some_iff.mp hstep
      exact noServer_update h (by simp) _

/-- What the operations that meet the condition keep. -/
structure ClosedInv (w : Endpoints π) : Prop where
  ledger : Ledger w.Holds w.process.log
  counters : w.OwnCounters
  noServer : w.NoServer

omit [DecidableEq π] in
theorem closedInv_start : (start : Endpoints π).ClosedInv := by
  refine ⟨?_, ⟨nofun, nofun, nofun⟩, nofun⟩
  refine Ledger.nil.congr fun fd => ?_
  constructor
  · exact False.elim
  · rintro ⟨p, this, hp, -⟩
    cases hp

/-- **When each descriptor is closed once.** In a run, every descriptor that `socket` gave is closed
at most once and, if no live object has it, once, in every state, exactly when every step meets its
condition. -/
theorem closedOnce_iff_closesUnclosed (ops : List (Op π)) :
    Runs.Always step ClosedOnce start ops ↔
      Runs.Along step ClosesUnclosed (start : Endpoints π) ops := by
  refine Runs.always_iff_along step (I := ClosedInv) ?_ ?_ ?_ closedInv_start ops
  · intro w h fd hgiven
    exact ⟨h.ledger.once fd, h.ledger.settled fd hgiven⟩
  · intro w op w' h hC hstep
    have heffect := effect_of_step h.noServer hstep
    exact ⟨ledger_of_effect h.ledger hC heffect, h.counters.of_effect hC heffect,
      noServer_step h.noServer hC hstep⟩
  · intro w op w' h hC hstep
    exact not_closedOnce_of_effect h.ledger h.counters hC (effect_of_step h.noServer hstep)

/-- A client socket is connected and destroyed: its descriptor is closed twice. -/
theorem not_closedOnce_client_destroyed :
    ¬ Runs.Always step ClosedOnce (start : Endpoints Unit)
      [.newClient () "127.0.0.1" 9000 (some 3) ⟨true, true⟩, .destroy ()] := by
  intro h
  have hlast := Runs.Always.of_run step h rfl
  exact absurd (hlast 3 (by decide)).1 (by decide)

end Endpoints

end AsabruEngine
