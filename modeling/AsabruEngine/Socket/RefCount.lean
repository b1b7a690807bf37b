import AsabruEngine.Library.Census
import AsabruEngine.Library.Runs
import AsabruEngine.Socket.Objects

/-! # Reference counting

A `Population` is any number of live `Socket` objects, and a run constructs, copies, assigns and
destroys them. Each counter is to be the number of objects that point to it, `nofSockets_` the
number of all, and a descriptor is to be closed when the last object that holds it goes. The copy
assignment gives up what its target had without counting it down, and counts an object that does not
come; a `Socket` whose `socket` call fails is counted too.

* `Counted` says that the counters are right, `ClosesExactly` that an operation closes what it
  should, and `KeepsCount` is the condition on an operation.
* `Counted.fill` and `Counted.destroy` keep the count where an object comes or goes, and
  `closesExactly_destroy_iff` says when a destructor closes the right descriptors.
* `countedInv_step` and `not_counted_step` are the two directions for one operation, and
  `counted_iff_keepsCount` has them for runs. -/

namespace AsabruEngine

open Resources

variable {π : Type*}

/-- The live `Socket` objects by name, and what they share. -/
structure Population (π : Type*) where
  objects : π → Option Socket
  process : Process

namespace Population

/-- What is done with `Socket` objects. -/
inductive Op (π : Type*)
  /-- `Socket()`, where `socket` answers `s`. -/
  | new (dst : π) (s : SOCKET)
  | ofDescriptor (dst : π) (s : SOCKET)
  | copy (src dst : π)
  | assign (src dst : π)
  | destroy (p : π)

/-- No `Socket` object yet. -/
def start : Population π := ⟨fun _ => none, .empty⟩

/-- Some live object is on the descriptor. -/
def Holds (w : Population π) (fd : ℕ) : Prop :=
  (holders w.objects fun o => o.s = some fd).Nonempty

/-- Every counter counts the objects that point to it, which agree on the descriptor, and
`nofSockets_` counts all objects. -/
structure Counted (w : Population π) : Prop where
  counter : ∀ a, Counts (holders w.objects fun o => o.refCounter = a) (w.process.counters a)
  shared : ∀ p q o o', w.objects p = some o → w.objects q = some o' →
    o.refCounter = o'.refCounter → o.s = o'.s
  nofSockets : Counts (holders w.objects fun _ => True) w.process.nofSockets

variable [DecidableEq π]

/-- One operation, if there is the object it is done with, and none at the name of a new one. -/
def step (w : Population π) : Op π → Option (Population π)
  | .new dst s =>
      if w.objects dst = none then
        let (object, process) := Socket.new w.process s
        some ⟨Function.update w.objects dst object, process⟩
      else none
  | .ofDescriptor dst s =>
      if w.objects dst = none then
        let (object, process) := Socket.ofDescriptor w.process s
        some ⟨Function.update w.objects dst (some object), process⟩
      else none
  | .copy src dst =>
      if w.objects dst = none then
        (w.objects src).map fun o =>
          let (object, process) := o.copy w.process
          ⟨Function.update w.objects dst (some object), process⟩
      else none
  | .assign src dst =>
      (w.objects src).bind fun o => (w.objects dst).map fun this =>
        let (object, process) := this.assign o w.process
        ⟨Function.update w.objects dst (some object), process⟩
  | .destroy p =>
      (w.objects p).map fun this =>
        ⟨Function.update w.objects p none, this.destructor w.process⟩

/-- An operation closes a descriptor once if the last object that holds it goes, and not at all
otherwise. -/
def ClosesExactly (w : Population π) (op : Op π) : Prop :=
  ∀ w', w.step op = some w' → ∀ fd,
    (w.Holds fd ∧ ¬ w'.Holds fd →
      releases w'.process.log fd = releases w.process.log fd + 1) ∧
    (¬ (w.Holds fd ∧ ¬ w'.Holds fd) → releases w'.process.log fd = releases w.process.log fd)

/-- The condition on an operation: `socket` does not fail, nothing is assigned, and the last object
of a counter is not destroyed while an object of another counter holds its descriptor. -/
def KeepsCount (w : Population π) : Op π → Prop
  | .new _ s => s ≠ none
  | .ofDescriptor _ _ => True
  | .copy _ _ => True
  | .assign _ _ => False
  | .destroy p => ∀ this, w.objects p = some this →
      (∀ q o, q ≠ p → w.objects q = some o → o.refCounter ≠ this.refCounter) →
      ∀ q o, q ≠ p → w.objects q = some o → this.s ≠ none → o.s ≠ this.s

/-! ## An object comes -/

/-- What the operations that meet the condition keep. -/
structure CountedInv (w : Population π) : Prop where
  counted : w.Counted
  /-- Live objects point to counters that have been allocated. -/
  allocated : ∀ p o, w.objects p = some o → o.refCounter < w.process.nextCounter

omit [DecidableEq π] in
/-- The counter that comes next has no object. -/
theorem CountedInv.counters_nextCounter {w : Population π} (h : w.CountedInv) :
    w.process.counters w.process.nextCounter = 0 := by
  rw [(h.counted.counter _).eq_zero_iff]
  refine Set.eq_empty_of_forall_notMem fun p => ?_
  rintro ⟨o, ho, hcounter⟩
  exact absurd (h.allocated p o ho) (by omega)

/-- An object that comes is counted, if it agrees with those of its counter. -/
theorem Counted.fill {w : Population π} (h : w.Counted) {dst : π} (hdst : w.objects dst = none)
    {object : Socket} {process : Process}
    (hcounters : ∀ a, process.counters a =
      w.process.counters a + if object.refCounter = a then 1 else 0)
    (hnof : process.nofSockets = w.process.nofSockets + 1)
    (hshared : ∀ q o, w.objects q = some o → o.refCounter = object.refCounter → o.s = object.s) :
    Counted ⟨Function.update w.objects dst (some object), process⟩ := by
  refine ⟨fun a => ?_, ?_, ?_⟩
  · rw [hcounters a]
    exact (h.counter a).fill hdst object
  · intro p q o o' hp hq hcounter
    rcases update_eq_some_iff.mp hp with ⟨-, ⟨⟩⟩ | ⟨-, hp⟩
    · rcases update_eq_some_iff.mp hq with ⟨-, ⟨⟩⟩ | ⟨-, hq⟩
      · rfl
      · exact (hshared q o' hq hcounter.symm).symm
    · rcases update_eq_some_iff.mp hq with ⟨-, ⟨⟩⟩ | ⟨-, hq⟩
      · exact hshared p o hp hcounter
      · exact h.shared p q o o' hp hq hcounter
  · have hfill := h.nofSockets.fill hdst object
    rw [if_pos trivial] at hfill
    rw [hnof]
    exact hfill

omit [DecidableEq π] in
/-- A new counter is one more for the object, and no other counter changes. -/
theorem counters_withNewCounter {w : Population π}
    (h : w.process.counters w.process.nextCounter = 0) (s : SOCKET) (a : ℕ) :
    (Socket.withNewCounter w.process s).2.counters a =
      w.process.counters a + if w.process.nextCounter = a then 1 else 0 := by
  rw [Socket.withNewCounter]
  dsimp only
  rw [Function.update_apply]
  by_cases ha : a = w.process.nextCounter
  · subst ha
    rw [if_pos rfl, if_pos rfl, h, zero_add]
  · rw [if_neg ha, if_neg (Ne.symm ha), add_zero]

/-- An object of its own counter comes. -/
theorem CountedInv.fill_withNewCounter {w : Population π} (h : w.CountedInv) {dst : π}
    (hdst : w.objects dst = none) (s : SOCKET) {process : Process}
    (hcounters : process.counters = (Socket.withNewCounter w.process s).2.counters)
    (hnext : process.nextCounter = w.process.nextCounter + 1)
    (hnof : process.nofSockets = w.process.nofSockets + 1) :
    CountedInv ⟨Function.update w.objects dst (some ⟨s, w.process.nextCounter⟩), process⟩ := by
  refine ⟨h.counted.fill hdst (fun a => ?_) hnof fun q o ho hcounter => ?_, fun p o hp => ?_⟩
  · rw [hcounters]
    exact counters_withNewCounter h.counters_nextCounter s a
  · exact absurd hcounter (h.allocated q o ho).ne
  · dsimp only
    rw [hnext]
    rcases update_eq_some_iff.mp hp with ⟨-, ⟨⟩⟩ | ⟨-, hp⟩
    · exact Nat.lt_succ_self _
    · exact Nat.lt_succ_of_lt (h.allocated p o hp)

/-- Where no object goes and nothing is closed, an operation closes exactly what it should. -/
theorem closesExactly_of_holds {w : Population π} {op : Op π} {w' : Population π}
    (hstep : w.step op = some w') (hholds : ∀ fd, w.Holds fd → w'.Holds fd)
    (hlog : ∀ fd, releases w'.process.log fd = releases w.process.log fd) :
    w.ClosesExactly op := by
  intro t ht fd
  rw [hstep, Option.some.injEq] at ht
  subst ht
  exact ⟨fun hgone => absurd (hholds fd hgone.1) hgone.2, fun _ => hlog fd⟩

/-- An object at a new name hides no other one. -/
theorem Holds.fill {w : Population π} {dst : π} (hdst : w.objects dst = none)
    (object : Option Socket) (process : Process) {fd : ℕ} (h : w.Holds fd) :
    Holds ⟨Function.update w.objects dst object, process⟩ fd := by
  obtain ⟨q, hq⟩ := h
  refine ⟨q, mem_holders_update.mpr (Or.inr ⟨?_, hq⟩)⟩
  rintro rfl
  obtain ⟨o, ho, -⟩ := hq
  rw [hdst] at ho
  cases ho

/-! ## An object goes -/

/-- Where an object is destroyed, its counter was one exactly if it is the last one of it. -/
theorem Counted.counter_eq_one_iff {w : Population π} (h : w.Counted) {p : π} {this : Socket}
    (hp : w.objects p = some this) :
    w.process.counters this.refCounter = 1 ↔
      ∀ q o, q ≠ p → w.objects q = some o → o.refCounter ≠ this.refCounter := by
  have hclear := (h.counter this.refCounter).clear hp
  rw [if_pos rfl] at hclear
  rw [← sub_eq_zero, hclear.eq_zero_iff, Set.eq_empty_iff_forall_notMem]
  constructor
  · intro hnone q o hq ho hcounter
    exact hnone q (mem_holders_update.mpr (Or.inr ⟨hq, o, ho, hcounter⟩))
  · intro hlast q hq
    rcases mem_holders_update.mp hq with ⟨-, o, ho, -⟩ | ⟨hne, o, ho, hcounter⟩
    · cases ho
    · exact hlast q o hne ho hcounter

/-- What is counted stays so where an object is destroyed. -/
theorem Counted.destroy {w : Population π} (h : w.Counted) {p : π} {this : Socket}
    (hp : w.objects p = some this) :
    Counted ⟨Function.update w.objects p none, this.destructor w.process⟩ := by
  refine ⟨fun a => ?_, ?_, ?_⟩
  · rw [Socket.destructor_counters]
    exact (h.counter a).clear hp
  · intro q r o o' hq hr hcounter
    rcases update_eq_some_iff.mp hq with ⟨-, hnone⟩ | ⟨-, hq⟩
    · cases hnone
    · rcases update_eq_some_iff.mp hr with ⟨-, hnone⟩ | ⟨-, hr⟩
      · cases hnone
      · exact h.shared q r o o' hq hr hcounter
  · have hclear := h.nofSockets.clear hp
    rw [if_pos trivial] at hclear
    rw [Socket.destructor_nofSockets]
    exact hclear

/-- A descriptor is held without the object at a name exactly if another object is on it. -/
theorem holds_update_none {w : Population π} {p : π} {process : Process} {fd : ℕ} :
    Holds ⟨Function.update w.objects p none, process⟩ fd ↔
      ∃ q o, q ≠ p ∧ w.objects q = some o ∧ o.s = some fd := by
  rw [Holds, nonempty_holders_update]
  simp [holders]

/-- The last object on a descriptor goes with the object at a name exactly if that is on it and no
other one is. -/
theorem gone_iff {w : Population π} {p : π} {this : Socket} (hp : w.objects p = some this)
    {process : Process} {fd : ℕ} :
    w.Holds fd ∧ ¬ Holds ⟨Function.update w.objects p none, process⟩ fd ↔
      this.s = some fd ∧ ∀ q o, q ≠ p → w.objects q = some o → o.s ≠ this.s := by
  rw [holds_update_none]
  constructor
  · rintro ⟨⟨q, o, ho, hs⟩, hnone⟩
    by_cases hq : q = p
    · subst hq
      rw [hp, Option.some.injEq] at ho
      subst ho
      exact ⟨hs, fun r o hr ho hsame => hnone ⟨r, o, hr, ho, hsame.trans hs⟩⟩
    · exact absurd ⟨q, o, hq, ho, hs⟩ hnone
  · rintro ⟨hs, hother⟩
    refine ⟨⟨p, this, hp, hs⟩, ?_⟩
    rintro ⟨q, o, hq, ho, hsame⟩
    exact hother q o hq ho (hsame.trans hs.symm)

/-- **The destructor closes exactly what it should** exactly if the last object of its counter is
not destroyed while another object holds the descriptor. -/
theorem closesExactly_destroy_iff {w : Population π} (h : w.Counted) {p : π} {this : Socket}
    (hp : w.objects p = some this) : w.ClosesExactly (.destroy p) ↔ w.KeepsCount (.destroy p) := by
  have hone := h.counter_eq_one_iff hp
  have hstep : w.step (.destroy p) =
      some ⟨Function.update w.objects p none, this.destructor w.process⟩ := by
    rw [step, hp, Option.map_some]
  rw [ClosesExactly, KeepsCount]
  simp only [hstep, Option.some.injEq, forall_eq', gone_iff hp, hp,
    Socket.releases_destructor, ← hone]
  constructor
  · intro hcloses hlast q o hq ho hs hsame
    obtain ⟨fd, hfd⟩ := Option.ne_none_iff_exists'.mp hs
    have hkept := (hcloses fd).2 fun hgone => hgone.2 q o hq ho hsame
    rw [if_pos ⟨hlast, hfd⟩] at hkept
    omega
  · intro hkeeps fd
    by_cases hs : this.s = some fd
    · by_cases hlast : w.process.counters this.refCounter = 1
      · have hother : ∀ q o, q ≠ p → w.objects q = some o → o.s ≠ this.s :=
          fun q o hq ho => hkeeps hlast q o hq ho (by simp [hs])
        exact ⟨fun _ => by rw [if_pos ⟨hlast, hs⟩], fun hnot => absurd ⟨hs, hother⟩ hnot⟩
      · -- another object of the counter is on the same descriptor
        have hshared : ¬ ∀ q o, q ≠ p → w.objects q = some o → o.s ≠ this.s := fun hother =>
          hlast (hone.mpr fun q o hq ho hcounter =>
            hother q o hq ho (h.shared q p o this ho hp hcounter))
        simp [hlast, hshared]
    · simp [hs]

/-! ## The runs -/

omit [DecidableEq π] in
theorem countedInv_start : (start : Population π).CountedInv := by
  refine ⟨⟨fun _ => counts_holders_none _, ?_, counts_holders_none _⟩, ?_⟩
  · intro p q o o' hp
    cases hp
  · intro p o hp
    cases hp

/-- An operation that meets the condition keeps the counts. -/
theorem countedInv_step {w w' : Population π} {op : Op π} (h : w.CountedInv)
    (hkeeps : w.KeepsCount op) (hstep : w.step op = some w') :
    w'.CountedInv ∧ w.ClosesExactly op := by
  have hstep' := hstep
  cases op with
  | new dst s =>
      obtain ⟨fd, rfl⟩ := Option.ne_none_iff_exists'.mp hkeeps
      rw [step] at hstep
      split at hstep
      · rename_i hdst
        cases hstep
        refine ⟨h.fill_withNewCounter hdst _ rfl rfl rfl, ?_⟩
        exact closesExactly_of_holds hstep' (fun fd hfd => hfd.fill hdst _ _)
          fun fd => Process.releases_socket _ _ fd
      · cases hstep
  | ofDescriptor dst s =>
      rw [step] at hstep
      split at hstep
      · rename_i hdst
        cases hstep
        refine ⟨h.fill_withNewCounter hdst _ rfl rfl rfl, ?_⟩
        exact closesExactly_of_holds hstep' (fun fd hfd => hfd.fill hdst _ _) fun _ => rfl
      · cases hstep
  | copy src dst =>
      rw [step] at hstep
      split at hstep
      · rename_i hdst
        obtain ⟨o, ho, rfl⟩ := Option.map_eq_some_iff.mp hstep
        refine ⟨⟨h.counted.fill hdst (fun a => ?_) rfl fun q o' hq hcounter => ?_, ?_⟩, ?_⟩
        · exact w.process.addToCounter_counters o.refCounter a 1
        · exact h.counted.shared q src o' o hq ho hcounter
        · intro p o' hp
          rcases update_eq_some_iff.mp hp with ⟨-, ⟨⟩⟩ | ⟨-, hp⟩
          · exact h.allocated src o ho
          · exact h.allocated p o' hp
        · exact closesExactly_of_holds hstep' (fun fd hfd => hfd.fill hdst _ _) fun _ => rfl
      · cases hstep
  | assign src dst => exact hkeeps.elim
  | destroy p =>
      rw [step] at hstep
      obtain ⟨this, hp, rfl⟩ := Option.map_eq_some_iff.mp hstep
      refine ⟨⟨h.counted.destroy hp, ?_⟩, (closesExactly_destroy_iff h.counted hp).mpr hkeeps⟩
      intro q o hq
      rw [Socket.destructor_nextCounter]
      rcases update_eq_some_iff.mp hq with ⟨-, hnone⟩ | ⟨-, hq⟩
      · cases hnone
      · exact h.allocated q o hq

/-- An operation that misses the condition miscounts, or closes too much. -/
theorem not_counted_step {w w' : Population π} {op : Op π} (h : w.CountedInv)
    (hkeeps : ¬ w.KeepsCount op) (hstep : w.step op = some w') (hcloses : w.ClosesExactly op) :
    ¬ w'.Counted := by
  intro hcounted
  cases op with
  | new dst s =>
      rw [KeepsCount, not_not] at hkeeps
      subst hkeeps
      rw [step] at hstep
      split at hstep
      · rename_i hdst
        cases hstep
        -- no object has come
        have hnof := hcounted.nofSockets
        dsimp only [Socket.new] at hnof
        rw [← hdst, Function.update_eq_self] at hnof
        have hsame := hnof.unique h.counted.nofSockets
        simp [Socket.start] at hsame
      · cases hstep
  | ofDescriptor dst s => exact hkeeps trivial
  | copy src dst => exact hkeeps trivial
  | assign src dst =>
      rw [step, Option.bind_eq_some_iff] at hstep
      obtain ⟨o, ho, hstep⟩ := hstep
      obtain ⟨this, hthis, rfl⟩ := Option.map_eq_some_iff.mp hstep
      -- the objects are as many as before
      have hlive : holders (Function.update w.objects dst (some (this.assign o w.process).1))
          (fun _ => True) = holders w.objects fun _ => True := by
        ext q
        rw [mem_holders_update]
        by_cases hq : q = dst
        · subst hq
          simp [holders, hthis]
        · simp [hq]
      have hnof := hcounted.nofSockets
      dsimp only at hnof
      rw [hlive] at hnof
      have hsame := hnof.unique h.counted.nofSockets
      simp [Socket.assign, Process.addToCounter] at hsame
  | destroy p =>
      rw [step] at hstep
      obtain ⟨this, hp, rfl⟩ := Option.map_eq_some_iff.mp hstep
      exact hkeeps ((closesExactly_destroy_iff h.counted hp).mp hcloses)

/-- **When the references are counted right.** In a run, every state is counted and every operation
closes exactly what it should, exactly when no `socket` call fails in `Socket()`, nothing is
assigned, and no last object of a counter is destroyed while an object of another counter holds its
descriptor. -/
theorem counted_iff_keepsCount (ops : List (Op π)) :
    Runs.Always step Counted start ops ∧ Runs.Along step ClosesExactly start ops ↔
      Runs.Along step KeepsCount (start : Population π) ops :=
  Runs.always_and_along_iff step (I := CountedInv) (fun _ h => h.counted)
    (fun _ _ _ _ h hkeeps hstep => countedInv_step h hkeeps hstep)
    (fun _ _ _ _ h hkeeps hstep hcloses => not_counted_step h hkeeps hstep hcloses)
    countedInv_start

/-- An object is assigned over by one of another descriptor: its own counter still says one, and no
object points to it. -/
theorem not_counted_assigned_over :
    ¬ (Runs.Always step Counted start
          [.new false (some 3), .new true (some 4), .assign true false] ∧
        Runs.Along step ClosesExactly (start : Population Bool)
          [.new false (some 3), .new true (some 4), .assign true false]) := by
  rintro ⟨halways, -⟩
  have hlast := Runs.Always.of_run step halways rfl
  obtain ⟨p, o, ho, hcounter⟩ := (hlast.counter 0).nonempty (by decide)
  cases p with
  | false =>
      cases ho
      cases hcounter
  | true =>
      cases ho
      cases hcounter

end Population

end AsabruEngine
