import AsabruEngine.Socket.RefCount

/-! # What the counters count

A copy assignment gives up the reference of its target without counting it down, and a `Socket()`
that throws is counted without being made. A run is accounted for with the list of these: each
counter is the number of its live objects and of its references given up, so no destructor closes a
descriptor that another object shares through the counter, and once a reference was given up none
closes it at all.

`Miscount` is what an operation may leave uncounted, and `Accounts` says that counters, objects and
miscounts add up. `accounts_step` adds one operation to the account, `releases_step` tells what it
closes from the account, and `references_accounted` has both for runs. -/

namespace AsabruEngine

open Resources

variable {π : Type*}

/-- What is counted and not there. -/
inductive Miscount
  /-- An object on the counter was assigned over. -/
  | givenUp (refCounter : ℕ)
  /-- `Socket()` threw. -/
  | notMade
  deriving DecidableEq, Repr

namespace Population

/-- The miscount of an operation. -/
def miscount (w : Population π) : Op π → Option Miscount
  | .new _ none => some .notMade
  | .new _ (some _) => none
  | .ofDescriptor _ _ => none
  | .copy _ _ => none
  | .assign _ dst => (w.objects dst).map fun this => .givenUp this.refCounter
  | .destroy _ => none

/-- The counters are the live objects and the miscounts together, and the objects of a counter agree
on the descriptor. -/
structure Accounts (w : Population π) (history : List Miscount) : Prop where
  counter : ∀ a, Counts (holders w.objects fun o => o.refCounter = a)
    (w.process.counters a - history.count (.givenUp a))
  nofSockets : Counts (holders w.objects fun _ => True) (w.process.nofSockets - history.length)
  shared : ∀ p q o o', w.objects p = some o → w.objects q = some o' →
    o.refCounter = o'.refCounter → o.s = o'.s
  /-- Live objects point to counters that have been allocated. -/
  allocated : ∀ p o, w.objects p = some o → o.refCounter < w.process.nextCounter
  /-- So did the objects assigned over. -/
  recorded : ∀ a, .givenUp a ∈ history → a < w.process.nextCounter

/-- The destructor of an object is to close its descriptor: no reference of its counter was given
up, and no other object is on the counter. -/
def LastReference (w : Population π) (history : List Miscount) (p : π) (this : Socket) : Prop :=
  .givenUp this.refCounter ∉ history ∧
    ∀ q o, q ≠ p → w.objects q = some o → o.refCounter ≠ this.refCounter

/-- The descriptors that an operation closes. -/
def ClosedBy (w : Population π) (history : List Miscount) (op : Op π) (fd : ℕ) : Prop :=
  ∃ p this, op = .destroy p ∧ w.objects p = some this ∧ this.s = some fd ∧
    w.LastReference history p this

/-! ## The objects of one counter -/

/-- Without miscounts the account is that of the counted populations. -/
theorem accounts_nil_iff (w : Population π) : w.Accounts [] ↔ w.CountedInv := by
  constructor
  · intro h
    refine ⟨⟨fun a => ?_, h.shared, ?_⟩, h.allocated⟩
    · simpa using h.counter a
    · simpa using h.nofSockets
  · intro h
    refine ⟨fun a => ?_, ?_, h.counted.shared, h.allocated, fun a ha => ?_⟩
    · simpa using h.counted.counter a
    · simpa using h.counted.nofSockets
    · cases ha

namespace Accounts

variable {w : Population π} {history : List Miscount}

/-- The counter that comes next counts nothing. -/
theorem counters_nextCounter (h : w.Accounts history) :
    w.process.counters w.process.nextCounter = 0 := by
  have hnone : history.count (.givenUp w.process.nextCounter) = 0 :=
    List.count_eq_zero.mpr fun hmem => absurd (h.recorded _ hmem) (lt_irrefl _)
  have hcounter := h.counter w.process.nextCounter
  rw [hnone, Nat.cast_zero, sub_zero] at hcounter
  rw [hcounter.eq_zero_iff]
  refine Set.eq_empty_of_forall_notMem fun p => ?_
  rintro ⟨o, ho, heq⟩
  exact absurd (h.allocated p o ho) (by omega)

variable [DecidableEq π]

/-- **When a counter is one**: its object is the last reference. -/
theorem counter_eq_one_iff (h : w.Accounts history) {p : π} {this : Socket}
    (hp : w.objects p = some this) :
    w.process.counters this.refCounter = 1 ↔ w.LastReference history p this := by
  have hclear := (h.counter this.refCounter).clear hp
  rw [if_pos rfl] at hclear
  -- the others on the counter and the references given up are counted together
  have hothers := hclear.2
  rw [LastReference, ← List.count_eq_zero]
  constructor
  · intro hone
    have hzero : w.process.counters this.refCounter -
        history.count (.givenUp this.refCounter) - 1 = 0 := by omega
    have hnone := hclear.eq_zero_iff.mp hzero
    refine ⟨by omega, fun q o hq ho hcounter => ?_⟩
    have hmem : q ∈ holders (Function.update w.objects p none)
        fun o => o.refCounter = this.refCounter :=
      mem_holders_update.mpr (Or.inr ⟨hq, o, ho, hcounter⟩)
    rw [hnone] at hmem
    exact hmem
  · rintro ⟨hcount, hlast⟩
    have hnone : holders (Function.update w.objects p none)
        (fun o => o.refCounter = this.refCounter) = ∅ := by
      refine Set.eq_empty_of_forall_notMem fun q hq => ?_
      rcases mem_holders_update.mp hq with ⟨-, o, ho, -⟩ | ⟨hne, o, ho, hcounter⟩
      · cases ho
      · exact hlast q o hne ho hcounter
    have hzero := hclear.eq_zero_iff.mpr hnone
    rw [hcount] at hzero
    omega

/-! ## One operation -/

/-- An object that comes is one more of its counter and one more of all. -/
theorem fill (h : w.Accounts history) {dst : π} (hdst : w.objects dst = none) (object : Socket)
    (process : Process)
    (hcounters : ∀ a, process.counters a =
      w.process.counters a + if object.refCounter = a then 1 else 0)
    (hnof : process.nofSockets = w.process.nofSockets + 1)
    (hnext : w.process.nextCounter ≤ process.nextCounter)
    (hallocated : object.refCounter < process.nextCounter)
    (hshared : ∀ q o, w.objects q = some o → o.refCounter = object.refCounter → o.s = object.s) :
    Accounts ⟨Function.update w.objects dst (some object), process⟩ history := by
  refine ⟨fun a => ?_, ?_, ?_, ?_, fun a ha => (h.recorded a ha).trans_le hnext⟩
  · have hfill := (h.counter a).fill hdst object
    rw [sub_add_eq_add_sub, ← hcounters a] at hfill
    exact hfill
  · have hfill := h.nofSockets.fill hdst object
    rw [if_pos trivial, sub_add_eq_add_sub, ← hnof] at hfill
    exact hfill
  · intro p q o o' hp hq hcounter
    rcases update_eq_some_iff.mp hp with ⟨-, ⟨⟩⟩ | ⟨-, hp⟩
    · rcases update_eq_some_iff.mp hq with ⟨-, ⟨⟩⟩ | ⟨-, hq⟩
      · rfl
      · exact (hshared q o' hq hcounter.symm).symm
    · rcases update_eq_some_iff.mp hq with ⟨-, ⟨⟩⟩ | ⟨-, hq⟩
      · exact hshared p o hp hcounter
      · exact h.shared p q o o' hp hq hcounter
  · intro p o hp
    rcases update_eq_some_iff.mp hp with ⟨-, ⟨⟩⟩ | ⟨-, hp⟩
    · exact hallocated
    · exact (h.allocated p o hp).trans_le hnext

/-- An object of its own counter comes. -/
theorem fill_withNewCounter (h : w.Accounts history) {dst : π} (hdst : w.objects dst = none)
    (s : SOCKET) {process : Process}
    (hcounters : process.counters = (Socket.withNewCounter w.process s).2.counters)
    (hnext : process.nextCounter = w.process.nextCounter + 1)
    (hnof : process.nofSockets = w.process.nofSockets + 1) :
    Accounts ⟨Function.update w.objects dst (some ⟨s, w.process.nextCounter⟩), process⟩
      history := by
  refine h.fill hdst _ process (fun a => ?_) hnof (by omega) (hnext ▸ Nat.lt_succ_self _)
    fun q o ho hcounter => ?_
  · rw [hcounters]
    exact counters_withNewCounter h.counters_nextCounter s a
  · exact absurd hcounter (h.allocated q o ho).ne

/-- An object that goes is one less of its counter and one less of all. -/
theorem clear (h : w.Accounts history) {p : π} {this : Socket} (hp : w.objects p = some this)
    (process : Process)
    (hcounters : ∀ a, process.counters a =
      w.process.counters a - if this.refCounter = a then 1 else 0)
    (hnof : process.nofSockets = w.process.nofSockets - 1)
    (hnext : process.nextCounter = w.process.nextCounter) :
    Accounts ⟨Function.update w.objects p none, process⟩ history := by
  refine ⟨fun a => ?_, ?_, ?_, ?_, fun a ha => ?_⟩
  · have hclear := (h.counter a).clear hp
    rw [sub_right_comm, ← hcounters a] at hclear
    exact hclear
  · have hclear := h.nofSockets.clear hp
    rw [if_pos trivial, sub_right_comm, ← hnof] at hclear
    exact hclear
  · intro q r o o' hq hr hcounter
    rcases update_eq_some_iff.mp hq with ⟨-, hnone⟩ | ⟨-, hq⟩
    · cases hnone
    · rcases update_eq_some_iff.mp hr with ⟨-, hnone⟩ | ⟨-, hr⟩
      · cases hnone
      · exact h.shared q r o o' hq hr hcounter
  · intro q o hq
    rcases update_eq_some_iff.mp hq with ⟨-, hnone⟩ | ⟨-, hq⟩
    · cases hnone
    · rw [hnext]
      exact h.allocated q o hq
  · rw [hnext]
    exact h.recorded a ha

omit [DecidableEq π] in
/-- A miscount is one more on its counter, if it has one, and one more of all. -/
theorem record (h : w.Accounts history) (m : Miscount) {process : Process}
    (hcounters : ∀ a, process.counters a =
      w.process.counters a + if m = .givenUp a then 1 else 0)
    (hnof : process.nofSockets = w.process.nofSockets + 1)
    (hnext : process.nextCounter = w.process.nextCounter)
    (hrecorded : ∀ a, m = .givenUp a → a < w.process.nextCounter) :
    Accounts ⟨w.objects, process⟩ (history ++ [m]) := by
  refine ⟨fun a => ?_, ?_, h.shared, fun p o hp => ?_, fun a ha => ?_⟩
  · have hsame : process.counters a - (history ++ [m]).count (.givenUp a) =
        w.process.counters a - history.count (.givenUp a) := by
      rw [hcounters, List.count_append, List.count_singleton]
      split
      · simp_all
      · simp_all
    rw [hsame]
    exact h.counter a
  · have hsame : process.nofSockets - (history ++ [m]).length =
        w.process.nofSockets - history.length := by
      rw [hnof, List.length_append, List.length_singleton]
      omega
    rw [hsame]
    exact h.nofSockets
  · rw [hnext]
    exact h.allocated p o hp
  · rw [hnext]
    rcases List.mem_append.mp ha with ha | ha
    · exact h.recorded a ha
    · exact hrecorded a (List.mem_singleton.mp ha).symm

/-- An object that is assigned over goes, and its counter is not told. -/
theorem giveUp (h : w.Accounts history) {p : π} {this : Socket} (hp : w.objects p = some this) :
    Accounts ⟨Function.update w.objects p none, w.process⟩
      (history ++ [.givenUp this.refCounter]) := by
  -- as if it were counted down, and up again for the reference given up
  have hclear := h.clear hp
    { w.process with
      counters := fun a => w.process.counters a - if this.refCounter = a then 1 else 0
      nofSockets := w.process.nofSockets - 1 }
    (fun _ => rfl) rfl rfl
  refine hclear.record (.givenUp this.refCounter) (fun a => ?_) ?_ rfl fun a ha => ?_
  · simp
  · simp
  · cases ha
    exact h.allocated p this hp

end Accounts

variable [DecidableEq π]

/-- Every operation keeps the account, with its miscount added. -/
theorem accounts_step {w w' : Population π} {history : List Miscount} {op : Op π}
    (h : w.Accounts history) (hstep : w.step op = some w') :
    w'.Accounts (history ++ (w.miscount op).toList) := by
  cases op with
  | new dst s =>
      rw [step] at hstep
      split at hstep
      · rename_i hdst
        cases s with
        | none =>
            cases hstep
            rw [Function.update_eq_self_iff.mpr hdst.symm]
            exact h.record .notMade (fun a => by simp [Socket.start])
              (by simp [Socket.start]) (by simp [Socket.start])
              fun a ha => by cases ha
        | some fd =>
            cases hstep
            rw [miscount, Option.toList_none, List.append_nil]
            exact h.fill_withNewCounter hdst _ rfl rfl rfl
      · cases hstep
  | ofDescriptor dst s =>
      rw [step] at hstep
      split at hstep
      · rename_i hdst
        cases hstep
        rw [miscount, Option.toList_none, List.append_nil]
        exact h.fill_withNewCounter hdst _ rfl rfl rfl
      · cases hstep
  | copy src dst =>
      rw [step] at hstep
      split at hstep
      · rename_i hdst
        obtain ⟨o, ho, rfl⟩ := Option.map_eq_some_iff.mp hstep
        rw [miscount, Option.toList_none, List.append_nil]
        refine h.fill hdst _ _ (fun a => ?_) rfl (le_refl _) (h.allocated src o ho)
          fun q o' hq hcounter => h.shared q src o' o hq ho hcounter
        exact w.process.addToCounter_counters o.refCounter a 1
      · cases hstep
  | assign src dst =>
      rw [step] at hstep
      obtain ⟨o, ho, hstep⟩ := Option.bind_eq_some_iff.mp hstep
      obtain ⟨this, hdst, rfl⟩ := Option.map_eq_some_iff.mp hstep
      rw [miscount, hdst, Option.map_some, Option.toList_some]
      -- the target goes, and an object like the source comes in its place
      have hgone := h.giveUp hdst
      have hcome := hgone.fill (Function.update_self dst none w.objects)
        (this.assign o w.process).1 (this.assign o w.process).2
        (fun a => w.process.addToCounter_counters o.refCounter a 1) rfl (le_refl _)
        (h.allocated src o ho) (fun q o' hq hcounter => by
          rcases update_eq_some_iff.mp hq with ⟨-, hnone⟩ | ⟨-, hq⟩
          · cases hnone
          · exact h.shared q src o' o hq ho hcounter)
      rw [Function.update_idem] at hcome
      exact hcome
  | destroy p =>
      rw [step] at hstep
      obtain ⟨this, hp, rfl⟩ := Option.map_eq_some_iff.mp hstep
      rw [miscount, Option.toList_none, List.append_nil]
      exact h.clear hp _ (this.destructor_counters w.process) (this.destructor_nofSockets w.process)
        (this.destructor_nextCounter w.process)

/-- An operation closes the descriptors of the last references it destroys, and no others. -/
theorem releases_step {w w' : Population π} {history : List Miscount} {op : Op π}
    (h : w.Accounts history) (hstep : w.step op = some w') (fd : ℕ) :
    (w.ClosedBy history op fd → releases w'.process.log fd = releases w.process.log fd + 1) ∧
      (¬ w.ClosedBy history op fd →
        releases w'.process.log fd = releases w.process.log fd) := by
  by_cases hop : ∃ p, op = .destroy p
  · obtain ⟨p, rfl⟩ := hop
    rw [step] at hstep
    obtain ⟨this, hp, rfl⟩ := Option.map_eq_some_iff.mp hstep
    have hclosed : w.ClosedBy history (.destroy p) fd ↔
        w.process.counters this.refCounter = 1 ∧ this.s = some fd := by
      rw [h.counter_eq_one_iff hp]
      constructor
      · rintro ⟨_, _, ⟨⟩, hthis, hs, hlast⟩
        rw [hp, Option.some.injEq] at hthis
        subst hthis
        exact ⟨hlast, hs⟩
      · rintro ⟨hlast, hs⟩
        exact ⟨p, this, rfl, hp, hs, hlast⟩
    rw [hclosed, Socket.releases_destructor]
    exact ⟨fun hyes => by rw [if_pos hyes], fun hno => by rw [if_neg hno, add_zero]⟩
  · have hnot : ¬ w.ClosedBy history op fd := by
      rintro ⟨p, -, rfl, -⟩
      exact hop ⟨p, rfl⟩
    refine ⟨fun hyes => absurd hyes hnot, fun _ => ?_⟩
    cases op with
    | new dst s =>
        rw [step] at hstep
        split at hstep
        · cases hstep
          cases s with
          | none => exact Process.releases_socket _ _ fd
          | some fd' => exact Process.releases_socket _ _ fd
        · cases hstep
    | ofDescriptor dst s =>
        rw [step] at hstep
        split at hstep
        · cases hstep
          rfl
        · cases hstep
    | copy src dst =>
        rw [step] at hstep
        split at hstep
        · obtain ⟨o, -, rfl⟩ := Option.map_eq_some_iff.mp hstep
          rfl
        · cases hstep
    | assign src dst =>
        rw [step] at hstep
        obtain ⟨o, -, hstep⟩ := Option.bind_eq_some_iff.mp hstep
        obtain ⟨this, -, rfl⟩ := Option.map_eq_some_iff.mp hstep
        rfl
    | destroy p => exact absurd ⟨p, rfl⟩ hop

/-- **What the counters count in every run.** In the state that any constructions, copies,
assignments and destructions lead to, each counter is the number of live objects on it and of its
objects that were assigned over, `nofSockets_` the number of live objects, of assignments and of
`Socket()` calls that threw, and objects on one counter have one descriptor. A further operation
closes a descriptor once if it destroys the only object of a counter none of whose objects was
assigned over, and not at all otherwise. -/
theorem references_accounted (ops : List (Op π)) {w : Population π}
    (hrun : Runs.run step start ops = some w) :
    w.Accounts (Runs.emitted step miscount start ops) ∧
      ∀ op w', w.step op = some w' → ∀ fd,
        (w.ClosedBy (Runs.emitted step miscount start ops) op fd →
          releases w'.process.log fd = releases w.process.log fd + 1) ∧
        (¬ w.ClosedBy (Runs.emitted step miscount start ops) op fd →
          releases w'.process.log fd = releases w.process.log fd) := by
  have hstart : (start : Population π).Accounts [] := (accounts_nil_iff _).mpr countedInv_start
  have haccounts := Runs.run_history step miscount (I := Accounts)
    (fun _ _ _ _ h hstep => accounts_step h hstep) hstart hrun
  rw [List.nil_append] at haccounts
  exact ⟨haccounts, fun _ _ hstep fd => releases_step haccounts hstep fd⟩

/-- An object is assigned over by one of another descriptor: a reference of its counter is given up
in the account, and whatever is done next is charged to that account. -/
theorem references_accounted_assigned_over :
    ∃ w, Runs.run step (start : Population Bool)
        [.new false (some 3), .new true (some 4), .assign true false] = some w ∧
      w.Accounts [.givenUp 0] ∧
      ∀ op w', w.step op = some w' → ∀ fd,
        (w.ClosedBy [.givenUp 0] op fd →
          releases w'.process.log fd = releases w.process.log fd + 1) ∧
        (¬ w.ClosedBy [.givenUp 0] op fd →
          releases w'.process.log fd = releases w.process.log fd) :=
  ⟨_, rfl, references_accounted [.new false (some 3), .new true (some 4), .assign true false] rfl⟩

end Population

end AsabruEngine
