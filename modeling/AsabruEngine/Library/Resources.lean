import Mathlib.Data.Fintype.Defs
import Mathlib.Data.List.Count
import Mathlib.Tactic.TypeStar

/-! # Logs of resources

A program acquires resources from outside, passes them to functions and releases them. A log lists
these events in order; what a program owes is told from its log alone: no use and no release but
between the acquisition and the release, and one release for each acquisition.

* `DisciplinedAfter` and `Orderly` say this of a log on which a resource is acquired once;
  `disciplinedAfter_append` puts a log together from those of its parts.
* `Ledger held log` compares a log with the resources held at its end. `Ledger.acquire`,
  `Ledger.release` and `Ledger.drop` carry it on, one event each.
* Where the outside may give a released resource again, `Open` is what is open after a log, and
  `GivenFresh` says that nothing is given while it is open. -/

namespace AsabruEngine.Resources

/-- What happens to a resource. -/
inductive Event (ρ : Type*)
  | acquired (r : ρ)
  | used (r : ρ)
  | released (r : ρ)
  deriving DecidableEq, Repr

/-- What has happened so far. -/
abbrev Log (ρ : Type*) := List (Event ρ)

variable {ρ : Type*}

/-- The resource has been acquired, and not yet released. -/
def Outstanding (log : Log ρ) (r : ρ) : Prop := .acquired r ∈ log ∧ .released r ∉ log

/-- The resource has neither been acquired nor released. -/
def New (log : Log ρ) (r : ρ) : Prop := .acquired r ∉ log ∧ .released r ∉ log

instance [DecidableEq ρ] (log : Log ρ) (r : ρ) : Decidable (New log r) :=
  inferInstanceAs (Decidable (_ ∧ _))

instance [DecidableEq ρ] (log : Log ρ) (r : ρ) : Decidable (Outstanding log r) :=
  inferInstanceAs (Decidable (_ ∧ _))

/-- A new resource is outstanding once it is acquired. -/
theorem outstanding_acquire {log : Log ρ} {r : ρ} (hnew : New log r) (s : ρ) :
    Outstanding (log ++ [.acquired r]) s ↔ s = r ∨ Outstanding log s := by
  simp only [Outstanding, List.mem_append, List.mem_singleton, Event.acquired.injEq, reduceCtorEq,
    or_false]
  constructor
  · rintro ⟨hs | hs, hnot⟩
    · exact Or.inr ⟨hs, hnot⟩
    · exact Or.inl hs
  · rintro (rfl | ⟨hs, hnot⟩)
    · exact ⟨Or.inr rfl, hnew.2⟩
    · exact ⟨Or.inl hs, hnot⟩

/-- A new resource that is released at once leaves what is outstanding as it was. -/
theorem outstanding_acquire_release {log : Log ρ} {r : ρ} (hnew : New log r) (s : ρ) :
    Outstanding (log ++ [.acquired r, .released r]) s ↔ Outstanding log s := by
  by_cases hs : s = r
  · subst hs
    simp [Outstanding, hnew.1]
  · simp [Outstanding, hs]

/-! ## Discipline -/

/-- An event that is in order after what has happened: a resource is acquired once, and used and
released only while it is outstanding. -/
def Permitted (past : Log ρ) : Event ρ → Prop
  | .acquired r => New past r
  | .used r => Outstanding past r
  | .released r => Outstanding past r

/-- Each event is in order after those before it. -/
def DisciplinedAfter : (past log : Log ρ) → Prop
  | _, [] => True
  | past, e :: log => Permitted past e ∧ DisciplinedAfter (past ++ [e]) log

instance [DecidableEq ρ] (past : Log ρ) (e : Event ρ) : Decidable (Permitted past e) :=
  match e with
  | .acquired _ => inferInstanceAs (Decidable (_ ∧ _))
  | .used _ => inferInstanceAs (Decidable (_ ∧ _))
  | .released _ => inferInstanceAs (Decidable (_ ∧ _))

instance decidableDisciplinedAfter [DecidableEq ρ] :
    (past log : Log ρ) → Decidable (DisciplinedAfter past log)
  | _, [] => .isTrue trivial
  | past, e :: log =>
      have := decidableDisciplinedAfter (past ++ [e]) log
      inferInstanceAs (Decidable (_ ∧ _))

theorem disciplinedAfter_append (past log log' : Log ρ) :
    DisciplinedAfter past (log ++ log') ↔
      DisciplinedAfter past log ∧ DisciplinedAfter (past ++ log) log' := by
  induction log generalizing past with
  | nil => simp [DisciplinedAfter]
  | cons e log ih =>
      rw [List.cons_append, DisciplinedAfter, DisciplinedAfter, ih, and_assoc, List.append_assoc,
        List.singleton_append]

/-- What is used has been acquired. -/
theorem DisciplinedAfter.acquired_of_used {past log : Log ρ} (h : DisciplinedAfter past log) {r : ρ}
    (hr : .used r ∈ log) : .acquired r ∈ past ++ log := by
  obtain ⟨before, after, rfl⟩ := List.append_of_mem hr
  rw [disciplinedAfter_append] at h
  have hacquired := h.2.1.1
  rw [← List.append_assoc]
  exact List.mem_append_left _ hacquired

/-- Uses change nothing about what is outstanding. -/
theorem Outstanding.append_used {log uses : Log ρ} {r s : ρ} (h : Outstanding log s)
    (huses : ∀ e ∈ uses, e = .used r) : Outstanding (log ++ uses) s := by
  refine ⟨List.mem_append_left _ h.1, ?_⟩
  rw [List.mem_append, not_or]
  refine ⟨h.2, fun hreleased => ?_⟩
  cases huses _ hreleased

/-- A resource that is outstanding may be used as often as one likes. -/
theorem disciplinedAfter_used {past uses : Log ρ} {r : ρ} (h : Outstanding past r)
    (huses : ∀ e ∈ uses, e = .used r) : DisciplinedAfter past uses := by
  induction uses generalizing past with
  | nil => trivial
  | cons e uses ih =>
      obtain rfl := huses e List.mem_cons_self
      refine ⟨h, ih ?_ fun e' he' => huses e' (List.mem_cons_of_mem _ he')⟩
      exact h.append_used fun e' he' => List.mem_singleton.mp he'

/-! ## Releases -/

variable [DecidableEq ρ]

/-- How often a resource is released. -/
def releases (log : Log ρ) (r : ρ) : ℕ := log.count (.released r)

@[simp] theorem releases_nil (r : ρ) : releases [] r = 0 := rfl

@[simp] theorem releases_append (log log' : Log ρ) (r : ρ) :
    releases (log ++ log') r = releases log r + releases log' r :=
  List.count_append

@[simp] theorem releases_acquired (log : Log ρ) (r s : ρ) :
    releases (.acquired s :: log) r = releases log r := by
  simp [releases]

@[simp] theorem releases_used (log : Log ρ) (r s : ρ) :
    releases (.used s :: log) r = releases log r := by
  simp [releases]

@[simp] theorem releases_released (log : Log ρ) (r s : ρ) :
    releases (.released s :: log) r = releases log r + if s = r then 1 else 0 := by
  simp [releases, List.count_cons]

theorem releases_eq_zero_iff {log : Log ρ} {r : ρ} : releases log r = 0 ↔ .released r ∉ log :=
  List.count_eq_zero

theorem releases_pos_iff {log : Log ρ} {r : ρ} : 0 < releases log r ↔ .released r ∈ log :=
  List.count_pos_iff

/-- Every event is in order, and every resource acquired is released once. -/
structure Orderly (log : Log ρ) : Prop where
  disciplined : DisciplinedAfter [] log
  released : ∀ r, .acquired r ∈ log → releases log r = 1

instance [Fintype ρ] (log : Log ρ) : Decidable (Orderly log) :=
  decidable_of_iff (DisciplinedAfter [] log ∧ ∀ r, .acquired r ∈ log → releases log r = 1)
    ⟨fun h => ⟨h.1, h.2⟩, fun h => ⟨h.disciplined, h.released⟩⟩

/-! ## Ledgers -/

/-- The log of a program that holds some resources and has given back all others once. -/
structure Ledger (held : ρ → Prop) (log : Log ρ) : Prop where
  acquired_of_held : ∀ r, held r → .acquired r ∈ log
  acquired_of_released : ∀ r, .released r ∈ log → .acquired r ∈ log
  once : ∀ r, releases log r ≤ 1
  settled : ∀ r, .acquired r ∈ log → ¬ held r → releases log r = 1

namespace Ledger

variable {held held' : ρ → Prop} {log : Log ρ}

theorem nil : Ledger (fun _ : ρ => False) [] :=
  ⟨fun _ h => h.elim, by simp, by simp, by simp⟩

/-- Which resources are held can be told in another way. -/
theorem congr (h : Ledger held log) (hheld : ∀ r, held r ↔ held' r) : Ledger held' log := by
  have heq : held = held' := funext fun r => propext (hheld r)
  exact heq ▸ h

/-- A new resource is acquired, and held. -/
theorem acquire (h : Ledger held log) {r : ρ} (hnew : .acquired r ∉ log) :
    Ledger (fun s => s = r ∨ held s) (log ++ [.acquired r]) := by
  have hnone : releases log r = 0 :=
    releases_eq_zero_iff.mpr fun hreleased => hnew (h.acquired_of_released r hreleased)
  refine ⟨?_, ?_, ?_, ?_⟩
  · rintro s (rfl | hs)
    · simp
    · simp [h.acquired_of_held s hs]
  · intro s hs
    simp only [List.mem_append, List.mem_singleton, reduceCtorEq, or_false] at hs
    simp [h.acquired_of_released s hs]
  · intro s
    simpa using h.once s
  · intro s hs hnot
    rw [not_or] at hnot
    simp only [List.mem_append, List.mem_singleton, Event.acquired.injEq, hnot.1, or_false] at hs
    simpa using h.settled s hs hnot.2

/-- A resource held and not yet released is released. -/
theorem release (h : Ledger held log) {r : ρ} (hr : held r) (hnot : .released r ∉ log) :
    Ledger held (log ++ [.released r]) := by
  have hnone := releases_eq_zero_iff.mpr hnot
  refine ⟨?_, ?_, ?_, ?_⟩
  · intro s hs
    simp [h.acquired_of_held s hs]
  · intro s hs
    simp only [List.mem_append, List.mem_singleton, Event.released.injEq] at hs
    rcases hs with hs | rfl
    · simp [h.acquired_of_released s hs]
    · simp [h.acquired_of_held s hr]
  · intro s
    by_cases hs : r = s
    · subst hs
      simp [hnone]
    · simpa [hs] using h.once s
  · intro s hs hheld
    have hne : r ≠ s := by
      rintro rfl
      exact hheld hr
    simp only [List.mem_append, List.mem_singleton, reduceCtorEq, or_false] at hs
    simpa [hne] using h.settled s hs hheld

/-- Resources that have been released are held no more. -/
theorem drop (h : Ledger held log) (hsub : ∀ r, held' r → held r)
    (hdropped : ∀ r, held r → ¬ held' r → releases log r = 1) : Ledger held' log := by
  refine ⟨fun r hr => h.acquired_of_held r (hsub r hr), h.acquired_of_released, h.once, ?_⟩
  intro r hr hnot
  by_cases hheld : held r
  · exact hdropped r hheld hnot
  · exact h.settled r hr hheld

/-- A new resource that is released at once leaves what is held as it was. -/
theorem acquire_release (h : Ledger held log) {r : ρ} (hnew : .acquired r ∉ log) :
    Ledger held (log ++ [.acquired r, .released r]) := by
  have hunreleased : Event.released r ∉ log ++ [.acquired r] := by
    simpa using fun hreleased => hnew (h.acquired_of_released r hreleased)
  have hreleases := releases_eq_zero_iff.mpr hunreleased
  have hboth := (h.acquire hnew).release (Or.inl rfl) hunreleased
  rw [← List.singleton_append, ← List.append_assoc]
  refine hboth.drop (fun s hs => Or.inr hs) fun s hs hnot => ?_
  rcases hs with rfl | hs
  · rw [releases_append, hreleases]
    simp
  · exact absurd hs hnot

end Ledger

/-! ## Names given anew -/

omit [DecidableEq ρ]

/-- What one event leaves open, where a name that is closed may be given again. -/
def Event.leavesOpen (opened : ρ → Prop) : Event ρ → ρ → Prop
  | .acquired r => fun s => s = r ∨ opened s
  | .used _ => opened
  | .released r => fun s => opened s ∧ s ≠ r

/-- The names that are open after a log. Releasing one that is not open changes nothing. -/
def Open (log : Log ρ) : ρ → Prop := log.foldl Event.leavesOpen fun _ => False

theorem open_append (log log' : Log ρ) :
    Open (log ++ log') = log'.foldl Event.leavesOpen (Open log) := List.foldl_append

theorem open_acquired (log : Log ρ) (r s : ρ) :
    Open (log ++ [.acquired r]) s ↔ s = r ∨ Open log s := by
  rw [open_append]
  rfl

/-- Releases close what they name, however often they name it. -/
theorem open_released {log events : Log ρ} {gone : ρ → Prop}
    (hevents : ∀ e, e ∈ events ↔ ∃ r, gone r ∧ e = .released r) (s : ρ) :
    Open (log ++ events) s ↔ Open log s ∧ ¬ gone s := by
  have hfold : ∀ (events : Log ρ) (opened : ρ → Prop),
      (∀ e ∈ events, ∃ r, e = .released r) →
        (events.foldl Event.leavesOpen opened s ↔ opened s ∧ .released s ∉ events) := by
    intro events
    induction events with
    | nil => simp
    | cons e events ih =>
        intro opened hall
        obtain ⟨⟨r, rfl⟩, hrest⟩ := List.forall_mem_cons.mp hall
        rw [List.foldl_cons, ih _ hrest, List.mem_cons, not_or, Event.released.injEq,
          Event.leavesOpen, and_assoc]
  have hgone : .released s ∈ events ↔ gone s := by
    simp [hevents]
  rw [open_append, hfold events _ fun e he => ?_, hgone]
  obtain ⟨r, -, rfl⟩ := (hevents e).mp he
  exact ⟨r, rfl⟩

/-- No event acquires a name that is open. -/
def FreshAfter (opened : ρ → Prop) : Log ρ → Prop
  | [] => True
  | e :: log => (∀ r, e = .acquired r → ¬ opened r) ∧ FreshAfter (e.leavesOpen opened) log

/-- No name is given while it is open, as a kernel promises of its descriptors. -/
def GivenFresh (log : Log ρ) : Prop := FreshAfter (fun _ => False) log

theorem freshAfter_append (opened : ρ → Prop) (log log' : Log ρ) :
    FreshAfter opened (log ++ log') ↔
      FreshAfter opened log ∧ FreshAfter (log.foldl Event.leavesOpen opened) log' := by
  induction log generalizing opened with
  | nil => simp [FreshAfter]
  | cons e log ih =>
      rw [List.cons_append, FreshAfter, FreshAfter, ih, and_assoc, List.foldl_cons]

theorem GivenFresh.of_append {log log' : Log ρ} (h : GivenFresh (log ++ log')) :
    GivenFresh log :=
  ((freshAfter_append _ log log').mp h).1

/-- What is given last was not open before. -/
theorem GivenFresh.not_open {log : Log ρ} {r : ρ} (h : GivenFresh (log ++ [.acquired r])) :
    ¬ Open log r :=
  ((freshAfter_append _ log [.acquired r]).mp h).2.1 r rfl

end AsabruEngine.Resources
