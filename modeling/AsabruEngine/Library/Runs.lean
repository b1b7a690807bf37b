import Mathlib.Data.List.Chain
import Mathlib.Tactic.ByContra

/-! # Runs of a partial step function

`step s e` is the state after event `e`, or `none` where `e` is not possible in `s`. `run` follows a
list of events, `Always` says what holds in every state a run visits, and `Along` what holds at
every step it takes. The rules carry a fact about one step to whole runs:

* `run_invariant` and `always_of_invariant`: what a step keeps holds in every state reached.
* `always_iff_along` and its variants: where a step keeps the invariant exactly if it meets a
  condition, the runs that keep it throughout are those that meet the condition throughout.
* `run_history`: an invariant over the state and what the steps have `emitted`.
* `run_simulates`: steps that keep a relation to another level lead to a run on that level.

At the end, `History` tells what a list of events says by itself: the `latest` value that one of
them gave, and what came `beforeLatest` event of a kind. -/

namespace AsabruEngine.Runs

variable {σ ε : Type*} (step : σ → ε → Option σ)

/-- The state after a list of events, if each of them is possible in its turn. -/
def run : σ → List ε → Option σ
  | s, [] => some s
  | s, e :: es => (step s e).bind fun s' => run s' es

/-- `P` holds in every state the events lead through, the first and the last included. -/
def Always (P : σ → Prop) : σ → List ε → Prop
  | s, [] => P s
  | s, e :: es => P s ∧ ∀ s', step s e = some s' → Always P s' es

/-- `C` holds of the state and the event at every step taken. -/
def Along (C : σ → ε → Prop) : σ → List ε → Prop
  | _, [] => True
  | s, e :: es => ∀ s', step s e = some s' → C s e ∧ Along C s' es

@[simp] theorem run_nil (s : σ) : run step s [] = some s := rfl

theorem run_cons (s : σ) (e : ε) (es : List ε) :
    run step s (e :: es) = (step s e).bind fun s' => run step s' es := rfl

@[simp] theorem run_singleton (s : σ) (e : ε) : run step s [e] = step s e := by
  simp [run_cons]

/-- Every step of a run meets a condition that holds of all its events. -/
theorem along_of_forall_mem {C : σ → ε → Prop} {es : List ε} (h : ∀ e ∈ es, ∀ s, C s e) (s : σ) :
    Along step C s es := by
  induction es generalizing s with
  | nil => trivial
  | cons e es ih =>
      have hrest := ih fun e' he' => h e' (List.mem_cons_of_mem e he')
      exact fun s' _ => ⟨h e List.mem_cons_self s, hrest s'⟩

/-- What holds in every state of a run holds in its last one. -/
theorem Always.of_run {P : σ → Prop} {s s' : σ} {es : List ε} (h : Always step P s es)
    (hrun : run step s es = some s') : P s' := by
  induction es generalizing s with
  | nil =>
      rw [run_nil, Option.some.injEq] at hrun
      exact hrun ▸ h
  | cons e es ih =>
      rw [run_cons, Option.bind_eq_some_iff] at hrun
      obtain ⟨t, ht, hrun⟩ := hrun
      exact ih (h.2 t ht) hrun

/-- **Invariant rule.** What each step meeting `C` preserves holds after a run of such steps. -/
theorem run_invariant {I : σ → Prop} {C : σ → ε → Prop}
    (hstep : ∀ s e s', I s → C s e → step s e = some s' → I s') {s s' : σ} {es : List ε}
    (hs : I s) (hC : Along step C s es) (hrun : run step s es = some s') : I s' := by
  induction es generalizing s with
  | nil =>
      rw [run_nil, Option.some.injEq] at hrun
      exact hrun ▸ hs
  | cons e es ih =>
      rw [run_cons, Option.bind_eq_some_iff] at hrun
      obtain ⟨t, ht, hrun⟩ := hrun
      obtain ⟨hCe, hC⟩ := hC t ht
      exact ih (hstep s e t hs hCe ht) hC hrun

/-- **Invariant rule for all steps.** What every step preserves holds throughout every run, and with
it what it implies. -/
theorem always_of_invariant {I P : σ → Prop} (hIP : ∀ s, I s → P s)
    (hkeep : ∀ s e s', I s → step s e = some s' → I s') {s : σ} (hs : I s) (es : List ε) :
    Always step P s es := by
  induction es generalizing s with
  | nil => exact hIP s hs
  | cons e es ih => exact ⟨hIP s hs, fun s' hs' => ih (hkeep s e s' hs hs')⟩

/-- Two conditions that agree on the steps the events can take hold along the same runs. -/
theorem along_congr {C D : σ → ε → Prop} {es : List ε}
    (h : ∀ e ∈ es, ∀ s s', step s e = some s' → (C s e ↔ D s e)) (s : σ) :
    Along step C s es ↔ Along step D s es := by
  induction es generalizing s with
  | nil => exact Iff.rfl
  | cons e es ih =>
      refine forall_congr' fun s' => imp_congr_right fun hs' => ?_
      exact and_congr (h e List.mem_cons_self s s' hs')
        (ih (fun e' he' => h e' (List.mem_cons_of_mem e he')) s')

/-- Where every event is possible in every state, a condition on the event alone holds along a run
if it holds of all events. -/
theorem along_iff_forall_mem {C : ε → Prop} (hpossible : ∀ s e, ∃ s', step s e = some s') (s : σ)
    (es : List ε) : Along step (fun _ e => C e) s es ↔ ∀ e ∈ es, C e := by
  refine ⟨fun h => ?_, fun h => along_of_forall_mem step (fun e he _ => h e he) s⟩
  induction es generalizing s with
  | nil => simp
  | cons e es ih =>
      obtain ⟨s', hs'⟩ := hpossible s e
      obtain ⟨he, hrest⟩ := h s' hs'
      exact List.forall_mem_cons.mpr ⟨he, ih s' hrest⟩

/-- Where every event is possible in every state, a condition on the event and the one before it
holds along the chains of events. -/
theorem along_iff_isChain {C : σ → ε → Prop} {R : ε → ε → Prop}
    (hpossible : ∀ s e, ∃ s', step s e = some s')
    (hbefore : ∀ s e s', step s e = some s' → ∀ e', C s' e' ↔ R e e') (s : σ) (es : List ε) :
    Along step C s es ↔ (∀ e ∈ es.head?, C s e) ∧ es.IsChain R := by
  induction es generalizing s with
  | nil => simp [Along]
  | cons e es ih =>
      obtain ⟨t, ht⟩ := hpossible s e
      have hcons : Along step C s (e :: es) ↔ C s e ∧ Along step C t es := by
        constructor
        · exact fun h => h t ht
        · intro h s' hs'
          obtain rfl : t = s' := Option.some.inj (ht.symm.trans hs')
          exact h
      have hnext : (∀ e' ∈ es.head?, C t e') ↔ ∀ e' ∈ es.head?, R e e' :=
        forall₂_congr fun e' _ => hbefore s e t ht e'
      rw [hcons, ih, hnext, List.isChain_cons]
      simp

/-- **Exact condition rule.** Let `I` imply `P`. If a step meeting `C` keeps `I` and meets `Q`, and
a step missing `C` misses `Q` or breaks `P`, then the runs that keep `P` and meet `Q` throughout are
those that meet `C` throughout. -/
theorem always_and_along_iff {I P : σ → Prop} {Q C : σ → ε → Prop} {es : List ε}
    (hIP : ∀ s, I s → P s)
    (hkeep : ∀ e ∈ es, ∀ s s', I s → C s e → step s e = some s' → I s' ∧ Q s e)
    (hbreak : ∀ e ∈ es, ∀ s s', I s → ¬ C s e → step s e = some s' → Q s e → ¬ P s') {s : σ}
    (hs : I s) : Always step P s es ∧ Along step Q s es ↔ Along step C s es := by
  induction es generalizing s with
  | nil => exact ⟨fun _ => trivial, fun _ => ⟨hIP s hs, trivial⟩⟩
  | cons e es ih =>
      have ihs := @ih (fun e' he' => hkeep e' (List.mem_cons_of_mem e he'))
        (fun e' he' => hbreak e' (List.mem_cons_of_mem e he'))
      constructor
      · rintro ⟨⟨-, hall⟩, halong⟩ s' hs'
        obtain ⟨hQ, hrest⟩ := halong s' hs'
        have hC : C s e := by
          by_contra hC
          -- the bad step breaks `P` in the very next state, wherever the run goes from there
          refine hbreak e List.mem_cons_self s s' hs hC hs' hQ ?_
          have := hall s' hs'
          cases es with
          | nil => exact this
          | cons _ _ => exact this.1
        exact ⟨hC, (ihs (hkeep e List.mem_cons_self s s' hs hC hs').1).mp ⟨hall s' hs', hrest⟩⟩
      · intro hC
        have hnext : ∀ s', step s e = some s' →
            Q s e ∧ Always step P s' es ∧ Along step Q s' es := by
          intro s' hs'
          obtain ⟨hCe, hrest⟩ := hC s' hs'
          obtain ⟨hI, hQ⟩ := hkeep e List.mem_cons_self s s' hs hCe hs'
          exact ⟨hQ, (ihs hI).mpr hrest⟩
        exact ⟨⟨hIP s hs, fun s' hs' => (hnext s' hs').2.1⟩,
          fun s' hs' => ⟨(hnext s' hs').1, (hnext s' hs').2.2⟩⟩

/-- The exact condition rule for what holds in every state. -/
theorem always_iff_along_of_mem {I P : σ → Prop} {C : σ → ε → Prop} {es : List ε}
    (hIP : ∀ s, I s → P s)
    (hkeep : ∀ e ∈ es, ∀ s s', I s → C s e → step s e = some s' → I s')
    (hbreak : ∀ e ∈ es, ∀ s s', I s → ¬ C s e → step s e = some s' → ¬ P s') {s : σ}
    (hs : I s) : Always step P s es ↔ Along step C s es := by
  have hrule := always_and_along_iff step (Q := fun _ _ => True) hIP
    (fun e he s s' hI hC hstep => ⟨hkeep e he s s' hI hC hstep, trivial⟩)
    (fun e he s s' hI hC hstep _ => hbreak e he s s' hI hC hstep) hs
  rw [← hrule]
  exact (and_iff_left (along_of_forall_mem step (fun _ _ _ => trivial) s)).symm

/-- The exact condition rule where the events are any. -/
theorem always_iff_along {I P : σ → Prop} {C : σ → ε → Prop} (hIP : ∀ s, I s → P s)
    (hkeep : ∀ s e s', I s → C s e → step s e = some s' → I s')
    (hbreak : ∀ s e s', I s → ¬ C s e → step s e = some s' → ¬ P s') {s : σ} (hs : I s)
    (es : List ε) : Always step P s es ↔ Along step C s es :=
  always_iff_along_of_mem step hIP (fun e _ s s' => hkeep s e s') (fun e _ s s' => hbreak s e s') hs

/-! ## Simulation -/

section Simulation

variable {σ' ε' : Type*} (step' : σ' → ε' → Option σ') (emit : σ → ε → Option ε')

/-- What the steps of a run amount to on another level: `emit s e` is the event that the step from
`s` with `e` completes there, if it completes one. -/
def emitted : σ → List ε → List ε'
  | _, [] => []
  | s, e :: es =>
      (emit s e).toList ++ ((step s e).elim [] fun s' => emitted s' es)

@[simp] theorem emitted_nil (s : σ) : emitted step emit s [] = [] := rfl

theorem emitted_cons {s s' : σ} {e : ε} (h : step s e = some s') (es : List ε) :
    emitted step emit s (e :: es) = (emit s e).toList ++ emitted step emit s' es := by
  rw [emitted, h, Option.elim_some]

/-- The first steps of a run lead to where the others start. -/
theorem run_append (s : σ) (es es' : List ε) :
    run step s (es ++ es') = (run step s es).bind fun t => run step t es' := by
  induction es generalizing s with
  | nil => rfl
  | cons e es ih =>
      rw [List.cons_append, run_cons, run_cons, Option.bind_assoc]
      exact congrArg _ (funext fun t => ih t)

/-- **Invariant rule with a history.** What every step keeps of the state and the events completed
so far holds after a run of the state and all events completed in it. -/
theorem run_history {I : σ → List ε' → Prop}
    (hstep : ∀ s h e s', I s h → step s e = some s' → I s' (h ++ (emit s e).toList))
    {s s' : σ} {h : List ε'} {es : List ε} (hs : I s h) (hrun : run step s es = some s') :
    I s' (h ++ emitted step emit s es) := by
  induction es generalizing s h with
  | nil =>
      rw [run_nil, Option.some.injEq] at hrun
      rw [emitted_nil, List.append_nil]
      exact hrun ▸ hs
  | cons e es ih =>
      rw [run_cons, Option.bind_eq_some_iff] at hrun
      obtain ⟨t, ht, hrun⟩ := hrun
      rw [emitted_cons step emit ht, ← List.append_assoc]
      exact ih (hstep s h e t hs ht) hrun

/-- **Simulation rule.** If every step keeps the relation to the state on the other level, after the
event it completes there, then so does every run. -/
theorem run_simulates {R : σ → σ' → Prop}
    (hstep : ∀ s a e s', R s a → step s e = some s' →
      ∃ a', run step' a (emit s e).toList = some a' ∧ R s' a')
    {s s' : σ} {a : σ'} {es : List ε} (hs : R s a) (hrun : run step s es = some s') :
    ∃ a', run step' a (emitted step emit s es) = some a' ∧ R s' a' := by
  induction es generalizing s a with
  | nil =>
      rw [run_nil, Option.some.injEq] at hrun
      exact ⟨a, rfl, hrun ▸ hs⟩
  | cons e es ih =>
      rw [run_cons, Option.bind_eq_some_iff] at hrun
      obtain ⟨t, ht, hrun⟩ := hrun
      obtain ⟨b, hb, hR⟩ := hstep s a e t hs ht
      obtain ⟨a', ha', hR'⟩ := ih hR hrun
      refine ⟨a', ?_, hR'⟩
      rw [emitted_cons step emit ht, run_append, hb, Option.bind_some, ha']

end Simulation

end AsabruEngine.Runs

/-! ## What a history says -/

namespace AsabruEngine.History

variable {ε β : Type*}

/-- The latest value given. -/
def latest (f : ε → Option β) (es : List ε) : Option β := (es.filterMap f).getLast?

@[simp] theorem latest_nil (f : ε → Option β) : latest f [] = none := rfl

/-- One more event overwrites the value if it gives one. -/
@[simp] theorem latest_concat (f : ε → Option β) (es : List ε) (e : ε) :
    latest f (es ++ [e]) = (f e).or (latest f es) := by
  unfold latest
  rw [List.filterMap_append, List.getLast?_append]
  cases he : f e with
  | none => simp [he]
  | some b => simp [he]

/-- What came before the latest event of a kind. -/
def beforeLatest (p : ε → Bool) : List ε → Option (List ε)
  | [] => none
  | e :: es =>
      match beforeLatest p es with
      | some before => some (e :: before)
      | none => if p e then some [] else none

@[simp] theorem beforeLatest_nil (p : ε → Bool) : beforeLatest p [] = none := rfl

/-- One more event is the latest of its kind if it is of the kind. -/
@[simp] theorem beforeLatest_concat (p : ε → Bool) (es : List ε) (e : ε) :
    beforeLatest p (es ++ [e]) = if p e then some es else beforeLatest p es := by
  induction es with
  | nil => simp [beforeLatest]
  | cons e' es ih =>
      rw [List.cons_append, beforeLatest, ih, beforeLatest]
      cases p e with
      | true => rfl
      | false => rfl

end AsabruEngine.History
