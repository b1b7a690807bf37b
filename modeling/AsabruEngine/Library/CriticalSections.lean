import Mathlib.Logic.Function.Basic
import Mathlib.Order.Basic

/-! # Critical sections

Objects `ι`, each behind a mutex of its own, and threads `τ` working on them. A thread locks an
object, takes turns on it and unlocks it when its code has come to the end; the threads'
interleavings are the lists of moves. Where the code of every call computes an atomic operation, an
object that is not locked is as the completed operations have left it, whatever the interleaving.

* `Code` is the code of a call, one `Turn` after the other on the locked object; `Computes` says
  that it computes an atomic operation, by an invariant `between` over the turns.
* `Sections.step` makes one `Move` of one thread, and `step_lock`, `step_turn` and `step_unlock`
  tell what each kind of move does.
* `Owned` says that the thread inside and the mutex agree, and `Guarded` that every object and every
  section under way are as they should be. `Guarded.lock`, `Guarded.turn` and `Guarded.unlock` keep
  it, and `Guarded.result_eq` reads off that a section returns what the atomic operation returns. -/

namespace AsabruEngine.CriticalSections

variable {ι τ C S L R : Type*}

/-- One turn of a section: it goes on, or it has come to its end with a result. -/
inductive Turn (S L R : Type*)
  | more (position : L) (object : S)
  | finished (result : R)

/-- The code between lock and unlock: the calls possible on an object, where a call starts, and what
one turn does. -/
structure Code (C S L R : Type*) where
  admits : C → S → Bool
  enter : C → S → L
  turn : L → S → Turn S L R

/-- The code of every call computes an atomic operation: `between c s₀ l s` holds at every position
`l` and object `s` that the code of `c` comes to from `s₀`, and at the end it gives the result. -/
structure Computes (code : Code C S L R) (between : C → S → L → S → Prop)
    (atomic : C → S → R × S) : Prop where
  enter : ∀ {c s}, code.admits c s → between c s (code.enter c s) s
  more : ∀ {c s₀ l s l' s'}, between c s₀ l s → code.turn l s = .more l' s' → between c s₀ l' s'
  finished : ∀ {c s₀ l s r}, between c s₀ l s → code.turn l s = .finished r → atomic c s₀ = (r, s)

/-- The section a thread is in: the object, the call, and how far its code has come. -/
@[ext] structure Inside (ι C L : Type*) where
  object : ι
  call : C
  position : L

/-- The objects, their mutexes, and the sections the threads are in. -/
@[ext] structure Sections (ι τ C S L : Type*) where
  objects : ι → S
  owner : ι → Option τ
  inside : τ → Option (Inside ι C L)

/-- A move of a thread. -/
inductive Move (ι τ C : Type*)
  | lock (thread : τ) (object : ι) (call : C)
  | turn (thread : τ)
  | unlock (thread : τ)

namespace Sections

/-- All mutexes are free. -/
def start (objects : ι → S) : Sections ι τ C S L := ⟨objects, fun _ => none, fun _ => none⟩

variable [DecidableEq ι] [DecidableEq τ]

/-- One move. A mutex that is taken is not locked, and only the thread that has it unlocks it. -/
def step (code : Code C S L R) (z : Sections ι τ C S L) : Move ι τ C → Option (Sections ι τ C S L)
  | .lock t i c =>
      if z.owner i = none ∧ z.inside t = none ∧ code.admits c (z.objects i) then
        some ⟨z.objects, Function.update z.owner i (some t),
          Function.update z.inside t (some ⟨i, c, code.enter c (z.objects i)⟩)⟩
      else none
  | .turn t =>
      (z.inside t).bind fun here =>
        match code.turn here.position (z.objects here.object) with
        | .more l s =>
            some ⟨Function.update z.objects here.object s, z.owner,
              Function.update z.inside t (some ⟨here.object, here.call, l⟩)⟩
        | .finished _ => none
  | .unlock t =>
      (z.inside t).bind fun here =>
        match code.turn here.position (z.objects here.object) with
        | .more _ _ => none
        | .finished _ =>
            some ⟨z.objects, Function.update z.owner here.object none,
              Function.update z.inside t none⟩

/-- The result that the section of a thread has come to, if it is at its end. -/
def result (code : Code C S L R) (z : Sections ι τ C S L) (t : τ) : Option R :=
  (z.inside t).bind fun here =>
    match code.turn here.position (z.objects here.object) with
    | .more _ _ => none
    | .finished r => some r

/-! ## What one move does -/

variable {code : Code C S L R} {z z' : Sections ι τ C S L} {t : τ}

theorem step_lock {i : ι} {c : C} :
    z.step code (.lock t i c) = some z' ↔
      z.owner i = none ∧ z.inside t = none ∧ code.admits c (z.objects i) ∧
        z' = ⟨z.objects, Function.update z.owner i (some t),
          Function.update z.inside t (some ⟨i, c, code.enter c (z.objects i)⟩)⟩ := by
  simp only [step]
  split
  · rename_i h
    rw [Option.some.injEq]
    exact ⟨fun heq => ⟨h.1, h.2.1, h.2.2, heq.symm⟩, fun heq => heq.2.2.2.symm⟩
  · rename_i h
    constructor
    · intro heq
      cases heq
    · exact fun heq => absurd ⟨heq.1, heq.2.1, heq.2.2.1⟩ h

theorem step_turn :
    z.step code (.turn t) = some z' ↔
      ∃ here l s, z.inside t = some here ∧
        code.turn here.position (z.objects here.object) = .more l s ∧
        z' = ⟨Function.update z.objects here.object s, z.owner,
          Function.update z.inside t (some ⟨here.object, here.call, l⟩)⟩ := by
  simp only [step]
  rw [Option.bind_eq_some_iff]
  constructor
  · rintro ⟨here, hinside, hstep⟩
    split at hstep
    · rename_i l s hturn
      exact ⟨here, l, s, hinside, hturn, (Option.some.inj hstep).symm⟩
    · cases hstep
  · rintro ⟨here, l, s, hinside, hturn, rfl⟩
    refine ⟨here, hinside, ?_⟩
    rw [hturn]

theorem step_unlock :
    z.step code (.unlock t) = some z' ↔
      ∃ here r, z.inside t = some here ∧
        code.turn here.position (z.objects here.object) = .finished r ∧
        z' = ⟨z.objects, Function.update z.owner here.object none,
          Function.update z.inside t none⟩ := by
  simp only [step]
  rw [Option.bind_eq_some_iff]
  constructor
  · rintro ⟨here, hinside, hstep⟩
    split at hstep
    · cases hstep
    · rename_i r hturn
      exact ⟨here, r, hinside, hturn, (Option.some.inj hstep).symm⟩
  · rintro ⟨here, r, hinside, hturn, rfl⟩
    refine ⟨here, hinside, ?_⟩
    rw [hturn]

omit [DecidableEq ι] [DecidableEq τ] in
theorem result_eq_some_iff {r : R} :
    z.result code t = some r ↔
      ∃ here, z.inside t = some here ∧
        code.turn here.position (z.objects here.object) = .finished r := by
  rw [result, Option.bind_eq_some_iff]
  refine exists_congr fun here => and_congr_right fun _ => ?_
  split
  · rename_i hturn
    simp [hturn]
  · rename_i hturn
    simp [hturn]

/-! ## The invariant -/

/-- The owner of a mutex is the thread inside its object. -/
def Owned (z : Sections ι τ C S L) : Prop :=
  ∀ i t, z.owner i = some t ↔ ∃ here, z.inside t = some here ∧ here.object = i

/-- The mutexes guard the objects: an object whose mutex is free is as the completed operations have
left it, and one that is locked is on the way from there to what the call inside makes of it. -/
structure Guarded (code : Code C S L R) (between : C → S → L → S → Prop) (z : Sections ι τ C S L)
    (before : ι → S) : Prop where
  owned : z.Owned
  free : ∀ i, z.owner i = none → z.objects i = before i
  admitted : ∀ t here, z.inside t = some here → code.admits here.call (before here.object)
  held : ∀ t here, z.inside t = some here →
    between here.call (before here.object) here.position (z.objects here.object)

variable {between : C → S → L → S → Prop} {atomic : C → S → R × S} {before : ι → S}

omit [DecidableEq ι] [DecidableEq τ] in
theorem guarded_start (objects : ι → S) :
    (start objects : Sections ι τ C S L).Guarded code between objects := by
  refine ⟨fun i t => ?_, fun _ _ => rfl, ?_, ?_⟩
  · simp [start]
  · intro t here hinside
    cases hinside
  · intro t here hinside
    cases hinside

omit [DecidableEq ι] in
/-- What holds of the sections of the other threads and of a new one holds of all. -/
theorem forall_inside_update {P : τ → Inside ι C L → Prop} {inside : τ → Option (Inside ι C L)}
    {now : Option (Inside ι C L)} (hothers : ∀ u here, u ≠ t → inside u = some here → P u here)
    (hnow : ∀ here, now = some here → P t here) (u : τ) (here : Inside ι C L)
    (hu : Function.update inside t now u = some here) : P u here := by
  rw [Function.update_apply] at hu
  split at hu
  · rename_i hut
    subst hut
    exact hnow here hu
  · rename_i hut
    exact hothers u here hut hu

omit [DecidableEq ι] [DecidableEq τ] in
/-- Two threads are never inside one object. -/
theorem Owned.object_ne (h : z.Owned) {u : τ} {here here' : Inside ι C L}
    (ht : z.inside t = some here) (hu : z.inside u = some here') (hut : u ≠ t) :
    here'.object ≠ here.object := by
  intro heq
  have howner := (h here.object t).mpr ⟨here, ht, rfl⟩
  rw [(h here.object u).mpr ⟨here', hu, heq⟩, Option.some.injEq] at howner
  exact hut howner

omit [DecidableEq ι] [DecidableEq τ] in
/-- Nobody is inside an object whose mutex is free. -/
theorem Owned.object_ne_of_free (h : z.Owned) {i : ι} (hi : z.owner i = none) {u : τ}
    {here : Inside ι C L} (hu : z.inside u = some here) : here.object ≠ i := by
  intro heq
  rw [(h i u).mpr ⟨here, hu, heq⟩] at hi
  cases hi

/-- A thread outside becomes the owner of a free mutex. -/
theorem Owned.enter (h : z.Owned) (here : Inside ι C L) (howner : z.owner here.object = none)
    (houtside : z.inside t = none) (objects : ι → S) :
    Owned ⟨objects, Function.update z.owner here.object (some t),
      Function.update z.inside t (some here)⟩ := by
  intro j u
  dsimp only
  rw [Function.update_apply, Function.update_apply]
  by_cases hj : j = here.object
  · by_cases hut : u = t
    · simp [hj, hut]
    · rw [if_pos hj, if_neg hut, Option.some.injEq]
      refine iff_of_false (Ne.symm hut) ?_
      rintro ⟨here', hu, heq⟩
      exact h.object_ne_of_free howner hu (heq.trans hj)
  · by_cases hut : u = t
    · rw [if_neg hj, if_pos hut, h, hut, houtside]
      simp [Ne.symm hj]
    · rw [if_neg hj, if_neg hut]
      exact h j u

/-- A thread inside frees the mutex it owns. -/
theorem Owned.leave (h : z.Owned) {here : Inside ι C L} (hinside : z.inside t = some here)
    (objects : ι → S) :
    Owned ⟨objects, Function.update z.owner here.object none, Function.update z.inside t none⟩ := by
  intro j u
  dsimp only
  rw [Function.update_apply, Function.update_apply]
  by_cases hut : u = t
  · rw [if_pos hut]
    refine iff_of_false ?_ (by simp)
    split
    · simp
    · rename_i hj
      rw [h, hut, hinside]
      simp [Ne.symm hj]
  · rw [if_neg hut]
    split
    · rename_i hj
      refine iff_of_false (by simp) ?_
      rintro ⟨here', hu, heq⟩
      exact h.object_ne hinside hu hut (heq.trans hj)
    · exact h j u

/-- **Locking** an object changes nothing but its owner. -/
theorem Guarded.lock (hcode : Computes code between atomic)
    (h : z.Guarded code between before) {i : ι} {c : C}
    (hstep : z.step code (.lock t i c) = some z') : z'.Guarded code between before := by
  obtain ⟨howner, houtside, hadmits, rfl⟩ := step_lock.mp hstep
  have hobject := h.free i howner
  refine ⟨h.owned.enter ⟨i, c, _⟩ howner houtside _, fun j hj => ?_,
    forall_inside_update (fun u here _ => h.admitted u here) ?_,
    forall_inside_update (fun u here _ => h.held u here) ?_⟩
  · dsimp only at hj
    refine h.free j ?_
    rw [Function.update_apply] at hj
    split at hj
    · cases hj
    · exact hj
  · rintro _ ⟨⟩
    rw [← hobject]
    exact hadmits
  · rintro _ ⟨⟩
    dsimp only
    rw [← hobject]
    exact hcode.enter hadmits

/-- **A turn** moves the object of the thread that takes it on to where its call leads. -/
theorem Guarded.turn (hcode : Computes code between atomic)
    (h : z.Guarded code between before) (hstep : z.step code (.turn t) = some z') :
    z'.Guarded code between before := by
  obtain ⟨here, l, s, hinside, hturn, rfl⟩ := step_turn.mp hstep
  refine ⟨fun j u => ?_, fun j hj => ?_,
    forall_inside_update (fun u here' _ => h.admitted u here') ?_,
    forall_inside_update (fun u here' hut hu => ?_) ?_⟩
  · rw [h.owned]
    by_cases hut : u = t
    · subst hut
      simp [hinside]
    · dsimp only
      rw [Function.update_of_ne hut]
  · dsimp only at hj ⊢
    rw [Function.update_of_ne (h.owned.object_ne_of_free hj hinside).symm, h.free j hj]
  · rintro _ ⟨⟩
    exact h.admitted t here hinside
  · dsimp only
    rw [Function.update_of_ne (h.owned.object_ne hinside hu hut)]
    exact h.held u here' hu
  · rintro _ ⟨⟩
    dsimp only
    rw [Function.update_self]
    exact hcode.more (h.held t here hinside) hturn

/-- **Unlocking** an object completes the call inside: the result is that of the atomic operation,
and the object is what that operation makes of it. -/
theorem Guarded.unlock (hcode : Computes code between atomic)
    (h : z.Guarded code between before) (hstep : z.step code (.unlock t) = some z')
    {here : Inside ι C L} (hinside : z.inside t = some here) :
    z'.Guarded code between
      (Function.update before here.object (atomic here.call (before here.object)).2) := by
  obtain ⟨here', r, hinside', hturn, rfl⟩ := step_unlock.mp hstep
  obtain rfl : here = here' := Option.some.inj (hinside.symm.trans hinside')
  have hatomic := hcode.finished (h.held t here hinside) hturn
  refine ⟨h.owned.leave hinside _, fun j hj => ?_,
    forall_inside_update (fun u here' hut hu => ?_) (by simp),
    forall_inside_update (fun u here' hut hu => ?_) (by simp)⟩
  · dsimp only at hj ⊢
    rw [Function.update_apply] at hj ⊢
    split at hj
    · rename_i heq
      rw [if_pos heq, heq, hatomic]
    · rename_i hne
      rw [if_neg hne, h.free j hj]
  · rw [Function.update_of_ne (h.owned.object_ne hinside hu hut)]
    exact h.admitted u here' hu
  · dsimp only
    rw [Function.update_of_ne (h.owned.object_ne hinside hu hut)]
    exact h.held u here' hu

omit [DecidableEq ι] [DecidableEq τ] in
/-- At the end of a section the result is that of the atomic operation. -/
theorem Guarded.result_eq (hcode : Computes code between atomic)
    (h : z.Guarded code between before) {here : Inside ι C L}
    (hinside : z.inside t = some here) {r : R}
    (hturn : code.turn here.position (z.objects here.object) = .finished r) :
    r = (atomic here.call (before here.object)).1 := by
  rw [hcode.finished (h.held t here hinside) hturn]

end Sections

end AsabruEngine.CriticalSections
