import Mathlib.Data.Set.Card
import Mathlib.Logic.Function.Basic

/-! # Counting a population

A population is a partial map from names to objects. `holders` are the names whose object has a
property, `Counts` says that a number is how many there are, and the rules below tell it when an
object comes or goes.

`mem_holders_update` follows the holders through one change of the population. `Counts.fill` and
`Counts.clear` are the two rules that proofs use: the number goes up by one, or down by one, exactly
if the object that comes or goes has the property. -/

namespace AsabruEngine

variable {π α : Type*}

/-- The names whose object has the property. -/
def holders (objects : π → Option α) (P : α → Prop) : Set π :=
  {p | ∃ o, objects p = some o ∧ P o}

/-- The number is the size of the set. -/
def Counts (S : Set π) (n : ℤ) : Prop := S.Finite ∧ (S.ncard : ℤ) = n

theorem counts_holders_none (P : α → Prop) : Counts (holders (fun _ : π => none) P) 0 := by
  have hempty : holders (fun _ : π => none) P = ∅ := by
    ext p
    simp [holders]
  rw [Counts, hempty]
  simp

/-- A set has one size. -/
theorem Counts.unique {S : Set π} {m n : ℤ} (hm : Counts S m) (hn : Counts S n) : m = n :=
  hm.2.symm.trans hn.2

/-- The number is zero exactly if there is none. -/
theorem Counts.eq_zero_iff {S : Set π} {n : ℤ} (h : Counts S n) : n = 0 ↔ S = ∅ := by
  rw [← h.2, Int.natCast_eq_zero]
  exact Set.ncard_eq_zero h.1

/-- A number other than zero counts somebody. -/
theorem Counts.nonempty {S : Set π} {n : ℤ} (h : Counts S n) (hn : n ≠ 0) : S.Nonempty := by
  rw [Set.nonempty_iff_ne_empty]
  intro hempty
  exact hn (h.eq_zero_iff.mpr hempty)

variable [DecidableEq π]

/-- Which object a name has after a change at one name. -/
theorem update_eq_some_iff {objects : π → Option α} {p q : π} {v : Option α} {o : α} :
    Function.update objects p v q = some o ↔
      (q = p ∧ v = some o) ∨ (q ≠ p ∧ objects q = some o) := by
  by_cases hq : q = p
  · subst hq
    simp
  · simp [hq]

/-- Who is a holder after a change at one name. -/
theorem mem_holders_update {objects : π → Option α} {P : α → Prop} {p q : π} {v : Option α} :
    q ∈ holders (Function.update objects p v) P ↔
      (q = p ∧ ∃ o, v = some o ∧ P o) ∨ (q ≠ p ∧ q ∈ holders objects P) := by
  by_cases hq : q = p
  · subst hq
    simp [holders]
  · simp [holders, hq]

/-- Whether there is a holder after a change at one name. -/
theorem nonempty_holders_update {objects : π → Option α} {P : α → Prop} {p : π} {v : Option α} :
    (holders (Function.update objects p v) P).Nonempty ↔
      (∃ o, v = some o ∧ P o) ∨ ∃ q, q ≠ p ∧ q ∈ holders objects P := by
  constructor
  · rintro ⟨q, hq⟩
    rcases mem_holders_update.mp hq with ⟨-, hv⟩ | hq
    · exact Or.inl hv
    · exact Or.inr ⟨q, hq⟩
  · rintro (hv | ⟨q, hq⟩)
    · exact ⟨p, mem_holders_update.mpr (Or.inl ⟨rfl, hv⟩)⟩
    · exact ⟨q, mem_holders_update.mpr (Or.inr hq)⟩

/-- Without the object at one name. -/
theorem holders_update_none (objects : π → Option α) (P : α → Prop) (p : π) :
    holders (Function.update objects p none) P = holders objects P \ {p} := by
  ext q
  rw [mem_holders_update]
  simp [and_comm]

/-- With an object that has the property at one name. -/
theorem holders_update_some (objects : π → Option α) {P : α → Prop} (p : π) {o : α} (hP : P o) :
    holders (Function.update objects p (some o)) P = insert p (holders objects P) := by
  ext q
  rw [mem_holders_update, Set.mem_insert_iff]
  by_cases hq : q = p
  · simp [hq, hP]
  · simp [hq]

/-- An object without the property changes nothing. -/
theorem holders_update_of_not {objects : π → Option α} {P : α → Prop} {p : π} {v : Option α}
    (hp : p ∉ holders objects P) (hv : ∀ o, v = some o → ¬ P o) :
    holders (Function.update objects p v) P = holders objects P := by
  ext q
  rw [mem_holders_update]
  constructor
  · rintro (⟨-, o, hvo, hPo⟩ | ⟨-, hq⟩)
    · exact absurd hPo (hv o hvo)
    · exact hq
  · intro hq
    refine Or.inr ⟨?_, hq⟩
    rintro rfl
    exact hp hq

/-- **An object comes**: it counts if it has the property. -/
theorem Counts.fill {objects : π → Option α} {P : α → Prop} [DecidablePred P] {p : π}
    (hp : objects p = none) {n : ℤ} (h : Counts (holders objects P) n) (o : α) :
    Counts (holders (Function.update objects p (some o)) P) (n + if P o then 1 else 0) := by
  have hnot : p ∉ holders objects P := by
    rintro ⟨o', ho', -⟩
    rw [hp] at ho'
    cases ho'
  by_cases hP : P o
  · rw [holders_update_some objects p hP, if_pos hP, ← h.2]
    refine ⟨h.1.insert p, ?_⟩
    rw [Set.ncard_insert_of_notMem hnot h.1, Nat.cast_add, Nat.cast_one]
  · rw [holders_update_of_not hnot (by simpa using hP), if_neg hP, add_zero]
    exact h

/-- **An object goes**: it counted if it had the property. -/
theorem Counts.clear {objects : π → Option α} {P : α → Prop} [DecidablePred P] {p : π} {o : α}
    (hp : objects p = some o) {n : ℤ} (h : Counts (holders objects P) n) :
    Counts (holders (Function.update objects p none) P) (n - if P o then 1 else 0) := by
  by_cases hP : P o
  · have hmem : p ∈ holders objects P := ⟨o, hp, hP⟩
    rw [holders_update_none, if_pos hP, ← h.2]
    refine ⟨h.1.sdiff, ?_⟩
    have hcard := Set.ncard_sdiff_singleton_add_one hmem h.1
    omega
  · have hnot : p ∉ holders objects P := by
      rintro ⟨o', ho', hPo'⟩
      rw [hp, Option.some.injEq] at ho'
      exact hP (ho' ▸ hPo')
    rw [holders_update_of_not hnot (by simp), if_neg hP, sub_zero]
    exact h

end AsabruEngine
