import Mathlib.Data.Finset.Card
import Mathlib.Data.Finset.Insert
import Mathlib.Data.Set.Card

/-! # Lending from a fixed stock

A lender owns a fixed stock of objects, each of them either free or out. `Custody` says who has the
objects that are out: every one is held by exactly one holder, and nothing else is held. Objects are
taken, handed from one holder to another and dropped, and custody survives each of these.

* `Lending` is the stock and what is out of it, `lend` and `giveBack` move one object, and
  `card_free_add_card_out` is what always adds up.
* `Custody.take`, `Custody.hand` and `Custody.drop` are the rules for holders; `Custody.bijOn` puts
  what is out and the holders that have something into one-to-one correspondence.
* `Covered` is the half of custody that says that everything out is held by somebody;
  `Covered.hand_iff` says when handing over keeps it, where the receiver held something before. -/

namespace AsabruEngine

/-- A fixed stock with the part of it that is out. -/
structure Lending (α : Type*) where
  /-- Everything the lender owns. -/
  stock : Finset α
  /-- What is out. -/
  out : Finset α
  /-- Only the lender's own objects are out. -/
  out_subset : out ⊆ stock

namespace Lending

variable {α : Type*} [DecidableEq α]

/-- Nothing is out yet. -/
def full (stock : Finset α) : Lending α := ⟨stock, ∅, Finset.empty_subset _⟩

/-- What can be lent. -/
def free (l : Lending α) : Finset α := l.stock \ l.out

/-- A free object goes out. -/
def lend (l : Lending α) (c : α) (hc : c ∈ l.free) : Lending α :=
  ⟨l.stock, insert c l.out,
    Finset.insert_subset (Finset.mem_sdiff.mp hc).1 l.out_subset⟩

/-- An object comes back; one that is not out changes nothing. -/
def giveBack (l : Lending α) (c : α) : Lending α :=
  ⟨l.stock, l.out.erase c, (Finset.erase_subset _ _).trans l.out_subset⟩

@[simp] theorem out_lend (l : Lending α) (c : α) (hc : c ∈ l.free) :
    (l.lend c hc).out = insert c l.out := rfl

@[simp] theorem out_giveBack (l : Lending α) (c : α) : (l.giveBack c).out = l.out.erase c := rfl

@[simp] theorem free_full (stock : Finset α) : (full stock).free = stock := Finset.sdiff_empty

theorem not_mem_out_of_mem_free {l : Lending α} {c : α} (hc : c ∈ l.free) : c ∉ l.out :=
  (Finset.mem_sdiff.mp hc).2

/-- What goes out is no longer free. -/
theorem free_lend (l : Lending α) (c : α) (hc : c ∈ l.free) :
    (l.lend c hc).free = l.free.erase c :=
  Finset.sdiff_insert l.stock l.out c

/-- What comes back is free again. -/
theorem free_giveBack (l : Lending α) {c : α} (hc : c ∈ l.out) :
    (l.giveBack c).free = insert c l.free :=
  Finset.sdiff_erase (l.out_subset hc)

/-- What is not out cannot come back. -/
theorem giveBack_of_not_mem (l : Lending α) {c : α} (hc : c ∉ l.out) : l.giveBack c = l := by
  cases l
  simp only [giveBack, Lending.mk.injEq, true_and]
  exact Finset.erase_eq_of_notMem hc

/-- Free or out: nothing of the stock is lost. -/
theorem card_free_add_card_out (l : Lending α) : l.free.card + l.out.card = l.stock.card :=
  Finset.card_sdiff_add_card_eq_card l.out_subset

/-- Nothing is free exactly when as much is out as there is. -/
theorem free_eq_empty_iff (l : Lending α) : l.free = ∅ ↔ l.out.card = l.stock.card := by
  rw [← l.card_free_add_card_out, ← Finset.card_eq_zero]
  omega

/-- What can happen to a lending: nothing, an object goes out, or one comes back. -/
inductive Step : Lending α → Lending α → Prop
  | stay (l : Lending α) : Step l l
  | lend (l : Lending α) (c : α) (hc : c ∈ l.free) : Step l (l.lend c hc)
  | giveBack (l : Lending α) (c : α) : Step l (l.giveBack c)

/-- Whatever happens, the stock stays. -/
theorem Step.stock_eq {l l' : Lending α} (h : Step l l') : l'.stock = l.stock := by
  cases h with
  | stay => rfl
  | lend c hc => rfl
  | giveBack c => rfl

end Lending

/-! ## Who holds what -/

/-- Every object out is held by exactly one holder, and nothing else is held. -/
structure Custody {π α : Type*} (holds : π → Option α) (out : Finset α) : Prop where
  /-- No two holders have the same object. -/
  once : ∀ {p q c}, holds p = some c → holds q = some c → p = q
  /-- What is out is what is held. -/
  mem_iff : ∀ {c}, c ∈ out ↔ ∃ p, holds p = some c

namespace Custody

variable {π α : Type*} {holds : π → Option α} {out : Finset α}

/-- Nobody holds anything while nothing is out. -/
theorem empty : Custody (fun _ : π => (none : Option α)) ∅ :=
  ⟨fun h => (nomatch h), fun {c} => ⟨fun h => absurd h (Finset.notMem_empty c),
    fun ⟨_, h⟩ => nomatch h⟩⟩

/-- **Holding is a bijection** from the holders with an object onto what is out. -/
theorem bijOn (h : Custody holds out) :
    Set.BijOn holds {p | holds p ≠ none} (some '' (out : Set α)) := by
  refine ⟨fun p hp => ?_, fun p hp q _ heq => ?_, ?_⟩
  · obtain ⟨c, hc⟩ := Option.ne_none_iff_exists'.mp hp
    exact ⟨c, h.mem_iff.mpr ⟨p, hc⟩, hc.symm⟩
  · obtain ⟨c, hc⟩ := Option.ne_none_iff_exists'.mp hp
    exact h.once hc (heq ▸ hc)
  · rintro _ ⟨c, hc, rfl⟩
    obtain ⟨p, hp⟩ := h.mem_iff.mp hc
    exact ⟨p, by rw [Set.mem_ofPred_eq, hp]; exact Option.some_ne_none c, hp⟩

/-- There are as many holders as objects out. -/
theorem encard_holders (h : Custody holds out) : {p | holds p ≠ none}.encard = out.card := by
  rw [← h.bijOn.injOn.encard_image, h.bijOn.image_eq,
    (Option.some_injective α).encard_image, Set.encard_coe_eq_coe_finsetCard]

section Moves

variable [DecidableEq π]

/-- A holder without an object takes one that is not out. -/
theorem take [DecidableEq α] (h : Custody holds out) {p : π} {c : α} (hp : holds p = none)
    (hc : c ∉ out) :
    Custody (Function.update holds p (some c)) (insert c out) := by
  -- nobody but `p` holds `c`, as it was not out before
  have hother : ∀ q, holds q ≠ some c := fun q hq => hc (h.mem_iff.mpr ⟨q, hq⟩)
  refine ⟨fun {x y d} hx hy => ?_, fun {d} => ?_⟩
  · rw [Function.update_apply] at hx hy
    split at hx <;> split at hy
    · rename_i hxp hyp
      rw [hxp, hyp]
    · rw [Option.some.injEq] at hx
      exact absurd (hx ▸ hy) (hother y)
    · rw [Option.some.injEq] at hy
      exact absurd (hy ▸ hx) (hother x)
    · exact h.once hx hy
  · rw [Finset.mem_insert, h.mem_iff]
    constructor
    · rintro (rfl | ⟨q, hq⟩)
      · exact ⟨p, Function.update_self ..⟩
      · have hqp : q ≠ p := by
          rintro rfl
          rw [hp] at hq
          cases hq
        exact ⟨q, by rw [Function.update_of_ne hqp]; exact hq⟩
    · rintro ⟨q, hq⟩
      rw [Function.update_apply] at hq
      split at hq
      · rw [Option.some.injEq] at hq
        exact Or.inl hq.symm
      · exact Or.inr ⟨q, hq⟩

/-- A holder hands what it has, if anything, to one without an object. -/
theorem hand (h : Custody holds out) {src dst : π} (hne : src ≠ dst) (hdst : holds dst = none) :
    Custody (Function.update (Function.update holds src none) dst (holds src)) out := by
  -- after the hand-over `dst` stands where `src` stood, and every other holder where it was
  have hback : ∀ {q c},
      Function.update (Function.update holds src none) dst (holds src) q = some c →
        holds (if q = dst then src else q) = some c ∧ q ≠ src := by
    intro q c hq
    rw [Function.update_apply, Function.update_apply] at hq
    split at hq
    · rename_i hqd
      rw [if_pos hqd]
      exact ⟨hq, fun hqs => hne (hqs.symm.trans hqd)⟩
    · rename_i hqd
      split at hq
      · cases hq
      · rename_i hqs
        rw [if_neg hqd]
        exact ⟨hq, hqs⟩
  refine ⟨fun {x y d} hx hy => ?_, fun {d} => ?_⟩
  · obtain ⟨hx, hxs⟩ := hback hx
    obtain ⟨hy, hys⟩ := hback hy
    have heq := h.once hx hy
    split at heq <;> split at heq
    · rename_i hxd hyd
      rw [hxd, hyd]
    · exact absurd heq.symm hys
    · exact absurd heq hxs
    · exact heq
  · rw [h.mem_iff]
    constructor
    · rintro ⟨q, hq⟩
      by_cases hqs : q = src
      · exact ⟨dst, by rw [Function.update_self, ← hqs]; exact hq⟩
      · have hqd : q ≠ dst := by
          rintro rfl
          rw [hdst] at hq
          cases hq
        exact ⟨q, by rw [Function.update_of_ne hqd, Function.update_of_ne hqs]; exact hq⟩
    · rintro ⟨q, hq⟩
      exact ⟨_, (hback hq).1⟩

/-- A holder drops its object, which is then not out any more. -/
theorem drop [DecidableEq α] (h : Custody holds out) {p : π} {c : α} (hp : holds p = some c) :
    Custody (Function.update holds p none) (out.erase c) := by
  refine ⟨fun {x y d} hx hy => ?_, fun {d} => ?_⟩
  · rw [Function.update_apply] at hx hy
    split at hx
    · cases hx
    · split at hy
      · cases hy
      · exact h.once hx hy
  · rw [Finset.mem_erase, h.mem_iff]
    constructor
    · rintro ⟨hdc, q, hq⟩
      have hqp : q ≠ p := by
        rintro rfl
        rw [hp, Option.some.injEq] at hq
        exact hdc hq.symm
      exact ⟨q, by rw [Function.update_of_ne hqp]; exact hq⟩
    · rintro ⟨q, hq⟩
      rw [Function.update_apply] at hq
      split at hq
      · cases hq
      · rename_i hqp
        refine ⟨?_, q, hq⟩
        rintro rfl
        exact hqp (h.once hq hp)

end Moves

end Custody

/-! ## Somebody holds it -/

/-- Every object out is held by somebody, perhaps by several. -/
def Covered {π α : Type*} (holds : π → Option α) (out : Finset α) : Prop :=
  ∀ c ∈ out, ∃ p, holds p = some c

namespace Covered

variable {π α : Type*} {holds : π → Option α} {out : Finset α}

/-- Objects may come back without their holders noticing. -/
theorem mono {out' : Finset α} (h : Covered holds out) (hsub : out' ⊆ out) : Covered holds out' :=
  fun c hc => h c (hsub hc)

variable [DecidableEq π]

/-- A holder without an object takes one that goes out. -/
theorem take [DecidableEq α] (h : Covered holds out) {p : π} (hp : holds p = none) (c : α) :
    Covered (Function.update holds p (some c)) (insert c out) := by
  intro d hd
  rcases Finset.mem_insert.mp hd with rfl | hd
  · exact ⟨p, Function.update_self ..⟩
  · obtain ⟨q, hq⟩ := h d hd
    refine ⟨q, ?_⟩
    rw [Function.update_of_ne, hq]
    rintro rfl
    rw [hp] at hq
    cases hq

/-- A holder may lose what is not out or has another holder. -/
theorem lose (h : Covered holds out) {p : π} {out' : Finset α} (hsub : out' ⊆ out)
    (hother : ∀ c ∈ out', holds p = some c → ∃ q, q ≠ p ∧ holds q = some c) :
    Covered (Function.update holds p none) out' := by
  intro c hc
  obtain ⟨q, hq⟩ := h c (hsub hc)
  by_cases hqp : q = p
  · obtain ⟨r, hrp, hr⟩ := hother c hc (hqp ▸ hq)
    exact ⟨r, by rw [Function.update_of_ne hrp, hr]⟩
  · exact ⟨q, by rw [Function.update_of_ne hqp, hq]⟩

/-- A holder hands what it has to another one, which gives up what it had: everything stays covered
exactly as long as that is covered by a third one or was not out. -/
theorem hand_iff (h : Covered holds out) {src dst : π} (hne : src ≠ dst) :
    Covered (Function.update (Function.update holds src none) dst (holds src)) out ↔
      ∀ c ∈ out, holds dst = some c → ∃ q, q ≠ dst ∧ holds q = some c := by
  constructor
  · intro hafter c hc _
    obtain ⟨q, hq⟩ := hafter c hc
    rw [Function.update_apply, Function.update_apply] at hq
    split at hq
    · exact ⟨src, hne, hq⟩
    · rename_i hqd
      split at hq
      · cases hq
      · exact ⟨q, hqd, hq⟩
  · intro hother c hc
    -- somebody but the target had it, and it is with that holder or was handed over
    have hstays : ∃ q, q ≠ dst ∧ holds q = some c := by
      obtain ⟨q, hq⟩ := h c hc
      by_cases hqd : q = dst
      · exact hother c hc (hqd ▸ hq)
      · exact ⟨q, hqd, hq⟩
    obtain ⟨q, hqd, hq⟩ := hstays
    by_cases hqs : q = src
    · exact ⟨dst, by rw [Function.update_self, ← hqs, hq]⟩
    · exact ⟨q, by rw [Function.update_of_ne hqd, Function.update_of_ne hqs, hq]⟩

end Covered

end AsabruEngine
