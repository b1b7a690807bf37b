import Mathlib.Data.List.Infix
import Mathlib.Tactic.TypeStar

/-! # Finding the pieces of a stream

Two ways to tell where the pieces of a stream end.

* By a code of their own: a field has a kind, and `PrefixFree` says that no code word of a kind
  starts another one of that kind. `PrefixFree.flatMap_inj` is unique decoding: concatenations of
  fields whose kinds agree are decoded in one way only. `lengthPrefixed_inj` gives such a code for
  bodies that are sent behind their length.
* By a delimiter: `Delimited.cut d` cuts a sequence behind every `d`, so that a text becomes its
  lines, the last one perhaps without its end. Cutting loses nothing (`flatten_cut`), and what ends
  in a delimiter is cut independently of what follows (`cut_append_of_getLast`). -/

namespace AsabruEngine

/-! ## Prefix codes by kind -/

variable {φ κ β : Type*}

/-- No two fields of one kind can start the same stream. -/
def PrefixFree (kind : φ → κ) (code : φ → List β) : Prop :=
  ∀ f g x y, kind f = kind g → code f ++ x = code g ++ y → f = g

/-- **Unique decoding.** Two lists of fields with the same kinds that start the same stream are the
same list. -/
theorem PrefixFree.flatMap_inj {kind : φ → κ} {code : φ → List β} (h : PrefixFree kind code)
    {fs gs : List φ} {x y : List β} (hkind : fs.map kind = gs.map kind)
    (heq : fs.flatMap code ++ x = gs.flatMap code ++ y) : fs = gs := by
  induction fs generalizing gs with
  | nil =>
      cases gs with
      | nil => rfl
      | cons g gs => simp at hkind
  | cons f fs ih =>
      cases gs with
      | nil => simp at hkind
      | cons g gs =>
          rw [List.map_cons, List.map_cons, List.cons.injEq] at hkind
          rw [List.flatMap_cons, List.flatMap_cons, List.append_assoc, List.append_assoc] at heq
          -- the first fields agree, so their codes cancel and the rest is a shorter instance
          obtain rfl := h f g _ _ hkind.1 heq
          rw [ih hkind.2 (List.append_cancel_left heq)]

/-- The list form of unique decoding for prefixes. -/
theorem PrefixFree.eq_of_prefix {kind : φ → κ} {code : φ → List β} (h : PrefixFree kind code)
    {fs gs : List φ} (hkind : fs.map kind = gs.map kind)
    (hpre : fs.flatMap code <+: gs.flatMap code) : fs = gs := by
  obtain ⟨rest, hrest⟩ := hpre
  exact h.flatMap_inj (y := []) hkind (by rw [hrest, List.append_nil])

/-- A body sent after its length is self-delimiting when the lengths are. -/
theorem lengthPrefixed_inj {len : ℕ → List β}
    (hlen : ∀ m n x y, len m ++ x = len n ++ y → m = n ∧ x = y) {s t x y : List β}
    (heq : len s.length ++ s ++ x = len t.length ++ t ++ y) : s = t := by
  rw [List.append_assoc, List.append_assoc] at heq
  obtain ⟨hl, hrest⟩ := hlen _ _ _ _ heq
  exact (List.append_inj hrest hl).1

/-! ## Delimiters -/

namespace Delimited

variable {α : Type*} [DecidableEq α] (d : α)

/-- The pieces of a sequence, each with the delimiter that ends it. -/
def cut : List α → List (List α)
  | [] => []
  | a :: as =>
      if a = d then [a] :: cut as
      -- what is not a delimiter begins the next piece
      else (a :: (cut as).headD []) :: (cut as).tail

@[simp] theorem cut_nil : cut d [] = [] := rfl

@[simp] theorem cut_cons_self (as : List α) : cut d (d :: as) = [d] :: cut d as := by
  simp [cut]

theorem cut_cons_of_ne {a : α} (h : a ≠ d) (as : List α) :
    cut d (a :: as) = (a :: (cut d as).headD []) :: (cut d as).tail := by
  simp [cut, h]

/-- The pieces make up the sequence. -/
@[simp] theorem flatten_cut (as : List α) : (cut d as).flatten = as := by
  induction as with
  | nil => rfl
  | cons a as ih =>
      by_cases h : a = d
      · subst h
        simp [ih]
      · rw [cut_cons_of_ne d h]
        cases hcut : cut d as with
        | nil =>
            rw [hcut] at ih
            simp [← ih]
        | cons piece pieces =>
            rw [hcut] at ih
            simp [← ih]

/-- Only the empty sequence has no pieces. -/
@[simp] theorem cut_eq_nil_iff {as : List α} : cut d as = [] ↔ as = [] := by
  constructor
  · intro h
    rw [← flatten_cut d as, h, List.flatten_nil]
  · rintro rfl
    rfl

/-- The first piece goes to the first delimiter. -/
theorem cut_append_cons {as : List α} (h : d ∉ as) (bs : List α) :
    cut d (as ++ d :: bs) = (as ++ [d]) :: cut d bs := by
  induction as with
  | nil => simp
  | cons a as ih =>
      rw [List.mem_cons, not_or] at h
      rw [List.cons_append, cut_cons_of_ne d (Ne.symm h.1), ih h.2]
      rfl

/-- What ends in a delimiter is cut independently of what follows. -/
theorem cut_append_of_getLast {as : List α} (h : ∀ a ∈ as.getLast?, a = d) (bs : List α) :
    cut d (as ++ bs) = cut d as ++ cut d bs := by
  induction as with
  | nil => rfl
  | cons a as ih =>
      by_cases has : as = []
      · subst has
        obtain rfl : a = d := h a rfl
        simp
      · have hlast : ∀ b ∈ as.getLast?, b = d := by
          intro b hb
          refine h b ?_
          rw [List.getLast?_cons_of_ne_nil has]
          exact hb
        rw [List.cons_append]
        by_cases had : a = d
        · subst had
          simp [ih hlast]
        · rw [cut_cons_of_ne d had, cut_cons_of_ne d had, ih hlast]
          cases hcut : cut d as with
          | nil => exact absurd ((cut_eq_nil_iff d).mp hcut) has
          | cons piece pieces => rfl

/-- A sequence is one piece with its delimiter exactly if it has none before. -/
theorem cut_concat_eq_singleton_iff {as : List α} :
    cut d (as ++ [d]) = [as ++ [d]] ↔ d ∉ as := by
  constructor
  · intro h hmem
    obtain ⟨before, after, rfl, hbefore⟩ := List.eq_append_cons_of_mem hmem
    rw [List.append_assoc, List.cons_append, cut_append_cons d hbefore, List.cons.injEq,
      cut_eq_nil_iff] at h
    -- the rest would have no delimiter at its end
    simp at h
  · intro h
    exact cut_append_cons d h []

end Delimited

end AsabruEngine
