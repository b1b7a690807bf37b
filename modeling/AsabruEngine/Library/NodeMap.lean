import Mathlib.Data.Finmap

/-! # Maps whose elements travel as nodes

An associative container owns its elements in *nodes*. `extract` unlinks the node of a key and hands
it over; `insertNode` links a node into a map, or gives it back where the key is taken already, and
`transfer` does one after the other. A transfer loses nothing exactly because the two maps have no
key in common, which the lemmas here keep track of.

A map that is iterated is met in some order: `Iterates order m` says that `order` is one of its
orders, and `exists_iterates` that there is one. `transfer_of_lookup` is the transfer that succeeds.
`OwnKeyed` is for maps whose keys are the values themselves, and is kept by `OwnKeyed.erase` and
`OwnKeyed.insert`. -/

namespace AsabruEngine.NodeMap

/-- A map from keys to the objects they own. -/
abbrev Map (α β : Type*) := Finmap fun _ : α => β

/-- A node handle: empty, or a key with its object. -/
abbrev Node (α β : Type*) := Option (α × β)

variable {α β : Type*}

theorem card_keys (m : Map α β) : m.keys.card = m.entries.card := Multiset.card_map _ _

/-! ## Iteration -/

/-- `order` lists the elements of a map in some order, as iterating over an unordered map does. -/
def Iterates (order : List (Σ _ : α, β)) (m : Map α β) : Prop :=
  (order : Multiset (Σ _ : α, β)) = m.entries

/-- Every key of a map is met while iterating over it. -/
theorem Iterates.mem_keys {order : List (Σ _ : α, β)} {m : Map α β} (h : Iterates order m) {k : α} :
    k ∈ m.keys ↔ ∃ item ∈ order, item.1 = k := by
  rw [Finmap.mem_keys, Finmap.mem_def, ← h, Multiset.coe_keys, Multiset.mem_coe, List.mem_keys]
  constructor
  · rintro ⟨v, hv⟩
    exact ⟨⟨k, v⟩, hv, rfl⟩
  · rintro ⟨⟨k', v⟩, hv, rfl⟩
    exact ⟨v, hv⟩

/-- No key of a map is met twice. -/
theorem Iterates.nodup_keys {order : List (Σ _ : α, β)} {m : Map α β} (h : Iterates order m) :
    (order.map Sigma.fst).Nodup := by
  have hnodup := m.nodupKeys
  rw [← h] at hnodup
  exact Multiset.coe_nodupKeys.mp hnodup

/-- As much is met as there is in the map. -/
theorem Iterates.length_eq {order : List (Σ _ : α, β)} {m : Map α β} (h : Iterates order m) :
    order.length = m.entries.card := by
  rw [← h, Multiset.coe_card]

/-- Every map can be iterated over. -/
theorem exists_iterates (m : Map α β) : ∃ order, Iterates order m := Quot.exists_rep m.entries

/-- Nothing is met exactly in the empty map. -/
theorem Iterates.eq_nil_iff {order : List (Σ _ : α, β)} {m : Map α β} (h : Iterates order m) :
    order = [] ↔ m = ∅ := by
  constructor
  · intro hnil
    refine Finmap.ext ?_
    rw [← h, hnil]
    rfl
  · intro hempty
    rw [Iterates, hempty] at h
    exact Multiset.coe_eq_coe.mp h |>.eq_nil

variable [DecidableEq α]

instance [DecidableEq β] (order : List (Σ _ : α, β)) (m : Map α β) : Decidable (Iterates order m) :=
  inferInstanceAs (Decidable ((order : Multiset (Σ _ : α, β)) = m.entries))

/-- An entry of a map is what its key is looked up as. -/
theorem lookup_of_mem_entries {m : Map α β} {k : α} {v : β} (h : ⟨k, v⟩ ∈ m.entries) :
    m.lookup k = some v := by
  induction m using Finmap.induction_on with
  | H a =>
      rw [Finmap.lookup_toFinmap]
      exact AList.mem_lookup_iff.mpr (Multiset.mem_coe.mp h)

/-- What is met while iterating over a map is an element of it. -/
theorem Iterates.lookup {order : List (Σ _ : α, β)} {m : Map α β} (h : Iterates order m)
    {item : Σ _ : α, β} (hitem : item ∈ order) : m.lookup item.1 = some item.2 := by
  refine lookup_of_mem_entries ?_
  rw [← h, Multiset.mem_coe]
  exact hitem

/-! ## Nodes -/

/-- Unlink the node of a key: the node, empty where the key is absent, and the map without it. -/
def extract (m : Map α β) (k : α) : Node α β × Map α β :=
  ((Finmap.extract k m).1.map (Prod.mk k), (Finmap.extract k m).2)

/-- Link a node into a map. A node whose key is taken is given back, and an empty one is ignored. -/
def insertNode (m : Map α β) : Node α β → Map α β × Node α β
  | none => (m, none)
  | some (k, v) => if k ∈ m then (m, some (k, v)) else (m.insert k v, none)

/-- Move the node of a key from the map `src` to the map `dst`: both maps afterwards, and the node
that could not be linked. -/
def transfer (k : α) (src dst : Map α β) : Map α β × Map α β × Node α β :=
  ((extract src k).2, insertNode dst (extract src k).1)

theorem keys_insert (m : Map α β) (k : α) (v : β) : (m.insert k v).keys = insert k m.keys := by
  ext x
  rw [Finmap.mem_keys, Finmap.mem_insert, Finset.mem_insert, Finmap.mem_keys]

/-- Transferring the node of a key that `dst` lacks moves the element and rejects nothing. -/
theorem transfer_of_lookup {k : α} {v : β} {src dst : Map α β} (hsrc : src.lookup k = some v)
    (hdst : k ∉ dst) : transfer k src dst = (src.erase k, dst.insert k v, none) := by
  rw [transfer, extract, Finmap.extract_eq_lookup_erase, hsrc, Option.map_some, insertNode,
    if_neg hdst]

/-- A map that has linked a node lacked its key. -/
theorem insertNode_of_linked {m : Map α β} {k : α} {v : β}
    (h : (insertNode m (some (k, v))).2 = none) :
    k ∉ m ∧ (insertNode m (some (k, v))).1 = m.insert k v := by
  simp only [insertNode] at h ⊢
  split at h
  · cases h
  · rename_i hk
    rw [if_neg hk]
    exact ⟨hk, rfl⟩

/-- Linking a node takes no key away. -/
theorem mem_insertNode_of_mem {m : Map α β} (node : Node α β) {k : α} (hk : k ∈ m) :
    k ∈ (insertNode m node).1 := by
  cases node with
  | none => exact hk
  | some node =>
      obtain ⟨k', v⟩ := node
      simp only [insertNode]
      split
      · exact hk
      · exact Finmap.mem_insert.mpr (Or.inr hk)

/-- Unlinking the node of a key leaves the others. -/
theorem mem_extract_of_ne {m : Map α β} {k k' : α} (hne : k ≠ k') :
    k ∈ (extract m k').2 ↔ k ∈ m := by
  rw [extract, Finmap.extract_eq_lookup_erase]
  exact Finmap.mem_erase.trans (and_iff_right hne)

/-! ## Maps keyed by what they own -/

/-- Every key owns itself, as the address of an object does in a map of owning pointers. -/
def OwnKeyed (m : Map α α) : Prop := ∀ k v, m.lookup k = some v → v = k

theorem ownKeyed_empty : OwnKeyed (∅ : Map α α) := by
  intro k v h
  rw [Finmap.lookup_empty] at h
  cases h

theorem OwnKeyed.erase {m : Map α α} (h : OwnKeyed m) (k : α) : OwnKeyed (m.erase k) := by
  intro x v hx
  by_cases hxk : x = k
  · rw [hxk, Finmap.lookup_erase] at hx
    cases hx
  · rw [Finmap.lookup_erase_ne hxk] at hx
    exact h x v hx

theorem OwnKeyed.insert {m : Map α α} (h : OwnKeyed m) (k : α) : OwnKeyed (m.insert k k) := by
  intro x v hx
  by_cases hxk : x = k
  · rw [hxk, Finmap.lookup_insert, Option.some.injEq] at hx
    rw [hxk, ← hx]
  · rw [Finmap.lookup_insert_of_ne m hxk] at hx
    exact h x v hx

/-- A map that stays keyed by what it owns with a further element was so before, and the element is
owned under its own key. -/
theorem OwnKeyed.of_insert {m : Map α α} {k v : α} (h : OwnKeyed (m.insert k v)) (hk : k ∉ m) :
    OwnKeyed m ∧ v = k := by
  constructor
  · intro x w hx
    have hxk : x ≠ k := by
      rintro rfl
      exact hk (Finmap.mem_of_lookup_eq_some hx)
    refine h x w ?_
    rw [Finmap.lookup_insert_of_ne m hxk, hx]
  · exact h k v (Finmap.lookup_insert m)

/-- In a map keyed by what it owns, a key present is looked up as itself. -/
theorem OwnKeyed.lookup_of_mem {m : Map α α} (h : OwnKeyed m) {k : α} (hk : k ∈ m) :
    m.lookup k = some k := by
  obtain ⟨v, hv⟩ := Finmap.mem_iff.mp hk
  rw [hv, h k v hv]

/-- What is met while iterating over a map keyed by what it owns is met under its own key. -/
theorem OwnKeyed.eq_of_mem {m : Map α α} (h : OwnKeyed m) {order : List (Σ _ : α, α)}
    (horder : Iterates order m) {item : Σ _ : α, α} (hitem : item ∈ order) : item.2 = item.1 :=
  h _ _ (horder.lookup hitem)

end AsabruEngine.NodeMap
