import Netstack2.Lib.Table

/-!
# Linked lists in a table, and handles

A free list is kept in an array: the entry of each free slot is the index of the next one,
and an index past the slots ends the list.

* `Linked` says which slots such a list goes through. A slot that is not in it can be put in
  front of it (`Linked.push`).
* `Names` says that a list names the entries of a table that have some value, each once.
  An update moves an entry from one such list to another (`Names.add`, `Names.remove`).
* A handle refers to a slot, or is empty. Which handle is which does not matter for what
  the handles refer to (`List.reduceOption`), as long as it is the same up to a permutation.
-/

namespace Netstack2

open List

/-! ## Links -/

section Linked

variable {next next' : ℕ → ℕ} {stop head i k : ℕ} {l : List ℕ}

/-- The links lead from `head` through the slots `l` to the end `stop`. -/
inductive Linked (next : ℕ → ℕ) (stop : ℕ) : ℕ → List ℕ → Prop
  | nil : Linked next stop stop []
  | cons {i : ℕ} {l : List ℕ} (h : Linked next stop (next i) l) : Linked next stop i (i :: l)

theorem Linked.eq_stop (h : Linked next stop head []) : head = stop := by
  cases h
  rfl

theorem Linked.uncons (h : Linked next stop head (i :: l)) :
    head = i ∧ Linked next stop (next i) l := by
  cases h with
  | cons h => exact ⟨rfl, h⟩

/-- Only the links of the slots in the list matter. -/
theorem Linked.congr (h : Linked next stop head l) (hnext : ∀ i ∈ l, next' i = next i) :
    Linked next' stop head l := by
  induction h with
  | nil => exact .nil
  | @cons i l h ih =>
    refine .cons ?_
    rw [hnext i mem_cons_self]
    exact ih fun j hj => hnext j (mem_cons_of_mem i hj)

theorem Linked.push (h : Linked next stop head l) (hi : i ∉ l) (hself : next' i = head)
    (hnext : ∀ j ≠ i, next' j = next j) : Linked next' stop i (i :: l) := by
  refine .cons ?_
  rw [hself]
  exact h.congr fun j hj => hnext j fun heq => hi (heq ▸ hj)

/-- The slots `i`, `i + 1` and so on up to the end, each linked to the next one. -/
theorem linked_range' (hnext : ∀ j, i ≤ j → j < i + k → next j = j + 1) :
    Linked next (i + k) i (range' i k) := by
  induction k generalizing i with
  | zero => exact .nil
  | succ k ih =>
    rw [range'_succ]
    refine .cons ?_
    rw [hnext i (le_refl i) (by omega), show i + (k + 1) = i + 1 + k by omega]
    exact ih fun j hle hlt => hnext j (by omega) (by omega)

end Linked

/-! ## Entries by their value -/

section Names

variable {α : Type} {table : List α} {a b c : α} {i : ℕ} {l l' : List ℕ}

/-- `l` names the entries of the table that are `c`, each once. -/
structure Names (table : List α) (c : α) (l : List ℕ) : Prop where
  nodup : l.Nodup
  mem : ∀ i, i ∈ l ↔ table[i]? = some c

theorem Names.perm (h : Names table c l) (hl : l ~ l') : Names table c l' :=
  ⟨hl.nodup_iff.1 h.nodup, fun i => hl.mem_iff.symm.trans (h.mem i)⟩

theorem getElem?_set_eq_some (hi : table[i]? = some a) (j : ℕ) :
    (table.set i b)[j]? = some c ↔ if j = i then b = c else table[j]? = some c := by
  obtain ⟨hlt, -⟩ := List.getElem?_eq_some_iff.1 hi
  by_cases hj : j = i
  · subst hj
    rw [getElem?_set_self hlt, if_pos rfl, Option.some_inj]
  · rw [getElem?_set_ne (Ne.symm hj), if_neg hj]

/-- An update of an entry that was not `c`, and is not. -/
theorem Names.set (h : Names table c l) (hi : table[i]? = some a) (ha : a ≠ c) (hb : b ≠ c) :
    Names (table.set i b) c l := by
  refine ⟨h.nodup, fun j => ?_⟩
  rw [getElem?_set_eq_some hi, h.mem]
  split
  case isTrue hj =>
    subst hj
    simp [hi, ha, hb]
  case isFalse => rfl

theorem Names.add (h : Names table c l) (hi : table[i]? = some a) (ha : a ≠ c) :
    Names (table.set i c) c (i :: l) := by
  have hnot : i ∉ l := by
    rw [h.mem, hi, Option.some_inj]
    exact ha
  refine ⟨nodup_cons.2 ⟨hnot, h.nodup⟩, fun j => ?_⟩
  rw [getElem?_set_eq_some hi, mem_cons, h.mem]
  split
  case isTrue hj | isFalse hj => simp [hj]

theorem Names.remove (h : Names table c (i :: l)) (hb : b ≠ c) : Names (table.set i b) c l := by
  obtain ⟨hnot, hnodup⟩ := nodup_cons.1 h.nodup
  refine ⟨hnodup, fun j => ?_⟩
  rw [getElem?_set_eq_some ((h.mem i).1 mem_cons_self), ← h.mem, mem_cons]
  split
  case isTrue hj => simp [hj, hb, hnot]
  case isFalse hj => simp [hj]

/-- How a count changes with an entry. -/
theorem countP_set_add (hi : table[i]? = some a) (b : α) (p : α → Bool) :
    (table.set i b).countP p + (if p a then 1 else 0) = table.countP p + if p b then 1 else 0 := by
  have hcount := (perm_set hi b).countP_eq p
  rwa [countP_cons, countP_cons] at hcount

end Names

/-! ## Handles -/

section Handles

variable {α : Type} {l : List (Option α)} {a : α} {x : Option α} {i j : ℕ}

/-- A handle is emptied. -/
theorem reduceOption_release (hi : l[i]? = some (some a)) :
    a :: (l.set i none).reduceOption ~ l.reduceOption := by
  have hperm := (perm_set hi none).filterMap id
  simpa [reduceOption] using hperm

/-- A handle moves to an empty one. -/
theorem perm_transfer (hij : i ≠ j) (hi : l[i]? = some none) (hj : l[j]? = some x) :
    (l.set i x).set j none ~ l := by
  have hj' : (l.set i x)[j]? = some x := by rw [getElem?_set_ne hij, hj]
  have hperm := (perm_set hj' none).trans (perm_set hi x)
  exact (perm_cons x).1 hperm

end Handles

end Netstack2
