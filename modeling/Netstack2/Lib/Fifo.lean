import Mathlib

/-!
# Lists in rings

A list kept in the slots of a ring, from a position on that wraps around (`Rings`).
Nothing is said of the other slots. An element is added in the slot after the last one,
if there is one (`Rings.push`), and taken from the first slot, which may be overwritten
afterwards (`Rings.pop`).
-/

namespace Netstack2

open List

variable {α : Type*} {slots : List α} {start : ℕ} {l : List α} {x y : α}

/-- The slots hold the elements of `l` in order, from `start` on. -/
structure Rings (slots : List α) (start : ℕ) (l : List α) : Prop where
  fits : l.length ≤ slots.length
  slot : ∀ {i a}, l[i]? = some a → slots[(start + i) % slots.length]? = some a

namespace Rings

theorem nil (slots : List α) (start : ℕ) : Rings slots start [] := ⟨Nat.zero_le _, nofun⟩

/-- Only where a position is in the ring matters. -/
theorem congr {start' : ℕ} (h : Rings slots start l)
    (heq : start' % slots.length = start % slots.length) : Rings slots start' l where
  fits := h.fits
  slot {i a} hi := by
    have hmod : (start' + i) % slots.length = (start + i) % slots.length := Nat.ModEq.add_right i heq
    rw [hmod]
    exact h.slot hi

theorem head (h : Rings slots start (x :: l)) : slots[start % slots.length]? = some x :=
  h.slot (i := 0) rfl

/-- Positions less than a ring apart have their own slots. -/
theorem mod_ne {i j n : ℕ} (hij : i < j) (hj : j < i + n) : i % n ≠ j % n := by
  intro heq
  have hsub := (Nat.modEq_iff_dvd' (Nat.le_of_lt hij)).1 heq
  exact absurd (Nat.le_of_dvd (by omega) hsub) (by omega)

theorem push (h : Rings slots start l) (hroom : l.length < slots.length) :
    Rings (slots.set ((start + l.length) % slots.length) x) start (l ++ [x]) where
  fits := by
    rw [length_append, length_set]
    exact hroom
  slot {i a} hi := by
    rw [length_set]
    rcases Nat.lt_trichotomy i l.length with hlt | rfl | hgt
    · rw [getElem?_append_left hlt] at hi
      rw [getElem?_set_ne (Ne.symm (mod_ne (by omega) (by omega)))]
      exact h.slot hi
    · rw [getElem?_concat_length] at hi
      rw [getElem?_set_self (Nat.mod_lt _ (by omega)), hi]
    · rw [getElem?_eq_none (by simp; omega)] at hi
      cases hi

/-- The first element is taken, and its slot may be overwritten. -/
theorem pop (h : Rings slots start (x :: l)) (y : α) :
    Rings (slots.set (start % slots.length) y) (start + 1) l where
  fits := by
    rw [length_set]
    exact Nat.le_of_succ_le h.fits
  slot {i a} hi := by
    obtain ⟨hlt, -⟩ := List.getElem?_eq_some_iff.1 hi
    have hfits := h.fits
    rw [length_cons] at hfits
    rw [length_set, getElem?_set_ne (mod_ne (by omega) (by omega)), Nat.add_assoc, Nat.add_comm 1]
    exact h.slot hi

end Rings

end Netstack2
