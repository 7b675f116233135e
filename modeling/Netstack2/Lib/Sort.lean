import Mathlib

/-!
# Insertion sort

The sort of an array in place, by a key: one element after the other is put to the
sorted ones before it, and those with a larger key are moved up.

* `perm_sortByKey`, `pairwise_sortByKey`: the result has the same elements, in order;
* `map_sortByKey`: the elements may be taken for others with the same keys;
* `sortByKey_eq`: elements with distinct keys have one order.
-/

namespace Netstack2

open List

variable {α β : Type*} (key : α → ℕ)

/-- Put `a` to the sorted elements: those at the end with a larger key are moved up. -/
def insertByKey (sorted : List α) (a : α) : List α :=
  sorted.rdropWhile (key · > key a) ++ a :: sorted.rtakeWhile (key · > key a)

def sortByKey (l : List α) : List α := l.foldl (insertByKey key) []

variable {key}

theorem perm_insertByKey (sorted : List α) (a : α) : insertByKey key sorted a ~ a :: sorted := by
  refine perm_middle.trans (Perm.cons a ?_)
  rw [rdropWhile_append_rtakeWhile]

theorem perm_foldl_insertByKey (l sorted : List α) :
    l.foldl (insertByKey key) sorted ~ sorted ++ l := by
  induction l generalizing sorted with
  | nil => rw [foldl_nil, append_nil]
  | cons a l ih =>
    calc (a :: l).foldl (insertByKey key) sorted
      _ ~ insertByKey key sorted a ++ l := ih _
      _ ~ a :: sorted ++ l := (perm_insertByKey sorted a).append_right l
      _ ~ sorted ++ a :: l := perm_middle.symm

theorem perm_sortByKey (l : List α) : sortByKey key l ~ l := perm_foldl_insertByKey l []

theorem pairwise_insertByKey {sorted : List α} (a : α)
    (h : sorted.Pairwise fun b c => key b ≤ key c) :
    (insertByKey key sorted a).Pairwise fun b c => key b ≤ key c := by
  have hsplit := h
  rw [← rdropWhile_append_rtakeWhile (p := (key · > key a)) (l := sorted), pairwise_append] at hsplit
  obtain ⟨hfront, hback, hacross⟩ := hsplit
  have hlarge : ∀ b ∈ sorted.rtakeWhile (key · > key a), key a ≤ key b := by
    intro b hb
    have hlt := mem_rtakeWhile_imp hb
    exact le_of_lt (of_decide_eq_true hlt)
  -- what stays in front is at most as large as the last one of it
  have hsmall : ∀ b ∈ sorted.rdropWhile (key · > key a), key b ≤ key a := by
    intro b hb
    have hne := ne_nil_of_mem hb
    have hlast := rdropWhile_last_not (key · > key a) sorted hne
    rw [decide_eq_true_iff, not_lt] at hlast
    rw [← dropLast_append_getLast hne] at hb hfront
    rcases mem_append.1 hb with hinit | hlastmem
    · exact le_trans ((pairwise_append.1 hfront).2.2 b hinit _ (mem_singleton_self _)) hlast
    · rwa [mem_singleton.1 hlastmem]
  refine pairwise_append.2 ⟨hfront, pairwise_cons.2 ⟨hlarge, hback⟩, fun b hb c hc => ?_⟩
  rcases mem_cons.1 hc with rfl | hc
  · exact hsmall b hb
  · exact hacross b hb c hc

theorem pairwise_sortByKey (l : List α) : (sortByKey key l).Pairwise fun b c => key b ≤ key c := by
  have hfold : ∀ sorted : List α, sorted.Pairwise (fun b c => key b ≤ key c) →
      (l.foldl (insertByKey key) sorted).Pairwise fun b c => key b ≤ key c := by
    induction l with
    | nil => exact fun _ h => h
    | cons a l ih => exact fun sorted h => ih _ (pairwise_insertByKey a h)
  exact hfold [] .nil

theorem map_insertByKey {f : α → β} {key' : β → ℕ} (h : ∀ a, key' (f a) = key a) (sorted : List α)
    (a : α) : insertByKey key' (sorted.map f) (f a) = (insertByKey key sorted a).map f := by
  simp only [insertByKey, rdropWhile, rtakeWhile, map_append, map_cons, ← map_reverse,
    dropWhile_map, takeWhile_map, Function.comp_def, h]

theorem map_sortByKey {f : α → β} {key' : β → ℕ} (h : ∀ a, key' (f a) = key a) (l : List α) :
    sortByKey key' (l.map f) = (sortByKey key l).map f := by
  have hfold : ∀ sorted : List α, (l.map f).foldl (insertByKey key') (sorted.map f) =
      (l.foldl (insertByKey key) sorted).map f := by
    induction l with
    | nil => exact fun _ => rfl
    | cons a l ih =>
      intro sorted
      rw [map_cons, foldl_cons, foldl_cons, map_insertByKey h, ih]
  exact hfold []

/-- Elements with distinct keys have one order. -/
theorem sortByKey_eq {l l' : List α} (hperm : l ~ l') (h : l'.Pairwise fun b c => key b < key c) :
    sortByKey key l = l' := by
  have hnodup : (l'.map key).Nodup := pairwise_map.2 (h.imp ne_of_lt)
  refine Perm.eq_of_pairwise (fun b c hb hc hbc hcb => ?_) (pairwise_sortByKey l)
    (h.imp le_of_lt) ((perm_sortByKey l).trans hperm)
  have hb' := ((perm_sortByKey l).trans hperm).subset hb
  exact inj_on_of_nodup_map hnodup hb' hc (le_antisymm hbc hcb)

end Netstack2
