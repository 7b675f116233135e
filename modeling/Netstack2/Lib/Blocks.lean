import Mathlib

/-!
# Blocks of a predicate

The maximal blocks of consecutive numbers, of a range, that have a property.

* `IsBlock`: the block, with what is on either side of it; two blocks with a number
  in common are one (`IsBlock.eq_of_mem`);
* `Blocks`: the list of all blocks from a number on, in order (`Blocks.mem_iff`,
  `Blocks.pairwise`); a loop that looks for the next block goes along it, and the
  sum of their widths is how many numbers have the property (`Blocks.sum_width`).
-/

namespace Netstack2

/-- `[x.1, x.2)` is a maximal block of numbers of `[lo, hi)` with the property `p`. -/
structure IsBlock (p : ℕ → Prop) (lo hi : ℕ) (x : ℕ × ℕ) : Prop where
  lo_le : lo ≤ x.1
  lt : x.1 < x.2
  le_hi : x.2 ≤ hi
  all : ∀ k, x.1 ≤ k → k < x.2 → p k
  left : x.1 = lo ∨ ¬p (x.1 - 1)
  right : x.2 = hi ∨ ¬p x.2

section

variable {p : ℕ → Prop} {lo hi : ℕ} {x y : ℕ × ℕ}

/-- No block starts within another. -/
theorem IsBlock.fst_le (hx : IsBlock p lo hi x) (hy : IsBlock p lo hi y) :
    y.1 ≤ x.1 ∨ x.2 ≤ y.1 := by
  by_contra hne
  -- otherwise `y.1 - 1` is in the block of `x`
  have hlt := hy.left.resolve_left fun he => by
    have := hx.lo_le
    omega
  exact hlt (hx.all _ (by omega) (by omega))

theorem IsBlock.eq_of_mem (hx : IsBlock p lo hi x) (hy : IsBlock p lo hi y) {k : ℕ}
    (hk : x.1 ≤ k ∧ k < x.2) (hk' : y.1 ≤ k ∧ k < y.2) : x = y := by
  have hfst : x.1 = y.1 := by
    have hle := hx.fst_le hy
    have hge := hy.fst_le hx
    omega
  have hsnd : ∀ {x y : ℕ × ℕ}, IsBlock p lo hi x → IsBlock p lo hi y → x.1 = y.1 →
      x.2 ≤ y.2 := by
    intro x y hx hy he
    by_contra hlt
    -- otherwise `y.2` is in the block of `x`
    have hle := hx.le_hi
    have hne := hy.right.resolve_left (by omega)
    have := hy.lt
    exact hne (hx.all _ (by omega) (by omega))
  exact Prod.ext hfst (le_antisymm (hsnd hx hy hfst) (hsnd hy hx hfst.symm))

theorem IsBlock.disjoint (hx : IsBlock p lo hi x) (hy : IsBlock p lo hi y) (hne : x ≠ y) :
    x.2 ≤ y.1 ∨ y.2 ≤ x.1 := by
  by_contra h
  have hltx := hx.lt
  have hlty := hy.lt
  exact hne (hx.eq_of_mem hy (k := max x.1 y.1) (by omega) (by omega))

end

/-- The blocks of `p` in `[lo, hi)`, in order. -/
inductive Blocks (p : ℕ → Prop) (hi : ℕ) : ℕ → List (ℕ × ℕ) → Prop
  | nil {lo} : (∀ k, lo ≤ k → k < hi → ¬p k) → Blocks p hi lo []
  | cons {lo first last rest} : lo ≤ first → (∀ k, lo ≤ k → k < first → ¬p k) →
      first < last → (∀ k, first ≤ k → k < last → p k) → last ≤ hi → (last = hi ∨ ¬p last) →
      Blocks p hi last rest → Blocks p hi lo ((first, last) :: rest)

section

variable {p : ℕ → Prop} {hi lo : ℕ} {xs : List (ℕ × ℕ)}

theorem exists_blocks (p : ℕ → Prop) [DecidablePred p] (hi lo : ℕ) : ∃ xs, Blocks p hi lo xs := by
  -- down from the end: a number joins the block that starts after it, or starts one
  induction h : hi - lo generalizing lo with
  | zero => exact ⟨[], .nil fun k hk hlt => by omega⟩
  | succ _ ih =>
    obtain ⟨xs, hxs⟩ := ih (lo + 1) (by omega)
    by_cases hp : p lo
    · cases hxs with
      | nil hfree =>
        refine ⟨[(lo, lo + 1)], .cons (le_refl _) (by omega) (by omega) ?_ (by omega) ?_
          (.nil hfree)⟩
        · intro k hk hlt
          rwa [show k = lo by omega]
        · by_cases hend : lo + 1 = hi
          · exact .inl hend
          · exact .inr (hfree _ (le_refl _) (by omega))
      | @cons _ first last rest hle hfree hlt hall hlast hright hrest =>
        rcases eq_or_lt_of_le hle with rfl | hgap
        · refine ⟨(lo, last) :: rest, .cons (le_refl _) (by omega) (by omega) ?_ hlast hright hrest⟩
          intro k hk hk'
          rcases eq_or_lt_of_le hk with rfl | hk
          · exact hp
          · exact hall k hk hk'
        · refine ⟨(lo, lo + 1) :: (first, last) :: rest, .cons (le_refl _) (by omega)
            (by omega) ?_ (by omega) (.inr (hfree _ (le_refl _) hgap))
            (.cons hle hfree hlt hall hlast hright hrest)⟩
          intro k hk hk'
          rwa [show k = lo by omega]
    · have hskip : ∀ first, (∀ k, lo + 1 ≤ k → k < first → ¬p k) →
          ∀ k, lo ≤ k → k < first → ¬p k := by
        intro first hfree k hk hlt
        rcases eq_or_lt_of_le hk with rfl | hk
        · exact hp
        · exact hfree k hk hlt
      refine ⟨xs, ?_⟩
      cases hxs with
      | nil hfree => exact .nil (hskip hi hfree)
      | @cons _ first _ _ hle hfree hlt hall hlast hright hrest =>
        exact .cons (Nat.le_of_succ_le hle) (hskip first hfree) hlt hall hlast hright hrest

section

variable (h : Blocks p hi lo xs)

include h

theorem Blocks.lo_le {x : ℕ × ℕ} (hx : x ∈ xs) : lo ≤ x.1 := by
  induction h with
  | nil => cases hx
  | cons hle _ hlt _ _ _ _ ih =>
    rcases List.mem_cons.1 hx with rfl | hx
    · exact hle
    · exact le_trans hle (le_trans (le_of_lt hlt) (ih hx))

theorem Blocks.mem_iff (x : ℕ × ℕ) : x ∈ xs ↔ IsBlock p lo hi x := by
  induction h with
  | nil hfree =>
    refine ⟨nofun, fun hx => absurd (hx.all x.1 (le_refl _) hx.lt) (hfree _ hx.lo_le ?_)⟩
    exact lt_of_lt_of_le hx.lt hx.le_hi
  | @cons lo first last _ hle hfree hlt hall hlast hright _ ih =>
    have hfirst : IsBlock p lo hi (first, last) := by
      refine ⟨hle, hlt, hlast, hall, ?_, hright⟩
      by_cases he : first = lo
      · exact .inl he
      · exact .inr (hfree _ (by omega) (by omega))
    rw [List.mem_cons, ih]
    constructor
    · rintro (rfl | hx)
      · exact hfirst
      · refine ⟨by have := hx.lo_le; omega, hx.lt, hx.le_hi, hx.all, ?_, hx.right⟩
        -- the number after the first block is in no block
        rcases hx.left with he | hl
        · have hp : p last := hx.all last (by omega) (by have := hx.lt; omega)
          rcases hright with rfl | hn
          · have := hx.lt
            have := hx.le_hi
            omega
          · exact absurd hp hn
        · exact .inr hl
    · intro hx
      by_cases he : x = (first, last)
      · exact .inl he
      · refine .inr ?_
        rcases hx.disjoint hfirst he with hbefore | hafter
        · exact absurd (hx.all x.1 (le_refl _) hx.lt)
            (hfree _ hx.lo_le (lt_of_lt_of_le hx.lt hbefore))
        · refine ⟨hafter, hx.lt, hx.le_hi, hx.all, ?_, hx.right⟩
          rcases hx.left with hl | hl
          · omega
          · exact .inr hl

theorem Blocks.pairwise : xs.Pairwise fun x y => x.2 ≤ y.1 := by
  induction h with
  | nil => exact .nil
  | cons _ _ _ _ _ _ hrest ih => exact .cons (fun _ hy => hrest.lo_le hy) ih

theorem Blocks.nodup : xs.Nodup := by
  refine h.pairwise.imp_of_mem fun {x y} hx _ hle he => ?_
  have hlt := ((h.mem_iff x).1 hx).lt
  rw [he] at hlt hle
  exact absurd hlt (Nat.not_lt.2 hle)

/-- The blocks have all the numbers with the property. -/
theorem Blocks.sum_width [DecidablePred p] :
    (xs.map fun x => x.2 - x.1).sum = ((Finset.Ico lo hi).filter p).card := by
  induction h with
  | nil hfree =>
    rw [List.map_nil, List.sum_nil, eq_comm, Finset.card_eq_zero, Finset.filter_eq_empty_iff]
    intro k hk
    rw [Finset.mem_Ico] at hk
    exact hfree k hk.1 hk.2
  | @cons lo first last _ _ hfree _ hall _ _ _ ih =>
    have hsplit : (Finset.Ico lo hi).filter p =
        Finset.Ico first last ∪ (Finset.Ico last hi).filter p := by
      ext k
      simp only [Finset.mem_union, Finset.mem_filter, Finset.mem_Ico]
      constructor
      · rintro ⟨⟨hlo, hhi⟩, hk⟩
        rcases lt_or_ge k first with hbefore | hge
        · exact absurd hk (hfree k hlo hbefore)
        · rcases lt_or_ge k last with hin | hafter
          · exact .inl ⟨hge, hin⟩
          · exact .inr ⟨⟨hafter, hhi⟩, hk⟩
      · rintro (⟨hge, hin⟩ | ⟨⟨hafter, hhi⟩, hk⟩)
        · exact ⟨⟨by omega, by omega⟩, hall k hge hin⟩
        · exact ⟨⟨by omega, hhi⟩, hk⟩
    have hdisjoint : Disjoint (Finset.Ico first last) ((Finset.Ico last hi).filter p) := by
      rw [Finset.disjoint_left]
      intro k hk hk'
      rw [Finset.mem_Ico] at hk
      rw [Finset.mem_filter, Finset.mem_Ico] at hk'
      omega
    rw [List.map_cons, List.sum_cons, ih, hsplit, Finset.card_union_of_disjoint hdisjoint,
      Nat.card_Ico]

end

end

end Netstack2
