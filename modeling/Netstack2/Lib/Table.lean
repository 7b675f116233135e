import Mathlib

/-!
# Tables with swap-and-pop removal

A table is a list of entries. An entry is removed by moving the last one to its
place (`swapPop`), so that a removal takes constant time, and an index into the
table may stand for another entry afterwards, or for none.

Each entry has an identifier, which is never used again, and a name, which no two
entries share. A *history* lists what has been seen, each item with the identifier
of the entry it is about (`seen`). `Tracked` is what is known of a table with a
history: a property `J` of each entry and what was seen of it.

Main results:

* `perm_swapPop`: a removal takes out one entry and otherwise reorders the table;
* `Tracked.set`, `Tracked.swapPop`, `Tracked.push`: what is known after an update,
  a removal and an addition.
-/

namespace Netstack2

open List

variable {α ε φ : Type}

/-! ## Removal -/

/-- Remove the entry at `i`, by moving the last one to its place. -/
def swapPop (l : List α) (i : ℕ) : List α :=
  match l.getLast? with
  | none => l
  | some a => if i < l.length then (l.set i a).dropLast else l

variable {l : List α} {i : ℕ}

theorem swapPop_of_le (hi : l.length ≤ i) : swapPop l i = l := by
  unfold swapPop
  split
  · rfl
  · exact if_neg (Nat.not_lt_of_le hi)

theorem swapPop_concat_lt (l : List α) (a : α) (hi : i < l.length) :
    swapPop (l ++ [a]) i = l.set i a := by
  have hi' : i < (l ++ [a]).length := by
    rw [length_append]
    exact Nat.lt_add_right _ hi
  rw [swapPop, getLast?_concat]
  dsimp only
  rw [if_pos hi', set_append_left _ _ hi, dropLast_concat]

theorem swapPop_concat_length (l : List α) (a : α) : swapPop (l ++ [a]) l.length = l := by
  rw [swapPop, getLast?_concat]
  dsimp only
  rw [if_pos (by simp), set_append_right _ _ (le_refl _), Nat.sub_self, set_cons_zero,
    dropLast_concat]

theorem exists_concat (hi : i < l.length) : ∃ l' a, l = l' ++ [a] :=
  l.eq_nil_or_concat'.resolve_left (ne_nil_of_length_pos (Nat.zero_lt_of_lt hi))

/-- A removal takes out one entry and reorders the others. -/
theorem perm_swapPop {a : α} (hi : l[i]? = some a) : a :: swapPop l i ~ l := by
  obtain ⟨hlt, rfl⟩ := List.getElem?_eq_some_iff.1 hi
  obtain ⟨l, b, rfl⟩ := exists_concat hlt
  rcases Nat.lt_or_ge i l.length with hlast | hlast
  · -- the last entry takes the place of the removed one
    rw [swapPop_concat_lt l b hlast, getElem_append_left hlast]
    have hset : l.set i b ~ b :: l.eraseIdx i := set_perm_cons_eraseIdx hlast b
    have herase : l[i] :: l.eraseIdx i ~ l := getElem_cons_eraseIdx_perm hlast
    calc l[i] :: l.set i b
      _ ~ l[i] :: b :: l.eraseIdx i := hset.cons _
      _ ~ b :: l[i] :: l.eraseIdx i := .swap ..
      _ ~ b :: l := herase.cons b
      _ ~ l ++ [b] := (perm_append_singleton b l).symm
  · have hlen : i = l.length := by
      rw [length_append, length_singleton] at hlt
      omega
    subst hlen
    rw [swapPop_concat_length, getElem_concat_length rfl]
    exact (perm_append_singleton b l).symm

theorem length_swapPop (hi : i < l.length) : (swapPop l i).length + 1 = l.length :=
  (perm_swapPop (getElem?_eq_getElem hi)).length_eq

/-- An index other than the removed one and the last one stays valid. -/
theorem getElem?_swapPop {j : ℕ} (hji : j ≠ i) (hj : j + 1 < l.length) :
    (swapPop l i)[j]? = l[j]? := by
  unfold swapPop
  split
  · rfl
  · split
    · rw [getElem?_dropLast, length_set, if_pos (by omega), getElem?_set_ne (Ne.symm hji)]
    · rfl

/-- The last entry takes the place of the removed one. -/
theorem getElem?_swapPop_self (hi : i + 1 < l.length) : (swapPop l i)[i]? = l.getLast? := by
  obtain ⟨l, a, rfl⟩ := exists_concat (Nat.lt_of_succ_lt hi)
  rw [length_append, length_singleton] at hi
  rw [swapPop_concat_lt l a (by omega), getElem?_set_self (by omega), getLast?_concat]

/-- The list with its last entry in front. -/
def lastFirst (l : List α) : List α := l.getLast?.toList ++ l.dropLast

theorem lastFirst_concat (l : List α) (a : α) : lastFirst (l ++ [a]) = a :: l := by
  rw [lastFirst, getLast?_concat, dropLast_concat]
  rfl

theorem perm_lastFirst (l : List α) : lastFirst l ~ l := by
  rcases l.eq_nil_or_concat with rfl | ⟨l, a, rfl⟩
  · exact .nil
  · rw [concat_eq_append, lastFirst_concat]
    exact (perm_append_singleton a l).symm

/-- From the removed index on, the entries after it remain, the last one in front. -/
theorem drop_swapPop (hi : i < l.length) : (swapPop l i).drop i = lastFirst (l.drop (i + 1)) := by
  obtain ⟨l, a, rfl⟩ := exists_concat hi
  rcases lt_or_ge i l.length with hlast | hlast
  · -- the last entry takes the place of the removed one
    have hset : (l.set i a).drop i = a :: l.drop (i + 1) := by
      rw [drop_eq_getElem_cons (by rwa [length_set]), getElem_set_self,
        drop_set_of_lt (Nat.lt_succ_self i)]
    rw [swapPop_concat_lt l a hlast, hset, drop_append_of_le_length hlast, lastFirst_concat]
  · have hlen : i = l.length := by
      rw [length_append, length_singleton] at hi
      omega
    subst hlen
    rw [swapPop_concat_length, drop_length, drop_of_length_le (by simp)]
    rfl

/-! ## Updates -/

section

variable {l : List α} {i : ℕ} {a a' : α} (hi : l[i]? = some a)

include hi

/-- An update that leaves `f` of an entry as it is leaves it so in the whole table. -/
theorem map_set_of_eq {β : Type} {f : α → β} (hf : f a' = f a) : (l.set i a').map f = l.map f := by
  obtain ⟨hlt, rfl⟩ := List.getElem?_eq_some_iff.1 hi
  rw [map_set, hf, ← getElem_map f (h := by simpa using hlt), set_getElem_self]

theorem set_of_getElem? : l.set i a = l := by
  obtain ⟨hlt, rfl⟩ := List.getElem?_eq_some_iff.1 hi
  exact set_getElem_self hlt

/-- An update takes one entry out, and puts another one in. -/
theorem perm_set (a' : α) : a :: l.set i a' ~ a' :: l := by
  have := getD_set_perm_cons l i a'
  rwa [hi] at this

/-- An entry of a table is the one that is replaced, or stays. -/
theorem eq_or_mem_set {b : α} (hb : b ∈ l) (a' : α) : b = a ∨ b ∈ l.set i a' :=
  mem_cons.1 ((perm_set hi a').mem_iff.2 (mem_cons_of_mem a' hb))

/-- An entry that is updated and then removed is gone. -/
theorem perm_swapPop_set (a' : α) : a :: swapPop (l.set i a') i ~ l := by
  obtain ⟨hlt, -⟩ := List.getElem?_eq_some_iff.1 hi
  have hpop : a' :: swapPop (l.set i a') i ~ l.set i a' := perm_swapPop (List.getElem?_set_self hlt)
  refine (perm_cons a').1 ?_
  calc a' :: a :: swapPop (l.set i a') i
    _ ~ a :: a' :: swapPop (l.set i a') i := .swap ..
    _ ~ a :: l.set i a' := hpop.cons a
    _ ~ a' :: l := perm_set hi a'

/-- An update outside of what is filtered does not show. -/
theorem filter_set_of_neg {p : α → Bool} (ha : p a = false) (ha' : p a' = false) :
    (l.set i a').filter p = l.filter p := by
  induction l generalizing i with
  | nil => rfl
  | cons _ _ ih =>
    cases i with
    | zero =>
      cases hi
      rw [set_cons_zero, filter_cons_of_neg (by simp [ha']), filter_cons_of_neg (by simp [ha])]
    | succ => rw [set_cons_succ, filter_cons, filter_cons, ih hi]

end

/-- Nobody has the name of an entry that is added. -/
theorem nodup_map_concat {l : List α} {f : α → φ} {a : α} (h : (l.map f).Nodup)
    (ha : ∀ b ∈ l, f b ≠ f a) : ((l ++ [a]).map f).Nodup := by
  rw [map_append, map_singleton, ← concat_eq_append, nodup_concat]
  refine ⟨fun hmem => ?_, h⟩
  obtain ⟨b, hb, hba⟩ := mem_map.1 hmem
  exact ha b hb hba

/-! ## Search -/

/-- The first entry with `p`, and its index. -/
def findSlot (l : List α) (p : α → Bool) : Option (ℕ × α) :=
  (l.findIdx? p).bind fun i => l[i]?.map (i, ·)

variable {l : List α} {hist : List ε} {Q : List ε → ε → Prop} {p : α → Bool} {i : ℕ}

theorem findSlot_eq_some {a : α} (h : findSlot l p = some (i, a)) :
    l[i]? = some a ∧ p a = true := by
  obtain ⟨j, hj, h⟩ := Option.bind_eq_some_iff.1 h
  obtain ⟨b, hb, h⟩ := Option.map_eq_some_iff.1 h
  obtain ⟨rfl, rfl⟩ := Prod.mk.inj h
  obtain ⟨hlt, hp, -⟩ := List.findIdx?_eq_some_iff_getElem.1 hj
  refine ⟨hb, ?_⟩
  rwa [(List.getElem?_eq_some_iff.1 hb).2] at hp

theorem findSlot_eq_none (h : findSlot l p = none) : ∀ a ∈ l, p a = false := by
  rcases Option.eq_none_or_eq_some (l.findIdx? p) with hnone | ⟨i, hi⟩
  · exact findIdx?_eq_none_iff.1 hnone
  · -- the index that was found is one of the table
    obtain ⟨hlt, -⟩ := findIdx?_eq_some_iff_getElem.1 hi
    simp [findSlot, hi, Option.bind_some, getElem?_eq_getElem hlt] at h

/-- What was found is found again after an update that keeps `p`. -/
theorem findSlot_set {a a' : α} (h : findSlot l p = some (i, a)) (ha' : p a') :
    findSlot (l.set i a') p = some (i, a') := by
  obtain ⟨j, hj, h⟩ := Option.bind_eq_some_iff.1 h
  obtain ⟨_, -, h⟩ := Option.map_eq_some_iff.1 h
  obtain ⟨rfl, rfl⟩ := Prod.mk.inj h
  obtain ⟨hlt, -, hfirst⟩ := findIdx?_eq_some_iff_getElem.1 hj
  have hset : (l.set j a').findIdx? p = some j := by
    refine findIdx?_eq_some_iff_getElem.2 ⟨by rwa [length_set], ?_, fun k hk => ?_⟩
    · rwa [getElem_set_self]
    · rw [getElem_set_ne (ne_of_gt hk)]
      exact hfirst k hk
  rw [findSlot, hset, Option.bind_some, getElem?_set_self hlt, Option.map_some]

/-! ## Histories -/

/-- What was seen of the entry with the identifier `i`. -/
def seen (history : List (ℕ × ε)) (i : ℕ) : List ε := (history.filter fun x => x.1 = i).map Prod.snd

theorem seen_append (h h' : List (ℕ × ε)) (i : ℕ) : seen (h ++ h') i = seen h i ++ seen h' i := by
  rw [seen, filter_append, map_append, seen, seen]

theorem seen_self (i : ℕ) (xs : List ε) : seen (xs.map (i, ·)) i = xs := by
  induction xs with
  | nil => rfl
  | cons _ _ ih => simpa [seen] using ih

theorem seen_of_ne {j : ℕ} (hij : i ≠ j) (xs : List ε) : seen (xs.map (i, ·)) j = [] := by
  induction xs with
  | nil => rfl
  | cons => simp [seen, hij]

/-- Each item of a history has the property `Q` with what was seen before it. -/
def Along (Q : List ε → ε → Prop) (hist : List ε) : Prop :=
  ∀ before x after, hist = before ++ x :: after → Q before x

theorem Along.mono {Q' : List ε → ε → Prop} (h : Along Q hist)
    (hQ : ∀ before x, Q before x → Q' before x) : Along Q' hist :=
  fun before x after heq => hQ before x (h before x after heq)

/-- More is seen. -/
theorem Along.append {xs : List ε} (h : Along Q hist)
    (hxs : Along (fun before => Q (hist ++ before)) xs) : Along Q (hist ++ xs) := by
  intro before x after heq
  rcases append_eq_append_iff.1 heq with ⟨mid, rfl, hxs'⟩ | ⟨mid, rfl, hrest⟩
  · exact hxs mid x after hxs'
  · cases mid with
    | nil => simpa using hxs [] x after hrest.symm
    | cons _ mid =>
      obtain ⟨rfl, -⟩ := List.cons.inj hrest
      exact h before x mid rfl

theorem along_of_mem (h : ∀ x ∈ hist, ∀ before, Q before x) : Along Q hist := by
  rintro before x after rfl
  exact h x (by simp) before

/-- What is seen in addition has the property whatever was seen before. -/
theorem Along.append_of_mem {xs : List ε} (h : Along Q hist)
    (hxs : ∀ x ∈ xs, ∀ before, Q before x) : Along Q (hist ++ xs) :=
  h.append (along_of_mem fun x hx before => hxs x hx (hist ++ before))

theorem along_singleton {x : ε} (h : Q [] x) : Along Q [x] := by
  intro before y after heq
  obtain ⟨rfl, rfl, -⟩ : before = [] ∧ x = y ∧ after = [] := by cases before <;> simp_all
  exact h

theorem along_pair {x y : ε} (hx : Q [] x) (hy : Q [x] y) : Along Q [x, y] :=
  (along_singleton hx).append (along_singleton hy)

/-- Each entry of the table has the property `J`, together with what was seen of it,
    and `D` is true of what was seen of any entry, also of those that were removed. -/
structure Tracked (ident : α → ℕ) (name : α → φ) (J : α → List ε → Prop) (D : List ε → Prop)
    (next : ℕ) (l : List α) (history : List (ℕ × ε)) : Prop where
  idents : (l.map ident).Nodup
  names : (l.map name).Nodup
  below : ∀ a ∈ l, ident a < next
  unseen : ∀ i, next ≤ i → seen history i = []
  each : ∀ a ∈ l, J a (seen history (ident a))
  past : ∀ i, seen history i = [] ∨ D (seen history i)

namespace Tracked

variable {ident : α → ℕ} {name : α → φ} {J J' : α → List ε → Prop} {D : List ε → Prop}
  {next : ℕ} {l : List α} {history : List (ℕ × ε)}

theorem empty : Tracked ident name J D next [] ([] : List (ℕ × ε)) where
  idents := nodup_nil
  names := nodup_nil
  below _ ha := by cases ha
  unseen _ _ := rfl
  each _ ha := by cases ha
  past _ := .inl rfl

section

variable (h : Tracked ident name J D next l history)

include h

/-- Two entries with one identifier are the same. -/
theorem eq_of_ident {a b : α} (ha : a ∈ l) (hb : b ∈ l) (hab : ident a = ident b) : a = b :=
  inj_on_of_nodup_map h.idents ha hb hab

theorem eq_of_name {a b : α} (ha : a ∈ l) (hb : b ∈ l) (hab : name a = name b) : a = b :=
  inj_on_of_nodup_map h.names ha hb hab

/-- The entry at `i` becomes `a'`, and `xs` is seen of it. -/
theorem set {i : ℕ} {a a' : α} {xs : List ε} (ha : l[i]? = some a) (hident : ident a' = ident a)
    (hname : name a' = name a)
    (hJ : J a (seen history (ident a)) → J' a' (seen history (ident a) ++ xs))
    (hD : J a (seen history (ident a)) → D (seen history (ident a) ++ xs))
    (hother : ∀ b hist, ident b ≠ ident a → J b hist → J' b hist) :
    Tracked ident name J' D next (l.set i a') (history ++ xs.map (ident a, ·)) := by
  have hmem : a ∈ l := mem_of_getElem? ha
  refine ⟨map_set_of_eq ha hident ▸ h.idents, map_set_of_eq ha hname ▸ h.names, ?_, ?_, ?_, ?_⟩
  · intro b hb
    rcases mem_or_eq_of_mem_set hb with hb | rfl
    · exact h.below b hb
    · exact hident ▸ h.below a hmem
  · intro j hj
    have hlt : ident a < j := Nat.lt_of_lt_of_le (h.below a hmem) hj
    rw [seen_append, h.unseen j hj, seen_of_ne (Nat.ne_of_lt hlt)]
    rfl
  · intro b hb
    obtain ⟨hlt, rfl⟩ := List.getElem?_eq_some_iff.1 ha
    have hperm := getElem_cons_eraseIdx_perm hlt
    rcases mem_cons.1 ((set_perm_cons_eraseIdx hlt a').subset hb) with rfl | hb
    · rw [hident, seen_append, seen_self]
      exact hJ (h.each _ hmem)
    · -- the identifiers are distinct
      have hne : ident b ≠ ident l[i] := fun hba =>
        (nodup_cons.1 ((hperm.map ident).nodup_iff.2 h.idents)).1 (mem_map.2 ⟨b, hb, hba⟩)
      rw [seen_append, seen_of_ne hne.symm, append_nil]
      exact hother b _ hne (h.each b (hperm.subset (mem_cons_of_mem _ hb)))
  · intro i
    rcases eq_or_ne i (ident a) with rfl | hne
    · rw [seen_append, seen_self]
      exact .inr (hD (h.each a hmem))
    · rw [seen_append, seen_of_ne hne.symm, append_nil]
      exact h.past i

/-- A removal leaves the other entries as they are. -/
theorem swapPop (i : ℕ) : Tracked ident name J D next (swapPop l i) history := by
  rcases lt_or_ge i l.length with hi | hi
  · have hperm := perm_swapPop (getElem?_eq_getElem hi)
    have hsub : ∀ b ∈ Netstack2.swapPop l i, b ∈ l := fun b hb =>
      hperm.subset (mem_cons_of_mem _ hb)
    have hmap : ∀ {β : Type} (f : α → β), (l.map f).Nodup →
        ((Netstack2.swapPop l i).map f).Nodup := fun f hf =>
      (nodup_cons.1 ((hperm.map f).nodup_iff.2 hf)).2
    exact ⟨hmap ident h.idents, hmap name h.names, fun b hb => h.below b (hsub b hb), h.unseen,
      fun b hb => h.each b (hsub b hb), h.past⟩
  · rw [swapPop_of_le hi]
    exact h

/-- A new entry takes the next identifier, and a name nobody has. -/
theorem push {a : α} {xs : List ε} (hident : ident a = next) (hname : ∀ b ∈ l, name b ≠ name a)
    (hJ : J a xs) (hD : D xs) :
    Tracked ident name J D (next + 1) (l ++ [a]) (history ++ xs.map (ident a, ·)) := by
  have hne : ∀ b ∈ l, ident b ≠ ident a := fun b hb => hident ▸ ne_of_lt (h.below b hb)
  refine ⟨nodup_map_concat h.idents hne, nodup_map_concat h.names hname, ?_, ?_, ?_, ?_⟩
  · intro b hb
    rcases mem_append.1 hb with hb | hb
    · exact Nat.lt_succ_of_lt (h.below b hb)
    · rw [mem_singleton.1 hb, hident]
      exact Nat.lt_succ_self next
  · intro i hi
    rw [seen_append, h.unseen i (by omega), seen_of_ne (by omega)]
    rfl
  · intro b hb
    rcases mem_append.1 hb with hb | hb
    · rw [seen_append, seen_of_ne (Ne.symm (hne b hb)), append_nil]
      exact h.each b hb
    · rw [mem_singleton.1 hb, seen_append, seen_self, h.unseen _ (le_of_eq hident.symm)]
      exact hJ
  · intro i
    rcases eq_or_ne i (ident a) with rfl | hne
    · rw [seen_append, seen_self, h.unseen _ (le_of_eq hident.symm)]
      exact .inr hD
    · rw [seen_append, seen_of_ne hne.symm, append_nil]
      exact h.past i

/-- Every entry is updated at once, and nothing is seen. -/
theorem map {f : α → α} (hident : ∀ a, ident (f a) = ident a) (hname : ∀ a, name (f a) = name a)
    (hJ : ∀ a hist, J a hist → J (f a) hist) : Tracked ident name J D next (l.map f) history := by
  have hmap : ∀ {β : Type} (g : α → β), (∀ a, g (f a) = g a) → (l.map f).map g = l.map g := by
    intro β g hg
    rw [map_map]
    exact map_congr_left fun a _ => hg a
  refine ⟨hmap ident hident ▸ h.idents, hmap name hname ▸ h.names, ?_, h.unseen, ?_, h.past⟩
  · intro b hb
    obtain ⟨a, ha, rfl⟩ := mem_map.1 hb
    exact hident a ▸ h.below a ha
  · intro b hb
    obtain ⟨a, ha, rfl⟩ := mem_map.1 hb
    rw [hident]
    exact hJ a _ (h.each a ha)

end

end Tracked

/-! ## Two tables, entry by entry -/

/-- An update of the entries at one index of two tables. -/
theorem forall₂_modify {R : α → ε → Prop} {l : List α} {l' : List ε} {f : α → α} {g : ε → ε}
    (h : Forall₂ R l l') (hfg : ∀ a b, R a b → R (f a) (g b)) (i : ℕ) :
    Forall₂ R (l.modify i f) (l'.modify i g) := by
  induction h generalizing i with
  | nil => cases i <;> exact .nil
  | cons hab h ih =>
    cases i with
    | zero => exact .cons (hfg _ _ hab) h
    | succ i => exact .cons hab (ih i)

theorem forall_mem_modify {p : α → Prop} {l : List α} {f : α → α} (h : ∀ a ∈ l, p a)
    (hf : ∀ a, p a → p (f a)) (i : ℕ) : ∀ a ∈ l.modify i f, p a := by
  have hsame : Forall₂ (fun a _ => p a) l l := forall₂_same.2 h
  have hmodify : Forall₂ (fun a _ => p a) (l.modify i f) (l.modify i f) :=
    forall₂_modify hsame (fun a _ ha => hf a ha) i
  rwa [forall₂_same] at hmodify

end Netstack2
