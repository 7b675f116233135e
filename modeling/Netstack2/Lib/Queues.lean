import Mathlib

/-!
# Tables of named queues

A table of slots, each a queue under a name. A slot may be renamed while its queue is empty, so a
name may come to several slots, and what is queued under it is then spread over them.

* `contents` is everything that is queued, with its names, up to order: taking elements from the
  front of a queue removes them (`perm_contents_take`) and pushing one at the back adds it
  (`perm_contents_push`).
* `under` is what is queued under one name, in the order of the slots. Where no two queues in use
  share a name (`Separate`) it is the one queue of that name, so elements leave it at the front
  (`under_take`) and join it at the back (`under_push`), and `Separate` is kept.
-/

namespace Netstack2

open List

variable {κ α : Type*}

/-- A slot of the table: a name, and the queue under it. -/
abbrev NamedQueue (κ α : Type*) := κ × List α

/-- Everything queued in the table, with its names. -/
def contents (slots : List (NamedQueue κ α)) : List (κ × α) :=
  slots.flatMap fun slot => slot.2.map (slot.1, ·)

theorem contents_append (front back : List (NamedQueue κ α)) :
    contents (front ++ back) = contents front ++ contents back :=
  flatMap_append

theorem contents_cons (slot : NamedQueue κ α) (back : List (NamedQueue κ α)) :
    contents (slot :: back) = slot.2.map (slot.1, ·) ++ contents back :=
  flatMap_cons

variable {slots : List (NamedQueue κ α)} {k k' : κ} {i : ℕ}

/-- A table is empty when all its queues are. -/
theorem contents_eq_nil (h : ∀ slot ∈ slots, slot.2 = []) : contents slots = [] := by
  rw [contents, flatMap_eq_nil_iff]
  intro slot hslot
  rw [h slot hslot, map_nil]

theorem eq_nil_of_contents (h : contents slots = []) : ∀ slot ∈ slots, slot.2 = [] := by
  intro slot hslot
  rw [contents, flatMap_eq_nil_iff] at h
  exact map_eq_nil_iff.1 (h slot hslot)

/-- The table around its slot `i`. -/
theorem exists_around {slot : NamedQueue κ α} (h : slots[i]? = some slot) :
    ∃ front back, slots = front ++ slot :: back ∧
      ∀ slot', slots.set i slot' = front ++ slot' :: back := by
  obtain ⟨hi, rfl⟩ := List.getElem?_eq_some_iff.1 h
  refine ⟨slots.take i, slots.drop (i + 1), ?_, fun slot' => ?_⟩
  · rw [← drop_eq_getElem_cons hi, take_append_drop]
  · rw [set_eq_take_append_cons_drop, if_pos hi]

/-- Names matter for queues in use only. -/
theorem map_name_congr {queue : List α} (h : queue ≠ [] → k' = k) :
    queue.map (k', ·) = queue.map (k, ·) := by
  rcases queue.eq_nil_or_concat with rfl | ⟨_, _, rfl⟩
  · rfl
  · rw [h (by simp)]

/-- What is taken from a queue is no longer in the table, and nothing else changes. -/
theorem perm_contents_take {taken rest : List α} (h : slots[i]? = some (k, taken ++ rest))
    (hk : rest ≠ [] → k' = k) :
    (contents slots).Perm (taken.map (k, ·) ++ contents (slots.set i (k', rest))) := by
  obtain ⟨_, _, rfl, hset⟩ := exists_around h
  rw [hset, contents_append, contents_cons, contents_append, contents_cons, map_append,
    map_name_congr hk]
  simp only [append_assoc]
  exact perm_append_comm_assoc ..

/-- What is pushed on a queue joins the table, and nothing else changes. -/
theorem perm_contents_push {queue : List α} (h : slots[i]? = some (k, queue))
    (hk : queue ≠ [] → k' = k) (a : α) :
    (contents (slots.set i (k', queue ++ [a]))).Perm ((k', a) :: contents slots) := by
  obtain ⟨_, _, rfl, hset⟩ := exists_around h
  rw [hset, contents_append, contents_cons, contents_append, contents_cons, map_append,
    map_name_congr hk]
  simp only [append_assoc, map_cons, map_nil, singleton_append]
  exact ((perm_middle.append_left _).trans perm_middle)

variable [DecidableEq κ]

/-- What is queued under the name `k`, in the order of the slots. -/
def under (slots : List (NamedQueue κ α)) (k : κ) : List α :=
  slots.flatMap fun slot => if slot.1 = k then slot.2 else []

theorem under_append (front back : List (NamedQueue κ α)) (k : κ) :
    under (front ++ back) k = under front k ++ under back k :=
  flatMap_append

theorem under_cons (slot : NamedQueue κ α) (back : List (NamedQueue κ α)) (k : κ) :
    under (slot :: back) k = (if slot.1 = k then slot.2 else []) ++ under back k :=
  flatMap_cons

theorem under_singleton (k : κ) (queue : List α) (m : κ) :
    under [(k, queue)] m = if k = m then queue else [] := by
  rw [under_cons, under, flatMap_nil, append_nil]

variable {back front slots : List (NamedQueue κ α)} {k : κ}

theorem under_eq_nil (h : ∀ slot ∈ slots, slot.1 = k → slot.2 = []) : under slots k = [] := by
  rw [under, flatMap_eq_nil_iff]
  intro slot hslot
  split
  · next hk => exact h slot hslot hk
  · rfl

theorem eq_nil_of_under (h : under slots k = []) (slot : NamedQueue κ α) (hslot : slot ∈ slots)
    (hk : slot.1 = k) : slot.2 = [] := by
  have hnil := flatMap_eq_nil_iff.1 h slot hslot
  rwa [if_pos hk] at hnil

theorem exists_of_under (h : under slots k ≠ []) : ∃ slot ∈ slots, slot.1 = k := by
  by_contra hnone
  exact h (under_eq_nil fun slot hslot hk => absurd ⟨slot, hslot, hk⟩ hnone)

/-- No two queues in use have one name. -/
def Separate (slots : List (NamedQueue κ α)) : Prop :=
  slots.Pairwise fun s t => s.2 ≠ [] → t.2 ≠ [] → s.1 ≠ t.1

omit [DecidableEq κ] in
theorem separate_of_contents (h : contents slots = []) : Separate slots := by
  refine pairwise_of_forall_mem_list fun s hs _ _ hne => ?_
  exact absurd (eq_nil_of_contents h s hs) hne

theorem under_of_contents (h : contents slots = []) (k : κ) : under slots k = [] :=
  under_eq_nil fun slot hslot _ => eq_nil_of_contents h slot hslot

omit [DecidableEq κ] in
/-- Around a slot of a separate table: the rest is separate, and no queue in
    use there has the name of the slot's, if that is in use. -/
theorem separate_around {slot : NamedQueue κ α} :
    Separate (front ++ slot :: back) ↔
      Separate (front ++ back) ∧
        (slot.2 ≠ [] → ∀ other ∈ front ++ back, other.1 = slot.1 → other.2 = []) := by
  rw [Separate, pairwise_middle fun h hs ht => (h ht hs).symm, pairwise_cons, and_comm]
  refine and_congr Iff.rfl
    ⟨fun h hslot other hother hname => ?_, fun h other hother hslot hin => ?_⟩
  · by_contra hin
    exact h other hother hslot hin hname.symm
  · exact fun hname => hin (h hslot other hother hname.symm)

/-- With the names of `front ++ back` kept away from `k`, what is queued under
    `k` is the queue of the slot between them. -/
theorem under_around {queue : List α} (h : ∀ other ∈ front ++ back, other.1 = k → other.2 = []) :
    under (front ++ (k, queue) :: back) k = queue := by
  have hfront : under front k = [] :=
    under_eq_nil fun other hother => h other (mem_append_left _ hother)
  have hback : under back k = [] :=
    under_eq_nil fun other hother => h other (mem_append_right _ hother)
  rw [under_append, under_cons, hfront, hback, if_pos rfl, append_nil, nil_append]

/-- A slot says nothing about another name, or if its queue is empty. -/
theorem under_skip {slot : NamedQueue κ α} (h : slot.1 = k → slot.2 = []) :
    under (front ++ slot :: back) k = under (front ++ back) k := by
  have hnil : (if slot.1 = k then slot.2 else []) = [] := by
    split
    · next hk => exact h hk
    · rfl
  rw [under_append, under_cons, hnil, under_append, nil_append]

omit [DecidableEq κ] in
/-- Taking from a queue keeps the names separate. -/
theorem Separate.take (hsep : Separate slots) {i : ℕ} {k' : κ} {taken rest : List α}
    (h : slots[i]? = some (k, taken ++ rest)) (hk : rest ≠ [] → k' = k) :
    Separate (slots.set i (k', rest)) := by
  obtain ⟨_, _, rfl, hset⟩ := exists_around h
  rw [separate_around] at hsep
  rw [hset, separate_around]
  refine ⟨hsep.1, fun hrest other hother hname => ?_⟩
  exact hsep.2 (append_ne_nil_of_right_ne_nil _ hrest) other hother (hname.trans (hk hrest))

/-- What is taken from a queue is what was first under its name; nothing
    changes under the other names. -/
theorem under_take (hsep : Separate slots) {i : ℕ} {k' : κ} {taken rest : List α}
    (h : slots[i]? = some (k, taken ++ rest)) (hk : rest ≠ [] → k' = k) (m : κ) :
    under slots m = (if k = m then taken else []) ++ under (slots.set i (k', rest)) m := by
  obtain ⟨_, _, rfl, hset⟩ := exists_around h
  rw [separate_around] at hsep
  rw [hset]
  by_cases hm : k = m
  · subst hm
    rw [if_pos rfl]
    by_cases hrest : rest = []
    · subst hrest
      by_cases htaken : taken = []
      · subst htaken
        rw [under_skip fun _ => rfl, under_skip fun _ => rfl, nil_append]
      · -- the queue is emptied: nothing is left under its name
        have hother := hsep.2 (append_ne_nil_of_left_ne_nil htaken _)
        rw [under_around hother, under_skip fun _ => rfl, under_eq_nil hother]
    · have hother := hsep.2 (append_ne_nil_of_right_ne_nil _ hrest)
      obtain rfl := hk hrest
      rw [under_around hother, under_around hother]
  · rw [if_neg hm, nil_append, under_skip fun hname => absurd hname hm]
    refine (under_skip fun hname => ?_).symm
    by_contra hrest
    exact hm ((hk hrest).symm.trans hname)

section Push

variable {slots : List (NamedQueue κ α)} {i : ℕ} {k k' : κ} {queue : List α}

omit [DecidableEq κ] in
/-- Pushing on a queue keeps the names separate, if every queue in use under
    its new name is that queue. -/
theorem Separate.push (hsep : Separate slots) (h : slots[i]? = some (k, queue))
    (hk : queue ≠ [] → k' = k) (hfresh : queue = [] → ∀ slot ∈ slots, slot.1 = k' → slot.2 = [])
    (a : α) : Separate (slots.set i (k', queue ++ [a])) := by
  obtain ⟨_, _, rfl, hset⟩ := exists_around h
  rw [separate_around] at hsep
  rw [hset, separate_around]
  refine ⟨hsep.1, fun _ other hother hname => ?_⟩
  by_cases hqueue : queue = []
  · exact hfresh hqueue other
      ((perm_middle.mem_iff).2 (mem_cons_of_mem _ hother)) hname
  · exact hsep.2 hqueue other hother (hname.trans (hk hqueue))

/-- What is pushed on a queue is last under its name; nothing changes under the other names. -/
theorem under_push (hsep : Separate slots) (h : slots[i]? = some (k, queue))
    (hk : queue ≠ [] → k' = k)
    (hfresh : queue = [] → ∀ slot ∈ slots, slot.1 = k' → slot.2 = []) (a : α) (m : κ) :
    under (slots.set i (k', queue ++ [a])) m = under slots m ++ if k' = m then [a] else [] := by
  obtain ⟨front, back, rfl, hset⟩ := exists_around h
  rw [separate_around] at hsep
  rw [hset]
  by_cases hm : k' = m
  · subst hm
    rw [if_pos rfl]
    by_cases hqueue : queue = []
    · -- a queue put to use: nothing was under its name
      subst hqueue
      have hother : ∀ other ∈ front ++ back, other.1 = k' → other.2 = [] :=
        fun other hother => hfresh rfl other
          ((perm_middle.mem_iff).2 (mem_cons_of_mem _ hother))
      rw [under_around hother, under_skip fun _ => rfl, under_eq_nil hother]
    · have hother := hsep.2 hqueue
      obtain rfl := hk hqueue
      rw [under_around hother, under_around hother]
  · rw [if_neg hm, append_nil, under_skip fun hname => absurd hname hm]
    refine (under_skip fun hname => ?_).symm
    by_contra hqueue
    exact hm ((hk hqueue).trans hname)

end Push

end Netstack2
