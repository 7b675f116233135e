import Mathlib

/-!
# Turns in a round-robin list

A list whose first entry is served. It may get a turn, which puts it last, or leave the
list; others join at the end. While two entries are both on the list they get their
turns alternately, whoever else comes and goes.

* `Move`: what may happen to the list, and who gets a turn;
* `Alternates a b m n l`: `a` was before `b`, and since then they got `m` and `n` turns.
  Every move that keeps both on the list keeps this (`Alternates.move`).
-/

namespace Netstack2.RoundRobin

variable {α : Type*} {a b : α} {l l' : List α} {m n : ℕ}

/-- A move, with the entry that gets a turn. -/
inductive Move : List α → Option α → List α → Prop
  | stay (l : List α) : Move l none l
  | turn (a : α) (l : List α) : Move (a :: l) (some a) (l ++ [a])
  | leave (a : α) (l : List α) : Move (a :: l) none l
  | join (a : α) (l : List α) : Move l none (l ++ [a])

/-- The turns after a move. -/
def turns [DecidableEq α] (a : α) (n : ℕ) (turn : Option α) : ℕ :=
  if turn = some a then n + 1 else n

/-- `a` and `b` had `m` and `n` turns, the first one `a`: it is ahead by one turn just
    when it is behind `b` in the list. -/
def Alternates (a b : α) (m n : ℕ) (l : List α) : Prop :=
  ([a, b].Sublist l ∧ m = n) ∨ ([b, a].Sublist l ∧ m = n + 1)

/-- The first entry is before every other. -/
theorem pair_sublist_cons {c : α} (h : [a, b].Sublist (c :: l)) :
    (a = c ∧ b ∈ l) ∨ [a, b].Sublist l := by
  rcases List.sublist_cons_iff.1 h with hl | ⟨r, hr, hrl⟩
  · exact .inr hl
  · obtain ⟨rfl, rfl⟩ := List.cons.inj hr
    exact .inl ⟨rfl, List.singleton_sublist.1 hrl⟩

/-- Two entries of a list are in one order or the other. -/
theorem pair_sublist_or (ha : a ∈ l) (hb : b ∈ l) (hne : a ≠ b) :
    [a, b].Sublist l ∨ [b, a].Sublist l := by
  induction l with
  | nil => cases ha
  | cons c _ ih =>
    rcases List.mem_cons.1 ha with rfl | hal
    · have hbl := (List.mem_cons.1 hb).resolve_left (Ne.symm hne)
      exact .inl ((List.singleton_sublist.2 hbl).cons_cons a)
    · rcases List.mem_cons.1 hb with rfl | hbl
      · exact .inr ((List.singleton_sublist.2 hal).cons_cons b)
      · exact (ih hal hbl).imp (·.cons c) (·.cons c)

/-- Of two entries, the later one does not get the turn. If the earlier one gets it,
    it is the later one now. -/
theorem pair_sublist_turn {c : α} (hc : c ∉ l) (h : [a, b].Sublist (c :: l)) :
    c ≠ b ∧ ((c = a ∧ [b, a].Sublist (l ++ [c])) ∨ (c ≠ a ∧ [a, b].Sublist (l ++ [c]))) := by
  rcases pair_sublist_cons h with ⟨rfl, hb⟩ | hl
  · refine ⟨fun heq => hc (heq ▸ hb), .inl ⟨rfl, ?_⟩⟩
    exact (List.singleton_sublist.2 hb).append (.refl [a])
  · have ha : a ∈ l := hl.subset List.mem_cons_self
    have hb : b ∈ l := hl.subset (List.mem_cons_of_mem _ List.mem_cons_self)
    refine ⟨fun heq => hc (heq ▸ hb), .inr ⟨fun heq => hc (heq ▸ ha), ?_⟩⟩
    exact hl.trans (List.sublist_append_left l [c])

theorem alternates_or (ha : a ∈ l) (hb : b ∈ l) (hne : a ≠ b) :
    Alternates a b 0 0 l ∨ Alternates b a 0 0 l :=
  (pair_sublist_or ha hb hne).imp (fun h => .inl ⟨h, rfl⟩) (fun h => .inl ⟨h, rfl⟩)

/-- Nobody is ahead by more than one turn. -/
theorem Alternates.ahead (h : Alternates a b m n l) : m = n ∨ m = n + 1 := h.imp And.right And.right

/-- What keeps the order of two entries keeps their turns. -/
theorem Alternates.mono (h : Alternates a b m n l)
    (hl : ∀ c d, [c, d].Sublist l → (c = a ∧ d = b) ∨ (c = b ∧ d = a) → [c, d].Sublist l') :
    Alternates a b m n l' :=
  h.imp (fun h => ⟨hl a b h.1 (.inl ⟨rfl, rfl⟩), h.2⟩)
    (fun h => ⟨hl b a h.1 (.inr ⟨rfl, rfl⟩), h.2⟩)

section Turns

variable [DecidableEq α]

theorem turns_none (a : α) (n : ℕ) : turns a n none = n := if_neg nofun

theorem turns_self (a : α) (n : ℕ) : turns a n (some a) = n + 1 := if_pos rfl

theorem turns_of_ne {c : α} (h : c ≠ a) (n : ℕ) : turns a n (some c) = n :=
  if_neg fun heq => h (Option.some.inj heq)

/-- Two entries that stay on the list get their turns alternately. -/
theorem Alternates.move {turn : Option α} (h : Alternates a b m n l)
    (hmove : Move l turn l') (hnodup : l.Nodup) (ha : a ∈ l') (hb : b ∈ l') :
    Alternates a b (turns a m turn) (turns b n turn) l' := by
  cases hmove with
  | stay =>
    rw [turns_none, turns_none]
    exact h
  | join c l =>
    rw [turns_none, turns_none]
    exact h.mono fun _ _ hl _ => hl.trans (List.sublist_append_left l [c])
  | leave =>
    rw [turns_none, turns_none]
    have hc := (List.nodup_cons.1 hnodup).1
    refine h.mono fun x y hl hxy => (pair_sublist_cons hl).resolve_left fun hx => hc ?_
    rw [← hx.1]
    rcases hxy with ⟨rfl, -⟩ | ⟨rfl, -⟩
    · exact ha
    · exact hb
  | turn =>
    have hc := (List.nodup_cons.1 hnodup).1
    rcases h with ⟨hl, rfl⟩ | ⟨hl, rfl⟩
    · obtain ⟨hcb, ⟨rfl, hl'⟩ | ⟨hca, hl'⟩⟩ := pair_sublist_turn hc hl
      · rw [turns_self, turns_of_ne hcb]
        exact .inr ⟨hl', rfl⟩
      · rw [turns_of_ne hca, turns_of_ne hcb]
        exact .inl ⟨hl', rfl⟩
    · obtain ⟨hca, ⟨rfl, hl'⟩ | ⟨hcb, hl'⟩⟩ := pair_sublist_turn hc hl
      · rw [turns_self, turns_of_ne hca]
        exact .inl ⟨hl', rfl⟩
      · rw [turns_of_ne hca, turns_of_ne hcb]
        exact .inr ⟨hl', rfl⟩

end Turns

end Netstack2.RoundRobin
