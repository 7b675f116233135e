import Mathlib

/-!
# Tilings and runs

Two general notions the queues and the machines of this development share.

A list *tiles* an interval of positions if its members stand in it one after the
other, each where it belongs (`At`) and taking its own length (`len`).

A *run* is a sequence of steps, each with an input; a predicate that holds at
its start and that every step keeps holds at its end (`Runs.invariant`).
-/

namespace Netstack2

/-! ## Tilings -/

section Tiles

variable {α : Type*} (At : ℕ → α → Prop) (len : α → ℕ)

/-- The members of the list take the positions from `p` up to `q`, one after the other. -/
inductive Tiles : ℕ → List α → ℕ → Prop
  | nil (p : ℕ) : Tiles p [] p
  | cons {p q : ℕ} {a : α} {as : List α} : At p a → Tiles (p + len a) as q → Tiles p (a :: as) q

variable {At len}

namespace Tiles

variable {p q r : ℕ} {a : α} {as bs : List α}

theorem eq_add_sum (h : Tiles At len p as q) : q = p + (as.map len).sum := by
  induction h with
  | nil => simp
  | cons _ _ ih => simp [ih, add_assoc]

theorem le (h : Tiles At len p as q) : p ≤ q := h.eq_add_sum ▸ Nat.le_add_right ..

theorem eq_of_nil (h : Tiles At len p [] q) : p = q := by
  cases h
  rfl

theorem append (h : Tiles At len p as q) (h' : Tiles At len q bs r) :
    Tiles At len p (as ++ bs) r := by
  induction h with
  | nil => exact h'
  | cons ha _ ih => exact .cons ha (ih h')

/-- A tiling by two lists is one by the first up to some position, and by the
    second from there on. -/
theorem split (h : Tiles At len p (as ++ bs) r) :
    ∃ q, Tiles At len p as q ∧ Tiles At len q bs r := by
  induction as generalizing p with
  | nil => exact ⟨p, .nil p, h⟩
  | cons _ _ ih =>
    cases h with
    | cons ha htail =>
      obtain ⟨q, hfirst, hrest⟩ := ih htail
      exact ⟨q, .cons ha hfirst, hrest⟩

theorem exists_at (h : Tiles At len p as q) (ha : a ∈ as) : ∃ p, At p a := by
  induction h with
  | nil => cases ha
  | @cons p _ _ _ hb _ ih =>
    rcases List.mem_cons.1 ha with rfl | ha
    · exact ⟨p, hb⟩
    · exact ih ha

/-- One more member at the end. -/
theorem concat (h : Tiles At len p as q) (ha : At q a) : Tiles At len p (as ++ [a]) (q + len a) :=
  h.append (.cons ha (.nil _))

/-- What holds of every member where it stands may be added. -/
theorem imp {At' : ℕ → α → Prop} (h : Tiles At len p as q)
    (hi : ∀ p a, p + len a ≤ q → At p a → At' p a) : Tiles At' len p as q := by
  induction h with
  | nil => exact .nil _
  | cons ha htail ih => exact .cons (hi _ _ htail.le ha) (ih hi)

end Tiles

end Tiles

/-! ## Runs -/

/-- `s'` is reached from `s` by steps of `R`, with any inputs. -/
def Runs {σ ι : Type*} (R : σ → ι → σ → Prop) : σ → σ → Prop :=
  Relation.ReflTransGen fun s s' => ∃ i, R s i s'

/-- What holds at the start and is kept by every step holds at the end. -/
theorem Runs.invariant {σ ι : Type*} {R : σ → ι → σ → Prop} {P : σ → Prop} {s s' : σ}
    (h : Runs R s s') (hs : P s) (hstep : ∀ s i s', P s → R s i s' → P s') : P s' := by
  induction h with
  | refl => exact hs
  | tail _ hlast ih =>
    obtain ⟨i, hi⟩ := hlast
    exact hstep _ i _ ih hi

section Allowed

variable {σ ι : Type*} (step : σ → ι → σ) (A : σ → ι → Prop)

/-- Each of the inputs is allowed by `A` in the state that it finds. -/
def Allowed : σ → List ι → Prop
  | _, [] => True
  | s, i :: is => A s i ∧ Allowed (step s i) is

instance Allowed.decidable [∀ s i, Decidable (A s i)] :
    ∀ (s : σ) (is : List ι), Decidable (Allowed step A s is)
  | _, [] => .isTrue trivial
  | s, i :: is =>
    have := Allowed.decidable (step s i) is
    inferInstanceAs (Decidable (A s i ∧ Allowed step A (step s i) is))

variable {step A}

/-- Inputs that are allowed where they come make a run. -/
theorem Allowed.runs {s : σ} {is : List ι} (h : Allowed step A s is) :
    Runs (fun s i s' => A s i ∧ s' = step s i) s (is.foldl step s) := by
  induction is generalizing s with
  | nil => exact .refl
  | cons i _ ih => exact .head ⟨i, h.1, rfl⟩ (ih h.2)

section Invariant

variable {B : σ → ι → Prop} {P : σ → Prop} {s : σ} {is : List ι}

/-- An invariant that allowed inputs keep may be used to show that they are allowed by `B`, too. -/
theorem Allowed.imp (h : Allowed step A s is) (hs : P s)
    (hstep : ∀ s i, P s → A s i → B s i ∧ P (step s i)) : Allowed step B s is := by
  induction is generalizing s with
  | nil => trivial
  | cons i _ ih =>
    obtain ⟨hB, hP⟩ := hstep s i hs h.1
    exact ⟨hB, ih h.2 hP⟩

/-- Where `A` and `B` agree in every state with an invariant that all inputs keep, they allow
    the same inputs. -/
theorem allowed_congr (hs : P s) (hstep : ∀ s i, P s → P (step s i))
    (hiff : ∀ s i, P s → (A s i ↔ B s i)) : Allowed step A s is ↔ Allowed step B s is :=
  ⟨fun h => h.imp hs fun s i hP hA => ⟨(hiff s i hP).1 hA, hstep s i hP⟩,
    fun h => h.imp hs fun s i hP hB => ⟨(hiff s i hP).2 hB, hstep s i hP⟩⟩

end Invariant

end Allowed

/-- Steps that were made one after another, and did not fail, make a run. -/
theorem runs_of_foldlM {σ ι : Type*} {step : σ → ι → Option σ} {s s' : σ} {is : List ι}
    (h : is.foldlM step s = some s') : Runs (fun s i s' => step s i = some s') s s' := by
  induction is generalizing s with
  | nil =>
    cases h
    exact .refl
  | cons i _ ih =>
    rw [List.foldlM_cons] at h
    obtain ⟨_, hstep, hrest⟩ := Option.bind_eq_some_iff.1 h
    exact .head ⟨i, hstep⟩ (ih hrest)

section Guarded

variable {σ ι : Type*} (step : σ → ι → Option σ) (A : σ → ι → Prop) [∀ s i, Decidable (A s i)]

/-- Make a step that may fail, if `A` allows it. -/
def guarded (s : σ) (i : ι) : Option σ := if A s i then step s i else none

variable {step A}

theorem guarded_eq_some {s s' : σ} {i : ι} :
    guarded step A s i = some s' ↔ A s i ∧ step s i = some s' := by
  rw [guarded]
  split
  case isTrue hA | isFalse hA => simp [hA]

/-- Steps that were allowed, and made one after another, make a run. -/
theorem runs_of_guarded {s s' : σ} {is : List ι} (h : is.foldlM (guarded step A) s = some s') :
    Runs (fun s i s' => A s i ∧ step s i = some s') s s' := by
  refine Relation.ReflTransGen.mono ?_ _ _ (runs_of_foldlM h)
  rintro s₁ s₂ ⟨i, hi⟩
  exact ⟨i, guarded_eq_some.1 hi⟩

end Guarded

end Netstack2
