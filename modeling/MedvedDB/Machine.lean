import MedvedDB.Prelude

namespace MedvedDB.Machine

variable {σ α : Type}

-- A machine is a partial step function: an action that is not enabled has no
-- next state. `only` keeps the actions that a check accepts.
def only (accepts : σ → α → Bool) (step : σ → α → Option σ) (state : σ) (action : α) : Option σ :=
  if accepts state action then step state action else none

def Reached (step : σ → α → Option σ) (start state : σ) : Prop :=
  ∃ actions : List α, actions.foldlM step start = some state

variable {count : Nat} {step : σ → α → Option σ}

variable {accepts : σ → α → Bool} {holds : σ → Prop}

lemma only_some (moved : only accepts step state action = some next) :
    accepts state action = true ∧ step state action = some next := by
  unfold only at moved
  split at moved
  · exact ⟨‹_›,moved⟩
  · cases moved

-- The one induction over runs: what holds at the start and survives every
-- step holds in every reached state.
lemma reached_invariant (base : holds start)
    (kept : ∀ state action next, holds state → step state action = some next → holds next)
    (reached : Reached step start state) : holds state := by
  obtain ⟨actions,ran⟩ := reached
  induction actions generalizing start with
  | nil => exact Option.some.inj ran ▸ base
  | cons action rest ih =>
    rw [foldlM_cons] at ran
    obtain ⟨middle,moved,ran⟩ := bind_eq_some_iff.mp ran
    exact ih (kept start action middle base moved) ran

lemma Reached.refl (step : σ → α → Option σ) (state : σ) : Reached step state state := ⟨[],rfl⟩

lemma Reached.head (moved : step state action = some middle)
    (rest : Reached step middle last) : Reached step state last := by
  obtain ⟨actions,ran⟩ := rest
  refine ⟨action::actions,?_⟩
  rw [foldlM_cons,moved]
  exact ran

lemma Reached.trans (first : Reached step state middle)
    (second : Reached step middle last) : Reached step state last := by
  obtain ⟨actions,ran⟩ := first
  obtain ⟨more,went⟩ := second
  refine ⟨actions ++ more,?_⟩
  rw [List.foldlM_append,ran]
  exact went

lemma Reached.of_only (reached : Reached (only accepts step) start state) : Reached step start state := by
  apply reached_invariant (Reached.refl step start) ?_ reached
  intro middle action next before moved
  exact before.trans (.head (only_some moved).2 (.refl step next))

def Walked (step : σ → α → Option σ) (count : Nat) (start state : σ) : Prop :=
  ∃ actions : List α, actions.length = count ∧ actions.foldlM step start = some state

lemma Walked.refl (step : σ → α → Option σ) (state : σ) : Walked step 0 state state := ⟨[],rfl,rfl⟩

lemma Walked.head (moved : step state action = some middle)
    (rest : Walked step count middle last) : Walked step (count + 1) state last := by
  obtain ⟨actions,length,ran⟩ := rest
  refine ⟨action::actions,congrArg Nat.succ length,?_⟩
  rw [foldlM_cons,moved]
  exact ran

lemma Walked.trans (first : Walked step one state middle)
    (second : Walked step two middle last) : Walked step (one + two) state last := by
  obtain ⟨actions,length,ran⟩ := first
  obtain ⟨more,rest,went⟩ := second
  refine ⟨actions ++ more,?_,?_⟩
  · rw [length_append,length,rest]
  · rw [List.foldlM_append,ran]
    exact went

lemma Walked.reached (walked : Walked step count start state) : Reached step start state := by
  obtain ⟨actions,_,ran⟩ := walked
  exact ⟨actions,ran⟩

-- A run is no longer than what every step takes away from.
lemma walked_bound {measure : σ → Nat} (base : holds start)
    (kept : ∀ state action next, holds state → step state action = some next → holds next ∧ measure next < measure state)
    (walked : Walked step count start state) : count ≤ measure start := by
  obtain ⟨actions,rfl,ran⟩ := walked
  induction actions generalizing start with
  | nil => exact Nat.zero_le _
  | cons action rest ih =>
    rw [foldlM_cons] at ran
    obtain ⟨middle,moved,ran⟩ := bind_eq_some_iff.mp ran
    obtain ⟨next,less⟩ := kept start action middle base moved
    exact (succ_le_succ (ih next ran)).trans less

end MedvedDB.Machine
