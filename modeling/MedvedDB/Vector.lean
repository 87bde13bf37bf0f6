import MedvedDB.Prelude

namespace MedvedDB.Vector

-- How a function ends that does not return what it was called for: it gives nothing
-- back, never returns, writes behind its memory or reads through NULL.
inductive Fault where
  | nothing | diverges | overrun | dereference
  deriving DecidableEq, Repr

-- mdv_vector: the capacity it counts with, the bytes it was given, and its items.
structure Vec (α : Type) where
  capacity : Nat
  room : Nat
  items : List α

variable {α : Type}

-- The bytes for the capacity are a product of 64 bits.
def create (itemSize capacity : Nat) : Vec α := ⟨capacity,capacity * itemSize % 2^64,[]⟩

-- The loop of mdv_vector_resize_if_required. Each round makes a capacity that is not 0
-- larger, so `needed` rounds are enough, or no number of rounds is.
def newCapacity (needed : Nat) : Nat → Nat → Option Nat
  | 0,capacity => if capacity < needed then none else some capacity
  | rounds+1,capacity => if capacity < needed then newCapacity needed rounds (capacity * 2) else some capacity

-- mdv_vector_append, and mdv_vector_push_back for one item. Without memory for more
-- the vector stays as it is and NULL is returned.
def append (itemSize : Nat) (realloc : Bool) (vec : Vec α) (more : List α) : Except Fault (Bool × Vec α) :=
  match newCapacity (vec.items.length + more.length) (vec.items.length + more.length) vec.capacity with
  | none => .error .diverges
  | some capacity =>
    if vec.capacity < capacity then
      if !realloc then .ok (false,vec)
      else if capacity * itemSize < (vec.items.length + more.length) * itemSize then .error .overrun
      else .ok (true,⟨capacity,capacity * itemSize,vec.items ++ more⟩)
    else if vec.room < (vec.items.length + more.length) * itemSize then .error .overrun
    else .ok (true,{vec with items:=vec.items ++ more})

section Growing

variable {needed capacity : Nat} {vec : Vec α} {more : List α}

lemma newCapacity_enough (rounds : Nat) (enough : needed ≤ capacity) : newCapacity needed rounds capacity = some capacity := by
  cases rounds with
  | zero => exact if_neg (not_lt.mpr enough)
  | succ rounds => exact if_neg (not_lt.mpr enough)

lemma newCapacity_zero (rounds : Nat) (positive : 0 < needed) : newCapacity needed rounds 0 = none := by
  induction rounds with
  | zero => exact if_pos positive
  | succ rounds ih => rw [newCapacity,if_pos positive,Nat.zero_mul,ih]

lemma newCapacity_some (needed rounds : Nat) (positive : 0 < capacity) (reaches : needed ≤ capacity + rounds) :
    ∃ larger, newCapacity needed rounds capacity = some larger ∧ needed ≤ larger ∧ capacity ≤ larger := by
  induction rounds generalizing capacity with
  | zero => exact ⟨capacity,newCapacity_enough 0 reaches,reaches,le_rfl⟩
  | succ rounds ih =>
    by_cases enough : needed ≤ capacity
    · exact ⟨capacity,newCapacity_enough _ enough,enough,le_rfl⟩
    · have positive : 0 < capacity * 2 := by omega
      obtain ⟨larger,found,fits,grown⟩ := ih positive (by omega)
      refine ⟨larger,?_,fits,by omega⟩
      rw [newCapacity,if_pos (not_le.mp enough),found]

lemma newCapacity_least (found : newCapacity needed rounds capacity = some larger) :
    needed ≤ larger ∧ (∃ doublings, larger = capacity * 2^doublings) ∧ ∀ doublings, needed ≤ capacity * 2^doublings → larger ≤ capacity * 2^doublings := by
  have at_once {capacity : Nat} (enough : ¬capacity < needed) (same : some capacity = some larger) :
      needed ≤ larger ∧ (∃ doublings, larger = capacity * 2^doublings) ∧ ∀ doublings, needed ≤ capacity * 2^doublings → larger ≤ capacity * 2^doublings := by
    cases same
    exact ⟨not_lt.mp enough,⟨0,by simp⟩,fun doublings _ => Nat.le_mul_of_pos_right _ (Nat.two_pow_pos doublings)⟩
  induction rounds generalizing capacity with
  | zero =>
    rw [newCapacity] at found
    split at found
    · cases found
    · exact at_once ‹_› found
  | succ rounds ih =>
    rw [newCapacity] at found
    split at found
    · rename_i short
      obtain ⟨enough,⟨doublings,same⟩,least⟩ := ih found
      refine ⟨enough,⟨doublings + 1,by rw [same,Nat.pow_succ',Nat.mul_assoc]⟩,?_⟩
      intro other fits
      cases other with
      | zero =>
        rw [Nat.pow_zero,Nat.mul_one] at fits
        exact absurd fits (not_le.mpr short)
      | succ other =>
        rw [Nat.pow_succ',← Nat.mul_assoc] at fits ⊢
        exact least other fits
    · exact at_once ‹_› found

lemma append_inside (itemSize : Nat) (realloc : Bool) (enough : vec.items.length + more.length ≤ vec.capacity) :
    append itemSize realloc vec more =
      if vec.room < (vec.items.length + more.length) * itemSize then .error .overrun else .ok (true,{vec with items:=vec.items ++ more}) := by
  rw [append,newCapacity_enough _ enough]
  exact if_neg (Nat.lt_irrefl _)

lemma append_grows (itemSize : Nat) (realloc : Bool) (positive : 0 < vec.capacity) (beyond : vec.capacity < vec.items.length + more.length) :
    ∃ larger, vec.capacity < larger ∧ vec.items.length + more.length ≤ larger ∧
      newCapacity (vec.items.length + more.length) (vec.items.length + more.length) vec.capacity = some larger ∧
      append itemSize realloc vec more = if !realloc then .ok (false,vec) else .ok (true,⟨larger,larger * itemSize,vec.items ++ more⟩) := by
  obtain ⟨larger,found,fits,_⟩ := newCapacity_some (vec.items.length + more.length) (vec.items.length + more.length) positive (by omega)
  have grown : vec.capacity < larger := by omega
  refine ⟨larger,grown,fits,found,?_⟩
  rw [append,found]
  dsimp only
  rw [if_pos grown,if_neg (not_lt.mpr (Nat.mul_le_mul_right itemSize fits))]

lemma append_zero (itemSize : Nat) (realloc : Bool) (bare : vec.capacity = 0) (some_ : more ≠ []) : append itemSize realloc vec more = .error .diverges := by
  have positive : 0 < vec.items.length + more.length := Nat.add_pos_right _ (List.length_pos_of_ne_nil some_)
  rw [append,bare,newCapacity_zero _ positive]

end Growing

end MedvedDB.Vector
