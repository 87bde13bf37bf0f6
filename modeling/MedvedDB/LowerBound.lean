import MedvedDB.Prelude

namespace MedvedDB.LowerBound

inductive Fault where
  | outside | endless
  deriving DecidableEq, Repr

-- cmp(key, c) for the item at an index, which can be -1.
def diff (cmp : α → α → Int) (key : α) (arr : List α) : Int → Except Fault Int
  | .ofNat place =>
    match arr[place]? with
    | none => .error .outside
    | some item => .ok (cmp key item)
  | .negSucc _ => .error .outside

def search (cmp : α → α → Int) (key : α) (arr : List α) : Nat → Int → Int → Except Fault Int
  | 0,_,_ => .error .endless
  | fuel+1,a,b =>
    if b > a then
      match diff cmp key arr (a + (b - a) / 2) with
      | .error fault => .error fault
      | .ok diff =>
        if diff < 0 then search cmp key arr fuel a (a + (b - a) / 2 - 1)
        else if diff > 0 then search cmp key arr fuel (a + (b - a) / 2 + 1) b
        else .ok (a + (b - a) / 2)
    else (diff cmp key arr b).map fun diff => if diff > 0 then b + 1 else b

-- The index of what is returned, none for NULL. b - a falls with every turn.
def lowerBound (cmp : α → α → Int) (key : α) (arr : List α) : Except Fault (Option Int) :=
  if arr.length = 0 then .ok none else (search cmp key arr (arr.length + 1) 0 (arr.length - 1)).map some

structure Sorted (α : Type) where
  cmp : α → α → Int
  turned : ∀ x y, 0 < cmp x y ↔ cmp y x < 0
  trans : ∀ x y z, cmp x y ≤ 0 → cmp y z ≤ 0 → cmp x z ≤ 0
  items : List α
  filled : items ≠ []
  sorted : items.Pairwise (cmp · · ≤ 0)

-- The first item that is not less than the key, and the first that is greater.
def Sorted.first (arr : Sorted α) (key : α) : Nat := arr.items.findIdx fun item => arr.cmp key item ≤ 0
def Sorted.after (arr : Sorted α) (key : α) : Nat := arr.items.findIdx fun item => arr.cmp key item < 0

-- If the bisection comes to an item equal to the key, it comes to the first of them
-- before the others.
def comesFirst (first after : Nat) : Nat → Int → Int → Bool
  | 0,_,_ => true
  | fuel+1,a,b =>
    if b > a then
      if after ≤ a + (b - a) / 2 then comesFirst first after fuel a (a + (b - a) / 2 - 1)
      else if a + (b - a) / 2 < first then comesFirst first after fuel (a + (b - a) / 2 + 1) b
      else a + (b - a) / 2 = first
    else true

-- Halving from b on steps over 0.
def Falls (b : Int) : Prop := b = -1 ∨ ∃ k, 3 * 2^k ≤ b + 2 ∧ b + 2 < 4 * 2^k

lemma falls_half {b : Int} (many : 0 < b) : Falls (b / 2 - 1) ↔ Falls b := by
  constructor
  · rintro (last | ⟨k,low,high⟩)
    · exact .inr ⟨0,by omega,by omega⟩
    · exact .inr ⟨k + 1,by rw [pow_succ]; omega,by rw [pow_succ]; omega⟩
  · rintro (last | ⟨k,low,high⟩)
    · omega
    · cases k with
      | zero => exact .inl (by omega)
      | succ k =>
        rw [pow_succ] at low high
        exact .inr ⟨k,by omega,by omega⟩

lemma falls_low : Falls (-1) ∧ ¬Falls 0 := by
  refine ⟨.inl rfl,?_⟩
  rintro (last | ⟨k,low,_⟩)
  · omega
  · have := pow_pos (show (0 : Int) < 2 by decide) k
    omega

section Search

variable (arr : Sorted α) (key : α)

lemma Sorted.findIdx_le (p : α → Bool) (kept : ∀ x y, arr.cmp x y ≤ 0 → p x = true → p y = true) (inside : place < arr.items.length) :
    arr.items.findIdx p ≤ place ↔ p arr.items[place] = true := by
  constructor
  · intro reached
    have found := List.findIdx_getElem (w := lt_of_le_of_lt reached inside)
    rcases Nat.lt_or_eq_of_le reached with before | same
    · exact kept _ _ (List.pairwise_iff_getElem.mp arr.sorted _ _ _ inside before) found
    · simpa only [same] using found
  · intro holds
    apply not_lt.mp
    intro before
    exact eq_false_iff.mp (List.not_of_lt_findIdx before) holds

lemma diff_place (place : Nat) (inside : place < arr.items.length) :
    ∃ d, diff arr.cmp key arr.items place = .ok d ∧ (d > 0 ↔ place < arr.first key) ∧ (d < 0 ↔ arr.after key ≤ place) := by
  refine ⟨arr.cmp key arr.items[place],?_,?_,?_⟩
  · show (match arr.items[place]? with | none => Except.error Fault.outside | some item => .ok (arr.cmp key item)) = _
    rw [getElem?_eq_getElem inside]
  · have kept := arr.findIdx_le (fun item => arr.cmp key item ≤ 0) (fun x y below low => by
      simp only [decide_eq_true_eq] at low ⊢
      exact arr.trans _ _ _ low below) inside
    rw [decide_eq_true_eq] at kept
    rw [gt_iff_lt,← not_le,← kept,not_le]
    rfl
  · have kept := arr.findIdx_le (fun item => arr.cmp key item < 0) (fun x y below low => by
      simp only [decide_eq_true_eq,← arr.turned,← not_le] at low ⊢
      exact fun back => low (arr.trans _ _ _ below back)) inside
    rw [decide_eq_true_eq] at kept
    exact kept.symm

lemma first_le_after : arr.first key ≤ arr.after key := by
  apply List.findIdx_le_findIdx
  intro item _ less
  simp only [decide_eq_true_eq] at less ⊢
  omega

lemma search_right_iff (fuel : Nat) (a b : Int) (low : 0 ≤ a) (front : a ≤ arr.first key) (back : arr.after key ≤ b + 1)
    (inside : b < arr.items.length) (enough : b + 1 - a < fuel) :
    search arr.cmp key arr.items fuel a b = .ok (arr.first key : Int) ↔
      comesFirst (arr.first key) (arr.after key) fuel a b = true ∧ (arr.after key = 0 → ¬Falls b) := by
  have ordered := first_le_after arr key
  induction fuel generalizing a b with
  | zero => omega
  | succ fuel ih =>
    rw [search,comesFirst]
    by_cases more : b > a
    · rw [if_pos more,if_pos more]
      obtain ⟨c,middle⟩ := Int.eq_ofNat_of_zero_le (show 0 ≤ a + (b - a) / 2 by omega)
      obtain ⟨d,read,above,below⟩ := diff_place arr key c (by omega)
      rw [middle,read]
      simp only [Nat.cast_le,Nat.cast_lt,← below,← above]
      by_cases less : d < 0
      · rw [if_pos less,if_pos less]
        apply (ih a (c - 1) low front (by omega) (by omega) (by omega)).trans
        refine and_congr_right fun _ => imp_congr_right fun none => not_congr ?_
        rw [← falls_half (b := b) (by omega),show (c : Int) - 1 = b / 2 - 1 by omega]
      · rw [if_neg less,if_neg less]
        by_cases greater : d > 0
        · rw [if_pos greater,if_pos greater]
          exact ih (c + 1) b (by omega) (by omega) back inside (by omega)
        · rw [if_neg greater,if_neg greater,Except.ok.injEq,decide_eq_true_eq]
          exact (and_iff_left fun none => by omega).symm
    · rw [if_neg more,if_neg more]
      by_cases under : b = -1
      · subst under
        have empty : arr.after key = 0 := by omega
        exact ⟨fun found => (nomatch found),fun right => absurd falls_low.1 (right.2 empty)⟩
      · obtain ⟨last,place⟩ := Int.eq_ofNat_of_zero_le (show 0 ≤ b by omega)
        obtain ⟨d,read,above,_⟩ := diff_place arr key last (by omega)
        rw [place,read]
        have answer : (if d > 0 then (last : Int) + 1 else last) = arr.first key := by
          split
          · omega
          · omega
        refine iff_of_true (congrArg Except.ok answer) ⟨rfl,fun empty => ?_⟩
        rw [show (last : Int) = 0 by omega]
        exact falls_low.2

end Search

def integers (items : List Int) (filled : items ≠ []) (sorted : items.Pairwise (· - · ≤ 0)) : Sorted Int :=
  ⟨fun x y => x - y,fun x y => by omega,fun x y z => by omega,items,filled,sorted⟩

def pair : Sorted Int := integers [5,7] (by decide) (by decide)
def triple : Sorted Int := integers [5,5,5] (by decide) (by decide)

end MedvedDB.LowerBound
