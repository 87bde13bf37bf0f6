import MedvedDB.Prelude

open List
namespace MedvedDB.SortedSets

abbrev U32 := Fin (2^32)

-- The loop of mdv_diff_u32 and of mdv_exclude over what is left of the two arrays.
def diff (cmp : α → β → Int) : List α → List β → List α
  | [],_ => []
  | item::a,[] => item::a
  | item::a,other::b =>
    if cmp item other < 0 then item::diff cmp a (other::b)
    else if cmp item other = 0 then diff cmp a b
    else diff cmp (item::a) b
termination_by a b => a.length + b.length

def compareU32 (x y : U32) : Int := if x < y then -1 else if x = y then 0 else 1

def diffU32 (a b : List U32) : List U32 × Nat := (diff compareU32 a b,(diff compareU32 a b).length % 2^32)

def union : List U32 → List U32 → List U32
  | [],b => b
  | item::a,[] => item::a
  | item::a,other::b =>
    if other < item then other::union (item::a) b
    else if item = other then item::union a b
    else item::union a (other::b)
termination_by a b => a.length + b.length

def unionU32 (a b : List U32) : List U32 × Nat := (union a b,(union a b).length % 2^32)

-- mdv_exclude works in the array itself, out is the place of set_out and ai the one
-- of set_a. Once b is exhausted its inner loop copies one item a turn too.
def excludeLoop (cmp : α → β → Int) (array : List α) (out ai : Nat) (b : List β) : List α × Nat :=
  if inside : ai < array.length then
    match b with
    | [] => excludeLoop cmp (array.set out array[ai]) (out + 1) (ai + 1) []
    | other::b =>
      if cmp array[ai] other < 0 then excludeLoop cmp (array.set out array[ai]) (out + 1) (ai + 1) (other::b)
      else if cmp array[ai] other = 0 then excludeLoop cmp array out (ai + 1) b
      else excludeLoop cmp array out ai b
  else (array,out)
termination_by array.length - ai + b.length
decreasing_by all_goals simp only [length_set,length_cons,length_nil]; omega

def exclude (cmp : α → β → Int) (a : List α) (b : List β) : List α × Nat :=
  ((excludeLoop cmp a 0 0 b).1,(excludeLoop cmp a 0 0 b).2 % 2^32)

structure Array32 where
  items : List U32
  sorted : items.Pairwise (· ≤ ·)
  sized : items.length < 2^32

structure Keys (α β γ : Type) [LinearOrder γ] where
  cmp : α → β → Int
  left : α → γ
  right : β → γ
  less : ∀ x y, cmp x y < 0 ↔ left x < right y
  equal : ∀ x y, cmp x y = 0 ↔ left x = right y

structure Sets (α β γ : Type) [LinearOrder γ] extends Keys α β γ where
  a : List α
  b : List β
  sorted_a : (a.map left).Pairwise (· ≤ ·)
  sorted_b : (b.map right).Pairwise (· ≤ ·)

def Sets.difference [LinearOrder γ] (sets : Sets α β γ) : Multiset γ := ↑(sets.a.map sets.left) - ↑(sets.b.map sets.right)

def DiffRight (a b : Array32) : Prop :=
  let written := diffU32 a.items b.items
  written.1.Pairwise (· ≤ ·) ∧ (written.1 : Multiset U32) = ↑a.items - ↑b.items ∧ written.2 = written.1.length

def UnionRight (a b : Array32) : Prop :=
  let written := unionU32 a.items b.items
  written.1.Pairwise (· ≤ ·) ∧ (written.1 : Multiset U32) = ↑a.items ∪ ↑b.items ∧ written.2 = written.1.length

def ExcludeRight [LinearOrder γ] (sets : Sets α β γ) : Prop :=
  ∃ kept, kept <+ sets.a ∧ (↑(kept.map sets.left) : Multiset γ) = sets.difference ∧
    kept <+: (exclude sets.cmp sets.a sets.b).1 ∧ (exclude sets.cmp sets.a sets.b).2 = kept.length

lemma count_smaller [LinearOrder γ] {x y key : γ} (sorted : (y::rest).Pairwise (· ≤ ·)) (smaller : x < y) (same : x == key) :
    (y::rest).count key = 0 := by
  apply count_eq_zero.mpr
  intro member
  rw [← eq_of_beq same] at member
  rcases mem_cons.mp member with rfl | later
  · exact lt_irrefl _ smaller
  · exact absurd ((pairwise_cons.mp sorted).1 x later) (not_le.mpr smaller)

lemma diff_sublist (cmp : α → β → Int) (a : List α) (b : List β) : diff cmp a b <+ a := by
  fun_induction diff cmp a b with
  | case1 => exact Sublist.refl _
  | case2 => exact Sublist.refl _
  | case3 item a other b below ih => exact ih.cons_cons item
  | case4 item a other b _ same ih => exact ih.cons item
  | case5 item a other b _ _ ih => exact ih

lemma diff_count [LinearOrder γ] (keys : Keys α β γ) (a : List α) (b : List β) (sorted_a : (a.map keys.left).Pairwise (· ≤ ·))
    (sorted_b : (b.map keys.right).Pairwise (· ≤ ·)) (key : γ) :
    ((diff keys.cmp a b).map keys.left).count key = (a.map keys.left).count key - (b.map keys.right).count key := by
  fun_induction diff keys.cmp a b with
  | case1 b => exact (Nat.zero_sub _).symm
  | case2 item a => rfl
  | case3 item a other b below ih =>
    rw [map_cons,map_cons,count_cons,count_cons,ih (pairwise_cons.mp sorted_a).2 sorted_b]
    split
    · rename_i same
      rw [map_cons,count_smaller sorted_b ((keys.less item other).mp below) same]
      rfl
    · rfl
  | case4 item a other b _ same ih =>
    rw [ih (pairwise_cons.mp sorted_a).2 (pairwise_cons.mp sorted_b).2]
    rw [map_cons,map_cons,count_cons,count_cons,(keys.equal item other).mp same]
    exact (Nat.add_sub_add_right _ _ _).symm
  | case5 item a other b above differ ih =>
    rw [ih sorted_a (pairwise_cons.mp sorted_b).2,map_cons,map_cons,count_cons (l := b.map keys.right)]
    split
    · rename_i same
      have after := lt_of_le_of_ne (not_lt.mp (mt (keys.less item other).mpr above)) fun same => differ ((keys.equal item other).mpr same.symm)
      rw [count_smaller sorted_a after same,Nat.zero_sub,Nat.zero_sub]
    · rfl

lemma union_count (a b : List U32) (sorted_a : a.Pairwise (· ≤ ·)) (sorted_b : b.Pairwise (· ≤ ·)) (key : U32) :
    (union a b).count key = max (a.count key) (b.count key) := by
  fun_induction union a b with
  | case1 b => exact (Nat.zero_max _).symm
  | case2 item a => exact (Nat.max_zero _).symm
  | case3 item a other b below ih =>
    rw [count_cons,ih sorted_a (pairwise_cons.mp sorted_b).2,count_cons (l := b)]
    split
    · rename_i same
      rw [count_smaller sorted_a below same,Nat.zero_max,Nat.zero_max]
    · rfl
  | case4 a other b _ ih =>
    rw [count_cons,ih (pairwise_cons.mp sorted_a).2 (pairwise_cons.mp sorted_b).2,count_cons,count_cons]
    exact (Nat.add_max_add_right _ _ _).symm
  | case5 item a other b above differ ih =>
    rw [count_cons,ih (pairwise_cons.mp sorted_a).2 sorted_b,count_cons (l := a)]
    split
    · rename_i same
      rw [count_smaller sorted_b (lt_of_le_of_ne (not_lt.mp above) differ) same,Nat.max_zero,Nat.max_zero]
    · rfl

lemma union_chain (a b : List U32) (low : U32) (sorted_a : IsChain (· ≤ ·) (low::a)) (sorted_b : IsChain (· ≤ ·) (low::b)) :
    IsChain (· ≤ ·) (low::union a b) := by
  fun_induction union a b generalizing low with
  | case1 b => exact sorted_b
  | case2 item a => exact sorted_a
  | case3 item a other b below ih =>
    obtain ⟨first,rest⟩ := isChain_cons_cons.mp sorted_b
    exact isChain_cons_cons.mpr ⟨first,ih other (isChain_cons_cons.mpr ⟨le_of_lt below,(isChain_cons_cons.mp sorted_a).2⟩) rest⟩
  | case4 a other b _ ih =>
    obtain ⟨first,rest⟩ := isChain_cons_cons.mp sorted_a
    exact isChain_cons_cons.mpr ⟨first,ih other rest (isChain_cons_cons.mp sorted_b).2⟩
  | case5 item a other b above differ ih =>
    obtain ⟨first,rest⟩ := isChain_cons_cons.mp sorted_a
    exact isChain_cons_cons.mpr ⟨first,ih item rest (isChain_cons_cons.mpr ⟨not_lt.mp above,(isChain_cons_cons.mp sorted_b).2⟩)⟩

lemma union_sorted (a b : Array32) : (union a.items b.items).Pairwise (· ≤ ·) := by
  have from_zero {items : List U32} (sorted : items.Pairwise (· ≤ ·)) : IsChain (· ≤ ·) (0::items) :=
    isChain_iff_pairwise.mpr (pairwise_cons.mpr ⟨fun item _ => Fin.zero_le item,sorted⟩)
  exact (pairwise_cons.mp (isChain_iff_pairwise.mp (union_chain _ _ 0 (from_zero a.sorted) (from_zero b.sorted)))).2

lemma diff_nil (cmp : α → β → Int) (a : List α) : diff cmp a [] = a := by
  cases a with
  | nil => rw [diff]
  | cons item a => rw [diff]

lemma copied (array : List α) (inside : ai < array.length) (behind : out ≤ ai) :
    (array.set out array[ai]).take (out + 1) = array.take out ++ [array[ai]] ∧
      (array.set out array[ai]).drop (ai + 1) = array.drop (ai + 1) := by
  constructor
  · rw [take_succ_eq_append_getElem (by rw [length_set]; omega),getElem_set_self,take_set_of_le (Nat.le_refl _)]
  · rw [drop_set_of_lt (by omega)]

lemma excludeLoop_diff (cmp : α → β → Int) (array : List α) (out ai : Nat) (b : List β) (behind : out ≤ ai) :
    array.take out ++ diff cmp (array.drop ai) b <+: (excludeLoop cmp array out ai b).1 ∧
      (excludeLoop cmp array out ai b).2 = out + (diff cmp (array.drop ai) b).length := by
  fun_induction excludeLoop cmp array out ai b with
  | case1 array out ai inside ih =>
    obtain ⟨front,rest⟩ := copied array inside behind
    obtain ⟨placed,number⟩ := ih (by omega)
    rw [front,rest,diff_nil,append_assoc] at placed
    rw [diff_nil,drop_eq_getElem_cons inside,number,rest,diff_nil,length_cons]
    exact ⟨placed,by omega⟩
  | case2 array out ai inside other b below ih =>
    obtain ⟨front,rest⟩ := copied array inside behind
    obtain ⟨placed,number⟩ := ih (by omega)
    rw [front,rest,append_assoc] at placed
    rw [drop_eq_getElem_cons inside,diff,if_pos below,number,rest,length_cons]
    exact ⟨placed,by omega⟩
  | case3 array out ai inside other b above same ih =>
    rw [drop_eq_getElem_cons inside,diff,if_neg above,if_pos same]
    exact ih (by omega)
  | case4 array out ai inside other b above differ ih =>
    rw [drop_eq_getElem_cons inside,diff,if_neg above,if_neg differ,← drop_eq_getElem_cons inside]
    exact ih behind
  | case5 array out ai b ended =>
    rw [drop_eq_nil_iff.mpr (not_lt.mp ended),diff,append_nil]
    exact ⟨ take_prefix _ _,rfl⟩

def keysU32 : Keys U32 U32 U32 where
  cmp := compareU32
  left := id
  right := id
  less := fun x y => by unfold compareU32; grind
  equal := fun x y => by unfold compareU32; grind

lemma diffU32_right (a b : Array32) : DiffRight a b := by
  have shorter := (diff_sublist compareU32 a.items b.items).length_le
  have counts := diff_count keysU32 a.items b.items
  simp only [keysU32,map_id] at counts
  refine ⟨a.sorted.sublist (diff_sublist _ _ _),?_,mod_eq_of_lt (lt_of_le_of_lt shorter a.sized)⟩
  ext key
  simp only [Multiset.count_sub,Multiset.coe_count]
  exact counts a.sorted b.sorted key

lemma unionU32_right_iff (a b : Array32) : UnionRight a b ↔ (a.items ∪ b.items : Multiset U32).card < 2^32 := by
  have same : (↑(union a.items b.items) : Multiset U32) = ↑a.items ∪ ↑b.items := by
    ext key
    simp only [Multiset.count_union,Multiset.coe_count]
    exact union_count _ _ a.sorted b.sorted key
  rw [← same,Multiset.coe_card]
  constructor
  · intro right
    rw [← show _ = (union a.items b.items).length from right.2.2]
    exact mod_lt _ (by decide)
  · intro small
    exact ⟨union_sorted a b,same,mod_eq_of_lt small⟩

lemma exclude_right_iff [LinearOrder γ] (sets : Sets α β γ) : ExcludeRight sets ↔ sets.difference.card < 2^32 := by
  obtain ⟨placed,number⟩ := excludeLoop_diff sets.cmp sets.a 0 0 sets.b (Nat.le_refl _)
  have same : (↑((diff sets.cmp sets.a sets.b).map sets.left) : Multiset γ) = sets.difference := by
    ext key
    simp only [Sets.difference,Multiset.count_sub,Multiset.coe_count]
    exact diff_count sets.toKeys _ _ sets.sorted_a sets.sorted_b key
  have length : (diff sets.cmp sets.a sets.b).length = sets.difference.card := by
    rw [← same,Multiset.coe_card,length_map]
  rw [drop_zero,Nat.zero_add,length] at number
  constructor
  · rintro ⟨kept,_,whole,_,returned⟩
    rw [← whole,Multiset.coe_card,length_map,← returned]
    exact mod_lt _ (by decide)
  · intro small
    refine ⟨_,diff_sublist _ _ _,same,placed,?_⟩
    rw [length,exclude,number]
    exact mod_eq_of_lt small

theorem sorted_sets_right_iff [LinearOrder γ] (a b : Array32) (sets : Sets α β γ) :
    DiffRight a b ∧ UnionRight a b ∧ ExcludeRight sets ↔ (a.items ∪ b.items : Multiset U32).card < 2^32 ∧ sets.difference.card < 2^32 := by
  rw [unionU32_right_iff,exclude_right_iff]
  exact and_iff_right (diffU32_right a b)

def equalItems (number : Nat) : Sets U32 U32 U32 where
  toKeys := keysU32
  a := replicate number 0
  b := []
  sorted_a := by
    rw [map_replicate]
    exact pairwise_replicate.mpr (.inr (le_refl _))
  sorted_b := Pairwise.nil

lemma equalItems_returned (number : Nat) : (exclude keysU32.cmp (equalItems number).a []).2 = number % 2^32 ∧
    (equalItems number).difference.card = number := by
  have returned := (excludeLoop_diff keysU32.cmp (replicate number 0) 0 0 ([] : List U32) (Nat.le_refl _)).2
  rw [drop_zero,diff_nil,length_replicate,Nat.zero_add] at returned
  refine ⟨congrArg (· % 2^32) returned,?_⟩
  show ((↑((replicate number (0 : U32)).map id) : Multiset U32) - 0).card = number
  rw [Multiset.sub_zero,Multiset.coe_card,length_map,length_replicate]

theorem many_items_none_returned :
    (exclude keysU32.cmp (equalItems (2^32)).a []).2 = 0 ∧ ¬ExcludeRight (equalItems (2^32)) := by
  obtain ⟨returned,all⟩ := equalItems_returned (2^32)
  rw [exclude_right_iff,all,returned,Nat.mod_self]
  exact ⟨rfl,lt_irrefl _⟩

end MedvedDB.SortedSets
