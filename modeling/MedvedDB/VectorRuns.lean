import MedvedDB.Vector

namespace MedvedDB.Vector

variable {α : Type}

-- The new items are zero bytes.
def resize (itemSize : Nat) (zero : α) (realloc : Bool) (vec : Vec α) (n : Nat) : Except Fault (Bool × Vec α) :=
  if n ≤ vec.items.length then .ok (true,{vec with items:=vec.items.take n})
  else if n ≤ vec.capacity then
    if vec.room < n * itemSize then .error .overrun
    else .ok (true,{vec with items:=vec.items ++ replicate (n - vec.items.length) zero})
  else append itemSize realloc vec (replicate (n - vec.items.length) zero)

-- One round of the loop of mdv_vector_erase: the item at src is copied to the one before.
def moveDown (items : List α) (src : Nat) : List α :=
  match items[src]? with
  | none => items
  | some item => items.set (src - 1) item

-- The pointer is given by its distance to the data. One that is not inside the items, or
-- not at the beginning of one, is refused.
def erase (itemSize : Nat) (vec : Vec α) (item : Int) : Vec α :=
  if 0 ≤ item ∧ item < itemSize * vec.items.length then
    let idx := item.toNat / itemSize
    if idx * itemSize = item.toNat then
      let moved := (range' (idx + 1) (vec.items.length - (idx + 1))).foldl moveDown vec.items
      {vec with items:=moved.take (vec.items.length - 1)}
    else vec
  else vec

def clear (vec : Vec α) : Vec α := {vec with items:=[]}

def clone (itemSize : Nat) (alloc : Bool) (vec : Vec α) (capacity : Nat) : Except Fault (Vec α) :=
  if !alloc then .error .nothing
  else
    let new : Vec α := create itemSize (if capacity < vec.items.length then vec.items.length else capacity)
    if new.room < itemSize * vec.items.length then .error .overrun else .ok {new with items:=vec.items}

inductive Op (α : Type) where
  | pushBack (item : α)
  | append (items : List α)
  | resize (n : Nat)
  | erase (item : Int)
  | clear
  | clone (capacity : Nat)

def exec (itemSize : Nat) (zero : α) (vec : Vec α) : Op α → Except Fault (Bool × Vec α)
  | .pushBack item => Vector.append itemSize true vec [item]
  | .append items => Vector.append itemSize true vec items
  | .resize n => Vector.resize itemSize zero true vec n
  | .erase item => .ok (true,Vector.erase itemSize vec item)
  | .clear => .ok (true,Vector.clear vec)
  | .clone capacity => (Vector.clone itemSize true vec capacity).map fun new => (true,new)

def run (itemSize : Nat) (zero : α) (vec : Vec α) : List (Op α) → Except Fault (Vec α)
  | [] => .ok vec
  | op::ops =>
    match exec itemSize zero vec op with
    | .error fault => .error fault
    | .ok (_,vec) => run itemSize zero vec ops

def onList (itemSize : Nat) (zero : α) (items : List α) : Op α → List α
  | .pushBack item => items ++ [item]
  | .append more => items ++ more
  | .resize n => items.take n ++ replicate (n - items.length) zero
  | .erase item => if 0 ≤ item ∧ item.toNat % itemSize = 0 then items.eraseIdx (item.toNat / itemSize) else items
  | .clear => []
  | .clone _ => items

def asks (asked : Nat) (items : List α) : Op α → Nat
  | .clone capacity => max capacity items.length
  | _ => asked

-- A vector made with a capacity of 0 holds nothing, and one whose bytes are 2^64 or more
-- has less memory than it counts with.
def Carries (itemSize asked count : Nat) : Prop :=
  count = 0 ∨ asked ≠ 0 ∧ (asked * itemSize < 2^64 ∨ count * itemSize ≤ asked * itemSize % 2^64)

def Supported (itemSize : Nat) (zero : α) : Nat → List α → List (Op α) → Prop
  | _,_,[] => True
  | asked,items,op::ops => Carries itemSize (asks asked items op) (onList itemSize zero items op).length ∧
      Supported itemSize zero (asks asked items op) (onList itemSize zero items op) ops

section Erasing

lemma moved_eq (front back : List α) (gone : α) :
    (range' (front.length + 1) back.length).foldl moveDown (front ++ gone::back) = front ++ back ++ [(gone::back).getLast (cons_ne_nil _ _)] := by
  induction back generalizing front gone with
  | nil => simp
  | cons next rest ih =>
    have round : moveDown (front ++ gone::next::rest) (front.length + 1) = (front ++ [next]) ++ next::rest := by
      have found : (front ++ gone::next::rest)[front.length + 1]? = some next := by simp
      simp only [moveDown,found,Nat.add_sub_cancel]
      simp
    have later := ih (front ++ [next]) next
    rw [length_append,length_singleton] at later
    rw [length_cons,range'_succ,foldl_cons,round,later]
    simp

lemma moved_take (items : List α) (within : idx < items.length) :
    ((range' (idx + 1) (items.length - (idx + 1))).foldl moveDown items).take (items.length - 1) = items.eraseIdx idx := by
  obtain ⟨front,gone,back,rfl,rfl⟩ : ∃ front gone back, items = front ++ gone::back ∧ idx = front.length :=
    ⟨items.take idx,items[idx],items.drop (idx + 1),by rw [List.getElem_cons_drop,take_append_drop],by rw [length_take_of_le (Nat.le_of_lt within)]⟩
  have rounds : (front ++ gone::back).length - (front.length + 1) = back.length := by
    rw [length_append,length_cons]
    omega
  have kept : (front ++ gone::back).length - 1 = (front ++ back).length := by
    rw [length_append,length_append,length_cons]
    omega
  rw [rounds,moved_eq,kept,List.take_left,List.eraseIdx_append_of_length_le le_rfl,Nat.sub_self,List.eraseIdx_cons_zero]

lemma erase_eq (positive : 0 < itemSize) (zero : α) (vec : Vec α) (item : Int) :
    erase itemSize vec item = {vec with items:=onList itemSize zero vec.items (.erase item)} := by
  have aligned (offset : Nat) : offset / itemSize * itemSize = offset ↔ offset % itemSize = 0 := by
    rw [← Nat.dvd_iff_div_mul_eq,Nat.dvd_iff_mod_eq_zero]
  unfold erase onList
  by_cases low : 0 ≤ item
  · obtain ⟨offset,rfl⟩ := Int.eq_ofNat_of_zero_le low
    dsimp only [Int.toNat_natCast]
    by_cases high : (offset : Int) < itemSize * vec.items.length
    · have within : offset / itemSize < vec.items.length := by
        apply Nat.div_lt_of_lt_mul
        exact_mod_cast high
      rw [if_pos ⟨low,high⟩]
      by_cases start : offset % itemSize = 0
      · rw [if_pos ((aligned offset).mpr start),if_pos ⟨low,start⟩,moved_take vec.items within]
      · rw [if_neg fun same => start ((aligned offset).mp same),if_neg fun both => start both.2]
    · have beyond : vec.items.length ≤ offset / itemSize := by
        rw [Nat.le_div_iff_mul_le positive,Nat.mul_comm]
        exact_mod_cast not_lt.mp high
      rw [if_neg fun both => high both.2,List.eraseIdx_of_length_le beyond,ite_self]
  · rw [if_neg fun both => low both.1]
    dsimp only
    rw [if_neg fun both => low both.1]

end Erasing

-- The vector after some operations: its items, and the memory behind its capacity, which
-- is that of its creation or that of a later growth.
structure Stands (itemSize asked : Nat) (vec : Vec α) (items : List α) : Prop where
  same : vec.items = items
  inside : items.length ≤ vec.capacity
  carries : Carries itemSize asked items.length
  memory : (vec.capacity = asked ∧ vec.room = asked * itemSize % 2^64) ∨
    (0 < asked ∧ asked ≤ vec.capacity ∧ asked * itemSize < 2^64 ∧ vec.room = vec.capacity * itemSize)

def Proceeds (itemSize asked : Nat) (result : Except Fault (Bool × Vec α)) (items : List α) : Prop :=
  (Carries itemSize asked items.length → ∃ vec, result = .ok (true,vec) ∧ Stands itemSize asked vec items) ∧
    (¬Carries itemSize asked items.length → ∃ fault, result = .error fault)

section Steps

variable {itemSize asked : Nat} {vec : Vec α} {items : List α}

lemma create_stands (itemSize capacity : Nat) : Stands itemSize capacity (create itemSize capacity) ([] : List α) :=
  ⟨rfl,Nat.zero_le _,.inl rfl,.inl ⟨rfl,rfl⟩⟩

lemma Carries.less {count less : Nat} (carries : Carries itemSize asked count) (fewer : less ≤ count) : Carries itemSize asked less := by
  have bytes := Nat.mul_le_mul_right itemSize fewer
  unfold Carries at carries ⊢
  omega

lemma Stands.append (stands : Stands itemSize asked vec items) (small : (items ++ more).length * itemSize < 2^64) :
    Proceeds itemSize asked (Vector.append itemSize true vec more) (items ++ more) := by
  obtain ⟨rfl,inside,carries,memory⟩ := stands
  rw [length_append] at small
  unfold Proceeds
  rw [length_append]
  have product {one two : Nat} (less : one ≤ two) : one * itemSize ≤ two * itemSize := Nat.mul_le_mul_right itemSize less
  rcases Nat.lt_or_ge vec.capacity (vec.items.length + more.length) with beyond | enough
  · rcases Nat.eq_zero_or_pos vec.capacity with bare | positive
    · have some_ : more ≠ [] := by
        rintro rfl
        rw [length_nil] at beyond
        omega
      have never : ¬Carries itemSize asked (vec.items.length + more.length) := by
        unfold Carries
        omega
      exact ⟨fun carries => absurd carries never,fun _ => ⟨_,append_zero itemSize true bare some_⟩⟩
    · obtain ⟨larger,grown,fits,_,done⟩ := append_grows itemSize true positive beyond
      have least : asked ≤ vec.capacity := by omega
      have bytes := product (least.trans beyond.le)
      refine ⟨fun carries => ⟨_,done,rfl,?_,?_,.inr ⟨by omega,by dsimp only; omega,by omega,rfl⟩⟩,fun never => absurd ?_ never⟩
      · rwa [length_append]
      · rwa [length_append]
      · exact .inr ⟨by omega,.inl (by omega)⟩
  · have bytes := product enough
    have done := append_inside itemSize true enough
    by_cases short : vec.room < (vec.items.length + more.length) * itemSize
    · have never : ¬Carries itemSize asked (vec.items.length + more.length) := by
        rcases memory with ⟨same,room⟩ | ⟨_,_,_,room⟩
        · rw [same] at bytes
          have positive : vec.items.length + more.length ≠ 0 := by
            intro none_
            rw [none_,Nat.zero_mul] at short
            exact Nat.not_lt_zero _ short
          unfold Carries
          omega
        · omega
      rw [if_pos short] at done
      exact ⟨fun carries => absurd carries never,fun _ => ⟨_,done⟩⟩
    · rw [if_neg short] at done
      refine ⟨fun carries => ⟨_,done,rfl,?_,?_,memory⟩,fun never => absurd ?_ never⟩
      · rwa [length_append]
      · rwa [length_append]
      · unfold Carries
        omega

lemma resize_eq (zero : α) (more : vec.items.length < n) :
    resize itemSize zero true vec n = Vector.append itemSize true vec (replicate (n - vec.items.length) zero) := by
  have total : vec.items.length + (replicate (n - vec.items.length) zero).length = n := by
    rw [List.length_replicate]
    omega
  rw [resize,if_neg (not_le.mpr more)]
  split
  · rw [append_inside itemSize true (by rwa [total]),total]
  · rfl

lemma Stands.shorter (stands : Stands itemSize asked vec items) {fewer : List α} (less : fewer.length ≤ items.length) :
    Proceeds itemSize asked (.ok (true,{vec with items:=fewer})) fewer :=
  ⟨fun carries => ⟨_,rfl,rfl,less.trans stands.inside,carries,stands.memory⟩,fun never => absurd (stands.carries.less less) never⟩

lemma Stands.clone (stands : Stands itemSize asked vec items) (capacity : Nat) :
    Proceeds itemSize (max capacity items.length) ((Vector.clone itemSize true vec capacity).map fun new => (true,new)) items := by
  obtain ⟨rfl,inside,carries,memory⟩ := stands
  have larger : (if capacity < vec.items.length then vec.items.length else capacity) = max capacity vec.items.length := by
    split <;> omega
  have most := le_max_right capacity vec.items.length
  have bytes := Nat.mul_le_mul_right itemSize most
  unfold Vector.clone
  simp only [larger,Bool.not_true,false_eq_true,if_false,create]
  rw [Nat.mul_comm itemSize]
  generalize max capacity vec.items.length = wanted at most bytes ⊢
  by_cases short : wanted * itemSize % 2^64 < vec.items.length * itemSize
  · have never : ¬Carries itemSize wanted vec.items.length := by
      have positive : vec.items.length ≠ 0 := by
        intro none_
        rw [none_,Nat.zero_mul] at short
        exact Nat.not_lt_zero _ short
      unfold Carries
      omega
    rw [if_pos short]
    exact ⟨fun carries => absurd carries never,fun _ => ⟨_,rfl⟩⟩
  · rw [if_neg short]
    refine ⟨fun carries => ⟨_,rfl,rfl,most,carries,.inl ⟨rfl,rfl⟩⟩,fun never => absurd ?_ never⟩
    unfold Carries
    omega

lemma exec_proceeds (positive : 0 < itemSize) (zero : α) (stands : Stands itemSize asked vec items) (op : Op α)
    (small : (onList itemSize zero items op).length * itemSize < 2^64) :
    Proceeds itemSize (asks asked items op) (exec itemSize zero vec op) (onList itemSize zero items op) := by
  cases op with
  | pushBack item => exact stands.append small
  | append more => exact stands.append small
  | resize n =>
    simp only [onList,exec,asks] at small ⊢
    rcases Nat.lt_or_ge items.length n with more | fewer
    · rw [List.take_of_length_le more.le] at small ⊢
      rw [resize_eq zero (by rw [stands.same]; exact more),stands.same]
      exact stands.append small
    · have none_ : n - items.length = 0 := Nat.sub_eq_zero_of_le fewer
      rw [none_,List.replicate_zero,append_nil,resize,stands.same,if_pos fewer]
      exact stands.shorter (List.length_take_le' _ _)
  | erase item =>
    have fewer : (onList itemSize zero items (.erase item)).length ≤ items.length := by
      simp only [onList]
      split
      · exact List.length_eraseIdx_le _ _
      · exact le_rfl
    rw [exec,erase_eq positive zero,stands.same]
    exact stands.shorter fewer
  | clear => exact stands.shorter (Nat.zero_le _)
  | clone capacity => exact stands.clone capacity

end Steps

def Refines (itemSize : Nat) (zero : α) (vec : Vec α) (items : List α) (ops : List (Op α)) : Prop :=
  ∃ after, run itemSize zero vec ops = .ok after ∧ after.items = ops.foldl (onList itemSize zero) items

lemma run_refines_iff (positive : 0 < itemSize) (zero : α) (stands : Stands itemSize asked vec items)
    (ops : List (Op α)) (small : ∀ before, before <+: ops → (before.foldl (onList itemSize zero) items).length * itemSize < 2^64) :
    Refines itemSize zero vec items ops ↔ Supported itemSize zero asked items ops := by
  induction ops generalizing asked vec items with
  | nil => exact iff_of_true ⟨vec,rfl,stands.same⟩ trivial
  | cons op ops ih =>
    have smallHere := small [op] (List.cons_prefix_cons.mpr ⟨rfl,List.nil_prefix⟩)
    obtain ⟨goes,fails⟩ := exec_proceeds positive zero stands op smallHere
    unfold Refines Supported
    by_cases carries : Carries itemSize (asks asked items op) (onList itemSize zero items op).length
    · obtain ⟨after,done,standsAfter⟩ := goes carries
      simp only [run,done,foldl_cons,carries,true_and]
      apply ih standsAfter
      intro before beginning
      exact small (op::before) (List.cons_prefix_cons.mpr ⟨rfl,beginning⟩)
    · obtain ⟨fault,done⟩ := fails carries
      simp only [run,done,carries,false_and,iff_false]
      rintro ⟨_,contra,_⟩
      cases contra

end MedvedDB.Vector
