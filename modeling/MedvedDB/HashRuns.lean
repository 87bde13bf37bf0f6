import MedvedDB.HashLaws

namespace MedvedDB.HashMap

-- A hash function and a comparison function that agree: equal keys have equal hashes.
structure Keys (κ : Type) where
  hash : κ → Nat
  same : κ → κ → Bool
  refl : ∀ one, same one one = true
  symm : ∀ one two, same one two = true → same two one = true
  trans : ∀ one two three, same one two = true → same two three = true → same one three = true
  agree : ∀ one two, same one two = true → hash one = hash two

-- The remainder by a capacity of 0.
inductive Fault where
  | dividesByZero
  deriving DecidableEq, Repr

variable {β κ : Type}

namespace Keys

variable (keys : Keys κ) (key : β → κ)

def insertHere (table : Table β) (item : β) : Except Fault (Bool × Table β) :=
  if table.capacity = 0 then .error .dividesByZero
  else
    let index := keys.hash (key item) % table.capacity
    let bucket := table.buckets index
    .ok (true,⟨table.capacity,if bucket.any (fun entry => keys.same (key item) (key entry)) then table.size else table.size + 1,
      update table.buckets index (bucket.eraseP (fun entry => keys.same (key item) (key entry)) ++ [item])⟩)

def insert (table : Table β) (item : β) : Except Fault (Bool × Table β) :=
  if table.capacity * 3 / 4 < table.size then
    match resize key keys.hash table (table.capacity * 2) with
    | none => .ok (false,table)
    | some table => keys.insertHere key table item
  else keys.insertHere key table item

def find (table : Table β) (wanted : κ) : Option β :=
  if table.capacity = 0 then none
  else (table.buckets (keys.hash wanted % table.capacity)).find? fun entry => keys.same wanted (key entry)

def erase (table : Table β) (wanted : κ) : Bool × Table β :=
  if table.capacity = 0 then (false,table)
  else
    let index := keys.hash wanted % table.capacity
    let bucket := table.buckets index
    if bucket.any fun entry => keys.same wanted (key entry) then
      (true,⟨table.capacity,table.size - 1,update table.buckets index (bucket.eraseP fun entry => keys.same wanted (key entry))⟩)
    else (false,table)

end Keys

def clear (table : Table β) : Table β :=
  if table.size = 0 then table else {table with buckets:=fun index => if index < table.capacity then [] else table.buckets index}

inductive Op (β κ : Type) where
  | insert (item : β)
  | find (wanted : κ)
  | erase (wanted : κ)
  | resize (capacity : Nat)
  | clear

def exec (keys : Keys κ) (key : β → κ) (table : Table β) : Op β κ → Except Fault (Table β)
  | .insert item => (keys.insert key table item).map Prod.snd
  | .find _ => .ok table
  | .erase wanted => .ok (keys.erase key table wanted).2
  | .resize capacity => .ok ((resize key keys.hash table capacity).getD table)
  | .clear => .ok (HashMap.clear table)

def run (keys : Keys κ) (key : β → κ) (table : Table β) : List (Op β κ) → Except Fault (Table β)
  | [] => .ok table
  | op::ops =>
    match exec keys key table op with
    | .error fault => .error fault
    | .ok table => run keys key table ops

def onMap (keys : Keys κ) (key : β → κ) (items : List β) : Op β κ → List β
  | .insert item => items.filter (fun other => !keys.same (key item) (key other)) ++ [item]
  | .find _ => items
  | .erase wanted => items.filter fun other => !keys.same wanted (key other)
  | .resize _ => items
  | .clear => []

structure Refines (keys : Keys κ) (key : β → κ) (table : Table β) (items : List β) : Prop where
  find : ∀ wanted, keys.find key table wanted = items.find? fun item => keys.same wanted (key item)
  entries : (entries table).Perm items
  size : table.size = items.length

-- Nothing is inserted as long as there are no buckets.
def roomy : Nat → List (Op β κ) → Bool
  | _,[] => true
  | capacity,.insert _::ops => capacity != 0 && roomy capacity ops
  | capacity,.resize more::ops => roomy (if capacity = 0 then more else capacity) ops
  | capacity,_::ops => roomy capacity ops

def cleared (keys : Keys κ) (key : β → κ) : List β → List (Op β κ) → Nat
  | _,[] => 0
  | items,.clear::ops => items.length + cleared keys key [] ops
  | items,op::ops => cleared keys key (onMap keys key items op) ops

section Classes

variable (keys : Keys κ) (key : β → κ)

def Keys.setoid : Setoid κ := ⟨fun one two => keys.same one two = true,⟨keys.refl,fun {one two} => keys.symm one two,fun {one two three} => keys.trans one two three⟩⟩

abbrev Keys.Class : Type := Quotient keys.setoid

instance Keys.decideSame (one two : κ) : Decidable (keys.setoid one two) := inferInstanceAs (Decidable (keys.same one two = true))

instance : DecidableEq keys.Class := inferInstanceAs (DecidableEq (Quotient keys.setoid))

def Keys.classHash : keys.Class → Nat := Quotient.lift keys.hash keys.agree

def Keys.classOf (entry : β) : keys.Class := Quotient.mk keys.setoid (key entry)

lemma Keys.class_eq (wanted : κ) (entry : β) : decide (keys.classOf key entry = Quotient.mk keys.setoid wanted) = keys.same wanted (key entry) := by
  rw [Bool.eq_iff_iff,decide_eq_true_eq,eq_comm]
  exact Quotient.eq

lemma Keys.classes_eq (wanted : κ) :
    (fun entry => decide (keys.classOf key entry = Quotient.mk keys.setoid wanted)) = fun entry => keys.same wanted (key entry) :=
  funext (keys.class_eq key wanted)

lemma Keys.insertHere_eq (room : table.capacity ≠ 0) (item : β) :
    keys.insertHere key table item = .ok (true,put (keys.classOf key) keys.classHash table item) := by
  have chosen := keys.classes_eq key (key item)
  unfold Keys.insertHere put
  rw [if_neg room]
  simp only [← chosen]
  rfl

lemma Keys.find_eq (table : Table β) (wanted : κ) :
    keys.find key table wanted = HashMap.find (keys.classOf key) keys.classHash table (Quotient.mk keys.setoid wanted) := by
  have chosen := keys.classes_eq key wanted
  unfold Keys.find HashMap.find
  simp only [← chosen]
  rfl

lemma Keys.erase_eq (table : Table β) (wanted : κ) :
    (keys.erase key table wanted).2 = HashMap.erase (keys.classOf key) keys.classHash table (Quotient.mk keys.setoid wanted) := by
  have shape : HashMap.erase (keys.classOf key) keys.classHash table (Quotient.mk keys.setoid wanted) =
      if table.capacity = 0 then table
      else
        let bucket := table.buckets (keys.hash wanted % table.capacity)
        ⟨table.capacity,if bucket.any (fun entry => keys.same wanted (key entry)) then table.size - 1 else table.size,
          update table.buckets (keys.hash wanted % table.capacity) (bucket.eraseP fun entry => keys.same wanted (key entry))⟩ := by
    simp only [← keys.classes_eq key wanted]
    rfl
  rw [shape]
  unfold Keys.erase
  split
  · rfl
  · dsimp only
    split
    · rfl
    · rename_i absent
      have kept : (table.buckets (keys.hash wanted % table.capacity)).eraseP (fun entry => keys.same wanted (key entry)) =
          table.buckets (keys.hash wanted % table.capacity) := by
        apply List.eraseP_of_forall_not
        intro entry member chosen
        exact absent (any_eq_true.mpr ⟨entry,member,chosen⟩)
      rw [kept,Function.update_eq_self]

lemma Keys.filter_eq (items : List β) (wanted : κ) :
    items.filter (fun entry => decide (keys.classOf key entry ≠ Quotient.mk keys.setoid wanted)) = items.filter fun entry => !keys.same wanted (key entry) := by
  apply filter_congr
  intro entry _
  rw [decide_not,keys.class_eq]

end Classes

-- The table of a map: its size counts some items that were cleared away.
structure Stands (keys : Keys κ) (key : β → κ) (table : Table β) (items : List β) (lost : Nat) : Prop where
  bucketed : Bucketed (keys.classOf key) keys.classHash table
  load : table.size ≤ table.capacity
  entries : (HashMap.entries table).Perm items
  size : table.size = items.length + lost

section Tables

variable {keys : Keys κ} {key : β → κ} {table : Table β} {items : List β} {lost : Nat}

lemma Stands.put (stands : Stands keys key table items lost) (item : β) (light : table.size < table.capacity) :
    Stands keys key (HashMap.put (keys.classOf key) keys.classHash table item) (onMap keys key items (.insert item)) lost := by
  have counted := stands.bucketed.put_size item
  have perm := (stands.bucketed.put_perm item).trans ((stands.entries.filter _).append_right _)
  rw [show keys.classOf key item = Quotient.mk keys.setoid (key item) from rfl,keys.filter_eq key] at perm
  have before := stands.entries.length_eq
  have after := perm.length_eq
  have size := stands.size
  refine ⟨stands.bucketed.put item,?_,perm,?_⟩
  · unfold HashMap.put
    dsimp only
    split <;> omega
  · simp only [onMap]
    omega

lemma Stands.resize (stands : Stands keys key table items lost) (fits : table.size < capacity) :
    ∃ resized, HashMap.resize key keys.hash table capacity = some resized ∧ Stands keys key resized items lost ∧ resized.capacity = capacity ∧ resized.size = table.size := by
  obtain ⟨resized,made,bucketed,perm,is,size⟩ := stands.bucketed.resize fits
  exact ⟨resized,made,⟨bucketed,by omega,perm.trans stands.entries,size.trans stands.size⟩,is,size⟩

lemma Stands.insert (stands : Stands keys key table items lost) (item : β) :
    ∃ after, keys.insert key table item = .ok (true,after) ∧ Stands keys key after (onMap keys key items (.insert item)) lost := by
  have room := stands.bucketed.room
  have load := stands.load
  unfold Keys.insert
  split
  · obtain ⟨larger,made,now,capacity,size⟩ := stands.resize (by omega : table.size < table.capacity * 2)
    rw [made]
    dsimp only
    rw [keys.insertHere_eq key now.bucketed.room.ne']
    exact ⟨_,rfl,now.put item (by omega)⟩
  · rw [keys.insertHere_eq key room.ne']
    exact ⟨_,rfl,stands.put item (by omega)⟩

lemma Stands.erase (stands : Stands keys key table items lost) (wanted : κ) :
    Stands keys key (keys.erase key table wanted).2 (onMap keys key items (.erase wanted)) lost := by
  have before := stands.entries.length_eq
  have size := stands.size
  have load := stands.load
  have counted := stands.bucketed.erase_size (Quotient.mk keys.setoid wanted) (by omega)
  have perm := (stands.bucketed.erase_perm (Quotient.mk keys.setoid wanted)).trans (stands.entries.filter _)
  rw [keys.filter_eq key] at perm
  have after := perm.length_eq
  rw [keys.erase_eq]
  refine ⟨stands.bucketed.erase _,?_,perm,?_⟩
  · unfold HashMap.erase
    split
    · exact load
    · dsimp only
      split <;> omega
  · simp only [onMap]
    omega

lemma Stands.clear (stands : Stands keys key table items lost) : Stands keys key (HashMap.clear table) [] (items.length + lost) := by
  have size := stands.size
  unfold HashMap.clear
  split
  · have none_ : items = [] := List.eq_nil_of_length_eq_zero (by omega)
    rw [none_] at stands ⊢
    rw [length_nil,Nat.zero_add]
    exact stands
  · have empty : HashMap.entries {table with buckets:=fun index => if index < table.capacity then [] else table.buckets index} = [] := by
      refine List.flatMap_eq_nil_iff.mpr fun index inside => ?_
      exact if_pos (mem_range.mp inside)
    refine ⟨⟨stands.bucketed.room,?_,?_⟩,stands.load,?_,?_⟩
    · intro index inside entry member
      dsimp only at member inside
      rw [if_pos inside] at member
      cases member
    · rw [empty]
      exact nodup_nil
    · rw [empty]
    · rw [length_nil,Nat.zero_add]
      exact size

lemma roomy_positive (room : 0 < capacity) (ops : List (Op β κ)) : roomy capacity ops = true := by
  induction ops with
  | nil => rfl
  | cons op ops ih =>
    cases op with
    | insert item => simpa [roomy,room.ne'] using ih
    | resize more => simpa [roomy,room.ne'] using ih
    | find wanted => exact ih
    | erase wanted => exact ih
    | clear => exact ih

lemma create_stands (keys : Keys κ) (key : β → κ) (room : 0 < capacity) : Stands keys key (create capacity) [] 0 := by
  refine ⟨(create_valid room).bucketed,Nat.zero_le _,?_,rfl⟩
  rw [create_entries]

lemma run_stands (stands : Stands keys key table items lost) (ops : List (Op β κ)) :
    ∃ after, run keys key table ops = .ok after ∧ Stands keys key after (ops.foldl (onMap keys key) items) (lost + cleared keys key items ops) := by
  induction ops generalizing table items lost with
  | nil => exact ⟨table,rfl,stands⟩
  | cons op ops ih =>
    unfold run
    cases op with
    | insert item =>
      obtain ⟨middle,done,now⟩ := stands.insert item
      simp only [exec,done,Except.map,foldl_cons,cleared]
      exact ih now
    | find wanted => exact ih stands
    | erase wanted => exact ih (stands.erase wanted)
    | resize capacity =>
      simp only [exec,foldl_cons,cleared,onMap]
      by_cases fits : table.size < capacity
      · obtain ⟨resized,made,now,_⟩ := stands.resize fits
        rw [made]
        exact ih now
      · have refused : HashMap.resize key keys.hash table capacity = none := if_neg fits
        rw [refused]
        exact ih stands
    | clear =>
      simp only [exec,foldl_cons,cleared]
      obtain ⟨after,done,now⟩ := ih stands.clear
      refine ⟨after,done,?_⟩
      rw [Nat.add_comm items.length,Nat.add_assoc] at now
      exact now

lemma run_bare (keys : Keys κ) (key : β → κ) (bare : table.capacity = 0 ∧ table.size = 0) (ops : List (Op β κ)) :
    (roomy 0 ops = true → ∃ after, run keys key table ops = .ok after ∧
      (Stands keys key after (ops.foldl (onMap keys key) []) (cleared keys key [] ops) ∨
        (after.capacity = 0 ∧ after.size = 0) ∧ ops.foldl (onMap keys key) [] = [] ∧ cleared keys key [] ops = 0)) ∧
      (roomy 0 ops = false → ∃ fault, run keys key table ops = .error fault) := by
  obtain ⟨none_,empty⟩ := bare
  induction ops with
  | nil => exact ⟨fun _ => ⟨table,rfl,.inr ⟨⟨none_,empty⟩,rfl,rfl⟩⟩,fun refused => nomatch refused⟩
  | cons op ops ih =>
    unfold run
    cases op with
    | insert item =>
      have light : ¬table.capacity * 3 / 4 < table.size := by omega
      have failed : keys.insert key table item = .error .dividesByZero := by
        rw [Keys.insert,if_neg light,Keys.insertHere,if_pos none_]
      have here : exec keys key table (.insert item) = .error .dividesByZero := by
        rw [exec,failed]
        rfl
      rw [here]
      exact ⟨fun room => (nomatch room),fun _ => ⟨_,rfl⟩⟩
    | find wanted => exact ih
    | erase wanted =>
      have kept : keys.erase key table wanted = (false,table) := if_pos none_
      simp only [exec,kept]
      exact ih
    | resize capacity =>
      simp only [exec,foldl_cons,onMap,cleared,roomy,if_true]
      rcases Nat.eq_zero_or_pos capacity with rfl | positive
      · have refused : HashMap.resize key keys.hash table 0 = none := if_neg (Nat.not_lt_zero _)
        rw [refused]
        exact ih
      · have made : HashMap.resize key keys.hash table capacity = some (create capacity) := by
          simp [HashMap.resize,create,entries,none_,empty,positive]
        have roomyNow : roomy capacity ops = true := roomy_positive positive ops
        rw [made]
        obtain ⟨after,done,stands⟩ := run_stands (create_stands keys key positive) ops
        rw [Nat.zero_add] at stands
        refine ⟨fun _ => ⟨after,done,.inl stands⟩,fun refused => ?_⟩
        rw [roomyNow] at refused
        cases refused
    | clear =>
      have kept : HashMap.clear table = table := if_pos empty
      simp only [exec,kept,foldl_cons,onMap,cleared,roomy,length_nil,Nat.zero_add]
      exact ih

lemma Stands.refines_iff (stands : Stands keys key table items lost) : Refines keys key table items ↔ lost = 0 := by
  constructor
  · intro refines
    have size := stands.size
    rw [refines.size] at size
    omega
  · rintro rfl
    refine ⟨fun wanted => ?_,stands.entries,stands.size⟩
    have chosen := keys.classes_eq key wanted
    have once : (items.map (keys.classOf key)).Nodup := (stands.entries.map _).nodup_iff.mp stands.bucketed.once
    rw [keys.find_eq,← chosen]
    refine Option.ext fun entry => ?_
    rw [stands.bucketed.find_iff,stands.entries.mem_iff]
    constructor
    · rintro ⟨member,is⟩
      cases found : items.find? fun other => decide (keys.classOf key other = Quotient.mk keys.setoid wanted) with
      | none => exact absurd (decide_eq_true is) (List.find?_eq_none.mp found entry member)
      | some other =>
        have same : keys.classOf key other = Quotient.mk keys.setoid wanted := by simpa using find?_some found
        rw [inj_on_of_nodup_map once (mem_of_find?_eq_some found) member (same.trans is.symm)]
    · intro found
      exact ⟨mem_of_find?_eq_some found,by simpa using find?_some found⟩

lemma bare_refines (bare : table.capacity = 0 ∧ table.size = 0) : Refines keys key table [] := by
  refine ⟨fun wanted => if_pos bare.1,?_,bare.2⟩
  have none_ : entries table = [] := by rw [entries,bare.1,List.range_zero,List.flatMap_nil]
  rw [none_]

end Tables

def Correct (keys : Keys κ) (key : β → κ) (capacity : Nat) (ops : List (Op β κ)) : Prop :=
  ∃ table, run keys key (create capacity) ops = .ok table ∧ Refines keys key table (ops.foldl (onMap keys key) [])

lemma Stands.correct_iff {key : β → κ}
    (ran : run keys key (create capacity) ops = .ok after) (stands : Stands keys key after (ops.foldl (onMap keys key) []) lost) :
    Correct keys key capacity ops ↔ lost = 0 := by
  rw [← stands.refines_iff]
  constructor
  · rintro ⟨table,again,refines⟩
    rw [ran] at again
    cases again
    exact refines
  · intro refines
    exact ⟨after,ran,refines⟩

def numbers : Keys Nat where
  hash := id
  same := fun one two => one == two
  refl := fun _ => BEq.rfl
  symm := fun _ _ same => BEq.symm same
  trans := fun _ _ _ first second => BEq.trans first second
  agree := fun _ _ same => eq_of_beq same

end MedvedDB.HashMap
