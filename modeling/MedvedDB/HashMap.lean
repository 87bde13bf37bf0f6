import MedvedDB.Prelude

namespace MedvedDB.HashMap

structure Table (β : Type) where
  capacity : Nat
  size : Nat
  buckets : Nat → List β

variable {β κ : Type} [DecidableEq κ] (key : β → κ) (hash : κ → Nat)

-- The factor 5 / 4 of mdv_hashmap_create is an integer division.
def create (capacity : Nat) : Table β := ⟨capacity * (5 / 4),0,fun _ => []⟩

def entries (table : Table β) : List β := (List.range table.capacity).flatMap table.buckets

def emplaceBack (buckets : Nat → List β) (index : Nat) (item : β) : Nat → List β := update buckets index (buckets index ++ [item])

def resize (table : Table β) (capacity : Nat) : Option (Table β) :=
  if table.size < capacity then
    some ⟨capacity,table.size,(entries table).foldl (fun buckets item => emplaceBack buckets (hash (key item) % capacity) item) fun _ => []⟩
  else none

-- An entry with the same key is removed before the new one is put at the end of its bucket.
def put (table : Table β) (item : β) : Table β :=
  let index := hash (key item) % table.capacity
  let bucket := table.buckets index
  ⟨table.capacity,if bucket.any (fun entry => key entry = key item) then table.size else table.size + 1,
    update table.buckets index (bucket.eraseP (fun entry => key entry = key item) ++ [item])⟩

-- mdv_hashmap_insert with the load factor 3 / 4.
def insert (table : Table β) (item : β) : Option (Table β) :=
  if table.capacity * 3 / 4 < table.size then (resize key hash table (table.capacity * 2)).map fun table => put key hash table item
  else some (put key hash table item)

def find (table : Table β) (wanted : κ) : Option β :=
  if table.capacity = 0 then none else (table.buckets (hash wanted % table.capacity)).find? fun entry => key entry = wanted

omit [DecidableEq κ] in
lemma spread (items : List β) (capacity index : Nat) :
    items.foldl (fun buckets item => emplaceBack buckets (hash (key item) % capacity) item) (fun _ => []) index =
      items.filter fun item => hash (key item) % capacity = index := by
  induction items using reverseRecOn with
  | nil => rfl
  | append_singleton items item ih =>
    rw [foldl_append,filter_append,← ih]
    by_cases here : hash (key item) % capacity = index
    · subst here
      simp [emplaceBack]
    · simp [emplaceBack,here,update_of_ne (Ne.symm here)]

structure Direct (bound : Nat) (keys : Finset Nat) (table : Table Nat) : Prop where
  small : ∀ item ∈ keys, item < bound
  room : bound ≤ table.capacity
  size : table.size = keys.card
  buckets : ∀ index < table.capacity, table.buckets index = if index ∈ keys then [index] else []

section Numbers

variable {bound item : Nat} {keys : Finset Nat} {table : Table Nat}

lemma create_direct (bound : Nat) : Direct bound ∅ (create bound) := ⟨by simp,by simp [create],rfl,fun _ _ => by simp [create]⟩

lemma Direct.entries (direct : Direct bound keys table) : entries table = (List.range bound).filter (· ∈ keys) := by
  obtain ⟨more,is⟩ := Nat.exists_eq_add_of_le direct.room
  have each : ∀ index ∈ List.range table.capacity, table.buckets index = if index ∈ keys then [index] else [] :=
    fun index inside => direct.buckets index (mem_range.mp inside)
  have single (items : List Nat) : items.flatMap (fun index => if index ∈ keys then [index] else []) = items.filter (· ∈ keys) := by
    induction items with
    | nil => rfl
    | cons index items ih =>
      rw [flatMap_cons,ih]
      by_cases inside : index ∈ keys <;> simp [inside]
  rw [HashMap.entries,flatMap_congr each,single,is,List.range_add,filter_append]
  have none_ : (List.map (fun index => bound + index) (List.range more)).filter (· ∈ keys) = [] := by
    rw [filter_eq_nil_iff]
    intro index inside member
    obtain ⟨offset,_,rfl⟩ := mem_map.mp inside
    exact absurd (direct.small _ (of_decide_eq_true member)) (by omega)
  rw [none_,append_nil]

lemma Direct.find (direct : Direct bound keys table) (inside : item < bound) :
    find id id table item = if item ∈ keys then some item else none := by
  have small : item < table.capacity := Nat.lt_of_lt_of_le inside direct.room
  rw [HashMap.find,if_neg (by omega),id,mod_eq_of_lt small,direct.buckets item small]
  split <;> simp

lemma Direct.card (direct : Direct bound keys table) : keys.card ≤ bound := by
  have inside : keys ⊆ Finset.range bound := fun item member => Finset.mem_range.mpr (direct.small item member)
  simpa using Finset.card_le_card inside

lemma Direct.resize (direct : Direct bound keys table) (occupied : 0 < bound) :
    ∃ larger, resize id id table (table.capacity * 2) = some larger ∧ Direct bound keys larger := by
  have room := direct.room
  have size := direct.size
  have few := direct.card
  have fits : table.size < table.capacity * 2 := by omega
  refine ⟨_,if_pos fits,direct.small,by dsimp only; omega,size,?_⟩
  intro index inside
  dsimp only
  rw [spread,direct.entries,List.filter_filter]
  have same : ∀ other ∈ List.range bound,
      (decide (id (id other) % (table.capacity * 2) = index) && decide (other ∈ keys)) = (decide (other = index) && decide (index ∈ keys)) := by
    intro other known
    have least : other % (table.capacity * 2) = other := mod_eq_of_lt (by rw [mem_range] at known; omega)
    simp only [id,least]
    by_cases equal : other = index <;> simp [equal]
  rw [filter_congr same]
  by_cases member : index ∈ keys
  · have known : index ∈ List.range bound := mem_range.mpr (direct.small index member)
    simp [member,List.filter_eq,List.count_eq_one_of_mem nodup_range known]
  · simp [member]

lemma Direct.put (direct : Direct bound keys table) (inside : item < bound) : Direct bound (Insert.insert item keys) (put id id table item) := by
  have small : item < table.capacity := Nat.lt_of_lt_of_le inside direct.room
  have bucket := direct.buckets item small
  have place : item % table.capacity = item := mod_eq_of_lt small
  refine ⟨?_,direct.room,?_,?_⟩
  · intro other member
    rcases Finset.mem_insert.mp member with rfl | before
    · exact inside
    · exact direct.small other before
  · by_cases known : item ∈ keys
    · simp [HashMap.put,place,bucket,known,direct.size]
    · simp [HashMap.put,place,bucket,known,direct.size]
  · intro index within
    by_cases same : index = item
    · subst same
      by_cases known : index ∈ keys <;> simp [HashMap.put,place,bucket,known]
    · have kept := direct.buckets index within
      simp [HashMap.put,place,kept,same]

lemma Direct.insert (direct : Direct bound keys table) (inside : item < bound) :
    ∃ after, insert id id table item = some after ∧ Direct bound (Insert.insert item keys) after := by
  by_cases loaded : table.capacity * 3 / 4 < table.size
  · obtain ⟨larger,resized,directNow⟩ := direct.resize (Nat.lt_of_le_of_lt (Nat.zero_le item) inside)
    exact ⟨_,by rw [HashMap.insert,if_pos loaded,resized]; rfl,directNow.put inside⟩
  · exact ⟨_,by rw [HashMap.insert,if_neg loaded],direct.put inside⟩

end Numbers

end MedvedDB.HashMap
