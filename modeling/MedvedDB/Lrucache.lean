import MedvedDB.DoublyLinked
import MedvedDB.HashLaws

open MedvedDB.DoublyLinked MedvedDB.HashMap
namespace MedvedDB.Lrucache

structure Item (δ : Type) where
  key : UInt32
  data : δ

-- The entries of the list are numbered as they are allocated, a map entry is a key
-- and such a number.
structure Cache (δ : Type) where
  capacity : Nat
  keys : Table (UInt32 × Nat)
  values : Links Nat
  items : Nat → Item δ
  made : Nat

def find (cache : Cache δ) (key : UInt32) : Option (UInt32 × Nat) := HashMap.find Prod.fst UInt32.toNat cache.keys key

def insert (cache : Cache δ) (key : UInt32) (entry : Nat) : Option (Table (UInt32 × Nat)) :=
  HashMap.insert Prod.fst UInt32.toNat cache.keys (key,entry)

def create (capacity : Nat) (memory : Nat → Item δ) : Cache δ := ⟨capacity,HashMap.create capacity,.empty,memory,0⟩

def moveBack (links : Links Nat) (entry : Nat) : Links Nat := (links.exclude entry).emplaceBack entry

-- What is left in old, none for the null item, and the cache. The map entry of a full
-- cache is filled in right after its insertion.
def put [DecidableEq δ] (cache : Cache δ) (item : Item δ) : Option (Option (Item δ) × Cache δ) :=
  match find cache item.key with
  | some (_,entry) =>
    let moved := {cache with values:=moveBack cache.values entry}
    if (cache.items entry).data = item.data then some (none,moved)
    else some (some ⟨item.key,(cache.items entry).data⟩,
      {moved with items:=update cache.items entry {cache.items entry with data:=item.data}})
  | none =>
    if cache.keys.size < cache.capacity then
      (insert cache item.key cache.made).map fun keys =>
        (none,{cache with keys,values:=cache.values.emplaceBack cache.made,items:=update cache.items cache.made item,made:=cache.made + 1})
    else match cache.values.after none with
      | none => none
      | some entry =>
        (insert cache item.key entry).map fun keys =>
          (some (cache.items entry),{cache with
            keys:=HashMap.erase Prod.fst UInt32.toNat keys (cache.items entry).key
            values:=moveBack cache.values entry
            items:=update cache.items entry item})

def get (cache : Cache δ) (key : UInt32) : Option δ × Cache δ :=
  match find cache key with
  | none => (none,cache)
  | some (_,entry) => (some (cache.items entry).data,{cache with values:=moveBack cache.values entry})

inductive Op (δ : Type) where
  | put (item : Item δ)
  | get (key : UInt32)

def exec [DecidableEq δ] (cache : Cache δ) : Op δ → Option (Cache δ)
  | .put item => (put cache item).map Prod.snd
  | .get key => some (get cache key).2

def Op.key : Op δ → UInt32
  | .put item => item.key
  | .get key => key

def Op.value (key : UInt32) : Op δ → Option δ
  | .put item => if item.key = key then some item.data else none
  | .get _ => none

-- How long ago a key was put or got, and what was put for it last.
def age (ops : List (Op δ)) (key : UInt32) : Nat := ops.reverse.findIdx fun op => op.key = key
def lastPut (ops : List (Op δ)) (key : UInt32) : Option δ := ops.reverse.findSome? (Op.value key)

structure Shows (cache : Cache δ) (entries : List Nat) : Prop where
  valid : Valid Prod.fst UInt32.toNat cache.keys
  linked : Linked cache.values entries
  known : ∀ entry ∈ entries, entry < cache.made
  same : (HashMap.entries cache.keys).Perm (entries.map fun entry => ((cache.items entry).key,entry))
  few : entries.length ≤ cache.capacity

-- The oldest item is first, and every one is the last that was put for its key.
structure History (ops : List (Op δ)) (items : List (Item δ)) : Prop where
  order : items.Pairwise fun one two => age ops two.key < age ops one.key
  value : ∀ item ∈ items, lastPut ops item.key = some item.data

section Ops

variable {ops : List (Op δ)} {items others : List (Item δ)}

lemma age_append (op : Op δ) (key : UInt32) : age (ops ++ [op]) key = if op.key = key then 0 else age ops key + 1 := by
  unfold age
  rw [List.reverse_append,List.reverse_singleton,singleton_append,List.findIdx_cons]
  by_cases same : op.key = key <;> simp [same]

lemma lastPut_append (op : Op δ) (key : UInt32) : lastPut (ops ++ [op]) key = (op.value key).or (lastPut ops key) := by
  unfold lastPut
  rw [List.reverse_append,List.reverse_singleton,singleton_append,List.findSome?_cons]
  cases op.value key <;> rfl

lemma value_other {op : Op δ} (other : op.key ≠ key) : op.value key = none := by
  cases op with
  | put item => exact if_neg other
  | get key => rfl

lemma History.kept (history : History ops items) (op : Op δ) (fewer : others.Sublist items) (apart : ∀ item ∈ others, op.key ≠ item.key) :
    History (ops ++ [op]) others := by
  constructor
  · refine (history.order.sublist fewer).imp_of_mem fun {one two} first second older => ?_
    rw [age_append,age_append,if_neg (apart one first),if_neg (apart two second)]
    exact Nat.succ_lt_succ older
  · intro item member
    rw [lastPut_append,value_other (apart item member)]
    exact history.value item (fewer.subset member)

lemma History.newest (history : History (ops ++ [op]) items) (apart : ∀ item ∈ items, op.key ≠ item.key) (key : item.key = op.key)
    (value : lastPut (ops ++ [op]) item.key = some item.data) : History (ops ++ [op]) (items ++ [item]) := by
  constructor
  · refine pairwise_append.mpr ⟨history.order,List.pairwise_singleton _ _,fun one first two second => ?_⟩
    rw [mem_singleton.mp second,age_append,age_append,if_pos key.symm,if_neg (apart one first)]
    exact succ_pos _
  · intro other member
    rcases mem_append.mp member with old | new
    · exact history.value other old
    · rw [mem_singleton.mp new]
      exact value

end Ops

section Entries

variable {cache : Cache δ} {entries front back : List Nat}

lemma Shows.keys_once (shows : Shows cache entries) : (entries.map fun entry => (cache.items entry).key).Nodup := by
  have once := (shows.same.map Prod.fst).nodup_iff.mp shows.valid.once
  rwa [map_map] at once

lemma Shows.find_iff (shows : Shows cache entries) : find cache key = some (found,entry) ↔ found = key ∧ entry ∈ entries ∧ (cache.items entry).key = key := by
  rw [find,shows.valid.find_iff,shows.same.mem_iff,mem_map]
  constructor
  · rintro ⟨⟨other,member,same⟩,rfl⟩
    cases same
    exact ⟨rfl,member,rfl⟩
  · rintro ⟨rfl,member,rfl⟩
    exact ⟨⟨entry,member,rfl⟩,rfl⟩

lemma Shows.find_none (shows : Shows cache entries) : find cache key = none ↔ ∀ item ∈ entries.map cache.items, key ≠ item.key := by
  rw [Option.eq_none_iff_forall_ne_some,Prod.forall]
  simp only [ne_eq,shows.find_iff,List.forall_mem_map]
  exact ⟨fun missed entry member same => missed key entry ⟨rfl,member,same.symm⟩,fun apart _ entry found => apart entry found.2.1 found.2.2.symm⟩

lemma Shows.others (shows : Shows cache (front ++ entry::back)) : ∀ other ∈ front ++ back, other ≠ entry ∧ (cache.items entry).key ≠ (cache.items other).key := by
  have once := shows.keys_once
  rw [map_append,map_cons,nodup_middle,nodup_cons,← map_append] at once
  have apart (other : Nat) (member : other ∈ front ++ back) : (cache.items entry).key ≠ (cache.items other).key :=
    fun same => once.1 (same ▸ mem_map_of_mem member)
  exact fun other member => ⟨fun same => apart other member (by rw [same]),apart other member⟩

lemma map_update {others : List Nat} (outside : entry ∉ others) (items : Nat → Item δ) (item : Item δ) (f : Nat → Item δ → γ) :
    (others ++ [entry]).map (fun other => f other (update items entry item other)) = others.map (fun other => f other (items other)) ++ [f entry item] := by
  rw [map_append,List.map_singleton,update_self]
  congr 1
  refine map_congr_left fun other member => ?_
  have away : other ≠ entry := fun same => outside (same ▸ member)
  rw [update_of_ne away]

structure Placed (cache next : Cache δ) (others : List Nat) (entry : Nat) (item : Item δ) : Prop extends Shows next (others ++ [entry]) where
  capacity : next.capacity = cache.capacity
  items : next.items = update cache.items entry item

lemma Shows.moved (shows : Shows cache (front ++ entry::back)) (same : (cache.items entry).key = item.key) :
    Placed cache {cache with values:=moveBack cache.values entry,items:=update cache.items entry item} (front ++ back) entry item := by
  have perm : (front ++ entry::back).Perm (front ++ back ++ [entry]) := perm_middle.trans (List.perm_append_singleton _ _).symm
  have outside : entry ∉ front ++ back := fun member => (shows.others entry member).1 rfl
  refine ⟨⟨shows.valid,emplaceBack_linked (exclude_linked shows.linked) outside,?_,?_,perm.length_eq ▸ shows.few⟩,rfl,rfl⟩
  · exact fun other member => shows.known other (perm.mem_iff.mpr member)
  · rw [map_update outside cache.items item fun other item => (item.key,other),← same]
    have moved := perm.map fun other => ((cache.items other).key,other)
    exact shows.same.trans (moved.trans (List.Perm.of_eq map_append))

lemma Shows.inserted (shows : Shows cache entries) (missed : find cache key = none) (entry : Nat) :
    ∃ keys, insert cache key entry = some keys ∧ Valid Prod.fst UInt32.toNat keys ∧
      (HashMap.entries keys).Perm ((entries.map fun entry => ((cache.items entry).key,entry)) ++ [(key,entry)]) := by
  have fresh : key ∉ (HashMap.entries cache.keys).map Prod.fst := by
    rw [(shows.same.map Prod.fst).mem_iff,map_map]
    intro member
    obtain ⟨other,known,same⟩ := mem_map.mp member
    exact shows.find_none.mp missed _ (mem_map_of_mem known) same.symm
  obtain ⟨keys,made,valid,perm⟩ := shows.valid.insert_new (show Prod.fst (key,entry) ∉ _ from fresh)
  exact ⟨keys,made,valid,perm.trans (shows.same.append_right _)⟩

lemma Shows.size (shows : Shows cache entries) : cache.keys.size = entries.length := by
  rw [shows.valid.size,shows.same.length_eq,length_map]

variable [DecidableEq δ]

lemma put_known {item : Item δ} (found : find cache item.key = some (known,entry)) (same : (cache.items entry).key = item.key) :
    ∃ old, put cache item = some (old,{cache with values:=moveBack cache.values entry,items:=update cache.items entry item}) := by
  have changed : (⟨(cache.items entry).key,item.data⟩ : Item δ) = item := by rw [same]
  unfold put
  rw [found]
  dsimp only
  split
  · rename_i equal
    refine ⟨none,?_⟩
    rw [← changed,← equal,Function.update_eq_self]
  · rw [changed]
    exact ⟨_,rfl⟩

lemma Shows.put_new (shows : Shows cache entries) {item : Item δ} (missed : find cache item.key = none) (room : entries.length < cache.capacity) :
    ∃ next, put cache item = some (none,next) ∧ Placed cache next entries cache.made item := by
  have outside : cache.made ∉ entries := fun member => lt_irrefl _ (shows.known _ member)
  obtain ⟨keys,made,valid,perm⟩ := shows.inserted missed cache.made
  unfold put
  rw [missed,shows.size]
  dsimp only
  rw [if_pos room,made]
  refine ⟨_,rfl,⟨valid,emplaceBack_linked shows.linked outside,?_,?_,?_⟩,rfl,rfl⟩
  · intro entry member
    rcases mem_append.mp member with old | new
    · exact Nat.lt_succ_of_lt (shows.known entry old)
    · rw [mem_singleton.mp new]
      exact lt_succ_self _
  · rw [map_update outside cache.items item fun other item => (item.key,other)]
    exact perm
  · rw [length_append]
    exact room

lemma Shows.put_full (shows : Shows cache (entry::rest)) {item : Item δ} (missed : find cache item.key = none) (full : cache.capacity ≤ (entry::rest).length) :
    ∃ next, put cache item = some (some (cache.items entry),next) ∧ Placed cache next rest entry item := by
  have outside : entry ∉ rest := (nodup_cons.mp shows.linked.1).1
  have others_apart := Shows.others (show Shows cache ([] ++ entry::rest) from shows)
  obtain ⟨keys,made,valid,perm⟩ := shows.inserted missed entry
  unfold put
  rw [missed,shows.size]
  dsimp only
  rw [if_neg (not_lt.mpr full),shows.linked.first]
  dsimp only
  rw [made]
  refine ⟨_,rfl,⟨valid.erase (cache.items entry).key,emplaceBack_linked (exclude_linked (show Linked _ ([] ++ entry::rest) from shows.linked)) outside,?_,?_,?_⟩,rfl,rfl⟩
  · exact fun other member => shows.known other ((List.perm_append_singleton _ _).mem_iff.mp member)
  · rw [map_update outside cache.items item fun other item => (item.key,other)]
    refine (valid.bucketed.erase_perm _).trans ((perm.filter _).trans (List.Perm.of_eq ?_))
    have others : (rest.map fun other => ((cache.items other).key,other)).filter (fun pair => pair.1 ≠ (cache.items entry).key) = _ :=
      filter_eq_self.mpr (List.forall_mem_map.mpr fun other known => decide_eq_true (others_apart other known).2.symm)
    have new := shows.find_none.mp missed _ mem_cons_self
    rw [map_cons,cons_append,List.filter_cons_of_neg (by simp),filter_append,others,List.filter_cons_of_pos (by simpa using new),List.filter_nil]
  · rw [length_append]
    exact shows.few

end Entries

structure After (capacity : Nat) (ops : List (Op δ)) (cache : Cache δ) (entries : List Nat) : Prop extends Shows cache entries where
  bound : cache.capacity = capacity
  history : History ops (entries.map cache.items)

section Runs

variable {cache next : Cache δ} {ops : List (Op δ)} {entries others : List Nat} {item : Item δ}

lemma After.newest (after : After capacity ops cache entries) (placed : Placed cache next others entry item) (fewer : others.Sublist entries)
    {op : Op δ} (key : item.key = op.key) (value : lastPut (ops ++ [op]) item.key = some item.data) :
    After capacity (ops ++ [op]) next (others ++ [entry]) := by
  have apart := Shows.others (show Shows next (others ++ entry::[]) from placed.toShows)
  rw [append_nil,placed.items,update_self] at apart
  have outside : entry ∉ others := fun member => (apart entry member).1 rfl
  have keys_apart : ∀ other ∈ others.map cache.items, op.key ≠ other.key := by
    refine List.forall_mem_map.mpr fun other member => ?_
    have differ := (apart other member).2
    rwa [update_of_ne (apart other member).1,key] at differ
  refine ⟨placed.toShows,placed.capacity.trans after.bound,?_⟩
  rw [placed.items,map_update outside cache.items item fun _ item => item]
  exact (after.history.kept op (fewer.map _) keys_apart).newest keys_apart key value

lemma After.moved (after : After capacity ops cache entries) (found : find cache item.key = some (key,entry)) {op : Op δ} (same : item.key = op.key)
    (value : lastPut (ops ++ [op]) item.key = some item.data) :
    ∃ entries, After capacity (ops ++ [op]) {cache with values:=moveBack cache.values entry,items:=update cache.items entry item} entries := by
  obtain ⟨_,member,known⟩ := after.find_iff.mp found
  obtain ⟨front,back,rfl⟩ := append_of_mem member
  exact ⟨_,after.newest (after.toShows.moved known) (by simp) same value⟩

variable [DecidableEq δ]

lemma exec_after (after : After (capacity + 1) ops cache entries) (op : Op δ) :
    ∃ next, exec cache op = some next ∧ ∃ entries, After (capacity + 1) (ops ++ [op]) next entries := by
  cases op with
  | get key =>
    refine ⟨_,rfl,?_⟩
    unfold get
    cases found : find cache key with
    | none =>
      exact ⟨entries,after.toShows,after.bound,after.history.kept _ (List.Sublist.refl _) (after.find_none.mp found)⟩
    | some pair =>
      obtain ⟨_,member,rfl⟩ := after.find_iff.mp found
      have value := after.history.value _ (mem_map_of_mem member)
      simpa using after.moved found (show _ = Op.key (.get _) from rfl) ((lastPut_append _ _).trans value)
  | put item =>
    have value : lastPut (ops ++ [.put item]) item.key = some item.data := by
      rw [lastPut_append,Op.value,if_pos rfl]
      rfl
    cases found : find cache item.key with
    | some pair =>
      obtain ⟨old,done⟩ := put_known found (after.find_iff.mp found).2.2
      exact ⟨_,by rw [exec,done]; rfl,after.moved found rfl value⟩
    | none =>
      by_cases room : entries.length < cache.capacity
      · obtain ⟨next,done,placed⟩ := after.put_new found room
        exact ⟨next,by rw [exec,done]; rfl,_,after.newest placed (List.Sublist.refl _) rfl value⟩
      · cases entries with
        | nil => exact absurd (after.bound ▸ succ_pos capacity) room
        | cons entry rest =>
          obtain ⟨next,done,placed⟩ := after.put_full found (not_lt.mp room)
          exact ⟨next,by rw [exec,done]; rfl,_,after.newest placed (List.sublist_cons_self _ _) rfl value⟩

lemma run_after (capacity : Nat) (memory : Nat → Item δ) (ops : List (Op δ)) :
    ∃ cache, ops.foldlM exec (create (capacity + 1) memory) = some cache ∧ ∃ entries, After (capacity + 1) ops cache entries := by
  induction ops using reverseRecOn with
  | nil =>
    refine ⟨_,rfl,[],⟨create_valid (succ_pos _),⟨nodup_nil,?_⟩,by simp,?_,Nat.zero_le _⟩,rfl,List.Pairwise.nil,by simp⟩
    · exact List.isChain_pair.mpr ⟨rfl,rfl⟩
    · exact List.Perm.of_eq (create_entries _)
  | append_singleton ops op ih =>
    obtain ⟨cache,ran,entries,after⟩ := ih
    obtain ⟨next,done,later⟩ := exec_after after op
    refine ⟨next,?_,later⟩
    rw [List.foldlM_append,ran]
    simpa using done

end Runs

end MedvedDB.Lrucache
