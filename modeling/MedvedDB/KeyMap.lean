import MedvedDB.Prelude

namespace MedvedDB

-- A finite map kept as its entries in increasing key order, every key once.
-- This is the order in which a cursor of a key-value store walks it.
structure KeyMap (κ ν : Type) [LinearOrder κ] where
  entries : List (κ × ν)
  sorted : entries.Pairwise fun one two => one.1 < two.1

namespace KeyMap
variable {κ ν : Type} [LinearOrder κ]

def lookup (key : κ) : List (κ × ν) → Option ν
  | [] => none
  | (other,value)::rest => if other = key then some value else lookup key rest

def place (key : κ) (value : ν) : List (κ × ν) → List (κ × ν)
  | [] => [(key,value)]
  | (other,old)::rest =>
    if key < other then (key,value)::(other,old)::rest
    else if key = other then (key,value)::rest
    else (other,old)::place key value rest

variable {map : KeyMap κ ν} {list : List (κ × ν)}

lemma place_keys (member : entry ∈ place key value list) :
    entry = (key,value) ∨ entry ∈ list := by
  induction list with
  | nil => simpa [place] using member
  | cons head rest ih =>
    obtain ⟨other,old⟩ := head
    simp only [place] at member
    split at member
    · simpa using member
    · split at member
      · rcases mem_cons.mp member with same | tail
        · exact .inl same
        · exact .inr (mem_cons_of_mem _ tail)
      · rcases mem_cons.mp member with same | tail
        · exact .inr (same ▸ mem_cons_self)
        · exact (ih tail).imp id (mem_cons_of_mem _)

lemma place_sorted (ordered : list.Pairwise fun one two => one.1 < two.1) :
    (place key value list).Pairwise fun one two => one.1 < two.1 := by
  induction list with
  | nil => simp [place]
  | cons head rest ih =>
    obtain ⟨other,old⟩ := head
    obtain ⟨above,tail⟩ := pairwise_cons.mp ordered
    simp only [place]
    split
    · rename_i below
      refine pairwise_cons.mpr ⟨?_,ordered⟩
      intro entry member
      rcases mem_cons.mp member with rfl | later
      · exact below
      · exact below.trans (above entry later)
    · rename_i notBelow
      split
      · rename_i same
        exact pairwise_cons.mpr ⟨by simpa only [same] using above,tail⟩
      · rename_i different
        refine pairwise_cons.mpr ⟨?_,ih tail⟩
        intro entry member
        rcases place_keys member with rfl | old
        · exact lt_of_le_of_ne (not_lt.mp notBelow) (Ne.symm different)
        · exact above entry old

lemma lookup_place (list : List (κ × ν)) (key other : κ) (value : ν) :
    lookup other (place key value list) = if other = key then some value else lookup other list := by
  induction list with
  | nil => simp [place,lookup,eq_comm]
  | cons head rest ih =>
    obtain ⟨first,old⟩ := head
    simp only [place]
    split
    · simp only [lookup,eq_comm]
    · split
      · rename_i same
        subst same
        by_cases equal : other = key
        · simp [lookup,equal]
        · simp [lookup,equal,Ne.symm equal]
      · rename_i different
        simp only [lookup,ih]
        by_cases equal : first = other
        · have apart : other ≠ key := fun same => different (same.symm.trans equal.symm)
          simp [equal,apart]
        · simp [equal]

lemma lookup_filter (list : List (κ × ν)) (key other : κ) :
    lookup other (list.filter fun entry => entry.1 ≠ key) = if other = key then none else lookup other list := by
  induction list with
  | nil => simp [lookup]
  | cons head rest ih =>
    obtain ⟨first,old⟩ := head
    by_cases dropped : first = key
    · by_cases equal : other = key
      · simpa [dropped,equal] using ih
      · have apart : key ≠ other := Ne.symm equal
        simpa [dropped,equal,apart,lookup] using ih
    · by_cases equal : first = other
      · have kept : other ≠ key := fun same => dropped (equal.trans same)
        simp [equal,kept,lookup]
      · simpa [dropped,equal,lookup] using ih

lemma lookup_mem (found : lookup key list = some value) : (key,value) ∈ list := by
  induction list with
  | nil => cases found
  | cons head rest ih =>
    obtain ⟨first,old⟩ := head
    simp only [lookup] at found
    split at found
    · rename_i same
      cases found
      exact same ▸ mem_cons_self
    · exact mem_cons_of_mem _ (ih found)

lemma mem_lookup (ordered : list.Pairwise fun one two => one.1 < two.1)
    (member : (key,value) ∈ list) : lookup key list = some value := by
  induction list with
  | nil => cases member
  | cons head rest ih =>
    obtain ⟨above,tail⟩ := pairwise_cons.mp ordered
    rcases mem_cons.mp member with rfl | later
    · simp [lookup]
    · have apart : head.1 ≠ key := (above _ later).ne
      simpa [lookup,apart] using ih tail later

-- The interface. Every later module works with these operations and their
-- equations only, never with the list underneath.
def empty : KeyMap κ ν := ⟨[],List.Pairwise.nil⟩
def find (map : KeyMap κ ν) (key : κ) : Option ν := lookup key map.entries
def insert (map : KeyMap κ ν) (key : κ) (value : ν) : KeyMap κ ν :=
  ⟨place key value map.entries,place_sorted map.sorted⟩
def erase (map : KeyMap κ ν) (key : κ) : KeyMap κ ν :=
  ⟨map.entries.filter fun entry => entry.1 ≠ key,map.sorted.filter _⟩

-- A cursor positioned at the first key not below `key` and walked to the end.
def walkFrom (map : KeyMap κ ν) (key : κ) : List (κ × ν) :=
  map.entries.filter fun entry => key ≤ entry.1

def lastKey (map : KeyMap κ ν) : Option κ := map.entries.getLast?.map Prod.fst

@[simp] lemma find_empty (key : κ) : (empty : KeyMap κ ν).find key = none := rfl

@[simp] lemma find_insert (map : KeyMap κ ν) (key other : κ) (value : ν) :
    (map.insert key value).find other = if other = key then some value else map.find other :=
  lookup_place _ _ _ _

@[simp] lemma find_erase (map : KeyMap κ ν) (key other : κ) :
    (map.erase key).find other = if other = key then none else map.find other :=
  lookup_filter _ _ _

lemma mem_entries : (key,value) ∈ map.entries ↔ map.find key = some value :=
  ⟨mem_lookup map.sorted,lookup_mem⟩

lemma mem_walkFrom :
    (key,value) ∈ map.walkFrom start ↔ map.find key = some value ∧ start ≤ key := by
  simp [walkFrom,mem_entries]

lemma walkFrom_sorted (map : KeyMap κ ν) (start : κ) :
    (map.walkFrom start).Pairwise fun one two => one.1 < two.1 := map.sorted.filter _

lemma lastKey_bound (found : map.find key = some value) :
    ∃ last, map.lastKey = some last ∧ key ≤ last := by
  have member := mem_entries.mpr found
  obtain ⟨front,final,shape⟩ : ∃ front final, map.entries = front ++ [final] :=
    ⟨_,_,(List.dropLast_append_getLast (List.ne_nil_of_mem member)).symm⟩
  refine ⟨final.1,by simp [lastKey,shape],?_⟩
  have ordered := map.sorted
  rw [shape] at member ordered
  rcases mem_append.mp member with early | last
  · exact ((pairwise_append.mp ordered).2.2 _ early _ (mem_singleton_self _)).le
  · exact (congrArg Prod.fst (mem_singleton.mp last)).le

-- The entries a walk from `key` leaves out. A cut of the entries at a key is
-- determined by the key.
def below (map : KeyMap κ ν) (key : κ) : List (κ × ν) := map.entries.filter fun entry => entry.1 < key

lemma mem_below : (key,value) ∈ map.below bound ↔ map.find key = some value ∧ key < bound := by
  simp [below,mem_entries]

lemma below_sorted (map : KeyMap κ ν) (bound : κ) :
    (map.below bound).Pairwise fun one two => one.1 < two.1 := map.sorted.filter _

lemma filter_early (early : ∀ entry ∈ list, entry.1 < key) :
    list.filter (fun entry => entry.1 < key) = list ∧ list.filter (fun entry => key ≤ entry.1) = [] := by
  constructor
  · exact filter_eq_self.mpr fun entry member => decide_eq_true (early entry member)
  · exact filter_eq_nil_iff.mpr fun entry member => mt of_decide_eq_true (not_le.mpr (early entry member))

lemma filter_late (late : ∀ entry ∈ list, key ≤ entry.1) :
    list.filter (fun entry => entry.1 < key) = [] ∧ list.filter (fun entry => key ≤ entry.1) = list := by
  constructor
  · exact filter_eq_nil_iff.mpr fun entry member => mt of_decide_eq_true (not_lt.mpr (late entry member))
  · exact filter_eq_self.mpr fun entry member => decide_eq_true (late entry member)

lemma cut_eq (cut : map.entries = front ++ back) (early : ∀ entry ∈ front, entry.1 < key)
    (late : ∀ entry ∈ back, key ≤ entry.1) : map.below key = front ∧ map.walkFrom key = back := by
  unfold below walkFrom
  rw [cut,filter_append,filter_append]
  constructor
  · rw [(filter_early early).1,(filter_late late).1,append_nil]
  · rw [(filter_early early).2,(filter_late late).2,nil_append]

lemma below_walkFrom (map : KeyMap κ ν) (key : κ) : map.entries = map.below key ++ map.walkFrom key := by
  obtain ⟨entries,sorted⟩ := map
  simp only [below,walkFrom]
  induction entries with
  | nil => rfl
  | cons head rest ih =>
    obtain ⟨above,tail⟩ := pairwise_cons.mp sorted
    by_cases early : head.1 < key
    · simpa [early,not_le.mpr early] using ih tail
    · have late : ∀ entry ∈ head::rest, key ≤ entry.1 := by
        intro entry member
        rcases mem_cons.mp member with rfl | later
        · exact not_lt.mp early
        · exact (not_lt.mp early).trans (above entry later).le
      rw [(filter_late late).1,(filter_late late).2,nil_append]

lemma cut_next {map : KeyMap Nat ν} (walked : map.walkFrom pos = (key,value)::rest) :
    map.below (key + 1) = map.below pos ++ [(key,value)] ∧ map.walkFrom (key + 1) = rest := by
  have whole := map.below_walkFrom pos
  have ordered := map.walkFrom_sorted pos
  rw [walked] at whole ordered
  refine cut_eq (by rw [whole,append_assoc]; rfl) ?_ ?_
  · intro entry member
    rcases mem_append.mp member with early | last
    · have above : pos ≤ key := (mem_walkFrom.mp (by rw [walked]; exact mem_cons_self)).2
      exact ((mem_below.mp early).2.trans_le above).trans (lt_succ_self key)
    · obtain rfl := mem_singleton.mp last
      exact lt_succ_self _
  · exact fun entry member => (pairwise_cons.mp ordered).1 entry member

lemma walkFrom_suffix (map : KeyMap κ ν) (lower : low ≤ high) : map.walkFrom high <:+ map.walkFrom low := by
  refine ⟨(map.below high).filter fun entry => low ≤ entry.1,?_⟩
  have late : ∀ entry ∈ map.walkFrom high, low ≤ entry.1 := fun entry member => lower.trans (mem_walkFrom.mp member).2
  rw [← (filter_late late).2,← filter_append,← map.below_walkFrom]
  rfl

lemma walkFrom_shorter (found : map.find key = some value) (lower : low ≤ key) (higher : key < high) :
    (map.walkFrom high).length < (map.walkFrom low).length := by
  have shorter := map.walkFrom_suffix (lower.trans higher.le)
  refine lt_of_le_of_ne shorter.length_le fun equal => ?_
  have member : (key,value) ∈ map.walkFrom low := mem_walkFrom.mpr ⟨found,lower⟩
  rw [← shorter.eq_of_length equal] at member
  exact absurd higher (not_lt.mpr (mem_walkFrom.mp member).2)

lemma place_last (greatest : ∀ entry ∈ list, entry.1 < key) :
    place key value list = list ++ [(key,value)] := by
  induction list with
  | nil => rfl
  | cons head rest ih =>
    have smaller := greatest head mem_cons_self
    simp only [place,if_neg (not_lt.mpr smaller.le),if_neg smaller.ne']
    rw [ih fun entry member => greatest entry (mem_cons_of_mem _ member)]
    rfl

lemma insert_last (greatest : ∀ other old, map.find other = some old → other < key) (value : ν) :
    (map.insert key value).entries = map.entries ++ [(key,value)] :=
  place_last fun entry member => greatest entry.1 entry.2 (mem_entries.mp member)

def mapValues {μ : Type} (f : ν → μ) (map : KeyMap κ ν) : KeyMap κ μ :=
  ⟨map.entries.map fun entry => (entry.1,f entry.2),pairwise_map.mpr map.sorted⟩

lemma place_map {μ : Type} (f : ν → μ) (key : κ) (value : ν) (list : List (κ × ν)) :
    place key (f value) (list.map fun entry => (entry.1,f entry.2)) = (place key value list).map fun entry => (entry.1,f entry.2) := by
  induction list with
  | nil => rfl
  | cons head rest ih =>
    obtain ⟨other,old⟩ := head
    simp only [place,map_cons,ih]
    split
    · rfl
    · split
      · rfl
      · rfl

lemma insert_mapValues {μ : Type} (f : ν → μ) (map : KeyMap κ ν) (key : κ) (value : ν) :
    (map.mapValues f).insert key (f value) = (map.insert key value).mapValues f := by
  unfold mapValues insert
  congr 1
  exact place_map f key value map.entries

end KeyMap
end MedvedDB
