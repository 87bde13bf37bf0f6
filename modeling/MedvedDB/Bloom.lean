import MedvedDB.Prelude

namespace MedvedDB.Bloom

def hashSeed : UInt32 := 836091947

-- What does not change after mdv_bloom_create. The hash function takes a seed.
structure Config (δ : Type) where
  bits : Nat
  some_bit : 0 < bits
  capacity : Nat
  hashes : Nat
  hash : δ → UInt32 → UInt32

structure Filter where
  size : Nat
  bf : Nat → BitVec 8

def Config.bit (config : Config δ) (data : δ) (i : Nat) : Nat := (config.hash data (UInt32.ofNat i * hashSeed)).toNat % config.bits

def Config.assigned (config : Config δ) (data : δ) : List Nat := (List.range config.hashes).map (config.bit data)

def clear (bf : Nat → BitVec 8) (bit : Nat) : Bool := bf (bit / 8) >>> (bit % 8) = 0

def mark (bf : Nat → BitVec 8) (bit : Nat) : Nat → BitVec 8 :=
  update bf (bit / 8) (bf (bit / 8) ||| 1#8 <<< (bit % 8))

def insertBits : Bool → (Nat → BitVec 8) → List Nat → Bool × (Nat → BitVec 8)
  | changed,bf,[] => (changed,bf)
  | changed,bf,bit::rest => insertBits (changed || clear bf bit) (mark bf bit) rest

def insert (config : Config δ) (filter : Filter) (data : δ) : Bool × Filter :=
  if filter.size ≥ config.capacity then (false,filter)
  else
    let (changed,bf) := insertBits false filter.bf (config.assigned data)
    (changed,⟨if changed then filter.size + 1 else filter.size,bf⟩)

def contains (config : Config δ) (filter : Filter) (data : δ) : Bool := (config.assigned data).all fun bit => !clear filter.bf bit

def create : Filter := ⟨0,fun _ => 0⟩

def run (config : Config δ) (inserts : List δ) : Filter := inserts.foldl (fun filter data => (insert config filter data).2) create

-- The bits that inserts made below the capacity have set, in the order of the inserts.
def marked (config : Config δ) : Filter → List δ → List Nat
  | _,[] => []
  | filter,data::rest =>
    (if filter.size < config.capacity then config.assigned data else []) ++ marked config (insert config filter data).2 rest

def IsSet (bf : Nat → BitVec 8) (bit : Nat) : Prop := (bf (bit / 8)).getLsbD (bit % 8) = true

-- What the shift looks at: the bit and those above it in its byte.
def Covered (bits : Nat → Prop) (bit : Nat) : Prop := ∃ other, other / 8 = bit / 8 ∧ bit ≤ other ∧ bits other

lemma clear_iff (bf : Nat → BitVec 8) (bit : Nat) : clear bf bit = true ↔ ¬Covered (IsSet bf) bit := by
  rw [clear,decide_eq_true_eq]
  constructor
  · rintro empty ⟨other,same,above,found⟩
    have lower : (bf (bit / 8) >>> (bit % 8)).getLsbD (other % 8 - bit % 8) = true := by
      rw [BitVec.getLsbD_ushiftRight,← same,show bit % 8 + (other % 8 - bit % 8) = other % 8 by omega]
      exact found
    rw [empty] at lower
    simp at lower
  · intro uncovered
    apply BitVec.eq_of_getLsbD_eq
    intro place inside
    rw [BitVec.getLsbD_ushiftRight]
    by_contra found
    by_cases within : bit % 8 + place < 8
    · refine uncovered ⟨bit + place,by omega,by omega,?_⟩
      rw [IsSet,show (bit + place) / 8 = bit / 8 by omega,show (bit + place) % 8 = bit % 8 + place by omega]
      simpa using found
    · rw [BitVec.getLsbD_of_ge _ _ (not_lt.mp within)] at found
      simp at found

lemma isSet_mark (bf : Nat → BitVec 8) (bit other : Nat) : IsSet (mark bf bit) other ↔ IsSet bf other ∨ other = bit := by
  unfold IsSet mark
  by_cases same : other / 8 = bit / 8
  · rw [same,update_self,BitVec.getLsbD_or,or_eq_true]
    apply or_congr_right
    rw [← BitVec.twoPow_eq,BitVec.getLsbD_twoPow,and_eq_true,decide_eq_true_eq,decide_eq_true_eq]
    omega
  · rw [update_of_ne same]
    exact (or_iff_left fun equal => same (congrArg (· / 8) equal)).symm

lemma isSet_insertBits (changed : Bool) (bf : Nat → BitVec 8) (bits : List Nat) (bit : Nat) :
    IsSet (insertBits changed bf bits).2 bit ↔ IsSet bf bit ∨ bit ∈ bits := by
  induction bits generalizing changed bf with
  | nil => exact (or_iff_left not_mem_nil).symm
  | cons first rest ih => rw [insertBits,ih,isSet_mark,or_assoc,mem_cons]

lemma insertBits_changed (changed : Bool) (bf : Nat → BitVec 8) (bits : List Nat) :
    (insertBits changed bf bits).1 = true ↔ changed = true ∨ ∃ bit ∈ bits, ¬Covered (IsSet bf) bit := by
  induction bits generalizing changed bf with
  | nil => simp [insertBits]
  | cons first rest ih =>
    rw [insertBits,ih,or_eq_true,clear_iff,or_assoc]
    apply or_congr_right
    by_cases first_covered : Covered (IsSet bf) first
    · have same (bit : Nat) : Covered (IsSet (mark bf first)) bit ↔ Covered (IsSet bf) bit := by
        constructor
        · rintro ⟨other,byte,above,found⟩
          rcases (isSet_mark _ _ _).mp found with before | rfl
          · exact ⟨other,byte,above,before⟩
          · obtain ⟨higher,same_byte,farther,found⟩ := first_covered
            exact ⟨higher,same_byte.trans byte,le_trans above farther,found⟩
        · rintro ⟨other,byte,above,found⟩
          exact ⟨other,byte,above,(isSet_mark _ _ _).mpr (.inl found)⟩
      simp [same,first_covered]
    · simp [first_covered]

lemma run_set (config : Config δ) (inserts : List δ) (filter : Filter) (bit : Nat) :
    IsSet (inserts.foldl (fun filter data => (insert config filter data).2) filter).bf bit ↔
      IsSet filter.bf bit ∨ bit ∈ marked config filter inserts := by
  induction inserts generalizing filter with
  | nil => exact (or_iff_left not_mem_nil).symm
  | cons data rest ih =>
    rw [foldl_cons,ih,marked,mem_append,← or_assoc]
    apply or_congr_left
    unfold insert
    by_cases full : filter.size ≥ config.capacity
    · rw [if_pos full,if_neg (not_lt.mpr full)]
      exact (or_iff_left not_mem_nil).symm
    · rw [if_neg full,if_pos (not_le.mp full)]
      exact isSet_insertBits _ _ _ _

lemma contains_iff (config : Config δ) (filter : Filter) (data : δ) :
    contains config filter data = true ↔ ∀ bit ∈ config.assigned data, Covered (IsSet filter.bf) bit := by
  rw [contains,all_eq_true]
  refine forall₂_congr fun bit _ => ?_
  rw [not_eq_true',← Bool.not_eq_true,clear_iff,not_not]

lemma insert_iff (config : Config δ) (filter : Filter) (data : δ) :
    (insert config filter data).1 = true ↔ filter.size < config.capacity ∧ ∃ bit ∈ config.assigned data, ¬Covered (IsSet filter.bf) bit := by
  unfold insert
  by_cases full : filter.size ≥ config.capacity
  · rw [if_pos full]
    exact iff_of_false false_ne_true fun both => absurd both.1 (not_lt.mpr full)
  · rw [if_neg full]
    have changed := insertBits_changed false filter.bf (config.assigned data)
    rw [or_iff_right false_ne_true] at changed
    exact changed.trans (and_iff_right (not_le.mp full)).symm

def BloomRight (config : Config δ) (inserts : List δ) : Prop :=
  ∀ data, (contains config (run config inserts) data = true ↔ ∀ bit ∈ config.assigned data, bit ∈ marked config create inserts) ∧
    ((insert config (run config inserts) data).1 = true ↔
      (run config inserts).size < config.capacity ∧ ∃ bit ∈ config.assigned data, bit ∉ marked config create inserts)

theorem bloom_right_iff (config : Config δ) (inserts : List δ) :
    BloomRight config inserts ↔ ∀ data, (∀ bit ∈ config.assigned data, Covered (· ∈ marked config create inserts) bit) →
      ∀ bit ∈ config.assigned data, bit ∈ marked config create inserts := by
  have bits : IsSet (run config inserts).bf = (· ∈ marked config create inserts) := by
    funext bit
    rw [eq_iff_iff,run,run_set]
    exact or_iff_right (by simp [IsSet,create])
  unfold BloomRight
  simp only [contains_iff,insert_iff,bits]
  constructor
  · intro right data
    exact (right data).1.mp
  · intro full data
    have same : (∀ bit ∈ config.assigned data, Covered (· ∈ marked config create inserts) bit) ↔
        ∀ bit ∈ config.assigned data, bit ∈ marked config create inserts :=
      ⟨full data,fun all bit member => ⟨bit,rfl,Nat.le_refl _,all bit member⟩⟩
    refine ⟨same,and_congr_right fun _ => ?_⟩
    simpa only [not_forall,exists_prop] using not_congr same

def oneByte : Config UInt32 := ⟨8,by decide,2,1,fun data _ => data⟩

theorem higher_bit_contains : contains oneByte (run oneByte [1]) 0 = true ∧ (insert oneByte (run oneByte [1]) 0).1 = false ∧
    oneByte.assigned 0 = [0] ∧ marked oneByte create [1] = [1] := by
  refine ⟨?_,?_,?_,?_⟩
  · decide
  · decide
  · decide
  · decide

end MedvedDB.Bloom
