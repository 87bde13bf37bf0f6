import MedvedDB.RowSlice

open MedvedDB.Binn MedvedDB.RowSlice
namespace MedvedDB.BitsetCodec

-- mdv_bitset_capacity_calc in 64 bits, and the number of words.
def capacity (size : Nat) : Nat := 32 * ((size + 32 - 1) % 2^64 / 32)
def wordCount (size : Nat) : Nat := capacity size / 32

-- The words behind the capacity are whatever the memory holds there.
def create (memory : Nat → UInt32) (size : Nat) : Bitset := ⟨size,fun n => if n < wordCount size then 0 else memory n⟩

def set (bitset : Bitset) (pos : Nat) : Bitset :=
  {bitset with words:=update bitset.words (pos / 32) (bitset.words (pos / 32) ||| 1 <<< UInt32.ofNat (pos % 32))}

def reset (bitset : Bitset) (pos : Nat) : Bitset :=
  {bitset with words:=update bitset.words (pos / 32) (bitset.words (pos / 32) &&& ~~~(1 <<< UInt32.ofNat (pos % 32)))}

inductive Made : Bitset → Prop where
  | create (memory : Nat → UInt32) {size : Nat} (sized : size < 2^64) : Made (create memory size)
  | set {bitset : Bitset} {pos : Nat} (made : Made bitset) (below : pos < bitset.size) : Made (set bitset pos)
  | reset {bitset : Bitset} {pos : Nat} (made : Made bitset) (below : pos < bitset.size) : Made (reset bitset pos)

-- The size of a list is an int, so it does not take 2^31 items.
structure ListCalls where
  list : Bool := true
  add : Nat → Bool := fun i => i < 2^31
  full : ∀ i, 2^31 ≤ i → add i = false := by intro i large; exact decide_eq_false (not_lt.mpr large)

-- The words are sent as signed numbers.
def binnBitset (calls : ListCalls) : Option Bitset → Option Value
  | none => if !calls.list then none else some (.list [])
  | some bitset =>
    if !calls.list then none
    else if (List.range (wordCount bitset.size)).all calls.add then
      some (.list ((List.range (wordCount bitset.size)).map fun i => .int (bitset.words i).toBitVec.toInt))
    else none

def readWords (casts : Casts) : Nat → List Value → (Nat → UInt32) → Option (Nat → UInt32)
  | _,[],words => some words
  | n,value::rest,words =>
    match getInt32 casts value with
    | none => none
    | some number => readWords casts (n + 1) rest (update words n (.ofBitVec (BitVec.ofInt 32 number)))

def listLength (obj : Value) : Nat := (foreach obj).length % 2^32

def unbinnBitset (casts : Casts) (alloc : Bool) (memory : Nat → UInt32) : Option Value → Option Bitset
  | none => none
  | some obj =>
    if listLength obj = 0 then none
    else if !alloc then none
    else (readWords casts 0 (foreach obj) (create memory (listLength obj * 32)).words).map fun words => ⟨listLength obj * 32,words⟩

-- What a mask is for: no mask selects every position, a bitset the positions
-- below its size whose bit is set.
def Selected : Option Bitset → Nat → Prop
  | none,_ => True
  | some bitset,pos => pos < bitset.size ∧ bitset.test pos = true

section Bits

variable {offs pos size : Nat}

lemma bit_test (word : UInt32) (small : offs < 32) :
    decide (word >>> UInt32.ofNat offs &&& 1 ≠ 0) = word.toNat.testBit offs := by
  have shifted : (word >>> UInt32.ofNat offs &&& 1).toNat = word.toNat >>> offs &&& 1 := by
    rw [UInt32.toNat_and,UInt32.toNat_shiftRight,UInt32.toNat_ofNat',mod_eq_of_lt (by omega : offs < 2^32),mod_eq_of_lt small]
    rfl
  rw [Nat.testBit,Nat.land_comm,← shifted,Bool.eq_iff_iff,decide_eq_true_eq,bne_iff_ne,ne_eq,ne_eq,← UInt32.toNat_inj]
  rfl

lemma one_shifted (small : offs < 32) (pos : Nat) : (1 <<< UInt32.ofNat offs : UInt32).toNat.testBit pos = decide (pos = offs) := by
  have value : (1 <<< UInt32.ofNat offs : UInt32).toNat = 2 ^ offs := by
    rw [UInt32.toNat_shiftLeft,UInt32.toNat_ofNat',mod_eq_of_lt (by omega : offs < 2^32),mod_eq_of_lt small]
    have less : 2 ^ offs < 2 ^ 32 := Nat.pow_lt_pow_right (by decide) small
    show 1 <<< offs % 2^32 = _
    rw [Nat.one_shiftLeft,mod_eq_of_lt less]
  rw [value,Nat.testBit_two_pow]
  simp only [eq_comm]

lemma or_test (word : UInt32) (small : offs < 32) :
    (word ||| 1 <<< UInt32.ofNat offs).toNat.testBit pos = (word.toNat.testBit pos || decide (pos = offs)) := by
  rw [UInt32.toNat_or,Nat.testBit_or,one_shifted small]

lemma andNot_test (word : UInt32) (small : offs < 32) (within : pos < 32) :
    (word &&& ~~~(1 <<< UInt32.ofNat offs)).toNat.testBit pos = (word.toNat.testBit pos && !decide (pos = offs)) := by
  have less := (1 <<< UInt32.ofNat offs : UInt32).toNat_lt
  rw [UInt32.toNat_and,Nat.testBit_and,← one_shifted small,UInt32.toNat_not]
  have flipped : UInt32.size - 1 - (1 <<< UInt32.ofNat offs : UInt32).toNat = 2^32 - ((1 <<< UInt32.ofNat offs : UInt32).toNat + 1) := by
    simp only [UInt32.size]
    omega
  rw [flipped,Nat.testBit_two_pow_sub_succ less]
  simp [within]

variable {bitset : Bitset} {pos : Nat}

lemma test_eq (bitset : Bitset) (pos : Nat) : bitset.test pos = (bitset.words (pos / 32)).toNat.testBit (pos % 32) :=
  bit_test _ (mod_lt _ (by decide))

lemma same_place (word : other / 32 = pos / 32) : decide (other % 32 = pos % 32) = decide (other = pos) := by
  rw [decide_eq_decide]
  omega

lemma set_test (bitset : Bitset) (pos other : Nat) : (set bitset pos).test other = (bitset.test other || decide (other = pos)) := by
  rw [test_eq,test_eq,set]
  dsimp only
  by_cases word : other / 32 = pos / 32
  · rw [word,update_self,or_test _ (mod_lt _ (by decide)),same_place word]
  · have apart : other ≠ pos := fun same => word (congrArg (· / 32) same)
    rw [update_of_ne word,decide_eq_false apart,Bool.or_false]

lemma reset_test (bitset : Bitset) (pos other : Nat) : (reset bitset pos).test other = (bitset.test other && !decide (other = pos)) := by
  rw [test_eq,test_eq,reset]
  dsimp only
  by_cases word : other / 32 = pos / 32
  · rw [word,update_self,andNot_test _ (mod_lt _ (by decide)) (mod_lt _ (by decide)),same_place word]
  · have apart : other ≠ pos := fun same => word (congrArg (· / 32) same)
    rw [update_of_ne word,decide_eq_false apart,Bool.not_false,Bool.and_true]

lemma capacity_words (size : Nat) : capacity size = wordCount size * 32 := by
  rw [wordCount,capacity]
  omega

lemma create_test {memory : Nat → UInt32} (inside : pos < capacity size) : (create memory size).test pos = false := by
  have word : pos / 32 < wordCount size := by
    rw [capacity_words] at inside
    omega
  rw [test_eq,create]
  dsimp only
  rw [if_pos word]
  exact Nat.zero_testBit _

lemma Made.padding (made : Made bitset) :
    bitset.size < 2^64 ∧ ∀ pos, bitset.size ≤ pos → pos < capacity bitset.size → bitset.test pos = false := by
  induction made with
  | create memory sized => exact ⟨sized,fun pos _ inside => create_test inside⟩
  | @set bitset changed made below ih =>
    refine ⟨ih.1,fun pos behind inside => ?_⟩
    have apart : pos ≠ changed := (Nat.lt_of_lt_of_le below behind).ne'
    rw [set_test,ih.2 pos behind inside,decide_eq_false apart]
    rfl
  | @reset bitset changed made below ih =>
    refine ⟨ih.1,fun pos behind inside => ?_⟩
    rw [reset_test,ih.2 pos behind inside]
    rfl

lemma wordCount_zero_iff (sized : size < 2^64) : wordCount size ≠ 0 ↔ 0 < size ∧ size ≤ 2^64 - 32 := by
  rw [wordCount,capacity]
  omega

lemma size_le_capacity (fits : size ≤ 2^64 - 32) : size ≤ capacity size := by
  rw [capacity]
  omega

end Bits

section Words

lemma getInt32_word (casts : Casts) (word : UInt32) : getInt32 casts (.int word.toBitVec.toInt) = some word.toBitVec.toInt := by
  have low := BitVec.le_toInt word.toBitVec
  have high := BitVec.toInt_lt (x:=word.toBitVec)
  exact getInt32_int casts _ (by simpa using low) (by simpa using high)

lemma readWords_words (casts : Casts) (items : List UInt32) (start : Nat) (words : Nat → UInt32) :
    readWords casts start (items.map fun word => .int word.toBitVec.toInt) words =
      some fun n => if start ≤ n then items[n - start]?.getD (words n) else words n := by
  induction items generalizing start words with
  | nil => simp [readWords]
  | cons word rest ih =>
    rw [map_cons,readWords,getInt32_word]
    dsimp only
    rw [BitVec.ofInt_toInt,ih]
    congr 1
    funext n
    rcases Nat.lt_trichotomy n start with before | here | behind
    · rw [if_neg (by omega),if_neg (by omega),update_of_ne (by omega)]
    · subst here
      simp
    · obtain ⟨distance,rfl⟩ := Nat.exists_eq_add_of_le behind
      rw [if_pos (by omega),if_pos (by omega),update_of_ne (by omega),Nat.add_sub_cancel_left,
        show start.succ + distance - start = distance + 1 by omega,List.getElem?_cons_succ]

lemma binnBitset_some (encoded : binnBitset calls (some bitset) = some obj) :
    wordCount bitset.size < 2^32 ∧ obj = .list (((List.range (wordCount bitset.size)).map bitset.words).map fun word => .int word.toBitVec.toInt) := by
  rw [binnBitset,ite_none_left_eq_some,ite_none_right_eq_some] at encoded
  obtain ⟨_,added,made⟩ := encoded
  refine ⟨?_,by rw [← Option.some.inj made,map_map]; rfl⟩
  by_contra many
  have taken := all_eq_true.mp added (2^31) (mem_range.mpr (by omega))
  rw [calls.full _ le_rfl] at taken
  cases taken

lemma decoded_some (casts : Casts) (memory : Nat → UInt32) {bitset : Bitset} (count : wordCount bitset.size < 2^32) (filled : wordCount bitset.size ≠ 0) :
    ∃ words, unbinnBitset casts true memory
        (some (.list (((List.range (wordCount bitset.size)).map bitset.words).map fun word => .int word.toBitVec.toInt))) =
        some ⟨capacity bitset.size,words⟩ ∧
      ∀ pos < capacity bitset.size, (Bitset.test ⟨capacity bitset.size,words⟩ pos) = bitset.test pos := by
  have length : listLength (.list (((List.range (wordCount bitset.size)).map bitset.words).map fun word => .int word.toBitVec.toInt)) =
      wordCount bitset.size := by
    rw [listLength,foreach,length_map,length_map,List.length_range,mod_eq_of_lt count]
  refine ⟨fun n => ((List.range (wordCount bitset.size)).map bitset.words)[n]?.getD ((create memory (wordCount bitset.size * 32)).words n),?_,?_⟩
  · rw [unbinnBitset,length,if_neg filled,capacity_words,foreach,readWords_words]
    rfl
  · intro pos inside
    have word : pos / 32 < wordCount bitset.size := by
      rw [capacity_words] at inside
      omega
    rw [test_eq,test_eq]
    simp [word]

end Words

theorem mask_round_trip_iff (casts : Casts) (calls : ListCalls) (alloc : Bool) (memory : Nat → UInt32) (mask : Option Bitset) (obj : Value)
    (made : ∀ bitset ∈ mask, Made bitset) (encoded : binnBitset calls mask = some obj) :
    (∀ pos, Selected (unbinnBitset casts alloc memory (some obj)) pos ↔ Selected mask pos) ↔
      ∀ bitset ∈ mask, 0 < bitset.size ∧ bitset.size ≤ 2^64 - 32 ∧ alloc = true := by
  cases mask with
  | none =>
    rw [binnBitset,ite_none_left_eq_some] at encoded
    cases encoded.2
    exact ⟨fun _ _ absent => (nomatch absent),fun _ pos => Iff.rfl⟩
  | some bitset =>
    obtain ⟨sized,padding⟩ := (made bitset rfl).padding
    obtain ⟨count,rfl⟩ := binnBitset_some encoded
    -- Where nothing is decoded, everything is selected, and the size itself should not be.
    have all {shown : Option Bitset} (nothing : shown = none) (same : ∀ pos, Selected shown pos ↔ Selected (some bitset) pos) : False := by
      subst nothing
      exact absurd ((same bitset.size).mp trivial).1 (Nat.lt_irrefl _)
    constructor
    · intro same other member
      cases member
      by_cases filled : wordCount bitset.size = 0
      · exact (all (by simp [unbinnBitset,listLength,foreach,filled]) same).elim
      · obtain ⟨positive,fits⟩ := (wordCount_zero_iff sized).mp filled
        refine ⟨positive,fits,?_⟩
        cases alloc with
        | true => rfl
        | false => exact (all (by simp [unbinnBitset]) same).elim
    · intro condition pos
      obtain ⟨positive,fits,rfl⟩ := condition bitset rfl
      obtain ⟨words,decoded,bits⟩ := decoded_some casts memory count ((wordCount_zero_iff sized).mpr ⟨positive,fits⟩)
      have room := size_le_capacity fits
      rw [decoded]
      constructor
      · intro selected
        obtain ⟨inside,bit⟩ := selected
        rw [bits pos inside] at bit
        refine ⟨?_,bit⟩
        by_contra behind
        rw [padding pos (not_lt.mp behind) inside] at bit
        cases bit
      · intro selected
        obtain ⟨inside,bit⟩ := selected
        exact ⟨Nat.lt_of_lt_of_le inside room,by rw [bits pos (Nat.lt_of_lt_of_le inside room)]; exact bit⟩

def noCasts : Casts := ⟨fun _ => none,fun _ => none,fun _ => none,fun _ => none,id,fun _ => []⟩

theorem empty_mask_selects_all :
    binnBitset {} (some (create (fun _ => 0) 0)) = some (.list []) ∧ ¬Selected (some (create (fun _ => 0) 0)) 0 ∧
      Selected (unbinnBitset noCasts true (fun _ => 0) (some (.list []))) 0 :=
  ⟨rfl,fun selected => absurd selected.1 (Nat.lt_irrefl 0),trivial⟩

theorem mask_of_two_fields :
    binnBitset {} (some (set (create (fun _ => 0) 2) 1)) = some (.list [.int 2]) ∧
      ∀ pos, Selected (unbinnBitset noCasts true (fun _ => 0) (some (.list [.int 2]))) pos ↔ Selected (some (set (create (fun _ => 0) 2) 1)) pos := by
  have made : Made (set (create (fun _ => 0) 2) 1) := .set (.create _ (by decide)) (by decide)
  have encoded : binnBitset {} (some (set (create (fun _ => 0) 2) 1)) = some (.list [.int 2]) := rfl
  refine ⟨encoded,?_⟩
  refine (mask_round_trip_iff noCasts {} true (fun _ => 0) _ _ ?_ encoded).mpr ?_
  · intro bitset member
    cases member
    exact made
  · intro bitset member
    cases member
    decide

end MedvedDB.BitsetCodec
