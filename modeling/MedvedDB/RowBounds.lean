import MedvedDB.RowSlice

open MedvedDB.Binn MedvedDB.RowCodec
namespace MedvedDB.RowSlice

inductive Stop where
  | bounds | columns | type | value
  deriving DecidableEq, Repr

abbrev Decoding := List Nat × Except Stop Nat

def Decoding.andThen (first : Decoding) (next : Nat → Decoding) : Decoding :=
  match first.2 with
  | .error _ => first
  | .ok position => (first.1 ++ (next position).1,(next position).2)

-- A bound check and the write behind it. binn_get writes a zero if it fails.
def writeTo (rowSize last : Nat) (got : Bool) : Decoding :=
  if last > rowSize then ([],.error .bounds) else ([last],if got then .ok last else .error .value)

def decodeItems (casts : Casts) (rowSize : Nat) (type : FieldType) : Nat → List Value → Decoding
  | position,[] => ([],.ok position)
  | position,value::rest =>
    (writeTo rowSize (position + fieldTypeSize type) (get casts type value).isSome).andThen (decodeItems casts rowSize type · rest)

def decodeField (casts : Casts) (rowSize position : Nat) (field : Field) (value : Value) : Decoding :=
  if field.limit = 1 then writeTo rowSize (position + fieldTypeSize field.type) (get casts field.type value).isSome
  else if fieldTypeSize field.type = 1 then writeTo rowSize (position + (content casts value).length) true
  else decodeItems casts rowSize field.type position (foreach value)

-- The loop of mdv_unbinn_row_slice. The mdv_data of a field is counted as written
-- before its bytes.
def decodeFields (casts : Casts) (rowSize : Nat) : Nat → Nat → List (Field × Bool) → List Value → Decoding
  | _,position,_,[] => ([],.ok position)
  | _,_,[],_::_ => ([],.error .columns)
  | index,position,(field,chosen)::desc,value::rest =>
    if !chosen then decodeFields casts rowSize index position desc rest
    else if fieldTypeSize field.type = 0 then ([],.error .type)
    else Decoding.andThen ([rowOffset + dataSize * (index + 1)],.ok position) fun position =>
      (decodeField casts rowSize position field value).andThen fun position => decodeFields casts rowSize (index + 1) position desc rest

def decodeRow (casts : Casts) (size count : Nat) (desc : List (Field × Bool)) (value : Value) : Decoding :=
  decodeFields casts (size + rowOffset + dataSize * count + 16) 0 (rowOffset + dataSize * count) desc (foreach value)

def arrayBytes (field : Field) (value : Value) : Nat :=
  if field.limit = 1 ∨ fieldTypeSize field.type = 1 then 0 else fieldTypeSize field.type * (foreach value).length

structure Bounded (limit : Nat) (decoding : Decoding) : Prop where
  writes : ∀ last ∈ decoding.1, last ≤ limit
  stop : ∀ stop, decoding.2 = .error stop → stop = .value

section Bounds

variable {casts : Casts} {rowSize limit : Nat} {decoding : Decoding}

lemma Bounded.andThen (first : Bounded limit decoding) (next : ∀ position, decoding.2 = .ok position → Bounded limit (after position)) :
    Bounded limit (decoding.andThen after) := by
  unfold Decoding.andThen
  split
  · exact first
  · rename_i position came
    refine ⟨fun last member => ?_,(next position came).stop⟩
    rcases mem_append.mp member with before | behind
    · exact first.writes last before
    · exact (next position came).writes last behind

lemma andThen_ok (came : (decoding.andThen after).2 = .ok last) : ∃ position, decoding.2 = .ok position ∧ (after position).2 = .ok last := by
  unfold Decoding.andThen at came
  split at came
  · rename_i stopped
    rw [stopped] at came
    cases came
  · exact ⟨_,‹_›,came⟩

lemma writeTo_ok (came : (writeTo rowSize last got).2 = .ok position) : position = last ∧ got = true ∧ ¬last > rowSize := by
  unfold writeTo at came
  split at came
  · cases came
  · cases got <;> cases came
    exact ⟨rfl,rfl,‹_›⟩

lemma writeTo_bounded (inside : limit ≤ rowSize) (fits : last ≤ limit) (got : Bool) : Bounded limit (writeTo rowSize last got) := by
  rw [writeTo,if_neg (by omega)]
  refine ⟨fun other member => (mem_singleton.mp member).trans_le fits,fun stop stopped => ?_⟩
  cases got <;> cases stopped
  rfl

lemma decodeItems_ok (came : (decodeItems casts rowSize type position values).2 = .ok last) :
    last = position + fieldTypeSize type * values.length ∧ ∃ bytes, getItems casts rowSize type position values = some (bytes,last) := by
  induction values generalizing position with
  | nil =>
    cases came
    exact ⟨rfl,_,rfl⟩
  | cons value rest ih =>
    obtain ⟨_,here,later⟩ := andThen_ok came
    obtain ⟨rfl,got,fits⟩ := writeTo_ok here
    obtain ⟨bytes,read⟩ := isSome_iff_exists.mp got
    obtain ⟨place,more,behind⟩ := ih later
    refine ⟨by rw [place,length_cons,Nat.mul_succ]; omega,bytes ++ more,?_⟩
    rw [getItems,if_neg fits,read]
    dsimp only
    rw [behind]
    rfl

lemma decodeItems_bounded (inside : limit ≤ rowSize) (values : List Value) (fits : position + fieldTypeSize type * values.length ≤ limit) :
    Bounded limit (decodeItems casts rowSize type position values) := by
  induction values generalizing position with
  | nil => exact ⟨by simp [decodeItems],by simp [decodeItems]⟩
  | cons value rest ih =>
    rw [length_cons,Nat.mul_succ] at fits
    refine (writeTo_bounded inside (by omega) _).andThen fun next came => ih ?_
    rw [(writeTo_ok came).1]
    omega

lemma decodeField_ok (came : (decodeField casts rowSize position field value).2 = .ok last) :
    last = position + space casts field value ∧ ∃ bytes, unbinnField casts rowSize position field value = some (bytes,last) := by
  unfold decodeField at came
  unfold space unbinnField
  split at came
  · rename_i one
    obtain ⟨rfl,got,fits⟩ := writeTo_ok came
    obtain ⟨bytes,read⟩ := isSome_iff_exists.mp got
    rw [if_pos one,if_pos one,if_neg fits,read]
    exact ⟨rfl,_,rfl⟩
  · rename_i many
    rw [if_neg many,if_neg many]
    split at came
    · rename_i byte
      obtain ⟨rfl,_,fits⟩ := writeTo_ok came
      rw [if_pos byte,if_pos byte,if_neg fits]
      exact ⟨rfl,_,rfl⟩
    · rename_i wide
      rw [if_neg wide,if_neg wide]
      exact decodeItems_ok came

lemma decodeField_bounded (inside : limit ≤ rowSize) (fits : position + space casts field value ≤ limit) :
    Bounded limit (decodeField casts rowSize position field value) := by
  unfold space at fits
  unfold decodeField
  split
  · rename_i one
    rw [if_pos one] at fits
    exact writeTo_bounded inside fits _
  · rename_i many
    rw [if_neg many] at fits
    split
    · rename_i byte
      rw [if_pos byte] at fits
      exact writeTo_bounded inside fits _
    · rename_i wide
      rw [if_neg wide] at fits
      exact decodeItems_bounded inside _ fits

lemma calcField_array (small : arrayBytes field value < 2^32) : calcField casts field value = space casts field value := by
  unfold calcField space
  unfold arrayBytes at small
  split
  · rfl
  · split
    · rfl
    · rw [if_neg (by tauto)] at small
      exact mod_eq_of_lt small

-- The two passes in step: what the first has still to add is what the second has
-- still to write.
lemma decodeFields_bounded (inside : limit ≤ rowSize) (desc : List (Field × Bool)) (values : List Value)
    (arrays : ∀ column ∈ desc.zip values, column.1.2 = true → arrayBytes column.1.1 column.2 < 2^32)
    (sized : calcRowSize casts desc values = some (size,count)) (fits : position + size ≤ limit) (slots : rowOffset + dataSize * (index + count) ≤ limit) :
    Bounded limit (decodeFields casts rowSize index position desc values) := by
  induction values generalizing desc index position size count with
  | nil => exact ⟨by simp [decodeFields],by simp [decodeFields]⟩
  | cons value rest ih =>
    cases desc with
    | nil => cases sized
    | cons column desc =>
      obtain ⟨field,chosen⟩ := column
      rw [calcRowSize] at sized
      rw [decodeFields]
      rw [List.zip_cons_cons,forall_mem_cons] at arrays
      cases chosen with
      | false => exact ih desc arrays.2 sized fits slots
      | true =>
        rw [if_neg (by decide)] at sized ⊢
        split at sized
        · cases sized
        rename_i known
        obtain ⟨⟨others,number⟩,later,same⟩ := map_eq_some_iff.mp sized
        cases same
        dsimp only at fits slots arrays
        rw [calcField_array (arrays.1 rfl)] at fits
        rw [if_neg known]
        have slot : Bounded limit ([rowOffset + dataSize * (index + 1)],.ok position) := by
          refine ⟨fun last member => ?_,by simp⟩
          rw [mem_singleton.mp member]
          unfold dataSize at slots ⊢
          omega
        refine slot.andThen fun _ came => ?_
        cases came
        refine (decodeField_bounded inside (by omega)).andThen fun next came => ih desc arrays.2 later ?_ (by rw [Nat.add_right_comm]; exact slots)
        rw [(decodeField_ok came).1]
        omega

lemma decodeFields_ok (came : (decodeFields casts rowSize index position desc values).2 = .ok last) :
    ∃ row, unbinnFields casts rowSize position desc values = some row := by
  induction values generalizing desc index position with
  | nil => exact ⟨[],by cases desc <;> rfl⟩
  | cons value rest ih =>
    cases desc with
    | nil => cases came
    | cons column desc =>
      obtain ⟨field,chosen⟩ := column
      rw [decodeFields] at came
      rw [unbinnFields]
      cases chosen with
      | false => exact ih came
      | true =>
        rw [if_neg (by decide)] at came ⊢
        split at came
        · cases came
        rename_i known
        obtain ⟨_,start,decoded⟩ := andThen_ok came
        cases start
        obtain ⟨next,here,later⟩ := andThen_ok decoded
        obtain ⟨_,bytes,read⟩ := decodeField_ok here
        obtain ⟨row,behind⟩ := ih later
        rw [if_neg known,read]
        dsimp only
        rw [behind]
        exact ⟨_,rfl⟩

def Inside (limit : Nat) (decoding : Decoding) : Prop := ∀ last ∈ decoding.1, last ≤ limit

lemma Inside.andThen (first : Inside limit decoding) (next : ∀ position, Inside limit (after position)) : Inside limit (decoding.andThen after) := by
  unfold Decoding.andThen
  split
  · exact first
  · intro last member
    exact (mem_append.mp member).elim (first last) (next _ last)

lemma writeTo_inside : Inside rowSize (writeTo rowSize last got) := by
  unfold writeTo Inside
  split <;> simp
  omega

lemma decodeField_inside : Inside rowSize (decodeField casts rowSize position field value) := by
  have items (values : List Value) (position : Nat) : Inside rowSize (decodeItems casts rowSize field.type position values) := by
    induction values generalizing position with
    | nil => simp [Inside,decodeItems]
    | cons value rest ih => exact writeTo_inside.andThen ih
  unfold decodeField
  split
  · exact writeTo_inside
  · split
    · exact writeTo_inside
    · exact items _ _

lemma decodeFields_inside (sized : calcRowSize casts desc values = some (size,count)) (slots : rowOffset + dataSize * (index + count) ≤ rowSize) :
    Inside rowSize (decodeFields casts rowSize index position desc values) := by
  induction values generalizing desc index position size count with
  | nil => simp [Inside,decodeFields]
  | cons value rest ih =>
    cases desc with
    | nil => cases sized
    | cons column desc =>
      obtain ⟨field,chosen⟩ := column
      rw [calcRowSize] at sized
      rw [decodeFields]
      cases chosen with
      | false => exact ih sized slots
      | true =>
        rw [if_neg (by decide)] at sized ⊢
        split at sized
        · cases sized
        rename_i known
        obtain ⟨⟨others,number⟩,later,same⟩ := map_eq_some_iff.mp sized
        cases same
        rw [if_neg known]
        refine Inside.andThen ?_ fun _ => decodeField_inside.andThen fun _ => ih later (by rw [Nat.add_right_comm]; exact slots)
        unfold dataSize at slots ⊢
        simp [Inside]
        omega

end Bounds

def oneArray : TableDesc.Desc := ⟨⟨[116],proper_t⟩,[⟨10,0,⟨[97],proper_a⟩⟩],by decide⟩

def zeros (number : Nat) : Value := .list (replicate number (.int 0))

lemma array_wraps (more : Nat) (wraps : 8 * (more + 3) % 2^32 = 0) :
    calcRowSize plainCasts (masked none 0 (columns oneArray)) [zeros (more + 3)] = some (0,1) ∧
      decodeRow plainCasts 0 1 (masked none 0 (columns oneArray)) (.list [zeros (more + 3)]) = ([56,64,72],.error .bounds) := by
  constructor
  · have field : calcField plainCasts ⟨.int64,0⟩ (zeros (more + 3)) = 0 := by
      rw [calcField,if_neg (by decide),if_neg (by decide),zeros,foreach,List.length_replicate]
      exact wraps
    show some (calcField plainCasts ⟨.int64,0⟩ (zeros (more + 3)) + 0,1) = _
    rw [field]
  · rfl

theorem decoding_inside (casts : Casts) (value : Value) (desc : List (Field × Bool)) (sized : calcRowSize casts desc (foreach value) = some (size,count)) :
    Inside (size + rowOffset + dataSize * count + 16) (decodeRow casts size count desc value) :=
  decodeFields_inside sized (by rw [Nat.zero_add]; omega)

theorem half_billion_inside : Inside 72 (decodeRow plainCasts 0 1 (masked none 0 (columns oneArray)) (.list [zeros (536870909 + 3)])) :=
  decoding_inside _ (.list [zeros _]) _ (array_wraps 536870909 (by decide)).1

end MedvedDB.RowSlice
