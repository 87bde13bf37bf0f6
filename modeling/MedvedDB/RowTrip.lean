import MedvedDB.RowCodec

open MedvedDB.Binn
namespace MedvedDB.RowCodec

def integral : FieldType → Prop
  | .float | .double | .other _ => False
  | _ => True

structure Fits (field : Field) (datum : Datum) : Prop where
  known : integral field.type
  whole : datum.size % fieldTypeSize field.type = 0
  one : field.limit = 1 → datum.size = fieldTypeSize field.type
  many : field.limit ≠ 0 → datum.size / fieldTypeSize field.type ≤ field.limit
  short : datum.size ≤ 2^24
  placed : datum.size ≠ 0 → mapped datum.address
  flags : field.type = .bool → ∀ byte ∈ datum.bytes, byte = 0 ∨ byte = 1

-- UINT64 is read back through a signed number.
def readable (type : FieldType) (bytes : List UInt8) : Bool := type = .uint64 → unsigned bytes < 2^63

def itemAt (type : FieldType) (datum : Datum) (index : Nat) : List UInt8 :=
  datum.read (index * fieldTypeSize type) (fieldTypeSize type)

def readableField (type : FieldType) (datum : Datum) : Bool :=
  (range' 0 (datum.size / fieldTypeSize type)).all fun index => readable type (itemAt type datum index)

variable {columns : Columns} {datum : Datum} {field : Field} {type : FieldType}

lemma integral_size (known : integral type) : fieldTypeSize type ≠ 0 := by
  cases type <;> simp_all [integral,fieldTypeSize]

lemma bounds_of_length (length : bytes.length = count) :
    unsigned bytes < 256 ^ count ∧ -(256 ^ count : Nat) ≤ 2 * signed bytes ∧ 2 * signed bytes < (256 ^ count : Nat) := by
  subst length
  exact ⟨unsigned_lt bytes,signed_bounds bytes⟩

lemma store_of_length (length : bytes.length = count) :
    store count (unsigned bytes) = bytes ∧ store count (signed bytes) = bytes := by
  subst length
  exact ⟨store_unsigned bytes,store_signed bytes⟩

lemma flag_unsigned (flag : byte = 0 ∨ byte = 1) : [if unsigned [byte] ≠ 0 then 1 else 0] = [byte] := by
  rcases flag with rfl | rfl <;> rfl

lemma get_addToList (casts : Casts) (bytes : List UInt8) (known : integral type)
    (length : bytes.length = fieldTypeSize type) (flags : type = .bool → ∀ byte ∈ bytes, byte = 0 ∨ byte = 1) :
    ∃ value, addToList type bytes = some value ∧ get casts type value = if readable type bytes then some bytes else none := by
  obtain ⟨large,low,high⟩ := bounds_of_length length
  obtain ⟨natural,whole⟩ := store_of_length length
  cases type with
  | bool =>
    obtain ⟨byte,rfl⟩ := List.length_eq_one_iff.mp length
    refine ⟨_,rfl,?_⟩
    have same := flag_unsigned (flags rfl byte (mem_singleton_self byte))
    simpa [get,getBool,readable] using same
  | char | byte | int8 | int16 | int32 =>
    refine ⟨_,rfl,?_⟩
    simp only [fieldTypeSize] at low high
    have within := getInt32_int casts (signed bytes) (by omega) (by omega)
    simp [get,within,readable,whole]
  | uint8 | uint16 =>
    refine ⟨_,rfl,?_⟩
    simp only [fieldTypeSize] at large
    have within := getInt32_int casts (unsigned bytes) (by omega) (by omega)
    simp [get,within,readable,natural]
  | uint32 =>
    refine ⟨_,rfl,?_⟩
    simp only [fieldTypeSize] at large
    have within := getInt64_int casts (unsigned bytes) (by omega) (by omega)
    simp [get,within,readable,natural]
  | int64 =>
    refine ⟨_,rfl,?_⟩
    simp only [fieldTypeSize] at low high
    have within := getInt64_int casts (signed bytes) (by omega) (by omega)
    simp [get,within,readable,whole]
  | uint64 =>
    refine ⟨_,rfl,?_⟩
    by_cases positive : unsigned bytes < 2^63
    · have within := getInt64_int casts (unsigned bytes) (by omega) (by omega)
      rw [if_pos (by simpa [readable] using positive)]
      simp [get,within,natural]
    · have beyond := getInt64_large casts (unsigned bytes) (by omega)
      rw [if_neg (by simpa [readable] using positive)]
      simp [get,beyond]
  | float | double | other => exact absurd known id

lemma addItems_reads (casts : Casts) (datum : Datum) (known : integral type) (wide : type ≠ .bool)
    (count index : Nat) :
    ∃ values, addItems {} type datum count index = some values ∧ values.length = count ∧
      ∀ rowSize position, position + count * fieldTypeSize type ≤ rowSize →
        getItems casts rowSize type position values =
          if (range' index count).all fun index => readable type (itemAt type datum index) then
            some (datum.read (index * fieldTypeSize type) (count * fieldTypeSize type),position + count * fieldTypeSize type)
          else none := by
  induction count generalizing index with
  | zero => exact ⟨[],rfl,rfl,fun rowSize position _ => by simp [getItems,Datum.read]⟩
  | succ count ih =>
    obtain ⟨value,added,got⟩ := get_addToList casts (itemAt type datum index) known
      (datum.read_length _ _) (fun is => absurd is wide)
    obtain ⟨values,rest,length,items⟩ := ih (index + 1)
    refine ⟨value::values,?_,by simp [length],?_⟩
    · simp only [itemAt] at added
      simp [addItems,added,rest]
    · intro rowSize position space
      have here : ¬position + fieldTypeSize type > rowSize := by rw [succ_mul] at space; omega
      have behind := items rowSize (position + fieldTypeSize type) (by rw [succ_mul] at space; omega)
      have joined : itemAt type datum index ++ datum.read ((index + 1) * fieldTypeSize type) (count * fieldTypeSize type)
          = datum.read (index * fieldTypeSize type) ((count + 1) * fieldTypeSize type) := by
        rw [itemAt,succ_mul index,datum.read_append]
        congr 1
        rw [succ_mul,Nat.add_comm]
      rw [getItems,if_neg here,got,behind,range'_succ,all_cons]
      by_cases first : readable type (itemAt type datum index)
      · rw [if_pos first]
        simp only [first,Bool.true_and]
        split
        · simp only [map_some,joined,some_inj,Prod.mk.injEq,true_and]
          rw [succ_mul]
          omega
        · rfl
      · rw [if_neg first]
        simp [first]

lemma Fits.exists_of_size (fits : Fits field datum) (some : datum.size ≠ 0) :
    fieldExists datum = true ∧ datum.address ≠ 0 := by
  obtain ⟨low,high⟩ := fits.placed some
  have short := fits.short
  have placed : datum.address ≠ 0 := by omega
  refine ⟨?_,placed⟩
  simpa only [fieldExists,placed,if_false,decide_eq_true_eq] using ⟨⟨low,high⟩,short⟩

lemma Fits.binnField_eq (fits : Fits field datum) (present : fieldExists datum) :
    binnField {} field datum =
      if field.limit = 1 then addToList field.type (datum.read 0 (fieldTypeSize field.type))
      else if fieldTypeSize field.type = 1 then
        if datum.address = 0 ∨ datum.size = 0 then some (.blob []) else some (.blob datum.bytes)
      else (addItems {} field.type datum (datum.size / fieldTypeSize field.type) 0).map .list := by
  have within : ¬(field.limit ≠ 0 ∧ field.limit < datum.size / fieldTypeSize field.type) :=
    fun beyond => absurd (fits.many beyond.1) (by omega)
  have whole : ¬datum.size % fieldTypeSize field.type ≠ 0 := not_not.mpr fits.whole
  rw [binnField,if_neg (integral_size fits.known),if_neg (by simp),if_neg (by simp [present]),if_neg whole,if_neg within]
  rfl

lemma readableField_bytes (datum : Datum) (byte : fieldTypeSize type = 1) : readableField type datum = true := by
  simp only [readableField,all_eq_true,readable]
  intro index _
  cases type <;> simp_all [fieldTypeSize]

lemma readableField_empty (empty : datum.size = 0) : readableField type datum = true := by
  simp [readableField,empty]

-- What a field is read back as: the space that is asked for it and its bytes.
structure Reads (casts : Casts) (field : Field) (datum : Datum) (value : Value) : Prop where
  size : calcField casts field value = datum.size
  bytes : ∀ rowSize position, position + datum.size ≤ rowSize →
    unbinnField casts rowSize position field value =
      if readableField field.type datum then some (datum.bytes,position + datum.size) else none

lemma reads_one (casts : Casts) (fits : Fits field datum) (one : field.limit = 1) :
    ∃ value, binnField {} field datum = some value ∧ Reads casts field datum value := by
  have positive := integral_size fits.known
  have size := fits.one one
  obtain ⟨present,_⟩ := fits.exists_of_size (by omega)
  have bytes : datum.bytes = datum.read 0 (fieldTypeSize field.type) := by rw [Datum.bytes,size]
  obtain ⟨value,added,got⟩ := get_addToList casts datum.bytes fits.known (by rw [bytes,datum.read_length]) fits.flags
  refine ⟨value,?_,?_,?_⟩
  · rw [fits.binnField_eq present,if_pos one,← bytes,added]
  · simp [calcField,one,size]
  · intro rowSize position space
    have here : ¬position + fieldTypeSize field.type > rowSize := by omega
    have same : readableField field.type datum = readable field.type datum.bytes := by
      simp [readableField,size,Nat.div_self (Nat.pos_of_ne_zero positive),itemAt,bytes]
    rw [unbinnField,if_pos one,if_neg here,got,same,size]
    split <;> rfl

lemma reads_bytes (casts : Casts) (fits : Fits field datum) (many : field.limit ≠ 1)
    (byte : fieldTypeSize field.type = 1) :
    ∃ value, binnField {} field datum = some value ∧ Reads casts field datum value := by
  have encoded : binnField {} field datum = some (.blob datum.bytes) := by
    by_cases empty : datum.size = 0
    · have none : datum.bytes = [] := by simp [Datum.bytes,Datum.read,empty]
      simp [binnField,byte,many,empty,none]
    · obtain ⟨present,placed⟩ := fits.exists_of_size empty
      simp [fits.binnField_eq present,many,byte,placed,empty]
  have length : datum.bytes.length = datum.size := datum.read_length 0 datum.size
  refine ⟨_,encoded,?_,?_⟩
  · simp [calcField,many,byte,content,length]
  · intro rowSize position space
    have here : ¬position + datum.size > rowSize := by omega
    simp [unbinnField,many,byte,content,length,here,readableField_bytes datum byte]

lemma reads_items (casts : Casts) (fits : Fits field datum) (many : field.limit ≠ 1)
    (wide : fieldTypeSize field.type ≠ 1) :
    ∃ value, binnField {} field datum = some value ∧ Reads casts field datum value := by
  have positive := integral_size fits.known
  have short := fits.short
  have whole : datum.size / fieldTypeSize field.type * fieldTypeSize field.type = datum.size :=
    Nat.div_mul_cancel (Nat.dvd_of_mod_eq_zero fits.whole)
  have notBool : field.type ≠ .bool := by
    intro is
    simp [is,fieldTypeSize] at wide
  obtain ⟨values,added,length,items⟩ := addItems_reads casts datum fits.known notBool (datum.size / fieldTypeSize field.type) 0
  by_cases present : fieldExists datum
  · refine ⟨.list values,?_,?_,?_⟩
    · rw [fits.binnField_eq present,if_neg many,if_neg wide,added,map_some]
    · rw [calcField,if_neg many,if_neg wide,foreach,length,Nat.mul_comm,whole]
      exact mod_eq_of_lt (by omega)
    · intro rowSize position space
      have got := items rowSize position (by rw [whole]; exact space)
      rw [whole,Nat.zero_mul] at got
      rw [unbinnField,if_neg many,if_neg wide]
      exact got
  · -- Only an empty field is taken for a missing one here.
    have empty : datum.size = 0 := by
      by_contra some
      exact present (fits.exists_of_size some).1
    refine ⟨.blob [],?_,?_,?_⟩
    · simp [binnField,positive,present]
    · simp [calcField,many,wide,foreach,empty]
    · intro rowSize position _
      simp [unbinnField,many,wide,foreach,getItems,readableField_empty empty,Datum.bytes,Datum.read,empty]

lemma binnField_reads (casts : Casts) (fits : Fits field datum) :
    ∃ value, binnField {} field datum = some value ∧ Reads casts field datum value := by
  by_cases one : field.limit = 1
  · exact reads_one casts fits one
  · by_cases byte : fieldTypeSize field.type = 1
    · exact reads_bytes casts fits one byte
    · exact reads_items casts fits one byte

def total (columns : Columns) : Nat := (columns.map fun column => column.2.size).sum

def entrySize (columns : Columns) : Nat := total columns + rowOffset + dataSize * columns.length + 16

def chosen (columns : Columns) : List (Field × Bool) := columns.map fun column => (column.1,true)

def contents (columns : Columns) : List (List UInt8) := columns.map fun column => column.2.bytes

lemma binnFields_reads (casts : Casts) (fits : ∀ column ∈ columns, Fits column.1 column.2) (index : Nat) :
    ∃ values, binnFields (fun _ => {}) index columns = some values ∧ values.length = columns.length ∧
      calcRowSize casts (chosen columns) values = some (total columns,columns.length) ∧
      ∀ rowSize position, position + total columns ≤ rowSize →
        unbinnFields casts rowSize position (chosen columns) values =
          if columns.all fun column => readableField column.1.type column.2 then some (contents columns) else none := by
  induction columns generalizing index with
  | nil => exact ⟨[],rfl,rfl,rfl,fun _ _ _ => rfl⟩
  | cons column columns ih =>
    obtain ⟨field,datum⟩ := column
    have first : Fits field datum := fits (field,datum) mem_cons_self
    have positive := integral_size first.known
    obtain ⟨value,encoded,reads⟩ := binnField_reads casts first
    obtain ⟨values,rest,length,sized,items⟩ := ih (fun column member => fits column (mem_cons_of_mem _ member)) (index + 1)
    refine ⟨value::values,?_,by simp [length],?_,?_⟩
    · simp [binnFields,encoded,rest]
    · simp only [chosen,map_cons,calcRowSize]
      simp only [chosen] at sized
      simp [positive,sized,reads.size,total]
    · intro rowSize position space
      have split : total ((field,datum)::columns) = datum.size + total columns := by simp [total]
      rw [split] at space
      have here := reads.bytes rowSize position (by omega)
      have behind := items rowSize (position + datum.size) (by omega)
      simp only [chosen] at behind
      simp only [chosen,map_cons,unbinnFields,here]
      by_cases readable : readableField field.type datum
      · simp only [readable,if_true,positive,if_false,Bool.not_true,false_eq_true,behind,all_cons,Bool.true_and]
        split <;> simp [contents]
      · simp [readable,positive]

lemma hasAnyData_of_fits (fits : ∀ column ∈ columns, Fits column.1 column.2)
    (filled : ∃ column ∈ columns, column.2.size ≠ 0) : hasAnyData columns = true := by
  obtain ⟨column,member,some⟩ := filled
  obtain ⟨_,placed⟩ := (fits column member).exists_of_size some
  rw [hasAnyData,any_eq_true]
  exact ⟨column,member,decide_eq_true ⟨placed,Nat.pos_of_ne_zero some⟩⟩

lemma unbinnRow_binnRow (casts : Casts) (fits : ∀ column ∈ columns, Fits column.1 column.2)
    (filled : ∃ column ∈ columns, column.2.size ≠ 0) :
    ∃ values, binnRow {} columns = some values ∧
      unbinnRow casts true (.list values) (columns.map Prod.fst) =
        if columns.length ≤ 1000 ∧ entrySize columns ≤ 0x10000000 ∧
            columns.all (fun column => readableField column.1.type column.2) then some (contents columns)
        else none := by
  obtain ⟨values,encoded,length,sized,items⟩ := binnFields_reads casts fits 0
  have some : columns.length ≠ 0 := by
    obtain ⟨column,member,_⟩ := filled
    exact Nat.ne_of_gt (length_pos_of_mem member)
  have desc : (columns.map Prod.fst).map (·,true) = chosen columns := by simp [chosen]
  have width : (chosen columns).length = columns.length := by simp [chosen]
  refine ⟨values,?_,?_⟩
  · simp [binnRow,hasAnyData_of_fits fits filled,encoded,length,some]
  · rw [unbinnRow,desc,unbinnRowSlice,width]
    simp only [foreach,sized,length,some,false_or,if_false,Bool.not_true,false_eq_true]
    by_cases narrow : columns.length ≤ 1000
    · by_cases small : entrySize columns ≤ 0x10000000
      · have got := items (total columns + rowOffset + dataSize * columns.length + 16) (rowOffset + dataSize * columns.length)
          (by omega)
        rw [if_neg (by omega),if_neg (by simp only [entrySize] at small; omega),got]
        exact if_congr ⟨fun all => ⟨narrow,small,all⟩,fun all => all.2.2⟩ rfl rfl
      · rw [if_neg (by omega),if_pos (by simp only [entrySize] at small; omega),if_neg (fun all => small all.2.1)]
    · rw [if_pos (by omega),if_neg (fun all => narrow all.1)]

def RoundTrips (casts : Casts) (columns : Columns) : Prop :=
  ∃ values, binnRow {} columns = some values ∧
    unbinnRow casts true (.list values) (columns.map Prod.fst) = some (contents columns)

lemma readableField_iff :
    readableField type datum = true ↔
      (type = .uint64 → ∀ index < datum.size / 8, unsigned (datum.read (index * 8) 8) < 2^63) := by
  by_cases wide : type = .uint64
  · subst wide
    simp [readableField,readable,itemAt,fieldTypeSize]
  · simp [readableField,readable,wide]

theorem row_round_trip_iff (casts : Casts) (columns : Columns) (fits : ∀ column ∈ columns, Fits column.1 column.2)
    (filled : ∃ column ∈ columns, column.2.size ≠ 0) :
    RoundTrips casts columns ↔ columns.length ≤ 1000 ∧ entrySize columns ≤ 0x10000000 ∧
      ∀ column ∈ columns, column.1.type = .uint64 →
        ∀ index < column.2.size / 8, unsigned (column.2.read (index * 8) 8) < 2^63 := by
  obtain ⟨values,encoded,decoded⟩ := unbinnRow_binnRow casts fits filled
  simp only [all_eq_true,readableField_iff] at decoded
  constructor
  · intro trips
    obtain ⟨others,same,read⟩ := trips
    rw [encoded,some_inj] at same
    rw [← same,decoded] at read
    by_contra refused
    rw [if_neg refused] at read
    exact absurd read (by simp)
  · intro kept
    rw [if_pos kept] at decoded
    exact ⟨values,encoded,decoded⟩

def plainCasts : Casts where
  int32 := fun _ => none
  int64 := fun _ => none
  bool := fun _ => none
  double := fun _ => none
  narrow := fun bytes => bytes.take 4
  container := fun _ => []

def sampleRow : Columns :=
  [(⟨.uint64,1⟩,⟨0x2000,8,fun index => if index = 0 then 5 else 0⟩),(⟨.bool,0⟩,⟨0,0,fun _ => 0⟩),
    (⟨.int16,4⟩,⟨0x3000,4,fun _ => 255⟩)]

lemma sampleRow_fits : ∀ column ∈ sampleRow, Fits column.1 column.2 := by
  intro column member
  simp only [sampleRow,mem_cons,not_mem_nil,or_false] at member
  rcases member with rfl | rfl | rfl <;>
    exact ⟨trivial,rfl,by decide,by decide,by decide,by decide,by simp [Datum.bytes,Datum.read]⟩

theorem row_round_trip_sample : RoundTrips plainCasts sampleRow :=
  (row_round_trip_iff plainCasts sampleRow sampleRow_fits ⟨_,mem_cons_self,by decide⟩).mpr
    ⟨by decide,by decide,by decide⟩

def largeRow : Columns := [(⟨.uint64,1⟩,⟨0x2000,8,fun index => if index = 7 then 128 else 0⟩)]

-- A UINT64 of 2^63 is written, but the reader asks for an int64.
theorem large_uint64_is_not_read :
    (∀ column ∈ largeRow, Fits column.1 column.2) ∧ binnRow {} largeRow = some [.int (2^63)] ∧
      ∀ casts, unbinnRow casts true (.list [.int (2^63)]) [⟨.uint64,1⟩] = none := by
  refine ⟨?_,rfl,fun _ => rfl⟩
  intro column member
  rw [mem_singleton.mp member]
  exact ⟨trivial,rfl,by decide,by decide,by decide,by decide,by simp⟩

end MedvedDB.RowCodec
