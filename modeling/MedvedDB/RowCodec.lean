import MedvedDB.Binn

open MedvedDB.Binn List
namespace MedvedDB.RowCodec

inductive FieldType where
  | bool | char | byte | int8 | uint8 | int16 | uint16 | int32 | uint32 | int64 | uint64 | float | double
  | other (code : UInt32)
  deriving DecidableEq, Repr

def fieldTypeSize : FieldType → Nat
  | .bool | .char | .byte | .int8 | .uint8 => 1
  | .int16 | .uint16 => 2
  | .int32 | .uint32 | .float => 4
  | .int64 | .uint64 | .double => 8
  | .other _ => 0

structure Field where
  type : FieldType
  limit : Nat
  deriving DecidableEq, Repr

-- mdv_data: a pointer, a size, and the memory behind the pointer.
structure Datum where
  address : Nat
  size : Nat
  memory : Nat → UInt8

def Datum.read (datum : Datum) (offset count : Nat) : List UInt8 := (range' offset count).map datum.memory

def Datum.bytes (datum : Datum) : List UInt8 := datum.read 0 datum.size

lemma Datum.read_length (datum : Datum) (offset count : Nat) : (datum.read offset count).length = count := by
  simp [Datum.read]

lemma Datum.read_append (datum : Datum) (offset one two : Nat) :
    datum.read offset one ++ datum.read (offset + one) two = datum.read offset (one + two) := by
  simp only [Datum.read,← map_append,range'_append_1]

abbrev Columns := List (Field × Datum)

structure FieldCalls where
  items : Bool := true
  item : Nat → Bool := fun _ => true
  add : Bool := true

structure RowCalls where
  create : Bool := true
  field : Nat → FieldCalls := fun _ => {}

def addToList (type : FieldType) (data : List UInt8) : Option Value :=
  match type with
  | .bool => some (.bool (unsigned data ≠ 0))
  | .char | .byte | .int8 | .int16 | .int32 | .int64 => some (.int (signed data))
  | .uint8 | .uint16 | .uint32 | .uint64 => some (.int (unsigned data))
  | .float => some (.float data)
  | .double => some (.double data)
  | .other _ => none

-- Values of every integer type but two pass through an int, the others and
-- UINT64 too through an int64.
def get (casts : Casts) (type : FieldType) (value : Value) : Option (List UInt8) :=
  match type with
  | .bool => (getBool casts value).map fun flag => [if flag then 1 else 0]
  | .char | .byte | .int8 | .uint8 | .int16 | .uint16 | .int32 => (getInt32 casts value).map (store (fieldTypeSize type))
  | .uint32 | .int64 | .uint64 => (getInt64 casts value).map (store (fieldTypeSize type))
  | .float => (getDouble casts value).map casts.narrow
  | .double => getDouble casts value
  | .other _ => none

def mapped (address : Nat) : Prop := 0x1000 ≤ address ∧ address ≤ 0x7fffffffffff

instance (address : Nat) : Decidable (mapped address) := inferInstanceAs (Decidable (_ ∧ _))

-- The guards of mdv_binn_row against fields that do not lie in memory.
def fieldExists (datum : Datum) : Bool :=
  if datum.address = 0 then datum.size ≤ 1000000
  else mapped datum.address ∧ datum.size ≤ 0x1000000

def addItems (calls : FieldCalls) (type : FieldType) (datum : Datum) : Nat → Nat → Option (List Value)
  | 0,_ => some []
  | count+1,index =>
    if calls.item index then
      match addToList type (datum.read (index * fieldTypeSize type) (fieldTypeSize type)) with
      | none => none
      | some value => (addItems calls type datum count (index + 1)).map (value::·)
    else none

-- One turn of the loop of mdv_binn_row. A field that passes the guards has at
-- most 2^24 items, so their number does not leave 32 bits.
def binnField (calls : FieldCalls) (field : Field) (datum : Datum) : Option Value :=
  if fieldTypeSize field.type = 0 then none
  else if !calls.add then none
  else if !fieldExists datum then some (.blob [])
  else if datum.size % fieldTypeSize field.type ≠ 0 then none
  else if field.limit ≠ 0 ∧ field.limit < datum.size / fieldTypeSize field.type then none
  else if field.limit = 1 then addToList field.type (datum.read 0 (fieldTypeSize field.type))
  else if fieldTypeSize field.type = 1 then
    if datum.address = 0 ∨ datum.size = 0 then some (.blob []) else some (.blob datum.bytes)
  else if !calls.items then none
  else (addItems calls field.type datum (datum.size / fieldTypeSize field.type) 0).map .list

def binnFields (calls : Nat → FieldCalls) : Nat → Columns → Option (List Value)
  | _,[] => some []
  | index,(field,datum)::rest =>
    match binnField (calls index) field datum with
    | none => none
    | some value => (binnFields calls (index + 1) rest).map (value::·)

def hasAnyData (columns : Columns) : Bool := columns.any fun column => column.2.address ≠ 0 ∧ 0 < column.2.size

def binnRow (calls : RowCalls) (columns : Columns) : Option (List Value) :=
  if !calls.create then none
  else if !hasAnyData columns then none
  else match binnFields calls.field 0 columns with
    | none => none
    | some values => if values.length = 0 then none else some values

def rowOffset : Nat := 40
def dataSize : Nat := 16

-- The length of an array times the size of its items is kept in 32 bits.
def calcField (casts : Casts) (field : Field) (value : Value) : Nat :=
  if field.limit = 1 then fieldTypeSize field.type
  else if fieldTypeSize field.type = 1 then (content casts value).length
  else fieldTypeSize field.type * (foreach value).length % 2^32

def calcRowSize (casts : Casts) : List (Field × Bool) → List Value → Option (Nat × Nat)
  | _,[] => some (0,0)
  | [],_::_ => none
  | (field,chosen)::desc,value::rest =>
    if !chosen then calcRowSize casts desc rest
    else if fieldTypeSize field.type = 0 then none
    else (calcRowSize casts desc rest).map fun total => (calcField casts field value + total.1,total.2 + 1)

def getItems (casts : Casts) (rowSize : Nat) (type : FieldType) : Nat → List Value → Option (List UInt8 × Nat)
  | position,[] => some ([],position)
  | position,value::rest =>
    if position + fieldTypeSize type > rowSize then none
    else match get casts type value with
      | none => none
      | some bytes => (getItems casts rowSize type (position + fieldTypeSize type) rest).map fun more =>
        (bytes ++ more.1,more.2)

def unbinnField (casts : Casts) (rowSize position : Nat) (field : Field) (value : Value) : Option (List UInt8 × Nat) :=
  if field.limit = 1 then
    if position + fieldTypeSize field.type > rowSize then none
    else (get casts field.type value).map (·,position + fieldTypeSize field.type)
  else if fieldTypeSize field.type = 1 then
    if position + (content casts value).length > rowSize then none
    else some (content casts value,position + (content casts value).length)
  else getItems casts rowSize field.type position (foreach value)

def unbinnFields (casts : Casts) (rowSize : Nat) : Nat → List (Field × Bool) → List Value → Option (List (List UInt8))
  | _,_,[] => some []
  | _,[],_::_ => none
  | position,(field,chosen)::desc,value::rest =>
    if !chosen then unbinnFields casts rowSize position desc rest
    else if fieldTypeSize field.type = 0 then none
    else match unbinnField casts rowSize position field value with
      | none => none
      | some (bytes,next) => (unbinnFields casts rowSize next desc rest).map (bytes::·)

-- The fields of the row that mdv_unbinn_row_slice makes of the columns the
-- mask names.
def unbinnRowSlice (casts : Casts) (alloc : Bool) (value : Value) (desc : List (Field × Bool)) : Option (List (List UInt8)) :=
  if desc.length = 0 ∨ desc.length > 1000 then none
  else match calcRowSize casts desc (foreach value) with
    | none => none
    | some (size,count) =>
      let rowSize := size + rowOffset + dataSize * count + 16
      if rowSize > 0x10000000 then none
      else if (foreach value).length = 0 then none
      else if count = 0 then none
      else if !alloc then none
      else unbinnFields casts rowSize (rowOffset + dataSize * count) desc (foreach value)

def unbinnRow (casts : Casts) (alloc : Bool) (value : Value) (desc : List Field) : Option (List (List UInt8)) :=
  unbinnRowSlice casts alloc value (desc.map (·,true))

lemma binnRow_fields (encoded : binnRow calls columns = some values) :
    binnFields calls.field 0 columns = some values := by
  unfold binnRow at encoded
  split at encoded
  · cases encoded
  · split at encoded
    · cases encoded
    · split at encoded
      · cases encoded
      · rename_i fields made
        split at encoded
        · cases encoded
        · rwa [← encoded]

lemma binnFields_length {calls : Nat → FieldCalls}
    (encoded : binnFields calls index columns = some values) : values.length = length columns := by
  induction columns generalizing index values with
  | nil =>
    cases encoded
    rfl
  | cons column columns ih =>
    rw [binnFields] at encoded
    split at encoded
    · cases encoded
    · obtain ⟨rest,more,rfl⟩ := map_eq_some_iff.mp encoded
      rw [length_cons,length_cons,ih more]

variable {casts : Casts} {desc : List Field} {row : List (List UInt8)}

lemma unbinnFields_length {rowSize position : Nat} {values : List Value}
    (decoded : unbinnFields casts rowSize position (desc.map (·,true)) values = some row) :
    row.length = values.length := by
  induction values generalizing position desc row with
  | nil =>
    cases desc <;> cases decoded <;> rfl
  | cons value rest ih =>
    cases desc with
    | nil => cases decoded
    | cons field desc =>
      simp only [map_cons,unbinnFields,Bool.not_true,false_eq_true,if_false] at decoded
      split at decoded
      · cases decoded
      · split at decoded
        · cases decoded
        · obtain ⟨more,behind,rfl⟩ := map_eq_some_iff.mp decoded
          rw [length_cons,length_cons,ih behind]

lemma unbinnRow_length {value : Value}
    (decoded : unbinnRow casts true value desc = some row) : row.length = (foreach value).length := by
  unfold unbinnRow unbinnRowSlice at decoded
  split at decoded
  · cases decoded
  split at decoded
  · cases decoded
  dsimp only at decoded
  split at decoded
  · cases decoded
  split at decoded
  · cases decoded
  split at decoded
  · cases decoded
  split at decoded
  · cases decoded
  · exact unbinnFields_length decoded

end MedvedDB.RowCodec
