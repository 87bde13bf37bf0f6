import MedvedDB.RowTrip
import MedvedDB.TableDesc

open MedvedDB.Binn MedvedDB.RowCodec
namespace MedvedDB.RowSlice

open TableDesc (Desc)

-- mdv_bitset. The test does not look at the size, so the words are the memory from
-- the first one on.
structure Bitset where
  size : Nat
  words : Nat → UInt32

def Bitset.test (bitset : Bitset) (pos : Nat) : Bool := bitset.words (pos / 32) >>> UInt32.ofNat (pos % 32) &&& 1 ≠ 0

def selects (mask : Option Bitset) (pos : Nat) : Bool :=
  match mask with
  | none => true
  | some bitset => bitset.test pos

def project {α : Type} (mask : Option Bitset) : Nat → List α → List α
  | _,[] => []
  | index,field::rest => if selects mask index then field::project mask (index + 1) rest else project mask (index + 1) rest

def masked (mask : Option Bitset) : Nat → List Field → List (Field × Bool)
  | _,[] => []
  | index,field::rest => (field,selects mask index)::masked mask (index + 1) rest

def fieldType : UInt32 → FieldType
  | 1 => .bool
  | 2 => .char
  | 3 => .byte
  | 4 => .int8
  | 5 => .uint8
  | 6 => .int16
  | 7 => .uint16
  | 8 => .int32
  | 9 => .uint32
  | 10 => .int64
  | 11 => .uint64
  | 12 => .float
  | 13 => .double
  | code => .other code

def columns (desc : Desc) : List Field := desc.fields.map fun field => ⟨fieldType field.type,field.limit.toNat⟩

def rowSlice (casts : Casts) (alloc : Bool) (value : Value) (desc : Desc) (mask : Option Bitset) : Option (List (List UInt8)) :=
  unbinnRowSlice casts alloc value (masked mask 0 (columns desc))

lemma project_length_le {α : Type} (mask : Option Bitset) (index : Nat) (fields : List α) : (project mask index fields).length ≤ fields.length := by
  induction fields generalizing index with
  | nil => exact Nat.le_refl _
  | cons field rest ih =>
    have behind := ih (index + 1)
    rw [project,length_cons]
    split
    · rw [length_cons]
      omega
    · omega

def tableSlice (alloc : Bool) (desc : Desc) (mask : Option Bitset) : Option Desc :=
  if !alloc then none
  else some ⟨desc.name,project mask 0 desc.fields,lt_of_le_of_lt (project_length_le mask 0 desc.fields) desc.sized⟩

lemma masked_length (mask : Option Bitset) (index : Nat) (fields : List Field) : (masked mask index fields).length = fields.length := by
  induction fields generalizing index with
  | nil => rfl
  | cons field rest ih => rw [masked,length_cons,ih,length_cons]

section Project

variable {α β : Type} (mask : Option Bitset)

lemma project_append (index : Nat) (front back : List α) :
    project mask index (front ++ back) = project mask index front ++ project mask (index + front.length) back := by
  induction front generalizing index with
  | nil => rfl
  | cons field rest ih =>
    rw [cons_append,project,project,ih,length_cons,Nat.add_right_comm index 1,Nat.add_assoc]
    split
    · rfl
    · rfl

lemma project_map (f : α → β) (index : Nat) (fields : List α) : project mask index (fields.map f) = (project mask index fields).map f := by
  induction fields generalizing index with
  | nil => rfl
  | cons field rest ih =>
    rw [map_cons,project,project,ih]
    split
    · rfl
    · rfl

lemma project_nil_iff (index : Nat) (fields : List α) :
    project mask index fields = [] ↔ ∀ pos, index ≤ pos → pos < index + fields.length → selects mask pos = false := by
  induction fields generalizing index with
  | nil => exact ⟨fun _ pos low high => absurd high (by simpa using low),fun _ => rfl⟩
  | cons field rest ih =>
    rw [project,length_cons]
    split
    · rename_i chosen
      refine ⟨fun empty => absurd empty (cons_ne_nil _ _),fun none => ?_⟩
      rw [none index (Nat.le_refl _) (by omega)] at chosen
      cases chosen
    · rename_i skipped
      rw [ih]
      constructor
      · intro behind pos low high
        by_cases first : pos = index
        · rw [first]
          exact eq_false_iff.mpr skipped
        · exact behind pos (by omega) (by omega)
      · intro all pos low high
        exact all pos (by omega) (by omega)

end Project

section Field

variable {casts : Casts}

def space (casts : Casts) (field : Field) (value : Value) : Nat :=
  if field.limit = 1 then fieldTypeSize field.type
  else if fieldTypeSize field.type = 1 then (content casts value).length
  else fieldTypeSize field.type * (foreach value).length

def itemBytes (casts : Casts) (type : FieldType) : List Value → Option (List UInt8)
  | [] => some []
  | value::rest =>
    match get casts type value with
    | none => none
    | some bytes => (itemBytes casts type rest).map (bytes ++ ·)

def fieldBytes (casts : Casts) (field : Field) (value : Value) : Option (List UInt8) :=
  if field.limit = 1 then get casts field.type value
  else if fieldTypeSize field.type = 1 then some (content casts value)
  else itemBytes casts field.type (foreach value)

variable {field : Field} {bytes : List UInt8} {position rowSize : Nat} {value : Value}

lemma calcField_space (small : space casts field value < 2^32) : calcField casts field value = space casts field value := by
  unfold calcField
  unfold space at small ⊢
  split
  · rfl
  · split
    · rfl
    · rename_i many wide
      rw [if_neg many,if_neg wide] at small
      exact mod_eq_of_lt small

lemma getItems_some (inside : position ≤ rowSize)
    (got : getItems casts rowSize type position values = some (bytes,next)) :
    next = position + fieldTypeSize type * values.length ∧ next ≤ rowSize ∧ itemBytes casts type values = some bytes := by
  induction values generalizing position bytes with
  | nil =>
    cases got
    exact ⟨rfl,inside,rfl⟩
  | cons value rest ih =>
    rw [getItems] at got
    split at got
    · cases got
    rename_i fits
    split at got
    · cases got
    rename_i here read
    obtain ⟨⟨more,last⟩,later,same⟩ := map_eq_some_iff.mp got
    cases same
    obtain ⟨place,within,behind⟩ := ih (not_lt.mp fits) later
    refine ⟨?_,within,?_⟩
    · rw [place,length_cons,Nat.mul_succ]
      omega
    · simp only [itemBytes,read,behind,map_some]

lemma getItems_fits (read : itemBytes casts type values = some bytes)
    (fits : position + fieldTypeSize type * values.length ≤ rowSize) :
    getItems casts rowSize type position values = some (bytes,position + fieldTypeSize type * values.length) := by
  induction values generalizing position bytes with
  | nil =>
    cases read
    rfl
  | cons value rest ih =>
    rw [length_cons,Nat.mul_succ] at fits ⊢
    rw [itemBytes] at read
    split at read
    · cases read
    rename_i here got
    obtain ⟨more,behind,rfl⟩ := map_eq_some_iff.mp read
    have room : position + fieldTypeSize type + fieldTypeSize type * rest.length ≤ rowSize := by omega
    have later := ih behind room
    rw [getItems,if_neg (by omega),got]
    dsimp only
    rw [later,map_some]
    congr 2
    omega

lemma unbinnField_some (inside : position ≤ rowSize)
    (decoded : unbinnField casts rowSize position field value = some (bytes,next)) :
    next = position + space casts field value ∧ next ≤ rowSize ∧ fieldBytes casts field value = some bytes := by
  unfold unbinnField at decoded
  unfold space fieldBytes
  split at decoded
  · rename_i one
    rw [if_pos one,if_pos one]
    split at decoded
    · cases decoded
    · rename_i fits
      obtain ⟨here,read,same⟩ := map_eq_some_iff.mp decoded
      cases same
      exact ⟨rfl,not_lt.mp fits,read⟩
  · rename_i many
    rw [if_neg many,if_neg many]
    split at decoded
    · rename_i byte
      rw [if_pos byte,if_pos byte]
      split at decoded
      · cases decoded
      · rename_i fits
        cases decoded
        exact ⟨rfl,not_lt.mp fits,rfl⟩
    · rename_i wide
      rw [if_neg wide,if_neg wide]
      exact getItems_some inside decoded

lemma unbinnField_fits (read : fieldBytes casts field value = some bytes)
    (fits : position + space casts field value ≤ rowSize) :
    unbinnField casts rowSize position field value = some (bytes,position + space casts field value) := by
  unfold fieldBytes at read
  unfold space at fits ⊢
  unfold unbinnField
  split
  · rename_i one
    rw [if_pos one] at read fits
    rw [if_neg (not_lt.mpr fits),read,map_some]
  · rename_i many
    rw [if_neg many] at read fits
    split
    · rename_i byte
      rw [if_pos byte] at read fits
      cases read
      rw [if_neg (not_lt.mpr fits)]
    · rename_i wide
      rw [if_neg wide] at read fits
      exact getItems_fits read fits

end Field

section Row

variable {casts : Casts} {mask : Option Bitset}

variable {row : List (List UInt8)} {desc : List Field} {values : List Value}

lemma calcRowSize_masked {total count : Nat} (mask : Option Bitset) (index : Nat)
    (sized : calcRowSize casts (desc.map (·,true)) values = some (total,count)) :
    count = values.length ∧ ∃ less, calcRowSize casts (masked mask index desc) values = some (less,(project mask index values).length) ∧ less ≤ total := by
  induction values generalizing desc index total count with
  | nil =>
    cases desc <;> cases sized <;> exact ⟨rfl,0,rfl,Nat.le_refl _⟩
  | cons value rest ih =>
    cases desc with
    | nil => cases sized
    | cons field desc =>
      rw [map_cons,calcRowSize,if_neg (by decide)] at sized
      split at sized
      · cases sized
      rename_i known
      obtain ⟨⟨others,number⟩,later,same⟩ := map_eq_some_iff.mp sized
      cases same
      obtain ⟨all,less,behind,fewer⟩ := ih (index + 1) later
      refine ⟨by rw [length_cons,all],?_⟩
      rw [masked,calcRowSize,project]
      by_cases chosen : selects mask index = true
      · rw [chosen,if_neg (by decide),if_neg known,if_pos rfl,behind]
        exact ⟨_,rfl,Nat.add_le_add_left fewer _⟩
      · rw [eq_false_iff.mpr chosen,if_pos (by decide),if_neg (by decide),behind]
        exact ⟨less,rfl,by omega⟩

lemma unbinnFields_masked (index : Nat)
    (small : rowSize < 2^32) (inside : position ≤ rowSize) (decoded : unbinnFields casts rowSize position (desc.map (·,true)) values = some row) :
    ∀ total count, calcRowSize casts (masked mask index desc) values = some (total,count) → ∀ place room, place + total ≤ room →
      unbinnFields casts room place (masked mask index desc) values = some (project mask index row) := by
  induction values generalizing desc index position row with
  | nil =>
    intro total count _ place room _
    cases desc <;> cases decoded <;> rfl
  | cons value rest ih =>
    cases desc with
    | nil => cases decoded
    | cons field desc =>
      rw [map_cons,unbinnFields,if_neg (by decide)] at decoded
      split at decoded
      · cases decoded
      rename_i known
      split at decoded
      · cases decoded
      rename_i bytes next here
      obtain ⟨more,later,rfl⟩ := map_eq_some_iff.mp decoded
      obtain ⟨step,within,read⟩ := unbinnField_some inside here
      have behind := ih (index + 1) within later
      intro total count sized place room fits
      rw [masked,calcRowSize] at sized
      rw [masked,unbinnFields,project]
      by_cases chosen : selects mask index = true
      · rw [chosen,if_neg (by decide),if_neg known] at sized ⊢
        obtain ⟨⟨others,number⟩,rest_sized,same⟩ := map_eq_some_iff.mp sized
        cases same
        rw [calcField_space (by omega)] at fits
        rw [unbinnField_fits read (by omega)]
        dsimp only
        rw [behind others number rest_sized _ room (by omega),if_pos rfl,map_some]
      · rw [eq_false_iff.mpr chosen,if_pos (by decide)] at sized ⊢
        rw [if_neg (by decide)]
        exact behind total count sized place room fits

structure Passes (casts : Casts) (value : Value) (desc : List (Field × Bool)) (size count : Nat) : Prop where
  table : desc.length ≠ 0
  narrow : desc.length ≤ 1000
  sized : calcRowSize casts desc (foreach value) = some (size,count)
  room : size + rowOffset + dataSize * count + 16 ≤ 0x10000000
  filled : (foreach value).length ≠ 0
  chosen : count ≠ 0

lemma unbinnRowSlice_iff {alloc : Bool} {value : Value} {desc : List (Field × Bool)} :
    unbinnRowSlice casts alloc value desc = some row ↔ alloc = true ∧ ∃ size count, Passes casts value desc size count ∧
      unbinnFields casts (size + rowOffset + dataSize * count + 16) (rowOffset + dataSize * count) desc (foreach value) = some row := by
  constructor
  · intro decoded
    unfold unbinnRowSlice at decoded
    split at decoded
    · cases decoded
    rename_i table
    split at decoded
    · cases decoded
    rename_i size count sized
    dsimp only at decoded
    split at decoded
    · cases decoded
    rename_i room
    split at decoded
    · cases decoded
    rename_i filled
    split at decoded
    · cases decoded
    rename_i some
    split at decoded
    · cases decoded
    rename_i memory
    exact ⟨by simpa using memory,size,count,⟨by omega,by omega,sized,by omega,filled,some⟩,decoded⟩
  · rintro ⟨rfl,size,count,passes,decoded⟩
    have table := passes.table
    have narrow := passes.narrow
    have room := passes.room
    rw [unbinnRowSlice,if_neg (by omega),passes.sized]
    dsimp only
    rw [if_neg (by omega),if_neg passes.filled,if_neg passes.chosen,if_neg (by decide),decoded]

lemma unbinnFields_masked_length (decoded : unbinnFields casts rowSize position (masked mask index desc) values = some row) :
    values.length ≤ desc.length ∧ row.length = (project mask index (desc.take values.length)).length := by
  induction values generalizing position index desc row with
  | nil =>
    cases desc <;> cases decoded <;> exact ⟨Nat.zero_le _,rfl⟩
  | cons value rest ih =>
    cases desc with
    | nil => cases decoded
    | cons field desc =>
      rw [masked,unbinnFields] at decoded
      rw [length_cons,length_cons,List.take_succ_cons,project]
      by_cases chosen : selects mask index = true
      · rw [chosen,if_neg (by decide)] at decoded
        split at decoded
        · cases decoded
        split at decoded
        · cases decoded
        obtain ⟨more,later,rfl⟩ := map_eq_some_iff.mp decoded
        obtain ⟨short,same⟩ := ih later
        exact ⟨succ_le_succ short,by rw [if_pos chosen,length_cons,length_cons,same]⟩
      · rw [eq_false_iff.mpr chosen,if_pos (by decide)] at decoded
        obtain ⟨short,same⟩ := ih decoded
        exact ⟨succ_le_succ short,by rw [if_neg chosen,same]⟩

end Row

theorem slice_projects (casts : Casts) (value : Value) (desc : Desc) (mask : Option Bitset) (row : List (List UInt8))
    (decoded : unbinnRow casts true value (columns desc) = some row) (selected : ∃ pos < (foreach value).length, selects mask pos = true) :
    rowSlice casts true value desc mask = some (project mask 0 row) := by
  obtain ⟨_,total,count,passes,read⟩ := unbinnRowSlice_iff.mp decoded
  obtain ⟨all,less,sized,fewer⟩ := calcRowSize_masked mask 0 passes.sized
  have table := passes.table
  have narrow := passes.narrow
  have room := passes.room
  have within : (project mask 0 (foreach value)).length ≤ count := all ▸ project_length_le mask 0 (foreach value)
  have chosen : (project mask 0 (foreach value)).length ≠ 0 := by
    obtain ⟨pos,before,here⟩ := selected
    intro empty
    rw [length_eq_zero_iff,project_nil_iff] at empty
    rw [empty pos (Nat.zero_le _) (by omega)] at here
    cases here
  rw [length_map] at table narrow
  have slots : dataSize * (project mask 0 (foreach value)).length ≤ dataSize * count := Nat.mul_le_mul_left _ within
  refine unbinnRowSlice_iff.mpr ⟨rfl,less,_,⟨?_,?_,sized,by omega,passes.filled,chosen⟩,?_⟩
  · rwa [masked_length]
  · rwa [masked_length]
  · exact unbinnFields_masked 0 (by omega) (by omega) read less _ sized _ _ (by omega)

def twoColumns : Desc := ⟨⟨[116],proper_t⟩,[⟨9,1,⟨[97],proper_a⟩⟩,⟨9,1,⟨[98],proper_b⟩⟩],by decide⟩
def secondOnly : Bitset := ⟨2,fun _ => 2⟩

theorem second_column_projects :
    rowSlice plainCasts true (.list [.int 5,.int 6]) twoColumns (some secondOnly) = some [[6,0,0,0]] :=
  slice_projects plainCasts (.list [.int 5,.int 6]) twoColumns (some secondOnly) [[5,0,0,0],[6,0,0,0]] rfl ⟨1,by decide,by decide⟩

lemma rowSlice_width {casts : Casts} {alloc : Bool} {value : Value} {desc : Desc} {mask : Option Bitset} {row : List (List UInt8)}
    (decoded : rowSlice casts alloc value desc mask = some row) :
    (foreach value).length ≤ desc.fields.length ∧
      (project mask 0 desc.fields).length = row.length + (project mask (foreach value).length (desc.fields.drop (foreach value).length)).length := by
  obtain ⟨_,_,_,_,read⟩ := unbinnRowSlice_iff.mp decoded
  obtain ⟨short,width⟩ := unbinnFields_masked_length read
  rw [columns,length_map] at short
  rw [columns,← List.map_take,project_map,length_map] at width
  refine ⟨short,?_⟩
  calc (project mask 0 desc.fields).length
      = (project mask 0 (desc.fields.take (foreach value).length ++ desc.fields.drop (foreach value).length)).length := by rw [take_append_drop]
    _ = row.length + (project mask (foreach value).length (desc.fields.drop (foreach value).length)).length := by
      rw [project_append,length_append,← width,Nat.zero_add,length_take_of_le short]

theorem slice_width_iff (casts : Casts) (alloc : Bool) (value : Value) (desc : Desc) (mask : Option Bitset) :
    (∀ row slice, rowSlice casts alloc value desc mask = some row → tableSlice true desc mask = some slice → row.length = slice.fields.length) ↔
      (rowSlice casts alloc value desc mask ≠ none → ∀ pos, (foreach value).length ≤ pos → pos < desc.fields.length → selects mask pos = false) := by
  cases decoded : rowSlice casts alloc value desc mask with
  | none => exact ⟨fun _ made => absurd rfl made,fun _ row _ made => nomatch made⟩
  | some row =>
    obtain ⟨short,width⟩ := rowSlice_width decoded
    have beyond := project_nil_iff mask (foreach value).length (desc.fields.drop (foreach value).length)
    rw [length_drop,Nat.add_sub_cancel' short] at beyond
    constructor
    · intro same _
      have equal : row.length = (project mask 0 desc.fields).length := same row _ rfl rfl
      exact beyond.mp (length_eq_zero_iff.mp (by omega))
    · intro unselected other slice read sliced
      cases read
      cases sliced
      have empty := beyond.mpr (unselected (some_ne_none row))
      rw [empty,length_nil,Nat.add_zero] at width
      exact width.symm

theorem short_list_narrow :
    ∃ row slice, rowSlice plainCasts true (.list [.int 5]) twoColumns none = some row ∧ tableSlice true twoColumns none = some slice ∧ row.length ≠ slice.fields.length := by
  exact ⟨[[5,0,0,0]],twoColumns,rfl,rfl,by decide⟩

end MedvedDB.RowSlice
