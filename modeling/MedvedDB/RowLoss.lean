import MedvedDB.RowTrip

open MedvedDB.Binn
namespace MedvedDB.RowCodec

-- The bytes an element stands for in a field of a type.
def carriedItem (type : FieldType) : Value → List UInt8
  | .bool flag => [if flag then 1 else 0]
  | .int number => store (fieldTypeSize type) number
  | .float bytes | .double bytes | .blob bytes => bytes
  | _ => []

def carried (type : FieldType) : Value → List UInt8
  | .list items => items.flatMap (carriedItem type)
  | value => carriedItem type value

inductive Encoded (calls : FieldCalls) (field : Field) (datum : Datum) : Value → Prop
  | missing (absent : fieldExists datum = false) : Encoded calls field datum (.blob [])
  | one {value : Value} (present : fieldExists datum) (limit : field.limit = 1)
      (size : datum.size = 0 ∨ datum.size = fieldTypeSize field.type)
      (added : addToList field.type (datum.read 0 (fieldTypeSize field.type)) = some value) : Encoded calls field datum value
  | empty (present : fieldExists datum) (limit : field.limit ≠ 1) (none : datum.address = 0 ∨ datum.size = 0) :
      Encoded calls field datum (.blob [])
  | bytes (present : fieldExists datum) (limit : field.limit ≠ 1) : Encoded calls field datum (.blob datum.bytes)
  | items {values : List Value} (present : fieldExists datum) (limit : field.limit ≠ 1) (wide : fieldTypeSize field.type ≠ 1)
      (whole : datum.size / fieldTypeSize field.type * fieldTypeSize field.type = datum.size)
      (added : addItems calls field.type datum (datum.size / fieldTypeSize field.type) 0 = some values) :
      Encoded calls field datum (.list values)

variable {datum : Datum} {field : Field} {calls : FieldCalls} {type : FieldType} {value : Value}

lemma binnField_encoded
    (encoded : binnField calls field datum = some value) : Encoded calls field datum value := by
  rw [binnField,ite_none_left_eq_some,ite_none_left_eq_some] at encoded
  obtain ⟨_,_,encoded⟩ := encoded
  by_cases absent : !fieldExists datum
  · rw [if_pos absent] at encoded
    cases encoded
    exact .missing (by simpa using absent)
  have present : fieldExists datum := by simpa using absent
  rw [if_neg absent,ite_none_left_eq_some,ite_none_left_eq_some] at encoded
  obtain ⟨divides,within,encoded⟩ := encoded
  have whole := Nat.div_mul_cancel (Nat.dvd_of_mod_eq_zero (not_not.mp divides))
  split at encoded
  · rename_i limit
    have few : datum.size / fieldTypeSize field.type ≤ 1 := by omega
    have size : datum.size = 0 ∨ datum.size = fieldTypeSize field.type := by
      rcases Nat.le_one_iff_eq_zero_or_eq_one.mp few with zero | one
      · rw [zero,Nat.zero_mul] at whole
        exact .inl whole.symm
      · rw [one,Nat.one_mul] at whole
        exact .inr whole.symm
    exact .one present limit size encoded
  rename_i limit
  split at encoded
  · split at encoded
    · rename_i none
      cases encoded
      exact .empty present limit none
    · cases encoded
      exact .bytes present limit
  rename_i wide
  split at encoded
  · cases encoded
  obtain ⟨values,added,rfl⟩ := map_eq_some_iff.mp encoded
  exact .items present limit wide whole added

-- A pointer a field may have: one into memory, or NULL for a field without data
-- that is not read through it.
def Pointed (field : Field) (datum : Datum) : Prop :=
  mapped datum.address ∨ datum.address = 0 ∧ datum.size = 0 ∧ field.limit ≠ 1

-- The fields that lose nothing: within 16MB, and a single BOOL is 0 or 1.
def Kept (field : Field) (datum : Datum) : Prop :=
  datum.size ≤ 0x1000000 ∧ (field.type = .bool → field.limit = 1 → ∀ byte ∈ datum.bytes, byte = 0 ∨ byte = 1)

lemma Pointed.exists_iff (pointed : Pointed field datum) :
    fieldExists datum = true ↔ datum.size ≤ 0x1000000 := by
  rcases pointed with ⟨low,high⟩ | ⟨null,empty,_⟩
  · have placed : datum.address ≠ 0 := by omega
    simp only [fieldExists,placed,if_false,decide_eq_true_eq]
    exact ⟨fun both => both.2,fun short => ⟨⟨low,high⟩,short⟩⟩
  · simp [fieldExists,null,empty]

lemma carriedItem_added (plain : type ≠ .bool)
    (length : bytes.length = fieldTypeSize type) (added : addToList type bytes = some value) : carriedItem type value = bytes := by
  obtain ⟨natural,whole⟩ := store_of_length length
  cases type with
  | bool => exact absurd rfl plain
  | char | byte | int8 | int16 | int32 | int64 =>
    cases added
    exact whole
  | uint8 | uint16 | uint32 | uint64 =>
    cases added
    exact natural
  | float | double =>
    cases added
    rfl
  | other code => cases added

lemma added_not_list (added : addToList type bytes = some value) :
    carried type value = carriedItem type value := by
  cases type <;> cases added <;> rfl

lemma addItems_carried (plain : type ≠ .bool)
    (added : addItems calls type datum count index = some values) :
    values.flatMap (carriedItem type) = datum.read (index * fieldTypeSize type) (count * fieldTypeSize type) := by
  induction count generalizing index values with
  | zero =>
    cases added
    simp [Datum.read]
  | succ count ih =>
    rw [addItems] at added
    split at added
    · split at added
      · cases added
      · rename_i value first
        obtain ⟨rest,more,rfl⟩ := map_eq_some_iff.mp added
        have here := carriedItem_added plain (datum.read_length _ _) first
        rw [flatMap_cons,here,ih more,succ_mul index,datum.read_append,succ_mul,Nat.add_comm]
    · cases added

lemma bool_carried_iff (byte : UInt8) : [byte] <+: [if unsigned [byte] ≠ 0 then 1 else 0] ↔ byte = 0 ∨ byte = 1 := by
  constructor
  · intro front
    have same := front.eq_of_length rfl
    simp only [List.cons.injEq,and_true] at same
    split at same
    · exact .inr same
    · exact .inl same
  · intro flag
    rw [flag_unsigned flag]

lemma Encoded.carries_iff (pointed : Pointed field datum)
    (encoded : Encoded calls field datum value) : datum.bytes <+: carried field.type value ↔ Kept field datum := by
  have length : datum.bytes.length = datum.size := datum.read_length 0 datum.size
  have nothing (empty : datum.size = 0) : datum.bytes = [] := length_eq_zero_iff.mp (length.trans empty)
  cases encoded with
  | missing absent =>
    have large : ¬datum.size ≤ 0x1000000 := fun short => by simp [pointed.exists_iff.mpr short] at absent
    constructor
    · intro front
      have none := front.length_le
      simp only [carried,carriedItem,length_nil,length] at none
      omega
    · intro kept
      exact absurd kept.1 large
  | one present limit size added =>
    have short := pointed.exists_iff.mp present
    rcases size with empty | full
    · simp [nothing empty,Kept,short]
    · have bytes : datum.read 0 (fieldTypeSize field.type) = datum.bytes := by rw [Datum.bytes,full]
      rw [bytes] at added
      rw [added_not_list added]
      by_cases flag : field.type = .bool
      · rw [flag] at added full ⊢
        obtain ⟨byte,single⟩ := List.length_eq_one_iff.mp (length.trans full)
        rw [single] at added ⊢
        cases added
        have same := bool_carried_iff byte
        simp only [Kept,flag,limit,short,single,mem_singleton,forall_eq,true_and,forall_const]
        simpa [carriedItem] using same
      · simp [carriedItem_added flag (length.trans full) added,Kept,short,flag]
  | empty present limit none =>
    have short := pointed.exists_iff.mp present
    have empty : datum.size = 0 := by
      rcases none with null | empty
      · rcases pointed with ⟨low,_⟩ | ⟨_,empty,_⟩
        · omega
        · exact empty
      · exact empty
    simp [nothing empty,Kept,short]
  | bytes present limit =>
    have short := pointed.exists_iff.mp present
    simp [carried,carriedItem,Kept,short,limit]
  | items present limit wide whole added =>
    have short := pointed.exists_iff.mp present
    have plain : field.type ≠ .bool := by
      intro is
      simp [is,fieldTypeSize] at wide
    have all := addItems_carried plain added
    rw [whole,Nat.zero_mul] at all
    simp [carried,all,Datum.bytes,Kept,short,limit]

def Carries (columns : Columns) (values : List Value) : Prop :=
  List.Forall₂ (fun column value => column.2.bytes <+: carried column.1.type value) columns values

lemma binnFields_carries_iff {calls : Nat → FieldCalls}
    (pointed : ∀ column ∈ columns, Pointed column.1 column.2) (encoded : binnFields calls index columns = some values) :
    Carries columns values ↔ ∀ column ∈ columns, Kept column.1 column.2 := by
  induction columns generalizing index values with
  | nil =>
    cases encoded
    simp [Carries]
  | cons column columns ih =>
    obtain ⟨field,datum⟩ := column
    rw [binnFields] at encoded
    split at encoded
    · cases encoded
    · rename_i value first
      obtain ⟨rest,more,rfl⟩ := map_eq_some_iff.mp encoded
      have here := (binnField_encoded first).carries_iff (pointed (field,datum) mem_cons_self)
      have behind := ih (fun column member => pointed column (mem_cons_of_mem _ member)) more
      rw [Carries,List.forall₂_cons,forall_mem_cons,← behind,here,Carries]

theorem nothing_dropped_iff (calls : RowCalls) (columns : Columns) (pointed : ∀ column ∈ columns, Pointed column.1 column.2) :
    (∀ values, binnRow calls columns = some values → Carries columns values) ↔
      binnRow calls columns = none ∨ ∀ column ∈ columns, Kept column.1 column.2 := by
  cases encoded : binnRow calls columns with
  | none => simp
  | some values =>
    have carries := binnFields_carries_iff pointed (binnRow_fields encoded)
    simp only [some_inj,forall_eq',reduceCtorEq,false_or]
    exact carries

lemma sampleRow_pointed : ∀ column ∈ sampleRow, Pointed column.1 column.2 := by
  intro column member
  simp only [sampleRow,mem_cons,not_mem_nil,or_false] at member
  rcases member with rfl | rfl | rfl
  · exact .inl ⟨by norm_num,by norm_num⟩
  · exact .inr ⟨rfl,rfl,by norm_num⟩
  · exact .inl ⟨by norm_num,by norm_num⟩

theorem nothing_dropped_sample : ∃ values, binnRow {} sampleRow = some values ∧ Carries sampleRow values := by
  have kept : ∀ column ∈ sampleRow, Kept column.1 column.2 :=
    fun column member => ⟨(sampleRow_fits column member).short,fun is _ => (sampleRow_fits column member).flags is⟩
  exact ⟨_,rfl,(nothing_dropped_iff {} sampleRow sampleRow_pointed).mpr (.inr kept) _ rfl⟩

def oversizedRow : Columns := [(⟨.char,0⟩,⟨0x2000,0x1000001,fun _ => 7⟩)]

theorem oversized_field_is_dropped :
    (∀ column ∈ oversizedRow, Pointed column.1 column.2) ∧ binnRow {} oversizedRow = some [.blob []] ∧
      ¬Carries oversizedRow [.blob []] := by
  refine ⟨?_,rfl,?_⟩
  · intro column member
    rw [mem_singleton.mp member]
    exact .inl ⟨by norm_num,by norm_num⟩
  · intro carries
    have none := (List.forall₂_cons.mp carries).1.length_le
    rw [Datum.bytes,Datum.read_length] at none
    simp [carried,carriedItem] at none

end MedvedDB.RowCodec
