import MedvedDB.Binn

open MedvedDB.Binn
namespace MedvedDB.TableDesc

-- mdv_field. The type is the number that is sent for it.
structure Field where
  type : UInt32
  limit : UInt32
  name : CString
  deriving DecidableEq

-- mdv_table_desc. Its count of fields is a 32-bit number.
structure Desc where
  name : CString
  fields : List Field
  sized : fields.length < 2^32

structure DescCalls where
  object : Bool := true
  name : Bool := true
  size : Bool := true
  list : Bool := true
  field : Nat → Bool := fun _ => true
  fields : Bool := true

def binnField (works : Bool) (field : Field) : Option Value :=
  if !works then none
  else some (.object [("T",.int field.type.toNat),("L",.int field.limit.toNat),("N",.text field.name.bytes)])

def binnFields (works : Nat → Bool) : Nat → List Field → Option (List Value)
  | _,[] => some []
  | index,field::rest =>
    match binnField (works index) field with
    | none => none
    | some value => (binnFields works (index + 1) rest).map (value::·)

def binnTableDesc (calls : DescCalls) (desc : Desc) : Option Value :=
  if !calls.object then none
  else if !calls.name || !calls.size then none
  else if !calls.list then none
  else match binnFields calls.field 0 desc.fields with
    | none => none
    | some fields =>
      if !calls.fields then none
      else some (.object [("N",.text desc.name.bytes),("S",.int desc.fields.length),("F",.list fields)])

-- What mdv_unbinn_table_desc leaves: nothing, a write behind the memory it has
-- allocated, a description whose array of fields was written past its end into the
-- names, or a description. A field that was never set has no value.
inductive Decoded where
  | nothing
  | overrun
  | clobbered
  | table (name : CString) (fields : List (Option Field))

inductive Fault where
  | nothing | overrun

def descSize : Nat := 24
def fieldAt (index : Nat) : Nat := descSize + index * 16

def namesSize : List Value → Option Nat
  | [] => some 0
  | value::rest =>
    match objectGetStr "N" value with
    | none => none
    | some name => (namesSize rest).map (name.size + ·)

-- The second loop. Its check lets one field more through than there is space for.
def unbinnFields (room count : Nat) : Nat → Nat → List Value → Except Fault (List Field)
  | _,_,[] => .ok []
  | index,position,value::rest =>
    if index > count then .error .nothing
    else if fieldAt index + 4 > room then .error .overrun
    else match objectGetUint32 "T" value with
    | none => .error .nothing
    | some type =>
    if fieldAt index + 8 > room then .error .overrun
    else match objectGetUint32 "L" value with
    | none => .error .nothing
    | some limit =>
    match objectGetStr "N" value with
    | none => .error .nothing
    | some name =>
      if position + name.size > room then .error .overrun
      else if fieldAt index + 16 > room then .error .overrun
      else (unbinnFields room count (index + 1) (position + name.size) rest).map (⟨type,limit,name⟩::·)

def totalSize (name : CString) (count names : Nat) : Nat := fieldAt count + name.size + names

def unbinnTableDesc (alloc : Bool) (obj : Value) : Decoded :=
  match objectGetStr "N" obj,objectGetUint32 "S" obj,objectGetList "F" obj with
  | some name,some count,some list =>
    match namesSize (foreach list) with
    | none => .nothing
    | some names =>
      let room := totalSize name count.toNat names % 2^32
      if !alloc then .nothing
      else if descSize > room then .overrun
      else if fieldAt count.toNat + name.size > room then .overrun
      else match unbinnFields room count.toNat 0 (fieldAt count.toNat + name.size) (foreach list) with
        | .error .nothing => .nothing
        | .error .overrun => .overrun
        | .ok fields =>
          if count.toNat < fields.length then .clobbered
          else .table name (fields.map some ++ replicate (count.toNat - fields.length) none)
  | _,_,_ => .nothing

def readField (value : Value) : Option Field :=
  match objectGetUint32 "T" value,objectGetUint32 "L" value,objectGetStr "N" value with
  | some type,some limit,some name => some ⟨type,limit,name⟩
  | _,_,_ => none

def nameSizes (fields : List Field) : Nat := (fields.map fun field => field.name.size).sum

lemma readField_some (first : objectGetUint32 "T" value = some type)
    (second : objectGetUint32 "L" value = some limit) (third : objectGetStr "N" value = some name) : readField value = some ⟨type,limit,name⟩ := by
  simp only [readField,first,second,third]

lemma readField_cases (read : readField value = some field) :
    objectGetUint32 "T" value = some field.type ∧ objectGetUint32 "L" value = some field.limit ∧ objectGetStr "N" value = some field.name := by
  unfold readField at read
  split at read
  · rename_i type limit name first second third
    cases read
    exact ⟨first,second,third⟩
  · cases read

lemma namesSize_read (read : values.map readField = fields.map some) :
    namesSize values = some (nameSizes fields) := by
  induction values generalizing fields with
  | nil =>
    cases fields with
    | nil => rfl
    | cons field fields => cases read
  | cons value rest ih =>
    cases fields with
    | nil => cases read
    | cons field fields =>
      obtain ⟨here,later⟩ := List.cons.inj read
      simp only [namesSize,(readField_cases here).2.2,ih later,map_some,nameSizes,map_cons,sum_cons]

lemma unbinnFields_ok (inside : position ≤ room)
    (done : unbinnFields room count index position values = .ok fields) :
    values.map readField = fields.map some ∧ position + nameSizes fields ≤ room := by
  induction values generalizing index position fields with
  | nil =>
    cases done
    exact ⟨rfl,by simpa [nameSizes] using inside⟩
  | cons value rest ih =>
    unfold unbinnFields at done
    split at done
    · cases done
    split at done
    · cases done
    split at done
    · cases done
    rename_i type first
    split at done
    · cases done
    split at done
    · cases done
    rename_i limit second
    split at done
    · cases done
    rename_i name third
    split at done
    · cases done
    rename_i fits
    split at done
    · cases done
    cases later : unbinnFields room count (index + 1) (position + name.size) rest with
    | error fault =>
      rw [later] at done
      cases done
    | ok more =>
      rw [later] at done
      cases done
      obtain ⟨read,within⟩ := ih (not_lt.mp fits) later
      refine ⟨?_,?_⟩
      · rw [map_cons,map_cons,readField_some first second third,read]
      · simp only [nameSizes,map_cons,sum_cons] at within ⊢
        omega

lemma unbinnFields_counted (counted : index + values.length = count)
    (behind : fieldAt count ≤ position) (known : namesSize values = some names) (space : position + names ≤ room) :
    (∃ fields, values.map readField = fields.map some ∧ unbinnFields room count index position values = .ok fields) ∨
      ((∃ value ∈ values, readField value = none) ∧ unbinnFields room count index position values = .error .nothing) := by
  induction values generalizing index position names with
  | nil => exact .inl ⟨[],rfl,rfl⟩
  | cons value rest ih =>
    rw [length_cons] at counted
    have slot : fieldAt index + 16 ≤ fieldAt count := by
      unfold fieldAt
      omega
    rw [namesSize] at known
    split at known
    · cases known
    rename_i name third
    obtain ⟨more,following,rfl⟩ := map_eq_some_iff.mp known
    unfold unbinnFields
    rw [if_neg (by omega),if_neg (by omega)]
    cases first : objectGetUint32 "T" value with
    | none => exact .inr ⟨⟨value,mem_cons_self,by simp [readField,first]⟩,rfl⟩
    | some type =>
      dsimp only
      rw [if_neg (by omega)]
      cases second : objectGetUint32 "L" value with
      | none => exact .inr ⟨⟨value,mem_cons_self,by simp [readField,first,second]⟩,rfl⟩
      | some limit =>
        dsimp only
        rw [third]
        dsimp only
        rw [if_neg (by omega),if_neg (by omega)]
        have here := readField_some first second third
        have next : index + 1 + rest.length = count := by omega
        have place : fieldAt count ≤ position + name.size := by omega
        have left : position + name.size + more ≤ room := by omega
        rcases ih next place following left with ⟨fields,read,done⟩ | ⟨⟨other,member,unread⟩,done⟩
        · exact .inl ⟨⟨type,limit,name⟩::fields,by simp [here,read],by rw [done]; rfl⟩
        · exact .inr ⟨⟨other,mem_cons_of_mem _ member,unread⟩,by rw [done]; rfl⟩

structure Header (obj : Value) (name : CString) (count : UInt32) (items : List Value) : Prop where
  name : objectGetStr "N" obj = some name
  count : objectGetUint32 "S" obj = some count
  items : (objectGetList "F" obj).map foreach = some items

def Describes (obj : Value) (decoded : Decoded) : Prop :=
  ∃ (name : CString) (count : UInt32) (items : List Value) (fields : List Field), Header obj name count items ∧ items.map readField = fields.map some ∧ decoded = .table name (fields.map some)

-- The declared count is the length of the list, and 32 bits hold the size.
def Counted (obj : Value) : Prop :=
  ∃ name count items names, Header obj name count items ∧ namesSize items = some names ∧ count.toNat = items.length ∧ totalSize name count.toNat names < 2^32

section Decoding

variable {obj : Value} {name : CString} {count : UInt32} {items : List Value} {names : Nat}

lemma unbinnTableDesc_header (alloc : Bool) (header : Header obj name count items) (known : namesSize items = some names) :
    unbinnTableDesc alloc obj =
      if !alloc then .nothing
      else if descSize > totalSize name count.toNat names % 2^32 then .overrun
      else if fieldAt count.toNat + name.size > totalSize name count.toNat names % 2^32 then .overrun
      else match unbinnFields (totalSize name count.toNat names % 2^32) count.toNat 0 (fieldAt count.toNat + name.size) items with
        | .error .nothing => .nothing
        | .error .overrun => .overrun
        | .ok fields =>
          if count.toNat < fields.length then .clobbered
          else .table name (fields.map some ++ replicate (count.toNat - fields.length) none) := by
  obtain ⟨list,found,rfl⟩ := map_eq_some_iff.mp header.items
  simp only [unbinnTableDesc,header.name,header.count,found,known]

lemma table_size {alloc : Bool} {fields : List Field} (header : Header obj name count items) (known : namesSize items = some names)
    (decoded : unbinnTableDesc alloc obj = .table name (fields.map some)) :
    items.map readField = fields.map some ∧ count.toNat = items.length ∧ totalSize name count.toNat names < 2^32 := by
  rw [unbinnTableDesc_header alloc header known] at decoded
  split at decoded
  · cases decoded
  split at decoded
  · cases decoded
  split at decoded
  · cases decoded
  rename_i fits
  split at decoded
  · cases decoded
  · cases decoded
  rename_i read done
  split at decoded
  · cases decoded
  rename_i enough
  obtain ⟨same,space⟩ := unbinnFields_ok (not_lt.mp fits) done
  have shape : read.map some ++ replicate (count.toNat - read.length) none = fields.map some := (Decoded.table.inj decoded).2
  have rest : count.toNat - read.length = 0 := by
    by_contra more
    have unset : none ∈ fields.map some := shape ▸ mem_append_right _ (List.mem_replicate.mpr ⟨more,rfl⟩)
    exact absurd unset (by simp)
  rw [rest,List.replicate_zero,append_nil] at shape
  have length : read.length = items.length := by simpa using (congrArg List.length same).symm
  have total : names = nameSizes read := Option.some.inj (known.symm.trans (namesSize_read same))
  refine ⟨same.trans shape,by omega,?_⟩
  rw [← total] at space
  have whole : totalSize name count.toNat names ≤ totalSize name count.toNat names % 2^32 := space
  exact lt_of_le_of_lt whole (mod_lt _ (by norm_num))

lemma counted_decoded (header : Header obj name count items) (known : namesSize items = some names) (counted : count.toNat = items.length)
    (small : totalSize name count.toNat names < 2^32) :
    (∃ fields : List Field, items.map readField = fields.map some ∧ unbinnTableDesc true obj = .table name (fields.map some)) ∨
      ((∃ value ∈ items, readField value = none) ∧ unbinnTableDesc true obj = .nothing) := by
  have head : ¬ descSize > totalSize name count.toNat names := by
    unfold totalSize fieldAt
    omega
  have named : ¬ fieldAt count.toNat + name.size > totalSize name count.toNat names := by
    unfold totalSize
    omega
  rw [unbinnTableDesc_header true header known,mod_eq_of_lt small,if_neg (by decide),if_neg head,if_neg named]
  have outcome := unbinnFields_counted (by rw [Nat.zero_add]; exact counted.symm) (Nat.le_add_right _ name.size) known (Nat.le_refl (totalSize name count.toNat names))
  rcases outcome with ⟨fields,read,done⟩ | ⟨unread,done⟩
  · have length : items.length = fields.length := by simpa using congrArg List.length read
    refine .inl ⟨fields,read,?_⟩
    rw [done]
    dsimp only
    rw [if_neg (by omega),counted,length,Nat.sub_self,List.replicate_zero,append_nil]
  · exact .inr ⟨unread,by rw [done]⟩

lemma describes_iff {alloc : Bool} (made : unbinnTableDesc alloc obj ≠ .nothing) : Describes obj (unbinnTableDesc alloc obj) ↔ Counted obj := by
  constructor
  · rintro ⟨name,count,items,fields,header,read,decoded⟩
    have known := namesSize_read read
    obtain ⟨_,counted,small⟩ := table_size header known decoded
    exact ⟨name,count,items,_,header,known,counted,small⟩
  · rintro ⟨name,count,items,names,header,known,counted,small⟩
    cases alloc with
    | false => exact absurd (unbinnTableDesc_header false header known) made
    | true =>
      rcases counted_decoded header known counted small with ⟨fields,read,decoded⟩ | ⟨_,decoded⟩
      · exact ⟨name,count,items,fields,header,read,decoded⟩
      · exact absurd decoded made

end Decoding

section Encoding

variable {obj : Value}

lemma readField_binnField (encoded : binnField works field = some value) : readField value = some field := by
  unfold binnField at encoded
  split at encoded
  · cases encoded
  · cases encoded
    refine readField_some ?_ ?_ ?_
    · rw [objectGetUint32,objectGet_first (by decide),bind_some,getUint32_toNat]
    · rw [objectGetUint32,objectGet_next (by decide),objectGet_first (by decide),bind_some,getUint32_toNat]
    · rw [objectGetStr,objectGet_next (by decide),objectGet_next (by decide),objectGet_first (by decide),bind_some,getStr_text]

lemma binnFields_read {works : Nat → Bool} (encoded : binnFields works index fields = some values) :
    values.map readField = fields.map some := by
  induction fields generalizing index values with
  | nil =>
    cases encoded
    rfl
  | cons field rest ih =>
    rw [binnFields] at encoded
    split at encoded
    · cases encoded
    · rename_i value made
      obtain ⟨more,later,rfl⟩ := map_eq_some_iff.mp encoded
      rw [map_cons,map_cons,readField_binnField made,ih later]

lemma binnTableDesc_header (encoded : binnTableDesc calls desc = some obj) :
    ∃ items, Header obj desc.name (UInt32.ofNat desc.fields.length) items ∧ items.map readField = desc.fields.map some := by
  unfold binnTableDesc at encoded
  split at encoded
  · cases encoded
  split at encoded
  · cases encoded
  split at encoded
  · cases encoded
  split at encoded
  · cases encoded
  rename_i items made
  split at encoded
  · cases encoded
  cases encoded
  refine ⟨items,⟨?_,?_,?_⟩,binnFields_read made⟩
  · rw [objectGetStr,objectGet_first (by decide),bind_some,getStr_text]
  · have number : (desc.fields.length : Int) = (UInt32.ofNat desc.fields.length).toNat := by
      rw [toNat_ofNat_of_lt' desc.sized]
    rw [objectGetUint32,objectGet_next (by decide),objectGet_first (by decide),bind_some,number,getUint32_toNat]
  · rw [objectGetList,objectGet_next (by decide),objectGet_next (by decide),objectGet_first (by decide)]
    rfl

lemma binnTableDesc_decoded {calls : DescCalls} {desc : Desc} (encoded : binnTableDesc calls desc = some obj) :
    unbinnTableDesc true obj = .table desc.name (desc.fields.map some) ↔ totalSize desc.name desc.fields.length (nameSizes desc.fields) < 2^32 := by
  obtain ⟨items,header,read⟩ := binnTableDesc_header encoded
  have known := namesSize_read read
  have number : (UInt32.ofNat desc.fields.length).toNat = desc.fields.length := toNat_ofNat_of_lt' desc.sized
  have length : items.length = desc.fields.length := by simpa using congrArg List.length read
  constructor
  · intro decoded
    obtain ⟨_,_,small⟩ := table_size header known decoded
    rwa [number] at small
  · intro small
    rcases counted_decoded header known (number.trans length.symm) (by rwa [number]) with ⟨fields,again,decoded⟩ | ⟨⟨value,member,unread⟩,_⟩
    · rw [decoded,← again,read]
    · have seen : readField value ∈ desc.fields.map some := read ▸ mem_map_of_mem member
      obtain ⟨field,_,set⟩ := mem_map.mp seen
      rw [unread] at set
      cases set

end Encoding

-- The declared count is never compared with the list. What is decoded has a field for
-- every element exactly when they agree, and what was encoded comes back as long as 32
-- bits hold its size.
theorem desc_decoding_iff (alloc : Bool) (obj : Value) (calls : DescCalls) (desc : Desc) :
    ((unbinnTableDesc alloc obj = .nothing ∨ Describes obj (unbinnTableDesc alloc obj)) ↔ (unbinnTableDesc alloc obj ≠ .nothing → Counted obj)) ∧
      ∀ encoded, binnTableDesc calls desc = some encoded →
        (unbinnTableDesc true encoded = .table desc.name (desc.fields.map some) ↔ totalSize desc.name desc.fields.length (nameSizes desc.fields) < 2^32) := by
  refine ⟨⟨fun decoded made => ?_,fun counted => ?_⟩,fun _ made => binnTableDesc_decoded made⟩
  · exact (describes_iff made).mp (decoded.resolve_left made)
  · by_cases made : unbinnTableDesc alloc obj = .nothing
    · exact .inl made
    · exact .inr ((describes_iff made).mpr (counted made))

def oneColumn : Desc := ⟨⟨[116],proper_t⟩,[⟨9,0,⟨[99],by decide⟩⟩],by decide⟩

theorem one_column_decoded : ∃ obj, binnTableDesc {} oneColumn = some obj ∧ unbinnTableDesc true obj = .table oneColumn.name (oneColumn.fields.map some) :=
  ⟨_,rfl,((desc_decoding_iff true (.int 0) {} oneColumn).2 _ rfl).mpr (by decide)⟩

-- One declared field and none in the list: the field is never set. None declared and one
-- in the list: it is written over the names.
def missingField : Value := .object [("N",.text []),("S",.int 1),("F",.list [])]
def extraField : Value := .object [("N",.text (replicate 20 97)),("S",.int 0),("F",.list [.object [("T",.int 9),("L",.int 0),("N",.text [99])]])]

theorem miscounted_decoded :
    (unbinnTableDesc true missingField = .table ⟨[],by decide⟩ [none] ∧ ¬ Describes missingField (unbinnTableDesc true missingField)) ∧
      unbinnTableDesc true extraField = .clobbered := by
  have unset : unbinnTableDesc true missingField = .table ⟨[],by decide⟩ [none] := by rfl
  refine ⟨⟨unset,?_⟩,by rfl⟩
  rintro ⟨name,count,items,fields,_,_,decoded⟩
  have shape : [none] = fields.map some := (Decoded.table.inj (unset.symm.trans decoded)).2
  have member : none ∈ fields.map some := shape ▸ mem_cons_self
  exact absurd member (by simp)

end MedvedDB.TableDesc
