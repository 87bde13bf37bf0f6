import MedvedDB.Memory
import MedvedDB.Uuid
import MedvedDB.RowSlice

open MedvedDB.Binn MedvedDB.RowSlice
namespace MedvedDB.TablesSlice

open Memory (read_written)

def unbinnTableUuid : Value → Option Uuid := Uuid.unbinn "U0" "U1"

def unbinnTableName (obj : Value) : Option CString := (objectGetObject "D" obj).bind (objectGetStr "N")

-- What the first loop leaves. A uuid that is not read is zero, a name is NULL.
structure Found where
  uuid : Uuid := ⟨0,0⟩
  name : Option CString := none
  fields : Nat := 0
  size : Nat := 0

def calcColumn (obj : Value) (found : Found) : Nat → Option Found
  | 0 => (unbinnTableUuid obj).map fun uuid => {found with uuid:=uuid,size:=found.size + 16,fields:=found.fields + 1}
  | 1 => (unbinnTableName obj).map fun name => {found with name:=some name,size:=found.size + name.size,fields:=found.fields + 1}
  | _ => none

def calcRow (obj : Value) (mask : Option Bitset) : Option Found :=
  (List.range 2).foldlM (fun found n => if !selects mask n then some found else calcColumn obj found n) {}

inductive Sliced where
  | nothing
  | overrun
  | row (columns : List (List UInt8))

def sizeAt (index : Nat) : Nat := RowCodec.rowOffset + RowCodec.dataSize * index
def ptrAt (index : Nat) : Nat := sizeAt index + 8

def pointer (address : UInt64) (offset : Nat) : List UInt8 := unsignedBytes 8 (address + UInt64.ofNat offset).toNat

def writeInside (room : Nat) (memory : Memory) (write : Nat × List UInt8) : Option Memory :=
  if write.1 + write.2.length > room then none else some (memory.write write.1 write.2)

-- The writes behind the allocation. Both columns are filled, whatever the mask selects.
def writes (address : UInt64) (found : Found) : List (Nat × List UInt8) :=
  let dataspace := sizeAt found.fields
  let name := (found.name.map CString.terminated).getD []
  [(ptrAt 0,pointer address dataspace),(sizeAt 0,unsignedBytes 8 16),(dataspace,found.uuid.bytes),
    (ptrAt 1,pointer address (dataspace + 16)),(sizeAt 1,unsignedBytes 8 name.length),(dataspace + 16,name)]

def fieldOf (address : UInt64) (memory : Memory) (index : Nat) : List UInt8 :=
  memory.read (UInt64.ofNat (unsigned (memory.read (ptrAt index) 8)) - address).toNat (unsigned (memory.read (sizeAt index) 8))

-- The memory that mdv_alloc returns is at any address and holds anything. A row that
-- does not end where its size says fails the assertion.
def unbinnTableAsRowSlice (entry : Option (UInt64 × Memory)) (obj : Value) (mask : Option Bitset) : Sliced :=
  match calcRow obj mask with
  | none => .nothing
  | some found =>
    if found.fields = 0 ∨ found.fields > 2 then .nothing
    else match entry with
    | none => .nothing
    | some (address,memory) =>
      let room := found.size + sizeAt found.fields
      match (writes address found).foldlM (writeInside room) memory with
      | none => .overrun
      | some memory =>
        if sizeAt found.fields + 16 + ((found.name.map CString.terminated).getD []).length ≠ room then .overrun
        else .row ((List.range found.fields).map (fieldOf address memory))

-- An object in the storage of the tables. The length of a text is an int.
structure Stored where
  obj : Value
  uuid : Uuid
  name : CString
  hasUuid : unbinnTableUuid obj = some uuid
  hasName : unbinnTableName obj = some name
  short : name.size < 2^31

def tableRow (stored : Stored) : List (List UInt8) := [stored.uuid.bytes,stored.name.terminated]

section Rows

variable {mask : Option Bitset} {stored : Stored}

lemma pointer_length (address : UInt64) (offset : Nat) : (pointer address offset).length = 8 := unsignedBytes_length _ _

lemma fieldOf_set (near : offset < 2^64) (small : bytes.length < 2^64)
    (ptr : memory.read (ptrAt index) 8 = pointer address offset) (size : memory.read (sizeAt index) 8 = unsignedBytes 8 bytes.length)
    (data : memory.read offset bytes.length = bytes) : fieldOf address memory index = bytes := by
  have place : (UInt64.ofNat (address + UInt64.ofNat offset).toNat - address).toNat = offset := by
    rw [UInt64.ofNat_toNat,add_sub_cancel_left]
    exact UInt64.toNat_ofNat_of_lt' near
  rw [fieldOf,ptr,size,pointer,unsigned_unsignedBytes (UInt64.toNat_lt _),unsigned_unsignedBytes small,place,data]

lemma calcRow_both (first : selects mask 0 = true) (second : selects mask 1 = true) :
    calcRow stored.obj mask = some ⟨stored.uuid,some stored.name,2,16 + stored.name.size⟩ := by
  simp [calcRow,range_succ,first,second,calcColumn,stored.hasUuid,stored.hasName]

lemma calcRow_first (first : selects mask 0 = true) (second : selects mask 1 = false) :
    calcRow stored.obj mask = some ⟨stored.uuid,none,1,16⟩ := by
  simp [calcRow,range_succ,first,second,calcColumn,stored.hasUuid]

lemma calcRow_second (first : selects mask 0 = false) (second : selects mask 1 = true) :
    calcRow stored.obj mask = some ⟨⟨0,0⟩,some stored.name,1,stored.name.size⟩ := by
  simp [calcRow,range_succ,first,second,calcColumn,stored.hasName]

lemma calcRow_neither (first : selects mask 0 = false) (second : selects mask 1 = false) :
    calcRow stored.obj mask = some {} := by
  simp [calcRow,range_succ,first,second]

lemma writes_inside (memory : Memory) (inside : ∀ write ∈ list, write.1 + write.2.length ≤ room) :
    list.foldlM (writeInside room) memory = some (memory.writeAll list) := by
  induction list generalizing memory with
  | nil => rfl
  | cons write rest ih =>
    have here : writeInside room memory write = some (memory.write write.1 write.2) := if_neg (not_lt.mpr (inside write mem_cons_self))
    rw [foldlM_cons,here]
    exact ih _ fun other member => inside other (mem_cons_of_mem _ member)

lemma sliced_both (address : UInt64) (memory : Memory) (first : selects mask 0 = true) (second : selects mask 1 = true) :
    unbinnTableAsRowSlice (some (address,memory)) stored.obj mask = .row (tableRow stored) := by
  have short := stored.short
  have uuid := stored.uuid.bytes_length
  have name := stored.name.terminated_length
  have list : writes address ⟨stored.uuid,some stored.name,2,16 + stored.name.size⟩ =
      [(48,pointer address 72),(40,unsignedBytes 8 16),(72,stored.uuid.bytes),(64,pointer address 88),
        (56,unsignedBytes 8 stored.name.terminated.length),(88,stored.name.terminated)] := rfl
  have all : ∀ write ∈ writes address ⟨stored.uuid,some stored.name,2,16 + stored.name.size⟩, write.1 + write.2.length ≤ 16 + stored.name.size + sizeAt 2 := by
    rw [list]
    simp only [mem_cons,not_mem_nil,or_false,forall_eq_or_imp,forall_eq,pointer_length,unsignedBytes_length,uuid,name,sizeAt,
      RowCodec.rowOffset,RowCodec.dataSize]
    omega
  simp only [unbinnTableAsRowSlice,calcRow_both first second]
  rw [if_neg (by omega),writes_inside memory all]
  dsimp only [map_some,getD_some]
  rw [if_neg (by rw [name]; omega)]
  refine congrArg Sliced.row ?_
  rw [list]
  generalize after : memory.writeAll _ = now
  have uuidField : fieldOf address now 0 = stored.uuid.bytes := by
    have ptr := read_written [] _ after (by simp [pointer_length,unsignedBytes_length,uuid])
    have size := read_written [_] _ after (by simp [pointer_length,unsignedBytes_length,uuid])
    have data := read_written [_,_] _ after (by simp [pointer_length,unsignedBytes_length,uuid])
    rw [pointer_length] at ptr
    rw [unsignedBytes_length] at size
    exact fieldOf_set (by decide) (by rw [uuid]; decide) ptr (by rw [uuid]; exact size) data
  have nameField : fieldOf address now 1 = stored.name.terminated := by
    have ptr := read_written [_,_,_] _ after (by simp [pointer_length,unsignedBytes_length])
    have size := read_written [_,_,_,_] _ after (by simp [unsignedBytes_length])
    have data := read_written [_,_,_,_,_] [] after (by simp)
    rw [pointer_length] at ptr
    rw [unsignedBytes_length] at size
    exact fieldOf_set (by decide) (by rw [name]; omega) ptr size data
  rw [range_succ,range_succ,List.range_zero]
  simp only [nil_append,cons_append,map_cons,map_nil,uuidField,nameField,tableRow]

lemma sliced_first (address : UInt64) (memory : Memory) (first : selects mask 0 = true) (second : selects mask 1 = false) :
    unbinnTableAsRowSlice (some (address,memory)) stored.obj mask = .row [unsignedBytes 8 0 ++ pointer address 72] := by
  have uuid := stored.uuid.bytes_length
  have list : writes address ⟨stored.uuid,none,1,16⟩ =
      [(48,pointer address 56),(40,unsignedBytes 8 16),(56,stored.uuid.bytes),(64,pointer address 72),(56,unsignedBytes 8 0),(72,[])] := rfl
  have all : ∀ write ∈ writes address ⟨stored.uuid,none,1,16⟩, write.1 + write.2.length ≤ 16 + sizeAt 1 := by
    rw [list]
    simp only [mem_cons,not_mem_nil,or_false,forall_eq_or_imp,forall_eq,pointer_length,unsignedBytes_length,uuid,length_nil,sizeAt,
      RowCodec.rowOffset,RowCodec.dataSize]
    omega
  simp only [unbinnTableAsRowSlice,calcRow_first first second]
  rw [if_neg (by omega),writes_inside memory all]
  dsimp only [map_none,getD_none,length_nil]
  rw [if_neg (by omega)]
  refine congrArg Sliced.row ?_
  rw [list]
  generalize after : memory.writeAll _ = now
  have ptr := read_written [] _ after (by simp [pointer_length,unsignedBytes_length,uuid])
  have size := read_written [_] _ after (by simp [pointer_length,unsignedBytes_length,uuid])
  have high := read_written [_,_,_] _ after (by simp [pointer_length,unsignedBytes_length])
  have low := read_written [_,_,_,_] _ after (by simp [unsignedBytes_length])
  rw [pointer_length] at ptr high
  rw [unsignedBytes_length] at size low
  have length : (unsignedBytes 8 0 ++ pointer address 72).length = 16 := by rw [length_append,unsignedBytes_length,pointer_length]
  have data : now.read 56 (unsignedBytes 8 0 ++ pointer address 72).length = unsignedBytes 8 0 ++ pointer address 72 := by
    rw [length,show 16 = 8 + 8 from rfl,Memory.read_add,low,high]
  have field : fieldOf address now 0 = unsignedBytes 8 0 ++ pointer address 72 :=
    fieldOf_set (by decide) (by rw [length]; decide) ptr (by rw [length]; exact size) data
  rw [range_succ,List.range_zero]
  simp only [nil_append,map_cons,map_nil,field]

lemma sliced_second (address : UInt64) (memory : Memory) (first : selects mask 0 = false) (second : selects mask 1 = true) :
    unbinnTableAsRowSlice (some (address,memory)) stored.obj mask = .overrun := by
  have name := stored.name.terminated_length
  simp only [unbinnTableAsRowSlice,calcRow_second first second]
  rw [if_neg (by omega)]
  cases (writes address ⟨⟨0,0⟩,some stored.name,1,stored.name.size⟩).foldlM (writeInside (stored.name.size + sizeAt 1)) memory with
  | none => rfl
  | some now =>
    dsimp only [map_some,getD_some]
    rw [if_pos (by rw [name]; omega)]

lemma sliced_neither (entry : Option (UInt64 × Memory)) (first : selects mask 0 = false) (second : selects mask 1 = false) :
    unbinnTableAsRowSlice entry stored.obj mask = .nothing := by
  simp only [unbinnTableAsRowSlice,calcRow_neither first second,true_or,if_true]

lemma project_row (mask : Option Bitset) (stored : Stored) (first : selects mask 0 = true) (second : selects mask 1 = true) :
    project mask 0 (tableRow stored) = tableRow stored := by
  simp [tableRow,project,first,second]

def RowSliced (mask : Option Bitset) (stored : Stored) : Prop :=
  ∀ address memory, unbinnTableAsRowSlice (some (address,memory)) stored.obj mask = .row (project mask 0 (tableRow stored))

lemma rowSliced_iff : RowSliced mask stored ↔ selects mask 0 = true ∧ selects mask 1 = true := by
  constructor
  · intro sliced
    cases first : selects mask 0 with
    | true =>
      cases second : selects mask 1 with
      | true => exact ⟨rfl,rfl⟩
      | false =>
        -- The column holds an address, and two of them are not the same.
        have low := (sliced_first 0 (fun _ => 0) first second).symm.trans (sliced 0 fun _ => 0)
        have high := (sliced_first 1 (fun _ => 0) first second).symm.trans (sliced 1 fun _ => 0)
        have same : pointer 0 72 = pointer 1 72 := by
          have rows := Sliced.row.inj (low.trans high.symm)
          exact (append_inj (List.cons.inj rows).1 rfl).2
        exact absurd same (by decide)
    | false =>
      have shown := sliced 0 fun _ => 0
      cases second : selects mask 1 with
      | true =>
        rw [sliced_second 0 _ first second] at shown
        cases shown
      | false =>
        rw [sliced_neither _ first second] at shown
        cases shown
  · intro both address memory
    rw [project_row mask stored both.1 both.2]
    exact sliced_both address memory both.1 both.2

end Rows

-- MDV_TABLES_DESC: an ID of 16 bytes and a Name of any length.
def tablesDesc : TableDesc.Desc :=
  ⟨⟨[109,100,118,95,116,97,98,108,101,115],by decide⟩,[⟨3,16,⟨[73,68],by decide⟩⟩,⟨2,0,⟨[78,97,109,101],by decide⟩⟩],by decide⟩

structure SliceCalls where
  desc : Bool := true
  rowset : Bool := true
  entry : Nat → Option (UInt64 × Memory)
  next : Nat → Bool := fun _ => true

inductive Result where
  | nothing
  | overrun
  | rowset (desc : TableDesc.Desc) (rows : List (List (List UInt8))) (rowid : Uuid)

-- The entries from the current one on, with what binn_load makes of their values. The
-- filter takes a row with 1, drops it with 0 and stops with anything else.
def sliceLoop (calls : SliceCalls) (desc : TableDesc.Desc) (mask : Option Bitset) (count : Nat) (filter : List (List UInt8) → Int) :
    Nat → List (Uuid × Option Value) → List (List (List UInt8)) → Uuid → Result
  | _,[],rows,rowid => .rowset desc rows rowid
  | _,(_,none)::_,rows,rowid => .rowset desc rows rowid
  | step,(key,some obj)::rest,rows,rowid =>
    if count ≤ rows.length then .rowset desc rows rowid
    else match unbinnTableAsRowSlice (calls.entry step) obj mask with
      | .nothing => .rowset desc rows rowid
      | .overrun => .overrun
      | .row row =>
        if filter row = 1 then
          if calls.next step then sliceLoop calls desc mask count filter (step + 1) rest (rows ++ [row]) key else .rowset desc (rows ++ [row]) key
        else if filter row = 0 then
          if calls.next step then sliceLoop calls desc mask count filter (step + 1) rest rows key else .rowset desc rows key
        else .rowset desc rows key

def tablesSliceImpl (calls : SliceCalls) (mask : Option Bitset) (count : Nat) (filter : List (List UInt8) → Int)
    (entries : List (Uuid × Option Value)) (rowid : Uuid) : Result :=
  match tableSlice calls.desc tablesDesc mask with
  | none => .nothing
  | some desc => if !calls.rowset then .nothing else sliceLoop calls desc mask count filter 0 entries [] rowid

def Fits (desc : TableDesc.Desc) (row : List (List UInt8)) : Prop :=
  List.Forall₂ (fun (field : TableDesc.Field) column => field.limit = 0 ∨ column.length = field.limit.toNat) desc.fields row

-- A run over the stored tables stays in its memory, its rows are rows of stored
-- tables with the selected columns, and they fit the description of the rowset.
def Answered (mask : Option Bitset) : Result → Prop
  | .nothing => True
  | .overrun => False
  | .rowset desc rows _ => tableSlice true tablesDesc mask = some desc ∧
      ∀ row ∈ rows, Fits desc row ∧ ∃ stored, row = project mask 0 (tableRow stored)

section Slices

variable {mask : Option Bitset} {desc : TableDesc.Desc}

lemma row_fits (first : selects mask 0 = true) (second : selects mask 1 = true) (sliced : tableSlice true tablesDesc mask = some desc) (stored : Stored) :
    Fits desc (project mask 0 (tableRow stored)) := by
  have fields : desc.fields = tablesDesc.fields := by
    cases sliced
    simp [tablesDesc,project,first,second]
  rw [Fits,fields,project_row mask stored first second]
  refine .cons (.inr ?_) (.cons (.inl rfl) .nil)
  rw [Uuid.bytes_length]
  rfl

lemma sliceLoop_answered {filter : List (List UInt8) → Int} (first : selects mask 0 = true)
    (second : selects mask 1 = true) (sliced : tableSlice true tablesDesc mask = some desc)
    (known : ∀ entry ∈ entries, ∃ stored : Stored, entry.2 = some stored.obj)
    (good : ∀ row ∈ rows, Fits desc row ∧ ∃ stored, row = project mask 0 (tableRow stored)) :
    Answered mask (sliceLoop calls desc mask count filter step entries rows rowid) := by
  induction entries generalizing step rows rowid with
  | nil => exact ⟨sliced,good⟩
  | cons entry rest ih =>
    have later : ∀ entry ∈ rest, ∃ stored : Stored, entry.2 = some stored.obj := fun other member => known other (mem_cons_of_mem _ member)
    obtain ⟨stored,is⟩ := known entry mem_cons_self
    obtain ⟨key,value⟩ := entry
    subst is
    rw [sliceLoop]
    split
    · exact ⟨sliced,good⟩
    cases memory : calls.entry step with
    | none =>
      have refused : unbinnTableAsRowSlice none stored.obj mask = .nothing := by
        simp only [unbinnTableAsRowSlice,calcRow_both first second]
        rw [if_neg (by omega)]
      rw [refused]
      exact ⟨sliced,good⟩
    | some space =>
      rw [sliced_both space.1 space.2 first second]
      have more : ∀ row ∈ rows ++ [tableRow stored], Fits desc row ∧ ∃ stored, row = project mask 0 (tableRow stored) := by
        intro row member
        rcases mem_append.mp member with before | here
        · exact good row before
        · rw [mem_singleton.mp here]
          have fits := row_fits first second sliced stored
          rw [project_row mask stored first second] at fits
          exact ⟨fits,stored,(project_row mask stored first second).symm⟩
      dsimp only
      split
      · split
        · exact ih later more
        · exact ⟨sliced,more⟩
      · split
        · split
          · exact ih later good
          · exact ⟨sliced,good⟩
        · exact ⟨sliced,good⟩

end Slices

-- The row is sized for the selected columns and filled with both.
theorem tables_rows_iff (mask : Option Bitset) (stored : Stored) :
    (RowSliced mask stored ∧ ∀ calls count filter entries rowid, (∀ entry ∈ entries, ∃ stored : Stored, entry.2 = some stored.obj) →
        Answered mask (tablesSliceImpl calls mask count filter entries rowid)) ↔
      selects mask 0 = true ∧ selects mask 1 = true := by
  constructor
  · intro right
    exact rowSliced_iff.mp right.1
  · intro both
    refine ⟨rowSliced_iff.mpr both,?_⟩
    intro calls count filter entries rowid known
    rw [tablesSliceImpl]
    cases memory : calls.desc with
    | false => exact trivial
    | true =>
      cases sliced : tableSlice true tablesDesc mask with
      | none => exact trivial
      | some desc =>
        dsimp only
        split
        · exact trivial
        · exact sliceLoop_answered both.1 both.2 sliced known (by simp)

def plainTable : Stored where
  obj := .object [("U0",.int 1),("U1",.int 2),("D",.object [("N",.text [116]),("S",.int 0),("F",.list [])])]
  uuid := ⟨1,2⟩
  name := ⟨[116],proper_t⟩
  hasUuid := rfl
  hasName := rfl
  short := by decide

def uuidOnly : Bitset := ⟨2,fun _ => 1⟩
def nameOnly : Bitset := ⟨2,fun _ => 2⟩

theorem single_columns_spoiled :
    ¬RowSliced (some uuidOnly) plainTable ∧
      unbinnTableAsRowSlice (some (0,fun _ => 0)) plainTable.obj (some uuidOnly) = .row [unsignedBytes 8 0 ++ unsignedBytes 8 72] ∧
      unbinnTableAsRowSlice (some (0,fun _ => 0)) plainTable.obj (some nameOnly) = .overrun := by
  refine ⟨fun sliced => ?_,sliced_first 0 _ rfl rfl,sliced_second 0 _ rfl rfl⟩
  exact absurd (rowSliced_iff.mp sliced).2 (by decide)

end MedvedDB.TablesSlice
