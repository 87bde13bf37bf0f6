import MedvedDB.TwoPhaseSet
import MedvedDB.Trlog

open MedvedDB.TwoPhaseSet
namespace MedvedDB.Tablespace

-- A logged operation as the decoders see its payload. `tableCreate none` is a
-- payload that is no valid object, an object may lack a table uuid, and a row
-- of a rowset may have no data. `other` is every type without a handler,
-- MDV_OP_TABLE_DROP among them.
inductive Op (υ β : Type) where
  | tableCreate (obj : Option (Option υ × β))
  | rowInsert (id : UInt64) (table : υ) (rowset : Option (List (Option β)))
  | rowDelete (table : υ) (row : ObjId)
  | other (type : UInt32)
  deriving DecidableEq, Repr

-- What the operations work on: the tables set, one row set for each table and
-- the row storages that are open already.
structure Data (υ β : Type) [LinearOrder υ] where
  tables : Storage υ β
  rowdata : υ → Storage ObjId β
  opened : υ → Bool

variable {υ β γ : Type} [LinearOrder υ]

def fresh : Data υ β := ⟨TwoPhaseSet.fresh,fun _ => TwoPhaseSet.fresh,fun _ => false⟩

def setRows (data : Data υ β) (table : υ) (rows : Storage ObjId β) : Data υ β :=
  {data with rowdata:=fun other => if other = table then rows else data.rowdata other}

structure RowdataCalls where
  lock : Bool := true
  storage : Bool := true
  insert : Bool := true

def rowdataCreate (calls : RowdataCalls) (data : Data υ β) (table : υ) : Bool × Data υ β :=
  if !calls.lock then (false,data)
  else if data.opened table then (true,data)
  else if calls.storage && calls.insert then
    (true,{data with opened:=fun other => other = table || data.opened other})
  else (false,data)

-- Every row is added in a transaction of its own, under consecutive ids.
def addRawRowset (alloc : Nat → Bool) (adds : Nat → AddCalls) (index : Nat) (rows : Storage ObjId β)
    (node : UInt32) (current : UInt64) : List (Option β) → Errno × Storage ObjId β
  | [] => (.ok,rows)
  | none::_ => (.failed,rows)
  | some item::rest =>
    if !alloc index then (.noMem,rows)
    else match add (adds index) rows ⟨node,current⟩ item with
      | (.ok,rows) => addRawRowset alloc adds (index + 1) rows node (current + 1) rest
      | (err,rows) => (err,rows)

structure ApplyOpCalls where
  get : GetCalls := {}
  restore : Bool := true
  add : AddCalls := {}
  rowdata : RowdataCalls := {}
  alloc : Nat → Bool := fun _ => true
  rows : Nat → AddCalls := fun _ => {}
  delete : DeleteCalls := {}

def tablesGet (calls : ApplyOpCalls) (restore : β → Option γ) (tables : Storage υ β) (uuid : υ) : Option γ :=
  get calls.get tables uuid fun data => if calls.restore then restore data else none

-- mdv_tablespace_trlog_apply. The returned flag starts as true, and the
-- branches that only write a message leave it so.
def trlogApply (restore : β → Option γ) (node : UInt32) (calls : ApplyOpCalls) (data : Data υ β) :
    Op υ β → Bool × Data υ β
  | .tableCreate none => (false,data)
  | .tableCreate (some (none,_)) => (true,data)
  | .tableCreate (some (some uuid,obj)) =>
    match tablesGet calls restore data.tables uuid with
    | some _ => (true,data)
    | none =>
      let (err,tables) := add calls.add data.tables uuid obj
      (err = .ok,{data with tables:=tables})
  | .rowInsert _ _ none => (false,data)
  | .rowInsert id table (some rowset) =>
    match rowdataCreate calls.rowdata data table with
    | (false,data) => (true,data)
    | (true,data) =>
      let (err,rows) := addRawRowset calls.alloc calls.rows 0 (data.rowdata table) node id rowset
      (err = .ok,setRows data table rows)
  | .rowDelete table row =>
    match rowdataCreate calls.rowdata data table with
    | (false,data) => (false,data)
    | (true,data) =>
      match delete calls.delete (data.rowdata table) row with
      | (.ok,rows) => (true,setRows data table rows)
      | (.notFound,rows) => (true,setRows data table rows)
      | (_,rows) => (false,setRows data table rows)
  | .other _ => (true,data)

structure TrlogRef (υ β : Type) where
  id : UInt32
  log : Trlog.Log (Op υ β)

-- A node: its uuid, the numbers its topology gives to node uuids, the logs it
-- has open and the files of those it has not.
structure Space (υ β : Type) [LinearOrder υ] where
  uuid : υ
  storageIds : υ → Option UInt32
  data : Data υ β
  trlogs : υ → Option (TrlogRef υ β)
  logFiles : υ → Trlog.LogStorage (Op υ β)

structure TrlogCalls where
  lock : Bool := true
  storage : Bool := true
  init : Trlog.InitCalls := {}
  insert : Bool := true

def setLog (space : Space υ β) (uuid : υ) (ref : TrlogRef υ β) : Space υ β :=
  {space with trlogs:=fun other => if other = uuid then some ref else space.trlogs other}

def trlogCreate (calls : TrlogCalls) (space : Space υ β) (uuid : υ) :
    Option (TrlogRef υ β) × Space υ β :=
  if !calls.lock then (none,space)
  else match space.trlogs uuid with
    | some ref => (some ref,space)
    | none =>
      match space.storageIds uuid with
      | none => (none,space)
      | some id =>
        if calls.storage && calls.insert then
          let ref : TrlogRef υ β := ⟨id,Trlog.init calls.init (space.logFiles uuid)⟩
          (some ref,setLog space uuid ref)
        else (none,space)

structure LogDeleteCalls where
  trlog : TrlogCalls := {}
  alloc : Bool := true
  addOp : Trlog.AddOpCalls := {}

-- The row id goes into the payload as the caller gave it.
def logDelete (calls : LogDeleteCalls) (space : Space υ β) (table : υ) (row : ObjId) :
    Errno × Space υ β :=
  match trlogCreate calls.trlog space space.uuid with
  | (none,space) => (.failed,space)
  | (some ref,space) =>
    if !calls.alloc then (.noMem,space)
    else
      let added := Trlog.addOp calls.addOp ref.log (.rowDelete table row)
      (if added.returned then .ok else .failed,setLog space space.uuid {ref with log:=added.log})

lemma rowdataCreate_data (calls : RowdataCalls) (data : Data υ β) (table : υ) :
    (rowdataCreate calls data table).2.tables = data.tables ∧
      (rowdataCreate calls data table).2.rowdata = data.rowdata := by
  unfold rowdataCreate
  split
  · exact ⟨rfl,rfl⟩
  · split
    · exact ⟨rfl,rfl⟩
    · split <;> exact ⟨rfl,rfl⟩

@[simp] lemma rowdataCreate_tables (calls : RowdataCalls) (data : Data υ β) (table : υ) :
    (rowdataCreate calls data table).2.tables = data.tables := (rowdataCreate_data calls data table).1
@[simp] lemma rowdataCreate_rowdata (calls : RowdataCalls) (data : Data υ β) (table : υ) :
    (rowdataCreate calls data table).2.rowdata = data.rowdata := (rowdataCreate_data calls data table).2

lemma rowdataCreate_working (data : Data υ β) (table : υ) : (rowdataCreate {} data table).1 = true := by
  unfold rowdataCreate
  cases data.opened table <;> rfl

@[simp] lemma setRows_rowdata (data : Data υ β) (table other : υ) (rows : Storage ObjId β) :
    (setRows data table rows).rowdata other = if other = table then rows else data.rowdata other := rfl
@[simp] lemma setRows_tables (data : Data υ β) (table : υ) (rows : Storage ObjId β) :
    (setRows data table rows).tables = data.tables := rfl

lemma add_ofNat_succ (id : UInt64) (index : Nat) : id + UInt64.ofNat (index + 1) = id + 1 + UInt64.ofNat index := by
  rw [UInt64.ofNat_add,UInt64.add_comm (UInt64.ofNat index),← UInt64.add_assoc]
  rfl

-- The handlers by what their calls return, one equation for each.
section handlers

variable (restore : β → Option γ) (node : UInt32) (calls : ApplyOpCalls) (data : Data υ β)

lemma trlogApply_create (uuid : υ) (obj : β) :
    trlogApply restore node calls data (.tableCreate (some (some uuid,obj))) =
      if (tablesGet calls restore data.tables uuid).isSome then (true,data)
      else (decide ((add calls.add data.tables uuid obj).1 = .ok),
        {data with tables:=(add calls.add data.tables uuid obj).2}) := by
  cases found : tablesGet calls restore data.tables uuid <;> simp [trlogApply,found]

lemma trlogApply_insert (id : UInt64) (table : υ) (rowset : List (Option β)) :
    trlogApply restore node calls data (.rowInsert id table (some rowset)) =
      let created := rowdataCreate calls.rowdata data table
      let added := addRawRowset calls.alloc calls.rows 0 (data.rowdata table) node id rowset
      if created.1 then (decide (added.1 = .ok),setRows created.2 table added.2) else (true,created.2) := by
  have rows := rowdataCreate_rowdata calls.rowdata data table
  cases created : rowdataCreate calls.rowdata data table with
  | mk found after =>
    rw [created] at rows
    cases found <;> simp [trlogApply,created,show after.rowdata = data.rowdata from rows]

lemma trlogApply_delete (table : υ) (row : ObjId) :
    trlogApply restore node calls data (.rowDelete table row) =
      let created := rowdataCreate calls.rowdata data table
      let gone := delete calls.delete (data.rowdata table) row
      if created.1 then (decide (gone.1 = .ok ∨ gone.1 = .notFound),setRows created.2 table gone.2)
      else (false,created.2) := by
  have rows := rowdataCreate_rowdata calls.rowdata data table
  cases created : rowdataCreate calls.rowdata data table with
  | mk found after =>
    rw [created] at rows
    replace rows : after.rowdata = data.rowdata := rows
    cases found with
    | false => simp [trlogApply,created]
    | true =>
      cases outcome : delete calls.delete (data.rowdata table) row with
      | mk err stored => cases err <;> simp [trlogApply,created,rows,outcome]

end handlers

lemma addRawRowset_keeps {holds : Storage ObjId β → Prop} (added : ∀ calls rows row item, holds rows → holds (add calls rows row item).2)
    (held : holds rows) (items : List (Option β)) : holds (addRawRowset alloc adds index rows node current items).2 := by
  induction items generalizing rows index current with
  | nil => exact held
  | cons item rest ih =>
    cases item with
    | none => exact held
    | some item =>
      have after := added (adds index) rows ⟨node,current⟩ item held
      unfold addRawRowset
      split
      · exact held
      · cases outcome : add (adds index) rows ⟨node,current⟩ item with
        | mk err stored =>
          rw [outcome] at after
          cases err with
          | ok => exact ih after
          | _ => exact after

section operations

variable (restore : β → Option γ) (node : UInt32) (calls : ApplyOpCalls)

lemma trlogApply_keeps (holds : Storage ObjId β → Prop) (added : ∀ calls rows row item, holds rows → holds (add calls rows row item).2)
    (deleted : ∀ calls rows row, holds rows → holds (delete calls rows row).2)
    (held : holds (data.rowdata table)) (op : Op υ β) : holds ((trlogApply restore node calls data op).2.rowdata table) := by
  cases op with
  | tableCreate obj =>
    match obj with
    | none => exact held
    | some (none,_) => exact held
    | some (some uuid,obj) =>
      rw [trlogApply_create]
      split <;> exact held
  | rowInsert id target rowset =>
    cases rowset with
    | none => exact held
    | some items =>
      rw [trlogApply_insert]
      dsimp only
      split
      · rw [setRows_rowdata,rowdataCreate_rowdata]
        split
        · rename_i same
          subst same
          exact addRawRowset_keeps added held items
        · exact held
      · rwa [rowdataCreate_rowdata]
  | rowDelete target row =>
    rw [trlogApply_delete]
    dsimp only
    split
    · rw [setRows_rowdata,rowdataCreate_rowdata]
      split
      · rename_i same
        subst same
        exact deleted _ _ row held
      · exact held
    · rwa [rowdataCreate_rowdata]
  | other type => exact held

lemma trlogApply_keeps_tables (holds : Storage υ β → Prop) (added : ∀ calls tables uuid obj, holds tables → holds (add calls tables uuid obj).2)
    (held : holds data.tables) (op : Op υ β) : holds (trlogApply restore node calls data op).2.tables := by
  cases op with
  | tableCreate obj =>
    match obj with
    | none => exact held
    | some (none,_) => exact held
    | some (some uuid,obj) =>
      rw [trlogApply_create]
      split
      · exact held
      · exact added calls.add _ uuid obj held
  | rowInsert id target rowset =>
    cases rowset with
    | none => exact held
    | some items =>
      rw [trlogApply_insert]
      dsimp only
      split <;> simpa using held
  | rowDelete target row =>
    rw [trlogApply_delete]
    dsimp only
    split <;> simpa using held
  | other type => exact held

lemma trlogApply_paired (paired : Paired (data.rowdata table)) (op : Op υ β) :
    Paired ((trlogApply restore node calls data op).2.rowdata table) :=
  trlogApply_keeps restore node calls Paired (fun calls _ row item held => add_paired calls held row item)
    (fun calls _ row held => delete_paired calls held row) paired op

end operations

end MedvedDB.Tablespace
