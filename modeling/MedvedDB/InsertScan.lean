import MedvedDB.Logging
import MedvedDB.RowTrip
import MedvedDB.ViewPages

open MedvedDB.TwoPhaseSet MedvedDB.Tablespace MedvedDB.Binn MedvedDB.RowCodec MedvedDB.Rowdata
namespace MedvedDB.InsertScan

-- How binn writes a value into bytes (the container of the casts), and what
-- binn_load and binn_is_valid make of stored bytes.
structure Format where
  casts : Casts
  load : List UInt8 → Option Value

-- A client's row list: any valid list of any values.
structure Request where
  valid : Bool
  rows : List Value
  counted : rows.length < 2 ^ 31

-- The bytes mdv_rowdata_add_raw_rowset takes of an item; numbers have none.
def itemBytes (casts : Casts) (value : Value) : Option (List UInt8) :=
  if (content casts value).length = 0 then none else some (content casts value)

def Request.rowset (casts : Casts) (request : Request) : Rowset (List UInt8) :=
  ⟨request.valid,request.rows.map (itemBytes casts),by rw [length_map]; exact request.counted⟩

def rowCodec (format : Format) (desc : List Field) : Codec (List UInt8) (List (List UInt8)) :=
  ⟨List.length,fun bytes => (format.load bytes).bind fun value => unbinnRow format.casts true value desc⟩

-- mdv_rowset_emplace looks at as many fields as the table has. `behind` is what
-- it finds behind the last field of a row that has fewer.
def emplaces (desc : List Field) (behind : List (List UInt8) → Bool) (row : List (List UInt8)) : Bool :=
  row.length = desc.length || behind row

-- Bytes that mdv_binn_row made for the table, and that binn gives back.
def Encoded (format : Format) (desc : List Field) (bytes : List UInt8) : Prop :=
  ∃ calls columns values, columns.map Prod.fst = desc ∧ binnRow calls columns = some values ∧
    bytes = format.casts.container (.list values) ∧ format.load bytes = some (.list values)

lemma encoded_kept (behind : List (List UInt8) → Bool) (encoded : Encoded format desc bytes) (read : (rowCodec format desc).read bytes = some row) :
    emplaces desc behind row = true := by
  obtain ⟨calls,columns,values,described,made,_,loads⟩ := encoded
  have decoded : unbinnRow format.casts true (.list values) desc = some row := by
    unfold Codec.read at read
    split at read
    · cases read
    · split at read
      · cases read
      · simpa [rowCodec,loads] using read
  have length : row.length = desc.length := by
    rw [unbinnRow_length decoded,foreach,binnFields_length (binnRow_fields made),← described,length_map]
  simp [emplaces,length]

section Runs

variable {υ γ : Type} [LinearOrder υ]

-- INSERT requests that were answered with MDV_OK and then applied, and deletes.
inductive Action (υ : Type) where
  | insert (log : LogRowsetCalls) (apply : ApplyOpCalls) (table : υ) (request : Request)
  | delete (apply : ApplyOpCalls) (table : υ) (row : ObjId)

def apply (restore : List UInt8 → Option γ) (calls : ApplyOpCalls) (node : Node υ (List UInt8)) (op : Op υ (List UInt8)) :
    Node υ (List UInt8) :=
  {node with space:={node.space with data:=(trlogApply restore localId calls node.space.data op).2}}

def step (casts : Casts) (restore : List UInt8 → Option γ) (node : Node υ (List UInt8)) : Action υ → Option (Node υ (List UInt8))
  | .insert log calls table request =>
    let logged := logRowset log node table (request.rowset casts)
    match logged.err,logged.op with
    | .ok,some op => some (apply restore calls logged.node op)
    | _,_ => none
  | .delete calls table row => some (apply restore calls node (.rowDelete table row))

def rowsOf (node : Node υ (List UInt8)) (table : υ) : Storage ObjId (List UInt8) := node.space.data.rowdata table

def Accepted (casts : Casts) (actions : List (Action υ)) (table : υ) (bytes : List UInt8) : Prop :=
  ∃ log calls request, .insert log calls table request ∈ actions ∧ some bytes ∈ request.rows.map (itemBytes casts)

lemma trlogCreate_space_data (calls : TrlogCalls) (space : Space υ (List UInt8)) (uuid : υ) :
    (trlogCreate calls space uuid).2.data = space.data := by
  unfold trlogCreate
  split
  · rfl
  · split
    · rfl
    · split
      · rfl
      · split <;> rfl

lemma rowdataOpen_rows (calls : RowdataCalls) (init : IdRange.InitCalls) (node : Node υ (List UInt8)) (table : υ) :
    (rowdataOpen calls init node table).2.space.data.rowdata = node.space.data.rowdata := by
  unfold rowdataOpen
  dsimp only
  split <;> exact rowdataCreate_rowdata _ _ _

lemma logRowset_rows (calls : LogRowsetCalls) (node : Node υ (List UInt8)) (table : υ) (rowset : Rowset (List UInt8)) :
    (logRowset calls node table rowset).node.space.data.rowdata = node.space.data.rowdata := by
  have created := trlogCreate_space_data calls.trlog node.space node.space.uuid
  unfold logRowset
  split
  · rfl
  split
  · rfl
  split
  · rename_i space made
    rw [made] at created
    exact congrArg Data.rowdata created
  · rename_i ref space made
    rw [made] at created
    have opened := rowdataOpen_rows calls.rowdata calls.init {node with space:=space} table
    have same : space.data.rowdata = node.space.data.rowdata := congrArg Data.rowdata created
    split
    · rename_i after went
      rw [went] at opened
      exact opened.trans same
    · rename_i after went
      rw [went] at opened
      split
      · split
        · exact opened.trans same
        · dsimp only
          split <;> exact opened.trans same
      · exact opened.trans same

lemma add_stored {κ ν : Type} [LinearOrder κ] {calls : AddCalls} {storage : Storage κ ν} {id key : κ} {obj value : ν}
    (found : objectOf (TwoPhaseSet.add calls storage id obj).2 key = some value) :
    objectOf storage key = some value ∨ value = obj := by
  rw [add_eq] at found
  split at found
  · split at found
    · exact .inl found
    · split at found
      · rw [objectOf_added] at found
        split at found
        · rename_i same
          cases held : objectOf storage id with
          | none =>
            rw [held] at found
            exact .inr (Option.some.inj found).symm
          | some other =>
            rw [held] at found
            exact .inl (same ▸ held.trans found)
        · exact .inl found
      · exact .inl found
  · exact .inl found

lemma addRawRowset_stored {alloc : Nat → Bool} {adds : Nat → AddCalls} {index : Nat} {rows : Storage ObjId (List UInt8)}
    {number : UInt32} {current : UInt64} {items : List (Option (List UInt8))} {key : ObjId} {value : List UInt8}
    (found : objectOf (addRawRowset alloc adds index rows number current items).2 key = some value) :
    objectOf rows key = some value ∨ some value ∈ items := by
  induction items generalizing index rows current with
  | nil => exact .inl found
  | cons item rest ih =>
    cases item with
    | none => exact .inl found
    | some item =>
      rw [addRawRowset] at found
      split at found
      · exact .inl found
      · split at found
        · rename_i stored added
          rcases ih found with earlier | later
          · rw [show stored = (TwoPhaseSet.add (adds index) rows ⟨number,current⟩ item).2 by rw [added]] at earlier
            exact (add_stored earlier).imp_right fun same => by rw [same]; exact mem_cons_self
          · exact .inr (mem_cons_of_mem _ later)
        · rename_i err stored _ added
          rw [show stored = (TwoPhaseSet.add (adds index) rows ⟨number,current⟩ item).2 by rw [added]] at found
          exact (add_stored found).imp_right fun same => by rw [same]; exact mem_cons_self

variable {casts : Casts} {restore : List UInt8 → Option γ} {table : υ} {key : ObjId} {bytes : List UInt8}

lemma delete_stored (found : objectOf (TwoPhaseSet.delete calls storage row).2 key = some bytes) : objectOf storage key = some bytes := by
  rw [delete_eq] at found
  split at found
  · split at found
    · exact found
    · split at found
      · rw [objectOf_deleted] at found
        split at found
        · cases found
        · exact found
      · exact found
  · exact found

lemma step_stored (stepped : step casts restore node action = some after)
    (found : objectOf (rowsOf after table) key = some bytes) :
    objectOf (rowsOf node table) key = some bytes ∨ Accepted casts [action] table bytes := by
  cases action with
  | insert log calls target request =>
    simp only [step] at stepped
    have logged := logRowset_logged log node target (request.rowset casts)
    have kept := logRowset_rows log node target (request.rowset casts)
    split at stepped
    · rename_i op _ written
      cases stepped
      obtain ⟨_,first,rfl,_⟩ := logged.moves.choose_spec.2.2 op written
      simp only [rowsOf,apply,trlogApply_insert] at found
      split at found
      · rw [setRows_rowdata,rowdataCreate_rowdata] at found
        split at found
        · rename_i same
          rcases addRawRowset_stored found with earlier | sent
          · rw [kept] at earlier
            exact .inl (same ▸ earlier)
          · exact .inr ⟨log,calls,request,by simp [same],sent⟩
        · rw [kept] at found
          exact .inl found
      · rw [rowdataCreate_rowdata,kept] at found
        exact .inl found
    · cases stepped
  | delete calls target row =>
    cases stepped
    simp only [rowsOf,apply,trlogApply_delete] at found
    split at found
    · rw [setRows_rowdata,rowdataCreate_rowdata] at found
      split at found
      · rename_i same
        exact .inl (same ▸ delete_stored found)
      · exact .inl found
    · rw [rowdataCreate_rowdata] at found
      exact .inl found

lemma run_stored (ran : actions.foldlM (step casts restore) node = some after) (found : objectOf (rowsOf after table) key = some bytes) :
    objectOf (rowsOf node table) key = some bytes ∨ Accepted casts actions table bytes := by
  induction actions generalizing node with
  | nil =>
    cases ran
    exact .inl found
  | cons action rest ih =>
    obtain ⟨next,stepped,went⟩ := bind_eq_some_iff.mp ran
    rcases ih went with earlier | ⟨log,calls,request,member,sent⟩
    · rcases step_stored stepped earlier with before | ⟨log,calls,request,member,sent⟩
      · exact .inl before
      · exact .inr ⟨log,calls,request,mem_cons.mpr (.inl (mem_singleton.mp member)),sent⟩
    · exact .inr ⟨log,calls,request,mem_cons_of_mem _ member,sent⟩

def ShowsEncoded (format : Format) (desc : List Field) (behind : List (List UInt8) → Bool) (count : Nat) (rowid : ObjId)
    (rows : Storage ObjId (List UInt8)) : Prop :=
  ∃ fetches shown, viewPages (rowCodec format desc) (emplaces desc behind) count rows fetches ⟨rowid,true⟩ = some shown ∧
    ∀ key bytes, objectOf rows key = some bytes → Encoded format desc bytes → ∃ row, (key,row) ∈ shown

lemma keptRow_encoded {behind : List (List UInt8) → Bool}
    (encoded : Encoded format desc bytes) (read : (rowCodec format desc).read bytes = some row) :
    keptRow (rowCodec format desc) (emplaces desc behind) (key,bytes) = some (key,row) := by
  simp [keptRow,read,encoded_kept behind encoded read]

end Runs

def sampleDesc : List Field := [⟨.uint8,1⟩]
def emptyBytes : List UInt8 := [0xE0,3,0]
def sevenBytes : List UInt8 := [0xE0,5,1,0x20,7]

def sampleFormat : Format where
  casts := {plainCasts with
    container := fun value => match value with
      | .list [] => emptyBytes
      | .list [.int number] => if number = 7 then sevenBytes else []
      | _ => []}
  load := fun bytes =>
    if bytes = emptyBytes then some (.list []) else if bytes = sevenBytes then some (.list [.int 7]) else none

lemma sevenBytes_encoded : Encoded sampleFormat sampleDesc sevenBytes :=
  ⟨{},[(⟨.uint8,1⟩,⟨0x2000,1,fun _ => 7⟩)],[.int 7],rfl,rfl,rfl,rfl⟩

def newNode : Node Nat (List UInt8) :=
  ⟨⟨0,fun _ => some 0,Tablespace.fresh,fun _ => none,fun _ => Trlog.fresh⟩,fun _ => IdRange.start⟩

def goodInsert : Action Nat := .insert {} {} 1 ⟨true,[.list [.int 7],.list [.int 7]],by norm_num⟩

def restoreNone (_ : List UInt8) : Option Unit := none

end MedvedDB.InsertScan
