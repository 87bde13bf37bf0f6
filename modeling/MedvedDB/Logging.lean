import MedvedDB.Tablespace
import MedvedDB.IdRange

open MedvedDB.TwoPhaseSet
namespace MedvedDB.Tablespace

open IdRange (InitCalls State reserve step)

-- A row list as a client sends it: whether the whole object passes
-- binn_is_valid, and its items, of which some may have no data. Its item count
-- is a 31-bit number.
structure Rowset (β : Type) where
  valid : Bool
  items : List (Option β)
  counted : items.length < 2 ^ 31

def Rowset.range (rowset : Rowset β) : UInt32 := UInt32.ofNat rowset.items.length

variable {υ β : Type} [LinearOrder υ]

structure Node (υ β : Type) [LinearOrder υ] where
  space : Space υ β
  rowIds : υ → State

def setIds (node : Node υ β) (table : υ) (ids : State) : Node υ β :=
  {node with rowIds:=fun other => if other = table then ids else node.rowIds other}

-- What a logging call returns, the operation it appended to the node's own log
-- and the node afterwards.
structure Logged (υ β : Type) [LinearOrder υ] where
  err : Errno
  op : Option (Op υ β)
  node : Node υ β

structure LogCreateCalls where
  trlog : TrlogCalls := {}
  table : Bool := true
  binn : Bool := true
  alloc : Bool := true
  addOp : Trlog.AddOpCalls := {}
  register : AddCalls := {}

-- The new table is put into the tables set at once; a failure there is only
-- written to the log file.
def logCreateTable (calls : LogCreateCalls) (node : Node υ β) (uuid : υ) (obj : β) : Logged υ β :=
  match trlogCreate calls.trlog node.space node.space.uuid with
  | (none,space) => ⟨.failed,none,{node with space:=space}⟩
  | (some ref,space) =>
    if !calls.table || !calls.binn || !calls.alloc then ⟨.failed,none,{node with space:=space}⟩
    else
      let op : Op υ β := .tableCreate (some (some uuid,obj))
      let added := Trlog.addOp calls.addOp ref.log op
      let space := setLog space space.uuid {ref with log:=added.log}
      if !added.returned then ⟨.failed,none,{node with space:=space}⟩
      else
        let (_,tables) := add calls.register space.data.tables uuid obj
        ⟨.ok,some op,{node with space:={space with data:={space.data with tables:=tables}}}⟩

-- mdv_tablespace_rowdata_create with the generator that mdv_2pset_open starts.
def rowdataOpen (calls : RowdataCalls) (init : InitCalls) (node : Node υ β) (table : υ) : Bool × Node υ β :=
  let (found,data) := rowdataCreate {calls with storage:=calls.storage && init.start} node.space.data table
  let node := {node with space:={node.space with data:=data}}
  let ids := node.rowIds table
  if found && ids.memory.isNone then
    (true,setIds node table {ids with memory:=IdRange.idgenInit init ids.storage})
  else (found,node)

structure LogRowsetCalls where
  trlog : TrlogCalls := {}
  rowdata : RowdataCalls := {}
  init : InitCalls := {}
  reserve : IdRange.ReserveCalls := {}
  alloc : Bool := true
  addOp : Trlog.AddOpCalls := {}

-- Empty rows and rows that are no lists are only reported in the log file.
def logRowset (calls : LogRowsetCalls) (node : Node υ β) (table : υ) (rowset : Rowset β) : Logged υ β :=
  if rowset.items.length = 0 then ⟨.failed,none,node⟩
  else if !rowset.valid then ⟨.failed,none,node⟩
  else match trlogCreate calls.trlog node.space node.space.uuid with
    | (none,space) => ⟨.failed,none,{node with space:=space}⟩
    | (some ref,space) =>
      match rowdataOpen calls.rowdata calls.init {node with space:=space} table with
      | (false,node) => ⟨.failed,none,node⟩
      | (true,node) =>
        match reserve calls.reserve (node.rowIds table) rowset.range with
        | (.ok,some id,ids) =>
          let node := setIds node table ids
          if !calls.alloc then ⟨.noMem,none,node⟩
          else
            let op : Op υ β := .rowInsert id table (some rowset.items)
            let added := Trlog.addOp calls.addOp ref.log op
            let node := {node with space:=setLog node.space node.space.uuid {ref with log:=added.log}}
            if added.returned then ⟨.ok,some op,node⟩ else ⟨.failed,none,node⟩
        | (err,_,ids) => ⟨err,none,setIds node table ids⟩

def crash (node : Node υ β) : Node υ β :=
  ⟨{node.space with
      data:={node.space.data with opened:=fun _ => false}
      trlogs:=fun _ => none
      logFiles:=fun uuid => match node.space.trlogs uuid with
        | some ref => ref.log.storage
        | none => node.space.logFiles uuid},
    fun table => {node.rowIds table with memory:=none}⟩

@[simp] lemma setIds_same (node : Node υ β) (table : υ) (ids : State) : (setIds node table ids).rowIds table = ids :=
  if_pos rfl
lemma setIds_other (node : Node υ β) (ids : State) (apart : other ≠ table) :
    (setIds node table ids).rowIds other = node.rowIds other := if_neg apart

lemma logCreateTable_op {uuid : υ} {obj : β} (done : (logCreateTable calls node uuid obj).op = some op) :
    op = .tableCreate (some (some uuid,obj)) := by
  unfold logCreateTable at done
  split at done
  · cases done
  · split at done
    · cases done
    · dsimp only at done
      split at done
      · cases done
      · exact (Option.some.inj done).symm

lemma logCreateTable_ids (calls : LogCreateCalls) (node : Node υ β) (uuid : υ) (obj : β) :
    (logCreateTable calls node uuid obj).node.rowIds = node.rowIds := by
  unfold logCreateTable
  split
  · rfl
  · split
    · rfl
    · dsimp only
      split <;> rfl

inductive Moves (init : InitCalls) (before : State) : State → Prop where
  | stay : Moves init before before
  | opens : step before (.reopen init) = some after → Moves init before after

lemma rowdataOpen_ids (calls : RowdataCalls) (init : InitCalls) (node : Node υ β) (table : υ) :
    Moves init (node.rowIds table) ((rowdataOpen calls init node table).2.rowIds table) ∧
      ∀ other, other ≠ table → (rowdataOpen calls init node table).2.rowIds other = node.rowIds other := by
  unfold rowdataOpen
  dsimp only
  split
  · rename_i able
    have closed : (node.rowIds table).memory = none := isNone_iff_eq_none.mp (and_eq_true_iff.mp able).2
    refine ⟨.opens ?_,fun other apart => setIds_other _ _ apart⟩
    simp [step,closed]
  · exact ⟨.stay,fun other apart => rfl⟩

lemma reserve_step (ids : State) (calls : IdRange.ReserveCalls) (range : UInt32) :
    (reserve calls ids range).2.2 = ids ∨
      step ids (.reserve calls range) = some (reserve calls ids range).2.2 := by
  cases memory : ids.memory with
  | none => exact .inl (by simp [reserve,memory])
  | some idgen => exact .inr (by simp [step,memory])

lemma reserve_returned (done : reserve calls ids range = (.ok,some first,after)) :
    step ids (.reserve calls range) = some after ∧ after.returned = ids.returned ++ [(first,range)] := by
  cases memory : ids.memory with
  | none => simp [reserve,memory] at done
  | some idgen =>
    refine ⟨by simp [step,memory,done],?_⟩
    rw [IdRange.reserve_eq calls ids range memory] at done
    split at done
    · cases done
    · cases done
      rfl

-- What mdv_tablespace_log_rowset does to the generators, and what it logs: a
-- non-empty row list under the first id of a range reserved for it.
structure RowsetLogged (calls : LogRowsetCalls) (node : Node υ β) (table : υ) (rowset : Rowset β) (result : Logged υ β) :
    Prop where
  others : ∀ other, other ≠ table → result.node.rowIds other = node.rowIds other
  moves : ∃ opened, Moves calls.init (node.rowIds table) opened ∧
    (result.node.rowIds table = opened ∨
      step opened (.reserve calls.reserve rowset.range) = some (result.node.rowIds table)) ∧
    ∀ op, result.op = some op → rowset.items ≠ [] ∧ ∃ first, op = .rowInsert first table (some rowset.items) ∧
      step opened (.reserve calls.reserve rowset.range) = some (result.node.rowIds table) ∧
      (result.node.rowIds table).returned = opened.returned ++ [(first,rowset.range)]

lemma logRowset_logged (calls : LogRowsetCalls) (node : Node υ β) (table : υ) (rowset : Rowset β) :
    RowsetLogged calls node table rowset (logRowset calls node table rowset) := by
  have idle (err : Errno) (after : Node υ β) (same : after.rowIds = node.rowIds) :
      RowsetLogged calls node table rowset ⟨err,none,after⟩ :=
    ⟨fun other _ => congrFun same other,_,.stay,.inl (congrFun same table),nofun⟩
  unfold logRowset
  split
  · exact idle .failed node rfl
  rename_i filled
  split
  · exact idle .failed node rfl
  split
  · exact idle .failed _ rfl
  · rename_i ref space created
    obtain ⟨opening,others⟩ := rowdataOpen_ids calls.rowdata calls.init {node with space:=space} table
    cases opened : rowdataOpen calls.rowdata calls.init {node with space:=space} table with
    | mk found after =>
      rw [opened] at opening others
      cases found with
      | false => exact ⟨others,_,opening,.inl rfl,nofun⟩
      | true =>
        have stepped := reserve_step (after.rowIds table) calls.reserve rowset.range
        have elsewhere (ids : State) (other : υ) (apart : other ≠ table) :
            (setIds after table ids).rowIds other = node.rowIds other := (setIds_other after ids apart).trans (others other apart)
        dsimp only
        split
        · rename_i first ids reserved
          obtain ⟨taken,grown⟩ := reserve_returned reserved
          split
          · exact ⟨elsewhere ids,_,opening,.inr (by simpa using taken),nofun⟩
          · split
            · refine ⟨elsewhere ids,_,opening,.inr (by simpa using taken),fun op done => ?_⟩
              cases done
              exact ⟨fun none => filled (by simp [none]),first,rfl,by simpa using taken,by simpa using grown⟩
            · exact ⟨elsewhere ids,_,opening,.inr (by simpa using taken),nofun⟩
        · rename_i err value ids _ unreserved
          rw [unreserved] at stepped
          exact ⟨elsewhere ids,_,opening,stepped.imp (by simp) (by simp),nofun⟩

end MedvedDB.Tablespace
