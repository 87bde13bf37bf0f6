import MedvedDB.Tablespace
import MedvedDB.Replay

open MedvedDB.TwoPhaseSet
namespace MedvedDB.Tablespace

variable {υ β γ : Type} [LinearOrder υ]

-- The stored data as independent cells, one for each table description and
-- one for each row id of each table.
inductive Cell (υ : Type) where
  | table (uuid : υ)
  | row (table : υ) (id : ObjId)

inductive Change (β : Type) where
  | keep
  | add (obj : β)
  | delete

def Change.act : Change β → Status β → Status β
  | .keep,state => state
  | .add obj,state => state.add obj
  | .delete,state => state.delete

-- The data a rowset has for a row id, up to its first invalid row.
def rowAt (node : UInt32) (current : UInt64) : List (Option β) → ObjId → Option β
  | [],_ => none
  | none::_,_ => none
  | some item::rest,row => if row = ⟨node,current⟩ then some item else rowAt node (current + 1) rest row

def change (node : UInt32) : Op υ β → Cell υ → Change β
  | .tableCreate (some (some uuid,obj)),.table other => if other = uuid then .add obj else .keep
  | .rowInsert id table (some rowset),.row other row =>
    if other = table then match rowAt node id rowset row with
      | some item => .add item
      | none => .keep
    else .keep
  | .rowDelete table row,.row other id => if other = table ∧ id = row then .delete else .keep
  | _,_ => .keep

-- An operation acts on every cell for itself.
def act (node : UInt32) (cells : Cell υ → Status β) (op : Op υ β) : Cell υ → Status β :=
  fun cell => (change node op cell).act (cells cell)

def cells (data : Data υ β) : Cell υ → Status β
  | .table uuid => status data.tables uuid
  | .row table id => status (data.rowdata table) id

def wellFormed : Op υ β → Bool
  | .tableCreate obj => obj.isSome
  | .rowInsert _ _ none => false
  | .rowInsert _ _ (some rowset) => rowset.all Option.isSome
  | _ => true

lemma add_working (storage : Storage υ β) (id : υ) (obj : β) : (add {} storage id obj).1 = .ok := by
  rw [add_eq]
  cases isRemoved storage id <;> rfl

lemma Status.add_add (state : Status β) (one two : β) : (state.add one).add two = state.add one := by
  cases state <;> rfl

lemma addRawRowset_working (index : Nat) (rows : Storage ObjId β) (node : UInt32) (current : UInt64)
    (items : List (Option β)) :
    ((addRawRowset (fun _ => true) (fun _ => {}) index rows node current items).1 = .ok ↔
        items.all Option.isSome = true) ∧
      ∀ row, status (addRawRowset (fun _ => true) (fun _ => {}) index rows node current items).2 row =
        match rowAt node current items row with
        | some item => (status rows row).add item
        | none => status rows row := by
  induction items generalizing rows index current with
  | nil => exact ⟨by simp [addRawRowset],fun row => rfl⟩
  | cons item rest ih =>
    cases item with
    | none => exact ⟨by simp [addRawRowset],fun row => rfl⟩
    | some item =>
      have works := add_working rows ⟨node,current⟩ item
      have after := fun row => status_add rows ⟨node,current⟩ row item
      cases outcome : add {} rows ⟨node,current⟩ item with
      | mk err stored =>
        rw [outcome] at works after
        obtain rfl : err = .ok := works
        obtain ⟨verdict,states⟩ := ih (index + 1) stored (current + 1)
        simp only [addRawRowset,Bool.not_true,false_eq_true,if_false,outcome,rowAt]
        refine ⟨by simpa using verdict,fun row => ?_⟩
        rw [states row,after row]
        by_cases first : row = ⟨node,current⟩
        · subst first
          simp only [if_true]
          cases rowAt node (current + 1) rest ⟨node,current⟩ with
          | none => rfl
          | some other => exact Status.add_add _ _ _
        · simp only [if_neg first]

lemma trlogApply_working (restore : β → Option γ) (node : UInt32) (data : Data υ β) (op : Op υ β) :
    (trlogApply restore node {} data op).1 = wellFormed op ∧
      cells (trlogApply restore node {} data op).2 = act node (cells data) op := by
  cases op with
  | tableCreate obj =>
    match obj with
    | none => exact ⟨rfl,funext fun cell => by cases cell <;> rfl⟩
    | some (none,_) => exact ⟨rfl,funext fun cell => by cases cell <;> rfl⟩
    | some (some uuid,obj) =>
      rw [trlogApply_create]
      split
      · rename_i found
        obtain ⟨value,found⟩ := isSome_iff_exists.mp found
        obtain ⟨held,stored⟩ := get_stored found
        refine ⟨rfl,funext fun cell => ?_⟩
        cases cell with
        | row table id => rfl
        | table other =>
          simp only [act,change,cells]
          split
          · rename_i same
            rw [same,stored]
            rfl
          · rfl
      · refine ⟨decide_eq_true (add_working _ _ _),funext fun cell => ?_⟩
        cases cell with
        | row table id => rfl
        | table other =>
          simp only [act,change,cells,status_add]
          split
          · rename_i same
            rw [same]
            rfl
          · rfl
  | rowInsert id table rowset =>
    cases rowset with
    | none => exact ⟨rfl,funext fun cell => by cases cell <;> rfl⟩
    | some rowset =>
      obtain ⟨verdict,states⟩ := addRawRowset_working 0 (data.rowdata table) node id rowset
      rw [trlogApply_insert]
      simp only [rowdataCreate_working,if_true,verdict]
      refine ⟨Bool.decide_eq_true,funext fun cell => ?_⟩
      cases cell with
      | table uuid => simp [cells,act,change,Change.act]
      | row other row =>
        simp only [cells,act,change,setRows_rowdata,rowdataCreate_rowdata]
        split
        · rename_i same
          subst same
          rw [states row]
          cases rowAt node id rowset row <;> rfl
        · rfl
  | rowDelete table row =>
    rw [trlogApply_delete]
    simp only [rowdataCreate_working,if_true]
    refine ⟨?_,funext fun cell => ?_⟩
    · rw [delete_eq]
      cases objectOf (data.rowdata table) row <;> rfl
    · cases cell with
      | table uuid => simp [cells,act,change,Change.act]
      | row other id =>
        simp only [cells,act,change,setRows_rowdata,rowdataCreate_rowdata]
        by_cases same : other = table
        · subst same
          by_cases hit : id = row
          · simp [hit,status_delete,Change.act]
          · simp [hit,status_delete,Change.act]
        · simp [same,Change.act]
  | other type => exact ⟨rfl,funext fun cell => by cases cell <;> rfl⟩

-- An insert that has a row of this id, and one that stands behind a delete of
-- the same row.
def covers (node : UInt32) (table : υ) (row : ObjId) : Op υ β → Bool
  | .rowInsert id target (some rowset) =>
    target = table && (List.range rowset.length).any fun index => row = ⟨node,id + UInt64.ofNat index⟩
  | _ => false

def lateInsert (node : UInt32) : Op υ β → Op υ β → Bool
  | .rowDelete table row,later => covers node table row later
  | _,_ => false

lemma rowAt_covers (found : rowAt node current items row = some item) :
    ∃ index < items.length, row = ⟨node,current + UInt64.ofNat index⟩ := by
  induction items generalizing current with
  | nil => cases found
  | cons head rest ih =>
    cases head with
    | none => cases found
    | some head =>
      unfold rowAt at found
      split at found
      · rename_i first
        exact ⟨0,succ_pos _,first.trans (by rw [show UInt64.ofNat 0 = 0 from rfl,UInt64.add_zero])⟩
      · obtain ⟨index,inside,place⟩ := ih found
        refine ⟨index + 1,Nat.succ_lt_succ inside,place.trans ?_⟩
        rw [add_ofNat_succ]

lemma change_covers {op : Op υ β} {id : ObjId} (added : change node op (.row table id) = .add item) :
    covers node table id op = true := by
  cases op with
  | rowInsert first target rowset =>
    cases rowset with
    | none => cases added
    | some rowset =>
      simp only [change] at added
      split at added
      · rename_i same
        split at added
        · rename_i value found
          obtain ⟨index,inside,place⟩ := rowAt_covers found
          simp only [covers,same,decide_true,Bool.true_and,any_eq_true,mem_range,decide_eq_true_eq]
          exact ⟨index,inside,place⟩
        · cases added
      · cases added
  | tableCreate obj =>
    match obj with
    | none => cases added
    | some (none,_) => cases added
    | some (some _,_) => cases added
  | rowDelete target row =>
    simp only [change] at added
    split at added <;> cases added
  | other type => cases added

lemma change_deletes {op : Op υ β} {cell : Cell υ} (deleted : change node op cell = .delete) :
    ∃ table row, op = .rowDelete table row ∧ cell = .row table row := by
  cases op with
  | rowDelete table row =>
    cases cell with
    | table uuid => cases deleted
    | row other id =>
      simp only [change] at deleted
      split at deleted
      · rename_i same
        exact ⟨table,row,rfl,by rw [same.1,same.2]⟩
      · cases deleted
  | rowInsert first target rowset =>
    cases rowset with
    | none => cases deleted
    | some rowset =>
      cases cell with
      | table uuid => cases deleted
      | row other id =>
        simp only [change] at deleted
        split at deleted
        · split at deleted <;> cases deleted
        · cases deleted
  | tableCreate obj =>
    match obj,cell with
    | none,_ => cases deleted
    | some (none,_),_ => cases deleted
    | some (some _,_),.row _ _ => cases deleted
    | some (some uuid,_),.table other =>
      simp only [change] at deleted
      split at deleted <;> cases deleted
  | other type => cases deleted

lemma Change.act_act (change : Change β) (state : Status β) : change.act (change.act state) = change.act state := by
  cases change <;> cases state <;> rfl

lemma Change.act_later {one two : Change β} (apart : one = .delete → ∀ obj, two ≠ .add obj)
    (settled : one.act state = state) : one.act (two.act state) = two.act state := by
  cases one with
  | keep => rfl
  | add obj => cases two <;> cases state <;> first | rfl | cases settled
  | delete =>
    cases two with
    | keep => exact settled
    | add obj => exact absurd rfl (apart rfl obj)
    | delete => exact Change.act_act .delete state

lemma act_idempotent (node : UInt32) (op : Op υ β) : Replay.Idempotent (act node) op := by
  intro cells
  funext cell
  exact Change.act_act _ _

lemma act_respects {node : UInt32} {one two : Op υ β} (apart : lateInsert node one two = false) :
    Replay.Respects (act node) one two := by
  intro cells settled
  funext cell
  refine Change.act_later (fun deleted obj added => ?_) (congrFun settled cell)
  obtain ⟨table,row,rfl,rfl⟩ := change_deletes deleted
  simp [lateInsert,change_covers added] at apart

end MedvedDB.Tablespace
