import MedvedDB.Tablespace

open MedvedDB.TwoPhaseSet
namespace MedvedDB.Tablespace

variable {υ β γ : Type} [LinearOrder υ]

-- The effect of an operation is in storage. An operation that names no table
-- or no rows, or that has no handler, has no effect that could be there.
def Effective (node : UInt32) (data : Data υ β) : Op υ β → Prop
  | .tableCreate (some (some uuid,_)) => ∃ obj, status data.tables uuid = .stored obj
  | .rowInsert id table (some rowset) =>
    ∀ index < rowset.length, status (data.rowdata table) ⟨node,id + UInt64.ofNat index⟩ ≠ .absent
  | .rowDelete table row => ∀ obj, status (data.rowdata table) row ≠ .stored obj
  | _ => False

-- When acceptance means that the effect is in storage, by what the operation
-- finds and by which calls of its handler work.
def Reliable (node : UInt32) (calls : ApplyOpCalls) (data : Data υ β) : Op υ β → Prop
  | .tableCreate none => True
  | .tableCreate (some (none,_)) => False
  | .tableCreate (some (some uuid,_)) =>
    isRemoved data.tables uuid = true →
      (calls.add.start && calls.add.objects && calls.add.removed && calls.add.lookup) = false
  | .rowInsert _ _ none => True
  | .rowInsert id table (some rowset) =>
    (rowdataCreate calls.rowdata data table).1 = true ∨ Effective node data (.rowInsert id table (some rowset))
  | .rowDelete table row =>
    (rowdataCreate calls.rowdata data table).1 = true → (∃ obj, status (data.rowdata table) row = .stored obj) →
      (calls.delete.start && calls.delete.objects && calls.delete.removed) = true → calls.delete.lookup = true
  | .other _ => False

lemma row_added (calls : AddCalls) (rows : Storage ObjId β) (other : ObjId) (item : β) (present : status rows row ≠ .absent) :
    status (add calls rows other item).2 row ≠ .absent := by
  rwa [add_kept calls other item present]

lemma addRawRowset_accepted (accepted : (addRawRowset alloc adds index rows node current items).1 = .ok) (place : Nat)
    (inside : place < items.length) :
    status (addRawRowset alloc adds index rows node current items).2 ⟨node,current + UInt64.ofNat place⟩ ≠ .absent := by
  induction items generalizing rows index current place with
  | nil => cases inside
  | cons item rest ih =>
    cases item with
    | none => cases accepted
    | some item =>
      unfold addRawRowset at accepted ⊢
      split at accepted
      · cases accepted
      · rename_i allocated
        rw [if_neg allocated]
        cases outcome : add (adds index) rows ⟨node,current⟩ item with
        | mk err stored =>
          rw [outcome] at accepted
          cases err with
          | ok =>
            have first := (add_accepted (show (add (adds index) rows ⟨node,current⟩ item).1 = .ok by rw [outcome])).1
            rw [outcome] at first
            cases place with
            | zero =>
              rw [show current + UInt64.ofNat 0 = current from UInt64.add_zero current]
              dsimp only
              exact addRawRowset_keeps row_added first rest
            | succ place =>
              have later := ih accepted place (Nat.lt_of_succ_lt_succ inside)
              rw [add_ofNat_succ]
              exact later
          | _ => cases accepted

section handlers

variable (restore : β → Option γ) (node : UInt32) (calls : ApplyOpCalls) (data : Data υ β)

lemma create_effective_iff (uuid : υ) (obj : β) :
    ((trlogApply restore node calls data (.tableCreate (some (some uuid,obj)))).1 = true →
        Effective node (trlogApply restore node calls data (.tableCreate (some (some uuid,obj)))).2
          (.tableCreate (some (some uuid,obj)))) ↔
      Reliable node calls data (.tableCreate (some (some uuid,obj))) := by
  rw [trlogApply_create]
  simp only [Effective,Reliable]
  split
  · rename_i found
    obtain ⟨table,found⟩ := isSome_iff_exists.mp found
    have held := get_stored found
    have kept := (status_stored.mp held).1
    simp [held,kept]
  · simp only [decide_eq_true_eq]
    cases gone : isRemoved data.tables uuid with
    | false => exact ⟨nofun,fun _ accepted => (add_accepted accepted).2.mpr gone⟩
    | true =>
      rw [add_removed_ok gone]
      constructor
      · intro effective _
        by_contra works
        rw [not_eq_false] at works
        have kept := (add_accepted ((add_removed_ok gone).mpr works)).2.mp (effective works)
        rw [gone] at kept
        cases kept
      · intro fails works
        rw [fails rfl] at works
        cases works

lemma insert_effective_iff (id : UInt64) (table : υ) (rowset : List (Option β)) :
    ((trlogApply restore node calls data (.rowInsert id table (some rowset))).1 = true →
        Effective node (trlogApply restore node calls data (.rowInsert id table (some rowset))).2
          (.rowInsert id table (some rowset))) ↔
      Reliable node calls data (.rowInsert id table (some rowset)) := by
  rw [trlogApply_insert]
  simp only [Effective,Reliable]
  split
  · rename_i opens
    refine ⟨fun _ => .inl opens,fun _ accepted index inside => ?_⟩
    rw [setRows_rowdata,if_pos rfl]
    exact addRawRowset_accepted (of_decide_eq_true accepted) index inside
  · rename_i closed
    simp [closed]

lemma delete_effective_iff (table : υ) (row : ObjId) :
    ((trlogApply restore node calls data (.rowDelete table row)).1 = true →
        Effective node (trlogApply restore node calls data (.rowDelete table row)).2 (.rowDelete table row)) ↔
      Reliable node calls data (.rowDelete table row) := by
  rw [trlogApply_delete]
  simp only [Effective,Reliable]
  split
  · rename_i opens
    rw [← delete_hides]
    simp only [opens,true_imp_iff,decide_eq_true_eq,setRows_rowdata,if_true]
  · rename_i closed
    simp [closed]

end handlers

lemma effective_iff (restore : β → Option γ) (node : UInt32) (calls : ApplyOpCalls) (data : Data υ β) (op : Op υ β) :
    ((trlogApply restore node calls data op).1 = true → Effective node (trlogApply restore node calls data op).2 op) ↔
      Reliable node calls data op := by
  cases op with
  | tableCreate obj =>
    match obj with
    | none => simp [trlogApply,Reliable]
    | some (none,obj) => simp [trlogApply,Effective,Reliable]
    | some (some uuid,obj) => exact create_effective_iff restore node calls data uuid obj
  | rowInsert id table rowset =>
    cases rowset with
    | none => simp [trlogApply,Reliable]
    | some rowset => exact insert_effective_iff restore node calls data id table rowset
  | rowDelete table row => exact delete_effective_iff restore node calls data table row
  | other type => simp [trlogApply,Effective,Reliable]

lemma trlogApply_table_kept (restore : β → Option γ) (node : UInt32) (calls : ApplyOpCalls)
    (stored : status data.tables uuid = .stored obj) (op : Op υ β) :
    status (trlogApply restore node calls data op).2.tables uuid = .stored obj :=
  trlogApply_keeps_tables restore node calls (fun tables => status tables uuid = .stored obj)
    (fun calls _ other item held => (add_kept calls other item (by simp [held])).trans held) stored op

def isDelete : Op υ β → Bool
  | .rowDelete _ _ => true
  | _ => false

lemma effective_kept (restore : β → Option γ) (node : UInt32) (calls : ApplyOpCalls)
    (kind : isDelete op = false) (effective : Effective node data op) (later : Op υ β) :
    Effective node (trlogApply restore node calls data later).2 op := by
  cases op with
  | tableCreate obj =>
    match obj with
    | none => exact effective
    | some (none,_) => exact effective
    | some (some uuid,obj) =>
      obtain ⟨held,stored⟩ := effective
      exact ⟨held,trlogApply_table_kept restore node calls stored later⟩
  | rowInsert id table rowset =>
    cases rowset with
    | none => exact effective
    | some rowset =>
      intro index inside
      exact trlogApply_keeps restore node calls (fun rows => status rows _ ≠ .absent) row_added (fun calls _ other => delete_kept calls other)
        (effective index inside) later
  | rowDelete table row => cases kind
  | other type => exact effective

def trlogApplyEach (restore : β → Option γ) (node : UInt32) (calls : Nat → ApplyOpCalls) (state : Nat × Data υ β)
    (op : Op υ β) : Bool × Nat × Data υ β :=
  let (accepted,data) := trlogApply restore node (calls state.1) state.2 op
  (accepted,state.1 + 1,data)

def oneInsert : Op Nat Nat := .rowInsert 1 7 (some [some 10])
def unopened : ApplyOpCalls := {rowdata:={storage:=false}}

end MedvedDB.Tablespace
