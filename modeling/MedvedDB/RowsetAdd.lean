import MedvedDB.BatchAdd
import MedvedDB.Tablespace

open MedvedDB.TwoPhaseSet
namespace MedvedDB.Tablespace

variable {β : Type}

-- The rows that mdv_rowdata_add_raw_rowset has added when it returns.
def rowsAdded (alloc : Nat → Bool) (adds : Nat → AddCalls) (index : Nat) (rows : Storage ObjId β) (node : UInt32) (current : UInt64) :
    List (Option β) → List (ObjId × β)
  | [] => []
  | none::_ => []
  | some item::rest =>
    if !alloc index then []
    else match add (adds index) rows ⟨node,current⟩ item with
      | (.ok,rows) => (⟨node,current⟩,item)::rowsAdded alloc adds (index + 1) rows node (current + 1) rest
      | _ => []

variable {calls : AddCalls} {rows after : Storage ObjId β} {id : ObjId} {item : β}

lemma add_succeeded (done : add calls rows id item = (.ok,after)) :
    after = (add {} rows id item).2 := by
  rw [add_eq] at done
  cases gone : isRemoved rows id with
  | true =>
    rw [gone] at done
    split at done
    · split at done
      · cases done
        simp [add_eq,gone]
      · rename_i unread
        split at done <;> simp_all
    · cases done
  | false =>
    rw [add_unremoved gone]
    rw [gone] at done
    split at done
    · simp only [Bool.and_false,false_eq_true,if_false] at done
      split at done <;> cases done
      rfl
    · cases done

lemma add_refused {err : Errno} (done : add calls rows id item = (err,after))
    (refused : err ≠ .ok) : after = rows := by
  rw [add_eq] at done
  split at done
  · split at done
    · cases done
      exact absurd rfl refused
    · split at done <;> cases done
      · exact absurd rfl refused
      · rfl
  · cases done
    rfl

lemma addRawRowset_rows (alloc : Nat → Bool) (adds : Nat → AddCalls) (index : Nat) (rows : Storage ObjId β) (node : UInt32) (current : UInt64)
    (items : List (Option β)) :
    (addRawRowset alloc adds index rows node current items).2 = addEach rows (rowsAdded alloc adds index rows node current items) := by
  induction items generalizing index rows current with
  | nil => rfl
  | cons item rest ih =>
    cases item with
    | none => rfl
    | some item =>
      cases memory : alloc index with
      | false => simp [addRawRowset,rowsAdded,memory,addEach]
      | true =>
        simp only [addRawRowset,rowsAdded,memory,Bool.not_true,false_eq_true,if_false]
        cases done : add (adds index) rows ⟨node,current⟩ item with
        | mk err after =>
          by_cases works : err = .ok
          · subst works
            rw [addEach_cons,← add_succeeded done]
            exact ih (index + 1) after (current + 1)
          · obtain rfl := add_refused done works
            cases err with
            | ok => exact absurd rfl works
            | _ => rfl

end MedvedDB.Tablespace
