import MedvedDB.TwoPhaseSet

open MedvedDB.Lmdb
namespace MedvedDB.TwoPhaseSet

variable {κ ν : Type} [LinearOrder κ]

structure BatchCalls where
  start : Bool := true
  objects : Bool := true
  removed : Bool := true
  lookup : Nat → Bool := fun _ => true
  put : Nat → Bool := fun _ => true
  commit : Bool := true

-- The loop of mdv_2pset_add_batch over the pairs that the iterator gives, with
-- its flag `commit`. A removed id aborts the transaction, and the loop goes on.
def addBatchLoop (calls : BatchCalls) : Nat → Bool → Txn (Storage κ ν) → List (κ × ν) → Bool × Txn (Storage κ ν)
  | _,commit,txn,[] => (commit,txn)
  | index,commit,txn,(id,obj)::rest =>
    match isDeleted (calls.lookup index) txn id with
    | (true,txn) => addBatchLoop calls (index + 1) commit (transactionAbort txn) rest
    | (false,txn) =>
      let (put,txn) := mapPutUnique (calls.put index) objectsMap txn id obj
      addBatchLoop calls (index + 1) (commit || put) txn rest

def addBatch (calls : BatchCalls) (storage : Storage κ ν) (pairs : List (κ × ν)) : Errno × Storage κ ν :=
  match transactionStart calls.start storage with
  | none => (.failed,storage)
  | some txn =>
  match mapOpen calls.objects true objectsMap txn with
  | none => (.failed,storage)
  | some txn =>
  match mapOpen calls.removed true removedMap txn with
  | none => (.failed,storage)
  | some txn =>
    let (commit,txn) := addBatchLoop calls 0 false txn pairs
    if commit then
      match transactionCommit calls.commit txn storage with
      | (true,stored) => (.ok,stored)
      | (false,stored) => (.failed,stored)
    else (.ok,storage)

def addEach (storage : Storage κ ν) (pairs : List (κ × ν)) : Storage κ ν := pairs.foldl (fun storage pair => (add {} storage pair.1 pair.2).2) storage

def Settled (storage : Storage κ ν) (id : κ) : Prop := isRemoved storage id = true ∨ (objectOf storage id).isSome

lemma addEach_cons (storage : Storage κ ν) (pair : κ × ν) (rest : List (κ × ν)) :
    addEach storage (pair::rest) = addEach (add {} storage pair.1 pair.2).2 rest := rfl

variable {pairs : List (κ × ν)} {one storage two : Storage κ ν} {id : κ}

lemma add_unremoved (kept : isRemoved storage id = false) (obj : ν) : (add {} storage id obj).2 = added storage id obj := by
  simp [add_eq,kept]

lemma isRemoved_add (storage : Storage κ ν) (id other : κ) (obj : ν) : isRemoved (add {} storage id obj).2 other = isRemoved storage other := by
  cases gone : isRemoved storage id with
  | true => simp [add_eq,gone]
  | false => rw [add_unremoved gone,isRemoved_added]

lemma objectOf_of_opened (same : opened one = opened two) (id : κ) : objectOf one id = objectOf two id := by
  rw [← objectOf_opened,← objectOf_opened,Option.some.inj (congrArg Storage.objects same)]

lemma isRemoved_of_opened (same : opened one = opened two) (id : κ) : isRemoved one id = isRemoved two id := by
  rw [← isRemoved_opened,← isRemoved_opened,Option.some.inj (congrArg Storage.removed same)]

lemma Settled.recast (same : opened one = opened two) (settled : Settled one id) : Settled two id := by
  unfold Settled at settled ⊢
  rwa [← objectOf_of_opened same,← isRemoved_of_opened same]

lemma opened_added_stored (stored : (objectOf storage id).isSome) (obj : ν) : opened (added storage id obj) = opened storage := by
  rw [← objectOf_opened] at stored
  simp only [added,if_pos stored,opened,getD_some]

lemma add_settled (settled : Settled storage id) (obj : ν) : opened (add {} storage id obj).2 = opened storage := by
  cases gone : isRemoved storage id with
  | true => simp [add_eq,gone]
  | false =>
    rw [add_unremoved gone]
    exact opened_added_stored (settled.resolve_left (by simp [gone])) obj

lemma objectOf_add_isSome (storage : Storage κ ν) (id other : κ) (obj : ν) (stored : (objectOf storage other).isSome) :
    (objectOf (add {} storage id obj).2 other).isSome := by
  cases gone : isRemoved storage id with
  | true => simpa [add_eq,gone] using stored
  | false =>
    rw [add_unremoved gone,objectOf_added]
    split
    · rfl
    · exact stored

lemma addEach_isSome (storage : Storage κ ν) (pairs : List (κ × ν)) (id : κ) (stored : (objectOf storage id).isSome) :
    (objectOf (addEach storage pairs) id).isSome := by
  induction pairs generalizing storage with
  | nil => exact stored
  | cons pair rest ih => exact ih _ (objectOf_add_isSome storage pair.1 id pair.2 stored)

lemma addEach_stores (member : pair ∈ pairs) (kept : isRemoved storage pair.1 = false) :
    (objectOf (addEach storage pairs) pair.1).isSome := by
  induction pairs generalizing storage with
  | nil => cases member
  | cons first rest ih =>
    rw [addEach_cons]
    rcases mem_cons.mp member with rfl | later
    · refine addEach_isSome _ rest pair.1 ?_
      rw [add_unremoved kept,objectOf_added,if_pos rfl]
      rfl
    · exact ih later (by rw [isRemoved_add]; exact kept)

lemma addEach_opened_iff (storage : Storage κ ν) (pairs : List (κ × ν)) :
    opened (addEach storage pairs) = opened storage ↔ ∀ pair ∈ pairs, Settled storage pair.1 := by
  constructor
  · intro same pair member
    cases gone : isRemoved storage pair.1 with
    | true => exact .inl gone
    | false =>
      have stored := addEach_stores member gone
      rw [objectOf_of_opened same] at stored
      exact .inr stored
  · intro settled
    induction pairs generalizing storage with
    | nil => rfl
    | cons pair rest ih =>
      have first := add_settled (settled pair mem_cons_self) pair.2
      rw [addEach_cons,ih _ fun other member => (settled other (mem_cons_of_mem _ member)).recast first.symm]
      exact first

lemma putUnique_added (storage : Storage κ ν) (id : κ) (obj : ν) :
    mapPutUnique true objectsMap (running (opened storage)) id obj = ((objectOf storage id).isNone,running (opened (added storage id obj))) := by
  have content : objectsMap.content (opened storage) = some (storage.objects.getD .empty) := rfl
  rw [putUnique_running true id obj content,if_pos rfl,objectOf_opened]
  cases found : objectOf storage id with
  | none =>
    rw [← objectOf_opened] at found
    simp only [isSome_none,added,found]
    rfl
  | some value =>
    rw [if_pos (isSome_some),opened_added_stored (by rw [found]; rfl),Option.isNone_some]

lemma addBatchLoop_kept (index : Nat) (commit : Bool) (storage : Storage κ ν) (pairs : List (κ × ν))
    (kept : ∀ pair ∈ pairs, isRemoved storage pair.1 = false) :
    ∃ changed, addBatchLoop {} index commit (running (opened storage)) pairs = (changed,running (opened (addEach storage pairs))) ∧
      (changed = false → commit = false ∧ opened (addEach storage pairs) = opened storage) := by
  induction pairs generalizing index commit storage with
  | nil => exact ⟨commit,rfl,fun quiet => ⟨quiet,rfl⟩⟩
  | cons pair rest ih =>
    have here := kept pair mem_cons_self
    have later : ∀ other ∈ rest, isRemoved (added storage pair.1 pair.2) other.1 = false := by
      intro other member
      rw [isRemoved_added]
      exact kept other (mem_cons_of_mem _ member)
    obtain ⟨changed,ran,unchanged⟩ := ih (index + 1) (commit || (objectOf storage pair.1).isNone) (added storage pair.1 pair.2) later
    refine ⟨changed,?_,?_⟩
    · rw [addEach_cons,add_unremoved here,← ran]
      simp only [addBatchLoop,isDeleted_opened,if_true,here,putUnique_added]
    · intro quiet
      obtain ⟨flags,same⟩ := unchanged quiet
      obtain ⟨before,present⟩ := Bool.or_eq_false_iff.mp flags
      refine ⟨before,?_⟩
      rw [addEach_cons,add_unremoved here,same]
      exact opened_added_stored (by simpa using present) pair.2

lemma addBatchLoop_aborted (calls : BatchCalls) (index : Nat) (commit : Bool) (gone : txn.live = false) (pairs : List (κ × ν)) :
    (addBatchLoop calls index commit txn pairs).2 = txn := by
  induction pairs generalizing index commit with
  | nil => rfl
  | cons pair rest ih =>
    simp only [addBatchLoop,isDeleted,get_aborted _ _ _ gone,isSome_none,putUnique_aborted _ _ _ _ gone]
    exact ih _ _

lemma addBatchLoop_removed (index : Nat) (commit : Bool) (storage : Storage κ ν) (pairs : List (κ × ν))
    (removed : ∃ pair ∈ pairs, isRemoved storage pair.1 = true) :
    (addBatchLoop {} index commit (running (opened storage)) pairs).2.live = false := by
  induction pairs generalizing index commit storage with
  | nil =>
    obtain ⟨_,member,_⟩ := removed
    cases member
  | cons pair rest ih =>
    cases gone : isRemoved storage pair.1 with
    | true =>
      simp only [addBatchLoop,isDeleted_opened,if_true,gone]
      rw [addBatchLoop_aborted _ _ _ rfl]
      rfl
    | false =>
      simp only [addBatchLoop,isDeleted_opened,if_true,gone,putUnique_added]
      apply ih
      obtain ⟨other,member,found⟩ := removed
      rcases mem_cons.mp member with rfl | later
      · rw [gone] at found
        cases found
      · exact ⟨other,later,by rw [isRemoved_added,found]⟩

lemma addBatch_eq (storage : Storage κ ν) (pairs : List (κ × ν)) :
    (addBatch {} storage pairs).2 =
      if (addBatchLoop {} 0 false (running (opened storage)) pairs).1 then
        (transactionCommit true (addBatchLoop {} 0 false (running (opened storage)) pairs).2 storage).2
      else storage := by
  simp only [addBatch,start_eq,open_create,if_true,open_opened]
  split
  · split <;> rename_i done <;> rw [done]
  · rfl

lemma addBatch_kept (kept : ∀ pair ∈ pairs, isRemoved storage pair.1 = false) :
    opened (addBatch {} storage pairs).2 = opened (addEach storage pairs) := by
  obtain ⟨changed,ran,unchanged⟩ := addBatchLoop_kept 0 false storage pairs kept
  rw [addBatch_eq,ran]
  cases changed with
  | true => rfl
  | false => exact (unchanged rfl).2.symm

lemma addBatch_removed (removed : ∃ pair ∈ pairs, isRemoved storage pair.1 = true) :
    (addBatch {} storage pairs).2 = storage := by
  rw [addBatch_eq,commit_aborted _ _ (addBatchLoop_removed 0 false storage pairs removed),ite_self]

-- The maps are compared as `opened` has them: one that is not created yet is empty.
theorem batch_adds_each_iff (storage : Storage κ ν) (pairs : List (κ × ν)) :
    opened (addBatch {} storage pairs).2 = opened (addEach storage pairs) ↔
      (∀ pair ∈ pairs, isRemoved storage pair.1 = false) ∨ ∀ pair ∈ pairs, Settled storage pair.1 := by
  by_cases kept : ∀ pair ∈ pairs, isRemoved storage pair.1 = false
  · exact iff_of_true (addBatch_kept kept) (.inl kept)
  · have removed : ∃ pair ∈ pairs, isRemoved storage pair.1 = true := by
      by_contra missing
      exact kept fun pair member => eq_false_iff.mpr fun gone => missing ⟨pair,member,gone⟩
    rw [addBatch_removed removed,eq_comm,addEach_opened_iff,or_iff_right kept]

-- Object 1 was removed: the batch loses object 2 with it.
def oneRemoved : Storage Nat Nat := (delete {} (add {} fresh 1 10).2 1).2

theorem removed_id_drops_batch :
    objectOf (addBatch {} oneRemoved [(1,10),(2,20)]).2 2 = none ∧ objectOf (addEach oneRemoved [(1,10),(2,20)]) 2 = some 20 ∧
      opened (addBatch {} oneRemoved [(1,10),(2,20)]).2 ≠ opened (addEach oneRemoved [(1,10),(2,20)]) := by
  refine ⟨by decide,by decide,?_⟩
  intro same
  have equal := objectOf_of_opened same 2
  revert equal
  decide

end MedvedDB.TwoPhaseSet
