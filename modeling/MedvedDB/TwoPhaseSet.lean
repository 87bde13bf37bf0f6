import MedvedDB.Basic
import MedvedDB.Lmdb

open MedvedDB.Lmdb
namespace MedvedDB.TwoPhaseSet

-- The two maps of mdv_2pset that carry objects: OBJECTS and REMOVED.
structure Storage (κ ν : Type) [LinearOrder κ] where
  objects : Option (KeyMap κ ν)
  removed : Option (KeyMap κ Unit)

variable {κ ν ω : Type} [LinearOrder κ]

def objectsMap : MapName (Storage κ ν) κ ν :=
  ⟨fun storage => storage.objects,fun map storage => {storage with objects:=some map},
    fun _ _ => rfl,fun found => by rw [← found]⟩
def removedMap : MapName (Storage κ ν) κ Unit :=
  ⟨fun storage => storage.removed,fun map storage => {storage with removed:=some map},
    fun _ _ => rfl,fun found => by rw [← found]⟩

def fresh : Storage κ ν := ⟨none,none⟩

structure AddCalls where
  start : Bool := true
  objects : Bool := true
  removed : Bool := true
  lookup : Bool := true
  put : Bool := true
  commit : Bool := true

structure DeleteCalls where
  start : Bool := true
  objects : Bool := true
  removed : Bool := true
  lookup : Bool := true
  put : Bool := true
  del : Bool := true
  commit : Bool := true

structure GetCalls where
  start : Bool := true
  objects : Bool := true
  removed : Bool := true
  lookup : Bool := true
  get : Bool := true

def isDeleted (works : Bool) (txn : Txn (Storage κ ν)) (key : κ) : Bool × Txn (Storage κ ν) :=
  let (value,txn) := mapGet works removedMap txn key
  (value.isSome,txn)

def add (calls : AddCalls) (storage : Storage κ ν) (id : κ) (obj : ν) : Errno × Storage κ ν :=
  match transactionStart calls.start storage with
  | none => (.failed,storage)
  | some txn =>
  match mapOpen calls.objects true objectsMap txn with
  | none => (.failed,storage)
  | some txn =>
  match mapOpen calls.removed true removedMap txn with
  | none => (.failed,storage)
  | some txn =>
    let (deleted,txn) := isDeleted calls.lookup txn id
    -- Delete op has priority
    if deleted then (.ok,storage)
    else
      let (_,txn) := mapPutUnique calls.put objectsMap txn id obj
      match transactionCommit calls.commit txn storage with
      | (true,stored) => (.ok,stored)
      | (false,stored) => (.failed,stored)

def delete (calls : DeleteCalls) (storage : Storage κ ν) (id : κ) : Errno × Storage κ ν :=
  match transactionStart calls.start storage with
  | none => (.failed,storage)
  | some txn =>
  match mapOpen calls.objects true objectsMap txn with
  | none => (.failed,storage)
  | some txn =>
  match mapOpen calls.removed true removedMap txn with
  | none => (.failed,storage)
  | some txn =>
  match mapGet calls.lookup objectsMap txn id with
  | (none,_) => (.notFound,storage)
  | (some _,txn) =>
  match mapPut calls.put removedMap txn id () with
  | (false,_) => (.failed,storage)
  | (true,txn) =>
  match mapDel calls.del objectsMap txn id with
  | (false,_) => (.failed,storage)
  | (true,txn) =>
  match transactionCommit calls.commit txn storage with
  | (true,stored) => (.ok,stored)
  | (false,stored) => (.failed,stored)

-- REMOVED is opened without the create flag here.
def get (calls : GetCalls) (storage : Storage κ ν) (id : κ) (restore : ν → Option ω) : Option ω :=
  match transactionStart calls.start storage with
  | none => none
  | some txn =>
  match mapOpen calls.objects true objectsMap txn with
  | none => none
  | some txn =>
  match mapOpen calls.removed false removedMap txn with
  | none => none
  | some txn =>
    let (deleted,txn) := isDeleted calls.lookup txn id
    if deleted then none
    else match mapGet calls.get objectsMap txn id with
      | (none,_) => none
      | (some value,_) => restore value

-- What a storage says about one id, whether or not its maps exist yet.
def objectOf (storage : Storage κ ν) (id : κ) : Option ν := storage.objects.bind fun map => map.find id
def isRemoved (storage : Storage κ ν) (id : κ) : Bool := (storage.removed.bind fun map => map.find id).isSome

def added (storage : Storage κ ν) (id : κ) (obj : ν) : Storage κ ν :=
  let objects := storage.objects.getD .empty
  ⟨some (if (objects.find id).isSome then objects else objects.insert id obj),some (storage.removed.getD .empty)⟩
def deleted (storage : Storage κ ν) (id : κ) : Storage κ ν :=
  ⟨some ((storage.objects.getD .empty).erase id),some ((storage.removed.getD .empty).insert id ())⟩

lemma objectOf_opened (storage : Storage κ ν) (id : κ) :
    (storage.objects.getD .empty).find id = objectOf storage id := by
  unfold objectOf
  cases storage.objects <;> rfl

lemma isRemoved_opened (storage : Storage κ ν) (id : κ) :
    ((storage.removed.getD .empty).find id).isSome = isRemoved storage id := by
  unfold isRemoved
  cases storage.removed <;> rfl

-- The same storage with both maps created, as every modifying call sees it.
def opened (storage : Storage κ ν) : Storage κ ν :=
  ⟨some (storage.objects.getD .empty),some (storage.removed.getD .empty)⟩

lemma open_opened (storage : Storage κ ν) :
    removedMap.replace ((removedMap.content (objectsMap.replace
      ((objectsMap.content storage).getD .empty) storage)).getD .empty)
      (objectsMap.replace ((objectsMap.content storage).getD .empty) storage) = opened storage := rfl

lemma isDeleted_opened (works : Bool) (storage : Storage κ ν) (id : κ) :
    isDeleted works (running (opened storage)) id =
      if works then (isRemoved storage id,running (opened storage)) else (false,broken (opened storage)) := by
  cases works
  · rfl
  · simpa [isDeleted,opened,removedMap] using isRemoved_opened storage id

lemma add_eq (calls : AddCalls) (storage : Storage κ ν) (id : κ) (obj : ν) :
    add calls storage id obj =
      if calls.start && calls.objects && calls.removed then
        if calls.lookup && isRemoved storage id then (.ok,storage)
        else if calls.lookup && calls.put && calls.commit then (.ok,added storage id obj)
        else (.failed,storage)
      else (.failed,storage) := by
  obtain ⟨start,objects,removed,lookup,put,commit⟩ := calls
  cases start
  · rfl
  cases objects
  · simp [add]
  cases removed
  · simp [add]
  have inside (works : Bool) := putUnique_running works id obj
    (show objectsMap.content (opened storage) = some (storage.objects.getD .empty) from rfl)
  simp only [add,start_eq,open_create,if_true,open_opened,isDeleted_opened,Bool.and_true]
  cases lookup with
  | false => simp
  | true =>
    cases gone : isRemoved storage id with
    | true => simp
    | false =>
      cases put with
      | false => simp [inside]
      | true =>
        have stored : (mapPutUnique true objectsMap (running (opened storage)) id obj).2 =
            running (added storage id obj) := by
          simp only [inside,if_true,added]
          split <;> rfl
        cases commit <;> simp [stored]

lemma delete_eq (calls : DeleteCalls) (storage : Storage κ ν) (id : κ) :
    delete calls storage id =
      if calls.start && calls.objects && calls.removed then
        if !calls.lookup || (objectOf storage id).isNone then (.notFound,storage)
        else if calls.put && calls.del && calls.commit then (.ok,deleted storage id)
        else (.failed,storage)
      else (.failed,storage) := by
  obtain ⟨start,objects,removed,lookup,put,del,commit⟩ := calls
  cases start
  · rfl
  cases objects
  · simp [delete]
  cases removed
  · simp [delete]
  simp only [delete,start_eq,open_create,if_true,open_opened,get_running,Bool.and_true]
  have content : objectsMap.content (opened storage) = some (storage.objects.getD .empty) := rfl
  cases lookup with
  | false => simp
  | true =>
    have got := objectOf_opened storage id
    cases found : objectOf storage id with
    | none => simp [content,got,found]
    | some value =>
      rw [found] at got
      have marks : mapPut put removedMap (running (opened storage)) id () = _ :=
        put_running put id () (show removedMap.content (opened storage) = some (storage.removed.getD .empty) from rfl)
      cases put with
      | false => simp [content,got,marks]
      | true =>
        have drops := del_running del id (show objectsMap.content (removedMap.replace
          ((storage.removed.getD .empty).insert id ()) (opened storage)) = some (storage.objects.getD .empty) from rfl)
          (by simp [got])
        cases del <;> cases commit <;> simp [content,got,marks,drops]
        rfl

lemma get_eq (calls : GetCalls) (storage : Storage κ ν) (id : κ) (restore : ν → Option ω) :
    get calls storage id restore =
      if calls.start && calls.objects && calls.removed && storage.removed.isSome && calls.lookup &&
        calls.get && !isRemoved storage id then (objectOf storage id).bind restore else none := by
  obtain ⟨start,objects,removed,lookup,value⟩ := calls
  cases start
  · rfl
  cases objects
  · simp [get]
  cases removed
  · simp [get]
  obtain ⟨objects,marks⟩ := storage
  cases marks with
  | none => simp [get,removedMap,objectsMap]
  | some marks =>
    cases lookup with
    | false => simp [get,isDeleted,removedMap,objectsMap]
    | true =>
      cases gone : marks.find id with
      | some mark => simp [get,isDeleted,isRemoved,removedMap,objectsMap,gone]
      | none =>
        cases value with
        | false => simp [get,isDeleted,removedMap,objectsMap,gone]
        | true =>
          cases objects with
          | none => simp [get,isDeleted,isRemoved,removedMap,objectsMap,gone,objectOf]
          | some map =>
            cases found : map.find id <;>
              simp [get,isDeleted,isRemoved,removedMap,objectsMap,gone,objectOf,found]

lemma objectOf_created (map : KeyMap κ ν) (marks : Option (KeyMap κ Unit)) (id : κ) :
    objectOf ⟨some map,marks⟩ id = map.find id := rfl
lemma isRemoved_created (objects : Option (KeyMap κ ν)) (marks : KeyMap κ Unit) (id : κ) :
    isRemoved ⟨objects,some marks⟩ id = (marks.find id).isSome := rfl

@[simp] lemma objectOf_added (storage : Storage κ ν) (id other : κ) (obj : ν) :
    objectOf (added storage id obj) other =
      if other = id then some ((objectOf storage id).getD obj) else objectOf storage other := by
  simp only [added,objectOf_created,objectOf_opened]
  cases found : objectOf storage id with
  | none => simp [objectOf_opened]
  | some value =>
    simp only [isSome_some,if_true,objectOf_opened,getD_some]
    split
    · rename_i same
      rw [same,found]
    · rfl

@[simp] lemma isRemoved_added (storage : Storage κ ν) (id other : κ) (obj : ν) :
    isRemoved (added storage id obj) other = isRemoved storage other := isRemoved_opened _ _

@[simp] lemma objectOf_deleted (storage : Storage κ ν) (id other : κ) :
    objectOf (deleted storage id) other = if other = id then none else objectOf storage other := by
  simp [deleted,objectOf_created,objectOf_opened]

@[simp] lemma isRemoved_deleted (storage : Storage κ ν) (id other : κ) :
    isRemoved (deleted storage id) other = (decide (other = id) || isRemoved storage other) := by
  simp only [deleted,isRemoved_created,KeyMap.find_insert]
  split
  · rename_i same
    simp [same]
  · rename_i different
    simp [isRemoved_opened,different]

-- The set as its users see it: every id is absent, stored or removed for good.
inductive Status (ν : Type) where
  | absent
  | stored (data : ν)
  | removed
  deriving DecidableEq, Repr

def Status.add (data : ν) : Status ν → Status ν
  | .absent => .stored data
  | status => status
def Status.delete : Status ν → Status ν
  | .stored _ => .removed
  | status => status
def Status.data : Status ν → Option ν
  | .stored data => some data
  | _ => none

def status (storage : Storage κ ν) (id : κ) : Status ν :=
  if isRemoved storage id then .removed
  else match objectOf storage id with
    | none => .absent
    | some data => .stored data

lemma status_added (storage : Storage κ ν) (id other : κ) (obj : ν) (kept : isRemoved storage id = false) :
    status (added storage id obj) other =
      if other = id then (status storage id).add obj else status storage other := by
  simp only [status,isRemoved_added,objectOf_added]
  by_cases same : other = id
  · cases found : objectOf storage id <;> simp [same,kept,Status.add]
  · simp [same]

lemma status_deleted (storage : Storage κ ν) (id other : κ) (present : (objectOf storage id).isSome) :
    status (deleted storage id) other =
      if other = id then (status storage id).delete else status storage other := by
  obtain ⟨data,found⟩ := isSome_iff_exists.mp present
  simp only [status,isRemoved_deleted,objectOf_deleted]
  by_cases same : other = id
  · cases gone : isRemoved storage id <;> simp [same,found,Status.delete]
  · simp [same]

lemma status_add (storage : Storage κ ν) (id other : κ) (obj : ν) :
    status (add {} storage id obj).2 other =
      if other = id then (status storage id).add obj else status storage other := by
  rw [add_eq]
  cases gone : isRemoved storage id with
  | false => simpa using status_added storage id other obj gone
  | true =>
    by_cases same : other = id
    · simp [same,status,gone,Status.add]
    · simp [same]

lemma status_delete (storage : Storage κ ν) (id other : κ) :
    status (delete {} storage id).2 other =
      if other = id then (status storage id).delete else status storage other := by
  rw [delete_eq]
  cases found : objectOf storage id with
  | some data => simpa using status_deleted storage id other (by simp [found])
  | none =>
    by_cases same : other = id
    · cases gone : isRemoved storage id <;> simp [same,status,gone,found,Status.delete]
    · simp [same]

-- Every committed call creates both maps, so a stored object never stands in
-- a storage without REMOVED, which mdv_2pset_get could not open.
def Paired (storage : Storage κ ν) : Prop := storage.objects.isSome → storage.removed.isSome

lemma fresh_paired : Paired (fresh : Storage κ ν) := by simp [Paired,fresh]

lemma add_paired (calls : AddCalls) (paired : Paired storage) (id : κ) (obj : ν) :
    Paired (add calls storage id obj).2 := by
  rw [add_eq]
  split
  · split
    · exact paired
    · split
      · exact fun _ => rfl
      · exact paired
  · exact paired

variable {storage : Storage κ ν} {id : κ}

lemma delete_paired (calls : DeleteCalls) (paired : Paired storage) (id : κ) :
    Paired (delete calls storage id).2 := by
  rw [delete_eq]
  split
  · split
    · exact paired
    · split
      · exact fun _ => rfl
      · exact paired
  · exact paired

lemma get_status (paired : Paired storage) (id : κ) (restore : ν → Option ω) :
    get {} storage id restore = (status storage id).data.bind restore := by
  rw [get_eq]
  obtain ⟨objects,marks⟩ := storage
  cases marks with
  | none =>
    cases objects with
    | none => simp [status,isRemoved,objectOf,Status.data]
    | some map => exact absurd (paired rfl) (by simp)
  | some marks =>
    cases gone : isRemoved (⟨objects,some marks⟩ : Storage κ ν) id with
    | true => simp [status,gone,Status.data]
    | false =>
      cases found : objectOf (⟨objects,some marks⟩ : Storage κ ν) id <;> simp [status,gone,found,Status.data]

lemma status_stored :
    (∃ obj, status storage id = .stored obj) ↔ isRemoved storage id = false ∧ (objectOf storage id).isSome := by
  unfold status
  cases isRemoved storage id <;> cases objectOf storage id <;> simp

lemma status_removed : status storage id = .removed ↔ isRemoved storage id = true := by
  unfold status
  cases isRemoved storage id <;> cases objectOf storage id <;> simp

lemma get_stored (found : get calls storage id restore = some (value : ω)) :
    ∃ obj, status storage id = .stored obj := by
  rw [get_eq] at found
  split at found
  · rename_i works
    obtain ⟨obj,held,_⟩ := bind_eq_some_iff.mp found
    simp only [and_eq_true,not_eq_true'] at works
    exact status_stored.mpr ⟨works.2,by simp [held]⟩
  · cases found

lemma add_accepted (accepted : (add calls storage id obj).1 = .ok) :
    status (add calls storage id obj).2 id ≠ .absent ∧
      ((∃ held, status (add calls storage id obj).2 id = .stored held) ↔ isRemoved storage id = false) := by
  rw [add_eq] at accepted ⊢
  split at accepted
  · rename_i works
    rw [if_pos works]
    split at accepted
    · rename_i gone
      rw [if_pos gone]
      have marked : isRemoved storage id = true := (and_eq_true_iff.mp gone).2
      simp [status,marked]
    · rename_i kept
      rw [if_neg kept]
      split at accepted
      · rename_i done
        rw [if_pos done]
        have kept : isRemoved storage id = false := by
          simp only [and_eq_true] at done kept
          simpa [done.1.1] using kept
        simp only [status_added _ _ _ _ kept,if_pos,kept,iff_true]
        cases status_eq : status storage id with
        | absent => exact ⟨nofun,obj,rfl⟩
        | stored held => exact ⟨nofun,held,rfl⟩
        | removed => simp [status_removed.mp status_eq] at kept
      · cases accepted
  · cases accepted

lemma add_removed_ok (gone : isRemoved storage id = true) :
    (add calls storage id obj).1 = .ok ↔
      (calls.start && calls.objects && calls.removed && calls.lookup) = true := by
  rw [add_eq,gone]
  cases calls.start <;> cases calls.objects <;> cases calls.removed <;> cases calls.lookup <;> simp

lemma add_kept (calls : AddCalls) (other : κ) (obj : ν)
    (present : status storage id ≠ .absent) : status (add calls storage other obj).2 id = status storage id := by
  rw [add_eq]
  split
  · split
    · rfl
    · rename_i kept
      split
      · rename_i done
        have kept : isRemoved storage other = false := by
          simp only [and_eq_true] at done kept
          simpa [done.1.1] using kept
        rw [status_added _ _ _ _ kept]
        split
        · rename_i same
          subst same
          cases held : status storage id with
          | absent => exact absurd held present
          | _ => rfl
        · rfl
      · rfl
  · rfl

lemma delete_kept (calls : DeleteCalls) (other : κ)
    (present : status storage id ≠ .absent) : status (delete calls storage other).2 id ≠ .absent := by
  rw [delete_eq]
  split
  · split
    · exact present
    · rename_i found
      split
      · have some : (objectOf storage other).isSome := by
          cases held : objectOf storage other with
          | none => simp [held] at found
          | some data => rfl
        rw [status_deleted _ _ _ some]
        split
        · rename_i same
          subst same
          cases held : status storage id with
          | absent => exact absurd held present
          | stored data => nofun
          | removed => nofun
        · exact present
      · exact present
  · exact present

-- MDV_NOT_FOUND is also what a failed lookup gives, with the object untouched.
lemma delete_hides (calls : DeleteCalls) (storage : Storage κ ν) (id : κ) :
    (((delete calls storage id).1 = .ok ∨ (delete calls storage id).1 = .notFound) →
        ∀ obj, status (delete calls storage id).2 id ≠ .stored obj) ↔
      ((∃ obj, status storage id = .stored obj) → (calls.start && calls.objects && calls.removed) = true →
        calls.lookup = true) := by
  rw [delete_eq]
  split
  · rename_i works
    cases lookup : calls.lookup with
    | false =>
      simp only [Bool.not_false,Bool.true_or,if_true,or_true,works]
      exact ⟨fun hidden held _ => absurd held.choose_spec (hidden trivial _),
        fun visible _ obj held => absurd (visible ⟨obj,held⟩ trivial) nofun⟩
    | true =>
      refine ⟨fun _ _ _ => rfl,fun _ done obj held => ?_⟩
      simp only [Bool.not_true,Bool.false_or] at done held
      split at held
      · rename_i missing
        have present := (status_stored.mp ⟨obj,held⟩).2
        rw [isNone_iff_eq_none.mp missing] at present
        cases present
      · rename_i found
        rw [if_neg found] at done
        split at held
        · rw [status_deleted _ _ _ (by simpa [Option.isSome_iff_ne_none] using found),if_pos rfl] at held
          cases before : status storage id <;> simp [before,Status.delete] at held
        · rename_i stopped
          rw [if_neg stopped] at done
          rcases done with same | same <;> cases same
  · rename_i stopped
    refine ⟨fun _ _ works => absurd works stopped,fun _ done => ?_⟩
    rcases done with same | same <;> cases same

end MedvedDB.TwoPhaseSet
