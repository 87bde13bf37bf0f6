import MedvedDB.Enumerator

open MedvedDB.Lmdb
namespace MedvedDB.SetRuns
open TwoPhaseSet (Storage objectsMap removedMap fresh objectOf isRemoved added deleted opened AddCalls DeleteCalls
  enumeratorCreate)
open TwoPhaseSet (delete isRemoved_opened objectOf_opened open_opened)

variable {κ ν ω : Type} [LinearOrder κ]

-- The calls that mdv_2pset_add and mdv_2pset_add_batch make once, and an object
-- with the outcome of its lookup in REMOVED and of its insertion.
structure Calls where
  start : Bool := true
  objects : Bool := true
  removed : Bool := true
  commit : Bool := true

structure Item (κ ν : Type) where
  id : κ
  obj : ν
  lookup : Attempt := .works
  put : Attempt := .works

-- A lookup that fails counts as one that finds nothing.
def isDeleted (lookup : Attempt) (txn : Txn (Storage κ ν)) (key : κ) : Bool × Txn (Storage κ ν) :=
  let (value,txn) := mapGetBy lookup removedMap txn key
  (value.isSome,txn)

def add (calls : Calls) (storage : Storage κ ν) (item : Item κ ν) : Errno × Storage κ ν :=
  match transactionStart calls.start storage with
  | none => (.failed,storage)
  | some txn =>
  match mapOpen calls.objects true objectsMap txn with
  | none => (.failed,storage)
  | some txn =>
  match mapOpen calls.removed true removedMap txn with
  | none => (.failed,storage)
  | some txn =>
    let (deleted,txn) := isDeleted item.lookup txn item.id
    -- Delete op has priority
    if deleted then (.ok,storage)
    else
      let (_,txn) := mapPutUniqueBy item.put objectsMap txn item.id item.obj
      match transactionCommit calls.commit txn storage with
      | (true,stored) => (.ok,stored)
      | (false,stored) => (.failed,stored)

-- One turn of the loop of mdv_2pset_add_batch on the transaction and the commit
-- flag. A deleted id aborts the transaction and the loop goes on without it.
def batchStep (state : Txn (Storage κ ν) × Bool) (item : Item κ ν) : Txn (Storage κ ν) × Bool :=
  let (deleted,txn) := isDeleted item.lookup state.1 item.id
  if deleted then ({txn with live:=false},state.2)
  else match mapPutUniqueBy item.put objectsMap txn item.id item.obj with
    | (true,txn) => (txn,true)
    | (false,txn) => (txn,state.2)

def addBatch (calls : Calls) (storage : Storage κ ν) (items : List (Item κ ν)) : Errno × Storage κ ν :=
  match transactionStart calls.start storage with
  | none => (.failed,storage)
  | some txn =>
  match mapOpen calls.objects true objectsMap txn with
  | none => (.failed,storage)
  | some txn =>
  match mapOpen calls.removed true removedMap txn with
  | none => (.failed,storage)
  | some txn =>
    let (txn,commit) := items.foldl batchStep (txn,false)
    if commit then
      match transactionCommit calls.commit txn storage with
      | (true,stored) => (.ok,stored)
      | (false,stored) => (.failed,stored)
    else (.ok,storage)

structure GetCalls where
  start : Bool := true
  objects : Bool := true
  removed : Bool := true
  lookup : Attempt := .works
  get : Bool := true

def get (calls : GetCalls) (storage : Storage κ ν) (id : κ) (restore : ν → Option ω) : Option ω :=
  match transactionStart calls.start storage with
  | none => none
  | some txn =>
  match mapOpen calls.objects true objectsMap txn with
  | none => none
  | some txn =>
  match mapOpen calls.removed false removedMap txn with
  | none => none
  | some txn =>
    let (deleted,txn) := isDeleted calls.lookup txn id
    if deleted then none
    else match mapGet calls.get objectsMap txn id with
      | (none,_) => none
      | (some value,_) => restore value

-- The effect of an insertion. A transaction reaches its commit only if every
-- item passes: it is not found in REMOVED and no call breaks the transaction.
def passes (storage : Storage κ ν) (item : Item κ ν) : Bool :=
  (match item.lookup with
    | .works => !isRemoved storage item.id
    | .refused => true
    | .breaks => false) && item.put ≠ .breaks

def puts (id : κ) (item : Item κ ν) : Bool := item.id = id && item.put = .works

def committed (calls : Calls) (storage : Storage κ ν) (items : List (Item κ ν)) : Bool :=
  calls.start && calls.objects && calls.removed && calls.commit && items.all (passes storage)

def take (work : Storage κ ν) (item : Item κ ν) : Storage κ ν :=
  if item.put = .works then added work item.id item.obj else work

@[simp] lemma isRemoved_take (work : Storage κ ν) (item : Item κ ν) (id : κ) :
    isRemoved (take work item) id = isRemoved work id := by
  unfold take
  split <;> simp

@[simp] lemma isSome_take (work : Storage κ ν) (item : Item κ ν) (id : κ) :
    (objectOf (take work item) id).isSome = (puts id item || (objectOf work id).isSome) := by
  unfold take puts
  by_cases works : item.put = .works
  · by_cases same : id = item.id
    · simp [works,same]
    · simp [works,same,Ne.symm same]
  · simp [works]

lemma passes_take (work : Storage κ ν) (one : Item κ ν) : passes (take work one) = passes work := by
  funext item
  simp [passes]

lemma isRemoved_taken (work : Storage κ ν) (items : List (Item κ ν)) (id : κ) :
    isRemoved (items.foldl take work) id = isRemoved work id := by
  induction items generalizing work with
  | nil => rfl
  | cons item rest ih => rw [foldl_cons,ih,isRemoved_take]

lemma isSome_taken (work : Storage κ ν) (items : List (Item κ ν)) (id : κ) :
    (objectOf (items.foldl take work) id).isSome = (items.any (puts id) || (objectOf work id).isSome) := by
  induction items generalizing work with
  | nil => rfl
  | cons item rest ih =>
    rw [foldl_cons,ih,isSome_take,any_cons,← Bool.or_assoc]
    rw [Bool.or_comm (rest.any _)]

def Opened (work : Storage κ ν) : Prop := work.objects.isSome ∧ work.removed.isSome

lemma opened_opened (storage : Storage κ ν) : Opened (opened storage) := ⟨rfl,rfl⟩

variable {storage work : Storage κ ν} {id : κ}

lemma take_opened (both : Opened work) (item : Item κ ν) : Opened (take work item) := by
  unfold take
  split
  · exact ⟨rfl,rfl⟩
  · exact both

lemma added_present (both : Opened work) (present : (objectOf work id).isSome) (obj : ν) :
    added work id obj = work := by
  obtain ⟨objects,removed⟩ := work
  obtain ⟨⟨map,rfl⟩,⟨marks,rfl⟩⟩ := both.imp isSome_iff_exists.mp isSome_iff_exists.mp
  simp only [TwoPhaseSet.objectOf_created] at present
  simp [added,present]

lemma isDeleted_running (both : Opened work) (id : κ) :
    isDeleted .works (running work) id = (isRemoved work id,running work) := by
  obtain ⟨objects,removed⟩ := work
  simp [isDeleted,mapGetBy,removedMap,isRemoved]

lemma putUnique_opened (both : Opened work) (id : κ) (obj : ν) :
    mapPutUniqueBy .works objectsMap (running work) id obj =
      ((objectOf work id).isNone,running (added work id obj)) := by
  obtain ⟨map,found⟩ := isSome_iff_exists.mp both.1
  have held : objectOf work id = map.find id := by simp [objectOf,found]
  have here : objectsMap.content work = some map := found
  simp only [mapPutUniqueBy,putUnique_running true id obj here,if_true]
  cases present : map.find id with
  | some value =>
    have stays := added_present both (held ▸ present ▸ rfl : (objectOf work id).isSome) obj
    simp [held,present,stays]
  | none =>
    obtain ⟨marks,kept⟩ := isSome_iff_exists.mp both.2
    simp [held,present,added,found,kept,objectsMap]

lemma putUnique_unusable (attempt : Attempt) (unusable : txn.usable = false) (id : κ) (obj : ν) :
    mapPutUniqueBy attempt objectsMap txn id obj = (false,txn) := by
  have stuck (works : Bool) : mapPutUnique works objectsMap txn id obj = (false,txn) := by
    unfold mapPutUnique
    split <;> simp [unusable]
  cases attempt with
  | works => exact stuck true
  | refused => rfl
  | breaks => exact stuck false

lemma isDeleted_unusable (attempt : Attempt) (unusable : txn.usable = false) (id : κ) :
    isDeleted attempt txn id = (false,txn) := by
  cases attempt <;> simp [isDeleted,mapGetBy,mapGet,unusable]

lemma put_breaks (both : Opened work) (id : κ) (obj : ν) :
    mapPutUniqueBy .breaks objectsMap (running work) id obj = (false,broken work) := by
  obtain ⟨map,found⟩ := isSome_iff_exists.mp both.1
  exact putUnique_running false id obj (show objectsMap.content work = some map from found)

lemma batchStep_unusable (unusable : state.1.usable = false) (item : Item κ ν) :
    batchStep state item = state := by
  simp [batchStep,isDeleted_unusable _ unusable,putUnique_unusable _ unusable]

lemma batchStep_passes (both : Opened work) (commit : Bool) (item : Item κ ν)
    (through : passes work item = true) :
    batchStep (running work,commit) item =
      (running (take work item),(puts item.id item && (objectOf work item.id).isNone) || commit) := by
  obtain ⟨key,obj,lookup,put⟩ := item
  have searched : isDeleted lookup (running work) key = (false,running work) := by
    cases lookup with
    | works => simp_all [isDeleted_running both,passes]
    | refused => rfl
    | breaks => simp [passes] at through
  cases put with
  | works =>
    simp only [batchStep,searched,putUnique_opened both,take,puts]
    cases (objectOf work key).isNone <;> simp
  | refused => simp [batchStep,searched,mapPutUniqueBy,take,puts]
  | breaks => simp [passes] at through

lemma batchStep_stops (both : Opened work) (commit : Bool) (item : Item κ ν)
    (stopped : passes work item = false) : (batchStep (running work,commit) item).1.usable = false := by
  obtain ⟨key,obj,lookup,put⟩ := item
  cases lookup with
  | works =>
    cases gone : isRemoved work key with
    | true => simp [batchStep,isDeleted_running both,gone,Txn.usable]
    | false =>
      cases put with
      | breaks => simp [batchStep,isDeleted_running both,gone,put_breaks both,Txn.usable]
      | _ => simp [passes,gone] at stopped
  | refused =>
    cases put with
    | breaks => simp [batchStep,isDeleted,mapGetBy,put_breaks both,Txn.usable]
    | _ => simp [passes] at stopped
  | breaks =>
    have dead : (broken work : Txn (Storage κ ν)).usable = false := rfl
    simp [batchStep,isDeleted,mapGetBy,putUnique_unusable _ dead,dead]

lemma batch_unusable (unusable : state.1.usable = false) (items : List (Item κ ν)) :
    items.foldl batchStep state = state := by
  induction items with
  | nil => rfl
  | cons item rest ih => rw [foldl_cons,batchStep_unusable unusable,ih]

lemma batch_stops (both : Opened work) (commit : Bool) (items : List (Item κ ν))
    (stopped : items.all (passes work) = false) : (items.foldl batchStep (running work,commit)).1.usable = false := by
  induction items generalizing work commit with
  | nil => cases stopped
  | cons item rest ih =>
    rw [foldl_cons]
    cases through : passes work item with
    | false =>
      have unusable := batchStep_stops both commit item through
      rw [batch_unusable unusable]
      exact unusable
    | true =>
      rw [batchStep_passes both commit item through]
      refine ih (take_opened both item) _ ?_
      rw [passes_take]
      simpa [through] using stopped

lemma batch_passes (both : Opened work) (commit : Bool) (items : List (Item κ ν))
    (through : items.all (passes work) = true) :
    (items.foldl batchStep (running work,commit)).1 = running (items.foldl take work) ∧
      ((items.foldl batchStep (running work,commit)).2 = false →
        commit = false ∧ ∀ id, items.any (puts id) = true → (objectOf work id).isSome) := by
  induction items generalizing work commit with
  | nil => exact ⟨rfl,fun down => ⟨down,nofun⟩⟩
  | cons item rest ih =>
    rw [all_cons,and_eq_true] at through
    rw [foldl_cons,foldl_cons,batchStep_passes both commit item through.1]
    obtain ⟨same,quiet⟩ := ih (take_opened both item)
      ((puts item.id item && (objectOf work item.id).isNone) || commit) (by rw [passes_take]; exact through.2)
    refine ⟨same,fun down => ?_⟩
    obtain ⟨flag,known⟩ := quiet down
    obtain ⟨idle,low⟩ := Bool.or_eq_false_iff.mp flag
    refine ⟨low,fun id member => ?_⟩
    have here : puts id item = true → (objectOf work id).isSome := by
      intro put
      have key : item.id = id := by simpa using (and_eq_true_iff.mp put).1
      subst key
      simpa [put] using idle
    rw [any_cons,or_eq_true] at member
    rcases member with first | later
    · exact here first
    · have stored := known id later
      rw [isSome_take,or_eq_true] at stored
      exact stored.elim here fun held => held

lemma add_commits (calls : Calls) (storage : Storage κ ν) (item : Item κ ν) :
    (add calls storage item).2 =
      if calls.start && calls.objects && calls.removed then
        (transactionCommit calls.commit (batchStep (running (opened storage),false) item).1 storage).2
      else storage := by
  obtain ⟨start,objects,removed,commit⟩ := calls
  cases start
  · rfl
  cases objects
  · simp [add]
  cases removed
  · simp [add]
  simp only [add,batchStep,start_eq,open_create,if_true,open_opened,Bool.and_true]
  split
  · simp [transactionCommit,Txn.usable]
  · cases mapPutUniqueBy item.put objectsMap (isDeleted item.lookup (running (opened storage)) item.id).2 item.id item.obj with
    | mk done txn =>
      cases done <;> cases committed : transactionCommit commit txn storage with
      | mk works stored => cases works <;> simp

section effect

variable (calls : Calls) (storage : Storage κ ν) (id : κ)

lemma passes_opened : passes (opened storage) = passes storage := by
  funext item
  simp [passes,opened,TwoPhaseSet.isRemoved_created,isRemoved_opened]

lemma add_effect (item : Item κ ν) :
    isRemoved (add calls storage item).2 id = isRemoved storage id ∧
      (objectOf (add calls storage item).2 id).isSome =
        ((committed calls storage [item] && [item].any (puts id)) || (objectOf storage id).isSome) := by
  have gone : isRemoved (opened storage) id = isRemoved storage id := isRemoved_opened storage id
  have held : objectOf (opened storage) id = objectOf storage id := objectOf_opened storage id
  rw [add_commits]
  cases able : calls.start && calls.objects && calls.removed with
  | false => simp [committed,able]
  | true =>
    cases through : passes storage item with
    | false =>
      have unusable := batchStep_stops (opened_opened storage) false item (by rw [passes_opened]; exact through)
      simp [transactionCommit,unusable,committed,through]
    | true =>
      rw [batchStep_passes (opened_opened storage) false item (by rw [passes_opened]; exact through)]
      cases commit : calls.commit <;> simp [committed,able,commit,through,gone,held]

lemma addBatch_effect (items : List (Item κ ν)) :
    isRemoved (addBatch calls storage items).2 id = isRemoved storage id ∧
      (objectOf (addBatch calls storage items).2 id).isSome =
        ((committed calls storage items && items.any (puts id)) || (objectOf storage id).isSome) := by
  obtain ⟨start,objects,removed,commit⟩ := calls
  cases start
  · exact ⟨rfl,by simp [addBatch,committed]⟩
  cases objects
  · simp [addBatch,committed]
  cases removed
  · simp [addBatch,committed]
  have gone : isRemoved (opened storage) id = isRemoved storage id := isRemoved_opened storage id
  have held : objectOf (opened storage) id = objectOf storage id := objectOf_opened storage id
  simp only [addBatch,start_eq,open_create,if_true,open_opened,committed,Bool.true_and,Bool.and_true]
  cases through : items.all (passes storage) with
  | false =>
    have unusable := batch_stops (opened_opened storage) false items (by rw [passes_opened]; exact through)
    cases up : (items.foldl batchStep (running (opened storage),false)).2 with
    | false => simp
    | true => simp [transactionCommit,unusable]
  | true =>
    obtain ⟨final,quiet⟩ := batch_passes (opened_opened storage) false items (by rw [passes_opened]; exact through)
    cases up : (items.foldl batchStep (running (opened storage),false)).2 with
    | false =>
      have known := (quiet up).2 id
      rw [held] at known
      cases put : items.any (puts id) with
      | false => simp
      | true => simp [known put]
    | true =>
      simp only [if_true,final,commit_running]
      cases commit <;> simp [isRemoved_taken,isSome_taken,gone,held]

lemma delete_effect (calls : DeleteCalls) (target : κ) :
    (isRemoved (delete calls storage target).2 id =
        (((delete calls storage target).1 = .ok ∧ id = target) || isRemoved storage id)) ∧
      ((objectOf (delete calls storage target).2 id).isSome =
        (!((delete calls storage target).1 = .ok ∧ id = target) && (objectOf storage id).isSome)) := by
  rw [TwoPhaseSet.delete_eq]
  split
  · split
    · simp
    · split
      · by_cases same : id = target <;> simp [same]
      · simp
  · simp

end effect

inductive Action (κ ν : Type) where
  | add (calls : Calls) (item : Item κ ν)
  | addBatch (calls : Calls) (items : List (Item κ ν))
  | delete (calls : DeleteCalls) (id : κ)

def step (storage : Storage κ ν) : Action κ ν → Errno × Storage κ ν
  | .add calls item => add calls storage item
  | .addBatch calls items => addBatch calls storage items
  | .delete calls id => delete calls storage id

def run (actions : List (Action κ ν)) : Storage κ ν :=
  actions.foldl (fun storage action => (step storage action).2) fresh

lemma run_append (actions : List (Action κ ν)) (action : Action κ ν) :
    run (actions ++ [action]) = (step (run actions) action).2 := by simp [run]

def Apart (storage : Storage κ ν) : Prop := ∀ id, isRemoved storage id = true → (objectOf storage id).isSome = false

-- A removed id is put back: its lookup fails and leaves the transaction as it
-- is, so that the insertion goes on and is committed.
def revived (storage : Storage κ ν) (item : Item κ ν) : Bool :=
  item.lookup = .refused && item.put = .works && isRemoved storage item.id

def revives (storage : Storage κ ν) : Action κ ν → Bool
  | .add calls item => committed calls storage [item] && [item].any (revived storage)
  | .addBatch calls items => committed calls storage items && items.any (revived storage)
  | .delete _ _ => false

lemma insertion_apart_iff (apart : Apart storage)
    (effect : ∀ id, isRemoved after id = isRemoved storage id ∧ (objectOf after id).isSome =
      ((committed calls storage items && items.any (puts id)) || (objectOf storage id).isSome)) :
    Apart after ↔ (committed calls storage items && items.any (revived storage)) = false := by
  cases done : committed calls storage items with
  | false =>
    simp only [Bool.false_and,iff_true]
    intro id gone
    rw [(effect id).1] at gone
    simp [(effect id).2,done,apart id gone]
  | true =>
    rw [Bool.true_and,← Bool.not_eq_true,any_eq_true]
    constructor
    · rintro kept ⟨item,member,back⟩
      simp only [revived,and_eq_true,decide_eq_true_eq] at back
      have absent := kept item.id ((effect item.id).1.trans back.2)
      have put : items.any (puts item.id) = true := any_eq_true.mpr ⟨item,member,by simp [puts,back.1.2]⟩
      simp [(effect item.id).2,done,put] at absent
    · intro careful id gone
      rw [(effect id).1] at gone
      have unput : items.any (puts id) = false := by
        rw [← Bool.not_eq_true,any_eq_true]
        rintro ⟨item,member,put⟩
        simp only [puts,and_eq_true,decide_eq_true_eq] at put
        obtain ⟨rfl,works⟩ := put
        have through := all_eq_true.mp (and_eq_true_iff.mp done).2 item member
        cases lookup : item.lookup with
        | works => simp [passes,lookup,gone] at through
        | refused => exact careful ⟨item,member,by simp [revived,lookup,works,gone]⟩
        | breaks => simp [passes,lookup] at through
      simp [(effect id).2,unput,apart id gone]

lemma step_apart_iff (apart : Apart storage) (action : Action κ ν) :
    Apart (step storage action).2 ↔ revives storage action = false := by
  cases action with
  | add calls item => exact insertion_apart_iff apart fun id => add_effect calls storage id item
  | addBatch calls items => exact insertion_apart_iff apart fun id => addBatch_effect calls storage id items
  | delete calls target =>
    refine iff_of_true (fun id gone => ?_) rfl
    obtain ⟨marks,objects⟩ := delete_effect storage id calls target
    simp only [step] at gone ⊢
    rw [marks] at gone
    rw [objects]
    by_cases hit : (delete calls storage target).1 = .ok ∧ id = target
    · simp [hit]
    · simpa [hit] using apart id (by simpa [hit] using gone)

lemma step_removed (gone : isRemoved storage id = true) (action : Action κ ν) :
    isRemoved (step storage action).2 id = true := by
  cases action with
  | add calls item => exact (add_effect calls storage id item).1.trans gone
  | addBatch calls items => exact (addBatch_effect calls storage id items).1.trans gone
  | delete calls target => exact (delete_effect storage id calls target).1.trans (by simp [gone])

lemma run_removed (gone : isRemoved (run actions) id = true)
    (more : List (Action κ ν)) : isRemoved (run (actions ++ more)) id = true := by
  induction more using reverseRecOn with
  | nil => simpa using gone
  | append_singleton more action ih =>
    rw [← append_assoc,run_append]
    exact step_removed ih action

-- What the users of a set can see of an id.
def Hidden (storage : Storage κ ν) (id : κ) : Prop :=
  (∀ (ω : Type) (calls : GetCalls) (restore : ν → Option ω), get calls storage id restore = none) ∧
    ∀ calls key enumerator, enumeratorCreate calls storage key = some enumerator → ∀ (moves : List Bool) (value : ν),
      (moves.foldl (fun state works => (state.next works).2) enumerator).current ≠ some (id,value)

lemma isDeleted_work (attempt : Attempt) (txn : Txn (Storage κ ν)) (id : κ) : (isDeleted attempt txn id).2.work = txn.work := by
  have reads (works : Bool) : (mapGet works (removedMap : MapName (Storage κ ν) κ Unit) txn id).2.work = txn.work := by
    unfold mapGet
    split
    · rfl
    · split <;> rfl
  cases attempt with
  | works => exact reads true
  | refused => rfl
  | breaks => exact reads false

lemma get_absent (absent : objectOf storage id = none) (calls : GetCalls)
    (restore : ν → Option ω) : get calls storage id restore = none := by
  have missing (works : Bool) {txn : Txn (Storage κ ν)} (same : txn.work.objects = some (storage.objects.getD .empty)) :
      (mapGet works objectsMap txn id).1 = none := by
    unfold mapGet
    split
    · rfl
    · split
      · rfl
      · simp [objectsMap,same,objectOf_opened,absent]
  unfold get
  cases calls.start
  · rfl
  cases calls.objects
  · simp
  simp only [start_eq,open_create,open_existing,if_true]
  split
  · rfl
  · rename_i txn found
    have work : txn.work.objects = some (storage.objects.getD .empty) := by
      obtain ⟨_,same⟩ := ite_none_right_eq_some.mp found
      cases same
      rfl
    have none_found : (mapGet calls.get objectsMap (isDeleted calls.lookup txn id).2 id).1 = none :=
      missing calls.get (by rw [isDeleted_work,work])
    split
    · rfl
    · split
      · rfl
      · rename_i shape
        rw [shape] at none_found
        cases none_found

lemma absent_hidden (absent : objectOf storage id = none) : Hidden storage id := by
  refine ⟨fun ω calls restore => get_absent absent calls restore,fun calls key enumerator created moves value stands => ?_⟩
  have sub : (moves.foldl (fun state works => (state.next works).2) enumerator).entries.Sublist enumerator.entries := by
    clear stands created
    induction moves generalizing enumerator with
    | nil => exact List.Sublist.refl _
    | cons works rest ih => exact (ih _).trans (TwoPhaseSet.next_entries works enumerator)
  have member : (id,value) ∈ enumerator.entries := sub.subset (by simp [TwoPhaseSet.Enumerator.entries,stands])
  rw [TwoPhaseSet.enumeratorCreate_entries created member] at absent
  cases absent

-- In every state of a run the two maps are apart, REMOVED has grown since every
-- earlier state, and an id deleted with success before is hidden.
def RemovedForGood (actions : List (Action κ ν)) : Prop :=
  (∀ front back, actions = front ++ back → Apart (run front)) ∧
    (∀ front middle back, actions = front ++ middle ++ back →
      ∀ id, isRemoved (run front) id = true → isRemoved (run (front ++ middle)) id = true) ∧
    ∀ front calls id middle back, actions = front ++ .delete calls id::middle ++ back →
      (step (run front) (.delete calls id)).1 = .ok → Hidden (run (front ++ .delete calls id::middle)) id

theorem removed_for_good_iff (actions : List (Action κ ν)) :
    RemovedForGood actions ↔
      ∀ front action back, actions = front ++ action::back → revives (run front) action = false := by
  constructor
  · rintro ⟨apart,_⟩ front action back shape
    have after := apart (front ++ [action]) back (by simp [shape])
    rw [run_append] at after
    exact (step_apart_iff (apart front (action::back) shape) action).mp after
  · intro careful
    have apart : ∀ front back, actions = front ++ back → Apart (run front) := by
      intro front
      induction front using reverseRecOn with
      | nil => exact fun _ _ _ gone => by cases gone
      | append_singleton front action ih =>
        intro back shape
        have whole : actions = front ++ action::back := by simp [shape]
        rw [run_append]
        exact (step_apart_iff (ih (action::back) whole) action).mpr (careful front action back whole)
    refine ⟨apart,fun front middle _ _ id gone => run_removed gone middle,fun front calls id middle back shape done => ?_⟩
    have marked : isRemoved (run (front ++ [.delete calls id])) id = true := by
      rw [run_append]
      exact (delete_effect (run front) id calls id).1.trans (by simpa using .inl done)
    have still := run_removed marked middle
    rw [append_assoc,singleton_append] at still
    exact absent_hidden (Option.not_isSome_iff_eq_none.mp (by simp [apart _ back shape id still]))

-- Object 1 is added and deleted. A second addition of it, whose lookup in
-- REMOVED fails, brings it back.
def relapse : List (Action Nat Nat) :=
  [.add {} ⟨1,10,.works,.works⟩,.delete {} 1,.add {} ⟨1,20,.refused,.works⟩]

theorem deleted_object_is_enumerated :
    (step (run (relapse.take 1)) (.delete {} 1)).1 = .ok ∧
      (step (run (relapse.take 2)) (.add {} ⟨1,20,.refused,.works⟩)).1 = .ok ∧
      isRemoved (run relapse) 1 = true ∧ objectOf (run relapse) 1 = some 20 ∧
      TwoPhaseSet.enumerator {} (run relapse) = some ⟨some (1,20),[]⟩ := by decide

end MedvedDB.SetRuns
