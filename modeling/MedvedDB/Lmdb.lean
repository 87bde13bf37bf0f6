import MedvedDB.KeyMap

namespace MedvedDB.Lmdb

-- One named map inside an environment of type `σ`. A map that was never
-- created is absent: opening it without the create flag fails.
structure MapName (σ κ ν : Type) [LinearOrder κ] where
  content : σ → Option (KeyMap κ ν)
  replace : KeyMap κ ν → σ → σ
  content_replace : ∀ map storage, content (replace map storage) = some map
  replace_content : ∀ {map storage}, content storage = some map → replace map storage = storage

-- A transaction works on its own copy of the environment. `live` is the
-- pointer inside mdv_transaction, null once committed or aborted. A call that
-- fails inside the transaction sets `error`; nothing works on it afterwards.
structure Txn (σ : Type) where
  work : σ
  live : Bool
  error : Bool

variable {σ κ ν : Type} [LinearOrder κ]

def Txn.usable (txn : Txn σ) : Bool := txn.live && !txn.error

-- In every call `works` says whether the call of the library itself succeeds.
def transactionStart (works : Bool) (storage : σ) : Option (Txn σ) :=
  if works then some ⟨storage,true,false⟩ else none

def mapOpen (works create : Bool) (name : MapName σ κ ν) (txn : Txn σ) : Option (Txn σ) :=
  if !works || !txn.usable then none
  else match name.content txn.work with
    | some _ => some txn
    | none => if create then some {txn with work:=name.replace .empty txn.work} else none

def mapGet (works : Bool) (name : MapName σ κ ν) (txn : Txn σ) (key : κ) : Option ν × Txn σ :=
  if !txn.usable then (none,txn)
  else if !works then (none,{txn with error:=true})
  else ((name.content txn.work).bind fun map => map.find key,txn)

def mapPut (works : Bool) (name : MapName σ κ ν) (txn : Txn σ) (key : κ) (value : ν) : Bool × Txn σ :=
  match name.content txn.work with
  | none => (false,txn)
  | some map =>
    if !txn.usable then (false,txn)
    else if !works then (false,{txn with error:=true})
    else (true,{txn with work:=name.replace (map.insert key value) txn.work})

-- A key that is there already is refused without harm to the transaction.
def mapPutUnique (works : Bool) (name : MapName σ κ ν) (txn : Txn σ) (key : κ) (value : ν) : Bool × Txn σ :=
  match name.content txn.work with
  | none => (false,txn)
  | some map =>
    if !txn.usable then (false,txn)
    else if !works then (false,{txn with error:=true})
    else if (map.find key).isSome then (false,txn)
    else (true,{txn with work:=name.replace (map.insert key value) txn.work})

def mapDel (works : Bool) (name : MapName σ κ ν) (txn : Txn σ) (key : κ) : Bool × Txn σ :=
  match name.content txn.work with
  | none => (false,txn)
  | some map =>
    if !txn.usable then (false,txn)
    else if !works then (false,{txn with error:=true})
    else if (map.find key).isNone then (false,txn)
    else (true,{txn with work:=name.replace (map.erase key) txn.work})

-- A cursor set on the last entry, and one set on the first key not below `key`
-- with all entries that follow it.
def cursorLast (works : Bool) (name : MapName σ κ ν) (txn : Txn σ) : Option κ :=
  if works && txn.usable then (name.content txn.work).bind KeyMap.lastKey else none

def cursorFrom (works : Bool) (name : MapName σ κ ν) (txn : Txn σ) (key : κ) : List (κ × ν) :=
  if works && txn.usable then ((name.content txn.work).map fun map => map.walkFrom key).getD [] else []

def transactionCommit (works : Bool) (txn : Txn σ) (storage : σ) : Bool × σ :=
  if txn.usable && works then (true,txn.work) else (false,storage)

def transactionAbort (txn : Txn σ) : Txn σ := {txn with live:=false}

-- Not every failing call marks the transaction: one on a handle that was closed
-- under it returns MDB_BAD_DBI and leaves the transaction as it was.
inductive Attempt where
  | works | refused | breaks
  deriving DecidableEq, Repr

def mapGetBy (attempt : Attempt) (name : MapName σ κ ν) (txn : Txn σ) (key : κ) : Option ν × Txn σ :=
  match attempt with
  | .works => mapGet true name txn key
  | .refused => (none,txn)
  | .breaks => mapGet false name txn key

def mapPutUniqueBy (attempt : Attempt) (name : MapName σ κ ν) (txn : Txn σ) (key : κ) (value : ν) : Bool × Txn σ :=
  match attempt with
  | .works => mapPutUnique true name txn key value
  | .refused => (false,txn)
  | .breaks => mapPutUnique false name txn key value

def mapPutBy (attempt : Attempt) (name : MapName σ κ ν) (txn : Txn σ) (key : κ) (value : ν) : Bool × Txn σ :=
  match attempt with
  | .works => mapPut true name txn key value
  | .refused => (false,txn)
  | .breaks => mapPut false name txn key value

-- How the calls act on a transaction that is still usable, and that nothing
-- acts on one with the error mark. Proofs about callers run on these equations.
abbrev running (work : σ) : Txn σ := ⟨work,true,false⟩
abbrev broken (work : σ) : Txn σ := ⟨work,true,true⟩

@[simp] lemma start_eq (works : Bool) (storage : σ) :
    transactionStart works storage = if works then some (running storage) else none := rfl

@[simp] lemma open_create (works : Bool) (name : MapName σ κ ν) (work : σ) :
    mapOpen works true name (running work) =
      if works then some (running (name.replace ((name.content work).getD .empty) work)) else none := by
  cases works with
  | false => rfl
  | true =>
    cases found : name.content work with
    | none => simp [mapOpen,Txn.usable,found]
    | some map => simp [mapOpen,Txn.usable,found,name.replace_content found]

@[simp] lemma open_existing (works : Bool) (name : MapName σ κ ν) (work : σ) :
    mapOpen works false name (running work) =
      if works && (name.content work).isSome then some (running work) else none := by
  cases works <;> cases found : name.content work <;> simp [mapOpen,Txn.usable,found]

@[simp] lemma get_running (works : Bool) (name : MapName σ κ ν) (work : σ) (key : κ) :
    mapGet works name (running work) key =
      if works then ((name.content work).bind fun map => map.find key,running work) else (none,broken work) := by
  cases works <;> simp [mapGet,Txn.usable]

@[simp] lemma get_broken (works : Bool) (name : MapName σ κ ν) (work : σ) (key : κ) :
    mapGet works name (broken work) key = (none,broken work) := rfl

variable {name : MapName σ κ ν} {txn : Txn σ}

lemma put_running (works : Bool) (key : κ) (value : ν) (found : name.content work = some map) :
    mapPut works name (running work) key value =
      if works then (true,running (name.replace (map.insert key value) work)) else (false,broken work) := by
  cases works <;> simp [mapPut,Txn.usable,found]

@[simp] lemma put_broken (works : Bool) (name : MapName σ κ ν) (work : σ) (key : κ) (value : ν) :
    mapPut works name (broken work) key value = (false,broken work) := by
  cases found : name.content work <;> simp [mapPut,Txn.usable,found]

lemma putUnique_running (works : Bool) (key : κ) (value : ν)
    (found : name.content work = some map) :
    mapPutUnique works name (running work) key value =
      if works then
        if (map.find key).isSome then (false,running work)
        else (true,running (name.replace (map.insert key value) work))
      else (false,broken work) := by
  cases works <;> simp [mapPutUnique,Txn.usable,found]

lemma get_aborted (works : Bool) (name : MapName σ κ ν) (key : κ) (gone : txn.live = false) : mapGet works name txn key = (none,txn) := by
  simp [mapGet,Txn.usable,gone]

lemma putUnique_aborted (works : Bool) (name : MapName σ κ ν) (key : κ) (value : ν) (gone : txn.live = false) :
    mapPutUnique works name txn key value = (false,txn) := by
  cases found : name.content txn.work <;> simp [mapPutUnique,Txn.usable,gone,found]

lemma commit_aborted (works : Bool) (storage : σ) (gone : txn.live = false) : transactionCommit works txn storage = (false,storage) := by
  simp [transactionCommit,Txn.usable,gone]

@[simp] lemma putUnique_broken (works : Bool) (name : MapName σ κ ν) (work : σ) (key : κ) (value : ν) :
    mapPutUnique works name (broken work) key value = (false,broken work) := by
  cases found : name.content work <;> simp [mapPutUnique,Txn.usable,found]

lemma putUnique_cases (put : mapPutUnique works name txn key value = (done,after)) :
    (done = false ∧ after.work = txn.work) ∨
      (done = true ∧ ∃ map, name.content txn.work = some map ∧ map.find key = none ∧
        after = {txn with work:=name.replace (map.insert key value) txn.work}) := by
  unfold mapPutUnique at put
  split at put
  · cases put
    exact .inl ⟨rfl,rfl⟩
  · rename_i map found
    split at put
    · cases put
      exact .inl ⟨rfl,rfl⟩
    split at put
    · cases put
      exact .inl ⟨rfl,rfl⟩
    split at put
    · cases put
      exact .inl ⟨rfl,rfl⟩
    · rename_i missing
      cases put
      exact .inr ⟨rfl,map,found,Option.not_isSome_iff_eq_none.mp missing,rfl⟩

lemma commit_cases (done : transactionCommit works txn storage = (true,after)) :
    txn.usable = true ∧ after = txn.work := by
  unfold transactionCommit at done
  split at done
  · rename_i able
    cases done
    exact ⟨(and_eq_true _ _ ▸ able).1,rfl⟩
  · cases done

lemma commit_failed (undone : transactionCommit works txn storage = (false,after)) : after = storage := by
  unfold transactionCommit at undone
  split at undone
  · cases undone
  · cases undone
    rfl

lemma del_running (works : Bool) (key : κ) (found : name.content work = some map)
    (member : (map.find key).isSome) : mapDel works name (running work) key =
      if works then (true,running (name.replace (map.erase key) work)) else (false,broken work) := by
  have present : (map.find key).isNone = false := by simpa using member
  cases works <;> simp [mapDel,Txn.usable,found,present]

@[simp] lemma commit_running (works : Bool) (work storage : σ) :
    transactionCommit works (running work) storage = if works then (true,work) else (false,storage) := by
  cases works <;> rfl

@[simp] lemma commit_broken (works : Bool) (work storage : σ) :
    transactionCommit works (broken work) storage = (false,storage) := rfl

end MedvedDB.Lmdb
