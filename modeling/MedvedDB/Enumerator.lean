import MedvedDB.TwoPhaseSet

open MedvedDB.Lmdb
namespace MedvedDB.TwoPhaseSet

variable {κ ν : Type}

-- An enumerator of OBJECTS: the entry its cursor stands on and the entries
-- behind it. Without an entry the cursor has no position yet, and the next step
-- leads to the first entry. Its transaction keeps writers out while it lives.
structure Enumerator (κ ν : Type) where
  current : Option (κ × ν)
  rest : List (κ × ν)
  deriving DecidableEq, Repr

structure CursorCalls where
  cursor : Bool := true
  get : Bool := true

structure EnumeratorCalls where
  alloc : Bool := true
  start : Bool := true
  objects : Bool := true
  silent : Bool := true
  cursor : CursorCalls := {}
  reopen : Bool := true
  again : CursorCalls := {}

def Enumerator.next (works : Bool) (state : Enumerator κ ν) : Errno × Enumerator κ ν :=
  if !works then (.failed,state)
  else match state.rest with
    | [] => (.failed,state)
    | entry::rest => (.ok,⟨some entry,rest⟩)

def Enumerator.entries (state : Enumerator κ ν) : List (κ × ν) := state.current.toList ++ state.rest

lemma next_entries (works : Bool) (state : Enumerator κ ν) : (state.next works).2.entries.Sublist state.entries := by
  unfold Enumerator.next
  split
  · exact List.Sublist.refl _
  · split
    · exact List.Sublist.refl _
    · rename_i entry rest shape
      simp [Enumerator.entries,shape]

def cursorFirst : List (κ × ν) → Enumerator κ ν
  | [] => ⟨none,[]⟩
  | entry::rest => ⟨some entry,rest⟩

def cursorRange : List (κ × ν) → Option (Enumerator κ ν)
  | [] => none
  | entry::rest => some ⟨some entry,rest⟩

lemma cursorFirst_entries (entries : List (κ × ν)) : (cursorFirst entries).entries = entries := by
  cases entries <;> rfl

lemma cursorRange_entries (found : cursorRange entries = some state) :
    state.entries = entries := by
  cases entries with
  | nil => cases found
  | cons entry rest =>
    cases found
    rfl

variable [LinearOrder κ]

-- mdv_cursor_open_explicit with MDV_CURSOR_FIRST, or with MDV_CURSOR_SET_RANGE
-- and a key. A FIRST that finds nothing keeps the cursor.
def cursorOpenExplicit (calls : CursorCalls) (map : KeyMap κ ν) (key : Option κ) : Option (Enumerator κ ν) :=
  if !calls.cursor then none
  else match key with
    | none => some (if calls.get then cursorFirst map.entries else ⟨none,map.entries⟩)
    | some key => if calls.get then cursorRange (map.walkFrom key) else none

def enumeratorCreate (calls : EnumeratorCalls) (storage : Storage κ ν) (key : Option κ) : Option (Enumerator κ ν) :=
  if !calls.alloc then none
  else match transactionStart calls.start storage with
  | none => none
  | some txn =>
  match (mapOpen calls.objects true objectsMap txn).or (mapOpen calls.silent true objectsMap txn) with
  | none => none
  | some txn =>
  match objectsMap.content txn.work with
  | none => none
  | some map =>
  match cursorOpenExplicit calls.cursor map key with
  | some enumerator => some enumerator
  | none => if calls.reopen then cursorOpenExplicit calls.again map key else none

def enumerator (calls : EnumeratorCalls) (storage : Storage κ ν) : Option (Enumerator κ ν) :=
  enumeratorCreate calls storage none
def enumeratorFrom (calls : EnumeratorCalls) (storage : Storage κ ν) (id : κ) : Option (Enumerator κ ν) :=
  enumeratorCreate calls storage (some id)

lemma cursorOpen_entries {map : KeyMap κ ν} (created : cursorOpenExplicit calls map key = some state) :
    ∀ entry ∈ state.entries, entry ∈ map.entries := by
  unfold cursorOpenExplicit at created
  split at created
  · cases created
  · split at created
    · cases created
      split
      · simp [cursorFirst_entries]
      · simp [Enumerator.entries]
    · split at created
      · rw [cursorRange_entries created]
        exact fun entry member => List.mem_of_mem_filter member
      · cases created

lemma enumeratorCreate_eq (calls : EnumeratorCalls) (storage : Storage κ ν) (key : Option κ) :
    enumeratorCreate calls storage key =
      if calls.alloc && calls.start && (calls.objects || calls.silent) then
        (cursorOpenExplicit calls.cursor (storage.objects.getD .empty) key).or
          (if calls.reopen then cursorOpenExplicit calls.again (storage.objects.getD .empty) key else none)
      else none := by
  have opened (works : Bool) : mapOpen works true (objectsMap : MapName (Storage κ ν) κ ν) (running storage) =
      if works then some (running {storage with objects:=some (storage.objects.getD .empty)}) else none := open_create _ _ _
  unfold enumeratorCreate
  cases calls.alloc
  · rfl
  cases calls.start
  · rfl
  simp only [start_eq,opened,if_true]
  cases calls.objects <;> cases calls.silent <;> simp [objectsMap] <;>
    cases cursorOpenExplicit calls.cursor (storage.objects.getD .empty) key <;> rfl

lemma enumeratorCreate_entries {storage : Storage κ ν} {id : κ} {value : ν}
    (created : enumeratorCreate calls storage key = some state) (member : (id,value) ∈ state.entries) :
    objectOf storage id = some value := by
  rw [← objectOf_opened]
  apply KeyMap.mem_entries.mp
  rw [enumeratorCreate_eq] at created
  split at created
  · rcases Option.or_eq_some_iff.mp created with first | ⟨_,second⟩
    · exact cursorOpen_entries first _ member
    · split at second
      · exact cursorOpen_entries second _ member
      · cases second
  · cases created

end MedvedDB.TwoPhaseSet
