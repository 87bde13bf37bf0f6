import MedvedDB.TwoPhaseSet

open MedvedDB.TwoPhaseSet
namespace MedvedDB.SetOrder

inductive SetOp (κ ν : Type) where
  | insert (id : κ) (data : ν)
  | delete (id : κ)
  deriving DecidableEq, Repr

variable {κ ν : Type}

def DeletedAfterInsert (id : κ) (ops : List (SetOp κ ν)) : Prop :=
  ∃ front back, ops = front ++ .delete id::back ∧ ∃ data, .insert id data ∈ front

variable {ops : List (SetOp κ ν)} {id : κ}

lemma deletedAfterInsert_append : DeletedAfterInsert id (ops ++ [op]) ↔
    DeletedAfterInsert id ops ∨ (op = .delete id ∧ ∃ data, .insert id data ∈ ops) := by
  constructor
  · rintro ⟨front,back,shape,data,inserted⟩
    rcases List.eq_nil_or_concat back with rfl | ⟨middle,last,rfl⟩
    · obtain ⟨rfl,tail⟩ := List.append_inj' shape rfl
      exact .inr ⟨List.singleton_inj.mp tail,data,inserted⟩
    · rw [List.concat_eq_append,← cons_append,← append_assoc] at shape
      exact .inl ⟨front,middle,(List.append_inj' shape rfl).1,data,inserted⟩
  · rintro (⟨front,back,rfl,found⟩ | ⟨rfl,found⟩)
    · exact ⟨front,back ++ [op],by simp,found⟩
    · exact ⟨ops,[],rfl,found⟩

lemma DeletedAfterInsert.deleted (late : DeletedAfterInsert id ops) :
    .delete id ∈ ops := by
  obtain ⟨front,back,rfl,_⟩ := late
  simp

def Meaning (id : κ) (ops : List (SetOp κ ν)) : Status ν → Prop
  | .absent => ∀ data, .insert id data ∉ ops
  | .stored data => .insert id data ∈ ops ∧ ¬ DeletedAfterInsert id ops
  | .removed => DeletedAfterInsert id ops

lemma meaning_other (meant : Meaning id ops state)
    (different : ∀ data, op ≠ .insert id data) (kept : op ≠ .delete id) : Meaning id (ops ++ [op]) state := by
  cases state with
  | absent => simpa [Meaning,fun data => (different data).symm] using meant
  | stored data => simpa [Meaning,deletedAfterInsert_append,kept,(different data).symm] using meant
  | removed => simpa [Meaning,deletedAfterInsert_append,kept] using meant

variable [LinearOrder κ]

-- A delete that finds nothing counts as applied, as in the log replay.
def apply (storage : Storage κ ν) : SetOp κ ν → Storage κ ν
  | .insert id data => (add {} storage id data).2
  | .delete id => (delete {} storage id).2

def run (ops : List (SetOp κ ν)) : Storage κ ν := ops.foldl apply fresh

def visible (storage : Storage κ ν) (id : κ) : Option ν := get {} storage id some

def advance (id : κ) (status : Status ν) : SetOp κ ν → Status ν
  | .insert other data => if id = other then status.add data else status
  | .delete other => if id = other then status.delete else status

lemma apply_paired (paired : Paired storage) (op : SetOp κ ν) : Paired (apply storage op) := by
  cases op with
  | insert id data => exact add_paired _ paired id data
  | delete id => exact delete_paired _ paired id

lemma apply_status (storage : Storage κ ν) (op : SetOp κ ν) (id : κ) :
    status (apply storage op) id = advance id (status storage id) op := by
  cases op with
  | insert other data =>
    simp only [apply,status_add,advance]
    split
    · rename_i same
      rw [same]
    · rfl
  | delete other =>
    simp only [apply,status_delete,advance]
    split
    · rename_i same
      rw [same]
    · rfl

lemma foldl_paired (paired : Paired storage) (ops : List (SetOp κ ν)) : Paired (ops.foldl apply storage) := by
  induction ops generalizing storage with
  | nil => exact paired
  | cons op rest ih => exact ih (apply_paired paired op)

lemma foldl_status (storage : Storage κ ν) (ops : List (SetOp κ ν)) (id : κ) :
    status (ops.foldl apply storage) id = ops.foldl (advance id) (status storage id) := by
  induction ops generalizing storage with
  | nil => rfl
  | cons op rest ih => rw [foldl_cons,foldl_cons,ih,apply_status]

def history (id : κ) (ops : List (SetOp κ ν)) : Status ν := ops.foldl (advance id) .absent

lemma visible_run (ops : List (SetOp κ ν)) (id : κ) : visible (run ops) id = (history id ops).data := by
  unfold visible run history
  rw [get_status (foldl_paired fresh_paired ops),foldl_status]
  exact Option.bind_fun_some _

lemma history_append (id : κ) (ops : List (SetOp κ ν)) (op : SetOp κ ν) :
    history id (ops ++ [op]) = advance id (history id ops) op := by simp [history]

lemma history_meaning (id : κ) (ops : List (SetOp κ ν)) : Meaning id ops (history id ops) := by
  induction ops using reverseRecOn with
  | nil => simp [history,Meaning]
  | append_singleton ops op ih =>
    rw [history_append]
    cases op with
    | insert other data =>
      simp only [advance]
      split
      · rename_i same
        subst same
        cases state : history id ops with
        | absent =>
          rw [state] at ih
          refine ⟨by simp,?_⟩
          rw [deletedAfterInsert_append]
          rintro (⟨front,back,rfl,old,earlier⟩ | ⟨impossible,_⟩)
          · exact ih old (mem_append_left _ earlier)
          · cases impossible
        | stored old =>
          rw [state] at ih
          simpa [Status.add,Meaning,deletedAfterInsert_append] using ⟨.inl ih.1,ih.2⟩
        | removed =>
          rw [state] at ih
          exact deletedAfterInsert_append.mpr (.inl ih)
      · rename_i different
        exact meaning_other ih (by simp [Ne.symm different]) (by simp)
    | delete other =>
      simp only [advance]
      split
      · rename_i same
        subst same
        cases state : history id ops with
        | absent =>
          rw [state] at ih
          simpa [Status.delete,Meaning] using ih
        | stored data =>
          rw [state] at ih
          exact deletedAfterInsert_append.mpr (.inr ⟨rfl,data,ih.1⟩)
        | removed =>
          rw [state] at ih
          exact deletedAfterInsert_append.mpr (.inl ih)
      · rename_i different
        exact meaning_other ih (by simp) (by simp [Ne.symm different])

def Uniform (ops : List (SetOp κ ν)) : Prop :=
  ∀ id one two, .insert id one ∈ ops → .insert id two ∈ ops → one = two

-- No id that is both inserted and deleted has all its deletes in front of
-- its inserts. A delete that comes first finds no object, aborts and leaves
-- no mark in REMOVED, so nothing stops the insert that follows.
def DeletesEffective (ops : List (SetOp κ ν)) : Prop :=
  ∀ id data, .insert id data ∈ ops → .delete id ∈ ops → DeletedAfterInsert id ops

def ShowsInsertedNeverDeleted (ops : List (SetOp κ ν)) : Prop :=
  ∀ id data, visible (run ops) id = some data ↔ .insert id data ∈ ops ∧ .delete id ∉ ops

lemma visible_stored :
    visible (run ops) id = some data ↔ history id ops = .stored data := by
  rw [visible_run]
  cases history id ops <;> simp [Status.data]

lemma shows_iff_effective (uniform : Uniform ops) :
    ShowsInsertedNeverDeleted ops ↔ DeletesEffective ops := by
  constructor
  · intro shows id data inserted deleted
    have meant := history_meaning id ops
    cases state : history id ops with
    | absent =>
      rw [state] at meant
      exact absurd inserted (meant data)
    | stored kept => exact absurd deleted ((shows id kept).mp (visible_stored.mpr state)).2
    | removed =>
      rw [state] at meant
      exact meant
  · intro effective id data
    rw [visible_stored]
    have meant := history_meaning id ops
    constructor
    · intro state
      rw [state] at meant
      exact ⟨meant.1,fun deleted => meant.2 (effective id data meant.1 deleted)⟩
    · rintro ⟨inserted,kept⟩
      cases state : history id ops with
      | absent =>
        rw [state] at meant
        exact absurd inserted (meant data)
      | stored other =>
        rw [state] at meant
        rw [uniform id other data meant.1 inserted]
      | removed =>
        rw [state] at meant
        exact absurd (DeletedAfterInsert.deleted meant) kept

theorem order_independent_iff (ops permuted : List (SetOp κ ν)) (same : ops.Perm permuted)
    (uniform : Uniform ops) :
    (visible (run ops) = visible (run permuted) ∧ ShowsInsertedNeverDeleted ops) ↔
      DeletesEffective ops ∧ DeletesEffective permuted := by
  have uniformToo : Uniform permuted := fun id one two first second =>
    uniform id one two (same.mem_iff.mpr first) (same.mem_iff.mpr second)
  constructor
  · rintro ⟨equal,shows⟩
    refine ⟨(shows_iff_effective uniform).mp shows,(shows_iff_effective uniformToo).mp ?_⟩
    intro id data
    rw [← equal,shows,same.mem_iff,same.mem_iff]
  · rintro ⟨first,second⟩
    have shows := (shows_iff_effective uniform).mpr first
    have showsToo := (shows_iff_effective uniformToo).mpr second
    refine ⟨?_,shows⟩
    funext id
    apply Option.ext
    intro data
    rw [shows,showsToo,same.mem_iff,same.mem_iff]

def deletedFirst : List (SetOp Nat Nat) := [.delete 1,.insert 1 10]
def deletedLast : List (SetOp Nat Nat) := [.insert 1 10,.delete 1]

theorem deleted_object_shows_again :
    deletedLast.Perm deletedFirst ∧ Uniform deletedLast ∧
      visible (run deletedLast) 1 = none ∧ visible (run deletedFirst) 1 = some 10 := by
  refine ⟨by decide,?_,by decide,by decide⟩
  intro id one two first second
  simp [deletedLast] at first second
  rw [first.2,second.2]

theorem order_independent_deletedLast :
    visible (run (deletedLast ++ [.insert 2 20])) = visible (run (.insert 2 20::deletedLast)) ∧
      ShowsInsertedNeverDeleted (deletedLast ++ [.insert 2 20]) := by
  apply (order_independent_iff _ _ (by decide) ?_).mpr ⟨?_,?_⟩
  · intro id one two first second
    simp [deletedLast] at first second
    omega
  · intro id data inserted deleted
    obtain rfl : id = 1 := by simpa [deletedLast] using deleted
    exact ⟨[.insert 1 10],[.insert 2 20],rfl,10,by simp⟩
  · intro id data inserted deleted
    obtain rfl : id = 1 := by simpa [deletedLast] using deleted
    exact ⟨[.insert 2 20,.insert 1 10],[],rfl,10,by simp⟩

end MedvedDB.SetOrder
