import MedvedDB.Basic
import MedvedDB.Lmdb

open MedvedDB.Lmdb
namespace MedvedDB.IdRange

-- The IDGEN map of mdv_2pset and its only key, MDV_OBJECTS_IDGEN.
structure Storage where
  idgen : Option (KeyMap Nat UInt64)

def idgenMap : MapName Storage Nat UInt64 :=
  ⟨fun storage => storage.idgen,fun map storage => {storage with idgen:=some map},fun _ _ => rfl,fun found => by rw [← found]⟩
def objectsIdgen : Nat := 0

def fresh : Storage := ⟨none⟩

structure InitCalls where
  start : Bool := true
  idgen : Bool := true
  get : Bool := true

-- mdv_objects_idgen_init: the counter it leaves, or none when it returns false.
-- A map or a key that is not found leaves the counter at zero.
def idgenInit (calls : InitCalls) (storage : Storage) : Option UInt64 :=
  match transactionStart calls.start storage with
  | none => none
  | some txn =>
  match mapOpen calls.idgen false idgenMap txn with
  | none => some 0
  | some txn =>
  match mapGet calls.get idgenMap txn objectsIdgen with
  | (none,_) => some 0
  | (some value,_) => some value

structure ReserveCalls where
  lock : Bool := true
  start : Bool := true
  idgen : Bool := true
  put : Bool := true
  commit : Bool := true

-- The storage with the new counter committed, or none when a call fails.
def persist (calls : ReserveCalls) (storage : Storage) (newId : UInt64) : Option Storage :=
  if !calls.lock then none
  else match transactionStart calls.start storage with
  | none => none
  | some txn =>
  match mapOpen calls.idgen true idgenMap txn with
  | none => none
  | some txn =>
  match mapPut calls.put idgenMap txn objectsIdgen newId with
  | (false,_) => none
  | (true,txn) =>
  match transactionCommit calls.commit txn storage with
  | (true,stored) => some stored
  | (false,_) => none

structure Objects where
  storage : Storage
  idgen : UInt64

-- mdv_2pset_reserve_ids_range. Whatever fails, the result is an error and
-- nothing has changed.
def reserveIdsRange (calls : ReserveCalls) (objs : Objects) (range : UInt32) : Errno × Option UInt64 × Objects :=
  let newId := objs.idgen + range.toUInt64
  match persist calls objs.storage newId with
  | none => (.failed,none,objs)
  | some storage => (.ok,some objs.idgen,⟨storage,newId⟩)

def counter (storage : Storage) : UInt64 := ((storage.idgen.bind fun map => map.find objectsIdgen).getD 0)

lemma idgenInit_eq (calls : InitCalls) (storage : Storage) :
    idgenInit calls storage =
      if calls.start then some (if calls.idgen && calls.get then counter storage else 0) else none := by
  obtain ⟨start,idgen,found⟩ := calls
  obtain ⟨content⟩ := storage
  cases start
  · rfl
  cases content with
  | none => cases idgen <;> cases found <;> rfl
  | some map =>
    cases idgen
    · rfl
    cases found with
    | false => rfl
    | true =>
      cases held : map.find objectsIdgen <;>
        simp [idgenInit,idgenMap,counter,held]

lemma persist_counter (saved : persist calls storage newId = some stored) : counter stored = newId := by
  obtain ⟨lock,start,idgen,put,commit⟩ := calls
  have inside := put_running put objectsIdgen newId (show idgenMap.content (idgenMap.replace
    ((idgenMap.content storage).getD .empty) storage) = some ((idgenMap.content storage).getD .empty) from rfl)
  cases lock
  · cases saved
  cases start
  · cases saved
  cases idgen
  · simp [persist] at saved
  cases put
  · simp [persist,inside] at saved
  cases commit
  · simp [persist,inside] at saved
  simp only [persist,start_eq,open_create,if_true,inside,commit_running,Bool.not_true,false_eq_true,if_false,
    some_inj] at saved
  subst saved
  simp [counter,idgenMap]

-- A set over several lives of its process. `memory` is the counter of the open
-- set, none after a crash, and `returned` the ranges given out with MDV_OK.
structure State where
  storage : Storage
  memory : Option UInt64
  returned : List (UInt64 × UInt32)

def start : State := ⟨fresh,none,[]⟩

def reserve (calls : ReserveCalls) (state : State) (range : UInt32) : Errno × Option UInt64 × State :=
  match state.memory with
  | none => (.failed,none,state)
  | some idgen =>
    match reserveIdsRange calls ⟨state.storage,idgen⟩ range with
    | (.ok,some id,objs) => (.ok,some id,⟨objs.storage,some objs.idgen,state.returned ++ [(id,range)]⟩)
    | (err,_,objs) => (err,none,⟨objs.storage,some objs.idgen,state.returned⟩)

-- A crash inside a call happens after those of its calls that worked; the
-- last place is behind the commit and before the counter in memory is set.
inductive Action where
  | reopen (calls : InitCalls)
  | reserve (calls : ReserveCalls) (range : UInt32)
  | crash
  | crashInside (calls : ReserveCalls) (range : UInt32)

def step (state : State) : Action → Option State
  | .reopen calls =>
    match state.memory with
    | some _ => none
    | none => some {state with memory:=idgenInit calls state.storage}
  | .reserve calls range => if state.memory.isSome then some (reserve calls state range).2.2 else none
  | .crash => some {state with memory:=none}
  | .crashInside calls range =>
    match state.memory with
    | none => none
    | some idgen =>
      some ⟨(persist calls state.storage (idgen + range.toUInt64)).getD state.storage,none,state.returned⟩

lemma reserve_eq (calls : ReserveCalls) (state : State) (range : UInt32) (memory : state.memory = some idgen) :
    reserve calls state range =
      match persist calls state.storage (idgen + range.toUInt64) with
      | none => (.failed,none,state)
      | some stored => (.ok,some idgen,⟨stored,some (idgen + range.toUInt64),state.returned ++ [(idgen,range)]⟩) := by
  obtain ⟨storage,held,returned⟩ := state
  obtain rfl : held = some idgen := memory
  cases saved : persist calls storage (idgen + range.toUInt64) <;> simp [reserve,reserveIdsRange,saved]

lemma step_returned (moved : step state action = some next) : state.returned.Sublist next.returned := by
  cases action with
  | reopen calls =>
    simp only [step] at moved
    split at moved <;> cases moved
    exact List.Sublist.refl _
  | reserve calls range =>
    simp only [step] at moved
    split at moved
    · rename_i held
      obtain ⟨idgen,memory⟩ := isSome_iff_exists.mp held
      rw [reserve_eq calls state range memory] at moved
      cases saved : persist calls state.storage (idgen + range.toUInt64) <;> rw [saved] at moved <;> cases moved
      · exact List.Sublist.refl _
      · exact List.sublist_append_left _ _
    · cases moved
  | crash =>
    cases moved
    exact List.Sublist.refl _
  | crashInside calls range =>
    simp only [step] at moved
    split at moved <;> cases moved
    exact List.Sublist.refl _

def Action.finds : Action → Bool
  | .reopen calls => calls.idgen && calls.get
  | _ => true

def Action.range : Action → Nat
  | .reserve _ range => range.toNat
  | .crashInside _ range => range.toNat
  | _ => 0

def total (actions : List Action) : Nat := (actions.map Action.range).sum

def covers (reserved : UInt64 × UInt32) (number : Nat) : Prop :=
  reserved.1.toNat ≤ number ∧ number < reserved.1.toNat + reserved.2.toNat

-- The counter in memory is the committed one, and what was given out lies below
-- it in increasing order. `asked` bounds the counter.
structure Orderly (asked : Nat) (state : State) : Prop where
  bounded : (counter state.storage).toNat ≤ asked
  memory : ∀ idgen, state.memory = some idgen → idgen = counter state.storage
  below : ∀ one ∈ state.returned, one.1.toNat + one.2.toNat ≤ (counter state.storage).toNat
  ordered : state.returned.Pairwise fun one two => one.1.toNat + one.2.toNat ≤ two.1.toNat

lemma Orderly.more (orderly : Orderly asked state) (extra : Nat) : Orderly (asked + extra) state :=
  ⟨orderly.bounded.trans (Nat.le_add_right _ _),orderly.memory,orderly.below,orderly.ordered⟩

lemma start_orderly : Orderly 0 start := ⟨by decide,nofun,nofun,List.Pairwise.nil⟩

lemma advance_toNat {idgen : UInt64} {range : UInt32} (bounded : idgen.toNat + range.toNat < 2 ^ 64) :
    (idgen + range.toUInt64).toNat = idgen.toNat + range.toNat := by
  rw [UInt64.toNat_add,UInt32.toNat_toUInt64,mod_eq_of_lt bounded]

lemma advance_orderly {asked : Nat} {state : State} {idgen : UInt64} {range : UInt32} {calls : ReserveCalls} {stored : Storage}
    (orderly : Orderly asked state) (memory : state.memory = some idgen)
    (bounded : asked + range.toNat < 2 ^ 64) (saved : persist calls state.storage (idgen + range.toUInt64) = some stored) :
    Orderly (asked + range.toNat) ⟨stored,none,state.returned⟩ ∧
      Orderly (asked + range.toNat) ⟨stored,some (idgen + range.toUInt64),state.returned ++ [(idgen,range)]⟩ := by
  have current := orderly.memory idgen memory
  have limit := orderly.bounded
  rw [← current] at limit
  have advanced := advance_toNat (by omega : idgen.toNat + range.toNat < 2 ^ 64)
  have value := persist_counter saved
  have below : ∀ one ∈ state.returned, one.1.toNat + one.2.toNat ≤ idgen.toNat := current ▸ orderly.below
  refine ⟨⟨?_,nofun,?_,orderly.ordered⟩,⟨?_,?_,?_,?_⟩⟩
  · rw [value,advanced]
    omega
  · intro one member
    have early := below one member
    rw [value,advanced]
    omega
  · rw [value,advanced]
    omega
  · intro other same
    cases same
    exact value.symm
  · intro one member
    rw [value,advanced]
    rcases mem_append.mp member with old | new
    · have early := below one old
      omega
    · rw [mem_singleton.mp new]
  · refine pairwise_append.mpr ⟨orderly.ordered,List.pairwise_singleton _ _,?_⟩
    intro one old two new
    rw [mem_singleton.mp new]
    exact below one old

lemma step_orderly (orderly : Orderly asked state) (found : action.finds = true)
    (bounded : asked + action.range < 2 ^ 64) (moved : step state action = some next) :
    Orderly (asked + action.range) next := by
  have kept (memory : Option UInt64) (same : ∀ idgen, memory = some idgen → idgen = counter state.storage) (more : Nat) :
      Orderly (asked + more) {state with memory:=memory} :=
    ⟨orderly.bounded.trans (Nat.le_add_right _ _),same,orderly.below,orderly.ordered⟩
  cases action with
  | reopen calls =>
    simp only [step] at moved
    split at moved
    · cases moved
    · cases moved
      refine kept _ (fun idgen same => ?_) _
      rw [idgenInit_eq,show (calls.idgen && calls.get) = true from found] at same
      split at same
      · exact (Option.some.inj same).symm
      · cases same
  | crash =>
    cases moved
    exact kept none nofun _
  | reserve calls range =>
    simp only [step] at moved
    split at moved
    · rename_i held
      obtain ⟨idgen,memory⟩ := isSome_iff_exists.mp held
      rw [reserve_eq calls state range memory] at moved
      cases saved : persist calls state.storage (idgen + range.toUInt64) with
      | none =>
        rw [saved] at moved
        cases moved
        exact kept state.memory orderly.memory _
      | some stored =>
        rw [saved] at moved
        cases moved
        exact (advance_orderly orderly memory bounded saved).2
    · cases moved
  | crashInside calls range =>
    simp only [step] at moved
    split at moved
    · cases moved
    · rename_i idgen memory
      cases moved
      cases saved : persist calls state.storage (idgen + range.toUInt64) with
      | none => exact kept none nofun _
      | some stored => exact (advance_orderly orderly memory bounded saved).1

lemma run_orderly (orderly : Orderly asked state) (found : ∀ action ∈ actions, action.finds = true)
    (bounded : asked + total actions < 2 ^ 64) (ran : actions.foldlM step state = some final) :
    Orderly (asked + total actions) final := by
  induction actions generalizing asked state with
  | nil => exact Option.some.inj ran ▸ orderly
  | cons action rest ih =>
    rw [foldlM_cons] at ran
    obtain ⟨middle,moved,ran⟩ := bind_eq_some_iff.mp ran
    have split : total (action::rest) = action.range + total rest := by simp [total]
    rw [split] at bounded ⊢
    rw [← Nat.add_assoc] at bounded ⊢
    refine ih (step_orderly orderly (found action mem_cons_self) (by omega) moved) ?_ bounded ran
    exact fun other member => found other (mem_cons_of_mem _ member)

theorem ranges_never_overlap (actions : List Action) (state : State) (found : ∀ action ∈ actions, action.finds = true)
    (bounded : total actions < 2 ^ 64) (ran : actions.foldlM step start = some state) :
    state.returned.Pairwise fun one two => ∀ number, ¬ (covers one number ∧ covers two number) := by
  have orderly := run_orderly start_orderly found (by omega) ran
  refine orderly.ordered.imp ?_
  rintro one two before number ⟨inside,again⟩
  have upper := inside.2
  have lower := again.1
  omega

def lives : List Action :=
  [.reopen {},.reserve {} 5,.reserve {commit:=false} 9,.reserve {} 2,.crashInside {} 10,.reopen {},.reserve {} 3]

theorem ranges_never_overlap_lives :
    (lives.foldlM step start).map State.returned = some [(0,5),(5,2),(17,3)] ∧
      [((0 : UInt64),(5 : UInt32)),(5,2),(17,3)].Pairwise fun one two => ∀ number, ¬ (covers one number ∧ covers two number) := by
  have ran : (lives.foldlM step start).map State.returned = some [(0,5),(5,2),(17,3)] := by decide +kernel
  refine ⟨ran,?_⟩
  obtain ⟨state,went,same⟩ := map_eq_some_iff.mp ran
  rw [← same]
  exact ranges_never_overlap lives state (by decide) (by decide) went

end MedvedDB.IdRange
