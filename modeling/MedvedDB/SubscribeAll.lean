import MedvedDB.Basic
import MedvedDB.EventBus

namespace MedvedDB.EventBus

variable {τ α η : Type}

structure Listed (α η : Type) where
  list : List (Subscriber α η)
  nodup : list.Nodup

def Listed.empty : Listed α η := ⟨[],nodup_nil⟩

structure Handlers (τ α η : Type) where
  lists : τ → Option (Listed α η)

def Subscribed (handlers : Handlers τ α η) (type : τ) (subscriber : Subscriber α η) : Prop := ∃ listed, handlers.lists type = some listed ∧ subscriber ∈ listed.list

-- Which allocations of one mdv_ebus_subscribe_unsafe succeed: the empty list of a
-- new type, its entry in the map, and the copy of the list.
structure SubscribeCalls where
  vector : Bool := true
  insert : Bool := true
  clone : Bool := true

section Single

variable [DecidableEq τ]

def Handlers.set (handlers : Handlers τ α η) (type : τ) (listed : Listed α η) : Handlers τ α η := ⟨update handlers.lists type (some listed)⟩

def handlersUnsafe (calls : SubscribeCalls) (handlers : Handlers τ α η) (type : τ) : Option (Listed α η × Handlers τ α η) :=
  match handlers.lists type with
  | some listed => some (listed,handlers)
  | none => if !calls.vector then none else if !calls.insert then none else some (.empty,handlers.set type .empty)

variable {handlers : Handlers τ α η} {listed : Listed α η}

lemma set_subscribed :
    Subscribed (handlers.set type listed) other subscriber ↔ if other = type then subscriber ∈ listed.list else Subscribed handlers other subscriber := by
  unfold Subscribed Handlers.set
  split
  · rename_i same
    subst same
    simp
  · rename_i apart
    simp [apart]

lemma handlersUnsafe_subscribed (found : handlersUnsafe calls handlers type = some (listed,after)) :
    after.lists type = some listed ∧ ∀ other subscriber, Subscribed after other subscriber ↔ Subscribed handlers other subscriber := by
  unfold handlersUnsafe at found
  split at found
  · rename_i is
    cases found
    exact ⟨is,fun _ _ => Iff.rfl⟩
  · rename_i is
    split at found
    · cases found
    split at found
    · cases found
    cases found
    refine ⟨update_self _ _ _,?_⟩
    intro other subscriber
    rw [set_subscribed]
    split
    · rename_i same
      subst same
      simp [Subscribed,is,Listed.empty]
    · rfl

variable [DecidableEq α] [DecidableEq η]

def Listed.add (listed : Listed α η) (subscriber : Subscriber α η) : Listed α η :=
  if member : subscriber ∈ listed.list then listed
  else ⟨listed.list ++ [subscriber],List.nodup_append_comm.mp (nodup_cons.mpr ⟨member,listed.nodup⟩)⟩

def Listed.erase (listed : Listed α η) (subscriber : Subscriber α η) : Listed α η := ⟨listed.list.erase subscriber,listed.nodup.erase subscriber⟩

lemma mem_add : two ∈ (listed.add one).list ↔ two = one ∨ two ∈ listed.list := by
  unfold Listed.add
  split
  · rename_i member
    refine (or_iff_right_of_imp ?_).symm
    rintro rfl
    exact member
  · rw [mem_append,mem_singleton,or_comm]

def subscribeUnsafe (calls : SubscribeCalls) (handlers : Handlers τ α η) (type : τ) (subscriber : Subscriber α η) : Errno × Handlers τ α η :=
  match handlersUnsafe calls handlers type with
  | none => (.noMem,handlers)
  | some (listed,handlers) =>
    if subscriber ∈ listed.list then (.ok,handlers)
    else if !calls.clone then (.noMem,handlers)
    else (.ok,handlers.set type (listed.add subscriber))

def unsubscribeUnsafe (clone : Bool) (handlers : Handlers τ α η) (type : τ) (subscriber : Subscriber α η) : Errno × Option (Listed α η) × Handlers τ α η :=
  match handlers.lists type with
  | none => (.ok,none,handlers)
  | some listed =>
    if subscriber ∈ listed.list then
      if !clone then (.noMem,none,handlers) else (.ok,some listed,handlers.set type (listed.erase subscriber))
    else (.ok,none,handlers)

lemma subscribeUnsafe_subscribed (calls : SubscribeCalls) (handlers : Handlers τ α η) (type other : τ) (one two : Subscriber α η) :
    Subscribed (subscribeUnsafe calls handlers type one).2 other two ↔
      Subscribed handlers other two ∨ (subscribeUnsafe calls handlers type one).1 = .ok ∧ other = type ∧ two = one := by
  unfold subscribeUnsafe
  cases found : handlersUnsafe calls handlers type with
  | none => simp
  | some entry =>
    obtain ⟨listed,after⟩ := entry
    obtain ⟨is,same⟩ := handlersUnsafe_subscribed found
    dsimp only
    split
    · rename_i member
      rw [same]
      refine (or_iff_left_of_imp ?_).symm
      rintro ⟨_,rfl,rfl⟩
      exact (same _ _).mp ⟨listed,is,member⟩
    · split
      · simp [same]
      · simp only [set_subscribed,true_and]
        by_cases equal : other = type
        · subst equal
          rw [if_pos rfl,mem_add,← same,or_comm]
          simp [Subscribed,is]
        · simp [equal,same]

lemma unsubscribeUnsafe_subscribed (clone : Bool) (handlers : Handlers τ α η) (type other : τ) (one two : Subscriber α η) :
    Subscribed (unsubscribeUnsafe clone handlers type one).2.2 other two ↔ Subscribed handlers other two ∧ ¬ (clone = true ∧ other = type ∧ two = one) := by
  unfold unsubscribeUnsafe
  cases is : handlers.lists type with
  | none =>
    refine (and_iff_left_of_imp ?_).symm
    rintro ⟨listed,found,_⟩ ⟨_,rfl,_⟩
    dsimp only at found
    rw [is] at found
    cases found
  | some listed =>
    dsimp only
    split
    · cases clone with
      | false => simp
      | true =>
        simp only [Bool.not_true,false_eq_true,if_false,set_subscribed,true_and]
        by_cases equal : other = type
        · subst equal
          rw [if_pos rfl]
          simp [Subscribed,is,Listed.erase,listed.nodup.mem_erase_iff,and_comm]
        · simp [equal]
    · rename_i absent
      refine (and_iff_left_of_imp ?_).symm
      rintro ⟨held,found,member⟩ ⟨_,rfl,rfl⟩
      rw [is] at found
      cases found
      exact absent member

end Single

def Undone (clone : Nat → Bool) (pairs : List (τ × η)) (pair : τ × η) : Prop := ∃ index, pairs[index]? = some pair ∧ clone index = true

lemma undone_append {clone : Nat → Bool} :
    Undone clone (pairs ++ [last]) pair ↔ Undone clone pairs pair ∨ clone pairs.length = true ∧ pair = last := by
  constructor
  · rintro ⟨index,found,copied⟩
    rcases Nat.lt_or_ge index pairs.length with inside | beyond
    · rw [List.getElem?_append_left inside] at found
      exact .inl ⟨index,found,copied⟩
    · rw [List.getElem?_append_right beyond,List.getElem?_singleton] at found
      split at found
      · rename_i behind
        cases found
        rw [show index = pairs.length by omega] at copied
        exact .inr ⟨copied,rfl⟩
      · cases found
  · rintro (⟨index,found,copied⟩ | ⟨copied,rfl⟩)
    · exact ⟨index,by rw [List.getElem?_append_left (List.getElem?_eq_some_iff.mp found).1,found],copied⟩
    · exact ⟨pairs.length,by simp,copied⟩

lemma Undone.mem {clone : Nat → Bool} (undone : Undone clone pairs pair) : pair ∈ pairs := by
  obtain ⟨index,found,_⟩ := undone
  exact mem_of_getElem? found

variable [DecidableEq τ] [DecidableEq α] [DecidableEq η]

-- The undo loop over the pairs that were subscribed, the last one first. Each
-- turn overwrites the list that the turn before it replaced.
def undoAll (clone : Nat → Bool) (arg : α) : Option (Listed α η) → Handlers τ α η → List (τ × η) → Option (Listed α η) × Handlers τ α η
  | prev,handlers,[] => (prev,handlers)
  | _,handlers,(type,handler)::rest =>
    let (_,prev,handlers) := unsubscribeUnsafe (clone rest.length) handlers type ⟨arg,handler⟩
    undoAll clone arg prev handlers rest

-- `done` are the pairs that are subscribed already, the last one first.
def subscribeLoop (calls : Nat → SubscribeCalls) (clone : Nat → Bool) (arg : α) : List (τ × η) → Handlers τ α η → List (τ × η) →
    Errno × Option (Listed α η) × Handlers τ α η
  | _,handlers,[] => (.ok,none,handlers)
  | done,handlers,(type,handler)::rest =>
    match subscribeUnsafe (calls done.length) handlers type ⟨arg,handler⟩ with
    | (.ok,handlers) => subscribeLoop calls clone arg ((type,handler)::done) handlers rest
    | (err,handlers) => (err,undoAll clone arg none handlers done)

-- The list that is replaced last is waited for and released.
def subscribeAll (lock : Bool) (calls : Nat → SubscribeCalls) (clone : Nat → Bool) (arg : α) (handlers : Handlers τ α η) (pairs : List (τ × η)) :
    Errno × Option (Listed α η) × Handlers τ α η :=
  if !lock then (.failed,none,handlers) else subscribeLoop calls clone arg [] handlers pairs

def subscribedFirst (calls : Nat → SubscribeCalls) (arg : α) : Nat → Handlers τ α η → List (τ × η) → List (τ × η)
  | _,_,[] => []
  | index,handlers,(type,handler)::rest =>
    match subscribeUnsafe (calls index) handlers type ⟨arg,handler⟩ with
    | (.ok,handlers) => (type,handler)::subscribedFirst calls arg (index + 1) handlers rest
    | _ => []

section Groups

variable {calls : Nat → SubscribeCalls} {clone : Nat → Bool} {arg : α}

omit [DecidableEq τ] [DecidableEq α] [DecidableEq η] in
lemma subscriber_eq {two : Subscriber α η} {handler : η} : two = ⟨arg,handler⟩ ↔ two.arg = arg ∧ two.handler = handler := by
  obtain ⟨own,called⟩ := two
  rw [Subscriber.mk.injEq]

lemma undoAll_subscribed (prev : Option (Listed α η)) (handlers : Handlers τ α η) (done : List (τ × η)) (other : τ) (two : Subscriber α η) :
    Subscribed (undoAll clone arg prev handlers done).2 other two ↔
      Subscribed handlers other two ∧ ¬ (two.arg = arg ∧ Undone clone done.reverse (other,two.handler)) := by
  induction done generalizing prev handlers with
  | nil => simp [undoAll,Undone]
  | cons pair rest ih =>
    obtain ⟨type,handler⟩ := pair
    simp only [undoAll,ih,unsubscribeUnsafe_subscribed,List.reverse_cons,undone_append,List.length_reverse,subscriber_eq,Prod.mk.injEq]
    rw [and_assoc,← not_or,and_or_left,or_comm,and_left_comm (a := two.arg = arg),and_left_comm (a := two.arg = arg)]

lemma subscribeLoop_subscribed (done : List (τ × η)) (handlers : Handlers τ α η) (pairs : List (τ × η))
    (failed : (subscribeLoop calls clone arg done handlers pairs).1 ≠ .ok) (other : τ) (two : Subscriber α η) :
    Subscribed (subscribeLoop calls clone arg done handlers pairs).2.2 other two ↔
      (Subscribed handlers other two ∨ two.arg = arg ∧ (other,two.handler) ∈ subscribedFirst calls arg done.length handlers pairs) ∧
        ¬ (two.arg = arg ∧ Undone clone (done.reverse ++ subscribedFirst calls arg done.length handlers pairs) (other,two.handler)) := by
  induction pairs generalizing done handlers with
  | nil => exact absurd rfl failed
  | cons pair rest ih =>
    obtain ⟨type,handler⟩ := pair
    have here := subscribeUnsafe_subscribed (calls done.length) handlers type other ⟨arg,handler⟩ two
    cases outcome : subscribeUnsafe (calls done.length) handlers type ⟨arg,handler⟩ with
    | mk err after =>
      rw [outcome] at here
      by_cases works : err = .ok
      · subst works
        simp only [subscribeLoop,subscribedFirst,outcome] at failed ⊢
        have later := ih ((type,handler)::done) after failed
        rw [length_cons,List.reverse_cons,append_assoc,singleton_append] at later
        rw [later,here,mem_cons,subscriber_eq,Prod.mk.injEq]
        refine and_congr_left fun _ => ?_
        rw [or_assoc,eq_self,true_and,and_or_left,and_left_comm]
      · have shape : subscribeLoop calls clone arg done handlers ((type,handler)::rest) = (err,undoAll clone arg none after done) ∧
            subscribedFirst calls arg done.length handlers ((type,handler)::rest) = [] := by
          simp only [subscribeLoop,subscribedFirst,outcome]
          cases err with
          | ok => exact absurd rfl works
          | _ => exact ⟨trivial,rfl⟩
        rw [shape.1,shape.2,undoAll_subscribed,here]
        simp [works]

theorem failed_group_undone_iff (lock : Bool) (calls : Nat → SubscribeCalls) (clone : Nat → Bool) (arg : α) (handlers : Handlers τ α η)
    (pairs : List (τ × η)) :
    ((subscribeAll lock calls clone arg handlers pairs).1 ≠ .ok →
        ∀ type subscriber, Subscribed (subscribeAll lock calls clone arg handlers pairs).2.2 type subscriber ↔ Subscribed handlers type subscriber) ↔
      ((subscribeAll lock calls clone arg handlers pairs).1 ≠ .ok → lock = true → ∀ pair ∈ subscribedFirst calls arg 0 handlers pairs,
        (Subscribed handlers pair.1 ⟨arg,pair.2⟩ ↔ ¬ Undone clone (subscribedFirst calls arg 0 handlers pairs) pair)) := by
  refine imp_congr_right fun failed => ?_
  cases lock with
  | false => exact iff_of_true (fun _ _ => Iff.rfl) nofun
  | true =>
    have final := subscribeLoop_subscribed [] handlers pairs failed
    constructor
    · intro same _ pair member
      have here := (same pair.1 ⟨arg,pair.2⟩).symm.trans (final pair.1 ⟨arg,pair.2⟩)
      simpa [member] using here
    · intro undone type subscriber
      refine (final type subscriber).trans ?_
      by_cases own : subscriber.arg = arg ∧ (type,subscriber.handler) ∈ subscribedFirst calls arg 0 handlers pairs
      · obtain ⟨rfl,member⟩ := own
        have here := undone rfl (type,subscriber.handler) member
        simpa [member] using here.symm
      · have away : ¬ (subscriber.arg = arg ∧ Undone clone (subscribedFirst calls arg 0 handlers pairs) (type,subscriber.handler)) :=
          fun both => own ⟨both.1,both.2.mem⟩
        simp only [length_nil,List.reverse_nil,nil_append,own,or_false,away,not_false_eq_true,and_true]

end Groups

-- Handler 5 of type 1 is subscribed already. There is no memory for the list of
-- type 2, and the undo takes away handler 5.
def oneSubscribed : Handlers Nat Nat Nat := ⟨fun type => if type = 1 then some ⟨[⟨0,5⟩],nodup_singleton _⟩ else none⟩

def noVector (index : Nat) : SubscribeCalls := if index = 1 then {vector:=false} else {}

theorem failed_group_unsubscribes :
    Subscribed oneSubscribed 1 ⟨0,5⟩ ∧ (subscribeAll true noVector (fun _ => true) 0 oneSubscribed [(1,5),(2,6)]).1 = .noMem ∧
      ¬ Subscribed (subscribeAll true noVector (fun _ => true) 0 oneSubscribed [(1,5),(2,6)]).2.2 1 ⟨0,5⟩ := by
  refine ⟨⟨_,rfl,mem_singleton_self _⟩,rfl,?_⟩
  rintro ⟨listed,found,member⟩
  cases found
  cases member

end MedvedDB.EventBus
