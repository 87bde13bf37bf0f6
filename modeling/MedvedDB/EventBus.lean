import MedvedDB.Threads

namespace MedvedDB.EventBus

open Threads (Action Pool gathered gathered_perm mem_of_rest step)
open Function (update_apply)

structure Subscriber (α η : Type) where
  arg : α
  handler : η
  deriving DecidableEq, Repr

instance Subscriber.lawful {α η : Type} [DecidableEq α] [DecidableEq η] : LawfulBEq (Subscriber α η) := inferInstance

variable {τ α η : Type}

-- The lists of subscribers that a type has had are numbered; `version` is the
-- one in `handlers`. The last three fields are a history: how often somebody was
-- subscribed, who was unsubscribed since, and calls that came after that.
structure Bus (τ α η : Type) where
  version : τ → Option Nat
  lists : τ × Nat → List (Subscriber α η)
  refs : τ × Nat → Nat
  stamp : τ × Subscriber α η → Nat
  off : τ × Subscriber α η → Bool
  late : List (τ × Subscriber α η)

-- An event that is processed with the list it has taken, or a call of
-- mdv_ebus_unsubscribe after its mutex section with the list it replaced.
inductive Thread (τ α η : Type) where
  | processing (type : τ) (list : Nat) (rest : List (Subscriber α η))
  | unsubscribing (type : τ) (subscriber : Subscriber α η) (prev : Option Nat) (stamp : Nat)

inductive Call (τ α η : Type) where
  | subscribe (type : τ) (subscriber : Subscriber α η)
  | unsubscribe (type : τ) (subscriber : Subscriber α η)
  | process (type : τ)

def subscribersOf (bus : Bus τ α η) (type : τ) : List (Subscriber α η) :=
  match bus.version type with
  | none => []
  | some list => bus.lists (type,list)

lemma subscribersOf_some (is : bus.version type = some list) : subscribersOf bus type = bus.lists (type,list) := by
  rw [subscribersOf,is]

def fresh (bus : Bus τ α η) (type : τ) : Nat :=
  match bus.version type with
  | none => 0
  | some list => list + 1

def Known (bus : Bus τ α η) (key : τ × Nat) : Prop := ∃ now, bus.version key.1 = some now ∧ key.2 ≤ now

lemma fresh_unknown : ¬ Known bus (type,fresh bus type) := by
  intro known
  obtain ⟨now,is,below⟩ := known
  simp only [fresh,is] at below
  omega

def inHandlers (bus : Bus τ α η) (key : τ × Nat) : Nat := if bus.version key.1 = some key.2 then 1 else 0

variable [DecidableEq τ]

-- Every holder of a list, and `handlers`, has a reference of its own.
structure Backed (bus : Bus τ α η) (held : Multiset (τ × Nat)) : Prop where
  refs : ∀ key, held.count key + inHandlers bus key ≤ bus.refs key
  known : ∀ key ∈ held, Known bus key

def renew (bus : Bus τ α η) (type : τ) (list : List (Subscriber α η)) : Bus τ α η :=
  {bus with
    version:=update bus.version type (some (fresh bus type)),
    lists:=update bus.lists (type,fresh bus type) list,
    refs:=update bus.refs (type,fresh bus type) 1}

def retain (bus : Bus τ α η) (type : τ) (list : Nat) : Bus τ α η :=
  {bus with refs:=update bus.refs (type,list) (bus.refs (type,list) + 1)}

def release (bus : Bus τ α η) (type : τ) (list : Nat) : Bus τ α η :=
  {bus with refs:=update bus.refs (type,list) (bus.refs (type,list) - 1)}

def handlers (bus : Bus τ α η) (type : τ) : Nat × Bus τ α η :=
  match bus.version type with
  | some list => (list,bus)
  | none => (0,renew bus type [])

section Lists

variable {bus : Bus τ α η} {held : Multiset (τ × Nat)} {type other : τ} {list : List (Subscriber α η)} {number : Nat}

lemma renew_version : (renew bus type list).version other = if other = type then some (fresh bus type) else bus.version other := by
  simp only [renew,update_apply]

lemma renew_subscribers : subscribersOf (renew bus type list) other = if other = type then list else subscribersOf bus other := by
  by_cases same : other = type
  · subst same
    simp [subscribersOf,renew]
  · simp [subscribersOf,renew,same]

lemma renew_lists (known : Known bus key) : (renew bus type list).lists key = bus.lists key := by
  refine update_of_ne ?_ _ _
  intro same
  rw [same] at known
  exact fresh_unknown known

lemma renew_known (known : Known bus key) : Known (renew bus type list) key := by
  obtain ⟨now,is,below⟩ := known
  rw [Known,renew_version]
  by_cases same : key.1 = type
  · refine ⟨fresh bus type,if_pos same,?_⟩
    rw [← same]
    simp only [fresh,is]
    omega
  · exact ⟨now,(if_neg same).trans is,below⟩

lemma Backed.unheld (backed : Backed bus held) (unknown : ¬ Known bus key) : held.count key = 0 :=
  Multiset.count_eq_zero.mpr fun member => unknown (backed.known key member)

lemma renew_refs (backed : Backed bus held) (type : τ) (list : List (Subscriber α η)) (key : τ × Nat) :
    held.count key + inHandlers (renew bus type list) key + (if key.1 = type then inHandlers bus key else 0) ≤ (renew bus type list).refs key := by
  by_cases new : key = (type,fresh bus type)
  · subst new
    have gone : inHandlers bus (type,fresh bus type) = 0 := if_neg fun is => fresh_unknown ⟨_,is,Nat.le_refl _⟩
    have once : (renew bus type list).refs (type,fresh bus type) = 1 := update_self _ _ _
    have here : inHandlers (renew bus type list) (type,fresh bus type) = 1 := by
      rw [inHandlers,renew_version,if_pos rfl,if_pos rfl]
    rw [backed.unheld fresh_unknown,gone,once,here,if_pos rfl]
  · have old : (renew bus type list).refs key = bus.refs key := update_of_ne new _ _
    have enough := backed.refs key
    rw [old]
    by_cases same : key.1 = type
    · have left : inHandlers (renew bus type list) key = 0 := by
        rw [inHandlers,renew_version,if_pos same]
        refine if_neg fun equal => new ?_
        rw [← same] at equal ⊢
        exact Prod.ext rfl (Option.some.inj equal).symm
      rw [left,if_pos same,add_zero]
      exact enough
    · have still : inHandlers (renew bus type list) key = inHandlers bus key := by
        rw [inHandlers,renew_version,if_neg same,inHandlers]
      rw [still,if_neg same,add_zero]
      exact enough

lemma renew_backed (backed : Backed bus held) (is : bus.version type = some number) : Backed (renew bus type list) ((type,number) ::ₘ held) := by
  refine ⟨?_,?_⟩
  · intro key
    have enough := renew_refs backed type list key
    rw [Multiset.count_cons]
    by_cases same : key = (type,number)
    · subst same
      have here : inHandlers bus (type,number) = 1 := if_pos is
      rw [if_pos rfl,here] at enough
      rw [if_pos rfl]
      omega
    · rw [if_neg same]
      omega
  · intro key member
    rcases Multiset.mem_cons.mp member with rfl | old
    · exact renew_known ⟨number,is,Nat.le_refl _⟩
    · exact renew_known (backed.known key old)

lemma renew_backed_first (backed : Backed bus held) : Backed (renew bus type list) held := by
  refine ⟨?_,fun key member => renew_known (backed.known key member)⟩
  intro key
  have enough := renew_refs backed type list key
  omega

lemma retain_refs (key : τ × Nat) :
    (retain bus type number).refs key = if key = (type,number) then bus.refs (type,number) + 1 else bus.refs key := update_apply _ _ _ _

lemma release_refs (key : τ × Nat) :
    (release bus type number).refs key = if key = (type,number) then bus.refs (type,number) - 1 else bus.refs key := update_apply _ _ _ _

lemma retain_backed (backed : Backed bus held) (is : bus.version type = some number) : Backed (retain bus type number) ((type,number) ::ₘ held) := by
  refine ⟨?_,?_⟩
  · intro key
    have enough := backed.refs key
    have same : inHandlers (retain bus type number) key = inHandlers bus key := rfl
    rw [Multiset.count_cons,same,retain_refs]
    by_cases here : key = (type,number)
    · rw [if_pos here,if_pos here,← here]
      omega
    · rw [if_neg here,if_neg here]
      exact enough
  · intro key member
    rcases Multiset.mem_cons.mp member with rfl | old
    · exact ⟨number,is,Nat.le_refl _⟩
    · exact backed.known key old

lemma release_backed (backed : Backed bus ((type,number) ::ₘ held)) : Backed (release bus type number) held := by
  refine ⟨?_,fun key member => backed.known key (Multiset.mem_cons_of_mem member)⟩
  intro key
  have enough := backed.refs key
  have same : inHandlers (release bus type number) key = inHandlers bus key := rfl
  rw [Multiset.count_cons] at enough
  rw [same,release_refs]
  by_cases here : key = (type,number)
  · rw [if_pos here] at enough ⊢
    rw [← here]
    omega
  · rw [if_neg here] at enough ⊢
    exact enough

lemma handlers_spec (bus : Bus τ α η) (type : τ) :
    (handlers bus type).2.version type = some (handlers bus type).1 ∧
      (∀ other, subscribersOf (handlers bus type).2 other = subscribersOf bus other) ∧
      (∀ key, Known bus key → Known (handlers bus type).2 key ∧ (handlers bus type).2.lists key = bus.lists key) ∧
      ∀ held, Backed bus held → Backed (handlers bus type).2 held := by
  unfold handlers
  cases is : bus.version type with
  | some list => exact ⟨is,fun _ => rfl,fun key known => ⟨known,rfl⟩,fun _ backed => backed⟩
  | none =>
    refine ⟨?_,?_,fun key known => ⟨renew_known known,renew_lists known⟩,fun held backed => renew_backed_first backed⟩
    · simp [renew_version,fresh,is]
    · intro other
      rw [renew_subscribers]
      split
      · rename_i same
        rw [same,subscribersOf,is]
      · rfl

lemma Backed.frame (backed : Backed bus held) (version : after.version = bus.version) (refs : after.refs = bus.refs) : Backed after held := by
  refine ⟨fun key => ?_,fun key member => ?_⟩
  · rw [inHandlers,version,refs]
    exact backed.refs key
  · rw [Known,version]
    exact backed.known key member

end Lists

def start (τ α η : Type) : Pool (Bus τ α η) (Thread τ α η) := ⟨⟨fun _ => none,fun _ => [],fun _ => 0,fun _ => 0,fun _ => false,[]⟩,[]⟩

def heldBy : Thread τ α η → Option (τ × Nat)
  | .processing type list _ => some (type,list)
  | .unsubscribing type _ prev _ => prev.map fun list => (type,list)

variable {pool next : Pool (Bus τ α η) (Thread τ α η)}

def Absent (pool : Pool (Bus τ α η) (Thread τ α η)) (type : τ) (subscriber : Subscriber α η) (prev : Option Nat) : Prop :=
  subscriber ∉ subscribersOf pool.shared type ∧
    ∀ list rest, .processing type list rest ∈ pool.threads → subscriber ∈ rest → prev = some list

structure Tidy (pool : Pool (Bus τ α η) (Thread τ α η)) : Prop where
  backed : Backed pool.shared (gathered heldBy pool.threads)
  distinct : ∀ type, (subscribersOf pool.shared type).Nodup
  taken : ∀ type list rest, .processing type list rest ∈ pool.threads → ∀ subscriber ∈ rest, subscriber ∈ pool.shared.lists (type,list)
  stamped : ∀ type subscriber prev stamp, .unsubscribing type subscriber prev stamp ∈ pool.threads → stamp ≤ pool.shared.stamp (type,subscriber)
  gone : ∀ type subscriber prev stamp, .unsubscribing type subscriber prev stamp ∈ pool.threads → pool.shared.stamp (type,subscriber) = stamp →
    Absent pool type subscriber prev
  off : ∀ type subscriber, pool.shared.off (type,subscriber) = true → Absent pool type subscriber none
  late : pool.shared.late = []

lemma Tidy.known (tidy : Tidy pool) (member : .processing type list rest ∈ pool.threads) :
    Known pool.shared (type,list) :=
  tidy.backed.known (type,list) (Threads.mem_gathered.mpr ⟨_,member,rfl⟩)

lemma quiet_tidy (tidy : Tidy pool) (backed : Backed next.shared (gathered heldBy next.threads))
    (version : next.shared.version = pool.shared.version) (lists : next.shared.lists = pool.shared.lists)
    (stamp : next.shared.stamp = pool.shared.stamp) (late : next.shared.late = [])
    (processing : ∀ type list rest, .processing type list rest ∈ next.threads → ∃ more, .processing type list more ∈ pool.threads ∧ rest ⊆ more)
    (unsubscribing : ∀ type subscriber prev stamp, .unsubscribing type subscriber prev stamp ∈ next.threads →
      .unsubscribing type subscriber prev stamp ∈ pool.threads)
    (off : ∀ type subscriber, next.shared.off (type,subscriber) = true → Absent pool type subscriber none) : Tidy next := by
  have same (type : τ) : subscribersOf next.shared type = subscribersOf pool.shared type := by
    rw [subscribersOf,subscribersOf,version,lists]
  have absent {type : τ} {subscriber : Subscriber α η} {prev : Option Nat} (before : Absent pool type subscriber prev) :
      Absent next type subscriber prev := by
    refine ⟨by rw [same]; exact before.1,?_⟩
    intro list rest member among
    obtain ⟨more,earlier,part⟩ := processing type list rest member
    exact before.2 list more earlier (part among)
  refine ⟨backed,?_,?_,?_,?_,?_,late⟩
  · intro type
    rw [same]
    exact tidy.distinct type
  · intro type list rest member subscriber among
    obtain ⟨more,earlier,part⟩ := processing type list rest member
    rw [lists]
    exact tidy.taken type list more earlier subscriber (part among)
  · intro type subscriber prev number member
    rw [stamp]
    exact tidy.stamped type subscriber prev number (unsubscribing type subscriber prev number member)
  · intro type subscriber prev number member equal
    rw [stamp] at equal
    exact absent (tidy.gone type subscriber prev number (unsubscribing type subscriber prev number member) equal)
  · intro type subscriber gone
    exact absent (off type subscriber gone)

lemma same_tidy (tidy : Tidy pool) (shared : pool.shared = next.shared) (threads : next.threads.Perm pool.threads) : Tidy next := by
  refine quiet_tidy tidy ?_ (by rw [shared]) (by rw [shared]) (by rw [shared]) (by rw [← shared]; exact tidy.late) ?_ ?_ ?_
  · rw [gathered_perm threads,← shared]
    exact tidy.backed
  · intro type list rest member
    exact ⟨rest,threads.mem_iff.mp member,fun _ among => among⟩
  · intro type subscriber prev stamp member
    exact threads.mem_iff.mp member
  · intro type subscriber gone
    rw [← shared] at gone
    exact tidy.off type subscriber gone

lemma Tidy.rest (tidy : Tidy pool) (before : pool.threads.Perm (thread::others)) :
    Backed pool.shared (Multiset.ofList (heldBy thread).toList + gathered heldBy others) := by
  have backed := tidy.backed
  rwa [gathered_perm before,Threads.gathered_cons] at backed

lemma ended_tidy (tidy : Tidy pool) (before : pool.threads.Perm (.processing type list []::others))
    (shared : release pool.shared type list = next.shared) (left : next.threads.Perm others) : Tidy next := by
  refine quiet_tidy tidy ?_ (by rw [← shared]; rfl) (by rw [← shared]; rfl) (by rw [← shared]; rfl) (by rw [← shared]; exact tidy.late) ?_ ?_ ?_
  · rw [gathered_perm left,← shared]
    exact release_backed (tidy.rest before)
  · intro other number rest member
    exact ⟨rest,mem_of_rest before (left.mem_iff.mp member),fun _ among => among⟩
  · intro other someone prev stamp member
    exact mem_of_rest before (left.mem_iff.mp member)
  · intro other someone gone
    rw [← shared] at gone
    exact tidy.off other someone gone

lemma called_tidy (tidy : Tidy pool)
    (before : pool.threads.Perm (.processing type list (subscriber::rest)::others))
    (shared : (if pool.shared.off (type,subscriber) then {pool.shared with late:=pool.shared.late ++ [(type,subscriber)]} else pool.shared) = next.shared)
    (threads : next.threads.Perm (.processing type list rest::others)) : Tidy next := by
  have here := Threads.mem_of_first before
  have on : ¬ pool.shared.off (type,subscriber) = true := by
    intro gone
    cases (tidy.off type subscriber gone).2 list _ here mem_cons_self
  rw [if_neg on] at shared
  refine quiet_tidy tidy ?_ (by rw [shared]) (by rw [shared]) (by rw [shared]) (by rw [← shared]; exact tidy.late) ?_ ?_ ?_
  · have backed := tidy.rest before
    rw [gathered_perm threads,Threads.gathered_cons,← shared]
    exact backed
  · intro other number more member
    rcases mem_cons.mp (threads.mem_iff.mp member) with same | old
    · cases same
      exact ⟨_,here,List.subset_cons_self _ _⟩
    · exact ⟨more,mem_of_rest before old,fun _ among => among⟩
  · intro other someone prev stamp member
    exact mem_of_rest before ((mem_cons.mp (threads.mem_iff.mp member)).resolve_left nofun)
  · intro other someone gone
    rw [← shared] at gone
    exact tidy.off other someone gone

lemma last_reference (tidy : Tidy pool)
    (before : pool.threads.Perm (.unsubscribing type subscriber (some list) stamp::others)) (last : ¬ pool.shared.refs (type,list) > 1)
    (member : .processing type list rest ∈ pool.threads) : False := by
  have among : .processing type list rest ∈ others := (mem_cons.mp (before.mem_iff.mp member)).resolve_left nofun
  have holds : (type,list) ∈ gathered heldBy others := Threads.mem_gathered.mpr ⟨_,among,rfl⟩
  have first := Multiset.one_le_count_iff_mem.mpr holds
  have twice : ((type,list) ::ₘ gathered heldBy others).count (type,list) + inHandlers pool.shared (type,list) ≤ pool.shared.refs (type,list) :=
    (tidy.rest before).refs (type,list)
  rw [Multiset.count_cons_self] at twice
  omega

lemma start_tidy : Tidy (start τ α η) := by
  refine ⟨⟨?_,?_⟩,?_,?_,?_,?_,?_,rfl⟩
  · intro key
    simp [start,inHandlers]
  · intro key member
    exact absurd member (Multiset.notMem_zero key)
  · intro type
    exact nodup_nil
  · intro type list rest member
    cases member
  · intro type subscriber prev stamp member
    cases member
  · intro type subscriber prev stamp member
    cases member
  · intro type subscriber gone
    cases gone

variable [DecidableEq α] [DecidableEq η]

def subscribe (bus : Bus τ α η) (type : τ) (subscriber : Subscriber α η) : Bus τ α η :=
  let (list,bus) := handlers bus type
  if subscriber ∈ bus.lists (type,list) then bus
  else release (renew bus type (bus.lists (type,list) ++ [subscriber])) type list

-- mdv_ebus_unsubscribe_unsafe with the list to wait for
def unsubscribe (bus : Bus τ α η) (type : τ) (subscriber : Subscriber α η) : Option Nat × Bus τ α η :=
  match bus.version type with
  | none => (none,bus)
  | some list =>
    if subscriber ∈ bus.lists (type,list) then (some list,renew bus type ((bus.lists (type,list)).erase subscriber)) else (none,bus)

def enter (bus : Bus τ α η) : Call τ α η → Option (Option (Thread τ α η) × Bus τ α η)
  | .subscribe type subscriber =>
    let bus := subscribe bus type subscriber
    some (none,{bus with
      stamp:=update bus.stamp (type,subscriber) (bus.stamp (type,subscriber) + 1),
      off:=update bus.off (type,subscriber) false})
  | .unsubscribe type subscriber =>
    let (prev,bus) := unsubscribe bus type subscriber
    some (some (.unsubscribing type subscriber prev (bus.stamp (type,subscriber))),bus)
  | .process type =>
    match bus.version type with
    | none => some (none,bus)
    | some list => some (some (.processing type list (bus.lists (type,list))),retain bus type list)

-- The return of mdv_ebus_unsubscribe. A subscriber that came back meanwhile stays on.
def returned (bus : Bus τ α η) (type : τ) (subscriber : Subscriber α η) (stamp : Nat) : Bus τ α η :=
  if bus.stamp (type,subscriber) = stamp then {bus with off:=update bus.off (type,subscriber) true} else bus

def proceed (bus : Bus τ α η) : Thread τ α η → Option (Option (Thread τ α η) × Bus τ α η)
  | .processing type list (subscriber::rest) =>
    some (some (.processing type list rest),if bus.off (type,subscriber) then {bus with late:=bus.late ++ [(type,subscriber)]} else bus)
  | .processing type list [] => some (none,release bus type list)
  | .unsubscribing type subscriber none stamp => some (none,returned bus type subscriber stamp)
  | .unsubscribing type subscriber (some list) stamp =>
    if bus.refs (type,list) > 1 then some (some (.unsubscribing type subscriber (some list) stamp),bus)
    else some (none,returned (release bus type list) type subscriber stamp)

def system (τ α η : Type) [DecidableEq τ] [DecidableEq α] [DecidableEq η] : Threads.System (Bus τ α η) (Thread τ α η) (Call τ α η) Unit :=
  ⟨enter,fun bus thread _ => proceed bus thread⟩

-- Somebody who is unsubscribed is not going to be called from an older list.
def covered (pool : Pool (Bus τ α η) (Thread τ α η)) : Action (Call τ α η) Unit → Bool
  | .enter (.unsubscribe type subscriber) => pool.threads.all fun
    | .processing other list rest => other ≠ type ∨ subscriber ∉ rest ∨ pool.shared.version type = some list
    | _ => true
  | _ => true

lemma subscribe_spec (bus : Bus τ α η) (type : τ) (subscriber : Subscriber α η) :
    (∀ other, subscribersOf (subscribe bus type subscriber) other =
      if other = type ∧ subscriber ∉ subscribersOf bus type then subscribersOf bus type ++ [subscriber] else subscribersOf bus other) ∧
      (∀ key, Known bus key → (subscribe bus type subscriber).lists key = bus.lists key) ∧
      ∀ held, Backed bus held → Backed (subscribe bus type subscriber) held := by
  obtain ⟨version,same,kept,backs⟩ := handlers_spec bus type
  have here : (handlers bus type).2.lists (type,(handlers bus type).1) = subscribersOf bus type := by
    rw [← subscribersOf_some version,same]
  unfold subscribe
  dsimp only
  rw [here]
  by_cases member : subscriber ∈ subscribersOf bus type
  · rw [if_pos member]
    refine ⟨?_,fun key known => (kept key known).2,backs⟩
    intro other
    rw [same,if_neg fun both => both.2 member]
  · rw [if_neg member]
    refine ⟨?_,?_,?_⟩
    · intro other
      have shape : subscribersOf (release (renew (handlers bus type).2 type (subscribersOf bus type ++ [subscriber])) type (handlers bus type).1) other =
          subscribersOf (renew (handlers bus type).2 type (subscribersOf bus type ++ [subscriber])) other := rfl
      rw [shape,renew_subscribers,same]
      simp only [member,not_false_eq_true,and_true]
    · intro key known
      obtain ⟨still,equal⟩ := kept key known
      exact (renew_lists still).trans equal
    · intro held backed
      exact release_backed (renew_backed (backs held backed) version)

lemma unsubscribe_spec (bus : Bus τ α η) (type : τ) (subscriber : Subscriber α η) :
    (∀ other, subscribersOf (unsubscribe bus type subscriber).2 other =
      if other = type then (subscribersOf bus type).erase subscriber else subscribersOf bus other) ∧
      (∀ key, Known bus key → (unsubscribe bus type subscriber).2.lists key = bus.lists key) ∧
      (∀ held, Backed bus held →
        Backed (unsubscribe bus type subscriber).2 (Multiset.ofList ((unsubscribe bus type subscriber).1.map fun list => (type,list)).toList + held)) ∧
      ∀ list, bus.version type = some list → subscriber ∈ subscribersOf bus type → (unsubscribe bus type subscriber).1 = some list := by
  have unchanged (absent : subscriber ∉ subscribersOf bus type) (other : τ) :
      subscribersOf bus other = if other = type then (subscribersOf bus type).erase subscriber else subscribersOf bus other := by
    rw [List.erase_of_not_mem absent]
    split
    · rename_i same
      rw [same]
    · rfl
  unfold unsubscribe
  cases is : bus.version type with
  | none =>
    have absent : subscriber ∉ subscribersOf bus type := by simp [subscribersOf,is]
    refine ⟨unchanged absent,fun _ _ => rfl,?_,fun _ known => by cases known⟩
    intro held backed
    exact (zero_add held).symm ▸ backed
  | some list =>
    dsimp only
    rw [← subscribersOf_some is]
    by_cases member : subscriber ∈ subscribersOf bus type
    · rw [if_pos member]
      refine ⟨fun other => renew_subscribers,fun key known => renew_lists known,fun held backed => renew_backed backed is,?_⟩
      intro other same _
      exact same
    · rw [if_neg member]
      refine ⟨unchanged member,fun _ _ => rfl,?_,fun _ _ present => absurd present member⟩
      intro held backed
      exact (zero_add held).symm ▸ backed

lemma subscribe_history (bus : Bus τ α η) (type : τ) (subscriber : Subscriber α η) :
    (subscribe bus type subscriber).stamp = bus.stamp ∧ (subscribe bus type subscriber).off = bus.off ∧
      (subscribe bus type subscriber).late = bus.late := by
  unfold subscribe handlers
  cases bus.version type <;> dsimp only <;> split <;> exact ⟨rfl,rfl,rfl⟩

lemma unsubscribe_history (bus : Bus τ α η) (type : τ) (subscriber : Subscriber α η) :
    (unsubscribe bus type subscriber).2.stamp = bus.stamp ∧ (unsubscribe bus type subscriber).2.off = bus.off ∧
      (unsubscribe bus type subscriber).2.late = bus.late := by
  unfold unsubscribe
  split
  · exact ⟨rfl,rfl,rfl⟩
  · split <;> exact ⟨rfl,rfl,rfl⟩

lemma subscribe_tidy (tidy : Tidy pool)
    (entered : enter pool.shared (.subscribe type subscriber) = some (none,next.shared)) (threads : next.threads.Perm pool.threads) : Tidy next := by
  obtain ⟨lists,kept,backs⟩ := subscribe_spec pool.shared type subscriber
  obtain ⟨stamp,off,late⟩ := subscribe_history pool.shared type subscriber
  have shared : _ = next.shared := (Prod.mk.inj (Option.some.inj entered)).2
  have subscribers (other : τ) : subscribersOf next.shared other = if other = type ∧ subscriber ∉ subscribersOf pool.shared type then
      subscribersOf pool.shared type ++ [subscriber] else subscribersOf pool.shared other := by
    rw [← lists,← shared]
    rfl
  have stamps (key : τ × Subscriber α η) : next.shared.stamp key = if key = (type,subscriber) then pool.shared.stamp key + 1 else pool.shared.stamp key := by
    rw [← shared]
    simp only [update_apply,stamp]
    split
    · rename_i same
      rw [same]
    · rfl
  have absent {other : τ} {someone : Subscriber α η} {prev : Option Nat} (apart : (other,someone) ≠ (type,subscriber))
      (before : Absent pool other someone prev) : Absent next other someone prev := by
    refine ⟨?_,fun list rest member => before.2 list rest (threads.mem_iff.mp member)⟩
    rw [subscribers]
    split
    · rename_i both
      intro member
      rcases mem_append.mp member with old | new
      · exact before.1 (both.1 ▸ old)
      · exact apart (Prod.ext both.1 (mem_singleton.mp new))
    · exact before.1
  refine ⟨?_,?_,?_,?_,?_,?_,?_⟩
  · have backed := backs _ tidy.backed
    rw [gathered_perm threads,← shared]
    exact ⟨backed.refs,backed.known⟩
  · intro other
    rw [subscribers]
    split
    · rename_i both
      exact nodup_append.mpr ⟨tidy.distinct type,nodup_singleton _,by
        intro one member two new equal
        exact both.2 ((mem_singleton.mp new) ▸ equal ▸ member)⟩
    · exact tidy.distinct other
  · intro other list rest member someone among
    have here := threads.mem_iff.mp member
    have held : next.shared.lists (other,list) = pool.shared.lists (other,list) := by
      rw [← kept _ (tidy.known here),← shared]
    rw [held]
    exact tidy.taken other list rest here someone among
  · intro other someone prev number member
    have least := tidy.stamped other someone prev number (threads.mem_iff.mp member)
    rw [stamps]
    split
    · exact Nat.le_succ_of_le least
    · exact least
  · intro other someone prev number member equal
    have here := threads.mem_iff.mp member
    have least := tidy.stamped other someone prev number here
    rw [stamps] at equal
    split at equal
    · omega
    · rename_i apart
      exact absent apart (tidy.gone other someone prev number here equal)
  · intro other someone gone
    rw [← shared] at gone
    simp only [update_apply,off] at gone
    split at gone
    · cases gone
    · rename_i apart
      exact absent apart (tidy.off other someone gone)
  · rw [← shared]
    exact late.trans tidy.late

lemma unsubscribe_tidy (tidy : Tidy pool)
    (cover : covered pool (.enter (.unsubscribe type subscriber)) = true)
    (entered : enter pool.shared (.unsubscribe type subscriber) = some (thread,next.shared))
    (threads : next.threads.Perm (thread.toList ++ pool.threads)) : Tidy next := by
  obtain ⟨lists,kept,backs,waits⟩ := unsubscribe_spec pool.shared type subscriber
  obtain ⟨stamp,off,late⟩ := unsubscribe_history pool.shared type subscriber
  have shape : enter pool.shared (.unsubscribe type subscriber) = some (some (.unsubscribing type subscriber (unsubscribe pool.shared type subscriber).1
      ((unsubscribe pool.shared type subscriber).2.stamp (type,subscriber))),(unsubscribe pool.shared type subscriber).2) := rfl
  rw [shape] at entered
  obtain ⟨rfl,shared⟩ := Prod.mk.inj (Option.some.inj entered)
  rw [shared] at lists kept backs stamp off late threads
  have older {other : Thread τ α η} (member : other ∈ next.threads) :
      other = .unsubscribing type subscriber (unsubscribe pool.shared type subscriber).1 (pool.shared.stamp (type,subscriber)) ∨ other ∈ pool.threads := by
    rw [← stamp]
    exact mem_cons.mp (threads.mem_iff.mp member)
  have process {other : τ} {list : Nat} {rest : List (Subscriber α η)} (member : .processing other list rest ∈ next.threads) :
      .processing other list rest ∈ pool.threads := (older member).resolve_left nofun
  have fewer {other : τ} {someone : Subscriber α η} (member : someone ∈ subscribersOf next.shared other) : someone ∈ subscribersOf pool.shared other := by
    rw [lists] at member
    split at member
    · rename_i same
      rw [same]
      exact mem_of_mem_erase member
    · exact member
  have absent {other : τ} {someone : Subscriber α η} {prev : Option Nat} (before : Absent pool other someone prev) : Absent next other someone prev :=
    ⟨fun member => before.1 (fewer member),fun list rest member => before.2 list rest (process member)⟩
  refine ⟨?_,?_,?_,?_,?_,?_,late.trans tidy.late⟩
  · rw [gathered_perm threads,Threads.gathered_append]
    exact backs _ tidy.backed
  · intro other
    rw [lists]
    split
    · exact (tidy.distinct type).erase subscriber
    · exact tidy.distinct other
  · intro other list rest member someone among
    rw [kept _ (tidy.known (process member))]
    exact tidy.taken other list rest (process member) someone among
  · intro other someone prev number member
    rw [stamp]
    rcases older member with same | earlier
    · cases same
      exact Nat.le_refl _
    · exact tidy.stamped other someone prev number earlier
  · intro other someone prev number member equal
    rw [stamp] at equal
    rcases older member with same | earlier
    · cases same
      refine ⟨?_,?_⟩
      · rw [lists,if_pos rfl]
        exact (tidy.distinct type).not_mem_erase
      · intro list rest processing among
        have here := process processing
        have newest : pool.shared.version type = some list := by
          have rule := all_eq_true.mp cover _ here
          simpa [among] using rule
        refine waits list newest ?_
        rw [subscribersOf_some newest]
        exact tidy.taken type list rest here subscriber among
    · exact absent (tidy.gone other someone prev number earlier equal)
  · intro other someone gone
    rw [off] at gone
    exact absent (tidy.off other someone gone)

lemma process_tidy (tidy : Tidy pool)
    (entered : enter pool.shared (.process type) = some (thread,next.shared))
    (threads : next.threads.Perm (thread.toList ++ pool.threads)) : Tidy next := by
  unfold enter at entered
  dsimp only at entered
  cases is : pool.shared.version type with
  | none =>
    rw [is] at entered
    obtain ⟨rfl,shared⟩ := Prod.mk.inj (Option.some.inj entered)
    exact same_tidy tidy shared threads
  | some list =>
    rw [is] at entered
    obtain ⟨rfl,shared⟩ := Prod.mk.inj (Option.some.inj entered)
    have same (other : τ) : subscribersOf next.shared other = subscribersOf pool.shared other := by
      rw [← shared]
      rfl
    have older {other : Thread τ α η} (member : other ∈ next.threads) :
        other = .processing type list (subscribersOf pool.shared type) ∨ other ∈ pool.threads := by
      rw [subscribersOf_some is]
      exact mem_cons.mp (threads.mem_iff.mp member)
    have unsubscribe {other : τ} {someone : Subscriber α η} {prev : Option Nat} {stamp : Nat}
        (member : .unsubscribing other someone prev stamp ∈ next.threads) : .unsubscribing other someone prev stamp ∈ pool.threads :=
      (older member).resolve_left nofun
    have absent {other : τ} {someone : Subscriber α η} {prev : Option Nat} (before : Absent pool other someone prev) :
        Absent next other someone prev := by
      refine ⟨by rw [same]; exact before.1,?_⟩
      intro number rest member among
      rcases older member with equal | earlier
      · cases equal
        exact absurd among before.1
      · exact before.2 number rest earlier among
    refine ⟨?_,?_,?_,?_,?_,?_,?_⟩
    · rw [gathered_perm threads,Threads.gathered_append,← shared]
      exact retain_backed tidy.backed is
    · intro other
      rw [same]
      exact tidy.distinct other
    · intro other number rest member someone among
      have lists : next.shared.lists = pool.shared.lists := by
        rw [← shared]
        rfl
      rw [lists]
      rcases older member with equal | earlier
      · cases equal
        rwa [subscribersOf_some is] at among
      · exact tidy.taken other number rest earlier someone among
    · intro other someone prev stamp member
      rw [← shared]
      exact tidy.stamped other someone prev stamp (unsubscribe member)
    · intro other someone prev stamp member equal
      rw [← shared] at equal
      exact absent (tidy.gone other someone prev stamp (unsubscribe member) equal)
    · intro other someone gone
      rw [← shared] at gone
      exact absent (tidy.off other someone gone)
    · rw [← shared]
      exact tidy.late

lemma returned_off {bus : Bus τ α η} {type other : τ} {subscriber someone : Subscriber α η} {stamp : Nat}
    (gone : (returned bus type subscriber stamp).off (other,someone) = true) :
    bus.off (other,someone) = true ∨ (bus.stamp (type,subscriber) = stamp ∧ other = type ∧ someone = subscriber) := by
  unfold returned at gone
  split at gone
  · rename_i same
    simp only [update_apply] at gone
    split at gone
    · rename_i equal
      exact .inr ⟨same,(Prod.mk.inj equal).1,(Prod.mk.inj equal).2⟩
    · exact .inl gone
  · exact .inl gone

lemma returned_frame (bus : Bus τ α η) (type : τ) (subscriber : Subscriber α η) (stamp : Nat) :
    (returned bus type subscriber stamp).version = bus.version ∧ (returned bus type subscriber stamp).lists = bus.lists ∧
      (returned bus type subscriber stamp).refs = bus.refs ∧ (returned bus type subscriber stamp).stamp = bus.stamp ∧
      (returned bus type subscriber stamp).late = bus.late := by
  unfold returned
  split <;> exact ⟨rfl,rfl,rfl,rfl,rfl⟩

section Proceeding

variable {thread : Thread τ α η} {others : List (Thread τ α η)}

lemma returned_tidy (tidy : Tidy pool) {type : τ} {subscriber : Subscriber α η} {prev : Option Nat} {stamp : Nat} {bus : Bus τ α η}
    (before : pool.threads.Perm (.unsubscribing type subscriber prev stamp::others)) (base : Backed bus (gathered heldBy others))
    (frame : bus.version = pool.shared.version ∧ bus.lists = pool.shared.lists ∧ bus.stamp = pool.shared.stamp ∧ bus.off = pool.shared.off ∧
      bus.late = pool.shared.late)
    (free : ∀ rest list, .processing type list rest ∈ pool.threads → subscriber ∈ rest → prev ≠ some list)
    (shared : returned bus type subscriber stamp = next.shared) (left : next.threads.Perm others) : Tidy next := by
  obtain ⟨version,lists,stamps,off,late⟩ := frame
  obtain ⟨version',lists',refs',stamps',late'⟩ := returned_frame bus type subscriber stamp
  rw [shared] at version' lists' refs' stamps' late'
  refine quiet_tidy tidy ?_ (version'.trans version) (lists'.trans lists) (stamps'.trans stamps) (late'.trans (late.trans tidy.late)) ?_ ?_ ?_
  · rw [gathered_perm left]
    refine ⟨?_,?_⟩
    · intro key
      rw [inHandlers,version',refs']
      exact base.refs key
    · intro key member
      rw [Known,version']
      exact base.known key member
  · intro other number rest member
    exact ⟨rest,mem_of_rest before (left.mem_iff.mp member),fun _ among => among⟩
  · intro other someone prev stamp member
    exact mem_of_rest before (left.mem_iff.mp member)
  · intro other someone gone
    rw [← shared] at gone
    rcases returned_off gone with old | ⟨same,rfl,rfl⟩
    · rw [off] at old
      exact tidy.off other someone old
    · rw [stamps] at same
      obtain ⟨nobody,lists⟩ := tidy.gone other someone prev stamp (Threads.mem_of_first before) same
      exact ⟨nobody,fun list rest member among => absurd (lists list rest member among) (free rest list member among)⟩

lemma proceed_tidy (tidy : Tidy pool) (before : pool.threads.Perm (thread::others))
    (went : proceed pool.shared thread = some (after,next.shared)) (threads : next.threads.Perm (after.toList ++ others)) : Tidy next := by
  cases thread with
  | processing type list rest =>
    cases rest with
    | nil =>
      obtain ⟨rfl,shared⟩ := Prod.mk.inj (Option.some.inj went)
      exact ended_tidy tidy before shared threads
    | cons subscriber rest =>
      obtain ⟨rfl,shared⟩ := Prod.mk.inj (Option.some.inj went)
      exact called_tidy tidy before shared threads
  | unsubscribing type subscriber prev stamp =>
    have backed := tidy.rest before
    cases prev with
    | none =>
      obtain ⟨rfl,shared⟩ := Prod.mk.inj (Option.some.inj went)
      have base : Backed pool.shared (gathered heldBy others) := by simpa [heldBy] using backed
      exact returned_tidy tidy before base ⟨rfl,rfl,rfl,rfl,rfl⟩ (fun _ _ _ _ => nofun) shared threads
    | some list =>
      unfold proceed at went
      dsimp only at went
      split at went
      · obtain ⟨rfl,shared⟩ := Prod.mk.inj (Option.some.inj went)
        exact same_tidy tidy shared (threads.trans before.symm)
      · rename_i last
        obtain ⟨rfl,shared⟩ := Prod.mk.inj (Option.some.inj went)
        have released : Backed (release pool.shared type list) (gathered heldBy others) := release_backed backed
        refine returned_tidy tidy before released ⟨rfl,rfl,rfl,rfl,rfl⟩ ?_ shared threads
        intro rest number member _ same
        cases same
        exact last_reference tidy before last member

end Proceeding

lemma step_tidy (tidy : Tidy pool)
    (moved : Machine.only covered (step (system τ α η)) pool action = some next) : Tidy next := by
  obtain ⟨cover,went⟩ := Machine.only_some moved
  rcases Threads.step_cases went with ⟨call,thread,rfl,entered,threads⟩ | ⟨index,choice,thread,after,others,rfl,_,before,went,threads⟩
  · cases call with
    | subscribe type subscriber =>
      have ended : thread = none := (Prod.mk.inj (Option.some.inj entered)).1.symm
      subst ended
      exact subscribe_tidy tidy entered threads
    | unsubscribe type subscriber => exact unsubscribe_tidy tidy cover entered threads
    | process type => exact process_tidy tidy entered threads
  · exact proceed_tidy tidy before went threads

section References

variable {bus after : Bus τ α η} {held : Multiset (τ × Nat)}

lemma enter_backed (backed : Backed bus held) (entered : enter bus call = some (thread,after)) :
    Backed after (Multiset.ofList (thread.bind heldBy).toList + held) := by
  cases call with
  | subscribe type subscriber =>
    cases entered
    exact (zero_add held).symm ▸ ((subscribe_spec bus type subscriber).2.2 held backed).frame rfl rfl
  | unsubscribe type subscriber =>
    cases entered
    exact (unsubscribe_spec bus type subscriber).2.2.1 held backed
  | process type =>
    cases is : bus.version type <;> simp only [enter,is] at entered <;> cases entered
    · exact (zero_add held).symm ▸ backed
    · exact retain_backed backed is

lemma proceed_backed (backed : Backed bus (Multiset.ofList (heldBy thread).toList + held)) (went : proceed bus thread = some (rest,after)) :
    Backed after (Multiset.ofList (rest.bind heldBy).toList + held) := by
  unfold proceed at went
  split at went
  · cases went
    split <;> exact backed.frame rfl rfl
  · cases went
    exact (zero_add held).symm ▸ release_backed backed
  · cases went
    exact backed.frame (returned_frame _ _ _ _).1 (returned_frame _ _ _ _).2.2.1
  · split at went <;> cases went
    · exact backed
    · exact (zero_add held).symm ▸ (release_backed backed).frame (returned_frame _ _ _ _).1 (returned_frame _ _ _ _).2.2.1

end References

def Referenced (pool : Pool (Bus τ α η) (Thread τ α η)) : Prop := Backed pool.shared (gathered heldBy pool.threads)

theorem held_lists_referenced (reached : Machine.Reached (step (system τ α η)) (start τ α η) pool) : Referenced pool := by
  have base : Referenced (start τ α η) := start_tidy.backed
  apply Machine.reached_invariant base ?_ reached
  intro pool action next backed moved
  unfold Referenced at backed ⊢
  rcases Threads.step_cases moved with ⟨_,_,_,entered,order⟩ | ⟨_,_,_,_,_,_,_,before,went,order⟩
  · rw [gathered_perm order,Threads.gathered_append]
    exact enter_backed backed entered
  · rw [gathered_perm before,Threads.gathered_cons] at backed
    rw [gathered_perm order,Threads.gathered_append]
    exact proceed_backed backed went

theorem unsubscribed_not_called {pool : Pool (Bus τ α η) (Thread τ α η)}
    (reached : Machine.Reached (Machine.only covered (step (system τ α η))) (start τ α η) pool) :
    pool.shared.late = [] ∧ ∀ type subscriber, pool.shared.off (type,subscriber) = true →
      ∀ list rest, .processing type list rest ∈ pool.threads → subscriber ∉ rest := by
  have tidy : Tidy pool := Machine.reached_invariant start_tidy (fun _ _ _ holds moved => step_tidy holds moved) reached
  refine ⟨tidy.late,?_⟩
  intro type subscriber gone list rest member among
  cases (tidy.off type subscriber gone).2 list rest member among

def first : Subscriber Nat Nat := ⟨1,1⟩

def second : Subscriber Nat Nat := ⟨2,2⟩

-- The subscriber is called before the waiting call returns.
def waited : List (Action (Call Nat Nat Nat) Unit) :=
  [.enter (.subscribe 0 first),.enter (.process 0),.enter (.unsubscribe 0 first),.proceed 1 (),.proceed 0 (),.proceed 0 (),.proceed 0 ()]

theorem waited_not_called :
    ∃ pool, Machine.Reached (Machine.only covered (step (system Nat Nat Nat))) (start Nat Nat Nat) pool ∧ pool.shared.off (0,first) = true ∧
      pool.shared.late = [] ∧ ∀ type subscriber, pool.shared.off (type,subscriber) = true →
        ∀ list rest, .processing type list rest ∈ pool.threads → subscriber ∉ rest :=
  ⟨_,⟨waited,rfl⟩,rfl,unsubscribed_not_called ⟨waited,rfl⟩⟩

-- An event still has a list from before the second subscription: the call does not wait for it.
def overtaken : List (Action (Call Nat Nat Nat) Unit) :=
  [.enter (.subscribe 0 first),.enter (.process 0),.enter (.subscribe 0 second),.enter (.unsubscribe 0 first),.proceed 1 (),.proceed 0 ()]

theorem old_list_calls_unsubscribed :
    ∃ pool, Machine.Reached (step (system Nat Nat Nat)) (start Nat Nat Nat) pool ∧ pool.shared.late = [(0,first)] :=
  ⟨_,⟨overtaken,rfl⟩,rfl⟩

theorem overtaken_referenced : ∃ pool, Machine.Reached (step (system Nat Nat Nat)) (start Nat Nat Nat) pool ∧ Referenced pool :=
  ⟨_,⟨overtaken,rfl⟩,held_lists_referenced ⟨overtaken,rfl⟩⟩

end MedvedDB.EventBus
