import MedvedDB.Threads

namespace MedvedDB.Dispatcher

open Threads (Action Pool gathered_append gathered_cons gathered_perm step step_cases)

variable {β : Type}

def dispReqs : Nat := 4

-- The number is the only part of a message that the dispatcher sets or reads.
structure Msg (β : Type) where
  number : UInt16
  body : β
  deriving DecidableEq, Repr

inductive Errno where
  | noMem
  | failed
  | timedOut
  | closed
  deriving DecidableEq, Repr

-- What a sender finds through the pointer to its mdv_request.
structure Entry where
  address : Nat
  cv : Nat
  number : UInt16
  deriving DecidableEq, Repr

structure Request (β : Type) where
  entry : Entry
  resp : Option (Msg β)

-- `sent` are the messages written to the connection that the other side has not
-- read, `handled` those that the handlers were called with and are not done with,
-- `returned` is the history of mdv_dispatcher_send.
structure State (β : Type) where
  id : UInt16
  cvs : List Nat
  requests : List (Request β)
  allocated : Nat
  sent : List (Msg β)
  handled : List (Msg β)
  returned : List (Msg β × Except Errno (Msg β))
  crashed : Bool

-- A call of mdv_dispatcher_send after its first section; `none` is MDV_OK.
inductive Stage where
  | writing
  | failing
  | waiting (err : Option Errno)
  | sleeping
  | finishing (err : Option Errno)
  deriving DecidableEq, Repr

inductive Thread (β : Type) where
  | numbered (request : Msg β)
  | pending (entry : Entry) (body : β) (stage : Stage)
  | posting (msg : Msg β)

inductive Call (β : Type) where
  | send (body : β)
  | post (body : β)
  | reply (msg : Msg β)
  | read (msg : Msg β) (signalled : Bool)
  | done (index : Nat)

inductive Outcome where
  | success
  | failure
  | timeout
  | closure
  deriving DecidableEq, Repr

def push (cv : Nat) (cvs : List Nat) : List Nat := if cvs.length < dispReqs then cv::cvs else cvs

def erase (number : UInt16) (requests : List (Request β)) : List (Request β) := requests.filter fun request => request.entry.number ≠ number

def isPending (state : State β) (number : UInt16) : Bool := state.requests.any fun request => request.entry.number = number

-- The pop of an empty stack gives a null pointer, which is dereferenced.
def register (state : State β) (request : Msg β) (stored : Bool) : Option (Thread β) × State β :=
  match state.cvs with
  | [] => (none,{state with crashed:=true})
  | cv::cvs =>
    let entry : Entry := ⟨state.allocated,cv,request.number⟩
    if stored then
      (some (.pending entry request.body .writing),
        {state with cvs:=cvs, requests:=⟨entry,none⟩::erase request.number state.requests, allocated:=state.allocated + 1})
    else
      (none,{state with cvs:=push cv cvs, requests:=erase request.number state.requests, returned:=state.returned ++ [(request,.error .noMem)]})

def release (state : State β) (entry : Entry) : State β :=
  {state with cvs:=push entry.cv state.cvs, requests:=erase entry.number state.requests}

-- Where `entry` is no longer in the map its memory is free; it reads as not ready.
def response (state : State β) (entry : Entry) : Option (Msg β) :=
  (state.requests.find? fun request => request.entry = entry).bind Request.resp

def conclude (resp : Option (Msg β)) : Option Errno → Except Errno (Msg β)
  | some err => .error err
  | none =>
    match resp with
    | some msg => .ok msg
    | none => .error .timedOut

def finish (state : State β) (entry : Entry) (body : β) (result : Except Errno (Msg β)) : State β :=
  {release state entry with returned:=state.returned ++ [(⟨entry.number,body⟩,result)]}

def answer (msg : Msg β) (request : Request β) : Request β :=
  if request.entry.number = msg.number then {request with resp:=some msg} else request

def read (state : State β) (msg : Msg β) (signalled : Bool) : State β :=
  match state.requests.find? fun request => request.entry.number = msg.number with
  | none => {state with handled:=state.handled ++ [msg]}
  | some request =>
    let ready : State β := {state with requests:=state.requests.map (answer msg)}
    if signalled then ready else release ready request.entry

def write (state : State β) (msg : Msg β) : State β := {state with sent:=state.sent ++ [msg]}

def sendStep (state : State β) (entry : Entry) (body : β) (outcome : Outcome) : Stage → Option (Thread β) × State β
  | .writing =>
    if outcome = .failure then (some (.pending entry body .failing),state)
    else (some (.pending entry body (.waiting none)),write state ⟨entry.number,body⟩)
  | .failing => (none,finish state entry body (.error .failed))
  | .waiting err =>
    if (response state entry).isSome then (some (.pending entry body (.finishing err)),state)
    else (some (.pending entry body .sleeping),state)
  | .sleeping =>
    match outcome with
    | .success => (some (.pending entry body (.waiting none)),state)
    | .failure => (some (.pending entry body (.waiting (some .failed))),state)
    | .timeout => (some (.pending entry body (.finishing (some .timedOut))),state)
    | .closure => (some (.pending entry body (.finishing (some .closed))),state)
  | .finishing err => (none,finish state entry body (conclude (response state entry) err))

def advance (state : State β) (outcome : Outcome) : Thread β → Option (Thread β) × State β
  | .numbered request => register state request (outcome ≠ .failure)
  | .pending entry body stage => sendStep state entry body outcome stage
  | .posting msg => (none,if outcome = .failure then state else write state msg)

def begin (state : State β) : Call β → Option (Thread β) × State β
  | .send body => (some (.numbered ⟨state.id,body⟩),{state with id:=state.id + 1})
  | .post body => (some (.posting ⟨state.id,body⟩),{state with id:=state.id + 1})
  | .reply msg => (some (.posting msg),state)
  | .read msg signalled => (none,read state msg signalled)
  | .done index => (none,{state with handled:=state.handled.eraseIdx index})

def system (β : Type) : Threads.System (State β) (Thread β) (Call β) Outcome where
  enter state call := if state.crashed then none else some (begin state call)
  proceed state thread outcome := if state.crashed then none else some (advance state outcome thread)

def start (β : Type) : Pool (State β) (Thread β) := ⟨⟨0,(List.range dispReqs).reverse,[],0,[],[],[],false⟩,[]⟩

def entries (state : State β) : List Entry := state.requests.map Request.entry

def holds : Thread β → Option Entry
  | .pending entry _ _ => some entry
  | _ => none

structure Slots (cvs : List Nat) (entries : List Entry) : Prop where
  whole : (cvs ++ entries.map Entry.cv).Perm (List.range dispReqs)
  apart : (entries.map Entry.number).Nodup

section Slots

variable {cvs : List Nat} {listed : List Entry} {entry : Entry} {cv : Nat}

lemma Slots.count (slots : Slots cvs listed) : cvs.length + listed.length = dispReqs := by
  have same := slots.whole.length_eq
  rwa [length_append,length_map,List.length_range] at same

lemma Slots.used (slots : Slots cvs listed) : (cvs ++ listed.map Entry.cv).Nodup := slots.whole.nodup_iff.mpr nodup_range

lemma Slots.putBack (slots : Slots (cv::cvs) listed) : push cv cvs = cv::cvs := by
  refine if_pos ?_
  have count := slots.count
  rw [length_cons] at count
  omega

lemma Slots.take (slots : Slots (entry.cv::cvs) listed) (new : entry.number ∉ listed.map Entry.number) : Slots cvs (entry::listed) :=
  ⟨perm_middle.trans slots.whole,nodup_cons.mpr ⟨new,slots.apart⟩⟩

lemma without_absent (absent : number ∉ listed.map Entry.number) :
    (listed.filter fun other => other.number ≠ number) = listed := by
  refine filter_eq_self.mpr ?_
  intro other member
  refine decide_eq_true ?_
  intro same
  exact absent (same ▸ mem_map_of_mem member)

lemma Slots.without (slots : Slots cvs listed) (member : entry ∈ listed) :
    listed.Perm (entry::listed.filter fun other => other.number ≠ entry.number) := by
  obtain ⟨first,last,rfl⟩ := append_of_mem member
  have apart := slots.apart.perm (perm_middle.map Entry.number)
  rw [map_cons,nodup_cons] at apart
  refine perm_middle.trans (List.Perm.cons entry (List.Perm.of_eq ?_))
  have others := without_absent apart.1
  rw [filter_append] at others ⊢
  rw [List.filter_cons_of_neg (by simp)]
  exact others.symm

lemma Slots.give (slots : Slots cvs listed) (member : entry ∈ listed) :
    Slots (push entry.cv cvs) (listed.filter fun other => other.number ≠ entry.number) := by
  have order := slots.without member
  have filled : Slots (entry.cv::cvs) (listed.filter fun other => other.number ≠ entry.number) := by
    refine ⟨?_,?_⟩
    · refine List.Perm.trans ?_ slots.whole
      refine List.Perm.trans ?_ ((order.map Entry.cv).symm.append_left cvs)
      exact perm_middle.symm
    · exact slots.apart.sublist (List.filter_sublist.map _)
  rw [filled.putBack]
  exact filled

end Slots

section Entries

variable {state : State β} {requests : List (Request β)} {entry : Entry} {msg : Msg β} {number : UInt16}

lemma entries_erase : (erase number requests).map Request.entry = (requests.map Request.entry).filter fun other => other.number ≠ number := by
  rw [List.filter_map]
  rfl

lemma entries_answer : (requests.map (answer msg)).map Request.entry = requests.map Request.entry := by
  rw [map_map]
  refine map_congr_left ?_
  intro request _
  simp only [Function.comp,answer]
  split <;> rfl

lemma not_pending (free : isPending state number = false) : number ∉ (entries state).map Entry.number := by
  intro member
  rw [entries,map_map] at member
  obtain ⟨request,among,is⟩ := mem_map.mp member
  have found : isPending state number = true := any_eq_true.mpr ⟨request,among,decide_eq_true is⟩
  rw [free] at found
  cases found

lemma isPending_of_entry (member : entry ∈ entries state) : isPending state entry.number = true := by
  obtain ⟨request,among,is⟩ := mem_map.mp member
  exact any_eq_true.mpr ⟨request,among,decide_eq_true (is ▸ rfl)⟩

lemma read_handled (free : isPending state msg.number = false) (signalled : Bool) :
    read state msg signalled = {state with handled:=state.handled ++ [msg]} := by
  have absent : (state.requests.find? fun request => request.entry.number = msg.number) = none := by
    refine List.find?_eq_none.mpr ?_
    intro request member
    exact any_eq_false.mp free request member
  rw [read,absent]

lemma read_answered (found : isPending state msg.number = true) : read state msg true = {state with requests:=state.requests.map (answer msg)} := by
  obtain ⟨request,member,is⟩ := any_eq_true.mp found
  cases search : state.requests.find? fun request => request.entry.number = msg.number with
  | none => cases List.find?_eq_none.mp search request member is
  | some request =>
    rw [read,search]
    exact if_pos rfl

lemma conclude_ok (ok : conclude resp err = .ok msg) : resp = some msg := by
  cases err with
  | some err => cases ok
  | none =>
    cases resp with
    | none => cases ok
    | some given => exact congrArg some (Except.ok.inj ok)

lemma sendStep_cases (state : State β) (entry : Entry) (body : β) (outcome : Outcome) (stage : Stage) :
    (∃ later, sendStep state entry body outcome stage = (some (.pending entry body later),state)) ∨
    sendStep state entry body outcome stage = (some (.pending entry body (.waiting none)),write state ⟨entry.number,body⟩) ∨
    ∃ result, sendStep state entry body outcome stage = (none,finish state entry body result) ∧ ∀ msg, result = .ok msg → response state entry = some msg := by
  cases stage with
  | writing =>
    by_cases failed : outcome = .failure
    · exact .inl ⟨_,if_pos failed⟩
    · exact .inr (.inl (if_neg failed))
  | failing => exact .inr (.inr ⟨_,rfl,fun _ => nofun⟩)
  | waiting err =>
    by_cases ready : (response state entry).isSome
    · exact .inl ⟨_,if_pos ready⟩
    · exact .inl ⟨_,if_neg ready⟩
  | sleeping => cases outcome <;> exact .inl ⟨_,rfl⟩
  | finishing err => exact .inr (.inr ⟨_,rfl,fun _ => conclude_ok⟩)

end Entries

structure Sound (pool : Pool (State β) (Thread β)) : Prop where
  slots : Slots pool.shared.cvs (entries pool.shared)
  held : Threads.gathered holds pool.threads = Multiset.ofList (entries pool.shared)

lemma start_sound : Sound (start β) := ⟨⟨(List.Perm.of_eq (append_nil _)).trans (List.reverse_perm _),nodup_nil⟩,rfl⟩

lemma Sound.isPending (sound : Sound pool)
    (member : .pending entry body stage ∈ pool.threads) : isPending pool.shared entry.number = true := by
  refine isPending_of_entry ?_
  rw [← Multiset.mem_coe,← sound.held]
  exact Threads.mem_gathered.mpr ⟨_,member,rfl⟩

lemma Sound.sender {pool : Pool (State β) (Thread β)} {request : Request β} (sound : Sound pool) (member : request ∈ pool.shared.requests) :
    ∃ body stage, .pending request.entry body stage ∈ pool.threads := by
  have listed : request.entry ∈ Multiset.ofList (entries pool.shared) := mem_map_of_mem member
  rw [← sound.held] at listed
  obtain ⟨thread,among,is⟩ := Threads.mem_gathered.mp listed
  cases thread with
  | pending entry body stage =>
    cases is
    exact ⟨body,stage,among⟩
  | _ => cases is

-- A failed signal takes the entry of a waiting call away, and a second request with
-- one number takes the place of the first.
def regular (pool : Pool (State β) (Thread β)) : Action (Call β) Outcome → Bool
  | .enter (.read msg signalled) => signalled || !isPending pool.shared msg.number
  | .enter _ => true
  | .proceed index _ =>
    match pool.threads[index]? with
    | some (.numbered request) => !isPending pool.shared request.number
    | _ => true

def roomy (pool : Pool (State β) (Thread β)) : Action (Call β) Outcome → Bool
  | .enter _ => true
  | .proceed index _ =>
    match pool.threads[index]? with
    | some (.numbered _) => !pool.shared.cvs.isEmpty
    | _ => true

section Steps

variable {pool next : Pool (State β) (Thread β)} {thread after : Option (Thread β)} {others : List (Thread β)}

variable {call : Call β} {outcome : Outcome}

lemma enter_some (entered : (system β).enter pool.shared call = some (thread,state)) :
    pool.shared.crashed = false ∧ begin pool.shared call = (thread,state) := by
  unfold system at entered
  dsimp only at entered
  split at entered
  · cases entered
  · exact ⟨Bool.of_not_eq_true ‹_›,Option.some.inj entered⟩

lemma proceed_some {thread : Thread β} {state : State β} (went : (system β).proceed pool.shared thread outcome = some (after,state)) :
    pool.shared.crashed = false ∧ advance pool.shared outcome thread = (after,state) := by
  unfold system at went
  dsimp only at went
  split at went
  · cases went
  · exact ⟨Bool.of_not_eq_true ‹_›,Option.some.inj went⟩

lemma begin_sound (sound : Sound pool) (signals : ∀ msg signalled, call = .read msg signalled → signalled || !isPending pool.shared msg.number)
    (entered : begin pool.shared call = (thread,next.shared)) (threads : next.threads.Perm (thread.toList ++ pool.threads)) : Sound next := by
  have unheld : thread.bind holds = none := by
    rw [← (Prod.mk.inj entered).1]
    cases call <;> rfl
  have cvs : next.shared.cvs = pool.shared.cvs ∧ entries next.shared = entries pool.shared := by
    rw [← (Prod.mk.inj entered).2]
    cases call with
    | read msg signalled =>
      cases found : isPending pool.shared msg.number with
      | false =>
        dsimp only [begin]
        rw [read_handled found]
        exact ⟨rfl,rfl⟩
      | true =>
        have signal := signals msg signalled rfl
        rw [found,Bool.not_true,Bool.or_false] at signal
        subst signal
        dsimp only [begin]
        rw [read_answered found]
        exact ⟨rfl,entries_answer⟩
    | _ => exact ⟨rfl,rfl⟩
  refine ⟨?_,?_⟩
  · rw [cvs.1,cvs.2]
    exact sound.slots
  · rw [gathered_perm threads,gathered_append,unheld,cvs.2,← sound.held]
    exact zero_add _

lemma kept_sound {thread : Thread β} (sound : Sound pool) (before : pool.threads.Perm (thread::others)) (threads : next.threads.Perm (after.toList ++ others))
    (cvs : next.shared.cvs = pool.shared.cvs) (same : entries next.shared = entries pool.shared) (kept : after.bind holds = holds thread) : Sound next := by
  refine ⟨?_,?_⟩
  · rw [cvs,same]
    exact sound.slots
  · rw [gathered_perm threads,gathered_append,kept,same,← sound.held,gathered_perm before,gathered_cons]

lemma released_sound (sound : Sound pool) (before : pool.threads.Perm (.pending entry body stage::others))
    (threads : next.threads.Perm others) (cvs : next.shared.cvs = push entry.cv pool.shared.cvs)
    (requests : next.shared.requests = erase entry.number pool.shared.requests) : Sound next := by
  have held := sound.held
  rw [gathered_perm before,gathered_cons] at held
  have member : entry ∈ entries pool.shared := by
    rw [← Multiset.mem_coe,← held]
    exact Multiset.mem_add.mpr (.inl (mem_singleton.mpr rfl))
  have left : entries next.shared = (entries pool.shared).filter fun other => other.number ≠ entry.number := by
    rw [entries,requests,entries_erase,entries]
  refine ⟨?_,?_⟩
  · rw [cvs,left]
    exact sound.slots.give member
  · rw [gathered_perm threads,left]
    rw [Multiset.coe_eq_coe.mpr (sound.slots.without member)] at held
    exact (Multiset.cons_inj_right entry).mp held

lemma register_sound {request : Msg β} {stored : Bool} (sound : Sound pool) (free : isPending pool.shared request.number = false)
    (before : pool.threads.Perm (.numbered request::others)) (went : register pool.shared request stored = (after,next.shared))
    (threads : next.threads.Perm (after.toList ++ others)) : Sound next := by
  have absent := not_pending free
  have gone : (erase request.number pool.shared.requests).map Request.entry = entries pool.shared := by
    rw [entries_erase]
    exact without_absent absent
  unfold register at went
  cases cvs : pool.shared.cvs with
  | nil =>
    simp only [cvs] at went
    obtain ⟨rfl,shared⟩ := Prod.mk.inj went
    exact kept_sound sound before threads (by rw [← shared,cvs]) (by rw [← shared]; rfl) rfl
  | cons cv rest =>
    have slots := sound.slots
    rw [cvs] at slots
    simp only [cvs] at went
    cases stored with
    | false =>
      obtain ⟨rfl,shared⟩ := Prod.mk.inj went
      refine kept_sound sound before threads ?_ ?_ rfl <;> rw [← shared]
      · exact slots.putBack.trans cvs.symm
      · exact gone
    | true =>
      obtain ⟨rfl,shared⟩ := Prod.mk.inj went
      have now : entries next.shared = ⟨pool.shared.allocated,cv,request.number⟩::entries pool.shared := by
        rw [← shared]
        exact congrArg (List.cons _) gone
      refine ⟨?_,?_⟩
      · rw [now,← shared]
        exact Slots.take slots absent
      · have held := sound.held
        rw [gathered_perm before,gathered_cons] at held
        rw [gathered_perm threads,gathered_append,now]
        exact congrArg (Multiset.cons _) ((zero_add _).symm.trans held)

lemma advance_sound {thread : Thread β} (sound : Sound pool) (free : ∀ request, thread = .numbered request → isPending pool.shared request.number = false)
    (before : pool.threads.Perm (thread::others)) (went : advance pool.shared outcome thread = (after,next.shared))
    (threads : next.threads.Perm (after.toList ++ others)) : Sound next := by
  cases thread with
  | numbered request => exact register_sound sound (free request rfl) before went threads
  | posting msg =>
    obtain ⟨rfl,shared⟩ := Prod.mk.inj went
    refine kept_sound sound before threads ?_ ?_ rfl <;> rw [← shared] <;> split <;> rfl
  | pending entry body stage =>
    rcases sendStep_cases pool.shared entry body outcome stage with ⟨later,is⟩ | is | ⟨result,is,_⟩ <;> obtain ⟨rfl,shared⟩ := Prod.mk.inj (is.symm.trans went)
    · exact kept_sound sound before threads (by rw [shared]) (by rw [shared]) rfl
    · exact kept_sound sound before threads (by rw [← shared]; rfl) (by rw [← shared]; rfl) rfl
    · exact released_sound sound before threads (by rw [← shared]; rfl) (by rw [← shared]; rfl)

variable {action : Action (Call β) Outcome}

lemma step_sound (sound : Sound pool) (usual : regular pool action = true)
    (moved : step (system β) pool action = some next) : Sound next := by
  rcases step_cases moved with ⟨call,thread,rfl,entered,threads⟩ | ⟨index,outcome,thread,after,others,rfl,found,before,went,threads⟩
  · refine begin_sound sound ?_ (enter_some entered).2 threads
    intro msg signalled is
    subst is
    exact usual
  · refine advance_sound sound ?_ before (proceed_some went).2 threads
    intro request is
    subst is
    unfold regular at usual
    simp only [found] at usual
    exact (not_eq_true' _).mp usual

lemma begin_crashed (entered : begin pool.shared call = (thread,next.shared)) : next.shared.crashed = pool.shared.crashed := by
  rw [← (Prod.mk.inj entered).2]
  cases call with
  | read msg signalled =>
    dsimp only [begin,read]
    split
    · rfl
    · split <;> rfl
  | _ => rfl

lemma advance_crashed {thread : Thread β} (room : ∀ request, thread = .numbered request → pool.shared.cvs ≠ [])
    (went : advance pool.shared outcome thread = (after,next.shared)) : next.shared.crashed = pool.shared.crashed := by
  cases thread with
  | numbered request =>
    unfold advance register at went
    cases cvs : pool.shared.cvs with
    | nil => cases room request rfl cvs
    | cons cv rest =>
      simp only [cvs] at went
      split at went <;> rw [← (Prod.mk.inj went).2]
  | posting msg =>
    rw [← (Prod.mk.inj went).2]
    split <;> rfl
  | pending entry body stage =>
    rcases sendStep_cases pool.shared entry body outcome stage with ⟨later,is⟩ | is | ⟨result,is,_⟩ <;> rw [← (Prod.mk.inj (is.symm.trans went)).2]
    · rfl
    · rfl

lemma step_crashed (room : roomy pool action = true)
    (moved : step (system β) pool action = some next) : next.shared.crashed = pool.shared.crashed := by
  rcases step_cases moved with ⟨call,thread,rfl,entered,threads⟩ | ⟨index,outcome,thread,after,others,rfl,found,before,went,threads⟩
  · exact begin_crashed (enter_some entered).2
  · refine advance_crashed ?_ (proceed_some went).2
    intro request is empty
    subst is
    unfold roomy at room
    simp only [found,empty,List.isEmpty_nil] at room
    cases room

end Steps

def steady (pool : Pool (State β) (Thread β)) (action : Action (Call β) Outcome) : Bool := regular pool action && roomy pool action

structure Healthy (pool : Pool (State β) (Thread β)) : Prop extends Sound pool where
  running : pool.shared.crashed = false

lemma step_healthy (healthy : Healthy pool)
    (moved : Machine.only steady (step (system β)) pool action = some next) : Healthy next := by
  obtain ⟨usual,went⟩ := Machine.only_some moved
  obtain ⟨usual,room⟩ := and_eq_true_iff.mp usual
  exact ⟨step_sound healthy.toSound usual went,(step_crashed room went).trans healthy.running⟩

theorem request_slots {pool : Pool (State β) (Thread β)} (reached : Machine.Reached (Machine.only steady (step (system β))) (start β) pool) :
    pool.shared.cvs.length + pool.shared.requests.length = dispReqs ∧
      (pool.shared.cvs ++ pool.shared.requests.map fun request => request.entry.cv).Nodup ∧ pool.shared.crashed = false := by
  have healthy : Healthy pool := Machine.reached_invariant ⟨start_sound,rfl⟩ (fun _ _ _ holds moved => step_healthy holds moved) reached
  refine ⟨?_,?_,healthy.running⟩
  · have count := healthy.slots.count
    rwa [entries,length_map] at count
  · have used := healthy.slots.used
    rwa [entries,map_map] at used

def conversation : List (Action (Call Nat) Outcome) :=
  [.enter (.send 1),.proceed 0 .success,.proceed 0 .success,.enter (.send 2),.proceed 1 .success,.proceed 1 .failure,.enter (.read ⟨0,7⟩ true),
    .proceed 0 .success,.proceed 1 .success,.enter (.send 3),.proceed 1 .success,.proceed 1 .success,.proceed 1 .success,.proceed 1 .timeout,
    .proceed 1 .success,.proceed 0 .success]

theorem conversation_slots :
    ∃ pool, Machine.Reached (Machine.only steady (step (system Nat))) (start Nat) pool ∧ pool.shared.returned.length = 3 ∧
      pool.shared.cvs.length + pool.shared.requests.length = dispReqs ∧
      (pool.shared.cvs ++ pool.shared.requests.map fun request => request.entry.cv).Nodup ∧ pool.shared.crashed = false :=
  ⟨_,⟨conversation,rfl⟩,rfl,request_slots ⟨conversation,rfl⟩⟩

def sends (count : Nat) : List (Action (Call Nat) Outcome) := (List.range count).flatMap fun index => [.enter (.send index),.proceed index .success]

-- The response to the first of two requests cannot be signalled.
def unsignalled : List (Action (Call Nat) Outcome) :=
  sends 2 ++ [.proceed 0 .success,.proceed 0 .success,.enter (.read ⟨0,7⟩ false),.proceed 0 .timeout,.proceed 0 .success]

-- Four requests are pending: the fifth has no condition variable. And a condition
-- variable whose signal fails is given back by the reader and by the sender.
theorem slots_lost :
    (∃ pool, Machine.Reached (step (system Nat)) (start Nat) pool ∧ pool.shared.requests.length = dispReqs ∧ pool.shared.cvs = [] ∧
      ∃ next, step (system Nat) pool (.enter (.send 4)) = some next ∧
        ∃ last, step (system Nat) next (.proceed dispReqs .success) = some last ∧ last.shared.crashed = true) ∧
    ∃ pool, Machine.Reached (step (system Nat)) (start Nat) pool ∧ pool.shared.cvs = [3,3,1,0] ∧ pool.shared.requests.length = 1 :=
  ⟨⟨_,⟨sends dispReqs,rfl⟩,rfl,rfl,_,rfl,_,rfl,rfl⟩,_,⟨unsignalled,rfl⟩,rfl,rfl⟩

end MedvedDB.Dispatcher
