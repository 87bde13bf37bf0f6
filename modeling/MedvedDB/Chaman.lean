import MedvedDB.Machine

namespace MedvedDB.Chaman

open Machine

inductive DialerState where
  | disconnected | connected | connecting
  deriving DecidableEq, Repr

inductive Dir where
  | chin | chout
  deriving DecidableEq, Repr

-- The channel id is zero until the dialer is connected for the first time.
structure Dialer (υ : Type) where
  state : DialerState
  attemptTime : Nat
  channelId : Option υ
  channelType : UInt8
  deriving DecidableEq, Repr

structure Channel (φ : Type) where
  sock : φ
  type : UInt8
  dir : Dir
  deriving DecidableEq, Repr

-- The task of a socket in the thread pool: it is connecting, its channel is selected or it
-- is read from. Between the last two mdv_chaman_new_connection has registered the channel
-- but not the task. A lost socket is open and has no task.
inductive Place (α υ : Type) where
  | free
  | dialing (addr : α) (type : UInt8)
  | selecting (addr : α) (dir : Dir)
  | registering (addr : α) (uuid : υ)
  | receiving (addr : α) (uuid : υ)
  | lost
  deriving DecidableEq, Repr

-- The calls are those of mdv_chaman_dial that have registered their dialer and not
-- connected yet.
structure State (α φ υ : Type) where
  dialers : α → Option (Dialer υ)
  channels : υ → Option (Channel φ)
  calls : α → Option UInt8
  places : φ → Place α υ

inductive Events where
  | err
  | out (greeted : Bool)
  | neither

inductive Answer (υ : Type) where
  | again (rearmed : Bool)
  | failed
  | ok (type : UInt8) (uuid : υ) (created inserted : Bool)

structure Visit (α φ : Type) where
  addr : α
  time : Nat
  sock : Option φ

-- Every action is one mutex section, or none, with what its thread does on its own around
-- it. A socket that is none stands for a failed mdv_chaman_connect.
inductive Action (α φ υ : Type) where
  | dial (addr : α) (type : UInt8) (time : Nat) (stored : Bool)
  | connect (addr : α) (sock : Option φ)
  | timer (visits : List (Visit α φ))
  | dialer (sock : φ) (events : Events)
  | accept (sock : φ) (addr : α) (greeted : Bool)
  | select (sock : φ) (answer : Answer υ)
  | register (sock : φ) (added : Bool)
  | recv (sock : φ)

section Source

variable {α φ υ : Type}

def setPlace [DecidableEq φ] (state : State α φ υ) (sock : φ) (place : Place α υ) : State α φ υ := {state with places:=update state.places sock place}

def putDialer [DecidableEq α] (state : State α φ υ) (addr : α) (dialer : Option (Dialer υ)) : State α φ υ :=
  {state with dialers:=update state.dialers addr dialer}

lemma setPlace_same [DecidableEq φ] (state : State α φ υ) (sock : φ) (place : Place α υ) : (setPlace state sock place).places sock = place :=
  update_self ..

lemma setPlace_other [DecidableEq φ] {state : State α φ υ} {place : Place α υ} (apart : other ≠ sock) :
    (setPlace state sock place).places other = state.places other :=
  update_of_ne apart ..

lemma putDialer_same [DecidableEq α] (state : State α φ υ) (addr : α) (dialer : Option (Dialer υ)) : (putDialer state addr dialer).dialers addr = dialer :=
  update_self ..

lemma putDialer_other [DecidableEq α] {state : State α φ υ} {dialer : Option (Dialer υ)} (apart : other ≠ addr) :
    (putDialer state addr dialer).dialers other = state.dialers other :=
  update_of_ne apart ..

variable [DecidableEq α] [DecidableEq φ] [DecidableEq υ]

def setDialer (state : State α φ υ) (addr : α) (change : Dialer υ → Dialer υ) : State α φ υ := putDialer state addr ((state.dialers addr).map change)

def dialerState (state : State α φ υ) (addr : α) (new : DialerState) : State α φ υ := setDialer state addr fun dialer => {dialer with state:=new}

def connect (state : State α φ υ) (addr : α) (type : UInt8) (sock : φ) : Option (State α φ υ) :=
  match state.places sock with
  | .free => some (setPlace state sock (.dialing addr type))
  | _ => none

-- The timer does not look at what mdv_chaman_connect returns.
def visit (interval : Nat) (state : State α φ υ) (visit : Visit α φ) : Option (State α φ υ) :=
  match state.dialers visit.addr with
  | none => none
  | some dialer =>
    if dialer.state = .disconnected ∧ dialer.attemptTime + interval < visit.time then
      let state := setDialer state visit.addr fun dialer => {dialer with state:=.connecting,attemptTime:=visit.time}
      match visit.sock with
      | none => some state
      | some sock => connect state visit.addr dialer.channelType sock
    else some state

def newConnection (state : State α φ υ) (sock : φ) (addr : α) (type : UInt8) (dir : Dir) (uuid : υ) (created inserted : Bool) : State α φ υ :=
  let connected (state : State α φ υ) := setDialer state addr fun dialer => {dialer with state:=.connected,channelId:=some uuid}
  match state.channels uuid with
  | some _ => setPlace (connected state) sock .free
  | none =>
    if created && inserted then
      setPlace (connected {state with channels:=update state.channels uuid (some ⟨sock,type,dir⟩)}) sock (.registering addr uuid)
    else setPlace state sock .free

-- The channel is erased by its id, the dialer found by the address of the connection.
def drop (state : State α φ υ) (sock : φ) (addr : α) (uuid : υ) : State α φ υ :=
  setPlace (dialerState {state with channels:=update state.channels uuid none} addr .disconnected) sock .free

def step (interval : Nat) (state : State α φ υ) : Action α φ υ → Option (State α φ υ)
  | .dial addr type time stored =>
    if (state.dialers addr).isSome || !stored then some state
    else some {putDialer state addr (some ⟨.connecting,time,none,type⟩) with calls:=update state.calls addr (some type)}
  | .connect addr sock =>
    (state.calls addr).bind fun type =>
      let ended := {state with calls:=update state.calls addr none}
      match sock with
      | some sock => connect ended addr type sock
      | none => some (putDialer ended addr none)
  | .timer visits => visits.foldlM (visit interval) state
  | .dialer sock events =>
    match state.places sock,events with
    | .dialing addr _,.out true => some (setPlace state sock (.selecting addr .chout))
    | .dialing _ _,.neither => some (setPlace state sock .lost)
    | .dialing addr _,_ => some (setPlace (dialerState state addr .disconnected) sock .free)
    | _,_ => none
  | .accept sock addr greeted =>
    match state.places sock with
    | .free => some (if greeted then setPlace state sock (.selecting addr .chin) else state)
    | _ => none
  | .select sock answer =>
    match state.places sock,answer with
    | .selecting _ _,.again true => some state
    | .selecting addr dir,.ok type uuid created inserted => some (newConnection state sock addr type dir uuid created inserted)
    | .selecting _ _,_ => some (setPlace state sock .free)
    | _,_ => none
  | .register sock added =>
    match state.places sock with
    | .registering addr uuid => some (if added then setPlace state sock (.receiving addr uuid) else drop state sock addr uuid)
    | _ => none
  | .recv sock =>
    match state.places sock with
    | .receiving addr uuid => some (drop state sock addr uuid)
    | _ => none

def start (α φ υ : Type) : State α φ υ := ⟨fun _ => none,fun _ => none,fun _ => none,fun _ => .free⟩

end Source

section Connected

variable {α φ υ : Type}

def Registered (state : State α φ υ) : Prop :=
  ∀ addr dialer, state.dialers addr = some dialer → dialer.state = .connected → ∃ uuid, dialer.channelId = some uuid ∧ (state.channels uuid).isSome

-- Which nodes a connection with an address may turn out to lead to.
def agrees (answers : α → υ → Bool) (state : State α φ υ) : Action α φ υ → Bool
  | .select sock (.ok _ uuid _ _) =>
    match state.places sock with
    | .selecting addr _ => answers addr uuid
    | _ => true
  | _ => true

def Place.open : Place α υ → Option (α × υ)
  | .registering addr uuid | .receiving addr uuid => some (addr,uuid)
  | _ => none

structure Linked (answers : α → υ → Bool) (state : State α φ υ) : Prop where
  dialers : ∀ addr dialer, state.dialers addr = some dialer → dialer.state = .connected →
    ∃ uuid, dialer.channelId = some uuid ∧ answers addr uuid = true ∧ (state.channels uuid).isSome
  places : ∀ sock addr uuid, (state.places sock).open = some (addr,uuid) → answers addr uuid = true

variable {answers : α → υ → Bool} {state : State α φ υ}

lemma Linked.setPlace [DecidableEq φ] (linked : Linked answers state) (sock : φ) (place : Place α υ) (right : ∀ addr uuid, place.open = some (addr,uuid) → answers addr uuid = true) :
    Linked answers (setPlace state sock place) := by
  refine ⟨linked.dialers,fun other addr uuid is => ?_⟩
  by_cases same : other = sock
  · rw [same,setPlace_same] at is
    exact right addr uuid is
  · rw [setPlace_other same] at is
    exact linked.places other addr uuid is

lemma Linked.free [DecidableEq φ] (linked : Linked answers state) (sock : φ) : Linked answers (Chaman.setPlace state sock .free) := linked.setPlace sock .free nofun

lemma Linked.putDialer [DecidableEq α] (linked : Linked answers state) (addr : α) (new : Option (Dialer υ)) (right : ∀ dialer, new = some dialer → dialer.state = .connected →
    ∃ uuid, dialer.channelId = some uuid ∧ answers addr uuid = true ∧ (state.channels uuid).isSome) : Linked answers (putDialer state addr new) := by
  refine ⟨fun other dialer found connected => ?_,linked.places⟩
  by_cases same : other = addr
  · rw [same,putDialer_same] at found
    rw [same]
    exact right dialer found connected
  · rw [putDialer_other same] at found
    exact linked.dialers other dialer found connected

lemma Linked.setDialer [DecidableEq α] (linked : Linked answers state) (addr : α) (change : Dialer υ → Dialer υ)
    (right : ∀ dialer, (change dialer).state = .connected → ∃ uuid, (change dialer).channelId = some uuid ∧ answers addr uuid = true ∧ (state.channels uuid).isSome) :
    Linked answers (setDialer state addr change) := by
  apply linked.putDialer
  rintro dialer found connected
  obtain ⟨before,_,rfl⟩ := map_eq_some_iff.mp found
  exact right before connected

lemma Linked.connect [DecidableEq φ] (linked : Linked answers state) (went : connect state addr type sock = some next) : Linked answers next := by
  unfold Chaman.connect at went
  split at went
  · cases went
    exact linked.setPlace sock _ nofun
  · cases went

lemma Linked.visit [DecidableEq α] [DecidableEq φ] (linked : Linked answers state) (went : visit interval state seen = some next) : Linked answers next := by
  unfold Chaman.visit at went
  split at went
  · cases went
  · split at went
    · have dialed := linked.setDialer seen.addr (fun dialer => {dialer with state:=.connecting,attemptTime:=seen.time}) nofun
      dsimp only at went
      split at went
      · cases went
        exact dialed
      · exact dialed.connect went
    · cases went
      exact linked

variable [DecidableEq α] [DecidableEq φ] [DecidableEq υ]

lemma Linked.newConnection (linked : Linked answers state) (right : answers addr uuid = true) (sock : φ) (type : UInt8) (dir : Dir) (created inserted : Bool) :
    Linked answers (newConnection state sock addr type dir uuid created inserted) := by
  unfold Chaman.newConnection
  dsimp only
  split
  · rename_i channel found
    exact (linked.setDialer addr _ fun dialer _ => ⟨uuid,rfl,right,isSome_of_eq_some found⟩).free sock
  · split
    · have more : Linked answers {state with channels:=update state.channels uuid (some ⟨sock,type,dir⟩)} := by
        refine ⟨fun other dialer found connected => ?_,linked.places⟩
        obtain ⟨id,is,answered,registered⟩ := linked.dialers other dialer found connected
        refine ⟨id,is,answered,?_⟩
        by_cases same : id = uuid
        · simp [same]
        · simpa [same] using registered
      refine (more.setDialer addr _ fun dialer _ => ⟨uuid,rfl,right,by simp⟩).setPlace sock _ ?_
      intro other id is
      cases is
      exact right
    · exact linked.free sock

lemma Linked.drop (single : ∀ one two uuid, answers one uuid = true → answers two uuid = true → one = two) (linked : Linked answers state)
    (right : answers addr uuid = true) (sock : φ) : Linked answers (drop state sock addr uuid) := by
  have dropped : Linked answers (dialerState {state with channels:=update state.channels uuid none} addr .disconnected) := by
    refine ⟨fun other dialer found connected => ?_,linked.places⟩
    by_cases same : other = addr
    · rw [same,dialerState,Chaman.setDialer,putDialer_same] at found
      obtain ⟨before,_,rfl⟩ := map_eq_some_iff.mp found
      cases connected
    · rw [dialerState,Chaman.setDialer,putDialer_other same] at found
      obtain ⟨id,is,answered,registered⟩ := linked.dialers other dialer found connected
      have apart : id ≠ uuid := fun equal => same (single other addr uuid (equal ▸ answered) right)
      exact ⟨id,is,answered,(congrArg Option.isSome (update_of_ne apart ..)).trans registered⟩
  exact dropped.free sock

lemma step_linked (single : ∀ one two uuid, answers one uuid = true → answers two uuid = true → one = two) (linked : Linked answers state)
    (moved : only (agrees answers) (step interval) state action = some next) : Linked answers next := by
  obtain ⟨agreed,moved⟩ := only_some moved
  cases action with
  | dial addr type time stored =>
    simp only [step] at moved
    split at moved <;> cases moved
    · exact linked
    · have dialed := linked.putDialer addr (some ⟨.connecting,time,none,type⟩) fun dialer is connected => by cases is; cases connected
      exact ⟨dialed.dialers,dialed.places⟩
  | connect addr sock =>
    simp only [step] at moved
    obtain ⟨type,_,went⟩ := bind_eq_some_iff.mp moved
    have ended : Linked answers {state with calls:=update state.calls addr none} := ⟨linked.dialers,linked.places⟩
    cases sock with
    | some sock => exact ended.connect went
    | none =>
      cases went
      exact ended.putDialer addr none nofun
  | timer visits => exact reached_invariant linked (fun _ _ _ linked went => linked.visit went) ⟨visits,moved⟩
  | dialer sock events =>
    simp only [step] at moved
    split at moved <;> cases moved
    · exact linked.setPlace sock _ nofun
    · exact linked.setPlace sock _ nofun
    · exact (linked.setDialer _ _ fun dialer connected => by cases connected).free sock
  | accept sock addr greeted =>
    simp only [step] at moved
    split at moved <;> cases moved
    split
    · exact linked.setPlace sock _ nofun
    · exact linked
  | select sock answer =>
    simp only [step] at moved
    split at moved <;> cases moved
    · exact linked
    · rename_i found
      simp only [agrees,found] at agreed
      exact linked.newConnection agreed ..
    · exact linked.free sock
  | register sock added =>
    simp only [step] at moved
    split at moved <;> cases moved
    rename_i addr uuid found
    have right : answers addr uuid = true := linked.places sock addr uuid (by rw [found]; rfl)
    split
    · refine linked.setPlace sock _ fun other id is => ?_
      cases is
      exact right
    · exact linked.drop single right sock
  | recv sock =>
    simp only [step] at moved
    split at moved <;> cases moved
    rename_i addr uuid found
    exact linked.drop single (linked.places sock addr uuid (by rw [found]; rfl)) sock

-- A connection from one address registers the node, the dialer of the other address finds
-- it registered, and the first connection ends.
def lostConnection (one two : α) (uuid : υ) : List (Action α Nat υ) :=
  [.accept 0 one true,.select 0 (.ok 0 uuid true true),.register 0 true,.dial two 0 0 true,.connect two (some 1),.dialer 1 (.out true),
    .select 1 (.ok 0 uuid true true),.recv 0]

theorem connected_registered_iff (interval : Nat) (answers : α → υ → Bool) :
    (∀ state, Reached (only (agrees answers) (step interval)) (start α Nat υ) state → Registered state) ↔
      ∀ one two uuid, answers one uuid = true → answers two uuid = true → one = two := by
  constructor
  · intro all one two uuid first second
    by_contra apart
    have ran : ∃ final : State α Nat υ, (lostConnection one two uuid).foldlM (only (agrees answers) (step interval)) (start α Nat υ) = some final ∧
        (∃ dialer, final.dialers two = some dialer ∧ dialer.state = .connected ∧ dialer.channelId = some uuid) ∧ final.channels uuid = none := by
      simp [lostConnection,only,agrees,step,start,setPlace,newConnection,connect,drop,dialerState,setDialer,putDialer,first,second,apart,Ne.symm apart]
    obtain ⟨final,ran,⟨dialer,found,connected,id⟩,gone⟩ := ran
    obtain ⟨other,is,registered⟩ := all final ⟨_,ran⟩ two dialer found connected
    rw [id] at is
    cases is
    rw [gone] at registered
    cases registered
  · intro single state reached addr dialer found connected
    have linked : Linked answers state := by
      refine reached_invariant ⟨?_,?_⟩ (fun _ _ _ linked moved => step_linked single linked moved) reached
      · exact nofun
      · exact nofun
    obtain ⟨uuid,is,_,registered⟩ := linked.dialers addr dialer found connected
    exact ⟨uuid,is,registered⟩

end Connected

theorem connected_without_channel :
    ((lostConnection 1 2 7).foldlM (step 0) (start Nat Nat Nat)).map (fun final => (final.dialers 2,final.channels 7)) =
      some (some ⟨.connected,0,some 7,0⟩,none) := by
  rfl

end MedvedDB.Chaman
