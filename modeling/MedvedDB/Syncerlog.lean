import MedvedDB.Replication
import MedvedDB.Threads

namespace MedvedDB.Syncerlog

open Replication (Point Syncer)
open Machine (Reached only)

-- One mdv_syncerlog, the top of its log and the messages between it and the peer.
-- `claimed` has the ranges taken by a compare-exchange, `passed` those given to
-- mdv_syncerlog_data_send_job_emit and `jobs` those with a job in the queue;
-- `handled` is the largest position of a schedule call and `announced` has the
-- tops with a start call that is over.
structure State where
  syncer : Syncer
  top : Nat
  syncs : Nat
  states : List Nat
  claimed : List (Nat × Nat)
  passed : List (Nat × Nat)
  jobs : List (Nat × Nat)
  handled : Nat
  announced : List Nat

structure Outcome where
  works : Bool := true
  spurious : Bool := false
  deriving DecidableEq, Repr

def rrange (batch synced top : Nat) : Nat := if (synced + batch) % 2 ^ 64 < top then (synced + batch) % 2 ^ 64 else top

def withSynced (state : State) (synced range : Nat) : State :=
  {state with syncer:={state.syncer with synced:=range},claimed:=state.claimed ++ [(synced,range)]}

def withRequests (state : State) (requests : Nat) : State := {state with syncer:={state.syncer with requests:=requests}}

def withJob (state : State) (works : Bool) (range : Nat × Nat) : State :=
  {state with passed:=state.passed ++ [range],jobs:=if works then state.jobs ++ [range] else state.jobs}

-- One atomic access of mdv_syncerlog_schedule: where the call is then, or that it
-- is over.
def schedule (batch : Nat) (state : State) (outcome : Outcome) : Point → Option Point × State
  | .entered pos => (some (.loaded pos state.syncer.requests),state)
  | .loaded pos requests => (some (.reading requests (if state.syncer.synced < pos then pos else state.syncer.synced)),state)
  | .reading requests synced =>
    if synced ≥ state.top then (some (.closing requests synced),state)
    else (some (.swapping requests synced (rrange batch synced state.top) state.top),state)
  | .swapping requests synced range top =>
    if state.syncer.synced = synced ∧ !outcome.spurious then
      if synced < range then (some (.emitting requests synced range top),withSynced state synced range)
      else if range < top then (some (.reading requests synced),withSynced state synced range)
      else (some (.closing requests synced),withSynced state synced range)
    else (some (.reading requests state.syncer.synced),state)
  | .emitting requests synced range top =>
    if range < top then (some (.reading requests range),withJob state outcome.works (synced,range))
    else (some (.closing requests range),withJob state outcome.works (synced,range))
  | .closing requests synced =>
    if state.syncer.requests = requests then (none,withRequests state 0)
    else (some (.reading state.syncer.requests synced),state)

-- A start call follows each time the top is raised.
inductive Thread where
  | starting (top : Nat)
  | counting (top : Nat)
  | publishing (top : Nat)
  | scheduling (point : Point)
  deriving DecidableEq, Repr

inductive Call where
  | raise (top : UInt64)
  | answer (pos : UInt64)
  | report (pos : UInt64)
  | handle (index : Nat)
  deriving DecidableEq, Repr

-- A TRLOG_SYNC is answered by a TRLOG_STATE; data that came in is followed by one
-- too, without a request.
def enter (state : State) : Call → Option (Option Thread × State)
  | .raise top => some (some (.starting (max state.top top.toNat)),{state with top:=max state.top top.toNat})
  | .answer pos => if state.syncs = 0 then none else some (none,{state with syncs:=state.syncs - 1,states:=pos.toNat::state.states})
  | .report pos => some (none,{state with states:=pos.toNat::state.states})
  | .handle index =>
    match state.states[index]? with
    | none => none
    | some pos => some (some (.scheduling (.entered pos)),{state with states:=state.states.eraseIdx index,handled:=max state.handled pos})

def announce (state : State) (top : Nat) : State := {state with announced:=top::state.announced}

def proceed (batch : Nat) (state : State) (thread : Thread) (outcome : Outcome) : Option (Option Thread × State) :=
  match thread with
  | .starting top => if state.top = 0 then some (none,announce state top) else some (some (.counting top),state)
  | .counting top =>
    if state.syncer.requests ≠ 0 then some (none,announce (withRequests state (state.syncer.requests + 1)) top)
    else some (some (.publishing top),withRequests state (state.syncer.requests + 1))
  | .publishing top =>
    if outcome.works then some (none,announce {state with syncs:=state.syncs + 1} top)
    else some (none,announce (withRequests state 0) top)
  | .scheduling point => some ((schedule batch state outcome point).1.map .scheduling,(schedule batch state outcome point).2)

def system (batch : Nat) : Threads.System State Thread Call Outcome := ⟨enter,proceed batch⟩

abbrev Pool := Threads.Pool State Thread

abbrev Action := Threads.Action Call Outcome

def step (batch : Nat) : Pool → Action → Option Pool := Threads.step (system batch)

def start (top : UInt64) : Pool := ⟨⟨⟨0,0⟩,top.toNat,0,[],[],[],[],0,[]⟩,[]⟩

inductive Scheduled (batch : Nat) (state : State) (outcome : Outcome) : Point → Option Point → State → Prop where
  | entered (pos : Nat) : Scheduled batch state outcome (.entered pos) (some (.loaded pos state.syncer.requests)) state
  | loaded (pos requests : Nat) : Scheduled batch state outcome (.loaded pos requests) (some (.reading requests (max state.syncer.synced pos))) state
  | covered (requests synced : Nat) (above : state.top ≤ synced) :
      Scheduled batch state outcome (.reading requests synced) (some (.closing requests synced)) state
  | reading (requests synced : Nat) (below : synced < state.top) :
      Scheduled batch state outcome (.reading requests synced) (some (.swapping requests synced (rrange batch synced state.top) state.top)) state
  | taken (requests synced range top : Nat) (same : state.syncer.synced = synced) (more : synced < range) :
      Scheduled batch state outcome (.swapping requests synced range top) (some (.emitting requests synced range top)) (withSynced state synced range)
  | back (requests synced range top : Nat) (same : state.syncer.synced = synced) (less : range ≤ synced) :
      Scheduled batch state outcome (.swapping requests synced range top)
        (some (if range < top then .reading requests synced else .closing requests synced)) (withSynced state synced range)
  | retry (requests synced range top : Nat) (failed : outcome.spurious = false → state.syncer.synced ≠ synced) :
      Scheduled batch state outcome (.swapping requests synced range top) (some (.reading requests state.syncer.synced)) state
  | emitting (requests synced range top : Nat) : Scheduled batch state outcome (.emitting requests synced range top)
      (some (if range < top then .reading requests range else .closing requests range)) (withJob state outcome.works (synced,range))
  | closed (requests synced : Nat) (same : state.syncer.requests = requests) :
      Scheduled batch state outcome (.closing requests synced) none (withRequests state 0)
  | again (requests synced : Nat) (other : state.syncer.requests ≠ requests) :
      Scheduled batch state outcome (.closing requests synced) (some (.reading state.syncer.requests synced)) state

lemma schedule_loaded (batch : Nat) (state : State) (outcome : Outcome) (pos requests : Nat) :
    schedule batch state outcome (.loaded pos requests) = (some (.reading requests (max state.syncer.synced pos)),state) := by
  simp only [schedule]
  split
  · rw [Nat.max_eq_right (by omega)]
  · rw [Nat.max_eq_left (by omega)]

lemma schedule_scheduled (batch : Nat) (state : State) (outcome : Outcome) (point : Point) :
    Scheduled batch state outcome point (schedule batch state outcome point).1 (schedule batch state outcome point).2 := by
  cases point with
  | entered pos => exact .entered pos
  | loaded pos requests =>
    rw [schedule_loaded]
    exact .loaded pos requests
  | reading requests synced =>
    simp only [schedule]
    split
    · exact .covered requests synced ‹_›
    · exact .reading requests synced (Nat.lt_of_not_le ‹_›)
  | swapping requests synced range top =>
    simp only [schedule]
    split
    · rename_i swapped
      split
      · exact .taken requests synced range top swapped.1 ‹_›
      · rename_i less
        have rule : Scheduled batch state outcome (.swapping requests synced range top)
            (some (if range < top then .reading requests synced else .closing requests synced)) (withSynced state synced range) :=
          .back requests synced range top swapped.1 (Nat.le_of_not_lt less)
        split
        · simpa [*] using rule
        · simpa [*] using rule
    · rename_i failed
      refine .retry requests synced range top ?_
      intro honest same
      exact failed ⟨same,by rw [honest]; rfl⟩
  | emitting requests synced range top =>
    have rule : Scheduled batch state outcome (.emitting requests synced range top)
        (some (if range < top then .reading requests range else .closing requests range)) (withJob state outcome.works (synced,range)) :=
      .emitting requests synced range top
    simp only [schedule]
    split
    · simpa [*] using rule
    · simpa [*] using rule
  | closing requests synced =>
    simp only [schedule]
    split
    · exact .closed requests synced ‹_›
    · exact .again requests synced ‹_›

def emits : Thread → Option (Nat × Nat)
  | .scheduling (.emitting _ synced range _) => some (synced,range)
  | _ => none

def plain : Thread → Bool
  | .scheduling (.entered _) => true
  | .scheduling _ => false
  | _ => true

lemma plain_emits (is : plain thread = true) : emits thread = none := by
  cases thread with
  | scheduling point => cases point <;> trivial
  | _ => rfl

lemma plain_emits_all {thread : Option Thread} (all : ∀ other ∈ thread, plain other = true) : thread.bind emits = none := by
  cases thread with
  | none => rfl
  | some other => exact plain_emits (all other rfl)

structure Still (state next : State) : Prop where
  synced : next.syncer.synced = state.syncer.synced
  claimed : next.claimed = state.claimed
  passed : next.passed = state.passed
  jobs : next.jobs = state.jobs

lemma enter_still (entered : enter state call = some (thread,next)) :
    Still state next ∧ (∀ other ∈ thread, plain other = true) ∧ (next.top = state.top ∨ ∃ top, call = .raise top ∧ next.top = max state.top top.toNat) := by
  cases call with
  | raise top =>
    cases entered
    exact ⟨⟨rfl,rfl,rfl,rfl⟩,fun _ is => by cases is; rfl,.inr ⟨top,rfl,rfl⟩⟩
  | answer pos =>
    simp only [enter] at entered
    split at entered <;> cases entered
    exact ⟨⟨rfl,rfl,rfl,rfl⟩,nofun,.inl rfl⟩
  | report pos =>
    cases entered
    exact ⟨⟨rfl,rfl,rfl,rfl⟩,nofun,.inl rfl⟩
  | handle index =>
    simp only [enter] at entered
    split at entered <;> cases entered
    exact ⟨⟨rfl,rfl,rfl,rfl⟩,fun _ is => by cases is; rfl,.inl rfl⟩

lemma proceed_cases (moved : proceed batch state thread outcome = some (after,next)) :
    (∃ point further, thread = .scheduling point ∧ after = further.map .scheduling ∧ Scheduled batch state outcome point further next) ∨
      plain thread = true ∧ (∀ other ∈ after, plain other = true) ∧ Still state next ∧ next.top = state.top := by
  cases thread with
  | starting top =>
    refine .inr ⟨rfl,?_⟩
    simp only [proceed] at moved
    split at moved <;> cases moved
    · exact ⟨nofun,⟨rfl,rfl,rfl,rfl⟩,rfl⟩
    · exact ⟨fun _ is => by cases is; rfl,⟨rfl,rfl,rfl,rfl⟩,rfl⟩
  | counting top =>
    refine .inr ⟨rfl,?_⟩
    simp only [proceed] at moved
    split at moved <;> cases moved
    · exact ⟨nofun,⟨rfl,rfl,rfl,rfl⟩,rfl⟩
    · exact ⟨fun _ is => by cases is; rfl,⟨rfl,rfl,rfl,rfl⟩,rfl⟩
  | publishing top =>
    refine .inr ⟨rfl,?_⟩
    simp only [proceed] at moved
    split at moved <;> cases moved
    · exact ⟨nofun,⟨rfl,rfl,rfl,rfl⟩,rfl⟩
    · exact ⟨nofun,⟨rfl,rfl,rfl,rfl⟩,rfl⟩
  | scheduling point =>
    cases moved
    exact .inl ⟨point,_,rfl,rfl,schedule_scheduled batch state outcome point⟩

lemma rrange_room (room : top + batch ≤ 2 ^ 64) (below : synced < top) : rrange batch synced top = min top (synced + batch) := by
  rw [rrange,mod_eq_of_lt (by omega)]
  split <;> omega

end MedvedDB.Syncerlog
