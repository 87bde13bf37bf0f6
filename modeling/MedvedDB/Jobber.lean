import MedvedDB.Queuefd
import MedvedDB.Threads

open MedvedDB.RingQueue MedvedDB.Machine
namespace MedvedDB.Jobber

open Threads (Pool step)

-- MDV_JOBBER_QUEUE_SIZE and MDV_JOBBER_QUEUE_PUSH_ATTEMPTS
def queueSize : Nat := 256

def pushAttempts : Nat := 64

-- A job is its pointer. Beside the jobber stand the queues that calls have chosen, and
-- the jobs that each queue has taken with MDV_OK.
structure State (count : Nat) where
  idx : Nat
  jobs : Fin count → Queuefd.State 8
  picks : List Nat
  taken : Fin count → List (Item 8)

inductive Thread (count : Nat) where
  | picking (job : Item 8) (idx : Nat)
  | pushing (job : Item 8) (queue : Fin count) (attempts : Nat)

-- The other steps on a queue: a call that has put its job into the ring writes the
-- event, and mdv_job_handler reads it and pops the job, which it runs.
inductive Call (count : Nat) where
  | push (job : Item 8)
  | other (queue : Fin count) (action : Queuefd.Action 8)

variable {count : Nat} {state next : State count}

def put (state : State count) (queue : Fin count) (after : Queuefd.State 8) (more : List (Item 8)) : State count :=
  {state with jobs:=update state.jobs queue after,taken:=update state.taken queue (state.taken queue ++ more)}

def enter (state : State count) : Call count → Option (Option (Thread count) × State count)
  | .push job => some (some (.picking job state.idx),state)
  | .other _ (.push _) => none
  | .other queue action => (Queuefd.step (state.jobs queue) action).map fun after => (none,put state queue after [])

-- The weak compare-exchange may fail without a reason. A call whose last attempt finds
-- the queue full returns MDV_FAILED.
def proceed [NeZero count] (state : State count) (thread : Thread count) (spurious : Bool) : Option (Option (Thread count) × State count) :=
  match thread with
  | .picking job idx =>
    if idx = state.idx ∧ spurious = false then
      some (some (.pushing job (Fin.ofNat count (idx + 1)) 0),{state with idx:=(idx + 1) % count,picks:=state.picks ++ [(idx + 1) % count]})
    else some (some (.picking job state.idx),state)
  | .pushing job queue attempts =>
    (Queuefd.step (state.jobs queue) (.push job)).map fun after =>
      if after.pushing then (none,put state queue after [job])
      else (if attempts + 1 < pushAttempts then some (.pushing job queue (attempts + 1)) else none,put state queue after [])

def system (count : Nat) [NeZero count] : Threads.System (State count) (Thread count) (Call count) Bool := ⟨enter,proceed⟩

def start (count : Nat) (data : Memory) : Pool (State count) (Thread count) := ⟨⟨0,fun _ => Queuefd.start queueSize 8 data,[],fun _ => []⟩,[]⟩

structure Kept (state : State count) : Prop where
  queued : ∀ queue, Queuefd.Counted (state.jobs queue) ∧ (state.jobs queue).pushed = state.taken queue
  turn : state.idx = state.picks.length % count ∧ state.picks = (List.range state.picks.length).map fun turn => (turn + 1) % count

lemma pushed_push (moved : Queuefd.step queue (.push job) = some after) : after.pushed = queue.pushed ++ if after.pushing then [job] else [] := by
  simp only [Queuefd.step] at moved
  split at moved
  · cases moved
  · split at moved <;> cases moved <;> simp [*]

lemma pushed_other {action : Queuefd.Action 8} (other : ∀ job, action ≠ .push job) (moved : Queuefd.step queue action = some after) :
    after.pushed = queue.pushed ++ [] := by
  rw [append_nil]
  cases action with
  | push job => exact absurd rfl (other job)
  | write | read | pop =>
    simp only [Queuefd.step] at moved
    repeat' split at moved
    all_goals cases moved
    all_goals rfl

lemma Kept.put (kept : Kept state) (moved : Queuefd.step (state.jobs queue) action = some after)
    (pushed : after.pushed = (state.jobs queue).pushed ++ more) : Kept (put state queue after more) := by
  refine ⟨fun other => ?_,kept.turn⟩
  have before := kept.queued other
  unfold Jobber.put
  by_cases same : other = queue
  · subst same
    simp only [update_self]
    exact ⟨Queuefd.step_counted before.1 moved,before.2 ▸ pushed⟩
  · simpa only [update_of_ne same] using before

lemma enter_kept (kept : Kept state) (entered : enter state call = some (thread,next)) : Kept next := by
  unfold enter at entered
  split at entered
  · cases entered
    exact kept
  · cases entered
  · obtain ⟨after,moved,same⟩ := map_eq_some_iff.mp entered
    cases same
    exact kept.put moved (pushed_other (fun job equal => by simp_all) moved)

lemma proceed_kept [NeZero count] {thread : Thread count} (kept : Kept state) (went : proceed state thread spurious = some (rest,next)) : Kept next := by
  cases thread with
  | picking job idx =>
    simp only [proceed] at went
    split at went
    · rename_i swaps
      cases went
      obtain ⟨first,turns⟩ := kept.turn
      refine ⟨kept.queued,?_,?_⟩
      · simp [swaps.1,first]
      · rw [length_append,length_singleton,range_succ,map_append,← turns]
        simp [swaps.1,first]
    · cases went
      exact kept
  | pushing job queue attempts =>
    obtain ⟨after,moved,same⟩ := map_eq_some_iff.mp went
    have pushed := pushed_push moved
    split at same
    all_goals
      cases same
      exact kept.put moved (by simp [*])

def Keeps (pool : Pool (State count) (Thread count)) : Prop := Kept pool.shared

lemma step_keeps [NeZero count] (kept : Keeps pool) (moved : step (system count) pool action = some after) : Keeps after := by
  rcases Threads.step_cases moved with ⟨_,_,_,entered,_⟩ | ⟨_,_,_,_,_,_,_,_,went,_⟩
  · exact enter_kept kept entered
  · exact proceed_kept kept went

-- Queues are chosen in turn, and each runs what it has taken, in order and once.
def Served (state : State count) : Prop :=
  state.picks = (List.range state.picks.length).map (fun turn => (turn + 1) % count) ∧
    ∀ queue, (state.jobs queue).popped <+: (state.taken queue).map (some ·.bytes) ∧
      ((state.jobs queue).event = 0 → (state.jobs queue).pushing = false → (state.jobs queue).popping = false →
        (state.jobs queue).popped = (state.taken queue).map (some ·.bytes))

end MedvedDB.Jobber
