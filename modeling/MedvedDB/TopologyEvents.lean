import MedvedDB.Threads
import MedvedDB.TrackerView

namespace MedvedDB.TopologyEvents

open Tracker LinkStates TrackerView
open Threads (Action Pool gathered_perm step)

structure Walks (υ : Type) where
  nodes : (υ → Option (Node υ)) → List (Node υ)
  links : (UInt32 × UInt32 → Option UInt32) → List ((UInt32 × UInt32) × UInt32)

structure Published (υ : Type) where
  topology : TopologyDiff.Topology υ
  extradata : List (List UInt8)
  deriving DecidableEq, Repr

inductive Event (υ : Type) where
  | linkState (src dst : υ × List UInt8) (connected : Bool)
  | broadcast (message : Message υ)
  | topology (topology : Published υ)

-- What a handler of the tracker does to it. The ends of a link are missing if
-- they are no positions of the nodes.
inductive Task (υ : Type) where
  | register (uuid : υ) (addr : List UInt8)
  | link (one two : Option υ) (connected : Bool) (weight : UInt32)

variable {υ κ : Type}

def diffTasks (diff : Topology υ) : List (Task υ) :=
  diff.nodes.map (fun node => .register node.1 node.2) ++
    diff.links.map fun link => .link ((diff.nodes[link.1.1]?).map Prod.fst) ((diff.nodes[link.1.2]?).map Prod.fst) true link.2

def linkStateTasks (src dst : υ × List UInt8) (connected : Bool) : List (Task υ) :=
  [.register src.1 src.2,.register dst.1 dst.2,.link (some src.1) (some dst.1) connected 1]

def broadcastTasks : Message υ → List (Task υ)
  | .topodiff diff => diffTasks diff
  | .linkstate src dst connected => [.link (some src) (some dst) connected 1]

-- A worker handles an event: it updates the tracker, copies the nodes, then the
-- links, publishes the topology and is done; or it calls the subscribers of a
-- published topology. Whoever publishes first takes a queue and then pushes.
inductive Job (υ κ : Type) where
  | updating (tasks : List (Task υ))
  | linking (key : UInt32 × UInt32) (connected : Bool) (weight : UInt32) (tasks : List (Task υ))
  | calculating (nodes : υ → Option (Node υ))
  | publishing (topology : Published υ)
  | pushing (event : Event υ) (queue : Nat)
  | calling (topology : Published υ) (subscribers : List κ)

-- A topology that is under way: its nodes are copied, it is computed and not yet
-- taken from a queue, or some subscribers still wait for it.
inductive Phase (υ κ : Type) where
  | copied (nodes : υ → Option (Node υ))
  | ready (topology : Published υ)
  | delivering (topology : Published υ) (subscribers : List κ)

def eventPhase : Event υ → Option (Phase υ κ)
  | .topology topology => some (.ready topology)
  | _ => none

def jobPhase : Job υ κ → Option (Phase υ κ)
  | .calculating nodes => some (.copied nodes)
  | .publishing topology => some (.ready topology)
  | .pushing event _ => eventPhase event
  | .calling topology subscribers => some (.delivering topology subscribers)
  | _ => none

def atMost (phase : Option (Phase υ κ)) : Multiset (Phase υ κ) := Multiset.ofList phase.toList

def waiting (events : List (Event υ)) : Multiset (Phase υ κ) := Multiset.ofList (events.filterMap eventPhase)

def carried (jobs : List (Job υ κ)) : Multiset (Phase υ κ) := Threads.gathered jobPhase jobs

def updates : Job υ κ → Bool
  | .updating _ => true
  | .linking _ _ _ _ => true
  | _ => false

lemma waiting_cons (order : one.Perm (event::two)) :
    (waiting one : Multiset (Phase υ κ)) = atMost (eventPhase event) + waiting two := by
  refine (Multiset.coe_eq_coe.mpr (order.filterMap eventPhase)).trans ?_
  rw [List.filterMap_cons]
  cases (eventPhase event : Option (Phase υ κ)) <;> rfl

lemma updates_phase (busy : updates job = true) : jobPhase job = none := by
  cases job with
  | updating tasks => rfl
  | linking key connected weight tasks => rfl
  | _ => cases busy

structure Bus (υ κ : Type) [LinearOrder υ] where
  tracker : State υ
  queues : List (List (Event υ))
  idx : Nat
  last : κ → Option (Published υ)

inductive Call (υ : Type) where
  | linkState (src dst : υ × List UInt8) (connected : Bool)
  | broadcast (message : Message υ)
  | pop (queue : Nat)

def queueSize : Nat := 256

variable [LinearOrder υ]

def topologyOf (walks : Walks υ) (nodes : υ → Option (Node υ)) (links : UInt32 × UInt32 → Option UInt32) : Option (Published υ) :=
  (trackerTopology (walks.nodes nodes) (walks.links links)).map fun topology => ⟨topology,(walks.nodes nodes).map Node.addr⟩

def current (walks : Walks υ) (bus : Bus υ κ) : Option (Published υ) := topologyOf walks bus.tracker.nodes bus.tracker.links

-- mdv_ebus_publish: the next queue in turn is taken, and the event is pushed later.
def publish (bus : Bus υ κ) (event : Event υ) : Job υ κ × Bus υ κ :=
  (.pushing event ((bus.idx + 1) % bus.queues.length),{bus with idx:=(bus.idx + 1) % bus.queues.length})

def push (bus : Bus υ κ) (event : Event υ) (queue : Nat) : Option (Bus υ κ) :=
  match bus.queues[queue]? with
  | some waiting => if waiting.length < queueSize then some {bus with queues:=bus.queues.set queue (waiting ++ [event])} else none
  | none => none

def pop (subscribers : List κ) (bus : Bus υ κ) (queue : Nat) : Option (Option (Job υ κ) × Bus υ κ) :=
  match bus.queues[queue]? with
  | some (event::waiting) =>
    let job := match event with
      | .linkState src dst connected => .updating (linkStateTasks src dst connected)
      | .broadcast message => .updating (broadcastTasks message)
      | .topology topology => .calling topology subscribers
    some (some job,{bus with queues:=bus.queues.set queue waiting})
  | _ => none

-- The mutex sections of the handlers. An operation that fails has no next state.
def perform (bus : Bus υ κ) (tasks : List (Task υ)) : Task υ → Option (Option (Job υ κ) × Bus υ κ)
  | .register uuid addr =>
    match register bus.tracker uuid addr with
    | (.ok,tracker) => some (some (.updating tasks),{bus with tracker:=tracker})
    | _ => none
  | .link (some one) (some two) connected weight => (keyOf bus.tracker (one,two)).map fun key => (some (.linking key connected weight tasks),bus)
  | .link _ _ _ _ => none

def proceed [DecidableEq κ] (walks : Walks υ) (bus : Bus υ κ) : Job υ κ → Option (Option (Job υ κ) × Bus υ κ)
  | .updating (task::tasks) => perform bus tasks task
  | .updating [] => some (some (.calculating bus.tracker.nodes),bus)
  | .linking key connected weight tasks =>
    some (some (.updating tasks),{bus with tracker:=relink bus.tracker key (if connected then some weight else none)})
  | .calculating nodes => (topologyOf walks nodes bus.tracker.links).map fun topology => (some (.publishing topology),bus)
  | .publishing topology =>
    let (job,bus) := publish bus (.topology topology)
    some (some job,bus)
  | .pushing event queue => (push bus event queue).map fun bus => (none,bus)
  | .calling topology (subscriber::subscribers) =>
    some (some (.calling topology subscribers),{bus with last:=update bus.last subscriber (some topology)})
  | .calling _ [] => some (none,bus)

def enter (subscribers : List κ) (bus : Bus υ κ) : Call υ → Option (Option (Job υ κ) × Bus υ κ)
  | .linkState src dst connected =>
    let (job,bus) := publish bus (.linkState src dst connected)
    some (some job,bus)
  | .broadcast message =>
    let (job,bus) := publish bus (.broadcast message)
    some (some job,bus)
  | .pop queue => pop subscribers bus queue

def system [DecidableEq κ] (walks : Walks υ) (subscribers : List κ) : Threads.System (Bus υ κ) (Job υ κ) (Call υ) Unit :=
  ⟨enter subscribers,fun bus job _ => proceed walks bus job⟩

def start (tracker : State υ) (count : Nat) : Pool (Bus υ κ) (Job υ κ) := ⟨⟨tracker,replicate count [],0,fun _ => none⟩,[]⟩

def handling : Job υ κ → Bool
  | .pushing (.linkState _ _ _) _ => false
  | .pushing (.broadcast _) _ => false
  | _ => true

def Quiet (pool : Pool (Bus υ κ) (Job υ κ)) : Prop :=
  (∀ waiting ∈ pool.shared.queues, waiting = []) ∧ ∀ job ∈ pool.threads, handling job = false

def queued (bus : Bus υ κ) : Multiset (Phase υ κ) := waiting bus.queues.flatten

def phases (pool : Pool (Bus υ κ) (Job υ κ)) : Multiset (Phase υ κ) := carried pool.threads + queued pool.shared

def copies (pool : Pool (Bus υ κ) (Job υ κ)) : Action (Call υ) Unit → Bool
  | .proceed index _ =>
    match pool.threads[index]? with
    | some (.updating []) => true
    | _ => false
  | .enter _ => false

-- A topology is computed when no earlier one is under way.
def calm (pool : Pool (Bus υ κ) (Job υ κ)) (action : Action (Call υ) Unit) : Bool := !copies pool action || (phases pool).card = 0

section Queues

variable {queue : Nat} {bus after : Bus υ κ}

lemma flatten_set {α : Type} {queues : List (List α)} {waiting : List α} (found : queues[queue]? = some waiting) :
    ∃ others, queues.flatten.Perm (waiting ++ others) ∧ ∀ changed, (queues.set queue changed).flatten.Perm (changed ++ others) := by
  obtain ⟨inside,is⟩ := List.getElem?_eq_some_iff.mp found
  refine ⟨(queues.take queue).flatten ++ (queues.drop (queue + 1)).flatten,?_,?_⟩
  · have whole : queues = queues.take queue ++ waiting::queues.drop (queue + 1) := by
      rw [← is,List.getElem_cons_drop,take_append_drop]
    have parts : queues.flatten = (queues.take queue).flatten ++ (waiting ++ (queues.drop (queue + 1)).flatten) := by
      conv_lhs => rw [whole,List.flatten_append,List.flatten_cons]
    rw [parts]
    exact List.perm_append_comm_assoc _ _ _
  · intro changed
    rw [List.set_eq_take_append_cons_drop,if_pos inside,List.flatten_append,List.flatten_cons]
    exact List.perm_append_comm_assoc _ _ _

lemma push_queued {event : Event υ} (pushed : push bus event queue = some after) :
    queued after = atMost (eventPhase event) + queued bus ∧ after.tracker = bus.tracker ∧ after.last = bus.last := by
  unfold push at pushed
  split at pushed
  · rename_i waiting found
    split at pushed
    · cases pushed
      obtain ⟨others,before,changed⟩ := flatten_set found
      refine ⟨?_,rfl,rfl⟩
      have parts : (bus.queues.set queue (waiting ++ [event])).flatten.Perm (event::bus.queues.flatten) := by
        refine (changed _).trans ?_
        rw [append_assoc]
        exact perm_middle.trans ((List.perm_cons _).mpr before.symm)
      exact waiting_cons parts
    · cases pushed
  · cases pushed

lemma pop_queued {subscribers : List κ} {job : Option (Job υ κ)} (popped : pop subscribers bus queue = some (job,after)) :
    ∃ event, queued bus = atMost (eventPhase event) + queued after ∧ after.tracker = bus.tracker ∧ after.last = bus.last ∧
      match event with
      | .topology topology => job = some (.calling topology subscribers)
      | _ => ∃ tasks, job = some (.updating tasks) := by
  unfold pop at popped
  split at popped
  · rename_i event waiting found
    obtain ⟨others,before,changed⟩ := flatten_set found
    cases popped
    refine ⟨event,?_,rfl,rfl,?_⟩
    · have parts : bus.queues.flatten.Perm (event::(bus.queues.set queue waiting).flatten) :=
        before.trans ((List.perm_cons _).mpr (changed waiting).symm)
      exact waiting_cons parts
    · cases event with
      | linkState src dst connected => exact ⟨_,rfl⟩
      | broadcast message => exact ⟨_,rfl⟩
      | topology topology => rfl
  · cases popped

end Queues

variable {bus after : Bus υ κ} {new : Option (Job υ κ)}

lemma perform_cases {tasks : List (Task υ)} {task : Task υ}
    (moved : perform bus tasks task = some (new,after)) :
    (∃ job, new = some job ∧ updates job = true) ∧ after.queues = bus.queues ∧ after.last = bus.last := by
  cases task with
  | register uuid addr =>
    simp only [perform] at moved
    split at moved
    · cases moved
      exact ⟨⟨_,rfl,rfl⟩,rfl,rfl⟩
    · cases moved
  | link one two connected weight =>
    cases one with
    | none => cases moved
    | some one =>
      cases two with
      | none => cases moved
      | some two =>
        obtain ⟨key,_,same⟩ := map_eq_some_iff.mp moved
        cases same
        exact ⟨⟨_,rfl,rfl⟩,rfl,rfl⟩

def Updating (pool : Pool (Bus υ κ) (Job υ κ)) : Prop := ∃ job ∈ pool.threads, updates job = true

-- What a topology under way has to do with the tracker, once nobody updates it.
def Fits (walks : Walks υ) (subscribers : List κ) (bus : Bus υ κ) : Phase υ κ → Prop
  | .copied nodes => nodes = bus.tracker.nodes
  | .ready topology => current walks bus = some topology
  | .delivering topology others => current walks bus = some topology ∧ ∀ subscriber ∈ subscribers, subscriber ∈ others ∨ bus.last subscriber = some topology

-- Every subscriber has the topology of the tracker, or nothing has happened yet.
def Received (walks : Walks υ) (subscribers : List κ) (tracker : State υ) (bus : Bus υ κ) : Prop :=
  (∀ subscriber ∈ subscribers, bus.last subscriber = current walks bus) ∨ (bus.tracker = tracker ∧ ∀ subscriber, bus.last subscriber = none)

structure Orderly (walks : Walks υ) (subscribers : List κ) (tracker : State υ) (pool : Pool (Bus υ κ) (Job υ κ)) : Prop where
  few : (phases pool).card ≤ 1
  fits : ¬ Updating pool → ∀ phase ∈ phases pool, Fits walks subscribers pool.shared phase
  received : ¬ Updating pool → phases pool = 0 → Received walks subscribers tracker pool.shared

variable {walks : Walks υ} {subscribers : List κ} {tracker : State υ} {pool next : Pool (Bus υ κ) (Job υ κ)}

lemma single_orderly (is : phases pool = atMost (some phase))
    (fits : ¬ Updating pool → Fits walks subscribers pool.shared phase) : Orderly walks subscribers tracker pool := by
  refine ⟨?_,?_,?_⟩
  · rw [is]
    exact Nat.le_refl 1
  · intro idle other member
    rw [is] at member
    rw [mem_singleton.mp (Multiset.mem_coe.mp member)]
    exact fits idle
  · intro _ none_
    rw [is] at none_
    exact absurd (congrArg Multiset.card none_) Nat.one_ne_zero

lemma current_congr (same : one.tracker = two.tracker) : current walks one = current walks two := by
  rw [current,current,same]

lemma fits_congr (tracker : one.tracker = two.tracker) (last : one.last = two.last)
    (fits : Fits walks subscribers two phase) : Fits walks subscribers one phase := by
  cases phase with
  | copied nodes => exact fits.trans (by rw [tracker])
  | ready topology => exact (current_congr tracker).trans fits
  | delivering topology others =>
    refine ⟨(current_congr tracker).trans fits.1,?_⟩
    rw [last]
    exact fits.2

lemma start_orderly (tracker : State υ) (count : Nat) : Orderly walks subscribers tracker (start tracker count) := by
  have nothing : phases (start tracker count : Pool (Bus υ κ) (Job υ κ)) = 0 := by
    simp [phases,start,carried,queued,waiting]
  refine ⟨by rw [nothing]; exact Nat.zero_le _,?_,?_⟩
  · intro _ phase member
    rw [nothing] at member
    exact absurd member (Multiset.notMem_zero phase)
  · intro _ _
    exact .inr ⟨rfl,fun _ => rfl⟩

lemma quiet_nothing (quiet : Quiet pool) : ¬ Updating pool ∧ phases pool = 0 := by
  obtain ⟨empty,idle⟩ := quiet
  have outside {job : Job υ κ} (member : job ∈ pool.threads) : updates job = false ∧ jobPhase job = none := by
    have still := idle job member
    cases job with
    | pushing event queue =>
      cases event with
      | topology topology => cases still
      | _ => exact ⟨rfl,rfl⟩
    | _ => cases still
  refine ⟨?_,?_⟩
  · intro busy
    obtain ⟨job,member,is⟩ := busy
    rw [(outside member).1] at is
    cases is
  · have queues : pool.shared.queues.flatten = [] := List.flatten_eq_nil_iff.mpr empty
    rw [phases,carried,queued,queues,Threads.gathered_eq_zero fun job member => (outside member).2]
    rfl

variable [DecidableEq κ]

inductive Move (walks : Walks υ) (subscribers : List κ) (before after : Bus υ κ) : Option (Phase υ κ) → Option (Phase υ κ) → Prop where
  | stay {phase} : after.tracker = before.tracker → after.last = before.last → Move walks subscribers before after phase phase
  | calculate {nodes topology} : after.tracker = before.tracker → topologyOf walks nodes before.tracker.links = some topology →
      Move walks subscribers before after (some (.copied nodes)) (some (.ready topology))
  | take {topology} : after.tracker = before.tracker → after.last = before.last →
      Move walks subscribers before after (some (.ready topology)) (some (.delivering topology subscribers))
  | call {topology subscriber others} : after.tracker = before.tracker →
      after.last = update before.last subscriber (some topology) →
      Move walks subscribers before after (some (.delivering topology (subscriber::others))) (some (.delivering topology others))
  | finish {topology} : after.tracker = before.tracker → after.last = before.last →
      Move walks subscribers before after (some (.delivering topology [])) none

lemma proceed_cases (subscribers : List κ) {job : Job υ κ}
    (moved : proceed walks bus job = some (new,after)) :
    ((∃ job, new = some job ∧ updates job = true) ∧ jobPhase job = none ∧ after.queues = bus.queues) ∨
    (job = .updating [] ∧ new = some (.calculating bus.tracker.nodes) ∧ after = bus) ∨
    (updates job = false ∧ ∃ now, Move walks subscribers bus after (jobPhase job) now ∧
      atMost (new.bind jobPhase) + queued after = atMost now + queued bus) := by
  cases job with
  | updating tasks =>
    cases tasks with
    | nil =>
      cases moved
      exact .inr (.inl ⟨rfl,rfl,rfl⟩)
    | cons task tasks =>
      obtain ⟨busy,queues,_⟩ := perform_cases moved
      exact .inl ⟨busy,rfl,queues⟩
  | linking key connected weight tasks =>
    cases moved
    exact .inl ⟨⟨_,rfl,rfl⟩,rfl,rfl⟩
  | calculating nodes =>
    obtain ⟨topology,is,same⟩ := map_eq_some_iff.mp moved
    cases same
    exact .inr (.inr ⟨rfl,some (.ready topology),.calculate rfl is,rfl⟩)
  | publishing topology =>
    cases moved
    exact .inr (.inr ⟨rfl,some (.ready topology),.stay rfl rfl,rfl⟩)
  | pushing event queue =>
    obtain ⟨pushed,is,same⟩ := map_eq_some_iff.mp moved
    cases same
    obtain ⟨order,tracker,last⟩ := push_queued is
    exact .inr (.inr ⟨rfl,eventPhase event,.stay tracker last,order⟩)
  | calling topology others =>
    cases others with
    | nil =>
      cases moved
      exact .inr (.inr ⟨rfl,none,.finish rfl rfl,rfl⟩)
    | cons subscriber others =>
      cases moved
      exact .inr (.inr ⟨rfl,some (.delivering topology others),.call rfl rfl,rfl⟩)

lemma step_moves {action : Action (Call υ) Unit} (moved : step (system walks subscribers) pool action = some next) :
    (Updating next ∧ phases next = phases pool) ∨
    (copies pool action = true ∧ phases next = atMost (some (.copied next.shared.tracker.nodes)) + phases pool) ∨
    ((Updating pool → Updating next) ∧ ∃ old now others, Move walks subscribers pool.shared next.shared old now ∧
      phases pool = atMost old + others ∧ phases next = atMost now + others) := by
  rcases Threads.step_cases moved with ⟨call,thread,rfl,entered,threads⟩ | ⟨index,choice,job,after,others,rfl,found,before,went,threads⟩
  · have grown : phases next = atMost (thread.bind jobPhase) + carried pool.threads + queued next.shared := by
      rw [phases,carried,gathered_perm threads,Threads.gathered_append]
      rfl
    have still (busy : Updating pool) : Updating next := by
      obtain ⟨job,member,is⟩ := busy
      exact ⟨job,threads.mem_iff.mpr (mem_append_right _ member),is⟩
    have outside {event : Event υ} (external : eventPhase event = (none : Option (Phase υ κ)))
        (same : some (some (publish pool.shared event).1,(publish pool.shared event).2) = some (thread,next.shared)) :
        ∃ old now others, Move walks subscribers pool.shared next.shared old now ∧
          phases pool = atMost old + others ∧ phases next = atMost now + others := by
      obtain ⟨rfl,shared⟩ := Prod.mk.inj (Option.some.inj same)
      refine ⟨none,none,phases pool,.stay (by rw [← shared]; rfl) (by rw [← shared]; rfl),(zero_add _).symm,?_⟩
      rw [grown,← shared]
      change atMost (eventPhase event) + carried pool.threads + queued pool.shared = _
      rw [external]
      exact add_assoc _ _ _
    cases call with
    | linkState src dst connected => exact .inr (.inr ⟨still,outside rfl entered⟩)
    | broadcast message => exact .inr (.inr ⟨still,outside rfl entered⟩)
    | pop queue =>
      obtain ⟨event,order,tracker,last,job⟩ := pop_queued entered
      cases event with
      | topology topology =>
        rw [job] at grown
        refine .inr (.inr ⟨still,some (.ready topology),some (.delivering topology subscribers),carried pool.threads + queued next.shared,
          .take tracker last,?_,?_⟩)
        · rw [phases,order]
          exact add_left_comm _ _ _
        · rw [grown]
          exact add_assoc _ _ _
      | _ =>
        obtain ⟨tasks,rfl⟩ := job
        refine .inl ⟨⟨.updating tasks,threads.mem_iff.mpr mem_cons_self,rfl⟩,?_⟩
        rw [grown,phases,order]
        rfl
  · have was : phases pool = atMost (jobPhase job) + carried others + queued pool.shared := by
      rw [phases,carried,gathered_perm before,Threads.gathered_cons]
      rfl
    have is : phases next = atMost (after.bind jobPhase) + carried others + queued next.shared := by
      rw [phases,carried,gathered_perm threads,Threads.gathered_append]
      rfl
    rcases proceed_cases subscribers went with ⟨⟨busy,rfl,busyIs⟩,idle,queues⟩ | ⟨rfl,rfl,still⟩ | ⟨idle,now,move,order⟩
    · refine .inl ⟨⟨busy,threads.mem_iff.mpr mem_cons_self,busyIs⟩,?_⟩
      rw [is,was,idle,bind_some,updates_phase busyIs,queued,queued,queues]
    · refine .inr (.inl ⟨?_,?_⟩)
      · simp only [copies,found]
      · rw [is,was,still,add_assoc,add_assoc]
        rfl
    · refine .inr (.inr ⟨?_,jobPhase job,now,carried others + queued pool.shared,move,?_,?_⟩)
      · intro updating
        obtain ⟨other,member,busy⟩ := updating
        rcases mem_cons.mp (before.mem_iff.mp member) with rfl | among
        · rw [idle] at busy
          cases busy
        · exact ⟨other,threads.mem_iff.mpr (mem_append_right _ among),busy⟩
      · rw [was,add_assoc]
      · rw [is,add_right_comm,order,add_right_comm,add_assoc]

lemma move_orderly (orderly : Orderly walks subscribers tracker pool)
    (back : Updating pool → Updating next) (move : Move walks subscribers pool.shared next.shared old now)
    (was : phases pool = atMost old + others) (is : phases next = atMost now + others) : Orderly walks subscribers tracker next := by
  have few := orderly.few
  have before (idle : ¬ Updating next) : ¬ Updating pool := fun busy => idle (back busy)
  have fits (idle : ¬ Updating next) {phase : Phase υ κ} (here : old = some phase) : Fits walks subscribers pool.shared phase := by
    refine orderly.fits (before idle) phase ?_
    rw [was,here]
    exact Multiset.mem_add.mpr (.inl (Multiset.mem_coe.mpr mem_cons_self))
  have alone {phase : Phase υ κ} (here : old = some phase) : phases next = atMost now := by
    rw [was,here,Multiset.card_add] at few
    have one : (atMost (some phase)).card = 1 := rfl
    have nothing : others = 0 := Multiset.card_eq_zero.mp (by omega)
    rw [is,nothing,add_zero]
  cases move with
  | stay sameTracker sameLast =>
    have same : phases next = phases pool := is.trans was.symm
    refine ⟨same ▸ few,?_,?_⟩
    · intro idle phase member
      rw [same] at member
      exact fits_congr sameTracker sameLast (orderly.fits (before idle) phase member)
    · intro idle nothing
      rw [same] at nothing
      rw [Received,current_congr sameTracker,sameTracker,sameLast]
      exact orderly.received (before idle) nothing
  | calculate sameTracker computed =>
    refine single_orderly (alone rfl) fun idle => ?_
    have nodes : _ = pool.shared.tracker.nodes := fits idle rfl
    rw [nodes] at computed
    exact (current_congr sameTracker).trans computed
  | take sameTracker sameLast =>
    refine single_orderly (alone rfl) fun idle => ⟨(current_congr sameTracker).trans (fits idle rfl),?_⟩
    intro subscriber member
    exact .inl member
  | @call topology subscriber others sameTracker last =>
    refine single_orderly (alone rfl) fun idle => ?_
    obtain ⟨now,given⟩ := fits idle rfl
    refine ⟨(current_congr sameTracker).trans now,?_⟩
    intro other member
    rw [last]
    by_cases same : other = subscriber
    · rw [same,update_self]
      exact .inr rfl
    · rw [update_of_ne same]
      rcases given other member with waits | has
      · exact .inl ((mem_cons.mp waits).resolve_left same)
      · exact .inr has
  | finish sameTracker sameLast =>
    have nothing : phases next = 0 := alone rfl
    refine ⟨by rw [nothing]; exact Nat.zero_le _,?_,?_⟩
    · intro _ phase member
      rw [nothing] at member
      exact absurd member (Multiset.notMem_zero phase)
    · intro idle _
      obtain ⟨now,given⟩ := fits idle rfl
      refine .inl ?_
      intro subscriber member
      rw [sameLast,current_congr sameTracker,now]
      exact (given subscriber member).resolve_left not_mem_nil

lemma step_orderly (orderly : Orderly walks subscribers tracker pool)
    (moved : Machine.only calm (step (system walks subscribers)) pool action = some next) : Orderly walks subscribers tracker next := by
  obtain ⟨accepted,went⟩ := Machine.only_some moved
  rcases step_moves went with ⟨busy,same⟩ | ⟨copying,same⟩ | ⟨back,old,now,others,move,was,is⟩
  · exact ⟨same ▸ orderly.few,fun idle => absurd busy idle,fun idle => absurd busy idle⟩
  · have nothing : phases pool = 0 := by
      simpa [calm,copying] using accepted
    rw [nothing,add_zero] at same
    exact single_orderly same fun _ => rfl
  · exact move_orderly orderly back move was is

theorem subscribers_have_current (walks : Walks υ) (subscribers : List κ) (tracker : State υ) (count : Nat)
    (reached : Machine.Reached (Machine.only calm (step (system walks subscribers))) (start tracker count) pool) (quiet : Quiet pool) :
    Received walks subscribers tracker pool.shared := by
  obtain ⟨idle,nothing⟩ := quiet_nothing quiet
  have orderly : Orderly walks subscribers tracker pool :=
    Machine.reached_invariant (start_orderly tracker count) (fun _ _ _ holds moved => step_orderly holds moved) reached
  exact orderly.received idle nothing

def threeWalks : Walks Nat :=
  ⟨fun nodes => [7,1,2].filterMap nodes,fun links => [(0,1),(0,2),(1,2)].filterMap fun key => (links key).map fun weight => (key,weight)⟩

def oneReport : List (Action (Call Nat) Unit) :=
  [.enter (.linkState (7,[55]) (1,[49]) true),.proceed 0 (),.enter (.pop 1),.proceed 0 (),.proceed 0 (),.proceed 0 (),.proceed 0 (),.proceed 0 (),.proceed 0 (),
    .proceed 0 (),.proceed 0 (),.enter (.pop 0),.proceed 0 (),.proceed 0 (),.proceed 0 ()]

theorem report_received :
    ∃ pool, Machine.Reached (Machine.only calm (step (system threeWalks [1,2]))) (start threeNodes 2) pool ∧ Quiet pool ∧
      Received threeWalks [1,2] threeNodes pool.shared := by
  have quiet : ∃ pool : Pool (Bus Nat Nat) (Job Nat Nat),
      oneReport.foldlM (Machine.only calm (step (system threeWalks [1,2]))) (start threeNodes 2) = some pool ∧ Quiet pool := by
    refine ⟨_,rfl,?_,?_⟩
    · decide
    · decide
  obtain ⟨pool,ran,still⟩ := quiet
  exact ⟨pool,⟨oneReport,ran⟩,still,subscribers_have_current threeWalks [1,2] threeNodes 2 ⟨oneReport,ran⟩ still⟩

-- Two links are reported, and the worker with the older topology calls the subscriber last.
def twoReports : List (Action (Call Nat) Unit) :=
  [.enter (.linkState (7,[55]) (1,[49]) true),.proceed 0 (),.enter (.linkState (7,[55]) (2,[50]) true),.proceed 0 (),
    .enter (.pop 1),.proceed 0 (),.proceed 0 (),.proceed 0 (),.proceed 0 (),.proceed 0 (),.proceed 0 (),
    .enter (.pop 0),.proceed 1 (),.proceed 1 (),.proceed 1 (),.proceed 1 (),.proceed 1 (),.proceed 1 (),
    .proceed 0 (),.proceed 0 (),.proceed 0 (),.proceed 0 (),.enter (.pop 1),.enter (.pop 0),.proceed 1 (),.proceed 1 (),.proceed 0 (),.proceed 0 ()]

theorem late_worker_leaves_old_topology :
    ∃ pool, Machine.Reached (step (system threeWalks [1])) (start threeNodes 2) pool ∧ Quiet pool ∧
      (pool.shared.last 1).map (fun received => received.topology.links.length) = some 1 ∧
      (current threeWalks pool.shared).map (fun now => now.topology.links.length) = some 2 := by
  refine ⟨_,⟨twoReports,rfl⟩,⟨?_,?_⟩,?_,?_⟩
  · decide
  · decide
  · decide +kernel
  · decide +kernel

end MedvedDB.TopologyEvents
