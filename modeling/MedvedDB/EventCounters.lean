import MedvedDB.Threads

open MedvedDB.Machine
namespace MedvedDB.EventCounters

open Threads (Action Pool step step_cases)

-- MDV_EBUS_QUEUE_SIZE and MDV_EBUS_QUEUE_PUSH_ATTEMPTS
def queueSize : Nat := 256

def pushAttempts : Nat := 64

inductive Errno where
  | ok | failed | eexist
  deriving DecidableEq, Repr

inductive Flags where
  | default | unique | sync
  deriving DecidableEq, Repr

-- The queues hold the types of their events. `returned` is a history: what the
-- publications returned that do not run the handlers themselves.
structure Bus (size : Nat) where
  eventsCount : Nat
  eventsGen : Nat → Nat
  idx : Nat
  queues : Fin size → List Nat
  returned : List (Nat × Errno)

-- A publication before and after its change of the counter, and a worker with
-- the event it has popped.
inductive Thread (size : Nat) where
  | counting (type : Nat) (unique : Bool)
  | loading (type : Nat)
  | swapping (type seen : Nat)
  | pushing (type : Nat) (queue : Fin size) (attempt : Nat)
  | popped (type : Nat)
  | processing (type : Nat)
  deriving DecidableEq, Repr

inductive Call (size : Nat) where
  | publish (type : Nat) (flags : Flags)
  | handle (queue : Fin size) (locks : Bool)
  deriving DecidableEq, Repr

structure Choice where
  locks : Bool := true
  spurious : Bool := false
  deriving DecidableEq, Repr

variable {size : Nat}

def answer (bus : Bus size) (type : Nat) (errno : Errno) : Bus size := {bus with returned:=bus.returned ++ [(type,errno)]}

def setGen (bus : Bus size) (type value : Nat) : Bus size := {bus with eventsGen:=fun other => if other = type then value else bus.eventsGen other}

def setQueue (bus : Bus size) (queue : Fin size) (events : List Nat) : Bus size := {bus with queues:=fun other => if other = queue then events else bus.queues other}

def enter (bus : Bus size) : Call size → Option (Option (Thread size) × Bus size)
  | .publish type flags =>
    if bus.eventsCount ≤ type then some (none,answer bus type .failed)
    else match flags with
      | .sync => some (some (.processing type),bus)
      | .unique => some (some (.counting type true),bus)
      | .default => some (some (.counting type false),bus)
  | .handle queue locks =>
    match locks,bus.queues queue with
    | true,type::rest => some (some (.popped type),setQueue bus queue rest)
    | _,_ => some (none,bus)

def nextQueue [NeZero size] (seen : Nat) : Fin size := ⟨(seen + 1) % size,mod_lt _ (Nat.pos_of_neZero size)⟩

def proceed [NeZero size] (bus : Bus size) (thread : Thread size) (choice : Choice) : Option (Option (Thread size) × Bus size) :=
  match thread with
  | .counting type true =>
    if bus.eventsGen type = 0 then some (some (.loading type),setGen bus type 1) else some (none,answer bus type .eexist)
  | .counting type false => some (some (.loading type),setGen bus type (bus.eventsGen type + 1))
  | .loading type => some (some (.swapping type bus.idx),bus)
  | .swapping type seen =>
    if bus.idx = seen ∧ choice.spurious = false then some (some (.pushing type (nextQueue seen) 0),{bus with idx:=(seen + 1) % size})
    else some (some (.swapping type bus.idx),bus)
  | .pushing type queue attempt =>
    if choice.locks = true ∧ (bus.queues queue).length < queueSize then some (none,answer (setQueue bus queue (bus.queues queue ++ [type])) type .ok)
    else if attempt + 1 < pushAttempts then some (some (.pushing type queue (attempt + 1)),bus)
    else some (none,answer bus type .failed)
  | .popped type => some (some (.processing type),setGen bus type (bus.eventsGen type - 1))
  | .processing _ => some (none,bus)

def system (size : Nat) [NeZero size] : Threads.System (Bus size) (Thread size) (Call size) Choice := ⟨enter,proceed⟩

def start (size eventsCount : Nat) : Pool (Bus size) (Thread size) := ⟨⟨eventsCount,fun _ => 0,0,fun _ => [],[]⟩,[]⟩

def holding : Thread size → Option Nat
  | .loading type | .swapping type _ | .pushing type _ _ | .popped type => some type
  | .counting _ _ | .processing _ => none

def queued (bus : Bus size) (type : Nat) : Nat := ∑ queue, (bus.queues queue).count type

def failures (bus : Bus size) (type : Nat) : Nat := bus.returned.count (type,.failed)

def own (held : Option Nat) (type : Nat) : Nat := if held = some type then 1 else 0

@[simp] lemma own_none (type : Nat) : own none type = 0 := rfl

@[simp] lemma own_some (other type : Nat) : own (some other) type = if other = type then 1 else 0 := by
  simp only [own,some_inj]

lemma queued_setQueue (bus : Bus size) (queue : Fin size) (events : List Nat) (type : Nat) :
    queued (setQueue bus queue events) type + (bus.queues queue).count type = queued bus type + events.count type := by
  have others : ∑ other ∈ Finset.univ.erase queue, ((setQueue bus queue events).queues other).count type =
      ∑ other ∈ Finset.univ.erase queue, (bus.queues other).count type := by
    apply Finset.sum_congr rfl
    intro other member
    simp only [setQueue,if_neg (Finset.ne_of_mem_erase member)]
  have here : (setQueue bus queue events).queues queue = events := if_pos rfl
  rw [queued,queued,← Finset.add_sum_erase _ _ (Finset.mem_univ queue),← Finset.add_sum_erase _ _ (Finset.mem_univ queue),others,here]
  omega

lemma failures_answer (bus : Bus size) (type other : Nat) (errno : Errno) :
    failures (answer bus other errno) type = failures bus type + if (other,errno) = (type,.failed) then 1 else 0 := by
  simp only [failures,answer,List.count_append,List.count_singleton,beq_iff_eq]

def Balance (type : Nat) (bus next : Bus size) (held after : Option Nat) : Prop :=
  next.eventsGen type + (queued bus type + own held type + failures bus type) = bus.eventsGen type + (queued next type + own after type + failures next type)

variable {bus next : Bus size} {call : Call size} {choice : Choice} {other type : Nat} {after thread : Option (Thread size)}
variable {pool : Pool (Bus size) (Thread size)}

lemma setGen_raised (more : value = bus.eventsGen other + 1) (type : Nat) :
    Balance type bus (setGen bus other value) none (some other) := by
  change (if type = other then value else bus.eventsGen type) + _ = _ + (queued bus type + _ + failures bus type)
  rw [own_none,own_some]
  by_cases same : other = type
  · subst same
    simp only [if_pos]
    omega
  · rw [if_neg same,if_neg (Ne.symm same)]

lemma setGen_lowered (positive : other = type → 0 < bus.eventsGen other) :
    Balance type bus (setGen bus other (bus.eventsGen other - 1)) (some other) none := by
  change (if type = other then _ else bus.eventsGen type) + _ = _ + (queued bus type + _ + failures bus type)
  rw [own_none,own_some]
  by_cases same : other = type
  · have some := positive same
    subst same
    simp only [if_pos]
    omega
  · rw [if_neg same,if_neg (Ne.symm same)]

lemma Balance.trans {middle : Bus size} {held between after : Option Nat} (first : Balance type bus middle held between)
    (second : Balance type middle next between after) : Balance type bus next held after := by
  rw [Balance] at first second ⊢
  omega

lemma queue_popped (events : bus.queues queue = other::rest) (type : Nat) :
    Balance type bus (setQueue bus queue rest) none (some other) := by
  have moved := queued_setQueue bus queue rest type
  rw [events,List.count_cons] at moved
  simp only [beq_iff_eq] at moved
  change bus.eventsGen type + _ = bus.eventsGen type + (_ + _ + failures bus type)
  rw [own_none,own_some]
  omega

lemma queue_pushed (bus : Bus size) (queue : Fin size) (other type : Nat) :
    Balance type bus (setQueue bus queue (bus.queues queue ++ [other])) (some other) none := by
  have moved := queued_setQueue bus queue (bus.queues queue ++ [other]) type
  rw [List.count_append,List.count_singleton] at moved
  simp only [beq_iff_eq] at moved
  change bus.eventsGen type + _ = bus.eventsGen type + (_ + _ + failures bus type)
  rw [own_none,own_some]
  omega

lemma answer_other (bus : Bus size) (apart : (other,errno) ≠ (type,.failed)) :
    Balance type bus (answer bus other errno) none none := by
  rw [Balance,failures_answer,if_neg apart]
  rfl

lemma answer_failed (bus : Bus size) (other type : Nat) : Balance type bus (answer bus other .failed) (some other) none := by
  change bus.eventsGen type + _ = bus.eventsGen type + (queued bus type + _ + _)
  rw [failures_answer,own_none,own_some]
  simp only [Prod.mk.injEq,and_true]
  omega

lemma enter_count (entered : enter bus call = some (thread,next)) :
    next.eventsCount = bus.eventsCount := by
  cases call with
  | publish other flags =>
    simp only [enter] at entered
    split at entered
    · cases entered
      rfl
    · cases flags <;> cases entered <;> rfl
  | handle queue locks =>
    simp only [enter] at entered
    split at entered <;> cases entered <;> rfl

lemma enter_balance (known : type < bus.eventsCount)
    (entered : enter bus call = some (thread,next)) : Balance type bus next none (thread.bind holding) := by
  cases call with
  | publish other flags =>
    simp only [enter] at entered
    split at entered
    · rename_i unknown
      cases entered
      apply answer_other
      intro same
      cases same
      exact absurd known (Nat.not_lt.mpr unknown)
    · cases flags <;> cases entered <;> rfl
  | handle queue locks =>
    simp only [enter] at entered
    split at entered
    · cases entered
      exact queue_popped ‹_› type
    · cases entered
      rfl

lemma enter_failures (known : type < bus.eventsCount)
    (entered : enter bus call = some (thread,next)) : failures next type = failures bus type := by
  cases call with
  | publish other flags =>
    simp only [enter] at entered
    split at entered
    · rename_i unknown
      cases entered
      have apart : (other,Errno.failed) ≠ (type,Errno.failed) := by
        intro same
        cases same
        exact absurd known (Nat.not_lt.mpr unknown)
      rw [failures_answer,if_neg apart,Nat.add_zero]
    · cases flags <;> cases entered <;> rfl
  | handle queue locks =>
    simp only [enter] at entered
    split at entered <;> cases entered <;> rfl

def heldCount (threads : List (Thread size)) (type : Nat) : Nat := (Threads.gathered holding threads).count type

section Held

variable {threads others : List (Thread size)}

lemma count_own (held : Option Nat) (type : Nat) : (Multiset.ofList held.toList).count type = own held type := by
  cases held with
  | none => rfl
  | some other => simp [own,Multiset.count_singleton,eq_comm]

lemma heldCount_perm (order : threads.Perm others) (type : Nat) : heldCount threads type = heldCount others type := by
  rw [heldCount,Threads.gathered_perm order]
  rfl

lemma heldCount_append (thread : Option (Thread size)) (others : List (Thread size)) (type : Nat) :
    heldCount (thread.toList ++ others) type = own (thread.bind holding) type + heldCount others type := by
  rw [heldCount,Threads.gathered_append,Multiset.count_add,count_own]
  rfl

lemma heldCount_rest (rest : ∀ thread ∈ threads, holding thread = none) (type : Nat) : heldCount threads type = 0 := by
  rw [heldCount,Threads.gathered_eq_zero rest]
  rfl

end Held

def Counted (pool : Pool (Bus size) (Thread size)) : Prop :=
  ∀ type < pool.shared.eventsCount, pool.shared.eventsGen type = queued pool.shared type + heldCount pool.threads type + failures pool.shared type

variable [NeZero size]

variable {thread : Thread size} {eventsCount : Nat}

lemma proceed_count (moved : proceed bus thread choice = some (after,next)) : next.eventsCount = bus.eventsCount := by
  unfold proceed at moved
  split at moved
  all_goals first
    | (cases moved; rfl)
    | (split_ifs at moved <;> cases moved <;> rfl)

lemma proceed_balance (positive : holding thread = some type → 0 < bus.eventsGen type) (moved : proceed bus thread choice = some (after,next)) :
    Balance type bus next (holding thread) (after.bind holding) := by
  cases thread with
  | counting other unique =>
    cases unique with
    | true =>
      simp only [proceed] at moved
      split at moved
      · rename_i zero
        cases moved
        exact setGen_raised (by rw [zero]) type
      · cases moved
        exact answer_other bus (by simp)
    | false =>
      cases moved
      exact setGen_raised rfl type
  | loading other | processing other =>
    cases moved
    rfl
  | swapping other seen =>
    simp only [proceed] at moved
    split at moved <;> cases moved <;> rfl
  | pushing other queue attempt =>
    simp only [proceed] at moved
    split at moved
    · cases moved
      exact (queue_pushed bus queue other type).trans (answer_other _ (by simp))
    · split at moved <;> cases moved
      · rfl
      · exact answer_failed bus other type
  | popped other =>
    cases moved
    exact setGen_lowered fun same => same ▸ positive (congrArg some same)

lemma step_counted {next : Pool (Bus size) (Thread size)} {action : Action (Call size) Choice} (counted : Counted pool)
    (moved : step (system size) pool action = some next) : Counted next := by
  intro type known
  rcases step_cases moved with ⟨call,thread,_,entered,order⟩ | ⟨_,choice,thread,after,others,_,_,before,went,order⟩
  · rw [enter_count entered] at known
    have balance := enter_balance known entered
    have now := counted type known
    rw [heldCount_perm order,heldCount_append]
    rw [Balance,own_none] at balance
    omega
  · rw [proceed_count went] at known
    have now := counted type known
    rw [heldCount_perm before,← singleton_append,← toList_some,heldCount_append,bind_some] at now
    have positive : holding thread = some type → 0 < pool.shared.eventsGen type := by
      intro held
      rw [held,own_some,if_pos rfl] at now
      omega
    have balance := proceed_balance positive went
    rw [heldCount_perm order,heldCount_append]
    rw [Balance] at balance
    omega

lemma reached_counted (reached : Reached (step (system size)) (start size eventsCount) pool) : Counted pool := by
  apply reached_invariant ?_ (fun _ _ _ => step_counted) reached
  intro type _
  simp [start,queued,heldCount,failures]

def spared (pool : Pool (Bus size) (Thread size)) : Action (Call size) Choice → Bool
  | .enter _ => true
  | .proceed index choice =>
    match pool.threads[index]? with
    | some (.pushing _ queue attempt) => attempt + 1 < pushAttempts || (choice.locks && (pool.shared.queues queue).length < queueSize)
    | _ => true

lemma proceed_failures {index : Nat}
    (safe : spared pool (.proceed index choice) = true) (found : pool.threads[index]? = some thread) (moved : proceed pool.shared thread choice = some (after,next)) (type : Nat) :
    failures next type = failures pool.shared type := by
  cases thread with
  | counting other unique =>
    cases unique with
    | true =>
      simp only [proceed] at moved
      split at moved <;> cases moved
      · rfl
      · rw [failures_answer,if_neg (by simp),Nat.add_zero]
    | false =>
      cases moved
      rfl
  | loading other | popped other | processing other =>
    cases moved
    rfl
  | swapping other seen =>
    simp only [proceed] at moved
    split at moved <;> cases moved <;> rfl
  | pushing other queue attempt =>
    simp only [proceed] at moved
    split at moved
    · cases moved
      rw [failures_answer,if_neg (by simp),Nat.add_zero]
      rfl
    · rename_i full
      split at moved <;> cases moved
      · rfl
      · rename_i last
        have fits : attempt + 1 < pushAttempts ∨ choice.locks = true ∧ (pool.shared.queues queue).length < queueSize := by simpa [spared,found] using safe
        exact absurd fits (not_or.mpr ⟨last,full⟩)

lemma spared_failures (reached : Reached (only spared (step (system size))) (start size eventsCount) pool) : ∀ type < pool.shared.eventsCount, failures pool.shared type = 0 := by
  apply reached_invariant ?_ ?_ reached
  · intro type _
    rfl
  · intro before action next clean moved type known
    obtain ⟨safe,went⟩ := only_some moved
    rcases step_cases went with ⟨call,thread,_,entered,_⟩ | ⟨index,choice,thread,after,_,rfl,found,_,went,_⟩
    · rw [enter_count entered] at known
      rw [enter_failures known entered]
      exact clean type known
    · rw [proceed_count went] at known
      rw [proceed_failures safe found went]
      exact clean type known

def AtRest (pool : Pool (Bus size) (Thread size)) : Prop := ∀ thread ∈ pool.threads, holding thread = none

theorem counters_exact {eventsCount : Nat} {pool : Pool (Bus size) (Thread size)}
    (reached : Reached (only spared (step (system size))) (start size eventsCount) pool) (rest : AtRest pool) {type : Nat} (known : type < pool.shared.eventsCount) :
    pool.shared.eventsGen type = queued pool.shared type ∧
      ∀ index choice next, pool.threads[index]? = some (.counting type true) → step (system size) pool (.proceed index choice) = some next →
        next.shared.returned = pool.shared.returned ++ [(type,.eexist)] → 0 < queued pool.shared type := by
  have equal : pool.shared.eventsGen type = queued pool.shared type := by
    rw [reached_counted reached.of_only type known,heldCount_rest rest,spared_failures reached type known,Nat.add_zero]
  refine ⟨equal,?_⟩
  intro index choice next found moved answered
  rw [← equal]
  apply Nat.pos_of_ne_zero
  intro zero
  simp only [step,found,system,proceed,zero,if_true,map_some,some_inj] at moved
  rw [← moved] at answered
  exact absurd answered (by simp [setGen])

section Traces

abbrev Single := Pool (Bus 1) (Thread 1)

def twoUnique : List (Action (Call 1) Choice) :=
  .enter (.publish 0 .unique)::replicate 4 (.proceed 0 {}) ++ [.enter (.publish 0 .unique)]

def answers (pool : Single) : List (Nat × Errno) × List (Thread 1) × Nat := (pool.shared.returned,pool.threads,pool.shared.eventsCount)

theorem second_unique_refused : ∃ pool next : Single, Reached (only spared (step (system 1))) (start 1 1) pool ∧
    step (system 1) pool (.proceed 0 {}) = some next ∧ next.shared.returned = pool.shared.returned ++ [(0,.eexist)] ∧
      pool.shared.eventsGen 0 = queued pool.shared 0 ∧ 0 < queued pool.shared 0 := by
  have runs : (twoUnique.foldlM (only spared (step (system 1))) (start 1 1)).map
      (fun pool => (answers pool,(step (system 1) pool (.proceed 0 {})).map answers)) =
        some (([(0,.ok)],[.counting 0 true],1),some ([(0,.ok),(0,.eexist)],[],1)) := rfl
  obtain ⟨pool,ran,seen⟩ := map_eq_some_iff.mp runs
  obtain ⟨before,after⟩ := Prod.mk.inj seen
  obtain ⟨next,moved,later⟩ := map_eq_some_iff.mp after
  simp only [answers,Prod.mk.injEq] at before later
  obtain ⟨returned,threads,count⟩ := before
  have rest : AtRest pool := by simp [AtRest,threads,holding]
  have known : 0 < pool.shared.eventsCount := by simp [count]
  have found : pool.threads[0]? = some (.counting 0 true) := by simp [threads]
  have answered : next.shared.returned = pool.shared.returned ++ [(0,.eexist)] := by simp [later.1,returned]
  obtain ⟨equal,refused⟩ := counters_exact ⟨twoUnique,ran⟩ rest known
  exact ⟨pool,next,⟨twoUnique,ran⟩,moved,answered,equal,refused 0 {} next found moved answered⟩

def filled (gen : Nat → Nat) (returned : List (Nat × Errno)) (count : Nat) : Bus 1 := ⟨2,gen,0,fun _ => replicate count 1,returned⟩

variable {bus : Bus 1} {gen : Nat → Nat} {returned : List (Nat × Errno)}

lemma single_step {next : Bus 1} {thread : Thread 1} {choice : Choice} {after : Option (Thread 1)} (went : proceed bus thread choice = some (after,next)) :
    step (system 1) ⟨bus,[thread]⟩ (.proceed 0 choice) = some ⟨next,after.toList⟩ := Threads.step_single went

variable {count : Nat}

lemma publish_raises {type : Nat} (known : type < 2) :
    Reached (step (system 1)) ⟨filled gen returned count,[]⟩ ⟨setGen (filled gen returned count) type (gen type + 1),[.pushing type 0 0]⟩ := by
  let raised : Bus 1 := setGen (filled gen returned count) type (gen type + 1)
  have entered : step (system 1) ⟨filled gen returned count,[]⟩ (.enter (.publish type .default)) = some ⟨filled gen returned count,[.counting type false]⟩ := by
    simp only [step,system,enter]
    rw [if_neg (show ¬ (filled gen returned count).eventsCount ≤ type from Nat.not_le.mpr known)]
    rfl
  have counted : proceed (filled gen returned count) (.counting type false) {} = some (some (.loading type),raised) := rfl
  have loaded : proceed raised (.loading type) {} = some (some (.swapping type 0),raised) := rfl
  have swapped : proceed raised (.swapping type 0) {} = some (some (.pushing type 0 0),raised) := rfl
  exact .head entered (.head (single_step counted) (.head (single_step loaded) (.head (single_step swapped) (.refl _ _))))

lemma publish_fills (room : count < queueSize) :
    Reached (step (system 1)) ⟨filled gen returned count,[]⟩
      ⟨filled (fun other => if other = 1 then gen 1 + 1 else gen other) (returned ++ [(1,.ok)]) (count + 1),[]⟩ := by
  let raised : Bus 1 := setGen (filled gen returned count) 1 (gen 1 + 1)
  have pushed : proceed raised (.pushing 1 0 0) {} =
      some (none,filled (fun other => if other = 1 then gen 1 + 1 else gen other) (returned ++ [(1,.ok)]) (count + 1)) := by
    have space : (raised.queues 0).length < queueSize := List.length_replicate.symm ▸ room
    have longer : (fun other => if other = 0 then raised.queues 0 ++ [1] else raised.queues other) = fun _ => replicate (count + 1) 1 := by
      funext other
      rw [Subsingleton.elim other 0,if_pos rfl,List.replicate_succ']
      rfl
    rw [proceed,if_pos ⟨rfl,space⟩,answer,setQueue,longer]
    rfl
  exact (publish_raises Nat.one_lt_two).trans (.head (single_step pushed) (.refl _ _))

lemma queue_fills (room : count ≤ queueSize) :
    ∃ gen returned, gen 0 = 0 ∧ Reached (step (system 1)) (start 1 2) ⟨filled gen returned count,[]⟩ := by
  induction count with
  | zero => exact ⟨fun _ => 0,[],rfl,.refl _ _⟩
  | succ count ih =>
    obtain ⟨gen,returned,zero,reached⟩ := ih (Nat.le_of_succ_le room)
    exact ⟨fun other => if other = 1 then gen 1 + 1 else gen other,_,zero,reached.trans (publish_fills room)⟩

lemma attempts_fail (full : (bus.queues 0).length = queueSize) (type : Nat) {attempt : Nat} (left : attempt < pushAttempts) :
    Reached (step (system 1)) ⟨bus,[.pushing type 0 attempt]⟩ ⟨answer bus type .failed,[]⟩ := by
  induction remaining : pushAttempts - attempt generalizing attempt with
  | zero => omega
  | succ remaining ih =>
    have crowded : ¬ (({} : Choice).locks = true ∧ (bus.queues 0).length < queueSize) := by simp [full]
    by_cases last : attempt + 1 < pushAttempts
    · have again : proceed bus (.pushing type 0 attempt) {} = some (some (.pushing type 0 (attempt + 1)),bus) := (if_neg crowded).trans (if_pos last)
      exact .head (single_step again) (ih last (by omega))
    · have ended : proceed bus (.pushing type 0 attempt) {} = some (none,answer bus type .failed) := (if_neg crowded).trans (if_neg last)
      exact .head (single_step ended) (.refl _ _)

-- The failed publication stays counted, and a unique one is refused although no
-- event of its type is queued.
theorem failed_publication_counted : ∃ pool next : Single, Reached (step (system 1)) (start 1 2) pool ∧ pool.threads = [] ∧
    pool.shared.eventsGen 0 = 1 ∧ queued pool.shared 0 = 0 ∧
      [.enter (.publish 0 .unique),.proceed 0 {}].foldlM (step (system 1)) pool = some next ∧ next.shared.returned = pool.shared.returned ++ [(0,.eexist)] := by
  obtain ⟨gen,returned,zero,reached⟩ := queue_fills (le_refl queueSize)
  let raised : Bus 1 := setGen (filled gen returned queueSize) 0 (gen 0 + 1)
  have fails := attempts_fail (show (raised.queues 0).length = queueSize from List.length_replicate) 0 (by decide : 0 < pushAttempts)
  have counted : (answer raised 0 .failed).eventsGen 0 = 1 := by
    change gen 0 + 1 = 1
    rw [zero]
  refine ⟨⟨answer raised 0 .failed,[]⟩,⟨answer (answer raised 0 .failed) 0 .eexist,[]⟩,reached.trans ((publish_raises Nat.two_pos).trans fails),rfl,counted,?_,?_,rfl⟩
  · simp [queued,answer,raised,setGen,filled,List.count_replicate]
  · have refused : proceed (answer raised 0 .failed) (.counting 0 true) {} = some (none,answer (answer raised 0 .failed) 0 .eexist) := by
      rw [proceed,if_neg (by simp [counted])]
    have entered : step (system 1) ⟨answer raised 0 .failed,[]⟩ (.enter (.publish 0 .unique)) = some ⟨answer raised 0 .failed,[.counting 0 true]⟩ := rfl
    simp only [foldlM_cons,List.foldlM_nil,entered,single_step refused,Option.bind_eq_bind,bind_some]
    rfl

end Traces

end MedvedDB.EventCounters
