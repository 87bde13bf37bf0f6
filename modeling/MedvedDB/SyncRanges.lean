import MedvedDB.ScheduleCall

namespace MedvedDB.Syncerlog

open Replication (Point)
open Machine (Reached only)
open Multiset (coe_add ofList)

section Ranges

def Consecutive (batch : Nat) : Nat → List (Nat × Nat) → Nat → Prop
  | lower,[],upper => lower = upper
  | lower,range::rest,upper => range.1 = lower ∧ lower < range.2 ∧ range.2 ≤ lower + batch ∧ Consecutive batch range.2 rest upper

variable {batch lower upper : Nat} {ranges : List (Nat × Nat)}

lemma Consecutive.append (chain : Consecutive batch lower ranges upper) (more : upper < last) (short : last ≤ upper + batch) :
    Consecutive batch lower (ranges ++ [(upper,last)]) last := by
  induction ranges generalizing lower with
  | nil =>
    obtain rfl : lower = upper := chain
    exact ⟨rfl,more,short,rfl⟩
  | cons range ranges ih =>
    obtain ⟨first,some,small,rest⟩ := chain
    exact ⟨first,some,small,ih rest⟩

lemma Consecutive.le (chain : Consecutive batch lower ranges upper) : lower ≤ upper := by
  induction ranges generalizing lower with
  | nil => exact chain.le
  | cons range ranges ih =>
    obtain ⟨_,some,_,rest⟩ := chain
    exact some.le.trans (ih rest)

lemma Consecutive.mem (chain : Consecutive batch lower ranges upper) (member : range ∈ ranges) :
    lower ≤ range.1 ∧ range.1 < range.2 ∧ range.2 ≤ range.1 + batch := by
  induction ranges generalizing lower with
  | nil => cases member
  | cons first ranges ih =>
    obtain ⟨rfl,some,small,rest⟩ := chain
    rcases mem_cons.mp member with rfl | later
    · exact ⟨le_rfl,some,small⟩
    · obtain ⟨beyond,inside⟩ := ih rest later
      exact ⟨some.le.trans beyond,inside⟩

lemma Consecutive.disjoint (chain : Consecutive batch lower ranges upper) : ranges.Pairwise fun one two => Disjoint (Set.Ico one.1 one.2) (Set.Ico two.1 two.2) := by
  induction ranges generalizing lower with
  | nil => exact .nil
  | cons first ranges ih =>
    obtain ⟨_,_,_,rest⟩ := chain
    refine .cons ?_ (ih rest)
    intro second member
    obtain ⟨beyond,_⟩ := rest.mem member
    rw [Set.Ico_disjoint_Ico]
    exact (min_le_left _ _).trans (beyond.trans (le_max_right _ _))

lemma Consecutive.covers (chain : Consecutive batch lower ranges upper) (id : Nat) :
    (∃ range ∈ ranges, range.1 ≤ id ∧ id < range.2) ↔ lower ≤ id ∧ id < upper := by
  induction ranges generalizing lower with
  | nil =>
    obtain rfl : lower = upper := chain
    simp
  | cons first ranges ih =>
    obtain ⟨rfl,some,_,rest⟩ := chain
    have ordered := rest.le
    simp only [exists_mem_cons_iff,ih rest]
    omega

end Ranges

def Ready (batch : Nat) : Thread → Prop
  | .scheduling (.swapping _ synced range _) => synced < range ∧ range ≤ synced + batch
  | _ => True

variable {batch : Nat} {outcome : Outcome} {next state : State} {thread : Thread}

lemma plain_ready (batch : Nat) (is : plain thread = true) : Ready batch thread := by
  cases thread with
  | scheduling point => cases point <;> trivial
  | _ => trivial

structure Ranged (batch : Nat) (pool : Pool) : Prop where
  room : pool.shared.top + batch ≤ 2 ^ 64
  chain : Consecutive batch 0 pool.shared.claimed pool.shared.syncer.synced
  balance : ofList pool.shared.claimed = ofList pool.shared.passed + Threads.gathered emits pool.threads
  ready : ∀ thread ∈ pool.threads, Ready batch thread

-- The log leaves room for a batch below 2^64.
def roomy (batch : Nat) (_ : Pool) : Action → Bool
  | .enter (.raise top) => top.toNat + batch ≤ 2 ^ 64
  | _ => true

structure RangedStep (batch : Nat) (state : State) (thread : Thread) (after : Option Thread) (next : State) : Prop where
  top : next.top = state.top
  chain : Consecutive batch 0 next.claimed next.syncer.synced
  balance : ofList next.claimed + ofList state.passed + ofList (emits thread).toList =
    ofList state.claimed + ofList next.passed + ofList (after.bind emits).toList
  ready : ∀ other ∈ after, Ready batch other

lemma schedule_ranged (positive : 0 < batch)
    (room : state.top + batch ≤ 2 ^ 64) (chain : Consecutive batch 0 state.claimed state.syncer.synced) (ready : Ready batch (.scheduling point))
    (rule : Scheduled batch state outcome point after next) : RangedStep batch state (.scheduling point) (after.map .scheduling) next := by
  cases rule with
  | entered pos | loaded pos requests | covered requests synced above
  | retry requests synced range top failed | again requests synced other =>
    exact ⟨rfl,chain,rfl,fun _ is => by cases is; trivial⟩
  | reading requests synced below =>
    refine ⟨rfl,chain,rfl,?_⟩
    intro other is
    cases is
    rw [rrange_room room below]
    exact ⟨by omega,by omega⟩
  | taken requests synced range top same more =>
    refine ⟨rfl,?_,?_,fun _ is => by cases is; trivial⟩
    · exact (same ▸ chain).append more ready.2
    · change ofList (state.claimed ++ [(synced,range)]) + ofList state.passed + 0 =
        ofList state.claimed + ofList state.passed + ofList [(synced,range)]
      rw [← coe_add,add_zero,add_right_comm]
  | back requests synced range top same less => exact absurd ready.1 (Nat.not_lt.mpr less)
  | emitting requests synced range top =>
    refine ⟨rfl,chain,?_,?_⟩
    · have none : (Option.map Thread.scheduling (some (if range < top then Point.reading requests range else .closing requests range))).bind emits = none := by
        split <;> rfl
      rw [none]
      change ofList state.claimed + ofList state.passed + ofList [(synced,range)] =
        ofList state.claimed + ofList (state.passed ++ [(synced,range)]) + 0
      rw [← coe_add,add_zero,add_assoc]
    · intro other is
      cases is
      split <;> trivial
  | closed requests synced same => exact ⟨rfl,chain,rfl,nofun⟩

lemma proceed_ranged (positive : 0 < batch)
    (room : state.top + batch ≤ 2 ^ 64) (chain : Consecutive batch 0 state.claimed state.syncer.synced) (ready : Ready batch thread)
    (moved : proceed batch state thread outcome = some (after,next)) : RangedStep batch state thread after next := by
  rcases proceed_cases moved with ⟨point,further,rfl,rfl,rule⟩ | ⟨none,all,still,top⟩
  · exact schedule_ranged positive room chain ready rule
  · refine ⟨top,still.claimed ▸ still.synced ▸ chain,?_,fun other member => plain_ready batch (all other member)⟩
    rw [still.claimed,still.passed,plain_emits none,plain_emits_all all]

lemma step_ranged {pool next : Pool} {action : Action} (positive : 0 < batch) (ranged : Ranged batch pool)
    (moved : only (roomy batch) (step batch) pool action = some next) : Ranged batch next := by
  obtain ⟨accepted,moved⟩ := Machine.only_some moved
  rcases Threads.step_cases moved with ⟨call,thread,rfl,entered,threads⟩ | ⟨index,choice,thread,after,others,rfl,_,before,went,threads⟩
  · obtain ⟨still,all,top⟩ := enter_still entered
    refine ⟨?_,still.claimed ▸ still.synced ▸ ranged.chain,?_,?_⟩
    · rcases top with same | ⟨top,rfl,higher⟩
      · exact same ▸ ranged.room
      · have small : top.toNat + batch ≤ 2 ^ 64 := of_decide_eq_true accepted
        have room := ranged.room
        omega
    · rw [still.claimed,still.passed,Threads.gathered_perm threads,Threads.gathered_append,plain_emits_all all,ranged.balance]
      rfl
    · intro other member
      rcases mem_append.mp (threads.mem_iff.mp member) with new | old
      · exact plain_ready batch (all other (mem_toList.mp new))
      · exact ranged.ready other old
  · have one := proceed_ranged positive ranged.room ranged.chain (ranged.ready thread (Threads.mem_of_first before)) went
    refine ⟨one.top ▸ ranged.room,one.chain,?_,?_⟩
    · have held := ranged.balance
      rw [Threads.gathered_perm before,Threads.gathered_cons] at held
      rw [Threads.gathered_perm threads,Threads.gathered_append]
      have exchange := one.balance
      rw [held] at exchange
      refine add_left_cancel (a:=ofList pool.shared.passed + ofList (emits thread).toList) ?_
      calc _ = ofList next.shared.claimed + ofList pool.shared.passed + ofList (emits thread).toList := by ac_rfl
        _ = _ := exchange
        _ = _ := by ac_rfl
    · intro other member
      rcases mem_append.mp (threads.mem_iff.mp member) with new | old
      · exact one.ready other (mem_toList.mp new)
      · exact ranged.ready other (Threads.mem_of_rest before old)

theorem ranges_partition {batch : Nat} {top : UInt64} {pool : Pool} (positive : 0 < batch) (room : top.toNat + batch ≤ 2 ^ 64)
    (reached : Reached (only (roomy batch) (step batch)) (start top) pool) :
    (∀ range ∈ pool.shared.claimed, range.1 < range.2 ∧ range.2 ≤ range.1 + batch) ∧
    pool.shared.claimed.Pairwise (fun one two => Disjoint (Set.Ico one.1 one.2) (Set.Ico two.1 two.2)) ∧
    (∀ id, (∃ range ∈ pool.shared.claimed, range.1 ≤ id ∧ id < range.2) ↔ id < pool.shared.syncer.synced) ∧
    ofList pool.shared.claimed = ofList pool.shared.passed + Threads.gathered emits pool.threads := by
  have ranged : Ranged batch pool := by
    apply Machine.reached_invariant ?_ ?_ reached
    · exact ⟨room,rfl,rfl,nofun⟩
    · intro state action next ranged moved
      exact step_ranged positive ranged moved
  refine ⟨fun range member => (ranged.chain.mem member).2,ranged.chain.disjoint,?_,ranged.balance⟩
  intro id
  rw [ranged.chain.covers]
  exact and_iff_right (Nat.zero_le id)

def twoBatches : List Action :=
  [.enter (.report 0),.enter (.handle 0),.proceed 0 {},.proceed 0 {},.proceed 0 {},.proceed 0 {},.proceed 0 {},.proceed 0 {},.proceed 0 {},.proceed 0 {},.proceed 0 {}]

def twoSent : Pool := ⟨⟨⟨0,2⟩,2,0,[],[(0,1),(1,2)],[(0,1),(1,2)],[(0,1),(1,2)],0,[]⟩,[]⟩

theorem two_batches_partition : Reached (only (roomy 1) (step 1)) (start 2) twoSent ∧
    ∀ id, (∃ range ∈ twoSent.shared.claimed, range.1 ≤ id ∧ id < range.2) ↔ id < twoSent.shared.syncer.synced := by
  have reached : Reached (only (roomy 1) (step 1)) (start 2) twoSent := ⟨twoBatches,rfl⟩
  exact ⟨reached,(ranges_partition (by decide) (by decide) reached).2.2.1⟩

def always (_ : Pool) (_ : Action) : Bool := true

lemma always_allows (pool : Pool) : always pool (.proceed 0 {}) = true := rfl

lemma calling_start (batch : Nat) (top : UInt64) : Reached (step batch) (start top) (calling 0 0 top.toNat 0) :=
  ⟨[.enter (.report 0),.enter (.handle 0)],rfl⟩

-- With batches of 2^31 entries `synced` comes to 2^64 - 2^31 and goes back to 0 from there.
theorem ranges_wrap : ∃ pool, Reached (step (2 ^ 31)) (start 18446744073709551615) pool ∧ ∃ range ∈ pool.shared.claimed, range.2 < range.1 := by
  have below : ∀ earlier ≤ 2 ^ 33 - 1, sweep (2 ^ 31) 0 earlier < 2 ^ 64 - 1 := by
    intro earlier within
    simp only [sweep]
    omega
  obtain ⟨steps,state,_,here,top,walked⟩ := sweep_walks always_allows 0 (by decide) (by decide : 0 < 2 ^ 64 - 1) below
  have last : state.syncer.synced = 2 ^ 64 - 2 ^ 31 := here
  have range : rrange (2 ^ 31) state.syncer.synced state.top = 0 := by
    simp only [rrange,last,top]
    decide
  have first := schedule_reading (2 ^ 31) {} 0 (by rw [last,top]; decide : state.syncer.synced < state.top)
  rw [range] at first
  have second := schedule_back (2 ^ 31) 0 (Nat.zero_le state.syncer.synced) (by rw [top]; decide : 0 < state.top)
  have ends := walked.trans (call_moves always_allows first (call_moves always_allows second (.refl _ _)))
  refine ⟨_,(calling_start (2 ^ 31) 18446744073709551615).trans ends.reached,(state.syncer.synced,0),?_,?_⟩
  · exact mem_append_right _ mem_cons_self
  · rw [last]
    decide

-- Every id below `synced` has a job in the queue or a call that is about to queue one.
def Queued (pool : Pool) : Prop := ∀ id < pool.shared.syncer.synced,
  (∃ range ∈ pool.shared.jobs, range.1 ≤ id ∧ id < range.2) ∨ ∃ thread ∈ pool.threads, ∃ range ∈ emits thread, range.1 ≤ id ∧ id < range.2

def queues (pool : Pool) : Action → Bool
  | .proceed index outcome =>
    match pool.threads[index]? with
    | some (.scheduling (.emitting _ _ _ _)) => outcome.works
    | _ => true
  | .enter _ => true

structure QueuedStep (state : State) (thread : Thread) (after : Option Thread) (next : State) : Prop where
  jobs : ∀ range ∈ state.jobs, range ∈ next.jobs
  kept : ∀ range ∈ emits thread, range ∈ next.jobs
  synced : ∀ id < next.syncer.synced, id < state.syncer.synced ∨ ∃ range ∈ after.bind emits, range.1 ≤ id ∧ id < range.2

lemma QueuedStep.same (jobs : next.jobs = state.jobs)
    (synced : next.syncer.synced = state.syncer.synced) (none : emits thread = none) : QueuedStep state thread after next := by
  refine ⟨fun _ member => jobs ▸ member,?_,fun id below => .inl (synced ▸ below)⟩
  intro range is
  rw [none] at is
  cases is

lemma schedule_queued (works : ∀ requests synced range top, point = .emitting requests synced range top → outcome.works = true)
    (rule : Scheduled batch state outcome point after next) : QueuedStep state (.scheduling point) (after.map .scheduling) next := by
  cases rule with
  | entered pos | loaded pos requests | covered requests synced above | reading requests synced below
  | retry requests synced range top failed | closed requests synced same | again requests synced other => exact .same rfl rfl rfl
  | taken requests synced range top same more =>
    refine ⟨fun _ member => member,nofun,?_⟩
    intro id below
    by_cases old : id < synced
    · exact .inl (same ▸ old)
    · exact .inr ⟨(synced,range),rfl,Nat.le_of_not_lt old,below⟩
  | back requests synced range top same less =>
    refine ⟨fun _ member => member,nofun,?_⟩
    intro id below
    exact .inl (same ▸ (lt_of_lt_of_le below less))
  | emitting requests synced range top =>
    have all : (withJob state outcome.works (synced,range)).jobs = state.jobs ++ [(synced,range)] := by
      rw [withJob,works requests synced range top rfl]
      rfl
    refine ⟨?_,?_,fun _ below => .inl below⟩
    · intro other member
      rw [all]
      exact mem_append_left _ member
    · intro other is
      cases is
      rw [all]
      exact mem_append_right _ mem_cons_self

lemma step_queued {pool next : Pool} {action : Action} (queued : Queued pool)
    (moved : only queues (step batch) pool action = some next) : Queued next := by
  obtain ⟨accepted,moved⟩ := Machine.only_some moved
  intro id below
  rcases Threads.step_cases moved with ⟨call,thread,rfl,entered,threads⟩ | ⟨index,choice,thread,after,others,rfl,found,before,went,threads⟩
  · obtain ⟨still,_⟩ := enter_still entered
    rcases queued id (still.synced ▸ below) with ⟨range,member,inside⟩ | ⟨other,member,rest⟩
    · exact .inl ⟨range,still.jobs ▸ member,inside⟩
    · exact .inr ⟨other,threads.mem_iff.mpr (mem_append_right _ member),rest⟩
  · have one : QueuedStep pool.shared thread after next.shared := by
      rcases proceed_cases went with ⟨point,further,rfl,rfl,rule⟩ | ⟨none,_,still,_⟩
      · refine schedule_queued ?_ rule
        intro requests synced range top is
        simpa [queues,found,is] using accepted
      · exact .same still.jobs still.synced (plain_emits none)
    rcases one.synced id below with old | ⟨range,new,inside⟩
    · rcases queued id old with ⟨range,member,inside⟩ | ⟨other,member,range,held,inside⟩
      · exact .inl ⟨range,one.jobs range member,inside⟩
      · rcases mem_cons.mp (before.mem_iff.mp member) with rfl | rest
        · exact .inl ⟨range,one.kept range held,inside⟩
        · exact .inr ⟨other,threads.mem_iff.mpr (mem_append_right _ rest),range,held,inside⟩
    · obtain ⟨thread,is,held⟩ := bind_eq_some_iff.mp new
      exact .inr ⟨thread,threads.mem_iff.mpr (mem_append_left _ (mem_toList.mpr is)),range,held,inside⟩

theorem synced_queued {batch : Nat} {top : UInt64} {pool : Pool} (reached : Reached (only queues (step batch)) (start top) pool)
    (between : ∀ thread ∈ pool.threads, plain thread = true) :
    ∀ id < pool.shared.syncer.synced, ∃ range ∈ pool.shared.jobs, range.1 ≤ id ∧ id < range.2 := by
  have queued : Queued pool := Machine.reached_invariant (by intro id below; cases below) (fun _ _ _ => step_queued) reached
  intro id below
  rcases queued id below with job | ⟨thread,member,range,held,_⟩
  · exact job
  · rw [plain_emits (between thread member)] at held
    cases held

theorem two_batches_queued : Reached (only queues (step 1)) (start 2) twoSent ∧
    ∀ id < twoSent.shared.syncer.synced, ∃ range ∈ twoSent.shared.jobs, range.1 ≤ id ∧ id < range.2 := by
  have reached : Reached (only queues (step 1)) (start 2) twoSent := ⟨twoBatches,rfl⟩
  exact ⟨reached,synced_queued reached nofun⟩

theorem synced_unqueued : ∃ pool, Reached (step 1) (start 1) pool ∧ pool.threads = [] ∧ pool.shared.syncer.synced = 1 ∧ pool.shared.jobs = [] :=
  ⟨_,⟨[.enter (.report 0),.enter (.handle 0),.proceed 0 {},.proceed 0 {},.proceed 0 {},.proceed 0 {},.proceed 0 {works:=false},.proceed 0 {}],rfl⟩,rfl,rfl,rfl⟩

end MedvedDB.Syncerlog
