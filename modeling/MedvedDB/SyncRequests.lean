import MedvedDB.Syncerlog
import MedvedDB.SyncRules

namespace MedvedDB.Syncerlog

open Replication (Point Returns)
open Machine (Reached only)

def Waiting (state : State) : Prop := 0 < state.syncs ∨ state.states ≠ []

-- A start call that publishes, or a schedule call that has loaded the counter or will.
def Answers (requests : Nat) : Thread → Prop
  | .publishing _ | .scheduling (.entered _) => True
  | .scheduling (.loaded _ seen) | .scheduling (.reading seen _) | .scheduling (.swapping seen _ _ _) | .scheduling (.emitting seen _ _ _)
  | .scheduling (.closing seen _) => 0 < seen ∧ seen ≤ requests
  | _ => False

-- A thread after which the log is read at a top of at least `raised`, once more or for
-- the range that is about to be taken.
def Drives (requests raised : Nat) : Thread → Prop
  | .publishing _ | .scheduling (.entered _) | .scheduling (.loaded _ _) | .scheduling (.reading _ _) => True
  | .scheduling (.swapping seen _ range read) => range < read ∨ raised ≤ read ∨ Returns requests seen
  | .scheduling (.emitting seen _ range read) => range < read ∨ Returns requests seen
  | .scheduling (.closing seen _) => Returns requests seen
  | _ => False

def Covered (state : State) (position : Nat) : Prop := position ≤ max state.syncer.synced state.handled

-- The position a call goes on from. `synced` may have gone back since it was loaded.
def Known (state : State) (position : Nat) : Prop := Covered state position ∨ position < state.top

def Sound (state : State) : Thread → Prop
  | .starting raised | .counting raised | .publishing raised => raised ≤ state.top
  | .scheduling (.entered pos) | .scheduling (.loaded pos _) => pos ≤ state.handled
  | .scheduling (.reading _ own) | .scheduling (.closing _ own) => Known state own
  | .scheduling (.swapping _ own _ read) => own < read ∧ read ≤ state.top
  | .scheduling (.emitting _ _ range _) => Known state range

structure Requested (state : State) (threads : List Thread) : Prop where
  answered : 0 < state.syncer.requests → Waiting state ∨ ∃ thread ∈ threads, Answers state.syncer.requests thread
  driven : ∀ raised ∈ state.announced, Covered state raised ∨ Waiting state ∨ ∃ thread ∈ threads, Drives state.syncer.requests raised thread
  raised : ∀ raised ∈ state.announced, raised ≤ state.top
  sound : ∀ thread ∈ threads, Sound state thread

lemma Requested.perm (requested : Requested state one) (order : one.Perm two) : Requested state two := by
  refine ⟨?_,?_,requested.raised,fun thread member => requested.sound thread (order.mem_iff.mpr member)⟩
  · simpa only [order.mem_iff] using requested.answered
  · simpa only [order.mem_iff] using requested.driven

section Threads

variable {state : State} {thread now : Thread} {others : List Thread}

lemma Requested.replace (requested : Requested state (thread::others))
    (answers : 0 < state.syncer.requests → Answers state.syncer.requests thread → Answers state.syncer.requests now)
    (drives : ∀ raised ∈ state.announced, Drives state.syncer.requests raised thread → Covered state raised ∨ Drives state.syncer.requests raised now)
    (sound : Sound state now) : Requested state (now::others) := by
  refine ⟨?_,?_,requested.raised,?_⟩
  · intro some
    have before := requested.answered some
    rw [exists_mem_cons_iff] at before ⊢
    exact before.imp_right (Or.imp_left (answers some))
  · intro raised announced
    have before := requested.driven raised announced
    rw [exists_mem_cons_iff] at before ⊢
    rcases before with covered | waiting | does | rest
    · exact .inl covered
    · exact .inr (.inl waiting)
    · exact (drives raised announced does).imp_right fun still => .inr (.inl still)
    · exact .inr (.inr (.inr rest))
  · intro other member
    rcases mem_cons.mp member with rfl | rest
    · exact sound
    · exact requested.sound other (mem_cons_of_mem thread rest)

lemma Requested.dropped (requested : Requested state (thread::others)) (answers : ∀ requests, ¬ Answers requests thread)
    (drives : ∀ requests raised, ¬ Drives requests raised thread) : Requested state others := by
  refine ⟨?_,?_,requested.raised,fun other member => requested.sound other (mem_cons_of_mem thread member)⟩
  · intro some
    have before := requested.answered some
    rw [exists_mem_cons_iff] at before
    exact before.imp_right fun either => either.resolve_left (answers _)
  · intro raised announced
    have before := requested.driven raised announced
    rw [exists_mem_cons_iff] at before
    exact before.imp_right (Or.imp_right fun either => either.resolve_left (drives _ _))

variable {own raised range read requests : Nat}

lemma Known.swapped (known : Known state position) (same : state.syncer.synced = own) (below : own < read)
    (within : read ≤ state.top) : Known (withSynced state own range) position := by
  simp only [Known,Covered,withSynced] at known ⊢
  omega

lemma Sound.swapped (sound : Sound state thread) (same : state.syncer.synced = own) (below : own < read)
    (within : read ≤ state.top) : Sound (withSynced state own range) thread := by
  cases thread with
  | scheduling point =>
    cases point with
    | reading seen position | closing seen position | emitting seen position range read => exact Known.swapped sound same below within
    | _ => exact sound
  | _ => exact sound

lemma Requested.swap (requested : Requested state (.scheduling (.swapping seen own range read)::others))
    (same : state.syncer.synced = own) (answers : ∀ requests, 0 < seen ∧ seen ≤ requests → Answers requests now)
    (drives : ∀ requests raised, range < read ∨ Returns requests seen → Drives requests raised now) (sound : Sound (withSynced state own range) now) :
    Requested (withSynced state own range) (now::others) := by
  obtain ⟨below,within⟩ := requested.sound _ mem_cons_self
  refine ⟨?_,?_,requested.raised,?_⟩
  · intro some
    have before := requested.answered some
    rw [exists_mem_cons_iff] at before ⊢
    exact before.imp_right (Or.imp_left (answers _))
  · intro raised announced
    have before := requested.driven raised announced
    rw [exists_mem_cons_iff] at before ⊢
    by_cases more : range < read
    · exact .inr (.inr (.inl (drives _ raised (.inl more))))
    · rcases before with covered | waiting | (again | reached | returns) | rest
      · refine .inl ?_
        simp only [Covered,withSynced] at covered ⊢
        omega
      · exact .inr (.inl waiting)
      · exact absurd again more
      · refine .inl ?_
        simp only [Covered,withSynced]
        omega
      · exact .inr (.inr (.inl (drives _ raised (.inr returns))))
      · exact .inr (.inr (.inr rest))
  · intro other member
    rcases mem_cons.mp member with rfl | rest
    · exact sound
    · exact (requested.sound other (mem_cons_of_mem _ rest)).swapped same below within

lemma Sound.grows (sound : Sound state thread) (synced : next.syncer.synced = state.syncer.synced) (top : state.top ≤ next.top)
    (handled : state.handled ≤ next.handled) : Sound next thread := by
  have known : ∀ position, Known state position → Known next position := by
    intro position known
    simp only [Known,Covered,synced] at known ⊢
    omega
  cases thread with
  | scheduling point =>
    cases point with
    | entered pos | loaded pos seen => exact le_trans sound handled
    | reading seen position | closing seen position => exact known position sound
    | swapping seen own range read => exact ⟨sound.1,sound.2.trans top⟩
    | emitting seen own range read => exact known range sound
  | starting raised | counting raised | publishing raised => exact le_trans sound top

lemma Drives.reset (drives : Drives requests raised thread) : Drives 0 raised thread := by
  have returns : ∀ seen, Returns requests seen → Returns 0 seen := fun seen returns => ⟨returns.2,returns.2⟩
  cases thread with
  | scheduling point =>
    cases point with
    | swapping seen own range read => exact drives.imp_right (Or.imp_right (returns seen))
    | emitting seen own range read => exact drives.imp_right (returns seen)
    | closing seen own => exact returns seen drives
    | _ => exact drives
  | _ => exact drives

lemma Answers.counted (answers : Answers requests thread) : Answers (requests + 1) thread := by
  cases thread with
  | scheduling point =>
    cases point with
    | entered pos => exact answers
    | _ => exact ⟨answers.1,Nat.le_succ_of_le answers.2⟩
  | _ => exact answers

lemma Answers.drives (answers : Answers requests thread) (raised : Nat) : Drives (requests + 1) raised thread := by
  have returns : ∀ seen, 0 < seen ∧ seen ≤ requests → Returns (requests + 1) seen := fun seen within => ⟨by omega,by omega⟩
  cases thread with
  | scheduling point =>
    cases point with
    | swapping seen own range read => exact .inr (.inr (returns seen answers))
    | emitting seen own range read => exact .inr (returns seen answers)
    | closing seen own => exact returns seen answers
    | _ => trivial
  | publishing raised => trivial
  | _ => exact answers

lemma Requested.closed (requested : Requested state (.scheduling (.closing seen own)::others)) (same : state.syncer.requests = seen) :
    Requested (withRequests state 0) others := by
  refine ⟨fun none => absurd none (Nat.lt_irrefl 0),?_,requested.raised,?_⟩
  · intro raised announced
    have before := requested.driven raised announced
    rw [exists_mem_cons_iff] at before
    rcases before with covered | waiting | does | ⟨other,member,does⟩
    · exact .inl covered
    · exact .inr (.inl waiting)
    · exact absurd same.symm does.1
    · exact .inr (.inr ⟨other,member,does.reset⟩)
  · intro other member
    exact (requested.sound other (mem_cons_of_mem _ member)).grows rfl le_rfl le_rfl

lemma Requested.counted (requested : Requested state (.counting raised::others)) (some : state.syncer.requests ≠ 0) :
    Requested (announce (withRequests state (state.syncer.requests + 1)) raised) others := by
  have answered := (requested.dropped (fun _ => id) (fun _ _ => id)).answered (Nat.pos_of_ne_zero some)
  refine ⟨?_,?_,?_,?_⟩
  · intro _
    rcases answered with waiting | ⟨other,member,does⟩
    · exact .inl waiting
    · exact .inr ⟨other,member,does.counted⟩
  · intro value _
    rcases answered with waiting | ⟨other,member,does⟩
    · exact .inr (.inl waiting)
    · exact .inr (.inr ⟨other,member,does.drives value⟩)
  · intro value member
    rcases mem_cons.mp member with rfl | old
    · exact requested.sound _ mem_cons_self
    · exact requested.raised value old
  · intro other member
    exact (requested.sound other (mem_cons_of_mem _ member)).grows rfl le_rfl le_rfl

lemma Requested.announced (requested : Requested state others) (covered : Covered state raised) (within : raised ≤ state.top) :
    Requested (announce state raised) others := by
  refine ⟨requested.answered,?_,?_,fun other member => (requested.sound other member).grows rfl le_rfl le_rfl⟩
  · intro value member
    rcases mem_cons.mp member with rfl | old
    · exact .inl covered
    · exact requested.driven value old
  · intro value member
    rcases mem_cons.mp member with rfl | old
    · exact within
    · exact requested.raised value old

lemma Requested.renewed (requested : Requested state threads)
    (renews : Waiting next ∨ ∃ thread ∈ others, (∀ requests, Answers requests thread) ∧ ∀ requests raised, Drives requests raised thread)
    (raised : ∀ value ∈ next.announced, value ∈ state.announced ∨ value ≤ next.top) (top : state.top ≤ next.top)
    (sound : ∀ other ∈ others, Sound next other) : Requested next others := by
  refine ⟨?_,?_,?_,sound⟩
  · intro _
    exact renews.imp_right fun ⟨thread,member,answers,_⟩ => ⟨thread,member,answers _⟩
  · intro value _
    exact .inr (renews.imp_right fun ⟨thread,member,_,drives⟩ => ⟨thread,member,drives _ value⟩)
  · intro value member
    rcases raised value member with old | new
    · exact (requested.raised value old).trans top
    · exact new

end Threads

section Steps

variable {batch : Nat} {state next : State} {outcome : Outcome} {others : List Thread}

lemma Known.synced (state : State) : Known state state.syncer.synced := .inl (le_max_left _ _)

lemma schedule_requested (requested : Requested state (.scheduling here::others))
    (rule : Scheduled batch state outcome here after next) : Requested next ((after.map .scheduling).toList ++ others) := by
  have sound := requested.sound _ mem_cons_self
  cases rule with
  | entered pos =>
    exact requested.replace (fun some _ => ⟨some,le_rfl⟩) (fun _ _ _ => .inr trivial) sound
  | loaded pos seen =>
    refine requested.replace (fun _ => id) (fun _ _ _ => .inr trivial) (.inl ?_)
    exact max_le_max_left state.syncer.synced sound
  | covered seen own high =>
    refine requested.replace (fun _ => id) ?_ sound
    intro raised announced _
    have small := requested.raised raised announced
    refine .inl ?_
    rcases sound with covered | below
    · exact (small.trans high).trans covered
    · omega
  | reading seen own below =>
    refine requested.replace (fun _ => id) ?_ ⟨below,le_rfl⟩
    intro raised announced _
    exact .inr (.inr (.inl (requested.raised raised announced)))
  | taken seen own range read same more =>
    refine requested.swap same (fun _ => id) (fun _ _ => id) (.inl ?_)
    exact le_max_left _ _
  | back seen own range read same less =>
    refine requested.swap same ?_ ?_ ?_
    · intro requests answers
      split <;> exact answers
    · intro requests raised either
      split
      · trivial
      · rename_i last
        exact either.resolve_left last
    · have known : Known (withSynced state own range) own := .inr (sound.1.trans_le sound.2)
      split <;> exact known
  | retry seen own range read failed =>
    exact requested.replace (fun _ => id) (fun _ _ _ => .inr trivial) (Known.synced state)
  | emitting seen own range read =>
    have next : Requested state (.scheduling (if range < read then .reading seen range else .closing seen range)::others) := by
      refine requested.replace ?_ ?_ ?_
      · intro _ answers
        split <;> exact answers
      · intro raised _ either
        refine .inr ?_
        split
        · trivial
        · rename_i last
          exact either.resolve_left last
      · split <;> exact sound
    exact ⟨next.answered,next.driven,next.raised,fun other member => (next.sound other member).grows rfl le_rfl le_rfl⟩
  | closed seen own same => exact requested.closed same
  | again seen own other =>
    exact requested.replace (fun some _ => ⟨some,le_rfl⟩) (fun _ _ _ => .inr trivial) sound

lemma start_requested (works : ∀ raised, thread = .publishing raised → outcome.works = true)
    (requested : Requested state (thread::others)) (moved : proceed batch state thread outcome = some (after,next)) :
    Requested next (after.toList ++ others) := by
  have sound := requested.sound thread mem_cons_self
  have rest : ∀ other ∈ others, Sound state other := fun other member => requested.sound other (mem_cons_of_mem thread member)
  cases thread with
  | starting raised =>
    simp only [proceed] at moved
    split at moved <;> cases moved
    · rename_i empty
      exact (requested.dropped (fun _ => id) (fun _ _ => id)).announced (Nat.le_trans sound (empty.le.trans (Nat.zero_le _))) sound
    · exact requested.replace (fun _ => id) (fun _ _ => .inr) sound
  | counting raised =>
    simp only [proceed] at moved
    split at moved <;> cases moved
    · exact requested.counted ‹_›
    · refine requested.renewed (.inr ⟨.publishing raised,mem_cons_self,fun _ => trivial,fun _ _ => trivial⟩) (fun _ => .inl) le_rfl ?_
      intro other member
      rcases mem_cons.mp member with rfl | inside
      · exact sound
      · exact (rest other inside).grows rfl le_rfl le_rfl
  | publishing raised =>
    simp only [proceed,works raised rfl,if_true] at moved
    cases moved
    refine requested.renewed (.inl (.inl (succ_pos _))) ?_ le_rfl (fun other member => (rest other member).grows rfl le_rfl le_rfl)
    intro value member
    rcases mem_cons.mp member with rfl | old
    · exact .inr sound
    · exact .inl old
  | scheduling point =>
    cases moved
    exact schedule_requested requested (schedule_scheduled batch state outcome point)

lemma enter_requested (requested : Requested state threads)
    (entered : enter state call = some (thread,next)) : Requested next (thread.toList ++ threads) := by
  cases call with
  | raise top =>
    cases entered
    have higher : state.top ≤ max state.top top.toNat := le_max_left _ _
    refine ⟨?_,?_,fun raised member => (requested.raised raised member).trans higher,?_⟩
    · intro some
      exact (requested.answered some).imp_right fun ⟨other,member,does⟩ => ⟨other,mem_cons_of_mem _ member,does⟩
    · intro raised announced
      exact (requested.driven raised announced).imp_right (Or.imp_right fun ⟨other,member,does⟩ => ⟨other,mem_cons_of_mem _ member,does⟩)
    · intro other member
      rcases mem_cons.mp member with rfl | old
      · exact le_rfl
      · exact (requested.sound other old).grows rfl higher le_rfl
  | answer pos =>
    simp only [enter] at entered
    split at entered <;> cases entered
    exact requested.renewed (.inl (.inr (cons_ne_nil _ _))) (fun _ => .inl) le_rfl
      fun other member => (requested.sound other member).grows rfl le_rfl le_rfl
  | report pos =>
    cases entered
    exact requested.renewed (.inl (.inr (cons_ne_nil _ _))) (fun _ => .inl) le_rfl
      fun other member => (requested.sound other member).grows rfl le_rfl le_rfl
  | handle index =>
    simp only [enter] at entered
    split at entered <;> cases entered
    rename_i pos found
    refine requested.renewed (.inr ⟨.scheduling (.entered pos),mem_cons_self,fun _ => trivial,fun _ _ => trivial⟩) (fun _ => .inl) le_rfl ?_
    intro other member
    rcases mem_cons.mp member with rfl | old
    · exact le_max_right _ _
    · exact (requested.sound other old).grows rfl le_rfl (le_max_left _ _)

end Steps

def publishes (pool : Pool) : Action → Bool
  | .proceed index outcome =>
    match pool.threads[index]? with
    | some (.publishing _) => outcome.works
    | _ => true
  | .enter _ => true

def Served (pool : Pool) : Prop := Requested pool.shared pool.threads

lemma step_served (served : Served pool) (moved : only publishes (step batch) pool action = some next) :
    Served next := by
  obtain ⟨accepted,moved⟩ := Machine.only_some moved
  rcases Threads.step_cases moved with ⟨call,thread,rfl,entered,threads⟩ | ⟨index,choice,thread,after,others,rfl,found,before,went,threads⟩
  · exact (enter_requested served entered).perm threads.symm
  · refine (start_requested ?_ (served.perm before) went).perm threads.symm
    intro raised is
    simpa [publishes,found,is] using accepted

-- When nothing is under way, no request is left and every top with a start call that is
-- over has been reached by the synchronizer or by its peer.
theorem requests_served {batch : Nat} {top : UInt64} {pool : Pool} (reached : Reached (only publishes (step batch)) (start top) pool)
    (quiet : pool.threads = []) (syncs : pool.shared.syncs = 0) (states : pool.shared.states = []) :
    pool.shared.syncer.requests = 0 ∧ ∀ raised ∈ pool.shared.announced, raised ≤ max pool.shared.syncer.synced pool.shared.handled := by
  have served : Served pool := by
    apply Machine.reached_invariant ?_ (fun _ _ _ => step_served) reached
    exact ⟨fun some => absurd some (Nat.lt_irrefl 0),nofun,nofun,nofun⟩
  have silent : ¬ Waiting pool.shared := by
    simp [Waiting,syncs,states]
  constructor
  · by_contra some
    rcases served.answered (Nat.pos_of_ne_zero some) with waiting | ⟨thread,member,_⟩
    · exact silent waiting
    · rw [quiet] at member
      cases member
  · intro raised announced
    rcases served.driven raised announced with covered | waiting | ⟨thread,member,_⟩
    · exact covered
    · exact absurd waiting silent
    · rw [quiet] at member
      cases member

def oneRequest : List Action :=
  [.enter (.raise 1),.proceed 0 {},.proceed 0 {},.proceed 0 {},.enter (.answer 0),.enter (.handle 0),.proceed 0 {},.proceed 0 {},.proceed 0 {},
    .proceed 0 {},.proceed 0 {},.proceed 0 {}]

def oneServed : Pool := ⟨⟨⟨0,1⟩,1,0,[],[(0,1)],[(0,1)],[(0,1)],0,[1]⟩,[]⟩

theorem one_request_served : Reached (only publishes (step 4)) (start 0) oneServed ∧ oneServed.shared.syncer.requests = 0 ∧
    ∀ raised ∈ oneServed.shared.announced, raised ≤ max oneServed.shared.syncer.synced oneServed.shared.handled := by
  have reached : Reached (only publishes (step 4)) (start 0) oneServed := ⟨oneRequest,rfl⟩
  exact ⟨reached,requests_served reached rfl rfl rfl⟩

end MedvedDB.Syncerlog
