import MedvedDB.Committer
import MedvedDB.TrlogSound

open MedvedDB.Trlog MedvedDB.TrlogSteps MedvedDB.Machine
namespace MedvedDB.Committer

variable {υ ω τ : Type}

def PointOk (log : Log ω) : Point ω → Prop
  | .loaded pos | .checked pos => pos = log.applied
  | .running rest newPos n => log.applied ≤ position newPos rest ∧ position newPos rest ≤ log.top ∧ (n = 0 → rest ≠ [])
  | .storing newPos _ => log.applied ≤ newPos ∧ newPos ≤ log.top
  | _ => True

def TaskOk (log : Log ω) (requests : Nat) : Task υ ω → Prop
  | .creating _ seen | .closing _ seen => 0 < seen ∧ seen ≤ requests
  | .applying _ seen point => (0 < seen ∧ seen ≤ requests) ∧ PointOk log point
  | _ => True

-- A task after which the log is read once more, or one that is about to set
-- the position to the log's top.
def Drives (batchSize : Nat) (log : υ) (requests top : Nat) : Task υ ω → Prop
  | .publishing other | .pushing other | .queued other | .popped other | .handling other | .emitting other
  | .job other | .creating other _ | .applying other _ .entered | .applying other _ (.loaded _)
  | .applying other _ (.checked _) => other = log
  | .applying other seen (.running rest newPos n) =>
    other = log ∧ (batchSize ≤ n + rest.length ∨ position newPos rest = top ∨ seen ≠ requests)
  | .applying other seen (.storing newPos n) => other = log ∧ (batchSize ≤ n ∨ newPos = top ∨ seen ≠ requests)
  | .applying other seen (.saving _ n) => other = log ∧ (batchSize ≤ n ∨ seen ≠ requests)
  | .closing other seen => other = log ∧ seen ≠ requests
  | _ => False

def Behind (shared : Shared ω) : Prop := shared.log.applied < shared.log.top

lemma drives_log (drives : Drives batchSize log requests top task) : logOf task = log := by
  cases task with
  | add | addOp => exact drives.elim
  | publishing | pushing | queued | popped | handling | emitting | job | creating => exact drives
  | applying other seen point =>
    cases point with
    | entered | loaded | checked => exact drives
    | running | storing | saving => exact drives.1
  | closing => exact drives.1

lemma event_drives (event : isEvent task = true) : Drives batchSize (logOf task) requests top task := by
  cases task with
  | pushing | queued | popped => rfl
  | _ => cases event

-- The counter of the bus is exact, and at most one event is on its way.
def EventsOk (eventsGen : Nat) (tasks : List (Task υ ω)) : Prop :=
  eventsGen = tasks.countP isEvent ∧ eventsGen ≤ 1

lemma EventsOk.handover (exactly : EventsOk eventsGen (task::rest))
    (count : news.countP isEvent = if isEvent task then 1 else 0) : EventsOk eventsGen (news ++ rest) := by
  obtain ⟨equal,single⟩ := exactly
  refine ⟨?_,single⟩
  rw [countP_cons] at equal
  rw [countP_append,count,equal]
  omega

inductive Performed (fn : υ → τ → ω → Bool × τ) (batchSize : Nat) (outcome : Outcome) (view : View ω τ) :
    Task υ ω → List (Task υ ω) → View ω τ → Prop
  | add {log rows shared} (begun : beginAdd true view.shared rows = some shared) :
      Performed fn batchSize outcome view (.add log rows) [] {view with shared:=shared}
  | addOp {log op shared} (begun : beginAddOp true view.shared op = some shared) :
      Performed fn batchSize outcome view (.addOp log op) [] {view with shared:=shared}
  | published {log} (idle : view.eventsGen = 0) :
      Performed fn batchSize outcome view (.publishing log) [.pushing log] {view with eventsGen:=1}
  | merged {log} (taken : view.eventsGen ≠ 0) : Performed fn batchSize outcome view (.publishing log) [] view
  | pushed {log} : Performed fn batchSize outcome view (.pushing log) [.queued log] view
  | queued {log} : Performed fn batchSize outcome view (.queued log) [.popped log] view
  | popped {log} :
      Performed fn batchSize outcome view (.popped log) [.handling log] {view with eventsGen:=view.eventsGen - 1}
  | handled {log} :
      Performed fn batchSize outcome view (.handling log) (if view.requests = 0 then [.emitting log] else [])
        {view with requests:=view.requests + 1}
  | emitted {log} : Performed fn batchSize outcome view (.emitting log) [.job log] view
  | started {log} : Performed fn batchSize outcome view (.job log) [.creating log view.requests] view
  | created {log seen} :
      Performed fn batchSize outcome view (.creating log seen)
        [if outcome.found then .applying log seen .entered else .closing log seen] view
  | applied {log seen point next arg shared}
      (stepped : applyStep (fn log) batchSize outcome.toOutcome view.arg view.shared point = some (next,arg,shared)) :
      Performed fn batchSize outcome view (.applying log seen point) [afterApply batchSize log seen next]
        {view with shared:=shared,arg:=arg}
  | closed {log} : Performed fn batchSize outcome view (.closing log view.requests) [] {view with requests:=0}
  | again {log seen} (changed : view.requests ≠ seen) :
      Performed fn batchSize outcome view (.closing log seen) [.creating log view.requests] view

variable {log : υ} {batchSize : Nat} {shared : Shared ω} {task : Task υ ω} {fn : υ → τ → ω → Bool × τ} {news : List (Task υ ω)} {view : View ω τ}

lemma perform_performed (works : outcome.works = true)
    (done : perform fn batchSize outcome view task = some (news,after)) :
    Performed fn batchSize outcome view task news after := by
  unfold perform at done
  rw [works] at done
  split at done
  · obtain ⟨shared,begun,same⟩ := map_eq_some_iff.mp done
    cases same
    exact .add begun
  · obtain ⟨shared,begun,same⟩ := map_eq_some_iff.mp done
    cases same
    exact .addOp begun
  · rw [Bool.not_true,if_neg false_ne_true] at done
    split at done
    · rename_i idle
      cases done
      exact .published idle
    · rename_i taken
      cases done
      exact .merged taken
  · cases done
    exact .pushed
  · cases done
    exact .queued
  · cases done
    exact .popped
  · cases done
    exact .handled
  · cases done
    exact .emitted
  · cases done
    exact .started
  · cases done
    exact .created
  · obtain ⟨⟨next,arg,shared⟩,stepped,same⟩ := map_eq_some_iff.mp done
    cases same
    exact .applied stepped
  · split at done
    · rename_i same
      cases done
      subst same
      exact .closed
    · rename_i changed
      cases done
      exact .again changed

lemma perform_events (works : outcome.works = true)
    (exactly : EventsOk view.eventsGen (task::rest))
    (done : perform fn batchSize outcome view task = some (news,after)) : EventsOk after.eventsGen (news ++ rest) := by
  cases perform_performed works done with
  | add _ | addOp _ | merged _ | pushed | queued | emitted | started | closed | again _ => exact exactly.handover rfl
  | applied stepped =>
    refine exactly.handover ?_
    unfold afterApply
    split
    · rfl
    · split <;> rfl
  | published idle =>
    obtain ⟨equal,_⟩ := exactly
    have none : rest.countP isEvent = 0 := by
      rw [idle] at equal
      exact equal.symm
    exact ⟨by simp [countP_cons,isEvent,none],le_refl _⟩
  | popped =>
    obtain ⟨equal,single⟩ := exactly
    rw [List.countP_cons_of_pos rfl] at equal
    refine ⟨?_,by change view.eventsGen - 1 ≤ 1; omega⟩
    change view.eventsGen - 1 = rest.countP isEvent
    omega
  | handled | created =>
    refine exactly.handover ?_
    split <;> rfl

variable [DecidableEq υ]

def isJob (log : υ) : Task υ ω → Bool
  | .emitting other | .job other | .creating other _ | .applying other _ _ | .closing other _ => other = log
  | _ => false

structure LogOk (batchSize : Nat) (log : υ) (shared : Shared ω) (requests : Nat) (tasks : List (Task υ ω)) : Prop where
  sound : Sound shared
  single : tasks.countP (isJob log) = if requests = 0 then 0 else 1
  valid : ∀ task ∈ tasks, logOf task = log → TaskOk shared.log requests task
  driven : Behind shared → Announces shared.writer ∨ ∃ task ∈ tasks, Drives batchSize log requests shared.log.top task

lemma isCall_plain (call : isCall task = true) (log : υ) : isJob log task = false ∧ isEvent task = false := by
  cases task with
  | add | addOp => exact ⟨rfl,rfl⟩
  | _ => cases call

lemma isJob_log (job : isJob log task = true) : logOf task = log := by
  cases task <;> simp_all [isJob,logOf]

lemma taskOk_free (here : logOf task = log) (free : isJob log task = false)
    (trlog : Log ω) (requests : Nat) : TaskOk trlog requests task := by
  cases task <;> simp_all [isJob,logOf,TaskOk]

lemma LogOk.foreign (ok : LogOk batchSize log shared requests tasks)
    {after : List (Task υ ω)} (same : ∀ task, logOf task = log → (task ∈ after ↔ task ∈ tasks))
    (count : after.countP (isJob log) = tasks.countP (isJob log)) : LogOk batchSize log shared requests after where
  sound := ok.sound
  single := count.trans ok.single
  valid task member here := ok.valid task ((same task here).mp member) here
  driven behind := by
    rcases ok.driven behind with announces | ⟨task,member,drives⟩
    · exact .inl announces
    · exact .inr ⟨task,(same task (drives_log drives)).mpr member,drives⟩

lemma countP_foreign (apart : ∀ task ∈ news, logOf task ≠ log) :
    news.countP (isJob log) = 0 := by
  rw [countP_eq_zero]
  exact fun task member job => apart task member (isJob_log job)

lemma single_alone {rest : List (Task υ ω)} (single : (task::rest).countP (isJob log) = if requests = 0 then 0 else 1)
    (job : isJob log task = true) : requests ≠ 0 ∧ ∀ other ∈ rest, isJob log other = false := by
  rw [List.countP_cons_of_pos job] at single
  constructor
  · intro zero
    rw [if_pos zero] at single
    omega
  · have none : rest.countP (isJob log) = 0 := by
      split at single <;> omega
    intro other member
    simpa using countP_eq_zero.mp none other member

lemma LogOk.alone (ok : LogOk batchSize log shared requests (task::rest))
    (job : isJob log task = true) : requests ≠ 0 ∧ ∀ other ∈ rest, isJob log other = false :=
  single_alone ok.single job

lemma LogOk.handover (ok : LogOk batchSize log shared requests (task::rest))
    (count : news.countP (isJob log) = if isJob log task then 1 else 0)
    (fresh : ∀ other ∈ news, TaskOk shared.log requests other)
    (handed : Behind shared → Drives batchSize log requests shared.log.top task →
      ∃ other ∈ news ++ rest, Drives batchSize log requests shared.log.top other) :
    LogOk batchSize log shared requests (news ++ rest) where
  sound := ok.sound
  single := by
    have single := ok.single
    rw [countP_cons] at single
    rw [countP_append,count,← single]
    omega
  valid other member here := by
    rcases mem_append.mp member with new | old
    · exact fresh other new
    · exact ok.valid other (mem_cons_of_mem _ old) here
  driven behind := by
    rcases ok.driven behind with announces | ⟨other,member,drives⟩
    · exact .inl announces
    · rcases mem_cons.mp member with rfl | old
      · exact .inr (handed behind drives)
      · exact .inr ⟨other,mem_append_right _ old,drives⟩

lemma LogOk.become (ok : LogOk batchSize log shared requests (task::rest)) {next : Task υ ω} (kind : isJob log next = isJob log task)
    (fresh : TaskOk shared.log requests next)
    (handed : Behind shared → Drives batchSize log requests shared.log.top task →
      Drives batchSize log requests shared.log.top next) : LogOk batchSize log shared requests (next::rest) := by
  have count : [next].countP (isJob log) = if isJob log task then 1 else 0 := by simp [countP_cons,kind]
  exact ok.handover count (by simpa using fresh) fun behind drives => ⟨next,mem_cons_self,handed behind drives⟩

lemma LogOk.rewrite {after : Shared ω} (ok : LogOk batchSize log shared requests tasks)
    (sound : Sound after) (applied : after.log.applied = shared.log.applied) (top : shared.log.top ≤ after.log.top)
    {now : List (Task υ ω)} (count : now.countP (isJob log) = tasks.countP (isJob log))
    (source : ∀ task ∈ now, isJob log task = true → task ∈ tasks)
    (kept : ∀ task ∈ tasks, Drives batchSize log requests shared.log.top task → task ∈ now)
    (driven : Announces after.writer ∨ .publishing log ∈ now ∨
      after.log.top = shared.log.top ∧ ¬ Announces shared.writer) : LogOk batchSize log after requests now where
  sound := sound
  single := count.trans ok.single
  valid task member here := by
    cases job : isJob log task with
    | false => exact taskOk_free here job _ _
    | true =>
      have old := ok.valid task (source task member job) here
      unfold TaskOk at old ⊢
      split
      · exact old
      · exact old
      · refine ⟨old.1,?_⟩
        have old := old.2
        unfold PointOk at old ⊢
        split
        · exact old.trans applied.symm
        · exact old.trans applied.symm
        · exact ⟨applied.trans_le old.1,old.2.1.trans top,old.2.2⟩
        · exact ⟨applied.trans_le old.1,old.2.trans top⟩
        · trivial
      · trivial
  driven behind := by
    rcases driven with announces | published | ⟨same,silent⟩
    · exact .inl announces
    · exact .inr ⟨_,published,rfl⟩
    · have before : Behind shared := by
        unfold Behind at behind ⊢
        rwa [← applied,← same]
      rcases ok.driven before with announces | ⟨task,member,drives⟩
      · exact absurd announces silent
      · exact .inr ⟨task,kept task member drives,same ▸ drives⟩

lemma advance_ok {after : Shared ω} {tasks : List (Task υ ω)}
    (ok : LogOk batchSize log shared requests tasks) (done : advance true shared = some (notified,after)) :
    LogOk batchSize log after requests ((if notified then [.publishing log] else []) ++ tasks) := by
  obtain ⟨sound,applied,top,driven⟩ := advance_sound ok.sound done
  refine ok.rewrite sound applied top ?_ ?_ ?_ ?_
  · cases notified <;> simp [isJob]
  · intro task member job
    rcases mem_append.mp member with new | old
    · cases notified with
      | false => cases new
      | true =>
        rw [mem_singleton.mp new] at job
        cases job
    · exact old
  · exact fun task member _ => mem_append_right _ member
  · rcases driven with announces | rfl | same
    · exact .inl announces
    · exact .inr (.inl mem_cons_self)
    · exact .inr (.inr same)

lemma begin_ok {after : Shared ω}
    (ok : LogOk batchSize log shared requests (task::rest)) (call : isCall task = true)
    (begun : Sound after ∧ after.log = shared.log ∧ ¬ Announces shared.writer) :
    LogOk batchSize log after requests rest := by
  obtain ⟨sound,same,silent⟩ := begun
  have plain := (isCall_plain call log).1
  refine ok.rewrite sound (by rw [same]) (by rw [same]) ?_ ?_ ?_ (.inr (.inr ⟨by rw [same],silent⟩))
  · rw [List.countP_cons_of_neg (by simpa using plain)]
  · exact fun other member _ => mem_cons_of_mem _ member
  · intro other member drives
    rcases mem_cons.mp member with rfl | old
    · cases other with
      | add | addOp => exact drives.elim
      | _ => cases call
    · exact old

lemma returned_ok (ok : LogOk batchSize log shared requests (.applying log seen point::rest)) (n : Nat)
    (short : Behind shared → Drives batchSize log requests shared.log.top (.applying log seen point) →
      batchSize ≤ n ∨ seen ≠ requests) :
    LogOk batchSize log shared requests (afterApply batchSize log seen (.returned n)::rest) := by
  have counted := (ok.valid _ mem_cons_self rfl).1
  simp only [afterApply]
  split
  · exact ok.become rfl ⟨counted,trivial⟩ fun _ _ => rfl
  · rename_i less
    exact ok.become rfl counted fun behind drives => ⟨rfl,(short behind drives).resolve_left less⟩

lemma stored_ok {newPos : Nat}
    (ok : LogOk batchSize log shared requests (.applying log seen (.storing newPos n)::rest))
    (above : shared.log.applied ≤ newPos) (below : newPos ≤ shared.log.top) :
    LogOk batchSize log {shared with log:={shared.log with applied:=newPos}} requests
      (.applying log seen (.saving newPos n)::rest) where
  sound := ⟨ok.sound.bounded,below,ok.sound.writer.moved newPos⟩
  single := ok.single
  valid task member here := by
    rcases mem_cons.mp member with rfl | old
    · exact ⟨(ok.valid _ mem_cons_self rfl).1,trivial⟩
    · exact taskOk_free here ((ok.alone (by simp [isJob])).2 task old) _ _
  driven behind := by
    change newPos < shared.log.top at behind
    rcases ok.driven (above.trans_lt behind) with announces | ⟨task,member,drives⟩
    · exact .inl announces
    · rcases mem_cons.mp member with rfl | old
      · refine .inr ⟨_,mem_cons_self,rfl,?_⟩
        rcases drives.2 with enough | reached | other
        · exact .inl enough
        · exact absurd reached behind.ne
        · exact .inr other
      · exact .inr ⟨task,mem_cons_of_mem _ old,drives⟩

lemma saved_sound (sound : Sound shared) (free : shared.writer = none) (calls : PosCalls) (newPos : Nat) :
    Sound {shared with log:={shared.log with storage:=savePos calls shared.log.storage newPos}} := by
  have same := stored_savePos calls shared.log.storage newPos
  refine ⟨fun id op held => sound.bounded id op (same id ▸ held),sound.applied,?_⟩
  have tight := sound.writer
  rw [free] at tight ⊢
  intro pos below
  obtain ⟨id,op,above,held⟩ := tight pos below
  exact ⟨id,op,above,(same id).trans held⟩

lemma apply_ok {fn : τ → ω → Bool × τ} {after : Shared ω}
    (accepts : ∀ arg op, (fn arg op).1 = true) (unlimited : outcome.limit = none)
    (ok : LogOk batchSize log shared requests (.applying log seen point::rest))
    (done : applyStep fn batchSize outcome arg shared point = some (next,arg',after)) :
    LogOk batchSize log after requests (afterApply batchSize log seen next::rest) := by
  obtain ⟨counted,valid⟩ := ok.valid _ mem_cons_self rfl
  have reads : outcome.calls.read = {} := by simp [Outcome.calls,unlimited]
  cases point with
  | entered =>
    cases done
    exact ok.become rfl ⟨counted,rfl⟩ fun _ _ => rfl
  | loaded pos =>
    change pos = shared.log.applied at valid
    subst valid
    cases done
    split
    · rename_i reached
      exact returned_ok ok 0 fun behind _ => absurd behind (not_lt.mpr reached)
    · exact ok.become rfl ⟨counted,rfl⟩ fun _ _ => rfl
  | checked pos =>
    change pos = shared.log.applied at valid
    subst valid
    simp only [applyStep,reads] at done
    split at done
    · cases done
    · rename_i free
      have free : shared.writer = none := by simpa using free
      have tight : Tight shared.log.storage shared.log.top := by
        have writer := ok.sound.writer
        rwa [free] at writer
      have inside := read_inside ok.sound.bounded ok.sound.applied {} batchSize
      cases done
      split
      · rename_i empty
        refine returned_ok ok 0 fun behind _ => ?_
        exact absurd (length_eq_zero_iff.mp empty) (read_covers ok.sound.bounded tight behind batchSize).1
      · rename_i some
        refine ok.become rfl ⟨counted,inside.1,inside.2,fun _ => ?_⟩ fun behind _ => ⟨rfl,?_⟩
        · exact fun empty => some (length_eq_zero_iff.mpr empty)
        · rw [Nat.zero_add]
          exact (read_covers ok.sound.bounded tight behind batchSize).2.imp_right .inl
  | running list newPos n =>
    obtain ⟨above,below,first⟩ := valid
    cases list with
    | nil =>
      cases done
      unfold stop
      split
      · rename_i zero
        exact absurd rfl (first zero)
      · exact ok.become rfl ⟨counted,above,below⟩ fun _ drives => drives
    | cons entry list =>
      obtain ⟨id,op⟩ := entry
      have accepted := accepts arg op
      cases answer : fn arg op with
      | mk yes other =>
        rw [answer] at accepted
        change yes = true at accepted
        subst accepted
        simp only [applyStep,answer] at done
        cases done
        refine ok.become rfl ⟨counted,above,below,fun zero => absurd zero (succ_ne_zero n)⟩ fun _ drives => ⟨rfl,?_⟩
        refine drives.2.imp (fun enough => ?_) fun other => other
        rw [length_cons] at enough
        omega
  | storing newPos n =>
    obtain ⟨above,below⟩ := valid
    cases done
    exact stored_ok ok above below
  | saving newPos n =>
    simp only [applyStep] at done
    split at done
    · cases done
    · rename_i free
      have free : shared.writer = none := by simpa using free
      cases done
      have sound := saved_sound ok.sound free outcome.calls.pos newPos
      have silent : ¬ Announces shared.writer := by
        rw [free]
        exact id
      exact (returned_ok ok n fun _ drives => drives.2).rewrite sound rfl (le_refl _) rfl
        (fun _ member _ => member) (fun _ member _ => member) (.inr (.inr ⟨rfl,silent⟩))

lemma job_drives {trlog : Log ω} (job : isJob log task = true)
    (valid : TaskOk trlog requests task) (top : Nat) : Drives batchSize log (requests + 1) top task := by
  cases task with
  | applying other seen point =>
    obtain ⟨⟨_,less⟩,_⟩ := valid
    have here : other = log := by simpa [isJob] using job
    have older : seen ≠ requests + 1 := by omega
    cases point with
    | entered | loaded | checked => exact here
    | running | storing => exact ⟨here,.inr (.inr older)⟩
    | saving => exact ⟨here,.inr older⟩
  | closing other seen =>
    obtain ⟨_,less⟩ := valid
    exact ⟨by simpa [isJob] using job,by omega⟩
  | emitting | job | creating => simpa [isJob,Drives] using job
  | add | addOp | publishing | pushing | queued | popped | handling => cases job

lemma Drives.idle (drives : Drives batchSize log requests top task)
    (free : isJob log task = false) (others : Nat) : Drives batchSize log others top task := by
  have here := drives_log drives
  cases task with
  | add | addOp => exact drives
  | publishing | pushing | queued | popped | handling => exact drives
  | emitting | job | creating | applying | closing => exact absurd here (of_decide_eq_false free)

lemma handling_ok (ok : LogOk batchSize log shared requests (.handling log::rest)) :
    LogOk batchSize log shared (requests + 1) ((if requests = 0 then [Task.emitting log] else []) ++ rest) := by
  have single : rest.countP (isJob log) = if requests = 0 then 0 else 1 := ok.single
  have valid : ∀ task ∈ rest, logOf task = log → TaskOk shared.log (requests + 1) task := by
    intro task member here
    have old := ok.valid task (mem_cons_of_mem _ member) here
    unfold TaskOk at old ⊢
    split <;> simp_all <;> omega
  split at single
  · rename_i zero
    refine ⟨ok.sound,by simp [zero,isJob,single],?_,fun _ => .inr ⟨.emitting log,by simp [zero],rfl⟩⟩
    intro task member here
    rw [if_pos zero] at member
    rcases mem_cons.mp member with rfl | old
    · trivial
    · exact valid task old here
  · rename_i some
    rw [if_neg some]
    refine ⟨ok.sound,by simpa using single,valid,fun _ => .inr ?_⟩
    obtain ⟨task,member,job⟩ := List.countP_pos_iff.mp (by omega : 0 < rest.countP (isJob log))
    have old := ok.valid task (mem_cons_of_mem _ member) (isJob_log job)
    exact ⟨task,member,job_drives job old _⟩

lemma closed_ok (ok : LogOk batchSize log shared requests (.closing log requests::rest)) : LogOk batchSize log shared 0 rest := by
  obtain ⟨_,others⟩ := ok.alone (by simp [isJob])
  refine ⟨ok.sound,countP_eq_zero.mpr (by simpa using others),?_,?_⟩
  · exact fun task member here => taskOk_free here (others task member) _ _
  · intro behind
    rcases ok.driven behind with announces | ⟨task,member,drives⟩
    · exact .inl announces
    · rcases mem_cons.mp member with rfl | old
      · exact absurd rfl drives.2
      · exact .inr ⟨task,old,drives.idle (others task old) 0⟩

lemma perform_ok (accepts : ∀ log arg op, (fn log arg op).1 = true)
    (works : outcome.works = true) (unlimited : outcome.limit = none) (found : outcome.found = true)
    {after : View ω τ}
    (ok : LogOk batchSize (logOf task) view.shared view.requests (task::rest))
    (busy : ∀ log, task = .publishing log → view.eventsGen ≠ 0 → ∃ event ∈ rest, isEvent event ∧ logOf event = log)
    (done : perform fn batchSize outcome view task = some (news,after)) :
    LogOk batchSize (logOf task) after.shared after.requests (news ++ rest) ∧
      ∀ other ∈ news, logOf other = logOf task := by
  cases perform_performed works done with
  | @add log rows shared begun => exact ⟨begin_ok ok rfl (beginAdd_sound ok.sound rows begun),by simp⟩
  | @addOp log op shared begun => exact ⟨begin_ok ok rfl (beginAddOp_sound ok.sound op begun),by simp⟩
  | published | pushed | queued | popped | emitted => exact ⟨ok.become rfl trivial fun _ _ => rfl,by simp [logOf]⟩
  | @merged log taken =>
    refine ⟨ok.handover rfl (by simp) fun _ _ => ?_,by simp⟩
    obtain ⟨event,member,kind,rfl⟩ := busy log rfl taken
    exact ⟨event,member,event_drives kind⟩
  | handled =>
    refine ⟨handling_ok ok,?_⟩
    split <;> simp [logOf]
  | started =>
    have counted := (ok.alone (by simp [isJob,logOf])).1
    exact ⟨ok.become rfl ⟨Nat.pos_of_ne_zero counted,le_refl _⟩ fun _ _ => rfl,by simp [logOf]⟩
  | created =>
    rw [if_pos found]
    have counted := ok.valid _ mem_cons_self rfl
    exact ⟨ok.become rfl ⟨counted,trivial⟩ fun _ _ => rfl,by simp [logOf]⟩
  | @applied log seen point next arg shared stepped =>
    refine ⟨apply_ok (accepts log) unlimited ok stepped,?_⟩
    intro other member
    rw [mem_singleton.mp member]
    unfold afterApply
    split
    · rfl
    · split <;> rfl
  | closed => exact ⟨closed_ok ok,by simp⟩
  | again =>
    have counted := ok.valid _ mem_cons_self rfl
    have some : 0 < view.requests := counted.1.trans_le counted.2
    exact ⟨ok.become rfl ⟨some,le_refl _⟩ fun _ _ => rfl,by simp [logOf]⟩

structure Good (batchSize : Nat) (state : State υ ω τ) : Prop where
  logs : ∀ log, LogOk batchSize log (state.logs log) (state.requests log) state.tasks
  events : EventsOk state.eventsGen state.tasks

lemma initial_good (batchSize : Nat) (arg : τ) : Good batchSize (initial arg : State υ ω τ) where
  logs log := by
    refine ⟨⟨?_,le_refl _,?_⟩,rfl,by simp [initial],fun behind => absurd behind (lt_irrefl _)⟩
    · intro id op held
      cases held
    · exact fun pos below => absurd below (Nat.not_lt_zero pos)
  events := ⟨rfl,Nat.zero_le _⟩

lemma Good.settle {state : State υ ω τ}
    (old : List (Task υ ω))
    (others : ∀ other, LogOk batchSize other (state.logs other) (state.requests other) (old ++ state.tasks))
    (away : ∀ task ∈ old, logOf task = log) (new : ∀ task ∈ news, logOf task = log)
    (own : LogOk batchSize log view.shared view.requests (news ++ state.tasks))
    (events : EventsOk view.eventsGen (news ++ state.tasks)) : Good batchSize (settle state log view news) where
  logs other := by
    simp only [Committer.settle]
    split
    · rename_i same
      subst same
      exact own
    · rename_i different
      have apart : ∀ {tasks : List (Task υ ω)}, (∀ task ∈ tasks, logOf task = log) →
          ∀ task ∈ tasks, logOf task ≠ other := by
        intro tasks inside task member here
        exact different (here.symm.trans (inside task member))
      refine (others other).foreign ?_ ?_
      · intro task here
        simp only [mem_append]
        constructor
        · intro member
          exact .inr (member.resolve_left fun fresh => apart new task fresh here)
        · intro member
          exact .inr (member.resolve_left fun gone => apart away task gone here)
      · rw [countP_append,countP_append,countP_foreign (apart new),countP_foreign (apart away)]
  events := events

lemma LogOk.called (ok : LogOk batchSize log shared requests tasks) (call : isCall task = true) :
    LogOk batchSize log shared requests (task::tasks) := by
  have plain := (isCall_plain call log).1
  refine ⟨ok.sound,?_,?_,fun behind => ?_⟩
  · rw [List.countP_cons_of_neg (by simpa using plain)]
    exact ok.single
  · intro other member here
    rcases mem_cons.mp member with rfl | old
    · exact taskOk_free here plain _ _
    · exact ok.valid other old here
  · rcases ok.driven behind with announces | ⟨other,member,drives⟩
    · exact .inl announces
    · exact .inr ⟨other,mem_cons_of_mem _ member,drives⟩

variable [DecidableEq ω]

def ownStep (fn : υ → τ → ω → Bool × τ) (batchSize : Nat) : State υ ω τ → Action υ ω → Option (State υ ω τ) :=
  only (fun state action => clean action && ownEvents state action) (step fn batchSize)

lemma step_good (accepts : ∀ log arg op, (fn log arg op).1 = true)
    {state : State υ ω τ} (good : Good batchSize state) (moved : ownStep fn batchSize state action = some next) :
    Good batchSize next := by
  obtain ⟨accepted,moved⟩ := only_some moved
  rw [and_eq_true] at accepted
  obtain ⟨tidy,own⟩ := accepted
  cases action with
  | call task =>
    simp only [step] at moved
    split at moved
    · rename_i call
      cases moved
      refine ⟨fun log => (good.logs log).called call,?_⟩
      have silent := (isCall_plain call (logOf task)).2
      have events := good.events
      unfold EventsOk at events ⊢
      rw [List.countP_cons_of_neg (by simpa using silent)]
      exact events
    · cases moved
  | perform task outcome =>
    simp only [clean,and_eq_true,isNone_iff_eq_none] at tidy
    obtain ⟨⟨works,unlimited⟩,found⟩ := tidy
    simp only [step] at moved
    split at moved
    · rename_i member
      obtain ⟨⟨news,view⟩,done,rfl⟩ := map_eq_some_iff.mp moved
      have perm := List.perm_cons_erase member
      have taken : ∀ log, LogOk batchSize log (state.logs log) (state.requests log) (task::state.tasks.erase task) :=
        fun log => (good.logs log).foreign (fun other _ => perm.symm.mem_iff) (perm.countP_eq _).symm
      have events : EventsOk state.eventsGen (task::state.tasks.erase task) := by
        refine ⟨?_,good.events.2⟩
        rw [← perm.countP_eq]
        exact good.events.1
      have busy : ∀ log, task = .publishing log → (viewOf state (logOf task)).eventsGen ≠ 0 →
          ∃ event ∈ state.tasks.erase task, isEvent event ∧ logOf event = log := by
        intro log same pending
        subst same
        have counted : 0 < (state.tasks.erase (.publishing log)).countP isEvent := by
          have exactly := events.1
          rw [List.countP_cons_of_neg (by simp [isEvent])] at exactly
          exact exactly ▸ Nat.pos_of_ne_zero pending
        obtain ⟨event,inside,kind⟩ := List.countP_pos_iff.mp counted
        simp only [ownEvents,all_eq_true,or_eq_true,not_eq_true',decide_eq_true_eq] at own
        have here := (own event (mem_of_mem_erase inside)).resolve_left (by simp [kind])
        exact ⟨event,inside,kind,here⟩
      obtain ⟨ok,inside⟩ := perform_ok accepts works unlimited found (taken (logOf task)) busy done
      exact Good.settle [task] (fun other => taken other) (by simp) inside ok (perform_events works events done)
    · cases moved
  | advance log works =>
    change works = true at tidy
    subst tidy
    simp only [step] at moved
    obtain ⟨⟨notified,shared⟩,done,rfl⟩ := map_eq_some_iff.mp moved
    have ok := advance_ok (good.logs log) done
    refine Good.settle [] (fun other => good.logs other) (by simp) ?_ ok ?_
    · cases notified <;> simp [logOf]
    · have events := good.events
      unfold EventsOk at events ⊢
      cases notified <;> simpa [isEvent,viewOf] using events

lemma reached_good (accepts : ∀ log arg op, (fn log arg op).1 = true)
    (reached : Machine.Reached (ownStep fn batchSize) (initial arg) state) : Good batchSize state :=
  reached_invariant (initial_good batchSize arg) (fun _ _ _ good moved => step_good accepts good moved) reached

-- An append up to its notification, the way of the event to the committer's
-- job, and the job applying one entry.
def appending (log : υ) (op : ω) : List (Action υ ω) :=
  [.call (.addOp log op),.perform (.addOp log op) {},.advance log true,.advance log true,.advance log true]

def delivering (log : υ) : List (Action υ ω) :=
  [.perform (.pushing log) {},.perform (.queued log) {},.perform (.popped log) {},.perform (.handling log) {},
    .perform (.emitting log) {},.perform (.job log) {},.perform (.creating log 1) {}]

def applying (log : υ) (op : ω) : List (Action υ ω) :=
  ([.entered,.loaded 0,.checked 0,.running [(0,op)] 0 0,.running [] 1 1,.storing 1 1,.saving 1 1].map fun point =>
    .perform (.applying log 1 point) {}) ++ [.perform (.closing log 1) {}]

def observed (state : State (Fin 2) Nat Unit) : Bool × (Nat × Nat) × Nat × Nat :=
  (state.tasks.isEmpty && decide (∀ log : Fin 2, (state.logs log).writer.isNone),
    ((state.logs 0).log.applied,(state.logs 0).log.top),(state.logs 1).log.applied,(state.logs 1).log.top)

lemma observed_iff : observed state = (true,(one,two),three,four) ↔
    Quiescent state ∧ ((state.logs 0).log.applied = one ∧ (state.logs 0).log.top = two) ∧
      (state.logs 1).log.applied = three ∧ (state.logs 1).log.top = four := by
  simp [observed,Quiescent]

-- Log 1 is changed while the event of log 0 is still queued: its notification
-- is taken for a duplicate, and nothing ever applies it.
def overlapping : List (Action (Fin 2) Nat) :=
  appending 0 7 ++ [.perform (.publishing 0) {},.perform (.pushing 0) {}] ++ appending 1 8 ++
    [.perform (.publishing 1) {}] ++ (delivering 0).tail ++ applying 0 7

end MedvedDB.Committer
