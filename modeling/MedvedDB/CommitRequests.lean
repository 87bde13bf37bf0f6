import MedvedDB.Notification

open MedvedDB.Trlog MedvedDB.TrlogSteps MedvedDB.Machine
namespace MedvedDB.Committer

variable {υ ω τ : Type}

-- `owed` is set where a start call has ended since an apply of the log was started.
structure Tracked (υ ω τ : Type) where
  state : State υ ω τ
  owed : υ → Bool

inductive Request (υ ω : Type) where
  | start (log : υ)
  | act (action : Action υ ω)

-- A start call ends when it finds another request or has queued its job.
def owes (requests : Nat) (works owed : Bool) : Task υ ω → Bool
  | .handling _ => if works && requests ≠ 0 then true else owed
  | .emitting _ => if works then true else owed
  | .creating _ _ => if works then false else owed
  | _ => owed

-- What the job of a log has seen of its requests: a start call that ends after the apply
-- was started leaves the counter above it.
def Seen (requests : Nat) (owed : Bool) : Task υ ω → Prop
  | .creating _ seen => seen ≤ requests
  | .applying _ seen _ | .closing _ seen => seen ≤ requests ∧ (owed = true → seen < requests)
  | _ => True

variable {owed : Bool} {requests : Nat} {task : Task υ ω} {log : υ}

lemma Seen.counted (seen : Seen requests owed task) (after : Bool) : Seen (requests + 1) after task := by
  cases task with
  | creating log seen => exact Nat.le_succ_of_le ‹_›
  | applying log value point => exact ⟨Nat.le_succ_of_le seen.1,fun _ => Nat.lt_succ_of_le seen.1⟩
  | closing log value => exact ⟨Nat.le_succ_of_le seen.1,fun _ => Nat.lt_succ_of_le seen.1⟩
  | _ => trivial

lemma afterApply_seen (within : seen ≤ requests ∧ (owed = true → seen < requests)) (batchSize : Nat) (next : Next ω) :
    Seen requests owed (afterApply batchSize log seen next) := by
  cases next with
  | point point => exact within
  | returned n =>
    simp only [afterApply]
    split <;> exact within

variable [DecidableEq υ]

def owedAfter (tracked : Tracked υ ω τ) : Action υ ω → υ → Bool
  | .perform task outcome => fun log =>
    if log = logOf task then owes (tracked.state.requests log) outcome.works (tracked.owed log) task else tracked.owed log
  | _ => tracked.owed

structure Serial (log : υ) (requests : Nat) (owed : Bool) (tasks : List (Task υ ω)) : Prop where
  single : tasks.countP (isJob log) = if requests = 0 then 0 else 1
  settled : requests = 0 → owed = false
  seen : ∀ task ∈ tasks, logOf task = log → Seen requests owed task

lemma seen_free (here : logOf task = log) (free : isJob log task = false) (requests : Nat) (owed : Bool) :
    Seen requests owed task := by
  cases task <;> simp_all [isJob,logOf,Seen]

section Tasks

variable {log : υ} {requests : Nat} {owed : Bool} {task : Task υ ω} {rest news : List (Task υ ω)}

lemma Serial.append (serial : Serial log requests owed rest) (fresh : ∀ other ∈ news, isJob log other = false) : Serial log requests owed (news ++ rest) := by
  have none : news.countP (isJob log) = 0 := countP_eq_zero.mpr fun other member => by simp [fresh other member]
  refine ⟨?_,serial.settled,?_⟩
  · rw [countP_append,none,Nat.zero_add,serial.single]
  · intro other member here
    rcases mem_append.mp member with new | old
    · exact seen_free here (fresh other new) _ _
    · exact serial.seen other old here

lemma Serial.cons (serial : Serial log requests owed rest) (free : isJob log task = false) : Serial log requests owed (task::rest) := by
  have fresh : ∀ other ∈ [task], isJob log other = false := fun other member => mem_singleton.mp member ▸ free
  exact serial.append fresh

lemma Serial.drop (serial : Serial log requests owed (task::rest)) (free : isJob log task = false) : Serial log requests owed rest := by
  refine ⟨?_,serial.settled,fun other member => serial.seen other (mem_cons_of_mem task member)⟩
  have single := serial.single
  rw [List.countP_cons_of_neg (by simp [free])] at single
  exact single

lemma Serial.replace (serial : Serial log requests owed (task::rest)) (free : isJob log task = false) (fresh : ∀ other ∈ news, isJob log other = false) :
    Serial log requests owed (news ++ rest) :=
  (serial.drop free).append fresh

lemma Serial.perm (serial : Serial log requests owed tasks) (order : tasks.Perm rest) : Serial log requests owed rest :=
  ⟨(order.countP_eq _).symm.trans serial.single,serial.settled,fun other member => serial.seen other (order.mem_iff.mpr member)⟩

lemma Serial.turn (serial : Serial log requests owed (task::rest)) (next : Task υ ω) (job : isJob log task = true) (still : isJob log next = true)
    (seen : Seen requests after next) : Serial log requests after (next::rest) := by
  obtain ⟨some,alone⟩ := single_alone serial.single job
  refine ⟨?_,fun zero => absurd zero some,?_⟩
  · have single := serial.single
    rw [List.countP_cons_of_pos job] at single
    rw [List.countP_cons_of_pos still,single]
  · intro other member here
    rcases mem_cons.mp member with rfl | old
    · exact seen
    · exact seen_free here (alone other old) _ _

lemma Serial.counted (serial : Serial log requests owed (task::rest)) (free : isJob log task = false)
    (count : news.countP (isJob log) = if requests = 0 then 1 else 0) (fresh : ∀ other ∈ news, Seen (requests + 1) after other) :
    Serial log (requests + 1) after (news ++ rest) := by
  refine ⟨?_,fun zero => absurd zero (succ_ne_zero _),?_⟩
  · rw [countP_append,count,(serial.drop free).single]
    split <;> simp
  · intro other member here
    rcases mem_append.mp member with new | old
    · exact fresh other new
    · exact (serial.seen other (mem_cons_of_mem task old) here).counted after

lemma Serial.closed {seen : Nat} (serial : Serial log requests owed (.closing log seen::rest)) (same : requests = seen) : Serial log 0 owed rest := by
  obtain ⟨_,alone⟩ := single_alone serial.single (decide_eq_true rfl)
  have behind := (serial.seen _ mem_cons_self rfl).2
  refine ⟨?_,?_,fun other member here => seen_free here (alone other member) _ _⟩
  · exact countP_eq_zero.mpr fun other member => by simp [alone other member]
  · intro _
    cases owed with
    | false => rfl
    | true => exact absurd same (behind rfl).ne'

end Tasks

def orderly : Task υ ω → Bool → Bool
  | .emitting _,works | .creating _ _,works => works
  | _,_ => true

section Performing

variable {fn : υ → τ → ω → Bool × τ} {batchSize : Nat} {outcome : Outcome} {view after : View ω τ} {task : Task υ ω} {rest news : List (Task υ ω)} {owed : Bool}

lemma afterApply_job (batchSize : Nat) (log : υ) (seen : Nat) (next : Next ω) : isJob log (afterApply batchSize log seen next) = true := by
  cases next with
  | point point => exact decide_eq_true rfl
  | returned n =>
    simp only [afterApply]
    split <;> exact decide_eq_true rfl

lemma perform_serial (safe : orderly task outcome.works = true) (serial : Serial (logOf task) view.requests owed (task::rest))
    (done : perform fn batchSize outcome view task = some (news,after)) :
    Serial (logOf task) after.requests (owes view.requests outcome.works owed task) (news ++ rest) := by
  cases task with
  | add log rows | addOp log op =>
    obtain ⟨shared,_,same⟩ := map_eq_some_iff.mp done
    cases same
    exact serial.replace rfl (by simp)
  | publishing log =>
    simp only [perform] at done
    split_ifs at done <;> cases done
    · exact serial.replace rfl (by simp)
    · exact serial.replace rfl (by simp [isJob])
    · exact serial.replace rfl (by simp)
  | pushing log =>
    cases done
    exact serial.replace rfl (by split <;> simp [isJob])
  | queued log | popped log =>
    cases done
    exact serial.replace rfl (by simp [isJob])
  | handling log =>
    simp only [perform] at done
    split at done <;> cases done
    · rename_i fails
      have idle : owes view.requests outcome.works owed (.handling log : Task υ ω) = owed := by
        simp [owes,not_eq_true' _ ▸ fails]
      rw [idle]
      exact serial.replace rfl (by simp)
    · refine serial.counted rfl ?_ ?_
      · split <;> simp [isJob,logOf]
      · intro other member
        split at member
        · obtain rfl := mem_singleton.mp member
          trivial
        · cases member
  | emitting log =>
    have works : outcome.works = true := safe
    simp only [perform,works,if_true] at done
    cases done
    exact serial.turn (.job log) (decide_eq_true rfl) (decide_eq_true rfl) trivial
  | job log =>
    cases done
    exact serial.turn (.creating log view.requests) (decide_eq_true rfl) (decide_eq_true rfl) (le_refl view.requests)
  | creating log seen =>
    have works : outcome.works = true := safe
    have within : seen ≤ view.requests := serial.seen _ mem_cons_self rfl
    have fresh : owes view.requests outcome.works owed (.creating log seen : Task υ ω) = false := by simp [owes,works]
    simp only [perform,works,Bool.not_true,false_eq_true,if_false] at done
    cases done
    rw [fresh]
    split
    · exact serial.turn (.applying log seen .entered) (decide_eq_true rfl) (decide_eq_true rfl) ⟨within,by rintro ⟨⟩⟩
    · exact serial.turn (.closing log seen) (decide_eq_true rfl) (decide_eq_true rfl) ⟨within,by rintro ⟨⟩⟩
  | applying log seen point =>
    obtain ⟨⟨next,arg,shared⟩,_,same⟩ := map_eq_some_iff.mp done
    cases same
    have within := serial.seen _ mem_cons_self rfl
    exact serial.turn (afterApply batchSize log seen next) (decide_eq_true rfl) (afterApply_job batchSize log seen next) (afterApply_seen within batchSize next)
  | closing log seen =>
    simp only [perform] at done
    split at done <;> cases done
    · exact serial.closed ‹_›
    · exact serial.turn (.creating log view.requests) (decide_eq_true rfl) (decide_eq_true rfl) (le_refl view.requests)

lemma afterApply_log (batchSize : Nat) (log : υ) (seen : Nat) (next : Next ω) : logOf (afterApply batchSize log seen next) = log :=
  isJob_log (afterApply_job batchSize log seen next)

lemma perform_log (done : perform fn batchSize outcome view task = some (news,after)) : ∀ other ∈ news, logOf other = logOf task := by
  intro other member
  cases task with
  | add log rows | addOp log op =>
    obtain ⟨shared,_,same⟩ := map_eq_some_iff.mp done
    cases same
    cases member
  | applying log seen point =>
    obtain ⟨⟨next,arg,shared⟩,_,same⟩ := map_eq_some_iff.mp done
    cases same
    obtain rfl := mem_singleton.mp member
    exact afterApply_log batchSize log seen next
  | queued log | popped log | job log =>
    cases done
    simp_all [logOf]
  | publishing log | pushing log | handling log | emitting log
  | creating log seen | closing log seen =>
    simp only [perform] at done
    split_ifs at done <;> cases done <;> simp_all [logOf]

end Performing

-- A job that is queued or has not reset the counter yet, and one that applies the log.
def ofJob (log : υ) : Task υ ω → Bool
  | .job other | .creating other _ | .applying other _ _ | .closing other _ => other = log
  | _ => false

def applies (log : υ) : Task υ ω → Bool
  | .applying other _ _ => other = log
  | _ => false

lemma ofJob_isJob (job : ofJob log task = true) : isJob log task = true := by
  cases task <;> simp_all [ofJob,isJob]

lemma applies_isJob (job : applies log task = true) : isJob log task = true := by
  cases task <;> simp_all [applies,isJob]

lemma isJob_ofJob (job : isJob log task = true) (queued : task ≠ .emitting log) : ofJob log task = true := by
  cases task <;> simp_all [ofJob,isJob]

lemma Serial.job (serial : Serial log requests owed tasks)
    (idle : Task.emitting log ∉ tasks) (some : requests ≠ 0) : ∃ task ∈ tasks, ofJob log task = true := by
  have one := serial.single
  rw [if_neg some] at one
  obtain ⟨task,member,job⟩ := List.countP_pos_iff.mp (one.symm ▸ Nat.one_pos)
  have queued : task ≠ .emitting log := fun same => idle (same ▸ member)
  exact ⟨task,member,isJob_ofJob job queued⟩

def Ordered (tracked : Tracked υ ω τ) : Prop := ∀ log, Serial log (tracked.state.requests log) (tracked.owed log) tracked.state.tasks

variable [DecidableEq ω]

def commitStep (fn : υ → τ → ω → Bool × τ) (batchSize : Nat) (tracked : Tracked υ ω τ) : Request υ ω → Option (Tracked υ ω τ)
  | .start log => some {tracked with state:={tracked.state with tasks:=.handling log::tracked.state.tasks}}
  | .act action => (step fn batchSize tracked.state action).map fun next => ⟨next,owedAfter tracked action⟩

def unfailing (_ : Tracked υ ω τ) : Request υ ω → Bool
  | .act (.perform task outcome) => orderly task outcome.works
  | _ => true

variable {fn : υ → τ → ω → Bool × τ}

lemma step_ordered (ordered : Ordered tracked)
    (moved : only unfailing (commitStep fn batchSize) tracked request = some next) : Ordered next := by
  obtain ⟨accepted,went⟩ := only_some moved
  intro log
  cases request with
  | start other =>
    cases went
    exact (ordered log).cons rfl
  | act action =>
    obtain ⟨state,stepped,rfl⟩ := map_eq_some_iff.mp went
    cases action with
    | call task =>
      simp only [step] at stepped
      by_cases call : isCall task = true
      · rw [if_pos call] at stepped
        cases stepped
        exact (ordered log).cons (isCall_plain call log).1
      · rw [if_neg call] at stepped
        cases stepped
    | advance other works =>
      obtain ⟨⟨notified,shared⟩,_,rfl⟩ := map_eq_some_iff.mp stepped
      have same : (settle tracked.state other {viewOf tracked.state other with shared:=shared} (if notified then [.publishing other] else [])).requests log =
          tracked.state.requests log := by
        simp only [settle,viewOf]
        split
        · rw [‹log = other›]
        · rfl
      change Serial log ((settle _ _ _ _).requests log) (tracked.owed log) _
      rw [same]
      exact (ordered log).append (by split <;> simp [isJob])
    | perform task outcome =>
      simp only [step] at stepped
      split at stepped
      · rename_i member
        obtain ⟨⟨news,view⟩,done,rfl⟩ := map_eq_some_iff.mp stepped
        have before := (ordered log).perm (List.perm_cons_erase member)
        have inside := perform_log done
        by_cases here : log = logOf task
        · subst here
          have after := perform_serial accepted before done
          simpa [settle,owedAfter,viewOf] using after
        · have apart : ∀ other : Task υ ω, logOf other = logOf task → isJob log other = false := by
            intro other same
            cases job : isJob log other with
            | false => rfl
            | true => exact absurd ((isJob_log job).symm.trans same) here
          have after := before.replace (apart task rfl) (fun other member => apart other (inside other member))
          simpa [settle,owedAfter,here] using after
      · cases stepped

lemma reached_ordered (reached : Reached (only unfailing (commitStep fn batchSize)) ⟨initial arg,fun _ => false⟩ tracked) : Ordered tracked := by
  apply reached_invariant ?_ (fun _ _ _ => step_ordered) reached
  intro log
  exact ⟨rfl,fun _ => rfl,nofun⟩

section Runs

variable {fn : υ → τ → ω → Bool × τ} {batchSize : Nat} {arg : τ} {tracked : Tracked υ ω τ}

theorem one_job_per_log (reached : Reached (only unfailing (commitStep fn batchSize)) ⟨initial arg,fun _ => false⟩ tracked) (log : υ) :
    tracked.state.tasks.countP (ofJob log) ≤ 1 ∧ tracked.state.tasks.countP (applies log) ≤ 1 ∧
      (tracked.state.tasks.countP (ofJob log) = 0 → Task.emitting log ∉ tracked.state.tasks → tracked.owed log = false) := by
  have serial := reached_ordered reached log
  have most : tracked.state.tasks.countP (isJob log) ≤ 1 := by
    rw [serial.single]
    split <;> simp
  refine ⟨?_,?_,?_⟩
  · exact (List.countP_mono_left fun task _ => ofJob_isJob).trans most
  · exact (List.countP_mono_left fun task _ => applies_isJob).trans most
  · intro none idle
    apply serial.settled
    by_contra some
    obtain ⟨task,member,job⟩ := serial.job idle some
    exact countP_eq_zero.mp none task member job

theorem requests_have_job (reached : Reached (only unfailing (commitStep fn batchSize)) ⟨initial arg,fun _ => false⟩ tracked) (log : υ)
    (idle : Task.emitting log ∉ tracked.state.tasks) (some : 0 < tracked.state.requests log) : ∃ task ∈ tracked.state.tasks, ofJob log task = true := by
  have serial := reached_ordered reached log
  exact serial.job idle (Nat.ne_of_gt some)

end Runs

section Traces

abbrev Lone := Tracked (Fin 1) Nat Unit

def fresh : Lone := ⟨initial (),fun _ => false⟩

def loneStep : Lone → Request (Fin 1) Nat → Option Lone := commitStep (fun _ arg _ => (true,arg)) 10

def performed (tasks : List (Task (Fin 1) Nat)) : List (Request (Fin 1) Nat) := tasks.map fun task => .act (.perform task {})

def starting : List (Request (Fin 1) Nat) := .start 0::performed [.handling 0]

def round (seen : Nat) : List (Request (Fin 1) Nat) :=
  performed [.creating 0 seen,.applying 0 seen .entered,.applying 0 seen (.loaded 0),.closing 0 seen]

def summary (lone : Lone) : List (Task (Fin 1) Nat) × Nat × Bool := (lone.state.tasks,lone.state.requests 0,lone.owed 0)

lemma summary_run {step : Lone → Request (Fin 1) Nat → Option Lone} {requests : List (Request (Fin 1) Nat)} {tasks : List (Task (Fin 1) Nat)} {count : Nat} {owed : Bool}
    (runs : (requests.foldlM step fresh).map summary = some (tasks,count,owed)) :
    ∃ lone, Reached step fresh lone ∧ lone.state.tasks = tasks ∧ lone.state.requests 0 = count ∧ lone.owed 0 = owed := by
  obtain ⟨lone,ran,same⟩ := map_eq_some_iff.mp runs
  obtain ⟨rfl,rest⟩ := Prod.mk.inj same
  obtain ⟨rfl,rfl⟩ := Prod.mk.inj rest
  exact ⟨lone,⟨requests,ran⟩,rfl,rfl,rfl⟩

-- The second start call ends before the first one has queued the job.
theorem start_before_job : ∃ lone, Reached (only unfailing loneStep) fresh lone ∧ lone.state.tasks.countP (ofJob 0) = 0 ∧ lone.owed 0 = true := by
  have runs : ((starting ++ starting).foldlM (only unfailing loneStep) fresh).map summary = some ([.emitting 0],2,true) := by decide +kernel
  obtain ⟨lone,reached,tasks,_,owed⟩ := summary_run runs
  refine ⟨lone,reached,?_,owed⟩
  rw [tasks]
  rfl

theorem start_during_apply : ∃ lone, Reached (only unfailing loneStep) fresh lone ∧ lone.state.tasks = [] ∧ lone.owed 0 = false := by
  have runs : ((starting ++ performed [.emitting 0,.job 0,.creating 0 1] ++ starting ++ (round 1).tail ++ round 2).foldlM (only unfailing loneStep) fresh).map summary =
      some ([],0,false) := by decide +kernel
  obtain ⟨lone,reached,tasks,_,_⟩ := summary_run runs
  have idle : Task.emitting 0 ∉ lone.state.tasks := by simp [tasks]
  have none : lone.state.tasks.countP (ofJob 0) = 0 := by simp [tasks]
  exact ⟨lone,reached,tasks,(one_job_per_log reached 0).2.2 none idle⟩

theorem request_with_job : ∃ lone, Reached (only unfailing loneStep) fresh lone ∧ 0 < lone.state.requests 0 ∧ ∃ task ∈ lone.state.tasks, ofJob 0 task = true := by
  have runs : ((starting ++ performed [.emitting 0]).foldlM (only unfailing loneStep) fresh).map summary = some ([.job 0],1,true) := by decide +kernel
  obtain ⟨lone,reached,tasks,count,_⟩ := summary_run runs
  have idle : Task.emitting 0 ∉ lone.state.tasks := by simp [tasks]
  have some : 0 < lone.state.requests 0 := by simp [count]
  exact ⟨lone,reached,some,requests_have_job reached 0 idle some⟩

theorem request_without_job :
    (∃ lone, Reached loneStep fresh lone ∧ lone.state.requests 0 = 1 ∧ lone.state.tasks = []) ∧
      ∃ lone, Reached loneStep fresh lone ∧ lone.state.requests 0 = 2 ∧ lone.state.tasks = [] := by
  let failing : List (Request (Fin 1) Nat) := starting ++ [.act (.perform (.emitting 0) {works:=false})]
  have fails : (failing.foldlM loneStep fresh).map summary = some ([],1,false) := by decide +kernel
  have again : ((failing ++ starting).foldlM loneStep fresh).map summary = some ([],2,true) := by decide +kernel
  obtain ⟨first,reached,tasks,count,_⟩ := summary_run fails
  obtain ⟨second,later,none,two,_⟩ := summary_run again
  exact ⟨⟨first,reached,count,tasks⟩,second,later,two,none⟩

end Traces

end MedvedDB.Committer
