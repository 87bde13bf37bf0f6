import MedvedDB.Replication

open MedvedDB.Lmdb MedvedDB.Trlog MedvedDB.Machine
namespace MedvedDB.Replication

variable {υ ω : Type}

def Genuine (state : State υ ω) (log : υ) (id : Nat) (op : ω) : Prop :=
  stored (state.logs log log).storage id = some op

def Along (net : Network υ) (chan : Channel υ) : Prop :=
  chan.peer ∈ net.peers chan.node ∧ chan.peer ≠ chan.log

-- What no step takes back: positions only grow and entries stay as they are.
structure Grows (before after : State υ ω) : Prop where
  top : ∀ node log, (before.logs node log).top ≤ (after.logs node log).top
  kept : ∀ {node log id op}, stored (before.logs node log).storage id = some op →
    stored (after.logs node log).storage id = some op
  synced : ∀ chan, (before.syncers chan).synced ≤ (after.syncers chan).synced

def RowsOk (state : State υ ω) (chan : Channel υ) (rows : List (Nat × ω)) : Prop :=
  ∀ id op, (id,op) ∈ rows → Genuine state chan.log id op ∧ id < (state.syncers chan).synced

-- A local copy of `synced` is at most the shared one or what the peer has told.
def Within (state : State υ ω) (chan : Channel υ) (pos : Nat) : Prop :=
  pos ≤ (state.syncers chan).synced ∨ pos ≤ (state.logs chan.peer chan.log).top

def PointOk (state : State υ ω) (chan : Channel υ) : Point → Prop
  | .entered pos => pos ≤ (state.logs chan.peer chan.log).top
  | .loaded pos _ => pos ≤ (state.logs chan.peer chan.log).top
  | .reading _ synced => Within state chan synced
  | .swapping _ synced range top => synced ≤ range ∧ range ≤ top ∧ top ≤ (state.logs chan.node chan.log).top
  | .emitting _ synced range top => synced ≤ range ∧ range ≤ (state.syncers chan).synced ∧ range ≤ top ∧
      top ≤ (state.logs chan.node chan.log).top
  | .closing _ synced => Within state chan synced

def TaskOk (net : Network υ) (state : State υ ω) : Task υ ω → Prop
  | .addOp _ _ => True
  | .start chan | .counting chan | .publishing chan | .sync chan | .report chan => Along net chan
  | .state chan top => Along net chan ∧ top ≤ (state.logs chan.peer chan.log).top
  | .schedule chan point => Along net chan ∧ PointOk state chan point
  | .send chan _ upper => Along net chan ∧ upper ≤ (state.syncers chan).synced ∧
      upper ≤ (state.logs chan.node chan.log).top
  | .data chan rows | .save chan rows => Along net chan ∧ RowsOk state chan rows

def WriterOk (net : Network υ) (state : State υ ω) (node log : υ) (entry : NodeLog υ ω) : Prop :=
  match entry.writer with
  | none => True
  | some (.adding id _) => node = log ∧ id + 1 = entry.top ∧ stored entry.storage id = none
  | some (.saving chan rest txn _) => chan.peer = node ∧ chan.log = log ∧ Along net chan ∧ RowsOk state chan rest ∧
      (∀ id op, stored entry.storage id = some op → stored txn.work id = some op) ∧
      (∀ id op, stored txn.work id = some op → Genuine state log id op) ∧ Bounded txn.work entry.top

structure LogOk (net : Network υ) (state : State υ ω) (node log : υ) (entry : NodeLog υ ω) : Prop where
  bounded : Bounded entry.storage entry.top
  genuine : ∀ id op, stored entry.storage id = some op → Genuine state log id op
  source : node ≠ log → entry.top = 0 ∨
    ∃ chan, Along net chan ∧ chan.peer = node ∧ chan.log = log ∧ entry.top ≤ (state.syncers chan).synced
  writer : WriterOk net state node log entry

structure Safe (net : Network υ) (state : State υ ω) : Prop where
  logs : ∀ node log, LogOk net state node log (state.logs node log)
  tasks : ∀ task ∈ state.tasks, TaskOk net state task

variable {id : Nat} {net : Network υ} {entry : NodeLog υ ω} {after before state : State υ ω} {op : ω}

lemma RowsOk.grows (valid : RowsOk before chan rows) (grows : Grows before after) :
    RowsOk after chan rows := by
  intro id op member
  obtain ⟨genuine,below⟩ := valid id op member
  exact ⟨grows.kept genuine,below.trans_le (grows.synced chan)⟩

lemma Within.grows (valid : Within before chan pos) (grows : Grows before after) :
    Within after chan pos :=
  valid.imp (fun below => below.trans (grows.synced chan)) (fun below => below.trans (grows.top chan.peer chan.log))

lemma TaskOk.grows (valid : TaskOk net before task) (grows : Grows before after) : TaskOk net after task := by
  cases task with
  | addOp | start | counting | publishing | sync | report => exact valid
  | state chan top => exact ⟨valid.1,valid.2.trans (grows.top _ _)⟩
  | send chan lower upper => exact ⟨valid.1,valid.2.1.trans (grows.synced chan),valid.2.2.trans (grows.top _ _)⟩
  | data chan rows => exact ⟨valid.1,valid.2.grows grows⟩
  | save chan rows => exact ⟨valid.1,valid.2.grows grows⟩
  | schedule chan point =>
    obtain ⟨along,valid⟩ := valid
    refine ⟨along,?_⟩
    cases point with
    | entered pos => exact le_trans valid (grows.top _ _)
    | loaded pos requests => exact le_trans valid (grows.top _ _)
    | reading requests synced => exact Within.grows valid grows
    | swapping requests synced range top => exact ⟨valid.1,valid.2.1,valid.2.2.trans (grows.top _ _)⟩
    | emitting requests synced range top =>
      exact ⟨valid.1,valid.2.1.trans (grows.synced chan),valid.2.2.1,valid.2.2.2.trans (grows.top _ _)⟩
    | closing requests synced => exact Within.grows valid grows

lemma LogOk.grows (valid : LogOk net before node log entry)
    (grows : Grows before after) : LogOk net after node log entry where
  bounded := valid.bounded
  genuine id op held := grows.kept (valid.genuine id op held)
  source foreign := by
    rcases valid.source foreign with empty | ⟨chan,along,peer,same,below⟩
    · exact .inl empty
    · exact .inr ⟨chan,along,peer,same,below.trans (grows.synced chan)⟩
  writer := by
    have writer := valid.writer
    unfold WriterOk at writer ⊢
    split
    · trivial
    · rename_i found
      simpa [found] using writer
    · rename_i found
      simp only [found] at writer
      obtain ⟨peer,same,along,rows,kept,genuine,bounded⟩ := writer
      exact ⟨peer,same,along,rows.grows grows,kept,fun id op held => grows.kept (genuine id op held),bounded⟩

lemma grows_retask (state : State υ ω) (tasks : List (Task υ ω)) : Grows state {state with tasks:=tasks} :=
  ⟨fun _ _ => le_refl _,fun held => held,fun _ => le_refl _⟩

lemma Safe.retask (safe : Safe net state) {tasks : List (Task υ ω)}
    (valid : ∀ task ∈ tasks, TaskOk net state task) : Safe net {state with tasks:=tasks} where
  logs node log := (safe.logs node log).grows (grows_retask state tasks)
  tasks task member := (valid task member).grows (grows_retask state tasks)

lemma Safe.push (safe : Safe net state) (valid : TaskOk net state task) :
    Safe net (push state task) :=
  safe.retask fun other member => (mem_cons.mp member).elim (fun same => same ▸ valid) (safe.tasks other)

lemma initial_safe (net : Network υ) : Safe net (initial : State υ ω) where
  logs node log := by
    refine ⟨?_,?_,fun _ => .inl rfl,trivial⟩
    · intro id op held
      cases held
    · intro id op held
      cases held
  tasks task member := by cases member

variable [DecidableEq υ]

lemma Safe.notify (safe : Safe net state) (node log : υ) :
    Safe net (notify net state node log) := by
  apply safe.retask
  intro task member
  rcases mem_append.mp member with fresh | old
  · obtain ⟨peer,listed,rfl⟩ := mem_map.mp fresh
    obtain ⟨listed,foreign⟩ := mem_filter.mp listed
    exact ⟨listed,by simpa using foreign⟩
  · exact safe.tasks task old

lemma grows_setLog (higher : (state.logs node log).top ≤ entry.top)
    (kept : ∀ id op, stored (state.logs node log).storage id = some op → stored entry.storage id = some op) :
    Grows state (setLog state node log entry) where
  top one two := by
    simp only [setLog]
    split
    · rename_i same
      rw [same.1,same.2]
      exact higher
    · exact le_refl _
  kept := by
    intro one two id op held
    simp only [setLog]
    split
    · rename_i same
      rw [same.1,same.2] at held
      exact kept id op held
    · exact held
  synced chan := le_refl _

lemma Safe.setLog (safe : Safe net state)
    (grows : Grows state (setLog state node log entry)) (valid : LogOk net (setLog state node log entry) node log entry) :
    Safe net (setLog state node log entry) where
  logs one two := by
    by_cases same : one = node ∧ two = log
    · obtain ⟨rfl,rfl⟩ := same
      simpa [Replication.setLog] using valid
    · have old := (safe.logs one two).grows grows
      simpa [Replication.setLog,same] using old
  tasks task member := (safe.tasks task member).grows grows

lemma Safe.relog (safe : Safe net state)
    (grows : Grows state (Replication.setLog state node log entry)) (valid : LogOk net state node log entry) :
    Safe net (Replication.setLog state node log entry) := safe.setLog grows (valid.grows grows)

lemma Safe.setSyncer (safe : Safe net state)
    (higher : (state.syncers chan).synced ≤ syncer.synced) : Safe net (setSyncer state chan syncer) := by
  have grows : Grows state (Replication.setSyncer state chan syncer) := by
    refine ⟨fun _ _ => le_refl _,fun held => held,fun other => ?_⟩
    simp only [Replication.setSyncer]
    split
    · rename_i same
      rw [same]
      exact higher
    · exact le_refl _
  exact ⟨fun node log => (safe.logs node log).grows grows,fun task member => (safe.tasks task member).grows grows⟩

lemma scheduleStep_safe (safe : Safe net state) (along : Along net chan)
    (batchSize : Nat) (outcome : Outcome) (point : Point) (valid : PointOk state chan point) :
    Safe net (scheduleStep batchSize state chan outcome point) := by
  cases point with
  | entered pos => exact safe.push ⟨along,valid⟩
  | loaded pos requests =>
    refine safe.push ⟨along,?_⟩
    change Within state chan _
    split
    · exact .inr valid
    · exact .inl (le_refl _)
  | reading requests synced =>
    simp only [scheduleStep]
    split
    · exact safe.push ⟨along,valid⟩
    · rename_i below
      refine safe.push ⟨along,?_,min_le_left _ _,le_refl _⟩
      exact le_min (not_le.mp below).le (Nat.le_add_right _ _)
  | swapping requests synced range top =>
    obtain ⟨first,second,third⟩ := valid
    simp only [scheduleStep]
    split
    · rename_i swaps
      have higher : (state.syncers chan).synced ≤ range := swaps.1.trans_le first
      have swapped : Safe net (setSyncer state chan {state.syncers chan with synced:=range}) := safe.setSyncer higher
      have now : ((setSyncer state chan {state.syncers chan with synced:=range}).syncers chan).synced = range := by
        simp [setSyncer]
      split
      · exact swapped.push ⟨along,first,now.ge,second,third⟩
      · split
        · exact swapped.push ⟨along,.inl (first.trans now.ge)⟩
        · exact swapped.push ⟨along,.inl (first.trans now.ge)⟩
    · exact safe.push ⟨along,.inl (le_refl _)⟩
  | emitting requests synced range top =>
    obtain ⟨first,second,third,fourth⟩ := valid
    have emitted : Safe net (if outcome.works then push state (.send chan synced range) else state) := by
      split
      · exact safe.push ⟨along,second,third.trans fourth⟩
      · exact safe
    simp only [scheduleStep]
    split <;> refine emitted.push ⟨along,.inl ?_⟩ <;> split <;> exact second
  | closing requests synced =>
    simp only [scheduleStep]
    split
    · exact safe.setSyncer (le_refl _)
    · exact safe.push ⟨along,valid⟩

lemma genuine_setLog :
    Genuine (setLog state node node entry) node id op ↔ stored entry.storage id = some op := by
  simp [Genuine,setLog]

lemma Safe.rewriter (safe : Safe net state)
    (valid : WriterOk net state node log {state.logs node log with writer:=writer}) :
    Safe net (Replication.setLog state node log {state.logs node log with writer:=writer}) := by
  have grows : Grows state (Replication.setLog state node log {state.logs node log with writer:=writer}) :=
    grows_setLog (le_refl _) fun _ _ held => held
  have old := safe.logs node log
  exact safe.relog grows ⟨old.bounded,old.genuine,old.source,valid⟩

lemma perform_safe (safe : Safe net state)
    (valid : TaskOk net state task) (done : perform batchSize state outcome task = some next) : Safe net next := by
  cases task with
  | addOp node op =>
    simp only [perform] at done
    split at done
    · cases done
    · split at done
      · cases done
        exact safe
      · cases done
        have old := safe.logs node node
        have grows : Grows state (setLog state node node {state.logs node node with
            top:=(state.logs node node).top + 1,writer:=some (.adding (state.logs node node).top op)}) :=
          grows_setLog (le_succ _) fun _ _ held => held
        refine safe.setLog grows ⟨?_,?_,?_,?_⟩
        · exact fun id op held => (old.bounded id op held).trans (lt_succ_self _)
        · exact fun id op held => genuine_setLog.mpr held
        · exact fun foreign => absurd rfl foreign
        · exact ⟨rfl,rfl,old.bounded.free⟩
  | start chan =>
    simp only [perform] at done
    split at done
    · cases done
      exact safe
    · cases done
      exact safe.push valid
  | counting chan =>
    have counted : Safe net (setSyncer state chan {state.syncers chan with
        requests:=(state.syncers chan).requests + 1}) := safe.setSyncer (le_refl _)
    simp only [perform] at done
    split at done
    · cases done
      exact counted
    · cases done
      exact counted.push valid
  | publishing chan =>
    simp only [perform] at done
    split at done
    · cases done
      exact safe.push valid
    · cases done
      exact safe.setSyncer (le_refl _)
  | sync chan =>
    simp only [perform] at done
    split at done
    · cases done
      exact safe
    · cases done
      refine safe.push ⟨valid,?_⟩
      split
      · exact le_refl _
      · exact Nat.zero_le _
  | state chan top =>
    simp only [perform] at done
    split at done
    · cases done
      exact safe.push valid
    · cases done
      exact safe
  | schedule chan point =>
    cases done
    exact scheduleStep_safe safe valid.1 batchSize outcome point valid.2
  | send chan lower upper =>
    simp only [perform] at done
    split at done
    · cases done
    · split at done
      · cases done
        exact safe
      · cases done
        refine safe.push ⟨valid.1,?_⟩
        intro id op member
        obtain ⟨held,_,below⟩ := rangeRead_mem member
        exact ⟨(safe.logs _ _).genuine id op held,below.trans_le valid.2.1⟩
  | data chan rows =>
    simp only [perform] at done
    split at done
    · cases done
      exact safe.push valid
    · cases done
      exact safe
  | save chan rows =>
    simp only [perform] at done
    split at done
    · cases done
    · split at done
      · cases done
        exact safe.push ⟨valid.1,Nat.zero_le _⟩
      split at done
      · cases done
        exact safe.push valid.1
      · cases done
        have old := safe.logs chan.peer chan.log
        exact safe.rewriter ⟨rfl,rfl,valid.1,valid.2,fun id op held => held,old.genuine,old.bounded⟩
  | report chan =>
    simp only [perform] at done
    split at done
    · cases done
      exact safe.push ⟨valid,le_refl _⟩
    · cases done
      exact safe

lemma adding_safe (safe : Safe net state)
    (found : (state.logs node log).writer = some (.adding id op))
    (done : advance net state node log works = some next) : Safe net next := by
  have old := safe.logs node log
  have writer := old.writer
  simp only [WriterOk,found] at writer
  obtain ⟨rfl,last,free⟩ := writer
  simp only [advance,found] at done
  split at done
  · cases done
    apply Safe.notify
    have grows : Grows state (setLog state node node
        ⟨appended (state.logs node node).storage id op,(state.logs node node).top,none⟩) := by
      refine grows_setLog (le_refl _) fun other value held => ?_
      rw [stored_appended,if_neg fun same => by rw [same,free] at held; cases held]
      exact held
    refine safe.setLog grows ⟨?_,?_,?_,trivial⟩
    · intro other value held
      rw [stored_appended] at held
      split at held
      · change other < (state.logs node node).top
        omega
      · exact old.bounded other value held
    · exact fun other value held => genuine_setLog.mpr held
    · exact fun foreign => absurd rfl foreign
  · cases done
    exact safe.rewriter trivial

lemma commit_safe (safe : Safe net state)
    (found : (state.logs node log).writer = some (.saving chan [] txn changed))
    (done : advance net state node log works = some next) : Safe net next := by
  have old := safe.logs node log
  have writer := old.writer
  simp only [WriterOk,found] at writer
  obtain ⟨_,_,along,_,kept,genuine,bounded⟩ := writer
  simp only [advance,found] at done
  split at done
  · rename_i storage committed
    cases done
    obtain ⟨_,rfl⟩ := commit_cases committed
    have grows : Grows state (setLog state node log ⟨txn.work,(state.logs node log).top,none⟩) :=
      grows_setLog (le_refl _) kept
    have saved : Safe net (setLog state node log ⟨txn.work,(state.logs node log).top,none⟩) :=
      safe.relog grows ⟨bounded,genuine,old.source,trivial⟩
    refine Safe.push ?_ along
    split
    · exact saved.notify _ _
    · exact saved
  · cases done
    have closed : Safe net (setLog state node log {state.logs node log with writer:=none}) := safe.rewriter trivial
    exact closed.push along

lemma put_safe (safe : Safe net state)
    (found : (state.logs node log).writer = some (.saving chan ((id,op)::rest) txn changed))
    (done : advance net state node log works = some next) : Safe net next := by
  have old := safe.logs node log
  have writer := old.writer
  simp only [WriterOk,found] at writer
  obtain ⟨rfl,rfl,along,rows,kept,genuine,bounded⟩ := writer
  obtain ⟨rowGenuine,rowBelow⟩ := rows id op mem_cons_self
  have later : RowsOk state chan rest := fun id op member => rows id op (mem_cons_of_mem _ member)
  simp only [advance,found] at done
  split at done
  · rename_i after put
    cases done
    obtain ⟨impossible,_⟩ | ⟨_,map,content,free,rfl⟩ := putUnique_cases put
    · cases impossible
    have extended := extends_insert content free op
    have higher := (idMaximize_bounds (state.logs chan.peer chan.log).top id).1
    have grows : Grows state (setLog state chan.peer chan.log {state.logs chan.peer chan.log with
        top:=idMaximize (state.logs chan.peer chan.log).top id,
        writer:=some (.saving chan rest {txn with work:=trlogMap.replace (map.insert id op) txn.work} true)}) :=
      grows_setLog higher fun _ _ held => held
    refine safe.relog grows ⟨?_,old.genuine,?_,?_⟩
    · exact fun id op held => (old.bounded id op held).trans_le higher
    · intro foreign
      simp only [idMaximize]
      split
      · exact .inr ⟨chan,along,rfl,rfl,rowBelow⟩
      · exact old.source foreign
    · refine ⟨rfl,rfl,along,later,fun id op held => extended.kept (kept id op held),?_,bounded_insert content bounded op⟩
      intro other value held
      rcases extended.source held with before | new
      · exact genuine other value before
      · cases mem_singleton.mp new
        exact rowGenuine
  · rename_i after put
    cases done
    obtain ⟨_,same⟩ | ⟨impossible,_⟩ := putUnique_cases put
    · refine safe.rewriter ⟨rfl,rfl,along,later,?_,?_,?_⟩ <;> rw [same]
      · exact kept
      · exact genuine
      · exact bounded
    · cases impossible

lemma advance_safe (safe : Safe net state)
    (done : advance net state node log works = some next) : Safe net next := by
  cases found : (state.logs node log).writer with
  | none => simp [advance,found] at done
  | some current =>
    cases current with
    | adding id op => exact adding_safe safe found done
    | saving chan rest txn changed =>
      cases rest with
      | nil => exact commit_safe safe found done
      | cons row rest => exact put_safe safe found done

variable [DecidableEq ω]

lemma step_safe (safe : Safe net state)
    (moved : step net batchSize state action = some next) : Safe net next := by
  cases action with
  | append node op =>
    cases moved
    exact safe.push trivial
  | perform task outcome =>
    simp only [step] at moved
    split at moved
    · rename_i member
      have valid := safe.tasks task member
      exact perform_safe (safe.retask fun other inside => safe.tasks other (mem_of_mem_erase inside))
        (valid.grows (grows_retask state _)) moved
    · cases moved
  | advance node log works => exact advance_safe safe moved
  | lose task =>
    simp only [step] at moved
    split at moved
    · cases moved
      exact safe.retask fun other inside => safe.tasks other (mem_of_mem_erase inside)
    · cases moved
  | duplicate task =>
    simp only [step] at moved
    split at moved
    · rename_i member
      cases moved
      exact safe.push (safe.tasks task member.1)
    · cases moved

lemma reached_safe (reached : Machine.Reached (step net batchSize) initial state) :
    Safe net state :=
  reached_invariant (initial_safe net) (fun _ _ _ safe moved => step_safe safe moved) reached

theorem logs_agree (net : Network υ) (batchSize : Nat) (state : State υ ω)
    (reached : Machine.Reached (step net batchSize) initial state) (node log : υ) (id : Nat) (op : ω)
    (held : stored (state.logs node log).storage id = some op) : stored (state.logs log log).storage id = some op :=
  ((reached_safe reached).logs node log).genuine id op held

theorem messages_honest {state : State υ ω} (reached : Machine.Reached (step net batchSize) initial state) (chan : Channel υ) :
    (∀ rows, .data chan rows ∈ state.tasks → RowsOk state chan rows) ∧
      ∀ top, .state chan top ∈ state.tasks → top ≤ (state.logs chan.peer chan.log).top :=
  ⟨fun _ member => ((reached_safe reached).tasks _ member).2,fun _ member => ((reached_safe reached).tasks _ member).2⟩

def line : Network (Fin 3) where
  graph := SimpleGraph.pathGraph 3
  peers node := if node = 0 then [1] else if node = 1 then [0,2] else [1]
  listed := by
    simp only [SimpleGraph.pathGraph_adj]
    decide

-- The parts of a run in which nothing fails: an append, the points of a schedule
-- call, a request with the call it leads to, the way of a range to the peer, and
-- the peer's report with the call that it leads to.
def appending (node : υ) (op : ω) : List (Action υ ω) :=
  [.append node op,.perform (.addOp node op) {},.advance node node true]

def scheduling (chan : Channel υ) (points : List Point) : List (Action υ ω) :=
  points.map fun point => .perform (.schedule chan point) {}

def asking (chan : Channel υ) (top : Nat) (points : List Point) : List (Action υ ω) :=
  [.perform (.start chan) {},.perform (.counting chan) {},.perform (.publishing chan) {},.perform (.sync chan) {},
    .perform (.state chan top) {}] ++ scheduling chan points

def carrying (chan : Channel υ) (id : Nat) (op : ω) : List (Action υ ω) :=
  [.perform (.send chan id (id + 1)) {},.perform (.data chan [(id,op)]) {},.perform (.save chan [(id,op)]) {},
    .advance chan.peer chan.log true,.advance chan.peer chan.log true]

def reporting (chan : Channel υ) (top : Nat) (points : List Point) : List (Action υ ω) :=
  [.perform (.report chan) {},.perform (.state chan top) {}] ++ scheduling chan points

def firstHop : List (Action (Fin 3) Nat) :=
  appending 0 7 ++ asking ⟨0,1,0⟩ 0 [.entered 0,.loaded 0 1,.reading 1 0,.swapping 1 0 1 1,.emitting 1 0 1 1,
    .closing 1 1] ++ carrying ⟨0,1,0⟩ 0 7

theorem logs_agree_firstHop : ∃ state : State (Fin 3) Nat, Machine.Reached (step line 10) initial state ∧
    stored (state.logs 1 0).storage 0 = some 7 ∧ stored (state.logs 0 0).storage 0 = some 7 := by
  have hops : (firstHop.foldlM (step line 10) initial).map
      (fun state => stored (state.logs 1 0).storage 0) = some (some 7) := by decide +kernel
  obtain ⟨state,ran,held⟩ := map_eq_some_iff.mp hops
  exact ⟨state,⟨firstHop,ran⟩,held,logs_agree line 10 state ⟨firstHop,ran⟩ 1 0 0 7 held⟩

theorem sent_honest : ∃ state : State (Fin 3) Nat, Machine.Reached (step line 10) initial state ∧ RowsOk state ⟨0,1,0⟩ [(0,7)] := by
  have sent : ((firstHop.take 15).foldlM (step line 10) initial).map (fun state => decide (.data ⟨0,1,0⟩ [(0,7)] ∈ state.tasks)) = some true := by
    decide +kernel
  obtain ⟨state,ran,inside⟩ := map_eq_some_iff.mp sent
  exact ⟨state,⟨_,ran⟩,(messages_honest ⟨_,ran⟩ _).1 _ (of_decide_eq_true inside)⟩

end MedvedDB.Replication
