import MedvedDB.Machine
import MedvedDB.Trlog

open MedvedDB.Lmdb MedvedDB.Trlog
namespace MedvedDB.Replication

structure Network (υ : Type) where
  graph : SimpleGraph υ
  peers : υ → List υ
  listed : ∀ node peer, peer ∈ peers node ↔ graph.Adj node peer

structure Channel (υ : Type) where
  node : υ
  peer : υ
  log : υ
  deriving DecidableEq, Repr

structure Syncer where
  requests : Nat
  synced : Nat

-- Where a running mdv_syncerlog_schedule call is, with its local variables.
-- Every atomic access is one step.
inductive Point where
  | entered (pos : Nat)
  | loaded (pos requests : Nat)
  | reading (requests synced : Nat)
  | swapping (requests synced range top : Nat)
  | emitting (requests synced range top : Nat)
  | closing (requests synced : Nat)
  deriving DecidableEq, Repr

-- Everything that is pending somewhere: calls, messages and jobs. `sync` and
-- `data` travel to the peer of the channel, `state` comes back from it; `save`
-- and `report` run at the peer, the others at the node.
inductive Task (υ ω : Type) where
  | addOp (node : υ) (op : ω)
  | start (chan : Channel υ)
  | counting (chan : Channel υ)
  | publishing (chan : Channel υ)
  | sync (chan : Channel υ)
  | state (chan : Channel υ) (top : Nat)
  | schedule (chan : Channel υ) (point : Point)
  | send (chan : Channel υ) (lower upper : Nat)
  | data (chan : Channel υ) (rows : List (Nat × ω))
  | save (chan : Channel υ) (rows : List (Nat × ω))
  | report (chan : Channel υ)
  deriving DecidableEq, Repr

-- The write transaction that is open on a log. Reading transactions are write
-- transactions too, so nothing else runs on the storage meanwhile.
inductive Writer (υ ω : Type) where
  | adding (id : Nat) (op : ω)
  | saving (chan : Channel υ) (rest : List (Nat × ω)) (txn : Txn (LogStorage ω)) (changed : Bool)

structure NodeLog (υ ω : Type) where
  storage : LogStorage ω
  top : Nat
  writer : Option (Writer υ ω)

structure State (υ ω : Type) where
  logs : υ → υ → NodeLog υ ω
  syncers : Channel υ → Syncer
  tasks : List (Task υ ω)

variable {υ ω : Type} [DecidableEq υ]

-- The outcome of one step: whether the calls in it work, whether the peer
-- finds its log, how many entries a range read gets when it is cut short, and
-- whether a weak compare-exchange fails for no reason.
structure Outcome where
  works : Bool := true
  found : Bool := true
  limit : Option Nat := none
  spurious : Bool := false
  deriving DecidableEq, Repr

def Outcome.read (outcome : Outcome) : ReadCalls := {items:=fun n => outcome.limit.all fun limit => n < limit}

def push (state : State υ ω) (task : Task υ ω) : State υ ω := {state with tasks:=task::state.tasks}

def setLog (state : State υ ω) (node log : υ) (value : NodeLog υ ω) : State υ ω :=
  {state with logs:=fun one two => if one = node ∧ two = log then value else state.logs one two}

def setSyncer (state : State υ ω) (chan : Channel υ) (value : Syncer) : State υ ω :=
  {state with syncers:=fun other => if other = chan then value else state.syncers other}

-- A changed log starts the synchronizer of every peer but the log's owner.
def notify (net : Network υ) (state : State υ ω) (node log : υ) : State υ ω :=
  {state with tasks:=((net.peers node).filter fun peer => peer ≠ log).map (fun peer => .start ⟨node,peer,log⟩) ++
    state.tasks}

def scheduleStep (batchSize : Nat) (state : State υ ω) (chan : Channel υ) (outcome : Outcome) : Point → State υ ω
  | .entered pos => push state (.schedule chan (.loaded pos (state.syncers chan).requests))
  | .loaded pos requests =>
    let synced := (state.syncers chan).synced
    push state (.schedule chan (.reading requests (if synced < pos then pos else synced)))
  | .reading requests synced =>
    let top := (state.logs chan.node chan.log).top
    if synced ≥ top then push state (.schedule chan (.closing requests synced))
    else push state (.schedule chan (.swapping requests synced (min top (synced + batchSize)) top))
  | .swapping requests synced range top =>
    let syncer := state.syncers chan
    if syncer.synced = synced ∧ !outcome.spurious then
      let swapped := setSyncer state chan {syncer with synced:=range}
      if synced < range then push swapped (.schedule chan (.emitting requests synced range top))
      else if range < top then push swapped (.schedule chan (.reading requests synced))
      else push swapped (.schedule chan (.closing requests synced))
    else push state (.schedule chan (.reading requests syncer.synced))
  | .emitting requests synced range top =>
    let emitted := if outcome.works then push state (.send chan synced range) else state
    if range < top then push emitted (.schedule chan (.reading requests range))
    else push emitted (.schedule chan (.closing requests range))
  | .closing requests synced =>
    let syncer := state.syncers chan
    if syncer.requests = requests then setSyncer state chan {syncer with requests:=0}
    else push state (.schedule chan (.reading syncer.requests synced))

-- Performs a task that was taken out of the pending ones. A task that needs
-- the storage of a log waits while a transaction is open on it.
def perform (batchSize : Nat) (state : State υ ω) (outcome : Outcome) : Task υ ω → Option (State υ ω)
  | .addOp node op =>
    let log := state.logs node node
    if log.writer.isSome then none
    else if !outcome.works then some state
    else some (setLog state node node {log with top:=log.top + 1,writer:=some (.adding log.top op)})
  | .start chan =>
    if !outcome.works || (state.logs chan.node chan.log).top = 0 then some state
    else some (push state (.counting chan))
  | .counting chan =>
    let syncer := state.syncers chan
    let counted := setSyncer state chan {syncer with requests:=syncer.requests + 1}
    if syncer.requests ≠ 0 then some counted else some (push counted (.publishing chan))
  | .publishing chan =>
    if outcome.works then some (push state (.sync chan))
    else some (setSyncer state chan {state.syncers chan with requests:=0})
  | .sync chan =>
    if !outcome.works then some state
    else some (push state (.state chan (if outcome.found then (state.logs chan.peer chan.log).top else 0)))
  | .state chan top =>
    if outcome.works then some (push state (.schedule chan (.entered top))) else some state
  | .schedule chan point => some (scheduleStep batchSize state chan outcome point)
  | .send chan lower upper =>
    let log := state.logs chan.node chan.log
    if log.writer.isSome then none
    else
      let rows := rangeRead outcome.read log.storage lower upper
      if rows.isEmpty || !outcome.works then some state else some (push state (.data chan rows))
  | .data chan rows => if outcome.works then some (push state (.save chan rows)) else some state
  | .save chan rows =>
    let log := state.logs chan.peer chan.log
    if log.writer.isSome then none
    else if !outcome.found then some (push state (.state chan 0))
    else if !outcome.works then some (push state (.report chan))
    else
      let work := trlogMap.replace ((trlogMap.content log.storage).getD .empty) log.storage
      some (setLog state chan.peer chan.log {log with writer:=some (.saving chan rows (running work) false)})
  | .report chan =>
    if outcome.works then some (push state (.state chan (state.logs chan.peer chan.log).top)) else some state

-- The next step of the open transaction. An append that was committed and a
-- batch that changed the log notify the synchronizers of the node.
def advance (net : Network υ) (state : State υ ω) (node log : υ) (works : Bool) : Option (State υ ω) :=
  let entry := state.logs node log
  match entry.writer with
  | none => none
  | some (.adding id op) =>
    if works && (stored entry.storage id).isNone then
      some (notify net (setLog state node log ⟨appended entry.storage id op,entry.top,none⟩) node log)
    else some (setLog state node log {entry with writer:=none})
  | some (.saving chan ((id,op)::rest) txn changed) =>
    match mapPutUnique works trlogMap txn id op with
    | (true,txn) => some (setLog state node log
        {entry with top:=idMaximize entry.top id,writer:=some (.saving chan rest txn true)})
    | (false,txn) => some (setLog state node log {entry with writer:=some (.saving chan rest txn changed)})
  | some (.saving chan [] txn changed) =>
    match transactionCommit works txn entry.storage with
    | (true,storage) =>
      let saved := setLog state node log ⟨storage,entry.top,none⟩
      some (push (if changed then notify net saved node log else saved) (.report chan))
    | (false,_) => some (push (setLog state node log {entry with writer:=none}) (.report chan))

lemma setLog_at (state : State υ ω) (node log : υ) (entry : NodeLog υ ω) :
    (setLog state node log entry).logs node log = entry := by
  simp [setLog]

variable {state : State υ ω}

lemma setLog_away (away : ¬ (one = node ∧ two = log))
    (entry : NodeLog υ ω) : (setLog state node log entry).logs one two = state.logs one two := by
  simp [setLog,away]

inductive Action (υ ω : Type) where
  | append (node : υ) (op : ω)
  | perform (task : Task υ ω) (outcome : Outcome)
  | advance (node log : υ) (works : Bool)
  | lose (task : Task υ ω)
  | duplicate (task : Task υ ω)

def isMessage : Task υ ω → Bool
  | .sync _ | .state _ _ | .data _ _ => true
  | _ => false

variable [DecidableEq ω]

def step (net : Network υ) (batchSize : Nat) (state : State υ ω) : Action υ ω → Option (State υ ω)
  | .append node op => some (push state (.addOp node op))
  | .perform task outcome =>
    if task ∈ state.tasks then perform batchSize {state with tasks:=state.tasks.erase task} outcome task else none
  | .advance node log works => advance net state node log works
  | .lose task =>
    if task ∈ state.tasks ∧ isMessage task then some {state with tasks:=state.tasks.erase task} else none
  | .duplicate task => if task ∈ state.tasks ∧ isMessage task then some (push state task) else none

def initial : State υ ω := ⟨fun _ _ => ⟨Trlog.fresh,0,none⟩,fun _ => ⟨0,0⟩,[]⟩

end MedvedDB.Replication
