import MedvedDB.Machine
import MedvedDB.TrlogSteps

open MedvedDB.Trlog MedvedDB.TrlogSteps
namespace MedvedDB.Committer

-- Everything that is pending on a node because a log was changed: the calls
-- that write to logs, the way of MDV_EVT_TRLOG_CHANGED through the event bus,
-- and the jobs of the committer. Each of them belongs to one log. The bus has
-- several queues and workers, so queued events have no order.
inductive Task (υ ω : Type) where
  | add (log : υ) (rows : List (Nat × ω))
  | addOp (log : υ) (op : ω)
  | publishing (log : υ)
  | pushing (log : υ)
  | queued (log : υ)
  | popped (log : υ)
  | handling (log : υ)
  | emitting (log : υ)
  | job (log : υ)
  | creating (log : υ) (requests : Nat)
  | applying (log : υ) (requests : Nat) (point : Point ω)
  | closing (log : υ) (requests : Nat)
  deriving DecidableEq, Repr

-- The counter of the bus for this event type, the counters of the log
-- committers, and the state of the apply function.
structure State (υ ω τ : Type) where
  logs : υ → Shared ω
  eventsGen : Nat
  requests : υ → Nat
  arg : τ
  tasks : List (Task υ ω)

structure View (ω τ : Type) where
  shared : Shared ω
  eventsGen : Nat
  requests : Nat
  arg : τ

structure Outcome extends TrlogSteps.Outcome where
  found : Bool := true
  deriving DecidableEq, Repr

variable {υ ω τ : Type}

def logOf : Task υ ω → υ
  | .add log _ | .addOp log _ | .publishing log | .pushing log | .queued log | .popped log | .handling log
  | .emitting log | .job log | .creating log _ | .applying log _ _ | .closing log _ => log

-- The loop of mdv_tablespace_log_apply around mdv_trlog_apply.
def afterApply (batchSize : Nat) (log : υ) (requests : Nat) : Next ω → Task υ ω
  | .point point => .applying log requests point
  | .returned n => if n ≥ batchSize then .applying log requests .entered else .closing log requests

def perform (fn : υ → τ → ω → Bool × τ) (batchSize : Nat) (outcome : Outcome) (view : View ω τ) :
    Task υ ω → Option (List (Task υ ω) × View ω τ)
  | .add _ rows => (beginAdd outcome.works view.shared rows).map fun shared => ([],{view with shared:=shared})
  | .addOp _ op => (beginAddOp outcome.works view.shared op).map fun shared => ([],{view with shared:=shared})
  | .publishing log =>
    if !outcome.works then some ([],view)
    -- MDV_EVT_UNIQUE: one event of this type at a time, whatever log it names.
    else if view.eventsGen = 0 then some ([.pushing log],{view with eventsGen:=1})
    else some ([],view)
  | .pushing log => some (if outcome.works then [.queued log] else [],view)
  | .queued log => some ([.popped log],view)
  | .popped log => some ([.handling log],{view with eventsGen:=view.eventsGen - 1})
  | .handling log =>
    if !outcome.works then some ([],view)
    else some (if view.requests = 0 then [.emitting log] else [],{view with requests:=view.requests + 1})
  | .emitting log => some (if outcome.works then [.job log] else [],view)
  | .job log => some ([.creating log view.requests],view)
  | .creating log requests =>
    if !outcome.works then some ([],view)
    else some ([if outcome.found then .applying log requests .entered else .closing log requests],view)
  | .applying log requests point =>
    (applyStep (fn log) batchSize outcome.toOutcome view.arg view.shared point).map fun (next,arg,shared) =>
      ([afterApply batchSize log requests next],{view with shared:=shared,arg:=arg})
  | .closing log requests =>
    if view.requests = requests then some ([],{view with requests:=0})
    else some ([.creating log view.requests],view)

inductive Action (υ ω : Type) where
  | call (task : Task υ ω)
  | perform (task : Task υ ω) (outcome : Outcome)
  | advance (log : υ) (works : Bool)

def isCall : Task υ ω → Bool
  | .add _ _ | .addOp _ _ => true
  | _ => false

def viewOf (state : State υ ω τ) (log : υ) : View ω τ :=
  ⟨state.logs log,state.eventsGen,state.requests log,state.arg⟩

variable [DecidableEq υ]

def settle (state : State υ ω τ) (log : υ) (view : View ω τ) (news : List (Task υ ω)) : State υ ω τ where
  logs other := if other = log then view.shared else state.logs other
  eventsGen := view.eventsGen
  requests other := if other = log then view.requests else state.requests other
  arg := view.arg
  tasks := news ++ state.tasks

variable [DecidableEq ω]

def step (fn : υ → τ → ω → Bool × τ) (batchSize : Nat) (state : State υ ω τ) : Action υ ω → Option (State υ ω τ)
  | .call task => if isCall task then some {state with tasks:=task::state.tasks} else none
  | .perform task outcome =>
    if task ∈ state.tasks then
      (perform fn batchSize outcome (viewOf state (logOf task)) task).map fun (news,view) =>
        settle {state with tasks:=state.tasks.erase task} (logOf task) view news
    else none
  | .advance log works =>
    (advance works (state.logs log)).map fun (notified,shared) =>
      settle state log {viewOf state log with shared:=shared} (if notified then [.publishing log] else [])

def initial (arg : τ) : State υ ω τ := ⟨fun _ => ⟨⟨Trlog.fresh,0,0⟩,none⟩,0,fun _ => 0,arg,[]⟩

def clean : Action υ ω → Bool
  | .call _ => true
  | .perform _ outcome => outcome.works && outcome.limit.isNone && outcome.found
  | .advance _ works => works

def isEvent : Task υ ω → Bool
  | .pushing _ | .queued _ | .popped _ => true
  | _ => false

-- A notification that finds the bus busy finds it busy with its own log.
def ownEvents (state : State υ ω τ) : Action υ ω → Bool
  | .perform (.publishing log) _ => state.tasks.all fun task => !isEvent task || logOf task = log
  | _ => true

def Quiescent (state : State υ ω τ) : Prop := state.tasks = [] ∧ ∀ log, (state.logs log).writer = none

end MedvedDB.Committer
