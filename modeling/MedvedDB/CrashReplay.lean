import MedvedDB.ApplyOrder
import MedvedDB.Cells

open MedvedDB.Lmdb MedvedDB.TwoPhaseSet MedvedDB.Trlog MedvedDB.TrlogSteps MedvedDB.ApplyOrder MedvedDB.Tablespace
namespace MedvedDB.CrashReplay

open Machine (Reached only_some reached_invariant)

variable {ω : Type}

def ahead (storage : LogStorage ω) (pos : Nat) : List ω := ((entries storage).walkFrom pos).map Prod.snd
def persisted (storage : LogStorage ω) : Nat := (init {} storage).applied

lemma ahead_suffix (storage : LogStorage ω) (lower : low ≤ high) : ahead storage high <:+ ahead storage low :=
  ((entries storage).walkFrom_suffix lower).map Prod.snd

lemma ahead_next {storage : LogStorage ω} {id : Nat} (walked : (entries storage).walkFrom pos = (id,op)::unread) :
    ahead storage pos = op::ahead storage (id + 1) := by
  unfold ahead
  rw [walked,(KeyMap.cut_next walked).2]
  rfl

lemma ahead_nil (all : ∀ id op, stored storage id = some op → id < pos) :
    ahead storage pos = [] := by
  refine List.map_eq_nil_iff.mpr (List.eq_nil_iff_forall_not_mem.mpr fun entry member => ?_)
  obtain ⟨held,above⟩ := KeyMap.mem_walkFrom.mp member
  exact absurd (all _ _ held) (not_lt.mpr above)

lemma ahead_sublist (storage : LogStorage ω) (pos : Nat) :
    (ahead storage pos).Sublist ((entries storage).entries.map Prod.snd) :=
  List.filter_sublist.map Prod.snd

lemma savePos_working (storage : LogStorage ω) (pos : Nat) :
    savePos {} storage pos = {storage with applied:=some ((storage.applied.getD .empty).insert appliedPosKey pos)} := by
  have content : appliedMap.content (appliedMap.replace ((appliedMap.content storage).getD .empty) storage) =
    some (storage.applied.getD .empty) := rfl
  simp only [savePos,appliedPosSet,start_eq,open_create,if_true,put_running _ _ _ content]
  rfl

lemma persisted_savePos (storage : LogStorage ω) (pos : Nat) : persisted (savePos {} storage pos) = pos := by
  unfold persisted
  rw [init_working,savePos_working]
  simp

variable {υ β γ : Type} [LinearOrder υ]

-- One log is applied, by calls with any batch size, and between any two steps
-- the process may be killed. What is committed stays; the log is opened again
-- and the row storages are closed.
inductive Event where
  | apply (batchSize : Nat)
  | work
  | crash
  deriving DecidableEq

def reopen (data : Data υ β) : Data υ β := {data with opened:=fun _ => false}

def step (restore : β → Option γ) (node : UInt32) (state : State (Op υ β) (Data υ β)) :
    Event → Option (State (Op υ β) (Data υ β))
  | .apply batchSize => ApplyOrder.step (trlogApply restore node {}) state (.apply batchSize)
  | .work => ApplyOrder.step (trlogApply restore node {}) state (.work {})
  | .crash => some (initial (init {} state.shared.log.storage) (reopen state.arg))

def start (storage : LogStorage (Op υ β)) (data : Data υ β) : State (Op υ β) (Data υ β) :=
  initial (init {} storage) data

def Finished (state : State (Op υ β) (Data υ β)) : Prop := ∃ result, state.last = some result ∧ result.n = 0

-- The position on disk never is ahead of the one in memory, and that one never
-- of the entries given to the apply function. All that is ahead of it has been
-- done by a run which is only ever set back.
structure Replays (node : UInt32) (storage : LogStorage (Op υ β)) (data : Data υ β)
    (state : State (Op υ β) (Data υ β)) : Prop where
  same : entries state.shared.log.storage = entries storage
  free : state.shared.writer = none
  bounded : Bounded state.shared.log.storage state.shared.log.top
  begun : persisted storage ≤ persisted state.shared.log.storage
  saved : persisted state.shared.log.storage ≤ state.shared.log.applied
  given : state.shared.log.applied ≤ reach state
  run : Replay.Run (act node) wellFormed (cells data) (ahead storage (persisted storage)) (ahead storage (reach state))
    (cells state.arg)
  point : ∀ call, state.call = some call → PointOk state.shared.log call.point
  waiting : state.call.isSome → state.last = none
  last : Finished state → cells state.arg =
    (Replay.attempted wellFormed (ahead storage (persisted storage))).foldl (act node) (cells data)

lemma start_replays (node : UInt32) (storage : LogStorage (Op υ β)) (data : Data υ β) :
    Replays node storage data (start storage data) where
  same := by rw [start,initial,init_working]
  free := rfl
  bounded := by
    have bounded := init_bounded storage
    rw [init_working] at bounded
    rw [start,initial,init_working]
    exact bounded
  begun := by
    rw [start,initial,init_working]
  saved := by
    rw [start,initial]
    unfold persisted
    rw [init_working,init_working]
  given := le_refl _
  run := .begin
  point := nofun
  waiting := nofun
  last := nofun

lemma cells_reopen (data : Data υ β) : cells (reopen data) = cells data := by
  funext cell
  cases cell <;> rfl

lemma crash_replays {node : UInt32} {storage : LogStorage (Op υ β)} {data : Data υ β}
    {state : State (Op υ β) (Data υ β)} (replays : Replays node storage data state) :
    Replays node storage data (initial (init {} state.shared.log.storage) (reopen state.arg)) := by
  have fresh := start_replays node state.shared.log.storage (reopen state.arg)
  have place : reach (start state.shared.log.storage (reopen state.arg)) = persisted state.shared.log.storage := rfl
  refine ⟨fresh.same.trans replays.same,rfl,fresh.bounded,replays.begun.trans fresh.begun,fresh.saved,fresh.given,?_,nofun,
    nofun,nofun⟩
  rw [show cells (initial _ (reopen state.arg)).arg = cells state.arg from cells_reopen state.arg]
  exact .back replays.run (ahead_suffix storage (replays.saved.trans replays.given)) (ahead_suffix storage replays.begun)

section replaying

variable {restore : β → Option γ} {node : UInt32} {storage : LogStorage (Op υ β)} {data : Data υ β}
  {state : State (Op υ β) (Data υ β)}

lemma trlogApply_accepted {arg after : Data υ β} {op : Op υ β} (answer : trlogApply restore node {} arg op = (yes,after)) :
    wellFormed op = yes ∧ cells after = act node (cells arg) op := by
  have works := trlogApply_working restore node arg op
  rw [answer] at works
  exact ⟨works.1.symm,works.2⟩

lemma not_finished (none : state.last = none) : ¬ Finished state := by
  rintro ⟨result,found,_⟩
  rw [none] at found
  cases found

lemma work_replays (ordered : (ahead storage (persisted storage)).Pairwise (Replay.Respects (act node)))
    (replays : Replays node storage data state) {call : Call (Op υ β)} (called : state.call = some call)
    (worked : work (trlogApply restore node {}) {} state call = some next) : Replays node storage data next := by
  have position : reach state = Point.reach state.shared.log.applied call.point := by simp [reach,called]
  have unfinished : state.last = none := replays.waiting (by simp [called])
  obtain ⟨same,free,bounded,begun,saved,given,run,point,_,_⟩ := replays
  rw [position] at run given
  cases work_cases (point call called) bounded worked with
  | moves next unmoved =>
    refine ⟨same,free,bounded,begun,saved,given.trans unmoved.ge,?_,?_,fun _ => unfinished,
      fun finished => absurd finished (not_finished unfinished)⟩
    · change Replay.Run _ _ _ _ (ahead storage (Point.reach _ _)) _
      rwa [unmoved]
    · rintro other ⟨⟩
      exact next
  | takes answer walked next =>
    obtain ⟨accepted,after⟩ := trlogApply_accepted answer
    have inside := (KeyMap.mem_walkFrom.mp (walked ▸ mem_cons_self)).2
    rw [same] at walked
    refine ⟨same,free,bounded,begun,saved,(given.trans inside).trans (le_succ _),?_,?_,fun _ => unfinished,
      fun finished => absurd finished (not_finished unfinished)⟩
    · rw [ahead_next walked] at run
      rw [after]
      exact run.accept accepted
    · rintro other ⟨⟩
      exact next
  | refuses answer walked at_pos some =>
    obtain ⟨refused,after⟩ := trlogApply_accepted answer
    rw [same] at walked
    rw [← at_pos] at run given
    refine ⟨same,free,bounded,begun,saved,given,?_,?_,fun _ => unfinished,
      fun finished => absurd finished (not_finished unfinished)⟩
    · rw [ahead_next walked] at run
      have still := run.refuse refused
      rw [← ahead_next walked,← after] at still
      exact still
    · rintro other ⟨⟩
      exact some
  | gives_up answer walked unmoved =>
    obtain ⟨refused,after⟩ := trlogApply_accepted answer
    rw [same] at walked
    rw [unmoved,ahead_next walked] at run
    refine ⟨same,free,bounded,begun,saved,le_refl _,?_,(by rintro _ ⟨⟩),(by rintro ⟨⟩),fun _ => ?_⟩
    · have still := run.refuse refused
      rw [← ahead_next walked,← after] at still
      exact still
    · rw [after]
      exact run.refused (act_idempotent node) ordered refused
  | ends unmoved all =>
    rw [unmoved] at run
    refine ⟨same,free,bounded,begun,saved,le_refl _,run,(by rintro _ ⟨⟩),(by rintro ⟨⟩),fun _ => ?_⟩
    have empty : ahead storage state.shared.log.applied = [] := by
      have none := ahead_nil (all (.inr rfl))
      unfold ahead at none ⊢
      rwa [same] at none
    rw [empty] at run
    exact run.finished (act_idempotent node) ordered
  | stores storing some =>
    rw [storing] at run given
    refine ⟨same,free,bounded,begun,saved.trans given,le_refl _,run,?_,fun _ => unfinished,
      fun finished => absurd finished (not_finished unfinished)⟩
    rintro other ⟨⟩
    exact ⟨rfl,some⟩
  | saves saving some _ =>
    rw [saving] at run
    refine ⟨(entries_savePos _ _ _).trans same,free,?_,?_,?_,le_refl _,run,(by rintro _ ⟨⟩),(by rintro ⟨⟩),?_⟩
    · intro id op held
      exact bounded id op ((stored_savePos _ _ _ _).symm.trans held)
    · exact (begun.trans saved).trans (persisted_savePos _ _).ge
    · exact (persisted_savePos _ _).le
    · rintro ⟨result,⟨⟩,zero⟩
      exact absurd zero some

lemma step_replays (ordered : (ahead storage (persisted storage)).Pairwise (Replay.Respects (act node)))
    (replays : Replays node storage data state) (event : Event) (moved : step restore node state event = some next) :
    Replays node storage data next := by
  cases event with
  | crash =>
    cases moved
    exact crash_replays replays
  | work =>
    simp only [step,ApplyOrder.step] at moved
    split at moved
    · cases moved
    · rename_i call called
      exact work_replays ordered replays called moved
  | apply batchSize =>
    simp only [step,ApplyOrder.step] at moved
    split at moved
    · cases moved
    · rename_i idle
      cases moved
      have none : state.call = none := by
        cases called : state.call with
        | none => rfl
        | some call => simp [called] at idle
      have run := replays.run
      simp only [reach,none,map_none,getD_none] at run
      refine ⟨replays.same,replays.free,replays.bounded,replays.begun,replays.saved,le_refl _,run,?_,fun _ => rfl,(by rintro ⟨_,⟨⟩,_⟩)⟩
      rintro call ⟨⟩
      trivial

-- What is stored can be read: no set has its objects without its marks.
def Readable (data : Data υ β) : Prop := Paired data.tables ∧ ∀ table, Paired (data.rowdata table)

lemma trlogApply_readable (readable : Readable arg) (op : Op υ β) :
    Readable (trlogApply restore node {} arg op).2 :=
  ⟨trlogApply_keeps_tables restore node {} Paired (fun calls _ uuid obj held => add_paired calls held uuid obj) readable.1 op,
    fun table => trlogApply_paired restore node {} (readable.2 table) op⟩

lemma work_readable (readable : Readable state.arg)
    (worked : work (trlogApply restore node {}) outcome state call = some next) : Readable next.arg := by
  unfold work at worked
  split at worked
  · cases worked
  · rename_i target after shared stepped
    have later := applyStep_arg Readable (fun _ op readable => trlogApply_readable readable op) stepped readable
    dsimp only at worked
    split at worked
    · cases worked
      exact later
    · cases worked
      exact later

def Reads (state : State (Op υ β) (Data υ β)) : Prop := Readable state.arg

lemma step_reads (readable : Reads state) (event : Event) (moved : step restore node state event = some next) :
    Reads next := by
  cases event with
  | crash =>
    cases moved
    exact readable
  | work =>
    simp only [step,ApplyOrder.step] at moved
    split at moved
    · cases moved
    · exact work_readable readable moved
  | apply batchSize =>
    simp only [step,ApplyOrder.step] at moved
    split at moved
    · cases moved
    · cases moved
      exact readable

def onward (restore : β → Option γ) (node : UInt32) (batchSize : Nat) :
    State (Op υ β) (Data υ β) → Event → Option (State (Op υ β) (Data υ β)) :=
  Machine.only (fun _ event => event = .work || event = .apply batchSize) (step restore node)

lemma onward_work (called : state.call = some call)
    (worked : work (trlogApply restore node {}) {} state call = some next) :
    onward restore node batchSize state .work = some next := by
  simp only [onward,Machine.only,step,ApplyOrder.step,called,worked,decide_true,Bool.true_or,if_true]

lemma returns_reached (batchSize : Nat)
    (returns : Returns (trlogApply restore node {}) size {} arg shared point result)
    (args : state.arg = arg) (logs : state.shared = shared) (called : state.call = some ⟨size,point,before,smooth⟩) :
    ∃ next, Reached (onward restore node batchSize) state next ∧ next.shared = result.2.2 ∧ next.call = none ∧
      ∃ ended, next.last = some ended ∧ ended.n = result.1 := by
  induction returns generalizing state smooth with
  | last stepped =>
    subst args logs
    obtain ⟨next,ended,worked,rest⟩ := work_returned state ⟨size,_,before,smooth⟩ stepped
    exact ⟨next,.head (onward_work called worked) (.refl _ _),rest.1,rest.2.1,ended,rest.2.2⟩
  | more stepped _ ih =>
    subst args logs
    obtain ⟨middle,calm,worked,args,logs,calling⟩ := work_point state ⟨size,_,before,smooth⟩ stepped
    obtain ⟨next,reached,rest⟩ := ih args logs calling
    exact ⟨next,.head (onward_work called worked) reached,rest⟩

lemma apply_shortens (fn : Data υ β → Op υ β → Bool × Data υ β) (calls : ApplyCalls) (batchSize : Nat)
    (arg : Data υ β) (log : Log (Op υ β)) (moved : (apply calls fn batchSize arg log).1 ≠ 0) :
    (ahead (apply calls fn batchSize arg log).2.2.storage (apply calls fn batchSize arg log).2.2.applied).length <
      (ahead log.storage log.applied).length := by
  obtain ⟨position,trlog,_⟩ := apply_taken calls fn batchSize arg log
  obtain ⟨_,inside,_⟩ := taken_bounds calls fn batchSize arg log
  have same : entries (apply calls fn batchSize arg log).2.2.storage = entries log.storage := by
    unfold entries
    rw [trlog]
  cases first : taken calls fn batchSize arg log with
  | nil =>
    rw [apply_eq,first] at moved
    exact absurd rfl moved
  | cons entry rest =>
    have member : entry ∈ taken calls fn batchSize arg log := by
      rw [first]
      exact mem_cons_self
    obtain ⟨held,above⟩ := taken_stored member
    simp only [ahead,same,position,length_map]
    exact KeyMap.walkFrom_shorter held above (inside entry member)

lemma idle_finishes (some : 1 ≤ batchSize) (idle : state.call = none) (free : state.shared.writer = none) :
    ∃ next, Reached (onward restore node batchSize) state next ∧ Finished next := by
  induction count : (ahead state.shared.log.storage state.shared.log.applied).length using Nat.strong_induction_on
    generalizing state with
  | _ count ih =>
    let calling : State (Op υ β) (Data υ β) :=
      {state with call:=Option.some ⟨batchSize,.entered,state.shared.log.storage,true⟩,last:=none}
    have begun : onward restore node batchSize state (.apply batchSize) = Option.some calling := by
      simp [onward,Machine.only,step,ApplyOrder.step,idle,Nat.one_le_iff_ne_zero.mp some,calling]
    have shape : state.shared = ⟨state.shared.log,none⟩ := by rw [← free]
    have returns := apply_returns (trlogApply restore node {}) batchSize {} state.arg state.shared.log
    rw [← shape] at returns
    obtain ⟨next,reached,logs,rested,ended,last,n⟩ :=
      returns_reached batchSize returns (show calling.arg = state.arg from rfl) rfl rfl
    by_cases zero : ended.n = 0
    · exact ⟨next,.head begun reached,ended,last,zero⟩
    · rw [n] at zero
      have shorter := apply_shortens _ _ _ _ _ zero
      rw [count] at shorter
      obtain ⟨final,onwards,finished⟩ := ih _ shorter rested (by rw [logs]) (by rw [logs])
      exact ⟨final,.head begun (reached.trans onwards),finished⟩

lemma onward_replays (ordered : (ahead storage (persisted storage)).Pairwise (Replay.Respects (act node)))
    (replays : Replays node storage data state) (reached : Reached (onward restore node batchSize) state next) :
    Replays node storage data next :=
  reached_invariant replays
    (fun _ event _ replays moved => step_replays ordered replays event (only_some moved).2) reached

lemma replays_finishes (ordered : (ahead storage (persisted storage)).Pairwise (Replay.Respects (act node)))
    (some : 1 ≤ batchSize) (replays : Replays node storage data state) :
    ∃ next, Reached (onward restore node batchSize) state next ∧ Finished next := by
  cases called : state.call with
  | none => exact idle_finishes some called replays.free
  | some call =>
    obtain ⟨result,returns⟩ := returns_exists (trlogApply restore node {}) call.batchSize {} state.arg replays.free call.point
    obtain ⟨middle,reached,_,rested,_⟩ := returns_reached batchSize returns rfl rfl called
    obtain ⟨next,onwards,finished⟩ := idle_finishes some rested (onward_replays ordered replays reached).free
    exact ⟨next,reached.trans onwards,finished⟩

end replaying

def uninterrupted (restore : β → Option γ) (node : UInt32) :
    State (Op υ β) (Data υ β) → Event → Option (State (Op υ β) (Data υ β)) :=
  Machine.only (fun _ event => event ≠ .crash) (step restore node)

-- Whatever crashes have been, going on from there comes to an end, and to the
-- tables and visible rows of every run without a crash.
theorem crash_replay_same (restore : β → Option γ) (node : UInt32) (storage : LogStorage (Op υ β)) (data : Data υ β)
    (ordered : ((entries storage).entries.map Prod.snd).Pairwise fun one two => lateInsert node one two = false)
    (readable : Readable data) (state : State (Op υ β) (Data υ β))
    (reached : Reached (step restore node) (start storage data) state) (batchSize : Nat) (positive : 1 ≤ batchSize) :
    (∃ last, Reached (onward restore node batchSize) state last ∧ Finished last) ∧
      ∀ last plain, Reached (onward restore node batchSize) state last → Finished last →
        Reached (uninterrupted restore node) (start storage data) plain → Finished plain →
          (∀ uuid, tablesGet {} restore last.arg.tables uuid = tablesGet {} restore plain.arg.tables uuid) ∧
            ∀ table row, get {} (last.arg.rowdata table) row some = get {} (plain.arg.rowdata table) row some := by
  have respected : (ahead storage (persisted storage)).Pairwise (Replay.Respects (act node)) :=
    (ordered.sublist (ahead_sublist storage _)).imp act_respects
  have begun := start_replays node storage data
  have replays : Replays node storage data state :=
    reached_invariant begun (fun _ event _ replays moved => step_replays respected replays event moved) reached
  have open_reads : Reads (start storage data) := readable
  have reads : Reads state :=
    reached_invariant open_reads (fun _ event _ reads moved => step_reads reads event moved) reached
  refine ⟨replays_finishes respected positive replays,?_⟩
  intro last plain further finished alone complete
  have ended := onward_replays respected replays further
  have compared : Replays node storage data plain :=
    reached_invariant begun
      (fun _ event _ replays moved => step_replays respected replays event (only_some moved).2) alone
  have same : cells last.arg = cells plain.arg := (ended.last finished).trans (compared.last complete).symm
  have readsLast : Reads last :=
    reached_invariant reads (fun _ event _ reads moved => step_reads reads event (only_some moved).2) further
  have readsPlain : Reads plain :=
    reached_invariant open_reads
      (fun _ event _ reads moved => step_reads reads event (only_some moved).2) alone
  constructor
  · intro uuid
    unfold tablesGet
    rw [show ApplyOpCalls.get {} = {} from rfl,get_status readsLast.1,get_status readsPlain.1]
    rw [show status last.arg.tables uuid = status plain.arg.tables uuid from congrFun same (.table uuid)]
  · intro table row
    rw [get_status (readsLast.2 table),get_status (readsPlain.2 table)]
    rw [show status (last.arg.rowdata table) row = status (plain.arg.rowdata table) row from congrFun same (.row table row)]

def smallLog : LogStorage (Op Nat Nat) :=
  ([.tableCreate (some (some 7,70)),.rowInsert 1 7 (some [some 10,some 11]),.rowDelete 7 ⟨1,1⟩].foldl
    (fun log op => (addOp {} log op).log) (init {} Trlog.fresh)).storage

def working (steps : Nat) : List Event := replicate steps .work
def interrupted : List Event := .apply 2::working 5 ++ [.crash]
def resumed : List Event := .apply 3::working 9 ++ .apply 3::working 2
def alone : List Event := .apply 1::working 7 ++ .apply 2::working 8 ++ .apply 1::working 2

def visible (state : State (Op Nat Nat) (Data Nat Nat)) : Bool × Option Nat × Option Nat :=
  (state.last.any fun result => result.n = 0,get {} (state.arg.rowdata 7) ⟨1,1⟩ some,get {} (state.arg.rowdata 7) ⟨1,2⟩ some)

theorem crash_replay_same_small : ∃ last plain : State (Op Nat Nat) (Data Nat Nat),
    Finished last ∧ Reached (uninterrupted some 1) (start smallLog Tablespace.fresh) plain ∧ Finished plain ∧
      get {} (last.arg.rowdata 7) ⟨1,2⟩ some = some 11 ∧
      (∀ uuid, tablesGet {} some last.arg.tables uuid = tablesGet {} some plain.arg.tables uuid) ∧
      ∀ table row, get {} (last.arg.rowdata table) row some = get {} (plain.arg.rowdata table) row some := by
  have first : ((interrupted.foldlM (step some 1) (start smallLog Tablespace.fresh)).bind fun state =>
      resumed.foldlM (onward some 1 3) state).map visible = some (true,none,some 11) := by decide +kernel
  have second : (alone.foldlM (uninterrupted some 1) (start smallLog Tablespace.fresh)).map visible =
      some (true,none,some 11) := by decide +kernel
  obtain ⟨last,ran,seen⟩ := map_eq_some_iff.mp first
  obtain ⟨state,crashed,went⟩ := bind_eq_some_iff.mp ran
  obtain ⟨plain,walked,shown⟩ := map_eq_some_iff.mp second
  simp only [visible,Prod.mk.injEq,Option.any_eq_true,decide_eq_true_eq] at seen shown
  have readable : Readable (Tablespace.fresh : Data Nat Nat) := ⟨fresh_paired,fun _ => fresh_paired⟩
  obtain ⟨_,same⟩ := crash_replay_same some 1 smallLog Tablespace.fresh (by decide +kernel) readable state
    ⟨interrupted,crashed⟩ 3 (by decide)
  exact ⟨last,plain,seen.1,⟨alone,walked⟩,shown.1,seen.2.2,same last plain ⟨resumed,went⟩ seen.1 ⟨alone,walked⟩ shown.1⟩

end MedvedDB.CrashReplay
