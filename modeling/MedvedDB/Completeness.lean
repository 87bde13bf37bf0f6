import MedvedDB.SyncRules

open MedvedDB.Lmdb MedvedDB.Trlog MedvedDB.Machine
namespace MedvedDB.Replication

variable {υ ω : Type}

def Quiescent (state : State υ ω) : Prop := state.tasks = [] ∧ ∀ node log, (state.logs node log).writer = none

variable {chan : Channel υ} {work : LogStorage ω} {id : Nat} {net : Network υ} {after before state : State υ ω} {node : υ} {op : ω}

lemma Quiescent.idle (quiet : Quiescent state) (holds : Task υ ω → Prop) : ¬ Pending state holds := by
  intro pending
  obtain ⟨task,member,_⟩ := pending
  rw [quiet.1] at member
  cases member

lemma peer_holds (whole : Whole net state) (quiet : Quiescent state)
    (along : Along net chan) (below : id < (state.syncers chan).synced) :
    Holds (state.logs chan.peer chan.log) id := by
  rcases whole.carried chan along id below with held | writes | pending
  · exact held
  · rw [quiet.2] at writes
    exact writes.elim
  · exact absurd pending (quiet.idle _)

lemma neighbour_holds (whole : Whole net state) (quiet : Quiescent state)
    (adjacent : net.graph.Adj node peer) (held : Holds (state.logs node log) id) :
    Holds (state.logs peer log) id := by
  obtain ⟨op,found⟩ := isSome_iff_exists.mp held
  by_cases own : peer = log
  · subst own
    exact isSome_iff_exists.mpr ⟨op,(whole.safe.logs node peer).genuine id op found⟩
  · have along : Along net ⟨node,peer,log⟩ := ⟨(net.listed node peer).mpr adjacent,own⟩
    have inside : id < (state.logs node log).top := (whole.safe.logs node log).bounded id op found
    by_cases sent : id < (state.syncers ⟨node,peer,log⟩).synced
    · exact peer_holds whole quiet along sent
    -- Not everything was sent on this edge, so the peer got as far as this node
    -- from a synchronizer of its own neighbours, which has sent it all.
    have reaches : (state.logs node log).top ≤ (state.logs peer log).top := by
      by_contra behind
      have uncovered : Uncovered state ⟨node,peer,log⟩ := ⟨(not_lt.mp sent).trans_lt inside,not_le.mp behind⟩
      rcases whole.driven _ along uncovered with announces | pending
      · rw [quiet.2] at announces
        exact announces
      · exact quiet.idle _ pending
    rcases (whole.safe.logs peer log).source own with empty | ⟨chan,between,rfl,rfl,sent⟩
    · omega
    · exact peer_holds whole quiet between (inside.trans_le (reaches.trans sent))

variable [DecidableEq υ]

-- A step that replaces one log of one node, in the terms the invariant needs:
-- what the old transaction was about to write is not given up, and a log whose
-- top has grown announces it.
structure LogMove (net : Network υ) (before after : State υ ω) (node log : υ) (entry : NodeLog υ ω) : Prop where
  logs : after.logs = (setLog before node log entry).logs
  syncers : after.syncers = before.syncers
  tasks : ∀ task ∈ before.tasks, task ∈ after.tasks ∨ (∃ other op, task = .addOp other op) ∨
    ∃ chan rows, task = .save chan rows ∧ chan.peer = node ∧ chan.log = log ∧
      ∀ id op, (id,op) ∈ rows → Writes chan id entry.writer
  top : (before.logs node log).top ≤ entry.top
  holds : ∀ id, Holds (before.logs node log) id → Holds entry id
  writes : ∀ chan id, Writes chan id (before.logs node log).writer → Holds entry id ∨ Writes chan id entry.writer
  sane : Sane entry.writer
  gapless : node = log → ∀ id < entry.top, Holds entry id ∨ ∃ op, entry.writer = some (.adding id op)
  drives : ∀ chan, Along net chan → chan.node = node → chan.log = log → Announces entry.writer ∨
    .start chan ∈ after.tasks ∨ entry.top = (before.logs node log).top ∧ ¬ Announces (before.logs node log).writer

lemma LogMove.answered (move : LogMove net before after node log entry)
    (answered : Answered before chan) : Answered after chan := by
  refine answered_frame answered move.syncers fun task member answers => ?_
  rcases move.tasks task member with kept | ⟨_,_,rfl⟩ | ⟨_,_,rfl,_⟩
  · exact kept
  · exact answers.elim
  · exact answers.elim

lemma LogMove.driven (move : LogMove net before after node log entry)
    (along : Along net chan) (driven : Driven before chan) : Driven after chan := by
  have kept : ∀ task ∈ before.tasks, Drives chan (before.syncers chan).requests
      (before.logs chan.node chan.log).top task → task ∈ after.tasks := by
    intro task member drives
    rcases move.tasks task member with kept | ⟨_,_,rfl⟩ | ⟨_,_,rfl,_⟩
    · exact kept
    · exact drives.elim
    · exact drives.elim
  have peer : (before.logs chan.peer chan.log).top ≤ (after.logs chan.peer chan.log).top := by
    rw [move.logs]
    by_cases here : chan.peer = node ∧ chan.log = log
    · rw [here.1,here.2,setLog_at]
      exact move.top
    · rw [setLog_away here]
  by_cases here : chan.node = node ∧ chan.log = log
  · obtain ⟨rfl,rfl⟩ := here
    have now : after.logs chan.node chan.log = entry := by rw [move.logs,setLog_at]
    rcases move.drives chan along rfl rfl with announces | started | ⟨top,silent⟩
    · exact fun _ => .inl (now ▸ announces)
    · exact fun _ => .inr ⟨_,started,rfl⟩
    · exact driven_frame driven move.syncers (now ▸ top) peer (fun announces => absurd announces silent) kept
  · have now : after.logs chan.node chan.log = before.logs chan.node chan.log := by rw [move.logs,setLog_away here]
    exact driven_frame driven move.syncers (by rw [now]) peer (fun announces => .inl (now ▸ announces)) kept

lemma LogMove.carried (move : LogMove net before after node log entry)
    (carried : Carried before chan) : Carried after chan := by
  by_cases here : chan.peer = node ∧ chan.log = log
  · obtain ⟨rfl,rfl⟩ := here
    have now : after.logs chan.peer chan.log = entry := by rw [move.logs,setLog_at]
    refine carried_frame carried move.syncers ?_ ?_ ?_
    · exact now ▸ move.holds
    · exact now ▸ move.writes chan
    · intro id task member carries
      rcases move.tasks task member with kept | ⟨_,_,rfl⟩ | ⟨_,_,rfl,_,_,writes⟩
      · exact .inl kept
      · exact carries.elim
      · obtain ⟨rfl,op,row⟩ := carries
        exact .inr (now ▸ writes id op row)
  · have now : after.logs chan.peer chan.log = before.logs chan.peer chan.log := by rw [move.logs,setLog_away here]
    refine carried_frame carried move.syncers ?_ ?_ ?_
    · exact fun id held => now ▸ held
    · exact fun id writing => .inr (now ▸ writing)
    · intro id task member carries
      rcases move.tasks task member with kept | ⟨_,_,rfl⟩ | ⟨_,_,rfl,peer,same,_⟩
      · exact .inl kept
      · exact carries.elim
      · obtain ⟨rfl,_⟩ := carries
        exact absurd ⟨peer,same⟩ here

lemma LogMove.whole (move : LogMove net before after node log entry)
    (safe : Safe net after) (whole : Whole net before) : Whole net after where
  safe := safe
  sane one two := by
    rw [move.logs]
    by_cases here : one = node ∧ two = log
    · rw [here.1,here.2,setLog_at]
      exact move.sane
    · rw [setLog_away here]
      exact whole.sane one two
  gapless one := by
    unfold Gapless
    rw [move.logs]
    by_cases here : one = node ∧ one = log
    · obtain ⟨rfl,rfl⟩ := here
      rw [setLog_at]
      exact move.gapless rfl
    · rw [setLog_away here]
      exact whole.gapless one
  carried chan along := move.carried (whole.carried chan along)
  answered chan := move.answered (whole.answered chan)
  driven chan along := move.driven along (whole.driven chan along)

lemma addOp_move
    (gapless : Gapless state node) (free : (state.logs node node).writer = none) :
    LogMove net (push state (.addOp node op)) (setLog state node node {state.logs node node with
      top:=(state.logs node node).top + 1,writer:=some (.adding (state.logs node node).top op)}) node node
      {state.logs node node with
        top:=(state.logs node node).top + 1,writer:=some (.adding (state.logs node node).top op)} where
  logs := rfl
  syncers := rfl
  tasks task member := (mem_cons.mp member).elim (fun same => .inr (.inl ⟨node,op,same⟩)) .inl
  top := le_succ _
  holds _ held := held
  writes chan id writing := by
    change Writes chan id (state.logs node node).writer at writing
    rw [free] at writing
    exact writing.elim
  sane := trivial
  gapless _ id below := by
    rcases Nat.lt_succ_iff_lt_or_eq.mp below with old | rfl
    · rcases gapless id old with held | ⟨op,adding⟩
      · exact .inl held
      · rw [free] at adding
        cases adding
    · exact .inr ⟨op,rfl⟩
  drives _ _ _ _ := .inl trivial

lemma save_move (along : Along net chan) (free : (state.logs chan.peer chan.log).writer = none)
    (found : trlogMap.content work = some map) :
    LogMove net (push state (.save chan rows)) (setLog state chan.peer chan.log {state.logs chan.peer chan.log with
      writer:=some (.saving chan rows (running work) false)}) chan.peer chan.log
      {state.logs chan.peer chan.log with writer:=some (.saving chan rows (running work) false)} where
  logs := rfl
  syncers := rfl
  tasks task member := (mem_cons.mp member).elim
    (fun same => .inr (.inr ⟨chan,rows,same,rfl,rfl,fun _ op row => ⟨rfl,.inl ⟨op,row⟩⟩⟩)) .inl
  top := le_refl _
  holds _ held := held
  writes other id writing := by
    change Writes other id (state.logs chan.peer chan.log).writer at writing
    rw [free] at writing
    exact writing.elim
  sane := ⟨work,map,rfl,found⟩
  gapless own := absurd own along.2
  drives _ _ _ _ := by
    refine .inr (.inr ⟨rfl,?_⟩)
    change ¬ Announces (state.logs chan.peer chan.log).writer
    rw [free]
    exact fun no => no

lemma notify_starts (along : Along net chan) (state : State υ ω) :
    .start chan ∈ (notify net state chan.node chan.log).tasks := by
  apply mem_append_left
  exact mem_map.mpr ⟨chan.peer,mem_filter.mpr ⟨along.1,by simpa using along.2⟩,rfl⟩

lemma notify_keeps (member : task ∈ state.tasks) (node log : υ) :
    task ∈ (notify net state node log).tasks := mem_append_right _ member

lemma adding_move
    (gapless : Gapless state node) (writer : (state.logs node node).writer = some (.adding id op)) :
    LogMove net state (notify net (setLog state node node
      ⟨appended (state.logs node node).storage id op,(state.logs node node).top,none⟩) node node) node node
      ⟨appended (state.logs node node).storage id op,(state.logs node node).top,none⟩ where
  logs := rfl
  syncers := rfl
  tasks task member := .inl (notify_keeps member node node)
  top := le_refl _
  holds other held := by
    unfold Holds at held ⊢
    rw [stored_appended]
    split
    · rfl
    · exact held
  writes chan other writing := by
    rw [writer] at writing
    exact writing.elim
  sane := trivial
  gapless _ other below := by
    refine .inl ?_
    unfold Holds
    rw [stored_appended]
    split
    · rfl
    · rename_i different
      rcases gapless other below with held | ⟨value,adding⟩
      · exact held
      · rw [writer] at adding
        cases adding
        exact absurd rfl different
  drives chan along here same := by
    subst same
    refine .inr (.inl ?_)
    have started := notify_starts along (setLog state chan.log chan.log
      ⟨appended (state.logs chan.log chan.log).storage id op,(state.logs chan.log chan.log).top,none⟩)
    rw [here] at started
    exact started

lemma put_move
    (along : Along net chan) (writer : (state.logs chan.peer chan.log).writer =
      some (.saving chan ((id,op)::rest) (running work) changed)) (found : trlogMap.content work = some map)
    (free : map.find id = none) :
    LogMove net state (setLog state chan.peer chan.log {state.logs chan.peer chan.log with
      top:=idMaximize (state.logs chan.peer chan.log).top id,
      writer:=some (.saving chan rest (running (trlogMap.replace (map.insert id op) work)) true)}) chan.peer chan.log
      {state.logs chan.peer chan.log with
        top:=idMaximize (state.logs chan.peer chan.log).top id,
        writer:=some (.saving chan rest (running (trlogMap.replace (map.insert id op) work)) true)} where
  logs := rfl
  syncers := rfl
  tasks task member := .inl member
  top := (idMaximize_bounds _ id).1
  holds _ held := held
  writes other key writing := by
    rw [writer] at writing
    obtain ⟨rfl,⟨value,row⟩ | held⟩ := writing
    · rcases mem_cons.mp row with same | row
      · cases same
        refine .inr ⟨rfl,.inr ?_⟩
        change (stored (trlogMap.replace (map.insert id op) work) id).isSome
        rw [stored_replace,if_pos rfl]
        rfl
      · exact .inr ⟨rfl,.inl ⟨value,row⟩⟩
    · obtain ⟨value,held⟩ := isSome_iff_exists.mp held
      exact .inr ⟨rfl,.inr (isSome_iff_exists.mpr ⟨value,(extends_insert found free op).kept held⟩)⟩
  sane := ⟨_,_,rfl,trlogMap.content_replace _ _⟩
  gapless own := absurd own along.2
  drives _ _ _ _ := .inl rfl

lemma skip_move
    (along : Along net chan) (writer : (state.logs chan.peer chan.log).writer =
      some (.saving chan ((id,op)::rest) (running work) changed)) (found : trlogMap.content work = some map)
    (taken : (map.find id).isSome) :
    LogMove net state (setLog state chan.peer chan.log {state.logs chan.peer chan.log with
      writer:=some (.saving chan rest (running work) changed)}) chan.peer chan.log
      {state.logs chan.peer chan.log with writer:=some (.saving chan rest (running work) changed)} where
  logs := rfl
  syncers := rfl
  tasks task member := .inl member
  top := le_refl _
  holds _ held := held
  writes other key writing := by
    rw [writer] at writing
    obtain ⟨rfl,⟨value,row⟩ | held⟩ := writing
    · rcases mem_cons.mp row with same | row
      · cases same
        refine .inr ⟨rfl,.inr ?_⟩
        change ((entries work).find id).isSome
        rw [trlog_found found]
        exact taken
      · exact .inr ⟨rfl,.inl ⟨value,row⟩⟩
    · exact .inr ⟨rfl,.inr held⟩
  sane := ⟨work,map,rfl,found⟩
  gapless own := absurd own along.2
  drives _ _ _ _ := by
    cases changed with
    | true => exact .inl rfl
    | false =>
      refine .inr (.inr ⟨rfl,?_⟩)
      rw [writer]
      exact false_ne_true

lemma commit_move
    (along : Along net chan) (writer : (state.logs chan.peer chan.log).writer =
      some (.saving chan [] (running work) changed))
    (kept : ∀ id op, stored (state.logs chan.peer chan.log).storage id = some op → stored work id = some op)
    (same : after = push (if changed then
      notify net (setLog state chan.peer chan.log ⟨work,(state.logs chan.peer chan.log).top,none⟩) chan.peer chan.log
      else setLog state chan.peer chan.log ⟨work,(state.logs chan.peer chan.log).top,none⟩) (.report chan)) :
    LogMove net state after chan.peer chan.log ⟨work,(state.logs chan.peer chan.log).top,none⟩ where
  logs := by
    subst same
    cases changed <;> rfl
  syncers := by
    subst same
    cases changed <;> rfl
  tasks task member := by
    subst same
    refine .inl (mem_cons_of_mem _ ?_)
    cases changed with
    | true => exact notify_keeps member chan.peer chan.log
    | false => exact member
  top := le_refl _
  holds id held := by
    obtain ⟨op,held⟩ := isSome_iff_exists.mp held
    exact isSome_iff_exists.mpr ⟨op,kept id op held⟩
  writes other id writing := by
    rw [writer] at writing
    obtain ⟨_,⟨_,row⟩ | held⟩ := writing
    · cases row
    · exact .inl held
  sane := trivial
  gapless own := absurd own along.2
  drives other between here log := by
    subst same
    cases changed with
    | true =>
      refine .inr (.inl (mem_cons_of_mem _ ?_))
      rw [← here,← log]
      exact notify_starts between _
    | false =>
      refine .inr (.inr ⟨rfl,?_⟩)
      rw [writer]
      exact false_ne_true

lemma advance_whole (whole : Whole net state)
    (done : advance net state node log true = some next) : Whole net next := by
  have safe := advance_safe whole.safe done
  have valid := (whole.safe.logs node log).writer
  have sane := whole.sane node log
  cases writer : (state.logs node log).writer with
  | none => simp [advance,writer] at done
  | some current =>
    simp only [WriterOk,writer] at valid
    cases current with
    | adding id op =>
      obtain ⟨rfl,_,free⟩ := valid
      simp only [advance,writer,free,Option.isNone_none,Bool.and_self,if_true] at done
      cases done
      exact (adding_move (whole.gapless node) writer).whole safe whole
    | saving chan rest txn changed =>
      obtain ⟨rfl,rfl,along,_,kept,_⟩ := valid
      simp only [Sane,writer] at sane
      obtain ⟨work,map,rfl,found⟩ := sane
      cases rest with
      | nil =>
        simp only [advance,writer,commit_running,if_true] at done
        exact (commit_move along writer kept (Option.some.inj done).symm).whole safe whole
      | cons row rest =>
        obtain ⟨id,op⟩ := row
        simp only [advance,writer,putUnique_running true id op found,if_true] at done
        cases held : map.find id with
        | none =>
          simp only [held,isSome_none,false_eq_true,if_false] at done
          cases done
          exact (put_move along writer found held).whole safe whole
        | some value =>
          simp only [held,isSome_some,if_true] at done
          cases done
          exact (skip_move along writer found (by rw [held]; rfl)).whole safe whole

-- A relay that is about to send a range holds all of it, but for what its peer
-- already has. The owner of a log need not be asked: it has no gaps.
def relaysWhole (state : State υ ω) : Action υ ω → Bool
  | .perform (.send chan lower upper) _ => chan.node = chan.log || (range' lower (upper - lower)).all fun id =>
      (stored (state.logs chan.node chan.log).storage id).isSome ||
        (stored (state.logs chan.peer chan.log).storage id).isSome
  | _ => true

lemma send_whole (outcome : Outcome) (whole : Whole net state) (member : .send chan lower upper ∈ state.tasks)
    (unlocked : (state.logs chan.node chan.log).writer = none)
    (relayed : relaysWhole state (.perform (.send chan lower upper) outcome) = true) (above : lower ≤ id)
    (below : id < upper) : Holds (state.logs chan.node chan.log) id ∨ Holds (state.logs chan.peer chan.log) id := by
  simp only [relaysWhole,or_eq_true,decide_eq_true_eq,all_eq_true] at relayed
  rcases relayed with own | all
  · obtain ⟨_,_,inside⟩ := whole.safe.tasks _ member
    have gapless := whole.gapless chan.log
    unfold Gapless at gapless
    rw [own] at unlocked inside ⊢
    rcases gapless id (below.trans_le inside) with held | ⟨op,adding⟩
    · exact .inl held
    · rw [unlocked] at adding
      cases adding
  · exact all id (List.mem_range'_1.mpr ⟨above,by omega⟩)

lemma perform_whole (whole : Whole net (push state task))
    (safe : Safe net next) (works : outcome.works = true) (found : outcome.found = true)
    (unlimited : outcome.limit = none) (relayed : relaysWhole state (.perform task outcome) = true)
    (done : perform batchSize state outcome task = some next) : Whole net next := by
  have valid : TaskOk net state task :=
    (whole.safe.tasks task mem_cons_self).grows (grows_retask (push state task) state.tasks)
  rcases perform_cases works found unlimited done with ⟨node,op,rfl,free,rfl⟩ | ⟨chan,rows,rfl,free,rfl⟩ |
    ⟨chan,news,syncer,rule,rfl⟩
  · have gapless : Gapless state node := whole.gapless node
    exact (addOp_move gapless free).whole safe whole
  · exact (save_move valid.1 free (trlogMap.content_replace _ _)).whole safe whole
  · refine ⟨safe,whole.sane,whole.gapless,fun one along => carried_fired rule ?_ (whole.carried one along),
      fun one => answered_fired rule (whole.answered one),
      fun one along => driven_fired rule valid (whole.answered one) (whole.driven one along)⟩
    intro lower upper same id above below
    subst same
    have held := send_whole outcome whole mem_cons_self rule.unlocked relayed above below
    exact held

variable [DecidableEq ω]

def wholeStep (net : Network υ) (batchSize : Nat) : State υ ω → Action υ ω → Option (State υ ω) :=
  only (fun state action => clean action && relaysWhole state action) (step net batchSize)

lemma step_whole (whole : Whole net state)
    (moved : wholeStep net batchSize state action = some next) : Whole net next := by
  obtain ⟨accepted,moved⟩ := only_some moved
  have safe := step_safe whole.safe moved
  rw [and_eq_true] at accepted
  obtain ⟨tidy,relayed⟩ := accepted
  cases action with
  | append node op =>
    cases moved
    exact whole.retask safe fun task member => mem_cons_of_mem _ member
  | perform task outcome =>
    simp only [clean,and_eq_true,isNone_iff_eq_none] at tidy
    obtain ⟨⟨works,found⟩,unlimited⟩ := tidy
    simp only [step] at moved
    split at moved
    · rename_i member
      have taken : Whole net (push {state with tasks:=state.tasks.erase task} task) := by
        refine whole.retask (whole.safe.retask ?_) ?_
        · intro other inside
          rcases mem_cons.mp inside with rfl | inside
          · exact whole.safe.tasks other member
          · exact whole.safe.tasks other (mem_of_mem_erase inside)
        · intro other inside
          by_cases same : other = task
          · exact mem_cons.mpr (.inl same)
          · exact mem_cons_of_mem _ ((List.mem_erase_of_ne same).mpr inside)
      exact perform_whole taken safe works found unlimited relayed moved
    · cases moved
  | advance node log works =>
    change works = true at tidy
    subst tidy
    exact advance_whole whole moved
  | lose task => cases tidy
  | duplicate task => cases tidy

lemma reached_whole
    (reached : Machine.Reached (wholeStep net batchSize) initial state) : Whole net state :=
  reached_invariant (initial_whole net) (fun _ _ _ whole moved => step_whole whole moved) reached

theorem replication_complete (net : Network υ) (connected : net.graph.Preconnected) (batchSize : Nat)
    (state : State υ ω) (reached : Machine.Reached (wholeStep net batchSize) initial state) (quiet : Quiescent state)
    (node other log : υ) (id : Nat) (op : ω) (held : stored (state.logs node log).storage id = some op) :
    stored (state.logs other log).storage id = some op := by
  have whole := reached_whole reached
  have spreads : Holds (state.logs other log) id := by
    obtain ⟨walk⟩ := connected node other
    have start : Holds (state.logs node log) id := isSome_iff_exists.mpr ⟨op,held⟩
    clear held
    induction walk with
    | nil => exact start
    | cons adjacent _ ih => exact ih (neighbour_holds whole quiet adjacent start)
  obtain ⟨value,found⟩ := isSome_iff_exists.mp spreads
  have one := (whole.safe.logs other log).genuine id value found
  have two := (whole.safe.logs node log).genuine id op held
  unfold Genuine at one two
  rw [found,← one,two]

def settled (requests top : Nat) : List Point :=
  [.entered top,.loaded top requests,.reading requests top,.closing requests top]

def relayed : List (Action (Fin 3) Nat) :=
  let first : Channel (Fin 3) := ⟨0,1,0⟩
  let second : Channel (Fin 3) := ⟨1,2,0⟩
  let sending : List Point := [.entered 0,.loaded 0 1,.reading 1 0,.swapping 1 0 1 1,.emitting 1 0 1 1,.closing 1 1]
  appending 0 7 ++ asking first 0 sending ++ carrying first 0 7 ++ reporting first 1 (settled 0 1) ++
    asking second 0 sending ++ carrying second 0 7 ++ reporting second 1 (settled 0 1) ++
    asking ⟨2,1,0⟩ 1 (settled 1 1)

def observed (state : State (Fin 3) Nat) : Bool × Option Nat × Option Nat :=
  (state.tasks.isEmpty && decide (∀ node log : Fin 3, (state.logs node log).writer.isNone),
    stored (state.logs 1 0).storage 0,stored (state.logs 2 0).storage 0)

lemma observed_iff {state : State (Fin 3) Nat} : observed state = (true,one,two) ↔
    Quiescent state ∧ stored (state.logs 1 0).storage 0 = one ∧ stored (state.logs 2 0).storage 0 = two := by
  simp [observed,Quiescent]

theorem replication_complete_relayed : ∃ state : State (Fin 3) Nat,
    Machine.Reached (wholeStep line 1) initial state ∧ Quiescent state ∧
      stored (state.logs 1 0).storage 0 = some 7 ∧ stored (state.logs 2 0).storage 0 = some 7 := by
  have runs : (relayed.foldlM (wholeStep line 1) initial).map observed = some (true,some 7,some 7) := by decide +kernel
  obtain ⟨state,ran,seen⟩ := map_eq_some_iff.mp runs
  obtain ⟨quiet,held,_⟩ := observed_iff.mp seen
  exact ⟨state,⟨relayed,ran⟩,quiet,held,replication_complete line (SimpleGraph.pathGraph_preconnected 3) 1 state
    ⟨relayed,ran⟩ quiet 1 2 0 0 7 held⟩

instance : DecidableRel line.graph.Adj := fun _ _ => decidable_of_iff _ SimpleGraph.pathGraph_adj.symm

lemma line_tree : line.graph.IsTree := by
  refine SimpleGraph.isTree_iff_connected_and_card.mpr ⟨SimpleGraph.pathGraph_connected 2,?_⟩
  rw [Nat.card_eq_fintype_card,← SimpleGraph.edgeFinset_card,Nat.card_eq_fintype_card]
  decide

-- Two entries are sent as two ranges. The second one overtakes the first, and
-- node 1 passes both ranges on although it has only entry 1.
def overtaken : List (Action (Fin 3) Nat) :=
  let first : Channel (Fin 3) := ⟨0,1,0⟩
  let second : Channel (Fin 3) := ⟨1,2,0⟩
  let sending : List Point := [.entered 0,.loaded 0 1,.reading 1 0,.swapping 1 0 1 2,.emitting 1 0 1 2,.reading 1 1,
    .swapping 1 1 2 2,.emitting 1 1 2 2,.closing 1 2]
  appending 0 7 ++ appending 0 8 ++ asking first 0 sending ++ carrying first 1 8 ++ reporting first 2 (settled 0 2) ++
    asking second 0 sending ++ carrying second 1 8 ++ reporting second 2 (settled 0 2) ++
    asking ⟨2,1,0⟩ 2 (settled 1 2) ++ [.perform (.send second 0 1) {}] ++ asking first 2 (settled 1 2) ++
    carrying first 0 7 ++ reporting first 2 (settled 0 2) ++ asking second 2 (settled 1 2)

theorem overtaken_entry_is_missing : line.graph.IsTree ∧ ∃ state : State (Fin 3) Nat,
    Machine.Reached (only (fun _ action => clean action) (step line 1)) initial state ∧ Quiescent state ∧
      stored (state.logs 1 0).storage 0 = some 7 ∧ stored (state.logs 2 0).storage 0 = none := by
  have runs : (overtaken.foldlM (only (fun _ action => clean action) (step line 1)) initial).map observed =
      some (true,some 7,none) := by decide +kernel
  obtain ⟨state,ran,seen⟩ := map_eq_some_iff.mp runs
  exact ⟨line_tree,state,⟨overtaken,ran⟩,observed_iff.mp seen⟩

end MedvedDB.Replication
