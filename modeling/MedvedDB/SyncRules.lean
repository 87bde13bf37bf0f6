import MedvedDB.Agreement

open MedvedDB.Lmdb MedvedDB.Trlog MedvedDB.Machine
namespace MedvedDB.Replication

variable {υ ω : Type}

-- Nothing fails, gets lost or is duplicated; the order stays free.
def clean : Action υ ω → Bool
  | .append _ _ => true
  | .perform _ outcome => outcome.works && outcome.found && outcome.limit.isNone
  | .advance _ _ works => works
  | .lose _ | .duplicate _ => false

def Holds (entry : NodeLog υ ω) (id : Nat) : Prop := (stored entry.storage id).isSome

-- A task or, with the log's lock, a transaction that still has to bring an
-- entry to the peer of a channel.
def Carries (chan : Channel υ) (id : Nat) : Task υ ω → Prop
  | .schedule other (.emitting _ synced range _) => other = chan ∧ synced ≤ id ∧ id < range
  | .send other lower upper => other = chan ∧ lower ≤ id ∧ id < upper
  | .data other rows | .save other rows => other = chan ∧ ∃ op, (id,op) ∈ rows
  | _ => False

def Writes (chan : Channel υ) (id : Nat) : Option (Writer υ ω) → Prop
  | some (.saving other rest txn _) => other = chan ∧ ((∃ op, (id,op) ∈ rest) ∨ (stored txn.work id).isSome)
  | _ => False

-- A counted request is answered by a message on its way or by a schedule call
-- that has loaded the counter and will find it changed.
def Answers (chan : Channel υ) (requests : Nat) : Task υ ω → Prop
  | .publishing other | .sync other | .state other _ | .schedule other (.entered _) => other = chan
  | .schedule other (.loaded _ seen) | .schedule other (.reading seen _) | .schedule other (.swapping seen _ _ _)
  | .schedule other (.emitting seen _ _ _) | .schedule other (.closing seen _) =>
    other = chan ∧ 0 < seen ∧ seen ≤ requests
  | _ => False

-- A call that saw an older counter goes round again instead of returning.
def Returns (requests seen : Nat) : Prop := seen ≠ requests ∧ seen ≠ 0

-- A task after which the channel reads the log's top once more.
def Drives (chan : Channel υ) (requests top : Nat) : Task υ ω → Prop
  | .start other | .counting other | .publishing other | .sync other | .state other _ => other = chan
  | .schedule other (.entered _) | .schedule other (.loaded _ _) | .schedule other (.reading _ _) => other = chan
  | .schedule other (.swapping seen _ range seenTop) =>
    other = chan ∧ (range < seenTop ∨ seenTop = top ∨ Returns requests seen)
  | .schedule other (.emitting seen _ range seenTop) => other = chan ∧ (range < seenTop ∨ Returns requests seen)
  | .schedule other (.closing seen _) => other = chan ∧ Returns requests seen
  | _ => False

def Announces : Option (Writer υ ω) → Prop
  | some (.adding _ _) => True
  | some (.saving _ _ _ changed) => changed
  | none => False

def Pending (state : State υ ω) (holds : Task υ ω → Prop) : Prop := ∃ task ∈ state.tasks, holds task

def Uncovered (state : State υ ω) (chan : Channel υ) : Prop :=
  (state.syncers chan).synced < (state.logs chan.node chan.log).top ∧
    (state.logs chan.peer chan.log).top < (state.logs chan.node chan.log).top

def Carried (state : State υ ω) (chan : Channel υ) : Prop :=
  ∀ id < (state.syncers chan).synced, Holds (state.logs chan.peer chan.log) id ∨
    Writes chan id (state.logs chan.peer chan.log).writer ∨ Pending state (Carries chan id)

def Answered (state : State υ ω) (chan : Channel υ) : Prop :=
  0 < (state.syncers chan).requests → Pending state (Answers chan (state.syncers chan).requests)

def Driven (state : State υ ω) (chan : Channel υ) : Prop :=
  Uncovered state chan → Announces (state.logs chan.node chan.log).writer ∨
    Pending state (Drives chan (state.syncers chan).requests (state.logs chan.node chan.log).top)

-- The owner has no gaps: an id it gave out is stored or being added.
def Gapless (state : State υ ω) (node : υ) : Prop :=
  ∀ id < (state.logs node node).top, Holds (state.logs node node) id ∨
    ∃ op, (state.logs node node).writer = some (.adding id op)

def Sane : Option (Writer υ ω) → Prop
  | some (.saving _ _ txn _) => ∃ work map, txn = running work ∧ trlogMap.content work = some map
  | _ => True

structure Whole (net : Network υ) (state : State υ ω) : Prop where
  safe : Safe net state
  sane : ∀ node log, Sane (state.logs node log).writer
  gapless : ∀ node, Gapless state node
  carried : ∀ chan, Along net chan → Carried state chan
  answered : ∀ chan, Answered state chan
  driven : ∀ chan, Along net chan → Driven state chan

lemma initial_whole (net : Network υ) : Whole net (initial : State υ ω) where
  safe := initial_safe net
  sane _ _ := trivial
  gapless _ _ below := absurd below (Nat.not_lt_zero _)
  carried _ _ _ below := absurd below (Nat.not_lt_zero _)
  answered _ some := absurd some (Nat.lt_irrefl 0)
  driven _ _ uncovered := absurd uncovered.1 (Nat.not_lt_zero _)

-- What a task of one synchronizer does when every call works: the tasks it
-- leaves and the new counters of its channel.
inductive Rule (batchSize : Nat) (state : State υ ω) (chan : Channel υ) :
    Task υ ω → List (Task υ ω) → Syncer → Prop where
  | empty : (state.logs chan.node chan.log).top = 0 →
      Rule batchSize state chan (.start chan) [] (state.syncers chan)
  | start : Rule batchSize state chan (.start chan) [.counting chan] (state.syncers chan)
  | first : (state.syncers chan).requests = 0 →
      Rule batchSize state chan (.counting chan) [.publishing chan] {state.syncers chan with requests:=1}
  | later : 0 < (state.syncers chan).requests → Rule batchSize state chan (.counting chan) []
      {state.syncers chan with requests:=(state.syncers chan).requests + 1}
  | publishing : Rule batchSize state chan (.publishing chan) [.sync chan] (state.syncers chan)
  | sync : Rule batchSize state chan (.sync chan) [.state chan (state.logs chan.peer chan.log).top] (state.syncers chan)
  | report : Rule batchSize state chan (.report chan) [.state chan (state.logs chan.peer chan.log).top]
      (state.syncers chan)
  | state (top : Nat) : Rule batchSize state chan (.state chan top) [.schedule chan (.entered top)] (state.syncers chan)
  | entered (pos : Nat) : Rule batchSize state chan (.schedule chan (.entered pos))
      [.schedule chan (.loaded pos (state.syncers chan).requests)] (state.syncers chan)
  | loaded (pos requests synced : Nat) : Rule batchSize state chan (.schedule chan (.loaded pos requests))
      [.schedule chan (.reading requests synced)] (state.syncers chan)
  | covered (requests synced : Nat) : (state.logs chan.node chan.log).top ≤ synced →
      Rule batchSize state chan (.schedule chan (.reading requests synced))
        [.schedule chan (.closing requests synced)] (state.syncers chan)
  | reading (requests synced range : Nat) : Rule batchSize state chan (.schedule chan (.reading requests synced))
      [.schedule chan (.swapping requests synced range (state.logs chan.node chan.log).top)] (state.syncers chan)
  | taken (requests range top : Nat) : (state.syncers chan).synced < range →
      Rule batchSize state chan (.schedule chan (.swapping requests (state.syncers chan).synced range top))
        [.schedule chan (.emitting requests (state.syncers chan).synced range top)]
        {state.syncers chan with synced:=range}
  | nothing (requests range top : Nat) : range ≤ (state.syncers chan).synced →
      Rule batchSize state chan (.schedule chan (.swapping requests (state.syncers chan).synced range top))
        [.schedule chan (if range < top then .reading requests (state.syncers chan).synced
          else .closing requests (state.syncers chan).synced)] {state.syncers chan with synced:=range}
  | retry (requests synced range top : Nat) :
      Rule batchSize state chan (.schedule chan (.swapping requests synced range top))
        [.schedule chan (.reading requests (state.syncers chan).synced)] (state.syncers chan)
  | emitting (requests synced range top : Nat) :
      Rule batchSize state chan (.schedule chan (.emitting requests synced range top))
        [.schedule chan (if range < top then .reading requests range else .closing requests range),
          .send chan synced range] (state.syncers chan)
  | closed (synced : Nat) : Rule batchSize state chan
      (.schedule chan (.closing (state.syncers chan).requests synced)) [] {state.syncers chan with requests:=0}
  | again (requests synced : Nat) : Rule batchSize state chan (.schedule chan (.closing requests synced))
      [.schedule chan (.reading (state.syncers chan).requests synced)] (state.syncers chan)
  | unsent (lower upper : Nat) : (state.logs chan.node chan.log).writer = none →
      rangeRead {} (state.logs chan.node chan.log).storage lower upper = [] →
      Rule batchSize state chan (.send chan lower upper) [] (state.syncers chan)
  | send (lower upper : Nat) : (state.logs chan.node chan.log).writer = none →
      Rule batchSize state chan (.send chan lower upper)
        [.data chan (rangeRead {} (state.logs chan.node chan.log).storage lower upper)] (state.syncers chan)
  | data (rows : List (Nat × ω)) : Rule batchSize state chan (.data chan rows) [.save chan rows] (state.syncers chan)

variable {one : Channel υ} {after before state : State υ ω} {task : Task υ ω}

lemma Rule.answers (rule : Rule batchSize state chan task news syncer)
    (answers : Answers one requests task) : one = chan := by
  cases rule <;> simp_all [Answers]

lemma Rule.drives (rule : Rule batchSize state chan task news syncer)
    (drives : Drives one requests top task) : one = chan := by
  cases rule <;> simp_all [Drives]

lemma Rule.carries {id : Nat} (rule : Rule batchSize state chan task news syncer)
    (carries : Carries one id task) : one = chan := by
  cases rule <;> simp_all [Carries]

lemma Rule.unlocked (rule : Rule batchSize state chan (.send other lower upper) news syncer) :
    (state.logs chan.node chan.log).writer = none := by
  cases rule <;> assumption

lemma Answers.counted (answers : Answers chan requests task) :
    Answers chan (requests + 1) task := by
  unfold Answers at answers ⊢
  split at answers <;> simp_all <;> omega

lemma Answers.drives (answers : Answers chan requests task) (top : Nat) :
    Drives chan (requests + 1) top task := by
  unfold Answers at answers
  split at answers <;> simp_all [Drives,Returns] <;> omega

lemma answered_frame (answered : Answered before chan)
    (same : after.syncers = before.syncers)
    (kept : ∀ task ∈ before.tasks, Answers chan (before.syncers chan).requests task → task ∈ after.tasks) :
    Answered after chan := by
  intro counted
  rw [same] at counted ⊢
  obtain ⟨task,member,answers⟩ := answered counted
  exact ⟨task,kept task member answers,answers⟩

lemma driven_frame (driven : Driven before chan) (same : after.syncers = before.syncers)
    (top : (after.logs chan.node chan.log).top = (before.logs chan.node chan.log).top)
    (peer : (before.logs chan.peer chan.log).top ≤ (after.logs chan.peer chan.log).top)
    (announces : Announces (before.logs chan.node chan.log).writer → Announces (after.logs chan.node chan.log).writer ∨
      Pending after (Drives chan (before.syncers chan).requests (before.logs chan.node chan.log).top))
    (kept : ∀ task ∈ before.tasks, Drives chan (before.syncers chan).requests (before.logs chan.node chan.log).top task →
      task ∈ after.tasks) : Driven after chan := by
  intro uncovered
  unfold Uncovered at uncovered
  rw [same,top] at uncovered ⊢
  rcases driven ⟨uncovered.1,peer.trans_lt uncovered.2⟩ with announcing | ⟨task,member,drives⟩
  · exact announces announcing
  · exact .inr ⟨task,kept task member drives,drives⟩

lemma carried_frame (carried : Carried before chan) (same : after.syncers = before.syncers)
    (holds : ∀ id, Holds (before.logs chan.peer chan.log) id → Holds (after.logs chan.peer chan.log) id)
    (writes : ∀ id, Writes chan id (before.logs chan.peer chan.log).writer →
      Holds (after.logs chan.peer chan.log) id ∨ Writes chan id (after.logs chan.peer chan.log).writer)
    (kept : ∀ id, ∀ task ∈ before.tasks, Carries chan id task →
      task ∈ after.tasks ∨ Writes chan id (after.logs chan.peer chan.log).writer) : Carried after chan := by
  intro id below
  rw [same] at below
  rcases carried id below with held | writing | ⟨task,member,carries⟩
  · exact .inl (holds id held)
  · exact (writes id writing).imp_right .inl
  · rcases kept id task member carries with member | writing
    · exact .inr (.inr ⟨task,member,carries⟩)
    · exact .inr (.inl writing)

lemma Whole.retask (whole : Whole net state)
    (safe : Safe net {state with tasks:=tasks}) (kept : ∀ task ∈ state.tasks, task ∈ tasks) :
    Whole net {state with tasks:=tasks} where
  safe := safe
  sane := whole.sane
  gapless := whole.gapless
  carried chan along := carried_frame (whole.carried chan along) rfl (fun _ held => held) (fun _ => .inr)
    fun _ task member _ => .inl (kept task member)
  answered chan := answered_frame (whole.answered chan) rfl fun task member _ => kept task member
  driven chan along := driven_frame (whole.driven chan along) rfl rfl (le_refl _) .inl fun task member _ => kept task member

variable [DecidableEq υ]

def fired (state : State υ ω) (chan : Channel υ) (news : List (Task υ ω)) (syncer : Syncer) : State υ ω :=
  {setSyncer state chan syncer with tasks:=news ++ state.tasks}

lemma fired_same (state : State υ ω) (chan : Channel υ) (news : List (Task υ ω)) :
    fired state chan news (state.syncers chan) = {state with tasks:=news ++ state.tasks} := by
  have same : (fun other => if other = chan then state.syncers chan else state.syncers other) = state.syncers := by
    funext other
    split
    · rename_i equal
      rw [equal]
    · rfl
  simp [fired,setSyncer,same]

lemma fired_none (state : State υ ω) (chan : Channel υ) : state = fired state chan [] (state.syncers chan) :=
  (fired_same state chan []).symm

lemma fired_one (state : State υ ω) (chan : Channel υ) (task : Task υ ω) :
    push state task = fired state chan [task] (state.syncers chan) := (fired_same state chan [task]).symm

lemma scheduleStep_rule (batchSize : Nat) (state : State υ ω) (chan : Channel υ) (outcome : Outcome)
    (works : outcome.works = true) (point : Point) : ∃ news syncer,
    Rule batchSize state chan (.schedule chan point) news syncer ∧
      scheduleStep batchSize state chan outcome point = fired state chan news syncer := by
  cases point with
  | entered pos => exact ⟨_,_,.entered pos,fired_one _ _ _⟩
  | loaded pos requests => exact ⟨_,_,.loaded pos requests _,fired_one _ _ _⟩
  | reading requests synced =>
    simp only [scheduleStep]
    split
    · exact ⟨_,_,.covered requests synced ‹_›,fired_one _ _ _⟩
    · exact ⟨_,_,.reading requests synced _,fired_one _ _ _⟩
  | swapping requests synced range top =>
    simp only [scheduleStep]
    split
    · rename_i swaps
      obtain ⟨rfl,_⟩ := swaps
      split
      · exact ⟨_,_,.taken requests range top ‹_›,rfl⟩
      · refine ⟨_,_,.nothing requests range top (not_lt.mp ‹_›),?_⟩
        split <;> rfl
    · exact ⟨_,_,.retry requests synced range top,fired_one _ _ _⟩
  | emitting requests synced range top =>
    refine ⟨_,_,.emitting requests synced range top,?_⟩
    rw [fired_same]
    simp only [scheduleStep,works,if_true]
    split <;> rfl
  | closing requests synced =>
    simp only [scheduleStep]
    split
    · rename_i same
      subst same
      exact ⟨_,_,.closed synced,rfl⟩
    · exact ⟨_,_,.again requests synced,fired_one _ _ _⟩

lemma perform_cases (works : outcome.works = true)
    (found : outcome.found = true) (unlimited : outcome.limit = none)
    (done : perform batchSize state outcome task = some next) :
    (∃ node op, task = .addOp node op ∧ (state.logs node node).writer = none ∧
      next = setLog state node node {state.logs node node with
        top:=(state.logs node node).top + 1,writer:=some (.adding (state.logs node node).top op)}) ∨
    (∃ chan rows, task = .save chan rows ∧ (state.logs chan.peer chan.log).writer = none ∧
      next = setLog state chan.peer chan.log {state.logs chan.peer chan.log with writer:=some (.saving chan rows
        (running (trlogMap.replace (entries (state.logs chan.peer chan.log).storage)
          (state.logs chan.peer chan.log).storage)) false)}) ∨
    ∃ chan news syncer, Rule batchSize state chan task news syncer ∧ next = fired state chan news syncer := by
  have reads : outcome.read = {} := by simp [Outcome.read,unlimited]
  cases task with
  | addOp node op =>
    simp only [perform,works] at done
    split at done
    · cases done
    · rename_i free
      cases done
      exact .inl ⟨node,op,rfl,by simpa using free,rfl⟩
  | save chan rows =>
    simp only [perform,works,found] at done
    split at done
    · cases done
    · rename_i free
      cases done
      exact .inr (.inl ⟨chan,rows,rfl,by simpa using free,rfl⟩)
  | start chan =>
    simp only [perform,works] at done
    split at done
    · rename_i empty
      cases done
      exact .inr (.inr ⟨chan,_,_,.empty (by simpa using empty),fired_none _ _⟩)
    · cases done
      exact .inr (.inr ⟨chan,_,_,.start,fired_one _ _ _⟩)
  | counting chan =>
    simp only [perform] at done
    split at done
    · rename_i counted
      cases done
      exact .inr (.inr ⟨chan,_,_,.later (Nat.pos_of_ne_zero counted),rfl⟩)
    · rename_i counted
      cases done
      rw [not_not] at counted
      exact .inr (.inr ⟨chan,_,_,.first counted,by rw [counted]; rfl⟩)
  | publishing chan =>
    simp only [perform,works] at done
    cases done
    exact .inr (.inr ⟨chan,_,_,.publishing,fired_one _ _ _⟩)
  | sync chan =>
    simp only [perform,works,found] at done
    cases done
    exact .inr (.inr ⟨chan,_,_,.sync,fired_one _ _ _⟩)
  | state chan top =>
    simp only [perform,works] at done
    cases done
    exact .inr (.inr ⟨chan,_,_,.state top,fired_one _ _ _⟩)
  | schedule chan point =>
    cases done
    obtain ⟨news,syncer,rule,same⟩ := scheduleStep_rule batchSize state chan outcome works point
    exact .inr (.inr ⟨chan,news,syncer,rule,same⟩)
  | send chan lower upper =>
    simp only [perform,works,reads] at done
    split at done
    · cases done
    · rename_i free
      have free : (state.logs chan.node chan.log).writer = none := by simpa using free
      split at done
      · rename_i empty
        cases done
        exact .inr (.inr ⟨chan,_,_,.unsent lower upper free (by simpa using empty),fired_none _ _⟩)
      · cases done
        exact .inr (.inr ⟨chan,_,_,.send lower upper free,fired_one _ _ _⟩)
  | data chan rows =>
    simp only [perform,works] at done
    cases done
    exact .inr (.inr ⟨chan,_,_,.data rows,fired_one _ _ _⟩)
  | report chan =>
    simp only [perform,works] at done
    cases done
    exact .inr (.inr ⟨chan,_,_,.report,fired_one _ _ _⟩)

lemma Pending.handover {before after : Task υ ω → Prop}
    (pending : Pending (push state task) before) (kept : ∀ other, before other → after other)
    (handed : before task → ∃ other ∈ news, after other) : Pending (fired state chan news syncer) after := by
  obtain ⟨other,member,holds⟩ := pending
  rcases mem_cons.mp member with rfl | member
  · obtain ⟨next,fresh,holds⟩ := handed holds
    exact ⟨next,mem_append_left _ fresh,holds⟩
  · exact ⟨other,mem_append_right _ member,kept other holds⟩

lemma fired_syncer (state : State υ ω) (chan : Channel υ) (news : List (Task υ ω)) (syncer : Syncer) :
    (fired state chan news syncer).syncers chan = syncer := by
  simp [fired,setSyncer]

lemma fired_logs (state : State υ ω) (chan : Channel υ) (news : List (Task υ ω)) (syncer : Syncer) :
    (fired state chan news syncer).logs = state.logs := rfl

lemma fired_other (other : one ≠ chan) (news : List (Task υ ω))
    (syncer : Syncer) : (fired state chan news syncer).syncers one = state.syncers one := by
  simp [fired,setSyncer,other]

lemma answered_handover (answered : Answered (push state task) chan)
    (same : syncer.requests = (state.syncers chan).requests)
    (handed : 0 < (state.syncers chan).requests → Answers chan (state.syncers chan).requests task →
      ∃ other ∈ news, Answers chan (state.syncers chan).requests other) :
    Answered (fired state chan news syncer) chan := by
  intro counted
  rw [fired_syncer,same] at counted ⊢
  exact (answered counted).handover (fun _ holds => holds) (handed counted)

lemma answered_fired (rule : Rule batchSize state chan task news syncer)
    (answered : Answered (push state task) one) : Answered (fired state chan news syncer) one := by
  by_cases other : one = chan
  swap
  · intro counted
    rw [fired_other other] at counted ⊢
    exact (answered counted).handover (fun _ holds => holds) fun holds => absurd (rule.answers holds) other
  subst other
  cases rule with
  | empty | start | report | unsent | send | data => exact answered_handover answered rfl fun _ no => no.elim
  | first =>
    intro _
    rw [fired_syncer]
    exact ⟨.publishing one,mem_cons_self,rfl⟩
  | later counted =>
    intro _
    rw [fired_syncer]
    exact (answered counted).handover (fun _ holds => holds.counted) fun no => no.elim
  | publishing | sync | state => exact answered_handover answered rfl fun _ _ => ⟨_,mem_cons_self,rfl⟩
  | entered pos =>
    exact answered_handover answered rfl fun counted _ => ⟨_,mem_cons_self,rfl,counted,le_refl _⟩
  | loaded | covered | reading | taken | retry =>
    exact answered_handover answered rfl fun _ holds => ⟨_,mem_cons_self,holds⟩
  | nothing | emitting =>
    refine answered_handover answered rfl fun _ holds => ⟨_,mem_cons_self,?_⟩
    split <;> exact holds
  | closed synced =>
    intro counted
    rw [fired_syncer] at counted
    exact absurd counted (Nat.lt_irrefl 0)
  | again requests synced =>
    exact answered_handover answered rfl fun counted _ => ⟨_,mem_cons_self,rfl,counted,le_refl _⟩

lemma driven_handover (driven : Driven (push state task) chan)
    (back : Uncovered (fired state chan news syncer) chan → Uncovered state chan)
    (kept : ∀ other : Task υ ω, Drives chan (state.syncers chan).requests (state.logs chan.node chan.log).top other →
      Drives chan syncer.requests (state.logs chan.node chan.log).top other)
    (handed : Uncovered (fired state chan news syncer) chan →
      Drives chan (state.syncers chan).requests (state.logs chan.node chan.log).top task →
      ∃ other ∈ news, Drives chan syncer.requests (state.logs chan.node chan.log).top other) :
    Driven (fired state chan news syncer) chan := by
  intro uncovered
  rcases driven (back uncovered) with announces | pending
  · exact .inl announces
  · refine .inr ?_
    rw [fired_syncer]
    exact pending.handover kept (handed uncovered)

lemma driven_still (driven : Driven (push state task) chan)
    (handed : Uncovered state chan → Drives chan (state.syncers chan).requests (state.logs chan.node chan.log).top task →
      ∃ other ∈ news, Drives chan (state.syncers chan).requests (state.logs chan.node chan.log).top other) :
    Driven (fired state chan news (state.syncers chan)) chan := by
  have back : Uncovered (fired state chan news (state.syncers chan)) chan → Uncovered state chan := by
    rw [fired_same]
    exact fun uncovered => uncovered
  exact driven_handover driven back (fun _ holds => holds) fun uncovered => handed (back uncovered)

lemma driven_fired (rule : Rule batchSize state chan task news syncer)
    (valid : TaskOk net state task) (answered : Answered (push state task) one)
    (driven : Driven (push state task) one) : Driven (fired state chan news syncer) one := by
  by_cases other : one = chan
  swap
  · intro uncovered
    have before : Uncovered state one := by simpa only [Uncovered,fired_other other,fired_logs] using uncovered
    rcases driven before with announces | pending
    · exact .inl announces
    · refine .inr ?_
      rw [fired_other other]
      exact pending.handover (fun _ holds => holds) fun holds => absurd (rule.drives holds) other
  subst other
  cases rule with
  | report | unsent | send | data => exact driven_still driven fun _ no => no.elim
  | empty nothing =>
    refine driven_still driven fun uncovered _ => absurd uncovered.1 ?_
    rw [nothing]
    exact Nat.not_lt_zero _
  | start | publishing | sync | state | entered | loaded | retry | again =>
    exact driven_still driven fun _ _ => ⟨_,mem_cons_self,rfl⟩
  | reading => exact driven_still driven fun _ _ => ⟨_,mem_cons_self,rfl,.inr (.inl rfl)⟩
  | first =>
    intro _
    exact .inr ⟨.publishing one,mem_cons_self,rfl⟩
  | later counted =>
    intro _
    refine .inr ?_
    rw [fired_syncer]
    -- The counting call itself is gone: whatever answers the earlier requests
    -- drives the channel for this one too.
    exact (answered counted).handover (fun _ holds => holds.drives _) fun no => no.elim
  | covered requests synced above =>
    refine driven_still driven fun uncovered _ => ?_
    rcases valid.2 with below | below
    · exact absurd uncovered.1 (not_lt.mpr (above.trans below))
    · exact absurd uncovered.2 (not_lt.mpr (above.trans below))
  | taken requests range top higher =>
    refine driven_handover driven (fun uncovered => ?_) (fun _ holds => holds) fun uncovered holds => ?_
    · simp only [Uncovered,fired_syncer] at uncovered
      exact ⟨higher.trans uncovered.1,uncovered.2⟩
    · simp only [Uncovered,fired_syncer] at uncovered
      have below : range < (state.logs one.node one.log).top := uncovered.1
      refine ⟨_,mem_cons_self,rfl,?_⟩
      obtain ⟨_,short | last | returns⟩ := holds
      · exact .inl short
      · exact .inl (last ▸ below)
      · exact .inr returns
  | nothing requests range top lower =>
    obtain ⟨_,reaches,_,_⟩ := valid
    have equal : range = (state.syncers one).synced := le_antisymm lower reaches
    refine driven_handover driven (fun uncovered => ?_) (fun _ holds => holds) fun uncovered holds => ?_
    · simp only [Uncovered,fired_syncer] at uncovered
      exact ⟨equal ▸ uncovered.1,uncovered.2⟩
    · simp only [Uncovered,fired_syncer] at uncovered
      have below : range < (state.logs one.node one.log).top := uncovered.1
      refine ⟨_,mem_cons_self,?_⟩
      split
      · rfl
      · rename_i whole
        obtain ⟨_,short | last | returns⟩ := holds
        · exact absurd short whole
        · exact absurd (last ▸ below) whole
        · exact ⟨rfl,returns⟩
  | emitting requests synced range top =>
    refine driven_still driven fun _ holds => ⟨_,mem_cons_self,?_⟩
    split
    · rfl
    · rename_i whole
      obtain ⟨_,short | returns⟩ := holds
      · exact absurd short whole
      · exact ⟨rfl,returns⟩
  | closed synced =>
    refine driven_handover driven (fun uncovered => ?_) (fun task holds => ?_) fun _ holds => ?_
    · simpa only [Uncovered,fired_syncer,fired_logs] using uncovered
    · unfold Drives at holds ⊢
      split at holds <;> simp_all [Returns] <;> grind
    · exact absurd rfl holds.2.1

lemma carried_handover (carried : Carried (push state task) chan)
    (lower : syncer.synced ≤ (state.syncers chan).synced)
    (handed : ∀ id, Carries chan id task →
      Holds (state.logs chan.peer chan.log) id ∨ ∃ other ∈ news, Carries chan id other) :
    Carried (fired state chan news syncer) chan := by
  intro id below
  rw [fired_syncer] at below
  rcases carried id (below.trans_le lower) with holds | writes | pending
  · exact .inl holds
  · exact .inr (.inl writes)
  · by_cases carries : Carries chan id task
    · rcases handed id carries with holds | ⟨other,fresh,carries⟩
      · exact .inl holds
      · exact .inr (.inr ⟨other,mem_append_left _ fresh,carries⟩)
    · exact .inr (.inr (pending.handover (fun _ holds => holds) fun holds => absurd holds carries))

lemma carried_fired (rule : Rule batchSize state chan task news syncer)
    (sends : ∀ lower upper, task = .send chan lower upper → ∀ id, lower ≤ id → id < upper →
      Holds (state.logs chan.node chan.log) id ∨ Holds (state.logs chan.peer chan.log) id)
    (carried : Carried (push state task) one) : Carried (fired state chan news syncer) one := by
  by_cases other : one = chan
  swap
  · intro id below
    rw [fired_other other] at below
    rcases carried id below with holds | writes | pending
    · exact .inl holds
    · exact .inr (.inl writes)
    · exact .inr (.inr (pending.handover (fun _ holds => holds) fun holds => absurd (rule.carries holds) other))
  subst other
  cases rule with
  | empty | start | first | later | publishing | sync | report | state | entered | loaded | covered | reading
  | retry | closed | again => exact carried_handover carried (le_refl _) fun _ no => no.elim
  | nothing _ _ _ lower => exact carried_handover carried lower fun _ no => no.elim
  | taken requests range top higher =>
    intro id below
    rw [fired_syncer] at below
    by_cases old : id < (state.syncers one).synced
    · rcases carried id old with holds | writes | pending
      · exact .inl holds
      · exact .inr (.inl writes)
      · exact .inr (.inr (pending.handover (fun _ holds => holds) fun no => no.elim))
    · exact .inr (.inr ⟨_,mem_append_left _ mem_cons_self,rfl,not_lt.mp old,below⟩)
  | emitting requests synced range top =>
    exact carried_handover carried (le_refl _) fun id carries =>
      .inr ⟨.send one synced range,mem_cons_of_mem _ mem_cons_self,carries⟩
  | unsent lower upper _ nothing =>
    refine carried_handover carried (le_refl _) fun id carries => .inl ?_
    obtain ⟨_,above,below⟩ := carries
    rcases sends lower upper rfl id above below with here | there
    · obtain ⟨op,held⟩ := isSome_iff_exists.mp here
      have read := rangeRead_whole held above below
      rw [nothing] at read
      cases read
    · exact there
  | send lower upper _ =>
    refine carried_handover carried (le_refl _) fun id carries => ?_
    obtain ⟨_,above,below⟩ := carries
    rcases sends lower upper rfl id above below with here | there
    · obtain ⟨op,held⟩ := isSome_iff_exists.mp here
      exact .inr ⟨_,mem_cons_self,rfl,op,rangeRead_whole held above below⟩
    · exact .inl there
  | data rows =>
    exact carried_handover carried (le_refl _) fun id carries => .inr ⟨.save one rows,mem_cons_self,carries⟩

end MedvedDB.Replication
