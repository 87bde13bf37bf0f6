import MedvedDB.TrlogSound
import MedvedDB.Machine

open MedvedDB.Lmdb MedvedDB.Trlog MedvedDB.TrlogSteps
namespace MedvedDB.ApplyOrder

variable {ω τ : Type}

-- A running call of mdv_trlog_apply: the storage when it was made, and whether
-- nothing has been rejected and no storage operation has failed since.
structure Call (ω : Type) where
  batchSize : Nat
  point : Point ω
  before : LogStorage ω
  smooth : Bool

structure Result (ω : Type) where
  n : Nat
  before : LogStorage ω
  smooth : Bool

-- One log with its writers and the one call that applies it. `accepted` is the
-- history of the apply function, `last` the call that returned last, if no
-- other has been made since.
structure State (ω τ : Type) where
  shared : Shared ω
  arg : τ
  call : Option (Call ω)
  accepted : List (Nat × ω)
  last : Option (Result ω)

inductive Action (ω : Type) where
  | addOp (works : Bool) (op : ω)
  | advance (works : Bool)
  | apply (batchSize : Nat)
  | work (outcome : Outcome)

def initial (log : Log ω) (arg : τ) : State ω τ := ⟨⟨log,none⟩,arg,none,[],none⟩

def taking (fn : τ → ω → Bool × τ) (arg : τ) : Point ω → List (Nat × ω)
  | .running (entry::_) _ _ => if (fn arg entry.2).1 then [entry] else []
  | _ => []

def disturbed (fn : τ → ω → Bool × τ) (arg : τ) (outcome : Outcome) : Point ω → Bool
  | .checked _ => outcome.limit.isSome
  | .running (entry::_) _ _ => !(fn arg entry.2).1
  | .saving _ _ => !outcome.works
  | _ => false

def work (fn : τ → ω → Bool × τ) (outcome : Outcome) (state : State ω τ) (call : Call ω) : Option (State ω τ) :=
  match applyStep fn call.batchSize outcome state.arg state.shared call.point with
  | none => none
  | some (next,arg,shared) =>
    let accepted := state.accepted ++ taking fn state.arg call.point
    let smooth := call.smooth && !disturbed fn state.arg outcome call.point
    match next with
    | .point point => some ⟨shared,arg,some {call with point:=point,smooth:=smooth},accepted,state.last⟩
    | .returned n => some ⟨shared,arg,none,accepted,some ⟨n,call.before,smooth⟩⟩

variable {call : Call ω} {log : Log ω} {after before : LogStorage ω} {id : Nat} {writer : Option (Writer ω)} {next state : State ω τ}
variable {fn : τ → ω → Bool × τ}

lemma work_point (state : State ω τ) (call : Call ω)
    (stepped : applyStep fn call.batchSize outcome state.arg state.shared call.point = some (.point point,arg,shared)) :
    ∃ next smooth, work fn outcome state call = some next ∧ next.arg = arg ∧ next.shared = shared ∧
      next.call = some {call with point:=point,smooth:=smooth} := by
  simp only [work,stepped]
  exact ⟨_,_,rfl,rfl,rfl,rfl⟩

lemma work_returned (state : State ω τ) (call : Call ω)
    (stepped : applyStep fn call.batchSize outcome state.arg state.shared call.point = some (.returned n,arg,shared)) :
    ∃ next ended, work fn outcome state call = some next ∧ next.shared = shared ∧ next.call = none ∧
      next.last = some ended ∧ ended.n = n := by
  simp only [work,stepped]
  exact ⟨_,_,rfl,rfl,rfl,rfl,rfl⟩

-- Calls that wait for the transaction of another one have not begun here; the
-- applying call is one at a time.
def step (fn : τ → ω → Bool × τ) (state : State ω τ) : Action ω → Option (State ω τ)
  | .addOp works op => (beginAddOp works state.shared op).map fun shared => {state with shared:=shared}
  | .advance works => (advance works state.shared).map fun moved => {state with shared:=moved.2}
  | .apply batchSize =>
    if batchSize = 0 || state.call.isSome then none
    else some {state with call:=some ⟨batchSize,.entered,state.shared.log.storage,true⟩,last:=none}
  | .work outcome =>
    match state.call with
    | none => none
    | some call => work fn outcome state call

-- The id of a transaction is above every committed one: ids are taken inside
-- of it, and no other transaction is open.
def Numbering (log : Log ω) : Option (Writer ω) → Prop
  | none => Bounded log.storage log.top
  | some (.opened _ txn) =>
    Bounded log.storage log.top ∧ txn = running (trlogMap.replace (entries log.storage) log.storage)
  | some (.numbered id _ txn) => id < log.top ∧ Bounded log.storage id ∧
      txn = running (trlogMap.replace (entries log.storage) log.storage)
  | some (.placed txn) => ∃ id op, id < log.top ∧ Bounded log.storage id ∧
      txn = running (trlogMap.replace ((entries log.storage).insert id op) log.storage)
  | some (.saving _ _ _) => False

lemma Numbering.bounded (numbering : Numbering log writer) :
    Bounded log.storage log.top := by
  cases writer with
  | none => exact numbering
  | some writer =>
    cases writer with
    | opened op txn => exact numbering.1
    | numbered id op txn => exact fun other value held => (numbering.2.1 other value held).trans numbering.1
    | placed txn =>
      obtain ⟨id,op,below,bounded,_⟩ := numbering
      exact fun other value held => (bounded other value held).trans below
    | saving rest txn changed => exact numbering.elim

def Grows (before after : LogStorage ω) : Prop :=
  ∃ news, (entries after).entries = (entries before).entries ++ news ∧ ∀ entry ∈ news, Bounded before entry.1

lemma Grows.same (same : entries after = entries before) : Grows before after :=
  ⟨[],by rw [same,append_nil],by simp⟩

lemma grows_insert (bounded : Bounded storage id) (op : ω) :
    Grows storage (trlogMap.replace ((entries storage).insert id op) storage) :=
  ⟨[(id,op)],KeyMap.insert_last bounded op,by simpa using bounded⟩

lemma Grows.stored (grows : Grows before after)
    (held : stored before id = some op) : stored after id = some op := by
  obtain ⟨news,shape,_⟩ := grows
  refine KeyMap.mem_entries.mp ?_
  rw [shape]
  exact mem_append_left _ (KeyMap.mem_entries.mpr held)

lemma Grows.tight (grows : Grows before after) (tight : Tight before pos) :
    Tight after pos := by
  intro place early
  obtain ⟨id,op,above,held⟩ := tight place early
  exact ⟨id,op,above,grows.stored held⟩

lemma Grows.cut (grows : Grows before after) (tight : Tight before pos) :
    (entries after).below pos = (entries before).below pos ∧
      ∃ news, (entries after).walkFrom pos = (entries before).walkFrom pos ++ news := by
  obtain ⟨news,shape,above⟩ := grows
  have late : ∀ entry ∈ news, pos ≤ entry.1 := by
    intro entry member
    refine not_lt.mp fun early => ?_
    obtain ⟨id,op,later,held⟩ := tight entry.1 early
    exact absurd (above entry member id op held) (not_lt.mpr later)
  have whole := (entries before).below_walkFrom pos
  obtain ⟨front,back⟩ := KeyMap.cut_eq (show (entries after).entries = _ by rw [shape,whole,append_assoc])
    (fun entry member => (KeyMap.mem_below.mp member).2) (by
      intro entry member
      rcases mem_append.mp member with old | new
      · exact (KeyMap.mem_walkFrom.mp old).2
      · exact late entry new)
  exact ⟨front,news,back⟩

lemma advance_grows {next : Shared ω} (numbering : Numbering log writer)
    (moved : advance works ⟨log,writer⟩ = some (notified,next)) :
    Numbering next.log next.writer ∧ next.log.applied = log.applied ∧ Grows log.storage next.log.storage := by
  have bounded := numbering.bounded
  have still : Grows log.storage log.storage := .same rfl
  cases writer with
  | none => cases moved
  | some writer =>
    cases writer with
    | opened op txn =>
      obtain ⟨below,same⟩ := numbering
      cases moved
      exact ⟨⟨lt_succ_self _,below,same⟩,rfl,still⟩
    | numbered id op txn =>
      obtain ⟨inside,below,same⟩ : id < log.top ∧ Bounded log.storage id ∧
        txn = running (trlogMap.replace (entries log.storage) log.storage) := numbering
      subst same
      have content : trlogMap.content (trlogMap.replace (entries log.storage) log.storage) =
        some (entries log.storage) := rfl
      have missing : (entries log.storage).find id = none := below.free
      cases works with
      | false =>
        simp only [advance,putUnique_running false id op content,false_eq_true,if_false] at moved
        cases moved
        exact ⟨bounded,rfl,still⟩
      | true =>
        simp only [advance,putUnique_running true id op content,missing,isSome_none,false_eq_true,if_false,
          if_true] at moved
        cases moved
        exact ⟨⟨id,op,inside,below,rfl⟩,rfl,still⟩
    | placed txn =>
      obtain ⟨id,op,inside,below,rfl⟩ := numbering
      cases works with
      | false =>
        cases moved
        exact ⟨bounded,rfl,still⟩
      | true =>
        cases moved
        refine ⟨?_,rfl,grows_insert below op⟩
        intro other value held
        rw [stored_replace] at held
        split at held
        · rename_i same
          exact same ▸ inside
        · exact bounded other value held
    | saving rest txn changed => exact numbering.elim

lemma beginAddOp_grows {next : Shared ω} (numbering : Numbering log writer)
    (begun : beginAddOp works ⟨log,writer⟩ op = some next) : Numbering next.log next.writer ∧ next.log = log := by
  cases writer with
  | some _ => cases begun
  | none =>
    simp only [beginAddOp,openTrlog_eq] at begun
    cases works with
    | false =>
      cases begun
      exact ⟨numbering,rfl⟩
    | true =>
      cases begun
      exact ⟨⟨numbering,rfl⟩,rfl⟩

def Point.reach (applied : Nat) : Point ω → Nat
  | .running _ newPos _ | .storing newPos _ => newPos
  | _ => applied

def reach (state : State ω τ) : Nat :=
  (state.call.map fun call => Point.reach state.shared.log.applied call.point).getD state.shared.log.applied

def PointOk (log : Log ω) : Point ω → Prop
  | .entered => True
  | .loaded pos | .checked pos => pos = log.applied
  | .running rest newPos n => (∃ unread, (entries log.storage).walkFrom newPos = rest ++ unread) ∧
      (n = 0 → newPos = log.applied ∧ rest ≠ [])
  | .storing _ n => n ≠ 0
  | .saving newPos n => newPos = log.applied ∧ n ≠ 0

inductive Worked (fn : τ → ω → Bool × τ) (outcome : Outcome) (state : State ω τ) (call : Call ω) : State ω τ → Prop where
  | moves : PointOk state.shared.log point →
      Point.reach state.shared.log.applied point = Point.reach state.shared.log.applied call.point →
      Worked fn outcome state call {state with call:=some {call with point:=point,smooth:=smooth}}
  | takes {id : Nat} : fn state.arg op = (true,arg) →
      (entries state.shared.log.storage).walkFrom (Point.reach state.shared.log.applied call.point) = (id,op)::unread →
      PointOk state.shared.log (.running rest (id + 1) (n + 1)) →
      Worked fn outcome state call {state with
        arg:=arg,call:=some {call with point:=.running rest (id + 1) (n + 1),smooth:=smooth},
        accepted:=state.accepted ++ [(id,op)]}
  | refuses {id : Nat} : fn state.arg op = (false,arg) →
      (entries state.shared.log.storage).walkFrom newPos = (id,op)::unread →
      newPos = Point.reach state.shared.log.applied call.point → n ≠ 0 →
      Worked fn outcome state call {state with arg:=arg,call:=some {call with point:=.storing newPos n,smooth:=false}}
  | gives_up {id : Nat} : fn state.arg op = (false,arg) →
      (entries state.shared.log.storage).walkFrom state.shared.log.applied = (id,op)::unread →
      Point.reach state.shared.log.applied call.point = state.shared.log.applied →
      Worked fn outcome state call {state with arg:=arg,call:=none,last:=some ⟨0,call.before,false⟩}
  | ends : Point.reach state.shared.log.applied call.point = state.shared.log.applied →
      (smooth = true ∨ outcome.limit = none →
        ∀ id op, stored state.shared.log.storage id = some op → id < state.shared.log.applied) →
      Worked fn outcome state call {state with call:=none,last:=some ⟨0,call.before,smooth⟩}
  | stores : call.point = .storing newPos n → n ≠ 0 →
      Worked fn outcome state call {state with
        shared:={state.shared with log:={state.shared.log with applied:=newPos}},
        call:=some {call with point:=.saving newPos n,smooth:=smooth}}
  | saves : call.point = .saving state.shared.log.applied n → n ≠ 0 → state.shared.writer = none →
      Worked fn outcome state call {state with
        shared:={state.shared with log:={state.shared.log with
          storage:=savePos outcome.calls.pos state.shared.log.storage state.shared.log.applied}},
        call:=none,last:=some ⟨n,call.before,smooth⟩}

lemma read_empty (empty : read {} storage pos size = [])
    (held : stored storage id = some op) : id < pos := by
  refine not_le.mp fun above => ?_
  have member : (id,op) ∈ (entries storage).walkFrom pos := KeyMap.mem_walkFrom.mpr ⟨held,above⟩
  rw [read_working] at empty
  cases walked : (entries storage).walkFrom pos with
  | nil =>
    rw [walked] at member
    cases member
  | cons entry rest =>
    rw [walked] at empty
    simp only [readLoop,Bool.not_true,false_eq_true,if_false] at empty
    split at empty <;> cases empty

lemma loop_cases (ok : PointOk state.shared.log (.running rest newPos n))
    (worked : work fn outcome state ⟨batchSize,.running rest newPos n,before,smooth⟩ = some next) :
    Worked fn outcome state ⟨batchSize,.running rest newPos n,before,smooth⟩ next := by
  obtain ⟨⟨unread,walked⟩,first⟩ := ok
  cases rest with
  | nil =>
    have some : n ≠ 0 := fun zero => (first zero).2 rfl
    simp only [work,applyStep,stop,if_neg some,taking,append_nil] at worked
    cases worked
    exact .moves some rfl
  | cons entry rest =>
    obtain ⟨id,op⟩ := entry
    replace walked : (entries state.shared.log.storage).walkFrom newPos = (id,op)::(rest ++ unread) := walked
    cases answer : fn state.arg op with
    | mk yes arg =>
      cases yes with
      | true =>
        simp only [work,applyStep,taking,answer,if_true] at worked
        cases worked
        exact .takes answer walked ⟨⟨unread,(KeyMap.cut_next walked).2⟩,by rintro ⟨⟩⟩
      | false =>
        simp only [work,applyStep,taking,disturbed,answer,false_eq_true,if_false,append_nil,Bool.not_false,
          Bool.not_true,Bool.and_false] at worked
        by_cases zero : n = 0
        · obtain ⟨unmoved,_⟩ := first zero
          subst unmoved
          simp only [stop,if_pos zero] at worked
          cases worked
          exact .gives_up answer walked rfl
        · simp only [stop,if_neg zero] at worked
          cases worked
          exact .refuses answer walked rfl zero

lemma work_cases
    (ok : PointOk state.shared.log call.point) (bounded : Bounded state.shared.log.storage state.shared.log.top)
    (worked : work fn outcome state call = some next) : Worked fn outcome state call next := by
  obtain ⟨batchSize,point,before,smooth⟩ := call
  cases point with
  | entered =>
    simp only [work,applyStep,taking,append_nil] at worked
    cases worked
    exact .moves (show PointOk _ (.loaded _) from rfl) rfl
  | loaded pos =>
    obtain rfl : pos = state.shared.log.applied := ok
    simp only [work,applyStep,taking,append_nil] at worked
    by_cases done : state.shared.log.applied ≥ state.shared.log.top
    · rw [if_pos done] at worked
      cases worked
      exact .ends rfl fun _ id op held => (bounded id op held).trans_le done
    · rw [if_neg done] at worked
      cases worked
      exact .moves (show PointOk _ (.checked _) from rfl) rfl
  | checked pos =>
    obtain rfl : pos = state.shared.log.applied := ok
    cases free : state.shared.writer with
    | some writer => simp [work,applyStep,free] at worked
    | none =>
      obtain ⟨unread,walked⟩ := read_front outcome.calls.read state.shared.log.storage state.shared.log.applied batchSize
      simp only [work,applyStep,taking,append_nil,free,isSome_none,false_eq_true,if_false] at worked
      by_cases empty : (read outcome.calls.read state.shared.log.storage state.shared.log.applied batchSize).length = 0
      · rw [if_pos empty] at worked
        cases worked
        refine .ends rfl fun calm id op held => ?_
        have limit : outcome.limit = none := calm.elim (fun smooth => by simpa [disturbed] using (and_eq_true_iff.mp smooth).2) (·)
        have working : outcome.calls.read = {} := by simp [Outcome.calls,limit]
        rw [working,length_eq_zero_iff] at empty
        exact read_empty empty held
      · rw [if_neg empty] at worked
        cases worked
        refine .moves ?_ rfl
        exact ⟨⟨unread,walked⟩,fun _ => ⟨rfl,fun none => empty (by rw [none]; rfl)⟩⟩
  | running rest newPos n => exact loop_cases ok worked
  | storing newPos n =>
    simp only [work,applyStep,taking,append_nil] at worked
    cases worked
    exact .stores rfl ok
  | saving newPos n =>
    obtain ⟨rfl,some⟩ := ok
    cases free : state.shared.writer with
    | some writer => simp [work,applyStep,free] at worked
    | none =>
      have closed : state.shared.writer.isSome = false := by rw [free]; rfl
      simp only [work,applyStep,taking,append_nil,closed,false_eq_true,if_false] at worked
      cases worked
      exact .saves rfl some free

structure CallOk (log : Log ω) (call : Call ω) : Prop where
  point : PointOk log call.point
  kept : ∀ id op, stored call.before id = some op → stored log.storage id = some op

def Complete (accepted : List (Nat × ω)) (result : Result ω) : Prop :=
  result.n = 0 → result.smooth = true → ∀ id op, stored result.before id = some op → (id,op) ∈ accepted

structure Orderly (state : State ω τ) : Prop where
  numbering : Numbering state.shared.log state.shared.writer
  tight : Tight state.shared.log.storage (reach state)
  history : state.accepted = (entries state.shared.log.storage).below (reach state)
  call : ∀ call, state.call = some call → CallOk state.shared.log call
  last : ∀ result, state.last = some result → Complete state.accepted result

lemma PointOk.grows {after : Log ω} {point : Point ω} (ok : PointOk log point)
    (tight : Tight log.storage (Point.reach log.applied point)) (applied : after.applied = log.applied)
    (grows : Grows log.storage after.storage) : PointOk after point := by
  cases point with
  | running rest newPos n =>
    obtain ⟨⟨unread,walked⟩,first⟩ := ok
    obtain ⟨news,longer⟩ := (grows.cut (show Tight log.storage newPos from tight)).2
    refine ⟨⟨unread ++ news,?_⟩,fun zero => ⟨(first zero).1.trans applied.symm,(first zero).2⟩⟩
    rw [longer,walked,append_assoc]
  | entered => trivial
  | loaded pos => exact Eq.trans ok applied.symm
  | checked pos => exact Eq.trans ok applied.symm
  | storing newPos n => exact ok
  | saving newPos n => exact ⟨ok.1.trans applied.symm,ok.2⟩

lemma Orderly.grows (orderly : Orderly state) {shared : Shared ω}
    (numbering : Numbering shared.log shared.writer) (applied : shared.log.applied = state.shared.log.applied)
    (grows : Grows state.shared.log.storage shared.log.storage) : Orderly {state with shared:=shared} := by
  have same : reach {state with shared:=shared} = reach state := by
    unfold reach
    rw [applied]
  refine ⟨numbering,?_,?_,?_,orderly.last⟩
  · rw [same]
    exact grows.tight orderly.tight
  · rw [same,orderly.history]
    exact (grows.cut orderly.tight).1.symm
  · intro call called
    obtain ⟨point,kept⟩ := orderly.call call called
    have tight := orderly.tight
    unfold reach at tight
    rw [show state.call = some call from called] at tight
    exact ⟨point.grows tight applied grows,fun id op held => grows.stored (kept id op held)⟩

lemma Orderly.move (orderly : Orderly state) (called : state.call = some call) (arg : τ)
    (ok : PointOk state.shared.log point)
    (same : Point.reach state.shared.log.applied point = reach state) (smooth : Bool) :
    Orderly {state with arg:=arg,call:=some {call with point:=point,smooth:=smooth}} where
  numbering := orderly.numbering
  tight := by
    change Tight _ (Point.reach state.shared.log.applied point)
    rw [same]
    exact orderly.tight
  history := by
    change _ = KeyMap.below _ (Point.reach state.shared.log.applied point)
    rw [same]
    exact orderly.history
  call := by
    rintro other ⟨⟩
    exact ⟨ok,(orderly.call call called).kept⟩
  last := orderly.last

lemma Orderly.leave (orderly : Orderly state) (arg : τ)
    (same : reach state = state.shared.log.applied) (complete : Complete state.accepted result) :
    Orderly {state with arg:=arg,call:=none,last:=some result} where
  numbering := orderly.numbering
  tight := by
    have tight := orderly.tight
    rwa [same] at tight
  history := by
    have history := orderly.history
    rwa [same] at history
  call := nofun
  last := by
    rintro other ⟨⟩
    exact complete

lemma Orderly.accepts (orderly : Orderly state)
    (all : ∀ id op, stored state.shared.log.storage id = some op → id < reach state)
    (called : state.call = some call) (n : Nat) (smooth : Bool) : Complete state.accepted ⟨n,call.before,smooth⟩ := by
  intro _ _ id op held
  have now := (orderly.call call called).kept id op held
  rw [orderly.history]
  exact KeyMap.mem_below.mpr ⟨now,all id op now⟩

lemma work_orderly (orderly : Orderly state)
    (called : state.call = some call) (worked : work fn outcome state call = some next) : Orderly next := by
  have ok := (orderly.call _ called).point
  have position : reach state = Point.reach state.shared.log.applied call.point := by simp [reach,called]
  cases work_cases ok orderly.numbering.bounded worked with
  | moves point same => exact orderly.move called state.arg point (same.trans position.symm) _
  | takes answer walked point =>
    have held := (KeyMap.mem_walkFrom.mp (walked ▸ mem_cons_self)).1
    refine ⟨orderly.numbering,fun pos early => ⟨_,_,Nat.le_of_lt_succ early,held⟩,?_,?_,?_⟩
    · change state.accepted ++ _ = KeyMap.below _ (_ + 1)
      rw [(KeyMap.cut_next walked).1,orderly.history,position]
    · rintro other ⟨⟩
      exact ⟨point,(orderly.call _ called).kept⟩
    · intro result finished zero calm other value old
      exact mem_append_left _ (orderly.last result finished zero calm other value old)
  | refuses answer walked at_pos some =>
    exact orderly.move called _ (show PointOk _ (.storing _ _) from some) (at_pos.trans position.symm) false
  | gives_up answer walked same => exact orderly.leave _ (position.trans same) nofun
  | ends same all =>
    refine orderly.leave _ (position.trans same) fun _ calm id op held => ?_
    exact orderly.accepts (fun id op held => by rw [position,same]; exact all (.inl calm) id op held) called 0 true
      rfl rfl id op held
  | stores point some =>
    have tight := orderly.tight
    have history := orderly.history
    rw [position,point] at tight history
    refine ⟨orderly.numbering,tight,history,?_,orderly.last⟩
    rintro other ⟨⟩
    exact ⟨⟨rfl,some⟩,(orderly.call _ called).kept⟩
  | saves point some free =>
    rename_i n smooth
    have left := orderly.leave state.arg (by rw [position,point]; rfl)
      (show Complete state.accepted ⟨n,call.before,smooth⟩ from fun zero => absurd zero some)
    refine left.grows ?_ rfl (.same (entries_savePos _ _ _))
    rw [show Shared.writer _ = none from free]
    intro id op held
    rw [stored_savePos] at held
    exact orderly.numbering.bounded id op held

lemma step_orderly (orderly : Orderly state) (action : Action ω)
    (moved : step fn state action = some next) : Orderly next := by
  cases action with
  | addOp works op =>
    obtain ⟨shared,begun,rfl⟩ := map_eq_some_iff.mp moved
    obtain ⟨numbering,same⟩ := beginAddOp_grows orderly.numbering begun
    exact orderly.grows numbering (by rw [same]) (.same (by rw [same]))
  | advance works =>
    obtain ⟨⟨notified,shared⟩,went,rfl⟩ := map_eq_some_iff.mp moved
    obtain ⟨numbering,applied,grows⟩ := advance_grows orderly.numbering went
    exact orderly.grows numbering applied grows
  | apply batchSize =>
    simp only [step] at moved
    split at moved
    · cases moved
    · rename_i idle
      cases moved
      have none : state.call = none := by
        cases called : state.call with
        | none => rfl
        | some call => simp [called] at idle
      have tight := orderly.tight
      have history := orderly.history
      simp only [reach,none,map_none,getD_none] at tight history
      refine ⟨orderly.numbering,tight,history,?_,nofun⟩
      rintro call ⟨⟩
      exact ⟨trivial,fun id op held => held⟩
  | work outcome =>
    simp only [step] at moved
    split at moved
    · cases moved
    · rename_i call called
      exact work_orderly orderly called moved

def empty : Log ω := init {} fresh

lemma initial_orderly (arg : τ) : Orderly (initial (empty : Log ω) arg) where
  numbering := fun id op held => by cases held
  tight := fun pos early => absurd early (Nat.not_lt_zero _)
  history := rfl
  call := nofun
  last := nofun

-- A log written by mdv_trlog_add_op alone is applied in order and once: what
-- has been accepted is what is committed below the position, and a call that
-- returns 0 undisturbed has nothing from before itself left to do.
theorem applied_in_order (fn : τ → ω → Bool × τ) (arg : τ) (state : State ω τ)
    (reached : Machine.Reached (step fn) (initial empty arg) state) :
    state.accepted = (entries state.shared.log.storage).below (reach state) ∧
      (state.call = none → reach state = state.shared.log.applied) ∧
      state.accepted.Pairwise (fun one two => one.1 < two.1) ∧
      ∀ result, state.last = some result → result.n = 0 → result.smooth = true →
        ∀ id op, stored result.before id = some op → (id,op) ∈ state.accepted := by
  have orderly : Orderly state :=
    Machine.reached_invariant (initial_orderly arg) (fun _ action _ orderly moved => step_orderly orderly action moved) reached
  refine ⟨orderly.history,?_,?_,orderly.last⟩
  · intro idle
    simp [reach,idle]
  · rw [orderly.history]
    exact KeyMap.below_sorted _ _

def appending (op : Nat) : List (Action Nat) := [.addOp true op,.advance true,.advance true,.advance true]
def failing (op : Nat) : List (Action Nat) := [.addOp true op,.advance true,.advance false]
def applying (batchSize steps : Nat) : List (Action Nat) := .apply batchSize::replicate steps (.work {})
def working (steps : Nat) : List (Action Nat) := replicate steps (.work {})

-- Three appends, the second of which fails after it has taken its id and the
-- third of which overlaps the first call of mdv_trlog_apply.
def overlapping : List (Action Nat) :=
  appending 10 ++ failing 11 ++ applying 1 2 ++ appending 12 ++ working 5 ++ applying 2 7 ++ applying 1 2

structure Seen where
  idle : Bool
  accepted : List (Nat × Nat)
  applied : Nat
  last : Option (Nat × Bool × Option Nat)
  deriving DecidableEq

def observed (state : State Nat Unit) : Seen where
  idle := state.call.isNone
  accepted := state.accepted
  applied := state.shared.log.applied
  last := state.last.map fun result => (result.n,result.smooth,stored result.before 2)

theorem applied_in_order_overlapping : ∃ state : State Nat Unit,
    Machine.Reached (step fun arg _ => (true,arg)) (initial empty ()) state ∧
      state.accepted = [(0,10),(2,12)] ∧ state.shared.log.applied = 3 ∧
      state.accepted = (entries state.shared.log.storage).below state.shared.log.applied ∧
      ∃ result, state.last = some result ∧ result.n = 0 ∧ stored result.before 2 = some 12 ∧ (2,12) ∈ state.accepted := by
  have runs : (overlapping.foldlM (step fun arg _ => (true,arg)) (initial empty ())).map observed =
      some ⟨true,[(0,10),(2,12)],3,some (0,true,some 12)⟩ := by decide +kernel
  obtain ⟨state,ran,seen⟩ := map_eq_some_iff.mp runs
  simp only [observed,Seen.mk.injEq,Prod.mk.injEq,map_eq_some_iff,isNone_iff_eq_none] at seen
  obtain ⟨idle,accepted,applied,result,last,zero,smooth,held⟩ := seen
  obtain ⟨history,at_rest,_,complete⟩ := applied_in_order (fun arg _ => (true,arg)) () state ⟨overlapping,ran⟩
  exact ⟨state,⟨overlapping,ran⟩,accepted,applied,at_rest idle ▸ history,result,last,zero,held,
    complete result last zero smooth 2 12 held⟩

end MedvedDB.ApplyOrder
