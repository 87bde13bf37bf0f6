import MedvedDB.Trlog

open MedvedDB.Lmdb MedvedDB.Trlog
namespace MedvedDB.TrlogSteps

variable {ω τ : Type}

-- The write transaction that is open on a log, by where its call is. While it
-- is open no other transaction runs, but the positions can be read.
inductive Writer (ω : Type) where
  | opened (op : ω) (txn : Txn (LogStorage ω))
  | numbered (id : Nat) (op : ω) (txn : Txn (LogStorage ω))
  | placed (txn : Txn (LogStorage ω))
  | saving (rest : List (Nat × ω)) (txn : Txn (LogStorage ω)) (changed : Bool)

structure Shared (ω : Type) where
  log : Log ω
  writer : Option (Writer ω)

def openTrlog (works : Bool) (storage : LogStorage ω) : Option (Txn (LogStorage ω)) :=
  (transactionStart works storage).bind (mapOpen works true trlogMap)

def beginAddOp (works : Bool) (shared : Shared ω) (op : ω) : Option (Shared ω) :=
  if shared.writer.isSome then none
  else some {shared with writer:=(openTrlog works shared.log.storage).map fun txn => .opened op txn}

def beginAdd (works : Bool) (shared : Shared ω) (rows : List (Nat × ω)) : Option (Shared ω) :=
  if shared.writer.isSome then none
  else some {shared with writer:=(openTrlog works shared.log.storage).map fun txn => .saving rows txn false}

-- The next step of the call that holds the transaction, and whether it ends
-- with a notification.
def advance (works : Bool) (shared : Shared ω) : Option (Bool × Shared ω) :=
  match shared.writer with
  | none => none
  | some (.opened op txn) =>
    let (id,log) := newId shared.log
    some (false,⟨log,some (.numbered id op txn)⟩)
  | some (.numbered id op txn) =>
    match mapPutUnique works trlogMap txn id op with
    | (true,txn) => some (false,{shared with writer:=some (.placed txn)})
    | (false,_) => some (false,{shared with writer:=none})
  | some (.placed txn) =>
    let (done,storage) := transactionCommit works txn shared.log.storage
    some (done,⟨{shared.log with storage:=storage},none⟩)
  | some (.saving ((id,op)::rest) txn changed) =>
    match mapPutUnique works trlogMap txn id op with
    | (true,txn) => some (false,⟨{shared.log with top:=idMaximize shared.log.top id},some (.saving rest txn true)⟩)
    | (false,txn) => some (false,{shared with writer:=some (.saving rest txn changed)})
  | some (.saving [] txn changed) =>
    let (done,storage) := transactionCommit works txn shared.log.storage
    some (done && changed,⟨{shared.log with storage:=storage},none⟩)

inductive Point (ω : Type) where
  | entered
  | loaded (pos : Nat)
  | checked (pos : Nat)
  | running (rest : List (Nat × ω)) (newPos n : Nat)
  | storing (newPos n : Nat)
  | saving (newPos n : Nat)
  deriving DecidableEq, Repr

inductive Next (ω : Type) where
  | point (point : Point ω)
  | returned (n : Nat)

structure Outcome where
  works : Bool := true
  limit : Option Nat := none
  deriving DecidableEq, Repr

def Outcome.calls (outcome : Outcome) : ApplyCalls :=
  {read:={items:=fun n => outcome.limit.all fun limit => n < limit},pos:={put:=outcome.works}}

def savePos (calls : PosCalls) (storage : LogStorage ω) (pos : Nat) : LogStorage ω :=
  (appliedPosSet calls ⟨storage,0,0⟩ pos).storage

def stop (newPos n : Nat) : Next ω := if n = 0 then .returned 0 else .point (.storing newPos n)

-- One step of mdv_trlog_apply. Reading the entries and saving the position are
-- transactions and wait for an open one; the rest runs beside it.
def applyStep (fn : τ → ω → Bool × τ) (batchSize : Nat) (outcome : Outcome) (arg : τ) (shared : Shared ω) :
    Point ω → Option (Next ω × τ × Shared ω)
  | .entered => some (.point (.loaded shared.log.applied),arg,shared)
  | .loaded pos => some (if pos ≥ shared.log.top then .returned 0 else .point (.checked pos),arg,shared)
  | .checked pos =>
    if shared.writer.isSome then none
    else
      let ops := read outcome.calls.read shared.log.storage pos batchSize
      some (if ops.length = 0 then .returned 0 else .point (.running ops pos 0),arg,shared)
  | .running [] newPos n => some (stop newPos n,arg,shared)
  | .running ((id,op)::rest) newPos n =>
    match fn arg op with
    | (false,arg) => some (stop newPos n,arg,shared)
    | (true,arg) => some (.point (.running rest (id + 1) (n + 1)),arg,shared)
  | .storing newPos n => some (.point (.saving newPos n),arg,{shared with log:={shared.log with applied:=newPos}})
  | .saving newPos n =>
    if shared.writer.isSome then none
    else
      let storage := savePos outcome.calls.pos shared.log.storage newPos
      some (.returned n,arg,{shared with log:={shared.log with storage:=storage}})

lemma applyStep_arg {fn : τ → ω → Bool × τ} (holds : τ → Prop) (kept : ∀ arg op, holds arg → holds (fn arg op).2)
    (stepped : applyStep fn batchSize outcome arg shared point = some (next,after,final))
    (held : holds arg) : holds after := by
  cases point with
  | entered =>
    cases stepped
    exact held
  | loaded pos =>
    cases stepped
    exact held
  | checked pos =>
    simp only [applyStep] at stepped
    split at stepped
    · cases stepped
    · cases stepped
      exact held
  | running rest newPos n =>
    cases rest with
    | nil =>
      cases stepped
      exact held
    | cons entry rest =>
      obtain ⟨id,op⟩ := entry
      have later := kept arg op held
      simp only [applyStep] at stepped
      split at stepped
      · rename_i answer
        cases stepped
        rwa [answer] at later
      · rename_i answer
        cases stepped
        rwa [answer] at later
  | storing newPos n =>
    cases stepped
    exact held
  | saving newPos n =>
    simp only [applyStep] at stepped
    split at stepped
    · cases stepped
    · cases stepped
      exact held

-- A call that nothing comes between is the sequential function.
inductive Returns (fn : τ → ω → Bool × τ) (batchSize : Nat) (outcome : Outcome) :
    τ → Shared ω → Point ω → Nat × τ × Shared ω → Prop where
  | last : applyStep fn batchSize outcome arg shared point = some (.returned n,after,final) →
      Returns fn batchSize outcome arg shared point (n,after,final)
  | more : applyStep fn batchSize outcome arg shared point = some (.point next,middle,other) →
      Returns fn batchSize outcome middle other next result → Returns fn batchSize outcome arg shared point result

lemma appliedPosSet_eq (calls : PosCalls) (log : Log ω) (pos : Nat) :
    appliedPosSet calls log pos = ⟨savePos calls log.storage pos,log.top,pos⟩ := by
  unfold savePos appliedPosSet
  cases calls.start with
  | false => rfl
  | true =>
    simp only [start_eq,if_true]
    split
    · rfl
    · split <;> rfl

lemma entries_savePos (calls : PosCalls) (storage : LogStorage ω) (pos : Nat) :
    entries (savePos calls storage pos) = entries storage := by
  obtain ⟨persisted,shape,_⟩ := appliedPosSet_cases calls ⟨storage,0,0⟩ pos
  unfold savePos
  rw [shape]
  rfl

lemma stored_savePos (calls : PosCalls) (storage : LogStorage ω) (pos id : Nat) :
    stored (savePos calls storage pos) id = stored storage id := by
  unfold stored
  rw [entries_savePos]

lemma returns_stop (fn : τ → ω → Bool × τ) (batchSize : Nat) (outcome : Outcome) (arg : τ)
    (free : shared.writer = none) (newPos n : Nat)
    (stops : applyStep fn batchSize outcome before shared point = some (stop newPos n,arg,shared)) :
    Returns fn batchSize outcome before shared point
      (if n = 0 then (0,arg,shared) else (n,arg,{shared with log:=appliedPosSet outcome.calls.pos shared.log newPos})) := by
  unfold stop at stops
  split at stops
  · rename_i zero
    rw [if_pos zero]
    exact .last stops
  · rename_i some
    rw [if_neg some]
    refine .more stops (.more rfl (.last ?_))
    simp only [applyStep,free,appliedPosSet_eq]
    rfl

lemma returns_running (fn : τ → ω → Bool × τ) (batchSize : Nat) (outcome : Outcome) (arg : τ)
    (free : shared.writer = none) (rest : List (Nat × ω)) (newPos n : Nat) :
    let result := applyLoop fn arg newPos n rest
    Returns fn batchSize outcome arg shared (.running rest newPos n) (if result.2.2 = 0 then (0,result.1,shared)
      else (result.2.2,result.1,{shared with log:=appliedPosSet outcome.calls.pos shared.log result.2.1})) := by
  induction rest generalizing arg newPos n with
  | nil => exact returns_stop fn batchSize outcome arg free newPos n rfl
  | cons entry rest ih =>
    obtain ⟨id,op⟩ := entry
    cases answer : fn arg op with
    | mk accepted after =>
      cases accepted with
      | false =>
        have stops := returns_stop fn batchSize outcome after free newPos n
          (show applyStep fn batchSize outcome arg shared (.running ((id,op)::rest) newPos n) = _ by
            simp only [applyStep,answer])
        simpa only [applyLoop,answer] using stops
      | true =>
        have goes := Returns.more (show applyStep fn batchSize outcome arg shared (.running ((id,op)::rest) newPos n) =
          some (.point (.running rest (id + 1) (n + 1)),after,shared) by simp only [applyStep,answer])
          (ih after (id + 1) (n + 1))
        simpa only [applyLoop,answer] using goes

lemma apply_returns (fn : τ → ω → Bool × τ) (batchSize : Nat) (outcome : Outcome) (arg : τ) (log : Log ω) :
    let result := apply outcome.calls fn batchSize arg log
    Returns fn batchSize outcome arg ⟨log,none⟩ .entered (result.1,result.2.1,⟨result.2.2,none⟩) := by
  refine .more rfl ?_
  unfold apply
  split
  · rename_i done
    exact .last (by simp only [applyStep,if_pos done])
  · rename_i behind
    refine .more (by simp only [applyStep,if_neg behind]; rfl) ?_
    dsimp only
    split
    · rename_i empty
      exact .last (by simp only [applyStep,empty]; rfl)
    · rename_i some
      refine .more (by simp only [applyStep,if_neg some]; rfl) ?_
      have goes := returns_running fn batchSize outcome arg (show (⟨log,none⟩ : Shared ω).writer = none from rfl)
        (read outcome.calls.read log.storage log.applied batchSize) log.applied 0
      dsimp only at goes ⊢
      split
      · rename_i zero
        rwa [if_pos zero] at goes
      · rename_i more
        rwa [if_neg more] at goes

lemma returns_exists (fn : τ → ω → Bool × τ) (batchSize : Nat) (outcome : Outcome) (arg : τ)
    (free : shared.writer = none) (point : Point ω) : ∃ result, Returns fn batchSize outcome arg shared point result := by
  have reading : ∀ pos, ∃ result, Returns fn batchSize outcome arg shared (.checked pos) result := by
    intro pos
    by_cases empty : (read outcome.calls.read shared.log.storage pos batchSize).length = 0
    · exact ⟨_,.last (by simp only [applyStep,free,empty]; rfl)⟩
    · exact ⟨_,.more (by simp only [applyStep,free,if_neg empty]; rfl)
        (returns_running fn batchSize outcome arg free _ pos 0)⟩
  have checking : ∀ pos, ∃ result, Returns fn batchSize outcome arg shared (.loaded pos) result := by
    intro pos
    by_cases done : pos ≥ shared.log.top
    · exact ⟨_,.last (by simp only [applyStep,if_pos done]; rfl)⟩
    · obtain ⟨result,returns⟩ := reading pos
      exact ⟨result,.more (by simp only [applyStep,if_neg done]) returns⟩
  cases point with
  | entered =>
    obtain ⟨result,returns⟩ := checking shared.log.applied
    exact ⟨result,.more rfl returns⟩
  | loaded pos => exact checking pos
  | checked pos => exact reading pos
  | running rest newPos n => exact ⟨_,returns_running fn batchSize outcome arg free rest newPos n⟩
  | storing newPos n => exact ⟨_,.more rfl (.last (by simp only [applyStep,free]; rfl))⟩
  | saving newPos n => exact ⟨_,.last (by simp only [applyStep,free]; rfl)⟩

lemma openTrlog_eq (works : Bool) (storage : LogStorage ω) : openTrlog works storage =
    if works then some (running (trlogMap.replace (entries storage) storage)) else none := by
  cases works with
  | false => rfl
  | true =>
    simp only [openTrlog,start_eq,if_true,bind_some,open_create]
    rfl

end MedvedDB.TrlogSteps
