import MedvedDB.Trlog

namespace MedvedDB.TrlogRuns
open MedvedDB.Trlog

variable {ω τ : Type}

-- A log in use, with the state of its apply function and, for reasoning only,
-- every entry that function has accepted so far.
structure State (ω τ : Type) where
  log : Log ω
  arg : τ
  accepted : List (Nat × ω)

inductive Call (ω : Type) where
  | add (calls : AddCalls) (ops : List (Nat × ω))
  | addOp (calls : AddOpCalls) (op : ω)
  | apply (calls : ApplyCalls) (batchSize : Nat)

def step (fn : τ → ω → Bool × τ) (state : State ω τ) : Call ω → State ω τ
  | .add calls ops => {state with log:=(add calls state.log ops).log}
  | .addOp calls op => {state with log:=(addOp calls state.log op).log}
  | .apply calls batchSize =>
    let (_,arg,log) := apply calls fn batchSize state.arg state.log
    ⟨log,arg,state.accepted ++ taken calls fn batchSize state.arg state.log⟩

def start (arg : τ) : State ω τ := ⟨init {} fresh,arg,[]⟩

def run (fn : τ → ω → Bool × τ) (arg : τ) (calls : List (Call ω)) : State ω τ := calls.foldl (step fn) (start arg)

def NoneSkipped (state : State ω τ) : Prop :=
  ∀ id op, stored state.log.storage id = some op → id < state.log.applied → (id,op) ∈ state.accepted

-- The call commits an entry that is new to the log and lies below the applied
-- position, where mdv_trlog_apply never reads again.
def StoresBehind (fn : τ → ω → Bool × τ) (state : State ω τ) (call : Call ω) : Prop :=
  ∃ id op, stored (step fn state call).log.storage id = some op ∧ stored state.log.storage id = none ∧
    id < state.log.applied

structure Sound (state : State ω τ) : Prop where
  bounded : Bounded state.log.storage state.log.top
  reached : state.log.applied ≤ state.log.top
  source : ∀ id op, (id,op) ∈ state.accepted → stored state.log.storage id = some op

lemma start_sound (arg : τ) : Sound (start arg : State ω τ) where
  bounded := by intro id op held; cases held
  reached := le_refl _
  source := by intro id op member; cases member

lemma stored_apply (calls : ApplyCalls) (fn : τ → ω → Bool × τ) (batchSize : Nat) (arg : τ) (log : Log ω) :
    stored (apply calls fn batchSize arg log).2.2.storage = stored log.storage := by
  unfold stored entries
  rw [(apply_taken calls fn batchSize arg log).2.1]

lemma step_sound (fn : τ → ω → Bool × τ) (sound : Sound state) (call : Call ω) : Sound (step fn state call) := by
  cases call with
  | add calls ops =>
    obtain ⟨extended,higher,same,bounded⟩ := add_extends calls state.log ops
    refine ⟨bounded sound.bounded,?_,fun id op member => extended.kept (sound.source id op member)⟩
    simp only [step]
    rw [same]
    exact sound.reached.trans higher
  | addOp calls op =>
    obtain ⟨extended,higher,same,bounded⟩ := addOp_extends calls state.log op sound.bounded
    refine ⟨bounded,?_,fun id op member => extended.kept (sound.source id op member)⟩
    simp only [step]
    rw [same]
    exact sound.reached.trans higher
  | apply calls batchSize =>
    obtain ⟨applied,_,top⟩ := apply_taken calls fn batchSize state.arg state.log
    have held := stored_apply calls fn batchSize state.arg state.log
    refine ⟨?_,?_,?_⟩
    · intro id op
      simp only [step]
      rw [held,top]
      exact sound.bounded id op
    · simp only [step]
      rw [applied,top]
      apply position_le
      · exact sound.reached
      · intro entry member
        exact sound.bounded _ _ (taken_stored member).1
    · intro id op member
      simp only [step] at member ⊢
      rw [held]
      rcases mem_append.mp member with old | new
      · exact sound.source id op old
      · exact (taken_stored new).1

lemma run_sound (fn : τ → ω → Bool × τ) (arg : τ) (calls : List (Call ω)) : Sound (run fn arg calls) := by
  induction calls using reverseRecOn with
  | nil => exact start_sound arg
  | append_singleton calls call ih =>
    rw [run,foldl_append]
    exact step_sound fn ih call

lemma apply_never_behind (fn : τ → ω → Bool × τ) (state : State ω τ) (calls : ApplyCalls) (batchSize : Nat) :
    ¬ StoresBehind fn state (.apply calls batchSize) := by
  rintro ⟨id,op,held,missing,_⟩
  simp only [step] at held
  rw [stored_apply,missing] at held
  cases held

lemma store_skips_iff (sound : Sound state) (covered : NoneSkipped state)
    (extended : Extends state.log.storage log.storage ops) (same : log.applied = state.log.applied) :
    NoneSkipped ({state with log:=log} : State ω τ) ↔ ¬ ∃ id op, stored log.storage id = some op ∧
      stored state.log.storage id = none ∧ id < state.log.applied := by
  constructor
  · rintro skips ⟨id,op,held,missing,behind⟩
    have accepted := skips id op held (same ▸ behind)
    rw [sound.source id op accepted] at missing
    cases missing
  · intro ahead id op held below
    rw [same] at below
    cases old : stored state.log.storage id with
    | none => exact absurd ⟨id,op,held,old,below⟩ ahead
    | some value =>
      have kept := extended.kept old
      rw [held] at kept
      cases kept
      exact covered id op old below

lemma step_skips_iff (fn : τ → ω → Bool × τ) (sound : Sound state) (covered : NoneSkipped state) (call : Call ω) :
    NoneSkipped (step fn state call) ↔ ¬ StoresBehind fn state call := by
  cases call with
  | add calls ops =>
    obtain ⟨extended,_,same,_⟩ := add_extends calls state.log ops
    exact store_skips_iff sound covered extended same
  | addOp calls op =>
    obtain ⟨extended,_,same,_⟩ := addOp_extends calls state.log op sound.bounded
    exact store_skips_iff sound covered extended same
  | apply calls batchSize =>
    refine iff_of_true ?_ (apply_never_behind fn state calls batchSize)
    intro id op held below
    simp only [step] at held below ⊢
    rw [stored_apply] at held
    rw [(apply_taken calls fn batchSize state.arg state.log).1] at below
    apply mem_append.mpr
    rcases lt_or_ge id state.log.applied with before | reached
    · exact .inl (covered id op held before)
    · exact .inr ((taken_bounds calls fn batchSize state.arg state.log).2.2 id op held below reached)

lemma run_append (fn : τ → ω → Bool × τ) (arg : τ) (calls : List (Call ω)) (call : Call ω) :
    run fn arg (calls ++ [call]) = step fn (run fn arg calls) call := by simp [run]

-- Entry 1 arrives and is applied, then entry 0 arrives.
def reordered : List (Call Nat) := [.add {} [(1,11)],.apply {} 1,.add {} [(0,10)],.apply {} 1]

end MedvedDB.TrlogRuns
