import MedvedDB.Config
import MedvedDB.ScheduleCall

open MedvedDB.Trlog
namespace MedvedDB.BatchLoops

variable {ω τ : Type}

-- mdv_trlog_apply, where the position behind an entry is the 64-bit integer of the source.
def applyBatch (calls : ApplyCalls) (fn : τ → ω → Bool × τ) (batchSize : Nat) (arg : τ) (log : Log ω) : Nat × τ × Log ω :=
  if log.applied ≥ log.top then (0,arg,log)
  else
    let ops := read calls.read log.storage log.applied batchSize
    if ops.length = 0 then (0,arg,log)
    else
      let (arg,newPos,n) := applyLoop fn arg log.applied 0 ops
      if n = 0 then (0,arg,log) else (n,arg,appliedPosSet calls.pos log (newPos % 2 ^ 64))

-- The loop of mdv_tablespace_log_apply; `calls` gives the calls of each round.
def applyRounds (fn : τ → ω → Bool × τ) (batchSize : Nat) : Nat → (Nat → ApplyCalls) → τ → Log ω → Option (τ × Log ω)
  | 0,_,_,_ => none
  | fuel + 1,calls,arg,log =>
    let (n,arg,log) := applyBatch (calls 0) fn batchSize arg log
    if n ≥ batchSize then applyRounds fn batchSize fuel (fun round => calls (round + 1)) arg log else some (arg,log)

def logApply (fn : τ → ω → Bool × τ) (batchSize fuel : Nat) (calls : Nat → ApplyCalls) (arg : τ) : Option (Log ω) → Option (Bool × τ × Option (Log ω))
  | none => some (true,arg,none)
  | some log => (applyRounds fn batchSize fuel calls arg log).map fun (arg,log) => (true,arg,some log)

lemma applyBatch_eq (calls : ApplyCalls) (fn : τ → ω → Bool × τ) (batchSize : Nat) (arg : τ) (log : Log ω) :
    applyBatch calls fn batchSize arg log =
      ((taken calls fn batchSize arg log).length,
        (if log.applied ≥ log.top then arg else absorbs fn arg (read calls.read log.storage log.applied batchSize)),
        if taken calls fn batchSize arg log = [] then log
        else appliedPosSet calls.pos log (position log.applied (taken calls fn batchSize arg log) % 2 ^ 64)) := by
  unfold applyBatch taken
  split
  · rfl
  · simp only [applyLoop_accepts,Nat.zero_add,length_eq_zero_iff]
    split
    · rename_i empty
      simp [empty,accepts,absorbs]
    · split
      · rename_i none
        simp [none]
      · rfl

lemma readLoop_length (items : Nat → Bool) (size n : Nat) (list : List (Nat × ω)) : (readLoop items size n list).length ≤ max 1 (size - n) := by
  induction list generalizing n with
  | nil => exact Nat.zero_le _
  | cons entry tail ih =>
    unfold readLoop
    split
    · exact Nat.zero_le _
    · split
      · exact le_max_left _ _
      · have rest := ih (n + 1)
        rw [length_cons]
        omega

lemma read_length (calls : ReadCalls) (storage : LogStorage ω) (pos size : Nat) : (read calls storage pos size).length ≤ max 1 size := by
  unfold Trlog.read
  split
  · exact Nat.zero_le _
  · split
    · exact Nat.zero_le _
    · exact readLoop_length _ _ _ _

lemma taken_length (calls : ApplyCalls) (fn : τ → ω → Bool × τ) (batchSize : Nat) (arg : τ) (log : Log ω) :
    (taken calls fn batchSize arg log).length ≤ max 1 batchSize := by
  unfold taken
  split
  · exact Nat.zero_le _
  · obtain ⟨refused,part⟩ := accepts_front fn arg (read calls.read log.storage log.applied batchSize)
    have length := congrArg List.length part
    rw [length_append] at length
    have most := read_length calls.read log.storage log.applied batchSize
    omega

lemma position_last (pos : Nat) (some : list ≠ []) : ∃ entry ∈ list, position pos list = entry.1 + 1 := by
  obtain ⟨front,final,rfl⟩ : ∃ front final, list = front ++ [final] := ⟨_,_,(List.dropLast_append_getLast some).symm⟩
  refine ⟨final,mem_append_right _ (mem_singleton_self _),?_⟩
  rw [position,foldl_append]
  rfl

def Sized (map : KeyMap Nat ω) : Prop := ∀ id op, map.find id = some op → id < 2 ^ 64

section Positions

variable {map : KeyMap Nat ω} {top batch pos next : Nat}

def Full (map : KeyMap Nat ω) (top batch pos next : Nat) : Prop :=
  pos < top ∧ ∃ front rest, map.walkFrom pos = front ++ rest ∧ front.length = batch ∧ next = position pos front % 2 ^ 64

lemma Full.cases (sized : Sized map) (some : batch ≠ 0) (full : Full map top batch pos next) :
    (next = 0 ∧ (map.walkFrom pos).length = batch ∧ (map.find (2 ^ 64 - 1)).isSome) ∨
      ∃ id op, map.find id = Option.some op ∧ pos ≤ id ∧ next = id + 1 ∧ next < 2 ^ 64 ∧ (map.walkFrom pos).length = batch + (map.walkFrom next).length := by
  obtain ⟨_,front,rest,walked,length,rfl⟩ := full
  have ordered := map.walkFrom_sorted pos
  have listed : ∀ entry ∈ map.walkFrom pos, map.find entry.1 = Option.some entry.2 ∧ pos ≤ entry.1 := fun entry member => KeyMap.mem_walkFrom.mp member
  rw [walked] at ordered listed
  obtain ⟨grown,inside,outside⟩ := position_split ordered fun entry member => (listed entry member).2
  have filled : front ≠ [] := by
    rintro rfl
    exact some length.symm
  obtain ⟨final,member,last⟩ := position_last pos filled
  obtain ⟨held,above⟩ := listed final (mem_append_left rest member)
  have fits := sized _ _ held
  by_cases wraps : final.1 + 1 = 2 ^ 64
  · left
    have none : rest = [] := by
      refine List.eq_nil_iff_forall_not_mem.mpr fun entry after => ?_
      have late := outside entry after
      have small := sized _ _ (listed entry (mem_append_right front after)).1
      omega
    refine ⟨?_,?_,?_⟩
    · rw [last,wraps,Nat.mod_self]
    · rw [walked,none,append_nil,length]
    · rw [show 2 ^ 64 - 1 = final.1 by omega,held]
      rfl
  · right
    have small : final.1 + 1 < 2 ^ 64 := by omega
    have behind : map.walkFrom (position pos front) = rest := by
      have whole := map.below_walkFrom pos
      rw [walked,← append_assoc] at whole
      refine (KeyMap.cut_eq whole ?_ outside).2
      intro entry early
      rcases mem_append.mp early with before | taken
      · exact (KeyMap.mem_below.mp before).2.trans_le grown
      · exact inside entry taken
    rw [last] at behind ⊢
    rw [mod_eq_of_lt small]
    refine ⟨final.1,final.2,held,above,rfl,small,?_⟩
    rw [behind,walked,length_append,length]

-- From `pos` on the entries are whole batches, the last one with the last id,
-- and no batch starts at the top or above it.
structure Pass (map : KeyMap Nat ω) (top batch pos : Nat) : Prop where
  below : pos < top
  last : (map.find (2 ^ 64 - 1)).isSome
  whole : batch ∣ (map.walkFrom pos).length
  within : ∀ id op, map.find id = some op → pos ≤ id → batch < (map.walkFrom id).length → id + 1 < top

lemma Full.last (sized : Sized map) (some : batch ≠ 0) (full : Full map top batch pos 0) : Pass map top batch pos := by
  rcases full.cases sized some with ⟨_,length,last⟩ | ⟨id,_,_,_,zero,_⟩
  · refine ⟨full.1,last,length ▸ dvd_refl _,?_⟩
    intro id op held above more
    have fewer := (map.walkFrom_suffix above).length_le
    omega
  · exact absurd zero (succ_ne_zero id).symm

lemma Full.pass (sized : Sized map) (some : batch ≠ 0) (full : Full map top batch pos next) (forward : next ≠ 0) (pass : Pass map top batch next) :
    Pass map top batch pos := by
  rcases full.cases sized some with ⟨zero,_⟩ | ⟨id,op,_,_,behind,_,length⟩
  · exact absurd zero forward
  · refine ⟨full.1,pass.last,?_,?_⟩
    · rw [length]
      exact dvd_add (dvd_refl batch) pass.whole
    · intro other held found above more
      rcases Nat.lt_or_ge other next with early | late
      · exact (Nat.succ_le_of_lt early).trans_lt pass.below
      · exact pass.within other held found late more

lemma Full.shorter (sized : Sized map) (some : batch ≠ 0) (full : Full map top batch pos next) (forward : next ≠ 0) :
    (map.walkFrom next).length < (map.walkFrom pos).length := by
  rcases full.cases sized some with ⟨zero,_⟩ | ⟨_,_,_,_,_,_,length⟩
  · exact absurd zero forward
  · omega

lemma Pass.ahead (pass : Pass map top batch pos) (fits : pos < 2 ^ 64) : batch ≤ (map.walkFrom pos).length := by
  obtain ⟨op,held⟩ := isSome_iff_exists.mp pass.last
  have member : (2 ^ 64 - 1,op) ∈ map.walkFrom pos := KeyMap.mem_walkFrom.mpr ⟨held,by omega⟩
  exact Nat.le_of_dvd (length_pos_of_mem member) pass.whole

lemma Pass.onward (sized : Sized map) (some : batch ≠ 0) (pass : Pass map top batch pos) (again : Pass map top batch 0) (full : Full map top batch pos next) :
    Pass map top batch next ∧ next < 2 ^ 64 := by
  rcases full.cases sized some with ⟨rfl,_⟩ | ⟨id,op,held,above,behind,fits,length⟩
  · exact ⟨again,by omega⟩
  · have whole : batch ∣ (map.walkFrom next).length := by
      have total := pass.whole
      rw [length] at total
      exact (Nat.dvd_add_right (dvd_refl batch)).mp total
    have within : ∀ other op, map.find other = Option.some op → next ≤ other → batch < (map.walkFrom other).length → other + 1 < top :=
      fun other op found late => pass.within other op found (by omega)
    have more : batch < (map.walkFrom id).length := by
      obtain ⟨final,last⟩ := isSome_iff_exists.mp pass.last
      have member : (2 ^ 64 - 1,final) ∈ map.walkFrom next := KeyMap.mem_walkFrom.mpr ⟨last,by omega⟩
      have least := Nat.le_of_dvd (length_pos_of_mem member) whole
      exact least.trans_lt (KeyMap.walkFrom_shorter held (le_refl id) (by omega))
    exact ⟨⟨behind ▸ pass.within id op held above more,pass.last,whole,within⟩,fits⟩

end Positions

section Rounds

variable {fn : τ → ω → Bool × τ} {batch : Nat} {calls : Nat → ApplyCalls} {arg : τ} {log : Log ω}

lemma full_round (call : ApplyCalls) (fn : τ → ω → Bool × τ) (arg : τ) (some : batch ≠ 0) (long : batch ≤ (applyBatch call fn batch arg log).1) :
    Full (entries log.storage) log.top batch log.applied (applyBatch call fn batch arg log).2.2.applied ∧
      entries (applyBatch call fn batch arg log).2.2.storage = entries log.storage ∧ (applyBatch call fn batch arg log).2.2.top = log.top := by
  have most := taken_length call fn batch arg log
  obtain ⟨rest,walked⟩ := taken_split call fn batch arg log
  rw [applyBatch_eq] at long ⊢
  have filled : taken call fn batch arg log ≠ [] := by
    intro none
    rw [none] at long
    exact some (Nat.le_zero.mp long)
  have behind : log.applied < log.top := by
    by_contra high
    exact filled (if_pos (Nat.le_of_not_lt high))
  obtain ⟨persisted,shape,_⟩ := appliedPosSet_cases call.pos log (position log.applied (taken call fn batch arg log) % 2 ^ 64)
  dsimp only at long ⊢
  rw [if_neg filled,shape]
  exact ⟨⟨behind,_,rest,walked,by omega,rfl⟩,rfl,rfl⟩

lemma applyRounds_succ (fuel : Nat) : applyRounds fn batch (fuel + 1) calls arg log =
    if batch ≤ (applyBatch (calls 0) fn batch arg log).1 then
      applyRounds fn batch fuel (fun round => calls (round + 1)) (applyBatch (calls 0) fn batch arg log).2.1 (applyBatch (calls 0) fn batch arg log).2.2
    else some (applyBatch (calls 0) fn batch arg log).2 := rfl

def Endless (fn : τ → ω → Bool × τ) (batch : Nat) (calls : Nat → ApplyCalls) (arg : τ) (log : Log ω) : Prop :=
  ∀ fuel, applyRounds fn batch fuel calls arg log = none

lemma endless_iff : Endless fn batch calls arg log ↔ batch ≤ (applyBatch (calls 0) fn batch arg log).1 ∧
    Endless fn batch (fun round => calls (round + 1)) (applyBatch (calls 0) fn batch arg log).2.1 (applyBatch (calls 0) fn batch arg log).2.2 := by
  constructor
  · intro endless
    have long : batch ≤ (applyBatch (calls 0) fn batch arg log).1 := by
      by_contra short
      have ended := endless 1
      rw [applyRounds_succ,if_neg short] at ended
      cases ended
    refine ⟨long,fun fuel => ?_⟩
    have later := endless (fuel + 1)
    rw [applyRounds_succ,if_pos long] at later
    exact later
  · rintro ⟨long,endless⟩ fuel
    cases fuel with
    | zero => rfl
    | succ fuel =>
      rw [applyRounds_succ,if_pos long]
      exact endless fuel

lemma endless_again (sized : Sized (entries log.storage)) (some : batch ≠ 0) (endless : Endless fn batch calls arg log) :
    Pass (entries log.storage) log.top batch log.applied ∧
      ∃ calls arg next, Endless fn batch calls arg next ∧ next.applied = 0 ∧ entries next.storage = entries log.storage ∧ next.top = log.top := by
  induction count : ((entries log.storage).walkFrom log.applied).length using Nat.strong_induction_on generalizing calls arg log with
  | _ count ih =>
    obtain ⟨long,onwards⟩ := endless_iff.mp endless
    obtain ⟨full,same,height⟩ := full_round (calls 0) fn arg some long
    by_cases wraps : (applyBatch (calls 0) fn batch arg log).2.2.applied = 0
    · rw [wraps] at full
      exact ⟨full.last sized some,_,_,_,onwards,wraps,same,height⟩
    · have shorter := full.shorter sized some wraps
      rw [count,← same] at shorter
      obtain ⟨pass,calls,arg,next,endless,zero,kept,top⟩ := ih _ shorter (by rw [same]; exact sized) onwards rfl
      rw [same,height] at pass
      exact ⟨full.pass sized some wraps pass,calls,arg,next,endless,zero,kept.trans same,top.trans height⟩

lemma endless_pass (sized : Sized (entries log.storage)) (some : batch ≠ 0) (endless : Endless fn batch calls arg log) :
    Pass (entries log.storage) log.top batch log.applied ∧ Pass (entries log.storage) log.top batch 0 := by
  obtain ⟨pass,_,_,next,again,zero,same,height⟩ := endless_again sized some endless
  have first := (endless_again (by rw [same]; exact sized) some again).1
  rw [same,height,zero] at first
  exact ⟨pass,first⟩

lemma endless_zero : Endless fn 0 calls arg log := by
  intro fuel
  induction fuel generalizing calls arg log with
  | zero => rfl
  | succ fuel ih =>
    rw [applyRounds_succ,if_pos (Nat.zero_le _)]
    exact ih

def accepting : τ → ω → Bool × τ := fun arg _ => (true,arg)

lemma accepts_accepting (arg : τ) (list : List (Nat × ω)) : accepts accepting arg list = list := by
  induction list with
  | nil => rfl
  | cons entry rest ih => exact congrArg (entry::·) ih

lemma accepting_long (arg : τ) (behind : log.applied < log.top) (ahead : batch ≤ ((entries log.storage).walkFrom log.applied).length) :
    batch ≤ (applyBatch {} accepting batch arg log).1 := by
  rw [applyBatch_eq,taken,if_neg (Nat.not_le.mpr behind),accepts_accepting,read_working]
  rcases readLoop_short batch 0 ((entries log.storage).walkFrom log.applied) with whole | many
  · rw [whole]
    exact ahead
  · simpa using many

lemma pass_endless (sized : Sized (entries log.storage)) (some : batch ≠ 0) (fits : log.applied < 2 ^ 64) (pass : Pass (entries log.storage) log.top batch log.applied)
    (again : Pass (entries log.storage) log.top batch 0) : Endless accepting batch (fun _ => {}) arg log := by
  intro fuel
  induction fuel generalizing arg log with
  | zero => rfl
  | succ fuel ih =>
    have long := accepting_long arg pass.below (pass.ahead fits)
    obtain ⟨full,same,height⟩ := full_round {} accepting arg some long
    obtain ⟨next,small⟩ := pass.onward sized some again full
    rw [applyRounds_succ,if_pos long]
    rw [← same,← height] at next again
    exact ih (by rw [same]; exact sized) small next again

end Rounds

-- A configuration that a file gives, and a log whose ids and position are 64-bit integers.
def Accepted := {config : Configuration.Config // ∃ file, Configuration.loadConfig file = some config}

def StoredLog (ω : Type) := {log : Log ω // Sized (entries log.storage) ∧ log.applied < 2 ^ 64}

def ApplyReturns (batch : Nat) (arg : τ) (trlog : Option (StoredLog ω)) : Prop :=
  ∀ (fn : τ → ω → Bool × τ) (calls : Nat → ApplyCalls), ∃ fuel, (logApply fn batch fuel calls arg (trlog.map Subtype.val)).isSome

lemma applyReturns_iff (batch : Nat) (arg : τ) (log : StoredLog ω) : ApplyReturns batch arg (some log) ↔
    batch ≠ 0 ∧ ¬ (Pass (entries log.1.storage) log.1.top batch log.1.applied ∧ Pass (entries log.1.storage) log.1.top batch 0) := by
  obtain ⟨log,sized,fits⟩ := log
  have ends : ApplyReturns batch arg (some ⟨log,sized,fits⟩) ↔ ∀ fn calls, ¬ Endless fn batch calls arg log := by
    apply forall_congr' fun fn => forall_congr' fun calls => ?_
    change (∃ fuel, (Option.map _ (applyRounds fn batch fuel calls arg log)).isSome) ↔ ¬ ∀ fuel, applyRounds fn batch fuel calls arg log = none
    simp only [isSome_map,not_forall,Option.isSome_iff_ne_none,Ne]
  rw [ends]
  constructor
  · intro returns
    have some : batch ≠ 0 := by
      rintro rfl
      exact returns accepting (fun _ => {}) endless_zero
    exact ⟨some,fun ⟨pass,again⟩ => returns accepting (fun _ => {}) (pass_endless sized some fits pass again)⟩
  · rintro ⟨some,broken⟩ fn calls endless
    exact broken (endless_pass sized some endless)

theorem batch_loops_return_iff (config : Accepted) (arg : τ) (trlog : Option (StoredLog ω)) (requests : Nat) (synced top pos : UInt64) :
    ApplyReturns config.1.committer.batchSize.toNat arg trlog ∧
        Syncerlog.Terminates config.1.datasync.batchSize.toNat (Syncerlog.calling requests synced.toNat top.toNat pos.toNat) ↔
      (∀ log ∈ trlog, config.1.committer.batchSize ≠ 0 ∧
        ¬ (Pass (entries log.1.storage) log.1.top config.1.committer.batchSize.toNat log.1.applied ∧
          Pass (entries log.1.storage) log.1.top config.1.committer.batchSize.toNat 0)) ∧
      (top ≤ pos ∨ ∃ count, top.toNat ≤ Syncerlog.sweep config.1.datasync.batchSize.toNat synced.toNat count) := by
  refine and_congr ?_ (Syncerlog.schedule_terminates_iff _ _ _ _ _)
  have zero : config.1.committer.batchSize ≠ 0 ↔ config.1.committer.batchSize.toNat ≠ 0 := by
    rw [Ne,Ne,← UInt32.toNat_inj]
    rfl
  cases trlog with
  | none => exact ⟨nofun,fun _ fn calls => ⟨0,rfl⟩⟩
  | some log =>
    rw [applyReturns_iff]
    simp [zero]

-- A batch size of 0 is accepted, and neither loop comes to an end with it.
def zeroBatches : List Configuration.Setting := [⟨"committer","batch_size","0"⟩,⟨"datasync","batch_size","0"⟩]

def emptyLog : StoredLog Unit := ⟨⟨fresh,0,0⟩,nofun,by decide⟩

theorem zero_batches_run_on : ∃ config : Accepted,
    Configuration.loadConfig (some zeroBatches) = some config.1 ∧ ¬ ApplyReturns config.1.committer.batchSize.toNat () (some emptyLog) ∧
      ¬ Syncerlog.Terminates config.1.datasync.batchSize.toNat (Syncerlog.calling 0 0 1 0) := by
  have loaded : ∃ config, Configuration.loadConfig (some zeroBatches) = some config ∧ config.committer.batchSize = 0 ∧ config.datasync.batchSize = 0 := ⟨_,rfl,rfl,rfl⟩
  obtain ⟨config,accepted,committer,datasync⟩ := loaded
  refine ⟨⟨config,_,accepted⟩,accepted,?_,?_⟩
  · dsimp only
    rw [committer,applyReturns_iff]
    exact fun returns => returns.1 rfl
  · intro terminates
    dsimp only at terminates
    rw [datasync] at terminates
    rcases (Syncerlog.schedule_terminates_iff 0 0 0 1 0).mp terminates with above | ⟨count,swept⟩
    · exact absurd above (by decide)
    · simp [Syncerlog.sweep] at swept

end MedvedDB.BatchLoops
