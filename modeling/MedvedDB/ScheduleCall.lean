import MedvedDB.Syncerlog

namespace MedvedDB.Syncerlog

open Replication (Point)
open Machine (Reached only Walked)

section Sweep

-- Where a call by itself takes `synced`, batch by batch.
def sweep (batch synced count : Nat) : Nat := (synced + count * batch) % 2 ^ 64

variable {batch synced count top : Nat}

lemma sweep_zero (fits : synced < 2 ^ 64) : sweep batch synced 0 = synced := by
  simp only [sweep,Nat.zero_mul,Nat.add_zero,mod_eq_of_lt fits]

lemma sweep_succ (batch synced count : Nat) : (sweep batch synced count + batch) % 2 ^ 64 = sweep batch synced (count + 1) := by
  simp only [sweep,Nat.mod_add_mod,succ_mul,Nat.add_assoc]

lemma rrange_next (more : sweep batch synced (count + 1) < top) : rrange batch (sweep batch synced count) top = sweep batch synced (count + 1) := by
  simp only [rrange,sweep_succ,if_pos more]

lemma rrange_last (last : top ≤ sweep batch synced (count + 1)) : rrange batch (sweep batch synced count) top = top := by
  simp only [rrange,sweep_succ,if_neg (Nat.not_lt.mpr last)]

variable {accepts : Pool → Action → Bool} {state next : State} {point : Point} {after : Option Point} {pool : Pool}

def lone (state : State) (point : Option Point) : Pool := ⟨state,(point.map .scheduling).toList⟩

lemma lone_moves (batch : Nat) (state : State) (outcome : Outcome) (point : Point) (accepted : accepts (lone state (some point)) (.proceed 0 outcome) = true) :
    only accepts (step batch) (lone state (some point)) (.proceed 0 outcome) =
      some (lone (schedule batch state outcome point).2 (schedule batch state outcome point).1) := by
  rw [only,if_pos accepted]
  simp [lone,step,Threads.step,system,proceed,Threads.replaced]

lemma call_moves (allows : ∀ pool, accepts pool (.proceed 0 {}) = true) (moves : schedule batch state {} point = (after,next))
    (rest : Walked (only accepts (step batch)) count ⟨next,(after.map .scheduling).toList⟩ pool) :
    Walked (only accepts (step batch)) (count + 1) ⟨state,[.scheduling point]⟩ pool := by
  have moved := lone_moves batch state {} point (allows (lone state (some point)))
  rw [moves] at moved
  exact .head moved rest

lemma schedule_reading (batch : Nat) (outcome : Outcome) (requests : Nat) (below : synced < state.top) : schedule batch state outcome (.reading requests synced) =
    (some (.swapping requests synced (rrange batch synced state.top) state.top),state) := by
  simp only [schedule,if_neg (Nat.not_le.mpr below)]

variable {range : Nat}

lemma schedule_taken (batch requests top : Nat) (more : state.syncer.synced < range) :
    schedule batch state {} (.swapping requests state.syncer.synced range top) =
      (some (.emitting requests state.syncer.synced range top),withSynced state state.syncer.synced range) := by
  simp only [schedule,if_pos more,Bool.not_false,and_self,if_true]

lemma schedule_back (batch requests : Nat) (less : range ≤ state.syncer.synced) (below : range < top) :
    schedule batch state {} (.swapping requests state.syncer.synced range top) =
      (some (.reading requests state.syncer.synced),withSynced state state.syncer.synced range) := by
  simp only [schedule,if_neg (Nat.not_lt.mpr less),if_pos below,Bool.not_false,and_self,if_true]

lemma schedule_retry (batch requests range top : Nat) (other : state.syncer.synced ≠ synced) :
    schedule batch state {} (.swapping requests synced range top) = (some (.reading requests state.syncer.synced),state) := by
  simp only [schedule,other,false_and,if_false]

lemma schedule_emitting (batch requests synced : Nat) (below : range < top) :
    schedule batch state {} (.emitting requests synced range top) = (some (.reading requests range),withJob state true (synced,range)) := by
  simp only [schedule,if_pos below]

lemma round_walks (allows : ∀ pool, accepts pool (.proceed 0 {}) = true) (requests : Nat) (below : state.syncer.synced < state.top)
    (more : rrange batch state.syncer.synced state.top < state.top) :
    ∃ count next, 0 < count ∧ next.syncer.synced = rrange batch state.syncer.synced state.top ∧ next.top = state.top ∧
      Walked (only accepts (step batch)) count ⟨state,[.scheduling (.reading requests state.syncer.synced)]⟩
        ⟨next,[.scheduling (.reading requests next.syncer.synced)]⟩ := by
  rcases Nat.lt_trichotomy state.syncer.synced (rrange batch state.syncer.synced state.top) with up | same | down
  · refine ⟨3,withJob (withSynced state state.syncer.synced (rrange batch state.syncer.synced state.top)) true
      (state.syncer.synced,rrange batch state.syncer.synced state.top),by decide,rfl,rfl,?_⟩
    apply call_moves allows (schedule_reading batch {} requests below)
    apply call_moves allows (schedule_taken batch requests _ up)
    apply call_moves allows (schedule_emitting batch requests _ more)
    exact .refl _ _
  · refine ⟨2,withSynced state state.syncer.synced (rrange batch state.syncer.synced state.top),by decide,rfl,rfl,?_⟩
    apply call_moves allows (schedule_reading batch {} requests below)
    apply call_moves allows (schedule_back batch requests same.ge more)
    change Walked (only accepts (step batch)) 0 ⟨_,[.scheduling (.reading requests state.syncer.synced)]⟩
      ⟨_,[.scheduling (.reading requests (rrange batch state.syncer.synced state.top))]⟩
    rw [← same]
    exact .refl _ _
  · have other : (withSynced state state.syncer.synced (rrange batch state.syncer.synced state.top)).syncer.synced ≠ state.syncer.synced := down.ne
    have later : state.syncer.synced < (withSynced state state.syncer.synced (rrange batch state.syncer.synced state.top)).top := below
    refine ⟨4,withSynced state state.syncer.synced (rrange batch state.syncer.synced state.top),by decide,rfl,rfl,?_⟩
    apply call_moves allows (schedule_reading batch {} requests below)
    apply call_moves allows (schedule_back batch requests down.le more)
    apply call_moves allows (schedule_reading batch {} requests later)
    apply call_moves allows (schedule_retry batch requests _ _ other)
    exact .refl _ _

def resting (requests synced top : Nat) : State := ⟨⟨requests,synced⟩,top,0,[],[],[],[],0,[]⟩

def calling (requests synced top pos : Nat) : Pool := lone (resting requests synced top) (some (.entered pos))

lemma calling_reads (allows : ∀ pool, accepts pool (.proceed 0 {}) = true) (batch requests synced : Nat) (below : pos < top) :
    ∃ count, Walked (only accepts (step batch)) count (calling requests synced top pos)
      (lone (resting requests synced top) (some (.reading requests synced))) := by
  have first : schedule batch (resting requests synced top) {} (.entered pos) = (some (.loaded pos requests),(resting requests synced top)) := rfl
  have second := schedule_loaded batch (resting requests synced top) {} pos requests
  by_cases ahead : synced < pos
  · refine ⟨4,?_⟩
    apply call_moves allows first
    apply call_moves allows second
    have larger : max (resting requests synced top).syncer.synced pos = pos := Nat.max_eq_right ahead.le
    rw [larger]
    apply call_moves allows (schedule_reading batch {} requests below)
    apply call_moves allows (schedule_retry batch requests _ _ ahead.ne)
    exact .refl _ _
  · refine ⟨2,?_⟩
    apply call_moves allows first
    apply call_moves allows second
    have larger : max (resting requests synced top).syncer.synced pos = synced := Nat.max_eq_left (Nat.le_of_not_lt ahead)
    rw [larger]
    exact .refl _ _

lemma sweep_walks (allows : ∀ pool, accepts pool (.proceed 0 {}) = true) (requests : Nat) (fits : synced < 2 ^ 64) (ahead : pos < top)
    (below : ∀ earlier ≤ count, sweep batch synced earlier < top) :
    ∃ steps state, count ≤ steps ∧ state.syncer.synced = sweep batch synced count ∧ state.top = top ∧
      Walked (only accepts (step batch)) steps (calling requests synced top pos) ⟨state,[.scheduling (.reading requests state.syncer.synced)]⟩ := by
  induction count with
  | zero =>
    obtain ⟨steps,walked⟩ := calling_reads allows batch requests synced ahead
    exact ⟨steps,_,Nat.zero_le _,(sweep_zero fits).symm,rfl,walked⟩
  | succ count ih =>
    obtain ⟨steps,state,long,here,same,walked⟩ := ih fun earlier within => below earlier (by omega)
    have next := rrange_next (below (count + 1) le_rfl)
    rw [← here,← same] at next
    have last := below (count + 1) le_rfl
    obtain ⟨more,after,some,there,still,went⟩ := round_walks allows requests (by rw [here,same]; exact below count (by omega)) (by rw [next,same]; exact last)
    exact ⟨steps + more,after,by omega,there.trans next,still.trans same,walked.trans went⟩

end Sweep

section Alone

variable {batch : Nat} {accepts : Pool → Action → Bool} {state : State} {point : Option Point} {pool : Pool}

def alone (_ : Pool) : Action → Bool
  | .proceed _ _ => true
  | .enter _ => false

lemma lone_step (refuses : ∀ pool call, accepts pool (.enter call) = false)
    (moved : only accepts (step batch) (lone state point) action = some pool) :
    ∃ outcome here after further, point = some here ∧ accepts (lone state point) (.proceed 0 outcome) = true ∧ pool = lone further after ∧
      Scheduled batch state outcome here after further := by
  obtain ⟨accepted,moved⟩ := Machine.only_some moved
  cases action with
  | enter call =>
    rw [refuses] at accepted
    cases accepted
  | proceed index outcome =>
    cases point with
    | none => cases moved
    | some here =>
      cases index with
      | succ index => cases moved
      | zero =>
        refine ⟨outcome,here,_,_,rfl,accepted,?_,schedule_scheduled batch state outcome here⟩
        cases moved
        simp [lone,Threads.replaced]

def Lone (holds : State → Option Point → Prop) (pool : Pool) : Prop := ∃ state point, pool = lone state point ∧ holds state point

variable {holds : State → Option Point → Prop}

lemma step_lone (refuses : ∀ pool call, accepts pool (.enter call) = false)
    (kept : ∀ state here outcome after next, accepts (lone state (some here)) (.proceed 0 outcome) = true → holds state (some here) →
      Scheduled batch state outcome here after next → holds next after)
    (now : Lone holds pool) (moved : only accepts (step batch) pool action = some next) : Lone holds next := by
  obtain ⟨state,point,rfl,now⟩ := now
  obtain ⟨outcome,here,after,further,rfl,accepted,rfl,rule⟩ := lone_step refuses moved
  exact ⟨further,after,rfl,kept state here outcome after further accepted now rule⟩

lemma lone_invariant (base : holds state point)
    (kept : ∀ state here outcome after next, holds state (some here) → Scheduled batch state outcome here after next → holds next after)
    (reached : Reached (only alone (step batch)) (lone state point) pool) : Lone holds pool := by
  apply Machine.reached_invariant ⟨state,point,rfl,base⟩ ?_ reached
  intro before action next now moved
  apply step_lone (fun _ _ => rfl) ?_ now moved
  intro state here outcome after next _
  exact kept state here outcome after next

end Alone

section Positions

variable {batch synced top pos : Nat}

-- Every position before the first one at or above the top is at least `pos`.
def Clears (batch synced top pos : Nat) : Prop :=
  ∀ count, (∀ earlier ≤ count, sweep batch synced earlier < top) → pos ≤ sweep batch synced count

def Aims (batch top pos : Nat) : Point → Prop
  | .swapping _ synced range read => read = top ∧ synced < top ∧ range = rrange batch synced top
  | .emitting _ synced _ _ => pos ≤ synced
  | _ => True

def Swept (batch synced top here : Nat) : Prop :=
  here = top ∨ ∃ count, (∀ earlier < count, sweep batch synced earlier < top) ∧ here = sweep batch synced count

structure Above (batch synced top pos : Nat) (state : State) (point : Option Point) : Prop where
  height : state.top = top
  passed : ∀ range ∈ state.passed, pos ≤ range.1
  swept : Swept batch synced top state.syncer.synced
  aims : ∀ here ∈ point, Aims batch top pos here

lemma Swept.next (swept : Swept batch synced top here) (below : here < top) : Swept batch synced top (rrange batch here top) := by
  rcases swept with same | ⟨count,earlier,rfl⟩
  · exact absurd same below.ne
  · by_cases more : sweep batch synced (count + 1) < top
    · refine .inr ⟨count + 1,?_,rrange_next more⟩
      intro other within
      rcases Nat.lt_or_eq_of_le (Nat.le_of_lt_succ within) with before | rfl
      · exact earlier other before
      · exact below
    · exact .inl (rrange_last (Nat.le_of_not_lt more))

lemma Swept.clears (swept : Swept batch synced top here) (clears : Clears batch synced top pos) (below : here < top) : pos ≤ here := by
  rcases swept with same | ⟨count,earlier,rfl⟩
  · exact absurd same below.ne
  · apply clears count
    intro other within
    rcases Nat.lt_or_eq_of_le within with before | rfl
    · exact earlier other before
    · exact below

variable {after : Option Point} {outcome : Outcome} {here : Point} {next state : State}

lemma Aims.step (height : state.top = top) (aims : Aims batch top pos here)
    (rule : Scheduled batch state outcome here after next) (clear : ∀ own < top, state.syncer.synced = own → pos ≤ own) : ∀ other ∈ after, Aims batch top pos other := by
  intro other is
  cases rule with
  | entered pos | loaded pos requests | covered requests own high | retry requests own range read failed | again requests own changed =>
    cases is
    trivial
  | reading requests own below =>
    cases is
    rw [height] at below ⊢
    exact ⟨rfl,below,rfl⟩
  | taken requests own range read same more =>
    cases is
    exact clear own aims.2.1 same
  | back requests own range read same less | emitting requests own range read =>
    cases is
    split <;> trivial
  | closed requests own same => cases is

lemma Above.step (clears : Clears batch synced top pos)
    (above : Above batch synced top pos state (some here)) (rule : Scheduled batch state outcome here after next) : Above batch synced top pos next after := by
  have aims := above.aims here rfl
  have ahead : ∀ other ∈ after, Aims batch top pos other := aims.step above.height rule fun own below same => (same ▸ above.swept).clears clears below
  cases rule with
  | entered pos | loaded pos requests | covered requests own high | reading requests own below | retry requests own range read failed | closed requests own same
  | again requests own other => exact ⟨above.height,above.passed,above.swept,ahead⟩
  | taken requests own range read same more | back requests own range read same less =>
    obtain ⟨rfl,below,rfl⟩ := aims
    exact ⟨above.height,above.passed,(same ▸ above.swept).next below,ahead⟩
  | emitting requests own range read =>
    refine ⟨above.height,?_,above.swept,ahead⟩
    intro other member
    rcases mem_append.mp member with old | new
    · exact above.passed other old
    · obtain rfl := mem_singleton.mp new
      exact aims

-- Nothing has been passed on, and nothing will be where `ways` leads.
structure Passive (top : Nat) (ways : Point → Prop) (state : State) (point : Option Point) : Prop where
  height : state.top = top
  passed : state.passed = []
  ways : ∀ here ∈ point, ways here

def Beyond (top : Nat) : Point → Prop
  | .entered pos | .loaded pos _ => top ≤ pos
  | .reading _ synced | .closing _ synced => top ≤ synced
  | .swapping _ _ _ _ | .emitting _ _ _ _ => False

def Empty : Point → Prop
  | .swapping _ synced range _ => range ≤ synced
  | .emitting _ _ _ _ => False
  | _ => True

lemma Passive.beyond
    (passive : Passive top (Beyond top) state (some here)) (rule : Scheduled batch state outcome here after next) : Passive top (Beyond top) next after := by
  have way := passive.ways here rfl
  cases rule with
  | entered pos | covered requests own high | again requests own other => exact ⟨passive.height,passive.passed,fun _ is => by cases is; exact way⟩
  | loaded pos requests => exact ⟨passive.height,passive.passed,fun _ is => by cases is; exact le_trans way (le_max_right _ _)⟩
  | reading requests own below =>
    rw [passive.height] at below
    exact absurd way (Nat.not_le.mpr below)
  | taken requests own range read same more | back requests own range read same less | retry requests own range read failed | emitting requests own range read =>
    exact absurd way id
  | closed requests own same => exact ⟨passive.height,passive.passed,nofun⟩

lemma rrange_zero (fits : top ≤ 2 ^ 64) (below : synced < top) : rrange 0 synced top = synced := by
  rw [rrange_room fits below]
  omega

lemma Passive.empty (fits : top ≤ 2 ^ 64)
    (passive : Passive top Empty state (some here)) (rule : Scheduled 0 state outcome here after next) : Passive top Empty next after := by
  have way := passive.ways here rfl
  cases rule with
  | entered pos | loaded pos requests | covered requests own high | retry requests own range read failed | again requests own other =>
    exact ⟨passive.height,passive.passed,fun _ is => by cases is; trivial⟩
  | reading requests own below =>
    refine ⟨passive.height,passive.passed,?_⟩
    intro other is
    cases is
    rw [passive.height] at below ⊢
    exact (rrange_zero fits below).le
  | taken requests own range read same more => exact absurd way (Nat.not_le.mpr more)
  | back requests own range read same less =>
    refine ⟨passive.height,passive.passed,?_⟩
    intro other is
    cases is
    split <;> trivial
  | emitting requests own range read => exact absurd way id
  | closed requests own same => exact ⟨passive.height,passive.passed,nofun⟩

lemma sweep_emits (ahead : pos < top) (fits : top < 2 ^ 64) (some : 0 < batch) (small : batch < 2 ^ 32)
    (below : ∀ earlier ≤ count, sweep batch synced earlier < top) (missed : sweep batch synced count < pos) :
    ∃ last, (∀ earlier ≤ last, sweep batch synced earlier < top) ∧ sweep batch synced last < pos ∧
      sweep batch synced last < rrange batch (sweep batch synced last) top := by
  by_cases round : sweep batch synced count + batch < 2 ^ 64
  · refine ⟨count,below,missed,?_⟩
    rw [rrange,mod_eq_of_lt round]
    split <;> omega
  · have next : sweep batch synced (count + 1) = sweep batch synced count + batch - 2 ^ 64 := by
      rw [← sweep_succ,Nat.mod_eq_sub_mod (Nat.le_of_not_lt round),mod_eq_of_lt (by omega)]
    refine ⟨count + 1,?_,by omega,?_⟩
    · intro earlier within
      rcases Nat.lt_or_eq_of_le within with before | rfl
      · exact below earlier (Nat.le_of_lt_succ before)
      · omega
    · rw [rrange,mod_eq_of_lt (by omega)]
      split <;> omega

lemma schedule_passes (batch : Nat) (state : State) (outcome : Outcome) (requests synced range top : Nat) :
    (schedule batch state outcome (.emitting requests synced range top)).2.passed = state.passed ++ [(synced,range)] := by
  simp only [schedule]
  split <;> rfl

lemma alone_allows (pool : Pool) : alone pool (.proceed 0 {}) = true := rfl

lemma reading_passes (requests : Nat) (below : state.syncer.synced < state.top)
    (more : state.syncer.synced < rrange batch state.syncer.synced state.top) :
    ∃ count pool, Walked (only alone (step batch)) count (lone state (some (.reading requests state.syncer.synced))) pool ∧
      (state.syncer.synced,rrange batch state.syncer.synced state.top) ∈ pool.shared.passed := by
  have last : ∃ after next, schedule batch (withSynced state state.syncer.synced (rrange batch state.syncer.synced state.top)) {}
      (.emitting requests state.syncer.synced (rrange batch state.syncer.synced state.top) state.top) = (after,next) := ⟨_,_,rfl⟩
  obtain ⟨after,next,last⟩ := last
  refine ⟨3,lone next after,?_,?_⟩
  · apply call_moves alone_allows (schedule_reading batch {} requests below)
    apply call_moves alone_allows (schedule_taken batch requests _ more)
    apply call_moves alone_allows last
    exact .refl _ _
  · have passed := schedule_passes batch (withSynced state state.syncer.synced (rrange batch state.syncer.synced state.top)) {} requests
      state.syncer.synced (rrange batch state.syncer.synced state.top) state.top
    rw [last] at passed
    change _ ∈ next.passed
    rw [passed]
    exact mem_append_right _ mem_cons_self

-- The position of the peer is honoured exactly where the shared position already clears
-- it: the compare-exchange from a larger one fails and the call starts again below.
theorem position_honoured_iff (batch : UInt32) (requests : Nat) (synced top pos : UInt64) :
    (∀ pool, Reached (only alone (step batch.toNat)) (calling requests synced.toNat top.toNat pos.toNat) pool →
      ∀ range ∈ pool.shared.passed, pos.toNat ≤ range.1) ↔
    top ≤ pos ∨ batch = 0 ∨ Clears batch.toNat synced.toNat top.toNat pos.toNat := by
  constructor
  · intro honoured
    by_contra otherwise
    obtain ⟨ahead,otherwise⟩ := not_or.mp otherwise
    obtain ⟨some,unclear⟩ := not_or.mp otherwise
    simp only [Clears,not_forall] at unclear
    obtain ⟨count,below,missed⟩ := unclear
    have positive : 0 < batch.toNat := Nat.pos_of_ne_zero fun zero => some (UInt32.toNat_inj.mp zero)
    obtain ⟨last,before,under,emitted⟩ := sweep_emits (UInt64.not_le.mp ahead) top.toNat_lt positive batch.toNat_lt below (Nat.lt_of_not_le missed)
    obtain ⟨_,state,_,here,same,walked⟩ := sweep_walks alone_allows requests synced.toNat_lt (UInt64.not_le.mp ahead) before
    have low := before last le_rfl
    rw [← here,← same] at emitted
    obtain ⟨_,pool,went,passed⟩ := reading_passes requests (by rw [here,same]; exact low) emitted
    have kept := honoured pool (walked.trans went).reached _ passed
    rw [here] at kept
    exact absurd kept (Nat.not_le.mpr under)
  · intro cases pool reached range member
    rcases cases with beyond | zero | clears
    · have base : Passive top.toNat (Beyond top.toNat) (resting requests synced.toNat top.toNat) (some (.entered pos.toNat)) :=
        ⟨rfl,rfl,fun _ is => Option.some.inj is ▸ beyond⟩
      obtain ⟨state,point,rfl,passive⟩ := lone_invariant base (fun _ _ _ _ _ => Passive.beyond) reached
      rw [lone,passive.passed] at member
      cases member
    · have base : Passive top.toNat Empty (resting requests synced.toNat top.toNat) (some (.entered pos.toNat)) :=
        ⟨rfl,rfl,fun _ is => by cases is; trivial⟩
      subst zero
      obtain ⟨state,point,rfl,passive⟩ := lone_invariant base (fun _ _ _ _ _ => Passive.empty top.toNat_lt.le) reached
      rw [lone,passive.passed] at member
      cases member
    · have base : Above batch.toNat synced.toNat top.toNat pos.toNat (resting requests synced.toNat top.toNat) (some (.entered pos.toNat)) := by
        refine ⟨rfl,?_,.inr ⟨0,?_,(sweep_zero synced.toNat_lt).symm⟩,?_⟩
        · intro range nothing
          cases nothing
        · intro earlier before
          cases before
        · intro here is
          cases is
          trivial
      obtain ⟨state,point,rfl,above⟩ := lone_invariant base (fun _ _ _ _ _ => Above.step clears) reached
      exact above.passed range member

theorem position_ignored : ∃ pool, Reached (only alone (step 1)) (calling 0 0 2 1) pool ∧ (0,1) ∈ pool.shared.passed := by
  refine ⟨_,⟨replicate 7 (.proceed 0 {}),rfl⟩,?_⟩
  exact mem_cons_self

end Positions

section Ends

variable {batch requests synced top pos : Nat}

def calmly (_ : Pool) : Action → Bool
  | .proceed _ outcome => !outcome.spurious
  | .enter _ => false

lemma calmly_allows (pool : Pool) : calmly pool (.proceed 0 {}) = true := rfl

-- A run is bounded, and it can go on until the call is over.
def Terminates (batch : Nat) (pool : Pool) : Prop := ∃ bound, ∀ count final, Walked (only calmly (step batch)) count pool final →
  count ≤ bound ∧ (final.threads = [] ∨ ∃ next, only calmly (step batch) final (.proceed 0 {}) = some next)

def Sees (requests : Nat) : Point → Prop
  | .entered _ => True
  | .loaded _ seen | .reading seen _ | .swapping seen _ _ _ | .emitting seen _ _ _ | .closing seen _ => seen = requests

variable {rounds : Nat} {after : Option Point} {outcome : Outcome} {here : Point} {next state : State}

lemma Sees.step (sees : Sees state.syncer.requests here)
    (rule : Scheduled batch state outcome here after next) : ∀ other ∈ after, Sees next.syncer.requests other := by
  intro other is
  cases rule with
  | entered pos =>
    cases is
    rfl
  | loaded pos requests | covered requests own high | reading requests own below | taken requests own range read same more | retry requests own range read failed =>
    cases is
    exact sees
  | back requests own range read same less | emitting requests own range read =>
    cases is
    split <;> exact sees
  | closed requests own same => cases is
  | again requests own changed => exact absurd sees.symm changed

def phase (synced : Nat) : Option Point → Nat
  | none => 0
  | some (.closing _ _) => 1
  | some (.swapping _ own _ _) => if own = synced then 2 else 4
  | some (.reading _ own) => if own = synced then 3 else 5
  | some (.emitting _ _ _ _) => 6
  | some (.loaded _ _) => 6
  | some (.entered _) => 7

lemma phase_loop (synced requests own range read : Nat) : phase synced (some (if range < read then .reading requests own else .closing requests own)) ≤ 5 := by
  split
  · simp only [phase]
    split <;> omega
  · simp [phase]

def ahead (rounds : Nat) (state : State) (point : Option Point) : Nat := 6 * (rounds - state.claimed.length) + phase state.syncer.synced point

def pending (pool : Pool) : Option Point :=
  match pool.threads with
  | .scheduling point::_ => some point
  | _ => none

lemma pending_lone (state : State) (point : Option Point) : pending (lone state point) = point := by
  cases point <;> rfl

def remaining (rounds : Nat) (pool : Pool) : Nat := ahead rounds pool.shared (pending pool)

lemma terminates_of {holds : State → Option Point → Prop} (base : holds (resting requests synced top) (some (.entered pos)))
    (kept : ∀ state here outcome after next, outcome.spurious = false → holds state (some here) → Scheduled batch state outcome here after next →
      holds next after ∧ ahead rounds next after < ahead rounds state (some here)) :
    Terminates batch (calling requests synced top pos) := by
  have start : Lone holds (calling requests synced top pos) := ⟨_,_,rfl,base⟩
  have stays : ∀ pool action next, Lone holds pool → only calmly (step batch) pool action = some next →
      Lone holds next ∧ remaining rounds next < remaining rounds pool := by
    intro pool action next now moved
    obtain ⟨state,point,rfl,now⟩ := now
    obtain ⟨outcome,here,after,further,rfl,accepted,rfl,rule⟩ := lone_step (fun _ _ => rfl) moved
    obtain ⟨later,less⟩ := kept state here outcome after further (not_eq_true' _ ▸ accepted) now rule
    refine ⟨⟨further,after,rfl,later⟩,?_⟩
    rw [remaining,remaining,pending_lone,pending_lone]
    exact less
  refine ⟨remaining rounds (calling requests synced top pos),?_⟩
  intro count final walked
  refine ⟨Machine.walked_bound start stays walked,?_⟩
  obtain ⟨state,point,rfl,_⟩ := Machine.reached_invariant start (fun pool action next now moved => (stays pool action next now moved).1) walked.reached
  cases point with
  | none => exact .inl rfl
  | some here => exact .inr ⟨_,lone_moves batch state {} here rfl⟩

structure Leaving (top : Nat) (state : State) (point : Option Point) : Prop where
  passive : Passive top (Beyond top) state point
  sees : ∀ here ∈ point, Sees state.syncer.requests here

lemma Leaving.step (leaving : Leaving top state (some here))
    (rule : Scheduled batch state outcome here after next) : Leaving top next after ∧ ahead 0 next after < ahead 0 state (some here) := by
  have way := leaving.passive.ways here rfl
  have sees := leaving.sees here rfl
  refine ⟨⟨leaving.passive.beyond rule,sees.step rule⟩,?_⟩
  cases rule with
  | entered pos => simp [ahead,phase]
  | loaded pos requests | covered requests own high =>
    simp only [ahead,phase]
    split <;> omega
  | reading requests own below =>
    rw [leaving.passive.height] at below
    exact absurd way (Nat.not_le.mpr below)
  | taken requests own range read same more | back requests own range read same less | retry requests own range read failed | emitting requests own range read =>
    exact absurd way id
  | closed requests own same => simp [ahead,phase]
  | again requests own other => exact absurd sees.symm other

-- After as many rounds as the sweep takes to the top the loop is left.
structure Turning (batch synced top rounds : Nat) (state : State) (point : Option Point) : Prop where
  height : state.top = top
  swept : state.claimed.length < rounds ∧ state.syncer.synced = sweep batch synced state.claimed.length ∨
    state.claimed.length = rounds ∧ top ≤ state.syncer.synced
  aims : ∀ here ∈ point, Aims batch top 0 here
  sees : ∀ here ∈ point, Sees state.syncer.requests here

lemma Turning.swap (least : ∀ earlier < rounds, sweep batch synced earlier < top)
    (last : top ≤ sweep batch synced rounds) (turning : Turning batch synced top rounds state point) (same : state.syncer.synced = own)
    (below : own < top) (is : range = rrange batch own top) :
    (withSynced state own range).claimed.length = state.claimed.length + 1 ∧ state.claimed.length < rounds ∧
      ((withSynced state own range).claimed.length < rounds ∧ range = sweep batch synced (withSynced state own range).claimed.length ∨
        (withSynced state own range).claimed.length = rounds ∧ top ≤ range) := by
  have length : (withSynced state own range).claimed.length = state.claimed.length + 1 := length_append
  rw [length]
  subst is
  rcases turning.swept with ⟨more,here⟩ | ⟨_,high⟩
  · refine ⟨rfl,more,?_⟩
    rw [← same,here]
    by_cases next : sweep batch synced (state.claimed.length + 1) < top
    · refine .inl ⟨?_,rrange_next next⟩
      by_contra short
      have full : state.claimed.length + 1 = rounds := by omega
      rw [full] at next
      omega
    · refine .inr ⟨?_,(rrange_last (Nat.le_of_not_lt next)).ge⟩
      by_contra short
      exact next (least _ (by omega))
  · omega

lemma Turning.step
    (least : ∀ earlier < rounds, sweep batch synced earlier < top) (last : top ≤ sweep batch synced rounds) (calm : outcome.spurious = false)
    (turning : Turning batch synced top rounds state (some here)) (rule : Scheduled batch state outcome here after next) :
    Turning batch synced top rounds next after ∧ ahead rounds next after < ahead rounds state (some here) := by
  have aims := turning.aims here rfl
  have sees := turning.sees here rfl
  have aiming : ∀ other ∈ after, Aims batch top 0 other := aims.step turning.height rule fun own _ _ => Nat.zero_le own
  have seeing := sees.step rule
  cases rule with
  | entered pos => exact ⟨⟨turning.height,turning.swept,aiming,seeing⟩,by simp [ahead,phase]⟩
  | loaded pos requests | covered requests own high | reading requests own below =>
    refine ⟨⟨turning.height,turning.swept,aiming,seeing⟩,?_⟩
    simp only [ahead,phase]
    split <;> omega
  | taken requests own range read same more =>
    obtain ⟨rfl,below,is⟩ := aims
    obtain ⟨length,left,swept⟩ := turning.swap least last same below is
    refine ⟨⟨turning.height,swept,aiming,seeing⟩,?_⟩
    simp only [ahead,phase,length,same,if_true]
    omega
  | back requests own range read same less =>
    obtain ⟨rfl,below,is⟩ := aims
    obtain ⟨length,left,swept⟩ := turning.swap least last same below is
    have short := phase_loop (withSynced state own range).syncer.synced requests own range read
    have now : phase state.syncer.synced (some (.swapping requests own range read)) = 2 := if_pos same.symm
    refine ⟨⟨turning.height,swept,aiming,seeing⟩,?_⟩
    rw [ahead,ahead,length,now]
    omega
  | retry requests own range read failed =>
    have other := failed calm
    refine ⟨⟨turning.height,turning.swept,aiming,seeing⟩,?_⟩
    simp only [ahead,phase,if_true,if_neg other.symm]
    omega
  | emitting requests own range read =>
    have short := phase_loop state.syncer.synced requests range range read
    refine ⟨⟨turning.height,turning.swept,aiming,seeing⟩,?_⟩
    change 6 * (rounds - state.claimed.length) + phase state.syncer.synced _ < 6 * (rounds - state.claimed.length) + 6
    omega
  | closed requests own same => exact ⟨⟨turning.height,turning.swept,aiming,seeing⟩,by simp [ahead,phase,withRequests]⟩
  | again requests own other => exact absurd sees.symm other

-- The call ends exactly where its position is not below the top or its batches take
-- `synced` to the top: not from below it with a batch of 0, always where the log leaves room for one.
lemma schedule_terminates_iff (batch requests : Nat) (synced top pos : UInt64) :
    Terminates batch (calling requests synced.toNat top.toNat pos.toNat) ↔ top ≤ pos ∨ ∃ count, top.toNat ≤ sweep batch synced.toNat count := by
  constructor
  · intro terminates
    by_contra otherwise
    obtain ⟨low,never⟩ := not_or.mp otherwise
    obtain ⟨bound,bounded⟩ := terminates
    obtain ⟨count,state,long,_,_,walked⟩ := sweep_walks calmly_allows requests synced.toNat_lt (UInt64.not_le.mp low)
      (fun earlier (_ : earlier ≤ bound + 1) => Nat.lt_of_not_le fun reached => never ⟨earlier,reached⟩)
    have short := (bounded count _ walked).1
    omega
  · intro cases
    rcases cases with beyond | swept
    · have base : Leaving top.toNat (resting requests synced.toNat top.toNat) (some (.entered pos.toNat)) :=
        ⟨⟨rfl,rfl,fun _ is => Option.some.inj is ▸ beyond⟩,fun _ is => Option.some.inj is ▸ trivial⟩
      exact terminates_of base fun _ _ _ _ _ _ => Leaving.step
    · have least := fun earlier before => Nat.lt_of_not_le (Nat.find_min swept (m:=earlier) before)
      have base : Turning batch synced.toNat top.toNat (Nat.find swept) (resting requests synced.toNat top.toNat) (some (.entered pos.toNat)) := by
        refine ⟨rfl,?_,fun _ is => Option.some.inj is ▸ trivial,fun _ is => Option.some.inj is ▸ trivial⟩
        rcases Nat.eq_zero_or_pos (Nat.find swept) with none | some
        · refine .inr ⟨none.symm,?_⟩
          have reached := Nat.find_spec swept
          rw [none,sweep_zero synced.toNat_lt] at reached
          exact reached
        · exact .inl ⟨some,(sweep_zero synced.toNat_lt).symm⟩
      exact terminates_of base fun _ _ _ _ _ => Turning.step least (Nat.find_spec swept)

end Ends

end MedvedDB.Syncerlog
