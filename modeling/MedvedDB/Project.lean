import MedvedDB.Machine
import MedvedDB.Binn

open MedvedDB.Binn
namespace MedvedDB.Project

-- MDV_FALSE is how an operation says that it has no more entries.
inductive OpError where
  | false_ | failed | noMem | other (code : Int)
  deriving DecidableEq, Repr

-- mdv_kvdata. The value is what binn_load makes of its bytes.
structure KvData where
  key : List UInt8
  value : Option Value

structure Operation (σ : Type) where
  next : σ → Except OpError KvData × σ
  reset : σ → Option OpError × σ

-- binn_list and the additions at the places of the source list.
structure ProjectCalls where
  list : Bool := true
  add : Nat → Bool := fun _ => true

inductive Call where
  | next (calls : ProjectCalls)
  | reset

inductive Answer (β : Type) where
  | next (result : Except OpError β)
  | reset (error : Option OpError)

variable {σ : Type}

def Operation.call (source : Operation σ) (state : σ) : Call → Answer KvData × σ
  | .next _ => (.next (source.next state).1,(source.next state).2)
  | .reset => (.reset (source.reset state).1,(source.reset state).2)

-- What the two projections share: the entry is taken from the source, and a loop
-- over its list makes the new one.
def projectNext (loop : (Nat → Bool) → List Value → Option (List Value)) (calls : ProjectCalls) :
    Except OpError KvData → Except OpError (List UInt8 × List Value)
  | .error error => .error error
  | .ok kvdata =>
    match kvdata.value with
    | some (.list list) =>
      if !calls.list then .error .noMem
      else match loop calls.add list with
        | none => .error .noMem
        | some current => .ok (kvdata.key,current)
    | _ => .error .failed

def projectCall (loop : (Nat → Bool) → List Value → Option (List Value)) (source : Operation σ) (state : σ) :
    Call → Answer (List UInt8 × List Value) × σ
  | .next calls => (.next (projectNext loop calls (source.next state).1),(source.next state).2)
  | .reset => (.reset (source.reset state).1,(source.reset state).2)

-- The upper bound is checked after an item was added.
def rangeLoop (lower upper : Nat) (add : Nat → Bool) : Nat → List Value → List Value → Option (List Value)
  | _,current,[] => some current
  | i,current,item::rest =>
    if lower ≤ i && !add i then none
    else
      let current := if lower ≤ i then current ++ [item] else current
      if i + 1 ≥ upper then some current else rangeLoop lower upper add (i + 1) current rest

def projectRange (lower upper : Nat) : Operation σ → σ → Call → Answer (List UInt8 × List Value) × σ :=
  projectCall fun add => rangeLoop lower upper add 0 []

def indicesLoop (add : Nat → Bool) : Nat → List Nat → List Value → List Value → Option (List Value)
  | _,_,current,[] => some current
  | _,[],current,_::_ => some current
  | i,index::indices,current,item::rest =>
    if i = index then
      if !add i then none else indicesLoop add (i + 1) indices (current ++ [item]) rest
    else indicesLoop add (i + 1) (index::indices) current rest

def projectByIndices (indices : List Nat) : Operation σ → σ → Call → Answer (List UInt8 × List Value) × σ :=
  projectCall fun add => indicesLoop add 0 indices []

-- An answer of the projection beside the answer of its source to the same call:
-- errors and resets pass, an entry keeps its key and its list is changed as
-- expected, unless memory is short.
inductive Right (expected : List Value → List Value → Prop) : Call → Answer KvData → Answer (List UInt8 × List Value) → Prop where
  | reset {error : Option OpError} : Right expected .reset (.reset error) (.reset error)
  | ended {calls : ProjectCalls} {error : OpError} : Right expected (.next calls) (.next (.error error)) (.next (.error error))
  | entry {calls : ProjectCalls} {key : List UInt8} {list current : List Value} (made : expected list current) :
      Right expected (.next calls) (.next (.ok ⟨key,some (.list list)⟩)) (.next (.ok (key,current)))
  | noMem {calls : ProjectCalls} {kvdata : KvData} (short : calls.list = false ∨ ∃ i, calls.add i = false) :
      Right expected (.next calls) (.next (.ok kvdata)) (.next (.error .noMem))

def Reached (call : σ → Call → Answer β × σ) : σ → σ → Prop := Machine.Reached fun state action => some (call state action).2

def Gives (source : Operation σ) (opened : σ) (list : List Value) : Prop :=
  ∃ state key, Reached source.call opened state ∧ (source.next state).1 = .ok ⟨key,some (.list list)⟩

def OnlyLists (source : Operation σ) (opened : σ) : Prop :=
  ∀ state kvdata, Reached source.call opened state → (source.next state).1 = .ok kvdata → ∃ list, kvdata.value = some (.list list)

-- Each call in each run: the projection moves its source as the call alone would,
-- and answers right.
def Projects (expected : List Value → List Value → Prop) (source : Operation σ) (opened : σ)
    (projection : σ → Call → Answer (List UInt8 × List Value) × σ) : Prop :=
  ∀ state, Reached projection opened state → ∀ call,
    (projection state call).2 = (source.call state call).2 ∧ Right expected call (source.call state call).1 (projection state call).1

section Calls

variable {loop : (Nat → Bool) → List Value → Option (List Value)} {source : Operation σ} {opened : σ}
  {expected : List Value → List Value → Prop}

lemma projectCall_state (state : σ) (call : Call) : (projectCall loop source state call).2 = (source.call state call).2 := by
  cases call <;> rfl

lemma projectCall_reached : Reached (projectCall loop source) opened state ↔ Reached source.call opened state := by
  have same : (fun state action => some (projectCall loop source state action).2) = fun state action => some (source.call state action).2 := by
    funext state action
    rw [projectCall_state]
  rw [Reached,Reached,same]

lemma projectNext_list (memory : calls.list = true) :
    projectNext loop calls (.ok ⟨key,some (.list list)⟩) =
      match loop calls.add list with
      | none => .error .noMem
      | some current => .ok (key,current) := by
  simp only [projectNext,memory,Bool.not_true,false_eq_true,if_false]

lemma projects_iff (lists : OnlyLists source opened) (short : ∀ add list, loop add list = none → ∃ i, add i = false) :
    Projects expected source opened (projectCall loop source) ↔
      ∀ list, Gives source opened list → ∀ add current, loop add list = some current → expected list current := by
  constructor
  · intro projects list gives add current made
    obtain ⟨state,key,reached,given⟩ := gives
    have right := (projects state (projectCall_reached.mpr reached) (.next {add:=add})).2
    simp only [projectCall,Operation.call,given,projectNext_list,made] at right
    cases right with
    | entry known => exact known
  · intro right state reached call
    refine ⟨projectCall_state state call,?_⟩
    have before := projectCall_reached.mp reached
    cases call with
    | reset => exact .reset
    | next calls =>
      simp only [projectCall,Operation.call]
      cases given : (source.next state).1 with
      | error error => exact .ended
      | ok kvdata =>
        obtain ⟨list,is⟩ := lists state kvdata before given
        obtain ⟨key,value⟩ := kvdata
        subst is
        cases memory : calls.list with
        | false =>
          have refused : projectNext loop calls (.ok ⟨key,some (.list list)⟩) = .error .noMem := by simp [projectNext,memory]
          rw [refused]
          exact .noMem (.inl memory)
        | true =>
          rw [projectNext_list memory]
          cases made : loop calls.add list with
          | none => exact .noMem (.inr (short _ _ made))
          | some current => exact .entry (right list ⟨state,key,before,given⟩ _ _ made)

end Calls

def inRange (lower upper : Nat) (list : List (Value × Nat)) : List Value :=
  (list.filter fun entry => lower ≤ entry.2 ∧ entry.2 < upper).map Prod.fst

section Range

variable {lower upper : Nat} {add : Nat → Bool}

variable {i : Nat}

lemma rangeLoop_none (failed : rangeLoop lower upper add i current list = none) : ∃ i, add i = false := by
  induction list generalizing i current with
  | nil => cases failed
  | cons item rest ih =>
    rw [rangeLoop] at failed
    split at failed
    · rename_i refused
      exact ⟨i,by simpa using (and_eq_true_iff.mp refused).2⟩
    · dsimp only at failed
      generalize (if lower ≤ i then current ++ [item] else current) = next at failed
      split at failed
      · cases failed
      · exact ih failed

lemma inRange_cons (item : Value) (rest : List Value) (i : Nat) :
    inRange lower upper ((item::rest).zipIdx i) =
      (if lower ≤ i ∧ i < upper then [item] else []) ++ inRange lower upper (rest.zipIdx (i + 1)) := by
  rw [List.zipIdx_cons,inRange,List.filter_cons]
  split <;> rename_i here <;> simp only [decide_eq_true_eq] at here
  · rw [if_pos here]
    rfl
  · rw [if_neg here]
    rfl

lemma inRange_behind (list : List Value) (past : upper ≤ i) : inRange lower upper (list.zipIdx i) = [] := by
  have none_ : (list.zipIdx i).filter (fun entry => lower ≤ entry.2 ∧ entry.2 < upper) = [] := by
    rw [filter_eq_nil_iff]
    intro entry member within
    have behind := List.le_snd_of_mem_zipIdx member
    have inside := (of_decide_eq_true within).2
    omega
  rw [inRange,none_,map_nil]

lemma rangeLoop_some (below : i < upper) (made : rangeLoop lower upper add i current list = some final) :
    final = current ++ inRange lower upper (list.zipIdx i) := by
  induction list generalizing i current with
  | nil =>
    cases made
    simp [inRange]
  | cons item rest ih =>
    have taken : (if lower ≤ i then current ++ [item] else current) = current ++ if lower ≤ i ∧ i < upper then [item] else [] := by
      by_cases from_ : lower ≤ i
      · rw [if_pos from_,if_pos ⟨from_,below⟩]
      · rw [if_neg from_,if_neg fun both => from_ both.1,append_nil]
    rw [rangeLoop] at made
    split at made
    · cases made
    · dsimp only at made
      rw [taken] at made
      rw [inRange_cons,← append_assoc]
      split at made
      · rename_i last
        cases made
        rw [inRange_behind rest last,append_nil]
      · rename_i more
        exact ih (not_le.mp more) made

lemma rangeLoop_zero (made : rangeLoop lower 0 add 0 [] (item::rest) = some final) :
    final = if lower = 0 then [item] else [] := by
  rw [rangeLoop] at made
  split at made
  · cases made
  · dsimp only at made
    rw [if_pos (Nat.zero_le _),some_inj,nil_append] at made
    rw [← made]
    simp only [Nat.le_zero]

end Range

theorem range_projection_iff {σ : Type} (source : Operation σ) (opened : σ) (lower upper : Nat) (lists : OnlyLists source opened) :
    Projects (fun list current => current = inRange lower upper list.zipIdx) source opened (projectRange lower upper source) ↔
      lower ≠ 0 ∨ upper ≠ 0 ∨ ∀ list, Gives source opened list → list = [] := by
  rw [projectRange,projects_iff lists fun _ _ => rangeLoop_none]
  constructor
  · intro right
    by_contra wrong
    simp only [not_or,not_not,not_forall] at wrong
    obtain ⟨rfl,rfl,list,gives,filled⟩ := wrong
    obtain ⟨item,rest,rfl⟩ := exists_cons_of_ne_nil filled
    have made : rangeLoop 0 0 (fun _ => true) 0 [] (item::rest) = some [item] := rfl
    have empty := right _ gives _ _ made
    rw [inRange_behind _ le_rfl] at empty
    cases empty
  · intro condition list gives add current made
    rcases Nat.eq_zero_or_pos upper with rfl | above
    · rw [inRange_behind list le_rfl]
      cases list with
      | nil =>
        cases made
        rfl
      | cons item rest =>
        rw [rangeLoop_zero made,if_neg]
        rcases condition with positive | absurd_ | bare
        · exact positive
        · exact absurd rfl absurd_
        · cases bare _ gives
    · rw [rangeLoop_some above made,nil_append]

def scanList (rows : List KvData) : Operation (List KvData) where
  next := fun
    | [] => (.error .false_,[])
    | row::rest => (.ok row,rest)
  reset _ := (none,rows)

def Remaining (rows state : List KvData) : Prop := state <:+ rows

lemma scanList_reached (reached : Reached (scanList rows).call rows state) : Remaining rows state := by
  have start : Remaining rows rows := List.suffix_refl rows
  apply Machine.reached_invariant start ?_ reached
  intro state call next before moved
  cases Option.some.inj moved
  cases call with
  | reset => exact List.suffix_refl rows
  | next calls =>
    cases state with
    | nil => exact before
    | cons row rest => exact (List.suffix_cons row rest).trans before

lemma scanList_gives (reached : Reached (scanList rows).call rows state)
    (given : ((scanList rows).next state).1 = .ok kvdata) : kvdata ∈ rows := by
  cases state with
  | nil => cases given
  | cons row rest =>
    cases given
    exact List.IsSuffix.subset (scanList_reached reached) mem_cons_self

def oneRow (list : List Value) : List KvData := [⟨[0],some (.list list)⟩]

lemma oneRow_lists (list : List Value) : OnlyLists (scanList (oneRow list)) (oneRow list) := by
  intro state kvdata reached given
  cases mem_singleton.mp (scanList_gives reached given)
  exact ⟨list,rfl⟩

lemma oneRow_gives : Gives (scanList (oneRow list)) (oneRow list) given ↔ given = list := by
  constructor
  · intro gives
    obtain ⟨state,key,reached,next⟩ := gives
    cases mem_singleton.mp (scanList_gives reached next)
    rfl
  · rintro rfl
    exact ⟨_,[0],Machine.Reached.refl _ _,rfl⟩

theorem empty_range_has_item :
    ¬Projects (fun list current => current = inRange 0 0 list.zipIdx) (scanList (oneRow [.int 7])) (oneRow [.int 7])
      (projectRange 0 0 (scanList (oneRow [.int 7]))) := by
  intro projects
  cases (projects _ (Machine.Reached.refl _ _) (.next {})).2 with
  | entry made => cases made

theorem range_of_rows :
    Projects (fun list current => current = inRange 1 3 list.zipIdx) (scanList (oneRow [.int 5,.int 6,.int 7,.int 8]))
      (oneRow [.int 5,.int 6,.int 7,.int 8]) (projectRange 1 3 (scanList (oneRow [.int 5,.int 6,.int 7,.int 8]))) :=
  (range_projection_iff _ _ 1 3 (oneRow_lists _)).mpr (.inl (by decide))

section Indices

variable {add : Nat → Bool}

variable {indices : List Nat} {current list : List Value} {i : Nat}

lemma indicesLoop_none (failed : indicesLoop add i indices current list = none) :
    ∃ i, add i = false := by
  induction list generalizing i indices current with
  | nil => cases indices <;> cases failed
  | cons item rest ih =>
    cases indices with
    | nil => cases failed
    | cons index indices =>
      rw [indicesLoop] at failed
      split at failed
      · split at failed
        · rename_i refused
          exact ⟨i,by simpa using refused⟩
        · exact ih failed
      · exact ih failed

lemma indicesLoop_increasing (increasing : indices.Pairwise (· < ·))
    (inside : ∀ index ∈ indices, i ≤ index ∧ index < i + list.length) (made : indicesLoop add i indices current list = some final) :
    final.map some = current.map some ++ indices.map fun index => list[index - i]? := by
  induction list generalizing i indices current with
  | nil =>
    cases indices with
    | nil =>
      cases made
      simp
    | cons index indices =>
      obtain ⟨low,high⟩ := inside index mem_cons_self
      simp only [length_nil] at high
      omega
  | cons item rest ih =>
    have shift {index : Nat} (behind : i + 1 ≤ index) : (item::rest)[index - i]? = rest[index - (i + 1)]? := by
      obtain ⟨distance,rfl⟩ := Nat.exists_eq_add_of_le behind
      rw [show i + 1 + distance - i = distance + 1 by omega,List.getElem?_cons_succ,Nat.add_sub_cancel_left]
    have shiftAll {others : List Nat} (behind : ∀ index ∈ others, i + 1 ≤ index) :
        others.map (fun index => (item::rest)[index - i]?) = others.map fun index => rest[index - (i + 1)]? :=
      map_congr_left fun index member => shift (behind index member)
    have bound {others : List Nat} (behind : ∀ index ∈ others, i + 1 ≤ index) (small : ∀ index ∈ others, index < i + (item::rest).length) :
        ∀ index ∈ others, i + 1 ≤ index ∧ index < i + 1 + rest.length := by
      intro index member
      have high := small index member
      rw [length_cons] at high
      exact ⟨behind index member,by omega⟩
    cases indices with
    | nil =>
      cases made
      simp
    | cons index indices =>
      obtain ⟨first,later⟩ := pairwise_cons.mp increasing
      obtain ⟨low,_⟩ := inside index mem_cons_self
      have small : ∀ other ∈ indices, other < i + (item::rest).length := fun other member => (inside other (mem_cons_of_mem _ member)).2
      rw [indicesLoop] at made
      split at made
      · rename_i here
        subst here
        split at made
        · cases made
        · have behind : ∀ other ∈ indices, i + 1 ≤ other := fun other member => first other member
          rw [ih later (bound behind small) made,map_cons,shiftAll behind]
          simp
      · rename_i elsewhere
        have behind : ∀ other ∈ index::indices, i + 1 ≤ other := by
          intro other member
          rcases mem_cons.mp member with rfl | member
          · omega
          · exact (Nat.lt_of_le_of_lt (Nat.succ_le_of_lt (Nat.lt_of_le_of_ne low elsewhere)) (first other member)).le
        rw [ih increasing (bound behind fun other member => (inside other member).2) made,shiftAll behind]

lemma indicesLoop_complete (made : indicesLoop add i indices current list = some final) :
    final.length ≤ current.length + indices.length ∧
      (final.length = current.length + indices.length → indices.Pairwise (· < ·) ∧ ∀ index ∈ indices, i ≤ index) := by
  induction list generalizing i indices current with
  | nil =>
    have same : current = final := by cases indices <;> exact Option.some.inj made
    subst same
    refine ⟨Nat.le_add_right _ _,fun whole => ?_⟩
    have bare : indices = [] := List.eq_nil_of_length_eq_zero (by omega)
    subst bare
    exact ⟨List.Pairwise.nil,by simp⟩
  | cons item rest ih =>
    cases indices with
    | nil =>
      cases made
      exact ⟨le_rfl,fun _ => ⟨List.Pairwise.nil,by simp⟩⟩
    | cons index indices =>
      rw [indicesLoop] at made
      split at made
      · rename_i here
        subst here
        split at made
        · cases made
        · obtain ⟨short,whole⟩ := ih made
          simp only [length_append,length_cons,length_nil] at short whole ⊢
          refine ⟨by omega,fun all => ?_⟩
          obtain ⟨increasing,behind⟩ := whole (by omega)
          refine ⟨pairwise_cons.mpr ⟨fun other member => behind other member,increasing⟩,?_⟩
          intro other member
          rcases mem_cons.mp member with rfl | member
          · exact le_rfl
          · exact Nat.le_of_succ_le (behind other member)
      · obtain ⟨short,whole⟩ := ih made
        refine ⟨short,fun all => ?_⟩
        obtain ⟨increasing,behind⟩ := whole all
        exact ⟨increasing,fun other member => Nat.le_of_succ_le (behind other member)⟩

end Indices

theorem indices_projection_iff {σ : Type} (source : Operation σ) (opened : σ) (indices : List Nat) (lists : OnlyLists source opened)
    (inside : ∀ list, Gives source opened list → ∀ index ∈ indices, index < list.length) :
    Projects (fun list current => current.map some = indices.map fun index => list[index]?) source opened (projectByIndices indices source) ↔
      indices.Pairwise (· < ·) ∨ ∀ list, ¬Gives source opened list := by
  rw [projectByIndices,projects_iff lists fun _ _ => indicesLoop_none]
  constructor
  · intro right
    by_cases given : ∃ list, Gives source opened list
    · obtain ⟨list,gives⟩ := given
      cases made : indicesLoop (fun _ => true) 0 indices [] list with
      | none =>
        obtain ⟨_,refused⟩ := indicesLoop_none made
        cases refused
      | some current =>
        have length := congrArg List.length (right list gives _ _ made)
        rw [length_map,length_map] at length
        exact .inl ((indicesLoop_complete made).2 (by rw [length,length_nil,Nat.zero_add])).1
    · exact .inr (not_exists.mp given)
  · intro condition list gives add current made
    rcases condition with increasing | never
    · have within : ∀ index ∈ indices, 0 ≤ index ∧ index < 0 + list.length :=
        fun index member => ⟨Nat.zero_le _,by rw [Nat.zero_add]; exact inside list gives index member⟩
      simpa using indicesLoop_increasing increasing within made
    · exact absurd gives (never list)

theorem swapped_indices_lose_item :
    ¬Projects (fun list current => current.map some = [1,0].map fun index => list[index]?) (scanList (oneRow [.int 7,.int 8])) (oneRow [.int 7,.int 8])
      (projectByIndices [1,0] (scanList (oneRow [.int 7,.int 8]))) := by
  intro projects
  cases (projects _ (Machine.Reached.refl _ _) (.next {})).2 with
  | entry made => cases congrArg List.length made

theorem increasing_indices_of_rows :
    Projects (fun list current => current.map some = [0,2].map fun index => list[index]?) (scanList (oneRow [.int 5,.int 6,.int 7]))
      (oneRow [.int 5,.int 6,.int 7]) (projectByIndices [0,2] (scanList (oneRow [.int 5,.int 6,.int 7]))) := by
  refine (indices_projection_iff _ _ [0,2] (oneRow_lists _) ?_).mpr (.inl (by decide))
  intro list gives index member
  cases oneRow_gives.mp gives
  revert index
  decide

end MedvedDB.Project
