import MedvedDB.TrackerView

namespace MedvedDB.TopologyHistory

open Tracker LinkStates TrackerView

def overwrite {κ α : Type} [DecidableEq κ] (values : κ → α) (writes : List (κ × α)) : κ → α :=
  writes.foldl (fun values write => update values write.1 write.2) values

inductive Call (υ : Type) where
  | register (uuid : υ) (addr : List UInt8)
  | linkstate (one two : υ) (connected : Bool) (weight : UInt32)
  | topodiff (diff : Topology υ)

variable {υ : Type}

-- The addresses and the state changes of links that a call reports.
def addresses : Call υ → List (υ × Option (List UInt8))
  | .register uuid addr => [(uuid,some addr)]
  | .linkstate _ _ _ _ => []
  | .topodiff diff => diff.nodes.map fun node => (node.1,some node.2)

def changes : Call υ → List (Sym2 υ × Option UInt32)
  | .register _ _ => []
  | .linkstate one two connected weight => [(s(one,two),if connected then some weight else none)]
  | .topodiff diff => (joined diff.nodes diff.links).map fun link => (s(link.1.1,link.1.2),some link.2)

variable [LinearOrder υ]

def perform (tracker : State υ) : Call υ → Errno × State υ
  | .register uuid addr => register tracker uuid addr
  | .linkstate one two connected weight => linkstateAdd tracker one two connected weight
  | .topodiff diff => topodiffAdd tracker diff

def run (tracker : State υ) : List (Call υ) → Option (State υ)
  | [] => some tracker
  | call::rest =>
    match perform tracker call with
    | (.ok,after) => run after rest
    | _ => none

structure Recorded (addrOf : υ → Option (List UInt8)) (weightOf : Sym2 υ → Option UInt32) (tracker : State υ) : Prop where
  sound : Sound tracker
  addrs : ∀ uuid, (tracker.nodes uuid).map Node.addr = addrOf uuid
  links : ∀ one two key, keyOf tracker (one,two) = some key → tracker.links key = weightOf s(one,two)
  ends : ∀ one two, (weightOf s(one,two)).isSome → (tracker.nodes one).isSome ∧ (tracker.nodes two).isSome
  keyed : ∀ key, (tracker.links key).isSome → ∃ link, keyOf tracker link = some key

section Steps

variable {tracker after : State υ} {addrOf : υ → Option (List UInt8)} {weightOf : Sym2 υ → Option UInt32}

lemma register_node (sound : Sound tracker) (worked : (register tracker uuid addr).1 = .ok) :
    ∃ id, ∀ other, (register tracker uuid addr).2.nodes other = if other = uuid then some ⟨uuid,id,addr⟩ else tracker.nodes other := by
  cases found : tracker.nodes uuid with
  | some old =>
    by_cases same : addr = old.addr
    · refine ⟨old.id,fun other => ?_⟩
      have shape : (register tracker uuid addr).2 = tracker := by simp [register,found,same]
      rw [shape]
      split
      · rename_i here
        rw [here,found,same,← sound.keyed found]
      · rfl
    · by_cases long : addrLenMax ≤ addr.length
      · simp [register,found,same,nodeInit,long] at worked
      · exact ⟨old.id,fun other => by simp [register,found,same,nodeInit,long,Tracker.insert,nodesStore]⟩
  | none =>
    by_cases long : addrLenMax ≤ addr.length
    · simp [register,found,newId,nodeInit,long] at worked
    · exact ⟨tracker.maxId + 1,fun other => by simp [register,found,newId,nodeInit,long,Tracker.insert,nodesStore]⟩

lemma keyOf_isSome (sound : Sound tracker) (keyed : keyOf tracker link = some key) :
    (tracker.nodes link.1).isSome ∧ (tracker.nodes link.2).isSome := by
  obtain ⟨first,second,isOne,isTwo,_⟩ := (keyOf_some sound).mp keyed
  exact ⟨isSome_of_eq_some isOne,isSome_of_eq_some isTwo⟩

lemma isSome_congr (same : s(one,two) = s(first,second)) (known : (tracker.nodes one).isSome ∧ (tracker.nodes two).isSome) :
    (tracker.nodes first).isSome ∧ (tracker.nodes second).isSome := by
  rcases Sym2.eq_iff.mp same with ⟨rfl,rfl⟩ | ⟨rfl,rfl⟩
  · exact known
  · exact known.symm

lemma Recorded.register (recorded : Recorded addrOf weightOf tracker) (worked : (register tracker uuid addr).1 = .ok)
    (distinct : Distinct (register tracker uuid addr).2) : Recorded (update addrOf uuid (some addr)) weightOf (register tracker uuid addr).2 where
  sound := register_sound recorded.sound uuid addr
  addrs := by
    intro other
    obtain ⟨id,nodes⟩ := register_node recorded.sound worked
    rw [nodes]
    by_cases here : other = uuid
    · rw [here,if_pos rfl,update_self,map_some]
    · rw [if_neg here,update_of_ne here,recorded.addrs]
  links := by
    intro one two key keyed
    rw [register_links]
    by_cases known : (tracker.nodes one).isSome ∧ (tracker.nodes two).isSome
    · obtain ⟨before,is⟩ := keyOf_registered known.1 known.2
      cases (keyOf_register recorded.sound is uuid addr).symm.trans keyed
      exact recorded.links one two key is
    · -- A link of another pair under this key would give two nodes one number.
      have unlinked : weightOf s(one,two) = none := Option.not_isSome_iff_eq_none.mp fun held => known (recorded.ends one two held)
      rw [unlinked]
      refine Option.not_isSome_iff_eq_none.mp fun held => known ?_
      obtain ⟨link,is⟩ := recorded.keyed key held
      have same := keyOf_injective (register_sound recorded.sound uuid addr) distinct (keyOf_register recorded.sound is uuid addr) keyed
      exact isSome_congr same (keyOf_isSome recorded.sound is)
  ends := by
    have kept {other : υ} (found : (tracker.nodes other).isSome) : ((Tracker.register tracker uuid addr).2.nodes other).isSome := by
      obtain ⟨node,is⟩ := isSome_iff_exists.mp found
      obtain ⟨now,later,_⟩ := register_keeps is uuid addr
      exact isSome_of_eq_some later
    intro one two held
    exact ⟨kept (recorded.ends one two held).1,kept (recorded.ends one two held).2⟩
  keyed := by
    intro key held
    rw [register_links] at held
    obtain ⟨link,is⟩ := recorded.keyed key held
    exact ⟨link,keyOf_register recorded.sound is uuid addr⟩

lemma Recorded.linkstate (recorded : Recorded addrOf weightOf tracker) (distinct : Distinct tracker)
    (worked : (linkstateAdd tracker one two connected weight).1 = .ok) :
    Recorded addrOf (update weightOf s(one,two) (if connected then some weight else none)) (linkstateAdd tracker one two connected weight).2 := by
  by_cases found : ∃ key, keyOf tracker (one,two) = some key
  · obtain ⟨key,is⟩ := found
    rw [linkstateAdd_key is]
    have renewed := relink_renewed tracker key (if connected then some weight else none)
    refine ⟨⟨recorded.sound.keyed,recorded.sound.own,recorded.sound.persisted,recorded.sound.loaded⟩,recorded.addrs,?_,?_,?_⟩
    · intro first second other keyed
      rw [renewed.keyOf] at keyed
      by_cases same : other = key
      · subst same
        have pair : s(first,second) = s(one,two) := keyOf_injective recorded.sound distinct keyed is
        rw [relink_self,pair,update_self]
      · have away : s(first,second) ≠ s(one,two) := fun equal => same (Option.some.inj (keyed.symm.trans ((keyOf_congr equal).trans is)))
        rw [relink_other same,update_of_ne away]
        exact recorded.links first second other keyed
    · intro first second held
      by_cases same : s(first,second) = s(one,two)
      · exact isSome_congr same.symm (keyOf_isSome recorded.sound is)
      · rw [update_of_ne same] at held
        exact recorded.ends first second held
    · intro other held
      by_cases same : other = key
      · exact ⟨(one,two),by rw [renewed.keyOf,is,same]⟩
      · rw [relink_other same] at held
        obtain ⟨link,keyed⟩ := recorded.keyed other held
        exact ⟨link,by rw [renewed.keyOf,keyed]⟩
  · rw [linkstateAdd_unkeyed found] at worked
    cases worked

lemma Recorded.registerAll (recorded : Recorded addrOf weightOf tracker) (worked : (registerAll tracker nodes).1 = .ok)
    (distinct : Distinct (registerAll tracker nodes).2) :
    Recorded (overwrite addrOf (nodes.map fun node => (node.1,some node.2))) weightOf (registerAll tracker nodes).2 := by
  induction nodes generalizing tracker addrOf with
  | nil => exact recorded
  | cons head rest ih =>
    rw [registerAll_cons] at worked distinct ⊢
    split at worked
    · rename_i ok
      rw [if_pos ok] at distinct ⊢
      exact ih (recorded.register ok (registerAll_distinct distinct)) worked distinct
    · cases worked

lemma linkstateAdd_nodes (tracker : State υ) (one two : υ) (connected : Bool) (weight : UInt32) :
    (linkstateAdd tracker one two connected weight).2.nodes = tracker.nodes := by
  obtain ⟨links,shape⟩ := linkstateAdd_frame tracker one two connected weight
  rw [shape]

lemma distinct_congr (same : after.nodes = before.nodes) (distinct : Distinct before) : Distinct after := by
  intro one two first second
  rw [same]
  exact distinct

lemma Recorded.linkAll (recorded : Recorded addrOf weightOf tracker) (distinct : Distinct tracker)
    (worked : (linkAll tracker nodes list).1 = .ok) :
    Recorded addrOf (overwrite weightOf ((joined nodes list).map fun link => (s(link.1.1,link.1.2),some link.2))) (linkAll tracker nodes list).2 := by
  induction list generalizing tracker weightOf with
  | nil => exact recorded
  | cons head rest ih =>
    obtain ⟨⟨one,two⟩,weight⟩ := head
    cases foundOne : nodes[one]? with
    | none => simp [Tracker.linkAll,foundOne] at worked
    | some first =>
      cases foundTwo : nodes[two]? with
      | none => simp [Tracker.linkAll,foundOne,foundTwo] at worked
      | some second =>
        rw [linkAll_cons foundOne foundTwo] at worked ⊢
        split at worked
        · rename_i ok
          rw [if_pos ok]
          simp only [joined,foundOne,foundTwo,map_cons]
          exact ih (recorded.linkstate distinct ok) (distinct_congr (linkstateAdd_nodes _ _ _ _ _) distinct) worked
        · cases worked

lemma linkAll_nodes (tracker : State υ) (nodes : List (υ × List UInt8)) (list : List ((Nat × Nat) × UInt32)) : (linkAll tracker nodes list).2.nodes = tracker.nodes := by
  obtain ⟨links,shape⟩ := linkAll_frame tracker nodes list
  rw [shape]

lemma Recorded.perform (recorded : Recorded addrOf weightOf tracker) (worked : (perform tracker call).1 = .ok)
    (distinct : Distinct (perform tracker call).2) :
    Recorded (overwrite addrOf (addresses call)) (overwrite weightOf (changes call)) (perform tracker call).2 := by
  cases call with
  | register uuid addr => exact recorded.register worked distinct
  | linkstate one two connected weight => exact recorded.linkstate (distinct_congr (linkstateAdd_nodes _ _ _ _ _).symm distinct) worked
  | topodiff diff =>
    simp only [TopologyHistory.perform,topodiffAdd_eq] at worked distinct ⊢
    split at worked
    · rename_i ok
      rw [if_pos ok] at distinct ⊢
      have before : Distinct (Tracker.registerAll tracker diff.nodes).2 := distinct_congr (linkAll_nodes _ _ _).symm distinct
      exact (recorded.registerAll ok before).linkAll before worked
    · cases worked

lemma perform_distinct (distinct : Distinct (perform tracker call).2) : Distinct tracker := by
  intro one two first second
  cases call with
  | register uuid addr =>
    have alone : (registerAll tracker [(uuid,addr)]).2 = (register tracker uuid addr).2 := by
      rw [registerAll_cons]
      split
      · rfl
      · rfl
    exact registerAll_distinct (distinct_congr (congrArg State.nodes alone) distinct)
  | linkstate left right connected weight => exact distinct_congr (linkstateAdd_nodes _ _ _ _ _).symm distinct
  | topodiff diff =>
    obtain ⟨links,shape⟩ := topodiffAdd_frame tracker diff
    have nodes : (topodiffAdd tracker diff).2.nodes = (registerAll tracker diff.nodes).2.nodes := by rw [shape]
    exact registerAll_distinct (distinct_congr nodes.symm distinct)

lemma run_distinct (ran : run tracker calls = some after) (distinct : Distinct after) : Distinct tracker := by
  induction calls generalizing tracker with
  | nil =>
    cases ran
    intro one two first second
    exact distinct
  | cons call rest ih =>
    rw [run] at ran
    split at ran
    · rename_i middle performed
      have same : (TopologyHistory.perform tracker call).2.nodes = middle.nodes := by rw [performed]
      intro one two first second
      exact perform_distinct (distinct_congr same (ih ran))
    · cases ran

lemma Recorded.run (recorded : Recorded addrOf weightOf tracker) (ran : run tracker calls = some after) (distinct : Distinct after) :
    Recorded (overwrite addrOf (calls.flatMap addresses)) (overwrite weightOf (calls.flatMap changes)) after := by
  induction calls generalizing tracker addrOf weightOf with
  | nil =>
    cases ran
    exact recorded
  | cons call rest ih =>
    rw [TopologyHistory.run] at ran
    split at ran
    · rename_i middle performed
      have made : (TopologyHistory.perform tracker call).2 = middle := by rw [performed]
      have worked : (TopologyHistory.perform tracker call).1 = .ok := by rw [performed]
      have now := recorded.perform worked (made ▸ run_distinct ran distinct)
      rw [made] at now
      simp only [flatMap_cons,overwrite,foldl_append]
      exact ih now ran
    · cases ran

variable {uuid : υ} {storage : KeyMap υ (UInt32 × List UInt8)} {listen : List UInt8}

lemma loadable_of_distinct (created : create uuid storage listen = some tracker)
    (own : ∀ id addr, storage.find uuid = some (id,addr) → id = localId) (distinct : Distinct tracker) : Loadable uuid storage := by
  have stored {other : υ} {id : UInt32} {addr : List UInt8} (found : storage.find other = some (id,addr)) : tracker.nodes other = some ⟨other,id,addr⟩ := by
    rw [create_nodes created,found]
  have self : ∃ node, tracker.nodes uuid = some node ∧ node.id = localId := by
    rw [create_nodes created]
    cases found : storage.find uuid with
    | none => exact ⟨_,if_pos rfl,rfl⟩
    | some record => exact ⟨_,rfl,own record.1 record.2 found⟩
  obtain ⟨node,is,number⟩ := self
  constructor
  · intro one two id first second foundOne foundTwo
    exact distinct (stored foundOne) (stored foundTwo) rfl
  · intro other id addr found
    constructor
    · rintro rfl
      exact own id addr found
    · intro same
      exact distinct (stored found) is (same.trans number.symm)

lemma create_recorded (loadable : Loadable uuid storage)
    (created : create uuid storage listen = some tracker) : Recorded (fun other => (tracker.nodes other).map Node.addr) (fun _ => none) tracker where
  sound := create_sound loadable created
  addrs := fun _ => rfl
  links := by
    intro one two key _
    rw [create_links created]
  ends := fun _ _ held => nomatch held
  keyed := by
    intro key held
    rw [create_links created] at held
    cases held

end Steps

end MedvedDB.TopologyHistory
