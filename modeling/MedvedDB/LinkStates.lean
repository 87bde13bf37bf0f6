import MedvedDB.Machine
import MedvedDB.Tracker

namespace MedvedDB.LinkStates

open Tracker

section Writes

variable {α μ : Type}

-- What messages leave in a cell that some of them write.
def written (effect : μ → Option α) (value : α) (messages : List μ) : α :=
  messages.foldl (fun now message => (effect message).getD now) value

lemma written_append (effect : μ → Option α) (value : α) (messages more : List μ) :
    written effect value (messages ++ more) = written effect (written effect value messages) more := foldl_append

lemma written_last {effect : μ → Option α} (writes : effect message = some last) (value : α) (messages : List μ) :
    written effect value (messages ++ [message]) = last := by
  rw [written_append]
  simp [written,writes]

lemma written_cases (effect : μ → Option α) (value : α) (messages : List μ) :
    ((∀ message ∈ messages, effect message = none) ∧ written effect value messages = value) ∨
      ∃ message ∈ messages, effect message = some (written effect value messages) := by
  induction messages using reverseRecOn with
  | nil => exact .inl ⟨fun _ absent => absurd absent not_mem_nil,rfl⟩
  | append_singleton messages last ih =>
    cases writes : effect last with
    | some now =>
      refine .inr ⟨last,mem_append_right _ mem_cons_self,?_⟩
      rw [written_last writes,writes]
    | none =>
      have same : written effect value (messages ++ [last]) = written effect value messages := by
        rw [written_append]
        simp [written,writes]
      rw [same]
      rcases ih with ⟨nobody,first⟩ | ⟨message,member,is⟩
      · refine .inl ⟨?_,first⟩
        intro message member
        rcases mem_append.mp member with earlier | now
        · exact nobody message earlier
        · rw [mem_singleton.mp now,writes]
      · exact .inr ⟨message,mem_append_left _ member,is⟩

lemma perm_last (member : message ∈ messages) :
    ∃ others, (others ++ [message]).Perm messages := by
  obtain ⟨before,after,rfl⟩ := append_of_mem member
  refine ⟨before ++ after,?_⟩
  rw [append_assoc]
  exact (List.perm_append_singleton message after).append_left before

lemma written_agrees_iff (effect : μ → Option α) (value : α) (messages : List μ) :
    (∀ one two, one.Perm messages → two.Perm messages → written effect value one = written effect value two) ↔
      ∀ one ∈ messages, ∀ two ∈ messages, ∀ first second, effect one = some first → effect two = some second → first = second := by
  constructor
  · intro agree one memberOne two memberTwo first second writesOne writesTwo
    obtain ⟨others,orderOne⟩ := perm_last memberOne
    obtain ⟨more,orderTwo⟩ := perm_last memberTwo
    have same := agree _ _ orderOne orderTwo
    rwa [written_last writesOne,written_last writesTwo] at same
  · intro alike one two orderOne orderTwo
    rcases written_cases effect value one with ⟨nobody,first⟩ | ⟨message,member,is⟩
    · rcases written_cases effect value two with ⟨_,second⟩ | ⟨other,among,writes⟩
      · rw [first,second]
      · rw [nobody other (orderOne.mem_iff.mpr (orderTwo.mem_iff.mp among))] at writes
        cases writes
    · rcases written_cases effect value two with ⟨nobody,_⟩ | ⟨other,among,writes⟩
      · rw [nobody message (orderTwo.mem_iff.mpr (orderOne.mem_iff.mp member))] at is
        cases is
      · exact alike message (orderOne.mem_iff.mp member) other (orderTwo.mem_iff.mp among) _ _ is writes

end Writes

inductive Message (υ : Type) where
  | topodiff (diff : Topology υ)
  | linkstate (src dst : υ) (connected : Bool)

variable {υ : Type}

-- The links of a difference up to the first one that has no node.
def joined (nodes : List (υ × List UInt8)) : List ((Nat × Nat) × UInt32) → List ((υ × υ) × UInt32)
  | [] => []
  | ((one,two),weight)::rest =>
    match nodes[one]?,nodes[two]? with
    | some first,some second => ((first.1,second.1),weight)::joined nodes rest
    | _,_ => []

def fits (node : υ × List UInt8) : Bool := node.2.length < addrLenMax

-- A difference with an address that is too long adds no link at all.
def connects : Message υ → List (υ × υ)
  | .topodiff diff => if diff.nodes.all fits then (joined diff.nodes diff.links).map Prod.fst else []
  | .linkstate src dst connected => if connected then [(src,dst)] else []

def disconnects : Message υ → List (υ × υ)
  | .topodiff _ => []
  | .linkstate src dst connected => if connected then [] else [(src,dst)]

def named : Message υ → List υ
  | .topodiff diff => diff.nodes.map Prod.fst
  | .linkstate src dst _ => [src,dst]

lemma joined_named (member : link ∈ joined nodes links) :
    link.1.1 ∈ nodes.map Prod.fst ∧ link.1.2 ∈ nodes.map Prod.fst := by
  induction links with
  | nil => cases member
  | cons head rest ih =>
    unfold joined at member
    split at member
    · rename_i first second foundOne foundTwo
      rcases mem_cons.mp member with rfl | later
      · exact ⟨mem_map_of_mem (mem_of_getElem? foundOne),mem_map_of_mem (mem_of_getElem? foundTwo)⟩
      · exact ih later
    · cases member

lemma connects_named (member : link ∈ connects message) : link.1 ∈ named message ∧ link.2 ∈ named message := by
  cases message with
  | topodiff diff =>
    simp only [connects] at member
    split at member
    · obtain ⟨held,among,rfl⟩ := mem_map.mp member
      exact joined_named among
    · cases member
  | linkstate src dst connected =>
    cases connected with
    | true =>
      obtain rfl := mem_singleton.mp member
      exact ⟨mem_cons_self,mem_cons_of_mem _ mem_cons_self⟩
    | false => cases member

lemma connects_or_disconnects (message : Message υ) : connects message = [] ∨ disconnects message = [] := by
  cases message with
  | topodiff diff => exact .inr rfl
  | linkstate src dst connected =>
    cases connected with
    | true => exact .inr rfl
    | false => exact .inl rfl

variable [LinearOrder υ]

-- What mdv_tracker_evt_broadcast does to the tracker, and whether it reports a
-- changed topology.
def evtBroadcast (tracker : State υ) : Message υ → Bool × State υ
  | .topodiff diff =>
    let (err,tracker) := topodiffAdd tracker diff
    (err = .ok,tracker)
  | .linkstate src dst connected =>
    let (err,tracker) := linkstateAdd tracker src dst connected 1
    (err = .ok,tracker)

def evtBroadcasts (tracker : State υ) (messages : List (Message υ)) : State υ :=
  messages.foldl (fun tracker message => (evtBroadcast tracker message).2) tracker

def keyOf (tracker : State υ) (link : υ × υ) : Option (UInt32 × UInt32) :=
  match nodeIdentifier tracker link.1,nodeIdentifier tracker link.2 with
  | some first,some second => some (linkKey (first,second))
  | _,_ => none

def links (tracker : State υ) : Set (Sym2 υ) :=
  {pair | ∃ one two key weight, pair = s(one,two) ∧ keyOf tracker (one,two) = some key ∧ tracker.links key = some weight}

def effect (tracker : State υ) (key : UInt32 × UInt32) (message : Message υ) : Option Bool :=
  if ∃ link ∈ connects message, keyOf tracker link = some key then some true
  else if ∃ link ∈ disconnects message, keyOf tracker link = some key then some false
  else none

def Short (tracker : State υ) : Prop := ∀ uuid node, tracker.nodes uuid = some node → node.addr.length < addrLenMax

structure Renewed (before after : State υ) : Prop where
  uuid : after.uuid = before.uuid
  numbers : ∀ uuid, (after.nodes uuid).map Node.id = (before.nodes uuid).map Node.id
  short : Short before → Short after

lemma Renewed.refl (tracker : State υ) : Renewed tracker tracker := ⟨rfl,fun _ => rfl,id⟩

variable {message : Message υ} {after before tracker : State υ} {key : UInt32 × UInt32} {one two uuid : υ}

lemma Renewed.trans (first : Renewed before middle) (second : Renewed middle after) : Renewed before after :=
  ⟨second.uuid.trans first.uuid,fun uuid => (second.numbers uuid).trans (first.numbers uuid),second.short ∘ first.short⟩

lemma Renewed.identifier (renewed : Renewed before after) (peer : υ) :
    nodeIdentifier after peer = nodeIdentifier before peer := by
  rw [nodeIdentifier,nodeIdentifier,renewed.uuid]
  split
  · rfl
  · exact renewed.numbers peer

lemma Renewed.keyOf (renewed : Renewed before after) (link : υ × υ) :
    keyOf after link = keyOf before link := by
  rw [LinkStates.keyOf,LinkStates.keyOf,renewed.identifier,renewed.identifier]

lemma Renewed.registered (renewed : Renewed before after) (found : (before.nodes uuid).isSome) :
    (after.nodes uuid).isSome := by
  have same := congrArg Option.isSome (renewed.numbers uuid)
  rw [isSome_map,isSome_map] at same
  exact same.trans found

lemma register_again (short : Short tracker) (found : (tracker.nodes uuid).isSome) (addr : List UInt8) :
    ((register tracker uuid addr).1 = .ok ↔ addr.length < addrLenMax) ∧
      Renewed tracker (register tracker uuid addr).2 ∧ (register tracker uuid addr).2.links = tracker.links := by
  obtain ⟨node,is⟩ := isSome_iff_exists.mp found
  by_cases same : addr = node.addr
  · have unchanged : register tracker uuid addr = (.ok,tracker) := by simp [register,is,same]
    rw [unchanged]
    refine ⟨iff_of_true rfl ?_,Renewed.refl tracker,rfl⟩
    rw [same]
    exact short uuid node is
  · by_cases fit : addr.length < addrLenMax
    · have changed : register tracker uuid addr =
          (.ok,Tracker.insert (nodesStore tracker ⟨uuid,node.id,addr⟩) ⟨uuid,node.id,addr⟩) := by
        simp [register,is,same,nodeInit,not_le.mpr fit]
      rw [changed]
      refine ⟨iff_of_true rfl fit,⟨rfl,?_,?_⟩,rfl⟩
      · intro other
        by_cases here : other = uuid
        · simp [Tracker.insert,here,is]
        · simp [Tracker.insert,nodesStore,here]
      · intro _ other entry held
        simp only [Tracker.insert,nodesStore] at held
        split at held
        · cases held
          exact fit
        · exact short other entry held
    · have refused : register tracker uuid addr = (.failed,tracker) := by
        simp [register,is,same,nodeInit,not_lt.mp fit]
      rw [refused]
      exact ⟨iff_of_false Errno.noConfusion fit,Renewed.refl tracker,rfl⟩

lemma registerAll_again (nodes : List (υ × List UInt8)) (short : Short tracker)
    (found : ∀ uuid ∈ nodes.map Prod.fst, (tracker.nodes uuid).isSome) :
    ((registerAll tracker nodes).1 = .ok ↔ nodes.all fits) ∧
      Renewed tracker (registerAll tracker nodes).2 ∧ (registerAll tracker nodes).2.links = tracker.links := by
  induction nodes generalizing tracker with
  | nil => exact ⟨iff_of_true rfl rfl,Renewed.refl tracker,rfl⟩
  | cons head rest ih =>
    obtain ⟨uuid,addr⟩ := head
    obtain ⟨worked,renewed,same⟩ := register_again short (found uuid mem_cons_self) addr
    rw [registerAll_cons]
    split
    · rename_i ok
      have fit : fits (uuid,addr) = true := decide_eq_true (worked.mp ok)
      obtain ⟨all,later,still⟩ := ih (renewed.short short) fun other member =>
        renewed.registered (found other (mem_cons_of_mem _ member))
      refine ⟨?_,renewed.trans later,still.trans same⟩
      rw [all,all_cons,fit,Bool.true_and]
    · rename_i failed
      have long : fits (uuid,addr) = false := decide_eq_false fun fit => failed (worked.mpr fit)
      refine ⟨iff_of_false Errno.noConfusion ?_,renewed,same⟩
      rw [all_cons,long,Bool.false_and]
      exact false_ne_true

def relink (tracker : State υ) (key : UInt32 × UInt32) (value : Option UInt32) : State υ :=
  {tracker with links:=fun other => if other = key then value else tracker.links other}

lemma relink_self (tracker : State υ) (key : UInt32 × UInt32) (value : Option UInt32) : (relink tracker key value).links key = value := if_pos rfl

lemma relink_other (away : other ≠ key) (value : Option UInt32) :
    (relink tracker key value).links other = tracker.links other := if_neg away

lemma relink_renewed (tracker : State υ) (key : UInt32 × UInt32) (value : Option UInt32) : Renewed tracker (relink tracker key value) :=
  ⟨rfl,fun _ => rfl,id⟩

lemma linkstateAdd_key (is : keyOf tracker (one,two) = some key)
    (connected : Bool) (weight : UInt32) :
    linkstateAdd tracker one two connected weight = (.ok,relink tracker key (if connected then some weight else none)) := by
  unfold keyOf at is
  split at is
  · rename_i first second foundOne foundTwo
    cases is
    dsimp only at foundOne foundTwo
    simp only [linkstateAdd,foundOne,foundTwo]
    rfl
  · cases is

lemma keyOf_registered (foundOne : (tracker.nodes one).isSome) (foundTwo : (tracker.nodes two).isSome) :
    ∃ key, keyOf tracker (one,two) = some key := by
  have numbered {uuid : υ} (found : (tracker.nodes uuid).isSome) : ∃ id, nodeIdentifier tracker uuid = some id := by
    obtain ⟨node,is⟩ := isSome_iff_exists.mp found
    unfold nodeIdentifier
    split
    · exact ⟨_,rfl⟩
    · exact ⟨node.id,by rw [is,map_some]⟩
  obtain ⟨first,isOne⟩ := numbered foundOne
  obtain ⟨second,isTwo⟩ := numbered foundTwo
  refine ⟨linkKey (first,second),?_⟩
  simp only [keyOf,isOne,isTwo]

lemma linkAll_cons {nodes : List (υ × List UInt8)} {one two : Nat} {first second : υ × List UInt8}
    (foundOne : nodes[one]? = some first) (foundTwo : nodes[two]? = some second) (weight : UInt32) (rest : List ((Nat × Nat) × UInt32)) :
    linkAll tracker nodes (((one,two),weight)::rest) =
      if (linkstateAdd tracker first.1 second.1 true weight).1 = .ok then linkAll (linkstateAdd tracker first.1 second.1 true weight).2 nodes rest
      else (.failed,(linkstateAdd tracker first.1 second.1 true weight).2) := by
  rw [linkAll,foundOne,foundTwo]
  dsimp only
  cases linkstateAdd tracker first.1 second.1 true weight with
  | mk err after => cases err <;> simp

lemma topodiffAdd_eq (tracker : State υ) (diff : Topology υ) :
    topodiffAdd tracker diff = if (registerAll tracker diff.nodes).1 = .ok then linkAll (registerAll tracker diff.nodes).2 diff.nodes diff.links
      else (.failed,(registerAll tracker diff.nodes).2) := by
  unfold topodiffAdd
  cases registerAll tracker diff.nodes with
  | mk err after => cases err <;> simp

lemma linkAll_presence {nodes : List (υ × List UInt8)} (list : List ((Nat × Nat) × UInt32))
    (found : ∀ uuid ∈ nodes.map Prod.fst, (tracker.nodes uuid).isSome) :
    Renewed tracker (linkAll tracker nodes list).2 ∧ ∀ key, ((linkAll tracker nodes list).2.links key).isSome ↔
      (∃ link ∈ (joined nodes list).map Prod.fst, keyOf tracker link = some key) ∨ (tracker.links key).isSome := by
  induction list generalizing tracker with
  | nil => exact ⟨Renewed.refl tracker,fun key => by simp [linkAll,joined]⟩
  | cons head rest ih =>
    obtain ⟨⟨one,two⟩,weight⟩ := head
    cases foundOne : nodes[one]? with
    | none => exact ⟨by simpa [linkAll,foundOne] using Renewed.refl tracker,fun key => by simp [linkAll,joined,foundOne]⟩
    | some first =>
      cases foundTwo : nodes[two]? with
      | none => exact ⟨by simpa [linkAll,foundOne,foundTwo] using Renewed.refl tracker,fun key => by simp [linkAll,joined,foundOne,foundTwo]⟩
      | some second =>
        obtain ⟨mine,is⟩ := keyOf_registered (found first.1 (mem_map_of_mem (mem_of_getElem? foundOne)))
          (found second.1 (mem_map_of_mem (mem_of_getElem? foundTwo)))
        have here := relink_renewed tracker mine (some weight)
        have kept : ∀ uuid ∈ nodes.map Prod.fst, ((relink tracker mine (some weight)).nodes uuid).isSome := found
        obtain ⟨renewed,presence⟩ := ih kept
        have added : linkAll tracker nodes (((one,two),weight)::rest) = linkAll (relink tracker mine (some weight)) nodes rest := by
          rw [linkAll_cons foundOne foundTwo,linkstateAdd_key is]
          rfl
        have more : joined nodes (((one,two),weight)::rest) = ((first.1,second.1),weight)::joined nodes rest := by
          simp only [joined,foundOne,foundTwo]
        rw [added,more]
        refine ⟨here.trans renewed,?_⟩
        intro key
        have now : ((relink tracker mine (some weight)).links key).isSome ↔ some mine = some key ∨ (tracker.links key).isSome := by
          by_cases same : key = mine
          · simp [same,relink_self]
          · simp [relink_other same,Ne.symm same]
        simp only [presence key,here.keyOf,now,map_cons,mem_cons,exists_eq_or_imp,is]
        exact or_left_comm.trans or_assoc.symm

lemma evtBroadcast_effect (short : Short tracker)
    (found : ∀ uuid ∈ named message, (tracker.nodes uuid).isSome) :
    Renewed tracker (evtBroadcast tracker message).2 ∧ ∀ key, ((evtBroadcast tracker message).2.links key).isSome =
      (effect tracker key message).getD (tracker.links key).isSome := by
  cases message with
  | topodiff diff =>
    obtain ⟨worked,renewed,same⟩ := registerAll_again diff.nodes short found
    have shape : (evtBroadcast tracker (.topodiff diff)).2 = (topodiffAdd tracker diff).2 := rfl
    rw [shape,topodiffAdd_eq]
    by_cases fine : diff.nodes.all fits = true
    · rw [if_pos (worked.mpr fine)]
      obtain ⟨later,presence⟩ := linkAll_presence diff.links fun uuid member => renewed.registered (found uuid member)
      refine ⟨renewed.trans later,?_⟩
      intro key
      rw [Bool.eq_iff_iff,presence key]
      simp only [renewed.keyOf,same,effect,connects,fine,if_true,disconnects]
      split
      · rename_i named
        exact iff_of_true (.inl named) rfl
      · rename_i other
        simp only [not_mem_nil,false_and,exists_false,if_false,getD_none]
        exact or_iff_right other
    · rw [if_neg fun ok => fine (worked.mp ok)]
      refine ⟨renewed,?_⟩
      intro key
      simp [same,effect,connects,fine,disconnects]
  | linkstate src dst connected =>
    obtain ⟨mine,is⟩ := keyOf_registered (found src mem_cons_self) (found dst (mem_cons_of_mem _ mem_cons_self))
    rw [evtBroadcast,linkstateAdd_key is]
    refine ⟨relink_renewed _ _ _,?_⟩
    intro key
    by_cases same : key = mine
    · subst same
      cases connected with
      | true => simp [relink,effect,connects,is]
      | false => simp [relink,effect,connects,disconnects,is]
    · cases connected with
      | true => simp [relink,effect,connects,disconnects,is,same,Ne.symm same]
      | false => simp [relink,effect,connects,disconnects,is,same,Ne.symm same]

def Registered (tracker : State υ) (messages : List (Message υ)) : Prop :=
  ∀ message ∈ messages, ∀ uuid ∈ named message, (tracker.nodes uuid).isSome

lemma Renewed.effect (renewed : Renewed before after) (key : UInt32 × UInt32) :
    effect after key = effect before key := by
  funext message
  simp only [LinkStates.effect,renewed.keyOf]

lemma evtBroadcasts_written (messages : List (Message υ)) (short : Short tracker) (found : Registered tracker messages) :
    Renewed tracker (evtBroadcasts tracker messages) ∧ ∀ key, ((evtBroadcasts tracker messages).links key).isSome =
      written (effect tracker key) (tracker.links key).isSome messages := by
  induction messages generalizing tracker with
  | nil => exact ⟨Renewed.refl tracker,fun key => rfl⟩
  | cons message rest ih =>
    obtain ⟨renewed,now⟩ := evtBroadcast_effect short (found message mem_cons_self)
    obtain ⟨later,presence⟩ := ih (renewed.short short) fun other member uuid name =>
      renewed.registered (found other (mem_cons_of_mem _ member) uuid name)
    refine ⟨renewed.trans later,?_⟩
    intro key
    have rest := presence key
    rw [now key,renewed.effect] at rest
    exact rest

lemma linkKey_comm (one two : UInt32) : linkKey (one,two) = linkKey (two,one) := by
  unfold linkKey
  dsimp only
  split
  · rename_i below
    rw [if_neg (UInt32.lt_asymm below)]
  · rename_i above
    split
    · rfl
    · rename_i below
      rw [UInt32.le_antisymm (UInt32.not_lt.mp above) (UInt32.not_lt.mp below)]

lemma keyOf_comm (tracker : State υ) (one two : υ) : keyOf tracker (one,two) = keyOf tracker (two,one) := by
  unfold keyOf
  cases nodeIdentifier tracker one <;> cases nodeIdentifier tracker two <;> simp [linkKey_comm]

lemma keyOf_congr {one two : υ × υ} (same : s(one.1,one.2) = s(two.1,two.2)) : keyOf tracker one = keyOf tracker two := by
  rcases Sym2.eq_iff.mp same with ⟨left,right⟩ | ⟨left,right⟩
  · exact congrArg _ (Prod.ext left right)
  · have swapped : one = (two.2,two.1) := Prod.ext left right
    rw [swapped]
    exact keyOf_comm tracker two.2 two.1

lemma mem_links :
    s(one,two) ∈ links tracker ↔ ∃ key, keyOf tracker (one,two) = some key ∧ (tracker.links key).isSome := by
  constructor
  · intro found
    obtain ⟨first,second,key,weight,same,is,held⟩ := found
    exact ⟨key,(keyOf_congr same).trans is,isSome_of_eq_some held⟩
  · intro found
    obtain ⟨key,is,held⟩ := found
    obtain ⟨weight,value⟩ := isSome_iff_exists.mp held
    exact ⟨one,two,key,weight,rfl,is,value⟩

lemma links_eq_iff {one two : State υ} (left : Renewed tracker one) (right : Renewed tracker two) :
    links one = links two ↔ ∀ link key, keyOf tracker link = some key → (one.links key).isSome = (two.links key).isSome := by
  rw [Set.ext_iff,Sym2.forall]
  simp only [mem_links,left.keyOf,right.keyOf]
  constructor
  · intro same link key is
    have here := same link.1 link.2
    simp only [is,some_inj,exists_eq_left'] at here
    exact Bool.eq_iff_iff.mpr here
  · intro same first second
    refine exists_congr fun key => and_congr_right fun is => ?_
    rw [same _ key is]

-- Some link is connected by one message and disconnected by another.
def Contrary (tracker : State υ) (messages : List (Message υ)) : Prop :=
  ∃ one ∈ messages, ∃ two ∈ messages, ∃ link ∈ connects one, ∃ other ∈ disconnects two, keyOf tracker link = keyOf tracker other

lemma effect_true_iff :
    effect tracker key message = some true ↔ ∃ link ∈ connects message, keyOf tracker link = some key := by
  unfold effect
  split
  · rename_i found
    exact iff_of_true rfl found
  · rename_i absent
    refine iff_of_false ?_ absent
    split <;> simp

lemma effect_false_iff :
    effect tracker key message = some false ↔ ∃ link ∈ disconnects message, keyOf tracker link = some key := by
  unfold effect
  split
  · rename_i found
    obtain ⟨link,member,_⟩ := found
    refine iff_of_false (by simp) ?_
    intro other
    obtain ⟨gone,among,_⟩ := other
    rcases connects_or_disconnects message with nothing | nothing
    · rw [nothing] at member
      cases member
    · rw [nothing] at among
      cases among
  · split
    · rename_i found
      exact iff_of_true rfl found
    · rename_i absent
      exact iff_of_false (by simp) absent

lemma contrary_iff (registered : Registered tracker messages) :
    Contrary tracker messages ↔ ∃ link key, keyOf tracker link = some key ∧ ∃ one ∈ messages, ∃ two ∈ messages,
      effect tracker key one = some true ∧ effect tracker key two = some false := by
  constructor
  · intro contrary
    obtain ⟨one,memberOne,two,memberTwo,link,connected,other,gone,same⟩ := contrary
    obtain ⟨left,right⟩ := connects_named connected
    obtain ⟨key,is⟩ := keyOf_registered (registered one memberOne _ left) (registered one memberOne _ right)
    exact ⟨link,key,is,one,memberOne,two,memberTwo,effect_true_iff.mpr ⟨link,connected,is⟩,effect_false_iff.mpr ⟨other,gone,same.symm.trans is⟩⟩
  · intro both
    obtain ⟨_,key,_,one,memberOne,two,memberTwo,adds,drops⟩ := both
    obtain ⟨link,connected,is⟩ := effect_true_iff.mp adds
    obtain ⟨other,gone,same⟩ := effect_false_iff.mp drops
    exact ⟨one,memberOne,two,memberTwo,link,connected,other,gone,is.trans same.symm⟩

theorem convergence_iff {tracker : State υ} {messages : List (Message υ)} (short : Short tracker) (registered : Registered tracker messages) :
    (∀ one two, one.Perm messages → two.Perm messages → links (evtBroadcasts tracker one) = links (evtBroadcasts tracker two)) ↔
      ¬ Contrary tracker messages := by
  have outcome (order : List (Message υ)) (is : order.Perm messages) := evtBroadcasts_written order short
    fun message member => registered message (is.mem_iff.mp member)
  have cells (one two : List (Message υ)) (first : one.Perm messages) (second : two.Perm messages) :
      links (evtBroadcasts tracker one) = links (evtBroadcasts tracker two) ↔ ∀ link key, keyOf tracker link = some key →
        written (effect tracker key) (tracker.links key).isSome one = written (effect tracker key) (tracker.links key).isSome two := by
    rw [links_eq_iff (outcome one first).1 (outcome two second).1]
    simp only [(outcome one first).2,(outcome two second).2]
  rw [contrary_iff registered]
  constructor
  · intro agree both
    obtain ⟨link,key,is,one,memberOne,two,memberTwo,adds,drops⟩ := both
    have alike := (written_agrees_iff (effect tracker key) (tracker.links key).isSome messages).mp fun first second orderOne orderTwo =>
      (cells first second orderOne orderTwo).mp (agree first second orderOne orderTwo) link key is
    exact Bool.noConfusion (alike one memberOne two memberTwo true false adds drops)
  · intro apart one two orderOne orderTwo
    refine (cells one two orderOne orderTwo).mpr fun link key is => ?_
    refine (written_agrees_iff (effect tracker key) (tracker.links key).isSome messages).mpr ?_ one two orderOne orderTwo
    intro first memberFirst second memberSecond before after writesFirst writesSecond
    cases before <;> cases after
    · rfl
    · exact absurd ⟨link,key,is,second,memberSecond,first,memberFirst,writesSecond,writesFirst⟩ apart
    · exact absurd ⟨link,key,is,first,memberFirst,second,memberSecond,writesFirst,writesSecond⟩ apart
    · rfl

-- Stored addresses are never too long: a node is built with a checked address.
structure Fitting (tracker : State υ) : Prop where
  short : Short tracker
  stored : ∀ uuid id addr, tracker.storage.find uuid = some (id,addr) → addr.length < addrLenMax

lemma store_fitting (fitting : Fitting tracker) (fit : node.addr.length < addrLenMax) :
    Fitting (Tracker.insert (nodesStore tracker node) node) := by
  refine ⟨?_,?_⟩
  · intro uuid entry held
    simp only [Tracker.insert,nodesStore] at held
    split at held
    · cases held
      exact fit
    · exact fitting.short uuid entry held
  · intro uuid id addr held
    simp only [Tracker.insert,nodesStore,KeyMap.find_insert] at held
    split at held
    · cases held
      exact fit
    · exact fitting.stored uuid id addr held

lemma register_long (uuid : υ) (long : ¬ addr.length < addrLenMax) :
    ∃ id, (register tracker uuid addr).2 = {tracker with maxId:=id} := by
  have refused := not_lt.mp long
  cases found : tracker.nodes uuid with
  | none => exact ⟨tracker.maxId + 1,by simp [register,found,newId,nodeInit,refused]⟩
  | some node =>
    refine ⟨tracker.maxId,?_⟩
    by_cases same : addr = node.addr
    · simp [register,found,same]
    · simp [register,found,same,nodeInit,refused]

lemma register_fitting (fitting : Fitting tracker) (uuid : υ) (addr : List UInt8) :
    Fitting (register tracker uuid addr).2 := by
  by_cases fit : addr.length < addrLenMax
  · rcases register_cases tracker uuid addr with ⟨id,shape,_⟩ | ⟨old,_,shape⟩ | ⟨_,_,shape⟩
    · rw [shape]
      exact ⟨fitting.short,fitting.stored⟩
    · rw [shape]
      exact store_fitting fitting fit
    · have counted : Fitting {tracker with maxId:=tracker.maxId + 1} := ⟨fitting.short,fitting.stored⟩
      rw [shape]
      exact store_fitting counted fit
  · obtain ⟨id,shape⟩ := register_long uuid fit
    rw [shape]
    exact ⟨fitting.short,fitting.stored⟩

def threeNodes : State Nat :=
  (register (register ⟨7,0,fun uuid => if uuid = 7 then some ⟨7,0,[55]⟩ else none,fun id => if id = 0 then some ⟨7,0,[55]⟩ else none,
    fun _ => none,.empty⟩ 1 [49]).2 2 [50]).2

lemma threeNodes_short : Short threeNodes := by
  refine (register_fitting (register_fitting ⟨?_,?_⟩ 1 [49]) 2 [50]).short
  · intro uuid node held
    dsimp only at held
    split at held
    · cases held
      decide
    · cases held
  · intro uuid id addr held
    cases held

def consistent : List (Message Nat) := [.linkstate 1 2 true,.linkstate 7 1 false,.topodiff ⟨[(1,[51]),(2,[50])],[((1,0),1)]⟩]

theorem consistent_converges :
    ¬ Contrary threeNodes consistent ∧
      ∀ one two, one.Perm consistent → two.Perm consistent → links (evtBroadcasts threeNodes one) = links (evtBroadcasts threeNodes two) := by
  have named : Registered threeNodes consistent := by
    unfold Registered
    decide
  have apart : ¬ Contrary threeNodes consistent := by
    unfold Contrary
    decide
  exact ⟨apart,(convergence_iff threeNodes_short named).mpr apart⟩

theorem order_decides_link :
    [Message.linkstate 1 2 false,.linkstate 1 2 true].Perm [.linkstate 1 2 true,.linkstate 1 2 false] ∧
      s(1,2) ∈ links (evtBroadcasts threeNodes [.linkstate 1 2 false,.linkstate 1 2 true]) ∧
      s(1,2) ∉ links (evtBroadcasts threeNodes [.linkstate 1 2 true,.linkstate 1 2 false]) := by
  refine ⟨List.Perm.swap _ _ _,?_,?_⟩
  · exact mem_links.mpr ⟨(1,2),by decide,by decide⟩
  · intro found
    obtain ⟨key,is,held⟩ := mem_links.mp found
    have here : key = (1,2) := (Option.some.inj (Eq.trans (by decide) is)).symm
    subst here
    exact absurd held (by decide)

end MedvedDB.LinkStates
