import MedvedDB.LinkStates
import MedvedDB.TopologySync

namespace MedvedDB.TrackerView

open Tracker LinkStates

variable {υ : Type} [LinearOrder υ]

lemma linkKey_eq_iff : linkKey (one,two) = linkKey (first,second) ↔ s(one,two) = s(first,second) := by
  constructor
  · intro same
    rw [Sym2.eq_iff]
    unfold linkKey at same
    dsimp only at same
    split at same <;> split at same <;> simp_all
  · intro same
    rcases Sym2.eq_iff.mp same with ⟨rfl,rfl⟩ | ⟨rfl,rfl⟩
    · rfl
    · exact linkKey_comm one two

variable {tracker : State υ} {key : UInt32 × UInt32}

lemma identifier_eq (sound : Sound tracker) (uuid : υ) :
    nodeIdentifier tracker uuid = (tracker.nodes uuid).map Node.id := by
  unfold nodeIdentifier
  split
  · rename_i same
    obtain ⟨own,found,is⟩ := sound.own
    rw [same,found,map_some,is]
  · rfl

lemma keyOf_some (sound : Sound tracker) :
    keyOf tracker link = some key ↔ ∃ first second, tracker.nodes link.1 = some first ∧ tracker.nodes link.2 = some second ∧
      linkKey (first.id,second.id) = key := by
  unfold keyOf
  rw [identifier_eq sound,identifier_eq sound]
  cases tracker.nodes link.1 with
  | none => simp
  | some first =>
    cases tracker.nodes link.2 with
    | none => simp
    | some second => simp

lemma keyOf_register (sound : Sound tracker) (keyed : keyOf tracker link = some key) (uuid : υ) (addr : List UInt8) :
    keyOf (register tracker uuid addr).2 link = some key := by
  obtain ⟨first,second,isOne,isTwo,same⟩ := (keyOf_some sound).mp keyed
  obtain ⟨left,foundLeft,idLeft⟩ := register_keeps isOne uuid addr
  obtain ⟨right,foundRight,idRight⟩ := register_keeps isTwo uuid addr
  exact (keyOf_some (register_sound sound uuid addr)).mpr ⟨left,right,foundLeft,foundRight,by rw [idLeft,idRight,same]⟩

lemma keyOf_injective (sound : Sound tracker) (distinct : Distinct tracker)
    (first : keyOf tracker one = some key) (second : keyOf tracker two = some key) : s(one.1,one.2) = s(two.1,two.2) := by
  obtain ⟨a,b,isA,isB,keyOne⟩ := (keyOf_some sound).mp first
  obtain ⟨c,d,isC,isD,keyTwo⟩ := (keyOf_some sound).mp second
  rw [Sym2.eq_iff]
  rcases Sym2.eq_iff.mp (linkKey_eq_iff.mp (keyOne.trans keyTwo.symm)) with ⟨left,right⟩ | ⟨left,right⟩
  · exact .inl ⟨distinct isA isC left,distinct isB isD right⟩
  · exact .inr ⟨distinct isA isD left,distinct isB isC right⟩

lemma linkstateAdd_unkeyed (unkeyed : ¬ ∃ key, keyOf tracker (one,two) = some key) (connected : Bool)
    (weight : UInt32) : Tracker.linkstateAdd tracker one two connected weight = (.failed,tracker) := by
  unfold Tracker.linkstateAdd
  split
  · rename_i first second isOne isTwo
    refine absurd ⟨linkKey (first,second),?_⟩ unkeyed
    simp only [keyOf,isOne,isTwo]
  · rfl

lemma register_links (tracker : State υ) (uuid : υ) (addr : List UInt8) : (register tracker uuid addr).2.links = tracker.links := by
  rcases register_cases tracker uuid addr with ⟨id,shape,_⟩ | ⟨old,_,shape⟩ | ⟨_,_,shape⟩
  · rw [shape]
  · rw [shape]
    rfl
  · rw [shape]
    rfl

-- mdv_tracker_topology, from the nodes and the links that the walks over the two
-- maps find. A link to a number without a node is a NULL dereference.
def nodeIndex (nodes : List (Node υ)) (id : UInt32) : Option Nat := nodes.findIdx? fun node => node.id = id

def topolink (nodes : List (Node υ)) (link : (UInt32 × UInt32) × UInt32) : Option TopologyDiff.Topolink :=
  match nodeIndex nodes link.1.1,nodeIndex nodes link.1.2 with
  | some first,some second => some ⟨(first,second),link.2⟩
  | _,_ => none

def toponode (node : Node υ) : TopologyDiff.Toponode υ := ⟨node.uuid,node.id⟩

def trackerTopology (nodes : List (Node υ)) (links : List ((UInt32 × UInt32) × UInt32)) : Option (TopologyDiff.Topology υ) :=
  (links.mapM (topolink nodes)).map fun topolinks => TopologyDiff.create ⟨nodes.map toponode,topolinks⟩

lemma mapM_filterMap {α β : Type} {f : α → Option β} {items : List α} (all : ∀ item ∈ items, (f item).isSome) :
    items.mapM f = some (items.filterMap f) := by
  induction items with
  | nil => rfl
  | cons item items ih =>
    obtain ⟨value,is⟩ := isSome_iff_exists.mp (all item mem_cons_self)
    rw [List.mapM_cons,is,ih fun other member => all other (mem_cons_of_mem _ member)]
    simp [is]

lemma linkKey_cases (one two : UInt32) : linkKey (one,two) = (one,two) ∨ linkKey (one,two) = (two,one) := by
  unfold linkKey
  split
  · exact .inl rfl
  · exact .inr rfl

section Topologies

variable {nodes : List (Node υ)}

omit [LinearOrder υ] in
lemma nodeIndex_some {id : UInt32} {index : Nat} (found : nodeIndex nodes id = some index) :
    ∃ entry, nodes[index]? = some entry ∧ entry.id = id := by
  obtain ⟨inside,is,_⟩ := List.findIdx?_eq_some_iff_getElem.mp found
  exact ⟨_,getElem?_eq_getElem inside,of_decide_eq_true is⟩

omit [LinearOrder υ] in
lemma nodeIndex_mem (member : entry ∈ nodes) : ∃ index, nodeIndex nodes entry.id = some index := by
  cases found : nodeIndex nodes entry.id with
  | some index => exact ⟨index,rfl⟩
  | none => exact absurd (decide_eq_true rfl) (List.findIdx?_eq_none_iff.mp found entry member ▸ false_ne_true)

end Topologies

end MedvedDB.TrackerView
