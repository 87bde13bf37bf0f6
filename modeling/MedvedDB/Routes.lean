import MedvedDB.Basic
import MedvedDB.Router

namespace MedvedDB.Router

open TopologyDiff SpanningTree

variable {υ : Type}

structure Syncer (υ : Type) where
  uuid : υ
  peers : List υ
  deriving DecidableEq, Repr

-- Whether there is memory for the vector of removed peers and for the
-- synchronizer of each new peer.
structure Calls (υ : Type) where
  removed : Bool
  created : υ → Bool

def working : Calls υ := ⟨true,fun _ => true⟩

section Changes

variable [DecidableEq υ]

def removePeers (calls : Calls υ) (routes peers : List υ) : Errno × List υ :=
  if peers = [] then (.ok,peers) else if calls.removed then (.ok,peers.filter (· ∈ routes)) else (.noMem,peers)

def addPeer (calls : Calls υ) (result : Errno × List υ) (route : υ) : Errno × List υ :=
  if route ∈ result.2 then result else if calls.created route then (result.1,result.2 ++ [route]) else (.failed,result.2)

def topologyChanged (calls : Calls υ) (syncer : Syncer υ) (topology : Topology υ) : Option (Errno × Syncer υ) :=
  (routesFind topology syncer.uuid).map fun routes =>
    let result := routes.foldl (addPeer calls) (removePeers calls routes syncer.peers)
    (result.1,{syncer with peers:=result.2})

lemma removePeers_working (routes peers : List υ) : removePeers working routes peers = (.ok,peers.filter (· ∈ routes)) := by
  unfold removePeers
  split
  · rename_i none_
    rw [none_,List.filter_nil]
  · rfl

lemma addPeers_working (routes : List υ) (result : Errno × List υ) :
    (routes.foldl (addPeer working) result).1 = result.1 ∧
      ∀ uuid, uuid ∈ (routes.foldl (addPeer working) result).2 ↔ uuid ∈ result.2 ∨ uuid ∈ routes := by
  induction routes generalizing result with
  | nil => simp
  | cons route routes ih =>
    obtain ⟨errors,members⟩ := ih (addPeer working result route)
    rw [foldl_cons]
    by_cases known : route ∈ result.2
    · have same : addPeer working result route = result := if_pos known
      rw [same] at errors members ⊢
      refine ⟨errors,?_⟩
      intro uuid
      rw [members,mem_cons]
      constructor
      · intro either
        rcases either with before | later
        · exact .inl before
        · exact .inr (.inr later)
      · intro either
        rcases either with before | rfl | later
        · exact .inl before
        · exact .inl known
        · exact .inr later
    · have added : addPeer working result route = (result.1,result.2 ++ [route]) := if_neg known
      rw [added] at errors members ⊢
      refine ⟨errors,?_⟩
      intro uuid
      rw [members,mem_append,mem_singleton,mem_cons,or_assoc]

lemma topologyChanged_working {topology : Topology υ} {syncer : Syncer υ} {routes : List υ} (found : routesFind topology syncer.uuid = some routes) :
    ∃ after, topologyChanged working syncer topology = some (.ok,after) ∧ ∀ uuid, uuid ∈ after.peers ↔ uuid ∈ routes := by
  obtain ⟨errors,members⟩ := addPeers_working routes (removePeers working routes syncer.peers)
  rw [removePeers_working] at errors members
  refine ⟨{syncer with peers:=(routes.foldl (addPeer working) (.ok,syncer.peers.filter (· ∈ routes))).2},?_,?_⟩
  · rw [topologyChanged,found,map_some,removePeers_working]
    exact congrArg some (Prod.ext errors rfl)
  · intro uuid
    rw [members,mem_filter,decide_eq_true_eq]
    constructor
    · intro either
      rcases either with ⟨_,member⟩ | member
      · exact member
      · exact member
    · exact .inr

end Changes

lemma connected_congr (same : ∀ pair weight, Links a pair weight ↔ Links b pair weight) : Connected a ↔ Connected b := by
  have linked : Linked a = Linked b := funext fun pair => propext (exists_congr fun weight => same pair weight)
  simp only [Connected,touched,linkedPairs,linked]

lemma spanning_reaches (spanning : IsSpanningTree id (touched topology) (linkedPairs topology) tree)
    (linked : Linked topology s(src,peer)) (apart : peer ≠ src) : ∃ uuid, s(src,uuid) ∈ tree ∧ Linked topology s(src,uuid) := by
  have joined := spanning.spans src ⟨_,linked,mem_mk_left src peer⟩ peer ⟨_,linked,mem_mk_right src peer⟩
  obtain ⟨pair,member,near,far,is,inner,_⟩ := joined.leaves (fun node => node = src) rfl apart
  subst inner
  rw [id] at is
  subst is
  exact ⟨far,member,spanning.inside member⟩

variable [LinearOrder υ]

lemma treePairs_congr {a b : Topology υ} (same : ∀ pair weight, Links a pair weight ↔ Links b pair weight) : treePairs a = treePairs b := by
  simp only [treePairs,weighted,same]

lemma created_routed (network : Network υ) {src uuid : υ} :
    Routed (create network.toTopology) src uuid ↔ Connected network.toTopology ∧ s(src,uuid) ∈ treePairs network.toTopology := by
  rw [routed_iff (create_arranged network),connected_congr (create_same network),treePairs_congr (create_same network)]

def routePairs (topology : Topology υ) : Set (Sym2 υ) := {pair | ∃ one two, pair = s(one,two) ∧ Routed topology one two}

lemma routePairs_eq (network : Network υ) (connected : Connected network.toTopology) :
    routePairs (create network.toTopology) = treePairs network.toTopology := by
  ext pair
  constructor
  · intro found
    obtain ⟨one,two,rfl,routed⟩ := found
    exact ((created_routed network).mp routed).2
  · intro member
    obtain ⟨one,two,is⟩ := ends_pair id pair
    rw [id] at is
    rw [is] at member
    exact ⟨one,two,is,(created_routed network).mpr ⟨connected,member⟩⟩

lemma routePairs_spanning (network : Network υ) (connected : Connected network.toTopology) :
    IsSpanningTree id (touched network.toTopology) (linkedPairs network.toTopology) (routePairs (create network.toTopology)) := by
  have spanning := treePairs_spanning (create_arranged network) ((connected_congr (create_same network)).mpr connected)
  have linked : Linked (create network.toTopology) = Linked network.toTopology :=
    funext fun pair => propext (exists_congr fun weight => create_same network pair weight)
  rw [routePairs_eq network connected,← treePairs_congr (create_same network)]
  simpa only [touched,linkedPairs,linked] using spanning

theorem routes_agree (a b : Network υ) (same : ∀ pair weight, Links a.toTopology pair weight ↔ Links b.toTopology pair weight)
    (connected : Connected a.toTopology) :
    (∀ src, ∃ left right, routesFind (create a.toTopology) src = some left ∧ routesFind (create b.toTopology) src = some right ∧
      ∀ uuid, uuid ∈ left ↔ uuid ∈ right) ∧
    (∀ one two, Routed (create a.toTopology) one two ↔ Routed (create a.toTopology) two one) ∧
    IsSpanningTree id (touched a.toTopology) (linkedPairs a.toTopology) (routePairs (create a.toTopology)) := by
  refine ⟨?_,?_,routePairs_spanning a connected⟩
  · intro src
    obtain ⟨left,leftIs,leftMembers⟩ := routesFind_spec (create_arranged a) src
    obtain ⟨right,rightIs,rightMembers⟩ := routesFind_spec (create_arranged b) src
    refine ⟨left,right,leftIs,rightIs,?_⟩
    intro uuid
    have links : ∀ pair weight, Links (create a.toTopology) pair weight ↔ Links (create b.toTopology) pair weight := by
      intro pair weight
      rw [create_same a,same,create_same b]
    rw [leftMembers,rightMembers,connected_congr links,treePairs_congr links]
  · intro one two
    rw [created_routed,created_routed,eq_swap]

-- Three nodes with links of one weight, and the same links with other ids, another
-- order, turned ends and a node without links.
def triangle : Network Nat where
  nodes := [⟨0,5⟩,⟨1,6⟩,⟨2,7⟩]
  links := [⟨(0,1),1⟩,⟨(1,2),1⟩,⟨(2,0),1⟩]
  inside := by decide
  uuids := by decide
  ids := by decide

def turned : Network Nat where
  nodes := [⟨2,1⟩,⟨3,9⟩,⟨0,2⟩,⟨1,3⟩]
  links := [⟨(0,2),1⟩,⟨(3,2),1⟩,⟨(3,0),1⟩]
  inside := by decide
  uuids := by decide
  ids := by decide

def threePairs (pair : Sym2 Nat) (weight : UInt32) : Prop := (pair = s(0,1) ∨ pair = s(1,2) ∨ pair = s(0,2)) ∧ weight = 1

lemma triangle_links (pair : Sym2 Nat) (weight : UInt32) : Links triangle.toTopology pair weight ↔ threePairs pair weight := by
  have swapped : s(2,0) = s(0,2) := eq_swap
  simp [Links,triangle,pairOf,ends,threePairs]
  grind

lemma turned_links (pair : Sym2 Nat) (weight : UInt32) : Links turned.toTopology pair weight ↔ threePairs pair weight := by
  have first : s(2,0) = s(0,2) := eq_swap
  have second : s(1,0) = s(0,1) := eq_swap
  simp [Links,turned,pairOf,ends,threePairs]
  grind

lemma triangle_connected : Connected triangle.toTopology := by
  have linked (pair : Sym2 Nat) (among : pair = s(0,1) ∨ pair = s(1,2) ∨ pair = s(0,2)) : pair ∈ linkedPairs triangle.toTopology :=
    ⟨1,(triangle_links pair 1).mpr ⟨among,rfl⟩⟩
  have reach (uuid : Nat) (known : uuid ∈ touched triangle.toTopology) : Joined id (linkedPairs triangle.toTopology) 0 uuid := by
    obtain ⟨pair,⟨weight,links⟩,touches⟩ := known
    have zero : Joined id (linkedPairs triangle.toTopology) 0 0 := Relation.ReflTransGen.refl
    have one : Joined id (linkedPairs triangle.toTopology) 0 1 := joined_of_mem (linked s(0,1) (.inl rfl)) rfl
    have two : Joined id (linkedPairs triangle.toTopology) 0 2 := joined_of_mem (linked s(0,2) (.inr (.inr rfl))) rfl
    rcases ((triangle_links pair weight).mp links).1 with rfl | rfl | rfl
    · rcases Sym2.mem_iff.mp touches with rfl | rfl
      · exact zero
      · exact one
    · rcases Sym2.mem_iff.mp touches with rfl | rfl
      · exact one
      · exact two
    · rcases Sym2.mem_iff.mp touches with rfl | rfl
      · exact zero
      · exact two
  intro one first two second
  exact (reach one first).symm.trans (reach two second)

theorem triangle_agrees :
    (∀ src, ∃ left right, routesFind (create triangle.toTopology) src = some left ∧ routesFind (create turned.toTopology) src = some right ∧
      ∀ uuid, uuid ∈ left ↔ uuid ∈ right) ∧
    (∀ one two, Routed (create triangle.toTopology) one two ↔ Routed (create triangle.toTopology) two one) ∧
    IsSpanningTree id (touched triangle.toTopology) (linkedPairs triangle.toTopology) (routePairs (create triangle.toTopology)) :=
  routes_agree triangle turned (fun pair weight => by rw [triangle_links,turned_links]) triangle_connected

theorem routes_of_connected_links (network : Network υ) :
    (Connected network.toTopology →
      IsSpanningTree id (touched network.toTopology) (linkedPairs network.toTopology) (routePairs (create network.toTopology)) ∧
      ∀ (syncer : Syncer υ) (peer : υ), Linked network.toTopology s(syncer.uuid,peer) → peer ≠ syncer.uuid →
        (∃ routes, routesFind (create network.toTopology) syncer.uuid = some routes ∧ routes ≠ []) ∧
        ∃ after, topologyChanged working syncer (create network.toTopology) = some (.ok,after) ∧
          ∃ kept ∈ after.peers, Linked network.toTopology s(syncer.uuid,kept)) ∧
    (¬ Connected network.toTopology →
      ∀ syncer : Syncer υ, routesFind (create network.toTopology) syncer.uuid = some [] ∧
        topologyChanged working syncer (create network.toTopology) = some (.ok,{syncer with peers:=[]})) := by
  constructor
  · intro connected
    have spanning := routePairs_spanning network connected
    refine ⟨spanning,?_⟩
    intro syncer peer linked apart
    obtain ⟨routes,found,members⟩ := routesFind_spec (create_arranged network) syncer.uuid
    obtain ⟨after,changed,peers⟩ := topologyChanged_working found
    obtain ⟨uuid,inTree,kept⟩ := spanning_reaches spanning linked apart
    rw [routePairs_eq network connected,← treePairs_congr (create_same network)] at inTree
    have routed := (members uuid).mpr ⟨(connected_congr (create_same network)).mpr connected,inTree⟩
    exact ⟨⟨routes,found,List.ne_nil_of_mem routed⟩,after,changed,uuid,(peers uuid).mpr routed,kept⟩
  · intro apart syncer
    obtain ⟨routes,found,members⟩ := routesFind_spec (create_arranged network) syncer.uuid
    have none_ : routes = [] := by
      refine List.eq_nil_iff_forall_not_mem.mpr ?_
      intro uuid member
      exact apart ((connected_congr (create_same network)).mp ((members uuid).mp member).1)
    rw [none_] at found
    refine ⟨found,?_⟩
    rw [topologyChanged,found,map_some,removePeers_working]
    simp

-- Two links without a common node: no node has a route any more.
def segments : Network Nat where
  nodes := [⟨0,0⟩,⟨1,1⟩,⟨2,2⟩,⟨3,3⟩]
  links := [⟨(0,1),1⟩,⟨(2,3),1⟩]
  inside := by decide
  uuids := by decide
  ids := by decide

theorem segment_loses_routes :
    Linked segments.toTopology s(0,1) ∧ routesFind (create segments.toTopology) 0 = some [] ∧
      topologyChanged working ⟨0,[1]⟩ (create segments.toTopology) = some (.ok,⟨0,[]⟩) := by
  refine ⟨⟨1,⟨(0,1),1⟩,by simp [segments],rfl,rfl⟩,?_,?_⟩
  · decide +kernel
  · decide +kernel

end MedvedDB.Router
