import MedvedDB.BitsetCodec
import MedvedDB.TopologyCodec
import MedvedDB.Basic

open MedvedDB.Binn MedvedDB.RowSlice MedvedDB.TopologyCodec
namespace MedvedDB.Conman

open TopologyDiff (Topolink)
open BitsetCodec (create set set_test)

-- The ends of a link are marked if one of them is the local node. A node that is not
-- there would be read through NULL.
def mark (nodes : List (Toponode CString)) (linked : Bitset) (link : Topolink) : Option Bitset :=
  match nodes[link.node.1]?,nodes[link.node.2]? with
  | some first,some second =>
    if first.id = localId then some (set (set linked link.node.1) link.node.2)
    else if second.id = localId then some (set (set linked link.node.2) link.node.1)
    else some linked
  | _,_ => none

-- mdv_conman_connect_to_peers: the addresses that mdv_conman_connect is called with.
def connectToPeers (alloc : Bool) (memory : Nat → UInt32) (topology : Topology CString) : Option (List CString) :=
  if !alloc then some []
  else
    (topology.links.foldlM (mark topology.nodes) (create memory topology.nodes.length)).map fun linked =>
      ((List.range linked.size).filter fun i => !linked.test i).filterMap fun i => topology.nodes[i]?.map Toponode.addr

structure Neighbourhood extends Topology CString where
  own : Nat
  isLocal : ∀ index, (nodes[index]?.map Toponode.id = some localId) ↔ index = own
  within : ∀ link ∈ links, link.node.1 < nodes.length ∧ link.node.2 < nodes.length
  nodesFit : nodes.length * 32 < 2^64

def joins (own index : Nat) (link : Topolink) : Bool := link.node = (own,index) ∨ link.node = (index,own)
def touches (own : Nat) (link : Topolink) : Bool := link.node.1 = own ∨ link.node.2 = own

def peers (topology : Neighbourhood) : List CString :=
  ((List.range topology.nodes.length).filter fun i => i ≠ topology.own && !topology.links.any (joins topology.own i)).filterMap fun i =>
    topology.nodes[i]?.map Toponode.addr

section Marks

variable {own index : Nat} {linked : Bitset}

lemma Neighbourhood.local_iff (topology : Neighbourhood) (found : topology.nodes[index]? = some node) :
    node.id = localId ↔ index = topology.own := by
  have is := topology.isLocal index
  rw [found] at is
  simpa using is

def marked (own index : Nat) (link : Topolink) : Bool := touches own link && (link.node.1 = index || link.node.2 = index)

lemma mark_spec (topology : Neighbourhood) (linked : Bitset) (member : link ∈ topology.links) :
    ∃ after, mark topology.nodes linked link = some after ∧ after.size = linked.size ∧
      ∀ index, after.test index = (linked.test index || marked topology.own index link) := by
  obtain ⟨first,second⟩ := topology.within link member
  have firstFound := getElem?_eq_getElem first
  have secondFound := getElem?_eq_getElem second
  have firstLocal := topology.local_iff firstFound
  have secondLocal := topology.local_iff secondFound
  unfold mark
  rw [firstFound,secondFound]
  dsimp only
  by_cases here : link.node.1 = topology.own
  · rw [if_pos (firstLocal.mpr here)]
    refine ⟨_,rfl,rfl,fun index => ?_⟩
    rw [set_test,set_test,Bool.or_assoc]
    congr 1
    simp [marked,touches,here,eq_comm]
  · rw [if_neg fun is => here (firstLocal.mp is)]
    by_cases there : link.node.2 = topology.own
    · rw [if_pos (secondLocal.mpr there)]
      refine ⟨_,rfl,rfl,fun index => ?_⟩
      rw [set_test,set_test,Bool.or_assoc]
      congr 1
      rw [Bool.or_comm]
      simp [marked,touches,there,eq_comm]
    · rw [if_neg fun is => there (secondLocal.mp is)]
      refine ⟨_,rfl,rfl,fun index => ?_⟩
      simp [marked,touches,here,there]

lemma mark_all (topology : Neighbourhood) (links : List Topolink) (among : links ⊆ topology.links) (linked : Bitset) :
    ∃ after, links.foldlM (mark topology.nodes) linked = some after ∧ after.size = linked.size ∧
      ∀ index, after.test index = (linked.test index || links.any (marked topology.own index)) := by
  induction links generalizing linked with
  | nil => exact ⟨linked,rfl,rfl,fun index => by simp⟩
  | cons link rest ih =>
    obtain ⟨middle,done,size,bits⟩ := mark_spec topology linked (among mem_cons_self)
    obtain ⟨after,more,sizeAfter,bitsAfter⟩ := ih (fun other member => among (mem_cons_of_mem _ member)) middle
    refine ⟨after,?_,sizeAfter.trans size,fun index => ?_⟩
    · rw [foldlM_cons,done]
      exact more
    · rw [bitsAfter,bits,any_cons,Bool.or_assoc]

lemma any_marked (links : List Topolink) (own index : Nat) :
    links.any (marked own index) = (links.any (joins own index) || (decide (index = own) && links.any (touches own))) := by
  rw [Bool.eq_iff_iff]
  simp only [any_eq_true,or_eq_true,and_eq_true,decide_eq_true_eq,marked,touches,joins,Prod.ext_iff]
  constructor
  · rintro ⟨link,member,one,two⟩
    by_cases self : index = own
    · exact .inr ⟨self,link,member,one⟩
    · refine .inl ⟨link,member,?_⟩
      omega
  · rintro (⟨link,member,ends⟩ | ⟨rfl,link,member,ends⟩)
    · exact ⟨link,member,by omega,by omega⟩
    · exact ⟨link,member,ends,ends⟩

end Marks

section Dials

variable {topology : Neighbourhood}

lemma Neighbourhood.own_lt (topology : Neighbourhood) : topology.own < topology.nodes.length := by
  by_contra outside
  have is := (topology.isLocal topology.own).mpr rfl
  rw [List.getElem?_eq_none (not_lt.mp outside)] at is
  cases is

lemma connectToPeers_eq (topology : Neighbourhood) (memory : Nat → UInt32) :
    connectToPeers true memory topology.toTopology =
      some (((List.range topology.nodes.length).filter fun i => !topology.links.any (marked topology.own i)).filterMap fun i =>
        topology.nodes[i]?.map Toponode.addr) := by
  obtain ⟨linked,done,size,bits⟩ := mark_all topology topology.links (List.Subset.refl _) (create memory topology.nodes.length)
  have fits := topology.nodesFit
  have size : linked.size = topology.nodes.length := size
  unfold connectToPeers
  simp only [Bool.not_true,false_eq_true,if_false,done,map_some,size]
  congr 2
  apply filter_congr
  intro index inside
  have below : index < BitsetCodec.capacity topology.nodes.length :=
    Nat.lt_of_lt_of_le (mem_range.mp inside) (BitsetCodec.size_le_capacity (by omega))
  rw [bits,BitsetCodec.create_test below,Bool.false_or]

lemma addresses_length {nodes : List (Toponode CString)} {indices : List Nat} (inside : ∀ index ∈ indices, index < nodes.length) :
    (indices.filterMap fun i => nodes[i]?.map Toponode.addr).length = indices.length := by
  apply List.filterMap_length_eq_length.mpr
  intro index member
  rw [getElem?_eq_getElem (inside index member)]
  rfl

end Dials

theorem dials_peers_iff (alloc : Bool) (memory : Nat → UInt32) (topology : Neighbourhood) :
    connectToPeers alloc memory topology.toTopology = some (peers topology) ↔
      if alloc then topology.links.any (touches topology.own) = true else peers topology = [] := by
  cases alloc with
  | false =>
    simp only [connectToPeers,Bool.not_false,if_true,some_inj,false_eq_true,if_false]
    exact eq_comm
  | true =>
    rw [if_pos rfl,connectToPeers_eq,some_inj]
    constructor
    · intro same
      by_contra alone
      have lengths := congrArg List.length same
      have inside (chosen : Nat → Bool) : ∀ index ∈ (List.range topology.nodes.length).filter chosen, index < topology.nodes.length :=
        fun index member => mem_range.mp (List.mem_of_mem_filter member)
      rw [peers,addresses_length (inside _),addresses_length (inside _)] at lengths
      have none_ : ∀ index ∈ List.range topology.nodes.length, (!topology.links.any (marked topology.own index)) = true := by
        intro index _
        rw [not_eq_true',any_eq_false]
        intro link member is
        exact alone (any_eq_true.mpr ⟨link,member,(and_eq_true_iff.mp is).1⟩)
      rw [List.length_filter_eq_length_iff.mpr none_] at lengths
      refine absurd lengths.symm (ne_of_lt ?_)
      apply List.length_filter_lt_length_iff_exists.mpr
      exact ⟨topology.own,mem_range.mpr topology.own_lt,by simp⟩
    · intro joined
      unfold peers
      congr 1
      apply filter_congr
      intro index _
      rw [any_marked,joined]
      simp [Bool.and_comm]

def alone : Neighbourhood where
  nodes := [⟨⟨1,1⟩,localId,⟨[65],by decide⟩⟩]
  links := []
  extra := 2
  own := 0
  isLocal := by
    intro index
    cases index with
    | zero => simp
    | succ index => simp
  within := fun link member => absurd member not_mem_nil
  nodesFit := by decide

theorem alone_dials_itself : connectToPeers true (fun _ => 0) alone.toTopology = some [⟨[65],by decide⟩] ∧ peers alone = [] := by
  constructor
  · rw [connectToPeers_eq]
    rfl
  · rfl

end MedvedDB.Conman
