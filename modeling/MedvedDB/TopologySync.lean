import MedvedDB.Broadcast
import MedvedDB.TopologyDiff

namespace MedvedDB.Broadcast

open Flooding TopologyDiff

variable {υ : Type}

-- The links of a topology between the uuids of its nodes.
def uuidLinks (topology : Topology υ) : List ((υ × υ) × UInt32) :=
  topology.links.filterMap fun link => (ends topology.nodes link).map fun nodes => ((nodes.1.uuid,nodes.2.uuid),link.weight)

def topodiffOf (diff : Topology υ) : Change υ := .topodiff (diff.nodes.map Toponode.uuid) (uuidLinks diff)

lemma mem_uuidLinks : (∃ link ∈ uuidLinks topology, between link = pair) ↔ Linked topology pair := by
  simp only [uuidLinks,mem_filterMap,map_eq_some_iff]
  constructor
  · intro found
    obtain ⟨_,⟨link,member,nodes,joined,rfl⟩,rfl⟩ := found
    exact ⟨link.weight,link,member,pairOf_ends joined,rfl⟩
  · intro found
    obtain ⟨weight,link,member,is,_⟩ := found
    obtain ⟨nodes,joined,rfl⟩ := map_eq_some_iff.mp is
    exact ⟨_,⟨link,member,nodes,joined,rfl⟩,rfl⟩

lemma uuidLinks_nodes (member : link ∈ uuidLinks topology) :
    link.1.1 ∈ topology.nodes.map Toponode.uuid ∧ link.1.2 ∈ topology.nodes.map Toponode.uuid := by
  obtain ⟨known,_,is⟩ := mem_filterMap.mp member
  obtain ⟨nodes,joined,rfl⟩ := map_eq_some_iff.mp is
  obtain ⟨left,right⟩ := ends_mem joined
  exact ⟨mem_map_of_mem left,mem_map_of_mem right⟩

section Differences

variable [DecidableEq υ]

lemma linkAll_known (links : List ((υ × υ) × UInt32)) (known : ∀ link ∈ links, link.1.1 ∈ node.known ∧ link.1.2 ∈ node.known) :
    (linkAll node links).1 = .ok ∧ linked (linkAll node links).2 = linked node ∪ {pair | ∃ link ∈ links, between link = pair} := by
  induction links generalizing node with
  | nil =>
    refine ⟨rfl,Set.ext fun pair => ⟨.inl,?_⟩⟩
    rintro (held | ⟨link,member,_⟩)
    · exact held
    · cases member
  | cons head rest ih =>
    obtain ⟨⟨one,two⟩,weight⟩ := head
    have here : one ∈ node.known ∧ two ∈ node.known := known _ mem_cons_self
    have added : linkstateAdd node one two true weight = (.ok,(linkstateAdd node one two true weight).2) :=
      Prod.ext (by rw [linkstateAdd,if_pos here]) rfl
    have later : ∀ link ∈ rest, link.1.1 ∈ (linkstateAdd node one two true weight).2.known ∧
        link.1.2 ∈ (linkstateAdd node one two true weight).2.known := by
      intro link member
      rw [linkstateAdd_known]
      exact known link (mem_cons_of_mem _ member)
    obtain ⟨worked,after⟩ := ih later
    rw [linkAll,added]
    refine ⟨worked,?_⟩
    rw [after]
    ext pair
    simp only [Set.mem_union,linked_linkstateAdd here,Set.mem_ofPred_eq,mem_cons,exists_eq_or_imp,between,eq_comm]
    split
    · rename_i same
      simp [same]
    · rename_i other
      simp [other]

lemma linked_topodiff (node : Node υ) (diff : Topology υ) :
    linked (take node (topodiffOf diff)) = linked node ∪ {pair | Linked diff pair} := by
  have registered : ∀ uuid ∈ diff.nodes.map Toponode.uuid,
      uuid ∈ node.known ++ (diff.nodes.map Toponode.uuid).filter (· ∉ node.known) := by
    intro uuid member
    by_cases old : uuid ∈ node.known
    · exact mem_append_left _ old
    · exact mem_append_right _ (mem_filter.mpr ⟨member,decide_eq_true old⟩)
  let base : Node υ := {node with known:=node.known ++ (diff.nodes.map Toponode.uuid).filter (· ∉ node.known)}
  have known : ∀ link ∈ uuidLinks diff, link.1.1 ∈ base.known ∧ link.1.2 ∈ base.known := by
    intro link member
    obtain ⟨left,right⟩ := uuidLinks_nodes member
    exact ⟨registered _ left,registered _ right⟩
  have added := (linkAll_known (uuidLinks diff) known).2
  simp only [mem_uuidLinks] at added
  exact added

end Differences

variable [LinearOrder υ]

-- mdv_tracker_topology_broadcast: to the own segment without the gateway, or to
-- the gateway only.
def topologyBroadcast (channels : υ → List υ) (own gateway : υ) (currentSegment : Bool) (diff : Topology υ) (peers : List υ) :
    List (Message υ (Change υ)) :=
  let dst := if currentSegment then peers.filter (· ≠ gateway) else [gateway]
  post (network channels) own dst peers (topodiffOf diff)

def broadcastDiff (channels : υ → List υ) (own gateway : υ) (currentSegment : Bool) (diff : Option (Topology υ)) (peers : List υ) :
    List (Message υ (Change υ)) :=
  match diff with
  | none => []
  | some diff => if diff = emptyTopology then [] else topologyBroadcast channels own gateway currentSegment diff peers

-- mdv_tracker_evt_topology_sync at the node `own`, for a topology that came from
-- the node `remote`: the tracker itself is left as it is.
def evtTopologySync (channels : υ → List υ) (nodes : υ → Node υ) (remote own : υ) (received topology : Topology υ) :
    State υ (Node υ) (Change υ) :=
  let known := peers (uuidLinks topology) own
  let told := if own ∈ known then known else known ++ [own]
  let posted := broadcastDiff channels own remote true (diff received remote topology own) told ++
    broadcastDiff channels own remote false (diff topology own received remote) told
  ⟨nodes,posted,posted,[]⟩

lemma diff_linked (a : Network υ) (first : Linked a.toTopology s(nodea,nodeb)) (second : Linked b s(nodea,nodeb)) :
    ∃ result, diff a.toTopology nodea b nodeb = some result ∧ result ≠ emptyTopology ∧
      ∀ pair, Linked result pair ↔ (Linked a.toTopology pair ∧ ¬ Linked b pair) ∨ pair = s(nodea,nodeb) := by
  have present {topology : Topology υ} (joined : Linked topology s(nodea,nodeb)) : topology.links ≠ [] :=
    fun bare => not_linked_nil bare _ joined
  obtain ⟨weight,joins,shows⟩ := abTopology_shows (b := b) a.inside first
  have apart : IdsApart (abTopology a.toTopology b nodea nodeb).nodes :=
    fun one left two right => a.sameId (abTopology_subset left) (abTopology_subset right)
  have created := create_shows (linkedNodes_within (abLinks_within a.inside)) apart shows
  have links (pair : Sym2 υ) : Linked (create (abTopology a.toTopology b nodea nodeb)) pair ↔
      (Linked a.toTopology pair ∧ ¬ Linked b pair) ∨ pair = s(nodea,nodeb) := by
    constructor
    · intro found
      obtain ⟨other,is⟩ := found
      rcases (created.links pair other).mp is with ⟨known,missing⟩ | ⟨same,_⟩
      · exact .inl ⟨⟨other,known⟩,missing⟩
      · exact .inr same
    · intro either
      rcases either with ⟨⟨other,known⟩,missing⟩ | same
      · exact ⟨other,(created.links pair other).mpr (.inl ⟨known,missing⟩)⟩
      · exact ⟨weight,(created.links pair weight).mpr (.inr ⟨same,rfl⟩)⟩
  refine ⟨_,diff_joined (present first) (present second) first,?_,links⟩
  intro empty
  have absent := not_linked_nil (υ := υ) (a := emptyTopology) rfl s(nodea,nodeb)
  rw [← empty] at absent
  exact absent ((links _).mpr (.inr rfl))

-- Two nodes with a link that both know, and topologies with the links of their trackers.
structure Dialed (channels : υ → List υ) (nodes : υ → Node υ) (remote own : υ) (received topology : Network υ) : Prop where
  sends : ∀ pair, Linked received.toTopology pair ↔ pair ∈ linked (nodes remote)
  holds : ∀ pair, Linked topology.toTopology pair ↔ pair ∈ linked (nodes own)
  joined : s(remote,own) ∈ linked (nodes remote) ∧ s(remote,own) ∈ linked (nodes own)
  channel : remote ∈ channels own
  apart : own ∉ channels own

variable {channels : υ → List υ} {nodes : υ → Node υ} {remote own : υ} {received topology : Network υ}

lemma broadcastDiff_some (filled : result ≠ emptyTopology) :
    broadcastDiff channels own remote currentSegment (some result) told =
      topologyBroadcast channels own remote currentSegment result told := if_neg filled

lemma sync_messages (dialed : Dialed channels nodes remote own received topology) :
    ∃ told back rest, remote ∈ told ∧ own ∈ told ∧
      (evtTopologySync channels nodes remote own received.toTopology topology.toTopology).flight = rest ++ [⟨remote,told,topodiffOf back⟩] ∧
      (∀ message ∈ rest, message.notified = told ∧ message.dst ≠ remote ∧ message.dst ≠ own) ∧
      ∀ pair, Linked back pair ↔ (pair ∈ linked (nodes own) ∧ pair ∉ linked (nodes remote)) ∨ pair = s(remote,own) := by
  obtain ⟨there,here⟩ := dialed.joined
  have there' : Linked received.toTopology s(own,remote) := by
    rw [eq_swap]
    exact (dialed.sends _).mpr there
  have here' : Linked topology.toTopology s(own,remote) := by
    rw [eq_swap]
    exact (dialed.holds _).mpr here
  obtain ⟨forth,forthIs,forthSome,_⟩ := diff_linked received ((dialed.sends _).mpr there) ((dialed.holds _).mpr here)
  obtain ⟨back,backIs,backSome,backLinks⟩ := diff_linked topology here' there'
  let known := peers (uuidLinks topology.toTopology) own
  let told := if own ∈ known then known else known ++ [own]
  have remoteKnown : remote ∈ known := mem_peers.mpr (mem_uuidLinks.mpr here')
  have grows : ∀ uuid ∈ known, uuid ∈ told := by
    intro uuid member
    by_cases same : own ∈ known
    · simpa only [told,if_pos same] using member
    · simpa only [told,if_neg same] using mem_append_left _ member
  have ownTold : own ∈ told := by
    by_cases same : own ∈ known
    · exact grows own same
    · simp only [told,if_neg same]
      exact mem_append_right _ mem_cons_self
  refine ⟨told,back,topologyBroadcast channels own remote true forth told,grows remote remoteKnown,ownTold,?_,?_,?_⟩
  · have second : topologyBroadcast channels own remote false back told = [⟨remote,told,topodiffOf back⟩] := by
      simp [topologyBroadcast,post,network,dialed.channel]
    rw [← second,← broadcastDiff_some forthSome,← broadcastDiff_some backSome,← forthIs,← backIs]
    rfl
  · intro message member
    simp only [topologyBroadcast,post,if_true,mem_map,mem_filter,decide_eq_true_eq] at member
    obtain ⟨peer,⟨⟨_,away⟩,reach⟩,rfl⟩ := member
    refine ⟨rfl,away,?_⟩
    intro same
    exact dialed.apart (same ▸ reach)
  · intro pair
    rw [backLinks,dialed.holds,dialed.sends,eq_swap]

-- Both trackers have all links of both, when nothing is under way any more.
def Synchronised (before after : υ → Node υ) (remote own : υ) : Prop :=
  linked (before remote) ∪ linked (before own) ⊆ linked (after remote) ∧ linked (before remote) ∪ linked (before own) ⊆ linked (after own)

def shortView : Network (Fin 3) where
  nodes := [⟨0,0⟩,⟨1,1⟩]
  links := [⟨(0,1),1⟩]
  inside := by simp
  uuids := by simp
  ids := by simp

def longView : Network (Fin 3) where
  nodes := [⟨0,0⟩,⟨1,1⟩,⟨2,2⟩]
  links := [⟨(0,1),1⟩,⟨(1,2),1⟩]
  inside := by simp
  uuids := by simp
  ids := by simp

def viewNodes (uuid : Fin 3) : Node (Fin 3) :=
  if uuid = 0 then ⟨[0,1],uuidLinks shortView.toTopology⟩ else ⟨[0,1,2],uuidLinks longView.toTopology⟩

lemma views_dialed : Dialed pathChannels viewNodes 0 1 shortView longView := by
  refine ⟨fun pair => mem_uuidLinks.symm,fun pair => mem_uuidLinks.symm,⟨?_,?_⟩,by decide,by decide⟩
  · exact ⟨((0,1),1),mem_cons_self,rfl⟩
  · exact ⟨((0,1),1),mem_cons_self,rfl⟩

end MedvedDB.Broadcast
