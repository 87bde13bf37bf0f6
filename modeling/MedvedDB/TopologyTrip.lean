import MedvedDB.TopologyCodec

open MedvedDB.Binn MedvedDB.Vector
namespace MedvedDB.TopologyCodec

open TopologyDiff (Topolink)

-- A topology as mdv_topology_create leaves it, with links between its nodes. Its links
-- and its extra data are in memory.
structure Network extends Topology CString where
  filled : nodes ≠ []
  ids : (nodes.map Toponode.id).Nodup
  sorted : nodes.Pairwise fun one two => one.uuid < two.uuid
  within : ∀ link ∈ links, inside nodes.length link = true
  linksFit : links.length * linkSize < 2^64
  extraFits : extra < 2^64

def known (node : Toponode CString) : Toponode (Option CString) := ⟨node.uuid,node.id,some node.addr⟩

-- The object leads back to the same nodes and links, wherever the allocator puts the
-- extra data.
def RoundTrips (topology : Topology CString) : Prop :=
  ∀ calls obj, topologySerialize calls topology = some obj → ∀ moves, ∃ extra,
    topologyDeserialize {moves:=moves} obj = .ok ⟨topology.nodes.map known,topology.links,extra⟩

def addressBytes (nodes : List (Toponode CString)) : List UInt8 := nodes.flatMap fun node => node.addr.terminated

lemma addressBytes_cons (node : Toponode CString) (rest : List (Toponode CString)) :
    addressBytes (node::rest) = node.addr.terminated ++ addressBytes rest := flatMap_cons

lemma addressBytes_length (node : Toponode CString) (rest : List (Toponode CString)) :
    (addressBytes (node::rest)).length = node.addr.size + (addressBytes rest).length := by
  rw [addressBytes_cons,length_append,CString.terminated_length]

section Objects

variable {count : Nat} {obj : Value}

lemma readNode_some (id : objectGet "ID" obj = some (.int node.id.toNat))
    (low : objectGet "U1" obj = some (.int node.uuid.low.toNat)) (high : objectGet "U2" obj = some (.int node.uuid.high.toNat))
    (addr : objectGet "A" obj = some (.text node.addr.bytes)) : readNode obj = some node := by
  rw [readNode,objectGetUint32,objectGetStr,id,addr,Uuid.unbinn_some low high,bind_some,bind_some,getUint32_toNat,getStr_text]

lemma readNode_nodeObject (node : Toponode CString) : readNode (nodeObject node) = some node := by
  refine readNode_some ?_ ?_ ?_ ?_
  · exact objectGet_first (by decide)
  · rw [nodeObject,objectGet_next (by decide)]
    exact objectGet_first (by decide)
  · rw [nodeObject,objectGet_next (by decide),objectGet_next (by decide)]
    exact objectGet_first (by decide)
  · rw [nodeObject,objectGet_next (by decide),objectGet_next (by decide),objectGet_next (by decide)]
    exact objectGet_first (by decide)

lemma readLink_some (within : inside count link = true) (few : count ≤ 2^32)
    (first : objectGet "U1" obj = some (.int link.node.1)) (second : objectGet "U2" obj = some (.int link.node.2))
    (weight : objectGet "W" obj = some (.int link.weight.toNat)) : readLink count obj = some link := by
  obtain ⟨left,right⟩ := inside_iff.mp within
  have smallLeft : link.node.1 < 2^32 := Nat.lt_of_lt_of_le left few
  have smallRight : link.node.2 < 2^32 := Nat.lt_of_lt_of_le right few
  rw [readLink,objectGetUint32,objectGetUint32,objectGetUint32,first,second,weight,bind_some,bind_some,bind_some,
    getUint32_small smallLeft,getUint32_small smallRight,getUint32_toNat]
  dsimp only
  rw [toNat_ofNat_of_lt' smallLeft,toNat_ofNat_of_lt' smallRight]
  exact if_neg (by omega)

lemma readLink_linkObject (within : inside count link = true) (few : count ≤ 2^32) :
    readLink count (linkObject link) = some link := by
  refine readLink_some within few ?_ ?_ ?_
  · exact objectGet_first (by decide)
  · rw [linkObject,objectGet_next (by decide)]
    exact objectGet_first (by decide)
  · rw [linkObject,objectGet_next (by decide),objectGet_next (by decide)]
    exact objectGet_first (by decide)

lemma listOf_some (length : values.length = count) (small : count < 2^64)
    (stored : values ≠ [] → objectGet key obj = some (.list values)) : listOf (UInt64.ofNat count) key obj = some values := by
  cases values with
  | nil =>
    subst length
    exact if_pos rfl
  | cons value rest =>
    have positive : UInt64.ofNat count ≠ 0 := by
      intro zero
      have number := congrArg UInt64.toNat zero
      rw [UInt64.toNat_ofNat_of_lt' small,← length] at number
      cases number
    rw [listOf,if_neg positive,objectGetList,stored (cons_ne_nil _ _)]
    rfl

lemma readHeader_some {nodes links : List Value} {extra : Nat} (nodesCount : objectGet "NC" obj = some (.int nodes.length))
    (linksCount : objectGet "LC" obj = some (.int links.length)) (extraSize : objectGet "ES" obj = some (.int extra))
    (nodesFit : nodes.length < 2^64) (linksFit : links.length < 2^64) (extraFits : extra < 2^64)
    (nodeList : nodes ≠ [] → objectGet "N" obj = some (.list nodes)) (linkList : links ≠ [] → objectGet "L" obj = some (.list links)) :
    readHeader obj = some ⟨UInt64.ofNat nodes.length,UInt64.ofNat links.length,UInt64.ofNat extra,nodes,links⟩ := by
  rw [readHeader,objectGetUint64,objectGetUint64,objectGetUint64,nodesCount,linksCount,extraSize,bind_some,bind_some,
    bind_some,getUint64_small nodesFit,getUint64_small linksFit,getUint64_small extraFits]
  dsimp only
  rw [listOf_some rfl nodesFit nodeList,listOf_some rfl linksFit linkList]

lemma readHeader_topologyObject (topology : Topology CString) (nodesFit : topology.nodes.length < 2^64) (linksFit : topology.links.length < 2^64)
    (extraFits : topology.extra < 2^64) :
    readHeader (topologyObject topology) = some ⟨UInt64.ofNat topology.nodes.length,UInt64.ofNat topology.links.length,UInt64.ofNat topology.extra,
      topology.nodes.map nodeObject,topology.links.map linkObject⟩ := by
  have nodes : (topology.nodes.map nodeObject).length = topology.nodes.length := length_map _
  have links : (topology.links.map linkObject).length = topology.links.length := length_map _
  rw [← nodes,← links]
  rw [← nodes] at nodesFit
  rw [← links] at linksFit
  refine readHeader_some ?_ ?_ ?_ nodesFit linksFit extraFits ?_ ?_
  · rw [nodes]
    exact objectGet_first (by decide)
  · rw [links,topologyObject]
    exact (objectGet_next (by decide)).trans (objectGet_first (by decide))
  · rw [topologyObject]
    exact (objectGet_next (by decide)).trans ((objectGet_next (by decide)).trans (objectGet_first (by decide)))
  · intro some_
    rw [Ne,List.map_eq_nil_iff] at some_
    rw [topologyObject,if_neg some_]
    exact (objectGet_next (by decide)).trans ((objectGet_next (by decide)).trans ((objectGet_next (by decide)).trans (objectGet_first (by decide))))
  · intro some_
    rw [Ne,List.map_eq_nil_iff] at some_
    rw [topologyObject,if_neg some_]
    refine (objectGet_next (by decide)).trans ((objectGet_next (by decide)).trans ((objectGet_next (by decide)).trans ?_))
    split
    · exact objectGet_first (by decide)
    · exact (objectGet_next (by decide)).trans (objectGet_first (by decide))

end Objects

structure Open {β : Type} (vec : Vec β) (more : Nat) : Prop where
  capacity : vec.items.length + more ≤ vec.capacity
  room : vec.capacity * nodeSize ≤ vec.room

-- What a node adds while there is memory. The pointer leads to where the data are then.
structure Stored (moves : Nat → Bool) (index more : Nat) (state : Loaded) (node : Toponode CString) (next : Loaded) : Prop where
  open_ : Open next.nodes more
  growing : Growing next.extra
  nodes : next.nodes.items = state.nodes.items ++ [⟨node.uuid,node.id,some ⟨next.extra.generation,state.extra.data.items.length⟩⟩]
  data : next.extra.data.items = state.extra.data.items ++ node.addr.terminated
  capacity : newCapacity (state.extra.data.items.length + node.addr.size) (state.extra.data.items.length + node.addr.size) state.extra.data.capacity =
    some next.extra.data.capacity
  generation : next.extra.generation = state.extra.generation + (decide (state.extra.data.capacity < next.extra.data.capacity) && moves index).toNat

section Storing

variable {moves : Nat → Bool} {index more : Nat} {state : Loaded}

variable {node : Toponode CString}

lemma Stored.length (stored : Stored moves index more state node next) :
    next.extra.data.items.length = state.extra.data.items.length + node.addr.size := by
  rw [stored.data,length_append,CString.terminated_length]

lemma Stored.fits (stored : Stored moves index more state node next) :
    next.extra.data.items.length ≤ next.extra.data.capacity := by
  rw [stored.length]
  exact (newCapacity_least stored.capacity).1

lemma Open.append {β : Type} {vec : Vec β} (open_ : Open vec (more + 1)) (realloc : Bool) (item : β) :
    append nodeSize realloc vec [item] = .ok (true,{vec with items:=vec.items ++ [item]}) ∧ Open {vec with items:=vec.items ++ [item]} more := by
  have capacity := open_.capacity
  have room := open_.room
  have enough : vec.items.length + [item].length ≤ vec.capacity := by
    rw [length_singleton]
    omega
  have bytes : (vec.items.length + [item].length) * nodeSize ≤ vec.capacity * nodeSize := Nat.mul_le_mul_right _ enough
  constructor
  · rw [append_inside nodeSize realloc enough,if_neg (not_lt.mpr (bytes.trans room))]
  · refine ⟨?_,room⟩
    rw [length_append,length_singleton,Nat.add_assoc,Nat.add_comm 1 more]
    exact capacity

lemma storeNode_ok (appended : appendAddr (calls.extra index) (calls.moves index) state.extra node.addr = .ok (ptr,extra))
    (pushed : append nodeSize (calls.nodes index) state.nodes [⟨node.uuid,node.id,ptr⟩] = .ok (flag,nodes)) :
    storeNode calls index state node = .ok ⟨nodes,extra⟩ := by
  simp only [storeNode,appended,pushed]

lemma storeNode_stored (moves : Nat → Bool) (index : Nat) (open_ : Open state.nodes (more + 1)) (growing : Growing state.extra) (node : Toponode CString) :
    ∃ next, storeNode {moves:=moves} index state node = .ok next ∧ Stored moves index more state node next := by
  have length := node.addr.terminated_length
  rcases Nat.lt_or_ge state.extra.data.capacity (state.extra.data.items.length + node.addr.terminated.length) with beyond | enough
  · obtain ⟨larger,grown,_,found,appended⟩ := appendAddr_grows true (moves index) growing beyond
    simp only [Bool.not_true,false_eq_true,if_false] at appended
    obtain ⟨pushed,openNow⟩ := open_.append true ⟨node.uuid,node.id,some ⟨state.extra.generation + (moves index).toNat,state.extra.data.items.length⟩⟩
    refine ⟨_,storeNode_ok appended pushed,openNow,⟨Nat.lt_of_le_of_lt (Nat.zero_le _) grown,(Nat.mul_one larger).symm.le⟩,rfl,rfl,?_,?_⟩
    · rw [← length]
      exact found
    · simp only [decide_eq_true grown,Bool.true_and]
  · have appended := appendAddr_inside true (moves index) growing enough
    obtain ⟨pushed,openNow⟩ := open_.append true ⟨node.uuid,node.id,some ⟨state.extra.generation,state.extra.data.items.length⟩⟩
    refine ⟨_,storeNode_ok appended pushed,openNow,⟨growing.positive,growing.roomy⟩,rfl,rfl,?_,?_⟩
    · rw [← length]
      exact newCapacity_enough _ enough
    · simp

def placed (generation : Nat) : Nat → List (Toponode CString) → List (Toponode (Option Ptr))
  | _,[] => []
  | offset,node::rest => ⟨node.uuid,node.id,some ⟨generation,offset⟩⟩::placed generation (offset + node.addr.size) rest

lemma placed_texts (extra : Extra) (front : List UInt8) (nodes : List (Toponode CString)) (data : extra.data.items = front ++ addressBytes nodes) :
    (placed extra.generation front.length nodes).map (fun node => (⟨node.uuid,node.id,textAt extra node.addr⟩ : Toponode (Option CString))) =
      nodes.map known := by
  induction nodes generalizing front with
  | nil => rfl
  | cons node rest ih =>
    have later := ih (front ++ node.addr.terminated) (by rw [data,addressBytes_cons,append_assoc])
    rw [length_append,CString.terminated_length] at later
    rw [placed,map_cons,map_cons,later]
    have text : textAt extra (some ⟨extra.generation,front.length⟩) = some node.addr := by
      rw [textAt,if_pos rfl,data,addressBytes_cons,List.drop_left,CString.read_terminated]
    rw [text]
    rfl

lemma storeAll_inside (moves : Nat → Bool) (index : Nat) (open_ : Open state.nodes nodes.length) (growing : Growing state.extra)
    (enough : state.extra.data.items.length + (addressBytes nodes).length ≤ state.extra.data.capacity) :
    ∃ next, storeAll (storeNode {moves:=moves}) index state nodes = .ok next ∧
      next.nodes.items = state.nodes.items ++ placed state.extra.generation state.extra.data.items.length nodes ∧
      next.extra.data.items = state.extra.data.items ++ addressBytes nodes ∧ next.extra.generation = state.extra.generation := by
  induction nodes generalizing index state with
  | nil => exact ⟨state,rfl,by simp [placed],by simp [addressBytes],rfl⟩
  | cons node rest ih =>
    obtain ⟨next,done,stored⟩ := storeNode_stored moves index open_ growing node
    rw [addressBytes_length] at enough
    have same : next.extra.data.capacity = state.extra.data.capacity := by
      have capacity := stored.capacity
      rw [newCapacity_enough _ (by omega),some_inj] at capacity
      exact capacity.symm
    have generation : next.extra.generation = state.extra.generation := by
      rw [stored.generation,same]
      simp
    obtain ⟨last,rest_,nodes,data,final⟩ := ih (index + 1) stored.open_ stored.growing (by rw [stored.length,same]; omega)
    refine ⟨last,by simp only [storeAll,done,rest_],?_,?_,by rw [final,generation]⟩
    · rw [nodes,stored.nodes,generation,stored.length,placed,append_assoc,singleton_append]
    · rw [data,stored.data,addressBytes_cons,append_assoc]

lemma storeAll_moved (index : Nat) (open_ : Open state.nodes nodes.length) (growing : Growing state.extra)
    (fits : state.extra.data.items.length ≤ state.extra.data.capacity) :
    ∃ next, storeAll (storeNode {moves:=fun _ => true}) index state nodes = .ok next ∧ state.nodes.items <+: next.nodes.items ∧
      state.extra.generation ≤ next.extra.generation ∧
      (state.extra.data.capacity < state.extra.data.items.length + (addressBytes nodes).length → state.extra.generation < next.extra.generation) := by
  induction nodes generalizing index state with
  | nil =>
    exact ⟨state,rfl,List.prefix_rfl,le_rfl,fun beyond => absurd fits (not_le.mpr beyond)⟩
  | cons node rest ih =>
    obtain ⟨next,done,stored⟩ := storeNode_stored (fun _ => true) index open_ growing node
    have generation := stored.generation
    obtain ⟨last,rest_,more,mono,moved⟩ := ih (index + 1) stored.open_ stored.growing stored.fits
    refine ⟨last,by simp only [storeAll,done,rest_],?_,by omega,?_⟩
    · rw [stored.nodes] at more
      exact (List.prefix_append _ _).trans more
    · intro beyond
      rw [addressBytes_length] at beyond
      by_cases grown : state.extra.data.capacity < next.extra.data.capacity
      · rw [decide_eq_true grown] at generation
        simp only [Bool.and_self,Bool.toNat_true] at generation
        omega
      · have later := moved (by rw [stored.length]; omega)
        omega

end Storing

section Networks

variable {network : Network}

lemma length_le_of_below {numbers : List Nat} {bound : Nat} (distinct : numbers.Nodup) (below : ∀ number ∈ numbers, number < bound) :
    numbers.length ≤ bound := by
  have among : numbers ⊆ List.range bound := fun number member => mem_range.mpr (below number member)
  have shorter := (distinct.subperm among).length_le
  rwa [List.length_range] at shorter

lemma Network.few (network : Network) : network.nodes.length ≤ 2^32 := by
  have distinct : (network.nodes.map fun node => node.id.toNat).Nodup := by
    have mapped := network.ids.map (f:=UInt32.toNat) fun one two same => UInt32.toNat_inj.mp same
    rwa [map_map] at mapped
  have bound := length_le_of_below distinct fun number member => by
    obtain ⟨node,_,rfl⟩ := mem_map.mp member
    exact node.id.toNat_lt
  rwa [length_map] at bound

def Network.header (network : Network) : Header :=
  ⟨UInt64.ofNat network.nodes.length,UInt64.ofNat network.links.length,UInt64.ofNat network.extra,network.nodes.map nodeObject,
    network.links.map linkObject⟩

lemma Network.nodesCount (network : Network) : network.header.nodesCount.toNat = network.nodes.length := by
  have few := network.few
  exact UInt64.toNat_ofNat_of_lt' (Nat.lt_of_le_of_lt few (by decide))

lemma Network.linksSmall (network : Network) : network.links.length < 2^64 :=
  Nat.lt_of_le_of_lt (Nat.le_mul_of_pos_right _ (by decide)) network.linksFit

lemma Network.linksCount (network : Network) : network.header.linksCount.toNat = network.links.length :=
  UInt64.toNat_ofNat_of_lt' network.linksSmall

lemma Network.extraSize (network : Network) : network.header.extraSize.toNat = network.extra := UInt64.toNat_ofNat_of_lt' network.extraFits

lemma Network.readHeader (network : Network) : readHeader (topologyObject network.toTopology) = some network.header :=
  readHeader_topologyObject network.toTopology (Nat.lt_of_le_of_lt network.few (by decide)) network.linksSmall network.extraFits

lemma map_read {α β : Type} {read : β → Option α} {items : List α} {object : α → β} (each : ∀ item ∈ items, read (object item) = some item) :
    (items.map object).map read = items.map some := by
  rw [map_map]
  exact map_congr_left each

lemma Network.nodeItems (network : Network) : network.header.nodeItems = network.nodes ∧ network.header.nodesWhole = true := by
  have length : network.header.nodes.length = network.nodes.length := length_map _
  refine readable_whole (map_read fun node _ => readNode_nodeObject node) ?_
  rw [length,network.nodesCount]
  exact le_succ _

lemma Network.linkItems (network : Network) : network.header.linkItems = network.links ∧ network.header.linksWhole = true := by
  have length : network.header.links.length = network.links.length := length_map _
  refine readable_whole (map_read fun link member => readLink_linkObject ?_ ?_) ?_
  · rw [network.nodesCount]
    exact network.within link member
  · rw [network.nodesCount]
    exact network.few
  · rw [length,network.linksCount]
    exact le_succ _

lemma Network.loadLinks (network : Network) (calls : DecodeCalls) : ∃ links, loadLinks calls network.header = .ok links ∧ links.items = network.links := by
  have spec := loadLinks_spec calls (readHeader_lists network.readHeader).2
  have roomy : Roomy linkSize network.header.linksCount.toNat network.header.linkItems.length := by
    rw [Roomy,network.linksCount,network.linkItems.1,Nat.min_self,mod_eq_of_lt network.linksFit]
  rw [if_pos roomy,if_pos network.linkItems.2] at spec
  obtain ⟨links,loaded,same⟩ := spec
  refine ⟨links,loaded,?_⟩
  rw [same,Header.keptLinks,network.linkItems.1,network.linksCount,kept,if_pos (.inl le_rfl)]

def Network.start (network : Network) : Loaded := ⟨create nodeSize network.nodes.length,create 1 network.extra,0⟩

lemma Network.loadNodes_eq (network : Network) (calls : DecodeCalls) :
    loadNodes calls network.header = storeAll (storeNode calls) 0 network.start network.nodes := by
  obtain ⟨items,whole⟩ := network.nodeItems
  rw [Header.nodeItems] at items
  rw [Header.nodesWhole] at whole
  rw [network.nodesCount] at whole
  rw [loadNodes,load_start,items,network.nodesCount,network.extraSize,← start]
  cases storeAll (storeNode calls) 0 network.start network.nodes with
  | error fault => rfl
  | ok state =>
    dsimp only
    rw [if_pos whole]

lemma Network.deserialize_eq (network : Network) (moves : Nat → Bool) :
    topologyDeserialize {moves:=moves} (topologyObject network.toTopology) =
      match loadNodes {moves:=moves} network.header with
      | .error fault => .error fault
      | .ok state => topologyCreate (state.nodes.items.map fun node => ⟨node.uuid,node.id,textAt state.extra node.addr⟩) network.links
          state.extra.data.items.length := by
  obtain ⟨links,loaded,same⟩ := network.loadLinks {moves:=moves}
  rw [topologyDeserialize,network.readHeader]
  dsimp only
  rw [if_neg (by decide)]
  cases loadNodes {moves:=moves} network.header with
  | error fault => rfl
  | ok state =>
    dsimp only
    rw [loaded]
    dsimp only
    rw [if_neg (by decide),same]

lemma Network.sort (network : Network) {α : Type} (uuid : α → Uuid) (made : Toponode CString → α) (same : ∀ node, uuid (made node) = node.uuid) :
    (network.nodes.map made).insertionSort (fun one two => uuid one ≤ uuid two) = network.nodes.map made := by
  refine List.Pairwise.insertionSort_eq (pairwise_map.mpr (network.sorted.imp ?_))
  intro one two before
  rw [same,same]
  exact before.le

lemma Network.newPlace (network : Network) (inside : index < network.nodes.length) :
    TopologyDiff.newPlace (network.nodes.map bare) index = index := by
  have stays : TopologyDiff.sortNodes (network.nodes.map bare) = network.nodes.map bare := network.sort _ bare fun _ => rfl
  have ids : ((network.nodes.map bare).map TopologyDiff.Toponode.id).Nodup := by
    rw [map_map]
    exact network.ids
  have apart : TopologyDiff.IdsApart (network.nodes.map bare) := fun one first two second same => inj_on_of_nodup_map ids first second same
  have within : index < (network.nodes.map bare).length := by rwa [length_map]
  have here := getElem?_eq_getElem within
  have moved := TopologyDiff.newPlace_resolve here
  rw [TopologyDiff.resolve_apart apart (mem_of_getElem? here),stays,← here] at moved
  exact ((List.getElem?_inj within ids.of_map).mp moved.symm).symm

lemma Network.topologyCreate (network : Network) (extra : Nat) :
    topologyCreate (network.nodes.map known) network.links extra = .ok ⟨network.nodes.map known,network.links,extra⟩ := by
  have within : network.links.all (inside (network.nodes.map known).length) = true := by
    rw [length_map]
    exact all_eq_true.mpr network.within
  have bares : (network.nodes.map known).map bare = network.nodes.map bare := by
    rw [map_map]
    rfl
  have links : (TopologyDiff.create ⟨network.nodes.map bare,network.links⟩).links = network.links := by
    rw [TopologyDiff.create]
    dsimp only
    nth_rewrite 2 [← List.map_id network.links]
    refine map_congr_left fun link member => ?_
    obtain ⟨left,right⟩ := inside_iff.mp (network.within link member)
    rw [network.newPlace left,network.newPlace right]
    rfl
  rw [TopologyCodec.topologyCreate,if_pos within,bares,links,network.sort _ known fun _ => rfl]

lemma Network.nodesOpen (network : Network) : Open network.start.nodes network.nodes.length := by
  have few := network.few
  have small : network.nodes.length * nodeSize < 2^64 := by
    rw [nodeSize]
    omega
  constructor
  · rw [start,create,length_nil,Nat.zero_add]
  · rw [start,create,mod_eq_of_lt small]

lemma Network.growing (network : Network) (positive : 0 < network.extra) : Growing network.start.extra := by
  refine ⟨positive,?_⟩
  show network.extra ≤ network.extra * 1 % 2^64
  rw [Nat.mul_one,mod_eq_of_lt network.extraFits]

end Networks

-- The size of the extra data, doubled until it holds the first address, holds them all.
def Spacious (topology : Topology CString) : Prop :=
  0 < topology.extra ∧ ∀ first ∈ topology.nodes.head?, ∀ doublings, first.addr.size ≤ topology.extra * 2^doublings →
    (addressBytes topology.nodes).length ≤ topology.extra * 2^doublings

section Trips

variable {network : Network}

lemma Network.first_stored (network : Network) (moves : Nat → Bool) (positive : 0 < network.extra) :
    ∃ first rest next, network.nodes = first::rest ∧ Stored moves 0 rest.length network.start first next ∧
      loadNodes {moves:=moves} network.header = storeAll (storeNode {moves:=moves}) 1 next rest := by
  obtain ⟨first,rest,nodes⟩ := exists_cons_of_ne_nil network.filled
  have open_ := network.nodesOpen
  rw [nodes,length_cons] at open_
  obtain ⟨next,done,stored⟩ := storeNode_stored moves 0 open_ (network.growing positive) first
  refine ⟨first,rest,next,nodes,stored,?_⟩
  rw [network.loadNodes_eq,nodes]
  simp only [storeAll,done]

lemma topologySerialize_some (made : topologySerialize calls topology = some obj) : obj = topologyObject topology := by
  simp only [topologySerialize,ite_none_left_eq_some,some_inj] at made
  exact made.2.2.2.2.symm

lemma Network.round_trips (network : Network) (spacious : Spacious network.toTopology) : RoundTrips network.toTopology := by
  intro calls obj made moves
  rw [topologySerialize_some made,network.deserialize_eq]
  obtain ⟨first,rest,next,nodes,stored,loaded⟩ := network.first_stored moves spacious.1
  obtain ⟨enough,⟨doublings,same⟩,_⟩ := newCapacity_least stored.capacity
  have bytes : addressBytes network.nodes = first.addr.terminated ++ addressBytes rest := by rw [nodes,addressBytes_cons]
  have data : next.extra.data.items = first.addr.terminated := stored.data
  have fits : (addressBytes network.nodes).length ≤ next.extra.data.capacity := by
    rw [same]
    refine spacious.2 first (by rw [nodes]; rfl) doublings ?_
    rw [same] at enough
    exact (Nat.le_add_left _ _).trans enough
  obtain ⟨last,done,items,lastData,generation⟩ := storeAll_inside moves 1 stored.open_ stored.growing
    (by rw [data,← length_append,← bytes]; exact fits)
  have all : last.nodes.items = placed last.extra.generation 0 network.nodes := by
    rw [items,stored.nodes,data,generation,nodes,placed,CString.terminated_length,Nat.zero_add]
    rfl
  have texts := placed_texts last.extra [] network.nodes (by rw [lastData,data,bytes]; rfl)
  rw [loaded,done]
  dsimp only
  rw [all]
  exact ⟨_,(congrArg (TopologyCodec.topologyCreate · network.links last.extra.data.items.length) texts).trans (network.topologyCreate _)⟩

lemma mem_of_topologyCreate (made : topologyCreate nodes links extra = .ok topology) (member : node ∈ nodes) : node ∈ topology.nodes := by
  rw [topologyCreate] at made
  split at made
  · cases made
    exact (List.mem_insertionSort _).mpr member
  · cases made

lemma Network.spacious (network : Network) (trips : RoundTrips network.toTopology) : Spacious network.toTopology := by
  have made : topologySerialize {} network.toTopology = some (topologyObject network.toTopology) := by simp [topologySerialize]
  obtain ⟨extra,trip⟩ := trips {} _ made fun _ => true
  rw [network.deserialize_eq] at trip
  have positive : 0 < network.extra := by
    rcases Nat.eq_zero_or_pos network.extra with zero | positive
    · have size : network.header.extraSize = 0 := UInt64.toNat_inj.mp (network.extraSize.trans zero)
      rw [loadNodes_diverges _ (by rw [network.nodeItems.1]; exact network.filled) size] at trip
      cases trip
    · exact positive
  refine ⟨positive,?_⟩
  intro first head doublings fits
  obtain ⟨node,rest,next,nodes,stored,loaded⟩ := network.first_stored (fun _ => true) positive
  rw [nodes,List.head?_cons,Option.mem_some] at head
  subst head
  obtain ⟨_,_,least⟩ := newCapacity_least stored.capacity
  have data : next.extra.data.items = node.addr.terminated := stored.data
  have bytes : addressBytes network.nodes = node.addr.terminated ++ addressBytes rest := by rw [nodes,addressBytes_cons]
  by_contra short
  have below : next.extra.data.capacity < (addressBytes network.nodes).length := by
    have smaller := least doublings ((Nat.zero_add _).le.trans fits)
    exact Nat.lt_of_le_of_lt smaller (not_le.mp short)
  obtain ⟨last,done,kept,_,moved⟩ := storeAll_moved 1 stored.open_ stored.growing stored.fits
  have later := moved (by rw [data,← length_append,← bytes]; exact below)
  rw [loaded,done] at trip
  -- The pointer of the first node leads to where the data were before.
  have member : ⟨node.uuid,node.id,some ⟨next.extra.generation,0⟩⟩ ∈ last.nodes.items := kept.subset (by rw [stored.nodes]; exact mem_singleton.mpr rfl)
  have stale := mem_of_topologyCreate trip (mem_map_of_mem member)
  obtain ⟨other,_,is⟩ := mem_map.mp stale
  have text := congrArg Toponode.addr is
  rw [textAt,if_neg later.ne] at text
  cases text

end Trips

theorem round_trips_iff (network : Network) : RoundTrips network.toTopology ↔ Spacious network.toTopology := ⟨network.spacious,network.round_trips⟩

def withoutExtra : Network where
  nodes := [⟨⟨1,0⟩,0,⟨[97],proper_a⟩⟩,⟨⟨2,0⟩,1,⟨[98],proper_b⟩⟩]
  links := [⟨(0,1),1⟩]
  extra := 0
  filled := cons_ne_nil _ _
  ids := by decide
  sorted := by decide
  within := by decide
  linksFit := by decide
  extraFits := by decide

theorem decoding_without_extra_diverges :
    topologySerialize {} withoutExtra.toTopology = some (topologyObject withoutExtra.toTopology) ∧
      topologyDeserialize {} (topologyObject withoutExtra.toTopology) = .error .diverges := by
  constructor
  · rfl
  · rfl

end MedvedDB.TopologyCodec
