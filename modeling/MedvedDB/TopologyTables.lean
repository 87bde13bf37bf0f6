import MedvedDB.TrackerTables

namespace MedvedDB.TopologyTables

open Tracker (Node Distinct)
open TrackerTables (Tables Link Formed findNode findLink view create create_view perform run run_view)
open TopologyHistory (Call Recorded overwrite addresses changes)
open TrackerView (toponode nodeIndex)
open LinkStates (keyOf)
open TopologyDiff (Topolink newPlace)
open HashMap (Table Valid create entries find)

structure Topology (υ : Type) where
  nodes : List (Node υ)
  links : List Topolink
  deriving DecidableEq, Repr

variable {υ : Type} [LinearOrder υ]

-- The bucket of a number is its remainder by the capacity, which is not to be 0.
-- A node that is not inserted is only logged.
def collect (map : Table (Node υ)) (node : Node υ) : Option (Table (Node υ)) :=
  if map.capacity = 0 then none else some ((HashMap.insert Node.id UInt32.toNat map node).getD map)

-- The capacity is a sum of 32 bits.
def trackerNodes (tables : Tables υ) : Option (Table (Node υ)) :=
  (entries tables.nodes).foldlM collect (create (tables.maxId + 1).toNat)

def trackerLinks (tables : Tables υ) : List Link := if tables.links.size = 0 then [] else entries tables.links

-- The nodes are numbered in the order of the map. A link to a number that the
-- map does not have is a NULL dereference.
def topolink (map : Table (Node υ)) (link : Link) : Option Topolink :=
  match find Node.id UInt32.toNat map link.ids.1,find Node.id UInt32.toNat map link.ids.2 with
  | some first,some second => TrackerView.topolink (entries map) ((first.id,second.id),link.weight)
  | _,_ => none

def topologyCreate (nodes : List (Node υ)) (links : List Topolink) : Topology υ :=
  ⟨nodes.insertionSort fun one two => one.uuid ≤ two.uuid,(TopologyDiff.create ⟨nodes.map toponode,links⟩).links⟩

def trackerTopology (tables : Tables υ) : Option (Topology υ) :=
  (trackerNodes tables).bind fun map => ((trackerLinks tables).mapM (topolink map)).map (topologyCreate (entries map))

def joins (nodes : List (Node υ)) (link : Topolink) : Option (Sym2 υ × UInt32) :=
  match nodes[link.node.1]?,nodes[link.node.2]? with
  | some first,some second => some (s(first.uuid,second.uuid),link.weight)
  | _,_ => none

-- The nodes in the order of their uuids with the given numbers and addresses, and
-- one link for every pair with a weight.
structure Faithful (addrOf : υ → Option (List UInt8)) (idOf : υ → Option UInt32) (weightOf : Sym2 υ → Option UInt32) (topology : Topology υ) : Prop where
  sorted : topology.nodes.Pairwise fun one two => one.uuid < two.uuid
  nodes : ∀ node, node ∈ topology.nodes ↔ addrOf node.uuid = some node.addr ∧ idOf node.uuid = some node.id
  links : ∃ pairs : List (Sym2 υ × UInt32), topology.links.map (joins topology.nodes) = pairs.map some ∧ (pairs.map Prod.fst).Nodup ∧
    ∀ pair weight, (pair,weight) ∈ pairs ↔ weightOf pair = some weight

section Sorting

variable {nodes : List (Node υ)} {links : List Topolink}

lemma topologyCreate_toponodes : (topologyCreate nodes links).nodes.map toponode = TopologyDiff.sortNodes (nodes.map toponode) :=
  List.map_insertionSort _ _ _ _ fun _ _ _ _ => Iff.rfl

lemma mem_topologyCreate : node ∈ (topologyCreate nodes links).nodes ↔ node ∈ nodes := List.mem_insertionSort _

lemma topologyCreate_sorted (once : (nodes.map Node.uuid).Nodup) :
    (topologyCreate nodes links).nodes.Pairwise fun one two => one.uuid < two.uuid := by
  have sorted : (topologyCreate nodes links).nodes.Pairwise fun one two => one.uuid ≤ two.uuid := List.pairwise_insertionSort _ _
  have apart : ((topologyCreate nodes links).nodes.map Node.uuid).Nodup :=
    ((List.perm_insertionSort _ nodes).map Node.uuid).nodup_iff.mpr once
  exact (sorted.and (pairwise_map.mp apart)).imp fun both => lt_of_le_of_ne both.1 both.2

omit [LinearOrder υ] in
lemma apart_of_nodup (apart : (nodes.map Node.id).Nodup) : TopologyDiff.IdsApart (nodes.map toponode) := by
  intro one first two second same
  obtain ⟨left,memberLeft,rfl⟩ := mem_map.mp first
  obtain ⟨right,memberRight,rfl⟩ := mem_map.mp second
  rw [inj_on_of_nodup_map apart memberLeft memberRight same]

lemma newPlace_uuid (links : List Topolink) (apart : (nodes.map Node.id).Nodup) (here : nodes[index]? = some node) :
    ∃ moved, (topologyCreate nodes links).nodes[newPlace (nodes.map toponode) index]? = some moved ∧ moved.uuid = node.uuid := by
  have shown : (nodes.map toponode)[index]? = some (toponode node) := by rw [List.getElem?_map,here,map_some]
  have placed := TopologyDiff.newPlace_resolve shown
  rw [TopologyDiff.resolve_apart (apart_of_nodup apart) (mem_of_getElem? shown),← topologyCreate_toponodes,List.getElem?_map,map_eq_some_iff] at placed
  obtain ⟨moved,at_,same⟩ := placed
  exact ⟨moved,at_,congrArg TopologyDiff.Toponode.uuid same⟩

lemma joins_moved (apart : (nodes.map Node.id).Nodup) (joined : joins nodes link = some shown) :
    joins (topologyCreate nodes links).nodes {link with node:=(newPlace (nodes.map toponode) link.node.1,newPlace (nodes.map toponode) link.node.2)} = some shown := by
  unfold joins at joined
  split at joined
  · rename_i first second foundOne foundTwo
    obtain ⟨one,placeOne,sameOne⟩ := newPlace_uuid links apart foundOne
    obtain ⟨two,placeTwo,sameTwo⟩ := newPlace_uuid links apart foundTwo
    rw [← joined]
    simp only [joins,placeOne,placeTwo,sameOne,sameTwo]
  · cases joined

lemma map_filterMap_some {α β : Type} {f : α → Option β} {items : List α} (all : ∀ item ∈ items, (f item).isSome) :
    items.map f = (items.filterMap f).map some := by
  induction items with
  | nil => rfl
  | cons item items ih =>
    obtain ⟨value,is⟩ := isSome_iff_exists.mp (all item mem_cons_self)
    rw [map_cons,List.filterMap_cons_some is,map_cons,is,ih fun other member => all other (mem_cons_of_mem _ member)]

lemma topologyCreate_joins (apart : (nodes.map Node.id).Nodup) (joined : ∀ link ∈ links, (joins nodes link).isSome) :
    (topologyCreate nodes links).links.map (joins (topologyCreate nodes links).nodes) = (links.filterMap (joins nodes)).map some := by
  rw [← map_filterMap_some joined]
  refine map_map.trans (map_congr_left fun link member => ?_)
  obtain ⟨shown,is⟩ := isSome_iff_exists.mp (joined link member)
  rw [is]
  exact joins_moved apart is

end Sorting

section Walks

variable {hash : υ → Nat} {tables : Tables υ} {map : Table (Node υ)}

lemma distinct_iff (formed : Formed hash tables) : Distinct (view hash tables) ↔ ((entries tables.nodes).map Node.id).Nodup := by
  constructor
  · intro distinct
    refine List.Nodup.map_on ?_ (formed.nodes.once.of_map _)
    intro one first two second same
    exact formed.nodes.bucketed.unique first second (distinct (formed.mem_nodes.mp first) (formed.mem_nodes.mp second) same)
  · intro apart one two first second foundOne foundTwo same
    obtain ⟨memberOne,rfl⟩ := formed.nodes.find_iff.mp foundOne
    obtain ⟨memberTwo,rfl⟩ := formed.nodes.find_iff.mp foundTwo
    rw [inj_on_of_nodup_map apart memberOne memberTwo same]

omit [LinearOrder υ] in
lemma foldlM_collect (valid : Valid Node.id UInt32.toNat map) (apart : ((entries map ++ nodes).map Node.id).Nodup) :
    ∃ after, nodes.foldlM collect map = some after ∧ Valid Node.id UInt32.toNat after ∧ (entries after).Perm (entries map ++ nodes) := by
  induction nodes generalizing map with
  | nil => exact ⟨map,rfl,valid,by rw [append_nil]⟩
  | cons node rest ih =>
    have split := apart
    rw [map_append,map_cons] at split
    have fresh : node.id ∉ (entries map).map Node.id := fun member =>
      (nodup_cons.mp (nodup_middle.mp split)).1 (mem_append_left _ member)
    obtain ⟨middle,made,now,perm⟩ := valid.insert_new fresh
    have whole : (entries middle ++ rest).Perm (entries map ++ node::rest) := by
      rw [List.append_cons]
      exact perm.append_right rest
    obtain ⟨after,folded,done,all⟩ := ih now ((whole.map _).nodup_iff.mpr apart)
    refine ⟨after,?_,done,all.trans whole⟩
    rw [foldlM_cons,collect,if_neg (Nat.ne_of_gt valid.room),made]
    exact folded

structure Collected (tables : Tables υ) (map : Table (Node υ)) : Prop where
  valid : Valid Node.id UInt32.toNat map
  same : (entries map).Perm (entries tables.nodes)

lemma trackerNodes_collected (formed : Formed hash tables) (distinct : Distinct (view hash tables)) (room : tables.maxId + 1 ≠ 0) :
    ∃ map, trackerNodes tables = some map ∧ Collected tables map := by
  have capacity : 0 < (tables.maxId + 1).toNat := Nat.pos_of_ne_zero fun zero => room (UInt32.toNat_inj.mp zero)
  have empty : entries (create (tables.maxId + 1).toNat : Table (Node υ)) = [] := List.flatMap_eq_nil_iff.mpr fun _ _ => rfl
  have apart := (distinct_iff formed).mp distinct
  obtain ⟨map,folded,valid,perm⟩ := foldlM_collect (HashMap.create_valid capacity) (by rw [empty]; exact apart)
  rw [empty] at perm
  exact ⟨map,folded,valid,perm⟩

lemma trackerNodes_full (full : tables.maxId + 1 = 0) (member : node ∈ entries tables.nodes) : trackerNodes tables = none := by
  obtain ⟨head,rest,is⟩ := exists_cons_of_ne_nil (List.ne_nil_of_mem member)
  have bare : collect (create (tables.maxId + 1).toNat) head = none := by
    rw [full]
    exact if_pos rfl
  rw [trackerNodes,is,foldlM_cons,bare]
  rfl

lemma trackerLinks_entries (formed : Formed hash tables) : trackerLinks tables = entries tables.links := by
  unfold trackerLinks
  split
  · rename_i zero
    exact (length_eq_zero_iff.mp (formed.links.size.symm.trans zero)).symm
  · rfl

end Walks

section Links

variable {hash : υ → Nat} {tables : Tables υ} {map : Table (Node υ)} {link : Link} {addrOf : υ → Option (List UInt8)} {weightOf : Sym2 υ → Option UInt32}

lemma view_link (formed : Formed hash tables) (member : link ∈ entries tables.links) : (view hash tables).links link.key = some link.weight := by
  have found : findLink tables link.key = some link := formed.links.find_iff.mpr ⟨member,rfl⟩
  simp only [view,found,map_some]

lemma link_ends (formed : Formed hash tables) (recorded : Recorded addrOf weightOf (view hash tables)) (member : link ∈ entries tables.links) :
    ∃ first ∈ entries tables.nodes, ∃ second ∈ entries tables.nodes, (first.id,second.id) = link.ids := by
  obtain ⟨⟨one,two⟩,keyed⟩ := recorded.keyed link.key (isSome_of_eq_some (view_link formed member))
  obtain ⟨left,right,isLeft,isRight,same⟩ := (TrackerView.keyOf_some recorded.sound).mp keyed
  have memberLeft := (formed.nodes.find_iff.mp isLeft).1
  have memberRight := (formed.nodes.find_iff.mp isRight).1
  have ids : s(left.id,right.id) = s(link.ids.1,link.ids.2) := TrackerView.linkKey_eq_iff.mp same
  rcases Sym2.eq_iff.mp ids with ⟨first,second⟩ | ⟨first,second⟩
  · exact ⟨left,memberLeft,right,memberRight,Prod.ext first second⟩
  · exact ⟨right,memberRight,left,memberLeft,Prod.ext second first⟩

def Joins (hash : υ → Nat) (tables : Tables υ) (link : Link) (pair : Sym2 υ) : Prop := ∃ one two, s(one,two) = pair ∧ keyOf (view hash tables) (one,two) = some link.key

lemma Collected.topolink (collected : Collected tables map) (formed : Formed hash tables) (recorded : Recorded addrOf weightOf (view hash tables))
    (member : link ∈ entries tables.links) :
    ∃ made pair, TopologyTables.topolink map link = some made ∧ joins (entries map) made = some (pair,link.weight) ∧ Joins hash tables link pair := by
  have place {node : Node υ} (among : node ∈ entries tables.nodes) :
      find Node.id UInt32.toNat map node.id = some node ∧
        ∃ index, nodeIndex (entries map) node.id = some index ∧ (entries map)[index]? = some node := by
    have inside := collected.same.mem_iff.mpr among
    obtain ⟨index,is⟩ := TrackerView.nodeIndex_mem inside
    obtain ⟨other,at_,same⟩ := TrackerView.nodeIndex_some is
    rw [collected.valid.bucketed.unique (mem_of_getElem? at_) inside same] at at_
    exact ⟨collected.valid.find_iff.mpr ⟨inside,rfl⟩,index,is,at_⟩
  obtain ⟨first,memberOne,second,memberTwo,ids⟩ := link_ends formed recorded member
  obtain ⟨foundOne,one,indexOne,placeOne⟩ := place memberOne
  obtain ⟨foundTwo,two,indexTwo,placeTwo⟩ := place memberTwo
  refine ⟨⟨(one,two),link.weight⟩,s(first.uuid,second.uuid),?_,?_,first.uuid,second.uuid,rfl,?_⟩
  · simp only [TopologyTables.topolink,← ids,foundOne,foundTwo,TrackerView.topolink,indexOne,indexTwo]
  · simp only [joins,placeOne,placeTwo]
  · refine (TrackerView.keyOf_some recorded.sound).mpr ⟨first,second,formed.mem_nodes.mp memberOne,formed.mem_nodes.mp memberTwo,?_⟩
    rw [ids]
    rfl

lemma Joins.weight (joined : Joins hash tables link pair) (formed : Formed hash tables) (recorded : Recorded addrOf weightOf (view hash tables))
    (member : link ∈ entries tables.links) : weightOf pair = some link.weight := by
  obtain ⟨one,two,rfl,keyed⟩ := joined
  rw [← recorded.links one two link.key keyed,view_link formed member]

lemma Joins.unique (first : Joins hash tables link pair) (second : Joins hash tables link other)
    (recorded : Recorded addrOf weightOf (view hash tables)) (distinct : Distinct (view hash tables)) : pair = other := by
  obtain ⟨one,two,rfl,keyedOne⟩ := first
  obtain ⟨three,four,rfl,keyedTwo⟩ := second
  exact TrackerView.keyOf_injective recorded.sound distinct keyedOne keyedTwo

lemma Joins.key (first : Joins hash tables link pair) (second : Joins hash tables other pair) : link.key = other.key := by
  obtain ⟨one,two,rfl,keyedOne⟩ := first
  obtain ⟨three,four,same,keyedTwo⟩ := second
  have again : keyOf (view hash tables) (three,four) = keyOf (view hash tables) (one,two) := LinkStates.keyOf_congr same
  rw [keyedOne,keyedTwo,some_inj] at again
  exact again.symm

lemma link_stored (recorded : Recorded addrOf weightOf (view hash tables)) (formed : Formed hash tables)
    (held : weightOf pair = some weight) : ∃ link ∈ entries tables.links, Joins hash tables link pair ∧ link.weight = weight := by
  induction pair with
  | _ one two =>
    obtain ⟨foundOne,foundTwo⟩ := recorded.ends one two (isSome_of_eq_some held)
    obtain ⟨key,keyed⟩ := LinkStates.keyOf_registered foundOne foundTwo
    have is := recorded.links one two key keyed
    rw [held] at is
    obtain ⟨link,found,weighs⟩ := map_eq_some_iff.mp is
    obtain ⟨member,same⟩ := formed.links.find_iff.mp found
    exact ⟨link,member,⟨one,two,rfl,same ▸ keyed⟩,weighs⟩

def shown (map : Table (Node υ)) (link : Link) : Option (Sym2 υ × UInt32) :=
  (topolink map link).bind fun made => joins (entries map) made

section Shown

variable (collected : Collected tables map) (formed : Formed hash tables) (recorded : Recorded addrOf weightOf (view hash tables))

include collected formed recorded

lemma shown_some (member : link ∈ entries tables.links) : ∃ pair, shown map link = some (pair,link.weight) ∧ Joins hash tables link pair := by
  obtain ⟨made,pair,is,joined,belongs⟩ := collected.topolink formed recorded member
  exact ⟨pair,by rw [shown,is,bind_some,joined],belongs⟩

lemma shown_nodup : (((entries tables.links).filterMap (shown map)).map Prod.fst).Nodup := by
  refine pairwise_map.mpr (List.pairwise_filterMap.mpr ?_)
  refine (pairwise_map.mp formed.links.once).imp_of_mem fun {one two} first second apart => ?_
  intro left isLeft right isRight same
  obtain ⟨pair,showsOne,joinsOne⟩ := shown_some collected formed recorded first
  obtain ⟨other,showsTwo,joinsTwo⟩ := shown_some collected formed recorded second
  cases showsOne.symm.trans isLeft
  cases showsTwo.symm.trans isRight
  cases same
  exact apart (joinsOne.key joinsTwo)

lemma mem_shown (distinct : Distinct (view hash tables)) :
    (pair,weight) ∈ (entries tables.links).filterMap (shown map) ↔ weightOf pair = some weight := by
  rw [mem_filterMap]
  constructor
  · rintro ⟨link,member,is⟩
    obtain ⟨other,shows,joined⟩ := shown_some collected formed recorded member
    cases shows.symm.trans is
    exact joined.weight formed recorded member
  · intro held
    obtain ⟨link,member,joined,rfl⟩ := link_stored recorded formed held
    obtain ⟨other,shows,again⟩ := shown_some collected formed recorded member
    exact ⟨link,member,by rw [shows,again.unique joined recorded distinct]⟩

end Shown

end Links

section Whole

variable {hash : υ → Nat} {tables final : Tables υ} {addrOf : υ → Option (List UInt8)} {weightOf : Sym2 υ → Option UInt32}

lemma mem_nodes_iff (formed : Formed hash tables) (node : Node υ) :
    node ∈ entries tables.nodes ↔
      (findNode hash tables node.uuid).map Node.addr = some node.addr ∧ (findNode hash tables node.uuid).map Node.id = some node.id := by
  rw [formed.mem_nodes]
  constructor
  · intro found
    rw [found]
    exact ⟨rfl,rfl⟩
  · rintro ⟨addr,id⟩
    obtain ⟨other,found,sameAddr⟩ := map_eq_some_iff.mp addr
    rw [found,map_some,some_inj] at id
    obtain ⟨_,sameUuid⟩ := formed.nodes.find_iff.mp found
    obtain ⟨uuid,number,address⟩ := node
    cases sameUuid
    cases id
    cases sameAddr
    exact found

lemma trackerTopology_faithful (formed : Formed hash tables) (recorded : Recorded addrOf weightOf (view hash tables)) (distinct : Distinct (view hash tables))
    (room : tables.maxId + 1 ≠ 0) :
    ∃ topology, trackerTopology tables = some topology ∧ Faithful addrOf (fun uuid => (findNode hash tables uuid).map Node.id) weightOf topology := by
  obtain ⟨map,made,collected⟩ := trackerNodes_collected formed distinct room
  have uuids : ((entries map).map Node.uuid).Nodup := (collected.same.map _).nodup_iff.mpr formed.nodes.once
  have all : (trackerLinks tables).mapM (topolink map) = some ((entries tables.links).filterMap (topolink map)) := by
    rw [trackerLinks_entries formed]
    refine TrackerView.mapM_filterMap fun link member => ?_
    obtain ⟨_,_,is,_⟩ := collected.topolink formed recorded member
    exact isSome_of_eq_some is
  have joined : ∀ link ∈ (entries tables.links).filterMap (topolink map), (joins (entries map) link).isSome := by
    intro link member
    obtain ⟨source,among,is⟩ := mem_filterMap.mp member
    obtain ⟨_,_,again,shows,_⟩ := collected.topolink formed recorded among
    cases again.symm.trans is
    exact isSome_of_eq_some shows
  refine ⟨_,by rw [trackerTopology,made,bind_some,all,map_some],topologyCreate_sorted uuids,?_,(entries tables.links).filterMap (shown map),?_,?_,?_⟩
  · intro node
    rw [mem_topologyCreate,collected.same.mem_iff,mem_nodes_iff formed,← recorded.addrs]
    rfl
  · rw [topologyCreate_joins collected.valid.once joined,List.filterMap_filterMap]
    rfl
  · exact shown_nodup collected formed recorded
  · intro pair weight
    exact mem_shown collected formed recorded distinct

theorem topology_faithful_iff {uuid : υ} {storage : KeyMap υ (UInt32 × List UInt8)} {listen : List UInt8} {calls : List (Call υ)}
    (own : ∀ id addr, storage.find uuid = some (id,addr) → id = localId) (created : create hash uuid storage listen = some tables)
    (ran : run hash tables calls = some final) (distinct : Distinct (view hash final)) :
    (∃ topology, trackerTopology final = some topology ∧
      Faithful (overwrite (fun other => (findNode hash tables other).map Node.addr) (calls.flatMap addresses)) (fun other => (findNode hash final other).map Node.id)
        (overwrite (fun _ => none) (calls.flatMap changes)) topology) ↔
      final.maxId + 1 ≠ 0 := by
  obtain ⟨formed,abstract⟩ := create_view created
  obtain ⟨after,history⟩ := run_view formed ran
  have loadable := TopologyHistory.loadable_of_distinct abstract own (TopologyHistory.run_distinct history distinct)
  have recorded := (TopologyHistory.create_recorded loadable abstract).run history distinct
  constructor
  · rintro ⟨topology,shown,_⟩ full
    obtain ⟨node,is,_⟩ := recorded.sound.own
    rw [trackerTopology,trackerNodes_full full (after.nodes.find_iff.mp is).1] at shown
    cases shown
  · exact trackerTopology_faithful after recorded distinct

end Whole

def relinked : List (Call Nat) := [.register 2 [7],.register 1 [8],.linkstate 2 1 true 5,.register 2 [9],.linkstate 1 2 true 6,.linkstate 0 1 true 1,.linkstate 1 0 false 1]

theorem relinked_faithful :
    ∃ tables final topology, create id 0 KeyMap.empty [] = some tables ∧ run id tables relinked = some final ∧
      trackerTopology final = some topology ∧
      Faithful (overwrite (fun other => (findNode id tables other).map Node.addr) (relinked.flatMap addresses)) (fun other => (findNode id final other).map Node.id)
        (overwrite (fun _ => none) (relinked.flatMap changes)) topology := by
  have ends : ((create id 0 KeyMap.empty []).bind fun tables => (run id tables relinked).map fun final =>
      decide ((entries final.nodes).map Node.id).Nodup && decide (final.maxId + 1 ≠ 0)) = some true := by decide +kernel
  have own : ∀ id addr, (KeyMap.empty : KeyMap Nat (UInt32 × List UInt8)).find 0 = some (id,addr) → id = localId := fun _ _ found => nomatch found
  obtain ⟨tables,created,rest⟩ := bind_eq_some_iff.mp ends
  obtain ⟨final,ran,fine⟩ := map_eq_some_iff.mp rest
  obtain ⟨apart,room⟩ := and_eq_true_iff.mp fine
  obtain ⟨formed,_⟩ := run_view (create_view created).1 ran
  obtain ⟨topology,shown,faithful⟩ := (topology_faithful_iff own created ran ((distinct_iff formed).mpr (of_decide_eq_true apart))).mpr (of_decide_eq_true room)
  exact ⟨tables,final,topology,created,ran,shown,faithful⟩

section Full

structure Filled (count : Nat) (tables : Tables Nat) : Prop where
  formed : Formed id tables
  counter : tables.maxId = UInt32.ofNat count
  own : (findNode id tables 0).isSome
  numbered : ∀ uuid node, findNode id tables uuid = some node → uuid ≤ count ∧ node.id = UInt32.ofNat uuid

variable {tables : Tables Nat} {count : Nat}

lemma Filled.distinct (filled : Filled count tables) (below : count < 2 ^ 32) : Distinct (view id tables) := by
  intro one two first second foundOne foundTwo same
  obtain ⟨smallOne,isOne⟩ := filled.numbered one first foundOne
  obtain ⟨smallTwo,isTwo⟩ := filled.numbered two second foundTwo
  rw [isOne,isTwo,← UInt32.toNat_inj,toNat_ofNat_of_lt' (lt_of_le_of_lt smallOne below),
    toNat_ofNat_of_lt' (lt_of_le_of_lt smallTwo below)] at same
  exact same

lemma Filled.register (filled : Filled count tables) :
    ∃ after, TrackerTables.register id tables (count + 1) [] = (.ok,after) ∧ Filled (count + 1) after := by
  have simulated := TrackerTables.register_simulates filled.formed (count + 1) []
  have fresh : (view id tables).nodes (count + 1) = none := by
    refine Option.eq_none_iff_forall_not_mem.mpr fun node found => ?_
    have small := (filled.numbered (count + 1) node found).1
    omega
  have next : (view id tables).maxId + 1 = UInt32.ofNat (count + 1) := (congrArg (· + 1) filled.counter).trans (UInt32.ofNat_add count 1).symm
  obtain ⟨err,formed,same⟩ := simulated
  simp only [Tracker.register,fresh,Tracker.newId,next,Tracker.nodeInit] at err same
  have nodes (uuid : Nat) : findNode id (TrackerTables.register id tables (count + 1) []).2 uuid =
      if uuid = count + 1 then some ⟨count + 1,UInt32.ofNat (count + 1),[]⟩ else findNode id tables uuid := congrFun (congrArg Tracker.State.nodes same) uuid
  refine ⟨_,Prod.ext err rfl,formed,congrArg Tracker.State.maxId same,?_,?_⟩
  · rw [nodes,if_neg (succ_ne_zero count).symm]
    exact filled.own
  · intro uuid node found
    rw [nodes] at found
    split at found
    · rename_i newest
      cases found
      exact ⟨newest.le,by rw [newest]⟩
    · obtain ⟨small,is⟩ := filled.numbered uuid node found
      exact ⟨Nat.le_succ_of_le small,is⟩

lemma run_filled (filled : Filled count tables) (more : Nat) :
    ∃ final, run id tables ((range' (count + 1) more).map fun uuid => .register uuid []) = some final ∧ Filled (count + more) final := by
  induction more generalizing count tables with
  | zero => exact ⟨tables,rfl,filled⟩
  | succ more ih =>
    obtain ⟨middle,registered,now⟩ := filled.register
    obtain ⟨final,ran,done⟩ := ih now
    refine ⟨final,?_,by rwa [Nat.add_right_comm] at done⟩
    rw [range'_succ,map_cons,run,perform,registered]
    exact ran

end Full

theorem full_tracker_without_topology :
    ∃ tables final : Tables Nat, ∃ calls : List (Call Nat), create id 0 KeyMap.empty [] = some tables ∧ run id tables calls = some final ∧
      Distinct (view id final) ∧ trackerTopology final = none := by
  obtain ⟨tables,created⟩ : ∃ tables : Tables Nat, create id 0 KeyMap.empty [] = some tables := ⟨_,rfl⟩
  obtain ⟨formed,abstract⟩ := create_view created
  have nodes (uuid : Nat) : findNode id tables uuid = if uuid = 0 then some ⟨0,localId,[]⟩ else none := Tracker.create_nodes abstract uuid
  have empty : Filled 0 tables := by
    refine ⟨formed,Tracker.create_maxId abstract,by rw [nodes]; rfl,?_⟩
    intro uuid node found
    rw [nodes] at found
    split at found
    · rename_i first
      cases found
      exact ⟨first.le,by rw [first]; rfl⟩
    · cases found
  obtain ⟨final,ran,filled⟩ := run_filled empty (2 ^ 32 - 1)
  have full : final.maxId + 1 = 0 := by
    rw [filled.counter]
    decide
  obtain ⟨node,found⟩ := isSome_iff_exists.mp filled.own
  refine ⟨tables,final,_,created,ran,filled.distinct (by omega),?_⟩
  rw [trackerTopology,trackerNodes_full full (filled.formed.nodes.find_iff.mp found).1]
  rfl

end MedvedDB.TopologyTables
