import MedvedDB.Prelude

namespace MedvedDB.TopologyDiff

structure Toponode (υ : Type) where
  uuid : υ
  id : UInt32
  deriving DecidableEq, Repr

structure Topolink where
  node : Nat × Nat
  weight : UInt32
  deriving DecidableEq, Repr

structure Topology (υ : Type) where
  nodes : List (Toponode υ)
  links : List Topolink
  deriving DecidableEq, Repr

def emptyTopology {υ : Type} : Topology υ := ⟨[],[]⟩

variable {υ : Type}

def ends (nodes : List (Toponode υ)) (link : Topolink) : Option (Toponode υ × Toponode υ) :=
  match nodes[link.node.1]?,nodes[link.node.2]? with
  | some lnode,some rnode => some (lnode,rnode)
  | _,_ => none

def pairOf (nodes : List (Toponode υ)) (link : Topolink) : Option (Sym2 υ) :=
  (ends nodes link).map fun nodes => s(nodes.1.uuid,nodes.2.uuid)

variable {nodes : List (Toponode υ)}

lemma pairOf_ends (found : ends nodes link = some (lnode,rnode)) : pairOf nodes link = some s(lnode.uuid,rnode.uuid) := by
  rw [pairOf,found]
  rfl

-- A topology as the set of its links with their weights.
def Links (topology : Topology υ) (pair : Sym2 υ) (weight : UInt32) : Prop :=
  ∃ link ∈ topology.links, pairOf topology.nodes link = some pair ∧ link.weight = weight

def Linked (topology : Topology υ) (pair : Sym2 υ) : Prop := ∃ weight, Links topology pair weight

-- Links between the nodes of the topology, and nodes with different uuids and
-- different ids.
structure Network (υ : Type) extends Topology υ where
  inside : ∀ link ∈ links, link.node.1 < nodes.length ∧ link.node.2 < nodes.length
  uuids : (nodes.map Toponode.uuid).Nodup
  ids : (nodes.map Toponode.id).Nodup

lemma Network.sameUuid (network : Network υ)
    (first : one ∈ network.nodes) (second : two ∈ network.nodes) (same : one.uuid = two.uuid) : one = two :=
  inj_on_of_nodup_map network.uuids first second same

lemma Network.sameId (network : Network υ)
    (first : one ∈ network.nodes) (second : two ∈ network.nodes) (same : one.id = two.id) : one = two :=
  inj_on_of_nodup_map network.ids first second same

-- A topology that is a set of weighted links, with their ends as its nodes.
structure Shows (topology : Topology υ) (expected : Sym2 υ → UInt32 → Prop) : Prop where
  links : ∀ pair weight, Links topology pair weight ↔ expected pair weight
  nodes : ∀ uuid, (∃ node ∈ topology.nodes, node.uuid = uuid) ↔ ∃ pair weight, expected pair weight ∧ uuid ∈ pair

lemma Shows.iff {given expected : Sym2 υ → UInt32 → Prop} (shows : Shows topology given) :
    Shows topology expected ↔ ∀ pair weight, given pair weight ↔ expected pair weight := by
  constructor
  · intro other pair weight
    rw [← shows.links,other.links]
  · intro same
    have equal : given = expected := funext fun pair => funext fun weight => propext (same pair weight)
    rwa [← equal]

lemma empty_shows : Shows (emptyTopology : Topology υ) fun _ _ => False := ⟨by simp [Links,emptyTopology],by simp [emptyTopology]⟩

def used (links : List Topolink) (index : Nat) : Bool := links.any fun link => link.node.1 = index ∨ link.node.2 = index

-- The entry of node_idxs for a linked node: how many linked nodes come before it.
def nodeIdx (links : List Topolink) (index : Nat) : Nat := ((List.range index).filter (used links)).length

-- The linked nodes in their order and the links with their new indices.
def linkedNodes (links : List Topolink) (nodes : List (Toponode υ)) : Topology υ :=
  ⟨(nodes.zipIdx.filter fun entry => used links entry.2).map Prod.fst,
    links.map fun link => {link with node:=(nodeIdx links link.node.1,nodeIdx links link.node.2)}⟩

section Renumbering

variable {nodes : List (Toponode υ)} {links : List Topolink} {link : Topolink}

lemma marked_place {α : Type} (marked : Nat → Bool) (items : List α) (first index : Nat) (mark : marked (first + index) = true)
    (inside : index < items.length) :
    (((items.zipIdx first).filter fun entry => marked entry.2).map Prod.fst)[((range' first index).filter marked).length]? =
      items[index]? := by
  induction items generalizing first index with
  | nil => cases inside
  | cons item items ih =>
    rw [List.zipIdx_cons]
    cases index with
    | zero =>
      have here : marked first = true := mark
      simp [here]
    | succ index =>
      have later := ih (first + 1) index (by rw [← mark,Nat.add_right_comm,Nat.add_assoc]) (Nat.lt_of_succ_lt_succ inside)
      rw [range'_succ]
      cases here : marked first <;> simp [here,later]

lemma linkedNodes_place (mark : used links index = true) (inside : index < nodes.length) :
    (linkedNodes links nodes).nodes[nodeIdx links index]? = nodes[index]? := by
  have placed := marked_place (used links) nodes 0 index (by rw [Nat.zero_add]; exact mark) inside
  rwa [← List.range_eq_range'] at placed

lemma used_of_mem (member : link ∈ links) : used links link.node.1 = true ∧ used links link.node.2 = true := by
  constructor
  · exact any_eq_true.mpr ⟨link,member,by simp⟩
  · exact any_eq_true.mpr ⟨link,member,by simp⟩

def Within (nodes : List (Toponode υ)) (links : List Topolink) : Prop :=
  ∀ link ∈ links, link.node.1 < nodes.length ∧ link.node.2 < nodes.length

lemma Within.ends (within : Within nodes links) (member : link ∈ links) :
    ∃ lnode rnode, nodes[link.node.1]? = some lnode ∧ nodes[link.node.2]? = some rnode ∧ ends nodes link = some (lnode,rnode) := by
  obtain ⟨left,right⟩ := within link member
  refine ⟨nodes[link.node.1],nodes[link.node.2],getElem?_eq_getElem left,getElem?_eq_getElem right,?_⟩
  simp [TopologyDiff.ends,getElem?_eq_getElem left,getElem?_eq_getElem right]

lemma linkedNodes_ends (within : Within nodes links) (member : link ∈ links) :
    ends (linkedNodes links nodes).nodes {link with node:=(nodeIdx links link.node.1,nodeIdx links link.node.2)} = ends nodes link := by
  obtain ⟨left,right⟩ := within link member
  obtain ⟨leftUsed,rightUsed⟩ := used_of_mem member
  simp only [ends,linkedNodes_place leftUsed left,linkedNodes_place rightUsed right]

lemma linkedNodes_links (within : Within nodes links) :
    Links (linkedNodes links nodes) pair weight ↔ Links ⟨nodes,links⟩ pair weight := by
  constructor
  · intro found
    obtain ⟨renumbered,member,is,same⟩ := found
    obtain ⟨link,belongs,rfl⟩ := mem_map.mp member
    refine ⟨link,belongs,?_,same⟩
    rw [pairOf,linkedNodes_ends within belongs] at is
    exact is
  · intro found
    obtain ⟨link,belongs,is,same⟩ := found
    refine ⟨_,mem_map_of_mem belongs,?_,same⟩
    rw [pairOf,linkedNodes_ends within belongs]
    exact is

variable {node : Toponode υ}

lemma mem_linkedNodes :
    node ∈ (linkedNodes links nodes).nodes ↔ ∃ index, nodes[index]? = some node ∧ used links index = true := by
  simp only [linkedNodes,mem_map,mem_filter,Prod.exists,List.mem_zipIdx_iff_getElem?]
  constructor
  · intro found
    obtain ⟨other,index,⟨place,mark⟩,rfl⟩ := found
    exact ⟨index,place,mark⟩
  · intro found
    obtain ⟨index,place,mark⟩ := found
    exact ⟨node,index,⟨place,mark⟩,rfl⟩

lemma linkedNodes_touched (within : Within nodes links) (member : node ∈ (linkedNodes links nodes).nodes) :
    ∃ pair weight, Links ⟨nodes,links⟩ pair weight ∧ node.uuid ∈ pair := by
  obtain ⟨index,place,mark⟩ := mem_linkedNodes.mp member
  obtain ⟨link,belongs,either⟩ := any_eq_true.mp mark
  obtain ⟨lnode,rnode,left,right,joined⟩ := within.ends belongs
  refine ⟨_,link.weight,⟨link,belongs,pairOf_ends joined,rfl⟩,?_⟩
  rw [decide_eq_true_eq] at either
  rcases either with rfl | rfl
  · rw [left,some_inj] at place
    simp [place]
  · rw [right,some_inj] at place
    simp [place]

lemma touched_linkedNodes (within : Within nodes links)
    (found : Links ⟨nodes,links⟩ pair weight) (member : uuid ∈ pair) : ∃ node ∈ (linkedNodes links nodes).nodes, node.uuid = uuid := by
  obtain ⟨link,belongs,is,_⟩ := found
  obtain ⟨lnode,rnode,left,right,joined⟩ := within.ends belongs
  obtain ⟨leftUsed,rightUsed⟩ := used_of_mem belongs
  rw [pairOf_ends joined,some_inj] at is
  rw [← is,Sym2.mem_iff] at member
  rcases member with rfl | rfl
  · exact ⟨lnode,mem_linkedNodes.mpr ⟨_,left,leftUsed⟩,rfl⟩
  · exact ⟨rnode,mem_linkedNodes.mpr ⟨_,right,rightUsed⟩,rfl⟩

lemma linkedNodes_within (within : Within nodes links) :
    Within (linkedNodes links nodes).nodes (linkedNodes links nodes).links := by
  intro renumbered member
  obtain ⟨link,belongs,rfl⟩ := mem_map.mp member
  obtain ⟨left,right⟩ := within link belongs
  obtain ⟨leftUsed,rightUsed⟩ := used_of_mem belongs
  have first := linkedNodes_place leftUsed left
  have second := linkedNodes_place rightUsed right
  rw [getElem?_eq_getElem left] at first
  rw [getElem?_eq_getElem right] at second
  exact ⟨(List.getElem?_eq_some_iff.mp first).1,(List.getElem?_eq_some_iff.mp second).1⟩

lemma linkedNodes_subset (member : node ∈ (linkedNodes links nodes).nodes) : node ∈ nodes := by
  obtain ⟨index,place,_⟩ := mem_linkedNodes.mp member
  exact mem_of_getElem? place

lemma linkedNodes_shows {given : Sym2 υ → UInt32 → Prop} (within : Within nodes links)
    (same : ∀ pair weight, Links ⟨nodes,links⟩ pair weight ↔ given pair weight) : Shows (linkedNodes links nodes) given := by
  constructor
  · intro pair weight
    rw [linkedNodes_links within,same]
  · intro uuid
    constructor
    · intro found
      obtain ⟨node,member,rfl⟩ := found
      obtain ⟨pair,weight,is,touches⟩ := linkedNodes_touched within member
      exact ⟨pair,weight,(same pair weight).mp is,touches⟩
    · intro found
      obtain ⟨pair,weight,is,touches⟩ := found
      exact touched_linkedNodes within ((same pair weight).mpr is) touches

end Renumbering

lemma getElem?_extends {known back : List (Toponode υ)} {index : Nat} {other : Toponode υ} (place : known[index]? = some other) :
    (known ++ back)[index]? = some other := by
  rw [List.getElem?_append_left (List.getElem?_eq_some_iff.mp place).1,place]

-- The map from ids to places; a later node replaces an earlier one with its id.
def idPlaces (nodes : List (Toponode υ)) : UInt32 → Option Nat :=
  nodes.zipIdx.foldl (fun places entry => update places entry.1.id (some entry.2)) fun _ => none

lemma idPlaces_some {known : UInt32} (present : ∃ node ∈ nodes, node.id = known) :
    ∃ index found, idPlaces nodes known = some index ∧ nodes[index]? = some found ∧ found.id = known := by
  induction nodes using reverseRecOn with
  | nil => simp at present
  | append_singleton front last ih =>
    have step : idPlaces (front ++ [last]) = update (idPlaces front) last.id (some front.length) := by
      simp [idPlaces,List.zipIdx_append]
    rw [step]
    by_cases here : known = last.id
    · subst here
      exact ⟨front.length,last,update_self _ _ _,by simp,rfl⟩
    · have earlier : ∃ node ∈ front, node.id = known := by
        obtain ⟨node,member,same⟩ := present
        rcases mem_append.mp member with early | final
        · exact ⟨node,early,same⟩
        · rw [mem_singleton.mp final] at same
          exact absurd same.symm here
      obtain ⟨index,found,place,at_,same⟩ := ih earlier
      exact ⟨index,found,by rw [update_of_ne here,place],getElem?_extends at_,same⟩

lemma ends_mem (joined : ends nodes link = some (lnode,rnode)) :
    lnode ∈ nodes ∧ rnode ∈ nodes := by
  unfold ends at joined
  split at joined
  · rename_i left right
    cases joined
    exact ⟨mem_of_getElem? left,mem_of_getElem? right⟩
  · cases joined

variable [LinearOrder υ]

def sortNodes (nodes : List (Toponode υ)) : List (Toponode υ) := nodes.insertionSort fun one two => one.uuid ≤ two.uuid

def newPlace (nodes : List (Toponode υ)) (index : Nat) : Nat :=
  ((nodes[index]?).bind fun node => idPlaces (sortNodes nodes) node.id).getD 0

-- mdv_topology_create: indices become ids, the nodes are sorted, and ids become
-- indices again.
def create (topology : Topology υ) : Topology υ :=
  ⟨sortNodes topology.nodes,
    topology.links.map fun link => {link with node:=(newPlace topology.nodes link.node.1,newPlace topology.nodes link.node.2)}⟩

section Creating

variable {nodes : List (Toponode υ)} {topology : Topology υ} {given expected : Sym2 υ → UInt32 → Prop}

variable {pair : Sym2 υ} {node : Toponode υ} {weight : UInt32}

lemma mem_sortNodes : node ∈ sortNodes nodes ↔ node ∈ nodes := List.mem_insertionSort _

def resolve (nodes : List (Toponode υ)) (known : UInt32) : Option (Toponode υ) :=
  (idPlaces (sortNodes nodes) known).bind fun index => (sortNodes nodes)[index]?

lemma resolve_some (member : node ∈ nodes) :
    ∃ found ∈ nodes, resolve nodes node.id = some found ∧ found.id = node.id := by
  obtain ⟨index,found,place,at_,same⟩ := idPlaces_some ⟨node,mem_sortNodes.mpr member,rfl⟩
  exact ⟨found,mem_sortNodes.mp (mem_of_getElem? at_),by simp [resolve,place,at_],same⟩

lemma newPlace_resolve (here : nodes[index]? = some node) :
    (sortNodes nodes)[newPlace nodes index]? = resolve nodes node.id := by
  obtain ⟨place,found,known,_⟩ := idPlaces_some ⟨node,mem_sortNodes.mpr (mem_of_getElem? here),rfl⟩
  simp [newPlace,here,resolve,known]

lemma create_links (within : Within topology.nodes topology.links) :
    Links (create topology) pair weight ↔
      ∃ link ∈ topology.links, ∃ lnode rnode left right, ends topology.nodes link = some (lnode,rnode) ∧
        resolve topology.nodes lnode.id = some left ∧ resolve topology.nodes rnode.id = some right ∧
        s(left.uuid,right.uuid) = pair ∧ link.weight = weight := by
  have moved {link : Topolink} (member : link ∈ topology.links) :
      ∃ lnode rnode left right, ends topology.nodes link = some (lnode,rnode) ∧
        resolve topology.nodes lnode.id = some left ∧ resolve topology.nodes rnode.id = some right ∧
        pairOf (create topology).nodes
          {link with node:=(newPlace topology.nodes link.node.1,newPlace topology.nodes link.node.2)} = some s(left.uuid,right.uuid) := by
    obtain ⟨lnode,rnode,here,there,joined⟩ := within.ends member
    obtain ⟨left,_,leftIs,_⟩ := resolve_some (mem_of_getElem? here)
    obtain ⟨right,_,rightIs,_⟩ := resolve_some (mem_of_getElem? there)
    refine ⟨lnode,rnode,left,right,joined,leftIs,rightIs,pairOf_ends ?_⟩
    simp only [ends,create,newPlace_resolve here,newPlace_resolve there,leftIs,rightIs]
  constructor
  · intro found
    obtain ⟨changed,member,is,weighs⟩ := found
    obtain ⟨link,belongs,rfl⟩ := mem_map.mp member
    obtain ⟨lnode,rnode,left,right,joined,leftIs,rightIs,pairIs⟩ := moved belongs
    rw [pairIs,some_inj] at is
    exact ⟨link,belongs,lnode,rnode,left,right,joined,leftIs,rightIs,is,weighs⟩
  · intro found
    obtain ⟨link,belongs,lnode,rnode,left,right,joined,leftIs,rightIs,is,weighs⟩ := found
    obtain ⟨lnode',rnode',left',right',joined',leftIs',rightIs',pairIs⟩ := moved belongs
    cases joined.symm.trans joined'
    cases leftIs.symm.trans leftIs'
    cases rightIs.symm.trans rightIs'
    exact ⟨_,mem_map_of_mem belongs,by rw [pairIs,is],weighs⟩

def IdsApart (nodes : List (Toponode υ)) : Prop := ∀ one ∈ nodes, ∀ two ∈ nodes, one.id = two.id → one = two

lemma resolve_apart (apart : IdsApart nodes) (member : node ∈ nodes) :
    resolve nodes node.id = some node := by
  obtain ⟨found,known,is,same⟩ := resolve_some member
  rw [is,apart found known node member same]

lemma create_links_apart (within : Within topology.nodes topology.links) (apart : IdsApart topology.nodes) :
    Links (create topology) pair weight ↔ Links topology pair weight := by
  rw [create_links within]
  constructor
  · intro found
    obtain ⟨link,belongs,lnode,rnode,left,right,joined,leftIs,rightIs,is,weighs⟩ := found
    obtain ⟨lmember,rmember⟩ := ends_mem joined
    rw [resolve_apart apart lmember,some_inj] at leftIs
    rw [resolve_apart apart rmember,some_inj] at rightIs
    exact ⟨link,belongs,by rw [pairOf_ends joined,leftIs,rightIs,is],weighs⟩
  · intro found
    obtain ⟨link,belongs,is,weighs⟩ := found
    obtain ⟨lnode,rnode,_,_,joined⟩ := within.ends belongs
    obtain ⟨lmember,rmember⟩ := ends_mem joined
    rw [pairOf_ends joined,some_inj] at is
    exact ⟨link,belongs,lnode,rnode,lnode,rnode,joined,resolve_apart apart lmember,resolve_apart apart rmember,is,weighs⟩

lemma create_within (within : Within topology.nodes topology.links) : Within (create topology).nodes (create topology).links := by
  have placed {index : Nat} (inside : index < topology.nodes.length) : newPlace topology.nodes index < (create topology).nodes.length := by
    have here := getElem?_eq_getElem inside
    obtain ⟨found,_,is,_⟩ := resolve_some (mem_of_getElem? here)
    rw [← newPlace_resolve here] at is
    exact (List.getElem?_eq_some_iff.mp is).1
  intro changed member
  obtain ⟨link,belongs,rfl⟩ := mem_map.mp member
  obtain ⟨left,right⟩ := within link belongs
  exact ⟨placed left,placed right⟩

lemma create_shows (within : Within topology.nodes topology.links) (apart : IdsApart topology.nodes) (shows : Shows topology given) :
    Shows (create topology) given := by
  constructor
  · intro pair weight
    rw [← shows.links,create_links_apart within apart]
  · intro uuid
    rw [← shows.nodes]
    simp only [create,mem_sortNodes]

lemma resolve_of_linked (within : Within topology.nodes topology.links)
    (uuids : ∀ one ∈ topology.nodes, ∀ two ∈ topology.nodes, one.uuid = two.uuid → one = two)
    (member : node ∈ topology.nodes)
    (linked : Links (create topology) pair weight) (touches : node.uuid ∈ pair) : resolve topology.nodes node.id = some node := by
  have stands {other found : Toponode υ} (inside : other ∈ topology.nodes) (is : resolve topology.nodes other.id = some found)
      (same : node.uuid = found.uuid) : resolve topology.nodes node.id = some node := by
    obtain ⟨known,belongs,again,ids⟩ := resolve_some inside
    cases is.symm.trans again
    rw [uuids node member found belongs same,ids,is]
  obtain ⟨link,belongs,lnode,rnode,left,right,joined,leftIs,rightIs,rfl,_⟩ := (create_links within).mp linked
  obtain ⟨lmember,rmember⟩ := ends_mem joined
  rcases Sym2.mem_iff.mp touches with same | same
  · exact stands lmember leftIs same
  · exact stands rmember rightIs same

lemma create_shows_iff (within : Within topology.nodes topology.links)
    (uuids : ∀ one ∈ topology.nodes, ∀ two ∈ topology.nodes, one.uuid = two.uuid → one = two) (shows : Shows topology given)
    (wanted : ∀ pair weight, given pair weight → ∃ other, expected pair other) :
    Shows (create topology) expected ↔ IdsApart topology.nodes ∧ ∀ pair weight, given pair weight ↔ expected pair weight := by
  constructor
  · intro created
    have stands {node : Toponode υ} (member : node ∈ topology.nodes) : resolve topology.nodes node.id = some node := by
      obtain ⟨pair,weight,is,touches⟩ := (shows.nodes node.uuid).mp ⟨node,member,rfl⟩
      obtain ⟨other,wants⟩ := wanted pair weight is
      exact resolve_of_linked within uuids member ((created.links pair other).mpr wants) touches
    have apart : IdsApart topology.nodes := by
      intro one first two second same
      have left := stands first
      rw [same,stands second,some_inj] at left
      exact left.symm
    exact ⟨apart,(create_shows within apart shows).iff.mp created⟩
  · intro both
    exact (create_shows within both.1 shows).iff.mpr both.2

end Creating

end MedvedDB.TopologyDiff
