import MedvedDB.HashMap
import MedvedDB.MstRounds
import MedvedDB.TopologyIndex

namespace MedvedDB.Router

open TopologyDiff SpanningTree

variable {υ : Type}

def addNode (nodes : HashMap.Table Nat) (node : Nat) : HashMap.Table Nat :=
  if (HashMap.find id id nodes node).isSome then nodes else (HashMap.insert id id nodes node).getD nodes

-- mdv_router_unique_nodes: the linked nodes in the order in which the map gives
-- them their numbers.
def uniqueNodes (links : List Topolink) (count : Nat) : List Nat :=
  HashMap.entries (links.foldl (fun nodes link => addNode (addNode nodes link.node.1) link.node.2) (HashMap.create count))

-- Links with a greater weight are taken first.
def mstWeight (weight : UInt32) : UInt32 := Mst.linkWeightMax - if weight > Mst.linkWeightMax then Mst.linkWeightMax else weight

def mstLink (unique : List Nat) (link : Topolink) : Mst.Link :=
  ⟨unique.idxOf link.node.1,unique.idxOf link.node.2,mstWeight link.weight⟩

def nodeOf (nodes : List (Toponode υ)) (unique : List Nat) (place : Nat) : Option (Toponode υ) := (unique[place]?).bind fun index => nodes[index]?

def route [DecidableEq υ] (nodes : List (Toponode υ)) (unique : List Nat) (src : υ) (link : Mst.Link) : Option υ :=
  match nodeOf nodes unique link.src,nodeOf nodes unique link.dst with
  | some lnode,some rnode => if src = lnode.uuid then some rnode.uuid else if src = rnode.uuid then some lnode.uuid else none
  | _,_ => none

-- The ends of the links of the tree, as seen from the source node.
def collect [DecidableEq υ] (topology : Topology υ) (unique : List Nat) (src : υ) : Option (List υ) :=
  let links := topology.links.map (mstLink unique)
  (Mst.mstFind unique.length unique.length links).map fun found =>
    if found.1 = 0 then []
    else ((finRange links.length).filter found.2).filterMap fun link => route topology.nodes unique src (links.get link)

def routesFind [DecidableEq υ] (topology : Topology υ) (src : υ) : Option (List υ) :=
  if topology.links = [] then some [] else collect topology (uniqueNodes topology.links topology.nodes.length) src

lemma addNode_direct (direct : HashMap.Direct bound keys nodes)
    (inside : node < bound) : HashMap.Direct bound (insert node keys) (addNode nodes node) := by
  unfold addNode
  rw [direct.find inside]
  by_cases known : node ∈ keys
  · simpa [known] using direct
  · obtain ⟨after,inserted,directNow⟩ := direct.insert inside
    simpa [known,inserted] using directNow

lemma uniqueNodes_eq (within : Within nodes links) :
    uniqueNodes links nodes.length = (List.range nodes.length).filter (used links) := by
  have built : ∃ keys, HashMap.Direct nodes.length keys
      (links.foldl (fun nodes link => addNode (addNode nodes link.node.1) link.node.2) (HashMap.create nodes.length)) ∧
      ∀ index, index ∈ keys ↔ used links index = true := by
    induction links using reverseRecOn with
    | nil => exact ⟨∅,HashMap.create_direct _,by simp [used]⟩
    | append_singleton links link ih =>
      obtain ⟨keys,direct,members⟩ := ih fun other member => within other (mem_append_left _ member)
      obtain ⟨left,right⟩ := within link (by simp)
      refine ⟨_,by rw [foldl_append]; exact addNode_direct (addNode_direct direct left) right,?_⟩
      intro index
      rw [Finset.mem_insert,Finset.mem_insert,members]
      simp only [used,List.any_append,any_cons,List.any_nil,Bool.or_false,or_eq_true,decide_eq_true_eq]
      grind
  obtain ⟨keys,direct,members⟩ := built
  rw [uniqueNodes,direct.entries]
  refine filter_congr ?_
  intro index _
  cases marked : used links index <;> simp [members,marked]

def touched (topology : Topology υ) : Set υ := {uuid | ∃ pair, Linked topology pair ∧ uuid ∈ pair}

def linkedPairs (topology : Topology υ) : Set (Sym2 υ) := {pair | Linked topology pair}

def Connected (topology : Topology υ) : Prop :=
  ∀ one ∈ touched topology, ∀ two ∈ touched topology, Joined id (linkedPairs topology) one two

def weighted (topology : Topology υ) : Set (Sym2 υ × UInt32) := {item | ∃ weight, Links topology item.1 weight ∧ item.2 = mstWeight weight}

lemma joined_weighted :
    Joined id (linkedPairs topology) one two ↔ Joined Prod.fst (weighted topology) one two := by
  have same : linkedPairs topology = Prod.fst '' weighted topology := by
    ext pair
    constructor
    · intro linked
      obtain ⟨weight,found⟩ := linked
      exact ⟨(pair,mstWeight weight),⟨weight,found,rfl⟩,rfl⟩
    · intro found
      obtain ⟨item,⟨weight,known,_⟩,rfl⟩ := found
      exact ⟨weight,known⟩
  rw [same]
  exact joined_image fun _ _ => rfl

def unique (topology : Topology υ) : List Nat := (List.range topology.nodes.length).filter (used topology.links)

def mstLinks (topology : Topology υ) : List Mst.Link := topology.links.map (mstLink (unique topology))

lemma mstWeight_le (weight : UInt32) : mstWeight weight ≤ Mst.linkWeightMax := by
  unfold mstWeight
  split
  · rw [UInt32.sub_self]
    exact UInt32.zero_le
  · rename_i small
    rw [UInt32.le_iff_toNat_le,UInt32.toNat_sub_of_le _ _ (UInt32.not_lt.mp small)]
    exact Nat.sub_le _ _

section Places

variable {topology : Topology υ} {link : Topolink}

lemma unique_mem (within : Within topology.nodes topology.links) (member : link ∈ topology.links) :
    link.node.1 ∈ unique topology ∧ link.node.2 ∈ unique topology := by
  obtain ⟨left,right⟩ := within link member
  obtain ⟨leftUsed,rightUsed⟩ := used_of_mem member
  exact ⟨mem_filter.mpr ⟨mem_range.mpr left,leftUsed⟩,mem_filter.mpr ⟨mem_range.mpr right,rightUsed⟩⟩

lemma nodeOf_idxOf (member : index ∈ unique topology) :
    nodeOf topology.nodes (unique topology) ((unique topology).idxOf index) = topology.nodes[index]? := by
  have found : (unique topology)[(unique topology).idxOf index]? = some index := List.getElem?_idxOf member
  rw [nodeOf,found,bind_some]

def graphOf (topology : Topology υ) (within : Within topology.nodes topology.links) (some_ : topology.links ≠ []) : Mst.Graph where
  count := (unique topology).length
  links := mstLinks topology
  inhabited := by
    obtain ⟨link,member⟩ := List.exists_mem_of_ne_nil _ some_
    exact length_pos_of_mem (unique_mem within member).1
  inside := by
    intro link member
    obtain ⟨known,belongs,rfl⟩ := mem_map.mp member
    obtain ⟨left,right⟩ := unique_mem within belongs
    exact ⟨idxOf_lt_length_of_mem left,idxOf_lt_length_of_mem right⟩
  weights := by
    intro link member
    obtain ⟨known,_,rfl⟩ := mem_map.mp member
    exact mstWeight_le known.weight

def uuidAt (other : υ) (topology : Topology υ) (place : Nat) : υ := ((nodeOf topology.nodes (unique topology) place).map Toponode.uuid).getD other

lemma nodeOf_some (topology : Topology υ) (inside : place < (unique topology).length) :
    ∃ node index, (unique topology)[place]? = some index ∧ topology.nodes[index]? = some node ∧ used topology.links index = true ∧
      nodeOf topology.nodes (unique topology) place = some node := by
  have here : (unique topology)[place]? = some (unique topology)[place] := getElem?_eq_getElem inside
  obtain ⟨small,marked⟩ := mem_filter.mp (List.getElem_mem inside)
  rw [mem_range] at small
  have there : topology.nodes[(unique topology)[place]]? = some topology.nodes[(unique topology)[place]] := getElem?_eq_getElem small
  exact ⟨_,_,here,there,marked,by rw [nodeOf,here,bind_some,there]⟩

lemma uuidAt_idxOf (other : υ) (member : index ∈ unique topology) (found : topology.nodes[index]? = some node) :
    uuidAt other topology ((unique topology).idxOf index) = node.uuid := by
  rw [uuidAt,nodeOf_idxOf member,found]
  rfl

lemma pair_of_link (other : υ) (within : Within topology.nodes topology.links) (member : link ∈ topology.links) :
    pairOf topology.nodes link =
      some (s((mstLink (unique topology) link).src,(mstLink (unique topology) link).dst).map (uuidAt other topology)) := by
  obtain ⟨lnode,rnode,left,right,joined⟩ := within.ends member
  obtain ⟨leftKnown,rightKnown⟩ := unique_mem within member
  rw [pairOf_ends joined,map_mk,mstLink,uuidAt_idxOf other leftKnown left,uuidAt_idxOf other rightKnown right]

def place (other : υ) (topology : Topology υ) (link : Fin (mstLinks topology).length) : Sym2 υ × UInt32 :=
  ((Mst.ends (mstLinks topology) link).map (uuidAt other topology),((mstLinks topology).get link).weight)

lemma place_image (other : υ) (within : Within topology.nodes topology.links) :
    place other topology '' Set.univ = weighted topology := by
  ext item
  constructor
  · intro found
    obtain ⟨link,_,rfl⟩ := found
    obtain ⟨known,member,is⟩ := mem_map.mp (get_mem (mstLinks topology) link)
    refine ⟨known.weight,⟨known,member,?_,rfl⟩,?_⟩
    · rw [pair_of_link other within member,place,Mst.ends,is]
    · rw [place,← is]
      rfl
  · intro found
    obtain ⟨weight,⟨known,member,is,rfl⟩,weighs⟩ := found
    obtain ⟨link,at_⟩ : ∃ link, (mstLinks topology).get link = mstLink (unique topology) known :=
      List.get_of_mem (mem_map_of_mem member)
    rw [pair_of_link other within member,some_inj] at is
    refine ⟨link,Set.mem_univ link,Prod.ext ?_ ?_⟩
    · simp only [place,Mst.ends,at_,is]
    · simp only [place,at_,weighs,mstLink]

lemma mstLinks_inside (within : Within topology.nodes topology.links) (link : Fin (mstLinks topology).length) :
    ((mstLinks topology).get link).src < (unique topology).length ∧ ((mstLinks topology).get link).dst < (unique topology).length := by
  obtain ⟨known,member,is⟩ := mem_map.mp (get_mem (mstLinks topology) link)
  obtain ⟨left,right⟩ := unique_mem within member
  rw [← is]
  exact ⟨idxOf_lt_length_of_mem left,idxOf_lt_length_of_mem right⟩

lemma ends_inside (within : Within topology.nodes topology.links) (link : Fin (mstLinks topology).length) :
    ∀ node ∈ Mst.ends (mstLinks topology) link, node ∈ {x | x < (unique topology).length} := by
  intro node member
  obtain ⟨src,dst⟩ := mstLinks_inside within link
  rcases Sym2.mem_iff.mp member with rfl | rfl
  · exact src
  · exact dst

lemma touched_uuidAt (other : υ) (within : Within topology.nodes topology.links) :
    touched topology = uuidAt other topology '' {x | x < (unique topology).length} := by
  ext uuid
  constructor
  · intro found
    obtain ⟨pair,⟨weight,link,member,is,_⟩,touches⟩ := found
    obtain ⟨left,right⟩ := unique_mem within member
    rw [pair_of_link other within member,some_inj] at is
    rw [← is,map_mk,Sym2.mem_iff] at touches
    rcases touches with rfl | rfl
    · exact ⟨_,idxOf_lt_length_of_mem left,rfl⟩
    · exact ⟨_,idxOf_lt_length_of_mem right,rfl⟩
  · intro found
    obtain ⟨x,inside,rfl⟩ := found
    obtain ⟨node,index,_,at_,marked,is⟩ := nodeOf_some topology inside
    obtain ⟨pair,weight,linked,touches⟩ := linkedNodes_touched within (mem_linkedNodes.mpr ⟨index,at_,marked⟩)
    rw [uuidAt,is]
    exact ⟨pair,⟨weight,linked⟩,touches⟩

lemma light_apart {link : Fin (mstLinks topology).length}
    (light : link ∈ Light (Mst.ends (mstLinks topology)) (Mst.rank (mstLinks topology)) Set.univ) :
    ((mstLinks topology).get link).src ≠ ((mstLinks topology).get link).dst := by
  intro same
  refine light.2 ⟨_,_,rfl,?_⟩
  rw [same]
  exact Relation.ReflTransGen.refl

end Places

section Order

variable [LinearOrder υ] {topology : Topology υ}

structure Arranged (topology : Topology υ) : Prop where
  within : Within topology.nodes topology.links
  sorted : topology.nodes.Pairwise fun one two => one.uuid < two.uuid

lemma uuidAt_lt (other : υ) (arranged : Arranged topology) (less : one < two) (inside : two < (unique topology).length) :
    uuidAt other topology one < uuidAt other topology two := by
  obtain ⟨left,i,iAt,leftAt,_,leftIs⟩ := nodeOf_some topology (Nat.lt_trans less inside)
  obtain ⟨right,j,jAt,rightAt,_,rightIs⟩ := nodeOf_some topology inside
  rw [uuidAt,uuidAt,leftIs,rightIs]
  have rising : (unique topology).Pairwise (· < ·) := List.pairwise_lt_range.filter _
  obtain ⟨_,rfl⟩ := List.getElem?_eq_some_iff.mp iAt
  obtain ⟨_,rfl⟩ := List.getElem?_eq_some_iff.mp jAt
  have indices := List.pairwise_iff_getElem.mp rising one two (Nat.lt_trans less inside) inside less
  obtain ⟨_,rfl⟩ := List.getElem?_eq_some_iff.mp leftAt
  obtain ⟨small,rfl⟩ := List.getElem?_eq_some_iff.mp rightAt
  exact List.pairwise_iff_getElem.mp arranged.sorted _ _ (Nat.lt_trans indices small) small indices

lemma uuidAt_injOn (other : υ) (arranged : Arranged topology) : Set.InjOn (uuidAt other topology) {x | x < (unique topology).length} := by
  intro one first two second same
  rcases Nat.lt_trichotomy one two with less | equal | more
  · exact absurd same (uuidAt_lt other arranged less second).ne
  · exact equal
  · exact absurd same (uuidAt_lt other arranged more first).ne'

lemma uuidAt_inf (other : υ) (arranged : Arranged topology) (first : one < (unique topology).length)
    (second : two < (unique topology).length) :
    uuidAt other topology one ⊓ uuidAt other topology two = uuidAt other topology (min one two) ∧
      uuidAt other topology one ⊔ uuidAt other topology two = uuidAt other topology (max one two) := by
  rcases Nat.lt_or_ge one two with less | more
  · have up := (uuidAt_lt other arranged less second).le
    rw [Nat.min_eq_left less.le,Nat.max_eq_right less.le]
    exact ⟨inf_eq_left.mpr up,sup_eq_right.mpr up⟩
  · have down : uuidAt other topology two ≤ uuidAt other topology one := by
      rcases Nat.eq_or_lt_of_le more with rfl | less
      · exact le_refl _
      · exact (uuidAt_lt other arranged less first).le
    rw [Nat.min_eq_right more,Nat.max_eq_left more]
    exact ⟨inf_eq_right.mpr down,sup_eq_left.mpr down⟩

lemma uuidAt_lt_iff (other : υ) (arranged : Arranged topology) (first : one < (unique topology).length)
    (second : two < (unique topology).length) : uuidAt other topology one < uuidAt other topology two ↔ one < two := by
  constructor
  · intro less
    rcases Nat.lt_trichotomy one two with lower | rfl | more
    · exact lower
    · exact absurd less (lt_irrefl _)
    · exact absurd less (uuidAt_lt other arranged more first).asymm
  · intro less
    exact uuidAt_lt other arranged less second

def order (item : Sym2 υ × UInt32) : Nat ×ₗ υ ×ₗ υ := toLex (item.2.toNat,toLex (item.1.inf,item.1.sup))

lemma order_injective : Function.Injective (order : Sym2 υ × UInt32 → Nat ×ₗ υ ×ₗ υ) := by
  intro one two same
  obtain ⟨weights,pairs⟩ := Prod.ext_iff.mp (toLex_inj.mp same)
  obtain ⟨infs,sups⟩ := Prod.ext_iff.mp (toLex_inj.mp pairs)
  exact Prod.ext (Sym2.inf_eq_inf_and_sup_eq_sup.mp ⟨infs,sups⟩) (UInt32.toNat_inj.mp weights)

lemma place_order (other : υ) (arranged : Arranged topology) (one two : Fin (mstLinks topology).length)
    (less : order (place other topology one) < order (place other topology two)) :
    Mst.rank (mstLinks topology) one < Mst.rank (mstLinks topology) two := by
  obtain ⟨src1,dst1⟩ := mstLinks_inside arranged.within one
  obtain ⟨src2,dst2⟩ := mstLinks_inside arranged.within two
  have min1 : min ((mstLinks topology).get one).src ((mstLinks topology).get one).dst < (unique topology).length := min_lt_of_left_lt src1
  have min2 : min ((mstLinks topology).get two).src ((mstLinks topology).get two).dst < (unique topology).length := min_lt_of_left_lt src2
  simp only [order,place,Mst.ends,map_mk,Sym2.inf_mk,Sym2.sup_mk,Prod.Lex.toLex_lt_toLex,
    uuidAt_inf other arranged src1 dst1,uuidAt_inf other arranged src2 dst2,uuidAt_lt_iff other arranged min1 min2,
    uuidAt_lt_iff other arranged (max_lt src1 dst1) (max_lt src2 dst2),(uuidAt_injOn other arranged).eq_iff min1 min2] at less
  refine Prod.Lex.toLex_lt_toLex.mpr (.inl ?_)
  simp only [Mst.key,Prod.Lex.toLex_lt_toLex]
  exact less

lemma place_light (other : υ) (arranged : Arranged topology) :
    place other topology '' Light (Mst.ends (mstLinks topology)) (Mst.rank (mstLinks topology)) Set.univ =
      Light Prod.fst order (weighted topology) := by
  have same : Light Prod.fst order (place other topology '' Set.univ) =
      place other topology '' Light (Mst.ends (mstLinks topology)) (Mst.rank (mstLinks topology)) Set.univ := by
    refine light_image Set.finite_univ (uuidAt_injOn other arranged) ?_ (fun _ _ => rfl) order_injective.injOn ?_
    · exact fun link _ => ends_inside arranged.within link
    · exact fun one _ two _ => place_order other arranged one two
  rw [← same,place_image other arranged.within]

lemma connected_iff (other : υ) (arranged : Arranged topology) (some_ : topology.links ≠ []) :
    Mst.Connected (graphOf topology arranged.within some_) ↔ Connected topology := by
  have commutes : ∀ link ∈ (Set.univ : Set (Fin (mstLinks topology).length)),
      Prod.fst (place other topology link) = (Mst.ends (mstLinks topology) link).map (uuidAt other topology) := fun _ _ => rfl
  rw [Connected,touched_uuidAt other arranged.within]
  constructor
  · intro connected one first two second
    obtain ⟨x,xSmall,rfl⟩ := first
    obtain ⟨y,ySmall,rfl⟩ := second
    rw [joined_weighted,← place_image other arranged.within]
    exact (connected x xSmall y ySmall).image commutes
  · intro connected x xSmall y ySmall
    have joined := connected _ ⟨x,xSmall,rfl⟩ _ ⟨y,ySmall,rfl⟩
    rw [joined_weighted,← place_image other arranged.within] at joined
    obtain ⟨found,known,same,walked⟩ := joined.lift _ (uuidAt_injOn other arranged) (fun link _ => ends_inside arranged.within link) commutes xSmall
    rw [uuidAt_injOn other arranged known ySmall same] at walked
    exact walked

lemma route_iff (other src uuid : υ) (arranged : Arranged topology) (left : link.src < (unique topology).length)
    (right : link.dst < (unique topology).length) (apart : link.src ≠ link.dst) :
    route topology.nodes (unique topology) src link = some uuid ↔ s(link.src,link.dst).map (uuidAt other topology) = s(src,uuid) := by
  obtain ⟨lnode,_,_,_,_,leftIs⟩ := nodeOf_some topology left
  obtain ⟨rnode,_,_,_,_,rightIs⟩ := nodeOf_some topology right
  have distinct : uuidAt other topology link.src ≠ uuidAt other topology link.dst :=
    fun same => apart (uuidAt_injOn other arranged left right same)
  simp only [route,leftIs,rightIs,map_mk,uuidAt,map_some,getD_some] at distinct ⊢
  rw [Sym2.eq_iff]
  split
  · rename_i here
    subst here
    rw [some_inj]
    grind
  · split
    · rename_i away here
      subst here
      rw [some_inj]
      grind
    · grind

-- The pairs of uuids that the tree consists of, as far as the links are connected.
def treePairs (topology : Topology υ) : Set (Sym2 υ) := Prod.fst '' Light Prod.fst order (weighted topology)

lemma mem_treePairs (other : υ) (arranged : Arranged topology) :
    pair ∈ treePairs topology ↔ ∃ link ∈ Light (Mst.ends (mstLinks topology)) (Mst.rank (mstLinks topology)) Set.univ,
      (Mst.ends (mstLinks topology) link).map (uuidAt other topology) = pair := by
  rw [treePairs,← place_light other arranged,Set.image_image]
  rfl

lemma search_result (other : υ) (arranged : Arranged topology) (some_ : topology.links ≠ []) :
    ∃ size mst, Mst.mstFind (unique topology).length (unique topology).length (mstLinks topology) = some (size,mst) ∧
      (Connected topology → size = (unique topology).length - 1 ∧
        Mst.marked mst = Light (Mst.ends (mstLinks topology)) (Mst.rank (mstLinks topology)) Set.univ) ∧
      (¬ Connected topology → size = 0) := by
  have result := Mst.mstFind_result (graphOf topology arranged.within some_) 0
  rw [connected_iff other arranged some_] at result
  exact result

lemma treePairs_single (arranged : Arranged topology) (single : (unique topology).length ≤ 1) (pair : Sym2 υ) : pair ∉ treePairs topology := by
  intro found
  obtain ⟨one,_,_⟩ := ends_pair id pair
  obtain ⟨link,light,_⟩ := (mem_treePairs one arranged).mp found
  have inside := mstLinks_inside arranged.within link
  exact absurd (by omega) (light_apart light)

lemma treePairs_empty (empty : topology.links = []) (pair : Sym2 υ) : pair ∉ treePairs topology := by
  intro found
  obtain ⟨_,⟨⟨_,⟨link,member,_⟩,_⟩,_⟩,_⟩ := found
  rw [empty] at member
  cases member

lemma routesFind_spec (arranged : Arranged topology) (src : υ) :
    ∃ routes, routesFind topology src = some routes ∧ ∀ uuid, uuid ∈ routes ↔ Connected topology ∧ s(src,uuid) ∈ treePairs topology := by
  by_cases empty : topology.links = []
  · refine ⟨[],by rw [routesFind,if_pos empty],?_⟩
    intro uuid
    simp [treePairs_empty empty]
  · obtain ⟨size,mst,searched,whole,isolated⟩ := search_result src arranged empty
    have found : routesFind topology src = some (if size = 0 then []
        else ((finRange (mstLinks topology).length).filter mst).filterMap fun link =>
          route topology.nodes (unique topology) src ((mstLinks topology).get link)) := by
      rw [routesFind,if_neg empty,uniqueNodes_eq arranged.within]
      exact congrArg (Option.map _) searched
    refine ⟨_,found,?_⟩
    intro uuid
    by_cases connected : Connected topology
    · obtain ⟨counted,light⟩ := whole connected
      split
      · rename_i zero
        simp [treePairs_single arranged (by omega)]
      · have inside (link : Fin (mstLinks topology).length) := mstLinks_inside arranged.within link
        have mark (link : Fin (mstLinks topology).length) :
            mst link = true ↔ link ∈ Light (Mst.ends (mstLinks topology)) (Mst.rank (mstLinks topology)) Set.univ := by
          rw [← light]
          exact Iff.rfl
        simp only [mem_filterMap,mem_filter,List.mem_finRange,true_and,connected,mem_treePairs src arranged,mark]
        refine exists_congr fun link => and_congr_right fun belongs => ?_
        exact route_iff src src uuid arranged (inside link).1 (inside link).2 (light_apart belongs)
    · rw [if_pos (isolated connected)]
      simp [connected]

lemma weighted_finite (other : υ) (arranged : Arranged topology) : (weighted topology).Finite := by
  rw [← place_image other arranged.within]
  exact Set.finite_univ.image _

lemma treePairs_spanning (arranged : Arranged topology) (connected : Connected topology) :
    IsSpanningTree id (touched topology) (linkedPairs topology) (treePairs topology) := by
  have named : ∀ item ∈ Light Prod.fst order (weighted topology), id (Prod.fst item) = Prod.fst item := fun _ _ => rfl
  refine ⟨?_,?_,?_⟩
  · intro pair found
    obtain ⟨item,⟨⟨weight,linked,_⟩,_⟩,rfl⟩ := found
    exact ⟨weight,linked⟩
  · intro one first two second
    refine (joined_image named).mpr ((joined_weighted.mp (connected one first two second)).through ?_)
    intro item member
    exact (light_closes (weighted_finite one arranged) member).mono fun _ found => found.1
  · intro pair found closes
    obtain ⟨item,light,rfl⟩ := found
    obtain ⟨one,two,is,joined⟩ := closes
    refine light_acyclic (weighted_finite one arranged) order_injective.injOn item light ⟨one,two,is,?_⟩
    have fewer : ∀ other ∈ Light Prod.fst order (weighted topology) \ {item}, id (Prod.fst other) = Prod.fst other := fun _ _ => rfl
    refine (joined_image fewer).mp (joined.mono ?_)
    intro pair both
    obtain ⟨⟨other,known,rfl⟩,distinct⟩ := both
    refine ⟨other,⟨known,?_⟩,rfl⟩
    intro same
    exact distinct (congrArg Prod.fst same)

def Routed (topology : Topology υ) (src uuid : υ) : Prop := ∃ routes, routesFind topology src = some routes ∧ uuid ∈ routes

lemma routed_iff (arranged : Arranged topology) :
    Routed topology src uuid ↔ Connected topology ∧ s(src,uuid) ∈ treePairs topology := by
  obtain ⟨routes,found,members⟩ := routesFind_spec arranged src
  constructor
  · intro routed
    obtain ⟨others,same,member⟩ := routed
    cases found.symm.trans same
    exact (members uuid).mp member
  · intro both
    exact ⟨routes,found,(members uuid).mpr both⟩

lemma create_arranged (network : Network υ) : Arranged (create network.toTopology) := by
  refine ⟨create_within network.inside,?_⟩
  have sorted : (sortNodes network.nodes).Pairwise fun one two => one.uuid ≤ two.uuid := List.pairwise_insertionSort _ _
  have apart : ((sortNodes network.nodes).map Toponode.uuid).Nodup :=
    ((List.perm_insertionSort _ network.nodes).map Toponode.uuid).nodup_iff.mpr network.uuids
  have distinct : (sortNodes network.nodes).Pairwise fun one two => one.uuid ≠ two.uuid := pairwise_map.mp apart
  exact (sorted.and distinct).imp fun both => lt_of_le_of_ne both.1 both.2

lemma create_same (network : Network υ) (pair : Sym2 υ) (weight : UInt32) :
    Links (create network.toTopology) pair weight ↔ Links network.toTopology pair weight :=
  create_links_apart network.inside fun _ first _ second => network.sameId first second

end Order

end MedvedDB.Router
