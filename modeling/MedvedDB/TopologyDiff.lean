import MedvedDB.TopologyIndex

namespace MedvedDB.TopologyDiff

variable {υ : Type}

-- The weight of a link in `a`, or in `b` if only `b` has it.
def JoinWeight (a b : Topology υ) (pair : Sym2 υ) (weight : UInt32) : Prop :=
  Links a pair weight ∨ ¬Linked a pair ∧ Links b pair weight

-- The links of `a` that `b` does not have and the link between the two nodes.
def Expected (a b : Topology υ) (nodea nodeb : υ) (pair : Sym2 υ) (weight : UInt32) : Prop :=
  Links a pair weight ∧ ¬Linked b pair ∨ pair = s(nodea,nodeb) ∧ JoinWeight a b pair weight

def Correct (a b : Topology υ) (nodea nodeb : υ) (result : Option (Topology υ)) : Prop :=
  ∃ topology, result = some topology ∧ Shows topology (Expected a b nodea nodeb)

def Leaving (a b : Topology υ) (uuid : υ) : Prop := ∃ pair, Linked a pair ∧ ¬Linked b pair ∧ uuid ∈ pair

structure Favourable (a b : Topology υ) (nodea nodeb : υ) : Prop where
  bare : a.links = [] → ¬Linked b s(nodea,nodeb)
  alone : a.links ≠ [] → b.links = [] → ∀ node ∈ a.nodes, ∃ pair, Linked a pair ∧ node.uuid ∈ pair
  foreign : b.links ≠ [] → ¬Linked a s(nodea,nodeb) → ¬Linked b s(nodea,nodeb) → ∀ pair, Linked a pair → Linked b pair
  weights : Linked b s(nodea,nodeb) → ∀ one two, JoinWeight a b s(nodea,nodeb) one → JoinWeight a b s(nodea,nodeb) two → one = two
  apart : ¬Linked a s(nodea,nodeb) → Linked b s(nodea,nodeb) →
    ∀ pushed ∈ b.nodes, pushed.uuid ∈ s(nodea,nodeb) → ¬Leaving a b pushed.uuid →
      ∀ kept ∈ a.nodes, Leaving a b kept.uuid → pushed.id ≠ kept.id

-- What the difference has with one weight for the link between the nodes.
def Delta (a b : Topology υ) (nodea nodeb : υ) (weight : UInt32) (pair : Sym2 υ) (other : UInt32) : Prop :=
  Links a pair other ∧ ¬Linked b pair ∨ pair = s(nodea,nodeb) ∧ other = weight

section Purpose

variable {a b : Topology υ} {nodea nodeb : υ}

lemma not_linked_nil (bare : a.links = []) (pair : Sym2 υ) : ¬Linked a pair := by
  intro linked
  obtain ⟨weight,link,member,_⟩ := linked
  rw [bare] at member
  cases member

lemma correct_some :
    Correct a b nodea nodeb (some topology) ↔ Shows topology (Expected a b nodea nodeb) := by
  constructor
  · intro correct
    obtain ⟨_,same,shows⟩ := correct
    cases same
    exact shows
  · intro shows
    exact ⟨topology,rfl,shows⟩

lemma correct_empty : Correct a b nodea nodeb (some emptyTopology) ↔ ∀ pair weight, ¬Expected a b nodea nodeb pair weight := by
  rw [correct_some,empty_shows.iff]
  simp only [false_iff]

lemma delta_wanted (joins : JoinWeight a b s(nodea,nodeb) weight) (pair : Sym2 υ) (other : UInt32)
    (is : Delta a b nodea nodeb weight pair other) : ∃ found, Expected a b nodea nodeb pair found := by
  rcases is with leaving | ⟨rfl,_⟩
  · exact ⟨other,.inl leaving⟩
  · exact ⟨weight,.inr ⟨rfl,joins⟩⟩

lemma delta_iff (joins : JoinWeight a b s(nodea,nodeb) weight) :
    (∀ pair other, Delta a b nodea nodeb weight pair other ↔ Expected a b nodea nodeb pair other) ↔
      (Linked b s(nodea,nodeb) → ∀ one two, JoinWeight a b s(nodea,nodeb) one → JoinWeight a b s(nodea,nodeb) two → one = two) := by
  constructor
  · intro same known one two first second
    have weighs {other : UInt32} (found : JoinWeight a b s(nodea,nodeb) other) : other = weight := by
      rcases (same s(nodea,nodeb) other).mpr (.inr ⟨rfl,found⟩) with ⟨_,missing⟩ | ⟨_,equal⟩
      · exact absurd known missing
      · exact equal
    rw [weighs first,weighs second]
  · intro single pair other
    constructor
    · intro found
      rcases found with leaving | ⟨rfl,rfl⟩
      · exact .inl leaving
      · exact .inr ⟨rfl,joins⟩
    · intro found
      rcases found with leaving | ⟨rfl,found⟩
      · exact .inl leaving
      · by_cases known : Linked b s(nodea,nodeb)
        · exact .inr ⟨rfl,single known other weight found joins⟩
        · rcases found with left | ⟨_,right⟩
          · exact .inl ⟨left,known⟩
          · exact absurd ⟨other,right⟩ known

end Purpose

def pushMissing (nodes : List (Toponode υ)) (found : Option Nat) (node : Toponode υ) : List (Toponode υ) :=
  if found.isNone then nodes ++ [node] else nodes

lemma pushMissing_extends (nodes : List (Toponode υ)) (found : Option Nat) (node : Toponode υ) :
    ∃ back, pushMissing nodes found node = nodes ++ back := by
  unfold pushMissing
  split
  · exact ⟨_,rfl⟩
  · exact ⟨[],(append_nil _).symm⟩

variable [LinearOrder υ]

def utopolink (one two : υ) : υ × υ := if one ≤ two then (one,two) else (two,one)

def linksMap (topology : Topology υ) : List (υ × υ) :=
  topology.links.filterMap fun link => (ends topology.nodes link).map fun nodes => utopolink nodes.1.uuid nodes.2.uuid

def joins (nodea nodeb : υ) (lnode rnode : Toponode υ) : Bool :=
  nodea = lnode.uuid ∧ nodeb = rnode.uuid ∨ nodea = rnode.uuid ∧ nodeb = lnode.uuid

-- The loop over the links of `a`: what it pushes and whether the link between
-- the two nodes was among it.
def abLinks (blinks : List (υ × υ)) (nodes : List (Toponode υ)) (nodea nodeb : υ) : Bool → List Topolink → List Topolink × Bool
  | added,[] => ([],added)
  | added,link::rest =>
    match ends nodes link with
    | none => abLinks blinks nodes nodea nodeb added rest
    | some (lnode,rnode) =>
      if !added && joins nodea nodeb lnode rnode then
        let result := abLinks blinks nodes nodea nodeb true rest
        (link::result.1,result.2)
      else if utopolink lnode.uuid rnode.uuid ∉ blinks then
        let result := abLinks blinks nodes nodea nodeb added rest
        (link::result.1,result.2)
      else abLinks blinks nodes nodea nodeb added rest

def findLink (nodes : List (Toponode υ)) (nodea nodeb : υ) : List Topolink → Option (Toponode υ × Toponode υ × UInt32)
  | [] => none
  | link::rest =>
    match ends nodes link with
    | none => findLink nodes nodea nodeb rest
    | some (lnode,rnode) =>
      if joins nodea nodeb lnode rnode then some (lnode,rnode,link.weight) else findLink nodes nodea nodeb rest

def nodeFind (nodes : List (Toponode υ)) (node : Toponode υ) : Option Nat := nodes.findIdx? fun other => other.uuid = node.uuid

-- The nodes are searched before any of them is pushed, and a pushed node keeps
-- the id it has in its own topology.
def linkedNodeAppend (topology : Topology υ) : Option (Toponode υ × Toponode υ × UInt32) → Option (Topology υ)
  | none => none
  | some (lnode,rnode,weight) =>
    let lfound := nodeFind topology.nodes lnode
    let rfound := nodeFind topology.nodes rnode
    let lnodes := pushMissing topology.nodes lfound lnode
    let rnodes := pushMissing lnodes rfound rnode
    some ⟨rnodes,topology.links ++ [⟨(lfound.getD topology.nodes.length,rfound.getD lnodes.length),weight⟩]⟩

def diff (a : Topology υ) (nodea : υ) (b : Topology υ) (nodeb : υ) : Option (Topology υ) :=
  if a.links = [] then some emptyTopology
  else if b.links = [] then some a
  else
    let (links,added) := abLinks (linksMap b) a.nodes nodea nodeb false a.links
    let lnodes := if added then none else findLink b.nodes nodea nodeb b.links
    if links = [] ∧ lnodes = none then some emptyTopology
    else
      let linked := linkedNodes links a.nodes
      if added then some (create linked) else (linkedNodeAppend linked lnodes).map create

lemma utopolink_eq_iff {one two left right : υ} : utopolink one two = utopolink left right ↔ s(one,two) = s(left,right) := by
  unfold utopolink
  rw [Sym2.eq_iff]
  by_cases first : one ≤ two
  · by_cases second : left ≤ right
    · simp only [first,second,if_true,Prod.mk.injEq]
      constructor
      · exact .inl
      · intro same
        rcases same with same | ⟨rfl,rfl⟩
        · exact same
        · exact ⟨le_antisymm first second,le_antisymm second first⟩
    · simp only [first,second,if_true,if_false,Prod.mk.injEq]
      constructor
      · exact .inr
      · intro same
        rcases same with ⟨rfl,rfl⟩ | same
        · exact absurd first second
        · exact same
  · by_cases second : left ≤ right
    · simp only [first,second,if_true,if_false,Prod.mk.injEq]
      constructor
      · exact fun same => .inr ⟨same.2,same.1⟩
      · intro same
        rcases same with ⟨rfl,rfl⟩ | same
        · exact absurd second first
        · exact ⟨same.2,same.1⟩
    · simp only [first,second,if_false,Prod.mk.injEq]
      constructor
      · exact fun same => .inl ⟨same.2,same.1⟩
      · intro same
        rcases same with same | ⟨rfl,rfl⟩
        · exact ⟨same.2,same.1⟩
        · exact absurd (le_of_not_ge first) second

lemma joins_iff {nodea nodeb : υ} {lnode rnode : Toponode υ} :
    joins nodea nodeb lnode rnode = true ↔ s(lnode.uuid,rnode.uuid) = s(nodea,nodeb) := by
  rw [joins,decide_eq_true_eq,Sym2.eq_iff]
  constructor
  · intro either
    rcases either with ⟨rfl,rfl⟩ | ⟨rfl,rfl⟩
    · exact .inl ⟨rfl,rfl⟩
    · exact .inr ⟨rfl,rfl⟩
  · intro either
    rcases either with ⟨rfl,rfl⟩ | ⟨rfl,rfl⟩
    · exact .inl ⟨rfl,rfl⟩
    · exact .inr ⟨rfl,rfl⟩

lemma mem_linksMap {topology : Topology υ} {one two : υ} :
    utopolink one two ∈ linksMap topology ↔ Linked topology s(one,two) := by
  rw [linksMap,mem_filterMap]
  constructor
  · intro found
    obtain ⟨link,member,key⟩ := found
    obtain ⟨⟨lnode,rnode⟩,joined,same⟩ := map_eq_some_iff.mp key
    refine ⟨link.weight,link,member,?_,rfl⟩
    rw [pairOf_ends joined,utopolink_eq_iff.mp same]
  · intro found
    obtain ⟨weight,link,member,pair,_⟩ := found
    obtain ⟨⟨lnode,rnode⟩,joined,same⟩ := map_eq_some_iff.mp pair
    exact ⟨link,member,by rw [joined]; exact congrArg some (utopolink_eq_iff.mpr same)⟩

section Walks

variable {b : Topology υ} {nodes : List (Toponode υ)} {nodea nodeb : υ} {links : List Topolink} {link : Topolink}

def free (blinks : List (υ × υ)) (nodes : List (Toponode υ)) (link : Topolink) : Bool :=
  (ends nodes link).any fun found => utopolink found.1.uuid found.2.uuid ∉ blinks

def between (nodea nodeb : υ) (nodes : List (Toponode υ)) (link : Topolink) : Bool :=
  (ends nodes link).any fun found => joins nodea nodeb found.1 found.2

lemma free_iff : free (linksMap b) nodes link = true ↔ ∃ pair, pairOf nodes link = some pair ∧ ¬Linked b pair := by
  cases joined : ends nodes link with
  | none => simp [free,pairOf,joined]
  | some found => simp [free,pairOf,joined,mem_linksMap]

lemma between_iff : between nodea nodeb nodes link = true ↔ pairOf nodes link = some s(nodea,nodeb) := by
  cases joined : ends nodes link with
  | none => simp [between,pairOf,joined]
  | some found => simp [between,pairOf,joined,joins_iff]

lemma abLinks_cons (blinks : List (υ × υ)) (added : Bool) (first : Topolink) (rest : List Topolink) :
    abLinks blinks nodes nodea nodeb added (first::rest) =
      if !added && between nodea nodeb nodes first then
        (first::(abLinks blinks nodes nodea nodeb true rest).1,(abLinks blinks nodes nodea nodeb true rest).2)
      else if free blinks nodes first then
        (first::(abLinks blinks nodes nodea nodeb added rest).1,(abLinks blinks nodes nodea nodeb added rest).2)
      else abLinks blinks nodes nodea nodeb added rest := by
  rw [abLinks]
  cases joined : ends nodes first with
  | none => simp [between,free,joined]
  | some found => simp [between,free,joined]

lemma abLinks_added (blinks : List (υ × υ)) :
    abLinks blinks nodes nodea nodeb true links = (links.filter (free blinks nodes),true) := by
  induction links with
  | nil => rfl
  | cons first rest ih =>
    rw [abLinks_cons,ih,Bool.not_true,Bool.false_and,if_neg false_ne_true]
    cases loose : free blinks nodes first with
    | true => rw [if_pos rfl,List.filter_cons_of_pos loose]
    | false => rw [if_neg false_ne_true,List.filter_cons_of_neg (by rw [loose]; exact false_ne_true)]

lemma abLinks_pushed (blinks : List (υ × υ)) :
    link ∈ (abLinks blinks nodes nodea nodeb false links).1 ↔
      link ∈ links ∧ free blinks nodes link = true ∨ links.find? (between nodea nodeb nodes) = some link := by
  induction links with
  | nil => simp [abLinks]
  | cons first rest ih =>
    rw [abLinks_cons,List.find?_cons,Bool.not_false,Bool.true_and,abLinks_added]
    cases joined : between nodea nodeb nodes first with
    | true =>
      simp only [if_true,mem_cons,mem_filter,some_inj]
      grind
    | false =>
      rw [if_neg false_ne_true]
      cases loose : free blinks nodes first with
      | true =>
        simp only [if_true,mem_cons,ih]
        grind
      | false =>
        simp only [false_eq_true,if_false,mem_cons,ih]
        grind

lemma abLinks_joined (blinks : List (υ × υ)) :
    (abLinks blinks nodes nodea nodeb false links).2 = links.any (between nodea nodeb nodes) := by
  induction links with
  | nil => rfl
  | cons first rest ih =>
    rw [abLinks_cons,any_cons,Bool.not_false,Bool.true_and,abLinks_added,← ih]
    cases between nodea nodeb nodes first with
    | true => rfl
    | false =>
      cases free blinks nodes first with
      | true => rfl
      | false => rfl

lemma findLink_some {lnode rnode : Toponode υ} {weight : UInt32}
    (found : findLink nodes nodea nodeb links = some (lnode,rnode,weight)) :
    s(lnode.uuid,rnode.uuid) = s(nodea,nodeb) ∧ ∃ link ∈ links, ends nodes link = some (lnode,rnode) ∧ link.weight = weight := by
  induction links with
  | nil => cases found
  | cons first rest ih =>
    rw [findLink] at found
    split at found
    · obtain ⟨joined,link,member,at_⟩ := ih found
      exact ⟨joined,link,mem_cons_of_mem _ member,at_⟩
    · rename_i left right here
      split at found
      · rename_i joined
        cases found
        exact ⟨joins_iff.mp joined,first,mem_cons_self,here,rfl⟩
      · obtain ⟨joined,link,member,at_⟩ := ih found
        exact ⟨joined,link,mem_cons_of_mem _ member,at_⟩

lemma findLink_none : findLink nodes nodea nodeb links = none ↔ ∀ link ∈ links, pairOf nodes link ≠ some s(nodea,nodeb) := by
  induction links with
  | nil => simp [findLink]
  | cons first rest ih =>
    rw [findLink,forall_mem_cons]
    cases joined : ends nodes first with
    | none => simp [pairOf,joined,ih]
    | some found =>
      by_cases here : joins nodea nodeb found.1 found.2
      · simp [here,pairOf,joined,joins_iff.mp here]
      · simp [here,pairOf,joined,joins_iff.not.mp here,ih]

end Walks

section Appending

variable {nodes : List (Toponode υ)} {node : Toponode υ}

lemma nodeFind_some (found : nodeFind nodes node = some index) :
    ∃ other, nodes[index]? = some other ∧ other.uuid = node.uuid := by
  obtain ⟨inside,same,_⟩ := List.findIdx?_eq_some_iff_getElem.mp found
  exact ⟨nodes[index],getElem?_eq_getElem inside,by simpa using same⟩

lemma nodeFind_none : nodeFind nodes node = none ↔ ∀ other ∈ nodes, other.uuid ≠ node.uuid := by
  simp [nodeFind,List.findIdx?_eq_none_iff]

lemma mem_pushMissing :
    other ∈ pushMissing nodes (nodeFind base node) node ↔
      other ∈ nodes ∨ other = node ∧ ∀ known ∈ base, known.uuid ≠ node.uuid := by
  cases found : nodeFind base node with
  | none =>
    have missing := nodeFind_none.mp found
    simp only [pushMissing,Option.isNone_none,if_true,mem_append,mem_singleton]
    exact or_congr_right ⟨fun same => ⟨same,missing⟩,fun both => both.1⟩
  | some index =>
    obtain ⟨known,place,same⟩ := nodeFind_some found
    have present : ¬∀ known ∈ base, known.uuid ≠ node.uuid := fun missing => missing known (mem_of_getElem? place) same
    simp [pushMissing,present]

lemma pushMissing_place (base more : List (Toponode υ)) (node : Toponode υ) :
    ∃ other, (pushMissing (base ++ more) (nodeFind base node) node)[(nodeFind base node).getD (base ++ more).length]? = some other ∧
      other.uuid = node.uuid := by
  cases found : nodeFind base node with
  | none => exact ⟨node,by simp [pushMissing],rfl⟩
  | some index =>
    obtain ⟨other,place,same⟩ := nodeFind_some found
    have inside := (List.getElem?_eq_some_iff.mp place).1
    exact ⟨other,by simpa [pushMissing,List.getElem?_append_left inside] using place,same⟩

variable {topology after : Topology υ} {lnode rnode : Toponode υ} {weight : UInt32}

lemma append_nodes (appended : linkedNodeAppend topology (some (lnode,rnode,weight)) = some after) :
    other ∈ after.nodes ↔ other ∈ topology.nodes ∨
      (other = lnode ∧ ∀ known ∈ topology.nodes, known.uuid ≠ lnode.uuid) ∨
      (other = rnode ∧ ∀ known ∈ topology.nodes, known.uuid ≠ rnode.uuid) := by
  cases appended
  rw [mem_pushMissing,mem_pushMissing,or_assoc]

lemma append_ends (appended : linkedNodeAppend topology (some (lnode,rnode,weight)) = some after)
    (within : Within topology.nodes topology.links) :
    (∀ link ∈ topology.links, ends after.nodes link = ends topology.nodes link) ∧
      ∃ link, after.links = topology.links ++ [link] ∧ link.weight = weight ∧
        ∃ one two, ends after.nodes link = some (one,two) ∧ one.uuid = lnode.uuid ∧ two.uuid = rnode.uuid := by
  obtain ⟨first,left⟩ := pushMissing_extends topology.nodes (nodeFind topology.nodes lnode) lnode
  obtain ⟨second,right⟩ := pushMissing_extends (topology.nodes ++ first) (nodeFind topology.nodes rnode) rnode
  have leftPlace := pushMissing_place topology.nodes [] lnode
  have rightPlace := pushMissing_place topology.nodes first rnode
  rw [append_nil,left] at leftPlace
  rw [right] at rightPlace
  obtain ⟨one,onePlace,oneSame⟩ := leftPlace
  obtain ⟨two,twoPlace,twoSame⟩ := rightPlace
  cases appended
  simp only [left,right]
  constructor
  · intro link member
    obtain ⟨before,behind,here,there,joined⟩ := within.ends member
    rw [joined]
    simp only [ends,append_assoc,getElem?_extends here,getElem?_extends there]
  · refine ⟨_,rfl,rfl,one,two,?_,oneSame,twoSame⟩
    simp only [ends,getElem?_extends onePlace,twoPlace]

lemma append_links (appended : linkedNodeAppend topology (some (lnode,rnode,weight)) = some after)
    (within : Within topology.nodes topology.links) :
    Links after pair other ↔ Links topology pair other ∨ pair = s(lnode.uuid,rnode.uuid) ∧ other = weight := by
  obtain ⟨kept,link,links,same,one,two,joined,oneSame,twoSame⟩ := append_ends appended within
  have last : pairOf after.nodes link = some s(lnode.uuid,rnode.uuid) := by rw [pairOf_ends joined,oneSame,twoSame]
  constructor
  · intro found
    obtain ⟨known,member,is,weighs⟩ := found
    rw [links] at member
    rcases mem_append.mp member with early | final
    · rw [pairOf,kept known early] at is
      exact .inl ⟨known,early,is,weighs⟩
    · rw [mem_singleton.mp final] at is weighs
      rw [last,some_inj] at is
      exact .inr ⟨is.symm,weighs.symm.trans same⟩
  · intro found
    rcases found with ⟨known,member,is,weighs⟩ | ⟨rfl,rfl⟩
    · refine ⟨known,by rw [links]; exact mem_append_left _ member,?_,weighs⟩
      rw [pairOf,kept known member]
      exact is
    · exact ⟨link,by rw [links]; simp,last,same⟩

lemma append_within (appended : linkedNodeAppend topology (some (lnode,rnode,weight)) = some after)
    (within : Within topology.nodes topology.links) : Within after.nodes after.links := by
  obtain ⟨kept,link,links,same,one,two,joined,_,_⟩ := append_ends appended within
  have bounded {known : Topolink} {found : Toponode υ × Toponode υ} (here : ends after.nodes known = some found) :
      known.node.1 < after.nodes.length ∧ known.node.2 < after.nodes.length := by
    unfold ends at here
    split at here
    · rename_i left right
      exact ⟨(List.getElem?_eq_some_iff.mp left).1,(List.getElem?_eq_some_iff.mp right).1⟩
    · cases here
  intro known member
  rw [links] at member
  rcases mem_append.mp member with early | final
  · obtain ⟨_,_,_,_,found⟩ := within.ends early
    exact bounded ((kept known early).trans found)
  · rw [mem_singleton.mp final]
    exact bounded joined

lemma append_shows {given : Sym2 υ → UInt32 → Prop} (appended : linkedNodeAppend topology (some (lnode,rnode,weight)) = some after)
    (within : Within topology.nodes topology.links) (shows : Shows topology given) :
    Shows after fun pair other => given pair other ∨ pair = s(lnode.uuid,rnode.uuid) ∧ other = weight := by
  constructor
  · intro pair other
    rw [append_links appended within,shows.links]
  · intro uuid
    -- An end of the link is one of the nodes already, or it is pushed.
    have present {end_ : Toponode υ} (pushed : (∀ known ∈ topology.nodes, known.uuid ≠ end_.uuid) → end_ ∈ after.nodes) :
        ∃ node ∈ after.nodes, node.uuid = end_.uuid := by
      by_cases missing : ∀ known ∈ topology.nodes, known.uuid ≠ end_.uuid
      · exact ⟨end_,pushed missing,rfl⟩
      · push Not at missing
        obtain ⟨known,member,same⟩ := missing
        exact ⟨known,(append_nodes appended).mpr (.inl member),same⟩
    constructor
    · intro found
      obtain ⟨node,member,rfl⟩ := found
      rcases (append_nodes appended).mp member with known | ⟨rfl,_⟩ | ⟨rfl,_⟩
      · obtain ⟨pair,other,is,touches⟩ := (shows.nodes node.uuid).mp ⟨node,known,rfl⟩
        exact ⟨pair,other,.inl is,touches⟩
      · exact ⟨_,weight,.inr ⟨rfl,rfl⟩,mem_mk_left _ _⟩
      · exact ⟨_,weight,.inr ⟨rfl,rfl⟩,mem_mk_right _ _⟩
    · intro found
      obtain ⟨pair,other,is | ⟨rfl,_⟩,touches⟩ := found
      · obtain ⟨node,member,same⟩ := (shows.nodes uuid).mpr ⟨pair,other,is,touches⟩
        exact ⟨node,(append_nodes appended).mpr (.inl member),same⟩
      · rcases Sym2.mem_iff.mp touches with rfl | rfl
        · exact present fun missing => (append_nodes appended).mpr (.inr (.inl ⟨rfl,missing⟩))
        · exact present fun missing => (append_nodes appended).mpr (.inr (.inr ⟨rfl,missing⟩))

end Appending

section Difference

variable {a b : Topology υ} {nodea nodeb : υ}

def abTopology (a b : Topology υ) (nodea nodeb : υ) : Topology υ :=
  linkedNodes (abLinks (linksMap b) a.nodes nodea nodeb false a.links).1 a.nodes

lemma any_between : a.links.any (between nodea nodeb a.nodes) = true ↔ Linked a s(nodea,nodeb) := by
  rw [any_eq_true]
  constructor
  · intro found
    obtain ⟨link,member,joined⟩ := found
    exact ⟨link.weight,link,member,between_iff.mp joined,rfl⟩
  · intro linked
    obtain ⟨_,link,member,joined,_⟩ := linked
    exact ⟨link,member,between_iff.mpr joined⟩

lemma abLinks_subset (member : link ∈ (abLinks (linksMap b) a.nodes nodea nodeb false a.links).1) : link ∈ a.links := by
  rcases (abLinks_pushed _).mp member with ⟨known,_⟩ | first
  · exact known
  · exact mem_of_find?_eq_some first

lemma abLinks_links :
    Links ⟨a.nodes,(abLinks (linksMap b) a.nodes nodea nodeb false a.links).1⟩ pair weight ↔
      Links a pair weight ∧ ¬Linked b pair ∨
        ∃ first, a.links.find? (between nodea nodeb a.nodes) = some first ∧ pair = s(nodea,nodeb) ∧ weight = first.weight := by
  constructor
  · intro found
    obtain ⟨link,member,is,weighs⟩ := found
    rcases (abLinks_pushed _).mp member with ⟨known,loose⟩ | first
    · obtain ⟨other,same,missing⟩ := free_iff.mp loose
      rw [is,some_inj] at same
      exact .inl ⟨⟨link,known,is,weighs⟩,same ▸ missing⟩
    · have joined := between_iff.mp (find?_some first)
      rw [is,some_inj] at joined
      exact .inr ⟨link,first,joined,weighs.symm⟩
  · intro found
    rcases found with ⟨⟨link,known,is,weighs⟩,missing⟩ | ⟨first,is,rfl,rfl⟩
    · exact ⟨link,(abLinks_pushed _).mpr (.inl ⟨known,free_iff.mpr ⟨pair,is,missing⟩⟩),is,weighs⟩
    · exact ⟨first,(abLinks_pushed _).mpr (.inr is),between_iff.mp (find?_some is),rfl⟩

lemma abLinks_within (within : Within a.nodes a.links) :
    Within a.nodes (abLinks (linksMap b) a.nodes nodea nodeb false a.links).1 :=
  fun link member => within link (abLinks_subset member)

lemma abTopology_shows (within : Within a.nodes a.links) (linked : Linked a s(nodea,nodeb)) :
    ∃ weight, Links a s(nodea,nodeb) weight ∧ Shows (abTopology a b nodea nodeb) (Delta a b nodea nodeb weight) := by
  obtain ⟨link,member,joined⟩ := any_eq_true.mp (any_between.mpr linked)
  obtain ⟨first,is⟩ := isSome_iff_exists.mp (List.find?_isSome.mpr ⟨link,member,joined⟩)
  refine ⟨first.weight,⟨first,mem_of_find?_eq_some is,between_iff.mp (find?_some is),rfl⟩,?_⟩
  refine linkedNodes_shows (abLinks_within within) fun pair weight => ?_
  rw [abLinks_links,Delta]
  refine or_congr_right ⟨?_,fun same => ⟨first,is,same⟩⟩
  intro found
  obtain ⟨again,same,rest⟩ := found
  cases is.symm.trans same
  exact rest

lemma abTopology_leaving (within : Within a.nodes a.links) (missing : ¬Linked a s(nodea,nodeb)) :
    Shows (abTopology a b nodea nodeb) fun pair weight => Links a pair weight ∧ ¬Linked b pair := by
  refine linkedNodes_shows (abLinks_within within) fun pair weight => ?_
  rw [abLinks_links]
  refine or_iff_left ?_
  intro found
  obtain ⟨first,is,_⟩ := found
  exact missing (any_between.mp (any_eq_true.mpr ⟨first,mem_of_find?_eq_some is,find?_some is⟩))

lemma abTopology_subset (member : node ∈ (abTopology a b nodea nodeb).nodes) : node ∈ a.nodes :=
  linkedNodes_subset member

lemma diff_bare (bare : a.links = []) : diff a nodea b nodeb = some emptyTopology := if_pos bare

lemma diff_alone (linked : a.links ≠ []) (bare : b.links = []) : diff a nodea b nodeb = some a := by
  rw [diff,if_neg linked,if_pos bare]

lemma diff_joined (first : a.links ≠ []) (second : b.links ≠ []) (linked : Linked a s(nodea,nodeb)) :
    diff a nodea b nodeb = some (create (abTopology a b nodea nodeb)) := by
  have added : (abLinks (linksMap b) a.nodes nodea nodeb false a.links).2 = true := (abLinks_joined _).trans (any_between.mpr linked)
  have pushed : (abLinks (linksMap b) a.nodes nodea nodeb false a.links).1 ≠ [] := by
    intro none
    obtain ⟨link,member,joined⟩ := any_eq_true.mp (any_between.mpr linked)
    obtain ⟨found,is⟩ := isSome_iff_exists.mp (List.find?_isSome.mpr ⟨link,member,joined⟩)
    have belongs := (abLinks_pushed (linksMap b)).mpr (.inr is)
    rw [none] at belongs
    cases belongs
  rw [diff,if_neg first,if_neg second]
  simp only [added,pushed,if_true,false_and,if_false,abTopology]

lemma abLinks_apart (missing : ¬Linked a s(nodea,nodeb)) : (abLinks (linksMap b) a.nodes nodea nodeb false a.links).2 = false := by
  rw [abLinks_joined,← Bool.not_eq_true,any_between]
  exact missing

lemma diff_pushed (first : a.links ≠ []) (missing : ¬Linked a s(nodea,nodeb)) (linked : Linked b s(nodea,nodeb)) :
    ∃ lnode rnode weight after, lnode ∈ b.nodes ∧ rnode ∈ b.nodes ∧ s(lnode.uuid,rnode.uuid) = s(nodea,nodeb) ∧
      Links b s(nodea,nodeb) weight ∧ linkedNodeAppend (abTopology a b nodea nodeb) (some (lnode,rnode,weight)) = some after ∧
      diff a nodea b nodeb = some (create after) := by
  have second : b.links ≠ [] := fun bare => not_linked_nil bare _ linked
  cases searched : findLink b.nodes nodea nodeb b.links with
  | none =>
    obtain ⟨_,link,member,joined,_⟩ := linked
    exact absurd joined (findLink_none.mp searched link member)
  | some found =>
    obtain ⟨lnode,rnode,weight⟩ := found
    obtain ⟨same,link,member,joined,weighs⟩ := findLink_some searched
    obtain ⟨left,right⟩ := ends_mem joined
    refine ⟨lnode,rnode,weight,_,left,right,same,⟨link,member,by rw [pairOf_ends joined,same],weighs⟩,rfl,?_⟩
    rw [diff,if_neg first,if_neg second]
    simp only [abLinks_apart missing,searched,false_eq_true,if_false,reduceCtorEq,and_false,abTopology]
    rfl

lemma diff_foreign (first : a.links ≠ []) (second : b.links ≠ []) (missing : ¬Linked a s(nodea,nodeb))
    (absent : ¬Linked b s(nodea,nodeb)) :
    diff a nodea b nodeb =
      if (abLinks (linksMap b) a.nodes nodea nodeb false a.links).1 = [] then some emptyTopology else none := by
  have searched : findLink b.nodes nodea nodeb b.links = none :=
    findLink_none.mpr fun link member joined => absent ⟨link.weight,link,member,joined,rfl⟩
  rw [diff,if_neg first,if_neg second]
  simp only [abLinks_apart missing,searched,false_eq_true,if_false,and_true,linkedNodeAppend,map_none]

end Difference

section Cases

variable (a b : Network υ) (nodea nodeb : υ)

lemma abTopology_within : Within (abTopology a.toTopology b.toTopology nodea nodeb).nodes (abTopology a.toTopology b.toTopology nodea nodeb).links :=
  linkedNodes_within (abLinks_within a.inside)

lemma correct_joined {nodea nodeb : υ} (first : a.links ≠ []) (second : b.links ≠ []) (linked : Linked a.toTopology s(nodea,nodeb)) :
    Correct a.toTopology b.toTopology nodea nodeb (diff a.toTopology nodea b.toTopology nodeb) ↔
      (Linked b.toTopology s(nodea,nodeb) → ∀ one two, JoinWeight a.toTopology b.toTopology s(nodea,nodeb) one →
        JoinWeight a.toTopology b.toTopology s(nodea,nodeb) two → one = two) := by
  obtain ⟨weight,is,shows⟩ := abTopology_shows (b:=b.toTopology) a.inside linked
  rw [diff_joined first second linked,correct_some,
    create_shows_iff (abTopology_within a b nodea nodeb)
      (fun one left two right => a.sameUuid (abTopology_subset left) (abTopology_subset right)) shows (delta_wanted (.inl is)),
    delta_iff (.inl is)]
  refine and_iff_right ?_
  exact fun one left two right => a.sameId (abTopology_subset left) (abTopology_subset right)

section Pushing

variable {a b : Network υ} {nodea nodeb : υ} (missing : ¬Linked a.toTopology s(nodea,nodeb))
include missing

lemma leaving_iff :
    (∃ node ∈ (abTopology a.toTopology b.toTopology nodea nodeb).nodes, node.uuid = uuid) ↔ Leaving a.toTopology b.toTopology uuid := by
  rw [(abTopology_leaving a.inside missing).nodes]
  constructor
  · intro found
    obtain ⟨pair,weight,⟨is,absent⟩,touches⟩ := found
    exact ⟨pair,⟨weight,is⟩,absent,touches⟩
  · intro found
    obtain ⟨pair,⟨weight,is⟩,absent,touches⟩ := found
    exact ⟨pair,weight,⟨is,absent⟩,touches⟩

lemma mem_abTopology :
    node ∈ (abTopology a.toTopology b.toTopology nodea nodeb).nodes ↔ node ∈ a.nodes ∧ Leaving a.toTopology b.toTopology node.uuid := by
  constructor
  · intro member
    exact ⟨abTopology_subset member,(leaving_iff missing).mp ⟨node,member,rfl⟩⟩
  · intro both
    obtain ⟨other,member,same⟩ := (leaving_iff missing).mpr both.2
    rwa [← a.sameUuid (abTopology_subset member) both.1 same]

lemma mem_pushed (left : lnode ∈ b.nodes) (right : rnode ∈ b.nodes)
    (same : s(lnode.uuid,rnode.uuid) = s(nodea,nodeb))
    (appended : linkedNodeAppend (abTopology a.toTopology b.toTopology nodea nodeb) (some (lnode,rnode,weight)) = some after)
    :
    node ∈ after.nodes ↔ (node ∈ a.nodes ∧ Leaving a.toTopology b.toTopology node.uuid) ∨
      (node ∈ b.nodes ∧ node.uuid ∈ s(nodea,nodeb) ∧ ¬Leaving a.toTopology b.toTopology node.uuid) := by
  have absent {uuid : υ} : (∀ known ∈ (abTopology a.toTopology b.toTopology nodea nodeb).nodes, known.uuid ≠ uuid) ↔
      ¬Leaving a.toTopology b.toTopology uuid := by
    rw [← leaving_iff missing]
    simp only [not_exists,not_and,ne_eq]
  rw [append_nodes appended,mem_abTopology missing,absent,absent,← same,Sym2.mem_iff]
  refine or_congr_right ?_
  constructor
  · intro either
    rcases either with ⟨rfl,stays⟩ | ⟨rfl,stays⟩
    · exact ⟨left,.inl rfl,stays⟩
    · exact ⟨right,.inr rfl,stays⟩
  · intro found
    obtain ⟨member,is | is,stays⟩ := found
    · exact .inl ⟨b.sameUuid member left is,is ▸ stays⟩
    · exact .inr ⟨b.sameUuid member right is,is ▸ stays⟩

lemma correct_pushed (first : a.links ≠ []) (linked : Linked b.toTopology s(nodea,nodeb)) :
    Correct a.toTopology b.toTopology nodea nodeb (diff a.toTopology nodea b.toTopology nodeb) ↔
      (∀ pushed ∈ b.nodes, pushed.uuid ∈ s(nodea,nodeb) → ¬Leaving a.toTopology b.toTopology pushed.uuid →
        ∀ kept ∈ a.nodes, Leaving a.toTopology b.toTopology kept.uuid → pushed.id ≠ kept.id) ∧
      (Linked b.toTopology s(nodea,nodeb) → ∀ one two, JoinWeight a.toTopology b.toTopology s(nodea,nodeb) one →
        JoinWeight a.toTopology b.toTopology s(nodea,nodeb) two → one = two) := by
  obtain ⟨lnode,rnode,weight,after,left,right,same,is,appended,result⟩ := diff_pushed first missing linked
  have within := abTopology_within a b nodea nodeb
  have shows : Shows after (Delta a.toTopology b.toTopology nodea nodeb weight) := by
    have shown := append_shows appended within (abTopology_leaving a.inside missing)
    rwa [same] at shown
  have joins : JoinWeight a.toTopology b.toTopology s(nodea,nodeb) weight := .inr ⟨missing,is⟩
  have members {node : Toponode υ} :
      node ∈ after.nodes ↔ (node ∈ a.nodes ∧ Leaving a.toTopology b.toTopology node.uuid) ∨
        (node ∈ b.nodes ∧ node.uuid ∈ s(nodea,nodeb) ∧ ¬Leaving a.toTopology b.toTopology node.uuid) :=
    mem_pushed missing left right same appended
  have uuids : ∀ one ∈ after.nodes, ∀ two ∈ after.nodes, one.uuid = two.uuid → one = two := by
    intro one first two second equal
    rcases members.mp first with ⟨here,leaves⟩ | ⟨here,_,stays⟩
    · rcases members.mp second with ⟨there,_⟩ | ⟨_,_,stays⟩
      · exact a.sameUuid here there equal
      · exact absurd (equal ▸ leaves) stays
    · rcases members.mp second with ⟨_,leaves⟩ | ⟨there,_,_⟩
      · exact absurd (equal ▸ leaves) stays
      · exact b.sameUuid here there equal
  rw [result,correct_some,create_shows_iff (append_within appended within) uuids shows (delta_wanted joins),delta_iff joins]
  refine and_congr_left fun _ => ⟨?_,?_⟩
  · intro apart pushed member touches stays kept belongs leaves equal
    have both := apart pushed (members.mpr (.inr ⟨member,touches,stays⟩)) kept (members.mpr (.inl ⟨belongs,leaves⟩)) equal
    exact stays (both ▸ leaves)
  · intro differ one first two second equal
    rcases members.mp first with ⟨here,leaves⟩ | ⟨here,touches,stays⟩
    · rcases members.mp second with ⟨there,_⟩ | ⟨there,touches,stays⟩
      · exact a.sameId here there equal
      · exact absurd equal.symm (differ two there touches stays one here leaves)
    · rcases members.mp second with ⟨there,leaves⟩ | ⟨there,_,_⟩
      · exact absurd equal (differ one here touches stays two there leaves)
      · exact b.sameId here there equal

end Pushing

variable {a b : Network υ} {nodea nodeb : υ}

lemma correct_bare (bare : a.links = []) :
    Correct a.toTopology b.toTopology nodea nodeb (diff a.toTopology nodea b.toTopology nodeb) ↔ ¬Linked b.toTopology s(nodea,nodeb) := by
  have absent := not_linked_nil bare
  rw [diff_bare bare,correct_empty]
  constructor
  · intro nothing linked
    obtain ⟨weight,is⟩ := linked
    exact nothing s(nodea,nodeb) weight (.inr ⟨rfl,.inr ⟨absent _,is⟩⟩)
  · intro missing pair weight expected
    rcases expected with ⟨is,_⟩ | ⟨rfl,is | ⟨_,is⟩⟩
    · exact absent pair ⟨weight,is⟩
    · exact absent _ ⟨weight,is⟩
    · exact missing ⟨weight,is⟩

lemma correct_alone (first : a.links ≠ []) (bare : b.links = []) :
    Correct a.toTopology b.toTopology nodea nodeb (diff a.toTopology nodea b.toTopology nodeb) ↔
      ∀ node ∈ a.nodes, ∃ pair, Linked a.toTopology pair ∧ node.uuid ∈ pair := by
  have absent := not_linked_nil bare
  have expected (pair : Sym2 υ) (weight : UInt32) :
      Links a.toTopology pair weight ↔ Expected a.toTopology b.toTopology nodea nodeb pair weight := by
    constructor
    · intro is
      exact .inl ⟨is,absent pair⟩
    · intro found
      rcases found with ⟨is,_⟩ | ⟨_,is | ⟨_,is⟩⟩
      · exact is
      · exact is
      · exact absurd ⟨weight,is⟩ (absent pair)
  rw [diff_alone first bare,correct_some]
  constructor
  · intro shows node member
    obtain ⟨pair,weight,is,touches⟩ := (shows.nodes node.uuid).mp ⟨node,member,rfl⟩
    exact ⟨pair,⟨weight,(expected pair weight).mpr is⟩,touches⟩
  · intro linked
    refine ⟨expected,fun uuid => ⟨?_,?_⟩⟩
    · intro found
      obtain ⟨node,member,rfl⟩ := found
      obtain ⟨pair,⟨weight,is⟩,touches⟩ := linked node member
      exact ⟨pair,weight,(expected pair weight).mp is,touches⟩
    · intro found
      obtain ⟨pair,weight,wanted,touches⟩ := found
      obtain ⟨node,member,same⟩ := touched_linkedNodes a.inside ((expected pair weight).mpr wanted) touches
      exact ⟨node,linkedNodes_subset member,same⟩

lemma correct_foreign (first : a.links ≠ []) (second : b.links ≠ []) (missing : ¬Linked a.toTopology s(nodea,nodeb))
    (absent : ¬Linked b.toTopology s(nodea,nodeb)) :
    Correct a.toTopology b.toTopology nodea nodeb (diff a.toTopology nodea b.toTopology nodeb) ↔
      ∀ pair, Linked a.toTopology pair → Linked b.toTopology pair := by
  rw [diff_foreign first second missing absent]
  constructor
  · intro correct pair linked
    split at correct
    · obtain ⟨weight,is⟩ := linked
      by_contra outside
      exact correct_empty.mp correct pair weight (.inl ⟨is,outside⟩)
    · obtain ⟨_,never,_⟩ := correct
      cases never
  · intro covered
    have nothing : (abLinks (linksMap b.toTopology) a.nodes nodea nodeb false a.links).1 = [] := by
      refine List.eq_nil_iff_forall_not_mem.mpr fun link member => ?_
      obtain ⟨_,_,_,_,joined⟩ := Within.ends a.inside (abLinks_subset member)
      rcases abLinks_links.mp ⟨link,member,pairOf_ends joined,rfl⟩ with ⟨is,outside⟩ | ⟨found,is,_⟩
      · exact outside (covered _ ⟨_,is⟩)
      · exact missing (any_between.mp (any_eq_true.mpr ⟨found,mem_of_find?_eq_some is,find?_some is⟩))
    rw [if_pos nothing,correct_empty]
    intro pair weight expected
    rcases expected with ⟨is,outside⟩ | ⟨rfl,is | ⟨_,is⟩⟩
    · exact outside (covered pair ⟨weight,is⟩)
    · exact missing ⟨weight,is⟩
    · exact absent ⟨weight,is⟩

end Cases

theorem diff_correct_iff (a b : Network υ) (nodea nodeb : υ) :
    Correct a.toTopology b.toTopology nodea nodeb (diff a.toTopology nodea b.toTopology nodeb) ↔
      Favourable a.toTopology b.toTopology nodea nodeb := by
  by_cases first : a.links = []
  · rw [correct_bare first]
    have none := not_linked_nil first
    constructor
    · intro absent
      exact ⟨fun _ => absent,fun linked => absurd first linked,fun _ _ _ pair linked => absurd linked (none pair),
        fun linked => absurd linked absent,fun _ linked => absurd linked absent⟩
    · intro favourable
      exact favourable.bare first
  by_cases second : b.links = []
  · rw [correct_alone first second]
    have none := not_linked_nil second
    constructor
    · intro ends
      exact ⟨fun bare => absurd bare first,fun _ _ => ends,fun linked => absurd second linked,
        fun linked => absurd linked (none _),fun _ linked => absurd linked (none _)⟩
    · intro favourable
      exact favourable.alone first second
  by_cases linked : Linked a.toTopology s(nodea,nodeb)
  · rw [correct_joined a b first second linked]
    constructor
    · intro single
      exact ⟨fun bare => absurd bare first,fun _ bare => absurd bare second,fun _ missing => absurd linked missing,
        single,fun missing => absurd linked missing⟩
    · intro favourable
      exact favourable.weights
  by_cases known : Linked b.toTopology s(nodea,nodeb)
  · rw [correct_pushed linked first known]
    constructor
    · intro both
      exact ⟨fun bare => absurd bare first,fun _ bare => absurd bare second,fun _ _ absent => absurd known absent,
        both.2,fun _ _ => both.1⟩
    · intro favourable
      exact ⟨favourable.apart linked known,favourable.weights⟩
  · rw [correct_foreign first second linked known]
    constructor
    · intro covered
      exact ⟨fun bare => absurd bare first,fun _ bare => absurd bare second,fun _ _ _ => covered,
        fun joined => absurd joined known,fun _ joined => absurd joined known⟩
    · intro favourable
      exact favourable.foreign second linked known

def oneAndTwo : Network Nat := ⟨⟨[⟨1,0⟩,⟨2,1⟩],[⟨(0,1),7⟩]⟩,by simp,by simp,by simp⟩

def threeAndOne : Network Nat := ⟨⟨[⟨1,1⟩,⟨3,0⟩],[⟨(1,0),5⟩]⟩,by simp,by simp,by simp⟩

theorem shared_id_moves_links :
    diff oneAndTwo.toTopology 1 threeAndOne.toTopology 3 = some ⟨[⟨1,0⟩,⟨2,1⟩,⟨3,0⟩],[⟨(2,1),7⟩,⟨(2,2),5⟩]⟩ ∧
      ¬Correct oneAndTwo.toTopology threeAndOne.toTopology 1 3 (diff oneAndTwo.toTopology 1 threeAndOne.toTopology 3) := by
  have result : diff oneAndTwo.toTopology 1 threeAndOne.toTopology 3 = some ⟨[⟨1,0⟩,⟨2,1⟩,⟨3,0⟩],[⟨(2,1),7⟩,⟨(2,2),5⟩]⟩ := by
    decide +kernel
  refine ⟨result,?_⟩
  rw [result,correct_some]
  intro shows
  have lost : ¬Links (⟨[⟨1,0⟩,⟨2,1⟩,⟨3,0⟩],[⟨(2,1),7⟩,⟨(2,2),5⟩]⟩ : Topology Nat) s(1,2) 7 := by
    simp [Links,pairOf,ends]
  have leaving : Expected oneAndTwo.toTopology threeAndOne.toTopology 1 3 s(1,2) 7 := by
    refine .inl ⟨?_,?_⟩
    · simp [Links,pairOf,ends,oneAndTwo]
    · simp [Linked,Links,pairOf,ends,threeAndOne]
  exact lost ((shows.links _ _).mpr leaving)

end MedvedDB.TopologyDiff
