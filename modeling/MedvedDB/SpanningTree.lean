import MedvedDB.Prelude

namespace MedvedDB.SpanningTree

open Finset (card_erase_of_mem mem_coe mem_erase mem_sdiff)
open Relation (ReflTransGen)

variable {α ε κ : Type} {ends : ε → Sym2 α} {links others : Set ε} {link other : ε} {one two : α}

def Joined (ends : ε → Sym2 α) (links : Set ε) : α → α → Prop :=
  ReflTransGen fun one two => ∃ link ∈ links, ends link = s(one,two)

def Closes (ends : ε → Sym2 α) (links : Set ε) (link : ε) : Prop := ∃ one two, ends link = s(one,two) ∧ Joined ends links one two

def Acyclic (ends : ε → Sym2 α) (tree : Set ε) : Prop := ∀ link ∈ tree, ¬ Closes ends (tree \ {link}) link

structure IsSpanningTree (ends : ε → Sym2 α) (nodes : Set α) (links tree : Set ε) : Prop where
  inside : tree ⊆ links
  spans : ∀ one ∈ nodes, ∀ two ∈ nodes, Joined ends tree one two
  acyclic : Acyclic ends tree

lemma Joined.symm (joined : Joined ends links one two) : Joined ends links two one := by
  induction joined with
  | refl => exact ReflTransGen.refl
  | tail _ last ih =>
    obtain ⟨link,member,is⟩ := last
    exact ReflTransGen.head ⟨link,member,by rw [is,eq_swap]⟩ ih

lemma joined_of_mem (member : link ∈ links) (is : ends link = s(one,two)) : Joined ends links one two :=
  ReflTransGen.single ⟨link,member,is⟩

lemma ends_pair (ends : ε → Sym2 α) (link : ε) : ∃ one two, ends link = s(one,two) := by
  induction found : ends link with
  | _ one two => exact ⟨one,two,rfl⟩

lemma closes_of_mem (member : link ∈ links) : Closes ends links link := by
  obtain ⟨one,two,is⟩ := ends_pair ends link
  exact ⟨one,two,is,joined_of_mem member is⟩

lemma Closes.joined (closes : Closes ends links link) (is : ends link = s(one,two)) : Joined ends links one two := by
  obtain ⟨left,right,found,joined⟩ := closes
  rw [found,Sym2.eq_iff] at is
  rcases is with ⟨rfl,rfl⟩ | ⟨rfl,rfl⟩
  · exact joined
  · exact joined.symm

lemma Joined.through (closed : ∀ link ∈ links, Closes ends others link) (joined : Joined ends links one two) :
    Joined ends others one two := by
  induction joined with
  | refl => exact ReflTransGen.refl
  | tail _ last ih =>
    obtain ⟨link,member,is⟩ := last
    exact ih.trans ((closed link member).joined is)

lemma Joined.mono (inside : links ⊆ others) (joined : Joined ends links one two) : Joined ends others one two :=
  joined.through fun _ member => closes_of_mem (inside member)

lemma Closes.through (closed : ∀ link ∈ links, Closes ends others link) (closes : Closes ends links link) :
    Closes ends others link := by
  obtain ⟨left,right,found,joined⟩ := closes
  exact ⟨left,right,found,joined.through closed⟩

lemma Closes.mono (inside : links ⊆ others) (closes : Closes ends links link) : Closes ends others link :=
  closes.through fun _ member => closes_of_mem (inside member)

lemma Joined.leaves (inner : α → Prop) (joined : Joined ends links one two) (start : inner one) (stop : ¬ inner two) :
    ∃ link ∈ links, ∃ near far, ends link = s(near,far) ∧ inner near ∧ ¬ inner far := by
  induction joined with
  | refl => exact absurd start stop
  | @tail near far _ last ih =>
    by_cases here : inner near
    · obtain ⟨link,member,is⟩ := last
      exact ⟨link,member,near,far,is,here,stop⟩
    · exact ih here

lemma joined_insert (is : ends link = s(near,far)) (joined : Joined ends (insert link links) one two) :
    Joined ends links one two ∨ (Joined ends links one near ∧ Joined ends links far two) ∨
      (Joined ends links one far ∧ Joined ends links near two) := by
  induction joined with
  | refl => exact .inl ReflTransGen.refl
  | @tail last next _ step ih =>
    obtain ⟨taken,member,stands⟩ := step
    rcases Set.mem_insert_iff.mp member with rfl | kept
    · rw [is,Sym2.eq_iff] at stands
      rcases stands with ⟨rfl,rfl⟩ | ⟨rfl,rfl⟩
      · rcases ih with direct | ⟨back,_⟩ | ⟨reach,_⟩
        · exact .inr (.inl ⟨direct,ReflTransGen.refl⟩)
        · exact .inr (.inl ⟨back,ReflTransGen.refl⟩)
        · exact .inl reach
      · rcases ih with direct | ⟨reach,_⟩ | ⟨back,_⟩
        · exact .inr (.inr ⟨direct,ReflTransGen.refl⟩)
        · exact .inl reach
        · exact .inr (.inr ⟨back,ReflTransGen.refl⟩)
    · have hop : Joined ends links last next := joined_of_mem kept stands
      rcases ih with direct | ⟨first,second⟩ | ⟨first,second⟩
      · exact .inl (direct.trans hop)
      · exact .inr (.inl ⟨first,second.trans hop⟩)
      · exact .inr (.inr ⟨first,second.trans hop⟩)

-- The exchange property: of two links, the one that closes a walk only with the
-- other is closed by it.
lemma closes_exchange (closes : Closes ends (insert link links) other) (opens : ¬ Closes ends links other) :
    Closes ends (insert other links) link := by
  obtain ⟨left,right,otherIs,joined⟩ := closes
  obtain ⟨near,far,linkIs⟩ := ends_pair ends link
  have hop : Joined ends (insert other links) left right := joined_of_mem (Set.mem_insert other links) otherIs
  have more {one two : α} (kept : Joined ends links one two) : Joined ends (insert other links) one two :=
    kept.mono (Set.subset_insert other links)
  refine ⟨near,far,linkIs,?_⟩
  rcases joined_insert linkIs joined with direct | ⟨first,second⟩ | ⟨first,second⟩
  · exact absurd ⟨left,right,otherIs,direct⟩ opens
  · exact (more first).symm.trans (hop.trans (more second).symm)
  · exact (more second).trans (hop.symm.trans (more first))

lemma Acyclic.subset (acyclic : Acyclic ends tree) (inside : others ⊆ tree) : Acyclic ends others := by
  intro link member closes
  exact acyclic link (inside member) (closes.mono (Set.sdiff_subset_sdiff_left inside))

lemma sum_layers (tree : Finset ε) (weight : ε → Nat) (bound : Nat) (small : ∀ link ∈ tree, weight link ≤ bound) :
    ∑ link ∈ tree, weight link = ∑ layer ∈ Finset.range bound, (tree.card - (tree.filter fun link => weight link ≤ layer).card) := by
  have layers : ∀ link ∈ tree, weight link = ∑ layer ∈ Finset.range bound, if layer < weight link then 1 else 0 := by
    intro link member
    rw [Finset.sum_boole]
    have these : (Finset.range bound).filter (fun layer => layer < weight link) = Finset.range (weight link) := by
      ext layer
      have := small link member
      simp only [Finset.mem_filter,Finset.mem_range]
      omega
    simp [these]
  rw [Finset.sum_congr rfl layers,Finset.sum_comm]
  refine Finset.sum_congr rfl ?_
  intro layer _
  have parts := Finset.card_filter_add_card_filter_not (s := tree) fun link => weight link ≤ layer
  simp only [not_le] at parts
  rw [Finset.sum_boole,Nat.cast_id]
  omega

section Images

variable {β ζ : Type} {shown : ζ → Sym2 β} {place : ε → ζ} {move : α → β}

lemma Joined.image (commutes : ∀ link ∈ links, shown (place link) = (ends link).map move) (joined : Joined ends links one two) :
    Joined shown (place '' links) (move one) (move two) := by
  induction joined with
  | refl => exact ReflTransGen.refl
  | tail _ last ih =>
    obtain ⟨link,member,is⟩ := last
    refine ih.tail ⟨place link,Set.mem_image_of_mem place member,?_⟩
    rw [commutes link member,is,map_mk]

lemma Joined.lift (nodes : Set α) (apart : Set.InjOn move nodes) (inside : ∀ link ∈ links, ∀ node ∈ ends link, node ∈ nodes)
    (commutes : ∀ link ∈ links, shown (place link) = (ends link).map move) (start : one ∈ nodes)
    (joined : Joined shown (place '' links) (move one) target) : ∃ two ∈ nodes, move two = target ∧ Joined ends links one two := by
  induction joined with
  | refl => exact ⟨one,start,rfl,ReflTransGen.refl⟩
  | tail _ last ih =>
    obtain ⟨middle,known,rfl,walked⟩ := ih
    obtain ⟨_,⟨link,member,rfl⟩,is⟩ := last
    obtain ⟨near,far,found⟩ := ends_pair ends link
    have nearKnown : near ∈ nodes := inside link member near (by rw [found]; exact mem_mk_left near far)
    have farKnown : far ∈ nodes := inside link member far (by rw [found]; exact mem_mk_right near far)
    rw [commutes link member,found,map_mk,Sym2.eq_iff] at is
    rcases is with ⟨first,second⟩ | ⟨first,second⟩
    · rw [apart nearKnown known first] at found
      exact ⟨far,farKnown,second,walked.tail ⟨link,member,found⟩⟩
    · rw [apart farKnown known second] at found
      exact ⟨near,nearKnown,first,walked.tail ⟨link,member,by rw [found,eq_swap]⟩⟩

lemma joined_image {named : ζ → Sym2 α} (same : ∀ link ∈ links, named (place link) = ends link) :
    Joined named (place '' links) one two ↔ Joined ends links one two := by
  have commutes : ∀ link ∈ links, named (place link) = (ends link).map id := by
    intro link member
    rw [same link member,Sym2.map_id,id]
  constructor
  · intro joined
    obtain ⟨found,_,rfl,walked⟩ :=
      Joined.lift Set.univ Function.injective_id.injOn (fun _ _ _ _ => Set.mem_univ _) commutes (Set.mem_univ one) joined
    exact walked
  · intro joined
    exact joined.image commutes

end Images

section Counting

variable [DecidableEq ε]

lemma grows (property : Finset ε → Prop) (inside : small ⊆ large)
    (before : ¬ property small) (after : property large) :
    ∃ link ∈ large, ∃ middle, small ⊆ middle ∧ middle ⊆ large ∧ link ∉ middle ∧ ¬ property middle ∧ property (insert link middle) := by
  induction rest : (large \ small).card generalizing small with
  | zero =>
    have same : small = large := by
      refine Finset.Subset.antisymm inside ?_
      rwa [Finset.card_eq_zero,Finset.sdiff_eq_empty_iff_subset] at rest
    rw [same] at before
    exact absurd after before
  | succ count ih =>
    obtain ⟨link,found⟩ := Finset.card_pos.mp (by rw [rest]; exact succ_pos count)
    obtain ⟨member,fresh⟩ := mem_sdiff.mp found
    by_cases here : property (insert link small)
    · exact ⟨link,member,small,Finset.Subset.refl small,inside,fresh,before,here⟩
    · have smaller : (large \ insert link small).card = count := by
        rw [Finset.sdiff_insert,card_erase_of_mem found,rest,Nat.add_sub_cancel]
      obtain ⟨last,inLarge,middle,above,below,rest⟩ := ih (Finset.insert_subset member inside) here smaller
      exact ⟨last,inLarge,middle,(Finset.subset_insert link small).trans above,below,rest⟩

lemma acyclic_card_le {tree cover : Finset ε} (acyclic : Acyclic ends (tree : Set ε))
    (closed : ∀ link ∈ tree, Closes ends (cover : Set ε) link) : tree.card ≤ cover.card := by
  induction rest : (tree \ cover).card generalizing cover with
  | zero =>
    rw [Finset.card_eq_zero,Finset.sdiff_eq_empty_iff_subset] at rest
    exact Finset.card_le_card rest
  | succ count ih =>
    obtain ⟨link,found⟩ := Finset.card_pos.mp (by rw [rest]; exact succ_pos count)
    obtain ⟨member,fresh⟩ := mem_sdiff.mp found
    have opens : ¬ Closes ends ((tree ∩ cover : Finset ε) : Set ε) link := by
      intro closes
      refine acyclic link member (closes.mono ?_)
      intro kept inBoth
      obtain ⟨inTree,inCover⟩ := Finset.mem_inter.mp (mem_coe.mp inBoth)
      refine ⟨inTree,?_⟩
      intro same
      subst same
      exact fresh inCover
    obtain ⟨leaving,inCover,middle,above,below,outside,open_,shut⟩ :=
      grows (fun part : Finset ε => Closes ends (part : Set ε) link) Finset.inter_subset_right opens (closed link member)
    have notInTree : leaving ∉ tree := fun inTree => outside (above (Finset.mem_inter.mpr ⟨inTree,inCover⟩))
    rw [Finset.coe_insert] at shut
    have back := closes_exchange shut open_
    let swapped := insert link (cover.erase leaving)
    have kept : (insert link (middle : Set ε)) ⊆ (swapped : Set ε) := by
      intro item inside
      rw [mem_coe,Finset.mem_insert,mem_erase]
      rcases Set.mem_insert_iff.mp inside with rfl | inMiddle
      · exact .inl rfl
      · refine .inr ⟨?_,below inMiddle⟩
        intro same
        subst same
        exact outside inMiddle
    have closedAgain : ∀ item ∈ tree, Closes ends (swapped : Set ε) item := by
      intro item inTree
      refine (closed item inTree).through ?_
      intro covering inside
      by_cases same : covering = leaving
      · rw [same]
        exact back.mono kept
      · exact closes_of_mem (mem_coe.mpr (Finset.mem_insert_of_mem (mem_erase.mpr ⟨same,inside⟩)))
    have smaller : (tree \ swapped).card = count := by
      have same : tree \ swapped = (tree \ cover).erase link := by
        ext item
        simp only [swapped,mem_sdiff,Finset.mem_insert,mem_erase,not_or,not_and]
        constructor
        · intro both
          refine ⟨both.2.1,both.1,fun inside => both.2.2 ?_ inside⟩
          intro same
          subst same
          exact notInTree both.1
        · intro both
          exact ⟨both.2.1,both.1,fun _ inside => both.2.2 inside⟩
      rw [same,card_erase_of_mem found,rest,Nat.add_sub_cancel]
    have size : swapped.card = cover.card := by
      rw [Finset.card_insert_of_notMem (fun inside => fresh (Finset.mem_of_mem_erase inside)),card_erase_of_mem inCover]
      exact Nat.sub_add_cancel (Finset.card_pos.mpr ⟨leaving,inCover⟩)
    rw [← size]
    exact ih closedAgain smaller

end Counting

section Light

variable [LinearOrder κ] {rank : ε → κ}

def below (rank : ε → κ) (links : Set ε) (link : ε) : Set ε := {other ∈ links | rank other < rank link}

-- The links whose ends are not joined by smaller links.
def Light (ends : ε → Sym2 α) (rank : ε → κ) (links : Set ε) : Set ε := {link ∈ links | ¬ Closes ends (below rank links link) link}

lemma light_of_least (inner : α → Prop) (member : link ∈ links) (is : ends link = s(near,far))
    (start : inner near) (stop : ¬ inner far)
    (least : ∀ other ∈ links, ∀ one two, ends other = s(one,two) → inner one → ¬ inner two → rank link ≤ rank other) :
    link ∈ Light ends rank links := by
  refine ⟨member,?_⟩
  intro closes
  obtain ⟨other,smaller,one,two,found,inside,outside⟩ := (closes.joined is).leaves inner start stop
  exact absurd smaller.2 (not_lt.mpr (least other smaller.1 one two found inside outside))

lemma below_ssubset (smaller : other ∈ below rank links link) : below rank links other ⊂ below rank links link := by
  refine ⟨?_,?_⟩
  · intro item found
    exact ⟨found.1,found.2.trans smaller.2⟩
  · intro back
    exact absurd (back smaller).2 (lt_irrefl _)

lemma light_closes (finite : links.Finite) (member : link ∈ links) :
    Closes ends {item ∈ Light ends rank links | rank item ≤ rank link} link := by
  induction size : (below rank links link).ncard using Nat.strong_induction_on generalizing link with
  | _ count ih =>
    by_cases closes : Closes ends (below rank links link) link
    · refine closes.through ?_
      intro other smaller
      have fewer : (below rank links other).ncard < count := by
        rw [← size]
        exact Set.ncard_lt_ncard (below_ssubset smaller) (finite.subset fun _ found => found.1)
      refine (ih _ fewer smaller.1 rfl).mono ?_
      intro item found
      exact ⟨found.1,found.2.trans smaller.2.le⟩
    · exact closes_of_mem ⟨⟨member,closes⟩,le_refl _⟩

lemma light_open [DecidableEq ε] (apart : Set.InjOn rank links) {part : Finset ε} (inside : (part : Set ε) ⊆ Light ends rank links)
    (member : link ∈ Light ends rank links) (fresh : link ∉ part) : ¬ Closes ends (part : Set ε) link := by
  induction size : part.card generalizing part link with
  | zero =>
    rw [Finset.card_eq_zero] at size
    subst size
    intro closes
    refine member.2 (closes.mono ?_)
    simp
  | succ count ih =>
    intro closes
    obtain ⟨top,among,greatest⟩ := Finset.exists_max_image (insert link part) rank ⟨link,Finset.mem_insert_self link part⟩
    have strictly {item : ε} (inLinks : item ∈ Light ends rank links) (topLight : top ∈ Light ends rank links)
        (here : item ∈ insert link part) (other : item ≠ top) : item ∈ below rank links top := by
      refine ⟨inLinks.1,lt_of_le_of_ne (greatest item here) ?_⟩
      intro same
      exact other (apart inLinks.1 topLight.1 same)
    rcases Finset.mem_insert.mp among with rfl | inPart
    · refine member.2 (closes.mono ?_)
      intro item found
      refine strictly (inside found) member (Finset.mem_insert_of_mem found) ?_
      intro same
      subst same
      exact fresh found
    · have topLight := inside inPart
      have distinct : link ≠ top := by
        intro same
        subst same
        exact fresh inPart
      have fewer : (part.erase top).card = count := by rw [card_erase_of_mem inPart,size,Nat.add_sub_cancel]
      have opens : ¬ Closes ends ((part.erase top : Finset ε) : Set ε) link :=
        ih (fun item found => inside (Finset.mem_of_mem_erase found)) member (fun found => fresh (Finset.mem_of_mem_erase found)) fewer
      have whole : Closes ends (insert top ((part.erase top : Finset ε) : Set ε)) link := by
        rw [← Finset.coe_insert,Finset.insert_erase inPart]
        exact closes
      refine topLight.2 ((closes_exchange whole opens).mono ?_)
      intro item found
      rcases Set.mem_insert_iff.mp found with rfl | kept
      · exact strictly member topLight (Finset.mem_insert_self _ _) distinct
      · obtain ⟨other,inPart⟩ := mem_erase.mp kept
        exact strictly (inside inPart) topLight (Finset.mem_insert_of_mem inPart) other

lemma light_acyclic (finite : links.Finite) (apart : Set.InjOn rank links) : Acyclic ends (Light ends rank links) := by
  classical
  intro link member closes
  have few : (Light ends rank links \ {link}).Finite := finite.subset fun _ found => found.1.1
  have inside : (few.toFinset : Set ε) ⊆ Light ends rank links := by
    rw [few.coe_toFinset]
    exact Set.sdiff_subset
  refine light_open apart inside member (by simp) ?_
  rwa [few.coe_toFinset]

lemma light_unique (finite : links.Finite) (apart : Set.InjOn rank links) (inside : tree ⊆ Light ends rank links)
    (closed : ∀ link ∈ links, Closes ends tree link) : tree = Light ends rank links := by
  refine Set.Subset.antisymm inside ?_
  intro link member
  by_contra missing
  refine light_acyclic finite apart link member ((closed link member.1).mono ?_)
  intro item found
  refine ⟨inside found,?_⟩
  intro same
  subst same
  exact missing found

lemma light_minimal [DecidableEq ε] {weight : ε → Nat} {light tree : Finset ε} (finite : links.Finite)
    (apart : Set.InjOn rank links) (heavier : ∀ one two, rank one ≤ rank two → weight one ≤ weight two)
    (is : (light : Set ε) = Light ends rank links) (inside : (tree : Set ε) ⊆ links) (acyclic : Acyclic ends (tree : Set ε))
    (closed : ∀ link ∈ links, Closes ends (tree : Set ε) link) :
    ∑ link ∈ light, weight link ≤ ∑ link ∈ tree, weight link := by
  have inLinks {link : ε} (member : link ∈ light) : link ∈ links := by
    have found : link ∈ Light ends rank links := by
      rw [← is]
      exact member
    exact found.1
  have whole : light.card ≤ tree.card := by
    have noCycle : Acyclic ends (light : Set ε) := by
      rw [is]
      exact light_acyclic finite apart
    exact acyclic_card_le noCycle fun link member => closed link (inLinks member)
  have layer (bound : Nat) : (tree.filter fun link => weight link ≤ bound).card ≤ (light.filter fun link => weight link ≤ bound).card := by
    refine acyclic_card_le (acyclic.subset fun _ found => Finset.mem_of_mem_filter _ found) ?_
    intro link member
    obtain ⟨inTree,small⟩ := Finset.mem_filter.mp member
    have closes : Closes ends {item ∈ Light ends rank links | rank item ≤ rank link} link := light_closes finite (inside inTree)
    refine closes.mono ?_
    intro item found
    rw [mem_coe,Finset.mem_filter,← mem_coe,is]
    exact ⟨found.1,(heavier item link found.2).trans small⟩
  obtain ⟨bound,small⟩ : ∃ bound, ∀ link ∈ light ∪ tree, weight link ≤ bound :=
    ⟨(light ∪ tree).sup weight,fun link member => Finset.le_sup (f:=weight) member⟩
  rw [sum_layers light weight bound fun link member => small link (Finset.mem_union_left _ member),
    sum_layers tree weight bound fun link member => small link (Finset.mem_union_right _ member)]
  exact Finset.sum_le_sum fun bound _ => tsub_le_tsub whole (layer bound)

lemma light_image {β ζ μ : Type} [LinearOrder μ] {shown : ζ → Sym2 β} {order : ζ → μ} {place : ε → ζ} {move : α → β}
    (finite : links.Finite) (apart : Set.InjOn move nodes) (inside : ∀ link ∈ links, ∀ node ∈ ends link, node ∈ nodes)
    (commutes : ∀ link ∈ links, shown (place link) = (ends link).map move) (single : Set.InjOn order (place '' links))
    (ordered : ∀ one ∈ links, ∀ two ∈ links, order (place one) < order (place two) → rank one < rank two) :
    Light shown order (place '' links) = place '' Light ends rank links := by
  have lower (link : ε) (member : link ∈ links) : below order (place '' links) (place link) ⊆ place '' below rank links link := by
    intro _ found
    obtain ⟨⟨other,known,rfl⟩,smaller⟩ := found
    exact ⟨other,⟨known,ordered other known link member smaller⟩,rfl⟩
  have commutesBelow (link : ε) : ∀ other ∈ below rank links link, shown (place other) = (ends other).map move :=
    fun other found => commutes other found.1
  ext found
  constructor
  · intro found
    obtain ⟨known,opens⟩ := found
    have few : {link ∈ links | place link = found}.Finite := finite.subset fun _ both => both.1
    obtain ⟨some_,someKnown,someIs⟩ := known
    obtain ⟨link,⟨member,rfl⟩,least⟩ := Set.exists_min_image _ rank few ⟨some_,someKnown,someIs⟩
    refine ⟨link,⟨member,?_⟩,rfl⟩
    intro found
    obtain ⟨near,far,is,joined⟩ := found
    refine opens ⟨move near,move far,by rw [commutes link member,is,map_mk],?_⟩
    refine (joined.image (commutesBelow link)).mono ?_
    intro _ found
    obtain ⟨other,⟨otherKnown,smaller⟩,rfl⟩ := found
    refine ⟨Set.mem_image_of_mem place otherKnown,lt_of_le_of_ne ?_ ?_⟩
    · by_contra larger
      exact lt_asymm smaller (ordered link member other otherKnown (not_le.mp larger))
    · intro same
      have equal := single (Set.mem_image_of_mem place otherKnown) (Set.mem_image_of_mem place member) same
      exact absurd smaller (not_lt.mpr (least other ⟨otherKnown,equal⟩))
  · intro found
    obtain ⟨link,⟨member,opens⟩,rfl⟩ := found
    refine ⟨Set.mem_image_of_mem place member,?_⟩
    intro closes
    obtain ⟨near,far,is⟩ := ends_pair ends link
    have nearKnown : near ∈ nodes := inside link member near (by rw [is]; exact mem_mk_left near far)
    have farKnown : far ∈ nodes := inside link member far (by rw [is]; exact mem_mk_right near far)
    have joined : Joined shown (place '' below rank links link) (move near) (move far) :=
      (closes.joined (by rw [commutes link member,is,map_mk])).mono (lower link member)
    obtain ⟨target,known,same,walked⟩ := joined.lift nodes apart (fun other found => inside other found.1) (commutesBelow link) nearKnown
    rw [apart known farKnown same] at walked
    exact opens ⟨near,far,is,walked⟩

end Light

end MedvedDB.SpanningTree
