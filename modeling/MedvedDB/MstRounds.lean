import MedvedDB.Mst

namespace MedvedDB.Mst

open SpanningTree
open Finset (card_pos mem_image mem_image_of_mem range univ)

-- A piece of a linked list: from a node over others, and what the last one points to.
def Chain (next : Nat → Option Nat) : Nat → List Nat → Option Nat → Prop
  | p,[],stop => next p = stop
  | p,q :: more,stop => next p = some q ∧ Chain next q more stop

-- A set is its first node alone, or a list that leads back to the first node.
def Ring (next : Nat → Option Nat) (root : Nat) (rest : List Nat) : Prop := Chain next root rest (if rest = [] then none else some root)

section Lists

variable {next other : Nat → Option Nat} {p : Nat} {more : List Nat} {stop : Option Nat}

lemma Chain.congr (chain : Chain next p more stop) (same : ∀ x ∈ p :: more, other x = next x) : Chain other p more stop := by
  induction more generalizing p with
  | nil => exact (same p mem_cons_self).trans chain
  | cons q more ih =>
    refine ⟨(same p mem_cons_self).trans chain.1,ih chain.2 ?_⟩
    intro x member
    exact same x (mem_cons_of_mem p member)

lemma Chain.append (first : Chain next p more (some q)) (second : Chain next q rest stop) :
    Chain next p (more ++ q :: rest) stop := by
  induction more generalizing p with
  | nil => exact ⟨first,second⟩
  | cons r more ih => exact ⟨first.1,ih first.2⟩

lemma Chain.redirect (chain : Chain next p more stop) (apart : (p :: more).Nodup) (target : Option Nat) :
    Chain (update next ((p :: more).getLast (cons_ne_nil p more)) target) p more target := by
  induction more generalizing p with
  | nil => exact update_self p target next
  | cons q more ih =>
    have fresh : p ∉ q :: more := (nodup_cons.mp apart).1
    have distinct : p ≠ (q :: more).getLast (cons_ne_nil q more) := by
      intro same
      rw [same] at fresh
      exact fresh (List.getLast_mem _)
    refine ⟨?_,ih chain.2 (nodup_cons.mp apart).2⟩
    rw [List.getLast_cons (cons_ne_nil q more),update_of_ne distinct]
    exact chain.1

def joinLists (next : Nat → Option Nat) (id1 id2 last : Nat) : Nat → Option Nat :=
  update (update next id1 (some id2)) last (some ((next id1).getD id1))

variable {fuel id1 : Nat} {setId : Nat → Nat} {last : Option Nat}

lemma joinLists_other {id2 last x : Nat} (first : x ≠ id1) (second : x ≠ last) : joinLists next id1 id2 last x = next x := by
  rw [joinLists,update_of_ne second,update_of_ne first]

lemma Ring.join (ring1 : Ring next id1 rest1) (ring2 : Ring next id2 rest2)
    (apart1 : (id1 :: rest1).Nodup) (apart2 : (id2 :: rest2).Nodup) (disjoint : List.Disjoint (id1 :: rest1) (id2 :: rest2)) :
    Ring (joinLists next id1 id2 ((id2 :: rest2).getLast (cons_ne_nil id2 rest2))) id1 (id2 :: (rest2 ++ rest1)) := by
  have lastMember : (id2 :: rest2).getLast (cons_ne_nil id2 rest2) ∈ id2 :: rest2 := List.getLast_mem _
  have foreign : id1 ∉ id2 :: rest2 := disjoint mem_cons_self
  have notLast : id1 ≠ (id2 :: rest2).getLast (cons_ne_nil id2 rest2) := by
    intro same
    rw [← same] at lastMember
    exact foreign lastMember
  have moved : Chain (update next id1 (some id2)) id2 rest2 (if rest2 = [] then none else some id2) := by
    refine Chain.congr ring2 ?_
    intro x member
    refine update_of_ne ?_ _ _
    intro same
    subst same
    exact foreign member
  have second := moved.redirect apart2 (some ((next id1).getD id1))
  refine ⟨?_,?_⟩
  · rw [joinLists,update_of_ne notLast,update_self]
  · rw [if_neg (cons_ne_nil _ _)]
    cases rest1 with
    | nil =>
      have alone : next id1 = none := ring1
      rw [alone] at second
      rw [append_nil,joinLists,alone]
      exact second
    | cons q more =>
      have points : next id1 = some q := ring1.1
      have back : Chain next q more (some id1) := ring1.2
      rw [points] at second
      rw [joinLists,points]
      refine second.append (back.congr ?_)
      intro x member
      have notFirst : x ≠ id1 := by
        intro same
        subst same
        exact (nodup_cons.mp apart1).1 member
      rw [update_of_ne ?_,update_of_ne notFirst]
      intro same
      subst same
      exact disjoint (mem_cons_of_mem id1 member) lastMember

lemma relabel_none :
    relabel next id1 fuel setId none last = some (setId,last) := by rw [relabel.eq_def]

lemma relabel_stop (here : setId p = id1) :
    relabel next id1 fuel setId (some p) last = some (setId,last) := by
  rw [relabel.eq_def]
  exact if_pos here

lemma relabel_step (away : setId p ≠ id1) :
    relabel next id1 (fuel + 1) setId (some p) last = relabel next id1 fuel (update setId p id1) (next p) (some p) := by
  rw [relabel.eq_def]
  exact if_neg away

lemma relabel_chain (id1 fuel : Nat) (setId : Nat → Nat) (last : Option Nat) (chain : Chain next p more stop)
    (apart : (p :: more).Nodup) (outside : ∀ x ∈ p :: more, setId x ≠ id1) (enough : (p :: more).length ≤ fuel)
    (ending : ∀ q, stop = some q → q ∈ p :: more ∨ setId q = id1) :
    relabel next id1 fuel setId (some p) last =
      some (fun x => if x ∈ p :: more then id1 else setId x,some ((p :: more).getLast (cons_ne_nil p more))) := by
  induction more generalizing p fuel setId last with
  | nil =>
    obtain ⟨fuel,rfl⟩ := Nat.exists_eq_add_of_le' enough
    have after : update setId p id1 = fun x => if x ∈ [p] then id1 else setId x := by
      funext x
      by_cases same : x = p <;> simp [same]
    have pointed : next p = stop := chain
    rw [length_singleton,relabel_step (outside p mem_cons_self),pointed,← after]
    cases stop with
    | none => exact relabel_none
    | some q =>
      have reached : update setId p id1 q = id1 := by
        rcases ending q rfl with member | already
        · rw [mem_singleton.mp member,update_self]
        · by_cases same : q = p
          · rw [same,update_self]
          · rw [update_of_ne same,already]
      exact relabel_stop reached
  | cons q more ih =>
    obtain ⟨fresh,apart⟩ := nodup_cons.mp apart
    obtain ⟨fuel,rfl⟩ := Nat.exists_eq_add_of_le' (Nat.le_trans (succ_le_succ (Nat.zero_le _)) enough)
    have outsideAgain : ∀ x ∈ q :: more, update setId p id1 x ≠ id1 := by
      intro x member
      have away : x ≠ p := by
        intro same
        subst same
        exact fresh member
      rw [update_of_ne away]
      exact outside x (mem_cons_of_mem p member)
    have endingAgain : ∀ x, stop = some x → x ∈ q :: more ∨ update setId p id1 x = id1 := by
      intro x points
      by_cases same : x = p
      · exact .inr (by rw [same,update_self])
      · rw [update_of_ne same]
        rcases ending x points with member | already
        · exact .inl (List.mem_of_ne_of_mem same member)
        · exact .inr already
    rw [relabel_step (outside p mem_cons_self),chain.1,
      ih _ _ _ chain.2 apart outsideAgain (Nat.le_of_succ_le_succ enough) endingAgain,List.getLast_cons (cons_ne_nil q more)]
    congr 2
    funext x
    by_cases same : x = p
    · simp [same]
    · simp [same,update_of_ne]

end Lists

-- Every set is known by one of its nodes, and its nodes are one list from there.
structure Sets (count : Nat) (subsets : Subsets) : Prop where
  root : ∀ x, subsets.setId (subsets.setId x) = subsets.setId x
  bound : ∀ x, subsets.setId x < count ↔ x < count
  ring : ∀ r, subsets.setId r = r →
    ∃ rest, Ring subsets.next r rest ∧ (r :: rest).Nodup ∧ ∀ x, subsets.setId x = r ↔ x ∈ r :: rest

lemma start_sets (count : Nat) : Sets count ⟨id,fun _ => none⟩ := by
  refine ⟨fun _ => rfl,fun _ => Iff.rfl,?_⟩
  intro r _
  exact ⟨[],rfl,nodup_singleton r,by simp⟩

lemma members_length (sets : Sets count subsets) (small : r < count)
    (apart : (r :: rest).Nodup) (members : ∀ x, subsets.setId x = r ↔ x ∈ r :: rest) : (r :: rest).length ≤ count := by
  have inside : r :: rest ⊆ List.range count := by
    intro x member
    rw [mem_range,← sets.bound x,(members x).mpr member]
    exact small
  simpa using (apart.subperm inside).length_le

lemma union_sets {fuel count id1 id2 : Nat} {subsets : Subsets} (sets : Sets count subsets) (enough : count ≤ fuel)
    (first : subsets.setId id1 = id1) (second : subsets.setId id2 = id2) (distinct : id1 ≠ id2) (small1 : id1 < count) (small2 : id2 < count) :
    ∃ after, unionSubsets fuel subsets id1 id2 = some after ∧ Sets count after ∧
      ∀ x, after.setId x = if subsets.setId x = id2 then id1 else subsets.setId x := by
  obtain ⟨rest1,ring1,apart1,members1⟩ := sets.ring id1 first
  obtain ⟨rest2,ring2,apart2,members2⟩ := sets.ring id2 second
  have disjoint : List.Disjoint (id1 :: rest1) (id2 :: rest2) := by
    intro x one two
    exact distinct (((members1 x).mpr one).symm.trans ((members2 x).mpr two))
  have foreign : id1 ∉ id2 :: rest2 := disjoint mem_cons_self
  have walked : relabel (update subsets.next id1 (some id2)) id1 fuel subsets.setId (some id2) none =
      some (fun x => if x ∈ id2 :: rest2 then id1 else subsets.setId x,
        some ((id2 :: rest2).getLast (cons_ne_nil id2 rest2))) := by
    refine relabel_chain id1 fuel subsets.setId none (Chain.congr ring2 ?_) apart2 ?_
      (Nat.le_trans (members_length sets small2 apart2 members2) enough) ?_
    · intro x member
      refine update_of_ne ?_ _ _
      intro same
      subst same
      exact foreign member
    · intro x member same
      exact distinct (same.symm.trans ((members2 x).mpr member))
    · intro q points
      split at points
      · cases points
      · cases points
        exact .inl mem_cons_self
  let labels := fun x => if x ∈ id2 :: rest2 then id1 else subsets.setId x
  have label (x : Nat) : labels x = if subsets.setId x = id2 then id1 else subsets.setId x := by simp only [labels,members2]
  refine ⟨⟨labels,joinLists subsets.next id1 id2 ((id2 :: rest2).getLast (cons_ne_nil id2 rest2))⟩,?_,⟨?_,?_,?_⟩,label⟩
  · simp only [unionSubsets]
    rw [walked]
    rfl
  · intro x
    simp only [label]
    by_cases moved : subsets.setId x = id2
    · rw [if_pos moved,first,if_neg distinct]
    · rw [if_neg moved,sets.root,if_neg moved]
  · intro x
    simp only [label]
    split
    · rename_i moved
      rw [← sets.bound x,moved]
      exact ⟨fun _ => small2,fun _ => small1⟩
    · exact sets.bound x
  · intro r root
    by_cases merged : r = id1
    · subst merged
      refine ⟨id2 :: (rest2 ++ rest1),ring1.join ring2 apart1 apart2 disjoint,?_,?_⟩
      · have both : ((r :: rest1) ++ (id2 :: rest2)).Nodup := List.nodup_append'.mpr ⟨apart1,apart2,disjoint⟩
        have order : List.Perm ((r :: rest1) ++ (id2 :: rest2)) (r :: ((id2 :: rest2) ++ rest1)) := List.perm_append_comm.cons r
        exact order.nodup_iff.mp both
      · intro x
        have one := members1 x
        have two := members2 x
        simp only [mem_cons,mem_append] at one two ⊢
        simp only [label]
        grind
    · have labelled : (if subsets.setId r = id2 then id1 else subsets.setId r) = r := (label r).symm.trans root
      have away : subsets.setId r ≠ id2 := by
        intro moved
        rw [if_pos moved] at labelled
        exact merged labelled.symm
      have kept : subsets.setId r = r := by rwa [if_neg away] at labelled
      obtain ⟨rest,ring,apart,members⟩ := sets.ring r kept
      refine ⟨rest,Chain.congr ring ?_,apart,?_⟩
      · intro x member
        have here := (members x).mpr member
        refine joinLists_other ?_ ?_
        · intro same
          subst same
          exact merged (here.symm.trans first)
        · intro same
          have other : subsets.setId x = id2 := by
            rw [same]
            exact (members2 _).mpr (List.getLast_mem _)
          rw [kept,← here] at away
          exact away other
      · intro x
        rw [← members x]
        simp only [label]
        split
        · rename_i moved
          constructor
          · intro same
            exact absurd same.symm merged
          · intro same
            rw [kept,← same] at away
            exact absurd moved away
        · exact Iff.rfl

variable {links : List Link}

def Crosses (setId : Nat → Nat) (set : Nat) (link : Link) : Prop :=
  (setId link.src = set ∧ setId link.dst ≠ set) ∨ (setId link.dst = set ∧ setId link.src ≠ set)

instance (setId : Nat → Nat) (set : Nat) (link : Link) : Decidable (Crosses setId set link) :=
  inferInstanceAs (Decidable ((setId link.src = set ∧ setId link.dst ≠ set) ∨ (setId link.dst = set ∧ setId link.src ≠ set)))

lemma crosses_iff {setId : Nat → Nat} {set : Nat} {link : Link} (apart : setId link.src ≠ setId link.dst) :
    Crosses setId set link ↔ set = setId link.src ∨ set = setId link.dst := by
  constructor
  · intro either
    rcases either with ⟨rfl,_⟩ | ⟨rfl,_⟩
    · exact .inl rfl
    · exact .inr rfl
  · intro either
    rcases either with rfl | rfl
    · exact .inl ⟨rfl,apart.symm⟩
    · exact .inr ⟨rfl,apart⟩

lemma search_at (setId : Nat → Nat) (picks : Nat → Option (Fin links.length)) (link : Fin links.length) (set : Nat) :
    search setId picks link set = if Crosses setId set (links.get link) ∧ closer (picks set) link = true then some link else picks set := by
  by_cases same : setId (links.get link).src = setId (links.get link).dst
  · have stays : ¬ Crosses setId set (links.get link) := by
      intro either
      rcases either with ⟨one,two⟩ | ⟨one,two⟩
      · exact two (same.symm.trans one)
      · exact two (same.trans one)
    simp only [search,if_pos same,stays,false_and,if_false]
  · simp only [search,if_neg same,crosses_iff same]
    generalize setId (links.get link).src = src at same
    generalize setId (links.get link).dst = dst at same
    by_cases atSrc : set = src
    · subst atSrc
      cases closer (picks set) link <;> cases closer (picks dst) link <;> simp [update_of_ne same]
    · by_cases atDst : set = dst
      · subst atDst
        cases closer (picks src) link <;> cases closer (picks set) link <;> simp [update_of_ne atSrc]
      · cases closer (picks src) link <;> cases closer (picks dst) link <;>
          simp [atSrc,atDst]

def Best (setId : Nat → Nat) (set : Nat) (seen : List (Fin links.length)) : Option (Fin links.length) → Prop
  | none => ∀ other ∈ seen, ¬ Crosses setId set (links.get other)
  | some link => link ∈ seen ∧ Crosses setId set (links.get link) ∧
      ∀ other ∈ seen, Crosses setId set (links.get other) → rank links link ≤ rank links other

lemma search_best {setId : Nat → Nat} {set : Nat} {seen : List (Fin links.length)} {picks : Nat → Option (Fin links.length)}
    {link : Fin links.length} (weights : ∀ link ∈ links, link.weight ≤ linkWeightMax) (later : ∀ other ∈ seen, other < link)
    (best : Best setId set seen (picks set)) : Best setId set (seen ++ [link]) (search setId picks link set) := by
  rw [search_at]
  split
  · rename_i chosen
    obtain ⟨crosses,nearer⟩ := chosen
    refine ⟨by simp,crosses,?_⟩
    intro other member otherCrosses
    rcases mem_append.mp member with early | final
    · cases known : picks set with
      | none =>
        rw [known] at best
        exact absurd otherCrosses (best other early)
      | some pick =>
        rw [known] at best nearer
        have less : key (links.get link) < key (links.get pick) :=
          (cmp_pos (weights _ (get_mem links pick)) (weights _ (get_mem links link))).mp (of_decide_eq_true nearer)
        have smaller : rank links link < rank links pick := Prod.Lex.toLex_lt_toLex.mpr (.inl less)
        exact smaller.le.trans (best.2.2 other early otherCrosses)
    · rw [mem_singleton.mp final]
  · rename_i refused
    cases known : picks set with
    | none =>
      rw [known] at best refused
      intro other member
      rcases mem_append.mp member with early | final
      · exact best other early
      · rw [mem_singleton.mp final]
        intro crosses
        exact refused ⟨crosses,rfl⟩
    | some pick =>
      rw [known] at best refused
      obtain ⟨early,crosses,least⟩ := best
      refine ⟨mem_append_left _ early,crosses,?_⟩
      intro other member otherCrosses
      rcases mem_append.mp member with before | final
      · exact least other before otherCrosses
      · rw [mem_singleton.mp final] at otherCrosses ⊢
        have notLess : ¬ key (links.get link) < key (links.get pick) := by
          intro less
          have nearer := (cmp_pos (weights _ (get_mem links pick)) (weights _ (get_mem links link))).mpr less
          exact refused ⟨otherCrosses,decide_eq_true nearer⟩
        rcases (not_lt.mp notLess).lt_or_eq with less | equal
        · exact (Prod.Lex.toLex_lt_toLex.mpr (.inl less)).le
        · exact (Prod.Lex.toLex_lt_toLex.mpr (.inr ⟨equal,later pick early⟩)).le

lemma shortest_best (setId : Nat → Nat) (set : Nat) (weights : ∀ link ∈ links, link.weight ≤ linkWeightMax) :
    Best setId set (finRange links.length) (shortest links setId set) := by
  have ordered : (finRange links.length).Pairwise (· < ·) := List.pairwise_lt_finRange links.length
  unfold shortest
  generalize finRange links.length = all at ordered
  induction all using reverseRecOn with
  | nil => simp [Best]
  | append_singleton seen link ih =>
    obtain ⟨before,_,between⟩ := pairwise_append.mp ordered
    rw [foldl_append]
    exact search_best weights (fun other member => between other member link (by simp)) (ih before)

lemma shortest_light {setId : Nat → Nat} {set : Nat} {link : Fin links.length} (weights : ∀ link ∈ links, link.weight ≤ linkWeightMax)
    (picked : shortest links setId set = some link) : link ∈ Light (ends links) (rank links) Set.univ := by
  have best := shortest_best setId set weights
  rw [picked] at best
  obtain ⟨_,crosses,least⟩ := best
  have leaves (near far : Nat) (is : ends links link = s(near,far)) (inner : setId near = set) (outer : setId far ≠ set) :
      link ∈ Light (ends links) (rank links) Set.univ := by
    refine light_of_least (fun node => setId node = set) (Set.mem_univ link) is inner outer ?_
    intro other _ one two found inside outside
    refine least other (List.mem_finRange other) ?_
    rcases Sym2.eq_iff.mp found with ⟨rfl,rfl⟩ | ⟨rfl,rfl⟩
    · exact .inl ⟨inside,outside⟩
    · exact .inr ⟨inside,outside⟩
  rcases crosses with ⟨inner,outer⟩ | ⟨inner,outer⟩
  · exact leaves _ _ rfl inner outer
  · exact leaves _ _ eq_swap inner outer

def marked (mst : Fin links.length → Bool) : Set (Fin links.length) := {link | mst link = true}

structure Holds (count : Nat) (state : State links) : Prop where
  sets : Sets count state.subsets
  light : marked state.mst ⊆ Light (ends links) (rank links) Set.univ
  closed : ∀ link ∈ marked state.mst, state.subsets.setId (links.get link).src = state.subsets.setId (links.get link).dst
  joined : ∀ x y, state.subsets.setId x = state.subsets.setId y → Joined (ends links) (marked state.mst) x y
  size : (univ.filter fun link => state.mst link = true).card = state.mstSize
  trees : ((range count).image state.subsets.setId).card = state.numTrees
  total : state.mstSize + state.numTrees = count

lemma start_holds (count : Nat) : Holds count (start links count) := by
  refine ⟨start_sets count,?_,?_,?_,?_,?_,?_⟩
  · intro link member
    cases member
  · intro link member
    cases member
  · rintro x _ rfl
    exact Relation.ReflTransGen.refl
  · simp [start]
  · simp [start]
  · simp [start]

structure Grew (before after : State links) : Prop where
  coarser : ∀ x y, before.subsets.setId x = before.subsets.setId y → after.subsets.setId x = after.subsets.setId y
  progress : after = before ∨ after.numTrees < before.numTrees

lemma Grew.refl (state : State links) : Grew state state := ⟨fun _ _ same => same,.inl rfl⟩

lemma Grew.trans (first : Grew before middle) (second : Grew middle after) : Grew before after := by
  refine ⟨fun x y same => second.coarser x y (first.coarser x y same),?_⟩
  rcases first.progress with rfl | fewer
  · exact second.progress
  · rcases second.progress with rfl | less
    · exact .inr fewer
    · exact .inr (less.trans fewer)

lemma image_union {setId labels : Nat → Nat} (known : id1 ∈ (range count).image setId) (distinct : id1 ≠ id2)
    (label : ∀ x, labels x = if setId x = id2 then id1 else setId x) :
    (range count).image labels = ((range count).image setId).erase id2 := by
  ext set
  simp only [Finset.mem_erase,mem_image] at known ⊢
  constructor
  · intro found
    obtain ⟨x,small,rfl⟩ := found
    rw [label]
    split
    · exact ⟨distinct,known⟩
    · rename_i away
      exact ⟨away,x,small,rfl⟩
  · intro found
    obtain ⟨away,x,small,rfl⟩ := found
    exact ⟨x,small,by rw [label,if_neg away]⟩

lemma union_holds (holds : Holds count state) (enough : count ≤ fuel)
    (inside : (links.get link).src < count ∧ (links.get link).dst < count) (light : link ∈ Light (ends links) (rank links) Set.univ)
    (distinct : state.subsets.setId (links.get link).src ≠ state.subsets.setId (links.get link).dst) :
    ∃ subsets, unionSubsets fuel state.subsets (state.subsets.setId (links.get link).src) (state.subsets.setId (links.get link).dst) = some subsets ∧
      Holds count ⟨subsets,update state.mst link true,state.numTrees - 1,state.mstSize + 1⟩ ∧
      ∀ x, subsets.setId x = if state.subsets.setId x = state.subsets.setId (links.get link).dst
        then state.subsets.setId (links.get link).src else state.subsets.setId x := by
  obtain ⟨subsets,united,sets,label⟩ := union_sets holds.sets enough (holds.sets.root (links.get link).src)
    (holds.sets.root (links.get link).dst) distinct ((holds.sets.bound _).mpr inside.1) ((holds.sets.bound _).mpr inside.2)
  have coarser {x y : Nat} (same : state.subsets.setId x = state.subsets.setId y) : subsets.setId x = subsets.setId y := by
    rw [label,label,same]
  have nowMarked {other : Fin links.length} : other ∈ marked (update state.mst link true) ↔ other = link ∨ other ∈ marked state.mst := by
    by_cases same : other = link
    · simp [marked,same]
    · simp [marked,same,update_of_ne]
  have grown {x y : Nat} (same : state.subsets.setId x = state.subsets.setId y) :
      Joined (ends links) (marked (update state.mst link true)) x y :=
    (holds.joined x y same).mono fun _ member => nowMarked.mpr (.inr member)
  have bridge : Joined (ends links) (marked (update state.mst link true)) (links.get link).src (links.get link).dst :=
    joined_of_mem (nowMarked.mpr (.inl rfl)) rfl
  have fresh : link ∉ univ.filter fun link => state.mst link = true := by
    intro already
    exact distinct (holds.closed link (Finset.mem_filter.mp already).2)
  refine ⟨subsets,united,⟨sets,?_,?_,?_,?_,?_,?_⟩,label⟩
  · intro other member
    rcases nowMarked.mp member with rfl | before
    · exact light
    · exact holds.light before
  · intro other member
    rcases nowMarked.mp member with rfl | before
    · rw [label,label,if_neg distinct,if_pos rfl]
    · exact coarser (holds.closed other before)
  · intro x y same
    rw [label,label] at same
    split at same
    · rename_i left
      split at same
      · rename_i right
        exact grown (left.trans right.symm)
      · exact (grown left).trans (bridge.symm.trans (grown same))
    · split at same
      · rename_i right
        exact (grown same).trans (bridge.trans (grown right.symm))
      · exact grown same
  · have now : (univ.filter fun other => update state.mst link true other = true) =
        insert link (univ.filter fun other => state.mst other = true) := by
      ext other
      simp only [Finset.mem_filter,Finset.mem_insert,Finset.mem_univ,true_and]
      exact nowMarked
    rw [now,Finset.card_insert_of_notMem fresh,holds.size]
  · have known (x : Nat) (small : x < count) : state.subsets.setId x ∈ (range count).image state.subsets.setId :=
      mem_image_of_mem _ (Finset.mem_range.mpr small)
    rw [image_union (known _ inside.1) distinct label,Finset.card_erase_of_mem (known _ inside.2),holds.trees]
  · have known : state.subsets.setId (links.get link).src ∈ (range count).image state.subsets.setId :=
      mem_image_of_mem _ (Finset.mem_range.mpr inside.1)
    have some_ := card_pos.mpr ⟨_,known⟩
    have total := holds.total
    have trees := holds.trees
    dsimp only
    omega

lemma merge_holds {picks : Nat → Option (Fin links.length)} (holds : Holds count state)
    (enough : count ≤ fuel) (inside : ∀ link ∈ links, link.src < count ∧ link.dst < count)
    (light : ∀ link, picks i = some link → link ∈ Light (ends links) (rank links) Set.univ) :
    ∃ after, merge fuel picks state i = some after ∧ Holds count after ∧ Grew state after ∧
      ∀ link, picks i = some link → after.subsets.setId (links.get link).src = after.subsets.setId (links.get link).dst := by
  unfold merge
  cases picked : picks i with
  | none => exact ⟨state,rfl,holds,Grew.refl state,by simp⟩
  | some link =>
    by_cases same : state.subsets.setId (links.get link).src = state.subsets.setId (links.get link).dst
    · refine ⟨state,by simp only [if_pos same],holds,Grew.refl state,?_⟩
      rintro _ ⟨⟩
      exact same
    · obtain ⟨subsets,united,after,label⟩ := union_holds holds enough (inside _ (get_mem links link)) (light link picked) same
      refine ⟨_,by simp only [if_neg same,united,map_some],after,⟨?_,.inr ?_⟩,?_⟩
      · intro x y equal
        simp only [label,equal]
      · have total := holds.total
        have afterwards := after.total
        dsimp only at afterwards ⊢
        omega
      · rintro _ ⟨⟩
        simp only [label,if_neg same,if_true]

lemma merges_hold {picks : Nat → Option (Fin links.length)} (enough : count ≤ fuel)
    (inside : ∀ link ∈ links, link.src < count ∧ link.dst < count)
    (light : ∀ i link, picks i = some link → link ∈ Light (ends links) (rank links) Set.univ) (order : List Nat)
    (holds : Holds count state) :
    ∃ after, order.foldlM (merge fuel picks) state = some after ∧ Holds count after ∧ Grew state after ∧
      ∀ i ∈ order, ∀ link, picks i = some link →
        after.subsets.setId (links.get link).src = after.subsets.setId (links.get link).dst := by
  induction order generalizing state with
  | nil => exact ⟨state,rfl,holds,Grew.refl state,by simp⟩
  | cons i order ih =>
    obtain ⟨middle,first,holdsNow,grew,closed⟩ := merge_holds holds enough inside (light i)
    obtain ⟨after,rest,holdsAfter,grewAfter,closedAfter⟩ := ih holdsNow
    refine ⟨after,?_,holdsAfter,grew.trans grewAfter,?_⟩
    · rw [foldlM_cons,first]
      exact rest
    · intro j member link picked
      rcases mem_cons.mp member with rfl | later
      · exact grewAfter.coarser _ _ (closed link picked)
      · exact closedAfter j later link picked

def Connected (graph : Graph) : Prop := ∀ x < graph.count, ∀ y < graph.count, Joined (ends graph.links) Set.univ x y

variable {graph : Graph}

lemma leaves_set (connected : Connected graph) (holds : Holds graph.count state) (many : 1 < state.numTrees) :
    ∃ set < graph.count, ∃ link, shortest graph.links state.subsets.setId set = some link ∧
      state.subsets.setId (graph.links.get link).src ≠ state.subsets.setId (graph.links.get link).dst := by
  rw [← holds.trees] at many
  obtain ⟨one,first,two,second,distinct⟩ := Finset.one_lt_card.mp many
  obtain ⟨x,xSmall,rfl⟩ := mem_image.mp first
  obtain ⟨y,ySmall,rfl⟩ := mem_image.mp second
  rw [Finset.mem_range] at xSmall ySmall
  refine ⟨state.subsets.setId x,(holds.sets.bound x).mpr xSmall,?_⟩
  obtain ⟨link,_,near,far,is,inner,outer⟩ :=
    (connected x xSmall y ySmall).leaves (fun node => state.subsets.setId node = state.subsets.setId x) rfl distinct.symm
  have best := shortest_best state.subsets.setId (state.subsets.setId x) graph.weights
  cases picked : shortest graph.links state.subsets.setId (state.subsets.setId x) with
  | none =>
    rw [picked] at best
    refine absurd ?_ (best link (List.mem_finRange link))
    rcases Sym2.eq_iff.mp is with ⟨rfl,rfl⟩ | ⟨rfl,rfl⟩
    · exact .inl ⟨inner,outer⟩
    · exact .inr ⟨inner,outer⟩
  | some pick =>
    rw [picked] at best
    refine ⟨pick,rfl,?_⟩
    rcases best.2.1 with ⟨here,there⟩ | ⟨here,there⟩
    · rw [here]
      exact there.symm
    · rw [here]
      exact there

lemma rounds_hold {fuel left : Nat} {state : State graph.links} (enough : graph.count ≤ fuel) (holds : Holds graph.count state)
    (bound : state.numTrees ≤ left + 1) :
    ∃ final, rounds fuel graph.count left state = some final ∧
      ((Holds graph.count final ∧ final.numTrees ≤ 1) ∨ (final.mstSize = 0 ∧ ¬ Connected graph)) := by
  induction left generalizing state with
  | zero =>
    have single : ¬ 1 < state.numTrees := by omega
    exact ⟨state,by rw [rounds,if_neg single],.inl ⟨holds,Nat.le_of_not_lt single⟩⟩
  | succ left ih =>
    by_cases many : 1 < state.numTrees
    · obtain ⟨after,merged,holdsAfter,grew,closed⟩ := merges_hold enough graph.inside
        (fun _ _ picked => shortest_light graph.weights picked) (List.range graph.count) holds
      have once : round fuel graph.count state = some after := merged
      rw [rounds,if_pos many,once]
      dsimp only
      by_cases stuck : state.numTrees = after.numTrees
      · refine ⟨_,if_pos stuck,.inr ⟨rfl,?_⟩⟩
        intro connected
        have same : after = state := by
          rcases grew.progress with same | fewer
          · exact same
          · omega
        obtain ⟨set,small,link,picked,apart⟩ := leaves_set connected holds many
        rw [same] at closed
        exact apart (closed set (mem_range.mpr small) link picked)
      · rw [if_neg stuck]
        refine ih holdsAfter ?_
        rcases grew.progress with same | fewer
        · exact absurd (by rw [same]) stuck
        · omega
    · exact ⟨state,by rw [rounds,if_neg many],.inl ⟨holds,Nat.le_of_not_lt many⟩⟩

lemma single_set (holds : Holds graph.count state) (single : state.numTrees ≤ 1)
    (first : x < graph.count) (second : y < graph.count) : state.subsets.setId x = state.subsets.setId y := by
  rw [← holds.trees,Finset.card_le_one] at single
  exact single _ (mem_image_of_mem _ (Finset.mem_range.mpr first)) _ (mem_image_of_mem _ (Finset.mem_range.mpr second))

lemma marked_light (holds : Holds graph.count state) (single : state.numTrees ≤ 1) :
    marked state.mst = Light (ends graph.links) (rank graph.links) Set.univ := by
  refine light_unique Set.finite_univ rank_injective.injOn holds.light ?_
  intro link _
  obtain ⟨src,dst⟩ := graph.inside _ (get_mem graph.links link)
  exact ⟨_,_,rfl,holds.joined _ _ (single_set holds single src dst)⟩

def nodes (graph : Graph) : Set Nat := {x | x < graph.count}

lemma mstFind_result (graph : Graph) (extra : Nat) :
    ∃ size mst, mstFind (graph.count + extra) graph.count graph.links = some (size,mst) ∧
      (Connected graph → size = graph.count - 1 ∧ marked mst = Light (ends graph.links) (rank graph.links) Set.univ) ∧
      (¬ Connected graph → size = 0) := by
  have bound : (start graph.links graph.count).numTrees ≤ graph.count + extra + 1 := by
    simp only [start]
    omega
  obtain ⟨final,found,outcome⟩ := rounds_hold (Nat.le_add_right graph.count extra) (start_holds graph.count) bound
  refine ⟨final.mstSize,final.mst,by rw [mstFind,found]; rfl,?_,?_⟩
  · intro connected
    rcases outcome with ⟨holds,single⟩ | ⟨_,apart⟩
    · refine ⟨?_,marked_light holds single⟩
      have known : final.subsets.setId 0 ∈ (range graph.count).image final.subsets.setId :=
        mem_image_of_mem _ (Finset.mem_range.mpr graph.inhabited)
      have trees := card_pos.mpr ⟨_,known⟩
      rw [holds.trees] at trees
      have total := holds.total
      omega
    · exact absurd connected apart
  · intro apart
    rcases outcome with ⟨holds,single⟩ | ⟨zero,_⟩
    · refine absurd ?_ apart
      intro x xSmall y ySmall
      exact (holds.joined x y (single_set holds single xSmall ySmall)).mono (Set.subset_univ _)
    · exact zero

lemma light_spans (connected : Connected graph) :
    IsSpanningTree (ends graph.links) (nodes graph) Set.univ (Light (ends graph.links) (rank graph.links) Set.univ) := by
  refine ⟨Set.subset_univ _,?_,light_acyclic Set.finite_univ rank_injective.injOn⟩
  intro x xSmall y ySmall
  refine (connected x xSmall y ySmall).through ?_
  intro link member
  exact (light_closes Set.finite_univ member).mono fun _ found => found.1

def totalWeight (links : List Link) (tree : Finset (Fin links.length)) : Nat := ∑ link ∈ tree, weight links link

theorem mst_find_correct (graph : Graph) (extra : Nat) :
    ∃ size mst, mstFind (graph.count + extra) graph.count graph.links = some (size,mst) ∧
      (Connected graph → size = graph.count - 1 ∧ IsSpanningTree (ends graph.links) (nodes graph) Set.univ (marked mst) ∧
        ∀ tree : Finset (Fin graph.links.length), IsSpanningTree (ends graph.links) (nodes graph) Set.univ (tree : Set (Fin graph.links.length)) →
          totalWeight graph.links (univ.filter fun link => mst link = true) ≤ totalWeight graph.links tree) ∧
      (¬ Connected graph → size = 0) := by
  obtain ⟨size,mst,found,whole,isolated⟩ := mstFind_result graph extra
  refine ⟨size,mst,found,?_,isolated⟩
  intro connected
  obtain ⟨counted,light⟩ := whole connected
  refine ⟨counted,by rw [light]; exact light_spans connected,?_⟩
  intro tree spanning
  refine light_minimal Set.finite_univ rank_injective.injOn rank_le_weight ?_ (Set.subset_univ _) spanning.acyclic ?_
  · rw [← light]
    ext link
    simp [marked]
  · intro link _
    obtain ⟨src,dst⟩ := graph.inside _ (get_mem graph.links link)
    exact ⟨_,_,rfl,spanning.spans _ src _ dst⟩

end MedvedDB.Mst
