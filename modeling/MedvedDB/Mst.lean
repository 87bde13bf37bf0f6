import MedvedDB.SpanningTree

namespace MedvedDB.Mst

open SpanningTree

def linkWeightMax : UInt32 := 1024 * 1024

structure Link where
  src : Nat
  dst : Nat
  weight : UInt32
  deriving DecidableEq, Repr

-- mdv_mstlink_cmp: the weights as a 32-bit difference, then the nodes.
def cmp (a b : Link) : Int :=
  let w := (a.weight - b.weight).toBitVec.toInt
  if w ≠ 0 then w
  else
    let first : Int := (min a.src a.dst : Nat) - (min b.src b.dst : Nat)
    if first ≠ 0 then first else (max a.src a.dst : Nat) - (max b.src b.dst : Nat)

structure Subsets where
  setId : Nat → Nat
  next : Nat → Option Nat

-- The walk of mdv_union_subsets over the second set; the last node it changed is kept.
def relabel (next : Nat → Option Nat) (id1 : Nat) (fuel : Nat) (setId : Nat → Nat) (p : Option Nat) (last : Option Nat) :
    Option ((Nat → Nat) × Option Nat) :=
  match p with
  | none => some (setId,last)
  | some p =>
    if setId p = id1 then some (setId,last)
    else
      match fuel with
      | 0 => none
      | fuel + 1 => relabel next id1 fuel (update setId p id1) (next p) (some p)

def unionSubsets (fuel : Nat) (subsets : Subsets) (id1 id2 : Nat) : Option Subsets :=
  let next := update subsets.next id1 (some id2)
  match relabel next id1 fuel subsets.setId (some id2) none with
  | some (setId,some last) => some ⟨setId,update next last (some ((subsets.next id1).getD id1))⟩
  | _ => none

-- Links are found by their place in the list.
structure State (links : List Link) where
  subsets : Subsets
  mst : Fin links.length → Bool
  numTrees : Nat
  mstSize : Nat

variable {links : List Link}

def closer (pick : Option (Fin links.length)) (link : Fin links.length) : Bool :=
  match pick with
  | none => true
  | some known => 0 < cmp (links.get known) (links.get link)

def search (setId : Nat → Nat) (picks : Nat → Option (Fin links.length)) (link : Fin links.length) : Nat → Option (Fin links.length) :=
  let srcSetId := setId (links.get link).src
  let dstSetId := setId (links.get link).dst
  if srcSetId = dstSetId then picks
  else
    let srcLink := picks srcSetId
    let dstLink := picks dstSetId
    let picks := if closer srcLink link then update picks srcSetId (some link) else picks
    if closer dstLink link then update picks dstSetId (some link) else picks

def shortest (links : List Link) (setId : Nat → Nat) : Nat → Option (Fin links.length) :=
  (finRange links.length).foldl (search setId) fun _ => none

def merge (fuel : Nat) (picks : Nat → Option (Fin links.length)) (state : State links) (i : Nat) : Option (State links) :=
  match picks i with
  | none => some state
  | some link =>
    let srcSetId := state.subsets.setId (links.get link).src
    let dstSetId := state.subsets.setId (links.get link).dst
    if srcSetId = dstSetId then some state
    else
      (unionSubsets fuel state.subsets srcSetId dstSetId).map fun subsets =>
        ⟨subsets,update state.mst link true,state.numTrees - 1,state.mstSize + 1⟩

def round (fuel count : Nat) (state : State links) : Option (State links) :=
  (List.range count).foldlM (merge fuel (shortest links state.subsets.setId)) state

-- The loop while there is more than one tree; a round without a union means that
-- some network segments are isolated.
def rounds (fuel count : Nat) : Nat → State links → Option (State links)
  | 0,state => if 1 < state.numTrees then none else some state
  | left + 1,state =>
    if 1 < state.numTrees then
      match round fuel count state with
      | none => none
      | some after => if state.numTrees = after.numTrees then some {after with mstSize:=0} else rounds fuel count left after
    else some state

def start (links : List Link) (count : Nat) : State links := ⟨⟨id,fun _ => none⟩,fun _ => false,count,0⟩

-- mdv_mst_find: the number of links in the tree and the marks of the links; none
-- when the loops are not over in the given number of steps.
def mstFind (fuel count : Nat) (links : List Link) : Option (Nat × (Fin links.length → Bool)) :=
  (rounds fuel count fuel (start links count)).map fun state => (state.mstSize,state.mst)

structure Graph where
  count : Nat
  links : List Link
  inhabited : 1 ≤ count
  inside : ∀ link ∈ links, link.src < count ∧ link.dst < count
  weights : ∀ link ∈ links, link.weight ≤ linkWeightMax

def ends (links : List Link) (link : Fin links.length) : Sym2 Nat := s((links.get link).src,(links.get link).dst)

def weight (links : List Link) (link : Fin links.length) : Nat := (links.get link).weight.toNat

-- The order in which the search takes links: weight, smaller node, greater node
-- and, among equal links, the place.
def key (link : Link) : Nat ×ₗ Nat ×ₗ Nat := toLex (link.weight.toNat,toLex (min link.src link.dst,max link.src link.dst))

def rank (links : List Link) (link : Fin links.length) : (Nat ×ₗ Nat ×ₗ Nat) ×ₗ Nat := toLex (key (links.get link),link.val)

lemma rank_injective : Function.Injective (rank links) := by
  intro one two same
  have places := (Prod.ext_iff.mp (toLex_inj.mp same)).2
  exact Fin.ext places

lemma rank_le_weight (one two : Fin links.length) (smaller : rank links one ≤ rank links two) : weight links one ≤ weight links two := by
  rw [rank,rank,Prod.Lex.toLex_le_toLex] at smaller
  have keys : key (links.get one) ≤ key (links.get two) := by
    rcases smaller with less | ⟨same,_⟩
    · exact less.le
    · exact same.le
  rw [key,key,Prod.Lex.toLex_le_toLex] at keys
  rcases keys with less | ⟨same,_⟩
  · exact less.le
  · exact same.le

lemma weight_difference (first : a ≤ linkWeightMax) (second : b ≤ linkWeightMax) :
    (a - b).toBitVec.toInt = (a.toNat : Int) - b.toNat := by
  have one : a.toNat ≤ 1048576 := first
  have two : b.toNat ≤ 1048576 := second
  have same : (a - b).toBitVec.toNat = (4294967296 - b.toNat + a.toNat) % 4294967296 := UInt32.toNat_sub a b
  rw [BitVec.toInt_eq_toNat_cond,same]
  split <;> omega

lemma cmp_pos (first : a.weight ≤ linkWeightMax) (second : b.weight ≤ linkWeightMax) : 0 < cmp a b ↔ key b < key a := by
  rw [key,key,Prod.Lex.toLex_lt_toLex,Prod.Lex.toLex_lt_toLex,cmp,weight_difference first second]
  dsimp only
  split
  · omega
  · split <;> omega

end MedvedDB.Mst
