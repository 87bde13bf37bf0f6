import MedvedDB.HashLaws
import MedvedDB.TopologyHistory

namespace MedvedDB.TrackerTables

open Tracker TopologyHistory
open HashMap (Table Valid create_valid erase find)

-- mdv_tracker_link, with its ends in the order of the last change.
structure Link where
  ids : UInt32 × UInt32
  weight : UInt32
  deriving DecidableEq, Repr

-- mdv_tracker_link_hash and mdv_tracker_link_cmp look at the smaller number first.
def linkHash (ids : UInt32 × UInt32) : Nat :=
  let (a,b) := linkKey ids
  let basis : UInt64 := 0x811c9dc5
  let prime : UInt64 := 0x01000193
  ((basis * prime ^^^ a.toUInt64) * prime ^^^ b.toUInt64).toNat

def linkCmp (one two : UInt32 × UInt32) : Int :=
  let (a1,b1) := linkKey one
  let (a2,b2) := linkKey two
  if a1 < a2 then -1
  else if a1 > a2 then 1
  else if b1 < b2 then -1
  else if b1 > b2 then 1
  else 0

def Link.key (link : Link) : UInt32 × UInt32 := linkKey link.ids

structure Tables (υ : Type) [LinearOrder υ] where
  uuid : υ
  maxId : UInt32
  nodes : Table (Node υ)
  ids : Table (Node υ)
  links : Table Link
  storage : KeyMap υ (UInt32 × List UInt8)

variable {υ : Type} [LinearOrder υ] (hash : υ → Nat)

def findNode (tables : Tables υ) (uuid : υ) : Option (Node υ) := find Node.uuid hash tables.nodes uuid
def findId (tables : Tables υ) (id : UInt32) : Option (Node υ) := find Node.id UInt32.toNat tables.ids id
def findLink (tables : Tables υ) (ids : UInt32 × UInt32) : Option Link := find Link.key linkHash tables.links ids

-- A node that does not get into the second map is taken out of the first.
def insert (tables : Tables υ) (node : Node υ) : Bool × Tables υ :=
  match HashMap.insert Node.uuid hash tables.nodes node with
  | none => (false,tables)
  | some nodes =>
    match HashMap.insert Node.id UInt32.toNat tables.ids node with
    | none => (false,{tables with nodes:=erase Node.uuid hash nodes node.uuid})
    | some ids => (true,{tables with nodes:=nodes,ids:=ids})

def inserted (result : Bool × Tables υ) : Errno × Tables υ := (if result.1 then .ok else .failed,result.2)

def idMaximize (tables : Tables υ) (id : UInt32) : Tables υ := if id > tables.maxId then {tables with maxId:=id} else tables

def nodesStore (tables : Tables υ) (node : Node υ) : Tables υ := {tables with storage:=tables.storage.insert node.uuid (node.id,node.addr)}

def load (tables : Tables υ) (listen : List UInt8) : Option (Tables υ) :=
  match nodeInit tables.uuid localId listen with
  | none => none
  | some node =>
    match insert hash (idMaximize tables node.id) node with
    | (false,_) => none
    | (true,tables) => some ((tables.storage.entries.map restored).foldl (fun tables node => (insert hash tables node).2) tables)

def create (uuid : υ) (storage : KeyMap υ (UInt32 × List UInt8)) (listen : List UInt8) : Option (Tables υ) :=
  load hash ⟨uuid,0,HashMap.create 256,HashMap.create 256,HashMap.create 256,storage⟩ listen

def register (tables : Tables υ) (uuid : υ) (addr : List UInt8) : Errno × Tables υ :=
  match findNode hash tables uuid with
  | some node =>
    if addr = node.addr then (.ok,tables)
    else match nodeInit uuid node.id addr with
      | none => (.failed,tables)
      | some changed => inserted (insert hash (nodesStore tables changed) changed)
  | none =>
    let tables := {tables with maxId:=tables.maxId + 1}
    match nodeInit uuid tables.maxId addr with
    | none => (.failed,tables)
    | some node => inserted (insert hash (nodesStore tables node) node)

def nodeIdentifier (tables : Tables υ) (peer : υ) : Option UInt32 :=
  if peer = tables.uuid then some localId else (findNode hash tables peer).map Node.id

def linkstate2 (tables : Tables υ) (link : Link) (connected : Bool) : Errno × Tables υ :=
  if connected then
    match HashMap.insert Link.key linkHash tables.links link with
    | none => (.noMem,tables)
    | some links => (.ok,{tables with links:=links})
  else (.ok,{tables with links:=erase Link.key linkHash tables.links link.key})

def linkstateAdd (tables : Tables υ) (one two : υ) (connected : Bool) (weight : UInt32) : Errno × Tables υ :=
  match nodeIdentifier hash tables one,nodeIdentifier hash tables two with
  | some first,some second => linkstate2 tables ⟨(first,second),weight⟩ connected
  | _,_ => (.failed,tables)

def registerAll (tables : Tables υ) : List (υ × List UInt8) → Errno × Tables υ
  | [] => (.ok,tables)
  | (uuid,addr)::rest =>
    match register hash tables uuid addr with
    | (.ok,tables) => registerAll tables rest
    | (_,tables) => (.failed,tables)

def linkAll (tables : Tables υ) (nodes : List (υ × List UInt8)) : List ((Nat × Nat) × UInt32) → Errno × Tables υ
  | [] => (.ok,tables)
  | ((one,two),weight)::rest =>
    match nodes[one]?,nodes[two]? with
    | some first,some second =>
      match linkstateAdd hash tables first.1 second.1 true weight with
      | (.ok,tables) => linkAll tables nodes rest
      | (_,tables) => (.failed,tables)
    | _,_ => (.failed,tables)

def topodiffAdd (tables : Tables υ) (diff : Topology υ) : Errno × Tables υ :=
  match registerAll hash tables diff.nodes with
  | (.ok,tables) => linkAll hash tables diff.nodes diff.links
  | (_,tables) => (.failed,tables)

def perform (tables : Tables υ) : Call υ → Errno × Tables υ
  | .register uuid addr => register hash tables uuid addr
  | .linkstate one two connected weight => linkstateAdd hash tables one two connected weight
  | .topodiff diff => topodiffAdd hash tables diff

def run (tables : Tables υ) : List (Call υ) → Option (Tables υ)
  | [] => some tables
  | call::rest =>
    match perform hash tables call with
    | (.ok,after) => run after rest
    | _ => none

def view (tables : Tables υ) : State υ :=
  ⟨tables.uuid,tables.maxId,findNode hash tables,findId tables,fun key => (findLink tables key).map Link.weight,tables.storage⟩

structure Formed (tables : Tables υ) : Prop where
  nodes : Valid Node.uuid hash tables.nodes
  ids : Valid Node.id UInt32.toNat tables.ids
  links : Valid Link.key linkHash tables.links

-- An operation on the tables does what it does on the functions.
structure Simulates (concrete : Errno × Tables υ) (abstract : Errno × State υ) : Prop where
  err : concrete.1 = abstract.1
  formed : Formed hash concrete.2
  view : view hash concrete.2 = abstract.2

section Simulation

variable {hash : υ → Nat} {tables : Tables υ}

lemma Formed.mem_nodes (formed : Formed hash tables) : node ∈ HashMap.entries tables.nodes ↔ findNode hash tables node.uuid = some node := by
  rw [findNode,formed.nodes.find_iff]
  exact (and_iff_left rfl).symm

lemma registerAll_cons (head : υ × List UInt8) (rest : List (υ × List UInt8)) :
    registerAll hash tables (head::rest) =
      if (register hash tables head.1 head.2).1 = .ok then registerAll hash (register hash tables head.1 head.2).2 rest
      else (.failed,(register hash tables head.1 head.2).2) := by
  rw [registerAll]
  cases register hash tables head.1 head.2 with
  | mk err after => cases err <;> rfl

lemma linkAll_cons (foundOne : nodes[one]? = some first)
    (foundTwo : nodes[two]? = some second) (weight : UInt32) (rest : List ((Nat × Nat) × UInt32)) :
    linkAll hash tables nodes (((one,two),weight)::rest) =
      if (linkstateAdd hash tables first.1 second.1 true weight).1 = .ok then linkAll hash (linkstateAdd hash tables first.1 second.1 true weight).2 nodes rest
      else (.failed,(linkstateAdd hash tables first.1 second.1 true weight).2) := by
  simp only [linkAll,foundOne,foundTwo]
  cases linkstateAdd hash tables first.1 second.1 true weight with
  | mk err after => cases err <;> rfl

lemma topodiffAdd_eq (diff : Topology υ) :
    topodiffAdd hash tables diff =
      if (registerAll hash tables diff.nodes).1 = .ok then linkAll hash (registerAll hash tables diff.nodes).2 diff.nodes diff.links
      else (.failed,(registerAll hash tables diff.nodes).2) := by
  unfold topodiffAdd
  cases registerAll hash tables diff.nodes with
  | mk err after => cases err <;> rfl

lemma insert_view (formed : Formed hash tables) (node : Node υ) :
    ∃ after, insert hash tables node = (true,after) ∧ Formed hash after ∧ view hash after = Tracker.insert (view hash tables) node := by
  obtain ⟨nodes,madeNodes,validNodes,_⟩ := formed.nodes.insert node
  obtain ⟨ids,madeIds,validIds,_⟩ := formed.ids.insert node
  refine ⟨{tables with nodes:=nodes,ids:=ids},by simp only [insert,madeNodes,madeIds],⟨validNodes,validIds,formed.links⟩,?_⟩
  have sameNodes : findNode hash {tables with nodes:=nodes,ids:=ids} = fun uuid => if uuid = node.uuid then some node else findNode hash tables uuid :=
    funext fun uuid => formed.nodes.find_insert madeNodes uuid
  have sameIds : findId {tables with nodes:=nodes,ids:=ids} = fun id => if id = node.id then some node else findId tables id :=
    funext fun id => formed.ids.find_insert madeIds id
  simp only [view,sameNodes,sameIds,Tracker.insert]
  rfl

lemma inserted_simulates (formed : Formed hash tables) (node : Node υ) (is : abstract = (.ok,Tracker.insert (view hash tables) node)) :
    Simulates hash (inserted (insert hash tables node)) abstract := by
  obtain ⟨after,made,now,same⟩ := insert_view formed node
  rw [made,is]
  exact ⟨rfl,now,same⟩

lemma register_simulates (formed : Formed hash tables) (uuid : υ) (addr : List UInt8) :
    Simulates hash (register hash tables uuid addr) (Tracker.register (view hash tables) uuid addr) := by
  have known : (view hash tables).nodes uuid = findNode hash tables uuid := rfl
  have stored (id : UInt32) (node : Node υ) : Formed hash (nodesStore {tables with maxId:=id} node) := ⟨formed.nodes,formed.ids,formed.links⟩
  unfold register Tracker.register
  rw [known]
  cases findNode hash tables uuid with
  | some node =>
    dsimp only
    split
    · exact ⟨rfl,formed,rfl⟩
    · cases nodeInit uuid node.id addr with
      | none => exact ⟨rfl,formed,rfl⟩
      | some changed => exact inserted_simulates (stored tables.maxId changed) changed rfl
  | none =>
    have counter : (view hash tables).maxId = tables.maxId := rfl
    dsimp only [newId]
    rw [counter]
    cases nodeInit uuid (tables.maxId + 1) addr with
    | none => exact ⟨rfl,⟨formed.nodes,formed.ids,formed.links⟩,rfl⟩
    | some node => exact inserted_simulates (stored (tables.maxId + 1) node) node rfl

lemma linkstate2_view (formed : Formed hash tables) (link : Link) (connected : Bool) :
    ∃ after, linkstate2 tables link connected = (.ok,after) ∧ Formed hash after ∧
      view hash after = LinkStates.relink (view hash tables) link.key (if connected then some link.weight else none) := by
  unfold linkstate2
  cases connected with
  | true =>
    obtain ⟨links,made,valid,_⟩ := formed.links.insert link
    refine ⟨{tables with links:=links},by simp only [if_true,made],⟨formed.nodes,formed.ids,valid⟩,?_⟩
    have same : (fun key => (findLink {tables with links:=links} key).map Link.weight) =
        fun key => if key = link.key then some link.weight else (findLink tables key).map Link.weight := by
      funext key
      rw [findLink,formed.links.find_insert made]
      split
      · rfl
      · rfl
    simp only [view,same,LinkStates.relink,if_true]
    rfl
  | false =>
    refine ⟨_,if_neg false_ne_true,⟨formed.nodes,formed.ids,formed.links.erase link.key⟩,?_⟩
    have same : (fun key => (findLink {tables with links:=erase Link.key linkHash tables.links link.key} key).map Link.weight) =
        fun key => if key = link.key then none else (findLink tables key).map Link.weight := by
      funext key
      rw [findLink,formed.links.find_erase]
      split
      · rfl
      · rfl
    simp only [view,same,LinkStates.relink,false_eq_true,if_false]
    rfl

lemma linkstateAdd_simulates (formed : Formed hash tables) (one two : υ) (connected : Bool) (weight : UInt32) :
    Simulates hash (linkstateAdd hash tables one two connected weight) (Tracker.linkstateAdd (view hash tables) one two connected weight) := by
  have left : Tracker.nodeIdentifier (view hash tables) one = nodeIdentifier hash tables one := rfl
  have right : Tracker.nodeIdentifier (view hash tables) two = nodeIdentifier hash tables two := rfl
  unfold linkstateAdd Tracker.linkstateAdd
  rw [left,right]
  cases nodeIdentifier hash tables one with
  | none => exact ⟨rfl,formed,rfl⟩
  | some first =>
    cases nodeIdentifier hash tables two with
    | none => exact ⟨rfl,formed,rfl⟩
    | some second =>
      obtain ⟨after,made,now,same⟩ := linkstate2_view formed ⟨(first,second),weight⟩ connected
      dsimp only
      rw [made]
      exact ⟨rfl,now,same⟩

lemma Simulates.bind (simulates : Simulates hash concrete abstract)
    (later : Simulates hash next following) :
    Simulates hash (if concrete.1 = .ok then next else (.failed,concrete.2)) (if abstract.1 = .ok then following else (.failed,abstract.2)) := by
  rw [simulates.err]
  split
  · exact later
  · exact ⟨rfl,simulates.formed,simulates.view⟩

lemma registerAll_simulates (formed : Formed hash tables) (nodes : List (υ × List UInt8)) :
    Simulates hash (registerAll hash tables nodes) (Tracker.registerAll (view hash tables) nodes) := by
  induction nodes generalizing tables with
  | nil => exact ⟨rfl,formed,rfl⟩
  | cons head rest ih =>
    have first := register_simulates formed head.1 head.2
    have later := ih first.formed
    rw [first.view] at later
    rw [registerAll_cons,Tracker.registerAll_cons]
    exact first.bind later

lemma linkAll_simulates (formed : Formed hash tables) (nodes : List (υ × List UInt8)) (list : List ((Nat × Nat) × UInt32)) :
    Simulates hash (linkAll hash tables nodes list) (Tracker.linkAll (view hash tables) nodes list) := by
  induction list generalizing tables with
  | nil => exact ⟨rfl,formed,rfl⟩
  | cons head rest ih =>
    obtain ⟨⟨one,two⟩,weight⟩ := head
    cases foundOne : nodes[one]? with
    | none =>
      simp only [linkAll,Tracker.linkAll,foundOne]
      exact ⟨rfl,formed,rfl⟩
    | some first =>
      cases foundTwo : nodes[two]? with
      | none =>
        simp only [linkAll,Tracker.linkAll,foundOne,foundTwo]
        exact ⟨rfl,formed,rfl⟩
      | some second =>
        have linked := linkstateAdd_simulates formed first.1 second.1 true weight
        have later := ih linked.formed
        rw [linked.view] at later
        rw [linkAll_cons foundOne foundTwo,LinkStates.linkAll_cons foundOne foundTwo]
        exact linked.bind later

lemma perform_simulates (formed : Formed hash tables) (call : Call υ) :
    Simulates hash (perform hash tables call) (TopologyHistory.perform (view hash tables) call) := by
  cases call with
  | register uuid addr => exact register_simulates formed uuid addr
  | linkstate one two connected weight => exact linkstateAdd_simulates formed one two connected weight
  | topodiff diff =>
    have registered := registerAll_simulates formed diff.nodes
    have later := linkAll_simulates registered.formed diff.nodes diff.links
    rw [registered.view] at later
    rw [perform,TopologyHistory.perform,topodiffAdd_eq,LinkStates.topodiffAdd_eq]
    exact registered.bind later

lemma run_view (formed : Formed hash tables) (ran : run hash tables calls = some after) :
    Formed hash after ∧ TopologyHistory.run (view hash tables) calls = some (view hash after) := by
  induction calls generalizing tables with
  | nil =>
    cases ran
    exact ⟨formed,rfl⟩
  | cons call rest ih =>
    have performed := perform_simulates formed call
    rw [run] at ran
    rw [TopologyHistory.run]
    split at ran
    · rename_i middle made
      rw [made] at performed
      have same : TopologyHistory.perform (view hash tables) call = (.ok,view hash middle) := Prod.ext performed.err.symm performed.view.symm
      rw [same]
      exact ih performed.formed ran
    · cases ran

lemma foldl_view (formed : Formed hash tables) (nodes : List (Node υ)) :
    Formed hash (nodes.foldl (fun tables node => (insert hash tables node).2) tables) ∧
      view hash (nodes.foldl (fun tables node => (insert hash tables node).2) tables) = nodes.foldl Tracker.insert (view hash tables) := by
  induction nodes generalizing tables with
  | nil => exact ⟨formed,rfl⟩
  | cons node rest ih =>
    obtain ⟨after,made,now,same⟩ := insert_view formed node
    rw [foldl_cons,foldl_cons,made,← same]
    exact ih now

lemma idMaximize_view (formed : Formed hash tables) (id : UInt32) :
    Formed hash (idMaximize tables id) ∧ view hash (idMaximize tables id) = Tracker.idMaximize (view hash tables) id := by
  have counter : (view hash tables).maxId = tables.maxId := rfl
  unfold idMaximize Tracker.idMaximize
  rw [counter]
  split
  · exact ⟨⟨formed.nodes,formed.ids,formed.links⟩,rfl⟩
  · exact ⟨formed,rfl⟩

lemma load_view {after : Tables υ} {listen : List UInt8} (formed : Formed hash tables) (loaded : load hash tables listen = some after) :
    Formed hash after ∧ Tracker.load (view hash tables) listen = some (view hash after) := by
  have own : (view hash tables).uuid = tables.uuid := rfl
  unfold load at loaded
  unfold Tracker.load
  rw [own]
  cases made : nodeInit tables.uuid localId listen with
  | none =>
    rw [made] at loaded
    cases loaded
  | some node =>
    obtain ⟨larger,raised⟩ := idMaximize_view formed node.id
    obtain ⟨middle,entered,now,same⟩ := insert_view larger node
    rw [made] at loaded
    dsimp only at loaded ⊢
    rw [entered] at loaded
    cases loaded
    obtain ⟨whole,equal⟩ := foldl_view now (middle.storage.entries.map restored)
    refine ⟨whole,?_⟩
    rw [equal,← raised,← same]
    rfl

lemma create_view {uuid : υ} {storage : KeyMap υ (UInt32 × List UInt8)} {listen : List UInt8} (created : create hash uuid storage listen = some tables) :
    Formed hash tables ∧ Tracker.create uuid storage listen = some (view hash tables) :=
  load_view ⟨create_valid (by decide),create_valid (by decide),create_valid (by decide)⟩ created

end Simulation

end MedvedDB.TrackerTables
