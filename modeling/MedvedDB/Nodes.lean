import MedvedDB.Binn
import MedvedDB.Enumerator
import MedvedDB.Tracker

open MedvedDB.Binn MedvedDB.Lmdb MedvedDB.TwoPhaseSet MedvedDB.Tracker
namespace MedvedDB.Nodes

variable {υ : Type}

structure Stored (υ : Type) where
  uuid : υ
  id : UInt32
  addr : CString
  short : addr.bytes.length < addrLenMax
  deriving DecidableEq

def nodeObject (node : Stored υ) : Value := .object [("I",.int node.id.toNat),("A",.text node.addr.bytes)]

def binnNode (works : Bool) (node : Stored υ) : Option Value := if !works then none else some (nodeObject node)

def unbinnNode (uuid : υ) (obj : Value) : Option (Stored υ) :=
  match objectGetUint32 "I" obj,objectGetStr "A" obj with
  | some id,some addr => if short : addr.bytes.length < addrLenMax then some ⟨uuid,id,addr,short⟩ else none
  | _,_ => none

lemma unbinnNode_some {uuid : υ} {obj : Value} {id : UInt32} {addr : CString} (first : objectGetUint32 "I" obj = some id)
    (second : objectGetStr "A" obj = some addr) (short : addr.bytes.length < addrLenMax) : unbinnNode uuid obj = some ⟨uuid,id,addr,short⟩ := by
  unfold unbinnNode
  rw [first,second]
  exact dif_pos short

lemma unbinnNode_nodeObject (node : Stored υ) : unbinnNode node.uuid (nodeObject node) = some node := by
  refine unbinnNode_some ?_ ?_ node.short
  · rw [objectGetUint32,nodeObject,objectGet_first (by decide),bind_some,getUint32_toNat]
  · rw [objectGetStr,nodeObject,objectGet_next (by decide),objectGet_first (by decide),bind_some,getStr_text]

-- The entry of the loop is not initialised. Read before the cursor has set it, it is
-- memory that cannot be read, or a key and what binn_load makes of the value.
inductive Leftover (υ : Type) where
  | unreadable
  | entry (uuid : υ) (loaded : Option Value)

def visit (uuid : υ) (loaded : Option Value) : List (Stored υ) := (loaded.bind (unbinnNode uuid)).toList

def visitRest (next : Nat → Bool) : Nat → List (υ × Value) → List (Stored υ)
  | _,[] => []
  | index,(uuid,value)::rest => if next index then visit uuid (some value) ++ visitRest next (index + 1) rest else []

lemma visit_nodeObject (node : Stored υ) : visit node.uuid (some (nodeObject node)) = [node] := by
  rw [visit,bind_some,unbinnNode_nodeObject,toList_some]

lemma visitRest_nodeObjects {nodes : List (υ × Stored υ)} (index : Nat) (keyed : ∀ entry ∈ nodes, entry.2.uuid = entry.1) :
    visitRest (fun _ => true) index (nodes.map fun entry => (entry.1,nodeObject entry.2)) = nodes.map Prod.snd := by
  induction nodes generalizing index with
  | nil => rfl
  | cons entry rest ih =>
    have here := keyed entry mem_cons_self
    have behind := ih (index + 1) fun other member => keyed other (mem_cons_of_mem _ member)
    rw [map_cons,visitRest,if_pos rfl,← here,visit_nodeObject,behind,map_cons,singleton_append]

variable [LinearOrder υ]

structure Storage (υ : Type) [LinearOrder υ] where
  nodes : Option (KeyMap υ Value)

def nodesMap : MapName (Storage υ) υ Value := ⟨fun storage => storage.nodes,fun map _ => ⟨some map⟩,fun _ _ => rfl,fun found => by rw [← found]⟩

structure StoreCalls where
  start : Bool := true
  nodes : Bool := true
  binn : Bool := true
  put : Bool := true
  commit : Bool := true

def nodesStore (calls : StoreCalls) (storage : Storage υ) (node : Stored υ) : Errno × Storage υ :=
  match transactionStart calls.start storage with
  | none => (.failed,storage)
  | some txn =>
  match mapOpen calls.nodes true nodesMap txn with
  | none => (.failed,storage)
  | some txn =>
  match binnNode calls.binn node with
  | none => (.failed,storage)
  | some obj =>
  match mapPut calls.put nodesMap txn node.uuid obj with
  | (false,_) => (.failed,storage)
  | (true,txn) =>
  match transactionCommit calls.commit txn storage with
  | (true,stored) => (.ok,stored)
  | (false,stored) => (.failed,stored)

structure ForeachCalls where
  start : Bool := true
  nodes : Bool := true
  cursor : CursorCalls := {}
  next : Nat → Bool := fun _ => true
  commit : Bool := true

-- mdv_map_foreach. A cursor on an empty map is open too, so the body runs once.
def mapForeach (calls : ForeachCalls) (leftover : Leftover υ) (map : KeyMap υ Value) : Option (List (Stored υ)) :=
  match cursorOpenExplicit calls.cursor map none with
  | none => some []
  | some cursor =>
    match cursor.current,leftover with
    | some (uuid,value),_ => some (visit uuid (some value) ++ visitRest calls.next 0 cursor.rest)
    | none,.unreadable => none
    | none,.entry uuid loaded => some (visit uuid loaded ++ visitRest calls.next 0 cursor.rest)

-- Without a result the loop has read memory that is not there.
def nodesForeach (calls : ForeachCalls) (leftover : Leftover υ) (storage : Storage υ) : Option (Errno × List (Stored υ) × Storage υ) :=
  match transactionStart calls.start storage with
  | none => some (.failed,[],storage)
  | some txn =>
  match mapOpen calls.nodes true nodesMap txn with
  | none => some (.failed,[],storage)
  | some txn =>
  match (nodesMap.content txn.work).map (mapForeach calls leftover) with
  | none => some (.failed,[],storage)
  | some none => none
  | some (some called) =>
  match transactionCommit calls.commit txn storage with
  | (true,stored) => some (.ok,called,stored)
  | (false,stored) => some (.failed,called,stored)

structure Kept (υ : Type) [LinearOrder υ] where
  map : KeyMap υ (Stored υ)
  keyed : ∀ uuid node, map.find uuid = some node → node.uuid = uuid

def Kept.empty : Kept υ := ⟨.empty,fun _ _ found => nomatch found⟩

def Kept.insert (kept : Kept υ) (node : Stored υ) : Kept υ where
  map := kept.map.insert node.uuid node
  keyed := by
    intro uuid other found
    rw [KeyMap.find_insert] at found
    split at found
    · rename_i same
      cases found
      exact same.symm
    · exact kept.keyed uuid other found

def Kept.nodes (kept : Kept υ) : List (Stored υ) := kept.map.entries.map Prod.snd

-- A map that is not there yet and one without entries are the same here.
def Holds (storage : Storage υ) (kept : Kept υ) : Prop := storage.nodes.getD .empty = kept.map.mapValues nodeObject

lemma nodesMap_open (works : Bool) (storage : Storage υ) :
    mapOpen works true nodesMap (running storage) = if works then some (running ⟨some (storage.nodes.getD .empty)⟩) else none := open_create works nodesMap storage

lemma nodesStore_eq (calls : StoreCalls) (storage : Storage υ) (node : Stored υ) :
    nodesStore calls storage node =
      if calls.start && calls.nodes && calls.binn && calls.put && calls.commit then (.ok,⟨some ((storage.nodes.getD .empty).insert node.uuid (nodeObject node))⟩)
      else (.failed,storage) := by
  have found : nodesMap.content (⟨some (storage.nodes.getD .empty)⟩ : Storage υ) = some (storage.nodes.getD .empty) := rfl
  unfold nodesStore binnNode
  cases calls.start with
  | false => rfl
  | true =>
  cases calls.nodes with
  | false => simp only [start_eq,if_true,nodesMap_open,false_eq_true,if_false,Bool.and_false,Bool.false_and]
  | true =>
  cases calls.binn with
  | false => simp only [start_eq,if_true,nodesMap_open,Bool.not_false,false_eq_true,if_false,Bool.and_false,Bool.false_and]
  | true =>
    simp only [start_eq,if_true,nodesMap_open,Bool.not_true,false_eq_true,if_false,put_running _ _ _ found,Bool.and_true,Bool.true_and]
    cases calls.put with
    | false => rfl
    | true =>
      simp only [if_true,commit_running,Bool.true_and]
      cases calls.commit <;> rfl

variable {storage after : Storage υ} {kept : Kept υ} {calls : StoreCalls} {node : Stored υ}

lemma nodesStore_ok (done : nodesStore calls storage node = (.ok,after)) :
    after = ⟨some ((storage.nodes.getD .empty).insert node.uuid (nodeObject node))⟩ := by
  rw [nodesStore_eq] at done
  split at done
  · cases done
    rfl
  · cases done

lemma nodesForeach_eq (leftover : Leftover υ) (storage : Storage υ) :
    nodesForeach {} leftover storage = (mapForeach {} leftover (storage.nodes.getD .empty)).map fun called => (.ok,called,⟨some (storage.nodes.getD .empty)⟩) := by
  have found : nodesMap.content (⟨some (storage.nodes.getD .empty)⟩ : Storage υ) = some (storage.nodes.getD .empty) := rfl
  unfold nodesForeach
  simp only [start_eq,nodesMap_open,if_true,found,map_some]
  cases mapForeach {} leftover (storage.nodes.getD .empty) with
  | none => rfl
  | some called => simp only [commit_running,if_true,map_some]

lemma Holds.store (holds : Holds storage kept)
    (done : nodesStore calls storage node = (.ok,after)) : Holds after (kept.insert node) := by
  rw [nodesStore_ok done,Holds,getD_some,holds]
  exact KeyMap.insert_mapValues nodeObject kept.map node.uuid node

-- Every entry once, or the leftover if there is none.
def visited (leftover : Leftover υ) : List (υ × Value) → Option (List (Stored υ))
  | (uuid,value)::rest => some (visit uuid (some value) ++ visitRest (fun _ => true) 0 rest)
  | [] => match leftover with
    | .unreadable => none
    | .entry uuid loaded => some (visit uuid loaded)

lemma mapForeach_eq (leftover : Leftover υ) (map : KeyMap υ Value) : mapForeach {} leftover map = visited leftover map.entries := by
  unfold mapForeach cursorOpenExplicit
  simp only [Bool.not_true,false_eq_true,if_false,if_true]
  cases map.entries with
  | cons entry rest => rfl
  | nil =>
    cases leftover with
    | unreadable => rfl
    | entry uuid loaded => simp only [cursorFirst,visited,visitRest,append_nil]

lemma visited_kept (leftover : Leftover υ) (filled : kept.nodes ≠ []) :
    visited leftover (kept.map.mapValues nodeObject).entries = some kept.nodes := by
  have keyed : ∀ entry ∈ kept.map.entries, entry.2.uuid = entry.1 := fun entry member => kept.keyed entry.1 entry.2 (KeyMap.mem_entries.mp member)
  change visited leftover (kept.map.entries.map _) = some (kept.map.entries.map _)
  unfold Kept.nodes at filled
  revert keyed filled
  cases kept.map.entries with
  | nil => exact fun filled => absurd rfl filled
  | cons entry rest =>
    intro _ keyed
    have behind := visitRest_nodeObjects 0 fun other member => keyed other (mem_cons_of_mem _ member)
    have here := keyed entry mem_cons_self
    rw [map_cons,visited,behind,← here,visit_nodeObject,singleton_append,map_cons]

lemma Holds.foreach (holds : Holds storage kept) (leftover : Leftover υ) (filled : kept.nodes ≠ []) :
    nodesForeach {} leftover storage = some (.ok,kept.nodes,⟨some (kept.map.mapValues nodeObject)⟩) := by
  rw [nodesForeach_eq,holds,mapForeach_eq,visited_kept leftover filled,map_some]

section Runs

def lastStore (stores : List (Stored υ)) (uuid : υ) : Option (Stored υ) := stores.reverse.find? fun node => node.uuid = uuid

def keptOf (stores : List (Stored υ)) : Kept υ := stores.foldl Kept.insert .empty

lemma keptOf_find (stores : List (Stored υ)) (uuid : υ) : (keptOf stores).map.find uuid = lastStore stores uuid := by
  induction stores using reverseRecOn with
  | nil => rfl
  | append_singleton stores node ih =>
    have step : keptOf (stores ++ [node]) = (keptOf stores).insert node := by rw [keptOf,List.foldl_concat,keptOf]
    rw [step,Kept.insert,KeyMap.find_insert,ih,lastStore,lastStore,List.reverse_concat,List.find?_cons]
    by_cases same : uuid = node.uuid
    · simp [same]
    · simp [same,Ne.symm same]

def storeAll : Storage υ → List (StoreCalls × Stored υ) → Option (Storage υ)
  | storage,[] => some storage
  | storage,(calls,node)::rest =>
    match nodesStore calls storage node with
    | (.ok,after) => storeAll after rest
    | _ => none

lemma storeAll_holds {storage after : Storage υ} {kept : Kept υ} {stores : List (StoreCalls × Stored υ)} (holds : Holds storage kept)
    (done : storeAll storage stores = some after) : Holds after ((stores.map Prod.snd).foldl Kept.insert kept) := by
  induction stores generalizing storage kept with
  | nil =>
    cases done
    exact holds
  | cons store rest ih =>
    rw [storeAll] at done
    split at done
    · rename_i next stored
      exact ih (holds.store stored) done
    · cases done

def start (created : Bool) : Storage υ := ⟨if created then some .empty else none⟩

lemma start_holds (created : Bool) : Holds (start created) (Kept.empty : Kept υ) := by
  cases created <;> rfl

structure LoadsBack (stores called : List (Stored υ)) : Prop where
  once : (called.map Stored.uuid).Nodup
  last : ∀ node, node ∈ called ↔ lastStore stores node.uuid = some node

lemma keptOf_loads (stores : List (Stored υ)) : LoadsBack stores (keptOf stores).nodes where
  once := by
    have uuids : (keptOf stores).nodes.map Stored.uuid = (keptOf stores).map.entries.map Prod.fst := by
      rw [Kept.nodes,map_map]
      exact map_congr_left fun entry member => (keptOf stores).keyed entry.1 entry.2 (KeyMap.mem_entries.mp member)
    rw [uuids]
    exact (pairwise_map.mpr (keptOf stores).map.sorted).imp ne_of_lt
  last := by
    intro node
    rw [← keptOf_find]
    constructor
    · intro member
      obtain ⟨⟨uuid,other⟩,entry,rfl⟩ := mem_map.mp member
      have found := KeyMap.mem_entries.mp entry
      rwa [(keptOf stores).keyed uuid other found]
    · intro found
      exact mem_map.mpr ⟨(node.uuid,node),KeyMap.mem_entries.mpr found,rfl⟩

lemma keptOf_filled {stores : List (Stored υ)} (filled : stores ≠ []) : (keptOf stores).nodes ≠ [] := by
  obtain ⟨front,node,rfl⟩ := List.eq_nil_or_concat' stores |>.resolve_left filled
  have member : node ∈ (keptOf (front ++ [node])).nodes := by
    rw [(keptOf_loads _).last,lastStore,List.reverse_concat,List.find?_cons]
    simp
  exact List.ne_nil_of_mem member

end Runs

-- The loop over an empty map runs once, on an entry that was never set. After any
-- store it calls its function as it should.
theorem stored_nodes_loaded_iff (created : Bool) (stores : List (StoreCalls × Stored υ)) (storage : Storage υ)
    (done : storeAll (start created) stores = some storage) :
    (∀ leftover, ∃ called after, nodesForeach {} leftover storage = some (.ok,called,after) ∧ LoadsBack (stores.map Prod.snd) called) ↔ stores ≠ [] := by
  have holds := storeAll_holds (start_holds created) done
  constructor
  · rintro loads rfl
    cases done
    obtain ⟨called,after,crashed,_⟩ := loads .unreadable
    rw [nodesForeach_eq,start_holds created,mapForeach_eq] at crashed
    cases crashed
  · intro stored leftover
    have filled : (keptOf (stores.map Prod.snd)).nodes ≠ [] := keptOf_filled (by simpa using stored)
    exact ⟨_,_,holds.foreach leftover filled,keptOf_loads _⟩

def sampleStores : List (StoreCalls × Stored Nat) := [({},⟨7,1,⟨[97],proper_a⟩,by decide⟩),({},⟨7,1,⟨[98],proper_b⟩,by decide⟩)]

theorem second_address_loaded : ∃ storage, storeAll (start false) sampleStores = some storage ∧
    ∀ leftover, ∃ called after, nodesForeach {} leftover storage = some (.ok,called,after) ∧ LoadsBack (sampleStores.map Prod.snd) called :=
  ⟨_,rfl,(stored_nodes_loaded_iff false sampleStores _ rfl).mpr (by decide)⟩

-- Nothing was stored: the loop reads what is not there, or calls its function with what
-- it finds.
theorem empty_nodes_visited :
    nodesForeach {} .unreadable (start true : Storage Nat) = none ∧
      ∃ after, nodesForeach {} (.entry 7 (some (nodeObject ⟨7,1,⟨[97],proper_a⟩,by decide⟩))) (start true : Storage Nat) = some (.ok,[⟨7,1,⟨[97],proper_a⟩,by decide⟩],after) :=
  ⟨rfl,_,rfl⟩

end MedvedDB.Nodes
