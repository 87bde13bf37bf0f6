import MedvedDB.Vector
import MedvedDB.Uuid
import MedvedDB.TopologyIndex

open MedvedDB.Binn MedvedDB.Vector
namespace MedvedDB.TopologyCodec

open TopologyDiff (Topolink)

-- mdv_toponode. Its address is a pointer or the text behind it.
structure Toponode (α : Type) where
  uuid : Uuid
  id : UInt32
  addr : α
  deriving DecidableEq

-- mdv_topology, with the size of its extra data.
structure Topology (α : Type) where
  nodes : List (Toponode α)
  links : List Topolink
  extra : Nat
  deriving DecidableEq

variable {α β γ σ : Type}

def bare (node : Toponode α) : TopologyDiff.Toponode Uuid := ⟨node.uuid,node.id⟩

structure SerializeCalls where
  object : Bool := true
  node : Nat → Bool := fun _ => true
  link : Nat → Bool := fun _ => true
  set : Bool := true

def nodeObject (node : Toponode CString) : Value :=
  .object [("ID",.int node.id.toNat),("U1",.int node.uuid.low.toNat),("U2",.int node.uuid.high.toNat),("A",.text node.addr.bytes)]

def linkObject (link : Topolink) : Value :=
  .object [("U1",.int link.node.1),("U2",.int link.node.2),("W",.int link.weight.toNat)]

def topologyObject (topology : Topology CString) : Value :=
  .object (([("NC",.int topology.nodes.length),("LC",.int topology.links.length),("ES",.int topology.extra)] : List (String × Value)) ++
    (if topology.nodes = [] then [] else [("N",.list (topology.nodes.map nodeObject))]) ++
    if topology.links = [] then [] else [("L",.list (topology.links.map linkObject))])

def topologySerialize (calls : SerializeCalls) (topology : Topology CString) : Option Value :=
  if !calls.object then none
  else if (List.range topology.nodes.length).any fun index => !calls.node index then none
  else if (List.range topology.links.length).any fun index => !calls.link index then none
  else if !calls.set then none
  else some (topologyObject topology)

-- The vectors, the growth of each before the element with this index is added, and
-- whether the extra data moves then.
structure DecodeCalls where
  vectors : Bool := true
  nodes : Nat → Bool := fun _ => true
  links : Nat → Bool := fun _ => true
  extra : Nat → Bool := fun _ => true
  moves : Nat → Bool := fun _ => false
  topology : Bool := true

-- A place in the extra data, with the number of times these had been moved.
structure Ptr where
  generation : Nat
  offset : Nat
  deriving DecidableEq

structure Extra where
  data : Vec UInt8
  generation : Nat

def appendAddr (realloc moves : Bool) (extra : Extra) (addr : CString) : Except Fault (Option Ptr × Extra) :=
  match append 1 realloc extra.data addr.terminated with
  | .error fault => .error fault
  | .ok (false,_) => .ok (none,extra)
  | .ok (true,data) =>
    let generation := if extra.data.capacity < data.capacity && moves then extra.generation + 1 else extra.generation
    .ok (some ⟨generation,extra.data.items.length⟩,⟨data,generation⟩)

structure Loaded where
  nodes : Vec (Toponode (Option Ptr))
  extra : Extra

def readNode (value : Value) : Option (Toponode CString) :=
  match objectGetUint32 "ID" value,Uuid.unbinn "U1" "U2" value,objectGetStr "A" value with
  | some id,some uuid,some addr => some ⟨uuid,id,addr⟩
  | _,_,_ => none

def nodeSize : Nat := 32
def linkSize : Nat := 12

-- A node is added with the pointer it got, which may be NULL. That there was no
-- memory for the node itself is not noticed.
def storeNode (calls : DecodeCalls) (index : Nat) (state : Loaded) (node : Toponode CString) : Except Fault Loaded :=
  match appendAddr (calls.extra index) (calls.moves index) state.extra node.addr with
  | .error fault => .error fault
  | .ok (addr,extra) =>
    match append nodeSize (calls.nodes index) state.nodes [⟨node.uuid,node.id,addr⟩] with
    | .error fault => .error fault
    | .ok (_,nodes) => .ok ⟨nodes,extra⟩

-- The ends of a link are compared with the declared number of nodes.
def readLink (nodesCount : Nat) (value : Value) : Option Topolink :=
  match objectGetUint32 "U1" value,objectGetUint32 "U2" value,objectGetUint32 "W" value with
  | some first,some second,some weight =>
    if first.toNat ≥ nodesCount ∨ second.toNat ≥ nodesCount then none else some ⟨(first.toNat,second.toNat),weight⟩
  | _,_,_ => none

def storeLink (calls : DecodeCalls) (index : Nat) (links : Vec Topolink) (link : Topolink) : Except Fault (Vec Topolink) :=
  match append linkSize (calls.links index) links [link] with
  | .error fault => .error fault
  | .ok (_,links) => .ok links

-- What the two loops share. The check lets one element more through than declared.
def load (count : Nat) (read : Value → Option α) (store : Nat → σ → α → Except Fault σ) : Nat → σ → List Value → Except Fault σ
  | _,state,[] => .ok state
  | index,state,value::rest =>
    if index > count then .error .nothing
    else match read value with
      | none => .error .nothing
      | some item =>
        match store index state item with
        | .error fault => .error fault
        | .ok state => load count read store (index + 1) state rest

-- A list is only asked for when its count is not 0.
def listOf (count : UInt64) (key : String) (obj : Value) : Option (List Value) :=
  if count = 0 then some [] else (objectGetList key obj).map foreach

-- The text behind a pointer, unless it is NULL or leads to where the data were before.
def textAt (extra : Extra) : Option Ptr → Option CString
  | none => none
  | some ptr => if ptr.generation = extra.generation then some (.read (extra.data.items.drop ptr.offset)) else none

def inside (count : Nat) (link : Topolink) : Bool := link.node.1 < count && link.node.2 < count

-- mdv_topology_create over the vectors. A position that is not in the list of nodes
-- gives NULL, which is read.
def topologyCreate (nodes : List (Toponode α)) (links : List Topolink) (extra : Nat) : Except Fault (Topology α) :=
  if links.all (inside nodes.length) then
    .ok ⟨nodes.insertionSort fun one two => one.uuid ≤ two.uuid,(TopologyDiff.create ⟨nodes.map bare,links⟩).links,extra⟩
  else .error .dereference

structure Header where
  nodesCount : UInt64
  linksCount : UInt64
  extraSize : UInt64
  nodes : List Value
  links : List Value

def readHeader (obj : Value) : Option Header :=
  match objectGetUint64 "NC" obj,objectGetUint64 "LC" obj,objectGetUint64 "ES" obj with
  | some nodesCount,some linksCount,some extraSize =>
    match listOf nodesCount "N" obj,listOf linksCount "L" obj with
    | some nodes,some links => some ⟨nodesCount,linksCount,extraSize,nodes,links⟩
    | _,_ => none
  | _,_,_ => none

def loadNodes (calls : DecodeCalls) (header : Header) : Except Fault Loaded :=
  load header.nodesCount.toNat readNode (storeNode calls) 0
    ⟨create nodeSize header.nodesCount.toNat,create 1 header.extraSize.toNat,0⟩ header.nodes

def loadLinks (calls : DecodeCalls) (header : Header) : Except Fault (Vec Topolink) :=
  load header.linksCount.toNat (readLink header.nodesCount.toNat) (storeLink calls) 0 (create linkSize header.linksCount.toNat) header.links

def topologyDeserialize (calls : DecodeCalls) (obj : Value) : Except Fault (Topology (Option CString)) :=
  match readHeader obj with
  | none => .error .nothing
  | some header =>
    if !calls.vectors then .error .nothing
    else match loadNodes calls header with
    | .error fault => .error fault
    | .ok state =>
      match loadLinks calls header with
      | .error fault => .error fault
      | .ok links =>
        if !calls.topology then .error .nothing
        else topologyCreate (state.nodes.items.map fun node => ⟨node.uuid,node.id,textAt state.extra node.addr⟩) links.items state.extra.data.items.length

def readable (read : Value → Option α) : Nat → List Value → List α
  | 0,_ => []
  | _,[] => []
  | limit+1,value::rest =>
    match read value with
    | none => []
    | some item => item::readable read limit rest

def whole (read : Value → Option α) (limit : Nat) (values : List Value) : Bool := values.length ≤ limit && values.all fun value => (read value).isSome

def storeAll (store : Nat → σ → α → Except Fault σ) : Nat → σ → List α → Except Fault σ
  | _,state,[] => .ok state
  | index,state,item::rest =>
    match store index state item with
    | .error fault => .error fault
    | .ok state => storeAll store (index + 1) state rest

section Loops

variable (read : Value → Option α) (store : Nat → σ → α → Except Fault σ)

lemma readable_length (limit : Nat) (values : List Value) : (readable read limit values).length ≤ limit := by
  induction values generalizing limit with
  | nil => cases limit <;> exact Nat.zero_le _
  | cons value rest ih =>
    cases limit with
    | zero => exact Nat.zero_le _
    | succ limit =>
      rw [readable]
      split
      · exact Nat.zero_le _
      · exact succ_le_succ (ih limit)

variable {read} in
lemma readable_whole (read_ : values.map read = items.map some) (few : values.length ≤ limit) :
    readable read limit values = items ∧ whole read limit values = true := by
  have all : values.all (fun value => (read value).isSome) = true := by
    rw [all_eq_true]
    intro value member
    have seen : read value ∈ items.map some := read_ ▸ mem_map_of_mem member
    obtain ⟨item,_,is⟩ := mem_map.mp seen
    rw [← is]
    rfl
  refine ⟨?_,by rw [whole,decide_eq_true few,all]; rfl⟩
  clear all
  induction values generalizing limit items with
  | nil =>
    cases items with
    | nil => cases limit <;> rfl
    | cons item items => cases read_
  | cons value rest ih =>
    cases items with
    | nil => cases read_
    | cons item items =>
      obtain ⟨here,later⟩ := List.cons.inj read_
      cases limit with
      | zero => cases few
      | succ limit =>
        simp only [readable,here]
        rw [ih later (Nat.le_of_succ_le_succ few)]

lemma load_eq (count index : Nat) (state : σ) (values : List Value) :
    load count read store index state values =
      match storeAll store index state (readable read (count + 1 - index) values) with
      | .error fault => .error fault
      | .ok state => if whole read (count + 1 - index) values then .ok state else .error .nothing := by
  induction values generalizing index state with
  | nil =>
    cases left : count + 1 - index with
    | zero => rfl
    | succ limit => rfl
  | cons value rest ih =>
    rw [load]
    by_cases beyond : index > count
    · have none_ : count + 1 - index = 0 := by omega
      rw [if_pos beyond,none_]
      rfl
    · obtain ⟨limit,left⟩ : ∃ limit, count + 1 - index = limit + 1 := ⟨count - index,by omega⟩
      have next : count + 1 - (index + 1) = limit := by omega
      rw [if_neg beyond,left]
      cases seen : read value with
      | none => simp [readable,whole,seen,storeAll]
      | some item =>
        simp only [readable,seen,storeAll]
        cases stored : store index state item with
        | error fault => rfl
        | ok state =>
          have same : whole read (limit + 1) (value::rest) = whole read limit rest := by simp [whole,seen]
          simp only [ih,next,same]

end Loops

-- Each step of a loop adds its item to one vector, and fails as that does.
structure Pushes (itemSize : Nat) (realloc : Nat → Bool) (vec : σ → Vec β) (keep : σ → Prop) (shown : β → γ) (shows : α → γ)
    (store : Nat → σ → α → Except Fault σ) : Prop where
  step : ∀ index state item, keep state → ∃ stored, shown stored = shows item ∧
    match append itemSize (realloc index) (vec state) [stored] with
    | .error fault => store index state item = .error fault
    | .ok (_,after) => ∃ next, store index state item = .ok next ∧ vec next = after ∧ keep next

-- The item that makes the vector grow is lost when there is no memory for it.
def kept (grows : Bool) (limit : Nat) (items : List α) : List α := if items.length ≤ limit ∨ grows = true then items else items.take limit

def Roomy (itemSize count stored : Nat) : Prop := min stored count * itemSize ≤ count * itemSize % 2^64

instance (itemSize count stored : Nat) : Decidable (Roomy itemSize count stored) := inferInstanceAs (Decidable (_ ≤ _))

section Storing

variable {itemSize count : Nat} {realloc : Nat → Bool} {vec : σ → Vec β} {keep : σ → Prop} {shown : β → γ} {shows : α → γ}
  {store : Nat → σ → α → Except Fault σ}

lemma kept_cons (grows : Bool) (limit : Nat) (item : α) (rest : List α) : kept grows (limit + 1) (item::rest) = item::kept grows limit rest := by
  simp only [kept,length_cons,Nat.add_le_add_iff_right,List.take_succ_cons]
  split
  · rfl
  · rfl

lemma storeAll_pushes (pushes : Pushes itemSize realloc vec keep shown shows store) (positive : 0 < count) (items : List α) (index : Nat) (state : σ)
    (good : keep state) (counted : (vec state).items.length = index) (capacity : (vec state).capacity = count)
    (room : (vec state).room = count * itemSize % 2^64) (below : index ≤ count) (few : index + items.length ≤ count + 1)
    (inside : index * itemSize ≤ count * itemSize % 2^64) :
    if Roomy itemSize count (index + items.length) then
      ∃ next, storeAll store index state items = .ok next ∧ keep next ∧
        (vec next).items.map shown = (vec state).items.map shown ++ (kept (realloc count) (count - index) items).map shows
    else storeAll store index state items = .error .overrun := by
  induction items generalizing index state with
  | nil =>
    have roomy : Roomy itemSize count (index + ([] : List α).length) := by
      rw [Roomy,length_nil,Nat.add_zero,Nat.min_eq_left below]
      exact inside
    rw [if_pos roomy]
    exact ⟨state,rfl,good,by simp [kept]⟩
  | cons item rest ih =>
    obtain ⟨stored,same,step⟩ := pushes.step index state item good
    rw [length_cons] at few
    rcases Nat.lt_or_ge index count with more | full
    · -- There is capacity, and the bytes decide.
      have enough : (vec state).items.length + [stored].length ≤ (vec state).capacity := by
        rw [counted,capacity,length_singleton]
        omega
      have total : (vec state).items.length + [stored].length = index + 1 := by rw [counted,length_singleton]
      rw [append_inside _ _ enough,room,total] at step
      by_cases fits : (index + 1) * itemSize ≤ count * itemSize % 2^64
      · rw [if_neg (not_lt.mpr fits)] at step
        obtain ⟨next,done,after,goodNow⟩ := step
        have nextItems : (vec next).items.map shown = (vec state).items.map shown ++ [shows item] := by rw [after,map_append,List.map_singleton,same]
        have later := ih (index + 1) next goodNow (by rw [after]; simp [counted]) (by rw [after]; exact capacity) (by rw [after]) more (by omega) fits
        obtain ⟨limit,left⟩ : ∃ limit, count - index = limit + 1 := ⟨count - index - 1,by omega⟩
        have nextLimit : count - (index + 1) = limit := by omega
        have length : index + (item::rest).length = index + 1 + rest.length := by
          rw [length_cons]
          omega
        simp only [storeAll,done,length]
        rw [nextItems,nextLimit] at later
        rw [left,kept_cons,map_cons]
        simpa only [append_assoc,singleton_append] using later
      · rw [if_pos (not_le.mp fits)] at step
        have short : ¬Roomy itemSize count (index + (item::rest).length) := by
          intro roomy
          rw [Roomy,length_cons] at roomy
          have least : (index + 1) * itemSize ≤ min (index + (rest.length + 1)) count * itemSize := Nat.mul_le_mul_right _ (by omega)
          exact fits (least.trans roomy)
        rw [if_neg short]
        simp only [storeAll,step]
    · -- The one element too many makes the vector grow.
      have here : index = count := by omega
      have last : rest = [] := List.eq_nil_of_length_eq_zero (by omega)
      subst here last
      have roomy : Roomy itemSize index (index + [item].length) := by
        rw [Roomy,length_singleton,Nat.min_eq_right (le_succ index)]
        exact inside
      have beyond : (vec state).capacity < (vec state).items.length + [stored].length := by
        rw [counted,capacity,length_singleton]
        exact lt_succ_self index
      obtain ⟨larger,_,_,_,grown⟩ := append_grows itemSize (realloc index) (by rw [capacity]; exact positive) beyond
      rw [grown] at step
      rw [if_pos roomy,Nat.sub_self]
      cases memory : realloc index with
      | false =>
        simp only [memory,Bool.not_false,if_true] at step
        obtain ⟨next,done,after,goodNow⟩ := step
        refine ⟨next,by simp only [storeAll,done],goodNow,?_⟩
        rw [after]
        simp [kept]
      | true =>
        simp only [memory,Bool.not_true,false_eq_true,if_false] at step
        obtain ⟨next,done,after,goodNow⟩ := step
        refine ⟨next,by simp only [storeAll,done],goodNow,?_⟩
        rw [after]
        simp [kept,same]

lemma load_start (read : Value → Option α) (store : Nat → σ → α → Except Fault σ) (count : Nat) (state : σ) (values : List Value) :
    load count read store 0 state values =
      match storeAll store 0 state (readable read (count + 1) values) with
      | .error fault => .error fault
      | .ok state => if whole read (count + 1) values then .ok state else .error .nothing := by
  rw [load_eq,Nat.sub_zero]

lemma readable_nil (read : Value → Option α) (limit : Nat) : readable read limit [] = [] := by
  cases limit <;> rfl

lemma load_pushes (pushes : Pushes itemSize realloc vec keep shown shows store) (read : Value → Option α)
    (good : readable read (count + 1) values ≠ [] → keep state) (fresh : vec state = create itemSize count) (none_ : count = 0 → values = []) :
    if Roomy itemSize count (readable read (count + 1) values).length then
      if whole read (count + 1) values then
        ∃ next, load count read store 0 state values = .ok next ∧
          (vec next).items.map shown = (kept (realloc count) count (readable read (count + 1) values)).map shows
      else load count read store 0 state values = .error .nothing
    else load count read store 0 state values = .error .overrun := by
  have few := readable_length read (count + 1) values
  rw [load_start]
  cases items : readable read (count + 1) values with
  | nil =>
    have roomy : Roomy itemSize count ([] : List α).length := by simp [Roomy]
    rw [if_pos roomy]
    split
    · exact ⟨state,rfl,by simp [fresh,create,kept]⟩
    · rfl
  | cons item rest =>
    have positive : 0 < count := by
      rcases Nat.eq_zero_or_pos count with zero | positive
      · rw [none_ zero,readable_nil] at items
        cases items
      · exact positive
    rw [items] at few good
    have stored := storeAll_pushes pushes positive (item::rest) 0 state (good (cons_ne_nil _ _)) (by rw [fresh]; rfl) (by rw [fresh]; rfl)
      (by rw [fresh]; rfl) (Nat.zero_le _) (by rw [Nat.zero_add]; exact few) (by rw [Nat.zero_mul]; exact Nat.zero_le _)
    rw [Nat.zero_add,Nat.sub_zero] at stored
    split
    · rename_i roomy
      rw [if_pos roomy] at stored
      obtain ⟨next,done,_,same⟩ := stored
      rw [done]
      dsimp only
      split
      · refine ⟨next,rfl,?_⟩
        rw [same,fresh]
        rfl
      · rfl
    · rename_i short
      rw [if_neg short] at stored
      rw [stored]

end Storing

structure Growing (extra : Extra) : Prop where
  positive : 0 < extra.data.capacity
  roomy : extra.data.capacity ≤ extra.data.room

section Steps

variable {calls : DecodeCalls}

lemma storeLink_pushes (calls : DecodeCalls) : Pushes linkSize calls.links id (fun _ => True) id id (storeLink calls) where
  step index links link _ := by
    refine ⟨link,rfl,?_⟩
    cases pushed : append linkSize (calls.links index) (id links) [link] with
    | error fault =>
      rw [id] at pushed
      simp only [storeLink,pushed]
    | ok result =>
      rw [id] at pushed
      exact ⟨result.2,by simp only [storeLink,pushed],rfl,trivial⟩

lemma appendAddr_inside (realloc moves : Bool) (growing : Growing extra)
    (enough : extra.data.items.length + addr.terminated.length ≤ extra.data.capacity) :
    appendAddr realloc moves extra addr =
      .ok (some ⟨extra.generation,extra.data.items.length⟩,⟨{extra.data with items:=extra.data.items ++ addr.terminated},extra.generation⟩) := by
  have fits : ¬extra.data.room < (extra.data.items.length + addr.terminated.length) * 1 := by
    have roomy := growing.roomy
    omega
  have still : ¬extra.data.capacity < extra.data.capacity := Nat.lt_irrefl _
  simp only [appendAddr,append_inside 1 realloc enough,if_neg fits,decide_eq_false still,Bool.false_and,false_eq_true,if_false]

lemma appendAddr_grows (realloc moves : Bool) (growing : Growing extra)
    (beyond : extra.data.capacity < extra.data.items.length + addr.terminated.length) :
    ∃ larger, extra.data.capacity < larger ∧ extra.data.items.length + addr.terminated.length ≤ larger ∧
      newCapacity (extra.data.items.length + addr.terminated.length) (extra.data.items.length + addr.terminated.length) extra.data.capacity = some larger ∧
      appendAddr realloc moves extra addr =
        if !realloc then .ok (none,extra)
        else .ok (some ⟨extra.generation + moves.toNat,extra.data.items.length⟩,
          ⟨⟨larger,larger * 1,extra.data.items ++ addr.terminated⟩,extra.generation + moves.toNat⟩) := by
  obtain ⟨larger,grown,fits,found,appended⟩ := append_grows 1 realloc growing.positive beyond
  refine ⟨larger,grown,fits,found,?_⟩
  cases realloc with
  | false =>
    simp only [Bool.not_false,if_true] at appended ⊢
    simp only [appendAddr,appended]
  | true =>
    simp only [Bool.not_true,false_eq_true,if_false] at appended ⊢
    simp only [appendAddr,appended,decide_eq_true grown,Bool.true_and]
    cases moves <;> rfl

lemma appendAddr_growing (realloc moves : Bool) (growing : Growing extra) (addr : CString) :
    ∃ ptr after, appendAddr realloc moves extra addr = .ok (ptr,after) ∧ Growing after := by
  rcases Nat.lt_or_ge extra.data.capacity (extra.data.items.length + addr.terminated.length) with beyond | enough
  · obtain ⟨larger,grown,_,_,appended⟩ := appendAddr_grows realloc moves growing beyond
    rw [appended]
    cases realloc with
    | false => exact ⟨_,_,rfl,growing⟩
    | true => exact ⟨_,_,rfl,⟨Nat.lt_of_le_of_lt (Nat.zero_le _) grown,Nat.le_of_eq (Nat.mul_one larger).symm⟩⟩
  · exact ⟨_,_,appendAddr_inside realloc moves growing enough,⟨growing.positive,growing.roomy⟩⟩

lemma storeNode_pushes (calls : DecodeCalls) :
    Pushes nodeSize calls.nodes Loaded.nodes (fun state => Growing state.extra) bare bare (storeNode calls) where
  step index state node growing := by
    obtain ⟨ptr,extra,appended,growingNow⟩ := appendAddr_growing (calls.extra index) (calls.moves index) growing node.addr
    refine ⟨⟨node.uuid,node.id,ptr⟩,rfl,?_⟩
    cases pushed : append nodeSize (calls.nodes index) state.nodes [⟨node.uuid,node.id,ptr⟩] with
    | error fault => simp only [storeNode,appended,pushed]
    | ok result => exact ⟨⟨result.2,extra⟩,by simp only [storeNode,appended,pushed],rfl,growingNow⟩

end Steps

-- What the loops get to, and what is left of it in the vectors.
def Header.nodeItems (header : Header) : List (Toponode CString) := readable readNode (header.nodesCount.toNat + 1) header.nodes
def Header.linkItems (header : Header) : List Topolink := readable (readLink header.nodesCount.toNat) (header.linksCount.toNat + 1) header.links
def Header.keptNodes (header : Header) (calls : DecodeCalls) : List (Toponode CString) :=
  kept (calls.nodes header.nodesCount.toNat) header.nodesCount.toNat header.nodeItems
def Header.keptLinks (header : Header) (calls : DecodeCalls) : List Topolink :=
  kept (calls.links header.linksCount.toNat) header.linksCount.toNat header.linkItems
def Header.nodesWhole (header : Header) : Bool := whole readNode (header.nodesCount.toNat + 1) header.nodes
def Header.linksWhole (header : Header) : Bool := whole (readLink header.nodesCount.toNat) (header.linksCount.toNat + 1) header.links

section Decoding

variable {calls : DecodeCalls} {header : Header}

lemma listOf_zero (found : listOf count key obj = some list) (zero : count = 0) : list = [] := by
  rw [listOf,if_pos zero,some_inj] at found
  exact found.symm

lemma readHeader_lists (known : readHeader obj = some header) :
    (header.nodesCount = 0 → header.nodes = []) ∧ (header.linksCount = 0 → header.links = []) := by
  unfold readHeader at known
  split at known
  · split at known
    · rename_i nodes links
      cases known
      exact ⟨listOf_zero nodes,listOf_zero links⟩
    · cases known
  · cases known

lemma positive_of_ne {count : UInt64} (filled : count ≠ 0) : 0 < count.toNat := by
  rcases Nat.eq_zero_or_pos count.toNat with zero | positive
  · exact absurd (UInt64.toNat_inj.mp zero) filled
  · exact positive

lemma create_growing {size : UInt64} (filled : size ≠ 0) : Growing ⟨create 1 size.toNat,0⟩ := by
  refine ⟨positive_of_ne filled,?_⟩
  show size.toNat ≤ size.toNat * 1 % 2^64
  rw [Nat.mul_one,mod_eq_of_lt size.toNat_lt]

lemma loadNodes_diverges (calls : DecodeCalls) (some_ : header.nodeItems ≠ []) (empty : header.extraSize = 0) :
    loadNodes calls header = .error .diverges := by
  obtain ⟨item,rest,items⟩ := exists_cons_of_ne_nil some_
  have stuck : append 1 (calls.extra 0) (create 1 header.extraSize.toNat) item.addr.terminated = .error .diverges :=
    append_zero 1 _ (by rw [empty]; rfl) (by simp [CString.terminated])
  rw [Header.nodeItems] at items
  rw [loadNodes,load_start,items]
  simp only [storeAll,storeNode,appendAddr,stuck]

lemma loadNodes_spec (calls : DecodeCalls) (none_ : header.nodesCount = 0 → header.nodes = []) (space : header.nodeItems ≠ [] → header.extraSize ≠ 0) :
    if Roomy nodeSize header.nodesCount.toNat header.nodeItems.length then
      if header.nodesWhole then
        ∃ state, loadNodes calls header = .ok state ∧ state.nodes.items.map bare = (header.keptNodes calls).map bare
      else loadNodes calls header = .error .nothing
    else loadNodes calls header = .error .overrun :=
  load_pushes (storeNode_pushes calls) readNode (fun some_ => create_growing (space some_)) rfl fun zero => none_ (UInt64.toNat_inj.mp zero)

lemma loadLinks_spec (calls : DecodeCalls) (none_ : header.linksCount = 0 → header.links = []) :
    if Roomy linkSize header.linksCount.toNat header.linkItems.length then
      if header.linksWhole then ∃ links, loadLinks calls header = .ok links ∧ links.items = header.keptLinks calls
      else loadLinks calls header = .error .nothing
    else loadLinks calls header = .error .overrun := by
  have spec := load_pushes (storeLink_pushes calls) (readLink header.nodesCount.toNat) (fun _ => trivial)
    (rfl : id (create linkSize header.linksCount.toNat) = _) fun zero => none_ (UInt64.toNat_inj.mp zero)
  simp only [List.map_id] at spec
  exact spec

def Safe (result : Except Fault (Topology α)) : Prop :=
  result = .error .nothing ∨ ∃ topology, result = .ok topology ∧ ∀ link ∈ topology.links, inside topology.nodes.length link = true

lemma not_safe (bad : fault ≠ .nothing) : ¬Safe (.error fault : Except Fault (Topology α)) := by
  rintro (same | ⟨topology,same,_⟩)
  · cases same
    exact bad rfl
  · cases same

lemma inside_iff : inside count link = true ↔ link.node.1 < count ∧ link.node.2 < count := by
  rw [inside,and_eq_true,decide_eq_true_eq,decide_eq_true_eq]

lemma topologyCreate_safe (nodes : List (Toponode α)) (links : List Topolink) (extra : Nat) :
    Safe (topologyCreate nodes links extra) ↔ ∀ link ∈ links, inside nodes.length link = true := by
  rw [topologyCreate]
  split
  · rename_i all
    have within : TopologyDiff.Within (nodes.map bare) links := by
      intro link member
      rw [length_map]
      exact inside_iff.mp (all_eq_true.mp all link member)
    refine ⟨fun _ => all_eq_true.mp all,fun _ => .inr ⟨_,rfl,?_⟩⟩
    intro link member
    have placed := TopologyDiff.create_within within link member
    rw [TopologyDiff.create,TopologyDiff.sortNodes] at placed
    dsimp only at placed
    rw [List.length_insertionSort,length_map] at placed
    dsimp only
    rw [List.length_insertionSort]
    exact inside_iff.mpr placed
  · rename_i some_
    refine ⟨fun safe => absurd safe (not_safe (by decide)),fun all => ?_⟩
    exact absurd (all_eq_true.mpr all) some_

-- The condition on a header and its lists: space for the addresses as soon as there is
-- one, bytes for what is stored under the declared counts, and no link with an end behind
-- the nodes that are really there.
structure Sound (calls : DecodeCalls) (header : Header) : Prop where
  space : header.nodeItems ≠ [] → header.extraSize ≠ 0
  nodes : Roomy nodeSize header.nodesCount.toNat header.nodeItems.length
  links : header.nodesWhole = true → Roomy linkSize header.linksCount.toNat header.linkItems.length
  ends : header.nodesWhole = true → header.linksWhole = true → calls.topology = true →
    ∀ link ∈ header.keptLinks calls, inside (header.keptNodes calls).length link = true

lemma links_safe_iff (calls : DecodeCalls) (none_ : header.linksCount = 0 → header.links = []) {state : Loaded}
    (shown : state.nodes.items.map bare = (header.keptNodes calls).map bare) :
    Safe (match loadLinks calls header with
      | .error fault => .error fault
      | .ok links =>
        if !calls.topology then .error .nothing
        else topologyCreate (state.nodes.items.map fun node => (⟨node.uuid,node.id,textAt state.extra node.addr⟩ : Toponode (Option CString))) links.items
          state.extra.data.items.length) ↔
      Roomy linkSize header.linksCount.toNat header.linkItems.length ∧ (header.linksWhole = true → calls.topology = true →
        ∀ link ∈ header.keptLinks calls, inside (header.keptNodes calls).length link = true) := by
  have links := loadLinks_spec calls none_
  have length : state.nodes.items.length = (header.keptNodes calls).length := by simpa using congrArg List.length shown
  by_cases roomy : Roomy linkSize header.linksCount.toNat header.linkItems.length
  · rw [if_pos roomy] at links
    by_cases whole : header.linksWhole = true
    · rw [if_pos whole] at links
      obtain ⟨list,loaded,same⟩ := links
      rw [loaded]
      dsimp only
      cases topology : calls.topology with
      | false => exact ⟨fun _ => ⟨roomy,fun _ absent => nomatch absent⟩,fun _ => .inl rfl⟩
      | true =>
        simp only [Bool.not_true,false_eq_true,if_false]
        rw [topologyCreate_safe,length_map,length,same]
        exact ⟨fun ends => ⟨roomy,fun _ _ => ends⟩,fun right => right.2 whole trivial⟩
    · rw [if_neg whole] at links
      rw [links]
      exact ⟨fun _ => ⟨roomy,fun wrong => absurd wrong whole⟩,fun _ => .inl rfl⟩
  · rw [if_neg roomy] at links
    rw [links]
    exact ⟨fun safe => absurd safe (not_safe (by decide)),fun right => absurd right.1 roomy⟩

end Decoding

theorem decoding_safe_iff (calls : DecodeCalls) (obj : Value) :
    Safe (topologyDeserialize calls obj) ↔ ∀ header, readHeader obj = some header → calls.vectors = true → Sound calls header := by
  cases known : readHeader obj with
  | none =>
    have nothing : topologyDeserialize calls obj = .error .nothing := by simp only [topologyDeserialize,known]
    rw [nothing]
    exact ⟨fun _ header absent => (nomatch absent),fun _ => .inl rfl⟩
  | some header =>
    obtain ⟨noNodes,noLinks⟩ := readHeader_lists known
    simp only [topologyDeserialize,known,some_inj,forall_eq']
    cases memory : calls.vectors with
    | false => exact ⟨fun _ absent => (nomatch absent),fun _ => .inl rfl⟩
    | true =>
      simp only [Bool.not_true,false_eq_true,if_false,forall_const]
      by_cases space : header.nodeItems ≠ [] → header.extraSize ≠ 0
      · have nodes := loadNodes_spec calls noNodes space
        by_cases roomy : Roomy nodeSize header.nodesCount.toNat header.nodeItems.length
        · rw [if_pos roomy] at nodes
          by_cases whole : header.nodesWhole = true
          · rw [if_pos whole] at nodes
            obtain ⟨state,loaded,shown⟩ := nodes
            rw [loaded]
            refine (links_safe_iff calls noLinks shown).trans ⟨fun rest => ?_,fun sound => ⟨sound.links whole,sound.ends whole⟩⟩
            exact ⟨space,roomy,fun _ => rest.1,fun _ => rest.2⟩
          · rw [if_neg whole] at nodes
            rw [nodes]
            exact ⟨fun _ => ⟨space,roomy,fun wrong => absurd wrong whole,fun wrong => absurd wrong whole⟩,fun _ => .inl rfl⟩
        · rw [if_neg roomy] at nodes
          rw [nodes]
          exact ⟨fun safe => absurd safe (not_safe (by decide)),fun sound => absurd sound.nodes roomy⟩
      · rw [Classical.not_imp,not_not] at space
        rw [loadNodes_diverges calls space.1 space.2]
        exact ⟨fun safe => absurd safe (not_safe (by decide)),fun sound => absurd space.2 (sound.space space.1)⟩

-- Two nodes are declared and one is there. No space is declared for an address.
def missingNode : Value :=
  .object [("NC",.int 2),("LC",.int 1),("ES",.int 2),("N",.list [nodeObject ⟨⟨1,2⟩,0,⟨[97],proper_a⟩⟩]),("L",.list [linkObject ⟨(0,1),5⟩])]
def noSpace : Value := .object [("NC",.int 1),("LC",.int 0),("ES",.int 0),("N",.list [nodeObject ⟨⟨1,2⟩,0,⟨[97],proper_a⟩⟩])]

theorem unsafe_objects : topologyDeserialize {} missingNode = .error .dereference ∧ topologyDeserialize {} noSpace = .error .diverges := by
  constructor
  · rfl
  · rfl

end MedvedDB.TopologyCodec
