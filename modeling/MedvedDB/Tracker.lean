import MedvedDB.Basic
import MedvedDB.KeyMap

namespace MedvedDB.Tracker

structure Node (υ : Type) where
  uuid : υ
  id : UInt32
  addr : List UInt8
  deriving DecidableEq, Repr

def addrLenMax : Nat := 256

def nodeInit (uuid : υ) (id : UInt32) (addr : List UInt8) : Option (Node υ) :=
  if addr.length ≥ addrLenMax then none else some ⟨uuid,id,addr⟩

-- `storage` is the map NODES on disk, the rest lives in memory. A link is kept
-- under the pair of its ends in increasing order.
structure State (υ : Type) [LinearOrder υ] where
  uuid : υ
  maxId : UInt32
  nodes : υ → Option (Node υ)
  ids : UInt32 → Option (Node υ)
  links : UInt32 × UInt32 → Option UInt32
  storage : KeyMap υ (UInt32 × List UInt8)

variable {υ : Type} [LinearOrder υ]

def insert (tracker : State υ) (node : Node υ) : State υ :=
  {tracker with
    nodes:=fun uuid => if uuid = node.uuid then some node else tracker.nodes uuid,
    ids:=fun id => if id = node.id then some node else tracker.ids id}

def newId (tracker : State υ) : UInt32 × State υ :=
  (tracker.maxId + 1,{tracker with maxId:=tracker.maxId + 1})

def idMaximize (tracker : State υ) (id : UInt32) : State υ :=
  if id > tracker.maxId then {tracker with maxId:=id} else tracker

def nodesStore (tracker : State υ) (node : Node υ) : State υ :=
  {tracker with storage:=tracker.storage.insert node.uuid (node.id,node.addr)}

def restored (entry : υ × UInt32 × List UInt8) : Node υ := ⟨entry.1,entry.2.1,entry.2.2⟩

def nodesForeach (tracker : State υ) : List (Node υ) := tracker.storage.entries.map restored

-- The ids of the loaded nodes do not go through idMaximize.
def load (tracker : State υ) (listen : List UInt8) : Option (State υ) :=
  match nodeInit tracker.uuid localId listen with
  | none => none
  | some node =>
    let tracker := insert (idMaximize tracker node.id) node
    some ((nodesForeach tracker).foldl insert tracker)

def create (uuid : υ) (storage : KeyMap υ (UInt32 × List UInt8)) (listen : List UInt8) : Option (State υ) :=
  load ⟨uuid,0,fun _ => none,fun _ => none,fun _ => none,storage⟩ listen

-- The new id is taken before the address is checked.
def register (tracker : State υ) (uuid : υ) (addr : List UInt8) : Errno × State υ :=
  match tracker.nodes uuid with
  | some node =>
    if addr = node.addr then (.ok,tracker)
    else match nodeInit uuid node.id addr with
      | none => (.failed,tracker)
      | some changed => (.ok,insert (nodesStore tracker changed) changed)
  | none =>
    let (id,tracker) := newId tracker
    match nodeInit uuid id addr with
    | none => (.failed,tracker)
    | some node => (.ok,insert (nodesStore tracker node) node)

def linkKey (ids : UInt32 × UInt32) : UInt32 × UInt32 := if ids.1 < ids.2 then ids else (ids.2,ids.1)

def nodeIdentifier (tracker : State υ) (peer : υ) : Option UInt32 :=
  if peer = tracker.uuid then some localId else (tracker.nodes peer).map fun node => node.id

def linkstateAdd (tracker : State υ) (one two : υ) (connected : Bool) (weight : UInt32) : Errno × State υ :=
  match nodeIdentifier tracker one,nodeIdentifier tracker two with
  | some first,some second =>
    let link := linkKey (first,second)
    (.ok,{tracker with links:=fun other =>
      if other = link then if connected then some weight else none else tracker.links other})
  | _,_ => (.failed,tracker)

-- A topology message: nodes with addresses, and links between positions of
-- the node list with their weights.
structure Topology (υ : Type) where
  nodes : List (υ × List UInt8)
  links : List ((Nat × Nat) × UInt32)

def registerAll (tracker : State υ) : List (υ × List UInt8) → Errno × State υ
  | [] => (.ok,tracker)
  | (uuid,addr)::rest =>
    match register tracker uuid addr with
    | (.ok,tracker) => registerAll tracker rest
    | (_,tracker) => (.failed,tracker)

def linkAll (tracker : State υ) (nodes : List (υ × List UInt8)) : List ((Nat × Nat) × UInt32) → Errno × State υ
  | [] => (.ok,tracker)
  | ((one,two),weight)::rest =>
    match nodes[one]?,nodes[two]? with
    | some first,some second =>
      match linkstateAdd tracker first.1 second.1 true weight with
      | (.ok,tracker) => linkAll tracker nodes rest
      | (_,tracker) => (.failed,tracker)
    | _,_ => (.failed,tracker)

def topodiffAdd (tracker : State υ) (diff : Topology υ) : Errno × State υ :=
  match registerAll tracker diff.nodes with
  | (.ok,tracker) => linkAll tracker diff.nodes diff.links
  | (_,tracker) => (.failed,tracker)

inductive Action (υ : Type) where
  | register (uuid : υ) (addr : List UInt8)
  | topodiffAdd (diff : Topology υ)
  | restart (listen : List UInt8)

-- A restart keeps the disk only. It fails when the listen address does not fit.
def step (tracker : State υ) : Action υ → Option (State υ)
  | .register uuid addr => some (register tracker uuid addr).2
  | .topodiffAdd diff => some (topodiffAdd tracker diff).2
  | .restart listen => create tracker.uuid tracker.storage listen

def run (uuid : υ) (listen : List UInt8) (actions : List (Action υ)) : Option (State υ) := do
  let tracker ← create uuid .empty listen
  actions.foldlM step tracker

def Distinct (tracker : State υ) : Prop :=
  ∀ {one two first second}, tracker.nodes one = some first → tracker.nodes two = some second →
    first.id = second.id → one = two

structure Unique (tracker : State υ) : Prop where
  distinct : Distinct tracker
  lookup : ∀ {uuid node}, tracker.nodes uuid = some node → tracker.ids node.id = some node

-- What ties the disk to the memory: every registered node other than this one
-- is stored under its id, and what is stored is registered.
structure Sound (tracker : State υ) : Prop where
  keyed : ∀ {uuid node}, tracker.nodes uuid = some node → node.uuid = uuid
  own : ∃ node, tracker.nodes tracker.uuid = some node ∧ node.id = localId
  persisted : ∀ {uuid node}, tracker.nodes uuid = some node → uuid ≠ tracker.uuid →
    ∃ addr, tracker.storage.find uuid = some (node.id,addr)
  loaded : ∀ {uuid id addr}, tracker.storage.find uuid = some (id,addr) →
    ∃ node, tracker.nodes uuid = some node ∧ node.id = id

variable {tracker : State υ} {uuid : υ}

lemma insert_unique (unique : Unique tracker)
    (free : ∀ uuid other, tracker.nodes uuid = some other → other.id = node.id → uuid = node.uuid) :
    Unique (insert tracker node) where
  distinct := by
    intro one two first second foundOne foundTwo same
    simp only [insert] at foundOne foundTwo
    split at foundOne
    · rename_i isOne
      cases foundOne
      split at foundTwo
      · rename_i isTwo
        rw [isOne,isTwo]
      · exact isOne.trans (free two second foundTwo same.symm).symm
    · split at foundTwo
      · rename_i isTwo
        cases foundTwo
        exact (free one first foundOne same).trans isTwo.symm
      · exact unique.distinct foundOne foundTwo same
  lookup := by
    intro uuid other found
    simp only [insert] at found ⊢
    split at found
    · cases found
      exact if_pos rfl
    · rename_i different
      rw [if_neg fun same => different (free uuid other found same)]
      exact unique.lookup found

lemma Unique.renumber (unique : Unique tracker) (id : UInt32) :
    Unique {tracker with maxId:=id} := ⟨unique.distinct,unique.lookup⟩

lemma Sound.renumber (sound : Sound tracker) (id : UInt32) :
    Sound {tracker with maxId:=id} := ⟨sound.keyed,sound.own,sound.persisted,sound.loaded⟩

lemma store_sound (sound : Sound tracker)
    (own : node.uuid = tracker.uuid → node.id = localId) : Sound (insert (nodesStore tracker node) node) where
  keyed := by
    intro uuid other found
    simp only [insert] at found
    split at found
    · rename_i same
      cases found
      exact same.symm
    · exact sound.keyed found
  own := by
    by_cases same : tracker.uuid = node.uuid
    · exact ⟨node,by simp [insert,nodesStore,same],own same.symm⟩
    · obtain ⟨self,found,numbered⟩ := sound.own
      exact ⟨self,by simpa [insert,nodesStore,same] using found,numbered⟩
  persisted := by
    intro uuid other found foreign
    simp only [insert,nodesStore,KeyMap.find_insert] at found foreign ⊢
    split at found
    · cases found
      exact ⟨node.addr,if_pos ‹_›⟩
    · rw [if_neg ‹_›]
      exact sound.persisted found foreign
  loaded := by
    intro uuid id addr found
    simp only [insert,nodesStore,KeyMap.find_insert] at found ⊢
    split at found
    · cases found
      exact ⟨node,if_pos ‹_›,rfl⟩
    · rw [if_neg ‹_›]
      exact sound.loaded found

lemma register_cases (tracker : State υ) (uuid : υ) (addr : List UInt8) :
    (∃ id, (register tracker uuid addr).2 = {tracker with maxId:=id} ∧
      (tracker.nodes uuid = none → addrLenMax ≤ addr.length)) ∨
    (∃ old, tracker.nodes uuid = some old ∧ (register tracker uuid addr).2 =
      insert (nodesStore tracker ⟨uuid,old.id,addr⟩) ⟨uuid,old.id,addr⟩) ∨
    (tracker.nodes uuid = none ∧ addr.length < addrLenMax ∧ (register tracker uuid addr).2 =
      insert (nodesStore {tracker with maxId:=tracker.maxId + 1} ⟨uuid,tracker.maxId + 1,addr⟩)
        ⟨uuid,tracker.maxId + 1,addr⟩) := by
  cases found : tracker.nodes uuid with
  | some old =>
    by_cases same : addr = old.addr
    · exact .inl ⟨tracker.maxId,by simp [register,found,same],by simp⟩
    · by_cases long : addrLenMax ≤ addr.length
      · exact .inl ⟨tracker.maxId,by simp [register,found,same,nodeInit,long],by simp⟩
      · exact .inr (.inl ⟨old,rfl,by simp [register,found,same,nodeInit,long]⟩)
  | none =>
    by_cases long : addrLenMax ≤ addr.length
    · exact .inl ⟨tracker.maxId + 1,by simp [register,found,newId,nodeInit,long],fun _ => long⟩
    · exact .inr (.inr ⟨rfl,not_le.mp long,by simp [register,found,newId,nodeInit,long]⟩)

lemma register_sound (sound : Sound tracker) (uuid : υ) (addr : List UInt8) :
    Sound (register tracker uuid addr).2 := by
  rcases register_cases tracker uuid addr with ⟨id,shape,_⟩ | ⟨old,known,shape⟩ | ⟨unknown,_,shape⟩
  · rw [shape]
    exact sound.renumber id
  · rw [shape]
    apply store_sound sound
    intro same
    obtain ⟨self,found,numbered⟩ := sound.own
    rw [← same,known] at found
    cases found
    exact numbered
  · rw [shape]
    apply store_sound (sound.renumber (tracker.maxId + 1))
    intro same
    obtain ⟨self,found,_⟩ := sound.own
    rw [← same,unknown] at found
    cases found

lemma register_keeps (found : tracker.nodes other = some node) (uuid : υ) (addr : List UInt8) :
    ∃ kept, (register tracker uuid addr).2.nodes other = some kept ∧ kept.id = node.id := by
  rcases register_cases tracker uuid addr with ⟨id,shape,_⟩ | ⟨old,known,shape⟩ | ⟨unknown,_,shape⟩
  · rw [shape]
    exact ⟨node,found,rfl⟩
  · rw [shape]
    by_cases same : other = uuid
    · rw [same,known] at found
      cases found
      exact ⟨_,if_pos same,rfl⟩
    · exact ⟨node,by simpa [insert,nodesStore,same] using found,rfl⟩
  · rw [shape]
    by_cases same : other = uuid
    · rw [same,unknown] at found
      cases found
    · exact ⟨node,by simpa [insert,nodesStore,same] using found,rfl⟩

-- The next number of the counter is not the number of a registered node,
-- whenever this registration will use it.
def FreshId (tracker : State υ) (uuid : υ) (addr : List UInt8) : Prop :=
  tracker.nodes uuid = none → addr.length < addrLenMax →
    ∀ other node, tracker.nodes other = some node → node.id ≠ tracker.maxId + 1

lemma register_unique (unique : Unique tracker) (fresh : FreshId tracker uuid addr) :
    Unique (register tracker uuid addr).2 := by
  rcases register_cases tracker uuid addr with ⟨id,shape,_⟩ | ⟨old,known,shape⟩ | ⟨unknown,short,shape⟩
  · rw [shape]
    exact unique.renumber id
  · rw [shape]
    have stored : Unique (nodesStore tracker ⟨uuid,old.id,addr⟩) := ⟨unique.distinct,unique.lookup⟩
    exact insert_unique stored fun other node found same => unique.distinct found known same
  · rw [shape]
    have stored : Unique (nodesStore {tracker with maxId:=tracker.maxId + 1} ⟨uuid,tracker.maxId + 1,addr⟩) :=
      ⟨unique.distinct,unique.lookup⟩
    exact insert_unique stored fun other node found same => absurd same (fresh unknown short other node found)

lemma register_distinct_fresh (distinct : Distinct (register tracker uuid addr).2) :
    FreshId tracker uuid addr := by
  intro unknown short other node found same
  rcases register_cases tracker uuid addr with ⟨id,_,long⟩ | ⟨old,known,_⟩ | ⟨_,_,shape⟩
  · exact absurd short (not_lt.mpr (long unknown))
  · rw [unknown] at known
    cases known
  · rw [shape] at distinct
    have apart : other ≠ uuid := by
      intro equal
      rw [equal,unknown] at found
      cases found
    exact apart (distinct (by simpa [insert,nodesStore,apart] using found) (if_pos rfl) same)

def FreshAll (tracker : State υ) : List (υ × List UInt8) → Prop
  | [] => True
  | (uuid,addr)::rest => FreshId tracker uuid addr ∧
    ((register tracker uuid addr).1 = .ok → FreshAll (register tracker uuid addr).2 rest)

lemma registerAll_cons (tracker : State υ) (uuid : υ) (addr : List UInt8) (rest : List (υ × List UInt8)) :
    registerAll tracker ((uuid,addr)::rest) =
      if (register tracker uuid addr).1 = .ok then registerAll (register tracker uuid addr).2 rest
      else (.failed,(register tracker uuid addr).2) := by
  rw [registerAll]
  cases register tracker uuid addr with
  | mk err after => cases err <;> simp

lemma registerAll_sound (sound : Sound tracker) (nodes : List (υ × List UInt8)) :
    Sound (registerAll tracker nodes).2 := by
  induction nodes generalizing tracker with
  | nil => exact sound
  | cons head rest ih =>
    rw [registerAll_cons]
    split
    · exact ih (register_sound sound _ _)
    · exact register_sound sound _ _

lemma registerAll_keeps (found : tracker.nodes other = some node)
    (nodes : List (υ × List UInt8)) :
    ∃ kept, (registerAll tracker nodes).2.nodes other = some kept ∧ kept.id = node.id := by
  induction nodes generalizing tracker node with
  | nil => exact ⟨node,found,rfl⟩
  | cons head rest ih =>
    obtain ⟨kept,still,same⟩ := register_keeps found head.1 head.2
    rw [registerAll_cons]
    split
    · obtain ⟨last,present,equal⟩ := ih still
      exact ⟨last,present,equal.trans same⟩
    · exact ⟨kept,still,same⟩

lemma registerAll_distinct (distinct : Distinct (registerAll tracker nodes).2) : Distinct tracker := by
  intro one two first second foundOne foundTwo same
  obtain ⟨keptOne,stillOne,idOne⟩ := registerAll_keeps foundOne nodes
  obtain ⟨keptTwo,stillTwo,idTwo⟩ := registerAll_keeps foundTwo nodes
  exact distinct stillOne stillTwo (by rw [idOne,idTwo,same])

lemma registerAll_unique_iff (unique : Unique tracker) (nodes : List (υ × List UInt8)) :
    Unique (registerAll tracker nodes).2 ↔ FreshAll tracker nodes := by
  induction nodes generalizing tracker with
  | nil => exact iff_of_true unique trivial
  | cons head rest ih =>
    obtain ⟨uuid,addr⟩ := head
    rw [FreshAll,registerAll_cons]
    split
    · rename_i worked
      constructor
      · intro final
        have fresh := register_distinct_fresh (registerAll_distinct final.distinct)
        exact ⟨fresh,fun _ => (ih (register_unique unique fresh)).mp final⟩
      · rintro ⟨fresh,later⟩
        exact (ih (register_unique unique fresh)).mpr (later worked)
    · rename_i failed
      exact ⟨fun final => ⟨register_distinct_fresh final.distinct,fun worked => absurd worked failed⟩,
        fun fresh => register_unique unique fresh.1⟩

lemma linkstateAdd_frame (tracker : State υ) (one two : υ) (connected : Bool) (weight : UInt32) :
    ∃ links, (linkstateAdd tracker one two connected weight).2 = {tracker with links:=links} := by
  unfold linkstateAdd
  split <;> exact ⟨_,rfl⟩

lemma linkAll_frame (tracker : State υ) (nodes : List (υ × List UInt8)) (list : List ((Nat × Nat) × UInt32)) :
    ∃ links, (linkAll tracker nodes list).2 = {tracker with links:=links} := by
  induction list generalizing tracker with
  | nil => exact ⟨_,rfl⟩
  | cons head rest ih =>
    obtain ⟨⟨one,two⟩,weight⟩ := head
    unfold linkAll
    split
    · rename_i first second _ _
      obtain ⟨links,shape⟩ := linkstateAdd_frame tracker first.1 second.1 true weight
      cases added : linkstateAdd tracker first.1 second.1 true weight with
      | mk err after =>
        rw [added] at shape
        replace shape : after = {tracker with links:=links} := shape
        cases err with
        | ok =>
          obtain ⟨more,deeper⟩ := ih after
          exact ⟨more,by rw [deeper,shape]⟩
        | _ => exact ⟨links,shape⟩
    · exact ⟨_,rfl⟩

lemma topodiffAdd_frame (tracker : State υ) (diff : Topology υ) :
    ∃ links, (topodiffAdd tracker diff).2 = {(registerAll tracker diff.nodes).2 with links:=links} := by
  unfold topodiffAdd
  cases registerAll tracker diff.nodes with
  | mk err after =>
    cases err with
    | ok => exact linkAll_frame after diff.nodes diff.links
    | _ => exact ⟨after.links,rfl⟩

-- Loading puts every stored node in place of what was registered under its
-- uuid. The keys of a map are distinct, so no stored node hides another.
lemma foldl_nodes (tracker : State υ) (list : List (υ × UInt32 × List UInt8))
    (ordered : list.Pairwise fun one two => one.1 < two.1) (uuid : υ) :
    ((list.map restored).foldl insert tracker).nodes uuid =
      match KeyMap.lookup uuid list with
      | some (id,addr) => some ⟨uuid,id,addr⟩
      | none => tracker.nodes uuid := by
  induction list generalizing tracker with
  | nil => rfl
  | cons head rest ih =>
    obtain ⟨above,tail⟩ := pairwise_cons.mp ordered
    obtain ⟨first,id,addr⟩ := head
    rw [map_cons,foldl_cons,ih _ tail]
    by_cases same : first = uuid
    · have absent : KeyMap.lookup uuid rest = none := by
        cases found : KeyMap.lookup uuid rest with
        | none => rfl
        | some value =>
          have later := above _ (KeyMap.lookup_mem found)
          exact absurd same later.ne
      simp [KeyMap.lookup,same,absent,insert,restored]
    · simp [KeyMap.lookup,same,insert,restored,Ne.symm same]

lemma foldl_frame (tracker : State υ) (list : List (Node υ)) :
    (list.foldl insert tracker).uuid = tracker.uuid ∧ (list.foldl insert tracker).storage = tracker.storage := by
  induction list generalizing tracker with
  | nil => exact ⟨rfl,rfl⟩
  | cons head rest ih => exact ih (insert tracker head)

lemma foldl_unique (unique : Unique tracker) (list : List (υ × UInt32 × List UInt8))
    (numbered : ∀ one ∈ list, ∀ two ∈ list, one.2.1 = two.2.1 → one.1 = two.1)
    (apart : ∀ uuid node entry, tracker.nodes uuid = some node → entry ∈ list → node.id = entry.2.1 → uuid = entry.1) :
    Unique ((list.map restored).foldl insert tracker) := by
  induction list generalizing tracker with
  | nil => exact unique
  | cons head rest ih =>
    have placed : Unique (insert tracker (restored head)) :=
      insert_unique unique fun uuid node found same => apart uuid node head found mem_cons_self same
    apply ih placed
    · intro one first two second same
      exact numbered one (mem_cons_of_mem _ first) two (mem_cons_of_mem _ second) same
    · intro uuid node entry found member same
      simp only [insert] at found
      split at found
      · rename_i isHead
        cases found
        exact isHead.trans (numbered head mem_cons_self entry (mem_cons_of_mem _ member) same)
      · exact apart uuid node entry found (mem_cons_of_mem _ member) same

variable {listen : List UInt8}

lemma create_some (created : create uuid storage listen = some tracker) :
    tracker = (storage.entries.map restored).foldl insert
      (insert ⟨uuid,0,fun _ => none,fun _ => none,fun _ => none,storage⟩ ⟨uuid,localId,listen⟩) := by
  unfold create load nodeInit at created
  split at created
  · cases created
  · rename_i node made
    split at made
    · cases made
    · cases made
      exact (Option.some.inj created).symm

lemma create_nodes (created : create uuid storage listen = some tracker) (other : υ) :
    tracker.nodes other = match storage.find other with
      | some (id,addr) => some ⟨other,id,addr⟩
      | none => if other = uuid then some ⟨uuid,localId,listen⟩ else none := by
  rw [create_some created]
  exact foldl_nodes _ storage.entries storage.sorted other

lemma create_frame (created : create uuid storage listen = some tracker) :
    tracker.uuid = uuid ∧ tracker.storage = storage := by
  rw [create_some created]
  exact foldl_frame _ _

lemma foldl_kept (tracker : State υ) (list : List (Node υ)) :
    (list.foldl insert tracker).links = tracker.links ∧ (list.foldl insert tracker).maxId = tracker.maxId := by
  induction list generalizing tracker with
  | nil => exact ⟨rfl,rfl⟩
  | cons head rest ih => exact ih (insert tracker head)

lemma create_links (created : create uuid storage listen = some tracker) : tracker.links = fun _ => none := by
  rw [create_some created]
  exact (foldl_kept _ _).1

lemma create_maxId (created : create uuid storage listen = some tracker) : tracker.maxId = 0 := by
  rw [create_some created]
  exact (foldl_kept _ _).2

-- A storage that can be loaded: distinct numbers, and MDV_LOCAL_ID for this
-- node alone.
structure Loadable (uuid : υ) (storage : KeyMap υ (UInt32 × List UInt8)) : Prop where
  numbered : ∀ {one two id first second}, storage.find one = some (id,first) → storage.find two = some (id,second) → one = two
  own : ∀ {other id addr}, storage.find other = some (id,addr) → (other = uuid ↔ id = localId)

lemma create_sound (loadable : Loadable uuid storage) (created : create uuid storage listen = some tracker) :
    Sound tracker := by
  have nodes := create_nodes created
  obtain ⟨self,disk⟩ := create_frame created
  constructor
  · intro other node found
    rw [nodes] at found
    split at found
    · cases found
      rfl
    · split at found
      · rename_i same
        cases found
        exact same.symm
      · cases found
  · rw [self,nodes]
    split
    · rename_i id addr stored
      exact ⟨_,rfl,(loadable.own stored).mp rfl⟩
    · rw [if_pos rfl]
      exact ⟨_,rfl,rfl⟩
  · intro other node found foreign
    rw [nodes] at found
    rw [self] at foreign
    rw [disk]
    split at found
    · rename_i id addr stored
      cases found
      exact ⟨addr,stored⟩
    · rw [if_neg foreign] at found
      cases found
  · intro other id addr stored
    rw [disk] at stored
    rw [nodes,stored]
    exact ⟨_,rfl,rfl⟩

lemma create_unique (loadable : Loadable uuid storage) (created : create uuid storage listen = some tracker) :
    Unique tracker := by
  rw [create_some created]
  apply foldl_unique
  · constructor
    · intro one two first second foundOne foundTwo _
      simp only [insert] at foundOne foundTwo
      split at foundOne
      · split at foundTwo
        · rename_i isOne isTwo
          rw [isOne,isTwo]
        · cases foundTwo
      · cases foundOne
    · intro other node found
      simp only [insert] at found ⊢
      split at found
      · cases found
        exact if_pos rfl
      · cases found
  · rintro ⟨one,id,first⟩ memberOne ⟨two,same,second⟩ memberTwo rfl
    exact loadable.numbered (KeyMap.mem_entries.mp memberOne) (KeyMap.mem_entries.mp memberTwo)
  · rintro other node ⟨key,id,addr⟩ found member same
    simp only [insert] at found
    split at found
    · rename_i isSelf
      cases found
      exact isSelf.trans ((loadable.own (KeyMap.mem_entries.mp member)).mpr same.symm).symm
    · cases found

lemma Sound.loadable (sound : Sound tracker) (distinct : Distinct tracker) :
    Loadable tracker.uuid tracker.storage where
  numbered := by
    intro one two id first second storedOne storedTwo
    obtain ⟨nodeOne,foundOne,idOne⟩ := sound.loaded storedOne
    obtain ⟨nodeTwo,foundTwo,idTwo⟩ := sound.loaded storedTwo
    exact distinct foundOne foundTwo (idOne.trans idTwo.symm)
  own := by
    intro other id addr stored
    obtain ⟨node,found,numbered⟩ := sound.loaded stored
    obtain ⟨self,foundSelf,localOwn⟩ := sound.own
    constructor
    · intro same
      rw [same,foundSelf] at found
      cases found
      exact numbered.symm.trans localOwn
    · intro isLocal
      exact distinct found foundSelf (by rw [numbered,isLocal,localOwn])

def FreshIds (tracker : State υ) : Action υ → Prop
  | .register uuid addr => FreshId tracker uuid addr
  | .topodiffAdd diff => FreshAll tracker diff.nodes
  | .restart _ => True

lemma step_sound (sound : Sound tracker) (unique : Unique tracker)
    (moved : step tracker action = some after) : Sound after := by
  cases action with
  | register uuid addr =>
    cases moved
    exact register_sound sound uuid addr
  | topodiffAdd diff =>
    cases moved
    obtain ⟨links,shape⟩ := topodiffAdd_frame tracker diff
    have all := registerAll_sound sound diff.nodes
    rw [shape]
    exact ⟨all.keyed,all.own,all.persisted,all.loaded⟩
  | restart listen => exact create_sound (sound.loadable unique.distinct) moved

lemma step_unique_iff (sound : Sound tracker) (unique : Unique tracker)
    (moved : step tracker action = some after) : Unique after ↔ FreshIds tracker action := by
  cases action with
  | register uuid addr =>
    cases moved
    exact ⟨fun final => register_distinct_fresh final.distinct,fun fresh => register_unique unique fresh⟩
  | topodiffAdd diff =>
    cases moved
    obtain ⟨links,shape⟩ := topodiffAdd_frame tracker diff
    rw [shape,FreshIds,← registerAll_unique_iff unique]
    exact ⟨fun final => ⟨final.distinct,final.lookup⟩,fun final => ⟨final.distinct,final.lookup⟩⟩
  | restart listen => exact iff_of_true (create_unique (sound.loadable unique.distinct) moved) trivial

lemma run_append (uuid : υ) (listen : List UInt8) (actions : List (Action υ)) (action : Action υ) :
    run uuid listen (actions ++ [action]) = (run uuid listen actions).bind fun tracker => step tracker action := by
  unfold run
  cases create uuid .empty listen with
  | none => rfl
  | some tracker => simp [List.foldlM_append]

lemma loadable_empty (uuid : υ) : Loadable uuid (.empty : KeyMap υ (UInt32 × List UInt8)) where
  numbered := by intro one two id first second stored; cases stored
  own := by intro other id addr stored; cases stored

lemma run_start (ran : run uuid listen [] = some tracker) : Sound tracker ∧ Unique tracker := by
  have created : create uuid .empty listen = some tracker := by simpa [run] using ran
  exact ⟨create_sound (loadable_empty uuid) created,create_unique (loadable_empty uuid) created⟩

lemma run_sound (unique : ∀ front back tracker, actions = front ++ back → run uuid listen front = some tracker → Unique tracker)
    (front back : List (Action υ)) (tracker : State υ) (shape : actions = front ++ back)
    (ran : run uuid listen front = some tracker) : Sound tracker := by
  induction front using reverseRecOn generalizing back tracker with
  | nil => exact (run_start ran).1
  | append_singleton front action ih =>
    have whole : actions = front ++ action::back := by simp [shape]
    rw [run_append] at ran
    obtain ⟨middle,before,moved⟩ := bind_eq_some_iff.mp ran
    exact step_sound (ih (action::back) middle whole before) (unique front (action::back) middle whole before) moved

lemma run_unique (fresh : ∀ front action back tracker, actions = front ++ action::back → run uuid listen front = some tracker →
      (step tracker action).isSome → FreshIds tracker action)
    (front back : List (Action υ)) (tracker : State υ) (shape : actions = front ++ back)
    (ran : run uuid listen front = some tracker) : Sound tracker ∧ Unique tracker := by
  induction front using reverseRecOn generalizing back tracker with
  | nil => exact run_start ran
  | append_singleton front action ih =>
    have whole : actions = front ++ action::back := by simp [shape]
    rw [run_append] at ran
    obtain ⟨middle,before,moved⟩ := bind_eq_some_iff.mp ran
    obtain ⟨sound,unique⟩ := ih (action::back) middle whole before
    have met := fresh front action back middle whole before (by simp [moved])
    exact ⟨step_sound sound unique moved,(step_unique_iff sound unique moved).mpr met⟩

theorem ids_unique_iff (uuid : υ) (listen : List UInt8) (actions : List (Action υ)) :
    (∀ front back tracker, actions = front ++ back → run uuid listen front = some tracker → Unique tracker) ↔
      ∀ front action back tracker, actions = front ++ action::back → run uuid listen front = some tracker →
        (step tracker action).isSome → FreshIds tracker action := by
  constructor
  · intro unique front action back tracker shape ran moves
    obtain ⟨after,moved⟩ := isSome_iff_exists.mp moves
    have sound := run_sound unique front (action::back) tracker shape ran
    have before := unique front (action::back) tracker shape ran
    have ranOn : run uuid listen (front ++ [action]) = some after := by
      rw [run_append,ran]
      exact moved
    exact (step_unique_iff sound before moved).mp (unique (front ++ [action]) back after (by simp [shape]) ranOn)
  · intro fresh front back tracker shape ran
    exact (run_unique fresh front back tracker shape ran).2

-- Node 7 registers node 1, restarts and registers node 2: the counter begins
-- again at zero and node 2 gets the number of node 1.
def afterRestart : List (Action Nat) := [.register 1 [49],.restart [55],.register 2 [50]]

theorem restart_reuses_number :
    (run 7 [55] afterRestart).map (fun tracker =>
      ((tracker.nodes 1).map fun node => node.id,(tracker.nodes 2).map fun node => node.id,
        (tracker.ids 1).map fun node => node.uuid)) = some (some 1,some 1,some 2) := by decide

end MedvedDB.Tracker
