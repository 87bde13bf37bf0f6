import MedvedDB.TopologyEvents

namespace MedvedDB.TopologySnapshot

open Tracker LinkStates TrackerView

structure Snapshot (υ : Type) where
  nodes : υ → Option (Node υ)
  links : UInt32 × UInt32 → Option UInt32

-- A thread between two mutex sections. One updates the tracker; it may have found the
-- numbers of a link that it has not stored yet. Another one has collected the nodes.
inductive Job (υ : Type) where
  | updating (tasks : List (TopologyEvents.Task υ))
  | linking (link : υ × υ) (key : UInt32 × UInt32) (connected : Bool) (weight : UInt32) (tasks : List (TopologyEvents.Task υ))
  | collecting (nodes : υ → Option (Node υ))

inductive Call (υ : Type) where
  | update (tasks : List (TopologyEvents.Task υ))
  | topology

variable {υ : Type}

def Has (nodes : υ → Option (Node υ)) (id : UInt32) : Prop := ∃ uuid node, nodes uuid = some node ∧ node.id = id

def Covers (nodes : υ → Option (Node υ)) (links : UInt32 × UInt32 → Option UInt32) : Prop :=
  ∀ key, (links key).isSome → Has nodes key.1 ∧ Has nodes key.2

lemma has_ends {nodes : υ → Option (Node υ)} (isOne : nodes one = some first) (isTwo : nodes two = some second) :
    Has nodes (linkKey (first.id,second.id)).1 ∧ Has nodes (linkKey (first.id,second.id)).2 := by
  have left : Has nodes first.id := ⟨one,first,isOne,rfl⟩
  have right : Has nodes second.id := ⟨two,second,isTwo,rfl⟩
  rcases linkKey_cases first.id second.id with same | same
  · rw [same]
    exact ⟨left,right⟩
  · rw [same]
    exact ⟨right,left⟩

variable [LinearOrder υ]

structure Shared (υ : Type) [LinearOrder υ] where
  tracker : State υ
  collected : List (Snapshot υ)

def enter (shared : Shared υ) : Call υ → Option (Option (Job υ) × Shared υ)
  | .update tasks => some (some (.updating tasks),shared)
  | .topology => some (some (.collecting shared.tracker.nodes),shared)

-- An operation that fails ends its thread.
def perform (shared : Shared υ) (tasks : List (TopologyEvents.Task υ)) : TopologyEvents.Task υ → Option (Job υ) × Shared υ
  | .register uuid addr =>
    let (err,tracker) := register shared.tracker uuid addr
    (if err = .ok then some (.updating tasks) else none,{shared with tracker:=tracker})
  | .link (some one) (some two) connected weight => ((keyOf shared.tracker (one,two)).map fun key => .linking (one,two) key connected weight tasks,shared)
  | .link _ _ _ _ => (none,shared)

def proceed (shared : Shared υ) : Job υ → Option (Job υ) × Shared υ
  | .updating [] => (none,shared)
  | .updating (task::tasks) => perform shared tasks task
  | .linking _ key connected weight tasks =>
    (some (.updating tasks),{shared with tracker:=relink shared.tracker key (if connected then some weight else none)})
  | .collecting nodes => (none,{shared with collected:=⟨nodes,shared.tracker.links⟩::shared.collected})

def system : Threads.System (Shared υ) (Job υ) (Call υ) Unit := ⟨enter,fun shared job _ => some (proceed shared job)⟩

def start (tracker : State υ) : Threads.Pool (Shared υ) (Job υ) := ⟨⟨tracker,[]⟩,[]⟩

def Closed (shared : Shared υ) : Prop := ∀ snapshot ∈ shared.collected, Covers snapshot.nodes snapshot.links

def coveredBy (link : υ × υ) : Job υ → Bool
  | .collecting nodes => (nodes link.1).isSome && (nodes link.2).isSome
  | _ => true

def covered (pool : Threads.Pool (Shared υ) (Job υ)) : Threads.Action (Call υ) Unit → Bool
  | .proceed index _ =>
    match pool.threads[index]? with
    | some (.linking link _ true _ _) => pool.threads.all (coveredBy link)
    | _ => true
  | .enter _ => true

section Numbers

variable {tracker : State υ} {nodes : υ → Option (Node υ)}

def Older (nodes : υ → Option (Node υ)) (tracker : State υ) : Prop :=
  ∀ uuid node, nodes uuid = some node → ∃ kept, tracker.nodes uuid = some kept ∧ kept.id = node.id

lemma Older.register (older : Older nodes tracker) (uuid : υ) (addr : List UInt8) : Older nodes (register tracker uuid addr).2 := by
  intro other node found
  obtain ⟨kept,now,same⟩ := older other node found
  obtain ⟨again,later,equal⟩ := register_keeps now uuid addr
  exact ⟨again,later,equal.trans same⟩

lemma has_key (sound : Sound tracker) (older : Older nodes tracker) (keyed : keyOf tracker link = some key)
    (one : (nodes link.1).isSome) (two : (nodes link.2).isSome) : Has nodes key.1 ∧ Has nodes key.2 := by
  obtain ⟨first,second,isOne,isTwo,rfl⟩ := (keyOf_some sound).mp keyed
  obtain ⟨left,foundLeft⟩ := isSome_iff_exists.mp one
  obtain ⟨right,foundRight⟩ := isSome_iff_exists.mp two
  obtain ⟨kept,now,same⟩ := older link.1 left foundLeft
  obtain ⟨other,later,equal⟩ := older link.2 right foundRight
  rw [isOne] at now
  rw [isTwo] at later
  cases now
  cases later
  rw [same,equal]
  exact has_ends foundLeft foundRight

lemma covers_relink (covers : Covers nodes tracker.links) (ends : Has nodes key.1 ∧ Has nodes key.2)
    (value : Option UInt32) : Covers nodes (relink tracker key value).links := by
  intro other held
  by_cases same : other = key
  · rw [same]
    exact ends
  · rw [relink_other same] at held
    exact covers other held

lemma covers_unlink (covers : Covers nodes tracker.links) : Covers nodes (relink tracker key none).links := by
  intro other held
  by_cases same : other = key
  · rw [same,relink_self] at held
    cases held
  · rw [relink_other same] at held
    exact covers other held

end Numbers

def Relies (tracker : State υ) : Job υ → Prop
  | .updating _ => True
  | .linking link key _ _ _ => keyOf tracker link = some key
  | .collecting nodes => Older nodes tracker ∧ Covers nodes tracker.links

structure Orderly (pool : Threads.Pool (Shared υ) (Job υ)) : Prop where
  sound : Sound pool.shared.tracker
  stored : Covers pool.shared.tracker.nodes pool.shared.tracker.links
  relies : ∀ job ∈ pool.threads, Relies pool.shared.tracker job
  closed : Closed pool.shared

lemma start_orderly {uuid : υ} {storage : KeyMap υ (UInt32 × List UInt8)} {listen : List UInt8} {tracker : State υ} (loadable : Loadable uuid storage)
    (created : create uuid storage listen = some tracker) : Orderly (start tracker) where
  sound := create_sound loadable created
  stored := by
    intro key held
    change (tracker.links key).isSome at held
    rw [create_links created] at held
    cases held
  relies := fun _ member => absurd member not_mem_nil
  closed := fun _ member => absurd member not_mem_nil

section Steps

variable {tracker : State υ} {job : Job υ}

lemma older_self (tracker : State υ) : Older tracker.nodes tracker := fun _ node found => ⟨node,found,rfl⟩

variable {shared : Shared υ} {nodes : υ → Option (Node υ)}

lemma Covers.older {links : UInt32 × UInt32 → Option UInt32} (covers : Covers nodes links) (older : Older nodes tracker) :
    Covers tracker.nodes links := by
  have kept {id : UInt32} (has : Has nodes id) : Has tracker.nodes id := by
    obtain ⟨uuid,node,found,same⟩ := has
    obtain ⟨now,later,equal⟩ := older uuid node found
    exact ⟨uuid,now,later,equal.trans same⟩
  intro key held
  exact ⟨kept (covers key held).1,kept (covers key held).2⟩

lemma Relies.register (relies : Relies tracker job) (sound : Sound tracker) (uuid : υ) (addr : List UInt8) : Relies (register tracker uuid addr).2 job := by
  cases job with
  | updating tasks => trivial
  | linking link key connected weight tasks => exact keyOf_register sound relies uuid addr
  | collecting nodes =>
    refine ⟨relies.1.register uuid addr,?_⟩
    rw [register_links]
    exact relies.2

lemma Relies.relink (relies : Relies tracker job) (sound : Sound tracker) (keyed : keyOf tracker link = some key)
    (seen : connected = true → coveredBy link job = true) (weight : UInt32) :
    Relies (relink tracker key (if connected then some weight else none)) job := by
  cases job with
  | updating tasks => trivial
  | linking other mine connected weight tasks => exact ((relink_renewed tracker key _).keyOf other).trans relies
  | collecting nodes =>
    refine ⟨relies.1,?_⟩
    cases connected with
    | false => exact covers_unlink relies.2
    | true =>
      have both := seen rfl
      rw [coveredBy,and_eq_true] at both
      exact covers_relink relies.2 (has_key sound relies.1 keyed both.1 both.2) _

lemma Orderly.register (orderly : Orderly ⟨shared,threads⟩) (uuid : υ) (addr : List UInt8) :
    Orderly ⟨{shared with tracker:=(register shared.tracker uuid addr).2},threads⟩ where
  sound := register_sound orderly.sound uuid addr
  stored := by
    change Covers _ (Tracker.register shared.tracker uuid addr).2.links
    rw [register_links]
    exact orderly.stored.older ((older_self shared.tracker).register uuid addr)
  relies := fun job member => (orderly.relies job member).register orderly.sound uuid addr
  closed := orderly.closed

lemma Orderly.relink {threads : List (Job υ)} (orderly : Orderly ⟨shared,threads⟩) {link : υ × υ} {key : UInt32 × UInt32}
    (keyed : keyOf shared.tracker link = some key) {connected : Bool} (seen : connected = true → ∀ job ∈ threads, coveredBy link job = true) (weight : UInt32) :
    Orderly ⟨{shared with tracker:=relink shared.tracker key (if connected then some weight else none)},threads⟩ where
  sound := ⟨orderly.sound.keyed,orderly.sound.own,orderly.sound.persisted,orderly.sound.loaded⟩
  stored := by
    obtain ⟨first,second,isOne,isTwo,same⟩ := (keyOf_some orderly.sound).mp keyed
    exact covers_relink orderly.stored (same ▸ has_ends isOne isTwo) _
  relies := fun job member => (orderly.relies job member).relink orderly.sound keyed (fun yes => seen yes job member) weight
  closed := orderly.closed

lemma Orderly.collect (orderly : Orderly ⟨shared,threads⟩)
    (covers : Covers nodes shared.tracker.links) : Orderly ⟨{shared with collected:=⟨nodes,shared.tracker.links⟩::shared.collected},threads⟩ where
  sound := orderly.sound
  stored := orderly.stored
  relies := orderly.relies
  closed := by
    intro snapshot member
    rcases mem_cons.mp member with rfl | before
    · exact covers
    · exact orderly.closed snapshot before

lemma Orderly.threads {one two : List (Job υ)} (orderly : Orderly ⟨shared,one⟩) (known : ∀ job ∈ two, job ∈ one ∨ Relies shared.tracker job) :
    Orderly ⟨shared,two⟩ where
  sound := orderly.sound
  stored := orderly.stored
  relies := fun job member => (known job member).elim (orderly.relies job) id
  closed := orderly.closed

lemma proceed_orderly {threads : List (Job υ)} (orderly : Orderly ⟨shared,threads⟩) (member : job ∈ threads)
    (seen : ∀ link key weight tasks, job = .linking link key true weight tasks → ∀ other ∈ threads, coveredBy link other = true) :
    Orderly ⟨(proceed shared job).2,threads⟩ ∧ ∀ new, (proceed shared job).1 = some new → Relies (proceed shared job).2.tracker new := by
  have relies := orderly.relies job member
  cases job with
  | updating tasks =>
    cases tasks with
    | nil => exact ⟨orderly,fun _ made => nomatch made⟩
    | cons task tasks =>
      cases task with
      | register uuid addr =>
        refine ⟨orderly.register uuid addr,?_⟩
        intro new made
        simp only [proceed,perform] at made
        split at made
        · cases made
          trivial
        · cases made
      | link one two connected weight =>
        cases one with
        | none => exact ⟨orderly,fun _ made => nomatch made⟩
        | some one =>
          cases two with
          | none => exact ⟨orderly,fun _ made => nomatch made⟩
          | some two =>
            refine ⟨orderly,?_⟩
            intro new made
            obtain ⟨key,keyed,rfl⟩ := map_eq_some_iff.mp made
            exact keyed
  | linking link key connected weight tasks =>
    refine ⟨orderly.relink relies (fun yes => seen link key weight tasks (by rw [yes])) weight,?_⟩
    intro new made
    cases made
    trivial
  | collecting nodes => exact ⟨orderly.collect relies.2,fun _ made => nomatch made⟩

lemma enter_relies {after : Shared υ} {threads : List (Job υ)} {call : Call υ} {new : Option (Job υ)} (orderly : Orderly ⟨shared,threads⟩)
    (entered : enter shared call = some (new,after)) : shared = after ∧ ∀ job, new = some job → Relies shared.tracker job := by
  cases call with
  | update tasks =>
    cases entered
    refine ⟨rfl,fun job same => ?_⟩
    cases same
    trivial
  | topology =>
    cases entered
    refine ⟨rfl,fun job same => ?_⟩
    cases same
    exact ⟨older_self _,orderly.stored⟩

lemma step_orderly {pool next : Threads.Pool (Shared υ) (Job υ)} {action : Threads.Action (Call υ) Unit} (orderly : Orderly pool)
    (moved : Machine.only covered (Threads.step system) pool action = some next) : Orderly next := by
  obtain ⟨accepted,went⟩ := Machine.only_some moved
  obtain ⟨shared,jobs⟩ := pool
  obtain ⟨after,left⟩ := next
  rcases Threads.step_cases went with ⟨call,thread,rfl,entered,threads⟩ | ⟨index,choice,job,new,others,rfl,found,before,went,threads⟩
  · obtain ⟨rfl,relies⟩ := enter_relies orderly entered
    refine orderly.threads fun job member => ?_
    rcases mem_append.mp (threads.mem_iff.mp member) with fresh | old
    · exact .inr (relies job (mem_toList.mp fresh))
    · exact .inl old
  · have made : proceed shared job = (new,after) := Option.some.inj went
    have seen : ∀ link key weight tasks, job = .linking link key true weight tasks → ∀ other ∈ jobs, coveredBy link other = true := by
      rintro link key weight tasks rfl
      simp only [covered,found] at accepted
      exact all_eq_true.mp accepted
    obtain ⟨kept,relies⟩ := proceed_orderly orderly (Threads.mem_of_first before) seen
    rw [made] at kept relies
    refine kept.threads fun other member => ?_
    rcases mem_append.mp (threads.mem_iff.mp member) with fresh | old
    · exact .inr (relies other (mem_toList.mp fresh))
    · exact .inl (Threads.mem_of_rest before old)

end Steps

-- As long as no link is stored between the two steps of a topology call whose nodes lack
-- one of its ends, every collected link has both.
theorem snapshot_closed {uuid : υ} {storage : KeyMap υ (UInt32 × List UInt8)} {listen : List UInt8} {tracker : State υ} {pool : Threads.Pool (Shared υ) (Job υ)}
    (loadable : Loadable uuid storage) (created : create uuid storage listen = some tracker)
    (reached : Machine.Reached (Machine.only covered (Threads.step system)) (start tracker) pool) : Closed pool.shared := by
  have orderly : Orderly pool := Machine.reached_invariant (start_orderly loadable created) (fun _ _ _ holds moved => step_orderly holds moved) reached
  exact orderly.closed

-- The node 7 is alone; the node 1 is registered and linked before the links are
-- collected, in the first run before the nodes are, in the second after.
def linkOne : List (TopologyEvents.Task Nat) := [.register 1 [49],.link (some 7) (some 1) true 1]

def wholeUpdate : List (Threads.Action (Call Nat) Unit) :=
  [.enter (.update linkOne),.proceed 0 (),.proceed 0 (),.proceed 0 (),.enter .topology,.proceed 1 ()]

theorem update_collected :
    ∃ tracker pool, create 7 .empty [55] = some tracker ∧ Machine.Reached (Machine.only covered (Threads.step system)) (start tracker) pool ∧
      pool.shared.collected ≠ [] ∧ Closed pool.shared := by
  have ran : ∃ tracker pool, create 7 .empty [55] = some tracker ∧
      wholeUpdate.foldlM (Machine.only covered (Threads.step system)) (start tracker) = some pool ∧ pool.shared.collected ≠ [] :=
    ⟨_,_,rfl,rfl,cons_ne_nil _ _⟩
  obtain ⟨tracker,pool,created,went,collected⟩ := ran
  exact ⟨tracker,pool,created,⟨wholeUpdate,went⟩,collected,snapshot_closed (loadable_empty 7) created ⟨wholeUpdate,went⟩⟩

def splitCall : List (Threads.Action (Call Nat) Unit) :=
  [.enter .topology,.enter (.update linkOne),.proceed 1 (),.proceed 1 (),.proceed 1 (),.proceed 0 ()]

theorem link_without_node :
    ∃ tracker pool snapshot, create 7 .empty [55] = some tracker ∧ Machine.Reached (Threads.step system) (start tracker) pool ∧
      snapshot ∈ pool.shared.collected ∧ snapshot.links (0,1) = some 1 ∧ ¬ Has snapshot.nodes 1 := by
  refine ⟨_,_,_,rfl,⟨splitCall,rfl⟩,mem_cons_self,by decide,?_⟩
  rintro ⟨uuid,node,found,same⟩
  change (if uuid = 7 then some (⟨7,0,[55]⟩ : Node Nat) else none) = some node at found
  split at found
  · cases found
    exact absurd same (by decide)
  · cases found

end MedvedDB.TopologySnapshot
