import MedvedDB.Machine
import MedvedDB.RingQueue

open MedvedDB.RingQueue
namespace MedvedDB.Queuefd

-- A pusher that has not written the event yet holds wmutex, a popper that has read it
-- holds rmutex. Beside the queue stand what was pushed, and what every pop that read
-- the event got.
structure State (itemSize : Nat) where
  queue : Queue
  event : Nat := 0
  pushing : Bool := false
  popping : Bool := false
  pushed : List (Item itemSize) := []
  popped : List (Option (List UInt8)) := []

inductive Action (itemSize : Nat) where
  | push (item : Item itemSize)
  | write
  | read
  | pop

def step (state : State itemSize) : Action itemSize → Option (State itemSize)
  | .push item =>
    if state.pushing then none
    else match pushOne state.queue item.bytes with
      | (true,queue) => some {state with queue,pushing:=true,pushed:=state.pushed ++ [item]}
      | (false,queue) => some {state with queue}
  | .write => if state.pushing then some {state with event:=state.event + 1,pushing:=false} else none
  | .read =>
    if state.popping then none
    else if state.event = 0 then some state
    else some {state with event:=state.event - 1,popping:=true}
  | .pop =>
    if state.popping then
      let (item,queue) := popOne state.queue itemSize
      some {state with queue,popping:=false,popped:=state.popped ++ [item]}
    else none

def start (capacity itemSize : Nat) (data : Memory) : State itemSize := {queue:=clear capacity itemSize data}

-- An item in the queue is counted by the event, or one of the two in progress has it.
structure InStep (state : State itemSize) (held : List (Item itemSize)) : Prop where
  holds : Holds state.queue held
  counted : held.length = state.event + state.pushing.toNat + state.popping.toNat
  order : state.popped ++ held.map (some ·.bytes) = state.pushed.map (some ·.bytes)

def Counted (state : State itemSize) : Prop := ∃ held, InStep state held

lemma step_counted (before : Counted state) (moved : step state action = some next) : Counted next := by
  obtain ⟨held,holds,counted,order⟩ := before
  cases action with
  | push item =>
    simp only [step] at moved
    split at moved
    · cases moved
    rename_i free
    rw [holds.pushOne_eq] at moved
    by_cases fits : held.length + 1 ≤ state.queue.capacity
    · rw [if_pos fits] at moved
      cases moved
      have copied : Copied _ _ _ _ [item] := copied_once state.queue.data holds.tail_lt
      refine ⟨held ++ [item],holds.pushed copied fits,?_,?_⟩
      · rw [eq_false_iff.mpr free] at counted
        simp only [length_append,length_singleton,counted,Bool.toNat_false,Bool.toNat_true]
        omega
      · rw [map_append,map_append,← order,append_assoc]
    · rw [if_neg fits] at moved
      cases moved
      exact ⟨held,holds,counted,order⟩
  | write =>
    simp only [step] at moved
    split at moved
    · rename_i inside
      cases moved
      rw [inside] at counted
      exact ⟨held,holds,counted,order⟩
    · cases moved
  | read =>
    simp only [step] at moved
    split at moved
    · cases moved
    rename_i free
    rw [eq_false_iff.mpr free] at counted
    split at moved
    · cases moved
      exact ⟨held,holds,by rw [eq_false_iff.mpr free]; exact counted,order⟩
    · cases moved
      exact ⟨held,holds,counted.trans (by simp only [Bool.toNat_false,Bool.toNat_true]; omega),order⟩
  | pop =>
    simp only [step] at moved
    split at moved
    · rename_i inside
      rw [inside] at counted
      cases held with
      | nil => simp at counted
      | cons item rest =>
        rw [holds.popOne_eq,if_pos (by rw [length_cons]; omega)] at moved
        cases moved
        have fewer : 1 ≤ (item::rest).length := succ_pos _
        refine ⟨rest,holds.popped fewer,?_,?_⟩
        · simp only [length_cons,Bool.toNat_true,Bool.toNat_false] at counted ⊢
          omega
        · rw [← order,append_assoc]
          simp [bytesOf]
    · cases moved

theorem event_counts_items (reached : Machine.Reached step (start capacity itemSize data) state) :
    (state.pushing = false → state.popping = false → state.event = size state.queue) ∧
      (∀ item ∈ state.popped, item.isSome) ∧ state.popped <+: state.pushed.map (some ·.bytes) := by
  have base : Counted (start capacity itemSize data) := ⟨[],clear_holds _ _ _,rfl,rfl⟩
  obtain ⟨held,holds,counted,order⟩ := Machine.reached_invariant base (fun _ _ _ => step_counted) reached
  have inOrder : state.popped <+: state.pushed.map (some ·.bytes) := ⟨_,order⟩
  refine ⟨fun noPusher noPopper => ?_,fun item member => ?_,inOrder⟩
  · rw [holds.size_eq,counted,noPusher,noPopper]
    rfl
  · obtain ⟨pushed,_,rfl⟩ := mem_map.mp (inOrder.mem member)
    rfl

theorem pushed_and_popped : ∃ state : State 1, Machine.Reached step (start 2 1 fun _ => 0) state ∧ state.popped = [some [7]] ∧
    state.event = size state.queue := by
  have reached : Machine.Reached step (start 2 1 fun _ => 0) _ := ⟨[.push ⟨[7],rfl⟩,.read,.write,.push ⟨[8],rfl⟩,.read,.write,.pop],rfl⟩
  exact ⟨_,reached,rfl,(event_counts_items reached).1 rfl rfl⟩

end MedvedDB.Queuefd
