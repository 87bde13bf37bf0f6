import MedvedDB.Memory

namespace MedvedDB.RingQueue

-- mdv_queue_base. The ring has one slot more than its capacity.
structure Queue where
  capacity : Nat
  itemSize : Nat
  head : Nat
  tail : Nat
  data : Memory

-- The memory of the queue may hold anything.
def clear (capacity itemSize : Nat) (data : Memory) : Queue := ⟨capacity,itemSize,0,0,data⟩

def size (queue : Queue) : Nat := if queue.head ≤ queue.tail then queue.tail - queue.head else queue.capacity + 1 + queue.tail - queue.head

def freeSpace (queue : Queue) : Nat := queue.capacity - size queue

def pushOne (queue : Queue) (data : List UInt8) : Bool × Queue :=
  if data.length ≠ queue.itemSize then (false,queue)
  else if freeSpace queue = 0 then (false,queue)
  else (true,{queue with data:=queue.data.write (queue.tail * queue.itemSize) data,tail:=(queue.tail + 1) % (queue.capacity + 1)})

def pushMultiple (queue : Queue) (data : List UInt8) : Bool × Queue :=
  let count := data.length / queue.itemSize
  let ring := queue.capacity + 1
  let start := queue.tail * queue.itemSize
  let pushed (memory : Memory) : Bool × Queue := (true,{queue with data:=memory,tail:=(queue.tail + count) % ring})
  if data.length ≠ count * queue.itemSize then (false,queue)
  else if queue.head ≤ queue.tail then
    if queue.capacity - (queue.tail - queue.head) < count then (false,queue)
    else if count ≤ ring - queue.tail then pushed (queue.data.write start data)
    else
      let firstBlock := (ring - queue.tail) * queue.itemSize
      pushed ((queue.data.write start (data.take firstBlock)).write 0 (data.drop firstBlock))
  else if queue.capacity - (ring + queue.tail - queue.head) < count then (false,queue)
  else pushed (queue.data.write start data)

def popOne (queue : Queue) (bytes : Nat) : Option (List UInt8) × Queue :=
  if bytes ≠ queue.itemSize then (none,queue)
  else if size queue = 0 then (none,queue)
  else (some (queue.data.read (queue.head * queue.itemSize) bytes),{queue with head:=(queue.head + 1) % (queue.capacity + 1)})

def popMultiple (queue : Queue) (bytes : Nat) : Option (List UInt8) × Queue :=
  let count := bytes / queue.itemSize
  let ring := queue.capacity + 1
  let start := queue.head * queue.itemSize
  let popped (data : List UInt8) : Option (List UInt8) × Queue := (some data,{queue with head:=(queue.head + count) % ring})
  if bytes ≠ count * queue.itemSize then (none,queue)
  else if queue.head ≤ queue.tail then
    if queue.tail - queue.head < count then (none,queue)
    else popped (queue.data.read start bytes)
  else if ring + queue.tail - queue.head < count then (none,queue)
  else if count ≤ ring - queue.head then popped (queue.data.read start bytes)
  else
    let firstBlock := (ring - queue.head) * queue.itemSize
    popped (queue.data.read start firstBlock ++ queue.data.read 0 (bytes - firstBlock))

structure Item (itemSize : Nat) where
  bytes : List UInt8
  length : bytes.length = itemSize

inductive Op (itemSize : Nat) where
  | pushOne (item : Item itemSize)
  | push (items : List (Item itemSize))
  | popOne
  | pop (count : Nat)

inductive Outcome where
  | failed
  | pushed
  | popped (data : List UInt8)
  deriving DecidableEq, Repr

def pushOutcome (result : Bool × Queue) : Outcome × Queue := (if result.1 then .pushed else .failed,result.2)

def popOutcome (result : Option (List UInt8) × Queue) : Outcome × Queue :=
  (match result.1 with
    | none => .failed
    | some data => .popped data,result.2)

variable {itemSize : Nat}

def bytesOf (items : List (Item itemSize)) : List UInt8 := items.flatMap Item.bytes

def exec (queue : Queue) : Op itemSize → Outcome × Queue
  | .pushOne item => pushOutcome (RingQueue.pushOne queue item.bytes)
  | .push items => pushOutcome (pushMultiple queue (bytesOf items))
  | .popOne => popOutcome (RingQueue.popOne queue itemSize)
  | .pop count => popOutcome (popMultiple queue (count * itemSize))

-- A bounded FIFO: its items, the oldest one first.
def Fifo.push (capacity : Nat) (held items : List (Item itemSize)) : Outcome × List (Item itemSize) :=
  if held.length + items.length ≤ capacity then (.pushed,held ++ items) else (.failed,held)

def Fifo.pop (held : List (Item itemSize)) (count : Nat) : Outcome × List (Item itemSize) :=
  if count ≤ held.length then (.popped (bytesOf (held.take count)),held.drop count) else (.failed,held)

def Fifo.exec (capacity : Nat) (held : List (Item itemSize)) : Op itemSize → Outcome × List (Item itemSize)
  | .pushOne item => push capacity held [item]
  | .push items => push capacity held items
  | .popOne => pop held 1
  | .pop count => pop held count

def run (queue : Queue) : List (Op itemSize) → List Outcome × Queue
  | [] => ([],queue)
  | op::ops => ((exec queue op).1::(run (exec queue op).2 ops).1,(run (exec queue op).2 ops).2)

def Fifo.run (capacity : Nat) (held : List (Item itemSize)) : List (Op itemSize) → List Outcome × List (Item itemSize)
  | [] => ([],held)
  | op::ops => ((exec capacity held op).1::(run capacity (exec capacity held op).2 ops).1,(run capacity (exec capacity held op).2 ops).2)

def place (ring start offset : Nat) : Nat := if start + offset < ring then start + offset else start + offset - ring

section Places

variable {ring start one two : Nat}

lemma place_eq_mod (inside : start < ring) (within : offset ≤ ring) : (start + offset) % ring = place ring start offset := by
  unfold place
  split
  · exact mod_eq_of_lt ‹_›
  · rw [Nat.mod_eq_sub_mod (by omega)]
    exact mod_eq_of_lt (by omega)

lemma place_lt (inside : start < ring) (within : offset ≤ ring) : place ring start offset < ring := by
  unfold place
  split <;> omega

lemma place_ne (apart : one ≠ two) (first : one < ring) (second : two < ring) : place ring start one ≠ place ring start two := by
  unfold place
  split <;> split <;> omega

lemma place_place (inside : start < ring) (within : one + two ≤ ring) : place ring (place ring start one) two = place ring start (one + two) := by
  unfold place
  split <;> split <;> split <;> omega

end Places

def slotBytes (itemSize : Nat) (data : Memory) (slot : Nat) : List UInt8 := data.read (slot * itemSize) itemSize

section Slots

variable {data : Memory}

lemma bytesOf_length (items : List (Item itemSize)) : (bytesOf items).length = items.length * itemSize := by
  induction items with
  | nil => simp [bytesOf]
  | cons item rest ih =>
    rw [bytesOf] at ih ⊢
    rw [flatMap_cons,length_append,ih,item.length,length_cons,succ_mul,Nat.add_comm]

variable {start slot : Nat} {items : List (Item itemSize)}

lemma slot_written (low : start ≤ slot) (high : slot - start < items.length) :
    slotBytes itemSize (data.write (start * itemSize) (bytesOf items)) slot = items[slot - start].bytes := by
  have stands : Memory.At (data.write (start * itemSize) (bytesOf items)) (start * itemSize) (bytesOf items) := Memory.read_write_same _ _ _
  have parts : items = items.take (slot - start) ++ items[slot - start]::items.drop (slot - start + 1) := by
    rw [List.getElem_cons_drop,take_append_drop]
  have length : (bytesOf (items.take (slot - start))).length = (slot - start) * itemSize := by
    rw [bytesOf_length,length_take_of_le (Nat.le_of_lt high)]
  have split : bytesOf items = bytesOf (items.take (slot - start)) ++ (items[slot - start].bytes ++ bytesOf (items.drop (slot - start + 1))) := by
    conv_lhs => rw [parts]
    rw [bytesOf,flatMap_append,flatMap_cons]
    rfl
  generalize data.write (start * itemSize) (bytesOf items) = memory at stands ⊢
  rw [split] at stands
  have here := (Memory.at_append.mp (Memory.at_append.mp stands).2).1
  rw [length,← Nat.add_mul,Nat.add_sub_cancel' low,Memory.At,items[slot - start].length] at here
  exact here

lemma slot_apart (apart : slot < start ∨ start + items.length ≤ slot) :
    slotBytes itemSize (data.write (start * itemSize) (bytesOf items)) slot = slotBytes itemSize data slot := by
  apply Memory.read_write_apart
  rw [bytesOf_length,← Nat.add_mul,← succ_mul]
  exact apart.imp (fun below => Nat.mul_le_mul_right itemSize below) (fun above => Nat.mul_le_mul_right itemSize above)

lemma read_slots (data : Memory) (start count : Nat) :
    data.read (start * itemSize) (count * itemSize) = (List.range count).flatMap fun offset => slotBytes itemSize data (start + offset) := by
  induction count with
  | zero => simp [Memory.read]
  | succ count ih =>
    rw [succ_mul,Memory.read_add,ih,range_succ,flatMap_append,flatMap_singleton,← Nat.add_mul]
    rfl

end Slots

structure Copied (ring tail : Nat) (data memory : Memory) (items : List (Item itemSize)) : Prop where
  inside : ∀ offset (within : offset < items.length), slotBytes itemSize memory (place ring tail offset) = items[offset].bytes
  outside : ∀ slot, (∀ offset < items.length, place ring tail offset ≠ slot) → slotBytes itemSize memory slot = slotBytes itemSize data slot

section Copies

variable {ring tail : Nat} {items : List (Item itemSize)}

lemma copied_once (data : Memory) (fits : tail + items.length ≤ ring) :
    Copied ring tail data (data.write (tail * itemSize) (bytesOf items)) items := by
  have straight {offset : Nat} (within : offset < items.length) : place ring tail offset = tail + offset := if_pos (by omega)
  constructor
  · intro offset within
    have written : slotBytes itemSize (data.write (tail * itemSize) (bytesOf items)) (tail + offset) = items[tail + offset - tail].bytes :=
      slot_written (Nat.le_add_right _ _) (by omega)
    rw [straight within]
    simpa only [Nat.add_sub_cancel_left] using written
  · intro slot away
    apply slot_apart
    by_contra between
    refine away (slot - tail) (by omega) ?_
    rw [straight (by omega)]
    omega

lemma bytesOf_take (items : List (Item itemSize)) (count : Nat) (few : count ≤ items.length) :
    (bytesOf items).take (count * itemSize) = bytesOf (items.take count) ∧ (bytesOf items).drop (count * itemSize) = bytesOf (items.drop count) := by
  have parts : bytesOf items = bytesOf (items.take count) ++ bytesOf (items.drop count) := by
    rw [bytesOf,bytesOf,bytesOf,← flatMap_append,take_append_drop]
  have length : (bytesOf (items.take count)).length = count * itemSize := by
    rw [bytesOf_length,length_take_of_le few]
  rw [parts]
  exact ⟨take_left' length,drop_left' length⟩

lemma copied_twice (data : Memory) (inside : tail < ring) (beyond : ring - tail < items.length) (within : items.length < ring) :
    Copied ring tail data ((data.write (tail * itemSize) ((bytesOf items).take ((ring - tail) * itemSize))).write 0
      ((bytesOf items).drop ((ring - tail) * itemSize))) items := by
  obtain ⟨front,back⟩ := bytesOf_take items (ring - tail) (Nat.le_of_lt beyond)
  have frontLength : (items.take (ring - tail)).length = ring - tail := length_take_of_le (Nat.le_of_lt beyond)
  have backLength : (items.drop (ring - tail)).length = items.length - (ring - tail) := length_drop
  rw [front,back,← Nat.zero_mul itemSize]
  constructor
  · intro offset here
    by_cases first : offset < ring - tail
    · have straight : place ring tail offset = tail + offset := if_pos (by omega)
      rw [straight,slot_apart (by omega),slot_written (Nat.le_add_right _ _) (by omega)]
      simp only [Nat.add_sub_cancel_left,List.getElem_take]
    · have wrapped : place ring tail offset = tail + offset - ring := if_neg (by omega)
      rw [wrapped,slot_written (Nat.zero_le _) (by omega)]
      simp only [List.getElem_drop]
      congr 2
      omega
  · intro slot away
    have notBack : 0 + (items.drop (ring - tail)).length ≤ slot := by
      by_contra low
      refine away (slot + (ring - tail)) (by omega) ?_
      unfold place
      rw [if_neg (by omega)]
      omega
    have notFront : slot < tail ∨ tail + (items.take (ring - tail)).length ≤ slot := by
      by_contra between
      refine away (slot - tail) (by omega) ?_
      unfold place
      rw [if_pos (by omega)]
      omega
    rw [slot_apart (.inr notBack),slot_apart notFront]

end Copies

structure Holds (queue : Queue) (held : List (Item itemSize)) : Prop where
  width : queue.itemSize = itemSize
  head : queue.head < queue.capacity + 1
  room : held.length ≤ queue.capacity
  tail : queue.tail = place (queue.capacity + 1) queue.head held.length
  slots : ∀ offset (within : offset < held.length),
    slotBytes itemSize queue.data (place (queue.capacity + 1) queue.head offset) = held[offset].bytes

section Operations

variable {queue : Queue} {held : List (Item itemSize)}

lemma clear_holds (capacity itemSize : Nat) (data : Memory) : Holds (clear capacity itemSize data) ([] : List (Item itemSize)) :=
  ⟨rfl,succ_pos _,Nat.zero_le _,(if_pos (succ_pos _)).symm,fun _ within => absurd within (Nat.not_lt_zero _)⟩

lemma Holds.tail_lt (holds : Holds queue held) : queue.tail < queue.capacity + 1 := by
  rw [holds.tail]
  exact place_lt holds.head (Nat.le_succ_of_le holds.room)

lemma Holds.size_eq (holds : Holds queue held) : size queue = held.length := by
  have head := holds.head
  have room := holds.room
  have tail := holds.tail
  unfold place at tail
  unfold size
  split at tail <;> split <;> omega

lemma Holds.pushed (holds : Holds queue held)
    (copied : Copied (queue.capacity + 1) queue.tail queue.data memory items) (fits : held.length + items.length ≤ queue.capacity) :
    Holds {queue with data:=memory,tail:=(queue.tail + items.length) % (queue.capacity + 1)} (held ++ items) := by
  have head := holds.head
  have behind (offset : Nat) (few : offset ≤ items.length) :
      place (queue.capacity + 1) queue.tail offset = place (queue.capacity + 1) queue.head (held.length + offset) := by
    rw [holds.tail,place_place head (by omega)]
  refine ⟨holds.width,head,by rw [length_append]; exact fits,?_,?_⟩
  · dsimp only
    rw [place_eq_mod holds.tail_lt (by omega),behind _ le_rfl,length_append]
  · intro offset within
    rw [length_append] at within
    dsimp only
    by_cases old : offset < held.length
    · rw [List.getElem_append_left old,← holds.slots offset old]
      apply copied.outside
      intro other few
      rw [behind other (Nat.le_of_lt few)]
      exact place_ne (by omega) (by omega) (by omega)
    · have new : offset - held.length < items.length := by omega
      have here := copied.inside (offset - held.length) new
      rw [behind _ (Nat.le_of_lt new),Nat.add_sub_cancel' (not_lt.mp old)] at here
      rw [List.getElem_append_right (not_lt.mp old)]
      exact here

lemma Holds.popped (holds : Holds queue held) (enough : count ≤ held.length) :
    Holds {queue with head:=(queue.head + count) % (queue.capacity + 1)} (held.drop count) := by
  have head := holds.head
  have room := holds.room
  have moved : (queue.head + count) % (queue.capacity + 1) = place (queue.capacity + 1) queue.head count := place_eq_mod head (by omega)
  refine ⟨holds.width,mod_lt _ (succ_pos _),by rw [length_drop]; dsimp only; omega,?_,?_⟩
  · dsimp only
    rw [moved,place_place head (by rw [length_drop]; omega),length_drop,Nat.add_sub_cancel' enough,holds.tail]
  · intro offset within
    rw [length_drop] at within
    dsimp only
    rw [moved,place_place head (by omega),holds.slots _ (by omega),List.getElem_drop]

lemma Holds.oldest (holds : Holds queue held) (enough : count ≤ held.length) :
    ((List.range count).flatMap fun offset => slotBytes itemSize queue.data (place (queue.capacity + 1) queue.head offset)) = bytesOf (held.take count) := by
  induction count with
  | zero => rfl
  | succ count ih =>
    rw [range_succ,flatMap_append,ih (Nat.le_of_succ_le enough),flatMap_singleton,holds.slots count enough,
      List.take_succ_eq_append_getElem enough,bytesOf,bytesOf,flatMap_append,flatMap_singleton]

lemma Holds.pushOne_eq (holds : Holds queue held) (item : Item itemSize) :
    pushOne queue item.bytes =
      if held.length + 1 ≤ queue.capacity then
        (true,{queue with data:=queue.data.write (queue.tail * itemSize) (bytesOf [item]),tail:=(queue.tail + 1) % (queue.capacity + 1)})
      else (false,queue) := by
  have size := holds.size_eq
  have single : bytesOf [item] = item.bytes := by rw [bytesOf,flatMap_singleton]
  have room := holds.room
  unfold pushOne freeSpace
  rw [holds.width,if_neg (not_not.mpr item.length),single]
  split <;> split <;> first | rfl | omega

lemma Holds.pushMultiple_eq (holds : Holds queue held) (positive : 0 < itemSize) (items : List (Item itemSize)) :
    ∃ memory, pushMultiple queue (bytesOf items) =
        (if held.length + items.length ≤ queue.capacity then (true,{queue with data:=memory,tail:=(queue.tail + items.length) % (queue.capacity + 1)})
        else (false,queue)) ∧
      (held.length + items.length ≤ queue.capacity → Copied (queue.capacity + 1) queue.tail queue.data memory items) := by
  have size := holds.size_eq
  have room := holds.room
  have tailLt := holds.tail_lt
  have head := holds.head
  have count : (bytesOf items).length / itemSize = items.length := by rw [bytesOf_length,Nat.mul_div_cancel _ positive]
  unfold pushMultiple
  unfold RingQueue.size at size
  rw [holds.width]
  dsimp only
  rw [count,if_neg (not_not.mpr (bytesOf_length items))]
  by_cases fits : held.length + items.length ≤ queue.capacity
  · simp only [if_pos fits]
    by_cases ordered : queue.head ≤ queue.tail
    · rw [if_pos ordered] at size
      rw [if_pos ordered,if_neg (by omega)]
      by_cases straight : items.length ≤ queue.capacity + 1 - queue.tail
      · rw [if_pos straight]
        exact ⟨_,rfl,fun _ => copied_once _ (by omega)⟩
      · rw [if_neg straight]
        exact ⟨_,rfl,fun _ => copied_twice _ tailLt (by omega) (by omega)⟩
    · rw [if_neg ordered] at size
      rw [if_neg ordered,if_neg (by omega)]
      exact ⟨_,rfl,fun _ => copied_once _ (by omega)⟩
  · refine ⟨queue.data,?_,fun contra => absurd contra fits⟩
    rw [if_neg fits]
    by_cases ordered : queue.head ≤ queue.tail
    · rw [if_pos ordered] at size
      rw [if_pos ordered,if_pos (by omega)]
    · rw [if_neg ordered] at size
      rw [if_neg ordered,if_pos (by omega)]

lemma Holds.popOne_eq (holds : Holds queue held) :
    popOne queue itemSize =
      if 1 ≤ held.length then (some (bytesOf (held.take 1)),{queue with head:=(queue.head + 1) % (queue.capacity + 1)}) else (none,queue) := by
  have size := holds.size_eq
  unfold popOne
  rw [holds.width,if_neg (not_not.mpr rfl)]
  by_cases some_ : 1 ≤ held.length
  · have first := holds.oldest some_
    have here : place (queue.capacity + 1) queue.head 0 = queue.head := if_pos holds.head
    rw [List.range_one,flatMap_singleton,here] at first
    rw [if_neg (by omega),if_pos some_,← first]
    rfl
  · rw [if_pos (by omega),if_neg some_]

lemma Holds.popMultiple_eq (holds : Holds queue held) (positive : 0 < itemSize) (count : Nat) :
    popMultiple queue (count * itemSize) =
      if count ≤ held.length then (some (bytesOf (held.take count)),{queue with head:=(queue.head + count) % (queue.capacity + 1)}) else (none,queue) := by
  have size := holds.size_eq
  have room := holds.room
  have head := holds.head
  have tailLt := holds.tail_lt
  unfold popMultiple
  unfold RingQueue.size at size
  rw [holds.width]
  dsimp only
  rw [Nat.mul_div_cancel _ positive,if_neg (not_not.mpr rfl)]
  have straight (fits : queue.head + count ≤ queue.capacity + 1) (enough : count ≤ held.length) :
      queue.data.read (queue.head * itemSize) (count * itemSize) = bytesOf (held.take count) := by
    rw [read_slots,← holds.oldest enough]
    refine flatMap_congr fun offset within => ?_
    rw [place,if_pos (by rw [mem_range] at within; omega)]
  by_cases enough : count ≤ held.length
  · rw [if_pos enough]
    by_cases ordered : queue.head ≤ queue.tail
    · rw [if_pos ordered] at size
      rw [if_pos ordered,if_neg (by omega),straight (by omega) enough]
    · rw [if_neg ordered] at size
      rw [if_neg ordered,if_neg (by omega)]
      by_cases fits : count ≤ queue.capacity + 1 - queue.head
      · rw [if_pos fits,straight (by omega) enough]
      · -- The slots up to the end of the ring, and the first ones.
        obtain ⟨more,rfl⟩ : ∃ more, count = queue.capacity + 1 - queue.head + more := Nat.exists_eq_add_of_le (by omega)
        have rest : (queue.capacity + 1 - queue.head + more) * itemSize - (queue.capacity + 1 - queue.head) * itemSize = more * itemSize := by
          rw [Nat.add_mul,Nat.add_sub_cancel_left]
        have front : queue.data.read (queue.head * itemSize) ((queue.capacity + 1 - queue.head) * itemSize) = _ := read_slots _ _ _
        have back : queue.data.read (0 * itemSize) (more * itemSize) = _ := read_slots _ _ _
        rw [Nat.zero_mul] at back
        rw [if_neg fits,rest,front,back,← holds.oldest enough,List.range_add,flatMap_append,List.flatMap_map]
        congr 3
        · refine flatMap_congr fun offset within => ?_
          rw [place,if_pos (by rw [mem_range] at within; omega)]
        · refine flatMap_congr fun offset within => ?_
          rw [place,if_neg (by omega)]
          congr 1
          omega
  · rw [if_neg enough]
    by_cases ordered : queue.head ≤ queue.tail
    · rw [if_pos ordered] at size
      rw [if_pos ordered,if_pos (by omega)]
    · rw [if_neg ordered] at size
      rw [if_neg ordered,if_pos (by omega)]

end Operations

structure Follows (queue : Queue) (held : List (Item itemSize)) (after : Outcome × Queue) (expected : Outcome × List (Item itemSize)) : Prop where
  outcome : after.1 = expected.1
  holds : Holds after.2 expected.2
  capacity : after.2.capacity = queue.capacity
  failure : after.1 = .failed → after.2 = queue

section Runs

variable {queue : Queue} {held : List (Item itemSize)}

lemma push_follows (holds : Holds queue held)
    (is : result = if held.length + items.length ≤ queue.capacity then
      (true,{queue with data:=memory,tail:=(queue.tail + items.length) % (queue.capacity + 1)}) else (false,queue))
    (copied : held.length + items.length ≤ queue.capacity → Copied (queue.capacity + 1) queue.tail queue.data memory items) :
    Follows queue held (pushOutcome result) (Fifo.push queue.capacity held items) := by
  subst is
  unfold Fifo.push
  by_cases fits : held.length + items.length ≤ queue.capacity
  · simp only [if_pos fits]
    exact ⟨rfl,holds.pushed (copied fits) fits,rfl,fun failed => nomatch failed⟩
  · simp only [if_neg fits]
    exact ⟨rfl,holds,rfl,fun _ => rfl⟩

lemma pop_follows (holds : Holds queue held)
    (is : result = if count ≤ held.length then (some (bytesOf (held.take count)),{queue with head:=(queue.head + count) % (queue.capacity + 1)})
      else (none,queue)) :
    Follows queue held (popOutcome result) (Fifo.pop held count) := by
  subst is
  unfold Fifo.pop
  by_cases enough : count ≤ held.length
  · simp only [if_pos enough]
    exact ⟨rfl,holds.popped enough,rfl,fun failed => nomatch failed⟩
  · simp only [if_neg enough]
    exact ⟨rfl,holds,rfl,fun _ => rfl⟩

lemma exec_follows (positive : 0 < itemSize) (holds : Holds queue held) (op : Op itemSize) :
    Follows queue held (exec queue op) (Fifo.exec queue.capacity held op) := by
  cases op with
  | pushOne item =>
    refine push_follows holds (holds.pushOne_eq item) fun fits => copied_once _ ?_
    exact holds.tail_lt
  | push items =>
    obtain ⟨memory,is,copied⟩ := holds.pushMultiple_eq positive items
    exact push_follows holds is copied
  | popOne => exact pop_follows holds holds.popOne_eq
  | pop count => exact pop_follows holds (holds.popMultiple_eq positive count)

lemma run_follows (positive : 0 < itemSize) (holds : Holds queue held) (ops : List (Op itemSize)) :
    (run queue ops).1 = (Fifo.run queue.capacity held ops).1 ∧ Holds (run queue ops).2 (Fifo.run queue.capacity held ops).2 := by
  induction ops generalizing queue held with
  | nil => exact ⟨rfl,holds⟩
  | cons op ops ih =>
    have here := exec_follows positive holds op
    have later := ih here.holds
    rw [here.capacity] at later
    simp only [run,Fifo.run]
    exact ⟨congrArg₂ List.cons here.outcome later.1,later.2⟩

end Runs

theorem queue_refines_fifo (capacity itemSize : Nat) (data : Memory) (positive : 0 < itemSize) (ops : List (Op itemSize)) :
    (run (clear capacity itemSize data) ops).1 = (Fifo.run capacity [] ops).1 ∧
      Holds (run (clear capacity itemSize data) ops).2 (Fifo.run capacity [] ops).2 ∧
      ∀ op : Op itemSize, (exec (run (clear capacity itemSize data) ops).2 op).1 = .failed →
        (exec (run (clear capacity itemSize data) ops).2 op).2 = (run (clear capacity itemSize data) ops).2 := by
  obtain ⟨outcomes,holds⟩ := run_follows positive (clear_holds capacity itemSize data) ops
  exact ⟨outcomes,holds,fun op => (exec_follows positive holds op).failure⟩

theorem two_bytes_of_three :
    0 < 1 ∧ (run (clear 2 1 fun _ => 0) [.push [⟨[7],rfl⟩,⟨[8],rfl⟩],.pushOne ⟨[9],rfl⟩,.popOne,.pushOne ⟨[9],rfl⟩,.pop 2]).1 =
      [.pushed,.failed,.popped [7],.pushed,.popped [8,9]] :=
  ⟨by decide,(queue_refines_fifo 2 1 (fun _ => 0) (by decide) _).1⟩

end MedvedDB.RingQueue
