import MedvedDB.Binn
import MedvedDB.Memory

open MedvedDB.Binn
namespace MedvedDB.Vm

inductive Status where
  | ok | failed | invalidArg | noImpl | stackOverflow
  deriving DecidableEq, Repr

-- mdv_stack_base: the bytes below its size, with the top at the end.
structure Stack where
  capacity : Nat
  bytes : List UInt8
  deriving DecidableEq

def Stack.push (stack : Stack) (items : List UInt8) : Option Stack :=
  if stack.bytes.length + items.length ≤ stack.capacity then some {stack with bytes:=stack.bytes ++ items} else none

-- What is popped is read before anything is pushed in its place.
def Stack.pop (stack : Stack) (count : Nat) : Option (List UInt8 × Stack) :=
  if count ≤ stack.bytes.length then
    some (stack.bytes.drop (stack.bytes.length - count),{stack with bytes:=stack.bytes.take (stack.bytes.length - count)})
  else none

-- mdv_vm_datum, with the bytes that stand for it on the stack: a pointer when it is
-- external, its data otherwise.
structure Datum where
  external : Bool
  size : UInt32
  bytes : List UInt8
  deriving DecidableEq

def Datum.data (memory : Memory) (datum : Datum) : List UInt8 :=
  if datum.external then memory.read (unsigned datum.bytes) datum.size.toNat else datum.bytes

def Datum.count (external : Bool) (size : UInt32) : Nat := if external then 8 else size.toNat

def flag (external : Bool) : UInt8 := if external then 1 else 0

-- What was pushed before the overflow stays on the stack.
def vmStackPush (stack : Stack) (datum : Datum) : Status × Stack :=
  match stack.push datum.bytes with
  | none => (.stackOverflow,stack)
  | some stack =>
    match stack.push (unsignedBytes 4 datum.size.toNat) with
    | none => (.stackOverflow,stack)
    | some stack =>
      match stack.push [flag datum.external] with
      | none => (.stackOverflow,stack)
      | some stack => (.ok,stack)

def vmStackPop (stack : Stack) : Option Datum × Stack :=
  match stack.pop 1 with
  | none => (none,stack)
  | some (external,stack) =>
    match stack.pop 4 with
    | none => (none,stack)
    | some (size,stack) =>
      match stack.pop (Datum.count (external != [0]) (UInt32.ofNat (unsigned size))) with
      | none => (none,stack)
      | some (bytes,stack) => (some ⟨external != [0],UInt32.ofNat (unsigned size),bytes⟩,stack)

def vmStackTop (stack : Stack) : Option Datum :=
  let length := stack.bytes.length
  if length < 5 then none
  else
    let external := stack.bytes.drop (length - 1) != [0]
    let size := UInt32.ofNat (unsigned ((stack.bytes.drop (length - 5)).take 4))
    let count := Datum.count external size
    if count + 5 > length then none else some ⟨external,size,(stack.bytes.drop (length - 5 - count)).take count⟩

-- The operands lie on the stack or in the memory that pointers lead to.
structure State where
  memory : Memory
  stack : Stack

-- The right operand is on top.
def vmStackPopPair (stack : Stack) : Option (Datum × Datum) × Stack :=
  match vmStackPop stack with
  | (none,stack) => (none,stack)
  | (some rhs,stack) =>
    match vmStackPop stack with
    | (none,stack) => (none,stack)
    | (some lhs,stack) => (some (lhs,rhs),stack)

def memcmp : List UInt8 → List UInt8 → Nat → Int
  | one::ones,two::twos,count+1 => if one = two then memcmp ones twos count else one.toNat - two.toNat
  | _,_,_ => 0

def cmpRes (lhs rhs : List UInt8) : Int := memcmp lhs rhs (if lhs.length < rhs.length then lhs.length else rhs.length)

def truth (holds : Bool) : UInt8 := if holds then 0xFF else 0

def vmopCompare (test : List UInt8 → List UInt8 → Bool) (vm : State) : Status × State :=
  match vmStackPopPair vm.stack with
  | (none,stack) => (.failed,{vm with stack:=stack})
  | (some (lhs,rhs),stack) =>
    let pushed := vmStackPush stack ⟨false,1,[truth (test (lhs.data vm.memory) (rhs.data vm.memory))]⟩
    (pushed.1,{vm with stack:=pushed.2})

def vmopEqual : State → Status × State := vmopCompare fun lhs rhs => lhs.length = rhs.length ∧ memcmp lhs rhs lhs.length = 0
def vmopNotEqual : State → Status × State := vmopCompare fun lhs rhs => lhs.length ≠ rhs.length ∨ memcmp lhs rhs lhs.length ≠ 0
def vmopGreater : State → Status × State := vmopCompare fun lhs rhs => cmpRes lhs rhs > 0 ∨ cmpRes lhs rhs = 0 ∧ lhs.length > rhs.length
def vmopGreaterOrEqual : State → Status × State := vmopCompare fun lhs rhs => cmpRes lhs rhs > 0 ∨ cmpRes lhs rhs = 0 ∧ lhs.length ≥ rhs.length
def vmopLess : State → Status × State := vmopCompare fun lhs rhs => cmpRes lhs rhs < 0 ∨ cmpRes lhs rhs = 0 ∧ lhs.length < rhs.length
def vmopLessOrEqual : State → Status × State := vmopCompare fun lhs rhs => cmpRes lhs rhs < 0 ∨ cmpRes lhs rhs = 0 ∧ lhs.length ≤ rhs.length

def vmopCombine (combine : UInt8 → UInt8 → UInt8) (vm : State) : Status × State :=
  match vmStackPopPair vm.stack with
  | (none,stack) => (.failed,{vm with stack:=stack})
  | (some (lhs,rhs),stack) =>
    if lhs.size ≠ rhs.size then (.invalidArg,{vm with stack:=stack})
    else
      let pushed := vmStackPush stack ⟨false,lhs.size,List.zipWith combine (lhs.data vm.memory) (rhs.data vm.memory)⟩
      (pushed.1,{vm with stack:=pushed.2})

def vmopAnd : State → Status × State := vmopCombine (· &&& ·)
def vmopOr : State → Status × State := vmopCombine (· ||| ·)

-- The data are inverted where they are: on the stack, or behind their pointer.
def vmopNot (vm : State) : Status × State :=
  match vmStackTop vm.stack with
  | none => (.failed,vm)
  | some datum =>
    let inverted := (datum.data vm.memory).map (~~~ ·)
    if datum.external then (.ok,{vm with memory:=vm.memory.write (unsigned datum.bytes) inverted})
    else
      let length := vm.stack.bytes.length
      let bytes := vm.stack.bytes.take (length - 5 - datum.size.toNat) ++ inverted ++ vm.stack.bytes.drop (length - 5)
      (.ok,{vm with stack:={vm.stack with bytes:=bytes}})

inductive Comparison where
  | equal | notEqual | greater | greaterOrEqual | less | lessOrEqual
  deriving DecidableEq, Repr

inductive Combination where
  | and | or
  deriving DecidableEq, Repr

inductive Op where
  | compare (comparison : Comparison)
  | combine (combination : Combination)
  | not
  deriving DecidableEq, Repr

def vmop : Op → State → Status × State
  | .compare .equal => vmopEqual
  | .compare .notEqual => vmopNotEqual
  | .compare .greater => vmopGreater
  | .compare .greaterOrEqual => vmopGreaterOrEqual
  | .compare .less => vmopLess
  | .compare .lessOrEqual => vmopLessOrEqual
  | .combine .and => vmopAnd
  | .combine .or => vmopOr
  | .not => vmopNot

-- MDV_PREDICATE_FNS.
def predicateFns : List Op :=
  [.compare .equal,.compare .notEqual,.compare .greater,.compare .greaterOrEqual,.compare .less,.compare .lessOrEqual,.combine .and,.combine .or,.not]

-- The datum of a PUSH. The pointer of an external one leads to the bytes behind the
-- size, where the program has its own pointer.
def pushDatum (memory : Memory) (ip : Nat) : Datum :=
  let external := memory (ip + 1) != 0
  let size := UInt32.ofNat (unsigned (memory.read (ip + 2) 4))
  ⟨external,size,if external then unsignedBytes 8 (ip + 6) else memory.read (ip + 6) size.toNat⟩

-- One round of mdv_vm_run. The next ip is none when it is set to 0.
def step (fns : List Op) (ip : Nat) (vm : State) : Option Nat × Status × State :=
  let opcode := vm.memory ip
  if opcode = 0 then (some (ip + 1),.ok,vm)
  else if opcode = 1 then
    let datum := pushDatum vm.memory ip
    let pushed := vmStackPush vm.stack datum
    (if pushed.1 = .ok then some (ip + 6 + Datum.count datum.external datum.size) else none,pushed.1,{vm with stack:=pushed.2})
  else if opcode = 0xFF then (none,.ok,vm)
  else if opcode = 2 then
    match fns[unsigned (vm.memory.read (ip + 1) 2)]? with
    | none => (none,.noImpl,vm)
    | some op =>
      let called := vmop op vm
      (if called.1 = .ok then some (ip + 3) else none,called)
  else (none,.failed,vm)

def run (fns : List Op) : Nat → Nat → State → Option (Status × State)
  | 0,_,_ => none
  | fuel+1,ip,vm =>
    match step fns ip vm with
    | (none,result) => some result
    | (some ip,_,vm) => run fns fuel ip vm

def Returns (fns : List Op) (ip : Nat) (vm : State) (result : Status × State) : Prop := ∃ fuel, run fns fuel ip vm = some result

section Runs

variable {fns : List Op} {ip : Nat} {vm : State} {result : Status × State}

lemma returns_next (here : step fns ip vm = (some next,status,after)) (later : Returns fns next after result) :
    Returns fns ip vm result := by
  obtain ⟨fuel,done⟩ := later
  exact ⟨fuel + 1,by simp only [run,here,done]⟩

lemma returns_stop (here : step fns ip vm = (none,result)) : Returns fns ip vm result := ⟨1,by simp only [run,here]⟩

lemma run_more (done : run fns fuel ip vm = some result) (more : Nat) : run fns (fuel + more) ip vm = some result := by
  induction fuel generalizing ip vm with
  | zero => cases done
  | succ fuel ih =>
    rw [Nat.add_right_comm,run]
    rw [run] at done
    cases here : step fns ip vm with
    | mk next rest =>
      cases next with
      | none =>
        simp only [here] at done ⊢
        exact done
      | some next =>
        simp only [here] at done ⊢
        exact ih done

lemma returns_unique (one : Returns fns ip vm result) (two : Returns fns ip vm other) : result = other := by
  obtain ⟨first,done⟩ := one
  obtain ⟨second,again⟩ := two
  have left := run_more done second
  rw [Nat.add_comm,run_more again first] at left
  exact (Option.some.inj left).symm

end Runs

def Datum.item (datum : Datum) : List UInt8 := datum.bytes ++ (unsignedBytes 4 datum.size.toNat ++ [flag datum.external])

def Datum.Whole (datum : Datum) : Prop := datum.bytes.length = Datum.count datum.external datum.size

section Items

variable {datum : Datum} {capacity : Nat} {front : List UInt8}

lemma item_length (whole : datum.Whole) : datum.item.length = Datum.count datum.external datum.size + 5 := by
  rw [Datum.item,length_append,length_append,unsignedBytes_length,whole,length_singleton]

lemma flag_back (external : Bool) : ([flag external] != [0]) = external := by
  cases external <;> rfl

lemma size_back (size : UInt32) : UInt32.ofNat (unsigned (unsignedBytes 4 size.toNat)) = size := by
  rw [unsigned_unsignedBytes size.toNat_lt,UInt32.ofNat_toNat]

lemma Stack.pop_append (capacity : Nat) (front back : List UInt8) :
    Stack.pop ⟨capacity,front ++ back⟩ back.length = some (back,⟨capacity,front⟩) := by
  simp [Stack.pop]

lemma vmStackPush_ok (stack : Stack) (fits : stack.bytes.length + datum.item.length ≤ stack.capacity) :
    vmStackPush stack datum = (.ok,{stack with bytes:=stack.bytes ++ datum.item}) := by
  simp only [Datum.item,length_append] at fits
  have first : stack.bytes.length + datum.bytes.length ≤ stack.capacity := by omega
  have second : (stack.bytes ++ datum.bytes).length + (unsignedBytes 4 datum.size.toNat).length ≤ stack.capacity := by
    rw [length_append]
    omega
  have third : (stack.bytes ++ datum.bytes ++ unsignedBytes 4 datum.size.toNat).length + [flag datum.external].length ≤ stack.capacity := by
    rw [length_append,length_append]
    omega
  simp only [vmStackPush,Stack.push,if_pos first,if_pos second,if_pos third]
  rw [Datum.item,append_assoc,append_assoc]

lemma vmStackPush_overflow (stack : Stack) (short : ¬stack.bytes.length + datum.item.length ≤ stack.capacity) :
    (vmStackPush stack datum).1 = .stackOverflow := by
  rw [vmStackPush]
  split
  · rfl
  · rename_i one first
    split
    · rfl
    · rename_i two second
      split
      · rfl
      · rename_i three third
        rw [Stack.push,ite_none_right_eq_some,some_inj] at first second third
        obtain ⟨_,rfl⟩ := first
        obtain ⟨_,rfl⟩ := second
        refine absurd ?_ short
        simpa only [Datum.item,length_append,Nat.add_assoc] using third.1

lemma vmStackPop_item (whole : datum.Whole) : vmStackPop ⟨capacity,front ++ datum.item⟩ = (some datum,⟨capacity,front⟩) := by
  have first := Stack.pop_append capacity (front ++ datum.bytes ++ unsignedBytes 4 datum.size.toNat) [flag datum.external]
  have second := Stack.pop_append capacity (front ++ datum.bytes) (unsignedBytes 4 datum.size.toNat)
  have third := Stack.pop_append capacity front datum.bytes
  rw [length_singleton,append_assoc,append_assoc] at first
  rw [unsignedBytes_length] at second
  rw [whole] at third
  rw [Datum.item,vmStackPop,first]
  dsimp only
  rw [second]
  dsimp only
  rw [flag_back,size_back,third]

lemma vmStackTop_item (whole : datum.Whole) : vmStackTop ⟨capacity,front ++ datum.item⟩ = some datum := by
  have length : (front ++ datum.item).length = front.length + Datum.count datum.external datum.size + 5 := by
    rw [length_append,item_length whole,Nat.add_assoc]
  have sizeLength := unsignedBytes_length 4 datum.size.toNat
  have last : (front ++ datum.item).drop (front.length + Datum.count datum.external datum.size + 5 - 1) = [flag datum.external] := by
    rw [Datum.item,← append_assoc,← append_assoc]
    refine drop_left' ?_
    rw [length_append,length_append,sizeLength,whole]
    omega
  have size : ((front ++ datum.item).drop (front.length + Datum.count datum.external datum.size + 5 - 5)).take 4 = unsignedBytes 4 datum.size.toNat := by
    rw [Datum.item,← append_assoc,drop_left' (by rw [length_append,whole]; omega)]
    exact take_left' sizeLength
  have bytes : ((front ++ datum.item).drop (front.length + Datum.count datum.external datum.size + 5 - 5 - Datum.count datum.external datum.size)).take
      (Datum.count datum.external datum.size) = datum.bytes := by
    rw [Datum.item,drop_left' (by omega)]
    exact take_left' whole
  simp only [vmStackTop,length,last,size,flag_back,size_back,bytes]
  rw [if_neg (by omega),if_neg (by omega)]

end Items

end MedvedDB.Vm
