import MedvedDB.Vm

open MedvedDB.Binn
namespace MedvedDB.Vm

open Memory (At at_append at_cons)

-- The order of byte strings: the first difference decides, and a proper beginning is
-- smaller.
def Comparison.holds : Comparison → List UInt8 → List UInt8 → Prop
  | .equal,lhs,rhs => lhs = rhs
  | .notEqual,lhs,rhs => lhs ≠ rhs
  | .greater,lhs,rhs => rhs < lhs
  | .greaterOrEqual,lhs,rhs => ¬lhs < rhs
  | .less,lhs,rhs => lhs < rhs
  | .lessOrEqual,lhs,rhs => ¬rhs < lhs

instance (comparison : Comparison) (lhs rhs : List UInt8) : Decidable (comparison.holds lhs rhs) :=
  match comparison with
  | .equal => inferInstanceAs (Decidable (lhs = rhs))
  | .notEqual => inferInstanceAs (Decidable (lhs ≠ rhs))
  | .greater => inferInstanceAs (Decidable (rhs < lhs))
  | .greaterOrEqual => inferInstanceAs (Decidable (¬lhs < rhs))
  | .less => inferInstanceAs (Decidable (lhs < rhs))
  | .lessOrEqual => inferInstanceAs (Decidable (¬rhs < lhs))

def Combination.byte : Combination → UInt8 → UInt8 → UInt8
  | .and,lhs,rhs => lhs &&& rhs
  | .or,lhs,rhs => lhs ||| rhs

section Order

variable {lhs rhs : List UInt8}

lemma memcmp_zero_iff (lhs rhs : List UInt8) (same : lhs.length = rhs.length) : memcmp lhs rhs lhs.length = 0 ↔ lhs = rhs := by
  induction lhs generalizing rhs with
  | nil =>
    cases rhs with
    | nil => simp [memcmp]
    | cons two rhs => cases same
  | cons one lhs ih =>
    cases rhs with
    | nil => cases same
    | cons two rhs =>
      rw [length_cons,memcmp]
      by_cases here : one = two
      · subst here
        rw [if_pos rfl,ih rhs (Nat.succ.inj same)]
        simp
      · have apart : one.toNat ≠ two.toNat := fun equal => here (UInt8.toNat_inj.mp equal)
        rw [if_neg here]
        simp only [List.cons.injEq,here,false_and,iff_false]
        omega

lemma cmpRes_nil (rhs : List UInt8) : cmpRes [] rhs = 0 ∧ cmpRes rhs [] = 0 := by
  constructor
  · cases rhs <;> rfl
  · cases rhs <;> rfl

lemma cmpRes_cons (one two : UInt8) (lhs rhs : List UInt8) :
    cmpRes (one::lhs) (two::rhs) = if one = two then cmpRes lhs rhs else one.toNat - two.toNat := by
  have count : (if (one::lhs).length < (two::rhs).length then (one::lhs).length else (two::rhs).length) =
      (if lhs.length < rhs.length then lhs.length else rhs.length) + 1 := by
    simp only [length_cons,Nat.add_lt_add_iff_right]
    split <;> rfl
  rw [cmpRes,count,memcmp,cmpRes]

lemma cmpRes_less_iff (lhs rhs : List UInt8) : (cmpRes lhs rhs < 0 ∨ cmpRes lhs rhs = 0 ∧ lhs.length < rhs.length) ↔ lhs < rhs := by
  induction lhs generalizing rhs with
  | nil =>
    rw [(cmpRes_nil rhs).1]
    cases rhs <;> simp
  | cons one lhs ih =>
    cases rhs with
    | nil =>
      rw [(cmpRes_nil (one::lhs)).2]
      simp
    | cons two rhs =>
      rw [cmpRes_cons,List.cons_lt_cons_iff,← ih]
      by_cases here : one = two
      · subst here
        simp
      · have apart : one.toNat ≠ two.toNat := fun equal => here (UInt8.toNat_inj.mp equal)
        rw [if_neg here,UInt8.lt_iff_toNat_lt]
        simp only [here,false_and,or_false]
        omega

lemma cmpRes_swap (lhs rhs : List UInt8) : cmpRes rhs lhs = -cmpRes lhs rhs := by
  induction lhs generalizing rhs with
  | nil => rw [(cmpRes_nil rhs).1,(cmpRes_nil rhs).2,neg_zero]
  | cons one lhs ih =>
    cases rhs with
    | nil => rw [(cmpRes_nil (one::lhs)).1,(cmpRes_nil (one::lhs)).2,neg_zero]
    | cons two rhs =>
      rw [cmpRes_cons,cmpRes_cons]
      by_cases here : one = two
      · subst here
        rw [if_pos rfl,if_pos rfl,ih]
      · rw [if_neg here,if_neg (Ne.symm here),neg_sub]

lemma cmpRes_greater_iff (lhs rhs : List UInt8) : (cmpRes lhs rhs > 0 ∨ cmpRes lhs rhs = 0 ∧ lhs.length > rhs.length) ↔ rhs < lhs := by
  rw [← cmpRes_less_iff,cmpRes_swap]
  omega

end Order

-- A machine whose stack holds the values themselves, the top first.
def apply : Op → List (List UInt8) → Status × List (List UInt8)
  | .not,value::rest => (.ok,value.map (~~~ ·)::rest)
  | .compare comparison,rhs::lhs::rest => (.ok,[truth (comparison.holds lhs rhs)]::rest)
  | .combine combination,rhs::lhs::rest =>
    if lhs.length = rhs.length then (.ok,List.zipWith combination.byte lhs rhs::rest) else (.invalidArg,rest)
  | _,_ => (.failed,[])

structure Operand where
  bytes : List UInt8
  small : bytes.length < 2^32

-- The instructions of a program before its END. An opcode that is none of the four
-- stops the machine.
inductive Instr where
  | nop
  | push (operand : Operand)
  | pushExternal (size : UInt32) (pointer : UInt64)
  | call (id : UInt16)
  | stop (opcode : UInt8) (unknown : opcode ≠ 0 ∧ opcode ≠ 1 ∧ opcode ≠ 2)

def pointerBytes (pointer : UInt64) : List UInt8 := unsignedBytes 8 pointer.toNat

def Instr.encode : Instr → List UInt8
  | .nop => [0]
  | .push operand => 1::0::(unsignedBytes 4 operand.bytes.length ++ operand.bytes)
  | .pushExternal size pointer => 1::1::(unsignedBytes 4 size.toNat ++ pointerBytes pointer)
  | .call id => 2::unsignedBytes 2 id.toNat
  | .stop opcode _ => [opcode]

def encode (code : List Instr) : List UInt8 := code.flatMap Instr.encode ++ [0xFF]

-- What the machine does with values, and with the first bytes of its own pointer for an
-- external operand.
def runValues (fns : List Op) : List Instr → List (List UInt8) → Status × List (List UInt8)
  | [],values => (.ok,values)
  | .nop::rest,values => runValues fns rest values
  | .push operand::rest,values => runValues fns rest (operand.bytes::values)
  | .pushExternal size pointer::rest,values => runValues fns rest ((pointerBytes pointer).take size.toNat::values)
  | .call id::rest,values =>
    match fns[id.toNat]? with
    | none => (.noImpl,values)
    | some op => if (apply op values).1 = .ok then runValues fns rest (apply op values).2 else apply op values
  | .stop opcode _::_,values => (if opcode = 0xFF then .ok else .failed,values)

def Instr.Short : Instr → Prop
  | .pushExternal size _ => size.toNat ≤ 8
  | _ => True

-- A datum whose pointer, when it has one, leads between two addresses.
structure Datum.Inside (datum : Datum) (lower upper : Nat) : Prop where
  order : lower ≤ upper
  whole : datum.Whole
  between : datum.external = true → lower ≤ unsigned datum.bytes ∧ unsigned datum.bytes + 8 ≤ upper ∧ datum.size.toNat ≤ 8

-- The stack shows the values. Pointers lead below a limit, further up to higher
-- addresses.
inductive Shows (memory : Memory) : Nat → List UInt8 → List (List UInt8) → Prop where
  | empty (limit : Nat) : Shows memory limit [] []
  | push {lower limit : Nat} {front : List UInt8} {values : List (List UInt8)} (datum : Datum) (inside : datum.Inside lower limit)
      (rest : Shows memory lower front values) : Shows memory limit (front ++ datum.item) (datum.data memory::values)

section Showing

variable {memory other : Memory} {limit : Nat} {bytes : List UInt8} {values : List (List UInt8)}

variable {datum : Datum} {lower upper : Nat}

lemma Datum.Inside.data_congr (inside : datum.Inside lower upper)
    (same : ∀ place, lower ≤ place → place < upper → memory place = other place) : datum.data memory = datum.data other := by
  rw [Datum.data,Datum.data]
  split
  · rename_i external
    obtain ⟨low,high,short⟩ := inside.between external
    exact Memory.read_congr fun place above below => same place (by omega) (by omega)
  · rfl

lemma Datum.Inside.mono (inside : datum.Inside lower upper) (more : upper ≤ limit) : datum.Inside lower limit := by
  refine ⟨inside.order.trans more,inside.whole,fun external => ?_⟩
  obtain ⟨low,high,short⟩ := inside.between external
  exact ⟨low,high.trans more,short⟩

lemma Shows.mono (shows : Shows memory limit bytes values) (above : limit ≤ more) : Shows memory more bytes values := by
  cases shows with
  | empty => exact .empty more
  | push datum inside rest => exact .push datum (inside.mono above) rest

lemma Shows.congr (shows : Shows memory limit bytes values) (same : ∀ place, place < limit → memory place = other place) :
    Shows other limit bytes values := by
  induction shows with
  | empty limit => exact .empty limit
  | push datum inside rest ih =>
    rw [inside.data_congr fun place _ below => same place below]
    exact .push datum inside (ih fun place below => same place (Nat.lt_of_lt_of_le below inside.order))

lemma Shows.nil (shows : Shows memory limit bytes []) : bytes = [] := by
  cases shows
  rfl

lemma Shows.cons (shows : Shows memory limit bytes (value::values)) :
    ∃ (lower : Nat) (front : List UInt8) (datum : Datum), bytes = front ++ datum.item ∧ datum.Inside lower limit ∧ datum.data memory = value ∧ Shows memory lower front values := by
  cases shows with
  | push datum inside rest => exact ⟨_,_,datum,rfl,inside,rfl,rest⟩

lemma Shows.inline (shows : Shows memory limit bytes values) (length : value.length = size.toNat) :
    Shows memory limit (bytes ++ Datum.item ⟨false,size,value⟩) (value::values) :=
  .push ⟨false,size,value⟩ ⟨le_rfl,length,fun wrong => nomatch wrong⟩ shows

lemma Datum.Inside.data_length (inside : datum.Inside lower upper) : (datum.data memory).length = datum.size.toNat := by
  have whole := inside.whole
  rw [Datum.Whole,Datum.count] at whole
  rw [Datum.data]
  split
  · rw [Memory.read_length]
  · rename_i plain
    rwa [if_neg plain] at whole

lemma Datum.Inside.item_length (inside : datum.Inside lower upper) : datum.size.toNat + 5 ≤ datum.item.length := by
  rw [Vm.item_length inside.whole,Datum.count]
  split
  · rename_i external
    exact Nat.add_le_add_right (inside.between external).2.2 5
  · exact le_rfl

end Showing

-- A function does with the stack what the values say. It needs no more space than its
-- operands had, and changes nothing from the limit on.
structure Agrees (limit : Nat) (vm : State) (result : Status × State) (expected : Status × List (List UInt8)) : Prop where
  status : result.1 = expected.1
  shows : Shows result.2.memory limit result.2.stack.bytes expected.2
  same : ∀ place, limit ≤ place → result.2.memory place = vm.memory place
  capacity : result.2.stack.capacity = vm.stack.capacity
  shorter : result.2.stack.bytes.length ≤ vm.stack.bytes.length

section Calls

variable {vm : State} {limit : Nat} {values : List (List UInt8)}

structure Popped (limit : Nat) (vm : State) (lhs rhs : List UInt8) (values : List (List UInt8)) (left right : Datum) (front : List UInt8) : Prop where
  popped : vmStackPopPair vm.stack = (some (left,right),{vm.stack with bytes:=front})
  leftIs : left.data vm.memory = lhs
  rightIs : right.data vm.memory = rhs
  leftSize : left.size.toNat = lhs.length
  rightSize : right.size.toNat = rhs.length
  space : front.length + (lhs.length + 5) + (rhs.length + 5) ≤ vm.stack.bytes.length
  shows : Shows vm.memory limit front values

lemma popPair_two (shows : Shows vm.memory limit vm.stack.bytes (rhs::lhs::values)) :
    ∃ left right front, Popped limit vm lhs rhs values left right front := by
  obtain ⟨middle,upper,right,stack,insideRight,rfl,rest⟩ := shows.cons
  obtain ⟨lower,front,left,rfl,insideLeft,rfl,deep⟩ := rest.cons
  have first : vmStackPop ⟨vm.stack.capacity,vm.stack.bytes⟩ = (some right,⟨vm.stack.capacity,front ++ left.item⟩) := by
    rw [stack]
    exact vmStackPop_item insideRight.whole
  refine ⟨left,right,front,?_,rfl,rfl,insideLeft.data_length.symm,insideRight.data_length.symm,?_,deep.mono (insideLeft.order.trans insideRight.order)⟩
  · rw [vmStackPopPair,first]
    dsimp only
    rw [vmStackPop_item insideLeft.whole]
  · have leftItem := insideLeft.item_length
    have rightItem := insideRight.item_length
    rw [stack,length_append,length_append,insideLeft.data_length,insideRight.data_length]
    omega

lemma vmStackPop_empty (capacity : Nat) : vmStackPop ⟨capacity,[]⟩ = (none,⟨capacity,[]⟩) := rfl

lemma popPair_short (shows : Shows vm.memory limit vm.stack.bytes values) (few : values.length < 2) :
    vmStackPopPair vm.stack = (none,{vm.stack with bytes:=[]}) := by
  match values,few with
  | [],_ =>
    have first : vmStackPop ⟨vm.stack.capacity,vm.stack.bytes⟩ = (none,⟨vm.stack.capacity,[]⟩) := by
      rw [shows.nil]
      exact vmStackPop_empty _
    rw [vmStackPopPair,first]
  | [_],_ =>
    obtain ⟨lower,front,datum,stack,inside,rfl,rest⟩ := shows.cons
    have first : vmStackPop ⟨vm.stack.capacity,vm.stack.bytes⟩ = (some datum,⟨vm.stack.capacity,[]⟩) := by
      rw [stack,rest.nil]
      exact vmStackPop_item inside.whole
    rw [vmStackPopPair,first]
    dsimp only
    rw [vmStackPop_empty]

lemma failed_agrees (limit : Nat) (vm : State) : Agrees limit vm (.failed,{vm with stack:={vm.stack with bytes:=[]}}) (.failed,[]) :=
  ⟨rfl,.empty limit,fun _ _ => rfl,rfl,Nat.zero_le _⟩

lemma push_agrees (shows : Shows vm.memory limit front values)
    (length : value.length = size.toNat) (space : front.length + (value.length + 5) ≤ vm.stack.bytes.length)
    (fits : vm.stack.bytes.length ≤ vm.stack.capacity) :
    Agrees limit vm ((vmStackPush {vm.stack with bytes:=front} ⟨false,size,value⟩).1,
      {vm with stack:=(vmStackPush {vm.stack with bytes:=front} ⟨false,size,value⟩).2}) (.ok,value::values) := by
  have whole : Datum.Whole ⟨false,size,value⟩ := length
  have item : (Datum.item ⟨false,size,value⟩).length = value.length + 5 := by
    rw [item_length whole,length]
    rfl
  have enough : front.length + (Datum.item ⟨false,size,value⟩).length ≤ vm.stack.capacity := by
    rw [item]
    exact space.trans fits
  rw [vmStackPush_ok {vm.stack with bytes:=front} enough]
  refine ⟨rfl,shows.inline length,fun _ _ => rfl,rfl,?_⟩
  rw [length_append,item]
  exact space

lemma vmopCompare_agrees {test : List UInt8 → List UInt8 → Bool} (means : ∀ lhs rhs, test lhs rhs = true ↔ comparison.holds lhs rhs)
    (shows : Shows vm.memory limit vm.stack.bytes values) (fits : vm.stack.bytes.length ≤ vm.stack.capacity) :
    Agrees limit vm (vmopCompare test vm) (apply (.compare comparison) values) := by
  match values,shows with
  | [],shows =>
    rw [vmopCompare,popPair_short shows (by decide)]
    exact failed_agrees limit vm
  | [_],shows =>
    rw [vmopCompare,popPair_short shows (by simp)]
    exact failed_agrees limit vm
  | rhs::lhs::rest,shows =>
    obtain ⟨left,right,front,pair⟩ := popPair_two shows
    have space := pair.space
    have same : test lhs rhs = decide (comparison.holds lhs rhs) := by
      rw [Bool.eq_iff_iff,means,decide_eq_true_eq]
    rw [vmopCompare,pair.popped]
    dsimp only
    rw [pair.leftIs,pair.rightIs,same]
    exact push_agrees pair.shows rfl (by rw [length_singleton]; omega) fits

lemma vmopCombine_agrees (combination : Combination) (shows : Shows vm.memory limit vm.stack.bytes values)
    (fits : vm.stack.bytes.length ≤ vm.stack.capacity) :
    Agrees limit vm (vmopCombine combination.byte vm) (apply (.combine combination) values) := by
  match values,shows with
  | [],shows =>
    rw [vmopCombine,popPair_short shows (by decide)]
    exact failed_agrees limit vm
  | [_],shows =>
    rw [vmopCombine,popPair_short shows (by simp)]
    exact failed_agrees limit vm
  | rhs::lhs::rest,shows =>
    obtain ⟨left,right,front,pair⟩ := popPair_two shows
    have space := pair.space
    have sizes : left.size = right.size ↔ lhs.length = rhs.length := by rw [← pair.leftSize,← pair.rightSize,UInt32.toNat_inj]
    rw [vmopCombine,pair.popped,apply]
    dsimp only
    rw [pair.leftIs,pair.rightIs]
    by_cases equal : lhs.length = rhs.length
    · have length : (List.zipWith combination.byte lhs rhs).length = lhs.length := by rw [List.length_zipWith,← equal,Nat.min_self]
      rw [if_pos equal,if_neg (not_not.mpr (sizes.mpr equal))]
      exact push_agrees pair.shows (length.trans pair.leftSize.symm) (by rw [length]; omega) fits
    · rw [if_neg equal,if_pos (mt sizes.mp equal)]
      refine ⟨rfl,pair.shows,fun _ _ => rfl,rfl,?_⟩
      dsimp only
      omega

lemma vmopNot_agrees (shows : Shows vm.memory limit vm.stack.bytes values) : Agrees limit vm (vmopNot vm) (apply .not values) := by
  cases values with
  | nil =>
    have none_ : vmStackTop ⟨vm.stack.capacity,vm.stack.bytes⟩ = none := by
      rw [shows.nil]
      rfl
    rw [vmopNot,none_]
    exact ⟨rfl,shows,fun _ _ => rfl,rfl,le_rfl⟩
  | cons value rest =>
    obtain ⟨lower,front,datum,stack,inside,rfl,deep⟩ := shows.cons
    have top : vmStackTop ⟨vm.stack.capacity,vm.stack.bytes⟩ = some datum := by
      rw [stack]
      exact vmStackTop_item inside.whole
    have length : ((datum.data vm.memory).map (~~~ ·)).length = datum.size.toNat := by rw [length_map,inside.data_length]
    rw [vmopNot,top]
    dsimp only
    cases kind : datum.external with
    | true =>
      obtain ⟨low,high,short⟩ := inside.between kind
      have written : datum.data (vm.memory.write (unsigned datum.bytes) ((datum.data vm.memory).map (~~~ ·))) = (datum.data vm.memory).map (~~~ ·) := by
        rw [Datum.data,if_pos kind,← length,Memory.read_write_same]
      have apart : ∀ place, place < lower →
          vm.memory place = vm.memory.write (unsigned datum.bytes) ((datum.data vm.memory).map (~~~ ·)) place := by
        intro place below
        exact (Memory.write_apart (.inl (by omega))).symm
      have pushed := Shows.push datum inside (deep.congr apart)
      rw [written] at pushed
      rw [if_pos rfl]
      refine ⟨rfl,?_,fun place above => Memory.write_apart (.inr (by omega)),rfl,le_rfl⟩
      rw [stack]
      exact pushed
    | false =>
      have count : Datum.count datum.external datum.size = datum.size.toNat := by rw [kind]; rfl
      have whole := inside.whole
      rw [Datum.Whole,count] at whole
      have bytes : vm.stack.bytes.length = front.length + datum.size.toNat + 5 := by
        rw [stack,length_append,item_length inside.whole,count,Nat.add_assoc]
      have below : vm.stack.bytes.take (vm.stack.bytes.length - 5 - datum.size.toNat) = front := by
        rw [bytes,stack]
        exact take_left' (by omega)
      have above : vm.stack.bytes.drop (vm.stack.bytes.length - 5) = unsignedBytes 4 datum.size.toNat ++ [flag false] := by
        rw [bytes,stack,Datum.item,kind,← append_assoc]
        exact drop_left' (by rw [length_append,whole]; omega)
      rw [if_neg false_ne_true,below,above,append_assoc]
      refine ⟨rfl,(deep.inline length).mono inside.order,fun _ _ => rfl,rfl,?_⟩
      dsimp only
      rw [bytes,length_append,length_append,length_append,length,unsignedBytes_length,length_singleton]
      omega

lemma vmop_agrees (op : Op) (shows : Shows vm.memory limit vm.stack.bytes values) (fits : vm.stack.bytes.length ≤ vm.stack.capacity) :
    Agrees limit vm (vmop op vm) (apply op values) := by
  match op with
  | .compare .equal =>
    rw [vmop,vmopEqual]
    refine vmopCompare_agrees (fun lhs rhs => ?_) shows fits
    rw [decide_eq_true_eq,Comparison.holds]
    constructor
    · intro both
      exact (memcmp_zero_iff lhs rhs both.1).mp both.2
    · rintro rfl
      exact ⟨rfl,(memcmp_zero_iff lhs lhs rfl).mpr rfl⟩
  | .compare .notEqual =>
    rw [vmop,vmopNotEqual]
    refine vmopCompare_agrees (fun lhs rhs => ?_) shows fits
    rw [decide_eq_true_eq,Comparison.holds]
    constructor
    · rintro either rfl
      exact either.elim (fun apart => apart rfl) fun apart => apart ((memcmp_zero_iff lhs lhs rfl).mpr rfl)
    · intro apart
      by_contra neither
      rw [not_or,not_not,not_not] at neither
      exact apart ((memcmp_zero_iff lhs rhs neither.1).mp neither.2)
  | .compare .greater =>
    rw [vmop,vmopGreater]
    refine vmopCompare_agrees (fun lhs rhs => ?_) shows fits
    rw [decide_eq_true_eq]
    exact cmpRes_greater_iff lhs rhs
  | .compare .greaterOrEqual =>
    rw [vmop,vmopGreaterOrEqual]
    refine vmopCompare_agrees (fun lhs rhs => ?_) shows fits
    rw [decide_eq_true_eq,Comparison.holds,← cmpRes_less_iff]
    omega
  | .compare .less =>
    rw [vmop,vmopLess]
    refine vmopCompare_agrees (fun lhs rhs => ?_) shows fits
    rw [decide_eq_true_eq]
    exact cmpRes_less_iff lhs rhs
  | .compare .lessOrEqual =>
    rw [vmop,vmopLessOrEqual]
    refine vmopCompare_agrees (fun lhs rhs => ?_) shows fits
    rw [decide_eq_true_eq,Comparison.holds,← cmpRes_greater_iff]
    omega
  | .combine .and => exact vmopCombine_agrees .and shows fits
  | .combine .or => exact vmopCombine_agrees .or shows fits
  | .not => exact vmopNot_agrees shows

end Calls

lemma encode_cons (instr : Instr) (code : List Instr) : encode (instr::code) = instr.encode ++ encode code := by
  rw [encode,flatMap_cons,append_assoc,encode]

section Steps

variable {fns : List Op} {ip : Nat} {vm : State}

lemma step_nop (stands : At vm.memory ip (Instr.encode .nop)) : step fns ip vm = (some (ip + 1),.ok,vm) := by
  have opcode := (at_cons.mp stands).1
  simp only [step,opcode,if_true]

lemma step_stop (unknown : opcode ≠ 0 ∧ opcode ≠ 1 ∧ opcode ≠ 2) (stands : At vm.memory ip [opcode]) :
    step fns ip vm = (none,if opcode = 0xFF then .ok else .failed,vm) := by
  have here := (at_cons.mp stands).1
  simp only [step,here,if_neg unknown.1,if_neg unknown.2.1,if_neg unknown.2.2]
  split
  · rfl
  · rfl

lemma step_push (fns : List Op) (opcode : vm.memory ip = 1) (made : pushDatum vm.memory ip = datum) :
    step fns ip vm = (if (vmStackPush vm.stack datum).1 = .ok then some (ip + 6 + Datum.count datum.external datum.size) else none,
      (vmStackPush vm.stack datum).1,{vm with stack:=(vmStackPush vm.stack datum).2}) := by
  have other : (1 : UInt8) ≠ 0 := by decide
  simp only [step,opcode,if_neg other,if_true,made]

lemma pushDatum_inline (stands : At vm.memory ip (Instr.encode (.push operand))) :
    pushDatum vm.memory ip = ⟨false,UInt32.ofNat operand.bytes.length,operand.bytes⟩ := by
  obtain ⟨_,behind⟩ := at_cons.mp stands
  obtain ⟨kind,behind⟩ := at_cons.mp behind
  obtain ⟨size,data⟩ := at_append.mp behind
  rw [unsignedBytes_length] at data
  rw [At,unsignedBytes_length] at size
  have number : UInt32.ofNat (unsigned (vm.memory.read (ip + 2) 4)) = UInt32.ofNat operand.bytes.length := by
    rw [size,unsigned_unsignedBytes operand.small]
  have read : vm.memory.read (ip + 6) (UInt32.ofNat operand.bytes.length).toNat = operand.bytes := by
    rw [toNat_ofNat_of_lt' operand.small]
    exact data
  simp only [pushDatum,kind,number,read]
  rfl

lemma pushDatum_external (stands : At vm.memory ip (Instr.encode (.pushExternal size pointer))) :
    pushDatum vm.memory ip = ⟨true,size,unsignedBytes 8 (ip + 6)⟩ := by
  obtain ⟨_,behind⟩ := at_cons.mp stands
  obtain ⟨kind,behind⟩ := at_cons.mp behind
  have read := (at_append.mp behind).1
  rw [At,unsignedBytes_length] at read
  simp only [pushDatum,kind,read,size_back]
  rfl

lemma push_length (operand : Operand) : (Instr.encode (.push operand)).length = 6 + operand.bytes.length := by
  rw [Instr.encode,length_cons,length_cons,length_append,unsignedBytes_length]
  omega

lemma pushExternal_length (size : UInt32) (pointer : UInt64) : (Instr.encode (.pushExternal size pointer)).length = 14 := by
  rw [Instr.encode,length_cons,length_cons,length_append,unsignedBytes_length,pointerBytes,unsignedBytes_length]

lemma pushExternal_field {memory : Memory} {size : UInt32} {pointer : UInt64} (stands : memory.At ip (Instr.encode (.pushExternal size pointer))) :
    memory.At (ip + 6) (pointerBytes pointer) := by
  have field := (at_append.mp (at_cons.mp (at_cons.mp stands).2).2).2
  rwa [unsignedBytes_length] at field

lemma step_call (fns : List Op) {id : UInt16} (stands : At vm.memory ip (Instr.encode (.call id))) :
    step fns ip vm = match fns[id.toNat]? with
      | none => (none,.noImpl,vm)
      | some op => (if (vmop op vm).1 = .ok then some (ip + 3) else none,(vmop op vm).1,(vmop op vm).2) := by
  obtain ⟨opcode,behind⟩ := at_cons.mp stands
  rw [At,unsignedBytes_length] at behind
  have number : unsigned (vm.memory.read (ip + 1) 2) = id.toNat := by rw [behind,unsigned_unsignedBytes id.toNat_lt]
  have first : (2 : UInt8) ≠ 0 := by decide
  have second : (2 : UInt8) ≠ 1 := by decide
  have third : (2 : UInt8) ≠ 0xFF := by decide
  cases found : fns[id.toNat]? with
  | none => simp only [step,opcode,if_neg first,if_neg second,if_neg third,if_true,number,found]
  | some op => simp only [step,opcode,if_neg first,if_neg second,if_neg third,if_true,number,found]

end Steps

def Instr.space : Instr → Nat
  | .push operand => operand.bytes.length + 5
  | .pushExternal _ _ => 13
  | _ => 0

def space (code : List Instr) : Nat := (code.map Instr.space).sum

lemma space_cons (instr : Instr) (code : List Instr) : space (instr::code) = instr.space + space code := by
  rw [space,map_cons,sum_cons,space]

-- What a run ends with, told by its values. It can only overflow when there is less
-- space than is needed.
def Ends (fns : List Op) (ip : Nat) (vm : State) (needed : Nat) (expected : Status × List (List UInt8)) : Prop :=
  ∃ result, Returns fns ip vm result ∧
    ((result.1 = .stackOverflow ∧ vm.stack.capacity < vm.stack.bytes.length + needed) ∨
      (result.1 = expected.1 ∧ ∃ limit, Shows result.2.memory limit result.2.stack.bytes expected.2))

section Refinement

variable {fns : List Op} {ip : Nat} {vm : State} {needed : Nat} {expected : Status × List (List UInt8)}

lemma ends_next (here : step fns ip vm = (some next,status,after))
    (capacity : after.stack.capacity = vm.stack.capacity) (less : after.stack.bytes.length + more ≤ vm.stack.bytes.length + needed)
    (later : Ends fns next after more expected) : Ends fns ip vm needed expected := by
  obtain ⟨result,returns,ends⟩ := later
  refine ⟨result,returns_next here returns,ends.imp_left ?_⟩
  rintro ⟨overflow,short⟩
  exact ⟨overflow,by omega⟩

lemma ends_push (opcode : vm.memory ip = 1) (made : pushDatum vm.memory ip = datum)
    (later : vm.stack.bytes.length + datum.item.length ≤ vm.stack.capacity → Ends fns (ip + 6 + Datum.count datum.external datum.size)
      {vm with stack:={vm.stack with bytes:=vm.stack.bytes ++ datum.item}} needed expected) :
    Ends fns ip vm (datum.item.length + needed) expected := by
  have here := step_push fns opcode made
  by_cases fits : vm.stack.bytes.length + datum.item.length ≤ vm.stack.capacity
  · rw [vmStackPush_ok vm.stack fits] at here
    refine ends_next here rfl ?_ (later fits)
    dsimp only
    rw [length_append,Nat.add_assoc]
  · rw [vmStackPush_overflow vm.stack fits] at here
    exact ⟨_,returns_stop here,.inl ⟨rfl,by omega⟩⟩

-- The machine refines the one with values, as long as external operands are not larger
-- than pointers. The induction is on the code; the limit for pointers is the ip.
lemma run_ends (fns : List Op) (code : List Instr) (short : ∀ instr ∈ code, instr.Short) {ip : Nat} {vm : State} {values : List (List UInt8)}
    (stands : At vm.memory ip (encode code)) (inside : ip + (encode code).length ≤ 2^64) (shows : Shows vm.memory ip vm.stack.bytes values)
    (fits : vm.stack.bytes.length ≤ vm.stack.capacity) : Ends fns ip vm (space code) (runValues fns code values) := by
  induction code generalizing ip vm values with
  | nil => exact ⟨_,returns_stop (step_stop (by decide) stands),.inr ⟨rfl,ip,shows⟩⟩
  | cons instr code ih =>
    rw [encode_cons] at stands inside
    obtain ⟨here,behind⟩ := at_append.mp stands
    rw [length_append] at inside
    have later : ∀ instr ∈ code, instr.Short := fun other member => short other (mem_cons_of_mem _ member)
    rw [space_cons]
    cases instr with
    | nop =>
      rw [Instr.encode,length_singleton] at behind inside
      rw [← Nat.add_assoc] at inside
      exact ends_next (step_nop here) rfl (Nat.add_le_add_left (Nat.le_add_left _ _) _) (ih later behind inside (shows.mono (le_succ ip)) fits)
    | push operand =>
      have size := toNat_ofNat_of_lt' operand.small
      have count : Datum.count false (UInt32.ofNat operand.bytes.length) = operand.bytes.length := size
      have whole : Datum.Whole ⟨false,UInt32.ofNat operand.bytes.length,operand.bytes⟩ := size.symm
      have item : (Datum.item ⟨false,UInt32.ofNat operand.bytes.length,operand.bytes⟩).length = Instr.space (.push operand) := by
        rw [item_length whole,count,Instr.space]
      rw [push_length] at inside behind
      rw [← Nat.add_assoc] at behind
      rw [← item]
      refine ends_push (at_cons.mp here).1 (pushDatum_inline here) fun enough => ?_
      dsimp only
      rw [count]
      exact ih later behind (by omega) ((shows.inline size.symm).mono (by omega)) (by rw [length_append]; exact enough)
    | pushExternal size pointer =>
      have few : size.toNat ≤ 8 := short _ mem_cons_self
      rw [pushExternal_length] at behind inside
      rw [← Nat.add_assoc] at inside
      have address : unsigned (unsignedBytes 8 (ip + 6)) = ip + 6 := unsigned_unsignedBytes (by omega)
      have whole : Datum.Whole ⟨true,size,unsignedBytes 8 (ip + 6)⟩ := unsignedBytes_length _ _
      have data : Datum.data vm.memory ⟨true,size,unsignedBytes 8 (ip + 6)⟩ = (pointerBytes pointer).take size.toNat := by
        rw [Datum.data,if_pos rfl,address]
        exact Memory.at_take (pushExternal_field here) (by rw [pointerBytes,unsignedBytes_length]; exact few)
      have pushed : Shows vm.memory (ip + 6 + 8) (vm.stack.bytes ++ Datum.item ⟨true,size,unsignedBytes 8 (ip + 6)⟩)
          ((pointerBytes pointer).take size.toNat::values) := by
        rw [← data]
        refine .push _ ⟨by omega,whole,fun _ => ?_⟩ shows
        rw [address]
        exact ⟨by omega,le_rfl,few⟩
      have item : (Datum.item ⟨true,size,unsignedBytes 8 (ip + 6)⟩).length = Instr.space (.pushExternal size pointer) := item_length whole
      rw [← item]
      refine ends_push (at_cons.mp here).1 (pushDatum_external here) fun enough => ?_
      exact ih later behind inside pushed (by rw [length_append]; exact enough)
    | call id =>
      have length : (Instr.encode (.call id)).length = 3 := by rw [Instr.encode,length_cons,unsignedBytes_length]
      rw [length] at behind inside
      rw [← Nat.add_assoc] at inside
      have called := step_call fns here
      rw [runValues]
      cases found : fns[id.toNat]? with
      | none =>
        rw [found] at called
        exact ⟨_,returns_stop called,.inr ⟨rfl,ip,shows⟩⟩
      | some op =>
        have agrees := vmop_agrees op shows fits
        have shorter := agrees.shorter
        rw [found] at called
        dsimp only at called ⊢
        by_cases done : (apply op values).1 = .ok
        · rw [if_pos (agrees.status.trans done)] at called
          rw [if_pos done]
          have unchanged := Memory.at_congr (fun place above => (agrees.same place (by omega)).symm) behind
          exact ends_next called agrees.capacity (by omega)
            (ih later unchanged inside (agrees.shows.mono (by omega)) (by rw [agrees.capacity]; exact shorter.trans fits))
        · rw [if_neg fun same => done (agrees.status.symm.trans same)] at called
          rw [if_neg done]
          exact ⟨_,returns_stop called,.inr ⟨agrees.status,ip,agrees.shows⟩⟩
    | stop opcode unknown =>
      exact ⟨_,returns_stop (step_stop unknown here),.inr ⟨rfl,ip,shows⟩⟩

end Refinement

structure Program (bytes : List UInt8) where
  memory : Memory
  address : Nat
  stands : memory.At address bytes
  inside : address + bytes.length ≤ 2^64

def Program.start {bytes : List UInt8} (program : Program bytes) (capacity : Nat) : State := ⟨program.memory,⟨capacity,[]⟩⟩

lemma Program.ends (fns : List Op) (short : ∀ instr ∈ code, instr.Short) (program : Program (encode code)) (capacity : Nat) :
    Ends fns program.address (program.start capacity) (space code) (runValues fns code []) :=
  run_ends fns code short program.stands program.inside (.empty _) (Nat.zero_le _)

end MedvedDB.Vm
