import MedvedDB.VmValues

open MedvedDB.Binn
namespace MedvedDB.Vm

open Memory (At at_append write)

def finalValue (vm : State) : Option (List UInt8) := (vmStackTop vm.stack).map fun datum => datum.data vm.memory

lemma Shows.finalValue (shows : Shows vm.memory limit vm.stack.bytes values) :
    finalValue vm = values.head? := by
  cases values with
  | nil =>
    have none_ : vmStackTop ⟨vm.stack.capacity,vm.stack.bytes⟩ = none := by
      rw [shows.nil]
      rfl
    rw [Vm.finalValue,none_]
    rfl
  | cons value rest =>
    obtain ⟨lower,front,datum,stack,inside,rfl,_⟩ := shows.cons
    have top : vmStackTop ⟨vm.stack.capacity,vm.stack.bytes⟩ = some datum := by
      rw [stack]
      exact vmStackTop_item inside.whole
    rw [Vm.finalValue,top]
    rfl

def withInline (before after : List Instr) (operand : Operand) : List Instr := before ++ .push operand::after
def withExternal (before after : List Instr) (operand : Operand) (pointer : UInt64) : List Instr :=
  before ++ .pushExternal (UInt32.ofNat operand.bytes.length) pointer::after

-- The bytes behind the pointer are the operand's, and lie outside the program.
structure Refers {bytes : List UInt8} (program : Program bytes) (operand : Operand) (pointer : UInt64) : Prop where
  stands : program.memory.At pointer.toNat operand.bytes
  elsewhere : pointer.toNat + operand.bytes.length ≤ program.address ∨ program.address + bytes.length ≤ pointer.toNat

-- Both programs end with the same result and the same value, on a stack that is large
-- enough for both.
def Same (fns : List Op) (before after : List Instr) (operand : Operand) (pointer : UInt64) : Prop :=
  ∀ (one : Program (encode (withInline before after operand))) (two : Program (encode (withExternal before after operand pointer))) (capacity : Nat),
    Refers two operand pointer → ∃ first second, Returns fns one.address (one.start capacity) first ∧ Returns fns two.address (two.start capacity) second ∧
      (first.1 ≠ .stackOverflow → second.1 ≠ .stackOverflow → first.1 = second.1 ∧ finalValue first.2 = finalValue second.2)

section Coinciding

variable {fns : List Op} {operand : Operand} {pointer : UInt64}

lemma prefix_take (begins : operand.bytes <+: pointerBytes pointer) :
    (pointerBytes pointer).take (UInt32.ofNat operand.bytes.length).toNat = operand.bytes := by
  rw [toNat_ofNat_of_lt' operand.small]
  exact (List.prefix_iff_eq_take.mp begins).symm

lemma runValues_same (begins : operand.bytes <+: pointerBytes pointer) (before after : List Instr) (values : List (List UInt8)) :
    runValues fns (withExternal before after operand pointer) values = runValues fns (withInline before after operand) values := by
  induction before generalizing values with
  | nil =>
    show runValues fns after ((pointerBytes pointer).take _::values) = runValues fns after (operand.bytes::values)
    rw [prefix_take begins]
  | cons instr before ih =>
    rw [withExternal,withInline,cons_append,cons_append]
    rw [withExternal,withInline] at ih
    cases instr with
    | nop => exact ih values
    | push other => exact ih (other.bytes::values)
    | pushExternal size other => exact ih ((pointerBytes other).take size.toNat::values)
    | call id =>
      rw [runValues,runValues]
      simp only [ih]
    | stop opcode unknown => rfl

lemma same_of_prefix (begins : operand.bytes <+: pointerBytes pointer) (short : ∀ instr ∈ before ++ after, instr.Short) :
    Same fns before after operand pointer := by
  intro one two capacity _
  have few : (UInt32.ofNat operand.bytes.length).toNat ≤ 8 := by
    rw [toNat_ofNat_of_lt' operand.small]
    have length := begins.length_le
    rwa [pointerBytes,unsignedBytes_length] at length
  have shortIn {instr : Instr} (here : instr.Short) : ∀ other ∈ before ++ instr::after, other.Short := by
    intro other member
    rcases mem_append.mp member with early | late
    · exact short other (mem_append_left _ early)
    · rcases mem_cons.mp late with rfl | behind
      · exact here
      · exact short other (mem_append_right _ behind)
  have shortInline : ∀ other ∈ withInline before after operand, other.Short := shortIn trivial
  have shortExternal : ∀ other ∈ withExternal before after operand pointer, other.Short := shortIn few
  obtain ⟨first,returnsFirst,endsFirst⟩ := one.ends fns shortInline capacity
  obtain ⟨second,returnsSecond,endsSecond⟩ := two.ends fns shortExternal capacity
  refine ⟨first,second,returnsFirst,returnsSecond,fun largeFirst largeSecond => ?_⟩
  obtain ⟨statusFirst,_,showsFirst⟩ := endsFirst.resolve_left fun overflow => largeFirst overflow.1
  obtain ⟨statusSecond,_,showsSecond⟩ := endsSecond.resolve_left fun overflow => largeSecond overflow.1
  rw [runValues_same begins] at statusSecond showsSecond
  exact ⟨statusFirst.trans statusSecond.symm,showsFirst.finalValue.trans showsSecond.finalValue.symm⟩

end Coinciding

section Differing

variable {fns : List Op} {ip : Nat} {vm : State}

lemma returns_nops (count : Nat) (stands : At vm.memory ip (encode (replicate count .nop))) : Returns fns ip vm (.ok,vm) := by
  induction count generalizing ip with
  | zero => exact returns_stop (step_stop (by decide) stands)
  | succ count ih =>
    rw [List.replicate_succ,encode_cons] at stands
    obtain ⟨here,behind⟩ := at_append.mp stands
    exact returns_next (step_nop here) (ih behind)

lemma returns_pushed (count : Nat) (opcode : vm.memory ip = 1) (made : pushDatum vm.memory ip = datum)
    (fits : vm.stack.bytes.length + datum.item.length ≤ vm.stack.capacity)
    (behind : At vm.memory (ip + 6 + Datum.count datum.external datum.size) (encode (replicate count .nop))) :
    Returns fns ip vm (.ok,{vm with stack:={vm.stack with bytes:=vm.stack.bytes ++ datum.item}}) := by
  have here := step_push fns opcode made
  rw [vmStackPush_ok vm.stack fits] at here
  exact returns_next here (returns_nops count behind)

lemma runValues_nops (fns : List Op) (count : Nat) (values : List (List UInt8)) : runValues fns (replicate count .nop) values = (.ok,values) := by
  induction count with
  | zero => rfl
  | succ count ih => exact ih

lemma nops_short (count : Nat) : ∀ instr ∈ replicate count Instr.nop, instr.Short := by
  intro instr member
  rw [List.eq_of_mem_replicate member]
  trivial

lemma encode_nops_length (count : Nat) : (encode (replicate count .nop)).length = count + 1 := by
  induction count with
  | zero => rfl
  | succ count ih => rw [List.replicate_succ,encode_cons,length_append,ih,Instr.encode,length_singleton,Nat.add_comm]

def Program.load (memory : Memory) (address : Nat) (bytes : List UInt8) (inside : address + bytes.length ≤ 2^64) : Program bytes where
  memory := memory.write address bytes
  address := address
  stands := Memory.read_write_same memory address bytes
  inside := inside

variable {operand : Operand} {pointer : UInt64} {count : Nat}

lemma inline_final (one : Program (encode (withInline [] (replicate count .nop) operand))) (large : operand.bytes.length + 5 ≤ capacity)
    (returns : Returns fns one.address (one.start capacity) result) :
    result.1 = .ok ∧ finalValue result.2 = some operand.bytes := by
  have short : ∀ instr ∈ withInline [] (replicate count .nop) operand, instr.Short := by
    intro instr member
    rcases mem_cons.mp member with rfl | nop
    · trivial
    · exact nops_short count instr nop
  have needed : space (withInline [] (replicate count .nop) operand) = operand.bytes.length + 5 := by
    rw [withInline,nil_append,space_cons,Instr.space,space,List.map_replicate,List.sum_replicate]
    rfl
  have values : runValues fns (withInline [] (replicate count .nop) operand) [] = (.ok,[operand.bytes]) := runValues_nops fns count _
  obtain ⟨other,returnsOther,ends⟩ := one.ends fns short capacity
  rw [returns_unique returns returnsOther]
  rcases ends with ⟨_,less⟩ | ⟨status,_,shows⟩
  · rw [needed,Program.start,length_nil,Nat.zero_add] at less
    exact absurd large (not_le.mpr less)
  · rw [values] at status shows
    exact ⟨status,shows.finalValue⟩

lemma external_final (two : Program (encode (withExternal [] (replicate count .nop) operand pointer))) (large : 13 ≤ capacity)
    (returns : Returns fns two.address (two.start capacity) result) :
    At two.memory (two.address + 6) (pointerBytes pointer ++ encode (replicate count .nop)) ∧ result.1 = .ok ∧
      finalValue result.2 = some (two.memory.read (two.address + 6) operand.bytes.length) := by
  obtain ⟨memory,place,whole,inside⟩ := two
  have stands := whole
  rw [withExternal,nil_append,encode_cons] at stands inside
  rw [length_append,pushExternal_length] at inside
  obtain ⟨here,behind⟩ := at_append.mp stands
  rw [pushExternal_length] at behind
  have datum : Datum.Whole ⟨true,UInt32.ofNat operand.bytes.length,unsignedBytes 8 (place + 6)⟩ := unsignedBytes_length _ _
  have item : (Datum.item ⟨true,UInt32.ofNat operand.bytes.length,unsignedBytes 8 (place + 6)⟩).length = 13 := item_length datum
  have address : unsigned (unsignedBytes 8 (place + 6)) = place + 6 := unsigned_unsignedBytes (by omega)
  have pushed : Returns fns place ⟨memory,⟨capacity,[]⟩⟩ (.ok,⟨memory,⟨capacity,[] ++
      Datum.item ⟨true,UInt32.ofNat operand.bytes.length,unsignedBytes 8 (place + 6)⟩⟩⟩) :=
    returns_pushed count (Memory.at_cons.mp here).1 (pushDatum_external here) (by rw [item]; exact (Nat.zero_add 13).le.trans large) behind
  rw [returns_unique returns pushed]
  refine ⟨at_append.mpr ⟨pushExternal_field here,?_⟩,rfl,?_⟩
  · rw [pointerBytes,unsignedBytes_length]
    exact behind
  · rw [finalValue,vmStackTop_item datum,map_some,Datum.data,if_pos rfl,address,toNat_ofNat_of_lt' operand.small]

lemma same_reads (few : count ≤ 1) (same : Same fns [] (replicate count .nop) operand pointer) :
    ∃ memory address, At memory address (pointerBytes pointer ++ encode (replicate count .nop)) ∧
      memory.read address operand.bytes.length = operand.bytes := by
  have small := operand.small
  have inlineLength : (encode (withInline [] (replicate count .nop) operand)).length = 6 + operand.bytes.length + (count + 1) := by
    rw [withInline,nil_append,encode_cons,length_append,push_length,encode_nops_length]
  have externalLength : (encode (withExternal [] (replicate count .nop) operand pointer)).length = 14 + (count + 1) := by
    rw [withExternal,nil_append,encode_cons,length_append,pushExternal_length,encode_nops_length]
  -- The program lies before or behind the bytes that the pointer leads to.
  obtain ⟨address,apart,low⟩ : ∃ address, (pointer.toNat + operand.bytes.length ≤ address ∨ address + 16 ≤ pointer.toNat) ∧ address < 2^33 := by
    rcases Nat.lt_or_ge pointer.toNat 16 with near | far
    · exact ⟨pointer.toNat + operand.bytes.length,.inl le_rfl,by omega⟩
    · exact ⟨0,.inr (by omega),by decide⟩
  let one := Program.load (fun _ => 0) 0 (encode (withInline [] (replicate count .nop) operand)) (by omega)
  let two := Program.load (write (fun _ => 0) pointer.toNat operand.bytes) address (encode (withExternal [] (replicate count .nop) operand pointer))
    (by omega)
  have refers : Refers two operand pointer := by
    refine ⟨?_,by rw [externalLength]; exact apart.imp id fun before => by show address + _ ≤ _; omega⟩
    show Memory.read (write _ address _) _ _ = _
    rw [Memory.read_write_apart (by rw [externalLength]; omega),Memory.read_write_same]
  obtain ⟨first,second,returnsFirst,returnsSecond,equal⟩ := same one two (operand.bytes.length + 13) refers
  obtain ⟨okFirst,valueFirst⟩ := inline_final one (by omega) returnsFirst
  obtain ⟨stands,okSecond,valueSecond⟩ := external_final two (by omega) returnsSecond
  have values := (equal (by rw [okFirst]; decide) (by rw [okSecond]; decide)).2
  rw [valueFirst,valueSecond,some_inj] at values
  exact ⟨_,_,stands,values.symm⟩

lemma prefix_of_same (same : ∀ count, Same fns [] (replicate count .nop) operand pointer) : operand.bytes <+: pointerBytes pointer := by
  have length : (pointerBytes pointer).length = 8 := unsignedBytes_length _ _
  rcases Nat.lt_or_ge 8 operand.bytes.length with long | few
  · have next {count : Nat} (few : count ≤ 1) : operand.bytes[8]? = (encode (replicate count .nop))[0]? := by
      obtain ⟨memory,address,stands,is⟩ := same_reads few (same count)
      obtain ⟨_,behind⟩ := at_append.mp stands
      rw [length] at behind
      rw [← is,Memory.read_get long,Memory.at_get behind (by rw [encode_nops_length]; exact succ_pos count)]
    have first := next (Nat.zero_le 1)
    have second := next (le_refl 1)
    rw [first] at second
    exact absurd second (by decide)
  · obtain ⟨memory,address,stands,is⟩ := same_reads (Nat.zero_le 1) (same 0)
    have taken := Memory.at_take (at_append.mp stands).1 (few.trans length.ge)
    rw [is] at taken
    exact List.prefix_iff_eq_take.mpr taken

end Differing

theorem interchangeable_iff (fns : List Op) (operand : Operand) (pointer : UInt64) :
    (∀ before after, (∀ instr ∈ before ++ after, instr.Short) → Same fns before after operand pointer) ↔ operand.bytes <+: pointerBytes pointer := by
  constructor
  · intro same
    exact prefix_of_same fun count => same [] (replicate count .nop) (nops_short count)
  · intro begins before after short
    exact same_of_prefix begins short

def letter : Operand := ⟨[65],by decide⟩
def inlineLetter : Program (encode (withInline [] [] letter)) := .load (fun _ => 0) 0 _ (by decide)
def externalLetter : Program (encode (withExternal [] [] letter 1000)) := .load (write (fun _ => 0) 1000 letter.bytes) 0 _ (by decide)

theorem external_letter_differs :
    externalLetter.memory.read 1000 1 = letter.bytes ∧
      (run predicateFns 2 inlineLetter.address (inlineLetter.start 64)).map (fun result => (result.1,finalValue result.2)) = some (.ok,some [65]) ∧
      (run predicateFns 2 externalLetter.address (externalLetter.start 64)).map (fun result => (result.1,finalValue result.2)) = some (.ok,some [232]) := by
  decide

end MedvedDB.Vm
