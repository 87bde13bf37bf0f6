import MedvedDB.VmOperands

open MedvedDB.Binn
namespace MedvedDB.Vm

def WholeData (bytes : List UInt8) : Prop := ∃ data : List Datum, (∀ datum ∈ data, datum.Whole) ∧ bytes = data.flatMap Datum.item

section Failures

variable {items : List UInt8} {stack : Stack}

lemma Stack.push_none (failed : stack.push items = none) : stack.capacity < stack.bytes.length + items.length := by
  unfold Stack.push at failed
  split at failed
  · cases failed
  · exact not_le.mp ‹_›

lemma Stack.push_some (done : stack.push items = some after) :
    stack.bytes.length + items.length ≤ stack.capacity ∧ after = {stack with bytes:=stack.bytes ++ items} := by
  unfold Stack.push at done
  split at done
  · exact ⟨‹_›,(Option.some.inj done).symm⟩
  · cases done

lemma Stack.grown_ne (some_ : items ≠ []) : ({stack with bytes:=stack.bytes ++ items} : Stack) ≠ stack := by
  intro same
  have bytes := congrArg Stack.bytes same
  exact some_ (List.append_right_eq_self.mp bytes)

lemma Stack.pop_some (done : stack.pop count = some (popped,after)) :
    count ≤ stack.bytes.length ∧ after.bytes.length = stack.bytes.length - count := by
  unfold Stack.pop at done
  split at done
  · obtain ⟨_,rfl⟩ := Prod.mk.inj (Option.some.inj done)
    exact ⟨‹_›,length_take_of_le (Nat.sub_le _ _)⟩
  · cases done

lemma push_unchanged_iff (stack : Stack) (datum : Datum) :
    ((vmStackPush stack datum).1 = .stackOverflow → (vmStackPush stack datum).2 = stack) ↔
      stack.bytes.length + datum.item.length ≤ stack.capacity ∨ stack.capacity < stack.bytes.length + datum.bytes.length ∨
        datum.bytes = [] ∧ stack.capacity < stack.bytes.length + 4 := by
  have sizeLength := unsignedBytes_length 4 datum.size.toNat
  have length : datum.item.length = datum.bytes.length + 5 := by
    simp only [Datum.item,length_append,sizeLength,length_singleton]
  cases first : stack.push datum.bytes with
  | none =>
    have short := Stack.push_none first
    simp only [vmStackPush,first]
    exact ⟨fun _ => .inr (.inl short),fun _ _ => trivial⟩
  | some one =>
    obtain ⟨fits,rfl⟩ := Stack.push_some first
    cases second : Stack.push {stack with bytes:=stack.bytes ++ datum.bytes} (unsignedBytes 4 datum.size.toNat) with
    | none =>
      have short := Stack.push_none second
      simp only [sizeLength,length_append] at short
      simp only [vmStackPush,first,second]
      constructor
      · intro unchanged
        have none_ : datum.bytes = [] := by
          by_contra some_
          exact Stack.grown_ne some_ (unchanged trivial)
        rw [none_,length_nil] at short
        exact .inr (.inr ⟨none_,short⟩)
      · rintro (whole | beyond | ⟨none_,_⟩) _
        · omega
        · omega
        · rw [none_,append_nil]
    | some two =>
      obtain ⟨more,rfl⟩ := Stack.push_some second
      simp only [sizeLength,length_append] at more
      cases third : Stack.push {stack with bytes:=stack.bytes ++ datum.bytes ++ unsignedBytes 4 datum.size.toNat} [flag datum.external] with
      | none =>
        have short := Stack.push_none third
        simp only [sizeLength,length_append,length_singleton] at short
        simp only [vmStackPush,first,second,third]
        constructor
        · intro unchanged
          have both : datum.bytes ++ unsignedBytes 4 datum.size.toNat ≠ [] := by
            apply List.ne_nil_of_length_pos
            rw [length_append,sizeLength]
            omega
          rw [append_assoc] at unchanged
          exact absurd (unchanged trivial) (Stack.grown_ne both)
        · rintro (whole | beyond | ⟨none_,beyond⟩) _
          · omega
          · omega
          · omega
      | some three =>
        obtain ⟨all,_⟩ := Stack.push_some third
        simp only [sizeLength,length_append,length_singleton] at all
        simp only [vmStackPush,first,second,third]
        constructor
        · intro _
          exact .inl (by omega)
        · intro _ failed
          cases failed

lemma pop_unchanged_iff (stack : Stack) (failed : (vmStackPop stack).1 = none) : (vmStackPop stack).2 = stack ↔ stack.bytes = [] := by
  have shorter {after : Stack} {count : Nat} (less : after.bytes.length = stack.bytes.length - count) (positive : 0 < count) (some_ : stack.bytes ≠ []) :
      after ≠ stack := by
    intro same
    have length := List.length_pos_of_ne_nil some_
    rw [same] at less
    omega
  by_cases empty : stack.bytes = []
  · have none_ : stack.pop 1 = none := by simp [Stack.pop,empty]
    simp only [vmStackPop,none_,empty]
  · refine ⟨fun same => absurd same ?_,fun is => absurd is empty⟩
    cases first : stack.pop 1 with
    | none =>
      have some_ := List.length_pos_of_ne_nil empty
      simp only [Stack.pop,ite_eq_right_iff,reduceCtorEq,imp_false] at first
      exact absurd some_ first
    | some popped =>
      obtain ⟨external,one⟩ := popped
      obtain ⟨_,oneLess⟩ := Stack.pop_some first
      cases second : one.pop 4 with
      | none =>
        simp only [vmStackPop,first,second]
        exact shorter oneLess Nat.one_pos empty
      | some popped =>
        obtain ⟨size,two⟩ := popped
        obtain ⟨_,twoLess⟩ := Stack.pop_some second
        have bothLess : two.bytes.length = stack.bytes.length - 5 := by omega
        cases third : two.pop (Datum.count (external != [0]) (UInt32.ofNat (unsigned size))) with
        | none =>
          simp only [vmStackPop,first,second,third]
          exact shorter bothLess (by decide) empty
        | some popped =>
          simp only [vmStackPop,first,second,third] at failed
          cases failed

lemma pop_wholeData (whole : WholeData stack.bytes) (failed : (vmStackPop stack).1 = none) : stack.bytes = [] := by
  obtain ⟨capacity,bytes⟩ := stack
  obtain ⟨data,all,rfl⟩ := whole
  induction data using reverseRecOn with
  | nil => rfl
  | append_singleton rest datum _ =>
    rw [flatMap_append,flatMap_singleton] at failed
    rw [vmStackPop_item (all datum (mem_append_right _ mem_cons_self))] at failed
    cases failed

theorem failures_unchanged_iff (stack : Stack) (datum : Datum) :
    (((vmStackPush stack datum).1 = .stackOverflow → (vmStackPush stack datum).2 = stack) ↔
      stack.bytes.length + datum.item.length ≤ stack.capacity ∨ stack.capacity < stack.bytes.length + datum.bytes.length ∨
        datum.bytes = [] ∧ stack.capacity < stack.bytes.length + 4) ∧
    ((vmStackPop stack).1 = none → ((vmStackPop stack).2 = stack ↔ stack.bytes = [])) ∧
    (WholeData stack.bytes → (vmStackPop stack).1 = none → (vmStackPop stack).2 = stack) := by
  refine ⟨push_unchanged_iff stack datum,pop_unchanged_iff stack,fun whole failed => ?_⟩
  exact (pop_unchanged_iff stack failed).mpr (pop_wholeData whole failed)

theorem failures_leave_a_byte :
    vmStackPush ⟨4,[]⟩ ⟨false,1,[0]⟩ = (.stackOverflow,⟨4,[0]⟩) ∧ vmStackPop ⟨4,[0]⟩ = (none,⟨4,[]⟩) := by
  decide

end Failures

-- A call of mdv_vmop_not on an external operand that has bytes.
def inverts (fns : List Op) (ip : Nat) (vm : State) : Bool :=
  vm.memory ip = 2 ∧ fns[unsigned (vm.memory.read (ip + 1) 2)]? = some .not ∧
    (vmStackTop vm.stack).any fun datum => datum.external && datum.size != 0

section Effects

variable {fns : List Op} {ip : Nat} {vm : State}

lemma not_ne_self (byte : UInt8) : ~~~byte ≠ byte := by
  intro same
  have bits := congrArg (fun byte : UInt8 => byte.toBitVec.getLsbD 0) same
  simp at bits

lemma written_ne {memory : Memory} {address : Nat} {bytes : List UInt8} (some_ : bytes ≠ []) (stands : memory.At address bytes) :
    memory.write address (bytes.map (~~~ ·)) ≠ memory := by
  intro same
  obtain ⟨byte,rest,rfl⟩ := exists_cons_of_ne_nil some_
  have written : memory.write address ((byte::rest).map (~~~ ·)) (address + 0) = ~~~byte := Memory.write_at (by simp)
  rw [Nat.add_zero,same] at written
  exact not_ne_self byte (written.symm.trans (Memory.at_cons.mp stands).1)

lemma vmopCompare_memory (test : List UInt8 → List UInt8 → Bool) (vm : State) : (vmopCompare test vm).2.memory = vm.memory := by
  unfold vmopCompare
  split <;> rfl

lemma vmopCombine_memory (combine : UInt8 → UInt8 → UInt8) (vm : State) : (vmopCombine combine vm).2.memory = vm.memory := by
  unfold vmopCombine
  split
  · rfl
  · split <;> rfl

lemma vmop_memory (other : op ≠ .not) (vm : State) : (vmop op vm).2.memory = vm.memory := by
  cases op with
  | compare comparison => cases comparison <;> exact vmopCompare_memory _ vm
  | combine combination => cases combination <;> exact vmopCombine_memory _ vm
  | not => exact absurd rfl other

lemma vmopNot_memory (vm : State) : (vmopNot vm).2.memory = vm.memory ↔ ((vmStackTop vm.stack).any fun datum => datum.external && datum.size != 0) = false := by
  unfold vmopNot
  cases top : vmStackTop vm.stack with
  | none => simp
  | some datum =>
    cases external : datum.external with
    | false => simp [external]
    | true =>
      have data : datum.data vm.memory = vm.memory.read (unsigned datum.bytes) datum.size.toNat := if_pos external
      have stands : vm.memory.At (unsigned datum.bytes) (datum.data vm.memory) := by
        rw [Memory.At,data,Memory.read_length]
      simp only [external,if_true,Option.any_some,Bool.true_and,bne_eq_false_iff_eq]
      constructor
      · intro same
        by_contra some_
        refine written_ne ?_ stands same
        apply List.ne_nil_of_length_pos
        rw [data,Memory.read_length]
        exact UInt32.pos_iff_ne_zero.mpr some_
      · intro none_
        have empty : datum.data vm.memory = [] := by simp [data,none_,Memory.read]
        funext place
        simp [empty,Memory.write]

lemma step_memory (fns : List Op) (ip : Nat) (vm : State) : (step fns ip vm).2.2.memory = vm.memory ↔ inverts fns ip vm = false := by
  by_cases call : vm.memory ip = 2
  · have notNop : ¬(2 : UInt8) = 0 := by decide
    have notPush : ¬(2 : UInt8) = 1 := by decide
    have notEnd : ¬(2 : UInt8) = 0xFF := by decide
    cases found : fns[unsigned (vm.memory.read (ip + 1) 2)]? with
    | none => simp only [step,inverts,call,found,if_neg notNop,if_neg notPush,if_neg notEnd,if_true,reduceCtorEq,false_and,and_false,decide_false]
    | some op =>
      simp only [step,inverts,call,found,if_neg notNop,if_neg notPush,if_neg notEnd,if_true,true_and,some_inj]
      by_cases inverting : op = .not
      · subst inverting
        simp only [true_and,Bool.decide_eq_true]
        exact vmopNot_memory vm
      · simp only [inverting,false_and,decide_false,iff_true]
        exact vmop_memory inverting vm
  · have quiet : inverts fns ip vm = false := by simp only [inverts,call,false_and,decide_false]
    refine iff_of_true ?_ quiet
    unfold step
    dsimp only
    split
    · rfl
    · split
      · rfl
      · split
        · rfl
        · rfl

lemma step_inverts (here : inverts fns ip vm = true) : ∃ after, step fns ip vm = (some (ip + 3),.ok,after) := by
  obtain ⟨call,found,top⟩ := of_decide_eq_true here
  have notNop : ¬(2 : UInt8) = 0 := by decide
  have notPush : ¬(2 : UInt8) = 1 := by decide
  have notEnd : ¬(2 : UInt8) = 0xFF := by decide
  have done : (vmopNot vm).1 = .ok := by
    unfold vmopNot
    cases is : vmStackTop vm.stack with
    | none =>
      rw [is] at top
      cases top
    | some datum =>
      dsimp only
      split <;> rfl
  refine ⟨(vmopNot vm).2,?_⟩
  simp only [step,call,found,if_neg notNop,if_neg notPush,if_neg notEnd,if_true,vmop,done]
  rw [← done]

def Runs (fns : List Op) : Nat × State → Nat × State → Prop :=
  Relation.ReflTransGen fun here there => ∃ status, step fns here.1 here.2 = (some there.1,status,there.2)

lemma returns_runs (returns : Returns fns ip vm result) :
    ∃ last, Runs fns (ip,vm) last ∧ step fns last.1 last.2 = (none,result) := by
  obtain ⟨fuel,done⟩ := returns
  induction fuel generalizing ip vm with
  | zero => cases done
  | succ fuel ih =>
    unfold run at done
    split at done
    · rename_i stopped
      cases done
      exact ⟨(ip,vm),.refl,stopped⟩
    · rename_i next status after moved
      obtain ⟨last,runs,stopped⟩ := ih done
      exact ⟨last,.head ⟨status,moved⟩ runs,stopped⟩

-- Nothing outside the stack changes, while the program runs and when it returns, so
-- that it can be run again from the same stack.
structure EffectFree (fns : List Op) (ip : Nat) (vm : State) : Prop where
  during : ∀ next after, Runs fns (ip,vm) (next,after) → after.memory = vm.memory
  after : ∀ result, Returns fns ip vm result → result.2.memory = vm.memory
  again : ∀ result, Returns fns ip vm result → Returns fns ip ⟨result.2.memory,vm.stack⟩ result

lemma runs_memory (quiet : ∀ next after, Runs fns (ip,vm) (next,after) → inverts fns next after = false)
    (runs : Runs fns (ip,vm) last) : last.2.memory = vm.memory := by
  induction runs with
  | refl => rfl
  | @tail here there before moved ih =>
    obtain ⟨status,moved⟩ := moved
    have kept := (step_memory fns here.1 here.2).mpr (quiet here.1 here.2 before)
    rw [moved] at kept
    exact kept.trans ih

end Effects

theorem effectFree_iff (fns : List Op) (ip : Nat) (vm : State) :
    EffectFree fns ip vm ↔ ∀ next after, Runs fns (ip,vm) (next,after) → inverts fns next after = false := by
  constructor
  · intro free next after runs
    by_contra here
    rw [not_eq_false] at here
    obtain ⟨changed,moved⟩ := step_inverts here
    have later := free.during _ _ (Relation.ReflTransGen.tail runs ⟨_,moved⟩)
    have kept := (step_memory fns next after).mp (by rw [moved]; exact later.trans (free.during _ _ runs).symm)
    rw [here] at kept
    cases kept
  · intro quiet
    have unchanged (result : Status × State) (returns : Returns fns ip vm result) : result.2.memory = vm.memory := by
      obtain ⟨last,runs,stopped⟩ := returns_runs returns
      have kept := (step_memory fns last.1 last.2).mpr (quiet last.1 last.2 runs)
      rw [stopped] at kept
      exact kept.trans (runs_memory quiet runs)
    refine ⟨fun next after runs => runs_memory quiet runs,unchanged,fun result returns => ?_⟩
    rw [unchanged result returns]
    exact returns

-- An operand of one byte at the address 1000 is pushed and inverted.
def invertedOperand : Program (encode [.pushExternal 1 1000,.call 8]) := .load (fun _ => 0) 0 _ (by decide)

theorem inverted_operand_changes :
    ((run predicateFns 3 0 (invertedOperand.start 64)).map fun result => (result.1,finalValue result.2,result.2.memory 6)) = some (.ok,some [23],23) ∧
      invertedOperand.memory 6 = 232 ∧
      ((run predicateFns 3 0 (invertedOperand.start 64)).bind fun first => run predicateFns 3 0 ⟨first.2.memory,⟨64,[]⟩⟩).map (fun result => finalValue result.2) =
        some (some [232]) := by
  decide

end MedvedDB.Vm
