import MedvedDB.VmValues

open MedvedDB.Binn
namespace MedvedDB.Vm

structure Literal extends Operand where
  filled : bytes ≠ []

inductive Expr where
  | literal (given : Literal)
  | compare (comparison : Comparison) (lhs rhs : Expr)
  | combine (combination : Combination) (lhs rhs : Expr)
  | not (operand : Expr)

structure Table where
  fns : List Op
  id : Op → UInt16
  found : ∀ op, fns[(id op).toNat]? = some op

def predicateTable : Table where
  fns := predicateFns
  id
    | .compare .equal => 0
    | .compare .notEqual => 1
    | .compare .greater => 2
    | .compare .greaterOrEqual => 3
    | .compare .less => 4
    | .compare .lessOrEqual => 5
    | .combine .and => 6
    | .combine .or => 7
    | .not => 8
  found op := by
    cases op with
    | compare comparison => cases comparison <;> rfl
    | combine combination => cases combination <;> rfl
    | not => rfl

def compile (table : Table) : Expr → List Instr
  | .literal given => [.push given.toOperand]
  | .compare comparison lhs rhs => compile table lhs ++ compile table rhs ++ [.call (table.id (.compare comparison))]
  | .combine combination lhs rhs => compile table lhs ++ compile table rhs ++ [.call (table.id (.combine combination))]
  | .not operand => compile table operand ++ [.call (table.id .not)]

-- The value of a tree. Operands of different lengths cannot be combined.
def Expr.eval : Expr → Option (List UInt8)
  | .literal given => some given.bytes
  | .compare comparison lhs rhs =>
    match lhs.eval,rhs.eval with
    | some one,some two => some [truth (comparison.holds one two)]
    | _,_ => none
  | .combine combination lhs rhs =>
    match lhs.eval,rhs.eval with
    | some one,some two => if one.length = two.length then some (List.zipWith combination.byte one two) else none
    | _,_ => none
  | .not operand => operand.eval.map (List.map (~~~ ·))

-- Some `and` or `or` of the tree has operands of different lengths.
def Expr.Clash : Expr → Prop
  | .literal _ => False
  | .compare _ lhs rhs => lhs.Clash ∨ rhs.Clash
  | .combine _ lhs rhs => lhs.Clash ∨ rhs.Clash ∨ ∃ one two, lhs.eval = some one ∧ rhs.eval = some two ∧ one.length ≠ two.length
  | .not operand => operand.Clash

lemma Expr.clash_of_none {expr : Expr} (none_ : expr.eval = none) : expr.Clash := by
  induction expr with
  | literal given => cases none_
  | compare comparison lhs rhs left right =>
    rw [eval] at none_
    cases one : lhs.eval with
    | none => exact .inl (left one)
    | some one_ =>
      cases two : rhs.eval with
      | none => exact .inr (right two)
      | some two_ =>
        rw [one,two] at none_
        cases none_
  | combine combination lhs rhs left right =>
    rw [eval] at none_
    cases one : lhs.eval with
    | none => exact .inl (left one)
    | some one_ =>
      cases two : rhs.eval with
      | none => exact .inr (.inl (right two))
      | some two_ =>
        rw [one,two] at none_
        dsimp only at none_
        refine .inr (.inr ⟨one_,two_,one,two,fun same => ?_⟩)
        rw [if_pos same] at none_
        cases none_
  | not operand ih =>
    rw [eval,Option.map_eq_none_iff] at none_
    exact ih none_

def Gives (value : Option (List UInt8)) (next : List UInt8 → Status × List (List UInt8)) (actual : Status × List (List UInt8)) : Prop :=
  match value with
  | some value => actual = next value
  | none => actual.1 = .invalidArg

lemma gives_some {next : List UInt8 → Status × List (List UInt8)} :
    Gives (some value) next actual ↔ actual = next value := Iff.rfl

-- The code computes the value, whatever follows it and lies below on the stack.
def Computes (fns : List Op) (code : List Instr) (value : Option (List UInt8)) : Prop :=
  ∀ rest values, Gives value (fun value => runValues fns rest (value::values)) (runValues fns (code ++ rest) values)

section Compiling

variable (table : Table)

lemma runValues_call (op : Op) (rest : List Instr) (values : List (List UInt8)) :
    runValues table.fns (.call (table.id op)::rest) values =
      if (apply op values).1 = .ok then runValues table.fns rest (apply op values).2 else apply op values := by
  rw [runValues,table.found]

lemma computes_binary (first : Computes fns left lhs) (second : Computes fns right rhs) (missing : lhs = none ∨ rhs = none → value = none)
    (called : ∀ one two, lhs = some one → rhs = some two → ∀ rest values,
      Gives value (fun value => runValues fns rest (value::values)) (runValues fns (call::rest) (two::one::values))) :
    Computes fns (left ++ right ++ [call]) value := by
  intro rest values
  have split : left ++ right ++ [call] ++ rest = left ++ (right ++ (call::rest)) := by simp
  have before := first (right ++ (call::rest)) values
  rw [split]
  cases lhs with
  | none =>
    rw [missing (.inl rfl)]
    exact before
  | some one =>
    have behind := second (call::rest) (one::values)
    rw [gives_some.mp before]
    cases rhs with
    | none =>
      rw [missing (.inr rfl)]
      exact behind
    | some two =>
      rw [gives_some.mp behind]
      exact called one two rfl rfl rest values

lemma compile_computes (expr : Expr) : Computes table.fns (compile table expr) expr.eval := by
  induction expr with
  | literal given =>
    intro rest values
    rfl
  | compare comparison lhs rhs left right =>
    refine computes_binary left right ?_ ?_
    · rintro (absent | absent)
      · simp [Expr.eval,absent]
      · cases lhs.eval <;> simp [Expr.eval,absent]
    · intro one two leftIs rightIs rest values
      rw [Expr.eval,leftIs,rightIs]
      exact runValues_call table (.compare comparison) rest (two::one::values)
  | combine combination lhs rhs left right =>
    refine computes_binary left right ?_ ?_
    · rintro (absent | absent)
      · simp [Expr.eval,absent]
      · cases lhs.eval <;> simp [Expr.eval,absent]
    · intro one two leftIs rightIs rest values
      have called := runValues_call table (.combine combination) rest (two::one::values)
      rw [apply] at called
      rw [Expr.eval,leftIs,rightIs]
      dsimp only
      by_cases same : one.length = two.length
      · rw [if_pos same] at called ⊢
        exact called
      · rw [if_neg same] at called ⊢
        exact congrArg Prod.fst called
  | not operand ih =>
    intro rest values
    have split : compile table (.not operand) ++ rest = compile table operand ++ (.call (table.id .not)::rest) := by simp [compile]
    have before := ih (.call (table.id .not)::rest) values
    rw [Expr.eval,split]
    cases value : operand.eval with
    | none =>
      rw [value] at before
      exact before
    | some inner =>
      rw [value,gives_some] at before
      exact before.trans (runValues_call table .not rest (inner::values))

lemma short_call {code : List Instr} (short : ∀ instr ∈ code, instr.Short) (id : UInt16) : ∀ instr ∈ code ++ [.call id], instr.Short :=
  List.forall_mem_append.mpr ⟨short,List.forall_mem_singleton.mpr trivial⟩

lemma compile_short (expr : Expr) : ∀ instr ∈ compile table expr, instr.Short := by
  induction expr with
  | literal given => exact List.forall_mem_singleton.mpr trivial
  | compare comparison lhs rhs left right => exact short_call (List.forall_mem_append.mpr ⟨left,right⟩) _
  | combine combination lhs rhs left right => exact short_call (List.forall_mem_append.mpr ⟨left,right⟩) _
  | not operand ih => exact short_call ih _

end Compiling

def Leaves (vm : State) (value : List UInt8) : Prop :=
  ∃ datum, vmStackPop vm.stack = (some datum,{vm.stack with bytes:=[]}) ∧ datum.data vm.memory = value

lemma Shows.leaves (shows : Shows vm.memory limit vm.stack.bytes [value]) : Leaves vm value := by
  obtain ⟨lower,front,datum,stack,inside,is,rest⟩ := shows.cons
  rw [rest.nil] at stack
  refine ⟨datum,?_,is⟩
  have popped : vmStackPop ⟨vm.stack.capacity,vm.stack.bytes⟩ = (some datum,⟨vm.stack.capacity,[]⟩) := by
    rw [stack]
    exact vmStackPop_item inside.whole
  exact popped

theorem expression_evaluated (table : Table) (expr : Expr) (program : Program (encode (compile table expr))) (capacity : Nat) :
    ∃ result, Returns table.fns program.address (program.start capacity) result ∧
      ((result.1 = .ok ∧ ∃ value, expr.eval = some value ∧ Leaves result.2 value) ∨ (result.1 = .invalidArg ∧ expr.Clash) ∨
        (result.1 = .stackOverflow ∧ capacity < space (compile table expr))) := by
  obtain ⟨result,returns,ends⟩ := program.ends table.fns (compile_short table expr) capacity
  have computes := compile_computes table expr [] []
  rw [append_nil] at computes
  refine ⟨result,returns,?_⟩
  rcases ends with ⟨overflow,short⟩ | ⟨status,limit,shows⟩
  · exact .inr (.inr ⟨overflow,by rwa [Program.start,length_nil,Nat.zero_add] at short⟩)
  · cases value : expr.eval with
    | none =>
      rw [value] at computes
      exact .inr (.inl ⟨status.trans computes,Expr.clash_of_none value⟩)
    | some final =>
      rw [value,gives_some] at computes
      rw [computes] at status shows
      exact .inl ⟨status,final,rfl,shows.leaves⟩

example :
    let less (lhs rhs : Literal) : Expr := .compare .less (.literal lhs) (.literal rhs)
    let expr : Expr := .combine .and (less ⟨⟨[97],by decide⟩,by decide⟩ ⟨⟨[97,98],by decide⟩,by decide⟩)
      (.not (less ⟨⟨[98],by decide⟩,by decide⟩ ⟨⟨[97],by decide⟩,by decide⟩))
    (run predicateFns 10 0 ⟨Memory.write (fun _ => 0) 0 (encode (compile predicateTable expr)),⟨64,[]⟩⟩).map (fun result => (result.1,result.2.stack.bytes)) =
      some (.ok,[255,1,0,0,0,0]) := by
  decide

end MedvedDB.Vm
