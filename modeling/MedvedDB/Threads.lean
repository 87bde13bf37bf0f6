import MedvedDB.Machine

namespace MedvedDB.Threads

variable {σ τ α γ : Type}

-- Threads over a shared state: a call starts one, unless it is over at once, and
-- each atomic step of a thread may be its last. What the surroundings decide at a
-- step is its choice.
structure System (σ τ α γ : Type) where
  enter : σ → α → Option (Option τ × σ)
  proceed : σ → τ → γ → Option (Option τ × σ)

structure Pool (σ τ : Type) where
  shared : σ
  threads : List τ

inductive Action (α γ : Type) where
  | enter (call : α)
  | proceed (index : Nat) (choice : γ)
  deriving DecidableEq, Repr

def replaced (threads : List τ) (index : Nat) (thread : Option τ) : List τ := threads.take index ++ thread.toList ++ threads.drop (index + 1)

def step (system : System σ τ α γ) (pool : Pool σ τ) : Action α γ → Option (Pool σ τ)
  | .enter call => (system.enter pool.shared call).map fun entered => ⟨entered.2,pool.threads ++ entered.1.toList⟩
  | .proceed index choice =>
    match pool.threads[index]? with
    | none => none
    | some thread => (system.proceed pool.shared thread choice).map fun moved => ⟨moved.2,replaced pool.threads index moved.1⟩

lemma step_cases (moved : step system pool action = some next) :
    (∃ call thread, action = .enter call ∧ system.enter pool.shared call = some (thread,next.shared) ∧
      next.threads.Perm (thread.toList ++ pool.threads)) ∨
    ∃ index choice thread after others, action = .proceed index choice ∧ pool.threads[index]? = some thread ∧ pool.threads.Perm (thread::others) ∧
      system.proceed pool.shared thread choice = some (after,next.shared) ∧ next.threads.Perm (after.toList ++ others) := by
  cases action with
  | enter call =>
    obtain ⟨⟨thread,shared⟩,entered,rfl⟩ := map_eq_some_iff.mp moved
    exact .inl ⟨call,thread,rfl,entered,List.perm_append_comm⟩
  | proceed index choice =>
    unfold step at moved
    cases found : pool.threads[index]? with
    | none =>
      simp only [found] at moved
      cases moved
    | some thread =>
      simp only [found] at moved
      obtain ⟨⟨after,shared⟩,went,rfl⟩ := map_eq_some_iff.mp moved
      obtain ⟨inside,is⟩ := List.getElem?_eq_some_iff.mp found
      refine .inr ⟨index,choice,thread,after,pool.threads.take index ++ pool.threads.drop (index + 1),rfl,found,?_,went,?_⟩
      · have whole : pool.threads = pool.threads.take index ++ thread::pool.threads.drop (index + 1) := by
          rw [← is,List.getElem_cons_drop,take_append_drop]
        exact (List.Perm.of_eq whole).trans perm_middle
      · rw [replaced,append_assoc]
        exact List.perm_append_comm_assoc _ _ _

lemma step_single (went : system.proceed shared thread choice = some (after,next)) : step system ⟨shared,[thread]⟩ (.proceed 0 choice) = some ⟨next,after.toList⟩ := by
  simp only [step,List.getElem?_cons_zero,went,map_some,replaced,List.take_zero,nil_append,Nat.zero_add,List.drop_succ_cons,List.drop_nil,append_nil]

lemma mem_of_rest {threads others : List τ} {thread other : τ} (before : threads.Perm (thread::others)) (member : other ∈ others) : other ∈ threads :=
  before.mem_iff.mpr (mem_cons_of_mem thread member)

lemma mem_of_first {threads others : List τ} {thread : τ} (before : threads.Perm (thread::others)) : thread ∈ threads :=
  before.mem_iff.mpr mem_cons_self

section Gathering

variable {β : Type}

def gathered (holds : τ → Option β) (threads : List τ) : Multiset β := Multiset.ofList (threads.filterMap holds)

variable {holds : τ → Option β}

lemma gathered_perm (order : one.Perm two) : gathered holds one = gathered holds two :=
  Multiset.coe_eq_coe.mpr (order.filterMap holds)

lemma gathered_cons (holds : τ → Option β) (thread : τ) (others : List τ) :
    gathered holds (thread::others) = Multiset.ofList (holds thread).toList + gathered holds others := by
  rw [gathered,List.filterMap_cons]
  cases holds thread <;> rfl

lemma gathered_append (holds : τ → Option β) (thread : Option τ) (others : List τ) :
    gathered holds (thread.toList ++ others) = Multiset.ofList (thread.bind holds).toList + gathered holds others := by
  cases thread with
  | none => exact (zero_add _).symm
  | some thread => exact gathered_cons holds thread others

@[simp] lemma gathered_nil (holds : τ → Option β) : gathered holds [] = 0 := rfl

lemma gathered_eq_zero (empty : ∀ thread ∈ threads, holds thread = none) : gathered holds threads = 0 := by
  rw [gathered,List.filterMap_eq_nil_iff.mpr empty]
  rfl

lemma mem_gathered :
    value ∈ gathered holds threads ↔ ∃ thread ∈ threads, holds thread = some value := by
  rw [gathered,Multiset.mem_coe,mem_filterMap]

end Gathering

end MedvedDB.Threads
