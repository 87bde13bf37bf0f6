import MedvedDB.Lmdb

open MedvedDB.Lmdb
namespace MedvedDB.Trlog

-- The two maps of a log storage: TRLOG with the operations by id, APPLIED
-- with the persisted position under one key.
structure LogStorage (ω : Type) where
  trlog : Option (KeyMap Nat ω)
  applied : Option (KeyMap Nat Nat)

structure Log (ω : Type) where
  storage : LogStorage ω
  top : Nat
  applied : Nat

variable {ω τ : Type}

def trlogMap : MapName (LogStorage ω) Nat ω :=
  ⟨fun storage => storage.trlog,fun map storage => {storage with trlog:=some map},
    fun _ _ => rfl,fun found => by rw [← found]⟩
def appliedMap : MapName (LogStorage ω) Nat Nat :=
  ⟨fun storage => storage.applied,fun map storage => {storage with applied:=some map},
    fun _ _ => rfl,fun found => by rw [← found]⟩

def fresh : LogStorage ω := ⟨none,none⟩

def appliedPosKey : Nat := 0

structure InitCalls where
  start : Bool := true
  trlog : Bool := true
  last : Bool := true
  applied : Bool := true
  get : Bool := true

def init (calls : InitCalls) (storage : LogStorage ω) : Log ω :=
  match transactionStart calls.start storage with
  | none => ⟨storage,0,0⟩
  | some txn =>
    let top := match mapOpen calls.trlog false trlogMap txn with
      | none => 0
      | some txn => match cursorLast calls.last trlogMap txn with
        | none => 0
        | some key => key + 1
    let applied := match mapOpen calls.applied false appliedMap txn with
      | none => 0
      | some txn => ((mapGet calls.get appliedMap txn appliedPosKey).1).getD 0
    ⟨storage,top,applied⟩

def newId (log : Log ω) : Nat × Log ω := (log.top,{log with top:=log.top + 1})
def idMaximize (top id : Nat) : Nat := if id + 1 > top then id + 1 else top

structure PosCalls where
  start : Bool := true
  applied : Bool := true
  put : Bool := true
  commit : Bool := true

def appliedPosSet (calls : PosCalls) (log : Log ω) (pos : Nat) : Log ω :=
  let log := {log with applied:=pos}
  match transactionStart calls.start log.storage with
  | none => log
  | some txn =>
  match mapOpen calls.applied true appliedMap txn with
  | none => log
  | some txn =>
  match mapPut calls.put appliedMap txn appliedPosKey pos with
  | (true,txn) => {log with storage:=(transactionCommit calls.commit txn log.storage).2}
  | (false,_) => log

structure AddCalls where
  start : Bool := true
  trlog : Bool := true
  puts : Nat → Bool := fun _ => true
  commit : Bool := true

-- The loop over the received entries. The top is raised for each stored entry
-- at once, not after the commit.
def addLoop (puts : Nat → Bool) (txn : Txn (LogStorage ω)) (top : Nat) (changed : Bool) (index : Nat) :
    List (Nat × ω) → Txn (LogStorage ω) × Nat × Bool
  | [] => (txn,top,changed)
  | (id,op)::rest =>
    match mapPutUnique (puts index) trlogMap txn id op with
    | (true,txn) => addLoop puts txn (idMaximize top id) true (index + 1) rest
    | (false,txn) => addLoop puts txn top changed (index + 1) rest

lemma addLoop_cons (puts : Nat → Bool) (txn : Txn (LogStorage ω)) (top : Nat) (changed : Bool) (index id : Nat)
    (op : ω) (rest : List (Nat × ω)) :
    let put := mapPutUnique (puts index) trlogMap txn id op
    addLoop puts txn top changed index ((id,op)::rest) =
      addLoop puts put.2 (if put.1 then idMaximize top id else top) (put.1 || changed) (index + 1) rest := by
  simp only [addLoop]
  split
  · rename_i after put
    simp [put]
  · rename_i after put
    simp [put]

structure Added (ω : Type) where
  returned : Bool
  notified : Bool
  log : Log ω

def add (calls : AddCalls) (log : Log ω) (ops : List (Nat × ω)) : Added ω :=
  match transactionStart calls.start log.storage with
  | none => ⟨false,false,log⟩
  | some txn =>
  match mapOpen calls.trlog true trlogMap txn with
  | none => ⟨false,false,log⟩
  | some txn =>
    let (txn,top,changed) := addLoop calls.puts txn log.top false 0 ops
    match transactionCommit calls.commit txn log.storage with
    | (false,storage) => ⟨false,false,{log with storage:=storage,top:=top}⟩
    | (true,storage) => ⟨true,changed,{log with storage:=storage,top:=top}⟩

structure AddOpCalls where
  start : Bool := true
  trlog : Bool := true
  put : Bool := true
  commit : Bool := true

def addOp (calls : AddOpCalls) (log : Log ω) (op : ω) : Added ω :=
  match transactionStart calls.start log.storage with
  | none => ⟨false,false,log⟩
  | some txn =>
  match mapOpen calls.trlog true trlogMap txn with
  | none => ⟨false,false,log⟩
  | some txn =>
    let (id,log) := newId log
    match mapPutUnique calls.put trlogMap txn id op with
    | (false,_) => ⟨false,false,log⟩
    | (true,txn) =>
    match transactionCommit calls.commit txn log.storage with
    | (false,storage) => ⟨false,false,{log with storage:=storage}⟩
    | (true,storage) => ⟨true,true,{log with storage:=storage}⟩

-- `items n` says that entry number n is fetched by the cursor and copied.
structure ReadCalls where
  start : Bool := true
  trlog : Bool := true
  cursor : Bool := true
  items : Nat → Bool := fun _ => true

-- The count is compared after the entry was taken, so one entry is read even
-- when `size` is zero.
def readLoop (items : Nat → Bool) (size n : Nat) : List (Nat × ω) → List (Nat × ω)
  | [] => []
  | entry::rest =>
    if !items n then []
    else if n + 1 ≥ size then [entry]
    else entry::readLoop items size (n + 1) rest

def read (calls : ReadCalls) (storage : LogStorage ω) (pos size : Nat) : List (Nat × ω) :=
  match transactionStart calls.start storage with
  | none => []
  | some txn =>
  match mapOpen calls.trlog false trlogMap txn with
  | none => []
  | some txn => readLoop calls.items size 0 (cursorFrom calls.cursor trlogMap txn pos)

def rangeLoop (items : Nat → Bool) (upper n : Nat) : List (Nat × ω) → List (Nat × ω)
  | [] => []
  | (id,op)::rest =>
    if id ≥ upper then []
    else if !items n then []
    else (id,op)::rangeLoop items upper (n + 1) rest

def rangeRead (calls : ReadCalls) (storage : LogStorage ω) (lower upper : Nat) : List (Nat × ω) :=
  match transactionStart calls.start storage with
  | none => []
  | some txn =>
  match mapOpen calls.trlog false trlogMap txn with
  | none => []
  | some txn => rangeLoop calls.items upper 0 (cursorFrom calls.cursor trlogMap txn lower)

structure ApplyCalls where
  read : ReadCalls := {}
  pos : PosCalls := {}

-- The apply function may keep a state of its own, `τ`.
def applyLoop (fn : τ → ω → Bool × τ) (arg : τ) (newPos n : Nat) : List (Nat × ω) → τ × Nat × Nat
  | [] => (arg,newPos,n)
  | (id,op)::rest =>
    match fn arg op with
    | (false,arg) => (arg,newPos,n)
    | (true,arg) => applyLoop fn arg (id + 1) (n + 1) rest

def apply (calls : ApplyCalls) (fn : τ → ω → Bool × τ) (batchSize : Nat) (arg : τ) (log : Log ω) :
    Nat × τ × Log ω :=
  if log.applied ≥ log.top then (0,arg,log)
  else
    let ops := read calls.read log.storage log.applied batchSize
    if ops.length = 0 then (0,arg,log)
    else
      let (arg,newPos,n) := applyLoop fn arg log.applied 0 ops
      if n = 0 then (0,arg,log) else (n,arg,appliedPosSet calls.pos log newPos)

def entries (storage : LogStorage ω) : KeyMap Nat ω := storage.trlog.getD .empty
def stored (storage : LogStorage ω) (id : Nat) : Option ω := (entries storage).find id

lemma init_working (storage : LogStorage ω) :
    init {} storage = ⟨storage,((entries storage).lastKey.map (· + 1)).getD 0,
      ((storage.applied.getD .empty).find appliedPosKey).getD 0⟩ := by
  obtain ⟨trlog,applied⟩ := storage
  cases trlog with
  | none => cases applied <;> rfl
  | some map =>
    have top : (match map.lastKey with | none => 0 | some key => key + 1) = (map.lastKey.map (· + 1)).getD 0 := by
      cases map.lastKey <;> rfl
    cases applied with
    | none => exact congrArg (fun top => Log.mk _ top 0) top
    | some positions => exact congrArg (fun top => Log.mk _ top ((positions.find appliedPosKey).getD 0)) top

variable {calls : ApplyCalls} {list : List (Nat × ω)} {log : Log ω} {storage work : LogStorage ω} {id : Nat} {fn : τ → ω → Bool × τ}

lemma trlog_found (found : trlogMap.content work = some map) : entries work = map := by
  change work.trlog = some map at found
  simp [entries,found]

-- What the loop of mdv_trlog_add does to the entries of its transaction:
-- nothing stored changes, and what is new comes from the batch.
structure Extends (before after : LogStorage ω) (ops : List (Nat × ω)) : Prop where
  kept : ∀ {id op}, stored before id = some op → stored after id = some op
  source : ∀ {id op}, stored after id = some op → stored before id = some op ∨ (id,op) ∈ ops
  position : after.applied = before.applied

lemma Extends.refl (storage : LogStorage ω) (ops : List (Nat × ω)) : Extends storage storage ops :=
  ⟨fun found => found,.inl,rfl⟩

lemma Extends.trans (first : Extends one two ops)
    (second : Extends two three more) : Extends one three (ops ++ more) where
  kept found := second.kept (first.kept found)
  source found := by
    rcases second.source found with middle | fresh
    · exact (first.source middle).imp_right (mem_append_left _)
    · exact .inr (mem_append_right _ fresh)
  position := second.position.trans first.position

lemma stored_replace (work : LogStorage ω) (map : KeyMap Nat ω) (id other : Nat) (op : ω) :
    stored (trlogMap.replace (map.insert id op) work) other = if other = id then some op else map.find other :=
  KeyMap.find_insert map id other op

lemma extends_insert (found : trlogMap.content work = some map)
    (missing : map.find id = none) (op : ω) :
    Extends work (trlogMap.replace (map.insert id op) work) [(id,op)] where
  kept := by
    intro other value
    rw [stored_replace,stored,trlog_found found]
    intro old
    split
    · rename_i same
      rw [same,missing] at old
      cases old
    · exact old
  source := by
    intro other value
    rw [stored_replace,stored,trlog_found found]
    intro now
    split at now
    · rename_i same
      cases now
      exact .inr (by simp [same])
    · exact .inl now
  position := rfl

def Bounded (storage : LogStorage ω) (top : Nat) : Prop := ∀ id op, stored storage id = some op → id < top

lemma init_bounded (storage : LogStorage ω) : Bounded storage (init {} storage).top := by
  intro id op held
  obtain ⟨last,found,above⟩ := KeyMap.lastKey_bound held
  rw [init_working]
  simpa [found] using Nat.lt_succ_of_le above

lemma idMaximize_bounds (top id : Nat) : top ≤ idMaximize top id ∧ id < idMaximize top id := by
  unfold idMaximize
  split <;> omega

lemma bounded_insert (found : trlogMap.content work = some map)
    (bounded : Bounded work top) (op : ω) :
    Bounded (trlogMap.replace (map.insert id op) work) (idMaximize top id) := by
  intro other value held
  have limits := idMaximize_bounds top id
  rw [stored_replace] at held
  split at held
  · omega
  · rw [← trlog_found found] at held
    exact (bounded other value held).trans_le limits.1

lemma addLoop_extends (puts : Nat → Bool) (txn : Txn (LogStorage ω)) (top : Nat) (changed : Bool)
    (index : Nat) (ops : List (Nat × ω)) :
    Extends txn.work (addLoop puts txn top changed index ops).1.work ops ∧
      top ≤ (addLoop puts txn top changed index ops).2.1 ∧
      (Bounded txn.work top →
        Bounded (addLoop puts txn top changed index ops).1.work (addLoop puts txn top changed index ops).2.1) := by
  induction ops generalizing txn top changed index with
  | nil => exact ⟨.refl _ _,le_refl _,fun bounded => bounded⟩
  | cons entry rest ih =>
    obtain ⟨id,op⟩ := entry
    unfold addLoop
    split
    · rename_i after put
      obtain ⟨impossible,_⟩ | ⟨_,map,found,missing,rfl⟩ := putUnique_cases put
      · cases impossible
      obtain ⟨extended,higher,bound⟩ := ih {txn with work:=trlogMap.replace (map.insert id op) txn.work}
        (idMaximize top id) true (index + 1)
      exact ⟨(extends_insert found missing op).trans extended,(idMaximize_bounds top id).1.trans higher,
        fun bounded => bound (bounded_insert found bounded op)⟩
    · rename_i after put
      obtain ⟨_,same⟩ | ⟨impossible,_⟩ := putUnique_cases put
      · obtain ⟨extended,higher,bound⟩ := ih after top changed (index + 1)
        rw [same] at extended bound
        exact ⟨(Extends.refl txn.work [(id,op)]).trans extended,higher,bound⟩
      · cases impossible

lemma stored_opened (storage : LogStorage ω) :
    Extends storage (trlogMap.replace ((trlogMap.content storage).getD .empty) storage) [] where
  kept found := found
  source found := .inl found
  position := rfl

lemma add_eq (calls : AddCalls) (log : Log ω) (ops : List (Nat × ω)) :
    let loop := addLoop calls.puts (running (trlogMap.replace (entries log.storage) log.storage)) log.top false 0 ops
    let done := transactionCommit calls.commit loop.1 log.storage
    add calls log ops =
      if calls.start && calls.trlog then
        ⟨done.1,done.1 && loop.2.2,{log with storage:=done.2,top:=loop.2.1}⟩
      else ⟨false,false,log⟩ := by
  unfold add
  cases calls.start with
  | false => rfl
  | true =>
    cases calls.trlog with
    | false => rfl
    | true =>
      have content : (trlogMap.content log.storage).getD .empty = entries log.storage := rfl
      simp only [start_eq,open_create,if_true,Bool.and_self,content]
      split
      · rename_i undone
        simp [undone]
      · rename_i done
        simp [done]

-- Whatever fails inside, an add call never touches an entry that is there,
-- stores nothing but entries of its batch and keeps the top above all ids.
lemma add_extends (calls : AddCalls) (log : Log ω) (ops : List (Nat × ω)) :
    Extends log.storage (add calls log ops).log.storage ops ∧ log.top ≤ (add calls log ops).log.top ∧
      (add calls log ops).log.applied = log.applied ∧
      (Bounded log.storage log.top → Bounded (add calls log ops).log.storage (add calls log ops).log.top) := by
  unfold add
  cases calls.start with
  | false => exact ⟨.refl _ _,le_refl _,rfl,fun bounded => bounded⟩
  | true =>
    cases calls.trlog with
    | false => exact ⟨.refl _ _,le_refl _,rfl,fun bounded => bounded⟩
    | true =>
      simp only [start_eq,open_create,if_true]
      have opened := stored_opened log.storage
      have grows := addLoop_extends calls.puts
        (running (trlogMap.replace ((trlogMap.content log.storage).getD .empty) log.storage)) log.top false 0 ops
      generalize addLoop calls.puts
        (running (trlogMap.replace ((trlogMap.content log.storage).getD .empty) log.storage)) log.top false 0 ops =
          result at grows
      obtain ⟨txn,top,changed⟩ := result
      obtain ⟨extended,higher,bound⟩ := grows
      split
      · rename_i after undone
        rw [commit_failed undone]
        exact ⟨.refl _ _,higher,rfl,fun bounded id op held => (bounded id op held).trans_le higher⟩
      · rename_i after done
        rw [(commit_cases done).2]
        exact ⟨opened.trans extended,higher,rfl,fun bounded => bound fun id op held => bounded id op held⟩

def appended (storage : LogStorage ω) (id : Nat) (op : ω) : LogStorage ω :=
  {storage with trlog:=some ((entries storage).insert id op)}

@[simp] lemma stored_appended (storage : LogStorage ω) (id other : Nat) (op : ω) :
    stored (appended storage id op) other = if other = id then some op else stored storage other :=
  KeyMap.find_insert (entries storage) id other op

lemma addOp_eq (calls : AddOpCalls) (log : Log ω) (op : ω) :
    addOp calls log op =
      if calls.start && calls.trlog then
        if calls.put && calls.commit && (stored log.storage log.top).isNone then
          ⟨true,true,{log with storage:=appended log.storage log.top op,top:=log.top + 1}⟩
        else ⟨false,false,{log with top:=log.top + 1}⟩
      else ⟨false,false,log⟩ := by
  unfold addOp
  cases calls.start with
  | false => rfl
  | true =>
    cases calls.trlog with
    | false => rfl
    | true =>
      have content : trlogMap.content (trlogMap.replace ((trlogMap.content log.storage).getD .empty) log.storage) =
        some (entries log.storage) := rfl
      simp only [start_eq,open_create,if_true,newId,putUnique_running _ _ _ content]
      cases calls.put with
      | false => simp
      | true =>
        cases found : stored log.storage log.top with
        | some old =>
          have held : (entries log.storage).find log.top = some old := found
          simp [held]
        | none =>
          have free : (entries log.storage).find log.top = none := found
          cases calls.commit with
          | false => simp [free]
          | true =>
            simp only [free,isSome_none,false_eq_true,if_false,if_true,commit_running]
            rfl

-- A log that was opened on an empty storage and modified by these calls keeps
-- every id below its top, so the id a new operation takes is always free.
lemma Bounded.free (bounded : Bounded storage top) : stored storage top = none := by
  cases held : stored storage top with
  | none => rfl
  | some op => exact absurd (bounded top op held) (lt_irrefl _)

lemma bounded_appended (bounded : Bounded storage top) (op : ω) :
    Bounded (appended storage top op) (top + 1) := by
  intro id value held
  rw [stored_appended] at held
  split at held
  · omega
  · exact (bounded id value held).trans (lt_succ_self top)

lemma addOp_extends (calls : AddOpCalls) (log : Log ω) (op : ω) (bounded : Bounded log.storage log.top) :
    Extends log.storage (addOp calls log op).log.storage [(log.top,op)] ∧ log.top ≤ (addOp calls log op).log.top ∧
      (addOp calls log op).log.applied = log.applied ∧
      Bounded (addOp calls log op).log.storage (addOp calls log op).log.top := by
  rw [addOp_eq]
  split
  · split
    · refine ⟨⟨?_,?_,rfl⟩,le_succ _,rfl,bounded_appended bounded op⟩
      · intro id value held
        have below := bounded id value held
        rw [stored_appended,if_neg below.ne]
        exact held
      · intro id value held
        rw [stored_appended] at held
        split at held
        · rename_i same
          cases held
          exact .inr (by simp [same])
        · exact .inl held
    · exact ⟨.refl _ _,le_succ _,rfl,fun id value held => (bounded id value held).trans (lt_succ_self _)⟩
  · exact ⟨.refl _ _,le_refl _,rfl,bounded⟩

lemma readLoop_front (items : Nat → Bool) (size n : Nat) (list : List (Nat × ω)) :
    ∃ rest, list = readLoop items size n list ++ rest := by
  induction list generalizing n with
  | nil => exact ⟨[],rfl⟩
  | cons entry tail ih =>
    unfold readLoop
    split
    · exact ⟨entry::tail,rfl⟩
    · split
      · exact ⟨tail,rfl⟩
      · obtain ⟨rest,shape⟩ := ih (n + 1)
        exact ⟨rest,congrArg (entry::·) shape⟩

lemma readLoop_short (size n : Nat) (list : List (Nat × ω)) :
    readLoop (fun _ => true) size n list = list ∨
      size ≤ n + (readLoop (fun _ => true) size n list).length := by
  induction list generalizing n with
  | nil => exact .inl rfl
  | cons entry tail ih =>
    simp only [readLoop,Bool.not_true,false_eq_true,if_false]
    split
    · exact .inr (by simpa using ‹n + 1 ≥ size›)
    · rcases ih (n + 1) with whole | many
      · exact .inl (by rw [whole])
      · refine .inr ?_
        rw [length_cons]
        omega

lemma read_front (calls : ReadCalls) (storage : LogStorage ω) (pos size : Nat) :
    ∃ rest, (entries storage).walkFrom pos = read calls storage pos size ++ rest := by
  unfold read
  cases calls.start with
  | false => exact ⟨_,rfl⟩
  | true =>
    simp only [start_eq,if_true,open_existing]
    cases calls.trlog with
    | false => exact ⟨_,rfl⟩
    | true =>
      obtain ⟨trlog,applied⟩ := storage
      cases trlog with
      | none => exact ⟨_,rfl⟩
      | some map =>
        cases calls.cursor with
        | false => exact ⟨_,rfl⟩
        | true => exact readLoop_front calls.items size 0 _

lemma read_working (storage : LogStorage ω) (pos size : Nat) :
    read {} storage pos size = readLoop (fun _ => true) size 0 ((entries storage).walkFrom pos) := by
  obtain ⟨trlog,applied⟩ := storage
  cases trlog <;> rfl

lemma rangeLoop_mem (member : entry ∈ rangeLoop items upper n list) :
    entry ∈ list ∧ entry.1 < upper := by
  induction list generalizing n with
  | nil => cases member
  | cons head rest ih =>
    obtain ⟨id,op⟩ := head
    simp only [rangeLoop] at member
    split at member
    · cases member
    · rename_i below
      split at member
      · cases member
      · rcases mem_cons.mp member with rfl | later
        · exact ⟨mem_cons_self,not_le.mp below⟩
        · exact ⟨mem_cons_of_mem _ (ih later).1,(ih later).2⟩

lemma rangeRead_mem {calls : ReadCalls}
    (member : (id,op) ∈ rangeRead calls storage lower upper) : stored storage id = some op ∧ lower ≤ id ∧ id < upper := by
  obtain ⟨trlog,applied⟩ := storage
  unfold rangeRead at member
  cases starts : calls.start with
  | false => simp [starts] at member
  | true =>
    cases opens : calls.trlog with
    | false => simp [starts,opens] at member
    | true =>
      cases trlog with
      | none => simp [starts,opens,trlogMap] at member
      | some map =>
        simp only [starts,opens,start_eq,if_true,open_existing] at member
        obtain ⟨listed,below⟩ := rangeLoop_mem member
        cases moves : calls.cursor with
        | false => simp [cursorFrom,moves] at listed
        | true =>
          have walked : (id,op) ∈ map.walkFrom lower := by
            simpa [cursorFrom,moves,Txn.usable,trlogMap] using listed
          obtain ⟨held,above⟩ := KeyMap.mem_walkFrom.mp walked
          exact ⟨held,above,below⟩

lemma rangeLoop_whole (ordered : list.Pairwise fun one two => one.1 < two.1)
    (member : entry ∈ list) (below : entry.1 < upper) : entry ∈ rangeLoop (fun _ => true) upper n list := by
  induction list generalizing n with
  | nil => cases member
  | cons head rest ih =>
    obtain ⟨above,tail⟩ := pairwise_cons.mp ordered
    obtain ⟨id,op⟩ := head
    have inside : ¬ id ≥ upper := by
      rcases mem_cons.mp member with rfl | later
      · exact not_le.mpr below
      · exact not_le.mpr ((above entry later).trans below)
    simp only [rangeLoop,inside,if_false,Bool.not_true,false_eq_true]
    rcases mem_cons.mp member with rfl | later
    · exact mem_cons_self
    · exact mem_cons_of_mem _ (ih tail later)

lemma rangeRead_whole (held : stored storage id = some op) (above : lower ≤ id)
    (below : id < upper) : (id,op) ∈ rangeRead {} storage lower upper := by
  obtain ⟨trlog,applied⟩ := storage
  cases trlog with
  | none => cases held
  | some map => exact rangeLoop_whole (map.walkFrom_sorted lower) (KeyMap.mem_walkFrom.mpr ⟨held,above⟩) below

-- The entries the apply function accepts are the ones before its first
-- refusal; `absorbs` is the state it ends in, `position` where the log stands.
def absorbs (fn : τ → ω → Bool × τ) (arg : τ) : List (Nat × ω) → τ
  | [] => arg
  | (_,op)::rest =>
    match fn arg op with
    | (false,arg) => arg
    | (true,arg) => absorbs fn arg rest

def accepts (fn : τ → ω → Bool × τ) (arg : τ) : List (Nat × ω) → List (Nat × ω)
  | [] => []
  | (id,op)::rest =>
    match fn arg op with
    | (false,_) => []
    | (true,arg) => (id,op)::accepts fn arg rest

def position (pos : Nat) (accepted : List (Nat × ω)) : Nat := accepted.foldl (fun _ entry => entry.1 + 1) pos

lemma accepts_front (fn : τ → ω → Bool × τ) (arg : τ) (list : List (Nat × ω)) :
    ∃ rest, list = accepts fn arg list ++ rest := by
  induction list generalizing arg with
  | nil => exact ⟨[],rfl⟩
  | cons entry tail ih =>
    unfold accepts
    split
    · exact ⟨entry::tail,rfl⟩
    · rename_i next _
      obtain ⟨rest,shape⟩ := ih next
      exact ⟨rest,congrArg (entry::·) shape⟩

def trail (fn : τ → ω → Bool × τ) (arg : τ) : List (Nat × ω) → List (τ × (Nat × ω) × τ)
  | [] => []
  | (id,op)::rest =>
    match fn arg op with
    | (false,_) => []
    | (true,after) => (arg,(id,op),after)::trail fn after rest

lemma trail_entries (fn : τ → ω → Bool × τ) (arg : τ) (list : List (Nat × ω)) :
    (trail fn arg list).map (fun step => step.2.1) = accepts fn arg list := by
  induction list generalizing arg with
  | nil => rfl
  | cons entry rest ih =>
    unfold trail accepts
    split
    · rfl
    · simp [ih]

lemma trail_step
    (member : (before,entry,after) ∈ trail fn arg list) : fn before entry.2 = (true,after) := by
  induction list generalizing arg with
  | nil => cases member
  | cons head rest ih =>
    unfold trail at member
    split at member
    · cases member
    · rename_i answer
      rcases mem_cons.mp member with same | later
      · cases same
        exact answer
      · exact ih later

lemma absorbs_lasting {holds : τ → Prop}
    (kept : ∀ state op, holds state → holds (fn state op).2) (list : List (Nat × ω)) (held : holds arg) :
    holds (absorbs fn arg list) := by
  induction list generalizing arg with
  | nil => exact held
  | cons head rest ih =>
    have next := kept arg head.2 held
    unfold absorbs
    split
    · rename_i answer
      rwa [answer] at next
    · rename_i answer
      rw [answer] at next
      exact ih next

lemma trail_lasting {holds : τ → Prop}
    (kept : ∀ state op, holds state → holds (fn state op).2)
    (member : (before,entry,after) ∈ trail fn arg list) (held : holds after) : holds (absorbs fn arg list) := by
  induction list generalizing arg with
  | nil => cases member
  | cons head rest ih =>
    unfold trail at member
    unfold absorbs
    split at member
    · cases member
    · rcases mem_cons.mp member with same | later
      · cases same
        exact absorbs_lasting kept rest held
      · exact ih later

lemma applyLoop_accepts (fn : τ → ω → Bool × τ) (arg : τ) (pos n : Nat) (list : List (Nat × ω)) :
    applyLoop fn arg pos n list =
      (absorbs fn arg list,position pos (accepts fn arg list),n + (accepts fn arg list).length) := by
  induction list generalizing arg pos n with
  | nil => rfl
  | cons entry tail ih =>
    obtain ⟨id,op⟩ := entry
    unfold applyLoop absorbs accepts
    split
    · rfl
    · rename_i next _
      rw [ih,length_cons,Nat.add_assoc,Nat.add_comm 1]
      rfl

lemma position_split {front rest : List (Nat × ω)}
    (ordered : (front ++ rest).Pairwise fun one two => one.1 < two.1) (above : ∀ entry ∈ front ++ rest, pos ≤ entry.1) :
    pos ≤ position pos front ∧ (∀ entry ∈ front, entry.1 < position pos front) ∧
      ∀ entry ∈ rest, position pos front ≤ entry.1 := by
  induction front generalizing pos with
  | nil => exact ⟨le_refl _,by simp,above⟩
  | cons head tail ih =>
    obtain ⟨first,later⟩ := pairwise_cons.mp ordered
    have next : ∀ entry ∈ tail ++ rest, head.1 + 1 ≤ entry.1 := fun entry member => first entry member
    obtain ⟨grown,inside,outside⟩ := ih later next
    have start := above head mem_cons_self
    refine ⟨?_,?_,outside⟩
    · change pos ≤ position (head.1 + 1) tail
      omega
    · intro entry member
      change entry.1 < position (head.1 + 1) tail
      rcases mem_cons.mp member with rfl | deeper
      · omega
      · exact inside entry deeper

lemma position_le (before : pos ≤ top) (below : ∀ entry ∈ list, entry.1 < top) :
    position pos list ≤ top := by
  induction list generalizing pos with
  | nil => exact before
  | cons head tail ih =>
    exact ih (below head mem_cons_self) (fun entry member => below entry (mem_cons_of_mem _ member))

def taken (calls : ApplyCalls) (fn : τ → ω → Bool × τ) (batchSize : Nat) (arg : τ) (log : Log ω) : List (Nat × ω) :=
  if log.applied ≥ log.top then [] else accepts fn arg (read calls.read log.storage log.applied batchSize)

def passed (calls : ApplyCalls) (fn : τ → ω → Bool × τ) (batchSize : Nat) (arg : τ) (log : Log ω) :
    List (τ × (Nat × ω) × τ) :=
  if log.applied ≥ log.top then [] else trail fn arg (read calls.read log.storage log.applied batchSize)

lemma passed_entries (calls : ApplyCalls) (fn : τ → ω → Bool × τ) (batchSize : Nat) (arg : τ) (log : Log ω) :
    (passed calls fn batchSize arg log).map (fun step => step.2.1) = taken calls fn batchSize arg log := by
  unfold passed taken
  split
  · rfl
  · exact trail_entries fn arg _

lemma appliedPosSet_cases (calls : PosCalls) (log : Log ω) (pos : Nat) :
    ∃ persisted, appliedPosSet calls log pos = {log with applied:=pos,storage:={log.storage with applied:=persisted}} ∧
      (persisted = log.storage.applied ∨
        persisted = some ((log.storage.applied.getD .empty).insert appliedPosKey pos)) := by
  unfold appliedPosSet
  cases calls.start with
  | false => exact ⟨_,rfl,.inl rfl⟩
  | true =>
    cases calls.applied with
    | false => exact ⟨_,rfl,.inl rfl⟩
    | true =>
      have content : appliedMap.content (appliedMap.replace ((appliedMap.content log.storage).getD .empty) log.storage) =
        some (log.storage.applied.getD .empty) := rfl
      simp only [start_eq,open_create,if_true,put_running _ _ _ content]
      cases calls.put with
      | false => exact ⟨_,rfl,.inl rfl⟩
      | true =>
        cases calls.commit with
        | false => exact ⟨_,rfl,.inl rfl⟩
        | true => exact ⟨_,rfl,.inr rfl⟩

lemma apply_eq (calls : ApplyCalls) (fn : τ → ω → Bool × τ) (batchSize : Nat) (arg : τ) (log : Log ω) :
    apply calls fn batchSize arg log =
      ((taken calls fn batchSize arg log).length,
        (if log.applied ≥ log.top then arg else absorbs fn arg (read calls.read log.storage log.applied batchSize)),
        if taken calls fn batchSize arg log = [] then log
        else appliedPosSet calls.pos log (position log.applied (taken calls fn batchSize arg log))) := by
  unfold apply taken
  split
  · rfl
  · simp only [applyLoop_accepts,Nat.zero_add,length_eq_zero_iff]
    split
    · rename_i empty
      simp [empty,accepts,absorbs]
    · split
      · rename_i none
        simp [none]
      · rfl

lemma apply_taken (calls : ApplyCalls) (fn : τ → ω → Bool × τ) (batchSize : Nat) (arg : τ) (log : Log ω) :
    (apply calls fn batchSize arg log).2.2.applied = position log.applied (taken calls fn batchSize arg log) ∧
      (apply calls fn batchSize arg log).2.2.storage.trlog = log.storage.trlog ∧
      (apply calls fn batchSize arg log).2.2.top = log.top := by
  rw [apply_eq]
  dsimp only
  split
  · rename_i none
    rw [none]
    exact ⟨rfl,rfl,rfl⟩
  · obtain ⟨persisted,shape,_⟩ :=
      appliedPosSet_cases calls.pos log (position log.applied (taken calls fn batchSize arg log))
    rw [shape]
    exact ⟨rfl,rfl,rfl⟩

-- One call accepts stored entries at or above the old position, in id order,
-- and its new position passes no entry that it did not accept.
lemma taken_split (calls : ApplyCalls) (fn : τ → ω → Bool × τ) (batchSize : Nat) (arg : τ) (log : Log ω) :
    ∃ rest, (entries log.storage).walkFrom log.applied = taken calls fn batchSize arg log ++ rest := by
  unfold taken
  split
  · exact ⟨_,rfl⟩
  · obtain ⟨unread,whole⟩ := read_front calls.read log.storage log.applied batchSize
    obtain ⟨refused,part⟩ := accepts_front fn arg (read calls.read log.storage log.applied batchSize)
    refine ⟨refused ++ unread,?_⟩
    rw [← append_assoc,← part,whole]

lemma taken_stored
    (member : (id,op) ∈ taken calls fn batchSize arg log) : stored log.storage id = some op ∧ log.applied ≤ id := by
  obtain ⟨rest,whole⟩ := taken_split calls fn batchSize arg log
  exact KeyMap.mem_walkFrom.mp (whole ▸ mem_append_left rest member)

lemma taken_bounds (calls : ApplyCalls) (fn : τ → ω → Bool × τ) (batchSize : Nat) (arg : τ) (log : Log ω) :
    log.applied ≤ position log.applied (taken calls fn batchSize arg log) ∧
      (∀ entry ∈ taken calls fn batchSize arg log, entry.1 < position log.applied (taken calls fn batchSize arg log)) ∧
      ∀ id op, stored log.storage id = some op → id < position log.applied (taken calls fn batchSize arg log) →
        log.applied ≤ id → (id,op) ∈ taken calls fn batchSize arg log := by
  obtain ⟨rest,whole⟩ := taken_split calls fn batchSize arg log
  have ordered := (entries log.storage).walkFrom_sorted log.applied
  have above : ∀ entry ∈ (entries log.storage).walkFrom log.applied, log.applied ≤ entry.1 :=
    fun entry member => (KeyMap.mem_walkFrom.mp member).2
  rw [whole] at ordered above
  obtain ⟨grown,inside,outside⟩ := position_split ordered above
  refine ⟨grown,inside,?_⟩
  intro id op held below reached
  have member : (id,op) ∈ (entries log.storage).walkFrom log.applied := KeyMap.mem_walkFrom.mpr ⟨held,reached⟩
  rw [whole] at member
  rcases mem_append.mp member with accepted | left
  · exact accepted
  · exact absurd (outside _ left) (not_le.mpr below)

lemma passed_position (calls : ApplyCalls) (fn : τ → ω → Bool × τ) (batchSize : Nat) (arg : τ) (log : Log ω)
    (id : Nat) (op : ω) :
    (stored log.storage id = some op ∧ log.applied ≤ id ∧ id < (apply calls fn batchSize arg log).2.2.applied) ↔
      ∃ before after, (before,(id,op),after) ∈ passed calls fn batchSize arg log := by
  obtain ⟨_,inside,whole⟩ := taken_bounds calls fn batchSize arg log
  rw [(apply_taken calls fn batchSize arg log).1]
  constructor
  · rintro ⟨held,above,below⟩
    have member := whole id op held below above
    rw [← passed_entries] at member
    obtain ⟨⟨before,entry,after⟩,step,same⟩ := mem_map.mp member
    obtain rfl : entry = (id,op) := same
    exact ⟨before,after,step⟩
  · rintro ⟨before,after,step⟩
    have member : (id,op) ∈ taken calls fn batchSize arg log := by
      rw [← passed_entries]
      exact mem_map.mpr ⟨_,step,rfl⟩
    exact ⟨(taken_stored member).1,(taken_stored member).2,inside _ member⟩

lemma passed_step
    (member : (before,entry,after) ∈ passed calls fn batchSize arg log) : fn before entry.2 = (true,after) := by
  unfold passed at member
  split at member
  · cases member
  · exact trail_step member

lemma passed_lasting (holds : τ → Prop)
    (kept : ∀ state op, holds state → holds (fn state op).2)
    (member : (before,entry,after) ∈ passed calls fn batchSize arg log) (held : holds after) :
    holds (apply calls fn batchSize arg log).2.1 := by
  unfold passed at member
  rw [apply_eq]
  split at member
  · cases member
  · rename_i behind
    simp only [if_neg behind]
    exact trail_lasting kept member held

end MedvedDB.Trlog
