import MedvedDB.Trlog

open MedvedDB.Lmdb
namespace MedvedDB.Trlog

variable {ω : Type}

-- mdv_trlog_add as in Trlog, with ids and top as the 64-bit integers of the source: the
-- last id has no position behind it.
def idMaximize64 (top id : Nat) : Nat := if (id + 1) % 2 ^ 64 > top then (id + 1) % 2 ^ 64 else top

def addLoop64 (puts : Nat → Bool) (txn : Txn (LogStorage ω)) (top : Nat) (changed : Bool) (index : Nat) : List (Nat × ω) → Txn (LogStorage ω) × Nat × Bool
  | [] => (txn,top,changed)
  | (id,op)::rest =>
    match mapPutUnique (puts index) trlogMap txn id op with
    | (true,txn) => addLoop64 puts txn (idMaximize64 top id) true (index + 1) rest
    | (false,txn) => addLoop64 puts txn top changed (index + 1) rest

def add64 (calls : AddCalls) (log : Log ω) (ops : List (Nat × ω)) : Added ω :=
  match transactionStart calls.start log.storage with
  | none => ⟨false,false,log⟩
  | some txn =>
  match mapOpen calls.trlog true trlogMap txn with
  | none => ⟨false,false,log⟩
  | some txn =>
    let (txn,top,changed) := addLoop64 calls.puts txn log.top false 0 ops
    match transactionCommit calls.commit txn log.storage with
    | (false,storage) => ⟨false,false,{log with storage:=storage,top:=top}⟩
    | (true,storage) => ⟨true,changed,{log with storage:=storage,top:=top}⟩

lemma addLoop64_cons (puts : Nat → Bool) (txn : Txn (LogStorage ω)) (top : Nat) (changed : Bool) (index id : Nat) (op : ω) (rest : List (Nat × ω)) :
    let put := mapPutUnique (puts index) trlogMap txn id op
    addLoop64 puts txn top changed index ((id,op)::rest) =
      addLoop64 puts put.2 (if put.1 then idMaximize64 top id else top) (put.1 || changed) (index + 1) rest := by
  simp only [addLoop64]
  split
  · rename_i after put
    simp [put]
  · rename_i after put
    simp [put]

lemma add64_eq (calls : AddCalls) (log : Log ω) (ops : List (Nat × ω)) :
    let loop := addLoop64 calls.puts (running (trlogMap.replace (entries log.storage) log.storage)) log.top false 0 ops
    let done := transactionCommit calls.commit loop.1 log.storage
    add64 calls log ops =
      if calls.start && calls.trlog then
        ⟨done.1,done.1 && loop.2.2,{log with storage:=done.2,top:=loop.2.1}⟩
      else ⟨false,false,log⟩ := by
  unfold add64
  cases calls.start with
  | false => rfl
  | true =>
    cases calls.trlog with
    | false => rfl
    | true =>
      have content : (trlogMap.content log.storage).getD .empty = entries log.storage := rfl
      simp only [start_eq,open_create,if_true,Bool.and_self,content]
      split
      · rename_i undone
        simp [undone]
      · rename_i done
        simp [done]

lemma addLoop64_txn (puts : Nat → Bool) (txn : Txn (LogStorage ω)) (top other : Nat) (changed altered : Bool) (index : Nat) (ops : List (Nat × ω)) :
    (addLoop64 puts txn top changed index ops).1 = (addLoop puts txn other altered index ops).1 := by
  induction ops generalizing txn top other changed altered index with
  | nil => rfl
  | cons entry rest ih =>
    obtain ⟨id,op⟩ := entry
    rw [addLoop64_cons,addLoop_cons]
    exact ih _ _ _ _ _ _

lemma add64_storage (calls : AddCalls) (log : Log ω) (ops : List (Nat × ω)) : (add64 calls log ops).log.storage = (add calls log ops).log.storage := by
  rw [add64_eq,add_eq,addLoop64_txn _ _ _ log.top _ false]
  split <;> rfl

lemma addLoop64_grows (puts : Nat → Bool) (txn : Txn (LogStorage ω)) (top : Nat) (changed : Bool) (index : Nat) (ops : List (Nat × ω)) :
    top ≤ (addLoop64 puts txn top changed index ops).2.1 ∧ (top < 2 ^ 64 → (addLoop64 puts txn top changed index ops).2.1 < 2 ^ 64) := by
  induction ops generalizing txn top changed index with
  | nil => exact ⟨le_refl top,id⟩
  | cons entry rest ih =>
    obtain ⟨id,op⟩ := entry
    have least : top ≤ idMaximize64 top id := by
      unfold idMaximize64
      split <;> omega
    have most : top < 2 ^ 64 → idMaximize64 top id < 2 ^ 64 := by
      unfold idMaximize64
      split <;> omega
    rw [addLoop64_cons]
    split
    · obtain ⟨higher,within⟩ := ih (mapPutUnique (puts index) trlogMap txn id op).2 (idMaximize64 top id) ((mapPutUnique (puts index) trlogMap txn id op).1 || changed) (index + 1)
      exact ⟨least.trans higher,fun fits => within (most fits)⟩
    · exact ih _ _ _ _

lemma addLoop64_broken (puts : Nat → Bool) (work : LogStorage ω) (top : Nat) (changed : Bool) (index : Nat) (ops : List (Nat × ω)) :
    addLoop64 puts (broken work) top changed index ops = (broken work,top,changed) := by
  induction ops generalizing index with
  | nil => rfl
  | cons entry rest ih =>
    obtain ⟨id,op⟩ := entry
    rw [addLoop64_cons]
    simp only [putUnique_broken,false_eq_true,if_false,Bool.false_or]
    exact ih (index + 1)

lemma addLoop64_first (puts : Nat → Bool) (found : trlogMap.content work = some map) (top : Nat) (changed : Bool)
    (index id : Nat) (op : ω) (rest : List (Nat × ω)) :
    addLoop64 puts (running work) top changed index ((id,op)::rest) =
      if puts index then
        if (stored work id).isSome then addLoop64 puts (running work) top changed (index + 1) rest
        else addLoop64 puts (running (trlogMap.replace (map.insert id op) work)) (idMaximize64 top id) true (index + 1) rest
      else (broken work,top,changed) := by
  have same : stored work id = map.find id := congrArg (KeyMap.find · id) (trlog_found found)
  rw [addLoop64_cons,putUnique_running _ _ _ found,same]
  cases puts index with
  | false =>
    simp only [false_eq_true,if_false,Bool.false_or]
    exact addLoop64_broken puts work top changed (index + 1) rest
  | true =>
    cases (map.find id).isSome with
    | false => simp
    | true => simp

-- Up to the first put that fails, no entry that is not stored yet raises the top.
def Below (puts : Nat → Bool) (storage : LogStorage ω) (top : Nat) : Nat → List (Nat × ω) → Prop
  | _,[] => True
  | index,(id,_)::rest => puts index = true → (stored storage id = none → (id + 1) % 2 ^ 64 ≤ top) ∧ Below puts storage top (index + 1) rest

def Works (puts : Nat → Bool) (index count : Nat) : Prop := ∀ offset < count, puts (index + offset) = true

lemma works_succ (puts : Nat → Bool) (index count : Nat) : Works puts index (count + 1) ↔ puts index = true ∧ Works puts (index + 1) count := by
  constructor
  · intro works
    refine ⟨works 0 (succ_pos count),?_⟩
    intro offset within
    rw [Nat.add_assoc,Nat.add_comm 1 offset]
    exact works (offset + 1) (by omega)
  · intro both offset within
    cases offset with
    | zero => exact both.1
    | succ offset =>
      have later := both.2 offset (by omega)
      rw [Nat.add_assoc,Nat.add_comm 1 offset] at later
      exact later

section Loop

variable {puts : Nat → Bool} {work : LogStorage ω} {map : KeyMap Nat ω} {top index : Nat} {changed : Bool} {ops : List (Nat × ω)}

lemma below_congr (same : ∀ id, (stored one id = none → (id + 1) % 2 ^ 64 ≤ top) ↔ (stored two id = none → (id + 1) % 2 ^ 64 ≤ top)) :
    Below puts one top index ops ↔ Below puts two top index ops := by
  induction ops generalizing index with
  | nil => rfl
  | cons entry rest ih => simp only [Below,same,ih]

lemma below_insert (found : trlogMap.content work = some map) {id : Nat} (op : ω) (small : (id + 1) % 2 ^ 64 ≤ top) :
    Below puts (trlogMap.replace (map.insert id op) work) top index ops ↔ Below puts work top index ops := by
  apply below_congr
  intro other
  rw [stored_replace,stored,trlog_found found]
  split
  · rename_i is
    exact ⟨fun _ _ => is ▸ small,fun _ _ => is ▸ small⟩
  · rfl

lemma addLoop64_top_iff (found : trlogMap.content work = some map) :
    (addLoop64 puts (running work) top changed index ops).2.1 = top ↔ Below puts work top index ops := by
  induction ops generalizing work map changed index with
  | nil => exact ⟨fun _ => trivial,fun _ => rfl⟩
  | cons entry rest ih =>
    obtain ⟨id,op⟩ := entry
    rw [addLoop64_first puts found]
    simp only [Below]
    cases puts index with
    | false => simp
    | true =>
      cases held : stored work id with
      | some old =>
        simp only [isSome_some,if_true,reduceCtorEq,false_implies,true_and,true_implies]
        exact ih found
      | none =>
        simp only [isSome_none,false_eq_true,if_false,if_true,true_implies]
        by_cases small : (id + 1) % 2 ^ 64 ≤ top
        · have stays : idMaximize64 top id = top := if_neg (Nat.not_lt.mpr small)
          rw [stays,ih rfl,below_insert found op small]
          exact (and_iff_right small).symm
        · refine ⟨fun same => ?_,fun both => absurd both.1 small⟩
          have higher := (addLoop64_grows puts (running (trlogMap.replace (map.insert id op) work)) (idMaximize64 top id) true (index + 1) rest).1
          have raised : idMaximize64 top id = (id + 1) % 2 ^ 64 := if_pos (Nat.lt_of_not_le small)
          omega

lemma addLoop64_usable_iff (found : trlogMap.content work = some map) :
    (addLoop64 puts (running work) top changed index ops).1.usable = true ↔ Works puts index ops.length := by
  induction ops generalizing work map top changed index with
  | nil => exact ⟨fun _ _ none => absurd none (Nat.not_lt_zero _),fun _ => rfl⟩
  | cons entry rest ih =>
    obtain ⟨id,op⟩ := entry
    rw [addLoop64_first puts found,length_cons,works_succ]
    cases puts index with
    | false => simp [Txn.usable]
    | true =>
      cases (stored work id).isSome with
      | false =>
        simp only [false_eq_true,if_false,if_true,true_and]
        exact ih rfl
      | true =>
        simp only [if_true,true_and]
        exact ih found

def Reaches (storage : LogStorage ω) (position : Nat) : Prop := position = 0 ∨ ∃ id op, stored storage id = some op ∧ position ≤ id + 1

lemma Reaches.kept {storage next : LogStorage ω} {position : Nat} (reaches : Reaches storage position)
    (kept : ∀ {id op}, stored storage id = some op → stored next id = some op) : Reaches next position := by
  rcases reaches with zero | ⟨id,op,held,small⟩
  · exact .inl zero
  · exact .inr ⟨id,op,kept held,small⟩

lemma addLoop64_reaches (found : trlogMap.content work = some map) (reaches : Reaches work top) :
    Reaches (addLoop64 puts (running work) top changed index ops).1.work (addLoop64 puts (running work) top changed index ops).2.1 := by
  induction ops generalizing work map top changed index with
  | nil => exact reaches
  | cons entry rest ih =>
    obtain ⟨id,op⟩ := entry
    rw [addLoop64_first puts found]
    cases puts index with
    | false => exact reaches
    | true =>
      cases held : stored work id with
      | some old => exact ih found reaches
      | none =>
        have missing : map.find id = none := trlog_found found ▸ held
        refine ih rfl ?_
        unfold idMaximize64
        split
        · exact .inr ⟨id,op,by rw [stored_replace,if_pos rfl],Nat.mod_le _ _⟩
        · exact reaches.kept (extends_insert found missing op).kept

end Loop

-- The transaction does not get so far, everything works, or nothing that is put before
-- a failure lies above the top.
def Harmless (calls : AddCalls) (log : Log ω) (ops : List (Nat × ω)) : Prop :=
  (calls.start && calls.trlog) = false ∨ calls.commit = true ∧ Works calls.puts 0 ops.length ∨ Below calls.puts log.storage log.top 0 ops

lemma opened_content (storage : LogStorage ω) : trlogMap.content (trlogMap.replace (entries storage) storage) = some (entries storage) := rfl

section Add

variable {calls : AddCalls} {log : Log ω} {ops : List (Nat × ω)}

lemma add64_returned (opened : (calls.start && calls.trlog) = true) : (add64 calls log ops).returned = true ↔ calls.commit = true ∧ Works calls.puts 0 ops.length := by
  simp only [add64_eq,opened,if_true,transactionCommit]
  have usable : (addLoop64 calls.puts (running (trlogMap.replace (entries log.storage) log.storage)) log.top false 0 ops).1.usable = true ↔
    Works calls.puts 0 ops.length := addLoop64_usable_iff (opened_content log.storage)
  split
  · rename_i both
    obtain ⟨able,commit⟩ := and_eq_true_iff.mp both
    exact ⟨fun _ => ⟨commit,usable.mp able⟩,fun _ => rfl⟩
  · rename_i either
    refine ⟨(by rintro ⟨⟩),fun both => absurd ?_ either⟩
    exact and_eq_true_iff.mpr ⟨usable.mpr both.2,both.1⟩

lemma add64_top (opened : (calls.start && calls.trlog) = true) : (add64 calls log ops).log.top = log.top ↔ Below calls.puts log.storage log.top 0 ops := by
  simp only [add64_eq,opened,if_true]
  refine (addLoop64_top_iff (opened_content log.storage)).trans (below_congr ?_)
  intro id
  rfl

lemma add64_closed (closed : (calls.start && calls.trlog) = false) : add64 calls log ops = ⟨false,false,log⟩ := by
  simp only [add64_eq,closed,false_eq_true,if_false]

lemma failed_keeps_iff (calls : AddCalls) (log : Log ω) (ops : List (Nat × ω)) :
    ((add64 calls log ops).returned = false → (add64 calls log ops).log.top = log.top) ↔ Harmless calls log ops := by
  cases opened : (calls.start && calls.trlog) with
  | false =>
    rw [add64_closed opened]
    exact ⟨fun _ => .inl opened,fun _ _ => rfl⟩
  | true =>
    rw [add64_top opened,Harmless,opened]
    by_cases worked : calls.commit = true ∧ Works calls.puts 0 ops.length
    · rw [(add64_returned opened).mpr worked]
      exact ⟨fun _ => .inr (.inl worked),fun _ => nofun⟩
    · have failed : (add64 calls log ops).returned = false := by
        cases returned : (add64 calls log ops).returned with
        | false => rfl
        | true => exact absurd ((add64_returned opened).mp returned) worked
      simp [failed,worked]

-- mdv_syncer_data_save_fn: the log gets the rows, and its top is reported whatever the
-- result was.
def dataSave (found : Bool) (calls : AddCalls) (log : Log ω) (rows : List (Nat × ω)) : Nat × Log ω :=
  if found then ((add64 calls log rows).log.top,(add64 calls log rows).log) else (0,log)

lemma failed_storage (failed : (add64 calls log ops).returned = false) : (add64 calls log ops).log.storage = log.storage := by
  cases opened : (calls.start && calls.trlog) with
  | false => rw [add64_closed opened]
  | true =>
    simp only [add64_eq,opened,if_true] at failed ⊢
    exact commit_failed (Prod.ext failed rfl)

lemma add64_reaches (reaches : Reaches log.storage log.top) (returned : (add64 calls log ops).returned = true) :
    Reaches (add64 calls log ops).log.storage (add64 calls log ops).log.top := by
  cases opened : (calls.start && calls.trlog) with
  | false =>
    rw [add64_closed opened] at returned
    cases returned
  | true =>
    simp only [add64_eq,opened,if_true] at returned ⊢
    obtain ⟨_,work⟩ := commit_cases (Prod.ext returned rfl)
    refine Eq.mpr (congrArg (Reaches · _) work) ?_
    exact addLoop64_reaches (opened_content log.storage) (reaches.kept id)

lemma add64_grows (calls : AddCalls) (log : Log ω) (ops : List (Nat × ω)) :
    log.top ≤ (add64 calls log ops).log.top ∧ (log.top < 2 ^ 64 → (add64 calls log ops).log.top < 2 ^ 64) := by
  cases opened : (calls.start && calls.trlog) with
  | false =>
    rw [add64_closed opened]
    exact ⟨le_refl _,id⟩
  | true =>
    simp only [add64_eq,opened,if_true]
    exact addLoop64_grows _ _ _ _ _ _

def Ended (storage : LogStorage ω) : Prop := (stored storage (2 ^ 64 - 1)).isSome

lemma Ended.reaches {storage : LogStorage ω} {position : Nat} (ended : Ended storage) (fits : position < 2 ^ 64) : Reaches storage position := by
  obtain ⟨op,held⟩ := isSome_iff_exists.mp ended
  exact .inr ⟨_,op,held,by omega⟩

structure Sound (log : Log ω) : Prop where
  fits : log.top < 2 ^ 64
  above : Ended log.storage ∨ Bounded log.storage log.top ∧ Reaches log.storage log.top

lemma reported_reaches_iff (found : Bool) (calls : AddCalls) (ops : List (Nat × ω)) (sound : Sound log) :
    Reaches (dataSave found calls log ops).2.storage (dataSave found calls log ops).1 ↔ found = false ∨ Harmless calls log ops ∨ Ended log.storage := by
  cases found with
  | false => exact ⟨fun _ => .inl rfl,fun _ => .inl rfl⟩
  | true =>
    have fits := (add64_grows calls log ops).2 sound.fits
    simp only [dataSave,if_true,reduceCtorEq,false_or]
    rw [← failed_keeps_iff]
    cases returned : (add64 calls log ops).returned with
    | true =>
      refine ⟨fun _ => .inl nofun,fun _ => ?_⟩
      rcases sound.above with ended | ⟨_,reaches⟩
      · apply (ended.reaches fits).kept
        intro id op held
        rw [add64_storage]
        exact (add_extends calls log ops).1.kept held
      · exact add64_reaches reaches returned
    | false =>
      rw [failed_storage returned]
      constructor
      · intro reported
        rcases sound.above with ended | ⟨bounded,_⟩
        · exact .inr ended
        · refine .inl fun _ => ?_
          have higher := (add64_grows calls log ops).1
          rcases reported with zero | ⟨id,op,held,small⟩
          · omega
          · have within := bounded id op held
            omega
      · rintro (same | ended)
        · rw [same rfl]
          rcases sound.above with ended | ⟨_,reaches⟩
          · exact ended.reaches sound.fits
          · exact reaches
        · exact ended.reaches fits

-- A batch that fails leaves the top, and the position that is reported then is one that
-- is committed, exactly where nothing above the top was put before the failure.
theorem failed_add_iff (found : Bool) (calls : AddCalls) (log : Log ω) (ops : List (Nat × ω)) :
    (((add64 calls log ops).returned = false → (add64 calls log ops).log.top = log.top) ↔ Harmless calls log ops) ∧
    (Sound log → (Reaches (dataSave found calls log ops).2.storage (dataSave found calls log ops).1 ↔ found = false ∨ Harmless calls log ops ∨ Ended log.storage)) :=
  ⟨failed_keeps_iff calls log ops,reported_reaches_iff found calls ops⟩

theorem failed_add_fresh : Sound (⟨fresh,0,0⟩ : Log Nat) ∧
    Reaches (dataSave true {start:=false} ⟨fresh,0,0⟩ [(0,7)]).2.storage (dataSave true {start:=false} (⟨fresh,0,0⟩ : Log Nat) [(0,7)]).1 := by
  have sound : Sound (⟨fresh,0,0⟩ : Log Nat) := ⟨Nat.two_pow_pos 64,.inr ⟨nofun,.inl rfl⟩⟩
  exact ⟨sound,((failed_add_iff true {start:=false} (⟨fresh,0,0⟩ : Log Nat) [(0,7)]).2 sound).mpr (.inr (.inl (.inl rfl)))⟩

-- The commit of one new entry fails: position 1 is reported with nothing in the log.
theorem failed_add_raises : (add64 {commit:=false} (⟨fresh,0,0⟩ : Log Nat) [(0,7)]).returned = false ∧
    (add64 {commit:=false} (⟨fresh,0,0⟩ : Log Nat) [(0,7)]).log.top = 1 ∧ (dataSave true {commit:=false} (⟨fresh,0,0⟩ : Log Nat) [(0,7)]).1 = 1 ∧
    stored (dataSave true {commit:=false} (⟨fresh,0,0⟩ : Log Nat) [(0,7)]).2.storage 0 = none :=
  ⟨rfl,rfl,rfl,rfl⟩

end Add

end MedvedDB.Trlog
