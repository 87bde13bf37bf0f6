import MedvedDB.Logging
import MedvedDB.Cells

open MedvedDB.TwoPhaseSet MedvedDB.Tablespace
namespace MedvedDB.Inserts

open Tablespace (crash fresh)

variable {υ β γ : Type}

-- The rows of an insert with the ids they get. An item without data ends it.
def rowList (first : UInt64) : List (Option β) → List (UInt64 × β)
  | [] => []
  | none::_ => []
  | some item::rest => (first,item)::rowList (first + 1) rest

lemma rowList_whole (first : UInt64) {items : List (Option β)} (whole : items.all Option.isSome = true) :
    (rowList first items).map (fun row => some row.2) = items := by
  induction items generalizing first with
  | nil => rfl
  | cons item rest ih =>
    cases item with
    | none => simp at whole
    | some item => simpa [rowList] using ih (first + 1) (by simpa using whole)

lemma succ_toNat {first : UInt64} (bounded : first.toNat + 1 < 2 ^ 64) : (first + 1).toNat = first.toNat + 1 := by
  rw [UInt64.toNat_add]
  exact mod_eq_of_lt bounded

lemma rowList_bounds {items : List (Option β)} {first id : UInt64} {obj : β}
    (bounded : first.toNat + items.length < 2 ^ 64) (member : (id,obj) ∈ rowList first items) :
    first.toNat ≤ id.toNat ∧ id.toNat < first.toNat + items.length := by
  induction items generalizing first with
  | nil => cases member
  | cons item rest ih =>
    cases item with
    | none => cases member
    | some item =>
      rw [length_cons] at bounded ⊢
      rcases mem_cons.mp member with same | later
      · cases same
        omega
      · have next := succ_toNat (by omega : first.toNat + 1 < 2 ^ 64)
        obtain ⟨low,high⟩ := ih (by omega) later
        omega

lemma rowList_nodup {items : List (Option β)} {first : UInt64} (bounded : first.toNat + items.length < 2 ^ 64) :
    ((rowList first items).map Prod.fst).Nodup := by
  induction items generalizing first with
  | nil => exact nodup_nil
  | cons item rest ih =>
    cases item with
    | none => exact nodup_nil
    | some item =>
      rw [length_cons] at bounded
      have next := succ_toNat (by omega : first.toNat + 1 < 2 ^ 64)
      refine nodup_cons.mpr ⟨fun member => ?_,ih (by omega)⟩
      obtain ⟨⟨id,obj⟩,inside,same⟩ := mem_map.mp member
      obtain rfl : id = first := same
      have low := (rowList_bounds (by omega) inside).1
      omega

lemma rowAt_rowList (found : rowAt node first items row = some obj) :
    row.node = node ∧ (row.id,obj) ∈ rowList first items := by
  induction items generalizing first with
  | nil => cases found
  | cons item rest ih =>
    cases item with
    | none => cases found
    | some item =>
      unfold rowAt at found
      split at found
      · rename_i here
        cases found
        rw [here]
        exact ⟨rfl,mem_cons_self⟩
      · exact (ih found).imp_right (mem_cons_of_mem _)

lemma rowList_rowAt {items : List (Option β)} {first id : UInt64} {obj : β} (node : UInt32)
    (bounded : first.toNat + items.length < 2 ^ 64) (member : (id,obj) ∈ rowList first items) :
    rowAt node first items ⟨node,id⟩ = some obj := by
  induction items generalizing first with
  | nil => cases member
  | cons item rest ih =>
    cases item with
    | none => cases member
    | some item =>
      rw [length_cons] at bounded
      unfold rowAt
      rcases mem_cons.mp member with same | later
      · cases same
        exact if_pos rfl
      · have next := succ_toNat (by omega : first.toNat + 1 < 2 ^ 64)
        have low := (rowList_bounds (by omega) later).1
        rw [if_neg]
        · exact ih (by omega) later
        · intro same
          cases same
          omega

lemma adds_stored {changes : List (Change β)} (kept : ∀ change ∈ changes, change ≠ .delete) (obj : β) :
    changes.foldl (fun state change => change.act state) (.stored obj) = .stored obj := by
  induction changes with
  | nil => rfl
  | cons change rest ih =>
    have later := ih fun other member => kept other (mem_cons_of_mem _ member)
    cases change with
    | keep => exact later
    | add other => exact later
    | delete => exact absurd rfl (kept _ mem_cons_self)

lemma adds_settle {changes : List (Change β)} (kept : ∀ change ∈ changes, change ≠ .delete)
    (agree : ∀ one two, .add one ∈ changes → .add two ∈ changes → one = two) (obj : β) :
    changes.foldl (fun state change => change.act state) .absent = .stored obj ↔ .add obj ∈ changes := by
  induction changes with
  | nil => simp
  | cons change rest ih =>
    have later := ih (fun other member => kept other (mem_cons_of_mem _ member))
      fun one two first second => agree one two (mem_cons_of_mem _ first) (mem_cons_of_mem _ second)
    cases change with
    | keep => simpa [Change.act] using later
    | delete => exact absurd rfl (kept _ mem_cons_self)
    | add other =>
      have stays := adds_stored (fun change member => kept change (mem_cons_of_mem _ member)) other
      rw [foldl_cons,show (Change.add other).act Status.absent = .stored other from rfl,stays]
      constructor
      · intro same
        cases same
        exact mem_cons_self
      · intro member
        rw [agree other obj mem_cons_self member]

lemma adds_present {changes : List (Change β)} (kept : ∀ change ∈ changes, change ≠ .delete) :
    changes.foldl (fun state change => change.act state) .absent ≠ .removed := by
  induction changes with
  | nil => nofun
  | cons change rest ih =>
    have rest_kept := fun other member => kept other (mem_cons_of_mem _ member)
    cases change with
    | keep => exact ih rest_kept
    | delete => exact absurd rfl (kept _ mem_cons_self)
    | add other =>
      rw [foldl_cons,show (Change.add other).act Status.absent = .stored other from rfl,adds_stored rest_kept]
      nofun

variable [LinearOrder υ]

-- The logging side: every node with what it has logged so far, in order.
structure Cluster (υ β : Type) [LinearOrder υ] where
  nodes : υ → Node υ β
  logged : List (υ × Op υ β)

inductive Action (υ β : Type) where
  | create (origin : υ) (calls : LogCreateCalls) (uuid : υ) (obj : β)
  | insert (origin : υ) (calls : LogRowsetCalls) (table : υ) (rowset : Rowset β)
  | crash (origin : υ)

def setNode (cluster : Cluster υ β) (origin : υ) (node : Node υ β) : Cluster υ β :=
  {cluster with nodes:=fun other => if other = origin then node else cluster.nodes other}

def record (cluster : Cluster υ β) (origin : υ) (result : Logged υ β) : Cluster υ β :=
  {setNode cluster origin result.node with logged:=cluster.logged ++ result.op.toList.map fun op => (origin,op)}

def creates (uuid : υ) : υ × Op υ β → Bool
  | (_,.tableCreate (some (some other,_))) => other = uuid
  | _ => false

-- mdv_uuid_generate does not repeat a uuid, and a row storage that is opened
-- again finds its counter.
def step (cluster : Cluster υ β) : Action υ β → Option (Cluster υ β)
  | .create origin calls uuid obj =>
    if cluster.logged.any (creates uuid) then none
    else some (record cluster origin (logCreateTable calls (cluster.nodes origin) uuid obj))
  | .insert origin calls table rowset =>
    if calls.init.idgen && calls.init.get then
      some (record cluster origin (logRowset calls (cluster.nodes origin) table rowset))
    else none
  | .crash origin => some (setNode cluster origin (crash (cluster.nodes origin)))

def start (spaces : υ → Space υ β) : Cluster υ β := ⟨fun origin => ⟨spaces origin,fun _ => IdRange.start⟩,[]⟩

def Action.asks (origin table : υ) : Action υ β → Nat
  | .insert other _ target rowset => if other = origin ∧ target = table then rowset.items.length else 0
  | _ => 0

def asked (origin table : υ) (actions : List (Action υ β)) : Nat := (actions.map (Action.asks origin table)).sum

def insertOf (origin table : υ) : υ × Op υ β → Option (UInt64 × List (Option β))
  | (other,.rowInsert first target (some items)) => if other = origin ∧ target = table then some (first,items) else none
  | _ => none

def rangeOf (insert : UInt64 × List (Option β)) : UInt64 × UInt32 := (insert.1,UInt32.ofNat insert.2.length)

inductive Written : Op υ β → Prop where
  | create (uuid : υ) (obj : β) : Written (.tableCreate (some (some uuid,obj)))
  | insert (first : UInt64) (table : υ) (rowset : Rowset β) (filled : rowset.items ≠ []) :
    Written (.rowInsert first table (some rowset.items))

-- The logged inserts of a node into a table have ranges of its generator, every
-- range at most once.
structure Sound (asks : υ → υ → Nat) (cluster : Cluster υ β) : Prop where
  orderly : ∀ origin table, IdRange.Orderly (asks origin table) ((cluster.nodes origin).rowIds table)
  ranges : ∀ origin table, ((cluster.logged.filterMap (insertOf origin table)).map rangeOf).Sublist
    ((cluster.nodes origin).rowIds table).returned
  written : ∀ entry ∈ cluster.logged, Written entry.2
  tables : ∀ uuid, (cluster.logged.filter (creates uuid)).length ≤ 1

lemma start_sound (spaces : υ → Space υ β) : Sound (fun _ _ => 0) (start spaces) :=
  ⟨fun _ _ => IdRange.start_orderly,fun _ _ => List.Sublist.refl _,nofun,fun _ => Nat.zero_le _⟩

lemma range_toNat (rowset : Rowset β) : rowset.range.toNat = rowset.items.length := by
  have counted := rowset.counted
  exact mod_eq_of_lt (by omega)

lemma moves_orderly (orderly : IdRange.Orderly asks before) (found : (init.idgen && init.get) = true)
    (bounded : asks < 2 ^ 64) (moved : Moves init before after) : IdRange.Orderly asks after ∧ after.returned = before.returned := by
  cases moved with
  | stay => exact ⟨orderly,rfl⟩
  | opens reopened =>
    have opened := IdRange.step_orderly orderly (show (IdRange.Action.reopen init).finds = true from found) bounded reopened
    refine ⟨opened,?_⟩
    simp only [IdRange.step] at reopened
    split at reopened
    · cases reopened
    · cases reopened
      rfl

lemma record_ids (cluster : Cluster υ β) (origin node table : υ) (result : Logged υ β) :
    ((record cluster origin result).nodes node).rowIds table =
      if node = origin then result.node.rowIds table else (cluster.nodes node).rowIds table := by
  simp only [record,setNode]
  split <;> rfl

lemma record_silent (silent : result.op = none) (cluster : Cluster υ β) (origin : υ) :
    (record cluster origin result).logged = cluster.logged := by
  simp [record,silent]

lemma record_logged (logs : result.op = some op) (cluster : Cluster υ β) (origin : υ) :
    (record cluster origin result).logged = cluster.logged ++ [(origin,op)] := by
  simp [record,logs]

lemma record_written {cluster : Cluster υ β} (sound : Sound asks cluster) {result : Logged υ β}
    (written : ∀ op, result.op = some op → Written op) (origin : υ) :
    ∀ entry ∈ (record cluster origin result).logged, Written entry.2 := by
  intro entry member
  rcases mem_append.mp member with old | new
  · exact sound.written entry old
  · obtain ⟨op,logs,rfl⟩ := mem_map.mp new
    exact written op (by simpa using logs)

lemma create_sound {cluster : Cluster υ β} (sound : Sound asks cluster) (fresh : cluster.logged.any (creates uuid) = false)
    (calls : LogCreateCalls) (origin : υ) (obj : β) :
    Sound asks (record cluster origin (logCreateTable calls (cluster.nodes origin) uuid obj)) := by
  have ids (node table : υ) : ((record cluster origin (logCreateTable calls (cluster.nodes origin) uuid obj)).nodes node).rowIds table =
      (cluster.nodes node).rowIds table := by
    rw [record_ids]
    split
    · rename_i same
      rw [logCreateTable_ids,same]
    · rfl
  refine ⟨fun node table => ?_,fun node table => ?_,record_written sound ?_ origin,fun other => ?_⟩
  · rw [ids]
    exact sound.orderly node table
  · rw [ids]
    cases done : (logCreateTable calls (cluster.nodes origin) uuid obj).op with
    | none =>
      rw [record_silent done]
      exact sound.ranges node table
    | some op =>
      obtain rfl := logCreateTable_op done
      have nothing : [(origin,Op.tableCreate (some (some uuid,obj)))].filterMap (insertOf node table) = [] := rfl
      rw [record_logged done,List.filterMap_append,nothing,append_nil]
      exact sound.ranges node table
  · intro op done
    obtain rfl := logCreateTable_op done
    exact .create uuid obj
  · cases done : (logCreateTable calls (cluster.nodes origin) uuid obj).op with
    | none =>
      rw [record_silent done]
      exact sound.tables other
    | some op =>
      obtain rfl := logCreateTable_op done
      rw [record_logged done,filter_append,length_append]
      by_cases hit : uuid = other
      · subst hit
        have none_before : cluster.logged.filter (creates uuid) = [] :=
          filter_eq_nil_iff.mpr fun entry member => by simpa using (any_eq_false.mp fresh) entry member
        simp [none_before,creates]
      · simpa [creates,hit] using sound.tables other

section Insert

variable {cluster : Cluster υ β} {calls : LogRowsetCalls} {origin table : υ} {rowset : Rowset β}

lemma insert_elsewhere (apart : ¬ (origin = node ∧ table = target)) :
    ((record cluster origin (logRowset calls (cluster.nodes origin) table rowset)).nodes node).rowIds target =
      (cluster.nodes node).rowIds target := by
  rw [record_ids]
  split
  · rename_i same
    subst same
    exact (logRowset_logged calls (cluster.nodes node) table rowset).others target fun same => apart ⟨rfl,same.symm⟩
  · rfl

lemma insert_here : ((record cluster origin (logRowset calls (cluster.nodes origin) table rowset)).nodes origin).rowIds table =
    (logRowset calls (cluster.nodes origin) table rowset).node.rowIds table := by
  rw [record_ids,if_pos rfl]

lemma insert_orderly (orderly : IdRange.Orderly asks ((cluster.nodes origin).rowIds table))
    (found : (calls.init.idgen && calls.init.get) = true) (bounded : asks + rowset.items.length < 2 ^ 64) :
    IdRange.Orderly (asks + rowset.items.length) ((logRowset calls (cluster.nodes origin) table rowset).node.rowIds table) := by
  obtain ⟨_,opened,opening,reserving,_⟩ := logRowset_logged calls (cluster.nodes origin) table rowset
  obtain ⟨kept,_⟩ := moves_orderly orderly found (by omega) opening
  rcases reserving with same | reserved
  · rw [same]
    exact kept.more _
  · rw [← range_toNat rowset] at bounded ⊢
    exact IdRange.step_orderly kept
      (show (IdRange.Action.reserve calls.reserve rowset.range).finds = true from rfl) bounded reserved

lemma insert_ranges (sound : Sound asks cluster) (found : (calls.init.idgen && calls.init.get) = true)
    (bounded : asks origin table < 2 ^ 64) (node target : υ) :
    (((record cluster origin (logRowset calls (cluster.nodes origin) table rowset)).logged.filterMap (insertOf node target)).map
      rangeOf).Sublist
        (((record cluster origin (logRowset calls (cluster.nodes origin) table rowset)).nodes node).rowIds target).returned := by
  obtain ⟨_,opened,opening,reserving,logging⟩ := logRowset_logged calls (cluster.nodes origin) table rowset
  obtain ⟨_,same_returned⟩ := moves_orderly (sound.orderly origin table) found bounded opening
  have before := sound.ranges node target
  cases done : (logRowset calls (cluster.nodes origin) table rowset).op with
  | none =>
    rw [record_silent done]
    by_cases hit : origin = node ∧ table = target
    · obtain ⟨rfl,rfl⟩ := hit
      rw [← same_returned] at before
      rw [insert_here]
      rcases reserving with same | reserved
      · rw [same]
        exact before
      · exact before.trans (IdRange.step_returned reserved)
    · rw [insert_elsewhere hit]
      exact before
  | some op =>
    obtain ⟨_,first,rfl,_,grown⟩ := logging op done
    rw [record_logged done,List.filterMap_append,map_append]
    by_cases hit : origin = node ∧ table = target
    · obtain ⟨rfl,rfl⟩ := hit
      have new : [(origin,Op.rowInsert first table (some rowset.items))].filterMap (insertOf origin table) =
          [(first,rowset.items)] := by simp [insertOf]
      rw [insert_here,grown,same_returned,new]
      exact before.append (List.Sublist.refl [(first,rowset.range)])
    · have new : [(origin,Op.rowInsert first table (some rowset.items))].filterMap (insertOf node target) = [] := by
        simp [insertOf,hit]
      rw [insert_elsewhere hit,new]
      simpa using before

lemma insert_sound (sound : Sound asks cluster) (found : (calls.init.idgen && calls.init.get) = true)
    (bounded : ∀ node target, asks node target +
      (Action.insert origin calls table rowset).asks node target < 2 ^ 64) :
    Sound (fun node target => asks node target + (Action.insert origin calls table rowset).asks node target)
      (record cluster origin (logRowset calls (cluster.nodes origin) table rowset)) := by
  obtain ⟨_,_,_,_,logging⟩ := logRowset_logged calls (cluster.nodes origin) table rowset
  have here : asks origin table + rowset.items.length < 2 ^ 64 := by simpa [Action.asks] using bounded origin table
  refine ⟨fun node target => ?_,insert_ranges sound found (by omega),record_written sound ?_ origin,fun uuid => ?_⟩
  · by_cases hit : origin = node ∧ table = target
    · obtain ⟨rfl,rfl⟩ := hit
      simp only [insert_here,Action.asks,and_self,if_true]
      exact insert_orderly (sound.orderly origin table) found here
    · rw [insert_elsewhere hit]
      exact (sound.orderly node target).more _
  · intro op done
    obtain ⟨filled,first,rfl,_⟩ := logging op done
    exact .insert first table rowset filled
  · have kept : (record cluster origin (logRowset calls (cluster.nodes origin) table rowset)).logged.filter (creates uuid) =
        cluster.logged.filter (creates uuid) := by
      cases done : (logRowset calls (cluster.nodes origin) table rowset).op with
      | none => rw [record_silent done]
      | some op =>
        obtain ⟨_,first,rfl,_⟩ := logging op done
        rw [record_logged done,filter_append]
        exact append_nil _
    rw [kept]
    exact sound.tables uuid

end Insert

lemma crash_sound (sound : Sound asks cluster) (origin : υ) :
    Sound asks (setNode cluster origin (crash (cluster.nodes origin))) := by
  have ids (node table : υ) : ∃ memory, ((setNode cluster origin (crash (cluster.nodes origin))).nodes node).rowIds table =
      {(cluster.nodes node).rowIds table with memory:=memory} ∧ (memory = none ∨ memory = ((cluster.nodes node).rowIds table).memory) := by
    simp only [setNode]
    split
    · rename_i same
      subst same
      exact ⟨none,rfl,.inl rfl⟩
    · exact ⟨_,rfl,.inr rfl⟩
  refine ⟨fun node table => ?_,fun node table => ?_,sound.written,sound.tables⟩
  · obtain ⟨memory,same,lost⟩ := ids node table
    have orderly := sound.orderly node table
    rw [same]
    refine ⟨orderly.bounded,fun idgen held => ?_,orderly.below,orderly.ordered⟩
    rcases lost with rfl | rfl
    · cases held
    · exact orderly.memory idgen held
  · obtain ⟨memory,same,_⟩ := ids node table
    rw [same]
    exact sound.ranges node table

lemma step_sound {cluster next : Cluster υ β} (sound : Sound asks cluster) {action : Action υ β}
    (bounded : ∀ node table, asks node table + action.asks node table < 2 ^ 64) (moved : step cluster action = some next) :
    Sound (fun node table => asks node table + action.asks node table) next := by
  cases action with
  | create origin calls uuid obj =>
    simp only [step] at moved
    split at moved
    · cases moved
    · rename_i fresh
      cases moved
      exact create_sound sound (by simpa using fresh) calls origin obj
  | insert origin calls table rowset =>
    simp only [step] at moved
    split at moved
    · rename_i found
      cases moved
      exact insert_sound sound found bounded
    · cases moved
  | crash origin =>
    cases moved
    exact crash_sound sound origin

lemma run_sound {cluster final : Cluster υ β} {actions : List (Action υ β)} (sound : Sound asks cluster)
    (bounded : ∀ node table, asks node table + asked node table actions < 2 ^ 64)
    (ran : actions.foldlM step cluster = some final) :
    Sound (fun node table => asks node table + asked node table actions) final := by
  induction actions generalizing asks cluster with
  | nil => exact Option.some.inj ran ▸ sound
  | cons action rest ih =>
    rw [foldlM_cons] at ran
    obtain ⟨middle,moved,ran⟩ := bind_eq_some_iff.mp ran
    have split (node table : υ) : asks node table + asked node table (action::rest) =
        asks node table + action.asks node table + asked node table rest := by simp [asked,Nat.add_assoc]
    simp only [split] at bounded ⊢
    refine ih (step_sound sound (fun node table => ?_) moved) bounded ran
    have limit := bounded node table
    omega

def Apart (one two : UInt64 × List (Option β)) : Prop :=
  one = two ∨ one.1.toNat + (rangeOf one).2.toNat ≤ two.1.toNat ∨ two.1.toNat + (rangeOf two).2.toNat ≤ one.1.toNat

lemma inserts_apart {cluster : Cluster υ β} (sound : Sound asks cluster) {one two : List (Option β)}
    (oneLogged : (origin,.rowInsert first table (some one)) ∈ cluster.logged)
    (twoLogged : (origin,.rowInsert second table (some two)) ∈ cluster.logged) :
    first.toNat + one.length < 2 ^ 64 ∧
      ((first,one) = (second,two) ∨ first.toNat + one.length ≤ second.toNat ∨ second.toNat + two.length ≤ first.toNat) := by
  have counted {first : UInt64} {items : List (Option β)} (logged : (origin,.rowInsert first table (some items)) ∈ cluster.logged) :
      (UInt32.ofNat items.length).toNat = items.length := by
    have written := sound.written _ logged
    cases written with
    | insert _ _ rowset _ => exact range_toNat rowset
  have member {first : UInt64} {items : List (Option β)} (logged : (origin,.rowInsert first table (some items)) ∈ cluster.logged) :
      (first,items) ∈ cluster.logged.filterMap (insertOf origin table) :=
    mem_filterMap.mpr ⟨_,logged,by simp [insertOf]⟩
  have orderly := sound.orderly origin table
  constructor
  · have below := orderly.below (rangeOf (first,one))
      ((sound.ranges origin table).subset (mem_map_of_mem (member oneLogged)))
    have limit := (IdRange.counter ((cluster.nodes origin).rowIds table).storage).toNat_lt
    simp only [rangeOf,counted oneLogged] at below
    omega
  · have ordered := pairwise_map.mp (orderly.ordered.sublist (sound.ranges origin table))
    have either : Apart (first,one) (second,two) := List.Pairwise.forall_of_forall_of_flip (fun _ _ => .inl rfl)
      (ordered.imp fun before => .inr (.inl before)) (ordered.imp fun before => .inr (.inr before))
      (member oneLogged) (member twoLogged)
    simpa only [Apart,rangeOf,counted oneLogged,counted twoLogged] using either

lemma creates_once {cluster : Cluster υ β} (sound : Sound asks cluster) {uuid : υ} {one two : β}
    (oneLogged : (first,.tableCreate (some (some uuid,one))) ∈ cluster.logged)
    (twoLogged : (second,.tableCreate (some (some uuid,two))) ∈ cluster.logged) : one = two := by
  have short := sound.tables uuid
  have here := mem_filter.mpr ⟨oneLogged,show creates uuid _ = true from by simp [creates]⟩
  have there := mem_filter.mpr ⟨twoLogged,show creates uuid _ = true from by simp [creates]⟩
  match filtered : cluster.logged.filter (creates uuid),short with
  | [],_ => simp [filtered] at here
  | [only],_ =>
    rw [filtered] at here there
    have same := (mem_singleton.mp here).trans (mem_singleton.mp there).symm
    cases same
    rfl

-- The applying side. A node applies entries of the others and of its own, and
-- the tables it creates are registered directly as well.
inductive Event (υ β : Type) where
  | apply (entry : υ × Op υ β)
  | register (uuid : υ) (obj : β)

def replay (restore : β → Option γ) (number : υ → UInt32) (data : Data υ β) : Event υ β → Data υ β
  | .apply (origin,op) => (trlogApply restore (number origin) {} data op).2
  | .register uuid obj => {data with tables:=(add {} data.tables uuid obj).2}

def effect (number : υ → UInt32) : Event υ β → Cell υ → Change β
  | .apply (origin,op) => change (number origin) op
  | .register uuid obj => change 0 (.tableCreate (some (some uuid,obj)))

lemma replay_cells (restore : β → Option γ) (number : υ → UInt32) (data : Data υ β) (event : Event υ β) (cell : Cell υ) :
    cells (replay restore number data event) cell = (effect number event cell).act (cells data cell) := by
  cases event with
  | apply entry => exact congrFun (trlogApply_working restore (number entry.1) data entry.2).2 cell
  | register uuid obj =>
    cases cell with
    | row table id => rfl
    | table other =>
      simp only [replay,cells,effect,change,status_add]
      split
      · rename_i same
        rw [same]
        rfl
      · rfl

lemma replays_cells (restore : β → Option γ) (number : υ → UInt32) (data : Data υ β) (events : List (Event υ β)) (cell : Cell υ) :
    cells (events.foldl (replay restore number) data) cell =
      (events.map fun event => effect number event cell).foldl (fun state change => change.act state) (cells data cell) := by
  induction events generalizing data with
  | nil => rfl
  | cons event rest ih => rw [foldl_cons,ih,replay_cells,map_cons,foldl_cons]

-- A node that applies the entries of a set in some order, perhaps several times.
structure Replays (entries : List (υ × Op υ β)) (number : υ → UInt32) (events : List (Event υ β)) : Prop where
  numbered : Set.InjOn number {origin | ∃ op, (origin,op) ∈ entries}
  only : ∀ entry, .apply entry ∈ events → entry ∈ entries
  direct : ∀ uuid obj, .register uuid obj ∈ events → ∃ origin, (origin,.tableCreate (some (some uuid,obj))) ∈ entries
  all : ∀ entry ∈ entries, .apply entry ∈ events

def Created (entries : List (υ × Op υ β)) (uuid : υ) (obj : β) : Prop :=
  ∃ origin, (origin,.tableCreate (some (some uuid,obj))) ∈ entries

def Inserted (entries : List (υ × Op υ β)) (table : υ) : Set (υ × UInt64 × β) :=
  {row | ∃ first items, (row.1,.rowInsert first table (some items)) ∈ entries ∧ row.2 ∈ rowList first items}

def visible (entries : List (υ × Op υ β)) (number : υ → UInt32) (data : Data υ β) (table : υ) : Set (υ × UInt64 × β) :=
  {row | (∃ op, (row.1,op) ∈ entries) ∧ status (data.rowdata table) ⟨number row.1,row.2.1⟩ = .stored row.2.2}

section content

variable {asks : υ → υ → Nat} {cluster : Cluster υ β} {entries : List (υ × Op υ β)} {number : υ → UInt32}
  {events : List (Event υ β)}

lemma effect_table (site : Replays entries number events) :
    .add obj ∈ (events.map fun event => effect number event (.table uuid)) ↔ Created entries uuid obj := by
  constructor
  · intro member
    obtain ⟨event,happened,adds⟩ := mem_map.mp member
    cases event with
    | apply entry =>
      obtain ⟨origin,op⟩ := entry
      match op with
      | .tableCreate (some (some other,data)) =>
        simp only [effect,change] at adds
        split at adds
        · rename_i same
          cases adds
          exact ⟨origin,same ▸ site.only _ happened⟩
        · cases adds
      | .tableCreate none | .tableCreate (some (none,_)) | .rowInsert _ _ none | .rowInsert _ _ (some _) | .rowDelete _ _
      | .other _ => cases adds
    | register other data =>
      simp only [effect,change] at adds
      split at adds
      · rename_i same
        cases adds
        exact same ▸ site.direct other _ happened
      · cases adds
  · rintro ⟨origin,logged⟩
    exact mem_map.mpr ⟨_,site.all _ logged,by simp [effect,change]⟩

lemma effect_row (site : Replays entries number events) :
    .add obj ∈ (events.map fun event => effect number event (.row table row)) ↔
      ∃ origin first items, (origin,.rowInsert first table (some items)) ∈ entries ∧
        rowAt (number origin) first items row = some obj := by
  constructor
  · intro member
    obtain ⟨event,happened,adds⟩ := mem_map.mp member
    cases event with
    | apply entry =>
      obtain ⟨origin,op⟩ := entry
      match op with
      | .rowInsert first target (some items) =>
        simp only [effect,change] at adds
        split at adds
        · rename_i same
          split at adds
          · rename_i item found
            cases adds
            exact ⟨origin,first,items,same ▸ site.only _ happened,found⟩
          · cases adds
        · cases adds
      | .rowDelete target id =>
        simp only [effect,change] at adds
        split at adds <;> cases adds
      | .tableCreate none | .tableCreate (some (none,_)) | .tableCreate (some (some _,_)) | .rowInsert _ _ none
      | .other _ => cases adds
    | register other data => cases adds
  · rintro ⟨origin,first,items,logged,found⟩
    exact mem_map.mpr ⟨_,site.all _ logged,by simp [effect,change,found]⟩

lemma effect_kept (sound : Sound asks cluster) (logged : ∀ entry ∈ entries, entry ∈ cluster.logged)
    (site : Replays entries number events) (cell : Cell υ) :
    ∀ change ∈ (events.map fun event => effect number event cell), change ≠ .delete := by
  rintro _ member rfl
  obtain ⟨event,happened,deletes⟩ := mem_map.mp member
  cases event with
  | apply entry =>
    obtain ⟨table,row,same,_⟩ := change_deletes deletes
    have written := sound.written entry (logged entry (site.only entry happened))
    rw [same] at written
    cases written
  | register uuid obj =>
    obtain ⟨table,row,same,_⟩ := change_deletes deletes
    cases same

lemma replays_tables (sound : Sound asks cluster) (logged : ∀ entry ∈ entries, entry ∈ cluster.logged)
    (site : Replays entries number events) (restore : β → Option γ) (uuid : υ) :
    (∀ obj, status (events.foldl (replay restore number) fresh).tables uuid = .stored obj ↔ Created entries uuid obj) ∧
      status (events.foldl (replay restore number) fresh).tables uuid ≠ .removed := by
  have final := replays_cells restore number fresh events (.table uuid)
  simp only [cells] at final
  rw [final]
  have kept := effect_kept sound logged site (.table uuid)
  refine ⟨fun obj => ?_,adds_present kept⟩
  refine (adds_settle kept (fun one two first second => ?_) obj).trans (effect_table site)
  obtain ⟨origin,oneLogged⟩ := (effect_table site).mp first
  obtain ⟨other,twoLogged⟩ := (effect_table site).mp second
  exact creates_once sound (logged _ oneLogged) (logged _ twoLogged)

lemma inserted_apart (sound : Sound asks cluster) (logged : ∀ entry ∈ entries, entry ∈ cluster.logged) {one two : List (Option β)}
    {origin table : υ} {first second id : UInt64} {left right : β}
    (oneLogged : (origin,.rowInsert first table (some one)) ∈ entries) (oneRow : (id,left) ∈ rowList first one)
    (twoLogged : (origin,.rowInsert second table (some two)) ∈ entries) (twoRow : (id,right) ∈ rowList second two) :
    (first,one,left) = (second,two,right) := by
  obtain ⟨oneBound,either⟩ := inserts_apart sound (logged _ oneLogged) (logged _ twoLogged)
  obtain ⟨twoBound,_⟩ := inserts_apart sound (logged _ twoLogged) (logged _ oneLogged)
  obtain ⟨oneLow,oneHigh⟩ := rowList_bounds oneBound oneRow
  obtain ⟨twoLow,twoHigh⟩ := rowList_bounds twoBound twoRow
  rcases either with same | before | after
  · cases same
    have value := rowList_rowAt 0 oneBound oneRow
    rw [rowList_rowAt 0 oneBound twoRow] at value
    cases value
    rfl
  · omega
  · omega

lemma replays_rows (sound : Sound asks cluster) (logged : ∀ entry ∈ entries, entry ∈ cluster.logged)
    (site : Replays entries number events) (restore : β → Option γ) (table : υ) (row : ObjId) (obj : β) :
    status ((events.foldl (replay restore number) fresh).rowdata table) row = .stored obj ↔
      ∃ origin id, row = ⟨number origin,id⟩ ∧ (origin,id,obj) ∈ Inserted entries table := by
  have final := replays_cells restore number fresh events (.row table row)
  simp only [cells] at final
  rw [final]
  have kept := effect_kept sound logged site (.row table row)
  have agree : ∀ one two, Change.add one ∈ (events.map fun event => effect number event (.row table row)) →
      Change.add two ∈ (events.map fun event => effect number event (.row table row)) → one = two := by
    intro left right leftAdded rightAdded
    obtain ⟨origin,first,one,oneLogged,oneFound⟩ := (effect_row site).mp leftAdded
    obtain ⟨other,second,two,twoLogged,twoFound⟩ := (effect_row site).mp rightAdded
    obtain ⟨oneNode,oneRow⟩ := rowAt_rowList oneFound
    obtain ⟨twoNode,twoRow⟩ := rowAt_rowList twoFound
    obtain rfl := site.numbered ⟨_,oneLogged⟩ ⟨_,twoLogged⟩ (oneNode.symm.trans twoNode)
    have same := inserted_apart sound logged oneLogged oneRow twoLogged twoRow
    cases same
    rfl
  rw [show status ((fresh : Data υ β).rowdata table) row = .absent from rfl,adds_settle kept agree obj,effect_row site]
  constructor
  · rintro ⟨origin,first,items,entry,found⟩
    obtain ⟨node,inside⟩ := rowAt_rowList found
    exact ⟨origin,row.id,by rw [← node],first,items,entry,inside⟩
  · rintro ⟨origin,id,rfl,first,items,entry,inside⟩
    exact ⟨origin,first,items,entry,rowList_rowAt _ (inserts_apart sound (logged _ entry) (logged _ entry)).1 inside⟩

lemma replays_visible (sound : Sound asks cluster) (logged : ∀ entry ∈ entries, entry ∈ cluster.logged)
    (site : Replays entries number events) (restore : β → Option γ) (table : υ) :
    visible entries number (events.foldl (replay restore number) fresh) table = Inserted entries table := by
  ext ⟨origin,id,obj⟩
  constructor
  · rintro ⟨known,held⟩
    obtain ⟨other,found,same,first,items,entry,member⟩ := (replays_rows sound logged site restore table _ _).mp held
    obtain rfl : origin = other := site.numbered known ⟨_,entry⟩ (congrArg ObjId.node same)
    obtain rfl : id = found := congrArg ObjId.id same
    exact ⟨first,items,entry,member⟩
  · intro inside
    obtain ⟨first,items,entry,member⟩ := inside
    exact ⟨⟨_,entry⟩,(replays_rows sound logged site restore table _ _).mpr ⟨origin,id,rfl,first,items,entry,member⟩⟩

end content

-- No two rows of the set share origin, table and id, and an insert that is
-- accepted has every item of its row list among its rows.
structure Separate (entries : List (υ × Op υ β)) (restore : β → Option γ) : Prop where
  between : ∀ {origin table first second one two id left right},
    (origin,.rowInsert first table (some one)) ∈ entries → (id,left) ∈ rowList first one →
    (origin,.rowInsert second table (some two)) ∈ entries → (id,right) ∈ rowList second two →
    (first,one,left) = (second,two,right)
  inside : ∀ {origin table first items}, (origin,.rowInsert first table (some items)) ∈ entries →
    ((rowList first items).map Prod.fst).Nodup
  whole : ∀ {origin table first items}, (origin,.rowInsert first table (some items)) ∈ entries → ∀ node data,
    (trlogApply restore node {} data (.rowInsert first table (some items))).1 = true →
    (rowList first items).map (fun row => some row.2) = items

-- Two nodes log a table and three inserts. One node applies them in order, the
-- other one backwards and then again, with another numbering.
def site (uuid : Nat) : Space Nat Nat :=
  ⟨uuid,fun _ => some 0,fresh,fun _ => none,fun _ => Trlog.fresh⟩

def rowset (items : List (Option Nat)) (counted : items.length < 2 ^ 31) : Rowset Nat := ⟨true,items,counted⟩

def logging : List (Action Nat Nat) :=
  [.create 1 {} 7 70,.insert 1 {} 7 (rowset [some 10,some 11] (by decide)),.insert 2 {} 7 (rowset [some 20] (by decide)),
    .crash 1,.insert 1 {} 7 (rowset [some 12] (by decide))]

def entries : List (Nat × Op Nat Nat) :=
  [(1,.tableCreate (some (some 7,70))),(1,.rowInsert 0 7 (some [some 10,some 11])),(2,.rowInsert 0 7 (some [some 20])),
    (1,.rowInsert 2 7 (some [some 12]))]

def forward : List (Event Nat Nat) := entries.map .apply
def backward : List (Event Nat Nat) := .register 7 70::(entries.reverse ++ entries).map .apply

end MedvedDB.Inserts
