import MedvedDB.Basic
import MedvedDB.Lmdb

open MedvedDB.Lmdb
namespace MedvedDB.NodeIdentity

-- The METAINF map: field values as bytes under the numbers of the fields.
structure Storage where
  metainf : Option (KeyMap Nat (List UInt8))

def metainfMap : MapName Storage Nat (List UInt8) :=
  ⟨fun storage => storage.metainf,fun map storage => {storage with metainf:=some map},fun _ _ => rfl,fun found => by rw [← found]⟩

def fresh : Storage := ⟨none⟩

-- mdv_map_field: `size` is the room of the value until a value is read.
structure Field where
  key : Nat
  size : Nat
  value : List UInt8
  empty : Bool
  changed : Bool
  deriving DecidableEq

def fieldInit (key size : Nat) : Field := ⟨key,size,[],true,false⟩

def fieldSet (field : Field) (value : List UInt8) : Field := {field with value:=value,empty:=false,changed:=true}

structure Metainf where
  version : Field
  uuid : Field

def init : Metainf := ⟨fieldInit 0 4,fieldInit 1 16⟩

def accept (field : Field) (value : List UInt8) : Field :=
  if value.length ≤ field.size then {field with size:=value.length,value:=value,empty:=false,changed:=false} else field

-- One turn of mdv_map_read and of mdv_map_write. A field that is not found, or
-- whose get fails, stays empty; a put that fails leaves the field changed.
def readField (attempt : Attempt) (field : Field) (txn : Txn Storage) : Field × Txn Storage :=
  match mapGetBy attempt metainfMap txn field.key with
  | (none,txn) => (field,txn)
  | (some value,txn) => (accept field value,txn)

def writeField (attempt : Attempt) (field : Field) (txn : Txn Storage) : Field × Txn Storage :=
  if field.changed then
    match mapPutBy attempt metainfMap txn field.key field.value with
    | (true,txn) => ({field with changed:=false},txn)
    | (false,txn) => (field,txn)
  else (field,txn)

structure LoadCalls where
  start : Bool := true
  map : Bool := true
  version : Attempt := .works
  uuid : Attempt := .works

-- Whatever fails here, mdv_metainf_load returns true.
def load (calls : LoadCalls) (storage : Storage) : Metainf :=
  match transactionStart calls.start storage with
  | none => init
  | some txn =>
    match mapOpen calls.map false metainfMap txn with
    | none => init
    | some txn =>
      let (version,txn) := readField calls.version init.version txn
      let (uuid,_) := readField calls.uuid init.uuid txn
      ⟨version,uuid⟩

def validate (version generated : List UInt8) (metainf : Metainf) : Metainf :=
  ⟨if metainf.version.empty then fieldSet metainf.version version else metainf.version,
    if metainf.uuid.empty then fieldSet metainf.uuid generated else metainf.uuid⟩

structure FlushCalls where
  start : Bool := true
  map : Bool := true
  version : Attempt := .works
  uuid : Attempt := .works
  commit : Bool := true

-- Nobody is told when a put or the commit fails.
def flush (calls : FlushCalls) (metainf : Metainf) (storage : Storage) : Storage :=
  match transactionStart calls.start storage with
  | none => storage
  | some txn =>
    match mapOpen calls.map true metainfMap txn with
    | none => (transactionCommit calls.commit txn storage).2
    | some txn =>
      let (_,txn) := writeField calls.version metainf.version txn
      let (_,txn) := writeField calls.uuid metainf.uuid txn
      (transactionCommit calls.commit txn storage).2

structure Start where
  version : List UInt8 := [1,0,0,0]
  uuid : List UInt8
  sized : uuid.length = 16
  load : LoadCalls := {}
  flush : FlushCalls := {}

-- The part of mdv_core_create that reads and writes the storage.
def metainf (start : Start) (storage : Storage) : Metainf := validate start.version start.uuid (load start.load storage)

def coreCreate (start : Start) (storage : Storage) : Storage := flush start.flush (metainf start storage) storage

def used (start : Start) (storage : Storage) : List UInt8 := (metainf start storage).uuid.value

def stored (storage : Storage) : Option (List UInt8) := storage.metainf.bind fun map => map.find 1

def finds (calls : LoadCalls) : Bool := calls.start && calls.map && calls.version ≠ .breaks && calls.uuid = .works

def saves (calls : FlushCalls) (metainf : Metainf) : Bool :=
  calls.start && calls.map && !(metainf.version.changed && calls.version = .breaks) && calls.uuid = .works && calls.commit

def lookup (storage : Storage) (key : Nat) : Option (List UInt8) := storage.metainf.bind fun map => map.find key

lemma readField_running (attempt : Attempt) (field : Field) (work : Storage) :
    readField attempt field (running work) =
      ((if attempt = .works then lookup work field.key else none).elim field (accept field),
        if attempt = .breaks then broken work else running work) := by
  cases attempt with
  | works =>
    have same : ((metainfMap.content work).bind fun map => map.find field.key) = lookup work field.key := rfl
    simp only [readField,mapGetBy,get_running,if_true,same]
    cases lookup work field.key <;> rfl
  | refused => rfl
  | breaks => rfl

lemma readField_broken (attempt : Attempt) (field : Field) (work : Storage) :
    readField attempt field (broken work) = (field,broken work) := by
  cases attempt <;> rfl

lemma load_uuid (calls : LoadCalls) (storage : Storage) :
    (load calls storage).uuid = (if finds calls then stored storage else none).elim (fieldInit 1 16) (accept (fieldInit 1 16)) := by
  unfold load
  cases begun : calls.start with
  | false => simp [finds,begun,init]
  | true =>
    simp only [start_eq,if_true,open_existing]
    cases opened : calls.map with
    | false => simp [finds,begun,opened,init]
    | true =>
      cases found : metainfMap.content storage with
      | none =>
        have nothing : storage.metainf = none := found
        simp [stored,nothing,init]
      | some map =>
        simp only [isSome_some,Bool.and_self,if_true,readField_running]
        cases broke : calls.version <;> simp [finds,begun,opened,broke,readField_running,readField_broken,init,lookup,stored,fieldInit]

lemma accept_key (field : Field) (value : List UInt8) : (accept field value).key = field.key := by
  unfold accept
  split <;> rfl

lemma readField_key (attempt : Attempt) (field : Field) (txn : Txn Storage) : (readField attempt field txn).1.key = field.key := by
  unfold readField
  split
  · rfl
  · exact accept_key field _

lemma metainf_keys (start : Start) (storage : Storage) :
    (metainf start storage).version.key = 0 ∧ (metainf start storage).uuid.key = 1 := by
  have loaded : (load start.load storage).version.key = 0 ∧ (load start.load storage).uuid.key = 1 := by
    unfold load
    split
    · exact ⟨rfl,rfl⟩
    · split
      · exact ⟨rfl,rfl⟩
      · exact ⟨readField_key _ _ _,readField_key _ _ _⟩
  unfold metainf validate
  constructor
  · simp only
    split
    · exact loaded.1
    · exact loaded.1
  · simp only
    split
    · exact loaded.2
    · exact loaded.2

lemma writeField_running (attempt : Attempt) (field : Field) (work : Storage) (present : work.metainf.isSome) :
    ∃ after : Storage, after.metainf.isSome ∧
      (writeField attempt field (running work)).2 = (if field.changed ∧ attempt = .breaks then broken after else running after) ∧
      ∀ key, lookup after key = if field.changed ∧ attempt = .works ∧ key = field.key then some field.value else lookup work key := by
  obtain ⟨map,found⟩ := isSome_iff_exists.mp present
  have content : metainfMap.content work = some map := found
  cases dirty : field.changed with
  | false => exact ⟨work,present,by simp [writeField,dirty],by simp⟩
  | true =>
    cases attempt with
    | works =>
      refine ⟨metainfMap.replace (map.insert field.key field.value) work,rfl,?_,?_⟩
      · simp [writeField,dirty,mapPutBy,put_running true _ _ content]
      · intro key
        simp [lookup,metainfMap,found]
    | refused => exact ⟨work,present,by simp [writeField,dirty,mapPutBy],by simp⟩
    | breaks => exact ⟨work,present,by simp [writeField,dirty,mapPutBy,put_running false _ _ content],by simp⟩

lemma writeField_broken (attempt : Attempt) (field : Field) (work : Storage) :
    (writeField attempt field (broken work)).2 = broken work := by
  unfold writeField
  split
  · cases attempt <;> simp [mapPutBy]
  · rfl

lemma stored_flush (calls : FlushCalls) (metainf : Metainf) (storage : Storage) (versionKey : metainf.version.key = 0)
    (uuidKey : metainf.uuid.key = 1) :
    stored (flush calls metainf storage) =
      if metainf.uuid.changed ∧ saves calls metainf then some metainf.uuid.value else stored storage := by
  unfold flush
  cases begun : calls.start with
  | false => simp [saves,begun]
  | true =>
    simp only [start_eq,if_true,open_create]
    cases opened : calls.map with
    | false =>
      simp only [false_eq_true,if_false,commit_running,saves,begun,opened]
      cases calls.commit <;> simp
    | true =>
      simp only [if_true]
      have kept : lookup (metainfMap.replace ((metainfMap.content storage).getD .empty) storage) 1 = stored storage := by
        cases found : storage.metainf <;> simp [lookup,metainfMap,stored,found]
      obtain ⟨first,present,version,firstKept⟩ := writeField_running calls.version metainf.version
        (metainfMap.replace ((metainfMap.content storage).getD .empty) storage) rfl
      obtain ⟨second,_,uuid,secondKept⟩ := writeField_running calls.uuid metainf.uuid first present
      have after : lookup second 1 = if metainf.uuid.changed ∧ calls.uuid = .works then some metainf.uuid.value else stored storage := by
        rw [secondKept,firstKept,kept]
        simp [versionKey,uuidKey]
      rw [version]
      by_cases brokeFirst : metainf.version.changed ∧ calls.version = .breaks
      · rw [if_pos brokeFirst,writeField_broken]
        simp [saves,brokeFirst]
      · rw [if_neg brokeFirst,uuid]
        by_cases brokeSecond : metainf.uuid.changed ∧ calls.uuid = .breaks
        · rw [if_pos brokeSecond]
          simp [saves,brokeSecond]
        · rw [if_neg brokeSecond,commit_running]
          have intact : (!(metainf.version.changed && decide (calls.version = .breaks))) = true := by
            cases dirty : metainf.version.changed <;> simp_all
          cases done : calls.commit with
          | false => simp [saves,done]
          | true =>
            simp only [if_true]
            rw [show stored second = lookup second 1 from rfl,after]
            simp [saves,begun,opened,done,intact]

def Sized (storage : Storage) : Prop := ∀ uuid, stored storage = some uuid → uuid.length = 16

def recalled (start : Start) (storage : Storage) : Option (List UInt8) := if finds start.load then stored storage else none

variable {start : Start} {storage : Storage}

lemma metainf_uuid (sized : Sized storage) :
    (metainf start storage).uuid =
      match recalled start storage with
      | some uuid => ⟨1,uuid.length,uuid,false,false⟩
      | none => fieldSet (fieldInit 1 16) start.uuid := by
  have loaded : (load start.load storage).uuid =
    (recalled start storage).elim (fieldInit 1 16) (accept (fieldInit 1 16)) := load_uuid _ _
  simp only [metainf,validate,loaded]
  cases found : recalled start storage with
  | none => rfl
  | some uuid =>
    have length : uuid.length = 16 := by
      unfold recalled at found
      split at found
      · exact sized uuid found
      · cases found
    simp [accept,fieldInit,length]

lemma used_eq (sized : Sized storage) :
    used start storage = (recalled start storage).getD start.uuid := by
  rw [used,metainf_uuid sized]
  cases recalled start storage <;> rfl

lemma stored_coreCreate (sized : Sized storage) :
    stored (coreCreate start storage) =
      if recalled start storage = none ∧ saves start.flush (metainf start storage) then some start.uuid else stored storage := by
  obtain ⟨versionKey,uuidKey⟩ := metainf_keys start storage
  rw [coreCreate,stored_flush _ _ _ versionKey uuidKey,metainf_uuid sized]
  cases recalled start storage <;> simp [fieldSet]

lemma sized_coreCreate (sized : Sized storage) : Sized (coreCreate start storage) := by
  intro uuid found
  rw [stored_coreCreate sized] at found
  split at found
  · cases found
    exact start.sized
  · exact sized uuid found

lemma stored_isSome_iff (start : Start) (sized : Sized storage) :
    (stored (coreCreate start storage)).isSome ↔
      (stored storage).isSome ∨ saves start.flush (metainf start storage) := by
  rw [stored_coreCreate sized]
  cases found : stored storage with
  | none => simp [recalled,found]
  | some uuid => split <;> simp

def reach (storage : Storage) (starts : List Start) : Storage := starts.foldl (fun storage start => coreCreate start storage) storage

def uses : Storage → List Start → List (List UInt8)
  | _,[] => []
  | storage,start::rest => used start storage::uses (coreCreate start storage) rest

def storages : Storage → List Start → List Storage
  | storage,[] => [storage]
  | storage,start::rest => storage::storages (coreCreate start storage) rest

def Lasts (earlier later : Storage) : Prop := ∀ uuid, stored earlier = some uuid → stored later = some uuid

structure KeepsIdentity (starts : List Start) : Prop where
  same : ∀ one ∈ uses fresh starts, ∀ two ∈ uses fresh starts, one = two
  lasting : (storages fresh starts).Pairwise Lasts

def Holds (uuid : List UInt8) (storage : Storage) : Prop := ∀ other, stored storage = some other → other = uuid

section Runs

variable {uuid : List UInt8} {storage : Storage} {start : Start}

lemma used_iff (sized : Sized storage) (holds : Holds uuid storage) :
    used start storage = uuid ↔ (stored storage).isSome ∧ finds start.load ∨ start.uuid = uuid := by
  rw [used_eq sized,recalled]
  cases found : stored storage with
  | none => simp
  | some other =>
    rw [holds other found]
    cases finds start.load <;> simp

lemma holds_coreCreate (sized : Sized storage) (holds : Holds uuid storage) (same : used start storage = uuid) :
    Holds uuid (coreCreate start storage) := by
  intro other found
  rw [used_eq sized] at same
  rw [stored_coreCreate sized] at found
  split at found
  · rename_i lost
    cases found
    rw [lost.1] at same
    exact same
  · exact holds other found

lemma lasts_coreCreate (sized : Sized storage) (holds : Holds uuid storage) (same : used start storage = uuid) :
    Lasts storage (coreCreate start storage) := by
  intro other found
  have present := (stored_isSome_iff start sized).mpr (.inl (by rw [found]; rfl))
  obtain ⟨later,stays⟩ := isSome_iff_exists.mp present
  rw [stays,holds_coreCreate sized holds same later stays,holds other found]

lemma split_cons {α : Type} {P : List α → α → Prop} (first : α) (rest : List α) :
    (∀ before item after, first::rest = before ++ item::after → P before item) ↔
      P [] first ∧ ∀ before item after, rest = before ++ item::after → P (first::before) item := by
  constructor
  · intro all
    exact ⟨all [] first rest rfl,fun before item after split => all (first::before) item after (by rw [split]; rfl)⟩
  · intro both before item after split
    cases before with
    | nil =>
      cases split
      exact both.1
    | cons other before =>
      cases split
      exact both.2 before item after rfl

lemma uses_iff (starts : List Start) (sized : Sized storage) (holds : Holds uuid storage) :
    (∀ one ∈ uses storage starts, one = uuid) ↔
      ∀ before start after, starts = before ++ start::after →
        (stored (reach storage before)).isSome ∧ finds start.load ∨ start.uuid = uuid := by
  induction starts generalizing storage with
  | nil => simp [uses]
  | cons start rest ih =>
    rw [uses,forall_mem_cons,split_cons,used_iff sized holds]
    apply and_congr_right
    intro recalls
    exact ih (sized_coreCreate sized) (holds_coreCreate sized holds ((used_iff sized holds).mpr recalls))

lemma storages_last (starts : List Start) (sized : Sized storage) (holds : Holds uuid storage)
    (same : ∀ one ∈ uses storage starts, one = uuid) :
    (∀ later ∈ storages storage starts, Lasts storage later) ∧ (storages storage starts).Pairwise Lasts := by
  induction starts generalizing storage with
  | nil => simp [storages,Lasts]
  | cons start rest ih =>
    rw [uses,forall_mem_cons] at same
    have step := lasts_coreCreate sized holds same.1
    obtain ⟨all,pairs⟩ := ih (sized_coreCreate sized) (holds_coreCreate sized holds same.1) same.2
    have onward : ∀ later ∈ storages (coreCreate start storage) rest, Lasts storage later :=
      fun later member other found => all later member other (step other found)
    refine ⟨?_,pairwise_cons.mpr ⟨onward,pairs⟩⟩
    rw [storages,forall_mem_cons]
    exact ⟨fun _ found => found,onward⟩

end Runs

theorem identity_kept_iff (first : Start) (rest : List Start) :
    KeepsIdentity (first::rest) ↔
      ∀ before start after, rest = before ++ start::after →
        (stored (reach fresh (first::before))).isSome ∧ finds start.load ∨ start.uuid = first.uuid := by
  have sized : Sized fresh := fun _ found => nomatch found
  have holds : Holds first.uuid fresh := fun _ found => nomatch found
  have begins : used first fresh = first.uuid := (used_iff sized holds).mpr (.inr rfl)
  have later := uses_iff rest (sized_coreCreate sized) (holds_coreCreate sized holds begins)
  rw [show (∀ before start after, rest = before ++ start::after →
    (stored (reach fresh (first::before))).isSome ∧ finds start.load ∨ start.uuid = first.uuid) ↔ _ from later.symm]
  constructor
  · intro keeps one member
    have same := keeps.same one (mem_cons_of_mem _ member) (used first fresh) mem_cons_self
    rw [same,begins]
  · intro same
    have all : ∀ one ∈ uses fresh (first::rest), one = first.uuid := by
      rw [uses,forall_mem_cons]
      exact ⟨begins,same⟩
    exact ⟨fun one first two second => (all one first).trans (all two second).symm,
      (storages_last (first::rest) sized holds all).2⟩

-- The second start does not get a transaction for mdv_metainf_load, but one for
-- mdv_metainf_flush.
def unluckyStarts : List Start :=
  [{uuid:=replicate 16 1,sized:=rfl},{uuid:=replicate 16 2,sized:=rfl,load:={start:=false}}]

theorem second_start_changes_uuid :
    uses fresh unluckyStarts = [replicate 16 1,replicate 16 2] ∧
      (storages fresh unluckyStarts).map stored = [none,some (replicate 16 1),some (replicate 16 2)] := by
  exact ⟨rfl,rfl⟩

end MedvedDB.NodeIdentity
