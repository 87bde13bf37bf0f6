import MedvedDB.Enumerator

open MedvedDB.Lmdb
namespace MedvedDB.TwoPhaseSet

variable {κ ν : Type}

-- mdv_objects_enumerator_impl_reset over the objects that the transaction sees.
def Enumerator.reset (works : Bool) (objects : List (κ × ν)) (state : Enumerator κ ν) : Errno × Enumerator κ ν :=
  if !works then (.failed,state)
  else match objects with
    | [] => (.failed,state)
    | entry::rest => (.ok,⟨some entry,rest⟩)

-- mdv_scan_seq_t. `current` says that its pointer is set: it then leads to the
-- current entry of the enumerator, which is zeroed as long as there is none.
structure Scanner (κ ν : Type) where
  objects : List (κ × ν)
  enumerator : Enumerator κ ν
  current : Bool
  ended : Bool
  deriving DecidableEq, Repr

-- MDV_FALSE is none, and MDV_OK comes with the copied entry.
def Scanner.next (works : Bool) (scanner : Scanner κ ν) : Option (Option (κ × ν)) × Scanner κ ν :=
  if scanner.ended then (none,scanner)
  else
    let (err,enumerator) := if scanner.current then scanner.enumerator.next works else (.ok,scanner.enumerator)
    if err ≠ .ok then (none,{scanner with enumerator:=enumerator,current:=false,ended:=true})
    else (some enumerator.current,{scanner with enumerator:=enumerator,current:=true})

def Scanner.reset (works : Bool) (scanner : Scanner κ ν) : Errno × Scanner κ ν :=
  let (err,enumerator) := scanner.enumerator.reset works scanner.objects
  (err,{scanner with enumerator:=enumerator,current:=false,ended:=false})

inductive ScanCall where
  | next | reset
  deriving DecidableEq, Repr

def Scanner.call (scanner : Scanner κ ν) : ScanCall → Scanner κ ν
  | .next => (scanner.next true).2
  | .reset => (scanner.reset true).2

def Scanner.results : Nat → Scanner κ ν → List (Option (Option (κ × ν)))
  | 0,_ => []
  | count+1,scanner => (scanner.next true).1::results count (scanner.next true).2

def inOrder (objects : List (κ × ν)) (count : Nat) : List (Option (Option (κ × ν))) :=
  (objects.map fun entry => some (some entry)).take count ++ replicate (count - objects.length) none

def Scanner.opened (objects : List (κ × ν)) : Scanner κ ν := ⟨objects,cursorFirst objects,false,false⟩

lemma results_ended (count : Nat) {scanner : Scanner κ ν} (ended : scanner.ended = true) : scanner.results count = replicate count none := by
  induction count with
  | zero => rfl
  | succ count ih => simp [Scanner.results,Scanner.next,ended,ih,List.replicate_succ]

lemma results_behind (count : Nat) (objects rest : List (κ × ν)) (entry : κ × ν) :
    Scanner.results count ⟨objects,⟨some entry,rest⟩,true,false⟩ = inOrder rest count := by
  induction count generalizing rest entry with
  | zero => simp [Scanner.results,inOrder]
  | succ count ih =>
    cases rest with
    | nil =>
      simp only [Scanner.results,Scanner.next,Enumerator.next]
      rw [results_ended]
      · simp [inOrder,List.replicate_succ]
      · simp
    | cons entry rest =>
      simp only [Scanner.results,Scanner.next,Enumerator.next]
      simp [ih,inOrder]

lemma results_opened (nonempty : objects ≠ []) (count : Nat) : (Scanner.opened objects).results count = inOrder objects count := by
  cases objects with
  | nil => exact absurd rfl nonempty
  | cons entry rest =>
    cases count with
    | zero => simp [Scanner.results,inOrder]
    | succ count =>
      simp only [Scanner.results,Scanner.next,Scanner.opened,cursorFirst]
      simp [results_behind,inOrder]

lemma call_objects (scanner : Scanner κ ν) (call : ScanCall) : (scanner.call call).objects = scanner.objects := by
  cases call with
  | reset => rfl
  | next =>
    simp only [Scanner.call,Scanner.next]
    split
    · rfl
    · split
      · split <;> rfl
      · rfl

lemma calls_objects (scanner : Scanner κ ν) (calls : List ScanCall) : (calls.foldl Scanner.call scanner).objects = scanner.objects := by
  induction calls generalizing scanner with
  | nil => rfl
  | cons call rest ih => rw [foldl_cons,ih,call_objects]

lemma reset_opened {scanner : Scanner κ ν} (nonempty : scanner.objects ≠ []) : scanner.reset true = (.ok,.opened scanner.objects) := by
  obtain ⟨objects,enumerator,current,ended⟩ := scanner
  cases objects with
  | nil => exact absurd rfl nonempty
  | cons entry rest => rfl

variable [LinearOrder κ]

structure ScanCalls where
  alloc : Bool := true
  enumerator : EnumeratorCalls := {}

def scanSeq (calls : ScanCalls) (storage : Storage κ ν) : Option (Scanner κ ν) :=
  if !calls.alloc then none
  else (enumerator calls.enumerator storage).map fun state => ⟨(storage.objects.getD .empty).entries,state,false,false⟩

lemma scanSeq_working (storage : Storage κ ν) : scanSeq {} storage = some (.opened (storage.objects.getD .empty).entries) := by
  simp [scanSeq,enumerator,enumeratorCreate_eq,cursorOpenExplicit,Scanner.opened]

-- The objects in key order, from the start and after every reset.
def Scans (scanner : Scanner κ ν) (objects : List (κ × ν)) : Prop :=
  (∀ count, scanner.results count = inOrder objects count) ∧
    ∀ (calls : List ScanCall) (count : Nat), ((calls.foldl Scanner.call scanner).reset true).2.results count = inOrder objects count

theorem scan_in_order_iff (storage : Storage κ ν) :
    ∃ scanner, scanSeq {} storage = some scanner ∧
      (Scans scanner (storage.objects.getD .empty).entries ↔ (storage.objects.getD .empty).entries ≠ []) := by
  refine ⟨_,scanSeq_working storage,?_⟩
  constructor
  · intro scans empty
    have first := scans.1 1
    rw [empty] at first
    cases first
  · intro nonempty
    refine ⟨results_opened nonempty,?_⟩
    intro calls count
    have objects := calls_objects (Scanner.opened (storage.objects.getD .empty).entries) calls
    rw [reset_opened (by rw [objects]; exact nonempty),objects]
    exact results_opened nonempty count

-- An empty set: the first call returns MDV_OK with a zeroed entry.
theorem empty_scan_yields :
    (scanSeq {} (fresh : Storage Nat Nat)).map (fun scanner => scanner.results 3) = some [some none,none,none] ∧
      inOrder (((fresh : Storage Nat Nat).objects.getD .empty).entries) 3 = [none,none,none] := by decide

end MedvedDB.TwoPhaseSet
