import MedvedDB.Basic
import MedvedDB.RowTrip

open MedvedDB.Binn
namespace MedvedDB.RowCodec

abbrev Numbered := ObjId × Columns

-- Rows that the server has not numbered yet have the id {0,0}.
def placeholder : ObjId := ⟨0,0⟩

def idBytes (objid : ObjId) : List UInt8 := unsignedBytes 4 objid.node.toNat ++ unsignedBytes 8 objid.id.toNat

def idOfBytes (bytes : List UInt8) : ObjId := ⟨UInt32.ofNat (unsigned (bytes.take 4)),UInt64.ofNat (unsigned (bytes.drop 4))⟩

structure RowsetCalls where
  create : Bool := true
  enumerator : Bool := true
  row : Nat → RowCalls := fun _ => {}
  addRow : Nat → Bool := fun _ => true
  object : Nat → Bool := fun _ => true
  setBlob : Nat → Bool := fun _ => true
  addId : Nat → Bool := fun _ => true

def idObject (objid : ObjId) : Value := .object [("id",.blob (idBytes objid))]

-- The loop of mdv_binn_rowset. A row that cannot be encoded is left out, and a
-- row id that cannot be set is only logged.
def binnRows (calls : RowsetCalls) : Nat → List Numbered → Option (List Value)
  | _,[] => some []
  | index,(objid,columns)::rest =>
    match binnRow (calls.row index) columns with
    | none => binnRows calls (index + 1) rest
    | some values =>
      if !calls.addRow index then none
      else if objid = placeholder then (binnRows calls (index + 1) rest).map (.list values::·)
      else if !calls.object index then none
      else if !calls.setBlob index then (binnRows calls (index + 1) rest).map (.list values::·)
      else if !calls.addId index then none
      else (binnRows calls (index + 1) rest).map fun more => .list values::idObject objid::more

def binnRowset (calls : RowsetCalls) (rows : List Numbered) : Option (List Value) :=
  if !calls.create then none
  else if !calls.enumerator then none
  else binnRows calls 0 rows

-- The element behind a row is its id if it is an object with a blob of twelve bytes.
def rowId (value : Value) : Option ObjId :=
  match objectGetBlob "id" value with
  | some bytes => if bytes.length = 12 then some (idOfBytes bytes) else none
  | none => none

-- The place of the iterator, row_count and success_count of mdv_unbinn_rowset.
structure Reader where
  position : Nat
  rowCount : Nat
  success : Nat

-- One turn of its loop. To put a row back the iterator is started again and
-- moved on by row_count elements.
def turn (casts : Casts) (alloc : Nat → Bool) (desc : List Field) (items : List Value) (reader : Reader) :
    Option (Option (ObjId × List (List UInt8)) × Reader) :=
  match items[reader.position]? with
  | none => none
  | some value =>
    match unbinnRow casts (alloc reader.rowCount) value desc with
    | none => some (none,{reader with position:=reader.position + 1,rowCount:=reader.rowCount + 1})
    | some row =>
      match items[reader.position + 1]? with
      | none => some (some (⟨0,UInt64.ofNat reader.success⟩,row),⟨reader.position + 1,reader.rowCount + 1,reader.success + 1⟩)
      | some next =>
        match rowId next with
        | some objid => some (some (objid,row),⟨reader.position + 2,reader.rowCount + 1,reader.success + 1⟩)
        | none => some (some (⟨0,UInt64.ofNat reader.success⟩,row),
            ⟨min (reader.rowCount + 1) items.length,reader.rowCount + 1,reader.success + 1⟩)

def unbinnRows (casts : Casts) (alloc : Nat → Bool) (desc : List Field) (items : List Value) :
    Nat → Reader → List (ObjId × List (List UInt8))
  | 0,_ => []
  | fuel+1,reader =>
    match turn casts alloc desc items reader with
    | none => []
    | some (row,next) => row.toList ++ unbinnRows casts alloc desc items fuel next

structure UnbinnCalls where
  create : Bool := true
  alloc : Nat → Bool := fun _ => true

def unbinnRowset (casts : Casts) (calls : UnbinnCalls) (value : Value) (desc : List Field) :
    Option (List (ObjId × List (List UInt8))) :=
  if !calls.create then none
  else some (unbinnRows casts calls.alloc desc (foreach value) (foreach value).length ⟨0,0,0⟩)

-- A place the loop can be at. Every turn counts a row, and the iterator never
-- falls behind that count.
def Reader.Sound (reader : Reader) : Prop := reader.rowCount ≤ reader.position

inductive Turned (casts : Casts) (alloc : Nat → Bool) (desc : List Field) (items : List Value) (reader : Reader) :
    Option (ObjId × List (List UInt8)) → Reader → Prop
  | skipped {value : Value} (here : items[reader.position]? = some value)
      (unread : unbinnRow casts (alloc reader.rowCount) value desc = none) :
      Turned casts alloc desc items reader none ⟨reader.position + 1,reader.rowCount + 1,reader.success⟩
  | last {value : Value} {row : List (List UInt8)} (here : items[reader.position]? = some value)
      (ended : items[reader.position + 1]? = none) :
      Turned casts alloc desc items reader (some (⟨0,UInt64.ofNat reader.success⟩,row))
        ⟨reader.position + 1,reader.rowCount + 1,reader.success + 1⟩
  | named {value element : Value} {row : List (List UInt8)} {objid : ObjId} (here : items[reader.position]? = some value)
      (behind : items[reader.position + 1]? = some element) (found : rowId element = some objid) :
      Turned casts alloc desc items reader (some (objid,row)) ⟨reader.position + 2,reader.rowCount + 1,reader.success + 1⟩
  | unnamed {value element : Value} {row : List (List UInt8)} (here : items[reader.position]? = some value)
      (behind : items[reader.position + 1]? = some element) :
      Turned casts alloc desc items reader (some (⟨0,UInt64.ofNat reader.success⟩,row))
        ⟨reader.rowCount + 1,reader.rowCount + 1,reader.success + 1⟩

section Turns

variable {casts : Casts} {alloc : Nat → Bool} {desc : List Field} {items : List Value} {reader next : Reader}
variable {row : Option (ObjId × List (List UInt8))}

lemma turn_turned (sound : reader.Sound) (turned : turn casts alloc desc items reader = some (row,next)) :
    Turned casts alloc desc items reader row next := by
  unfold turn at turned
  split at turned
  · cases turned
  rename_i value here
  split at turned
  · rename_i unread
    cases turned
    exact .skipped here unread
  split at turned
  · rename_i ended
    cases turned
    exact .last here ended
  rename_i element behind
  split at turned
  · rename_i objid found
    cases turned
    exact .named here behind found
  · have inside := (List.getElem?_eq_some_iff.mp behind).1
    simp only [Reader.Sound] at sound
    rw [Nat.min_eq_left (by omega)] at turned
    cases turned
    exact .unnamed here behind

lemma Turned.sound (sound : reader.Sound) (turned : Turned casts alloc desc items reader row next) :
    next.Sound ∧ next.rowCount = reader.rowCount + 1 ∧ reader.position < items.length := by
  have forward : reader.rowCount ≤ reader.position := sound
  cases turned with
  | skipped here | last here | named here | unnamed here =>
    have inside := (List.getElem?_eq_some_iff.mp here).1
    refine ⟨?_,rfl,inside⟩
    simp only [Reader.Sound]
    omega

end Turns

lemma idOfBytes_idBytes (objid : ObjId) : idOfBytes (idBytes objid) = objid := by
  have node := objid.node.toNat_lt
  have number := objid.id.toNat_lt
  have front : (idBytes objid).take 4 = unsignedBytes 4 objid.node.toNat :=
    take_left' (unsignedBytes_length 4 _)
  have back : (idBytes objid).drop 4 = unsignedBytes 8 objid.id.toNat :=
    drop_left' (unsignedBytes_length 4 _)
  rw [idOfBytes,front,back,unsigned_unsignedBytes (by omega),unsigned_unsignedBytes (by omega),UInt32.ofNat_toNat,
    UInt64.ofNat_toNat]

lemma rowId_idObject (objid : ObjId) : rowId (idObject objid) = some objid := by
  have length : (idBytes objid).length = 12 := by simp [idBytes,unsignedBytes_length]
  simp [rowId,idObject,objectGetBlob,length,idOfBytes_idBytes]

def rowItems (row : Numbered) : List Value :=
  match binnRow {} row.2 with
  | none => []
  | some values => if row.1 = placeholder then [.list values] else [.list values,idObject row.1]

def rowsItems (rows : List Numbered) : List Value := rows.flatMap rowItems

lemma binnRowset_eq (rows : List Numbered) : binnRowset {} rows = some (rowsItems rows) := by
  have loop (index : Nat) : binnRows {} index rows = some (rowsItems rows) := by
    induction rows generalizing index with
    | nil => rfl
    | cons row rows ih =>
      obtain ⟨objid,columns⟩ := row
      simp only [binnRows,rowsItems,flatMap_cons,rowItems,ih]
      cases binnRow {} columns with
      | none => rfl
      | some values =>
        by_cases zero : objid = placeholder <;> simp [zero]
  exact loop 0

section Reading

variable {casts : Casts} {desc : List Field}

structure Faithful (casts : Casts) (desc : List Field) (row : Numbered) : Prop where
  described : row.2.map Prod.fst = desc
  trips : RoundTrips casts row.2

lemma Faithful.items (faithful : Faithful casts desc row) :
    ∃ values, unbinnRow casts true (.list values) desc = some (contents row.2) ∧
      rowItems row = .list values::if row.1 = placeholder then [] else [idObject row.1] := by
  obtain ⟨values,encoded,decoded⟩ := faithful.trips
  rw [faithful.described] at decoded
  refine ⟨values,decoded,?_⟩
  by_cases zero : row.1 = placeholder <;> simp [rowItems,encoded,zero]

def Same (rows : List Numbered) (result : List (ObjId × List (List UInt8))) : Prop :=
  List.Forall₂ (fun row got => got.2 = contents row.2 ∧ (row.1 ≠ placeholder → got.1 = row.1)) rows result

variable {items : List Value} {position : Nat} {value : Value}

lemma drop_cons {rest : List Value} (here : items.drop position = value::rest) :
    items[position]? = some value ∧ items.drop (position + 1) = rest := by
  constructor
  · rw [← List.head?_drop,here,List.head?_cons]
  · rw [← List.tail_drop,here,List.tail_cons]

lemma drop_of_getElem? (here : items[position]? = some value) :
    items.drop position = value::items.drop (position + 1) := by
  obtain ⟨inside,same⟩ := List.getElem?_eq_some_iff.mp here
  rw [List.drop_eq_getElem_cons inside,same]

lemma rowId_list (values : List Value) : rowId (.list values) = none := rfl

variable {items : List Value} {reader next : Reader} {row : Numbered} {tail : List Numbered}

lemma rowsItems_nil_iff (faithful : ∀ row ∈ tail, Faithful casts desc row) : rowsItems tail = [] ↔ tail = [] := by
  cases tail with
  | nil => simp [rowsItems]
  | cons row tail =>
    obtain ⟨values,_,shape⟩ := (faithful row mem_cons_self).items
    simp [rowsItems,shape]

lemma Turned.ahead {got : Option (ObjId × List (List UInt8))} (faithful : ∀ other ∈ row::tail, Faithful casts desc other)
    (sound : reader.Sound) (turned : Turned casts (fun _ => true) desc items reader got next)
    (ahead : rowsItems (row::tail) <:+ items.drop reader.position) :
    rowsItems (row::tail) <:+ items.drop next.position ∨ got.isSome ∧ rowsItems tail <:+ items.drop next.position := by
  obtain ⟨values,decoded,shape⟩ := (faithful row mem_cons_self).items
  have whole : rowsItems (row::tail) =
      .list values::((if row.1 = placeholder then [] else [idObject row.1]) ++ rowsItems tail) := by
    simp [rowsItems,shape]
  have within : rowsItems tail <:+ (if row.1 = placeholder then [] else [idObject row.1]) ++ rowsItems tail :=
    List.suffix_append _ _
  cases turned with
  | skipped here unread =>
    rw [drop_of_getElem? here,suffix_cons_iff] at ahead
    rcases ahead with same | later
    · rw [whole,List.cons.injEq] at same
      rw [← same.1] at unread
      exact absurd (decoded.symm.trans unread) (by simp)
    · exact .inl later
  | last here ended =>
    rw [drop_of_getElem? here,suffix_cons_iff] at ahead
    rcases ahead with same | later
    · rw [whole,List.cons.injEq] at same
      exact .inr ⟨rfl,same.2 ▸ within⟩
    · exact .inl later
  | named here behind found =>
    rw [drop_of_getElem? here,suffix_cons_iff,drop_of_getElem? behind] at ahead
    rcases ahead with same | later
    · refine .inr ⟨rfl,?_⟩
      rw [whole,List.cons.injEq] at same
      have tails := same.2
      split at tails
      · -- The element behind an unnumbered row is the list of another row.
        cases tail with
        | nil => simp [rowsItems] at tails
        | cons other tail =>
          obtain ⟨others,_,first⟩ := (faithful other (by simp)).items
          simp only [rowsItems,flatMap_cons,first,nil_append,cons_append,List.cons.injEq] at tails
          rw [← tails.1,rowId_list] at found
          cases found
      · rw [singleton_append,List.cons.injEq] at tails
        rw [tails.2]
    · rcases suffix_cons_iff.mp later with same | later
      · rw [whole,List.cons.injEq] at same
        rw [← same.1,rowId_list] at found
        cases found
      · exact .inl later
  | unnamed here behind =>
    have back : items.drop (reader.position + 1) <:+ items.drop (reader.rowCount + 1) :=
      List.drop_suffix_drop_left items (succ_le_succ sound)
    rw [drop_of_getElem? here,suffix_cons_iff] at ahead
    rcases ahead with same | later
    · rw [whole,List.cons.injEq] at same
      exact .inr ⟨rfl,(same.2 ▸ within).trans back⟩
    · exact .inl (later.trans back)

lemma turn_none_iff : turn casts (fun _ => true) desc items reader = none ↔ items.drop reader.position = [] := by
  unfold turn
  cases here : items[reader.position]? with
  | none => simpa using here
  | some value =>
    rw [drop_of_getElem? here]
    simp only [reduceCtorEq,iff_false]
    split
    · simp
    · split
      · simp
      · split <;> simp

lemma unbinnRows_length (faithful : ∀ row ∈ tail, Faithful casts desc row) (sound : reader.Sound)
    (enough : items.length ≤ fuel + reader.rowCount) (ahead : rowsItems tail <:+ items.drop reader.position) :
    tail.length ≤ (unbinnRows casts (fun _ => true) desc items fuel reader).length := by
  induction fuel generalizing reader tail with
  | zero =>
    simp only [Reader.Sound] at sound
    rw [List.drop_eq_nil_of_le (by omega),List.suffix_nil,rowsItems_nil_iff faithful] at ahead
    simp [ahead]
  | succ fuel ih =>
    cases tail with
    | nil => simp
    | cons row tail =>
      rw [unbinnRows]
      cases turned : turn casts (fun _ => true) desc items reader with
      | none =>
        rw [turn_none_iff.mp turned,List.suffix_nil,rowsItems_nil_iff faithful] at ahead
        cases ahead
      | some result =>
        obtain ⟨got,next⟩ := result
        have step := turn_turned sound turned
        obtain ⟨again,counted,_⟩ := step.sound sound
        simp only [length_append]
        rcases step.ahead faithful sound ahead with whole | ⟨read,rest⟩
        · have more := ih faithful again (by omega) whole
          omega
        · have more := ih (fun other member => faithful other (mem_cons_of_mem _ member)) again (by omega) rest
          have one : got.toList.length = 1 := by
            obtain ⟨found,rfl⟩ := isSome_iff_exists.mp read
            rfl
          simp only [length_cons]
          omega

-- Whether the iterator finds its place again: it does until an id was passed,
-- and behind the last row there is nothing to find.
def Aligned (passed : Prop) : List Numbered → Prop
  | [] => True
  | row::tail => if row.1 = placeholder then (tail = [] ∨ ¬passed) ∧ Aligned passed tail else Aligned True tail

lemma turn_numbered (faithful : Faithful casts desc row) (place : items.drop reader.position = rowsItems (row::tail))
    (numbered : row.1 ≠ placeholder) :
    turn casts (fun _ => true) desc items reader =
        some (some (row.1,contents row.2),⟨reader.position + 2,reader.rowCount + 1,reader.success + 1⟩) ∧
      items.drop (reader.position + 2) = rowsItems tail := by
  obtain ⟨values,decoded,shape⟩ := faithful.items
  rw [rowsItems,flatMap_cons,shape,if_neg numbered] at place
  obtain ⟨here,rest⟩ := drop_cons place
  obtain ⟨behind,further⟩ := drop_cons rest
  exact ⟨by simp [turn,here,decoded,behind,rowId_idObject],further⟩

lemma turn_last (faithful : Faithful casts desc row) (place : items.drop reader.position = rowsItems [row])
    (zero : row.1 = placeholder) :
    turn casts (fun _ => true) desc items reader =
        some (some (⟨0,UInt64.ofNat reader.success⟩,contents row.2),⟨reader.position + 1,reader.rowCount + 1,reader.success + 1⟩) ∧
      items.drop (reader.position + 1) = [] := by
  obtain ⟨values,decoded,shape⟩ := faithful.items
  rw [rowsItems,flatMap_cons,shape,if_pos zero] at place
  obtain ⟨here,rest⟩ := drop_cons place
  have ended : items[reader.position + 1]? = none := by rw [← List.head?_drop,rest]; rfl
  exact ⟨by simp [turn,here,decoded,ended],rest⟩

lemma turn_unnumbered {other : Numbered} (faithful : ∀ each ∈ row::other::tail, Faithful casts desc each) (sound : reader.Sound)
    (place : items.drop reader.position = rowsItems (row::other::tail)) (zero : row.1 = placeholder) :
    turn casts (fun _ => true) desc items reader =
        some (some (⟨0,UInt64.ofNat reader.success⟩,contents row.2),⟨reader.rowCount + 1,reader.rowCount + 1,reader.success + 1⟩) ∧
      items.drop (reader.position + 1) = rowsItems (other::tail) := by
  obtain ⟨values,decoded,shape⟩ := (faithful row mem_cons_self).items
  obtain ⟨more,_,first⟩ := (faithful other (mem_cons_of_mem _ mem_cons_self)).items
  rw [rowsItems,flatMap_cons,shape,if_pos zero] at place
  obtain ⟨here,rest⟩ := drop_cons place
  have behind : items[reader.position + 1]? = some (.list more) := by
    rw [← List.head?_drop,rest]
    simp [first]
  have further := (List.getElem?_eq_some_iff.mp behind).1
  refine ⟨?_,rest⟩
  simp only [Reader.Sound] at sound
  simp only [turn,here,decoded,behind,rowId_list]
  rw [Nat.min_eq_left (by omega)]

lemma same_cons (kept : row.1 ≠ placeholder → objid = row.1) :
    Same (row::tail) ((objid,contents row.2)::more) ↔ Same tail more := by
  rw [Same,List.forall₂_cons,Same]
  exact ⟨fun both => both.2,fun rest => ⟨⟨rfl,kept⟩,rest⟩⟩

lemma unbinnRows_same_iff (faithful : ∀ row ∈ tail, Faithful casts desc row) (sound : reader.Sound)
    (enough : items.length ≤ fuel + reader.rowCount) (place : items.drop reader.position = rowsItems tail) :
    Same tail (unbinnRows casts (fun _ => true) desc items fuel reader) ↔ Aligned (reader.rowCount < reader.position) tail := by
  induction tail generalizing fuel reader with
  | nil =>
    have nothing : unbinnRows casts (fun _ => true) desc items fuel reader = [] := by
      cases fuel with
      | zero => rfl
      | succ fuel => rw [unbinnRows,turn_none_iff.mpr place]
    simp [nothing,Same,Aligned]
  | cons row tail ih =>
    have first := faithful row mem_cons_self
    have others : ∀ other ∈ tail, Faithful casts desc other := fun other member => faithful other (mem_cons_of_mem _ member)
    have forward : reader.rowCount ≤ reader.position := sound
    have inside : reader.position < items.length := by
      by_contra outside
      rw [List.drop_eq_nil_of_le (by omega)] at place
      exact absurd ((rowsItems_nil_iff faithful).mp place.symm) (by simp)
    obtain ⟨fuel,rfl⟩ : ∃ less, fuel = less + 1 := ⟨fuel - 1,by omega⟩
    by_cases zero : row.1 = placeholder
    · rw [Aligned,if_pos zero]
      cases tail with
      | nil =>
        obtain ⟨turned,rest⟩ := turn_last first place zero
        have again : Reader.Sound ⟨reader.position + 1,reader.rowCount + 1,reader.success + 1⟩ := succ_le_succ forward
        rw [unbinnRows,turned]
        simp only [toList_some,singleton_append]
        rw [same_cons (fun numbered => absurd zero numbered),ih others again (by simp only; omega) rest]
        simp [Aligned]
      | cons other tail =>
        obtain ⟨turned,rest⟩ := turn_unnumbered faithful sound place zero
        have again : Reader.Sound ⟨reader.rowCount + 1,reader.rowCount + 1,reader.success + 1⟩ := Nat.le_refl _
        have fueled : items.length ≤ fuel + (reader.rowCount + 1) := by omega
        rw [unbinnRows,turned]
        simp only [toList_some,singleton_append,reduceCtorEq,false_or]
        rcases Nat.eq_or_lt_of_le forward with level | passed
        · rw [same_cons (fun numbered => absurd zero numbered),
            ih others again fueled (by rw [level]; exact rest)]
          simp [level]
        · -- The iterator goes back to where this row is read again.
          constructor
          · intro same
            have back : rowsItems (row::other::tail) <:+ items.drop (reader.rowCount + 1) := by
              rw [← place]
              exact List.drop_suffix_drop_left items passed
            have repeated := unbinnRows_length faithful again fueled back
            have lengths := same.length_eq
            simp only [length_cons] at repeated lengths
            omega
          · intro aligned
            exact absurd passed aligned.1
    · rw [Aligned,if_neg zero]
      obtain ⟨turned,rest⟩ := turn_numbered first place zero
      rw [unbinnRows,turned]
      simp only [toList_some,singleton_append]
      rw [same_cons (fun _ => rfl),ih others (by simp only [Reader.Sound]; omega) (by simp only; omega) rest]
      simp only [show reader.rowCount + 1 < reader.position + 2 by omega]

end Reading

lemma aligned_passed_iff : Aligned True tail ↔ ∀ row ∈ tail.dropLast, row.1 ≠ placeholder := by
  induction tail with
  | nil => simp [Aligned]
  | cons row tail ih =>
    cases tail with
    | nil => by_cases zero : row.1 = placeholder <;> simp [Aligned,zero]
    | cons other tail =>
      rw [Aligned,ih]
      by_cases zero : row.1 = placeholder <;> simp [zero]

-- No row without an id, the last one apart, stands behind a row with one.
def Ordered (rows : List Numbered) : Prop :=
  rows.dropLast.Pairwise fun earlier later => earlier.1 ≠ placeholder → later.1 ≠ placeholder

lemma aligned_iff_ordered : Aligned False rows ↔ Ordered rows := by
  induction rows with
  | nil => simp [Aligned,Ordered]
  | cons row tail ih =>
    cases tail with
    | nil => by_cases zero : row.1 = placeholder <;> simp [Aligned,Ordered,zero]
    | cons other tail =>
      rw [Aligned,ih,aligned_passed_iff,Ordered,Ordered,List.dropLast_cons_cons,pairwise_cons]
      by_cases zero : row.1 = placeholder
      · simp [zero]
      · simp only [zero,if_false,not_false_eq_true,forall_const,ne_eq]
        constructor
        · intro numbered
          exact ⟨numbered,List.pairwise_of_forall_mem_list fun earlier _ later member _ => numbered later member⟩
        · exact fun both => both.1

theorem rowset_round_trip_iff (casts : Casts) (desc : List Field) (rows : List Numbered)
    (faithful : ∀ row ∈ rows, Faithful casts desc row) :
    (∃ items result, binnRowset {} rows = some items ∧ unbinnRowset casts {} (.list items) desc = some result ∧
      Same rows result) ↔ Ordered rows := by
  have start : Reader.Sound ⟨0,0,0⟩ := Nat.le_refl 0
  have same : Same rows (unbinnRows casts (fun _ => true) desc (rowsItems rows) (rowsItems rows).length ⟨0,0,0⟩) ↔ _ :=
    unbinnRows_same_iff faithful start (Nat.le_refl _) rfl
  simp only [Nat.lt_irrefl] at same
  rw [aligned_iff_ordered] at same
  rw [← same,binnRowset_eq]
  constructor
  · intro kept
    obtain ⟨items,result,made,read,rows⟩ := kept
    cases made
    cases read
    exact rows
  · intro rows
    exact ⟨_,_,rfl,rfl,rows⟩

def smallRow (objid : ObjId) (value : UInt8) : Numbered := (objid,[(⟨.uint8,1⟩,⟨0x2000,1,fun _ => value⟩)])

lemma smallRow_faithful (objid : ObjId) (value : UInt8) : Faithful plainCasts [⟨.uint8,1⟩] (smallRow objid value) := by
  have fits : ∀ column ∈ (smallRow objid value).2, Fits column.1 column.2 := by
    intro column member
    rw [mem_singleton.mp member]
    exact ⟨trivial,by simp [fieldTypeSize],fun _ => rfl,by simp [fieldTypeSize],by norm_num,
      fun _ => ⟨by norm_num,by norm_num⟩,by simp⟩
  obtain ⟨values,encoded,decoded⟩ := unbinnRow_binnRow plainCasts fits ⟨_,mem_cons_self,Nat.one_ne_zero⟩
  have small : entrySize (smallRow objid value).2 ≤ 0x10000000 := by
    simp [smallRow,entrySize,total,rowOffset,dataSize]
  have readable : (smallRow objid value).2.all (fun column => readableField column.1.type column.2) = true := by
    simpa [smallRow] using readableField_bytes _ rfl
  rw [if_pos ⟨by simp [smallRow],small,readable⟩] at decoded
  exact ⟨rfl,values,encoded,decoded⟩

theorem rowset_round_trip_mixed :
    ∃ items result, binnRowset {} [smallRow ⟨0,0⟩ 7,smallRow ⟨0,1⟩ 8,smallRow ⟨0,0⟩ 9] = some items ∧
      unbinnRowset plainCasts {} (.list items) [⟨.uint8,1⟩] = some result ∧
      Same [smallRow ⟨0,0⟩ 7,smallRow ⟨0,1⟩ 8,smallRow ⟨0,0⟩ 9] result := by
  refine (rowset_round_trip_iff plainCasts [⟨.uint8,1⟩] _ ?_).mpr ?_
  · intro row member
    simp only [mem_cons,not_mem_nil,or_false] at member
    rcases member with rfl | rfl | rfl <;> exact smallRow_faithful _ _
  · simp [Ordered,smallRow,placeholder]

-- The second row is read twice: only its place among the rows is counted, not
-- the id object in front of it.
theorem unnumbered_row_is_repeated :
    ((binnRowset {} [smallRow ⟨0,1⟩ 7,smallRow ⟨0,0⟩ 8,smallRow ⟨0,0⟩ 9]).bind fun items =>
      unbinnRowset plainCasts {} (.list items) [⟨.uint8,1⟩]) =
        some [(⟨0,1⟩,[[7]]),(⟨0,1⟩,[[8]]),(⟨0,2⟩,[[8]]),(⟨0,3⟩,[[9]])] := by
  decide +kernel

end MedvedDB.RowCodec
