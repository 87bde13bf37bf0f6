import MedvedDB.Enumerator

open MedvedDB.TwoPhaseSet
namespace MedvedDB.Rowdata

-- A stored value as the scan reads it: its size, and the row that binn_load,
-- binn_is_valid and mdv_unbinn_row_slice make of it.
structure Codec (β ρ : Type) where
  size : β → Nat
  decode : β → Option ρ

variable {κ β ρ : Type}

-- A value without data, or one above 16MB, is not looked at.
def Codec.read (codec : Codec β ρ) (value : β) : Option ρ :=
  if codec.size value = 0 then none
  else if codec.size value > 0x1000000 then none
  else codec.decode value

-- The loop of mdv_rowdata_slice_impl over the entry under the cursor and those
-- behind it. The row id is moved before the filter is asked, and a value that
-- cannot be read ends the page.
def sliceLoop (codec : Codec β ρ) (filter : ρ → Int) : Nat → List (κ × β) → κ → List (κ × ρ) × κ
  | 0,_,rowid => ([],rowid)
  | _+1,[],rowid => ([],rowid)
  | count+1,(key,value)::rest,rowid =>
    match codec.read value with
    | none => ([],rowid)
    | some row =>
      if filter row = 1 then
        let (rows,last) := sliceLoop codec filter count rest key
        ((key,row)::rows,last)
      else if filter row = 0 then sliceLoop codec filter (count + 1) rest key
      else ([],key)

def matching (codec : Codec β ρ) (filter : ρ → Int) (entries : List (κ × β)) : List (κ × ρ) :=
  entries.filterMap fun entry => (codec.read entry.2).bind fun row => if filter row = 1 then some (entry.1,row) else none

variable {codec : Codec β ρ} {filter : ρ → Int}

lemma mem_matching :
    (key,row) ∈ matching codec filter entries ↔
      ∃ value, (key,value) ∈ entries ∧ codec.read value = some row ∧ filter row = 1 := by
  simp only [matching,mem_filterMap,bind_eq_some_iff,ite_none_right_eq_some,some_inj,Prod.mk.injEq]
  constructor
  · intro found
    obtain ⟨⟨other,value⟩,member,held,read,passes,rfl,rfl⟩ := found
    exact ⟨value,member,read,passes⟩
  · intro found
    obtain ⟨value,member,read,passes⟩ := found
    exact ⟨(key,value),member,row,read,passes,rfl,rfl⟩

-- What a page takes: the rows of a front part, which ends where the page is
-- full, where the entries end, or before a value that cannot be read.
structure Taken (codec : Codec β ρ) (filter : ρ → Int) (count : Nat) (entries : List (κ × β)) (rowid : κ)
    (result : List (κ × ρ) × κ) (front back : List (κ × β)) : Prop where
  split : entries = front ++ back
  readable : ∀ entry ∈ front, (codec.read entry.2).isSome
  rows : result.1 = matching codec filter front
  enough : result.1.length ≤ count
  stop : result.1.length = count ∨ back = [] ∨ ∃ entry rest, back = entry::rest ∧ codec.read entry.2 = none
  last : result.2 = (front.getLast?.map Prod.fst).getD rowid

lemma sliceLoop_taken (codec : Codec β ρ) (boolean : ∀ row, filter row = 0 ∨ filter row = 1)
    (count : Nat) (entries : List (κ × β)) (rowid : κ) :
    ∃ front back, Taken codec filter count entries rowid (sliceLoop codec filter count entries rowid) front back := by
  induction entries generalizing count rowid with
  | nil =>
    have empty : sliceLoop codec filter count ([] : List (κ × β)) rowid = ([],rowid) := by cases count <;> rfl
    rw [empty]
    exact ⟨[],[],rfl,nofun,rfl,Nat.zero_le _,.inr (.inl rfl),rfl⟩
  | cons entry rest ih =>
    obtain ⟨key,value⟩ := entry
    cases count with
    | zero => exact ⟨[],(key,value)::rest,rfl,nofun,rfl,Nat.le_refl _,.inl rfl,rfl⟩
    | succ count =>
      cases read : codec.read value with
      | none =>
        refine ⟨[],(key,value)::rest,rfl,nofun,?_,?_,.inr (.inr ⟨_,_,rfl,read⟩),?_⟩ <;> simp [sliceLoop,read,matching]
      | some row =>
        have here : ∀ front : List (κ × β), (∀ entry ∈ front, (codec.read entry.2).isSome) →
            ∀ entry ∈ (key,value)::front, (codec.read entry.2).isSome := by
          intro front readable entry member
          rcases mem_cons.mp member with same | later
          · simp [same,read]
          · exact readable entry later
        have ends : ∀ front : List (κ × β), (((key,value)::front).getLast?.map Prod.fst).getD rowid =
            (front.getLast?.map Prod.fst).getD key := by
          intro front
          cases front <;> simp [List.getLast?_cons]
        rcases boolean row with rejected | accepted
        · obtain ⟨front,back,taken⟩ := ih (count + 1) key
          have same : sliceLoop codec filter (count + 1) ((key,value)::rest) rowid = sliceLoop codec filter (count + 1) rest key := by
            simp [sliceLoop,read,rejected]
          rw [same]
          refine ⟨(key,value)::front,back,by rw [taken.split]; rfl,here front taken.readable,?_,taken.enough,taken.stop,?_⟩
          · rw [taken.rows]
            simp [matching,read,rejected]
          · rw [taken.last,ends]
        · obtain ⟨front,back,taken⟩ := ih count key
          have same : sliceLoop codec filter (count + 1) ((key,value)::rest) rowid =
              ((key,row)::(sliceLoop codec filter count rest key).1,(sliceLoop codec filter count rest key).2) := by
            simp [sliceLoop,read,accepted]
          rw [same]
          refine ⟨(key,value)::front,back,by rw [taken.split]; rfl,here front taken.readable,?_,?_,?_,?_⟩
          · rw [taken.rows]
            simp [matching,read,accepted]
          · exact succ_le_succ taken.enough
          · exact taken.stop.imp_left fun full => congrArg (· + 1) full
          · rw [taken.last,ends]

structure SliceCalls where
  enumerator : EnumeratorCalls := {}
  next : Bool := true
  table : Bool := true
  rowset : Bool := true

def sliceImpl (calls : SliceCalls) (codec : Codec β ρ) (filter : ρ → Int) (count : Nat) (enumerator : Enumerator κ β)
    (rowid : κ) : Option (List (κ × ρ)) × κ :=
  if !calls.table || !calls.rowset then (none,rowid)
  else match enumerator.current with
    | none => (some [],rowid)
    | some entry =>
      let (rows,last) := sliceLoop codec filter count (entry::enumerator.rest) rowid
      (some rows,last)

lemma sliceImpl_eq (codec : Codec β ρ) (filter : ρ → Int) (count : Nat) (entries : List (κ × β)) (rowid : κ) :
    sliceImpl {} codec filter count (cursorFirst entries) rowid =
      (some (sliceLoop codec filter count entries rowid).1,(sliceLoop codec filter count entries rowid).2) := by
  cases entries with
  | nil => cases count <;> rfl
  | cons entry rest => rfl

variable [LinearOrder κ]

def sliceFromBegin (calls : SliceCalls) (codec : Codec β ρ) (filter : ρ → Int) (count : Nat) (storage : Storage κ β)
    (rowid : κ) : Option (List (κ × ρ)) × κ :=
  match enumerator calls.enumerator storage with
  | none => (none,rowid)
  | some state => sliceImpl calls codec filter count state rowid

-- The row of the carried id is skipped if it is still there.
def slice (calls : SliceCalls) (codec : Codec β ρ) (filter : ρ → Int) (count : Nat) (storage : Storage κ β)
    (rowid : κ) : Option (List (κ × ρ)) × κ :=
  match enumeratorFrom calls.enumerator storage rowid with
  | none => (none,rowid)
  | some state =>
    if state.current.map Prod.fst = some rowid then
      match state.next calls.next with
      | (.ok,state) => sliceImpl calls codec filter count state rowid
      | (_,_) => (none,rowid)
    else sliceImpl calls codec filter count state rowid

structure View (κ : Type) where
  rowid : κ
  fetchFromBegin : Bool

def fetch (calls : SliceCalls) (codec : Codec β ρ) (filter : ρ → Int) (count : Nat) (storage : Storage κ β)
    (view : View κ) : Option (List (κ × ρ)) × View κ :=
  let (page,rowid) :=
    if view.fetchFromBegin then sliceFromBegin calls codec filter count storage view.rowid
    else slice calls codec filter count storage view.rowid
  (page,⟨rowid,false⟩)

-- Fetching page by page, every page from the storage as it is at that time, up
-- to the first page that is null or short. None if that was not the last fetch.
def paginate (codec : Codec β ρ) (filter : ρ → Int) (count : Nat) (view : View κ) : List (Storage κ β) → Option (List (κ × ρ))
  | [] => none
  | storage::later =>
    match fetch {} codec filter count storage view with
    | (none,_) => if later.isEmpty then some [] else none
    | (some rows,view) =>
      if rows.length < count then if later.isEmpty then some rows else none
      else (paginate codec filter count view later).map (rows ++ ·)

lemma enumerator_working (storage : Storage κ β) :
    enumerator {} storage = some (cursorFirst (storage.objects.getD .empty).entries) := by
  simp [enumerator,enumeratorCreate_eq,cursorOpenExplicit]

lemma enumeratorFrom_working (storage : Storage κ β) (rowid : κ) :
    enumeratorFrom {} storage rowid = cursorRange ((storage.objects.getD .empty).walkFrom rowid) := by
  simp [enumeratorFrom,enumeratorCreate_eq,cursorOpenExplicit]

def ahead (view : View κ) (key : κ) : Bool := view.fetchFromBegin || view.rowid < key

def remaining (view : View κ) (storage : Storage κ β) : List (κ × β) :=
  (storage.objects.getD .empty).entries.filter fun entry => ahead view entry.1

variable {storage : Storage κ β} {value : β} {storages : List (Storage κ β)}

lemma mem_remaining {view : View κ} {key : κ} :
    (key,value) ∈ remaining view storage ↔ objectOf storage key = some value ∧ ahead view key = true := by
  rw [← objectOf_opened,remaining,mem_filter,KeyMap.mem_entries]

lemma remaining_sorted (view : View κ) (storage : Storage κ β) :
    (remaining view storage).Pairwise fun one two => one.1 < two.1 := (storage.objects.getD .empty).sorted.filter _

lemma remaining_walk (rowid : κ) (storage : Storage κ β) :
    remaining ⟨rowid,false⟩ storage = ((storage.objects.getD .empty).walkFrom rowid).filter fun entry => rowid < entry.1 := by
  simp only [remaining,KeyMap.walkFrom,List.filter_filter,ahead,Bool.false_or]
  apply filter_congr
  intro entry _
  by_cases above : rowid < entry.1
  · simp [above,above.le]
  · simp [above]

-- A fetch is the loop over what the view has not passed. Only a view that goes
-- on gets a null page, when nothing is left.
lemma fetch_eq (codec : Codec β ρ) (filter : ρ → Int) (count : Nat) (storage : Storage κ β) (view : View κ) :
    fetch {} codec filter count storage view =
      if view.fetchFromBegin || !(remaining view storage).isEmpty then
        (some (sliceLoop codec filter count (remaining view storage) view.rowid).1,
          ⟨(sliceLoop codec filter count (remaining view storage) view.rowid).2,false⟩)
      else (none,⟨view.rowid,false⟩) := by
  obtain ⟨rowid,fromBegin⟩ := view
  cases fromBegin with
  | true =>
    have whole : remaining ⟨rowid,true⟩ storage = (storage.objects.getD .empty).entries := by simp [remaining,ahead]
    simp [fetch,sliceFromBegin,enumerator_working,sliceImpl_eq,whole]
  | false =>
    have walk := remaining_walk rowid storage
    have sorted := (storage.objects.getD .empty).walkFrom_sorted rowid
    cases walked : (storage.objects.getD .empty).walkFrom rowid with
    | nil =>
      rw [walked] at walk
      simp [fetch,slice,enumeratorFrom_working,walked,cursorRange,walk]
    | cons entry rest =>
      obtain ⟨key,value⟩ := entry
      rw [walked] at walk sorted
      obtain ⟨above,_⟩ := pairwise_cons.mp sorted
      have low : rowid ≤ key := (KeyMap.mem_walkFrom.mp (walked ▸ mem_cons_self : (key,value) ∈ _)).2
      have later : rest.filter (fun entry => rowid < entry.1) = rest :=
        filter_eq_self.mpr fun entry member => by simpa using low.trans_lt (above entry member)
      by_cases same : key = rowid
      · subst same
        rw [List.filter_cons_of_neg (by simp),later] at walk
        cases rest with
        | nil => simp [fetch,slice,enumeratorFrom_working,walked,cursorRange,walk,Enumerator.next]
        | cons next rest =>
          have loop := sliceImpl_eq codec filter count (next::rest) key
          simp only [cursorFirst] at loop
          simp [fetch,slice,enumeratorFrom_working,walked,cursorRange,walk,Enumerator.next,loop]
      · have ahead : rowid < key := lt_of_le_of_ne low (Ne.symm same)
        rw [List.filter_cons_of_pos (by simpa using ahead),later] at walk
        have loop := sliceImpl_eq codec filter count ((key,value)::rest) rowid
        simp only [cursorFirst] at loop
        simp [fetch,slice,enumeratorFrom_working,walked,cursorRange,walk,same,loop]

lemma matching_sorted (codec : Codec β ρ) (filter : ρ → Int) {entries : List (κ × β)}
    (sorted : entries.Pairwise fun one two => one.1 < two.1) :
    (matching codec filter entries).Pairwise fun one two => one.1 < two.1 := by
  refine sorted.filterMap _ fun one two before left leftTaken right rightTaken => ?_
  obtain ⟨_,_,leftKept⟩ := bind_eq_some_iff.mp leftTaken
  obtain ⟨_,_,rightKept⟩ := bind_eq_some_iff.mp rightTaken
  obtain ⟨_,leftSame⟩ := ite_none_right_eq_some.mp leftKept
  obtain ⟨_,rightSame⟩ := ite_none_right_eq_some.mp rightKept
  cases leftSame
  cases rightSame
  exact before

-- One page of a pagination. Either it is the last one and what it leaves is
-- nothing, or begins with a value that cannot be read; or it is full, and the
-- carried row id is the key of its last row.
lemma paginate_page (boolean : ∀ row, filter row = 0 ∨ filter row = 1)
    (positive : 1 ≤ count) (ended : paginate codec filter count view (storage::later) = some rows) :
    ∃ front back, remaining view storage = front ++ back ∧ (∀ entry ∈ front, (codec.read entry.2).isSome) ∧
      ((later = [] ∧ rows = matching codec filter front ∧
          (back = [] ∨ ∃ entry rest, back = entry::rest ∧ codec.read entry.2 = none)) ∨
        ∃ before last value rest, front = before ++ [(last,value)] ∧ rows = matching codec filter front ++ rest ∧
          (matching codec filter front).length = count ∧ paginate codec filter count ⟨last,false⟩ later = some rest) := by
  have finished {kept : List (κ × ρ)} (stops : (if later.isEmpty then some kept else none) = some rows) : later = [] ∧ rows = kept := by
    obtain ⟨none_later,same⟩ := ite_none_right_eq_some.mp stops
    exact ⟨List.isEmpty_iff.mp none_later,(Option.some.inj same).symm⟩
  rw [paginate,fetch_eq] at ended
  split at ended
  · rename_i null
    split at null
    · cases null
    · rename_i nothing
      obtain ⟨none_later,rfl⟩ := finished ended
      simp only [or_eq_true,not_eq_true',not_or,not_eq_false,List.isEmpty_iff] at nothing
      exact ⟨[],[],nothing.2,nofun,.inl ⟨none_later,rfl,.inl rfl⟩⟩
  · rename_i page after fetched
    split at fetched
    · cases fetched
      obtain ⟨front,back,taken⟩ := sliceLoop_taken codec boolean count (remaining view storage) view.rowid
      refine ⟨front,back,taken.split,taken.readable,?_⟩
      rw [← taken.rows]
      split at ended
      · rename_i short
        obtain ⟨none_later,rfl⟩ := finished ended
        exact .inl ⟨none_later,rfl,taken.stop.resolve_left short.ne⟩
      · rename_i full
        have length := Nat.le_antisymm taken.enough (Nat.le_of_not_lt full)
        obtain ⟨rest,went,rfl⟩ := map_eq_some_iff.mp ended
        have filled : front ≠ [] := by
          intro empty
          rw [taken.rows,empty] at length
          simp only [matching,List.filterMap_nil,length_nil] at length
          omega
        have shape := List.dropLast_append_getLast filled
        refine .inr ⟨front.dropLast,(front.getLast filled).1,(front.getLast filled).2,rest,shape.symm,rfl,length,?_⟩
        rw [taken.last,List.getLast?_eq_some_getLast filled] at went
        exact went
    · cases fetched

lemma split_keys {before back : List (κ × β)} {last : κ}
    (sorted : (before ++ [(last,value)] ++ back).Pairwise fun one two => one.1 < two.1) :
    (∀ entry ∈ before ++ [(last,value)], entry.1 ≤ last) ∧ ∀ entry ∈ back, last < entry.1 := by
  obtain ⟨front,_,apart⟩ := pairwise_append.mp sorted
  obtain ⟨_,_,below⟩ := pairwise_append.mp front
  constructor
  · intro entry member
    rcases mem_append.mp member with early | final
    · exact (below entry early _ (mem_singleton_self _)).le
    · rw [mem_singleton.mp final]
  · intro entry member
    exact apart (last,value) (mem_append_right _ (mem_singleton_self _)) entry member

lemma paginate_ordered (boolean : ∀ row, filter row = 0 ∨ filter row = 1)
    (positive : 1 ≤ count) (ended : paginate codec filter count view storages = some rows) :
    (rows.Pairwise fun one two => one.1 < two.1) ∧ ∀ row ∈ rows, ahead view row.1 = true := by
  induction storages generalizing view rows with
  | nil => cases ended
  | cons storage later ih =>
    obtain ⟨front,back,split,_,page⟩ := paginate_page boolean positive ended
    have sorted := remaining_sorted view storage
    have passing : ∀ row ∈ matching codec filter front, ahead view row.1 = true := by
      intro row member
      obtain ⟨value,inside,_⟩ := mem_matching.mp (show (row.1,row.2) ∈ _ from member)
      exact (mem_remaining.mp (split ▸ mem_append_left _ inside)).2
    rw [split] at sorted
    have first := matching_sorted codec filter (pairwise_append.mp sorted).1
    rcases page with ⟨_,rfl,_⟩ | ⟨before,last,value,rest,rfl,rfl,_,went⟩
    · exact ⟨first,passing⟩
    · obtain ⟨ordered,behind⟩ := ih went
      obtain ⟨early,_⟩ := split_keys sorted
      have beyond : ∀ row ∈ rest, last < row.1 := fun row member => by simpa [ahead] using behind row member
      refine ⟨pairwise_append.mpr ⟨first,ordered,fun one oneIn two twoIn => ?_⟩,fun row member => ?_⟩
      · obtain ⟨held,inside,_⟩ := mem_matching.mp (show (one.1,one.2) ∈ _ from oneIn)
        exact (early _ inside).trans_lt (beyond two twoIn)
      · rcases mem_append.mp member with here | later
        · exact passing row here
        · have reached : (last,value) ∈ remaining view storage := by
            rw [split]
            simp
          have start := (mem_remaining.mp reached).2
          have above := beyond row later
          simp only [ahead,or_eq_true,decide_eq_true_eq] at start ⊢
          exact start.imp_right fun below => below.trans above

lemma paginate_complete (boolean : ∀ row, filter row = 0 ∨ filter row = 1)
    (positive : 1 ≤ count)
    (decodes : ∀ storage ∈ storages, ∀ key value, objectOf storage key = some value → (codec.read value).isSome)
    (ended : paginate codec filter count view storages = some rows) (here : ahead view key = true)
    (present : ∀ storage ∈ storages, objectOf storage key = some value) (read : codec.read value = some row)
    (passes : filter row = 1) : (key,row) ∈ rows := by
  induction storages generalizing view rows with
  | nil => cases ended
  | cons storage later ih =>
    obtain ⟨front,back,split,_,page⟩ := paginate_page boolean positive ended
    have sorted := remaining_sorted view storage
    have inside : (key,value) ∈ remaining view storage := mem_remaining.mpr ⟨present storage mem_cons_self,here⟩
    rw [split] at sorted inside
    rcases page with ⟨_,rfl,stop⟩ | ⟨before,last,held,rest,rfl,rfl,_,went⟩
    · have nothing : back = [] := by
        rcases stop with none_left | ⟨entry,rest,rfl,unreadable⟩
        · exact none_left
        · have stored : objectOf storage entry.1 = some entry.2 :=
            (mem_remaining.mp (show (entry.1,entry.2) ∈ remaining view storage by rw [split]; simp)).1
          have reads := decodes storage mem_cons_self _ _ stored
          rw [unreadable] at reads
          cases reads
      rw [nothing,append_nil] at inside
      exact mem_matching.mpr ⟨value,inside,read,passes⟩
    · rcases mem_append.mp inside with front | behind
      · exact mem_append_left _ (mem_matching.mpr ⟨value,front,read,passes⟩)
      · have above := (split_keys sorted).2 _ behind
        refine mem_append_right _ (ih (fun other member => decodes other (mem_cons_of_mem _ member)) went ?_
          fun other member => present other (mem_cons_of_mem _ member))
        simpa [ahead] using above

lemma sorted_once {rows : List (κ × ρ)} (sorted : rows.Pairwise fun one two => one.1 < two.1) (member : (key,row) ∈ rows) :
    (rows.filter fun other => other.1 = key) = [(key,row)] := by
  obtain ⟨front,back,rfl⟩ := append_of_mem member
  obtain ⟨_,after,before⟩ := pairwise_append.mp sorted
  have early : (front.filter fun other => other.1 = key) = [] := by
    refine filter_eq_nil_iff.mpr fun other inside => ?_
    simpa using (before other inside _ mem_cons_self).ne
  have late : (back.filter fun other => other.1 = key) = [] := by
    refine filter_eq_nil_iff.mpr fun other inside => ?_
    simpa using ((pairwise_cons.mp after).1 other inside).ne'
  rw [filter_append,List.filter_cons_of_pos (by simp),early,late]
  rfl

-- Rows with even data are filtered out. Between the two pages of two rows the
-- row of the carried id is deleted and rows before and behind it are inserted.
def plain : Codec Nat Nat := ⟨fun _ => 8,some⟩

def holding (entries : List (Nat × Nat)) : Storage Nat Nat :=
  ⟨some (entries.foldl (fun map entry => map.insert entry.1 entry.2) .empty),some .empty⟩

def oddRows (row : Nat) : Int := row % 2

end MedvedDB.Rowdata
