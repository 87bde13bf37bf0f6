import MedvedDB.Paging

open MedvedDB.TwoPhaseSet
namespace MedvedDB.Rowdata

variable {κ β ρ : Type}

-- What mdv_rowset_emplace makes of an entry that was read: it drops the row when
-- a field pointer looks wrong, and nobody counts it back.
def keptRow (codec : Codec β ρ) (keeps : ρ → Bool) (entry : κ × β) : Option (κ × ρ) :=
  (codec.read entry.2).bind fun row => if keeps row then some (entry.1,row) else none

def readableEntry (codec : Codec β ρ) (entry : κ × β) : Bool := (codec.read entry.2).isSome

lemma keptRow_readable {keeps : ρ → Bool} (kept : (keptRow codec keeps entry).isSome) :
    readableEntry codec entry = true := by
  unfold keptRow at kept
  cases found : codec.read entry.2 with
  | none => simp [found] at kept
  | some row => simp [readableEntry,found]

lemma keptRow_key {keeps : ρ → Bool}
    (kept : keptRow codec keeps entry = some row) : row.1 = entry.1 := by
  obtain ⟨found,_,taken⟩ := bind_eq_some_iff.mp kept
  obtain ⟨_,same⟩ := ite_none_right_eq_some.mp taken
  cases same
  rfl

def pageEntries (codec : Codec β ρ) (count : Nat) (entries : List (κ × β)) : List (κ × β) :=
  (entries.takeWhile (readableEntry codec)).take count

lemma sliceLoop_all (codec : Codec β ρ) (count : Nat) (entries : List (κ × β)) (rowid : κ) :
    sliceLoop codec (fun _ => 1) count entries rowid =
      (matching codec (fun _ => 1) (pageEntries codec count entries),
        ((pageEntries codec count entries).getLast?.map Prod.fst).getD rowid) := by
  induction entries generalizing count rowid with
  | nil => cases count <;> simp [sliceLoop,pageEntries,matching]
  | cons entry rest ih =>
    obtain ⟨key,value⟩ := entry
    cases count with
    | zero => simp [sliceLoop,pageEntries,matching]
    | succ count =>
      cases read : codec.read value with
      | none => simp [sliceLoop,pageEntries,matching,read,readableEntry]
      | some row =>
        have here : pageEntries codec (count + 1) ((key,value)::rest) = (key,value)::pageEntries codec count rest := by
          simp [pageEntries,readableEntry,read]
        rw [here,sliceLoop,read]
        simp only [if_true,ih]
        refine Prod.ext ?_ ?_
        · simp [matching,read]
        · cases pageEntries codec count rest <;> simp [List.getLast?_cons]

def pageRows (codec : Codec β ρ) (keeps : ρ → Bool) (count : Nat) (entries : List (κ × β)) : List (κ × ρ) :=
  (pageEntries codec count entries).filterMap (keptRow codec keeps)

lemma pageRows_eq (codec : Codec β ρ) (keeps : ρ → Bool) (count : Nat) (entries : List (κ × β)) :
    (matching codec (fun _ => 1) (pageEntries codec count entries)).filter (fun row => keeps row.2) =
      pageRows codec keeps count entries := by
  rw [matching,pageRows,List.filter_filterMap]
  apply List.filterMap_congr
  intro entry _
  cases read : codec.read entry.2 <;> simp [keptRow,read,Option.filter]

lemma filterMap_full {α γ : Type} {choose : α → Option γ} {items : List α} :
    (items.filterMap choose).length = items.length ↔ ∀ item ∈ items, (choose item).isSome := by
  rw [List.length_filterMap_eq_countP,List.countP_eq_length]

lemma pageEntries_full (full : (pageEntries codec count entries).length = count) :
    pageEntries codec count entries = entries.take count ∧ count ≤ entries.length := by
  obtain ⟨rest,split⟩ := List.takeWhile_prefix (l := entries) (readableEntry codec)
  have enough : count ≤ (entries.takeWhile (readableEntry codec)).length := by
    rw [pageEntries,length_take] at full
    omega
  constructor
  · rw [pageEntries]
    conv_rhs => rw [← split]
    rw [List.take_append_of_le_length enough]
  · rw [← split,length_append]
    omega

variable {entries : List (κ × β)}

lemma pageRows_full_iff {codec : Codec β ρ} {keeps : ρ → Bool} {count : Nat} :
    ¬(pageRows codec keeps count entries).length < count ↔
      count ≤ entries.length ∧ ∀ entry ∈ entries.take count, (keptRow codec keeps entry).isSome := by
  have most : (pageEntries codec count entries).length ≤ count := List.length_take_le _ _
  have fewer : (pageRows codec keeps count entries).length ≤ (pageEntries codec count entries).length := List.length_filterMap_le _ _
  constructor
  · intro full
    obtain ⟨same,inside⟩ := pageEntries_full (show (pageEntries codec count entries).length = count by omega)
    refine ⟨inside,?_⟩
    rw [← same,← filterMap_full]
    exact Nat.le_antisymm fewer (most.trans (Nat.le_of_not_lt full))
  · intro both
    obtain ⟨inside,kept⟩ := both
    have whole : pageEntries codec count entries = entries.take count := by
      have readable : ∀ entry ∈ entries.take count, readableEntry codec entry = true :=
        fun entry member => keptRow_readable (kept entry member)
      have split : entries.takeWhile (readableEntry codec) =
          entries.take count ++ (entries.drop count).takeWhile (readableEntry codec) := by
        conv_lhs => rw [← take_append_drop count entries]
        rw [List.takeWhile_append_of_pos readable]
      rw [pageEntries,split,List.take_append_of_le_length (by rw [length_take]; omega),List.take_take,Nat.min_self]
    rw [← whole,← filterMap_full] at kept
    rw [pageRows,kept,whole,length_take]
    omega

lemma mem_pageRows {keeps : ρ → Bool}
    (member : row ∈ pageRows codec keeps count entries) : ∃ entry ∈ entries.take count, row.1 = entry.1 := by
  obtain ⟨entry,inside,kept⟩ := mem_filterMap.mp member
  obtain ⟨rest,split⟩ := List.takeWhile_prefix (l := entries) (readableEntry codec)
  refine ⟨entry,?_,keptRow_key kept⟩
  rw [pageEntries] at inside
  rw [← split,take_append]
  exact mem_append_left _ inside

def listPages (codec : Codec β ρ) (keeps : ρ → Bool) (count : Nat) : Nat → List (κ × β) → Option (List (κ × ρ))
  | 0,_ => none
  | fetches+1,entries =>
    if (pageRows codec keeps count entries).length < count then some (pageRows codec keeps count entries)
    else (listPages codec keeps count fetches (entries.drop count)).map (pageRows codec keeps count entries ++ ·)

lemma listPages_ends (codec : Codec β ρ) (keeps : ρ → Bool) (positive : 1 ≤ count) (entries : List (κ × β)) :
    ∃ fetches rows, listPages codec keeps count fetches entries = some rows := by
  induction length : entries.length using Nat.strongRecOn generalizing entries with
  | ind size ih =>
    by_cases short : (pageRows codec keeps count entries).length < count
    · exact ⟨1,_,by rw [listPages,if_pos short]⟩
    · have inside := (pageRows_full_iff.mp short).1
      obtain ⟨fetches,rows,ended⟩ := ih (entries.drop count).length (by rw [length_drop]; omega) _ rfl
      exact ⟨fetches + 1,_,by rw [listPages,if_neg short,ended]; rfl⟩

lemma listPages_sound {codec : Codec β ρ} {keeps : ρ → Bool} {count fetches : Nat} {row : κ × ρ}
    {rows : List (κ × ρ)} (ended : listPages codec keeps count fetches entries = some rows) (member : row ∈ rows) :
    ∃ entry ∈ entries, keptRow codec keeps entry = some row := by
  have paged {entries : List (κ × β)} (here : row ∈ pageRows codec keeps count entries) :
      ∃ entry ∈ entries, keptRow codec keeps entry = some row := by
    obtain ⟨entry,inside,kept⟩ := mem_filterMap.mp here
    exact ⟨entry,List.takeWhile_subset _ (mem_of_mem_take inside),kept⟩
  induction fetches generalizing entries rows with
  | zero => cases ended
  | succ fetches ih =>
    rw [listPages] at ended
    split at ended
    · cases ended
      exact paged member
    · obtain ⟨rest,went,rfl⟩ := map_eq_some_iff.mp ended
      rcases mem_append.mp member with here | later
      · exact paged here
      · obtain ⟨entry,inside,kept⟩ := ih went later
        exact ⟨entry,List.mem_of_mem_drop inside,kept⟩

section Shown

variable {codec : Codec β ρ} {keeps : ρ → Bool} {count : Nat} {before after : List (κ × β)} {entry : κ × β} {row : κ × ρ}

lemma key_apart (apart : (before ++ entry::after).Pairwise fun one two => one.1 ≠ two.1)
    (member : other ∈ before) : other.1 ≠ entry.1 := (pairwise_append.mp apart).2.2 other member entry mem_cons_self

lemma mem_firstPage_iff (apart : (before ++ entry::after).Pairwise fun one two => one.1 ≠ two.1)
    (kept : keptRow codec keeps entry = some row) (near : before.length < count) :
    row ∈ pageRows codec keeps count (before ++ entry::after) ↔ ∀ other ∈ before, readableEntry codec other = true := by
  have here : readableEntry codec entry = true := keptRow_readable (by rw [kept]; rfl)
  constructor
  · intro member
    by_contra unread
    obtain ⟨found,inside,taken⟩ := mem_filterMap.mp member
    rw [pageEntries,List.takeWhile_append,if_neg ?_] at inside
    · have early := List.takeWhile_subset (readableEntry codec) (mem_of_mem_take inside)
      exact key_apart apart early ((keptRow_key taken).symm.trans (keptRow_key kept))
    · intro all
      refine unread ?_
      rw [← List.takeWhile_eq_self_iff]
      exact (List.takeWhile_prefix _).eq_of_length all
  · intro readable
    refine mem_filterMap.mpr ⟨entry,?_,kept⟩
    rw [pageEntries,List.takeWhile_append_of_pos readable,List.takeWhile_cons_of_pos here,take_append]
    obtain ⟨room,more⟩ : ∃ room, count - before.length = room + 1 := ⟨count - before.length - 1,by omega⟩
    rw [more,List.take_succ_cons]
    exact mem_append_right _ mem_cons_self

lemma not_mem_firstPage (apart : (before ++ entry::after).Pairwise fun one two => one.1 ≠ two.1)
    (kept : keptRow codec keeps entry = some row) (far : count ≤ before.length) :
    row ∉ pageRows codec keeps count (before ++ entry::after) := by
  intro member
  obtain ⟨other,inside,same⟩ := mem_pageRows member
  rw [List.take_append_of_le_length far] at inside
  exact key_apart apart (mem_of_mem_take inside) (same.symm.trans (keptRow_key kept))

-- Which rows the pages show: those with nothing unreadable before them, and no
-- dropped row on an earlier page.
lemma mem_listPages_iff (positive : 1 ≤ count)
    (apart : (before ++ entry::after).Pairwise fun one two => one.1 ≠ two.1) (kept : keptRow codec keeps entry = some row)
    (ended : listPages codec keeps count fetches (before ++ entry::after) = some rows) :
    row ∈ rows ↔ (∀ other ∈ before, readableEntry codec other = true) ∧
      ∀ other ∈ before.take (before.length / count * count), (keptRow codec keeps other).isSome := by
  induction fetches generalizing before rows with
  | zero => cases ended
  | succ fetches ih =>
    rw [listPages] at ended
    by_cases near : before.length < count
    · rw [Nat.div_eq_of_lt near,Nat.zero_mul,List.take_zero]
      have first := mem_firstPage_iff apart kept near
      split at ended
      · cases ended
        simp [first]
      · rename_i full
        obtain ⟨rest,_,rfl⟩ := map_eq_some_iff.mp ended
        have all := (pageRows_full_iff.mp full).2
        have readable : ∀ other ∈ before, readableEntry codec other = true := by
          intro other member
          refine keptRow_readable (all other ?_)
          rw [take_append,List.take_of_length_le near.le]
          exact mem_append_left _ member
        exact ⟨fun _ => ⟨readable,nofun⟩,fun _ => mem_append_left _ (first.mpr readable)⟩
    · have far : count ≤ before.length := Nat.le_of_not_lt near
      have place : (before ++ entry::after).take count = before.take count := List.take_append_of_le_length far
      have later : (before ++ entry::after).drop count = before.drop count ++ entry::after := List.drop_append_of_le_length far
      have turns : before.length / count * count = count + (before.drop count).length / count * count := by
        rw [length_drop,Nat.div_eq_sub_div positive far,succ_mul,Nat.add_comm]
      have absent := not_mem_firstPage apart kept far
      rw [turns,List.take_add]
      split at ended
      · rename_i short
        cases ended
        constructor
        · intro member
          exact absurd member absent
        · intro both
          refine absurd short (pageRows_full_iff.mpr ⟨by simp; omega,?_⟩)
          rw [place]
          exact fun other member => both.2 other (mem_append_left _ member)
      · rename_i full
        obtain ⟨rest,went,rfl⟩ := map_eq_some_iff.mp ended
        have all := (pageRows_full_iff.mp full).2
        rw [place] at all
        rw [later] at went
        have sorted : (before.drop count ++ entry::after).Pairwise fun one two => one.1 ≠ two.1 := by
          rw [← later]
          exact apart.sublist (List.drop_sublist _ _)
        have onward := ih sorted went
        constructor
        · intro member
          have deeper := onward.mp ((mem_append.mp member).resolve_left absent)
          refine ⟨?_,?_⟩
          · intro other inside
            rw [← take_append_drop count before] at inside
            rcases mem_append.mp inside with early | late
            · exact keptRow_readable (all other early)
            · exact deeper.1 other late
          · intro other inside
            rcases mem_append.mp inside with early | late
            · exact all other early
            · exact deeper.2 other late
        · intro both
          refine mem_append_right _ (onward.mpr ⟨?_,?_⟩)
          · exact fun other member => both.1 other (List.mem_of_mem_drop member)
          · exact fun other member => both.2 other (mem_append_right _ member)

end Shown

variable [LinearOrder κ]

-- Fetching a view page by page from a storage at rest, up to the first page that
-- is null or short; none if that takes more fetches.
def viewPages (codec : Codec β ρ) (keeps : ρ → Bool) (count : Nat) (storage : Storage κ β) : Nat → View κ → Option (List (κ × ρ))
  | 0,_ => none
  | fetches+1,view =>
    match fetch {} codec (fun _ => 1) count storage view with
    | (none,_) => some []
    | (some rows,view) =>
      let page := rows.filter fun row => keeps row.2
      if page.length < count then some page else (viewPages codec keeps count storage fetches view).map (page ++ ·)

lemma remaining_next {codec : Codec β ρ} {count : Nat} (positive : 1 ≤ count) {view : View κ} {storage : Storage κ β}
    (full : (pageEntries codec count (remaining view storage)).length = count) :
    remaining ⟨((pageEntries codec count (remaining view storage)).getLast?.map Prod.fst).getD view.rowid,false⟩ storage =
      (remaining view storage).drop count := by
  obtain ⟨same,inside⟩ := pageEntries_full full
  have filled : (remaining view storage).take count ≠ [] := by
    intro empty
    rw [same,empty] at full
    simp at full
    omega
  obtain ⟨front,last,value,shape⟩ : ∃ front last value, (remaining view storage).take count = front ++ [(last,value)] :=
    ⟨_,_,_,(List.dropLast_append_getLast filled).symm⟩
  have sorted := remaining_sorted view storage
  have split := (take_append_drop count (remaining view storage)).symm
  rw [shape] at split
  rw [split] at sorted
  obtain ⟨early,late⟩ := split_keys sorted
  have reached : (last,value) ∈ remaining view storage := by
    rw [split]
    simp
  have start := (mem_remaining.mp reached).2
  have onward : remaining ⟨last,false⟩ storage = (remaining view storage).filter fun entry => last < entry.1 := by
    simp only [remaining,List.filter_filter]
    apply filter_congr
    intro entry _
    simp only [ahead,Bool.false_or,or_eq_true,decide_eq_true_eq] at start ⊢
    by_cases above : last < entry.1
    · have passed : view.fetchFromBegin = true ∨ view.rowid < entry.1 := start.imp_right fun below => below.trans above
      simpa [above] using passed
    · simp [above]
  rw [same,shape,List.getLast?_append,List.getLast?_singleton]
  simp only [Option.some_or,map_some,getD_some]
  rw [onward]
  conv_lhs => rw [split]
  rw [filter_append,filter_eq_nil_iff.mpr fun entry member => by simpa using early entry member,nil_append]
  exact filter_eq_self.mpr fun entry member => by simpa using late entry member

lemma viewPages_eq (codec : Codec β ρ) (keeps : ρ → Bool) {count : Nat} (positive : 1 ≤ count) (storage : Storage κ β)
    (fetches : Nat) (view : View κ) :
    viewPages codec keeps count storage fetches view = listPages codec keeps count fetches (remaining view storage) := by
  induction fetches generalizing view with
  | zero => rfl
  | succ fetches ih =>
    rw [viewPages,listPages,fetch_eq]
    by_cases some : view.fetchFromBegin || !(remaining view storage).isEmpty
    · rw [if_pos some]
      simp only [sliceLoop_all,pageRows_eq]
      split
      · rfl
      · rename_i full
        have entries : (pageEntries codec count (remaining view storage)).length = count :=
          Nat.le_antisymm (List.length_take_le _ _) ((Nat.le_of_not_lt full).trans (List.length_filterMap_le _ _))
        rw [ih,remaining_next positive entries]
    · rw [if_neg some]
      simp only [or_eq_true,not_eq_true',not_or,not_eq_false,List.isEmpty_iff] at some
      simp [some.2,pageRows,pageEntries]
      omega

def pageOf (count : Nat) (storage : Storage κ β) (key : κ) : Nat :=
  ((storage.objects.getD .empty).entries.filter fun entry => entry.1 < key).length / count

lemma entries_before {before after : List (κ × β)} {entry : κ × β} (split : entries = before ++ entry::after)
    (sorted : entries.Pairwise fun one two => one.1 < two.1) : (entries.filter fun other => other.1 < entry.1) = before := by
  rw [split] at sorted ⊢
  obtain ⟨_,behind,apart⟩ := pairwise_append.mp sorted
  have early : before.filter (fun other => other.1 < entry.1) = before :=
    filter_eq_self.mpr fun other member => by simpa using apart other member entry mem_cons_self
  have late : (entry::after).filter (fun other => other.1 < entry.1) = [] := by
    refine filter_eq_nil_iff.mpr fun other member => ?_
    rcases mem_cons.mp member with same | later
    · simp [same]
    · simpa using ((pairwise_cons.mp behind).1 other later).le
  rw [filter_append,early,late,append_nil]

lemma mem_take_iff {entry : κ × β} (sorted : entries.Pairwise fun one two => one.1 < two.1)
    (member : entry ∈ entries) (size : Nat) :
    entry ∈ entries.take size ↔ (entries.filter fun other => other.1 < entry.1).length < size := by
  obtain ⟨before,after,split⟩ := append_of_mem member
  rw [entries_before split sorted]
  rw [split] at sorted ⊢
  rw [take_append]
  constructor
  · intro taken
    by_contra far
    rw [show size - before.length = 0 by omega,List.take_zero,append_nil] at taken
    exact lt_irrefl _ ((pairwise_append.mp sorted).2.2 entry (mem_of_mem_take taken) entry mem_cons_self)
  · intro near
    obtain ⟨room,more⟩ : ∃ room, size - before.length = room + 1 := ⟨size - before.length - 1,by omega⟩
    rw [more,List.take_succ_cons]
    exact mem_append_right _ mem_cons_self

lemma mem_viewPages_iff {codec : Codec β ρ} {keeps : ρ → Bool} {count : Nat} (positive : 1 ≤ count) {storage : Storage κ β}
    {fetches : Nat} {rowid key : κ} {value : β} {row : κ × ρ} {rows : List (κ × ρ)} (stored : objectOf storage key = some value)
    (kept : keptRow codec keeps (key,value) = some row)
    (ended : viewPages codec keeps count storage fetches ⟨rowid,true⟩ = some rows) :
    row ∈ rows ↔
      (∀ other held, objectOf storage other = some held → other < key → (codec.read held).isSome) ∧
        ∀ other held, objectOf storage other = some held → pageOf count storage other < pageOf count storage key →
          (keptRow codec keeps (other,held)).isSome := by
  have whole : remaining ⟨rowid,true⟩ storage = (storage.objects.getD .empty).entries := by simp [remaining,ahead]
  have sorted := (storage.objects.getD .empty).sorted
  have held : ∀ entry : κ × β, entry ∈ (storage.objects.getD .empty).entries ↔ objectOf storage entry.1 = some entry.2 :=
    fun entry => by rw [← objectOf_opened,← KeyMap.mem_entries]
  rw [viewPages_eq codec keeps positive,whole] at ended
  obtain ⟨before,after,split⟩ := append_of_mem ((held (key,value)).mpr stored)
  have early := entries_before split sorted
  have apart : (before ++ (key,value)::after).Pairwise fun one two => one.1 ≠ two.1 := by
    rw [← split]
    exact sorted.imp fun less => less.ne
  have front : before.take (before.length / count * count) =
      (storage.objects.getD .empty).entries.take (before.length / count * count) := by
    rw [split,List.take_append_of_le_length (Nat.div_mul_le_self _ _)]
  have inside : ∀ entry : κ × β, entry ∈ before ↔ objectOf storage entry.1 = some entry.2 ∧ entry.1 < key := by
    intro entry
    rw [← early,mem_filter,held]
    simp
  rw [split] at ended
  rw [mem_listPages_iff positive apart kept ended,front]
  apply and_congr
  · constructor
    · intro readable other value found below
      exact readable (other,value) ((inside _).mpr ⟨found,below⟩)
    · intro readable entry member
      obtain ⟨found,below⟩ := (inside entry).mp member
      exact readable entry.1 entry.2 found below
  · have onPage : ∀ entry ∈ (storage.objects.getD .empty).entries,
        (entry ∈ (storage.objects.getD .empty).entries.take (before.length / count * count) ↔
          pageOf count storage entry.1 < pageOf count storage key) := by
      intro entry member
      rw [mem_take_iff sorted member,pageOf,pageOf,early,Nat.div_lt_iff_lt_mul positive]
    constructor
    · intro keptAll other value found earlier
      have member := (held (other,value)).mpr found
      exact keptAll _ ((onPage _ member).mpr earlier)
    · intro keptAll entry member
      have belongs := mem_of_mem_take member
      exact keptAll entry.1 entry.2 ((held entry).mp belongs) ((onPage entry belongs).mp member)

lemma viewPages_sound {codec : Codec β ρ} {keeps : ρ → Bool} {count : Nat} (positive : 1 ≤ count) {storage : Storage κ β}
    {fetches : Nat} {view : View κ} {row : κ × ρ} {rows : List (κ × ρ)}
    (ended : viewPages codec keeps count storage fetches view = some rows) (member : row ∈ rows) :
    ∃ value, objectOf storage row.1 = some value ∧ keptRow codec keeps (row.1,value) = some row := by
  rw [viewPages_eq codec keeps positive] at ended
  obtain ⟨entry,inside,kept⟩ := listPages_sound ended member
  have same := keptRow_key kept
  refine ⟨entry.2,?_,?_⟩
  · rw [same]
    exact (mem_remaining.mp inside).1
  · rw [same]
    exact kept

lemma viewPages_ends (codec : Codec β ρ) (keeps : ρ → Bool) (positive : 1 ≤ count) (storage : Storage κ β)
    (view : View κ) : ∃ fetches rows, viewPages codec keeps count storage fetches view = some rows := by
  obtain ⟨fetches,rows,ended⟩ := listPages_ends codec keeps positive (remaining view storage)
  exact ⟨fetches,rows,by rw [viewPages_eq codec keeps positive,ended]⟩

end MedvedDB.Rowdata
