import MedvedDB.HashMap

namespace MedvedDB.HashMap

variable {β κ : Type}

-- Every entry lies in the bucket of its key, and every key once.
structure Bucketed (key : β → κ) (hash : κ → Nat) (table : Table β) : Prop where
  room : 0 < table.capacity
  placed : ∀ index < table.capacity, ∀ entry ∈ table.buckets index, hash (key entry) % table.capacity = index
  once : ((entries table).map key).Nodup

-- With the size and the load that creation and insertion keep.
structure Valid (key : β → κ) (hash : κ → Nat) (table : Table β) : Prop where
  room : 0 < table.capacity
  size : table.size = (entries table).length
  load : table.size ≤ table.capacity * 3 / 4 + 1
  placed : ∀ index < table.capacity, ∀ entry ∈ table.buckets index, hash (key entry) % table.capacity = index
  once : ((entries table).map key).Nodup

section Buckets

variable {table : Table β} {entry : β}

lemma mem_entries : entry ∈ entries table ↔ ∃ index < table.capacity, entry ∈ table.buckets index := by
  simp only [entries,List.mem_flatMap,mem_range]

lemma entries_update (inside : index < table.capacity) :
    ∃ others, (entries table).Perm (table.buckets index ++ others) ∧
      ∀ size bucket, (entries ⟨table.capacity,size,update table.buckets index bucket⟩).Perm (bucket ++ others) := by
  obtain ⟨front,back,parts⟩ := append_of_mem (mem_range.mpr inside)
  have apart : (front ++ index::back).Nodup := parts ▸ nodup_range
  have outside : index ∉ front ++ back := (nodup_cons.mp (nodup_middle.mp apart)).1
  refine ⟨(front ++ back).flatMap table.buckets,?_,?_⟩
  · rw [entries,parts,flatMap_append,flatMap_cons,flatMap_append]
    exact List.perm_append_comm_assoc _ _ _
  · intro size bucket
    have same : (front ++ back).flatMap (update table.buckets index bucket) = (front ++ back).flatMap table.buckets := by
      refine flatMap_congr fun other member => ?_
      have away : other ≠ index := fun equal => outside (equal ▸ member)
      exact update_of_ne away _ _
    have whole : entries ⟨table.capacity,size,update table.buckets index bucket⟩ =
        front.flatMap (update table.buckets index bucket) ++ (bucket ++ back.flatMap (update table.buckets index bucket)) := by
      rw [entries,parts,flatMap_append,flatMap_cons]
      dsimp only
      rw [update_self]
    rw [whole,← same,flatMap_append]
    exact List.perm_append_comm_assoc _ _ _

end Buckets

section Places

variable {key : β → κ} {hash : κ → Nat} {table : Table β} {entry other : β}

lemma Valid.bucketed (valid : Valid key hash table) : Bucketed key hash table := ⟨valid.room,valid.placed,valid.once⟩

lemma create_entries (capacity : Nat) : entries (create capacity : Table β) = [] := List.flatMap_eq_nil_iff.mpr fun _ _ => rfl

lemma create_valid (room : 0 < capacity) : Valid key hash (create capacity : Table β) := by
  refine ⟨by simpa [create] using room,?_,Nat.zero_le _,fun _ _ _ member => absurd member not_mem_nil,?_⟩
  · rw [create_entries]
    rfl
  · rw [create_entries]
    exact nodup_nil

lemma Bucketed.unique (bucketed : Bucketed key hash table) (first : entry ∈ entries table) (second : other ∈ entries table) (same : key entry = key other) :
    entry = other := inj_on_of_nodup_map bucketed.once first second same

lemma Bucketed.inside (bucketed : Bucketed key hash table) (wanted : κ) : hash wanted % table.capacity < table.capacity := mod_lt _ bucketed.room

lemma Bucketed.mem_bucket (bucketed : Bucketed key hash table) : entry ∈ table.buckets (hash (key entry) % table.capacity) ↔ entry ∈ entries table := by
  constructor
  · intro member
    exact mem_entries.mpr ⟨_,bucketed.inside _,member⟩
  · intro member
    obtain ⟨index,within,here⟩ := mem_entries.mp member
    rwa [bucketed.placed index within entry here]

lemma Bucketed.placed_update (bucketed : Bucketed key hash table)
    (own : ∀ entry ∈ bucket, entry ∈ table.buckets index ∨ hash (key entry) % table.capacity = index) :
    ∀ other < table.capacity, ∀ entry ∈ update table.buckets index bucket other, hash (key entry) % table.capacity = other := by
  intro other inside entry member
  by_cases here : other = index
  · subst here
    rw [update_self] at member
    rcases own entry member with old | fresh
    · exact bucketed.placed other inside entry old
    · exact fresh
  · rw [update_of_ne here] at member
    exact bucketed.placed other inside entry member

lemma entries_resized (capacity : Nat) :
    entries (⟨capacity,table.size,(entries table).foldl (fun buckets item => emplaceBack buckets (hash (key item) % capacity) item) fun _ => []⟩ : Table β) =
      (List.range capacity).flatMap fun index => (entries table).filter fun item => hash (key item) % capacity = index := by
  refine flatMap_congr fun index _ => ?_
  exact spread key hash (entries table) capacity index

lemma Bucketed.resized_perm (bucketed : Bucketed key hash table) (room : 0 < capacity) :
    ((List.range capacity).flatMap fun index => (entries table).filter fun item => hash (key item) % capacity = index).Perm (entries table) := by
  have apart : (entries table).Nodup := bucketed.once.of_map key
  refine (List.perm_ext_iff_of_nodup ?_ apart).mpr fun entry => ?_
  · refine List.nodup_flatMap.mpr ⟨fun index _ => apart.filter _,?_⟩
    refine nodup_range.imp fun different => ?_
    intro entry first second
    exact different ((of_decide_eq_true (mem_filter.mp first).2).symm.trans (of_decide_eq_true (mem_filter.mp second).2))
  · simp only [List.mem_flatMap,mem_range,mem_filter,decide_eq_true_eq]
    constructor
    · rintro ⟨_,_,member,_⟩
      exact member
    · intro member
      exact ⟨_,mod_lt _ room,member,rfl⟩

lemma Bucketed.resize (bucketed : Bucketed key hash table) (fits : table.size < capacity) :
    ∃ resized, resize key hash table capacity = some resized ∧ Bucketed key hash resized ∧ (entries resized).Perm (entries table) ∧
      resized.capacity = capacity ∧ resized.size = table.size := by
  have room : 0 < capacity := Nat.lt_of_le_of_lt (Nat.zero_le _) fits
  have perm : (entries (⟨capacity,table.size,(entries table).foldl
      (fun buckets item => emplaceBack buckets (hash (key item) % capacity) item) fun _ => []⟩ : Table β)).Perm (entries table) := by
    rw [entries_resized]
    exact bucketed.resized_perm room
  refine ⟨_,if_pos fits,⟨room,?_,?_⟩,perm,rfl,rfl⟩
  · intro index _ entry member
    dsimp only at member
    rw [spread] at member
    exact of_decide_eq_true (mem_filter.mp member).2
  · exact (perm.map key).nodup_iff.mpr bucketed.once

lemma Valid.resize (valid : Valid key hash table) :
    ∃ larger, resize key hash table (table.capacity * 2) = some larger ∧ Valid key hash larger ∧ (entries larger).Perm (entries table) ∧
      larger.size ≤ larger.capacity * 3 / 4 := by
  have room := valid.room
  have load := valid.load
  obtain ⟨larger,made,bucketed,perm,capacity,size⟩ := valid.bucketed.resize (by omega : table.size < table.capacity * 2)
  refine ⟨larger,made,⟨bucketed.room,?_,by omega,bucketed.placed,bucketed.once⟩,perm,by omega⟩
  rw [size,perm.length_eq]
  exact valid.size

end Places

variable [DecidableEq κ]

def erase (key : β → κ) (hash : κ → Nat) (table : Table β) (wanted : κ) : Table β :=
  if table.capacity = 0 then table
  else
    let index := hash wanted % table.capacity
    let bucket := table.buckets index
    ⟨table.capacity,if bucket.any (fun entry => key entry = wanted) then table.size - 1 else table.size,
      update table.buckets index (bucket.eraseP fun entry => key entry = wanted)⟩

section Laws

variable {key : β → κ} {hash : κ → Nat} {table : Table β} {entry other item : β} {wanted : κ}

lemma Bucketed.find_iff (bucketed : Bucketed key hash table) : find key hash table wanted = some entry ↔ entry ∈ entries table ∧ key entry = wanted := by
  rw [find,if_neg (Nat.ne_of_gt bucketed.room)]
  constructor
  · intro found
    have is : key entry = wanted := by simpa using find?_some found
    exact ⟨mem_entries.mpr ⟨_,bucketed.inside wanted,mem_of_find?_eq_some found⟩,is⟩
  · rintro ⟨member,rfl⟩
    have here := bucketed.mem_bucket.mpr member
    cases found : (table.buckets (hash (key entry) % table.capacity)).find? fun other => key other = key entry with
    | none => exact absurd (decide_eq_true rfl) (List.find?_eq_none.mp found entry here)
    | some other =>
      have is : key other = key entry := by simpa using find?_some found
      have among : other ∈ entries table := mem_entries.mpr ⟨_,bucketed.inside _,mem_of_find?_eq_some found⟩
      rw [bucketed.unique among member is]

lemma eraseP_eq_filter {items : List β} (once : (items.map key).Nodup) (wanted : κ) :
    items.eraseP (fun entry => key entry = wanted) = items.filter fun entry => key entry ≠ wanted := by
  induction items with
  | nil => rfl
  | cons head rest ih =>
    rw [map_cons,nodup_cons] at once
    by_cases here : key head = wanted
    · have others : rest.filter (fun entry => key entry ≠ wanted) = rest := by
        refine filter_eq_self.mpr fun entry member => decide_eq_true fun is => ?_
        exact once.1 (here.trans is.symm ▸ mem_map_of_mem member)
      rw [List.eraseP_cons_of_pos (by simpa using here),List.filter_cons_of_neg (by simpa using here),others]
    · rw [List.eraseP_cons_of_neg (by simpa using here),List.filter_cons_of_pos (by simpa using here),ih once.2]

omit [DecidableEq κ] in
lemma length_eraseP_add (items : List β) (chosen : β → Bool) : (items.eraseP chosen).length + (if items.any chosen then 1 else 0) = items.length := by
  rw [List.length_eraseP]
  split
  · rename_i present
    obtain ⟨entry,member,_⟩ := any_eq_true.mp present
    exact Nat.sub_add_cancel (length_pos_of_mem member)
  · rfl

lemma Bucketed.erased (bucketed : Bucketed key hash table) (wanted : κ) :
    ∃ others, (entries table).Perm (table.buckets (hash wanted % table.capacity) ++ others) ∧
      ((table.buckets (hash wanted % table.capacity)).eraseP (fun entry => key entry = wanted) ++ others).Perm ((entries table).filter fun entry => key entry ≠ wanted) ∧
      ∀ size bucket, (entries ⟨table.capacity,size,update table.buckets (hash wanted % table.capacity) bucket⟩).Perm (bucket ++ others) := by
  obtain ⟨others,whole,changed⟩ := entries_update (bucketed.inside wanted)
  have keys : ((table.buckets (hash wanted % table.capacity) ++ others).map key).Nodup := (whole.map key).nodup_iff.mp bucketed.once
  rw [map_append,nodup_append] at keys
  obtain ⟨within,_,apart⟩ := keys
  have elsewhere : ∀ entry ∈ others, key entry ≠ wanted := by
    intro entry member is
    have among : entry ∈ entries table := whole.mem_iff.mpr (mem_append_right _ member)
    have here := bucketed.mem_bucket.mpr among
    rw [is] at here
    exact apart _ (mem_map_of_mem here) _ (mem_map_of_mem member) rfl
  have rest : others.filter (fun entry => key entry ≠ wanted) = others := filter_eq_self.mpr fun entry member => decide_eq_true (elsewhere entry member)
  refine ⟨others,whole,?_,changed⟩
  have parts := whole.filter fun entry => key entry ≠ wanted
  rw [filter_append,rest,← eraseP_eq_filter within] at parts
  exact parts.symm

lemma Bucketed.put_perm (bucketed : Bucketed key hash table) (item : β) :
    (entries (put key hash table item)).Perm ((entries table).filter (fun entry => key entry ≠ key item) ++ [item]) := by
  obtain ⟨others,_,kept,changed⟩ := bucketed.erased (key item)
  refine (changed _ _).trans ?_
  rw [append_assoc]
  exact (List.Perm.append_left _ List.perm_append_comm).trans ((append_assoc _ _ _ ▸ kept.append_right [item]))

lemma Bucketed.erase_perm (bucketed : Bucketed key hash table) (wanted : κ) :
    (entries (erase key hash table wanted)).Perm ((entries table).filter fun entry => key entry ≠ wanted) := by
  obtain ⟨others,_,kept,changed⟩ := bucketed.erased wanted
  rw [erase,if_neg (Nat.ne_of_gt bucketed.room)]
  exact (changed _ _).trans kept

lemma Bucketed.put_size (bucketed : Bucketed key hash table) (item : β) :
    (put key hash table item).size + (entries table).length = table.size + (entries (put key hash table item)).length := by
  obtain ⟨others,whole,_,changed⟩ := bucketed.erased (key item)
  have before := whole.length_eq
  have after := (changed (if (table.buckets (hash (key item) % table.capacity)).any (fun entry => key entry = key item) then table.size else table.size + 1)
    ((table.buckets (hash (key item) % table.capacity)).eraseP (fun entry => key entry = key item) ++ [item])).length_eq
  have gone := length_eraseP_add (table.buckets (hash (key item) % table.capacity)) fun entry => key entry = key item
  unfold HashMap.put
  rw [after]
  simp only [length_append,length_singleton] at before ⊢
  split at gone
  · rename_i present
    rw [if_pos present]
    omega
  · rename_i absent
    rw [if_neg absent]
    omega

lemma Bucketed.erase_size (bucketed : Bucketed key hash table) (wanted : κ) (counted : (entries table).length ≤ table.size) :
    (erase key hash table wanted).size + (entries table).length = table.size + (entries (erase key hash table wanted)).length := by
  obtain ⟨others,whole,_,changed⟩ := bucketed.erased wanted
  have before := whole.length_eq
  have after := (changed (if (table.buckets (hash wanted % table.capacity)).any (fun entry => key entry = wanted) then table.size - 1 else table.size)
    ((table.buckets (hash wanted % table.capacity)).eraseP fun entry => key entry = wanted)).length_eq
  have gone := length_eraseP_add (table.buckets (hash wanted % table.capacity)) fun entry => key entry = wanted
  unfold HashMap.erase
  rw [if_neg (Nat.ne_of_gt bucketed.room),after]
  simp only [length_append] at before ⊢
  split at gone
  · rename_i present
    rw [if_pos present]
    omega
  · rename_i absent
    rw [if_neg absent]
    omega

lemma Bucketed.put (bucketed : Bucketed key hash table) (item : β) : Bucketed key hash (put key hash table item) where
  room := bucketed.room
  placed := by
    refine bucketed.placed_update fun entry member => ?_
    rcases mem_append.mp member with kept | new
    · exact .inl (List.mem_of_mem_eraseP kept)
    · rw [mem_singleton.mp new]
      exact .inr rfl
  once := by
    refine ((bucketed.put_perm item).map key).nodup_iff.mpr ?_
    rw [map_append,nodup_append]
    refine ⟨bucketed.once.sublist (List.filter_sublist.map key),nodup_singleton _,?_⟩
    intro one first two second same
    obtain ⟨entry,member,rfl⟩ := mem_map.mp first
    rw [List.map_singleton,mem_singleton] at second
    exact (of_decide_eq_true (mem_filter.mp member).2) (same.trans second)

lemma Bucketed.erase (bucketed : Bucketed key hash table) (wanted : κ) : Bucketed key hash (erase key hash table wanted) := by
  have perm := bucketed.erase_perm wanted
  unfold HashMap.erase at perm ⊢
  rw [if_neg (Nat.ne_of_gt bucketed.room)] at perm ⊢
  refine ⟨bucketed.room,bucketed.placed_update fun entry member => .inl (List.mem_of_mem_eraseP member),?_⟩
  exact (perm.map key).nodup_iff.mpr (bucketed.once.sublist (List.filter_sublist.map key))

omit [DecidableEq κ] in
lemma Valid.of_bucketed (bucketed : Bucketed key hash table) (size : table.size = (entries table).length) (load : table.size ≤ table.capacity * 3 / 4 + 1) :
    Valid key hash table := ⟨bucketed.room,size,load,bucketed.placed,bucketed.once⟩

lemma Valid.find_iff (valid : Valid key hash table) : find key hash table wanted = some entry ↔ entry ∈ entries table ∧ key entry = wanted :=
  valid.bucketed.find_iff

lemma Valid.put (valid : Valid key hash table) (item : β) (light : table.size ≤ table.capacity * 3 / 4) : Valid key hash (put key hash table item) := by
  have counted := valid.bucketed.put_size item
  have size := valid.size
  refine .of_bucketed (valid.bucketed.put item) (by omega) ?_
  unfold HashMap.put
  dsimp only
  split <;> omega

lemma Valid.erase (valid : Valid key hash table) (wanted : κ) : Valid key hash (erase key hash table wanted) := by
  have size := valid.size
  have load := valid.load
  have counted := valid.bucketed.erase_size wanted size.ge
  refine .of_bucketed (valid.bucketed.erase wanted) (by omega) ?_
  unfold HashMap.erase
  rw [if_neg (Nat.ne_of_gt valid.room)]
  dsimp only
  split <;> omega

lemma Valid.insert (valid : Valid key hash table) (item : β) :
    ∃ after, insert key hash table item = some after ∧ Valid key hash after ∧
      (entries after).Perm ((entries table).filter (fun entry => key entry ≠ key item) ++ [item]) := by
  unfold HashMap.insert
  split
  · obtain ⟨larger,resized,now,perm,light⟩ := valid.resize
    rw [resized]
    exact ⟨_,rfl,now.put item light,(now.bucketed.put_perm item).trans ((perm.filter _).append_right _)⟩
  · exact ⟨_,rfl,valid.put item (by omega),valid.bucketed.put_perm item⟩

lemma Valid.insert_new (valid : Valid key hash table) (fresh : key item ∉ (entries table).map key) :
    ∃ after, HashMap.insert key hash table item = some after ∧ Valid key hash after ∧ (entries after).Perm (entries table ++ [item]) := by
  obtain ⟨after,made,now,perm⟩ := valid.insert item
  refine ⟨after,made,now,perm.trans (List.Perm.of_eq ?_)⟩
  rw [filter_eq_self.mpr]
  intro entry member
  exact decide_eq_true fun same => fresh (same ▸ mem_map_of_mem member)

lemma Valid.find_insert (valid : Valid key hash table) (inserted : HashMap.insert key hash table item = some after) (wanted : κ) :
    find key hash after wanted = if wanted = key item then some item else find key hash table wanted := by
  obtain ⟨other,made,now,perm⟩ := valid.insert item
  cases inserted.symm.trans made
  refine Option.ext fun entry => ?_
  rw [now.find_iff,perm.mem_iff,mem_append,mem_filter,mem_singleton]
  by_cases here : wanted = key item
  · rw [if_pos here]
    constructor
    · rintro ⟨⟨_,away⟩ | rfl,is⟩
      · exact absurd (is.trans here) (of_decide_eq_true away)
      · rfl
    · rintro ⟨⟩
      exact ⟨.inr rfl,here.symm⟩
  · rw [if_neg here,valid.find_iff]
    constructor
    · rintro ⟨⟨member,_⟩ | rfl,is⟩
      · exact ⟨member,is⟩
      · exact absurd is.symm here
    · rintro ⟨member,rfl⟩
      exact ⟨.inl ⟨member,decide_eq_true here⟩,rfl⟩

lemma Valid.find_erase (valid : Valid key hash table) (wanted other : κ) :
    find key hash (HashMap.erase key hash table wanted) other = if other = wanted then none else find key hash table other := by
  refine Option.ext fun entry => ?_
  rw [(valid.erase wanted).find_iff,(valid.bucketed.erase_perm wanted).mem_iff,mem_filter]
  by_cases here : other = wanted
  · rw [if_pos here]
    constructor
    · rintro ⟨⟨_,away⟩,is⟩
      exact absurd (is.trans here) (of_decide_eq_true away)
    · intro found
      cases found
  · rw [if_neg here,valid.find_iff]
    constructor
    · rintro ⟨⟨member,_⟩,is⟩
      exact ⟨member,is⟩
    · rintro ⟨member,rfl⟩
      exact ⟨⟨member,decide_eq_true here⟩,rfl⟩

end Laws

end MedvedDB.HashMap
