import MedvedDB.Prelude

namespace MedvedDB.DoublyLinked

-- The entry none is the list itself: what follows it is the first entry, what stands
-- before it the last one.
structure Links (ν : Type) where
  after : Option ν → Option ν
  before : Option ν → Option ν

variable {ν : Type} [DecidableEq ν]

def Links.empty : Links ν := ⟨fun _ => none,fun _ => none⟩

def Links.exclude (links : Links ν) (entry : ν) : Links ν :=
  let after := update links.after (links.before entry) (links.after entry)
  ⟨after,update links.before (after entry) (links.before entry)⟩

def Links.emplaceBack (links : Links ν) (entry : ν) : Links ν :=
  let last := if links.after none = none then none else links.before none
  ⟨update (update links.after entry none) last entry,update (update links.before entry last) none entry⟩

def Links.Joined (links : Links ν) (one two : Option ν) : Prop := links.after one = two ∧ links.before two = one

-- The way around the list, from its head back to it.
def Linked (links : Links ν) (entries : List ν) : Prop :=
  entries.Nodup ∧ (none::entries.map some ++ [none]).IsChain links.Joined

lemma chain_frame {links : Links ν} {way : List (Option ν)} (chain : way.IsChain links.Joined) (from_ : one ∉ way.dropLast) (onto : two ∉ way.tail) :
    way.IsChain (Links.Joined ⟨update links.after one there,update links.before two back⟩) := by
  induction way with
  | nil => exact .nil
  | cons first rest ih =>
    cases rest with
    | nil => exact .singleton _
    | cons second rest =>
      obtain ⟨joined,later⟩ := isChain_cons_cons.mp chain
      rw [List.dropLast_cons_cons,mem_cons,not_or] at from_
      rw [List.tail_cons,mem_cons,not_or] at onto
      refine isChain_cons_cons.mpr ⟨⟨?_,?_⟩,ih later from_.2 onto.2⟩
      · exact (update_of_ne (Ne.symm from_.1) _ _).trans joined.1
      · exact (update_of_ne (Ne.symm onto.1) _ _).trans joined.2

omit [DecidableEq ν] in
lemma way_last {entries : List ν} (once : entries.Nodup) :
    ∃ start last, none::entries.map some = start ++ [last] ∧ last ∉ start ∧ ∀ other, some other = last → other ∈ entries := by
  rcases List.eq_nil_or_concat entries with rfl | ⟨init,entry,rfl⟩
  · exact ⟨[],none,rfl,not_mem_nil,by simp⟩
  · refine ⟨none::init.map some,some entry,by simp,?_,by simp⟩
    simpa using (List.nodup_concat _ _).mp once |>.1

omit [DecidableEq ν] in
lemma way_first {entries : List ν} (once : entries.Nodup) :
    ∃ first rest, entries.map some ++ [none] = first::rest ∧ first ∉ rest ∧ ∀ other, some other = first → other ∈ entries := by
  cases entries with
  | nil => exact ⟨none,[],rfl,not_mem_nil,by simp⟩
  | cons entry rest => exact ⟨some entry,rest.map some ++ [none],rfl,by simpa using (nodup_cons.mp once).1,by simp⟩

lemma exclude_linked {links : Links ν} (linked : Linked links (front ++ entry::back)) : Linked (links.exclude entry) (front ++ back) := by
  obtain ⟨once,chain⟩ := linked
  obtain ⟨front_once,back_once,apart⟩ := nodup_append.mp once
  obtain ⟨start,last,ends,last_once,last_in⟩ := way_last front_once
  obtain ⟨first,rest,begins,first_once,first_in⟩ := way_first (nodup_cons.mp back_once).2
  have way (middle : List (Option ν)) : none::front.map some ++ (middle ++ (back.map some ++ [none])) = start ++ last::(middle ++ first::rest) := by
    rw [ends,begins,append_assoc,singleton_append]
  have whole : none::(front ++ entry::back).map some ++ [none] = start ++ last::some entry::first::rest := by simpa using way [some entry]
  have left : none::(front ++ back).map some ++ [none] = start ++ last::first::rest := by simpa using way []
  rw [whole,List.isChain_split,isChain_cons_cons,isChain_cons_cons] at chain
  obtain ⟨front_chain,into,out,back_chain⟩ := chain
  have excluded : links.exclude entry = ⟨update links.after last first,update links.before first last⟩ := by
    have other : some entry ≠ last := fun same => apart entry (last_in entry same) entry mem_cons_self rfl
    unfold Links.exclude
    rw [into.2,out.1]
    dsimp only
    rw [update_of_ne other,out.1]
  refine ⟨(nodup_middle.mp once).of_cons,?_⟩
  rw [left,List.isChain_split,isChain_cons_cons,excluded]
  refine ⟨chain_frame front_chain ?_ ?_,⟨update_self _ _ _,update_self _ _ _⟩,chain_frame back_chain ?_ first_once⟩
  · rwa [List.dropLast_concat]
  · rw [← ends,List.tail_cons]
    intro member
    obtain ⟨other,here,same⟩ := mem_map.mp member
    exact apart other here other (mem_cons_of_mem _ (first_in other same)) rfl
  · rw [← begins,List.dropLast_concat]
    intro member
    obtain ⟨other,there,same⟩ := mem_map.mp member
    exact apart other (last_in other same) other (mem_cons_of_mem _ there) rfl

lemma emplaceBack_linked {links : Links ν} (linked : Linked links entries) (new : entry ∉ entries) :
    Linked (links.emplaceBack entry) (entries ++ [entry]) := by
  obtain ⟨once,chain⟩ := linked
  obtain ⟨start,last,ends,last_once,last_in⟩ := way_last once
  have other : some entry ≠ last := fun same => new (last_in entry same)
  have none_last (empty : links.after none = none) : none = last := by
    cases entries with
    | nil => simpa using congrArg List.getLast? ends
    | cons first rest =>
      rw [(isChain_cons_cons.mp chain).1.1] at empty
      cases empty
  rw [ends,append_assoc,singleton_append,List.isChain_split] at chain
  obtain ⟨around,close⟩ := chain
  have back := (isChain_cons_cons.mp close).1
  have outside : some entry ∉ start ++ [last] := by
    rw [← ends]
    simpa using new
  have emplaced : links.emplaceBack entry =
      ⟨update (update links.after entry none) last entry,update (update links.before entry last) none entry⟩ := by
    unfold Links.emplaceBack
    rw [back.2,ite_eq_right_iff.mpr none_last]
  have nodup : (entries ++ [entry]).Nodup := nodup_append.mpr ⟨once,nodup_singleton _,by grind⟩
  refine ⟨nodup,?_⟩
  rw [emplaced,map_append,← cons_append,ends,append_assoc,append_assoc,singleton_append,List.isChain_split,List.map_singleton,
    singleton_append,isChain_cons_cons,List.isChain_pair]
  refine ⟨chain_frame (chain_frame around ?_ ?_) ?_ ?_,⟨update_self _ _ _,?_⟩,?_,?_⟩
  · exact fun member => outside (List.mem_of_mem_dropLast member)
  · exact fun member => outside (List.mem_of_mem_tail member)
  · rwa [List.dropLast_concat]
  · rw [← ends]
    simp
  · simp
  · simp [other]
  · simp

omit [DecidableEq ν] in
lemma Linked.first {links : Links ν} (linked : Linked links (entry::rest)) : links.after none = some entry :=
  (isChain_cons_cons.mp linked.2).1.1

end MedvedDB.DoublyLinked
