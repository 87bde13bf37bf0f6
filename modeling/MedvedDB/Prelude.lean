import Mathlib

namespace MedvedDB

export List (all_cons all_eq_true any_cons any_eq_false any_eq_true append_assoc append_inj append_nil append_of_mem cons_append cons_ne_nil
  countP_append countP_cons countP_eq_zero drop_left' exists_cons_of_ne_nil exists_mem_cons_iff filter_append filter_congr filter_eq_nil_iff
  filter_eq_self finRange find?_some flatMap_append flatMap_congr flatMap_cons flatMap_singleton foldlM_cons foldl_append foldl_cons forall_mem_cons
  getElem?_eq_getElem get_mem idxOf_lt_length_of_mem inj_on_of_nodup_map isChain_cons_cons length_append length_cons length_drop length_eq_zero_iff
  length_map length_nil length_pos_of_mem length_singleton length_take length_take_of_le map_append map_congr_left map_cons map_map map_nil
  mem_append mem_append_left mem_append_right mem_cons mem_cons_of_mem mem_cons_self mem_filter mem_filterMap mem_map mem_map_of_mem
  mem_of_find?_eq_some mem_of_getElem? mem_of_mem_erase mem_of_mem_take mem_range mem_singleton mem_singleton_self nil_append nodup_append nodup_cons
  nodup_middle nodup_nil nodup_range nodup_singleton not_mem_nil pairwise_append pairwise_cons pairwise_map perm_middle range' range'_succ range_succ
  replicate reverseRecOn singleton_append suffix_cons_iff sum_cons take_append take_append_drop take_left')
export Option (bind_eq_some_iff bind_some getD_none getD_some isNone_iff_eq_none isSome_iff_exists isSome_map isSome_none isSome_of_eq_some
  isSome_some ite_none_left_eq_some ite_none_right_eq_some map_eq_some_iff map_none map_some mem_toList some_inj some_ne_none toList_some)
export Bool (and_eq_true and_eq_true_iff eq_false_iff false_eq_true false_ne_true not_eq_false not_eq_true' or_eq_true)
export Nat (le_succ lt_succ_self mod_eq_of_lt mod_lt succ_le_succ succ_mul succ_ne_zero succ_pos)
export Function (update update_of_ne update_self)
export Sym2 (eq_swap map_mk mem_mk_left mem_mk_right)
export UInt32 (toNat_ofNat_of_lt')

instance three_neZero : NeZero 3 := ⟨by decide⟩

end MedvedDB
