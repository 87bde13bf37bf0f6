import MedvedDB.TrlogSteps

open MedvedDB.Lmdb MedvedDB.Trlog
namespace MedvedDB.TrlogSteps

variable {ω : Type}

-- Below the top there is always an entry to find.
def Tight (storage : LogStorage ω) (top : Nat) : Prop :=
  ∀ pos < top, ∃ id op, pos ≤ id ∧ stored storage id = some op

def WriterOk (log : Log ω) : Option (Writer ω) → Prop
  | none => Tight log.storage log.top
  | some (.opened _ txn) => Tight log.storage log.top ∧ txn = running (trlogMap.replace (entries log.storage) log.storage)
  | some (.numbered id _ txn) => id + 1 = log.top ∧ Bounded log.storage id ∧
      txn = running (trlogMap.replace (entries log.storage) log.storage)
  | some (.placed txn) => ∃ work, txn = running work ∧ Bounded work log.top ∧ Tight work log.top
  | some (.saving _ txn _) => ∃ work map, txn = running work ∧ trlogMap.content work = some map ∧
      Bounded work log.top ∧ Tight work log.top

lemma WriterOk.moved (ok : WriterOk log writer) (applied : Nat) :
    WriterOk {log with applied:=applied} writer := by
  cases writer with
  | none => exact ok
  | some writer =>
    cases writer with
    | opened | numbered | placed | saving => exact ok

structure Sound (shared : Shared ω) : Prop where
  bounded : Bounded shared.log.storage shared.log.top
  applied : shared.log.applied ≤ shared.log.top
  writer : WriterOk shared.log shared.writer

def Announces : Option (Writer ω) → Prop
  | some (.numbered _ _ _) | some (.placed _) => True
  | some (.saving _ _ changed) => changed
  | _ => False

lemma tight_insert {work : LogStorage ω} {id : Nat} (found : trlogMap.content work = some map)
    (missing : map.find id = none) (op : ω) (tight : Tight work top) :
    Tight (trlogMap.replace (map.insert id op) work) (idMaximize top id) := by
  intro pos below
  have extended := extends_insert found missing op
  by_cases old : pos < top
  · obtain ⟨other,value,above,held⟩ := tight pos old
    exact ⟨other,value,above,extended.kept held⟩
  · refine ⟨id,op,?_,by rw [stored_replace,if_pos rfl]⟩
    unfold idMaximize at below
    split at below <;> omega

lemma advance_sound {shared next : Shared ω} (sound : Sound shared)
    (done : advance true shared = some (notified,next)) :
    Sound next ∧ next.log.applied = shared.log.applied ∧ shared.log.top ≤ next.log.top ∧
      (Announces next.writer ∨ notified = true ∨
        next.log.top = shared.log.top ∧ ¬ Announces shared.writer) := by
  obtain ⟨log,writer⟩ := shared
  obtain ⟨bounded,applied,valid⟩ := sound
  cases writer with
  | none => cases done
  | some writer =>
    cases writer with
    | opened op txn =>
      obtain ⟨_,same⟩ : _ ∧ txn = running (trlogMap.replace (entries log.storage) log.storage) := valid
      subst same
      cases done
      refine ⟨⟨?_,applied.trans (le_succ _),rfl,bounded,rfl⟩,rfl,le_succ _,.inl trivial⟩
      exact fun id value held => (bounded id value held).trans (lt_succ_self _)
    | numbered id op txn =>
      obtain ⟨last,below,same⟩ : id + 1 = log.top ∧ Bounded log.storage id ∧
        txn = running (trlogMap.replace (entries log.storage) log.storage) := valid
      subst same
      have content : trlogMap.content (trlogMap.replace (entries log.storage) log.storage) =
        some (entries log.storage) := rfl
      have missing : (entries log.storage).find id = none := below.free
      simp only [advance,putUnique_running true id op content,missing,isSome_none,false_eq_true,if_false,
        if_true] at done
      cases done
      refine ⟨⟨bounded,applied,_,rfl,?_,?_⟩,rfl,le_refl _,.inl trivial⟩
      · intro other value held
        rw [stored_replace] at held
        split at held
        · change other < log.top
          omega
        · exact bounded other value held
      · intro pos before
        refine ⟨id,op,?_,by rw [stored_replace,if_pos rfl]⟩
        change pos < log.top at before
        omega
    | placed txn =>
      obtain ⟨work,rfl,inside,tight⟩ := valid
      cases done
      exact ⟨⟨inside,applied,tight⟩,rfl,le_refl _,.inr (.inl rfl)⟩
    | saving rest txn changed =>
      obtain ⟨work,map,rfl,content,inside,tight⟩ := valid
      cases rest with
      | nil =>
        cases done
        refine ⟨⟨inside,applied,tight⟩,rfl,le_refl _,.inr ?_⟩
        cases changed with
        | true => exact .inl rfl
        | false => exact .inr ⟨rfl,false_ne_true⟩
      | cons row rest =>
        obtain ⟨id,op⟩ := row
        simp only [advance,putUnique_running true id op content,if_true] at done
        cases held : map.find id with
        | none =>
          simp only [held,isSome_none,false_eq_true,if_false] at done
          cases done
          have higher := (idMaximize_bounds log.top id).1
          refine ⟨⟨?_,applied.trans higher,_,_,rfl,trlogMap.content_replace _ _,bounded_insert content inside op,
            tight_insert content held op tight⟩,rfl,higher,.inl rfl⟩
          exact fun other value old => (bounded other value old).trans_le higher
        | some value =>
          simp only [held,isSome_some,if_true] at done
          cases done
          refine ⟨⟨bounded,applied,work,map,rfl,content,inside,tight⟩,rfl,le_refl _,?_⟩
          cases changed with
          | true => exact .inl rfl
          | false => exact .inr (.inr ⟨rfl,false_ne_true⟩)

lemma beginAdd_sound (sound : Sound shared) (rows : List (Nat × ω))
    (done : beginAdd true shared rows = some next) :
    Sound next ∧ next.log = shared.log ∧ ¬ Announces shared.writer := by
  obtain ⟨log,writer⟩ := shared
  cases writer with
  | some _ => cases done
  | none =>
    simp only [beginAdd,openTrlog_eq,if_true] at done
    cases done
    exact ⟨⟨sound.bounded,sound.applied,_,_,rfl,trlogMap.content_replace _ _,sound.bounded,sound.writer⟩,rfl,id⟩

lemma beginAddOp_sound (sound : Sound shared) (op : ω)
    (done : beginAddOp true shared op = some next) :
    Sound next ∧ next.log = shared.log ∧ ¬ Announces shared.writer := by
  obtain ⟨log,writer⟩ := shared
  cases writer with
  | some _ => cases done
  | none =>
    simp only [beginAddOp,openTrlog_eq,if_true] at done
    cases done
    exact ⟨⟨sound.bounded,sound.applied,sound.writer,rfl⟩,rfl,id⟩

lemma read_inside (bounded : Bounded storage top) (before : pos ≤ top)
    (calls : ReadCalls) (size : Nat) :
    pos ≤ position pos (read calls storage pos size) ∧ position pos (read calls storage pos size) ≤ top := by
  obtain ⟨rest,whole⟩ := read_front calls storage pos size
  have ordered := (entries storage).walkFrom_sorted pos
  have listed : ∀ entry ∈ (entries storage).walkFrom pos, pos ≤ entry.1 ∧ entry.1 < top := by
    intro entry member
    obtain ⟨held,above⟩ := KeyMap.mem_walkFrom.mp member
    exact ⟨above,bounded entry.1 entry.2 held⟩
  rw [whole] at ordered listed
  refine ⟨(position_split ordered fun entry member => (listed entry member).1).1,position_le before ?_⟩
  exact fun entry member => (listed entry (mem_append_left _ member)).2

lemma read_covers {storage : LogStorage ω} (bounded : Bounded storage top) (tight : Tight storage top)
    (behind : pos < top) (size : Nat) : read {} storage pos size ≠ [] ∧
      (size ≤ (read {} storage pos size).length ∨ position pos (read {} storage pos size) = top) := by
  obtain ⟨id,op,above,held⟩ := tight pos behind
  have member : (id,op) ∈ (entries storage).walkFrom pos := KeyMap.mem_walkFrom.mpr ⟨held,above⟩
  constructor
  · rw [read_working]
    cases walked : (entries storage).walkFrom pos with
    | nil =>
      rw [walked] at member
      cases member
    | cons entry rest =>
      simp only [readLoop,Bool.not_true,false_eq_true,if_false]
      split <;> simp
  · have inside := (read_inside bounded behind.le {} size).2
    rw [read_working] at inside ⊢
    rcases readLoop_short size 0 ((entries storage).walkFrom pos) with whole | many
    · rw [whole] at inside ⊢
      have ordered : ((entries storage).walkFrom pos ++ []).Pairwise fun (one two : Nat × ω) => one.1 < two.1 := by
        rw [append_nil]
        exact (entries storage).walkFrom_sorted pos
      obtain ⟨last,value,near,final⟩ := tight (top - 1) (by omega)
      have lastIn : (last,value) ∈ (entries storage).walkFrom pos :=
        KeyMap.mem_walkFrom.mpr ⟨final,by omega⟩
      have passed := (position_split ordered fun entry listed =>
        (KeyMap.mem_walkFrom.mp (by simpa using listed)).2).2.1 _ lastIn
      refine .inr (le_antisymm inside ?_)
      change last < _ at passed
      omega
    · exact .inl (by simpa using many)

end MedvedDB.TrlogSteps
