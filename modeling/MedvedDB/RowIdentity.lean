import MedvedDB.Tablespace

open MedvedDB.TwoPhaseSet MedvedDB.Tablespace
namespace MedvedDB.RowIdentity

-- A node whose topology numbers every known uuid differently and itself with
-- MDV_LOCAL_ID. Two nodes share nothing of their numberings beyond that.
structure Node (υ β : Type) [LinearOrder υ] extends Space υ β where
  own : storageIds uuid = some localId
  injective : ∀ one two number, storageIds one = some number → storageIds two = some number → one = two
  paired : ∀ table, Paired (data.rowdata table)

variable {υ β γ : Type} [LinearOrder υ]

-- A row is named by the node that logged its insert and by its row id; the
-- node shows it under the number it has for that uuid.
def shown (space : Space υ β) (table origin : υ) (id : UInt64) : Option β :=
  (space.storageIds origin).bind fun number => get {} (space.data.rowdata table) ⟨number,id⟩ some

-- The entry that a delete request adds to the node's own log.
def loggedDelete (space : Space υ β) (table : υ) (row : ObjId) : Option (Op υ β) :=
  match trlogCreate {} space space.uuid with
  | (none,_) => none
  | (some ref,_) =>
    ((logDelete {} space table row).2.trlogs space.uuid).bind fun after =>
      Trlog.stored after.log.storage ref.log.top

def applyOp (restore : β → Option γ) (node : UInt32) (space : Space υ β) (op : Op υ β) : Space υ β :=
  {space with data:=(trlogApply restore node {} space.data op).2}

variable {space : Space υ β}

lemma trlogCreate_uuid (created : trlogCreate calls space uuid = (some ref,after)) :
    after.uuid = space.uuid := by
  unfold trlogCreate at created
  split at created
  · cases created
  · split at created
    · cases created
      rfl
    · split at created
      · cases created
      · split at created
        · cases created
          rfl
        · cases created

lemma loggedDelete_eq (accepted : (logDelete {} space table row).1 = .ok) :
    loggedDelete space table row = some (.rowDelete table row) := by
  unfold loggedDelete
  unfold logDelete at accepted ⊢
  cases created : trlogCreate {} space space.uuid with
  | mk found after =>
    cases found with
    | none => simp [created] at accepted
    | some ref =>
      have same := trlogCreate_uuid created
      simp only [created,Trlog.addOp_eq,Bool.and_self,if_true,Bool.true_and] at accepted ⊢
      cases held : Trlog.stored ref.log.storage ref.log.top with
      | some old => simp [held] at accepted
      | none => simp [setLog,same]

lemma shown_status (paired : ∀ table, Paired (space.data.rowdata table)) (table origin : υ)
    (id : UInt64) : shown space table origin id =
      (space.storageIds origin).bind fun number => (status (space.data.rowdata table) ⟨number,id⟩).data := by
  unfold shown
  congr 1
  funext number
  rw [get_status (paired table)]
  exact Option.bind_fun_some _

lemma Status.delete_data (state : Status β) : state.delete.data = none := by
  cases state <;> rfl

lemma shown_delete (restore : β → Option γ) (node : UInt32) (b : Node υ β) (table other : υ) (row : ObjId)
    (target : υ) (id : UInt64) :
    shown (applyOp restore node b.toSpace (.rowDelete table row)) target other id =
      if target = table ∧ b.storageIds other = some row.node ∧ id = row.id then none
      else shown b.toSpace target other id := by
  have deleted : ∀ target, (trlogApply restore node {} b.data (.rowDelete table row)).2.rowdata target =
      if target = table then (delete {} (b.data.rowdata table) row).2 else b.data.rowdata target := by
    intro target
    simp [trlogApply_delete,rowdataCreate_working]
  have after : ∀ target, Paired ((applyOp restore node b.toSpace (.rowDelete table row)).data.rowdata target) := by
    intro target
    simp only [applyOp,deleted]
    split
    · exact delete_paired _ (b.paired table) row
    · exact b.paired target
  rw [shown_status after,shown_status b.paired]
  simp only [applyOp,deleted]
  cases numbered : b.storageIds other with
  | none => simp
  | some number =>
    by_cases same : target = table
    · subst same
      by_cases hit : (⟨number,id⟩ : ObjId) = row
      · subst hit
        simp [status_delete,Status.delete_data]
      · have apart : ¬ (number = row.node ∧ id = row.id) := by
          rintro ⟨rfl,rfl⟩
          exact hit rfl
        simp [status_delete,hit,apart]
    · simp [same]

theorem delete_names_row_iff (restore : β → Option γ) (a b : Node υ β) (table origin : υ) (id : UInt64)
    (numberA numberB node : UInt32) (atA : a.storageIds origin = some numberA)
    (atB : b.storageIds origin = some numberB) (op : Op υ β)
    (accepted : (logDelete {} a.toSpace table ⟨numberA,id⟩).1 = .ok)
    (logged : loggedDelete a.toSpace table ⟨numberA,id⟩ = some op) :
    (∀ target other row, shown (applyOp restore node b.toSpace op) target other row =
        if (target,other,row) = (table,origin,id) then none else shown b.toSpace target other row) ↔
      numberA = numberB ∨ (shown b.toSpace table origin id = none ∧
        ∀ other, b.storageIds other = some numberA → shown b.toSpace table other id = none) := by
  rw [loggedDelete_eq accepted] at logged
  obtain rfl := Option.some.inj logged
  simp only [shown_delete]
  constructor
  · intro exactly
    by_cases same : numberA = numberB
    · exact .inl same
    · refine .inr ⟨?_,?_⟩
      · have here := exactly table origin id
        simpa [atB,Ne.symm same] using here
      · intro other numbered
        have here := exactly table other id
        by_cases own : other = origin
        · subst own
          rw [numbered] at atB
          exact absurd (Option.some.inj atB) same
        · simpa [numbered,own] using here.symm
  · intro condition target other row
    by_cases hit : (target,other,row) = (table,origin,id)
    · obtain ⟨rfl,rfl,rfl⟩ : target = table ∧ other = origin ∧ row = id := by simpa using hit
      rcases condition with rfl | ⟨hidden,_⟩
      · simp [atB]
      · simp [hidden]
    · rw [if_neg hit]
      split
      · rename_i drops
        obtain ⟨rfl,numbered,rfl⟩ := drops
        rcases condition with rfl | ⟨_,hidden⟩
        · have own := b.injective other origin _ numbered atB
          exact absurd (by rw [own]) hit
        · exact (hidden other numbered).symm
      · rfl

-- Three nodes 1, 2 and 3 have each logged one row with id 0 into table 7. What
-- a node has after it applied the three logs depends on its numbering only.
def threeRows (number : Nat → UInt32) : Data Nat Nat :=
  [1,2,3].foldl (fun data origin =>
    (trlogApply some (number origin) {} data (.rowInsert 0 7 (some [some (origin * 100)]))).2) fresh

lemma threeRows_paired (number : Nat → UInt32) (table : Nat) : Paired ((threeRows number).rowdata table) := by
  have start : Paired ((fresh : Data Nat Nat).rowdata table) := fresh_paired
  exact trlogApply_paired some _ {} (trlogApply_paired some _ {} (trlogApply_paired some _ {} start _) _) _

def nodeOne : Node Nat Nat where
  uuid := 1
  storageIds uuid := if uuid = 1 then some 0 else if uuid = 2 then some 1 else if uuid = 3 then some 2 else none
  data := threeRows fun uuid => if uuid = 1 then 0 else if uuid = 2 then 1 else 2
  trlogs _ := none
  logFiles _ := Trlog.fresh
  own := rfl
  injective one two number first second := by grind
  paired := threeRows_paired _

def nodeTwo : Node Nat Nat where
  uuid := 2
  storageIds uuid := if uuid = 2 then some 0 else if uuid = 1 then some 1 else if uuid = 3 then some 2 else none
  data := threeRows fun uuid => if uuid = 2 then 0 else if uuid = 1 then 1 else 2
  trlogs _ := none
  logFiles _ := Trlog.fresh
  own := rfl
  injective one two number first second := by grind
  paired := threeRows_paired _

-- Node 1 deletes its own row. Node 2 drops its own row instead.
theorem delete_hits_other_row :
    shown nodeOne.toSpace 7 1 0 = some 100 ∧ shown nodeTwo.toSpace 7 1 0 = some 100 ∧
      shown nodeTwo.toSpace 7 2 0 = some 200 ∧
      (loggedDelete nodeOne.toSpace 7 ⟨0,0⟩).map (fun op =>
        let after := applyOp some 1 nodeTwo.toSpace op
        (shown after 7 1 0,shown after 7 2 0)) = some (some 100,none) := by decide

theorem delete_names_row_three :
    loggedDelete nodeOne.toSpace 7 ⟨2,0⟩ = some (.rowDelete 7 ⟨2,0⟩) ∧ shown nodeTwo.toSpace 7 3 0 = some 300 ∧
      ∀ target other row, shown (applyOp some 1 nodeTwo.toSpace (.rowDelete 7 ⟨2,0⟩)) target other row =
        if (target,other,row) = (7,3,0) then none else shown nodeTwo.toSpace target other row :=
  ⟨by decide,by decide,
    (delete_names_row_iff some nodeOne nodeTwo 7 3 0 2 2 1 rfl rfl _ (by decide) (by decide)).mpr (.inl rfl)⟩

end MedvedDB.RowIdentity
