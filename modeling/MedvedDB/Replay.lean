import MedvedDB.Prelude

namespace MedvedDB.Replay

variable {σ α : Type}

-- Operations on a state, some of which are refused. A refused operation may
-- change the state too, but a run does not get past it.
variable (act : σ → α → σ) (accepted : α → Bool)

def Idempotent (op : α) : Prop := ∀ state, act (act state op) op = act state op

-- `later` leaves alone what `op` has done: where `op` changes nothing, it
-- changes nothing behind `later` either.
def Respects (op later : α) : Prop := ∀ state, act state op = state → act (act state later) op = act state later

-- The operations a run that goes on to its end tries: all up to the first one
-- that is refused.
def attempted : List α → List α
  | [] => []
  | op::rest => if accepted op then op::attempted rest else [op]

-- A run over `ops` that may at any time be set back to an earlier place. The
-- list is what is still ahead, from the place where the run is.
inductive Run (start : σ) (ops : List α) : List α → σ → Prop where
  | begin : Run start ops ops start
  | accept : Run start ops (op::left) state → accepted op = true → Run start ops left (act state op)
  | refuse : Run start ops (op::left) state → accepted op = false → Run start ops (op::left) (act state op)
  | back : Run start ops left state → left <:+ more → more <:+ ops → Run start ops more state

variable {act accepted}

variable {left ops : List α} {start : σ}

lemma foldl_absorbed (idempotent : ∀ op, Idempotent act op) (respected : ops.Pairwise (Respects act))
    (start : σ) (member : op ∈ ops) : act (ops.foldl act start) op = ops.foldl act start := by
  induction ops using reverseRecOn with
  | nil => cases member
  | append_singleton front last ih =>
    rw [foldl_append]
    obtain ⟨early,_,across⟩ := pairwise_append.mp respected
    rcases mem_append.mp member with old | new
    · exact across op old last (mem_singleton_self _) _ (ih early old)
    · obtain rfl := mem_singleton.mp new
      exact idempotent _ _

lemma attempted_append (all : ∀ op ∈ front, accepted op = true) (rest : List α) :
    attempted accepted (front ++ rest) = front ++ attempted accepted rest := by
  induction front with
  | nil => rfl
  | cons op front ih =>
    simp only [cons_append,attempted,all op mem_cons_self,if_true]
    rw [ih fun other member => all other (mem_cons_of_mem _ member)]

lemma attempted_refused (refused : accepted op = false) (rest : List α) : attempted accepted (op::rest) = [op] := by
  simp [attempted,refused]

lemma attempted_cons (accepted : α → Bool) (op : α) (rest : List α) : ∃ more, attempted accepted (op::rest) = op::more := by
  unfold attempted
  split
  · exact ⟨_,rfl⟩
  · exact ⟨_,rfl⟩

-- Where a run is: it has got past `passed` and has tried `again` too, before
-- it was set back.
structure Place (act : σ → α → σ) (accepted : α → Bool) (start : σ) (ops passed again untried : List α) (state : σ) :
    Prop where
  whole : ops = passed ++ again ++ untried
  all : ∀ op ∈ passed, accepted op = true
  front : passed ++ again <+: attempted accepted ops
  same : state = (passed ++ again).foldl act start

lemma Place.next (idempotent : ∀ op, Idempotent act op)
    (respected : ops.Pairwise (Respects act)) (place : Place act accepted start ops passed again untried state)
    (ahead : op::left = again ++ untried) :
    ∃ rest untried, left = rest ++ untried ∧ Place act accepted start ops passed (op::rest) untried (act state op) := by
  obtain ⟨whole,all,front,rfl⟩ := place
  cases again with
  | cons head rest =>
    cases ahead
    refine ⟨rest,untried,rfl,whole,all,front,?_⟩
    refine foldl_absorbed idempotent ?_ start (mem_append_right _ mem_cons_self)
    rw [whole] at respected
    exact (pairwise_append.mp respected).1
  | nil =>
    obtain rfl : op::left = untried := ahead
    rw [append_nil] at whole
    obtain ⟨more,first⟩ := attempted_cons accepted op left
    refine ⟨[],left,rfl,by rw [whole]; simp,all,⟨more,?_⟩,by simp⟩
    rw [whole,attempted_append all,first]
    simp

lemma Run.place (idempotent : ∀ op, Idempotent act op)
    (respected : ops.Pairwise (Respects act)) (run : Run act accepted start ops left state) :
    ∃ passed again untried, left = again ++ untried ∧ Place act accepted start ops passed again untried state := by
  induction run with
  | begin => exact ⟨[],[],ops,rfl,rfl,by simp,⟨_,rfl⟩,rfl⟩
  | accept _ yes ih =>
    obtain ⟨passed,again,untried,ahead,place⟩ := ih
    obtain ⟨rest,untried,rfl,whole,all,front,same⟩ := place.next idempotent respected ahead
    refine ⟨passed ++ [_],rest,untried,rfl,by simpa using whole,?_,by simpa using front,by simpa using same⟩
    intro op member
    rcases mem_append.mp member with old | new
    · exact all op old
    · exact mem_singleton.mp new ▸ yes
  | refuse _ no ih =>
    obtain ⟨passed,again,untried,ahead,place⟩ := ih
    obtain ⟨rest,untried,rfl,next⟩ := place.next idempotent respected ahead
    exact ⟨passed,_::rest,untried,rfl,next⟩
  | back _ longer within ih =>
    obtain ⟨passed,again,untried,rfl,whole,all,front,same⟩ := ih
    obtain ⟨skipped,rfl⟩ := longer
    obtain ⟨earlier,shorter⟩ := within
    have cut : earlier ++ skipped = passed := by
      rw [whole,← append_assoc,append_assoc passed] at shorter
      exact List.append_cancel_right shorter
    refine ⟨earlier,skipped ++ again,untried,by simp,by rw [whole,← cut]; simp,?_,?_,?_⟩
    · exact fun op member => all op (cut ▸ mem_append_left _ member)
    · rwa [← append_assoc,cut]
    · rwa [← append_assoc,cut]

-- A run at the end, or one that is refused where it is, has come to the state
-- of the run that is never set back.
lemma Run.finished (idempotent : ∀ op, Idempotent act op)
    (respected : ops.Pairwise (Respects act)) (run : Run act accepted start ops [] state) :
    state = (attempted accepted ops).foldl act start := by
  obtain ⟨passed,again,untried,ahead,whole,all,_,same⟩ := run.place idempotent respected
  obtain ⟨rfl,rfl⟩ := List.append_eq_nil_iff.mp ahead.symm
  rw [append_nil] at whole same
  have every := attempted_append all []
  rw [← whole] at every
  rw [every,same]
  simp [attempted]

lemma Run.refused (idempotent : ∀ op, Idempotent act op)
    (respected : ops.Pairwise (Respects act)) (run : Run act accepted start ops (op::left) state)
    (no : accepted op = false) : act state op = (attempted accepted ops).foldl act start := by
  obtain ⟨passed,again,untried,ahead,place⟩ := run.place idempotent respected
  obtain ⟨rest,untried,rfl,whole,all,front,same⟩ := place.next idempotent respected ahead
  have last : attempted accepted ops = passed ++ [op] := by
    rw [whole,append_assoc,attempted_append all,cons_append,attempted_refused no]
  have none : rest = [] := by
    rw [last] at front
    have short := front.length_le
    simpa using short
  rw [same,last,none]

end MedvedDB.Replay
