import MedvedDB.Machine

namespace MedvedDB.Flooding

variable {υ σ π : Type}

-- A message carries the nodes that are known to be told already.
structure Message (υ π : Type) where
  dst : υ
  notified : List υ
  data : π
  deriving DecidableEq, Repr

-- How a node takes a message in, whom it knows and whom it can reach.
structure System (υ σ π : Type) where
  apply : υ → π → σ → σ
  peers : υ → σ → List υ
  channels : υ → List υ
  distinct : ∀ node state, (peers node state).Nodup

structure State (υ σ π : Type) where
  nodes : υ → σ
  flight : List (Message υ π)
  sent : List (Message υ π)
  received : List (Message υ π)

variable [DecidableEq υ]

def post (system : System υ σ π) (node : υ) (dst notified : List υ) (data : π) : List (Message υ π) :=
  (dst.filter (· ∈ system.channels node)).map fun peer => ⟨peer,notified,data⟩

def fresh (system : System υ σ π) (node : υ) (state : σ) (notified : List υ) : List υ := (system.peers node state).filter (· ∉ notified)

def forward (system : System υ σ π) (node : υ) (state : σ) (message : Message υ π) : List (Message υ π) :=
  let peers := fresh system node state message.notified
  if peers = [] then [] else post system node peers (message.notified ++ peers) message.data

def receive (system : System υ σ π) (state : State υ σ π) (message : Message υ π) : σ :=
  system.apply message.dst message.data (state.nodes message.dst)

def deliver (system : System υ σ π) (state : State υ σ π) (index : Nat) : Option (State υ σ π) :=
  match state.flight[index]? with
  | none => none
  | some message =>
    let after := receive system state message
    let posted := forward system message.dst after message
    some ⟨update state.nodes message.dst after,state.flight.eraseIdx index ++ posted,state.sent ++ posted,
      state.received ++ [message]⟩

variable {system : System υ σ π} {state : σ} {node : υ}

lemma deliver_cases {state next : State υ σ π} {index : Nat} (moved : deliver system state index = some next) :
    ∃ message rest, state.flight.Perm (message :: rest) ∧
      next.nodes = update state.nodes message.dst (receive system state message) ∧
      next.flight = rest ++ forward system message.dst (receive system state message) message ∧
      next.sent = state.sent ++ forward system message.dst (receive system state message) message ∧
      next.received = state.received ++ [message] := by
  unfold deliver at moved
  cases found : state.flight[index]? with
  | none =>
    rw [found] at moved
    cases moved
  | some message =>
    rw [found] at moved
    cases moved
    obtain ⟨inside,rfl⟩ := List.getElem?_eq_some_iff.mp found
    exact ⟨_,_,(List.getElem_cons_eraseIdx_perm inside).symm,rfl,rfl,rfl,rfl⟩

lemma mem_forward :
    other ∈ forward system node state message ↔
      other.dst ∈ fresh system node state message.notified ∧ other.dst ∈ system.channels node ∧
        other.notified = message.notified ++ fresh system node state message.notified ∧ other.data = message.data := by
  unfold forward
  dsimp only
  split
  · rename_i none_
    simp [none_]
  · simp only [post,mem_map,mem_filter,decide_eq_true_eq]
    constructor
    · intro found
      obtain ⟨peer,both,rfl⟩ := found
      exact ⟨both.1,both.2,rfl,rfl⟩
    · intro all
      exact ⟨other.dst,⟨all.1,all.2.1⟩,by rw [← all.2.2.1,← all.2.2.2]⟩

lemma mem_fresh :
    peer ∈ fresh system node state notified ↔ peer ∈ system.peers node state ∧ peer ∉ notified := by
  rw [fresh,mem_filter,decide_eq_true_eq]

lemma forward_larger (forwarded : other ∈ forward system node state message) : message.notified.toFinset ⊂ other.notified.toFinset := by
  obtain ⟨next,_,told,_⟩ := mem_forward.mp forwarded
  rw [told]
  refine ⟨?_,?_⟩
  · intro peer known
    rw [List.mem_toFinset] at known ⊢
    exact mem_append_left _ known
  · intro back
    have known := back (List.mem_toFinset.mpr (mem_append_right message.notified next))
    exact (mem_fresh.mp next).2 (List.mem_toFinset.mp known)

lemma deliver_counts {state next : State υ σ π} {index : Nat} (moved : deliver system state index = some next) :
    next.sent.length + state.flight.length = state.sent.length + next.flight.length + 1 := by
  obtain ⟨message,rest,order,_,flight,sent,_⟩ := deliver_cases moved
  have before := order.length_eq
  rw [length_cons] at before
  rw [flight,sent,length_append,length_append]
  omega

section Ending

variable [Fintype υ]

def cost (message : Message υ π) : Nat := (Fintype.card υ + 1) ^ (Fintype.card υ - message.notified.toFinset.card)

def total (messages : List (Message υ π)) : Nat := (messages.map cost).sum

lemma forward_total (system : System υ σ π) (node : υ) (state : σ) (message : Message υ π) :
    total (forward system node state message) < cost message := by
  have few : (forward system node state message).length ≤ Fintype.card υ := by
    unfold forward
    dsimp only
    split
    · exact Nat.zero_le _
    · rw [post,length_map]
      exact (((system.distinct node state).filter _).filter _).length_le_card
  by_cases none_ : forward system node state message = []
  · rw [none_]
    exact Nat.pos_of_ne_zero (pow_ne_zero _ (succ_ne_zero _))
  · obtain ⟨some_,member⟩ := List.exists_mem_of_ne_nil _ none_
    have room : message.notified.toFinset.card < Fintype.card υ :=
      Nat.lt_of_lt_of_le (Finset.card_lt_card (forward_larger member)) (Finset.card_le_univ _)
    obtain ⟨left,is⟩ : ∃ left, Fintype.card υ - message.notified.toFinset.card = left + 1 :=
      ⟨Fintype.card υ - message.notified.toFinset.card - 1,by omega⟩
    have small : ∀ other ∈ forward system node state message, cost other ≤ (Fintype.card υ + 1) ^ left := by
      intro other forwarded
      refine Nat.pow_le_pow_right (succ_pos _) ?_
      have larger := Finset.card_lt_card (forward_larger forwarded)
      omega
    have bounded : total (forward system node state message) ≤ (forward system node state message).length * (Fintype.card υ + 1) ^ left := by
      have each := List.sum_le_card_nsmul ((forward system node state message).map cost) ((Fintype.card υ + 1) ^ left) (by
        intro value found
        obtain ⟨other,forwarded,rfl⟩ := mem_map.mp found
        exact small other forwarded)
      simpa [total] using each
    calc total (forward system node state message)
        ≤ (forward system node state message).length * (Fintype.card υ + 1) ^ left := bounded
      _ ≤ Fintype.card υ * (Fintype.card υ + 1) ^ left := Nat.mul_le_mul_right _ few
      _ < (Fintype.card υ + 1) * (Fintype.card υ + 1) ^ left :=
        Nat.mul_lt_mul_of_pos_right (lt_succ_self _) (Nat.pos_of_ne_zero (pow_ne_zero _ (succ_ne_zero _)))
      _ = cost message := by rw [cost,is,pow_succ']

variable {system : System υ σ π}

lemma deliver_total {state next : State υ σ π} {index : Nat} (moved : deliver system state index = some next) :
    total next.flight < total state.flight := by
  obtain ⟨message,rest,order,_,flight,_⟩ := deliver_cases moved
  have before : total state.flight = cost message + total rest := (order.map cost).sum_eq
  have after : total next.flight = total rest + total (forward system message.dst (receive system state message) message) := by
    rw [flight,total,map_append,List.sum_append]
    rfl
  have less := forward_total system message.dst (receive system state message) message
  omega

variable {order : List Nat} {start final : State υ σ π}

lemma run_length (ran : order.foldlM (deliver system) start = some final) : order.length + total final.flight ≤ total start.flight := by
  induction order generalizing start with
  | nil =>
    cases ran
    simp
  | cons index order ih =>
    rw [foldlM_cons] at ran
    obtain ⟨middle,moved,rest⟩ := bind_eq_some_iff.mp ran
    have later := ih rest
    have less := deliver_total moved
    rw [length_cons]
    omega

lemma length_le_total (messages : List (Message υ π)) : messages.length ≤ total messages := by
  induction messages with
  | nil => exact Nat.le_refl _
  | cons message messages ih =>
    have one : 0 < cost message := Nat.pos_of_ne_zero (pow_ne_zero _ (succ_ne_zero _))
    have parts : total (message :: messages) = cost message + total messages := rfl
    rw [length_cons]
    omega

lemma run_sent (fair : start.sent.length = start.flight.length)
    (ran : order.foldlM (deliver system) start = some final) : final.sent.length ≤ total start.flight := by
  have counts : final.sent.length + start.flight.length = start.sent.length + final.flight.length + order.length := by
    clear fair
    induction order generalizing start with
    | nil =>
      cases ran
      rfl
    | cons index order ih =>
      rw [foldlM_cons] at ran
      obtain ⟨middle,moved,rest⟩ := bind_eq_some_iff.mp ran
      have later := ih rest
      have now := deliver_counts moved
      rw [length_cons]
      omega
  have bounded := run_length ran
  have few := length_le_total final.flight
  omega

lemma run_finishes (system : System υ σ π) (start : State υ σ π) :
    ∃ final, Machine.Reached (deliver system) start final ∧ final.flight = [] := by
  induction size : total start.flight using Nat.strong_induction_on generalizing start with
  | _ bound ih =>
    cases waiting : start.flight with
    | nil => exact ⟨start,Machine.Reached.refl _ _,waiting⟩
    | cons message rest =>
      obtain ⟨next,moved⟩ : ∃ next, deliver system start 0 = some next := by
        rw [deliver,waiting]
        exact ⟨_,rfl⟩
      have less := deliver_total moved
      rw [size] at less
      obtain ⟨final,reached,quiet⟩ := ih _ less next rfl
      exact ⟨final,reached.head moved,quiet⟩

end Ending

section Coverage

variable {system : System υ σ π} {member : υ → Prop} {adjacent : υ → υ → Prop} {fits : π → Prop} {inv : υ → σ → Prop}
  {state next : State υ σ π}

-- Messages after which every node knows its neighbours, as long as every neighbour can be reached.
structure Settled (system : System υ σ π) (member : υ → Prop) (adjacent : υ → υ → Prop) (fits : π → Prop) (inv : υ → σ → Prop) : Prop where
  closed : ∀ node peer, adjacent node peer → member peer
  known : ∀ node data state, member node → fits data → inv node state →
    ∀ peer, peer ∈ system.peers node (system.apply node data state) ↔ adjacent node peer
  kept : ∀ node data state, member node → fits data → inv node state → inv node (system.apply node data state)
  reach : ∀ node peer, member node → adjacent node peer → peer ∈ system.channels node

def Told (messages : List (Message υ π)) (node : υ) : Prop := ∃ message ∈ messages, message.dst = node

variable {node : υ}

omit [DecidableEq υ] in
lemma Told.append (told : Told messages node) (more : List (Message υ π)) :
    Told (messages ++ more) node := by
  obtain ⟨message,member,is⟩ := told
  exact ⟨message,mem_append_left more member,is⟩

lemma reached_told {start : State υ σ π} (told : Told start.sent node) (reached : Machine.Reached (deliver system) start state) :
    Told state.sent node := by
  let holds : State υ σ π → Prop := fun state => Told state.sent node
  have kept : ∀ before index after, holds before → deliver system before index = some after → holds after := by
    intro before _ after told moved
    obtain ⟨_,_,_,_,_,sent,_⟩ := deliver_cases moved
    change Told after.sent node
    rw [sent]
    exact Told.append told _
  exact (Machine.reached_invariant (show holds start from told) kept reached : holds state)

structure Flooded (member : υ → Prop) (adjacent : υ → υ → Prop) (fits : π → Prop) (inv : υ → σ → Prop) (state : State υ σ π) : Prop where
  nodes : ∀ node, inv node (state.nodes node)
  fitting : ∀ message ∈ state.sent, member message.dst ∧ fits message.data
  parts : state.sent.Perm (state.received ++ state.flight)
  covered : ∀ message ∈ state.sent, ∀ node ∈ message.notified, Told state.sent node
  spread : ∀ message ∈ state.received, ∀ node, adjacent message.dst node → Told state.sent node

lemma deliver_flooded (settled : Settled system member adjacent fits inv) (flooded : Flooded member adjacent fits inv state) {index : Nat}
    (moved : deliver system state index = some next) : Flooded member adjacent fits inv next := by
  obtain ⟨message,rest,order,nodes,flight,sent,received⟩ := deliver_cases moved
  have waiting : message ∈ state.sent := by
    refine flooded.parts.mem_iff.mpr (mem_append_right _ ?_)
    exact order.mem_iff.mpr mem_cons_self
  obtain ⟨belongs,fitting⟩ := flooded.fitting message waiting
  have here := flooded.nodes message.dst
  have neighbours (peer : υ) : peer ∈ system.peers message.dst (receive system state message) ↔ adjacent message.dst peer :=
    settled.known _ _ _ belongs fitting here peer
  have reached (peer : υ) (next_ : adjacent message.dst peer) (unknown : peer ∉ message.notified) : Told next.sent peer := by
    refine ⟨⟨peer,message.notified ++ fresh system message.dst (receive system state message) message.notified,message.data⟩,?_,rfl⟩
    rw [sent]
    exact mem_append_right _ (mem_forward.mpr ⟨mem_fresh.mpr ⟨(neighbours peer).mpr next_,unknown⟩,settled.reach _ _ belongs next_,rfl,rfl⟩)
  have before {node : υ} (told : Told state.sent node) : Told next.sent node := by
    rw [sent]
    exact told.append _
  refine ⟨?_,?_,?_,?_,?_⟩
  · intro node
    rw [nodes]
    by_cases same : node = message.dst
    · subst same
      rw [update_self]
      exact settled.kept _ _ _ belongs fitting here
    · rw [update_of_ne same]
      exact flooded.nodes node
  · intro other member
    rw [sent] at member
    rcases mem_append.mp member with old | new
    · exact flooded.fitting other old
    · obtain ⟨next_,_,_,same⟩ := mem_forward.mp new
      rw [same]
      exact ⟨settled.closed _ _ ((neighbours other.dst).mp (mem_fresh.mp next_).1),fitting⟩
  · rw [sent,received,flight,append_assoc,← append_assoc [message]]
    refine (flooded.parts.append_right _).trans ?_
    rw [append_assoc]
    exact (order.append_right _).append_left _
  · intro other member node told
    rw [sent] at member
    rcases mem_append.mp member with old | new
    · exact before (flooded.covered other old node told)
    · rw [(mem_forward.mp new).2.2.1] at told
      rcases mem_append.mp told with earlier | now
      · exact before (flooded.covered message waiting node earlier)
      · obtain ⟨peer,unknown⟩ := mem_fresh.mp now
        exact reached node ((neighbours node).mp peer) unknown
  · intro other member node next_
    rw [received] at member
    rcases mem_append.mp member with old | new
    · exact before (flooded.spread other old node next_)
    · rw [mem_singleton.mp new] at next_
      by_cases known : node ∈ message.notified
      · exact before (flooded.covered message waiting node known)
      · exact reached node next_ known

lemma reached_flooded (settled : Settled system member adjacent fits inv) (base : Flooded member adjacent fits inv start)
    (reached : Machine.Reached (deliver system) start state) : Flooded member adjacent fits inv state :=
  Machine.reached_invariant base (fun _ _ _ holds moved => deliver_flooded settled holds moved) reached

omit [DecidableEq υ] in
lemma quiet_received (flooded : Flooded member adjacent fits inv state) (quiet : state.flight = [])
    (start : ∀ peer, adjacent origin peer → Told state.sent peer) (joined : Relation.ReflTransGen adjacent origin node) (other : node ≠ origin) :
    Told state.received node := by
  have all : state.sent.Perm state.received := by
    have parts := flooded.parts
    rwa [quiet,append_nil] at parts
  have arrived {peer : υ} (told : Told state.sent peer) : Told state.received peer := by
    obtain ⟨message,member,is⟩ := told
    exact ⟨message,all.mem_iff.mp member,is⟩
  have either : node = origin ∨ Told state.received node := by
    induction joined with
    | refl => exact .inl rfl
    | @tail near far _ last ih =>
      by_cases same : near = origin
      · subst same
        exact .inr (arrived (start far last))
      · rcases ih same with equal | told
        · exact absurd equal same
        · obtain ⟨message,member,rfl⟩ := told
          exact .inr (arrived (flooded.spread message member far last))
  rcases either with same | told
  · exact absurd same other
  · exact told

end Coverage

section Silence

variable {system : System υ σ π} {state next : State υ σ π} {node : υ}

-- A node that every message counts as told receives no further ones.
structure Silent (node : υ) (known : σ) (state : State υ σ π) : Prop where
  same : state.nodes node = known
  told : ∀ message ∈ state.flight, node ∈ message.notified
  passed : ∀ message ∈ state.flight, message.dst ≠ node

variable {message : Message υ π} {known : σ}

lemma forward_told (told : node ∈ message.notified)
    (forwarded : other ∈ forward system origin after message) : node ∈ other.notified ∧ other.dst ≠ node := by
  obtain ⟨next_,_,notified,_⟩ := mem_forward.mp forwarded
  refine ⟨by rw [notified]; exact mem_append_left _ told,?_⟩
  intro same
  rw [same] at next_
  exact (mem_fresh.mp next_).2 told

lemma deliver_silent (silent : Silent node known state) {index : Nat} (moved : deliver system state index = some next) :
    Silent node known next := by
  obtain ⟨message,rest,order,nodes,flight,_,_⟩ := deliver_cases moved
  have here : message ∈ state.flight := order.mem_iff.mpr mem_cons_self
  have old {other : Message υ π} (member : other ∈ rest) : other ∈ state.flight := order.mem_iff.mpr (mem_cons_of_mem _ member)
  refine ⟨?_,?_,?_⟩
  · rw [nodes,update_of_ne (silent.passed message here).symm]
    exact silent.same
  · intro other member
    rw [flight] at member
    rcases mem_append.mp member with before | new
    · exact silent.told other (old before)
    · exact (forward_told (silent.told message here) new).1
  · intro other member
    rw [flight] at member
    rcases mem_append.mp member with before | new
    · exact silent.passed other (old before)
    · exact (forward_told (silent.told message here) new).2

lemma reached_silent (base : Silent node known start) (reached : Machine.Reached (deliver system) start state) :
    Silent node known state :=
  Machine.reached_invariant base (fun _ _ _ holds moved => deliver_silent holds moved) reached

def addressed (node : υ) (messages : List (Message υ π)) : List (Message υ π) := messages.filter fun message => message.dst = node

def Awaits (system : System υ σ π) (message : Message υ π) (known : σ) (state : State υ σ π) : Prop :=
  (state.nodes message.dst = known ∧ (∀ other ∈ state.flight, message.dst ∈ other.notified) ∧ addressed message.dst state.flight = [message]) ∨
  Silent message.dst (system.apply message.dst message.data known) state

lemma deliver_awaits (awaits : Awaits system message known state) {index : Nat}
    (moved : deliver system state index = some next) : Awaits system message known next := by
  rcases awaits with ⟨same,told,waiting⟩ | silent
  · obtain ⟨arrived,left,taken,nodes,flight,_,_⟩ := deliver_cases moved
    have here : arrived ∈ state.flight := taken.mem_iff.mpr mem_cons_self
    have toldNext : ∀ other ∈ next.flight, message.dst ∈ other.notified := by
      intro other member
      rw [flight] at member
      rcases mem_append.mp member with before | new
      · exact told other (taken.mem_iff.mpr (mem_cons_of_mem _ before))
      · exact (forward_told (told arrived here) new).1
    have nothing : addressed message.dst (forward system arrived.dst (receive system state arrived) arrived) = [] := by
      refine filter_eq_nil_iff.mpr ?_
      intro other new hit
      exact (forward_told (told arrived here) new).2 (of_decide_eq_true hit)
    have remaining : addressed message.dst next.flight = addressed message.dst left := by
      rw [flight,addressed,filter_append]
      exact (congrArg _ nothing).trans (append_nil _)
    have parts : (addressed message.dst (arrived :: left)).Perm [message] := by
      rw [← waiting]
      exact (taken.filter _).symm
    by_cases hit : arrived.dst = message.dst
    · have split_ : addressed message.dst (arrived :: left) = arrived :: addressed message.dst left := by simp [addressed,hit]
      rw [split_,List.perm_singleton,List.cons.injEq] at parts
      obtain ⟨rfl,none_⟩ := parts
      refine .inr ⟨?_,toldNext,?_⟩
      · rw [nodes,update_self,receive,same]
      · intro other member aimed
        have among : other ∈ addressed arrived.dst next.flight := mem_filter.mpr ⟨member,decide_eq_true aimed⟩
        rw [remaining,none_] at among
        cases among
    · have skip : addressed message.dst (arrived :: left) = addressed message.dst left := by simp [addressed,hit]
      rw [skip,List.perm_singleton] at parts
      refine .inl ⟨?_,toldNext,remaining.trans parts⟩
      rw [nodes,update_of_ne (Ne.symm hit)]
      exact same
  · exact .inr (deliver_silent silent moved)

lemma reached_awaits (base : Awaits system message known start)
    (reached : Machine.Reached (deliver system) start state) : Awaits system message known state :=
  Machine.reached_invariant base (fun _ _ _ holds moved => deliver_awaits holds moved) reached

lemma quiet_arrived (awaits : Awaits system message known state) (quiet : state.flight = []) :
    state.nodes message.dst = system.apply message.dst message.data known := by
  rcases awaits with ⟨_,_,waiting⟩ | silent
  · rw [quiet] at waiting
    cases waiting
  · exact silent.same

end Silence

end MedvedDB.Flooding
