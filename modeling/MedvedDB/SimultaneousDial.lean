import MedvedDB.Chaman

namespace MedvedDB.Chaman

open Machine

-- How far an end of a connection has come at its node. The last two are closed: as a
-- second connection with the other node, or because the other end was.
inductive End where
  | fresh | calling | dialing | selecting | registering | receiving | duplicate | eof
  deriving DecidableEq, Repr

instance : Fintype End := ⟨{.fresh,.calling,.dialing,.selecting,.registering,.receiving,.duplicate,.eof},by intro e; cases e <;> decide⟩

def End.registered : End → Bool
  | .registering | .receiving => true
  | _ => false

def End.closed : End → Bool
  | .duplicate | .eof => true
  | _ => false

-- A node has one connection that it has dialed itself (mine) and one from the other node.
def End.next (mine other : Bool) : End → Option End
  | .fresh => some (if mine then .calling else .selecting)
  | .calling => if mine then some .dialing else none
  | .dialing => if mine then some .selecting else none
  | .selecting => some (if other then .duplicate else .registering)
  | .registering => some .receiving
  | .receiving => some .eof
  | .duplicate | .eof => none

-- What the network needs of the far end: a connection is accepted once it was dialed,
-- selected once the greeting was sent, and ends once it was closed.
def ready (mine : Bool) (near far : End) : Bool :=
  match near with
  | .fresh => mine || !(far = .fresh || far = .calling)
  | .selecting => !(far = .fresh || far = .calling || far = .dialing)
  | .receiving => far.closed
  | _ => true

-- The other node is the only one: there is one uuid. Its address is true, and the one of
-- the connection it dials is false; so are the sockets.
def End.action (mine : Bool) : End → Action Bool Bool Unit
  | .fresh => if mine then .dial true 0 0 true else .accept false false true
  | .calling => .connect true (some true)
  | .dialing => .dialer true (.out true)
  | .selecting => .select mine (.ok 0 () true true)
  | .registering => .register mine true
  | _ => .recv mine

def dir (mine : Bool) : Dir := if mine then .chout else .chin

def End.place (mine : Bool) : End → Place Bool Unit
  | .dialing => .dialing true 0
  | .selecting => .selecting mine (dir mine)
  | .registering => .registering mine ()
  | .receiving => .receiving mine ()
  | _ => .free

def End.dialer : End → Option (Dialer Unit)
  | .fresh => none
  | .calling | .dialing | .selecting => some ⟨.connecting,0,none,0⟩
  | .registering | .receiving | .duplicate => some ⟨.connected,0,some (),0⟩
  | .eof => some ⟨.disconnected,0,some (),0⟩

def view (ends : Bool → End) : State Bool Bool Unit where
  dialers := fun addr => if addr then (ends true).dialer else none
  channels := fun _ => if (ends true).registered then some ⟨true,0,.chout⟩ else if (ends false).registered then some ⟨false,0,.chin⟩ else none
  calls := fun addr => if addr && ends true = .calling then some 0 else none
  places := fun mine => (ends mine).place mine

lemma same_state {one two : State Bool Bool Unit} (dialers : ∀ addr, one.dialers addr = two.dialers addr) (channels : one.channels () = two.channels ())
    (calls : ∀ addr, one.calls addr = two.calls addr) (places : ∀ mine, one.places mine = two.places mine) : some one = some two := by
  cases one
  cases two
  rw [some_inj,State.mk.injEq]
  exact ⟨funext dialers,funext fun _ => channels,funext calls,funext places⟩

lemma view_step (ends : Bool → End) (single : ¬((ends true).registered = true ∧ (ends false).registered = true))
    (moved : (ends mine).next mine (ends !mine).registered = some after) :
    step 0 (view ends) ((ends mine).action mine) = some (view (update ends mine after)) := by
  obtain ⟨own,inbound,rfl⟩ : ∃ own inbound, ends = fun mine => if mine then own else inbound := ⟨ends true,ends false,by funext mine; cases mine <;> rfl⟩
  cases mine <;> cases own <;> cases inbound <;> cases moved <;>
    first
    | exact absurd ⟨rfl,rfl⟩ single
    | exact same_state (by intro addr; cases addr <;> rfl) rfl (by intro addr; cases addr <;> rfl) (by intro mine; cases mine <;> rfl)

abbrev Net := Bool → Bool → End

def Net.start : Net := fun _ _ => .fresh

-- The end of the connection on the other node, where it is the other kind.
def advance (net : Net) : Bool × Bool → Option Net
  | (node,mine) =>
    if ready mine (net node mine) (net (!node) (!mine)) then
      ((net node mine).next mine (net node !mine).registered).map fun after => update net node (update (net node) mine after)
    else none

def Net.ofDialed (net : Net) (node dialed : Bool) : End := net node (node = dialed)

def Finished (net : Net) : Prop := ∀ action, advance net action = none

-- Both have the same one of the two connections registered, and open.
def OneLeft (net : Net) : Prop :=
  ∃ dialed, ∀ node, (view (net node)).channels () = some ⟨node = dialed,0,dir (node = dialed)⟩ ∧ (net.ofDialed node dialed).closed = false

-- Each of the nodes has closed what the other one kept.
def Crossed (net : Net) : Prop := ∃ node, net.ofDialed node true = .duplicate ∧ net.ofDialed (!node) false = .duplicate

-- What holds of the ends of a node, and of those of a connection.
def nodeOk (own inbound : End) : Bool :=
  (inbound ≠ .calling && inbound ≠ .dialing) && !(own.registered && inbound.registered) &&
    (own ≠ .duplicate || inbound.registered || inbound = .eof) && (inbound ≠ .duplicate || own.registered || own = .eof)

def connectionOk (near far : End) : Bool := !(near.closed || far.closed) || near = .duplicate || far = .duplicate

def Sound (net : Net) : Prop := ∀ node, nodeOk (net node true) (net node false) = true ∧ connectionOk (net node true) (net (!node) false) = true

lemma node_kept : ∀ own inbound after, nodeOk own inbound = true →
    (own.next true inbound.registered = some after → nodeOk after inbound = true) ∧ (inbound.next false own.registered = some after → nodeOk own after = true) := by
  decide

lemma connection_kept : ∀ near far other after, connectionOk near far = true →
    (ready true near far = true → near.next true other = some after → connectionOk after far = true) ∧
      (ready false far near = true → far.next false other = some after → connectionOk near after = true) := by
  decide

lemma connection_finished : ∀ near far one two, far ≠ .calling ∧ far ≠ .dialing → (ready true near far = true → near.next true one = none) →
    (ready false far near = true → far.next false two = none) → near = .receiving ∧ far = .receiving ∨ near.closed = true ∧ far.closed = true := by
  decide

lemma advance_some (moved : advance net (node,mine) = some next) : ready mine (net node mine) (net (!node) (!mine)) = true ∧
    ∃ after, (net node mine).next mine (net node !mine).registered = some after ∧ next = update net node (update (net node) mine after) := by
  simp only [advance] at moved
  split at moved
  · obtain ⟨after,went,rfl⟩ := map_eq_some_iff.mp moved
    exact ⟨‹_›,after,went,rfl⟩
  · cases moved

lemma advance_sound (sound : Sound net) (moved : advance net action = some next) : Sound next := by
  obtain ⟨node,mine⟩ := action
  obtain ⟨go,after,went,rfl⟩ := advance_some moved
  have here := node_kept _ _ after (sound node).1
  have near := connection_kept _ _ (net node !mine).registered after (sound node).2
  have far := connection_kept _ _ (net node !mine).registered after (sound !node).2
  intro other
  have same := sound other
  cases mine <;> cases node <;> cases other <;> simp_all

lemma advance_view (sound : Sound net) (moved : advance net (node,mine) = some next) (other : Bool) :
    Reached (step 0) (view (net other)) (view (next other)) := by
  obtain ⟨_,after,went,rfl⟩ := advance_some moved
  by_cases same : other = node
  · subst same
    have single := (sound other).1
    have stepped := view_step (net other) (by intro both; simp [nodeOk,both] at single) went
    rw [update_self]
    exact .head stepped (.refl _ _)
  · rw [update_of_ne same]
    exact .refl _ _

lemma finished_one_left_iff (sound : Sound net) (finished : Finished net) : OneLeft net ↔ ¬Crossed net := by
  have stays (node mine : Bool) (go : ready mine (net node mine) (net (!node) (!mine)) = true) :
      (net node mine).next mine (net node !mine).registered = none := by
    have ended := finished (node,mine)
    rw [advance,if_pos go] at ended
    exact Option.map_eq_none_iff.mp ended
  have ends (node : Bool) := connection_finished (net node true) (net (!node) false) (net node false).registered (net (!node) true).registered
    (by have := (sound !node).1; simp [nodeOk] at this; tauto) (stays node true) (by have := stays (!node) false; simpa using this)
  have shut (e : End) (closed : e.closed = true) : e = .duplicate ∨ e = .eof := by cases e <;> simp_all [End.closed]
  have first := (ends true).imp_right fun both => And.intro (shut _ both.1) (shut _ both.2)
  have second := (ends false).imp_right fun both => And.intro (shut _ both.1) (shut _ both.2)
  have one := sound true
  have two := sound false
  simp only [OneLeft,Crossed,Bool.exists_bool,Bool.forall_bool,Net.ofDialed,view]
  simp only [Bool.not_true,Bool.not_false] at *
  rcases first with ⟨a,b⟩ | ⟨a | a,b | b⟩ <;> rcases second with ⟨c,d⟩ | ⟨c | c,d | d⟩ <;>
    simp [a,b,c,d,nodeOk,connectionOk,End.registered,End.closed] at one two ⊢ <;> decide

def Traced (net : Net) : Prop := Sound net ∧ ∀ node, Reached (step 0) (start Bool Bool Unit) (view (net node))

def rank (mine : Bool) : End → Nat
  | .fresh => if mine then 6 else 4
  | .calling => 5
  | .dialing => 4
  | .selecting => 3
  | .registering => 2
  | .receiving => 1
  | .duplicate | .eof => 0

def Net.left (net : Net) : Nat := ∑ node, ∑ mine, rank mine (net node mine)

lemma next_less : ∀ near mine other after, near.next mine other = some after → rank mine after < rank mine near := by
  decide

lemma advance_left (moved : advance net action = some next) : next.left < net.left := by
  obtain ⟨node,mine⟩ := action
  obtain ⟨_,after,went,rfl⟩ := advance_some moved
  have less := next_less _ _ _ _ went
  cases node <;> cases mine <;> simpa [Net.left] using less

def dialing (node : Bool) : List (Bool × Bool) := replicate 3 (node,true) ++ [(!node,false)]

end MedvedDB.Chaman
