import MedvedDB.Basic
import MedvedDB.Flooding
import MedvedDB.SpanningTree

namespace MedvedDB.Broadcast

open Flooding SpanningTree

-- A tracker as its registered nodes and its links between uuids.
structure Node (υ : Type) where
  known : List υ
  links : List ((υ × υ) × UInt32)
  deriving DecidableEq, Repr

inductive Change (υ : Type) where
  | topodiff (nodes : List υ) (links : List ((υ × υ) × UInt32))
  | linkstate (src dst : υ) (connected : Bool)
  deriving DecidableEq, Repr

variable {υ : Type}

def between (link : (υ × υ) × UInt32) : Sym2 υ := s(link.1.1,link.1.2)

def linked (node : Node υ) : Set (Sym2 υ) := {pair | ∃ link ∈ node.links, between link = pair}

def Held (node : Node υ) (pair : Sym2 υ) (weight : UInt32) : Prop := ∃ link ∈ node.links, between link = pair ∧ link.2 = weight

lemma linked_iff : pair ∈ linked node ↔ ∃ weight, Held node pair weight := by
  constructor
  · intro found
    obtain ⟨link,member,is⟩ := found
    exact ⟨link.2,link,member,is,rfl⟩
  · intro found
    obtain ⟨_,link,member,is,_⟩ := found
    exact ⟨link,member,is⟩

section Handlers

variable [DecidableEq υ]

-- mdv_tracker_linkstate_add: a link replaces the one between the same nodes.
def linkstateAdd (node : Node υ) (one two : υ) (connected : Bool) (weight : UInt32) : Errno × Node υ :=
  if one ∈ node.known ∧ two ∈ node.known then
    let others := node.links.filter fun link => between link ≠ s(one,two)
    (.ok,{node with links:=if connected then others ++ [((one,two),weight)] else others})
  else (.failed,node)

def linkAll (node : Node υ) : List ((υ × υ) × UInt32) → Errno × Node υ
  | [] => (.ok,node)
  | ((one,two),weight)::rest =>
    match linkstateAdd node one two true weight with
    | (.ok,node) => linkAll node rest
    | (_,node) => (.failed,node)

-- mdv_tracker_topodiff_add: all nodes are registered before the links are added.
def topodiffAdd (node : Node υ) (nodes : List υ) (links : List ((υ × υ) × UInt32)) : Errno × Node υ :=
  linkAll {node with known:=node.known ++ nodes.filter (· ∉ node.known)} links

-- What mdv_tracker_evt_broadcast does to the tracker.
def take (node : Node υ) : Change υ → Node υ
  | .topodiff nodes links => (topodiffAdd node nodes links).2
  | .linkstate src dst connected => (linkstateAdd node src dst connected 1).2

def peers (links : List ((υ × υ) × UInt32)) (node : υ) : List υ :=
  (links.filterMap fun link => if node = link.1.1 then some link.1.2 else if node = link.1.2 then some link.1.1 else none).dedup

lemma mem_peers {links : List ((υ × υ) × UInt32)} {node peer : υ} :
    peer ∈ peers links node ↔ ∃ link ∈ links, between link = s(node,peer) := by
  rw [peers,List.mem_dedup,mem_filterMap]
  refine exists_congr fun link => and_congr_right fun _ => ?_
  rw [between,Sym2.eq_iff]
  split
  · rename_i left
    rw [some_inj]
    grind
  · split
    · rename_i right
      rw [some_inj]
      grind
    · grind

variable {connected : Bool} {node : Node υ} {weight : UInt32} {one two : υ}

lemma held_linkstateAdd (known : one ∈ node.known ∧ two ∈ node.known)
    (pair : Sym2 υ) (other : UInt32) : Held (linkstateAdd node one two connected weight).2 pair other ↔
      if pair = s(one,two) then connected = true ∧ weight = other else Held node pair other := by
  have kept : (∃ link ∈ node.links.filter (fun link => between link ≠ s(one,two)), between link = pair ∧ link.2 = other) ↔
      pair ≠ s(one,two) ∧ Held node pair other := by
    simp only [mem_filter,decide_eq_true_eq]
    constructor
    · intro found
      obtain ⟨link,⟨member,away⟩,rfl,rfl⟩ := found
      exact ⟨away,link,member,rfl,rfl⟩
    · intro found
      obtain ⟨away,link,member,rfl,rfl⟩ := found
      exact ⟨link,⟨member,away⟩,rfl,rfl⟩
  rw [linkstateAdd,if_pos known]
  cases connected with
  | true =>
    simp only [Held,if_true,mem_append,mem_singleton,or_and_right,exists_or,exists_eq_left]
    rw [kept,between]
    split
    · rename_i here
      simp [here]
    · rename_i away
      exact ⟨fun either => either.elim And.right fun new => absurd new.1.symm away,fun old => .inl ⟨away,old⟩⟩
  | false =>
    simp only [Held,false_eq_true,if_false,false_and]
    rw [kept]
    split
    · rename_i here
      simp [here]
    · rename_i away
      exact and_iff_right away

lemma linked_linkstateAdd (known : one ∈ node.known ∧ two ∈ node.known)
    (pair : Sym2 υ) : pair ∈ linked (linkstateAdd node one two connected weight).2 ↔
      if pair = s(one,two) then connected = true else pair ∈ linked node := by
  simp only [linked_iff,held_linkstateAdd known]
  split
  · simp
  · rfl

lemma linkstateAdd_unknown (unknown : ¬ (one ∈ node.known ∧ two ∈ node.known)) :
    linkstateAdd node one two connected weight = (.failed,node) := if_neg unknown

lemma linkstateAdd_known (node : Node υ) (one two : υ) (connected : Bool) (weight : UInt32) :
    (linkstateAdd node one two connected weight).2.known = node.known := by
  unfold linkstateAdd
  split <;> rfl

lemma linked_again (node : Node υ) (src dst : υ) (connected : Bool) :
    linked (take (take node (.linkstate src dst connected)) (.linkstate src dst connected)) =
      linked (take node (.linkstate src dst connected)) := by
  by_cases known : src ∈ node.known ∧ dst ∈ node.known
  · ext pair
    have still : src ∈ (linkstateAdd node src dst connected 1).2.known ∧ dst ∈ (linkstateAdd node src dst connected 1).2.known := by
      rw [linkstateAdd_known]
      exact known
    simp only [take,linked_linkstateAdd known,linked_linkstateAdd still]
    split <;> rfl
  · simp only [take,linkstateAdd_unknown known]

def network (channels : υ → List υ) : System υ (Node υ) (Change υ) where
  apply := fun _ change node => take node change
  peers := fun own node => peers node.links own
  channels := channels
  distinct := fun _ _ => List.nodup_dedup _

-- mdv_tracker_linkstate_broadcast: the same peers are told and noted as told.
def linkstateBroadcast (channels : υ → List υ) (nodes : υ → Node υ) (origin src dst : υ) (connected : Bool) : State υ (Node υ) (Change υ) :=
  let told := peers (nodes origin).links origin
  let posted := post (network channels) origin told told (.linkstate src dst connected)
  ⟨nodes,posted,posted,[]⟩

end Handlers

structure ConnectedLinks (υ : Type) where
  pairs : Set (Sym2 υ)
  connected : ∀ one two, (∃ pair ∈ pairs, one ∈ pair) → (∃ pair ∈ pairs, two ∈ pair) → Joined id pairs one two

def ConnectedLinks.node (links : ConnectedLinks υ) (uuid : υ) : Prop := ∃ pair ∈ links.pairs, uuid ∈ pair

def adjacent (links : ConnectedLinks υ) (one two : υ) : Prop := s(one,two) ∈ links.pairs

lemma walk_adjacent (joined : Joined id links.pairs one two) : Relation.ReflTransGen (adjacent links) one two := by
  induction joined with
  | refl => exact Relation.ReflTransGen.refl
  | tail _ last ih =>
    obtain ⟨pair,member,is⟩ := last
    rw [id] at is
    subst is
    exact ih.tail member

variable [DecidableEq υ]

-- Every node has the same links once it has taken the link state in, the origin has
-- done so already, and linked nodes have a channel.
structure Agreed (links : ConnectedLinks υ) (channels : υ → List υ) (nodes : υ → Node υ) (origin src dst : υ) (connected : Bool) : Prop where
  same : ∀ uuid, links.node uuid → linked (take (nodes uuid) (.linkstate src dst connected)) = links.pairs
  taken : links.node origin ∧ linked (nodes origin) = links.pairs
  reach : ∀ one two, s(one,two) ∈ links.pairs → two ∈ channels one

variable {links : ConnectedLinks υ} {channels : υ → List υ} {nodes : υ → Node υ} {origin src dst : υ} {connected : Bool}

def unsettled (links : ConnectedLinks υ) (src dst : υ) (connected : Bool) (uuid : υ) (node : Node υ) : Prop :=
  links.node uuid → linked (take node (.linkstate src dst connected)) = links.pairs

lemma mem_peers_linked {node : Node υ} (is : linked node = links.pairs) {own peer : υ} :
    peer ∈ peers node.links own ↔ adjacent links own peer := by
  rw [mem_peers,adjacent,← is]
  rfl

lemma agreed_settled (agreed : Agreed links channels nodes origin src dst connected) :
    Settled (network channels) links.node (adjacent links) (fun change => change = .linkstate src dst connected)
      (unsettled links src dst connected) := by
  refine ⟨?_,?_,?_,?_⟩
  · intro node peer next
    exact ⟨_,next,mem_mk_right node peer⟩
  · intro node change state belongs is holds peer
    subst is
    exact mem_peers_linked (holds belongs)
  · intro node change state belongs is holds _
    subst is
    exact (linked_again state src dst connected).trans (holds belongs)
  · intro node peer _ next
    exact agreed.reach node peer next

lemma agreed_start (agreed : Agreed links channels nodes origin src dst connected) :
    Flooded links.node (adjacent links) (fun change => change = .linkstate src dst connected) (unsettled links src dst connected)
      (linkstateBroadcast channels nodes origin src dst connected) ∧
    ∀ peer, adjacent links origin peer → Told (linkstateBroadcast channels nodes origin src dst connected).sent peer := by
  have posted {message : Message υ (Change υ)} : message ∈ (linkstateBroadcast channels nodes origin src dst connected).sent ↔
      adjacent links origin message.dst ∧ message.notified = peers (nodes origin).links origin ∧
        message.data = .linkstate src dst connected := by
    simp only [linkstateBroadcast,post,mem_map,mem_filter,decide_eq_true_eq,mem_peers_linked agreed.taken.2]
    constructor
    · intro found
      obtain ⟨peer,⟨next,_⟩,rfl⟩ := found
      exact ⟨next,rfl,rfl⟩
    · intro all
      exact ⟨message.dst,⟨all.1,agreed.reach _ _ all.1⟩,by rw [← all.2.1,← all.2.2]⟩
  have told (peer : υ) (next : adjacent links origin peer) : Told (linkstateBroadcast channels nodes origin src dst connected).sent peer :=
    ⟨⟨peer,peers (nodes origin).links origin,.linkstate src dst connected⟩,posted.mpr ⟨next,rfl,rfl⟩,rfl⟩
  refine ⟨⟨?_,?_,?_,?_,?_⟩,told⟩
  · intro node
    exact agreed.same node
  · intro message member
    obtain ⟨next,_,is⟩ := posted.mp member
    exact ⟨⟨_,next,mem_mk_right origin message.dst⟩,is⟩
  · exact List.Perm.refl _
  · intro message member node noted
    rw [(posted.mp member).2.1,mem_peers_linked agreed.taken.2] at noted
    exact told node noted
  · intro message member
    cases member

theorem broadcast_reaches_everyone [Fintype υ] (agreed : Agreed links channels nodes origin src dst connected) :
    (∃ bound, ∀ (order : List Nat) (final : State υ (Node υ) (Change υ)),
      order.foldlM (deliver (network channels)) (linkstateBroadcast channels nodes origin src dst connected) = some final →
        order.length ≤ bound ∧ final.sent.length ≤ bound) ∧
    ∀ state, Machine.Reached (deliver (network channels)) (linkstateBroadcast channels nodes origin src dst connected) state →
      (∀ message ∈ state.flight, ∀ other ∈ forward (network channels) message.dst (receive (network channels) state message) message,
        message.notified.toFinset ⊂ other.notified.toFinset) ∧
      (∀ message ∈ state.sent, ∀ uuid ∈ message.notified, Told state.sent uuid) ∧
      (state.flight = [] → ∀ uuid, links.node uuid → uuid ≠ origin → Told state.received uuid) := by
  obtain ⟨start,first⟩ := agreed_start agreed
  constructor
  · refine ⟨total (linkstateBroadcast channels nodes origin src dst connected).flight,?_⟩
    intro order final ran
    have bounded := run_length ran
    exact ⟨by omega,run_sent rfl ran⟩
  · intro state reached
    have flooded := reached_flooded (agreed_settled agreed) start reached
    refine ⟨fun _ _ _ forwarded => forward_larger forwarded,flooded.covered,?_⟩
    intro quiet uuid belongs other
    exact quiet_received flooded quiet (fun peer next => reached_told (first peer next) reached)
      (walk_adjacent (links.connected origin uuid agreed.taken.1 belongs)) other

-- Three nodes lose the link between the outer two: the origin has dropped it already.
def path : ConnectedLinks (Fin 3) where
  pairs := {s(0,1),s(1,2)}
  connected := by
    have toMiddle (uuid : Fin 3) : Joined id {s((0 : Fin 3),1),s(1,2)} uuid 1 := by
      match uuid with
      | 0 => exact joined_of_mem (.inl rfl) rfl
      | 1 => exact Relation.ReflTransGen.refl
      | 2 => exact joined_of_mem (.inr rfl) eq_swap
    intro one two _ _
    exact (toMiddle one).trans (toMiddle two).symm

def pathNodes (uuid : Fin 3) : Node (Fin 3) :=
  ⟨[0,1,2],if uuid = 0 then [((0,1),1),((1,2),1)] else [((0,1),1),((1,2),1),((0,2),1)]⟩

def pathChannels (uuid : Fin 3) : List (Fin 3) := if uuid = 1 then [0,2] else [1]

lemma path_links (is : node.links = [((0,1),1),((1,2),1)]) : linked node = path.pairs := by
  ext pair
  simp [linked,is,between,path,eq_comm]

lemma path_agreed : Agreed path pathChannels pathNodes 0 0 2 false := by
  have taken : ∀ uuid, (take (pathNodes uuid) (.linkstate 0 2 false)).links = [((0,1),1),((1,2),1)] := by decide
  have near : ∀ one two : Fin 3, s(one,two) = s(0,1) ∨ s(one,two) = s(1,2) → two ∈ pathChannels one := by decide
  refine ⟨fun uuid _ => path_links (taken uuid),⟨⟨s(0,1),.inl rfl,by simp⟩,path_links rfl⟩,near⟩

theorem path_reaches_everyone :
    (∃ bound, ∀ (order : List Nat) (final : State (Fin 3) (Node (Fin 3)) (Change (Fin 3))),
      order.foldlM (deliver (network pathChannels)) (linkstateBroadcast pathChannels pathNodes 0 0 2 false) = some final →
        order.length ≤ bound ∧ final.sent.length ≤ bound) ∧
    ∀ state, Machine.Reached (deliver (network pathChannels)) (linkstateBroadcast pathChannels pathNodes 0 0 2 false) state →
      (∀ message ∈ state.flight, ∀ other ∈ forward (network pathChannels) message.dst (receive (network pathChannels) state message) message,
        message.notified.toFinset ⊂ other.notified.toFinset) ∧
      (∀ message ∈ state.sent, ∀ uuid ∈ message.notified, Told state.sent uuid) ∧
      (state.flight = [] → ∀ uuid, path.node uuid → uuid ≠ 0 → Told state.received uuid) :=
  broadcast_reaches_everyone path_agreed

end MedvedDB.Broadcast
