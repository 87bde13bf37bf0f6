import MedvedDB.Dispatcher

namespace MedvedDB.Connection

open Dispatcher
open Threads (gathered gathered_perm mem_gathered mem_of_first)

variable {κ : Type}

-- Each message has a tag of its own, and a reply has the tag of the message that it
-- answers. The dispatchers see neither.
structure Body (κ : Type) where
  content : κ
  tag : Nat
  answers : Option Nat
  deriving DecidableEq, Repr

abbrev Side (κ : Type) := Threads.Pool (State (Body κ)) (Thread (Body κ))

structure Pair (κ : Type) where
  side : Bool → Side κ
  tags : Nat

inductive Action (κ : Type) where
  | send (which : Bool) (content : κ)
  | post (which : Bool) (content : κ)
  | reply (which : Bool) (index : Nat) (content : κ)
  | done (which : Bool) (index : Nat)
  | deliver (which : Bool)
  | proceed (which : Bool) (index : Nat) (outcome : Outcome)

def placed (which : Bool) (own other : Side κ) (either : Bool) : Side κ := if either = which then own else other

def act (pair : Pair κ) (which : Bool) (other : Side κ) (tags : Nat) (action : Threads.Action (Call (Body κ)) Outcome) : Option (Pair κ) :=
  (Threads.step (system (Body κ)) (pair.side which) action).map fun own => ⟨placed which own other,tags⟩

def withSent (side : Side κ) (sent : List (Msg (Body κ))) : Side κ := {side with shared:={side.shared with sent:=sent}}

-- The connection keeps the order of the messages.
def step (pair : Pair κ) : Action κ → Option (Pair κ)
  | .send which content => act pair which (pair.side !which) (pair.tags + 1) (.enter (.send ⟨content,pair.tags,none⟩))
  | .post which content => act pair which (pair.side !which) (pair.tags + 1) (.enter (.post ⟨content,pair.tags,none⟩))
  | .reply which index content =>
    match (pair.side which).shared.handled[index]? with
    | none => none
    | some msg => act pair which (pair.side !which) (pair.tags + 1) (.enter (.reply ⟨msg.number,content,pair.tags,some msg.body.tag⟩))
  | .done which index => act pair which (pair.side !which) pair.tags (.enter (.done index))
  | .deliver which =>
    match (pair.side !which).shared.sent with
    | [] => none
    | msg::rest => act pair which (withSent (pair.side !which) rest) pair.tags (.enter (.read msg true))
  | .proceed which index outcome => act pair which (pair.side !which) pair.tags (.proceed index outcome)

def start (κ : Type) : Pair κ := ⟨fun _ => Dispatcher.start (Body κ),0⟩

def numberOf : Thread (Body κ) → UInt16
  | .numbered request => request.number
  | .pending entry _ _ => entry.number
  | .posting msg => msg.number

def bears (side : Side κ) (number : UInt16) : Bool :=
  side.threads.any (fun thread => numberOf thread = number) || side.shared.sent.any (fun msg => msg.number = number) ||
    side.shared.handled.any fun msg => msg.number = number

def unused (pair : Pair κ) (number : UInt16) : Bool := !bears (pair.side false) number && !bears (pair.side true) number

-- A send or a post takes a number that nothing else has at that time.
def distinct (pair : Pair κ) : Action κ → Bool
  | .send which _ => unused pair (pair.side which).shared.id
  | .post which _ => unused pair (pair.side which).shared.id
  | _ => true

def asks : Thread (Body κ) → Option (Bool × Msg (Body κ))
  | .numbered request => some (false,request)
  | .pending entry body _ => some (true,⟨entry.number,body⟩)
  | .posting _ => none

def Asks (side : Side κ) (registered : Bool) (request : Msg (Body κ)) : Prop := ∃ thread ∈ side.threads, asks thread = some (registered,request)

def askedNumber (thread : Thread (Body κ)) : Option UInt16 := (asks thread).map fun asked => asked.2.number

def numbers (side : Side κ) : Multiset UInt16 := gathered askedNumber side.threads

def Outgoing (side : Side κ) (msg : Msg (Body κ)) : Prop := msg ∈ side.shared.sent ∨ .posting msg ∈ side.threads

-- Whatever has the number of a request of `own` is the request or a reply to it.
structure Matched (own other : Side κ) (registered : Bool) (request : Msg (Body κ)) : Prop where
  asked : ∀ msg, Outgoing own msg ∨ msg ∈ other.shared.handled → msg.number = request.number → registered = true ∧ msg.body.tag = request.body.tag
  answered : ∀ msg, Outgoing other msg → msg.number = request.number → registered = true ∧ msg.body.answers = some request.body.tag
  unhandled : ∀ msg ∈ own.shared.handled, msg.number ≠ request.number
  ready : ∀ held ∈ own.shared.requests, held.entry.number = request.number → ∀ msg, held.resp = some msg → msg.body.answers = some request.body.tag

structure Paired (own other : Side κ) : Prop where
  sound : Sound own
  matched : ∀ registered request, Asks own registered request → Matched own other registered request
  returned : ∀ request msg, (request,.ok msg) ∈ own.shared.returned → msg.body.answers = some request.body.tag

structure Grows (own next : Side κ) (out handled ready : Msg (Body κ) → Prop) : Prop where
  outgoing : ∀ msg, Outgoing next msg → Outgoing own msg ∨ out msg
  handled : ∀ msg ∈ next.shared.handled, msg ∈ own.shared.handled ∨ handled msg
  ready : ∀ held ∈ next.shared.requests, ∀ msg, held.resp = some msg →
    (∃ old ∈ own.shared.requests, old.entry.number = held.entry.number ∧ old.resp = some msg) ∨ ready msg ∧ held.entry.number = msg.number

def Nothing (_ : Msg (Body κ)) : Prop := False

section Matching

variable {own next other left : Side κ} {out handled ready : Msg (Body κ) → Prop} {registered : Bool} {request : Msg (Body κ)}

lemma Matched.advance (matched : Matched own other registered request) (grows : Grows own next out handled ready) (shrinks : Grows other left Nothing Nothing Nothing)
    (news : ∀ msg : Msg (Body κ), msg.number = request.number →
      (out msg → registered = true ∧ msg.body.tag = request.body.tag) ∧ ¬ handled msg ∧ (ready msg → msg.body.answers = some request.body.tag)) :
    Matched next left registered request := by
  refine ⟨?_,?_,?_,?_⟩
  · intro msg place same
    rcases place with going | there
    · rcases grows.outgoing msg going with old | new
      · exact matched.asked msg (.inl old) same
      · exact (news msg same).1 new
    · exact matched.asked msg (.inr ((shrinks.handled msg there).resolve_right id)) same
  · intro msg going same
    exact matched.answered msg ((shrinks.outgoing msg going).resolve_right id) same
  · intro msg here same
    rcases grows.handled msg here with old | new
    · exact matched.unhandled msg old same
    · exact (news msg same).2.1 new
  · intro held member same msg is
    rcases grows.ready held member msg is with ⟨old,among,number,was⟩ | ⟨new,number⟩
    · exact matched.ready old among (number.trans same) msg was
    · exact (news msg (number.symm.trans same)).2.2 new

lemma Matched.watch (matched : Matched other own registered request) (grows : Grows own next out handled ready) (shrinks : Grows other left Nothing Nothing Nothing)
    (news : ∀ msg : Msg (Body κ), msg.number = request.number →
      (out msg → registered = true ∧ msg.body.answers = some request.body.tag) ∧ (handled msg → registered = true ∧ msg.body.tag = request.body.tag)) :
    Matched left next registered request := by
  refine ⟨?_,?_,?_,?_⟩
  · intro msg place same
    rcases place with going | there
    · exact matched.asked msg (.inl ((shrinks.outgoing msg going).resolve_right id)) same
    · rcases grows.handled msg there with old | new
      · exact matched.asked msg (.inr old) same
      · exact (news msg same).2 new
  · intro msg going same
    rcases grows.outgoing msg going with old | new
    · exact matched.answered msg old same
    · exact (news msg same).1 new
  · intro msg here same
    exact matched.unhandled msg ((shrinks.handled msg here).resolve_right id) same
  · intro held member same msg is
    obtain ⟨old,among,number,was⟩ := (shrinks.ready held member msg is).resolve_right fun new => new.1
    exact matched.ready old among (number.trans same) msg was

lemma Matched.registers (matched : Matched own other false request) : Matched own other true request := by
  refine ⟨?_,?_,matched.unhandled,matched.ready⟩
  · intro msg place same
    cases (matched.asked msg place same).1
  · intro msg going same
    cases (matched.answered msg going same).1

end Matching

lemma Grows.refl (side : Side κ) : Grows side side Nothing Nothing Nothing :=
  ⟨fun _ => .inl,fun _ => .inl,fun held member _ is => .inl ⟨held,member,rfl,is⟩⟩

lemma withSent_shrinks (sent : side.shared.sent = msg::rest) :
    Grows side (withSent side rest) Nothing Nothing Nothing := by
  refine ⟨?_,fun _ => .inl,fun held member _ is => .inl ⟨held,member,rfl,is⟩⟩
  intro other going
  rcases going with inside | posted
  · refine .inl (.inl ?_)
    rw [sent]
    exact mem_cons_of_mem msg inside
  · exact .inl (.inr posted)

structure Joined (own other : Side κ) : Prop where
  here : Paired own other
  there : Paired other own
  alone : (numbers own + numbers other).Nodup

lemma Joined.symm (joined : Joined own other) : Joined other own :=
  ⟨joined.there,joined.here,add_comm (numbers own) (numbers other) ▸ joined.alone⟩

section Joining

variable {own next other left : Side κ} {out handled ready : Msg (Body κ) → Prop}

lemma Joined.step (joined : Joined own other) (sound : Sound next) (grows : Grows own next out handled ready)
    (shrinks : Grows other left Nothing Nothing Nothing) (beside : left.threads = other.threads ∧ left.shared.returned = other.shared.returned ∧ Sound left)
    (asking : ∀ registered request, Asks next registered request → Matched own other registered request ∧ ∀ msg : Msg (Body κ), msg.number = request.number →
      (out msg → registered = true ∧ msg.body.tag = request.body.tag) ∧ ¬ handled msg ∧ (ready msg → msg.body.answers = some request.body.tag))
    (watching : ∀ registered request, Asks other registered request → ∀ msg : Msg (Body κ), msg.number = request.number →
      (out msg → registered = true ∧ msg.body.answers = some request.body.tag) ∧ (handled msg → registered = true ∧ msg.body.tag = request.body.tag))
    (alone : (numbers next + numbers other).Nodup)
    (returned : ∀ request msg, (request,.ok msg) ∈ next.shared.returned → (request,.ok msg) ∈ own.shared.returned ∨ msg.body.answers = some request.body.tag) :
    Joined next left := by
  obtain ⟨threads,history,soundLeft⟩ := beside
  refine ⟨⟨sound,?_,?_⟩,⟨soundLeft,?_,?_⟩,?_⟩
  · intro registered request asks
    obtain ⟨matched,news⟩ := asking registered request asks
    exact matched.advance grows shrinks news
  · intro request msg member
    rcases returned request msg member with old | right
    · exact joined.here.returned request msg old
    · exact right
  · intro registered request asks
    have asked : Asks other registered request := by rwa [Asks,threads] at asks
    exact (joined.there.matched registered request asked).watch grows shrinks (watching registered request asked)
  · intro request msg member
    rw [history] at member
    exact joined.there.returned request msg member
  · rwa [numbers,numbers,threads]

end Joining

section Numbers

variable {own next other : Side κ} {thread : Thread (Body κ)} {after : Option (Thread (Body κ))} {others : List (Thread (Body κ))} {number : UInt16}
  {registered : Bool} {request : Msg (Body κ)}

lemma numberOf_asks (is : asks thread = some (registered,request)) : numberOf thread = request.number := by
  cases thread <;> cases is <;> rfl

lemma askedNumber_of_asks (is : asks thread = some (registered,request)) : askedNumber thread = some request.number := by
  rw [askedNumber,is]
  rfl

lemma Asks.among (asked : Asks own registered request) : request.number ∈ numbers own := by
  obtain ⟨thread,member,is⟩ := asked
  exact mem_gathered.mpr ⟨thread,member,askedNumber_of_asks is⟩

lemma asks_append (threads : next.threads.Perm (after.toList ++ others)) (asked : Asks next registered request) :
    after.bind asks = some (registered,request) ∨ ∃ thread ∈ others, asks thread = some (registered,request) := by
  obtain ⟨thread,member,is⟩ := asked
  rcases mem_append.mp (threads.mem_iff.mp member) with new | old
  · rw [mem_toList.mp new]
    exact .inl is
  · exact .inr ⟨thread,old,is⟩

lemma numbers_append (threads : next.threads.Perm (after.toList ++ others)) :
    numbers next = Multiset.ofList (after.bind askedNumber).toList + gathered askedNumber others := by
  rw [numbers,gathered_perm threads,Threads.gathered_append]

lemma Joined.single (joined : Joined own other) (before : own.threads.Perm (thread::others)) (is : askedNumber thread = some number) :
    number ∉ gathered askedNumber others ∧ number ∉ numbers other := by
  have alone := joined.alone
  rw [numbers,gathered_perm before,Threads.gathered_cons,is] at alone
  rw [add_assoc] at alone
  have whole : ({number} + (gathered askedNumber others + numbers other)).Nodup := alone
  rw [Multiset.singleton_add] at whole
  have apart := (Multiset.nodup_cons.mp whole).1
  exact ⟨fun member => apart (Multiset.mem_add.mpr (.inl member)),fun member => apart (Multiset.mem_add.mpr (.inr member))⟩

lemma Joined.isPending (joined : Joined own other) (asked : Asks own true request) : Dispatcher.isPending own.shared request.number = true := by
  obtain ⟨thread,member,is⟩ := asked
  cases thread with
  | pending entry body stage =>
    cases is
    exact joined.here.sound.isPending member
  | _ => cases is

structure Free (side : Side κ) (number : UInt16) : Prop where
  threads : ∀ thread ∈ side.threads, numberOf thread ≠ number
  sent : ∀ msg ∈ side.shared.sent, msg.number ≠ number
  handled : ∀ msg ∈ side.shared.handled, msg.number ≠ number

lemma free_of_bears (unborne : bears own number = false) : Free own number := by
  simp only [bears,Bool.or_eq_false_iff,any_eq_false,decide_eq_true_eq] at unborne
  exact ⟨unborne.1.1,unborne.1.2,unborne.2⟩

lemma Free.numbers (free : Free own number) : number ∉ numbers own := by
  intro member
  obtain ⟨thread,among,is⟩ := mem_gathered.mp member
  cases asked : asks thread with
  | none =>
    rw [askedNumber,asked] at is
    cases is
  | some pair =>
    rw [askedNumber_of_asks asked] at is
    exact free.threads thread among ((numberOf_asks asked).trans (Option.some.inj is))

lemma Free.unasked (free : Free own number) (asked : Asks own registered request) : number ≠ request.number := by
  intro same
  subst same
  exact free.numbers asked.among

lemma Free.outgoing (free : Free own number) (msg : Msg (Body κ)) (going : Outgoing own msg) : msg.number ≠ number := by
  rcases going with inside | posted
  · exact free.sent msg inside
  · exact free.threads _ posted

lemma Free.matched (sound : Sound own) (here : Free own request.number) (there : Free other request.number) (registered : Bool) :
    Matched own other registered request := by
  refine ⟨?_,?_,here.handled,?_⟩
  · intro msg place same
    rcases place with going | inside
    · cases here.outgoing msg going same
    · cases there.handled msg inside same
  · intro msg going same
    cases there.outgoing msg going same
  · intro held member same
    obtain ⟨body,stage,among⟩ := sound.sender member
    cases here.threads _ among same

end Numbers

section Calls

variable {own next other left : Side κ} {number : UInt16} {body : Body κ} {msg : Msg (Body κ)}

lemma posted_append (threads : next.threads.Perm (thread.toList ++ others))
    (posted : .posting msg ∈ next.threads) : thread = some (.posting msg) ∨ .posting msg ∈ others := by
  rcases mem_append.mp (threads.mem_iff.mp posted) with new | old
  · exact .inl (mem_toList.mp new)
  · exact .inr old

lemma grows_out {out : Msg (Body κ) → Prop} (sent : ∀ msg ∈ next.shared.sent, Outgoing own msg ∨ out msg)
    (posted : ∀ msg, .posting msg ∈ next.threads → .posting msg ∈ own.threads ∨ out msg) (handled : next.shared.handled ⊆ own.shared.handled)
    (requests : ∀ held ∈ next.shared.requests, held ∈ own.shared.requests ∨ held.resp = none) : Grows own next out Nothing Nothing := by
  refine ⟨?_,fun msg member => .inl (handled member),?_⟩
  · intro msg going
    rcases going with inside | waits
    · exact sent msg inside
    · exact (posted msg waits).imp_left .inr
  · intro held member msg is
    rcases requests held member with old | empty
    · exact .inl ⟨held,old,rfl,is⟩
    · rw [empty] at is
      cases is

structure Still (state later : State (Body κ)) : Prop where
  sent : later.sent = state.sent
  handled : later.handled = state.handled
  requests : later.requests = state.requests
  returned : later.returned = state.returned

lemma Still.grows {out : Msg (Body κ) → Prop} (still : Still own.shared next.shared)
    (posted : ∀ msg, .posting msg ∈ next.threads → .posting msg ∈ own.threads ∨ out msg) : Grows own next out Nothing Nothing := by
  refine grows_out ?_ posted ?_ ?_
  · intro msg inside
    exact .inl (.inl (still.sent ▸ inside))
  · rw [still.handled]
    exact List.Subset.refl _
  · intro held member
    exact .inl (still.requests ▸ member)

lemma send_joined (joined : Joined own other) (sound : Sound next) (here : Free own number) (there : Free other number)
    (still : Still own.shared next.shared) (threads : next.threads.Perm ((some (Thread.numbered ⟨number,body⟩)).toList ++ own.threads)) : Joined next other := by
  have grows : Grows own next Nothing Nothing Nothing := by
    refine still.grows ?_
    intro msg waits
    exact .inl ((posted_append threads waits).resolve_left nofun)
  refine joined.step sound grows (Grows.refl other) ⟨rfl,rfl,joined.there.sound⟩ ?_ ?_ ?_ ?_
  · intro registered request asked
    refine ⟨?_,fun _ _ => ⟨nofun,id,nofun⟩⟩
    rcases asks_append threads asked with new | old
    · cases new
      exact Free.matched joined.here.sound here there false
    · exact joined.here.matched registered request old
  · exact fun _ _ _ _ _ => ⟨nofun,nofun⟩
  · rw [numbers_append threads]
    refine Multiset.nodup_cons.mpr ⟨?_,joined.alone⟩
    intro member
    rcases Multiset.mem_add.mp member with among | among
    · exact here.numbers among
    · exact there.numbers among
  · exact fun _ _ member => .inl (still.returned ▸ member)

lemma posting_joined (joined : Joined own other) (sound : Sound next) (still : Still own.shared next.shared)
    (threads : next.threads.Perm ((some (Thread.posting msg)).toList ++ own.threads))
    (unasked : ∀ registered request, Asks own registered request → msg.number ≠ request.number)
    (answers : ∀ registered request, Asks other registered request → msg.number = request.number → registered = true ∧ msg.body.answers = some request.body.tag) :
    Joined next other := by
  have grows : Grows own next (fun new => new = msg) Nothing Nothing := by
    refine still.grows ?_
    intro new waits
    rcases posted_append threads waits with is | old
    · cases is
      exact .inr rfl
    · exact .inl old
  refine joined.step sound grows (Grows.refl other) ⟨rfl,rfl,joined.there.sound⟩ ?_ ?_ ?_ ?_
  · intro registered request asked
    have old : Asks own registered request := (asks_append threads asked).resolve_left nofun
    refine ⟨joined.here.matched registered request old,?_⟩
    intro new same
    refine ⟨?_,id,nofun⟩
    intro is
    subst is
    cases unasked registered request old same
  · intro registered request asked new same
    refine ⟨?_,nofun⟩
    intro is
    subst is
    exact answers registered request asked same
  · rw [numbers_append threads]
    exact (zero_add (numbers own)).symm ▸ joined.alone
  · exact fun _ _ member => .inl (still.returned ▸ member)

lemma asks_perm (threads : next.threads.Perm own.threads) (asked : Asks next registered request) :
    Asks own registered request := by
  obtain ⟨thread,member,is⟩ := asked
  exact ⟨thread,threads.mem_iff.mp member,is⟩

lemma done_joined (joined : Joined own other) (sound : Sound next)
    (shared : {own.shared with handled:=own.shared.handled.eraseIdx index} = next.shared) (threads : next.threads.Perm own.threads) : Joined next other := by
  have grows : Grows own next Nothing Nothing Nothing := by
    refine grows_out ?_ (fun _ waits => .inl (threads.mem_iff.mp waits)) ?_ ?_ <;> rw [← shared]
    · exact fun _ inside => .inl (.inl inside)
    · exact List.eraseIdx_subset
    · exact fun _ => .inl
  refine joined.step sound grows (Grows.refl other) ⟨rfl,rfl,joined.there.sound⟩ ?_ ?_ ?_ ?_
  · intro registered request asked
    exact ⟨joined.here.matched registered request (asks_perm threads asked),fun _ _ => ⟨nofun,id,nofun⟩⟩
  · exact fun _ _ _ _ _ => ⟨nofun,nofun⟩
  · rw [numbers,gathered_perm threads]
    exact joined.alone
  · rw [← shared]
    exact fun _ _ => .inl

lemma outgoing_perm (sent : next.shared.sent = own.shared.sent) (threads : next.threads.Perm own.threads)
    (going : Outgoing next new) : Outgoing own new :=
  going.imp (sent ▸ ·) threads.mem_iff.mp

lemma answered_grows (shared : {own.shared with requests:=own.shared.requests.map (answer msg)} = next.shared) (threads : next.threads.Perm own.threads) :
    Grows own next Nothing Nothing (fun new => new = msg) := by
  refine ⟨fun new going => .inl (outgoing_perm (by rw [← shared]) threads going),?_,?_⟩
  · rw [← shared]
    exact fun _ => .inl
  · intro held member new is
    rw [← shared] at member
    obtain ⟨old,among,rfl⟩ := mem_map.mp member
    unfold answer at is ⊢
    split at is <;> rename_i same
    · rw [if_pos same]
      cases is
      exact .inr ⟨rfl,same⟩
    · rw [if_neg same]
      exact .inl ⟨old,among,rfl,is⟩

lemma handled_grows (shared : {own.shared with handled:=own.shared.handled ++ [msg]} = next.shared) (threads : next.threads.Perm own.threads) :
    Grows own next Nothing (fun new => new = msg) Nothing := by
  refine ⟨fun new going => .inl (outgoing_perm (by rw [← shared]) threads going),?_,?_⟩
  · intro new member
    rw [← shared] at member
    exact (mem_append.mp member).imp_right mem_singleton.mp
  · intro held member new is
    rw [← shared] at member
    exact .inl ⟨held,member,rfl,is⟩

section Reading

variable {rest : List (Msg (Body κ))} (joined : Joined own other) (sound : Sound next) (sent : other.shared.sent = msg::rest)
  (threads : next.threads.Perm own.threads)

include joined sound sent threads

lemma incoming_joined {handled ready : Msg (Body κ) → Prop} (grows : Grows own next Nothing handled ready) (returned : next.shared.returned = own.shared.returned)
    (asking : ∀ registered request, Asks own registered request → ∀ msg : Msg (Body κ), msg.number = request.number →
      ¬ handled msg ∧ (ready msg → msg.body.answers = some request.body.tag))
    (watching : ∀ registered request, Asks other registered request → ∀ msg : Msg (Body κ), msg.number = request.number →
      handled msg → registered = true ∧ msg.body.tag = request.body.tag) : Joined next (withSent other rest) := by
  refine joined.step sound grows (withSent_shrinks sent) ⟨rfl,rfl,joined.there.sound.slots,joined.there.sound.held⟩ ?_ ?_ ?_ ?_
  · intro registered request asked
    have old := asks_perm threads asked
    exact ⟨joined.here.matched registered request old,fun new same => ⟨nofun,asking registered request old new same⟩⟩
  · exact fun registered request asked new same => ⟨nofun,watching registered request asked new same⟩
  · rw [numbers,gathered_perm threads]
    exact joined.alone
  · rw [returned]
    exact fun _ _ => .inl

lemma read_joined (shared : Dispatcher.read own.shared msg true = next.shared) : Joined next (withSent other rest) := by
  have going : Outgoing other msg := by
    refine .inl ?_
    rw [sent]
    exact mem_cons_self
  cases found : isPending own.shared msg.number with
  | true =>
    rw [read_answered found] at shared
    refine incoming_joined joined sound sent threads (answered_grows shared threads) (by rw [← shared]) ?_ (fun _ _ _ _ _ => nofun)
    intro registered request asked new same
    refine ⟨id,?_⟩
    intro is
    subst is
    exact ((joined.here.matched registered request asked).answered new going same).2
  | false =>
    rw [read_handled found] at shared
    refine incoming_joined joined sound sent threads (handled_grows shared threads) (by rw [← shared]) ?_ ?_
    · intro registered request asked new same
      refine ⟨?_,nofun⟩
      intro is
      subst is
      obtain ⟨rfl,_⟩ := (joined.here.matched registered request asked).answered new going same
      have pending := joined.isPending asked
      rw [← same,found] at pending
      cases pending
    · intro registered request asked new same is
      subst is
      exact (joined.there.matched registered request asked).asked new (.inl going) same

end Reading

end Calls

section Progress

variable {own next other : Side κ} {thread : Thread (Body κ)} {after : Option (Thread (Body κ))} {others : List (Thread (Body κ))} {outcome : Outcome}

structure Advance (own next other : Side κ) (thread : Thread (Body κ)) (after : Option (Thread (Body κ))) (out : Msg (Body κ) → Prop) : Prop where
  grows : Grows own next out Nothing Nothing
  keeps : after.bind askedNumber = none ∨ after.bind askedNumber = askedNumber thread
  matched : ∀ registered request, after.bind asks = some (registered,request) → Matched own other registered request
  writes : ∀ msg, out msg → after.bind asks = some (true,msg)
  returned : ∀ request msg, (request,.ok msg) ∈ next.shared.returned → (request,.ok msg) ∈ own.shared.returned ∨ msg.body.answers = some request.body.tag

lemma asked_of_after (is : after.bind asks = some (registered,request)) :
    after.bind askedNumber = some request.number := by
  cases after with
  | none => cases is
  | some thread => exact askedNumber_of_asks is

lemma Advance.joined {out : Msg (Body κ) → Prop} (advance : Advance own next other thread after out) (joined : Joined own other) (sound : Sound next)
    (before : own.threads.Perm (thread::others)) (threads : next.threads.Perm (after.toList ++ others)) : Joined next other := by
  have single {msg : Msg (Body κ)} (new : out msg) : msg.number ∉ gathered askedNumber others ∧ msg.number ∉ numbers other := by
    have stays := asked_of_after (advance.writes msg new)
    rcases advance.keeps with gone | same
    · rw [gone] at stays
      cases stays
    · exact joined.single before (same.symm.trans stays)
  refine joined.step sound advance.grows (Grows.refl other) ⟨rfl,rfl,joined.there.sound⟩ ?_ ?_ ?_ advance.returned
  · intro registered request asked
    rcases asks_append threads asked with is | ⟨someone,among,is⟩
    · refine ⟨advance.matched registered request is,?_⟩
      intro msg _
      refine ⟨?_,id,nofun⟩
      intro new
      cases (advance.writes msg new).symm.trans is
      exact ⟨rfl,rfl⟩
    · refine ⟨joined.here.matched registered request ⟨someone,Threads.mem_of_rest before among,is⟩,?_⟩
      intro msg same
      refine ⟨?_,id,nofun⟩
      intro new
      cases (single new).1 (same ▸ mem_gathered.mpr ⟨someone,among,askedNumber_of_asks is⟩)
  · intro registered request asked msg same
    refine ⟨?_,nofun⟩
    intro new
    cases (single new).2 (same ▸ asked.among)
  · have fewer : numbers next ≤ numbers own := by
      rw [numbers_append threads,numbers,gathered_perm before,Threads.gathered_cons]
      rcases advance.keeps with gone | same
      · rw [gone]
        exact add_le_add_left zero_le _
      · rw [same]
    exact Multiset.nodup_of_le (add_le_add_left fewer _) joined.alone

lemma mem_erase (member : held ∈ erase number requests) : held ∈ requests :=
  List.mem_of_mem_filter member

lemma error_returned {history : List (Msg (Body κ) × Except Dispatcher.Errno (Msg (Body κ)))} {request : Msg (Body κ)} {result : Except Dispatcher.Errno (Msg (Body κ))}
    (right : ∀ msg, result = .ok msg → msg.body.answers = some request.body.tag) (asked msg : Msg (Body κ)) (member : (asked,.ok msg) ∈ history ++ [(request,result)]) :
    (asked,.ok msg) ∈ history ∨ msg.body.answers = some asked.body.tag := by
  rcases mem_append.mp member with old | new
  · exact .inl old
  · obtain ⟨rfl,is⟩ := Prod.mk.inj (mem_singleton.mp new)
    exact .inr (right msg is.symm)

lemma posted_rest (before : own.threads.Perm (thread::others)) (threads : next.threads.Perm (after.toList ++ others))
    (ends : ∀ new, after ≠ some (.posting new)) (posted : .posting msg ∈ next.threads) : .posting msg ∈ own.threads :=
  Threads.mem_of_rest before ((posted_append threads posted).resolve_left (ends msg))

lemma register_joined {request : Msg (Body κ)} {stored : Bool} (joined : Joined own other) (sound : Sound next)
    (before : own.threads.Perm (.numbered request::others)) (went : register own.shared request stored = (after,next.shared))
    (threads : next.threads.Perm (after.toList ++ others)) : Joined next other := by
  have matched : Matched own other false request := joined.here.matched false request ⟨_,mem_of_first before,rfl⟩
  unfold register at went
  cases cvs : own.shared.cvs with
  | nil =>
    simp only [cvs] at went
    obtain ⟨rfl,shared⟩ := Prod.mk.inj went
    have still : Still own.shared next.shared := by
      rw [← shared]
      exact ⟨rfl,rfl,rfl,rfl⟩
    have advance : Advance own next other (.numbered request) none Nothing := by
      refine ⟨still.grows ?_,.inl rfl,fun _ _ => nofun,fun _ => nofun,fun _ _ member => .inl (still.returned ▸ member)⟩
      exact fun _ posted => .inl (posted_rest before threads (fun _ => nofun) posted)
    exact advance.joined joined sound before threads
  | cons cv rest =>
    simp only [cvs] at went
    cases stored with
    | false =>
      obtain ⟨rfl,shared⟩ := Prod.mk.inj went
      have advance : Advance own next other (.numbered request) none Nothing := by
        refine ⟨grows_out ?_ (fun _ posted => .inl (posted_rest before threads (fun _ => nofun) posted)) ?_ ?_,.inl rfl,fun _ _ => nofun,fun _ => nofun,?_⟩ <;> rw [← shared]
        · exact fun _ inside => .inl (.inl inside)
        · exact List.Subset.refl _
        · exact fun _ member => .inl (mem_erase member)
        · exact error_returned fun _ => nofun
      exact advance.joined joined sound before threads
    | true =>
      obtain ⟨rfl,shared⟩ := Prod.mk.inj went
      have advance : Advance own next other (.numbered request) (some (.pending ⟨own.shared.allocated,cv,request.number⟩ request.body .writing)) Nothing := by
        refine ⟨grows_out ?_ (fun _ posted => .inl (posted_rest before threads (fun _ => nofun) posted)) ?_ ?_,.inr rfl,?_,fun _ => nofun,?_⟩
        · rw [← shared]
          exact fun _ inside => .inl (.inl inside)
        · rw [← shared]
          exact List.Subset.refl _
        · intro held member
          rw [← shared] at member
          rcases mem_cons.mp member with rfl | old
          · exact .inr rfl
          · exact .inl (mem_erase old)
        · intro registered asked is
          cases is
          exact matched.registers
        · rw [← shared]
          exact fun _ _ => .inl
      exact advance.joined joined sound before threads

lemma posting_written (joined : Joined own other) (sound : Sound next) (before : own.threads.Perm (.posting msg::others))
    (shared : (if outcome = .failure then own.shared else write own.shared msg) = next.shared) (threads : next.threads.Perm others) : Joined next other := by
  have ended : next.threads.Perm ((none : Option (Thread (Body κ))).toList ++ others) := threads
  have posted : ∀ new, .posting new ∈ next.threads → .posting new ∈ own.threads ∨ Nothing new :=
    fun _ posted => .inl (posted_rest before ended (fun _ => nofun) posted)
  have advance : Advance own next other (.posting msg) none Nothing := by
    split at shared
    · refine ⟨Still.grows ?_ posted,.inl rfl,fun _ _ => nofun,fun _ => nofun,?_⟩ <;> rw [← shared]
      · exact ⟨rfl,rfl,rfl,rfl⟩
      · exact fun _ _ => .inl
    · refine ⟨grows_out ?_ posted ?_ ?_,.inl rfl,fun _ _ => nofun,fun _ => nofun,?_⟩ <;> rw [← shared]
      · intro new inside
        rcases mem_append.mp inside with old | is
        · exact .inl (.inl old)
        · rw [mem_singleton.mp is]
          exact .inl (.inr (mem_of_first before))
      · exact List.Subset.refl _
      · exact fun _ => .inl
      · exact fun _ _ => .inl
  exact advance.joined joined sound before ended

lemma sendStep_joined {entry : Entry} {body : Body κ} {stage : Stage} (joined : Joined own other) (sound : Sound next)
    (before : own.threads.Perm (.pending entry body stage::others)) (went : sendStep own.shared entry body outcome stage = (after,next.shared))
    (threads : next.threads.Perm (after.toList ++ others)) : Joined next other := by
  have matched : Matched own other true ⟨entry.number,body⟩ := joined.here.matched true _ ⟨_,mem_of_first before,rfl⟩
  rcases sendStep_cases own.shared entry body outcome stage with ⟨later,is⟩ | is | ⟨result,is,right⟩ <;> obtain ⟨rfl,shared⟩ := Prod.mk.inj (is.symm.trans went)
  · have still : Still own.shared next.shared := by
      rw [← shared]
      exact ⟨rfl,rfl,rfl,rfl⟩
    have advance : Advance own next other (.pending entry body stage) (some (.pending entry body later)) Nothing := by
      refine ⟨still.grows ?_,.inr rfl,?_,fun _ => nofun,fun _ _ member => .inl (still.returned ▸ member)⟩
      · exact fun _ posted => .inl (posted_rest before threads (fun _ => nofun) posted)
      · intro registered request asked
        cases asked
        exact matched
    exact advance.joined joined sound before threads
  · have advance : Advance own next other (.pending entry body stage) (some (.pending entry body (.waiting none))) (fun msg => msg = ⟨entry.number,body⟩) := by
      refine ⟨grows_out ?_ (fun _ posted => .inl (posted_rest before threads (fun _ => nofun) posted)) ?_ ?_,.inr rfl,?_,?_,?_⟩
      · intro new inside
        rw [← shared] at inside
        exact (mem_append.mp inside).imp .inl mem_singleton.mp
      · rw [← shared]
        exact List.Subset.refl _
      · rw [← shared]
        exact fun _ => .inl
      · intro registered request asked
        cases asked
        exact matched
      · intro msg new
        rw [new]
        rfl
      · rw [← shared]
        exact fun _ _ => .inl
    exact advance.joined joined sound before threads
  · have advance : Advance own next other (.pending entry body stage) none Nothing := by
      refine ⟨grows_out ?_ (fun _ posted => .inl (posted_rest before threads (fun _ => nofun) posted)) ?_ ?_,.inl rfl,fun _ _ => nofun,fun _ => nofun,?_⟩ <;> rw [← shared]
      · exact fun _ inside => .inl (.inl inside)
      · exact List.Subset.refl _
      · exact fun _ member => .inl (mem_erase member)
      · refine error_returned ?_
        intro msg ok
        obtain ⟨held,found,resp⟩ := bind_eq_some_iff.mp (right msg ok)
        have is := find?_some found
        have same : held.entry = entry := of_decide_eq_true is
        exact matched.ready held (mem_of_find?_eq_some found) (congrArg Entry.number same) msg resp
    exact advance.joined joined sound before threads

end Progress

section Runs

variable {own next other : Side κ}

lemma numbered_free (joined : Joined own other)
    (before : own.threads.Perm (.numbered request::others)) : isPending own.shared request.number = false := by
  refine Bool.of_not_eq_true ?_
  intro found
  obtain ⟨held,member,is⟩ := any_eq_true.mp found
  obtain ⟨body,stage,among⟩ := joined.here.sound.sender member
  have elsewhere := (mem_cons.mp (before.mem_iff.mp among)).resolve_left nofun
  refine (joined.single before rfl).1 (mem_gathered.mpr ⟨_,elsewhere,?_⟩)
  exact congrArg some (of_decide_eq_true is)

lemma proceed_joined (joined : Joined own other)
    (moved : Threads.step (system (Body κ)) own (.proceed index outcome) = some next) : Joined next other := by
  rcases Threads.step_cases moved with ⟨call,thread,is,_⟩ | ⟨index,outcome,thread,after,others,is,found,before,went,threads⟩
  · cases is
  · have advanced := (proceed_some went).2
    cases is
    have sound : Sound next := by
      refine advance_sound joined.here.sound ?_ before advanced threads
      intro request is
      subst is
      exact numbered_free joined before
    cases thread with
    | numbered request => exact register_joined joined sound before advanced threads
    | pending entry body stage => exact sendStep_joined joined sound before advanced threads
    | posting msg =>
      obtain ⟨rfl,shared⟩ := Prod.mk.inj advanced
      exact posting_written joined sound before shared threads

lemma enter_cases (moved : Threads.step (system (Body κ)) own (.enter call) = some next) :
    next.shared = (begin own.shared call).2 ∧ next.threads.Perm ((begin own.shared call).1.toList ++ own.threads) := by
  rcases Threads.step_cases moved with ⟨call,thread,is,entered,threads⟩ | ⟨_,_,_,_,_,is,_⟩
  · cases is
    rw [(enter_some entered).2]
    exact ⟨rfl,threads⟩
  · cases is

lemma enter_sound (joined : Joined own other) (moved : Threads.step (system (Body κ)) own (.enter call) = some next)
    (signals : ∀ msg signalled, call = .read msg signalled → signalled = true) : Sound next := by
  refine step_sound joined.here.sound ?_ moved
  cases call with
  | read msg signalled =>
    cases signals msg signalled rfl
    rfl
  | _ => rfl

def Kept (pair : Pair κ) : Prop := ∀ which, Joined (pair.side which) (pair.side !which)

lemma kept_placed (joined : Joined own other) : Kept ⟨placed which own other,tags⟩ := by
  intro either
  by_cases same : either = which
  · subst same
    simpa [placed] using joined
  · have turned : (!either) = which := by cases either <;> cases which <;> simp_all
    simpa [placed,same,turned] using joined.symm

lemma start_kept : Kept (start κ) := by
  have paired : Paired (Dispatcher.start (Body κ)) (Dispatcher.start (Body κ)) := by
    refine ⟨start_sound,?_,fun _ _ => nofun⟩
    intro registered request asked
    obtain ⟨thread,member,_⟩ := asked
    cases member
  exact fun _ => ⟨paired,paired,Multiset.nodup_zero⟩

lemma free_of_unused (free : unused pair number = true) (which : Bool) : Free (pair.side which) number := by
  obtain ⟨one,two⟩ := and_eq_true_iff.mp free
  cases which with
  | false => exact free_of_bears ((not_eq_true' _).mp one)
  | true => exact free_of_bears ((not_eq_true' _).mp two)

lemma step_kept (kept : Kept pair) (moved : Machine.only distinct step pair action = some after) : Kept after := by
  obtain ⟨apart,moved⟩ := Machine.only_some moved
  cases action with
  | send which content =>
    obtain ⟨own,went,rfl⟩ := map_eq_some_iff.mp moved
    obtain ⟨shared,threads⟩ := enter_cases went
    refine kept_placed (send_joined (kept which) (enter_sound (kept which) went (fun _ _ => nofun)) (free_of_unused apart which) (free_of_unused apart _) ?_ threads)
    rw [shared]
    exact ⟨rfl,rfl,rfl,rfl⟩
  | post which content =>
    obtain ⟨own,went,rfl⟩ := map_eq_some_iff.mp moved
    obtain ⟨shared,threads⟩ := enter_cases went
    refine kept_placed (posting_joined (kept which) (enter_sound (kept which) went (fun _ _ => nofun)) ?_ threads ?_ ?_)
    · rw [shared]
      exact ⟨rfl,rfl,rfl,rfl⟩
    · exact fun _ _ asked => (free_of_unused apart which).unasked asked
    · intro registered request asked same
      cases (free_of_unused apart !which).unasked asked same
  | reply which index content =>
    unfold step at moved
    cases found : (pair.side which).shared.handled[index]? with
    | none =>
      simp only [found] at moved
      cases moved
    | some msg =>
      simp only [found] at moved
      obtain ⟨own,went,rfl⟩ := map_eq_some_iff.mp moved
      obtain ⟨shared,threads⟩ := enter_cases went
      have handled := mem_of_getElem? found
      refine kept_placed (posting_joined (kept which) (enter_sound (kept which) went (fun _ _ => nofun)) ?_ threads ?_ ?_)
      · rw [shared]
        exact ⟨rfl,rfl,rfl,rfl⟩
      · intro registered request asked
        exact ((kept which).here.matched registered request asked).unhandled msg handled
      · intro registered request asked same
        obtain ⟨sent,tag⟩ := ((kept which).there.matched registered request asked).asked msg (.inr handled) same
        exact ⟨sent,congrArg some tag⟩
  | done which index =>
    obtain ⟨own,went,rfl⟩ := map_eq_some_iff.mp moved
    obtain ⟨shared,threads⟩ := enter_cases went
    exact kept_placed (done_joined (kept which) (enter_sound (kept which) went (fun _ _ => nofun)) shared.symm threads)
  | deliver which =>
    unfold step at moved
    cases sent : (pair.side !which).shared.sent with
    | nil =>
      simp only [sent] at moved
      cases moved
    | cons msg rest =>
      simp only [sent] at moved
      obtain ⟨own,went,rfl⟩ := map_eq_some_iff.mp moved
      obtain ⟨shared,threads⟩ := enter_cases went
      refine kept_placed (read_joined (kept which) (enter_sound (kept which) went ?_) sent threads shared.symm)
      intro other signalled is
      cases is
      rfl
  | proceed which index outcome =>
    obtain ⟨own,went,rfl⟩ := map_eq_some_iff.mp moved
    exact kept_placed (proceed_joined (kept which) went)

end Runs

theorem responses_match {pair : Pair κ} (reached : Machine.Reached (Machine.only distinct step) (start κ) pair) (which : Bool) (request resp : Msg (Body κ))
    (returned : (request,.ok resp) ∈ (pair.side which).shared.returned) : resp.body.answers = some request.body.tag := by
  have kept : Kept pair := Machine.reached_invariant start_kept (fun _ _ _ holds moved => step_kept holds moved) reached
  exact (kept which).here.returned request resp returned

def exchange : List (Action Nat) :=
  [.send false 1,.proceed false 0 .success,.proceed false 0 .success,.deliver true,.reply true 0 2,.proceed true 0 .success,.done true 0,.deliver false,
    .proceed false 0 .success,.proceed false 0 .success,.send true 3,.proceed true 0 .success,.proceed true 0 .success,.deliver false,.reply false 0 4,
    .proceed false 0 .success,.deliver true,.proceed true 0 .success,.proceed true 0 .success]

theorem exchange_matches :
    ∃ (pair : Pair Nat) (request resp : Msg (Body Nat)), Machine.Reached (Machine.only distinct step) (start Nat) pair ∧
      (request,.ok resp) ∈ (pair.side false).shared.returned ∧ resp.body.answers = some request.body.tag :=
  ⟨_,⟨0,1,0,none⟩,⟨0,2,1,some 0⟩,⟨exchange,rfl⟩,mem_cons_self,responses_match ⟨exchange,rfl⟩ false _ _ mem_cons_self⟩

-- Both sides number from zero: a post of the other side is taken for the response.
def crossed : List (Action Nat) :=
  [.send false 1,.proceed false 0 .success,.proceed false 0 .success,.post true 2,.proceed true 0 .success,.deliver false,.proceed false 0 .success,
    .proceed false 0 .success]

theorem post_taken_for_response :
    ∃ pair, Machine.Reached step (start Nat) pair ∧ (pair.side false).shared.returned = [(⟨0,1,0,none⟩,.ok ⟨0,2,1,none⟩)] :=
  ⟨_,⟨crossed,rfl⟩,rfl⟩

end MedvedDB.Connection
