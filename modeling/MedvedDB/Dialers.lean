import MedvedDB.Chaman

namespace MedvedDB.Chaman

open Machine

inductive Failure where
  | dialerInsert | connect | retryConnect | connectionError | noEvent | handshake | acceptHandshake | rearm | selection | creation | insertion | recvTask
  deriving DecidableEq, Repr

def harmful : Failure → Bool
  | .retryConnect | .noEvent | .rearm | .selection | .creation | .insertion => true
  | _ => false

def missed (worked : Bool) (failure : Failure) : List Failure := if worked then [] else [failure]

section Flight

variable {α φ υ : Type}

def failures : Action α φ υ → List Failure
  | .dial _ _ _ stored => missed stored .dialerInsert
  | .connect _ sock => missed sock.isSome .connect
  | .timer visits => missed (visits.all (·.sock.isSome)) .retryConnect
  | .dialer _ .err => [.connectionError]
  | .dialer _ (.out greeted) => missed greeted .handshake
  | .dialer _ .neither => [.noEvent]
  | .accept _ _ greeted => missed greeted .acceptHandshake
  | .select _ (.again rearmed) => missed rearmed .rearm
  | .select _ .failed => [.selection]
  | .select _ (.ok _ _ created inserted) => missed created .creation ++ missed inserted .insertion
  | .register _ added => missed added .recvTask
  | .recv _ => []

def Place.attempts : Place α υ → Option α
  | .dialing addr _ | .selecting addr _ => some addr
  | _ => none

def Connecting (state : State α φ υ) (addr : α) : Prop := ∃ dialer, state.dialers addr = some dialer ∧ dialer.state = .connecting

def InFlight (state : State α φ υ) (addr : α) : Prop := ∃ sock, (state.places sock).attempts = some addr

-- No call of mdv_chaman_dial and no handler is running.
def Quiet (state : State α φ υ) : Prop := (∀ addr, state.calls addr = none) ∧ ∀ sock addr uuid, state.places sock ≠ .registering addr uuid

def Covered (state : State α φ υ) (addr : α) : Prop := (state.calls addr).isSome ∨ InFlight state addr

def Covering (state : State α φ υ) : Prop := ∀ addr, Connecting state addr → Covered state addr

variable {state next : State α φ υ}

lemma Covered.setPlace [DecidableEq φ] {place : Place α υ} (covered : Covered state addr)
    (kept : (state.places sock).attempts = some addr → place.attempts = some addr) : Covered (setPlace state sock place) addr := by
  refine covered.imp id ?_
  rintro ⟨other,is⟩
  by_cases same : other = sock
  · subst same
    exact ⟨other,by rw [setPlace_same]; exact kept is⟩
  · exact ⟨other,by rwa [setPlace_other same]⟩

lemma Covering.setPlace [DecidableEq φ] (covering : Covering state) (sock : φ) {place : Place α υ}
    (kept : ∀ addr, (state.places sock).attempts = some addr → place.attempts = some addr ∨ ¬Connecting state addr) : Covering (setPlace state sock place) := by
  intro addr connecting
  exact (covering addr connecting).setPlace fun is => (kept addr is).resolve_right (not_not.mpr connecting)

lemma connecting_putDialer [DecidableEq α] {new : Option (Dialer υ)} (connecting : Connecting (putDialer state addr new) other) :
    (other = addr ∧ ∃ dialer, new = some dialer ∧ dialer.state = .connecting) ∨ (other ≠ addr ∧ Connecting state other) := by
  obtain ⟨dialer,found,is⟩ := connecting
  by_cases same : other = addr
  · rw [same,putDialer_same] at found
    exact .inl ⟨same,dialer,found,is⟩
  · rw [putDialer_other same] at found
    exact .inr ⟨same,dialer,found,is⟩

lemma settled [DecidableEq α] (state : State α φ υ) (addr : α) {change : Dialer υ → Dialer υ} (stops : ∀ dialer, (change dialer).state ≠ .connecting) :
    ¬Connecting (setDialer state addr change) addr := by
  intro connecting
  rcases connecting_putDialer connecting with ⟨_,dialer,is,connecting⟩ | ⟨apart,_⟩
  · obtain ⟨before,_,rfl⟩ := map_eq_some_iff.mp is
    exact stops before connecting
  · exact apart rfl

lemma Covering.setDialer [DecidableEq α] (covering : Covering state) (addr : α) {change : Dialer υ → Dialer υ} (stops : ∀ dialer, (change dialer).state ≠ .connecting) :
    Covering (setDialer state addr change) := by
  intro other connecting
  by_cases same : other = addr
  · exact absurd (same ▸ connecting) (settled state addr stops)
  · rcases connecting_putDialer connecting with ⟨equal,_⟩ | ⟨_,before⟩
    · exact absurd equal same
    · exact covering other before

lemma Covering.settle [DecidableEq α] [DecidableEq φ] (covering : Covering state) (sock : φ) {change : Dialer υ → Dialer υ} (place : Place α υ)
    (stops : ∀ dialer, (change dialer).state ≠ .connecting) (here : ∀ other, (state.places sock).attempts = some other → other = addr) :
    Covering (Chaman.setPlace (Chaman.setDialer state addr change) sock place) :=
  (covering.setDialer addr stops).setPlace sock fun _ is => .inr (here _ is ▸ settled state addr stops)

lemma connect_covering [DecidableEq φ] (covering : ∀ other ≠ addr, Connecting state other → Covered state other) (went : connect state addr type sock = some next) :
    Covering next := by
  unfold connect at went
  split at went <;> cases went
  rename_i free
  intro other connecting
  by_cases same : other = addr
  · exact .inr ⟨sock,by rw [setPlace_same,same]; rfl⟩
  · refine (covering other same connecting).setPlace ?_
    rw [free]
    exact nofun

lemma visit_covering [DecidableEq α] [DecidableEq φ] (covering : Covering state) (connects : seen.sock.isSome) (went : visit interval state seen = some next) :
    Covering next := by
  unfold visit at went
  split at went
  · cases went
  · split at went
    · dsimp only at went
      split at went
      · rename_i missing
        rw [missing] at connects
        cases connects
      · refine connect_covering (fun other apart connecting => ?_) went
        rcases connecting_putDialer connecting with ⟨equal,_⟩ | ⟨_,before⟩
        · exact absurd equal apart
        · exact covering other before
    · cases went
      exact covering

lemma visits_covering [DecidableEq α] [DecidableEq φ] (visits : List (Visit α φ)) (covering : Covering state) (connects : ∀ seen ∈ visits, seen.sock.isSome)
    (went : visits.foldlM (visit interval) state = some next) : Covering next := by
  induction visits generalizing state with
  | nil =>
    cases went
    exact covering
  | cons seen rest ih =>
    rw [foldlM_cons] at went
    obtain ⟨middle,first,went⟩ := bind_eq_some_iff.mp went
    exact ih (visit_covering covering (connects seen mem_cons_self) first) (fun other member => connects other (mem_cons_of_mem _ member)) went

variable [DecidableEq α] [DecidableEq φ] [DecidableEq υ]

lemma drop_covering (covering : Covering state) (found : (state.places sock).attempts = none) (addr : α) (uuid : υ) : Covering (drop state sock addr uuid) := by
  have erased : Covering {state with channels:=update state.channels uuid none} := covering
  exact erased.settle sock .free nofun (by rw [found]; exact nofun)

lemma newConnection_covering (covering : Covering state) (found : state.places sock = .selecting addr dir) (type : UInt8) (uuid : υ) :
    Covering (newConnection state sock addr type dir uuid true true) := by
  have here : ∀ other, (state.places sock).attempts = some other → other = addr := by
    rw [found]
    exact fun other is => (Option.some.inj is).symm
  unfold newConnection
  dsimp only
  split
  · exact covering.settle sock .free nofun here
  · have added : Covering {state with channels:=update state.channels uuid (some ⟨sock,type,dir⟩)} := covering
    exact added.settle sock _ nofun here

lemma step_covering {allowed : Failure → Bool} (harmless : ∀ failure, harmful failure = true → allowed failure = false) (covering : Covering state)
    (moved : only (fun _ action => (failures action).all allowed) (step interval) state action = some next) : Covering next := by
  obtain ⟨accepted,moved⟩ := only_some moved
  have refused (failure : Failure) (member : failure ∈ failures action) : harmful failure = false := by
    by_contra harms
    rw [not_eq_false] at harms
    exact absurd (all_eq_true.mp accepted failure member) (by simp [harmless failure harms])
  cases action with
  | dial addr type time stored =>
    simp only [step] at moved
    split at moved <;> cases moved
    · exact covering
    · intro other connecting
      rcases connecting_putDialer connecting with ⟨rfl,_⟩ | ⟨apart,before⟩
      · exact .inl (by simp)
      · exact (covering other before).imp_left fun calls => by simpa [apart] using calls
  | connect addr sock =>
    simp only [step] at moved
    obtain ⟨type,_,went⟩ := bind_eq_some_iff.mp moved
    have ended (other : α) (apart : other ≠ addr) (connecting : Connecting state other) :
        Covered {state with calls:=update state.calls addr none} other :=
      (covering other connecting).imp_left fun calls => by simpa [apart] using calls
    cases sock with
    | some sock => exact connect_covering ended went
    | none =>
      cases went
      intro other connecting
      rcases connecting_putDialer connecting with ⟨_,_,is,_⟩ | ⟨apart,before⟩
      · cases is
      · exact ended other apart before
  | timer visits =>
    have all : ∀ seen ∈ visits, seen.sock.isSome := by
      by_contra some_
      have missing : visits.all (·.sock.isSome) = false := by simpa using some_
      exact absurd (refused .retryConnect (by simp [failures,missed,missing])) (by decide)
    exact visits_covering visits covering all moved
  | dialer sock events =>
    simp only [step] at moved
    split at moved <;> cases moved
    · rename_i found
      exact covering.setPlace sock fun addr is => .inl (by rwa [found] at is)
    · exact absurd (refused .noEvent mem_cons_self) (by decide)
    · rename_i found _ _
      exact covering.settle sock .free (by rintro _ ⟨⟩) (by rw [found]; exact fun other is => (Option.some.inj is).symm)
  | accept sock addr greeted =>
    simp only [step] at moved
    split at moved <;> cases moved
    split
    · rename_i free _
      exact covering.setPlace sock (by rw [free]; rintro _ ⟨⟩)
    · exact covering
  | select sock answer =>
    cases answer with
    | again rearmed =>
      cases rearmed with
      | false => exact absurd (refused .rearm mem_cons_self) (by decide)
      | true =>
        cases found : state.places sock <;> simp only [step,found] at moved <;> cases moved
        exact covering
    | failed => exact absurd (refused .selection mem_cons_self) (by decide)
    | ok type uuid created inserted =>
      have creates := refused .creation
      have inserts := refused .insertion
      cases created <;> cases inserted <;> simp [failures,missed,harmful] at creates inserts
      cases found : state.places sock <;> simp only [step,found] at moved <;> cases moved
      exact newConnection_covering covering found type uuid
  | register sock added =>
    simp only [step] at moved
    split at moved <;> cases moved
    rename_i found
    split
    · exact covering.setPlace sock (by rw [found]; rintro _ ⟨⟩)
    · exact drop_covering covering (by rw [found]; rfl) _ _
  | recv sock =>
    simp only [step] at moved
    split at moved <;> cases moved
    rename_i found
    exact drop_covering covering (by rw [found]; rfl) _ _

end Flight

section Stuck

variable {α υ : Type} [DecidableEq α] [DecidableEq υ] [Inhabited α] [Inhabited υ]

def stuck (interval : Nat) (failure : Failure) : List (Action α Nat υ) :=
  [.dial default 0 0 true,.connect default (some 0)] ++
    match failure with
    | .retryConnect =>
      [.dialer 0 (.out true),.select 0 (.ok 0 default true true),.register 0 true,.recv 0,.timer [⟨default,interval + 1,none⟩]]
    | .noEvent => [.dialer 0 .neither]
    | .rearm => [.dialer 0 (.out true),.select 0 (.again false)]
    | .creation => [.dialer 0 (.out true),.select 0 (.ok 0 default false true)]
    | .insertion => [.dialer 0 (.out true),.select 0 (.ok 0 default true false)]
    | _ => [.dialer 0 (.out true),.select 0 .failed]

lemma stuck_run (interval : Nat) {allowed : Failure → Bool} {failure : Failure} (harms : harmful failure = true) (admitted : allowed failure = true) :
    ∃ final : State α Nat υ,
      (stuck interval failure).foldlM (only (fun _ action => (failures action).all allowed) (step interval)) (start α Nat υ) = some final ∧
        final.calls = (fun _ => none) ∧ (∀ sock, final.places sock = .free ∨ final.places sock = .lost) ∧ Connecting final default := by
  cases failure <;> cases harms <;>
    simp [stuck,only,failures,missed,admitted,step,start,setPlace,putDialer,setDialer,dialerState,connect,newConnection,drop,visit,Connecting]
  intro sock
  by_cases zero : sock = 0
  · simp [zero]
  · simp [zero]

end Stuck

end MedvedDB.Chaman
