import MedvedDB.Binn

namespace MedvedDB.Framing

open Binn (unsigned unsignedBytes unsignedBytes_length unsigned_unsignedBytes)

inductive Errno where
  | ok | failed | noMem | eagain | closed
  deriving DecidableEq, Repr

-- MDV_MSG_SIZE_MAX and sizeof(mdv_msghdr).
def sizeMax : Nat := 100 * 1024 * 1024

def headerSize : Nat := 8

structure Header where
  id : UInt16
  number : UInt16
  size : UInt32
  deriving DecidableEq, Repr

structure Message where
  hdr : Header
  payload : List UInt8
  sized : payload.length = hdr.size.toNat
  deriving DecidableEq, Repr

def hton (count value : Nat) : List UInt8 := (unsignedBytes count value).reverse

def ntoh (bytes : List UInt8) : Nat := unsigned bytes.reverse

def hdrBytes (hdr : Header) : List UInt8 := hton 2 hdr.id.toNat ++ (hton 2 hdr.number.toNat ++ hton 4 hdr.size.toNat)

def hdrOfBytes (bytes : List UInt8) : Header :=
  ⟨UInt16.ofNat (ntoh (bytes.take 2)),UInt16.ofNat (ntoh ((bytes.drop 2).take 2)),UInt32.ofNat (ntoh ((bytes.drop 2).drop 2))⟩

lemma hton_length (count value : Nat) : (hton count value).length = count := by
  rw [hton,List.length_reverse,unsignedBytes_length]

lemma ntoh_hton (fits : value < 256 ^ count) : ntoh (hton count value) = value := by
  rw [ntoh,hton,List.reverse_reverse,unsigned_unsignedBytes fits]

lemma hdrBytes_length (hdr : Header) : (hdrBytes hdr).length = headerSize := by
  simp only [hdrBytes,length_append,hton_length,headerSize]

lemma hdrOfBytes_hdrBytes (hdr : Header) : hdrOfBytes (hdrBytes hdr) = hdr := by
  have id := hdr.id.toNat_lt
  have number := hdr.number.toNat_lt
  have size := hdr.size.toNat_lt
  simp only [hdrOfBytes,hdrBytes,take_left' (hton_length 2 _),drop_left' (hton_length 2 _)]
  rw [ntoh_hton (by omega),ntoh_hton (by omega),ntoh_hton (by omega),UInt16.ofNat_toNat,UInt16.ofNat_toNat,UInt32.ofNat_toNat]

def bytes (message : Message) : List UInt8 := hdrBytes message.hdr ++ message.payload

-- What one call of write() does: it takes `count + 1` bytes or all that it is given.
inductive Attempt where
  | again
  | wrote (count : Nat)
  | error
  deriving DecidableEq, Repr

-- There is no result while the attempts do not suffice.
def writeAll : List Attempt → List UInt8 → List UInt8 → Option (Errno × List UInt8 × List Attempt)
  | attempts,[],stream => some (.ok,stream,attempts)
  | [],_::_,_ => none
  | .again::rest,byte::data,stream => writeAll rest (byte::data) stream
  | .wrote count::rest,byte::data,stream => writeAll rest ((byte::data).drop (count + 1)) (stream ++ (byte::data).take (count + 1))
  | .error::rest,_::_,stream => some (.failed,stream,rest)

def writeMsg (attempts : List Attempt) (message : Message) (stream : List UInt8) : Option (Errno × List UInt8 × List Attempt) :=
  if sizeMax < message.hdr.size.toNat then some (.failed,stream,attempts)
  else
    match writeAll attempts (hdrBytes message.hdr) stream with
    | some (.ok,stream,rest) => writeAll rest message.payload stream
    | other => other

def writeMsgs : List Attempt → List Message → List UInt8 → Option (List UInt8)
  | _,[],stream => some stream
  | attempts,message::messages,stream =>
    match writeMsg attempts message stream with
    | some (.ok,stream,rest) => writeMsgs rest messages stream
    | _ => none

def Attempt.writes : Attempt → Bool
  | .wrote _ => true
  | _ => false

variable {attempts : List Attempt} {messages : List Message}

lemma writeAll_writes (data stream : List UInt8) (works : .error ∉ attempts)
    (enough : data.length ≤ attempts.countP Attempt.writes) :
    ∃ rest, writeAll attempts data stream = some (.ok,stream ++ data,rest) ∧ .error ∉ rest ∧
      attempts.countP Attempt.writes ≤ rest.countP Attempt.writes + data.length := by
  induction attempts generalizing data stream with
  | nil =>
    obtain rfl := length_eq_zero_iff.mp (Nat.le_zero.mp enough)
    exact ⟨[],by simp [writeAll],works,by simp⟩
  | cons attempt attempts ih =>
    have later : .error ∉ attempts := fun member => works (mem_cons_of_mem attempt member)
    cases data with
    | nil => exact ⟨attempt::attempts,by simp [writeAll],works,by simp⟩
    | cons byte data =>
      cases attempt with
      | again => exact ih (byte::data) stream later enough
      | error => exact absurd mem_cons_self works
      | wrote count =>
        have left : ((byte::data).drop (count + 1)).length ≤ attempts.countP Attempt.writes := by
          simp only [countP_cons,Attempt.writes,length_cons,List.drop_succ_cons,length_drop,if_true] at enough ⊢
          omega
        obtain ⟨rest,wrote,clean,spent⟩ := ih ((byte::data).drop (count + 1)) (stream ++ (byte::data).take (count + 1)) later left
        refine ⟨rest,?_,clean,?_⟩
        · rw [append_assoc,take_append_drop] at wrote
          exact wrote
        · simp only [countP_cons,Attempt.writes,length_cons,List.drop_succ_cons,length_drop,if_true] at spent ⊢
          omega

lemma writeMsg_writes (stream : List UInt8) (small : message.hdr.size.toNat ≤ sizeMax)
    (works : .error ∉ attempts) (enough : (bytes message).length ≤ attempts.countP Attempt.writes) :
    ∃ rest, writeMsg attempts message stream = some (.ok,stream ++ bytes message,rest) ∧ .error ∉ rest ∧
      attempts.countP Attempt.writes ≤ rest.countP Attempt.writes + (bytes message).length := by
  rw [bytes,length_append] at enough ⊢
  obtain ⟨middle,first,clean,spent⟩ := writeAll_writes (hdrBytes message.hdr) stream works (by omega)
  obtain ⟨rest,second,tidy,used⟩ := writeAll_writes message.payload (stream ++ hdrBytes message.hdr) clean (by omega)
  refine ⟨rest,?_,tidy,by omega⟩
  rw [writeMsg,if_neg (Nat.not_lt.mpr small),first]
  rw [append_assoc] at second
  exact second

lemma writeMsgs_writes (stream : List UInt8)
    (small : ∀ message ∈ messages, message.hdr.size.toNat ≤ sizeMax) (works : .error ∉ attempts)
    (enough : (messages.flatMap bytes).length ≤ attempts.countP Attempt.writes) :
    writeMsgs attempts messages stream = some (stream ++ messages.flatMap bytes) := by
  induction messages generalizing attempts stream with
  | nil => simp [writeMsgs]
  | cons message messages ih =>
    rw [flatMap_cons,length_append] at enough
    obtain ⟨rest,wrote,clean,spent⟩ := writeMsg_writes stream (small message mem_cons_self) works (by omega)
    have others := ih (stream ++ bytes message) (fun other member => small other (mem_cons_of_mem message member)) clean (by omega)
    rw [writeMsgs,wrote]
    rw [append_assoc] at others
    exact others

-- What one call of read() does: there are `count + 1` bytes, or fewer where fewer are
-- asked for or left.
inductive Arrival where
  | again
  | chunk (count : Nat)
  | closed
  | error
  deriving DecidableEq, Repr

def read (len : Nat) (stream : List UInt8) (arrival : Arrival) : Errno × List UInt8 × List UInt8 :=
  if len = 0 then (.ok,[],stream)
  else
    match arrival with
    | .again => (.eagain,[],stream)
    | .chunk count => if stream = [] then (.eagain,[],stream) else (.ok,stream.take (min len (count + 1)),stream.drop (min len (count + 1)))
    | .closed => (.closed,[],stream)
    | .error => (.failed,[],stream)

-- A message on its way in. The header is kept as it came until all of it is there.
structure Incoming where
  header : List UInt8
  hdr : Header
  availableSize : Nat
  payload : Option (List UInt8)
  deriving DecidableEq, Repr

def cleared : Incoming := ⟨[],⟨0,0,0⟩,0,none⟩

structure Outcome where
  returned : Errno
  msg : Incoming
  stream : List UInt8
  deriving DecidableEq, Repr

-- Both loops read nothing more once the arrivals of the call are used up.
def readPayload (arrivals : List Arrival) (msg : Incoming) (stream : List UInt8) : Outcome :=
  if msg.availableSize - headerSize < msg.hdr.size.toNat then
    match msg.payload,arrivals with
    | none,_ => ⟨.failed,msg,stream⟩
    | some _,[] => ⟨.eagain,msg,stream⟩
    | some payload,arrival::rest =>
      match read (msg.hdr.size.toNat - (msg.availableSize - headerSize)) stream arrival with
      | (.ok,came,left) => readPayload rest {msg with availableSize:=msg.availableSize + came.length,payload:=some (payload ++ came)} left
      | (err,_,left) => ⟨err,msg,left⟩
  else ⟨.ok,msg,stream⟩

def startPayload (memory : Bool) (arrivals : List Arrival) (header stream : List UInt8) : Outcome :=
  let hdr := hdrOfBytes header
  if sizeMax < hdr.size.toNat then ⟨.failed,cleared,stream⟩
  else if hdr.size = 0 then readPayload arrivals ⟨header,hdr,headerSize,none⟩ stream
  else if memory then readPayload arrivals ⟨header,hdr,headerSize,some []⟩ stream
  else ⟨.noMem,cleared,stream⟩

def readMsg (memory : Bool) (arrivals : List Arrival) (msg : Incoming) (stream : List UInt8) : Outcome :=
  if msg.availableSize < headerSize then
    match arrivals with
    | [] => ⟨.eagain,msg,stream⟩
    | arrival::rest =>
      match read (headerSize - msg.availableSize) stream arrival with
      | (.ok,came,left) =>
        if msg.availableSize + came.length = headerSize then startPayload memory rest (msg.header ++ came) left
        else readMsg memory rest {msg with header:=msg.header ++ came,availableSize:=msg.availableSize + came.length} left
      | (err,_,left) => ⟨err,msg,left⟩
  else readPayload arrivals msg stream

structure Received where
  messages : List (Header × List UInt8)
  failed : Option Errno
  msg : Incoming
  stream : List UInt8
  deriving DecidableEq, Repr

def Received.after (received : Received) (message : Header × List UInt8) : Received := {received with messages:=message::received.messages}

-- One call after the other, each with its own arrivals: the message is kept while it is
-- not complete and cleared when it is.
def receive (memory : Bool) : List (List Arrival) → Incoming → List UInt8 → Received
  | [],msg,stream => ⟨[],none,msg,stream⟩
  | arrivals::calls,msg,stream =>
    match readMsg memory arrivals msg stream with
    | ⟨.ok,msg,stream⟩ => (receive memory calls cleared stream).after (msg.hdr,msg.payload.getD [])
    | ⟨.eagain,msg,stream⟩ => receive memory calls msg stream
    | ⟨err,msg,stream⟩ => ⟨[],some err,msg,stream⟩

def Arrival.plain : Arrival → Bool
  | .again => true
  | .chunk _ => true
  | _ => false

def heard : List Arrival → Bool
  | .chunk _::_ => true
  | _ => false

lemma read_again (stream : List UInt8) (asked : 0 < len) : read len stream .again = (.eagain,[],stream) := by
  rw [read,if_neg (Nat.ne_of_gt asked)]

lemma read_chunk (count : Nat) (asked : 0 < len) (more : stream ≠ []) :
    ∃ came left, read len stream (.chunk count) = (.ok,came,left) ∧ came ++ left = stream ∧ 0 < came.length ∧ came.length ≤ len := by
  refine ⟨stream.take (min len (count + 1)),stream.drop (min len (count + 1)),?_,take_append_drop _ _,?_,?_⟩
  · simp only [read,if_neg (Nat.ne_of_gt asked),if_neg more]
  · have long := List.length_pos_of_ne_nil more
    rw [length_take]
    omega
  · rw [length_take]
    omega

section Reading

variable {message : Message} {rest : List UInt8}

structure InPayload (message : Message) (rest got : List UInt8) (msg : Incoming) (stream : List UInt8) : Prop where
  hdr : msg.hdr = message.hdr
  size : msg.availableSize = headerSize + got.length
  payload : msg.payload = some got
  bytes : got ++ stream = message.payload ++ rest

-- A message that has not come in full: the next call starts in either loop.
inductive Partway (message : Message) (rest : List UInt8) (msg : Incoming) (stream : List UInt8) : Prop where
  | header (size : msg.availableSize = msg.header.length) (short : msg.header.length < headerSize)
      (whole : msg.header ++ stream = bytes message ++ rest)
  | payload (got : List UInt8) (inside : InPayload message rest got msg stream) (short : got.length < message.payload.length)

structure Complete (message : Message) (rest : List UInt8) (outcome : Outcome) : Prop where
  returned : outcome.returned = .ok
  hdr : outcome.msg.hdr = message.hdr
  payload : outcome.msg.payload.getD [] = message.payload
  stream : outcome.stream = rest

def Result (message : Message) (rest : List UInt8) (outcome : Outcome) : Prop :=
  outcome.returned = .eagain ∧ Partway message rest outcome.msg outcome.stream ∨ Complete message rest outcome

variable {msg : Incoming} {arrivals : List Arrival} {got stream : List UInt8}

lemma InPayload.more (inside : InPayload message rest got msg stream)
    (short : got.length < message.payload.length) : stream ≠ [] := by
  intro empty
  have lengths := congrArg List.length inside.bytes
  rw [empty,length_append,length_append,length_nil] at lengths
  omega

lemma InPayload.reads (inside : InPayload message rest got msg stream)
    (short : got.length < message.payload.length) : msg.availableSize - headerSize < msg.hdr.size.toNat := by
  rw [inside.size,inside.hdr,← message.sized]
  omega

lemma Partway.more (partway : Partway message rest msg stream) : stream ≠ [] := by
  cases partway with
  | header size short whole =>
    intro empty
    have lengths := congrArg List.length whole
    rw [empty,bytes,length_append,length_append,length_append,hdrBytes_length,length_nil] at lengths
    omega
  | payload got inside short => exact inside.more short

lemma Partway.start (message : Message) (rest : List UInt8) : Partway message rest cleared (bytes message ++ rest) :=
  .header rfl (by decide) rfl

lemma readPayload_full (arrivals : List Arrival) (inside : InPayload message rest got msg stream)
    (full : got.length = message.payload.length) :
    readPayload arrivals msg stream = ⟨.ok,msg,stream⟩ ∧ Complete message rest ⟨.ok,msg,stream⟩ := by
  obtain ⟨same,behind⟩ := append_inj inside.bytes full
  constructor
  · have reads : ¬ msg.availableSize - headerSize < msg.hdr.size.toNat := by
      rw [inside.size,inside.hdr,← message.sized]
      omega
    rw [readPayload.eq_def,if_neg reads]
  · exact ⟨rfl,inside.hdr,by rw [inside.payload,getD_some,same],behind⟩

lemma readPayload_chunk (count : Nat) (arrivals : List Arrival)
    (inside : InPayload message rest got msg stream) (short : got.length < message.payload.length) :
    ∃ came next left, readPayload (.chunk count::arrivals) msg stream = readPayload arrivals next left ∧
      InPayload message rest (got ++ came) next left ∧ (got ++ came).length ≤ message.payload.length ∧ left.length < stream.length := by
  have reads := inside.reads short
  have asked : 0 < msg.hdr.size.toNat - (msg.availableSize - headerSize) := by omega
  obtain ⟨came,left,is,whole,brought,within⟩ := read_chunk count asked (inside.more short)
  refine ⟨came,{msg with availableSize:=msg.availableSize + came.length,payload:=some (got ++ came)},left,?_,⟨inside.hdr,?_,rfl,?_⟩,?_,?_⟩
  · rw [readPayload.eq_def,if_pos (inside.reads short),inside.payload]
    simp only [is]
  · simp only [inside.size,length_append]
    omega
  · rw [append_assoc,whole,inside.bytes]
  · rw [inside.size,inside.hdr,← message.sized] at within
    rw [length_append]
    omega
  · rw [← whole,length_append]
    omega

structure Progress (message : Message) (rest : List UInt8) (arrivals : List Arrival) (stream : List UInt8) (outcome : Outcome) : Prop where
  result : Result message rest outcome
  shrinks : outcome.stream.length + (heard arrivals).toNat ≤ stream.length

lemma Progress.waits (silent : heard arrivals = false)
    (partway : Partway message rest msg stream) : Progress message rest arrivals stream ⟨.eagain,msg,stream⟩ :=
  ⟨.inl ⟨rfl,partway⟩,by simp [silent]⟩

lemma Progress.reads {left : List UInt8} {outcome : Outcome} (arrivals : List Arrival) (result : Result message rest outcome)
    (within : outcome.stream.length ≤ left.length) (shorter : left.length < stream.length) : Progress message rest arrivals stream outcome := by
  refine ⟨result,?_⟩
  have one := Bool.toNat_le (heard arrivals)
  omega

lemma readPayload_progress (plain : ∀ arrival ∈ arrivals, arrival.plain = true)
    (inside : InPayload message rest got msg stream) (short : got.length < message.payload.length) :
    Progress message rest arrivals stream (readPayload arrivals msg stream) := by
  induction arrivals generalizing got msg stream with
  | nil =>
    rw [readPayload.eq_def,if_pos (inside.reads short),inside.payload]
    exact .waits rfl (.payload got inside short)
  | cons arrival arrivals ih =>
    have later : ∀ other ∈ arrivals, other.plain = true := fun other member => plain other (mem_cons_of_mem arrival member)
    cases arrival with
    | again =>
      have reads := inside.reads short
      rw [readPayload.eq_def,if_pos (inside.reads short),inside.payload]
      simp only [read_again stream (by omega : 0 < msg.hdr.size.toNat - (msg.availableSize - headerSize))]
      exact .waits rfl (.payload got inside short)
    | chunk count =>
      obtain ⟨came,next,left,goes,further,fits,shorter⟩ := readPayload_chunk count arrivals inside short
      rw [goes]
      rcases Nat.lt_or_eq_of_le fits with missing | full
      · have rest := ih later further missing
        exact .reads _ rest.result (by have := rest.shrinks; omega) shorter
      · obtain ⟨is,complete⟩ := readPayload_full arrivals further full
        rw [is]
        exact .reads _ (.inr complete) le_rfl shorter
    | closed => exact absurd (plain .closed mem_cons_self) (by decide)
    | error => exact absurd (plain .error mem_cons_self) (by decide)

lemma startPayload_progress (plain : ∀ arrival ∈ arrivals, arrival.plain = true) (small : message.hdr.size.toNat ≤ sizeMax) :
    Result message rest (startPayload true arrivals (hdrBytes message.hdr) (message.payload ++ rest)) ∧
      (startPayload true arrivals (hdrBytes message.hdr) (message.payload ++ rest)).stream.length ≤ (message.payload ++ rest).length := by
  simp only [startPayload,hdrOfBytes_hdrBytes,if_neg (Nat.not_lt.mpr small),if_true]
  by_cases empty : message.hdr.size = 0
  · have nothing : message.payload = [] := by
      apply List.eq_nil_of_length_eq_zero
      rw [message.sized,empty]
      rfl
    rw [if_pos empty,readPayload.eq_def,if_neg (by simp [empty])]
    exact ⟨.inr ⟨rfl,rfl,nothing.symm,by rw [nothing,nil_append]⟩,le_rfl⟩
  · have short : ([] : List UInt8).length < message.payload.length := by
      rw [message.sized,length_nil]
      exact Nat.pos_of_ne_zero fun zero => empty (UInt32.toNat_inj.mp zero)
    rw [if_neg empty]
    have went := readPayload_progress plain (⟨rfl,rfl,rfl,rfl⟩ :
      InPayload message rest [] ⟨hdrBytes message.hdr,message.hdr,headerSize,some []⟩ (message.payload ++ rest)) short
    exact ⟨went.result,le_trans (Nat.le_add_right _ _) went.shrinks⟩

lemma readHeader_progress (msg : Incoming) (plain : ∀ arrival ∈ arrivals, arrival.plain = true)
    (small : message.hdr.size.toNat ≤ sizeMax) (size : msg.availableSize = msg.header.length) (short : msg.header.length < headerSize)
    (whole : msg.header ++ stream = bytes message ++ rest) : Progress message rest arrivals stream (readMsg true arrivals msg stream) := by
  have partway : Partway message rest msg stream := .header size short whole
  have reads : msg.availableSize < headerSize := size.trans_lt short
  induction arrivals generalizing msg stream with
  | nil =>
    rw [readMsg,if_pos reads]
    exact .waits rfl partway
  | cons arrival arrivals ih =>
    have later : ∀ other ∈ arrivals, other.plain = true := fun other member => plain other (mem_cons_of_mem arrival member)
    rw [readMsg,if_pos reads]
    cases arrival with
    | again =>
      simp only [read_again stream (Nat.sub_pos_of_lt reads)]
      exact .waits rfl partway
    | chunk count =>
      obtain ⟨came,left,is,together,brought,within⟩ := read_chunk count (Nat.sub_pos_of_lt reads) partway.more
      have shorter : left.length < stream.length := by
        rw [← together,length_append]
        omega
      have further : msg.header ++ came ++ left = bytes message ++ rest := by rw [append_assoc,together,whole]
      simp only [is]
      split
      · rename_i full
        obtain ⟨header,behind⟩ := append_inj (further.trans (append_assoc _ _ _))
          (by rw [length_append,hdrBytes_length]; omega)
        rw [header,behind]
        obtain ⟨result,fewer⟩ := startPayload_progress later small
        exact .reads _ result fewer (behind ▸ shorter)
      · rename_i missing
        have less : (msg.header ++ came).length < headerSize := by
          rw [length_append]
          omega
        have sized : msg.availableSize + came.length = (msg.header ++ came).length := by rw [size,length_append]
        have next := ih {msg with header:=msg.header ++ came,availableSize:=msg.availableSize + came.length} later sized less further
          (.header sized less further) (sized.trans_lt less)
        exact .reads _ next.result (le_trans (Nat.le_add_right _ _) next.shrinks) shorter
    | closed => exact absurd (plain .closed mem_cons_self) (by decide)
    | error => exact absurd (plain .error mem_cons_self) (by decide)

lemma readMsg_progress (plain : ∀ arrival ∈ arrivals, arrival.plain = true)
    (small : message.hdr.size.toNat ≤ sizeMax) (partway : Partway message rest msg stream) :
    Progress message rest arrivals stream (readMsg true arrivals msg stream) := by
  cases partway with
  | header size short whole => exact readHeader_progress msg plain small size short whole
  | payload got inside short =>
    have whole : ¬ msg.availableSize < headerSize := by
      rw [inside.size]
      omega
    rw [readMsg.eq_def,if_neg whole]
    exact readPayload_progress plain inside short

end Reading

def Pending : List Message → Incoming → List UInt8 → Prop
  | [],msg,stream => msg = cleared ∧ stream = []
  | message::messages,msg,stream => Partway message (messages.flatMap bytes) msg stream

lemma Pending.start (messages : List Message) : Pending messages cleared (messages.flatMap bytes) := by
  cases messages with
  | nil => exact ⟨rfl,rfl⟩
  | cons message messages => exact Partway.start message _

def content (message : Message) : Header × List UInt8 := (message.hdr,message.payload)

lemma readMsg_idle (plain : ∀ arrival ∈ arrivals, arrival.plain = true) :
    readMsg true arrivals cleared [] = ⟨.eagain,cleared,[]⟩ := by
  cases arrivals with
  | nil => rfl
  | cons arrival arrivals =>
    cases arrival with
    | again => rfl
    | chunk count => rfl
    | closed => exact absurd (plain .closed mem_cons_self) (by decide)
    | error => exact absurd (plain .error mem_cons_self) (by decide)

structure Delivered (messages : List Message) (calls : List (List Arrival)) (stream : List UInt8) (received : Received) : Prop where
  failed : received.failed = none
  split : ∃ later, messages.map content = received.messages ++ later.map content ∧ Pending later received.msg received.stream
  shrinks : received.stream.length ≤ stream.length - calls.countP heard

lemma receive_delivers (small : ∀ message ∈ messages, message.hdr.size.toNat ≤ sizeMax) (plain : ∀ call ∈ calls, ∀ arrival ∈ call, arrival.plain = true)
    (pending : Pending messages msg stream) : Delivered messages calls stream (receive true calls msg stream) := by
  induction calls generalizing messages msg stream with
  | nil => exact ⟨rfl,⟨messages,rfl,pending⟩,le_rfl⟩
  | cons call calls ih =>
    have later : ∀ other ∈ calls, ∀ arrival ∈ other, arrival.plain = true := fun other member => plain other (mem_cons_of_mem call member)
    have now := plain call mem_cons_self
    cases messages with
    | nil =>
      obtain ⟨rfl,rfl⟩ := pending
      have rest := ih small later ⟨rfl,rfl⟩
      simp only [receive,readMsg_idle now]
      exact ⟨rest.failed,rest.split,le_trans rest.shrinks (by simp)⟩
    | cons message messages =>
      obtain ⟨result,shrinks⟩ := readMsg_progress now (small message mem_cons_self) pending
      have count : (call::calls).countP heard = calls.countP heard + (heard call).toNat := by
        rw [countP_cons]
        cases heard call <;> rfl
      rw [receive]
      generalize readMsg true call msg stream = outcome at result shrinks ⊢
      obtain ⟨returned,next,left⟩ := outcome
      dsimp only at shrinks
      rcases result with ⟨waits,partway⟩ | complete
      · obtain rfl : returned = .eagain := waits
        have rest := ih small later partway
        refine ⟨rest.failed,rest.split,?_⟩
        have fewer := rest.shrinks
        dsimp only at fewer ⊢
        omega
      · obtain ⟨rfl,hdr,payload,rfl⟩ := complete
        have rest := ih (fun other member => small other (mem_cons_of_mem message member)) later (Pending.start messages)
        obtain ⟨further,split,still⟩ := rest.split
        refine ⟨rest.failed,⟨further,?_,still⟩,?_⟩
        · dsimp only at hdr payload
          simp only [Received.after,hdr,payload,map_cons,split,cons_append]
          rfl
        · have fewer := rest.shrinks
          simp only [Received.after]
          omega

lemma Pending.over (pending : Pending messages msg []) : messages = [] := by
  cases messages with
  | nil => rfl
  | cons message messages => exact absurd rfl (Partway.more pending)

-- Whatever is written arrives: at no time has anything else come, and once as many calls
-- have found something as there are bytes, everything has.
theorem messages_arrive (messages : List Message) (attempts : List Attempt) (calls : List (List Arrival))
    (small : ∀ message ∈ messages, message.hdr.size.toNat ≤ sizeMax) (works : .error ∉ attempts)
    (enough : (messages.flatMap bytes).length ≤ attempts.countP Attempt.writes)
    (plain : ∀ call ∈ calls, ∀ arrival ∈ call, arrival.plain = true) :
    ∃ stream, writeMsgs attempts messages [] = some stream ∧ (receive true calls cleared stream).failed = none ∧
      (receive true calls cleared stream).messages <+: messages.map content ∧
      ((messages.flatMap bytes).length ≤ calls.countP heard → (receive true calls cleared stream).messages = messages.map content) := by
  refine ⟨messages.flatMap bytes,writeMsgs_writes [] small works enough,?_⟩
  obtain ⟨failed,⟨later,split,pending⟩,shrinks⟩ := receive_delivers small plain (Pending.start messages)
  refine ⟨failed,⟨_,split.symm⟩,?_⟩
  intro long
  have empty : (receive true calls cleared (messages.flatMap bytes)).stream = [] := by
    apply List.eq_nil_of_length_eq_zero
    omega
  rw [empty] at pending
  rw [split,pending.over,map_nil,append_nil]

def greeting : List Message := [⟨⟨1,7,3⟩,[1,2,3],rfl⟩,⟨⟨2,8,0⟩,[],rfl⟩]

theorem greeting_arrives : ∃ stream, writeMsgs (replicate 19 (.wrote 4)) greeting [] = some stream ∧
    (receive true (replicate 19 [.chunk 2,.again]) cleared stream).messages = greeting.map content := by
  obtain ⟨stream,written,_,_,all⟩ := messages_arrive greeting (replicate 19 (.wrote 4)) (replicate 19 [.chunk 2,.again])
    (by decide) (by decide) (by decide) (by decide)
  exact ⟨stream,written,all (by decide)⟩

end MedvedDB.Framing
