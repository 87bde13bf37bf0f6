import MedvedDB.Uuid
import MedvedDB.HashLaws

open MedvedDB.Binn
namespace MedvedDB.P2pCodec

def payloadOffset : Nat := 8

-- mdv_trlog_data. The size of its operation counts the words in front of the payload.
structure TrlogData where
  id : UInt64
  size : UInt32
  type : UInt32
  payload : List UInt8
  whole : payloadOffset + payload.length = size.toNat
  deriving DecidableEq

structure TrlogMessage where
  trlog : Uuid
  count : UInt32
  rows : List TrlogData
  deriving DecidableEq

structure DataCalls where
  rows : Bool := true
  row : Nat → Bool := fun _ => true
  object : Bool := true
  set : Bool := true

def rowObject (entry : TrlogData) : Value :=
  .object [("I",.int entry.id.toNat),("S",.int entry.size.toNat),("T",.int entry.type.toNat),("O",.blob entry.payload)]

-- The size of a blob is an int, and a negative one is refused.
def binnRow (works : Bool) (entry : TrlogData) : Option Value :=
  if !works || 2^31 ≤ entry.payload.length then none else some (rowObject entry)

def binnRows (works : Nat → Bool) : Nat → List TrlogData → Option (List Value)
  | _,[] => some []
  | index,entry::rest =>
    match binnRow (works index) entry with
    | none => none
    | some row => (binnRows works (index + 1) rest).map (row::·)

def dataObject (msg : TrlogMessage) (rows : List Value) : Value :=
  .object [("U0",.int msg.trlog.low.toNat),("U1",.int msg.trlog.high.toNat),("C",.int msg.count.toNat),("R",.list rows)]

def binnP2pTrlogData (calls : DataCalls) (msg : TrlogMessage) : Option Value :=
  if !calls.rows then none
  else match binnRows calls.row 0 msg.rows with
    | none => none
    | some rows =>
      if !calls.object || !calls.set then none
      else some (dataObject msg rows)

-- The entry is built from the size that was sent, after it was compared with the payload.
def unbinnRow (alloc : Bool) (row : Value) : Option TrlogData :=
  match objectGetUint64 "I" row,objectGetUint32 "S" row,objectGetUint32 "T" row,(objectGet "O" row).bind getBlob with
  | some id,some size,some type,some payload =>
    if same : payloadOffset + payload.length = size.toNat then
      if !alloc then none else some ⟨id,size,type,payload,same⟩
    else none
  | _,_,_,_ => none

def unbinnRows (alloc : Nat → Bool) : Nat → List Value → Option (List TrlogData)
  | _,[] => some []
  | index,row::rest =>
    match unbinnRow (alloc index) row with
    | none => none
    | some entry => (unbinnRows alloc (index + 1) rest).map (entry::·)

-- The entries are put behind those that are in the list of the message already.
def unbinnP2pTrlogData (alloc : Nat → Bool) (before : List TrlogData) (obj : Value) : Option TrlogMessage :=
  match Uuid.unbinn "U0" "U1" obj,objectGetUint32 "C" obj,objectGetList "R" obj with
  | some trlog,some count,some rows => (unbinnRows alloc 0 (foreach rows)).map fun rows => ⟨trlog,count,before ++ rows⟩
  | _,_,_ => none

section Rows

lemma unbinnRow_some (alloc : Bool) (id : objectGetUint64 "I" row = some entry.id)
    (size : objectGetUint32 "S" row = some entry.size) (type : objectGetUint32 "T" row = some entry.type)
    (payload : (objectGet "O" row).bind getBlob = some entry.payload) : unbinnRow alloc row = if alloc then some entry else none := by
  simp only [unbinnRow,id,size,type,payload]
  rw [dif_pos entry.whole]
  cases alloc <;> rfl

lemma unbinnRow_binnRow (encoded : binnRow works entry = some row) (alloc : Bool) :
    unbinnRow alloc row = if alloc then some entry else none := by
  rw [binnRow,ite_none_left_eq_some,some_inj] at encoded
  obtain ⟨_,rfl⟩ := encoded
  apply unbinnRow_some
  · rw [rowObject,objectGetUint64,objectGet_first (by decide),bind_some,getUint64_toNat]
  · rw [rowObject,objectGetUint32,objectGet_next (by decide),objectGet_first (by decide),bind_some,getUint32_toNat]
  · rw [rowObject,objectGetUint32,objectGet_next (by decide),objectGet_next (by decide),objectGet_first (by decide),bind_some,getUint32_toNat]
  · rw [rowObject,objectGet_next (by decide),objectGet_next (by decide),objectGet_next (by decide),objectGet_first (by decide)]
    rfl

lemma unbinnRows_binnRows {works : Nat → Bool} (alloc : Nat → Bool)
    (encoded : binnRows works index entries = some rows) :
    unbinnRows alloc index rows = some entries ∨ unbinnRows alloc index rows = none ∧ ∃ i < entries.length, alloc (index + i) = false := by
  induction entries generalizing index rows with
  | nil =>
    cases encoded
    exact .inl rfl
  | cons entry rest ih =>
    rw [binnRows] at encoded
    cases first : binnRow (works index) entry with
    | none =>
      rw [first] at encoded
      cases encoded
    | some row =>
      rw [first] at encoded
      obtain ⟨more,later,rfl⟩ := map_eq_some_iff.mp encoded
      rw [unbinnRows,unbinnRow_binnRow first]
      cases memory : alloc index with
      | false => exact .inr ⟨rfl,0,succ_pos _,memory⟩
      | true =>
        simp only [if_true]
        rcases ih later with done | ⟨failed,i,inside,short⟩
        · exact .inl (by rw [done]; rfl)
        · exact .inr ⟨by rw [failed]; rfl,i + 1,Nat.succ_lt_succ inside,by rw [← short,Nat.add_assoc,Nat.add_comm 1]⟩

lemma unbinnP2pTrlogData_some (alloc : Nat → Bool) (before : List TrlogData)
    (uuid : Uuid.unbinn "U0" "U1" obj = some trlog) (number : objectGetUint32 "C" obj = some count) (list : objectGetList "R" obj = some (.list rows)) :
    unbinnP2pTrlogData alloc before obj = (unbinnRows alloc 0 rows).map fun rows => ⟨trlog,count,before ++ rows⟩ := by
  simp only [unbinnP2pTrlogData,uuid,number,list,foreach]

lemma trlogData_round_trip (encoded : binnP2pTrlogData calls msg = some obj) (alloc : Nat → Bool) :
    unbinnP2pTrlogData alloc [] obj = some msg ∨ unbinnP2pTrlogData alloc [] obj = none ∧ ∃ i < msg.rows.length, alloc i = false := by
  rw [binnP2pTrlogData,ite_none_left_eq_some] at encoded
  obtain ⟨_,encoded⟩ := encoded
  cases made : binnRows calls.row 0 msg.rows with
  | none =>
    rw [made] at encoded
    cases encoded
  | some rows =>
    rw [made,ite_none_left_eq_some,some_inj] at encoded
    obtain ⟨_,object⟩ := encoded
    have decoded : unbinnP2pTrlogData alloc [] obj = (unbinnRows alloc 0 rows).map fun rows => ⟨msg.trlog,msg.count,[] ++ rows⟩ := by
      rw [← object]
      apply unbinnP2pTrlogData_some
      · exact Uuid.unbinn_some (objectGet_first (by decide)) ((objectGet_next (by decide)).trans (objectGet_first (by decide)))
      · rw [dataObject,objectGetUint32,objectGet_next (by decide),objectGet_next (by decide),objectGet_first (by decide),bind_some,getUint32_toNat]
      · rw [dataObject,objectGetList,objectGet_next (by decide),objectGet_next (by decide),objectGet_next (by decide),objectGet_first (by decide)]
        rfl
    rw [decoded]
    rcases unbinnRows_binnRows alloc made with done | ⟨failed,i,inside,short⟩
    · exact .inl (by rw [done]; rfl)
    · exact .inr ⟨by rw [failed]; rfl,i,inside,by rw [← short,Nat.zero_add]⟩

end Rows

-- mdv_msg_p2p_broadcast. The notified nodes are a hash set of their uuids.
structure BroadcastMessage where
  msgId : UInt16
  data : List UInt8
  notified : HashMap.Table Uuid

structure BroadcastCalls where
  notified : Bool := true
  uuid : Nat → Bool := fun _ => true
  object : Bool := true
  set : Bool := true

def uuidObject (uuid : Uuid) : Value := .object [("U1",.int uuid.low.toNat),("U2",.int uuid.high.toNat)]

def broadcastObject (msg : BroadcastMessage) (notified : List Value) : Value :=
  .object [("M",.int msg.msgId.toNat),("D",.blob msg.data),("N",.list notified)]

-- The walk over the set ends at the first uuid that cannot be added.
def binnP2pBroadcast (calls : BroadcastCalls) (msg : BroadcastMessage) : Option Value :=
  if !calls.notified then none
  else if (List.range (HashMap.entries msg.notified).length).any fun index => !calls.uuid index then none
  else if !calls.object || !calls.set || 2^31 ≤ msg.data.length then none
  else some (broadcastObject msg ((HashMap.entries msg.notified).map uuidObject))

def insertUuids (hash : Uuid → Nat) (works : Nat → Bool) : Nat → HashMap.Table Uuid → List Value → Option (HashMap.Table Uuid)
  | _,notified,[] => some notified
  | index,notified,value::rest =>
    match Uuid.unbinn "U1" "U2" value with
    | none => none
    | some uuid =>
      if !works index then none
      else match HashMap.insert id hash notified uuid with
        | none => none
        | some notified => insertUuids hash works (index + 1) notified rest

structure SetCalls where
  create : Bool := true
  insert : Nat → Bool := fun _ => true

def SetCalls.Short (calls : SetCalls) (count : Nat) : Prop := calls.create = false ∨ ∃ i < count, calls.insert i = false

def unbinnP2pBroadcast (hash : Uuid → Nat) (calls : SetCalls) (obj : Value) : Option BroadcastMessage :=
  match objectGetUint16 "M" obj,(objectGet "D" obj).bind getBlob,objectGetList "N" obj with
  | some msgId,some data,some list =>
    if !calls.create then none
    else (insertUuids hash calls.insert 0 (HashMap.create 1) (foreach list)).map fun notified => ⟨msgId,data,notified⟩
  | _,_,_ => none

section Sets

variable {hash : Uuid → Nat} {notified : HashMap.Table Uuid}

lemma unbinn_uuidObject (uuid : Uuid) : Uuid.unbinn "U1" "U2" (uuidObject uuid) = some uuid :=
  Uuid.unbinn_some (objectGet_first (by decide)) ((objectGet_next (by decide)).trans (objectGet_first (by decide)))

lemma insertUuids_inserts (works : Nat → Bool) (uuids : List Uuid) (index : Nat) (valid : HashMap.Valid id hash notified) :
    (∃ after, insertUuids hash works index notified (uuids.map uuidObject) = some after ∧ HashMap.Valid id hash after ∧
        ∀ uuid, uuid ∈ HashMap.entries after ↔ uuid ∈ HashMap.entries notified ∨ uuid ∈ uuids) ∨
      insertUuids hash works index notified (uuids.map uuidObject) = none ∧ ∃ i < uuids.length, works (index + i) = false := by
  induction uuids generalizing index notified with
  | nil => exact .inl ⟨notified,rfl,valid,by simp⟩
  | cons first rest ih =>
    rw [map_cons,insertUuids,unbinn_uuidObject]
    dsimp only
    cases memory : works index with
    | false => exact .inr ⟨rfl,0,succ_pos _,memory⟩
    | true =>
      obtain ⟨next,inserted,now,perm⟩ := valid.insert first
      have members : ∀ uuid, uuid ∈ HashMap.entries next ↔ uuid ∈ HashMap.entries notified ∨ uuid = first := by
        intro uuid
        rw [perm.mem_iff,mem_append,mem_filter,mem_singleton]
        by_cases same : uuid = first <;> simp [same]
      simp only [Bool.not_true,false_eq_true,if_false,inserted]
      rcases ih (index + 1) now with ⟨after,done,good,all⟩ | ⟨failed,i,inside,short⟩
      · refine .inl ⟨after,done,good,?_⟩
        intro uuid
        rw [all,members,mem_cons,or_assoc]
      · exact .inr ⟨failed,i + 1,Nat.succ_lt_succ inside,by rw [← short,Nat.add_assoc,Nat.add_comm 1]⟩

lemma unbinnP2pBroadcast_some (calls : SetCalls)
    (number : objectGetUint16 "M" obj = some msgId) (blob : (objectGet "D" obj).bind getBlob = some data) (uuids : objectGetList "N" obj = some (.list list)) :
    unbinnP2pBroadcast hash calls obj =
      if !calls.create then none else (insertUuids hash calls.insert 0 (HashMap.create 1) list).map fun notified => ⟨msgId,data,notified⟩ := by
  simp only [unbinnP2pBroadcast,number,blob,uuids,foreach]

def SameBroadcast (hash : Uuid → Nat) (msg other : BroadcastMessage) : Prop :=
  other.msgId = msg.msgId ∧ other.data = msg.data ∧ HashMap.Valid id hash other.notified ∧
    ∀ uuid, uuid ∈ HashMap.entries other.notified ↔ uuid ∈ HashMap.entries msg.notified

lemma broadcast_round_trip (encoded : binnP2pBroadcast calls msg = some obj)
    (hash : Uuid → Nat) (sets : SetCalls) :
    (∃ other, unbinnP2pBroadcast hash sets obj = some other ∧ SameBroadcast hash msg other) ∨ unbinnP2pBroadcast hash sets obj = none ∧ sets.Short (HashMap.entries msg.notified).length := by
  rw [binnP2pBroadcast,ite_none_left_eq_some,ite_none_left_eq_some,ite_none_left_eq_some,some_inj] at encoded
  obtain ⟨_,_,_,object⟩ := encoded
  have decoded : unbinnP2pBroadcast hash sets obj =
      if !sets.create then none
      else (insertUuids hash sets.insert 0 (HashMap.create 1) ((HashMap.entries msg.notified).map uuidObject)).map fun notified => ⟨msg.msgId,msg.data,notified⟩ := by
    rw [← object]
    apply unbinnP2pBroadcast_some
    · rw [broadcastObject,objectGetUint16,objectGet_first (by decide),bind_some,getUint16_toNat]
    · rw [broadcastObject,objectGet_next (by decide),objectGet_first (by decide)]
      rfl
    · rw [broadcastObject,objectGetList,objectGet_next (by decide),objectGet_next (by decide),objectGet_first (by decide)]
      rfl
  rw [decoded]
  cases memory : sets.create with
  | false => exact .inr ⟨rfl,.inl memory⟩
  | true =>
    simp only [Bool.not_true,false_eq_true,if_false]
    have fresh : HashMap.entries (HashMap.create 1 : HashMap.Table Uuid) = [] := rfl
    rcases insertUuids_inserts sets.insert (HashMap.entries msg.notified) 0 (HashMap.create_valid Nat.zero_lt_one) with ⟨after,done,good,all⟩ | ⟨failed,i,inside,short⟩
    · refine .inl ⟨⟨msg.msgId,msg.data,after⟩,by rw [done]; rfl,rfl,rfl,good,?_⟩
      intro uuid
      rw [all,fresh]
      simp
    · exact .inr ⟨by rw [failed]; rfl,.inr ⟨i,inside,by rw [← short,Nat.zero_add]⟩⟩

end Sets

-- Both messages come back from their objects, unless the decoder runs out of memory.
theorem log_messages_round_trip (calls : DataCalls) (msg : TrlogMessage) (obj : Value) (alloc : Nat → Bool) (broadcastCalls : BroadcastCalls)
    (broadcast : BroadcastMessage) (sent : Value) (hash : Uuid → Nat) (sets : SetCalls) (encoded : binnP2pTrlogData calls msg = some obj)
    (shared : binnP2pBroadcast broadcastCalls broadcast = some sent) :
    (unbinnP2pTrlogData alloc [] obj = some msg ∨ unbinnP2pTrlogData alloc [] obj = none ∧ ∃ i < msg.rows.length, alloc i = false) ∧
      ((∃ other, unbinnP2pBroadcast hash sets sent = some other ∧ SameBroadcast hash broadcast other) ∨
        unbinnP2pBroadcast hash sets sent = none ∧ sets.Short (HashMap.entries broadcast.notified).length) :=
  ⟨trlogData_round_trip encoded alloc,broadcast_round_trip shared hash sets⟩

def oneRow : TrlogMessage := ⟨⟨1,2⟩,1,[⟨5,9,3,[7],rfl⟩]⟩
def oneNotified : BroadcastMessage := ⟨4,[8],⟨1,1,fun _ => [⟨1,2⟩]⟩⟩

theorem small_messages_round_trip :
    (∃ obj, binnP2pTrlogData {} oneRow = some obj ∧ unbinnP2pTrlogData (fun _ => true) [] obj = some oneRow) ∧
      ∃ sent, binnP2pBroadcast {} oneNotified = some sent ∧
        ∃ other, unbinnP2pBroadcast (fun _ => 0) {} sent = some other ∧ SameBroadcast (fun _ => 0) oneNotified other := by
  obtain ⟨data,broadcast⟩ := log_messages_round_trip {} oneRow _ (fun _ => true) {} oneNotified _ (fun _ => 0) {} rfl rfl
  refine ⟨⟨_,rfl,data.resolve_right ?_⟩,_,rfl,broadcast.resolve_right ?_⟩
  · rintro ⟨_,i,_,short⟩
    cases short
  · rintro ⟨_,short | ⟨i,_,short⟩⟩
    · cases short
    · cases short

end MedvedDB.P2pCodec
