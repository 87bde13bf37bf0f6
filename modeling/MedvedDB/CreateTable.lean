import MedvedDB.Basic
import MedvedDB.Uuid
import MedvedDB.TableDesc

open MedvedDB.Binn MedvedDB.TableDesc
namespace MedvedDB.CreateTable

structure Request where
  desc : Option Decoded

-- mdv_msg_create_table_unbinn. What is tested is the address of the message.
def createTableUnbinn (alloc : Bool) (obj : Value) : Bool × Request :=
  (true,match unbinnTableDesc alloc obj with
    | .nothing => ⟨none⟩
    | desc => ⟨some desc⟩)

-- What leaves the handler: an event on the bus, or a reply with the number of the request.
inductive Effect where
  | published (desc : Option Decoded)
  | tableInfo (number : UInt16) (id : Uuid)
  | status (number : UInt16) (err : Errno) (message : String)

structure HandlerCalls where
  desc : Bool := true
  event : Bool := true
  publish : Option Decoded → Errno × Uuid
  info : Bool := true
  infoReply : Errno := .ok
  status : Bool := true
  statusReply : Errno := .ok

def tableInfoReply (calls : HandlerCalls) (number : UInt16) (id : Uuid) : Errno × List Effect :=
  if !calls.info then (.failed,[]) else (calls.infoReply,[.tableInfo number id])

def statusReply (calls : HandlerCalls) (number : UInt16) (err : Errno) : Errno × List Effect :=
  if !calls.status then (.failed,[]) else (calls.statusReply,[.status number err ""])

def createTable (calls : HandlerCalls) (number : UInt16) (request : Request) : Errno × List Effect :=
  if !calls.event then (.failed,[])
  else
    let (err,id) := calls.publish request.desc
    if err = .ok then
      let (err,reply) := tableInfoReply calls number id
      (err,.published request.desc::reply)
    else (err,[.published request.desc])

def createTableHandler (calls : HandlerCalls) (number : UInt16) : Option Value → Errno × List Effect
  | none => (.failed,[])
  | some obj =>
    let (valid,request) := createTableUnbinn calls.desc obj
    let (err,effects) := if valid then createTable calls number request else (.failed,[])
    if err ≠ .ok then
      let (err,reply) := statusReply calls number err
      (err,effects ++ reply)
    else (err,effects)

-- No event is published, and a status that is not MDV_OK answers the request.
structure Refused (number : UInt16) (effects : List Effect) : Prop where
  unpublished : ∀ desc, .published desc ∉ effects
  answered : ∃ err message, .status number err message ∈ effects ∧ err ≠ .ok

section Handler

variable {calls : HandlerCalls} {number : UInt16} {obj : Value}

lemma handler_publishes (number : UInt16) (obj : Value) (memory : calls.event = true) :
    .published (createTableUnbinn calls.desc obj).2.desc ∈ (createTableHandler calls number (some obj)).2 := by
  have first : .published (createTableUnbinn calls.desc obj).2.desc ∈ (createTable calls number (createTableUnbinn calls.desc obj).2).2 := by
    simp only [createTable,memory,Bool.not_true,false_eq_true,if_false]
    split <;> exact mem_cons_self
  have whole : (createTable calls number (createTableUnbinn calls.desc obj).2).2 ⊆ (createTableHandler calls number (some obj)).2 := by
    generalize request : (createTableUnbinn calls.desc obj).2 = decoded
    have shape : createTableHandler calls number (some obj) =
        if (createTable calls number decoded).1 ≠ .ok then
          ((statusReply calls number (createTable calls number decoded).1).1,
            (createTable calls number decoded).2 ++ (statusReply calls number (createTable calls number decoded).1).2)
        else createTable calls number decoded := by
      rw [← request]
      rfl
    rw [shape]
    split
    · exact List.subset_append_left _ _
    · exact List.Subset.refl _
  exact whole first

lemma handler_without_event (short : calls.event = false) :
    createTableHandler calls number (some obj) = statusReply calls number .failed := by
  simp [createTableHandler,createTableUnbinn,createTable,short]

lemma statusReply_refused : Refused number (statusReply calls number .failed).2 ↔ calls.status = true := by
  cases made : calls.status with
  | true =>
    have sent : (statusReply calls number .failed).2 = [.status number .failed ""] := by simp [statusReply,made]
    rw [sent]
    exact ⟨fun _ => rfl,fun _ => ⟨by simp,.failed,"",mem_cons_self,by decide⟩⟩
  | false =>
    have silent : (statusReply calls number .failed).2 = [] := by simp [statusReply,made]
    rw [silent]
    refine ⟨fun refused => ?_,fun wrong => nomatch wrong⟩
    obtain ⟨_,_,member,_⟩ := refused.answered
    cases member

end Handler

-- The address of the message is tested where its description is meant, so an event
-- without a description goes out as soon as there is memory for it.
theorem malformed_refused_iff (calls : HandlerCalls) (number : UInt16) (obj : Value) (malformed : unbinnTableDesc calls.desc obj = .nothing) :
    Refused number (createTableHandler calls number (some obj)).2 ↔ calls.event = false ∧ calls.status = true := by
  cases memory : calls.event with
  | true =>
    have none_ : (createTableUnbinn calls.desc obj).2.desc = none := by rw [createTableUnbinn,malformed]
    have published := handler_publishes number obj memory
    rw [none_] at published
    exact ⟨fun refused => absurd published (refused.unpublished none),fun condition => nomatch condition.1⟩
  | false =>
    rw [handler_without_event memory,statusReply_refused]
    exact ⟨fun made => ⟨rfl,made⟩,fun condition => condition.2⟩

def noFields : Value := .object [("N",.text [116]),("S",.int 1)]

theorem empty_description_published :
    unbinnTableDesc true noFields = .nothing ∧ ¬Refused 7 (createTableHandler {publish:=fun _ => (.failed,⟨0,0⟩)} 7 (some noFields)).2 := by
  refine ⟨rfl,fun refused => ?_⟩
  exact absurd mem_cons_self (refused.unpublished none)

theorem no_fields_refused :
    unbinnTableDesc true noFields = .nothing ∧
      Refused 7 (createTableHandler {event:=false,publish:=fun _ => (.failed,⟨0,0⟩)} 7 (some noFields)).2 :=
  ⟨rfl,(malformed_refused_iff {event:=false,publish:=fun _ => (.failed,⟨0,0⟩)} 7 noFields rfl).mpr ⟨rfl,rfl⟩⟩

end MedvedDB.CreateTable
