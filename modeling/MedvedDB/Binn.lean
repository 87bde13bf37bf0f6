import MedvedDB.Prelude

namespace MedvedDB.Binn

def unsigned (bytes : List UInt8) : Nat := Nat.ofDigits 256 (bytes.map UInt8.toNat)

def signed (bytes : List UInt8) : Int :=
  if 2 * unsigned bytes < 256 ^ bytes.length then unsigned bytes else unsigned bytes - (256 ^ bytes.length : Nat)

def unsignedBytes (count value : Nat) : List UInt8 :=
  (List.range count).map fun index => UInt8.ofNat (value / 256 ^ index)

-- A store of `count` bytes keeps the low ones of any integer.
def store (count : Nat) (value : Int) : List UInt8 := unsignedBytes count (value % (256 ^ count : Nat)).toNat

lemma unsigned_cons (byte : UInt8) (bytes : List UInt8) : unsigned (byte::bytes) = byte.toNat + 256 * unsigned bytes := by
  simp [unsigned,Nat.ofDigits_cons]

lemma unsigned_lt (bytes : List UInt8) : unsigned bytes < 256 ^ bytes.length := by
  have digits : ∀ digit ∈ bytes.map UInt8.toNat, digit < 256 := by
    intro digit member
    obtain ⟨byte,_,rfl⟩ := mem_map.mp member
    exact byte.toNat_lt
  simpa [unsigned] using Nat.ofDigits_lt_base_pow_length (by decide) digits

lemma unsignedBytes_length (count value : Nat) : (unsignedBytes count value).length = count := by
  simp [unsignedBytes]

lemma unsignedBytes_succ (count value : Nat) :
    unsignedBytes (count + 1) value = UInt8.ofNat value::unsignedBytes count (value / 256) := by
  simp only [unsignedBytes,List.range_succ_eq_map,map_cons,map_map,pow_zero,Nat.div_one]
  congr 1
  apply map_congr_left
  intro index _
  simp [pow_succ',Nat.div_div_eq_div_mul]

lemma unsignedBytes_unsigned (bytes : List UInt8) : unsignedBytes bytes.length (unsigned bytes) = bytes := by
  induction bytes with
  | nil => rfl
  | cons byte bytes ih =>
    have low : UInt8.ofNat (byte.toNat + 256 * unsigned bytes) = byte := by
      apply UInt8.toNat_inj.mp
      have small := byte.toNat_lt
      simp only [UInt8.toNat_ofNat']
      omega
    have high : (byte.toNat + 256 * unsigned bytes) / 256 = unsigned bytes := by
      have small := byte.toNat_lt
      omega
    rw [length_cons,unsignedBytes_succ,unsigned_cons,low,high,ih]

lemma unsigned_unsignedBytes (fits : value < 256 ^ count) : unsigned (unsignedBytes count value) = value := by
  induction count generalizing value with
  | zero =>
    simp only [pow_zero,Nat.lt_one_iff] at fits
    subst fits
    rfl
  | succ count ih =>
    have high := ih (Nat.div_lt_of_lt_mul (by rw [pow_succ'] at fits; exact fits))
    rw [unsignedBytes_succ,unsigned_cons,high,UInt8.toNat_ofNat']
    omega

lemma store_unsigned (bytes : List UInt8) : store bytes.length (unsigned bytes) = bytes := by
  have small : ((unsigned bytes : Int) % (256 ^ bytes.length : Nat)).toNat = unsigned bytes := by
    rw [← Int.natCast_mod,Int.toNat_natCast,mod_eq_of_lt (unsigned_lt bytes)]
  rw [store,small,unsignedBytes_unsigned]

lemma store_signed (bytes : List UInt8) : store bytes.length (signed bytes) = bytes := by
  unfold signed
  split
  · exact store_unsigned bytes
  · have wrapped : ((unsigned bytes : Int) - (256 ^ bytes.length : Nat)) % (256 ^ bytes.length : Nat)
        = (unsigned bytes : Int) % (256 ^ bytes.length : Nat) := by
      rw [Int.sub_emod_right]
    rw [store,wrapped]
    exact store_unsigned bytes

lemma signed_bounds (bytes : List UInt8) :
    -(256 ^ bytes.length : Nat) ≤ 2 * signed bytes ∧ 2 * signed bytes < (256 ^ bytes.length : Nat) := by
  have small := unsigned_lt bytes
  unfold signed
  split <;> omega

-- A value as binn holds it. Integers keep their value in any width.
inductive Value where
  | null
  | bool (flag : Bool)
  | int (number : Int)
  | float (bytes : List UInt8)
  | double (bytes : List UInt8)
  | text (bytes : List UInt8)
  | blob (bytes : List UInt8)
  | list (items : List Value)
  | object (fields : List (String × Value))

-- What binn makes of a value where another kind is asked: a number read from a
-- real or from a text, and the bytes of a container as it lies in its buffer.
structure Casts where
  int32 : Value → Option Int
  int64 : Value → Option Int
  bool : Value → Option Bool
  double : Value → Option (List UInt8)
  narrow : List UInt8 → List UInt8
  container : Value → List UInt8

def getInt32 (casts : Casts) : Value → Option Int
  | .int number => if -2^31 ≤ number ∧ number < 2^31 then some number else none
  | .bool flag => some (if flag then 1 else 0)
  | .null | .blob _ | .list _ | .object _ => none
  | value => casts.int32 value

def getInt64 (casts : Casts) : Value → Option Int
  | .int number => if -2^63 ≤ number ∧ number < 2^63 then some number else none
  | .bool flag => some (if flag then 1 else 0)
  | .null | .blob _ | .list _ | .object _ => none
  | value => casts.int64 value

def getBool (casts : Casts) : Value → Option Bool
  | .int number => if -2^63 ≤ number ∧ number < 2^63 then some (number ≠ 0) else none
  | .bool flag => some flag
  | .null | .blob _ | .list _ | .object _ => none
  | value => casts.bool value

def getDouble (casts : Casts) : Value → Option (List UInt8)
  | .double bytes => some bytes
  | .null | .blob _ | .list _ | .object _ => none
  | value => casts.double value

-- binn_ptr and binn_size: a number lies in the value itself and has no size.
def content (casts : Casts) : Value → List UInt8
  | .text bytes | .blob bytes => bytes
  | .list items => casts.container (.list items)
  | .object fields => casts.container (.object fields)
  | _ => []

-- binn_list_foreach does not enter what is not a list.
def foreach : Value → List Value
  | .list items => items
  | _ => []

def objectGetBlob (key : String) : Value → Option (List UInt8)
  | .object fields => match fields.lookup key with
    | some (.blob bytes) => some bytes
    | _ => none
  | _ => none

structure CString where
  bytes : List UInt8
  proper : 0 ∉ bytes
  deriving DecidableEq

lemma proper_a : (0 : UInt8) ∉ [97] := by decide

lemma proper_b : (0 : UInt8) ∉ [98] := by decide

lemma proper_t : (0 : UInt8) ∉ [116] := by decide

def CString.read (bytes : List UInt8) : CString where
  bytes := bytes.takeWhile fun byte => byte ≠ 0
  proper := by
    intro member
    simpa using List.mem_takeWhile_imp member

def CString.size (text : CString) : Nat := text.bytes.length + 1

def CString.terminated (text : CString) : List UInt8 := text.bytes ++ [0]

lemma CString.terminated_length (text : CString) : text.terminated.length = text.size := by simp [terminated,size]

lemma CString.read_terminated (text : CString) (behind : List UInt8) : CString.read (text.terminated ++ behind) = text := by
  have first : (text.terminated ++ behind).takeWhile (fun byte => byte ≠ 0) = text.bytes := by
    have ended : (text.terminated ++ behind) = text.bytes ++ 0::behind := by simp [terminated]
    have all : ∀ byte ∈ text.bytes, decide (byte ≠ 0) = true := fun byte member => decide_eq_true fun zero => text.proper (zero ▸ member)
    rw [ended,List.takeWhile_append_of_pos all,List.takeWhile_cons_of_neg (by simp),append_nil]
  obtain ⟨bytes,proper⟩ := text
  simp only [CString.read,first]

-- SearchForKey compares without case.
def sameKey (one two : String) : Bool := one.toList.map Char.toLower = two.toList.map Char.toLower

def objectGet (key : String) : Value → Option Value
  | .object fields => (fields.find? fun field => sameKey field.1 key).map Prod.snd
  | _ => none

-- The getters that copy_value leaves of each kind. A container passes for a list.
def getUint32 : Value → Option UInt32
  | .int number => if 0 ≤ number ∧ number < 2^32 then some (UInt32.ofNat number.toNat) else none
  | _ => none

def getUint16 : Value → Option UInt16
  | .int number => if 0 ≤ number ∧ number < 2^16 then some (UInt16.ofNat number.toNat) else none
  | _ => none

def getUint64 : Value → Option UInt64
  | .int number => if 0 ≤ number ∧ number < 2^64 then some (UInt64.ofNat number.toNat) else none
  | _ => none

def getBlob : Value → Option (List UInt8)
  | .blob bytes => some bytes
  | _ => none

def getStr : Value → Option CString
  | .text bytes => some (.read bytes)
  | _ => none

def getList : Value → Option Value
  | .list items => some (.list items)
  | .object fields => some (.object fields)
  | _ => none

def getObject : Value → Option Value := getList

def objectGetUint16 (key : String) (value : Value) : Option UInt16 := (objectGet key value).bind getUint16
def objectGetUint64 (key : String) (value : Value) : Option UInt64 := (objectGet key value).bind getUint64
def objectGetObject (key : String) (value : Value) : Option Value := (objectGet key value).bind getObject
def objectGetUint32 (key : String) (value : Value) : Option UInt32 := (objectGet key value).bind getUint32
def objectGetStr (key : String) (value : Value) : Option CString := (objectGet key value).bind getStr
def objectGetList (key : String) (value : Value) : Option Value := (objectGet key value).bind getList

lemma getUint32_toNat (number : UInt32) : getUint32 (.int number.toNat) = some number := by
  have small := number.toNat_lt
  rw [getUint32,if_pos ⟨by omega,by omega⟩,Int.toNat_natCast,UInt32.ofNat_toNat]

lemma getUint16_toNat (number : UInt16) : getUint16 (.int number.toNat) = some number := by
  have small := number.toNat_lt
  rw [getUint16,if_pos ⟨by omega,by omega⟩,Int.toNat_natCast,UInt16.ofNat_toNat]

lemma getUint64_toNat (number : UInt64) : getUint64 (.int number.toNat) = some number := by
  have small := number.toNat_lt
  rw [getUint64,if_pos ⟨by omega,by omega⟩,Int.toNat_natCast,UInt64.ofNat_toNat]

lemma getUint32_small {number : Nat} (small : number < 2^32) : getUint32 (.int number) = some (UInt32.ofNat number) := by
  have same := getUint32_toNat (UInt32.ofNat number)
  rwa [toNat_ofNat_of_lt' small] at same

lemma getUint64_small {number : Nat} (small : number < 2^64) : getUint64 (.int number) = some (UInt64.ofNat number) := by
  have same := getUint64_toNat (UInt64.ofNat number)
  rwa [UInt64.toNat_ofNat_of_lt' small] at same

lemma getStr_text (text : CString) : getStr (.text text.bytes) = some text := by
  have whole : text.bytes.takeWhile (fun byte => byte ≠ 0) = text.bytes := by
    rw [List.takeWhile_eq_self_iff]
    intro byte member
    exact decide_eq_true fun zero => text.proper (zero ▸ member)
  obtain ⟨bytes,proper⟩ := text
  simp only [getStr,CString.read,whole]

lemma objectGet_first (same : sameKey other key = true) :
    objectGet key (.object ((other,value)::rest)) = some value := by
  simp [objectGet,same]

lemma objectGet_next (apart : sameKey other key = false) :
    objectGet key (.object ((other,value)::rest)) = objectGet key (.object rest) := by
  simp [objectGet,apart]

lemma getInt32_int (casts : Casts) (number : Int) (low : -2^31 ≤ number) (high : number < 2^31) :
    getInt32 casts (.int number) = some number := if_pos ⟨low,high⟩

lemma getInt64_int (casts : Casts) (number : Int) (low : -2^63 ≤ number) (high : number < 2^63) :
    getInt64 casts (.int number) = some number := if_pos ⟨low,high⟩

lemma getInt64_large (casts : Casts) (number : Int) (high : 2^63 ≤ number) : getInt64 casts (.int number) = none :=
  if_neg fun bounds => absurd bounds.2 (by omega)

end MedvedDB.Binn
