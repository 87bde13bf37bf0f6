import MedvedDB.Binn

open MedvedDB.Binn
namespace MedvedDB

structure Uuid where
  low : UInt64
  high : UInt64
  deriving DecidableEq, Repr

namespace Uuid

def words (uuid : Uuid) : Nat ×ₗ Nat := toLex (uuid.low.toNat,uuid.high.toNat)

lemma words_injective : Function.Injective words := by
  intro one two same
  obtain ⟨low,high⟩ := Prod.mk.inj (toLex.injective same)
  cases one
  cases two
  rw [Uuid.mk.injEq]
  exact ⟨UInt64.toNat_inj.mp low,UInt64.toNat_inj.mp high⟩

-- mdv_uuid_cmp: the first word, and where it is the same the second.
instance : LinearOrder Uuid := LinearOrder.lift' words words_injective

def bytes (uuid : Uuid) : List UInt8 := unsignedBytes 8 uuid.low.toNat ++ unsignedBytes 8 uuid.high.toNat

lemma bytes_length (uuid : Uuid) : uuid.bytes.length = 16 := by simp [bytes,unsignedBytes_length]

def unbinn (first second : String) (obj : Value) : Option Uuid :=
  match objectGetUint64 first obj,objectGetUint64 second obj with
  | some low,some high => some ⟨low,high⟩
  | _,_ => none

lemma unbinn_some (low : objectGet first obj = some (.int uuid.low.toNat))
    (high : objectGet second obj = some (.int uuid.high.toNat)) : unbinn first second obj = some uuid := by
  rw [unbinn,objectGetUint64,objectGetUint64,low,high,bind_some,bind_some,getUint64_toNat,getUint64_toNat]

end Uuid
end MedvedDB
