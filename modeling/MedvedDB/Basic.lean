import MedvedDB.Prelude

namespace MedvedDB

inductive Errno where
  | ok | failed | noMem | notFound | eexist | invalidType
  deriving DecidableEq, Repr

def localId : UInt32 := 0

def littleEndian : Nat → Nat → List Nat
  | 0,_ => []
  | count+1,value => value % 256::littleEndian count (value / 256)

lemma littleEndian_length (count value : Nat) : (littleEndian count value).length = count := by
  induction count generalizing value with
  | zero => rfl
  | succ count ih => simp [littleEndian,ih]

lemma littleEndian_injective (first : one < 256 ^ count) (second : two < 256 ^ count)
    (same : littleEndian count one = littleEndian count two) : one = two := by
  induction count generalizing one two with
  | zero => simp at first second; omega
  | succ count ih =>
    simp only [littleEndian,List.cons.injEq] at same
    have high := ih (Nat.div_lt_of_lt_mul (by rw [pow_succ'] at first; exact first))
      (Nat.div_lt_of_lt_mul (by rw [pow_succ'] at second; exact second)) same.2
    omega

structure ObjId where
  node : UInt32
  id : UInt64
  deriving DecidableEq, Repr

namespace ObjId

def keyBytes (objid : ObjId) : List Nat :=
  littleEndian 4 objid.node.toNat ++ littleEndian 8 objid.id.toNat

lemma keyBytes_injective : Function.Injective keyBytes := by
  intro one two same
  obtain ⟨nodes,ids⟩ := append_inj same (by simp only [littleEndian_length])
  have node := littleEndian_injective (one.node.toNat_lt.trans_eq (by norm_num))
    (two.node.toNat_lt.trans_eq (by norm_num)) nodes
  have id := littleEndian_injective (one.id.toNat_lt.trans_eq (by norm_num))
    (two.id.toNat_lt.trans_eq (by norm_num)) ids
  cases one
  cases two
  simp only [UInt32.toNat_inj] at node
  simp only [UInt64.toNat_inj] at id
  rw [node,id]

-- Keys of equal length are compared byte by byte in memory order.
instance : LinearOrder ObjId := LinearOrder.lift' keyBytes keyBytes_injective

example : (⟨0,256⟩ : ObjId) < ⟨0,1⟩ := by decide

end ObjId
end MedvedDB
