import MedvedDB.Prelude

namespace MedvedDB

abbrev Memory := Nat → UInt8

namespace Memory

def read (memory : Memory) (address count : Nat) : List UInt8 := (range' address count).map memory

def write (memory : Memory) (address : Nat) (bytes : List UInt8) : Memory :=
  fun place => if address ≤ place then (bytes[place - address]?).getD (memory place) else memory place

variable {memory : Memory} {address count : Nat} {bytes : List UInt8}

@[simp]
lemma read_length (memory : Memory) (address count : Nat) : (read memory address count).length = count := by
  simp [read]

lemma read_get (inside : index < count) : (read memory address count)[index]? = some (memory (address + index)) := by
  rw [read,List.getElem?_map,List.getElem?_range' inside,map_some,Nat.one_mul]

lemma read_add (memory : Memory) (address one two : Nat) :
    read memory address (one + two) = read memory address one ++ read memory (address + one) two := by
  rw [read,read,read,← map_append,List.range'_append_1]

lemma read_congr (same : ∀ place, address ≤ place → place < address + count → memory place = other place) :
    read memory address count = read other address count := by
  apply map_congr_left
  intro place member
  obtain ⟨low,high⟩ := List.mem_range'_1.mp member
  exact same place low high

lemma write_at (inside : index < bytes.length) : write memory address bytes (address + index) = bytes[index] := by
  rw [write,if_pos (Nat.le_add_right _ _),Nat.add_sub_cancel_left,getElem?_eq_getElem inside,getD_some]

lemma write_apart (apart : place < address ∨ address + bytes.length ≤ place) : write memory address bytes place = memory place := by
  rw [write]
  split
  · rw [List.getElem?_eq_none (by omega),getD_none]
  · rfl

lemma read_write_same (memory : Memory) (address : Nat) (bytes : List UInt8) : read (write memory address bytes) address bytes.length = bytes := by
  apply List.ext_getElem (read_length _ _ _)
  intro index left right
  have found : (read (write memory address bytes) address bytes.length)[index]? = some (write memory address bytes (address + index)) := read_get right
  rw [getElem?_eq_getElem left,write_at right,some_inj] at found
  exact found

lemma read_write_apart (apart : place + size ≤ address ∨ address + bytes.length ≤ place) :
    read (write memory address bytes) place size = read memory place size := by
  apply read_congr
  intro index low high
  exact write_apart (by omega)

def writeAll (memory : Memory) (writes : List (Nat × List UInt8)) : Memory := writes.foldl (fun memory entry => memory.write entry.1 entry.2) memory

lemma read_writeAll_apart (memory : Memory)
    (apart : ∀ entry ∈ writes, place + size ≤ entry.1 ∨ entry.1 + entry.2.length ≤ place) :
    read (writeAll memory writes) place size = read memory place size := by
  induction writes generalizing memory with
  | nil => rfl
  | cons entry rest ih =>
    have later := ih (memory.write entry.1 entry.2) fun other member => apart other (mem_cons_of_mem _ member)
    exact later.trans (read_write_apart (apart entry mem_cons_self))

lemma read_written (before after : List (Nat × List UInt8)) (done : writeAll memory (before ++ (address,bytes)::after) = now)
    (apart : ∀ entry ∈ after, address + bytes.length ≤ entry.1 ∨ entry.1 + entry.2.length ≤ address) : read now address bytes.length = bytes := by
  have split : now = writeAll ((writeAll memory before).write address bytes) after := by
    rw [← done,writeAll,foldl_append,foldl_cons]
    rfl
  rw [split,read_writeAll_apart _ apart,read_write_same]

def At (memory : Memory) (address : Nat) (bytes : List UInt8) : Prop := read memory address bytes.length = bytes

lemma at_append : At memory address (front ++ back) ↔ At memory address front ∧ At memory (address + front.length) back := by
  rw [At,length_append,read_add]
  constructor
  · intro whole
    exact append_inj whole (read_length _ _ _)
  · rintro ⟨first,second⟩
    rw [first,second]

lemma at_cons : At memory address (byte::bytes) ↔ memory address = byte ∧ At memory (address + 1) bytes := by
  rw [← singleton_append,at_append]
  simp [At,read]

lemma at_get (stands : At memory address bytes) (inside : index < bytes.length) : bytes[index]? = some (memory (address + index)) := by
  have here : (read memory address bytes.length)[index]? = some (memory (address + index)) := read_get inside
  rw [At] at stands
  rwa [stands] at here

lemma at_take (stands : At memory address bytes) (few : count ≤ bytes.length) : read memory address count = bytes.take count := by
  have whole : read memory address (count + (bytes.length - count)) = bytes := by
    rw [Nat.add_sub_cancel' few]
    exact stands
  rw [read_add] at whole
  rw [← whole]
  exact (take_left' (read_length _ _ _)).symm

lemma at_congr (same : ∀ place, address ≤ place → memory place = other place) (stands : At memory address bytes) :
    At other address bytes := by
  rw [At,← read_congr fun place low _ => same place low]
  exact stands

end Memory
end MedvedDB
