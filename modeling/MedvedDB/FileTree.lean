import MedvedDB.Prelude

namespace MedvedDB.FileTree

abbrev Name := List UInt8

def slash : UInt8 := 47
def dot : UInt8 := 46

inductive Kind where
  | directory | other
  deriving DecidableEq, Repr

-- The files below a root, each by the names that lead to it. Every file lies in a
-- directory, and the working directory is one.
structure Tree where
  kind : List Name → Option Kind
  cwd : List Name
  root : kind [] = some .directory
  parents : ∀ place name, kind (place ++ [name]) ≠ none → kind place = some .directory
  inside : kind cwd = some .directory

def wordStep (state : List Name × Name) (char : UInt8) : List Name × Name :=
  if char = slash then (if state.2 = [] then state.1 else state.1 ++ [state.2],[]) else (state.1,state.2 ++ [char])

def words (text : List UInt8) : List Name × Name := text.foldl wordStep ([],[])

-- The names of a path. Slashes that follow each other are one.
def components (text : List UInt8) : List Name := if (words text).2 = [] then (words text).1 else (words text).1 ++ [(words text).2]

def walk (tree : Tree) : List Name → List Name → Option (List Name)
  | place,[] => some place
  | place,name::rest =>
    if tree.kind place ≠ some .directory then none
    else if name = [dot] then walk tree place rest
    else if name = [dot,dot] then walk tree place.dropLast rest
    else if tree.kind (place ++ [name]) = none then none
    else walk tree (place ++ [name]) rest

def start (tree : Tree) (text : List UInt8) : List Name := if text.head? = some slash then [] else tree.cwd

def resolve (tree : Tree) (text : List UInt8) : Option (List Name) :=
  if text = [] then none else walk tree (start tree text) (components text)

def isDirectory (tree : Tree) (text : List UInt8) : Bool := (resolve tree text).any fun place => tree.kind place = some .directory

def add (tree : Tree) (place : List Name) (name : Name) (directory : tree.kind place = some .directory) : Tree where
  kind := update tree.kind (place ++ [name]) (some .directory)
  cwd := tree.cwd
  root := by
    rw [update_of_ne (by simp)]
    exact tree.root
  parents := by
    intro other last present
    by_cases same : other ++ [last] = place ++ [name]
    · obtain ⟨rfl,_⟩ := List.append_inj' same rfl
      rw [update_of_ne (by simp)]
      exact directory
    · rw [update_of_ne same] at present
      by_cases new : other = place ++ [name]
      · rw [new,update_self]
      · rw [update_of_ne new]
        exact tree.parents other last present
  inside := by
    by_cases new : tree.cwd = place ++ [name]
    · rw [new,update_self]
    · rw [update_of_ne new]
      exact tree.inside

inductive Errno where
  | exist | other
  deriving DecidableEq, Repr

-- mkdir(2). A directory that could be made may be refused all the same.
def mkdir (tree : Tree) (refused : Bool) (text : List UInt8) : Except Errno Tree :=
  match (components text).getLast? with
  | none => .error (if text = [] then .other else .exist)
  | some name =>
    match walk tree (start tree text) (components text).dropLast with
    | none => .error .other
    | some place =>
      if directory : tree.kind place = some .directory then
        if name = [dot] ∨ name = [dot,dot] ∨ tree.kind (place ++ [name]) ≠ none then .error .exist
        else if refused then .error .other
        else .ok (add tree place name directory)
      else .error .other

section Components

lemma words_append (text more : List UInt8) : words (text ++ more) = more.foldl wordStep (words text) := foldl_append

lemma words_snoc (text : List UInt8) (char : UInt8) : words (text ++ [char]) = wordStep (words text) char := words_append text [char]

lemma components_congr {one two : List UInt8} (same : words one = words two) : components one = components two := by
  rw [components,components,same]

lemma components_slash (text : List UInt8) : components (text ++ [slash]) = components text := by
  rw [components,components,words_snoc,wordStep,if_pos rfl]
  simp

lemma foldl_front (text : List UInt8) (names : List Name) (word : Name) :
    text.foldl wordStep (names,word) = (names ++ (text.foldl wordStep ([],word)).1,(text.foldl wordStep ([],word)).2) := by
  induction text generalizing names word with
  | nil => simp
  | cons char rest ih =>
    rw [foldl_cons,foldl_cons]
    by_cases end_ : char = slash
    · by_cases empty : word = []
      · simp only [wordStep,if_pos end_,if_pos empty]
        exact ih names []
      · simp only [wordStep,if_pos end_,if_neg empty,nil_append]
        rw [ih (names ++ [word]),ih [word]]
        simp
    · simp only [wordStep,if_neg end_]
      exact ih names (word ++ [char])

lemma components_append_slash (text more : List UInt8) : components (text ++ slash::more) = components text ++ components more := by
  have parts : words (text ++ slash::more) = (components text ++ (words more).1,(words more).2) := by
    rw [words_append,foldl_cons,wordStep,if_pos rfl,foldl_front]
    rfl
  unfold components at parts ⊢
  rw [parts]
  dsimp only
  split <;> simp

lemma components_plain {text : List UInt8} (some_ : text ≠ []) (plain : slash ∉ text) : components text = [text] := by
  have read : words text = ([],text) := by
    clear some_
    induction text using reverseRecOn with
    | nil => rfl
    | append_singleton text char ih =>
      rw [mem_append,not_or,mem_singleton] at plain
      rw [words_snoc,ih plain.1,wordStep,if_neg (Ne.symm plain.2)]
  rw [components,read,if_neg some_,nil_append]

end Components

section Walks

lemma walk_append (tree : Tree) (place one two : List Name) : walk tree place (one ++ two) = (walk tree place one).bind (walk tree · two) := by
  induction one generalizing place with
  | nil => rfl
  | cons name rest ih =>
    simp only [cons_append,walk]
    split_ifs
    · rfl
    · exact ih place
    · exact ih place.dropLast
    · rfl
    · exact ih (place ++ [name])

variable {tree after : Tree} {text one two : List UInt8} {refused : Bool}

lemma walk_grows (grows : ∀ place kind, tree.kind place = some kind → after.kind place = some kind)
    {place names reached : List Name} (found : walk tree place names = some reached) : walk after place names = some reached := by
  induction names generalizing place with
  | nil => exact found
  | cons name rest ih =>
    simp only [walk] at found ⊢
    split_ifs at found with missing here above absent
    · rw [if_neg (not_not.mpr (grows place _ (not_not.mp missing))),if_pos here]
      exact ih found
    · rw [if_neg (not_not.mpr (grows place _ (not_not.mp missing))),if_neg here,if_pos above]
      exact ih found
    · obtain ⟨kind,present⟩ := Option.ne_none_iff_exists'.mp absent
      rw [if_neg (not_not.mpr (grows place _ (not_not.mp missing))),if_neg here,if_neg above,
        if_neg (Option.ne_none_iff_exists'.mpr ⟨kind,grows _ _ present⟩)]
      exact ih found

lemma resolve_congr (tree : Tree) (same : components one = components two) (head : one.head? = two.head?) : resolve tree one = resolve tree two := by
  have empty : one = [] ↔ two = [] := by rw [← List.head?_eq_none_iff,← List.head?_eq_none_iff,head]
  unfold resolve start
  rw [same,head]
  simp only [empty]

lemma isDirectory_congr (tree : Tree) (same : components one = components two) (head : one.head? = two.head?) :
    isDirectory tree one = isDirectory tree two := by
  rw [isDirectory,isDirectory,resolve_congr tree same head]

lemma add_grows (tree : Tree) (place : List Name) (name : Name) (directory : tree.kind place = some .directory) (fresh : tree.kind (place ++ [name]) = none)
    (other : List Name) (kind : Kind) (present : tree.kind other = some kind) : (add tree place name directory).kind other = some kind := by
  have apart : other ≠ place ++ [name] := by
    intro same
    rw [same,fresh] at present
    contradiction
  exact (update_of_ne apart _ _).trans present

lemma components_split {name : Name} (last : (components text).getLast? = some name) :
    text ≠ [] ∧ components text = (components text).dropLast ++ [name] := by
  constructor
  · rintro rfl
    contradiction
  · exact (List.dropLast_append_getLast? name last).symm

lemma mkdir_ok (made : mkdir tree refused text = .ok after) : isDirectory after text = true := by
  unfold mkdir at made
  split at made
  · contradiction
  · rename_i name last
    obtain ⟨some_,names⟩ := components_split last
    split at made
    · contradiction
    · rename_i place found
      split_ifs at made with directory taken
      rw [not_or,not_or,not_not] at taken
      cases made
      have grows := add_grows tree place name directory taken.2.2
      have there : (add tree place name directory).kind (place ++ [name]) = some .directory := update_self ..
      have reached : walk (add tree place name directory) place [name] = some (place ++ [name]) := by
        simp only [walk,grows _ _ directory,there,if_neg taken.1,if_neg taken.2.1]
        simp
      have resolved : resolve (add tree place name directory) text = some (place ++ [name]) := by
        have walked : walk (add tree place name directory) (start (add tree place name directory) text) (components text).dropLast = some place :=
          walk_grows grows found
        rw [resolve,if_neg some_,names,walk_append,walked]
        exact reached
      rw [isDirectory,resolved,Option.any_some,there]
      rfl

lemma mkdir_exist (some_ : text ≠ []) (taken : mkdir tree refused text = .error .exist) : resolve tree text ≠ none := by
  unfold mkdir at taken
  rw [resolve,if_neg some_]
  split at taken
  · rename_i last
    rw [List.getLast?_eq_none_iff.mp last]
    exact some_ne_none _
  · rename_i name last
    obtain ⟨_,names⟩ := components_split last
    split at taken
    · cases taken
    · rename_i place found
      split_ifs at taken with directory exist_
      · rw [names,walk_append,found,bind_some]
        simp only [walk,directory]
        rcases exist_ with here | above | present
        · simp [here]
        · simp [above]
        · rw [if_neg (by simp),if_neg present]
          split_ifs <;> exact some_ne_none _
      · cases taken
      · cases taken

end Walks

end MedvedDB.FileTree
