import MedvedDB.FileTree

namespace MedvedDB.Mkdir

open FileTree (Tree slash dot components words resolve isDirectory components_congr components_plain start walk words_snoc)

def pathMax : Nat := 4096

-- The path grows at the end of a pool of pathMax + 2 bytes, which holds its NUL too.
def strPcat (path : Option (List UInt8)) (dir : List UInt8) : Option (List UInt8) :=
  path.bind fun text => if pathMax + 2 - (text.length + 1) < dir.length then none else some (text ++ dir)

structure Disk where
  tree : Tree
  passed : List (List UInt8)

section Source

variable (refuses : Tree → List UInt8 → Bool)

def mkdirImpl (disk : Disk) : Option (List UInt8) → Bool × Disk
  | none => (false,disk)
  | some path =>
    match resolve disk.tree path with
    | some place => (disk.tree.kind place = some .directory,disk)
    | none =>
      match FileTree.mkdir disk.tree (refuses disk.tree path) path with
      | .ok tree => (true,⟨tree,disk.passed ++ [path]⟩)
      | .error .exist => (true,⟨disk.tree,disk.passed ++ [path]⟩)
      | .error .other => (false,⟨disk.tree,disk.passed ++ [path]⟩)

-- The loop of mdv_mkdir and what follows it: dir is the text from the last slash on, or
-- from the beginning, and prevChar the character before the rest.
def scan (disk : Disk) (path : Option (List UInt8)) (dir : List UInt8) (prevChar : UInt8) : List UInt8 → Bool × Disk
  | [] =>
    if 1 < dir.length then mkdirImpl refuses disk (strPcat path dir) else (true,disk)
  | ch::rest =>
    if ch = slash then
      if prevChar = slash then scan disk path [ch] prevChar rest
      else
        let path := strPcat path dir
        let first := mkdirImpl refuses disk path
        if !first.1 then (false,first.2)
        else
          let second := mkdirImpl refuses first.2 path
          if !second.1 then (false,second.2)
          else scan second.2 path [ch] ch rest
    else scan disk path (dir ++ [ch]) ch rest

def mkdir (disk : Disk) (str : List UInt8) : Bool × Disk :=
  match str with
  | [] => (false,disk)
  | ch::rest =>
    if pathMax < str.length then (false,disk)
    else scan refuses disk (some (if ch ≠ slash ∧ ch ≠ dot then [dot] else [])) [ch] ch rest

end Source

structure PathString where
  bytes : List UInt8
  proper : 0 ∉ bytes
  some_ : bytes ≠ []
  short : bytes.length ≤ pathMax

-- The text leads to a directory on the way of the path, up to repeated slashes and to a
-- leading name for the directory where it begins.
def Leads (text path : List UInt8) : Prop :=
  (text.head? = some slash ↔ path.head? = some slash) ∧ (components text <+: components path ∨ components text <+: [dot]::components path)

section Steps

variable {refuses : Tree → List UInt8 → Bool} {disk : Disk}

variable {path text : List UInt8}

lemma strPcat_room {dir : List UInt8} (room : (text ++ dir).length ≤ pathMax + 1) : strPcat (some text) dir = some (text ++ dir) := by
  rw [length_append] at room
  exact if_neg (by omega)

lemma mkdirImpl_directory (some_ : path ≠ []) (made : (mkdirImpl refuses disk (some path)).1 = true) :
    isDirectory (mkdirImpl refuses disk (some path)).2.tree path = true := by
  unfold mkdirImpl at made ⊢
  dsimp only at made ⊢
  cases found : resolve disk.tree path with
  | some place =>
    rw [found] at made
    rw [isDirectory,found]
    exact made
  | none =>
    rw [found] at made
    cases call : FileTree.mkdir disk.tree (refuses disk.tree path) path with
    | ok tree => exact FileTree.mkdir_ok call
    | error errno =>
      cases errno with
      | exist => exact absurd found (FileTree.mkdir_exist some_ call)
      | other =>
        rw [call] at made
        contradiction

lemma mkdirImpl_passed (refuses : Tree → List UInt8 → Bool) (disk : Disk) (path : Option (List UInt8)) :
    (mkdirImpl refuses disk path).2.passed = disk.passed ∨
      ∃ text, path = some text ∧ (mkdirImpl refuses disk path).2.passed = disk.passed ++ [text] := by
  cases path with
  | none => exact .inl rfl
  | some path =>
    unfold mkdirImpl
    dsimp only
    split
    · exact .inl rfl
    · refine .inr ⟨path,rfl,?_⟩
      split <;> rfl

lemma mkdirImpl_new (absent : resolve disk.tree path = none) : path ∈ (mkdirImpl refuses disk (some path)).2.passed := by
  have last : (mkdirImpl refuses disk (some path)).2.passed = disk.passed ++ [path] := by
    unfold mkdirImpl
    dsimp only
    rw [absent]
    dsimp only
    split <;> rfl
  rw [last]
  exact mem_append_right _ (mem_singleton_self path)

lemma mkdirImpl_mono (path : Option (List UInt8)) : disk.passed ⊆ (mkdirImpl refuses disk path).2.passed := by
  rcases mkdirImpl_passed refuses disk path with same | ⟨text,_,more⟩
  · rw [same]
    exact List.Subset.refl _
  · rw [more]
    exact List.subset_append_left _ _

lemma mkdirImpl_from (passed : text ∈ (mkdirImpl refuses disk (some path)).2.passed) : text ∈ disk.passed ∨ text = path := by
  rcases mkdirImpl_passed refuses disk (some path) with same | ⟨other,named,more⟩
  · exact .inl (same ▸ passed)
  · cases named
    rw [more,mem_append,mem_singleton] at passed
    exact passed

lemma scan_mono (path : Option (List UInt8)) (dir : List UInt8) (prevChar : UInt8) (rest : List UInt8) :
    disk.passed ⊆ (scan refuses disk path dir prevChar rest).2.passed := by
  induction rest generalizing disk path dir prevChar with
  | nil =>
    unfold scan
    split_ifs
    · exact mkdirImpl_mono _
    · exact List.Subset.refl _
  | cons ch rest ih =>
    unfold scan
    dsimp only
    split_ifs
    · exact ih path [ch] prevChar
    · exact mkdirImpl_mono _
    · exact List.Subset.trans (mkdirImpl_mono _) (mkdirImpl_mono _)
    · exact List.Subset.trans (List.Subset.trans (mkdirImpl_mono _) (mkdirImpl_mono _)) (ih _ [ch] ch)
    · exact ih path (dir ++ [ch]) ch

end Steps

section Followed

variable {refuses : Tree → List UInt8 → Bool} {disk : Disk} {str consumed done dir : List UInt8} {prevChar : UInt8}

-- What was read of a string that begins with a slash or a dot: the path made so far and the
-- text since the last slash read as all of it does, and the path is a directory.
structure Follows (disk : Disk) (str consumed done dir : List UInt8) (prevChar : UInt8) : Prop where
  begins : str.head? = some slash ∨ str.head? = some dot
  same : words (done ++ dir) = words consumed
  head : (done ++ dir).head? = str.head?
  short : (done ++ dir).length ≤ consumed.length
  some_ : consumed ≠ []
  afterSlash : prevChar = slash → dir = [slash] ∧ (done = [] ∨ isDirectory disk.tree done = true)
  afterChar : prevChar ≠ slash → (1 < dir.length ∨ done = [] ∧ dir = [prevChar] ∧ consumed = [prevChar])

lemma Follows.text_some (follows : Follows disk str consumed done dir prevChar) : done ++ dir ≠ [] := by
  have head := follows.head
  rintro empty
  rw [empty] at head
  rcases follows.begins with begins | begins <;> rw [begins] at head <;> contradiction

lemma Follows.leads (follows : Follows disk str consumed done dir prevChar) {rest : List UInt8} (all : str = consumed ++ rest)
    (boundary : rest = [] ∨ rest.head? = some slash) : Leads (done ++ dir) str := by
  refine ⟨by rw [follows.head],.inl ?_⟩
  rw [components_congr follows.same,all]
  rcases boundary with rfl | cut
  · rw [append_nil]
  · obtain ⟨more,rfl⟩ := List.head?_eq_some_iff.mp cut
    rw [FileTree.components_append_slash]
    exact List.prefix_append _ _

lemma Follows.plain {ch : UInt8} (follows : Follows disk str consumed done dir prevChar) (apart : ch ≠ slash) :
    Follows disk str (consumed ++ [ch]) done (dir ++ [ch]) ch where
  begins := follows.begins
  same := by rw [← append_assoc,words_snoc,words_snoc,follows.same]
  head := by rw [← append_assoc,List.head?_append_of_ne_nil _ follows.text_some,follows.head]
  short := by
    have short := follows.short
    simp only [length_append,length_singleton] at short ⊢
    omega
  some_ := by simp
  afterSlash := fun is => absurd is apart
  afterChar := by
    intro _
    left
    have some_ : 0 < dir.length := by
      by_cases before : prevChar = slash
      · rw [(follows.afterSlash before).1]
        exact Nat.one_pos
      · rcases follows.afterChar before with long | ⟨_,one,_⟩
        · omega
        · rw [one]
          exact Nat.one_pos
    rw [length_append,length_singleton]
    omega

lemma Follows.repeated (follows : Follows disk str consumed done dir slash) : Follows disk str (consumed ++ [slash]) done [slash] slash := by
  obtain ⟨one,made⟩ := follows.afterSlash rfl
  subst one
  refine ⟨follows.begins,?_,follows.head,?_,by simp,fun _ => ⟨rfl,made⟩,fun apart => absurd rfl apart⟩
  · have same := follows.same
    rw [words_snoc] at same
    rw [words_snoc,words_snoc,← same]
    simp [FileTree.wordStep]
  · exact le_trans follows.short (List.sublist_append_left consumed [slash]).length_le

lemma Follows.made {after : Disk} (follows : Follows disk str consumed done dir prevChar) (directory : isDirectory after.tree (done ++ dir) = true) :
    Follows after str (consumed ++ [slash]) (done ++ dir) [slash] slash where
  begins := follows.begins
  same := by rw [words_snoc,words_snoc,follows.same]
  head := by rw [List.head?_append_of_ne_nil _ follows.text_some,follows.head]
  short := by
    have short := follows.short
    simp only [length_append,length_singleton] at short ⊢
    omega
  some_ := by simp
  afterSlash := fun _ => ⟨rfl,.inr directory⟩
  afterChar := fun apart => absurd rfl apart

lemma Follows.finished (follows : Follows disk str str done dir prevChar) (nothing : ¬1 < dir.length) : isDirectory disk.tree str = true := by
  by_cases before : prevChar = slash
  · obtain ⟨rfl,made⟩ := follows.afterSlash before
    have same := components_congr follows.same
    rw [FileTree.components_slash] at same
    rcases made with rfl | made
    · have root : str.head? = some slash := follows.head.symm
      rw [isDirectory,resolve,if_neg follows.some_,← same,start,if_pos root]
      exact decide_eq_true disk.tree.root
    · have some_ : done ≠ [] := by
        rintro rfl
        exact absurd made (by simp [isDirectory,resolve])
      rw [← FileTree.isDirectory_congr disk.tree same ((List.head?_append_of_ne_nil _ some_).symm.trans follows.head)]
      exact made
  · rcases follows.afterChar before with long | ⟨_,_,one⟩
    · exact absurd long nothing
    · have here : prevChar = dot := by
        have begins := follows.begins
        rw [one] at begins
        rcases begins with begins | begins
        · exact absurd (Option.some.inj begins) before
        · exact Option.some.inj begins
      rw [one,here]
      have stays : resolve disk.tree [dot] = some disk.tree.cwd := by
        have names : components [dot] = [[dot]] := by decide
        rw [resolve,if_neg (cons_ne_nil _ _),names]
        simp only [walk]
        rw [if_neg (by rw [start]; simpa [slash,dot] using disk.tree.inside)]
        rfl
      rw [isDirectory,stays]
      exact decide_eq_true disk.tree.inside

structure Right (disk : Disk) (str : List UInt8) (result : Bool × Disk) : Prop where
  made : result.1 = true → isDirectory result.2.tree str = true
  passed : ∀ text ∈ result.2.passed, text ∈ disk.passed ∨ Leads text str

lemma mkdirImpl_leads {path : List UInt8} (leads : Leads path str) (text : List UInt8) (passed : text ∈ (mkdirImpl refuses disk (some path)).2.passed) :
    text ∈ disk.passed ∨ Leads text str := by
  rcases mkdirImpl_from passed with old | rfl
  · exact .inl old
  · exact .inr leads

lemma Right.after {first : Disk} {result : Bool × Disk} (step : ∀ text ∈ first.passed, text ∈ disk.passed ∨ Leads text str) (right : Right first str result) :
    Right disk str result :=
  ⟨right.made,fun text passed => (right.passed text passed).elim (step text) .inr⟩

lemma scan_right (rest : List UInt8) (follows : Follows disk str consumed done dir prevChar) (all : str = consumed ++ rest) (fits : str.length ≤ pathMax) :
    Right disk str (scan refuses disk (some done) dir prevChar rest) := by
  induction rest generalizing disk consumed done dir prevChar with
  | nil =>
    rw [append_nil] at all
    subst all
    rw [scan]
    split_ifs with more
    · rw [strPcat_room (le_trans follows.short (by omega))]
      refine ⟨fun success => ?_,mkdirImpl_leads (follows.leads (append_nil _).symm (.inl rfl))⟩
      rw [← FileTree.isDirectory_congr _ (components_congr follows.same) follows.head]
      exact mkdirImpl_directory follows.text_some success
    · exact ⟨fun _ => follows.finished more,fun text passed => .inl passed⟩
  | cons ch rest ih =>
    have next : str = consumed ++ [ch] ++ rest := by rw [all,append_assoc,singleton_append]
    rw [scan]
    by_cases cut : ch = slash
    · subst cut
      rw [if_pos rfl]
      by_cases before : prevChar = slash
      · subst before
        rw [if_pos rfl]
        exact ih follows.repeated next
      · have short : (done ++ dir).length ≤ pathMax + 1 := by
          have shorter := follows.short
          rw [all,length_append] at fits
          omega
        have leads : ∀ disk, ∀ text ∈ (mkdirImpl refuses disk (some (done ++ dir))).2.passed, text ∈ disk.passed ∨ Leads text str :=
          fun disk => mkdirImpl_leads (follows.leads all (.inr rfl))
        rw [if_neg before,strPcat_room short]
        dsimp only
        split_ifs with failed again
        · exact ⟨nofun,leads disk⟩
        · exact Right.after (leads disk) ⟨nofun,leads _⟩
        · refine Right.after (leads disk) (Right.after (leads _) ?_)
          exact ih (follows.made (mkdirImpl_directory follows.text_some (by simpa using again))) next
    · rw [if_neg cut]
      exact ih (follows.plain cut) next

end Followed

section Misplaced

variable {refuses : Tree → List UInt8 → Bool} {disk : Disk} {dir : List UInt8} {prevChar : UInt8}

def bare : Tree where
  kind := fun place => if place = [] then some .directory else none
  cwd := []
  root := rfl
  parents := by simp
  inside := rfl

lemma bare_resolve {text : List UInt8} (some_ : text ≠ []) (plain : slash ∉ text) (here : text ≠ [dot]) (above : text ≠ [dot,dot]) : resolve bare text = none := by
  have relative : text.head? ≠ some slash := fun first => plain (List.mem_of_head? first)
  rw [resolve,if_neg some_,components_plain some_ plain,start,if_neg relative]
  simp [walk,bare,here,above]

-- The dot is put in front of the first name without a slash between them.
lemma mkdirImpl_misplaced (onBare : disk.tree = bare) (plain : slash ∉ dir) (first : dir.head? ≠ some dot) (some_ : dir ≠ []) :
    dot::dir ∈ (mkdirImpl refuses disk (some (dot::dir))).2.passed := by
  apply mkdirImpl_new
  rw [onBare]
  apply bare_resolve (cons_ne_nil _ _)
  · rw [mem_cons,not_or]
    exact ⟨by decide,plain⟩
  · exact fun same => some_ (List.cons.inj same).2
  · exact fun same => first (congrArg List.head? (List.cons.inj same).2)

lemma scan_misplaced (rest : List UInt8) (onBare : disk.tree = bare) (plain : slash ∉ dir) (before : prevChar ≠ slash) (first : dir.head? ≠ some dot)
    (some_ : dir ≠ []) (more : 1 < dir.length ∨ rest ≠ []) (fits : (dir ++ rest).length ≤ pathMax) :
    dot::(dir ++ rest.takeWhile (· ≠ slash)) ∈ (scan refuses disk (some [dot]) dir prevChar rest).2.passed := by
  have room : strPcat (some [dot]) dir = some (dot::dir) := by
    apply strPcat_room
    rw [length_append] at fits
    rw [length_append,length_singleton]
    omega
  induction rest generalizing dir prevChar with
  | nil =>
    have long : 1 < dir.length := more.resolve_right fun absent => absent rfl
    rw [scan,if_pos long,room,List.takeWhile_nil,append_nil]
    exact mkdirImpl_misplaced onBare plain first some_
  | cons ch rest ih =>
    rw [scan]
    by_cases cut : ch = slash
    · have misplaced : dot::dir ∈ (mkdirImpl refuses disk (some (dot::dir))).2.passed := mkdirImpl_misplaced onBare plain first some_
      rw [if_pos cut,if_neg before,room,List.takeWhile_cons_of_neg (by simpa using cut),append_nil]
      dsimp only
      split_ifs
      · exact misplaced
      · exact mkdirImpl_mono _ misplaced
      · exact scan_mono _ _ _ _ (mkdirImpl_mono _ misplaced)
    · have longer : dir ++ ch::rest = dir ++ [ch] ++ rest := by rw [append_assoc,singleton_append]
      have plainer : slash ∉ dir ++ [ch] := by
        rw [mem_append,mem_singleton,not_or]
        exact ⟨plain,Ne.symm cut⟩
      have same : (dir ++ [ch]).head? ≠ some dot := by rwa [List.head?_append_of_ne_nil _ some_]
      have long : 1 < (dir ++ [ch]).length := by
        have length := List.length_pos_iff.mpr some_
        rw [length_append,length_singleton]
        omega
      rw [longer] at fits
      rw [if_neg cut,List.takeWhile_cons_of_pos (by simpa using cut),List.append_cons dir ch (rest.takeWhile _)]
      refine ih plainer cut same (by simp) (.inl long) fits (strPcat_room ?_)
      rw [length_append] at fits
      rw [length_append,length_singleton]
      omega

lemma misplaced_leads {word rest : List UInt8} (some_ : word ≠ []) (plain : slash ∉ word) (boundary : rest = [] ∨ rest.head? = some slash) :
    ¬Leads (dot::word) (word ++ rest) := by
  have front : [word] <+: components (word ++ rest) := by
    rw [← components_plain some_ plain]
    rcases boundary with rfl | cut
    · rw [append_nil]
    · obtain ⟨more,rfl⟩ := List.head?_eq_some_iff.mp cut
      rw [FileTree.components_append_slash]
      exact List.prefix_append _ _
  have dotted : components (dot::word) = [dot::word] := by
    apply components_plain (cons_ne_nil _ _)
    rw [mem_cons,not_or]
    exact ⟨by decide,plain⟩
  obtain ⟨others,names⟩ := front
  rintro ⟨_,leads⟩
  rw [dotted,← names] at leads
  rcases leads with leads | leads
  · exact List.cons_ne_self _ _ (List.cons_prefix_cons.mp leads).1
  · exact some_ (List.cons.inj (List.cons_prefix_cons.mp leads).1).2

end Misplaced

def plainName : PathString := ⟨[97,98],by decide,by decide,by decide⟩

end MedvedDB.Mkdir
