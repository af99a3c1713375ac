import Mathlib

/-! Trees of directories, files and symbolic links, and the paths that lead through them. A
location is the list of the names to it, the innermost first, so that the root is empty. -/

namespace EChainLib.FileTree

abbrev Name := List UInt8

abbrev Location := List Name

def slash : UInt8 := 0x2f

def dot : Name := [0x2e]

def dotDot : Name := [0x2e, 0x2e]

structure Proper (name : Name) : Prop where
  filled : name ≠ []
  not_dot : name ≠ dot
  not_dotDot : name ≠ dotDot
  no_slash : slash ∉ name

instance (name : Name) : Decidable (Proper name) :=
  decidable_of_iff (name ≠ [] ∧ name ≠ dot ∧ name ≠ dotDot ∧ slash ∉ name)
    ⟨fun ⟨filled, not_dot, not_dotDot, no_slash⟩ => ⟨filled, not_dot, not_dotDot, no_slash⟩,
      fun ⟨filled, not_dot, not_dotDot, no_slash⟩ => ⟨filled, not_dot, not_dotDot, no_slash⟩⟩

inductive Kind where
  | directory
  | file
  | link (target : List UInt8)
  deriving DecidableEq

/-- The absolute path of a location. -/
def pathText (loc : Location) : List UInt8 :=
  [slash].intercalate ([] :: if loc = [] then [[]] else loc.reverse)

/-- What is at each location, where only a directory has something in it. -/
structure DirTree where
  kind : Location → Option Kind
  located : List Location
  finite : ∀ loc, kind loc ≠ none → loc ∈ located
  root : kind [] = some .directory
  closed : ∀ name loc, kind (name :: loc) ≠ none → kind loc = some .directory
  proper : ∀ name loc, kind (name :: loc) ≠ none → Proper name

/-- What a list of entries has at a location. -/
def foundIn (entries : List (Location × Kind)) (loc : Location) : Option Kind :=
  if loc = [] then some .directory
  else (entries.find? fun entry => entry.1 = loc).map Prod.snd

/-- Each entry has a proper name and lies in a directory. -/
def Sound (entries : List (Location × Kind)) : Prop :=
  ∀ entry ∈ entries, entry.1 ≠ [] ∧ Proper (entry.1.headD []) ∧
    foundIn entries entry.1.tail = some .directory

instance (entries : List (Location × Kind)) : Decidable (Sound entries) :=
  inferInstanceAs (Decidable (∀ entry ∈ entries, _))

theorem foundIn_cons_iff (entries : List (Location × Kind)) (name : Name) (loc : Location) :
    foundIn entries (name :: loc) ≠ none ↔ ∃ entry ∈ entries, entry.1 = name :: loc := by
  rw [foundIn, if_neg (List.cons_ne_nil _ _)]
  simp

namespace DirTree

/-- The tree with these entries. -/
def ofEntries (entries : List (Location × Kind)) (sound : Sound entries) : DirTree where
  kind := foundIn entries
  located := [] :: entries.map Prod.fst
  finite := by
    rintro (_ | ⟨name, loc⟩) found
    · exact List.mem_cons_self
    · obtain ⟨entry, member, same⟩ := (foundIn_cons_iff entries name loc).mp found
      exact List.mem_cons_of_mem _ (List.mem_map.mpr ⟨entry, member, same⟩)
  root := rfl
  closed := by
    intro name loc found
    obtain ⟨entry, member, same⟩ := (foundIn_cons_iff entries name loc).mp found
    have parent := (sound entry member).2.2
    rwa [same] at parent
  proper := by
    intro name loc found
    obtain ⟨entry, member, same⟩ := (foundIn_cons_iff entries name loc).mp found
    have own := (sound entry member).2.1
    rwa [same] at own

variable (tree : DirTree)

def Leaf (loc : Location) : Prop := ∀ name, tree.kind (name :: loc) = none

instance (loc : Location) : Decidable (tree.Leaf loc) :=
  decidable_of_iff
    (∀ inner ∈ tree.located, inner.tail = loc → inner ≠ [] → tree.kind inner = none) <| by
    constructor
    · intro checked name
      by_contra found
      exact found (checked (name :: loc) (tree.finite _ found) rfl (List.cons_ne_nil _ _))
    · rintro leaf (_ | ⟨name, inner⟩) - rfl filled
      · exact absurd rfl filled
      · exact leaf name

/-- The tree without what is there, as long as nothing is in it and it is not the root. -/
def erase (loc : Location) : DirTree :=
  if removable : loc ≠ [] ∧ tree.Leaf loc then
    { kind := fun other => if other = loc then none else tree.kind other
      located := tree.located
      finite := by
        intro other found
        split_ifs at found
        · exact absurd rfl found
        · exact tree.finite other found
      root := by rw [if_neg (Ne.symm removable.1)]; exact tree.root
      closed := by
        intro name other found
        split_ifs at found
        · exact absurd rfl found
        · have outside : other ≠ loc := by
            rintro rfl
            exact found (removable.2 name)
          rw [if_neg outside]
          exact tree.closed name other found
      proper := by
        intro name other found
        split_ifs at found
        · exact absurd rfl found
        · exact tree.proper name other found }
  else tree

/-- The tree without what is below the location. -/
def emptied (loc : Location) : DirTree where
  kind := fun other => if loc <:+ other ∧ other ≠ loc then none else tree.kind other
  located := tree.located
  finite := by
    intro other found
    split_ifs at found
    · exact absurd rfl found
    · exact tree.finite other found
  root := by
    rw [if_neg]
    · exact tree.root
    · rintro ⟨below, other⟩
      exact other (List.suffix_nil.mp below).symm
  closed := by
    intro name other found
    split_ifs at found with below
    · exact absurd rfl found
    · rw [if_neg]
      · exact tree.closed name other found
      · rintro ⟨inside, -⟩
        refine below ⟨inside.trans (List.suffix_cons name other), ?_⟩
        rintro rfl
        have length := inside.length_le
        rw [List.length_cons] at length
        omega
  proper := by
    intro name other found
    split_ifs at found
    · exact absurd rfl found
    · exact tree.proper name other found

/-! Paths. -/

def components (path : List UInt8) : List Name := path.splitOn slash

/-- Where a path begins. -/
def start (cwd : Location) (path : List UInt8) : Location :=
  if path.head? = some slash then [] else cwd

/-- The walk along names, where `follow` goes on behind a link. -/
def walkWith (follow : Location → List Name → Option Location) :
    Location → List Name → Option Location
  | loc, [] => some loc
  | loc, name :: rest =>
      if name = [] ∨ name = dot then walkWith follow loc rest
      else if name = dotDot then walkWith follow loc.tail rest
      else
        match tree.kind (name :: loc) with
        | none => none
        | some .directory => walkWith follow (name :: loc) rest
        | some .file => if rest = [] then some (name :: loc) else none
        | some (.link target) =>
            if target = [] then none else follow (start loc target) (components target ++ rest)

/-- The walk that follows so many links. -/
def walk : Nat → Location → List Name → Option Location
  | 0 => tree.walkWith fun _ _ => none
  | links + 1 => tree.walkWith (walk links)

/-- Where a path leads, with a last link followed. -/
def lookup (cwd : Location) (path : List UInt8) : Option Location :=
  if path = [] then none else tree.walk 40 (start cwd path) (components path)

def stat (cwd : Location) (path : List UInt8) : Option Kind :=
  (tree.lookup cwd path).bind tree.kind

/-- The directory that `chdir` goes to. -/
def chdir (cwd : Location) (path : List UInt8) : Option Location :=
  (tree.lookup cwd path).filter fun loc => tree.kind loc = some .directory

/-- The entry that names lead to, the innermost first, with a last link not followed. -/
def entry (cwd : Location) (path : List UInt8) : List Name → Option Location
  | [] => none
  | last :: before =>
      if last = [] ∨ last = dot ∨ last = dotDot then none
      else
        ((tree.walk 40 (start cwd path) before.reverse).filter fun loc =>
          tree.kind loc = some .directory).map (last :: ·)

def unlink (cwd : Location) (path : List UInt8) : Option DirTree :=
  match tree.entry cwd path (components path).reverse with
  | none => none
  | some loc =>
      match tree.kind loc with
      | none => none
      | some .directory => none
      | some _ => some (tree.erase loc)

/-- Slashes at the end are left out. -/
def rmdirEntry (cwd : Location) (path : List UInt8) : Option Location :=
  tree.entry cwd path ((components path).reverse.dropWhile fun name => name = [])

def rmdir (cwd : Location) (path : List UInt8) : Option DirTree :=
  match tree.rmdirEntry cwd path with
  | none => none
  | some loc =>
      if tree.kind loc = some .directory ∧ tree.Leaf loc then some (tree.erase loc) else none

/-- `remove`, which is `rmdir` where `unlink` fails. -/
def remove (cwd : Location) (path : List UInt8) : DirTree :=
  ((tree.unlink cwd path).or (tree.rmdir cwd path)).getD tree

variable {tree}

/-- Two trees made from one are the same where they have the same at each location. -/
theorem ext_kind {first second : DirTree} (kinds : ∀ loc, first.kind loc = second.kind loc)
    (located : first.located = second.located) : first = second := by
  cases first
  cases second
  obtain rfl := funext kinds
  obtain rfl := located
  rfl

@[simp] theorem erase_located (loc : Location) : (tree.erase loc).located = tree.located := by
  unfold erase
  split_ifs <;> rfl

theorem erase_kind (loc other : Location) :
    (tree.erase loc).kind other =
      if (loc ≠ [] ∧ tree.Leaf loc) ∧ other = loc then none else tree.kind other := by
  unfold erase
  split_ifs with removable same
  · exact if_pos same.2
  · exact if_neg fun same_loc => same ⟨removable, same_loc⟩
  · exact absurd (And.left ‹_›) removable
  · rfl

theorem erase_kind_ne {loc other : Location} (apart : other ≠ loc) :
    (tree.erase loc).kind other = tree.kind other := by
  rw [erase_kind, if_neg fun same => apart same.2]

theorem leaf_of_kind {loc : Location} (other : tree.kind loc ≠ some .directory) : tree.Leaf loc := by
  intro name
  by_contra found
  exact other (tree.closed name loc found)

/-- Around a directory there are directories. -/
theorem directory_above {loc : Location} (front : List Name)
    (inside : tree.kind (front ++ loc) = some .directory) : tree.kind loc = some .directory := by
  induction front with
  | nil => exact inside
  | cons name front ih =>
      have filled : tree.kind (name :: (front ++ loc)) ≠ none := by
        rw [List.cons_append] at inside
        rw [inside]
        exact Option.some_ne_none _
      exact ih (tree.closed name _ filled)

theorem missing_below {loc : Location} (missing : tree.kind loc = none) (front : List Name) :
    tree.kind (front ++ loc) = none := by
  induction front with
  | nil => exact missing
  | cons name front ih =>
      have leaf : tree.Leaf (front ++ loc) := leaf_of_kind (by rw [ih]; simp)
      exact leaf name

/-! Walks. -/

theorem walk_eq (links : Nat) : ∃ follow, tree.walk links = tree.walkWith follow := by
  cases links with
  | zero => exact ⟨_, rfl⟩
  | succ links => exact ⟨_, rfl⟩

/-- A walk along names that can only be directories arrives where they lead or fails. -/
theorem walkWith_along (follow : Location → List Name → Option Location) (names : List Name)
    (loc : Location) (proper : ∀ name ∈ names, Proper name)
    (along : ∀ there, there <:+ names.reverse ++ loc →
      tree.kind there = none ∨ tree.kind there = some .directory) :
    tree.walkWith follow loc names = none ∨
      tree.walkWith follow loc names = some (names.reverse ++ loc) := by
  induction names generalizing loc with
  | nil => exact .inr rfl
  | cons name rest ih =>
      have own := proper name List.mem_cons_self
      have place : (name :: rest).reverse ++ loc = rest.reverse ++ name :: loc := by simp
      rw [place] at along ⊢
      rw [walkWith, if_neg (by simp [own.filled, own.not_dot]), if_neg own.not_dotDot]
      rcases along (name :: loc) (List.suffix_append _ _) with missing | directory
      · rw [missing]
        exact .inl rfl
      · rw [directory]
        exact ih (name :: loc) (fun other member => proper other (List.mem_cons_of_mem _ member)) along

/-- The names of a directory lead to it. -/
theorem walkWith_down (follow : Location → List Name → Option Location) (names : List Name)
    (loc : Location) (proper : ∀ name ∈ names, Proper name)
    (directory : tree.kind (names.reverse ++ loc) = some .directory) :
    tree.walkWith follow loc names = some (names.reverse ++ loc) := by
  induction names generalizing loc with
  | nil => rfl
  | cons name rest ih =>
      have own := proper name List.mem_cons_self
      have place : (name :: rest).reverse ++ loc = rest.reverse ++ name :: loc := by simp
      rw [place] at directory ⊢
      rw [walkWith, if_neg (by simp [own.filled, own.not_dot]), if_neg own.not_dotDot,
        directory_above rest.reverse directory]
      exact ih (name :: loc) (fun other member => proper other (List.mem_cons_of_mem _ member))
        directory

theorem proper_of_kind {loc : Location} (found : tree.kind loc ≠ none) : ∀ name ∈ loc, Proper name := by
  induction loc with
  | nil => simp
  | cons own loc ih =>
      have directory := tree.closed own loc found
      intro name member
      rcases List.mem_cons.mp member with rfl | outer
      · exact tree.proper name loc found
      · exact ih (by rw [directory]; exact Option.some_ne_none _) name outer

/-! A single name. -/

theorem components_name {name : Name} (proper : Proper name) : components name = [name] :=
  List.splitOn_eq_singleton proper.no_slash

theorem start_name {name : Name} (proper : Proper name) (cwd : Location) : start cwd name = cwd := by
  cases name with
  | nil => rfl
  | cons head rest =>
      rw [start, List.head?_cons, if_neg]
      intro same
      exact proper.no_slash (Option.some.inj same ▸ List.mem_cons_self)

theorem lookup_name {name : Name} (proper : Proper name) (cwd : Location) {found : Kind}
    (there : tree.kind (name :: cwd) = some found) (no_link : ∀ target, found ≠ .link target) :
    tree.lookup cwd name = some (name :: cwd) := by
  obtain ⟨follow, same⟩ := tree.walk_eq 40
  rw [lookup, if_neg proper.filled, start_name proper, components_name proper, same, walkWith,
    if_neg (by simp [proper.filled, proper.not_dot]), if_neg proper.not_dotDot, there]
  cases found with
  | directory => rfl
  | file => rfl
  | link target => exact absurd rfl (no_link target)

theorem stat_name {name : Name} (proper : Proper name) (cwd : Location) {found : Kind}
    (there : tree.kind (name :: cwd) = some found) (no_link : ∀ target, found ≠ .link target) :
    tree.stat cwd name = some found := by
  rw [stat, lookup_name proper cwd there no_link, Option.bind_some, there]

theorem chdir_name {name : Name} (proper : Proper name) (cwd : Location)
    (there : tree.kind (name :: cwd) = some .directory) :
    tree.chdir cwd name = some (name :: cwd) := by
  rw [chdir, lookup_name proper cwd there (fun target => by simp)]
  simp [there]

theorem chdir_dotDot {cwd : Location} (current : tree.kind cwd = some .directory) :
    tree.chdir cwd dotDot = some cwd.tail := by
  have up : tree.kind cwd.tail = some .directory := by
    cases cwd with
    | nil => exact tree.root
    | cons name loc => exact directory_above [name] current
  obtain ⟨follow, same⟩ := tree.walk_eq 40
  have found : tree.lookup cwd dotDot = some cwd.tail := by
    have path : dotDot ≠ [] ∧ start cwd dotDot = cwd ∧ components dotDot = [dotDot] :=
      ⟨by decide, rfl, by decide⟩
    rw [lookup, if_neg path.1, path.2.1, path.2.2, same, walkWith, if_neg (by decide), if_pos rfl]
    rfl
  rw [chdir, found]
  simp [up]

theorem entry_name {name : Name} (proper : Proper name) (cwd : Location) :
    tree.entry cwd name [name] =
      if tree.kind cwd = some .directory then some (name :: cwd) else none := by
  obtain ⟨follow, same⟩ := tree.walk_eq 40
  rw [entry, if_neg (by simp [proper.filled, proper.not_dot, proper.not_dotDot]), start_name proper,
    List.reverse_nil, same]
  by_cases current : tree.kind cwd = some .directory
  · simp [walkWith, current]
  · simp [walkWith, current]

theorem unlink_name {name : Name} (proper : Proper name) (cwd : Location) :
    tree.unlink cwd name =
      if tree.kind (name :: cwd) = none ∨ tree.kind (name :: cwd) = some .directory then none
      else some (tree.erase (name :: cwd)) := by
  rw [unlink, components_name proper, List.reverse_singleton, entry_name proper]
  by_cases current : tree.kind cwd = some .directory
  · rw [if_pos current]
    cases there : tree.kind (name :: cwd) with
    | none => simp [there]
    | some found => cases found <;> simp [there]
  · have missing : tree.kind (name :: cwd) = none := leaf_of_kind current name
    simp [current, missing]

theorem rmdir_name {name : Name} (proper : Proper name) (cwd : Location) :
    tree.rmdir cwd name =
      if tree.kind (name :: cwd) = some .directory ∧ tree.Leaf (name :: cwd) then
        some (tree.erase (name :: cwd))
      else none := by
  have names : ((components name).reverse.dropWhile fun name => name = []) = [name] := by
    simp [components_name proper, proper.filled]
  rw [rmdir, rmdirEntry, names, entry_name proper]
  by_cases current : tree.kind cwd = some .directory
  · rw [if_pos current]
  · have missing : tree.kind (name :: cwd) = none := leaf_of_kind current name
    simp [current, missing]

/-- A name is taken away with what it stands for, but not from a directory with entries. -/
theorem remove_name {name : Name} (proper : Proper name) (cwd : Location) :
    tree.remove cwd name =
      if tree.kind (name :: cwd) = none then tree else tree.erase (name :: cwd) := by
  rw [remove, unlink_name proper, rmdir_name proper]
  cases there : tree.kind (name :: cwd) with
  | none => simp
  | some found =>
      cases found with
      | file => simp
      | link target => simp
      | directory =>
          by_cases leaf : tree.Leaf (name :: cwd)
          · simp [leaf]
          · simp [leaf, erase]

theorem remove_kind {name : Name} (proper : Proper name) (cwd loc : Location) :
    (tree.remove cwd name).kind loc = tree.kind loc ∨
      loc = name :: cwd ∧ tree.Leaf loc ∧ (tree.remove cwd name).kind loc = none := by
  rw [remove_name proper]
  by_cases missing : tree.kind (name :: cwd) = none
  · rw [if_pos missing]
    exact .inl rfl
  · rw [if_neg missing, erase_kind]
    split_ifs with gone
    · exact .inr ⟨gone.2, gone.2 ▸ gone.1.2, rfl⟩
    · exact .inl rfl

/-! The absolute path of a directory. -/

theorem pathText_components {loc : Location} (proper : ∀ name ∈ loc, Proper name) :
    components (pathText loc) = [] :: if loc = [] then [[]] else loc.reverse := by
  refine List.splitOn_intercalate slash (fun part member => ?_) (List.cons_ne_nil _ _)
  rcases List.mem_cons.mp member with rfl | member
  · exact List.not_mem_nil
  · split_ifs at member
    · rw [List.mem_singleton.mp member]
      exact List.not_mem_nil
    · exact (proper part (List.mem_reverse.mp member)).no_slash

theorem pathText_head (loc : Location) : (pathText loc).head? = some slash := by
  unfold pathText
  split_ifs with root
  · rfl
  · rw [List.intercalate_cons_of_ne_nil (by simpa using root)]
    rfl

theorem pathText_start (cwd loc : Location) : start cwd (pathText loc) = [] := if_pos (pathText_head loc)

theorem pathText_filled (loc : Location) : pathText loc ≠ [] := by
  intro empty
  have head := pathText_head loc
  rw [empty] at head
  cases head

variable (tree) in
/-- The path is walked through the names of the location. -/
theorem lookup_pathText {loc : Location} (proper : ∀ name ∈ loc, Proper name) (cwd : Location) :
    ∃ follow, tree.lookup cwd (pathText loc) = tree.walkWith follow [] loc.reverse := by
  obtain ⟨follow, same⟩ := tree.walk_eq 40
  refine ⟨follow, ?_⟩
  rw [lookup, if_neg (pathText_filled loc), pathText_start, pathText_components proper, same, walkWith,
    if_pos (.inl rfl)]
  split_ifs with root
  · rw [root, walkWith, if_pos (.inl rfl)]
    rfl
  · rfl

theorem chdir_pathText {loc : Location} (directory : tree.kind loc = some .directory)
    (cwd : Location) : tree.chdir cwd (pathText loc) = some loc := by
  have proper := proper_of_kind (by rw [directory]; exact Option.some_ne_none _)
  obtain ⟨follow, same⟩ := lookup_pathText tree proper cwd
  have down := walkWith_down follow loc.reverse [] (fun name member => proper name (by simpa using member))
    (by simpa using directory)
  rw [chdir, same, down]
  simp [directory]

theorem chdir_pathText_missing {loc : Location} (proper : ∀ name ∈ loc, Proper name)
    (along : ∀ there, there <:+ loc → tree.kind there = none ∨ tree.kind there = some .directory)
    (missing : tree.kind loc = none) (cwd : Location) : tree.chdir cwd (pathText loc) = none := by
  obtain ⟨follow, same⟩ := lookup_pathText tree proper cwd
  rcases walkWith_along follow loc.reverse [] (fun name member => proper name (by simpa using member))
    (by simpa using along) with failed | arrived
  · rw [chdir, same, failed]
    rfl
  · rw [chdir, same, arrived]
    simp [missing]

theorem unlink_pathText {loc : Location} (proper : ∀ name ∈ loc, Proper name)
    (along : ∀ there, there <:+ loc → tree.kind there = none ∨ tree.kind there = some .directory)
    (cwd : Location) : tree.unlink cwd (pathText loc) = none := by
  rw [unlink, pathText_components proper]
  cases loc with
  | nil => simp [entry]
  | cons last before =>
      have own := proper last List.mem_cons_self
      obtain ⟨follow, same⟩ := tree.walk_eq 40
      have names : ([] :: if last :: before = [] then [[]] else (last :: before).reverse).reverse =
          last :: (before ++ [[]]) := by simp
      rw [names, entry, if_neg (by simp [own.filled, own.not_dot, own.not_dotDot]), pathText_start,
        List.reverse_append, List.reverse_singleton, List.singleton_append, same, walkWith,
        if_pos (.inl rfl)]
      rcases walkWith_along follow before.reverse []
          (fun name member => proper name (List.mem_cons_of_mem _ (by simpa using member)))
          (fun there inside => along there ((by simpa using inside : there <:+ before).trans
            (List.suffix_cons _ _))) with failed | arrived
      · rw [failed]
        rfl
      · rw [arrived]
        rw [List.reverse_reverse, List.append_nil, Option.filter_some]
        split_ifs
        · simp only [Option.map_some]
          rcases along (last :: before) List.suffix_rfl with missing | directory
          · rw [missing]
          · rw [directory]
        · rfl

/-! `rmdir`, and a directory emptied. -/

theorem rmdirEntry_filled {cwd loc : Location} {path : List UInt8}
    (found : tree.rmdirEntry cwd path = some loc) : loc ≠ [] := by
  unfold rmdirEntry at found
  cases names : (components path).reverse.dropWhile fun name => name = [] with
  | nil => simp [names, entry] at found
  | cons last before =>
      rw [names, entry] at found
      split_ifs at found
      obtain ⟨inner, -, rfl⟩ := Option.map_eq_some_iff.mp found
      exact List.cons_ne_nil _ _

theorem rmdir_eq_some_iff (cwd : Location) (path : List UInt8) (after : DirTree) :
    tree.rmdir cwd path = some after ↔
      ∃ loc, tree.rmdirEntry cwd path = some loc ∧
        (tree.kind loc = some .directory ∧ tree.Leaf loc) ∧ tree.erase loc = after := by
  unfold rmdir
  cases tree.rmdirEntry cwd path with
  | none => simp
  | some loc => simp

theorem emptied_below {loc other : Location} (below : loc <:+ other ∧ other ≠ loc) :
    (tree.emptied loc).kind other = none :=
  if_pos below

variable (tree) in
theorem emptied_leaf (loc : Location) : (tree.emptied loc).Leaf loc :=
  fun name => if_pos ⟨List.suffix_cons name loc, List.cons_ne_self name loc⟩

theorem emptied_kept {loc other : Location} (outside : ¬ (loc <:+ other ∧ other ≠ loc)) :
    (tree.emptied loc).kind other = tree.kind other :=
  if_neg outside

end DirTree

end EChainLib.FileTree
