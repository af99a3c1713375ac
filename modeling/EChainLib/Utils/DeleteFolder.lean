import EChainLib.Keys.Cfca
import EChainLib.Support.FileTree
import EChainLib.Utils.Replace

/-! `File::DeleteFolder`, where every directory can be read and entered and every entry be
taken away. The walk is one level deep and goes on in whatever directory it is in. -/

namespace EChainLib.Utils

open EChainLib.FileTree
open EChainLib.Keys (Bytes cString)

/-- `dfs_remove_dir` between two entries. -/
structure Walker where
  tree : DirTree
  cwd : Location
  /-- Whether `st` is a directory's; `none` is that nothing was put in it. -/
  st : Option Bool

/-- What `st` says behind a call of `stat`, which leaves it alone where it fails. -/
def statInto (tree : DirTree) (cwd : Location) (st : Option Bool) (name : Name) : Option Bool :=
  match tree.stat cwd name with
  | none => st
  | some kind => some (kind = .directory)

/-- A `chdir` that may fail. -/
def changeTo (tree : DirTree) (cwd : Location) (path : Bytes) : Location :=
  (tree.chdir cwd path).getD cwd

/-- One round of the loop of `dfs_remove_dir`; `none` is that `st` is read with nothing in it. -/
def removeEntry (walker : Walker) (d_name : Name) : Option Walker :=
  let st := statInto walker.tree walker.cwd walker.st d_name
  if d_name = dot ∨ d_name = dotDot then some { walker with st := st }
  else
    match st with
    | none => none
    | some is_dir =>
        let cwd :=
          if is_dir then changeTo walker.tree (changeTo walker.tree walker.cwd d_name) dotDot
          else walker.cwd
        some { tree := walker.tree.remove cwd d_name, cwd := cwd, st := st }

def dfsRemoveDir : Walker → List Name → Option Walker
  | walker, [] => some walker
  | walker, d_name :: rest => (removeEntry walker d_name).bind fun walker => dfsRemoveDir walker rest

/-- `getcwd` into a buffer of that length; `none` leaves it as it was. -/
def getcwd (cwd : Location) (length : Nat) : Option Bytes :=
  if (pathText cwd).length < length then some (pathText cwd) else none

/-- What a call returns, with the tree and the working directory behind it. -/
structure Deleted where
  returned : Bool
  tree : DirTree
  cwd : Location

/-- `File::DeleteFolder`, with the names in the order in which `readdir` gives them; `none`
is that a buffer or a structure is read with nothing in it. -/
def deleteFolder (tree : DirTree) (cwd : Location) (path : Bytes) (names : List Name) :
    Option Deleted :=
  match tree.chdir cwd (cString path) with
  | none => some ⟨false, tree, cwd⟩
  | some folder =>
      match getcwd cwd 100 with
      | none => none
      | some old_path =>
          match dfsRemoveDir ⟨tree, folder, none⟩ names with
          | none => none
          | some walker =>
              let cwd := changeTo walker.tree walker.cwd old_path
              let tree := (walker.tree.unlink cwd old_path).getD walker.tree
              match tree.rmdir cwd (cString (regularPath path)) with
              | none => some ⟨false, tree, cwd⟩
              | some tree => some ⟨true, tree, cwd⟩

/-- The names that `readdir` gives of a directory, in some order; a file system may give
those of the directory itself and of the one around it or not. -/
structure Listing (tree : DirTree) (folder : Location) (names : List Name) : Prop where
  nodup : names.Nodup
  entries : ∀ name, name ≠ dot → name ≠ dotDot →
    (name ∈ names ↔ tree.kind (name :: folder) ≠ none)

/-- Nothing is left at the folder or below. -/
def Gone (tree : DirTree) (folder : Location) : Prop :=
  ∀ loc, folder <:+ loc → tree.kind loc = none

structure StaysInside (tree : DirTree) (cwd folder : Location) (after : Deleted) : Prop where
  outside : ∀ loc, ¬ folder <:+ loc → after.tree.kind loc = tree.kind loc
  cwd : after.cwd = cwd
  returned : after.returned = true ↔ Gone after.tree folder
  gone : Gone after.tree folder

/-- An entry that is taken away in its turn with the walk still in the folder: a file, an
empty directory, or a link. The link leads to no directory that lies elsewhere, and where it
leads nowhere `st` is left from something that is no directory. -/
def TakenAway (tree : DirTree) (folder : Location) (st : Option Bool) (name : Name) : Prop :=
  match tree.kind (name :: folder) with
  | none => False
  | some .directory => tree.Leaf (name :: folder)
  | some .file => True
  | some (.link _) =>
      match tree.stat folder name with
      | none => st = some false
      | some .directory => (changeTo tree folder name).tail = folder
      | some _ => True

/-- Each entry is taken away in its turn. -/
def Clears (folder : Location) : DirTree → Option Bool → List Name → Prop
  | _, _, [] => True
  | tree, st, name :: rest =>
      if name = dot ∨ name = dotDot then Clears folder tree (statInto tree folder st name) rest
      else
        TakenAway tree folder st name ∧
          Clears folder (tree.erase (name :: folder)) (statInto tree folder st name) rest

/-- A call that deletes the folder: the working directory has a short path and is not an
entry of the folder, each entry is taken away in its turn, and the regular path names the
folder itself when its entries are gone. -/
structure Deletable (tree : DirTree) (cwd folder : Location) (path : Bytes) (names : List Name) :
    Prop where
  short : (pathText cwd).length < 100
  clears : Clears folder tree none names
  elsewhere : ∀ name, cwd ≠ name :: folder
  named : (tree.emptied folder).rmdirEntry cwd (cString (regularPath path)) = some folder

/-! What the walk can do wherever it is. -/

/-- The names that a directory can have, with those of itself and of the one around it. -/
def Readable (names : List Name) : Prop :=
  ∀ name ∈ names, name ≠ dot → name ≠ dotDot → Proper name

/-- An entry is read, and one of its name is taken away or none is. -/
theorem removeEntry_kind {walker after : Walker} {name : Name}
    (proper : name ≠ dot → name ≠ dotDot → Proper name)
    (removed : removeEntry walker name = some after) (loc : Location) :
    after.tree.kind loc = walker.tree.kind loc ∨
      Proper name ∧ (∃ outer, loc = name :: outer) ∧ walker.tree.Leaf loc ∧
        after.tree.kind loc = none := by
  unfold removeEntry at removed
  simp only at removed
  split_ifs at removed with dots
  · obtain rfl := Option.some.inj removed
    exact .inl rfl
  · obtain ⟨not_dot, not_dotDot⟩ := not_or.mp dots
    split at removed
    · cases removed
    · obtain rfl := Option.some.inj removed
      have own := proper not_dot not_dotDot
      rcases DirTree.remove_kind own _ loc with kept | ⟨place, leaf, gone⟩
      · exact .inl kept
      · exact .inr ⟨own, ⟨_, place⟩, leaf, gone⟩

theorem dfsRemoveDir_within {walker after : Walker} {names : List Name} (readable : Readable names)
    (walked : dfsRemoveDir walker names = some after) (loc : Location) :
    after.tree.kind loc = none ∨ after.tree.kind loc = walker.tree.kind loc := by
  induction names generalizing walker with
  | nil =>
      obtain rfl := Option.some.inj walked
      exact .inr rfl
  | cons name rest ih =>
      obtain ⟨between, removed, walked⟩ := Option.bind_eq_some_iff.mp walked
      rcases ih (fun other member => readable other (List.mem_cons_of_mem _ member)) walked with
        gone | same
      · exact .inl gone
      · rw [same]
        rcases removeEntry_kind (readable name List.mem_cons_self) removed loc with
          kept | ⟨-, -, -, gone⟩
        · exact .inr kept
        · exact .inl gone

/-- What has a name that is not read stays. -/
theorem dfsRemoveDir_keeps {walker after : Walker} {names : List Name} (readable : Readable names)
    (walked : dfsRemoveDir walker names = some after) (name : Name) (loc : Location)
    (unread : name ∉ names) : after.tree.kind (name :: loc) = walker.tree.kind (name :: loc) := by
  induction names generalizing walker with
  | nil =>
      obtain rfl := Option.some.inj walked
      rfl
  | cons first rest ih =>
      obtain ⟨between, removed, walked⟩ := Option.bind_eq_some_iff.mp walked
      obtain ⟨other, unread⟩ := not_or.mp (List.mem_cons.not.mp unread)
      rw [ih (fun other member => readable other (List.mem_cons_of_mem _ member)) walked unread]
      rcases removeEntry_kind (readable first List.mem_cons_self) removed (name :: loc) with
        kept | ⟨-, ⟨outer, same⟩, -⟩
      · exact kept
      · exact absurd (List.cons.inj same).1 other

/-- The folder stays, as an entry of it is there when it is read. -/
theorem dfsRemoveDir_folder {walker after : Walker} {names : List Name} (readable : Readable names)
    (walked : dfsRemoveDir walker names = some after) (folder : Location) (nodup : names.Nodup)
    (entries : ∀ name ∈ names, name ≠ dot → name ≠ dotDot →
      walker.tree.kind (name :: folder) ≠ none) :
    after.tree.kind folder = walker.tree.kind folder := by
  induction names generalizing walker with
  | nil =>
      obtain rfl := Option.some.inj walked
      rfl
  | cons name rest ih =>
      obtain ⟨between, removed, walked⟩ := Option.bind_eq_some_iff.mp walked
      obtain ⟨fresh, nodup⟩ := List.nodup_cons.mp nodup
      have step := removeEntry_kind (readable name List.mem_cons_self) removed
      have later : ∀ other ∈ rest, other ≠ dot → other ≠ dotDot →
          between.tree.kind (other :: folder) ≠ none := by
        intro other member not_dot not_dotDot
        rcases step (other :: folder) with kept | ⟨-, ⟨outer, same⟩, -⟩
        · rw [kept]
          exact entries other (List.mem_cons_of_mem _ member) not_dot not_dotDot
        · obtain rfl := (List.cons.inj same).1
          exact absurd member fresh
      rw [ih (fun other member => readable other (List.mem_cons_of_mem _ member)) walked nodup later]
      rcases step folder with kept | ⟨own, -, leaf, -⟩
      · exact kept
      · exact absurd (leaf name) (entries name List.mem_cons_self own.not_dot own.not_dotDot)

/-! An entry read while the walk is in the folder. -/

theorem changeTo_directory {tree : DirTree} {cwd : Location} (current : tree.kind cwd = some .directory)
    (path : Bytes) : tree.kind (changeTo tree cwd path) = some .directory := by
  unfold changeTo
  cases moved : tree.chdir cwd path with
  | none => exact current
  | some loc => simpa using (Option.filter_eq_some_iff.mp moved).2

theorem changeTo_dotDot {tree : DirTree} {cwd : Location} (current : tree.kind cwd = some .directory) :
    changeTo tree cwd dotDot = cwd.tail := by
  rw [changeTo, DirTree.chdir_dotDot current, Option.getD_some]

/-- Where nothing is found the walk does not go on. -/
theorem changeTo_missing {tree : DirTree} {cwd : Location} {path : Bytes}
    (missing : tree.stat cwd path = none) : changeTo tree cwd path = cwd := by
  have stays : tree.chdir cwd path = none := by
    rw [DirTree.chdir, Option.filter_eq_none_iff]
    intro loc found directory
    rw [DirTree.stat, found, Option.bind_some] at missing
    rw [missing] at directory
    simp at directory
  rw [changeTo, stays, Option.getD_none]

/-- The directory in which the entry is taken away. -/
def landing (tree : DirTree) (folder : Location) (name : Name) (is_dir : Bool) : Location :=
  if is_dir then (changeTo tree folder name).tail else folder

theorem removeEntry_eq {tree : DirTree} {folder : Location} (current : tree.kind folder = some .directory)
    (st : Option Bool) {name : Name} (proper : Proper name) :
    removeEntry ⟨tree, folder, st⟩ name =
      (statInto tree folder st name).map fun is_dir =>
        ⟨tree.remove (landing tree folder name is_dir) name, landing tree folder name is_dir,
          statInto tree folder st name⟩ := by
  have up := changeTo_dotDot (changeTo_directory current name)
  simp only [removeEntry, proper.not_dot, proper.not_dotDot, or_self, if_false, up, landing]
  cases statInto tree folder st name <;> rfl

theorem takenAway_iff {tree : DirTree} {folder : Location} (filled : folder ≠ []) (st : Option Bool)
    {name : Name} (proper : Proper name) (there : tree.kind (name :: folder) ≠ none) :
    TakenAway tree folder st name ↔
      tree.Leaf (name :: folder) ∧
        ∃ is_dir, statInto tree folder st name = some is_dir ∧
          landing tree folder name is_dir = folder := by
  have above : folder.tail ≠ folder := by
    intro same
    have length := congrArg List.length same
    have positive := List.length_pos_iff.mpr filled
    rw [List.length_tail] at length
    omega
  unfold TakenAway statInto
  cases found : tree.kind (name :: folder) with
  | none => exact absurd found there
  | some kind =>
      cases kind with
      | directory =>
          have stat := DirTree.stat_name proper folder found (fun target => by simp)
          have entered : changeTo tree folder name = name :: folder := by
            rw [changeTo, DirTree.chdir_name proper folder found, Option.getD_some]
          simp [stat, landing, entered]
      | file =>
          have stat := DirTree.stat_name proper folder found (fun target => by simp)
          have leaf : tree.Leaf (name :: folder) := DirTree.leaf_of_kind (by rw [found]; simp)
          simp [stat, landing, leaf]
      | link target =>
          have leaf : tree.Leaf (name :: folder) := DirTree.leaf_of_kind (by rw [found]; simp)
          cases behind : tree.stat folder name with
          | none =>
              have stays := changeTo_missing behind
              cases st with
              | none => simp
              | some is_dir => cases is_dir <;> simp [leaf, landing, stays, above]
          | some kind => cases kind <;> simp [leaf, landing]

/-- An entry that is taken away leaves the walk in the folder. -/
theorem removeEntry_taken {tree : DirTree} {folder : Location} (filled : folder ≠ [])
    (current : tree.kind folder = some .directory) (st : Option Bool) {name : Name}
    (proper : Proper name) (there : tree.kind (name :: folder) ≠ none)
    (taken : TakenAway tree folder st name) :
    removeEntry ⟨tree, folder, st⟩ name =
      some ⟨tree.erase (name :: folder), folder, statInto tree folder st name⟩ := by
  obtain ⟨-, is_dir, stat, stays⟩ := (takenAway_iff filled st proper there).mp taken
  rw [removeEntry_eq current st proper, stat, Option.map_some, stays, DirTree.remove_name proper,
    if_neg there]

/-- One that is not stays where it is. -/
theorem removeEntry_left {tree : DirTree} {folder : Location} (filled : folder ≠ [])
    (current : tree.kind folder = some .directory) (st : Option Bool) {name : Name}
    (proper : Proper name) (there : tree.kind (name :: folder) ≠ none) {after : Walker}
    (removed : removeEntry ⟨tree, folder, st⟩ name = some after)
    (left : ¬ TakenAway tree folder st name) : after.tree.kind (name :: folder) ≠ none := by
  rw [removeEntry_eq current st proper] at removed
  obtain ⟨is_dir, stat, rfl⟩ := Option.map_eq_some_iff.mp removed
  rcases DirTree.remove_kind proper (landing tree folder name is_dir) (name :: folder) with
    kept | ⟨place, leaf, -⟩
  · rw [kept]
    exact there
  · have stays := (List.cons.inj place).2.symm
    exact absurd ((takenAway_iff filled st proper there).mpr ⟨leaf, is_dir, stat, stays⟩) left

/-! The walk through the folder. -/

/-- Names that are still to be read, of entries that are still there. -/
structure Reads (tree : DirTree) (folder : Location) (names : List Name) : Prop where
  current : tree.kind folder = some .directory
  nodup : names.Nodup
  entries : ∀ name ∈ names, name ≠ dot → name ≠ dotDot → tree.kind (name :: folder) ≠ none

theorem Listing.reads {tree : DirTree} {folder : Location} {names : List Name}
    (listing : Listing tree folder names) (current : tree.kind folder = some .directory) :
    Reads tree folder names where
  current := current
  nodup := listing.nodup
  entries := fun name member not_dot not_dotDot =>
    (listing.entries name not_dot not_dotDot).mp member

theorem Reads.readable {tree : DirTree} {folder : Location} {names : List Name}
    (reads : Reads tree folder names) : Readable names := fun name member not_dot not_dotDot =>
  tree.proper name folder (reads.entries name member not_dot not_dotDot)

theorem Reads.skip {tree : DirTree} {folder : Location} {name : Name} {rest : List Name}
    (reads : Reads tree folder (name :: rest)) : Reads tree folder rest where
  current := reads.current
  nodup := (List.nodup_cons.mp reads.nodup).2
  entries := fun other member => reads.entries other (List.mem_cons_of_mem _ member)

theorem Reads.erase {tree : DirTree} {folder : Location} {name : Name} {rest : List Name}
    (reads : Reads tree folder (name :: rest)) :
    Reads (tree.erase (name :: folder)) folder rest where
  current := by
    rw [DirTree.erase_kind_ne (List.cons_ne_self name folder).symm]
    exact reads.current
  nodup := (List.nodup_cons.mp reads.nodup).2
  entries := by
    intro other member not_dot not_dotDot
    have apart : other :: folder ≠ name :: folder := by
      intro same
      obtain rfl := (List.cons.inj same).1
      exact (List.nodup_cons.mp reads.nodup).1 member
    rw [DirTree.erase_kind_ne apart]
    exact reads.entries other (List.mem_cons_of_mem _ member) not_dot not_dotDot

/-- Where each entry is taken away in its turn, the entries of the folder are all that goes. -/
theorem dfsRemoveDir_clears {folder : Location} (filled : folder ≠ []) (names : List Name)
    (tree : DirTree) (st : Option Bool) (reads : Reads tree folder names)
    (clears : Clears folder tree st names) :
    ∃ after, dfsRemoveDir ⟨tree, folder, st⟩ names = some after ∧ after.cwd = folder ∧
      after.tree.located = tree.located ∧
      (∀ name ∈ names, name ≠ dot → name ≠ dotDot → after.tree.kind (name :: folder) = none) ∧
      ∀ loc, (∀ name, loc ≠ name :: folder) → after.tree.kind loc = tree.kind loc := by
  induction names generalizing tree st with
  | nil => exact ⟨_, rfl, rfl, rfl, by simp, fun _ _ => rfl⟩
  | cons name rest ih =>
      rw [Clears] at clears
      by_cases dots : name = dot ∨ name = dotDot
      · rw [if_pos dots] at clears
        obtain ⟨after, walked, cwd, located, gone, kept⟩ := ih tree _ reads.skip clears
        refine ⟨after, ?_, cwd, located, ?_, kept⟩
        · rw [dfsRemoveDir, removeEntry]
          simp only [if_pos dots, Option.bind_some]
          exact walked
        · intro other member not_dot not_dotDot
          rcases List.mem_cons.mp member with rfl | later
          · exact absurd dots (not_or.mpr ⟨not_dot, not_dotDot⟩)
          · exact gone other later not_dot not_dotDot
      · rw [if_neg dots] at clears
        obtain ⟨not_dot, not_dotDot⟩ := not_or.mp dots
        have there := reads.entries name List.mem_cons_self not_dot not_dotDot
        have own := tree.proper name folder there
        have leaf := ((takenAway_iff filled st own there).mp clears.1).1
        obtain ⟨after, walked, cwd, located, gone, kept⟩ := ih _ _ reads.erase clears.2
        refine ⟨after, ?_, cwd, by rw [located, DirTree.erase_located], ?_, ?_⟩
        · rw [dfsRemoveDir, removeEntry_taken filled reads.current st own there clears.1,
            Option.bind_some]
          exact walked
        · intro other member other_dot other_dotDot
          rcases List.mem_cons.mp member with rfl | later
          · have fresh := (List.nodup_cons.mp reads.nodup).1
            rw [dfsRemoveDir_keeps reads.erase.readable walked other folder fresh, DirTree.erase_kind,
              if_pos ⟨⟨List.cons_ne_nil _ _, leaf⟩, rfl⟩]
          · exact gone other later other_dot other_dotDot
        · intro loc outside
          rw [kept loc outside, DirTree.erase_kind_ne (outside name)]

/-- Where the entries of the folder are gone, each has been taken away in its turn. -/
theorem clears_of_dfsRemoveDir {folder : Location} (filled : folder ≠ []) (names : List Name)
    (tree : DirTree) (st : Option Bool) (reads : Reads tree folder names) {after : Walker}
    (walked : dfsRemoveDir ⟨tree, folder, st⟩ names = some after)
    (gone : ∀ name ∈ names, name ≠ dot → name ≠ dotDot → after.tree.kind (name :: folder) = none) :
    Clears folder tree st names := by
  induction names generalizing tree st with
  | nil => trivial
  | cons name rest ih =>
      have later := fun other member => gone other (List.mem_cons_of_mem name member)
      obtain ⟨between, removed, walked⟩ := Option.bind_eq_some_iff.mp walked
      rw [Clears]
      by_cases dots : name = dot ∨ name = dotDot
      · rw [if_pos dots]
        simp only [removeEntry, if_pos dots, Option.some.injEq] at removed
        subst removed
        exact ih tree _ reads.skip walked later
      · rw [if_neg dots]
        obtain ⟨not_dot, not_dotDot⟩ := not_or.mp dots
        have there := reads.entries name List.mem_cons_self not_dot not_dotDot
        have own := tree.proper name folder there
        have fresh := (List.nodup_cons.mp reads.nodup).1
        have taken : TakenAway tree folder st name := by
          by_contra left
          have stays := removeEntry_left filled reads.current st own there removed left
          rw [← dfsRemoveDir_keeps reads.skip.readable walked name folder fresh] at stays
          exact stays (gone name List.mem_cons_self not_dot not_dotDot)
        rw [removeEntry_taken filled reads.current st own there taken] at removed
        obtain rfl := Option.some.inj removed
        exact ⟨taken, ih _ _ reads.erase walked later⟩

/-- The tree behind such a walk is the one with the folder emptied. -/
theorem dfsRemoveDir_emptied {folder : Location} (filled : folder ≠ []) {names : List Name}
    {tree : DirTree} (st : Option Bool) (current : tree.kind folder = some .directory)
    (listing : Listing tree folder names) (clears : Clears folder tree st names) :
    (∃ st', dfsRemoveDir ⟨tree, folder, st⟩ names = some ⟨tree.emptied folder, folder, st'⟩) ∧
      ∀ loc, (∀ name, loc ≠ name :: folder) → (tree.emptied folder).kind loc = tree.kind loc := by
  have reads := listing.reads current
  obtain ⟨⟨after, cwd, st'⟩, walked, rfl, located, gone, kept⟩ :=
    dfsRemoveDir_clears filled names tree st reads clears
  have entries_gone : ∀ name, after.kind (name :: cwd) = none := by
    intro name
    by_cases found : tree.kind (name :: cwd) = none
    · rcases dfsRemoveDir_within reads.readable walked (name :: cwd) with missing | same
      · exact missing
      · exact same.trans found
    · have own := tree.proper name cwd found
      have member := (listing.entries name own.not_dot own.not_dotDot).mpr found
      exact gone name member own.not_dot own.not_dotDot
  have same : after = tree.emptied cwd := by
    refine DirTree.ext_kind (fun loc => ?_) located
    by_cases below : cwd <:+ loc ∧ loc ≠ cwd
    · obtain ⟨⟨front, rfl⟩, strict⟩ := below
      rcases List.eq_nil_or_concat front with rfl | ⟨inner, name, rfl⟩
      · exact absurd rfl strict
      · rw [DirTree.emptied_below ⟨List.suffix_append _ _, strict⟩, List.concat_eq_append,
          List.append_assoc, List.singleton_append]
        exact DirTree.missing_below (entries_gone name) inner
    · rw [DirTree.emptied_kept below]
      refine kept loc fun name same => below ?_
      rw [same]
      exact ⟨List.suffix_cons _ _, List.cons_ne_self _ _⟩
  subst same
  exact ⟨⟨st', walked⟩, kept⟩

/-! The whole call. -/

/-- The path of the working directory leads back to it while it is there, and `unlink`
takes no directory away. -/
theorem old_path_kept {before tree : DirTree} {cwd : Location}
    (current : before.kind cwd = some .directory)
    (within : ∀ loc, tree.kind loc = none ∨ tree.kind loc = before.kind loc) (here : Location) :
    tree.unlink here (pathText cwd) = none ∧
      (tree.kind cwd = none → tree.chdir here (pathText cwd) = none) := by
  have proper := DirTree.proper_of_kind (by rw [current]; exact Option.some_ne_none _)
  have along : ∀ there, there <:+ cwd →
      tree.kind there = none ∨ tree.kind there = some .directory := by
    rintro there ⟨front, rfl⟩
    rcases within there with missing | same
    · exact .inl missing
    · exact .inr (same.trans (DirTree.directory_above front current))
  exact ⟨DirTree.unlink_pathText proper along here,
    fun missing => DirTree.chdir_pathText_missing proper along missing here⟩

theorem deletable_stays_inside {tree : DirTree} {cwd folder : Location}
    (current : tree.kind cwd = some .directory) {path : Bytes}
    (found : tree.chdir cwd (cString path) = some folder) {names : List Name}
    (directory : tree.kind folder = some .directory) (listing : Listing tree folder names)
    (deletable : Deletable tree cwd folder path names) :
    ∃ after, deleteFolder tree cwd path names = some after ∧ StaysInside tree cwd folder after := by
  have filled := DirTree.rmdirEntry_filled deletable.named
  obtain ⟨⟨st', walked⟩, kept⟩ := dfsRemoveDir_emptied filled none directory listing deletable.clears
  have emptied_within : ∀ loc, (tree.emptied folder).kind loc = none ∨
      (tree.emptied folder).kind loc = tree.kind loc := by
    intro loc
    by_cases below : folder <:+ loc ∧ loc ≠ folder
    · exact .inl (DirTree.emptied_below below)
    · exact .inr (DirTree.emptied_kept below)
  have back : changeTo (tree.emptied folder) folder (pathText cwd) = cwd := by
    have still := (kept cwd deletable.elsewhere).trans current
    rw [changeTo, DirTree.chdir_pathText still, Option.getD_some]
  have own : (tree.emptied folder).kind folder = some .directory :=
    (DirTree.emptied_kept fun below => below.2 rfl).trans directory
  have leaf := tree.emptied_leaf folder
  have removed : (tree.emptied folder).rmdir cwd (cString (regularPath path)) =
      some ((tree.emptied folder).erase folder) :=
    (DirTree.rmdir_eq_some_iff _ _ _).mpr ⟨folder, deletable.named, ⟨own, leaf⟩, rfl⟩
  have gone : Gone ((tree.emptied folder).erase folder) folder := by
    intro loc inside
    by_cases same : loc = folder
    · rw [same, DirTree.erase_kind, if_pos ⟨⟨filled, leaf⟩, rfl⟩]
    · rw [DirTree.erase_kind_ne same, DirTree.emptied_below ⟨inside, same⟩]
  refine ⟨⟨true, (tree.emptied folder).erase folder, cwd⟩, ?_, ?_, rfl, iff_of_true rfl gone, gone⟩
  · simp only [deleteFolder, found, getcwd, if_pos deletable.short, walked, back,
      (old_path_kept current emptied_within cwd).1, Option.getD_none, removed]
  · intro loc outside
    have apart : loc ≠ folder := by
      rintro rfl
      exact outside List.suffix_rfl
    rw [DirTree.erase_kind_ne apart, DirTree.emptied_kept fun below => outside below.1]

/-- A call that returns true has taken away one empty directory behind the walk. -/
theorem deleteFolder_true {tree : DirTree} {cwd folder : Location}
    (current : tree.kind cwd = some .directory) {path : Bytes}
    (found : tree.chdir cwd (cString path) = some folder) {names : List Name}
    (reads : Reads tree folder names) {after : Deleted}
    (deleted : deleteFolder tree cwd path names = some after) (returned : after.returned = true) :
    (pathText cwd).length < 100 ∧
      ∃ walker, dfsRemoveDir ⟨tree, folder, none⟩ names = some walker ∧
        after.cwd = changeTo walker.tree walker.cwd (pathText cwd) ∧
        ∃ loc, walker.tree.rmdirEntry after.cwd (cString (regularPath path)) = some loc ∧
          walker.tree.Leaf loc ∧ after.tree = walker.tree.erase loc := by
  by_cases short : (pathText cwd).length < 100
  · simp only [deleteFolder, found, getcwd, if_pos short] at deleted
    cases walked : dfsRemoveDir ⟨tree, folder, none⟩ names with
    | none => simp [walked] at deleted
    | some walker =>
        have unlinked := fun here =>
          (old_path_kept current (dfsRemoveDir_within reads.readable walked) here).1
        simp only [walked, unlinked, Option.getD_none] at deleted
        cases removed : walker.tree.rmdir (changeTo walker.tree walker.cwd (pathText cwd))
            (cString (regularPath path)) with
        | none =>
            simp only [removed, Option.some.injEq] at deleted
            subst deleted
            cases returned
        | some emptied =>
            simp only [removed, Option.some.injEq] at deleted
            subst deleted
            obtain ⟨loc, named, ⟨-, leaf⟩, rfl⟩ := (DirTree.rmdir_eq_some_iff _ _ _).mp removed
            exact ⟨short, walker, rfl, rfl, loc, named, leaf, rfl⟩
  · simp [deleteFolder, found, getcwd, short] at deleted

/-- Where the folder is gone behind that, it is the directory taken away, and the walk took
its entries away in their turns. -/
theorem clears_of_gone {tree : DirTree} {folder : Location} {names : List Name}
    (reads : Reads tree folder names) {walker : Walker}
    (walked : dfsRemoveDir ⟨tree, folder, none⟩ names = some walker) {loc : Location}
    (filled : loc ≠ []) (leaf : walker.tree.Leaf loc)
    (gone : (walker.tree.erase loc).kind folder = none) :
    folder = loc ∧ Clears folder tree none names := by
  have still := dfsRemoveDir_folder reads.readable walked folder reads.nodup reads.entries
  rw [reads.current] at still
  rw [DirTree.erase_kind, still] at gone
  split_ifs at gone with hit
  obtain ⟨-, rfl⟩ := hit
  exact ⟨rfl, clears_of_dfsRemoveDir filled names tree none reads walked fun name _ _ _ => leaf name⟩

theorem stays_inside_deletable {tree : DirTree} {cwd folder : Location}
    (current : tree.kind cwd = some .directory) {path : Bytes}
    (found : tree.chdir cwd (cString path) = some folder) {names : List Name}
    (directory : tree.kind folder = some .directory) (listing : Listing tree folder names)
    {after : Deleted} (deleted : deleteFolder tree cwd path names = some after)
    (stays : StaysInside tree cwd folder after) : Deletable tree cwd folder path names := by
  have reads := listing.reads directory
  obtain ⟨short, walker, walked, back, loc, named, leaf, erased⟩ :=
    deleteFolder_true current found reads deleted (stays.returned.mpr stays.gone)
  have filled := DirTree.rmdirEntry_filled named
  obtain ⟨rfl, clears⟩ :=
    clears_of_gone reads walked filled leaf (erased ▸ stays.gone folder List.suffix_rfl)
  obtain ⟨⟨st', again⟩, -⟩ := dfsRemoveDir_emptied filled none directory listing clears
  obtain rfl := Option.some.inj (walked.symm.trans again)
  rw [stays.cwd] at back named
  refine ⟨short, clears, fun name inside => ?_, named⟩
  -- an entry of the folder is gone when the call goes back, and it stays where it is
  have within := dfsRemoveDir_within reads.readable walked
  have missing : (tree.emptied folder).kind cwd = none := inside ▸ tree.emptied_leaf folder name
  rw [changeTo, (old_path_kept current within folder).2 missing, Option.getD_none, inside] at back
  exact List.cons_ne_self name folder back

/-- The call removes the folder with all that is below, and nothing else, exactly where the
working directory has a short path and lies nowhere in the folder's entries, each entry is
taken away in its turn, and the regular path names the folder when it is empty. -/
theorem deleteFolder_stays_inside_iff (tree : DirTree) (cwd : Location)
    (current : tree.kind cwd = some .directory) (path : Bytes) (folder : Location)
    (found : tree.chdir cwd (cString path) = some folder) (names : List Name)
    (listing : Listing tree folder names) :
    (∃ after, deleteFolder tree cwd path names = some after ∧ StaysInside tree cwd folder after) ↔
      Deletable tree cwd folder path names := by
  have directory : tree.kind folder = some .directory := by
    simpa using (Option.filter_eq_some_iff.mp found).2
  constructor
  · rintro ⟨after, deleted, stays⟩
    exact stays_inside_deletable current found directory listing deleted stays
  · exact deletable_stays_inside current found directory listing

def nameA : Name := [0x61]
def nameB : Name := [0x62]
def nameC : Name := [0x63]

/-- A directory `a` with a file `b`. -/
def flatTree : DirTree :=
  .ofEntries [([nameA], .directory), ([nameB, nameA], .file)] (by decide)

theorem deleteFolder_stays_inside_iff_applies :
    ∃ after, deleteFolder flatTree [] nameA [dot, dotDot, nameB] = some after ∧
      StaysInside flatTree [] [nameA] after := by
  have listing : Listing flatTree [nameA] [dot, dotDot, nameB] := by
    refine ⟨by decide, fun name not_dot not_dotDot => ?_⟩
    rw [flatTree, DirTree.ofEntries, foundIn_cons_iff]
    simp [not_dot, not_dotDot, eq_comm, nameA]
  refine (deleteFolder_stays_inside_iff flatTree [] rfl nameA [nameA] (by decide) [dot, dotDot, nameB]
    listing).mpr ⟨by decide, ?_, by simp, by decide⟩
  exact ⟨trivial, trivial⟩

/-- A directory `a` with a directory `b` that has a file `c`. -/
def nestedTree : DirTree :=
  .ofEntries [([nameA], .directory), ([nameB, nameA], .directory), ([nameC, nameB, nameA], .file)]
    (by decide)

/-- A directory `a` with a link `b` to nothing, and a file `b` beside it. -/
def danglingTree : DirTree :=
  .ofEntries [([nameA], .directory), ([nameB, nameA], .link nameC), ([nameB], .file)] (by decide)

/-- A directory that is not empty stays, and a link to nothing takes the file beside the
folder along. -/
theorem nested_folder_kept :
    (∃ after, deleteFolder nestedTree [] nameA [dot, dotDot, nameB] = some after ∧
        after.returned = false ∧ after.tree.kind [nameC, nameB, nameA] = some .file ∧
        ¬ StaysInside nestedTree [] [nameA] after) ∧
      ∃ after, deleteFolder danglingTree [] nameA [dot, nameB, dotDot] = some after ∧
        after.tree.kind [nameB] = none ∧ ¬ StaysInside danglingTree [] [nameA] after := by
  constructor
  · refine ⟨_, rfl, rfl, rfl, fun stays => ?_⟩
    have gone := stays.gone [nameC, nameB, nameA] (by decide)
    cases gone
  · refine ⟨_, rfl, rfl, fun stays => ?_⟩
    have kept := stays.outside [nameB] (by decide)
    cases kept

end EChainLib.Utils
