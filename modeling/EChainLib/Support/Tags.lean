import EChainLib.Support.Strings

/-! Nested tags read without counting: a start tag is closed by the first end tag behind it
that has its name, whatever lies between. -/

namespace EChainLib.Tags

variable {Label Name : Type}

/-- Trees side by side: the first of them with the ones below it, and those beside it. -/
inductive Forest (Label : Type) where
  | nil
  | node (label : Label) (below beside : Forest Label)
  deriving DecidableEq

inductive Tag (Label Name : Type) where
  | start (label : Label)
  | stop (name : Name)
  deriving DecidableEq

namespace Forest

/-- In the order of their start tags. -/
def labels : Forest Label → List Label
  | nil => []
  | node label below beside => label :: (below.labels ++ beside.labels)

def map {Other : Type} (f : Label → Other) : Forest Label → Forest Other
  | nil => nil
  | node label below beside => node (f label) (below.map f) (beside.map f)

theorem labels_map {Other : Type} (f : Label → Other) (forest : Forest Label) :
    (forest.map f).labels = forest.labels.map f := by
  induction forest with
  | nil => rfl
  | node label below beside below_labels beside_labels =>
      simp [map, labels, below_labels, beside_labels]

theorem map_of_fixed (f : Label → Label) (forest : Forest Label)
    (fixed : ∀ label ∈ forest.labels, f label = label) : forest.map f = forest := by
  induction forest with
  | nil => rfl
  | node label below beside below_same beside_same =>
      simp only [labels, List.mem_cons, List.mem_append] at fixed
      rw [map, fixed label (.inl rfl), below_same fun other inside => fixed other (.inr (.inl inside)),
        beside_same fun other inside => fixed other (.inr (.inr inside))]

end Forest

/-- The start tags, by their labels. -/
def starts : List (Tag Label Name) → List Label
  | [] => []
  | .start label :: rest => label :: starts rest
  | .stop _ :: rest => starts rest

@[simp] theorem starts_append (first second : List (Tag Label Name)) :
    starts (first ++ second) = starts first ++ starts second := by
  induction first with
  | nil => rfl
  | cons tag rest ih => cases tag <;> simp [starts, ih]

section Split
variable [DecidableEq Name]

/-- What is in front of the first end tag with the name, and what is behind it. -/
def split (name : Name) : List (Tag Label Name) → Option (List (Tag Label Name) × List (Tag Label Name))
  | [] => none
  | .start label :: rest => (split name rest).map fun (inside, behind) => (.start label :: inside, behind)
  | .stop other :: rest =>
      if other = name then some ([], rest)
      else (split name rest).map fun (inside, behind) => (.stop other :: inside, behind)

theorem split_eq_some_iff (name : Name) (tags inside behind : List (Tag Label Name)) :
    split name tags = some (inside, behind) ↔
      .stop name ∉ inside ∧ tags = inside ++ .stop name :: behind := by
  induction tags generalizing inside with
  | nil => simp [split]
  | cons tag rest ih =>
      rcases tag with label | other
      · rcases inside with _ | ⟨first, inside⟩
        · simp [split]
        · have same : split name rest = some (inside, behind) ↔ _ := ih inside
          simp only [split, Option.map_eq_some_iff, Prod.exists, Prod.mk.injEq, List.cons.injEq,
            List.mem_cons, List.cons_append]
          grind
      · by_cases hit : other = name
        · subst hit
          rcases inside with _ | ⟨first, inside⟩
          · simp [split, eq_comm]
          · simp only [split, if_true, Option.some.injEq, Prod.mk.injEq, List.mem_cons,
              List.cons_append, List.cons.injEq]
            grind
        · rcases inside with _ | ⟨first, inside⟩
          · simp [split, hit]
          · have same : split name rest = some (inside, behind) ↔ _ := ih inside
            simp only [split, hit, if_false, Option.map_eq_some_iff, Prod.exists, Prod.mk.injEq,
              List.cons.injEq, List.mem_cons, List.cons_append]
            grind

theorem split_eq_none_iff (name : Name) (tags : List (Tag Label Name)) :
    split name tags = none ↔ .stop name ∉ tags := by
  constructor
  · intro missing found
    obtain ⟨inside, behind, parts, first⟩ := List.eq_append_cons_of_mem found
    have hit := (split_eq_some_iff name tags inside behind).mpr ⟨first, parts⟩
    rw [missing] at hit
    cases hit
  · intro missing
    cases hit : split name tags with
    | none => rfl
    | some parts =>
        obtain ⟨_, cut⟩ := (split_eq_some_iff name tags parts.1 parts.2).mp hit
        exact absurd (by rw [cut]; simp) missing

end Split

variable (name : Label → Name)

/-- The tags a forest is written with. -/
def tags : Forest Label → List (Tag Label Name)
  | .nil => []
  | .node label below beside => .start label :: (tags below ++ .stop (name label) :: tags beside)

@[simp] theorem starts_tags (forest : Forest Label) : starts (tags name forest) = forest.labels := by
  induction forest with
  | nil => rfl
  | node label below beside below_starts beside_starts =>
      simp [tags, starts, Forest.labels, below_starts, beside_starts]

theorem stop_mem_tags (forest : Forest Label) (other : Name) :
    .stop other ∈ tags name forest ↔ ∃ label ∈ forest.labels, name label = other := by
  induction forest with
  | nil => simp [tags, Forest.labels]
  | node label below beside below_stops beside_stops =>
      simp only [tags, Forest.labels, List.mem_cons, List.mem_append, below_stops, beside_stops,
        reduceCtorEq, false_or, Tag.stop.injEq]
      grind

theorem stop_notMem_tags {name : Label → Name} {forest : Forest Label} {outer : Name}
    (apart : ∀ label ∈ forest.labels, name label ≠ outer) : .stop outer ∉ tags name forest := by
  intro held
  obtain ⟨label, member, same⟩ := (stop_mem_tags name forest outer).mp held
  exact apart label member same

variable [DecidableEq Name]

/-- What is read. An end tag, or a start tag that nothing closes, ends the row. -/
def children : List (Tag Label Name) → Forest Label
  | [] => .nil
  | .stop _ :: _ => .nil
  | .start label :: rest =>
      match hit : split (name label) rest with
      | none => .nil
      | some (inside, behind) =>
          .node label (children (inside ++ [.stop (name label)])) (children behind)
  termination_by tags => tags.length
  decreasing_by
    all_goals
      obtain ⟨_, rfl⟩ := (split_eq_some_iff _ _ _ _).mp hit
      simp
      try omega

theorem children_nil : children name [] = .nil := by
  rw [children]

theorem children_stop (other : Name) (rest : List (Tag Label Name)) :
    children name (.stop other :: rest) = .nil := by
  rw [children]

theorem children_start (label : Label) (inside behind : List (Tag Label Name))
    (first : .stop (name label) ∉ inside) :
    children name (.start label :: (inside ++ .stop (name label) :: behind)) =
      .node label (children name (inside ++ [.stop (name label)])) (children name behind) := by
  have hit := (split_eq_some_iff (name label) _ inside behind).mpr ⟨first, rfl⟩
  rw [children]
  split
  next missing => rw [hit] at missing; cases missing
  next inside' behind' found =>
    rw [hit, Option.some.injEq, Prod.mk.injEq] at found
    rw [found.1, found.2]

theorem children_unclosed (label : Label) (rest : List (Tag Label Name))
    (missing : .stop (name label) ∉ rest) : children name (.start label :: rest) = .nil := by
  have hit := (split_eq_none_iff (name label) rest).mpr missing
  rw [children]
  split
  next => rfl
  next found => rw [hit] at found; cases found

/-- A row without start tags gives nothing. -/
theorem children_of_stops (row : List (Tag Label Name)) (only : starts row = []) :
    children name row = .nil := by
  rcases row with _ | ⟨label | other, rest⟩
  · exact children_nil name
  · simp [starts] at only
  · exact children_stop name other rest

/-- A node that is read comes from a start tag with the first end tag that fits. -/
theorem children_eq_node (row : List (Tag Label Name)) (label : Label) (below beside : Forest Label)
    (read : children name row = .node label below beside) :
    ∃ inside behind, row = .start label :: (inside ++ .stop (name label) :: behind) ∧
      .stop (name label) ∉ inside ∧
      children name (inside ++ [.stop (name label)]) = below ∧ children name behind = beside := by
  rcases row with _ | ⟨found | other, rest⟩
  · rw [children_nil] at read
    cases read
  · cases hit : split (name found) rest with
    | none =>
        rw [children_unclosed name found rest ((split_eq_none_iff _ _).mp hit)] at read
        cases read
    | some parts =>
        obtain ⟨first, cut⟩ := (split_eq_some_iff _ _ parts.1 parts.2).mp hit
        subst cut
        rw [children_start name found parts.1 parts.2 first] at read
        injection read with same_label same_below same_beside
        subst same_label
        exact ⟨parts.1, parts.2, rfl, first, same_below, same_beside⟩
  · rw [children_stop] at read
    cases read

/-- Every node that is read has a start tag of its own, in the same order. -/
theorem labels_sublist (row : List (Tag Label Name)) :
    (children name row).labels.Sublist (starts row) := by
  generalize read : children name row = forest
  induction forest generalizing row with
  | nil => exact List.nil_sublist _
  | node label below beside below_starts beside_starts =>
      obtain ⟨inside, behind, rfl, _, read_below, read_beside⟩ :=
        children_eq_node name row label below beside read
      have inner := below_starts _ read_below
      simp only [starts_append, starts, List.append_nil] at inner
      simp only [Forest.labels, starts, starts_append]
      exact (inner.append (beside_starts _ read_beside)).cons_cons label

/-- Every node that is read has an end tag. -/
theorem stop_of_label (row : List (Tag Label Name)) (label : Label)
    (member : label ∈ (children name row).labels) : .stop (name label) ∈ row := by
  generalize read : children name row = forest at member
  induction forest generalizing row with
  | nil => simp [Forest.labels] at member
  | node outer below beside below_stops beside_stops =>
      obtain ⟨inside, behind, rfl, _, read_below, read_beside⟩ :=
        children_eq_node name row outer below beside read
      simp only [Forest.labels, List.mem_cons, List.mem_append] at member
      rcases member with rfl | inner | next
      · simp
      · have held := below_stops _ read_below inner
        simp only [List.mem_append, List.mem_singleton] at held
        simp only [List.mem_cons, List.mem_append]
        tauto
      · have held := beside_stops _ read_beside next
        simp [held]

/-- The last tree has the name at its root, and no other node but those below it has. -/
def EndsWith (outer : Name) : Forest Label → Prop
  | .nil => False
  | .node label below beside =>
      beside = .nil ∧ name label = outer ∨
        name label ≠ outer ∧ (∀ inner ∈ below.labels, name inner ≠ outer) ∧ EndsWith outer beside

/-- What is below a node does not have its name, or the node is the last of its row and the
last below it has, so that the end tag taken for its own is one of those next to it. -/
def Sound : Forest Label → Prop
  | .nil => True
  | .node label below beside =>
      ((∀ inner ∈ below.labels, name inner ≠ name label) ∨
        beside = .nil ∧ EndsWith name (name label) below) ∧
      Sound below ∧ Sound beside

section Decide
variable [DecidableEq Label]

instance (outer : Name) : ∀ forest : Forest Label, Decidable (EndsWith name outer forest)
  | .nil => isFalse id
  | .node label below beside =>
      have := instDecidableEndsWith outer beside
      inferInstanceAs (Decidable (beside = .nil ∧ name label = outer ∨ name label ≠ outer ∧
        (∀ inner ∈ below.labels, name inner ≠ outer) ∧ EndsWith name outer beside))

instance : ∀ forest : Forest Label, Decidable (Sound name forest)
  | .nil => isTrue trivial
  | .node label below beside =>
      have := instDecidableSound below
      have := instDecidableSound beside
      inferInstanceAs (Decidable (((∀ inner ∈ below.labels, name inner ≠ name label) ∨
        beside = .nil ∧ EndsWith name (name label) below) ∧ Sound name below ∧ Sound name beside))

end Decide

variable {name}

/-- A tree whose name is not used below it is read whole. -/
theorem children_tree (label : Label) (below beside : Forest Label) (rest : List (Tag Label Name))
    (apart : ∀ inner ∈ below.labels, name inner ≠ name label) :
    children name (tags name (.node label below beside) ++ rest) =
      .node label (children name (tags name below ++ [.stop (name label)]))
        (children name (tags name beside ++ rest)) := by
  have cut := children_start name label (tags name below) (tags name beside ++ rest)
    (stop_notMem_tags apart)
  simpa [tags] using cut

/-- A sound forest is read as it was written. Where it ends with the name of the node above
it, the end tag of that name is met inside it, and what was read then is the whole forest. -/
theorem children_tags_of_sound (forest : Forest Label) (sound : Sound name forest) :
    (∀ rest, starts rest = [] → children name (tags name forest ++ rest) = forest) ∧
    ∀ outer, EndsWith name outer forest → ∃ inside left,
      .stop outer ∉ inside ∧ tags name forest = inside ++ .stop outer :: left ∧
      starts left = [] ∧ children name (inside ++ [.stop outer]) = forest := by
  induction forest with
  | nil =>
      refine ⟨fun rest only => ?_, fun outer ends => ends.elim⟩
      exact children_of_stops name rest only
  | node label below beside below_read beside_read =>
      obtain ⟨closed, below_sound, beside_sound⟩ := sound
      obtain ⟨below_whole, below_cut⟩ := below_read below_sound
      obtain ⟨beside_whole, beside_cut⟩ := beside_read beside_sound
      have inner : children name (tags name below ++ [.stop (name label)]) = below :=
        below_whole [.stop (name label)] rfl
      constructor
      · intro rest only
        rcases closed with apart | ⟨rfl, ends⟩
        · rw [children_tree label below beside rest apart, inner, beside_whole rest only]
        · obtain ⟨inside, left, first, cut, stops, read⟩ := below_cut (name label) ends
          have row : tags name (.node label below .nil) ++ rest =
              .start label :: (inside ++ .stop (name label) ::
                (left ++ .stop (name label) :: rest)) := by
            simp [tags, cut]
          rw [row, children_start name label _ _ first, read]
          congr 1
          exact children_of_stops name _ (by simp [starts, stops, only])
      · rintro outer (⟨rfl, rfl⟩ | ⟨other, apart, ends⟩)
        · -- the last tree has the name: its own end tag is met, or one below it
          rcases closed with apart | ⟨-, ends⟩
          · refine ⟨.start label :: tags name below, [], ?_, by simp [tags], rfl, ?_⟩
            · simpa using stop_notMem_tags apart
            · have read := children_tree label below .nil ([] : List (Tag Label Name)) apart
              simpa [tags, inner, children_nil] using read
          · obtain ⟨inside, left, first, cut, stops, read⟩ := below_cut (name label) ends
            refine ⟨.start label :: inside, left ++ [.stop (name label)], by simpa using first,
              by simp [tags, cut], by simp [stops, starts], ?_⟩
            have tree := children_start name label inside [] first
            rw [read, children_nil] at tree
            simpa using tree
        · obtain ⟨inside, left, first, cut, stops, read⟩ := beside_cut outer ends
          have single : ∀ inner ∈ below.labels, name inner ≠ name label := by
            rcases closed with single | ⟨rfl, -⟩
            · exact single
            · exact ends.elim
          refine ⟨.start label :: (tags name below ++ .stop (name label) :: inside), left, ?_,
            by simp [tags, cut], stops, ?_⟩
          · have quiet := stop_notMem_tags apart
            simp [quiet, first, Ne.symm other]
          · have tree := children_start name label (tags name below) (inside ++ [.stop outer])
              (stop_notMem_tags single)
            rw [inner, read] at tree
            simpa using tree

/-- A single tree that is read up to the first end tag of a name has that name. -/
theorem single_read_name (outer : Name) (label : Label) (below : Forest Label)
    (inside left : List (Tag Label Name))
    (cut : tags name (.node label below .nil) = inside ++ .stop outer :: left)
    (first : .stop outer ∉ inside)
    (read : children name (inside ++ [.stop outer]) = .node label below .nil) :
    name label = outer := by
  by_contra other
  obtain ⟨inner, behind, row, alone, below_read, -⟩ := children_eq_node name _ _ _ _ read
  -- the name is used below the tree, whose end tag would be met first
  have used : .stop outer ∈ tags name below := by
    have held : .stop outer ∈ tags name (.node label below .nil) := by rw [cut]; simp
    simpa [tags, Ne.symm other] using held
  obtain ⟨deep, member, rfl⟩ := (stop_mem_tags name below outer).mp used
  have held := stop_of_label name (inner ++ [.stop (name label)]) deep (by rwa [below_read])
  have early : .stop (name deep) ∈ inner := by simpa [Ne.symm other] using held
  rcases List.eq_nil_or_concat behind with rfl | ⟨behind, last, rfl⟩
  · have ends : inside ++ [.stop (name deep)] =
        (.start label :: inner) ++ [.stop (name label)] := by simpa using row
    have same := (List.append_inj' ends rfl).2
    simp only [List.cons.injEq, Tag.stop.injEq, and_true] at same
    exact other same.symm
  · have fronts : inside ++ [.stop (name deep)] =
        (.start label :: (inner ++ .stop (name label) :: behind)) ++ [last] := by
      simpa using row
    apply first
    rw [(List.append_inj' fronts rfl).1]
    simp [early]

/-- Where the end tag of the name above comes behind the last start tag and all was read,
the last tree has that name. -/
theorem endsWith_of_read (outer : Name) (forest : Forest Label) (sound : Sound name forest)
    (inside left : List (Tag Label Name)) (cut : tags name forest = inside ++ .stop outer :: left)
    (first : .stop outer ∉ inside) (stops : starts left = [])
    (read : children name (inside ++ [.stop outer]) = forest) : EndsWith name outer forest := by
  induction forest generalizing inside with
  | nil => simp [tags] at cut
  | node label below beside _ beside_ends =>
      obtain ⟨closed, below_sound, beside_sound⟩ := sound
      cases beside with
      | nil =>
          exact .inl ⟨rfl, single_read_name outer label below inside left cut first read⟩
      | node next below' beside' =>
          have apart : ∀ inner ∈ below.labels, name inner ≠ name label := by
            rcases closed with apart | ⟨more, -⟩
            · exact apart
            · cases more
          have parts : (.start label :: (tags name below ++ [.stop (name label)])) ++
              tags name (.node next below' beside') = inside ++ .stop outer :: left := by
            rw [← cut]
            simp [tags]
          rcases List.append_eq_append_iff.mp parts with ⟨more, long, rest⟩ | ⟨more, long, rest⟩
          · subst long
            have tree := children_start name label (tags name below) (more ++ [.stop outer])
              (stop_notMem_tags apart)
            have row : .start label :: (tags name below ++ [.stop (name label)]) ++ more ++
                [.stop outer] = .start label :: (tags name below ++ .stop (name label) ::
                  (more ++ [.stop outer])) := by
              simp
            rw [row, tree] at read
            injection read with _ _ beside_read
            simp only [List.cons_append, List.append_assoc, List.mem_cons, List.mem_append,
              List.not_mem_nil, reduceCtorEq, false_or, not_or, Tag.stop.injEq] at first
            refine .inr ⟨fun same => first.2.1 same.symm, fun inner member same => first.1 ?_, ?_⟩
            · exact (stop_mem_tags name below outer).mpr ⟨inner, member, same⟩
            · exact beside_ends beside_sound more rest first.2.2 beside_read
          · -- the start tag of the next tree would be behind the last one
            have none_left : starts (.stop outer :: left) = [] := by simp [starts, stops]
            rw [rest] at none_left
            simp [tags, starts] at none_left

/-- Only a sound forest is read as it was written, whatever end tags follow, and also where
the row ends early. -/
theorem sound_of_read (forest : Forest Label) (row left rest : List (Tag Label Name))
    (whole : row ++ left = tags name forest ++ rest) (stops : starts rest = [])
    (read : children name row = forest) : Sound name forest := by
  induction forest generalizing row left rest with
  | nil => trivial
  | node label below beside below_sound beside_sound =>
      obtain ⟨inside, behind, rfl, first, below_read, beside_read⟩ :=
        children_eq_node name _ _ _ _ read
      have rows : inside ++ .stop (name label) :: (behind ++ left) =
          tags name below ++ .stop (name label) :: (tags name beside ++ rest) := by
        simpa [tags] using whole
      by_cases apart : ∀ inner ∈ below.labels, name inner ≠ name label
      · obtain ⟨rfl, next⟩ := Strings.cut_unique first (stop_notMem_tags apart) rows
        exact ⟨.inl apart, below_sound _ [] [.stop (name label)] (by simp) rfl below_read,
          beside_sound behind left rest next stops beside_read⟩
      · -- the end tag was met below the node, behind the last start tag there
        have used : .stop (name label) ∈ tags name below := by
          rw [stop_mem_tags]
          push Not at apart
          exact apart
        obtain ⟨early, late, cut, alone⟩ := List.eq_append_cons_of_mem used
        have again : inside ++ .stop (name label) :: (behind ++ left) =
            early ++ .stop (name label) ::
              (late ++ .stop (name label) :: (tags name beside ++ rest)) := by
          rw [rows, cut]
          simp
        obtain ⟨rfl, next⟩ := Strings.cut_unique first alone again
        have no_more : starts late = [] := by
          have all := starts_tags name below
          have sub := labels_sublist name (inside ++ [.stop (name label)])
          rw [below_read, ← all, cut] at sub
          have count := sub.length_le
          simp only [starts_append, starts, List.length_append, List.append_nil] at count
          exact List.length_eq_zero_iff.mp (by omega)
        have below_whole := below_sound (inside ++ [.stop (name label)]) late [] (by simp [cut]) rfl
          below_read
        have alone_here : beside = .nil := by
          rw [← beside_read]
          rcases behind with _ | ⟨tag, behind⟩
          · exact children_nil name
          · rcases late with _ | ⟨found | other, late⟩
            · injection next with head
              rw [head, children_stop]
            · simp [starts] at no_more
            · injection next with head
              rw [head, children_stop]
        refine ⟨.inr ⟨alone_here, ?_⟩, below_whole, by rw [alone_here]; trivial⟩
        exact endsWith_of_read (name label) below below_whole inside late cut first no_more below_read

/-- Reading gives back a forest, its labels put through a function, if and only if the forest
is sound and the function leaves its labels as they are. -/
theorem read_map_iff (f : Label → Label) (forest : Forest Label) (rest : List (Tag Label Name))
    (stops : starts rest = []) :
    (children name (tags name forest ++ rest)).map f = forest ↔
      Sound name forest ∧ ∀ label ∈ forest.labels, f label = label := by
  constructor
  · intro read
    have sub := labels_sublist name (tags name forest ++ rest)
    rw [starts_append, starts_tags, stops, List.append_nil] at sub
    have images : (children name (tags name forest ++ rest)).labels.map f = forest.labels := by
      rw [← Forest.labels_map, read]
    have lengths := congrArg List.length images
    rw [List.length_map] at lengths
    have same := sub.eq_of_length lengths
    rw [same] at images
    have fixed : ∀ label ∈ forest.labels, f label = label := by
      have id_images : forest.labels.map f = forest.labels.map id := by rw [images, List.map_id]
      exact List.map_inj_left.mp id_images
    refine ⟨?_, fixed⟩
    rw [Forest.map_of_fixed f _ (by rwa [same])] at read
    exact sound_of_read forest _ [] rest (by simp) stops read
  · rintro ⟨sound, fixed⟩
    rw [(children_tags_of_sound forest sound).1 rest stops, Forest.map_of_fixed f forest fixed]

end EChainLib.Tags
