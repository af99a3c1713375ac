import EChainLib.Ca.Issue

/-! The loop of `CA::copy_extensions` call by call. It deletes and appends in the list that it
searches, and any call of `X509_add_ext` may fail. -/

namespace EChainLib.Ca

/-- `X509_get_ext_by_OBJ` from the start; `none` is -1. -/
def getExtByObj (exts : List Extension) (obj : Oid) : Option Nat :=
  exts.findIdx? fun ext => ext.object = obj

/-- The inner loop, until no extension under the OID is found. -/
def deleteAll (obj : Oid) (exts : List Extension) : List Extension :=
  match found : getExtByObj exts obj with
  | none => exts
  | some idx =>
      have := (List.findIdx?_eq_some_iff_getElem.mp found).1
      deleteAll obj (exts.eraseIdx idx)
termination_by exts.length
decreasing_by
  rw [List.length_eraseIdx_of_lt this]
  omega

/-- The loop over the request's extensions, each with what `X509_add_ext` says to it. -/
def copyLoop (copy_type : ExtCopy) : List (Extension × Bool) → List Extension → List Extension
  | [], x => x
  | (ext, added) :: rest, x =>
      if (getExtByObj x ext.object).isSome then
        if copy_type = .add then copyLoop copy_type rest x
        else if added then copyLoop copy_type rest (deleteAll ext.object x ++ [ext])
        else deleteAll ext.object x
      else if added then copyLoop copy_type rest (x ++ [ext])
      -- the `break` leaves the loop only
      else x

/-- What `copy_extensions` returns and the certificate's extensions behind it. -/
def copyExtensionsCalls (copy_type : ExtCopy) (x : List Extension)
    (req : List (Extension × Bool)) : Bool × List Extension :=
  if copy_type = .none then (true, x) else (true, copyLoop copy_type req x)

/-! What the copy is for. -/

def objects (exts : List Extension) : List Oid := exts.map Extension.object

@[simp] theorem objects_nil : objects [] = [] := rfl

@[simp] theorem objects_cons (ext : Extension) (rest : List Extension) :
    objects (ext :: rest) = ext.object :: objects rest := rfl

@[simp] theorem objects_append (front back : List Extension) :
    objects (front ++ back) = objects front ++ objects back := List.map_append

def Lists (exts : List Extension) (obj : Oid) : Prop := obj ∈ objects exts

instance (exts : List Extension) (obj : Oid) : Decidable (Lists exts obj) :=
  inferInstanceAs (Decidable (obj ∈ objects exts))

/-- The extensions of the request that are to be in the certificate. -/
def toBeAdded (copy_type : ExtCopy) (x : List Extension) (req : List (Extension × Bool)) :
    List (Extension × Bool) :=
  match copy_type with
  | .none => []
  | .add => req.filter fun call => ¬ Lists x call.1.object
  | .all => req

/-- The certificate's own that are to stay. -/
def toBeKept (copy_type : ExtCopy) (x : List Extension) (req : List (Extension × Bool)) :
    List Extension :=
  match copy_type with
  | .all => x.filter fun ext => ¬ Lists (req.map Prod.fst) ext.object
  | _ => x

def merged (copy_type : ExtCopy) (x : List Extension) (req : List (Extension × Bool)) :
    List Extension :=
  toBeKept copy_type x req ++ (toBeAdded copy_type x req).map Prod.fst

/-- `true` stands for the merged list, and `false` is returned if an extension is missing. -/
structure CopiesExactly (copy_type : ExtCopy) (x : List Extension)
    (req : List (Extension × Bool)) : Prop where
  exact : (copyExtensionsCalls copy_type x req).1 = true →
    (copyExtensionsCalls copy_type x req).2 = merged copy_type x req
  reported : (∃ call ∈ toBeAdded copy_type x req, call.1 ∉ (copyExtensionsCalls copy_type x req).2) →
    (copyExtensionsCalls copy_type x req).1 = false

/-- No OID twice among what is to be added, and none of its calls fails. -/
structure Copyable (copy_type : ExtCopy) (x : List Extension) (req : List (Extension × Bool)) :
    Prop where
  distinct : (objects ((toBeAdded copy_type x req).map Prod.fst)).Nodup
  added : ∀ call ∈ toBeAdded copy_type x req, call.2 = true

/-! One round. -/

theorem getExtByObj_isSome (exts : List Extension) (obj : Oid) :
    (getExtByObj exts obj).isSome = true ↔ Lists exts obj := by
  simp [getExtByObj, Lists, objects]

theorem deleteAll_eq (obj : Oid) (exts : List Extension) :
    deleteAll obj exts = exts.filter fun ext => ext.object ≠ obj := by
  fun_induction deleteAll obj exts with
  | case1 exts missing =>
      have others := List.findIdx?_eq_none_iff.mp missing
      exact (List.filter_eq_self.mpr fun ext there => by simpa using others ext there).symm
  | case2 exts idx found _ ih =>
      obtain ⟨inside, own, _⟩ := List.findIdx?_eq_some_iff_getElem.mp found
      rw [ih]
      conv_rhs => rw [← List.take_append_drop idx exts, List.drop_eq_getElem_cons inside]
      rw [List.eraseIdx_eq_take_drop_succ, List.filter_append, List.filter_append,
        List.filter_cons_of_neg (by simpa using own)]

/-- The extensions under other OIDs. -/
def others (ext : Extension) (x : List Extension) : List Extension :=
  x.filter fun tmpext => tmpext.object ≠ ext.object

theorem others_unlisted (ext : Extension) (x : List Extension) (unlisted : ¬ Lists x ext.object) :
    others ext x = x := by
  refine List.filter_eq_self.mpr fun tmpext there => decide_eq_true fun same => unlisted ?_
  exact same ▸ List.mem_map_of_mem there

/-- Whether or not the OID is there, an added extension ends up behind those of other OIDs. -/
theorem copyLoop_cons (copy_type : ExtCopy) (ext : Extension) (added : Bool)
    (rest : List (Extension × Bool)) (x : List Extension) :
    copyLoop copy_type ((ext, added) :: rest) x =
      if copy_type = .add ∧ Lists x ext.object then copyLoop copy_type rest x
      else if added then copyLoop copy_type rest (others ext x ++ [ext])
      else others ext x := by
  rw [copyLoop]
  by_cases listed : Lists x ext.object
  · have found := (getExtByObj_isSome x ext.object).mpr listed
    by_cases add : copy_type = .add
    · simp only [found, add, listed, and_self, if_true]
    · simp only [found, add, false_and, if_true, if_false, deleteAll_eq]
      rfl
  · have missing : (getExtByObj x ext.object).isSome = false :=
      Bool.eq_false_iff.mpr fun found => listed ((getExtByObj_isSome x ext.object).mp found)
    simp only [missing, listed, and_false, Bool.false_eq_true, if_false,
      others_unlisted ext x listed]

theorem others_count (ext : Extension) (x : List Extension) (obj : Oid) :
    (objects (others ext x)).count obj =
      if ext.object = obj then 0 else (objects x).count obj := by
  induction x with
  | nil => simp [others, objects]
  | cons tmpext rest ih =>
      by_cases own : tmpext.object = ext.object
      · have skipped : others ext (tmpext :: rest) = others ext rest := by simp [others, own]
        rw [skipped, ih, objects_cons, own]
        split_ifs with wanted
        · rfl
        · exact (List.count_cons_of_ne wanted).symm
      · have kept : others ext (tmpext :: rest) = tmpext :: others ext rest := by
          simp [others, own]
        rw [kept, objects_cons, List.count_cons, ih, objects_cons, List.count_cons]
        split_ifs with wanted here
        · exact absurd ((eq_of_beq here).trans wanted.symm) own
        · rfl
        · rfl
        · rfl

/-- The loop never makes a second extension of an OID. -/
theorem copyLoop_count (copy_type : ExtCopy) (req : List (Extension × Bool)) (x : List Extension)
    (obj : Oid) (once : (objects x).count obj ≤ 1) :
    (objects (copyLoop copy_type req x)).count obj ≤ 1 := by
  induction req generalizing x with
  | nil => exact once
  | cons call rest ih =>
      obtain ⟨ext, added⟩ := call
      have left := others_count ext x obj
      rw [copyLoop_cons]
      split_ifs with skipped success
      · exact ih x once
      · apply ih
        rw [objects_append, List.count_append, left]
        by_cases own : ext.object = obj
        · simp [own, objects]
        · simpa [own, objects] using once
      · rw [left]
        split_ifs <;> omega

/-- Two extensions of one OID cannot both come out of the loop. -/
theorem copyLoop_twice (copy_type : ExtCopy) (req : List (Extension × Bool))
    (x exts : List Extension) (obj : Oid) (once : (objects x).count obj ≤ 1)
    (twice : 2 ≤ (objects exts).count obj) : copyLoop copy_type req x ≠ exts := by
  have bound := copyLoop_count copy_type req x obj once
  rintro rfl
  omega

/-! The whole loop. -/

theorem copyable_all_cons (ext : Extension) (added : Bool) (rest : List (Extension × Bool))
    (x y : List Extension) :
    Copyable .all x ((ext, added) :: rest) ↔
      ¬ Lists (rest.map Prod.fst) ext.object ∧ added = true ∧ Copyable .all y rest := by
  constructor
  · rintro ⟨distinct, success⟩
    have split := List.nodup_cons.mp distinct
    exact ⟨split.1, success (ext, added) List.mem_cons_self, split.2, fun call there =>
      success call (List.mem_cons_of_mem _ there)⟩
  · rintro ⟨fresh, success, distinct, rest_success⟩
    exact ⟨List.nodup_cons.mpr ⟨fresh, distinct⟩, List.forall_mem_cons.mpr ⟨success, rest_success⟩⟩

theorem copyLoop_all_iff (req : List (Extension × Bool)) (x : List Extension) :
    copyLoop .all req x = merged .all x req ↔ Copyable .all x req := by
  induction req generalizing x with
  | nil =>
      have whole : merged .all x [] = x := by simp [merged, toBeKept, toBeAdded, Lists, objects]
      rw [whole]
      exact ⟨fun _ => ⟨List.nodup_nil, by simp [toBeAdded]⟩, fun _ => rfl⟩
  | cons call rest ih =>
      obtain ⟨ext, added⟩ := call
      rw [copyLoop_cons, if_neg (by simp), copyable_all_cons ext added rest x (others ext x ++ [ext])]
      have front : merged .all x ((ext, added) :: rest) =
          ((others ext x).filter fun tmpext => ¬ Lists (rest.map Prod.fst) tmpext.object) ++
            ext :: rest.map Prod.fst := by
        simp only [merged, toBeKept, toBeAdded, others, List.map_cons, List.filter_filter]
        congr 2
        funext tmpext
        rw [Bool.eq_iff_iff]
        simp only [Bool.and_eq_true, decide_eq_true_eq]
        simp only [Lists, objects_cons, List.mem_cons, not_or]
        exact and_comm
      cases added with
      | false =>
          rw [if_neg (by decide)]
          refine iff_of_false (fun same => ?_) (by simp)
          have own : ext ∈ others ext x := by rw [same, front]; simp
          simpa [others] using (List.mem_filter.mp own).2
      | true =>
          rw [if_pos rfl]
          by_cases fresh : Lists (rest.map Prod.fst) ext.object
          · -- the later one would have to take the place of this one and stand behind it too
            refine iff_of_false (copyLoop_twice _ _ _ _ ext.object ?_ ?_) fun all => all.1 fresh
            · rw [objects_append, List.count_append, others_count]
              simp [objects]
            · have later : 0 < (objects (rest.map Prod.fst)).count ext.object :=
                List.count_pos_iff.mpr fresh
              rw [front, objects_append, objects_cons, List.count_append, List.count_cons_self]
              omega
          · have last : merged .all x ((ext, true) :: rest) =
                merged .all (others ext x ++ [ext]) rest := by
              rw [front]
              simp [merged, toBeKept, toBeAdded, fresh]
            rw [last, ih]
            simp [fresh]

theorem toBeAdded_listed (ext : Extension) (added : Bool) (rest : List (Extension × Bool))
    (x : List Extension) (listed : Lists x ext.object) :
    toBeAdded .add x ((ext, added) :: rest) = toBeAdded .add x rest := by
  simp [toBeAdded, listed]

theorem toBeAdded_unlisted (ext : Extension) (added : Bool) (rest : List (Extension × Bool))
    (x : List Extension) (unlisted : ¬ Lists x ext.object) :
    toBeAdded .add x ((ext, added) :: rest) = (ext, added) :: toBeAdded .add x rest := by
  simp [toBeAdded, unlisted]

/-- Behind an extension that is new to the certificate and comes once, the same are to be added. -/
theorem toBeAdded_appended (ext : Extension) (rest : List (Extension × Bool)) (x : List Extension)
    (fresh : ¬ Lists ((toBeAdded .add x rest).map Prod.fst) ext.object) :
    toBeAdded .add (x ++ [ext]) rest = toBeAdded .add x rest := by
  simp only [toBeAdded]
  refine List.filter_congr fun call there => ?_
  by_cases own : call.1.object = ext.object
  · have listed : Lists x call.1.object := by
      by_contra unlisted
      refine fresh (own ▸ ?_)
      exact List.mem_map_of_mem (List.mem_map_of_mem (List.mem_filter.mpr ⟨there, by simp [unlisted]⟩))
    simp [Lists] at listed ⊢
    simp [listed]
  · simp [Lists, objects, own]

theorem copyable_add_listed (ext : Extension) (added : Bool) (rest : List (Extension × Bool))
    (x : List Extension) (listed : Lists x ext.object) :
    Copyable .add x ((ext, added) :: rest) ↔ Copyable .add x rest := by
  have same := toBeAdded_listed ext added rest x listed
  exact ⟨fun ⟨distinct, success⟩ => ⟨same ▸ distinct, same ▸ success⟩,
    fun ⟨distinct, success⟩ => ⟨same ▸ distinct, same ▸ success⟩⟩

theorem copyable_add_cons (ext : Extension) (added : Bool) (rest : List (Extension × Bool))
    (x : List Extension) (unlisted : ¬ Lists x ext.object) :
    Copyable .add x ((ext, added) :: rest) ↔
      ¬ Lists ((toBeAdded .add x rest).map Prod.fst) ext.object ∧ added = true ∧
        Copyable .add (x ++ [ext]) rest := by
  have first := toBeAdded_unlisted ext added rest x unlisted
  constructor
  · rintro ⟨distinct, success⟩
    rw [first] at distinct success
    have split := List.nodup_cons.mp distinct
    have rest_same := toBeAdded_appended ext rest x split.1
    obtain ⟨own, rest_success⟩ := List.forall_mem_cons.mp success
    exact ⟨split.1, own, rest_same ▸ split.2, rest_same ▸ rest_success⟩
  · rintro ⟨fresh, success, distinct, rest_success⟩
    have rest_same := toBeAdded_appended ext rest x fresh
    rw [rest_same] at distinct rest_success
    refine ⟨?_, ?_⟩
    · rw [first]
      exact List.nodup_cons.mpr ⟨fresh, distinct⟩
    · rw [first]
      exact List.forall_mem_cons.mpr ⟨success, rest_success⟩

theorem copyLoop_add_iff (req : List (Extension × Bool)) (x : List Extension) :
    copyLoop .add req x = merged .add x req ↔ Copyable .add x req := by
  induction req generalizing x with
  | nil =>
      have whole : merged .add x [] = x := by simp [merged, toBeKept, toBeAdded]
      rw [whole]
      exact ⟨fun _ => ⟨List.nodup_nil, by simp [toBeAdded]⟩, fun _ => rfl⟩
  | cons call rest ih =>
      obtain ⟨ext, added⟩ := call
      by_cases listed : Lists x ext.object
      · have same := toBeAdded_listed ext added rest x listed
        rw [copyLoop_cons, if_pos ⟨rfl, listed⟩, copyable_add_listed ext added rest x listed, ← ih x,
          merged, merged, same]
        rfl
      · have front : merged .add x ((ext, added) :: rest) =
            x ++ ext :: (toBeAdded .add x rest).map Prod.fst := by
          rw [merged, toBeAdded_unlisted ext added rest x listed]
          rfl
        rw [copyLoop_cons, if_neg (fun both => listed both.2), others_unlisted ext x listed,
          copyable_add_cons ext added rest x listed]
        cases added with
        | false =>
            rw [if_neg (by decide), front]
            refine iff_of_false (fun same => ?_) (by simp)
            have length := congrArg List.length same
            simp at length
        | true =>
            rw [if_pos rfl]
            by_cases fresh : Lists ((toBeAdded .add x rest).map Prod.fst) ext.object
            · refine iff_of_false (copyLoop_twice _ _ _ _ ext.object ?_ ?_) fun all => all.1 fresh
              · have none_yet : (objects x).count ext.object = 0 := List.count_eq_zero.mpr listed
                simp [none_yet]
              · have later : 0 < (objects ((toBeAdded .add x rest).map Prod.fst)).count ext.object :=
                  List.count_pos_iff.mpr fresh
                rw [front, objects_append, objects_cons, List.count_append, List.count_cons_self]
                omega
            · have last : merged .add x ((ext, true) :: rest) = merged .add (x ++ [ext]) rest := by
                rw [front, merged, toBeAdded_appended ext rest x fresh]
                simp [toBeKept]
              rw [last, ih]
              simp [fresh]

/-- The copy is exact as far as no OID is to be added twice and every call succeeds. -/
theorem copies_exactly_iff (copy_type : ExtCopy) (x : List Extension)
    (req : List (Extension × Bool)) :
    CopiesExactly copy_type x req ↔ Copyable copy_type x req := by
  have returned : (copyExtensionsCalls copy_type x req).1 = true := by
    unfold copyExtensionsCalls
    split <;> rfl
  have left : (copyExtensionsCalls copy_type x req).2 = merged copy_type x req ↔
      Copyable copy_type x req := by
    cases copy_type with
    | none =>
        have unchanged : merged .none x req = x := by simp [merged, toBeKept, toBeAdded]
        exact iff_of_true unchanged.symm ⟨List.nodup_nil, by simp [toBeAdded]⟩
    | add => exact copyLoop_add_iff req x
    | all => exact copyLoop_all_iff req x
  rw [← left]
  constructor
  · exact fun exactly => exactly.exact returned
  · intro same
    refine ⟨fun _ => same, ?_⟩
    rintro ⟨call, wanted, missing⟩
    rw [same, merged] at missing
    exact absurd (List.mem_append_right _ (List.mem_map_of_mem wanted)) missing

/-- With every call a success the loop is the copy that issuing a certificate makes. -/
theorem copyExtensions_calls (lib : OpenSsl) (x : X509 lib.toKeyTypes) (req : X509Req lib.toKeyTypes)
    (copy_type : ExtCopy) :
    (copyExtensionsCalls copy_type x.extensions (req.extensions.map fun ext => (ext, true))).2 =
      (copyExtensions lib x req copy_type).extensions := by
  have rounds : ∀ (exts before : List Extension),
      copyLoop copy_type (exts.map fun ext => (ext, true)) before =
        exts.foldl (copyExtension copy_type) before := by
    intro exts
    induction exts with
    | nil => exact fun _ => rfl
    | cons ext rest ih =>
        intro before
        have found : (before.any fun tmpext => tmpext.object = ext.object) = true ↔
            Lists before ext.object := by simp [Lists, objects]
        rw [List.map_cons, copyLoop_cons, List.foldl_cons, copyExtension, ih, ih]
        by_cases listed : Lists before ext.object
        · rw [if_pos (found.mpr listed)]
          by_cases add : copy_type = .add <;> simp [add, listed, others]
        · rw [if_neg fun any => listed (found.mp any), others_unlisted ext before listed]
          simp [listed]
  unfold copyExtensionsCalls copyExtensions
  split_ifs
  · rfl
  · exact rounds req.extensions x.extensions

/-- An extension of the request that `X509_add_ext` does not take. -/
theorem failed_add_not_reported :
    copyExtensionsCalls .all [] [(⟨nodeId, false, [0x16, 0x00]⟩, false)] = (true, []) ∧
      ¬ CopiesExactly .all [] [(⟨nodeId, false, [0x16, 0x00]⟩, false)] := by
  have returned : copyExtensionsCalls .all [] [(⟨nodeId, false, [0x16, 0x00]⟩, false)] =
      (true, []) := by
    rw [copyExtensionsCalls, if_neg (by decide), copyLoop_cons]
    rfl
  refine ⟨returned, fun exactly => ?_⟩
  have same := exactly.exact (congrArg Prod.fst returned)
  rw [returned] at same
  cases same

end EChainLib.Ca
