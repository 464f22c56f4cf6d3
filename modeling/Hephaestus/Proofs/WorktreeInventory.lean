import Hephaestus.Github.WorktreeInventory

/-!
# The worktree inventory as Git prints it

A record of Git is a path and its attributes, each with a keyword of its own. So a
field is read as the attribute it was printed for, and neither the parser nor the scanner
for locks can mistake the end of a record, whatever is in a path, a branch or a reason.
What the parser cannot see is that the text goes on: it adds the empty field that ends
a record itself, and takes a record that was cut off after any field, or inside a value,
for a whole one.
-/

namespace Hephaestus.Github

open Hephaestus.Lib Hephaestus.Automation

/-! ## What Git prints -/

/-- An attribute of a worktree. -/
inductive Attribute
  | bare
  | head (oid : Text)
  | detached
  | branch (name : Text)
  | locked (reason : Text)
  | prunable (reason : Text)
  deriving DecidableEq

namespace Attribute

def name : Attribute → AttributeName
  | bare => .bare
  | head _ => .head
  | detached => .detached
  | branch _ => .branch
  | locked _ => .locked
  | prunable _ => .prunable

/-- The text after a keyword that may not be missing. -/
def value : Attribute → Option Text
  | head oid => some oid
  | branch name => some name
  | _ => none

/-- The field of an attribute. A lock without a reason has the keyword only. -/
def field : Attribute → Text
  | bare => "bare".toList
  | head oid => "HEAD ".toList ++ oid
  | detached => "detached".toList
  | branch name => "branch refs/heads/".toList ++ name
  | locked reason => if reason = [] then "locked".toList else "locked ".toList ++ reason
  | prunable reason => "prunable ".toList ++ reason

end Attribute

/-- What is checked out in a worktree. -/
inductive Checkout
  | bare
  | unborn (oid : Text)
  | detached (oid : Text)
  | branch (oid name : Text)
  deriving DecidableEq

def Checkout.attributes : Checkout → List Attribute
  | bare => [.bare]
  | unborn oid => [.head oid]
  | detached oid => [.head oid, .detached]
  | branch oid name => [.head oid, .branch name]

def Checkout.branch? : Checkout → Option Text
  | branch _ name => some name
  | _ => none

/-- A worktree in the inventory. -/
structure WorktreeRecord where
  path : PosixPath
  checkout : Checkout
  lock : Option Text
  prune : Option Text
  deriving DecidableEq

namespace WorktreeRecord

def attributes (r : WorktreeRecord) : List Attribute :=
  r.checkout.attributes ++ r.lock.toList.map .locked ++ r.prune.toList.map .prunable

def fields (r : WorktreeRecord) : List Text :=
  ("worktree ".toList ++ r.path.toText) :: r.attributes.map Attribute.field

/-- The path is absolute, no name is empty, and nothing holds a NUL. -/
structure Printable (r : WorktreeRecord) : Prop where
  absolute : r.path.isAbsolute = true
  named : ∀ a ∈ r.attributes, a.value ≠ some []
  noNul : ∀ field ∈ r.fields, '\x00' ∉ field

/-- The record without the field that ends it. -/
def openText (r : WorktreeRecord) : Text := r.fields.flatMap (· ++ ['\x00'])

end WorktreeRecord

/-- The inventory of a list of worktrees. -/
def inventoryText (records : List WorktreeRecord) : Text :=
  records.flatMap fun r => r.openText ++ ['\x00']

/-! ## Fields -/

theorem splitOn_flatMap {fields : List Text} (h : ∀ field ∈ fields, '\x00' ∉ field) (t : Text) :
    (fields.flatMap (· ++ ['\x00']) ++ t).splitOn '\x00' = fields ++ t.splitOn '\x00' := by
  induction fields with
  | nil => rfl
  | cons field fields ih =>
      rw [List.forall_mem_cons] at h
      rw [List.flatMap_cons, List.append_assoc, List.append_assoc, List.singleton_append,
        List.splitOn_append_cons_self_of_not_mem h.1, ih h.2, List.cons_append]

theorem inventoryFields_append {records : List WorktreeRecord}
    (h : ∀ r ∈ records, r.Printable) (t : Text) :
    inventoryFields (inventoryText records ++ t)
      = records.flatMap (fun r => r.fields ++ [[]]) ++ inventoryFields t := by
  induction records with
  | nil => rfl
  | cons r records ih =>
      rw [List.forall_mem_cons] at h
      have hfields : ∀ field ∈ r.fields ++ [[]], '\x00' ∉ field := by
        intro field hfield
        rcases List.mem_append.mp hfield with hfield | hfield
        · exact h.1.noNul field hfield
        · rw [List.mem_singleton.mp hfield]
          exact List.not_mem_nil
      have htext : inventoryText (r :: records) ++ t
          = (r.fields ++ [[]]).flatMap (· ++ ['\x00']) ++ (inventoryText records ++ t) := by
        simp [inventoryText, WorktreeRecord.openText]
      have hrest := ih h.2
      unfold inventoryFields at hrest ⊢
      rw [htext, splitOn_flatMap hfields, List.append_assoc, hrest, List.flatMap_cons]
      simp only [List.append_assoc]

/-! ## Keywords -/

/-- What a field of an attribute starts with. -/
def AttributeName.keyword : AttributeName → Text
  | .worktree => "worktree ".toList
  | .branch => "branch refs/heads/".toList
  | .head => "HEAD ".toList
  | .bare => "bare".toList
  | .detached => "detached".toList
  | .locked => "locked".toList
  | .prunable => "prunable".toList

theorem startsWith_iff {t start : Text} : Text.startsWith t start = true ↔ start <+: t :=
  List.isPrefixOf_iff_prefix

theorem keyword_field (a : Attribute) : a.name.keyword <+: a.field := by
  cases a with
  | bare => exact List.prefix_refl _
  | head oid => exact List.prefix_append _ _
  | detached => exact List.prefix_refl _
  | branch name => exact List.prefix_append _ _
  | locked reason =>
      show "locked".toList <+: if reason = [] then "locked".toList else "locked ".toList ++ reason
      split
      · exact List.prefix_refl _
      · exact ⟨' ' :: reason, rfl⟩
  | prunable reason => exact ⟨' ' :: reason, rfl⟩

/-- No keyword starts with another. -/
theorem keyword_inj {a b : AttributeName} (h : a.keyword <+: b.keyword) : a = b := by
  cases a <;> cases b <;> first | rfl | exact absurd h (by decide)

theorem keyword_unique {a b : AttributeName} {t : Text} (ha : a.keyword <+: t)
    (hb : b.keyword <+: t) : a = b := by
  rcases List.prefix_or_prefix_of_prefix ha hb with h | h
  · exact keyword_inj h
  · exact (keyword_inj h).symm

/-- A field is read by its keyword. -/
theorem keyword_of_inventoryAttribute {field : Text} {name : AttributeName} {value : Option Text}
    (h : inventoryAttribute field = .ok (name, value)) : name.keyword <+: field := by
  unfold inventoryAttribute at h
  split at h
  · next hstart => cases h; exact startsWith_iff.mp hstart
  · split at h
    · next hstart => cases h; exact startsWith_iff.mp hstart
    · split at h
      · next heq => cases h; rw [heq]; exact List.prefix_refl _
      · split at h
        · next heq => cases h; rw [heq]; exact List.prefix_refl _
        · split at h
          · next hlock =>
            cases h
            rcases hlock with heq | hstart
            · rw [heq]; exact List.prefix_refl _
            · exact List.IsPrefix.trans ⟨[' '], rfl⟩ (startsWith_iff.mp hstart)
          · split at h
            · next hprune =>
              cases h
              rcases hprune with heq | hstart
              · rw [heq]; exact List.prefix_refl _
              · exact List.IsPrefix.trans ⟨[' '], rfl⟩ (startsWith_iff.mp hstart)
            · cases h

theorem inventoryAttribute_field (a : Attribute) :
    inventoryAttribute a.field = .ok (a.name, a.value) := by
  cases a with
  | bare => rfl
  | head oid => rfl
  | detached => rfl
  | branch name => rfl
  | locked reason =>
      by_cases hreason : reason = []
      · subst hreason
        rfl
      · have hfield : (Attribute.locked reason).field = "locked ".toList ++ reason := if_neg hreason
        rw [hfield]
        rfl
  | prunable reason => rfl

/-! ## The parser on a record -/

theorem field_ne_nil (a : Attribute) : a.field ≠ [] := by
  intro h
  have hkeyword := keyword_field a
  rw [h, List.prefix_nil] at hkeyword
  cases hname : a.name <;> rw [hname] at hkeyword <;> exact absurd hkeyword (by decide)

theorem field_not_worktree {a : Attribute} {t : Text} (h : t <+: a.field) :
    Text.startsWith t "worktree ".toList = false := by
  rw [← Bool.not_eq_true, startsWith_iff]
  intro hstart
  have hname : AttributeName.worktree = a.name := keyword_unique (hstart.trans h) (keyword_field a)
  cases a <;> cases hname

variable {root : PosixPath} {s : InventoryState} {a : Attribute} {path : PosixPath}

/-- What an attribute adds to the state. -/
def InventoryState.add (s : InventoryState) (a : Attribute) : InventoryState :=
  { s with
    branch := if a.name = .branch then a.value else s.branch
    attributes := a.name :: s.attributes }

theorem parseField_attribute (hpath : s.path ≠ none) (hnew : a.name ∉ s.attributes)
    (hnamed : a.value ≠ some []) : parseField root s a.field = .ok (s.add a) := by
  unfold parseField addInventoryAttribute
  rw [field_not_worktree (List.prefix_refl _), if_neg (by simp), if_neg (field_ne_nil a),
    inventoryAttribute_field]
  have hcheck : ¬ (s.path = none ∨ a.name ∈ s.attributes
      ∨ ((a.name = .head ∨ a.name = .branch) ∧ a.value.getD [] = [])) := by
    rintro (h | h | ⟨_, h⟩)
    · exact hpath h
    · exact hnew h
    · cases a <;> simp_all [Attribute.value, Attribute.name]
  show (raiseIf _ malformed >>= fun _ => _) = _
  rw [raiseIf, if_neg hcheck]
  rfl

/-- The attributes of a record, one after the other. -/
theorem foldlM_attributes {as : List Attribute} (hpath : s.path ≠ none)
    (hnew : ∀ a ∈ as, a.name ∉ s.attributes) (hnodup : (as.map Attribute.name).Nodup)
    (hnamed : ∀ a ∈ as, a.value ≠ some []) :
    (as.map Attribute.field).foldlM (parseField root) s
      = .ok (as.foldl InventoryState.add s) := by
  induction as generalizing s with
  | nil => rfl
  | cons a as ih =>
      rw [List.forall_mem_cons] at hnew hnamed
      rw [List.map_cons, List.nodup_cons] at hnodup
      rw [List.map_cons, List.foldlM_cons, parseField_attribute hpath hnew.1 hnamed.1]
      refine ih hpath (fun b hb => ?_) hnodup.2 hnamed.2
      show b.name ∉ a.name :: s.attributes
      rw [List.mem_cons, not_or]
      exact ⟨fun heq => hnodup.1 (heq ▸ List.mem_map_of_mem hb), hnew.2 b hb⟩

/-! ## Whole records -/

/-- Attributes change the branch and the set of attributes only. -/
theorem foldl_add (as : List Attribute) (s : InventoryState) :
    as.foldl InventoryState.add s = { s with
      branch := (as.foldl InventoryState.add s).branch
      attributes := (as.map Attribute.name).reverse ++ s.attributes } := by
  induction as generalizing s with
  | nil => rfl
  | cons a as ih =>
      rw [List.foldl_cons, ih (s.add a), List.map_cons, List.reverse_cons, List.append_assoc]
      rfl

variable {r : WorktreeRecord} {as : List Attribute}

theorem nodup_names (r : WorktreeRecord) : (r.attributes.map Attribute.name).Nodup := by
  obtain ⟨path, checkout, lock, prune⟩ := r
  cases checkout <;> cases lock <;> cases prune <;>
    simp [WorktreeRecord.attributes, Checkout.attributes, Attribute.name]

theorem name_ne_worktree (a : Attribute) : a.name ≠ .worktree := by
  cases a <;> simp [Attribute.name]

/-- The names of a record, or of its first attributes, are in order. -/
theorem validate_of_leads (h : as <+: r.attributes) (hne : as ≠ []) :
    validateInventoryRecord ((as.map Attribute.name).reverse ++ [.worktree]) = .ok () := by
  have hmem : ∀ name, name ∈ (as.map Attribute.name).reverse ++ [.worktree] →
      name ∈ r.attributes.map Attribute.name ∨ name = .worktree := by
    intro name hname
    rcases List.mem_append.mp hname with hname | hname
    · exact .inl ((h.map Attribute.name).subset (List.mem_reverse.mp hname))
    · exact .inr (List.mem_singleton.mp hname)
  unfold validateInventoryRecord
  rw [check_bind_ok, raiseIf_ok, raiseIf_ok]
  constructor
  · rintro ⟨hbranch, hother⟩
    have hbranch := (hmem _ hbranch).resolve_right (by simp)
    have hother : .bare ∈ r.attributes.map Attribute.name
        ∨ .detached ∈ r.attributes.map Attribute.name :=
      hother.imp (fun hbare => (hmem _ hbare).resolve_right (by simp))
        fun hdetached => (hmem _ hdetached).resolve_right (by simp)
    obtain ⟨path, checkout, lock, prune⟩ := r
    cases checkout <;> cases lock <;> cases prune <;>
      simp [WorktreeRecord.attributes, Checkout.attributes, Attribute.name] at hbranch hother
  · rintro ⟨hbare, hhead⟩
    obtain ⟨rest, hrest⟩ := h
    cases as with
    | nil => exact hne rfl
    | cons a as =>
        have hfirst : a.name = .bare ∨ a.name = .head := by
          obtain ⟨path, checkout, lock, prune⟩ := r
          have ha : some a = (WorktreeRecord.attributes ⟨path, checkout, lock, prune⟩).head? := by
            rw [← hrest]
            rfl
          cases checkout <;>
            simp only [WorktreeRecord.attributes, Checkout.attributes, List.cons_append,
              List.head?_cons, Option.some.injEq] at ha <;> simp [ha, Attribute.name]
        have ha : a.name ∈ ((a :: as).map Attribute.name).reverse ++ [AttributeName.worktree] := by
          simp
        rcases hfirst with hname | hname
        · exact hbare (hname ▸ ha)
        · exact hhead (hname ▸ ha)

/-- The state between two records. -/
def between (worktrees : List (PosixPath × Text)) (primary : Option PosixPath) (records : Nat) :
    InventoryState :=
  { worktrees, primary, records }

/-- The state after the path of a record. -/
def opened (worktrees : List (PosixPath × Text)) (primary : Option PosixPath) (records : Nat)
    (path : PosixPath) : InventoryState :=
  { worktrees, primary := some (primary.getD path), path := some path, attributes := [.worktree]
    records }

variable {worktrees : List (PosixPath × Text)} {primary : Option PosixPath} {n : Nat}

theorem inventoryPath_printed (habsolute : path.isAbsolute = true) :
    inventoryPath ("worktree ".toList ++ path.toText) none = .ok path := by
  have htext : path.toText ≠ [] := by
    intro h
    have hparse := PosixPath.parse_toText path
    rw [h] at hparse
    rw [← hparse] at habsolute
    exact absurd habsolute (by decide)
  unfold inventoryPath
  simp only [Text.removePrefix_append, PosixPath.parse_toText]
  rw [raiseIf, if_neg]
  · rfl
  · rintro (h | h | h)
    · exact h rfl
    · exact htext h
    · rw [habsolute] at h
      cases h

theorem parseField_path (habsolute : path.isAbsolute = true) :
    parseField root (between worktrees primary n) ("worktree ".toList ++ path.toText)
      = .ok (opened worktrees primary n path) := by
  unfold parseField
  rw [if_pos (startsWith_iff.mpr (List.prefix_append _ _))]
  show (inventoryPath _ none >>= _) = _
  rw [inventoryPath_printed habsolute]
  rfl

variable (root worktrees primary n) in
/-- The state after some attributes of a record. -/
theorem foldlM_open (hr : r.Printable) (h : as <+: r.attributes) :
    (("worktree ".toList ++ r.path.toText) :: as.map Attribute.field).foldlM (parseField root)
      (between worktrees primary n)
      = .ok (as.foldl InventoryState.add (opened worktrees primary n r.path)) := by
  rw [List.foldlM_cons, parseField_path hr.absolute]
  refine foldlM_attributes (by simp [opened]) (fun a _ => ?_) ?_ fun a ha => hr.named a (h.subset ha)
  · show a.name ∉ [AttributeName.worktree]
    rw [List.mem_singleton]
    exact name_ne_worktree a
  · exact (nodup_names r).sublist (h.map Attribute.name).sublist

theorem parseField_nil (s : InventoryState) : parseField root s [] = endRecord root s := rfl

/-- The entry that the parser makes of a record. -/
def entryOf (branch : Option Text) (path : PosixPath) (primary : Option PosixPath)
    (root : PosixPath) : List (PosixPath × Text) :=
  if some path = primary ∨ path = root then [] else branch.toList.map (path, ·)

theorem endRecord_open (hpath : s.path = some path)
    (hvalid : validateInventoryRecord s.attributes = .ok ()) :
    endRecord root s = .ok (between (s.worktrees ++ entryOf s.branch path s.primary root)
      s.primary (s.records + 1)) := by
  unfold endRecord entryOf
  rw [hpath]
  show (validateInventoryRecord s.attributes >>= fun _ => _) = _
  rw [hvalid]
  by_cases hskip : some path = s.primary ∨ path = root
  · cases hbranch : s.branch with
    | none => simp [bind, Except.bind, between, hskip]
    | some branch => simp [bind, Except.bind, between, hskip]
  · cases hbranch : s.branch with
    | none => simp [bind, Except.bind, between]
    | some branch => simp [bind, Except.bind, between, hskip]

theorem branch_foldl_add (r : WorktreeRecord) (hs : s.branch = none) :
    (r.attributes.foldl InventoryState.add s).branch = r.checkout.branch? := by
  obtain ⟨path, checkout, lock, prune⟩ := r
  cases checkout <;> cases lock <;> cases prune <;>
    simp [WorktreeRecord.attributes, Checkout.attributes, Checkout.branch?, InventoryState.add,
      Attribute.name, Attribute.value, hs]

theorem attributes_ne_nil (r : WorktreeRecord) : r.attributes ≠ [] := by
  obtain ⟨path, checkout, lock, prune⟩ := r
  cases checkout <;> simp [WorktreeRecord.attributes, Checkout.attributes]

variable (root worktrees primary n) in
/-- The end of a record of which some attributes were read. -/
theorem endRecord_prefix (h : as <+: r.attributes) (hne : as ≠ []) :
    endRecord root (as.foldl InventoryState.add (opened worktrees primary n r.path))
      = .ok (between (worktrees ++ entryOf
          (as.foldl InventoryState.add (opened worktrees primary n r.path)).branch r.path
          (some (primary.getD r.path)) root) (some (primary.getD r.path)) (n + 1)) := by
  have hstate := foldl_add as (opened worktrees primary n r.path)
  rw [hstate]
  exact endRecord_open rfl (validate_of_leads h hne)

variable (root worktrees primary n) in
theorem foldlM_record (hr : r.Printable) :
    (r.fields ++ [[]]).foldlM (parseField root) (between worktrees primary n)
      = .ok (between (worktrees ++ entryOf r.checkout.branch? r.path
          (some (primary.getD r.path)) root) (some (primary.getD r.path)) (n + 1)) := by
  have hend := endRecord_prefix root worktrees primary n (List.prefix_refl r.attributes)
    (attributes_ne_nil r)
  rw [branch_foldl_add r rfl] at hend
  unfold WorktreeRecord.fields
  rw [List.foldlM_append, foldlM_open root worktrees primary n hr (List.prefix_refl _), ← hend]
  exact bind_pure (endRecord root _)

variable (root worktrees n) in
/-- The records after the first. -/
theorem foldlM_records {records : List WorktreeRecord} (h : ∀ r ∈ records, r.Printable)
    (first : PosixPath) :
    (records.flatMap fun r => r.fields ++ [[]]).foldlM (parseField root)
      (between worktrees (some first) n)
      = .ok (between (worktrees ++
          records.flatMap fun r => entryOf r.checkout.branch? r.path (some first) root)
          (some first) (n + records.length)) := by
  induction records generalizing worktrees n with
  | nil => simp [between, pure, Except.pure]
  | cons r records ih =>
      rw [List.forall_mem_cons] at h
      rw [List.flatMap_cons, List.foldlM_append, foldlM_record root worktrees (some first) n h.1]
      show List.foldlM _ (between _ (some first) _) _ = _
      rw [ih _ _ h.2, List.flatMap_cons, List.append_assoc, List.length_cons, Nat.add_assoc,
        Nat.add_comm 1]
      rfl

/-! ## The scanner for locks -/

theorem scanLocked_attributes (b : Bool) (as : List Attribute) (rest : List Text) :
    scanLocked path b (as.map Attribute.field ++ rest)
      = ((b && as.any fun a => a.name = .locked) || scanLocked path b rest) := by
  induction as with
  | nil => simp
  | cons a as ih =>
      have hlocked : Text.startsWith a.field "locked".toList = decide (a.name = .locked) := by
        rw [Bool.eq_iff_iff, decide_eq_true_eq, startsWith_iff]
        constructor
        · exact fun h => keyword_unique (keyword_field a) h
        · intro h
          have hkeyword := keyword_field a
          rw [h] at hkeyword
          exact hkeyword
      rw [List.map_cons, List.cons_append, scanLocked, field_not_worktree (List.prefix_refl _),
        if_neg (by simp), if_neg (field_ne_nil a), hlocked, ih]
      cases b with
      | false => simp
      | true =>
          cases hname : decide (a.name = .locked) with
          | true => simp [hname]
          | false => simp [hname]

theorem scanLocked_record (r : WorktreeRecord) (b : Bool) (rest : List Text) :
    scanLocked path b (r.fields ++ [[]] ++ rest)
      = ((decide (r.path = path) && r.lock.isSome) || scanLocked path false rest) := by
  have hlock : (r.attributes.any fun a => decide (a.name = .locked)) = r.lock.isSome := by
    obtain ⟨path, checkout, lock, prune⟩ := r
    cases checkout <;> cases lock <;> cases prune <;>
      simp [WorktreeRecord.attributes, Checkout.attributes, Attribute.name]
  unfold WorktreeRecord.fields
  rw [List.cons_append, List.cons_append, scanLocked,
    if_pos (startsWith_iff.mpr (List.prefix_append _ _)), Text.removePrefix_append,
    PosixPath.parse_toText, List.append_assoc, scanLocked_attributes, hlock]
  rfl

theorem scanLocked_records (records : List WorktreeRecord) (rest : List Text) :
    scanLocked path false ((records.flatMap fun r => r.fields ++ [[]]) ++ rest)
      = ((records.any fun r => decide (r.path = path) && r.lock.isSome)
          || scanLocked path false rest) := by
  induction records with
  | nil => simp
  | cons r records ih =>
      rw [List.flatMap_cons, List.append_assoc, scanLocked_record, ih, List.any_cons,
        Bool.or_assoc]

/-! ## The inventory of a list -/

/-- The attached worktrees, but for the first and the root. -/
def attachedOthers (root : PosixPath) (records : List WorktreeRecord) : List WorktreeRecord :=
  records.tail.filter fun r => r.checkout.branch?.isSome && r.path ≠ root

/-- Worktrees with their branches. -/
def withBranches (records : List WorktreeRecord) : List (PosixPath × Text) :=
  records.flatMap fun r => r.checkout.branch?.toList.map (r.path, ·)

theorem mem_withBranches {records : List WorktreeRecord} {name : Text} :
    (path, name) ∈ withBranches records
      ↔ ∃ r ∈ records, r.path = path ∧ r.checkout.branch? = some name := by
  simp only [withBranches, List.mem_flatMap, List.mem_map, Option.mem_toList, Prod.mk.injEq]
  constructor
  · rintro ⟨r, hr, _, hname, hpath, rfl⟩
    exact ⟨r, hr, hpath, hname⟩
  · rintro ⟨r, hr, hpath, hname⟩
    exact ⟨r, hr, name, hname, hpath, rfl⟩

theorem branch_of_mem_attachedOthers {records : List WorktreeRecord}
    (h : r ∈ attachedOthers root records) : ∃ name, r.checkout.branch? = some name := by
  have hkept := List.of_mem_filter h
  rw [Bool.and_eq_true] at hkept
  exact Option.isSome_iff_exists.mp hkept.1

/-- The parser returns the attached worktrees but the first and the root, and the scanner
finds the locks of those. -/
structure ReadsExactly (root : PosixPath) (records : List WorktreeRecord) : Prop where
  worktrees : parseWorktreePorcelain (inventoryText records) root
    = .ok (withBranches (attachedOthers root records))
  locks : ∀ r ∈ attachedOthers root records,
    worktreeIsLocked r.path (inventoryText records) = r.lock.isSome

/-- There is a worktree, none of the others has the path of the first, and none that is
not locked the path of one that is. -/
structure Unambiguous (root : PosixPath) (records : List WorktreeRecord) : Prop where
  nonempty : records ≠ []
  first : ∀ r ∈ attachedOthers root records, ∀ first ∈ records.head?, r.path ≠ first.path
  locks : ∀ r ∈ attachedOthers root records, ∀ r' ∈ records, r'.path = r.path →
    r'.lock.isSome = true → r.lock.isSome = true

theorem worktreeIsLocked_inventoryText {records : List WorktreeRecord}
    (h : ∀ r ∈ records, r.Printable) : worktreeIsLocked path (inventoryText records) = true ↔
      ∃ r ∈ records, r.path = path ∧ r.lock.isSome = true := by
  have hfields := inventoryFields_append h []
  rw [List.append_nil] at hfields
  unfold worktreeIsLocked
  rw [hfields, scanLocked_records]
  show (_ || false) = true ↔ _
  rw [Bool.or_false, List.any_eq_true]
  simp only [Bool.and_eq_true, decide_eq_true_eq]

variable (root) in
/-- What is returned for a list, with what follows it still to be read. -/
theorem foldlM_inventory {records : List WorktreeRecord} (h : ∀ x ∈ r :: records, x.Printable)
    (t : Text) :
    (inventoryFields (inventoryText (r :: records) ++ t)).foldlM (parseField root) {}
      = (inventoryFields t).foldlM (parseField root)
          (between (records.flatMap fun r' => entryOf r'.checkout.branch? r'.path (some r.path) root)
            (some r.path) (records.length + 1)) := by
  rw [List.forall_mem_cons] at h
  have hself : entryOf r.checkout.branch? r.path (some r.path) root = [] := if_pos (.inl rfl)
  have hfirst := foldlM_record root [] none 0 h.1
  rw [Option.getD_none, hself] at hfirst
  rw [inventoryFields_append (List.forall_mem_cons.mpr h), List.flatMap_cons, List.append_assoc,
    List.foldlM_append]
  show ((r.fields ++ [[]]).foldlM (parseField root) (between [] none 0) >>= _) = _
  rw [hfirst]
  show List.foldlM _ (between [] (some r.path) 1) _ = _
  rw [List.foldlM_append, foldlM_records root [] 1 h.2 r.path]
  show List.foldlM _ _ _ = _
  rw [List.nil_append, Nat.add_comm]

variable (root) in
theorem parse_inventoryText {records : List WorktreeRecord} (h : ∀ x ∈ r :: records, x.Printable) :
    parseWorktreePorcelain (inventoryText (r :: records)) root
      = .ok (records.flatMap fun r' =>
          entryOf r'.checkout.branch? r'.path (some r.path) root) := by
  have hfold := foldlM_inventory root h []
  rw [List.append_nil] at hfold
  unfold parseWorktreePorcelain
  rw [hfold]
  rfl

theorem entries_eq (r : WorktreeRecord) (first : PosixPath) (records : List WorktreeRecord) :
    (records.flatMap fun r => entryOf r.checkout.branch? r.path (some first) root)
      = withBranches ((attachedOthers root (r :: records)).filter fun r => r.path ≠ first) := by
  show _ = withBranches ((records.filter _).filter _)
  induction records with
  | nil => rfl
  | cons r' records ih =>
      rw [List.flatMap_cons, ih, List.filter_cons]
      unfold entryOf
      by_cases hattached : (r'.checkout.branch?.isSome && decide (r'.path ≠ root)) = true
      · rw [if_pos hattached, List.filter_cons]
        rw [Bool.and_eq_true, decide_eq_true_eq] at hattached
        by_cases hfirst : r'.path = first
        · rw [if_pos (.inl (by rw [hfirst])), if_neg (by simpa using hfirst)]
          rfl
        · have hskip : ¬ (some r'.path = some first ∨ r'.path = root) := by
            rw [Option.some.injEq]
            exact not_or.mpr ⟨hfirst, hattached.2⟩
          rw [if_neg hskip, if_pos (by simpa using hfirst)]
          rfl
      · rw [if_neg hattached]
        cases hbranch : r'.checkout.branch? with
        | none => simp
        | some branch =>
            have hroot : r'.path = root := by simpa [hbranch] using hattached
            rw [if_pos (.inr hroot)]
            rfl

theorem readsExactly_iff {records : List WorktreeRecord} (h : ∀ r ∈ records, r.Printable) :
    ReadsExactly root records ↔ Unambiguous root records := by
  cases records with
  | nil =>
      constructor
      · intro hreads
        have hparse : parseWorktreePorcelain (inventoryText []) root = .error malformed := rfl
        exact absurd (hparse.symm.trans hreads.worktrees) (by simp)
      · exact fun hclear => absurd rfl hclear.nonempty
  | cons first records =>
      have hparse := parse_inventoryText root h
      rw [entries_eq first first.path] at hparse
      constructor
      · intro hreads
        refine ⟨List.cons_ne_nil _ _, fun r hr first' hfirst heq => ?_, fun r hr r' hr' heq hlock => ?_⟩
        · obtain rfl : first = first' := Option.some.inj hfirst
          have hsame := Except.ok.inj (hparse.symm.trans hreads.worktrees)
          obtain ⟨name, hname⟩ := branch_of_mem_attachedOthers hr
          have hmem := mem_withBranches.mpr ⟨r, hr, rfl, hname⟩
          rw [← hsame] at hmem
          obtain ⟨r', hr', hpath, _⟩ := mem_withBranches.mp hmem
          have hne := List.of_mem_filter hr'
          rw [decide_eq_true_eq] at hne
          exact hne (hpath.trans heq)
        · rw [← hreads.locks r hr]
          exact (worktreeIsLocked_inventoryText h).mpr ⟨r', hr', heq, hlock⟩
      · intro hclear
        refine ⟨?_, fun r hr => ?_⟩
        · rw [hparse, List.filter_eq_self.mpr]
          exact fun r hr => decide_eq_true (hclear.first r hr first rfl)
        · have hmem : r ∈ first :: records := List.mem_cons_of_mem _ (List.mem_of_mem_filter hr)
          rw [Bool.eq_iff_iff, worktreeIsLocked_inventoryText h]
          constructor
          · rintro ⟨r', hr', heq, hlock⟩
            exact hclear.locks r hr r' hr' heq hlock
          · exact fun hlock => ⟨r, hmem, rfl, hlock⟩

/-! ## An inventory that is cut off -/

/-- A field that is read as an attribute with its value. -/
def IsReadable (field : Text) : Prop :=
  ∃ name value, inventoryAttribute field = .ok (name, value)
    ∧ ¬ ((name = .head ∨ name = .branch) ∧ value.getD [] = [])

/-- After whole fields, there is no path yet, or no attribute, or no value of one. -/
def Early (whole : List Text) (field : Text) : Prop :=
  whole = [] ∨ ¬ IsReadable field ∧ (whole.length = 1 ∨ field ≠ [])

/-- The cut is inside the path, or after it and before an attribute can be read, or inside
the keyword of a later one. -/
def CutEarly (cut : Text) : Prop :=
  ∃ whole field, cut.splitOn '\x00' = whole ++ [field] ∧ Early whole field

theorem cutEarly_iff {whole : List Text} {field : Text}
    (hwhole : ∀ f ∈ whole, '\x00' ∉ f) (hfield : '\x00' ∉ field) :
    CutEarly (whole.flatMap (· ++ ['\x00']) ++ field) ↔ Early whole field := by
  have hsplit := splitOn_flatMap hwhole field
  rw [List.splitOn_eq_singleton hfield] at hsplit
  unfold CutEarly
  rw [hsplit]
  constructor
  · rintro ⟨whole', field', heq, h⟩
    obtain ⟨rfl, hsame⟩ := List.append_inj' heq rfl
    rw [List.singleton_inj.mp hsame]
    exact h
  · exact fun h => ⟨whole, field, rfl, h⟩

/-- The beginning of a text of fields: whole fields, and the beginning of one more. -/
theorem cut_fields {fields : List Text} {cut : Text}
    (h : cut <+: fields.flatMap (· ++ ['\x00'])) : ∃ whole field,
      cut = whole.flatMap (· ++ ['\x00']) ++ field ∧ whole <+: fields ∧
        (field = [] ∨ ∃ f, whole ++ [f] <+: fields ∧ field <+: f) := by
  induction fields generalizing cut with
  | nil =>
      rw [List.flatMap_nil, List.prefix_nil] at h
      exact ⟨[], [], h, List.prefix_refl _, .inl rfl⟩
  | cons f fields ih =>
      rw [List.flatMap_cons] at h
      rcases List.prefix_or_prefix_of_prefix h (List.prefix_append _ _) with hshort | hlong
      · rcases List.prefix_concat_iff.mp hshort with heq | hshort
        · refine ⟨[f], [], ?_, ⟨fields, rfl⟩, .inl rfl⟩
          simp [heq]
        · exact ⟨[], cut, rfl, List.nil_prefix, .inr ⟨f, ⟨fields, rfl⟩, hshort⟩⟩
      · obtain ⟨cut', rfl⟩ := hlong
        rw [List.prefix_append_right_inj] at h
        obtain ⟨whole, field, rfl, hwhole, hfield⟩ := ih h
        refine ⟨f :: whole, field, ?_, ?_, hfield.imp_right ?_⟩
        · simp
        · exact List.cons_prefix_cons.mpr ⟨rfl, hwhole⟩
        · rintro ⟨g, hg, hcut⟩
          exact ⟨g, List.cons_prefix_cons.mpr ⟨rfl, hg⟩, hcut⟩

variable (root s) in
/-- After a field that cannot be read nothing is. -/
theorem parseField_raises {field : Text} (hne : field ≠ [])
    (hnot : Text.startsWith field "worktree ".toList = false)
    (h : s.path = none ∨ ¬ IsReadable field) : ∃ e, parseField root s field = .error e := by
  unfold parseField addInventoryAttribute
  rw [hnot, if_neg (by simp), if_neg hne]
  cases hread : inventoryAttribute field with
  | error e => exact ⟨e, rfl⟩
  | ok found =>
      obtain ⟨name, value⟩ := found
      refine ⟨malformed, ?_⟩
      show (raiseIf _ malformed >>= fun _ => _) = _
      rw [raiseIf, if_pos]
      · rfl
      · rcases h with hpath | hunread
        · exact .inl hpath
        · right
          right
          by_contra hvalue
          exact hunread ⟨name, value, hread, hvalue⟩

variable (root) in
/-- A field that can be read and is the beginning of that of an attribute. -/
theorem parseField_readable {field : Text} (hfield : field <+: a.field) (hpath : s.path ≠ none)
    (hnew : a.name ∉ s.attributes) (h : IsReadable field) :
    ∃ branch, parseField root s field
      = .ok { s with branch := branch, attributes := a.name :: s.attributes } := by
  obtain ⟨name, value, hread, hvalue⟩ := h
  have hname : name = a.name :=
    keyword_unique ((keyword_of_inventoryAttribute hread).trans hfield) (keyword_field a)
  have hne : field ≠ [] := by
    intro hnil
    rw [hnil] at hread
    cases hread
  unfold parseField addInventoryAttribute
  rw [field_not_worktree hfield, if_neg (by simp), if_neg hne, hread]
  refine ⟨if name = .branch then value else s.branch, ?_⟩
  show (raiseIf _ malformed >>= fun _ => _) = _
  rw [raiseIf, if_neg, hname]
  · rfl
  · rintro (h | h | h)
    · exact hpath h
    · exact hnew (hname ▸ h)
    · exact hvalue h

variable (root) in
theorem foldlM_before {before : List WorktreeRecord} (h : ∀ r ∈ before, r.Printable) :
    ∃ worktrees primary, (before.flatMap fun r => r.fields ++ [[]]).foldlM (parseField root) {}
      = .ok (between worktrees primary before.length) := by
  cases before with
  | nil => exact ⟨[], none, rfl⟩
  | cons r before =>
      have hrecords := foldlM_record root [] none 0 (h r List.mem_cons_self)
      rw [List.flatMap_cons, List.foldlM_append]
      show ∃ worktrees primary, ((r.fields ++ [[]]).foldlM (parseField root) (between [] none 0)
        >>= _) = _
      rw [hrecords, List.length_cons, Nat.add_comm]
      have hrest := foldlM_records root ([] ++ entryOf r.checkout.branch? r.path (some r.path) root)
        1 (fun x hx => h x (List.mem_cons_of_mem _ hx)) r.path
      rw [Nat.add_comm] at hrest
      exact ⟨_, _, hrest⟩

/-- The attributes of a record, as far as they were printed whole. -/
theorem whole_fields {whole : List Text} (h : whole <+: r.fields) (hne : whole ≠ []) :
    ∃ as, as <+: r.attributes
      ∧ whole = ("worktree ".toList ++ r.path.toText) :: as.map Attribute.field := by
  cases whole with
  | nil => exact absurd rfl hne
  | cons f whole =>
      obtain ⟨rfl, hrest⟩ := List.cons_prefix_cons.mp h
      obtain ⟨as, has, rfl⟩ := List.prefix_map_iff.mp hrest
      exact ⟨as, has, rfl⟩

theorem validate_opened : validateInventoryRecord [.worktree] = .error malformed := rfl

/-- The attribute whose field comes after those read whole. -/
theorem next_attribute {f : Text} (has : as <+: r.attributes)
    (h : ("worktree ".toList ++ r.path.toText) :: as.map Attribute.field ++ [f] <+: r.fields) :
    ∃ a, as ++ [a] <+: r.attributes ∧ a.field = f := by
  obtain ⟨as', has', hfields⟩ := List.prefix_map_iff.mp (List.cons_prefix_cons.mp h).2
  obtain ⟨as₁, as₂, rfl, hsame, hlast⟩ := List.map_eq_append_iff.mp hfields.symm
  obtain ⟨a, rfl, hfield⟩ := List.map_eq_singleton_iff.mp hlast
  have hlength : as₁.length = as.length := by
    simpa using congrArg List.length hsame
  have hleads : as₁ <+: as :=
    List.prefix_of_prefix_length_le ((List.prefix_append _ _).trans has') has hlength.le
  exact ⟨a, hleads.eq_of_length hlength ▸ has', hfield⟩

variable (root) in
/-- A record that ends after a field that can be read. -/
theorem parse_readable_end {field : Text} (hfield : field <+: a.field) (hpath : s.path = some path)
    (hnew : a.name ∉ s.attributes) (hread : IsReadable field)
    (hvalid : validateInventoryRecord (a.name :: s.attributes) = .ok ()) :
    ∃ worktrees, (parseField root s field >>= fun s => parseField root s [])
      = .ok (between worktrees s.primary (s.records + 1)) := by
  obtain ⟨branch, hparse⟩ := parseField_readable root hfield (by rw [hpath]; simp) hnew hread
  have hclose := @endRecord_open root
    { s with branch := branch, attributes := a.name :: s.attributes } path hpath hvalid
  rw [hparse]
  exact ⟨_, hclose⟩

variable (root worktrees primary n) in
theorem foldlM_early (hr : r.Printable) {whole : List Text} {field : Text}
    (hwhole : whole <+: r.fields)
    (hfield : field = [] ∨ ∃ f, whole ++ [f] <+: r.fields ∧ field <+: f)
    (hne : whole = [] → field ≠ []) (hearly : Early whole field) :
    ∃ e, (whole ++ [field, []]).foldlM (parseField root) (between worktrees primary n)
      = .error e := by
  by_cases hnil : whole = []
  · subst hnil
    show ∃ e, (parseField root (between worktrees primary n) field >>= _) = _
    cases hstart : Text.startsWith field "worktree ".toList with
    | false =>
        obtain ⟨e, he⟩ := parseField_raises root (between worktrees primary n) (hne rfl)
          hstart (.inl rfl)
        rw [he]
        exact ⟨e, rfl⟩
    | true =>
        unfold parseField
        rw [if_pos hstart]
        cases inventoryPath field (between worktrees primary n).path with
        | error e => exact ⟨e, rfl⟩
        | ok path => exact ⟨malformed, rfl⟩
  · obtain ⟨as, has, rfl⟩ := whole_fields hwhole hnil
    obtain ⟨hunread, hplace⟩ := hearly.resolve_left hnil
    rw [List.foldlM_append, foldlM_open root worktrees primary n hr has]
    show ∃ e, (parseField root _ field >>= _) = _
    by_cases hend : field = []
    · have hlength : as = [] := by
        have hone := hplace.resolve_right (not_not.mpr hend)
        simpa using hone
      subst hend hlength
      exact ⟨malformed, rfl⟩
    · obtain ⟨f, hf, hleads⟩ := hfield.resolve_left hend
      obtain ⟨a, _, rfl⟩ := next_attribute has hf
      obtain ⟨e, he⟩ := parseField_raises root
        (as.foldl InventoryState.add (opened worktrees primary n r.path)) hend
        (field_not_worktree hleads) (.inr hunread)
      rw [he]
      exact ⟨e, rfl⟩

variable (root worktrees primary n) in
theorem foldlM_late (hr : r.Printable) {whole : List Text} {field : Text}
    (hwhole : whole <+: r.fields)
    (hfield : field = [] ∨ ∃ f, whole ++ [f] <+: r.fields ∧ field <+: f)
    (hlate : ¬ Early whole field) :
    ∃ worktrees' primary', (whole ++ [field, []]).foldlM (parseField root)
      (between worktrees primary n) = .ok (between worktrees' primary' (n + 1)) := by
  obtain ⟨hnil, hlate⟩ := not_or.mp hlate
  obtain ⟨as, has, rfl⟩ := whole_fields hwhole hnil
  have hstate := foldl_add as (opened worktrees primary n r.path)
  rw [List.foldlM_append, foldlM_open root worktrees primary n hr has]
  show ∃ worktrees' primary', (parseField root _ field >>= fun s => parseField root s [] >>= _) = _
  by_cases hend : field = []
  · have hne : as ≠ [] := by
      rintro rfl
      refine hlate ⟨?_, .inl rfl⟩
      rintro ⟨name, value, hread, _⟩
      rw [hend] at hread
      cases hread
    subst hend
    rw [parseField_nil, endRecord_prefix root worktrees primary n has hne]
    exact ⟨_, _, rfl⟩
  · have hread : IsReadable field := by
      by_contra hunread
      exact hlate ⟨hunread, .inr hend⟩
    obtain ⟨f, hf, hleads⟩ := hfield.resolve_left hend
    obtain ⟨a, ha, rfl⟩ := next_attribute has hf
    have hnodup : ((as ++ [a]).map Attribute.name).Nodup :=
      (nodup_names r).sublist (ha.map Attribute.name).sublist
    have hnew : a.name ∉ (as.foldl InventoryState.add (opened worktrees primary n r.path)).attributes := by
      rw [hstate]
      show a.name ∉ (as.map Attribute.name).reverse ++ [AttributeName.worktree]
      rw [List.map_append, List.map_singleton, List.nodup_append] at hnodup
      rw [List.mem_append, not_or, List.mem_reverse, List.mem_singleton]
      exact ⟨fun hmem => hnodup.2.2 _ hmem _ (by simp) rfl, name_ne_worktree a⟩
    have hvalid := validate_of_leads ha (by simp)
    rw [List.map_append, List.map_singleton, List.reverse_append] at hvalid
    obtain ⟨worktrees', hparse⟩ := parse_readable_end root hleads (by rw [hstate]; rfl) hnew hread
      (by rw [hstate]; exact hvalid)
    rw [hstate] at hparse ⊢
    refine ⟨worktrees', some (primary.getD r.path), ?_⟩
    rw [← bind_assoc, hparse]
    rfl

theorem parse_cut {before : List WorktreeRecord} {cut : Text}
    (hbefore : ∀ x ∈ before, x.Printable) (hr : r.Printable) (hne : cut ≠ [])
    (hcut : cut <+: r.openText) :
    (∃ e, parseWorktreePorcelain (inventoryText before ++ cut) root = .error e) ↔ CutEarly cut := by
  obtain ⟨whole, field, rfl, hwhole, hfield⟩ := cut_fields hcut
  have hnoNul : ∀ f ∈ whole, '\x00' ∉ f := fun f hf => hr.noNul f (hwhole.subset hf)
  have hlast : '\x00' ∉ field := by
    rcases hfield with rfl | ⟨f, hf, hleads⟩
    · exact List.not_mem_nil
    · exact fun h => hr.noNul f (hf.subset (by simp)) (hleads.subset h)
  have hempty : whole = [] → field ≠ [] := by
    rintro rfl rfl
    exact hne rfl
  obtain ⟨worktrees, primary, hstart⟩ := foldlM_before root hbefore
  have hfields : inventoryFields (whole.flatMap (· ++ ['\x00']) ++ field) = whole ++ [field, []] := by
    unfold inventoryFields
    rw [splitOn_flatMap hnoNul, List.splitOn_eq_singleton hlast, List.append_assoc]
    rfl
  have hparse : parseWorktreePorcelain
      (inventoryText before ++ (whole.flatMap (· ++ ['\x00']) ++ field)) root
      = ((whole ++ [field, []]).foldlM (parseField root) (between worktrees primary before.length)
          >>= fun s => raiseIf (s.records = 0) malformed >>= fun _ => .ok s.worktrees) := by
    unfold parseWorktreePorcelain
    rw [inventoryFields_append hbefore, hfields, List.foldlM_append, hstart]
    rfl
  rw [cutEarly_iff hnoNul hlast, hparse]
  constructor
  · rintro ⟨e, he⟩
    by_contra hlate
    obtain ⟨worktrees', primary', hok⟩ := foldlM_late root worktrees primary before.length hr hwhole hfield hlate
    rw [hok] at he
    cases he
  · intro hearly
    obtain ⟨e, he⟩ := foldlM_early root worktrees primary before.length hr hwhole hfield hempty hearly
    rw [he]
    exact ⟨e, rfl⟩

/-! ## What the cleanup removes -/

/-- What the cleanup has of a worktree that it removes. -/
structure Removable (digits : DigitTable) (porcelain : Text) (dryRun : Bool) (seen : Observation)
    (path : PosixPath) (branch : Text) : Prop where
  unlocked : worktreeIsLocked path porcelain = false
  clean : seen.isDirty = some false
  stale : (∃ issue, branchIssue digits branch = .ok (some issue) ∧ seen.issueIsClosed issue = true)
    ∨ seen.branchIsMerged = true
  real : dryRun = false
  confirmed : ∃ reason answer, seen.answer (removePrompt path branch reason) = some answer
    ∧ Text.lower answer = ['y']

variable {digits : DigitTable} {porcelain trunk branch : Text} {dryRun : Bool}
  {removed : List (PosixPath × Text)}

/-- One turn removes nothing, or its worktree. -/
theorem cleanupCandidate_spec (seen : Observation) :
    (cleanupCandidate digits porcelain trunk dryRun seen path branch).wp
      (fun _ t => t = removed ∨ t = removed ++ [(path, branch)]
        ∧ Removable digits porcelain dryRun seen path branch)
      (fun _ t => t = removed ∨ t = removed ++ [(path, branch)]
        ∧ Removable digits porcelain dryRun seen path branch) removed := by
  unfold cleanupCandidate
  rw [Command.wp_bind]
  refine Command.wp_attempt (fun issue hissue => ?_) fun _ _ => .inl rfl
  show Command.wp (if _ then _ else _) _ _ _
  split
  · exact .inl rfl
  · next hstale =>
    cases hdirty : seen.isDirty with
    | none => exact .inl rfl
    | some dirty =>
        cases dirty with
        | true => exact .inl rfl
        | false =>
            dsimp only
            cases hlocked : worktreeIsLocked path porcelain with
            | true => exact .inl rfl
            | false =>
                cases hdry : dryRun with
                | true => exact .inl rfl
                | false =>
                    rw [if_neg Bool.false_ne_true, if_neg Bool.false_ne_true]
                    cases hanswer : seen.answer (removePrompt path branch
                        (staleReason (issue.filter seen.issueIsClosed) trunk)) with
                    | none => exact .inl rfl
                    | some answer =>
                        dsimp only
                        split
                        · next hyes =>
                          have hremovable : Removable digits porcelain false seen path branch := by
                            refine ⟨hlocked, hdirty, ?_, rfl, _, answer, hanswer, hyes⟩
                            rcases not_and_or.mp hstale with hclosed | hmerged
                            · obtain ⟨number, hnumber⟩ := Option.ne_none_iff_exists'.mp hclosed
                              obtain ⟨hfound, hstate⟩ := Option.filter_eq_some_iff.mp hnumber
                              exact .inl ⟨number, hfound ▸ hissue, hstate⟩
                            · exact .inr (eq_true_of_ne_false hmerged)
                          unfold removeWorktree
                          rw [Command.wp_bind, Command.wp_modify]
                          split
                          · exact .inr ⟨rfl, hremovable⟩
                          · exact .inr ⟨rfl, hremovable⟩
                        · exact .inl rfl

theorem cleanupFrom_spec (seen : Nat → Observation) (i : Nat)
    (candidates : List (PosixPath × Text)) :
    (cleanupFrom digits porcelain trunk dryRun seen i candidates).wp
      (fun _ t => ∀ x ∈ t, x ∈ removed
        ∨ ∃ j, candidates[j]? = some x ∧ Removable digits porcelain dryRun (seen (i + j)) x.1 x.2)
      (fun _ t => ∀ x ∈ t, x ∈ removed
        ∨ ∃ j, candidates[j]? = some x ∧ Removable digits porcelain dryRun (seen (i + j)) x.1 x.2)
      removed := by
  induction candidates generalizing i removed with
  | nil =>
      unfold cleanupFrom
      exact fun x hx => .inl hx
  | cons candidate candidates ih =>
      obtain ⟨path, branch⟩ := candidate
      unfold cleanupFrom
      rw [Command.wp_bind]
      have hhead : ∀ t : List (PosixPath × Text), (t = removed ∨ t = removed ++ [(path, branch)]
          ∧ Removable digits porcelain dryRun (seen i) path branch) → ∀ x ∈ t, x ∈ removed
          ∨ ∃ j, ((path, branch) :: candidates)[j]? = some x
            ∧ Removable digits porcelain dryRun (seen (i + j)) x.1 x.2 := by
        intro t ht x hx
        rcases ht with rfl | ⟨rfl, hremovable⟩
        · exact .inl hx
        · rcases List.mem_append.mp hx with hx | hx
          · exact .inl hx
          · rw [List.mem_singleton.mp hx]
            exact .inr ⟨0, rfl, hremovable⟩
      refine Command.wp_mono (cleanupCandidate_spec (seen i)) (fun _ t ht => ?_)
        fun _ t ht => hhead t ht
      refine Command.wp_mono (ih (i + 1)) (fun _ u hu x hx => ?_) fun _ u hu x hx => ?_
      all_goals
        rcases hu x hx with hbefore | ⟨j, hj, hremovable⟩
        · exact hhead t ht x hbefore
        · refine .inr ⟨j + 1, hj, ?_⟩
          rw [Nat.add_right_comm] at hremovable
          exact hremovable

/-- What was removed is in the list, and could be removed. -/
def RemovesSafely (digits : DigitTable) (root : PosixPath) (trunk : Text) (dryRun : Bool)
    (listing : WorktreeListing) (seen : Nat → Observation) : Prop :=
  ∀ path branch, (path, branch) ∈ ((cleanupStaleWorktrees digits root trunk dryRun listing
      seen).exec []).2 →
    ∃ porcelain worktrees i, listing = .finished 0 porcelain
      ∧ parseWorktreePorcelain porcelain root = .ok worktrees
      ∧ worktrees[i]? = some (path, branch)
      ∧ Removable digits porcelain dryRun (seen i) path branch

theorem worktreePorcelain_ok {listing : WorktreeListing}
    (h : worktreePorcelain listing = .ok porcelain) : listing = .finished 0 porcelain := by
  cases listing with
  | timedOut => cases h
  | failed => cases h
  | finished returncode stdout =>
      simp only [worktreePorcelain] at h
      by_cases hcode : returncode = 0
      · rw [if_pos hcode] at h
        rw [hcode, Except.ok.inj h]
      · rw [if_neg hcode] at h
        split at h <;> cases h

theorem cleanup_removesSafely (digits : DigitTable) (root : PosixPath) (trunk : Text)
    (dryRun : Bool) (listing : WorktreeListing) (seen : Nat → Observation) :
    RemovesSafely digits root trunk dryRun listing seen := by
  intro path branch
  refine Command.wp_state (R := fun t => (path, branch) ∈ t → _) ?_
  unfold cleanupStaleWorktrees
  have hnone : ∀ {p : Prop}, (path, branch) ∈ ([] : List (PosixPath × Text)) → p :=
    fun h => absurd h List.not_mem_nil
  rw [Command.wp_bind]
  refine Command.wp_attempt (fun porcelain hlisting => ?_) fun _ _ => hnone
  rw [Command.wp_bind]
  refine Command.wp_attempt (fun worktrees hparse => ?_) fun _ _ => hnone
  rw [Command.wp_bind]
  refine Command.wp_mono (cleanupFrom_spec seen 0 worktrees) (fun _ t ht hmem => ?_)
    fun _ t ht hmem => ?_
  all_goals
    obtain ⟨i, hi, hremovable⟩ := (ht _ hmem).resolve_left List.not_mem_nil
    rw [Nat.zero_add] at hremovable
    exact ⟨porcelain, worktrees, i, worktreePorcelain_ok hlisting, hparse, hi, hremovable⟩

/-! ## The whole -/

/-- An inventory is read exactly where it is unambiguous, one that is cut off is refused
exactly where the cut is early, and the cleanup removes what it may. -/
theorem inventory_iff_and_removesSafely (digits : DigitTable) (root : PosixPath) (trunk : Text)
    (dryRun : Bool) (listing : WorktreeListing) (seen : Nat → Observation)
    {records before : List WorktreeRecord} {r : WorktreeRecord} {cut : Text}
    (hrecords : ∀ x ∈ records, x.Printable) (hbefore : ∀ x ∈ before, x.Printable)
    (hr : r.Printable) (hne : cut ≠ []) (hcut : cut <+: r.openText) :
    (ReadsExactly root records ↔ Unambiguous root records)
      ∧ ((∃ e, parseWorktreePorcelain (inventoryText before ++ cut) root = .error e)
        ↔ CutEarly cut)
      ∧ RemovesSafely digits root trunk dryRun listing seen :=
  ⟨readsExactly_iff hrecords, parse_cut hbefore hr hne hcut,
    cleanup_removesSafely digits root trunk dryRun listing seen⟩

/-! ## A lock that is cut off -/

def mainRecord : WorktreeRecord where
  path := PosixPath.parse "/r".toList
  checkout := .branch "a1".toList "main".toList
  lock := none
  prune := none

def lockedRecord : WorktreeRecord where
  path := PosixPath.parse "/w".toList
  checkout := .branch "b2".toList "7-fix".toList
  lock := some "in use".toList
  prune := none

/-- The record up to its branch. -/
def lockedCut : Text :=
  "worktree /w\x00HEAD b2\x00branch refs/heads/7-fix".toList

theorem printable_mainRecord : mainRecord.Printable :=
  ⟨by decide, by decide, by decide⟩

theorem printable_lockedRecord : lockedRecord.Printable :=
  ⟨by decide, by decide, by decide⟩

/-- Cut off after its branch, the locked worktree is returned, and not found locked. -/
theorem lockedCut_returned : ¬ ∀ root before r cut, (∀ x ∈ before, WorktreeRecord.Printable x) →
    WorktreeRecord.Printable r → cut ≠ [] → cut <+: r.openText →
    ∃ e, parseWorktreePorcelain (inventoryText before ++ cut) root = .error e := by
  intro hall
  obtain ⟨e, he⟩ := hall mainRecord.path [mainRecord] lockedRecord lockedCut
    (fun x hx => List.mem_singleton.mp hx ▸ printable_mainRecord) printable_lockedRecord
    (by decide) (by decide)
  have hok : parseWorktreePorcelain (inventoryText [mainRecord] ++ lockedCut) mainRecord.path
      = .ok [(lockedRecord.path, "7-fix".toList)] := rfl
  rw [hok] at he
  cases he

/-- A digit of ASCII. -/
def plainDigit (c : Char) : Option Nat := if c.isDigit then some (c.toNat - 48) else none

theorem plainDigit_eq (c : Char) (_ : c.toNat < 128) :
    plainDigit c = if c.isDigit then some (c.toNat - 48) else none := rfl

def plainDigits : DigitTable where
  value := plainDigit
  value_ascii := plainDigit_eq

/-- An observation of a worktree that nothing asks about. -/
def unasked : Observation where
  issueIsClosed _ := false
  branchIsMerged := false
  isDirty := none
  answer _ := none
  removes := false

theorem inventory_iff_locked :
    (ReadsExactly mainRecord.path [mainRecord, lockedRecord]
        ↔ Unambiguous mainRecord.path [mainRecord, lockedRecord]) ∧
      ((∃ e, parseWorktreePorcelain (inventoryText [mainRecord] ++ lockedCut) mainRecord.path
        = .error e) ↔ CutEarly lockedCut) ∧
      RemovesSafely plainDigits mainRecord.path [] true (.finished 0 []) fun _ => unasked := by
  have hmain : ∀ x ∈ [mainRecord], x.Printable :=
    fun x hx => List.mem_singleton.mp hx ▸ printable_mainRecord
  have hboth : ∀ x ∈ [mainRecord, lockedRecord], x.Printable := by
    intro x hx
    rcases List.mem_pair.mp hx with rfl | rfl
    · exact printable_mainRecord
    · exact printable_lockedRecord
  exact inventory_iff_and_removesSafely plainDigits mainRecord.path [] true (.finished 0 [])
    (fun _ => unasked) hboth hmain printable_lockedRecord (by decide) (by decide)

end Hephaestus.Github
