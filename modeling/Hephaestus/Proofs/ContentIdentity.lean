import Mathlib.Algebra.Ring.Nat
import Hephaestus.Lib.CanonicalJson
import Hephaestus.Lib.PosixPath
import Hephaestus.Automation.ContentIdentity

/-!
# What the identity of a worktree's content says

The digest is fed a path, its length in front, and what was observed there, for one path
after another. Each observation starts with a kind of its own and ends where it says it
does: a file and a link by their length, a directory by the zero that a length starts
with. So two calls that fed the same bytes had the same seed, the same paths and the same
observations.

A copy is made deepest path first. What the copy holds of a place that is still to come
is then a directory if anything, which is what the place has to be where something below
it was observed.
-/

namespace Hephaestus.Automation.Snapshot

open Hephaestus.Lib

/-! ## Observations -/

/-- Every part of a path before the last is a directory. -/
def ParentsOpen (tree : WorkTree) (parent rest : List Bytes) : Prop :=
  ∀ q, q <+: rest → q ≠ [] → q ≠ rest → ∃ size device, tree (parent ++ q) = .directory size device

open Classical in
/-- What is observed at a path: below a link or a file there is nothing. -/
noncomputable def observe (tree : WorkTree) (parts : List Bytes) : TreeEntry :=
  if ParentsOpen tree [] parts then tree parts else .absent

/-- The bytes of an entry that count against the budget. -/
def contentBytes : TreeEntry → Nat
  | .absent => 0
  | .file _ content => content.length
  | .link target => target.length
  | .directory _ _ => 0

/-- What the digest is fed of an entry. -/
def encodeEntry : TreeEntry → Bytes
  | .absent => asciiBytes ['M']
  | .link target =>
      asciiBytes "120000\x00L".toList ++ (bigEndian 8 target.length ++ target)
  | .file executable content =>
      asciiBytes "100000\x00F".toList ++ (asciiBytes [if executable then 'X' else 'N']
        ++ (bigEndian 8 content.length ++ content))
  | .directory size device =>
      asciiBytes "40000\x00O".toList
        ++ asciiBytes (JsonText.decimalInt size ++ ':' :: JsonText.decimalInt device)

/-- What the digest is fed of a path. -/
noncomputable def block (tree : WorkTree) (relative : Bytes) : Bytes :=
  bigEndian 8 relative.length ++ relative ++ encodeEntry (observe tree (pathParts relative))

/-! ## What a command feeds and spends -/

/-- From one state to another these bytes were fed, and this was spent. -/
structure Feeds (s t : SnapshotState) (bytes : Bytes) (cost : Nat) : Prop where
  hashed : t.hashed = s.hashed ++ bytes
  remaining : t.remaining = s.remaining.map fun left => left - (cost : Int)
  left : ∀ l, s.remaining = some l → 0 ≤ l → (cost : Int) ≤ l

theorem Feeds.refl (s : SnapshotState) : Feeds s s [] 0 where
  hashed := (List.append_nil _).symm
  remaining := by cases s.remaining <;> simp
  left _ _ h := h

theorem Feeds.trans {s t u : SnapshotState} {b b' : Bytes} {c c' : Nat} (h : Feeds s t b c)
    (h' : Feeds t u b' c') : Feeds s u (b ++ b') (c + c') where
  hashed := by rw [h'.hashed, h.hashed, List.append_assoc]
  remaining := by
    rw [h'.remaining, h.remaining]
    cases s.remaining with
    | none => rfl
    | some l =>
        show some (l - (c : Int) - (c' : Int)) = some (l - ((c + c' : Nat) : Int))
        congr 1
        omega
  left l hl hpos := by
    have hfirst := h.left l hl hpos
    have hsecond := h'.left (l - c) (by rw [h.remaining, hl]; rfl) (by omega)
    omega

/-- The command feeds and spends this and leaves the copy alone, whatever it starts from;
what it returns satisfies `P`. -/
def FeedsAll {α : Type} (x : Snapshot α) (bytes : Bytes) (cost : Nat) (P : α → Prop) : Prop :=
  ∀ s, x.wp (fun a t => P a ∧ Feeds s t bytes cost ∧ t.copy = s.copy ∧ t.outside = s.outside)
    (fun _ _ => True) s

namespace FeedsAll

variable {α β : Type} {bytes bytes' : Bytes} {cost cost' : Nat} {P : α → Prop} {P' : β → Prop}

theorem pure (a : α) : FeedsAll (pure a) [] 0 (· = a) :=
  fun s => ⟨rfl, Feeds.refl s, rfl, rfl⟩

theorem bind {x : Snapshot α} {f : α → Snapshot β} (hx : FeedsAll x bytes cost P)
    (hf : ∀ a, P a → FeedsAll (f a) bytes' cost' P') :
    FeedsAll (x >>= f) (bytes ++ bytes') (cost + cost') P' := by
  intro s
  rw [Command.wp_bind]
  refine Command.wp_mono (hx s) (fun a t ht => ?_) fun _ _ _ => trivial
  obtain ⟨hP, hfeeds, hcopy, houtside⟩ := ht
  refine Command.wp_mono (hf a hP t) (fun b u hu => ?_) fun _ _ _ => trivial
  obtain ⟨hP', hfeeds', hcopy', houtside'⟩ := hu
  exact ⟨hP', hfeeds.trans hfeeds', hcopy'.trans hcopy, houtside'.trans houtside⟩

/-- A command that reads the state first. -/
theorem get {f : SnapshotState → Snapshot β} (hf : ∀ s, FeedsAll (f s) bytes cost P') :
    FeedsAll (get >>= f) bytes cost P' := by
  intro s
  rw [Command.wp_bind, Command.wp_get]
  exact hf s s

theorem attempt (r : Except SnapshotError α) :
    FeedsAll (Command.attempt r) [] 0 fun a => r = .ok a := by
  intro s
  exact Command.wp_attempt (fun a ha => ⟨ha, Feeds.refl s, rfl, rfl⟩) fun _ _ => trivial

theorem congr {x : Snapshot α} (h : FeedsAll x bytes cost P) (hbytes : bytes = bytes')
    (hcost : cost = cost') : FeedsAll x bytes' cost' P := by
  rw [← hbytes, ← hcost]
  exact h

theorem mono {x : Snapshot α} {Q : α → Prop} (h : FeedsAll x bytes cost P)
    (hPQ : ∀ a, P a → Q a) : FeedsAll x bytes cost Q :=
  fun s => Command.wp_mono (h s) (fun a _ ht => ⟨hPQ a ht.1, ht.2⟩) fun _ _ h => h

end FeedsAll

theorem feedsAll_feed (bytes : Bytes) : FeedsAll (feed bytes) bytes 0 fun _ => True := by
  intro s
  unfold feed
  rw [Command.wp_modify]
  exact ⟨trivial, ⟨rfl, by cases s.remaining <;> simp, fun _ _ h => h⟩, rfl, rfl⟩

theorem feedsAll_spend (n : Nat) : FeedsAll (spend n) [] n fun _ => True := by
  intro s
  unfold spend
  rw [Command.wp_bind, Command.wp_modify, Command.wp_bind, Command.wp_get]
  refine Command.wp_attempt (fun _ hok => ?_) fun _ _ => trivial
  rw [raiseIf_ok] at hok
  refine ⟨trivial, ⟨(List.append_nil _).symm, rfl, fun l hl _ => ?_⟩, rfl, rfl⟩
  have hleft : ¬ l - (n : Int) < 0 := by
    intro hneg
    refine hok ?_
    show (s.remaining.map fun left => left - (n : Int)).any (fun left => decide (left < 0)) = true
    rw [hl]
    exact decide_eq_true hneg
  omega

theorem feedsAll_checkDeadline (clock : Nat → Bool) :
    FeedsAll (checkDeadline clock) [] 0 fun _ => True := by
  intro s
  unfold checkDeadline
  rw [Command.wp_bind, Command.wp_get, Command.wp_bind, Command.wp_set]
  have hfeeds := Feeds.refl s
  exact Command.wp_attempt
    (fun _ _ => ⟨trivial, ⟨hfeeds.hashed, hfeeds.remaining, hfeeds.left⟩, rfl, rfl⟩)
    fun _ _ => trivial

/-- The loop reads the rest of the file. -/
theorem feedsAll_readBlocks (clock : Nat → Bool) (copying : Bool) {turns : Nat} {rest : Bytes}
    (hturns : rest.length < turns) (captured : Bytes) :
    FeedsAll (readBlocks clock copying turns rest captured) rest rest.length
      (· = if copying then captured ++ rest else captured) := by
  induction turns generalizing rest captured with
  | zero => omega
  | succ turns ih =>
      unfold readBlocks
      refine FeedsAll.congr ((feedsAll_checkDeadline clock).bind fun _ _ => FeedsAll.get fun s => ?_)
        (List.nil_append rest) (Nat.zero_add rest.length)
      have hlimit : 1 ≤ readLimit s.remaining := Nat.le_max_left _ _
      dsimp only
      split
      · next hnone =>
        have hrest : rest = [] := by
          cases rest with
          | nil => rfl
          | cons b rest =>
              rw [List.take_eq_nil_iff] at hnone
              rcases hnone with hzero | hnil
              · omega
              · exact hnil
        subst hrest
        exact (FeedsAll.pure captured).mono fun a ha => by simp [ha]
      · next hblock =>
        have hlength : 0 < (rest.take (readLimit s.remaining)).length :=
          List.length_pos_iff.mpr hblock
        have hle : (rest.take (readLimit s.remaining)).length ≤ rest.length := by
          rw [List.length_take]
          exact Nat.min_le_right _ _
        have hdrop : rest.drop (rest.take (readLimit s.remaining)).length
            = rest.drop (readLimit s.remaining) := by
          rw [List.length_take]
          by_cases hlong : readLimit s.remaining ≤ rest.length
          · rw [Nat.min_eq_left hlong]
          · rw [Nat.min_eq_right (by omega), List.drop_length, List.drop_eq_nil_of_le (by omega)]
        have hfewer : (rest.drop (rest.take (readLimit s.remaining)).length).length < turns := by
          rw [List.length_drop]
          omega
        have hloop := ih hfewer
          (if copying then captured ++ rest.take (readLimit s.remaining) else captured)
        refine FeedsAll.congr (FeedsAll.mono ((feedsAll_spend _).bind fun _ _ =>
          (feedsAll_feed _).bind fun _ _ => hloop) fun a ha => ?_) ?_ ?_
        · rw [ha, hdrop]
          cases copying with
          | true => simp
          | false => rfl
        · rw [hdrop]
          simp
        · rw [List.length_drop]
          omega

/-! ## Writing the copy -/

/-- The command feeds and spends nothing. -/
def Quiet {α : Type} (x : Snapshot α) : Prop :=
  ∀ s, x.wp (fun _ t => t.hashed = s.hashed ∧ t.remaining = s.remaining) (fun _ _ => True) s

theorem Quiet.bind {α β : Type} {x : Snapshot α} {f : α → Snapshot β} (hx : Quiet x)
    (hf : ∀ a, Quiet (f a)) : Quiet (x >>= f) := by
  intro s
  rw [Command.wp_bind]
  refine Command.wp_mono (hx s) (fun a t ht => ?_) fun _ _ _ => trivial
  refine Command.wp_mono (hf a t) (fun b u hu => ?_) fun _ _ _ => trivial
  exact ⟨hu.1.trans ht.1, hu.2.trans ht.2⟩

theorem quiet_writeCopy (path : List Bytes) (allowed : Option CopyEntry → Bool)
    (entry : CopyEntry) : Quiet (writeCopy path allowed entry) := by
  intro s
  unfold writeCopy
  rw [Command.wp_bind, Command.wp_get]
  split
  · rw [Command.wp_set]
    exact ⟨rfl, rfl⟩
  · rw [Command.wp_bind]
    refine Command.wp_attempt (fun _ _ => ?_) fun _ _ => trivial
    rw [Command.wp_bind]
    refine Command.wp_attempt (fun _ _ => ?_) fun _ _ => trivial
    rw [Command.wp_set]
    exact ⟨rfl, rfl⟩

theorem quiet_makeParent (path : List Bytes) : Quiet (makeParent path) := by
  intro s
  unfold makeParent
  rw [Command.wp_bind, Command.wp_get]
  split
  · rw [Command.wp_set]
    exact ⟨rfl, rfl⟩
  · split
    · exact quiet_writeCopy _ _ _ s
    · exact ⟨rfl, rfl⟩
    · trivial

theorem quiet_destinationPath (parent rest : List Bytes) : Quiet (destinationPath parent rest) := by
  induction rest generalizing parent with
  | nil => exact fun s => ⟨rfl, rfl⟩
  | cons component rest ih =>
      cases rest with
      | nil => exact fun s => ⟨rfl, rfl⟩
      | cons next rest => exact (quiet_makeParent _).bind fun _ => ih _

theorem quiet_copyLink (parts : List Bytes) (target : Bytes) : Quiet (copyLink parts target) :=
  (quiet_destinationPath _ _).bind fun _ => quiet_writeCopy _ _ _

theorem quiet_copyFile (parts : List Bytes) (executable : Bool) (content : Bytes) :
    Quiet (copyFile parts executable content) := by
  refine (quiet_destinationPath _ _).bind fun _ s => ?_
  rw [Command.wp_bind, Command.wp_get]
  split
  · rw [Command.wp_set]
    exact ⟨rfl, rfl⟩
  · exact quiet_writeCopy _ _ _ s

theorem quiet_copyDirectory (parts : List Bytes) : Quiet (copyDirectory parts) := by
  refine (quiet_destinationPath _ _).bind fun _ s => ?_
  rw [Command.wp_bind, Command.wp_get]
  split
  · exact ⟨rfl, rfl⟩
  · exact quiet_writeCopy _ _ _ s

/-- Nothing at these places of the copy is a link. -/
def NoLinks (copy : CopyTree) (places : List Bytes → Prop) : Prop :=
  ∀ q, places q → isLink (copy q) = false

theorem passesLink_eq_false {copy : CopyTree} {path : List Bytes}
    (h : NoLinks copy fun q => q <+: path ∧ q ≠ path) : passesLink copy path = false := by
  unfold passesLink
  rw [List.any_eq_false]
  intro q hq
  rw [List.mem_inits] at hq
  rw [Bool.and_eq_true, decide_eq_true_eq, not_and]
  intro hne
  rw [h q ⟨hq, hne⟩]
  exact Bool.false_ne_true

/-- From one state to another only the copy changed, to this, and nothing was written
outside of it. -/
structure Writes (s t : SnapshotState) (copy : CopyTree) : Prop where
  hashed : t.hashed = s.hashed
  remaining : t.remaining = s.remaining
  outside : t.outside = s.outside
  copy : t.copy = copy

theorem Writes.trans {s t u : SnapshotState} {copy copy' : CopyTree} (h : Writes s t copy)
    (h' : Writes t u copy') : Writes s u copy' :=
  ⟨h'.hashed.trans h.hashed, h'.remaining.trans h.remaining, h'.outside.trans h.outside, h'.copy⟩

variable {s : SnapshotState} {path parts parent rest : List Bytes}

theorem writeCopy_spec (h : NoLinks s.copy fun q => q <+: path ∧ q ≠ path)
    (allowed : Option CopyEntry → Bool) (entry : CopyEntry) :
    (writeCopy path allowed entry).wp
      (fun _ t => allowed (s.copy path) = true
        ∧ Writes s t (Function.update s.copy path (some entry))) (fun _ _ => True) s := by
  unfold writeCopy
  rw [Command.wp_bind, Command.wp_get, passesLink_eq_false h, if_neg Bool.false_ne_true,
    Command.wp_bind]
  refine Command.wp_attempt (fun _ _ => ?_) fun _ _ => trivial
  rw [Command.wp_bind]
  refine Command.wp_attempt (fun _ hallowed => ?_) fun _ _ => trivial
  rw [raiseIf_ok, Bool.not_eq_false] at hallowed
  rw [Command.wp_set]
  exact ⟨hallowed, rfl, rfl, rfl, rfl⟩

theorem makeParent_spec (h : NoLinks s.copy fun q => q <+: path ∧ q ≠ path) :
    (makeParent path).wp
      (fun _ t => Writes s t (Function.update s.copy path (some .directory)))
      (fun _ _ => True) s := by
  unfold makeParent
  rw [Command.wp_bind, Command.wp_get, passesLink_eq_false h, if_neg Bool.false_ne_true]
  split
  · exact Command.wp_mono (writeCopy_spec h _ _) (fun _ _ ht => ht.2) fun _ _ _ => trivial
  · next hdirectory =>
    rw [Command.wp_pure]
    refine ⟨rfl, rfl, rfl, ?_⟩
    rw [← hdirectory, Function.update_eq_self]
  · trivial

open Classical in
/-- A copy with a directory at each part before the last. -/
noncomputable def withParents (parent rest : List Bytes) (copy : CopyTree) : CopyTree :=
  fun x => if ∃ q, q <+: rest ∧ q ≠ [] ∧ q ≠ rest ∧ x = parent ++ q then some .directory else copy x

theorem withParents_short (parent : List Bytes) (copy : CopyTree) (hrest : rest.length ≤ 1) :
    withParents parent rest copy = copy := by
  funext x
  refine if_neg ?_
  rintro ⟨q, hq, hne, hlast, _⟩
  have hlength : 0 < q.length := List.length_pos_iff.mpr hne
  have hshort : q.length ≠ rest.length := fun heq => hlast (hq.eq_of_length heq)
  have hle := hq.length_le
  omega

theorem withParents_cons {component next : Bytes} (copy : CopyTree) :
    withParents (parent ++ [component]) (next :: rest)
        (Function.update copy (parent ++ [component]) (some .directory))
      = withParents parent (component :: next :: rest) copy := by
  funext x
  unfold withParents
  by_cases hdeep : ∃ q, q <+: next :: rest ∧ q ≠ [] ∧ q ≠ next :: rest
      ∧ x = parent ++ [component] ++ q
  · rw [if_pos hdeep, if_pos]
    obtain ⟨q, hq, hne, hlast, rfl⟩ := hdeep
    refine ⟨component :: q, List.cons_prefix_cons.mpr ⟨rfl, hq⟩, List.cons_ne_nil _ _, ?_, by simp⟩
    exact fun heq => hlast (List.cons.inj heq).2
  · rw [if_neg hdeep]
    by_cases hx : x = parent ++ [component]
    · rw [hx, Function.update_self, if_pos]
      exact ⟨[component], ⟨next :: rest, rfl⟩, by simp, by simp, rfl⟩
    · rw [Function.update_of_ne hx, if_neg]
      rintro ⟨q, hq, hne, hlast, rfl⟩
      cases q with
      | nil => exact hne rfl
      | cons c q =>
          obtain ⟨rfl, hrest⟩ := List.cons_prefix_cons.mp hq
          by_cases hq0 : q = []
          · exact hx (by rw [hq0])
          · exact hdeep ⟨q, hrest, hq0, fun heq => hlast (by rw [heq]), by simp⟩

theorem destinationPath_spec (h : NoLinks s.copy fun q => q <+: parent ++ rest ∧ q ≠ parent ++ rest) :
    (destinationPath parent rest).wp (fun _ t => Writes s t (withParents parent rest s.copy))
      (fun _ _ => True) s := by
  induction rest generalizing parent s with
  | nil => exact ⟨rfl, rfl, rfl, (withParents_short parent s.copy (by simp)).symm⟩
  | cons component rest ih =>
      cases rest with
      | nil => exact ⟨rfl, rfl, rfl, (withParents_short parent s.copy (by simp)).symm⟩
      | cons next rest =>
          have hbelow : parent ++ [component] <+: parent ++ component :: next :: rest :=
            (List.prefix_append_right_inj parent).mpr ⟨next :: rest, rfl⟩
          have hne : parent ++ [component] ≠ parent ++ component :: next :: rest := by simp
          unfold destinationPath
          rw [Command.wp_bind]
          refine Command.wp_mono (makeParent_spec fun q hq => ?_) (fun _ t ht => ?_)
            fun _ _ _ => trivial
          · refine h q ⟨hq.1.trans hbelow, fun heq => ?_⟩
            have hle := hq.1.length_le
            rw [heq] at hle
            simp at hle
          · have hnext : NoLinks t.copy fun q => q <+: parent ++ [component] ++ next :: rest
                ∧ q ≠ parent ++ [component] ++ next :: rest := by
              intro q hq
              rw [ht.copy]
              by_cases hq' : q = parent ++ [component]
              · rw [hq', Function.update_self]
                rfl
              · rw [Function.update_of_ne hq']
                rw [List.append_assoc] at hq
                exact h q hq
            refine Command.wp_mono (ih hnext) (fun _ u hu => ?_) fun _ _ h => h
            rw [ht.copy, withParents_cons] at hu
            exact ht.trans hu

/-- What a place of the copy is to be for an entry. -/
def TreeEntry.copied : TreeEntry → Option CopyEntry
  | .absent => none
  | .file executable content => some (.file executable content)
  | .link target => some (.link target)
  | .directory _ _ => some .directory

/-- The copy after an entry was copied. -/
noncomputable def withEntry (parts : List Bytes) (entry : CopyEntry) (copy : CopyTree) : CopyTree :=
  Function.update (withParents [] parts copy) parts (some entry)

theorem withParents_self (parts : List Bytes) (copy : CopyTree) :
    withParents [] parts copy parts = copy parts := by
  refine if_neg ?_
  rintro ⟨q, _, _, hlast, heq⟩
  exact hlast heq.symm

theorem noLinks_withParents {copy : CopyTree} (h : NoLinks copy fun q => q <+: parts) :
    NoLinks (withParents [] parts copy) fun q => q <+: parts := by
  intro q hq
  unfold withParents
  split
  · rfl
  · exact h q hq

theorem copyLink_spec (h : NoLinks s.copy fun q => q <+: parts) (target : Bytes) :
    (copyLink parts target).wp (fun _ t => Writes s t (withEntry parts (.link target) s.copy))
      (fun _ _ => True) s := by
  unfold copyLink
  rw [Command.wp_bind]
  refine Command.wp_mono (destinationPath_spec fun q hq => h q hq.1) (fun _ t ht => ?_)
    fun _ _ h => h
  have hnone : NoLinks t.copy fun q => q <+: parts ∧ q ≠ parts := by
    rw [ht.copy]
    exact fun q hq => noLinks_withParents h q hq.1
  refine Command.wp_mono (writeCopy_spec hnone _ _) (fun _ u hu => ?_) fun _ _ h => h
  rw [ht.copy] at hu
  exact ht.trans hu.2

theorem copyFile_spec (h : NoLinks s.copy fun q => q <+: parts) (executable : Bool)
    (content : Bytes) : (copyFile parts executable content).wp
      (fun _ t => Writes s t (withEntry parts (.file executable content) s.copy))
      (fun _ _ => True) s := by
  unfold copyFile
  rw [Command.wp_bind]
  refine Command.wp_mono (destinationPath_spec fun q hq => h q hq.1) (fun _ t ht => ?_)
    fun _ _ h => h
  have hnone : NoLinks t.copy fun q => q <+: parts := by
    rw [ht.copy]
    exact noLinks_withParents h
  rw [Command.wp_bind, Command.wp_get, hnone parts (List.prefix_refl _),
    if_neg Bool.false_ne_true]
  refine Command.wp_mono (writeCopy_spec (fun q hq => hnone q hq.1) _ _) (fun _ u hu => ?_)
    fun _ _ h => h
  rw [ht.copy] at hu
  exact ht.trans hu.2

theorem copyDirectory_spec (h : NoLinks s.copy fun q => q <+: parts) :
    (copyDirectory parts).wp (fun _ t => Writes s t (withEntry parts .directory s.copy))
      (fun _ _ => True) s := by
  unfold copyDirectory
  rw [Command.wp_bind]
  refine Command.wp_mono (destinationPath_spec fun q hq => h q hq.1) (fun _ t ht => ?_)
    fun _ _ h => h
  have hnone : NoLinks t.copy fun q => q <+: parts := by
    rw [ht.copy]
    exact noLinks_withParents h
  rw [Command.wp_bind, Command.wp_get]
  split
  · next hthere =>
    have hdirectory : t.copy parts = some .directory :=
      hthere.resolve_right (by rw [hnone parts (List.prefix_refl _)]; exact Bool.false_ne_true)
    rw [Command.wp_pure]
    refine ⟨ht.hashed, ht.remaining, ht.outside, ?_⟩
    rw [withEntry, ← hdirectory, ht.copy, Function.update_eq_self]
  · refine Command.wp_mono (writeCopy_spec (fun q hq => hnone q hq.1) _ _) (fun _ u hu => ?_)
      fun _ _ h => h
    rw [ht.copy] at hu
    exact ht.trans hu.2

/-! ## One path -/

variable {tree : WorkTree} {clock : Nat → Bool} {copying : Bool} {component next : Bytes}

theorem parentsOpen_short (tree : WorkTree) (parent : List Bytes) (hrest : rest.length ≤ 1) :
    ParentsOpen tree parent rest := by
  intro q hq hne hlast
  have hlength : 0 < q.length := List.length_pos_iff.mpr hne
  have hshort : q.length ≠ rest.length := fun heq => hlast (hq.eq_of_length heq)
  have hle := hq.length_le
  omega

theorem parentsOpen_cons : ParentsOpen tree parent (component :: next :: rest) ↔
    (∃ size device, tree (parent ++ [component]) = .directory size device)
      ∧ ParentsOpen tree (parent ++ [component]) (next :: rest) := by
  constructor
  · intro h
    refine ⟨h [component] ⟨next :: rest, rfl⟩ (by simp) (by simp), fun q hq hne hlast => ?_⟩
    obtain ⟨size, device, hq'⟩ := h (component :: q) (List.cons_prefix_cons.mpr ⟨rfl, hq⟩)
      (List.cons_ne_nil _ _) fun heq => hlast (List.cons.inj heq).2
    exact ⟨size, device, by rw [← hq']; simp⟩
  · intro ⟨hfirst, hrest⟩ q hq hne hlast
    cases q with
    | nil => exact absurd rfl hne
    | cons c q =>
        obtain ⟨rfl, hleads⟩ := List.cons_prefix_cons.mp hq
        by_cases hq0 : q = []
        · rw [hq0]
          exact hfirst
        · obtain ⟨size, device, hq'⟩ := hrest q hleads hq0 fun heq => hlast (by rw [heq])
          exact ⟨size, device, by rw [← hq']; simp⟩

theorem feedsAll_openParents (tree : WorkTree) (clock : Nat → Bool) (parent rest : List Bytes) :
    FeedsAll (openParents tree clock parent rest) [] 0
      fun b => b = true ↔ ParentsOpen tree parent rest := by
  have hshort : ∀ parent rest : List Bytes, rest.length ≤ 1 →
      FeedsAll (pure true) [] 0 fun b => b = true ↔ ParentsOpen tree parent rest := by
    intro parent rest hrest
    refine (FeedsAll.pure true).mono fun b hb => ?_
    rw [hb]
    exact iff_of_true rfl (parentsOpen_short tree parent hrest)
  induction rest generalizing parent with
  | nil => exact hshort parent [] (by simp)
  | cons component rest ih =>
      cases rest with
      | nil => exact hshort parent [component] (by simp)
      | cons next rest =>
          unfold openParents
          refine FeedsAll.congr (FeedsAll.bind (feedsAll_checkDeadline clock) fun _ _ => ?_)
            (List.nil_append []) (Nat.zero_add 0)
          have hclosed : (∀ size device, tree (parent ++ [component]) ≠ .directory size device) →
              FeedsAll (pure false) [] 0
                fun b => b = true ↔ ParentsOpen tree parent (component :: next :: rest) := by
            intro hnot
            refine (FeedsAll.pure false).mono fun b hb => ?_
            rw [hb, parentsOpen_cons]
            refine iff_of_false Bool.false_ne_true fun h => ?_
            obtain ⟨size, device, hdirectory⟩ := h.1
            exact hnot size device hdirectory
          cases hentry : tree (parent ++ [component]) with
          | directory size device =>
              refine (ih (parent ++ [component])).mono fun b hb => ?_
              rw [hb, parentsOpen_cons, and_iff_right ⟨size, device, hentry⟩]
          | absent => exact hclosed fun size device h => by rw [hentry] at h; cases h
          | file executable content =>
              exact hclosed fun size device h => by rw [hentry] at h; cases h
          | link target => exact hclosed fun size device h => by rw [hentry] at h; cases h

/-- The copy after an entry was copied, if there is anything to copy. -/
noncomputable def withCopied (parts : List Bytes) (entry : TreeEntry) (copy : CopyTree) : CopyTree :=
  entry.copied.elim copy fun e => withEntry parts e copy

/-- From one state to another these bytes were fed, this was spent, and the entry was
copied if anything was to be. -/
structure Visits (copying : Bool) (parts : List Bytes) (entry : TreeEntry) (bytes : Bytes)
    (cost : Nat) (s t : SnapshotState) : Prop where
  feeds : Feeds s t bytes cost
  alone : copying = false → t.copy = s.copy ∧ t.outside = s.outside
  copies : copying = true → NoLinks s.copy (fun q => q <+: parts) →
    t.outside = s.outside ∧ t.copy = withCopied parts entry s.copy

/-- The command does so from every state, and then `P`. -/
def VisitsAll (x : Snapshot Unit) (copying : Bool) (parts : List Bytes) (entry : TreeEntry)
    (bytes : Bytes) (cost : Nat) (P : Prop) : Prop :=
  ∀ s, x.wp (fun _ t => P ∧ Visits copying parts entry bytes cost s t) (fun _ _ => True) s

theorem FeedsAll.visits {α : Type} {x : Snapshot α} {f : α → Snapshot Unit} {entry : TreeEntry}
    {bytes bytes' : Bytes} {cost cost' : Nat} {P : α → Prop} {P' : Prop}
    (hx : FeedsAll x bytes cost P)
    (hf : ∀ a, P a → VisitsAll (f a) copying parts entry bytes' cost' P') :
    VisitsAll (x >>= f) copying parts entry (bytes ++ bytes') (cost + cost') P' := by
  intro s
  rw [Command.wp_bind]
  refine Command.wp_mono (hx s) (fun a t ht => ?_) fun _ _ _ => trivial
  obtain ⟨ha, hfeeds, hcopy, houtside⟩ := ht
  refine Command.wp_mono (hf a ha t) (fun _ u hu => ?_) fun _ _ _ => trivial
  refine ⟨hu.1, hfeeds.trans hu.2.feeds, fun hno => ?_, fun hyes hlinks => ?_⟩
  · rw [← hcopy, ← houtside]
    exact hu.2.alone hno
  · rw [← hcopy, ← houtside]
    exact hu.2.copies hyes (hcopy ▸ hlinks)

theorem VisitsAll.congr {x : Snapshot Unit} {entry : TreeEntry} {bytes bytes' : Bytes}
    {cost cost' : Nat} {P : Prop} (h : VisitsAll x copying parts entry bytes cost P)
    (hbytes : bytes = bytes') (hcost : cost = cost') :
    VisitsAll x copying parts entry bytes' cost' P := by
  rw [← hbytes, ← hcost]
  exact h

/-- The copy at the end of a visit. -/
theorem visits_copy {y : Snapshot Unit} {entry : TreeEntry} {e : CopyEntry}
    (hentry : entry.copied = some e) (hquiet : Quiet y)
    (hy : copying = true → ∀ s, NoLinks s.copy (fun q => q <+: parts) →
      y.wp (fun _ t => Writes s t (withEntry parts e s.copy)) (fun _ _ => True) s) :
    VisitsAll (if copying then y else pure ()) copying parts entry [] 0 True := by
  intro s
  cases copying with
  | false =>
      rw [if_neg Bool.false_ne_true, Command.wp_pure]
      exact ⟨trivial, Feeds.refl s, fun _ => ⟨rfl, rfl⟩, fun h => absurd h Bool.false_ne_true⟩
  | true =>
      rw [if_pos rfl]
      have hfeeds : ∀ t, t.hashed = s.hashed → t.remaining = s.remaining → Feeds s t [] 0 := by
        intro t hhashed hremaining
        have hrefl := Feeds.refl s
        exact ⟨hhashed.trans hrefl.hashed, hremaining.trans hrefl.remaining, hrefl.left⟩
      by_cases hlinks : NoLinks s.copy fun q => q <+: parts
      · refine Command.wp_mono (hy rfl s hlinks) (fun _ t ht => ?_) fun _ _ h => h
        refine ⟨trivial, hfeeds t ht.hashed ht.remaining, fun h => absurd h.symm Bool.false_ne_true,
          fun _ _ => ⟨ht.outside, ?_⟩⟩
        rw [ht.copy, withCopied, hentry]
        rfl
      · refine Command.wp_mono (hquiet s) (fun _ t ht => ?_) fun _ _ h => h
        exact ⟨trivial, hfeeds t ht.1 ht.2, fun h => absurd h.symm Bool.false_ne_true,
          fun _ h => absurd h hlinks⟩

theorem VisitsAll.mono {x : Snapshot Unit} {entry : TreeEntry} {bytes : Bytes} {cost : Nat}
    {P Q : Prop} (h : VisitsAll x copying parts entry bytes cost P) (hPQ : P → Q) :
    VisitsAll x copying parts entry bytes cost Q :=
  fun s => Command.wp_mono (h s) (fun _ _ ht => ⟨hPQ ht.1, ht.2⟩) fun _ _ h => h

/-- A command with nothing to copy. -/
theorem FeedsAll.visits_absent {x : Snapshot Unit} {bytes : Bytes} {cost : Nat} {P : Unit → Prop}
    (h : FeedsAll x bytes cost P) : VisitsAll x copying parts .absent bytes cost True := by
  intro s
  refine Command.wp_mono (h s) (fun _ t ht => ?_) fun _ _ h => h
  obtain ⟨_, hfeeds, hcopy, houtside⟩ := ht
  exact ⟨trivial, hfeeds, fun _ => ⟨hcopy, houtside⟩, fun _ _ => ⟨houtside, hcopy⟩⟩

/-- A length that fits is fed first. -/
theorem VisitsAll.sized {n : Nat} {y : Snapshot Unit} {entry : TreeEntry} {bytes : Bytes}
    {cost : Nat} {P : Prop} (hy : n < 256 ^ 8 → VisitsAll y copying parts entry bytes cost P) :
    VisitsAll (Command.attempt (eightBytes n) >>= fun size => feed size >>= fun _ => y) copying
      parts entry (bigEndian 8 n ++ bytes) cost P := by
  refine VisitsAll.congr ((FeedsAll.attempt _).visits fun size hsize => ?_)
    (List.nil_append _) (Nat.zero_add cost)
  unfold eightBytes at hsize
  split at hsize
  · next hn =>
    obtain rfl := Except.ok.inj hsize
    exact VisitsAll.congr ((feedsAll_feed _).visits fun _ _ => hy hn) rfl (Nat.zero_add cost)
  · cases hsize

/-- A command that reads the state first. -/
theorem VisitsAll.get {f : SnapshotState → Snapshot Unit} {entry : TreeEntry} {bytes : Bytes}
    {cost : Nat} {P : Prop} (hf : ∀ s, VisitsAll (f s) copying parts entry bytes cost P) :
    VisitsAll (get >>= f) copying parts entry bytes cost P := by
  intro s
  rw [Command.wp_bind, Command.wp_get]
  exact hf s s

theorem visits_link (target : Bytes) :
    VisitsAll (visitEntry clock copying parts (.link target)) copying parts (.link target)
      (encodeEntry (.link target)) (contentBytes (.link target)) (target.length < 256 ^ 8) := by
  have hcopy : VisitsAll (if copying then copyLink parts target else pure ()) copying parts
      (.link target) [] 0 True :=
    visits_copy rfl (quiet_copyLink parts target) fun _ s h => copyLink_spec h target
  refine VisitsAll.congr ((feedsAll_feed _).visits fun _ _ => (feedsAll_feed _).visits fun _ _ =>
    (feedsAll_spend _).visits fun _ _ => VisitsAll.sized fun hlength =>
      (feedsAll_feed _).visits fun _ _ => hcopy.mono fun _ => hlength) ?_ ?_
  · show asciiBytes "120000\x00".toList ++ (asciiBytes ['L']
        ++ ([] ++ (bigEndian 8 target.length ++ (target ++ []))))
      = asciiBytes "120000\x00L".toList ++ (bigEndian 8 target.length ++ target)
    rw [List.append_nil, List.nil_append, ← List.append_assoc]
    rfl
  · show 0 + (0 + (target.length + (0 + 0))) = target.length
    omega

theorem visits_file (executable : Bool) (content : Bytes) :
    VisitsAll (visitEntry clock copying parts (.file executable content)) copying parts
      (.file executable content) (encodeEntry (.file executable content))
      (contentBytes (.file executable content)) (content.length < 256 ^ 8) := by
  have hcopy : ∀ captured, (captured = if copying then [] ++ content else []) →
      VisitsAll (if copying then copyFile parts executable captured else pure ()) copying parts
        (.file executable content) [] 0 True := by
    intro captured hcaptured
    refine visits_copy rfl (quiet_copyFile parts executable captured) fun hcopying s h => ?_
    rw [hcaptured, if_pos hcopying]
    exact copyFile_spec h executable content
  refine VisitsAll.congr ((feedsAll_feed _).visits fun _ _ => VisitsAll.get fun _ =>
    (FeedsAll.attempt _).visits fun _ _ => (feedsAll_feed _).visits fun _ _ =>
      (feedsAll_feed _).visits fun _ _ => VisitsAll.sized fun hlength =>
        (feedsAll_readBlocks clock copying (Nat.lt_succ_self _) []).visits fun captured hcaptured =>
          (hcopy captured hcaptured).mono fun _ => hlength) ?_ ?_
  · show asciiBytes "100000\x00".toList ++ ([] ++ (asciiBytes ['F']
        ++ (asciiBytes [if executable then 'X' else 'N']
          ++ (bigEndian 8 content.length ++ (content ++ [])))))
      = asciiBytes "100000\x00F".toList ++ (asciiBytes [if executable then 'X' else 'N']
        ++ (bigEndian 8 content.length ++ content))
    rw [List.append_nil, List.nil_append, ← List.append_assoc]
    rfl
  · show 0 + (0 + (0 + (0 + (content.length + 0)))) = content.length
    omega

theorem visits_directory (size device : Nat) :
    VisitsAll (visitEntry clock copying parts (.directory size device)) copying parts
      (.directory size device) (encodeEntry (.directory size device)) 0 True := by
  have hcopy : VisitsAll (if copying then copyDirectory parts else pure ()) copying parts
      (.directory size device) [] 0 True :=
    visits_copy rfl (quiet_copyDirectory parts) fun _ s h => copyDirectory_spec h
  refine VisitsAll.congr ((feedsAll_feed _).visits fun _ _ => (feedsAll_feed _).visits fun _ _ =>
    (feedsAll_feed _).visits fun _ _ => hcopy) ?_ rfl
  rw [List.append_nil, ← List.append_assoc]
  rfl

/-- What is done for any entry. -/
theorem visits_entry (entry : TreeEntry) :
    VisitsAll (visitEntry clock copying parts entry) copying parts entry (encodeEntry entry)
      (contentBytes entry) (contentBytes entry < 256 ^ 8) := by
  cases entry with
  | absent => exact (feedsAll_feed _).visits_absent.mono fun _ => Nat.two_pow_pos 64
  | link target => exact visits_link target
  | file executable content => exact visits_file executable content
  | directory size device => exact (visits_directory size device).mono fun _ => Nat.two_pow_pos 64

/-- A path that was visited without an error. -/
structure Accepted (tree : WorkTree) (relative : Bytes) : Prop where
  safe : isUnsafe relative = false
  length : relative.length < 256 ^ 8
  content : contentBytes (observe tree (pathParts relative)) < 256 ^ 8

/-- One turn of the loop over the paths. -/
theorem visits_path (tree : WorkTree) (clock : Nat → Bool) (copying : Bool) (relative : Bytes) :
    VisitsAll (visit tree clock copying relative) copying (pathParts relative)
      (observe tree (pathParts relative)) (block tree relative)
      (contentBytes (observe tree (pathParts relative))) (Accepted tree relative) := by
  have hvisit : ∀ found : Bool, (found = true ↔ ParentsOpen tree [] (pathParts relative)) →
      VisitsAll (if found then visitEntry clock copying (pathParts relative) (tree (pathParts relative))
          else feed (asciiBytes ['M'])) copying (pathParts relative)
        (observe tree (pathParts relative)) (encodeEntry (observe tree (pathParts relative)))
        (contentBytes (observe tree (pathParts relative)))
        (contentBytes (observe tree (pathParts relative)) < 256 ^ 8) := by
    intro found hfound
    unfold observe
    cases found with
    | true =>
        rw [if_pos (hfound.mp rfl), if_pos rfl]
        exact visits_entry _
    | false =>
        rw [if_neg (fun h => Bool.false_ne_true (hfound.mpr h)), if_neg Bool.false_ne_true]
        exact (feedsAll_feed _).visits_absent.mono fun _ => Nat.two_pow_pos 64
  refine VisitsAll.congr ((feedsAll_checkDeadline clock).visits fun _ _ =>
    (FeedsAll.attempt _).visits fun _ hsafe => VisitsAll.sized fun hlength =>
      (feedsAll_feed _).visits fun _ _ => (feedsAll_openParents _ _ _ _).visits fun found hfound =>
        (hvisit found hfound).mono fun hcontent => ⟨?_, hlength, hcontent⟩) ?_ ?_
  · rw [raiseIf_ok, Bool.not_eq_true] at hsafe
    exact hsafe
  · simp only [block, List.nil_append, List.append_assoc]
  · omega

/-! ## The paths -/

/-- The paths in the order they are visited in. -/
def visited (copying : Bool) (values : List Bytes) : List Bytes :=
  if copying then copyOrder values else values

/-- What was read of files and links. -/
noncomputable def contentTotal (tree : WorkTree) (values : List Bytes) : Nat :=
  (values.map fun p => contentBytes (observe tree (pathParts p))).sum

theorem visitAll_spec (tree : WorkTree) (clock : Nat → Bool) (copying : Bool)
    (values : List Bytes) (s : SnapshotState) :
    (values.forM (visit tree clock copying)).wp
      (fun _ t => (∀ p ∈ values, Accepted tree p)
        ∧ Feeds s t (values.flatMap (block tree)) (contentTotal tree values)) (fun _ _ => True) s := by
  refine Command.wp_forM (I := fun pre t => (∀ p ∈ pre, Accepted tree p)
    ∧ Feeds s t (pre.flatMap (block tree)) (contentTotal tree pre)) ?_
    ⟨fun p hp => absurd hp List.not_mem_nil, Feeds.refl s⟩
  intro pre p post _ t ht
  refine Command.wp_mono (visits_path tree clock copying p t) (fun _ u hu => ?_) fun _ _ h => h
  refine ⟨fun q hq => ?_, ?_⟩
  · rcases List.mem_append.mp hq with hpre | hlast
    · exact ht.1 q hpre
    · rw [List.mem_singleton.mp hlast]
      exact hu.1
  · have hfeeds := ht.2.trans hu.2.feeds
    have hbytes : (pre ++ [p]).flatMap (block tree) = pre.flatMap (block tree) ++ block tree p := by
      simp
    have hcost : contentTotal tree (pre ++ [p])
        = contentTotal tree pre + contentBytes (observe tree (pathParts p)) := by
      simp [contentTotal]
    rw [hbytes, hcost]
    exact hfeeds

/-- How a call that returns came to do so: the bytes in front of the paths, then the loop. -/
structure Returned (tree : WorkTree) (clock : Nat → Bool) (copying : Bool) (output : Bytes)
    (seed : Text) (s t u : SnapshotState) (values : List Bytes) : Prop where
  listed : relativeValues output = .ok values
  front : Feeds s t (asciiBytes ['D'] ++ asciiBytes seed) 0
  copy : t.copy = s.copy
  outside : t.outside = s.outside
  loop : ((visited copying values).forM (visit tree clock copying)).exec t = (.ok (), u)

theorem pathContentIdentity_spec (tree : WorkTree) (clock : Nat → Bool) (secure copying : Bool)
    (output : Bytes) (seed : Text) (s : SnapshotState) :
    (pathContentIdentity tree clock secure copying output seed).wp
      (fun id u => id = Sha256.hexdigest u.hashed
        ∧ ∃ t values, Returned tree clock copying output seed s t u values) (fun _ _ => True) s := by
  unfold pathContentIdentity
  rw [Command.wp_bind]
  refine Command.wp_attempt (fun values hvalues => ?_) fun _ _ => trivial
  have hfront : FeedsAll (feed (asciiBytes ['D']) >>= fun _ =>
      Command.attempt (encodeSeed seed) >>= feed) (asciiBytes ['D'] ++ asciiBytes seed) 0
      fun _ => True := by
    refine FeedsAll.congr (FeedsAll.bind (feedsAll_feed _) fun _ _ =>
      FeedsAll.congr (FeedsAll.bind (FeedsAll.attempt _) fun bytes hbytes => ?_)
        (List.nil_append (asciiBytes seed)) (Nat.zero_add 0)) rfl (Nat.zero_add 0)
    unfold encodeSeed at hbytes
    split at hbytes
    · obtain rfl := Except.ok.inj hbytes
      exact feedsAll_feed _
    · cases hbytes
  have hrest : ∀ t, t.copy = s.copy → t.outside = s.outside →
      Feeds s t (asciiBytes ['D'] ++ asciiBytes seed) 0 →
      (if visited copying values = [] then get >>= fun v => pure (Sha256.hexdigest v.hashed)
        else Command.attempt (raiseIf (secure = false)
            (.runtime "secure dirty snapshot path inspection is unavailable")) >>= fun _ =>
          checkDeadline clock >>= fun _ =>
          (visited copying values).forM (visit tree clock copying) >>= fun _ =>
          get >>= fun v => pure (Sha256.hexdigest v.hashed) : Snapshot Text).wp
        (fun id u => id = Sha256.hexdigest u.hashed
          ∧ ∃ t values, Returned tree clock copying output seed s t u values)
        (fun _ _ => True) t := by
    intro t hcopy houtside hfeeds
    split
    · next hnone =>
      refine ⟨rfl, t, values, hvalues, hfeeds, hcopy, houtside, ?_⟩
      rw [hnone]
      rfl
    · rw [Command.wp_bind]
      refine Command.wp_attempt (fun _ _ => ?_) fun _ _ => trivial
      rw [Command.wp_bind]
      refine Command.wp_mono (feedsAll_checkDeadline clock t) (fun _ t' ht' => ?_) fun _ _ h => h
      rw [Command.wp_bind]
      unfold Command.wp
      split
      · next u hu =>
        have hfeeds' := hfeeds.trans ht'.2.1
        rw [List.append_nil] at hfeeds'
        exact ⟨rfl, t', values, hvalues, hfeeds', ht'.2.2.1.trans hcopy,
          ht'.2.2.2.trans houtside, hu⟩
      · trivial
  have hall := hfront s
  rw [Command.wp_bind] at hall
  rw [Command.wp_bind]
  refine Command.wp_mono hall (fun _ t ht => ?_) fun _ _ h => h
  rw [Command.wp_bind] at ht ⊢
  refine Command.wp_mono ht (fun bytes t ht => ?_) fun _ _ h => h
  rw [Command.wp_bind]
  refine Command.wp_mono ht (fun _ t ht => ?_) fun _ _ h => h
  exact hrest t ht.2.2.1 ht.2.2.2 ht.2.1

/-- What a call that returns fed, spent and returned. -/
theorem returned_feeds {secure : Bool} {output : Bytes} {seed id : Text} {u : SnapshotState}
    (h : (pathContentIdentity tree clock secure copying output seed).exec s = (.ok id, u)) :
    id = Sha256.hexdigest u.hashed ∧ ∃ values, relativeValues output = .ok values
      ∧ (∀ p ∈ visited copying values, Accepted tree p)
      ∧ Feeds s u (asciiBytes ['D'] ++ asciiBytes seed
          ++ (visited copying values).flatMap (block tree))
        (contentTotal tree (visited copying values)) := by
  have hspec := pathContentIdentity_spec tree clock secure copying output seed s
  unfold Command.wp at hspec
  rw [h] at hspec
  obtain ⟨hid, t, values, hreturned⟩ := hspec
  have hloop := visitAll_spec tree clock copying (visited copying values) t
  unfold Command.wp at hloop
  rw [hreturned.loop] at hloop
  refine ⟨hid, values, hreturned.listed, hloop.1, ?_⟩
  have hfeeds := hreturned.front.trans hloop.2
  rw [Nat.zero_add] at hfeeds
  exact hfeeds

/-! ## What the bytes say -/

theorem asciiBytes_inj {t u : Text} (ht : ∀ c ∈ t, c.toNat < 128) (hu : ∀ c ∈ u, c.toNat < 128)
    (h : asciiBytes t = asciiBytes u) : t = u := by
  have hread : ∀ t : Text, (∀ c ∈ t, c.toNat < 128) →
      (asciiBytes t).map (fun b => Char.ofNat b.toNat) = t := by
    intro t ht
    rw [asciiBytes, List.map_map]
    refine (List.map_congr_left fun c hc => ?_).trans (List.map_id t)
    have hlt := ht c hc
    show Char.ofNat (UInt8.ofNat c.toNat).toNat = c
    rw [UInt8.toNat_ofNat', Nat.mod_eq_of_lt (by omega), Char.ofNat_toNat]
  rw [← hread t ht, h, hread u hu]

/-- The byte of a decimal digit. -/
def IsDigitByte (b : UInt8) : Prop := 48 ≤ b.toNat ∧ b.toNat ≤ 57

theorem isDigitByte_of_mem {n : Nat} {b : UInt8} (h : b ∈ asciiBytes (JsonText.decimalInt n)) :
    IsDigitByte b := by
  obtain ⟨c, hc, rfl⟩ := List.mem_map.mp h
  have hdigit := Char.isDigit_iff_toNat.mp (JsonText.isDigit_of_mem_toDigits hc)
  have hlow : '0'.toNat = 48 := rfl
  have hhigh : '9'.toNat = 57 := rfl
  unfold IsDigitByte
  rw [UInt8.toNat_ofNat', Nat.mod_eq_of_lt (by omega)]
  omega

theorem decimal_inj {m n : Nat}
    (h : asciiBytes (JsonText.decimalInt m) = asciiBytes (JsonText.decimalInt n)) : m = n := by
  have hascii : ∀ n : Nat, ∀ c ∈ JsonText.decimalInt n, c.toNat < 128 := by
    intro n c hc
    have hdigit := Char.isDigit_iff_toNat.mp (JsonText.isDigit_of_mem_toDigits hc)
    have hhigh : '9'.toNat = 57 := rfl
    omega
  have htext := asciiBytes_inj (hascii m) (hascii n) h
  have hint := JsonText.decimalInt_append_inj JsonText.ends_nil JsonText.ends_nil
    (congrArg (· ++ []) htext)
  exact Int.ofNat.inj hint.1

/-- What comes after an entry starts with a zero, as the length of a path does. -/
def StartsWithZero (r : Bytes) : Prop := ∀ b ∈ r.head?, b = 0

theorem directory_inj {m n m' n' : Nat} {r s : Bytes} (hr : StartsWithZero r)
    (hs : StartsWithZero s)
    (h : asciiBytes (JsonText.decimalInt m ++ ':' :: JsonText.decimalInt n) ++ r
      = asciiBytes (JsonText.decimalInt m' ++ ':' :: JsonText.decimalInt n') ++ s) :
    (m = m' ∧ n = n') ∧ r = s := by
  have hsplit : ∀ (m n : Nat) (r : Bytes),
      asciiBytes (JsonText.decimalInt m ++ ':' :: JsonText.decimalInt n) ++ r
        = asciiBytes (JsonText.decimalInt m)
          ++ (58 :: (asciiBytes (JsonText.decimalInt n) ++ r)) := by
    intro m n r
    rw [asciiBytes, List.map_append, List.append_assoc]
    rfl
  have hzero : ∀ r, StartsWithZero r → ∀ b ∈ r.head?, ¬ IsDigitByte b := by
    intro r hr b hb hdigit
    rw [hr b hb] at hdigit
    exact absurd hdigit.1 (by decide)
  have hcolon : ∀ r : Bytes, ∀ b ∈ (58 :: r : Bytes).head?, ¬ IsDigitByte b := by
    intro r b hb hdigit
    rw [← Option.some.inj hb] at hdigit
    exact absurd hdigit.2 (by decide)
  rw [hsplit, hsplit] at h
  obtain ⟨hm, hrest⟩ := append_inj_of_class (fun _ => isDigitByte_of_mem)
    (fun _ => isDigitByte_of_mem) (hcolon _) (hcolon _) h
  obtain ⟨hn, hend⟩ := append_inj_of_class (fun _ => isDigitByte_of_mem)
    (fun _ => isDigitByte_of_mem) (hzero r hr) (hzero s hs) (List.cons.inj hrest).2
  exact ⟨⟨decimal_inj hm, decimal_inj hn⟩, hend⟩

theorem encodeEntry_link (target r : Bytes) : encodeEntry (.link target) ++ r
    = asciiBytes "120000\x00L".toList ++ ((bigEndian 8 target.length ++ target) ++ r) := by
  rw [encodeEntry, List.append_assoc]

theorem encodeEntry_file (executable : Bool) (content r : Bytes) :
    encodeEntry (.file executable content) ++ r
      = asciiBytes "100000\x00F".toList ++ (asciiBytes [if executable then 'X' else 'N']
        ++ ((bigEndian 8 content.length ++ content) ++ r)) := by
  rw [encodeEntry, List.append_assoc, List.append_assoc (asciiBytes [_])]

theorem encodeEntry_directory (size device : Nat) (r : Bytes) :
    encodeEntry (.directory size device) ++ r = asciiBytes "40000\x00O".toList
      ++ (asciiBytes (JsonText.decimalInt size ++ ':' :: JsonText.decimalInt device) ++ r) := by
  rw [encodeEntry, List.append_assoc]

/-- What is fed of an entry is told from what is fed of another, and from what comes after. -/
theorem delimits_encodeEntry :
    Delimits (fun entry => contentBytes entry < 256 ^ 8) StartsWithZero encodeEntry := by
  intro a b r s ha hb hr hs h
  cases a with
  | absent =>
      cases b with
      | absent => exact ⟨rfl, (List.cons.inj h).2⟩
      | _ => exact absurd (List.cons.inj h).1 (by decide)
  | link target =>
      cases b with
      | link target' =>
          rw [encodeEntry_link, encodeEntry_link] at h
          obtain ⟨rfl, hrest⟩ := Delimits.framed 8 _ _ _ _ ha hb trivial trivial
            (List.append_cancel_left h)
          exact ⟨rfl, hrest⟩
      | file executable content =>
          exact absurd (List.cons.inj (List.cons.inj h).2).1 (by decide)
      | _ => exact absurd (List.cons.inj h).1 (by decide)
  | file executable content =>
      cases b with
      | file executable' content' =>
          rw [encodeEntry_file, encodeEntry_file] at h
          obtain ⟨hbit, hrest⟩ := List.append_inj (List.append_cancel_left h) rfl
          obtain ⟨rfl, hend⟩ := Delimits.framed 8 _ _ _ _ ha hb trivial trivial hrest
          cases executable with
          | true =>
              cases executable' with
              | true => exact ⟨rfl, hend⟩
              | false => exact absurd (List.cons.inj hbit).1 (by decide)
          | false =>
              cases executable' with
              | true => exact absurd (List.cons.inj hbit).1 (by decide)
              | false => exact ⟨rfl, hend⟩
      | link target => exact absurd (List.cons.inj (List.cons.inj h).2).1 (by decide)
      | _ => exact absurd (List.cons.inj h).1 (by decide)
  | directory size device =>
      cases b with
      | directory size' device' =>
          rw [encodeEntry_directory, encodeEntry_directory] at h
          obtain ⟨⟨rfl, rfl⟩, hrest⟩ := directory_inj hr hs (List.append_cancel_left h)
          exact ⟨rfl, hrest⟩
      | _ => exact absurd (List.cons.inj h).1 (by decide)

/-- What is fed of a path and of what was observed there. -/
def encodeBlock (x : Bytes × TreeEntry) : Bytes :=
  (bigEndian 8 x.1.length ++ x.1) ++ encodeEntry x.2

/-- The paths with what was observed there. -/
noncomputable def observed (tree : WorkTree) (values : List Bytes) : List (Bytes × TreeEntry) :=
  values.map fun p => (p, observe tree (pathParts p))

theorem flatMap_block (tree : WorkTree) (values : List Bytes) :
    values.flatMap (block tree) = (observed tree values).flatMap encodeBlock := by
  rw [observed, List.flatMap_map]
  rfl

theorem startsWithZero_framed {p : Bytes} (h : p.length < 256 ^ 7) (r : Bytes) :
    StartsWithZero ((bigEndian 8 p.length ++ p) ++ r) := by
  intro b hb
  rw [bigEndian_zero h] at hb
  exact (Option.some.inj hb).symm

/-- The paths and what was observed there can be read back. -/
theorem observed_inj {l m : List (Bytes × TreeEntry)}
    (hl : ∀ x ∈ l, x.1.length < 256 ^ 7 ∧ contentBytes x.2 < 256 ^ 8)
    (hm : ∀ x ∈ m, x.1.length < 256 ^ 7 ∧ contentBytes x.2 < 256 ^ 8)
    (h : l.flatMap encodeBlock = m.flatMap encodeBlock) : l = m := by
  have hframed : Delimits (fun p : Bytes => p.length < 256 ^ 7) (fun _ => True)
      fun p => bigEndian 8 p.length ++ p := by
    intro a b r s ha hb
    exact Delimits.framed 8 a b r s (by show a.length < _; omega) (by show b.length < _; omega)
  refine Delimits.flatMap_inj (hframed.seq delimits_encodeEntry fun _ _ _ => trivial) ?_ ?_ ?_
    hl hm h
  · intro x
    simp [bigEndian]
  · intro b hb
    cases hb
  · intro x r hx _
    show StartsWithZero (((bigEndian 8 x.1.length ++ x.1) ++ encodeEntry x.2) ++ r)
    rw [List.append_assoc]
    exact startsWithZero_framed hx.1 _

/-! ## The call -/

/-- The seeds the callers give: none, or a digest in hexadecimal. -/
def IsSeed (seed : Text) : Prop :=
  seed = [] ∨ (seed.length = 64 ∧ ∀ c ∈ seed, (48 ≤ c.toNat ∧ c.toNat ≤ 57)
    ∨ (65 ≤ c.toNat ∧ c.toNat ≤ 70) ∨ (97 ≤ c.toNat ∧ c.toNat ≤ 102))

theorem IsSeed.ascii {seed : Text} (h : IsSeed seed) {c : Char} (hc : c ∈ seed) :
    0 < c.toNat ∧ c.toNat < 128 := by
  rcases h with rfl | ⟨_, hhex⟩
  · cases hc
  · have hrange := hhex c hc
    omega

/-- No seed has a zero, which what comes after one starts with. -/
theorem seed_inj {seed seed' : Text} {r s : Bytes} (hseed : IsSeed seed) (hseed' : IsSeed seed')
    (hr : StartsWithZero r) (hs : StartsWithZero s)
    (h : asciiBytes seed ++ r = asciiBytes seed' ++ s) : seed = seed' ∧ r = s := by
  have hne : ∀ seed : Text, IsSeed seed → ∀ b ∈ asciiBytes seed, b ≠ 0 := by
    intro seed hseed b hb hzero
    obtain ⟨c, hc, rfl⟩ := List.mem_map.mp hb
    have hascii := hseed.ascii hc
    have hnat := congrArg UInt8.toNat hzero
    rw [UInt8.toNat_ofNat', Nat.mod_eq_of_lt (by omega)] at hnat
    have h0 : (0 : UInt8).toNat = 0 := rfl
    omega
  have hhead : ∀ r, StartsWithZero r → ∀ b ∈ r.head?, ¬ b ≠ 0 :=
    fun r hr b hb hne => hne (hr b hb)
  obtain ⟨hbytes, hrest⟩ := append_inj_of_class (hne seed hseed) (hne seed' hseed')
    (hhead r hr) (hhead s hs) h
  exact ⟨asciiBytes_inj (fun c hc => (hseed.ascii hc).2) (fun c hc => (hseed'.ascii hc).2) hbytes,
    hrest⟩

theorem length_le_of_mem_splitOn {x : UInt8} {t part : Bytes} (h : part ∈ t.splitOn x) :
    part.length ≤ t.length := by
  induction t generalizing part with
  | nil =>
      rw [List.splitOn_nil, List.mem_singleton] at h
      rw [h]
  | cons c t ih =>
      rw [List.splitOn_cons_eq_if_modifyHead] at h
      rw [List.length_cons]
      split at h
      · rcases List.mem_cons.mp h with rfl | hrest
        · exact Nat.zero_le _
        · exact Nat.le_succ_of_le (ih hrest)
      · cases hsplit : t.splitOn x with
        | nil => exact absurd hsplit (List.splitOn_ne_nil _ _)
        | cons first others =>
            rw [hsplit] at h
            rcases List.mem_cons.mp h with rfl | hrest
            · refine Nat.succ_le_succ (ih ?_)
              rw [hsplit]
              exact List.mem_cons_self
            · refine Nat.le_succ_of_le (ih ?_)
              rw [hsplit]
              exact List.mem_cons_of_mem _ hrest

theorem length_le_of_relativeValues {output : Bytes} {values : List Bytes}
    (h : relativeValues output = .ok values) {p : Bytes} (hp : p ∈ values) :
    p.length ≤ output.length := by
  unfold relativeValues at h
  split at h
  · rw [← Except.ok.inj h] at hp
    cases hp
  · split at h
    · cases h
    · rw [← Except.ok.inj h] at hp
      have hle := length_le_of_mem_splitOn hp
      rw [List.length_dropLast] at hle
      omega

/-- Two calls that return the same identity were about the same. -/
theorem identity_inj {tree tree' : WorkTree} {clock clock' : Nat → Bool} {secure secure' : Bool}
    {output output' : Bytes} {seed seed' id : Text} {budget budget' : Option Int}
    {t t' : SnapshotState}
    (h : (pathContentIdentity tree clock secure false output seed).exec { remaining := budget }
      = (.ok id, t))
    (h' : (pathContentIdentity tree' clock' secure' false output' seed').exec
      { remaining := budget' } = (.ok id, t'))
    (hseed : IsSeed seed) (hseed' : IsSeed seed')
    (hshort : output.length < 256 ^ 7) (hshort' : output'.length < 256 ^ 7)
    (hdistinct : Sha256.hexdigest t.hashed = Sha256.hexdigest t'.hashed → t.hashed = t'.hashed) :
    seed = seed' ∧ ∃ values, relativeValues output = .ok values
      ∧ relativeValues output' = .ok values
      ∧ ∀ p ∈ values, observe tree (pathParts p) = observe tree' (pathParts p) := by
  obtain ⟨hid, values, hvalues, haccepted, hfeeds⟩ := returned_feeds h
  obtain ⟨hid', values', hvalues', haccepted', hfeeds'⟩ := returned_feeds h'
  have hbytes := hdistinct (hid.symm.trans hid')
  rw [hfeeds.hashed, hfeeds'.hashed, List.append_assoc, List.append_assoc] at hbytes
  have hvalid : ∀ {tree output values}, relativeValues output = .ok values →
      output.length < 256 ^ 7 → (∀ p ∈ visited false values, Accepted tree p) →
      ∀ x ∈ observed tree values, x.1.length < 256 ^ 7 ∧ contentBytes x.2 < 256 ^ 8 := by
    intro tree output values hvalues hshort haccepted x hx
    obtain ⟨p, hp, rfl⟩ := List.mem_map.mp hx
    exact ⟨Nat.lt_of_le_of_lt (length_le_of_relativeValues hvalues hp) hshort,
      (haccepted p hp).content⟩
  have hzero : ∀ l : List (Bytes × TreeEntry), (∀ x ∈ l, x.1.length < 256 ^ 7
      ∧ contentBytes x.2 < 256 ^ 8) → StartsWithZero (l.flatMap encodeBlock) := by
    intro l hl
    cases l with
    | nil =>
        intro b hb
        cases hb
    | cons x l =>
        rw [List.flatMap_cons, encodeBlock, List.append_assoc]
        exact startsWithZero_framed (hl x List.mem_cons_self).1 _
  have hx := hvalid hvalues hshort haccepted
  have hx' := hvalid hvalues' hshort' haccepted'
  rw [visited, visited, if_neg Bool.false_ne_true, if_neg Bool.false_ne_true, flatMap_block,
    flatMap_block] at hbytes
  obtain ⟨rfl, hblocks⟩ := seed_inj hseed hseed' (hzero _ hx) (hzero _ hx')
    (List.append_cancel_left hbytes)
  have hlists := observed_inj hx hx' hblocks
  have hpaths : values = values' := by
    have hfst := congrArg (List.map Prod.fst) hlists
    unfold observed at hfst
    rw [List.map_map, List.map_map] at hfst
    exact ((List.map_id values).symm.trans hfst).trans (List.map_id values')
  subst hpaths
  refine ⟨rfl, values, hvalues, hvalues', fun p hp => ?_⟩
  exact (Prod.mk.inj (List.map_inj_left.mp hlists p hp)).2

/-! ## Paths that are rejected -/

/-- A path in normal form: parts that name something, a slash between each. -/
def IsNormalPath (p : Bytes) : Prop :=
  ∃ parts, parts ≠ [] ∧ (∀ part ∈ parts, part ≠ [] ∧ part ≠ [46] ∧ part ≠ [46, 46] ∧ 47 ∉ part)
    ∧ p = [47].intercalate parts

theorem eq_of_isUnsafe_false {p : Bytes} (h : isUnsafe p = false) :
    pathParts p ≠ [] ∧ p = [47].intercalate (pathParts p)
      ∧ ∀ part ∈ pathParts p, part ≠ [] ∧ part ≠ [46] ∧ part ≠ [46, 46] := by
  simp only [isUnsafe, Bool.or_eq_false_iff, decide_eq_false_iff_not, Decidable.not_not,
    List.any_eq_false, Bool.or_eq_true, decide_eq_true_eq, not_or] at h
  obtain ⟨⟨⟨_, hposix⟩, hne⟩, hparts⟩ := h
  refine ⟨hne, ?_, fun part hpart => ?_⟩
  · rw [asPosix, if_neg hne] at hposix
    exact hposix
  · obtain ⟨⟨hempty, hdot⟩, hup⟩ := hparts part hpart
    exact ⟨hempty, hdot, hup⟩

theorem isNormalPath_of_safe {p : Bytes} (h : isUnsafe p = false) : IsNormalPath p := by
  obtain ⟨hne, hp, hparts⟩ := eq_of_isUnsafe_false h
  refine ⟨pathParts p, hne, fun part hpart => ?_, hp⟩
  obtain ⟨hempty, hdot, hup⟩ := hparts part hpart
  exact ⟨hempty, hdot, hup, PosixPath.not_mem_of_mem_splitOn (List.mem_filter.mp hpart).1⟩

/-- The paths that pass the check are those in normal form. -/
theorem isUnsafe_eq_false_iff {p : Bytes} : isUnsafe p = false ↔ IsNormalPath p := by
  refine ⟨isNormalPath_of_safe, ?_⟩
  intro ⟨parts, hne, hparts, hp⟩
  have hread : pathParts p = parts := by
    rw [pathParts, hp, List.splitOn_intercalate 47 (fun part h => (hparts part h).2.2.2) hne,
      List.filter_eq_self]
    intro part hpart
    exact decide_eq_true ⟨(hparts part hpart).1, (hparts part hpart).2.1⟩
  have hrelative : p.head? ≠ some 47 := by
    cases parts with
    | nil => exact absurd rfl hne
    | cons part rest =>
        obtain ⟨hempty, _, _, hslash⟩ := hparts part List.mem_cons_self
        cases part with
        | nil => exact absurd rfl hempty
        | cons b part =>
            have hhead : p.head? = some b := by
              rw [hp]
              cases rest with
              | nil => rfl
              | cons part' rest => rw [List.intercalate_cons_cons]; rfl
            rw [hhead]
            intro heq
            rw [Option.some.inj heq] at hslash
            exact hslash List.mem_cons_self
  have hposix : p = asPosix p := by
    rw [asPosix, hread, if_neg hne]
    exact hp
  simp only [isUnsafe, Bool.or_eq_false_iff, decide_eq_false_iff_not, Decidable.not_not,
    List.any_eq_false, Bool.or_eq_true, decide_eq_true_eq, not_or]
  rw [hread]
  exact ⟨⟨⟨hrelative, hposix⟩, hne⟩, fun part hpart =>
    ⟨⟨(hparts part hpart).1, (hparts part hpart).2.1⟩, (hparts part hpart).2.2.1⟩⟩

/-- Git's output: a zero after each path. -/
def pathsOutput (paths : List Bytes) : Bytes := paths.flatMap (· ++ [0])

theorem pathsOutput_eq {paths : List Bytes} (hne : paths ≠ []) :
    pathsOutput paths = [0].intercalate paths ++ [0] := by
  induction paths with
  | nil => exact absurd rfl hne
  | cons p paths ih =>
      cases paths with
      | nil => simp [pathsOutput]
      | cons p' paths =>
          have hrest := ih (List.cons_ne_nil _ _)
          rw [pathsOutput] at hrest ⊢
          rw [List.flatMap_cons, hrest, List.intercalate_cons_cons]
          simp

theorem relativeValues_pathsOutput {paths values : List Bytes} (hnul : ∀ p ∈ paths, 0 ∉ p)
    (h : relativeValues (pathsOutput paths) = .ok values) : values = paths := by
  by_cases hne : paths = []
  · subst hne
    exact (Except.ok.inj h).symm
  · rw [pathsOutput_eq hne] at h
    unfold relativeValues at h
    rw [if_neg (by simp)] at h
    split at h
    · cases h
    · rw [List.dropLast_concat, List.splitOn_intercalate 0 hnul hne] at h
      exact (Except.ok.inj h).symm

theorem mem_visited {values : List Bytes} {p : Bytes} : p ∈ visited copying values ↔ p ∈ values := by
  unfold visited copyOrder
  split
  · rw [List.mem_mergeSort, List.mem_dedup]
  · rfl

/-- A list with a path that is not in normal form is refused. -/
theorem rejected_of_not_normal {paths : List Bytes} (hnul : ∀ p ∈ paths, 0 ∉ p) {p : Bytes}
    (hp : p ∈ paths) (hnormal : ¬ IsNormalPath p) (tree : WorkTree) (clock : Nat → Bool)
    (secure copying : Bool) (seed : Text) (s : SnapshotState) :
    ∃ e t, (pathContentIdentity tree clock secure copying (pathsOutput paths) seed).exec s
      = (.error e, t) := by
  cases hrun : (pathContentIdentity tree clock secure copying (pathsOutput paths) seed).exec s with
  | mk result t =>
      cases result with
      | error e => exact ⟨e, t, rfl⟩
      | ok id =>
          obtain ⟨_, values, hvalues, haccepted, _⟩ := returned_feeds hrun
          obtain rfl := relativeValues_pathsOutput hnul hvalues
          exact absurd (isUnsafe_eq_false_iff.mp (haccepted p (mem_visited.mpr hp)).safe) hnormal

/-! ## The copy -/

/-- What a copy of the listed paths holds: their entries, and the directories above them. -/
def CopiedAs (tree : WorkTree) (values : List Bytes) (q : List Bytes) (e : CopyEntry) : Prop :=
  (∃ p ∈ values, pathParts p = q ∧ (observe tree q).copied = some e)
    ∨ (e = .directory ∧ ∃ p ∈ values, observe tree (pathParts p) ≠ .absent
      ∧ q <+: pathParts p ∧ q ≠ [] ∧ q ≠ pathParts p)

/-- Above what was observed there are directories. -/
theorem observe_above {q : List Bytes} (h : observe tree parts ≠ .absent) (hq : q <+: parts)
    (hne : q ≠ []) (hlast : q ≠ parts) : (observe tree q).copied = some .directory := by
  have hopen : ParentsOpen tree [] parts := by
    by_contra hclosed
    exact h (if_neg hclosed)
  have habove : ParentsOpen tree [] q := by
    intro q' hq' hne' hlast'
    refine hopen q' (hq'.trans hq) hne' fun heq => hlast' (hq'.eq_of_length_le ?_)
    rw [heq]
    exact hq.length_le
  obtain ⟨size, device, hdirectory⟩ := hopen q hq hne hlast
  rw [observe, if_pos habove]
  rw [List.nil_append] at hdirectory
  rw [hdirectory]
  rfl

theorem copied_eq_none {entry : TreeEntry} : entry.copied = none ↔ entry = .absent := by
  cases entry with
  | absent => exact iff_of_true rfl rfl
  | file executable content => exact iff_of_false (fun h => by cases h) (fun h => by cases h)
  | link target => exact iff_of_false (fun h => by cases h) (fun h => by cases h)
  | directory size device => exact iff_of_false (fun h => by cases h) (fun h => by cases h)

theorem copiedAs_append {values : List Bytes} {p : Bytes} {q : List Bytes} {e : CopyEntry} :
    CopiedAs tree (values ++ [p]) q e ↔ CopiedAs tree values q e ∨ CopiedAs tree [p] q e := by
  simp only [CopiedAs, List.mem_append, or_and_right, exists_or, and_or_left]
  exact or_or_or_comm

theorem copiedAs_unique {values : List Bytes} {q : List Bytes} {e e' : CopyEntry}
    (h : CopiedAs tree values q e) (h' : (observe tree q).copied = some e') : e = e' := by
  rcases h with ⟨_, _, _, he⟩ | ⟨rfl, p, _, hpresent, hq, hne, hlast⟩
  · exact Option.some.inj (he.symm.trans h')
  · exact Option.some.inj ((observe_above hpresent hq hne hlast).symm.trans h')

/-- One more path: what is then there is what the path adds. -/
theorem copiedAs_withCopied {values : List Bytes} {copy : CopyTree} {p : Bytes}
    (h : ∀ q e, copy q = some e ↔ CopiedAs tree values q e) (q : List Bytes) (e : CopyEntry) :
    withCopied (pathParts p) (observe tree (pathParts p)) copy q = some e
      ↔ CopiedAs tree (values ++ [p]) q e := by
  unfold withCopied
  cases hentry : (observe tree (pathParts p)).copied with
  | none =>
      show copy q = some e ↔ _
      rw [copiedAs_append, h, or_iff_left]
      rintro (⟨p', hp', rfl, he⟩ | ⟨_, p', hp', hpresent, _⟩)
      · rw [List.mem_singleton.mp hp', hentry] at he
        cases he
      · rw [List.mem_singleton.mp hp'] at hpresent
        exact hpresent (copied_eq_none.mp hentry)
  | some e' =>
      have hpresent : observe tree (pathParts p) ≠ .absent := by
        intro habsent
        rw [habsent] at hentry
        cases hentry
      have hlast : p ∈ values ++ [p] := List.mem_append_right _ List.mem_cons_self
      show withEntry (pathParts p) e' copy q = some e ↔ _
      unfold withEntry
      by_cases hq : q = pathParts p
      · rw [hq, Function.update_self]
        constructor
        · intro he
          exact Or.inl ⟨p, hlast, rfl, hentry.trans he⟩
        · intro hcopied
          rw [copiedAs_unique hcopied hentry]
      · rw [Function.update_of_ne hq, withParents]
        split
        · next habove =>
          obtain ⟨q', hleads, hne, hproper, rfl⟩ := habove
          constructor
          · intro he
            exact Or.inr ⟨(Option.some.inj he).symm, p, hlast, hpresent, hleads, hne, hq⟩
          · intro hcopied
            rw [copiedAs_unique hcopied (observe_above hpresent hleads hne hq)]
        · next hnot =>
          rw [copiedAs_append, h, or_iff_left]
          rintro (⟨p', hp', rfl, _⟩ | ⟨_, p', hp', _, hleads, hne, _⟩)
          · exact hq (by rw [List.mem_singleton.mp hp'])
          · rw [List.mem_singleton.mp hp'] at hleads
            exact hnot ⟨q, hleads, hne, hq, rfl⟩

/-- Deeper paths are copied first, and each once. -/
theorem pairwise_copyOrder (values : List Bytes) :
    (copyOrder values).Pairwise fun p p' => (pathParts p').length ≤ (pathParts p).length ∧ p ≠ p' := by
  unfold copyOrder
  refine List.Pairwise.and ?_ ?_
  · refine (List.pairwise_mergeSort ?_ ?_ values.dedup).imp fun {p p'} hle => ?_
    · intro a b c hab hbc
      rw [decide_eq_true_eq] at hab hbc ⊢
      exact le_trans hab hbc
    · intro a b
      rw [Bool.or_eq_true, decide_eq_true_eq, decide_eq_true_eq]
      exact le_total _ _
    · rw [decide_eq_true_eq] at hle
      have hhead : -((pathParts p).length : Int) ≤ -((pathParts p').length : Int) := by
        by_contra hlt
        exact absurd hle (not_le_of_gt (List.Lex.rel (not_le.mp hlt)))
      omega
  · exact (List.mergeSort_perm values.dedup _).nodup_iff.mpr values.nodup_dedup

/-- Nothing that a path leads through was copied as a link before. -/
theorem noLinks_of_copiedAs {pre : List Bytes} {copy : CopyTree} {p : Bytes}
    (hcopy : ∀ q e, copy q = some e ↔ CopiedAs tree pre q e)
    (hsafe : ∀ p' ∈ pre, isUnsafe p' = false) (hp : isUnsafe p = false)
    (hdeeper : ∀ p' ∈ pre, (pathParts p).length ≤ (pathParts p').length ∧ p' ≠ p) :
    NoLinks copy fun q => q <+: pathParts p := by
  intro q hq
  cases hentry : copy q with
  | none => rfl
  | some e =>
      rcases (hcopy q e).mp hentry with ⟨p', hp', rfl, _⟩ | ⟨rfl, _⟩
      · have hsame := hq.eq_of_length_le (hdeeper p' hp').1
        refine absurd ?_ (hdeeper p' hp').2
        rw [(eq_of_isUnsafe_false (hsafe p' hp')).2.1, (eq_of_isUnsafe_false hp).2.1, hsame]
      · rfl

/-- The loop copies the listed paths, and only them. -/
theorem copyAll_spec (tree : WorkTree) (clock : Nat → Bool) (values : List Bytes)
    (hempty : s.copy = fun _ => none) :
    ((copyOrder values).forM (visit tree clock true)).wp
      (fun _ (t : SnapshotState) => t.outside = s.outside
        ∧ ∀ q e, t.copy q = some e ↔ CopiedAs tree values q e) (fun _ _ => True) s := by
  have hloop : ((copyOrder values).forM (visit tree clock true)).wp
      (fun _ (t : SnapshotState) => (∀ p ∈ copyOrder values, isUnsafe p = false)
        ∧ t.outside = s.outside ∧ ∀ q e, t.copy q = some e ↔ CopiedAs tree (copyOrder values) q e)
      (fun _ _ => True) s := by
    refine Command.wp_forM (I := fun pre (t : SnapshotState) => (∀ p ∈ pre, isUnsafe p = false)
      ∧ t.outside = s.outside ∧ ∀ q e, t.copy q = some e ↔ CopiedAs tree pre q e) ?_
      ⟨fun p hp => absurd hp List.not_mem_nil, rfl, fun q e => ?_⟩
    · intro pre p post hsplit t ht
      refine Command.wp_mono (visits_path tree clock true p t) (fun _ u hu => ?_) fun _ _ h => h
      obtain ⟨hsafe, houtside, hcopy⟩ := ht
      have hordered := pairwise_copyOrder values
      rw [hsplit, List.pairwise_append] at hordered
      have hlinks := noLinks_of_copiedAs hcopy hsafe hu.1.safe
        fun p' hp' => hordered.2.2 p' hp' p List.mem_cons_self
      obtain ⟨houtside', hcopy'⟩ := hu.2.copies rfl hlinks
      refine ⟨fun q hq => ?_, houtside'.trans houtside, fun q e => ?_⟩
      · rcases List.mem_append.mp hq with hpre | hlast
        · exact hsafe q hpre
        · rw [List.mem_singleton.mp hlast]
          exact hu.1.safe
      · rw [hcopy']
        exact copiedAs_withCopied hcopy q e
    · rw [hempty]
      refine iff_of_false (fun h => by cases h) ?_
      rintro (⟨p, hp, _⟩ | ⟨_, p, hp, _⟩)
      · cases hp
      · cases hp
  have hmem : ∀ p, p ∈ copyOrder values ↔ p ∈ values := fun p => @mem_visited true values p
  refine Command.wp_mono hloop (fun _ t ht => ⟨ht.2.1, fun q e => ?_⟩) fun _ _ h => h
  rw [ht.2.2 q e]
  simp only [CopiedAs, hmem]

/-- What a call that returns leaves in an empty directory. -/
theorem returned_copies {secure : Bool} {output : Bytes} {seed id : Text} {budget : Option Int}
    {u : SnapshotState}
    (h : (pathContentIdentity tree clock secure true output seed).exec { remaining := budget }
      = (.ok id, u)) :
    u.outside = false ∧ ∃ values, relativeValues output = .ok values
      ∧ ∀ q e, u.copy q = some e ↔ CopiedAs tree values q e := by
  have hspec := pathContentIdentity_spec tree clock secure true output seed { remaining := budget }
  unfold Command.wp at hspec
  rw [h] at hspec
  obtain ⟨_, t, values, hreturned⟩ := hspec
  have hloop := copyAll_spec (s := t) tree clock values hreturned.copy
  unfold Command.wp at hloop
  have hrun := hreturned.loop
  rw [visited, if_pos rfl] at hrun
  rw [hrun] at hloop
  exact ⟨hloop.1.trans hreturned.outside, values, hreturned.listed, hloop.2⟩

/-- What was read was paid for, out of what there was. -/
theorem returned_spends {secure : Bool} {output : Bytes} {seed id : Text} {budget : Int}
    {copy : CopyTree} {u : SnapshotState} (hbudget : 0 ≤ budget)
    (h : (pathContentIdentity tree clock secure copying output seed).exec
      { remaining := some budget, copy := copy } = (.ok id, u)) :
    ∃ values, relativeValues output = .ok values
      ∧ u.remaining = some (budget - contentTotal tree (visited copying values))
      ∧ 0 ≤ budget - (contentTotal tree (visited copying values) : Int) := by
  obtain ⟨_, values, hvalues, _, hfeeds⟩ := returned_feeds h
  refine ⟨values, hvalues, hfeeds.remaining, ?_⟩
  have hleft := hfeeds.left budget rfl hbudget
  omega

/-! ## The identity -/

/-- The identity says what is there and what is asked, no path out of the worktree is taken,
every byte is paid for, and a copy holds what was observed and nothing else. -/
theorem identity_injective_and_copy_faithful :
    (∀ (tree tree' : WorkTree) (clock clock' : Nat → Bool) (secure secure' : Bool)
      (output output' : Bytes) (seed seed' id : Text) (budget budget' : Option Int)
      (t t' : SnapshotState),
      (pathContentIdentity tree clock secure false output seed).exec { remaining := budget }
        = (.ok id, t) →
      (pathContentIdentity tree' clock' secure' false output' seed').exec { remaining := budget' }
        = (.ok id, t') →
      IsSeed seed → IsSeed seed' → output.length < 256 ^ 7 → output'.length < 256 ^ 7 →
      (Sha256.hexdigest t.hashed = Sha256.hexdigest t'.hashed → t.hashed = t'.hashed) →
      seed = seed' ∧ ∃ values, relativeValues output = .ok values
        ∧ relativeValues output' = .ok values
        ∧ ∀ p ∈ values, observe tree (pathParts p) = observe tree' (pathParts p))
    ∧ (∀ (paths : List Bytes), (∀ p ∈ paths, 0 ∉ p) → (∃ p ∈ paths, ¬ IsNormalPath p) →
      ∀ (tree : WorkTree) (clock : Nat → Bool) (secure copying : Bool) (seed : Text)
        (s : SnapshotState), ∃ e t,
        (pathContentIdentity tree clock secure copying (pathsOutput paths) seed).exec s
          = (.error e, t))
    ∧ (∀ (tree : WorkTree) (clock : Nat → Bool) (secure copying : Bool) (output : Bytes)
      (seed id : Text) (budget : Int) (copy : CopyTree) (t : SnapshotState), 0 ≤ budget →
      (pathContentIdentity tree clock secure copying output seed).exec
        { remaining := some budget, copy := copy } = (.ok id, t) →
      ∃ values, relativeValues output = .ok values
        ∧ t.remaining = some (budget - contentTotal tree (visited copying values))
        ∧ 0 ≤ budget - (contentTotal tree (visited copying values) : Int))
    ∧ (∀ (tree : WorkTree) (clock : Nat → Bool) (secure : Bool) (output : Bytes)
      (seed id : Text) (budget : Option Int) (t : SnapshotState),
      (pathContentIdentity tree clock secure true output seed).exec { remaining := budget }
        = (.ok id, t) →
      t.outside = false ∧ ∃ values, relativeValues output = .ok values
        ∧ ∀ q e, t.copy q = some e ↔ CopiedAs tree values q e) := by
  refine ⟨?_, ?_, ?_, ?_⟩
  · intro tree tree' clock clock' secure secure' output output' seed seed' id budget budget' t t'
      h h' hseed hseed' hshort hshort' hdistinct
    exact identity_inj h h' hseed hseed' hshort hshort' hdistinct
  · intro paths hnul ⟨p, hp, hnormal⟩ tree clock secure copying seed s
    exact rejected_of_not_normal hnul hp hnormal tree clock secure copying seed s
  · intro tree clock secure copying output seed id budget copy t hbudget h
    exact returned_spends hbudget h
  · intro tree clock secure output seed id budget t h
    exact returned_copies h

/-- A worktree with one executable file. -/
def oneFile : WorkTree := fun parts => if parts = [[97]] then .file true [98, 99] else .absent

theorem oneFile_returns (budget : Option Int) (h : budget = some 2 ∨ budget = none) :
    ∃ t, (pathContentIdentity oneFile (fun _ => false) true false [97, 0] []).exec
        { remaining := budget } = (.ok (Sha256.hexdigest t.hashed), t)
      ∧ t.hashed = 68 :: block oneFile [97] := by
  have hobserve : observe oneFile [[97]] = .file true [98, 99] :=
    if_pos (parentsOpen_short oneFile [] (by decide))
  have hblock : block oneFile [97]
      = bigEndian 8 1 ++ [97] ++ encodeEntry (.file true [98, 99]) := by
    rw [← hobserve]
    rfl
  rw [hblock]
  rcases h with rfl | rfl
  · exact ⟨_, rfl, rfl⟩
  · exact ⟨_, rfl, rfl⟩

theorem oneFile_copied : ∃ id t,
    (pathContentIdentity oneFile (fun _ => false) true true [97, 0] []).exec
      { remaining := some 2 } = (.ok id, t) := by
  have horder : copyOrder [[97]] = [[97]] := by simp [copyOrder]
  have hvalues : relativeValues [97, 0] = .ok [[97]] := rfl
  simp only [pathContentIdentity, hvalues, if_true]
  rw [Command.exec_bind, Command.exec_attempt]
  simp only [horder]
  exact ⟨_, _, rfl⟩

theorem identity_of_oneFile :
    (∃ values, relativeValues [97, 0] = .ok values
      ∧ ∀ p ∈ values, observe oneFile (pathParts p) = observe oneFile (pathParts p))
    ∧ (∃ e t, (pathContentIdentity oneFile (fun _ => false) true false (pathsOutput [[46]]) []).exec
        {} = (.error e, t))
    ∧ ∃ id t, (pathContentIdentity oneFile (fun _ => false) true true [97, 0] []).exec
        { remaining := some 2 } = (.ok id, t)
      ∧ (∃ values, relativeValues [97, 0] = .ok values
        ∧ t.remaining = some (2 - (contentTotal oneFile (visited true values) : Int))
        ∧ 0 ≤ 2 - (contentTotal oneFile (visited true values) : Int))
      ∧ t.outside = false ∧ ∃ values, relativeValues [97, 0] = .ok values
        ∧ ∀ q e, t.copy q = some e ↔ CopiedAs oneFile values q e := by
  obtain ⟨hidentity, hrejected, hspent, hcopied⟩ := identity_injective_and_copy_faithful
  obtain ⟨t, hrun, hbytes⟩ := oneFile_returns (some 2) (Or.inl rfl)
  obtain ⟨t', hrun', hbytes'⟩ := oneFile_returns none (Or.inr rfl)
  obtain ⟨id, u, hcopy⟩ := oneFile_copied
  refine ⟨?_, ?_, id, u, hcopy, ?_, ?_⟩
  · rw [hbytes] at hrun
    rw [hbytes'] at hrun'
    obtain ⟨_, values, hvalues, _, hsame⟩ := hidentity _ _ _ _ _ _ _ _ _ _ _ _ _ t t' hrun hrun'
      (Or.inl rfl) (Or.inl rfl) (by decide) (by decide) fun _ => hbytes.trans hbytes'.symm
    exact ⟨values, hvalues, hsame⟩
  · refine hrejected [[46]] (by decide) ⟨[46], List.mem_cons_self, ?_⟩ _ _ _ _ _ _
    rw [← isUnsafe_eq_false_iff]
    decide
  · exact hspent _ _ _ _ _ _ _ 2 _ u (by decide) hcopy
  · exact hcopied _ _ _ _ _ _ _ u hcopy

end Hephaestus.Automation.Snapshot
