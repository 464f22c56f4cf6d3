import Hephaestus.Lib.Text

/-!
# POSIX paths

`PurePosixPath` and `os.path.normpath`, as far as text decides them. A path is a
root, which is no slash, one or two, and the parts between the slashes; empty
parts and dots are dropped when it is read. What is written of a path is read as
the same path.
-/

namespace Hephaestus.Lib

/-- A part as a path keeps it. -/
def IsPathPart (part : Text) : Prop := part ≠ [] ∧ part ≠ ['.'] ∧ '/' ∉ part

instance : DecidablePred IsPathPart := fun _ => inferInstanceAs (Decidable (_ ∧ _ ∧ _))

/-- `PurePosixPath`. -/
structure PosixPath where
  slashes : Fin 3
  parts : List Text
  valid : ∀ part ∈ parts, IsPathPart part
  deriving DecidableEq

namespace PosixPath

/-- The slashes of the root: three or more count as one. -/
def leadingSlashes : Text → Fin 3
  | '/' :: '/' :: '/' :: _ => 1
  | '/' :: '/' :: _ => 2
  | '/' :: _ => 1
  | _ => 0

/-- The parts of a text. -/
def partsOf (t : Text) : List Text :=
  (t.splitOn '/').filter fun part => part ≠ [] ∧ part ≠ ['.']

theorem not_mem_of_mem_splitOn {α : Type} [BEq α] [LawfulBEq α] {x : α} {t part : List α}
    (h : part ∈ t.splitOn x) : x ∉ part := by
  induction t generalizing part with
  | nil =>
      rw [List.splitOn_nil, List.mem_singleton] at h
      rw [h]
      exact List.not_mem_nil
  | cons c t ih =>
      rw [List.splitOn_cons_eq_if_modifyHead] at h
      split at h
      · rcases List.mem_cons.mp h with rfl | hrest
        · exact List.not_mem_nil
        · exact ih hrest
      · next hc =>
          have hslash : x ≠ c := fun heq => hc (by rw [heq]; exact beq_self_eq_true c)
          cases hsplit : t.splitOn x with
          | nil => exact absurd hsplit (List.splitOn_ne_nil _ _)
          | cons first others =>
              rw [hsplit] at h
              rcases List.mem_cons.mp h with rfl | hrest
              · refine List.not_mem_cons_of_ne_of_not_mem hslash (ih ?_)
                rw [hsplit]
                exact List.mem_cons_self
              · refine ih ?_
                rw [hsplit]
                exact List.mem_cons_of_mem _ hrest

/-- `Path(t)`. -/
def parse (t : Text) : PosixPath where
  slashes := leadingSlashes t
  parts := partsOf t
  valid := by
    intro part hpart
    obtain ⟨hmem, hkeep⟩ := List.mem_filter.mp hpart
    rw [decide_eq_true_eq] at hkeep
    exact ⟨hkeep.1, hkeep.2, not_mem_of_mem_splitOn hmem⟩

/-- `str(path)`. -/
def toText (p : PosixPath) : Text :=
  if p.slashes = 0 ∧ p.parts = [] then ['.']
  else List.replicate p.slashes '/' ++ ['/'].intercalate p.parts

/-- `path.is_absolute()`. -/
def isAbsolute (p : PosixPath) : Bool := p.slashes ≠ 0

/-- `p in q.parents`. -/
def isParentOf (p q : PosixPath) : Bool :=
  p.slashes = q.slashes && p.parts.isPrefixOf q.parts && p.parts.length < q.parts.length

/-- The loop of `os.path.normpath`, with the components in reverse. -/
def normalize (rooted : Bool) : List Text → List Text → List Text
  | kept, [] => kept.reverse
  | kept, part :: rest =>
      if part = [] ∨ part = ['.'] then normalize rooted kept rest
      else if part ≠ "..".toList ∨ (!rooted ∧ kept = []) ∨ kept.head? = some "..".toList then
        normalize rooted (part :: kept) rest
      else normalize rooted kept.tail rest

/-- `os.path.normpath(t)`. -/
def normpath (t : Text) : Text :=
  let slashes := leadingSlashes t
  let path := List.replicate slashes '/' ++
    ['/'].intercalate (normalize (slashes ≠ 0) [] (t.splitOn '/'))
  if path = [] then ['.'] else path

/-! ## What is written is read -/

theorem leadingSlashes_append {t : Text} (n : Fin 3) (h : t.head? ≠ some '/') :
    leadingSlashes (List.replicate n '/' ++ t) = n := by
  cases t with
  | nil =>
      revert n
      decide
  | cons c t =>
      have hc : c ≠ '/' := fun heq => h (congrArg some heq)
      match n with
      | 0 => simp [leadingSlashes, hc]
      | 1 => simp [leadingSlashes, hc]
      | 2 => simp [leadingSlashes, hc, List.replicate]

theorem partsOf_slashes (n : Nat) (t : Text) :
    partsOf (List.replicate n '/' ++ t) = partsOf t := by
  induction n with
  | zero => rfl
  | succ n ih =>
      have hslash : ∀ u : Text, partsOf ('/' :: u) = partsOf u := by
        intro u
        rw [partsOf, List.splitOn_cons_eq_if_modifyHead, if_pos (beq_self_eq_true '/')]
        rfl
      rw [List.replicate_succ, List.cons_append, hslash, ih]

theorem partsOf_intercalate {parts : List Text} (h : ∀ part ∈ parts, IsPathPart part) :
    partsOf (['/'].intercalate parts) = parts := by
  cases parts with
  | nil => rfl
  | cons part rest =>
      rw [partsOf, List.splitOn_intercalate '/' (fun l hl => (h l hl).2.2) (List.cons_ne_nil _ _),
        List.filter_eq_self]
      intro l hl
      exact decide_eq_true ⟨(h l hl).1, (h l hl).2.1⟩

theorem head?_intercalate {parts : List Text} (h : ∀ part ∈ parts, IsPathPart part) :
    (['/'].intercalate parts).head? ≠ some '/' := by
  cases parts with
  | nil => nofun
  | cons part rest =>
      obtain ⟨hne, _, hslash⟩ := h part List.mem_cons_self
      cases part with
      | nil => exact absurd rfl hne
      | cons c part =>
          have hc : c ≠ '/' := fun heq => hslash (heq ▸ List.mem_cons_self)
          cases rest with
          | nil => simpa using hc
          | cons next rest => simpa [List.intercalate_cons_cons] using hc

/-- What is written of a path is read as the path. -/
theorem parse_toText (p : PosixPath) : parse p.toText = p := by
  obtain ⟨slashes, parts, valid⟩ := p
  by_cases hempty : slashes = 0 ∧ parts = []
  · obtain ⟨rfl, rfl⟩ := hempty
    rfl
  · have htext : toText ⟨slashes, parts, valid⟩ =
        List.replicate slashes '/' ++ ['/'].intercalate parts := if_neg hempty
    have hslashes := leadingSlashes_append slashes (head?_intercalate valid)
    have hparts : partsOf (List.replicate slashes '/' ++ ['/'].intercalate parts) = parts := by
      rw [partsOf_slashes, partsOf_intercalate valid]
    simp only [parse, htext, hslashes, hparts]

example : (parse "//a/./b//c/".toList).toText = "//a/b/c".toList := by decide

example : normpath "/a/./b/../c//".toList = "/a/c".toList := by decide

end PosixPath

end Hephaestus.Lib
