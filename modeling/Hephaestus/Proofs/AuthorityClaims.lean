import Hephaestus.Automation.ReviewFindings

/-!
# Claims of authority

What a match of `_RESERVED_AUTHORITY_CLAIM_RE` looks like, as far as the texts it
is deleted from need to know: it starts with two letters of a short list, takes
five characters one can see, and either reaches the end of its line or has no
ampersand in it.
-/

namespace Hephaestus.Automation

open Hephaestus.Lib

theorem isSpace_of_sameLetter {c d : Char} (hc : Text.isSpace c.toLower = false)
    (h : Regex.sameLetter c d = true) : Text.isSpace d = false := by
  by_contra hd
  rw [Bool.not_eq_false] at hd
  simp only [Regex.sameLetter, Bool.or_eq_true, Bool.and_eq_true, beq_iff_eq] at h
  rcases h with ((h | ⟨-, h⟩) | ⟨-, h⟩) | ⟨-, h⟩
  · rw [Text.toLower_of_isSpace hd] at h
    rw [h, hc] at hd
    cases hd
  · simp only [Text.isSpace, Bool.or_eq_true, Bool.and_eq_true, decide_eq_true_eq,
      beq_iff_eq] at hd
    omega
  · simp only [Text.isSpace, Bool.or_eq_true, Bool.and_eq_true, decide_eq_true_eq,
      beq_iff_eq] at hd
    omega
  · simp only [Text.isSpace, Bool.or_eq_true, Bool.and_eq_true, decide_eq_true_eq,
      beq_iff_eq] at hd
    omega

/-- A word of letters takes its letters. -/
theorem takesVisible_letters (u : Text.Unicode) {w : Text} {n : Nat}
    (hw : (w.all fun c => decide (Text.isSpace c.toLower = false)) = true) (hn : n ≤ w.length) :
    Regex.TakesVisible u n (.word w) :=
  (Regex.takesVisible_word u fun _ hc _ hd =>
    isSpace_of_sameLetter (Text.forall_mem_of_all hw _ hc) hd).mono hn

theorem takesVisible_later {u : Text.Unicode} {n : Nat} {a b : Regex}
    (h : Regex.TakesVisible u n b) : Regex.TakesVisible u n (.seq a b) :=
  ((Regex.takesVisible_zero u a).seq h).mono (by omega)

theorem takesVisible_first {u : Text.Unicode} {n : Nat} {a b : Regex}
    (h : Regex.TakesVisible u n a) : Regex.TakesVisible u n (.seq a b) :=
  h.seq (Regex.takesVisible_zero u b)

theorem takesVisible_claim (u : Text.Unicode) :
    Regex.TakesVisible u 5 reservedAuthorityClaim := by
  refine .alt ?_ (.alt ?_ (.alt ?_ ?_))
  · refine takesVisible_later (takesVisible_first (.alt ?_ (.alt ?_ (.alt ?_ ?_))))
    all_goals exact takesVisible_letters u (by decide) (by decide)
  · exact takesVisible_later (takesVisible_first (takesVisible_letters u (by decide) (by decide)))
  · exact takesVisible_later (takesVisible_first (takesVisible_letters u (by decide) (by decide)))
  · exact takesVisible_later (takesVisible_first (takesVisible_letters u (by decide) (by decide)))

/-- The class of `[^\r\n]`. -/
def inLine (c : Char) : Bool := !(c == '\r' || c == '\n')

theorem avoids_stateClaim : Regex.Avoids '&' stateClaim := by
  have hword : ∀ w : Text, (w.all fun c => decide (Regex.sameLetter c '&' = false)) = true →
      Regex.Avoids '&' (.word w) :=
    fun w hw => Regex.avoids_word (Text.forall_mem_of_all hw)
  have hspaces : Text.isSpace '&' = false := by decide
  have hcolon : ('&' == ':') = false := by decide
  exact ⟨trivial, hword _ (by decide), hspaces, hcolon, hspaces, hword _ (by decide),
    ⟨hword _ (by decide), trivial⟩, hword _ (by decide),
    ⟨⟨⟨hspaces, hspaces⟩, hword _ (by decide)⟩, trivial⟩, trivial⟩

/-- A claim with an ampersand goes on to the end of the line. -/
theorem claim_reachesEnd (u : Text.Unicode) (before : Option Char) (t : Text)
    (ht : ∀ c ∈ t, inLine c = true) (e : Option Char × Text)
    (he : (Regex.ends u reservedAuthorityClaim before t).head? = some e) :
    e.2 = [] ∨ ∃ m, t = m ++ e.2 ∧ '&' ∉ m := by
  have hline : ∀ r, r = colonClaim ∨ r = approvalClaim ∨ r = outcomeClaim →
      Regex.ReachesEnd u inLine r := by
    have hrest : Regex.ReachesEnd u inLine restOfLine := Regex.reachesEnd_star u inLine
    rintro r (rfl | rfl | rfl)
    · exact .seq (.seq (.seq (.seq (.seq hrest))))
    · exact .seq (.seq (.seq (.seq (.seq hrest))))
    · exact .seq (.seq (.seq (.seq (.seq (.seq hrest)))))
  have halt : ∀ a b : Regex, (Regex.ends u (.alt a b) before t).head? = some e →
      (Regex.ends u a before t).head? = some e ∨ (Regex.ends u b before t).head? = some e := by
    intro a b h
    simp only [Regex.ends] at h
    cases hends : Regex.ends u a before t with
    | nil =>
        rw [hends, List.nil_append] at h
        exact Or.inr h
    | cons first rest =>
        rw [hends] at h
        exact Or.inl h
  rcases halt _ _ he with he | he
  · exact Or.inl (hline _ (Or.inl rfl) before t ht e he)
  rcases halt _ _ he with he | he
  · exact Or.inl (hline _ (Or.inr (Or.inl rfl)) before t ht e he)
  rcases halt _ _ he with he | he
  · exact Or.inl (hline _ (Or.inr (Or.inr rfl)) before t ht e he)
  · exact Or.inr (avoids_stateClaim.notMem (List.mem_of_mem_head? he))

/-- The first two letters of a claim. -/
def startsClaim (x y : Char) : Bool :=
  (Regex.sameLetter 'v' x && Regex.sameLetter 'e' y)
    || (Regex.sameLetter 'd' x && Regex.sameLetter 'e' y)
    || (Regex.sameLetter 'a' x && Regex.sameLetter 'p' y)
    || (Regex.sameLetter 'r' x && Regex.sameLetter 'e' y)
    || (Regex.sameLetter 'i' x && Regex.sameLetter 'm' y)
    || (Regex.sameLetter 's' x && Regex.sameLetter 't' y)

theorem claim_starts {u : Text.Unicode} {before : Option Char} {t : Text}
    {e : Option Char × Text} (he : e ∈ Regex.ends u reservedAuthorityClaim before t) :
    ∃ x y rest, t = x :: y :: rest ∧ startsClaim x y = true := by
  have hboundary : ∀ {r : Regex}, e ∈ Regex.ends u (.seq .boundary r) before t →
      e ∈ Regex.ends u r before t := by
    intro r h
    obtain ⟨mid, hmid, h⟩ := Regex.mem_ends_seq.mp h
    simp only [Regex.ends] at hmid
    split at hmid
    · rw [List.mem_singleton.mp hmid] at h
      exact h
    · cases hmid
  have hword : ∀ {c d : Char} {w : Text} {mid : Option Char × Text},
      mid ∈ Regex.ends u (.word (c :: d :: w)) before t →
      ∃ x y rest, t = x :: y :: rest ∧ Regex.sameLetter c x = true
        ∧ Regex.sameLetter d y = true := by
    intro c d w mid h
    obtain ⟨x, rest, rfl, hx, h⟩ := Regex.mem_ends_word_cons h
    obtain ⟨y, rest, rfl, hy, -⟩ := Regex.mem_ends_word_cons h
    exact ⟨x, y, rest, rfl, hx, hy⟩
  have hclose : ∀ c d, (∀ x y, Regex.sameLetter c x = true → Regex.sameLetter d y = true →
        startsClaim x y = true) →
      (∃ x y rest, t = x :: y :: rest ∧ Regex.sameLetter c x = true
        ∧ Regex.sameLetter d y = true) →
      ∃ x y rest, t = x :: y :: rest ∧ startsClaim x y = true := by
    rintro c d hstarts ⟨x, y, rest, ht, hx, hy⟩
    exact ⟨x, y, rest, ht, hstarts x y hx hy⟩
  rcases Regex.mem_ends_alt.mp he with he | he
  · obtain ⟨mid, hmid, -⟩ := Regex.mem_ends_seq.mp (hboundary he)
    rcases Regex.mem_ends_alt.mp hmid with hmid | hmid
    · exact hclose 'v' 'e' (fun x y hx hy => by simp [startsClaim, hx, hy]) (hword hmid)
    rcases Regex.mem_ends_alt.mp hmid with hmid | hmid
    · exact hclose 'd' 'e' (fun x y hx hy => by simp [startsClaim, hx, hy]) (hword hmid)
    rcases Regex.mem_ends_alt.mp hmid with hmid | hmid
    · exact hclose 'a' 'p' (fun x y hx hy => by simp [startsClaim, hx, hy]) (hword hmid)
    · exact hclose 'r' 'e' (fun x y hx hy => by simp [startsClaim, hx, hy]) (hword hmid)
  rcases Regex.mem_ends_alt.mp he with he | he
  · obtain ⟨mid, hmid, -⟩ := Regex.mem_ends_seq.mp (hboundary he)
    exact hclose 'i' 'm' (fun x y hx hy => by simp [startsClaim, hx, hy]) (hword hmid)
  rcases Regex.mem_ends_alt.mp he with he | he
  · obtain ⟨mid, hmid, -⟩ := Regex.mem_ends_seq.mp (hboundary he)
    exact hclose 'i' 'm' (fun x y hx hy => by simp [startsClaim, hx, hy]) (hword hmid)
  · obtain ⟨mid, hmid, -⟩ := Regex.mem_ends_seq.mp (hboundary he)
    exact hclose 's' 't' (fun x y hx hy => by simp [startsClaim, hx, hy]) (hword hmid)

end Hephaestus.Automation
