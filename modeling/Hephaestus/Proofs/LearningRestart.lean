import Hephaestus.Lib.Sha256
import Hephaestus.Pipeline.LearningRestart

/-!
# Learning intents survive a restart

The key depends on the repository by one name only, so the round trips come down to
that name: the payload carries it as `identity_repo` once the owner is put in front
of the repository, and the journal carries it as the repository. What is lost on the
way to JSON and back is the order of the fields of a dictionary, and every value that
is no JSON value.
-/

namespace Hephaestus.Pipeline

open Hephaestus.Lib Hephaestus.Automation

/-- An intent from one of the two constructors. -/
inductive LearningIntent.Built : LearningIntent → Prop
  | approvedPlan (repo : String) (issue planRevision : Int) (planFingerprint : String) :
      Built (.approvedPlan repo issue planRevision planFingerprint)
  | postMerge (repo : String) (issue pr : Int) : Built (.postMerge repo issue pr)

/-- The numbers and the fingerprint are filled in. -/
structure LearningIntent.Filled (intent : LearningIntent) : Prop where
  issue : 0 < intent.issue
  planRevision : ∀ n ∈ intent.planRevision, 0 < n
  pr : ∀ n ∈ intent.pr, 0 < n
  fingerprint : intent.kind = .approvedPlan → intent.planFingerprint ≠ ""

/-- The repository is a name, or a name under the owner, and fits with the owner in
front of it; without an owner it has one already. -/
def LearningIntent.Qualifies (intent : LearningIntent) : Option String → Prop
  | none => isQualified intent.repo = true ∧ intent.repo.length ≤ 200
  | some owner =>
      isComponent owner = true ∧
        ((isComponent intent.repo = true ∧ (owner ++ "/" ++ intent.repo).length ≤ 200) ∨
          (∃ name, isComponent name = true ∧ intent.repo = owner ++ "/" ++ name ∧
            intent.repo.length ≤ 200))

variable {sha256 : String → String} {intent : LearningIntent} {owner a b t : String}

/-! ## Names -/

theorem slash_notMem (h : isComponent t = true) : '/' ∉ t.toList := by
  unfold isComponent at h
  rw [Bool.and_eq_true, List.all_eq_true] at h
  intro hmem
  have := h.2 _ hmem
  revert this
  decide

theorem slashParts_component (h : isComponent t = true) : slashParts t = [t] := by
  unfold slashParts
  rw [List.splitOn_eq_singleton (slash_notMem h), List.map_singleton, String.ofList_toList]

theorem slashParts_append (ha : isComponent a = true) (hb : isComponent b = true) :
    slashParts (a ++ "/" ++ b) = [a, b] := by
  have htext : (a ++ "/" ++ b).toList = a.toList ++ '/' :: b.toList := by
    rw [String.toList_append, String.toList_append]
    simp
  unfold slashParts
  rw [htext, List.splitOn_append_cons_self_of_not_mem (slash_notMem ha),
    List.splitOn_eq_singleton (slash_notMem hb), List.map_cons, List.map_singleton,
    String.ofList_toList, String.ofList_toList]

theorem eq_of_slashParts (h : slashParts t = [a, b]) : t = a ++ "/" ++ b := by
  unfold slashParts at h
  obtain ⟨x, rest, hsplit, rfl, hrest⟩ := List.map_eq_cons_iff.mp h
  obtain ⟨y, rest, rfl, rfl, hnil⟩ := List.map_eq_cons_iff.mp hrest
  rw [List.map_eq_nil_iff] at hnil
  have hjoin : ['/'].intercalate (t.toList.splitOn '/') = t.toList := List.intercalate_splitOn '/'
  rw [hsplit, hnil] at hjoin
  rw [← String.ofList_toList (s := t), ← hjoin]
  apply String.toList_injective
  simp [List.intercalate]

theorem isQualified_iff :
    isQualified t = true ↔
      ∃ a b, t = a ++ "/" ++ b ∧ isComponent a = true ∧ isComponent b = true := by
  unfold isQualified
  constructor
  · intro h
    split at h
    · next a b hparts =>
      rw [Bool.and_eq_true] at h
      exact ⟨a, b, eq_of_slashParts hparts, h.1, h.2⟩
    · cases h
  · rintro ⟨a, b, rfl, ha, hb⟩
    rw [slashParts_append ha hb]
    simp [ha, hb]

theorem key_ne_empty : intent.key sha256 ≠ "" := by
  unfold LearningIntent.key
  cases intent.kind <;> simp [LearningIntentKind.value]

/-! ## The payload for the learning host -/

/-- The payload with a repository and an identity. -/
def payloadOf (sha256 : String → String) (intent : LearningIntent)
    (repository identityRepo : String) : Dict String Json :=
  [("kind", .str intent.kind.value), ("repo", .str repository), ("issue", .int intent.issue),
    ("intent_key", .str (intent.key sha256))]
    ++ (if identityRepo ≠ "" then [("identity_repo", Json.str identityRepo)] else [])
    ++ match intent.kind with
      | .approvedPlan => [("plan_revision", jsonOptionalInt intent.planRevision),
          ("plan_fingerprint", .str intent.planFingerprint)]
      | .postMerge => [("pr", jsonOptionalInt intent.pr)]

/-- What the reader asks of the repository and the identity. -/
def Accepts (repository identityRepo : String) : Prop :=
  repository.length ≤ 200 ∧ isQualified repository = true ∧
    (identityRepo ≠ "" → isComponent identityRepo = true ∧
      (slashParts repository).getLast? = some identityRepo)

theorem get?_payloadOf (repository identityRepo : String) :
    (payloadOf sha256 intent repository identityRepo).get? "kind" =
        some (.str intent.kind.value) ∧
      (payloadOf sha256 intent repository identityRepo).get? "repo" = some (.str repository) ∧
      (payloadOf sha256 intent repository identityRepo).get? "issue" =
        some (.int intent.issue) ∧
      (payloadOf sha256 intent repository identityRepo).get? "intent_key" =
        some (.str (intent.key sha256)) ∧
      ((payloadOf sha256 intent repository identityRepo).get? "identity_repo").getD (.str "") =
        .str identityRepo := by
  refine ⟨rfl, rfl, rfl, rfl, ?_⟩
  unfold payloadOf
  by_cases hnone : identityRepo = ""
  · cases hkind : intent.kind <;> simp [Dict.get?, hnone]
  · cases hkind : intent.kind <;> simp [Dict.get?_cons, hnone]

theorem payloadKind_payloadOf (repository identityRepo : String) :
    payloadKind (payloadOf sha256 intent repository identityRepo) = .ok intent.kind := by
  unfold payloadKind
  rw [(get?_payloadOf repository identityRepo).1]
  cases intent.kind with
  | approvedPlan => rfl
  | postMerge => rfl

theorem hasFields_payloadOf (repository identityRepo : String) :
    (!hasFields (payloadOf sha256 intent repository identityRepo) (payloadFields intent.kind)
      && !hasFields (payloadOf sha256 intent repository identityRepo)
        (payloadFields intent.kind ++ ["identity_repo"])) = false := by
  unfold payloadOf
  by_cases hnone : identityRepo = ""
  · cases hkind : intent.kind <;>
      simp [hasFields, payloadFields, Dict.contains, Dict.get?, hnone]
  · cases hkind : intent.kind <;>
      simp [hasFields, payloadFields, Dict.contains, Dict.get?, hnone]

theorem payloadIdentity_payloadOf (repository identityRepo : String) :
    payloadIdentity (payloadOf sha256 intent repository identityRepo) =
      if 0 < intent.issue ∧ repository.length ≤ 200 ∧ isQualified repository = true ∧
        (identityRepo ≠ "" → isComponent identityRepo = true ∧
          (slashParts repository).getLast? = some identityRepo) then
        .ok (repository, identityRepo, intent.issue, intent.key sha256)
      else .error ⟨.valueError, "learning intent payload has invalid identity fields"⟩ := by
  obtain ⟨_, hrepo, hissue, hkey, hidentity⟩ :=
    get?_payloadOf repository identityRepo
  unfold payloadIdentity
  rw [hrepo, hissue, hkey, hidentity]
  by_cases hpos : 0 < intent.issue
  · simp only [positiveInt?, hpos, if_true, true_and, key_ne_empty, or_false]
    by_cases haccepts : repository.length ≤ 200 ∧ isQualified repository = true ∧
        (identityRepo ≠ "" → isComponent identityRepo = true ∧
          (slashParts repository).getLast? = some identityRepo)
    · rw [if_pos haccepts, if_neg (by grind)]
    · rw [if_neg haccepts, if_pos (by grind)]
  · simp [positiveInt?, hpos]

theorem get?_payloadOf_planRevision (hkind : intent.kind = .approvedPlan)
    (repository identityRepo : String) :
    (payloadOf sha256 intent repository identityRepo).get? "plan_revision" =
      some (jsonOptionalInt intent.planRevision) := by
  unfold payloadOf
  by_cases hnone : identityRepo = "" <;> simp [hkind, Dict.get?, hnone]

theorem get?_payloadOf_planFingerprint (hkind : intent.kind = .approvedPlan)
    (repository identityRepo : String) :
    (payloadOf sha256 intent repository identityRepo).get? "plan_fingerprint" =
      some (.str intent.planFingerprint) := by
  unfold payloadOf
  by_cases hnone : identityRepo = "" <;> simp [hkind, Dict.get?, hnone]

theorem get?_payloadOf_pr (hkind : intent.kind = .postMerge)
    (repository identityRepo : String) :
    (payloadOf sha256 intent repository identityRepo).get? "pr" =
      some (jsonOptionalInt intent.pr) := by
  unfold payloadOf
  by_cases hnone : identityRepo = "" <;> simp [hkind, Dict.get?, hnone]

theorem filled_approvedPlan {repo planFingerprint : String} {issue planRevision : Int} :
    (LearningIntent.approvedPlan repo issue planRevision planFingerprint).Filled ↔
      0 < issue ∧ 0 < planRevision ∧ planFingerprint ≠ "" := by
  constructor
  · intro h
    exact ⟨h.issue, h.planRevision _ rfl, h.fingerprint rfl⟩
  · rintro ⟨hissue, hrevision, hfingerprint⟩
    refine ⟨hissue, fun n hn => ?_, fun n hn => (by cases hn), fun _ => hfingerprint⟩
    obtain rfl := Option.some.inj hn
    exact hrevision

theorem filled_postMerge {repo : String} {issue pr : Int} :
    (LearningIntent.postMerge repo issue pr).Filled ↔ 0 < issue ∧ 0 < pr := by
  constructor
  · intro h
    exact ⟨h.issue, h.pr _ rfl⟩
  · rintro ⟨hissue, hpr⟩
    refine ⟨hissue, fun n hn => (by cases hn), fun n hn => ?_, fun h => (by cases h)⟩
    obtain rfl := Option.some.inj hn
    exact hpr

/-- The key is made of the kind, the numbers, the fingerprint and one name. -/
theorem key_congr {other : LearningIntent} (hkind : other.kind = intent.kind)
    (hissue : other.issue = intent.issue) (hpr : other.pr = intent.pr)
    (hrevision : other.planRevision = intent.planRevision)
    (hfingerprint : other.planFingerprint = intent.planFingerprint)
    (hrepo : other.keyRepo = intent.keyRepo) : other.key sha256 = intent.key sha256 := by
  unfold LearningIntent.keyRepo at hrepo
  unfold LearningIntent.key LearningIntent.identityJson
  simp only [hkind, hissue, hpr, hrevision, hfingerprint, hrepo]

/-- The reader takes the payload of an intent whose repository and identity come down
to the name of the intent, just where they and the numbers are in order. -/
theorem fromPayload_payloadOf (hbuilt : intent.Built) {repository identityRepo : String}
    (hrepo : (if identityRepo ≠ "" then identityRepo else repository) = intent.keyRepo) :
    (∃ read, LearningIntent.fromPayload sha256 (payloadOf sha256 intent repository identityRepo) =
        .ok read ∧ read.key sha256 = intent.key sha256) ↔
      Accepts repository identityRepo ∧ intent.Filled := by
  unfold LearningIntent.fromPayload
  rw [payloadKind_payloadOf]
  simp only [bind, Except.bind]
  rw [hasFields_payloadOf, payloadIdentity_payloadOf]
  by_cases hidentity : 0 < intent.issue ∧ repository.length ≤ 200 ∧ isQualified repository = true ∧
      (identityRepo ≠ "" → isComponent identityRepo = true ∧
        (slashParts repository).getLast? = some identityRepo)
  · rw [if_pos hidentity]
    obtain ⟨hissue, haccepts⟩ := hidentity
    have haccepts : Accepts repository identityRepo := haccepts
    cases hbuilt with
    | approvedPlan repo issue revision fingerprint =>
        have hkind : (LearningIntent.approvedPlan repo issue revision fingerprint).kind =
            .approvedPlan := rfl
        have hrevision := @get?_payloadOf_planRevision sha256 _ hkind repository identityRepo
        have hfingerprint := @get?_payloadOf_planFingerprint sha256 _ hkind repository identityRepo
        have hkey : ({ kind := .approvedPlan, repo := repository, issue := issue
                       planRevision := some revision, planFingerprint := fingerprint
                       identityRepo := identityRepo } : LearningIntent).key sha256 =
              (LearningIntent.approvedPlan repo issue revision fingerprint).key sha256 :=
          key_congr rfl rfl rfl rfl rfl hrepo
        rw [filled_approvedPlan]
        simp only [LearningIntent.approvedPlan] at hrevision hfingerprint hkey hissue ⊢
        simp only [payloadIntent, hrevision, hfingerprint, jsonOptionalInt, positiveInt?, raiseIf,
          Bool.false_eq_true, if_false]
        by_cases hpos : 0 < revision
        · by_cases hempty : fingerprint = ""
          · simp [hpos, hempty]
          · simp [hpos, hempty, hkey, hissue, haccepts, pure, Except.pure]
        · simp [hpos]
    | postMerge repo issue pr =>
        have hkind : (LearningIntent.postMerge repo issue pr).kind = .postMerge := rfl
        have hpr := @get?_payloadOf_pr sha256 _ hkind repository identityRepo
        have hkey : ({ kind := .postMerge, repo := repository, issue := issue
                       pr := some pr, identityRepo := identityRepo } : LearningIntent).key sha256 =
              (LearningIntent.postMerge repo issue pr).key sha256 :=
          key_congr rfl rfl rfl rfl rfl hrepo
        rw [filled_postMerge]
        simp only [LearningIntent.postMerge] at hpr hkey hissue ⊢
        simp only [payloadIntent, hpr, jsonOptionalInt, positiveInt?, raiseIf, Bool.false_eq_true, if_false]
        by_cases hpos : 0 < pr
        · simp [hpos, hkey, hissue, haccepts, pure, Except.pure]
        · simp [hpos]
  · rw [if_neg hidentity]
    refine iff_of_false ?_ fun h => hidentity ⟨h.2.issue, h.1⟩
    rintro ⟨read, hread, _⟩
    cases hread

/-- Without an owner the payload has the repository as it is. -/
theorem toPayload_none (hbuilt : intent.Built) :
    intent.toPayload sha256 none = .ok (payloadOf sha256 intent intent.repo "") := by
  cases hbuilt with
  | approvedPlan repo issue revision fingerprint => rfl
  | postMerge repo issue pr => rfl

theorem toPayload_some (owner : String) :
    intent.toPayload sha256 (some owner) =
      (intent.qualify owner).map fun named => payloadOf sha256 intent named.1 named.2 := by
  unfold LearningIntent.toPayload
  cases hqualify : intent.qualify owner with
  | error e => simp [hqualify, Except.map, bind, Except.bind]
  | ok named =>
      cases hkind : intent.kind <;>
        simp [hqualify, hkind, Except.map, bind, Except.bind, pure, Except.pure, payloadOf]

theorem built_identityRepo (hbuilt : intent.Built) : intent.identityRepo = "" := by
  cases hbuilt with
  | approvedPlan repo issue revision fingerprint => rfl
  | postMerge repo issue pr => rfl

theorem component_ne_empty (h : isComponent t = true) : t ≠ "" := by
  rintro rfl
  exact absurd h (by decide)

/-- A name goes under the owner. -/
theorem qualify_component (hbuilt : intent.Built) (howner : isComponent owner = true)
    (hrepo : isComponent intent.repo = true) :
    intent.qualify owner =
      if (owner ++ "/" ++ intent.repo).length ≤ 200 then
        .ok (owner ++ "/" ++ intent.repo, intent.repo)
      else .error identityInvalid := by
  have hparts := slashParts_append howner hrepo
  unfold LearningIntent.qualify
  simp only [built_identityRepo hbuilt, howner, hrepo, slashParts_component hrepo]
  generalize owner ++ "/" ++ intent.repo = repository at hparts
  by_cases hlength : repository.length ≤ 200
  · simp [raiseIf, bind, Except.bind, pure, Except.pure, hparts, hrepo, hlength,
      Nat.not_lt.mpr hlength]
  · simp [raiseIf, bind, Except.bind, hparts, hrepo, hlength, Nat.lt_of_not_le hlength]

/-- A name under the owner stays. -/
theorem qualify_qualified (hbuilt : intent.Built) (howner : isComponent owner = true)
    (ha : isComponent a = true) (hrepo : intent.repo = owner ++ "/" ++ a) :
    intent.qualify owner =
      if intent.repo.length ≤ 200 then .ok (intent.repo, "") else .error identityInvalid := by
  have hparts := slashParts_append howner ha
  rw [← hrepo] at hparts
  unfold LearningIntent.qualify
  simp only [built_identityRepo hbuilt, howner, hparts]
  by_cases hlength : intent.repo.length ≤ 200
  · simp [raiseIf, bind, Except.bind, pure, Except.pure, howner, ha, hlength,
      Nat.not_lt.mpr hlength]
  · simp [raiseIf, bind, Except.bind, howner, ha, hlength, Nat.lt_of_not_le hlength]

theorem qualify_owner (howner : ¬isComponent owner = true) :
    intent.qualify owner = .error identityInvalid := by
  unfold LearningIntent.qualify
  simp [raiseIf, bind, Except.bind, howner]

/-- Neither a name nor a name under this owner. -/
theorem qualify_foreign (howner : isComponent owner = true)
    (hrepo : ¬isComponent intent.repo = true)
    (hforeign : ¬∃ name, isComponent name = true ∧ intent.repo = owner ++ "/" ++ name) :
    intent.qualify owner = .error identityForeign := by
  have hbad : (slashParts intent.repo).length ≠ 2 ∨
      (slashParts intent.repo).head? ≠ some owner ∨
      (!(slashParts intent.repo).all isComponent) = true := by
    by_contra hgood
    push Not at hgood
    obtain ⟨hlength, hhead, hall⟩ := hgood
    obtain ⟨x, y, hparts⟩ := List.length_eq_two.mp hlength
    rw [hparts] at hhead hall
    obtain rfl := Option.some.inj hhead
    refine hforeign ⟨y, ?_, eq_of_slashParts hparts⟩
    simp_all
  unfold LearningIntent.qualify
  simp only [howner, hrepo, Bool.not_true, raiseIf, bind, Except.bind, Bool.false_eq_true, if_false,
    and_false]
  rw [if_pos hbad]

/-! ## Identity -/

/-- To the learning host and back. -/
def LearningIntent.throughPayload (sha256 : String → String) (intent : LearningIntent)
    (owner : Option String) : Except PyError LearningIntent := do
  let payload ← intent.toPayload sha256 owner
  LearningIntent.fromPayload sha256 payload

theorem accepts_bare {repository : String} :
    Accepts repository "" ↔ isQualified repository = true ∧ repository.length ≤ 200 := by
  unfold Accepts
  simp [and_comm]

theorem accepts_named (ha : isComponent a = true) (hb : isComponent b = true) :
    Accepts (a ++ "/" ++ b) b ↔ (a ++ "/" ++ b).length ≤ 200 := by
  have hparts := slashParts_append ha hb
  have hqualified : isQualified (a ++ "/" ++ b) = true := isQualified_iff.mpr ⟨a, b, rfl, ha, hb⟩
  unfold Accepts
  rw [hparts]
  simp [hqualified, hb]

theorem keyRepo_built (hbuilt : intent.Built) : intent.keyRepo = intent.repo := by
  unfold LearningIntent.keyRepo
  rw [built_identityRepo hbuilt]
  simp

theorem throughPayload_none (hbuilt : intent.Built) :
    (∃ read, intent.throughPayload sha256 none = .ok read ∧
        read.key sha256 = intent.key sha256) ↔
      intent.Qualifies none ∧ intent.Filled := by
  have hrepo : (if "" ≠ "" then "" else intent.repo) = intent.keyRepo := by
    rw [keyRepo_built hbuilt]
    simp
  unfold LearningIntent.throughPayload
  rw [toPayload_none hbuilt]
  simp only [bind, Except.bind]
  rw [fromPayload_payloadOf hbuilt hrepo, accepts_bare]
  rfl

/-- What `to_payload` makes under an owner. -/
theorem qualify_ok (hbuilt : intent.Built) {named : String × String} :
    intent.qualify owner = .ok named ↔
      intent.Qualifies (some owner) ∧
        named = if isComponent intent.repo = true then (owner ++ "/" ++ intent.repo, intent.repo)
          else (intent.repo, "") := by
  unfold LearningIntent.Qualifies
  by_cases howner : isComponent owner = true
  · by_cases hrepo : isComponent intent.repo = true
    · rw [qualify_component hbuilt howner hrepo]
      by_cases hlength : (owner ++ "/" ++ intent.repo).length ≤ 200
      · rw [if_pos hlength, if_pos hrepo]
        simp only [howner, hrepo, hlength, true_and, true_or, Except.ok.injEq]
        exact eq_comm
      · rw [if_neg hlength]
        refine iff_of_false (fun h => by cases h) ?_
        rintro ⟨⟨_, ⟨_, hshort⟩ | ⟨name, hname, hqualified, _⟩⟩, _⟩
        · exact hlength hshort
        · have hparts := slashParts_component hrepo
          rw [hqualified, slashParts_append howner hname] at hparts
          simp at hparts
    · by_cases hqualified : ∃ name, isComponent name = true ∧ intent.repo = owner ++ "/" ++ name
      · obtain ⟨name, hname, hfull⟩ := hqualified
        rw [qualify_qualified hbuilt howner hname hfull, if_neg hrepo]
        by_cases hlength : intent.repo.length ≤ 200
        · rw [if_pos hlength, Except.ok.injEq]
          constructor
          · intro h
            exact ⟨⟨howner, .inr ⟨name, hname, hfull, hlength⟩⟩, h.symm⟩
          · intro h
            exact h.2.symm
        · rw [if_neg hlength]
          refine iff_of_false (fun h => by cases h) ?_
          rintro ⟨⟨_, ⟨hcomponent, _⟩ | ⟨_, _, _, hshort⟩⟩, _⟩
          · exact hrepo hcomponent
          · exact hlength hshort
      · rw [qualify_foreign howner hrepo hqualified]
        refine iff_of_false (fun h => by cases h) ?_
        rintro ⟨⟨_, ⟨hcomponent, _⟩ | ⟨name, hname, hfull, _⟩⟩, _⟩
        · exact hrepo hcomponent
        · exact hqualified ⟨name, hname, hfull⟩
  · rw [qualify_owner howner]
    refine iff_of_false (fun h => by cases h) ?_
    rintro ⟨⟨hcomponent, _⟩, _⟩
    exact howner hcomponent

theorem spares_valueError {α : Type} {e : PyError} (he : e.kind ≠ .valueError)
    (message : String) : Spares e (.error ⟨.valueError, message⟩ : Except PyError α) := by
  intro h
  obtain rfl := Except.error.inj h
  exact he rfl

/-- Every error of `to_payload` is a ValueError. -/
theorem spares_qualify {e : PyError} (he : e.kind ≠ .valueError) :
    Spares e (intent.qualify owner) := by
  have hinvalid : identityInvalid ≠ e := by rintro rfl; exact he rfl
  have hforeign : identityForeign ≠ e := by rintro rfl; exact he rfl
  have hnamed (p q : Prop) [Decidable p] [Decidable q] (named : String × String) :
      Spares e (raiseIf p identityForeign >>= fun _ =>
        raiseIf q identityInvalid >>= fun _ => pure named) := by
    rw [spares_check hforeign]
    intro _
    rw [spares_check hinvalid]
    intro _
    exact spares_ok _
  unfold LearningIntent.qualify
  rw [spares_check hinvalid]
  intro _
  simp only [bind, Except.bind]
  split
  · split
    · exact spares_valueError he _
    · exact hnamed _ _ _
  · split
    · exact spares_valueError he _
    · exact hnamed _ _ _

theorem spares_payloadKind {e : PyError} (he : e.kind ≠ .valueError)
    (payload : Dict String Json) : Spares e (payloadKind payload) := by
  unfold payloadKind
  split
  · split
    · exact spares_ok _
    · split
      · exact spares_ok _
      · exact spares_valueError he _
  · exact spares_valueError he _

theorem spares_payloadIdentity {e : PyError} (he : e.kind ≠ .valueError)
    (payload : Dict String Json) : Spares e (payloadIdentity payload) := by
  unfold payloadIdentity
  dsimp only
  split
  · split
    · exact spares_valueError he _
    · exact spares_ok _
  · exact spares_valueError he _

theorem spares_payloadIntent {e : PyError} (he : e.kind ≠ .valueError)
    (payload : Dict String Json) (kind : LearningIntentKind) (repo identityRepo : String)
    (issue : Int) : Spares e (payloadIntent payload kind repo identityRepo issue) := by
  unfold payloadIntent
  split
  · split
    · split
      · exact spares_valueError he _
      · exact spares_ok _
    · exact spares_valueError he _
  · split
    · exact spares_ok _
    · exact spares_valueError he _

/-- Every error of `from_payload` is a ValueError. -/
theorem spares_fromPayload {e : PyError} (he : e.kind ≠ .valueError)
    (payload : Dict String Json) : Spares e (LearningIntent.fromPayload sha256 payload) := by
  have hother (message : String) : (⟨.valueError, message⟩ : PyError) ≠ e := by
    rintro rfl
    exact he rfl
  unfold LearningIntent.fromPayload
  rw [spares_bind]
  refine ⟨spares_payloadKind he payload, fun kind _ => ?_⟩
  rw [spares_check (hother _)]
  intro _
  rw [spares_bind]
  refine ⟨spares_payloadIdentity he payload, fun identity _ => ?_⟩
  rw [spares_bind]
  refine ⟨spares_payloadIntent he payload _ _ _ _, fun read _ => ?_⟩
  rw [spares_check (hother _)]
  intro _
  exact spares_ok _

theorem spares_throughPayload {e : PyError} (he : e.kind ≠ .valueError) (hbuilt : intent.Built)
    (owner : Option String) : Spares e (intent.throughPayload sha256 owner) := by
  unfold LearningIntent.throughPayload
  rw [spares_bind]
  refine ⟨?_, fun payload _ => spares_fromPayload he payload⟩
  cases owner with
  | none =>
      rw [toPayload_none hbuilt]
      exact spares_ok _
  | some owner =>
      rw [toPayload_some]
      cases hqualify : intent.qualify owner with
      | error e' =>
          intro h
          obtain rfl := Except.error.inj h
          exact spares_qualify he hqualify
      | ok named => exact spares_ok _

/-- The intent comes back under its key just where its identity is in order. -/
theorem throughPayload_some (hbuilt : intent.Built) :
    (∃ read, intent.throughPayload sha256 (some owner) = .ok read ∧
        read.key sha256 = intent.key sha256) ↔
      intent.Qualifies (some owner) ∧ intent.Filled := by
  unfold LearningIntent.throughPayload
  rw [toPayload_some]
  cases hqualify : intent.qualify owner with
  | error e =>
      refine iff_of_false (fun h => ?_) fun h => ?_
      · obtain ⟨read, hread, _⟩ := h
        cases hread
      · have hok := (qualify_ok hbuilt).mpr ⟨h.1, rfl⟩
        rw [hqualify] at hok
        cases hok
  | ok named =>
      obtain ⟨hqualifies, hnamed⟩ := (qualify_ok hbuilt).mp hqualify
      have hrepo : (if named.2 ≠ "" then named.2 else named.1) = intent.keyRepo := by
        rw [keyRepo_built hbuilt, hnamed]
        by_cases hcomponent : isComponent intent.repo = true
        · simp [hcomponent, component_ne_empty hcomponent]
        · simp [hcomponent]
      have haccepts : Accepts named.1 named.2 := by
        obtain ⟨howner, ⟨hcomponent, hlength⟩ | ⟨name, hname, hfull, hlength⟩⟩ := hqualifies
        · rw [hnamed, if_pos hcomponent]
          exact (accepts_named howner hcomponent).mpr hlength
        · have hcomponent : ¬isComponent intent.repo = true := by
            intro hcomponent
            have hparts := slashParts_component hcomponent
            rw [hfull, slashParts_append howner hname] at hparts
            simp at hparts
          rw [hnamed, if_neg hcomponent]
          exact accepts_bare.mpr ⟨isQualified_iff.mpr ⟨owner, name, hfull, howner, hname⟩, hlength⟩
      simp only [Except.map, bind, Except.bind]
      rw [fromPayload_payloadOf hbuilt hrepo]
      simp [haccepts, hqualifies]

theorem payloadIdentity_key {payload : Dict String Json} {repo identityRepo intentKey : String}
    {issue : Int} (h : payloadIdentity payload = .ok (repo, identityRepo, issue, intentKey)) :
    payload.get? "intent_key" = some (.str intentKey) := by
  unfold payloadIdentity at h
  dsimp only at h
  split at h
  · next hkey =>
    split at h
    · cases h
    · simp only [Except.ok.injEq, Prod.mk.injEq] at h
      rw [hkey, h.2.2.2]
  · cases h

/-- What the payload's reader gives has the key the payload carries. -/
theorem fromPayload_key {payload : Dict String Json} {read : LearningIntent}
    (h : LearningIntent.fromPayload sha256 payload = .ok read) :
    payload.get? "intent_key" = some (.str (read.key sha256)) := by
  unfold LearningIntent.fromPayload at h
  obtain ⟨kind, _, h⟩ := except_bind_ok.mp h
  obtain ⟨_, h⟩ := check_bind_ok.mp h
  obtain ⟨⟨repo, identityRepo, issue, intentKey⟩, hidentity, h⟩ := except_bind_ok.mp h
  obtain ⟨built, _, h⟩ := except_bind_ok.mp h
  obtain ⟨hkey, h⟩ := check_bind_ok.mp h
  obtain rfl := Except.ok.inj h
  rw [payloadIdentity_key hidentity]
  rw [raiseIf_ok, not_not] at hkey
  rw [hkey]

theorem throughPayload_key {read : LearningIntent} {owner : Option String}
    (hbuilt : intent.Built) (h : intent.throughPayload sha256 owner = .ok read) :
    read.key sha256 = intent.key sha256 := by
  have hkey (repository identityRepo : String)
      (hread : LearningIntent.fromPayload sha256
        (payloadOf sha256 intent repository identityRepo) = .ok read) :
      read.key sha256 = intent.key sha256 := by
    have hfound := fromPayload_key hread
    rw [(get?_payloadOf repository identityRepo).2.2.2.1] at hfound
    exact (Json.str.inj (Option.some.inj hfound)).symm
  unfold LearningIntent.throughPayload at h
  obtain ⟨payload, hpayload, hread⟩ := except_bind_ok.mp h
  cases owner with
  | none =>
      rw [toPayload_none hbuilt] at hpayload
      obtain rfl := Except.ok.inj hpayload
      exact hkey _ _ hread
  | some owner =>
      rw [toPayload_some] at hpayload
      cases hqualify : intent.qualify owner with
      | error e =>
          rw [hqualify] at hpayload
          cases hpayload
      | ok named =>
          rw [hqualify] at hpayload
          obtain rfl := Except.ok.inj hpayload
          exact hkey _ _ hread

/-- To the learning host and back: either the identity is in order and the intent
comes back under its key, or a ValueError. -/
theorem throughPayload_spec (hbuilt : intent.Built) (owner : Option String) :
    (intent.Qualifies owner ∧ intent.Filled →
      ∃ read, intent.throughPayload sha256 owner = .ok read ∧
        read.key sha256 = intent.key sha256) ∧
    (¬(intent.Qualifies owner ∧ intent.Filled) →
      ∃ message, intent.throughPayload sha256 owner = .error ⟨.valueError, message⟩) := by
  have hiff : (∃ read, intent.throughPayload sha256 owner = .ok read ∧
        read.key sha256 = intent.key sha256) ↔
      intent.Qualifies owner ∧ intent.Filled := by
    cases owner with
    | none => exact throughPayload_none hbuilt
    | some owner => exact throughPayload_some hbuilt
  refine ⟨hiff.mpr, fun hnot => ?_⟩
  cases hthrough : intent.throughPayload sha256 owner with
  | ok read =>
      exact absurd (hiff.mp ⟨read, hthrough, throughPayload_key hbuilt hthrough⟩) hnot
  | error e =>
      obtain ⟨kind, message⟩ := e
      by_cases hkind : kind = .valueError
      · exact ⟨message, by rw [hkind]⟩
      · exact absurd hthrough (spares_throughPayload (e := ⟨kind, message⟩) hkind hbuilt owner)

/-! ## The journal record -/

@[simp] theorem LearningIntentKind.ofValue_value (kind : LearningIntentKind) :
    LearningIntentKind.ofValue kind.value = .ok kind := by
  cases kind with
  | approvedPlan => rfl
  | postMerge => rfl

@[simp] theorem PyText.plain_str (rest : PyText) (text : String) :
    rest.plain.str (.str text) = text := rfl

@[simp] theorem PyText.plain_int (rest : PyText) (n : Int) :
    rest.plain.int (.int n) = .ok n := rfl

theorem optionalInt_some (rest : PyText) {record : Dict String Json} {name : String}
    {number : Option Int} (h : record.get? name = some (jsonOptionalInt number)) :
    optionalInt rest.plain record name = .ok number := by
  unfold optionalInt
  rw [h]
  cases number with
  | none => rfl
  | some n => rfl

/-- A record holding the key, the kind and the identity of an intent. -/
structure LearningIntent.HeldBy (sha256 : String → String) (intent : LearningIntent)
    (record : Dict String Json) : Prop where
  key : record.get? "key" = some (.str (intent.key sha256))
  kind : record.get? "kind" = some (.str intent.kind.value)
  identity : ∀ kv ∈ intent.journalIdentity, record.get? kv.1 = some kv.2

/-- A record that holds an intent restores it. -/
theorem fromJournal_heldBy (rest : PyText) {record : Dict String Json}
    (h : intent.HeldBy sha256 record) :
    ∃ read, LearningIntent.fromJournal rest.plain sha256 record = .ok read ∧
      read.key sha256 = intent.key sha256 := by
  have hfield (name : String) (value : Json) (hmem : (name, value) ∈ intent.journalIdentity) :
      record.get? name = some value := h.identity (name, value) hmem
  have hrepo := hfield "repo" (.str intent.keyRepo) (by simp [LearningIntent.journalIdentity])
  have hissue := hfield "issue" (.int intent.issue) (by simp [LearningIntent.journalIdentity])
  have hpr := hfield "pr" (jsonOptionalInt intent.pr) (by simp [LearningIntent.journalIdentity])
  have hrevision := hfield "plan_revision" (jsonOptionalInt intent.planRevision)
    (by simp [LearningIntent.journalIdentity])
  have hfingerprint := hfield "plan_fingerprint" (.str intent.planFingerprint)
    (by simp [LearningIntent.journalIdentity])
  have hkey : ({ kind := intent.kind, repo := intent.keyRepo, issue := intent.issue
                 pr := intent.pr, planRevision := intent.planRevision
                 planFingerprint := intent.planFingerprint } : LearningIntent).key sha256 =
      intent.key sha256 :=
    key_congr rfl rfl rfl rfl rfl (by simp [LearningIntent.keyRepo])
  refine ⟨_, ?_, hkey⟩
  unfold LearningIntent.fromJournal
  simp only [field, h.key, h.kind, hrepo, hissue, hfingerprint, optionalInt_some rest hpr,
    optionalInt_some rest hrevision, PyText.plain_str, PyText.plain_int, bind, Except.bind, Option.map_some,
    Option.getD_some, LearningIntentKind.ofValue_value, Option.bind_some, Json.asStr?, hkey, if_true]

/-! ## The journal's file -/

variable {floats : JsonText.FloatText}

theorem optionalField_get? {name key : String} (h : name ≠ key) (value : Option String) :
    Dict.get? (optionalField name value) key = none := by
  cases value with
  | none => rfl
  | some text => simp [optionalField, Dict.get?_cons, h]

/-- Reading the fields one by one. -/
theorem get?_mapM {V W : Type} {read : V → Option W} {fields : Dict String V}
    {document : Dict String W}
    (h : (fields.mapM fun kv => (read kv.2).map fun value => (kv.1, value)) = some document)
    (key : String) : document.get? key = (fields.get? key).bind read := by
  induction fields generalizing document with
  | nil =>
      obtain rfl := Option.some.inj h
      rfl
  | cons kv fields ih =>
      rw [List.mapM_cons] at h
      cases hread : read kv.2 with
      | none => simp [hread] at h
      | some value =>
          cases hrest : (fields.mapM fun kv => (read kv.2).map fun value => (kv.1, value)) with
          | none => simp [hread, hrest] at h
          | some rest =>
              simp only [hread, hrest, Option.map_some, Option.bind_eq_bind, Option.bind_some,
                Option.pure_def, Option.some.injEq] at h
              rw [← h, Dict.get?_cons, Dict.get?_cons, ih hrest]
              split
              · rw [Option.bind_some, hread]
              · rfl

theorem isSome_mapM {V W : Type} {read : V → Option W} {fields : Dict String V} :
    (fields.mapM fun kv => (read kv.2).map fun value => (kv.1, value)).isSome ↔
      ∀ kv ∈ fields, (read kv.2).isSome := by
  induction fields with
  | nil => simp
  | cons kv fields ih =>
      rw [List.mapM_cons, List.forall_mem_cons, ← ih]
      cases read kv.2 with
      | none => simp
      | some value =>
          cases (fields.mapM fun kv => (read kv.2).map fun value => (kv.1, value)) with
          | none => simp
          | some rest => simp

/-- A field of the identity in the record's file. -/
theorem documentOf_get? {r : LearningRecord Text} {document : Dict String Json}
    (h : documentOf floats r = some document) {key : String} {text : Text}
    (hkey : key = "post_processing") (hfield : r.identity.get? key = some text) :
    document.get? key = JsonText.loads floats JsonText.keepLast text := by
  subst hkey
  unfold documentOf at h
  simp only [Option.bind_eq_bind, Option.bind_eq_some_iff, Option.pure_def, Option.some.injEq] at h
  obtain ⟨receipt, _, identity, hidentity, rfl⟩ := h
  have hsummary : Dict.get? (receipt.map fun value => ("receipt_summary", value)).toList
      "post_processing" = none := by
    cases receipt with
    | none => rfl
    | some value => rfl
  have hreserved : Dict.get? [("key", Json.str r.key), ("kind", .str r.kind),
      ("status", .str r.status.text), ("attempts", .int r.attempts),
      ("created_at", .str r.createdAt), ("updated_at", .str r.updatedAt)]
        "post_processing" = none := rfl
  have hread := get?_mapM hidentity "post_processing"
  rw [hfield, Option.bind_some] at hread
  simp only [Dict.get?_append, hsummary, hreserved, hread,
    optionalField_get? (show "error" ≠ "post_processing" by decide),
    optionalField_get? (show "first_error" ≠ "post_processing" by decide),
    optionalField_get? (show "candidate_evidence" ≠ "post_processing" by decide),
    optionalField_get? (show "cleanup_status" ≠ "post_processing" by decide),
    optionalField_get? (show "cleanup_error" ≠ "post_processing" by decide), Option.none_or]

/-- What `ensure_pending` leaves of the fields: those it was given, and those that
were there. -/
theorem mergeIdentity_ok {V : Type} [DecidableEq V] {fields current merged : Dict String V}
    {before after : Bool} (hkeys : (fields.map Prod.fst).Nodup)
    (h : mergeIdentity current before fields = .ok (merged, after)) (key : String) :
    merged.get? key = (fields.get? key).or (current.get? key) := by
  induction fields generalizing current before with
  | nil =>
      simp only [mergeIdentity, Except.ok.injEq, Prod.mk.injEq] at h
      rw [h.1]
      rfl
  | cons kv fields ih =>
      obtain ⟨name, value⟩ := kv
      rw [List.map_cons, List.nodup_cons] at hkeys
      have hnew : Dict.get? fields name = none := by
        rw [Option.eq_none_iff_forall_ne_some]
        intro other hother
        exact hkeys.1 (List.mem_map.mpr ⟨(name, other), Dict.mem_of_get? hother, rfl⟩)
      unfold mergeIdentity at h
      split at h
      · next old hold =>
        split at h
        · cases h
        · next hsame =>
          rw [not_not] at hsame
          rw [ih hkeys.2 h, Dict.get?_cons]
          split
          · next hname =>
            rw [← hname, hnew, hold, hsame]
            rfl
          · rfl
      · next hold =>
        rw [ih hkeys.2 h, Dict.get?_cons, Dict.get?_set]
        split
        · next hname =>
          rw [← hname, hnew]
          simp
        · simp

theorem writesObject_dumps (fields : Dict String Json) :
    writesObject (JsonText.dumps floats (.obj fields)) = true := by
  unfold writesObject JsonText.dumps
  rw [JsonText.sorted]
  cases JsonText.sortFields (JsonText.sortedFields fields) with
  | nil => rfl
  | cons field fields => rfl

/-- The fields of `learning_journal_identity` of an item that is done. -/
theorem get?_learningJournalIdentity {V : Type} {dump : V → Option Json} {item : TerminalItem V}
    {identity : Dict String Json} {record : TerminalRecord V}
    (hrecord : item.postProcessing = some record)
    (h : item.learningJournalIdentity dump intent = some identity) :
    ∃ cleanup, TerminalItem.writeValues dump record.cleanupPayload = some cleanup ∧
      identity = intent.journalIdentity ++
        [("post_processing", item.postProcessingJson record cleanup)] := by
  unfold TerminalItem.learningJournalIdentity at h
  rw [hrecord] at h
  obtain ⟨cleanup, hcleanup, rfl⟩ := Option.map_eq_some_iff.mp h
  exact ⟨cleanup, hcleanup, rfl⟩

theorem get?_identityTexts (identity : Dict String Json) (key : String) :
    (identityTexts floats identity).get? key =
      (identity.get? key).map (JsonText.dumps floats) := by
  induction identity with
  | nil => rfl
  | cons kv identity ih =>
      unfold identityTexts at ih ⊢
      rw [List.map_cons, Dict.get?_cons, Dict.get?_cons, ih]
      split
      · rfl
      · rfl

/-- `ensure_pending` returns a record with every field it was given. -/
theorem ensurePendingSection_get? {V : Type} [DecidableEq V] {isDict : V → Bool}
    {key kind now : String} {identity : Dict String V} {stored written : Option (LearningRecord V)}
    {r : LearningRecord V} (hkeys : (identity.map Prod.fst).Nodup)
    (h : ensurePendingSection isDict key kind identity now stored = (written, .record r))
    (name : String) :
    r.identity.get? name =
      (identity.get? name).or (stored.bind fun current => current.identity.get? name) := by
  cases stored with
  | none =>
      simp only [ensurePendingSection, Prod.mk.injEq, JournalReply.record.injEq] at h
      rw [← h.2]
      simp
  | some current =>
      unfold ensurePendingSection at h
      dsimp only at h
      split at h
      · cases h
      · split at h
        · cases h
        · next merged changed hmerge =>
          have hmerged := mergeIdentity_ok hkeys hmerge name
          split at h
          · simp only [Prod.mk.injEq, JournalReply.record.injEq] at h
            rw [← h.2]
            exact hmerged
          · simp only [Prod.mk.injEq, JournalReply.record.injEq] at h
            rw [← h.2]
            exact hmerged

theorem documentOf_isSome {r : LearningRecord Text} :
    (documentOf floats r).isSome ↔
      (∀ t ∈ r.receiptSummary, (JsonText.loads floats JsonText.keepLast t).isSome) ∧
        ∀ kv ∈ r.identity, (JsonText.loads floats JsonText.keepLast kv.2).isSome := by
  rw [← isSome_mapM]
  unfold documentOf
  cases (r.identity.mapM fun kv =>
      (JsonText.loads floats JsonText.keepLast kv.2).map fun value => (kv.1, value)) with
  | none => cases r.receiptSummary with
      | none => simp
      | some t => cases hread : JsonText.loads floats JsonText.keepLast t <;> simp [hread]
  | some identity => cases r.receiptSummary with
      | none => simp
      | some t => cases hread : JsonText.loads floats JsonText.keepLast t <;> simp [hread]

theorem mem_mergeIdentity {V : Type} [DecidableEq V] {fields current merged : Dict String V}
    {before after : Bool} (h : mergeIdentity current before fields = .ok (merged, after))
    {kv : String × V} (hmem : kv ∈ merged) : kv ∈ current ∨ kv ∈ fields := by
  induction fields generalizing current before with
  | nil =>
      simp only [mergeIdentity, Except.ok.injEq, Prod.mk.injEq] at h
      rw [h.1]
      exact .inl hmem
  | cons field fields ih =>
      unfold mergeIdentity at h
      split at h
      · split at h
        · cases h
        · exact (ih h).imp_right (List.mem_cons_of_mem _)
      · rcases ih h with hcurrent | hfields
        · rcases Dict.mem_set hcurrent with rfl | hold
          · exact .inr List.mem_cons_self
          · exact .inl hold
        · exact .inr (List.mem_cons_of_mem _ hfields)

/-- The record of `ensure_pending` has a file that can be read, if the stored one has. -/
theorem ensurePendingSection_isSome {isDict : Text → Bool} {key kind now : String}
    {identity : Dict String Text} {stored written : Option (LearningRecord Text)}
    {r : LearningRecord Text}
    (hidentity : ∀ kv ∈ identity, (JsonText.loads floats JsonText.keepLast kv.2).isSome)
    (hstored : ∀ current ∈ stored, (documentOf floats current).isSome)
    (h : ensurePendingSection isDict key kind identity now stored = (written, .record r)) :
    (documentOf floats r).isSome := by
  cases stored with
  | none =>
      simp only [ensurePendingSection, Prod.mk.injEq, JournalReply.record.injEq] at h
      rw [← h.2, documentOf_isSome]
      exact ⟨fun t ht => (by cases ht), hidentity⟩
  | some current =>
      obtain ⟨hreceipt, hcurrent⟩ := documentOf_isSome.mp (hstored current rfl)
      unfold ensurePendingSection at h
      dsimp only at h
      split at h
      · cases h
      · split at h
        · cases h
        · next merged changed hmerge =>
          have hmerged : ∀ kv ∈ merged, (JsonText.loads floats JsonText.keepLast kv.2).isSome := by
            intro kv hkv
            rcases mem_mergeIdentity hmerge hkv with hold | hnew
            · exact hcurrent kv hold
            · exact hidentity kv hnew
          split at h
          · simp only [Prod.mk.injEq, JournalReply.record.injEq] at h
            rw [← h.2, documentOf_isSome]
            exact ⟨hreceipt, hmerged⟩
          · simp only [Prod.mk.injEq, JournalReply.record.injEq] at h
            rw [← h.2, documentOf_isSome]
            exact ⟨hreceipt, hmerged⟩

/-! ## Restoring -/

theorem ofValue_stage (st : StageName) : StageName.ofValue st.value = .ok st := by
  cases st <;> rfl

theorem textOr_str (rest : PyText) {raw : Dict String Json} {name text : String}
    (h : raw.get? name = some (.str text)) : textOr rest.plain raw name = text := by
  unfold textOr
  rw [h]
  by_cases hempty : text = ""
  · simp [Json.truthy, hempty]
  · simp [Json.truthy, hempty]

/-- A written field of an object that was sorted. -/
theorem get?_of_sorted {fields raw : Dict String Json} (h : (fields.map Prod.fst).Nodup)
    (hraw : Json.obj raw = JsonText.sorted (.obj fields)) (name : String) :
    raw.get? name = (fields.get? name).map JsonText.sorted := by
  have hget := JsonText.get?_sorted h name
  rw [← hraw] at hget
  exact hget

/-- The payload values under distinct keys. -/
theorem updateValues_nil {V : Type} (load : Json → V) {fields : Dict String Json}
    (h : (fields.map Prod.fst).Nodup) :
    TerminalItem.updateValues load [] fields = fields.map fun kv => (kv.1, load kv.2) := by
  have hfold (d : Dict String V) : TerminalItem.updateValues load d fields =
      (fields.map fun kv => (kv.1, load kv.2)).foldl (fun d pair => Dict.set d pair.1 pair.2) d := by
    unfold TerminalItem.updateValues
    rw [List.foldl_map]
  rw [hfold, Dict.foldl_set_of_nodup]
  · rfl
  · rw [List.nil_append, List.map_map]
    exact h

/-- An item is restored from its terminal record as the journal's file has it. -/
theorem restore_document (rest : PyText) {item fresh : TerminalItem PayloadData}
    {record : TerminalRecord PayloadData} {cleanup document : Dict String Json}
    (hfinished : record.resumeStage = .finished)
    (hkeys : (cleanup.map Prod.fst).Nodup)
    (hallowed : ∀ kv ∈ cleanup, postProcessingPayloadKeys.contains kv.1 = true)
    (hdocument : document.get? "post_processing" =
      some (JsonText.sorted (item.postProcessingJson record cleanup))) :
    ∃ restored read kept, fresh.restore sha256 rest.plain .json document = .ok (some restored) ∧
      restored.result = some record.result ∧ restored.worktree = item.worktree ∧
      restored.branch = item.branch ∧ restored.postProcessing = some read ∧
      read.result = record.result ∧ read.resumeStage = .finished ∧
      Json.obj kept = JsonText.sorted (.obj cleanup) ∧
      read.cleanupPayload = kept.map fun kv => (kv.1, .json kv.2) := by
  obtain ⟨raw, hraw⟩ : ∃ raw : Dict String Json, Json.obj raw =
      JsonText.sorted (item.postProcessingJson record cleanup) := ⟨_, rfl⟩
  obtain ⟨kept, hkept⟩ : ∃ kept, Json.obj kept = JsonText.sorted (.obj cleanup) := ⟨_, rfl⟩
  obtain ⟨written, hwritten⟩ : ∃ written, Json.obj written = JsonText.sorted
      (.obj [("passed", .bool record.result.passed), ("reason", .str record.result.reason),
        ("final_stage", .str record.result.finalStage.value)]) := ⟨_, rfl⟩
  have hfield := get?_of_sorted (by simp) hraw
  have hresult := get?_of_sorted (by simp) hwritten
  have hworktree : Dict.get? raw "worktree" = some (Json.str item.worktree) := hfield "worktree"
  have hbranch : Dict.get? raw "branch" = some (Json.str item.branch) := hfield "branch"
  have hresume : Dict.get? raw "resume_stage" = some (Json.str StageName.finished.value) := by
    rw [← hfinished]
    exact hfield "resume_stage"
  have hcleanup : Dict.get? raw "cleanup_payload" = some (Json.obj kept) := by
    rw [hkept]
    exact hfield "cleanup_payload"
  have houtcome : Dict.get? raw "result" = some (Json.obj written) := by
    rw [hwritten]
    exact hfield "result"
  have hpassed : Dict.get? written "passed" = some (Json.bool record.result.passed) := hresult "passed"
  have hreason : Dict.get? written "reason" = some (Json.str record.result.reason) := hresult "reason"
  have hfinal : Dict.get? written "final_stage" = some (Json.str record.result.finalStage.value) :=
    hresult "final_stage"
  have hperm : (kept.map Prod.fst).Perm (cleanup.map Prod.fst) := by
    obtain rfl := Json.obj.inj hkept
    rw [← JsonText.keys_sortedFields cleanup]
    exact (JsonText.sortFields_perm _).map Prod.fst
  have hunsupported : (kept.any fun kv => !postProcessingPayloadKeys.contains kv.1) = false := by
    rw [List.any_eq_false]
    intro kv hkv
    obtain ⟨kv', hkv', hname⟩ :=
      List.mem_map.mp (hperm.mem_iff.mp (List.mem_map_of_mem hkv))
    rw [← hname, hallowed kv' hkv']
    simp
  have hloaded := updateValues_nil PayloadData.json (hperm.nodup_iff.mpr hkeys)
  have hrestored : fresh.restore sha256 rest.plain .json document = .ok (some
      { fresh with
        worktree := item.worktree
        branch := item.branch
        payload := TerminalItem.updateValues .json fresh.payload kept
        result := some record.result
        postProcessing := some
          { result := record.result, resumeStage := .finished
            intentKeys := fresh.learningIntents.map (LearningIntent.key sha256)
            cleanupPayload := kept.map fun kv => (kv.1, .json kv.2) } }) := by
    unfold TerminalItem.restore
    rw [hdocument, ← hraw]
    dsimp only
    rw [hcleanup, houtcome]
    dsimp only
    rw [if_neg (by rw [hunsupported]; simp), hpassed, hreason, hfinal, hresume]
    simp only [ofValue_stage, bind, Except.bind, textOr_str rest hworktree,
      textOr_str rest hbranch, hloaded]
  exact ⟨_, _, kept, hrestored, rfl, rfl, rfl, rfl, rfl, rfl, hkept, rfl⟩

/-! ## The coordinator's items -/

theorem terminal_compact (item : WorkItem) (result : ItemResult) :
    (item.compactForPostProcessing sha256 result).terminal =
      item.terminal.compact sha256 result := rfl

/-- Restoring one of the coordinator's items restores its terminal part. -/
theorem terminal_restore (py : PyText) (record : Dict String Json) (item : WorkItem) :
    (item.restorePostProcessing py sha256 record).map (Option.map WorkItem.terminal) =
      item.terminal.restore sha256 py py.payload record := by
  unfold WorkItem.restorePostProcessing TerminalItem.restore
  rcases record.get? "post_processing" with _ | value
  · rfl
  cases value with
  | obj raw =>
      dsimp only
      rcases Dict.get? raw "cleanup_payload" with _ | cleanup
      · rfl
      cases cleanup with
      | obj cleanup =>
          rcases Dict.get? raw "result" with _ | resultRaw
          · rfl
          cases resultRaw with
          | obj resultRaw =>
              dsimp only
              split
              · rfl
              rcases Dict.get? resultRaw "passed" with _ | passed
              · rfl
              cases passed with
              | bool passed =>
                  rcases Dict.get? resultRaw "reason" with _ | reason
                  · rfl
                  cases reason with
                  | str reason =>
                      rcases Dict.get? resultRaw "final_stage" with _ | final
                      · rfl
                      cases final with
                      | str final =>
                          rcases Dict.get? raw "resume_stage" with _ | resume
                          · rfl
                          cases resume with
                          | str resume =>
                              dsimp only
                              cases StageName.ofValue final with
                              | error e => rfl
                              | ok finalStage =>
                                  cases StageName.ofValue resume with
                                  | error e => rfl
                                  | ok resumeStage => rfl
                          | _ => rfl
                      | _ => rfl
                  | _ => rfl
              | _ => rfl
          | _ => rfl
      | _ => rfl
  | _ => rfl

/-! ## Through the journal -/

/-- A payload value up to the order of the fields of its dictionaries. -/
def PayloadData.canonical : PayloadData → PayloadData
  | .json value => .json (JsonText.sorted value)
  | .foreign written => .foreign written

/-- A dictionary of JSON values is written as it is. -/
theorem writeValues_json {values : Dict String PayloadData}
    (h : ∀ kv ∈ values, ∃ value, kv.2 = .json value ∧ JsonText.Codable floats value) :
    ∃ cleanup, TerminalItem.writeValues PayloadData.dump values = some cleanup ∧
      values = cleanup.map (fun kv => (kv.1, .json kv.2)) ∧
      JsonText.CodableFields floats cleanup := by
  induction values with
  | nil => exact ⟨[], rfl, rfl, trivial⟩
  | cons kv values ih =>
      rw [List.forall_mem_cons] at h
      obtain ⟨⟨value, hvalue, hcodable⟩, hvalues⟩ := h
      obtain ⟨cleanup, hcleanup, hmap, hfields⟩ := ih hvalues
      obtain ⟨key, data⟩ := kv
      subst hvalue
      refine ⟨(key, value) :: cleanup, ?_, ?_, hcodable, hfields⟩
      · unfold TerminalItem.writeValues at hcleanup ⊢
        rw [List.mapM_cons, hcleanup]
        rfl
      · rw [hmap]
        rfl

theorem get?_map_json (fields : Dict String Json) (key : String) :
    Dict.get? (fields.map fun kv => (kv.1, PayloadData.json kv.2)) key =
      (fields.get? key).map .json := by
  induction fields with
  | nil => rfl
  | cons kv fields ih =>
      rw [List.map_cons, Dict.get?_cons, Dict.get?_cons, ih]
      split
      · rfl
      · rfl

/-- The journal leaves a dictionary as it is, up to the order of the fields. -/
theorem canonical_kept {cleanup kept : Dict String Json} (hkeys : (cleanup.map Prod.fst).Nodup)
    (hkept : Json.obj kept = JsonText.sorted (.obj cleanup)) (key : String) :
    (Dict.get? (kept.map fun kv => (kv.1, PayloadData.json kv.2)) key).map PayloadData.canonical =
      (Dict.get? (cleanup.map fun kv => (kv.1, PayloadData.json kv.2)) key).map
        PayloadData.canonical := by
  rw [get?_map_json, get?_map_json, get?_of_sorted hkeys hkept key]
  cases cleanup.get? key with
  | none => rfl
  | some value => simp [PayloadData.canonical, JsonText.sorted_sorted]

theorem codable_postProcessing {V : Type} (item : TerminalItem V) (record : TerminalRecord V)
    {cleanup : Dict String Json} (hkeys : (cleanup.map Prod.fst).Nodup)
    (hcleanup : JsonText.CodableFields floats cleanup) :
    JsonText.Codable floats (item.postProcessingJson record cleanup) := by
  refine ⟨by simp, trivial, trivial, trivial, ⟨hkeys, hcleanup⟩, ⟨by simp, ?_⟩, trivial⟩
  exact ⟨trivial, trivial, trivial, trivial⟩

theorem codable_journalIdentity {kv : String × Json} (h : kv ∈ intent.journalIdentity) :
    JsonText.Codable floats kv.2 := by
  have hnumber (n : Option Int) : JsonText.Codable floats (jsonOptionalInt n) := by
    cases n with
    | none => trivial
    | some n => trivial
  unfold LearningIntent.journalIdentity at h
  simp only [List.mem_cons, List.not_mem_nil, or_false] at h
  rcases h with rfl | rfl | rfl | rfl | rfl
  · trivial
  · trivial
  · exact hnumber _
  · exact hnumber _
  · trivial

/-- `ensure_pending` under the record lock is its section on what is stored. -/
theorem ensurePending_body {V : Type} [DecidableEq V] {isDict : V → Bool} {key kind now : String}
    {identity : Dict String V} {stored written : Option (LearningRecord V)} {r : LearningRecord V}
    (h : (JournalOp.ensurePending kind identity now).body isDict key stored =
      (written, .record r)) :
    ensurePendingSection isDict key kind identity now stored = (written, .record r) := by
  unfold JournalOp.body loadRecord at h
  cases stored with
  | none => exact h
  | some current =>
      dsimp only at h
      split at h
      · cases h
      · next hload =>
        split at hload
        · obtain rfl := Except.ok.inj hload
          exact h
        · cases hload

/-- What the cleanup of an item needs is JSON, under distinct keys. -/
structure TerminalItem.Serializable (floats : JsonText.FloatText)
    (item : TerminalItem PayloadData) : Prop where
  keys : (item.payload.map Prod.fst).Nodup
  values : ∀ kv ∈ item.payload, postProcessingPayloadKeys.contains kv.1 = true →
    ∃ value, kv.2 = .json value ∧ JsonText.Codable floats value

/-- `fresh` restores what there was of `item`, done with `result`. -/
def RestoresAs (sha256 : String → String) (rest : PyText) (item : TerminalItem PayloadData)
    (result : ItemResult) (document : Dict String Json) (fresh : TerminalItem PayloadData) : Prop :=
  ∃ restored read, fresh.restore sha256 rest.plain .json document = .ok (some restored) ∧
    restored.result = some result ∧ restored.worktree = item.worktree ∧
    restored.branch = item.branch ∧ restored.postProcessing = some read ∧
    read.result = result ∧ read.resumeStage = .finished ∧
    ∀ key, (read.cleanupPayload.get? key).map PayloadData.canonical =
      ((item.compact sha256 result).payload.get? key).map PayloadData.canonical

/-- `ensure_pending` has nothing against the key, the kind and the names. -/
theorem argumentError_journaled (value : Json) {now : String} :
    (JournalOp.ensurePending intent.kind.value (identityTexts floats (intent.journalIdentity ++
      [("post_processing", value)])) now).argumentError (intent.key sha256) = none := by
  have hkind : intent.kind.value ≠ "" := by
    cases intent.kind with
    | approvedPlan => decide
    | postMerge => decide
  have hnames : (identityTexts floats (intent.journalIdentity ++
      [("post_processing", value)])).map Prod.fst =
        ["repo", "issue", "pr", "plan_revision", "plan_fingerprint", "post_processing"] := rfl
  have hreserved : ["repo", "issue", "pr", "plan_revision", "plan_fingerprint",
      "post_processing"].filter (reservedFields.contains ·) = [] := by decide
  unfold JournalOp.argumentError
  dsimp only
  rw [if_neg (not_or.mpr ⟨key_ne_empty, hkind⟩), hnames, hreserved]
  rfl

/-- The identity of a finished item can be written, and what `ensure_pending` returns
for it restores the item. -/
theorem restores_journaled (rest : PyText) {item : TerminalItem PayloadData}
    (hitem : item.Serializable floats) (result : ItemResult) (intent : LearningIntent)
    (now : String) {stored : Option (LearningRecord Text)}
    (hstored : ∀ current ∈ stored, (documentOf floats current).isSome) :
    ∃ identity, (item.compact sha256 result).learningJournalIdentity PayloadData.dump intent =
        some identity ∧
      (JournalOp.ensurePending intent.kind.value (identityTexts floats identity)
        now).argumentError (intent.key sha256) = none ∧
      (stored = none → ∃ written r, (JournalOp.ensurePending intent.kind.value
        (identityTexts floats identity) now).body writesObject (intent.key sha256) stored =
          (written, .record r)) ∧
      ∀ written r, (JournalOp.ensurePending intent.kind.value (identityTexts floats identity)
          now).body writesObject (intent.key sha256) stored = (written, .record r) →
        ∃ document, documentOf floats r = some document ∧
          ∀ fresh, RestoresAs sha256 rest item result document fresh := by
  have hvalues : ∀ kv ∈ (item.compact sha256 result).payload,
      ∃ value, kv.2 = .json value ∧ JsonText.Codable floats value := by
    intro kv hkv
    obtain ⟨hmem, hkey⟩ := List.mem_filter.mp hkv
    exact hitem.values kv hmem hkey
  obtain ⟨cleanup, hwrites, hpayload, hcodable⟩ := writeValues_json hvalues
  have hkeys : (cleanup.map Prod.fst).Nodup := by
    have hnodup : ((item.compact sha256 result).payload.map Prod.fst).Nodup :=
      hitem.keys.sublist (List.filter_sublist.map _)
    rw [hpayload, List.map_map] at hnodup
    exact hnodup
  have hallowed : ∀ kv ∈ cleanup, postProcessingPayloadKeys.contains kv.1 = true := by
    intro kv hkv
    have hmem : (kv.1, PayloadData.json kv.2) ∈ (item.compact sha256 result).payload := by
      rw [hpayload]
      exact List.mem_map_of_mem hkv
    exact (List.mem_filter.mp hmem).2
  obtain ⟨record, hrecord⟩ : ∃ record, (item.compact sha256 result).postProcessing = some record :=
    ⟨_, rfl⟩
  have hresult : record.result = result ∧ record.resumeStage = .finished ∧
      record.cleanupPayload = (item.compact sha256 result).payload := by
    obtain rfl := Option.some.inj hrecord
    exact ⟨rfl, rfl, rfl⟩
  obtain ⟨hresult, hfinished, hcleanup⟩ := hresult
  have hpost := codable_postProcessing (item.compact sha256 result) record hkeys hcodable
  have hidentity : (item.compact sha256 result).learningJournalIdentity PayloadData.dump intent =
      some (intent.journalIdentity ++
        [("post_processing", (item.compact sha256 result).postProcessingJson record cleanup)]) := by
    unfold TerminalItem.learningJournalIdentity
    rw [hrecord]
    dsimp only
    rw [hcleanup, hwrites]
    rfl
  refine ⟨_, hidentity, ?_, ?_, ?_⟩
  · exact argumentError_journaled _
  · rintro rfl
    exact ⟨_, _, rfl⟩
  · intro written r hbody
    have hsection := ensurePending_body hbody
    have hread : ∀ kv ∈ identityTexts floats (intent.journalIdentity ++
        [("post_processing", (item.compact sha256 result).postProcessingJson record cleanup)]),
        (JsonText.loads floats JsonText.keepLast kv.2).isSome := by
      intro kv hkv
      obtain ⟨field, hfield, rfl⟩ := List.mem_map.mp hkv
      have hfieldCodable : JsonText.Codable floats field.2 := by
        rcases List.mem_append.mp hfield with hidentity | hpostField
        · exact codable_journalIdentity hidentity
        · rw [List.mem_singleton.mp hpostField]
          exact hpost
      rw [JsonText.loads_dumps_of_codable floats (fun _ => JsonText.nodup_keepLast) hfieldCodable]
      rfl
    obtain ⟨document, hdocument⟩ :=
      Option.isSome_iff_exists.mp (ensurePendingSection_isSome hread hstored hsection)
    refine ⟨document, hdocument, fun fresh => ?_⟩
    have hfield := ensurePendingSection_get? (by simp [identityTexts, LearningIntent.journalIdentity])
      hsection "post_processing"
    rw [get?_identityTexts, Dict.get?_append] at hfield
    have hterminal : document.get? "post_processing" = some (JsonText.sorted
        ((item.compact sha256 result).postProcessingJson record cleanup)) := by
      rw [documentOf_get? hdocument rfl hfield]
      exact JsonText.loads_dumps_of_codable floats (fun _ => JsonText.nodup_keepLast) hpost
    obtain ⟨restored, read, kept, hrestore, h1, h2, h3, h4, h5, h6, hkept, hread⟩ :=
      restore_document rest hfinished hkeys hallowed hterminal
    refine ⟨restored, read, hrestore, hresult ▸ h1, h2, h3, h4, hresult ▸ h5, h6, fun key => ?_⟩
    rw [hread, hpayload]
    exact canonical_kept hkeys hkept key

/-- An intent keeps its key on the way to the learning host where its identity is in
order, and through the journal always; and a finished item whose cleanup values are
JSON comes back from the journal. -/
theorem learning_survives_restart (sha256 : String → String) (floats : JsonText.FloatText)
    (rest : PyText) :
    (∀ intent : LearningIntent, intent.Built → ∀ owner,
      (intent.Qualifies owner ∧ intent.Filled →
        ∃ read, intent.throughPayload sha256 owner = .ok read ∧
          read.key sha256 = intent.key sha256) ∧
      (¬(intent.Qualifies owner ∧ intent.Filled) →
        ∃ message, intent.throughPayload sha256 owner = .error ⟨.valueError, message⟩)) ∧
    (∀ (intent : LearningIntent) (record : Dict String Json), intent.HeldBy sha256 record →
      ∃ read, LearningIntent.fromJournal rest.plain sha256 record = .ok read ∧
        read.key sha256 = intent.key sha256) ∧
    ∀ (item : TerminalItem PayloadData), item.Serializable floats →
      ∀ (result : ItemResult) (intent : LearningIntent) (now : String)
        (stored : Option (LearningRecord Text)),
        (∀ current ∈ stored, (documentOf floats current).isSome) →
        ∃ identity, (item.compact sha256 result).learningJournalIdentity PayloadData.dump intent =
            some identity ∧
          (JournalOp.ensurePending intent.kind.value (identityTexts floats identity)
            now).argumentError (intent.key sha256) = none ∧
          (stored = none → ∃ written r, (JournalOp.ensurePending intent.kind.value
            (identityTexts floats identity) now).body writesObject (intent.key sha256) stored =
              (written, .record r)) ∧
          ∀ written r, (JournalOp.ensurePending intent.kind.value (identityTexts floats identity)
              now).body writesObject (intent.key sha256) stored = (written, .record r) →
            ∃ document, documentOf floats r = some document ∧
              ∀ fresh, RestoresAs sha256 rest item result document fresh :=
  ⟨fun _ hbuilt owner => throughPayload_spec hbuilt owner,
    fun _ _ hheld => fromJournal_heldBy rest hheld,
    fun _ hitem result intent now _ hstored =>
      restores_journaled rest hitem result intent now hstored⟩

/-- The digest of the key. -/
def hexSha256 (text : String) : String :=
  String.ofList (Sha256.hexdigest (Sha256.encodeUtf8 text.toList))

/-- A run without floats. -/
def wholeNumbers : JsonText.FloatText where
  repr _ := []
  parse _ := .finite 0

/-- Conversions of values that are neither texts nor numbers. -/
def bareText : PyText where
  str _ := ""
  int _ := .error ⟨.typeError, "int() argument must be a string or a number"⟩
  strip text := text
  payload _ := .bool false

/-- An item that has a failure to report. -/
def reporting : TerminalItem PayloadData where
  worktree := "/build/tool"
  branch := "7-auto-impl"
  payload := [("learning_failures", .json (.arr [.str "timeout"])), ("draft", .foreign none)]

theorem reporting_serializable : reporting.Serializable wholeNumbers where
  keys := by decide
  values kv hkv hkey := by
    rcases List.mem_cons.mp hkv with rfl | hkv
    · exact ⟨_, rfl, trivial, trivial⟩
    · rw [List.mem_singleton.mp hkv] at hkey
      exact absurd hkey (by decide)

/-- An approved plan of a repository under its short name, and the end of its item. -/
theorem learning_survives_restart_reporting :
    (∃ read, (LearningIntent.approvedPlan "tool" 7 2 "f00d").throughPayload hexSha256
        (some "octo") = .ok read ∧
      read.key hexSha256 = (LearningIntent.approvedPlan "tool" 7 2 "f00d").key hexSha256) ∧
    ∃ identity, (reporting.compact hexSha256 ⟨true, "merged", .mergeWait⟩).learningJournalIdentity
        PayloadData.dump (.approvedPlan "tool" 7 2 "f00d") = some identity ∧
      ∃ written r, (JournalOp.ensurePending "approved_plan"
          (identityTexts wholeNumbers identity) "now").body writesObject
            ((LearningIntent.approvedPlan "tool" 7 2 "f00d").key hexSha256) none =
          (written, .record r) ∧
        ∃ document, documentOf wholeNumbers r = some document ∧
          RestoresAs hexSha256 bareText reporting ⟨true, "merged", .mergeWait⟩ document {} := by
  obtain ⟨hpayload, _, hjournal⟩ := learning_survives_restart hexSha256 wholeNumbers bareText
  have hfilled : (LearningIntent.approvedPlan "tool" 7 2 "f00d").Filled :=
    filled_approvedPlan.mpr ⟨by decide, by decide, by decide⟩
  have hqualifies : (LearningIntent.approvedPlan "tool" 7 2 "f00d").Qualifies (some "octo") :=
    ⟨by decide, .inl ⟨by decide, by decide⟩⟩
  refine ⟨(hpayload _ (.approvedPlan _ _ _ _) _).1 ⟨hqualifies, hfilled⟩, ?_⟩
  obtain ⟨identity, hidentity, _, hfirst, hrestores⟩ :=
    hjournal reporting reporting_serializable ⟨true, "merged", .mergeWait⟩
      (.approvedPlan "tool" 7 2 "f00d") "now" none (fun current h => (by cases h))
  obtain ⟨written, r, hbody⟩ := hfirst rfl
  obtain ⟨document, hdocument, hfresh⟩ := hrestores written r hbody
  exact ⟨identity, hidentity, written, r, hbody, document, hdocument, hfresh {}⟩

/-- An intent without an issue comes back from no learning host. -/
theorem throughPayload_zero :
    (LearningIntent.postMerge "octo/tool" 0 7).Built ∧
      ¬∃ read, (LearningIntent.postMerge "octo/tool" 0 7).throughPayload hexSha256 (some "octo") =
          .ok read ∧
        read.key hexSha256 = (LearningIntent.postMerge "octo/tool" 0 7).key hexSha256 := by
  refine ⟨.postMerge _ _ _, fun h => ?_⟩
  have hfilled := (throughPayload_some (.postMerge _ _ _)).mp h
  exact absurd hfilled.2.issue (by decide)

end Hephaestus.Pipeline
