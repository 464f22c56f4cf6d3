import Hephaestus.Lib.FirstSeen
import Hephaestus.Lib.Run
import Hephaestus.Proofs.MetricsText

/-!
# What a run of calls leaves in the registry

A family is told from the writes it accepted: its series are the first so many label sets
that came, each with what its own writes add up to, and the count of what it dropped is
the number of the other writes. The invariant says so of every family, and what a call
can do is said once, in `call_cases`.
-/

namespace Hephaestus.Observability

open Hephaestus.Lib

/-! ## A write -/

/-- A label that `_normalise_labels` lets through. -/
def ValidLabel (label : Text × Text) : Prop :=
  Exposition.isLabelName label.1 = true
    ∧ (Sha256.encodeUtf8 (escapeLabelValue label.2)).length ≤ maxEncodedLabelValueBytes

/-- The domain that was declared for a label has the value. -/
def Metric.allows (m : Metric) (label : Text × Text) : Prop :=
  ∀ allowed, m.allowedLabels = some allowed → ∀ values, Dict.get? allowed label.1 = some (some values) →
    label.2 ∈ values

/-- The labels are those of the family. -/
structure Metric.Fits (m : Metric) (key : LabelValues) : Prop where
  labelNames : ∀ names, m.labelNames = some names → names = key.map Prod.fst
  allows : ∀ label ∈ key, m.allows label

/-- The family after a write that it accepted. -/
def Metric.stored (m : Metric) (key : LabelValues) (value : Double → Double) : Metric :=
  let samples := if key ≠ [] ∧ m.samples.contains [] then m.samples.erase [] else m.samples
  if samples.contains key = false ∧ m.seriesCap ≤ samples.length then
    { m with labelNames := some (key.map Prod.fst), samples, overflowTotal := m.overflowTotal + 1 }
  else
    { m with
      labelNames := some (key.map Prod.fst)
      samples := samples.set key (value ((samples.get? key).getD (.finite 0))) }

/-- A write leaves what a family was registered with. -/
theorem Metric.stored_frame (m : Metric) (key : LabelValues) (value : Double → Double) :
    (m.stored key value).name = m.name ∧ (m.stored key value).kind = m.kind
      ∧ (m.stored key value).seriesCap = m.seriesCap
      ∧ (m.stored key value).allowedLabels = m.allowedLabels
      ∧ (m.stored key value).labelNames = some (key.map Prod.fst) := by
  dsimp only [Metric.stored]
  generalize (if key ≠ [] ∧ m.samples.contains [] then m.samples.erase [] else m.samples) = samples
  split
  · exact ⟨rfl, rfl, rfl, rfl, rfl⟩
  · exact ⟨rfl, rfl, rfl, rfl, rfl⟩

theorem normaliseLabels_ok {labels : List (Text × Text)} {key : LabelValues}
    (h : normaliseLabels labels = .ok key) : ∀ label ∈ key, ValidLabel label := by
  have hmapM : ∀ {labels result : List (Text × Text)},
      (labels.mapM fun label => do
        raiseIf (Exposition.isLabelName label.1 = false) (MetricsError.labelName label.1)
        pure (label.1, ← normaliseLabelValue label.1 label.2)) = .ok result →
      ∀ label ∈ result, ValidLabel label := by
    intro labels
    induction labels with
    | nil =>
        intro result h
        obtain rfl := Except.ok.inj h
        simp
    | cons label labels ih =>
        intro result h
        rw [List.mapM_cons] at h
        obtain ⟨label', hlabel, h⟩ := except_bind_ok.mp h
        obtain ⟨rest, hrest, h⟩ := except_bind_ok.mp h
        obtain rfl := Except.ok.inj h
        obtain ⟨hname, hvalue⟩ := check_bind_ok.mp hlabel
        obtain ⟨value, hchecked, hvalue⟩ := except_bind_ok.mp hvalue
        obtain rfl := Except.ok.inj hvalue
        obtain ⟨hsize, hsame⟩ := check_bind_ok.mp hchecked
        obtain rfl := Except.ok.inj hsame
        rw [List.forall_mem_cons]
        refine ⟨⟨?_, ?_⟩, ih hrest⟩
        · simpa using raiseIf_ok.mp hname
        · have hle := raiseIf_ok.mp hsize
          show (Sha256.encodeUtf8 (escapeLabelValue label.2)).length ≤ _
          omega
  obtain ⟨result, hresult, hkey⟩ := except_bind_ok.mp h
  obtain rfl := Except.ok.inj hkey
  intro label hlabel
  exact hmapM hresult label (List.mem_mergeSort.mp hlabel)

/-- A check of labels that passes leaves the names of the labels and nothing else; one that
raises leaves nothing. -/
theorem validateLabelKey_wp {m : Metric} (hdeclared : m.labelNames = none → m.allowedLabels = none)
    (key : LabelValues) :
    (validateLabelKey key).wp
      (fun _ m' => m.Fits key ∧ m' = { m with labelNames := some (key.map Prod.fst) })
      (fun _ m' => m' = m) m := by
  have hallowed : (key.forM fun label => raiseIf ((m.allowedLabels.any fun allowed =>
        ((Dict.get? allowed label.1).getD none).any fun values => label.2 ∉ values) = true)
        (MetricsError.labelValue m.name label.1 label.2)) = .ok () →
      ∀ label ∈ key, m.allows label := by
    intro h label hlabel allowed hsome values hvalues
    have hcheck := raiseIf_ok.mp (forM_ok.mp h label hlabel)
    rw [hsome, Option.any_some, hvalues] at hcheck
    simpa using hcheck
  unfold validateLabelKey
  rw [Command.wp_bind, Command.wp_get]
  by_cases hnames : m.labelNames = none
  · simp only [if_pos hnames, Command.wp_bind, Command.wp_set]
    refine Command.wp_attempt (fun _ h => ⟨⟨?_, hallowed h⟩, rfl⟩) fun e h => ?_
    · intro names hsome
      rw [hnames] at hsome
      cases hsome
    · -- With no names there is no domain either, and the check passes.
      have hpass : (key.forM fun label => raiseIf ((m.allowedLabels.any fun allowed =>
          ((Dict.get? allowed label.1).getD none).any fun values => label.2 ∉ values) = true)
          (MetricsError.labelValue m.name label.1 label.2)) = .ok () := by
        refine forM_ok.mpr fun label _ => raiseIf_ok.mpr ?_
        rw [hdeclared hnames]
        exact Bool.false_ne_true
      rw [hpass] at h
      cases h
  · simp only [if_neg hnames, Command.wp_bind]
    refine Command.wp_attempt (fun _ h => ?_) fun _ _ => rfl
    have hsame : m.labelNames = some (key.map Prod.fst) := not_not.mp (raiseIf_ok.mp h)
    refine Command.wp_attempt (fun _ h => ⟨⟨?_, hallowed h⟩, ?_⟩) fun _ _ => rfl
    · intro names hsome
      exact Option.some.inj (hsome.symm.trans hsame)
    · rw [← hsame]

/-- A write that the family accepts stores the sample or counts it; another changes nothing. -/
theorem writeSample_wp {m : Metric} (hdeclared : m.labelNames = none → m.allowedLabels = none)
    (labels : List (Text × Text)) (value : Double → Double) :
    (writeSample labels value).wp
      (fun _ m' => ∃ key, normaliseLabels labels = .ok key ∧ m.Fits key ∧ m' = m.stored key value)
      (fun _ m' => m' = m) m := by
  unfold writeSample
  rw [Command.wp_bind]
  refine Command.wp_attempt (fun key hkey => ?_) fun _ _ => rfl
  rw [Command.wp_bind]
  refine Command.wp_mono (validateLabelKey_wp hdeclared key) ?_ fun _ _ h => h
  rintro _ m' ⟨hfits, rfl⟩
  rw [Command.wp_bind, Command.wp_modify, Command.wp_bind, Command.wp_get]
  have hstored : ∀ m' : Metric, m' = m.stored key value → ∃ key, normaliseLabels labels = .ok key
      ∧ m.Fits key ∧ m' = m.stored key value :=
    fun m' h => ⟨key, hkey, hfits, h⟩
  by_cases herase : key ≠ [] ∧ m.samples.contains [] = true
  · simp only [if_pos herase]
    split
    · next h =>
      refine hstored _ ?_
      simp only [Metric.stored, if_pos herase, if_pos h]
    · next h =>
      refine hstored _ ?_
      simp only [Metric.stored, if_pos herase, if_neg h]
  · simp only [if_neg herase]
    split
    · next h =>
      refine hstored _ ?_
      simp only [Metric.stored, if_neg herase, if_pos h]
    · next h =>
      refine hstored _ ?_
      simp only [Metric.stored, if_neg herase, if_neg h]

/-! ## A call -/

/-- What a write makes of the value that is there. -/
def MetricKind.next : MetricKind → Double → Amount → Double
  | .counter, current, amount => current.add amount.val
  | .gauge, _, value => .finite value.val

/-- The family that a call writes in, with the labels and the amount. -/
def Call.write? : Call → Option (Text × List (Text × Text) × Amount)
  | .getOrCreate _ _ _ _ _ => none
  | .inc name amount labels => some (name, labels, amount)
  | .setGauge name value labels => some (name, labels, value)

/-- A family that was made and not written in. -/
structure Metric.Fresh (m : Metric) (name : Text) : Prop where
  name : m.name = name
  seriesCap : 0 < m.seriesCap
  labelNames : m.labelNames = m.allowedLabels.map fun allowed => allowed.map Prod.fst
  samples : m.samples = [([], .finite 0)]
  overflowTotal : m.overflowTotal = 0

/-- What a call can do. -/
inductive Registry.Effect (r : Registry) : Call → Except MetricsError Unit × Registry → Prop
  | raised {c : Call} {e : MetricsError} : r.Effect c (.error e, r)
  | found {c : Call} (hwrite : c.write? = none) : r.Effect c (.ok (), r)
  | created {c : Call} {name : Text} {m : Metric} (hwrite : c.write? = none)
      (hnew : r.metrics.get? name = none) (hname : Exposition.isMetricName name = true)
      (hreserved : name ≠ seriesOverflowMetric) (hfresh : m.Fresh name) :
      r.Effect c (.ok (), { r with metrics := r.metrics.set name m })
  | wrote {c : Call} {name : Text} {labels : List (Text × Text)} {amount : Amount}
      {key : LabelValues} {m : Metric} (hwrite : c.write? = some (name, labels, amount))
      (hget : r.metrics.get? name = some m) (hkey : normaliseLabels labels = .ok key)
      (hfits : m.Fits key) (hsign : m.kind = .counter → 0 ≤ amount.val) :
      r.Effect c (.ok (),
        { r with metrics := r.metrics.set name (m.stored key (m.kind.next · amount)) })

theorem newMetric_fresh {kind : MetricKind} {name helpText : Text}
    {allowed : Option (List (Text × Option (List Text)))} {seriesCap : Int} {m : Metric}
    (h : newMetric kind name helpText allowed seriesCap = .ok m) : m.Fresh name := by
  obtain ⟨_, h⟩ := check_bind_ok.mp h
  obtain ⟨cap, hcap, h⟩ := except_bind_ok.mp h
  obtain ⟨allowedLabels, _, h⟩ := except_bind_ok.mp h
  obtain rfl := Except.ok.inj h
  obtain ⟨hpositive, hcap⟩ := check_bind_ok.mp hcap
  obtain rfl := Except.ok.inj hcap
  have hpositive := raiseIf_ok.mp hpositive
  exact ⟨rfl, show 0 < seriesCap.toNat by omega, rfl, rfl, rfl⟩

theorem getOrCreate_effect {r r' : Registry} {kind : MetricKind} {name helpText : Text}
    {allowed : Option (List (Text × Option (List Text)))} {seriesCap : Option Int}
    (h : r.getOrCreate kind name helpText allowed seriesCap = .ok r') :
    r' = r ∨ ∃ m : Metric, r.metrics.get? name = none ∧ Exposition.isMetricName name = true
      ∧ name ≠ seriesOverflowMetric ∧ m.Fresh name
      ∧ r' = { r with metrics := r.metrics.set name m } := by
  obtain ⟨hname, h⟩ := check_bind_ok.mp h
  obtain ⟨hreserved, h⟩ := check_bind_ok.mp h
  obtain ⟨normalised, _, h⟩ := except_bind_ok.mp h
  cases hget : r.metrics.get? name with
  | none =>
      simp only [hget] at h
      have hnew : ∃ validated : Nat, (newMetric kind name helpText allowed validated >>= fun m =>
          pure { r with metrics := r.metrics.set name m }) = .ok r' := by
        cases seriesCap with
        | none => exact ⟨r.defaultSeriesCap, h⟩
        | some cap =>
            obtain ⟨validated, _, h⟩ := except_bind_ok.mp h
            exact ⟨validated, h⟩
      obtain ⟨validated, h⟩ := hnew
      obtain ⟨m, hm, h⟩ := except_bind_ok.mp h
      refine .inr ⟨m, rfl, ?_, raiseIf_ok.mp hreserved, newMetric_fresh hm, (Except.ok.inj h).symm⟩
      simpa using raiseIf_ok.mp hname
  | some m =>
      simp only [hget] at h
      refine .inl ?_
      cases seriesCap with
      | none =>
          obtain ⟨_, h⟩ := check_bind_ok.mp h
          obtain ⟨_, h⟩ := check_bind_ok.mp h
          obtain ⟨_, h⟩ := check_bind_ok.mp h
          obtain ⟨_, h⟩ := check_bind_ok.mp h
          exact (Except.ok.inj h).symm
      | some cap =>
          obtain ⟨_, _, h⟩ := except_bind_ok.mp h
          obtain ⟨_, h⟩ := check_bind_ok.mp h
          obtain ⟨_, h⟩ := check_bind_ok.mp h
          obtain ⟨_, h⟩ := check_bind_ok.mp h
          obtain ⟨_, h⟩ := check_bind_ok.mp h
          exact (Except.ok.inj h).symm

/-- A write through the registry, of a method that keeps to `writeSample_wp`. -/
theorem write_effect {r : Registry} {c : Call} {kind : MetricKind} {name : Text}
    {labels : List (Text × Text)} {amount : Amount} {write : MetricCommand Unit}
    (hcall : r.call c = r.write kind name write) (hwrite : c.write? = some (name, labels, amount))
    (hwp : ∀ m : Metric, r.metrics.get? name = some m → m.kind = kind →
      write.wp (fun _ m' => (m.kind = .counter → 0 ≤ amount.val) ∧
          ∃ key, normaliseLabels labels = .ok key ∧ m.Fits key
            ∧ m' = m.stored key (m.kind.next · amount))
        (fun _ m' => m' = m) m) : r.Effect c (r.call c) := by
  rw [hcall, Registry.write]
  cases hget : r.metrics.get? name with
  | none => exact .raised
  | some m =>
      show r.Effect c (if m.kind = kind then _ else _)
      split
      · next hkind =>
        have hm := hwp m hget hkind
        unfold Command.wp at hm
        split at hm
        · next m' hexec =>
          obtain ⟨hsign, key, hkey, hfits, rfl⟩ := hm
          rw [hexec]
          exact .wrote hwrite hget hkey hfits hsign
        · next e m' hexec =>
          subst hm
          rw [hexec]
          show r.Effect c (.error e, { r with metrics := r.metrics.set name m' })
          rw [Dict.set_self hget]
          exact .raised
      · exact .raised

theorem call_effect {r : Registry}
    (hdeclared : ∀ name m, r.metrics.get? name = some m → m.labelNames = none → m.allowedLabels = none)
    (c : Call) : r.Effect c (r.call c) := by
  cases c with
  | getOrCreate kind name helpText allowed seriesCap =>
      rw [Registry.call]
      split
      · next r' h =>
        rcases getOrCreate_effect h with rfl | ⟨m, hnew, hname, hreserved, hfresh, rfl⟩
        · exact .found rfl
        · exact .created rfl hnew hname hreserved hfresh
      · exact .raised
  | inc name amount labels =>
      have hcall : r.call (.inc name amount labels) = r.write .counter name (inc amount labels) := rfl
      refine write_effect hcall rfl fun m hget hkind => ?_
      unfold inc
      rw [Command.wp_bind]
      refine Command.wp_attempt (fun _ hsign => ?_) fun _ _ => rfl
      have hsign : 0 ≤ amount.val := Int.not_lt.mp (raiseIf_ok.mp hsign)
      refine Command.wp_mono (writeSample_wp (hdeclared name m hget) labels _) ?_ fun _ _ h => h
      rintro _ m' ⟨key, hkey, hfits, rfl⟩
      refine ⟨fun _ => hsign, key, hkey, hfits, ?_⟩
      rw [hkind]
      rfl
  | setGauge name value labels =>
      have hcall : r.call (.setGauge name value labels)
          = r.write .gauge name (setGauge value labels) := rfl
      refine write_effect hcall rfl fun m hget hkind => ?_
      unfold setGauge
      refine Command.wp_mono (writeSample_wp (hdeclared name m hget) labels _) ?_ fun _ _ h => h
      rintro _ m' ⟨key, hkey, hfits, rfl⟩
      refine ⟨fun hcounter => ?_, key, hkey, hfits, ?_⟩
      · rw [hkind] at hcounter
        cases hcounter
      · rw [hkind]
        rfl

/-! ## The writes of a family -/

/-- The write that a call made in a family, or that the family dropped. -/
def writeOf (name : Text) (x : Transition Registry Call) : Option (LabelValues × Amount) :=
  if (x.pre.call x.event).1.isOk then
    x.event.write?.bind fun write =>
      if write.1 = name then (normaliseLabels write.2.1).toOption.map fun key => (key, write.2.2)
      else none
  else none

/-- The writes that a family accepted in a run. -/
def writesOf (name : Text) (tr : List (Transition Registry Call)) : List (LabelValues × Amount) :=
  tr.filterMap (writeOf name)

/-- The label sets that a family has room for. -/
def keptKeys (seriesCap : Nat) (writes : List (LabelValues × Amount)) : List LabelValues :=
  firstSeen seriesCap (writes.map Prod.fst)

/-- What its own writes make of a series. -/
def MetricKind.total (kind : MetricKind) (key : LabelValues) (writes : List (LabelValues × Amount)) :
    Double :=
  (writes.filter fun w => w.1 = key).foldl (fun current w => kind.next current w.2) (.finite 0)

/-- The family is what its writes make of it. -/
structure Metric.Records (m : Metric) (writes : List (LabelValues × Amount)) : Prop where
  seriesCap : 0 < m.seriesCap
  labelNames : m.labelNames = (m.allowedLabels.map fun allowed => allowed.map Prod.fst).or
    (writes.head?.map fun w => w.1.map Prod.fst)
  samples : m.samples = if writes = [] then [([], .finite 0)]
    else tableOf (keptKeys m.seriesCap writes) fun key => m.kind.total key writes
  overflowTotal : m.overflowTotal = writes.countP fun w => w.1 ∉ keptKeys m.seriesCap writes
  fits : ∀ w ∈ writes, m.labelNames = some (w.1.map Prod.fst)
    ∧ ∀ label ∈ w.1, ValidLabel label ∧ m.allows label
  signs : m.kind = .counter → ∀ w ∈ writes, 0 ≤ w.2.val

theorem total_concat (kind : MetricKind) (key : LabelValues) (writes : List (LabelValues × Amount))
    (w : LabelValues × Amount) :
    kind.total key (writes ++ [w])
      = if key = w.1 then kind.next (kind.total key writes) w.2 else kind.total key writes := by
  unfold MetricKind.total
  rw [List.filter_append, List.foldl_append]
  by_cases h : key = w.1
  · simp [h]
  · simp [h, Ne.symm h]

theorem total_of_not_mem {kind : MetricKind} {key : LabelValues}
    {writes : List (LabelValues × Amount)} (h : key ∉ writes.map Prod.fst) :
    kind.total key writes = .finite 0 := by
  have hnone : writes.filter (fun w => w.1 = key) = [] := by
    rw [List.filter_eq_nil_iff]
    intro w hw heq
    exact h (List.mem_map.mpr ⟨w, hw, of_decide_eq_true heq⟩)
  rw [MetricKind.total, hnone]
  rfl

theorem Metric.Fresh.records {m : Metric} {name : Text} (h : m.Fresh name) : m.Records [] where
  seriesCap := h.seriesCap
  labelNames := by
    rw [h.labelNames]
    simp
  samples := h.samples
  overflowTotal := h.overflowTotal
  fits := by simp
  signs := by simp

theorem Metric.Records.mem_keptKeys {m : Metric} {writes : List (LabelValues × Amount)}
    (h : m.Records writes) {key other : LabelValues} (hfits : m.Fits key)
    (hmem : other ∈ keptKeys m.seriesCap writes) : other.map Prod.fst = key.map Prod.fst := by
  obtain ⟨w, hw, rfl⟩ := List.mem_map.mp (mem_of_mem_firstSeen hmem)
  exact hfits.labelNames _ (h.fits w hw).1

/-- What is there when a write stores its sample: the series that are kept, or the sample
that stands for none where the write has no labels. -/
theorem erased_samples {m : Metric} {writes : List (LabelValues × Amount)} (h : m.Records writes)
    {key : LabelValues} (hfits : m.Fits key) {samples : Dict LabelValues Double}
    (hsamples : samples = if key ≠ [] ∧ m.samples.contains [] then m.samples.erase [] else m.samples) :
    samples = tableOf (keptKeys m.seriesCap writes) (fun k => m.kind.total k writes)
      ∨ (writes = [] ∧ key = [] ∧ samples = [([], .finite 0)]) := by
  have hstored := h.samples
  by_cases hempty : writes = []
  · subst hempty
    rw [if_pos rfl] at hstored
    rw [hstored] at hsamples
    by_cases hkey : key = []
    · rw [if_neg (by simp [hkey])] at hsamples
      exact .inr ⟨rfl, hkey, hsamples⟩
    · rw [if_pos ⟨hkey, by decide⟩] at hsamples
      refine .inl ?_
      rw [hsamples, keptKeys, List.map_nil, firstSeen_nil]
      rfl
  · rw [if_neg hempty] at hstored
    refine .inl ?_
    rw [hsamples, if_neg, hstored]
    rintro ⟨hkey, hcontains⟩
    rw [hstored, contains_tableOf] at hcontains
    have hnames := h.mem_keptKeys hfits hcontains
    exact hkey (List.map_eq_nil_iff.mp hnames.symm)

/-- The samples after a write. -/
theorem stored_samples {m : Metric} {writes : List (LabelValues × Amount)} (h : m.Records writes)
    {key : LabelValues} (hfits : m.Fits key) (amount : Amount) :
    (m.stored key (m.kind.next · amount)).samples
        = tableOf (keptKeys m.seriesCap (writes ++ [(key, amount)])) (fun k =>
          m.kind.total k (writes ++ [(key, amount)]))
      ∧ (m.stored key (m.kind.next · amount)).overflowTotal
        = (writes ++ [(key, amount)]).countP fun w =>
          w.1 ∉ keptKeys m.seriesCap (writes ++ [(key, amount)]) := by
  have hkept : keptKeys m.seriesCap (writes ++ [(key, amount)])
      = firstSeen m.seriesCap (writes.map Prod.fst ++ [key]) := by
    rw [keptKeys, List.map_append, List.map_singleton]
  have hcap := h.seriesCap
  unfold Metric.stored
  generalize hsamples : (if key ≠ [] ∧ m.samples.contains [] then m.samples.erase [] else m.samples)
    = samples
  rcases erased_samples h hfits hsamples.symm with htable | ⟨hempty, hkey, htable⟩
  · have hcontains : samples.contains key = true ↔ key ∈ keptKeys m.seriesCap writes := by
      rw [htable, contains_tableOf]
    have hlength : samples.length = (keptKeys m.seriesCap writes).length := by
      rw [htable, tableOf, List.length_map]
    by_cases hin : key ∈ keptKeys m.seriesCap writes
    · -- The series is there: its value is replaced.
      have hsame : keptKeys m.seriesCap (writes ++ [(key, amount)]) = keptKeys m.seriesCap writes :=
        hkept.trans (firstSeen_concat_same (.inl hin))
      simp only [hcontains.mpr hin, Bool.true_eq_false, false_and, if_false]
      rw [hsame]
      refine ⟨?_, ?_⟩
      · rw [htable, set_tableOf hin (nodup_firstSeen _ _), get?_tableOf, if_pos hin, Option.getD_some]
        refine tableOf_congr fun k _ => ?_
        rw [total_concat]
        by_cases hk : k = key
        · rw [if_pos hk, if_pos hk, hk]
        · rw [if_neg hk, if_neg hk]
      · rw [List.countP_append, ← h.overflowTotal]
        simp [hin]
    by_cases hroom : (keptKeys m.seriesCap writes).length < m.seriesCap
    · -- There is room for one series more.
      obtain ⟨hnew, hgrown⟩ := firstSeen_concat_new hin hroom
      change _ = keptKeys m.seriesCap writes ++ [key] at hgrown
      rw [← hkept] at hgrown
      simp only [hlength, Nat.not_le.mpr hroom, and_false, if_false]
      rw [hgrown]
      refine ⟨?_, ?_⟩
      · rw [htable, set_tableOf_new hin, get?_tableOf, if_neg hin, Option.getD_none]
        refine tableOf_congr fun k _ => ?_
        rw [total_concat]
        by_cases hk : k = key
        · rw [if_pos hk, if_pos hk, hk, total_of_not_mem hnew]
        · rw [if_neg hk, if_neg hk]
      · rw [List.countP_append, h.overflowTotal]
        have hold : writes.countP (fun w => w.1 ∉ keptKeys m.seriesCap writes)
            = writes.countP fun w => w.1 ∉ keptKeys m.seriesCap writes ++ [key] := by
          refine List.countP_congr fun w hw => ?_
          have hother : w.1 ≠ key := fun heq => hnew (List.mem_map.mpr ⟨w, hw, heq⟩)
          simp [hother]
        rw [hold]
        simp
    · -- The family is full: the write is counted.
      have hfull : m.seriesCap ≤ (keptKeys m.seriesCap writes).length := Nat.not_lt.mp hroom
      have hsame : keptKeys m.seriesCap (writes ++ [(key, amount)]) = keptKeys m.seriesCap writes :=
        hkept.trans (firstSeen_concat_same (.inr hfull))
      have hnot : samples.contains key = false := Bool.eq_false_iff.mpr fun h => hin (hcontains.mp h)
      simp only [hnot, hlength, hfull, and_self, if_true]
      rw [hsame]
      refine ⟨?_, ?_⟩
      · rw [htable]
        refine tableOf_congr fun k hk => ?_
        rw [total_concat, if_neg (ne_of_mem_of_not_mem hk hin)]
      · rw [List.countP_append, h.overflowTotal]
        simp [hin]
  · -- The first write of a family without labels.
    subst hempty hkey htable
    have hone : keptKeys m.seriesCap ([] ++ [([], amount)]) = [[]] := by
      have hnone : firstSeen m.seriesCap ([] : List LabelValues) = [] := firstSeen_nil _
      have hgrown := @firstSeen_concat_new LabelValues _ m.seriesCap [] [] (by simp) (by simpa using hcap)
      rw [hkept, List.map_nil, hgrown.2, hnone]
      rfl
    have hover : m.overflowTotal = 0 := h.overflowTotal
    rw [hone]
    refine ⟨rfl, ?_⟩
    show m.overflowTotal = _
    rw [hover]
    rfl

theorem Metric.Records.stored {m : Metric} {writes : List (LabelValues × Amount)}
    (h : m.Records writes) {key : LabelValues} (hfits : m.Fits key)
    (hvalid : ∀ label ∈ key, ValidLabel label) {amount : Amount}
    (hsign : m.kind = .counter → 0 ≤ amount.val) :
    (m.stored key (m.kind.next · amount)).Records (writes ++ [(key, amount)]) := by
  obtain ⟨_, hkind, hcap, hallowed, hnames⟩ := m.stored_frame key (m.kind.next · amount)
  obtain ⟨hsamples, hover⟩ := stored_samples h hfits amount
  refine ⟨?_, ?_, ?_, ?_, ?_, ?_⟩
  · rw [hcap]
    exact h.seriesCap
  · rw [hnames, hallowed]
    -- The names were declared or come from the first write, and `key` has them.
    cases hdeclared : m.labelNames with
    | none =>
        have hnone := h.labelNames
        rw [hdeclared] at hnone
        obtain ⟨hallowed, hwrites⟩ := Option.or_eq_none_iff.mp hnone.symm
        rw [Option.map_eq_none_iff, List.head?_eq_none_iff] at hwrites
        rw [hallowed, hwrites]
        rfl
    | some names =>
        have hsome := h.labelNames
        rw [hdeclared, hfits.labelNames names hdeclared] at hsome
        cases writes with
        | nil =>
            rw [List.head?_nil, Option.map_none, Option.or_none] at hsome
            rw [← hsome]
            rfl
        | cons w writes => exact hsome
  · rw [hsamples, hcap, hkind, if_neg (by simp)]
  · rw [hover, hcap]
  · rw [hnames]
    intro w hw
    have hallows : ∀ label, m.allows label → (m.stored key (m.kind.next · amount)).allows label := by
      intro label hlabel
      rw [Metric.allows, hallowed]
      exact hlabel
    rcases List.mem_append.mp hw with hw | hw
    · obtain ⟨hsome, hlabels⟩ := h.fits w hw
      rw [hfits.labelNames _ hsome]
      exact ⟨rfl, fun label hlabel => ⟨(hlabels label hlabel).1, hallows _ (hlabels label hlabel).2⟩⟩
    · rw [List.mem_singleton.mp hw]
      exact ⟨rfl, fun label hlabel => ⟨hvalid label hlabel, hallows _ (hfits.allows label hlabel)⟩⟩
  · rw [hkind]
    intro hcounter w hw
    rcases List.mem_append.mp hw with hw | hw
    · exact h.signs hcounter w hw
    · rw [List.mem_singleton.mp hw]
      exact hsign hcounter

/-! ## The registry of a run -/

/-- Every family of the registry is what its writes in the run make of it. -/
structure Registry.Accounts (r : Registry) (tr : List (Transition Registry Call)) : Prop where
  nodup : (r.metrics.map Prod.fst).Nodup
  named : ∀ name m, r.metrics.get? name = some m →
    m.name = name ∧ Exposition.isMetricName name = true ∧ name ≠ seriesOverflowMetric
  records : ∀ name m, r.metrics.get? name = some m → m.Records (writesOf name tr)
  unwritten : ∀ name, r.metrics.get? name = none → writesOf name tr = []

theorem Registry.Accounts.declared {r : Registry} {tr : List (Transition Registry Call)}
    (h : r.Accounts tr) (name : Text) (m : Metric) (hget : r.metrics.get? name = some m)
    (hnames : m.labelNames = none) : m.allowedLabels = none := by
  have hor := (h.records name m hget).labelNames
  rw [hnames] at hor
  simpa using (Option.or_eq_none_iff.mp hor.symm).1

theorem writesOf_concat (name : Text) (tr : List (Transition Registry Call))
    (x : Transition Registry Call) :
    writesOf name (tr ++ [x]) = writesOf name tr ++ (writeOf name x).toList := by
  unfold writesOf
  rw [List.filterMap_append]
  cases h : writeOf name x <;> simp [h]

theorem Registry.Accounts.congr {r : Registry} {tr tr' : List (Transition Registry Call)}
    (h : r.Accounts tr) (hwrites : ∀ name, writesOf name tr' = writesOf name tr) : r.Accounts tr' where
  nodup := h.nodup
  named := h.named
  records name m hget := by
    rw [hwrites]
    exact h.records name m hget
  unwritten name hget := by
    rw [hwrites]
    exact h.unwritten name hget

/-- One family is put in or replaced, and the others have no new writes. -/
theorem Registry.Accounts.set {r : Registry} {tr tr' : List (Transition Registry Call)}
    (h : r.Accounts tr) {name : Text} {m : Metric} (hname : m.name = name
      ∧ Exposition.isMetricName name = true ∧ name ≠ seriesOverflowMetric)
    (hrecords : m.Records (writesOf name tr'))
    (hothers : ∀ other, other ≠ name → writesOf other tr' = writesOf other tr) :
    ({ r with metrics := r.metrics.set name m } : Registry).Accounts tr' where
  nodup := Dict.nodup_set h.nodup _ _
  named other m' hget := by
    rw [Dict.get?_set] at hget
    split at hget
    · next heq =>
      obtain rfl := Option.some.inj hget
      exact heq ▸ hname
    · exact h.named other m' hget
  records other m' hget := by
    rw [Dict.get?_set] at hget
    split at hget
    · next heq =>
      obtain rfl := Option.some.inj hget
      exact heq ▸ hrecords
    · next hne =>
      rw [hothers other (Ne.symm hne)]
      exact h.records other m' hget
  unwritten other hget := by
    rw [Dict.get?_set] at hget
    split at hget
    · cases hget
    · next hne =>
      rw [hothers other (Ne.symm hne)]
      exact h.unwritten other hget

/-- A call keeps the accounts. -/
theorem Registry.Accounts.step {r : Registry} {tr : List (Transition Registry Call)}
    (h : r.Accounts tr) (c : Call) :
    (r.call c).2.Accounts (tr ++ [⟨r, c, (r.call c).2⟩]) := by
  have heffect := call_effect h.declared c
  have hconcat := fun name => writesOf_concat name tr ⟨r, c, (r.call c).2⟩
  simp only [writeOf] at hconcat
  generalize r.call c = res at heffect hconcat ⊢
  cases heffect with
  | raised => exact h.congr fun name => (hconcat name).trans (List.append_nil _)
  | found hnone =>
      refine h.congr fun name => ?_
      rw [hconcat, hnone]
      exact List.append_nil _
  | @created name m hnone hnew hname hreserved hfresh =>
      simp only [hnone, Option.bind_none, ite_self, Option.toList_none, List.append_nil] at hconcat
      refine h.set ⟨hfresh.name, hname, hreserved⟩ ?_ fun other _ => hconcat other
      rw [hconcat, h.unwritten name hnew]
      exact hfresh.records
  | @wrote name labels amount key m hsome hget hkey hfits hsign =>
      refine h.set ?_ ?_ ?_
      · obtain ⟨hname, hrest⟩ := h.named name m hget
        exact ⟨(m.stored_frame key _).1.trans hname, hrest⟩
      · rw [hconcat, hsome]
        simp only [Except.isOk, Except.toBool, if_true, Option.bind_some, hkey, Except.toOption,
          Option.map_some, Option.toList_some]
        exact (h.records name m hget).stored hfits (normaliseLabels_ok hkey) hsign
      · intro other hother
        rw [hconcat, hsome]
        simp only [Except.isOk, Except.toBool, if_true, Option.bind_some, if_neg (Ne.symm hother),
          Option.toList_none, List.append_nil]

/-- The registry of a run. -/
theorem accounts_of_run {seriesCap : Int} {r₀ r : Registry} {tr : List (Transition Registry Call)}
    (hnew : newRegistry seriesCap = .ok r₀) (hrun : Run Registry.step r₀ tr r) : r.Accounts tr := by
  obtain ⟨cap, _, hnew⟩ := except_bind_ok.mp hnew
  obtain rfl := Except.ok.inj hnew
  refine hrun.invariant_of (fun tr r => r.Accounts tr) (fun _ _ => True) ?_ ?_ fun _ _ => trivial
  · exact ⟨List.nodup_nil, by simp, by simp, fun _ _ => rfl⟩
  · intro tr t c u ht _ hstep
    obtain rfl := Option.some.inj hstep
    exact ht.step c

theorem normaliseLabels_nil : normaliseLabels [] = .ok [] := by
  have hsort : sortedByName ([] : List (Text × Text)) = [] := List.mergeSort_nil
  show Except.ok (sortedByName ([] : List (Text × Text))) = _
  rw [hsort]

/-- A registry with one counter, which was written once. -/
def jobsRegistry : Registry where
  defaultSeriesCap := 1
  metrics := [("jobs".toList,
    { kind := .counter, name := "jobs".toList, helpText := "Jobs taken.".toList, seriesCap := 1,
      allowedLabels := none, labelNames := some [], samples := [([], .finite 2)] })]

theorem jobs_reached : Reachable Registry.step { defaultSeriesCap := 1 } jobsRegistry := by
  have hcreated : Registry.step { defaultSeriesCap := 1 }
      (.getOrCreate .counter "jobs".toList "Jobs taken.".toList none none)
      = some { defaultSeriesCap := 1, metrics := [("jobs".toList,
          { kind := .counter, name := "jobs".toList, helpText := "Jobs taken.".toList, seriesCap := 1,
            allowedLabels := none, labelNames := none })] } := by
    decide
  refine (Reachable.refl.tail hcreated).tail (e := .inc "jobs".toList ⟨2, by decide⟩ []) ?_
  unfold Registry.step Registry.call inc writeSample
  simp only [normaliseLabels_nil]
  rfl

theorem newRegistry_one : newRegistry 1 = .ok { defaultSeriesCap := 1 } := rfl

theorem jobs_get : jobsRegistry.metrics.get? "jobs".toList = some
    { kind := .counter, name := "jobs".toList, helpText := "Jobs taken.".toList, seriesCap := 1,
      allowedLabels := none, labelNames := some [], samples := [([], .finite 2)] } := rfl

/-! ## What is stored -/

/-- A label set of a series is that of a write, or the one that stands for no series. -/
theorem Metric.Records.mem_samples {m : Metric} {writes : List (LabelValues × Amount)}
    (h : m.Records writes) {sample : LabelValues × Double} (hsample : sample ∈ m.samples) :
    (writes = [] ∧ sample = ([], .finite 0)) ∨
      ((∃ w ∈ writes, w.1 = sample.1) ∧ sample.2 = m.kind.total sample.1 writes) := by
  rw [h.samples] at hsample
  split at hsample
  · next hempty => exact .inl ⟨hempty, List.mem_singleton.mp hsample⟩
  · obtain ⟨key, hkey, rfl⟩ := List.mem_map.mp hsample
    obtain ⟨w, hw, hwkey⟩ := List.mem_map.mp (mem_of_mem_firstSeen hkey)
    exact .inr ⟨⟨w, hw, hwkey⟩, rfl⟩

theorem Registry.Accounts.wellFormed {r : Registry} {tr : List (Transition Registry Call)}
    (h : r.Accounts tr) : WellFormed r where
  nodup := h.nodup
  named item hitem := (h.named item.1 item.2 (Dict.get?_of_mem h.nodup hitem)).1
  names item hitem := (h.named item.1 item.2 (Dict.get?_of_mem h.nodup hitem)).2
  labels item hitem sample hsample label hlabel := by
    have hrecords := h.records item.1 item.2 (Dict.get?_of_mem h.nodup hitem)
    rcases hrecords.mem_samples hsample with ⟨_, rfl⟩ | ⟨⟨w, hw, hwkey⟩, _⟩
    · cases hlabel
    · rw [← hwkey] at hlabel
      exact ((hrecords.fits w hw).2 label hlabel).1.1

/-- The text is missing only where a count is too big for a double. -/
theorem renderPrometheus_isOk {r : Registry} :
    (∃ text, r.renderPrometheus = .ok text)
      ↔ ∀ m ∈ r.sorted, Double.nearest m.overflowTotal ≠ .infinite false := by
  constructor
  · rintro ⟨text, htext⟩ m hm hinfinite
    obtain ⟨totals, htotals, _⟩ := except_bind_ok.mp htext
    have hzero : m.overflowTotal ≠ 0 := by
      intro h
      rw [h] at hinfinite
      revert hinfinite
      decide
    have hmem : (m.name, m.overflowTotal) ∈ sortedByName r.overflows := by
      refine List.mem_mergeSort.mpr (List.mem_map.mpr ⟨m, ?_, rfl⟩)
      exact List.mem_filter.mpr ⟨hm, decide_eq_true hzero⟩
    obtain ⟨line, hline⟩ := mapM_isOk.mp ⟨totals, htotals⟩ _ hmem
    obtain ⟨total, htotal, _⟩ := except_bind_ok.mp hline
    exact raiseIf_ok.mp (check_bind_ok.mp htotal).1 hinfinite
  · intro h
    exact ⟨_, renderPrometheus_eq h⟩

theorem map_eq_self {α : Type} {f : α → α} {l : List α} : l.map f = l ↔ ∀ a ∈ l, f a = a := by
  have h := @List.map_inj_left _ _ l f id
  rwa [List.map_id] at h

theorem shown_eq_self {family : Exposition.Family} :
    shown family = family ↔ (∀ help, family.help = some help → Exposition.trim help = help)
      ∧ ∀ sample ∈ family.samples, sample.value.IsShort := by
  have hparts : shown family = family ↔ family.help.map Exposition.trim = family.help
      ∧ family.samples.map (fun sample => { sample with value := sample.value.written })
        = family.samples := by
    cases family
    simp [shown]
  have hsample : ∀ sample : Exposition.Sample,
      ({ sample with value := sample.value.written } : Exposition.Sample) = sample
        ↔ sample.value.IsShort := by
    intro sample
    cases sample
    simp [Double.IsShort]
  rw [hparts, map_eq_self]
  simp only [hsample]
  refine and_congr_left fun _ => ?_
  cases family.help with
  | none => simp
  | some help => simp

theorem mem_sorted_iff {r : Registry} (hnodup : (r.metrics.map Prod.fst).Nodup) {m : Metric} :
    m ∈ r.sorted ↔ ∃ name, r.metrics.get? name = some m := by
  constructor
  · intro h
    obtain ⟨name, hmem⟩ := mem_sorted h
    exact ⟨name, Dict.get?_of_mem hnodup hmem⟩
  · rintro ⟨name, hget⟩
    exact List.mem_map.mpr ⟨(name, m), List.mem_mergeSort.mpr (Dict.mem_of_get? hget), rfl⟩

theorem shown_family {m : Metric} : shown m.family = m.family
    ↔ Exposition.trim m.helpText = m.helpText ∧ ∀ sample ∈ m.samples, sample.2.IsShort := by
  rw [shown_eq_self]
  refine and_congr ?_ ?_
  · by_cases hhelp : m.helpText = []
    · simp only [Metric.family, hhelp, if_true]
      exact ⟨fun _ => rfl, fun _ => by simp⟩
    · simp [Metric.family, hhelp]
  · simp only [Metric.family, List.forall_mem_map, sortedSamples, List.mem_mergeSort]

theorem seriesOverflowHelp_trimmed : Exposition.trim seriesOverflowHelp = seriesOverflowHelp := by
  decide

theorem shown_overflowFamily {overflows : List (Text × Nat)} :
    shown (overflowFamily overflows) = overflowFamily overflows
      ↔ ∀ overflow ∈ overflows, (Double.nearest overflow.2).IsShort := by
  rw [shown_eq_self]
  simp only [overflowFamily, Option.some.injEq, forall_eq', seriesOverflowHelp_trimmed, true_and,
    List.forall_mem_map, sortedByName, List.mem_mergeSort]

/-- A family never has more series than it may, and all of them have its labels. A write
is dropped only where the family is full. -/
theorem family_bounds {seriesCap : Int} {r₀ r : Registry} {tr : List (Transition Registry Call)}
    (hnew : newRegistry seriesCap = .ok r₀) (hrun : Run Registry.step r₀ tr r) {name : Text}
    {m : Metric} (hget : r.metrics.get? name = some m) :
    m.samples.length ≤ m.seriesCap ∧ (m.samples.map Prod.fst).Nodup
      ∧ (m.overflowTotal ≠ 0 → m.samples.length = m.seriesCap)
      ∧ (∀ sample ∈ m.samples, ∀ label ∈ sample.1, ValidLabel label ∧ m.allows label)
      ∧ (m.samples = [([], .finite 0)]
        ∨ ∀ sample ∈ m.samples, m.labelNames = some (sample.1.map Prod.fst)) := by
  have h := (accounts_of_run hnew hrun).records name m hget
  have hcap := h.seriesCap
  have hlabels : ∀ sample ∈ m.samples, ∀ label ∈ sample.1, ValidLabel label ∧ m.allows label := by
    intro sample hsample label hlabel
    rcases h.mem_samples hsample with ⟨_, rfl⟩ | ⟨⟨w, hw, hkey⟩, _⟩
    · cases hlabel
    · rw [← hkey] at hlabel
      exact (h.fits w hw).2 label hlabel
  have hnames : m.samples = [([], .finite 0)]
      ∨ ∀ sample ∈ m.samples, m.labelNames = some (sample.1.map Prod.fst) := by
    by_cases hempty : writesOf name tr = []
    · refine .inl ?_
      rw [h.samples, if_pos hempty]
    · refine .inr fun sample hsample => ?_
      rcases h.mem_samples hsample with ⟨hnone, _⟩ | ⟨⟨w, hw, hkey⟩, _⟩
      · exact absurd hnone hempty
      · rw [← hkey]
        exact (h.fits w hw).1
  have hover := h.overflowTotal
  by_cases hempty : writesOf name tr = []
  · have hsamples : m.samples = [([], .finite 0)] := by rw [h.samples, if_pos hempty]
    rw [hempty, List.countP_nil] at hover
    refine ⟨?_, ?_, fun hne => absurd hover hne, hlabels, hnames⟩
    · rw [hsamples]
      exact hcap
    · rw [hsamples]
      exact List.nodup_singleton _
  · have hkeys : m.samples.map Prod.fst = keptKeys m.seriesCap (writesOf name tr) := by
      rw [h.samples, if_neg hempty, tableOf, List.map_map]
      exact List.map_id _
    have hlength : m.samples.length = (keptKeys m.seriesCap (writesOf name tr)).length := by
      rw [← hkeys, List.length_map]
    refine ⟨?_, ?_, fun hne => ?_, hlabels, hnames⟩
    · rw [hlength]
      exact length_firstSeen_le _ _
    · rw [hkeys]
      exact nodup_firstSeen _ _
    · rw [hover] at hne
      obtain ⟨w, hw, hout⟩ := List.countP_pos_iff.mp (Nat.pos_of_ne_zero hne)
      rw [hlength]
      exact firstSeen_full (List.mem_map.mpr ⟨w, hw, rfl⟩) (of_decide_eq_true hout)

theorem family_bounds_of_jobs : [(([] : LabelValues), Double.finite 2)].length ≤ 1
    ∧ ([(([] : LabelValues), Double.finite 2)].map Prod.fst).Nodup := by
  obtain ⟨tr, hrun⟩ := jobs_reached
  obtain ⟨hcap, hnodup, _⟩ := family_bounds newRegistry_one hrun jobs_get
  exact ⟨hcap, hnodup⟩

/-! ## Totals -/

theorem next_isTotal {kind : MetricKind} (hkind : kind = .counter) {x : Double} (hx : x.IsTotal)
    {amount : Amount} (hsign : 0 ≤ amount.val) :
    (kind.next x amount).IsTotal ∧ Double.lt (kind.next x amount) x = false := by
  subst hkind
  exact hx.add hsign

/-- What a counter adds up to. -/
theorem total_isTotal {kind : MetricKind} (hkind : kind = .counter) (key : LabelValues)
    {writes : List (LabelValues × Amount)} (hsigns : ∀ w ∈ writes, 0 ≤ w.2.val) :
    (kind.total key writes).IsTotal := by
  induction writes using List.reverseRecOn with
  | nil => exact Double.isTotal_zero
  | append_singleton writes w ih =>
      have hlast := hsigns w (List.mem_append_right _ (List.mem_singleton_self w))
      have hbefore := ih fun v hv => hsigns v (List.mem_append_left _ hv)
      rw [total_concat]
      split
      · exact (next_isTotal hkind hbefore hlast).1
      · exact hbefore

/-- Later writes make it no smaller. -/
theorem total_append {kind : MetricKind} (hkind : kind = .counter) (key : LabelValues)
    {writes more : List (LabelValues × Amount)} (hsigns : ∀ w ∈ writes ++ more, 0 ≤ w.2.val) :
    Double.lt (kind.total key (writes ++ more)) (kind.total key writes) = false := by
  induction more using List.reverseRecOn with
  | nil =>
      rw [List.append_nil]
      exact Double.lt_self _
  | append_singleton more w ih =>
      rw [← List.append_assoc] at hsigns ⊢
      have hbefore : ∀ v ∈ writes ++ more, 0 ≤ v.2.val := fun v hv =>
        hsigns v (List.mem_append_left _ hv)
      have hlast := hsigns w (List.mem_append_right _ (List.mem_singleton_self w))
      rw [total_concat]
      split
      · exact Double.lt_trans_false (ih hbefore)
          (next_isTotal hkind (total_isTotal hkind key hbefore) hlast).2
      · exact ih hbefore

/-- A call leaves every family with what it was registered with. -/
theorem family_stays {r : Registry} {tr : List (Transition Registry Call)} (h : r.Accounts tr)
    (c : Call) {name : Text} {m : Metric} (hget : r.metrics.get? name = some m) :
    ∃ m', (r.call c).2.metrics.get? name = some m' ∧ m'.kind = m.kind ∧ m'.seriesCap = m.seriesCap := by
  have heffect := call_effect h.declared c
  generalize r.call c = res at heffect ⊢
  cases heffect with
  | raised => exact ⟨m, hget, rfl, rfl⟩
  | found _ => exact ⟨m, hget, rfl, rfl⟩
  | @created other m' _ hnew _ _ _ =>
      refine ⟨m, ?_, rfl, rfl⟩
      show (r.metrics.set other m').get? name = some m
      rw [Dict.get?_set_ne _ _, hget]
      rintro rfl
      rw [hnew] at hget
      cases hget
  | @wrote other _ amount key m' _ hother _ _ _ =>
      show ∃ m'', (r.metrics.set other _).get? name = some m'' ∧ _
      by_cases heq : other = name
      · subst heq
        rw [hget] at hother
        obtain rfl := Option.some.inj hother
        obtain ⟨_, hkind, hcap, _⟩ := m.stored_frame key (m.kind.next · amount)
        exact ⟨_, Dict.get?_set_self _ _ _, hkind, hcap⟩
      · exact ⟨m, (Dict.get?_set_ne _ _ heq).trans hget, rfl, rfl⟩

theorem family_stays_along {seriesCap : Int} {r₀ s t : Registry}
    {tr tr' : List (Transition Registry Call)} (hnew : newRegistry seriesCap = .ok r₀)
    (hrun : Run Registry.step r₀ tr s) (hmore : Run Registry.step s tr' t) {name : Text} {m : Metric}
    (hget : s.metrics.get? name = some m) :
    ∃ m', t.metrics.get? name = some m' ∧ m'.kind = m.kind ∧ m'.seriesCap = m.seriesCap := by
  induction hmore with
  | nil => exact ⟨m, hget, rfl, rfl⟩
  | @snoc tr' u v c hmore hstep ih =>
      obtain ⟨m', hget', hkind, hcap⟩ := ih
      obtain rfl := Option.some.inj hstep
      obtain ⟨m'', hget'', hkind', hcap'⟩ :=
        family_stays (accounts_of_run hnew (hrun.append hmore)) c hget'
      exact ⟨m'', hget'', hkind'.trans hkind, hcap'.trans hcap⟩

theorem stored_others (m : Metric) (key : LabelValues) (value : Double → Double) :
    (∀ other, other ≠ key → other ≠ [] →
        (m.stored key value).samples.get? other = m.samples.get? other)
      ∧ ((m.stored key value).overflowTotal = m.overflowTotal
        ∨ (m.stored key value).overflowTotal = m.overflowTotal + 1 ∧ ∀ other, other ≠ [] →
          (m.stored key value).samples.get? other = m.samples.get? other) := by
  have herase : ∀ other, other ≠ [] →
      Dict.get? (if key ≠ [] ∧ m.samples.contains [] then m.samples.erase [] else m.samples) other
        = m.samples.get? other := by
    intro other hother
    split
    · rw [Dict.get?_erase, if_neg hother]
    · rfl
  dsimp only [Metric.stored]
  generalize (if key ≠ [] ∧ m.samples.contains [] then m.samples.erase [] else m.samples) = samples
    at herase
  split
  · exact ⟨fun other _ hother => herase other hother, .inr ⟨rfl, herase⟩⟩
  · refine ⟨fun other hkey hother => ?_, .inl rfl⟩
    rw [Dict.get?_set_ne _ _ (Ne.symm hkey)]
    exact herase other hother

/-- A call that raises leaves the registry as it was. One that returns leaves all families
but one, and of that one all series but one, and counts at most one write as dropped. -/
theorem call_frame {seriesCap : Int} {r₀ r : Registry} {tr : List (Transition Registry Call)}
    (hnew : newRegistry seriesCap = .ok r₀) (hrun : Run Registry.step r₀ tr r) (c : Call) :
    (∀ e, (r.call c).1 = .error e → (r.call c).2 = r)
      ∧ ∀ name m, r.metrics.get? name = some m → ∃ m', (r.call c).2.metrics.get? name = some m'
        ∧ (m' = m ∨ ∃ labels amount key, c.write? = some (name, labels, amount)
          ∧ normaliseLabels labels = .ok key
          ∧ (∀ other, other ≠ key → other ≠ [] → m'.samples.get? other = m.samples.get? other)
          ∧ (m'.overflowTotal = m.overflowTotal ∨ m'.overflowTotal = m.overflowTotal + 1
            ∧ ∀ other, other ≠ [] → m'.samples.get? other = m.samples.get? other)) := by
  have heffect := call_effect (accounts_of_run hnew hrun).declared c
  generalize r.call c = res at heffect ⊢
  cases heffect with
  | raised => exact ⟨fun _ _ => rfl, fun name m hget => ⟨m, hget, .inl rfl⟩⟩
  | found _ => exact ⟨fun _ _ => rfl, fun name m hget => ⟨m, hget, .inl rfl⟩⟩
  | @created other m' _ hnone _ _ _ =>
      refine ⟨fun _ herror => (by cases herror), fun name m hget => ⟨m, ?_, .inl rfl⟩⟩
      show (r.metrics.set other m').get? name = some m
      rw [Dict.get?_set_ne _ _, hget]
      rintro rfl
      rw [hnone] at hget
      cases hget
  | @wrote other labels amount key m' hwrite hother hkey _ _ =>
      refine ⟨fun _ herror => (by cases herror), fun name m hget => ?_⟩
      show ∃ m'', (r.metrics.set other _).get? name = some m'' ∧ _
      by_cases heq : other = name
      · subst heq
        rw [hget] at hother
        obtain rfl := Option.some.inj hother
        refine ⟨_, Dict.get?_set_self _ _ _, .inr ⟨labels, amount, key, hwrite, hkey, ?_⟩⟩
        exact stored_others m key _
      · exact ⟨m, (Dict.get?_set_ne _ _ heq).trans hget, .inl rfl⟩

theorem call_frame_of_jobs : (jobsRegistry.call (.inc "tasks".toList ⟨1, by decide⟩ [])).2 = jobsRegistry := by
  obtain ⟨tr, hrun⟩ := jobs_reached
  exact (call_frame newRegistry_one hrun (.inc "tasks".toList ⟨1, by decide⟩ [])).1 _ rfl

end Hephaestus.Observability
