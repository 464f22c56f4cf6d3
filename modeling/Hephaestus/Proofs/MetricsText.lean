import Hephaestus.Observability.Metrics

/-!
# What the text of the metrics says

The text of a registry is read in the Prometheus text format. What is read is what is
stored, family by family in the order of their names, but for two things: a value comes
back as the double that six digits say, and a help text without the blanks at its ends.
-/

namespace Hephaestus.Observability

open Hephaestus.Lib
open Hephaestus.Lib.Exposition (Family Line readLine labelText labelsText escapeLabelChar
  escapeHelpChar)

/-! ## What is stored -/

/-- A family as it is stored. -/
def Metric.family (m : Metric) : Family where
  name := m.name
  help := if m.helpText = [] then none else some m.helpText
  kind := some m.kind.text
  samples := (sortedSamples m.samples).map fun sample => ⟨sample.1, sample.2⟩

/-- The counts of what was not taken, as doubles. -/
def overflowFamily (overflows : List (Text × Nat)) : Family where
  name := seriesOverflowMetric
  help := some seriesOverflowHelp
  kind := some "counter".toList
  samples := (sortedByName overflows).map fun overflow =>
    ⟨[("family".toList, overflow.1)], Double.nearest overflow.2⟩

/-- The families of a registry. -/
def Registry.families (r : Registry) : List Family :=
  r.sorted.map Metric.family ++ if r.overflows = [] then [] else [overflowFamily r.overflows]

/-- What is read of a family. -/
def shown (family : Family) : Family :=
  { family with
    help := family.help.map Exposition.trim
    samples := family.samples.map fun sample => { sample with value := sample.value.written } }

/-- What the checks of the registry let in. -/
structure WellFormed (r : Registry) : Prop where
  nodup : (r.metrics.map Prod.fst).Nodup
  named : ∀ item ∈ r.metrics, item.2.name = item.1
  names : ∀ item ∈ r.metrics, Exposition.isMetricName item.1 = true ∧ item.1 ≠ seriesOverflowMetric
  labels : ∀ item ∈ r.metrics, ∀ sample ∈ item.2.samples, ∀ label ∈ sample.1,
    Exposition.isLabelName label.1 = true

/-! ## Texts -/

theorem escapeLabelValue_eq (value : Text) :
    escapeLabelValue value = value.flatMap escapeLabelChar := by
  unfold escapeLabelValue replaceChar
  rw [List.flatMap_assoc, List.flatMap_assoc]
  congr 1
  funext c
  unfold escapeLabelChar
  by_cases hslash : c = '\x5c'
  · subst hslash
    rfl
  by_cases hline : c = '\n'
  · subst hline
    rfl
  by_cases hquote : c = '"'
  · subst hquote
    rfl
  simp [hslash, hline, hquote]

theorem escapeHelp_eq (doc : Text) : escapeHelp doc = doc.flatMap escapeHelpChar := by
  unfold escapeHelp replaceChar
  rw [List.flatMap_assoc]
  congr 1
  funext c
  unfold escapeHelpChar
  by_cases hslash : c = '\x5c'
  · subst hslash
    rfl
  by_cases hline : c = '\n'
  · subst hline
    rfl
  simp [hslash, hline]

theorem renderLabels_eq (labels : LabelValues) : renderLabels labels = labelsText labels := by
  have hlabel : ∀ label : Text × Text,
      label.1 ++ '=' :: '"' :: (escapeLabelValue label.2 ++ ['"']) = labelText label := by
    intro label
    rw [labelText, escapeLabelValue_eq]
  simp only [renderLabels, labelsText, hlabel]

theorem isValueText_format (x : Double) : Exposition.IsValueText x.format where
  ne_nil := Double.format_ne_nil x
  chars c hc := by
    rcases Double.mem_format hc with hdigit | hmem
    · refine ⟨Exposition.isBlank_of_isNameChar ?_, ?_, ?_⟩
      · rw [Exposition.isNameChar, Char.isAlphanum, hdigit, Bool.or_true]
        rfl
      · rintro rfl
        cases hdigit
      · rintro rfl
        cases hdigit
    · have hall : ("+-.eInf".toList).all (fun c => !Exposition.isBlank c && c != '\x7b' && c != '\n')
          = true := by decide
      simpa [and_assoc] using List.all_eq_true.mp hall c hmem

/-! ## Reading -/

theorem mapM_some {α β : Type} {f : α → Option β} {g : α → β} {l : List α}
    (h : ∀ a ∈ l, f a = some (g a)) : l.mapM f = some (l.map g) := by
  induction l with
  | nil => rfl
  | cons a l ih =>
      rw [List.forall_mem_cons] at h
      rw [List.mapM_cons, h.1, ih h.2]
      rfl

theorem mapM_flatMap {α β γ : Type} {f : α → List β} {g : β → Option γ} {k : α → List γ}
    {l : List α} (h : ∀ a ∈ l, (f a).mapM g = some (k a)) :
    (l.flatMap f).mapM g = some (l.flatMap k) := by
  induction l with
  | nil => rfl
  | cons a l ih =>
      rw [List.forall_mem_cons] at h
      rw [List.flatMap_cons, List.mapM_append, h.1, ih h.2]
      rfl

/-- A sample with its value as it is shown. -/
theorem readLine_value {name : Text} (hname : Exposition.isMetricName name = true)
    {labels : LabelValues} (hlabels : ∀ label ∈ labels, Exposition.isLabelName label.1 = true)
    (x : Double) :
    readLine (name ++ labelsText labels ++ ' ' :: x.format)
      = some (some (.sample name ⟨labels, x.written⟩)) :=
  Exposition.readLine_sample hname hlabels (isValueText_format x) (Double.read_format x)

theorem isKind_text (kind : MetricKind) : Exposition.isKind kind.text := by
  cases kind with
  | counter => exact List.mem_cons_self
  | gauge => exact List.mem_cons_of_mem _ List.mem_cons_self

theorem mapM_metricLines {m : Metric} (hname : Exposition.isMetricName m.name = true)
    (hlabels : ∀ sample ∈ m.samples, ∀ label ∈ sample.1, Exposition.isLabelName label.1 = true) :
    (metricLines m).mapM readLine = some ((shown m.family).lines.map some) := by
  have hsamples : ((sortedSamples m.samples).map fun sample =>
      m.name ++ renderLabels sample.1 ++ ' ' :: formatValue sample.2).mapM readLine
      = some ((sortedSamples m.samples).map fun sample =>
        some (Line.sample m.name ⟨sample.1, sample.2.written⟩)) := by
    rw [List.mapM_map]
    refine mapM_some fun sample hmem => ?_
    show readLine (m.name ++ renderLabels sample.1 ++ ' ' :: sample.2.format) = _
    rw [renderLabels_eq]
    exact readLine_value hname (hlabels sample (List.mem_mergeSort.mp hmem)) sample.2
  have htype : (["# TYPE ".toList ++ m.name ++ ' ' :: m.kind.text] : List Text).mapM readLine
      = some [some (Line.type m.name m.kind.text)] := by
    rw [List.mapM_cons, Exposition.readLine_type hname (isKind_text m.kind)]
    rfl
  have hlines : (shown m.family).lines = ((m.family.help.map Exposition.trim).map
        (Line.help m.name)).toList ++ [Line.type m.name m.kind.text]
      ++ (sortedSamples m.samples).map fun sample =>
        Line.sample m.name ⟨sample.1, sample.2.written⟩ := by
    simp [Family.lines, shown, Metric.family]
  rw [metricLines, hlines, List.mapM_append, List.mapM_append, htype, hsamples]
  split
  · next hhelp =>
    simp [Metric.family, hhelp]
  · next hhelp =>
    rw [escapeHelp_eq, List.mapM_cons, Exposition.readLine_help hname]
    simp [Metric.family, hhelp]

/-! ## The registry -/

theorem mem_sorted {r : Registry} {m : Metric} (h : m ∈ r.sorted) :
    ∃ name, (name, m) ∈ r.metrics := by
  obtain ⟨item, hitem, rfl⟩ := List.mem_map.mp h
  exact ⟨item.1, List.mem_mergeSort.mp hitem⟩

/-- The names of the metrics, each once. -/
theorem WellFormed.sorted_nodup {r : Registry} (h : WellFormed r) :
    (r.sorted.map Metric.name).Nodup := by
  have hnames : r.sorted.map Metric.name = (sortedByName r.metrics).map Prod.fst := by
    rw [Registry.sorted, List.map_map]
    refine List.map_congr_left fun item hitem => ?_
    exact h.named item (List.mem_mergeSort.mp hitem)
  rw [hnames]
  exact ((List.mergeSort_perm r.metrics _).map Prod.fst).nodup_iff.mpr h.nodup

theorem WellFormed.metricName {r : Registry} (h : WellFormed r) {m : Metric} (hm : m ∈ r.sorted) :
    Exposition.isMetricName m.name = true ∧ m.name ≠ seriesOverflowMetric := by
  obtain ⟨name, hmem⟩ := mem_sorted hm
  have hname : m.name = name := h.named _ hmem
  rw [hname]
  exact h.names _ hmem

theorem isMetricName_overflow : Exposition.isMetricName seriesOverflowMetric = true := by
  decide

/-- The counts are rendered unless one is too big to be a double. -/
theorem mapM_overflowLine {overflows : List (Text × Nat)}
    (h : ∀ overflow ∈ overflows, Double.nearest overflow.2 ≠ .infinite false) :
    overflows.mapM overflowLine = .ok (overflows.map fun overflow =>
      seriesOverflowMetric ++ labelsText [("family".toList, overflow.1)]
        ++ ' ' :: (Double.nearest overflow.2).format) := by
  induction overflows with
  | nil => rfl
  | cons overflow overflows ih =>
      rw [List.forall_mem_cons] at h
      have hline : overflowLine overflow = .ok (seriesOverflowMetric
          ++ labelsText [("family".toList, overflow.1)]
          ++ ' ' :: (Double.nearest overflow.2).format) := by
        have hcount : formatCount overflow.2 = .ok (Double.nearest overflow.2).format := by
          rw [formatCount, raiseIf, if_neg h.1]
          rfl
        rw [overflowLine, hcount, escapeLabelValue_eq]
        simp [bind, Except.bind, pure, Except.pure, labelsText, labelText]
      rw [List.mapM_cons, hline, ih h.2]
      rfl

theorem seriesOverflowHelp_plain : seriesOverflowHelp.flatMap escapeHelpChar = seriesOverflowHelp := by
  decide

/-- The lines of the text. -/
def textLines (r : Registry) : List Text :=
  r.sorted.flatMap metricLines ++
    if r.overflows = [] then []
    else
      ("# HELP ".toList ++ seriesOverflowMetric ++ ' ' :: seriesOverflowHelp.flatMap escapeHelpChar)
      :: ("# TYPE ".toList ++ seriesOverflowMetric ++ ' ' :: "counter".toList)
      :: (sortedByName r.overflows).map fun overflow =>
          seriesOverflowMetric ++ labelsText [("family".toList, overflow.1)]
            ++ ' ' :: (Double.nearest overflow.2).format

theorem renderPrometheus_eq {r : Registry}
    (h : ∀ m ∈ r.sorted, Double.nearest m.overflowTotal ≠ .infinite false) :
    r.renderPrometheus = .ok (['\n'].intercalate (textLines r)
      ++ if textLines r = [] then [] else ['\n']) := by
  have hcounts : ∀ overflow ∈ sortedByName r.overflows,
      Double.nearest overflow.2 ≠ .infinite false := by
    intro overflow hmem
    obtain ⟨m, hm, rfl⟩ := List.mem_map.mp (List.mem_mergeSort.mp hmem)
    exact h m (List.mem_of_mem_filter hm)
  rw [Registry.renderPrometheus, mapM_overflowLine hcounts, textLines, seriesOverflowHelp_plain]
  rfl

theorem mapM_overflow {overflows : List (Text × Nat)} :
    (("# HELP ".toList ++ seriesOverflowMetric ++ ' ' :: seriesOverflowHelp.flatMap escapeHelpChar)
      :: ("# TYPE ".toList ++ seriesOverflowMetric ++ ' ' :: "counter".toList)
      :: (sortedByName overflows).map fun overflow =>
          seriesOverflowMetric ++ labelsText [("family".toList, overflow.1)]
            ++ ' ' :: (Double.nearest overflow.2).format).mapM readLine
      = some ((shown (overflowFamily overflows)).lines.map some) := by
  have htotals : ((sortedByName overflows).map fun overflow =>
      seriesOverflowMetric ++ labelsText [("family".toList, overflow.1)]
        ++ ' ' :: (Double.nearest overflow.2).format).mapM readLine
      = some ((sortedByName overflows).map fun overflow =>
        some (Line.sample seriesOverflowMetric
          ⟨[("family".toList, overflow.1)], (Double.nearest overflow.2).written⟩)) := by
    rw [List.mapM_map]
    refine mapM_some fun overflow _ => ?_
    refine readLine_value isMetricName_overflow (fun label hlabel => ?_) _
    rw [List.mem_singleton.mp hlabel]
    rfl
  have htype : readLine ("# TYPE ".toList ++ seriesOverflowMetric ++ ' ' :: "counter".toList)
      = some (some (Line.type seriesOverflowMetric "counter".toList)) :=
    Exposition.readLine_type isMetricName_overflow (isKind_text .counter)
  rw [List.mapM_cons, Exposition.readLine_help isMetricName_overflow, List.mapM_cons, htype, htotals]
  simp [Family.lines, shown, overflowFamily]

theorem mapM_textLines {r : Registry} (h : WellFormed r) :
    (textLines r).mapM readLine
      = some (((r.families.map shown).flatMap Family.lines).map some) := by
  have hmetrics : (r.sorted.flatMap metricLines).mapM readLine
      = some (r.sorted.flatMap fun m => (shown m.family).lines.map some) := by
    refine mapM_flatMap fun m hm => ?_
    obtain ⟨name, hmem⟩ := mem_sorted hm
    exact mapM_metricLines (h.metricName hm).1 (h.labels _ hmem)
  rw [textLines, List.mapM_append, hmetrics, Registry.families, List.map_append, List.flatMap_append,
    List.map_append, List.map_map, List.flatMap_map, List.map_flatMap]
  split
  · rfl
  · rw [mapM_overflow, List.map_singleton, List.flatMap_singleton]
    rfl

theorem newline_not_mem {r : Registry} (h : WellFormed r) : ∀ t ∈ textLines r, '\n' ∉ t := by
  have hname : ∀ {name : Text}, Exposition.isMetricName name = true → '\n' ∉ name :=
    fun hname hmem => (Exposition.metricChar ((Exposition.isMetricName_cons hname).2 _ hmem)).2.2 rfl
  have hlabelName : ∀ {name : Text}, Exposition.isLabelName name = true → '\n' ∉ name := by
    intro name hname hmem
    cases (Exposition.isLabelName_cons hname).2 _ hmem
  have hvalue : ∀ x : Double, '\n' ∉ x.format :=
    fun x hmem => ((isValueText_format x).chars _ hmem).2.2 rfl
  have hescape : ∀ t : Text, '\n' ∉ t.flatMap escapeLabelChar := by
    intro t hmem
    obtain ⟨c, _, hc⟩ := List.mem_flatMap.mp hmem
    unfold escapeLabelChar at hc
    split at hc
    · revert hc
      decide
    · split at hc
      · revert hc
        decide
      · split at hc
        · revert hc
          decide
        · next hline _ => exact hline (List.mem_singleton.mp hc).symm
  have hhelp : ∀ t : Text, '\n' ∉ t.flatMap escapeHelpChar := by
    intro t hmem
    obtain ⟨c, _, hc⟩ := List.mem_flatMap.mp hmem
    unfold escapeHelpChar at hc
    split at hc
    · revert hc
      decide
    · split at hc
      · revert hc
        decide
      · next hline => exact hline (List.mem_singleton.mp hc).symm
  have hlabels : ∀ labels : List (Text × Text),
      (∀ label ∈ labels, Exposition.isLabelName label.1 = true) → '\n' ∉ labelsText labels := by
    intro labels hnames hmem
    have hjoin : '\n' ∉ [','].intercalate (labels.map labelText) := by
      clear hmem
      induction labels with
      | nil => exact List.not_mem_nil
      | cons label labels ih =>
          rw [List.forall_mem_cons] at hnames
          have hfirst : '\n' ∉ labelText label := by
            simp [labelText, hlabelName hnames.1, hescape]
          cases labels with
          | nil => simpa using hfirst
          | cons label' labels =>
              have hrest := ih hnames.2
              rw [List.map_cons] at hrest
              simp [List.intercalate_cons_cons, hfirst, hrest]
    unfold labelsText at hmem
    split at hmem
    · cases hmem
    · simp [hjoin] at hmem
  have hline : ∀ {a b c : Text}, '\n' ∉ a → '\n' ∉ b → '\n' ∉ c → '\n' ∉ a ++ b ++ ' ' :: c := by
    intro a b c ha hb hc
    simp [ha, hb, hc]
  have hsample : ∀ {name : Text} {labels : List (Text × Text)} (x : Double),
      Exposition.isMetricName name = true →
      (∀ label ∈ labels, Exposition.isLabelName label.1 = true) →
      '\n' ∉ name ++ labelsText labels ++ ' ' :: x.format :=
    fun x hmetric hnames => hline (hname hmetric) (hlabels _ hnames) (hvalue x)
  intro t ht
  rcases List.mem_append.mp ht with hmetric | hover
  · obtain ⟨m, hm, hmem⟩ := List.mem_flatMap.mp hmetric
    obtain ⟨key, hkey⟩ := mem_sorted hm
    have hm' := (h.metricName hm).1
    rw [metricLines, escapeHelp_eq] at hmem
    rcases List.mem_append.mp hmem with hmem | hmem
    · rcases List.mem_append.mp hmem with hmem | hmem
      · split at hmem
        · cases hmem
        · rw [List.mem_singleton.mp hmem]
          exact hline (by decide) (hname hm') (hhelp _)
      · rw [List.mem_singleton.mp hmem]
        refine hline (by decide) (hname hm') ?_
        cases m.kind with
        | counter => decide
        | gauge => decide
    · obtain ⟨sample, hsamples, rfl⟩ := List.mem_map.mp hmem
      rw [renderLabels_eq]
      exact hsample sample.2 hm' (h.labels _ hkey sample (List.mem_mergeSort.mp hsamples))
  · split at hover
    · cases hover
    · rcases List.mem_cons.mp hover with rfl | hover
      · exact hline (by decide) (hname isMetricName_overflow) (hhelp _)
      · rcases List.mem_cons.mp hover with rfl | hover
        · exact hline (by decide) (hname isMetricName_overflow) (by decide)
        · obtain ⟨overflow, _, rfl⟩ := List.mem_map.mp hover
          refine hsample _ isMetricName_overflow fun label hlabel => ?_
          rw [List.mem_singleton.mp hlabel]
          rfl

theorem families_nodup {r : Registry} (h : WellFormed r) :
    ((r.families.map shown).map Family.name).Nodup := by
  have hnames : (r.families.map shown).map Family.name
      = r.sorted.map Metric.name ++ if r.overflows = [] then [] else [seriesOverflowMetric] := by
    rw [Registry.families, List.map_append, List.map_append, List.map_map, List.map_map]
    congr 1
    split
    · rfl
    · rfl
  rw [hnames, List.nodup_append]
  refine ⟨h.sorted_nodup, ?_, fun name hname other hother => ?_⟩
  · split
    · exact List.nodup_nil
    · exact List.nodup_singleton _
  · obtain ⟨m, hm, rfl⟩ := List.mem_map.mp hname
    split at hother
    · cases hother
    · rw [List.mem_singleton.mp hother]
      exact (h.metricName hm).2

/-- What is read of the text of a registry. -/
theorem parse_renderPrometheus {r : Registry} (h : WellFormed r)
    (hcounts : ∀ m ∈ r.sorted, Double.nearest m.overflowTotal ≠ .infinite false) :
    ∃ text, r.renderPrometheus = .ok text ∧ Exposition.parse text = some (r.families.map shown) := by
  refine ⟨_, renderPrometheus_eq hcounts, ?_⟩
  refine Exposition.parse_lines (mapM_textLines h) (newline_not_mem h) ?_ (families_nodup h)
  intro family hfamily
  obtain ⟨stored, hstored, rfl⟩ := List.mem_map.mp hfamily
  rcases List.mem_append.mp hstored with hmetric | hover
  · obtain ⟨m, _, rfl⟩ := List.mem_map.mp hmetric
    exact Option.some_ne_none _
  · split at hover
    · cases hover
    · rw [List.mem_singleton.mp hover]
      exact Option.some_ne_none _

end Hephaestus.Observability
