import Mathlib.Data.Finset.Basic
import Hephaestus.Lib.Command
import Hephaestus.Lib.Dict
import Hephaestus.Lib.Exposition
import Hephaestus.Lib.Sha256

/-!
# The metrics registry

`hephaestus/observability/metrics.py`: counters and gauges with labels, at most so many
series to a family, and their text. Amounts are whole numbers below 2^53, which are
doubles; what is stored is the double nearest to a sum. A label value is the text that
`str` makes of it, without surrogates, so that it has an encoding.
-/

namespace Hephaestus.Observability

open Hephaestus.Lib

/-- What the methods raise, with what the message quotes. -/
inductive MetricsError
  | labelTooLong (name : Text)
  | labelName (name : Text)
  | metricName (name : Text)
  | seriesCap
  | labels (metric : Text) (registered given : List Text)
  | labelValue (metric name value : Text)
  | negativeIncrement
  | reserved (name : Text)
  | otherType (name kind : Text)
  | otherHelp (name : Text)
  | otherLabels (name : Text)
  | otherSeriesCap (name : Text)
  | overflow
  | noMetric (name : Text)
  deriving DecidableEq

def defaultSeriesCap : Nat := 100

def maxEncodedLabelValueBytes : Nat := 1024

def seriesOverflowMetric : Text := "hephaestus_metrics_series_overflow_total".toList

def seriesOverflowHelp : Text :=
  "New metric-series updates discarded after reaching a family cap.".toList

abbrev LabelValues := List (Text × Text)

abbrev AllowedLabels := List (Text × Option (Finset Text))

/-! ## Texts -/

/-- `t.replace(c, by)` for one character. -/
def replaceChar (c : Char) (replacement : Text) (t : Text) : Text :=
  t.flatMap fun d => if d = c then replacement else [d]

/-- `_escape_label_value`. -/
def escapeLabelValue (value : Text) : Text :=
  replaceChar '"' ['\x5c', '"'] (replaceChar '\n' ['\x5c', 'n'] (replaceChar '\x5c' ['\x5c', '\x5c'] value))

/-- `_normalise_label_value`. -/
def normaliseLabelValue (name value : Text) : Except MetricsError Text := do
  raiseIf (maxEncodedLabelValueBytes < (Sha256.encodeUtf8 (escapeLabelValue value)).length)
    (.labelTooLong name)
  pure value

/-- `sorted` of pairs with a name each of its own. -/
def sortedByName {α : Type} (pairs : List (Text × α)) : List (Text × α) :=
  pairs.mergeSort fun a b => !Text.sortsBefore b.1 a.1

/-- `_normalise_labels`, of the items of a mapping or of none. -/
def normaliseLabels (labels : List (Text × Text)) : Except MetricsError LabelValues := do
  let result ← labels.mapM fun label => do
    raiseIf (Exposition.isLabelName label.1 = false) (.labelName label.1)
    pure (label.1, ← normaliseLabelValue label.1 label.2)
  pure (sortedByName result)

/-- `_validate_metric_name`. -/
def validateMetricName (name : Text) : Except MetricsError Unit :=
  raiseIf (Exposition.isMetricName name = false) (.metricName name)

/-- `_validate_series_cap`. -/
def validateSeriesCap (seriesCap : Int) : Except MetricsError Nat := do
  raiseIf (seriesCap ≤ 0) .seriesCap
  pure seriesCap.toNat

/-- `_normalise_allowed_labels`, of the items of a mapping or of none. -/
def normaliseAllowedLabels (allowed : Option (List (Text × Option (List Text)))) :
    Except MetricsError (Option AllowedLabels) :=
  match allowed with
  | none => .ok none
  | some items => do
      let result ← items.mapM fun item => do
        raiseIf (Exposition.isLabelName item.1 = false) (.labelName item.1)
        match item.2 with
        | none => pure (item.1, none)
        | some values => do
            let normalised ← values.mapM (normaliseLabelValue item.1)
            pure (item.1, some normalised.toFinset)
      pure (some (sortedByName result))

/-- `_escape_help`. -/
def escapeHelp (value : Text) : Text :=
  replaceChar '\n' ['\x5c', 'n'] (replaceChar '\x5c' ['\x5c', '\x5c'] value)

/-- `_format_value` of a double. -/
def formatValue (value : Double) : Text := value.format

/-- `_format_value` of a count, which is made a double. -/
def formatCount (count : Nat) : Except MetricsError Text := do
  raiseIf (Double.nearest count = .infinite false) .overflow
  pure (formatValue (Double.nearest count))

/-! ## A family -/

inductive MetricKind
  | counter
  | gauge
  deriving DecidableEq

/-- `metric_type`. -/
def MetricKind.text : MetricKind → Text
  | .counter => "counter".toList
  | .gauge => "gauge".toList

structure Metric where
  kind : MetricKind
  name : Text
  helpText : Text
  seriesCap : Nat
  allowedLabels : Option AllowedLabels
  labelNames : Option (List Text)
  samples : Dict LabelValues Double := [([], .finite 0)]
  overflowTotal : Nat := 0
  deriving DecidableEq

/-- `_Metric.__init__`. -/
def newMetric (kind : MetricKind) (name helpText : Text)
    (allowed : Option (List (Text × Option (List Text)))) (seriesCap : Int) :
    Except MetricsError Metric := do
  validateMetricName name
  let seriesCap ← validateSeriesCap seriesCap
  let allowedLabels ← normaliseAllowedLabels allowed
  pure { kind, name, helpText, seriesCap, allowedLabels,
         labelNames := allowedLabels.map fun allowed => allowed.map Prod.fst }

abbrev MetricCommand := Command Metric MetricsError

/-- `_validate_label_key_locked`. -/
def validateLabelKey (key : LabelValues) : MetricCommand Unit := do
  let m ← get
  if m.labelNames = none then set { m with labelNames := some (key.map Prod.fst) }
  else
    Command.attempt (raiseIf (m.labelNames ≠ some (key.map Prod.fst))
      (.labels m.name (m.labelNames.getD []) (key.map Prod.fst)))
  Command.attempt (key.forM fun label =>
    raiseIf ((m.allowedLabels.any fun allowed =>
        ((Dict.get? allowed label.1).getD none).any fun values => label.2 ∉ values) = true)
      (.labelValue m.name label.1 label.2))

/-- `_write_sample`, of labels and of what to store given what is there. -/
def writeSample (labels : List (Text × Text)) (value : Double → Double) : MetricCommand Unit := do
  let key ← Command.attempt (normaliseLabels labels)
  validateLabelKey key
  modify fun m =>
    if key ≠ [] ∧ m.samples.contains [] then { m with samples := m.samples.erase [] } else m
  let m ← get
  if m.samples.contains key = false ∧ m.seriesCap ≤ m.samples.length then
    set { m with overflowTotal := m.overflowTotal + 1 }
  else
    set { m with samples := m.samples.set key (value ((m.samples.get? key).getD (.finite 0))) }

/-- An amount: a whole number that `float` keeps. -/
def Amount : Type := { n : Int // n.natAbs < 2 ^ 53 }

/-- `Counter.inc`. -/
def inc (amount : Amount) (labels : List (Text × Text)) : MetricCommand Unit := do
  Command.attempt (raiseIf (amount.val < 0) .negativeIncrement)
  writeSample labels fun current => current.add amount.val

/-- `Gauge.set`. -/
def setGauge (value : Amount) (labels : List (Text × Text)) : MetricCommand Unit :=
  writeSample labels fun _ => .finite value.val

/-! ## The registry -/

structure Registry where
  defaultSeriesCap : Nat
  metrics : Dict Text Metric := []
  deriving DecidableEq

/-- `_get_or_create`: the metric is in the registry afterwards. -/
def Registry.getOrCreate (r : Registry) (kind : MetricKind) (name helpText : Text)
    (allowed : Option (List (Text × Option (List Text)))) (seriesCap : Option Int) :
    Except MetricsError Registry := do
  validateMetricName name
  raiseIf (name = seriesOverflowMetric) (.reserved name)
  let normalised ← normaliseAllowedLabels allowed
  let validated ← match seriesCap with
    | none => pure r.defaultSeriesCap
    | some seriesCap => validateSeriesCap seriesCap
  match r.metrics.get? name with
  | none => do
      let metric ← newMetric kind name helpText allowed validated
      pure { r with metrics := r.metrics.set name metric }
  | some metric => do
      raiseIf (metric.kind ≠ kind) (.otherType name metric.kind.text)
      raiseIf (helpText ≠ [] ∧ metric.helpText ≠ helpText) (.otherHelp name)
      raiseIf (allowed ≠ none ∧ metric.allowedLabels ≠ normalised) (.otherLabels name)
      raiseIf (seriesCap ≠ none ∧ metric.seriesCap ≠ validated) (.otherSeriesCap name)
      pure r

/-- The labels of a sample as they are rendered. -/
def renderLabels (labels : LabelValues) : Text :=
  if labels = [] then []
  else '\x7b' :: ([','].intercalate (labels.map fun label =>
    label.1 ++ '=' :: '"' :: (escapeLabelValue label.2 ++ ['"'])) ++ ['\x7d'])

/-- `sorted(self._samples.items())`: no two keys are the same. -/
def sortedSamples (samples : Dict LabelValues Double) : List (LabelValues × Double) :=
  samples.mergeSort fun a b => sortsUpTo (a.1.flatMap fun l => [l.1, l.2]) (b.1.flatMap fun l => [l.1, l.2])
where
  /-- Lists of texts as tuples are compared. -/
  sortsUpTo : List Text → List Text → Bool
    | [], _ => true
    | _ :: _, [] => false
    | a :: as, b :: bs => Text.sortsBefore a b || (a = b && sortsUpTo as bs)

/-- The lines of a family. -/
def metricLines (m : Metric) : List Text :=
  (if m.helpText = [] then []
    else ["# HELP ".toList ++ m.name ++ ' ' :: escapeHelp m.helpText])
  ++ ["# TYPE ".toList ++ m.name ++ ' ' :: m.kind.text]
  ++ (sortedSamples m.samples).map fun sample =>
      m.name ++ renderLabels sample.1 ++ ' ' :: formatValue sample.2

/-- The line that counts the writes a family did not take. -/
def overflowLine (overflow : Text × Nat) : Except MetricsError Text := do
  let total ← formatCount overflow.2
  pure (seriesOverflowMetric ++ "\x7bfamily=\"".toList ++ escapeLabelValue overflow.1
    ++ "\"\x7d ".toList ++ total)

/-- The metrics by name. -/
def Registry.sorted (r : Registry) : List Metric := (sortedByName r.metrics).map Prod.snd

/-- The families that did not take every write, by name. -/
def Registry.overflows (r : Registry) : List (Text × Nat) :=
  (r.sorted.filter fun m => m.overflowTotal ≠ 0).map fun m => (m.name, m.overflowTotal)

/-- `render_prometheus`. -/
def Registry.renderPrometheus (r : Registry) : Except MetricsError Text := do
  let totals ← (sortedByName r.overflows).mapM overflowLine
  let lines := r.sorted.flatMap metricLines ++
    (if r.overflows = [] then []
      else
        ("# HELP hephaestus_metrics_series_overflow_total ".toList ++ seriesOverflowHelp)
        :: "# TYPE hephaestus_metrics_series_overflow_total counter".toList :: totals)
  pure (['\n'].intercalate lines ++ (if lines = [] then [] else ['\n']))

/-! ## Calls -/

/-- `MetricsRegistry.__init__`. -/
def newRegistry (defaultSeriesCap : Int) : Except MetricsError Registry := do
  let defaultSeriesCap ← validateSeriesCap defaultSeriesCap
  pure { defaultSeriesCap }

/-- A call of the registry, or of the counter or gauge that it gave for a name. -/
inductive Call
  | getOrCreate (kind : MetricKind) (name helpText : Text)
      (allowed : Option (List (Text × Option (List Text)))) (seriesCap : Option Int)
  | inc (name : Text) (amount : Amount) (labels : List (Text × Text))
  | setGauge (name : Text) (value : Amount) (labels : List (Text × Text))

/-- A write through a counter or a gauge, which the registry has. -/
def Registry.write (r : Registry) (kind : MetricKind) (name : Text) (write : MetricCommand Unit) :
    Except MetricsError Unit × Registry :=
  match r.metrics.get? name with
  | none => (.error (.noMetric name), r)
  | some metric =>
      if metric.kind = kind then
        let (result, metric) := write.exec metric
        (result, { r with metrics := r.metrics.set name metric })
      else (.error (.noMetric name), r)

/-- How a call ends, and the registry it leaves. -/
def Registry.call (r : Registry) : Call → Except MetricsError Unit × Registry
  | .getOrCreate kind name helpText allowed seriesCap =>
      match r.getOrCreate kind name helpText allowed seriesCap with
      | .ok r' => (.ok (), r')
      | .error e => (.error e, r)
  | .inc name amount labels => r.write .counter name (inc amount labels)
  | .setGauge name value labels => r.write .gauge name (setGauge value labels)

/-- A call as a step: one that raises is a step too. -/
def Registry.step (r : Registry) (call : Call) : Option Registry := some (r.call call).2

end Hephaestus.Observability
