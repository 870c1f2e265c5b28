import Mathlib.Data.Finset.Sort
import Mathlib.Data.Int.ConditionallyCompleteOrder
import Mathlib.Data.List.MinMax
import Mathlib.Data.Prod.Lex
import Mathlib.Data.String.Basic
import LogAnalytics.AnomalyDetection.Detectors
import LogAnalytics.Lib.Table
/-!
# De-duplication of anomalies

`deduplicate` keeps two dictionaries side by side, the best anomaly of each key and the detectors
that agree on it. Each is a function of the anomalies with that key.
-/
open LogAnalytics.Lib

namespace LogAnalytics

namespace Anomaly

variable {δ : Type}

variable (isoformat : δ → String)

/-- The key two findings of the same thing share. -/
def key (anomaly : Anomaly δ) : String × String × Option String :=
  (anomaly.metric, isoformat anomaly.bucket, anomaly.dimension)

/-- The anomaly under the names of all detectors that found it. -/
def agreed (detectors : Finset String) (anomaly : Anomaly δ) : Anomaly δ :=
  let detectors := detectors.sort
  if 1 < detectors.length then
    { anomaly with
      detector := "+".intercalate detectors
      description := anomaly.description ++ " (agreed by " ++ toString detectors.length ++ " detectors)" }
  else anomaly

end Anomaly

namespace Deduplicate

variable {δ : Type} (isoformat : δ → String)

/-- The dictionaries `best` and `agreement`. -/
structure Notes (δ : Type) where
  best : Table (String × String × Option String) (Anomaly δ) := []
  agreement : Table (String × String × Option String) (Finset String) := []

/-- The body of the second loop; the key is in both dictionaries. -/
def merge (notes : Notes δ) (entry : (String × String × Option String) × Anomaly δ) : Anomaly δ :=
  entry.2.agreed ((notes.agreement.get entry.1).getD ∅)

end Deduplicate

namespace Anomaly

variable {δ : Type} (isoformat : δ → String) (anomaly : Anomaly δ) (detectors : Finset String)

end Anomaly

namespace Deduplicate

variable {δ : Type} (isoformat : δ → String)

/-- The anomalies with a key. -/
def group (k : String × String × Option String) (anomalies : List (Anomaly δ)) : List (Anomaly δ) :=
  anomalies.filter (·.key isoformat = k)

def detectors (group : List (Anomaly δ)) : Finset String := (group.map (·.detector)).toFinset

end Deduplicate

end LogAnalytics
