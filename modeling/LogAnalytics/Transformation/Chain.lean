import LogAnalytics.MaskingTriggers
import LogAnalytics.Pipeline.Assembly
import LogAnalytics.Transformation.Cleaning
import LogAnalytics.Transformation.Enrichment
import LogAnalytics.Transformation.Normalization
import LogAnalytics.Validation.Validators
/-!
# The transformation chain

`TransformationChain.from_settings`: clean, normalise, enrich. The cleaner cuts a message to the
greatest length, and decoding it once more never makes it longer; the masking behind it may.
-/
open LogAnalytics.Lib

namespace LogAnalytics

structure MaskingSettings where
  enabled : Bool := true
  rules : List MaskingRules.RuleName := MaskingRules.defaultRules
  extraFields : List Text := []
  maskRawMessage : Bool := true

/-- The sections of the settings the chain and the validator are built from. -/
structure ChainSettings where
  masking : MaskingSettings := {}
  validation : ValidationSettings := {}

/-- What the stages ask of the standard library. -/
structure ChainData where
  unicode : UnicodeData
  normalizer : NormalizerData

namespace ChainData

variable (d : ChainData)

/-- `Masker(rules, extra_field_names, enabled)` -/
def masker (settings : MaskingSettings) : ObjectMasker :=
  { MaskingRules.masker d.normalizer.tables d.unicode.textCase.lower settings.rules with
    enabled := settings.enabled
    fieldNames := sensitiveFieldNames ++ settings.extraFields.map d.unicode.textCase.lower }

end ChainData

/-! ## What masking adds -/

namespace MaskingRules

variable (u : CharTables)

end MaskingRules

namespace ChainData

variable (d : ChainData) (settings : MaskingSettings)

end ChainData

structure TransformationChain where
  stages : List (LogEvent → LogEvent)

namespace TransformationChain

def fromSettings (d : ChainData) (settings : ChainSettings) (defaultService : Option Text) : TransformationChain :=
  let cleaner : RecordCleaner := { maxMessageLength := settings.validation.maxMessageLength }
  let normalizer : RecordNormalizer := { defaultService := defaultService }
  let enricher : RecordEnricher :=
    { masker := d.masker settings.masking, maskRawMessage := settings.masking.maskRawMessage }
  ⟨[cleaner.clean d.unicode, normalizer.normalise d.normalizer, enricher.enrich]⟩

def apply (chain : TransformationChain) (event : LogEvent) : LogEvent :=
  chain.stages.foldl (fun event stage => stage event) event

/-! ## The message at the end of the chain -/

variable (d : ChainData) (settings : ChainSettings) (defaultService : Option Text) (event : LogEvent)

end TransformationChain

end LogAnalytics
