/-!
# Enumerations

The closed vocabularies shared by the stages, with the strings they are stored as.
-/

namespace LogAnalytics

/-- Why a record landed in the dead-letter queue. -/
inductive RejectReason where
  | unparseable | emptyLine | lineTooLong | encodingError | missingTimestamp | invalidTimestamp
  | timestampOutOfRange | missingMessage | messageTooLong | invalidIp | invalidStatusCode
  | invalidLevel | invalidResponseTime | schemaViolation | duplicate | transformError
  | storageError | unknown
  deriving DecidableEq, Repr

/-- `str(reason)`. -/
def RejectReason.toStr : RejectReason → String
  | .unparseable => "unparseable"
  | .emptyLine => "empty_line"
  | .lineTooLong => "line_too_long"
  | .encodingError => "encoding_error"
  | .missingTimestamp => "missing_timestamp"
  | .invalidTimestamp => "invalid_timestamp"
  | .timestampOutOfRange => "timestamp_out_of_range"
  | .missingMessage => "missing_message"
  | .messageTooLong => "message_too_long"
  | .invalidIp => "invalid_ip"
  | .invalidStatusCode => "invalid_status_code"
  | .invalidLevel => "invalid_level"
  | .invalidResponseTime => "invalid_response_time"
  | .schemaViolation => "schema_violation"
  | .duplicate => "duplicate"
  | .transformError => "transform_error"
  | .storageError => "storage_error"
  | .unknown => "unknown"

/-- The severity ladder. -/
inductive LogLevel where
  | trace | debug | info | notice | warning | error | critical | alert | emergency | unknown
  deriving DecidableEq, Repr

/-- `str(level)`. -/
def LogLevel.toStr : LogLevel → String
  | .trace => "TRACE"
  | .debug => "DEBUG"
  | .info => "INFO"
  | .notice => "NOTICE"
  | .warning => "WARNING"
  | .error => "ERROR"
  | .critical => "CRITICAL"
  | .alert => "ALERT"
  | .emergency => "EMERGENCY"
  | .unknown => "UNKNOWN"

def LogLevel.members : List LogLevel :=
  [.trace, .debug, .info, .notice, .warning, .error, .critical, .alert, .emergency, .unknown]

/-- `_ALIASES` -/
def LogLevel.aliases : List (String × LogLevel) := [
  ("WARN", .warning), ("WARNINGS", .warning), ("ERR", .error), ("ERRORS", .error), ("FATAL", .critical),
  ("CRIT", .critical), ("SEVERE", .critical), ("EMERG", .emergency), ("PANIC", .emergency), ("VERBOSE", .debug),
  ("FINE", .debug), ("FINEST", .trace), ("INFORMATION", .info), ("INFORMATIONAL", .info), ("NOTIFY", .notice),
  ("0", .emergency), ("1", .alert), ("2", .critical), ("3", .error), ("4", .warning), ("5", .notice), ("6", .info),
  ("7", .debug)]

inductive HttpMethod where
  | get | head | post | put | patch | delete | options | trace | connect | other
  deriving DecidableEq, Repr

/-- `str(http_method)`. -/
def HttpMethod.toStr : HttpMethod → String
  | .get => "GET"
  | .head => "HEAD"
  | .post => "POST"
  | .put => "PUT"
  | .patch => "PATCH"
  | .delete => "DELETE"
  | .options => "OPTIONS"
  | .trace => "TRACE"
  | .connect => "CONNECT"
  | .other => "OTHER"

def HttpMethod.members : List HttpMethod :=
  [.get, .head, .post, .put, .patch, .delete, .options, .trace, .connect, .other]

/-- Where a record entered the platform from. -/
inductive SourceType where
  | file | directory | database | api | stream | synthetic | unknown
  deriving DecidableEq, Repr

/-- `str(source_type)`. -/
def SourceType.toStr : SourceType → String
  | .file => "file"
  | .directory => "directory"
  | .database => "database"
  | .api => "api"
  | .stream => "stream"
  | .synthetic => "synthetic"
  | .unknown => "unknown"

inductive Environment where
  | production | staging | development | test | unknown
  deriving DecidableEq, Repr

/-- `str(environment)`. -/
def Environment.toStr : Environment → String
  | .production => "production"
  | .staging => "staging"
  | .development => "development"
  | .test => "test"
  | .unknown => "unknown"

def Environment.members : List Environment := [.production, .staging, .development, .test, .unknown]

inductive JobStatus where
  | pending | running | succeeded | failed | cancelled | retrying
  deriving DecidableEq, Repr

def JobStatus.isTerminal : JobStatus → Bool
  | .succeeded | .failed | .cancelled => true
  | .pending | .running | .retrying => false

inductive AnomalyType where
  | errorSpike | trafficSpike | trafficDrop | latencySpike | serverErrorSurge | unusualPattern | suspiciousIp
  deriving DecidableEq, Repr

/-- Severity of an anomaly or security finding. -/
inductive Severity where
  | info | low | medium | high | critical
  deriving DecidableEq, Repr

end LogAnalytics
