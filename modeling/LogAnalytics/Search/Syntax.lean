import LogAnalytics.Models.Text
import LogAnalytics.Timeutil
/-!
# The query language

Columns, operators, tokens and the syntax tree of the search language. A value has left the
query text by the time it is in the tree: it is a number, a timestamp, or the text itself.
-/

namespace LogAnalytics.Search

/-- `QUERYABLE_COLUMNS` -/
inductive Column where
  | eventId | timestamp | ingestedAt | source | sourceType | service | hostname | environment | level | logger | message
  | ipAddress | userId | requestId | httpMethod | endpoint | statusCode | responseTimeMs | bytesSent | userAgent
  | referrer | rawMessage | parser
  deriving DecidableEq, Repr

namespace Column

def name : Column → String
  | eventId => "event_id"
  | timestamp => "timestamp"
  | ingestedAt => "ingested_at"
  | source => "source"
  | sourceType => "source_type"
  | service => "service"
  | hostname => "hostname"
  | environment => "environment"
  | level => "level"
  | logger => "logger"
  | message => "message"
  | ipAddress => "ip_address"
  | userId => "user_id"
  | requestId => "request_id"
  | httpMethod => "http_method"
  | endpoint => "endpoint"
  | statusCode => "status_code"
  | responseTimeMs => "response_time_ms"
  | bytesSent => "bytes_sent"
  | userAgent => "user_agent"
  | referrer => "referrer"
  | rawMessage => "raw_message"
  | parser => "parser"

def all : List Column :=
  [eventId, timestamp, ingestedAt, source, sourceType, service, hostname, environment, level, logger, message, ipAddress,
    userId, requestId, httpMethod, endpoint, statusCode, responseTimeMs, bytesSent, userAgent, referrer, rawMessage, parser]

/-- `_NUMERIC_COLUMNS` -/
def isNumeric : Column → Bool
  | statusCode | responseTimeMs | bytesSent => true
  | _ => false

/-- `_TIMESTAMP_COLUMNS` -/
def isTimestamp : Column → Bool
  | timestamp | ingestedAt => true
  | _ => false

/-- Values of the other columns are bound as they are written. -/
def isString (c : Column) : Bool := !c.isNumeric && !c.isTimestamp

/-- `FIELD_ALIASES` -/
def aliases : List (String × Column) :=
  [("ip", ipAddress), ("client_ip", ipAddress), ("status", statusCode), ("path", endpoint), ("url", endpoint),
    ("method", httpMethod), ("host", hostname), ("duration", responseTimeMs), ("latency", responseTimeMs),
    ("response_time", responseTimeMs), ("time", timestamp), ("msg", message), ("app", service), ("user", userId),
    ("trace_id", requestId), ("bytes", bytesSent), ("ua", userAgent), ("severity", level)]

/-- The column a key in lower case stands for. -/
def ofKey (key : Text) : Option Column :=
  match aliases.find? fun a => Text.ofString a.1 = key with
  | some a => some a.2
  | none => all.find? fun c => Text.ofString c.name = key

end Column

/-- The operators a user may write: the keys of `_SQL_OPERATORS`, and `~`. -/
inductive Operator where
  | eq | eqEq | colon | ne | ltGt | gt | ge | lt | le | tilde
  deriving DecidableEq, Repr

namespace Operator

def text : Operator → String
  | eq => "="
  | eqEq => "=="
  | colon => ":"
  | ne => "!="
  | ltGt => "<>"
  | gt => ">"
  | ge => ">="
  | lt => "<"
  | le => "<="
  | tilde => "~"

def all : List Operator := [eq, eqEq, colon, ne, ltGt, gt, ge, lt, le, tilde]

def ofText (t : Text) : Option Operator := all.find? fun o => Text.ofString o.text = t

/-- `_SQL_OPERATORS`; `~` has no entry. -/
def sql : Operator → Option String
  | eq | eqEq | colon => some "="
  | ne | ltGt => some "<>"
  | gt => some ">"
  | ge => some ">="
  | lt => some "<"
  | le => some "<="
  | tilde => none

/-- The operators that take a list of values. -/
def takesList : Operator → Bool
  | eq | eqEq | colon => true
  | _ => false

end Operator

/-! ## Tokens -/

inductive TokenKind where
  | lparen | rparen | op | comma | quoted | word
  deriving DecidableEq, Repr

structure Token where
  kind : TokenKind
  value : Text
  position : Nat
  deriving DecidableEq

/-- A `SearchSyntaxError`, by what it says. -/
inductive SyntaxError where
  /-- `query exceeds 4096 characters` -/
  | queryTooLong
  /-- `unexpected character ... at position ...` -/
  | unexpectedCharacter (c : CodePoint) (position : Nat)
  /-- `query is too complex (over 64 terms)` -/
  | tooComplex
  /-- `query nesting exceeds 8 levels` -/
  | tooDeep
  /-- `query ended unexpectedly` -/
  | ended
  /-- `unbalanced parenthesis` -/
  | unbalanced
  /-- `unexpected ... at position ...` -/
  | unexpectedAt (value : Text) (position : Nat)
  /-- `unexpected ...` -/
  | unexpected (value : Text)
  /-- `a comparison must be followed by a value` -/
  | noValue
  /-- `at most 50 values may be listed` -/
  | tooManyValues
  /-- `a search value exceeds 512 characters` -/
  | valueTooLong
  /-- `unknown field ...; searchable fields: ...` -/
  | unknownField (name : Text)
  /-- `unsupported operator ...` -/
  | unsupportedOperator (operator : Text)
  /-- `value lists are only supported with '=' or ':'` -/
  | listOperator
  /-- `... expects a number, got ...` -/
  | notANumber (column : Column) (value : Text)
  /-- `... expects a timestamp, got ...` -/
  | notATimestamp (column : Column) (value : Text)
  deriving DecidableEq

/-- What compiling a query can raise. -/
inductive SearchError where
  | syntaxError (e : SyntaxError)
  /-- An exception of another class. -/
  | raised (exn : Exn)
  /-- The parser's recursion bound is too small. -/
  | outOfFuel
  deriving DecidableEq

/-! ## Trees -/

/-- A bound parameter; `F` are the floats. -/
inductive Value (F : Type) where
  | text (t : Text)
  | int (z : Int)
  | float (x : F)
  | timestamp (c : Clock)
  deriving DecidableEq

inductive Connective where
  | and | or
  deriving DecidableEq, Repr

/-- `field op value`; a comparison with a list has `values` and no `value`. -/
structure Comparison (F : Type) where
  column : Column
  operator : Operator
  value : Option (Value F)
  values : List (Value F) := []
  deriving DecidableEq

inductive Node (F : Type) where
  | comparison (c : Comparison F)
  | freeText (value : Text)
  | not (child : Node F)
  | boolOp (operator : Connective) (children : List (Node F))

variable {F : Type}

/-- Induction on a tree, with a hypothesis for every child of a `boolOp`. -/
theorem Node.induct {P : Node F → Prop} (comparison : ∀ c, P (.comparison c)) (freeText : ∀ t, P (.freeText t))
    (not : ∀ n, P n → P (.not n)) (boolOp : ∀ op ns, (∀ n ∈ ns, P n) → P (.boolOp op ns)) : ∀ n, P n
  | .comparison c => comparison c
  | .freeText t => freeText t
  | .not n => not n (induct comparison freeText not boolOp n)
  | .boolOp op ns => boolOp op ns fun n _ => induct comparison freeText not boolOp n

/-- One tree for the terms of a level: several are connected. -/
def collapse (op : Connective) : List (Node F) → Node F
  | [n] => n
  | ns => .boolOp op ns

end LogAnalytics.Search
