import LogAnalytics.Lib.Regex
import LogAnalytics.Masking
/-!
# The masking rules

The patterns of `_PATTERNS` with what replaces a match, and the triggers of `_TRIGGERS`. Two of
the patterns disregard case the way `re` does: `i`, `k` and `s` also stand for `İ` and `ı`, the
Kelvin sign and `ſ`. `\w` and `\d` take letters and digits of every script.
-/
open LogAnalytics.Lib

namespace LogAnalytics

/-- What Unicode says of the characters beyond ASCII. -/
structure CharTables where
  isWordBeyond : CodePoint → Bool
  isDigitBeyond : CodePoint → Bool

namespace MaskingRules

/-! ## Characters -/

def char (c : Char) : CodePoint := CodePoint.ofChar c

def isAsciiDigit (c : CodePoint) : Bool := 48 ≤ c.val && c.val ≤ 57

def isAsciiUpper (c : CodePoint) : Bool := 65 ≤ c.val && c.val ≤ 90

def isAsciiLower (c : CodePoint) : Bool := 97 ≤ c.val && c.val ≤ 122

def isAsciiAlnum (c : CodePoint) : Bool := isAsciiDigit c || isAsciiUpper c || isAsciiLower c

/-- One of the characters of a class written out. -/
def among (s : String) (c : CodePoint) : Bool := (Text.ofString s).contains c

/-- `\w` -/
def isWord (u : CharTables) (c : CodePoint) : Bool :=
  if c.val < 128 then isAsciiAlnum c || c = char '_' else u.isWordBeyond c

/-- `\d` -/
def isDigit (u : CharTables) (c : CodePoint) : Bool := if c.val < 128 then isAsciiDigit c else u.isDigitBeyond c

/-- `İ`, `ı` and `ſ`: letters that count as `i` and `s` when case is disregarded, and that
`str.lower` does not turn into these. -/
def oddLetters : List CodePoint := [0x130, 0x131, 0x17F]

def kelvinSign : CodePoint := 0x212A

/-- A character of a pattern in lower case, with `(?i)`. -/
def sameLetter (k c : CodePoint) : Bool :=
  Text.asciiLower c = k || (k = char 'i' && (c = 0x130 || c = 0x131)) || (k = char 's' && c = 0x17F) ||
    (k = char 'k' && c = kelvinSign)

/-- A word in lower case, with `(?i)`. -/
def word (w : Text) : Regex CodePoint := .row (w.map sameLetter)

/-- A text as it is. -/
def exactly (s : String) : Regex CodePoint := .row ((Text.ofString s).map fun k c => k = c)

def oneChar (c : Char) : Regex CodePoint := .chars (· = char c)

/-- `[A-Za-z0-9._\-+/=]` with `(?i)` -/
def isTokenChar (c : CodePoint) : Bool :=
  isAsciiAlnum c || among "._-+/=" c || oddLetters.contains c || c = kelvinSign

/-- `[^"'\s,;&}\]]` -/
def isValueChar (c : CodePoint) : Bool := !(among "\"',;&\x7d]" c || Text.isSpace c)

/-- `[A-Za-z0-9_-]` -/
def isBase64Url (c : CodePoint) : Bool := isAsciiAlnum c || among "_-" c

/-- `[A-Z ]` -/
def isUpperOrSpace (c : CodePoint) : Bool := isAsciiUpper c || c = char ' '

/-! ## The patterns -/

inductive RuleName where
  | authorizationHeader | sensitiveKv | jwt | vendorKey | privateKeyBlock | creditCard | email | phone
  deriving DecidableEq

/-- `_KV_KEYS`: the sensitive names, longest first. Of two names of one length at most one matches,
so their order does not matter. -/
def kvKeys : List Text :=
  ["proxy-authorization", "refresh_token", "authorization", "client_secret", "access_token", "private_key",
    "credit_card", "card_number", "set-cookie", "session_id", "sessionid", "x-api-key", "password", "id_token",
    "api_key", "api-key", "session", "passwd", "secret", "apikey", "cookie", "token", "auth", "pwd", "cvv", "ssn",
    "otp"].map Text.ofString

def authorizationHeader : Regex CodePoint :=
  .all [.boundary,
    .group 1 (.all [word (Text.ofString "authorization"), .star Text.isSpace, .chars (among ":="), .star Text.isSpace]),
    .opt (.group 2 (.oneOf (["bearer", "basic", "token"].map fun w => word (Text.ofString w)))),
    .star Text.isSpace, .rep false 8 512 (.chars isTokenChar)]

/-- `(\"?\s*[:=]\s*\"?)` -/
def separator : Regex CodePoint :=
  .all [.opt (oneChar '"'), .star Text.isSpace, .chars (among ":="), .star Text.isSpace, .opt (oneChar '"')]

def sensitiveKv : Regex CodePoint :=
  .all [.boundary, .group 1 (.oneOf (kvKeys.map word)), .group 2 separator,
    .group 3 (.rep false 1 512 (.chars isValueChar))]

def jwt : Regex CodePoint :=
  .all [.boundary, exactly "eyJ", .rep false 4 2048 (.chars isBase64Url), oneChar '.',
    .rep false 4 4096 (.chars isBase64Url), oneChar '.', .rep false 0 2048 (.chars isBase64Url), .boundary]

def vendorKey : Regex CodePoint :=
  .all [.boundary,
    .oneOf [
      .all [exactly "AKIA", .rep false 16 16 (.chars fun c => isAsciiDigit c || isAsciiUpper c)],
      .all [exactly "gh", .chars (among "pousr"), oneChar '_', .rep false 20 255 (.chars isAsciiAlnum)],
      .all [exactly "xox", .chars (among "baprs"), oneChar '-',
        .rep false 10 255 (.chars fun c => isAsciiAlnum c || c = char '-')],
      .all [exactly "sk_", .oneOf [exactly "live", exactly "test"], oneChar '_', .rep false 16 255 (.chars isAsciiAlnum)],
      .all [exactly "AIza", .rep false 35 35 (.chars isBase64Url)]],
    .boundary]

def privateKeyBlock : Regex CodePoint :=
  .all [exactly "-----BEGIN ", .rep false 0 40 (.chars isUpperOrSpace), exactly "PRIVATE KEY-----",
    .rep true 0 8192 (.chars fun _ => true),
    exactly "-----END ", .rep false 0 40 (.chars isUpperOrSpace), exactly "PRIVATE KEY-----"]

def creditCard (u : CharTables) : Regex CodePoint :=
  .all [.boundary, .rep false 13 19 (.seq (.chars (isDigit u)) (.opt (.chars (among " -")))), .boundary]

def email : Regex CodePoint :=
  .all [.boundary, .rep false 1 64 (.chars fun c => isAsciiAlnum c || among "._%+-" c), oneChar '@',
    .rep false 1 255 (.chars fun c => isAsciiAlnum c || among ".-" c), oneChar '.',
    .rep false 2 24 (.chars fun c => isAsciiUpper c || isAsciiLower c), .boundary]

def phone (u : CharTables) : Regex CodePoint :=
  .all [.notBefore fun c => isWord u c || c = char '.', .opt (oneChar '+'), .rep false 1 3 (.chars (isDigit u)),
    .opt (.chars (among " .-")), .opt (oneChar '('), .rep false 2 4 (.chars (isDigit u)), .opt (oneChar ')'),
    .opt (.chars (among " .-")), .rep false 3 4 (.chars (isDigit u)), .opt (.chars (among " .-")),
    .rep false 3 4 (.chars (isDigit u)), .notAfter fun c => isWord u c || c = char '.']

def pattern (u : CharTables) : RuleName → Regex CodePoint
  | .authorizationHeader => authorizationHeader
  | .sensitiveKv => sensitiveKv
  | .jwt => jwt
  | .vendorKey => vendorKey
  | .privateKeyBlock => privateKeyBlock
  | .creditCard => creditCard u
  | .email => email
  | .phone => phone u

/-- A group of a match. -/
def groupText (t : Cursor CodePoint) (index : Nat) : Text := (t.groups.lookup index).getD []

/-- What replaces a match. -/
def replacement : RuleName → Cursor CodePoint → Text
  | .authorizationHeader, t => groupText t 1 ++ redacted
  | .sensitiveKv, t => groupText t 1 ++ groupText t 2 ++ redacted
  | _, _ => redacted

/-- `pattern.sub(replacement, text)` -/
def apply (u : CharTables) (rule : RuleName) (text : Text) : Text :=
  (pattern u rule).sub (isWord u) (replacement rule) text

/-- `DEFAULT_RULES` -/
def defaultRules : List RuleName :=
  [.authorizationHeader, .sensitiveKv, .jwt, .vendorKey, .privateKeyBlock, .email]

/-! ## The triggers -/

def digitTriggers : List String := ["0", "1", "2", "3", "4", "5", "6", "7", "8", "9"]

/-- `_TRIGGERS` -/
def triggers : RuleName → List Text
  | .authorizationHeader => [Text.ofString "authorization"]
  | .sensitiveKv => sensitiveFieldNames
  | .jwt => [Text.ofString "eyj"]
  | .vendorKey =>
    ["akia", "ghp_", "gho_", "ghu_", "ghs_", "ghr_", "xox", "sk_live_", "sk_test_", "aiza"].map Text.ofString
  | .privateKeyBlock => [Text.ofString "-----begin"]
  | .creditCard => digitTriggers.map Text.ofString
  | .email => [Text.ofString "@"]
  | .phone => digitTriggers.map Text.ofString

/-- `_may_contain_secret` -/
def mayContainSecret (rules : List RuleName) (lowered : Text) : Bool :=
  rules.any fun rule => (triggers rule).any fun trigger => decide (trigger <:+: lowered)

/-- `Masker(rules)` -/
def masker (u : CharTables) (lower : Text → Text) (rules : List RuleName) : Masker where
  lower := lower
  mayContainSecret := mayContainSecret rules
  rules := rules.map (apply u)

end MaskingRules

end LogAnalytics
