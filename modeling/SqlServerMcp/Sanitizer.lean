import SqlServerMcp.Redaction
import SqlServerMcp.Text

/-!
What is printed or logged of a JSON value. The value of a member with a sensitive
key never shows in it, and everything else does.
-/
namespace SqlServerMcp.Sanitizer

open JsonValue Redaction Text

def sensitiveKeySubstrings : List String :=
  ["password", "token", "secret", "authorization", "apikey", "api_key", "api-key", "credential"]

section Sanitize

-- The lowercase form of a text, by Unicode's tables.
variable (toLowercase : String → String)

def isSensitiveKey (key : String) : Bool :=
  sensitiveKeySubstrings.any fun needle => contains (toLowercase key) needle

def sanitize (value : Json) : Json := redact (isSensitiveKey toLowercase) (.str "[REDACTED]") value

/-- A value shows what the other one has outside its sensitive members, and nothing
of what these hold. -/
structure Sanitizes (value shown : Json) : Prop where
  redacted : ∀ fields, Inside (.obj fields) shown →
    ∀ e ∈ fields, isSensitiveKey toLowercase e.1 = true → e.2 = .str "[REDACTED]"
  unchanged : SameOutside (isSensitiveKey toLowercase) value shown

theorem sanitize_sanitizes (value : Json) :
    Sanitizes toLowercase value (sanitize toLowercase value) := by
  have hmark : ∀ fields, ¬ Inside (.obj fields) (.str "[REDACTED]") := by
    intro fields h
    cases h
  constructor
  · intro fields h
    exact eq_mark_of_inside hmark h
  · exact sameOutside_redact value

/-- A sanitized value is redacted and otherwise unchanged, tells two values apart
only by what lies outside their sensitive members, and is sanitized already. -/
theorem sanitize_hides (value : Json) :
    Sanitizes toLowercase value (sanitize toLowercase value) ∧
      (∀ other, sanitize toLowercase value = sanitize toLowercase other ↔
        SameOutside (isSensitiveKey toLowercase) value other) ∧
      sanitize toLowercase (sanitize toLowercase value) = sanitize toLowercase value :=
  ⟨sanitize_sanitizes toLowercase value, redact_eq_iff value, redact_redact value⟩

end Sanitize

end SqlServerMcp.Sanitizer
