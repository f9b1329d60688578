import PocketScript.Json.Basic
import PocketScript.Session.Basic

/-!
# The log in writing

Records of the log as objects, for programs that read logs.

## Main definitions

* `LogRecord.json`: A record as an object.
-/

namespace PocketScript

/-- A record as an object. -/
def LogRecord.json : LogRecord → Json
  | remark line message =>
    Json.record [("level", Json.ofText "warn"), ("line", Json.ofInt line),
      ("diagnostic", Json.ofText message), ("message", Json.ofText "parser diagnostic")]
  | parsed tokens statements =>
    Json.record [("level", Json.ofText "info"), ("tokens", Json.ofInt tokens),
      ("statements", Json.ofInt statements), ("message", Json.ofText "parsed program")]
  | finished succeeded =>
    Json.record [("level", Json.ofText "info"),
      ("status", Json.ofText (if succeeded then "ok" else "error")),
      ("message", Json.ofText "program finished")]

end PocketScript
