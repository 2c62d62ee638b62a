/-!
# Errors (`error.rs`)
-/

namespace NexusAgent

/-- `std::io::Error`, as far as the agent looks at it: whether the file is missing, and its text. -/
inductive IoError where
  | notFound
  | invalidData
  | other (text : String)
  deriving Repr, DecidableEq

def IoError.display : IoError → String
  | .notFound => "No such file or directory (os error 2)"
  | .invalidData => "stream did not contain valid UTF-8"
  | .other text => text

inductive AgentError where
  | config (msg : String)
  | crypto (msg : String)
  | audit (msg : String)
  | server (msg : String)
  | ldap (msg : String)
  | db (msg : String)
  | io (e : IoError)
  deriving Repr, DecidableEq

def AgentError.display : AgentError → String
  | .config msg => s!"configuration error: {msg}"
  | .crypto msg => s!"crypto error: {msg}"
  | .audit msg => s!"audit log error: {msg}"
  | .server msg => s!"server communication error: {msg}"
  | .ldap msg => s!"LDAP error: {msg}"
  | .db msg => s!"database error: {msg}"
  | .io e => "io error: " ++ e.display

end NexusAgent
