/-! # Messages and log records

A message is about the surroundings of a design, such as a configuration file that cannot be read.
Problems in the design itself are diagnostics. A log record tells what an operation has done.
-/

namespace Vhdl

inductive LogLevel where
  | trace
  | debug
  | info
  | warn
  | error
  deriving DecidableEq, Repr

def LogLevel.name : LogLevel → String
  | .trace => "TRACE"
  | .debug => "DEBUG"
  | .info => "INFO"
  | .warn => "WARN"
  | .error => "ERROR"

structure LogRecord where
  level : LogLevel
  text : String
  deriving DecidableEq, Repr

namespace LogRecord

def trace (text : String) : LogRecord := ⟨.trace, text⟩

def debug (text : String) : LogRecord := ⟨.debug, text⟩

def render (record : LogRecord) : String :=
  record.level.name ++ " " ++ record.text

end LogRecord

inductive MessageKind where
  | error
  | warning
  | info
  | log
  deriving DecidableEq, Repr

namespace MessageKind

def all : List MessageKind := [.error, .warning, .info, .log]

def name : MessageKind → String
  | .error => "error"
  | .warning => "warning"
  | .info => "info"
  | .log => "log"

def ofName? (text : String) : Option MessageKind :=
  all.find? (·.name = text)

def level : MessageKind → LogLevel
  | .error => .error
  | .warning => .warn
  | .info => .info
  | .log => .debug

end MessageKind

structure Message where
  kind : MessageKind
  text : String
  deriving DecidableEq, Repr

namespace Message

/-- An error found in a file. -/
def fileError (text file : String) : Message :=
  ⟨.error, text ++ " (In file " ++ file ++ ")"⟩

def render (message : Message) : String :=
  message.kind.name ++ ": " ++ message.text

/-- The log record that stands for a message. -/
def toLog (message : Message) : LogRecord :=
  ⟨message.kind.level, message.text⟩

end Message

end Vhdl
