import NewMuduo.LogStream
import NewMuduo.Machine

namespace NewMuduo

-- Logger::LogLevel; the value is that of the enumerator.
inductive LogLevel where
  | TRACE
  | DEBUG
  | INFO
  | WARN
  | ERROR
  | FATAL
  deriving DecidableEq, Repr

def LogLevel.value : LogLevel → Nat
  | .TRACE => 0
  | .DEBUG => 1
  | .INFO => 2
  | .WARN => 3
  | .ERROR => 4
  | .FATAL => 5

-- LogLevelName
def LogLevel.name : LogLevel → String
  | .TRACE => "TRACE "
  | .DEBUG => "DEBUG "
  | .INFO => "INFO  "
  | .WARN => "WARN  "
  | .ERROR => "ERROR "
  | .FATAL => "FATAL "

inductive LogMacro where
  | LOG_TRACE
  | LOG_DEBUG
  | LOG_INFO
  | LOG_WARN
  | LOG_ERROR
  | LOG_FATAL
  | LOG_SYSERR
  | LOG_SYSFATAL
  deriving DecidableEq, Repr

namespace LogMacro

def level : LogMacro → LogLevel
  | .LOG_TRACE => .TRACE
  | .LOG_DEBUG => .DEBUG
  | .LOG_INFO => .INFO
  | .LOG_WARN => .WARN
  | .LOG_ERROR | .LOG_SYSERR => .ERROR
  | .LOG_FATAL | .LOG_SYSFATAL => .FATAL

-- if (logLevel() <= ...) stands in front of these only.
def gated : LogMacro → Bool
  | .LOG_TRACE | .LOG_DEBUG | .LOG_INFO => true
  | .LOG_WARN | .LOG_ERROR | .LOG_FATAL | .LOG_SYSERR | .LOG_SYSFATAL => false

-- These two give __func__ to the constructor.
def named : LogMacro → Bool
  | .LOG_TRACE | .LOG_DEBUG => true
  | .LOG_INFO | .LOG_WARN | .LOG_ERROR | .LOG_FATAL | .LOG_SYSERR | .LOG_SYSFATAL => false

end LogMacro

-- struct tm, as far as formatTime reads it.
structure Tm where
  tm_year : Int
  tm_mon : Int
  tm_mday : Int
  tm_hour : Int
  tm_min : Int
  tm_sec : Int
  deriving DecidableEq, Repr

-- What goes into a stream; formatted is the text that std::to_string or %p gives
-- for a float, a double or a pointer.
inductive LogItem where
  | bool (v : Bool)
  | integer (overload : LogStream.Overload) (v : Int) (held : overload.type.Holds v)
  | cstring (v : Option String)
  | string (v : String)
  | formatted (v : String)

-- One use of a macro; line is an int.
structure LogStatement where
  which : LogMacro
  file : String
  line : Nat
  func : String
  items : List LogItem
  held : IntType.int.Holds line

-- The thread_local variables.
structure LogThread where
  t_time : String
  t_lastSecond : Int
  deriving DecidableEq, Repr

-- base/Logging.cpp: the globals, and what g_output has been called with. A
-- thread that fails an assert, throws or reads outside an array has no next
-- state.
structure Logging (Tid : Type) where
  g_logLevel : LogLevel
  threads : Tid → LogThread
  output : List String
  flushed : Bool
  aborted : Bool

namespace LogStream

-- %0wd and %wd
def zeroPadded (width : Nat) (v : Int) : String :=
  let digits := v.natAbs.repr
  let sign := if v < 0 then "-" else ""
  sign ++ String.ofList (List.replicate (width - sign.length - digits.length) '0') ++ digits

def spacePadded (width : Nat) (v : Int) : String :=
  String.ofList (List.replicate (width - v.repr.length) ' ') ++ v.repr

-- append((std::string)v.str_,(size_t)v.len_) appends what the string has from
-- the place len on, and throws out_of_range when it has no such place.
def shlT (s : LogStream) (str : String) (len : Nat) : Option LogStream :=
  if len ≤ str.length then some (s.append (String.ofList (str.toList.drop len))) else none

def shlString (s : LogStream) (v : String) : LogStream := s.append v

def shlCString (s : LogStream) (v : Option String) : LogStream := s.append (v.getD "(null)")

def shlBool (s : LogStream) (v : Bool) : LogStream := s.append (if v then "1" else "0")

-- There is no operator<< for a char, which goes to the one for int.
def shlChar (s : LogStream) (buf : Nat → Char) (c : Char) : Option LogStream := s.shl .int buf c.toNat

def shlItem (s : LogStream) (buf : Nat → Char) : LogItem → Option LogStream
  | .bool v => some (s.shlBool v)
  | .integer overload v _ => s.shl overload buf v
  | .cstring v => some (s.shlCString v)
  | .string v | .formatted v => some (s.shlString v)

end LogStream

namespace Logging

def kMicroSecondsPerSecond : Int := 1000000

-- "%4d%02d%02d %02d:%02d:%02d"
def clockText (tm : Tm) : String :=
  LogStream.spacePadded 4 (tm.tm_year + 1900) ++ LogStream.zeroPadded 2 (tm.tm_mon + 1) ++ LogStream.zeroPadded 2 tm.tm_mday ++
    " " ++ LogStream.zeroPadded 2 tm.tm_hour ++ ":" ++ LogStream.zeroPadded 2 tm.tm_min ++ ":" ++ LogStream.zeroPadded 2 tm.tm_sec

-- strrchr(fullname_,'/')
def basename (file : String) : String := String.ofList (file.toList.reverse.takeWhile (· != '/')).reverse

-- The cache of the thread, renewed when the second has changed.
def renew (localtime : Int → Tm) (th : LogThread) (seconds : Int) : Option LogThread :=
  if seconds ≠ th.t_lastSecond then
    let t_time := clockText (localtime seconds)
    if t_time.length = 17 then some ⟨t_time,seconds⟩ else none
  else some th

def formatTime (localtime : Int → Tm) (th : LogThread) (time : Int) (s : LogStream) : Option (LogThread × LogStream) := do
  let seconds := time.tdiv kMicroSecondsPerSecond
  let microseconds := time.tmod kMicroSecondsPerSecond
  let th ← renew localtime th seconds
  let s ← s.shlT th.t_time 17
  let s ← s.shlT ("." ++ LogStream.zeroPadded 6 microseconds ++ " ") 8
  some (th,s)

-- Logger::Impl::Impl; every caller passes 0 for savedErrno.
def impl (localtime : Int → Tm) (strerror : Int → String) (buf : Nat → Char) (th : LogThread) (time : Int) (level : LogLevel)
    (savedErrno : Int) : Option (LogThread × LogStream) := do
  let (th,s) ← formatTime localtime th time .empty
  let s ← s.shlT level.name 6
  if savedErrno ≠ 0 then
    let s ← ((s.shlString (strerror savedErrno)).shlString " (errno=").shl .int buf savedErrno
    some (th,s.shlString ") ")
  else some (th,s)

-- The two constructors.
def logger (localtime : Int → Tm) (strerror : Int → String) (buf : Nat → Char) (th : LogThread) (time : Int) (st : LogStatement) :
    Option (LogThread × LogStream) := do
  let (th,s) ← impl localtime strerror buf th time st.which.level 0
  if st.which.named then
    let s ← (s.shlString st.func).shlChar buf ' '
    some (th,s)
  else some (th,s)

def finish (buf : Nat → Char) (st : LogStatement) (s : LogStream) : Option LogStream := do
  let s ← ((s.shlString " - ").shlString (basename st.file)).shlChar buf ':'
  let s ← s.shl .int buf st.line
  s.shlChar buf '\n'

def shlItems (buf : Nat → Char) : LogStream → List LogItem → Option LogStream
  | s,[] => some s
  | s,item :: rest => (s.shlItem buf item).bind (shlItems buf · rest)

variable {Tid : Type} [DecidableEq Tid]

def passes (s : Logging Tid) (st : LogStatement) : Bool := !st.which.gated || s.g_logLevel.value ≤ st.which.level.value

-- The whole statement, to the end of ~Logger. g_output's fwrite takes the text
-- as one piece.
def log (localtime : Int → Tm) (strerror : Int → String) (buf : Nat → Char) (s : Logging Tid) (t : Tid) (time : Int)
    (st : LogStatement) : Option (Logging Tid) :=
  if s.passes st then do
    let (th,stream) ← logger localtime strerror buf (s.threads t) time st
    let stream ← shlItems buf stream st.items
    let stream ← finish buf st stream
    let fatal := st.which.level = .FATAL
    some {s with
      threads := Function.update s.threads t th
      output := s.output ++ [stream.buffer]
      flushed := s.flushed || fatal
      aborted := fatal}
  else some s

-- buf is what the stack holds before.
inductive Label (Tid : Type) where
  | log (t : Tid) (time : Int) (buf : Nat → Char) (st : LogStatement)
  | setLogLevel (level : LogLevel)

def next (localtime : Int → Tm) (strerror : Int → String) (s : Logging Tid) : Label Tid → Option (Logging Tid)
  | .log t time buf st => if s.aborted then none else s.log localtime strerror buf t time st
  | .setLogLevel level => if s.aborted then none else some {s with g_logLevel := level}

def new : Logging Tid := ⟨.INFO,fun _ => ⟨"",0⟩,[],false,false⟩

def machine (Tid : Type) [DecidableEq Tid] (localtime : Int → Tm) (strerror : Int → String) : Machine (Logging Tid) (Label Tid) where
  start s := s = new
  next s label := s.next localtime strerror label

end Logging
end NewMuduo
