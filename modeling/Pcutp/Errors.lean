import Pcutp.Text

/-!
# Error types and protocol constants

`errors.py` derives one exception class from `PcutpError` for each `ERR` token
of the wire.  An exception object is modelled by its class, its message, its
token and its detail.  A message the source formats from run-time values is
represented by its fixed text.

The constants of `const.py` are the ones the modelled code reads.
-/

namespace Pcutp

/-- The exception classes of `errors.py`. -/
inductive ErrorClass
  | pcutp
  | version
  | url
  | http
  | dns
  | size
  | storage
  | file
  | write
  | timeout
  | retry
  | protocol
  | linkLost
  deriving DecidableEq, Repr

/-- The class attribute `code`. -/
def ErrorClass.code : ErrorClass → Line
  | .pcutp => "PROTOCOL".toList
  | .version => "VERSION".toList
  | .url => "URL".toList
  | .http => "HTTP".toList
  | .dns => "DNS".toList
  | .size => "SIZE".toList
  | .storage => "STORAGE".toList
  | .file => "FILE".toList
  | .write => "WRITE".toList
  | .timeout => "TIMEOUT".toList
  | .retry => "RETRY".toList
  | .protocol => "PROTOCOL".toList
  | .linkLost => "LINKLOST".toList

/-- An exception object. -/
structure PcutpError where
  cls : ErrorClass
  message : String
  code : Line := cls.code
  detail : Line := []
  deriving DecidableEq, Repr

/-- `exc.wire()`: the body of an `ERR` control line. -/
def PcutpError.wire (exc : PcutpError) : Line :=
  "ERR ".toList ++ exc.code ++ if exc.detail = [] then [] else ' ' :: exc.detail

def ProtocolError (message : String) : PcutpError :=
  { cls := .protocol, message }

def TimeoutError_ (message : String) : PcutpError :=
  { cls := .timeout, message }

def RetryError (message : String) : PcutpError :=
  { cls := .retry, message }

def LinkLostError (message : String) : PcutpError :=
  { cls := .linkLost, message }

def StorageError (message : String) : PcutpError :=
  { cls := .storage, message }

def FileError (message : String) : PcutpError :=
  { cls := .file, message }

namespace Const

def MAX_BLOCK_SIZE : Nat := 4096
def DEFAULT_BLOCK_SIZE : Nat := 4096
def MAX_FILENAME_LEN : Nat := 64
def MAX_FILE_SIZE : Nat := 16 * 1024 * 1024
def MAX_RETRIES : Nat := 5
def MAX_DROPS : Nat := 3
def MAX_RESETS : Nat := 2
def RST_RETRIES : Nat := 3
def FLOW_GROW_ACKS : Nat := 8
def MAX_TIMEOUTS : Nat := 5
def PROBE_RETRIES : Nat := 10

end Const

end Pcutp
