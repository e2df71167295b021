import CloudMQ.Utf8
import CloudMQ.Tables

/-!
The configuration of a broker's topics: what is kept about a topic, permissions, and the version
that says whether two tables of them can differ.
-/

namespace CloudMQ.Topics

open CloudMQ.Utf8 CloudMQ.Tables

/-! ### Permissions -/

def PERM_READ : Int32 := 4
def PERM_WRITE : Int32 := 2
def PERM_INHERIT : Int32 := 1

def isReadable (perm : Int32) : Bool := perm &&& PERM_READ == PERM_READ
def isWriteable (perm : Int32) : Bool := perm &&& PERM_WRITE == PERM_WRITE
def isInherited (perm : Int32) : Bool := perm &&& PERM_INHERIT == PERM_INHERIT

/-! ### Topics -/

inductive TopicFilterType
  | SINGLE_TAG
  | MULTI_TAG
deriving DecidableEq

/-- The configuration of a topic; its name is the key it is kept under. -/
structure TopicConfig where
  readQueueNums : Int32 := 16
  writeQueueNums : Int32 := 16
  perm : Int32 := PERM_READ ||| PERM_WRITE
  topicFilterType : TopicFilterType := .SINGLE_TAG
  topicSysFlag : Int32 := 0
  order : Bool := false
deriving DecidableEq

abbrev TopicConfigTable := Table Text TopicConfig

/-! ### Versions -/

/-- The counter is not expected to overflow. -/
structure DataVersion where
  timestatmp : Int64
  counter : ℤ
deriving DecidableEq

/-- The next version, when the clock shows `now`. -/
def DataVersion.nextVersion (now : Int64) (v : DataVersion) : DataVersion := ⟨now, v.counter + 1⟩

end CloudMQ.Topics
