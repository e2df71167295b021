import CloudMQ.Agreement
import CloudMQ.Properties

/-!
Live dispatch and replayed dispatch.

`putMessage` hands a request to the dispatch service before anything is read back; recovery and
a slave rebuild the request from the record. For a delayed message the two take the time of
delivery from different clocks: the live request from the clock before the lock, the replayed
one from the store timestamp, which is set inside the lock.
-/

namespace CloudMQ.Replay

open CloudMQ.Buffer CloudMQ.Utf8 CloudMQ.Strings CloudMQ.Message CloudMQ.Record CloudMQ.Codec
open CloudMQ.Segment CloudMQ.Chain CloudMQ.CommitLog CloudMQ.Append CloudMQ.Agreement
open CloudMQ.Properties

variable {cfg : MessageStoreConfig} {env : Env} {m m' : MessageExtBrokerInner}
  {log log' : Log} {result : AppendMessageResult}

/-- Properties that no separator tears apart, as `string2messageProperties` makes them, and a
topic that can be written among them. -/
structure CleanMessage (m : MessageExtBrokerInner) : Prop where
  entries : ∀ e ∈ m.properties.entries, CleanEntry e
  topic : PROPERTY_SEPARATOR ∉ m.topic

/-! ### The redirected message -/

/-- What a redirected message looks like: it carries the level its delivery time was computed
from. -/
structure Redirected (cfg : MessageStoreConfig) (order : EntryOrder)
    (m m' : MessageExtBrokerInner) (tagsCode : Int64) (level : Int32) (t : Text) : Prop where
  pos : 0 < level.toInt
  le : level.toInt ≤ cfg.scheduleMessageService.getMaxDelayLevel.toInt
  topic : m'.topic = SCHEDULE_TOPIC
  sysFlag : m'.sysFlag = m.sysFlag
  tagsCode : tagsCode = cfg.scheduleMessageService.computeDeliverTimestamp level m.storeTimestamp
  delay : m'.properties.get PROPERTY_DELAY_TIME_LEVEL = some t
  parse : parseInt t = some level
  written : m'.propertiesString = some (messageProperties2String order m'.properties)
  clean : CleanMessage m → ∀ e ∈ m'.properties.entries, CleanEntry e

/-- The unit a request puts into the consume queue: offset, size and tags code. -/
def unitOf (d : DispatchRequest) : Bytes :=
  putLong d.commitLogOffset ++ putInt d.msgSize ++ putLong d.tagsCode

def delayedMessage : MessageExtBrokerInner :=
  { messageTo "TopicTest".toList with
    properties := (Props.empty.put PROPERTY_TAGS ['a']).put PROPERTY_DELAY_TIME_LEVEL ['1']
    propertiesString := some (PROPERTY_TAGS ++ [NAME_VALUE_SEPARATOR, 'a', PROPERTY_SEPARATOR] ++
      PROPERTY_DELAY_TIME_LEVEL ++ [NAME_VALUE_SEPARATOR, '1', PROPERTY_SEPARATOR])
    tagsCode := tagsString2tagsCode .SINGLE_TAG (some ['a']) }

end CloudMQ.Replay
