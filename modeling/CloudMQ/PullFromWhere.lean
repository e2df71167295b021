import CloudMQ.TopicRoutes

/-!
Where a push consumer starts to pull a queue that it was given.

The progress that the offset store has is taken; without one, which is −1, the configured place
is. Any other negative answer of the store leaves the queue for a later round.
-/

namespace CloudMQ.PullFromWhere

open CloudMQ.Utf8 CloudMQ.TopicRoutes

inductive ConsumeFromWhere
  | CONSUME_FROM_LAST_OFFSET
  | CONSUME_FROM_LAST_OFFSET_AND_FROM_MIN_WHEN_BOOT_FIRST
  | CONSUME_FROM_MIN_OFFSET
  | CONSUME_FROM_MAX_OFFSET
  | CONSUME_FROM_FIRST_OFFSET
  | CONSUME_FROM_TIMESTAMP
deriving DecidableEq

def RETRY_GROUP_TOPIC_PREFIX : Text := "%RETRY%".toList

/-- Questions to the broker; `none` is an `MQClientException`. -/
structure MQAdminImpl where
  maxOffset : MessageQueue → Option ℤ
  searchOffset : MessageQueue → ℤ → Option ℤ

/-- The settings of a consumer; a timestamp that cannot be read is `none`. -/
structure Settings where
  consumeFromWhere : ConsumeFromWhere
  consumeTimestamp : Option ℤ

/-- The place for a queue without progress; `none` is a `NullPointerException`. -/
def firstPull (c : Settings) (admin : MQAdminImpl) (mq : MessageQueue) : Option ℤ :=
  let retry := RETRY_GROUP_TOPIC_PREFIX.isPrefixOf mq.topic
  match c.consumeFromWhere with
  | .CONSUME_FROM_FIRST_OFFSET => some 0
  | .CONSUME_FROM_TIMESTAMP =>
    if retry then some ((admin.maxOffset mq).getD (-1))
    else c.consumeTimestamp.map fun timestamp => (admin.searchOffset mq timestamp).getD (-1)
  | _ => if retry then some 0 else some ((admin.maxOffset mq).getD (-1))

/-- From what the offset store reads. -/
def computePullFromWhere (c : Settings) (admin : MQAdminImpl) (mq : MessageQueue)
    (lastOffset : ℤ) : Option ℤ :=
  if 0 ≤ lastOffset then some lastOffset
  else if lastOffset = -1 then firstPull c admin mq
  else some (-1)

lemma computePullFromWhere_of_nonneg {c : Settings} {admin : MQAdminImpl} {mq : MessageQueue}
    {lastOffset : ℤ} (h : 0 ≤ lastOffset) :
    computePullFromWhere c admin mq lastOffset = some lastOffset := if_pos h

end CloudMQ.PullFromWhere
