import RemDb.PubSub.Frames

namespace RemDb
open RemDb.Lib

structure PendingData where
  frame : ProtocolFrame
  send_time : UInt64
  retransmit_count : Nat
  acknowledged : Bool
deriving DecidableEq,Repr

-- The timeout is in milliseconds. Sequence numbers wrap, as they do in the
-- release profile.
structure Publisher where
  enable_nack : Bool
  retransmit_timeout : UInt64
  max_retransmits : Nat
  next_seq_num : UInt32
  pending_data : List PendingData
deriving DecidableEq,Repr

namespace Publisher

def new (enable_nack : Bool) (retransmit_timeout : UInt64) (max_retransmits : Nat) : Publisher :=
  ⟨enable_nack,retransmit_timeout,max_retransmits,1,[]⟩

-- The number is taken before the length is looked at.
def createFrame (publisher : Publisher) (now : UInt64) (topic_id : UInt16) (data : Bytes) :
    Except PubSubError ProtocolFrame × Publisher :=
  let counted := {publisher with next_seq_num:=publisher.next_seq_num+1}
  match ProtocolFrame.newDataFrame publisher.next_seq_num topic_id data with
  | .error failure => (.error failure,counted)
  | .ok frame =>
    if publisher.enable_nack then
      (.ok frame,{counted with pending_data:=publisher.pending_data ++ [⟨frame,now,0,false⟩]})
    else (.ok frame,counted)

-- One more transmission, or none any more.
def retransmit (max_retransmits : Nat) (now : UInt64) (pending : PendingData) : PendingData × List ProtocolFrame :=
  if pending.retransmit_count < max_retransmits then
    ({pending with retransmit_count:=pending.retransmit_count+1,send_time:=now},[pending.frame])
  else ({pending with acknowledged:=true},[])

def nackPending (max_retransmits : Nat) (now : UInt64) (seq_num : UInt32) (topic_id : UInt16) :
    List PendingData → List PendingData × List ProtocolFrame
  | [] => ([],[])
  | pending :: rest =>
    if pending.frame.seq_num = seq_num ∧ pending.frame.topic_id = topic_id then
      let again := retransmit max_retransmits now pending
      (again.1 :: rest,again.2)
    else
      let others := nackPending max_retransmits now seq_num topic_id rest
      (pending :: others.1,others.2)

def handleNack (publisher : Publisher) (now : UInt64) (seq_num : UInt32) (topic_id : UInt16) :
    List ProtocolFrame × Publisher :=
  if publisher.enable_nack then
    let looked := nackPending publisher.max_retransmits now seq_num topic_id publisher.pending_data
    (looked.2,{publisher with pending_data:=looked.1})
  else ([],publisher)

def timeoutPending (max_retransmits : Nat) (timeout_ms current_time : UInt64) (pending : PendingData) :
    PendingData × List ProtocolFrame :=
  if pending.acknowledged then (pending,[])
  else if current_time-pending.send_time > timeout_ms then retransmit max_retransmits current_time pending
  else (pending,[])

def checkTimeouts (publisher : Publisher) (current_time : UInt64) : List ProtocolFrame × Publisher :=
  if publisher.enable_nack then
    let looked := publisher.pending_data.map
      (timeoutPending publisher.max_retransmits publisher.retransmit_timeout current_time)
    (looked.flatMap (·.2),{publisher with pending_data:=(looked.map (·.1)).filter fun pending => !pending.acknowledged})
  else ([],publisher)

end Publisher

structure Subscriber where
  id : Nat
  topic_id : UInt16
  callback : UInt16 → Bytes → Bool
  active : Bool
  last_active : UInt64

structure Handed where
  subscriber : Nat
  topic_id : UInt16
  data : Bytes
deriving DecidableEq,Repr

def WILDCARD_TOPIC_ID : UInt16 := 0xFFFF

structure SubscriberManager where
  max_topics : Nat
  max_subscribers_per_topic : Nat
  subscribers : List (List (Option Subscriber))
  wildcard_subscribers : List (Option Subscriber)
  next_subscription_id : Nat
  expected_seq_nums : List UInt32

namespace SubscriberManager

def new (max_topics max_subscribers_per_topic : Nat) : Except PubSubError SubscriberManager :=
  if max_topics = 0 ∨ max_subscribers_per_topic = 0 then .error .invalidParameter
  else .ok
    { max_topics := max_topics
      max_subscribers_per_topic := max_subscribers_per_topic
      subscribers := List.replicate max_topics (List.replicate max_subscribers_per_topic none)
      wildcard_subscribers := List.replicate max_subscribers_per_topic none
      next_subscription_id := 1
      expected_seq_nums := List.replicate max_topics 1 }

-- The first place that is free, or a new one behind the last.
def place (room : Nat) (places : List (Option Subscriber)) (subscriber : Subscriber) :
    Except PubSubError (List (Option Subscriber)) :=
  match places.findIdx? (·.isNone) with
  | some index => .ok (places.set index (some subscriber))
  | none => if places.length ≥ room then .error .resourceExhausted else .ok (places ++ [some subscriber])

def subscribe (manager : SubscriberManager) (now : UInt64) (topic_id : UInt16) (callback : UInt16 → Bytes → Bool) :
    Except PubSubError Nat × SubscriberManager :=
  let counted := {manager with next_subscription_id:=manager.next_subscription_id+1}
  let subscriber : Subscriber := ⟨manager.next_subscription_id,topic_id,callback,true,now⟩
  if topic_id = WILDCARD_TOPIC_ID then
    match place manager.max_subscribers_per_topic manager.wildcard_subscribers subscriber with
    | .error failure => (.error failure,counted)
    | .ok places => (.ok subscriber.id,{counted with wildcard_subscribers:=places})
  else if topic_id.toNat ≥ manager.max_topics then (.error .invalidParameter,counted)
  else
    match place manager.max_subscribers_per_topic (manager.subscribers.getD topic_id.toNat []) subscriber with
    | .error failure => (.error failure,counted)
    | .ok places => (.ok subscriber.id,{counted with subscribers:=manager.subscribers.set topic_id.toNat places})

-- One call of a callback; a subscriber that declines is taken out.
def callSubscriber (now : UInt64) (topic_id : UInt16) (data : Bytes) : Option Subscriber → Option Subscriber × List Handed
  | none => (none,[])
  | some subscriber =>
    if subscriber.active then
      let given : Handed := ⟨subscriber.id,topic_id,data⟩
      if subscriber.callback topic_id data then (some {subscriber with last_active:=now},[given]) else (none,[given])
    else (some subscriber,[])

def handleData (manager : SubscriberManager) (now : UInt64) (topic_id : UInt16) (data : Bytes) :
    Except PubSubError (List Handed) × SubscriberManager :=
  if topic_id.toNat ≥ manager.max_topics then (.error .invalidParameter,manager)
  else
    let topic := (manager.subscribers.getD topic_id.toNat []).map (callSubscriber now topic_id data)
    let wildcards := manager.wildcard_subscribers.map (callSubscriber now topic_id data)
    let subscribers := manager.subscribers.set topic_id.toNat (topic.map (·.1))
    (.ok (topic.flatMap (·.2) ++ wildcards.flatMap (·.2)),
      {manager with subscribers:=subscribers,wildcard_subscribers:=wildcards.map (·.1)})

def cleanupPlace (timeout current_time : UInt64) : Option Subscriber → Option Subscriber
  | none => none
  | some subscriber =>
    if subscriber.active ∧ current_time-subscriber.last_active > timeout then none else some subscriber

def cleanupInactive (manager : SubscriberManager) (timeout current_time : UInt64) : SubscriberManager :=
  let subscribers := manager.subscribers.map fun places => places.map (cleanupPlace timeout current_time)
  {manager with subscribers:=subscribers,
                wildcard_subscribers:=manager.wildcard_subscribers.map (cleanupPlace timeout current_time)}

def expected (manager : SubscriberManager) (topic_id : UInt16) : UInt32 := manager.expected_seq_nums.getD topic_id.toNat 1

-- The number to ask for again, if there is one. A number that has been seen
-- answers as the expected one does.
def checkSeqNum (manager : SubscriberManager) (topic_id : UInt16) (seq_num : UInt32) : Option UInt32 × SubscriberManager :=
  if topic_id.toNat ≥ manager.max_topics then (none,manager)
  else
    let filled := manager.expected_seq_nums ++ List.replicate (topic_id.toNat+1-manager.expected_seq_nums.length) 1
    let ready := {manager with expected_seq_nums:=filled}
    let expected_seq_num := filled.getD topic_id.toNat 1
    if seq_num < expected_seq_num then (none,ready)
    else if seq_num > expected_seq_num then (some expected_seq_num,ready)
    else (none,{ready with expected_seq_nums:=filled.set topic_id.toNat (expected_seq_num+1)})

end SubscriberManager

structure PubSub where
  subscribers : SubscriberManager
  publisher : Publisher
  heartbeat_interval : UInt64

namespace PubSub

-- The frame is sent, or the socket does not take it.
def publish (pubsub : PubSub) (socket : Bytes → Bool) (now : UInt64) (topic_id : UInt16) (data : Bytes) :
    Except PubSubError Unit × PubSub × List Bytes :=
  match pubsub.publisher.createFrame now topic_id data with
  | (.error failure,publisher) => (.error failure,{pubsub with publisher:=publisher},[])
  | (.ok frame,publisher) =>
    if socket frame.toBytes then (.ok (),{pubsub with publisher:=publisher},[frame.toBytes])
    else (.error .networkError,{pubsub with publisher:=publisher},[])

structure Reaction where
  pubsub : PubSub
  handed : List Handed
  sent : List Bytes

def handleDataFrame (pubsub : PubSub) (now : UInt64) (frame : ProtocolFrame) : Reaction :=
  match pubsub.subscribers.checkSeqNum frame.topic_id frame.seq_num with
  | (some missing_seq_num,subscribers) =>
    ⟨{pubsub with subscribers:=subscribers},[],[(ProtocolFrame.newNackFrame missing_seq_num frame.topic_id).toBytes]⟩
  | (none,subscribers) =>
    match subscribers.handleData now frame.topic_id frame.payload with
    | (.ok handed,subscribers) => ⟨{pubsub with subscribers:=subscribers},handed,[]⟩
    | (.error _,subscribers) => ⟨{pubsub with subscribers:=subscribers},[],[]⟩

def handleNackFrame (pubsub : PubSub) (now : UInt64) (frame : ProtocolFrame) : Reaction :=
  let answer := pubsub.publisher.handleNack now frame.seq_num frame.topic_id
  ⟨{pubsub with publisher:=answer.2},[],answer.1.map (·.toBytes)⟩

def handleHeartbeatFrame (pubsub : PubSub) (now : UInt64) : Reaction :=
  ⟨{pubsub with subscribers:=pubsub.subscribers.cleanupInactive (pubsub.heartbeat_interval*3) now},[],[]⟩

def handleReceivedData (pubsub : PubSub) (now : UInt64) (data : Bytes) : Reaction :=
  match ProtocolFrame.fromBytes data with
  | .error _ => ⟨pubsub,[],[]⟩
  | .ok frame =>
    match frame.frame_type with
    | .data => pubsub.handleDataFrame now frame
    | .nack => pubsub.handleNackFrame now frame
    | .heartbeat => pubsub.handleHeartbeatFrame now

end PubSub
end RemDb
