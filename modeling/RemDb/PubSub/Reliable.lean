import RemDb.PubSub.Sequencing

namespace RemDb
open RemDb.Lib

-- One instance that publishes, one that receives, and every datagram that either
-- has sent. The attempts are the calls of `create_frame`, in order, each with
-- what its frame carries if it made one.
structure Exchange where
  sender : PubSub
  receiver : PubSub
  sent : List Bytes
  attempts : List (Option (UInt16 × Bytes))
  handed : List Handed

inductive Side where
  | sender | receiver
deriving DecidableEq,Repr

-- A datagram that was sent may arrive on either side, at any time, any number of
-- times or never.
inductive ExchangeStep where
  | publish (accepted : Bool) (now : UInt64) (topic_id : UInt16) (data : Bytes)
  | timeouts (side : Side) (now : UInt64)
  | deliver (side : Side) (index : Nat) (now : UInt64)

namespace Exchange

def step (exchange : Exchange) : ExchangeStep → Exchange
  | .publish accepted now topic_id data =>
    let published := exchange.sender.publish (fun _ => accepted) now topic_id data
    let made := (exchange.sender.publisher.createFrame now topic_id data).1.toOption.map fun frame =>
      (frame.topic_id,frame.payload)
    {exchange with sender:=published.2.1,sent:=exchange.sent ++ published.2.2,attempts:=exchange.attempts ++ [made]}
  | .timeouts .sender now =>
    let looked := exchange.sender.publisher.checkTimeouts now
    let sender := {exchange.sender with publisher:=looked.2}
    {exchange with sender:=sender,sent:=exchange.sent ++ looked.1.map (·.toBytes)}
  | .timeouts .receiver now =>
    let looked := exchange.receiver.publisher.checkTimeouts now
    let receiver := {exchange.receiver with publisher:=looked.2}
    {exchange with receiver:=receiver,sent:=exchange.sent ++ looked.1.map (·.toBytes)}
  | .deliver side index now =>
    match exchange.sent[index]?, side with
    | none, _ => exchange
    | some datagram, .sender =>
      let reaction := exchange.sender.handleReceivedData now datagram
      {exchange with sender:=reaction.pubsub,sent:=exchange.sent ++ reaction.sent}
    | some datagram, .receiver =>
      let reaction := exchange.receiver.handleReceivedData now datagram
      {exchange with receiver:=reaction.pubsub,sent:=exchange.sent ++ reaction.sent,
                     handed:=exchange.handed ++ reaction.handed}

def run (exchange : Exchange) (steps : List ExchangeStep) : Exchange := steps.foldl step exchange

def published (attempts : List (Option (UInt16 × Bytes))) (topic_id : UInt16) : List Bytes :=
  attempts.filterMap fun attempt => (attempt.filter fun made => decide (made.1 = topic_id)).map (·.2)

structure Fresh (exchange : Exchange) : Prop where
  number : exchange.sender.publisher.next_seq_num = 1
  unsent : exchange.sender.publisher.pending_data = []
  silent : exchange.receiver.publisher.pending_data = []
  subscribed : exchange.receiver.subscribers.Subscribed
  no_datagrams : exchange.sent = []
  no_attempts : exchange.attempts = []
  no_payloads : exchange.handed = []

-- The counter does not wrap, and no data frame arrives whose number is behind
-- the one its topic expects.
def Orderly (exchange : Exchange) : ExchangeStep → Prop
  | .publish _ _ _ _ => exchange.sender.publisher.next_seq_num.toNat+1 < 2^32
  | .deliver .receiver index _ => ∀ datagram frame, exchange.sent[index]? = some datagram →
      ProtocolFrame.fromBytes datagram = .ok frame → frame.frame_type = .data →
      frame.topic_id.toNat < exchange.receiver.subscribers.max_topics →
      exchange.receiver.subscribers.expected frame.topic_id ≤ frame.seq_num
  | _ => True

def OrderlyRun (exchange : Exchange) : List ExchangeStep → Prop
  | [] => True
  | step :: rest => exchange.Orderly step ∧ OrderlyRun (exchange.step step) rest

-- A frame that somebody made: a NACK, or one with the payload of its attempt.
structure Genuine (attempts : List (Option (UInt16 × Bytes))) (frame : ProtocolFrame) : Prop where
  formed : frame.WellFormed
  kind : frame.frame_type = .nack ∨ (frame.frame_type = .data ∧ 0 < frame.seq_num.toNat ∧
    attempts[frame.seq_num.toNat-1]? = some (some (frame.topic_id,frame.payload)))

-- A topic that expects a number has been handed what was published on it before
-- that number, and nothing twice.
structure Sequenced (exchange : Exchange) : Prop where
  datagrams : ∀ datagram ∈ exchange.sent, ∃ frame, Genuine exchange.attempts frame ∧ datagram = frame.toBytes
  pending : ∀ pending ∈ exchange.sender.publisher.pending_data, Genuine exchange.attempts pending.frame
  silent : exchange.receiver.publisher.pending_data = []
  counted : exchange.sender.publisher.next_seq_num.toNat = exchange.attempts.length+1
  valid : exchange.receiver.subscribers.Valid
  numbers : ∀ topic_id, 0 < (exchange.receiver.subscribers.expected topic_id).toNat ∧
    (exchange.receiver.subscribers.expected topic_id).toNat ≤ exchange.attempts.length+1
  handed : ∀ subscriber topic_id, (handedTo exchange.handed subscriber topic_id).Sublist
    (published (exchange.attempts.take ((exchange.receiver.subscribers.expected topic_id).toNat-1)) topic_id)

variable {exchange : Exchange}

theorem Fresh.sequenced (fresh : exchange.Fresh) : exchange.Sequenced where
  datagrams := by
    rw [fresh.no_datagrams]
    exact fun _ among => absurd among List.not_mem_nil
  pending := by
    rw [fresh.unsent]
    exact fun _ among => absurd among List.not_mem_nil
  silent := fresh.silent
  counted := by
    rw [fresh.number,fresh.no_attempts]
    rfl
  valid := fresh.subscribed.ready.1
  numbers := by
    intro topic_id
    rw [fresh.subscribed.ready.2.2,fresh.no_attempts]
    exact ⟨by decide,Nat.le_refl _⟩
  handed := by
    intro subscriber topic_id
    rw [fresh.no_payloads]
    exact List.nil_sublist _

theorem Genuine.later {attempts : List (Option (UInt16 × Bytes))} {frame : ProtocolFrame} (genuine : Genuine attempts frame)
    (more : List (Option (UInt16 × Bytes))) : Genuine (attempts ++ more) frame := by
  refine ⟨genuine.formed,?_⟩
  rcases genuine.kind with nack | ⟨is_data,positive,made⟩
  · exact .inl nack
  · refine .inr ⟨is_data,positive,?_⟩
    obtain ⟨inside,_⟩ := List.getElem?_eq_some_iff.mp made
    rw [List.getElem?_append_left inside,made]

theorem genuine_nack (attempts : List (Option (UInt16 × Bytes))) (seq_num : UInt32) (topic_id : UInt16) :
    Genuine attempts (ProtocolFrame.newNackFrame seq_num topic_id) :=
  ⟨ProtocolFrame.newNackFrame_wellFormed seq_num topic_id,.inl rfl⟩

theorem published_append (before after : List (Option (UInt16 × Bytes))) (topic_id : UInt16) :
    published (before ++ after) topic_id = published before topic_id ++ published after topic_id := List.filterMap_append

theorem published_topic (topic_id : UInt16) (data : Bytes) : published [some (topic_id,data)] topic_id = [data] := by
  simp [published]

end Exchange

namespace PubSub
variable {pubsub : PubSub} {attempts : List (Option (UInt16 × Bytes))} {frame : ProtocolFrame}

-- A data frame leaves the publisher as it is and sends a NACK or nothing.
theorem handleDataFrame_sends (pubsub : PubSub) (now : UInt64) (frame : ProtocolFrame) :
    (pubsub.handleDataFrame now frame).pubsub.publisher = pubsub.publisher ∧
      ∀ datagram ∈ (pubsub.handleDataFrame now frame).sent, ∃ seq_num topic_id,
        datagram = (ProtocolFrame.newNackFrame seq_num topic_id).toBytes := by
  unfold handleDataFrame
  split
  · exact ⟨rfl,fun datagram among => ⟨_,_,List.mem_singleton.mp among⟩⟩
  · split
    · exact ⟨rfl,fun _ among => absurd among List.not_mem_nil⟩
    · exact ⟨rfl,fun _ among => absurd among List.not_mem_nil⟩

theorem received_genuine (genuine : Exchange.Genuine attempts frame) (now : UInt64)
    (pending : ∀ pending ∈ pubsub.publisher.pending_data, Exchange.Genuine attempts pending.frame) :
    (∀ datagram ∈ (pubsub.handleReceivedData now frame.toBytes).sent, ∃ sent, Exchange.Genuine attempts sent ∧
        datagram = sent.toBytes) ∧
      (∀ pending ∈ (pubsub.handleReceivedData now frame.toBytes).pubsub.publisher.pending_data,
        Exchange.Genuine attempts pending.frame) ∧
      (pubsub.handleReceivedData now frame.toBytes).pubsub.publisher.next_seq_num = pubsub.publisher.next_seq_num := by
  rcases genuine.kind with is_nack | ⟨is_data,_⟩
  · rw [handleReceivedData_nack genuine.formed is_nack]
    obtain ⟨kept,again⟩ := pubsub.publisher.handleNack_frames now frame.seq_num frame.topic_id
    refine ⟨?_,?_,pubsub.publisher.handleNack_next now frame.seq_num frame.topic_id⟩
    · intro datagram among
      obtain ⟨sent,listed,rfl⟩ := List.mem_map.mp among
      obtain ⟨old,inside,rfl⟩ := again sent listed
      exact ⟨old.frame,pending old inside,rfl⟩
    · intro each among
      obtain ⟨old,inside,same⟩ := kept each among
      rw [same]
      exact pending old inside
  · rw [handleReceivedData_data genuine.formed is_data]
    obtain ⟨same,nacks⟩ := handleDataFrame_sends pubsub now frame
    refine ⟨?_,?_,by rw [same]⟩
    · intro datagram among
      obtain ⟨seq_num,topic_id,rfl⟩ := nacks datagram among
      exact ⟨_,Exchange.genuine_nack attempts seq_num topic_id,rfl⟩
    · rw [same]
      exact pending

end PubSub

namespace Publisher

theorem createFrame_cases (publisher : Publisher) (now : UInt64) (topic_id : UInt16) (data : Bytes) :
    (data.length > ProtocolFrame.MAX_DATA_LEN ∧ (publisher.createFrame now topic_id data).1 = .error .invalidParameter ∧
        (publisher.createFrame now topic_id data).2.pending_data = publisher.pending_data) ∨
      (data.length ≤ ProtocolFrame.MAX_DATA_LEN ∧ ∃ frame, (publisher.createFrame now topic_id data).1 = .ok frame ∧
        frame.WellFormed ∧ frame.frame_type = .data ∧ frame.seq_num = publisher.next_seq_num ∧ frame.topic_id = topic_id ∧
        frame.payload = data ∧ ∀ pending ∈ (publisher.createFrame now topic_id data).2.pending_data,
          pending ∈ publisher.pending_data ∨ pending.frame = frame) := by
  by_cases long : data.length > ProtocolFrame.MAX_DATA_LEN
  · have refused : ProtocolFrame.newDataFrame publisher.next_seq_num topic_id data = .error .invalidParameter := if_pos long
    refine .inl ⟨long,?_,?_⟩ <;> rw [createFrame,refused]
  · have made : ProtocolFrame.newDataFrame publisher.next_seq_num topic_id data =
        .ok ⟨.data,publisher.next_seq_num,topic_id,UInt16.ofNat data.length,calculateCrc32 data,data⟩ := if_neg long
    refine .inr ⟨Nat.not_lt.mp long,_,?_,ProtocolFrame.newDataFrame_wellFormed made,rfl,rfl,rfl,rfl,?_⟩
    · rw [createFrame,made]
      cases publisher.enable_nack <;> rfl
    · intro pending among
      rw [createFrame,made] at among
      cases enabled : publisher.enable_nack with
      | true =>
        simp only [enabled,if_true] at among
        rcases List.mem_append.mp among with old | new
        · exact .inl old
        · rw [List.mem_singleton.mp new]
          exact .inr rfl
      | false =>
        simp only [enabled,Bool.false_eq_true,if_false] at among
        exact .inl among

theorem createFrame_next (publisher : Publisher) (now : UInt64) (topic_id : UInt16) (data : Bytes) :
    (publisher.createFrame now topic_id data).2.next_seq_num = publisher.next_seq_num+1 := by
  unfold createFrame
  simp only
  split
  · rfl
  · split <;> rfl

end Publisher

namespace PubSub

theorem publish_publisher (pubsub : PubSub) (socket : Bytes → Bool) (now : UInt64) (topic_id : UInt16) (data : Bytes) :
    (pubsub.publish socket now topic_id data).2.1.publisher = (pubsub.publisher.createFrame now topic_id data).2 := by
  unfold publish
  split
  · rename_i made
    rw [made]
  · rename_i made
    rw [made]
    split <;> rfl

theorem publish_sends (pubsub : PubSub) (socket : Bytes → Bool) (now : UInt64) (topic_id : UInt16) (data : Bytes) :
    ∀ datagram ∈ (pubsub.publish socket now topic_id data).2.2, ∃ frame,
      (pubsub.publisher.createFrame now topic_id data).1 = .ok frame ∧ datagram = frame.toBytes := by
  intro datagram among
  unfold publish at among
  split at among
  · cases among
  · rename_i frame _ made
    split at among
    · exact ⟨frame,by rw [made],List.mem_singleton.mp among⟩
    · cases among

end PubSub
namespace Exchange
variable {exchange : Exchange}

theorem step_missing {index : Nat} (found : exchange.sent[index]? = none) (side : Side) (now : UInt64) :
    exchange.step (.deliver side index now) = exchange := by
  simp only [step,found]

theorem step_sender {index : Nat} {datagram : Bytes} (found : exchange.sent[index]? = some datagram) (now : UInt64) :
    exchange.step (.deliver .sender index now) =
      {exchange with sender:=(exchange.sender.handleReceivedData now datagram).pubsub,
                     sent:=exchange.sent ++ (exchange.sender.handleReceivedData now datagram).sent} := by
  simp only [step,found]

theorem step_receiver {index : Nat} {datagram : Bytes} (found : exchange.sent[index]? = some datagram) (now : UInt64) :
    exchange.step (.deliver .receiver index now) =
      {exchange with receiver:=(exchange.receiver.handleReceivedData now datagram).pubsub,
                     sent:=exchange.sent ++ (exchange.receiver.handleReceivedData now datagram).sent,
                     handed:=exchange.handed ++ (exchange.receiver.handleReceivedData now datagram).handed} := by
  simp only [step,found]

theorem Sequenced.publish (sequenced : exchange.Sequenced) {accepted : Bool} {now : UInt64} {topic_id : UInt16}
    {data : Bytes} (orderly : exchange.Orderly (.publish accepted now topic_id data)) :
    (exchange.step (.publish accepted now topic_id data)).Sequenced := by
  have number : (exchange.sender.publisher.next_seq_num+1).toNat = exchange.attempts.length+1+1 := by
    rw [UInt32.toNat_add,sequenced.counted]
    refine Nat.mod_eq_of_lt ?_
    change exchange.sender.publisher.next_seq_num.toNat+1 < 2^32 at orderly
    rw [sequenced.counted] at orderly
    exact orderly
  let made := (exchange.sender.publisher.createFrame now topic_id data).1.toOption.map fun frame =>
    (frame.topic_id,frame.payload)
  have new_frame : ∀ frame, (exchange.sender.publisher.createFrame now topic_id data).1 = .ok frame →
      Genuine (exchange.attempts ++ [made]) frame := by
    intro frame done
    rcases exchange.sender.publisher.createFrame_cases now topic_id data with ⟨_,refused,_⟩ | ⟨_,other,same,formed,is_data,seq,_⟩
    · rw [refused] at done
      cases done
    · rw [done] at same
      cases same
      refine ⟨formed,.inr ⟨is_data,?_,?_⟩⟩
      · rw [seq,sequenced.counted]
        exact Nat.succ_pos _
      · rw [seq,sequenced.counted,Nat.add_sub_cancel,List.getElem?_append_right (Nat.le_refl _),Nat.sub_self]
        simp only [made,done]
        rfl
  refine ⟨?_,?_,sequenced.silent,?_,sequenced.valid,?_,?_⟩
  · intro datagram among
    rcases List.mem_append.mp among with old | new
    · obtain ⟨frame,genuine,rfl⟩ := sequenced.datagrams datagram old
      exact ⟨frame,genuine.later _,rfl⟩
    · obtain ⟨frame,done,rfl⟩ := exchange.sender.publish_sends _ now topic_id data datagram new
      exact ⟨frame,new_frame frame done,rfl⟩
  · intro pending among
    change pending ∈ (exchange.sender.publish (fun _ => accepted) now topic_id data).2.1.publisher.pending_data at among
    rw [PubSub.publish_publisher] at among
    rcases exchange.sender.publisher.createFrame_cases now topic_id data with ⟨_,_,kept⟩ | ⟨_,frame,done,_,_,_,_,_,kept⟩
    · rw [kept] at among
      exact (sequenced.pending pending among).later _
    · rcases kept pending among with old | same
      · exact (sequenced.pending pending old).later _
      · rw [same]
        exact new_frame frame done
  · change (exchange.sender.publish (fun _ => accepted) now topic_id data).2.1.publisher.next_seq_num.toNat =
      (exchange.attempts ++ [made]).length+1
    rw [PubSub.publish_publisher,Publisher.createFrame_next,number,List.length_append]
    rfl
  · intro topic
    obtain ⟨positive,bound⟩ := sequenced.numbers topic
    refine ⟨positive,Nat.le_trans bound ?_⟩
    change exchange.attempts.length+1 ≤ (exchange.attempts ++ [made]).length+1
    rw [List.length_append]
    omega
  · intro subscriber topic
    obtain ⟨positive,bound⟩ := sequenced.numbers topic
    have same : (exchange.attempts ++ [made]).take ((exchange.receiver.subscribers.expected topic).toNat-1) =
        exchange.attempts.take ((exchange.receiver.subscribers.expected topic).toNat-1) :=
      List.take_append_of_le_length (by omega)
    change (handedTo exchange.handed subscriber topic).Sublist (published ((exchange.attempts ++ [made]).take
      ((exchange.receiver.subscribers.expected topic).toNat-1)) topic)
    rw [same]
    exact sequenced.handed subscriber topic

theorem Sequenced.timeouts (sequenced : exchange.Sequenced) (side : Side) (now : UInt64) :
    (exchange.step (.timeouts side now)).Sequenced := by
  cases side with
  | sender =>
    obtain ⟨kept,again⟩ := exchange.sender.publisher.checkTimeouts_frames now
    refine ⟨?_,?_,sequenced.silent,?_,sequenced.valid,sequenced.numbers,sequenced.handed⟩
    · intro datagram among
      rcases List.mem_append.mp among with old | new
      · exact sequenced.datagrams datagram old
      · obtain ⟨frame,listed,rfl⟩ := List.mem_map.mp new
        obtain ⟨old,inside,rfl⟩ := again frame listed
        exact ⟨old.frame,sequenced.pending old inside,rfl⟩
    · intro pending among
      obtain ⟨old,inside,same⟩ := kept pending among
      rw [same]
      exact sequenced.pending old inside
    · exact (congrArg UInt32.toNat (exchange.sender.publisher.checkTimeouts_next now)).trans sequenced.counted
  | receiver =>
    obtain ⟨kept,again⟩ := exchange.receiver.publisher.checkTimeouts_frames now
    rw [sequenced.silent] at kept again
    refine ⟨?_,sequenced.pending,?_,sequenced.counted,sequenced.valid,sequenced.numbers,sequenced.handed⟩
    · intro datagram among
      rcases List.mem_append.mp among with old | new
      · exact sequenced.datagrams datagram old
      · obtain ⟨frame,listed,rfl⟩ := List.mem_map.mp new
        obtain ⟨old,inside,_⟩ := again frame listed
        cases inside
    · refine List.eq_nil_iff_forall_not_mem.mpr fun pending among => ?_
      obtain ⟨old,inside,_⟩ := kept pending among
      cases inside

theorem Sequenced.deliverSender (sequenced : exchange.Sequenced) (index : Nat) (now : UInt64) :
    (exchange.step (.deliver .sender index now)).Sequenced := by
  cases found : exchange.sent[index]? with
  | none =>
    rw [step_missing found]
    exact sequenced
  | some datagram =>
    rw [step_sender found]
    obtain ⟨frame,genuine,rfl⟩ := sequenced.datagrams datagram (List.mem_of_getElem? found)
    obtain ⟨sends,pending,number⟩ := PubSub.received_genuine genuine now sequenced.pending
    generalize exchange.sender.handleReceivedData now frame.toBytes = reaction at sends pending number ⊢
    refine ⟨?_,pending,sequenced.silent,?_,sequenced.valid,sequenced.numbers,sequenced.handed⟩
    · intro datagram among
      rcases List.mem_append.mp among with old | new
      · exact sequenced.datagrams datagram old
      · exact sends datagram new
    · exact (congrArg UInt32.toNat number).trans sequenced.counted

theorem handed_next {attempts : List (Option (UInt16 × Bytes))} {number : Nat} {topic_id : UInt16} {data : Bytes}
    (made : attempts[number]? = some (some (topic_id,data))) {before given : List Bytes}
    (behind : before.Sublist (published (attempts.take number) topic_id)) (one : given = [] ∨ given = [data]) :
    (before ++ given).Sublist (published (attempts.take (number+1)) topic_id) := by
  rw [List.take_add_one,made,Option.toList_some,published_append,published_topic]
  refine behind.append ?_
  rcases one with rfl | rfl
  · exact List.nil_sublist _
  · exact List.Sublist.refl _

theorem Sequenced.deliverReceiver (sequenced : exchange.Sequenced) {index : Nat} {now : UInt64}
    (orderly : exchange.Orderly (.deliver .receiver index now)) :
    (exchange.step (.deliver .receiver index now)).Sequenced := by
  cases found : exchange.sent[index]? with
  | none =>
    rw [step_missing found]
    exact sequenced
  | some datagram =>
    rw [step_receiver found]
    obtain ⟨frame,genuine,rfl⟩ := sequenced.datagrams datagram (List.mem_of_getElem? found)
    have pending : ∀ pending ∈ exchange.receiver.publisher.pending_data, Genuine exchange.attempts pending.frame := by
      rw [sequenced.silent]
      exact fun _ among => absurd among List.not_mem_nil
    have sends := (PubSub.received_genuine genuine now pending).1
    have datagrams : ∀ datagram ∈ exchange.sent ++ (exchange.receiver.handleReceivedData now frame.toBytes).sent,
        ∃ frame, Genuine exchange.attempts frame ∧ datagram = frame.toBytes := by
      intro datagram among
      rcases List.mem_append.mp among with old | new
      · exact sequenced.datagrams datagram old
      · exact sends datagram new
    rcases genuine.kind with is_nack | ⟨is_data,positive,made⟩
    · -- Nothing is pending here, so nothing is sent and nothing changes.
      have reaction := @PubSub.handleReceivedData_nack exchange.receiver _ genuine.formed is_nack now
      obtain ⟨kept,_⟩ := exchange.receiver.publisher.handleNack_frames now frame.seq_num frame.topic_id
      rw [sequenced.silent] at kept
      rw [reaction] at datagrams ⊢
      refine ⟨datagrams,sequenced.pending,?_,sequenced.counted,sequenced.valid,sequenced.numbers,?_⟩
      · refine List.eq_nil_iff_forall_not_mem.mpr fun each among => ?_
        obtain ⟨old,inside,_⟩ := kept each among
        cases inside
      · intro subscriber topic
        change (handedTo (exchange.handed ++ []) subscriber topic).Sublist _
        rw [List.append_nil]
        exact sequenced.handed subscriber topic
    · have received := @PubSub.handleDataFrame_received exchange.receiver sequenced.valid now frame
      rw [← PubSub.handleReceivedData_data genuine.formed is_data now] at received
      generalize exchange.receiver.handleReceivedData now frame.toBytes = reaction at received datagrams ⊢
      cases received with
      | refused outside same nothing silent =>
        rw [same,nothing,List.append_nil]
        exact ⟨datagrams,sequenced.pending,sequenced.silent,sequenced.counted,sequenced.valid,sequenced.numbers,
          sequenced.handed⟩
      | ahead inside later same nothing asked =>
        rw [same,nothing,List.append_nil]
        exact ⟨datagrams,sequenced.pending,sequenced.silent,sequenced.counted,sequenced.valid,sequenced.numbers,
          sequenced.handed⟩
      | behind inside earlier same silent given =>
        have least := orderly _ frame found (ProtocolFrame.frame_roundtrip genuine.formed) is_data inside
        exact absurd earlier (UInt32.not_lt.mpr least)
      | expected inside next same silent given =>
        obtain ⟨below,_⟩ := List.getElem?_eq_some_iff.mp made
        have number : (frame.seq_num+1).toNat = frame.seq_num.toNat+1 := by
          have counter := exchange.sender.publisher.next_seq_num.toNat_lt
          rw [sequenced.counted] at counter
          rw [UInt32.toNat_add]
          refine Nat.mod_eq_of_lt ?_
          change frame.seq_num.toNat+1 < 2^32
          omega
        have expects : ∀ topic, reaction.pubsub.subscribers.expected topic =
            if topic = frame.topic_id then frame.seq_num+1 else exchange.receiver.subscribers.expected topic := by
          intro topic
          rw [SubscriberManager.expected,given.numbers,← SubscriberManager.expected,
            SubscriberManager.advanced_expected sequenced.valid inside,← next]
        refine ⟨datagrams,sequenced.pending,by rw [same]; exact sequenced.silent,sequenced.counted,given.valid,?_,?_⟩
        · intro topic
          change 0 < (reaction.pubsub.subscribers.expected topic).toNat ∧
            (reaction.pubsub.subscribers.expected topic).toNat ≤ exchange.attempts.length+1
          rw [expects topic]
          split
          · rw [number]
            omega
          · exact sequenced.numbers topic
        · intro subscriber topic
          change (handedTo (exchange.handed ++ reaction.handed) subscriber topic).Sublist
            (published (exchange.attempts.take ((reaction.pubsub.subscribers.expected topic).toNat-1)) topic)
          rw [handedTo_append,expects topic]
          have before := sequenced.handed subscriber topic
          by_cases this_topic : topic = frame.topic_id
          · subst this_topic
            rw [if_pos rfl,number,Nat.add_sub_cancel]
            rw [← next] at before
            have one : handedTo reaction.handed subscriber frame.topic_id = [] ∨
                handedTo reaction.handed subscriber frame.topic_id = [frame.payload] :=
              (given.once subscriber frame.topic_id).imp id And.right
            have step := handed_next made before one
            rwa [Nat.sub_add_cancel positive] at step
          · rw [if_neg this_topic]
            rcases given.once subscriber topic with nothing | ⟨same_topic,_⟩
            · rw [nothing,List.append_nil]
              exact before
            · exact absurd same_topic this_topic

theorem Sequenced.step (sequenced : exchange.Sequenced) {step : ExchangeStep} (orderly : exchange.Orderly step) :
    (exchange.step step).Sequenced := by
  cases step with
  | publish accepted now topic_id data => exact sequenced.publish orderly
  | timeouts side now => exact sequenced.timeouts side now
  | deliver side index now =>
    cases side with
    | sender => exact sequenced.deliverSender index now
    | receiver => exact sequenced.deliverReceiver orderly

theorem Sequenced.run (sequenced : exchange.Sequenced) (steps : List ExchangeStep) (orderly : exchange.OrderlyRun steps) :
    (exchange.run steps).Sequenced := by
  induction steps generalizing exchange with
  | nil => exact sequenced
  | cons step rest ih => exact ih (sequenced.step orderly.1) orderly.2

-- Whatever is lost, repeated or late on the way: as long as no frame comes that
-- is behind its topic, a subscriber sees a subsequence of what was published.
theorem handed_in_order (fresh : exchange.Fresh) (steps : List ExchangeStep) (orderly : exchange.OrderlyRun steps)
    (subscriber : Nat) (topic_id : UInt16) :
    (handedTo (exchange.run steps).handed subscriber topic_id).Sublist
      (published (exchange.run steps).attempts topic_id) := by
  have sequenced := fresh.sequenced.run steps orderly
  refine (sequenced.handed subscriber topic_id).trans ?_
  exact (List.take_sublist _ _).filterMap _

section Pair

def silentManager : SubscriberManager := ⟨1,1,[[none]],[none],1,[1]⟩
def listening : SubscriberManager := (silentManager.subscribe 0 0 fun _ _ => true).2
def pair : Exchange := ⟨⟨silentManager,.new true 100 3,10000⟩,⟨listening,.new true 100 3,10000⟩,[],[],[]⟩

theorem silentManager_new : SubscriberManager.new 1 1 = .ok silentManager := rfl

theorem pair_fresh : pair.Fresh := ⟨rfl,rfl,rfl,.subscribe (.new silentManager_new) 0 0 _,rfl,rfl,rfl⟩

def sendSeven : ExchangeStep := .publish true 0 0 [7]
def receiveFirst : ExchangeStep := .deliver .receiver 0 0

theorem handed_in_order_once : (handedTo (pair.run [sendSeven,receiveFirst]).handed 1 0).Sublist
    (published (pair.run [sendSeven,receiveFirst]).attempts 0) := by
  have orderly : pair.OrderlyRun [sendSeven,receiveFirst] := by
    have small : (1 : UInt32).toNat+1 < 2^32 := by decide
    refine ⟨small,?_,trivial⟩
    intro datagram frame found parsed _ _
    have first : ((pair.step sendSeven).sent[0]?.bind fun bytes => (ProtocolFrame.fromBytes bytes).toOption).map
        (fun frame => (frame.seq_num,frame.topic_id)) = some (1,0) := by decide +kernel
    rw [found,Option.bind_some,parsed] at first
    obtain ⟨number,topic⟩ := Prod.mk.inj (Option.some.inj first)
    rw [number,topic]
    decide +kernel
  exact handed_in_order pair_fresh _ orderly 1 0

-- The frame of the only payload arrives twice and is handed over twice.
theorem handed_twice : pair.Fresh ∧
    ¬ (handedTo (pair.run [sendSeven,receiveFirst,receiveFirst]).handed 1 0).Sublist
      (published (pair.run [sendSeven,receiveFirst,receiveFirst]).attempts 0) := by
  refine ⟨pair_fresh,fun sublist => ?_⟩
  have longer := sublist.length_le
  revert longer
  decide +kernel

end Pair
end Exchange
end RemDb
