import RemDb.PubSub.Reliable

namespace RemDb
open RemDb.Lib

-- A call of `publish`: its time, topic and data.
abbrev PublishCall := UInt64 × UInt16 × Bytes

namespace PublishCall

def topic (call : PublishCall) : UInt16 := call.2.1
def data (call : PublishCall) : Bytes := call.2.2

def fits (call : PublishCall) : Bool := decide (call.data.length ≤ ProtocolFrame.MAX_DATA_LEN)

def reaches (topic_id : UInt16) (call : PublishCall) : Bool := call.fits && decide (call.topic = topic_id)

end PublishCall

namespace PubSub

def publishEach (pubsub : PubSub) : List PublishCall → List (List Bytes)
  | [] => []
  | (now,topic_id,data) :: rest =>
    let published := pubsub.publish (fun _ => true) now topic_id data
    published.2.2 :: published.2.1.publishEach rest

def receiveAll (pubsub : PubSub) : List (UInt64 × Bytes) → Reaction
  | [] => ⟨pubsub,[],[]⟩
  | (now,datagram) :: rest =>
    let first := pubsub.handleReceivedData now datagram
    let others := first.pubsub.receiveAll rest
    ⟨others.pubsub,first.handed ++ others.handed,first.sent ++ others.sent⟩

end PubSub

def payloads (calls : List PublishCall) (topic_id : UInt16) : List Bytes :=
  (calls.filter (PublishCall.reaches topic_id)).map PublishCall.data

-- On a perfect network every subscriber that takes what it is given gets all
-- that is published on its topic; and in whatever way the frames arrive, each
-- NACK that is sent asks for a frame of its topic.
structure NoLoss (sender receiver : PubSub) (calls : List PublishCall) : Prop where
  handed : ∀ arrivals, arrivals.map Prod.snd = (sender.publishEach calls).flatten →
    ∀ topic_id id, receiver.subscribers.Accepts topic_id id →
      handedTo (receiver.receiveAll arrivals).handed id topic_id = payloads calls topic_id
  nacks : ∀ arrivals, (∀ arrival ∈ arrivals, arrival.2 ∈ (sender.publishEach calls).flatten) →
    ∀ datagram ∈ (receiver.receiveAll arrivals).sent, ∃ published ∈ (sender.publishEach calls).flatten, ∃ frame,
      ProtocolFrame.fromBytes published = .ok frame ∧
        datagram = (ProtocolFrame.newNackFrame frame.seq_num frame.topic_id).toBytes

def OneTopic (calls : List PublishCall) : Prop :=
  calls.Pairwise fun earlier later => later.fits = true → earlier.fits = true ∧ earlier.topic = later.topic

instance (calls : List PublishCall) : Decidable (OneTopic calls) :=
  inferInstanceAs (Decidable (List.Pairwise _ calls))

section Frames
variable {calls : List PublishCall} {number : Nat}

def frameOf (number : Nat) (call : PublishCall) : ProtocolFrame :=
  ⟨.data,UInt32.ofNat number,call.topic,UInt16.ofNat call.data.length,calculateCrc32 call.data,call.data⟩

theorem frameOf_made {call : PublishCall} (fits : call.fits = true) (number : Nat) :
    ProtocolFrame.newDataFrame (UInt32.ofNat number) call.topic call.data = .ok (frameOf number call) :=
  if_neg (Nat.not_lt.mpr (of_decide_eq_true fits))

def framesFrom (number : Nat) : List PublishCall → List ProtocolFrame
  | [] => []
  | call :: rest => if call.fits then frameOf number call :: framesFrom (number+1) rest else framesFrom (number+1) rest

theorem publishEach_frames (pubsub : PubSub) (calls : List PublishCall) (number : Nat)
    (next : pubsub.publisher.next_seq_num = UInt32.ofNat number) :
    (pubsub.publishEach calls).flatten = (framesFrom number calls).map ProtocolFrame.toBytes := by
  induction calls generalizing pubsub number with
  | nil => rfl
  | cons call rest ih =>
    obtain ⟨now,topic_id,data⟩ := call
    have after : (pubsub.publish (fun _ => true) now topic_id data).2.1.publisher.next_seq_num = UInt32.ofNat (number+1) := by
      rw [PubSub.publish_publisher,Publisher.createFrame_next,next,UInt32.ofNat_add]
      rfl
    have others := ih _ _ after
    rw [PubSub.publishEach,List.flatten_cons,others,framesFrom]
    cases fits : PublishCall.fits (now,topic_id,data) with
    | true =>
      have made := frameOf_made fits number
      rw [← next] at made
      have sent : (pubsub.publish (fun _ => true) now topic_id data).2.2 = [(frameOf number (now,topic_id,data)).toBytes] := by
        unfold PubSub.publish Publisher.createFrame
        change ProtocolFrame.newDataFrame pubsub.publisher.next_seq_num topic_id data = _ at made
        rw [made]
        cases pubsub.publisher.enable_nack <;> rfl
      rw [sent]
      rfl
    | false =>
      have refused : ProtocolFrame.newDataFrame pubsub.publisher.next_seq_num topic_id data = .error .invalidParameter :=
        if_pos (Nat.not_le.mp (of_decide_eq_false fits))
      have sent : (pubsub.publish (fun _ => true) now topic_id data).2.2 = [] := by
        unfold PubSub.publish Publisher.createFrame
        rw [refused]
      rw [sent]
      rfl

theorem mem_framesFrom {frame : ProtocolFrame} :
    frame ∈ framesFrom number calls ↔ ∃ index call, calls[index]? = some call ∧ call.fits = true ∧
      frame = frameOf (number+index) call := by
  induction calls generalizing number with
  | nil => simp [framesFrom]
  | cons first rest ih =>
    have shifted : (∃ index call, rest[index]? = some call ∧ call.fits = true ∧ frame = frameOf (number+1+index) call) ↔
        ∃ index call, (first :: rest)[index+1]? = some call ∧ call.fits = true ∧ frame = frameOf (number+(index+1)) call := by
      simp only [List.getElem?_cons_succ,Nat.add_assoc,Nat.add_comm 1]
    constructor
    · intro among
      have split_frames : frame ∈ framesFrom (number+1) rest ∨ (first.fits = true ∧ frame = frameOf number first) := by
        rw [framesFrom] at among
        split at among
        · rename_i fits
          rcases List.mem_cons.mp among with same | later
          · exact .inr ⟨fits,same⟩
          · exact .inl later
        · exact .inl among
      rcases split_frames with later | ⟨fits,same⟩
      · obtain ⟨index,call,found⟩ := shifted.mp (ih.mp later)
        exact ⟨index+1,call,found⟩
      · exact ⟨0,first,rfl,fits,same⟩
    · rintro ⟨index,call,found,fits,same⟩
      rw [framesFrom]
      cases index with
      | zero =>
        cases found
        rw [if_pos fits,same]
        exact List.mem_cons_self
      | succ index =>
        have later := ih.mpr (shifted.mpr ⟨index,call,found,fits,same⟩)
        split
        · exact List.mem_cons_of_mem _ later
        · exact later

theorem frameOf_formed {call : PublishCall} (fits : call.fits = true) (number : Nat) : (frameOf number call).WellFormed :=
  ProtocolFrame.newDataFrame_wellFormed (frameOf_made fits number)

theorem toBytes_inj {left right : ProtocolFrame} (left_formed : left.WellFormed) (right_formed : right.WellFormed)
    (same : left.toBytes = right.toBytes) : left = right := by
  have read := ProtocolFrame.frame_roundtrip left_formed
  rw [same,ProtocolFrame.frame_roundtrip right_formed] at read
  exact (Except.ok.inj read).symm

end Frames

namespace OneTopic
variable {done : List PublishCall} {call : PublishCall} {topic_id : UInt16}

theorem reached (one : OneTopic done) {index : Nat} (found : done[index]? = some call) (fits : call.fits = true) :
    ∀ earlier ∈ done.take (index+1), earlier.reaches call.topic = true := by
  obtain ⟨bound,rfl⟩ := List.getElem?_eq_some_iff.mp found
  intro earlier among
  obtain ⟨place,inside,rfl⟩ := List.getElem_of_mem among
  rw [List.length_take] at inside
  rw [List.getElem_take]
  by_cases same : place = index
  · subst same
    rw [PublishCall.reaches,fits,decide_eq_true rfl]
    rfl
  · have before := List.pairwise_iff_getElem.mp one place index (by omega) bound (by omega) fits
    rw [PublishCall.reaches,before.1,decide_eq_true before.2]
    rfl

theorem count (one : OneTopic done) {index : Nat} (found : done[index]? = some call) (fits : call.fits = true) :
    index < done.countP (PublishCall.reaches call.topic) := by
  have all := List.countP_eq_length.mpr (one.reached found fits)
  have fewer := (List.take_sublist (index+1) done).countP_le (p := PublishCall.reaches call.topic)
  obtain ⟨bound,_⟩ := List.getElem?_eq_some_iff.mp found
  rw [all,List.length_take] at fewer
  omega

theorem extend (one : OneTopic done)
    (all : call.fits = true → ∀ earlier ∈ done, earlier.reaches call.topic = true) : OneTopic (done ++ [call]) := by
  refine List.pairwise_append.mpr ⟨one,List.pairwise_singleton _ _,?_⟩
  intro earlier among later last fits
  rw [List.mem_singleton.mp last] at fits ⊢
  have reaches := Bool.and_eq_true_iff.mp (all fits earlier among)
  exact ⟨reaches.1,of_decide_eq_true reaches.2⟩

theorem earlier {rest : List PublishCall} (one : OneTopic (done ++ call :: rest)) (fits : call.fits = true) :
    ∀ earlier ∈ done, earlier.reaches call.topic = true := by
  intro earlier among
  have before := (List.pairwise_append.mp one).2.2 earlier among call List.mem_cons_self fits
  rw [PublishCall.reaches,before.1,decide_eq_true before.2]
  rfl

end OneTopic
namespace PubSub
variable {pubsub : PubSub} {done rest calls : List PublishCall} {call : PublishCall}

-- A receiver to which all frames of some calls have come, and each was expected.
structure Expects (pubsub : PubSub) (done : List PublishCall) : Prop where
  valid : pubsub.subscribers.Valid
  numbers : ∀ topic_id, pubsub.subscribers.expected topic_id =
    UInt32.ofNat (1+done.countP (PublishCall.reaches topic_id))

theorem ofNat_toNat {number : Nat} (small : number < 2^32) : (UInt32.ofNat number).toNat = number := by
  rw [UInt32.toNat_ofNat']
  exact Nat.mod_eq_of_lt small

theorem Expects.skip (expects : pubsub.Expects done) (long : call.fits = false) : pubsub.Expects (done ++ [call]) := by
  refine ⟨expects.valid,fun topic_id => ?_⟩
  have missed : [call].countP (PublishCall.reaches topic_id) = 0 := by
    rw [List.countP_eq_zero]
    intro each among
    rw [List.mem_singleton.mp among,PublishCall.reaches,long]
    exact Bool.false_ne_true
  rw [List.countP_append,missed]
  exact expects.numbers topic_id

-- The next frame is handed over if all calls so far were on its topic, and asked
-- for from the beginning if not.
theorem Expects.receive (expects : pubsub.Expects done) (short : done.length+2 < 2^32) (fits : call.fits = true)
    (inside : call.topic.toNat < pubsub.subscribers.max_topics) (now : UInt64) {reaction : Reaction}
    (received : reaction = pubsub.handleReceivedData now (frameOf (done.length+1) call).toBytes) :
    ((∀ earlier ∈ done, earlier.reaches call.topic = true) ∧ reaction.pubsub.Expects (done ++ [call]) ∧
        reaction.sent = [] ∧ SubscriberManager.Distributed (pubsub.subscribers.advanced call.topic)
          reaction.pubsub.subscribers call.topic call.data reaction.handed) ∨
      (done.countP (PublishCall.reaches call.topic) < done.length ∧ reaction.sent = [(ProtocolFrame.newNackFrame
        (UInt32.ofNat (1+done.countP (PublishCall.reaches call.topic))) call.topic).toBytes]) := by
  have most := done.countP_le_length (p := PublishCall.reaches call.topic)
  have number : (UInt32.ofNat (1+done.countP (PublishCall.reaches call.topic))).toNat =
      1+done.countP (PublishCall.reaches call.topic) := ofNat_toNat (by omega)
  have frame_number : (frameOf (done.length+1) call).seq_num.toNat = done.length+1 := ofNat_toNat (by omega)
  have cases_of := handleDataFrame_received expects.valid now (frameOf (done.length+1) call)
  rw [← handleReceivedData_data (frameOf_formed fits _) rfl now,← received] at cases_of
  have expected := expects.numbers call.topic
  cases cases_of with
  | refused outside => exact absurd inside (Nat.not_lt.mpr outside)
  | ahead _ later _ _ asked =>
    change pubsub.subscribers.expected call.topic < _ at later
    rw [UInt32.lt_iff_toNat_lt,frame_number,expected,number] at later
    refine .inr ⟨by omega,?_⟩
    rw [asked]
    change [(ProtocolFrame.newNackFrame (pubsub.subscribers.expected call.topic) call.topic).toBytes] = _
    rw [expected]
  | behind _ earlier =>
    change _ < pubsub.subscribers.expected call.topic at earlier
    rw [UInt32.lt_iff_toNat_lt,frame_number,expected,number] at earlier
    omega
  | expected _ next _ silent given =>
    change _ = pubsub.subscribers.expected call.topic at next
    have same := congrArg UInt32.toNat next
    rw [frame_number,expected,number] at same
    have all := List.countP_eq_length.mp (show done.countP (PublishCall.reaches call.topic) = done.length by omega)
    refine .inl ⟨all,⟨given.valid,fun topic_id => ?_⟩,silent,given⟩
    rw [SubscriberManager.expected,given.numbers,← SubscriberManager.expected]
    change (pubsub.subscribers.advanced call.topic).expected topic_id = _
    rw [SubscriberManager.advanced_expected expects.valid inside,List.countP_append]
    split
    · rename_i this_topic
      have one : [call].countP (PublishCall.reaches topic_id) = 1 := by
        rw [List.countP_eq_length.mpr fun each among => ?_]
        · rfl
        · rw [List.mem_singleton.mp among,PublishCall.reaches,fits,decide_eq_true this_topic.symm]
          rfl
      rw [one,this_topic,expected,← Nat.add_assoc]
      exact (UInt32.ofNat_add _ 1).symm
    · rename_i other_topic
      have none_more : [call].countP (PublishCall.reaches topic_id) = 0 := by
        rw [List.countP_eq_zero]
        intro each among
        rw [List.mem_singleton.mp among,PublishCall.reaches,fits,decide_eq_false fun same => other_topic same.symm]
        exact Bool.false_ne_true
      rw [none_more]
      exact expects.numbers topic_id

theorem payloads_cons (call : PublishCall) (rest : List PublishCall) (topic_id : UInt16) :
    payloads (call :: rest) topic_id = (if call.reaches topic_id then [call.data] else []) ++ payloads rest topic_id := by
  rw [payloads,List.filter_cons]
  split <;> rfl

theorem handed_all (one : OneTopic (done ++ rest)) (expects : pubsub.Expects done)
    (topics : ∀ call ∈ rest, call.topic.toNat < pubsub.subscribers.max_topics) (short : (done ++ rest).length+1 < 2^32)
    (arrivals : List (UInt64 × Bytes))
    (perfect : arrivals.map Prod.snd = (framesFrom (done.length+1) rest).map ProtocolFrame.toBytes) (topic_id : UInt16)
    (id : Nat) (accepts : pubsub.subscribers.Accepts topic_id id) :
    handedTo (pubsub.receiveAll arrivals).handed id topic_id = payloads rest topic_id := by
  induction rest generalizing done pubsub arrivals with
  | nil =>
    rw [List.map_eq_nil_iff.mp perfect]
    rfl
  | cons call rest ih =>
    have length : (done ++ call :: rest).length = (done ++ [call] ++ rest).length := by
      simp only [List.length_append,List.length_cons,List.length_nil]
      omega
    have one' : OneTopic (done ++ [call] ++ rest) := by
      rw [List.append_assoc]
      exact one
    have count : (done ++ [call]).length+1 = done.length+1+1 := by
      rw [List.length_append]
      rfl
    rw [payloads_cons]
    cases fits : call.fits with
    | false =>
      rw [framesFrom,if_neg (Bool.not_eq_true _ ▸ fits),← count] at perfect
      have missed : ¬ call.reaches topic_id = true := by
        rw [PublishCall.reaches,fits]
        exact Bool.false_ne_true
      rw [if_neg missed,List.nil_append]
      exact ih one' (expects.skip fits) (fun each among => topics each (List.mem_cons_of_mem _ among)) (length ▸ short)
        arrivals perfect accepts
    | true =>
      rw [framesFrom,if_pos fits,← count,List.map_cons] at perfect
      obtain ⟨⟨now,datagram⟩,others,rfl,same,later⟩ := List.map_eq_cons_iff.mp perfect
      change datagram = _ at same
      subst same
      have room : done.length+2 < 2^32 := by
        rw [List.length_append,List.length_cons] at short
        omega
      have inside := topics call List.mem_cons_self
      rw [receiveAll]
      simp only
      generalize reacted : pubsub.handleReceivedData now (frameOf (done.length+1) call).toBytes = reaction
      rcases expects.receive room fits inside now reacted.symm with ⟨_,after,_,given⟩ | ⟨fewer,_⟩
      · rw [handedTo_append]
        have kept : reaction.pubsub.subscribers.Accepts topic_id id := given.kept id topic_id accepts
        have topics' : ∀ each ∈ rest, each.topic.toNat < reaction.pubsub.subscribers.max_topics := by
          rw [given.topics]
          exact fun each among => topics each (List.mem_cons_of_mem _ among)
        rw [ih one' after topics' (length ▸ short) others later kept]
        congr 1
        by_cases this_topic : call.topic = topic_id
        · subst this_topic
          rw [given.accepted id accepts,PublishCall.reaches,fits,decide_eq_true rfl]
          rfl
        · rw [PublishCall.reaches,fits,decide_eq_false this_topic]
          rcases given.once id topic_id with nothing | ⟨same_topic,_⟩
          · exact nothing
          · exact absurd same_topic.symm this_topic
      · rw [List.countP_eq_length.mpr (one.earlier fits)] at fewer
        exact absurd fewer (Nat.lt_irrefl _)

theorem nacks_published (one : OneTopic calls) (short : calls.length+1 < 2^32) (valid : pubsub.subscribers.Valid)
    (positive : ∀ topic_id, 0 < (pubsub.subscribers.expected topic_id).toNat) (arrivals : List (UInt64 × Bytes))
    (published : ∀ arrival ∈ arrivals, arrival.2 ∈ (framesFrom 1 calls).map ProtocolFrame.toBytes) :
    ∀ datagram ∈ (pubsub.receiveAll arrivals).sent, ∃ frame ∈ framesFrom 1 calls,
      datagram = (ProtocolFrame.newNackFrame frame.seq_num frame.topic_id).toBytes := by
  induction arrivals generalizing pubsub with
  | nil => exact fun datagram among => absurd among List.not_mem_nil
  | cons first others ih =>
    obtain ⟨now,bytes⟩ := first
    obtain ⟨frame,listed,rfl⟩ := List.mem_map.mp (published _ List.mem_cons_self)
    obtain ⟨index,call,found,fits,rfl⟩ := mem_framesFrom.mp listed
    obtain ⟨bound,_⟩ := List.getElem?_eq_some_iff.mp found
    have frame_number : (frameOf (1+index) call).seq_num.toNat = 1+index := ofNat_toNat (by omega)
    have later : ∀ arrival ∈ others, arrival.2 ∈ (framesFrom 1 calls).map ProtocolFrame.toBytes :=
      fun arrival among => published arrival (List.mem_cons_of_mem _ among)
    have cases_of := handleDataFrame_received valid now (frameOf (1+index) call)
    rw [← handleReceivedData_data (frameOf_formed fits _) rfl now] at cases_of
    rw [receiveAll]
    simp only
    generalize pubsub.handleReceivedData now (frameOf (1+index) call).toBytes = reaction at cases_of ⊢
    intro datagram among
    rcases List.mem_append.mp among with here | among
    · cases cases_of with
      | refused _ _ _ silent =>
        rw [silent] at here
        cases here
      | behind _ _ _ silent =>
        rw [silent] at here
        cases here
      | expected _ _ _ silent =>
        rw [silent] at here
        cases here
      | ahead inside ahead _ _ asked =>
        -- All calls up to this one are on its topic, so the expected one is.
        rw [asked] at here
        rw [List.mem_singleton.mp here]
        change pubsub.subscribers.expected call.topic < _ at ahead
        rw [UInt32.lt_iff_toNat_lt,frame_number] at ahead
        have least := positive call.topic
        generalize wanted : pubsub.subscribers.expected call.topic = expected at ahead least
        have place : expected.toNat-1 < calls.length := by omega
        have reaches := one.reached found fits calls[expected.toNat-1] (by
          rw [List.mem_take_iff_getElem]
          exact ⟨expected.toNat-1,by omega,rfl⟩)
        obtain ⟨earlier_fits,same_topic⟩ := Bool.and_eq_true_iff.mp reaches
        refine ⟨_,mem_framesFrom.mpr ⟨expected.toNat-1,calls[expected.toNat-1],List.getElem?_eq_getElem place,
          earlier_fits,rfl⟩,?_⟩
        have sum : 1+(expected.toNat-1) = expected.toNat := by omega
        change (ProtocolFrame.newNackFrame (pubsub.subscribers.expected call.topic) call.topic).toBytes =
          (ProtocolFrame.newNackFrame (UInt32.ofNat (1+(expected.toNat-1))) calls[expected.toNat-1].topic).toBytes
        rw [wanted,sum,UInt32.ofNat_toNat,of_decide_eq_true same_topic]
    · refine ih ?_ ?_ later datagram among
      · cases cases_of with
        | refused _ same => rw [same]; exact valid
        | ahead _ _ same => rw [same]; exact valid
        | behind _ _ _ _ given => exact given.valid
        | expected _ _ _ _ given => exact given.valid
      · intro topic_id
        cases cases_of with
        | refused _ same => rw [same]; exact positive topic_id
        | ahead _ _ same => rw [same]; exact positive topic_id
        | behind _ _ _ _ given =>
          rw [SubscriberManager.expected,given.numbers]
          exact positive topic_id
        | expected inside next _ _ given =>
          rw [SubscriberManager.expected,given.numbers,← SubscriberManager.expected,
            SubscriberManager.advanced_expected valid inside,← next]
          split
          · rw [UInt32.toNat_add,frame_number]
            change 0 < (1+index+1)%2^32
            rw [Nat.mod_eq_of_lt (by omega)]
            omega
          · exact positive topic_id

theorem oneTopic_of_nacks (one : OneTopic done) (expects : pubsub.Expects done)
    (topics : ∀ call ∈ rest, call.topic.toNat < pubsub.subscribers.max_topics) (short : (done ++ rest).length+1 < 2^32)
    (asks : ∀ datagram ∈ (pubsub.receiveAll ((framesFrom (done.length+1) rest).map fun frame => (0,frame.toBytes))).sent,
      ∃ frame ∈ framesFrom 1 (done ++ rest), datagram = (ProtocolFrame.newNackFrame frame.seq_num frame.topic_id).toBytes) :
    OneTopic (done ++ rest) := by
  induction rest generalizing done pubsub with
  | nil =>
    rw [List.append_nil]
    exact one
  | cons call rest ih =>
    have regroup : done ++ call :: rest = done ++ [call] ++ rest := (List.append_assoc done [call] rest).symm
    have count : (done ++ [call]).length+1 = done.length+1+1 := by
      rw [List.length_append]
      rfl
    have room : done.length+2 < 2^32 := by
      rw [List.length_append,List.length_cons] at short
      omega
    rw [regroup] at short asks ⊢
    cases fits : call.fits with
    | false =>
      rw [framesFrom,if_neg (Bool.not_eq_true _ ▸ fits),← count] at asks
      refine ih (one.extend fun held => ?_) (expects.skip fits) (fun each among => topics each (List.mem_cons_of_mem _ among))
        short asks
      rw [fits] at held
      cases held
    | true =>
      rw [framesFrom,if_pos fits,← count,List.map_cons,receiveAll] at asks
      simp only at asks
      generalize reacted : pubsub.handleReceivedData 0 (frameOf (done.length+1) call).toBytes = reaction at asks
      rcases expects.receive room fits (topics call List.mem_cons_self) 0 reacted.symm with
        ⟨all,after,silent,given⟩ | ⟨fewer,asked⟩
      · have topics' : ∀ each ∈ rest, each.topic.toNat < reaction.pubsub.subscribers.max_topics := by
          rw [given.topics]
          exact fun each among => topics each (List.mem_cons_of_mem _ among)
        exact ih (one.extend fun _ => all) after topics' short fun datagram among =>
          asks datagram (List.mem_append_right _ among)
      · -- The frame that is asked for would be the first one missing.
        obtain ⟨frame,listed,same⟩ := asks _ (List.mem_append_left _ (asked ▸ List.mem_cons_self))
        have equal := toBytes_inj (ProtocolFrame.newNackFrame_wellFormed _ _) (ProtocolFrame.newNackFrame_wellFormed _ _) same
        obtain ⟨index,other,found,other_fits,rfl⟩ := mem_framesFrom.mp listed
        obtain ⟨bound,_⟩ := List.getElem?_eq_some_iff.mp found
        injection equal with _ number topic
        have number := congrArg UInt32.toNat number
        change _ = (UInt32.ofNat (1+index)).toNat at number
        rw [ofNat_toNat (by omega),ofNat_toNat (by omega)] at number
        change call.topic = other.topic at topic
        rw [topic] at number fewer
        have among_done : done[index]? = some other := by
          rw [List.append_assoc] at found
          exact (List.getElem?_append_left (by omega)).symm.trans found
        have counted := one.count among_done other_fits
        omega

theorem Expects.start (subscribed : pubsub.subscribers.Subscribed) : pubsub.Expects [] :=
  ⟨subscribed.ready.1,subscribed.ready.2.2⟩

end PubSub

-- A number counts the calls of the publisher, and the receiver counts them by
-- topic: the two agree on the calls of one topic in front of the first failure.
theorem no_loss_iff (sender receiver : PubSub) (started : sender.publisher.next_seq_num = 1)
    (subscribed : receiver.subscribers.Subscribed) (calls : List PublishCall)
    (topics : ∀ call ∈ calls, call.topic.toNat < receiver.subscribers.max_topics) (short : calls.length+1 < 2^32) :
    NoLoss sender receiver calls ↔ OneTopic calls := by
  have frames := publishEach_frames sender calls 1 started
  have expects := PubSub.Expects.start subscribed
  constructor
  · intro noLoss
    refine PubSub.oneTopic_of_nacks List.Pairwise.nil expects topics short fun datagram among => ?_
    have from_frames : ∀ arrival ∈ (framesFrom 1 calls).map fun frame => ((0 : UInt64),frame.toBytes),
        arrival.2 ∈ (sender.publishEach calls).flatten := by
      intro arrival listed
      obtain ⟨frame,inside,rfl⟩ := List.mem_map.mp listed
      rw [frames]
      exact List.mem_map_of_mem inside
    obtain ⟨bytes,published,frame,read,same⟩ := noLoss.nacks _ from_frames datagram among
    rw [frames] at published
    obtain ⟨made,listed,rfl⟩ := List.mem_map.mp published
    refine ⟨made,listed,?_⟩
    obtain ⟨_,_,_,fits,rfl⟩ := mem_framesFrom.mp listed
    rw [ProtocolFrame.frame_roundtrip (frameOf_formed fits _)] at read
    rw [Except.ok.inj read]
    exact same
  · intro one
    refine ⟨?_,?_⟩
    · intro arrivals perfect topic_id id accepts
      rw [frames] at perfect
      exact PubSub.handed_all (show OneTopic ([] ++ calls) from one) expects topics short arrivals perfect topic_id id accepts
    · intro arrivals published datagram among
      have positive : ∀ topic_id, 0 < (receiver.subscribers.expected topic_id).toNat := by
        intro topic_id
        rw [subscribed.ready.2.2]
        decide
      rw [frames] at published ⊢
      obtain ⟨frame,listed,same⟩ := PubSub.nacks_published one short expects.valid positive arrivals published datagram among
      refine ⟨frame.toBytes,List.mem_map_of_mem listed,frame,?_,same⟩
      obtain ⟨_,_,_,fits,rfl⟩ := mem_framesFrom.mp listed
      exact ProtocolFrame.frame_roundtrip (frameOf_formed fits _)

section TwoTopics

def twoTopics : SubscriberManager := ⟨2,1,[[none],[none]],[none],1,[1,1]⟩

theorem twoTopics_new : SubscriberManager.new 2 1 = .ok twoTopics := rfl

def onSecond : SubscriberManager := (twoTopics.subscribe 0 1 fun _ _ => true).2
def publishing : PubSub := ⟨twoTopics,.new true 100 3,10000⟩
def secondTopic : PubSub := ⟨onSecond,.new true 100 3,10000⟩

theorem onSecond_subscribed : onSecond.Subscribed := .subscribe (.new twoTopics_new) 0 1 _

theorem no_loss_iff_refused_last : NoLoss publishing secondTopic [(0,1,[7]),(0,1,[8]),(0,0,List.replicate 4097 0)] := by
  have long : PublishCall.fits (0,0,List.replicate 4097 0) = false := by
    rw [PublishCall.fits,PublishCall.data,List.length_replicate]
    rfl
  refine (no_loss_iff publishing secondTopic rfl onSecond_subscribed _ ?_ (by decide)).mpr ?_
  · intro call among
    rcases List.mem_cons.mp among with rfl | among
    · decide
    · rcases List.mem_cons.mp among with rfl | among
      · decide
      · rw [List.mem_singleton.mp among]
        decide
  · refine List.pairwise_cons.mpr ⟨?_,List.pairwise_cons.mpr ⟨?_,List.pairwise_singleton _ _⟩⟩
    · intro later among fits
      rcases List.mem_cons.mp among with rfl | among
      · exact ⟨by decide,rfl⟩
      · rw [List.mem_singleton.mp among,long] at fits
        cases fits
    · intro later among fits
      rw [List.mem_singleton.mp among,long] at fits
      cases fits

-- The first publish on the second topic has number 2, and the topic waits for 1.
theorem second_topic_lost : secondTopic.subscribers.Subscribed ∧ ¬ NoLoss publishing secondTopic [(0,0,[7]),(0,1,[8])] := by
  refine ⟨onSecond_subscribed,fun noLoss => ?_⟩
  have perfect : (((publishing.publishEach [(0,0,[7]),(0,1,[8])]).flatten.map fun bytes => ((0 : UInt64),bytes))).map Prod.snd =
      (publishing.publishEach [(0,0,[7]),(0,1,[8])]).flatten := by
    rw [List.map_map]
    exact List.map_id _
  have accepts : secondTopic.subscribers.Accepts 1 1 := ⟨⟨1,1,fun _ _ => true,true,0⟩,List.mem_cons_self,rfl,rfl,fun _ _ => rfl⟩
  have same := noLoss.handed _ perfect 1 1 accepts
  revert same
  decide +kernel

end TwoTopics
end RemDb
