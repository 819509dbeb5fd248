import Mathlib.Data.List.GetD
import Mathlib.Data.List.Nodup
import RemDb.PubSub.Subscriptions

namespace RemDb
open RemDb.Lib

def handedTo (handed : List Handed) (subscriber : Nat) (topic_id : UInt16) : List Bytes :=
  (handed.filter fun given => decide (given.subscriber = subscriber ∧ given.topic_id = topic_id)).map (·.data)

theorem handedTo_append (before after : List Handed) (subscriber : Nat) (topic_id : UInt16) :
    handedTo (before ++ after) subscriber topic_id =
      handedTo before subscriber topic_id ++ handedTo after subscriber topic_id := by
  rw [handedTo,List.filter_append,List.map_append]
  rfl

def idsOf (places : List (Option Subscriber)) : List Nat := places.filterMap fun place => place.map (·.id)

theorem filterMap_sublist {α β : Type} {f g : α → Option β} (less : ∀ value, f value = none ∨ f value = g value)
    (values : List α) : (values.filterMap f).Sublist (values.filterMap g) := by
  induction values with
  | nil => exact List.Sublist.refl _
  | cons value rest ih =>
    rw [List.filterMap_cons,List.filterMap_cons]
    rcases less value with nothing | same
    · rw [nothing]
      cases g value with
      | none => exact ih
      | some image => exact ih.cons image
    · rw [same]
      cases g value with
      | none => exact ih
      | some image => exact ih.cons_cons image

namespace SubscriberManager
variable {manager : SubscriberManager} {now : UInt64} {topic_id : UInt16} {data : Bytes}

def places (manager : SubscriberManager) : List (Option Subscriber) :=
  manager.subscribers.flatten ++ manager.wildcard_subscribers

theorem callSubscriber_cases (now : UInt64) (topic_id : UInt16) (data : Bytes) (subscriber : Subscriber) :
    (subscriber.active = false ∧ callSubscriber now topic_id data (some subscriber) = (some subscriber,[])) ∨
      (subscriber.active = true ∧ subscriber.callback topic_id data = true ∧
        callSubscriber now topic_id data (some subscriber) =
          (some {subscriber with last_active:=now},[⟨subscriber.id,topic_id,data⟩])) ∨
      (subscriber.active = true ∧ subscriber.callback topic_id data = false ∧
        callSubscriber now topic_id data (some subscriber) = (none,[⟨subscriber.id,topic_id,data⟩])) := by
  cases active : subscriber.active with
  | false => exact .inl ⟨rfl,by simp only [callSubscriber,active,Bool.false_eq_true,if_false]⟩
  | true =>
    cases accepted : subscriber.callback topic_id data with
    | true => exact .inr (.inl ⟨rfl,rfl,by simp only [callSubscriber,active,accepted,if_true]⟩)
    | false => exact .inr (.inr ⟨rfl,rfl,by simp only [callSubscriber,active,accepted,if_true,Bool.false_eq_true,if_false]⟩)

theorem callSubscriber_kept (now : UInt64) (topic_id : UInt16) (data : Bytes) (place : Option Subscriber) :
    (callSubscriber now topic_id data place).1.map (·.id) = none ∨
      (callSubscriber now topic_id data place).1.map (·.id) = place.map (·.id) := by
  cases place with
  | none => exact .inl rfl
  | some subscriber =>
    rcases callSubscriber_cases now topic_id data subscriber with ⟨_,called⟩ | ⟨_,_,called⟩ | ⟨_,_,called⟩ <;> rw [called]
    · exact .inr rfl
    · exact .inr rfl
    · exact .inl rfl

theorem called_ids (now : UInt64) (topic_id : UInt16) (data : Bytes) (places : List (Option Subscriber)) :
    (idsOf ((places.map (callSubscriber now topic_id data)).map (·.1))).Sublist (idsOf places) := by
  rw [idsOf,List.map_map,List.filterMap_map]
  exact filterMap_sublist (callSubscriber_kept now topic_id data) places

theorem called_each (now : UInt64) (topic_id : UInt16) (data : Bytes) (places : List (Option Subscriber)) :
    ∀ given ∈ (places.map (callSubscriber now topic_id data)).flatMap (·.2), given.topic_id = topic_id ∧ given.data = data := by
  intro given among
  obtain ⟨called,listed,inside⟩ := List.mem_flatMap.mp among
  obtain ⟨place,_,rfl⟩ := List.mem_map.mp listed
  cases place with
  | none => cases inside
  | some subscriber =>
    rcases callSubscriber_cases now topic_id data subscriber with ⟨_,called⟩ | ⟨_,_,called⟩ | ⟨_,_,called⟩ <;>
      rw [called] at inside
    · cases inside
    · rw [List.mem_singleton.mp inside]
      exact ⟨rfl,rfl⟩
    · rw [List.mem_singleton.mp inside]
      exact ⟨rfl,rfl⟩

theorem called_subscribers (now : UInt64) (topic_id : UInt16) (data : Bytes) (places : List (Option Subscriber)) :
    (((places.map (callSubscriber now topic_id data)).flatMap (·.2)).map (·.subscriber)).Sublist (idsOf places) := by
  induction places with
  | nil => exact List.Sublist.refl _
  | cons place rest ih =>
    cases place with
    | none => exact ih
    | some subscriber =>
      rw [List.map_cons,List.flatMap_cons,List.map_append]
      change List.Sublist _ (subscriber.id :: idsOf rest)
      rcases callSubscriber_cases now topic_id data subscriber with ⟨_,called⟩ | ⟨_,_,called⟩ | ⟨_,_,called⟩ <;> rw [called]
      · exact ih.cons _
      · exact ih.cons_cons _
      · exact ih.cons_cons _

structure Valid (manager : SubscriberManager) : Prop where
  topics : manager.subscribers.length = manager.max_topics
  numbers : manager.expected_seq_nums.length = manager.max_topics
  distinct : (idsOf manager.places).Nodup

-- A subscriber of a topic that takes whatever it is given.
def Accepts (manager : SubscriberManager) (topic_id : UInt16) (id : Nat) : Prop :=
  ∃ subscriber, some subscriber ∈ manager.subscribers.getD topic_id.toNat [] ∧ subscriber.id = id ∧
    subscriber.active = true ∧ ∀ topic data, subscriber.callback topic data = true

theorem places_of_topic {manager : SubscriberManager} (valid : manager.Valid) (inside : topic_id.toNat < manager.max_topics) :
    ∃ before after, manager.subscribers = before ++ manager.subscribers.getD topic_id.toNat [] :: after ∧
      before.length = topic_id.toNat := by
  have bound : topic_id.toNat < manager.subscribers.length := valid.topics.symm ▸ inside
  refine ⟨manager.subscribers.take topic_id.toNat,manager.subscribers.drop (topic_id.toNat+1),?_,?_⟩
  · rw [List.getD_eq_getElem _ _ bound,← List.drop_eq_getElem_cons bound,List.take_append_drop]
  · rw [List.length_take]
    omega

structure Distributed (manager after : SubscriberManager) (topic_id : UInt16) (data : Bytes) (handed : List Handed) : Prop where
  valid : after.Valid
  topics : after.max_topics = manager.max_topics
  numbers : after.expected_seq_nums = manager.expected_seq_nums
  once : ∀ id topic, handedTo handed id topic = [] ∨ (topic = topic_id ∧ handedTo handed id topic = [data])
  accepted : ∀ id, manager.Accepts topic_id id → handedTo handed id topic_id = [data]
  kept : ∀ id topic, manager.Accepts topic id → after.Accepts topic id

theorem handedTo_once {handed : List Handed} (distinct : (handed.map (·.subscriber)).Nodup)
    (each : ∀ given ∈ handed, given.topic_id = topic_id ∧ given.data = data) (id : Nat) (topic : UInt16) :
    handedTo handed id topic = [] ∨ (topic = topic_id ∧ handedTo handed id topic = [data]) := by
  by_cases there : ∃ given ∈ handed, given.subscriber = id ∧ given.topic_id = topic
  · obtain ⟨given,among,of_id,of_topic⟩ := there
    obtain ⟨front,back,rfl⟩ := List.append_of_mem among
    rw [List.map_append,List.map_cons,List.nodup_middle] at distinct
    have others := (List.nodup_cons.mp distinct).1
    have apart : ∀ other ∈ front ++ back, ¬(other.subscriber = id ∧ other.topic_id = topic) := by
      intro other inside ⟨same,_⟩
      rw [← List.map_append,of_id] at others
      exact others (same ▸ List.mem_map_of_mem inside)
    have nothing : ∀ part, (∀ other ∈ part, other ∈ front ++ back) → handedTo part id topic = [] := by
      intro part within
      rw [handedTo,List.filter_eq_nil_iff.mpr fun other inside => by simpa using apart other (within other inside)]
      rfl
    refine .inr ⟨of_topic.symm.trans (each given among).1,?_⟩
    rw [handedTo_append,← List.singleton_append,handedTo_append,nothing front fun _ => List.mem_append_left _,
      nothing back fun _ => List.mem_append_right _,List.nil_append,List.append_nil]
    simp only [handedTo,of_id,of_topic,and_self,decide_true,List.filter_cons_of_pos,List.filter_nil,List.map_cons,
      List.map_nil,(each given among).2]
  · refine .inl ?_
    rw [handedTo,List.filter_eq_nil_iff.mpr]
    · rfl
    · intro given among held
      exact there ⟨given,among,of_decide_eq_true held⟩

theorem called_accepting {places : List (Option Subscriber)} {subscriber : Subscriber} (now : UInt64) (topic_id : UInt16)
    (data : Bytes) (inside : some subscriber ∈ places) (active : subscriber.active = true)
    (accepts : subscriber.callback topic_id data = true) :
    some {subscriber with last_active:=now} ∈ (places.map (callSubscriber now topic_id data)).map (·.1) ∧
      (⟨subscriber.id,topic_id,data⟩ : Handed) ∈ (places.map (callSubscriber now topic_id data)).flatMap (·.2) := by
  have called : callSubscriber now topic_id data (some subscriber) =
      (some {subscriber with last_active:=now},[⟨subscriber.id,topic_id,data⟩]) := by
    simp only [callSubscriber,active,accepts,if_true]
  have listed := List.mem_map_of_mem (f := callSubscriber now topic_id data) inside
  rw [called] at listed
  exact ⟨List.mem_map.mpr ⟨_,listed,rfl⟩,List.mem_flatMap.mpr ⟨_,listed,List.mem_cons_self⟩⟩

theorem idsOf_append (left right : List (Option Subscriber)) : idsOf (left ++ right) = idsOf left ++ idsOf right :=
  List.filterMap_append

theorem handleData_distributes {manager : SubscriberManager} (valid : manager.Valid) (now : UInt64)
    (inside : topic_id.toNat < manager.max_topics) (data : Bytes) :
    ∃ handed after, manager.handleData now topic_id data = (.ok handed,after) ∧
      Distributed manager after topic_id data handed := by
  obtain ⟨before,behind,split_topics,position⟩ := places_of_topic valid inside
  have bound : topic_id.toNat < manager.subscribers.length := valid.topics.symm ▸ inside
  let topic := manager.subscribers.getD topic_id.toNat []
  let called := topic.map (callSubscriber now topic_id data)
  let wildcards := manager.wildcard_subscribers.map (callSubscriber now topic_id data)
  have all_ids : idsOf manager.places = idsOf before.flatten ++ (idsOf topic ++ (idsOf behind.flatten ++
      idsOf manager.wildcard_subscribers)) := by
    rw [places,split_topics,List.flatten_append,List.flatten_cons,idsOf_append,idsOf_append,idsOf_append,
      List.append_assoc,List.append_assoc]
  have given_ids : ((called.flatMap (·.2) ++ wildcards.flatMap (·.2)).map (·.subscriber)).Sublist (idsOf manager.places) := by
    rw [List.map_append,all_ids]
    refine List.Sublist.trans ?_ (List.sublist_append_right _ _)
    refine (called_subscribers now topic_id data topic).append ?_
    exact (called_subscribers now topic_id data _).trans (List.sublist_append_right _ _)
  have each : ∀ given ∈ called.flatMap (·.2) ++ wildcards.flatMap (·.2), given.topic_id = topic_id ∧ given.data = data := by
    intro given among
    rcases List.mem_append.mp among with among | among
    · exact called_each now topic_id data topic given among
    · exact called_each now topic_id data manager.wildcard_subscribers given among
  have once := handedTo_once (valid.distinct.sublist given_ids) each
  have set_topics : manager.subscribers.set topic_id.toNat (called.map (·.1)) = before ++ called.map (·.1) :: behind := by
    rw [split_topics,List.set_append_right _ _ (Nat.le_of_eq position),position,Nat.sub_self,List.set_cons_zero]
  refine ⟨called.flatMap (·.2) ++ wildcards.flatMap (·.2),_,by rw [handleData,if_neg (Nat.not_le.mpr inside)],?_⟩
  refine ⟨⟨?_,valid.numbers,?_⟩,rfl,rfl,once,?_,?_⟩
  · rw [List.length_set,valid.topics]
  · refine valid.distinct.sublist ?_
    rw [all_ids,places,set_topics,List.flatten_append,List.flatten_cons,idsOf_append,idsOf_append,idsOf_append,
      List.append_assoc,List.append_assoc]
    refine (List.Sublist.refl _).append ((called_ids now topic_id data topic).append ((List.Sublist.refl _).append ?_))
    exact called_ids now topic_id data manager.wildcard_subscribers
  · rintro id ⟨subscriber,among,rfl,active,accepts⟩
    have given := (called_accepting now topic_id data among active (accepts topic_id data)).2
    rcases once subscriber.id topic_id with nothing | ⟨_,single⟩
    · rw [handedTo,List.map_eq_nil_iff,List.filter_eq_nil_iff] at nothing
      exact absurd (decide_eq_true (And.intro rfl rfl)) (nothing _ (List.mem_append_left _ given))
    · exact single
  · rintro id other ⟨subscriber,among,rfl,active,accepts⟩
    by_cases same : other = topic_id
    · subst same
      have remains := (called_accepting now other data among active (accepts other data)).1
      refine ⟨{subscriber with last_active:=now},?_,rfl,active,accepts⟩
      rw [List.getD_eq_getElem?_getD,List.getElem?_set_self bound]
      exact remains
    · refine ⟨subscriber,?_,rfl,active,accepts⟩
      have apart : topic_id.toNat ≠ other.toNat := fun equal => same (UInt16.toNat_inj.mp equal.symm)
      rw [List.getD_eq_getElem?_getD,List.getElem?_set_ne apart,← List.getD_eq_getElem?_getD]
      exact among

def advanced (manager : SubscriberManager) (topic_id : UInt16) : SubscriberManager :=
  {manager with expected_seq_nums:=manager.expected_seq_nums.set topic_id.toNat (manager.expected topic_id+1)}

theorem advanced_valid {manager : SubscriberManager} (valid : manager.Valid) (topic_id : UInt16) :
    (manager.advanced topic_id).Valid :=
  ⟨valid.topics,by rw [advanced,List.length_set,valid.numbers],valid.distinct⟩

theorem advanced_expected {manager : SubscriberManager} (valid : manager.Valid) (inside : topic_id.toNat < manager.max_topics)
    (other : UInt16) :
    (manager.advanced topic_id).expected other = if other = topic_id then manager.expected topic_id+1 else manager.expected other := by
  have bound : topic_id.toNat < manager.expected_seq_nums.length := valid.numbers.symm ▸ inside
  split
  · rename_i same
    subst same
    rw [expected,advanced,List.getD_eq_getElem?_getD,List.getElem?_set_self bound]
    rfl
  · rename_i different
    have apart : topic_id.toNat ≠ other.toNat := fun equal => different (UInt16.toNat_inj.mp equal.symm)
    rw [expected,advanced,List.getD_eq_getElem?_getD,List.getElem?_set_ne apart,← List.getD_eq_getElem?_getD]
    rfl

theorem checkSeqNum_eq {manager : SubscriberManager} (valid : manager.Valid) (inside : topic_id.toNat < manager.max_topics)
    (seq_num : UInt32) :
    manager.checkSeqNum topic_id seq_num =
      if seq_num < manager.expected topic_id then (none,manager)
      else if seq_num > manager.expected topic_id then (some (manager.expected topic_id),manager)
      else (none,manager.advanced topic_id) := by
  have full : topic_id.toNat+1-manager.expected_seq_nums.length = 0 := by
    rw [valid.numbers]
    omega
  unfold checkSeqNum
  rw [if_neg (Nat.not_le.mpr inside)]
  simp only [full,List.replicate_zero,List.append_nil]
  rfl

-- A manager that has only been made and subscribed to.
inductive Subscribed : SubscriberManager → Prop
  | new {max_topics max_subscribers_per_topic : Nat} {manager : SubscriberManager}
      (made : new max_topics max_subscribers_per_topic = .ok manager) : Subscribed manager
  | subscribe {manager : SubscriberManager} (before : Subscribed manager) (now : UInt64) (topic_id : UInt16)
      (callback : UInt16 → Bytes → Bool) : Subscribed (manager.subscribe now topic_id callback).2

theorem idsOf_free (places : List (Option Subscriber)) (free : ∀ place ∈ places, place = none) : idsOf places = [] :=
  List.filterMap_eq_nil_iff.mpr fun place among => by rw [free place among]; rfl

theorem place_ids {room : Nat} {places placed : List (Option Subscriber)} {subscriber : Subscriber}
    (done : place room places subscriber = .ok placed) : (idsOf placed).Perm (subscriber.id :: idsOf places) := by
  unfold place at done
  split at done
  · rename_i index found
    cases done
    obtain ⟨bound,free,_⟩ := List.findIdx?_eq_some_iff_getElem.mp found
    rw [Option.isNone_iff_eq_none] at free
    have before : places = places.take index ++ none :: places.drop (index+1) := by
      rw [← free,← List.drop_eq_getElem_cons bound,List.take_append_drop]
    have old : idsOf places = idsOf (places.take index) ++ idsOf (places.drop (index+1)) := by
      conv => lhs; rw [before,idsOf_append]
      rfl
    rw [List.set_eq_take_append_cons_drop,if_pos bound,idsOf_append,old]
    exact List.perm_middle
  · split at done
    · cases done
    · cases done
      rw [idsOf_append]
      exact List.perm_append_singleton _ _

theorem Valid.placed {manager : SubscriberManager} (valid : manager.Valid) (inside : topic_id.toNat < manager.max_topics)
    {room : Nat} {placed : List (Option Subscriber)} {subscriber : Subscriber}
    (done : place room (manager.subscribers.getD topic_id.toNat []) subscriber = .ok placed) :
    (idsOf ((manager.subscribers.set topic_id.toNat placed).flatten ++ manager.wildcard_subscribers)).Perm
      (subscriber.id :: idsOf manager.places) := by
  obtain ⟨before,behind,split_topics,position⟩ := places_of_topic valid inside
  have set_topics : manager.subscribers.set topic_id.toNat placed = before ++ placed :: behind := by
    rw [split_topics,List.set_append_right _ _ (Nat.le_of_eq position),position,Nat.sub_self,List.set_cons_zero]
  have old : idsOf manager.places = idsOf before.flatten ++ (idsOf (manager.subscribers.getD topic_id.toNat []) ++
      (idsOf behind.flatten ++ idsOf manager.wildcard_subscribers)) := by
    conv => lhs; rw [places,split_topics,List.flatten_append,List.flatten_cons,idsOf_append,idsOf_append,idsOf_append,
      List.append_assoc,List.append_assoc]
  rw [set_topics,List.flatten_append,List.flatten_cons,idsOf_append,idsOf_append,idsOf_append,List.append_assoc,
    List.append_assoc,old]
  refine List.Perm.trans ((place_ids done).append_right _ |>.append_left _) ?_
  exact List.perm_middle

theorem Subscribed.ready {manager : SubscriberManager} (subscribed : manager.Subscribed) :
    manager.Valid ∧ (∀ id ∈ idsOf manager.places, id < manager.next_subscription_id) ∧
      ∀ topic_id, manager.expected topic_id = 1 := by
  induction subscribed with
  | @new max_topics max_subscribers_per_topic manager made =>
    unfold SubscriberManager.new at made
    split at made
    · cases made
    · cases made
      have free : idsOf ((List.replicate max_topics (List.replicate max_subscribers_per_topic none)).flatten ++
          List.replicate max_subscribers_per_topic none) = [] := by
        refine idsOf_free _ fun place among => ?_
        rcases List.mem_append.mp among with among | among
        · obtain ⟨places,listed,inside⟩ := List.mem_flatten.mp among
          rw [(List.mem_replicate.mp listed).2] at inside
          exact (List.mem_replicate.mp inside).2
        · exact (List.mem_replicate.mp among).2
      refine ⟨⟨List.length_replicate,List.length_replicate,?_⟩,?_,?_⟩
      · rw [places,free]
        exact List.nodup_nil
      · intro id among
        rw [places,free] at among
        cases among
      · intro topic_id
        rw [expected,List.getD_eq_getElem?_getD,List.getElem?_replicate]
        split <;> rfl
  | @subscribe manager before now topic_id callback ih =>
    obtain ⟨valid,smaller,numbers⟩ := ih
    have counted : ∀ id ∈ idsOf manager.places, id < manager.next_subscription_id+1 :=
      fun id among => Nat.lt_succ_of_lt (smaller id among)
    have fresh : manager.next_subscription_id ∉ idsOf manager.places := fun among => Nat.lt_irrefl _ (smaller _ among)
    -- The number is used up whether the subscription succeeds or not.
    have added : ∀ ids : List Nat, ids.Perm (manager.next_subscription_id :: idsOf manager.places) →
        ids.Nodup ∧ ∀ id ∈ ids, id < manager.next_subscription_id+1 := by
      intro ids perm
      refine ⟨perm.nodup_iff.mpr (List.nodup_cons.mpr ⟨fresh,valid.distinct⟩),fun id among => ?_⟩
      rcases List.mem_cons.mp (perm.subset among) with rfl | old
      · exact Nat.lt_succ_self _
      · exact counted id old
    unfold SubscriberManager.subscribe
    simp only
    split
    · split
      · exact ⟨⟨valid.topics,valid.numbers,valid.distinct⟩,counted,numbers⟩
      · rename_i placed done
        have perm : (idsOf (manager.subscribers.flatten ++ placed)).Perm
            (manager.next_subscription_id :: idsOf manager.places) := by
          rw [places,idsOf_append,idsOf_append]
          exact List.Perm.trans ((place_ids done).append_left _) List.perm_middle
        obtain ⟨distinct,bounded⟩ := added _ perm
        exact ⟨⟨valid.topics,valid.numbers,distinct⟩,bounded,numbers⟩
    · split
      · exact ⟨⟨valid.topics,valid.numbers,valid.distinct⟩,counted,numbers⟩
      · rename_i inside
        split
        · exact ⟨⟨valid.topics,valid.numbers,valid.distinct⟩,counted,numbers⟩
        · rename_i placed done
          obtain ⟨distinct,bounded⟩ := added _ (valid.placed (Nat.not_le.mp inside) done)
          exact ⟨⟨by rw [List.length_set]; exact valid.topics,valid.numbers,distinct⟩,bounded,numbers⟩

end SubscriberManager

namespace PubSub
variable {pubsub : PubSub} {now : UInt64} {frame : ProtocolFrame}

inductive DataReceived (pubsub : PubSub) (frame : ProtocolFrame) (reaction : Reaction) : Prop
  | refused (outside : pubsub.subscribers.max_topics ≤ frame.topic_id.toNat) (same : reaction.pubsub = pubsub)
      (nothing : reaction.handed = []) (silent : reaction.sent = [])
  | ahead (inside : frame.topic_id.toNat < pubsub.subscribers.max_topics)
      (later : pubsub.subscribers.expected frame.topic_id < frame.seq_num) (same : reaction.pubsub = pubsub)
      (nothing : reaction.handed = [])
      (asked : reaction.sent =
        [(ProtocolFrame.newNackFrame (pubsub.subscribers.expected frame.topic_id) frame.topic_id).toBytes])
  | behind (inside : frame.topic_id.toNat < pubsub.subscribers.max_topics)
      (earlier : frame.seq_num < pubsub.subscribers.expected frame.topic_id)
      (same : reaction.pubsub.publisher = pubsub.publisher) (silent : reaction.sent = [])
      (given : SubscriberManager.Distributed pubsub.subscribers reaction.pubsub.subscribers frame.topic_id frame.payload
        reaction.handed)
  | expected (inside : frame.topic_id.toNat < pubsub.subscribers.max_topics)
      (next : frame.seq_num = pubsub.subscribers.expected frame.topic_id)
      (same : reaction.pubsub.publisher = pubsub.publisher) (silent : reaction.sent = [])
      (given : SubscriberManager.Distributed (pubsub.subscribers.advanced frame.topic_id) reaction.pubsub.subscribers
        frame.topic_id frame.payload reaction.handed)

theorem handleDataFrame_received (valid : pubsub.subscribers.Valid) (now : UInt64) (frame : ProtocolFrame) :
    DataReceived pubsub frame (pubsub.handleDataFrame now frame) := by
  by_cases inside : frame.topic_id.toNat < pubsub.subscribers.max_topics
  · have checked := SubscriberManager.checkSeqNum_eq valid inside frame.seq_num
    by_cases earlier : frame.seq_num < pubsub.subscribers.expected frame.topic_id
    · rw [if_pos earlier] at checked
      obtain ⟨handed,after,done,given⟩ := SubscriberManager.handleData_distributes valid now inside frame.payload
      have reaction : pubsub.handleDataFrame now frame = ⟨{pubsub with subscribers:=after},handed,[]⟩ := by
        rw [handleDataFrame,checked]
        simp only [done]
      rw [reaction]
      exact .behind inside earlier rfl rfl given
    · rw [if_neg earlier] at checked
      by_cases later : frame.seq_num > pubsub.subscribers.expected frame.topic_id
      · rw [if_pos later] at checked
        refine .ahead inside later ?_ ?_ ?_ <;> rw [handleDataFrame,checked]
      · rw [if_neg later] at checked
        have next : frame.seq_num = pubsub.subscribers.expected frame.topic_id :=
          UInt32.le_antisymm (UInt32.not_lt.mp later) (UInt32.not_lt.mp earlier)
        obtain ⟨handed,after,done,given⟩ := SubscriberManager.handleData_distributes
          (SubscriberManager.advanced_valid valid frame.topic_id) now inside frame.payload
        have reaction : pubsub.handleDataFrame now frame = ⟨{pubsub with subscribers:=after},handed,[]⟩ := by
          rw [handleDataFrame,checked]
          simp only [done]
        rw [reaction]
        exact .expected inside next rfl rfl given
  · have outside := Nat.not_lt.mp inside
    have reaction : pubsub.handleDataFrame now frame = ⟨pubsub,[],[]⟩ := by
      rw [handleDataFrame,SubscriberManager.checkSeqNum,if_pos outside]
      simp only [SubscriberManager.handleData]
      rw [if_pos outside]
    rw [reaction]
    exact .refused outside rfl rfl rfl

theorem handleReceivedData_data (formed : frame.WellFormed) (is_data : frame.frame_type = .data) (now : UInt64) :
    pubsub.handleReceivedData now frame.toBytes = pubsub.handleDataFrame now frame := by
  rw [handleReceivedData,ProtocolFrame.frame_roundtrip formed]
  simp only [is_data]

theorem handleReceivedData_nack (formed : frame.WellFormed) (is_nack : frame.frame_type = .nack) (now : UInt64) :
    pubsub.handleReceivedData now frame.toBytes = pubsub.handleNackFrame now frame := by
  rw [handleReceivedData,ProtocolFrame.frame_roundtrip formed]
  simp only [is_nack]

end PubSub

namespace Publisher
variable {publisher : Publisher}

theorem retransmit_frames (max_retransmits : Nat) (now : UInt64) (pending : PendingData) :
    (retransmit max_retransmits now pending).1.frame = pending.frame ∧
      ∀ frame ∈ (retransmit max_retransmits now pending).2, frame = pending.frame := by
  unfold retransmit
  split
  · exact ⟨rfl,fun frame among => List.mem_singleton.mp among⟩
  · exact ⟨rfl,fun frame among => absurd among List.not_mem_nil⟩

theorem nackPending_frames (max_retransmits : Nat) (now : UInt64) (seq_num : UInt32) (topic_id : UInt16)
    (pendings : List PendingData) :
    (∀ pending ∈ (nackPending max_retransmits now seq_num topic_id pendings).1, ∃ old ∈ pendings, pending.frame = old.frame) ∧
      ∀ frame ∈ (nackPending max_retransmits now seq_num topic_id pendings).2, ∃ old ∈ pendings, frame = old.frame := by
  induction pendings with
  | nil => exact ⟨fun _ among => absurd among List.not_mem_nil,fun _ among => absurd among List.not_mem_nil⟩
  | cons first rest ih =>
    have again := retransmit_frames max_retransmits now first
    unfold nackPending
    split
    · refine ⟨?_,fun frame among => ⟨first,List.mem_cons_self,again.2 frame among⟩⟩
      intro pending among
      rcases List.mem_cons.mp among with rfl | among
      · exact ⟨first,List.mem_cons_self,again.1⟩
      · exact ⟨pending,List.mem_cons_of_mem _ among,rfl⟩
    · refine ⟨?_,?_⟩
      · intro pending among
        rcases List.mem_cons.mp among with rfl | among
        · exact ⟨pending,List.mem_cons_self,rfl⟩
        · obtain ⟨old,inside,same⟩ := ih.1 pending among
          exact ⟨old,List.mem_cons_of_mem _ inside,same⟩
      · intro frame among
        obtain ⟨old,inside,same⟩ := ih.2 frame among
        exact ⟨old,List.mem_cons_of_mem _ inside,same⟩

theorem handleNack_frames (publisher : Publisher) (now : UInt64) (seq_num : UInt32) (topic_id : UInt16) :
    (∀ pending ∈ (publisher.handleNack now seq_num topic_id).2.pending_data,
        ∃ old ∈ publisher.pending_data, pending.frame = old.frame) ∧
      ∀ frame ∈ (publisher.handleNack now seq_num topic_id).1, ∃ old ∈ publisher.pending_data, frame = old.frame := by
  unfold handleNack
  split
  · exact nackPending_frames publisher.max_retransmits now seq_num topic_id publisher.pending_data
  · exact ⟨fun pending among => ⟨pending,among,rfl⟩,fun _ among => absurd among List.not_mem_nil⟩

theorem timeoutPending_frames (max_retransmits : Nat) (timeout_ms current_time : UInt64) (pending : PendingData) :
    (timeoutPending max_retransmits timeout_ms current_time pending).1.frame = pending.frame ∧
      ∀ frame ∈ (timeoutPending max_retransmits timeout_ms current_time pending).2, frame = pending.frame := by
  unfold timeoutPending
  split
  · exact ⟨rfl,fun _ among => absurd among List.not_mem_nil⟩
  · split
    · exact retransmit_frames max_retransmits current_time pending
    · exact ⟨rfl,fun _ among => absurd among List.not_mem_nil⟩

theorem checkTimeouts_frames (publisher : Publisher) (current_time : UInt64) :
    (∀ pending ∈ (publisher.checkTimeouts current_time).2.pending_data,
        ∃ old ∈ publisher.pending_data, pending.frame = old.frame) ∧
      ∀ frame ∈ (publisher.checkTimeouts current_time).1, ∃ old ∈ publisher.pending_data, frame = old.frame := by
  unfold checkTimeouts
  split
  · refine ⟨?_,?_⟩
    · intro pending among
      obtain ⟨looked,listed,rfl⟩ := List.mem_map.mp (List.mem_filter.mp among).1
      obtain ⟨old,inside,rfl⟩ := List.mem_map.mp listed
      exact ⟨old,inside,(timeoutPending_frames _ _ _ old).1⟩
    · intro frame among
      obtain ⟨looked,listed,within⟩ := List.mem_flatMap.mp among
      obtain ⟨old,inside,rfl⟩ := List.mem_map.mp listed
      exact ⟨old,inside,(timeoutPending_frames _ _ _ old).2 frame within⟩
  · exact ⟨fun pending among => ⟨pending,among,rfl⟩,fun _ among => absurd among List.not_mem_nil⟩

theorem handleNack_next (publisher : Publisher) (now : UInt64) (seq_num : UInt32) (topic_id : UInt16) :
    (publisher.handleNack now seq_num topic_id).2.next_seq_num = publisher.next_seq_num := by
  unfold handleNack
  split <;> rfl

theorem checkTimeouts_next (publisher : Publisher) (current_time : UInt64) :
    (publisher.checkTimeouts current_time).2.next_seq_num = publisher.next_seq_num := by
  unfold checkTimeouts
  split <;> rfl

end Publisher
end RemDb
