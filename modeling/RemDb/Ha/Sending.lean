import Mathlib.Data.List.GetD
import RemDb.Ha.Receiver
import RemDb.PubSub.Subscriptions

namespace RemDb
open RemDb.Lib

def SYNC_DATA_BEGIN_TOPIC : UInt16 := 5
def SYNC_DATA_CHUNK_TOPIC : UInt16 := 6
def SYNC_DATA_END_TOPIC : UInt16 := 7

namespace PubSub

def publishAll (pubsub : PubSub) (socket : Bytes → Bool) : List (UInt64 × UInt16 × Bytes) →
    Except PubSubError Unit × PubSub × List Bytes
  | [] => (.ok (),pubsub,[])
  | (now,topic_id,data) :: rest =>
    match pubsub.publish socket now topic_id data with
    | (.error failure,pubsub,sent) => (.error failure,pubsub,sent)
    | (.ok _,pubsub,sent) =>
      let others := pubsub.publishAll socket rest
      (others.1,others.2.1,sent ++ others.2.2)

theorem publish_ok_iff (pubsub : PubSub) (now : UInt64) (topic_id : UInt16) (data : Bytes) :
    (pubsub.publish (fun _ => true) now topic_id data).1 = .ok () ↔ data.length ≤ ProtocolFrame.MAX_DATA_LEN := by
  unfold publish Publisher.createFrame ProtocolFrame.newDataFrame
  by_cases long : data.length > ProtocolFrame.MAX_DATA_LEN
  · rw [if_pos long]
    exact ⟨fun accepted => (nomatch accepted),fun short => absurd long (Nat.not_lt.mpr short)⟩
  · rw [if_neg long]
    cases pubsub.publisher.enable_nack <;> exact ⟨fun _ => Nat.not_lt.mp long,fun _ => rfl⟩

theorem publishAll_ok_iff (pubsub : PubSub) (messages : List (UInt64 × UInt16 × Bytes)) :
    (pubsub.publishAll (fun _ => true) messages).1 = .ok () ↔
      ∀ message ∈ messages, message.2.2.length ≤ ProtocolFrame.MAX_DATA_LEN := by
  induction messages generalizing pubsub with
  | nil => exact ⟨fun _ message among => absurd among List.not_mem_nil,fun _ => rfl⟩
  | cons first rest ih =>
    obtain ⟨now,topic_id,data⟩ := first
    have one := publish_ok_iff pubsub now topic_id data
    rw [List.forall_mem_cons,publishAll]
    cases published : pubsub.publish (fun _ => true) now topic_id data with
    | mk result after =>
      rw [published] at one
      cases result with
      | error failure => exact ⟨fun accepted => (nomatch accepted),fun short => (nomatch one.mpr short.1)⟩
      | ok done => exact ⟨fun accepted => ⟨one.mp rfl,(ih after.1).mp accepted⟩,fun short => (ih after.1).mpr short.2⟩

end PubSub

namespace SyncSession

def encodedChunks (session : SyncSession) : List Bytes :=
  (List.range session.chunks.length).map fun index => (session.chunkMessage index).encode

def messages (session : SyncSession) (clock : Nat → UInt64) : List (UInt64 × UInt16 × Bytes) :=
  let chunks := session.encodedChunks.mapIdx fun index encoded => (clock (index+1),SYNC_DATA_CHUNK_TOPIC,encoded)
  (clock 0,SYNC_DATA_BEGIN_TOPIC,session.beginMessage.encode) :: chunks ++
    [(clock (session.chunks.length+1),SYNC_DATA_END_TOPIC,session.endMessage.encode)]

end SyncSession

def fullSync (data : Bytes) : SyncSession := ⟨.full,data,0⟩

def sendSnapshotChunks (pubsub : PubSub) (socket : Bytes → Bool) (clock : Nat → UInt64) (data : Bytes) :
    Except HAError Unit × PubSub × List Bytes :=
  match pubsub.publishAll socket ((fullSync data).messages clock) with
  | (.error _,pubsub,sent) => (.error .syncFailed,pubsub,sent)
  | (.ok _,pubsub,sent) => (.ok (),pubsub,sent)

-- All calls succeed, the chunks fit a frame, their number is the one announced,
-- and their data are the snapshot.
structure Sendable (pubsub : PubSub) (clock : Nat → UInt64) (data : Bytes) : Prop where
  succeeds : (sendSnapshotChunks pubsub (fun _ => true) clock data).1 = .ok ()
  fits : ∀ encoded ∈ (fullSync data).encodedChunks, encoded.length ≤ ProtocolFrame.MAX_DATA_LEN
  counted : (fullSync data).beginMessage.chunk_count.toNat = (fullSync data).encodedChunks.length
  whole : ∃ decoded, (fullSync data).encodedChunks.mapM SyncDataChunk.decode = some decoded ∧
    (decoded.map (·.data)).flatten = data

def SyncDataChunk.HEADER : Nat := 6

theorem SyncDataChunk.encode_length (message : SyncDataChunk) : message.encode.length = HEADER+message.data.length := by
  simp only [encode,HEADER,List.length_append,toLE_length]

namespace SyncSession

theorem decode_each (session : SyncSession) (indices : List Nat) :
    (indices.map fun index => (session.chunkMessage index).encode).mapM SyncDataChunk.decode =
      some (indices.map session.chunkMessage) := by
  induction indices with
  | nil => rfl
  | cons index rest ih =>
    rw [List.map_cons,List.mapM_cons,chunkMessage_decodes,ih]
    rfl

theorem encodedChunks_whole (session : SyncSession) :
    ∃ decoded, session.encodedChunks.mapM SyncDataChunk.decode = some decoded ∧
      (decoded.map (·.data)).flatten = session.data := by
  refine ⟨_,decode_each session _,?_⟩
  have data : ((List.range session.chunks.length).map session.chunkMessage).map (·.data) = session.chunks := by
    rw [List.map_map]
    refine List.ext_getElem (by simp) fun index left right => ?_
    rw [List.getElem_map,List.getElem_range]
    exact List.getD_eq_getElem _ _ right
  rw [data,chunks_flatten]

theorem encodedChunks_length (session : SyncSession) {encoded : Bytes} (among : encoded ∈ session.encodedChunks) :
    encoded.length ≤ SyncDataChunk.HEADER+session.data.length := by
  obtain ⟨index,inside,rfl⟩ := List.mem_map.mp among
  rw [SyncDataChunk.encode_length]
  have part : session.chunks.getD index [] ∈ session.chunks := by
    rw [List.getD_eq_getElem _ _ (List.mem_range.mp inside)]
    exact List.getElem_mem _
  have short := List.Sublist.length_le (List.sublist_flatten_of_mem part)
  rw [chunks_flatten] at short
  exact Nat.add_le_add_left short _

theorem chunks_short {session : SyncSession} (short : session.data.length ≤ MAX_CHUNK_DATA_SIZE) :
    session.chunks.length ≤ 1 := by
  rw [chunks,chunksWithin_length _ _ (Nat.le_refl _)]
  unfold MAX_CHUNK_DATA_SIZE at short ⊢
  omega

theorem first_chunk {session : SyncSession} (filled : session.data ≠ []) :
    ∃ encoded ∈ session.encodedChunks,
      encoded.length = SyncDataChunk.HEADER+min MAX_CHUNK_DATA_SIZE session.data.length := by
  obtain ⟨fuel,enough⟩ := Nat.exists_eq_succ_of_ne_zero (Nat.ne_of_gt (List.length_pos_of_ne_nil filled))
  have cut : session.chunks = session.data.take MAX_CHUNK_DATA_SIZE ::
      chunksWithin fuel (session.data.drop MAX_CHUNK_DATA_SIZE) := by
    rw [chunks,enough,chunksWithin,if_neg filled]
  refine ⟨(session.chunkMessage 0).encode,List.mem_map_of_mem (List.mem_range.mpr (by rw [cut]; exact Nat.succ_pos _)),?_⟩
  rw [SyncDataChunk.encode_length]
  change _+(session.chunks.getD 0 []).length = _
  rw [cut,List.getD_cons_zero,List.length_take]

theorem messages_fit {session : SyncSession} (clock : Nat → UInt64)
    (fits : ∀ encoded ∈ session.encodedChunks, encoded.length ≤ ProtocolFrame.MAX_DATA_LEN) :
    ∀ message ∈ session.messages clock, message.2.2.length ≤ ProtocolFrame.MAX_DATA_LEN := by
  intro message among
  rcases List.mem_cons.mp among with rfl | among
  · simp [SyncDataBegin.encode,ProtocolFrame.MAX_DATA_LEN]
  · rcases List.mem_append.mp among with among | among
    · obtain ⟨index,inside,rfl⟩ := List.mem_mapIdx.mp among
      exact fits _ (List.getElem_mem inside)
    · rw [List.mem_singleton.mp among]
      simp [SyncDataEnd.encode,ProtocolFrame.MAX_DATA_LEN]

end SyncSession

-- The chunks are cut for a datagram, and a frame takes less.
theorem snapshot_sendable_iff (pubsub : PubSub) (clock : Nat → UInt64) (data : Bytes) :
    Sendable pubsub clock data ↔ data.length ≤ ProtocolFrame.MAX_DATA_LEN-SyncDataChunk.HEADER := by
  constructor
  · intro sendable
    by_cases filled : data = []
    · rw [filled]
      exact Nat.zero_le _
    · obtain ⟨encoded,among,length⟩ := SyncSession.first_chunk (show (fullSync data).data ≠ [] from filled)
      have fits := sendable.fits encoded among
      change encoded.length = _+min _ data.length at length
      unfold ProtocolFrame.MAX_DATA_LEN SyncDataChunk.HEADER MAX_CHUNK_DATA_SIZE at *
      omega
  · intro short
    have fits : ∀ encoded ∈ (fullSync data).encodedChunks, encoded.length ≤ ProtocolFrame.MAX_DATA_LEN := by
      intro encoded among
      have length := SyncSession.encodedChunks_length (fullSync data) among
      change encoded.length ≤ _+data.length at length
      unfold ProtocolFrame.MAX_DATA_LEN SyncDataChunk.HEADER at *
      omega
    have few : (fullSync data).chunks.length ≤ 1 := by
      refine SyncSession.chunks_short ?_
      change data.length ≤ _
      unfold ProtocolFrame.MAX_DATA_LEN SyncDataChunk.HEADER at short
      unfold MAX_CHUNK_DATA_SIZE
      omega
    refine ⟨?_,fits,?_,SyncSession.encodedChunks_whole (fullSync data)⟩
    · have published := (pubsub.publishAll_ok_iff ((fullSync data).messages clock)).mpr (SyncSession.messages_fit clock fits)
      unfold sendSnapshotChunks
      split
      · rename_i failed
        rw [failed] at published
        cases published
      · rfl
    · rw [SyncSession.beginMessage_count,SyncSession.chunkCount_small (Nat.lt_of_le_of_lt few (by decide))]
      simp [SyncSession.encodedChunks]

-- A snapshot of one byte more than a frame takes.
theorem snapshot_too_long : ¬ Sendable ⟨⟨1,1,[],[],1,[1]⟩,.new true 100 3,10000⟩ (fun _ => 0) (List.replicate 4091 0) := by
  intro sendable
  have filled : (fullSync (List.replicate 4091 0)).data ≠ [] := List.replicate_succ_ne_nil
  obtain ⟨encoded,among,length⟩ := SyncSession.first_chunk filled
  have fits := sendable.fits encoded among
  have size : (fullSync (List.replicate 4091 0)).data.length = 4091 := List.length_replicate
  rw [size] at length
  unfold ProtocolFrame.MAX_DATA_LEN at fits
  unfold SyncDataChunk.HEADER MAX_CHUNK_DATA_SIZE at length
  omega

end RemDb
