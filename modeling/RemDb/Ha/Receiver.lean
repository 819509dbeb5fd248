import Mathlib.Data.List.Sort
import RemDb.Ha.Protocol

namespace RemDb
open RemDb.Lib

inductive SyncState where
  | idle | syncing | synced | failed
deriving DecidableEq,Repr

structure SyncSession where
  sync_type : SyncType
  data : Bytes
  log_count : UInt32
deriving DecidableEq,Repr

namespace SyncSession

def chunksWithin : Nat → Bytes → List Bytes
  | 0, _ => []
  | fuel+1, data =>
    if data = [] then [] else data.take MAX_CHUNK_DATA_SIZE :: chunksWithin fuel (data.drop MAX_CHUNK_DATA_SIZE)

def chunks (session : SyncSession) : List Bytes := chunksWithin session.data.length session.data

-- `div_ceil`, cut to 32 bits.
def chunkCount (session : SyncSession) : UInt32 :=
  UInt32.ofNat ((session.data.length+MAX_CHUNK_DATA_SIZE-1)/MAX_CHUNK_DATA_SIZE)

def beginMessage (session : SyncSession) : SyncDataBegin :=
  let total_size := UInt64.ofNat session.data.length
  match session.sync_type with
  | .full => ⟨.full,total_size,session.chunkCount,session.data.headD 0,0⟩
  | .incremental => ⟨.incremental,total_size,session.chunkCount,0,session.log_count⟩

def chunkMessage (session : SyncSession) (index : Nat) : SyncDataChunk := .new index (session.chunks.getD index [])

def endMessage (session : SyncSession) : SyncDataEnd := ⟨session.chunkCount,0⟩

end SyncSession

-- An acknowledgment, and beside it the bytes that were applied for it.
structure Acknowledged where
  success : Bool
  chunks_received : UInt32
  applied : Bytes
deriving DecidableEq,Repr

-- The global state the callbacks work on, the database and what was sent back.
structure Receiver where
  state : SyncState
  accumulated_data : Option Bytes
  expected_chunks : UInt32
  received_chunks : UInt32
  begin_info : Option SyncDataBegin
  db : Database
  acks : List Acknowledged

namespace Receiver

-- The values the statics start with.
def initial (db : Database) : Receiver := ⟨.idle,none,0,0,none,db,[]⟩

def startSync (receiver : Receiver) : Receiver :=
  {receiver with state:=.syncing,accumulated_data:=some [],expected_chunks:=0,received_chunks:=0,begin_info:=none}

-- The counters stay.
def shutdown (receiver : Receiver) : Receiver :=
  {receiver with state:=.idle,accumulated_data:=none,begin_info:=none}

-- What has been accumulated stays, also when a begin follows a begin.
def handleSyncBegin (receiver : Receiver) (data : Bytes) : Receiver :=
  match SyncDataBegin.decode data with
  | none => {receiver with state:=.failed}
  | some message =>
    {receiver with begin_info:=some message,expected_chunks:=message.chunk_count,received_chunks:=0}

-- The index of a chunk is not looked at; without an accumulator the chunk is
-- counted and its data dropped.
def handleSyncChunk (receiver : Receiver) (data : Bytes) : Receiver :=
  match SyncDataChunk.decode data with
  | none => {receiver with state:=.failed}
  | some message =>
    {receiver with
      accumulated_data:=receiver.accumulated_data.map (· ++ message.data)
      received_chunks:=receiver.received_chunks+1}

def applyWalLogs (_data : Bytes) (db : Database) : Option (Except HAError Unit × Database) := some (.ok (),db)

def handleSyncEnd (receiver : Receiver) (data : Bytes) : Option Receiver :=
  match SyncDataEnd.decode data with
  | none => some {receiver with state:=.failed}
  | some message =>
    let received := receiver.received_chunks
    if received ≠ receiver.expected_chunks ∨ message.total_chunks ≠ receiver.expected_chunks then
      some {receiver with state:=.failed}
    else
      let sync_data := receiver.accumulated_data.getD []
      let taken := {receiver with accumulated_data:=none,begin_info:=none}
      match receiver.begin_info with
      | none => some {taken with state:=.failed}
      | some message =>
        let result := match message.sync_type with
          | .full => SyncReceiver.applySnapshot sync_data receiver.db
          | .incremental => applyWalLogs sync_data receiver.db
        match result with
        | none => none
        | some (.ok _,db) =>
          some {taken with state:=.synced,db:=db,acks:=receiver.acks ++ [⟨true,received,sync_data⟩]}
        | some (.error _,db) =>
          some {taken with state:=.failed,db:=db,acks:=receiver.acks ++ [⟨false,received,sync_data⟩]}

end Receiver

-- What can happen to a receiver: its own calls, and messages of sessions, which
-- come in any order, more than once or not at all.
inductive SyncEvent where
  | startSync
  | shutdown
  | deliverBegin (session : SyncSession)
  | deliverChunk (session : SyncSession) (index : Nat)
  | deliverEnd (session : SyncSession)

-- A receiver with the session whose begin came last and the chunks that came
-- since then.
structure Link where
  receiver : Receiver
  current : Option SyncSession
  taken : List Nat

namespace Link

def step (link : Link) : SyncEvent → Option Link
  | .startSync => some ⟨link.receiver.startSync,none,[]⟩
  | .shutdown => some ⟨link.receiver.shutdown,none,[]⟩
  | .deliverBegin session => some ⟨link.receiver.handleSyncBegin session.beginMessage.encode,some session,[]⟩
  | .deliverChunk session index =>
    some ⟨link.receiver.handleSyncChunk (session.chunkMessage index).encode,link.current,link.taken ++ [index]⟩
  | .deliverEnd session =>
    (link.receiver.handleSyncEnd session.endMessage.encode).map fun receiver => ⟨receiver,link.current,link.taken⟩

def initial (db : Database) : Link := ⟨.initial db,none,[]⟩

def Sent (sessions : List SyncSession) : SyncEvent → Prop
  | .startSync | .shutdown => True
  | .deliverBegin session | .deliverEnd session => session ∈ sessions
  | .deliverChunk session index => session ∈ sessions ∧ index < session.chunks.length

-- Any order, loss and repetition, as far as `allowed` lets it.
inductive Reached (sessions : List SyncSession) (allowed : Link → SyncEvent → Prop) (first : Link) : Link → Prop
  | start : Reached sessions allowed first first
  | step : Reached sessions allowed first link → Sent sessions event → allowed link event →
      link.step event = some next → Reached sessions allowed first next

-- A begin finds an empty accumulator; the chunks that come while a session is
-- under way are its own, each behind the ones before it. Chunks may be lost.
def InOrder (link : Link) : SyncEvent → Prop
  | .startSync | .shutdown | .deliverEnd _ => True
  | .deliverBegin session => link.receiver.accumulated_data = some [] ∧ session.chunks.length < 2^32
  | .deliverChunk session index =>
    link.receiver.begin_info ≠ none → link.current = some session ∧ ∀ earlier ∈ link.taken, earlier < index

-- A successful acknowledgment is for the whole data of one session.
def Faithful (sessions : List SyncSession) (link : Link) : Prop :=
  ∀ ack ∈ link.receiver.acks, ack.success = true →
    ∃ session ∈ sessions, ack.applied = session.chunks.flatten ∧ ack.applied = session.data

-- While a session is under way the accumulator has its chunks so far.
structure UnderWay (sessions : List SyncSession) (link : Link) (session : SyncSession) : Prop where
  sent : session ∈ sessions
  current : link.current = some session
  small : session.chunks.length < 2^32
  expected : link.receiver.expected_chunks.toNat = session.chunks.length
  received : link.receiver.received_chunks.toNat = link.taken.length
  ordered : link.taken.Pairwise (· < ·)
  inside : ∀ index ∈ link.taken, index < session.chunks.length
  data : link.receiver.accumulated_data = some (link.taken.flatMap fun index => session.chunks.getD index [])

structure Held (sessions : List SyncSession) (link : Link) : Prop where
  faithful : link.Faithful sessions
  underWay : link.receiver.begin_info ≠ none → ∃ session, UnderWay sessions link session

end Link

namespace SyncSession

theorem chunksWithin_flatten (fuel : Nat) (data : Bytes) (enough : data.length ≤ fuel) :
    (chunksWithin fuel data).flatten = data := by
  induction fuel generalizing data with
  | zero =>
    rw [List.length_eq_zero_iff.mp (Nat.le_zero.mp enough)]
    rfl
  | succ fuel ih =>
    unfold chunksWithin
    split
    · rename_i empty
      rw [empty]
      rfl
    · rename_i filled
      have positive := List.length_pos_of_ne_nil filled
      have shorter : (data.drop MAX_CHUNK_DATA_SIZE).length ≤ fuel := by
        rw [List.length_drop,MAX_CHUNK_DATA_SIZE]
        omega
      rw [List.flatten_cons,ih _ shorter,List.take_append_drop]

theorem chunksWithin_length (fuel : Nat) (data : Bytes) (enough : data.length ≤ fuel) :
    (chunksWithin fuel data).length = (data.length+MAX_CHUNK_DATA_SIZE-1)/MAX_CHUNK_DATA_SIZE := by
  induction fuel generalizing data with
  | zero =>
    rw [List.length_eq_zero_iff.mp (Nat.le_zero.mp enough)]
    rfl
  | succ fuel ih =>
    unfold chunksWithin
    split
    · rename_i empty
      rw [empty]
      rfl
    · rename_i filled
      have positive := List.length_pos_of_ne_nil filled
      have shorter : (data.drop MAX_CHUNK_DATA_SIZE).length ≤ fuel := by
        rw [List.length_drop,MAX_CHUNK_DATA_SIZE]
        omega
      rw [List.length_cons,ih _ shorter,List.length_drop]
      unfold MAX_CHUNK_DATA_SIZE
      omega

theorem chunksWithin_size (fuel : Nat) (data chunk : Bytes) (member : chunk ∈ chunksWithin fuel data) :
    chunk.length ≤ MAX_CHUNK_DATA_SIZE := by
  induction fuel generalizing data with
  | zero => cases member
  | succ fuel ih =>
    unfold chunksWithin at member
    split at member
    · cases member
    · rcases List.mem_cons.mp member with rfl | later
      · exact List.length_take_le _ _
      · exact ih _ later

variable {session : SyncSession}

theorem chunks_flatten (session : SyncSession) : session.chunks.flatten = session.data :=
  chunksWithin_flatten _ _ (Nat.le_refl _)

theorem chunkCount_small (small : session.chunks.length < 2^32) :
    session.chunkCount.toNat = session.chunks.length := by
  have length := chunksWithin_length _ session.data (Nat.le_refl _)
  rw [chunkCount,← length,UInt32.toNat_ofNat']
  exact Nat.mod_eq_of_lt small

theorem beginMessage_count (session : SyncSession) : session.beginMessage.chunk_count = session.chunkCount := by
  unfold beginMessage
  cases session.sync_type with
  | full => rfl
  | incremental => rfl

theorem chunkMessage_decodes (session : SyncSession) (index : Nat) :
    SyncDataChunk.decode (session.chunkMessage index).encode = some (session.chunkMessage index) := by
  apply chunk_roundtrip
  have short : (session.chunks.getD index []).length ≤ MAX_CHUNK_DATA_SIZE := by
    rw [List.getD_eq_getElem?_getD]
    cases found : session.chunks[index]? with
    | none => exact Nat.zero_le _
    | some chunk => exact chunksWithin_size _ _ chunk (List.mem_of_getElem? found)
  change (UInt16.ofNat (session.chunks.getD index []).length).toNat = _
  rw [UInt16.toNat_ofNat']
  refine Nat.mod_eq_of_lt ?_
  unfold MAX_CHUNK_DATA_SIZE at short
  change (session.chunks.getD index []).length < 65536
  omega

end SyncSession

theorem ordered_range {indices : List Nat} (ordered : indices.Pairwise (· < ·)) (inside : ∀ index ∈ indices, index < size)
    (count : indices.length = size) : indices = List.range size := by
  have distinct : indices.Nodup := ordered.imp Nat.ne_of_lt
  have within : indices.Subperm (List.range size) :=
    List.subperm_of_subset distinct fun index member => List.mem_range.mpr (inside index member)
  have same : indices.Perm (List.range size) := within.perm_of_length_le (by rw [List.length_range,count])
  exact same.eq_of_pairwise (fun _ _ _ _ below above => absurd below (Nat.lt_asymm above)) ordered List.pairwise_lt_range

theorem range_chunks (chunks : List Bytes) :
    (List.range chunks.length).flatMap (fun index => chunks.getD index []) = chunks.flatten := by
  have each : (List.range chunks.length).map (fun index => chunks.getD index []) = chunks := by
    apply List.ext_getElem
    · simp
    · intro index _ inside
      simp [inside]
  rw [List.flatMap_def,each]

namespace Link
section Steps
variable {sessions : List SyncSession} {link next : Link} {session : SyncSession} {index : Nat}

theorem UnderWay.complete (underWay : UnderWay sessions link session)
    (all : link.receiver.received_chunks = link.receiver.expected_chunks) :
    link.receiver.accumulated_data = some session.chunks.flatten := by
  have count : link.taken.length = session.chunks.length := by
    rw [← underWay.received,all,underWay.expected]
  have every := ordered_range underWay.ordered underWay.inside count
  rw [underWay.data,every,range_chunks]

theorem begin_held (held : Held sessions link) (sent : session ∈ sessions)
    (empty : link.receiver.accumulated_data = some []) (small : session.chunks.length < 2^32) :
    Held sessions ⟨link.receiver.handleSyncBegin session.beginMessage.encode,some session,[]⟩ := by
  unfold Receiver.handleSyncBegin
  rw [begin_roundtrip]
  refine ⟨held.faithful,fun _ => ⟨session,sent,rfl,small,?_,rfl,List.Pairwise.nil,fun _ member => (nomatch member),empty⟩⟩
  change session.beginMessage.chunk_count.toNat = _
  rw [SyncSession.beginMessage_count,SyncSession.chunkCount_small small]

theorem chunk_held (held : Held sessions link) (inside : index < session.chunks.length)
    (ordered : link.InOrder (.deliverChunk session index)) :
    Held sessions ⟨link.receiver.handleSyncChunk (session.chunkMessage index).encode,link.current,link.taken ++ [index]⟩ := by
  unfold Receiver.handleSyncChunk
  rw [SyncSession.chunkMessage_decodes]
  refine ⟨held.faithful,fun running => ?_⟩
  obtain ⟨session',underWay⟩ := held.underWay running
  obtain ⟨current,behind⟩ := ordered running
  obtain rfl : session' = session := Option.some.inj (underWay.current.symm.trans current)
  have grown : (link.taken ++ [index]).Pairwise (· < ·) := by
    rw [List.pairwise_append]
    refine ⟨underWay.ordered,List.pairwise_singleton _ _,?_⟩
    intro earlier member last single
    rw [List.mem_singleton.mp single]
    exact behind earlier member
  have within (each : Nat) (member : each ∈ link.taken ++ [index]) : each < session'.chunks.length := by
    rcases List.mem_append.mp member with before | last
    · exact underWay.inside each before
    · rw [List.mem_singleton.mp last]
      exact inside
  have bound : (link.taken ++ [index]).length ≤ session'.chunks.length := by
    have distinct : (link.taken ++ [index]).Nodup := grown.imp Nat.ne_of_lt
    have included : (link.taken ++ [index]) ⊆ List.range session'.chunks.length := fun each member =>
      List.mem_range.mpr (within each member)
    have short := (List.subperm_of_subset distinct included).length_le
    rw [List.length_range] at short
    exact short
  refine ⟨session',underWay.sent,current,underWay.small,underWay.expected,?_,grown,within,?_⟩
  · change (link.receiver.received_chunks+1).toNat = (link.taken ++ [index]).length
    have small := underWay.small
    rw [List.length_append,List.length_singleton] at bound ⊢
    rw [UInt32.toNat_add,underWay.received]
    exact Nat.mod_eq_of_lt (by change link.taken.length+1 < 2^32; omega)
  · change link.receiver.accumulated_data.map _ = _
    rw [underWay.data,List.flatMap_append,List.flatMap_singleton]
    rfl

theorem end_held (held : Held sessions link) (receiver : Receiver)
    (handled : link.receiver.handleSyncEnd session.endMessage.encode = some receiver) :
    Held sessions ⟨receiver,link.current,link.taken⟩ := by
  unfold Receiver.handleSyncEnd at handled
  rw [end_roundtrip] at handled
  dsimp only at handled
  split at handled
  · cases handled
    refine ⟨held.faithful,fun running => ?_⟩
    obtain ⟨session',underWay⟩ := held.underWay running
    exact ⟨session',underWay.sent,underWay.current,underWay.small,underWay.expected,underWay.received,underWay.ordered,
      underWay.inside,underWay.data⟩
  · rename_i agreed
    rw [not_or,not_not,not_not] at agreed
    cases info : link.receiver.begin_info with
    | none =>
      rw [info] at handled
      cases handled
      exact ⟨held.faithful,fun running => absurd rfl running⟩
    | some message =>
      rw [info] at handled
      obtain ⟨session',underWay⟩ := held.underWay (by rw [info]; exact Option.some_ne_none _)
      have whole := underWay.complete agreed.1
      have acked (success : Bool) (ack : Acknowledged)
          (member : ack ∈ link.receiver.acks ++ [⟨success,link.receiver.received_chunks,
            link.receiver.accumulated_data.getD []⟩]) (succeeded : ack.success = true) :
          ∃ session ∈ sessions, ack.applied = session.chunks.flatten ∧ ack.applied = session.data := by
        rcases List.mem_append.mp member with before | last
        · exact held.faithful ack before succeeded
        · rw [List.mem_singleton.mp last,whole]
          exact ⟨session',underWay.sent,rfl,SyncSession.chunks_flatten session'⟩
      dsimp only at handled
      split at handled
      · cases handled
      · cases handled
        exact ⟨acked true,fun running => absurd rfl running⟩
      · cases handled
        exact ⟨acked false,fun running => absurd rfl running⟩

theorem step_held (held : Held sessions link) {event : SyncEvent} (sent : Sent sessions event)
    (ordered : link.InOrder event) (stepped : link.step event = some next) : Held sessions next := by
  cases event with
  | startSync =>
    cases stepped
    exact ⟨held.faithful,fun running => absurd rfl running⟩
  | shutdown =>
    cases stepped
    exact ⟨held.faithful,fun running => absurd rfl running⟩
  | deliverBegin session =>
    cases stepped
    exact begin_held held sent ordered.1 ordered.2
  | deliverChunk session index =>
    cases stepped
    exact chunk_held held sent.2 ordered
  | deliverEnd session =>
    obtain ⟨receiver,handled,rfl⟩ := Option.map_eq_some_iff.mp stepped
    exact end_held held receiver handled

end Steps

theorem initial_held (sessions : List SyncSession) (db : Database) : Held sessions (initial db) :=
  ⟨fun _ member => (nomatch member),fun running => absurd rfl running⟩

theorem ordered_sync_faithful (sessions : List SyncSession) (db : Database) (link : Link)
    (reached : Reached sessions InOrder (initial db) link) : link.Faithful sessions := by
  suffices held : Held sessions link from held.faithful
  induction reached with
  | start => exact initial_held sessions db
  | step _ sent ordered stepped ih => exact step_held ih sent ordered stepped

-- The snapshot of a database without tables, which is one byte.
def emptySession : SyncSession := ⟨.full,[0],0⟩

def sessionReceived (link : Link) (session : SyncSession) : Option Link :=
  (((link.step (.deliverBegin session)).bind fun begun => begun.step (.deliverChunk session 0)).bind fun filled =>
    filled.step (.deliverEnd session))

theorem sessionReceived_reached {allowed : Link → SyncEvent → Prop} {first link next : Link}
    (reached : Reached [emptySession] allowed first link)
    (may_begin : allowed link (.deliverBegin emptySession))
    (may_chunk : allowed ⟨link.receiver.handleSyncBegin emptySession.beginMessage.encode,some emptySession,[]⟩
      (.deliverChunk emptySession 0))
    (may_end : ∀ filled, allowed filled (.deliverEnd emptySession)) (received : link.sessionReceived emptySession = some next) :
    Reached [emptySession] allowed first next := by
  obtain ⟨filled,before,ended⟩ := Option.bind_eq_some_iff.mp received
  obtain ⟨begun,start,chunked⟩ := Option.bind_eq_some_iff.mp before
  have begins : Reached [emptySession] allowed first begun :=
    .step reached (List.mem_singleton_self _) may_begin start
  cases start
  have sent : Sent [emptySession] (.deliverChunk emptySession 0) := ⟨List.mem_singleton_self _,by decide⟩
  have fills : Reached [emptySession] allowed first filled := .step begins sent may_chunk chunked
  exact .step fills (List.mem_singleton_self _) (may_end filled) ended

theorem started_sync_faithful : ∃ link, Reached [emptySession] InOrder (initial ⟨[]⟩) link ∧
    link.receiver.acks = [⟨true,1,[0]⟩] ∧ link.Faithful [emptySession] := by
  let started : Link := ⟨(Receiver.initial ⟨[]⟩).startSync,none,[]⟩
  have acked : (started.sessionReceived emptySession).any (fun link => decide (link.receiver.acks = [⟨true,1,[0]⟩])) =
      true := by decide +kernel
  obtain ⟨link,received,acks⟩ := (Option.any_eq_true _ _).mp acked
  have sent : Sent [emptySession] .startSync := trivial
  have begun : Reached [emptySession] InOrder (initial ⟨[]⟩) started := .step .start sent trivial rfl
  have reached : Reached [emptySession] InOrder (initial ⟨[]⟩) link :=
    sessionReceived_reached begun ⟨rfl,by decide⟩
      (fun _ => ⟨rfl,fun _ member => (nomatch member)⟩) (fun _ => trivial) received
  exact ⟨link,reached,of_decide_eq_true acks,ordered_sync_faithful [emptySession] ⟨[]⟩ link reached⟩

-- Without `start_sync` there is nothing to accumulate in: the data is dropped
-- and the empty rest acknowledged.
theorem unstarted_sync_applies_nothing : ∃ link, Reached [emptySession] (fun _ _ => True) (initial ⟨[]⟩) link ∧
    ¬link.Faithful [emptySession] := by
  have acked : ((initial ⟨[]⟩).sessionReceived emptySession).any (fun link => decide (link.receiver.acks = [⟨true,1,[]⟩])) =
      true := by decide +kernel
  obtain ⟨link,received,acks⟩ := (Option.any_eq_true _ _).mp acked
  refine ⟨link,sessionReceived_reached .start trivial trivial (fun _ => trivial) received,?_⟩
  intro faithful
  obtain ⟨session,sent,_,applied⟩ := faithful ⟨true,1,[]⟩ (by rw [of_decide_eq_true acks]; exact List.mem_singleton_self _) rfl
  rw [List.mem_singleton.mp sent] at applied
  cases applied

end Link
end RemDb
