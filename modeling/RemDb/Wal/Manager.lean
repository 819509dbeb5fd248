import RemDb.Types
import RemDb.Wal.Format

namespace RemDb.Wal
open RemDb.Lib

inductive WALCompressionType where
  | none | lz4 | zstd
deriving DecidableEq,Repr

-- The compression libraries stand outside the repository. A build without the
-- feature answers `InvalidConfig`, which is one of the behaviours allowed here.
structure Codec where
  compress : Bytes → Except RemDbError Bytes
  decompress : Bytes → Except RemDbError Bytes

structure Codecs where
  lz4 : Codec
  zstd : Codec

-- The default build has neither compression feature.
def plainBuild : Codecs where
  lz4 := ⟨fun _ => .error (.invalidConfig "LZ4 compression feature not enabled"),
    fun _ => .error (.invalidConfig "LZ4 compression feature not enabled")⟩
  zstd := ⟨fun _ => .error (.invalidConfig "ZSTD compression feature not enabled"),
    fun _ => .error (.invalidConfig "ZSTD compression feature not enabled")⟩

def compressWalData (codecs : Codecs) : WALCompressionType → Bytes → Except RemDbError Bytes
  | .none,data => .ok data
  | .lz4,data => codecs.lz4.compress data
  | .zstd,data => codecs.zstd.compress data

def decompressWalData (codecs : Codecs) : WALCompressionType → Bytes → Except RemDbError Bytes
  | .none,data => .ok data
  | .lz4,data => codecs.lz4.decompress data
  | .zstd,data => codecs.zstd.decompress data

def WALCompressionType.toByte : WALCompressionType → UInt8
  | .none => 0
  | .lz4 => 1
  | .zstd => 2

def WALCompressionType.ofByte (byte : UInt8) : WALCompressionType :=
  match byte.toNat with
  | 1 => .lz4
  | 2 => .zstd
  | _ => .none

@[simp] theorem compression_roundtrip (type : WALCompressionType) :
    WALCompressionType.ofByte type.toByte = type := by cases type <;> rfl

-- An open file is its image when it was opened and the writes made since, in
-- order. Writes are complete: a short or failing write is outside this model.
structure Disk where
  image : Bytes
  journal : List Write
deriving DecidableEq,Repr

def Disk.contents (disk : Disk) : Bytes := applyWrites disk.image disk.journal
def Disk.write (disk : Disk) (offset : Nat) (bytes : Bytes) : Disk :=
  {disk with journal:=disk.journal ++ [⟨offset,bytes⟩]}

@[simp] theorem contents_write (disk : Disk) (offset : Nat) (bytes : Bytes) :
    (disk.write offset bytes).contents = writeAt disk.contents offset bytes := by
  simp [Disk.contents,Disk.write,applyWrites,Write.apply]

structure WALConfig where
  checkpoint_interval_ms : UInt64
  log_prealloc_size : Nat
  max_consecutive_invalid : UInt32
  skip_threshold : UInt32
  skip_block_size : Nat
  max_skip_attempts : UInt32
  compression_type : WALCompressionType
deriving DecidableEq,Repr

-- The settings of a database opened without a configuration of its own.
def WALConfig.standard : WALConfig := ⟨60000,0,100,20,4096,10,.none⟩

-- What a call reads from outside: the clock, once per `get_timestamp_us`, and
-- the padding bytes of the structs it writes.
structure Env where
  check : UInt64
  flush : UInt64
  checkpoint : UInt64
  pad : Nat → UInt8

def still : Env := ⟨0,0,0,fun _ => 0⟩

structure LogManager where
  log_handle : Disk
  header : LogHeader
  checkpoint : LogCheckpoint
  log_buffer : List VariableSizeLogItem
  last_flush_time : UInt64
  last_checkpoint_time : UInt64
  checkpoint_interval_ms : UInt64
  current_log_offset : Nat
  max_consecutive_invalid : UInt32
  skip_threshold : UInt32
  skip_block_size : Nat
  max_skip_attempts : UInt32
  compression_type : WALCompressionType

namespace LogManager

def writeHeader (manager : LogManager) (pad : Nat → UInt8) : LogManager :=
  let sum := calculateChecksum ({manager.header with checksum:=0}.encode pad)
  let header := {manager.header with checksum:=sum}
  {manager with header:=header,log_handle:=manager.log_handle.write 0 (header.encode pad)}

def writeCheckpoint (manager : LogManager) : LogManager :=
  let sum := calculateChecksum ({manager.checkpoint with checksum:=0}.encode)
  let checkpoint := {manager.checkpoint with checksum:=sum}
  {manager with checkpoint:=checkpoint,
                log_handle:=manager.log_handle.write logHeaderSize checkpoint.encode}

def readCheckpoint (manager : LogManager) : LogManager :=
  let bytes := readAt manager.log_handle.contents logHeaderSize logCheckpointSize
  if bytes = [] then {manager with checkpoint:=⟨0,0,0⟩}
  else {manager with checkpoint:=LogCheckpoint.decode (bytes ++ List.replicate (16-bytes.length) 0)}

def initial (config : WALConfig) (now : UInt64) (disk : Disk) : LogManager :=
  { log_handle := disk
    header := ⟨logMagic,1,now,0,0,config.compression_type.toByte⟩
    checkpoint := ⟨0,0,0⟩
    log_buffer := []
    last_flush_time := now
    last_checkpoint_time := now/1000
    checkpoint_interval_ms := config.checkpoint_interval_ms
    current_log_offset := logRegionStart
    max_consecutive_invalid := config.max_consecutive_invalid
    skip_threshold := config.skip_threshold
    skip_block_size := config.skip_block_size
    max_skip_attempts := config.max_skip_attempts
    compression_type := config.compression_type }

def preallocate (manager : LogManager) (size : Nat) : LogManager :=
  if size > 0 then {manager with log_handle:=manager.log_handle.write (size-1) [0]} else manager

-- `LogManager::new`. The log offset always starts behind the checkpoint area,
-- also when the header read back counts records that are already there.
def new (config : WALConfig) (now : UInt64) (pad : Nat → UInt8) (disk : Disk) : LogManager :=
  let manager := initial config now disk
  let bytes := readAt disk.contents 0 logHeaderSize
  let header := LogHeader.decode bytes
  if bytes.length ≥ logHeaderSize ∧ header.magic = logMagic ∧ header.version = 1 then
    readCheckpoint {manager with header:=header}
  else writeHeader (preallocate manager config.log_prealloc_size) pad

def recordOffset (manager : LogManager) : Nat :=
  logRegionStart+manager.header.record_count.toNat*logItemSize

-- `flush_buffer`. Buffered items go out without the length prefixes.
def flushItem (pad : Nat → UInt8) (state : LogManager × Nat) (item : VariableSizeLogItem) :
    LogManager × Nat :=
  let bytes := item.header.encode pad ++ item.old_data ++ item.new_data
  ({state.1 with
      log_handle:=state.1.log_handle.write state.2 bytes,
      header:={state.1.header with record_count:=state.1.header.record_count+1}},
   state.2+bytes.length)

def flushBuffer (manager : LogManager) (env : Env) : LogManager :=
  if manager.log_buffer = [] then manager
  else
    let written := (manager.log_buffer.foldl (flushItem env.pad) (manager,manager.recordOffset)).1
    let cleared := {written with log_buffer:=[],header:={written.header with checksum:=0}}
    {writeHeader cleared env.pad with last_flush_time:=env.flush}

def checkpointItem (now : UInt64) : LogItem :=
  let item : LogItem := ⟨.checkpoint,0,0,0,0,0,now,0⟩
  {item with checksum:=calculateLogItemChecksum item}

-- `create_checkpoint`. Its record goes to the place the record count gives for
-- headers without payload, and `current_log_offset` is left alone.
def createCheckpoint (manager : LogManager) (env : Env) : LogManager :=
  let bytes := (checkpointItem env.checkpoint).encode env.pad
  let written := {manager with
    checkpoint:=⟨env.checkpoint,manager.header.record_count,0⟩,
    log_handle:=manager.log_handle.write manager.recordOffset bytes,
    header:={manager.header with record_count:=manager.header.record_count+1,checksum:=0}}
  {writeHeader (writeCheckpoint written) env.pad with last_checkpoint_time:=env.checkpoint/1000}

def CheckpointDue (manager : LogManager) (env : Env) : Prop :=
  env.check/1000-manager.last_checkpoint_time ≥ manager.checkpoint_interval_ms

instance (manager : LogManager) (env : Env) : Decidable (manager.CheckpointDue env) :=
  inferInstanceAs (Decidable (_ ≥ _))

def checkFlushAndCheckpoint (manager : LogManager) (env : Env) : LogManager :=
  let flushed :=
    if env.check-manager.last_flush_time > 1000000 ∧ manager.log_buffer ≠ [] then
      manager.flushBuffer env
    else manager
  if flushed.CheckpointDue env then flushed.createCheckpoint env else flushed

-- One payload as the writer stores it: nothing when the header announces no
-- bytes, else the packed length and the packed bytes, for every compression type.
def packPart (codecs : Codecs) (type : WALCompressionType) (size : UInt16) (data : Bytes) :
    Except RemDbError Bytes :=
  if size > 0 then
    (compressWalData codecs type data).map fun packed => toLE 4 packed.length ++ packed
  else .ok []

def put (manager : LogManager) (offset : Nat) (bytes : Bytes) : LogManager :=
  {manager with log_handle:=manager.log_handle.write offset bytes}

-- `write_variable_size_log_item`; the Sync and Async arms are the same text.
-- A compression error leaves what was already written in the file.
def writeVariableSizeLogItem (codecs : Codecs) (manager : LogManager) (env : Env)
    (item : VariableSizeLogItem) : Except RemDbError Unit × LogManager :=
  let start := manager.checkFlushAndCheckpoint env
  let offset := start.current_log_offset
  let headed := start.put offset (item.header.encode env.pad)
  match packPart codecs start.compression_type item.header.old_data_size item.old_data with
  | .error failure => (.error failure,headed)
  | .ok old =>
    let olded := headed.put (offset+logItemSize) old
    match packPart codecs start.compression_type item.header.new_data_size item.new_data with
    | .error failure => (.error failure,olded)
    | .ok new =>
      let filled := olded.put (offset+logItemSize+old.length) new
      let counted := {filled with
        header:={filled.header with record_count:=filled.header.record_count+1,checksum:=0},
        current_log_offset:=offset+(logItemSize+old.length+new.length)}
      (.ok (),counted.writeHeader env.pad)

def writeLogItem (codecs : Codecs) (manager : LogManager) (env : Env) (item : LogItem) :
    Except RemDbError Unit × LogManager :=
  manager.writeVariableSizeLogItem codecs env ⟨item,[],[]⟩

def close (manager : LogManager) (env : Env) : LogManager :=
  (manager.flushBuffer env).createCheckpoint env

-- The loop of `commit_log_item`: items in order until one write fails.
def writeItems (codecs : Codecs) (manager : LogManager) :
    List (Env × VariableSizeLogItem) → Except RemDbError Unit × LogManager
  | [] => (.ok (),manager)
  | (env,item) :: rest =>
    match manager.writeVariableSizeLogItem codecs env item with
    | (.ok _,next) => next.writeItems codecs rest
    | (.error failure,next) => (.error failure,next)

theorem checkFlush_idle {manager : LogManager} (empty : manager.log_buffer = [])
    (early : ¬manager.CheckpointDue env) : manager.checkFlushAndCheckpoint env = manager := by
  simp [checkFlushAndCheckpoint,empty,early]

-- The complete record a successful write puts at the log offset.
def record (codecs : Codecs) (type : WALCompressionType) (pad : Nat → UInt8)
    (item : VariableSizeLogItem) : Except RemDbError Bytes := do
  let old ← packPart codecs type item.header.old_data_size item.old_data
  let new ← packPart codecs type item.header.new_data_size item.new_data
  return item.header.encode pad ++ old ++ new

end LogManager
end RemDb.Wal
