import RemDb.Wal.Agreement

namespace RemDb.Wal
open RemDb.Lib

-- Phase 3 runs over everything the scan took once one data operation is among
-- it; else `recover` stops with an error before it. No test looks at a commit.
def isDataOp : LogOperation → Bool
  | .insert | .update | .delete => true
  | _ => false

-- The file when the byte stream of the commit stops after `count` bytes.
def crashed (codecs : Codecs) (manager : LogManager) (entries : List (Env × VariableSizeLogItem))
    (count : Nat) : Bytes :=
  applyWrites manager.log_handle.contents (cutWrites
    ((manager.writeItems codecs entries).2.log_handle.journal.drop manager.log_handle.journal.length) count)

section Scan
variable {codecs : Codecs} {manager : LogManager} {file : Bytes}

end Scan

section Journal
variable {codecs : Codecs} {manager : LogManager} {env : Env} {item : VariableSizeLogItem}

end Journal

section Split
variable {codecs : Codecs} {config : WALConfig} {now : UInt64} {pad : Nat → UInt8}
  {prior rest : List (Env × VariableSizeLogItem)} {manager : LogManager}

end Split

end RemDb.Wal
