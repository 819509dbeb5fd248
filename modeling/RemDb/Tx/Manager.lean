import RemDb.Wal.Manager

namespace RemDb
open RemDb.Lib RemDb.Wal

inductive TransactionType where
  | readOnly | readWrite
deriving DecidableEq,Repr

inductive TransactionStatus where
  | active | committed | rolledBack | prepared
deriving DecidableEq,Repr

-- `addr` is the address of the caller's transaction buffer, which is all the
-- manager keeps; `log_items` is the filled part of the caller's log buffer.
structure Transaction where
  addr : Nat
  id : UInt32
  tx_type : TransactionType
  status : TransactionStatus
  log_items : List VariableSizeLogItem
  max_log_items : Nat
deriving DecidableEq,Repr

-- The item both `begin_log_item` and `begin_variable_size_log_item` build.
def logItem (tx : UInt32) (operation : LogOperation) (table : UInt8) (record : UInt16) (now : UInt64)
    (old new : Bytes) : VariableSizeLogItem :=
  let item : VariableSizeLogItem :=
    ⟨⟨operation,table,record,UInt16.ofNat old.length,UInt16.ofNat new.length,tx,now,0⟩,old,new⟩
  {item with header:={item.header with checksum:=calculateVariableSizeLogItemChecksum item}}

namespace Transaction

-- `begin_log_item`. A full buffer drops the item; no caller looks at the result.
def beginLogItem (tx : Transaction) (operation : LogOperation) (table : UInt8) (record : UInt16)
    (now : UInt64) (old new : Bytes) : Transaction :=
  if tx.log_items.length ≥ tx.max_log_items then tx
  else {tx with log_items:=tx.log_items ++ [logItem tx.id operation table record now old new]}

-- `commit_log_item`, with the log manager the items go to, if there is one.
def commitLogItem (codecs : Codecs) (tx : Transaction) (log : Option LogManager) (envs : Nat → Env) :
    Except RemDbError Unit × Option LogManager :=
  if tx.status ≠ .active then (.error .transactionError,log)
  else
    match log with
    | none => (.ok (),none)
    | some manager =>
      let written := manager.writeItems codecs (tx.log_items.mapIdx fun index item => (envs index,item))
      (written.1,some written.2)

end Transaction

structure TransactionManager where
  current_tx : Option Transaction
  tx_id_counter : UInt32
  log_manager : Option LogManager

namespace TransactionManager

-- `begin`. A null transaction buffer is `none`; a null log buffer makes room
-- for no item. The counter moves on before the buffer is looked at.
def start (manager : TransactionManager) (type : TransactionType) (buffer : Option Nat)
    (hasLog : Bool) (maxLogItems : Nat) : Except RemDbError Unit × TransactionManager :=
  if manager.current_tx.isSome then (.error .transactionError,manager)
  else
    let counted := {manager with tx_id_counter:=manager.tx_id_counter+1}
    match buffer with
    | none => (.error .transactionError,counted)
    | some addr =>
      let tx := ⟨addr,manager.tx_id_counter,type,.active,[],if hasLog then maxLogItems else 0⟩
      (.ok (),{counted with current_tx:=some tx})

-- `commit` clears the current transaction before it writes.
def commit (codecs : Codecs) (manager : TransactionManager) (envs : Nat → Env) :
    Except RemDbError Unit × TransactionManager :=
  match manager.current_tx with
  | none => (.error .transactionError,manager)
  | some tx =>
    let logged := tx.commitLogItem codecs manager.log_manager envs
    (logged.1,{manager with current_tx:=none,log_manager:=logged.2})

-- The log step of insert, update and delete.
def log (manager : TransactionManager) (operation : LogOperation) (table : UInt8) (record : UInt16)
    (now : UInt64) (old new : Bytes) : TransactionManager :=
  {manager with current_tx:=manager.current_tx.map fun tx =>
    tx.beginLogItem operation table record now old new}

-- The log step of the batch operations: straight to the log, past the buffer of
-- the transaction, and a failed write is ignored.
def logDirect (codecs : Codecs) (manager : TransactionManager) (operation : LogOperation) (table : UInt8)
    (record : UInt16) (now : UInt64) (env : Env) (new : Bytes) : TransactionManager :=
  match manager.current_tx,manager.log_manager with
  | some tx,some log =>
    if tx.status = .active ∧ tx.tx_type ≠ .readOnly then
      let item := logItem tx.id operation table record now [] new
      {manager with log_manager:=some (log.writeVariableSizeLogItem codecs env item).2}
    else manager
  | _,_ => manager

end TransactionManager
end RemDb
