import RemDb.Types

namespace RemDb

inductive DatabaseStatus where
  | created | opened | closed | dropped
deriving DecidableEq,Repr

structure DatabaseConfig where
  memory_limit : Option Nat
deriving DecidableEq,Repr

structure DatabaseInstance where
  name : String
  total_memory : Nat
  log_path : String
  status : DatabaseStatus
deriving DecidableEq,Repr

structure DatabaseManager where
  databases : List DatabaseInstance
  current_database : Option Nat
  max_databases : UInt64
deriving DecidableEq,Repr

namespace DatabaseManager

def DEFAULT_MEMORY : Nat := 1024*1024*1024

def new (max_databases : UInt64) : DatabaseManager := ⟨[],none,max_databases⟩

-- No value: the subscript is out of bounds and the call panics.
def get_current_database (manager : DatabaseManager) : Option (Option DatabaseInstance) :=
  match manager.current_database with
  | none => some none
  | some idx => (manager.databases[idx]?).map some

def position (name : String) (databases : List DatabaseInstance) : Option Nat :=
  databases.findIdx? fun db => db.name == name

def usable (db : DatabaseInstance) : Bool := db.status = .opened || db.status = .created

def use_database (manager : DatabaseManager) (name : String) : Except RemDbError Unit × DatabaseManager :=
  match position name manager.databases with
  | none => (.error .databaseNotFound,manager)
  | some idx =>
    if (manager.databases[idx]?).any usable then (.ok (),{manager with current_database:=some idx})
    else (.error .databaseClosed,manager)

def new_with_name (name : String) (config : Option DatabaseConfig) : DatabaseInstance :=
  { name:=name
    total_memory:=(config.bind DatabaseConfig.memory_limit).getD DEFAULT_MEMORY
    log_path:="./data/" ++ name
    status:=.created }

def create_database (manager : DatabaseManager) (name _schema : String) (config : Option DatabaseConfig) :
    Except RemDbError DatabaseInstance × DatabaseManager :=
  if manager.databases.any (fun db => db.name == name) then (.error .databaseExists,manager)
  else if manager.databases.length ≥ manager.max_databases.toNat then (.error .maxDatabasesReached,manager)
  else
    let db := new_with_name name config
    (.ok db,{manager with databases:=manager.databases ++ [db]})

-- No value: the subtraction stops the program.
def drop_database (arithmetic : Arithmetic) (manager : DatabaseManager) (name : String) :
    Option (Except RemDbError Unit × DatabaseManager) :=
  match position name manager.databases with
  | none => some (.error .databaseNotFound,manager)
  | some idx =>
    let databases := manager.databases.eraseIdx idx
    match manager.current_database with
    | none => some (.ok (),{manager with databases:=databases})
    | some current =>
      if current ≥ idx then do
        let previous ← arithmetic.sub current 1
        pure (.ok (),{manager with databases:=databases,current_database:=some previous})
      else some (.ok (),{manager with databases:=databases})

end DatabaseManager

inductive DatabaseCall where
  | create (name schema : String) (config : Option DatabaseConfig)
  | use (name : String)
  | drop (name : String)
deriving DecidableEq,Repr

def DatabaseManager.call (arithmetic : Arithmetic) (manager : DatabaseManager) : DatabaseCall → Option DatabaseManager
  | .create name schema config => some (manager.create_database name schema config).2
  | .use name => some (manager.use_database name).2
  | .drop name => (manager.drop_database arithmetic name).map Prod.snd

end RemDb
