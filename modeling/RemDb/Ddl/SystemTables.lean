import RemDb.Ddl.CreateTable

namespace RemDb
open RemDb.Lib

def SYSTEM_CONFIG_TABLE : String := "__remdb_system_config"
def SYSTEM_ROLES_TABLE : String := "__remdb_system_roles"
def SYSTEM_ROLE_PERMISSIONS_TABLE : String := "__remdb_system_role_permissions"
def SYSTEM_USERS_TABLE : String := "__remdb_system_users"
def SYSTEM_USER_ROLES_TABLE : String := "__remdb_system_user_roles"

def isSystemTable (table_name : String) : Bool := table_name.startsWith "__remdb_system"

namespace SystemTables

def text (name : String) (size offset : Nat) (primary_key unique : Bool) : FieldDef :=
  ⟨name,.varChar,size,some size,offset,primary_key,primary_key,unique,false,none⟩

def stamp (name : String) (offset : Nat) : FieldDef :=
  ⟨name,.timestamp,8,none,offset,false,false,false,false,none⟩

structure Shape where
  name : String
  fields : List FieldDef
  primary_key : List Nat
  record_size : Nat
deriving DecidableEq,Repr

def config : Shape :=
  { name := SYSTEM_CONFIG_TABLE
    fields := [text "config_key" 64 0 true true,text "config_value" 256 64 false false,
      text "description" 128 (64+256) false false,stamp "updated_at" (64+256+128),
      stamp "created_at" (64+256+128+8)]
    primary_key := [0]
    record_size := 64+256+128+8+8 }

def roles : Shape :=
  { name := SYSTEM_ROLES_TABLE
    fields := [text "role_name" 64 0 true true,text "description" 256 64 false false,
      stamp "created_at" (64+256),stamp "updated_at" (64+256+8)]
    primary_key := [0]
    record_size := 64+256+8+8 }

def rolePermissions : Shape :=
  { name := SYSTEM_ROLE_PERMISSIONS_TABLE
    fields := [text "role_name" 64 0 true false,text "permission" 64 64 true false,
      text "table_name" 256 (64+64) false false,stamp "created_at" (64+64+256)]
    primary_key := [0,1]
    record_size := 64+64+256+8 }

def users : Shape :=
  { name := SYSTEM_USERS_TABLE
    fields := [text "username" 64 0 true true,text "description" 256 64 false false,
      stamp "created_at" (64+256),stamp "updated_at" (64+256+8)]
    primary_key := [0]
    record_size := 64+256+8+8 }

def userRoles : Shape :=
  { name := SYSTEM_USER_ROLES_TABLE
    fields := [text "username" 64 0 true false,text "role_name" 64 64 true false,
      stamp "created_at" (64+64)]
    primary_key := [0,1]
    record_size := 64+64+8 }

-- The id is one more than the place the table will get.
def Shape.tableDef (shape : Shape) (tables : Nat) : TableDef :=
  ⟨UInt8.ofNat (tables+1),shape.name,shape.fields,shape.primary_key,shape.record_size,512⟩

structure Surroundings where
  memory : Memory
  tx : TransactionManager
  now : UInt64

def create (around : Surroundings) (shape : Shape) : DdlAction σ Unit := do
  let db ← get
  let table ← makeTable around.memory (shape.tableDef db.tables.length) none .sortedArray
  modify fun db => {db with
    tables:=db.tables ++ [some table]
    primary_indices:=db.primary_indices ++ [none]
    secondary_indices:=db.secondary_indices ++ [none]}

def field (width : Nat) (value : String) : Bytes := padTo width value.toUTF8.toList

-- The log items that these inserts leave in an open transaction are not kept
-- track of; they do not change what the next insert does.
def insertRow (around : Surroundings) (name : String) (record : Bytes) : DdlAction σ Unit := do
  let db ← get
  let place ← orFail .tableNotFound (db.placeOf name)
  let entry ← orFail .recordNotFound (db.table place)
  let inserted := entry.table.insert around.tx around.now record
  set {db with tables:=db.tables.set place (some {entry with table:=inserted.2.1})}
  match inserted.1 with
  | .error failure => fail failure
  | .ok _ => pure ()

def defaultConfigs : List (String × String × String) :=
  [("vector_compression_enabled","false","全局向量压缩开关"),
    ("vector_compression_scheme","none","向量压缩方案：none=不压缩, float16=float16, zstd=ZSTD"),
    ("vector_compression_level","3","压缩级别（1-9）"),
    ("max_query_memory_mb","512","查询内存限制（MB）"),
    ("query_timeout_ms","30000","查询超时时间（毫秒）")]

def insertDefaultConfigs (around : Surroundings) : DdlAction σ Unit :=
  defaultConfigs.forM fun row => insertRow around SYSTEM_CONFIG_TABLE
    (field 64 row.1 ++ field 256 row.2.1 ++ field 128 row.2.2 ++ toLE 8 around.now.toNat ++ toLE 8 around.now.toNat)

def permissions : List String := ["ADMIN","SELECT","INSERT","UPDATE","DELETE","CREATE","DROP"]

def insertDefaultRbacData (around : Surroundings) : DdlAction σ Unit := do
  let now := toLE 8 around.now.toNat
  insertRow around SYSTEM_ROLES_TABLE (field 64 "admin" ++ field 256 "超级管理员角色，拥有所有权限" ++ now ++ now)
  permissions.forM fun permission => insertRow around SYSTEM_ROLE_PERMISSIONS_TABLE
    (field 64 "admin" ++ field 64 permission ++ field 256 "" ++ now)
  insertRow around SYSTEM_USERS_TABLE (field 64 "root" ++ field 256 "超级管理员用户" ++ now ++ now)
  insertRow around SYSTEM_USER_ROLES_TABLE (field 64 "root" ++ field 64 "admin" ++ now)

-- `init_system_tables`. The result says whether tables were created; loading
-- the configuration cache fails without the configuration table.
def init (around : Surroundings) : DdlAction σ Bool := do
  let config_exists := (← get).isNamed SYSTEM_CONFIG_TABLE
  if config_exists then pure ()
  else
    create around config
    insertDefaultConfigs around
  let roles_exist := (← get).isNamed SYSTEM_ROLES_TABLE
  if roles_exist then pure ()
  else
    create around roles
    create around rolePermissions
    create around users
    create around userRoles
    insertDefaultRbacData around
  let _ ← orFail .tableNotFound ((← get).placeOf SYSTEM_CONFIG_TABLE)
  pure (!config_exists || !roles_exist)

end SystemTables

-- `create_time_series_table` takes no memory and cannot fail: its fields 0 and
-- 1 and its tags are always there.
def createTimeSeriesTable (name time_field value_field : String) (tags : List String) : DdlAction σ Unit :=
  modify fun db =>
    let time : FieldDef :=
      ⟨time_field,.timestamp,16,none,0,true,true,false,false,some (List.replicate 16 0)⟩
    let value : FieldDef := ⟨value_field,.float64,8,none,16,false,true,false,false,some (List.replicate 8 0)⟩
    let tag_fields := tags.mapIdx fun place tag =>
      (⟨tag,.varChar,MAX_STRING_LEN,none,24+place*MAX_STRING_LEN,false,false,false,false,none⟩ : FieldDef)
    let base : TableDef :=
      { id := UInt8.ofNat (db.tables.length+db.time_series_tables.length)
        name := name
        fields := time :: value :: tag_fields
        primary_key := [0]
        record_size := 24+tags.length*MAX_STRING_LEN
        max_records := db.config.default_max_records }
    {db with time_series_tables:=db.time_series_tables ++ [some ⟨base,0,1,(List.range tags.length).map (·+2)⟩]}

def DbTable.externalTexts (entry : DbTable) : List Nat :=
  ((List.range entry.tdef.max_records).filter entry.table.used).flatMap fun slot =>
    (entry.tdef.fields.filter fun field => field.data_type = .text).filterMap fun field =>
      let storage := field.read (entry.table.records slot) TextStorage.SIZE
      let address := ofLE (readAt storage 8 8)
      if storage.head? = some 1 ∧ address ≠ 0 then some address else none

-- What the destructors of a table and of its secondary index give back;
-- `nodes` says where the memory of a secondary index lies.
def dropEntry (nodes : σ → List Nat) (entry : DbTable) (secondary : Option σ) : DdlAction σ Unit :=
  (entry.externalTexts ++ [entry.data_start,entry.status_array,entry.free_slots] ++
    (secondary.map nodes).getD []).forM free

def clearAt (values : List (Option α)) (place : Nat) : List (Option α) :=
  if place < values.length then values.set place none else values

-- `drop_table`, without its log records.
def dropTable (nodes : σ → List Nat) (table_name : String) (if_exists : Bool) : DdlAction σ Unit := do
  let db ← get
  if table_name = "" then fail .invalidArgument
  else if isSystemTable table_name then fail .notAllowed
  else
    match db.placeOf table_name with
    | none => if if_exists then pure () else fail .tableNotFound
    | some table_index =>
      set {db with
        tables:=db.tables.set table_index none
        primary_indices:=clearAt db.primary_indices table_index
        secondary_indices:=clearAt db.secondary_indices table_index}
      match db.table table_index with
      | some entry => dropEntry nodes entry (db.secondary_indices[table_index]?).join
      | none => pure ()

end RemDb
