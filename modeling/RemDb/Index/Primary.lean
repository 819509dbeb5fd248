import RemDb.Lib.Linked
import RemDb.Lib.Multimap
import RemDb.Table.Def

namespace RemDb
open RemDb.Lib

structure IndexStats where
  access_count : Nat
  hit_count : Nat
  size : Nat
  item_count : Nat
deriving DecidableEq,Repr

structure PrimaryIndexItem where
  next : Option Nat
  record_id : UInt16
  key_size : UInt8
  key_data : Bytes
deriving DecidableEq,Repr

def PrimaryIndexItem.KEY_DATA : Nat := 128

-- Pointers into the item pool are positions in it; `max_items` is the extent of
-- the pool, which the code knows only while it sets the index up.
structure PrimaryIndex where
  tdef : TableDef
  hash_table : Nat → Option Nat
  hash_table_size : Nat
  items : Nat → PrimaryIndexItem
  free_items : Option Nat
  stats : IndexStats
  max_items : Nat

namespace PrimaryIndex
open PrimaryIndexItem

def slotBytes : Nat := 8
def itemBytes : Nat := 144

def calculateMemorySize (hash_table_size max_items : Nat) : Nat :=
  usizeAdd (hash_table_size*slotBytes % usizeLimit) (max_items*itemBytes % usizeLimit)

def setItem (index : PrimaryIndex) (item : Nat) (value : PrimaryIndexItem) : PrimaryIndex :=
  {index with items:=assign index.items item value}

-- One round of the loop that strings the pool up, from the last item to the first.
def thread (index : PrimaryIndex) (item : Nat) : PrimaryIndex :=
  {index.setItem item ⟨index.free_items,0,0,List.replicate KEY_DATA 0⟩ with free_items:=some item}

def new (tdef : TableDef) (hash_table_start : Nat → Option Nat) (items_start : Nat → PrimaryIndexItem)
    (hash_table_size max_items : Nat) : PrimaryIndex :=
  (List.range max_items).reverse.foldl thread
    { tdef := tdef
      hash_table := fun slot => if slot < hash_table_size then none else hash_table_start slot
      hash_table_size := hash_table_size
      items := items_start
      free_items := none
      stats := ⟨0,0,calculateMemorySize hash_table_size max_items,0⟩
      max_items := max_items }

def hashBytes (key : Bytes) : UInt64 :=
  key.foldl (fun hash byte =>
    let mixed := (hash ^^^ byte.toUInt64)*0x5bd1e995
    mixed ^^^ (mixed >>> 47)) 0

def hashKey (hash_table_size : Nat) (key : Bytes) : Nat := (hashBytes key).toNat % hash_table_size

-- The size is compared as a byte and the bytes one by one; a key longer than
-- the array whose bytes all agree is read past the end of the array.
def sameKey (item : PrimaryIndexItem) (key : Bytes) : Option Bool :=
  if item.key_size ≠ UInt8.ofNat key.length then some false
  else if item.key_data.take key.length ≠ key.take KEY_DATA then some false
  else if key.length ≤ KEY_DATA then some true
  else none

-- Fill the first spare item and put it at the head of its slot. The bytes of
-- an old key stay behind a shorter new one.
def attach (index : PrimaryIndex) (item : Nat) (key : Bytes) (record_id : UInt16) : PrimaryIndex :=
  let old := index.items item
  let slot := hashKey index.hash_table_size key
  let filled : PrimaryIndexItem :=
    { next := index.hash_table slot
      record_id := record_id
      key_size := UInt8.ofNat key.length
      key_data := key ++ old.key_data.drop key.length }
  {index.setItem item filled with
    free_items:=old.next
    hash_table:=assign index.hash_table slot (some item)
    stats:={index.stats with item_count:=usizeAdd index.stats.item_count 1}}

def insert (index : PrimaryIndex) (key : Bytes) (record_id : UInt16) :
    Except RemDbError Unit × PrimaryIndex :=
  if key.length > KEY_DATA then (.error .unsupportedOperation,index)
  else
    match index.free_items with
    | none => (.error .outOfMemory,index)
    | some item => (.ok (),index.attach item key record_id)

def findLoop (index : PrimaryIndex) (key : Bytes) : Nat → Option Nat → Option (Option Nat)
  | 0, _ => none
  | _+1, none => some none
  | fuel+1, some item =>
    match sameKey (index.items item) key with
    | none => none
    | some true => some (some item)
    | some false => findLoop index key fuel (index.items item).next

-- `none` stands for a chain that does not end within the pool, or an access out
-- of bounds.
def find (index : PrimaryIndex) (key : Bytes) : Option (Except RemDbError UInt16 × PrimaryIndex) :=
  let counted := {index with stats:={index.stats with access_count:=usizeAdd index.stats.access_count 1}}
  (findLoop index key (index.max_items+1) (index.hash_table (hashKey index.hash_table_size key))).map
    fun found => match found with
      | none => (.error .recordNotFound,counted)
      | some item => (.ok (index.items item).record_id,
          {counted with stats:={counted.stats with hit_count:=usizeAdd counted.stats.hit_count 1}})

-- Take an item out of its chain, behind `prev` or at the head of the slot, and
-- give it back to the pool.
def detach (index : PrimaryIndex) (slot : Nat) (prev : Option Nat) (item : Nat) : PrimaryIndex :=
  let next := (index.items item).next
  let unlinked := match prev with
    | some prev_item => index.setItem prev_item {index.items prev_item with next:=next}
    | none => {index with hash_table:=assign index.hash_table slot next}
  {unlinked.setItem item {unlinked.items item with next:=unlinked.free_items} with
    free_items:=some item
    stats:={unlinked.stats with item_count:=usizeSub unlinked.stats.item_count 1}}

def deleteLoop (index : PrimaryIndex) (key : Bytes) (slot : Nat) : Nat → Option Nat → Option Nat →
    Option (Except RemDbError Unit × PrimaryIndex)
  | 0, _, _ => none
  | _+1, _, none => some (.error .recordNotFound,index)
  | fuel+1, prev, some item =>
    match sameKey (index.items item) key with
    | none => none
    | some true => some (.ok (),index.detach slot prev item)
    | some false => deleteLoop index key slot fuel (some item) (index.items item).next

def delete (index : PrimaryIndex) (key : Bytes) : Option (Except RemDbError Unit × PrimaryIndex) :=
  let slot := hashKey index.hash_table_size key
  deleteLoop index key slot (index.max_items+1) none (index.hash_table slot)

end PrimaryIndex
end RemDb
