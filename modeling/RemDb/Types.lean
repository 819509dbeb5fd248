import RemDb.Lib.Bytes

namespace RemDb
open RemDb.Lib

inductive RemDbError where
  | outOfMemory | recordNotFound | duplicateKey | fieldNotFound | typeMismatch | notNullViolation
  | transactionError | configError | invalidConfig (message : String) | compressionError
  | unsupportedOperation | fileIoError | logRecordNotFound | logChecksumError
  | noRecordsToOverwrite | invalidRecordSize | internalError | invalidPointer
  | invalidData (message : String) | invalidArgument | notAllowed | tableNotFound | invalidState
  | snapshotFormatError | databaseNotFound | databaseExists | databaseClosed | maxDatabasesReached
deriving DecidableEq,Repr

-- `usize` arithmetic in the release profile, which does not check overflow.
def usizeLimit : Nat := 2^64
def usizeSub (left right : Nat) : Nat := (left+usizeLimit-right) % usizeLimit
def usizeAdd (left right : Nat) : Nat := (left+right) % usizeLimit

theorem usizeSub_of_le (small : left < usizeLimit) (ordered : right ≤ left) :
    usizeSub left right = left-right := by
  have split : left+usizeLimit-right = (left-right)+usizeLimit := by omega
  rw [usizeSub,split,Nat.add_mod_right,Nat.mod_eq_of_lt (by omega)]

theorem usizeAdd_of_lt (small : left+right < usizeLimit) : usizeAdd left right = left+right :=
  Nat.mod_eq_of_lt small

-- What `+` and `-` on `usize` do with a result out of range: the release
-- profile wraps, a build that checks stops there.
structure Arithmetic where
  add : Nat → Nat → Option Nat
  sub : Nat → Nat → Option Nat

def wrapping : Arithmetic :=
  { add := fun left right => some (usizeAdd left right)
    sub := fun left right => some (usizeSub left right) }

def checked : Arithmetic :=
  { add := fun left right => if left+right < usizeLimit then some (left+right) else none
    sub := fun left right => if right ≤ left then some (left-right) else none }

-- `to_uppercase` as far as it can give an ASCII letter: two letters outside
-- ASCII have an ASCII capital. What a ligature or a sharp s becomes occurs in
-- none of the words that are looked for.
def upperChar (letter : Char) : Char :=
  if letter = 'ı' then 'I' else if letter = 'ſ' then 'S' else letter.toUpper

end RemDb
