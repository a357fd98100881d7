import MiniKv.Persistence.Snapshot

/-! Saving to a file: a temporary file takes the bytes of the snapshot and is renamed. Between its
first and its last write the code looks at no result, and at no flush, so all bytes are offered
whatever becomes of the earlier ones.
-/

namespace MiniKv

/-- The files by their names. -/
def Disk : Type := List UInt8 → Option (List UInt8)

/-- Creates, replaces or removes a file. -/
def Disk.set (disk : Disk) (name : List UInt8) (content : Option (List UInt8)) : Disk :=
  fun other => if other = name then content else disk other

/-- `rename`; renaming a file to itself does nothing. -/
def Disk.rename (disk : Disk) (old new : List UInt8) : Disk :=
  if old = new then disk else (disk.set new (disk old)).set old none

/-- The size of `tmp_file`. -/
def tmpFileSize : Nat := 512

/-- The name of the temporary file: what `snprintf` leaves of `filename.tmp`. -/
def saveTmpName (filename : CString) : List UInt8 :=
  (filename.bytes ++ ascii ['.', 't', 'm', 'p']).take (tmpFileSize - 1)

/-- How the calls around the temporary file end: `fopen`; what the two checked `fwrite` calls
return; which of the bytes reach the file, by their position; and `rename`.
-/
structure SaveEnv where
  opened : Bool
  magicTaken : Nat
  reaches : Nat → Bool
  checksumTaken : Nat
  renamed : Bool

/-- The bytes that reach the file, the first of them at the given position. -/
def survivors (reaches : Nat → Bool) : Nat → List UInt8 → List UInt8
  | _, [] => []
  | position, byte :: rest =>
      if reaches position then byte :: survivors reaches (position + 1) rest
      else survivors reaches (position + 1) rest

/-- `kv_save`. -/
def kvSave (store : Store) (filename : Option CString) (nowMs : Int64) (env : SaveEnv)
    (disk : Disk)
    : Int × Disk :=
  match filename with
  | none => (kvErrInvalidParam, disk)
  | some filename =>
      let tmp := saveTmpName filename
      if env.opened = false then (kvErrIo, disk)
      else if env.magicTaken ≠ snapshotMagic.length then (kvErrIo, disk.set tmp none)
      else if env.checksumTaken ≠ 4 then (kvErrIo, disk.set tmp none)
      else
        let bytes := kvSaveInternalUnlocked store.table nowMs
        let written := disk.set tmp (some (survivors env.reaches 0 bytes))
        if env.renamed = false then (kvErrIo, written.set tmp none)
        else (kvOk, written.rename tmp filename.bytes)

end MiniKv
