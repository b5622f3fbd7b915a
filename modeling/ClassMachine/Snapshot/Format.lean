import ClassMachine.Digest
import ClassMachine.Snapshot.Error
import ClassMachine.Snapshot.Image

/-!
Bytes of an image: four letters, the version of the format, the digest of the body, and the body.
-/
namespace ClassMachine.Snapshot

/-- The first bytes of every image. -/
def magic : List UInt8 := "HVMS".toUTF8.toList

/-- Two bytes, the higher one first. -/
def versionBytes : List UInt8 := [UInt8.ofNat (formatVersion / 256), UInt8.ofNat formatVersion]

def digestLength : Nat := 32

/-- Length of what stands before the body. -/
def headerLength : Nat := magic.length + versionBytes.length + digestLength

namespace Image

def toBytes (i : Image) : List UInt8 :=
  let body := Binary.write i
  magic ++ versionBytes ++ Digest.sha256 body ++ body

/-- Number the version bytes of a header stand for. -/
def versionOf (bytes : List UInt8) : Nat :=
  ((bytes.drop magic.length).take versionBytes.length).foldl (fun n b => 256 * n + b.toNat) 0

/-- Digest a header gives for the body. -/
def digestOf (bytes : List UInt8) : List UInt8 :=
  (bytes.drop (magic.length + versionBytes.length)).take digestLength

/-- Reads an image; bytes after it are left alone, but are part of what the digest is taken of. -/
def ofBytes (bytes : List UInt8) : Except SnapshotError Image :=
  let body := bytes.drop headerLength
  if !magic.isPrefixOf bytes then .error .badMagic
  else if bytes.length < headerLength then .error .truncated
  else if versionOf bytes ≠ formatVersion then .error (.unsupportedVersion (versionOf bytes))
  else if digestOf bytes ≠ Digest.sha256 body then .error .checksumMismatch
  else
    match (Binary.read : Reader Image) body with
    | some (i, _) => .ok i
    | none => .error .codec

end Image

end ClassMachine.Snapshot
