import LogRisk.Library.Pool
import Mathlib.Logic.Function.Basic

/-!
# Assets of knowledge packages

The tables of installed package versions and their assets, the transactions of the
repository, and the calls of the service as programs over them.  Reading the archive and
the domain adapters are outside: they answer or raise.
-/

namespace LogRisk.Knowledge

open LogRisk.Library

structure VersionKey where
  packageId : String
  version : String
deriving DecidableEq

structure AssetKey where
  version : VersionKey
  assetId : String
deriving DecidableEq

inductive VersionStatus where
  | installed | retired
deriving DecidableEq

inductive AssetStatus where
  | disabled | materialized | retired | failed
deriving DecidableEq

structure VersionRow where
  packageSha256 : String
  artifactPath : String
  status : VersionStatus := .installed
  stateVersion : ℕ := 1
deriving DecidableEq

structure Target where
  domain : String
  resourceId : String
  version : String
deriving DecidableEq

structure AssetRow where
  assetType : String
  assetPath : String
  target : Option Target := none
  status : AssetStatus := .disabled
  errorCode : Option String := none
  errorMessage : Option String := none
  stateVersion : ℕ := 1
deriving DecidableEq

/-- An exception, with `str(error)` and the `code` it may carry. -/
structure Exn where
  code : Option String := none
  message : String
deriving DecidableEq

def assetMissing : Exn := { message := "'知识包资产不存在'" }

def versionMissing : Exn := { message := "'知识包版本不存在'" }

def versionRetired : Exn := { message := "'知识包版本不存在或已退休'" }

def stateConflict : Exn := { message := "知识包资产状态已被其他操作更新" }

def checksumConflict : Exn := { message := "同一 package_id/version 已存在不同 SHA256 的知识包" }

def uniqueViolation : Exn := { message := "UNIQUE constraint failed" }

def indexError : Exn := { message := "list index out of range" }

structure AssetManifest where
  assetId : String
  type : String
  path : String

structure PackageManifest where
  key : VersionKey
  packageSha256 : String
  artifactPath : String
  assets : List AssetManifest

structure Db where
  versions : VersionKey → Option VersionRow := fun _ => none
  assets : AssetKey → Option AssetRow := fun _ => none

namespace AssetRow

def materialize (row : AssetRow) (target : Target) : AssetRow where
  assetType := row.assetType
  assetPath := row.assetPath
  target := some target
  status := .materialized
  stateVersion := row.stateVersion + 1

def fail (row : AssetRow) (errorCode errorMessage : String) : AssetRow where
  assetType := row.assetType
  assetPath := row.assetPath
  target := row.target
  status := .failed
  errorCode := some errorCode
  errorMessage := some errorMessage
  stateVersion := row.stateVersion + 1

def retire (row : AssetRow) : AssetRow :=
  if row.status = .disabled then { row with status := .retired } else row

end AssetRow

namespace Db

variable (db : Db)

def setVersion (v : VersionKey) (row : VersionRow) : Db :=
  { db with versions := Function.update db.versions v (some row) }

def setAsset (k : AssetKey) (row : AssetRow) : Db :=
  { db with assets := Function.update db.assets k (some row) }

def insertAsset (v : VersionKey) (a : AssetManifest) : Except Exn Db :=
  if (db.assets ⟨v, a.assetId⟩).isSome then throw uniqueViolation
  else return db.setAsset ⟨v, a.assetId⟩ { assetType := a.type, assetPath := a.path }

def createInstallation (m : PackageManifest) : Except Exn Db :=
  match db.versions m.key with
  | some existing =>
      if existing.packageSha256 ≠ m.packageSha256 then throw checksumConflict else return db
  | none =>
      let row : VersionRow := { packageSha256 := m.packageSha256, artifactPath := m.artifactPath }
      m.assets.foldlM (fun db a => db.insertAsset m.key a) (db.setVersion m.key row)

def materializeAsset (k : AssetKey) (target : Target) : Except Exn (AssetRow × Db) :=
  match db.assets k with
  | none => throw assetMissing
  | some row =>
      if row.status = .materialized then return (row, db)
      -- the state version that the update compares was read in the same transaction
      else if row.status = .disabled then
        return (row.materialize target, db.setAsset k (row.materialize target))
      else throw stateConflict

def markAssetFailed (k : AssetKey) (errorCode errorMessage : String) : Db :=
  match db.assets k with
  | none => db
  | some row => db.setAsset k (row.fail errorCode errorMessage)

def retireAssets (v : VersionKey) : Db :=
  let retired (k : AssetKey) (row : AssetRow) := if k.version = v then row.retire else row
  { db with assets := fun k => (db.assets k).map (retired k) }

def retireVersion (v : VersionKey) : Except Exn Db :=
  match db.versions v with
  | none => throw versionRetired
  | some row =>
      if row.status = .installed then
        let row := { row with status := .retired, stateVersion := row.stateVersion + 1 }
        return (db.setVersion v row).retireAssets v
      else throw versionRetired

end Db

/-! ## The service -/

inductive Action where
  | createInstallation (m : PackageManifest)
  | getAsset (k : AssetKey)
  | getVersion (v : VersionKey)
  /-- The content of an asset, from the archive. -/
  | readArtifact (artifactPath assetPath : String)
  /-- `adapters.materialize`. -/
  | adapt (k : AssetKey) (asset : AssetRow) (content : List UInt8)
  | materializeAsset (k : AssetKey) (target : Target)
  | markAssetFailed (k : AssetKey) (errorCode errorMessage : String)
  | retireVersion (v : VersionKey)

def Action.Answer : Action → Type
  | .createInstallation _ => Unit
  | .getAsset _ => Option AssetRow
  | .getVersion _ => Option VersionRow
  | .readArtifact _ _ => List UInt8
  | .adapt _ _ _ => Target
  | .materializeAsset _ _ => AssetRow
  | .markAssetFailed _ _ _ => Unit
  | .retireVersion _ => Unit

abbrev Exec (α : Type) : Type := Program Action Action.Answer Exn α

/-- The characters at which `splitlines` ends a line. -/
def lineEnds : List Char :=
  ['\n', '\r', '\x0b', '\x0c', '\x1c', '\x1d', '\x1e', '\u0085', '\u2028', '\u2029']

/-- `str(error).splitlines()[0][:240]`, where there is a line. -/
def safeMessage (message : String) : Option String :=
  if message.isEmpty then none
  else some (String.ofList ((message.toList.takeWhile (· ∉ lineEnds)).take 240))

namespace Service

def ask (a : Action) : Exec a.Answer := .call a

def markAssetFailed (k : AssetKey) (e : Exn) : Exec Unit :=
  match safeMessage e.message with
  | none => throw indexError
  | some message => ask (.markAssetFailed k (e.code.getD "asset_materialize_failed") message)

def attempt (k : AssetKey) (asset : AssetRow) (version : VersionRow) : Exec AssetRow := do
  let content : List UInt8 ← ask (.readArtifact version.artifactPath asset.assetPath)
  let target : Target ← ask (.adapt k asset content)
  ask (.materializeAsset k target)

def materializeAsset (k : AssetKey) : Exec AssetRow := do
  let asset : Option AssetRow ← ask (.getAsset k)
  match asset with
  | none => throw assetMissing
  | some asset =>
    if asset.status = .materialized then return asset
    else do
      let version : Option VersionRow ← ask (.getVersion k.version)
      match version with
      | none => throw versionMissing
      | some version =>
        tryCatch (attempt k asset version) fun e => do
          markAssetFailed k e
          throw e

end Service

/-! ## Workers -/

structure World where
  db : Db
  /-- The assets that an adapter was invoked for, oldest first. -/
  invoked : List AssetKey

def World.commit (w : World) (t : Except Exn Db) : Except Exn Unit × World :=
  match t with
  | .ok db => (.ok (), { w with db })
  | .error e => (.error e, w)

def World.record (w : World) (t : Except Exn (AssetRow × Db)) : Except Exn AssetRow × World :=
  match t with
  | .ok (row, db) => (.ok row, { w with db })
  | .error e => (.error e, w)

/-- What an action answers and leaves. -/
def perform : (a : Action) → World → Except Exn a.Answer → World → Prop
  | .createInstallation m, w, r, w' => (r, w') = w.commit (w.db.createInstallation m)
  | .getAsset k, w, r, w' => r = .ok (w.db.assets k) ∧ w' = w
  | .getVersion v, w, r, w' => r = .ok (w.db.versions v) ∧ w' = w
  | .readArtifact _ _, w, _, w' => w' = w
  | .adapt k _ _, w, _, w' => w' = { w with invoked := w.invoked ++ [k] }
  | .materializeAsset k target, w, r, w' => (r, w') = w.record (w.db.materializeAsset k target)
  | .markAssetFailed k errorCode errorMessage, w, r, w' =>
      (r, w') = w.commit (.ok (w.db.markAssetFailed k errorCode errorMessage))
  | .retireVersion v, w, r, w' => (r, w') = w.commit (w.db.retireVersion v)

inductive Caller where
  | install (m : PackageManifest)
  | materialize (k : AssetKey)
  | retire (v : VersionKey)

def entry : Caller → Exec Unit
  | .install m => Service.ask (.createInstallation m)
  | .materialize k => do let _ ← Service.materializeAsset k
  | .retire v => Service.ask (.retireVersion v)

/-- Any number of workers on a registry that is empty at first. -/
abbrev workers : System Caller Action Action.Answer Exn Unit World :=
  .unrestricted entry fun _ => perform

def noPackages : Pool Caller Action Action.Answer Exn Unit World :=
  ⟨{ db := {}, invoked := [] }, []⟩

end LogRisk.Knowledge
