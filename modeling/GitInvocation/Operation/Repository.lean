import GitInvocation.Command.Draft
import GitInvocation.Json.Record
import GitInvocation.Text.Blank
/-!
# Submodules and configuration

Adding and synchronising submodules, setting and unsetting configuration keys.
-/
namespace GitInvocation

def Override.record : Json.Record Override :=
  .of "ConfigOverride"
    (.needs "key" .string <|
      .needs "value" .string <|
      .done)
    (fun (key, value, _) => ⟨key, value⟩)
    (fun o => (o.key, o.value, ()))
    fun _ => rfl

/-- Without a name all submodules are meant. -/
structure SyncSubmodule where
  name : Option String
  deriving DecidableEq

def SyncSubmodule.record : Json.Record SyncSubmodule :=
  .of "SubmoduleSyncRequest"
    (.takes "name" (.optional .string) none <|
      .done)
    (fun (name, _) => ⟨name⟩)
    (fun r => (r.name, ()))
    fun _ => rfl

def SyncSubmodule.draft (r : SyncSubmodule) : Draft :=
  Draft.start "submodule" |>.raw "sync" |>.path? (Text.nonBlank? r.name)

structure AddSubmodule where
  remotePath : String
  localPath : String
  branch : Option String
  force : Bool
  overrides : List Override
  deriving DecidableEq

def AddSubmodule.record : Json.Record AddSubmodule :=
  .of "AddSubmoduleRequest"
    (.needs "remote_path" .string <|
      .needs "local_path" .string <|
      .takes "branch" (.optional .string) none <|
      .takes "force" .bool false <|
      .takes "config_overrides" (.list Override.record.format) [] <|
      .done)
    (fun (remotePath, localPath, branch, force, overrides, _) =>
      ⟨remotePath, localPath, branch, force, overrides⟩)
    (fun r => (r.remotePath, r.localPath, r.branch, r.force, r.overrides, ()))
    fun _ => rfl

def AddSubmodule.draft (r : AddSubmodule) : Draft :=
  let branch := Text.nonBlank? r.branch
  Draft.start "submodule"
    |>.configure r.overrides
    |>.raw "add"
    |>.rawIf r.force "-f"
    |>.rawIf branch.isSome "-b"
    |>.quoted? branch
    |>.path r.remotePath
    |>.path r.localPath

structure SetConfig where
  key : String
  value : String
  everywhere : Bool
  deriving DecidableEq

def SetConfig.record : Json.Record SetConfig :=
  .of "SetConfigRequest"
    (.needs "key" .string <|
      .takes "value" .string "" <|
      .takes "global" .bool false <|
      .done)
    (fun (key, value, everywhere, _) => ⟨key, value, everywhere⟩)
    (fun r => (r.key, r.value, r.everywhere, ()))
    fun _ => rfl

/-- The value is written even when it is empty. -/
def SetConfig.draft (r : SetConfig) : Draft :=
  Draft.start "config"
    |>.rawIf r.everywhere "--global"
    |>.raw r.key
    |>.raw (quoted r.value)

structure UnsetConfig where
  key : String
  everywhere : Bool
  deriving DecidableEq

def UnsetConfig.record : Json.Record UnsetConfig :=
  .of "UnsetConfigRequest"
    (.needs "key" .string <|
      .takes "global" .bool false <|
      .done)
    (fun (key, everywhere, _) => ⟨key, everywhere⟩)
    (fun r => (r.key, r.everywhere, ()))
    fun _ => rfl

def UnsetConfig.draft (r : UnsetConfig) : Draft :=
  Draft.start "config"
    |>.rawIf r.everywhere "--global"
    |>.raw "--unset"
    |>.raw r.key

end GitInvocation
