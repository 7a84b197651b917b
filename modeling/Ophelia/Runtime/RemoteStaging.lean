import Ophelia.Lib.Mirror

/-!
# Ophelia.Runtime.RemoteStaging

The legacy transport of a bundle to its host (`_sync_bundle` in `remote.py`): one `rsync` with
`--delete` onto `apps/<app>`, where other components keep what belongs to the host. A list of
exclusions is all that protects it.
-/

namespace Ophelia

open FileTree Mirror

/-! ### The command -/

/-- The options of the command that `_sync_bundle` runs; the bundle and the remote directory
follow them. -/
def syncOptions (sshPort : Option Nat) : List String :=
  ["-az", "--delete",
    "--exclude", "env",
    "--exclude", "release.json",
    "--exclude", "active_release.json",
    "--exclude", "releases/",
    "--exclude", "release-bundles/",
    "--exclude", "addons.json",
    "--exclude", "restore-previews/"] ++
  match sshPort with
  | none => []
  | some port => ["-e", "ssh -p " ++ toString port]

/-- An exclusion without a slash inside: a name at any depth, with a slash behind it the name of
a directory. -/
def exclusion (text : String) : Pattern String :=
  if text.toList.getLast? = some '/' then ⟨String.ofList text.toList.dropLast, true⟩
  else ⟨text, false⟩

/-- What the options of an `rsync` ask for. -/
def rsyncOptions : List String → Options String
  | [] => ⟨false, []⟩
  | "--delete" :: rest => { rsyncOptions rest with delete := true }
  | "--exclude" :: text :: rest =>
      { rsyncOptions rest with excludes := exclusion text :: (rsyncOptions rest).excludes }
  | "-e" :: _ :: rest => rsyncOptions rest
  | _ :: rest => rsyncOptions rest

/-- `apps/<app>` on the host after `_sync_bundle`. -/
def syncBundle (sshPort : Option Nat) (bundle remote : Disk String (List UInt8)) :
    View String (List UInt8) :=
  mirror (rsyncOptions (syncOptions sshPort)) bundle remote

/-! ### What the host keeps -/

/-- The entries of `apps/<app>` that other components write: the environment and the addons, the
release records and bundles, receipts and reports, restore drills and previews, exports and
fresh installs, import previews, cutovers, traffic switches and their rollbacks, the records of
static releases, the lock of the legacy projection, and the environments of version 2 with their
revisions, traffic, cron and environment files. -/
def hostStateNames : List String :=
  ["env", "addons.json", "release.json", "active_release.json", "releases", "release-bundles",
    "receipts", "rollback-reports", "restore-drills", "restore-previews", "export-bundles",
    "fresh-installs", "import-previews", "cutovers", "traffic", "traffic-rollbacks",
    "static-revisions", "static-activations", ".legacy-projection.lock", "environments"]

def isHostState (path : List String) : Bool :=
  path.head?.any fun name => decide (name ∈ hostStateNames)

/-- Every file of the bundle is there with its bytes, and no entry of the host's own state has
been changed or removed. -/
def KeepsHostState (sshPort : Option Nat) (bundle remote : Disk String (List UInt8)) : Prop :=
  (∀ path mode content, bundle.view path = some (.regular mode content) →
    syncBundle sshPort bundle remote path = some (.regular mode content)) ∧
  ∀ path node, isHostState path = true → remote.view path = some node →
    syncBundle sshPort bundle remote path = some node

/-- The exclusions of the command. -/
def stagingExcludes : List (Pattern String) :=
  [⟨"env", false⟩, ⟨"release.json", false⟩, ⟨"active_release.json", false⟩, ⟨"releases", true⟩,
    ⟨"release-bundles", true⟩, ⟨"addons.json", false⟩, ⟨"restore-previews", true⟩]

theorem rsyncOptions_syncOptions (sshPort : Option Nat) :
    rsyncOptions (syncOptions sshPort) = ⟨true, stagingExcludes⟩ := by
  cases sshPort with
  | none => rfl
  | some port => rfl

/-- A file of the bundle can arrive: no component of its path is excluded on either side and it
is not a directory of the host that holds an excluded entry. Else the host has it already. -/
def Arrives (bundle remote : Disk String (List UInt8)) (path : List String) : Prop :=
  (hidden stagingExcludes remote.view path = true ∧ remote.view path = bundle.view path) ∨
  (hidden stagingExcludes remote.view path = false ∧
    hidden stagingExcludes bundle.view path = false ∧
    shelters stagingExcludes remote path = false)

/-- An entry of the host is safe: a component of its path is excluded, or the bundle has the same
entry in its place, or it is a directory that holds an excluded entry and the bundle has no
directory in its place. -/
def Safe (bundle remote : Disk String (List UInt8)) (path : List String) : Prop :=
  hidden stagingExcludes remote.view path = true ∨
  sent stagingExcludes bundle path = remote.view path ∨
  (shelters stagingExcludes remote path = true ∧
    (sent stagingExcludes bundle path).any FileTree.Node.isDirectory = false)

/-- A staging keeps the state of the host, and brings the bundle, exactly when every file of the
bundle can arrive and every entry of the state is safe. -/
theorem keepsHostState_iff (sshPort : Option Nat) (bundle remote : Disk String (List UInt8)) :
    KeepsHostState sshPort bundle remote ↔
      (∀ path mode content, bundle.view path = some (.regular mode content) →
        Arrives bundle remote path) ∧
      ∀ path node, isHostState path = true → remote.view path = some node →
        Safe bundle remote path := by
  unfold KeepsHostState syncBundle
  rw [rsyncOptions_syncOptions]
  refine and_congr ?_ ?_
  · refine forall₃_congr fun path mode content => imp_congr_right fun hnode => ?_
    rw [mirror_eq_source_iff rfl hnode rfl, Arrives, hnode]
  · refine forall₂_congr fun path node => imp_congr_right fun _ => imp_congr_right fun hnode => ?_
    rw [mirror_eq_receiver_iff rfl hnode, Safe, hnode]

end Ophelia

namespace Ophelia.Reference

open FileTree

/-- A receipt of an earlier operation. -/
def receiptOnHost : Disk String (List UInt8) where
  slots := ⟨[⟨["receipts"], .directory 0o755⟩, ⟨["receipts", "op.json"], .regular 0o644 [123, 125]⟩],
    by decide⟩
  closed := by decide

def composeBundle : Disk String (List UInt8) where
  slots := ⟨[⟨["compose.yml"], .regular 0o644 [35]⟩], by decide⟩
  closed := by decide

/-- The staging removes the receipts. -/
theorem not_keepsHostState : ¬ KeepsHostState none composeBundle receiptOnHost := by
  intro h
  have hkept := h.2 ["receipts", "op.json"] (.regular 0o644 [123, 125]) (by decide) (by decide)
  exact absurd hkept (by decide)

end Ophelia.Reference
