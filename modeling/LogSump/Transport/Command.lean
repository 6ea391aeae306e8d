/-
  LogSump.Transport.Command — the commands that reach a daemon's host
  (`log_sump_common/transport.py`: `SSHTransport`, `LocalTransport`, `Transport.run`,
  `Transport.stream_lines`, `Transport.run_shell`).

  `run` and `stream_lines` start the same process, `argv`. Under `LocalTransport` that is
  the command itself. Under `SSHTransport` it is `ssh`, which joins what follows the
  destination with single spaces and hands the line to the remote shell (the docstring of
  `_shell_command`); `executed` is the argument vector that comes out.

  - `ssh_executes_args_iff`: exactly the vectors that need no quoting run unchanged.
  - `docker_ps_is_split_over_ssh`: the listing's own `{{json .}}` is not one of them; the
    same holds of every other `--format` vector (`format_vectors_need_quoting`), while
    `docker logs` depends only on the container id (`logs_vector_iff`).
  - `run_shell_line`: a script passed by `run_shell` reaches the remote shell as it is.

  `ExecResult` is what `run` returns.
-/

import LogSump.Posix.Shell
import LogSump.Common.Value

namespace LogSump

open Posix

inductive Transport where
  | sshTransport (host user : String) (sshOptions : List String)
  | localTransport
  deriving DecidableEq, Repr

namespace Transport

def commandPrefix : Transport → List String
  | .sshTransport host user sshOptions => "ssh" :: (sshOptions ++ [user ++ "@" ++ host])
  | .localTransport => []

def shellCommand : Transport → String → List String
  | .sshTransport _ _ _, script => [script]
  | .localTransport, script => ["sh", "-c", script]

/-- The process that `run` and `stream_lines` create. -/
def argv (t : Transport) (args : List String) : List String := commandPrefix t ++ args

/-- The line that OpenSSH hands to the remote shell. -/
def remoteLine (t : Transport) (args : List String) : String :=
  Shell.join ((argv t args).drop (commandPrefix t).length)

/-- The argument vector that runs on the daemon's host. -/
def executed (t : Transport) (args : List String) : Except Shell.Stop (List String) :=
  match t with
  | .sshTransport _ _ _ => Shell.read (remoteLine t args)
  | .localTransport => .ok (argv t args)

theorem remoteLine_eq (t : Transport) (args : List String) : remoteLine t args = Shell.join args := by
  simp [remoteLine, argv]

theorem local_executes_args (args : List String) : executed .localTransport args = .ok args := rfl

/-- Both transports run `args` exactly when `args` needs no quoting. -/
theorem ssh_executes_args_iff (host user : String) (sshOptions args : List String) :
    (executed (.sshTransport host user sshOptions) args = .ok args ∧ executed .localTransport args = .ok args) ↔
      Shell.Verbatim args := by
  simp only [local_executes_args, and_true]
  simp only [executed, remoteLine_eq]
  exact Shell.read_join_iff args

/-! ## The vectors that the listener passes -/

/-- `containers_listing._list_containers`. -/
def listContainersArgs : List String := ["docker", "ps", "--format", "\x7b\x7bjson .\x7d\x7d"]

/-- `container_listener.run_container_listener`. -/
def containerListenerArgs (containerId : String) : List String :=
  ["docker", "logs", "-f", "--timestamps", containerId]

/-- `container_stats._sample_once` and `system_stats._try_sample_container_aggregate`. -/
def containerStatsArgs : List String := ["docker", "stats", "--no-stream", "--format", "\x7b\x7bjson .\x7d\x7d"]

/-- `system_stats._try_sample_docker_disk_usage`. -/
def dockerDiskUsageArgs : List String := ["docker", "system", "df", "--format", "\x7b\x7bjson .\x7d\x7d"]

/-- The remote `docker ps` gets `{{json` as its format and a stray argument `.}}`. -/
theorem docker_ps_is_split_over_ssh :
    executed (.sshTransport "10.0.0.5" "deploy" []) listContainersArgs =
        .ok ["docker", "ps", "--format", "\x7b\x7bjson", ".\x7d\x7d"] ∧
      executed (.sshTransport "10.0.0.5" "deploy" []) listContainersArgs ≠ .ok listContainersArgs := by
  decide

theorem format_vectors_need_quoting :
    ∀ args ∈ [listContainersArgs, containerStatsArgs, dockerDiskUsageArgs], ¬ Shell.Verbatim args := by
  decide

/-- `docker logs` runs unchanged for every container id that is plain at the end of the line. -/
theorem logs_vector_iff (containerId : String) :
    Shell.Verbatim (containerListenerArgs containerId) ↔ Shell.Plain [] containerId := by
  have hp : ∀ a ∈ ["docker", "logs", "-f", "--timestamps"], Shell.Plain [' '] a := by decide
  have hn : Shell.IsCommandName "docker" := by decide
  constructor
  · exact fun h => h.1.2 containerId rfl
  · refine fun h => ⟨⟨hp, fun a ha => ?_⟩, fun a ha => by cases ha; exact hn⟩
    cases ha
    exact h

/-! ## Scripts -/

/-- `run_shell`: the remote shell is handed the script itself, the local one through `sh -c`. -/
theorem run_shell_line (host user : String) (sshOptions : List String) (script : String) :
    let t := Transport.sshTransport host user sshOptions
    remoteLine t (shellCommand t script) = script ∧
      executed .localTransport (shellCommand .localTransport script) = .ok ["sh", "-c", script] := by
  refine ⟨?_, rfl⟩
  rw [remoteLine_eq]
  simp [shellCommand, Shell.join]

/-! ## What comes back -/

structure ExecResult where
  returncode : Int
  stdout : Python.PyStr
  stderr : Python.PyStr

namespace ExecResult

open Python Common

def check (r : ExecResult) : Except PyError Unit :=
  if r.returncode ≠ 0 then
    .error (.transportError (py ("command exited " ++ toString r.returncode ++ ": ") ++ r.stderr.strip))
  else .ok ()

/-- The lines of the output as the listener's loops take them: stripped, and not empty. -/
def rows (r : ExecResult) : List PyStr := (r.stdout.splitlines.map PyStr.strip).filter (· ≠ [])

theorem check_ok {r : ExecResult} (h : r.returncode = 0) : r.check = .ok () := if_neg (not_not_intro h)

theorem check_error {r : ExecResult} (h : r.returncode ≠ 0) : ∃ text, r.check = .error (.transportError text) :=
  ⟨_, if_pos h⟩

end ExecResult

end Transport

end LogSump
