/-
  LogSump.Common.Config — the part of `config.py` that says which daemons there are. The
  entries are validated one by one; nothing compares two of them.
-/

import Mathlib

namespace LogSump.Common

inductive TransportName where
  | ssh
  | «local»
  deriving DecidableEq, Repr

structure DaemonConfig where
  id : String
  host : String
  user : String := "root"
  transport : TransportName := .ssh
  sshOptions : List String := []
  enabled : Bool := true
  deriving DecidableEq, Repr

structure Settings where
  daemons : List DaemonConfig := []

def Settings.enabledDaemons (settings : Settings) : List DaemonConfig := settings.daemons.filter (·.enabled)

end LogSump.Common
