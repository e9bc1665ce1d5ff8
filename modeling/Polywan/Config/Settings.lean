import Polywan.Config

/-!
# The settings of notifications, sockets and metrics

The rest of the accepted configuration, next to what routing reads.
-/

namespace Polywan

structure Email where
  sender : String
  recipients : List String
  /-- The absolute path of the sendmail interface. -/
  sendmail : String
  maxPerHour : ℕ
  /-- The event types that produce email. -/
  events : List String
deriving DecidableEq

structure Hook where
  command : List String
  /-- `none`: every event type. -/
  events : Option (List String)
  timeout : ℕ
deriving DecidableEq

structure Notify where
  coalesce : ℕ
  email : Option Email
  hooks : List Hook
  hookUser : String
deriving DecidableEq

/-- The sockets of the API. -/
structure Api where
  socket : String
  group : String
  /-- `none`: disabled. -/
  statusSocket : Option String
  /-- `none`: open to every local user. -/
  statusGroup : Option String
deriving DecidableEq

/-- The whole configuration of a process. -/
structure Configuration extends Config where
  notify : Notify
  api : Api
  metricsListen : Option SocketAddr
  stateDir : String
deriving DecidableEq

end Polywan
