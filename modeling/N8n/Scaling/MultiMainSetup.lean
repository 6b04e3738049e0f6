import Mathlib.Data.List.Basic

/-!
# Leader election among several mains

Any number of main instances compete for one key in Redis, the leader key, which expires.
`LeaderElectionClient` has four commands for it, and each routine of `MultiMainSetup` awaits
one command after the other. A command is executed by Redis at one moment, at any time after
the routine has sent it; the routine goes on at any time after that with the reply. It may
also go on with an error (a timeout, a closed connection): then its command is abandoned,
and Redis may still execute it.

How long the leader key lives is not modelled: it expires whenever it likes.
-/

namespace N8n

/-- The commands of `LeaderElectionClient`. -/
inductive LeaderElectionClient.Command where
  | getLeader
  | setLeaderIfNotExists
  | tryRenewLeaderTtl
  | clearLeader
  deriving DecidableEq, Repr

inductive LeaderElectionClient.TtlRenewalResult where
  | keyMissing
  | otherHostIsLeader (currentLeaderId : String)
  | success
  deriving DecidableEq, Repr

open LeaderElectionClient

/-- What Redis replies to a command. -/
inductive LeaderElectionClient.Reply where
  /-- `getLeader()`. -/
  | leader (leaderId : Option String)
  /-- `setLeaderIfNotExists()`. -/
  | claimed (ok : Bool)
  /-- `tryRenewLeaderTtl()`. -/
  | renewal (result : TtlRenewalResult)
  /-- `clearLeader()`. -/
  | cleared
  deriving DecidableEq, Repr

/-- The routines of `MultiMainSetup`, named by the `await` they are suspended at. -/
inductive MultiMainSetup.Suspended where
  /-- `init`, at `setLeaderIfNotExists`. -/
  | init
  /-- `checkAreWeStillLeader`, at `tryRenewLeaderTtl`. -/
  | renewing
  /-- `checkAreWeStillLeader`, at `setLeaderIfNotExists`. -/
  | reclaiming
  /-- `checkCanBecomeLeader`, at `getLeader`. -/
  | looking
  /-- `checkCanBecomeLeader`, at `setLeaderIfNotExists`. -/
  | claiming
  /-- `shutdown`, at `clearLeader`. -/
  | shuttingDown
  deriving DecidableEq, Repr

/-- The command a routine awaits. -/
def MultiMainSetup.Suspended.command : Suspended → Command
  | init | reclaiming | claiming => .setLeaderIfNotExists
  | renewing => .tryRenewLeaderTtl
  | looking => .getLeader
  | shuttingDown => .clearLeader

/-- Where the command of a routine is. -/
inductive MultiMainSetup.CommandState where
  /-- On its way to Redis. -/
  | sent
  /-- Not sent: the client is disconnected. -/
  | refused
  /-- Executed, and the reply is on its way back. -/
  | replied (reply : Reply)
  deriving DecidableEq, Repr

open MultiMainSetup in
/-- One main instance. -/
structure MultiMainSetup where
  /-- `instanceSettings.isLeader`. -/
  isLeader : Bool := false
  /-- Whether `leaderCheckInterval` is armed. -/
  leaderCheckInterval : Bool := false
  leaderCheckInProgress : Bool := false
  /-- Whether the client is destroyed. -/
  destroyed : Bool := false
  /-- The routines that await a command. -/
  awaiting : List (Suspended × CommandState) := []
  deriving DecidableEq, Repr

namespace MultiMainSetup

/-! ### The routines of one main -/

/-- A routine sends its command and awaits it. -/
def await (routine : Suspended) (st : MultiMainSetup) : MultiMainSetup :=
  { st with awaiting := st.awaiting ++ [(routine, if st.destroyed then .refused else .sent)] }

/-- `takeOverAsLeader()`. What its assertion excludes, a leader that takes over, would change
nothing. -/
def takeOverAsLeader (st : MultiMainSetup) : MultiMainSetup := { st with isLeader := true }

def stepDownToFollower (st : MultiMainSetup) : MultiMainSetup := { st with isLeader := false }

def markAsFollower (st : MultiMainSetup) : MultiMainSetup := { st with isLeader := false }

/-- `client.destroy()`. -/
def destroy (st : MultiMainSetup) : MultiMainSetup := { st with destroyed := true }

/-- `init()`, up to its `await`. -/
def init (st : MultiMainSetup) : MultiMainSetup := st.await .init

/-- `shutdown()`, up to its `await`. -/
def shutdown (st : MultiMainSetup) : MultiMainSetup :=
  let st := { st with leaderCheckInterval := false }
  if st.isLeader then st.await .shuttingDown else st.destroy

/-- `checkLeader()`, up to its first `await`. -/
def checkLeader (st : MultiMainSetup) : MultiMainSetup :=
  if st.leaderCheckInProgress then st
  else
    let st := { st with leaderCheckInProgress := true }
    if st.isLeader then st.await .renewing else st.await .looking

/-- The `finally` of `checkLeader`. -/
def endCheck (st : MultiMainSetup) : MultiMainSetup := { st with leaderCheckInProgress := false }

/-- `init` goes on. A reply is `none` when the command has failed. -/
def initAnswered (reply : Option Reply) (st : MultiMainSetup) : MultiMainSetup :=
  let st :=
    match reply with
    | some (.claimed true) => st.takeOverAsLeader
    | _ => st.markAsFollower
  { st with leaderCheckInterval := true }

/-- `checkAreWeStillLeader` goes on after the renewal. -/
def renewalAnswered (reply : Option Reply) (st : MultiMainSetup) : MultiMainSetup :=
  match reply with
  | some (.renewal (.otherHostIsLeader _)) => st.stepDownToFollower.endCheck
  | some (.renewal .keyMissing) => st.await .reclaiming
  -- Renewed, or an error: "we accept that this might cause some inconsistencies".
  | _ => st.endCheck

/-- `checkAreWeStillLeader` goes on after the key was missing. -/
def reclaimAnswered (reply : Option Reply) (st : MultiMainSetup) : MultiMainSetup :=
  match reply with
  | some (.claimed true) => st.endCheck
  | _ => st.stepDownToFollower.endCheck

/-- `checkCanBecomeLeader` goes on with the leader. An empty id counts as none. -/
def leaderAnswered (hostId : String) (reply : Option Reply) (st : MultiMainSetup) :
    MultiMainSetup :=
  match reply with
  | some (.leader leaderId) =>
    match leaderId.filter (· ≠ "") with
    | some leaderId => if leaderId = hostId then st.takeOverAsLeader.endCheck else st.endCheck
    | none => st.await .claiming
  | _ => st.endCheck

/-- `checkCanBecomeLeader` goes on after the leadership was vacant. -/
def claimAnswered (reply : Option Reply) (st : MultiMainSetup) : MultiMainSetup :=
  match reply with
  | some (.claimed true) => st.takeOverAsLeader.endCheck
  | _ => st.endCheck

/-- A suspended routine goes on. -/
def resume (hostId : String) (routine : Suspended) (reply : Option Reply) (st : MultiMainSetup) :
    MultiMainSetup :=
  match routine with
  | .init => st.initAnswered reply
  | .renewing => st.renewalAnswered reply
  | .reclaiming => st.reclaimAnswered reply
  | .looking => st.leaderAnswered hostId reply
  | .claiming => st.claimAnswered reply
  | .shuttingDown => st.destroy

/-- A routine does not await its command any more. -/
def takeRoutine (routine : Suspended) (command : CommandState) (st : MultiMainSetup) :
    MultiMainSetup :=
  { st with awaiting := st.awaiting.erase (routine, command) }

/-- The reply to the command of a routine. -/
def answer (routine : Suspended) (reply : Reply) (st : MultiMainSetup) : MultiMainSetup :=
  { st with awaiting := st.awaiting.erase (routine, .sent) ++ [(routine, .replied reply)] }

end MultiMainSetup

open MultiMainSetup in
/-- The mains, by their host ids, and Redis. -/
structure LeaderElection where
  /-- The value of the leader key. -/
  leaderKey : Option String
  mains : String → MultiMainSetup := fun _ => {}
  /-- Commands that no routine awaits any more. -/
  abandoned : List (String × Command) := []
  /-- History: who has deleted the leader key, and its value then. -/
  deleted : List (String × String) := []
  /-- History: who has extended the life of the leader key, and its value then. -/
  refreshed : List (String × String) := []

namespace LeaderElection

open MultiMainSetup

/-! ### Redis -/

/-- `SET key hostId EX ttl NX`. -/
def setLeaderIfNotExists (hostId : String) (st : LeaderElection) : LeaderElection × Reply :=
  match st.leaderKey with
  | none => ({ st with leaderKey := some hostId }, .claimed true)
  | some _ => (st, .claimed false)

/-- The script `INCREASE_TTL_IF_LEADER`. -/
def tryRenewLeaderTtl (hostId : String) (st : LeaderElection) : LeaderElection × Reply :=
  match st.leaderKey with
  | none => (st, .renewal .keyMissing)
  | some currentValue =>
    if currentValue ≠ hostId then (st, .renewal (.otherHostIsLeader currentValue))
    else
      ({ st with refreshed := st.refreshed ++ [(hostId, currentValue)] }, .renewal .success)

/-- `DEL key`. -/
def clearLeader (hostId : String) (st : LeaderElection) : LeaderElection × Reply :=
  ({ st with
      leaderKey := none
      deleted := st.deleted ++ st.leaderKey.toList.map fun value => (hostId, value) }, .cleared)

/-- Redis executes a command. -/
def execute (hostId : String) (command : Command) (st : LeaderElection) :
    LeaderElection × Reply :=
  match command with
  | .getLeader => (st, .leader st.leaderKey)
  | .setLeaderIfNotExists => st.setLeaderIfNotExists hostId
  | .tryRenewLeaderTtl => st.tryRenewLeaderTtl hostId
  | .clearLeader => st.clearLeader hostId

/-! ### One step -/

/-- Something happens to one main. -/
def update (hostId : String) (f : MultiMainSetup → MultiMainSetup) (st : LeaderElection) :
    LeaderElection :=
  { st with mains := fun k => if k = hostId then f (st.mains k) else st.mains k }

/-- Nobody awaits a command any more that was sent. -/
def abandon (hostId : String) (routine : Suspended) (command : CommandState)
    (st : LeaderElection) : LeaderElection :=
  { st with abandoned :=
      if command = .sent then st.abandoned ++ [(hostId, routine.command)] else st.abandoned }

inductive Event where
  | init (hostId : String)
  /-- The interval of a main elapses. -/
  | interval (hostId : String)
  | shutdown (hostId : String)
  /-- Redis executes the command of a routine. -/
  | execute (hostId : String) (routine : Suspended)
  /-- Redis executes an abandoned command. -/
  | executeAbandoned (hostId : String) (command : Command)
  /-- A routine goes on with the reply. -/
  | resume (hostId : String) (routine : Suspended) (reply : Reply)
  /-- A routine goes on with an error. -/
  | fail (hostId : String) (routine : Suspended) (command : CommandState)
  /-- The leader key expires. -/
  | expire
  deriving DecidableEq, Repr

def step? (st : LeaderElection) : Event → Option LeaderElection
  | .init hostId => some (st.update hostId MultiMainSetup.init)
  | .interval hostId =>
    if (st.mains hostId).leaderCheckInterval then some (st.update hostId checkLeader) else none
  | .shutdown hostId => some (st.update hostId MultiMainSetup.shutdown)
  | .execute hostId routine =>
    if (routine, .sent) ∈ (st.mains hostId).awaiting then
      let r := st.execute hostId routine.command
      some (r.1.update hostId (answer routine r.2))
    else none
  | .executeAbandoned hostId command =>
    if (hostId, command) ∈ st.abandoned then
      some (({ st with abandoned := st.abandoned.erase (hostId, command) }
        : LeaderElection).execute hostId command).1
    else none
  | .resume hostId routine reply =>
    if (routine, .replied reply) ∈ (st.mains hostId).awaiting then
      some (st.update hostId fun main =>
        (main.takeRoutine routine (.replied reply)).resume hostId routine (some reply))
    else none
  | .fail hostId routine command =>
    if (routine, command) ∈ (st.mains hostId).awaiting then
      some ((st.abandon hostId routine command).update hostId fun main =>
        (main.takeRoutine routine command).resume hostId routine none)
    else none
  | .expire => some { st with leaderKey := none }

def Step (st : LeaderElection) (e : Event) (st' : LeaderElection) : Prop := st.step? e = some st'

end LeaderElection

end N8n
