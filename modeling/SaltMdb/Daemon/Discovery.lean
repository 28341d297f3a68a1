import Mathlib.Data.List.Basic
import Mathlib.Logic.Function.Basic

/-! Which ports and which discovery file belong to a database: `daemon/discovery.py`. -/

namespace SaltMdb

def daemonPortPairBase : Nat := 49500

def daemonPortPairCount : Nat := 8000

/-- The first sixteen hexadecimal digits of a digest. -/
abbrev DaemonKey := List (Fin 16)

/-- `daemon_key`, over the digest of a canonical path. -/
def daemonKey (hexdigest : String → List (Fin 16)) (canonicalDbPath : String) : DaemonKey := (hexdigest canonicalDbPath).take 16

/-- `_slot`: `int(key[:4], 16) % DAEMON_PORT_PAIR_COUNT`. -/
def portSlot (key : DaemonKey) : Nat := (key.take 4).foldl (fun high digit => high * 16 + digit.val) 0 % daemonPortPairCount

def electionPort (key : DaemonKey) : Nat := daemonPortPairBase + 2 * portSlot key

def probePort (key : DaemonKey) : Nat := electionPort key + 1

theorem portSlot_lt (key : DaemonKey) : portSlot key < daemonPortPairCount := Nat.mod_lt _ (by decide)

theorem electionPort_eq_iff {one other : DaemonKey} : electionPort one = electionPort other ↔ portSlot one = portSlot other := by
  unfold electionPort
  omega

theorem probePort_eq_iff {one other : DaemonKey} : probePort one = probePort other ↔ portSlot one = portSlot other := by
  unfold probePort
  rw [← electionPort_eq_iff]
  omega

theorem probePort_le (key : DaemonKey) : probePort key ≤ 65499 := by
  have below := portSlot_lt key
  unfold probePort electionPort
  unfold daemonPortPairCount at below
  unfold daemonPortPairBase
  omega

/-- What the discovery file of a key says. -/
structure DiscoveryRecord where
  dbPath : String
  daemonPid : Nat
  servicePort : Nat
  authToken : String
deriving DecidableEq

/-- `"\x21" <= char <= "\x7e"`. -/
def printable (char : Char) : Bool := 0x21 ≤ char.val ∧ char.val ≤ 0x7e

/-- `_valid`, of a record with every field of its type. -/
def DiscoveryRecord.valid (record : DiscoveryRecord) : Bool :=
  (1 ≤ record.servicePort ∧ record.servicePort ≤ 65535) ∧
    (1 ≤ record.authToken.length ∧ record.authToken.length ≤ 256) ∧ record.authToken.toList.all printable ∧ 0 < record.daemonPid

end SaltMdb
