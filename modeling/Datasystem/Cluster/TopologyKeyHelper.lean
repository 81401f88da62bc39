import Datasystem.Common.Hasher
import Datasystem.Common.HostPort

/-! Which cluster names, addresses and task ids may become keys of the topology tables. -/

namespace Datasystem.Cluster.TopologyKeyHelper

open Common Hasher

def maxClusterNameSize : Nat := 128

def rootPrefix : Bytes := ascii "/datasystem"

/-- The names of the tables of the cluster without a name. -/
def reservedClusterNames : List Bytes :=
  [ascii "topology", ascii "tasks", ascii "notify", ascii "probe", ascii "cluster",
    ascii "ub_health", ascii "scale-in-metadata-done", ascii "control"]

def isAlphaNumeric (value : Byte) : Bool :=
  (48 ≤ value.val && value.val ≤ 57) || (65 ≤ value.val && value.val ≤ 90) ||
    (97 ≤ value.val && value.val ≤ 122)

def isValidClusterName (name : Bytes) : Bool :=
  name.length ≤ maxClusterNameSize && name.head?.any isAlphaNumeric &&
    !reservedClusterNames.contains name &&
    name.all fun value => isAlphaNumeric value || (ascii "._-").contains value

/-- `Create`: the root under which the tables of a cluster are. -/
def create (clusterName : Bytes) : Result Bytes :=
  if clusterName = [] then pure rootPrefix
  else do
    checkFailReturnStatus (isValidClusterName clusterName) .kInvalid
      "invalid cluster name for topology keyspace"
    pure (rootPrefix ++ ascii "/" ++ clusterName)

def topologyTable (root : Bytes) : Bytes := root ++ ascii "/topology"

/-- The only key of the topology table. -/
def topologyKey : Bytes := []

def taskDigestSize : Nat := 32

def taskKindPrefixSize : Nat := 3

def minTaskIdSize : Nat := taskKindPrefixSize + 1 + 1 + taskDigestSize

def isDigit (value : Byte) : Bool := 48 ≤ value.val && value.val ≤ 57

def dash : Byte := 45

/-- A task id is `m-e` or `d-e`, an epoch without leading zeros, a dash and a digest. -/
def isValidTaskId (taskId : Bytes) : Bool :=
  if taskId.length < minTaskIdSize then false
  else if taskId.take taskKindPrefixSize ≠ ascii "m-e" ∧
      taskId.take taskKindPrefixSize ≠ ascii "d-e" then false
  else
    let epoch := (taskId.drop taskKindPrefixSize).takeWhile (· ≠ dash)
    match (taskId.drop taskKindPrefixSize).dropWhile (· ≠ dash) with
    | [] => false
    | _ :: digest =>
      (epoch.head?.any fun c => 49 ≤ c.val && c.val ≤ 57) && digest.length == taskDigestSize &&
        epoch.all isDigit && digest.all isLowerHex

def taskKey (taskId : Bytes) : Result Bytes := do
  checkFailReturnStatus (isValidTaskId taskId) .kInvalid "invalid deterministic topology task ID"
  pure taskId

/-- Unlike the topology validator, this check has no length limit. -/
def validateAddress (address : Bytes) : Result Unit := do
  checkFailReturnStatus (address ≠ []) .kInvalid "empty topology member address"
  checkFailReturnStatus (isCanonicalEndpoint address) .kInvalid
    "invalid canonical topology member address"

def notifyKey (address : Bytes) : Result Bytes := do
  validateAddress address
  pure address

def membershipKey (address : Bytes) : Result Bytes := do
  validateAddress address
  pure address

end Datasystem.Cluster.TopologyKeyHelper
