import CanisterShell.Table

/-!
# Replicas

A replica is named by a short name or by its address.
-/

namespace CanisterShell

def namedReplicas : Table String String :=
  [("local", "http://127.0.0.1:4943"), ("ic", "https://icp-api.io")]

/-- An address without slashes at its end. -/
def trimSlashes (url : String) : String :=
  String.ofList (url.toList.reverse.dropWhile (· = '/')).reverse

/-- The address of a replica; the local one is meant when none is named. -/
def replicaUrl (name? : Option String) : String :=
  let name := match name? with
    | none | some "" => "local"
    | some name => name
  trimSlashes ((namedReplicas.find? name).getD name)

end CanisterShell
