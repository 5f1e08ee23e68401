import CanisterShell.Interface

/-!
# The management canister

The interface of the management canister, which every session knows from the start.
-/

namespace CanisterShell.Management

open Candid

/-- Fields or cases by name. -/
def labelled (parts : List (String × Ty)) : List (Label × Ty) :=
  Ty.sortFields (parts.map fun (name, t) => (.named name, t))

def recordOf (fields : List (String × Ty)) : Ty := .record (labelled fields)

/-- The variant type of named cases without values. -/
def casesOf (names : List String) : Ty := .variant (labelled (names.map (·, .null)))

/-- The type names of the interface. -/
def scope : Scope := [
  ("canister_id", .principal),
  ("wasm_module", .blob),
  ("canister_settings", recordOf [
    ("controllers", .opt (.vec .principal)),
    ("compute_allocation", .opt .nat),
    ("memory_allocation", .opt .nat),
    ("freezing_threshold", .opt .nat)]),
  ("definite_canister_settings", recordOf [
    ("controllers", .vec .principal),
    ("compute_allocation", .nat),
    ("memory_allocation", .nat),
    ("freezing_threshold", .nat)]),
  ("http_header", recordOf [("name", .text), ("value", .text)]),
  ("http_response", recordOf [
    ("status", .nat),
    ("headers", .vec (.var "http_header")),
    ("body", .blob)]),
  ("ecdsa_curve", casesOf ["secp256k1"])]

def canisterRecord : Ty := recordOf [("canister_id", .var "canister_id")]

def keyRecord : Ty := recordOf [("curve", .var "ecdsa_curve"), ("name", .text)]

def methods : Table String Signature := [
  ("canister_status", ⟨[canisterRecord], [recordOf [
    ("status", casesOf ["running", "stopping", "stopped"]),
    ("settings", .var "definite_canister_settings"),
    ("module_hash", .opt .blob),
    ("memory_size", .nat),
    ("cycles", .nat),
    ("idle_cycles_burned_per_day", .nat)]], []⟩),
  ("create_canister", ⟨[recordOf [("settings", .opt (.var "canister_settings"))]],
    [canisterRecord], []⟩),
  ("delete_canister", ⟨[canisterRecord], [], []⟩),
  ("deposit_cycles", ⟨[canisterRecord], [], []⟩),
  ("ecdsa_public_key", ⟨[recordOf [
    ("canister_id", .opt (.var "canister_id")),
    ("derivation_path", .vec .blob),
    ("key_id", keyRecord)]],
    [recordOf [("public_key", .blob), ("chain_code", .blob)]], []⟩),
  ("http_request", ⟨[recordOf [
    ("url", .text),
    ("max_response_bytes", .opt .nat64),
    ("method", casesOf ["get", "head", "post"]),
    ("headers", .vec (.var "http_header")),
    ("body", .opt .blob)]], [.var "http_response"], []⟩),
  ("install_code", ⟨[recordOf [
    ("mode", casesOf ["install", "reinstall", "upgrade"]),
    ("canister_id", .var "canister_id"),
    ("wasm_module", .var "wasm_module"),
    ("arg", .blob)]], [], []⟩),
  ("provisional_create_canister_with_cycles", ⟨[recordOf [
    ("amount", .opt .nat),
    ("settings", .opt (.var "canister_settings"))]], [canisterRecord], []⟩),
  ("provisional_top_up_canister", ⟨[recordOf [
    ("canister_id", .var "canister_id"), ("amount", .nat)]], [], []⟩),
  ("raw_rand", ⟨[], [.blob], []⟩),
  ("sign_with_ecdsa", ⟨[recordOf [
    ("message_hash", .blob),
    ("derivation_path", .vec .blob),
    ("key_id", keyRecord)]], [recordOf [("signature", .blob)]], []⟩),
  ("start_canister", ⟨[canisterRecord], [], []⟩),
  ("stop_canister", ⟨[canisterRecord], [], []⟩),
  ("uninstall_code", ⟨[canisterRecord], [], []⟩),
  ("update_settings", ⟨[recordOf [
    ("canister_id", .principal),
    ("settings", .var "canister_settings")]], [], []⟩)]

def interface : Interface := { scope := scope, methods := methods }

def canistersOnly : List String := ["create_canister", "raw_rand"]

/-- Methods whose calls are routed to the management canister itself. -/
def routedToItself : List String := ["provisional_create_canister_with_cycles"]

end CanisterShell.Management
