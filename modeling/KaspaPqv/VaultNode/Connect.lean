import KaspaPqv.LmsWallet.Funds

/-!
# Connecting to a node

Any node may answer. One that is not synced or keeps no index of coins would report empty
addresses, and one of another network knows nothing of the vault; so each is asked for these
before anything else.

## What is proved

* `connectPnn_eq_ok` — who is connected to is synced, has an index, and is of the network.
-/

namespace KaspaPqv.VaultNode

open KaspaPqv.Lib
open LmsWallet (Client)

inductive NetworkType where
  | mainnet
  | testnet
  | devnet
  | simnet
  deriving DecidableEq

/-- A network. -/
structure NetworkId where
  networkType : NetworkType
  suffix : Option UInt32
  deriving DecidableEq

/-- What a node says of itself. -/
structure ServerInfo where
  isSynced : Bool
  hasUtxoIndex : Bool
  networkId : NetworkId

/-- A map from written addresses to balances. -/
abbrev BalanceCache := String → Option UInt64

variable {Address : Type}

/-- A node that answers for a network. -/
structure Rpc (Address : Type) where
  connect : Except String Unit
  getServerInfo : Except String ServerInfo
  /-- What it answers to the other calls. -/
  calls : Client Address

/-- A connection. -/
structure NodeClient (Address : Type) where
  rpc : Client Address
  network : NetworkId
  cache : BalanceCache

section

variable (newRpc : NetworkId → Except String (Rpc Address)) (text : NetworkId → String)

/-- Refuse a node that cannot serve the vault. -/
def assertNodeIsUsable (rpc : Rpc Address) (network : NetworkId) : Except String Unit := do
  let info ← rpc.getServerInfo.mapError fun e => s!"get_server_info failed: {e}"
  ensure (info.isSynced = true)
    ("node is not synced; a vault scan against an unsynced node would report " ++
      "empty addresses and could be mistaken for a spent vault")
  ensure (info.hasUtxoIndex = true)
    ("node has no UTXO index (start it with --utxoindex); address balance " ++
      "lookups are unavailable without it")
  ensure (info.networkId = network) s!"node is on {text info.networkId} but this vault is for {text network}"

def finishConnect (rpc : Rpc Address) (network : NetworkId) : Except String (NodeClient Address) := do
  rpc.connect.mapError fun e => s!"connect failed: {e}"
  assertNodeIsUsable text rpc network
  pure ⟨rpc.calls, network, fun _ => none⟩

/-- Connect to a public node of a network. -/
def connectPnn (network : NetworkId) : Except String (NodeClient Address) := do
  let rpc ← (newRpc network).mapError fun e => s!"building wRPC client: {e}"
  finishConnect text rpc network

namespace NodeClient

def mainnet : Except String (NodeClient Address) := connectPnn newRpc text ⟨.mainnet, none⟩

def testnet10 : Except String (NodeClient Address) := connectPnn newRpc text ⟨.testnet, some 10⟩

end NodeClient

end

/-- **Whoever is connected to** is synced, has an index, and is of the right network. -/
theorem connectPnn_eq_ok {newRpc : NetworkId → Except String (Rpc Address)} {text : NetworkId → String}
    {network : NetworkId} {node : NodeClient Address} : connectPnn newRpc text network = .ok node ↔
    ∃ rpc, newRpc network = .ok rpc ∧ rpc.connect = .ok () ∧ rpc.getServerInfo = .ok ⟨true, true, network⟩ ∧
      node = ⟨rpc.calls, network, fun _ => none⟩ := by
  simp only [connectPnn, finishConnect, assertNodeIsUsable, bind_eq_ok, mapError_eq_ok, ensure_eq_ok]
  constructor
  · rintro ⟨rpc, hrpc, ⟨⟩, hconnect, ⟨⟩, ⟨⟨synced, index, networkId⟩, hinfo, ⟨⟩, hsynced, ⟨⟩, hindex, hnetwork⟩, hnode⟩
    obtain rfl : synced = true := hsynced
    obtain rfl : index = true := hindex
    obtain rfl : networkId = network := hnetwork
    exact ⟨rpc, hrpc, hconnect, hinfo, (Except.ok.inj hnode).symm⟩
  · rintro ⟨rpc, hrpc, hconnect, hinfo, rfl⟩
    exact ⟨rpc, hrpc, (), hconnect, (), ⟨_, hinfo, (), rfl, (), rfl, rfl⟩, rfl⟩

end KaspaPqv.VaultNode
