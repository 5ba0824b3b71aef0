import LedgerZcash.Basic
import LedgerZcash.Lib.Collect
import LedgerZcash.Lib.Hex

/-!
# Networks and activation schedules

The scanner knows the two named networks only (`parseNetwork`); the builder also takes
a local schedule (`resolveAnyNetwork`), whose heights a caller may override one by one
under the ordering rules of `toLocalNetwork`.  The activation heights of the named
networks belong to the upstream protocol crate and are a parameter here.
-/

namespace LedgerZcash

/-- `zcash_protocol::consensus::Network`. -/
inductive Network where
  | mainNetwork
  | testNetwork
deriving DecidableEq, Repr

/-- `zcash_protocol::consensus::NetworkType`. -/
inductive NetworkType where
  | main
  | test
  | regtest
deriving DecidableEq, Repr

/-- `zcash_protocol::consensus::NetworkUpgrade`, in order of activation. -/
inductive NetworkUpgrade where
  | overwinter | sapling | blossom | heartwood | canopy
  | nu5 | nu6 | nu6_1 | nu6_2 | nu6_3 | nu7
deriving DecidableEq, Repr

/-- A height, or none, for each upgrade: `LocalNetwork`, and also the caller's
`RegtestActivationHeights`. -/
abbrev Schedule := NetworkUpgrade → Option Nat

def Network.networkType : Network → NetworkType
  | .mainNetwork => .main
  | .testNetwork => .test

/-- Parse a network name for the scanning path; `none` is testnet. -/
def parseNetwork (s : Option String) : Except Error Network :=
  let name := s.getD "testnet"
  if name = "testnet" then .ok .testNetwork
  else if name = "mainnet" then .ok .mainNetwork
  else .error (.derivation
    ("unknown network " ++ Hex.debugText name ++ ", expected \"mainnet\" or \"testnet\""))

/-- The network a transaction is built for. -/
inductive AnyZcashNetwork where
  | named (network : Network)
  | local (schedule : Schedule)

namespace AnyZcashNetwork

def networkType : AnyZcashNetwork → NetworkType
  | .named n => n.networkType
  | .local _ => .regtest

/-- The activation height of an upgrade, given those of the named networks. -/
def activationHeight (named : Network → Schedule) : AnyZcashNetwork → Schedule
  | .named n => named n
  | .local schedule => schedule

/-- `Parameters::is_nu_active`. -/
def isNuActive (named : Network → Schedule) (network : AnyZcashNetwork) (nu : NetworkUpgrade)
    (height : Nat) : Bool :=
  match network.activationHeight named nu with
  | some h => decide (h ≤ height)
  | none => false

end AnyZcashNetwork

/-- The canonical regtest activation heights. -/
def zcashRegtest : Schedule
  | .overwinter | .sapling | .blossom | .heartwood | .canopy => some 1
  | .nu5 | .nu6 | .nu6_1 | .nu6_2 | .nu6_3 => some 2
  | .nu7 => none

/-- The upgrades with the names used in the schedule errors, in order. -/
def upgradeNames : List (String × NetworkUpgrade) :=
  [("overwinter", .overwinter), ("sapling", .sapling), ("blossom", .blossom),
    ("heartwood", .heartwood), ("canopy", .canopy), ("nu5", .nu5), ("nu6", .nu6),
    ("nu6_1", .nu6_1), ("nu6_2", .nu6_2), ("nu6_3", .nu6_3), ("nu7", .nu7)]

/-- One override on top of the canonical height. -/
def pick (name : String) (override base : Option Nat) : Except Error (Option Nat) :=
  match override with
  | some 0 => .error (.derivation
      ("regtest activation height for " ++ name ++ " must be at least 1"))
  | some h => .ok (some h)
  | none => .ok base

/-- The check on two neighbouring upgrades of a schedule. -/
def checkPair (prevName : String) (prev : Option Nat) (name : String) (cur : Option Nat) :
    Except Error Unit :=
  match prev, cur with
  | none, some _ => .error (.derivation
      ("regtest activation schedule: " ++ name ++ " is scheduled but " ++ prevName ++ " is not"))
  | some p, some c =>
      if c < p then .error (.derivation
        ("regtest activation schedule: " ++ name ++ " (" ++ c.repr ++ ") activates before " ++
          prevName ++ " (" ++ p.repr ++ ")"))
      else .ok ()
  | _, _ => .ok ()

/-- Applies the overrides on top of `zcashRegtest`; the result must be ordered. -/
def toLocalNetwork (override : Schedule) : Except Error Schedule := do
  upgradeNames.forM fun (name, nu) ↦ do
    let _ ← pick name (override nu) (zcashRegtest nu)
  let local' : Schedule := fun nu ↦ (override nu).or (zcashRegtest nu)
  (upgradeNames.zip upgradeNames.tail).forM fun ((prevName, prev), (name, cur)) ↦
    checkPair prevName (local' prev) name (local' cur)
  pure local'

/-- Parse a network name for the building path; overrides belong to regtest only. -/
def resolveAnyNetwork (s : Option String) (regtestHeights : Option Schedule) :
    Except Error AnyZcashNetwork :=
  let name := s.getD "testnet"
  let named (n : Network) : Except Error AnyZcashNetwork :=
    if regtestHeights.isSome then .error (.derivation
      ("regtest activation heights were supplied for network " ++ Hex.debugText name ++
        "; they only apply to \"regtest\""))
    else .ok (.named n)
  if name = "testnet" then named .testNetwork
  else if name = "mainnet" then named .mainNetwork
  else if name = "regtest" then
    match regtestHeights with
    | some heights => do
        let schedule ← toLocalNetwork heights
        pure (.local schedule)
    | none => .ok (.local zcashRegtest)
  else .error (.derivation ("unknown network " ++ Hex.debugText name ++
    ", expected \"mainnet\", \"testnet\", or \"regtest\""))

end LedgerZcash
