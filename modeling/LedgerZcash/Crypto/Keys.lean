import LedgerZcash.Crypto.Decrypt
import LedgerZcash.Crypto.Fee
import LedgerZcash.Lib.Collect

/-!
# Viewing keys from a mnemonic

A mnemonic yields the viewing keys of an account, among them the text of its unified full
viewing key.  The text may be made without the Sapling key: it is decoded again, and rebuilt
from the other items.  Such a text is read as the same key without its Sapling part
(`Lawful.exists_bare`), everything else that is derived stays as it was
(`deriveKeysWithOptions_bare`), and so does the address to receive at
(`orchardAddress_congr`).
-/

namespace LedgerZcash

open Hex Collect

/-! ## Keys -/

/-- The errors of the key functions. -/
inductive KeyError where
  /-- With the upstream error's text, as `bip32`. -/
  | mnemonic (msg : String)
  | derivation (msg : String)
  | bip32 (msg : String)
  | invalidUfvk (reason : String)
  | noOrchardReceiver
  | unsupportedNetwork (network : String)
deriving DecidableEq

def KeyError.toString : KeyError → String
  | .mnemonic msg => "invalid mnemonic: " ++ msg
  | .derivation msg => "key derivation failed: " ++ msg
  | .bip32 msg => "BIP-32 error: " ++ msg
  | .invalidUfvk reason => "invalid UFVK: " ++ reason
  | .noOrchardReceiver => "UFVK contains no Orchard component"
  | .unsupportedNetwork network => "unsupported network in UFVK: " ++ network

/-- The hex viewing keys of one pool, in external scope. -/
structure PoolViewingKeys where
  fvk : String
  ivk : String
  ovk : String
deriving DecidableEq, Repr

/-- The keys of an account. -/
structure DerivedKeys where
  ufvk : String
  multiReceiverUnifiedAddress : String
  xpub : String
  xpubPath : String
  sapling : Option PoolViewingKeys
  orchard : Option PoolViewingKeys
deriving DecidableEq, Repr

structure DeriveOptions where
  includeSaplingInUfvk : Bool

/-- `Default`. -/
def DeriveOptions.default : DeriveOptions := ⟨true⟩

/-- The kinds of items in a unified full viewing key. -/
inductive FvkKind where
  | sapling
  | orchard
  | p2pkh
  | unknown
deriving DecidableEq

/-- What the key functions call upstream. -/
structure KeyUpstream (U : NoteCrypto) where
  Mnemonic : Type
  SaplingDfvk : Type
  AccountPubKey : Type
  OrchardAddress : Type
  UnifiedAddress : Type
  Xpriv : Type
  Revision : Type
  Item : Type
  /-- The container of `Ufvk`. -/
  Container : Type
  /-- `Mnemonic::parse`. -/
  parseMnemonic : String → Except String Mnemonic
  /-- With an empty passphrase. -/
  toSeed : Mnemonic → List UInt8
  /-- `UnifiedSpendingKey::from_seed`, then its viewing key. -/
  ufvkFromSeed : Network → List UInt8 → Nat → Except String U.Ufvk
  encodeUfvk : Network → U.Ufvk → Except String String
  /-- `Ufvk::decode`. -/
  decode : String → Except String (NetworkType × Revision × Container)
  /-- `items_as_parsed`. -/
  items : Container → List Item
  kind : Item → FvkKind
  tryFromItems : Revision → List Item → Except String Container
  /-- `Ufvk::encode`. -/
  encodeContainer : NetworkType → Container → String
  /-- `UnifiedFullViewingKey::parse`. -/
  parse : Container → Except String U.Ufvk
  sapling : U.Ufvk → Option SaplingDfvk
  /-- `ufvk.transparent()`. -/
  p2pkh : U.Ufvk → Option AccountPubKey
  saplingBytes : SaplingDfvk → Arr 128
  saplingIvkBytes : SaplingDfvk → Scope → Bytes32
  saplingOvkBytes : SaplingDfvk → Scope → Bytes32
  orchardBytes : U.OrchardFvk → Arr 96
  orchardIvkBytes : U.OrchardFvk → Scope → Arr 64
  orchardOvkBytes : U.OrchardFvk → Scope → Bytes32
  /-- `default_address` with all available receivers. -/
  defaultAddress : U.Ufvk → Except String UnifiedAddress
  addressAt : U.OrchardFvk → Nat → Scope → OrchardAddress
  /-- `from_receivers` with an Orchard receiver alone. -/
  orchardOnly : OrchardAddress → UnifiedAddress
  encodeAddress : Network → UnifiedAddress → String
  /-- Parsing a `DerivationPath`. -/
  parsePath : String → Except String (List Nat)
  newMaster : Network → List UInt8 → Except String Xpriv
  derivePriv : Xpriv → List Nat → Except String Xpriv
  /-- The text of `Xpub::from_priv`. -/
  xpub : Xpriv → String

section Keys

variable {U : NoteCrypto} (X : KeyUpstream U)

/-- The Orchard-only address that the device derives from a viewing key. -/
def orchardAddressFromUfvk (ufvkStr : String) : Except KeyError String := do
  let (networkType, _, container) ← (X.decode ufvkStr).mapError fun _ ↦
    KeyError.invalidUfvk "bech32m decoding failed"
  let ufvk ← (X.parse container).mapError fun _ ↦ KeyError.invalidUfvk "FVK parsing failed"
  match U.orchard ufvk with
  | none => throw .noOrchardReceiver
  | some orchardFvk =>
      let ua := X.orchardOnly (X.addressAt orchardFvk 0 .external)
      match networkType with
      | .main => pure (X.encodeAddress .mainNetwork ua)
      | .test => pure (X.encodeAddress .testNetwork ua)
      | .regtest => throw (.unsupportedNetwork "regtest")

def extractSapling (dfvk : X.SaplingDfvk) : PoolViewingKeys where
  fvk := Hex.encode (X.saplingBytes dfvk).1
  ivk := Hex.encode (X.saplingIvkBytes dfvk .external).1
  ovk := Hex.encode (X.saplingOvkBytes dfvk .external).1

def extractOrchard (fvk : U.OrchardFvk) : PoolViewingKeys where
  fvk := Hex.encode (X.orchardBytes fvk).1
  ivk := Hex.encode (X.orchardIvkBytes fvk .external).1
  ovk := Hex.encode (X.orchardOvkBytes fvk .external).1

/-- The text of a viewing key, rebuilt without its Sapling item at the same revision. -/
def rebuildWithoutSapling (encodedUfvk : String) : Except KeyError String := do
  let (ufvkNet, ufvkRevision, ufvkContainer) ← (X.decode encodedUfvk).mapError fun e ↦
    KeyError.derivation ("failed to parse generated UFVK: " ++ e)
  let filteredItems := (X.items ufvkContainer).filter fun item ↦ X.kind item ≠ .sapling
  let ufvk ← (X.tryFromItems ufvkRevision filteredItems).mapError fun e ↦
    KeyError.derivation ("failed to rebuild UFVK without sapling: " ++ e)
  pure (X.encodeContainer ufvkNet ufvk)

/-- Derive all viewing keys of an account. -/
def deriveKeysWithOptions (phrase : String) (account : Nat) (network : Network)
    (xpubPath : Option String) (options : DeriveOptions) : Except KeyError DerivedKeys := do
  let mnemonic ← (X.parseMnemonic phrase).mapError .mnemonic
  let seed := X.toSeed mnemonic
  refuseIf (hardenedOffset ≤ account)
    (KeyError.derivation ("account index " ++ account.repr ++ " exceeds ZIP-32 range"))
  let ufvkObj ← (X.ufvkFromSeed network seed account).mapError .derivation
  let encodedUfvk ← (X.encodeUfvk network ufvkObj).mapError fun e ↦
    KeyError.derivation ("failed to encode generated UFVK: " ++ e)
  let ufvk ← if options.includeSaplingInUfvk then pure encodedUfvk
    else rebuildWithoutSapling X encodedUfvk
  let unifiedAddr ← (X.defaultAddress ufvkObj).mapError fun e ↦
    KeyError.derivation ("failed to derive default unified address: " ++ e)
  let resolvedPath := xpubPath.getD ("m/44'/133'/" ++ account.repr ++ "'")
  let path ← (X.parsePath resolvedPath).mapError fun e ↦
    KeyError.derivation ("invalid path '" ++ resolvedPath ++ "': " ++ e)
  let root ← (X.newMaster network seed).mapError .bip32
  let accountXprv ← (X.derivePriv root path).mapError .bip32
  pure
    { ufvk
      multiReceiverUnifiedAddress := X.encodeAddress network unifiedAddr
      xpub := X.xpub accountXprv
      xpubPath := resolvedPath
      sapling := (X.sapling ufvkObj).map (extractSapling X)
      orchard := (U.orchard ufvkObj).map (extractOrchard X) }

def deriveKeys (phrase : String) (account : Nat) (network : Network) (xpubPath : Option String) :
    Except KeyError DerivedKeys :=
  deriveKeysWithOptions X phrase account network xpubPath .default

/-- The keys that a test gets for the device's. -/
def deriveUfvkAndXpub (phrase : String) (account : Nat) (network : Network) :
    Except KeyError (String × String) := do
  let keys ← deriveKeys X phrase account network none
  pure (keys.ufvk, keys.xpub)

/-! ## The key without Sapling -/

/-- The text decodes to a key of the network type. -/
def ReadsAs (s : String) (networkType : NetworkType) (ufvk : U.Ufvk) : Prop :=
  ∃ rev container, X.decode s = .ok (networkType, rev, container) ∧ X.parse container = .ok ufvk

/-- The same key without its Sapling part. -/
structure SaplingFree (ufvk bare : U.Ufvk) : Prop where
  orchard : U.orchard bare = U.orchard ufvk
  p2pkh : X.p2pkh bare = X.p2pkh ufvk
  sapling : U.saplingIvk bare = none

/-- The rules of unified containers: a container may be made of some items of another if a
shielded one is among them, texts are decoded to what they encode, and a parsed key has
its parts from the items of their kinds. -/
structure KeyUpstream.Lawful : Prop where
  decodeUfvk {s : String} {ufvk : U.Ufvk} :
    U.decodeUfvk s = .ok ufvk ↔ ∃ networkType, ReadsAs X s networkType ufvk
  readsAs_encodeUfvk {network : Network} {ufvk : U.Ufvk} {s : String} :
    X.encodeUfvk network ufvk = .ok s → ReadsAs X s network.networkType ufvk
  orchard_ufvkFromSeed {network : Network} {seed : List UInt8} {account : Nat} {ufvk : U.Ufvk} :
    X.ufvkFromSeed network seed account = .ok ufvk → (U.orchard ufvk).isSome
  tryFromItems {s : String} {networkType : NetworkType} {rev : X.Revision}
    {container : X.Container} {items : List X.Item} :
    X.decode s = .ok (networkType, rev, container) → items.Sublist (X.items container) →
      (∃ item ∈ items, X.kind item = .orchard) → ∃ container', X.tryFromItems rev items =
        .ok container'
  mem_items {rev : X.Revision} {items : List X.Item} {container : X.Container} :
    X.tryFromItems rev items = .ok container → ∀ item, item ∈ X.items container ↔ item ∈ items
  decode_encodeContainer {rev : X.Revision} {items : List X.Item} {container : X.Container} :
    X.tryFromItems rev items = .ok container → ∀ networkType,
      X.decode (X.encodeContainer networkType container) = .ok (networkType, rev, container)
  /-- Each item is parsed by itself. -/
  parse_of_subset {container container' : X.Container} {ufvk : U.Ufvk} :
    X.parse container = .ok ufvk → (∀ item ∈ X.items container', item ∈ X.items container) →
      ∃ ufvk', X.parse container' = .ok ufvk'
  orchard_isSome {container : X.Container} {ufvk : U.Ufvk} : X.parse container = .ok ufvk →
    ((U.orchard ufvk).isSome ↔ ∃ item ∈ X.items container, X.kind item = .orchard)
  sapling_isSome {container : X.Container} {ufvk : U.Ufvk} : X.parse container = .ok ufvk →
    ((U.saplingIvk ufvk).isSome ↔ ∃ item ∈ X.items container, X.kind item = .sapling)
  orchard_congr {container container' : X.Container} {ufvk ufvk' : U.Ufvk} :
    X.parse container = .ok ufvk → X.parse container' = .ok ufvk' →
      (∀ item, X.kind item = .orchard → (item ∈ X.items container ↔ item ∈ X.items container')) →
        U.orchard ufvk = U.orchard ufvk'
  p2pkh_congr {container container' : X.Container} {ufvk ufvk' : U.Ufvk} :
    X.parse container = .ok ufvk → X.parse container' = .ok ufvk' →
      (∀ item, X.kind item = .p2pkh → (item ∈ X.items container ↔ item ∈ X.items container')) →
        X.p2pkh ufvk = X.p2pkh ufvk'

variable {X} (L : X.Lawful)
include L

/-- A text of a key with an Orchard part can be rebuilt, and reads as the key without Sapling. -/
theorem KeyUpstream.Lawful.exists_bare {s : String} {networkType : NetworkType} {ufvk : U.Ufvk}
    (h : ReadsAs X s networkType ufvk) (horchard : (U.orchard ufvk).isSome) :
    ∃ s' bare, rebuildWithoutSapling X s = .ok s' ∧ ReadsAs X s' networkType bare ∧
      SaplingFree X ufvk bare := by
  obtain ⟨rev, container, hdecode, hparse⟩ := h
  have hkept : ∀ kind, kind ≠ .sapling → ∀ item, X.kind item = kind →
      (item ∈ (X.items container).filter (X.kind · ≠ .sapling) ↔ item ∈ X.items container) := by
    rintro kind hne item rfl
    rw [List.mem_filter, decide_eq_true_iff]
    exact and_iff_left hne
  obtain ⟨item, hitem, hkind⟩ := (L.orchard_isSome hparse).mp horchard
  obtain ⟨container', hmake⟩ := L.tryFromItems hdecode List.filter_sublist
    ⟨item, (hkept .orchard (by decide) item hkind).mpr hitem, hkind⟩
  have hmem := L.mem_items hmake
  obtain ⟨bare, hbare⟩ := L.parse_of_subset hparse fun item hitem ↦
    List.filter_subset_self _ ((hmem item).mp hitem)
  refine ⟨X.encodeContainer networkType container', bare, ?_,
    ⟨rev, container', L.decode_encodeContainer hmake _, hbare⟩, ?_, ?_, ?_⟩
  · exact bind_eq_ok.mpr ⟨_, mapError_eq_ok.mpr hdecode, bind_eq_ok.mpr
      ⟨_, mapError_eq_ok.mpr hmake, rfl⟩⟩
  · refine L.orchard_congr hbare hparse fun item hkind ↦ ?_
    rw [hmem, hkept .orchard (by decide) item hkind]
  · refine L.p2pkh_congr hbare hparse fun item hkind ↦ ?_
    rw [hmem, hkept .p2pkh (by decide) item hkind]
  · rw [← Option.not_isSome_iff_eq_none, L.sapling_isSome hbare]
    rintro ⟨item, hitem, hkind⟩
    have h := (List.mem_filter.mp ((hmem item).mp hitem)).2
    exact of_decide_eq_true h hkind

omit L in
/-- The address to receive at comes from the Orchard part alone. -/
theorem orchardAddress_congr {s s' : String} {networkType : NetworkType} {ufvk ufvk' : U.Ufvk}
    (h : ReadsAs X s networkType ufvk) (h' : ReadsAs X s' networkType ufvk')
    (horchard : U.orchard ufvk' = U.orchard ufvk) :
    orchardAddressFromUfvk X s' = orchardAddressFromUfvk X s := by
  obtain ⟨rev, container, hdecode, hparse⟩ := h
  obtain ⟨rev', container', hdecode', hparse'⟩ := h'
  rw [orchardAddressFromUfvk, orchardAddressFromUfvk, hdecode, hdecode']
  show ((X.parse container').mapError _ >>= _) = (X.parse container).mapError _ >>= _
  rw [hparse, hparse']
  show (match U.orchard ufvk' with | none => _ | some _ => _) = match U.orchard ufvk with
    | none => _ | some _ => _
  rw [horchard]

/-- What is derived without Sapling in the text is what is derived with it, but for the text. -/
theorem deriveKeysWithOptions_bare {phrase : String} {account : Nat} {network : Network}
    {xpubPath : Option String} {full : DerivedKeys}
    (h : deriveKeys X phrase account network xpubPath = .ok full) :
    ∃ ufvk s' bare, ReadsAs X full.ufvk network.networkType ufvk ∧
      ReadsAs X s' network.networkType bare ∧ SaplingFree X ufvk bare ∧
      deriveKeysWithOptions X phrase account network xpubPath ⟨false⟩ =
        .ok { full with ufvk := s' } := by
  obtain ⟨mnemonic, hmnemonic, h⟩ := bind_eq_ok.mp h
  obtain ⟨u, hrange, h⟩ := bind_eq_ok.mp h
  obtain ⟨ufvk, hufvk, h⟩ := bind_eq_ok.mp h
  obtain ⟨encoded, hencoded, h⟩ := bind_eq_ok.mp h
  obtain ⟨text, htext, h⟩ := bind_eq_ok.mp h
  cases pure_eq_ok.mp htext
  obtain ⟨addr, haddr, h⟩ := bind_eq_ok.mp h
  obtain ⟨path, hpath, h⟩ := bind_eq_ok.mp h
  obtain ⟨root, hroot, h⟩ := bind_eq_ok.mp h
  obtain ⟨xprv, hxprv, h⟩ := bind_eq_ok.mp h
  cases pure_eq_ok.mp h
  have hreads := L.readsAs_encodeUfvk (mapError_eq_ok.mp hencoded)
  obtain ⟨s', bare, hrebuild, hbare, hfree⟩ := L.exists_bare hreads
    (L.orchard_ufvkFromSeed (mapError_eq_ok.mp hufvk))
  refine ⟨ufvk, s', bare, hreads, hbare, hfree, ?_⟩
  exact bind_eq_ok.mpr ⟨_, hmnemonic, bind_eq_ok.mpr ⟨_, hrange, bind_eq_ok.mpr ⟨_, hufvk,
    bind_eq_ok.mpr ⟨_, hencoded, bind_eq_ok.mpr ⟨_, hrebuild, bind_eq_ok.mpr ⟨_, haddr,
      bind_eq_ok.mpr ⟨_, hpath, bind_eq_ok.mpr ⟨_, hroot, bind_eq_ok.mpr
        ⟨_, hxprv, rfl⟩⟩⟩⟩⟩⟩⟩⟩⟩

end Keys

end LedgerZcash
