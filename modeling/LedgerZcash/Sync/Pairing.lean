import LedgerZcash.Crypto.Balance
import LedgerZcash.Sync.Craft

/-!
# Witnesses and spends

The notes of a request, the paths that `buildWitnesses` returns and the spends that
reach the builder are three lists in one order, whatever the order and the repetitions
of the notes and whatever the tree answers.  Every path is checked, so a request with a
note that has no consistent path is refused as a whole.
-/

namespace LedgerZcash

open Hex Collect

/-! ## Witnesses of notes -/

section Notes

variable {S : ShardTrees}

/-- The tree has a path for the note, from its commitment to the anchor. -/
structure HasWitness (S : ShardTrees) (tree : S.Tree) (anchor : Bytes32) (note : Nat × Bytes32)
    (path : S.Path) : Prop where
  answers : S.witnessAtCheckpoint tree note.1 = .ok (some path)
  root : ∃ h, S.fromBytes note.2 = some h ∧ S.toBytes (S.pathRoot path h) = anchor

theorem noteWitness_eq_ok {tree : S.Tree} {anchorHeight : Nat} {anchor : Bytes32}
    {note : Nat × Bytes32} {path : S.Path}
    (h : noteWitness S tree anchorHeight anchor note = .ok path) :
    HasWitness S tree anchor note path := by
  unfold noteWitness at h
  obtain ⟨path?, hpath, h⟩ := bind_eq_ok.mp h
  obtain ⟨path', hsome, h⟩ := bind_eq_ok.mp h
  obtain ⟨cmxHash, hcmx, h⟩ := bind_eq_ok.mp h
  obtain ⟨_, hroot, hout⟩ := bind_eq_ok.mp h
  cases pure_eq_ok.mp hout
  cases okOr_eq_ok.mp hsome
  rw [refuseIf_eq_ok, not_not] at hroot
  exact ⟨mapError_eq_ok.mp hpath, cmxHash, okOr_eq_ok.mp hcmx, hroot⟩

/-- `buildWitnesses` answers from one tree: its root is the anchor, and every note, in
order, gets a path of the tree that leads to it. -/
theorem buildWitnesses_eq_ok {inputs : WitnessInputs} {out : WitnessOutput S}
    (h : buildWitnesses S inputs = .ok out) :
    ∃ tree root, assembleTree S inputs = .ok tree ∧ S.rootAtCheckpoint tree = .ok (some root) ∧
      out.anchor = S.toBytes root ∧
      List.Forall₂ (HasWitness S tree out.anchor) inputs.notes out.witnesses := by
  unfold buildWitnesses at h
  obtain ⟨tree, htree, h⟩ := bind_eq_ok.mp h
  obtain ⟨anchor?, hanchor, h⟩ := bind_eq_ok.mp h
  obtain ⟨root, hroot, h⟩ := bind_eq_ok.mp h
  obtain ⟨witnesses, hwitnesses, hout⟩ := bind_eq_ok.mp h
  cases pure_eq_ok.mp hout
  cases okOr_eq_ok.mp hroot
  refine ⟨tree, root, htree, mapError_eq_ok.mp hanchor, rfl, ?_⟩
  exact (mapM_eq_ok_iff.mp hwitnesses).imp fun _ _ ↦ noteWitness_eq_ok

end Notes

/-! ## Spends -/

section Spends

variable {S : ShardTrees} {srv : Server} {pool : Pool}

/-- A spend is that of a requested note, and carries a path of the tree from the note's
commitment to the anchor. -/
structure SpendWitnessed (S : ShardTrees) (tree : S.Tree) (anchor : Bytes32) (dto : SpendInputDto)
    (spend : SpendInput S.Path) : Prop where
  recipient : hexToArray 43 dto.recipientHex "recipient" = .ok spend.recipient
  value : spend.value = dto.valueZat
  rho : hexToArray 32 dto.rhoHex "rho" = .ok spend.rho
  rseed : hexToArray 32 dto.rseedHex "rseed" = .ok spend.rseed
  path : ∃ cmx, hexToArray 32 dto.cmxHex "cmx" = .ok cmx ∧
    HasWitness S tree anchor (dto.position, cmx) spend.merklePath

/-- The tree has no path for a requested note, or none that leads to the anchor. -/
def Unwitnessed (S : ShardTrees) (tree : S.Tree) (anchor : Bytes32) (dto : SpendInputDto) : Prop :=
  ∀ cmx path, hexToArray 32 dto.cmxHex "cmx" = .ok cmx →
    ¬HasWitness S tree anchor (dto.position, cmx) path

/-- The tree that the witnesses of a request are read from at an anchor height, with its
root. -/
def IsWitnessTree (S : ShardTrees) (srv : Server) (pool : Pool) (anchorHeight : Nat)
    (dtos : List SpendInputDto) (tree : S.Tree) (root : S.Hash) : Prop :=
  ∃ notes wi, dtos.mapM noteRef = .ok notes ∧
    witnessInputs S srv pool ⟨some anchorHeight, none, notes⟩ = .ok wi ∧
    assembleTree S wi = .ok tree ∧ S.rootAtCheckpoint tree = .ok (some root)

theorem IsWitnessTree.unique {anchorHeight : Nat} {dtos : List SpendInputDto} {tree tree' : S.Tree}
    {root root' : S.Hash} (h : IsWitnessTree S srv pool anchorHeight dtos tree root)
    (h' : IsWitnessTree S srv pool anchorHeight dtos tree' root') :
    tree = tree' ∧ root = root' := by
  obtain ⟨notes, wi, hnotes, hwi, htree, hroot⟩ := h
  obtain ⟨notes', wi', hnotes', hwi', htree', hroot'⟩ := h'
  cases hnotes.symm.trans hnotes'
  cases hwi.symm.trans hwi'
  cases htree.symm.trans htree'
  cases hroot.symm.trans hroot'
  exact ⟨rfl, rfl⟩

theorem spendInput_eq_ok {dto : SpendInputDto} {mp : S.Path} {spend : SpendInput S.Path}
    (h : spendInput dto mp = .ok spend) :
    hexToArray 43 dto.recipientHex "recipient" = .ok spend.recipient ∧
      spend.value = dto.valueZat ∧ hexToArray 32 dto.rhoHex "rho" = .ok spend.rho ∧
      hexToArray 32 dto.rseedHex "rseed" = .ok spend.rseed ∧ spend.merklePath = mp := by
  unfold spendInput at h
  obtain ⟨recipient, hrecipient, h⟩ := bind_eq_ok.mp h
  obtain ⟨rho, hrho, h⟩ := bind_eq_ok.mp h
  obtain ⟨rseed, hrseed, hout⟩ := bind_eq_ok.mp h
  cases pure_eq_ok.mp hout
  exact ⟨hrecipient, rfl, hrho, hrseed, rfl⟩

theorem noteRef_eq_ok {dto : SpendInputDto} {note : NoteRef} (h : noteRef dto = .ok note) :
    hexToArray 32 dto.cmxHex "cmx" = .ok note.cmx ∧ note.position = dto.position := by
  unfold noteRef at h
  obtain ⟨cmx, hcmx, hout⟩ := bind_eq_ok.mp h
  cases pure_eq_ok.mp hout
  exact ⟨hcmx, rfl⟩

/-- Joining the request with the paths keeps each note with its own path. -/
theorem spends_of_zip {tree : S.Tree} {anchor : Bytes32} {dtos : List SpendInputDto}
    {notes : List NoteRef} {paths : List S.Path} {spends : List (SpendInput S.Path)}
    (hnotes : List.Forall₂ (fun dto note ↦ noteRef dto = .ok note) dtos notes)
    (hpaths : List.Forall₂ (HasWitness S tree anchor) (notes.map fun n ↦ (n.position, n.cmx)) paths)
    (hspends : (dtos.zip paths).mapM (fun (dto, mp) ↦ spendInput dto mp) = .ok spends) :
    List.Forall₂ (SpendWitnessed S tree anchor) dtos spends := by
  rw [mapM_eq_ok_iff] at hspends
  induction hnotes generalizing paths spends with
  | nil =>
      cases hspends
      exact .nil
  | cons hnote _ ih =>
      rw [List.map_cons] at hpaths
      cases hpaths with
      | cons hpath hpaths =>
          rw [List.zip_cons_cons] at hspends
          cases hspends with
          | cons hspend hspends =>
              obtain ⟨hcmx, hposition⟩ := noteRef_eq_ok hnote
              obtain ⟨hrecipient, hvalue, hrho, hrseed, rfl⟩ := spendInput_eq_ok hspend
              rw [hposition] at hpath
              exact .cons ⟨hrecipient, hvalue, hrho, hrseed, _, hcmx, hpath⟩ (ih hpaths hspends)

theorem witnessSpends_eq_ok {anchorHeight : Nat} {dtos : List SpendInputDto} {anchor : Bytes32}
    {spends : List (SpendInput S.Path)}
    (h : witnessSpends S srv pool anchorHeight dtos = .ok (anchor, spends)) :
    ∃ tree root, IsWitnessTree S srv pool anchorHeight dtos tree root ∧ anchor = S.toBytes root ∧
      List.Forall₂ (SpendWitnessed S tree anchor) dtos spends := by
  unfold witnessSpends at h
  obtain ⟨notes, hnotes, h⟩ := bind_eq_ok.mp h
  obtain ⟨out, hout, h⟩ := bind_eq_ok.mp h
  obtain ⟨_, _, h⟩ := bind_eq_ok.mp h
  obtain ⟨spends', hspends, hret⟩ := bind_eq_ok.mp h
  cases pure_eq_ok.mp hret
  obtain ⟨wi, hwi, hbuild⟩ := bind_eq_ok.mp hout
  obtain ⟨tree, root, htree, hroot, hanchor, hpaths⟩ :=
    buildWitnesses_eq_ok (orFail_eq_ok.mp hbuild)
  obtain ⟨stages⟩ := witnessInputs_eq_ok hwi
  rw [stages.notes_eq] at hpaths
  exact ⟨tree, root, ⟨notes, wi, hnotes, hwi, htree, hroot⟩, hanchor,
    spends_of_zip (mapM_eq_ok_iff.mp hnotes) hpaths hspends⟩

/-- An anchor comes with spends only when there are notes to spend. -/
theorem routeAnchor_eq_ok {anchorHeight : Nat} {needsAnchor : Bool} {dtos : List SpendInputDto}
    {anchor : Bytes32} {spends : List (SpendInput S.Path)}
    (h : routeAnchor S srv pool anchorHeight needsAnchor dtos = .ok (anchor, spends)) :
    (dtos = [] ∧ spends = []) ∨
      witnessSpends S srv pool anchorHeight dtos = .ok (anchor, spends) := by
  unfold routeAnchor at h
  split at h
  · exact .inr h
  · rename_i hempty
    have hnil : dtos = [] := by simpa using hempty
    refine .inl ⟨hnil, ?_⟩
    split at h
    · obtain ⟨_, _, hout⟩ := bind_eq_ok.mp h
      cases pure_eq_ok.mp hout
      rfl
    · cases pure_eq_ok.mp h
      rfl

end Spends

/-! ## What reaches the builder -/

section Requests

variable (S : ShardTrees) {T : CraftTypes S.Path} (tip : Except Failure Nat) (srv : Server)

/-- The anchor and the spends of what reaches the builder are those of the request, at
the height resolved from the tip. -/
def Routed (pool : Pool) (req : CommonRequest) (i : BuildInputs T) : Prop :=
  (∃ t, tip = .ok t ∧ resolveAnchorFromTip t req.anchorHeight = .ok i.anchorHeight) ∧
    ∃ needsAnchor, routeAnchor S srv pool i.anchorHeight needsAnchor req.spends =
      .ok (i.anchor, i.spends)

/-- Witnesses are sound on the way to the builder: spends that reach it are the requested
notes, one by one and each with its own path to the anchor, and a note without one keeps
the whole request from the builder. -/
structure WitnessSound (pool : Pool) (req : CommonRequest)
    (inputs : Except Failure (BuildInputs T)) (outcome : Except Failure BuildOutput) : Prop where
  paired : ∀ i, inputs = .ok i → i.spends ≠ [] → i.spends.length = req.spends.length ∧
    ∃ tree root, IsWitnessTree S srv pool i.anchorHeight req.spends tree root ∧
      i.anchor = S.toBytes root ∧ List.Forall₂ (SpendWitnessed S tree i.anchor) req.spends i.spends
  refused : ∀ t anchorHeight tree root, tip = .ok t →
    resolveAnchorFromTip t req.anchorHeight = .ok anchorHeight →
    IsWitnessTree S srv pool anchorHeight req.spends tree root →
    (∃ dto ∈ req.spends, Unwitnessed S tree (S.toBytes root) dto) →
    ∃ e, inputs = .error e ∧ outcome = .error e

variable {S tip srv} {pool : Pool} {req : CommonRequest}

theorem Routed.paired {i : BuildInputs T} (h : Routed S tip srv pool req i)
    (hne : req.spends ≠ []) :
    ∃ tree root, IsWitnessTree S srv pool i.anchorHeight req.spends tree root ∧
      i.anchor = S.toBytes root ∧
      List.Forall₂ (SpendWitnessed S tree i.anchor) req.spends i.spends := by
  obtain ⟨_, _, hroute⟩ := h
  rcases routeAnchor_eq_ok hroute with ⟨hnil, _⟩ | hspends
  · exact absurd hnil hne
  · exact witnessSpends_eq_ok hspends

/-- A note without a witness is not routed. -/
theorem Routed.not_unwitnessed {i : BuildInputs T} (h : Routed S tip srv pool req i)
    {t anchorHeight : Nat} {tree : S.Tree} {root : S.Hash} (htip : tip = .ok t)
    (hheight : resolveAnchorFromTip t req.anchorHeight = .ok anchorHeight)
    (htree : IsWitnessTree S srv pool anchorHeight req.spends tree root) {dto : SpendInputDto}
    (hdto : dto ∈ req.spends) : ¬Unwitnessed S tree (S.toBytes root) dto := by
  intro hmissing
  obtain ⟨tree', root', htree', hanchor, hspends⟩ := h.paired (List.ne_nil_of_mem hdto)
  obtain ⟨⟨t', htip', hheight'⟩, _⟩ := h
  cases htip.symm.trans htip'
  rw [Except.ok.inj (hheight'.symm.trans hheight)] at htree'
  obtain ⟨rfl, rfl⟩ := htree.unique htree'
  rw [hanchor] at hspends
  obtain ⟨n, hn, rfl⟩ := List.getElem_of_mem hdto
  obtain ⟨cmx, hcmx, hwitness⟩ := (hspends.get hn (hspends.length_eq ▸ hn)).path
  exact hmissing cmx _ hcmx hwitness

/-- An orchestrator whose inputs are routed is sound. -/
theorem witnessSound_of_routed {inputs : Except Failure (BuildInputs T)}
    {outcome : Except Failure BuildOutput}
    (hrouted : ∀ i, inputs = .ok i → Routed S tip srv pool req i)
    (houtcome : ∀ e, inputs = .error e → outcome = .error e) :
    WitnessSound S tip srv pool req inputs outcome where
  paired := by
    intro i hi hne
    have hspends : req.spends ≠ [] := by
      intro hnil
      obtain ⟨_, _, hroute⟩ := hrouted i hi
      rw [hnil] at hroute
      rcases routeAnchor_eq_ok hroute with ⟨_, hnone⟩ | hsome
      · exact hne hnone
      · obtain ⟨_, _, _, _, hpairs⟩ := witnessSpends_eq_ok hsome
        exact hne (List.forall₂_nil_left_iff.mp hpairs)
    obtain ⟨tree, root, htree, hanchor, hpairs⟩ := (hrouted i hi).paired hspends
    exact ⟨hpairs.length_eq.symm, tree, root, htree, hanchor, hpairs⟩
  refused := by
    rintro t anchorHeight tree root htip hheight htree ⟨dto, hdto, hmissing⟩
    cases hinputs : inputs with
    | ok i =>
        exact absurd hmissing ((hrouted i hinputs).not_unwitnessed htip hheight htree hdto)
    | error e => exact ⟨e, rfl, houtcome e hinputs⟩

end Requests

section Orchestrators

variable {S : ShardTrees} {T : CraftTypes S.Path} {K : WalletKeys T} {tip : Except Failure Nat}
  {srv : Server} {i : BuildInputs T}

variable (S K tip srv) in
/-- What an orchestrator hands to its builder, stage by stage, under an account key. -/
structure Assembled (pool : Pool) (req : CommonRequest)
    (decode : AnyZcashNetwork → String → Except Failure (Destination T)) (text : Nat → String)
    (apk : Option K.AccountPubKey) (i : BuildInputs T) : Prop where
  network : resolveAnyNetwork req.network req.regtestActivationHeights = .ok i.network
  seedFingerprint : hexToArray 32 req.seedFingerprintHex "seed_fingerprint" = .ok i.seedFingerprint
  accountIndex : i.accountIndex = req.accountIndex
  fee : i.fee = req.feeZat
  outputs : decodeOutputs (decode i.network) req.outputs = .ok i.outputs
  routed : Routed S tip srv pool req i
  inputs : decodeTransparentInputs K apk req.transparentInputs = .ok i.transparentInputs
  change : ∃ change, resolveTransparentChange K req apk text = .ok change ∧
    i.transparentChangeAddress = change.map TransparentChange.address ∧
    i.transparentChangePubkey = change.map TransparentChange.pubkey ∧
    i.transparentChangeAddressIndex = change.map TransparentChange.index

theorem craftInputs_eq_ok {req : CraftRequest} (h : craftInputs S K tip srv req = .ok i) :
    ∃ ufvk apk, req.ufvk.mapM (parseEncodedUfvk K) = .ok ufvk ∧
      resolveAccountPubkey K (ufvk.bind K.p2pkh) req.transparentAccountPubkeyHex = .ok apk ∧
      Assembled S K tip srv .orchard req.toCommonRequest (decodeDestination K)
        orchardSurplusText apk i := by
  unfold craftInputs at h
  obtain ⟨_, _, h⟩ := bind_eq_ok.mp h
  obtain ⟨_, _, h⟩ := bind_eq_ok.mp h
  obtain ⟨network, hnetwork, h⟩ := bind_eq_ok.mp h
  obtain ⟨seedFingerprint, hseed, h⟩ := bind_eq_ok.mp h
  obtain ⟨ufvk, hufvk, h⟩ := bind_eq_ok.mp h
  obtain ⟨outputs, houtputs, h⟩ := bind_eq_ok.mp h
  obtain ⟨keys, _, h⟩ := bind_eq_ok.mp h
  obtain ⟨apk, hapk, h⟩ := bind_eq_ok.mp h
  obtain ⟨change, hchange, h⟩ := bind_eq_ok.mp h
  obtain ⟨t, htip, h⟩ := bind_eq_ok.mp h
  obtain ⟨anchorHeight, hheight, h⟩ := bind_eq_ok.mp h
  obtain ⟨targetHeight, _, h⟩ := bind_eq_ok.mp h
  obtain ⟨⟨anchor, spends⟩, hroute, h⟩ := bind_eq_ok.mp h
  obtain ⟨transparentInputs, hinputs, hout⟩ := bind_eq_ok.mp h
  cases pure_eq_ok.mp hout
  exact ⟨ufvk, apk, hufvk, hapk, orFail_eq_ok.mp hnetwork, hseed, rfl, rfl, houtputs,
    ⟨⟨t, htip, hheight⟩, _, hroute⟩, hinputs, change, hchange, rfl, rfl, rfl⟩

theorem craftIronwoodInputs_eq_ok {req : IronwoodCraftRequest}
    (h : craftIronwoodInputs S K tip srv req = .ok i) :
    ∃ ufvk, parseEncodedUfvk K req.ufvk = .ok ufvk ∧
      Assembled S K tip srv .ironwood req.toCommonRequest (decodeIronwoodDestination K)
        ironwoodSurplusText (K.p2pkh ufvk) i := by
  unfold craftIronwoodInputs at h
  obtain ⟨_, _, h⟩ := bind_eq_ok.mp h
  obtain ⟨network, hnetwork, h⟩ := bind_eq_ok.mp h
  obtain ⟨seedFingerprint, hseed, h⟩ := bind_eq_ok.mp h
  obtain ⟨ufvk, hufvk, h⟩ := bind_eq_ok.mp h
  obtain ⟨outputs, houtputs, h⟩ := bind_eq_ok.mp h
  obtain ⟨_, _, h⟩ := bind_eq_ok.mp h
  obtain ⟨fvk, _, h⟩ := bind_eq_ok.mp h
  obtain ⟨change, hchange, h⟩ := bind_eq_ok.mp h
  obtain ⟨t, htip, h⟩ := bind_eq_ok.mp h
  obtain ⟨anchorHeight, hheight, h⟩ := bind_eq_ok.mp h
  obtain ⟨targetHeight, _, h⟩ := bind_eq_ok.mp h
  obtain ⟨⟨anchor, spends⟩, hroute, h⟩ := bind_eq_ok.mp h
  obtain ⟨transparentInputs, hinputs, hout⟩ := bind_eq_ok.mp h
  cases pure_eq_ok.mp hout
  exact ⟨ufvk, hufvk, orFail_eq_ok.mp hnetwork, hseed, rfl, rfl, houtputs,
    ⟨⟨t, htip, hheight⟩, _, hroute⟩, hinputs, change, hchange, rfl, rfl, rfl⟩

theorem craftInputs_routed {req : CraftRequest} (h : craftInputs S K tip srv req = .ok i) :
    Routed S tip srv .orchard req.toCommonRequest i := by
  obtain ⟨_, _, _, _, hassembled⟩ := craftInputs_eq_ok h
  exact hassembled.routed

theorem craftIronwoodInputs_routed {req : IronwoodCraftRequest}
    (h : craftIronwoodInputs S K tip srv req = .ok i) :
    Routed S tip srv .ironwood req.toCommonRequest i := by
  obtain ⟨_, _, hassembled⟩ := craftIronwoodInputs_eq_ok h
  exact hassembled.routed

end Orchestrators

/-- On either orchestrator, for every request and whatever the tree, the keys and the
server answer: spends that reach the builder are witnessed one by one, and a single note
without a witness refuses the request. -/
theorem witnesses_paired (S : ShardTrees) (T : CraftTypes S.Path) (K : WalletKeys T)
    (P : CraftUpstream T) (tip : Except Failure Nat) (srv : Server) :
    (∀ req : CraftRequest, WitnessSound S tip srv .orchard req.toCommonRequest
      (craftInputs S K tip srv req) (craftTransactionWithTip S K P tip srv req)) ∧
    (∀ req : IronwoodCraftRequest, WitnessSound S tip srv .ironwood req.toCommonRequest
      (craftIronwoodInputs S K tip srv req)
      (craftIronwoodTransactionWithTip S K P tip srv req)) := by
  constructor
  · intro req
    refine witnessSound_of_routed (fun i ↦ craftInputs_routed) fun e he ↦ ?_
    rw [craftTransactionWithTip, he]
    rfl
  · intro req
    refine witnessSound_of_routed (fun i ↦ craftIronwoodInputs_routed) fun e he ↦ ?_
    rw [craftIronwoodTransactionWithTip, he]
    rfl

/-! A chain of two leaves, and a request that spends the second, the first and again the
second. -/

section Sample

/-- A path is a position; it leads from the leaf `3 + position` to the root. -/
def positionTrees : ShardTrees where
  Hash := Bytes32
  Frontier := Option Nat
  Path := Nat
  Tree := Unit
  fromBytes := some
  toBytes := id
  readCommitmentTree _ := .ok (some 1)
  emptyFrontier := none
  frontierPosition := id
  frontierRoot _ := fill 32 9
  empty := ()
  insert _ _ _ := .ok ()
  insertFrontier _ _ _ := .ok ()
  batchInsert _ _ _ := .ok ()
  rootAtCheckpoint _ := .ok (some (fill 32 9))
  witnessAtCheckpoint _ position := .ok (some position)
  pathRoot path cmx := if cmx = fill 32 (UInt8.ofNat (3 + path)) then fill 32 9 else fill 32 0

def leafAction (cmx : UInt8) : Proto.CompactOrchardAction :=
  ⟨List.replicate 32 1, List.replicate 32 cmx, List.replicate 32 0, List.replicate 52 0⟩

def leafServer : Server where
  connect := .ok ()
  getLatestBlock := .ok 1
  getBlockRange _ _ := .ok [.ok ⟨1, [], 0, [⟨[1], [], [leafAction 3, leafAction 4], []⟩], none⟩]
  getTransaction _ _ := .error "not served"
  getTreeState _ := .ok ⟨"01", ""⟩
  getSubtreeRoots _ _ := .ok []

/-- One account; every address is transparent. -/
def sampleKeys : WalletKeys (plainTypes Nat) where
  Ufvk := Unit
  AccountPubKey := Unit
  decodeUfvk := .ok
  parseUfvk _ := .ok ()
  orchard _ := some ()
  p2pkh _ := none
  addressAt _ _ _ := (0 : Nat)
  toOvk _ _ := ()
  deserializeAccount _ := .ok ()
  serializeAccount _ := fill 65 0
  internalDefaultAddress _ := none
  validIndex _ := true
  deriveAddressPubkey _ _ _ := .error "not derived"
  decodeAddress _ _ := some (.transparent (1 : Nat))

def leafSpend (position : Nat) : SpendInputDto where
  recipientHex := Hex.encode (List.replicate 43 0)
  valueZat := 10000
  rhoHex := Hex.encode (List.replicate 32 0)
  rseedHex := Hex.encode (List.replicate 32 0)
  cmxHex := Hex.encode (List.replicate 32 (UInt8.ofNat (3 + position)))
  position

def leafRequest : CraftRequest where
  network := none
  regtestActivationHeights := none
  seedFingerprintHex := Hex.encode (List.replicate 32 0)
  accountIndex := 0
  feeZat := 10000
  spends := [leafSpend 1, leafSpend 0, leafSpend 1]
  transparentInputs := []
  outputs := [⟨"t", 5000, none⟩]
  anchorHeight := some 1
  ufvk := some "u"
  transparentAccountPubkeyHex := none

/-- The request reaches the builder with its three spends. -/
theorem witnesses_paired_leaves :
    ∃ i, craftInputs positionTrees sampleKeys (.ok 11) leafServer leafRequest = .ok i ∧
      i.spends.length = 3 ∧ ∃ tree root,
        IsWitnessTree positionTrees leafServer .orchard i.anchorHeight leafRequest.spends tree
          root ∧
        i.anchor = root ∧
        List.Forall₂ (SpendWitnessed positionTrees tree i.anchor) leafRequest.spends i.spends := by
  have hrun : (craftInputs positionTrees sampleKeys (.ok 11) leafServer leafRequest).toOption.map
      (fun i ↦ i.spends.length) = some 3 := by decide +kernel
  obtain ⟨i, hi, hlen⟩ := Option.map_eq_some_iff.mp hrun
  have hsound := (witnesses_paired positionTrees (plainTypes Nat) sampleKeys (permissive Nat)
    (.ok 11) leafServer).1 leafRequest
  refine ⟨i, toOption_eq_some.mp hi, hsound.paired i (toOption_eq_some.mp hi) ?_⟩
  rintro hnil
  rw [hnil] at hlen
  cases hlen

end Sample

end LedgerZcash
